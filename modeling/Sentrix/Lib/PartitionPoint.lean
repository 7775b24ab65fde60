import Mathlib

/-!
The partition point of a list by halving, as the standard library of Rust computes
it on a slice: on a list whose elements with the property all come first it is
their number, on any other list it is whatever the probes lead to.
-/
namespace PartitionPoint
open List
variable {α : Type}

def probe (p : α → Bool) (l : List α) (i : Nat) : Bool :=
  (l[i]?).any p

/-- The loop with `size` candidates from `base` on; the fuel bounds the number of halvings. -/
def halve (p : α → Bool) (l : List α) : Nat → Nat → Nat → Nat
  | 0, _, base => base
  | fuel + 1, size, base =>
    if size ≤ 1 then base + (if probe p l base then 1 else 0)
    else
      let half := size / 2
      halve p l fuel (size - half) (if probe p l (base + half) then base + half else base)

def partitionPoint (p : α → Bool) (l : List α) : Nat :=
  if l.length = 0 then 0 else halve p l l.length l.length 0

section
variable {p : α → Bool} {yes no : List α}

theorem probe_split (all : ∀ x ∈ yes, p x = true) (none : ∀ x ∈ no, p x = false) (i : Nat) :
    probe p (yes ++ no) i = decide (i < yes.length) := by
  unfold probe
  by_cases early : i < yes.length
  · rw [List.getElem?_append_left early, List.getElem?_eq_getElem early, Option.any_some,
      all _ (getElem_mem early), decide_eq_true early]
  · rw [List.getElem?_append_right (Nat.not_lt.mp early), decide_eq_false early]
    cases found : no[i - yes.length]? with
    | none => rfl
    | some x =>
      rw [Option.any_some]
      exact none x (mem_of_getElem? found)

/-- The point stays between the base and the last candidate. -/
theorem halve_split (all : ∀ x ∈ yes, p x = true) (none : ∀ x ∈ no, p x = false) (fuel : Nat) :
    ∀ size base, 0 < size → size ≤ fuel → base ≤ yes.length → yes.length ≤ base + size →
      halve p (yes ++ no) fuel size base = yes.length := by
  induction fuel with
  | zero => intros; omega
  | succ fuel ih =>
    intro size base some bound low high
    unfold halve
    split
    · rw [probe_split all none]
      by_cases before : base < yes.length
      · rw [decide_eq_true before, if_pos rfl]
        omega
      · rw [decide_eq_false before, if_neg Bool.false_ne_true]
        omega
    · dsimp only
      rw [probe_split all none]
      by_cases before : base + size / 2 < yes.length
      · rw [decide_eq_true before, if_pos rfl]
        apply ih <;> omega
      · rw [decide_eq_false before, if_neg Bool.false_ne_true]
        apply ih <;> omega

theorem partitionPoint_split (all : ∀ x ∈ yes, p x = true) (none : ∀ x ∈ no, p x = false) :
    partitionPoint p (yes ++ no) = yes.length := by
  unfold partitionPoint
  have total : (yes ++ no).length = yes.length + no.length := length_append
  split
  · omega
  · exact halve_split all none _ _ 0 (by omega) (Nat.le_refl _) (Nat.zero_le _) (by omega)

end
end PartitionPoint
