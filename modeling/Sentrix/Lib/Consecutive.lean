import Mathlib

/-!
Lists whose keys count up by one from a given number, and what remains of them
when an end is cut off: the entries from some key on, or those in front of the
first one that goes.
-/
namespace Consecutive
open List
variable {α : Type} {key : α → Nat}

def From (key : α → Nat) : Nat → List α → Prop
  | _, [] => True
  | n, x :: rest => key x = n ∧ From key (n + 1) rest

instance From.decidable (key : α → Nat) : ∀ n l, Decidable (From key n l)
  | _, [] => inferInstanceAs (Decidable True)
  | n, x :: rest =>
    have := From.decidable key (n + 1) rest
    inferInstanceAs (Decidable (key x = n ∧ From key (n + 1) rest))

theorem From.le {n : Nat} {l : List α} (counted : From key n l) {x : α} (inside : x ∈ l) :
    n ≤ key x := by
  induction l generalizing n with
  | nil => cases inside
  | cons y rest ih =>
    obtain ⟨first, others⟩ := counted
    rcases List.mem_cons.mp inside with rfl | later
    · omega
    · have bound := ih others later
      omega

theorem From.append {n : Nat} {l : List α} (counted : From key n l) {x : α}
    (next : key x = n + l.length) : From key n (l ++ [x]) := by
  induction l generalizing n with
  | nil => exact ⟨next, trivial⟩
  | cons y rest ih =>
    obtain ⟨first, others⟩ := counted
    refine ⟨first, ih others ?_⟩
    rw [length_cons] at next
    omega

/-- Once an entry goes, all behind it go. -/
theorem From.filter_front {n : Nat} {l : List α} (counted : From key n l) {keep : α → Bool}
    (closing : l.Pairwise fun x y => keep x = false → keep y = false) :
    From key n (l.filter keep) := by
  induction l generalizing n with
  | nil => trivial
  | cons x rest ih =>
    obtain ⟨first, others⟩ := counted
    obtain ⟨ahead, closing⟩ := List.pairwise_cons.mp closing
    cases kept : keep x with
    | true =>
      rw [filter_cons_of_pos kept]
      exact ⟨first, ih others closing⟩
    | false =>
      have none : rest.filter keep = [] := by
        apply List.filter_eq_nil_iff.mpr
        intro y inside
        rw [ahead y inside kept]
        exact Bool.false_ne_true
      rw [filter_cons_of_neg (by simp [kept]), none]
      trivial

theorem From.filter_ge {n m : Nat} {l : List α} (counted : From key n l) (above : n ≤ m) :
    From key m (l.filter fun x => m ≤ key x) := by
  induction l generalizing n with
  | nil => trivial
  | cons x rest ih =>
    by_cases here : m ≤ n
    · obtain rfl : m = n := by omega
      have all : (x :: rest).filter (fun x => m ≤ key x) = x :: rest := by
        apply List.filter_eq_self.mpr
        intro y inside
        exact decide_eq_true (counted.le inside)
      rw [all]
      exact counted
    · obtain ⟨first, others⟩ := counted
      have below : ¬ m ≤ key x := by omega
      rw [filter_cons_of_neg (by simpa using below)]
      exact ih others (by omega)

end Consecutive
