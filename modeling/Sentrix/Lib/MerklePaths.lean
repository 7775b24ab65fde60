import Sentrix.Lib.SparseMerkle

/-!
Proof paths in a sparse Merkle tree. The siblings beside a path rebuild the root from
what the path ends in. Conversely, siblings that lead from some digest to the root of a
tree lead down to a part of that tree with this digest, unless hashed nodes collide.
-/
namespace SparseMerkle.Tree
open List
variable {K V H : Type}

section
variable (digest : Preimage K V H → H)

/-- From the bottom of the path up; the first bit is the one at the root. -/
def rebuild : List Bool → List H → H → H
  | b :: bits, s :: siblings, h => digest (.beside b (rebuild bits siblings h) s)
  | _, _, h => h

def rebuilt : List Bool → List H → H → List (Preimage K V H)
  | b :: bits, s :: siblings, h =>
    .beside b (rebuild digest bits siblings h) s :: rebuilt bits siblings h
  | _, _, _ => []

def siblings : List Bool → Tree K V → List H
  | b :: rest, .branch l r =>
    root digest rest.length (if b then l else r) :: siblings rest (if b then r else l)
  | _, _ => []

end

def terminal : List Bool → Tree K V → Tree K V
  | b :: rest, .branch l r => terminal rest (if b then r else l)
  | _, t => t

section
variable {digest : Preimage K V H → H} {U : Set (Preimage K V H)} {n : Nat} {t : Tree K V}

theorem Within.mono {U' : Set (Preimage K V H)} (within : Within digest U n t) (more : U ⊆ U') :
    Within digest U' n t :=
  ⟨fun p inside => more (within.nodes p inside), fun p inside => more (within.empties p inside)⟩

theorem rebuild_nil (bits : List Bool) (h : H) : rebuild digest bits [] h = h := by
  cases bits <;> rfl

theorem rebuild_concat {bits : List Bool} {siblings : List H} {b : Bool} {s h : H}
    (level : bits[siblings.length]? = some b) :
    rebuild digest bits (siblings ++ [s]) h =
      rebuild digest bits siblings (digest (.beside b h s)) := by
  induction siblings generalizing bits with
  | nil =>
    cases bits with
    | nil => cases level
    | cons =>
      cases level
      simp [rebuild, rebuild_nil]
  | cons first rest ih =>
    cases bits with
    | nil => cases level
    | cons b' rest' =>
      rw [cons_append, rebuild, rebuild, ih (by simpa using level)]

theorem rebuilt_nil (bits : List Bool) (h : H) : rebuilt digest bits [] h = [] := by
  cases bits <;> rfl

theorem length_siblings (bits : List Bool) (t : Tree K V) :
    (siblings digest bits t).length ≤ bits.length := by
  fun_induction siblings digest bits t with
  | case1 _ _ _ _ ih => exact Nat.succ_le_succ ih
  | case2 => exact Nat.zero_le _

theorem rebuild_siblings (bits : List Bool) (t : Tree K V) :
    rebuild digest bits (siblings digest bits t)
      (root digest (bits.length - (siblings digest bits t).length) (terminal bits t)) =
        root digest bits.length t := by
  induction bits generalizing t with
  | nil => cases t <;> rfl
  | cons b _ ih =>
    cases t with
    | empty => rfl
    | leaf => rfl
    | branch =>
      simp only [siblings, terminal, rebuild, length_cons, Nat.add_sub_add_right, ih]
      rw [branch_eq_beside b, root_beside]

theorem rebuilt_siblings (bits : List Bool) (t : Tree K V) :
    ∀ p ∈ rebuilt digest bits (siblings digest bits t)
      (root digest (bits.length - (siblings digest bits t).length) (terminal bits t)),
        p ∈ nodes digest bits.length t := by
  induction bits generalizing t with
  | nil => cases t <;> exact nofun
  | cons b _ ih =>
    cases t with
    | empty => exact nofun
    | leaf => exact nofun
    | branch =>
      intro p inside
      simp only [siblings, terminal, rebuilt, length_cons, Nat.add_sub_add_right,
        rebuild_siblings, mem_cons] at inside
      rw [branch_eq_beside b, length_cons, mem_nodes_beside]
      exact inside.imp_right fun below => .inl (ih _ p below)

theorem terminal_placed {path : K → List Bool} {bits pre : List Bool}
    (placed : Placed path bits.length pre t) (l r : Tree K V) : terminal bits t ≠ .branch l r := by
  induction bits generalizing t pre with
  | nil =>
    cases t with
    | branch => exact absurd placed.1 (Nat.lt_irrefl 0)
    | _ => exact nofun
  | cons b _ ih =>
    cases t with
    | branch => exact ih (placed_branch placed b).1
    | _ => exact nofun

theorem nodes_terminal (bits : List Bool) (t : Tree K V) {k : K} {v : V}
    (ends : terminal bits t = .leaf k v) : .leaf k v ∈ nodes digest bits.length t := by
  induction bits generalizing t with
  | nil =>
    cases t with
    | leaf =>
      cases ends
      exact mem_cons_self
    | _ => cases ends
  | cons b _ ih =>
    cases t with
    | empty => cases ends
    | leaf =>
      cases ends
      exact mem_cons_self
    | branch =>
      rw [branch_eq_beside b, length_cons, mem_nodes_beside]
      exact .inr (.inl (ih _ ends))

section
variable [DecidableEq K] {q : K}

theorem find_terminal (bits : List Bool) (t : Tree K V) :
    find q bits t = find q [] (terminal bits t) := by
  induction bits generalizing t with
  | nil => cases t <;> rfl
  | cons _ _ ih =>
    cases t with
    | empty => rfl
    | leaf => rfl
    | branch => exact ih _

end

theorem eq_leaf_of_root (free : Set.InjOn digest U) (within : Within digest U n t) {k : K} {v : V}
    (hashed : .leaf k v ∈ U) (same : root digest n t = digest (.leaf k v)) : t = .leaf k v := by
  cases t with
  | empty =>
    cases n with
    | zero => cases free (within.empties _ mem_cons_self) hashed same
    | succ => cases free (within.empties _ mem_cons_self) hashed same
  | leaf =>
    cases free (within.nodes _ mem_cons_self) hashed same
    rfl
  | branch => cases free (within.nodes _ mem_cons_self) hashed same

theorem beside_inj {b : Bool} {child sibling child' sibling' : H}
    (same : (Preimage.beside b child sibling : Preimage K V H) = .beside b child' sibling') :
    child = child' ∧ sibling = sibling' := by
  cases b
  · exact Preimage.branch.inj same
  · exact (Preimage.branch.inj same).symm

theorem beside_ne_leaf {b : Bool} {child sibling : H} {k : K} {v : V} :
    (Preimage.beside b child sibling : Preimage K V H) ≠ .leaf k v := by
  cases b <;> exact nofun

theorem beside_self (b : Bool) (h : H) :
    (Preimage.beside b h h : Preimage K V H) = .branch h h := by
  cases b <;> rfl

structure Below [DecidableEq K] (digest : Preimage K V H → H) (U : Set (Preimage K V H))
    (bits : List Bool) (depth : Nat) (t : Tree K V) (h : H) (part : Tree K V) : Prop where
  root : root digest (bits.length - depth) part = h
  within : Within digest U (bits.length - depth) part
  find (q : K) : find q bits t = find q (bits.drop depth) part

theorem below_of_rebuild [DecidableEq K] (free : Set.InjOn digest U) {bits : List Bool}
    {beside : List H} {h : H} (within : Within digest U bits.length t)
    (inside : ∀ p ∈ rebuilt digest bits beside h, p ∈ U) (short : beside.length ≤ bits.length)
    (same : rebuild digest bits beside h = root digest bits.length t) :
    ∃ part, Below digest U bits beside.length t h part := by
  induction beside generalizing bits t with
  | nil =>
    rw [rebuild_nil] at same
    exact ⟨t, same.symm, within, fun _ => rfl⟩
  | cons _ others ih =>
    cases bits with
    | nil => cases short
    | cons b rest =>
      have hashed := inside _ mem_cons_self
      have later := fun p below => inside p (mem_cons_of_mem _ below)
      -- the child on the path, which in an empty tree is empty too
      obtain ⟨child, into, found, step⟩ : ∃ child, Within digest U rest.length child ∧
          (∀ q, find q (b :: rest) t = find q rest child) ∧
          rebuild digest rest others h = root digest rest.length child := by
        cases t with
        | empty =>
          have equal := free hashed (within.empties _ mem_cons_self) same
          rw [← beside_self b] at equal
          exact ⟨.empty, ⟨nofun, fun p below => within.empties p (mem_cons_of_mem _ below)⟩,
            fun _ => by rw [find_empty, find_empty], (beside_inj equal).1⟩
        | leaf => exact absurd (free hashed (within.nodes _ mem_cons_self) same) beside_ne_leaf
        | branch l r =>
          rw [branch_eq_beside b, length_cons] at within
          have equal := free hashed within.beside.1
            (same.trans (by rw [branch_eq_beside b, length_cons, root_beside]))
          exact ⟨_, within.beside.2.1, fun _ => find_branch b rest l r, (beside_inj equal).1⟩
      obtain ⟨part, root, within, find⟩ := ih into later (Nat.le_of_succ_le_succ short) step
      refine ⟨part, ?_, ?_, fun q => (found q).trans (find q)⟩
      · simpa using root
      · simpa using within

end
end SparseMerkle.Tree
