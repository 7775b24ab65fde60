import Sentrix.Lib.SparseMerkle

/-!
Sparse Merkle trees without needless branches: an empty side stands only beside a
branch. Insertion and canonical deletion keep a tree so, and such a tree is determined
by what is found in it.
-/
namespace SparseMerkle.Tree
open List
variable {K V : Type}

def IsBranch : Tree K V → Prop
  | .branch _ _ => True
  | _ => False

def Compact : Tree K V → Prop
  | .empty => True
  | .leaf _ _ => True
  | .branch l r => Compact l ∧ Compact r ∧ (l = .empty → IsBranch r) ∧ (r = .empty → IsBranch l)

@[simp] theorem isBranch_branch (l r : Tree K V) : IsBranch (.branch l r) := trivial
@[simp] theorem compact_empty : Compact (.empty : Tree K V) := trivial
@[simp] theorem compact_leaf (k : K) (v : V) : Compact (.leaf k v) := trivial

theorem isBranch_beside (b : Bool) (child sibling : Tree K V) :
    IsBranch (beside b child sibling) := by
  cases b <;> trivial

theorem compact_beside {b : Bool} {child sibling : Tree K V} :
    Compact (beside b child sibling) ↔ Compact child ∧ Compact sibling ∧
      (child = .empty → IsBranch sibling) ∧ (sibling = .empty → IsBranch child) := by
  cases b
  · exact Iff.rfl
  · constructor
    · rintro ⟨first, second, third, fourth⟩
      exact ⟨second, first, fourth, third⟩
    · rintro ⟨first, second, third, fourth⟩
      exact ⟨second, first, fourth, third⟩

theorem compact_branch {l r : Tree K V} (compact : Compact (.branch l r)) (b : Bool) :
    Compact (if b then r else l) ∧ Compact (if b then l else r) ∧
      ((if b then r else l) = .empty → IsBranch (if b then l else r)) ∧
      ((if b then l else r) = .empty → IsBranch (if b then r else l)) := by
  rw [branch_eq_beside b] at compact
  exact compact_beside.mp compact

theorem Compact.solid {t : Tree K V} (compact : Compact t) : Solid t := by
  induction t with
  | empty => trivial
  | leaf => trivial
  | branch _ _ ihl ihr =>
    refine ⟨ihl compact.1, ihr compact.2.1, ?_⟩
    rintro ⟨left, rfl⟩
    exact compact.2.2.1 left

section
variable [DecidableEq K] {path : K → List Bool} {key : K} {value : V} {bits : List Bool}

omit [DecidableEq K] in
theorem compact_fork {other : K} {old : V} {bits' : List Bool} (differ : bits ≠ bits')
    (lengths : bits.length = bits'.length) :
    Compact (fork key value other old bits bits') ∧
      IsBranch (fork key value other old bits bits') := by
  induction bits generalizing bits' with
  | nil => exact absurd (List.length_eq_zero_iff.mp lengths.symm).symm differ
  | cons b rest ih =>
    obtain ⟨b', rest', rfl⟩ := exists_cons_of_length_eq_add_one lengths.symm
    unfold fork
    split
    · rename_i joint
      subst joint
      obtain ⟨compact, branch⟩ := ih (fun same => differ (by rw [same])) (Nat.succ.inj lengths)
      refine ⟨compact_beside.mpr ⟨compact, trivial, fun none => ?_, fun _ => branch⟩,
        isBranch_beside _ _ _⟩
      rw [none] at branch
      exact branch.elim
    · exact ⟨compact_beside.mpr ⟨trivial, trivial, by simp, by simp⟩, isBranch_beside _ _ _⟩

variable {pre : List Bool} {t : Tree K V}

/-- A branch stays one; an empty side gets a leaf only beside a branch. -/
theorem compact_insert (inj : Function.Injective path) (placed : Placed path bits.length pre t)
    (here : path key = pre ++ bits) (compact : Compact t) :
    Compact (insert path key value bits pre.length t) ∧
      (IsBranch t → IsBranch (insert path key value bits pre.length t)) := by
  induction bits generalizing pre t with
  | nil =>
    cases t with
    | empty => exact ⟨trivial, False.elim⟩
    | branch => exact absurd placed.1 (Nat.lt_irrefl 0)
    | leaf =>
      unfold insert
      split
      · exact ⟨trivial, False.elim⟩
      · exact ⟨trivial, False.elim⟩
  | cons b rest ih =>
    cases t with
    | empty => exact ⟨trivial, False.elim⟩
    | leaf k v =>
      rw [insert_leaf]
      split
      · exact ⟨trivial, False.elim⟩
      · rename_i other
        obtain ⟨split, length⟩ := drop_path (b :: rest) placed.1 placed.2
        have differ : b :: rest ≠ (path k).drop pre.length := by
          intro same
          rw [← same] at split
          exact other (inj (split.trans here.symm))
        exact ⟨(compact_fork differ length).1, False.elim⟩
    | branch l r =>
      obtain ⟨inner, outer, beyond, within⟩ := compact_branch compact b
      have inside := (placed_branch placed b).1
      obtain ⟨below, kept⟩ := ih inside (regroup here) inner
      have full : insert path key value rest (pre ++ [b]).length (if b then r else l) ≠ .empty :=
        (placed_insert inj inside inner.solid (regroup here)).2.2
      rw [length_append] at below kept full
      rw [insert_branch]
      exact ⟨compact_beside.mpr ⟨below, outer, fun none => absurd none full,
        fun none => kept (within none)⟩, fun _ => isBranch_beside _ _ _⟩

omit [DecidableEq K] in
theorem compact_rejoin {b : Bool} {child sibling : Tree K V} (inner : Compact child)
    (outer : Compact sibling) : Compact (rejoin true b child sibling) := by
  cases child <;> cases sibling <;>
    simp [rejoin, compact_beside, inner, outer]

theorem compact_remove? {left : Tree K V} (compact : Compact t)
    (gone : remove? true key bits t = some left) : Compact left := by
  induction bits generalizing t left with
  | nil =>
    cases t with
    | empty => cases gone
    | branch => cases gone
    | leaf =>
      obtain ⟨-, rfl⟩ := remove?_leaf gone
      trivial
  | cons b _ ih =>
    cases t with
    | empty => cases gone
    | leaf =>
      obtain ⟨-, rfl⟩ := remove?_leaf gone
      trivial
    | branch =>
      obtain ⟨inside, below, rfl⟩ := Option.map_eq_some_iff.mp gone
      obtain ⟨inner, outer, -, -⟩ := compact_branch compact b
      exact compact_rejoin (ih inner below) outer

theorem compact_remove (compact : Compact t) : Compact (remove true key bits t) := by
  unfold remove
  cases gone : remove? true key bits t with
  | none => exact compact
  | some => exact compact_remove? compact gone

/-- The key is on the way and has a value. -/
def Found (path : K → List Bool) (n : Nat) (pre : List Bool) (t : Tree K V) (q : K) : Prop :=
  ∃ bits v, path q = pre ++ bits ∧ bits.length = n ∧ find q bits t = some v

variable {n : Nat} {l r : Tree K V} {q : K}

theorem found_branch {b : Bool} (found : Found path n (pre ++ [b]) (if b then r else l) q) :
    Found path (n + 1) pre (.branch l r) q := by
  obtain ⟨bits, v, on, length, has⟩ := found
  exact ⟨b :: bits, v, by rw [on, append_assoc]; rfl, by rw [length_cons, length],
    (find_branch b bits l r).trans has⟩

variable {k : K} {v : V}

theorem found_leaf (placed : Placed path n pre (.leaf k v)) : Found path n pre (.leaf k v) k := by
  obtain ⟨⟨bits, on⟩, length⟩ := placed
  rw [← on, length_append] at length
  exact ⟨bits, v, on.symm, Nat.add_left_cancel length, by rw [find_leaf, if_pos rfl]⟩

theorem exists_found (placed : Placed path n pre t) (compact : Compact t) (full : t ≠ .empty) :
    ∃ q, Found path n pre t q := by
  induction t generalizing n pre with
  | empty => exact absurd rfl full
  | leaf k => exact ⟨k, found_leaf placed⟩
  | branch l r ihl ihr =>
    obtain ⟨m, rfl⟩ := Nat.exists_eq_succ_of_ne_zero (Nat.ne_of_gt placed.1)
    by_cases left : l = .empty
    · have right : r ≠ .empty := by
        rintro rfl
        exact compact.2.2.1 left
      obtain ⟨q, found⟩ := ihr placed.2.2 compact.2.1 right
      exact ⟨q, @found_branch _ _ _ _ _ _ _ _ _ true found⟩
    · obtain ⟨q, found⟩ := ihl placed.2.1 compact.1 left
      exact ⟨q, @found_branch _ _ _ _ _ _ _ _ _ false found⟩

/-- Below a branch there are two keys. -/
theorem two_found (placed : Placed path n pre t) (compact : Compact t) (branch : IsBranch t) :
    ∃ q q', q ≠ q' ∧ Found path n pre t q ∧ Found path n pre t q' := by
  induction t generalizing n pre with
  | empty => exact branch.elim
  | leaf => exact branch.elim
  | branch l r ihl ihr =>
    obtain ⟨m, rfl⟩ := Nat.exists_eq_succ_of_ne_zero (Nat.ne_of_gt placed.1)
    by_cases left : l = .empty
    · obtain ⟨q, q', apart, first, second⟩ := ihr placed.2.2 compact.2.1 (compact.2.2.1 left)
      exact ⟨q, q', apart, @found_branch _ _ _ _ _ _ _ _ _ true first,
        @found_branch _ _ _ _ _ _ _ _ _ true second⟩
    · by_cases right : r = .empty
      · obtain ⟨q, q', apart, first, second⟩ := ihl placed.2.1 compact.1 (compact.2.2.2 right)
        exact ⟨q, q', apart, @found_branch _ _ _ _ _ _ _ _ _ false first,
          @found_branch _ _ _ _ _ _ _ _ _ false second⟩
      · obtain ⟨q, first⟩ := exists_found placed.2.1 compact.1 left
        obtain ⟨q', second⟩ := exists_found placed.2.2 compact.2.1 right
        refine ⟨q, q', ?_, @found_branch _ _ _ _ _ _ _ _ _ false first,
          @found_branch _ _ _ _ _ _ _ _ _ true second⟩
        obtain ⟨bits, -, on, -, -⟩ := first
        obtain ⟨bits', -, on', -, -⟩ := second
        rw [append_assoc] at on on'
        exact ne_of_bits Bool.false_ne_true on on'

/-- The two trees answer alike below the same beginning of a path. -/
def Alike (path : K → List Bool) (n : Nat) (pre : List Bool) (t t' : Tree K V) : Prop :=
  ∀ q bits, path q = pre ++ bits → bits.length = n → find q bits t = find q bits t'

variable {t' : Tree K V}

theorem Alike.symm (alike : Alike path n pre t t') : Alike path n pre t' t :=
  fun q bits on length => (alike q bits on length).symm

theorem Alike.found (alike : Alike path n pre t t') (found : Found path n pre t q) :
    Found path n pre t' q := by
  obtain ⟨bits, v, on, length, has⟩ := found
  exact ⟨bits, v, on, length, (alike q bits on length).symm.trans has⟩

theorem Alike.below {l' r' : Tree K V}
    (alike : Alike path (n + 1) pre (.branch l r) (.branch l' r')) (b : Bool) :
    Alike path n (pre ++ [b]) (if b then r else l) (if b then r' else l') := by
  intro q bits on length
  rw [append_assoc] at on
  have same := alike q (b :: bits) on (by rw [length_cons, length])
  rwa [find_branch, find_branch] at same

theorem not_found_empty (found : Found path n pre (.empty : Tree K V) q) : False := by
  obtain ⟨bits, v, -, -, has⟩ := found
  rw [find_empty] at has
  cases has

theorem eq_of_found_leaf (found : Found path n pre (.leaf k v) q) : k = q := by
  obtain ⟨bits, v', -, -, has⟩ := found
  rw [find_leaf] at has
  by_contra other
  rw [if_neg other] at has
  cases has

theorem not_alike_leaf_branch (placed : Placed path n pre (.branch l r))
    (compact : Compact (.branch l r)) (alike : Alike path n pre (.branch l r) (.leaf k v)) :
    False := by
  obtain ⟨q, q', apart, first, second⟩ := two_found placed compact trivial
  exact apart ((eq_of_found_leaf (alike.found first)).symm.trans
    (eq_of_found_leaf (alike.found second)))

theorem eq_empty_of_alike (placed : Placed path n pre t) (compact : Compact t)
    (alike : Alike path n pre t .empty) : t = .empty := by
  by_contra full
  obtain ⟨q, found⟩ := exists_found placed compact full
  exact not_found_empty (alike.found found)

/-- Compact trees with one content are one tree. -/
theorem eq_of_alike (placed : Placed path n pre t) (placed' : Placed path n pre t')
    (compact : Compact t) (compact' : Compact t') (alike : Alike path n pre t t') : t = t' := by
  induction t generalizing n pre t' with
  | empty => exact (eq_empty_of_alike placed' compact' alike.symm).symm
  | leaf =>
    cases t' with
    | empty => exact eq_empty_of_alike placed compact alike
    | branch => exact (not_alike_leaf_branch placed' compact' alike.symm).elim
    | leaf =>
      obtain ⟨bits, v'', on, length, has⟩ := found_leaf placed
      have same := eq_of_found_leaf (alike.found ⟨bits, v'', on, length, has⟩)
      subst same
      have value := alike _ bits on length
      rw [find_leaf, find_leaf, if_pos rfl, if_pos rfl] at value
      rw [Option.some.inj value]
  | branch _ _ ihl ihr =>
    cases t' with
    | empty => exact eq_empty_of_alike placed compact alike
    | leaf => exact (not_alike_leaf_branch placed compact alike).elim
    | branch =>
      obtain ⟨m, rfl⟩ := Nat.exists_eq_succ_of_ne_zero (Nat.ne_of_gt placed.1)
      rw [ihl placed.2.1 placed'.2.1 compact.1 compact'.1 (alike.below false),
        ihr placed.2.2 placed'.2.2 compact.2.1 compact'.2.1 (alike.below true)]

end
end SparseMerkle.Tree
