import Mathlib

/-!
Binary sparse Merkle trees with short-circuit leaves. A key is walked bit by bit; a leaf
stands at any level above the end of its path. Insertion splits a leaf where two paths
part; deletion drops a branch with nothing below it and, in its canonical form, pulls a
lone leaf up.
-/
namespace SparseMerkle
open List

inductive Preimage (K V H : Type) where
  | absent
  | leaf (key : K) (value : V)
  | branch (left right : H)
  deriving DecidableEq

/-- The branch whose child on the side of the bit is given first. -/
def Preimage.beside {K V H : Type} (b : Bool) (child sibling : H) : Preimage K V H :=
  if b then .branch sibling child else .branch child sibling

inductive Tree (K V : Type) where
  | empty
  | leaf (key : K) (value : V)
  | branch (left right : Tree K V)
  deriving DecidableEq

namespace Tree
variable {K V H : Type}

def beside (b : Bool) (child sibling : Tree K V) : Tree K V :=
  if b then .branch sibling child else .branch child sibling

section
variable [DecidableEq K]

def find (key : K) : List Bool → Tree K V → Option V
  | _, .empty => none
  | _, .leaf k v => if k = key then some v else none
  | [], .branch _ _ => none
  | b :: rest, .branch l r => find key rest (if b then r else l)

def fork (key : K) (value : V) (other : K) (old : V) : List Bool → List Bool → Tree K V
  | b :: rest, b' :: rest' =>
    if b = b' then beside b (fork key value other old rest rest') .empty
    else beside b (.leaf key value) (.leaf other old)
  | _, _ => .leaf key value

variable (path : K → List Bool)

def insert (key : K) (value : V) : List Bool → Nat → Tree K V → Tree K V
  | _, _, .empty => .leaf key value
  | bits, depth, .leaf k v =>
    if k = key then .leaf key value else fork key value k v bits ((path k).drop depth)
  | [], _, .branch l r => .branch l r
  | b :: rest, depth, .branch l r =>
    if b then .branch l (insert key value rest (depth + 1) r)
    else .branch (insert key value rest (depth + 1) l) r

/-- What is left of a branch once something below it was deleted. -/
def rejoin (canonical b : Bool) (child sibling : Tree K V) : Tree K V :=
  match child, sibling with
  | .empty, .empty => .empty
  | .empty, .leaf k v => if canonical then .leaf k v else beside b .empty (.leaf k v)
  | .leaf k v, .empty => if canonical then .leaf k v else beside b (.leaf k v) .empty
  | child, sibling => beside b child sibling

/-- Nothing if the key is not there. -/
def remove? (canonical : Bool) (key : K) : List Bool → Tree K V → Option (Tree K V)
  | _, .empty => none
  | _, .leaf k _ => if k = key then some .empty else none
  | [], .branch _ _ => none
  | b :: rest, .branch l r =>
    (remove? canonical key rest (if b then r else l)).map fun child =>
      rejoin canonical b child (if b then l else r)

def remove (canonical : Bool) (key : K) (bits : List Bool) (t : Tree K V) : Tree K V :=
  (remove? canonical key bits t).getD t

end

/-- Every leaf stands on its key's path, and no branch at the end of one. -/
def Placed (path : K → List Bool) : Nat → List Bool → Tree K V → Prop
  | _, _, .empty => True
  | n, pre, .leaf k _ => pre <+: path k ∧ (path k).length = pre.length + n
  | n, pre, .branch l r =>
    0 < n ∧ Placed path (n - 1) (pre ++ [false]) l ∧ Placed path (n - 1) (pre ++ [true]) r

def Solid : Tree K V → Prop
  | .empty => True
  | .leaf _ _ => True
  | .branch l r => Solid l ∧ Solid r ∧ ¬ (l = .empty ∧ r = .empty)

variable {pre : List Bool} {b : Bool} {child sibling : Tree K V}

theorem placed_beside {path : K → List Bool} {n : Nat} :
    Placed path (n + 1) pre (beside b child sibling) ↔
      Placed path n (pre ++ [b]) child ∧ Placed path n (pre ++ [!b]) sibling := by
  cases b
  · exact and_iff_right (Nat.succ_pos n)
  · exact (and_iff_right (Nat.succ_pos n)).trans and_comm

theorem solid_beside (child_solid : Solid child) (sibling_solid : Solid sibling)
    (some_leaf : child ≠ .empty ∨ sibling ≠ .empty) : Solid (beside b child sibling) := by
  cases b
  · exact ⟨child_solid, sibling_solid, fun both => some_leaf.elim (· both.1) (· both.2)⟩
  · exact ⟨sibling_solid, child_solid, fun both => some_leaf.elim (· both.2) (· both.1)⟩

theorem beside_ne_empty (b : Bool) (child sibling : Tree K V) : beside b child sibling ≠ .empty := by
  cases b <;> exact nofun

theorem branch_eq_beside (b : Bool) (l r : Tree K V) :
    .branch l r = beside b (if b then r else l) (if b then l else r) := by
  cases b <;> rfl

theorem ne_of_bits {path : K → List Bool} {b' : Bool} {rest rest' : List Bool} (differ : b ≠ b')
    {a c : K} (here : path a = pre ++ b :: rest) (there : path c = pre ++ b' :: rest') : a ≠ c := by
  rintro rfl
  rw [here] at there
  have tails := append_cancel_left there
  exact differ (List.cons.inj tails).1

theorem regroup {l rest : List Bool} (same : l = pre ++ b :: rest) : l = (pre ++ [b]) ++ rest := by
  rw [same, append_assoc]
  rfl

theorem drop_path (bits : List Bool) {l : List Bool} (same : pre <+: l)
    (length : l.length = pre.length + bits.length) :
    l = pre ++ l.drop pre.length ∧ bits.length = (l.drop pre.length).length := by
  obtain ⟨tail, rfl⟩ := same
  simp_all

theorem placed_fork {path : K → List Bool} {key other : K} {value old : V}
    (inj : Function.Injective path) (apart : key ≠ other) {bits bits' : List Bool}
    (here : path key = pre ++ bits) (there : path other = pre ++ bits')
    (lengths : bits.length = bits'.length) :
    Placed path bits.length pre (fork key value other old bits bits') ∧
      Solid (fork key value other old bits bits') ∧
      fork key value other old bits bits' ≠ .empty := by
  induction bits generalizing pre bits' with
  | nil =>
    obtain rfl : bits' = [] := List.length_eq_zero_iff.mp lengths.symm
    exact absurd (inj (here.trans there.symm)) apart
  | cons b rest ih =>
    obtain ⟨b', rest', rfl⟩ := exists_cons_of_length_eq_add_one lengths.symm
    have along (k : K) (c : Bool) (tail : List Bool) (same : path k = pre ++ c :: tail)
        (length : rest.length = tail.length) :
        pre ++ [c] <+: path k ∧ (path k).length = (pre ++ [c]).length + rest.length := by
      refine ⟨⟨tail, (regroup same).symm⟩, ?_⟩
      rw [regroup same, length_append, length]
    have shorter : rest.length = rest'.length := Nat.succ.inj lengths
    unfold fork
    by_cases joint : b = b'
    · subst joint
      rw [if_pos rfl]
      obtain ⟨placed, solid, full⟩ := ih (regroup here) (regroup there) shorter
      exact ⟨placed_beside.mpr ⟨placed, trivial⟩, solid_beside solid trivial (.inl full),
        beside_ne_empty _ _ _⟩
    · have other_side : b' = !b := by
        cases b <;> cases b' <;> simp_all
      subst other_side
      rw [if_neg joint]
      exact ⟨placed_beside.mpr ⟨along key b rest here rfl, along other _ rest' there shorter⟩,
        solid_beside trivial trivial (.inl nofun), beside_ne_empty _ _ _⟩

theorem placed_branch {path : K → List Bool} {n : Nat} {l r : Tree K V}
    (placed : Placed path (n + 1) pre (.branch l r)) (b : Bool) :
    Placed path n (pre ++ [b]) (if b then r else l) ∧
      Placed path n (pre ++ [!b]) (if b then l else r) := by
  rw [branch_eq_beside b] at placed
  exact placed_beside.mp placed

theorem solid_branch {l r : Tree K V} (solid : Solid (.branch l r)) (b : Bool) :
    Solid (if b then r else l) ∧ Solid (if b then l else r) := by
  cases b
  · exact ⟨solid.1, solid.2.1⟩
  · exact ⟨solid.2.1, solid.1⟩

theorem ne_of_side {path : K → List Bool} {k q : K} {bQ : Bool} {restQ : List Bool}
    (placed : pre ++ [b] <+: path k) (asked : path q = pre ++ bQ :: restQ) (wrong : bQ ≠ b) :
    k ≠ q := by
  obtain ⟨tail, same⟩ := placed
  have here : path k = pre ++ b :: tail := by
    rw [← same, append_assoc]
    rfl
  exact ne_of_bits (fun e => wrong e.symm) here asked

theorem rejoin_cases (canonical b : Bool) (child sibling : Tree K V) :
    rejoin canonical b child sibling = beside b child sibling ∧
        (child ≠ .empty ∨ sibling ≠ .empty) ∨
      child = .empty ∧ sibling = .empty ∧ rejoin canonical b child sibling = .empty ∨
      (∃ k v, child = .empty ∧ sibling = .leaf k v ∧
        rejoin canonical b child sibling = .leaf k v) ∨
      ∃ k v, child = .leaf k v ∧ sibling = .empty ∧
        rejoin canonical b child sibling = .leaf k v := by
  cases child <;> cases sibling <;> cases canonical <;> simp [rejoin]

theorem prefix_of_append {l : List Bool} {n : Nat}
    (longer : pre ++ [b] <+: l ∧ l.length = (pre ++ [b]).length + n) :
    pre <+: l ∧ l.length = pre.length + (n + 1) := by
  refine ⟨(prefix_append pre [b]).trans longer.1, ?_⟩
  rw [longer.2, length_append, length_singleton]
  omega

theorem placed_rejoin {path : K → List Bool} (canonical : Bool) {n : Nat}
    (placed : Placed path n (pre ++ [b]) child) (placed' : Placed path n (pre ++ [!b]) sibling)
    (solid : Solid child) (solid' : Solid sibling) :
    Placed path (n + 1) pre (rejoin canonical b child sibling) ∧
      Solid (rejoin canonical b child sibling) := by
  rcases rejoin_cases canonical b child sibling with ⟨joined, full⟩ | ⟨-, -, joined⟩ |
    ⟨k, v, -, rfl, joined⟩ | ⟨k, v, rfl, -, joined⟩
  · rw [joined]
    exact ⟨placed_beside.mpr ⟨placed, placed'⟩, solid_beside solid solid' full⟩
  · rw [joined]
    exact ⟨trivial, trivial⟩
  · rw [joined]
    exact ⟨prefix_of_append placed', trivial⟩
  · rw [joined]
    exact ⟨prefix_of_append placed, trivial⟩

section
variable [DecidableEq K] {path : K → List Bool} {key q : K} {value : V}

@[simp] theorem find_empty (bits : List Bool) : find q bits (.empty : Tree K V) = none := by
  cases bits <;> rfl

@[simp] theorem find_leaf (bits : List Bool) (k : K) (v : V) :
    find q bits (.leaf k v) = if k = q then some v else none := by
  cases bits <;> rfl

theorem find_beside (b b' : Bool) (rest : List Bool) (child sibling : Tree K V) :
    find q (b' :: rest) (beside b child sibling) =
      find q rest (if b' = b then child else sibling) := by
  cases b <;> cases b' <;> rfl

variable {pre bits : List Bool}

theorem find_fork (inj : Function.Injective path) {other : K} {old : V} (apart : key ≠ other)
    {bits' bitsQ : List Bool} (here : path key = pre ++ bits) (there : path other = pre ++ bits')
    (asked : path q = pre ++ bitsQ) (lengths : bits.length = bits'.length)
    (lengthsQ : bits.length = bitsQ.length) :
    find q bitsQ (fork key value other old bits bits') =
      if key = q then some value else if other = q then some old else none := by
  induction bits generalizing pre bits' bitsQ with
  | nil =>
    obtain rfl : bits' = [] := List.length_eq_zero_iff.mp lengths.symm
    exact absurd (inj (here.trans there.symm)) apart
  | cons b _ ih =>
    obtain ⟨b', rest', rfl⟩ := exists_cons_of_length_eq_add_one lengths.symm
    obtain ⟨bQ, restQ, rfl⟩ := exists_cons_of_length_eq_add_one lengthsQ.symm
    unfold fork
    by_cases joint : b = b'
    · subst joint
      rw [if_pos rfl, find_beside]
      by_cases along : bQ = b
      · subst along
        rw [if_pos rfl]
        exact ih (regroup here) (regroup there) (regroup asked) (Nat.succ.inj lengths)
          (Nat.succ.inj lengthsQ)
      · have notKey : key ≠ q := ne_of_bits (fun same => along same.symm) here asked
        have notOther : other ≠ q := ne_of_bits (fun same => along same.symm) there asked
        rw [if_neg along, if_neg notKey, if_neg notOther]
        cases restQ <;> rfl
    · rw [if_neg joint, find_beside]
      by_cases along : bQ = b
      · subst along
        have notOther : other ≠ q := ne_of_bits (fun same => joint same.symm) there asked
        rw [if_pos rfl, if_neg notOther]
        cases restQ <;> rfl
      · have notKey : key ≠ q := ne_of_bits (fun same => along same.symm) here asked
        rw [if_neg along, if_neg notKey]
        cases restQ <;> rfl

theorem find_insert (inj : Function.Injective path) {bitsQ : List Bool} {t : Tree K V}
    (placed : Placed path bits.length pre t) (here : path key = pre ++ bits)
    (asked : path q = pre ++ bitsQ) (lengths : bits.length = bitsQ.length) :
    find q bitsQ (insert path key value bits pre.length t) =
      if key = q then some value else find q bitsQ t := by
  induction bits generalizing pre bitsQ t with
  | nil =>
    obtain rfl : bitsQ = [] := List.length_eq_zero_iff.mp lengths.symm
    obtain rfl : key = q := inj (here.trans asked.symm)
    cases t with
    | empty => simp [insert]
    | branch => exact absurd placed.1 (Nat.lt_irrefl 0)
    | leaf k =>
      obtain ⟨same, length⟩ := placed
      obtain rfl : k = key := inj (by
        rw [here, ← append_nil pre]
        obtain ⟨split, short⟩ := drop_path [] same length
        rw [List.length_eq_zero_iff.mp short.symm] at split
        simpa using split)
      simp [insert]
  | cons b rest ih =>
    obtain ⟨bQ, restQ, rfl⟩ := exists_cons_of_length_eq_add_one lengths.symm
    cases t with
    | empty => simp [insert, find]
    | leaf k =>
      unfold insert
      by_cases same : k = key
      · subst same
        simp only [if_pos, find]
        split <;> rfl
      · rw [if_neg same]
        obtain ⟨split, length⟩ := drop_path (b :: rest) placed.1 placed.2
        rw [find_fork inj (fun e => same e.symm) here split asked length lengths]
        simp only [find]
    | branch l r =>
      obtain ⟨-, left, right⟩ := placed
      have below (side : Bool) (t : Tree K V) (placed : Placed path rest.length (pre ++ [side]) t)
          (here : path key = (pre ++ [side]) ++ rest) (asked : path q = (pre ++ [side]) ++ restQ) :
          find q restQ (insert path key value rest (pre.length + 1) t) =
            if key = q then some value else find q restQ t := by
        have found := ih placed here asked (Nat.succ.inj lengths)
        rwa [length_append] at found
      have across (differ : b ≠ bQ) : ¬ key = q := fun same => ne_of_bits differ here asked same
      cases b <;> cases bQ
      · exact below false l left (regroup here) (regroup asked)
      · simp only [insert, find, across nofun, if_false]
        rfl
      · simp only [insert, find, across nofun, if_false]
        rfl
      · exact below true r right (regroup here) (regroup asked)

@[simp] theorem insert_empty (bits : List Bool) (depth : Nat) :
    insert path key value bits depth (.empty : Tree K V) = .leaf key value := by
  cases bits <;> rfl

theorem insert_leaf (bits : List Bool) (depth : Nat) (k : K) (v : V) :
    insert path key value bits depth (.leaf k v) =
      if k = key then .leaf key value
      else fork key value k v bits ((path k).drop depth) := by
  cases bits <;> rfl

theorem insert_branch (b : Bool) (rest : List Bool) (depth : Nat) (l r : Tree K V) :
    insert path key value (b :: rest) depth (.branch l r) =
      beside b (insert path key value rest (depth + 1) (if b then r else l)) (if b then l else r) := by
  cases b <;> rfl

theorem placed_insert (inj : Function.Injective path) {t : Tree K V}
    (placed : Placed path bits.length pre t) (solid : Solid t) (here : path key = pre ++ bits) :
    Placed path bits.length pre (insert path key value bits pre.length t) ∧
      Solid (insert path key value bits pre.length t) ∧
      insert path key value bits pre.length t ≠ .empty := by
  have own : pre <+: path key ∧ (path key).length = pre.length + bits.length :=
    ⟨⟨bits, here.symm⟩, by rw [here, length_append]⟩
  induction bits generalizing pre t with
  | nil =>
    cases t with
    | empty => exact ⟨own, trivial, nofun⟩
    | branch => exact absurd placed.1 (Nat.lt_irrefl 0)
    | leaf =>
      unfold insert
      split
      · exact ⟨own, trivial, nofun⟩
      · exact ⟨own, trivial, nofun⟩
  | cons b rest ih =>
    cases t with
    | empty => exact ⟨own, trivial, nofun⟩
    | leaf k v =>
      unfold insert
      split
      · exact ⟨own, trivial, nofun⟩
      · rename_i other
        obtain ⟨split, length⟩ := drop_path (b :: rest) placed.1 placed.2
        exact placed_fork inj (fun same => other same.symm) here split length
    | branch =>
      obtain ⟨child, sibling⟩ := placed_branch placed b
      have solids := solid_branch solid b
      have below := ih child solids.1 (regroup here)
        ⟨⟨rest, (regroup here).symm⟩, by rw [regroup here, length_append]⟩
      rw [length_append] at below
      rw [insert_branch]
      exact ⟨placed_beside.mpr ⟨below.1, sibling⟩, solid_beside below.2.1 solids.2 (.inl below.2.2),
        beside_ne_empty _ _ _⟩

variable {canonical : Bool}

theorem find_rejoin {b bQ : Bool} {restQ : List Bool} {child sibling : Tree K V} {n : Nat}
    (placed : Placed path n (pre ++ [b]) child) (placed' : Placed path n (pre ++ [!b]) sibling)
    (asked : path q = pre ++ bQ :: restQ) :
    find q (bQ :: restQ) (rejoin canonical b child sibling) =
      find q restQ (if bQ = b then child else sibling) := by
  rcases rejoin_cases canonical b child sibling with ⟨joined, -⟩ | ⟨rfl, rfl, joined⟩ |
    ⟨k, v, rfl, rfl, joined⟩ | ⟨k, v, rfl, rfl, joined⟩
  · rw [joined, find_beside]
  · rw [joined, ite_self, find_empty, find_empty]
  · rw [joined, find_leaf]
    by_cases side : bQ = b
    · have other : k ≠ q := ne_of_side placed'.1 asked (by simp [side])
      rw [if_pos side, find_empty, if_neg other]
    · rw [if_neg side, find_leaf]
  · rw [joined, find_leaf]
    by_cases side : bQ = b
    · rw [if_pos side, find_leaf]
    · have other : k ≠ q := ne_of_side placed.1 asked side
      rw [if_neg side, find_empty, if_neg other]

theorem find_branch (b : Bool) (rest : List Bool) (l r : Tree K V) :
    find q (b :: rest) (.branch l r) = find q rest (if b then r else l) := rfl

theorem remove?_none {t : Tree K V} (kept : remove? canonical key bits t = none) :
    find key bits t = none := by
  induction bits generalizing t with
  | nil =>
    cases t with
    | empty => rfl
    | branch => rfl
    | leaf k v =>
      unfold remove? at kept
      split at kept
      · cases kept
      · rename_i other
        rw [find_leaf, if_neg other]
  | cons b rest ih =>
    cases t with
    | empty => rfl
    | leaf k v =>
      unfold remove? at kept
      split at kept
      · cases kept
      · rename_i other
        rw [find_leaf, if_neg other]
    | branch =>
      rw [find_branch]
      exact ih (Option.map_eq_none_iff.mp kept)

theorem remove?_leaf {k : K} {v : V} {left : Tree K V}
    (gone : remove? canonical key bits (.leaf k v) = some left) : k = key ∧ left = .empty := by
  have gone : (if k = key then some .empty else none) = some left := by
    cases bits <;> exact gone
  split at gone
  · exact ⟨‹_›, (Option.some.inj gone).symm⟩
  · cases gone

/-- Being sound, and holding everything but the key as before. -/
structure Without (path : K → List Bool) (key : K) (n : Nat) (pre : List Bool)
    (t left : Tree K V) : Prop where
  placed : Placed path n pre left
  solid : Solid left
  found : ∀ {q bits}, path q = pre ++ bits → bits.length = n →
    find q bits left = if key = q then none else find q bits t

theorem without_leaf {n : Nat} {v : V} : Without path key n pre (.leaf key v) .empty := by
  refine ⟨trivial, trivial, fun _ _ => ?_⟩
  rw [find_empty, find_leaf]
  split <;> rfl

theorem remove?_some {t left : Tree K V} (placed : Placed path bits.length pre t)
    (solid : Solid t) (here : path key = pre ++ bits)
    (gone : remove? canonical key bits t = some left) :
    Without path key bits.length pre t left := by
  induction bits generalizing pre t left with
  | nil =>
    cases t with
    | empty => cases gone
    | branch => cases gone
    | leaf =>
      obtain ⟨rfl, rfl⟩ := remove?_leaf gone
      exact without_leaf
  | cons b _ ih =>
    cases t with
    | empty => cases gone
    | leaf =>
      obtain ⟨rfl, rfl⟩ := remove?_leaf gone
      exact without_leaf
    | branch l r =>
      obtain ⟨inside, below, rfl⟩ := Option.map_eq_some_iff.mp gone
      obtain ⟨inner, outer⟩ := placed_branch placed b
      obtain ⟨innerSolid, outerSolid⟩ := solid_branch solid b
      have child := ih inner innerSolid (regroup here) below
      obtain ⟨shape, sound⟩ := placed_rejoin canonical child.placed outer child.solid outerSolid
      refine ⟨shape, sound, fun {q bits} asked length => ?_⟩
      obtain ⟨bQ, restQ, rfl⟩ := exists_cons_of_length_eq_add_one length
      rw [find_rejoin child.placed outer asked, find_branch]
      by_cases side : bQ = b
      · subst side
        rw [if_pos rfl]
        exact child.found (regroup asked) (Nat.succ.inj length)
      · have other : key ≠ q := ne_of_bits (fun same => side same.symm) here asked
        have across : (if bQ then r else l) = if b then l else r := by
          cases b <;> cases bQ <;> simp_all
        rw [if_neg side, if_neg other, across]

theorem remove_without {t : Tree K V} (placed : Placed path bits.length pre t) (solid : Solid t)
    (here : path key = pre ++ bits) :
    Without path key bits.length pre t (remove canonical key bits t) := by
  unfold remove
  cases gone : remove? canonical key bits t with
  | none =>
    refine ⟨placed, solid, fun {q bitsQ} asked length => ?_⟩
    split
    · rename_i same
      subst same
      obtain rfl : bits = bitsQ := append_cancel_left (here.symm.trans asked)
      exact remove?_none gone
    · rfl
  | some => exact remove?_some placed solid here gone

end

section
variable (digest : Preimage K V H → H)

def emptyDigest : Nat → H
  | 0 => digest .absent
  | n + 1 => digest (.branch (emptyDigest n) (emptyDigest n))

def root : Nat → Tree K V → H
  | n, .empty => emptyDigest digest n
  | _, .leaf k v => digest (.leaf k v)
  | n, .branch l r => digest (.branch (root (n - 1) l) (root (n - 1) r))

def emptyPreimages : Nat → List (Preimage K V H)
  | 0 => [.absent]
  | n + 1 => .branch (emptyDigest digest n) (emptyDigest digest n) :: emptyPreimages n

def nodes : Nat → Tree K V → List (Preimage K V H)
  | _, .empty => []
  | _, .leaf k v => [.leaf k v]
  | n, .branch l r => .branch (root digest (n - 1) l) (root digest (n - 1) r) ::
      (nodes (n - 1) l ++ nodes (n - 1) r)

end

/-- The set has the tree's nodes, and those of an empty tree of its height. -/
structure Within (digest : Preimage K V H → H) (U : Set (Preimage K V H)) (n : Nat)
    (t : Tree K V) : Prop where
  nodes : ∀ p ∈ nodes digest n t, p ∈ U
  empties : ∀ p ∈ emptyPreimages digest n, p ∈ U

section
variable {digest : Preimage K V H → H} {U : Set (Preimage K V H)} {n : Nat} {t other l r : Tree K V}

theorem Within.branch (within : Within digest U n (.branch l r)) :
    Within digest U (n - 1) l ∧ Within digest U (n - 1) r := by
  have empties : ∀ p ∈ emptyPreimages digest (n - 1), p ∈ U := by
    cases n with
    | zero => exact within.empties
    | succ => exact fun p inside => within.empties p (mem_cons_of_mem _ inside)
  refine ⟨⟨fun p inside => ?_, empties⟩, ⟨fun p inside => ?_, empties⟩⟩
  · exact within.nodes p (mem_cons_of_mem _ (mem_append_left _ inside))
  · exact within.nodes p (mem_cons_of_mem _ (mem_append_right _ inside))

theorem root_beside (b : Bool) (n : Nat) (child sibling : Tree K V) :
    root digest (n + 1) (beside b child sibling) =
      digest (.beside b (root digest n child) (root digest n sibling)) := by
  cases b <;> rfl

variable {b : Bool} {child sibling : Tree K V}

theorem mem_nodes_beside {p : Preimage K V H} :
    p ∈ nodes digest (n + 1) (beside b child sibling) ↔
      p = .beside b (root digest n child) (root digest n sibling) ∨
        p ∈ nodes digest n child ∨ p ∈ nodes digest n sibling := by
  cases b
  · simp [beside, nodes, Preimage.beside]
  · simp [beside, nodes, Preimage.beside, or_comm]

theorem Within.beside (within : Within digest U (n + 1) (beside b child sibling)) :
    .beside b (root digest n child) (root digest n sibling) ∈ U ∧
      Within digest U n child ∧ Within digest U n sibling := by
  refine ⟨within.nodes _ (mem_nodes_beside.mpr (.inl rfl)), ?_⟩
  cases b
  · exact within.branch
  · exact within.branch.symm

/-- Fewer levels, fewer empty trees. -/
theorem Within.pulled {k : K} {v : V} (within : Within digest U (n + 1) (.leaf k v)) :
    Within digest U n (.leaf k v) :=
  ⟨within.nodes, fun p inside => within.empties p (mem_cons_of_mem _ inside)⟩

theorem Within.rejoin {canonical : Bool}
    (within : Within digest U (n + 1) (rejoin canonical b child sibling)) :
    Within digest U n child := by
  have empties : ∀ p ∈ emptyPreimages digest n, p ∈ U :=
    fun p inside => within.empties p (mem_cons_of_mem _ inside)
  rcases rejoin_cases canonical b child sibling with ⟨joined, -⟩ | ⟨rfl, -, -⟩ |
    ⟨k, v, rfl, -, -⟩ | ⟨k, v, rfl, -, joined⟩
  · rw [joined] at within
    exact within.beside.2.1
  · exact ⟨nofun, empties⟩
  · exact ⟨nofun, empties⟩
  · rw [joined] at within
    exact within.pulled

/-- The digest of an empty tree is that of no leaf, and of no branch but an empty one. -/
theorem leaf_ne_empty (free : Set.InjOn digest U) {k : K} {v : V}
    (within : Within digest U n (.leaf k v)) : digest (.leaf k v) ≠ emptyDigest digest n := by
  intro same
  have leaf := within.nodes _ mem_cons_self
  cases n with
  | zero => cases free leaf (within.empties _ mem_cons_self) same
  | succ => cases free leaf (within.empties _ mem_cons_self) same

theorem branch_eq_empty (free : Set.InjOn digest U) (within : Within digest U n (.branch l r))
    (same : root digest n (.branch l r) = emptyDigest digest n) :
    ∃ m, n = m + 1 ∧ root digest m l = emptyDigest digest m ∧
      root digest m r = emptyDigest digest m := by
  have branch := within.nodes _ mem_cons_self
  cases n with
  | zero => cases free branch (within.empties _ mem_cons_self) same
  | succ m =>
    have equal := free branch (within.empties _ mem_cons_self) same
    obtain ⟨left, right⟩ := Preimage.branch.inj equal
    exact ⟨m, rfl, left, right⟩

theorem eq_empty_of_root (free : Set.InjOn digest U) (solid : Solid t)
    (within : Within digest U n t) (same : root digest n t = emptyDigest digest n) :
    t = .empty := by
  induction t generalizing n with
  | empty => rfl
  | leaf => exact absurd same (leaf_ne_empty free within)
  | branch _ _ ihl ihr =>
    obtain ⟨m, rfl, left, right⟩ := branch_eq_empty free within same
    obtain ⟨withinL, withinR⟩ := within.branch
    exact absurd ⟨ihl solid.1 withinL left, ihr solid.2.1 withinR right⟩ solid.2.2

variable [DecidableEq K] {q : K}

theorem find_of_empty_root (free : Set.InjOn digest U) (within : Within digest U n t)
    (same : root digest n t = emptyDigest digest n) (bits : List Bool) : find q bits t = none := by
  induction t generalizing n bits with
  | empty => exact find_empty bits
  | leaf => exact absurd same (leaf_ne_empty free within)
  | branch _ _ ihl ihr =>
    obtain ⟨m, rfl, left, right⟩ := branch_eq_empty free within same
    obtain ⟨withinL, withinR⟩ := within.branch
    cases bits with
    | nil => rfl
    | cons b rest =>
      cases b
      · exact ihl withinL left rest
      · exact ihr withinR right rest

theorem find_of_root_eq (free : Set.InjOn digest U) (within : Within digest U n t)
    (within' : Within digest U n other) (same : root digest n t = root digest n other)
    (bits : List Bool) : find q bits t = find q bits other := by
  induction t generalizing n other bits with
  | empty => rw [find_empty, find_of_empty_root free within' same.symm]
  | leaf =>
    cases other with
    | empty => exact absurd same (leaf_ne_empty free within)
    | leaf =>
      cases free (within.nodes _ mem_cons_self) (within'.nodes _ mem_cons_self) same
      rfl
    | branch =>
      cases free (within.nodes _ mem_cons_self) (within'.nodes _ mem_cons_self) same
  | branch _ _ ihl ihr =>
    cases other with
    | empty => rw [find_empty, find_of_empty_root free within same]
    | leaf =>
      cases free (within.nodes _ mem_cons_self) (within'.nodes _ mem_cons_self) same
    | branch =>
      have equal := free (within.nodes _ mem_cons_self) (within'.nodes _ mem_cons_self) same
      obtain ⟨left, right⟩ := Preimage.branch.inj equal
      obtain ⟨withinL, withinR⟩ := within.branch
      obtain ⟨withinL', withinR'⟩ := within'.branch
      cases bits with
      | nil => rfl
      | cons b rest =>
        cases b
        · exact ihl withinL withinL' left rest
        · exact ihr withinR withinR' right rest

end
end Tree
end SparseMerkle
