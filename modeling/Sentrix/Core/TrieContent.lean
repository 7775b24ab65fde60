import Sentrix.Core.SparseTrie

/-!
What the state trie holds. A table of nodes stands for the tree its root is the digest
of; the operations of the trie are those of that tree as long as the nodes hashed on the
way are told apart by their hashes.
-/
namespace SentrixCore
open HashTable Effects SentrixPrimitives SparseMerkle List

theorem length_keyBits (key : Bytes) : (keyBits key).length = 8 * key.length := by
  simp [keyBits, length_flatMap]
  omega

theorem byte_of_bits : ∀ a b : UInt8,
    ((List.range 8).map fun i => a.toNat.testBit (7 - i)) =
      ((List.range 8).map fun i => b.toNat.testBit (7 - i)) → a = b := by
  intro a b same
  apply UInt8.toNat_inj.mp
  apply Nat.eq_of_testBit_eq
  intro i
  have small (x : UInt8) (far : 8 ≤ i) : x.toNat.testBit i = false :=
    Nat.testBit_lt_two_pow (Nat.lt_of_lt_of_le x.toNat_lt (Nat.pow_le_pow_right (by decide) far))
  by_cases near : i < 8
  · have bit := congrArg (fun l => l[7 - i]?) same
    have back : 7 - (7 - i) = i := by omega
    simpa [List.getElem?_range (show 7 - i < 8 by omega), back] using bit
  · rw [small a (by omega), small b (by omega)]

theorem keyBits_injective : Function.Injective keyBits := by
  intro a
  induction a with
  | nil =>
    intro b same
    have short := congrArg List.length same
    rw [length_keyBits, length_keyBits] at short
    have none_left : b.length = 0 := by
      rw [length_nil] at short
      omega
    exact (List.length_eq_zero_iff.mp none_left).symm
  | cons x _ ih =>
    intro b same
    cases b with
    | nil =>
      have short := congrArg List.length same
      rw [length_keyBits, length_keyBits] at short
      simp at short
    | cons y =>
      simp only [keyBits, flatMap_cons] at same
      obtain ⟨first, others⟩ := append_inj same (by simp)
      rw [byte_of_bits x y first, ih others]

/-- No two nodes of the set have one hash. -/
abbrev Free (w : Wire) (b3 : Bytes → Bytes) (U : Set TrieNode) : Prop :=
  Set.InjOn (nodeHash w b3) U

abbrev Inside (w : Wire) (b3 : Bytes → Bytes) (U : Set TrieNode) (n : Nat) (tree : TrieTree) :
    Prop :=
  Tree.Within (nodeHash w b3) U n tree

/-- The text of a node gives the node back. -/
def Readable : TrieNode → Prop
  | .absent => False
  | .leaf key _ => key.length = 32
  | .branch left _ => left.length = 32

theorem readNode_nodeText {node : TrieNode} (readable : Readable node) :
    readNode (nodeText node) = some node := by
  cases node with
  | absent => exact readable.elim
  | leaf | branch => simp [nodeText, readNode, take_left' readable, drop_left' readable]

section
variable (w : Wire) (b3 : Bytes → Bytes)

def Holds (nodes : Table Bytes Bytes) (wanted : List TrieNode) : Prop :=
  ∀ p ∈ wanted, nodes.lookup (nodeHash w b3 p) = some (nodeText p)

def Sound (U : Set TrieNode) (nodes : Table Bytes Bytes) : Prop :=
  ∀ hash text, nodes.lookup hash = some text →
    ∃ p ∈ U, hash = nodeHash w b3 p ∧ text = nodeText p

structure Grown (U : Set TrieNode) (nodes nodes' : Table Bytes Bytes) : Prop where
  kept : ∀ hash text, nodes.lookup hash = some text → nodes'.lookup hash = some text
  sound : Sound w b3 U nodes'

structure Built (U : Set TrieNode) (nodes : Table Bytes Bytes) (n : Nat) (tree : TrieTree)
    (out : Bytes × Table Bytes Bytes) : Prop where
  root : out.1 = tree.root (nodeHash w b3) n
  grown : Grown w b3 U nodes out.2
  held : Holds w b3 out.2 (tree.nodes (nodeHash w b3) n)

end

section
variable {w : Wire} {b3 : Bytes → Bytes} {U : Set TrieNode}
  {nodes nodes' nodes'' : Table Bytes Bytes} {node : TrieNode} {key value : Bytes}

theorem Grown.refl (sound : Sound w b3 U nodes) : Grown w b3 U nodes nodes :=
  ⟨fun _ _ found => found, sound⟩

theorem Grown.trans (first : Grown w b3 U nodes nodes')
    (second : Grown w b3 U nodes' nodes'') : Grown w b3 U nodes nodes'' :=
  ⟨fun hash text found => second.kept hash text (first.kept hash text found), second.sound⟩

theorem Grown.holds (grown : Grown w b3 U nodes nodes') {wanted : List TrieNode}
    (held : Holds w b3 nodes wanted) : Holds w b3 nodes' wanted :=
  fun p inside => grown.kept _ _ (held p inside)

theorem getNode_held (found : nodes.lookup (nodeHash w b3 node) = some (nodeText node))
    (readable : Readable node) : getNode nodes (nodeHash w b3 node) = .ok node := by
  unfold getNode
  rw [found, Option.bind_some, readNode_nodeText readable]

theorem lookup_putNode : (putNode w b3 node nodes).2.lookup (nodeHash w b3 node) =
    some (nodeText node) :=
  AList.lookup_insert _

theorem lookup_putNode_ne {hash : Bytes} (other : hash ≠ nodeHash w b3 node) :
    (putNode w b3 node nodes).2.lookup hash = nodes.lookup hash :=
  AList.lookup_insert_ne other

theorem grown_putNode (free : Free w b3 U) (sound : Sound w b3 U nodes)
    (inside : node ∈ U) : Grown w b3 U nodes (putNode w b3 node nodes).2 := by
  constructor
  · intro hash text found
    obtain ⟨p, member, rfl, rfl⟩ := sound hash text found
    by_cases same : nodeHash w b3 p = nodeHash w b3 node
    · cases free member inside same
      exact lookup_putNode
    · exact (lookup_putNode_ne same).trans found
  · intro hash text found
    by_cases same : hash = nodeHash w b3 node
    · subst same
      rw [lookup_putNode] at found
      exact ⟨node, inside, rfl, (Option.some.inj found).symm⟩
    · rw [lookup_putNode_ne same] at found
      exact sound hash text found

variable {n : Nat}

theorem built_leaf (free : Free w b3 U) (sound : Sound w b3 U nodes)
    (inside : .leaf key value ∈ U) :
    Built w b3 U nodes n (.leaf key value) (putNode w b3 (.leaf key value) nodes) := by
  refine ⟨rfl, grown_putNode free sound inside, fun p member => ?_⟩
  cases List.mem_singleton.mp member
  exact lookup_putNode

variable {b : Bool} {child sibling : TrieTree}

theorem built_beside (free : Free w b3 U) (sound : Sound w b3 U nodes)
    (inside : Inside w b3 U (n + 1) (.beside b child sibling))
    (below : Holds w b3 nodes (child.nodes (nodeHash w b3) n))
    (aside : Holds w b3 nodes (sibling.nodes (nodeHash w b3) n)) :
    Built w b3 U nodes (n + 1) (.beside b child sibling)
      (putBranch w b3 b (child.root (nodeHash w b3) n)
        (sibling.root (nodeHash w b3) n) nodes) := by
  have grown := grown_putNode free sound inside.beside.1
  have root : nodeHash w b3 (.beside b (child.root (nodeHash w b3) n)
      (sibling.root (nodeHash w b3) n)) = _ := (Tree.root_beside b n child sibling).symm
  refine ⟨root, grown, fun p member => ?_⟩
  rcases Tree.mem_nodes_beside.mp member with rfl | member | member
  · exact lookup_putNode
  · exact grown.holds below p member
  · exact grown.holds aside p member

def Hashes32 (w : Wire) (b3 : Bytes → Bytes) : Prop :=
  ∀ p, (nodeHash w b3 p).length = 32

theorem length_root (sizes : Hashes32 w b3) (n : Nat) (tree : TrieTree) :
    (tree.root (nodeHash w b3) n).length = 32 := by
  cases tree with
  | empty =>
    cases n with
    | zero => exact sizes .absent
    | succ => exact sizes (.branch _ _)
  | leaf => exact sizes _
  | branch => exact sizes _

variable {pre : List Bool} {k v : Bytes}

theorem key_of_placed (levels : pre.length + n = 256)
    (placed : Tree.Placed keyBits n pre (.leaf k v)) : k.length = 32 := by
  have long := placed.2
  rw [length_keyBits] at long
  omega

theorem getNode_leaf (levels : pre.length + n = 256)
    (placed : Tree.Placed keyBits n pre (.leaf k v))
    (held : Holds w b3 nodes (Tree.nodes (nodeHash w b3) n (.leaf k v))) :
    getNode nodes (Tree.root (nodeHash w b3) n (.leaf k v)) = .ok (.leaf k v) :=
  getNode_held (held _ mem_cons_self) (key_of_placed levels placed)

variable {l r : TrieTree}

theorem getNode_branch (sizes : Hashes32 w b3)
    (held : Holds w b3 nodes (Tree.nodes (nodeHash w b3) (n + 1) (.branch l r))) :
    getNode nodes (Tree.root (nodeHash w b3) (n + 1) (.branch l r)) =
      .ok (.branch (l.root (nodeHash w b3) n) (r.root (nodeHash w b3) n)) :=
  getNode_held (held _ mem_cons_self) (length_root sizes n l)

theorem holds_branch (b : Bool)
    (held : Holds w b3 nodes (Tree.nodes (nodeHash w b3) (n + 1) (.branch l r))) :
    Holds w b3 nodes ((if b then r else l).nodes (nodeHash w b3) n) ∧
      Holds w b3 nodes ((if b then l else r).nodes (nodeHash w b3) n) := by
  rw [Tree.branch_eq_beside b] at held
  constructor <;> intro p inside
  · exact held p (Tree.mem_nodes_beside.mpr (.inr (.inl inside)))
  · exact held p (Tree.mem_nodes_beside.mpr (.inr (.inr inside)))

theorem root_ne_empty {tree : TrieTree} (free : Free w b3 U)
    (solid : tree.Solid) (inside : Inside w b3 U n tree)
    (full : tree ≠ .empty) : tree.root (nodeHash w b3) n ≠ emptyHash w b3 n :=
  fun same => full (Tree.eq_empty_of_root free solid inside same)

theorem root_side (b : Bool) (n : Nat) (l r : TrieTree) :
    (if b then r.root (nodeHash w b3) n else l.root (nodeHash w b3) n) =
      (if b then r else l).root (nodeHash w b3) n := by
  cases b <;> rfl

theorem level_below {rest : List Bool} (levels : pre.length + (b :: rest).length = 256) :
    (pre ++ [b]).length + rest.length = 256 := by
  rw [length_cons] at levels
  rw [length_append, length_singleton]
  omega

variable {bits : List Bool}

/-- Two leaves pushed down to where their paths part. -/
theorem splitLeaf_built (free : Free w b3 U) (sound : Sound w b3 U nodes)
    {bits' : List Bool} (apart : key ≠ k) (here : keyBits key = pre ++ bits)
    (there : keyBits k = pre ++ bits') (lengths : bits.length = bits'.length)
    (old : nodes.lookup (nodeHash w b3 (.leaf k v)) = some (nodeText (.leaf k v)))
    (inside : Inside w b3 U bits.length (Tree.fork key value k v bits bits')) :
    ∃ out, splitLeaf w b3 key value (nodeHash w b3 (.leaf k v)) bits bits' nodes = .ok out ∧
      Built w b3 U nodes bits.length (Tree.fork key value k v bits bits') out := by
  induction bits generalizing pre bits' with
  | nil =>
    obtain rfl : bits' = [] := List.length_eq_zero_iff.mp lengths.symm
    exact absurd (keyBits_injective (here.trans there.symm)) apart
  | cons b rest ih =>
    obtain ⟨b', rest', rfl⟩ := exists_cons_of_length_eq_add_one lengths.symm
    unfold splitLeaf
    unfold Tree.fork at inside ⊢
    by_cases joint : b = b'
    · subst joint
      rw [if_pos rfl] at inside
      rw [if_pos rfl, if_pos rfl]
      obtain ⟨out, ran, built⟩ := ih (Tree.regroup here) (Tree.regroup there)
        (Nat.succ.inj lengths) inside.beside.2.1
      have whole := built_beside free built.grown.sound inside built.held
        (fun _ none => absurd none not_mem_nil)
      rw [← built.root] at whole
      refine ⟨_, by rw [ran]; rfl, whole.root, built.grown.trans whole.grown, whole.held⟩
    · rw [if_neg joint] at inside
      rw [if_neg joint, if_neg joint]
      have leaf := built_leaf (n := rest.length) free sound
        (inside.beside.2.1.nodes _ mem_cons_self)
      have aside : Holds w b3 (putNode w b3 (.leaf key value) nodes).2
          (Tree.nodes (nodeHash w b3) rest.length (.leaf k v)) := by
        intro p member
        cases List.mem_singleton.mp member
        exact leaf.grown.kept _ _ old
      have whole := built_beside free leaf.grown.sound inside leaf.held aside
      exact ⟨_, rfl, whole.root, leaf.grown.trans whole.grown, whole.held⟩

theorem root_empty (n : Nat) :
    Tree.root (nodeHash w b3) n .empty = emptyHash w b3 n := rfl

theorem insertAt_empty (free : Free w b3 U) {depth : Nat} (sound : Sound w b3 U nodes)
    (after : Inside w b3 U bits.length (Tree.insert keyBits key value bits depth .empty)) :
    ∃ out, insertAt w b3 key value bits depth
        (Tree.root (nodeHash w b3) bits.length .empty) nodes = .ok out ∧
      Built w b3 U nodes bits.length (Tree.insert keyBits key value bits depth .empty) out := by
  rw [Tree.insert_empty] at after ⊢
  unfold insertAt
  rw [if_pos (root_empty _)]
  exact ⟨_, rfl, built_leaf free sound (after.nodes _ mem_cons_self)⟩

theorem insertAt_leaf (free : Free w b3 U)
    (levels : pre.length + bits.length = 256) (here : keyBits key = pre ++ bits)
    (sound : Sound w b3 U nodes)
    (held : Holds w b3 nodes (Tree.nodes (nodeHash w b3) bits.length (.leaf k v)))
    (placed : Tree.Placed keyBits bits.length pre (.leaf k v))
    (before : Inside w b3 U bits.length (.leaf k v))
    (after : Inside w b3 U bits.length
      (Tree.insert keyBits key value bits pre.length (.leaf k v))) :
    ∃ out, insertAt w b3 key value bits pre.length
        (Tree.root (nodeHash w b3) bits.length (.leaf k v)) nodes = .ok out ∧
      Built w b3 U nodes bits.length
        (Tree.insert keyBits key value bits pre.length (.leaf k v)) out := by
  unfold insertAt
  have solid : Tree.Solid (.leaf k v : TrieTree) := trivial
  rw [if_neg (root_ne_empty free solid before (by simp)), getNode_leaf levels placed held]
  rw [Tree.insert_leaf] at after ⊢
  by_cases same : k = key
  · rw [if_pos same] at after
    simp only [if_pos same]
    exact ⟨_, rfl, built_leaf free sound (after.nodes _ mem_cons_self)⟩
  · rw [if_neg same] at after
    simp only [if_neg same]
    obtain ⟨split, lengths⟩ := Tree.drop_path bits placed.1 placed.2
    exact splitLeaf_built free sound (fun e => same e.symm) here split lengths
      (held _ mem_cons_self) after

theorem insertAt_built (sizes : Hashes32 w b3) (free : Free w b3 U)
    {tree : TrieTree} (levels : pre.length + bits.length = 256) (here : keyBits key = pre ++ bits)
    (sound : Sound w b3 U nodes)
    (held : Holds w b3 nodes (tree.nodes (nodeHash w b3) bits.length))
    (placed : tree.Placed keyBits bits.length pre) (solid : tree.Solid)
    (before : Inside w b3 U bits.length tree)
    (after : Inside w b3 U bits.length (tree.insert keyBits key value bits pre.length)) :
    ∃ out, insertAt w b3 key value bits pre.length
        (tree.root (nodeHash w b3) bits.length) nodes = .ok out ∧
      Built w b3 U nodes bits.length (tree.insert keyBits key value bits pre.length) out := by
  induction bits generalizing pre tree with
  | nil =>
    cases tree with
    | empty => exact insertAt_empty free sound after
    | leaf => exact insertAt_leaf free levels here sound held placed before after
    | branch => exact absurd placed.1 (Nat.lt_irrefl 0)
  | cons b _ ih =>
    cases tree with
    | empty => exact insertAt_empty free sound after
    | leaf => exact insertAt_leaf free levels here sound held placed before after
    | branch l r =>
      obtain ⟨inner, -⟩ := Tree.placed_branch placed b
      obtain ⟨below, aside⟩ := holds_branch b held
      rw [Tree.insert_branch] at after ⊢
      rw [Tree.branch_eq_beside b] at before
      have deeper : (pre ++ [b]).length = pre.length + 1 := by simp
      obtain ⟨out, ran, built⟩ := @ih (pre ++ [b]) _ (level_below levels)
        (Tree.regroup here) below inner (Tree.solid_branch solid b).1 before.beside.2.1
        (by rw [deeper]; exact after.beside.2.1)
      rw [deeper] at ran built
      have whole := built_beside free built.grown.sound after built.held (built.grown.holds aside)
      rw [← built.root] at whole
      unfold insertAt
      rw [if_neg (root_ne_empty free solid (Tree.branch_eq_beside b l r ▸ before) (by simp)),
        length_cons, getNode_branch sizes held]
      simp only [root_side]
      refine ⟨_, by rw [ran]; rfl, whole.root, built.grown.trans whole.grown, whole.held⟩

theorem getAt_find (sizes : Hashes32 w b3) (free : Free w b3 U)
    {tree : TrieTree} (levels : pre.length + bits.length = 256)
    (held : Holds w b3 nodes (tree.nodes (nodeHash w b3) bits.length))
    (placed : tree.Placed keyBits bits.length pre) (solid : tree.Solid)
    (inside : Inside w b3 U bits.length tree) :
    getAt w b3 key bits (tree.root (nodeHash w b3) bits.length) nodes =
      .ok (tree.find key bits) := by
  induction bits generalizing pre tree with
  | nil =>
    unfold getAt
    cases tree with
    | empty => rw [if_pos (root_empty _), Tree.find_empty]
    | leaf =>
      rw [if_neg (root_ne_empty free solid inside (by simp)), getNode_leaf levels placed held,
        Tree.find_leaf]
    | branch => exact absurd placed.1 (Nat.lt_irrefl 0)
  | cons b _ ih =>
    unfold getAt
    cases tree with
    | empty => rw [if_pos (root_empty _), Tree.find_empty]
    | leaf =>
      rw [if_neg (root_ne_empty free solid inside (by simp)), getNode_leaf levels placed held,
        Tree.find_leaf]
    | branch =>
      rw [if_neg (root_ne_empty free solid inside (by simp)), length_cons,
        getNode_branch sizes held, Tree.find_branch]
      rw [Tree.branch_eq_beside b] at inside
      simp only [root_side]
      exact ih (level_below levels) (holds_branch b held).1 (Tree.placed_branch placed b).1
        (Tree.solid_branch solid b).1 inside.beside.2.1

def upOf (w : Wire) (b3 : Bytes → Bytes) (n : Nat) : TrieTree → Up
  | .empty => .empty
  | .leaf k v => .leaf (nodeHash w b3 (.leaf k v))
  | .branch l r => .branch (Tree.root (nodeHash w b3) n (.branch l r))

theorem hash_upOf (n : Nat) (tree : TrieTree) :
    (upOf w b3 n tree).hash w b3 n = tree.root (nodeHash w b3) n := by
  cases tree <;> rfl

structure Lifted (w : Wire) (b3 : Bytes → Bytes) (U : Set TrieNode)
    (nodes : Table Bytes Bytes) (n : Nat) (tree : TrieTree) (out : Up × Table Bytes Bytes) :
    Prop where
  up : out.1 = upOf w b3 n tree
  grown : Grown w b3 U nodes out.2
  held : Holds w b3 out.2 (tree.nodes (nodeHash w b3) n)

theorem upOf_beside (b : Bool) (n : Nat) (child sibling : TrieTree) :
    upOf w b3 n (.beside b child sibling) =
      .branch (Tree.root (nodeHash w b3) n (.beside b child sibling)) := by
  cases b <;> rfl

theorem lifted_beside {joined : Bytes × Table Bytes Bytes}
    (built : Built w b3 U nodes (n + 1) (.beside b child sibling) joined) :
    Lifted w b3 U nodes (n + 1) (.beside b child sibling) (.branch joined.1, joined.2) :=
  ⟨by rw [upOf_beside, built.root], built.grown, built.held⟩

theorem root_eq_empty {tree : TrieTree} (free : Free w b3 U)
    (solid : tree.Solid) (inside : Inside w b3 U n tree) :
    tree.root (nodeHash w b3) n = emptyHash w b3 n ↔ tree = .empty :=
  ⟨Tree.eq_empty_of_root free solid inside, fun same => same ▸ root_empty n⟩

theorem isLeaf_leaf (levels : pre.length + n = 256)
    (placed : Tree.Placed keyBits n pre (.leaf k v))
    (held : Holds w b3 nodes (Tree.nodes (nodeHash w b3) n (.leaf k v))) :
    isLeaf nodes (Tree.root (nodeHash w b3) n (.leaf k v)) = true := by
  unfold isLeaf
  rw [getNode_leaf levels placed held]

theorem isLeaf_branch (sizes : Hashes32 w b3)
    (placed : Tree.Placed keyBits n pre (.branch l r))
    (held : Holds w b3 nodes (Tree.nodes (nodeHash w b3) n (.branch l r))) :
    isLeaf nodes (Tree.root (nodeHash w b3) n (.branch l r)) = false := by
  obtain ⟨m, rfl⟩ := Nat.exists_eq_add_one_of_ne_zero (Nat.ne_of_gt placed.1)
  unfold isLeaf
  rw [getNode_branch sizes held]

variable {canonical : Bool}

theorem climb_lifted (sizes : Hashes32 w b3) (free : Free w b3 U)
    (levels : pre.length + n = 256) (sound : Sound w b3 U nodes)
    (below : Holds w b3 nodes (child.nodes (nodeHash w b3) n))
    (aside : Holds w b3 nodes (sibling.nodes (nodeHash w b3) n))
    (placed : sibling.Placed keyBits n pre) (solid : child.Solid) (solid' : sibling.Solid)
    (beside : Inside w b3 U n sibling)
    (inside : Inside w b3 U (n + 1) (.rejoin canonical b child sibling)) :
    Lifted w b3 U nodes (n + 1) (.rejoin canonical b child sibling)
      (climb w b3 canonical b n (upOf w b3 n child)
        (sibling.root (nodeHash w b3) n) nodes) := by
  have own := root_eq_empty free solid inside.rejoin
  have lone := root_eq_empty free solid' beside
  have branch (inside : Inside w b3 U (n + 1) (.beside b child sibling)) :=
    lifted_beside (built_beside free sound inside below aside)
  have gone : Lifted w b3 U nodes (n + 1) .empty (.empty, nodes) :=
    ⟨rfl, .refl sound, fun _ none => absurd none not_mem_nil⟩
  cases canonical with
  | false =>
    by_cases both : child = .empty ∧ sibling = .empty
    · obtain ⟨rfl, rfl⟩ := both
      simp only [climb, hash_upOf, own, and_self, if_true, Bool.false_eq_true, if_false]
      exact gone
    · have joined : Tree.rejoin false b child sibling = .beside b child sibling := by
        cases child <;> cases sibling <;> simp_all [Tree.rejoin]
      rw [joined] at inside ⊢
      simp only [climb, hash_upOf, own, lone, both, Bool.false_eq_true, if_false]
      exact branch inside
  | true =>
    cases child with
    | branch => exact branch inside
    | leaf =>
      cases sibling with
      | empty =>
        simp only [climb, upOf, lone, if_true]
        exact ⟨rfl, .refl sound, below⟩
      | leaf | branch =>
        simp only [climb, upOf, lone, if_true, reduceCtorEq, if_false]
        exact branch inside
    | empty =>
      cases sibling with
      | empty =>
        simp only [climb, upOf, lone, if_true]
        exact gone
      | leaf =>
        simp only [climb, upOf, lone, reduceCtorEq, if_true, if_false,
          isLeaf_leaf levels placed aside]
        exact ⟨rfl, .refl sound, aside⟩
      | branch =>
        simp only [climb, upOf, lone, reduceCtorEq, if_true, if_false,
          isLeaf_branch sizes placed aside, Bool.false_eq_true]
        exact branch inside

def Deleted (w : Wire) (b3 : Bytes → Bytes) (U : Set TrieNode) (nodes : Table Bytes Bytes)
    (n : Nat) : Option TrieTree → Except SentrixError (Option (Up × Table Bytes Bytes)) → Prop
  | none, result => result = .ok none
  | some left, result => ∃ out, result = .ok (some out) ∧ Lifted w b3 U nodes n left out

theorem deleteAt_leaf (free : Free w b3 U)
    (levels : pre.length + bits.length = 256) (sound : Sound w b3 U nodes)
    (held : Holds w b3 nodes (Tree.nodes (nodeHash w b3) bits.length (.leaf k v)))
    (placed : Tree.Placed keyBits bits.length pre (.leaf k v))
    (inside : Inside w b3 U bits.length (.leaf k v)) :
    Deleted w b3 U nodes bits.length (Tree.remove? canonical key bits (.leaf k v))
      (deleteAt w b3 canonical key bits
        (Tree.root (nodeHash w b3) bits.length (.leaf k v)) nodes) := by
  have removed : Tree.remove? canonical key bits (.leaf k v) =
      if k = key then some .empty else none := by
    cases bits <;> rfl
  have solid : Tree.Solid (.leaf k v : TrieTree) := trivial
  unfold deleteAt
  rw [removed, if_neg (root_ne_empty free solid inside (by simp)), getNode_leaf levels placed held]
  by_cases same : k = key
  · simp only [if_pos same]
    exact ⟨_, rfl, rfl, .refl sound, fun _ none => absurd none not_mem_nil⟩
  · simp only [if_neg same]
    rfl

theorem deleteAt_empty :
    Deleted w b3 U nodes bits.length (Tree.remove? canonical key bits .empty)
      (deleteAt w b3 canonical key bits
        (Tree.root (nodeHash w b3) bits.length .empty) nodes) := by
  have removed : Tree.remove? canonical key bits (.empty : TrieTree) = none := by
    cases bits <;> rfl
  unfold deleteAt
  rw [removed, if_pos (root_empty _)]
  rfl

theorem deleteAt_lifted (sizes : Hashes32 w b3) (free : Free w b3 U)
    {tree : TrieTree} (levels : pre.length + bits.length = 256) (here : keyBits key = pre ++ bits)
    (sound : Sound w b3 U nodes)
    (held : Holds w b3 nodes (tree.nodes (nodeHash w b3) bits.length))
    (placed : tree.Placed keyBits bits.length pre) (solid : tree.Solid)
    (before : Inside w b3 U bits.length tree)
    (after : ∀ left, tree.remove? canonical key bits = some left → Inside w b3 U bits.length left) :
    Deleted w b3 U nodes bits.length (tree.remove? canonical key bits)
      (deleteAt w b3 canonical key bits (tree.root (nodeHash w b3) bits.length) nodes) := by
  induction bits generalizing pre tree with
  | nil =>
    cases tree with
    | empty => exact deleteAt_empty
    | leaf => exact deleteAt_leaf free levels sound held placed before
    | branch => exact absurd placed.1 (Nat.lt_irrefl 0)
  | cons b rest ih =>
    cases tree with
    | empty => exact deleteAt_empty
    | leaf => exact deleteAt_leaf free levels sound held placed before
    | branch l r =>
      obtain ⟨inner, outer⟩ := Tree.placed_branch placed b
      obtain ⟨solidIn, solidOut⟩ := Tree.solid_branch solid b
      obtain ⟨below, aside⟩ := holds_branch b held
      have full := root_ne_empty free solid before (by simp)
      rw [Tree.branch_eq_beside b] at before
      obtain ⟨-, withinIn, withinOut⟩ := before.beside
      have child := ih (level_below levels) (Tree.regroup here) below inner solidIn withinIn
        fun left gone => (after _ (congrArg (Option.map _) gone)).rejoin
      unfold deleteAt
      rw [if_neg full, length_cons, getNode_branch sizes held]
      simp only [root_side, Tree.remove?]
      cases gone : Tree.remove? canonical key rest (if b then r else l) with
      | none =>
        rw [gone] at child
        rw [show deleteAt w b3 canonical key rest _ nodes = _ from child]
        rfl
      | some =>
        rw [gone] at child
        obtain ⟨out, ran, lifted⟩ := child
        have shape := Tree.remove?_some inner solidIn (Tree.regroup here) gone
        have whole := climb_lifted sizes free (level_below (b := !b) levels) lifted.grown.sound lifted.held
          (lifted.grown.holds aside) outer shape.solid solidOut withinOut
          (after _ (congrArg (Option.map _) gone))
        rw [← lifted.up] at whole
        rw [ran]
        exact ⟨_, rfl, whole.up, lifted.grown.trans whole.grown, whole.held⟩

end

/-- The trie stands for the tree, and everything hashed for it lies in the set. -/
structure Represents (w : Wire) (b3 : Bytes → Bytes) (U : Set TrieNode) (t : SentrixTrie)
    (tree : TrieTree) : Prop where
  root : t.root = tree.root (nodeHash w b3) 256
  held : Holds w b3 t.nodes (tree.nodes (nodeHash w b3) 256)
  sound : Sound w b3 U t.nodes
  placed : tree.Placed keyBits 256 []
  solid : tree.Solid
  inside : Inside w b3 U 256 tree

def treeWrite (canonical : Bool) (tree : TrieTree) (entry : TrieWrite) : TrieTree :=
  match entry.2 with
  | some value => tree.insert keyBits entry.1 value (keyBits entry.1) 0
  | none => tree.remove canonical entry.1 (keyBits entry.1)

def treeWrites (canonical : Bool) (writes : List TrieWrite) (tree : TrieTree) : TrieTree :=
  writes.foldl (treeWrite canonical) tree

section
variable {w : Wire} {b3 : Bytes → Bytes} {U : Set TrieNode} {t : SentrixTrie}
  {tree : TrieTree} {key value : Bytes}

theorem levels_of_key (long : key.length = 32) : (keyBits key).length = 256 := by
  rw [length_keyBits, long]

theorem Represents.later {t' : SentrixTrie} (rep : Represents w b3 U t tree)
    (root : t'.root = t.root) (grown : Grown w b3 U t.nodes t'.nodes) :
    Represents w b3 U t' tree :=
  ⟨root.trans rep.root, grown.holds rep.held, grown.sound, rep.placed, rep.solid, rep.inside⟩

theorem Represents.get (rep : Represents w b3 U t tree) (sizes : Hashes32 w b3)
    (free : Free w b3 U) (long : key.length = 32) :
    t.get w b3 key = .ok (tree.find key (keyBits key)) := by
  obtain ⟨root, held, sound, placed, solid, inside⟩ := rep
  have levels := levels_of_key long
  rw [← levels] at root held placed inside
  unfold SentrixTrie.get
  rw [root]
  exact getAt_find sizes free (by simpa using levels) held placed solid inside

structure Wrote (w : Wire) (b3 : Bytes → Bytes) (U : Set TrieNode) (t t' : SentrixTrie)
    (tree : TrieTree) : Prop where
  represents : Represents w b3 U t' tree
  grown : Grown w b3 U t.nodes t'.nodes
  canonical : t'.canonicalDelete = t.canonicalDelete

theorem insert_wrote (rep : Represents w b3 U t tree) (sizes : Hashes32 w b3)
    (free : Free w b3 U) (long : key.length = 32)
    (after : Inside w b3 U 256 (tree.insert keyBits key value (keyBits key) 0)) :
    ∃ t', SentrixTrie.insert w b3 key value t = .ok () t' ∧
      Wrote w b3 U t t' (tree.insert keyBits key value (keyBits key) 0) := by
  obtain ⟨root, held, sound, placed, solid, inside⟩ := rep
  have levels := levels_of_key long
  have here : keyBits key = [] ++ keyBits key := rfl
  rw [← levels] at root held placed inside after
  have shape := @Tree.placed_insert _ _ _ keyBits key value _ _ keyBits_injective tree placed solid
    here
  obtain ⟨out, ran, built⟩ := insertAt_built sizes free (by simpa using levels) here sound held
    placed solid inside after
  rw [levels] at built shape after
  refine ⟨{ t with root := out.1, nodes := out.2 }, ?_,
    ⟨built.root, built.held, built.grown.sound, shape.1, shape.2.1, after⟩, built.grown, rfl⟩
  have ran : insertAt w b3 key value (keyBits key) 0 t.root t.nodes = .ok out := by
    rw [root]
    exact ran
  simp only [SentrixTrie.insert, ran]

theorem delete_wrote (rep : Represents w b3 U t tree) (sizes : Hashes32 w b3)
    (free : Free w b3 U) (long : key.length = 32)
    (after : Inside w b3 U 256 (tree.remove t.canonicalDelete key (keyBits key))) :
    ∃ t', SentrixTrie.delete w b3 key t = .ok () t' ∧
      Wrote w b3 U t t' (tree.remove t.canonicalDelete key (keyBits key)) := by
  have same := rep
  obtain ⟨root, held, sound, placed, solid, inside⟩ := rep
  have levels := levels_of_key long
  have here : keyBits key = [] ++ keyBits key := rfl
  rw [← levels] at root held placed inside after
  have shape := @Tree.remove_without _ _ _ keyBits key _ _ t.canonicalDelete tree placed solid here
  have kept (left : TrieTree) (gone : tree.remove? t.canonicalDelete key (keyBits key) = some left) :
      Inside w b3 U (keyBits key).length left := by
    rwa [Tree.remove, gone] at after
  have deleted := deleteAt_lifted sizes free (by simpa using levels) here sound held placed solid
    inside kept
  rw [← root] at deleted
  unfold SentrixTrie.delete
  unfold Tree.remove at shape after ⊢
  cases gone : tree.remove? t.canonicalDelete key (keyBits key) with
  | none =>
    rw [gone] at deleted
    rw [show deleteAt w b3 t.canonicalDelete key (keyBits key) t.root t.nodes = _ from deleted]
    exact ⟨t, rfl, same, .refl sound, rfl⟩
  | some =>
    rw [gone] at deleted shape after
    obtain ⟨out, ran, lifted⟩ := deleted
    simp only [ran]
    refine ⟨_, rfl, ⟨?_, levels ▸ lifted.held, lifted.grown.sound, levels ▸ shape.placed,
      shape.solid, levels ▸ after⟩, lifted.grown, rfl⟩
    show out.1.hash w b3 _ = _
    rw [lifted.up, hash_upOf, levels, Option.getD_some]

variable {contractsHash : SentrixTokens.ContractRegistry → Bytes}
  {nftHash : SentrixTokens.NftRegistry → Bytes} {entry : TrieWrite}

theorem writeTrie_wrote (rep : Represents w b3 U t tree) (sizes : Hashes32 w b3)
    (free : Free w b3 U) (long : entry.1.length = 32)
    (after : Inside w b3 U 256 (treeWrite t.canonicalDelete tree entry)) :
    ∃ t', Blockchain.writeTrie (sparseOps w b3 contractsHash nftHash) entry t = .ok () t' ∧
      Wrote w b3 U t t' (treeWrite t.canonicalDelete tree entry) := by
  obtain ⟨key, value⟩ := entry
  cases value with
  | some => exact insert_wrote rep sizes free long after
  | none => exact delete_wrote rep sizes free long after

theorem treeWrites_cons (canonical : Bool) (entry : TrieWrite) (rest : List TrieWrite) :
    treeWrites canonical (entry :: rest) tree =
      treeWrites canonical rest (treeWrite canonical tree entry) := rfl

variable {writes : List TrieWrite}

theorem writes_wrote (rep : Represents w b3 U t tree) (sizes : Hashes32 w b3)
    (free : Free w b3 U) (long : ∀ entry ∈ writes, entry.1.length = 32)
    (after : ∀ done, done <+: writes → Inside w b3 U 256 (treeWrites t.canonicalDelete done tree)) :
    ∃ t', (writes.forM (Blockchain.writeTrie (sparseOps w b3 contractsHash nftHash)) :
        EStateM SentrixError SentrixTrie PUnit) t = .ok () t' ∧
      Wrote w b3 U t t' (treeWrites t.canonicalDelete writes tree) := by
  induction writes generalizing t tree with
  | nil => exact ⟨t, rfl, rep, .refl rep.sound, rfl⟩
  | cons entry rest ih =>
    obtain ⟨mid, ran, first⟩ := @writeTrie_wrote _ _ _ _ _ contractsHash nftHash _ rep sizes free
      (long entry mem_cons_self) (after [entry] (prefix_append [entry] rest))
    obtain ⟨last, others, second⟩ := ih first.represents
      (fun e inside => long e (mem_cons_of_mem _ inside)) fun done part => by
        rw [first.canonical]
        exact after (entry :: done) (prefix_cons_inj entry |>.mpr part)
    rw [first.canonical] at second
    exact ⟨last, (bind_of_ok ran).trans others, second.represents, first.grown.trans second.grown,
      second.canonical.trans first.canonical⟩

variable {canonical : Bool}

theorem treeWrite_shape (placed : tree.Placed keyBits 256 []) (solid : tree.Solid)
    (long : entry.1.length = 32) :
    (treeWrite canonical tree entry).Placed keyBits 256 [] ∧
      (treeWrite canonical tree entry).Solid := by
  obtain ⟨key, value⟩ := entry
  have levels := levels_of_key long
  rw [← levels] at placed ⊢
  cases value with
  | some value =>
    have shape := @Tree.placed_insert _ _ _ keyBits key value _ _ keyBits_injective tree placed solid
      (nil_append _).symm
    exact ⟨shape.1, shape.2.1⟩
  | none =>
    have shape := @Tree.remove_without _ _ _ keyBits key _ _ canonical tree placed solid
      (nil_append _).symm
    exact ⟨shape.placed, shape.solid⟩

variable {q : Bytes}

theorem find_treeWrite (placed : tree.Placed keyBits 256 []) (solid : tree.Solid)
    (long : entry.1.length = 32) (asked : q.length = 32) :
    (treeWrite canonical tree entry).find q (keyBits q) =
      if entry.1 = q then entry.2 else tree.find q (keyBits q) := by
  obtain ⟨key, value⟩ := entry
  have levels := levels_of_key long
  have levels' : (keyBits q).length = (keyBits key).length := by
    rw [levels, levels_of_key asked]
  rw [← levels] at placed
  cases value with
  | some =>
    exact Tree.find_insert keyBits_injective placed (nil_append _).symm
      (nil_append _).symm levels'.symm
  | none =>
    exact (@Tree.remove_without _ _ _ keyBits key _ _ canonical tree placed solid
      (nil_append _).symm).found (nil_append _).symm levels'

theorem find_treeWrites_other (placed : tree.Placed keyBits 256 []) (solid : tree.Solid)
    (long : ∀ entry ∈ writes, entry.1.length = 32) (asked : q.length = 32)
    (other : ∀ entry ∈ writes, entry.1 ≠ q) :
    (treeWrites canonical writes tree).find q (keyBits q) = tree.find q (keyBits q) := by
  induction writes generalizing tree with
  | nil => rfl
  | cons entry _ ih =>
    have first := long entry mem_cons_self
    obtain ⟨placed', solid'⟩ := treeWrite_shape placed solid first
    rw [treeWrites_cons, ih placed' solid' (fun e inside => long e (mem_cons_of_mem _ inside))
      (fun e inside => other e (mem_cons_of_mem _ inside)),
      find_treeWrite placed solid first asked, if_neg (other entry mem_cons_self)]

theorem find_treeWrites {value : Option Bytes} (placed : tree.Placed keyBits 256 [])
    (solid : tree.Solid) (long : ∀ entry ∈ writes, entry.1.length = 32) (asked : q.length = 32)
    (written : (q, value) ∈ writes) (agree : ∀ entry ∈ writes, entry.1 = q → entry.2 = value) :
    (treeWrites canonical writes tree).find q (keyBits q) = value := by
  induction writes generalizing tree with
  | nil => cases written
  | cons entry rest ih =>
    have first := long entry mem_cons_self
    have others : ∀ e ∈ rest, e.1.length = 32 :=
      fun e inside => long e (mem_cons_of_mem _ inside)
    obtain ⟨placed', solid'⟩ := treeWrite_shape placed solid first
    rw [treeWrites_cons]
    by_cases later : (q, value) ∈ rest
    · exact ih placed' solid' others later fun e inside => agree e (mem_cons_of_mem _ inside)
    · -- a later write to the key would be this very pair
      have silent : ∀ e ∈ rest, e.1 ≠ q := by
        rintro ⟨k, v⟩ inside rfl
        exact later (agree _ (mem_cons_of_mem _ inside) rfl ▸ inside)
      obtain rfl : (q, value) = entry := (List.mem_cons.mp written).resolve_right later
      rw [find_treeWrites_other placed' solid' others asked silent,
        find_treeWrite placed solid first asked, if_pos rfl]

end
end SentrixCore
