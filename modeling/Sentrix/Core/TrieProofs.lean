import Sentrix.Lib.CompactTrees
import Sentrix.Lib.MerklePaths
import Sentrix.Core.Executor
import Sentrix.Core.ListedDigests

/-!
The trie over whole runs, from the empty one on. A run leaves what the same operations
leave in a map; with canonical deletion the root depends on that map alone.
-/
namespace SentrixCore
open HashTable Effects SentrixPrimitives SparseMerkle List

/-- The code's keys are arrays of 32 bytes. -/
abbrev TrieKey := {key : Bytes // key.length = 32}

inductive TrieOp where
  | insert (key : TrieKey) (value : Bytes)
  | delete (key : TrieKey)
  | commit (version : Nat)
  | setCanonicalDelete (on : Bool)

namespace TrieOp
section
variable (w : Wire) (b3 : Bytes → Bytes)

def run : TrieOp → EStateM SentrixError SentrixTrie Unit
  | .insert key value => SentrixTrie.insert w b3 key.1 value
  | .delete key => SentrixTrie.delete w b3 key.1
  | .commit version => do
    let _ ← SentrixTrie.commit version
    pure ()
  | .setCanonicalDelete on => modify fun t => { t with canonicalDelete := on }

def runAll (ops : List TrieOp) : EStateM SentrixError SentrixTrie Unit :=
  ops.forM (run w b3)

end

def onMap (map : TrieKey → Option Bytes) : TrieOp → TrieKey → Option Bytes
  | .insert key value => Function.update map key (some value)
  | .delete key => Function.update map key none
  | .commit _ => map
  | .setCanonicalDelete _ => map

def onTree : Bool × TrieTree → TrieOp → Bool × TrieTree
  | (canonical, tree), .insert key value => (canonical, treeWrite canonical tree (key.1, some value))
  | (canonical, tree), .delete key => (canonical, treeWrite canonical tree (key.1, none))
  | state, .commit _ => state
  | (_, tree), .setCanonicalDelete on => (on, tree)

def mapOf (ops : List TrieOp) : TrieKey → Option Bytes :=
  ops.foldl onMap fun _ => none

def treeOf (canonical : Bool) (ops : List TrieOp) : Bool × TrieTree :=
  ops.foldl onTree (canonical, .empty)

end TrieOp

def SentrixTrie.fresh (w : Wire) (b3 : Bytes → Bytes) (canonical : Bool) : SentrixTrie :=
  ⟨emptyHash w b3 256, 0, canonical, ∅⟩

structure MerkleProof where
  key : TrieKey
  value : Bytes
  siblings : List Bytes
  depth : Nat
  found : Bool
  terminalHash : Bytes
  deriving DecidableEq

section
variable (w : Wire) (b3 : Bytes → Bytes)

namespace MerkleProof

def computeRoot (p : MerkleProof) (leafHash : Bytes) : Bytes :=
  Tree.rebuild (nodeHash w b3) (keyBits p.key.1) p.siblings leafHash

def verifyMembership (p : MerkleProof) (root : Bytes) : Bool :=
  p.found && p.siblings.length == p.depth &&
    p.computeRoot w b3 (nodeHash w b3 (.leaf p.key.1 p.value)) == root

def verifyNonmembership (p : MerkleProof) (root : Bytes) : Bool :=
  !p.found && p.siblings.length == p.depth && p.computeRoot w b3 p.terminalHash == root

end MerkleProof

def proveAt (key : TrieKey) (bits : List Bool) (siblings : List Bytes) (current : Bytes)
    (nodes : Table Bytes Bytes) : Except SentrixError MerkleProof :=
  if current = emptyHash w b3 bits.length then
    .ok ⟨key, [], siblings, siblings.length, false, emptyHash w b3 bits.length⟩
  else
    match (nodes.lookup current).bind readNode with
    | some (.leaf k value) =>
      if k = key.1 then
        .ok ⟨key, value, siblings, siblings.length, true, nodeHash w b3 (.leaf key.1 value)⟩
      -- the hash the other leaf is stored under
      else .ok ⟨key, [], siblings, siblings.length, false, current⟩
    | some (.branch left right) =>
      match bits with
      | [] => .error (.internal "trie: corrupt tree — Internal node at depth 256 in prove")
      | b :: rest =>
        proveAt key rest (siblings ++ [if b then left else right]) (if b then right else left) nodes
    | _ => .error (.internal "trie: missing node in prove")

def SentrixTrie.prove (t : SentrixTrie) (key : TrieKey) : Except SentrixError MerkleProof :=
  proveAt w b3 key (keyBits key.1) [] t.root t.nodes

end

section
variable {w : Wire} {b3 : Bytes → Bytes} {U : Set TrieNode} {t : SentrixTrie}
  {tree : TrieTree}

def hashedNodes (w : Wire) (b3 : Bytes → Bytes) (canonical : Bool) (ops : List TrieOp) :
    Set TrieNode :=
  {p | p ∈ Tree.emptyPreimages (nodeHash w b3) 256 ∨
    ∃ done, done <+: ops ∧ p ∈ (TrieOp.treeOf canonical done).2.nodes (nodeHash w b3) 256}

theorem run_wrote (op : TrieOp) (rep : Represents w b3 U t tree) (sizes : Hashes32 w b3)
    (free : Free w b3 U)
    (after : Inside w b3 U 256 (TrieOp.onTree (t.canonicalDelete, tree) op).2) :
    ∃ t', op.run w b3 t = .ok () t' ∧
      Represents w b3 U t' (TrieOp.onTree (t.canonicalDelete, tree) op).2 ∧
      t'.canonicalDelete = (TrieOp.onTree (t.canonicalDelete, tree) op).1 := by
  cases op with
  | insert key =>
    obtain ⟨t', ran, wrote⟩ := insert_wrote rep sizes free key.2 after
    exact ⟨t', ran, wrote.represents, wrote.canonical⟩
  | delete key =>
    obtain ⟨t', ran, wrote⟩ := delete_wrote rep sizes free key.2 after
    exact ⟨t', ran, wrote.represents, wrote.canonical⟩
  | commit => exact ⟨_, rfl, rep.later rfl (.refl rep.sound), rfl⟩
  | setCanonicalDelete => exact ⟨_, rfl, rep.later rfl (.refl rep.sound), rfl⟩

theorem runAll_wrote (ops : List TrieOp) (rep : Represents w b3 U t tree)
    (sizes : Hashes32 w b3) (free : Free w b3 U)
    (after : ∀ done, done <+: ops → Inside w b3 U 256
      (done.foldl TrieOp.onTree (t.canonicalDelete, tree)).2) :
    ∃ t', TrieOp.runAll w b3 ops t = .ok () t' ∧
      Represents w b3 U t' (ops.foldl TrieOp.onTree (t.canonicalDelete, tree)).2 ∧
      t'.canonicalDelete = (ops.foldl TrieOp.onTree (t.canonicalDelete, tree)).1 := by
  induction ops generalizing t tree with
  | nil => exact ⟨t, rfl, rep, rfl⟩
  | cons op rest ih =>
    obtain ⟨mid, ran, first, mode⟩ := run_wrote op rep sizes free
      (after [op] (prefix_append [op] rest))
    have state : (mid.canonicalDelete, (TrieOp.onTree (t.canonicalDelete, tree) op).2) =
        TrieOp.onTree (t.canonicalDelete, tree) op := by rw [mode]
    obtain ⟨last, others, second⟩ := ih first fun done part => by
      rw [state]
      exact after (op :: done) ((prefix_cons_inj op).mpr part)
    rw [state] at second
    exact ⟨last, (bind_of_ok ran).trans others, second⟩

theorem run_represents (sizes : Hashes32 w b3) (canonical : Bool) (ops : List TrieOp)
    (free : Free w b3 U) (all : hashedNodes w b3 canonical ops ⊆ U) :
    ∃ t, TrieOp.runAll w b3 ops (.fresh w b3 canonical) = .ok () t ∧
      Represents w b3 U t (TrieOp.treeOf canonical ops).2 := by
  have within (done : List TrieOp) (part : done <+: ops) : Inside w b3 U 256
      (TrieOp.treeOf canonical done).2 :=
    ⟨fun p inside => all (.inr ⟨done, part, inside⟩), fun p inside => all (.inl inside)⟩
  have start : Represents w b3 U (.fresh w b3 canonical) .empty :=
    ⟨rfl, nofun, nofun, trivial, trivial, within [] nil_prefix⟩
  obtain ⟨t, ran, rep, -⟩ := runAll_wrote ops start sizes free within
  exact ⟨t, ran, rep⟩

variable {state : Bool × TrieTree}

theorem onTree_shape (op : TrieOp) (placed : state.2.Placed keyBits 256 [])
    (solid : state.2.Solid) :
    (TrieOp.onTree state op).2.Placed keyBits 256 [] ∧ (TrieOp.onTree state op).2.Solid := by
  cases op with
  | insert key value => exact @treeWrite_shape state.2 (key.1, some value) state.1 placed solid key.2
  | delete key => exact @treeWrite_shape state.2 (key.1, none) state.1 placed solid key.2
  | commit => exact ⟨placed, solid⟩
  | setCanonicalDelete => exact ⟨placed, solid⟩

theorem find_onTree {map : TrieKey → Option Bytes} (op : TrieOp)
    (placed : state.2.Placed keyBits 256 []) (solid : state.2.Solid)
    (same : ∀ key : TrieKey, state.2.find key.1 (keyBits key.1) = map key) (key : TrieKey) :
    (TrieOp.onTree state op).2.find key.1 (keyBits key.1) = TrieOp.onMap map op key := by
  have written (at' : TrieKey) (value : Option Bytes) :
      (treeWrite state.1 state.2 (at'.1, value)).find key.1 (keyBits key.1) =
        Function.update map at' value key := by
    rw [find_treeWrite placed solid at'.2 key.2, same, Function.update_apply]
    simp only [Subtype.ext_iff, eq_comm]
  cases op with
  | insert at' value => exact written at' (some value)
  | delete at' => exact written at' none
  | commit => exact same key
  | setCanonicalDelete => exact same key

theorem find_foldl (ops : List TrieOp) {map : TrieKey → Option Bytes}
    (placed : state.2.Placed keyBits 256 []) (solid : state.2.Solid)
    (same : ∀ key : TrieKey, state.2.find key.1 (keyBits key.1) = map key) (key : TrieKey) :
    (ops.foldl TrieOp.onTree state).2.find key.1 (keyBits key.1) =
      ops.foldl TrieOp.onMap map key := by
  induction ops generalizing state map with
  | nil => exact same key
  | cons op _ ih =>
    obtain ⟨placed', solid'⟩ := onTree_shape op placed solid
    exact ih placed' solid' (find_onTree op placed solid same)

theorem find_treeOf (canonical : Bool) (ops : List TrieOp) (key : TrieKey) :
    (TrieOp.treeOf canonical ops).2.find key.1 (keyBits key.1) = TrieOp.mapOf ops key :=
  @find_foldl (canonical, .empty) ops _ trivial trivial (fun _ => Tree.find_empty _) key

section
variable {w : Wire} {nodes : List (TrieNode × Nat)} {texts : List (Bytes × Nat)}
  (sha : ∀ m, w.sha256Hex m = hexEncode (listedSha nodes texts m))
include sha

theorem sizes_listed : Hashes32 w (listedBlake3 nodes) := by
  intro p
  rw [nodeHash_listed sha]
  cases p <;> simp only [listedHash, listedBlake3, listedSha, length_word256]

theorem free_listed (listable : Listable nodes texts) :
    Set.InjOn (nodeHash w (listedBlake3 nodes)) (listedNodes nodes texts) := by
  rw [nodeHash_listed sha]
  exact listedHash_injOn listable

theorem hashedNodes_listed {canonical : Bool} {ops : List TrieOp}
    (inside : ∀ done ∈ ops.inits,
      ∀ p ∈ (TrieOp.treeOf canonical done).2.nodes (listedHash nodes texts) 256,
        p ∈ nodes.map (·.1)) :
    hashedNodes w (listedBlake3 nodes) canonical ops ⊆ listedNodes nodes texts := by
  unfold hashedNodes
  rw [nodeHash_listed sha]
  rintro p (empty | ⟨done, part, hashed⟩)
  · exact .inl empty
  · exact .inr (inside done ((mem_inits _ _).mpr part) p hashed)

end

def lowKey : TrieKey := ⟨word256 0, length_word256 0⟩
def highKey : TrieKey := ⟨word256 (2 ^ 255), length_word256 _⟩

def lowLeaf : Nat := 0x86e3ba9988f4d8b8e9c5de26562cc4a1cafefee5528fe1de42d4eb5544812dee
def highLeaf : Nat := 0xadd4da5f673e54dc3af806b57e0137c9369431b7e452f180cfc8dff4e379cf06

def pairNodes : List (TrieNode × Nat) :=
  [(.leaf lowKey.1 [1], lowLeaf), (.leaf highKey.1 [2], highLeaf),
   (.branch (word256 lowLeaf) (word256 highLeaf),
    0x65796e11cbe6e982bd18c5f0c39dd892f01cbadda9a6d6a8e712c29d674e25a2)]

abbrev pairBlake3 : Bytes → Bytes :=
  listedBlake3 pairNodes

def pairWire : Wire :=
  { tableWire [] with sha256Hex := fun m => hexEncode (listedSha pairNodes [] m) }

def bothInserted : List TrieOp :=
  [.insert lowKey [1], .insert highKey [2]]

def lowDeleted : List TrieOp :=
  bothInserted ++ [.commit 1, .delete lowKey]

theorem pairSha (m : Bytes) : pairWire.sha256Hex m = hexEncode (listedSha pairNodes [] m) := rfl

theorem pairSizes : Hashes32 pairWire pairBlake3 :=
  sizes_listed pairSha

theorem pairFree : Set.InjOn (nodeHash pairWire pairBlake3) (listedNodes pairNodes []) :=
  free_listed pairSha (by decide +kernel)

theorem lowDeleted_listed : hashedNodes pairWire pairBlake3 true lowDeleted ⊆
    listedNodes pairNodes [] :=
  hashedNodes_listed pairSha (by decide)

def treeProof (w : Wire) (b3 : Bytes → Bytes) (key : TrieKey) (siblings : List Bytes)
    (levels : Nat) : TrieTree → MerkleProof
  | .leaf k value =>
    if k = key.1 then
      ⟨key, value, siblings, siblings.length, true, nodeHash w b3 (.leaf k value)⟩
    else ⟨key, [], siblings, siblings.length, false, nodeHash w b3 (.leaf k value)⟩
  | _ => ⟨key, [], siblings, siblings.length, false, emptyHash w b3 levels⟩

variable {nodes : Table Bytes Bytes}

theorem readNode_held {node : TrieNode} {hash : Bytes} (found : getNode nodes hash = .ok node) :
    (nodes.lookup hash).bind readNode = some node := by
  unfold getNode at found
  split at found
  · rename_i read
    rw [read, Except.ok.inj found]
  · cases found

variable {key : TrieKey} {bits : List Bool} {passed : List Bytes}

theorem proveAt_empty :
    proveAt w b3 key bits passed (Tree.root (nodeHash w b3) bits.length .empty) nodes =
      .ok (treeProof w b3 key (passed ++ []) bits.length .empty) := by
  unfold proveAt
  rw [if_pos (root_empty _), append_nil]
  rfl

theorem proveAt_leaf (free : Free w b3 U) {pre : List Bool} {k v : Bytes}
    (levels : pre.length + bits.length = 256)
    (held : Holds w b3 nodes (Tree.nodes (nodeHash w b3) bits.length (.leaf k v)))
    (placed : Tree.Placed keyBits bits.length pre (.leaf k v))
    (inside : Inside w b3 U bits.length (.leaf k v)) :
    proveAt w b3 key bits passed (nodeHash w b3 (.leaf k v)) nodes =
      .ok (treeProof w b3 key (passed ++ []) bits.length (.leaf k v)) := by
  have read : (nodes.lookup (nodeHash w b3 (.leaf k v))).bind readNode = some (.leaf k v) :=
    readNode_held (getNode_leaf levels placed held)
  have other : nodeHash w b3 (.leaf k v) ≠ emptyHash w b3 bits.length :=
    Tree.leaf_ne_empty free inside
  unfold proveAt treeProof
  rw [if_neg other, read, append_nil]
  by_cases same : k = key.1
  · simp only [same, if_true]
  · simp only [same, if_false]

theorem proveAt_tree (sizes : Hashes32 w b3) (free : Free w b3 U)
    {pre : List Bool} (levels : pre.length + bits.length = 256)
    (held : Holds w b3 nodes (tree.nodes (nodeHash w b3) bits.length))
    (placed : tree.Placed keyBits bits.length pre) (solid : tree.Solid)
    (inside : Inside w b3 U bits.length tree) :
    proveAt w b3 key bits passed (tree.root (nodeHash w b3) bits.length) nodes =
      .ok (treeProof w b3 key (passed ++ tree.siblings (nodeHash w b3) bits)
        (bits.length - (tree.siblings (nodeHash w b3) bits).length) (tree.terminal bits)) := by
  induction bits generalizing pre tree passed with
  | nil =>
    cases tree with
    | empty => exact proveAt_empty
    | leaf => exact proveAt_leaf free levels held placed inside
    | branch => exact absurd placed.1 (Nat.lt_irrefl 0)
  | cons b _ ih =>
    cases tree with
    | empty => exact proveAt_empty
    | leaf => exact proveAt_leaf free levels held placed inside
    | branch =>
      have read := readNode_held (getNode_branch sizes held)
      unfold proveAt
      rw [if_neg (root_ne_empty free solid inside nofun), length_cons, read]
      rw [Tree.branch_eq_beside b] at inside
      simp only [root_side]
      rw [ih (level_below levels) (holds_branch b held).1 (Tree.placed_branch placed b).1
        (Tree.solid_branch solid b).1 inside.beside.2.1]
      simp only [Tree.siblings, Tree.terminal, length_cons, Nat.add_sub_add_right,
        append_assoc, singleton_append]

theorem Represents.prove (rep : Represents w b3 U t tree) (sizes : Hashes32 w b3)
    (free : Free w b3 U) (key : TrieKey) :
    t.prove w b3 key = .ok (treeProof w b3 key
      (tree.siblings (nodeHash w b3) (keyBits key.1))
      (256 - (tree.siblings (nodeHash w b3) (keyBits key.1)).length)
      (tree.terminal (keyBits key.1))) := by
  obtain ⟨root, held, sound, placed, solid, inside⟩ := rep
  have levels := levels_of_key key.2
  rw [← levels] at root held placed inside ⊢
  unfold SentrixTrie.prove
  rw [root]
  exact proveAt_tree sizes free (by simpa using levels) held placed solid inside

/-- The operations of a run agree with those on a map, whatever the mode of deletion. -/
theorem trie_refines_map (sizes : Hashes32 w b3) (canonical : Bool) (ops : List TrieOp)
    (free : Set.InjOn (nodeHash w b3) (hashedNodes w b3 canonical ops)) :
    ∃ t, TrieOp.runAll w b3 ops (.fresh w b3 canonical) = .ok () t ∧
      ∀ key : TrieKey, t.get w b3 key.1 = .ok (TrieOp.mapOf ops key) ∧
        ∃ proof, t.prove w b3 key = .ok proof := by
  obtain ⟨t, ran, rep⟩ := run_represents sizes canonical ops free subset_rfl
  refine ⟨t, ran, fun key => ⟨?_, ?_⟩⟩
  · rw [rep.get sizes free key.2, find_treeOf]
  · exact ⟨_, rep.prove sizes free key⟩

/-- The code's two hashes on the digests the run asks for. -/
theorem lowDeleted_refined :
    ∃ t, TrieOp.runAll pairWire pairBlake3 lowDeleted (.fresh pairWire pairBlake3 true) = .ok () t ∧
      t.get pairWire pairBlake3 lowKey.1 = .ok none ∧
      t.get pairWire pairBlake3 highKey.1 = .ok (some [2]) := by
  obtain ⟨t, ran, reads⟩ := trie_refines_map pairSizes true lowDeleted
    (pairFree.mono lowDeleted_listed)
  have low : TrieOp.mapOf lowDeleted lowKey = none := by decide
  have high : TrieOp.mapOf lowDeleted highKey = some [2] := by decide
  exact ⟨t, ran, low ▸ (reads lowKey).1, high ▸ (reads highKey).1⟩

theorem compact_onTree {state : Bool × TrieTree} (op : TrieOp)
    (placed : state.2.Placed keyBits 256 []) (compact : state.2.Compact) (mode : state.1 = true)
    (canonical : op ≠ .setCanonicalDelete false) :
    (TrieOp.onTree state op).2.Compact ∧ (TrieOp.onTree state op).1 = true := by
  obtain ⟨on, tree⟩ := state
  obtain rfl : on = true := mode
  cases op with
  | insert key =>
    rw [← levels_of_key key.2] at placed
    exact ⟨(Tree.compact_insert keyBits_injective placed (nil_append _).symm compact).1, rfl⟩
  | delete => exact ⟨Tree.compact_remove compact, rfl⟩
  | commit => exact ⟨compact, rfl⟩
  | setCanonicalDelete on' =>
    cases on' with
    | false => exact absurd rfl canonical
    | true => exact ⟨compact, rfl⟩

theorem compact_foldl (ops : List TrieOp) {state : Bool × TrieTree}
    (placed : state.2.Placed keyBits 256 []) (compact : state.2.Compact) (mode : state.1 = true)
    (canonical : ∀ op ∈ ops, op ≠ .setCanonicalDelete false) :
    (ops.foldl TrieOp.onTree state).2.Placed keyBits 256 [] ∧
      (ops.foldl TrieOp.onTree state).2.Compact := by
  induction ops generalizing state with
  | nil => exact ⟨placed, compact⟩
  | cons op _ ih =>
    obtain ⟨compact', mode'⟩ := compact_onTree op placed compact mode
      (canonical op mem_cons_self)
    exact ih (onTree_shape op placed compact.solid).1 compact' mode'
      fun o later => canonical o (mem_cons_of_mem _ later)

/-- Keys not of 32 bytes have no place in the tree. -/
theorem treeOf_eq_of_map {ops ops' : List TrieOp}
    (canonical : ∀ op ∈ ops, op ≠ .setCanonicalDelete false)
    (canonical' : ∀ op ∈ ops', op ≠ .setCanonicalDelete false)
    (same : TrieOp.mapOf ops = TrieOp.mapOf ops') :
    (TrieOp.treeOf true ops).2 = (TrieOp.treeOf true ops').2 := by
  obtain ⟨placed, compact⟩ := @compact_foldl ops (true, .empty) trivial trivial rfl canonical
  obtain ⟨placed', compact'⟩ := @compact_foldl ops' (true, .empty) trivial trivial rfl canonical'
  refine Tree.eq_of_alike placed placed' compact compact' fun q bits on length => ?_
  rw [nil_append] at on
  subst on
  rw [length_keyBits] at length
  exact (find_treeOf true ops ⟨q, by omega⟩).trans
    ((congrFun same _).trans (find_treeOf true ops' ⟨q, by omega⟩).symm)

/-- With canonical deletion the root depends on the map alone, and determines it. -/
theorem canonical_root_of_map (sizes : Hashes32 w b3) (ops ops' : List TrieOp)
    (canonical : ∀ op ∈ ops, op ≠ .setCanonicalDelete false)
    (canonical' : ∀ op ∈ ops', op ≠ .setCanonicalDelete false)
    (free : Set.InjOn (nodeHash w b3) (hashedNodes w b3 true ops))
    (free' : Set.InjOn (nodeHash w b3) (hashedNodes w b3 true ops')) :
    ∃ t t', TrieOp.runAll w b3 ops (.fresh w b3 true) = .ok () t ∧
      TrieOp.runAll w b3 ops' (.fresh w b3 true) = .ok () t' ∧
      (TrieOp.mapOf ops = TrieOp.mapOf ops' → t.root = t'.root) ∧
      (Set.InjOn (nodeHash w b3)
          (hashedNodes w b3 true ops ∪ hashedNodes w b3 true ops') →
        TrieOp.mapOf ops ≠ TrieOp.mapOf ops' → t.root ≠ t'.root) := by
  obtain ⟨t, ran, rep⟩ := run_represents sizes true ops free subset_rfl
  obtain ⟨t', ran', rep'⟩ := run_represents sizes true ops' free' subset_rfl
  refine ⟨t, t', ran, ran', fun same => ?_, fun joint differ same => differ ?_⟩
  · rw [rep.root, rep'.root, treeOf_eq_of_map canonical canonical' same]
  · have roots := rep.root.symm.trans (same.trans rep'.root)
    funext key
    rw [← find_treeOf true, ← find_treeOf true]
    exact Tree.find_of_root_eq joint (rep.inside.mono Set.subset_union_left)
      (rep'.inside.mono Set.subset_union_right) roots _

def highInserted : List TrieOp :=
  [.insert highKey [2]]

theorem highInserted_listed : hashedNodes pairWire pairBlake3 true highInserted ⊆
    listedNodes pairNodes [] :=
  hashedNodes_listed pairSha (by decide)

theorem bothInserted_listed : hashedNodes pairWire pairBlake3 true bothInserted ⊆
    listedNodes pairNodes [] :=
  hashedNodes_listed pairSha (by decide)

theorem mapOf_lowDeleted : TrieOp.mapOf lowDeleted = TrieOp.mapOf highInserted := by
  funext key
  by_cases low : key = lowKey
  · subst low
    decide
  · simp [TrieOp.mapOf, lowDeleted, highInserted, bothInserted, TrieOp.onMap, Function.update_apply,
      low]

/-- A key inserted and deleted leaves no trace; one that stays does. -/
theorem lowDeleted_root :
    (∃ t t', TrieOp.runAll pairWire pairBlake3 lowDeleted
        (.fresh pairWire pairBlake3 true) = .ok () t ∧
      TrieOp.runAll pairWire pairBlake3 highInserted
        (.fresh pairWire pairBlake3 true) = .ok () t' ∧ t.root = t'.root) ∧
    ∃ t t', TrieOp.runAll pairWire pairBlake3 bothInserted
        (.fresh pairWire pairBlake3 true) = .ok () t ∧
      TrieOp.runAll pairWire pairBlake3 highInserted
        (.fresh pairWire pairBlake3 true) = .ok () t' ∧ t.root ≠ t'.root := by
  have high := pairFree.mono highInserted_listed
  constructor
  · obtain ⟨t, t', ran, ran', same, -⟩ := canonical_root_of_map pairSizes lowDeleted highInserted
      (by simp [lowDeleted, bothInserted]) (by simp [highInserted])
      (pairFree.mono lowDeleted_listed) high
    exact ⟨t, t', ran, ran', same mapOf_lowDeleted⟩
  · obtain ⟨t, t', ran, ran', -, differ⟩ := canonical_root_of_map pairSizes bothInserted
      highInserted (by simp [bothInserted]) (by simp [highInserted])
      (pairFree.mono bothInserted_listed) high
    refine ⟨t, t', ran, ran', differ
      (pairFree.mono (Set.union_subset bothInserted_listed highInserted_listed)) fun same => ?_⟩
    have low : TrieOp.mapOf bothInserted lowKey ≠ TrieOp.mapOf highInserted lowKey := by
      decide
    exact low (congrFun same lowKey)

def MerkleProof.AcceptedFor (w : Wire) (b3 : Bytes → Bytes) (p : MerkleProof) (root : Bytes) :
    Option Bytes → Prop
  | some value => p.found = true ∧ p.value = value ∧ p.verifyMembership w b3 root = true
  | none => p.found = false ∧ p.verifyNonmembership w b3 root = true

def MerkleProof.hashed (w : Wire) (b3 : Bytes → Bytes) (p : MerkleProof) (bottom : Bytes) :
    Set TrieNode :=
  {node | node ∈ Tree.rebuilt (nodeHash w b3) (keyBits p.key.1) p.siblings bottom}

theorem treeProof_accepted (key : TrieKey) (placed : tree.Placed keyBits 256 []) :
    (treeProof w b3 key (tree.siblings (nodeHash w b3) (keyBits key.1))
      (256 - (tree.siblings (nodeHash w b3) (keyBits key.1)).length)
      (tree.terminal (keyBits key.1))).AcceptedFor w b3 (tree.root (nodeHash w b3) 256)
        (tree.find key.1 (keyBits key.1)) := by
  have levels := levels_of_key key.2
  rw [← levels] at placed ⊢
  have up := @Tree.rebuild_siblings _ _ _ (nodeHash w b3) (keyBits key.1) tree
  rw [Tree.find_terminal]
  cases ends : tree.terminal (keyBits key.1) with
  | branch l r => exact absurd ends (Tree.terminal_placed placed l r)
  | empty =>
    rw [ends] at up
    refine ⟨rfl, ?_⟩
    simpa [treeProof, MerkleProof.verifyNonmembership, MerkleProof.computeRoot, Tree.root,
        emptyHash] using up
  | leaf k =>
    rw [ends] at up
    rw [Tree.find_leaf]
    by_cases same : k = key.1
    · subst same
      rw [if_pos rfl]
      refine ⟨by simp [treeProof], by simp [treeProof], ?_⟩
      simpa [treeProof, MerkleProof.verifyMembership, MerkleProof.computeRoot, Tree.root,
        emptyHash] using up
    · rw [if_neg same]
      refine ⟨by simp [treeProof, same], ?_⟩
      simpa [treeProof, same, MerkleProof.verifyNonmembership, MerkleProof.computeRoot, Tree.root,
        emptyHash] using up

variable {p : MerkleProof}

/-- A proof whose hashes lead to the root of a trie ends in a part of it. -/
theorem below_of_computeRoot (rep : Represents w b3 U t tree)
    (free : Free w b3 U) {bottom : Bytes} (short : p.depth ≤ 256)
    (length : p.siblings.length = p.depth) (hashed : p.hashed w b3 bottom ⊆ U)
    (up : p.computeRoot w b3 bottom = t.root) :
    ∃ part, Tree.Below (nodeHash w b3) U (keyBits p.key.1) p.depth tree bottom part := by
  have levels := levels_of_key p.key.2
  have inside := rep.inside
  rw [rep.root, ← levels] at up
  rw [← levels] at inside
  rw [← length]
  exact Tree.below_of_rebuild free inside (fun node on => hashed on) (by omega) up

theorem membership_sound (rep : Represents w b3 U t tree)
    (free : Free w b3 U) (short : p.depth ≤ 256)
    (leaf : .leaf p.key.1 p.value ∈ U)
    (hashed : p.hashed w b3 (nodeHash w b3 (.leaf p.key.1 p.value)) ⊆ U)
    (accepted : p.verifyMembership w b3 t.root = true) :
    tree.find p.key.1 (keyBits p.key.1) = some p.value := by
  simp only [MerkleProof.verifyMembership, Bool.and_eq_true, beq_iff_eq] at accepted
  obtain ⟨⟨-, length⟩, up⟩ := accepted
  obtain ⟨part, below⟩ := below_of_computeRoot rep free short length hashed up
  rw [below.find, Tree.eq_leaf_of_root free below.within leaf below.root, Tree.find_leaf,
    if_pos rfl]

/-- Every key has a proof that is accepted, and an accepted membership proof is right. -/
theorem proofs_complete_and_sound (sizes : Hashes32 w b3) (canonical : Bool)
    (ops : List TrieOp)
    (free : Set.InjOn (nodeHash w b3) (hashedNodes w b3 canonical ops)) :
    ∃ t, TrieOp.runAll w b3 ops (.fresh w b3 canonical) = .ok () t ∧
      (∀ key : TrieKey, ∃ held proof, t.get w b3 key.1 = .ok held ∧
        t.prove w b3 key = .ok proof ∧ proof.key = key ∧
        proof.AcceptedFor w b3 t.root held) ∧
      ∀ p : MerkleProof, p.depth ≤ 256 →
        Set.InjOn (nodeHash w b3) (hashedNodes w b3 canonical ops ∪
          insert (.leaf p.key.1 p.value)
            (p.hashed w b3 (nodeHash w b3 (.leaf p.key.1 p.value)))) →
        p.verifyMembership w b3 t.root = true →
        t.get w b3 p.key.1 = .ok (some p.value) := by
  obtain ⟨t, ran, rep⟩ := run_represents sizes canonical ops free subset_rfl
  refine ⟨t, ran, fun key => ?_, fun p short joint accepted => ?_⟩
  · refine ⟨_, _, rep.get sizes free key.2, rep.prove sizes free key, ?_, ?_⟩
    · unfold treeProof
      split
      · split <;> rfl
      · rfl
    · rw [rep.root]
      exact treeProof_accepted key rep.placed
  · obtain ⟨t', ran', rep'⟩ := run_represents sizes canonical ops joint Set.subset_union_left
    obtain ⟨-, rfl⟩ := EStateM.Result.ok.inj (ran.symm.trans ran')
    rw [rep.get sizes free p.key.2, membership_sound rep' joint short
      (.inr (Set.mem_insert _ _)) (fun node on => .inr (Set.mem_insert_of_mem _ on)) accepted]

def pairProof : MerkleProof :=
  ⟨highKey, [2], [word256 lowLeaf], 1, true, word256 highLeaf⟩

theorem pairProof_listed : insert (.leaf pairProof.key.1 pairProof.value)
    (pairProof.hashed pairWire pairBlake3 (nodeHash pairWire pairBlake3
      (.leaf pairProof.key.1 pairProof.value))) ⊆ listedNodes pairNodes [] := by
  have hashed : ∀ node ∈ Tree.rebuilt (listedHash pairNodes []) (keyBits highKey.1)
      [word256 lowLeaf] (listedHash pairNodes [] (.leaf highKey.1 [2])),
        node ∈ pairNodes.map (·.1) := by decide
  rintro node (rfl | on)
  · exact .inr (by decide)
  · rw [MerkleProof.hashed, nodeHash_listed pairSha] at on
    exact .inr (hashed node on)

theorem pair_proved :
    ∃ t, TrieOp.runAll pairWire pairBlake3 bothInserted
        (.fresh pairWire pairBlake3 true) = .ok () t ∧
      (∃ proof, t.prove pairWire pairBlake3 lowKey = .ok proof ∧
        proof.verifyMembership pairWire pairBlake3 t.root = true) ∧
      pairProof.verifyMembership pairWire pairBlake3 t.root = true ∧
      t.get pairWire pairBlake3 highKey.1 = .ok (some [2]) := by
  have free := pairFree.mono bothInserted_listed
  obtain ⟨t, ran, complete, sound⟩ := proofs_complete_and_sound pairSizes true bothInserted free
  obtain ⟨t', ran', rep⟩ := run_represents pairSizes true bothInserted free subset_rfl
  obtain ⟨-, rfl⟩ := EStateM.Result.ok.inj (ran.symm.trans ran')
  have joint := pairFree.mono (Set.union_subset bothInserted_listed pairProof_listed)
  have root : t.root = (TrieOp.treeOf true bothInserted).2.root (listedHash pairNodes []) 256 := by
    rw [rep.root, nodeHash_listed pairSha]
  have accepted : pairProof.verifyMembership pairWire pairBlake3 t.root = true := by
    unfold MerkleProof.verifyMembership MerkleProof.computeRoot
    rw [root, nodeHash_listed pairSha]
    decide
  refine ⟨t, ran, ?_, accepted, sound pairProof (by decide) joint accepted⟩
  obtain ⟨held, proof, reads, proved, -, right⟩ := complete lowKey
  have low : held = some [1] := by
    rw [rep.get pairSizes free lowKey.2, find_treeOf] at reads
    rw [← Except.ok.inj reads]
    decide
  subst low
  exact ⟨proof, proved, right.2.2⟩

/-- What the path of an honest proof of absence ends in, as far as its hash tells. -/
inductive MerkleProof.Ends (w : Wire) (b3 : Bytes → Bytes) (U : Set TrieNode)
    (p : MerkleProof) : Prop where
  | empty : p.terminalHash = emptyHash w b3 (256 - p.depth) → Ends w b3 U p
  | other (k v : Bytes) : k ≠ p.key.1 → .leaf k v ∈ U →
    p.terminalHash = nodeHash w b3 (.leaf k v) → Ends w b3 U p

theorem absence_of_ends (rep : Represents w b3 U t tree)
    (free : Free w b3 U) (short : p.depth ≤ 256)
    (hashed : p.hashed w b3 p.terminalHash ⊆ U) (ends : p.Ends w b3 U)
    (accepted : p.verifyNonmembership w b3 t.root = true) :
    tree.find p.key.1 (keyBits p.key.1) = none := by
  simp only [MerkleProof.verifyNonmembership, Bool.and_eq_true, beq_iff_eq] at accepted
  obtain ⟨⟨-, length⟩, up⟩ := accepted
  obtain ⟨part, below⟩ := below_of_computeRoot rep free short length hashed up
  rw [below.find]
  cases ends with
  | empty bottom =>
    have root := below.root.trans bottom
    rw [← levels_of_key p.key.2] at root
    exact Tree.find_of_empty_root free below.within root _
  | other _ _ apart leaf bottom =>
    rw [Tree.eq_leaf_of_root free below.within leaf (below.root.trans bottom), Tree.find_leaf,
      if_neg apart]

/-- The terminal hash stands for a part of the tree that still leads to the key. -/
def MerkleProof.Hides (w : Wire) (b3 : Bytes → Bytes) (U : Set TrieNode) (p : MerkleProof) :
    Prop :=
  ∃ value below, .leaf p.key.1 value ∈ U ∧ below.length ≤ 256 - p.depth ∧
    (∀ node ∈ Tree.rebuilt (nodeHash w b3) ((keyBits p.key.1).drop p.depth) below
      (nodeHash w b3 (.leaf p.key.1 value)), node ∈ U) ∧
    Tree.rebuild (nodeHash w b3) ((keyBits p.key.1).drop p.depth) below
      (nodeHash w b3 (.leaf p.key.1 value)) = p.terminalHash

theorem absence_iff (rep : Represents w b3 U t tree) (free : Free w b3 U)
    (short : p.depth ≤ 256) (hashed : p.hashed w b3 p.terminalHash ⊆ U)
    (accepted : p.verifyNonmembership w b3 t.root = true) :
    tree.find p.key.1 (keyBits p.key.1) = none ↔ ¬ p.Hides w b3 U := by
  simp only [MerkleProof.verifyNonmembership, Bool.and_eq_true, beq_iff_eq] at accepted
  obtain ⟨⟨-, length⟩, up⟩ := accepted
  obtain ⟨part, root, within, find⟩ := below_of_computeRoot rep free short length hashed up
  have levels : (keyBits p.key.1).length - p.depth = ((keyBits p.key.1).drop p.depth).length := by
    rw [length_drop]
  have height := levels_of_key p.key.2
  rw [levels] at root within
  rw [find]
  constructor
  · rintro absent ⟨value, below, leaf, fits, inside, same⟩
    obtain ⟨last, lower⟩ := Tree.below_of_rebuild free within inside (by omega)
      (same.trans root.symm)
    rw [lower.find, Tree.eq_leaf_of_root free lower.within leaf lower.root, Tree.find_leaf,
      if_pos rfl] at absent
    cases absent
  · intro open'
    by_contra present
    obtain ⟨value, has⟩ := Option.ne_none_iff_exists'.mp present
    -- the honest way on from here ends in the key's leaf
    have ends : part.terminal ((keyBits p.key.1).drop p.depth) = .leaf p.key.1 value := by
      rw [Tree.find_terminal] at has
      cases last : part.terminal ((keyBits p.key.1).drop p.depth) with
      | empty =>
        rw [last] at has
        cases has
      | branch =>
        rw [last] at has
        cases has
      | leaf k v =>
        rw [last, Tree.find_leaf] at has
        split at has
        · rename_i same
          cases has
          rw [same]
        · cases has
    have up := @Tree.rebuild_siblings _ _ _ (nodeHash w b3)
      ((keyBits p.key.1).drop p.depth) part
    have nodes := @Tree.rebuilt_siblings _ _ _ (nodeHash w b3)
      ((keyBits p.key.1).drop p.depth) part
    rw [ends] at up nodes
    refine open' ⟨value, _, within.nodes _ (Tree.nodes_terminal _ _ ends), ?_,
      fun node on => within.nodes _ (nodes node on), up.trans root⟩
    have fits := @Tree.length_siblings _ _ _ (nodeHash w b3)
      ((keyBits p.key.1).drop p.depth) part
    omega

/-- An accepted proof of absence is right just when its terminal hash does not lead on
to the key, as that of an empty part or of another leaf never does. -/
theorem absence_sound_iff (sizes : Hashes32 w b3) (canonical : Bool) (ops : List TrieOp)
    (p : MerkleProof) (short : p.depth ≤ 256)
    (free : Set.InjOn (nodeHash w b3)
      (hashedNodes w b3 canonical ops ∪ p.hashed w b3 p.terminalHash)) :
    ∃ t, TrieOp.runAll w b3 ops (.fresh w b3 canonical) = .ok () t ∧
      (p.verifyNonmembership w b3 t.root = true →
        (t.get w b3 p.key.1 = .ok none ↔ ¬ p.Hides w b3
          (hashedNodes w b3 canonical ops ∪ p.hashed w b3 p.terminalHash)) ∧
        (p.Ends w b3 (hashedNodes w b3 canonical ops ∪ p.hashed w b3 p.terminalHash) →
          t.get w b3 p.key.1 = .ok none)) := by
  obtain ⟨t, ran, rep⟩ := run_represents sizes canonical ops free Set.subset_union_left
  refine ⟨t, ran, fun accepted => ?_⟩
  rw [rep.get sizes free p.key.2]
  refine ⟨?_, fun ends => ?_⟩
  · rw [← absence_iff rep free short Set.subset_union_right accepted, Except.ok.injEq]
  · rw [absence_of_ends rep free short Set.subset_union_right ends accepted]

def lowAbsent : MerkleProof :=
  ⟨lowKey, [], [], 0, false, word256 highLeaf⟩

theorem highLeaf_listed : nodeHash pairWire pairBlake3 (.leaf highKey.1 [2]) =
    word256 highLeaf := by
  rw [nodeHash_listed pairSha]
  decide

theorem treeOf_lowDeleted : (TrieOp.treeOf true lowDeleted).2 = .leaf highKey.1 [2] := by
  decide

theorem root_lowDeleted {t : SentrixTrie}
    (ran : TrieOp.runAll pairWire pairBlake3 lowDeleted
      (.fresh pairWire pairBlake3 true) = .ok () t) : t.root = word256 highLeaf := by
  obtain ⟨t', ran', rep⟩ := run_represents pairSizes true lowDeleted
    (pairFree.mono lowDeleted_listed) subset_rfl
  obtain ⟨-, rfl⟩ := EStateM.Result.ok.inj (ran.symm.trans ran')
  rw [rep.root, treeOf_lowDeleted]
  exact highLeaf_listed

theorem low_proved_absent :
    ∃ t, TrieOp.runAll pairWire pairBlake3 lowDeleted (.fresh pairWire pairBlake3 true) = .ok () t ∧
      lowAbsent.verifyNonmembership pairWire pairBlake3 t.root = true ∧
      t.get pairWire pairBlake3 lowKey.1 = .ok none := by
  have none : lowAbsent.hashed pairWire pairBlake3 lowAbsent.terminalHash ⊆
      listedNodes pairNodes [] := by
    intro node on
    rw [MerkleProof.hashed, lowAbsent, Tree.rebuilt_nil] at on
    cases on
  obtain ⟨t, ran, sound⟩ := absence_sound_iff pairSizes true lowDeleted lowAbsent (by decide)
    (pairFree.mono (Set.union_subset lowDeleted_listed none))
  have accepted : lowAbsent.verifyNonmembership pairWire pairBlake3 t.root = true := by
    rw [root_lowDeleted ran]
    unfold MerkleProof.verifyNonmembership MerkleProof.computeRoot
    rw [nodeHash_listed pairSha]
    decide
  have leaf : .leaf highKey.1 [2] ∈ hashedNodes pairWire pairBlake3 true lowDeleted :=
    .inr ⟨lowDeleted, prefix_rfl, by rw [treeOf_lowDeleted]; exact mem_cons_self⟩
  exact ⟨t, ran, accepted, (sound accepted).2 (.other highKey.1 [2] (by decide)
    (.inl leaf) highLeaf_listed.symm)⟩

/-- The check takes the terminal hash from the proof: the root itself, with no sibling,
passes for a key that is there. -/
theorem high_forged_absent :
    ∃ t, TrieOp.runAll pairWire pairBlake3 lowDeleted (.fresh pairWire pairBlake3 true) = .ok () t ∧
      (⟨highKey, [], [], 0, false, t.root⟩ : MerkleProof).verifyNonmembership pairWire
        pairBlake3 t.root = true ∧
      t.get pairWire pairBlake3 highKey.1 = .ok (some [2]) := by
  have free := pairFree.mono lowDeleted_listed
  obtain ⟨t, ran, rep⟩ := run_represents pairSizes true lowDeleted free subset_rfl
  refine ⟨t, ran, ?_, ?_⟩
  · simp [MerkleProof.verifyNonmembership, MerkleProof.computeRoot, Tree.rebuild_nil]
  · have high : TrieOp.mapOf lowDeleted highKey = some [2] := by decide
    rw [rep.get pairSizes free highKey.2, find_treeOf, high]

end
end SentrixCore
