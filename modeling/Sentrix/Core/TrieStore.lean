import Sentrix.Core.TrieProofs

/-!
The trie on disk. Rows of nodes, values and roots lie in a store that outlives the
process; what a block writes waits in two buffers that a commit flushes in one
transaction. A read looks into the buffers first. The cache of recent rows is left out: a
trie reads here as a reopened one does, while a warm cache may still answer for a row that
a prune has deleted.
-/
namespace SentrixCore
open HashTable SentrixPrimitives SparseMerkle List

inductive StoredNode where
  | leaf (key valueHash : Bytes)
  | internal (left right : Bytes)
  deriving DecidableEq

inductive GcTable where
  | nodes
  | values
  deriving DecidableEq

structure TrieStorage where
  nodes : Table Bytes StoredNode
  values : Table Bytes Bytes
  roots : Table Nat Bytes
  tombstones : Table (GcTable × Bytes) Nat
  deriving DecidableEq

structure DiskTrie where
  root : Bytes
  version : Nat
  canonicalDelete : Bool
  pendingNodes : Table Bytes StoredNode
  pendingValues : Table Bytes Bytes
  storage : TrieStorage
  deriving DecidableEq

namespace DiskTrie

def getNode (t : DiskTrie) (hash : Bytes) : Option StoredNode :=
  (t.pendingNodes.lookup hash).or (t.storage.nodes.lookup hash)

def loadValue (t : DiskTrie) (hash : Bytes) : Option Bytes :=
  (t.pendingValues.lookup hash).or (t.storage.values.lookup hash)

section
variable (w : Wire) (b3 : Bytes → Bytes)

/-- A leaf's value goes to its own buffer, under the hash of the leaf. -/
def put (node : TrieNode) (t : DiskTrie) : DiskTrie :=
  let hash := nodeHash w b3 node
  match node with
  | .leaf key value =>
    { t with
      pendingNodes := t.pendingNodes.insert hash (.leaf key hash)
      pendingValues := t.pendingValues.insert hash value }
  | .branch left right =>
    { t with pendingNodes := t.pendingNodes.insert hash (.internal left right) }
  | .absent => t

def putBranch (b : Bool) (child sibling : Bytes) (t : DiskTrie) : Bytes × DiskTrie :=
  (nodeHash w b3 (.beside b child sibling), t.put w b3 (.beside b child sibling))

def putLeaf (key value : Bytes) (t : DiskTrie) : Bytes × DiskTrie :=
  (nodeHash w b3 (.leaf key value), t.put w b3 (.leaf key value))

def splitLeaf (key value other : Bytes) : List Bool → List Bool → DiskTrie →
    Except SentrixError (Bytes × DiskTrie)
  | b :: rest, b' :: rest', t =>
    if b = b' then do
      let (child, t) ← splitLeaf key value other rest rest' t
      .ok (t.putBranch w b3 b child (emptyHash w b3 rest.length))
    else
      let (leaf, t) := t.putLeaf w b3 key value
      .ok (t.putBranch w b3 b leaf other)
  | _, _, _ => .error (.internal "trie: two keys are identical")

def insertAt (key value : Bytes) (bits : List Bool) (depth : Nat) (current : Bytes)
    (t : DiskTrie) : Except SentrixError (Bytes × DiskTrie) :=
  if current = emptyHash w b3 bits.length then .ok (t.putLeaf w b3 key value)
  else
    match t.getNode current with
    | none => .error (missingNode current)
    | some (.leaf k valueHash) =>
      if k = key then .ok (t.putLeaf w b3 key value)
      else splitLeaf w b3 key value valueHash bits ((keyBits k).drop depth) t
    | some (.internal left right) =>
      match bits with
      | [] => .error (.internal
          "trie: corrupt tree — Internal node at depth 256 (key space exhausted)")
      | b :: rest => do
        let (child, t) ← insertAt key value rest (depth + 1) (if b then right else left) t
        .ok (t.putBranch w b3 b child (if b then left else right))

/-- A leaf whose value is missing is read as absent. -/
def getAt (t : DiskTrie) (key : Bytes) (bits : List Bool) (current : Bytes) :
    Except SentrixError (Option Bytes) :=
  if current = emptyHash w b3 bits.length then .ok none
  else
    match t.getNode current with
    | none => .error (missingNode current)
    | some (.leaf k valueHash) => .ok (if k = key then t.loadValue valueHash else none)
    | some (.internal left right) =>
      match bits with
      | [] => .ok none
      | b :: rest => getAt t key rest (if b then right else left)

/-- One whose value is missing is proved with an empty one. -/
def proveAt (t : DiskTrie) (key : TrieKey) (bits : List Bool) (siblings : List Bytes)
    (current : Bytes) : Except SentrixError MerkleProof :=
  if current = emptyHash w b3 bits.length then
    .ok ⟨key, [], siblings, siblings.length, false, emptyHash w b3 bits.length⟩
  else
    match t.getNode current with
    | none => .error (.internal "trie: missing node in prove")
    | some (.leaf k valueHash) =>
      if k = key.1 then
        let value := (t.loadValue valueHash).getD []
        .ok ⟨key, value, siblings, siblings.length, true, nodeHash w b3 (.leaf key.1 value)⟩
      else .ok ⟨key, [], siblings, siblings.length, false, valueHash⟩
    | some (.internal left right) =>
      match bits with
      | [] => .error (.internal "trie: corrupt tree — Internal node at depth 256 in prove")
      | b :: rest =>
        proveAt t key rest (siblings ++ [if b then left else right]) (if b then right else left)

def isLeaf (t : DiskTrie) (hash : Bytes) : Bool :=
  match t.getNode hash with
  | some (.leaf _ _) => true
  | _ => false

def climb (canonical b : Bool) (levels : Nat) (up : Up) (sibling : Bytes) (t : DiskTrie) :
    Up × DiskTrie :=
  let lone := sibling = emptyHash w b3 levels
  let joined := t.putBranch w b3 b (up.hash w b3 levels) sibling
  let branch : Up × DiskTrie := (.branch joined.1, joined.2)
  if canonical then
    match up with
    | .empty =>
      if lone then (.empty, t)
      else if t.isLeaf sibling then (.leaf sibling, t)
      else branch
    | .leaf h => if lone then (.leaf h, t) else branch
    | .branch _ => branch
  else if up.hash w b3 levels = emptyHash w b3 levels ∧ lone then (.empty, t)
  else branch

def deleteAt (canonical : Bool) (key : Bytes) (bits : List Bool) (current : Bytes)
    (t : DiskTrie) : Except SentrixError (Option (Up × DiskTrie)) :=
  if current = emptyHash w b3 bits.length then .ok none
  else
    match t.getNode current with
    | none => .error (missingNode current)
    | some (.leaf k _) => .ok (if k = key then some (.empty, t) else none)
    | some (.internal left right) =>
      match bits with
      | [] => .error (.internal "trie: corrupt tree — Internal node at depth 256")
      | b :: rest => do
        let below ← deleteAt canonical key rest (if b then right else left) t
        .ok (below.map fun (up, t) =>
          climb w b3 canonical b rest.length up (if b then left else right) t)

def insert (key : TrieKey) (value : Bytes) : EStateM SentrixError DiskTrie Unit := fun t =>
  match insertAt w b3 key.1 value (keyBits key.1) 0 t.root t with
  | .ok (root, t) => .ok () { t with root }
  | .error e => .error e t

def delete (key : TrieKey) : EStateM SentrixError DiskTrie Unit := fun t =>
  match deleteAt w b3 t.canonicalDelete key.1 (keyBits key.1) t.root t with
  | .ok (some (up, t)) => .ok () { t with root := up.hash w b3 (keyBits key.1).length }
  | .ok none => .ok () t
  | .error e => .error e t

def get (t : DiskTrie) (key : TrieKey) : Except SentrixError (Option Bytes) :=
  getAt w b3 t key.1 (keyBits key.1) t.root

def prove (t : DiskTrie) (key : TrieKey) : Except SentrixError MerkleProof :=
  proveAt w b3 t key (keyBits key.1) [] t.root

def flushTrieBatch (t : DiskTrie) (version : Nat) : TrieStorage :=
  { t.storage with
    nodes := t.pendingNodes.overlay t.storage.nodes
    values := t.pendingValues.overlay t.storage.values
    roots := t.storage.roots.insert version t.root }

def commit (version : Nat) (t : DiskTrie) : DiskTrie :=
  { t with version, pendingNodes := ∅, pendingValues := ∅, storage := t.flushTrieBatch version }

def reopened (t : DiskTrie) (root : Bytes) : DiskTrie :=
  { t with root, pendingNodes := ∅, pendingValues := ∅ }

def fresh (canonical : Bool) : DiskTrie :=
  ⟨emptyHash w b3 256, 0, canonical, ∅, ∅, ⟨∅, ∅, ∅, ∅⟩⟩

end
section
variable (w : Wire) (b3 : Bytes → Bytes)

def Has (t : DiskTrie) : TrieNode → Prop
  | .leaf k v => t.getNode (nodeHash w b3 (.leaf k v)) =
        some (.leaf k (nodeHash w b3 (.leaf k v))) ∧
      t.loadValue (nodeHash w b3 (.leaf k v)) = some v
  | .branch l r => t.getNode (nodeHash w b3 (.branch l r)) = some (.internal l r)
  | .absent => True

def HasAll (t : DiskTrie) (wanted : List TrieNode) : Prop :=
  ∀ p ∈ wanted, t.Has w b3 p

structure Buffered (U : Set TrieNode) (t : DiskTrie) : Prop where
  nodes : ∀ hash row, t.pendingNodes.lookup hash = some row →
    (∃ k v, .leaf k v ∈ U ∧ hash = nodeHash w b3 (.leaf k v) ∧ row = .leaf k hash) ∨
      ∃ l r, .branch l r ∈ U ∧ hash = nodeHash w b3 (.branch l r) ∧ row = .internal l r
  values : ∀ hash v, t.pendingValues.lookup hash = some v →
    ∃ k, .leaf k v ∈ U ∧ hash = nodeHash w b3 (.leaf k v)

/-- A property of nodes that a put establishes, and that no put takes away. -/
structure Lasting (U : Set TrieNode) (Q : DiskTrie → TrieNode → Prop) : Prop where
  made : ∀ t : DiskTrie, ∀ p ∈ U, Q (t.put w b3 p) p
  kept : ∀ t : DiskTrie, ∀ p ∈ U, ∀ q ∈ U, Q t q → Q (t.put w b3 p) q
  moved : ∀ (t : DiskTrie) (root : Bytes), ∀ p ∈ U, Q t p → Q { t with root } p

/-- What lasts of the old nodes holds of the new ones: each was put or is an old one. -/
def Carries (U : Set TrieNode) (t : DiskTrie) (old : List TrieNode) (t' : DiskTrie)
    (new : List TrieNode) : Prop :=
  ∀ Q, Lasting w b3 U Q → (∀ p ∈ old, Q t p) → ∀ p ∈ new, Q t' p

structure Later (U : Set TrieNode) (t t' : DiskTrie) : Prop where
  kept : ∀ Q, Lasting w b3 U Q → ∀ p ∈ U, Q t p → Q t' p
  buffered : Buffered w b3 U t → Buffered w b3 U t'
  storage : t'.storage = t.storage
  version : t'.version = t.version
  canonical : t'.canonicalDelete = t.canonicalDelete

structure Added (U : Set TrieNode) (t : DiskTrie) (old : List TrieNode) (n : Nat)
    (tree : TrieTree) (out : Bytes × DiskTrie) : Prop where
  root : out.1 = tree.root (nodeHash w b3) n
  later : Later w b3 U t out.2
  carried : Carries w b3 U t old out.2 (tree.nodes (nodeHash w b3) n)

end

section
variable {w : Wire} {b3 : Bytes → Bytes} {U : Set TrieNode} {t t' t'' : DiskTrie}
  {node : TrieNode} {key value : Bytes}

theorem Later.refl : Later w b3 U t t :=
  ⟨fun _ _ _ _ has => has, id, rfl, rfl, rfl⟩

theorem Later.trans (first : Later w b3 U t t') (second : Later w b3 U t' t'') :
    Later w b3 U t t'' :=
  ⟨fun Q lasting p inside has => second.kept Q lasting p inside (first.kept Q lasting p inside has),
    fun buffered => second.buffered (first.buffered buffered), second.storage.trans first.storage,
    second.version.trans first.version, second.canonical.trans first.canonical⟩

variable {old : List TrieNode}

theorem Later.carries {new : List TrieNode} (later : Later w b3 U t t')
    (inside : ∀ p ∈ new, p ∈ U) (part : ∀ p ∈ new, p ∈ old) : Carries w b3 U t old t' new :=
  fun Q lasting has p member => later.kept Q lasting p (inside p member) (has p (part p member))

theorem Carries.mono {more new : List TrieNode} (carried : Carries w b3 U t old t' new)
    (part : ∀ p ∈ old, p ∈ more) : Carries w b3 U t more t' new :=
  fun Q lasting has => carried Q lasting fun p member => has p (part p member)

theorem has_put_self : (t.put w b3 node).Has w b3 node := by
  cases node with
  | absent => trivial
  | leaf => simp only [Has, put, getNode, loadValue, AList.lookup_insert, Option.some_or, and_self]
  | branch => simp only [Has, put, getNode, AList.lookup_insert, Option.some_or]

theorem getNode_put_ne {hash : Bytes} (other : hash ≠ nodeHash w b3 node) :
    (t.put w b3 node).getNode hash = t.getNode hash ∧
      (t.put w b3 node).loadValue hash = t.loadValue hash := by
  cases node with
  | absent => exact ⟨rfl, rfl⟩
  | leaf | branch => simp only [put, getNode, loadValue, AList.lookup_insert_ne other, and_self]

theorem has_put (free : Free w b3 U) {other : TrieNode} (inside : node ∈ U)
    (inside' : other ∈ U) (has : t.Has w b3 other) :
    (t.put w b3 node).Has w b3 other := by
  by_cases same : nodeHash w b3 other = nodeHash w b3 node
  · cases free inside' inside same
    exact has_put_self
  · obtain ⟨row, value⟩ := @getNode_put_ne w b3 t node _ same
    cases other with
    | absent => trivial
    | leaf => exact ⟨row.trans has.1, value.trans has.2⟩
    | branch => exact Eq.trans row has

theorem buffered_put (inside : node ∈ U) (buffered : Buffered w b3 U t) :
    Buffered w b3 U (t.put w b3 node) := by
  cases node with
  | absent => exact buffered
  | leaf k v =>
    constructor
    · intro hash row found
      by_cases same : hash = nodeHash w b3 (.leaf k v)
      · subst same
        simp only [put, AList.lookup_insert, Option.some.injEq] at found
        exact .inl ⟨k, v, inside, rfl, found.symm⟩
      · simp only [put, AList.lookup_insert_ne same] at found
        exact buffered.nodes hash row found
    · intro hash v' found
      by_cases same : hash = nodeHash w b3 (.leaf k v)
      · subst same
        simp only [put, AList.lookup_insert, Option.some.injEq] at found
        exact ⟨k, found ▸ inside, found ▸ rfl⟩
      · simp only [put, AList.lookup_insert_ne same] at found
        exact buffered.values hash v' found
  | branch l r =>
    constructor
    · intro hash row found
      by_cases same : hash = nodeHash w b3 (.branch l r)
      · subst same
        simp only [put, AList.lookup_insert, Option.some.injEq] at found
        exact .inr ⟨l, r, inside, rfl, found.symm⟩
      · simp only [put, AList.lookup_insert_ne same] at found
        exact buffered.nodes hash row found
    · exact buffered.values

theorem lasting_has (free : Free w b3 U) : Lasting w b3 U (fun t => t.Has w b3) :=
  ⟨fun _ _ _ => has_put_self, fun _ _ inside _ inside' => has_put free inside inside',
    fun _ _ p _ has => by cases p <;> exact has⟩

theorem later_put (inside : node ∈ U) : Later w b3 U t (t.put w b3 node) := by
  refine ⟨fun Q lasting p part has => lasting.kept t node inside p part has,
    buffered_put inside, ?_, ?_, ?_⟩ <;> cases node <;> rfl

variable {n : Nat}

theorem added_leaf (inside : .leaf key value ∈ U) :
    Added w b3 U t old n (.leaf key value) (t.putLeaf w b3 key value) := by
  refine ⟨rfl, later_put inside, fun Q lasting _ p member => ?_⟩
  cases List.mem_singleton.mp member
  exact lasting.made t _ inside

theorem added_beside {b : Bool} {child sibling : TrieTree}
    (inside : Inside w b3 U (n + 1) (.beside b child sibling))
    (later : Later w b3 U t t')
    (below : Carries w b3 U t old t' (child.nodes (nodeHash w b3) n))
    (aside : Carries w b3 U t old t' (sibling.nodes (nodeHash w b3) n)) :
    Added w b3 U t old (n + 1) (.beside b child sibling)
      (t'.putBranch w b3 b (child.root (nodeHash w b3) n)
        (sibling.root (nodeHash w b3) n)) := by
  obtain ⟨here, withinC, withinS⟩ := inside.beside
  have root := @Tree.root_beside _ _ _ (nodeHash w b3) b n child sibling
  refine ⟨root.symm, later.trans (later_put here), fun Q lasting has p member => ?_⟩
  rcases Tree.mem_nodes_beside.mp member with rfl | part | part
  · exact lasting.made t' _ here
  · exact lasting.kept t' _ here p (withinC.nodes p part) (below Q lasting has p part)
  · exact lasting.kept t' _ here p (withinS.nodes p part) (aside Q lasting has p part)

variable {l r : TrieTree}

theorem nodes_branch (b : Bool) :
    (∀ p ∈ (if b then r else l).nodes (nodeHash w b3) n,
        p ∈ Tree.nodes (nodeHash w b3) (n + 1) (.branch l r)) ∧
      ∀ p ∈ (if b then l else r).nodes (nodeHash w b3) n,
        p ∈ Tree.nodes (nodeHash w b3) (n + 1) (.branch l r) := by
  rw [Tree.branch_eq_beside b]
  constructor <;> intro p inside
  · exact Tree.mem_nodes_beside.mpr (.inr (.inl inside))
  · exact Tree.mem_nodes_beside.mpr (.inr (.inr inside))

variable {k v : Bytes}

theorem getNode_leaf (held : t.HasAll w b3 (Tree.nodes (nodeHash w b3) n (.leaf k v))) :
    t.getNode (Tree.root (nodeHash w b3) n (.leaf k v)) =
        some (.leaf k (nodeHash w b3 (.leaf k v))) ∧
      t.loadValue (nodeHash w b3 (.leaf k v)) = some v :=
  held _ mem_cons_self

theorem getNode_branch
    (held : t.HasAll w b3 (Tree.nodes (nodeHash w b3) (n + 1) (.branch l r))) :
    t.getNode (Tree.root (nodeHash w b3) (n + 1) (.branch l r)) =
      some (.internal (l.root (nodeHash w b3) n) (r.root (nodeHash w b3) n)) :=
  held _ mem_cons_self

theorem has_branch (b : Bool)
    (held : t.HasAll w b3 (Tree.nodes (nodeHash w b3) (n + 1) (.branch l r))) :
    t.HasAll w b3 ((if b then r else l).nodes (nodeHash w b3) n) ∧
      t.HasAll w b3 ((if b then l else r).nodes (nodeHash w b3) n) :=
  ⟨fun p part => held p ((nodes_branch b).1 p part), fun p part => held p ((nodes_branch b).2 p part)⟩

variable {pre bits : List Bool}

theorem splitLeaf_added {bits' : List Bool} (apart : key ≠ k) (here : keyBits key = pre ++ bits)
    (there : keyBits k = pre ++ bits') (lengths : bits.length = bits'.length)
    (inside : Inside w b3 U bits.length (Tree.fork key value k v bits bits')) :
    ∃ out, splitLeaf w b3 key value (nodeHash w b3 (.leaf k v)) bits bits' t = .ok out ∧
      Added w b3 U t [.leaf k v] bits.length (Tree.fork key value k v bits bits') out := by
  induction bits generalizing pre bits' with
  | nil =>
    obtain rfl : bits' = [] := List.length_eq_zero_iff.mp lengths.symm
    exact absurd (keyBits_injective (here.trans there.symm)) apart
  | cons b rest ih =>
    obtain ⟨b', rest', rfl⟩ := exists_cons_of_length_eq_add_one lengths.symm
    unfold splitLeaf
    unfold Tree.fork at inside ⊢
    by_cases joint : b = b'
    · subst joint
      rw [if_pos rfl] at inside
      rw [if_pos rfl, if_pos rfl]
      obtain ⟨out, ran, added⟩ := ih (Tree.regroup here) (Tree.regroup there)
        (Nat.succ.inj lengths) inside.beside.2.1
      have whole := added_beside inside added.later added.carried
        (fun _ _ _ _ none => absurd none not_mem_nil)
      rw [← added.root] at whole
      exact ⟨_, by rw [ran]; rfl, whole⟩
    · rw [if_neg joint] at inside
      rw [if_neg joint, if_neg joint]
      obtain ⟨-, withinNew, withinOld⟩ := inside.beside
      have leaf := @added_leaf w b3 U t key value [.leaf k v] rest.length
        (withinNew.nodes _ mem_cons_self)
      exact ⟨_, rfl, added_beside inside leaf.later leaf.carried
        (leaf.later.carries withinOld.nodes fun _ part => part)⟩

theorem insertAt_empty {depth : Nat}
    (after : Inside w b3 U bits.length (Tree.insert keyBits key value bits depth .empty)) :
    ∃ out, insertAt w b3 key value bits depth
        (Tree.root (nodeHash w b3) bits.length .empty) t = .ok out ∧
      Added w b3 U t [] bits.length (Tree.insert keyBits key value bits depth .empty) out := by
  rw [Tree.insert_empty] at after ⊢
  unfold insertAt
  rw [if_pos (root_empty _)]
  exact ⟨_, rfl, added_leaf (after.nodes _ mem_cons_self)⟩

theorem insertAt_leaf (free : Free w b3 U) (here : keyBits key = pre ++ bits)
    (held : t.HasAll w b3 (Tree.nodes (nodeHash w b3) bits.length (.leaf k v)))
    (placed : Tree.Placed keyBits bits.length pre (.leaf k v))
    (before : Inside w b3 U bits.length (.leaf k v))
    (after : Inside w b3 U bits.length
      (Tree.insert keyBits key value bits pre.length (.leaf k v))) :
    ∃ out, insertAt w b3 key value bits pre.length
        (Tree.root (nodeHash w b3) bits.length (.leaf k v)) t = .ok out ∧
      Added w b3 U t [.leaf k v] bits.length
        (Tree.insert keyBits key value bits pre.length (.leaf k v)) out := by
  unfold insertAt
  have solid : Tree.Solid (.leaf k v : TrieTree) := trivial
  rw [if_neg (root_ne_empty free solid before (by simp)), (getNode_leaf held).1]
  rw [Tree.insert_leaf] at after ⊢
  by_cases same : k = key
  · rw [if_pos same] at after
    simp only [if_pos same]
    exact ⟨_, rfl, added_leaf (after.nodes _ mem_cons_self)⟩
  · rw [if_neg same] at after
    simp only [if_neg same]
    obtain ⟨split, lengths⟩ := Tree.drop_path bits placed.1 placed.2
    exact splitLeaf_added (fun e => same e.symm) here split lengths after

variable {tree : TrieTree}

theorem insertAt_added (free : Free w b3 U) (here : keyBits key = pre ++ bits)
    (held : t.HasAll w b3 (tree.nodes (nodeHash w b3) bits.length))
    (placed : tree.Placed keyBits bits.length pre) (solid : tree.Solid)
    (before : Inside w b3 U bits.length tree)
    (after : Inside w b3 U bits.length (tree.insert keyBits key value bits pre.length)) :
    ∃ out, insertAt w b3 key value bits pre.length
        (tree.root (nodeHash w b3) bits.length) t = .ok out ∧
      Added w b3 U t (tree.nodes (nodeHash w b3) bits.length) bits.length
        (tree.insert keyBits key value bits pre.length) out := by
  induction bits generalizing pre tree with
  | nil =>
    cases tree with
    | empty => exact insertAt_empty after
    | leaf => exact insertAt_leaf free here held placed before after
    | branch => exact absurd placed.1 (Nat.lt_irrefl 0)
  | cons b rest ih =>
    cases tree with
    | empty => exact insertAt_empty after
    | leaf => exact insertAt_leaf free here held placed before after
    | branch l r =>
      obtain ⟨inner, -⟩ := Tree.placed_branch placed b
      have below := (has_branch b held).1
      obtain ⟨inC, inS⟩ := @nodes_branch w b3 rest.length l r b
      have full := root_ne_empty free solid before (by simp)
      rw [Tree.insert_branch] at after ⊢
      rw [Tree.branch_eq_beside b] at before
      have deeper : (pre ++ [b]).length = pre.length + 1 := by simp
      obtain ⟨out, ran, added⟩ := @ih (pre ++ [b]) _ (Tree.regroup here) below inner
        (Tree.solid_branch solid b).1 before.beside.2.1 (by rw [deeper]; exact after.beside.2.1)
      rw [deeper] at ran added
      have whole := added_beside after added.later (added.carried.mono inC)
        (added.later.carries before.beside.2.2.nodes inS)
      rw [← added.root] at whole
      unfold insertAt
      rw [if_neg full, length_cons, getNode_branch held]
      simp only [root_side]
      exact ⟨_, by rw [ran]; rfl, whole⟩

theorem getAt_find (free : Free w b3 U)
    (held : t.HasAll w b3 (tree.nodes (nodeHash w b3) bits.length))
    (placed : tree.Placed keyBits bits.length pre) (solid : tree.Solid)
    (inside : Inside w b3 U bits.length tree) :
    getAt w b3 t key bits (tree.root (nodeHash w b3) bits.length) =
      .ok (tree.find key bits) := by
  have leaf {bits : List Bool} {k v : Bytes}
      (held : t.HasAll w b3 (Tree.nodes (nodeHash w b3) bits.length (.leaf k v)))
      (inside : Inside w b3 U bits.length (.leaf k v)) :
      getAt w b3 t key bits (Tree.root (nodeHash w b3) bits.length (.leaf k v)) =
        .ok (Tree.find key bits (.leaf k v)) := by
    obtain ⟨row, stored⟩ := getNode_leaf held
    have solid : Tree.Solid (.leaf k v : TrieTree) := trivial
    unfold getAt
    rw [if_neg (root_ne_empty free solid inside (by simp)), row, Tree.find_leaf]
    simp only [stored]
  induction bits generalizing pre tree with
  | nil =>
    cases tree with
    | empty =>
      unfold getAt
      rw [if_pos (root_empty _), Tree.find_empty]
    | leaf => exact leaf held inside
    | branch => exact absurd placed.1 (Nat.lt_irrefl 0)
  | cons b _ ih =>
    cases tree with
    | empty =>
      unfold getAt
      rw [if_pos (root_empty _), Tree.find_empty]
    | leaf => exact leaf held inside
    | branch =>
      unfold getAt
      rw [if_neg (root_ne_empty free solid inside (by simp)), length_cons,
        getNode_branch held, Tree.find_branch]
      rw [Tree.branch_eq_beside b] at inside
      simp only [root_side]
      exact ih (has_branch b held).1 (Tree.placed_branch placed b).1
        (Tree.solid_branch solid b).1 inside.beside.2.1

theorem proveAt_tree (free : Free w b3 U) {key : TrieKey}
    {passed : List Bytes} (held : t.HasAll w b3 (tree.nodes (nodeHash w b3) bits.length))
    (placed : tree.Placed keyBits bits.length pre) (solid : tree.Solid)
    (inside : Inside w b3 U bits.length tree) :
    proveAt w b3 t key bits passed (tree.root (nodeHash w b3) bits.length) =
      .ok (treeProof w b3 key (passed ++ tree.siblings (nodeHash w b3) bits)
        (bits.length - (tree.siblings (nodeHash w b3) bits).length) (tree.terminal bits)) := by
  have empty {bits : List Bool} {passed : List Bytes} :
      proveAt w b3 t key bits passed (Tree.root (nodeHash w b3) bits.length .empty) =
        .ok (treeProof w b3 key (passed ++ []) bits.length .empty) := by
    unfold proveAt
    rw [if_pos (root_empty _), append_nil]
    rfl
  have leaf {bits : List Bool} {passed : List Bytes} {k v : Bytes}
      (held : t.HasAll w b3 (Tree.nodes (nodeHash w b3) bits.length (.leaf k v)))
      (inside : Inside w b3 U bits.length (.leaf k v)) :
      proveAt w b3 t key bits passed (Tree.root (nodeHash w b3) bits.length (.leaf k v)) =
        .ok (treeProof w b3 key (passed ++ []) bits.length (.leaf k v)) := by
    obtain ⟨row, stored⟩ := getNode_leaf held
    have solid : Tree.Solid (.leaf k v : TrieTree) := trivial
    unfold proveAt treeProof
    rw [if_neg (root_ne_empty free solid inside (by simp)), row, append_nil]
    by_cases same : k = key.1
    · simp only [same, if_true]
      rw [← same, stored]
      rfl
    · simp only [same, if_false]
  induction bits generalizing pre tree passed with
  | nil =>
    cases tree with
    | empty => exact empty
    | leaf => exact leaf held inside
    | branch => exact absurd placed.1 (Nat.lt_irrefl 0)
  | cons b _ ih =>
    cases tree with
    | empty => exact empty
    | leaf => exact leaf held inside
    | branch =>
      unfold proveAt
      rw [if_neg (root_ne_empty free solid inside (by simp)), length_cons, getNode_branch held]
      rw [Tree.branch_eq_beside b] at inside
      simp only [root_side]
      rw [ih (has_branch b held).1 (Tree.placed_branch placed b).1
        (Tree.solid_branch solid b).1 inside.beside.2.1]
      simp only [Tree.siblings, Tree.terminal, length_cons, Nat.add_sub_add_right,
        append_assoc, singleton_append]

structure Lifted (w : Wire) (b3 : Bytes → Bytes) (U : Set TrieNode) (t : DiskTrie)
    (old : List TrieNode) (n : Nat) (tree : TrieTree) (out : Up × DiskTrie) : Prop where
  up : out.1 = upOf w b3 n tree
  later : Later w b3 U t out.2
  carried : Carries w b3 U t old out.2 (tree.nodes (nodeHash w b3) n)

variable {canonical : Bool}

theorem climb_lifted {b : Bool} {child sibling : TrieTree}
    (free : Free w b3 U) (later : Later w b3 U t t')
    (below : Carries w b3 U t old t' (child.nodes (nodeHash w b3) n))
    (aside : Carries w b3 U t old t' (sibling.nodes (nodeHash w b3) n))
    (held : t'.HasAll w b3 (sibling.nodes (nodeHash w b3) n))
    (placed : sibling.Placed keyBits n pre) (solid : child.Solid) (solid' : sibling.Solid)
    (beside : Inside w b3 U n sibling)
    (inside : Inside w b3 U (n + 1) (.rejoin canonical b child sibling)) :
    Lifted w b3 U t old (n + 1) (.rejoin canonical b child sibling)
      (climb w b3 canonical b n (upOf w b3 n child)
        (sibling.root (nodeHash w b3) n) t') := by
  have own := root_eq_empty free solid inside.rejoin
  have lone := root_eq_empty free solid' beside
  have branch (inside : Inside w b3 U (n + 1) (.beside b child sibling)) :
      Lifted w b3 U t old (n + 1) (.beside b child sibling)
        (.branch (t'.putBranch w b3 b (child.root (nodeHash w b3) n)
            (sibling.root (nodeHash w b3) n)).1,
          (t'.putBranch w b3 b (child.root (nodeHash w b3) n)
            (sibling.root (nodeHash w b3) n)).2) := by
    have added := added_beside inside later below aside
    exact ⟨by rw [upOf_beside, added.root], added.later, added.carried⟩
  have gone : Lifted w b3 U t old (n + 1) .empty (.empty, t') :=
    ⟨rfl, later, fun _ _ _ _ none => absurd none not_mem_nil⟩
  cases canonical with
  | false =>
    by_cases both : child = .empty ∧ sibling = .empty
    · obtain ⟨rfl, rfl⟩ := both
      simp only [climb, hash_upOf, own, and_self, if_true, Bool.false_eq_true, if_false]
      exact gone
    · have joined : Tree.rejoin false b child sibling = .beside b child sibling := by
        cases child <;> cases sibling <;> simp_all [Tree.rejoin]
      rw [joined] at inside ⊢
      simp only [climb, hash_upOf, own, lone, both, Bool.false_eq_true, if_false]
      exact branch inside
  | true =>
    cases child with
    | branch => exact branch inside
    | leaf =>
      cases sibling with
      | empty =>
        simp only [climb, upOf, lone, if_true]
        exact ⟨rfl, later, below⟩
      | leaf | branch =>
        simp only [climb, upOf, lone, if_true, reduceCtorEq, if_false]
        exact branch inside
    | empty =>
      cases sibling with
      | empty =>
        simp only [climb, upOf, lone, if_true]
        exact gone
      | leaf k v =>
        have leaf : t'.isLeaf (Tree.root (nodeHash w b3) n (.leaf k v)) = true := by
          unfold isLeaf
          rw [(getNode_leaf held).1]
        simp only [climb, upOf, lone, reduceCtorEq, if_true, if_false, leaf]
        exact ⟨rfl, later, aside⟩
      | branch l r =>
        have inner : t'.isLeaf (Tree.root (nodeHash w b3) n (.branch l r)) = false := by
          obtain ⟨m, rfl⟩ := Nat.exists_eq_add_one_of_ne_zero (Nat.ne_of_gt placed.1)
          unfold isLeaf
          rw [getNode_branch held]
        simp only [climb, upOf, lone, reduceCtorEq, if_true, if_false, inner, Bool.false_eq_true]
        exact branch inside

def Deleted (w : Wire) (b3 : Bytes → Bytes) (U : Set TrieNode) (t : DiskTrie)
    (old : List TrieNode) (n : Nat) : Option TrieTree → Except SentrixError (Option (Up × DiskTrie)) → Prop
  | none, result => result = .ok none
  | some left, result => ∃ out, result = .ok (some out) ∧ Lifted w b3 U t old n left out

theorem deleteAt_leaf (free : Free w b3 U)
    (held : t.HasAll w b3 (Tree.nodes (nodeHash w b3) bits.length (.leaf k v)))
    (inside : Inside w b3 U bits.length (.leaf k v)) :
    Deleted w b3 U t [.leaf k v] bits.length (Tree.remove? canonical key bits (.leaf k v))
      (deleteAt w b3 canonical key bits
        (Tree.root (nodeHash w b3) bits.length (.leaf k v)) t) := by
  have removed : Tree.remove? canonical key bits (.leaf k v) =
      if k = key then some .empty else none := by
    cases bits <;> rfl
  have solid : Tree.Solid (.leaf k v : TrieTree) := trivial
  unfold deleteAt
  rw [removed, if_neg (root_ne_empty free solid inside (by simp)), (getNode_leaf held).1]
  by_cases same : k = key
  · simp only [if_pos same]
    exact ⟨_, rfl, rfl, .refl, fun _ _ _ _ none => absurd none not_mem_nil⟩
  · simp only [if_neg same]
    rfl

theorem deleteAt_empty :
    Deleted w b3 U t [] bits.length (Tree.remove? canonical key bits .empty)
      (deleteAt w b3 canonical key bits
        (Tree.root (nodeHash w b3) bits.length .empty) t) := by
  have removed : Tree.remove? canonical key bits (.empty : TrieTree) = none := by
    cases bits <;> rfl
  unfold deleteAt
  rw [removed, if_pos (root_empty _)]
  rfl

theorem deleteAt_lifted (free : Free w b3 U) (here : keyBits key = pre ++ bits)
    (held : t.HasAll w b3 (tree.nodes (nodeHash w b3) bits.length))
    (placed : tree.Placed keyBits bits.length pre) (solid : tree.Solid)
    (before : Inside w b3 U bits.length tree)
    (after : ∀ left, tree.remove? canonical key bits = some left → Inside w b3 U bits.length left) :
    Deleted w b3 U t (tree.nodes (nodeHash w b3) bits.length) bits.length
      (tree.remove? canonical key bits)
      (deleteAt w b3 canonical key bits (tree.root (nodeHash w b3) bits.length) t) := by
  induction bits generalizing pre tree with
  | nil =>
    cases tree with
    | empty => exact deleteAt_empty
    | leaf => exact deleteAt_leaf free held before
    | branch => exact absurd placed.1 (Nat.lt_irrefl 0)
  | cons b rest ih =>
    cases tree with
    | empty => exact deleteAt_empty
    | leaf => exact deleteAt_leaf free held before
    | branch l r =>
      obtain ⟨inner, outer⟩ := Tree.placed_branch placed b
      obtain ⟨solidIn, solidOut⟩ := Tree.solid_branch solid b
      obtain ⟨below, aside⟩ := has_branch b held
      obtain ⟨inC, inS⟩ := @nodes_branch w b3 rest.length l r b
      have full := root_ne_empty free solid before (by simp)
      rw [Tree.branch_eq_beside b] at before
      obtain ⟨-, withinIn, withinOut⟩ := before.beside
      have child := ih (Tree.regroup here) below inner solidIn withinIn
        fun left gone => (after _ (congrArg (Option.map _) gone)).rejoin
      unfold deleteAt
      rw [if_neg full, length_cons, getNode_branch held]
      simp only [root_side, Tree.remove?]
      cases gone : Tree.remove? canonical key rest (if b then r else l) with
      | none =>
        rw [gone] at child
        rw [show deleteAt w b3 canonical key rest _ t = _ from child]
        rfl
      | some =>
        rw [gone] at child
        obtain ⟨out, ran, lifted⟩ := child
        have shape := Tree.remove?_some inner solidIn (Tree.regroup here) gone
        have beside : out.2.HasAll w b3 ((if b then l else r).nodes (nodeHash w b3)
            rest.length) := fun p part =>
          lifted.later.kept _ (lasting_has free) p (withinOut.nodes p part) (aside p part)
        have whole := climb_lifted free lifted.later (lifted.carried.mono inC)
          (lifted.later.carries withinOut.nodes inS) beside outer
          shape.solid solidOut withinOut (after _ (congrArg (Option.map _) gone))
        rw [← lifted.up] at whole
        rw [ran]
        exact ⟨_, rfl, whole⟩

end

end DiskTrie
end SentrixCore
