import Sentrix.Lib.Marking
import Sentrix.Core.TrieStore

/-!
Pruning a store nobody writes to. Old roots are dropped, everything reachable from the
roots that are left is marked, and the rows without a mark go.
-/
namespace SentrixCore
open HashTable Effects SentrixPrimitives SparseMerkle List

namespace TrieStorage

def row (db : TrieStorage) (hash : Bytes) : Option (Marking.Row Bytes) :=
  (db.nodes.lookup hash).map fun
    | .leaf _ valueHash => .leaf valueHash
    | .internal left right => .branch left right

def pruneOldRoots (db : TrieStorage) (latestVersion keep : Nat) : TrieStorage × Nat :=
  if latestVersion ≤ keep then (db, 0)
  else
    let old := db.roots.keys.filter (· ≤ latestVersion - keep)
    ({ db with roots := db.roots.eraseAll old }, old.length)

def gcOrphanedNodes (db : TrieStorage) (live : List Bytes) : TrieStorage × Nat :=
  let nodes := db.nodes.keys.filter (· ∉ live)
  let values := db.values.keys.filter (· ∉ live)
  ({ db with nodes := db.nodes.eraseAll nodes, values := db.values.eraseAll values },
    nodes.length + values.length)

section
variable (w : Wire) (b3 : Bytes → Bytes)

/-- Everything below a root; the walk ends at the last level of the keys. -/
def collectReachable (db : TrieStorage) (root : Bytes) (live : List Bytes) : List Bytes :=
  Marking.mark (emptyHash w b3) db.row 256 root live

def collectVersion (db : TrieStorage) (live : List Bytes) (version : Nat) : List Bytes :=
  match db.roots.lookup version with
  | some root => if root ∈ live then live else db.collectReachable w b3 root live
  | none => live

def collectVersions (db : TrieStorage) (first last : Nat) (live : List Bytes) : List Bytes :=
  (range' first (last + 1 - first)).foldl (db.collectVersion w b3) live

end
end TrieStorage

def DiskTrie.pruneOffline (w : Wire) (b3 : Bytes → Bytes) (keepVersions : Nat)
    (t : DiskTrie) : DiskTrie × Nat × Nat :=
  let (db, rootsPruned) := t.storage.pruneOldRoots t.version keepVersions
  if rootsPruned = 0 then ({ t with storage := db }, 0, 0)
  else
    let live := db.collectReachable w b3 t.root []
    let live := db.collectVersions w b3 (t.version - keepVersions + 1) t.version live
    let (db, gc) := db.gcOrphanedNodes live
    ({ t with storage := db }, rootsPruned, gc)

namespace DiskTrie
section
variable (w : Wire) (b3 : Bytes → Bytes)

def OnDisk (db : TrieStorage) : TrieNode → Prop
  | .leaf k v => db.nodes.lookup (nodeHash w b3 (.leaf k v)) =
        some (.leaf k (nodeHash w b3 (.leaf k v))) ∧
      db.values.lookup (nodeHash w b3 (.leaf k v)) = some v
  | .branch l r => db.nodes.lookup (nodeHash w b3 (.branch l r)) = some (.internal l r)
  | .absent => True

def InBuffers (t : DiskTrie) : TrieNode → Prop
  | .leaf k v => t.pendingNodes.lookup (nodeHash w b3 (.leaf k v)) =
        some (.leaf k (nodeHash w b3 (.leaf k v))) ∧
      t.pendingValues.lookup (nodeHash w b3 (.leaf k v)) = some v
  | .branch l r => t.pendingNodes.lookup (nodeHash w b3 (.branch l r)) = some (.internal l r)
  | .absent => True

structure OfTree (U : Set TrieNode) (root : Bytes) (tree : TrieTree) : Prop where
  root : root = tree.root (nodeHash w b3) 256
  placed : tree.Placed keyBits 256 []
  solid : tree.Solid
  inside : Inside w b3 U 256 tree

def AllOnDisk (db : TrieStorage) (tree : TrieTree) : Prop :=
  ∀ p ∈ tree.nodes (nodeHash w b3) 256, OnDisk w b3 db p

/-- The working tree is made of the buffers and of the tree committed last, which is on
disk as are those of all stored roots. -/
structure Ready (U : Set TrieNode) (t : DiskTrie) (tree base : TrieTree) : Prop where
  current : OfTree w b3 U t.root tree
  committed : OfTree w b3 U (base.root (nodeHash w b3) 256) base
  onDisk : AllOnDisk w b3 t.storage base
  since : ∀ p ∈ tree.nodes (nodeHash w b3) 256,
    InBuffers w b3 t p ∨ p ∈ base.nodes (nodeHash w b3) 256
  buffered : Buffered w b3 U t
  roots : ∀ version root, t.storage.roots.lookup version = some root →
    ∃ kept, OfTree w b3 U root kept ∧ AllOnDisk w b3 t.storage kept

end

section
variable {w : Wire} {b3 : Bytes → Bytes} {U : Set TrieNode} {t t' : DiskTrie}
  {node : TrieNode} {tree base : TrieTree} {root : Bytes} {db db' : TrieStorage}

theorem has_of_buffers (inside : InBuffers w b3 t node) : t.Has w b3 node := by
  cases node with
  | absent => trivial
  | leaf => simp only [Has, getNode, loadValue, inside.1, inside.2, Option.some_or, and_self]
  | branch l r =>
    have row : t.pendingNodes.lookup (nodeHash w b3 (.branch l r)) = _ := inside
    simp only [Has, getNode, row, Option.some_or]

/-- A buffered row of the same hash is the same row. -/
theorem has_of_onDisk (free : Free w b3 U) (buffered : Buffered w b3 U t)
    (inside : node ∈ U) (disk : OnDisk w b3 t.storage node) : t.Has w b3 node := by
  cases node with
  | absent => trivial
  | leaf k v =>
    constructor
    · unfold getNode
      cases found : t.pendingNodes.lookup (nodeHash w b3 (.leaf k v)) with
      | none => exact disk.1
      | some row =>
        rcases buffered.nodes _ row found with ⟨k', v', member, same, rfl⟩ | ⟨l, r, member, same, -⟩
        · cases free inside member same
          rfl
        · cases free inside member same
    · unfold loadValue
      cases found : t.pendingValues.lookup (nodeHash w b3 (.leaf k v)) with
      | none => exact disk.2
      | some v' =>
        obtain ⟨k', member, same⟩ := buffered.values _ v' found
        cases free inside member same
        rfl
  | branch l r =>
    show t.getNode _ = _
    unfold getNode
    cases found : t.pendingNodes.lookup (nodeHash w b3 (.branch l r)) with
    | none => exact disk
    | some row =>
      rcases buffered.nodes _ row found with ⟨k', v', member, same, -⟩ | ⟨l, r, member, same, rfl⟩
      · cases free inside member same
      · cases free inside member same
        rfl

theorem inBuffers_put_self : InBuffers w b3 (t.put w b3 node) node := by
  cases node with
  | absent => trivial
  | leaf => simp only [InBuffers, put, AList.lookup_insert, and_self]
  | branch => simp only [InBuffers, put, AList.lookup_insert]

theorem inBuffers_put (free : Free w b3 U) {other : TrieNode}
    (inside : node ∈ U) (inside' : other ∈ U) (has : InBuffers w b3 t other) :
    InBuffers w b3 (t.put w b3 node) other := by
  by_cases same : nodeHash w b3 other = nodeHash w b3 node
  · cases free inside' inside same
    exact inBuffers_put_self
  · have rows : (t.put w b3 node).pendingNodes.lookup (nodeHash w b3 other) =
          t.pendingNodes.lookup (nodeHash w b3 other) ∧
        (t.put w b3 node).pendingValues.lookup (nodeHash w b3 other) =
          t.pendingValues.lookup (nodeHash w b3 other) := by
      cases node <;> simp only [put, AList.lookup_insert_ne same, and_self]
    cases other with
    | absent => trivial
    | leaf => exact ⟨rows.1.trans has.1, rows.2.trans has.2⟩
    | branch => exact Eq.trans rows.1 has

theorem lasting_since (free : Free w b3 U) (old : List TrieNode) :
    Lasting w b3 U fun t p => InBuffers w b3 t p ∨ p ∈ old := by
  refine ⟨fun t p _ => .inl inBuffers_put_self, fun t p inside q inside' has => ?_,
    fun t root p _ has => has.imp_left fun has => by cases p <;> exact has⟩
  exact has.imp_left (inBuffers_put free inside inside')

theorem Ready.held (ready : Ready w b3 U t tree base) (free : Free w b3 U) :
    t.HasAll w b3 (tree.nodes (nodeHash w b3) 256) := by
  intro p part
  rcases ready.since p part with buffer | old
  · exact has_of_buffers buffer
  · exact has_of_onDisk free ready.buffered (ready.committed.inside.nodes p old)
      (ready.onDisk p old)

structure Written (w : Wire) (b3 : Bytes → Bytes) (U : Set TrieNode) (t t' : DiskTrie)
    (tree base : TrieTree) : Prop where
  ready : Ready w b3 U t' tree base
  storage : t'.storage = t.storage
  version : t'.version = t.version
  canonical : t'.canonicalDelete = t.canonicalDelete

theorem Ready.written {tree' : TrieTree} (ready : Ready w b3 U t tree base)
    (free : Free w b3 U) (of : OfTree w b3 U root tree')
    (later : Later w b3 U t t')
    (carried : Carries w b3 U t (tree.nodes (nodeHash w b3) 256) t'
      (tree'.nodes (nodeHash w b3) 256)) :
    Written w b3 U t { t' with root } tree' base := by
  have lasting := lasting_since free (base.nodes (nodeHash w b3) 256)
  have stored := later.storage
  have buffered := later.buffered ready.buffered
  refine ⟨⟨of, ready.committed, ?_, fun p part => ?_, ⟨buffered.nodes, buffered.values⟩, ?_⟩,
    stored, later.version, later.canonical⟩
  · show AllOnDisk w b3 t'.storage base
    rw [stored]
    exact ready.onDisk
  · exact lasting.moved t' root p (of.inside.nodes p part)
      (carried _ lasting ready.since p part)
  · show ∀ version root, t'.storage.roots.lookup version = some root → ∃ kept, _ ∧
      AllOnDisk w b3 t'.storage kept
    rw [stored]
    exact ready.roots

theorem insert_written {key : TrieKey} {value : Bytes} (ready : Ready w b3 U t tree base)
    (free : Free w b3 U)
    (after : Inside w b3 U 256 (tree.insert keyBits key.1 value (keyBits key.1) 0)) :
    ∃ t', DiskTrie.insert w b3 key value t = .ok () t' ∧
      Written w b3 U t t' (tree.insert keyBits key.1 value (keyBits key.1) 0) base := by
  have held := ready.held free
  obtain ⟨root, placed, solid, inside⟩ := ready.current
  have levels := levels_of_key key.2
  have here : keyBits key.1 = [] ++ keyBits key.1 := rfl
  have shape := @Tree.placed_insert _ _ _ keyBits key.1 value _ _ keyBits_injective tree
    (levels ▸ placed) solid here
  have inserted := @insertAt_added w b3 U t key.1 value [] _ tree free here
    (levels ▸ held) (levels ▸ placed) solid (levels ▸ inside) (levels ▸ after)
  rw [levels] at inserted shape
  obtain ⟨out, ran, added⟩ := inserted
  have ran : insertAt w b3 key.1 value (keyBits key.1) 0 t.root t = .ok out := root ▸ ran
  refine ⟨{ out.2 with root := out.1 }, ?_, ready.written free
    ⟨added.root, shape.1, shape.2.1, after⟩ added.later added.carried⟩
  simp only [DiskTrie.insert, ran]

theorem delete_written {key : TrieKey} (ready : Ready w b3 U t tree base) (free : Free w b3 U)
    (after : Inside w b3 U 256 (tree.remove t.canonicalDelete key.1 (keyBits key.1))) :
    ∃ t', DiskTrie.delete w b3 key t = .ok () t' ∧
      Written w b3 U t t' (tree.remove t.canonicalDelete key.1 (keyBits key.1)) base := by
  have held := ready.held free
  obtain ⟨root, placed, solid, inside⟩ := ready.current
  have levels := levels_of_key key.2
  have here : keyBits key.1 = [] ++ keyBits key.1 := rfl
  have shape := @Tree.remove_without _ _ _ keyBits key.1 _ _ t.canonicalDelete tree
    (levels ▸ placed) solid here
  have kept (left : TrieTree)
      (gone : tree.remove? t.canonicalDelete key.1 (keyBits key.1) = some left) :
      Inside w b3 U (keyBits key.1).length left := by
    rw [Tree.remove, gone] at after
    exact levels ▸ after
  have deleted := deleteAt_lifted (t := t) free here (levels ▸ held) (levels ▸ placed) solid
    (levels ▸ inside) kept
  rw [levels, ← root] at deleted
  rw [levels] at shape
  unfold DiskTrie.delete
  unfold Tree.remove at shape after ⊢
  cases gone : tree.remove? t.canonicalDelete key.1 (keyBits key.1) with
  | none =>
    rw [gone] at deleted
    rw [show deleteAt w b3 t.canonicalDelete key.1 (keyBits key.1) t.root t = _ from deleted]
    exact ⟨t, rfl, ready, rfl, rfl, rfl⟩
  | some =>
    rw [gone] at deleted shape after
    obtain ⟨out, ran, lifted⟩ := deleted
    simp only [ran]
    refine ⟨_, rfl, ready.written free ⟨?_, shape.placed, shape.solid, after⟩ lifted.later
      lifted.carried⟩
    rw [lifted.up, levels, hash_upOf, Option.getD_some]

theorem onDisk_commit {version : Nat} :
    OnDisk w b3 (t.commit version).storage node ↔ t.Has w b3 node := by
  cases node <;>
    simp only [OnDisk, Has, commit, flushTrieBatch, getNode, loadValue, lookup_overlay]

theorem commit_ready {version : Nat} (ready : Ready w b3 U t tree base) (free : Free w b3 U) :
    Ready w b3 U (t.commit version) tree tree := by
  have held := ready.held free
  have current := ready.current
  have here : AllOnDisk w b3 (t.commit version).storage tree :=
    fun p part => onDisk_commit.mpr (held p part)
  refine ⟨current, current.root ▸ current, here, fun p part => .inr part, ⟨nofun, nofun⟩, ?_⟩
  intro v root found
  by_cases same : v = version
  · subst same
    obtain rfl : t.root = root := by
      simpa [commit, flushTrieBatch, AList.lookup_insert] using found
    exact ⟨tree, current, here⟩
  · have found : t.storage.roots.lookup v = some root := by
      simpa [commit, flushTrieBatch, AList.lookup_insert_ne same] using found
    obtain ⟨kept, of, disk⟩ := ready.roots v root found
    exact ⟨kept, of, fun p part => onDisk_commit.mpr
      (has_of_onDisk free ready.buffered (of.inside.nodes p part) (disk p part))⟩

end
section
variable {w : Wire} {b3 : Bytes → Bytes} {U : Set TrieNode} {t t' : DiskTrie}
  {node : TrieNode} {tree base kept : TrieTree} {root : Bytes} {db db' : TrieStorage}
  {live : List Bytes} {todo : List (Nat × Bytes)}

def Reached (w : Wire) (b3 : Bytes → Bytes) (live : List Bytes) (todo : List (Nat × Bytes))
    (root : Bytes) : Prop :=
  root = emptyHash w b3 256 ∨ root ∈ live ∨ ∃ n, (n, root) ∈ todo

abbrev Marks (w : Wire) (b3 : Bytes → Bytes) (U : Set TrieNode) (db : TrieStorage)
    (live : List Bytes) : Prop :=
  Marking.Walk keyBits (nodeHash w b3) U db.row live []

theorem OfTree.known (of : OfTree w b3 U root tree) :
    Marking.Known keyBits (nodeHash w b3) U 256 tree :=
  ⟨⟨[], of.placed⟩, of.solid, of.inside⟩

theorem stored_of_disk (disk : AllOnDisk w b3 db tree) :
    Marking.Stored (nodeHash w b3) db.row 256 tree := by
  intro p part
  have row := disk p part
  cases p with
  | absent => exact absurd part (Marking.absent_not_node 256 tree)
  | leaf => simp only [TrieStorage.row, row.1, Option.map_some, Marking.rowOf]
  | branch l r =>
    have row : db.nodes.lookup (nodeHash w b3 (.branch l r)) = some (.internal l r) := row
    simp only [TrieStorage.row, row, Option.map_some, Marking.rowOf]

theorem covered_iff (free : Free w b3 U) (of : OfTree w b3 U root tree) :
    Marking.Covered (nodeHash w b3) live todo 256 tree ↔ Reached w b3 live todo root := by
  constructor
  · rintro (rfl | walked)
    · exact .inl of.root
    · exact .inr (of.root ▸ walked)
  · rintro (bare | walked)
    · exact .inl (Tree.eq_empty_of_root free of.solid of.inside (of.root.symm.trans bare))
    · exact .inr (of.root ▸ walked)

theorem Marks.marked (marks : Marks w b3 U db live) (free : Free w b3 U)
    (of : OfTree w b3 U root tree) (reached : Reached w b3 live [] root) :
    ∀ p ∈ tree.nodes (nodeHash w b3) 256, nodeHash w b3 p ∈ live :=
  marks.closed.marked free of.known ((covered_iff free of).mpr reached)

theorem marks_nil : Marks w b3 U db [] :=
  ⟨nofun, nofun⟩

/-- What a walk that went on did: it is complete again, and nothing was unmarked. -/
structure Marked (w : Wire) (b3 : Bytes → Bytes) (U : Set TrieNode) (db : TrieStorage)
    (live live' : List Bytes) : Prop where
  marks : Marks w b3 U db live'
  kept : ∀ {root tree}, OfTree w b3 U root tree → Reached w b3 live [] root →
    Reached w b3 live' [] root

theorem collectReachable_marked (free : Free w b3 U)
    (marks : Marks w b3 U db live) (of : OfTree w b3 U root tree)
    (disk : AllOnDisk w b3 db tree) :
    Marked w b3 U db live (db.collectReachable w b3 root live) ∧
      Reached w b3 (db.collectReachable w b3 root live) [] root := by
  obtain ⟨walk, here, others⟩ := marks.mark free of.known (stored_of_disk disk)
  rw [← of.root] at walk here others
  refine ⟨⟨walk, fun of' reached => ?_⟩, (covered_iff free of).mp here⟩
  exact (covered_iff free of').mp (others _ _ of'.known ((covered_iff free of').mpr reached))

variable (free : Free w b3 U)
  (stored : ∀ version root, db.roots.lookup version = some root →
    ∃ kept, OfTree w b3 U root kept ∧ AllOnDisk w b3 db kept)
include free stored

theorem collectVersion_marked (marks : Marks w b3 U db live) (version : Nat) :
    Marked w b3 U db live (db.collectVersion w b3 live version) ∧
      ∀ root, db.roots.lookup version = some root →
        Reached w b3 (db.collectVersion w b3 live version) [] root := by
  unfold TrieStorage.collectVersion
  cases found : db.roots.lookup version with
  | none => exact ⟨⟨marks, fun _ reached => reached⟩, nofun⟩
  | some root =>
    dsimp only
    split
    · rename_i inside
      exact ⟨⟨marks, fun _ reached => reached⟩, fun _ same => Option.some.inj same ▸ .inr (.inl inside)⟩
    · obtain ⟨kept, of, disk⟩ := stored version root found
      obtain ⟨marked, here⟩ := collectReachable_marked free marks of disk
      exact ⟨marked, fun _ same => Option.some.inj same ▸ here⟩

theorem collect_marked (versions : List Nat) (marks : Marks w b3 U db live) :
    Marked w b3 U db live (versions.foldl (db.collectVersion w b3) live) ∧
      ∀ v ∈ versions, ∀ root, db.roots.lookup v = some root →
        Reached w b3 (versions.foldl (db.collectVersion w b3) live) [] root := by
  induction versions generalizing live with
  | nil => exact ⟨⟨marks, fun _ reached => reached⟩, nofun⟩
  | cons v _ ih =>
    obtain ⟨first, here⟩ := collectVersion_marked free stored marks v
    obtain ⟨later, others⟩ := ih first.marks
    refine ⟨⟨later.marks, fun of reached => later.kept of (first.kept of reached)⟩, ?_⟩
    intro v' member root found
    rcases List.mem_cons.mp member with rfl | member
    · obtain ⟨kept, of, -⟩ := stored _ root found
      exact later.kept of (here root found)
    · exact others v' member root found

theorem collectVersions_marked (marks : Marks w b3 U db live) (first last : Nat) :
    Marked w b3 U db live (db.collectVersions w b3 first last live) ∧
      ∀ v, first ≤ v → v ≤ last → ∀ root, db.roots.lookup v = some root →
        Reached w b3 (db.collectVersions w b3 first last live) [] root := by
  obtain ⟨marked, all⟩ := collect_marked free stored (range' first (last + 1 - first)) marks
  refine ⟨marked, fun v low high => all v (List.mem_range'_1.mpr ⟨low, ?_⟩)⟩
  omega

end

section
variable {w : Wire} {b3 : Bytes → Bytes} {U : Set TrieNode} {t : DiskTrie} {node : TrieNode}
  {tree base kept : TrieTree} {root : Bytes} {db db' : TrieStorage} {live : List Bytes}

theorem lookup_gc {ν : Type} (rows : Table Bytes ν) (hash : Bytes) :
    (rows.eraseAll (rows.keys.filter (· ∉ live))).lookup hash =
      if hash ∈ live then rows.lookup hash else none := by
  rw [lookup_eraseAll]
  by_cases marked : hash ∈ live
  · simp [marked]
  · by_cases present : hash ∈ rows.keys
    · simp [marked, present]
    · simp [marked, AList.lookup_eq_none.mpr present]

theorem onDisk_gc (marked : nodeHash w b3 node ∈ live) (disk : OnDisk w b3 db node) :
    OnDisk w b3 (db.gcOrphanedNodes live).1 node := by
  cases node with
  | absent => trivial
  | leaf | branch =>
    simp only [OnDisk, TrieStorage.gcOrphanedNodes, lookup_gc, if_pos marked]
    exact disk

theorem lookup_pruneOldRoots {latest keep version : Nat} :
    (db.pruneOldRoots latest keep).1.roots.lookup version =
      if keep < latest ∧ version ≤ latest - keep then none else db.roots.lookup version := by
  unfold TrieStorage.pruneOldRoots
  by_cases short : latest ≤ keep
  · rw [if_pos short, if_neg (by omega)]
  · rw [if_neg short]
    show (db.roots.eraseAll _).lookup version = _
    rw [lookup_eraseAll]
    by_cases old : version ≤ latest - keep
    · by_cases present : version ∈ db.roots.keys
      · simp [old, present, Nat.lt_of_not_le short]
      · simp [old, AList.lookup_eq_none.mpr present]
    · simp [old]

theorem pruneOldRoots_rows {latest keep : Nat} :
    (db.pruneOldRoots latest keep).1.nodes = db.nodes ∧
      (db.pruneOldRoots latest keep).1.values = db.values := by
  unfold TrieStorage.pruneOldRoots
  split <;> exact ⟨rfl, rfl⟩

theorem onDisk_rows (nodes : db'.nodes = db.nodes) (values : db'.values = db.values) :
    OnDisk w b3 db' node ↔ OnDisk w b3 db node := by
  cases node <;> simp only [OnDisk, nodes, values]

structure Pruned (w : Wire) (b3 : Bytes → Bytes) (U : Set TrieNode) (t t' : DiskTrie)
    (tree : TrieTree) : Prop where
  same : t' = { t with storage := t'.storage }
  roots : ∀ v root, t'.storage.roots.lookup v = some root → t.storage.roots.lookup v = some root
  current : AllOnDisk w b3 t'.storage tree
  retained : ∀ v root, t'.storage.roots.lookup v = some root → ∀ kept,
    OfTree w b3 U root kept → AllOnDisk w b3 t.storage kept →
      AllOnDisk w b3 t'.storage kept

/-- A prune of a store to which nothing waits to be written, and which has no root
beyond the trie's own version. -/
theorem pruneOffline_pruned (ready : Ready w b3 U t tree base)
    (free : Free w b3 U) (whole : AllOnDisk w b3 t.storage tree)
    (below : ∀ v root, t.storage.roots.lookup v = some root → v ≤ t.version) (keep : Nat) :
    Pruned w b3 U t (t.pruneOffline w b3 keep).1 tree := by
  obtain ⟨sameNodes, sameValues⟩ := @pruneOldRoots_rows t.storage t.version keep
  have disk {kept : TrieTree} (on : AllOnDisk w b3 t.storage kept) :
      AllOnDisk w b3 (t.storage.pruneOldRoots t.version keep).1 kept :=
    fun p part => (onDisk_rows sameNodes sameValues).mpr (on p part)
  have older : ∀ v root, (t.storage.pruneOldRoots t.version keep).1.roots.lookup v = some root →
      t.storage.roots.lookup v = some root ∧ (keep < t.version → t.version - keep < v) := by
    intro v root found
    rw [lookup_pruneOldRoots] at found
    split at found
    · cases found
    · rename_i recent
      exact ⟨found, fun longer => Nat.lt_of_not_le fun old => recent ⟨longer, old⟩⟩
  have stored : ∀ v root, (t.storage.pruneOldRoots t.version keep).1.roots.lookup v = some root →
      ∃ kept, OfTree w b3 U root kept ∧
        AllOnDisk w b3 (t.storage.pruneOldRoots t.version keep).1 kept := by
    intro v root found
    obtain ⟨kept, of, on⟩ := ready.roots v root (older v root found).1
    exact ⟨kept, of, disk on⟩
  unfold pruneOffline
  dsimp only
  split
  · exact ⟨rfl, fun v root found => (older v root found).1, disk whole,
      fun _ _ _ _ _ on => disk on⟩
  · rename_i some_old
    -- roots were dropped, so the version is beyond the ones that are kept
    have longer : keep < t.version := by
      by_contra short
      exact some_old (by simp [TrieStorage.pruneOldRoots, Nat.le_of_not_lt short])
    obtain ⟨first, here⟩ := collectReachable_marked free marks_nil ready.current (disk whole)
    obtain ⟨marked, all⟩ := collectVersions_marked free stored first.marks
      (t.version - keep + 1) t.version
    have keeps {root : Bytes} {kept : TrieTree} (of : OfTree w b3 U root kept)
        (reached : Reached w b3 _ [] root) (on : AllOnDisk w b3 t.storage kept) :
        AllOnDisk w b3 (TrieStorage.gcOrphanedNodes _ _).1 kept :=
      fun p part => onDisk_gc (marked.marks.marked free of reached p part) (disk on p part)
    refine ⟨rfl, fun v root found => (older v root found).1,
      keeps ready.current (marked.kept ready.current here) whole, ?_⟩
    intro v root found kept of on
    obtain ⟨present, recent⟩ := older v root found
    exact keeps of (all v (recent longer) (below v root present) root found) on

end

def reachable (w : Wire) (b3 : Bytes → Bytes) (t : DiskTrie) :
    Nat → Bytes → List (GcTable × Bytes)
  | 0, hash =>
    if hash = emptyHash w b3 0 then []
    else match t.getNode hash with
      | some (.leaf _ valueHash) => [(.nodes, hash), (.values, valueHash)]
      | _ => [(.nodes, hash)]
  | n + 1, hash =>
    if hash = emptyHash w b3 (n + 1) then []
    else match t.getNode hash with
      | some (.leaf _ valueHash) => [(.nodes, hash), (.values, valueHash)]
      | some (.internal left right) =>
        (.nodes, hash) :: (t.reachable w b3 n left ++ t.reachable w b3 n right)
      | none => [(.nodes, hash)]

end DiskTrie

def TrieStorage.has (db : TrieStorage) : GcTable × Bytes → Bool
  | (.nodes, hash) => (db.nodes.lookup hash).isSome
  | (.values, hash) => (db.values.lookup hash).isSome

namespace DiskTrie
section
variable {w : Wire} {b3 : Bytes → Bytes} {U : Set TrieNode} {t : DiskTrie} {node : TrieNode}
  {tree base kept : TrieTree} {root : Bytes} {db : TrieStorage}

theorem get_tree (free : Free w b3 U) (of : OfTree w b3 U t.root tree)
    (held : t.HasAll w b3 (tree.nodes (nodeHash w b3) 256)) (key : TrieKey) :
    t.get w b3 key = .ok (tree.find key.1 (keyBits key.1)) := by
  obtain ⟨root, placed, solid, inside⟩ := of
  have levels := levels_of_key key.2
  rw [← levels] at root held placed inside
  unfold DiskTrie.get
  rw [root]
  exact getAt_find free held placed solid inside

theorem prove_tree (free : Free w b3 U) (of : OfTree w b3 U t.root tree)
    (held : t.HasAll w b3 (tree.nodes (nodeHash w b3) 256)) (key : TrieKey) :
    t.prove w b3 key = .ok (treeProof w b3 key
      (tree.siblings (nodeHash w b3) (keyBits key.1))
      (256 - (tree.siblings (nodeHash w b3) (keyBits key.1)).length)
      (tree.terminal (keyBits key.1))) := by
  obtain ⟨root, placed, solid, inside⟩ := of
  have levels := levels_of_key key.2
  rw [← levels] at root held placed inside ⊢
  unfold DiskTrie.prove
  rw [root]
  exact proveAt_tree free held placed solid inside

/-- Two tries from which one tree can be read answer alike. -/
theorem reads_alike {t' : DiskTrie} (free : Free w b3 U)
    (of : OfTree w b3 U t.root tree) (same : t'.root = t.root)
    (held : t.HasAll w b3 (tree.nodes (nodeHash w b3) 256))
    (held' : t'.HasAll w b3 (tree.nodes (nodeHash w b3) 256)) (key : TrieKey) :
    t'.get w b3 key = t.get w b3 key ∧ t'.prove w b3 key = t.prove w b3 key := by
  have of' : OfTree w b3 U t'.root tree := same ▸ of
  rw [get_tree free of held, get_tree free of' held', prove_tree free of held,
    prove_tree free of' held']
  exact ⟨rfl, rfl⟩

theorem has_reopened (disk : OnDisk w b3 t.storage node) :
    (t.reopened root).Has w b3 node := by
  cases node with
  | absent => trivial
  | leaf => exact disk
  | branch => exact disk

theorem reachable_nodes (free : Free w b3 U) {n : Nat} {pre : List Bool}
    (held : t.HasAll w b3 (tree.nodes (nodeHash w b3) n))
    (placed : tree.Placed keyBits n pre) (solid : tree.Solid)
    (inside : Inside w b3 U n tree) :
    ∀ entry ∈ t.reachable w b3 n (tree.root (nodeHash w b3) n),
      (∃ p ∈ tree.nodes (nodeHash w b3) n, entry = (.nodes, nodeHash w b3 p)) ∨
        ∃ k v, .leaf k v ∈ tree.nodes (nodeHash w b3) n ∧
          entry = (.values, nodeHash w b3 (.leaf k v)) := by
  induction tree generalizing n pre with
  | empty =>
    intro entry member
    cases n <;> simp [reachable, root_empty] at member
  | leaf k v =>
    have full := root_ne_empty free solid inside nofun
    have row := (getNode_leaf held).1
    intro entry member
    have rows : t.reachable w b3 n (Tree.root (nodeHash w b3) n (.leaf k v)) =
        [(.nodes, nodeHash w b3 (.leaf k v)), (.values, nodeHash w b3 (.leaf k v))] := by
      cases n <;> simp only [reachable, if_neg full, row] <;> rfl
    rw [rows] at member
    rcases List.mem_cons.mp member with rfl | member
    · exact .inl ⟨_, mem_cons_self, rfl⟩
    · cases List.mem_singleton.mp member
      exact .inr ⟨k, v, mem_cons_self, rfl⟩
  | branch _ _ ihl ihr =>
    obtain ⟨m, rfl⟩ := Nat.exists_eq_add_one_of_ne_zero placed.1.ne'
    have full := root_ne_empty free solid inside nofun
    have row := getNode_branch held
    obtain ⟨heldL, heldR⟩ := has_branch false held
    obtain ⟨withinL, withinR⟩ := inside.branch
    have below := ihl heldL placed.2.1 solid.1 withinL
    have aside := ihr heldR placed.2.2 solid.2.1 withinR
    intro entry member
    simp only [reachable, if_neg full, row, mem_cons, mem_append] at member
    rcases member with rfl | member | member
    · exact .inl ⟨_, mem_cons_self, rfl⟩
    · rcases below entry member with ⟨p, part, same⟩ | ⟨k, v, part, same⟩
      · exact .inl ⟨p, mem_cons_of_mem _ (mem_append_left _ part), same⟩
      · exact .inr ⟨k, v, mem_cons_of_mem _ (mem_append_left _ part), same⟩
    · rcases aside entry member with ⟨p, part, same⟩ | ⟨k, v, part, same⟩
      · exact .inl ⟨p, mem_cons_of_mem _ (mem_append_right _ part), same⟩
      · exact .inr ⟨k, v, mem_cons_of_mem _ (mem_append_right _ part), same⟩

theorem has_nodes (disk : OnDisk w b3 db node) (real : node ≠ .absent) :
    db.has (.nodes, nodeHash w b3 node) = true := by
  cases node with
  | absent => exact absurd rfl real
  | leaf => simp only [TrieStorage.has, disk.1, Option.isSome_some]
  | branch l r =>
    have row : db.nodes.lookup (nodeHash w b3 (.branch l r)) = some (.internal l r) := disk
    simp only [TrieStorage.has, row, Option.isSome_some]

theorem reachable_on_disk (free : Free w b3 U) (of : OfTree w b3 U root tree)
    (held : t.HasAll w b3 (tree.nodes (nodeHash w b3) 256))
    (disk : AllOnDisk w b3 db tree) :
    ∀ entry ∈ t.reachable w b3 256 root, db.has entry = true := by
  intro entry member
  rw [of.root] at member
  rcases reachable_nodes free held of.placed of.solid of.inside entry member with
    ⟨p, part, rfl⟩ | ⟨k, v, part, rfl⟩
  · refine has_nodes (disk p part) ?_
    rintro rfl
    exact Marking.absent_not_node 256 tree part
  · simp only [TrieStorage.has, (disk _ part).2, Option.isSome_some]

end
end DiskTrie

namespace TrieOp
section
variable (w : Wire) (b3 : Bytes → Bytes)

def runDisk : TrieOp → EStateM SentrixError DiskTrie Unit
  | .insert key value => DiskTrie.insert w b3 key value
  | .delete key => DiskTrie.delete w b3 key
  | .commit version => modify (DiskTrie.commit version)
  | .setCanonicalDelete on => modify fun t => { t with canonicalDelete := on }

def runAllDisk (ops : List TrieOp) : EStateM SentrixError DiskTrie Unit :=
  ops.forM (runDisk w b3)

end

def rising : Nat → List TrieOp → Bool
  | _, [] => true
  | last, .commit version :: rest => last ≤ version && rising version rest
  | last, _ :: rest => rising last rest

end TrieOp

namespace DiskTrie
section
variable {w : Wire} {b3 : Bytes → Bytes} {U : Set TrieNode} {t : DiskTrie}
  {tree base : TrieTree}

theorem op_ready (op : TrieOp) (ready : Ready w b3 U t tree base) (free : Free w b3 U)
    (after : Inside w b3 U 256 (TrieOp.onTree (t.canonicalDelete, tree) op).2) :
    ∃ t', op.runDisk w b3 t = .ok () t' ∧
      t'.canonicalDelete = (TrieOp.onTree (t.canonicalDelete, tree) op).1 ∧
      match op with
      | .commit version => t' = t.commit version ∧ Ready w b3 U t' tree tree
      | op => t'.storage = t.storage ∧ t'.version = t.version ∧
          Ready w b3 U t' (TrieOp.onTree (t.canonicalDelete, tree) op).2 base := by
  cases op with
  | insert =>
    obtain ⟨t', ran, written⟩ := insert_written ready free after
    exact ⟨t', ran, written.canonical, written.storage, written.version, written.ready⟩
  | delete =>
    obtain ⟨t', ran, written⟩ := delete_written ready free after
    exact ⟨t', ran, written.canonical, written.storage, written.version, written.ready⟩
  | commit => exact ⟨_, rfl, rfl, rfl, commit_ready ready free⟩
  | setCanonicalDelete =>
    exact ⟨_, rfl, rfl, rfl, rfl, ready.current, ready.committed, ready.onDisk,
      fun p part => (ready.since p part).imp_left fun has => by cases p <;> exact has,
      ⟨ready.buffered.nodes, ready.buffered.values⟩, ready.roots⟩

def NoneBeyond (t : DiskTrie) : Prop :=
  ∀ v root, t.storage.roots.lookup v = some root → v ≤ t.version

theorem noneBeyond_commit {version : Nat} (below : NoneBeyond t) (later : t.version ≤ version) :
    NoneBeyond (t.commit version) := by
  intro v root found
  show v ≤ version
  by_cases same : v = version
  · exact same.le
  · have found : t.storage.roots.lookup v = some root := by
      simpa [commit, flushTrieBatch, AList.lookup_insert_ne same] using found
    exact (below v root found).trans later

theorem runAllDisk_ready (ops : List TrieOp) (ready : Ready w b3 U t tree base)
    (free : Free w b3 U) (below : NoneBeyond t)
    (rising : TrieOp.rising t.version ops = true)
    (after : ∀ done, done <+: ops → Inside w b3 U 256
      (done.foldl TrieOp.onTree (t.canonicalDelete, tree)).2) :
    ∃ t' base', TrieOp.runAllDisk w b3 ops t = .ok () t' ∧
      Ready w b3 U t' (ops.foldl TrieOp.onTree (t.canonicalDelete, tree)).2 base' ∧
      NoneBeyond t' := by
  induction ops generalizing t tree base with
  | nil => exact ⟨t, base, rfl, ready, below⟩
  | cons op rest ih =>
    obtain ⟨mid, ran, mode, did⟩ := op_ready op ready free
      (after [op] (prefix_append [op] rest))
    have state : (mid.canonicalDelete, (TrieOp.onTree (t.canonicalDelete, tree) op).2) =
        TrieOp.onTree (t.canonicalDelete, tree) op := by rw [mode]
    have later : ∀ done, done <+: rest → Inside w b3 U 256
        (done.foldl TrieOp.onTree
          (mid.canonicalDelete, (TrieOp.onTree (t.canonicalDelete, tree) op).2)).2 := by
      intro done part
      rw [state]
      exact after (op :: done) ((prefix_cons_inj op).mpr part)
    have step {base' : TrieTree}
        (readied : Ready w b3 U mid (TrieOp.onTree (t.canonicalDelete, tree) op).2 base')
        (below' : NoneBeyond mid) (rising' : TrieOp.rising mid.version rest = true) :
        ∃ t' base', TrieOp.runAllDisk w b3 (op :: rest) t = .ok () t' ∧
          Ready w b3 U t' ((op :: rest).foldl TrieOp.onTree (t.canonicalDelete, tree)).2 base' ∧
          NoneBeyond t' := by
      obtain ⟨t', base', others, last⟩ := ih readied below' rising' later
      rw [state] at last
      exact ⟨t', base', (bind_of_ok ran).trans others, last⟩
    -- between commits the store and the version stay
    have quiet (storage : mid.storage = t.storage) (version : mid.version = t.version)
        (readied : Ready w b3 U mid (TrieOp.onTree (t.canonicalDelete, tree) op).2 base)
        (rising' : TrieOp.rising t.version rest = true) := by
      refine step readied ?_ (version ▸ rising')
      unfold NoneBeyond
      rw [storage, version]
      exact below
    cases op with
    | commit =>
      obtain ⟨rfl, readied⟩ := did
      rw [TrieOp.rising, Bool.and_eq_true, decide_eq_true_iff] at rising
      exact step readied (noneBeyond_commit below rising.1) rising.2
    | insert => exact quiet did.1 did.2.1 did.2.2 rising
    | delete => exact quiet did.1 did.2.1 did.2.2 rising
    | setCanonicalDelete => exact quiet did.1 did.2.1 did.2.2 rising

theorem fresh_ready {canonical : Bool}
    (empties : ∀ p ∈ Tree.emptyPreimages (nodeHash w b3) 256, p ∈ U) :
    Ready w b3 U (.fresh w b3 canonical) .empty .empty := by
  have of : OfTree w b3 U (emptyHash w b3 256) .empty :=
    ⟨rfl, trivial, trivial, nofun, empties⟩
  exact ⟨of, of, nofun, nofun, ⟨nofun, nofun⟩, nofun⟩

theorem Ready.whole (ready : Ready w b3 U t tree base) (settled : t.pendingNodes = ∅) :
    AllOnDisk w b3 t.storage tree := by
  intro p part
  rcases ready.since p part with buffered | old
  · cases p with
    | absent => trivial
    | leaf =>
      have row := buffered.1
      rw [settled] at row
      cases row
    | branch l r =>
      have row : t.pendingNodes.lookup (nodeHash w b3 (.branch l r)) = _ := buffered
      rw [settled] at row
      cases row
  · exact ready.onDisk p old

end
end DiskTrie

/-- Pruning a store that inserts, deletes and commits at rising versions have led to, and
to which nothing waits to be written, changes no answer at the current root or at any
root it retains, and deletes no row that is read from one of them. -/
theorem prune_offline_safe {w : Wire} {b3 : Bytes → Bytes} (canonical : Bool)
    (ops : List TrieOp)
    (free : Set.InjOn (nodeHash w b3) (hashedNodes w b3 canonical ops))
    (rising : TrieOp.rising 0 ops = true) :
    ∃ t, TrieOp.runAllDisk w b3 ops (.fresh w b3 canonical) = .ok () t ∧
      (t.pendingNodes = ∅ → ∀ keepVersions,
        let t' := (t.pruneOffline w b3 keepVersions).1
        (∀ key, t'.get w b3 key = t.get w b3 key ∧
          t'.prove w b3 key = t.prove w b3 key) ∧
        (∀ v root, t'.storage.roots.lookup v = some root →
          t.storage.roots.lookup v = some root ∧
          ∀ key, (t'.reopened root).get w b3 key = (t.reopened root).get w b3 key ∧
            (t'.reopened root).prove w b3 key = (t.reopened root).prove w b3 key) ∧
        ∀ entry, t'.storage.has entry = false →
          entry ∉ t.reachable w b3 256 t.root ∧
          ∀ v root, t'.storage.roots.lookup v = some root →
            entry ∉ (t.reopened root).reachable w b3 256 root) := by
  have within (done : List TrieOp) (part : done <+: ops) : Tree.Within (nodeHash w b3)
      (hashedNodes w b3 canonical ops) 256 (TrieOp.treeOf canonical done).2 :=
    ⟨fun p inside => .inr ⟨done, part, inside⟩, fun p inside => .inl inside⟩
  obtain ⟨t, base, ran, ready, below⟩ := DiskTrie.runAllDisk_ready ops
    (DiskTrie.fresh_ready (within [] nil_prefix).empties) free nofun rising within
  refine ⟨t, ran, fun settled keep => ?_⟩
  have whole := ready.whole settled
  have pruned := DiskTrie.pruneOffline_pruned ready free whole below keep
  have held := ready.held free
  generalize (t.pruneOffline w b3 keep).1 = t' at pruned ⊢
  dsimp only
  have reopened {s : DiskTrie} {root : Bytes} {kept : TrieTree}
      (disk : DiskTrie.AllOnDisk w b3 s.storage kept) :
      (s.reopened root).HasAll w b3 (kept.nodes (nodeHash w b3) 256) :=
    fun p part => DiskTrie.has_reopened (disk p part)
  refine ⟨?_, ?_, ?_⟩
  · have same : t'.root = t.root := by rw [pruned.same]
    refine DiskTrie.reads_alike free ready.current same held fun p part => ?_
    have buffered : DiskTrie.Buffered w b3 (hashedNodes w b3 canonical ops) t' := by
      rw [pruned.same]
      exact ⟨ready.buffered.nodes, ready.buffered.values⟩
    exact DiskTrie.has_of_onDisk free buffered (ready.current.inside.nodes p part)
      (pruned.current p part)
  · intro v root found
    obtain ⟨kept, of, disk⟩ := ready.roots v root (pruned.roots v root found)
    exact ⟨pruned.roots v root found, DiskTrie.reads_alike free of rfl (reopened disk)
      (reopened (pruned.retained v root found kept of disk))⟩
  · intro entry gone
    refine ⟨fun read => ?_, fun v root found read => ?_⟩
    · have there := DiskTrie.reachable_on_disk free ready.current held pruned.current entry read
      rw [gone] at there
      cases there
    · obtain ⟨kept, of, disk⟩ := ready.roots v root (pruned.roots v root found)
      have there := DiskTrie.reachable_on_disk free of (reopened disk)
        (pruned.retained v root found kept of disk) entry read
      rw [gone] at there
      cases there

def lowDropped : List TrieOp :=
  lowDeleted ++ [.commit 2]

theorem lowDropped_listed : hashedNodes pairWire pairBlake3 true lowDropped ⊆
    listedNodes pairNodes [] :=
  hashedNodes_listed pairSha (by decide)

theorem settled_of_commit {w : Wire} {b3 : Bytes → Bytes} {ops : List TrieOp} {version : Nat}
    {t t' : DiskTrie}
    (ran : TrieOp.runAllDisk w b3 (ops ++ [.commit version]) t = .ok () t') :
    t'.pendingNodes = ∅ := by
  induction ops generalizing t with
  | nil =>
    obtain ⟨mid, committed, rest⟩ := seq_ok.mp ran
    cases modify_ok.mp committed
    obtain ⟨-, rfl⟩ := pure_ok.mp rest
    rfl
  | cons _ _ ih =>
    obtain ⟨mid, -, others⟩ := seq_ok.mp ran
    exact ih others

theorem lowDropped_pruned :
    ∃ t, TrieOp.runAllDisk pairWire pairBlake3 lowDropped
        (.fresh pairWire pairBlake3 true) = .ok () t ∧ t.pendingNodes = ∅ ∧
      ∀ key, (t.pruneOffline pairWire pairBlake3 1).1.get pairWire
        pairBlake3 key = t.get pairWire pairBlake3 key := by
  obtain ⟨t, ran, safe⟩ := prune_offline_safe true lowDropped (pairFree.mono lowDropped_listed)
    (by decide)
  have settled := settled_of_commit ran
  exact ⟨t, ran, settled, fun key => ((safe settled 1).1 key).1⟩

theorem pair_emptyHash {n e : Nat} (listed : emptyDigests[n]? = some e) :
    emptyHash pairWire pairBlake3 n = word256 e := by
  unfold emptyHash
  rw [nodeHash_listed pairSha]
  exact emptyDigest_listed listed

section
variable {w : Wire} {b3 : Bytes → Bytes} {t t' t'' : DiskTrie} {key key' : TrieKey}
  {value value' : Bytes}

theorem insert_into_empty (bare : t.root = emptyHash w b3 256) :
    DiskTrie.insert w b3 key value t = .ok ()
      { t.put w b3 (.leaf key.1 value) with root := nodeHash w b3 (.leaf key.1 value) } := by
  have leaf : DiskTrie.insertAt w b3 key.1 value (keyBits key.1) 0 t.root t =
      .ok (t.putLeaf w b3 key.1 value) := by
    unfold DiskTrie.insertAt
    rw [levels_of_key key.2, if_pos bare]
  unfold DiskTrie.insert
  rw [leaf]
  rfl

theorem insert_beside_leaf {hash : Bytes} {bits bits' : List Bool} (root : t.root = hash)
    (full : hash ≠ emptyHash w b3 256) (row : t.getNode hash = some (.leaf key'.1 hash))
    (here : keyBits key.1 = true :: bits) (there : keyBits key'.1 = false :: bits') :
    DiskTrie.insert w b3 key value t = .ok ()
      { (t.put w b3 (.leaf key.1 value)).put w b3
          (.branch hash (nodeHash w b3 (.leaf key.1 value))) with
        root := nodeHash w b3 (.branch hash (nodeHash w b3 (.leaf key.1 value))) } := by
  have other : key'.1 ≠ key.1 := by
    intro same
    rw [same, here] at there
    cases there
  have branch : DiskTrie.insertAt w b3 key.1 value (keyBits key.1) 0 t.root t =
      .ok ((t.put w b3 (.leaf key.1 value)).putBranch w b3 true
        (nodeHash w b3 (.leaf key.1 value)) hash) := by
    unfold DiskTrie.insertAt
    rw [levels_of_key key.2, root, if_neg full, row]
    simp only [if_neg other, drop_zero]
    rw [here, there, DiskTrie.splitLeaf, if_neg (by decide)]
    rfl
  unfold DiskTrie.insert
  rw [branch]
  rfl

theorem pruneOffline_zero {live : List Bytes}
    (some_old : (t.storage.pruneOldRoots t.version 0).2 ≠ 0)
    (walked : (t.storage.pruneOldRoots t.version 0).1.collectReachable w b3 t.root [] = live) :
    (t.pruneOffline w b3 0).1 =
      { t with storage := ((t.storage.pruneOldRoots t.version 0).1.gcOrphanedNodes live).1 } := by
  unfold DiskTrie.pruneOffline
  dsimp only
  rw [if_neg some_old, walked]
  simp [TrieStorage.collectVersions]

theorem delete_only_leaf {hash : Bytes} (root : t.root = hash)
    (full : hash ≠ emptyHash w b3 256) (row : t.getNode hash = some (.leaf key.1 hash)) :
    DiskTrie.delete w b3 key t = .ok () { t with root := emptyHash w b3 256 } := by
  have emptied : DiskTrie.deleteAt w b3 t.canonicalDelete key.1 (keyBits key.1) t.root t =
      .ok (some (.empty, t)) := by
    unfold DiskTrie.deleteAt
    rw [levels_of_key key.2, root, if_neg full, row]
    simp
  unfold DiskTrie.delete
  rw [emptied]
  dsimp only
  rw [Up.hash, levels_of_key key.2]

end

section
variable {w : Wire} {b3 : Bytes → Bytes} {t t' : DiskTrie} {rest : List TrieOp}
  {out : EStateM.Result SentrixError DiskTrie Unit}

theorem runAllDisk_insert {key : TrieKey} {value : Bytes}
    (ran : DiskTrie.insert w b3 key value t = .ok () t')
    (others : TrieOp.runAllDisk w b3 rest t' = out) :
    TrieOp.runAllDisk w b3 (.insert key value :: rest) t = out :=
  (bind_of_ok ran).trans others

theorem runAllDisk_delete {key : TrieKey} (ran : DiskTrie.delete w b3 key t = .ok () t')
    (others : TrieOp.runAllDisk w b3 rest t' = out) :
    TrieOp.runAllDisk w b3 (.delete key :: rest) t = out :=
  (bind_of_ok ran).trans others

theorem runAllDisk_commit {version : Nat} (stored : t' = t.commit version)
    (others : TrieOp.runAllDisk w b3 rest t' = out) :
    TrieOp.runAllDisk w b3 (.commit version :: rest) t = out :=
  (bind_of_ok (modify_ok.mpr stored)).trans others

end

/-- The root of the trie without keys. -/
def bareRoot : Bytes :=
  word256 0xcfd65818c2d271d133a0d6a3f4646e136db88ad0e013315f7f499daef878c64d

theorem bareRoot_empty : bareRoot = emptyHash pairWire pairBlake3 256 :=
  (@pair_emptyHash 256 _ rfl).symm

def lowStored (version : Nat) : DiskTrie :=
  ({ (DiskTrie.fresh pairWire pairBlake3 true).put pairWire pairBlake3 (.leaf lowKey.1 [1]) with
    root := nodeHash pairWire pairBlake3 (.leaf lowKey.1 [1]) } : DiskTrie).commit version

/-- The root over both keys waits to be written. -/
def halfWritten : DiskTrie :=
  let leaf := nodeHash pairWire pairBlake3 (.leaf highKey.1 [2])
  { ((lowStored 1).put pairWire pairBlake3 (.leaf highKey.1 [2])).put pairWire pairBlake3
      (.branch (word256 lowLeaf) leaf) with
    root := nodeHash pairWire pairBlake3 (.branch (word256 lowLeaf) leaf) }

def fallenVersion : DiskTrie :=
  ({ lowStored 5 with root := bareRoot } : DiskTrie).commit 3

theorem low_full : word256 lowLeaf ≠ emptyHash pairWire pairBlake3 256 := by
  rw [← bareRoot_empty]
  decide

theorem low_bits : keyBits lowKey.1 = false :: (keyBits lowKey.1).tail := by
  decide +kernel

theorem lowStored_row (version : Nat) : (lowStored version).root = word256 lowLeaf ∧
    (lowStored version).getNode (word256 lowLeaf) = some (.leaf lowKey.1 (word256 lowLeaf)) := by
  show (lowStored 0).root = _ ∧ (lowStored 0).getNode _ = _
  decide

theorem lowStored_run (version : Nat) {rest : List TrieOp}
    {out : EStateM.Result SentrixError DiskTrie Unit}
    (others : TrieOp.runAllDisk pairWire pairBlake3 rest (lowStored version) = out) :
    TrieOp.runAllDisk pairWire pairBlake3 (.insert lowKey [1] :: .commit version :: rest)
      (.fresh pairWire pairBlake3 true) = out := by
  have start : (DiskTrie.fresh pairWire pairBlake3 true).root =
      emptyHash pairWire pairBlake3 256 := by
    rw [DiskTrie.fresh]
  apply runAllDisk_insert (insert_into_empty start)
  exact runAllDisk_commit (by rw [lowStored]) others

theorem low_deleted (version : Nat) :
    DiskTrie.delete pairWire pairBlake3 lowKey (lowStored version) =
      .ok () { lowStored version with root := bareRoot } := by
  obtain ⟨root, row⟩ := lowStored_row version
  rw [bareRoot_empty]
  exact delete_only_leaf root low_full row

theorem halfWritten_run :
    TrieOp.runAllDisk pairWire pairBlake3 [.insert lowKey [1], .commit 1, .insert highKey [2]]
      (.fresh pairWire pairBlake3 true) = .ok () halfWritten := by
  obtain ⟨root, row⟩ := lowStored_row 1
  have high : keyBits highKey.1 = true :: (keyBits highKey.1).tail := by decide +kernel
  apply lowStored_run
  exact runAllDisk_insert (insert_beside_leaf root low_full row high low_bits) rfl

/-- What prune_offline deletes is read again when the current root waits to be written, and
when a retained root has a version above the current one. -/
theorem unwritten_lost :
    (TrieOp.runAllDisk pairWire pairBlake3 [.insert lowKey [1], .commit 1, .insert highKey [2]]
        (.fresh pairWire pairBlake3 true) = .ok () halfWritten ∧
      ((halfWritten.commit 2).reopened halfWritten.root).get pairWire pairBlake3 lowKey =
        .ok (some [1]) ∧
      (((halfWritten.pruneOffline pairWire pairBlake3 0).1.commit 2).reopened
        halfWritten.root).get pairWire pairBlake3 lowKey = .error (missingNode (word256 lowLeaf))) ∧
    TrieOp.runAllDisk pairWire pairBlake3 [.insert lowKey [1], .commit 5, .delete lowKey, .commit 3]
        (.fresh pairWire pairBlake3 true) = .ok () fallenVersion ∧
      fallenVersion.pendingNodes = ∅ ∧
      (fallenVersion.reopened (word256 lowLeaf)).get pairWire pairBlake3 lowKey = .ok (some [1]) ∧
      let pruned := (fallenVersion.pruneOffline pairWire pairBlake3 0).1
      pruned.storage.roots.lookup 5 = some (word256 lowLeaf) ∧
        (pruned.reopened (word256 lowLeaf)).get pairWire pairBlake3 lowKey =
          .error (missingNode (word256 lowLeaf)) := by
  have levels : (keyBits lowKey.1).tail.length = 255 := by decide +kernel
  have leafRead (t : DiskTrie) {bits : List Bool}
      (used : word256 lowLeaf ≠ emptyHash pairWire pairBlake3 bits.length) :
      (t.getNode (word256 lowLeaf) = none → t.getAt pairWire pairBlake3 lowKey.1
        bits (word256 lowLeaf) = .error (missingNode (word256 lowLeaf))) ∧
      (t.getNode (word256 lowLeaf) = some (.leaf lowKey.1 (word256 lowLeaf)) →
        t.loadValue (word256 lowLeaf) = some [1] → t.getAt pairWire pairBlake3
          lowKey.1 bits (word256 lowLeaf) = .ok (some [1])) := by
    unfold DiskTrie.getAt
    rw [if_neg used]
    refine ⟨fun gone => by rw [gone], fun row value => ?_⟩
    rw [row]
    simp only [if_pos, value]
  have below : word256 lowLeaf ≠ emptyHash pairWire pairBlake3 (keyBits lowKey.1).tail.length := by
    rw [levels, @pair_emptyHash 255 _ rfl]
    decide
  have whole : word256 lowLeaf ≠ emptyHash pairWire pairBlake3 (keyBits lowKey.1).length := by
    rw [levels_of_key lowKey.2]
    exact low_full
  have full : halfWritten.root ≠ emptyHash pairWire pairBlake3 256 := by
    rw [← bareRoot_empty]
    decide
  have reads (t : DiskTrie) (root : t.root = halfWritten.root)
      (row : t.getNode halfWritten.root = some (.internal (word256 lowLeaf) (word256 highLeaf))) :
      t.get pairWire pairBlake3 lowKey = t.getAt pairWire pairBlake3
        lowKey.1 (keyBits lowKey.1).tail (word256 lowLeaf) := by
    unfold DiskTrie.get
    rw [root, low_bits, DiskTrie.getAt, if_neg, row]
    · rfl
    · rw [length_cons, levels]
      exact full
  refine ⟨⟨halfWritten_run, ?_, ?_⟩, ?_, rfl, ?_, ?_⟩
  · rw [reads ((halfWritten.commit 2).reopened halfWritten.root) rfl (by decide +kernel)]
    exact (leafRead _ below).2 (by decide +kernel) (by decide +kernel)
  · -- the walk finds no row under the new root and marks nothing below it
    have missing : (halfWritten.storage.pruneOldRoots halfWritten.version 0).1.row
        halfWritten.root = none := by decide
    have live : (halfWritten.storage.pruneOldRoots halfWritten.version 0).1.collectReachable
        pairWire pairBlake3 halfWritten.root [] = [halfWritten.root] := by
      rw [TrieStorage.collectReachable, Marking.mark, if_neg (by simpa using full), missing]
    rw [pruneOffline_zero (by decide) live]
    generalize made : (({ halfWritten with
      storage := ((halfWritten.storage.pruneOldRoots halfWritten.version 0).1.gcOrphanedNodes
        [halfWritten.root]).1 } : DiskTrie).commit 2).reopened halfWritten.root = t
    have root : t.root = halfWritten.root := by rw [← made, DiskTrie.reopened]
    have row : t.getNode halfWritten.root =
        some (.internal (word256 lowLeaf) (word256 highLeaf)) := by
      rw [← made]
      decide +kernel
    have gone : t.getNode (word256 lowLeaf) = none := by
      rw [← made]
      decide +kernel
    rw [reads t root row]
    exact (leafRead t below).1 gone
  · apply lowStored_run
    apply runAllDisk_delete (low_deleted 5)
    exact runAllDisk_commit (by rw [fallenVersion]) rfl
  · exact (leafRead _ whole).2 (by decide) (by decide)
  · -- the walk stops at the current version, below the retained root
    have live : (fallenVersion.storage.pruneOldRoots fallenVersion.version 0).1.collectReachable
        pairWire pairBlake3 fallenVersion.root [] = [] := by
      rw [TrieStorage.collectReachable, Marking.mark, if_pos (.inl bareRoot_empty)]
    rw [pruneOffline_zero (by decide) live]
    dsimp only
    refine ⟨by decide, ?_⟩
    generalize made : ({ fallenVersion with
      storage := ((fallenVersion.storage.pruneOldRoots fallenVersion.version 0).1.gcOrphanedNodes
        []).1 } : DiskTrie).reopened (word256 lowLeaf) = t
    have root : t.root = word256 lowLeaf := by rw [← made, DiskTrie.reopened]
    have gone : t.getNode (word256 lowLeaf) = none := by
      rw [← made]
      decide
    unfold DiskTrie.get
    rw [root]
    exact (leafRead t whole).1 gone

end SentrixCore
