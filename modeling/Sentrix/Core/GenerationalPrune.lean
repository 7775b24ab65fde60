import Sentrix.Core.TriePrune

/-!
The background prune beside a trie that goes on committing. The prune works on a clone
of the trie and on the same store, one transaction at a time. A rejected block sets the
trie back to an earlier root; its version, when it was committed already, comes again.
-/
namespace SentrixCore
open HashTable Effects SentrixPrimitives SparseMerkle List

structure Snapshot where
  root : Bytes
  version : Nat
  keepVersions : Nat
  deriving DecidableEq

def Snapshot.cutoff (snap : Snapshot) : Nat :=
  snap.version - snap.keepVersions

inductive Pruner where
  | idle
  | cloned (snap : Snapshot)
  | dropping (snap : Snapshot) (old : List Nat)
  | walking (snap : Snapshot) (live : List Bytes) (todo : List (Nat × Bytes)) (next : Nat)
  | reaping (snap : Snapshot) (pass : GcTable) (live : List Bytes) (latest : Nat)
      (stale doomed known : List Bytes)
  | marking (snap : Snapshot) (pass : GcTable) (live : List Bytes) (latest : Nat)
      (orphans : List Bytes)
  deriving DecidableEq

namespace TrieStorage

def latestVersion (db : TrieStorage) : Option Nat :=
  db.roots.keys.max?

def tombstoned (db : TrieStorage) (pass : GcTable) : List Bytes :=
  db.tombstones.keys.filterMap fun entry => if entry.1 = pass then some entry.2 else none

def rowKeys (db : TrieStorage) : GcTable → List Bytes
  | .nodes => db.nodes.keys
  | .values => db.values.keys

def deleteRow (db : TrieStorage) (hash : Bytes) : GcTable → TrieStorage
  | .nodes => { db with nodes := db.nodes.erase hash }
  | .values => { db with values := db.values.erase hash }

def expired (db : TrieStorage) (pass : GcTable) (version : Nat) (hash : Bytes) : Bool :=
  match db.tombstones.lookup (pass, hash) with
  | some marked => marked < version
  | none => false

end TrieStorage

namespace Pruner
section
variable (w : Wire) (b3 : Bytes → Bytes)

theorem lawfulBEq_bytes : LawfulBEq Bytes :=
  inferInstance

attribute [local instance] lawfulBEq_bytes

def beginPass (db : TrieStorage) (snap : Snapshot) (pass : GcTable) (live : List Bytes)
    (fromVersion : Nat) : Pruner :=
  let latest := db.latestVersion.getD snap.version
  let live := db.collectVersions w b3 fromVersion latest live
  let known := db.tombstoned pass
  let clear := known.filter (· ∈ live)
  let reap := known.filter fun hash => hash ∉ live && db.expired pass snap.version hash
  .reaping snap pass live latest (clear ++ reap) reap known

def advance (db : TrieStorage) : Pruner → Pruner × TrieStorage
  | .idle => (.idle, db)
  | .cloned snap =>
    if snap.version ≤ snap.keepVersions then (.idle, db)
    else
      let old := db.roots.keys.filter (· ≤ snap.cutoff)
      if old = [] then (.idle, db) else (.dropping snap old, db)
  | .dropping snap (version :: old) =>
    (.dropping snap old, { db with roots := db.roots.erase version })
  | .dropping snap [] => (.walking snap [] [(256, snap.root)] (snap.cutoff + 1), db)
  | .walking snap live (first :: todo) next =>
    let out := Marking.visit (emptyHash w b3) db.row (live, first :: todo)
    (.walking snap out.1 out.2 next, db)
  | .walking snap live [] next =>
    if next ≤ snap.version then
      let todo := match db.roots.lookup next with
        | some root => if root ∈ live then [] else [(256, root)]
        | none => []
      (.walking snap live todo (next + 1), db)
    else (beginPass w b3 db snap .nodes live (snap.version + 1), db)
  | .reaping snap pass live latest (hash :: stale) doomed known =>
    (.reaping snap pass live latest stale doomed known,
      { db with tombstones := db.tombstones.erase (pass, hash) })
  | .reaping snap pass live latest [] (hash :: doomed) known =>
    (.reaping snap pass live latest [] doomed known, db.deleteRow hash pass)
  | .reaping snap pass live latest [] [] known =>
    let orphans := (db.rowKeys pass).filter fun hash => hash ∉ live && hash ∉ known
    (.marking snap pass live latest orphans, db)
  | .marking snap pass live latest (hash :: orphans) =>
    (.marking snap pass live latest orphans,
      { db with tombstones := db.tombstones.insert (pass, hash) snap.version })
  | .marking snap .nodes live latest [] =>
    (beginPass w b3 db snap .values live (latest + 1), db)
  | .marking _ .values _ _ [] => (.idle, db)

end

def deleting : Pruner → Bool
  | .reaping _ _ _ _ _ (_ :: _) _ => true
  | _ => false

end Pruner

/-- The live trie with its store, its last commit, and the one background prune. -/
structure PrunedTrie where
  trie : DiskTrie
  committed : Option (Nat × Bytes)
  pruner : Pruner
  deriving DecidableEq

inductive PruneEvent where
  | write (op : TrieOp)
  | setRoot (target : Bytes)
  | schedule (keepVersions : Nat)
  | advance

namespace PrunedTrie

/-- Each commit is above all before, and the trie goes back to the last one only. -/
def inOrder (s : PrunedTrie) : PruneEvent → Bool
  | .write (.commit version) => s.committed.all fun last => last.1 < version
  | .setRoot target => s.committed.map Prod.snd = some target
  | _ => true

section
variable (w : Wire) (b3 : Bytes → Bytes)

/-- No commit falls between the augment step of a pass and its last deletion. A prune is
scheduled after a commit, with nothing written since. -/
def step (s : PrunedTrie) : PruneEvent → Option PrunedTrie
  | .write (.commit version) =>
    if s.pruner.deleting then none
    else some { s with trie := s.trie.commit version, committed := some (version, s.trie.root) }
  | .setRoot target => some { s with trie := { s.trie with root := target } }
  | .write op => some { s with trie := finalState (op.runDisk w b3) s.trie }
  | .schedule keepVersions =>
    if s.pruner = .idle ∧ s.committed = some (s.trie.version, s.trie.root) then
      some { s with pruner := .cloned ⟨s.trie.root, s.trie.version, keepVersions⟩ }
    else none
  | .advance =>
    let out := s.pruner.advance w b3 s.trie.storage
    some { s with pruner := out.1, trie := { s.trie with storage := out.2 } }

/-- The events as far as they are admitted. -/
def run (may : PrunedTrie → PruneEvent → Bool) (events : List PruneEvent) (s : PrunedTrie) :
    Option PrunedTrie :=
  events.foldlM (fun s event => if may s event then s.step w b3 event else none) s

def fresh (canonical : Bool) : PrunedTrie :=
  ⟨.fresh w b3 canonical, none, .idle⟩

end

end PrunedTrie

section
open DiskTrie (OfTree OnDisk AllOnDisk Ready Reached Marks NoneBeyond)

section
variable (w : Wire) (b3 : Bytes → Bytes) (U : Set TrieNode) (db : TrieStorage)
  (committed : Option (Nat × Bytes)) (snap : Snapshot)

/-- The snapshot is the last commit, or the last commit is a stored root after it. -/
def Newer : Prop :=
  ∃ version root, committed = some (version, root) ∧
    (version = snap.version ∧ root = snap.root ∨
      snap.version < version ∧ db.roots.lookup version = some root)

def Walkable : Prop :=
  ∃ tree, OfTree w b3 U snap.root tree ∧ AllOnDisk w b3 db tree

/-- The live set has the snapshot and every root up to the latest it was brought up to. -/
structure Settled (live : List Bytes) (latest : Nat) : Prop where
  marks : Marks w b3 U db live
  newer : Newer db committed snap
  ofTree : ∃ tree, OfTree w b3 U snap.root tree
  snapshot : Reached w b3 live [] snap.root
  upTo : ∀ v root, db.roots.lookup v = some root → v ≤ latest → Reached w b3 live [] root
  bound : ∀ v root, committed = some (v, root) → latest ≤ v

/-- The roots that are left, and how far they have been walked. -/
structure Walked (live : List Bytes) (todo : List (Nat × Bytes)) (next : Nat) : Prop where
  newer : Newer db committed snap
  walkable : Walkable w b3 U db snap
  recent : ∀ v root, db.roots.lookup v = some root → snap.cutoff < v
  low : snap.cutoff < next
  high : next ≤ snap.version + 1
  walk : Marking.Walk keyBits (nodeHash w b3) U db.row live todo
  snapshot : Reached w b3 live todo snap.root
  before : ∀ v root, db.roots.lookup v = some root → v < next → Reached w b3 live todo root

end

def Pruning (w : Wire) (b3 : Bytes → Bytes) (U : Set TrieNode) (db : TrieStorage)
    (committed : Option (Nat × Bytes)) : Pruner → Prop
  | .idle => True
  | .cloned snap => Newer db committed snap ∧ Walkable w b3 U db snap
  | .dropping snap old => Newer db committed snap ∧ Walkable w b3 U db snap ∧
      (∀ v ∈ old, v ≤ snap.cutoff) ∧
      ∀ v root, db.roots.lookup v = some root → v ≤ snap.cutoff → v ∈ old
  | .walking snap live todo next => Walked w b3 U db committed snap live todo next
  | .reaping snap _ live latest _ doomed _ => Settled w b3 U db committed snap live latest ∧
      (∀ hash ∈ doomed, hash ∉ live) ∧
      (doomed ≠ [] → ∀ v root, db.roots.lookup v = some root → Reached w b3 live [] root)
  | .marking snap _ live latest _ => Settled w b3 U db committed snap live latest

section
variable {w : Wire} {b3 : Bytes → Bytes} {U : Set TrieNode} {t : DiskTrie}
  {tree base : TrieTree} {db db' : TrieStorage} {committed : Option (Nat × Bytes)} {snap : Snapshot}
  {live : List Bytes} {todo : List (Nat × Bytes)} {next latest : Nat} {pruner : Pruner} {v : Nat}
  {root : Bytes}

theorem Newer.version_le (newer : Newer db committed snap) (last : committed = some (v, root)) :
    snap.version ≤ v := by
  obtain ⟨v', root', same, later⟩ := newer
  cases last.symm.trans same
  rcases later with ⟨rfl, -⟩ | ⟨later, -⟩
  · exact Nat.le_refl _
  · exact Nat.le_of_lt later

theorem Newer.of_roots (newer : Newer db committed snap)
    (kept : ∀ v root, snap.version < v → db.roots.lookup v = some root →
      db'.roots.lookup v = some root) : Newer db' committed snap := by
  obtain ⟨v, root, same, later⟩ := newer
  exact ⟨v, root, same, later.imp_right fun ⟨after, found⟩ => ⟨after, kept v root after found⟩⟩

theorem reached_more {more : List (Nat × Bytes)} (reached : Reached w b3 live [] root) :
    Reached w b3 live more root := by
  rcases reached with bare | marked | ⟨_, impossible⟩
  · exact .inl bare
  · exact .inr (.inl marked)
  · cases impossible

theorem Settled.last (settled : Settled w b3 U db committed snap live latest)
    (all : ∀ v root, db.roots.lookup v = some root → Reached w b3 live [] root)
    (last : committed = some (v, root)) : Reached w b3 live [] root := by
  obtain ⟨v', root', same, later⟩ := settled.newer
  cases last.symm.trans same
  rcases later with ⟨-, rfl⟩ | ⟨-, found⟩
  · exact settled.snapshot
  · exact all v root found

theorem beginPass_pruning {pass : GcTable} {first : Nat} (free : Free w b3 U)
    (stored : ∀ v root, db.roots.lookup v = some root →
      ∃ kept, OfTree w b3 U root kept ∧ AllOnDisk w b3 db kept)
    (below : ∀ v root, db.roots.lookup v = some root →
      ∀ last lastRoot, committed = some (last, lastRoot) → v ≤ last)
    (marks : Marks w b3 U db live) (newer : Newer db committed snap)
    (ofTree : ∃ tree, OfTree w b3 U snap.root tree)
    (snapshot : Reached w b3 live [] snap.root)
    (upTo : ∀ v root, db.roots.lookup v = some root → v < first → Reached w b3 live [] root) :
    Pruning w b3 U db committed (Pruner.beginPass w b3 db snap pass live first) := by
  obtain ⟨marked, all⟩ := DiskTrie.collectVersions_marked free stored marks first
    (db.latestVersion.getD snap.version)
  have every : ∀ v root, db.roots.lookup v = some root →
      Reached w b3 (db.collectVersions w b3 first (db.latestVersion.getD snap.version) live)
        [] root := by
    intro v root found
    by_cases early : v < first
    · obtain ⟨kept, of, -⟩ := stored v root found
      exact marked.kept of (upTo v root found early)
    · refine all v (Nat.le_of_not_lt early) ?_ root found
      have key : v ∈ db.roots.keys := AList.lookup_isSome.mp (by rw [found]; rfl)
      unfold TrieStorage.latestVersion
      cases top : db.roots.keys.max? with
      | none =>
        rw [List.max?_eq_none_iff.mp top] at key
        cases key
      | some => exact (List.max?_eq_some_iff.mp top).2 v key
  refine ⟨⟨marked.marks, newer, ofTree, ?_, fun v root found _ => every v root found, ?_⟩, ?_, ?_⟩
  · obtain ⟨tree, of⟩ := ofTree
    exact marked.kept of snapshot
  · intro last lastRoot same
    unfold TrieStorage.latestVersion
    cases top : db.roots.keys.max? with
    | none => exact newer.version_le same
    | some top' =>
      have key := (List.max?_eq_some_iff.mp top).1
      obtain ⟨root, found⟩ := Option.isSome_iff_exists.mp (AList.lookup_isSome.mpr key)
      exact below top' root found last lastRoot same
  · intro hash doomed
    have test := (List.mem_filter.mp doomed).2
    rw [Bool.and_eq_true, decide_eq_true_iff] at test
    exact test.1
  · exact fun _ => every

theorem lookup_roots_commit {version : Nat} :
    (t.commit version).storage.roots.lookup v =
      if v = version then some t.root else t.storage.roots.lookup v := by
  by_cases same : v = version
  · subst same
    simp [DiskTrie.commit, DiskTrie.flushTrieBatch, AList.lookup_insert]
  · simp [DiskTrie.commit, DiskTrie.flushTrieBatch, AList.lookup_insert_ne same, same]

theorem lookup_before {version : Nat} (old : v < version)
    (found : (t.commit version).storage.roots.lookup v = some root) :
    t.storage.roots.lookup v = some root := by
  rwa [lookup_roots_commit, if_neg (Nat.ne_of_lt old)] at found

theorem row_commit {version : Nat} {node : TrieNode} (free : Free w b3 U)
    (buffered : DiskTrie.Buffered w b3 U t) (inside : node ∈ U)
    (stored : t.storage.row (nodeHash w b3 node) =
      some (Marking.rowOf (nodeHash w b3) node)) :
    (t.commit version).storage.row (nodeHash w b3 node) =
      some (Marking.rowOf (nodeHash w b3) node) := by
  simp only [TrieStorage.row, DiskTrie.commit, DiskTrie.flushTrieBatch, lookup_overlay] at stored ⊢
  cases found : t.pendingNodes.lookup (nodeHash w b3 node) with
  | none => exact stored
  | some row =>
    rcases buffered.nodes _ row found with ⟨k, v, member, same, rfl⟩ | ⟨l, r, member, same, rfl⟩
    · cases free inside member same
      rfl
    · cases free inside member same
      rfl

theorem walk_commit {version : Nat} (free : Free w b3 U) (buffered : DiskTrie.Buffered w b3 U t)
    (walk : Marking.Walk keyBits (nodeHash w b3) U t.storage.row live todo) :
    Marking.Walk keyBits (nodeHash w b3) U (t.commit version).storage.row live todo :=
  walk.grow fun _ _ known stored p part =>
    row_commit free buffered (known.within.nodes p part) (stored p part)

theorem Walkable.commit {version : Nat} (free : Free w b3 U)
    (buffered : DiskTrie.Buffered w b3 U t) (walkable : Walkable w b3 U t.storage snap) :
    Walkable w b3 U (t.commit version).storage snap := by
  obtain ⟨kept, of, disk⟩ := walkable
  exact ⟨kept, of, fun p part => DiskTrie.onDisk_commit.mpr
    (DiskTrie.has_of_onDisk free buffered (of.inside.nodes p part) (disk p part))⟩

section
variable {version : Nat} (later : ∀ v root, committed = some (v, root) → v < version)
include later

theorem Newer.lt_version (newer : Newer db committed snap) : snap.version < version := by
  obtain ⟨v, root, same, -⟩ := id newer
  exact (newer.version_le same).trans_lt (later v root same)

theorem Newer.commit (newer : Newer t.storage committed snap) :
    Newer (t.commit version).storage (some (version, t.root)) snap :=
  ⟨version, t.root, rfl, .inr ⟨newer.lt_version later, by rw [lookup_roots_commit, if_pos rfl]⟩⟩

theorem Settled.commit (settled : Settled w b3 U t.storage committed snap live latest) :
    Settled w b3 U (t.commit version).storage (some (version, t.root)) snap live latest := by
  have top : latest < version := by
    obtain ⟨v, root, same, -⟩ := settled.newer
    exact (settled.bound v root same).trans_lt (later v root same)
  refine ⟨⟨settled.marks.closed, nofun⟩, settled.newer.commit later, settled.ofTree,
    settled.snapshot, fun v root found early => ?_, fun v root same => ?_⟩
  · exact settled.upTo v root (lookup_before (early.trans_lt top) found) early
  · cases same
    exact Nat.le_of_lt top

theorem Walked.commit (free : Free w b3 U) (buffered : DiskTrie.Buffered w b3 U t)
    (walked : Walked w b3 U t.storage committed snap live todo next) :
    Walked w b3 U (t.commit version).storage (some (version, t.root)) snap live todo next := by
  have after := walked.newer.lt_version later
  refine ⟨walked.newer.commit later, walked.walkable.commit free buffered, fun v root found => ?_,
    walked.low, walked.high, walk_commit free buffered walked.walk, walked.snapshot,
    fun v root found early => ?_⟩
  · rcases Nat.lt_or_ge v version with old | new
    · exact walked.recent v root (lookup_before old found)
    · exact (Nat.sub_le _ _).trans_lt (after.trans_le new)
  · have old : v < version := by
      have := walked.high
      omega
    exact walked.before v root (lookup_before old found) early

theorem pruning_commit (free : Free w b3 U)
    (buffered : DiskTrie.Buffered w b3 U t) (quiet : pruner.deleting = false)
    (pruning : Pruning w b3 U t.storage committed pruner) :
    Pruning w b3 U (t.commit version).storage (some (version, t.root)) pruner := by
  cases pruner with
  | idle => trivial
  | cloned => exact ⟨pruning.1.commit later, pruning.2.commit free buffered⟩
  | dropping _ old =>
    obtain ⟨newer, walkable, low, all⟩ := pruning
    refine ⟨newer.commit later, walkable.commit free buffered, low, fun v root found early => ?_⟩
    have old : v < version := (early.trans (Nat.sub_le _ _)).trans_lt (newer.lt_version later)
    exact all v root (lookup_before old found) early
  | walking => exact pruning.commit later free buffered
  | reaping _ _ _ _ _ doomed =>
    cases doomed with
    | nil => exact ⟨pruning.1.commit later, nofun, fun none => absurd rfl none⟩
    | cons => cases quiet
  | marking => exact pruning.commit later

end

theorem DiskTrie.Ready.restored (ready : Ready w b3 U t tree base)
    (onDisk : AllOnDisk w b3 db' base)
    (roots : ∀ v root, db'.roots.lookup v = some root →
      ∃ kept, OfTree w b3 U root kept ∧ AllOnDisk w b3 db' kept) :
    Ready w b3 U { t with storage := db' } tree base :=
  ⟨ready.current, ready.committed, onDisk,
    fun p part => (ready.since p part).imp_left fun has => by cases p <;> exact has,
    ⟨ready.buffered.nodes, ready.buffered.values⟩, roots⟩

variable {hash : Bytes} {pass : GcTable}

theorem onDisk_deleteRow {node : TrieNode} (other : nodeHash w b3 node ≠ hash)
    (disk : OnDisk w b3 db node) : OnDisk w b3 (db.deleteRow hash pass) node := by
  cases pass <;> cases node <;>
    first
    | trivial
    | simpa only [OnDisk, TrieStorage.deleteRow, AList.lookup_erase_ne other] using disk

theorem roots_deleteRow : (db.deleteRow hash pass).roots = db.roots := by
  cases pass <;> rfl

/-- What a transaction leaves: the trie is as ready as before, no root is new, and the
prune is where it says. -/
structure Advanced (w : Wire) (b3 : Bytes → Bytes) (U : Set TrieNode) (t : DiskTrie)
    (tree base : TrieTree) (committed : Option (Nat × Bytes)) (out : Pruner × TrieStorage) :
    Prop where
  ready : Ready w b3 U { t with storage := out.2 } tree base
  roots : ∀ v root, out.2.roots.lookup v = some root → t.storage.roots.lookup v = some root
  pruning : Pruning w b3 U out.2 committed out.1

theorem Advanced.same (ready : Ready w b3 U t tree base)
    (nodes : db'.nodes = t.storage.nodes) (values : db'.values = t.storage.values)
    (roots : db'.roots = t.storage.roots) (pruning : Pruning w b3 U db' committed pruner) :
    Advanced w b3 U t tree base committed (pruner, db') := by
  have disk {kept : TrieTree} (on : AllOnDisk w b3 t.storage kept) :
      AllOnDisk w b3 db' kept :=
    fun p part => (DiskTrie.onDisk_rows nodes values).mpr (on p part)
  refine ⟨ready.restored (disk ready.onDisk) fun v root found => ?_, fun v root found => ?_,
    pruning⟩
  · rw [roots] at found
    obtain ⟨kept, of, on⟩ := ready.roots v root found
    exact ⟨kept, of, disk on⟩
  · exact roots ▸ found

theorem Settled.of_roots (settled : Settled w b3 U db committed snap live latest)
    (roots : db'.roots = db.roots) : Settled w b3 U db' committed snap live latest := by
  refine ⟨⟨settled.marks.closed, nofun⟩, settled.newer.of_roots ?_, settled.ofTree,
    settled.snapshot, ?_, settled.bound⟩
  · rw [roots]
    exact fun _ _ _ found => found
  · rw [roots]
    exact settled.upTo

/-- From this stage the prune goes on without taking away what has to stay. -/
abbrev Keeping (w : Wire) (b3 : Bytes → Bytes) (U : Set TrieNode) (t : DiskTrie)
    (tree base : TrieTree) (committed : Option (Nat × Bytes)) (pruner : Pruner) : Prop :=
  Pruning w b3 U t.storage committed pruner →
    Advanced w b3 U t tree base committed (pruner.advance w b3 t.storage)

variable (free : Free w b3 U) (ready : Ready w b3 U t tree base)
include free ready

omit free in
theorem advance_cloned : Keeping w b3 U t tree base committed (.cloned snap) := by
  intro pruning
  rw [Pruner.advance]
  split_ifs
  · exact .same ready rfl rfl rfl trivial
  · dsimp only
    split_ifs
    · exact .same ready rfl rfl rfl trivial
    · refine .same ready rfl rfl rfl ⟨pruning.1, pruning.2, fun v old => ?_, ?_⟩
      · exact of_decide_eq_true (List.mem_filter.mp old).2
      · intro v root found low
        have key : v ∈ t.storage.roots.keys := AList.lookup_isSome.mp (by rw [found]; rfl)
        exact List.mem_filter.mpr ⟨key, decide_eq_true low⟩

omit free in
theorem advance_drop {version : Nat} {old : List Nat} :
    Keeping w b3 U t tree base committed (.dropping snap (version :: old)) := by
  intro pruning
  obtain ⟨newer, ⟨walked, of, disk⟩, low, all⟩ := pruning
  have older : ∀ v root, (t.storage.roots.erase version).lookup v = some root →
      v ≠ version ∧ t.storage.roots.lookup v = some root := by
    intro v root found
    by_cases same : v = version
    · subst same
      rw [AList.lookup_erase] at found
      cases found
    · exact ⟨same, (AList.lookup_erase_ne same).symm.trans found⟩
  refine ⟨ready.restored ready.onDisk fun v root found => ?_, fun v root found => ?_,
    newer.of_roots ?_, ⟨walked, of, disk⟩, fun v member => ?_, ?_⟩
  · exact ready.roots v root (older v root found).2
  · exact (older v root found).2
  · intro v root later found
    have top := low version mem_cons_self
    have other : v ≠ version := by
      unfold Snapshot.cutoff at top
      omega
    exact (AList.lookup_erase_ne other).trans found
  · exact low v (mem_cons_of_mem _ member)
  · intro v root found early
    obtain ⟨other, found⟩ := older v root found
    rcases List.mem_cons.mp (all v root found early) with same | member
    · exact absurd same other
    · exact member

omit free in
theorem advance_walk : Keeping w b3 U t tree base committed (.dropping snap []) := by
  intro pruning
  obtain ⟨newer, ⟨walked, of, disk⟩, -, all⟩ := pruning
  have recent : ∀ v root, t.storage.roots.lookup v = some root → snap.cutoff < v := by
    intro v root found
    by_contra early
    exact nomatch all v root found (Nat.le_of_not_lt early)
  have start := (@DiskTrie.marks_nil w b3 U t.storage).push of.known
    (DiskTrie.stored_of_disk disk)
  rw [← of.root] at start
  refine .same ready rfl rfl rfl ⟨newer, ⟨walked, of, disk⟩, recent, Nat.lt_succ_self _, ?_, start,
    .inr (.inr ⟨256, mem_cons_self⟩), fun v root found early => ?_⟩
  · exact Nat.succ_le_succ (Nat.sub_le _ _)
  · exact absurd (recent v root found) (Nat.not_lt.mpr (Nat.le_of_lt_succ early))

theorem advance_visit {first : Nat × Bytes} :
    Keeping w b3 U t tree base committed (.walking snap live (first :: todo) next) := by
  intro pruning
  obtain ⟨newer, walkable, recent, low, high, walk, snapshot, before⟩ := pruning
  have step {root : Bytes} {kept : TrieTree} (of : OfTree w b3 U root kept)
      (reached : Reached w b3 live (first :: todo) root) :=
    (DiskTrie.covered_iff free of).mp
      (((DiskTrie.covered_iff free of).mpr reached).visit free walk of.known)
  refine .same ready rfl rfl rfl ⟨newer, walkable, recent, low, high, walk.visit free, ?_, ?_⟩
  · obtain ⟨kept, of, -⟩ := walkable
    exact step of snapshot
  · intro v root found early
    obtain ⟨kept, of, -⟩ := ready.roots v root found
    exact step of (before v root found early)

omit free in
theorem advance_next (more : next ≤ snap.version) :
    Keeping w b3 U t tree base committed (.walking snap live [] next) := by
  intro pruning
  obtain ⟨newer, walkable, recent, low, high, walk, snapshot, before⟩ := pruning
  rw [Pruner.advance, if_pos more]
  dsimp only
  have earlier {more : List (Nat × Bytes)} : ∀ v root, t.storage.roots.lookup v = some root →
      v < next → Reached w b3 live more root :=
    fun v root found early => reached_more (before v root found early)
  cases found : t.storage.roots.lookup next with
  | none =>
    refine .same ready rfl rfl rfl ⟨newer, walkable, recent, low.trans (Nat.lt_succ_self _),
      Nat.succ_le_succ more, walk, snapshot, fun v root present early => ?_⟩
    rcases Nat.lt_succ_iff_lt_or_eq.mp early with early | rfl
    · exact earlier v root present early
    · rw [found] at present
      cases present
  | some root =>
    obtain ⟨kept, of, disk⟩ := ready.roots next root found
    have here {todo : List (Nat × Bytes)} (reached : Reached w b3 live todo root) :
        ∀ v root, t.storage.roots.lookup v = some root → v < next + 1 →
          Reached w b3 live todo root := by
      intro v root' present early
      rcases Nat.lt_succ_iff_lt_or_eq.mp early with early | rfl
      · exact earlier v root' present early
      · cases found.symm.trans present
        exact reached
    dsimp only
    split
    · rename_i inside
      exact .same ready rfl rfl rfl ⟨newer, walkable, recent, low.trans (Nat.lt_succ_self _),
        Nat.succ_le_succ more, walk, snapshot, here (.inr (.inl inside))⟩
    · have pushed := walk.push of.known (DiskTrie.stored_of_disk disk)
      rw [← of.root] at pushed
      exact .same ready rfl rfl rfl ⟨newer, walkable, recent, low.trans (Nat.lt_succ_self _),
        Nat.succ_le_succ more, pushed, reached_more snapshot,
        here (.inr (.inr ⟨256, mem_cons_self⟩))⟩

variable (below : ∀ v root, t.storage.roots.lookup v = some root →
  ∀ last lastRoot, committed = some (last, lastRoot) → v ≤ last)
include below

theorem advance_pass (done : snap.version < next) :
    Keeping w b3 U t tree base committed (.walking snap live [] next) := by
  intro pruning
  obtain ⟨newer, ⟨walked, of, -⟩, recent, low, high, walk, snapshot, before⟩ := pruning
  rw [Pruner.advance, if_neg (Nat.not_le.mpr done)]
  refine .same ready rfl rfl rfl (beginPass_pruning free ready.roots below walk newer ⟨walked, of⟩
    snapshot fun v root found early => ?_)
  exact before v root found (Nat.lt_of_lt_of_le early done)

theorem advance_marked :
    Keeping w b3 U t tree base committed (.marking snap pass live latest []) := by
  intro pruning
  cases pass with
  | values => exact .same ready rfl rfl rfl trivial
  | nodes =>
    refine .same ready rfl rfl rfl (beginPass_pruning free ready.roots below pruning.marks
      pruning.newer pruning.ofTree pruning.snapshot fun v root found early => ?_)
    exact pruning.upTo v root found (Nat.le_of_lt_succ early)

omit below

theorem advance_delete {doomed known : List Bytes}
    (last : ∀ v root, committed = some (v, root) → root = base.root (nodeHash w b3) 256) :
    Keeping w b3 U t tree base committed
      (.reaping snap pass live latest [] (hash :: doomed) known) := by
  intro pruning
  obtain ⟨settled, unmarked, every⟩ := pruning
  have all := every nofun
  have gone := unmarked hash mem_cons_self
  have keeps {root : Bytes} {kept : TrieTree} (of : OfTree w b3 U root kept)
      (reached : Reached w b3 live [] root) (on : AllOnDisk w b3 t.storage kept) :
      AllOnDisk w b3 (t.storage.deleteRow hash pass) kept := by
    intro p part
    have marked := settled.marks.marked free of reached p part
    exact onDisk_deleteRow (fun same => gone (same ▸ marked)) (on p part)
  have baseReached : Reached w b3 live [] (base.root (nodeHash w b3) 256) := by
    obtain ⟨v, root, same, -⟩ := settled.newer
    rw [← last v root same]
    exact settled.last all same
  have before : ∀ v root, (t.storage.deleteRow hash pass).roots.lookup v = some root →
      t.storage.roots.lookup v = some root := by
    rw [roots_deleteRow]
    exact fun _ _ found => found
  refine ⟨ready.restored (keeps ready.committed baseReached ready.onDisk) fun v root found => ?_,
    before, settled.of_roots roots_deleteRow, fun other member => ?_, fun _ v root found => ?_⟩
  · obtain ⟨kept, of, on⟩ := ready.roots v root (before v root found)
    exact ⟨kept, of, keeps of (all v root (before v root found)) on⟩
  · exact unmarked other (mem_cons_of_mem _ member)
  · exact all v root (before v root found)

include below in
/-- Whatever the prune is doing, its next transaction keeps what has to stay. -/
theorem advance_kept
    (last : ∀ v root, committed = some (v, root) → root = base.root (nodeHash w b3) 256) :
    Keeping w b3 U t tree base committed pruner := by
  intro pruning
  cases pruner with
  | idle => exact .same ready rfl rfl rfl trivial
  | cloned => exact advance_cloned ready pruning
  | dropping _ old =>
    cases old with
    | nil => exact advance_walk ready pruning
    | cons => exact advance_drop ready pruning
  | walking snap _ todo next =>
    cases todo with
    | cons => exact advance_visit free ready pruning
    | nil =>
      rcases Nat.lt_or_ge snap.version next with done | more
      · exact advance_pass free ready below done pruning
      · exact advance_next ready more pruning
  | reaping _ _ _ _ stale doomed =>
    obtain ⟨settled, unmarked, all⟩ := pruning
    cases stale with
    | cons => exact .same ready rfl rfl rfl ⟨settled.of_roots rfl, unmarked, all⟩
    | nil =>
      cases doomed with
      | nil => exact .same ready rfl rfl rfl settled
      | cons => exact advance_delete free ready last ⟨settled, unmarked, all⟩
  | marking _ _ _ _ orphans =>
    cases orphans with
    | cons => exact .same ready rfl rfl rfl (pruning.of_roots rfl)
    | nil => exact advance_marked free ready below pruning

end

namespace PrunedTrie

structure Sound (w : Wire) (b3 : Bytes → Bytes) (U : Set TrieNode) (s : PrunedTrie)
    (tree base : TrieTree) : Prop where
  ready : Ready w b3 U s.trie tree base
  below : ∀ v root, s.trie.storage.roots.lookup v = some root →
    ∃ last lastRoot, s.committed = some (last, lastRoot) ∧ v ≤ last
  last : ∀ v root, s.committed = some (v, root) → root = base.root (nodeHash w b3) 256
  pruning : Pruning w b3 U s.trie.storage s.committed s.pruner

variable {w : Wire} {b3 : Bytes → Bytes} {U : Set TrieNode} {s s' : PrunedTrie}
  {tree base : TrieTree} (free : Free w b3 U)
  (sound : Sound w b3 U s tree base)
include free sound

theorem commit_sound {version : Nat} (quiet : s.pruner.deleting = false)
    (above : s.committed.all (fun last => last.1 < version) = true) :
    Sound w b3 U { s with trie := s.trie.commit version, committed := some (version, s.trie.root) }
      tree tree := by
  have later : ∀ v root, s.committed = some (v, root) → v < version := by
    intro v root same
    rw [same] at above
    exact of_decide_eq_true above
  refine ⟨DiskTrie.commit_ready sound.ready free, fun v root found => ?_, fun v root same => ?_,
    pruning_commit later free sound.ready.buffered quiet sound.pruning⟩
  · refine ⟨version, s.trie.root, rfl, ?_⟩
    by_contra beyond
    rw [lookup_roots_commit, if_neg (fun same => beyond same.le)] at found
    obtain ⟨last, lastRoot, same, under⟩ := sound.below v root found
    exact beyond (under.trans (later last lastRoot same).le)
  · cases same
    exact sound.ready.current.root

omit free in
theorem setRoot_sound {target : Bytes} (back : s.committed.map Prod.snd = some target) :
    Sound w b3 U { s with trie := { s.trie with root := target } } base base := by
  obtain ⟨⟨v, root⟩, last, rfl⟩ := Option.map_eq_some_iff.mp back
  have ready := sound.ready
  refine ⟨⟨?_, ready.committed, ready.onDisk, fun p part => .inr part,
    ⟨ready.buffered.nodes, ready.buffered.values⟩, ready.roots⟩, sound.below, sound.last,
    sound.pruning⟩
  dsimp only
  rw [sound.last v root last]
  exact ready.committed

omit free in
theorem schedule_sound {keepVersions : Nat}
    (fresh : s.committed = some (s.trie.version, s.trie.root)) :
    Sound w b3 U { s with pruner := .cloned ⟨s.trie.root, s.trie.version, keepVersions⟩ }
      tree base := by
  refine ⟨sound.ready, sound.below, sound.last, ⟨_, _, fresh, .inl ⟨rfl, rfl⟩⟩, base, ?_,
    sound.ready.onDisk⟩
  have same := sound.last _ _ fresh
  dsimp only
  rw [same]
  exact sound.ready.committed

theorem advance_sound :
    Sound w b3 U
      { s with
        pruner := (s.pruner.advance w b3 s.trie.storage).1
        trie := { s.trie with storage := (s.pruner.advance w b3 s.trie.storage).2 } }
      tree base := by
  have under : ∀ v root, s.trie.storage.roots.lookup v = some root →
      ∀ last lastRoot, s.committed = some (last, lastRoot) → v ≤ last := by
    intro v root found last lastRoot same
    obtain ⟨last', lastRoot', same', under⟩ := sound.below v root found
    cases same.symm.trans same'
    exact under
  have advanced := advance_kept free sound.ready under sound.last sound.pruning
  exact ⟨advanced.ready, fun v root found => sound.below v root (advanced.roots v root found),
    sound.last, advanced.pruning⟩

theorem write_sound {op : TrieOp} (held : ∀ version, op ≠ .commit version)
    (after : Inside w b3 U 256 (TrieOp.onTree (s.trie.canonicalDelete, tree) op).2) :
    let t := finalState (op.runDisk w b3) s.trie
    t.canonicalDelete = (TrieOp.onTree (s.trie.canonicalDelete, tree) op).1 ∧
      Sound w b3 U { s with trie := t }
        (TrieOp.onTree (s.trie.canonicalDelete, tree) op).2 base := by
  obtain ⟨t', ran, mode, did⟩ := DiskTrie.op_ready op sound.ready free after
  rw [finalState_ok ran]
  have kept (same : t'.storage = s.trie.storage)
      (ready : Ready w b3 U t' (TrieOp.onTree (s.trie.canonicalDelete, tree) op).2 base) :
      Sound w b3 U { s with trie := t' }
        (TrieOp.onTree (s.trie.canonicalDelete, tree) op).2 base :=
    ⟨ready, same ▸ sound.below, sound.last, same ▸ sound.pruning⟩
  cases op with
  | commit version => exact absurd rfl (held version)
  | insert => exact ⟨mode, kept did.1 did.2.2⟩
  | delete => exact ⟨mode, kept did.1 did.2.2⟩
  | setCanonicalDelete => exact ⟨mode, kept did.1 did.2.2⟩

end PrunedTrie

/-- The mode, the working tree and the tree committed last. -/
def PruneEvent.onTrees (state : Bool × TrieTree × TrieTree) :
    PruneEvent → Bool × TrieTree × TrieTree
  | .write (.commit _) => (state.1, state.2.1, state.2.1)
  | .write op =>
    let next := TrieOp.onTree (state.1, state.2.1) op
    (next.1, next.2, state.2.2)
  | .setRoot _ => (state.1, state.2.2, state.2.2)
  | _ => state

def prunedNodes (w : Wire) (b3 : Bytes → Bytes) (canonical : Bool) (events : List PruneEvent) :
    Set TrieNode :=
  {p | p ∈ Tree.emptyPreimages (nodeHash w b3) 256 ∨
    ∃ done, done <+: events ∧ p ∈ (done.foldl PruneEvent.onTrees
      (canonical, .empty, .empty)).2.1.nodes (nodeHash w b3) 256}

namespace PrunedTrie
section
variable {w : Wire} {b3 : Bytes → Bytes} {U : Set TrieNode} {s s' : PrunedTrie}
  {tree base : TrieTree}

theorem step_sound (free : Free w b3 U) {event : PruneEvent}
    (sound : Sound w b3 U s tree base) (may : s.inOrder event = true)
    (after : Inside w b3 U 256 (event.onTrees (s.trie.canonicalDelete, tree, base)).2.1)
    (took : s.step w b3 event = some s') :
    s'.trie.canonicalDelete = (event.onTrees (s.trie.canonicalDelete, tree, base)).1 ∧
      Sound w b3 U s' (event.onTrees (s.trie.canonicalDelete, tree, base)).2.1
        (event.onTrees (s.trie.canonicalDelete, tree, base)).2.2 := by
  cases event with
  | write op =>
    cases op with
    | commit =>
      rw [step] at took
      split_ifs at took with busy
      cases took
      exact ⟨rfl, commit_sound free sound (Bool.eq_false_iff.mpr busy) may⟩
    | insert | delete | setCanonicalDelete =>
      cases took
      exact write_sound free sound nofun after
  | setRoot =>
    cases took
    exact ⟨rfl, setRoot_sound sound (of_decide_eq_true may)⟩
  | schedule =>
    rw [step] at took
    split_ifs at took with ready
    cases took
    exact ⟨rfl, schedule_sound sound ready.2⟩
  | advance =>
    cases took
    exact ⟨rfl, advance_sound free sound⟩

theorem run_sound (free : Free w b3 U) (events : List PruneEvent) (sound : Sound w b3 U s tree base)
    (after : ∀ done, done <+: events → Inside w b3 U 256
      (done.foldl PruneEvent.onTrees (s.trie.canonicalDelete, tree, base)).2.1)
    (ran : run w b3 inOrder events s = some s') :
    ∃ tree' base', Sound w b3 U s' tree' base' := by
  induction events generalizing s tree base with
  | nil =>
    cases ran
    exact ⟨tree, base, sound⟩
  | cons event rest ih =>
    obtain ⟨mid, took, others⟩ := Option.bind_eq_some_iff.mp ran
    dsimp only at took
    split_ifs at took with may
    obtain ⟨mode, sound'⟩ := step_sound free sound may
      (after [event] (prefix_append [event] rest)) took
    refine ih sound' (fun done part => ?_) others
    rw [mode]
    exact after (event :: done) ((prefix_cons_inj event).mpr part)

theorem fresh_sound {canonical : Bool}
    (empties : ∀ p ∈ Tree.emptyPreimages (nodeHash w b3) 256, p ∈ U) :
    Sound w b3 U (fresh w b3 canonical) .empty .empty :=
  ⟨DiskTrie.fresh_ready empties, nofun, nofun, trivial⟩

end
end PrunedTrie
end

/-- In every run of operations on the trie, of commits at rising versions, of returns to
the last commit and of prunes one after another, every row that is read from a stored root
or from the last committed root is in the store. -/
theorem generational_prune_safe {w : Wire} {b3 : Bytes → Bytes} (canonical : Bool)
    (events : List PruneEvent)
    (free : Set.InjOn (nodeHash w b3) (prunedNodes w b3 canonical events))
    {s : PrunedTrie}
    (ran : PrunedTrie.run w b3 PrunedTrie.inOrder events (.fresh w b3 canonical) = some s) :
    (∀ v root, s.trie.storage.roots.lookup v = some root →
      ∀ entry ∈ (s.trie.reopened root).reachable w b3 256 root,
        s.trie.storage.has entry = true) ∧
    ∀ v root, s.committed = some (v, root) →
      ∀ entry ∈ (s.trie.reopened root).reachable w b3 256 root,
        s.trie.storage.has entry = true := by
  have within (done : List PruneEvent) (part : done <+: events) :
      Tree.Within (nodeHash w b3) (prunedNodes w b3 canonical events) 256
        (done.foldl PruneEvent.onTrees (canonical, .empty, .empty)).2.1 :=
    ⟨fun p inside => .inr ⟨done, part, inside⟩, fun p inside => .inl inside⟩
  obtain ⟨tree, base, sound⟩ := PrunedTrie.run_sound free events
    (PrunedTrie.fresh_sound (within [] nil_prefix).empties) within ran
  have there {root : Bytes} {kept : TrieTree}
      (of : DiskTrie.OfTree w b3 (prunedNodes w b3 canonical events) root kept)
      (disk : DiskTrie.AllOnDisk w b3 s.trie.storage kept) :=
    @DiskTrie.reachable_on_disk _ _ _ (s.trie.reopened root) _ _ _ free of
      (fun p part => DiskTrie.has_reopened (disk p part)) disk
  constructor
  · intro v root found
    obtain ⟨kept, of, disk⟩ := sound.ready.roots v root found
    exact there of disk
  · intro v root last
    obtain rfl := sound.last v root last
    exact there sound.ready.committed sound.ready.onDisk

def prunedBeside : List PruneEvent :=
  [.write (.insert lowKey [1]), .write (.insert highKey [2]), .write (.commit 1), .schedule 0,
    .advance, .write (.delete lowKey), .write (.commit 2), .advance, .advance, .advance]

theorem prunedBeside_listed : prunedNodes pairWire pairBlake3 true prunedBeside ⊆
    listedNodes pairNodes [] := by
  have inside : ∀ done ∈ prunedBeside.inits, ∀ p ∈ (done.foldl PruneEvent.onTrees
      (true, .empty, .empty)).2.1.nodes (listedHash pairNodes []) 256, p ∈ pairNodes.map (·.1) := by
    decide
  unfold prunedNodes
  rw [nodeHash_listed pairSha]
  rintro p (empty | ⟨done, part, hashed⟩)
  · exact .inl empty
  · exact .inr (inside done ((mem_inits _ _).mpr part) p hashed)

namespace PrunedTrie
section
variable {w : Wire} {b3 : Bytes → Bytes} {may : PrunedTrie → PruneEvent → Bool}
  {s mid : PrunedTrie} {rest : List PruneEvent}

theorem run_cons {event : PruneEvent} (admitted : may s event = true)
    (took : s.step w b3 event = some mid) :
    run w b3 may (event :: rest) s = run w b3 may rest mid := by
  show (if may s event then s.step w b3 event else none).bind _ = _
  rw [if_pos admitted, took]
  rfl

theorem run_insert {key : TrieKey} {value : Bytes} {t : DiskTrie}
    (admitted : may s (.write (.insert key value)) = true)
    (ran : DiskTrie.insert w b3 key value s.trie = .ok () t) :
    run w b3 may (.write (.insert key value) :: rest) s = run w b3 may rest { s with trie := t } := by
  have done := congrArg (fun t => some { s with trie := t }) (finalState_ok ran)
  exact run_cons admitted done

theorem run_delete {key : TrieKey} {t : DiskTrie} (admitted : may s (.write (.delete key)) = true)
    (ran : DiskTrie.delete w b3 key s.trie = .ok () t) :
    run w b3 may (.write (.delete key) :: rest) s = run w b3 may rest { s with trie := t } := by
  have done := congrArg (fun t => some { s with trie := t }) (finalState_ok ran)
  exact run_cons admitted done

theorem run_commit {version : Nat} (admitted : may s (.write (.commit version)) = true)
    (quiet : s.pruner.deleting = false) :
    run w b3 may (.write (.commit version) :: rest) s = run w b3 may rest
      { s with trie := s.trie.commit version, committed := some (version, s.trie.root) } :=
  run_cons admitted (if_neg (by simp [quiet]))

theorem run_schedule {keepVersions : Nat} (admitted : may s (.schedule keepVersions) = true)
    (ready : s.pruner = .idle ∧ s.committed = some (s.trie.version, s.trie.root)) :
    run w b3 may (.schedule keepVersions :: rest) s = run w b3 may rest
      { s with pruner := .cloned ⟨s.trie.root, s.trie.version, keepVersions⟩ } :=
  run_cons admitted (if_pos ready)

end
end PrunedTrie

theorem Pruner.advance_cloned_quiet {w : Wire} {b3 : Bytes → Bytes} {db : TrieStorage}
    {snap : Snapshot} : ((Pruner.cloned snap).advance w b3 db).1.deleting = false := by
  rw [Pruner.advance]
  split_ifs
  · rfl
  · dsimp only
    split_ifs <;> rfl

theorem prunedBeside_runs (w : Wire) (b3 : Bytes → Bytes) :
    ∃ s, PrunedTrie.run w b3 PrunedTrie.inOrder prunedBeside (.fresh w b3 true) = some s ∧
      s.committed.map Prod.fst = some 2 := by
  unfold prunedBeside
  rw [PrunedTrie.run_cons rfl rfl, PrunedTrie.run_cons rfl rfl, PrunedTrie.run_commit rfl rfl,
    PrunedTrie.run_schedule rfl ⟨rfl, rfl⟩, PrunedTrie.run_cons rfl rfl,
    PrunedTrie.run_cons rfl rfl, PrunedTrie.run_commit rfl Pruner.advance_cloned_quiet,
    PrunedTrie.run_cons rfl rfl, PrunedTrie.run_cons rfl rfl, PrunedTrie.run_cons rfl rfl]
  exact ⟨_, rfl, rfl⟩

theorem prunedBeside_kept :
    ∃ s v root, PrunedTrie.run pairWire pairBlake3 PrunedTrie.inOrder prunedBeside
        (.fresh pairWire pairBlake3 true) = some s ∧ s.committed = some (v, root) ∧
      ∀ entry ∈ (s.trie.reopened root).reachable pairWire pairBlake3 256 root,
        s.trie.storage.has entry = true := by
  obtain ⟨s, ran, version⟩ := prunedBeside_runs pairWire pairBlake3
  obtain ⟨⟨v, root⟩, last, -⟩ := Option.map_eq_some_iff.mp version
  exact ⟨s, v, root, ran, last, (generational_prune_safe true prunedBeside
    (pairFree.mono prunedBeside_listed) ran).2 v root last⟩

/-- A store that has seen the low key's leaf alone, under the roots and tombstones given. -/
def lowStore (kept : Bool) (roots : List (Nat × Bytes)) (tombstones : List (GcTable × Nat)) :
    TrieStorage where
  nodes := if kept then (∅ : Table Bytes StoredNode).insert (word256 lowLeaf)
    (.leaf lowKey.1 (word256 lowLeaf)) else ∅
  values := (∅ : Table Bytes Bytes).insert (word256 lowLeaf) [1]
  roots := roots.foldr (fun row t => t.insert row.1 row.2) ∅
  tombstones := tombstones.foldr (fun row t => t.insert (row.1, word256 lowLeaf) row.2) ∅

namespace TrieStorage

def SameRows (db db' : TrieStorage) : Prop :=
  db.nodes.pairs = db'.nodes.pairs ∧ db.values.pairs = db'.values.pairs ∧
    db.roots.pairs = db'.roots.pairs ∧ db.tombstones.pairs = db'.tombstones.pairs

instance (db db' : TrieStorage) : Decidable (SameRows db db') :=
  inferInstanceAs (Decidable (_ ∧ _))

theorem SameRows.eq {db db' : TrieStorage} (same : SameRows db db') : db = db' := by
  have table {κ ν : Type} {t t' : Table κ ν} (pairs : t.pairs = t'.pairs) : t = t' := by
    apply AList.ext
    refine map_injective_iff.mpr ?_ pairs
    rintro ⟨a, b⟩ ⟨c, d⟩ equal
    cases equal
    rfl
  obtain ⟨nodes, values, roots, tombstones⟩ := same
  cases db
  cases db'
  rw [mk.injEq]
  exact ⟨table nodes, table values, table roots, table tombstones⟩

end TrieStorage

theorem collectVersions_bare {w : Wire} {b3 : Bytes → Bytes} {db : TrieStorage} {v : Nat}
    {root : Bytes} (found : db.roots.lookup v = some root) (bare : root = emptyHash w b3 256) :
    db.collectVersions w b3 v v [] = [] := by
  have one : v + 1 - v = 1 := by omega
  rw [TrieStorage.collectVersions, one, range'_one, foldl_cons, foldl_nil,
    TrieStorage.collectVersion, found]
  simp only [not_mem_nil, if_false]
  rw [TrieStorage.collectReachable, Marking.mark, if_pos (.inl bare)]

namespace PrunedTrie

def anyOrder : PrunedTrie → PruneEvent → Bool := fun _ _ => true

def Reaches (events : List PruneEvent) (s s' : PrunedTrie) : Prop :=
  ∀ rest, run pairWire pairBlake3 anyOrder (events ++ rest) s =
    run pairWire pairBlake3 anyOrder rest s'

abbrev advances (n : Nat) : List PruneEvent := replicate n .advance

/-- The trie at its last commit, over such a store. -/
def resting (root : Bytes) (version : Nat) (db : TrieStorage) (pruner : Pruner) : PrunedTrie :=
  ⟨⟨root, version, true, ∅, ∅, db⟩, some (version, root), pruner⟩

/-- The next transactions of a prune. -/
def walk (n : Nat) (pruner : Pruner) (db : TrieStorage) : Pruner × TrieStorage :=
  (fun p : Pruner × TrieStorage => p.1.advance pairWire pairBlake3 p.2)^[n] (pruner, db)

/-- So the prune moves, over stores with the same rows. -/
def Walks (n : Nat) (pruner : Pruner) (db : TrieStorage) (pruner' : Pruner) (db' : TrieStorage) :
    Prop :=
  (walk n pruner db).1 = pruner' ∧ (walk n pruner db).2.SameRows db'

instance (n : Nat) (pruner pruner' : Pruner) (db db' : TrieStorage) :
    Decidable (Walks n pruner db pruner' db') :=
  inferInstanceAs (Decidable (_ ∧ _))

section
variable {events events' : List PruneEvent} {s mid s' : PrunedTrie} {root : Bytes} {version : Nat}
  {db db' : TrieStorage} {pruner pruner' : Pruner}

theorem Reaches.trans (first : Reaches events s mid) (second : Reaches events' mid s') :
    Reaches (events ++ events') s s' := by
  intro rest
  rw [append_assoc, first, second]

theorem reaches_advances (n : Nat) (moved : Walks n pruner db pruner' db') :
    Reaches (advances n) (resting root version db pruner)
      (resting root version db' pruner') := by
  have walked : Reaches (advances n) (resting root version db pruner)
      (resting root version (walk n pruner db).2 (walk n pruner db).1) := by
    intro rest
    clear moved
    induction n generalizing pruner db with
    | zero => rfl
    | succ n ih =>
      rw [advances, replicate_succ, cons_append, run_cons rfl rfl]
      exact ih
  rw [moved.1, moved.2.eq] at walked
  exact walked

/-- The walk from the bare root ends at once. -/
theorem reaches_visit {next : Nat} {snap : Snapshot} :
    Reaches [.advance] (resting root version db (.walking snap [] [(256, bareRoot)] next))
      (resting root version db (.walking snap [] [] next)) := by
  have ends : Marking.visit (emptyHash pairWire pairBlake3) db.row
      ([], [(256, bareRoot)]) = ([], []) := by
    rw [Marking.visit_cons, if_pos (.inl bareRoot_empty)]
  intro rest
  apply run_cons rfl
  rw [step]
  dsimp only [resting]
  rw [Pruner.advance, ends]

theorem reaches_commit (next : Nat) (quiet : pruner.deleting = false) :
    Reaches [.write (.commit next)] (resting root version db pruner)
      (resting root next { db with roots := db.roots.insert next root } pruner) :=
  fun _ => run_commit rfl quiet

end

def snap (version : Nat) : Snapshot := ⟨bareRoot, version, 1⟩

/-- The rows carry the mark of the first prune. -/
abbrev markedStore (roots : List (Nat × Bytes)) : TrieStorage :=
  lowStore true roots [(.values, 2), (.nodes, 2)]

abbrev scheduled : PrunedTrie :=
  resting bareRoot 2 (lowStore true [(2, bareRoot), (1, word256 lowLeaf)] []) (.cloned (snap 2))

abbrev firstPruned : PrunedTrie :=
  resting bareRoot 2 (markedStore [(2, bareRoot)]) .idle

abbrev walked : PrunedTrie :=
  resting bareRoot 4 (markedStore [(4, bareRoot), (3, bareRoot)]) (.walking (snap 3) [] [] 4)

abbrev nodesReaped : PrunedTrie :=
  resting bareRoot 4 (lowStore false [(4, bareRoot), (3, bareRoot)] [(.values, 2)])
    (.marking (snap 3) .nodes [] 4 [])

def firstWrites : List PruneEvent :=
  [.write (.insert lowKey [1]), .write (.commit 1), .write (.delete lowKey), .write (.commit 2),
    .schedule 1]

/-- A first prune marks the rows of a deleted key. A block that is rejected commits during the
walk of the second, and between its passes another block stores the key at the same height. -/
def reusedVersion : List PruneEvent :=
  firstWrites ++ advances 13 ++ [.write (.commit 3), .schedule 1] ++
    advances 6 ++ [.write (.commit 4), .setRoot bareRoot] ++ advances 4 ++
    [.write (.insert lowKey [1]), .write (.commit 4)] ++ advances 3

theorem firstWrites_reach :
    Reaches firstWrites (.fresh pairWire pairBlake3 true) scheduled := by
  have start : (DiskTrie.fresh pairWire pairBlake3 true).root =
      emptyHash pairWire pairBlake3 256 := by
    rw [DiskTrie.fresh]
  have rows : (({ lowStored 1 with root := bareRoot } : DiskTrie).commit 2).storage =
      lowStore true [(2, bareRoot), (1, word256 lowLeaf)] [] := by
    apply TrieStorage.SameRows.eq
    decide +kernel
  intro rest
  refine Eq.trans (run_insert rfl (insert_into_empty start)) ?_
  refine Eq.trans (run_commit rfl rfl) ?_
  refine Eq.trans (run_delete rfl (low_deleted 1)) ?_
  refine Eq.trans (run_commit rfl rfl) ?_
  refine Eq.trans (run_schedule rfl ⟨rfl, rfl⟩) ?_
  rw [scheduled, resting, ← rows]
  rfl

theorem firstPrune_reach : Reaches (advances 13) scheduled firstPruned := by
  have dropped : Walks 3 (.cloned (snap 2))
      (lowStore true [(2, bareRoot), (1, word256 lowLeaf)] [])
      (.walking (snap 2) [] [(256, bareRoot)] 2) (lowStore true [(2, bareRoot)] []) := by
    decide +kernel
  have next : Walks 1 (.walking (snap 2) [] [] 2) (lowStore true [(2, bareRoot)] [])
      (.walking (snap 2) [] [(256, bareRoot)] 3) (lowStore true [(2, bareRoot)] []) := by
    decide +kernel
  have marked : Walks 7 (.walking (snap 2) [] [] 3) (lowStore true [(2, bareRoot)] [])
      .idle (lowStore true [(2, bareRoot)] [(.values, 2), (.nodes, 2)]) := by
    decide +kernel
  exact ((((reaches_advances 3 dropped).trans reaches_visit).trans
    (reaches_advances 1 next)).trans reaches_visit).trans (reaches_advances 7 marked)

theorem secondWalk_reach : Reaches
    ([.write (.commit 3), .schedule 1] ++ advances 6 ++
      [.write (.commit 4), .setRoot bareRoot]) firstPruned walked := by
  have again : Reaches [.write (.commit 3), .schedule 1] firstPruned
      (resting bareRoot 3 (markedStore [(3, bareRoot), (2, bareRoot)]) (.cloned (snap 3))) :=
    (reaches_commit 3 rfl).trans fun _ => run_schedule rfl ⟨rfl, rfl⟩
  have dropped : Walks 3 (.cloned (snap 3))
      (markedStore [(3, bareRoot), (2, bareRoot)]) (.walking (snap 3) [] [(256, bareRoot)] 3)
      (markedStore [(3, bareRoot)]) := by
    decide +kernel
  have next : Walks 1 (.walking (snap 3) [] [] 3) (markedStore [(3, bareRoot)])
      (.walking (snap 3) [] [(256, bareRoot)] 4) (markedStore [(3, bareRoot)]) := by
    decide +kernel
  exact ((((again.trans (reaches_advances 3 dropped)).trans reaches_visit).trans
    (reaches_advances 1 next)).trans reaches_visit).trans
      ((reaches_commit 4 rfl).trans fun _ => run_cons rfl rfl)

/-- The nodes pass sees the rejected commit, and deletes the leaf's row. -/
theorem nodesPass_reach : Reaches (advances 4) walked nodesReaped := by
  unfold walked
  generalize store : markedStore [(4, bareRoot), (3, bareRoot)] = db
  have found : db.roots.lookup 4 = some bareRoot := by
    rw [← store]
    decide +kernel
  have latest : db.latestVersion = some 4 := by
    rw [← store]
    decide +kernel
  have live : db.collectVersions pairWire pairBlake3 4 4 [] = [] :=
    collectVersions_bare found bareRoot_empty
  -- the live set stands in decidability proofs too, so it is replaced as a variable
  have begins (live : List Bytes) (same : db.collectVersions pairWire pairBlake3 4 4 [] = live) :
      Pruner.beginPass pairWire pairBlake3 db (snap 3) .nodes [] 4 =
        let reap := (db.tombstoned .nodes).filter fun hash =>
          hash ∉ live && db.expired .nodes 3 hash
        .reaping (snap 3) .nodes live 4
          ((db.tombstoned .nodes).filter (· ∈ live) ++ reap) reap (db.tombstoned .nodes) := by
    subst same
    rw [Pruner.beginPass, latest]
    rfl
  have begun : Walks 1 (.walking (snap 3) [] [] 4) db
      (.reaping (snap 3) .nodes [] 4 [word256 lowLeaf] [word256 lowLeaf] [word256 lowLeaf]) db := by
    refine ⟨?_, rfl, rfl, rfl, rfl⟩
    show Pruner.beginPass pairWire pairBlake3 db (snap 3) .nodes [] 4 = _
    rw [begins [] live, ← store]
    decide +kernel
  have reaped : Walks 3
      (.reaping (snap 3) .nodes [] 4 [word256 lowLeaf] [word256 lowLeaf] [word256 lowLeaf]) db
      (.marking (snap 3) .nodes [] 4 [])
      (lowStore false [(4, bareRoot), (3, bareRoot)] [(.values, 2)]) := by
    rw [← store]
    decide +kernel
  exact (reaches_advances 1 begun).trans (reaches_advances 3 reaped)

/-- The leaf comes back under the version the values pass takes for seen. -/
theorem secondWrite_reach : Reaches [.write (.insert lowKey [1]), .write (.commit 4)] nodesReaped
    (resting (word256 lowLeaf) 4
      (lowStore true [(4, word256 lowLeaf), (3, bareRoot)] [(.values, 2)])
      (.marking (snap 3) .nodes [] 4 [])) := by
  have rows : ({ nodesReaped.trie.put pairWire pairBlake3 (.leaf lowKey.1 [1]) with
      root := nodeHash pairWire pairBlake3 (.leaf lowKey.1 [1]) } : DiskTrie).flushTrieBatch 4 =
      lowStore true [(4, word256 lowLeaf), (3, bareRoot)] [(.values, 2)] := by
    apply TrieStorage.SameRows.eq
    decide +kernel
  have leaf : nodeHash pairWire pairBlake3 (.leaf lowKey.1 [1]) = word256 lowLeaf := by
    decide +kernel
  have stored := @insert_into_empty pairWire pairBlake3 nodesReaped.trie lowKey [1] bareRoot_empty
  intro rest
  rw [cons_append, run_insert rfl stored, singleton_append, run_commit rfl rfl, resting, ← rows,
    ← leaf]
  rfl

/-- With a version committed twice the value of a row that came back is deleted under the
latest root. -/
theorem reused_version_loses_value :
    ∃ s, run pairWire pairBlake3 anyOrder reusedVersion (.fresh pairWire pairBlake3 true) = some s ∧
      s.committed = some (4, word256 lowLeaf) ∧
      (.values, word256 lowLeaf) ∈ (s.trie.reopened (word256 lowLeaf)).reachable pairWire
        pairBlake3 256 (word256 lowLeaf) ∧
      s.trie.storage.has (.values, word256 lowLeaf) = false := by
  have swept : Walks 3 (.marking (snap 3) .nodes [] 4 [])
      (lowStore true [(4, word256 lowLeaf), (3, bareRoot)] [(.values, 2)])
      (.reaping (snap 3) .values [] 4 [] [] [word256 lowLeaf])
      { lowStore true [(4, word256 lowLeaf), (3, bareRoot)] [] with values := ∅ } := by
    decide +kernel
  have whole := ((((firstWrites_reach.trans firstPrune_reach).trans secondWalk_reach).trans
    nodesPass_reach).trans secondWrite_reach).trans (reaches_advances 3 swept) []
  refine ⟨_, whole, rfl, ?_, by decide⟩
  have row : ((resting (word256 lowLeaf) 4 { lowStore true [(4, word256 lowLeaf), (3, bareRoot)] []
      with values := ∅ } .idle).trie.reopened (word256 lowLeaf)).getNode (word256 lowLeaf) =
        some (.leaf lowKey.1 (word256 lowLeaf)) := by decide
  rw [DiskTrie.reachable, if_neg low_full]
  simp only [resting] at row ⊢
  rw [row]
  simp

end PrunedTrie
end SentrixCore
