import Sentrix.Core.TriePrune

/-!
The trie on disk against the plain one, and what its commits make durable. A commit binds
its version to the root of its moment, and nothing later takes that tree off the disk.
-/
namespace SentrixCore
open HashTable Effects SentrixPrimitives SparseMerkle List

namespace DiskTrie
section
variable {w : Wire} {b3 : Bytes → Bytes} {canonical : Bool} {U : Set TrieNode} {t t' : DiskTrie}
  {ops : List TrieOp}

/-- The root of a version is the one its last commit found. -/
def VersionsKept (w : Wire) (b3 : Bytes → Bytes) (canonical : Bool) (ops : List TrieOp)
    (t : DiskTrie) : Prop :=
  ∀ done version later, ops = done ++ .commit version :: later → .commit version ∉ later →
    t.storage.roots.lookup version =
      some ((TrieOp.treeOf canonical done).2.root (nodeHash w b3) 256)

theorem VersionsKept.step {op : TrieOp} (kept : VersionsKept w b3 canonical ops t)
    (bound : ∀ version, op = .commit version → t'.storage.roots.lookup version =
      some ((TrieOp.treeOf canonical ops).2.root (nodeHash w b3) 256))
    (others : ∀ version, op ≠ .commit version →
      t'.storage.roots.lookup version = t.storage.roots.lookup version) :
    VersionsKept w b3 canonical (ops ++ [op]) t' := by
  intro done version later split last
  rcases eq_nil_or_concat' later with rfl | ⟨before, newest, rfl⟩
  · obtain ⟨rfl, same⟩ := append_inj' split rfl
    exact bound version (head_eq_of_cons_eq same)
  · rw [← cons_append, ← append_assoc] at split
    obtain ⟨earlier, same⟩ := append_inj' split rfl
    cases head_eq_of_cons_eq same
    have apart : op ≠ .commit version := fun same => last (by simp [same])
    rw [others version apart]
    exact kept done version before earlier fun member => last (mem_append_left _ member)

theorem run_versions (free : Free w b3 U)
    (within : ∀ done, done <+: ops → Inside w b3 U 256 (TrieOp.treeOf canonical done).2) :
    ∃ t base, TrieOp.runAllDisk w b3 ops (.fresh w b3 canonical) = .ok () t ∧
      t.canonicalDelete = (TrieOp.treeOf canonical ops).1 ∧
      Ready w b3 U t (TrieOp.treeOf canonical ops).2 base ∧
      VersionsKept w b3 canonical ops t := by
  induction ops using List.reverseRecOn with
  | nil =>
    exact ⟨_, .empty, rfl, rfl, fresh_ready (within [] nil_prefix).empties, by simp [VersionsKept]⟩
  | append_singleton ops op ih =>
    obtain ⟨t, base, ran, mode, ready, kept⟩ :=
      ih fun done part => within done (part.trans (prefix_append ops [op]))
    have tree : TrieOp.treeOf canonical (ops ++ [op]) =
        TrieOp.onTree (t.canonicalDelete, (TrieOp.treeOf canonical ops).2) op := by
      rw [mode]
      exact foldl_append
    have after := within _ prefix_rfl
    rw [tree] at after ⊢
    obtain ⟨t', stepped, mode', did⟩ := op_ready op ready free after
    have ran' : TrieOp.runAllDisk w b3 (ops ++ [op]) (.fresh w b3 canonical) = .ok () t' :=
      (congrFun forM_append _).trans ((bind_of_ok ran).trans ((bind_of_ok stepped).trans rfl))
    -- between commits no root changes
    have quiet (storage : t'.storage = t.storage) (writes : ∀ version, op ≠ .commit version) :
        VersionsKept w b3 canonical (ops ++ [op]) t' :=
      kept.step (fun version same => absurd same (writes version)) fun _ _ => by rw [storage]
    cases op with
    | insert | delete | setCanonicalDelete =>
      exact ⟨t', _, ran', mode', did.2.2, quiet did.1 (by simp)⟩
    | commit v =>
      obtain ⟨rfl, readied⟩ := did
      refine ⟨_, _, ran', mode', readied, kept.step ?_ fun version apart => ?_⟩
      · rintro version ⟨⟩
        rw [← ready.current.root]
        exact AList.lookup_insert _
      · exact AList.lookup_insert_ne fun same => apart (same ▸ rfl)

end
end DiskTrie

/-- Whatever inserts, deletes and commits do to a trie on disk, it has the root, the answers
and the proofs of the plain trie; and a reader that opens the store at a committed version,
the buffers lost, finds for every key what was there at that version's last commit. -/
theorem disk_trie_durable {w : Wire} {b3 : Bytes → Bytes} (sizes : Hashes32 w b3)
    (canonical : Bool) (ops : List TrieOp)
    (free : Set.InjOn (nodeHash w b3) (hashedNodes w b3 canonical ops)) :
    ∃ t s, TrieOp.runAllDisk w b3 ops (.fresh w b3 canonical) = .ok () t ∧
      TrieOp.runAll w b3 ops (.fresh w b3 canonical) = .ok () s ∧ t.root = s.root ∧
      (∀ key, t.get w b3 key = .ok (TrieOp.mapOf ops key) ∧
        t.prove w b3 key = s.prove w b3 key) ∧
      ∀ done version later, ops = done ++ .commit version :: later →
        .commit version ∉ later → ∃ root, t.storage.roots.lookup version = some root ∧
          ∀ key, (t.reopened root).get w b3 key = .ok (TrieOp.mapOf done key) := by
  have within (done : List TrieOp) (part : done <+: ops) : Tree.Within (nodeHash w b3)
      (hashedNodes w b3 canonical ops) 256 (TrieOp.treeOf canonical done).2 :=
    ⟨fun p inside => .inr ⟨done, part, inside⟩, fun p inside => .inl inside⟩
  obtain ⟨t, base, ran, -, ready, versions⟩ := DiskTrie.run_versions free within
  obtain ⟨s, ran', rep⟩ := run_represents sizes canonical ops free subset_rfl
  have held := ready.held free
  refine ⟨t, s, ran, ran', ready.current.root.trans rep.root.symm, fun key => ⟨?_, ?_⟩, ?_⟩
  · rw [DiskTrie.get_tree free ready.current held, find_treeOf]
  · rw [DiskTrie.prove_tree free ready.current held, rep.prove sizes free]
  · intro done version later split last
    have found := versions done version later split last
    refine ⟨_, found, fun key => ?_⟩
    obtain ⟨kept, of, disk⟩ := ready.roots version _ found
    -- the tree that is kept for this root answers like the one that was committed
    rw [DiskTrie.get_tree (t := t.reopened _) free of fun p part =>
        DiskTrie.has_reopened (disk p part), ← find_treeOf canonical]
    exact congrArg _ (Tree.find_of_root_eq free of.inside
      (within done (split ▸ prefix_append ..)) of.root.symm _)

theorem lowDropped_durable :
    ∃ t root, TrieOp.runAllDisk pairWire pairBlake3 lowDropped
        (.fresh pairWire pairBlake3 true) = .ok () t ∧
      t.get pairWire pairBlake3 lowKey = .ok none ∧
      t.storage.roots.lookup 1 = some root ∧
      (t.reopened root).get pairWire pairBlake3 lowKey = .ok (some [1]) := by
  obtain ⟨t, s, ran, -, -, reads, kept⟩ := disk_trie_durable pairSizes true lowDropped
    (pairFree.mono lowDropped_listed)
  obtain ⟨root, found, old⟩ := kept bothInserted 1 [.delete lowKey, .commit 2] rfl (by simp)
  exact ⟨t, root, ran, (reads lowKey).1, found, old lowKey⟩

end SentrixCore
