import Sentrix.Core.Atomicity
import Sentrix.Core.ListedDigests
import Sentrix.Core.Replay
import Sentrix.Core.Touched
import Sentrix.Core.TwinRuns

/-!
The trie and the accounts. A block collects its touched addresses while it is applied
and writes them to the trie at the end, after the bookkeeping.
-/
namespace SentrixCore
open MachineWords HashTable Effects SentrixPrimitives SparseMerkle List

/-- Library facts: the two hashes have 32 bytes, SHA-256 does not collide on the texts
of the keys of these addresses, and neither hash on these nodes. -/
structure TrieLibraries (env : Platform) (b3 : Bytes → Bytes) (A : Set Address)
    (U : Set TrieNode) : Prop where
  ops : ∃ contractsHash nftHash, env.trie = sparseOps env.wire b3 contractsHash nftHash
  hex : HexDigests env.wire
  leaves : ∀ m, (b3 m).length = 32
  keys : Set.InjOn (digest env.wire) (Set.image (KeyName.text env.wire.unicode) (KeyName.among A))
  nodes : Set.InjOn (nodeHash env.wire b3) U

namespace Blockchain

def WritesFrom (env : Platform) (s : Submission) (bc start : Blockchain) : Prop :=
  ∃ verified body booked,
    (bc.entering s.source false).checkHeader env s.now s.block = .ok verified ∧
      applyBody env s.now s.block (bc.entering s.source verified) = .ok () body ∧
      bookkeeping env (pushBlock s.block body) = .ok () booked ∧
      start = rebaseTreasury env.settings booked

def blockNames (env : Platform) (b : Block) (start : Blockchain) : List KeyName :=
  start.stateNames env.forks (start.touchedAddresses env.forks env.settings b) b.index

def blockWrites (env : Platform) (b : Block) (start : Blockchain) : List TrieWrite :=
  start.stateWrites env.wire env.forks env.trie
    (start.touchedAddresses env.forks env.settings b) b.index

def committedTrie (env : Platform) (b : Block) (start : Blockchain) (t : SentrixTrie) : SentrixTrie :=
  finalState (commitWrites env.forks env.trie (blockWrites env b start) b.index) t

def writtenTree (env : Platform) (b : Block) (start : Blockchain) (tree : TrieTree) : TrieTree :=
  treeWrites (reached env.forks.canonicalDelete b.index) (blockWrites env b start) tree

/-- The addresses the block names are in the one set, and the nodes hashed for its writes
in the other. -/
structure Contained (env : Platform) (b3 : Bytes → Bytes) (A : Set Address) (U : Set TrieNode)
    (s : Submission) (bc : Blockchain) (tree : TrieTree) : Prop where
  names : ∀ start, WritesFrom env s bc start → ∀ n ∈ blockNames env s.block start, n ∈ KeyName.among A
  nodes : ∀ start, WritesFrom env s bc start → ∀ done, done <+: blockWrites env s.block start →
    Tree.Within (nodeHash env.wire b3) U 256
      (treeWrites (reached env.forks.canonicalDelete s.block.index) done tree)

section
variable {env : Platform} {b3 : Bytes → Bytes} {A : Set Address} {U : Set TrieNode}
  {s : Submission} {b : Block} {bc after : Blockchain} {t : SentrixTrie} {tree : TrieTree}
  {start : Blockchain}

theorem length_blockWrites (hex : HexDigests env.wire) :
    ∀ entry ∈ blockWrites env b start, entry.1.length = 32 := by
  intro entry inside
  rw [blockWrites, stateWrites_named] at inside
  obtain ⟨n, -, rfl⟩ := List.mem_map.mp inside
  exact length_key hex n

theorem commitWrites_represents (lib : TrieLibraries env b3 A U)
    (rep : Represents env.wire b3 U t tree)
    (nodes : ∀ done, done <+: blockWrites env b start → Tree.Within (nodeHash env.wire b3) U 256
      (treeWrites (reached env.forks.canonicalDelete b.index) done tree)) :
    commitWrites env.forks env.trie (blockWrites env b start) b.index t =
        .ok (committedTrie env b start t).root (committedTrie env b start t) ∧
      Represents env.wire b3 U (committedTrie env b start t) (writtenTree env b start tree) ∧
      Grown env.wire b3 U t.nodes (committedTrie env b start t).nodes := by
  obtain ⟨contractsHash, nftHash, ops⟩ := lib.ops
  have moded : Represents env.wire b3 U
      { t with canonicalDelete := reached env.forks.canonicalDelete b.index } tree :=
    rep.later rfl (.refl rep.sound)
  obtain ⟨t', ran, wrote⟩ := @writes_wrote _ _ _ _ _ contractsHash nftHash _ moded
    (hashes32 lib.hex lib.leaves) lib.nodes (length_blockWrites lib.hex) nodes
  have committed : commitWrites env.forks env.trie (blockWrites env b start) b.index t =
      .ok t'.root { t' with version := b.index } := by
    unfold commitWrites
    rw [ops]
    exact bind_of_ok ran
  rw [committedTrie, finalState_ok committed]
  exact ⟨committed, wrote.represents.later rfl (.refl wrote.grown.sound), wrote.grown⟩

theorem onTrie_of_ok {α : Type} {m : EStateM SentrixError SentrixTrie α} {t' : SentrixTrie} {a : α}
    (ran : m t = .ok a t') : onTrie t m bc = .ok a { bc with stateTrie := some t' } :=
  focus_ok.mpr ⟨t', ran, rfl⟩

variable {booked : Blockchain}

theorem updateTrie_represents (lib : TrieLibraries env b3 A U)
    (had : booked.stateTrie = some t) (last : booked.chain.getLast? = some b)
    (rep : Represents env.wire b3 U t tree)
    (nodes : ∀ done, done <+: blockWrites env b (rebaseTreasury env.settings booked) →
      Tree.Within (nodeHash env.wire b3) U 256
        (treeWrites (reached env.forks.canonicalDelete b.index) done tree)) :
    let t' := committedTrie env b (rebaseTreasury env.settings booked) t
    updateTrie env booked = .ok (some t'.root)
        { drainTouched env.forks b.index (rebaseTreasury env.settings booked) with
          stateTrie := some t' } ∧
      Represents env.wire b3 U t'
        (writtenTree env b (rebaseTreasury env.settings booked) tree) ∧
      Grown env.wire b3 U t.nodes t'.nodes := by
  intro t'
  obtain ⟨ran, represents, grown⟩ := commitWrites_represents lib rep nodes
  refine ⟨?_, represents, grown⟩
  have updated : updateTrieForBlock env.wire env.forks env.settings env.trie booked =
      .ok (some t'.root) { drainTouched env.forks b.index (rebaseTreasury env.settings booked) with
        stateTrie := some t' } := by
    have trie : (rebaseTreasury env.settings booked).stateTrie = some t := had
    have top : (rebaseTreasury env.settings booked).chain.getLast? = some b := last
    unfold updateTrieForBlock
    rw [bind_of_ok (modify_ok.mpr rfl), bind_of_ok (get_ok.mpr ⟨rfl, rfl⟩)]
    simp only [trie, top]
    unfold commitBlock
    rw [bind_of_ok (modify_ok.mpr rfl)]
    exact bind_of_ok (onTrie_of_ok ran)
  unfold updateTrie
  rw [updated]

theorem trie_of_outer {x y : Blockchain} (same : outer x = outer y) : x.stateTrie = y.stateTrie :=
  congrArg Outer.stateTrie same

variable {verified : Bool}

/-- Nothing before the trie update touches the trie or the block on top. -/
theorem pushed_top {source : BlockSource} {now : Nat} {body : Blockchain}
    (had : bc.stateTrie = some t)
    (ran : applyBody env now b (bc.entering source verified) = .ok () body) :
    (pushBlock b body).stateTrie = some t ∧ (pushBlock b body).chain.getLast? = some b := by
  have kept := trie_of_outer ((keeps_applyBody env now b).ok ran)
  have appended : (pushBlock b body).stateTrie = body.stateTrie := by simp only [pushBlock]
  exact ⟨appended.trans (kept.trans had), getLast?_pushBlock b body⟩

theorem booked_top {pushed : Blockchain}
    (before : pushed.stateTrie = some t ∧ pushed.chain.getLast? = some b)
    (book : bookkeeping env pushed = .ok () booked) :
    booked.stateTrie = some t ∧ booked.chain.getLast? = some b := by
  have kept := (keeps_bookkeeping env).ok book
  rw [trie_of_outer kept, show booked.chain = pushed.chain from congrArg Outer.chain kept]
  exact before

structure Committed (env : Platform) (b3 : Bytes → Bytes) (U : Set TrieNode) (s : Submission)
    (bc after : Blockchain) (t : SentrixTrie) (tree : TrieTree) (start : Blockchain)
    (t' : SentrixTrie) : Prop where
  wrote : WritesFrom env s bc start
  trie : after.stateTrie = some t'
  represents : Represents env.wire b3 U t' (writtenTree env s.block start tree)
  values : after.leafValue env.wire env.trie = start.leafValue env.wire env.trie

theorem leafValue_drainTouched (w : Wire) (ops : TrieOps) (forks : Forks) (index : Nat)
    (start : Blockchain) : (drainTouched forks index start).leafValue w ops = start.leafValue w ops := by
  unfold drainTouched
  split
  · funext n
    cases n <;> rfl
  · rfl

theorem accepted_committed (lib : TrieLibraries env b3 A U) (had : bc.stateTrie = some t)
    (rep : Represents env.wire b3 U t tree) (contained : Contained env b3 A U s bc tree)
    {u : Unit} (accepted : submit env s bc = .ok u after) :
    ∃ start t', Committed env b3 U s bc after t tree start t' := by
  obtain ⟨verified, applied, header, -, pass2, rfl⟩ := addBlockWithSource_ok accepted
  obtain ⟨computed, x, upTo, settled⟩ := applyBlockPass2_split.mp pass2
  obtain ⟨body, booked, ran, book, updated⟩ := applyUpToRoot_ok.mp upTo
  obtain ⟨trie, top⟩ := booked_top (pushed_top had ran) book
  have wrote : WritesFrom env s bc (rebaseTreasury env.settings booked) :=
    ⟨verified, body, booked, header, ran, book, rfl⟩
  obtain ⟨updated', represents, -⟩ := updateTrie_represents lib trie top rep (contained.nodes _ wrote)
  generalize committedTrie env s.block (rebaseTreasury env.settings booked) t = t' at *
  cases updated.symm.trans updated'
  refine ⟨_, t', wrote, ?_, represents, ?_⟩
  · have kept : Keeps stateTrie (settleStateRoot env (some t'.root)) :=
      keeps_settleStateRoot_of (fun _ _ => rfl) _
    exact kept.ok settled
  · have kept : Keeps (leafValue env.wire env.trie) (settleStateRoot env (some t'.root)) :=
      keeps_settleStateRoot_of (fun _ _ => by funext n; cases n <;> rfl) _
    have view : (setSource .selfProduced applied).leafValue env.wire env.trie =
        applied.leafValue env.wire env.trie := by funext n; cases n <;> rfl
    have trieless (y : Blockchain) : leafValue env.wire env.trie { y with stateTrie := some t' } =
        leafValue env.wire env.trie y := by funext n; cases n <;> rfl
    rw [view, kept.ok settled, trieless, leafValue_drainTouched]

/-- What a block leaves that is not compared with a root. -/
def rootedState (env : Platform) (b : Block) (start : Blockchain) (t : SentrixTrie) : Blockchain :=
  setSource .selfProduced (setLast (stampRoot (committedTrie env b start t).root)
    { drainTouched env.forks b.index start with stateTrie := some (committedTrie env b start t) })

theorem submit_low (lib : TrieLibraries env b3 A U) (had : bc.stateTrie = some t)
    (rep : Represents env.wire b3 U t tree) (contained : Contained env b3 A U s bc tree)
    {body : Blockchain}
    (header : (bc.entering s.source false).checkHeader env s.now s.block = .ok verified)
    (contents : (bc.entering s.source verified).checkContents env s.block = .ok ())
    (ran : applyBody env s.now s.block (bc.entering s.source verified) = .ok () body)
    (book : bookkeeping env (pushBlock s.block body) = .ok () booked)
    (low : s.block.index < stateRootForkHeight) :
    submit env s bc = .ok () (rootedState env s.block (rebaseTreasury env.settings booked) t) ∧
      Represents env.wire b3 U (committedTrie env s.block (rebaseTreasury env.settings booked) t)
        (writtenTree env s.block (rebaseTreasury env.settings booked) tree) := by
  obtain ⟨trie, top⟩ := booked_top (pushed_top had ran) book
  obtain ⟨updated, represents, -⟩ := updateTrie_represents lib trie top rep
    (contained.nodes _ ⟨verified, body, booked, header, ran, book, rfl⟩)
  unfold rootedState
  generalize committedTrie env s.block (rebaseTreasury env.settings booked) t = t' at *
  refine ⟨addBlockWithSource_of header contents (applyBlockPass2_split.mpr
    ⟨_, _, applyUpToRoot_ok.mpr ⟨body, booked, ran, book, updated⟩, ?_⟩), represents⟩
  have last : ({ drainTouched env.forks s.block.index (rebaseTreasury env.settings booked) with
      stateTrie := some t' } : Blockchain).chain.getLast? = some s.block := by
    rw [← top]
    unfold drainTouched
    split <;> rfl
  have settled : settleRootOf env s.block t'.root =
      (modify (setLast (stampRoot t'.root)) : Apply Unit) := by
    unfold settleRootOf
    rw [if_neg (by omega)]
  unfold settleStateRoot
  rw [bind_of_ok (get_ok.mpr ⟨rfl, rfl⟩)]
  simp only [last, settled]
  rfl

variable {e : SentrixError}

theorem failed_trie (lib : TrieLibraries env b3 A U) (had : bc.stateTrie = some t)
    (rep : Represents env.wire b3 U t tree) (contained : Contained env b3 A U s bc tree)
    {failed : Blockchain}
    (header : (bc.entering s.source false).checkHeader env s.now s.block = .ok verified)
    (ran : applyBlockPass2 env s.now s.block (bc.entering s.source verified) = .error e failed) :
    ∃ t', failed.stateTrie = some t' ∧ Grown env.wire b3 U t.nodes t'.nodes := by
  have untouched : Grown env.wire b3 U t.nodes t.nodes := .refl rep.sound
  rcases bind_error.mp ran with early | ⟨_, body, bodyRan, ran⟩
  · have same := (keeps_applyBody env s.now s.block).error early
    exact ⟨t, (trie_of_outer same).trans had, untouched⟩
  rcases bind_error.mp ran with impossible | ⟨_, pushed, appended, ran⟩
  · exact absurd impossible modify_error
  have here := modify_ok.mp appended
  subst here
  have before := pushed_top had bodyRan
  unfold applyTail at ran
  rcases bind_error.mp ran with early | ⟨_, booked, book, ran⟩
  · have same := (keeps_bookkeeping env).error early
    exact ⟨t, (trie_of_outer same).trans before.1, untouched⟩
  obtain ⟨trie, top⟩ := booked_top before book
  obtain ⟨updated, -, grown⟩ := updateTrie_represents lib trie top rep
    (contained.nodes _ ⟨verified, body, booked, header, bodyRan, book, rfl⟩)
  rcases bind_error.mp ran with impossible | ⟨computed, x, updated', ran⟩
  · rw [updated] at impossible
    cases impossible
  · cases updated'.symm.trans updated
    rw [settleStateRoot_error env ran]
    exact ⟨_, rfl, grown⟩

theorem rejected_restored (lib : TrieLibraries env b3 A U) (had : bc.stateTrie = some t)
    (rep : Represents env.wire b3 U t tree) (contained : Contained env b3 A U s bc tree)
    (rejected : submit env s bc = .error e after) :
    after.leafValue env.wire env.trie = bc.leafValue env.wire env.trie ∧
      ∃ t', after.stateTrie = some t' ∧ Represents env.wire b3 U t' tree := by
  rcases addBlockWithSource_error rejected with ⟨-, flag, rfl⟩ | ⟨verified, failed, header, -, ran, rfl⟩
  · exact ⟨by funext n; cases n <;> rfl, t, had, rep⟩
  · obtain ⟨t', there, grown⟩ := failed_trie lib had rep contained header ran
    refine ⟨by funext n; cases n <;> rfl, t'.setRoot t.root, ?_, rep.later rfl grown⟩
    have root : (bc.entering s.source verified).snapshot.trieRoot = some t.root := by
      show bc.stateTrie.map (·.root) = some t.root
      rw [had]
      rfl
    show (restore (bc.entering s.source verified).snapshot failed).stateTrie = _
    simp only [restore, there, root]

/-- The leaf of an address is what its account says. -/
def Mirrors (w : Wire) (b3 : Bytes → Bytes) (A : Set Address) (t : SentrixTrie)
    (db : AccountDB) : Prop :=
  ∀ a ∈ A, t.get w b3 (addressToKey w a) =
    .ok (unlessZero (db.getBalance a) (accountValueBytes (db.getBalance a) (db.getNonce a)))

theorem mirrors_iff (lib : TrieLibraries env b3 A U)
    (rep : Represents env.wire b3 U t tree) :
    Mirrors env.wire b3 A t bc.accounts ↔ ∀ a ∈ A,
      tree.find ((KeyName.account a).key env.wire) (keyBits ((KeyName.account a).key env.wire)) =
        bc.leafValue env.wire env.trie (.account a) := by
  have found (a : Address) := rep.get (hashes32 lib.hex lib.leaves) lib.nodes
    (length_key lib.hex (.account a))
  unfold Mirrors
  simp only [← KeyName.account_key, found, Except.ok.injEq, leafValue]

theorem untouched_account (wrote : WritesFrom env s bc start)
    (fork : reached env.forks.extendedTouchList s.block.index = true) {a : Address}
    (absent : a ∉ start.touchedAddresses env.forks env.settings s.block) :
    start.accounts.getBalance a = bc.accounts.getBalance a ∧
      start.accounts.getNonce a = bc.accounts.getNonce a := by
  obtain ⟨verified, body, booked, -, ran, book, rfl⟩ := wrote
  have unlisted : a ∉ (rebaseTreasury env.settings booked).accounts.touchedInBlock := by
    intro listed
    apply absent
    unfold touchedAddresses
    rw [mem_insertionSort, mem_dedup, if_pos fork]
    exact mem_append_right _ listed
  have first := marked_applyBody ran
  have appended : Marked body (pushBlock s.block body) := by
    unfold Marked pushBlock
    exact .refl _
  have second := Marked.of_steps ((accounting_marked.steps_bookkeeping env).ok book)
  have third := Marked.of_steps (accounting_marked.rebaseTreasury env.settings booked)
  exact (((first.trans appended).trans second).trans third).kept a unlisted

theorem accepted_mirrors (lib : TrieLibraries env b3 A U)
    (lowercase : ∀ a ∈ A, isCanonical a = true)
    (fork : reached env.forks.extendedTouchList s.block.index = true)
    (had : bc.stateTrie = some t) (rep : Represents env.wire b3 U t tree)
    (contained : Contained env b3 A U s bc tree)
    (mirror : Mirrors env.wire b3 A t bc.accounts) {u : Unit}
    (accepted : submit env s bc = .ok u after) :
    ∃ t' tree', after.stateTrie = some t' ∧ Represents env.wire b3 U t' tree' ∧
      Mirrors env.wire b3 A t' after.accounts := by
  have before := (mirrors_iff lib rep).mp mirror
  obtain ⟨start, t', wrote, trie, rep', values⟩ := accepted_committed lib had rep contained accepted
  refine ⟨t', _, trie, rep', (mirrors_iff lib rep').mpr fun a inside => ?_⟩
  have named : KeyName.account a ∈ KeyName.among A := by
    rintro c named
    cases named
    exact inside
  rw [values, writtenTree, blockWrites, find_stateWrites lib.hex
    (KeyName.key_injOn lowercase lib.keys) (contained.names start wrote) rep.placed rep.solid named]
  split
  · rfl
  · rename_i unwritten
    have absent : a ∉ start.touchedAddresses env.forks env.settings s.block := by
      intro touched
      apply unwritten
      unfold stateNames
      exact mem_append_left _ (mem_append_left _ (mem_map_of_mem touched))
    obtain ⟨balance, nonce⟩ := untouched_account wrote fork absent
    rw [before a inside]
    simp only [leafValue, balance, nonce]

theorem rejected_mirrors (lib : TrieLibraries env b3 A U) (had : bc.stateTrie = some t)
    (rep : Represents env.wire b3 U t tree) (contained : Contained env b3 A U s bc tree)
    (mirror : Mirrors env.wire b3 A t bc.accounts)
    (rejected : submit env s bc = .error e after) :
    ∃ t' tree', after.stateTrie = some t' ∧ Represents env.wire b3 U t' tree' ∧
      Mirrors env.wire b3 A t' after.accounts := by
  have before := (mirrors_iff lib rep).mp mirror
  obtain ⟨values, t', trie, rep'⟩ := rejected_restored lib had rep contained rejected
  refine ⟨t', tree, trie, rep', (mirrors_iff lib rep').mpr fun a inside => ?_⟩
  rw [before a inside, values]

/-- The trie mirrors the accounts after every block, accepted or rejected. -/
theorem trie_mirrors_accounts (lib : TrieLibraries env b3 A U)
    (lowercase : ∀ a ∈ A, isCanonical a = true)
    (fork : reached env.forks.extendedTouchList s.block.index = true)
    (had : bc.stateTrie = some t) (rep : Represents env.wire b3 U t tree)
    (contained : Contained env b3 A U s bc tree)
    (mirror : Mirrors env.wire b3 A t bc.accounts) :
    ∃ t' tree', (finalState (submit env s) bc).stateTrie = some t' ∧
      Represents env.wire b3 U t' tree' ∧
      Mirrors env.wire b3 A t' (finalState (submit env s) bc).accounts := by
  cases ran : submit env s bc with
  | ok u after =>
    rw [finalState_ok ran]
    exact accepted_mirrors lib lowercase fork had rep contained mirror ran
  | error e after =>
    rw [finalState_error ran]
    exact rejected_mirrors lib had rep contained mirror ran

def writeState (env : Platform) (s : Submission) (bc : Blockchain) (verified : Bool) : Blockchain :=
  rebaseTreasury env.settings (finalState (bookkeeping env) (pushBlock s.block
    (finalState (applyBody env s.now s.block) (bc.entering s.source verified))))

theorem WritesFrom.state_eq
    (header : (bc.entering s.source false).checkHeader env s.now s.block = .ok verified)
    (wrote : WritesFrom env s bc start) : start = writeState env s bc verified := by
  obtain ⟨_, body, booked, header', ran, book, rfl⟩ := wrote
  cases header.symm.trans header'
  rw [writeState, finalState_ok ran, finalState_ok book]

section
variable {nodes : List (TrieNode × Nat)} {texts : List (Bytes × Nat)} {addresses : List Address}
  (sha : ∀ m, env.wire.sha256Hex m = hexEncode (listedSha nodes texts m))
include sha

theorem libraries_listed
    (ops : ∃ contractsHash nftHash,
      env.trie = sparseOps env.wire (listedBlake3 nodes) contractsHash nftHash)
    (listable : Listable nodes texts)
    (distinct : ((namesOver addresses).map fun n => listedSha nodes texts (n.text env.wire.unicode)).Nodup) :
    TrieLibraries env (listedBlake3 nodes) {a | a ∈ addresses} (listedNodes nodes texts) where
  ops := ops
  hex := hexDigests_listed sha
  leaves := fun _ => length_word256 _
  keys := by
    apply digest_injOn_names
    simp only [digest_listed sha]
    exact distinct
  nodes := by
    rw [nodeHash_listed sha]
    exact listedHash_injOn listable

def listedWrites (env : Platform) (nodes : List (TrieNode × Nat)) (texts : List (Bytes × Nat))
    (b : Block) (start : Blockchain) : List TrieWrite :=
  (blockNames env b start).map fun n =>
    (listedSha nodes texts (n.text env.wire.unicode), start.leafValue env.wire env.trie n)

theorem blockWrites_listed (start : Blockchain) :
    blockWrites env b start = listedWrites env nodes texts b start := by
  unfold blockWrites listedWrites
  rw [stateWrites_named]
  apply map_congr_left
  intro n _
  unfold nameWrite KeyName.key
  rw [digest_listed sha]

def PassesListed (env : Platform) (nodes : List (TrieNode × Nat)) (texts : List (Bytes × Nat))
    (addresses : List Address) (s : Submission) (bc : Blockchain) (tree : TrieTree) : Prop :=
  let entered := bc.entering s.source false
  let start := writeState env s bc false
  (entered.checkHeader env s.now s.block).toOption = some false ∧
    (entered.checkContents env s.block).toOption = some () ∧
    succeeds (applyBody env s.now s.block) entered = true ∧
    succeeds (bookkeeping env)
      (pushBlock s.block (finalState (applyBody env s.now s.block) entered)) = true ∧
    s.block.index < stateRootForkHeight ∧
    (∀ n ∈ blockNames env s.block start, n ∈ namesOver addresses) ∧
    ∀ done ∈ (listedWrites env nodes texts s.block start).inits,
      ∀ p ∈ (treeWrites (reached env.forks.canonicalDelete s.block.index) done tree).nodes
        (listedHash nodes texts) 256, p ∈ nodes.map (·.1)

instance (env : Platform) (nodes : List (TrieNode × Nat)) (texts : List (Bytes × Nat))
    (addresses : List Address) (s : Submission) (bc : Blockchain) (tree : TrieTree) :
    Decidable (PassesListed env nodes texts addresses s bc tree) :=
  inferInstanceAs (Decidable (_ ∧ _))

theorem PassesListed.contained (passes : PassesListed env nodes texts addresses s bc tree) :
    Contained env (listedBlake3 nodes) {a | a ∈ addresses} (listedNodes nodes texts) s bc tree := by
  obtain ⟨header, -, -, -, -, names, within⟩ := passes
  constructor
  · intro start wrote n inside
    rw [wrote.state_eq (toOption_eq_some header)] at inside
    exact mem_namesOver.mpr (names n inside)
  · intro start wrote done early
    rw [wrote.state_eq (toOption_eq_some header), blockWrites_listed sha] at early
    rw [nodeHash_listed sha]
    exact ⟨fun p inside => .inr (within done ((mem_inits _ _).mpr early) p inside),
      fun p inside => .inl inside⟩

def listedTree (env : Platform) (nodes : List (TrieNode × Nat)) (texts : List (Bytes × Nat))
    (b : Block) (start : Blockchain) (tree : TrieTree) : TrieTree :=
  treeWrites (reached env.forks.canonicalDelete b.index) (listedWrites env nodes texts b start) tree

theorem PassesListed.submit (passes : PassesListed env nodes texts addresses s bc tree)
    (lib : TrieLibraries env (listedBlake3 nodes) {a | a ∈ addresses} (listedNodes nodes texts))
    (had : bc.stateTrie = some t)
    (rep : Represents env.wire (listedBlake3 nodes) (listedNodes nodes texts) t tree) :
    Blockchain.submit env s bc = .ok () (rootedState env s.block (writeState env s bc false) t) ∧
      Represents env.wire (listedBlake3 nodes) (listedNodes nodes texts)
        (committedTrie env s.block (writeState env s bc false) t)
        (listedTree env nodes texts s.block (writeState env s bc false) tree) := by
  have contained := passes.contained sha
  obtain ⟨header, contents, body, book, low, -, -⟩ := passes
  rw [listedTree, ← blockWrites_listed sha]
  exact submit_low lib had rep contained (toOption_eq_some header) (toOption_eq_some contents)
    (ok_of_succeeds body) (ok_of_succeeds book) low

theorem represents_leaf {key value : Bytes} (long : key.length = 32)
    (listed : .leaf key value ∈ nodes.map (·.1))
    (root : t.root = listedHash nodes texts (.leaf key value))
    (rows : t.nodes = (∅ : Table Bytes Bytes).insert t.root (nodeText (.leaf key value))) :
    Represents env.wire (listedBlake3 nodes) (listedNodes nodes texts) t (.leaf key value) where
  root := by rw [root, nodeHash_listed sha]; rfl
  held := by
    intro p inside
    cases List.mem_singleton.mp inside
    rw [nodeHash_listed sha, rows, ← root]
    exact AList.lookup_insert _
  sound := by
    intro found text held
    rw [rows] at held
    by_cases same : found = t.root
    · subst same
      rw [AList.lookup_insert] at held
      exact ⟨_, .inr listed, by rw [root, nodeHash_listed sha], (Option.some.inj held).symm⟩
    · rw [AList.lookup_insert_ne same] at held
      cases held
  placed := by
    refine ⟨?_, by rw [length_keyBits, long]; rfl⟩
    exact nil_prefix
  solid := trivial
  inside := by
    unfold Inside
    rw [nodeHash_listed sha]
    refine ⟨fun p inside => ?_, fun p inside => .inl inside⟩
    cases List.mem_singleton.mp inside
    exact .inr listed

end

end

def payee : Address := "0xf1f6619b38a98d6de0800f1defc0a6399eb6d30c"

def payment : Transaction where
  txid := "42cb9b046da2184c2ec50588ec554c28d326060106a1def8d907f922a0460eb1"
  fromAddress := secondValidator
  toAddress := thirdAccount
  amount := 20000
  fee := 10000
  nonce := 0
  data := ""
  timestamp := 1700000001
  chainId := 7119
  signature := "9b549b3273283942b53432d5ca918bb03f6dfcd7c3c30636c99fff5072857d3f4bd78244f94d0686f2c1" ++
    "10aa1d0ae191a3ad9fdd6fabaca8ae971262d154c0a4"
  publicKey := secondKey

def passedOn : Transaction where
  txid := "c3f42398de0894e313cea3db969e77331d389d7411dd00db56d1c07f1c94756c"
  fromAddress := thirdAccount
  toAddress := payee
  amount := 10000
  fee := 10000
  nonce := 0
  data := ""
  timestamp := 1700000002
  chainId := 7119
  signature := "6566f373c1db96450591029ce04331e7e4b63b311a82e62d851ff276531ec5312be340d9d84c274ef2ec" ++
    "5fac263217133d8c947e8352370e37bb2b6956eefebd"
  publicKey := thirdKey

def directPayment : Transaction :=
  { payment with
    txid := "6ad4979c729285dbac68f67b1e91d85880174f76d76fa9fb1330db94ce5b3eb2"
    toAddress := payee
    amount := 10000
    fee := 20000
    signature := "b5b0c70943f80295cf7c167772aa4595a881479adae727397c39990b0f275fc8331eb2505c6af336e1" ++
      "69c8b3c62204cbd8e7b0685af93ea5b7755273ef9a7cc8" }

def paymentBlock : Block :=
  sampleBlock 1 genesisBlock.hash [firstCoinbase, payment] 1700000001
    "82cc08dc16951165676eeb853238aeb2436e26ad4902839e6365385c8a493f68"
    "c14c0c3c3dd75e608324d1100813186ba26009d6d578fe697d9119a4e762f92c"

def passingBlock : Block :=
  sampleBlock 2 paymentBlock.hash [secondCoinbase, passedOn] 1700000002
    "0d56214914737677acae69b9d18e08b60e22cb14ce20363c87b531b84a4c1a81"
    "8302dbc0b35ce0ac542629f81069c147a70fb4104c9a46f24b694ee7b31bdbb4"

def directBlock : Block :=
  sampleBlock 1 genesisBlock.hash [firstCoinbase, directPayment] 1700000001
    "d2ef692255cbcdf9f828e2a1015d4059e5dcac28b789749f2a35f63b80a15cb2"
    "c8074ebb7d5563c2e7b5f8a6856509ecf3117a0789e1f0c538c9637517a26289"

def idleBlock : Block :=
  sampleBlock 2 directBlock.hash [secondCoinbase] 1700000002
    "d168bdfa38cdd2ea221bf62aedc6a85a0a0ff871dd20abc8eef49631b2f20631"
    "9f12fef8b4c53d3909347f1081ab548e314c962bc86a1756131d2236f947c9d0"

def paymentAddresses : List Address :=
  [firstValidator, secondValidator, thirdAccount, payee]

def word160 (n : Nat) : Bytes :=
  (leBytes 20 n).reverse

def accountKeys : List (Bytes × Nat) :=
  [(word160 0x7e5f4552091a69125d5dfcb7b8c2659029395bdf,
     0xd6f781065c489e6513f45bc3dab82156055056d393c42f49a4defec22b5ee73f),
   (word160 0x2b5ad5c4795c026514f8317c7a215e218dccd6cf,
     0x5c47c7880d04e20e33d3c5ccab26586f2d907065c2c1c212de66af1767513367),
   (word160 0x6813eb9362372eef6200f3b1dbc3f819671cba69,
     0x915e9183b1ece9551325a914fa51e669d8b05cbd8c478cb8c2a5baa0adec41ef),
   (word160 0xf1f6619b38a98d6de0800f1defc0a6399eb6d30c,
     0x14b937067d1a21dba5219970cf5e23ca8d1a97105466c63b44877876a03e3bf5)]

def otherKeys : List (KeyName × Nat) :=
  [(.pendingRewards firstValidator,
     0x23b66b81995af6ac38987b9f8b6350cd0a03cbd70603b9b9379ed3d47a7b9b7e),
   (.pendingRewards secondValidator,
     0x905c0a96f65962869fc624e0a450c24d10b0aa26842a0d4b86566136c39bb4da),
   (.pendingRewards thirdAccount,
     0x7f43800a83808d734b68d15d9b19ac4c2c7f171d4d4c789670bc857ca68ad7cf),
   (.pendingRewards payee,
     0x67f0f8202bba1e9bac038dac2d817c10f885c870f1fe80a19362609ab3e7823f),
   (.liveness firstValidator,
     0x236184120e39ba14e729fe9511ad4282bc8c167312a07e1e2ef19ae6e770ac7f),
   (.liveness secondValidator,
     0x9cbbbea1c0f8c2d1455b127217c0159d990401a24b539ed046927b57a1b20f2e),
   (.liveness thirdAccount,
     0x75f952248c982ac18a8116d58ac8b658f16a67796a4e869fb9dd4d70c2d726c9),
   (.liveness payee,
     0x74ae266560f2d5d11d966d293b1d6cbd55500889a817576b8034c3c5c8cfd0bc),
   (.totalMinted,
     0x23177981fe3bb802fd5c60a307e3517bcf0d66671ad612c2350b7786cf6a09fb),
   (.epochState,
     0x55e6f2fec9d7f8e06871fd505922c600fea75974cb14941bdc4519da7877bac1),
   (.src20Registry,
     0x2be0a151b1cc897fd3c88d3a5ea25e7ec941f3a10c359a48df40be9880d99ef3),
   (.nftRegistry,
     0x8a2e4321a3ac55a7b029a3ba107be25dbce3c1e7d6887c16a0b82eb40d707d55)]

def hexNumber (text : Hash) : Nat :=
  ((hexDecode text).getD []).foldl (fun n byte => 256 * n + byte.toNat) 0

def paymentTexts : List (Bytes × Nat) :=
  accountKeys ++
    (([paymentBlock, passingBlock, directBlock, idleBlock].flatMap blockDigests).map fun row =>
      (textBytes row.1, hexNumber row.2)) ++
    otherKeys.map fun row => (row.1.text asciiText, row.2)

def accountNode (key balance nonce : Nat) : TrieNode :=
  .leaf (word256 key) (accountValueBytes balance nonce)

def numberBranch (left right : Nat) : TrieNode :=
  .branch (word256 left) (word256 right)

def paymentNodes : List (TrieNode × Nat) :=
  let producer := 0xd6f781065c489e6513f45bc3dab82156055056d393c42f49a4defec22b5ee73f
  let payer := 0x5c47c7880d04e20e33d3c5ccab26586f2d907065c2c1c212de66af1767513367
  let third := 0x915e9183b1ece9551325a914fa51e669d8b05cbd8c478cb8c2a5baa0adec41ef
  let paid := 0x14b937067d1a21dba5219970cf5e23ca8d1a97105466c63b44877876a03e3bf5
  let payerLeaf := 0xa5a40eb3730b2ec4c00d7f6ea739d69eaa434406d97e76c3df229ad0cc27edc6
  let thirdLeaf := 0xafab0f8f317e2812a56b9116f0398caf02dfd2f31b01b220bd2e5271bd0f8c2a
  let paidLeaf := 0x31155a85c3913a6fe085de98acc309cc69e889d8ce661e5d25a1fe796a061dc1
  let afterPayment := 0xe08fc574f32611a987ede725997ea06c7719950b464b57b05847c15bc906384d
  let afterDirect := 0xb7f6301ddd99471db6bbbe0cc3c989c0ac231b77a01c526dc71ffcd0da10ecd1
  let afterSecond := 0xce753641dbd2d1dd1be5b48662c9e3702fa465b3a710d394e65e84ad8264a3e4
  let right := 0x522ad35b45b91b1dbb712264d41e04d8a36ac274c0fb980ec8f779fb5163e7b3
  let left := 0xd0c926d5f340d96a443a41d81397ecbee0c597e5e831de3cbdcdc7b45d9feb24
  [(accountNode payer 1000000 0, 0x0e86faf18b8e2a15e8fc0f328066ab1af144bf697f1905734d9e0264387e5d65),
   (accountNode payer 970000 1, payerLeaf),
   (accountNode third 20000 0, thirdLeaf),
   (accountNode paid 10000 0, paidLeaf),
   (accountNode producer 100005000 0, afterPayment),
   (accountNode producer 100010000 0, afterDirect),
   (accountNode producer 200010000 0, afterSecond),
   (numberBranch payerLeaf thirdLeaf,
     0xf3dde47581774a63f4106baa9f3eb9c3b98c4585d6fc48ed124c68cf2ba56fdf),
   (numberBranch thirdLeaf afterPayment, right),
   (numberBranch payerLeaf right,
     0xbe268013b2ff8f6919cd1e1a6270df71b80aa21a6c7134c050cc099f71db7f07),
   (numberBranch payerLeaf afterPayment,
     0x309bd14660c0ec1a14692a882cb80985952ac38127959f614fa3c386a5e9426f),
   (numberBranch payerLeaf afterSecond,
     0xaf14a9c2c33373a653661c60606da0f3a6d8ae64ff3ed79a5e43ab252636bb40),
   (numberBranch payerLeaf afterDirect,
     0x9b692cccbd80c338fa674760a1824cbc9dea0f8887d08a830d8901856ef1dcd9),
   (numberBranch paidLeaf payerLeaf, left),
   (numberBranch left afterDirect,
     0xc9feb438c462d9d612456f30265e04e7f6a5e385f53d2e4fdd9c52730670d6c3),
   (numberBranch left afterSecond,
     0x4266fb7eddee1ccceb54ba002f5f3762ba8bdf5786cd17e2064054d3f3a22146)]

def paymentWire : Wire :=
  let bare := tableWire []
  { bare with
    sha256Hex := fun m => hexEncode (listedSha paymentNodes paymentTexts m)
    addressOfKey := fun key =>
      List.lookup key [(secondKey, secondValidator), (thirdKey, thirdAccount)]
    verifyEcdsa := fun key signature payload =>
      [payment, passedOn, directPayment].any fun tx =>
        tx.publicKey == key && tx.signature == signature && tx.signingPayload bare == payload }

def paymentPlatform : Platform :=
  { plainPlatform paymentWire with
    forks := { Forks.off with extendedTouchList := 0, rewardApplyPath := 0, canonicalDelete := 0 }
    trie := sparseOps paymentWire (listedBlake3 paymentNodes) (fun _ => []) (fun _ => []) }

def payerKey : Bytes :=
  word256 0x5c47c7880d04e20e33d3c5ccab26586f2d907065c2c1c212de66af1767513367

def fundedTree : TrieTree :=
  .leaf payerKey (accountValueBytes 1000000 0)

def fundedTrie : SentrixTrie :=
  let root := word256 0x0e86faf18b8e2a15e8fc0f328066ab1af144bf697f1905734d9e0264387e5d65
  ⟨root, 0, true,
    (∅ : Table Bytes Bytes).insert root (nodeText (.leaf payerKey (accountValueBytes 1000000 0)))⟩

def paymentChain : Blockchain :=
  { fundedChain with stateTrie := some fundedTrie }

theorem paymentSha (m : Bytes) :
    paymentPlatform.wire.sha256Hex m = hexEncode (listedSha paymentNodes paymentTexts m) :=
  rfl

theorem paymentLibraries : TrieLibraries paymentPlatform (listedBlake3 paymentNodes)
    {a | a ∈ paymentAddresses} (listedNodes paymentNodes paymentTexts) :=
  libraries_listed paymentSha ⟨_, _, rfl⟩ (by decide +kernel) (by decide +kernel)

theorem represents_funded : Represents paymentPlatform.wire (listedBlake3 paymentNodes)
    (listedNodes paymentNodes paymentTexts) fundedTrie fundedTree :=
  represents_leaf paymentSha (length_word256 _) (by decide) (by decide) rfl

theorem funded_mirrors : Mirrors paymentPlatform.wire (listedBlake3 paymentNodes)
    {a | a ∈ paymentAddresses} fundedTrie paymentChain.accounts := by
  rw [mirrors_iff paymentLibraries represents_funded]
  simp only [KeyName.key, digest_listed paymentSha]
  show ∀ a ∈ paymentAddresses, _
  decide

def paymentSubmission : Submission := ⟨1700000001, .peer, paymentBlock⟩

theorem payment_passes : PassesListed paymentPlatform paymentNodes paymentTexts paymentAddresses
    paymentSubmission paymentChain fundedTree := by
  decide +kernel

theorem payment_mirrored :
    let paid := finalState (submit paymentPlatform paymentSubmission) paymentChain
    succeeds (submit paymentPlatform paymentSubmission) paymentChain = true ∧
      ∃ t' tree', paid.stateTrie = some t' ∧
        Represents paymentPlatform.wire (listedBlake3 paymentNodes)
          (listedNodes paymentNodes paymentTexts) t' tree' ∧
        Mirrors paymentPlatform.wire (listedBlake3 paymentNodes) {a | a ∈ paymentAddresses} t'
          paid.accounts := by
  have lowercase : ∀ a ∈ paymentAddresses, isCanonical a = true := by decide
  obtain ⟨ran, -⟩ := payment_passes.submit paymentSha paymentLibraries rfl represents_funded
  exact ⟨succeeds_iff.mpr ⟨_, _, ran⟩, trie_mirrors_accounts paymentLibraries lowercase (by decide)
    rfl represents_funded (payment_passes.contained paymentSha) funded_mirrors⟩

end Blockchain
end SentrixCore
