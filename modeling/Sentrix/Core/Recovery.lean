import Sentrix.Core.Proposals
import Sentrix.Core.Storage

/-!
Restart after a crash. A node saved its state, took in further blocks, committed their
trie roots and wrote their rows, and then stopped. What loading rebuilds is compared
with the state the node had.
-/
namespace SentrixCore
open MachineWords Effects SentrixPrimitives SentrixTokens SentrixStaking List

namespace Blockchain
open ChainStorage

def lastingLedgers (bc : Blockchain) : Ledgers :=
  { bc.ledgers with accounts := bc.accounts.clearTouchedInBlock, stateTrie := none }

structure Level (s t : Blockchain) : Prop where
  ledgers : s.lastingLedgers = t.lastingLedgers
  chainId : s.chainId = t.chainId
  voyagerActivated : s.voyagerActivated = t.voyagerActivated
  height : s.height = t.height

def untouched (bc : Blockchain) : Blockchain :=
  { bc with accounts := bc.accounts.clearTouchedInBlock }

theorem Level.alike {s t : Blockchain} (level : Level s t) :
    AlikeUpTo (fun _ _ => True) s.untouched t.untouched where
  accounts := congrArg Ledgers.accounts level.ledgers
  contracts := congrArg Ledgers.contracts level.ledgers
  nftRegistry := congrArg Ledgers.nftRegistry level.ledgers
  totalMinted := congrArg Ledgers.totalMinted level.ledgers
  chainId := level.chainId
  stateTrie := trivial
  stakeRegistry := congrArg Ledgers.stakeRegistry level.ledgers
  epochManager := congrArg Ledgers.epochManager level.ledgers
  slashing := congrArg Ledgers.slashing level.ledgers
  voyagerActivated := level.voyagerActivated
  height := level.height

theorem Level.symm {s t : Blockchain} (level : Level s t) : Level t s :=
  ⟨level.ledgers.symm, level.chainId.symm, level.voyagerActivated.symm, level.height.symm⟩

section
variable {env : Platform} {now now' : Nat} {source source' : BlockSource} {b other row : Block}
  {s t s' t' : Blockchain}

theorem rebaseTreasury_lasting (index : b.index = other.index)
    (tipped : TippedUpTo (fun _ _ => True) b other s t) :
    (rebaseTreasury env.settings s).lastingLedgers =
      (rebaseTreasury env.settings t).lastingLedgers := by
  have alike := tipped.alike
  simp only [lastingLedgers, ledgers, rebaseTreasury, tipped.last, tipped.last', Option.map_some,
    index, alike.accounts, alike.contracts, alike.nftRegistry, alike.totalMinted,
    alike.stakeRegistry, alike.epochManager, alike.slashing]

theorem updateTrie_frame {bc after : Blockchain} {computed : Option Bytes}
    (ran : updateTrie env bc = .ok computed after) :
    after.lastingLedgers = (rebaseTreasury env.settings bc).lastingLedgers ∧
      after.chainId = bc.chainId ∧ after.voyagerActivated = bc.voyagerActivated := by
  have chainId : after.chainId = (rebaseTreasury env.settings bc).chainId :=
    updateTrie_view (fun _ _ => rfl) (fun _ => rfl) ran
  have voyager : after.voyagerActivated = (rebaseTreasury env.settings bc).voyagerActivated :=
    updateTrie_view (fun _ _ => rfl) (fun _ => rfl) ran
  exact ⟨updateTrie_view (fun _ _ => rfl) (fun _ => rfl) ran, chainId, voyager⟩

theorem lasting_of_accepted {u : Unit} (level : Level s t) (twin : Twin b other)
    (certificate : signers b = signers other)
    (accepted : addBlockWithSource env now source b s = .ok u s')
    (again : addBlockWithSource env now' source' other t = .ok u t') :
    s'.lastingLedgers = t'.lastingLedgers ∧ s'.chainId = t'.chainId ∧
      s'.voyagerActivated = t'.voyagerActivated := by
  obtain ⟨verified, applied, -, -, pass2, rfl⟩ := addBlockWithSource_ok accepted
  obtain ⟨verified', applied', -, -, pass2', rfl⟩ := addBlockWithSource_ok again
  obtain ⟨computed, x, upTo, settled⟩ := applyBlockPass2_split.mp pass2
  obtain ⟨computed', y, upTo', settled'⟩ := applyBlockPass2_split.mp pass2'
  obtain ⟨body, booked, bodyRan, bookRan, update⟩ := applyUpToRoot_ok.mp upTo
  obtain ⟨body', booked', bodyRan', bookRan', update'⟩ := applyUpToRoot_ok.mp upTo'
  have entered : AlikeUpTo (fun _ _ => True) (s.entering source verified).untouched
      (t.entering source' verified').untouched := { level.alike with }
  -- the pass begins by forgetting the touched addresses
  obtain ⟨-, bodies⟩ := (together_applyBody twin).both_ok entered bodyRan bodyRan'
  obtain ⟨-, tipped⟩ := (together_bookkeeping twin fun _ => certificate).both_ok
    (tipped_pushBlock twin.index bodies) bookRan bookRan'
  obtain ⟨ledgers, chainId, voyager⟩ := updateTrie_frame update
  obtain ⟨ledgers', chainId', voyager'⟩ := updateTrie_frame update'
  refine ⟨?_, ?_, ?_⟩
  · calc applied.lastingLedgers = x.lastingLedgers :=
          (keeps_settleStateRoot_of (fun _ _ => rfl) computed).ok settled
      _ = y.lastingLedgers :=
          ledgers.trans ((rebaseTreasury_lasting twin.index tipped).trans ledgers'.symm)
      _ = applied'.lastingLedgers :=
          ((keeps_settleStateRoot_of (fun _ _ => rfl) computed').ok settled').symm
  · calc applied.chainId = x.chainId :=
          (keeps_settleStateRoot_of (fun _ _ => rfl) computed).ok settled
      _ = y.chainId := chainId.trans (tipped.alike.chainId.trans chainId'.symm)
      _ = applied'.chainId :=
          ((keeps_settleStateRoot_of (fun _ _ => rfl) computed').ok settled').symm
  · calc applied.voyagerActivated = x.voyagerActivated :=
          (keeps_settleStateRoot_of (fun _ _ => rfl) computed).ok settled
      _ = y.voyagerActivated := voyager.trans (tipped.alike.voyagerActivated.trans voyager'.symm)
      _ = applied'.voyagerActivated :=
          ((keeps_settleStateRoot_of (fun _ _ => rfl) computed').ok settled').symm

theorem Level.step {u : Unit} (level : Level s t)
    (accepted : addBlockWithSource env now source b s = .ok u s')
    (top : s'.chain.getLast? = some row)
    (again : addBlockWithSource env now' source' row t = .ok u t') : Level s' t' := by
  obtain ⟨-, row', top', restamped⟩ := accepted_top accepted
  obtain rfl : row' = row := Option.some.inj (top'.symm.trans top)
  obtain ⟨-, row'', top'', restamped'⟩ := accepted_top again
  obtain ⟨ledgers, chainId, voyager⟩ :=
    lasting_of_accepted level restamped.twin restamped.signers accepted again
  refine ⟨ledgers, chainId, voyager, ?_⟩
  rw [height_of_top top, height_of_top top'']
  exact restamped'.twin.index

end
/-- Hash maps count by what they answer, not by the order of their entries. -/
def tokenContents (c : SRC20Contract) :=
  ({ c with balances := ∅, allowances := ∅ }, c.balances.lookup,
    fun owner => (c.allowances.lookup owner).map fun granted => granted.lookup)

def collectionContents (c : NftCollection) :=
  ({ c with tokens := ∅, balances := ∅, tokenApprovals := ∅, operatorApprovals := ∅ },
    c.tokens.lookup, c.balances.lookup, c.tokenApprovals.lookup,
    fun owner => (c.operatorApprovals.lookup owner).map fun granted => granted.lookup)

def stakeContents (reg : StakeRegistry) :=
  (reg.validators.lookup, reg.delegations.lookup, reg.unbondingQueue.lookup,
    reg.redelegateCooldowns.lookup, reg.activeSet, reg.delegatorRewards.lookup)

def slashingContents (engine : SlashingEngine) :=
  (engine.liveness.records.lookup, engine.liveness.firstSeen.lookup,
    fun id => engine.processed.contains id, engine.totalSlashed)

/-- Everything a restart has to bring back, the table of accounts apart. -/
structure SameElsewhere (bc other : Blockchain) : Prop where
  totalBurned : bc.accounts.totalBurned = other.accounts.totalBurned
  contractCode : bc.accounts.contractCode.lookup = other.accounts.contractCode.lookup
  contractStorage : bc.accounts.contractStorage.lookup = other.accounts.contractStorage.lookup
  failedEvmTxs : ∀ id, bc.accounts.isEvmTxFailed id = other.accounts.isEvmTxFailed id
  failedEvmTxsOrder : bc.accounts.failedEvmTxsOrder = other.accounts.failedEvmTxsOrder
  totalMinted : bc.totalMinted = other.totalMinted
  stakeRegistry : stakeContents bc.stakeRegistry = stakeContents other.stakeRegistry
  epochManager : bc.epochManager = other.epochManager
  slashing : slashingContents bc.slashing = slashingContents other.slashing
  contracts : ∀ a, (bc.contracts.contracts.lookup a).map tokenContents =
    (other.contracts.contracts.lookup a).map tokenContents
  nftRegistry : ∀ id, (bc.nftRegistry.collections.lookup id).map collectionContents =
    (other.nftRegistry.collections.lookup id).map collectionContents

structure SameBooks (bc other : Blockchain) : Prop where
  accounts : ∀ a, bc.accounts.accounts.lookup a = other.accounts.accounts.lookup a
  elsewhere : SameElsewhere bc other

theorem Level.sameBooks {s t : Blockchain} (level : Level s t) : SameBooks s t := by
  have accounts : s.untouched.accounts = t.untouched.accounts := level.alike.accounts
  constructor
  · intro a
    exact congrArg (fun db => db.accounts.lookup a) accounts
  · exact
      { totalBurned := congrArg (fun db => db.totalBurned) accounts
        contractCode := congrArg (fun db => db.contractCode.lookup) accounts
        contractStorage := congrArg (fun db => db.contractStorage.lookup) accounts
        failedEvmTxs := fun id => congrArg (fun db => db.isEvmTxFailed id) accounts
        failedEvmTxsOrder := congrArg (fun db => db.failedEvmTxsOrder) accounts
        totalMinted := level.alike.totalMinted
        stakeRegistry := congrArg stakeContents level.alike.stakeRegistry
        epochManager := level.alike.epochManager
        slashing := congrArg slashingContents level.alike.slashing
        contracts := fun a =>
          congrArg (fun reg => (reg.contracts.lookup a).map tokenContents) level.alike.contracts
        nftRegistry := fun id => congrArg
          (fun reg => (reg.collections.lookup id).map collectionContents) level.alike.nftRegistry }

structure Node where
  chain : Blockchain
  disk : ChainStorage

/-- Blocks accepted one after another, each with its trie root committed and then its
row written. -/
inductive Persisting (env : Platform) : Node → List Block → Node → Prop where
  | done (n : Node) : Persisting env n [] n
  | block {n final : Node} {now : Nat} {source : BlockSource} {b row : Block} {next : Blockchain}
      {trie : SentrixTrie} {rows : List Block}
      (accepted : addBlockWithSource env now source b n.chain = .ok () next)
      (top : next.chain.getLast? = some row) (committed : next.stateTrie = some trie)
      (later : Persisting env
        ⟨next, saveBlock row (commitTrie row.index trie n.disk)⟩ rows final) :
      Persisting env n (row :: rows) final

structure Journal (n : Node) (rows : List Block) (final : Node) : Prop where
  height : final.chain.height = n.chain.height + rows.length
  state : final.disk.state = n.disk.state
  blobHeight : final.disk.blobHeight = n.disk.blobHeight
  tip : n.disk.height = some n.chain.height → final.disk.height = some final.chain.height
  older : ∀ i ≤ n.chain.height, final.disk.loadBlock i = n.disk.loadBlock i
  rows : ∀ k, (h : k < rows.length) →
    final.disk.loadBlock (n.chain.height + 1 + k) = some rows[k] ∧
      rows[k].index = n.chain.height + 1 + k

theorem loadBlock_putBlock (db : ChainStorage) (b : Block) (i : Nat) :
    (db.putBlock b).loadBlock i = if i = b.index then some b else db.loadBlock i := by
  unfold loadBlock putBlock
  by_cases same : i = b.index
  · subst same
    simp
  · simp [same, AList.lookup_insert_ne]

theorem Persisting.journal {env : Platform} {n final : Node} {rows : List Block}
    (run : Persisting env n rows final) (bounded : n.chain.height + rows.length ≤ u64Max) :
    Journal n rows final := by
  induction run with
  | done => exact ⟨rfl, rfl, rfl, id, fun _ _ => rfl, fun k h => absurd h (Nat.not_lt_zero k)⟩
  | @block n _ _ _ _ row next trie rows accepted top _ later ih =>
    rw [length_cons] at bounded
    obtain ⟨index, row', top', restamped⟩ := accepted_top accepted
    obtain rfl : row' = row := Option.some.inj (top'.symm.trans top)
    have rowIndex : row'.index = n.chain.height + 1 := by
      rw [← restamped.twin.index, index]
      exact wrapAdd64_eq_add (by omega)
    have nextHeight : next.height = n.chain.height + 1 := (height_of_top top).trans rowIndex
    have rest := ih (by simp only [nextHeight]; omega)
    have stored (i : Nat) : (saveBlock row' (commitTrie row'.index trie n.disk)).loadBlock i =
        if i = row'.index then some row' else n.disk.loadBlock i :=
      loadBlock_putBlock _ _ _
    refine ⟨?_, rest.state, rest.blobHeight, ?_, ?_, ?_⟩
    · rw [rest.height, nextHeight, length_cons]
      omega
    · intro _
      exact rest.tip (by rw [nextHeight, ← rowIndex]; rfl)
    · intro i old
      rw [rest.older i (by simp only [nextHeight]; omega), stored, if_neg (by omega)]
    · intro k h
      cases k with
      | zero =>
        refine ⟨?_, rowIndex⟩
        rw [Nat.add_zero, rest.older _ (by simp only [nextHeight]; omega), stored,
          if_pos rowIndex.symm]
        rfl
      | succ k =>
        have later := rest.rows k (by simpa using h)
        have shift : n.chain.height + 1 + (k + 1) = next.height + 1 + k := by omega
        rw [shift]
        exact later

def Archived (db : ChainStorage) (height : Nat) : Prop :=
  ∀ i ≤ height, ∃ row, db.loadBlock i = some row ∧ row.index = i

theorem Journal.archived {n final : Node} {rows : List Block} (journal : Journal n rows final)
    (archived : Archived n.disk n.chain.height) : Archived final.disk final.chain.height := by
  intro i within
  by_cases old : i ≤ n.chain.height
  · rw [journal.older i old]
    exact archived i old
  · obtain ⟨k, rfl⟩ : ∃ k, i = n.chain.height + 1 + k := ⟨i - (n.chain.height + 1), by omega⟩
    have inside : k < rows.length := by
      rw [journal.height] at within
      omega
    exact ⟨rows[k], journal.rows k inside⟩

section
variable {env : Platform} {store : TrieStore} {now : Nat} {db : ChainStorage} {saved : Blockchain}

theorem readRows_archived {l : List Nat}
    (stored : ∀ i ∈ l, ∃ row, db.loadBlock i = some row ∧ row.index = i) :
    (db.readRows l).2 = false ∧ (db.readRows l).1.map (·.index) = l := by
  induction l with
  | nil => exact ⟨rfl, rfl⟩
  | cons i _ ih =>
    obtain ⟨row, found, index⟩ := stored i mem_cons_self
    obtain ⟨whole, indices⟩ := ih fun j member => stored j (mem_cons_of_mem _ member)
    simp [readRows, found, index, whole, indices]

variable {first last : Nat}

theorem mem_heights {i : Nat} : i ∈ heights first last ↔ first ≤ i ∧ i ≤ last := by
  simp only [heights, mem_range'_1]
  omega

theorem heights_split {mid : Nat} (low : first ≤ mid + 1) (high : mid ≤ last) :
    heights first last = heights first mid ++ heights (mid + 1) last := by
  obtain ⟨m, reach⟩ : ∃ m, mid + 1 = first + m := ⟨mid + 1 - first, by omega⟩
  obtain ⟨n, rest⟩ : ∃ n, last + 1 = first + (m + n) := ⟨last + 1 - (first + m), by omega⟩
  simp only [heights, reach, rest, Nat.add_sub_cancel_left]
  rw [show first + (m + n) - (first + m) = n by omega, range'_append_1]

theorem getLast?_heights (le : first ≤ last) : (heights first last).getLast? = some last := by
  rw [heights, show last + 1 - first = (last - first) + 1 by omega, range'_concat]
  simp
  omega

def storedWindow (db : ChainStorage) (height : Nat) : List Block :=
  (db.readRows (heights (windowStart height) height)).1

variable {height : Nat}

theorem window_indices (archived : Archived db height) :
    (storedWindow db height).map (·.index) = heights (windowStart height) height :=
  (readRows_archived fun i member => archived i (mem_heights.mp member).2).2

theorem height_eq_of_indices {bc : Blockchain}
    (indices : bc.chain.map (·.index) = heights first last) (le : first ≤ last) :
    bc.height = last := by
  have top : bc.chain.getLast?.map (·.index) = some last := by
    rw [← List.getLast?_map, indices, getLast?_heights le]
  simp [height, top]

theorem loadWindow_archived (archived : Archived db height) :
    loadWindow height db = .ok (storedWindow db height) db := by
  have whole : (db.readRows (heights (windowStart height) height)).2 = false :=
    (readRows_archived fun i member => archived i (mem_heights.mp member).2).1
  have split : db.readRows (heights (windowStart height) height) =
      (storedWindow db height, false) := Prod.ext rfl whole
  unfold loadWindow
  refine bind_ok.mpr ⟨db, db, rfl, ?_⟩
  rw [split]
  rfl

structure Intact (store : TrieStore) (db : ChainStorage) (height : Nat) : Prop where
  committed : height = 0 ∨ ∃ root, db.trieRoots.lookup height = some root ∧
    (root = store.emptyRoot ∨ store.nodeExists db.trieNodes root = true)
  sound : ∃ u, store.verifyIntegrity (db.openTrie store height) = .ok u

theorem backfillStart_intact (intact : Intact store db height) :
    backfillStart store db height = .ok none := by
  unfold backfillStart
  rcases intact.committed with rfl | ⟨root, found, present⟩
  · rfl
  · split
    · rfl
    · rw [found]
      rcases present with rfl | present <;> simp [*]

theorem openState_intact {bc : Blockchain} (intact : Intact store db bc.height) :
    openState env store bc db =
      .ok { bc with stateTrie := some (db.openTrie store bc.height) } db := by
  have opened : initTrie env store bc db =
      .ok { bc with stateTrie := some (db.openTrie store bc.height) } db := by
    obtain ⟨u, sound⟩ := intact.sound
    refine bind_ok.mpr ⟨db, db, rfl, bind_ok.mpr ⟨none, db, ?_, bind_ok.mpr ⟨_, db, rfl, ?_⟩⟩⟩
    · rw [backfillStart_intact intact]
      rfl
    · dsimp only
      rw [sound]
      rfl
  unfold openState
  rw [opened]

def reopened (store : TrieStore) (db : ChainStorage) (saved : Blockchain) (height : Nat) :
    Blockchain :=
  rebuildMempoolSidecars { saved.persisted with
    chain := storedWindow db height, stateTrie := some (db.openTrie store height) }

theorem windowStart_le (height : Nat) : windowStart height ≤ height := by
  unfold windowStart
  exact Nat.sub_le _ _

theorem load_reopens (state : db.state = some saved.persisted) (tip : db.height = some height)
    (archived : Archived db height) (intact : Intact store db height) {r : Blockchain}
    {db' : ChainStorage} :
    loadBlockchain env store now db = .ok (some r) db' ↔
      finishLoading env store now height (reopened store db saved height) db = .ok r db' := by
  have stored : db.loadHeight = height := by simp [loadHeight, tip]
  have filled : ({ saved.persisted with chain := storedWindow db height } : Blockchain).height =
      height := height_eq_of_indices (window_indices archived) (windowStart_le height)
  have opened : openState env store { saved.persisted with chain := storedWindow db height } db = _ :=
    openState_intact (filled.symm ▸ intact)
  rw [filled] at opened
  have reached : loadBlockchain env store now db =
      (do
        let bc ← finishLoading env store now height (reopened store db saved height)
        pure (some bc)) db := by
    refine (bind_of_ok (u := db) rfl).trans ?_
    rw [state]
    dsimp only
    rw [stored, bind_of_ok (loadWindow_archived archived), bind_of_ok opened]
    rfl
  rw [reached, bind_ok]
  constructor
  · rintro ⟨bc, u, finished, done⟩
    obtain ⟨same, rfl⟩ := pure_ok.mp done
    cases same
    exact finished
  · intro finished
    exact ⟨r, db', finished, rfl⟩

end

section
variable {leaf : Address → Option (Nat × Nat)} {db other : AccountDB} {a : Address}

def Agrees (leaf : Address → Option (Nat × Nat)) (db : AccountDB) (a : Address) : Prop :=
  ∀ held, leaf a = some held → held = (db.getBalance a, db.getNonce a)

instance : Decidable (Agrees leaf db a) :=
  match found : leaf a with
  | none => isTrue fun held impossible => by rw [found] at impossible; cases impossible
  | some held => decidable_of_iff (held = (db.getBalance a, db.getNonce a))
      ⟨fun same other found' => by rw [found] at found'; cases found'; exact same,
        fun agrees => agrees held found⟩

def repairedEntry (leaf : Address → Option (Nat × Nat)) (db : AccountDB) (a : Address) :
    Option Account :=
  match leaf a with
  | none => db.accounts.lookup a
  | some held =>
    if held = (db.getBalance a, db.getNonce a) then db.accounts.lookup a
    else some { db.getOrCreate a with balance := held.1, nonce := held.2 }

theorem repairedEntry_of_agrees (agrees : Agrees leaf db a) :
    repairedEntry leaf db a = db.accounts.lookup a := by
  unfold repairedEntry
  cases found : leaf a with
  | none => rfl
  | some held => simp [agrees held found]

theorem repairAccount_cases (leaf : Address → Option (Nat × Nat)) (db : AccountDB) (n : Nat)
    (a : Address) :
    (Agrees leaf db a ∧ repairAccount leaf (db, n) a = (db, n)) ∨
      (¬ Agrees leaf db a ∧ ∃ acct, repairedEntry leaf db a = some acct ∧
        repairAccount leaf (db, n) a =
          ({ db with accounts := db.accounts.insert a acct }, n + 1)) := by
  unfold repairAccount repairedEntry Agrees
  cases found : leaf a with
  | none =>
    left
    exact ⟨by simp, rfl⟩
  | some held =>
    obtain ⟨balance, nonce⟩ := held
    by_cases same : balance = db.getBalance a ∧ nonce = db.getNonce a
    · left
      refine ⟨fun held found => ?_, if_pos same⟩
      cases found
      exact Prod.ext same.1 same.2
    · right
      have differs : (balance, nonce) ≠ (db.getBalance a, db.getNonce a) := by
        simpa [Prod.ext_iff] using same
      refine ⟨fun agrees => differs (agrees _ rfl), _, if_neg differs, ?_⟩
      exact if_neg same

theorem repair_congr (same : db.accounts.lookup a = other.accounts.lookup a) :
    (Agrees leaf db a ↔ Agrees leaf other a) ∧ repairedEntry leaf db a = repairedEntry leaf other a := by
  have balance : db.getBalance a = other.getBalance a := by simp only [AccountDB.getBalance, same]
  have nonce : db.getNonce a = other.getNonce a := by simp only [AccountDB.getNonce, same]
  have account : db.getOrCreate a = other.getOrCreate a := by
    simp only [AccountDB.getOrCreate, same]
  constructor
  · simp only [Agrees, balance, nonce]
  · unfold repairedEntry
    rw [balance, nonce, account, same]

structure Repaired (leaf : Address → Option (Nat × Nat)) (l : List Address) (db : AccountDB)
    (n : Nat) (done : AccountDB × Nat) : Prop where
  frame : done.1 = { db with accounts := done.1.accounts }
  entries : ∀ a, done.1.accounts.lookup a =
    if a ∈ l then repairedEntry leaf db a else db.accounts.lookup a
  grows : n ≤ done.2
  idle : done.2 = n ↔ ∀ a ∈ l, Agrees leaf db a
  same : done.2 = n → done.1 = db

theorem repaired_foldl {l : List Address} (distinct : l.Nodup) : ∀ (db : AccountDB) (n : Nat),
    Repaired leaf l db n (l.foldl (repairAccount leaf) (db, n)) := by
  induction l with
  | nil =>
    intro db n
    exact ⟨rfl, fun _ => by simp, Nat.le_refl n, by simp, fun _ => rfl⟩
  | cons a _ ih =>
    intro db n
    obtain ⟨fresh, distinct⟩ := List.nodup_cons.mp distinct
    rw [foldl_cons]
    obtain ⟨agrees, step⟩ | ⟨differs, acct, entry, step⟩ := repairAccount_cases leaf db n a
    · rw [step]
      have rest := ih distinct db n
      refine ⟨rest.frame, ?_, rest.grows, ?_, rest.same⟩
      · intro x
        rw [rest.entries]
        by_cases first : x = a
        · subst first
          simp [fresh, repairedEntry_of_agrees agrees]
        · simp [first]
      · rw [rest.idle]
        simp [agrees]
    · rw [step]
      have rest := ih distinct { db with accounts := db.accounts.insert a acct } (n + 1)
      have other (x : Address) (apart : x ≠ a) :
          (db.accounts.insert a acct).lookup x = db.accounts.lookup x :=
        AList.lookup_insert_ne apart
      refine ⟨rest.frame, ?_, Nat.le_of_succ_le rest.grows, ?_, ?_⟩
      · intro x
        rw [rest.entries]
        by_cases first : x = a
        · subst first
          simp [fresh, entry]
        · have same : repairedEntry leaf { db with accounts := db.accounts.insert a acct } x =
              repairedEntry leaf db x := (repair_congr (other x first)).2
          simp [first, same, other x first]
      · have moved := rest.grows
        constructor
        · intro count
          omega
        · intro all
          exact absurd (all a mem_cons_self) differs
      · have moved := rest.grows
        intro count
        omega

theorem nodup_reconciledAddresses (bc : Blockchain) : bc.reconciledAddresses.Nodup :=
  (perm_insertionSort _ _).nodup_iff.mpr (nodup_dedup _)

/-- The blocks in between moved nothing but balances and nonces, and those of accounts
that are looked up and have a leaf. -/
structure Covered (leaf : Address → Option (Nat × Nat)) (saved final : Blockchain) : Prop where
  elsewhere : SameElsewhere saved final
  leaves : ∀ a ∈ saved.reconciledAddresses, Agrees leaf final.accounts a
  moved : ∀ a, final.accounts.accounts.lookup a ≠ saved.accounts.accounts.lookup a →
    a ∈ saved.reconciledAddresses ∧ (leaf a).isSome ∧
      (final.accounts.getBalance a, final.accounts.getNonce a) ≠
        (saved.accounts.getBalance a, saved.accounts.getNonce a) ∧
      final.accounts.accounts.lookup a = some { saved.accounts.getOrCreate a with
        balance := final.accounts.getBalance a, nonce := final.accounts.getNonce a }

theorem lookup_balance_nonce {acct : Account} (found : db.accounts.lookup a = some acct) :
    (db.getBalance a, db.getNonce a) = (acct.balance, acct.nonce) := by
  simp [AccountDB.getBalance, AccountDB.getNonce, found]

theorem covered_iff {saved final : Blockchain} :
    Covered leaf saved final ↔ SameElsewhere saved final ∧
      ∀ a, (if a ∈ saved.reconciledAddresses then repairedEntry leaf saved.accounts a
        else saved.accounts.accounts.lookup a) = final.accounts.accounts.lookup a := by
  constructor
  · rintro ⟨elsewhere, leaves, moved⟩
    refine ⟨elsewhere, fun a => ?_⟩
    by_cases same : final.accounts.accounts.lookup a = saved.accounts.accounts.lookup a
    · split
      · rename_i member
        rw [same]
        exact repairedEntry_of_agrees ((repair_congr same).1.mp (leaves a member))
      · exact same.symm
    · obtain ⟨member, present, differs, entry⟩ := moved a same
      obtain ⟨held, found⟩ := Option.isSome_iff_exists.mp present
      have true_leaf := leaves a member held found
      rw [if_pos member, entry, repairedEntry, found]
      dsimp only
      rw [true_leaf, if_neg differs]
  · rintro ⟨elsewhere, entries⟩
    refine ⟨elsewhere, ?_, ?_⟩
    · intro a member held found
      have entry := entries a
      rw [if_pos member, repairedEntry, found] at entry
      dsimp only at entry
      split at entry
      · rename_i same
        simp only [AccountDB.getBalance, AccountDB.getNonce, ← entry]
        exact same
      · exact (lookup_balance_nonce entry.symm).symm
    · intro a changed
      have entry := entries a
      have member : a ∈ saved.reconciledAddresses := by
        by_contra absent
        rw [if_neg absent] at entry
        exact changed entry.symm
      rw [if_pos member, repairedEntry] at entry
      cases found : leaf a with
      | none =>
        rw [found] at entry
        exact absurd entry.symm changed
      | some held =>
        rw [found] at entry
        dsimp only at entry
        split at entry
        · exact absurd entry.symm changed
        · rename_i differs
          have balances := lookup_balance_nonce entry.symm
          refine ⟨member, rfl, ?_, ?_⟩
          · rw [balances]
            exact differs
          · rw [← entry]
            obtain ⟨balance, nonce⟩ := Prod.ext_iff.mp balances
            dsimp only at balance nonce
            rw [balance, nonce]

end

def reapply (env : Platform) (now : Nat) : List Block → Blockchain → Option Blockchain
  | [], bc => some bc
  | b :: rest, bc =>
    match addBlockFromPeer env now b bc with
    | .ok _ next => reapply env now rest next
    | .error _ _ => none

section
variable {env : Platform} {store : TrieStore} {now : Nat} {missing : Nat → SentrixError}
  {saved : Blockchain}

theorem replayBlocks_ok {rows : List Block} :
    ∀ {first : Nat} {bc r : Blockchain} {db : ChainStorage},
      (∀ k, (h : k < rows.length) → db.loadBlock (first + k) = some rows[k]) →
      ((∃ db', replayBlocks env now missing (range' first rows.length) bc db = .ok r db') ↔
        reapply env now rows bc = some r) := by
  induction rows with
  | nil =>
    intro first bc r db _
    constructor
    · rintro ⟨db', done⟩
      rw [(pure_ok.mp done).1]
      rfl
    · intro done
      cases done
      exact ⟨db, rfl⟩
  | cons b rest ih =>
    intro first bc r db stored
    have found : db.loadBlock first = some b := stored 0 (Nat.succ_pos _)
    have later (k : Nat) (h : k < rest.length) : db.loadBlock (first + 1 + k) = some rest[k] := by
      rw [Nat.add_assoc, Nat.add_comm 1 k]
      exact stored (k + 1) (Nat.succ_lt_succ h)
    have read : (fromOption (db.loadBlock first) (missing first) :
        EStateM SentrixError ChainStorage Block) db = .ok b db := by
      rw [found]
      rfl
    rw [length_cons, range'_succ, replayBlocks, bind_of_ok (m := get) (u := db) rfl,
      bind_of_ok read, reapply]
    cases addBlockFromPeer env now b bc with
    | error =>
      constructor
      · rintro ⟨_, impossible⟩
        exact absurd impossible throw_ok
      · intro impossible
        cases impossible
    | ok _ next =>
      apply ih
      intro k h
      cases next.stateTrie with
      | none => exact later k h
      | some => exact later k h

theorem Persisting.level {n final : Node} {rows : List Block} (run : Persisting env n rows final) :
    ∀ {bc r : Blockchain}, Level n.chain bc → reapply env now rows bc = some r →
      Level final.chain r := by
  induction run with
  | done =>
    intro bc r level done
    cases done
    exact level
  | block accepted top _ _ ih =>
    intro bc r level done
    unfold reapply at done
    split at done
    · rename_i next again
      exact ih (level.step accepted top again) done
    · cases done

theorem nonempty_of_reapply {b : Block} {rest : List Block} {bc r : Blockchain}
    (done : reapply env now (b :: rest) bc = some r) : bc.chain ≠ [] := by
  unfold reapply at done
  split at done
  · rename_i next accepted
    obtain ⟨_, _, header, -⟩ := addBlockWithSource_ok accepted
    obtain ⟨previous, latest, -⟩ := checkHeader_ok header
    intro empty
    have found : bc.chain.getLast? = some previous := latestBlock_ok.mp latest
    simp [empty] at found
  · cases done

theorem level_reopened {db : ChainStorage} {height : Nat} (archived : Archived db height)
    (behind : saved.height ≤ height)
    (reaches : ((reopened store db saved height).cutBack saved.height).chain ≠ []) :
    Level saved ((reopened store db saved height).cutBack saved.height) := by
  refine ⟨rfl, rfl, rfl, ?_⟩
  have indices : (reopened store db saved height).chain.map (·.index) =
      heights (windowStart height) height := window_indices archived
  have kept : ((reopened store db saved height).cutBack saved.height).chain.map (·.index) =
      (heights (windowStart height) height).filter (· ≤ saved.height) := by
    rw [← indices, filter_map]
    rfl
  have start : windowStart height ≤ saved.height := by
    by_contra beyond
    apply reaches
    have none_left : (heights (windowStart height) height).filter (· ≤ saved.height) = [] := by
      rw [filter_eq_nil_iff]
      intro i member
      have := (mem_heights.mp member).1
      simp only [decide_eq_true_eq]
      omega
    rw [none_left] at kept
    exact List.map_eq_nil_iff.mp kept
  have cut : (heights (windowStart height) height).filter (· ≤ saved.height) =
      heights (windowStart height) saved.height := by
    rw [heights_split (by omega) behind, filter_append]
    have below : (heights (windowStart height) saved.height).filter (· ≤ saved.height) =
        heights (windowStart height) saved.height := by
      rw [filter_eq_self]
      intro i member
      exact decide_eq_true (mem_heights.mp member).2
    have above : (heights (saved.height + 1) height).filter (· ≤ saved.height) = [] := by
      rw [filter_eq_nil_iff]
      intro i member
      have := (mem_heights.mp member).1
      simp only [decide_eq_true_eq]
      omega
    rw [below, above, append_nil]
  exact (height_eq_of_indices (kept.trans cut) start).symm

end

theorem saveBlockchain_blobHeight (bc : Blockchain) (db : ChainStorage) :
    (db.saveBlockchain bc).blobHeight = some bc.height := by
  have kept := foldl_keeps blobHeight (fun (db : ChainStorage) b => (rfl : (db.putBlock b).blobHeight = _))
    bc.chain { db with state := some bc.persisted, blobHeight := some bc.height }
  unfold saveBlockchain
  split <;> exact kept

section
variable {env : Platform} {store : TrieStore} {now : Nat} {db : ChainStorage}
  {saved final : Blockchain}

def leavesAt (env : Platform) (store : TrieStore) (db : ChainStorage) (height : Nat) :
    Address → Option (Nat × Nat) :=
  leafAccount env.wire store (db.openTrie store height)

/-- The saved state is taken for that of the given height: the emission schedule gives
its supply, and no leaf contradicts its accounts. -/
def LooksCurrent (env : Platform) (store : TrieStore) (db : ChainStorage) (saved : Blockchain)
    (height : Nat) : Prop :=
  recomputeTotalMinted env.forks height = saved.totalMinted ∧
    ∀ a ∈ saved.reconciledAddresses, Agrees (leavesAt env store db height) saved.accounts a

def reconciled (env : Platform) (store : TrieStore) (db : ChainStorage) (saved : Blockchain)
    (height : Nat) : AccountDB × Nat :=
  saved.reconciledAddresses.foldl (repairAccount (leavesAt env store db height))
    (saved.accounts.clearTouchedInBlock, 0)

theorem repaired_reconciled (height : Nat) :
    Repaired (leavesAt env store db height) saved.reconciledAddresses
      saved.accounts.clearTouchedInBlock 0 (reconciled env store db saved height) :=
  repaired_foldl (nodup_reconciledAddresses saved) _ _

variable {height : Nat}

theorem looksCurrent_iff : LooksCurrent env store db saved height ↔
    ¬ (0 < (reconciled env store db saved height).2 ∨
      recomputeTotalMinted env.forks height ≠ saved.totalMinted) := by
  have idle : (reconciled env store db saved height).2 = 0 ↔
      ∀ a ∈ saved.reconciledAddresses, Agrees (leavesAt env store db height) saved.accounts a :=
    (repaired_reconciled height).idle
  unfold LooksCurrent
  rw [← idle, not_or, Nat.pos_iff_ne_zero, not_not, not_not, and_comm]

def repairedState (env : Platform) (store : TrieStore) (db : ChainStorage) (saved : Blockchain)
    (height : Nat) : Blockchain :=
  { reopened store db saved height with
    accounts := (reconciled env store db saved height).1.clearTouchedInBlock }

theorem height_repairedState (archived : Archived db height) :
    (repairedState env store db saved height).height = height :=
  height_eq_of_indices (window_indices archived) (windowStart_le height)

theorem reconcile_reopened (height : Nat) :
    reconcileAccountsFromTrie env store (reopened store db saved height) =
      .ok (repairedState env store db saved height, (reconciled env store db saved height).2) := rfl

theorem finishLoading_outdated (archived : Archived db height)
    (outdated : ¬ LooksCurrent env store db saved height) :
    finishLoading env store now height (reopened store db saved height) db =
      .ok (repairedState env store db saved height)
        (db.saveBlockchain (repairedState env store db saved height)) := by
  have tip : (repairedState env store db saved height).height = height :=
    height_repairedState archived
  have stale : 0 < (reconciled env store db saved height).2 ∨
      recomputeTotalMinted env.forks (repairedState env store db saved height).height ≠
        (repairedState env store db saved height).totalMinted := by
    rw [tip]
    exact not_not.mp (looksCurrent_iff.not.mp outdated)
  have again := saveBlockchain_blobHeight (repairedState env store db saved height) db
  rw [tip] at again
  unfold finishLoading
  rw [reconcile_reopened]
  refine (bind_of_ok (u := db) rfl).trans ?_
  dsimp only
  rw [if_pos stale]
  refine (bind_of_ok rfl).trans ((bind_of_ok rfl).trans ?_)
  rw [again]
  dsimp only
  rw [if_neg (Nat.lt_irrefl height)]
  rfl

theorem repairedState_current (current : LooksCurrent env store db saved height) :
    repairedState env store db saved height = reopened store db saved height := by
  have idle : (reconciled env store db saved height).2 = 0 := by
    have := (not_or.mp (looksCurrent_iff.mp current)).1
    omega
  unfold repairedState
  rw [(repaired_reconciled height).same idle]
  rfl

theorem finishLoading_current (archived : Archived db height)
    (checkpoint : db.blobHeight = some saved.height)
    (current : LooksCurrent env store db saved height) :
    finishLoading env store now height (reopened store db saved height) db =
      (if saved.height < height then
        catchUp env now saved.height height (reopened store db saved height)
      else pure (reopened store db saved height)) db := by
  have fresh : ¬ (0 < (reconciled env store db saved height).2 ∨
      recomputeTotalMinted env.forks height ≠ (reopened store db saved height).totalMinted) :=
    looksCurrent_iff.mp current
  have unchanged := repairedState_current current
  have tip : (repairedState env store db saved height).height = height :=
    height_repairedState archived
  rw [unchanged] at tip
  unfold finishLoading
  rw [reconcile_reopened, unchanged]
  refine (bind_of_ok (u := db) rfl).trans ?_
  dsimp only
  rw [tip, if_neg fresh]
  refine (bind_of_ok (u := db) rfl).trans ?_
  rw [checkpoint]

def Restored (env : Platform) (store : TrieStore) (now : Nat) (db : ChainStorage)
    (final : Blockchain) : Prop :=
  ∃ r db', loadBlockchain env store now db = .ok (some r) db' ∧ r.height = final.height ∧
    SameBooks r final

/-- Either the missing blocks are replayed, and go through again on the newest trie; or
there is nothing to bring back but what the leaves say. -/
structure Recoverable (env : Platform) (store : TrieStore) (now : Nat) (db : ChainStorage)
    (saved final : Blockchain) (rows : List Block) : Prop where
  replayed : rows ≠ [] → LooksCurrent env store db saved final.height →
    (reapply env now rows
      ((reopened store db saved final.height).cutBack saved.height)).isSome
  covered : rows = [] ∨ ¬ LooksCurrent env store db saved final.height →
    Covered (leavesAt env store db final.height) saved final

theorem sameBooks_repairedState :
    SameBooks (repairedState env store db saved height) final ↔
      Covered (leavesAt env store db height) saved final := by
  have repaired : Repaired (leavesAt env store db height) saved.reconciledAddresses
      saved.accounts.clearTouchedInBlock 0 (reconciled env store db saved height) :=
    repaired_reconciled height
  have entries (a : Address) :
      (repairedState env store db saved height).accounts.accounts.lookup a =
        if a ∈ saved.reconciledAddresses then
          repairedEntry (leavesAt env store db height) saved.accounts a
        else saved.accounts.accounts.lookup a := repaired.entries a
  have elsewhere : SameElsewhere (repairedState env store db saved height) final ↔
      SameElsewhere saved final := by
    unfold repairedState
    rw [repaired.frame]
    exact ⟨fun same => { same with }, fun same => { same with }⟩
  rw [covered_iff, ← elsewhere]
  simp only [← entries]
  exact ⟨fun same => ⟨same.elsewhere, same.accounts⟩, fun same => ⟨same.2, same.1⟩⟩

theorem saveBlockchain_state (bc : Blockchain) (db : ChainStorage) :
    (db.saveBlockchain bc).state = some bc.persisted := by
  have kept := foldl_keeps state (fun (db : ChainStorage) b => (rfl : (db.putBlock b).state = _))
    bc.chain { db with state := some bc.persisted, blobHeight := some bc.height }
  unfold saveBlockchain
  split <;> exact kept

theorem saveBlockchain_height {bc : Blockchain} (started : bc.chain ≠ []) (db : ChainStorage) :
    (db.saveBlockchain bc).height = some bc.height := by
  obtain ⟨last, top⟩ : ∃ last, bc.chain.getLast? = some last :=
    ⟨_, List.getLast?_eq_some_getLast started⟩
  rw [height_of_top top]
  unfold saveBlockchain
  rw [top]

theorem restored_by_replay {rows : List Block} {before disk : ChainStorage}
    (run : Persisting env ⟨saved, before⟩ rows ⟨final, disk⟩)
    (journal : Journal ⟨saved, before⟩ rows ⟨final, disk⟩) (missing : rows ≠ [])
    (archived : Archived disk final.height) :
    (∃ r db', catchUp env now saved.height final.height
        (reopened store disk saved final.height) disk = .ok r db' ∧ r.height = final.height ∧
          SameBooks r final) ↔
      (reapply env now rows
        ((reopened store disk saved final.height).cutBack saved.height)).isSome := by
  have ahead : final.height = saved.height + rows.length := journal.height
  have span : heights (saved.height + 1) final.height =
      range' (saved.height + 1) rows.length := by
    unfold heights
    congr 1
    omega
  have replays (r : Blockchain) :
      (∃ db', replayBlocks env now (rowMissing saved.height final.height)
        (heights (saved.height + 1) final.height)
        ((reopened store disk saved final.height).cutBack saved.height) disk = .ok r db') ↔
      reapply env now rows ((reopened store disk saved final.height).cutBack saved.height) =
        some r := by
    rw [span]
    exact replayBlocks_ok fun k h => (journal.rows k h).1
  constructor
  · rintro ⟨r, db', caught, -⟩
    obtain ⟨r', db'', ran, -⟩ := bind_ok.mp caught
    rw [(replays r').mp ⟨db'', ran⟩]
    rfl
  · intro through
    obtain ⟨r, applied⟩ := Option.isSome_iff_exists.mp through
    obtain ⟨db', ran⟩ := (replays r).mpr applied
    have reaches : ((reopened store disk saved final.height).cutBack saved.height).chain ≠ [] := by
      obtain ⟨b, rest, rfl⟩ := exists_cons_of_ne_nil missing
      exact nonempty_of_reapply applied
    have behind : saved.height ≤ final.height := by omega
    have level : Level final r := run.level (level_reopened archived behind reaches) applied
    exact ⟨r, db'.saveBlockchain r, bind_ok.mpr ⟨r, db', ran, rfl⟩, level.symm.height,
      level.symm.sameBooks⟩

/-- Whatever blocks followed the last save: the load brings back the state of the node
exactly where the replay runs and goes through, or has nothing to do beyond the leaves. -/
theorem load_restores_iff {rows : List Block} {before disk : ChainStorage}
    (run : Persisting env ⟨saved, before.saveBlockchain saved⟩ rows ⟨final, disk⟩)
    (bounded : saved.height + rows.length ≤ u64Max) (started : saved.chain ≠ [])
    (archived : Archived (before.saveBlockchain saved) saved.height)
    (intact : Intact store disk final.height) :
    Restored env store now disk final ↔ Recoverable env store now disk saved final rows := by
  have journal := run.journal bounded
  have archived : Archived disk final.height := journal.archived archived
  have state : disk.state = some saved.persisted :=
    journal.state.trans (saveBlockchain_state saved before)
  have tip : disk.height = some final.height := journal.tip (saveBlockchain_height started before)
  have checkpoint : disk.blobHeight = some saved.height :=
    journal.blobHeight.trans (saveBlockchain_blobHeight saved before)
  have ahead : final.height = saved.height + rows.length := journal.height
  have loads : Restored env store now disk final ↔ ∃ r db',
      finishLoading env store now final.height (reopened store disk saved final.height) disk =
        .ok r db' ∧ r.height = final.height ∧ SameBooks r final := by
    simp only [Restored, load_reopens state tip archived intact]
  have unreplayed {db' : ChainStorage}
      (finished : finishLoading env store now final.height
        (reopened store disk saved final.height) disk =
          .ok (repairedState env store disk saved final.height) db') :
      Restored env store now disk final ↔
        Covered (leavesAt env store disk final.height) saved final := by
    rw [loads, ← sameBooks_repairedState, finished]
    constructor
    · rintro ⟨r, _, same, -, books⟩
      cases same
      exact books
    · intro books
      exact ⟨_, _, rfl, height_repairedState archived, books⟩
  by_cases current : LooksCurrent env store disk saved final.height
  · have resumed : finishLoading env store now final.height _ disk = _ :=
      finishLoading_current archived checkpoint current
    by_cases missing : rows = []
    · have level : ¬ saved.height < final.height := by simp [ahead, missing]
      have finished : finishLoading env store now final.height
          (reopened store disk saved final.height) disk =
            .ok (repairedState env store disk saved final.height) disk := by
        rw [resumed, if_neg level, repairedState_current current]
        rfl
      rw [unreplayed finished]
      exact ⟨fun covered => ⟨fun absent => absurd missing absent, fun _ => covered⟩,
        fun recoverable => recoverable.covered (.inl missing)⟩
    · have due : saved.height < final.height := by
        have := length_pos_of_ne_nil missing
        omega
      rw [loads, resumed, if_pos due, restored_by_replay run journal missing archived]
      exact ⟨fun through => ⟨fun _ _ => through, fun either => by tauto⟩,
        fun recoverable => recoverable.replayed missing current⟩
  · rw [unreplayed (finishLoading_outdated archived current)]
    exact ⟨fun covered => ⟨fun _ claimed => absurd claimed current, fun _ => covered⟩,
      fun recoverable => recoverable.covered (.inr current)⟩

end

def founderKeys : List (Bytes × Hash) :=
  [(rootOf "7e5f4552091a69125d5dfcb7b8c2659029395bdf",
    "d6f781065c489e6513f45bc3dab82156055056d393c42f49a4defec22b5ee73f"),
   (rootOf "2b5ad5c4795c026514f8317c7a215e218dccd6cf",
    "5c47c7880d04e20e33d3c5ccab26586f2d907065c2c1c212de66af1767513367"),
   (List.replicate 19 0 ++ [2], "318b8f30815253bcae6eef8ff3dbd52effd2cdc1f68ef6adbf4bd4dbe7646cb0")]

def founderWire : Wire :=
  { tableWire firstDigests with
    sha256Hex bytes :=
      ((founderKeys.find? (·.1 == bytes)).map (·.2)).getD (knownDigests firstDigests bytes) }

def firstKey : Bytes :=
  rootOf "d6f781065c489e6513f45bc3dab82156055056d393c42f49a4defec22b5ee73f"

def firstRoot : Bytes :=
  rootOf "e6dc0af7c6247577528cf9ba6f99c0271a54ea518ca8b275b2a1104b1101146b"

def founderPlatform : Platform :=
  { plainPlatform founderWire with
    forks := { Forks.off with speculativeApply := 0, rewardApplyPath := 0 }
    trie := leafTrie [([(firstKey, accountValueBytes 100000000 0)],
      "e6dc0af7c6247577528cf9ba6f99c0271a54ea518ca8b275b2a1104b1101146b")] }

def founderGenesis : Blockchain :=
  { soloGenesis with
    totalMinted := totalPremine
    accounts := { AccountDB.new with
      accounts := AList.insert secondValidator
        ⟨secondValidator, totalPremine, 0, emptyCodeHash⟩ ∅ } }

def leafStore : TrieStore where
  emptyRoot := rootOf "cfd65818c2d271d133a0d6a3f4646e136db88ad0e013315f7f499daef878c64d"
  nodeExists _ root := root == firstRoot
  verifyIntegrity _ := .ok ()
  get trie key := .ok (trie.nodes.lookup key)

def rootedFirst : Block := stampRoot firstRoot firstBlock

def founderDisk : ChainStorage :=
  saveBlockchain founderGenesis ⟨none, none, none, ∅, ∅, ∅, ∅⟩

def afterFirst : Blockchain :=
  finalState (addBlock founderPlatform 1700000001 firstBlock) founderGenesis

def firstTrie : SentrixTrie :=
  afterFirst.stateTrie.getD ⟨[], 0, false, ∅⟩

def crashedDisk : ChainStorage :=
  saveBlock rootedFirst (commitTrie 1 firstTrie founderDisk)

theorem afterFirst_facts :
    succeeds (addBlock founderPlatform 1700000001 firstBlock) founderGenesis = true ∧
      afterFirst.chain.getLast? = some rootedFirst ∧ afterFirst.stateTrie.isSome = true ∧
      afterFirst.totalMinted = totalPremine + blockReward := by
  decide +kernel

theorem first_accepted :
    addBlock founderPlatform 1700000001 firstBlock founderGenesis = .ok () afterFirst := by
  obtain ⟨u, after, ran⟩ := succeeds_iff.mp afterFirst_facts.1
  rw [ran, afterFirst, finalState_ok ran]

theorem first_committed : afterFirst.stateTrie = some firstTrie := by
  obtain ⟨trie, found⟩ := Option.isSome_iff_exists.mp afterFirst_facts.2.2.1
  rw [firstTrie, found]
  rfl

theorem height_afterFirst : afterFirst.height = 1 :=
  height_of_top afterFirst_facts.2.1

theorem intact_of_root {db : ChainStorage}
    (root : db.trieRoots.lookup 1 = some firstRoot) :
    Intact leafStore db afterFirst.height where
  committed := .inr ⟨_, height_afterFirst.symm ▸ root, .inr (beq_self_eq_true _)⟩
  sound := ⟨(), rfl⟩

def loadedSupply (db : ChainStorage) : Option Nat :=
  match loadBlockchain founderPlatform leafStore 1700000002 db with
  | .ok (some r) _ => some r.totalMinted
  | _ => none

theorem crashedDisk_facts :
    crashedDisk.trieRoots.lookup 1 = some firstRoot ∧
      loadedSupply crashedDisk = some totalPremine := by
  decide +kernel

/-- The load succeeds, but the block's reward is missing from the supply. -/
theorem first_block_lost :
    Persisting founderPlatform ⟨founderGenesis, founderDisk⟩ [rootedFirst] ⟨afterFirst, crashedDisk⟩ ∧
      Archived founderDisk founderGenesis.height ∧ Intact leafStore crashedDisk afterFirst.height ∧
      ¬ Restored founderPlatform leafStore 1700000002 crashedDisk afterFirst := by
  refine ⟨.block first_accepted afterFirst_facts.2.1 first_committed (.done _), ?_,
    intact_of_root crashedDisk_facts.1, ?_⟩
  · intro i within
    obtain rfl : i = 0 := Nat.le_zero.mp within
    exact ⟨genesisBlock, by decide, rfl⟩
  · rintro ⟨r, db', loaded, -, books⟩
    have supply := crashedDisk_facts.2
    rw [loadedSupply, loaded] at supply
    have lost : r.totalMinted = totalPremine := Option.some.inj supply
    have same : r.totalMinted = afterFirst.totalMinted := books.elsewhere.totalMinted
    rw [lost, afterFirst_facts.2.2.2] at same
    exact absurd same (by decide)

def savedDisk : ChainStorage :=
  crashedDisk.saveBlockchain afterFirst

theorem savedDisk_facts :
    savedDisk.loadBlock 0 = some genesisBlock ∧ savedDisk.loadBlock 1 = some rootedFirst ∧
      savedDisk.trieRoots.lookup 1 = some firstRoot ∧
      ∀ a ∈ afterFirst.reconciledAddresses,
        Agrees (leavesAt founderPlatform leafStore savedDisk 1) afterFirst.accounts a := by
  decide +kernel

/-- Saved at the newest block, the node comes back as it was. -/
theorem clean_restart :
    Restored founderPlatform leafStore 1700000002 savedDisk afterFirst := by
  have archived : Archived savedDisk afterFirst.height := by
    rw [height_afterFirst]
    intro i within
    obtain rfl | rfl : i = 0 ∨ i = 1 := by omega
    · exact ⟨genesisBlock, savedDisk_facts.1, rfl⟩
    · exact ⟨rootedFirst, savedDisk_facts.2.1, rfl⟩
  have started : afterFirst.chain ≠ [] := by
    intro empty
    have top := afterFirst_facts.2.1
    rw [empty] at top
    cases top
  refine (load_restores_iff (.done _) (by rw [height_afterFirst]; decide) started archived
    (intact_of_root savedDisk_facts.2.2.1)).mpr ⟨fun absent => absurd rfl absent, fun _ => ?_⟩
  refine ⟨⟨rfl, rfl, rfl, fun _ => rfl, rfl, rfl, rfl, rfl, rfl, fun _ => rfl, fun _ => rfl⟩, ?_,
    fun a changed => absurd rfl changed⟩
  rw [height_afterFirst]
  exact savedDisk_facts.2.2.2

end Blockchain
end SentrixCore
