import Sentrix.Core.Executor

/-!
The chain database and what a node makes of it at start. Loading takes the saved state,
fills the window from the rows, opens the trie at the stored height, copies balances and
nonces from its leaves, and replays the rows the saved state is behind by.
-/
namespace SentrixCore
open MachineWords HashTable Effects SentrixPrimitives

structure TrieStore where
  emptyRoot : Bytes
  nodeExists : Table Bytes Bytes → Bytes → Bool
  verifyIntegrity : SentrixTrie → Except SentrixError Unit
  get : SentrixTrie → Bytes → Except SentrixError (Option Bytes)

structure ChainStorage where
  state : Option Blockchain
  blobHeight : Option Nat
  height : Option Nat
  blocks : Table Nat Block
  blockHashes : Table Hash Nat
  trieRoots : Table Nat Bytes
  trieNodes : Table Bytes Bytes
  deriving DecidableEq

def Blockchain.persisted (bc : Blockchain) : Blockchain :=
  { bc with
    chain := []
    accounts := bc.accounts.clearTouchedInBlock
    mempoolTxids := []
    mempoolSenderCount := ∅
    stateTrie := none
    sourceForCurrentAdd := .selfProduced
    currentAddJustificationVerified := false }

namespace ChainStorage

def putBlock (db : ChainStorage) (b : Block) : ChainStorage :=
  { db with
    blocks := db.blocks.insert b.index b
    blockHashes := db.blockHashes.insert b.hash b.index }

def saveBlockchain (bc : Blockchain) (db : ChainStorage) : ChainStorage :=
  let written := bc.chain.foldl putBlock
    { db with state := some bc.persisted, blobHeight := some bc.height }
  match bc.chain.getLast? with
  | some last => { written with height := some last.index }
  | none => written

def saveBlock (b : Block) (db : ChainStorage) : ChainStorage :=
  { db.putBlock b with height := some b.index }

def saveBlocks (blocks : List Block) (db : ChainStorage) : ChainStorage :=
  match blocks.getLast? with
  | some last => { blocks.foldl putBlock db with height := some last.index }
  | none => db

def saveHeight (height : Nat) (db : ChainStorage) : ChainStorage :=
  { db with height := some height }

def commitTrie (version : Nat) (trie : SentrixTrie) (db : ChainStorage) : ChainStorage :=
  { db with
    trieRoots := db.trieRoots.insert version trie.root
    trieNodes := trie.nodes }

def loadBlock (db : ChainStorage) (index : Nat) : Option Block :=
  db.blocks.lookup index

def loadHeight (db : ChainStorage) : Nat :=
  db.height.getD 0

def openTrie (store : TrieStore) (db : ChainStorage) (version : Nat) : SentrixTrie :=
  ⟨(db.trieRoots.lookup version).getD store.emptyRoot, version, false, db.trieNodes⟩

def readRows (db : ChainStorage) : List Nat → List Block × Bool
  | [] => ([], false)
  | i :: rest =>
    match db.loadBlock i with
    | some b => let (blocks, gap) := db.readRows rest; (b :: blocks, gap)
    | none => ([], true)

def lastStored (db : ChainStorage) : Nat → Nat
  | 0 => 0
  | h + 1 => if (db.loadBlock (h + 1)).isSome then h + 1 else db.lastStored h

@[irreducible] def windowStart (height : Nat) : Nat :=
  height - (chainWindowSize - 1)

def heights (first last : Nat) : List Nat :=
  List.range' first (last + 1 - first)

/-- With a row missing the stored height is put back to the last one read. -/
def loadWindow (height : Nat) : EStateM SentrixError ChainStorage (List Block) := do
  let db ← get
  match db.readRows (heights (windowStart height) height) with
  | (blocks, false) => pure blocks
  | (blocks, true) =>
    match blocks.getLast? with
    | some last => do
      modify (saveHeight last.index)
      pure blocks
    | none => do
      let effective := db.lastStored (windowStart height - 1)
      modify (saveHeight effective)
      pure ((heights (windowStart effective) effective).filterMap db.loadBlock)

end ChainStorage

namespace Blockchain
open ChainStorage

def funded (db : AccountDB) : List Account :=
  ((db.accounts.pairs.map (·.2)).filter (0 < ·.balance)).insertionSort (·.address ≤ ·.address)

/-- Where a rebuild from the accounts has to start, if one is needed: nothing was
committed at this height, or the root's node is gone. -/
def backfillStart (store : TrieStore) (db : ChainStorage) (height : Nat) :
    Except SentrixError (Option SentrixTrie) :=
  if height = 0 then .ok none
  else
    match db.trieRoots.lookup height with
    | none => .ok (some (db.openTrie store height))
    | some root =>
      if root == store.emptyRoot || store.nodeExists db.trieNodes root then .ok none
      else if stateRootForkHeight ≤ height then
        .error (.internal ("trie: committed root " ++ hexEncode root ++ " for height " ++
          toString height ++ " is recorded but its node is missing — chain.db trie is corrupt. " ++
           "Refusing to rebuild from AccountDB past the state-root fork (a balance/nonce-only " ++
           "backfill would silently fork). Recover via whole-trie rsync of chain.db from a healthy " ++
           "peer with all validators stopped, not `sentrix state import` + reset_trie."))
      else .ok (some ((db.openTrie store height).setRoot store.emptyRoot))

def backfill (env : Platform) (height : Nat) (accounts : List Account) :
    EStateM SentrixError SentrixTrie Bytes := do
  accounts.forM fun a =>
    env.trie.insert (addressToKey env.wire a.address) (accountValueBytes a.balance a.nonce)
  env.trie.commit height

def backfillMatches (bc : Blockchain) (root : Bytes) : Bool :=
  bc.chain.getLast?.all fun b => b.stateRoot.all (· == root)

def rebuildTrie (env : Platform) (bc : Blockchain) (start : SentrixTrie) :
    EStateM SentrixError ChainStorage SentrixTrie :=
  if (funded bc.accounts).isEmpty then pure start
  else
    match backfill env bc.height (funded bc.accounts) start with
    | .error e _ => throw e
    | .ok root trie => do
      modify (commitTrie bc.height trie)
      ensure (bc.backfillMatches root) (.internal ("trie backfill at height " ++
        toString bc.height ++ " produced root " ++ hexEncode root ++ " but the block header at " ++
         "that height records state_root " ++
        (((bc.chain.getLast?.bind (·.stateRoot)).map hexEncode).getD "") ++
        ". The rebuilt trie disagrees with the canonical chain (bug #3). Refusing to start to " ++
         "prevent a silent state fork. Recovery: rsync /opt/sentrix/data/chain.db from a healthy " ++
         "peer with all validators stopped, instead of `sentrix state import` + reset_trie."))
      pure trie

def initTrie (env : Platform) (store : TrieStore) (bc : Blockchain) :
    EStateM SentrixError ChainStorage Blockchain := do
  let db ← get
  let start ← fromExcept (backfillStart store db bc.height)
  let trie ← match start with
    | none => pure (db.openTrie store bc.height)
    | some start => rebuildTrie env bc start
  match store.verifyIntegrity trie with
  | .ok _ => pure ()
  | .error e => ensure (bc.height < stateRootForkHeight) (.internal
      ("trie integrity check failed at height " ++ toString bc.height ++ ": " ++ e.text))
  pure { bc with stateTrie := some trie }

/-- Below the state-root fork the node starts without a trie. -/
def openState (env : Platform) (store : TrieStore) (bc : Blockchain) :
    EStateM SentrixError ChainStorage Blockchain := fun db =>
  match initTrie env store bc db with
  | .ok opened db' => .ok opened db'
  | .error e db' =>
    if stateRootForkHeight ≤ bc.height then
      .error (.internal ("trie init failed at height " ++ toString bc.height ++ ": " ++ e.text ++
        ". Past STATE_ROOT_FORK_HEIGHT the trie must be functional — state_root is part of the " ++
         "block hash and silent trie failure causes chain forks. Resync from peers or wipe data " ++
         "dir to recover.")) db'
    else .ok bc db'

def bigEndian (bytes : Bytes) : Nat :=
  bytes.foldl (fun n byte => n * 256 + byte.toNat) 0

def accountValueDecode (bytes : Bytes) : Option (Nat × Nat) :=
  if bytes.length < 16 then none
  else some (bigEndian (bytes.take 8), bigEndian ((bytes.drop 8).take 8))

/-- A leaf that cannot be read counts as absent. -/
def leafAccount (w : Wire) (store : TrieStore) (trie : SentrixTrie) (a : Address) :
    Option (Nat × Nat) :=
  match store.get trie (addressToKey w a) with
  | .ok leaf => leaf.bind accountValueDecode
  | .error _ => none

/-- The treasury, every validator, and every account that holds or has sent something. -/
def reconciledAddresses (bc : Blockchain) : List Address :=
  (protocolTreasury :: (bc.stakeRegistry.activeSet ++ bc.stakeRegistry.validators.keys ++
    (bc.accounts.accounts.pairs.filter fun e => 0 < e.2.balance || 0 < e.2.nonce).map
      (·.1))).dedup.insertionSort (· ≤ ·)

def repairAccount (leaf : Address → Option (Nat × Nat)) (done : AccountDB × Nat) (a : Address) :
    AccountDB × Nat :=
  match leaf a with
  | none => done
  | some (balance, nonce) =>
    if balance = done.1.getBalance a ∧ nonce = done.1.getNonce a then done
    else (done.1.update a fun acct => { acct with balance := balance, nonce := nonce }, done.2 + 1)

def reconcileAccountsFromTrie (env : Platform) (store : TrieStore) (bc : Blockchain) :
    Except SentrixError (Blockchain × Nat) :=
  match bc.stateTrie with
  | none => .error (.internal
      "B3 reconcile: state_trie is None — init_trie must run before reconcile")
  | some trie =>
    let done := bc.reconciledAddresses.foldl (repairAccount (leafAccount env.wire store trie))
      (bc.accounts, 0)
    .ok ({ bc with accounts := done.1.clearTouchedInBlock }, done.2)

def totalPremine : Nat := 63000000 * 100000000

def scheduledReward (forks : Forks) (height : Nat) : Nat :=
  if 64 ≤ halvingsAt forks height then 0 else blockReward >>> halvingsAt forks height

def recomputeTotalMinted (forks : Forks) (tip : Nat) : Nat :=
  (heights 1 tip).foldl (fun total h => satAdd64 total (scheduledReward forks h)) totalPremine

def replayFailed (height : Nat) (e : SentrixError) : SentrixError :=
  .internal ("load_blockchain replay failed at h=" ++ toString height ++ ": " ++ e.text)

/-- Each row goes through `add_block_from_peer`, which commits its trie root again. -/
def replayBlocks (env : Platform) (now : Nat) (missing : Nat → SentrixError) :
    List Nat → Blockchain → EStateM SentrixError ChainStorage Blockchain
  | [], bc => pure bc
  | h :: rest, bc => do
    let db ← get
    let b ← fromOption (db.loadBlock h) (missing h)
    match addBlockFromPeer env now b bc with
    | .error e _ => throw (replayFailed h e)
    | .ok _ next => do
      modify fun db => (next.stateTrie.map fun trie => db.commitTrie next.height trie).getD db
      replayBlocks env now missing rest next

def rowMissing (blobHeight diskHeight h : Nat) : SentrixError :=
  .internal ("load_blockchain replay: block " ++ toString h ++ " missing on disk (blob_height=" ++
    toString blobHeight ++ " disk_height=" ++ toString diskHeight ++ "); cannot reconstruct " ++
     "accounts state. Recovery: rsync chain.db from a healthy peer.")

def cutBack (bc : Blockchain) (height : Nat) : Blockchain :=
  { bc with chain := bc.chain.filter (·.index ≤ height) }

/-- The window is cut back to the saved height first. -/
def catchUp (env : Platform) (now blobHeight height : Nat) (bc : Blockchain) :
    EStateM SentrixError ChainStorage Blockchain := do
  let bc ← replayBlocks env now (rowMissing blobHeight height) (heights (blobHeight + 1) height)
    (bc.cutBack blobHeight)
  modify (saveBlockchain bc)
  pure bc

/-- From the opened state on: the stored height the load began with is kept, the
height of the saved state is read again. -/
def finishLoading (env : Platform) (store : TrieStore) (now height : Nat) (bc : Blockchain) :
    EStateM SentrixError ChainStorage Blockchain := do
  let (bc, repaired) ← fromExcept (reconcileAccountsFromTrie env store bc)
  if 0 < repaired ∨ recomputeTotalMinted env.forks bc.height ≠ bc.totalMinted then
    modify (saveBlockchain bc)
  let db ← get
  match db.blobHeight with
  | none => pure bc
  | some blobHeight =>
    if blobHeight < height then catchUp env now blobHeight height bc else pure bc

def loadBlockchain (env : Platform) (store : TrieStore) (now : Nat) :
    EStateM SentrixError ChainStorage (Option Blockchain) := do
  let db ← get
  match db.state with
  | none => pure none
  | some blob => do
    let chain ← loadWindow db.loadHeight
    let bc ← openState env store { blob with chain }
    let bc ← finishLoading env store now db.loadHeight bc.rebuildMempoolSidecars
    pure (some bc)

end Blockchain
end SentrixCore
