import Sentrix.Core.Validation

/-!
Pass 2 of `add_block`: the mutations, in the order the code makes them, and the snapshot
that is put back when one of them fails.
-/
namespace SentrixCore
open MachineWords Effects SentrixPrimitives SentrixTokens SentrixStaking

namespace Blockchain

/-- The native side: an EVM transaction only pays its fee here. -/
def chargeTransaction (env : Platform) (tx : Transaction) (totalFee : Nat) : Apply Nat :=
  if tx.isSystemTx env.wire then pure totalFee
  else do
    onAccounts (if tx.isEvmTx then AccountDB.chargeFeeOnly tx.fromAddress tx.fee
      else AccountDB.transfer tx.fromAddress tx.toAddress tx.amount tx.fee)
    fromOption (checkedAdd64 totalFee tx.fee) (.internal "block total_fee overflow")

def dispatchTokenOp (env : Platform) (b : Block) (tx : Transaction) (op : TokenOp) : Apply Unit :=
  match op with
  | .deploy name symbol decimals supply maxSupply =>
    onContracts (do
      let _ ← ContractRegistry.deploy env.wire tx.fromAddress name symbol decimals supply maxSupply
        tx.txid)
  | .transfer contract recipient amount =>
    onContracts (ContractRegistry.executeTransfer contract tx.fromAddress recipient amount)
  | .burn contract amount => onContracts (ContractRegistry.executeBurn contract tx.fromAddress amount)
  | .mint contract recipient amount =>
    onContracts (ContractRegistry.executeMint contract tx.fromAddress recipient amount)
  | .approve contract spender amount =>
    onContracts (ContractRegistry.executeApprove contract tx.fromAddress spender amount)
  | nftOp => do
    ensure (reached env.forks.nftTokenOp b.index) nftGated
    onNfts (do
      let _ ← applyNftTokenOp env.wire nftOp tx.fromAddress tx.txid)

def drainRewards (claimer : Address) (bc : Blockchain) : Blockchain :=
  let reg := bc.stakeRegistry.takeDelegatorRewards claimer
  { bc with
    stakeRegistry := match reg.getValidator claimer with
      | some v => reg.setValidator claimer { v with pendingRewards := 0 }
      | none => reg }

/-- The transfer comes first; the accumulators are drained only after it. -/
def claimRewards (claimer : Address) : Apply Unit := do
  let bc ← get
  let total := satAdd64 (bc.stakeRegistry.peekDelegatorRewards claimer)
    (((bc.stakeRegistry.getValidator claimer).map (·.pendingRewards)).getD 0)
  if 0 < total then
    onAccounts (AccountDB.transfer protocolTreasury claimer total 0)
    modify (drainRewards claimer)

/-- One entry of a verified bundle; a failing jail is logged and skipped. -/
def applyJailEvidence (currentHeight : Nat) (bc : Blockchain) (evidence : JailEvidence) :
    Blockchain :=
  match StakeRegistry.jail evidence.validator downtimeJailBlocks currentHeight bc.stakeRegistry with
  | .error _ reg => { bc with stakeRegistry := reg }
  | .ok _ reg => { bc with
      stakeRegistry := reg
      slashing := { bc.slashing with liveness := bc.slashing.liveness.reset evidence.validator } }

def applyJailEvidenceBundle (env : Platform) (epoch : Nat) (evidence : List JailEvidence)
    (activeSet : List Address) : Apply Unit := do
  let bc ← get
  ensure (reached env.forks.jailConsensus bc.height) (.invalidTransaction
    "JailEvidenceBundle dispatch is gated by JAIL_CONSENSUS_HEIGHT fork (currently disabled)")
  ensure (epoch == EpochManager.epochForHeight bc.height) (.invalidTransaction
    ("JailEvidenceBundle epoch " ++ toString epoch ++ " != current epoch " ++
      toString (EpochManager.epochForHeight bc.height)))
  ensure (!activeSet.isEmpty)
    (.invalidTransaction "JailEvidenceBundle V2: claimed active_set must be non-empty")
  ensure (activeSet.all fun v => (bc.stakeRegistry.getValidator v).isSome) (.invalidTransaction
    ("JailEvidenceBundle V2: claimed active_set contains unregistered validator " ++
      ((activeSet.find? fun v => (bc.stakeRegistry.getValidator v).isNone).getD "")))
  let recomputed := bc.slashing.computeJailEvidence activeSet bc.height
  ensure (recomputed == evidence) (.invalidTransaction
    ("JailEvidenceBundle verification failed: local recompute differs from claim (local=" ++
      toString recomputed.length ++ " claimed=" ++ toString evidence.length ++ ")"))
  modify fun bc => evidence.foldl (applyJailEvidence bc.height) bc

def noAmount (tx : Transaction) (reason : String) : Apply Unit :=
  ensure (tx.amount == 0) (.invalidTransaction reason)

def sameAmount (tx : Transaction) (amount : Nat) (label field : String) : Apply Unit :=
  ensure (tx.amount == amount) (.invalidTransaction (label ++ ": tx.amount (" ++ toString tx.amount ++
    ") must equal " ++ field ++ " (" ++ toString amount ++ ")"))

def registerValidator (now : Nat) (b : Block) (tx : Transaction)
    (selfStake commissionRate : Nat) (publicKey : String) : Apply Unit := do
  sameAmount tx selfStake "RegisterValidator" "self_stake"
  onStake (StakeRegistry.registerValidator tx.fromAddress selfStake commissionRate b.index)
  modify fun bc => { bc with
    authority := bc.authority.addValidatorUnchecked now tx.fromAddress
      ("Community:" ++ String.ofList (tx.fromAddress.toList.take 10)) publicKey }

def submitEvidence (tx : Transaction) (evidence : DoubleSignEvidence) : Apply Unit := do
  noAmount tx "SubmitEvidence: tx.amount must be 0"
  ensure (!evidence.validator.isEmpty)
    (.invalidTransaction "SubmitEvidence: offender field must be populated")
  onBench (do
    let _ ← SlashingEngine.processDoubleSign evidence)

def addSelfStake (env : Platform) (b : Block) (tx : Transaction) (amount : Nat) : Apply Unit := do
  ensure (reached env.forks.addSelfStake b.index) (.invalidTransaction
    "AddSelfStake dispatch is gated by ADD_SELF_STAKE_HEIGHT fork (currently disabled)")
  sameAmount tx amount "AddSelfStake" "stake amount"
  onStake (StakeRegistry.addSelfStake tx.fromAddress amount)
  modify fun bc => { bc with stakeRegistry := bc.stakeRegistry.updateActiveSet }

def dispatchStakingOp (env : Platform) (now : Nat) (b : Block) (tx : Transaction)
    (op : StakingOp) : Apply Unit := do
  ensure (tx.toAddress == protocolTreasury) (.invalidTransaction
    ("staking op tx must target PROTOCOL_TREASURY; got to_address=" ++ tx.toAddress))
  match op with
  | .claimRewards => claimRewards tx.fromAddress
  | .registerValidator selfStake commissionRate publicKey =>
    registerValidator now b tx selfStake commissionRate publicKey
  | .delegate validator amount => do
    sameAmount tx amount "Delegate" "delegation amount"
    onStake (StakeRegistry.delegate tx.fromAddress validator amount b.index)
  | .undelegate validator amount => do
    noAmount tx "Undelegate: tx.amount must be 0 (amount is in data field)"
    onStake (StakeRegistry.undelegate tx.fromAddress validator amount b.index)
  | .redelegate source target amount => do
    noAmount tx "Redelegate: tx.amount must be 0"
    onStake (StakeRegistry.redelegate tx.fromAddress source target amount b.index)
  | .unjail => do
    noAmount tx "Unjail: tx.amount must be 0"
    onStake (StakeRegistry.unjail tx.fromAddress b.index)
  | .submitEvidence height blockHashA blockHashB signatureA signatureB offender =>
    submitEvidence tx ⟨offender, height, blockHashA, blockHashB, signatureA, signatureB⟩
  | .jailEvidenceBundle epoch _ _ evidence activeSet =>
    applyJailEvidenceBundle env epoch evidence activeSet
  | .addSelfStake amount => addSelfStake env b tx amount

/-- EVM execution goes by the height before the block. -/
def dispatchEvm (env : Platform) (b : Block) (tx : Transaction) (bc : Blockchain) : Blockchain :=
  if tx.isEvmTx && bc.voyagerModeFor env.forks bc.height then
    { bc with
      accounts := executeEvmTxInBlock env.forks env.evm bc.chainId tx b.index bc.accounts }
  else bc

def applyTokenOp (env : Platform) (b : Block) (tx : Transaction) : Apply Unit :=
  match env.wire.tokenOp tx.data with
  | some op => dispatchTokenOp env b tx op
  | none => pure ()

def applyStakingOp (env : Platform) (now : Nat) (b : Block) (tx : Transaction) : Apply Unit :=
  match env.wire.stakingOp tx.data with
  | some op => if reached env.forks.rewardV2 b.index then dispatchStakingOp env now b tx op else pure ()
  | none => pure ()

def applyTransaction (env : Platform) (now : Nat) (b : Block) (tx : Transaction) (totalFee : Nat) :
    Apply Nat := do
  let totalFee ← chargeTransaction env tx totalFee
  applyTokenOp env b tx
  applyStakingOp env now b tx
  modify (dispatchEvm env b tx)
  pure totalFee

def applyTransactions (env : Platform) (now : Nat) (b : Block) :
    List Transaction → Nat → Apply Nat
  | [], totalFee => pure totalFee
  | tx :: rest, totalFee => do
    let totalFee ← applyTransaction env now b tx totalFee
    applyTransactions env now b rest totalFee

def resetAtActivation (env : Platform) (b : Block) (bc : Blockchain) : Blockchain :=
  if reached env.forks.rewardV2 b.index && !reached env.forks.rewardV2 (b.index - 1) then
    bc.resetRewardAccumulatorsForForkActivation
  else bc

def applyCoinbase (env : Platform) (b : Block) : Apply Unit := do
  let coinbase ← fromOption b.coinbase (.invalidBlock "missing coinbase")
  modify (resetAtActivation env b)
  onAccounts (AccountDB.credit
    (if reached env.forks.rewardV2 b.index then protocolTreasury else b.validator) coinbase.amount)
  modify fun bc => { bc with totalMinted := satAdd64 bc.totalMinted coinbase.amount }

def payFees (b : Block) (totalFee : Nat) : Apply Unit :=
  if 0 < totalFee - AccountDB.burnShare totalFee then
    onAccounts (AccountDB.credit b.validator (totalFee - AccountDB.burnShare totalFee))
  else pure ()

def recordProduced (b : Block) (bc : Blockchain) : Blockchain :=
  { bc with authority := bc.authority.recordBlockProduced b.validator b.timestamp }

def dropMined (now : Nat) (b : Block) (bc : Blockchain) : Blockchain :=
  let unmined := bc.retainMempool fun tx => !(b.transactions.map (·.txid)).contains tx.txid
  (unmined.evictStaleNonceForSenders (b.transactions.map (·.fromAddress))).pruneMempool now

def pushed (b : Block) (chain : List Block) : List Block :=
  (chain ++ [b]).drop ((chain ++ [b]).length - chainWindowSize)

def pushBlock (b : Block) (bc : Blockchain) : Blockchain :=
  { bc with chain := pushed b bc.chain }

def bookkeeping (env : Platform) : Apply Unit := do
  let bc ← get
  if reached env.forks.rewardApplyPath bc.height then
    modify (applyRewardBookkeepingForLatestBlock env.forks)
    let bc ← get
    runEpochBookkeeping env.forks bc.height

def setLast (f : Block → Block) (bc : Blockchain) : Blockchain :=
  { bc with
    chain := match bc.chain.getLast? with
      | some last => bc.chain.dropLast ++ [f last]
      | none => bc.chain }

def stampRoot (root : Bytes) (b : Block) : Block :=
  { b with stateRoot := some root }

def rootMissing (b : Block) : BlockSource → SentrixError
  | .peer => .chainValidationFailed ("peer block " ++ toString b.index ++
      " has state_root=None past fork height (#1e)")
  | .selfProduced => .chainValidationFailed ("self-produced block " ++ toString b.index ++
      " has state_root=None past SPECULATIVE_APPLY_HEIGHT (SIP-5)")

def rootMismatch (b : Block) (received computed : Bytes) : SentrixError :=
  .chainValidationFailed ("state_root mismatch at block " ++ toString b.index ++ ": received " ++
    hexEncode received ++ ", computed " ++ hexEncode computed)

/-- A block that carries no root: only a self-produced one before the
speculative-apply fork is stamped here, and its hash recomputed. -/
def stampMissingRoot (env : Platform) (last : Block) (computed : Bytes) : Apply Unit := do
  let bc ← get
  ensure (bc.sourceForCurrentAdd != .peer && !reached env.forks.speculativeApply last.index)
    (rootMissing last bc.sourceForCurrentAdd)
  modify (setLast fun b =>
    { stampRoot computed b with hash := (stampRoot computed b).calculateHash env.wire })

/-- A mismatch is let through below the legacy cutoff, and for a peer block
whose justification passed the gate. -/
def checkReceivedRoot (env : Platform) (last : Block) (received computed : Bytes) : Apply Unit := do
  let bc ← get
  ensure (received == computed || last.index < env.settings.legacyValidationHeight ||
      bc.sourceForCurrentAdd == .peer && bc.currentAddJustificationVerified)
    (rootMismatch last received computed)
  modify (setLast (stampRoot received))

def settleRootOf (env : Platform) (last : Block) (root : Bytes) : Apply Unit :=
  if stateRootForkHeight ≤ last.index then
    match last.stateRoot with
    | none => stampMissingRoot env last root
    | some received => checkReceivedRoot env last received root
  else modify (setLast (stampRoot root))

def settleStateRoot (env : Platform) (computed : Option Bytes) : Apply Unit := do
  let bc ← get
  match computed with
  | none => pure ()
  | some root =>
    match bc.chain.getLast? with
    | none => pure ()
    | some last => settleRootOf env last root

def updateTrie (env : Platform) : Apply (Option Bytes) := fun bc =>
  match updateTrieForBlock env.wire env.forks env.settings env.trie bc with
  | .ok root bc' => .ok root bc'
  | .error e bc' => .error (.internal ("trie update failed at block " ++ toString bc'.height ++ ": " ++
      e.text)) bc'

def applyBody (env : Platform) (now : Nat) (b : Block) : Apply Unit := do
  modify fun bc => { bc with accounts := bc.accounts.clearTouchedInBlock }
  applyCoinbase env b
  let totalFee ← applyTransactions env now b b.transactions.tail 0
  payFees b totalFee
  modify (recordProduced b)
  modify (dropMined now b)

def applyTail (env : Platform) : Apply Unit := do
  bookkeeping env
  let computed ← updateTrie env
  settleStateRoot env computed

def applyBlockPass2 (env : Platform) (now : Nat) (b : Block) : Apply Unit := do
  applyBody env now b
  modify (pushBlock b)
  applyTail env

structure BlockchainSnapshot where
  accounts : AccountDB
  contracts : ContractRegistry
  nftRegistry : NftRegistry
  authority : AuthorityManager
  mempool : List Transaction
  totalMinted : Nat
  chainLen : Nat
  trieRoot : Option Bytes
  stakeRegistry : StakeRegistry
  epochManager : EpochManager
  slashing : SlashingEngine
  deriving DecidableEq

def snapshot (bc : Blockchain) : BlockchainSnapshot where
  accounts := bc.accounts
  contracts := bc.contracts
  nftRegistry := bc.nftRegistry
  authority := bc.authority
  mempool := bc.mempool
  totalMinted := bc.totalMinted
  chainLen := bc.chain.length
  trieRoot := bc.stateTrie.map (·.root)
  stakeRegistry := bc.stakeRegistry
  epochManager := bc.epochManager
  slashing := bc.slashing

def restore (snap : BlockchainSnapshot) (bc : Blockchain) : Blockchain :=
  { rebuildMempoolSidecars { bc with mempool := snap.mempool } with
    accounts := snap.accounts
    contracts := snap.contracts
    nftRegistry := snap.nftRegistry
    authority := snap.authority
    totalMinted := snap.totalMinted
    chain := bc.chain.take snap.chainLen
    stakeRegistry := snap.stakeRegistry
    epochManager := snap.epochManager
    slashing := snap.slashing
    stateTrie := match bc.stateTrie, snap.trieRoot with
      | some trie, some root => some (trie.setRoot root)
      | trie, _ => trie }

def commitOrRollBack (env : Platform) (now : Nat) (b : Block) : Apply Unit := fun bc =>
  match applyBlockPass2 env now b bc with
  | .ok _ bc' => .ok () bc'
  | .error e bc' => .error e (restore bc.snapshot bc')

def setVerified (verified : Bool) (bc : Blockchain) : Blockchain :=
  { bc with currentAddJustificationVerified := verified }

def setSource (source : BlockSource) (bc : Blockchain) : Blockchain :=
  { bc with sourceForCurrentAdd := source }

def addBlockImpl (env : Platform) (now : Nat) (b : Block) : Apply Unit := do
  modify (setVerified false)
  let bc ← get
  let verified ← fromExcept (bc.checkHeader env now b)
  modify (setVerified verified)
  let bc ← get
  fromExcept (bc.checkContents env b)
  commitOrRollBack env now b

def addBlockWithSource (env : Platform) (now : Nat) (source : BlockSource) (b : Block) :
    Apply Unit := fun bc =>
  match addBlockImpl env now b (setSource source bc) with
  | .ok _ bc' => .ok () (setSource .selfProduced bc')
  | .error e bc' => .error e (setSource .selfProduced bc')

def addBlock (env : Platform) (now : Nat) (b : Block) : Apply Unit :=
  addBlockWithSource env now .selfProduced b

def addBlockFromPeer (env : Platform) (now : Nat) (b : Block) : Apply Unit :=
  addBlockWithSource env now .peer b

variable {env : Platform} {now : Nat} {b : Block} {bc after : Blockchain} {u : Unit}

theorem commitOrRollBack_ok :
    commitOrRollBack env now b bc = .ok u after ↔
      applyBlockPass2 env now b bc = .ok u after := by
  unfold commitOrRollBack
  cases applyBlockPass2 env now b bc <;> simp

theorem addBlockImpl_ok (accepted : addBlockImpl env now b bc = .ok u after) :
    ∃ verified, (setVerified false bc).checkHeader env now b = .ok verified ∧
      (setVerified verified bc).checkContents env b = .ok () ∧
      applyBlockPass2 env now b (setVerified verified bc) = .ok () after := by
  unfold addBlockImpl at accepted
  obtain ⟨_, _, cleared, accepted⟩ := bind_ok.mp accepted
  cases modify_ok.mp cleared
  obtain ⟨_, _, read, accepted⟩ := bind_ok.mp accepted
  obtain ⟨rfl, rfl⟩ := get_ok.mp read
  obtain ⟨verified, _, ran, accepted⟩ := bind_ok.mp accepted
  obtain ⟨header, rfl⟩ := fromExcept_ok.mp ran
  obtain ⟨_, _, marked, accepted⟩ := bind_ok.mp accepted
  cases modify_ok.mp marked
  obtain ⟨_, _, read, accepted⟩ := bind_ok.mp accepted
  obtain ⟨rfl, rfl⟩ := get_ok.mp read
  obtain ⟨_, _, ran, accepted⟩ := bind_ok.mp accepted
  obtain ⟨contents, rfl⟩ := fromExcept_ok.mp ran
  exact ⟨verified, header, contents, commitOrRollBack_ok.mp accepted⟩

def entering (source : BlockSource) (verified : Bool) (bc : Blockchain) : Blockchain :=
  setVerified verified (setSource source bc)

theorem addBlockWithSource_ok {source : BlockSource}
    (accepted : addBlockWithSource env now source b bc = .ok u after) :
    ∃ verified applied, (bc.entering source false).checkHeader env now b = .ok verified ∧
      (bc.entering source verified).checkContents env b = .ok () ∧
      applyBlockPass2 env now b (bc.entering source verified) = .ok () applied ∧
      after = setSource .selfProduced applied := by
  unfold addBlockWithSource at accepted
  split at accepted
  · rename_i applied inner
    obtain ⟨verified, header, contents, pass2⟩ := addBlockImpl_ok inner
    cases accepted
    exact ⟨verified, applied, header, contents, pass2, rfl⟩
  · cases accepted

theorem addBlockWithSource_of {source : BlockSource} {applied : Blockchain} {verified : Bool}
    (header : (bc.entering source false).checkHeader env now b = .ok verified)
    (contents : (bc.entering source verified).checkContents env b = .ok ())
    (pass2 : applyBlockPass2 env now b (bc.entering source verified) = .ok () applied) :
    addBlockWithSource env now source b bc = .ok () (setSource .selfProduced applied) := by
  have inner : addBlockImpl env now b (setSource source bc) = .ok () applied :=
    bind_ok.mpr ⟨⟨⟩, _, rfl, bind_ok.mpr ⟨_, _, rfl,
      bind_ok.mpr ⟨verified, _, fromExcept_ok.mpr ⟨header, rfl⟩, bind_ok.mpr ⟨⟨⟩, _, rfl,
        bind_ok.mpr ⟨_, _, rfl, bind_ok.mpr ⟨(), _, fromExcept_ok.mpr ⟨contents, rfl⟩,
          commitOrRollBack_ok.mpr pass2⟩⟩⟩⟩⟩⟩
  unfold addBlockWithSource
  rw [inner]

end Blockchain

def knownDigests (table : List (String × Hash)) (bytes : Bytes) : Hash :=
  ((table.find? fun entry => textBytes entry.1 == bytes).map (·.2)).getD zeroHash

def tableWire (digests : List (String × Hash)) : Wire where
  quote s := "\"" ++ s ++ "\""
  tokenOp _ := none
  stakingOp _ := none
  sha256Hex := knownDigests digests
  unicode := asciiText
  addressOfKey _ := none
  verifyEcdsa _ _ _ := false

def plainPlatform (wire : Wire) : Platform where
  wire
  votes.recover _ _ := none
  forks := .off
  settings := .unset
  trie := ⟨fun _ _ => pure (), fun _ => pure (), fun _ => pure [], fun _ => [], fun _ => []⟩
  evm := ⟨fun _ _ _ _ => .error "no code", fun _ => none, id, fun _ => none, .stored, .stored⟩

def firstValidator : Address := "0x7e5f4552091a69125d5dfcb7b8c2659029395bdf"
def secondValidator : Address := "0x2b5ad5c4795c026514f8317c7a215e218dccd6cf"

def genesisBlock : Block where
  index := 0
  previousHash := zeroHash
  transactions := []
  timestamp := 1700000000
  merkleRoot := zeroHash
  validator := "GENESIS"
  hash := "15ebd8b2449e6e4d110912992c58e6bb8cb87743a184365196f6bf7042d1d05b"
  stateRoot := none
  round := 0
  justification := none

def coinbaseTx (recipient : Address) (amount index timestamp : Nat) (txid : Hash) : Transaction where
  txid
  fromAddress := coinbaseAddress
  toAddress := recipient
  amount
  fee := 0
  nonce := 0
  data := "block_" ++ toString index
  timestamp
  chainId := 0
  signature := ""
  publicKey := ""

def firstBlock : Block where
  index := 1
  previousHash := genesisBlock.hash
  transactions := [coinbaseTx firstValidator 100000000 1 1700000001
    "9a7f482d4bdf888b2e9f58857374f29120f91c019f963d2647626116698a43f1"]
  timestamp := 1700000001
  merkleRoot := "5b5e08da92490457e8d1d6a7baafb48074cfda2b0a992931d13594b9186660d2"
  validator := firstValidator
  hash := "84ae508dd8b0f8139d0fc1a152316516bd4efea3e8eb96ca9bfad5393160abe5"
  stateRoot := none
  round := 0
  justification := none

def sampleBlock (index : Nat) (previousHash : Hash) (transactions : List Transaction)
    (timestamp : Nat) (merkleRoot hash : Hash) : Block where
  index
  previousHash
  transactions
  timestamp
  merkleRoot
  validator := firstValidator
  hash
  stateRoot := none
  round := 0
  justification := none

def blockDigests (b : Block) : List (String × Hash) :=
  [(String.join (b.transactions.map (·.txid)), b.merkleRoot), (b.headerPayload, b.hash)]

def firstDigests : List (String × Hash) :=
  [("9a7f482d4bdf888b2e9f58857374f29120f91c019f963d2647626116698a43f1", firstBlock.merkleRoot),
   (firstBlock.headerPayload, firstBlock.hash)]

def seedChain (reg : StakeRegistry) : Blockchain where
  chain := [genesisBlock]
  accounts := .new
  authority := ⟨∅, "admin"⟩
  contracts := .new
  nftRegistry := .new
  mempool := []
  mempoolTxids := []
  mempoolSenderCount := ∅
  totalMinted := 0
  chainId := 7119
  stateTrie := none
  stakeRegistry := reg
  epochManager := .new
  slashing := .new
  sourceForCurrentAdd := .selfProduced
  currentAddJustificationVerified := false
  voyagerActivated := true

end SentrixCore
