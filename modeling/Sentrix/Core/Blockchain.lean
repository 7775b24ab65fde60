import Sentrix.Primitives.Blocks
import Sentrix.Tokens.Src20
import Sentrix.Tokens.Nft
import Sentrix.Staking.Slashing
import Sentrix.Bft.Messages

/-!
The node's chain state: the in-memory window of blocks, the ledgers a block writes, and
the housekeeping around them (rewards, mempool, epochs).
-/
namespace SentrixCore
open MachineWords HashTable Effects SentrixPrimitives SentrixTokens SentrixStaking

structure Validator where
  address : Address
  name : String
  publicKey : String
  registeredAt : Nat
  blocksProduced : Nat
  isActive : Bool
  lastBlockTime : Nat
  deriving DecidableEq, Repr

def Validator.new (now : Nat) (address : Address) (name publicKey : String) : Validator :=
  ⟨address, name, publicKey, now, 0, true, 0⟩

structure AuthorityManager where
  validators : Table Address Validator
  adminAddress : Address
  deriving DecidableEq

namespace AuthorityManager

def activeValidators (m : AuthorityManager) : List Validator :=
  ((m.validators.pairs.map (·.2)).filter (·.isActive)).insertionSort fun a b =>
    a.address ≤ b.address

def expectedValidator (m : AuthorityManager) (height : Nat) : Except SentrixError Validator :=
  match m.activeValidators[height % m.activeValidators.length]? with
  | some v => .ok v
  | none => .error .noActiveValidators

def isAuthorized (m : AuthorityManager) (address : Address) (height : Nat) :
    Except SentrixError Bool :=
  (m.expectedValidator height).map fun expected => expected.address == address

def recordBlockProduced (m : AuthorityManager) (address : Address) (timestamp : Nat) :
    AuthorityManager :=
  match m.validators.lookup address with
  | some v => { m with
      validators := m.validators.insert address
        { v with blocksProduced := wrapAdd64 v.blocksProduced 1, lastBlockTime := timestamp } }
  | none => m

def addValidatorUnchecked (m : AuthorityManager) (now : Nat) (address : Address)
    (name publicKey : String) : AuthorityManager :=
  { m with validators := m.validators.insert address (.new now address name publicKey) }

end AuthorityManager

/-- Activation heights; a fork set to the largest word is off. -/
structure Forks where
  voyager : Nat
  rewardV2 : Nat
  tokenomicsV2 : Nat
  speculativeApply : Nat
  jailConsensus : Nat
  nftTokenOp : Nat
  addSelfStake : Nat
  evmValueTransfer : Nat
  evmGasFix : Nat
  extendedTouchList : Nat
  strictJustification : Nat
  stateInTrie : Nat
  nativeStateInTrie : Nat
  rewardApplyPath : Nat
  canonicalDelete : Nat
  deriving DecidableEq, Repr

def Forks.off : Forks :=
  { voyager := u64Max, rewardV2 := u64Max, tokenomicsV2 := u64Max, speculativeApply := u64Max,
    jailConsensus := u64Max, nftTokenOp := u64Max, addSelfStake := u64Max,
    evmValueTransfer := u64Max, evmGasFix := u64Max, extendedTouchList := u64Max,
    strictJustification := u64Max, stateInTrie := u64Max, nativeStateInTrie := u64Max,
    rewardApplyPath := u64Max, canonicalDelete := u64Max }

def reached (fork height : Nat) : Bool :=
  fork != u64Max && fork ≤ height

structure Settings where
  replayBypassAuthz : Bool
  stateRootV2Height : Nat
  stateRootV2TreasuryBalance : Option Nat
  treasuryRebaseHeight : Nat
  treasuryRebaseBalance : Option Nat
  legacyValidationHeight : Nat
  deriving DecidableEq, Repr

def Settings.unset : Settings :=
  ⟨false, u64Max, none, u64Max, none, 0⟩

structure SentrixTrie where
  root : Bytes
  version : Nat
  canonicalDelete : Bool
  nodes : Table Bytes Bytes
  deriving DecidableEq

inductive BlockSource where
  | selfProduced
  | peer
  deriving DecidableEq, Repr

structure Blockchain where
  chain : List Block
  accounts : AccountDB
  authority : AuthorityManager
  contracts : ContractRegistry
  nftRegistry : NftRegistry
  mempool : List Transaction
  mempoolTxids : List Hash
  mempoolSenderCount : Table Address Nat
  totalMinted : Nat
  chainId : Nat
  stateTrie : Option SentrixTrie
  stakeRegistry : StakeRegistry
  epochManager : EpochManager
  slashing : SlashingEngine
  sourceForCurrentAdd : BlockSource
  currentAddJustificationVerified : Bool
  voyagerActivated : Bool
  deriving DecidableEq

abbrev Apply := EStateM SentrixError Blockchain

def chainWindowSize : Nat := 1000

namespace Blockchain

def height (bc : Blockchain) : Nat :=
  (bc.chain.getLast?.map (·.index)).getD 0

def latestBlock (bc : Blockchain) : Except SentrixError Block :=
  match bc.chain.getLast? with
  | some b => .ok b
  | none => .error (.notFound "chain is empty")

def voyagerModeFor (forks : Forks) (bc : Blockchain) (height : Nat) : Bool :=
  bc.voyagerActivated || reached forks.voyager height

section
variable {α : Type}

def onAccounts (m : EStateM SentrixError AccountDB α) : Apply α :=
  focus accounts (fun bc db => { bc with accounts := db }) m

def onContracts (m : EStateM SentrixError ContractRegistry α) : Apply α :=
  focus contracts (fun bc reg => { bc with contracts := reg }) m

def onNfts (m : EStateM SentrixError NftRegistry α) : Apply α :=
  focus nftRegistry (fun bc reg => { bc with nftRegistry := reg }) m

def onStake (m : StakeRegistry.Op α) : Apply α :=
  focus stakeRegistry (fun bc reg => { bc with stakeRegistry := reg }) m

def onBench (m : EStateM SentrixError SlashingEngine.Bench α) : Apply α :=
  focus (fun bc => (⟨bc.slashing, bc.stakeRegistry⟩ : SlashingEngine.Bench))
    (fun bc b => { bc with slashing := b.engine, stakeRegistry := b.registry }) m

end

def maxSupply : Nat := 210000000 * 100000000
def maxSupplyV2 : Nat := 315000000 * 100000000
def halvingInterval : Nat := 42000000
def halvingIntervalV2 : Nat := 126000000
def blockReward : Nat := 100000000

def maxSupplyFor (forks : Forks) (height : Nat) : Nat :=
  if reached forks.tokenomicsV2 height then maxSupplyV2 else maxSupply

def halvingsAt (forks : Forks) (height : Nat) : Nat :=
  if forks.tokenomicsV2 = u64Max ∨ height < forks.tokenomicsV2 then height / halvingInterval
  else (height - forks.tokenomicsV2) / halvingIntervalV2

def getBlockReward (forks : Forks) (bc : Blockchain) : Nat :=
  let remaining := maxSupplyFor forks bc.height - bc.totalMinted
  let halvings := halvingsAt forks bc.height
  min (if 64 ≤ halvings then 0 else blockReward >>> halvings) remaining

def mempoolMaxAgeSecs : Nat := 3600

def senderCounts (pool : List Transaction) : Table Address Nat :=
  pool.foldl (fun t tx => t.insert tx.fromAddress (((t.lookup tx.fromAddress).getD 0) + 1)) ∅

def rebuildMempoolSidecars (bc : Blockchain) : Blockchain :=
  { bc with
    mempoolTxids := bc.mempool.map (·.txid)
    mempoolSenderCount := senderCounts bc.mempool }

def retainMempool (bc : Blockchain) (keep : Transaction → Bool) : Blockchain :=
  rebuildMempoolSidecars { bc with mempool := bc.mempool.filter keep }

def pruneMempool (bc : Blockchain) (now : Nat) : Blockchain :=
  bc.retainMempool fun tx => now ≤ satAdd64 tx.timestamp mempoolMaxAgeSecs

def evictStaleNonceForSenders (bc : Blockchain) (senders : List Address) : Blockchain :=
  if senders.isEmpty then bc
  else bc.retainMempool fun tx =>
    !senders.contains tx.fromAddress || bc.accounts.getNonce tx.fromAddress ≤ tx.nonce

def releaseUnbonding (forks : Forks) (height : Nat) (released : Address × Nat) : Apply Unit :=
  onAccounts (ignoreError
    (if reached forks.rewardV2 height then
      AccountDB.transfer protocolTreasury released.1 released.2 0
    else AccountDB.credit released.1 released.2))

def rotateEpoch (bc : Blockchain) : Blockchain :=
  let reg := bc.stakeRegistry.updateActiveSet
  { bc with
    stakeRegistry := reg
    epochManager := bc.epochManager.rotate reg.activeSet reg.totalActiveStake }

def punishDowntime (height : Nat) (bc : Blockchain) : Blockchain :=
  let swept := SlashingEngine.checkLiveness height bc.stakeRegistry.activeSet
    ⟨bc.slashing, bc.stakeRegistry⟩
  { bc with
    slashing := swept.1.engine
    stakeRegistry := swept.1.registry
    accounts := swept.2.foldl (fun db slashed => db.burn slashed.2) bc.accounts }

def runEpochBookkeeping (forks : Forks) (height : Nat) : Apply Unit := do
  if EpochManager.isEpochBoundary height then
    let bc ← get
    let released := bc.stakeRegistry.processUnbonding height
    set { bc with stakeRegistry := released.1 }
    released.2.forM (releaseUnbonding forks height)
    modify rotateEpoch
    modify (punishDowntime height)

def applyRewardBookkeepingForLatestBlock (forks : Forks) (bc : Blockchain) : Blockchain :=
  match bc.chain.getLast? with
  | none => bc
  | some latest =>
    match latest.justification with
    | none => bc
    | some j =>
      let reward := bc.getBlockReward forks
      { bc with
        slashing := bc.slashing.recordBlockSignatures (j.precommits.map (·.validator)) latest.index
        stakeRegistry := finalState (StakeRegistry.distributeReward latest.validator
          (j.precommits.map fun p => (p.validator, p.stakeWeight)) reward 0) bc.stakeRegistry
        epochManager := bc.epochManager.recordBlock reward }

/-- At the activation block every accumulated claim is dropped. -/
def resetRewardAccumulatorsForForkActivation (bc : Blockchain) : Blockchain :=
  { bc with stakeRegistry := { bc.stakeRegistry with
      validators := bc.stakeRegistry.validators.mapValues fun _ v => { v with pendingRewards := 0 }
      delegatorRewards := ∅ } }

end Blockchain
end SentrixCore
