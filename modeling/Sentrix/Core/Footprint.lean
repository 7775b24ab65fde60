import Sentrix.Core.Executor
import Sentrix.Staking.BenchSteps

/-!
What the mutations of pass 2 write, and what they leave alone. The executor is gone
through once, for any relation that each kind of write respects.
-/
namespace SentrixCore
open MachineWords Effects SentrixPrimitives SentrixStaking
open SlashingEngine (Bench QuietStep)
open Relation (ReflTransGen)

namespace Blockchain

/-- The part of the chain state that no transaction reaches. -/
structure Outer where
  chain : List Block
  stateTrie : Option SentrixTrie
  chainId : Nat
  sourceForCurrentAdd : BlockSource
  currentAddJustificationVerified : Bool
  voyagerActivated : Bool

def outer (bc : Blockchain) : Outer where
  chain := bc.chain
  stateTrie := bc.stateTrie
  chainId := bc.chainId
  sourceForCurrentAdd := bc.sourceForCurrentAdd
  currentAddJustificationVerified := bc.currentAddJustificationVerified
  voyagerActivated := bc.voyagerActivated

def bench (bc : Blockchain) : Bench :=
  ⟨bc.slashing, bc.stakeRegistry⟩

/-- A relation that the writes of the staking operations respect. -/
structure StakingMoves (step : Blockchain → Blockchain → Prop) : Prop where
  bench : ∀ {bc : Blockchain} {next : Bench}, QuietStep bc.bench next →
    step bc { bc with slashing := next.engine, stakeRegistry := next.registry }
  authority : ∀ bc auth, step bc { bc with authority := auth }

structure TransactionMoves (step : Blockchain → Blockchain → Prop) : Prop
    extends StakingMoves step where
  accounts : ∀ bc db, step bc { bc with accounts := db }
  contracts : ∀ bc reg, step bc { bc with contracts := reg }
  nfts : ∀ bc reg, step bc { bc with nftRegistry := reg }

structure MoneyMoves (step : Blockchain → Blockchain → Prop) : Prop where
  credit : ∀ (bc : Blockchain) (address : Address) (amount : Nat),
    step bc { bc with accounts := finalState (AccountDB.credit address amount) bc.accounts }
  payout : ∀ (bc : Blockchain) (address : Address) (amount : Nat), step bc { bc with
    accounts := finalState (AccountDB.transfer protocolTreasury address amount 0) bc.accounts }
  burn : ∀ (bc : Blockchain) (amount : Nat),
    step bc { bc with accounts := bc.accounts.burn amount }

structure ProtocolMoves (step : Blockchain → Blockchain → Prop) : Prop
    extends StakingMoves step, MoneyMoves step where
  epochs : ∀ bc manager, step bc { bc with epochManager := manager }

def PoolMoves (step : Blockchain → Blockchain → Prop) : Prop :=
  ∀ bc txs ids counts, step bc { bc with
    mempool := txs, mempoolTxids := ids, mempoolSenderCount := counts }

variable (env : Platform) (now : Nat) (b : Block) (tx : Transaction)

theorem finalState_onAccounts {α : Type} (m : EStateM SentrixError AccountDB α) (bc : Blockchain) :
    finalState (onAccounts m) bc = { bc with accounts := finalState m bc.accounts } := by
  unfold finalState onAccounts focus
  cases m bc.accounts <;> rfl

theorem finalState_ignoreError (m : EStateM SentrixError AccountDB Unit) (db : AccountDB) :
    finalState (ignoreError m) db = finalState m db := by
  unfold finalState ignoreError
  cases m db <;> rfl

section
variable {α : Type} {step : Blockchain → Blockchain → Prop}

theorem steps_onAccounts (accounts : ∀ bc db, step bc { bc with accounts := db })
    (m : EStateM SentrixError AccountDB α) : Steps step (onAccounts m) :=
  Steps.focus accounts m

namespace StakingMoves
variable (moves : StakingMoves step)
include moves

theorem quietly {bc : Blockchain} {next : Bench} (quiet : ReflTransGen QuietStep bc.bench next) :
    ReflTransGen step bc { bc with slashing := next.engine, stakeRegistry := next.registry } := by
  induction quiet with
  | refl => exact .refl
  | tail _ last ih => exact ih.tail (moves.bench last)

theorem steps_onBench {m : EStateM SentrixError Bench α} (quiet : Steps QuietStep m) :
    Steps step (onBench m) := by
  intro bc
  have final : finalState (onBench m) bc = { bc with
      slashing := (finalState m bc.bench).engine
      stakeRegistry := (finalState m bc.bench).registry } := by
    unfold finalState onBench focus Blockchain.bench
    cases m ⟨bc.slashing, bc.stakeRegistry⟩ <;> rfl
  rw [final]
  exact moves.quietly (quiet bc.bench)

theorem steps_onStake (c : StakeRegistry.Call) {m : StakeRegistry.Op α}
    (same : ∀ reg, c.after reg = finalState m reg) : Steps step (onStake m) := by
  apply Steps.single
  intro bc
  have final : finalState (onStake m) bc =
      { bc with stakeRegistry := c.after bc.stakeRegistry } := by
    rw [same]
    unfold finalState onStake focus
    cases m bc.stakeRegistry <;> rfl
  rw [final]
  exact moves.bench (.call c)

theorem steps_claimRewards (claimer : Address)
    (paid : ∀ total, Steps step (onAccounts (AccountDB.transfer protocolTreasury claimer total 0))) :
    Steps step (claimRewards claimer) := by
  unfold claimRewards
  apply Steps.bind Steps.get
  intro bc
  apply Steps.ite
  · apply Steps.bind (paid _)
    intro _ bc
    exact moves.quietly ((ReflTransGen.single
      (QuietStep.call (.takeDelegatorRewards claimer))).tail (.claimed claimer))
  · exact Steps.pure _

theorem jailOne (height : Nat) (bc : Blockchain) (e : JailEvidence) :
    ReflTransGen step bc (applyJailEvidence height bc e) := by
  have jailed := QuietStep.call (b := bc.bench) (.jail e.validator downtimeJailBlocks height)
  rw [SlashingEngine.after_jail] at jailed
  change QuietStep bc.bench ⟨bc.slashing,
    finalState (StakeRegistry.jail e.validator downtimeJailBlocks height) bc.stakeRegistry⟩ at jailed
  unfold applyJailEvidence
  split
  · rename_i failed
    rw [finalState_error failed] at jailed
    exact .single (moves.bench jailed)
  · rename_i ran
    rw [finalState_ok ran] at jailed
    exact moves.quietly ((ReflTransGen.single jailed).tail (.cleared e.validator))

theorem jailAll (height : Nat) (evidence : List JailEvidence) :
    ∀ bc, ReflTransGen step bc (evidence.foldl (applyJailEvidence height) bc) := by
  induction evidence with
  | nil => exact fun _ => .refl
  | cons e _ ih => exact fun bc => (moves.jailOne height bc e).trans (ih _)

theorem steps_applyJailEvidenceBundle (epoch : Nat) (evidence : List JailEvidence)
    (activeSet : List Address) :
    Steps step (applyJailEvidenceBundle env epoch evidence activeSet) := by
  unfold applyJailEvidenceBundle
  apply Steps.bind Steps.get
  intro bc
  iterate 5 refine Steps.bind (Steps.ensure _ _) fun _ => ?_
  exact fun bc => moves.jailAll bc.height evidence bc

theorem steps_registerValidator (selfStake commissionRate : Nat) (publicKey : String) :
    Steps step (registerValidator now b tx selfStake commissionRate publicKey) := by
  unfold registerValidator
  apply Steps.bind (Steps.ensure _ _)
  intro _
  apply Steps.bind
  · exact moves.steps_onStake
      (.registerValidator tx.fromAddress selfStake commissionRate b.index)
      fun _ => StakeRegistry.finalState_then _ _
  intro _
  exact Steps.modify fun bc => moves.authority bc _

theorem steps_submitEvidence (evidence : DoubleSignEvidence) :
    Steps step (submitEvidence tx evidence) := by
  unfold submitEvidence
  refine Steps.bind (Steps.ensure _ _) fun _ => Steps.bind (Steps.ensure _ _) fun _ => ?_
  apply moves.steps_onBench
  exact Steps.bind (SlashingEngine.quiet_processDoubleSign evidence) fun _ => Steps.pure _

theorem steps_addSelfStake (amount : Nat) : Steps step (addSelfStake env b tx amount) := by
  unfold addSelfStake
  refine Steps.bind (Steps.ensure _ _) fun _ => Steps.bind (Steps.ensure _ _) fun _ => ?_
  apply Steps.bind
  · exact moves.steps_onStake (.addSelfStake tx.fromAddress amount)
      fun _ => StakeRegistry.finalState_then _ _
  intro _
  exact Steps.modify fun _ => moves.bench (.call .updateActiveSet)

theorem steps_guardedStake {c : Bool} {e : SentrixError} {m : StakeRegistry.Op Unit}
    (call : StakeRegistry.Call) (same : ∀ reg, call.after reg = finalState m reg) :
    Steps step (do ensure c e; onStake m : Apply Unit) :=
  Steps.bind (Steps.ensure _ _) fun _ => moves.steps_onStake call same

theorem steps_dispatchStakingOp (op : StakingOp)
    (claim : op = .claimRewards → Steps step (claimRewards tx.fromAddress)) :
    Steps step (dispatchStakingOp env now b tx op) := by
  unfold dispatchStakingOp
  apply Steps.bind (Steps.ensure _ _)
  intro _
  cases op with
  | claimRewards => exact claim rfl
  | registerValidator => exact moves.steps_registerValidator now b tx _ _ _
  | submitEvidence => exact moves.steps_submitEvidence tx _
  | jailEvidenceBundle => exact moves.steps_applyJailEvidenceBundle env _ _ _
  | addSelfStake => exact moves.steps_addSelfStake env b tx _
  | delegate validator amount =>
    exact moves.steps_guardedStake (.delegate tx.fromAddress validator amount b.index)
      fun _ => StakeRegistry.finalState_then _ _
  | undelegate validator amount =>
    exact moves.steps_guardedStake (.undelegate tx.fromAddress validator amount b.index)
      fun _ => StakeRegistry.finalState_then _ _
  | redelegate source target amount =>
    exact moves.steps_guardedStake (.redelegate tx.fromAddress source target amount b.index)
      fun _ => StakeRegistry.finalState_then _ _
  | unjail =>
    exact moves.steps_guardedStake (.unjail tx.fromAddress b.index)
      fun _ => StakeRegistry.finalState_then _ _

theorem steps_applyStakingOp (claim : env.wire.stakingOp tx.data = some .claimRewards →
      Steps step (claimRewards tx.fromAddress)) :
    Steps step (applyStakingOp env now b tx) := by
  unfold applyStakingOp
  split
  · rename_i op decoded
    apply Steps.ite
    · apply moves.steps_dispatchStakingOp env now b tx
      intro same
      exact claim (same ▸ decoded)
    · exact Steps.pure ()
  · exact Steps.pure ()

theorem resetAtActivation (bc : Blockchain) :
    ReflTransGen step bc (Blockchain.resetAtActivation env b bc) := by
  unfold Blockchain.resetAtActivation
  split
  · exact .single (moves.bench .dropped)
  · exact .refl

end StakingMoves

theorem steps_chargeTransaction (accounts : ∀ bc db, step bc { bc with accounts := db })
    (totalFee : Nat) : Steps step (chargeTransaction env tx totalFee) := by
  unfold chargeTransaction
  apply Steps.ite
  · exact Steps.pure totalFee
  · apply Steps.bind (steps_onAccounts accounts _)
    intro _
    exact Steps.fromOption _ _

theorem steps_applyTokenOp (contracts : ∀ bc reg, step bc { bc with contracts := reg })
    (nfts : ∀ bc reg, step bc { bc with nftRegistry := reg }) :
    Steps step (applyTokenOp env b tx) := by
  unfold applyTokenOp
  split
  · unfold dispatchTokenOp
    split
    iterate 5 exact Steps.focus contracts _
    apply Steps.bind (Steps.ensure _ _)
    intro _
    exact Steps.focus nfts _
  · exact Steps.pure ()

namespace TransactionMoves
variable (moves : TransactionMoves step)
include moves

theorem steps_applyTransaction (totalFee : Nat) :
    Steps step (applyTransaction env now b tx totalFee) := by
  unfold applyTransaction
  apply Steps.bind (steps_chargeTransaction env tx moves.accounts totalFee)
  intro _
  apply Steps.bind (steps_applyTokenOp env b tx moves.contracts moves.nfts)
  intro _
  apply Steps.bind
  · apply moves.steps_applyStakingOp env now b tx
    intro _
    exact moves.steps_claimRewards _ fun _ => steps_onAccounts moves.accounts _
  intro _
  refine Steps.bind (fun bc => ?_) fun _ => Steps.pure _
  show ReflTransGen step bc (dispatchEvm env b tx bc)
  unfold dispatchEvm
  split
  · exact .single (moves.accounts bc _)
  · exact .refl

theorem steps_applyTransactions (txs : List Transaction) :
    ∀ totalFee, Steps step (applyTransactions env now b txs totalFee) := by
  induction txs with
  | nil => exact fun _ => Steps.pure _
  | cons tx _ ih =>
    exact fun totalFee => Steps.bind (moves.steps_applyTransaction env now b tx totalFee) ih

end TransactionMoves

namespace ProtocolMoves
variable (moves : ProtocolMoves step)
include moves

theorem steps_credit (address : Address) (amount : Nat) :
    Steps step (onAccounts (AccountDB.credit address amount)) := by
  apply Steps.single
  intro bc
  rw [finalState_onAccounts]
  exact moves.credit bc address amount

theorem steps_applyCoinbase (minted : ∀ bc total, step bc { bc with totalMinted := total }) :
    Steps step (applyCoinbase env b) := by
  unfold applyCoinbase
  apply Steps.bind (Steps.fromOption _ _)
  intro coinbase
  apply Steps.bind fun bc => moves.resetAtActivation env b bc
  intro _
  apply Steps.bind (moves.steps_credit _ _)
  intro _
  exact Steps.modify fun bc => minted bc _

theorem steps_payFees (totalFee : Nat) : Steps step (payFees b totalFee) := by
  unfold payFees
  apply Steps.ite
  · exact moves.steps_credit _ _
  · exact Steps.pure ()

omit moves in
theorem steps_dropMined (moved : PoolMoves step) (bc : Blockchain) :
    ReflTransGen step bc (dropMined now b bc) := by
  have retained (pool : Blockchain) (keep : Transaction → Bool) :
      step pool (pool.retainMempool keep) :=
    moved pool _ _ _
  have evicted (pool : Blockchain) (senders : List Address) :
      ReflTransGen step pool (pool.evictStaleNonceForSenders senders) := by
    unfold evictStaleNonceForSenders
    split
    · exact .refl
    · exact .single (retained _ _)
  exact ((ReflTransGen.single (retained _ _)).trans (evicted _ _)).tail (retained _ _)

theorem steps_afterTransactions (moved : PoolMoves step) (totalFee : Nat) :
    Steps step (do
      payFees b totalFee
      modify (recordProduced b)
      modify (dropMined now b) : Apply Unit) := by
  apply Steps.bind (moves.steps_payFees b totalFee)
  intro _
  apply Steps.bind
  · exact Steps.modify fun bc => moves.authority bc _
  intro _
  exact fun bc => steps_dropMined now b moved bc

theorem steps_releaseUnbonding (forks : Forks) (height : Nat) (released : Address × Nat) :
    Steps step (releaseUnbonding forks height released) := by
  apply Steps.single
  intro bc
  unfold releaseUnbonding
  rw [finalState_onAccounts, finalState_ignoreError]
  split
  · exact moves.payout bc _ _
  · exact moves.credit bc _ _

theorem rotateEpoch (bc : Blockchain) : ReflTransGen step bc (Blockchain.rotateEpoch bc) :=
  (ReflTransGen.single (moves.bench (.call .updateActiveSet))).tail (moves.epochs _ _)

theorem punishDowntime (height : Nat) (bc : Blockchain) :
    ReflTransGen step bc (Blockchain.punishDowntime height bc) := by
  unfold Blockchain.punishDowntime
  have swept := SlashingEngine.quiet_checkLiveness height bc.stakeRegistry.activeSet bc.bench
  unfold Blockchain.bench at swept
  generalize SlashingEngine.checkLiveness height bc.stakeRegistry.activeSet
    ⟨bc.slashing, bc.stakeRegistry⟩ = verdicts at swept ⊢
  -- the burns one after the other, then the two registries
  have burned : ∀ (cuts : List (Address × Nat)) (start : Blockchain), ReflTransGen step start
      { start with accounts := cuts.foldl (fun db slashed => db.burn slashed.2) start.accounts } := by
    intro cuts
    induction cuts with
    | nil => intro start; exact .refl
    | cons cut _ ih =>
      intro start
      exact .head (moves.burn start cut.2) (ih { start with accounts := start.accounts.burn cut.2 })
  exact (burned verdicts.2 bc).trans (moves.quietly swept)

theorem steps_runEpochBookkeeping (forks : Forks) (height : Nat) :
    Steps step (runEpochBookkeeping forks height) := by
  intro bc
  unfold runEpochBookkeeping
  split
  · have rest : Steps step (do
        (bc.stakeRegistry.processUnbonding height).2.forM (releaseUnbonding forks height)
        modify Blockchain.rotateEpoch
        modify (Blockchain.punishDowntime height) : Apply PUnit) := by
      apply Steps.bind (Steps.forM (moves.steps_releaseUnbonding forks height) _)
      intro _
      exact Steps.bind (fun start => moves.rotateEpoch start) fun _ start =>
        moves.punishDowntime height start
    exact .head (moves.bench (.call (.processUnbonding height))) (rest _)
  · exact .refl

theorem steps_bookkeeping
    (rewarded : ∀ bc, step bc (applyRewardBookkeepingForLatestBlock env.forks bc)) :
    Steps step (bookkeeping env) := by
  unfold bookkeeping
  apply Steps.bind Steps.get
  intro _
  apply Steps.ite
  · apply Steps.bind (Steps.modify rewarded)
    intro _
    apply Steps.bind Steps.get
    intro bc
    exact moves.steps_runEpochBookkeeping env.forks bc.height
  · exact Steps.pure _

end ProtocolMoves

theorem steps_applyBody (transactions : TransactionMoves step) (protocol : ProtocolMoves step)
    (moved : PoolMoves step) (minted : ∀ bc total, step bc { bc with totalMinted := total }) :
    Steps step (applyBody env now b) := by
  unfold applyBody
  apply Steps.bind
  · exact Steps.modify fun bc => transactions.accounts bc _
  intro _
  apply Steps.bind (protocol.steps_applyCoinbase env b minted)
  intro _
  apply Steps.bind (transactions.steps_applyTransactions env now b _ 0)
  intro totalFee
  exact protocol.steps_afterTransactions now b moved totalFee

theorem steps_settleStateRoot (stamped : ∀ bc chain, step bc { bc with chain })
    (computed : Option Bytes) : Steps step (settleStateRoot env computed) := by
  have stamp (f : Block → Block) : Steps step (modify (setLast f) : Apply PUnit) :=
    Steps.modify fun bc => stamped bc _
  unfold settleStateRoot
  apply Steps.bind Steps.get
  intro bc
  cases computed with
  | none => exact Steps.pure ()
  | some =>
    cases bc.chain.getLast? with
    | none => exact Steps.pure ()
    | some last =>
      simp only [settleRootOf]
      apply Steps.ite
      · cases last.stateRoot with
        | none | some =>
          exact Steps.bind Steps.get fun _ => Steps.bind (Steps.ensure _ _) fun _ => stamp _
      · exact stamp _

end

section
variable {γ : Type} {read : Blockchain → γ}

theorem keeps_onAccounts {α : Type} (free : ∀ bc db, read { bc with accounts := db } = read bc)
    (m : EStateM SentrixError AccountDB α) : Keeps read (onAccounts m) :=
  Keeps.focus free m

theorem keeps_chargeTransaction (free : ∀ bc db, read { bc with accounts := db } = read bc)
    (totalFee : Nat) : Keeps read (chargeTransaction env tx totalFee) :=
  Steps.keeps (steps_chargeTransaction env tx free totalFee)

theorem keeps_applyTokenOp (contracts : ∀ bc reg, read { bc with contracts := reg } = read bc)
    (nfts : ∀ bc reg, read { bc with nftRegistry := reg } = read bc) :
    Keeps read (applyTokenOp env b tx) :=
  Steps.keeps (steps_applyTokenOp env b tx contracts nfts)

/-- A view that shows nothing of staking, slashing and the authority set. -/
structure SkipsStaking (read : Blockchain → γ) : Prop where
  stake : ∀ bc reg, read { bc with stakeRegistry := reg } = read bc
  bench : ∀ bc engine reg, read { bc with slashing := engine, stakeRegistry := reg } = read bc
  authority : ∀ bc auth, read { bc with authority := auth } = read bc

theorem SkipsStaking.moves (skips : SkipsStaking read) :
    StakingMoves fun bc after => read after = read bc :=
  ⟨fun _ => skips.bench _ _ _, skips.authority⟩

theorem keeps_applyStakingOp (skips : SkipsStaking read)
    (other : env.wire.stakingOp tx.data ≠ some .claimRewards) :
    Keeps read (applyStakingOp env now b tx) :=
  Steps.keeps (skips.moves.steps_applyStakingOp env now b tx fun same => absurd same other)

/-- A view that shows none of the books the transactions and the epochs write. -/
structure SkipsBooks (read : Blockchain → γ) : Prop extends SkipsStaking read where
  accounts : ∀ bc db, read { bc with accounts := db } = read bc
  contracts : ∀ bc reg, read { bc with contracts := reg } = read bc
  nfts : ∀ bc reg, read { bc with nftRegistry := reg } = read bc
  epochs : ∀ bc manager, read { bc with epochManager := manager } = read bc
  pool : ∀ bc txs ids counts, read { bc with
    mempool := txs, mempoolTxids := ids, mempoolSenderCount := counts } = read bc

namespace SkipsBooks
variable (skips : SkipsBooks read)
include skips

theorem transactions : TransactionMoves fun bc after => read after = read bc where
  toStakingMoves := skips.moves
  accounts := skips.accounts
  contracts := skips.contracts
  nfts := skips.nfts

theorem protocol : ProtocolMoves fun bc after => read after = read bc where
  toStakingMoves := skips.moves
  credit bc _ _ := skips.accounts bc _
  payout bc _ _ := skips.accounts bc _
  burn bc _ := skips.accounts bc _
  epochs := skips.epochs

theorem keeps_afterCoinbase : Keeps read (do
    let totalFee ← applyTransactions env now b b.transactions.tail 0
    payFees b totalFee
    modify (recordProduced b)
    modify (dropMined now b) : Apply Unit) :=
  Steps.keeps (Steps.bind (skips.transactions.steps_applyTransactions env now b _ 0) fun fees =>
    skips.protocol.steps_afterTransactions now b skips.pool fees)

theorem applyRewardBookkeeping (forks : Forks) (bc : Blockchain) :
    read (applyRewardBookkeepingForLatestBlock forks bc) = read bc := by
  have both (engine : SlashingEngine) (reg : StakeRegistry) (manager : EpochManager) : read { bc with
      slashing := engine, stakeRegistry := reg, epochManager := manager } = read bc :=
    (skips.epochs { bc with slashing := engine, stakeRegistry := reg } manager).trans
      (skips.bench bc engine reg)
  unfold applyRewardBookkeepingForLatestBlock
  split
  · rfl
  · split
    · rfl
    · exact both _ _ _

theorem keeps_bookkeeping : Keeps read (bookkeeping env) :=
  Steps.keeps (skips.protocol.steps_bookkeeping env (skips.applyRewardBookkeeping env.forks))

end SkipsBooks
end

theorem outer_skips : SkipsBooks outer where
  stake _ _ := rfl
  bench _ _ _ := rfl
  authority _ _ := rfl
  accounts _ _ := rfl
  contracts _ _ := rfl
  nfts _ _ := rfl
  epochs _ _ := rfl
  pool _ _ _ _ := rfl

theorem keeps_applyBody : Keeps outer (applyBody env now b) :=
  Steps.keeps (steps_applyBody env now b outer_skips.transactions outer_skips.protocol
    outer_skips.pool fun _ _ => rfl)

def window (bc : Blockchain) : List Block × Bool :=
  (bc.chain, bc.stateTrie.isSome)

theorem keeps_window_of_outer {α : Type} {m : Apply α} (kept : Keeps outer m) : Keeps window m := by
  intro bc
  have same := kept bc
  unfold window
  rw [show (finalState m bc).chain = bc.chain from congrArg Outer.chain same,
    show (finalState m bc).stateTrie = bc.stateTrie from congrArg Outer.stateTrie same]

theorem keeps_bookkeeping : Keeps outer (bookkeeping env) :=
  outer_skips.keeps_bookkeeping env

theorem outer_drainTouched (forks : Forks) (index : Nat) (bc : Blockchain) :
    outer (drainTouched forks index bc) = outer bc := by
  unfold drainTouched
  split <;> rfl

theorem finalState_onTrie {α β : Type} (trie : SentrixTrie)
    (m : EStateM SentrixError SentrixTrie α) (k : α → β) (bc : Blockchain) :
    finalState (do let a ← onTrie trie m; pure (k a)) bc =
      { bc with stateTrie := some (finalState m trie) } := by
  show finalState (EStateM.bind (onTrie trie m) fun a => EStateM.pure (k a)) bc = _
  unfold finalState EStateM.bind onTrie focus
  cases m trie <;> rfl

theorem window_commitBlock (w : Wire) (forks : Forks) (settings : Settings) (ops : TrieOps)
    (trie : SentrixTrie) (read bc : Blockchain) (there : bc.stateTrie.isSome = true) :
    window (finalState (commitBlock w forks settings ops trie b read) bc) = window bc := by
  unfold commitBlock
  rw [finalState_modify_bind, finalState_onTrie]
  unfold window
  rw [there]
  exact congrArg (fun o => (o.chain, true)) (outer_drainTouched forks b.index bc)

theorem keeps_updateTrieForBlock (w : Wire) (forks : Forks) (settings : Settings) (ops : TrieOps) :
    Keeps window (updateTrieForBlock w forks settings ops) := by
  intro bc
  have rebased : window bc = window (rebaseTreasury settings bc) := rfl
  unfold updateTrieForBlock
  rw [rebased, finalState_modify_bind, finalState_get_bind]
  generalize rebaseTreasury settings bc = start
  cases trie : start.stateTrie with
  | none =>
    have refused : Keeps window (do
        ensure (satAdd64 start.height 1 < stateRootForkHeight)
          (trieUnavailable (satAdd64 start.height 1))
        pure none : Apply (Option Bytes)) := by
      apply Keeps.bind (Keeps.ensure _ _)
      intro _
      exact Keeps.pure _
    exact refused start
  | some old =>
    cases start.chain.getLast? with
    | none => rfl
    | some last => exact window_commitBlock last w forks settings ops old start start (by simp [trie])

theorem keeps_updateTrie : Keeps window (updateTrie env) := by
  intro bc
  have same := keeps_updateTrieForBlock env.wire env.forks env.settings env.trie bc
  unfold finalState updateTrie at *
  cases ran : updateTrieForBlock env.wire env.forks env.settings env.trie bc with
  | ok => simp only [ran] at same ⊢; exact same
  | error => simp only [ran] at same ⊢; exact same

theorem settleRootOf_error {last : Block} {root : Bytes} {bc after : Blockchain} {e : SentrixError}
    (failed : settleRootOf env last root bc = .error e after) : after = bc := by
  unfold settleRootOf at failed
  split at failed
  · cases carried : last.stateRoot with
    | none | some =>
      simp only [carried] at failed
      exact ensure_modify_error (get_bind_error failed)
  · exact absurd failed modify_error

theorem settleStateRoot_error {computed : Option Bytes} {bc after : Blockchain} {e : SentrixError}
    (failed : settleStateRoot env computed bc = .error e after) : after = bc := by
  have chosen := get_bind_error failed
  cases computed with
  | none => exact absurd chosen pure_error
  | some =>
    cases last : bc.chain.getLast? with
    | none =>
      simp only [last] at chosen
      exact absurd chosen pure_error
    | some =>
      simp only [last] at chosen
      exact settleRootOf_error env chosen

theorem applyTail_error {bc after : Blockchain} {e : SentrixError}
    (failed : applyTail env bc = .error e after) : window after = window bc := by
  unfold applyTail at failed
  have booked := keeps_window_of_outer (keeps_bookkeeping env)
  rcases bind_error.mp failed with first | ⟨_, mid, kept, failed⟩
  · exact booked.error first
  have here := booked.ok kept
  rcases bind_error.mp failed with second | ⟨_, late, updated, failed⟩
  · exact ((keeps_updateTrie env).error second).trans here
  · rw [settleStateRoot_error env failed]
    exact ((keeps_updateTrie env).ok updated).trans here

end Blockchain
end SentrixCore
