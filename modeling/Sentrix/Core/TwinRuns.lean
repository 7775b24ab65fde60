import Sentrix.Lib.Lockstep
import Sentrix.Core.Footprint

/-!
Two blocks applied side by side. Up to the append, pass 2 reads of a block its index,
its producer and its transactions without keys and signatures; of the node it reads the
ledgers, the height and the mode, but not the clock, the authority set or the mempool.
-/
namespace SentrixCore
open Effects SentrixPrimitives SentrixTokens SentrixStaking

namespace Blockchain

/-- Two nodes agree on everything a block is applied to; how their tries compare is
left open. -/
structure AlikeUpTo (tries : Option SentrixTrie → Option SentrixTrie → Prop)
    (bc other : Blockchain) : Prop where
  accounts : bc.accounts = other.accounts
  contracts : bc.contracts = other.contracts
  nftRegistry : bc.nftRegistry = other.nftRegistry
  totalMinted : bc.totalMinted = other.totalMinted
  chainId : bc.chainId = other.chainId
  stateTrie : tries bc.stateTrie other.stateTrie
  stakeRegistry : bc.stakeRegistry = other.stakeRegistry
  epochManager : bc.epochManager = other.epochManager
  slashing : bc.slashing = other.slashing
  voyagerActivated : bc.voyagerActivated = other.voyagerActivated
  height : bc.height = other.height

abbrev Alike (bc other : Blockchain) : Prop := AlikeUpTo Eq bc other

/-- Two transactions pass 2 cannot tell apart: an EVM transaction keeps its call in
the signature field, any other one is read without it. -/
structure SameEffect (tx other : Transaction) : Prop where
  txid : tx.txid = other.txid
  fromAddress : tx.fromAddress = other.fromAddress
  toAddress : tx.toAddress = other.toAddress
  amount : tx.amount = other.amount
  fee : tx.fee = other.fee
  nonce : tx.nonce = other.nonce
  data : tx.data = other.data
  timestamp : tx.timestamp = other.timestamp
  chainId : tx.chainId = other.chainId
  call : tx.isEvmTx = true → tx.signature = other.signature

structure Twin (b other : Block) : Prop where
  index : b.index = other.index
  validator : b.validator = other.validator
  transactions : List.Forall₂ SameEffect b.transactions other.transactions

theorem Alike.refl (bc : Blockchain) : Alike bc bc :=
  ⟨rfl, rfl, rfl, rfl, rfl, rfl, rfl, rfl, rfl, rfl, rfl⟩

theorem SameEffect.refl (tx : Transaction) : SameEffect tx tx :=
  ⟨rfl, rfl, rfl, rfl, rfl, rfl, rfl, rfl, rfl, fun _ => rfl⟩

theorem Twin.refl (b : Block) : Twin b b :=
  ⟨rfl, rfl, List.forall₂_same.mpr fun tx _ => .refl tx⟩

variable {tries : Option SentrixTrie → Option SentrixTrie → Prop}

section
variable {α : Type}

theorem together_onAccounts (m : EStateM SentrixError AccountDB α) :
    Lockstep (AlikeUpTo tries) (onAccounts m) (onAccounts m) :=
  Lockstep.focus (fun _ _ alike => alike.accounts)
    (fun _ _ _ alike => { alike with accounts := rfl }) m

theorem together_onContracts (m : EStateM SentrixError ContractRegistry α) :
    Lockstep (AlikeUpTo tries) (onContracts m) (onContracts m) :=
  Lockstep.focus (fun _ _ alike => alike.contracts)
    (fun _ _ _ alike => { alike with contracts := rfl }) m

theorem together_onNfts (m : EStateM SentrixError NftRegistry α) :
    Lockstep (AlikeUpTo tries) (onNfts m) (onNfts m) :=
  Lockstep.focus (fun _ _ alike => alike.nftRegistry)
    (fun _ _ _ alike => { alike with nftRegistry := rfl }) m

theorem together_onStake (m : StakeRegistry.Op α) :
    Lockstep (AlikeUpTo tries) (onStake m) (onStake m) :=
  Lockstep.focus (fun _ _ alike => alike.stakeRegistry)
    (fun _ _ _ alike => { alike with stakeRegistry := rfl }) m

theorem together_onBench (m : EStateM SentrixError SlashingEngine.Bench α) :
    Lockstep (AlikeUpTo tries) (onBench m) (onBench m) := by
  apply Lockstep.focus
  · intro s t alike
    rw [alike.slashing, alike.stakeRegistry]
  · intro s t bench alike
    exact { alike with slashing := rfl, stakeRegistry := rfl }

end

variable {env : Platform} {now now' : Nat} {b other : Block}

theorem together_chargeTransaction (tx : Transaction) (totalFee : Nat) :
    Lockstep (AlikeUpTo tries) (chargeTransaction env tx totalFee)
      (chargeTransaction env tx totalFee) := by
  unfold chargeTransaction
  apply Lockstep.ite
  · exact Lockstep.pure totalFee
  · apply Lockstep.bind (together_onAccounts _)
    intro _
    exact Lockstep.fromOption _ _ _

theorem together_applyTokenOp (index : b.index = other.index) (tx : Transaction) :
    Lockstep (AlikeUpTo tries) (applyTokenOp env b tx) (applyTokenOp env other tx) := by
  unfold applyTokenOp
  cases env.wire.tokenOp tx.data with
  | none => exact Lockstep.pure ()
  | some =>
    simp only [dispatchTokenOp]
    rw [index]
    split
    · exact together_onContracts _
    · exact together_onContracts _
    · exact together_onContracts _
    · exact together_onContracts _
    · exact together_onContracts _
    · apply Lockstep.bind (Lockstep.ensure _ _ _)
      intro _
      exact together_onNfts _

theorem alike_drainRewards (claimer : Address) (s t : Blockchain) (alike : AlikeUpTo tries s t) :
    AlikeUpTo tries (drainRewards claimer s) (drainRewards claimer t) := by
  refine { alike with stakeRegistry := ?_ }
  simp only [drainRewards, alike.stakeRegistry]

theorem together_claimRewards (claimer : Address) :
    Lockstep (AlikeUpTo tries) (claimRewards claimer) (claimRewards claimer) := by
  unfold claimRewards
  apply Lockstep.get_bind
  intro s t alike
  rw [alike.stakeRegistry]
  apply Lockstep.ite
  · apply Lockstep.bind (together_onAccounts _)
    intro _
    exact Lockstep.modify (alike_drainRewards claimer)
  · exact Lockstep.pure _

theorem alike_applyJailEvidence (currentHeight : Nat) (evidence : List JailEvidence) :
    ∀ s t, AlikeUpTo tries s t →
      AlikeUpTo tries (evidence.foldl (applyJailEvidence currentHeight) s)
        (evidence.foldl (applyJailEvidence currentHeight) t) := by
  induction evidence with
  | nil => exact fun _ _ alike => alike
  | cons _ _ ih =>
    intro s t alike
    apply ih
    unfold applyJailEvidence
    rw [alike.stakeRegistry]
    split
    · exact { alike with stakeRegistry := rfl }
    · exact { alike with stakeRegistry := rfl, slashing := by simp only [alike.slashing] }

theorem together_applyJailEvidenceBundle (epoch : Nat) (evidence : List JailEvidence)
    (activeSet : List Address) :
    Lockstep (AlikeUpTo tries) (applyJailEvidenceBundle env epoch evidence activeSet)
      (applyJailEvidenceBundle env epoch evidence activeSet) := by
  unfold applyJailEvidenceBundle
  apply Lockstep.get_bind
  intro s t alike
  simp only [alike.height, alike.stakeRegistry, alike.slashing]
  apply Lockstep.bind (Lockstep.ensure _ _ _)
  intro _
  apply Lockstep.bind (Lockstep.ensure _ _ _)
  intro _
  apply Lockstep.bind (Lockstep.ensure _ _ _)
  intro _
  apply Lockstep.bind (Lockstep.ensure _ _ _)
  intro _
  apply Lockstep.bind (Lockstep.ensure _ _ _)
  intro _
  apply Lockstep.modify
  intro x y alike
  rw [alike.height]
  exact alike_applyJailEvidence _ evidence x y alike

theorem together_guardedStake {c : Bool} {e e' : SentrixError} (m : StakeRegistry.Op Unit) :
    Lockstep (AlikeUpTo tries) (do ensure c e; onStake m) (do ensure c e'; onStake m) := by
  apply Lockstep.bind (Lockstep.ensure c e e')
  intro _
  exact together_onStake m

theorem together_dispatchStakingOp (index : b.index = other.index) (tx : Transaction)
    (op : StakingOp) :
    Lockstep (AlikeUpTo tries) (dispatchStakingOp env now b tx op)
      (dispatchStakingOp env now' other tx op) := by
  unfold dispatchStakingOp
  apply Lockstep.bind (Lockstep.ensure _ _ _)
  intro _
  cases op with
  | claimRewards => exact together_claimRewards tx.fromAddress
  | registerValidator =>
    simp only [registerValidator, index]
    apply Lockstep.bind (Lockstep.ensure _ _ _)
    intro _
    apply Lockstep.bind (together_onStake _)
    intro _
    -- only the authority set hears of the clock
    exact Lockstep.modify fun _ _ alike => { alike with }
  | delegate | undelegate | redelegate | unjail =>
    simp only [index]
    exact together_guardedStake _
  | submitEvidence =>
    apply Lockstep.bind (Lockstep.ensure _ _ _)
    intro _
    apply Lockstep.bind (Lockstep.ensure _ _ _)
    intro _
    exact together_onBench _
  | jailEvidenceBundle epoch _ _ evidence members =>
    exact together_applyJailEvidenceBundle epoch evidence members
  | addSelfStake =>
    simp only [addSelfStake, index]
    apply Lockstep.bind (Lockstep.ensure _ _ _)
    intro _
    apply Lockstep.bind (Lockstep.ensure _ _ _)
    intro _
    apply Lockstep.bind (together_onStake _)
    intro _
    apply Lockstep.modify
    intro s t alike
    exact { alike with stakeRegistry := by simp only [alike.stakeRegistry] }

theorem together_applyStakingOp (index : b.index = other.index) (tx : Transaction) :
    Lockstep (AlikeUpTo tries) (applyStakingOp env now b tx)
      (applyStakingOp env now' other tx) := by
  unfold applyStakingOp
  cases env.wire.stakingOp tx.data with
  | none => exact Lockstep.pure ()
  | some op =>
    simp only [index]
    apply Lockstep.ite
    · exact together_dispatchStakingOp index tx op
    · exact Lockstep.pure ()

theorem alike_dispatchEvm (index : b.index = other.index) (tx : Transaction) (s t : Blockchain)
    (alike : AlikeUpTo tries s t) :
    AlikeUpTo tries (dispatchEvm env b tx s) (dispatchEvm env other tx t) := by
  have mode : s.voyagerModeFor env.forks s.height = t.voyagerModeFor env.forks t.height := by
    simp only [voyagerModeFor, alike.voyagerActivated, alike.height]
  unfold dispatchEvm
  rw [mode, index]
  split
  · exact { alike with accounts := by simp only [alike.chainId, alike.accounts] }
  · exact alike

theorem together_applyTransaction (index : b.index = other.index) (tx : Transaction)
    (totalFee : Nat) :
    Lockstep (AlikeUpTo tries) (applyTransaction env now b tx totalFee)
      (applyTransaction env now' other tx totalFee) := by
  unfold applyTransaction
  apply Lockstep.bind (together_chargeTransaction tx totalFee)
  intro _
  apply Lockstep.bind (together_applyTokenOp index tx)
  intro _
  apply Lockstep.bind (together_applyStakingOp index tx)
  intro _
  apply Lockstep.bind (Lockstep.modify (alike_dispatchEvm index tx))
  intro _
  exact Lockstep.pure _

theorem applyTransaction_resigned {tx : Transaction} {signature publicKey : String}
    (call : tx.isEvmTx = true → tx.signature = signature) (totalFee : Nat) :
    applyTransaction env now b { tx with signature, publicKey } totalFee =
      applyTransaction env now b tx totalFee := by
  have evm : dispatchEvm env b { tx with signature, publicKey } = dispatchEvm env b tx := by
    funext bc
    unfold dispatchEvm
    rw [show Transaction.isEvmTx { tx with signature, publicKey } = tx.isEvmTx from rfl]
    cases isEvm : tx.isEvmTx with
    | false => rfl
    | true =>
      obtain rfl := call isEvm
      rfl
  unfold applyTransaction
  rw [evm]
  rfl

theorem applyTransaction_sameEffect {tx tx' : Transaction} (same : SameEffect tx tx')
    (totalFee : Nat) :
    applyTransaction env now b tx' totalFee = applyTransaction env now b tx totalFee := by
  have resigned : tx' = { tx with signature := tx'.signature, publicKey := tx'.publicKey } := by
    obtain ⟨h1, h2, h3, h4, h5, h6, h7, h8, h9, -⟩ := same
    rw [h1, h2, h3, h4, h5, h6, h7, h8, h9]
  rw [resigned]
  exact applyTransaction_resigned same.call totalFee

theorem together_applyTransactions (index : b.index = other.index) {txs others : List Transaction}
    (same : List.Forall₂ SameEffect txs others) :
    ∀ totalFee, Lockstep (AlikeUpTo tries) (applyTransactions env now b txs totalFee)
      (applyTransactions env now' other others totalFee) := by
  induction same with
  | nil => exact fun totalFee => Lockstep.pure totalFee
  | cons first _ ih =>
    intro totalFee
    unfold applyTransactions
    rw [applyTransaction_sameEffect first]
    apply Lockstep.bind (together_applyTransaction index _ totalFee)
    exact ih

theorem alike_resetAtActivation (index : b.index = other.index) (s t : Blockchain)
    (alike : AlikeUpTo tries s t) :
    AlikeUpTo tries (resetAtActivation env b s) (resetAtActivation env other t) := by
  unfold resetAtActivation
  rw [index]
  split
  · refine { alike with stakeRegistry := ?_ }
    simp only [resetRewardAccumulatorsForForkActivation, alike.stakeRegistry]
  · exact alike

theorem coinbase_map_eq {γ : Type} {key : Transaction → γ}
    (same : List.Forall₂ SameEffect b.transactions other.transactions)
    (reads : ∀ {tx tx'}, SameEffect tx tx' → key tx = key tx') :
    b.coinbase.map key = other.coinbase.map key := by
  unfold Block.coinbase
  generalize b.transactions = txs, other.transactions = others at same
  cases same with
  | nil => rfl
  | cons first =>
    simp only [List.head?_cons, Option.filter_some, Transaction.isCoinbase, first.fromAddress]
    split
    · simp_all [reads first]
    · simp_all

theorem together_applyCoinbase (twin : Twin b other) :
    Lockstep (AlikeUpTo tries) (applyCoinbase env b) (applyCoinbase env other) := by
  unfold applyCoinbase
  apply Lockstep.fromOption_bind (coinbase_map_eq twin.transactions SameEffect.amount)
  intro coinbase coinbase' amount
  rw [twin.validator, twin.index, amount]
  apply Lockstep.bind (Lockstep.modify (alike_resetAtActivation twin.index))
  intro _
  apply Lockstep.bind (together_onAccounts _)
  intro _
  apply Lockstep.modify
  intro s t alike
  exact { alike with totalMinted := by simp only [alike.totalMinted] }

theorem together_payFees (twin : Twin b other) (totalFee : Nat) :
    Lockstep (AlikeUpTo tries) (payFees b totalFee) (payFees other totalFee) := by
  unfold payFees
  rw [twin.validator]
  apply Lockstep.ite
  · exact together_onAccounts _
  · exact Lockstep.pure ()

theorem alike_closing (s t : Blockchain) (alike : AlikeUpTo tries s t) :
    AlikeUpTo tries (dropMined now b (recordProduced b s))
      (dropMined now' other (recordProduced other t)) := by
  have evicted : ∀ (pool pool' : Blockchain) (senders senders' : List Address),
      AlikeUpTo tries pool pool' → AlikeUpTo tries (pool.evictStaleNonceForSenders senders)
        (pool'.evictStaleNonceForSenders senders') := by
    intro pool pool' senders senders' same
    unfold evictStaleNonceForSenders
    split <;> split <;> exact { same with }
  have dropped := evicted
    ((recordProduced b s).retainMempool fun tx => !(b.transactions.map (·.txid)).contains tx.txid)
    ((recordProduced other t).retainMempool fun tx =>
      !(other.transactions.map (·.txid)).contains tx.txid)
    (b.transactions.map (·.fromAddress)) (other.transactions.map (·.fromAddress)) { alike with }
  exact { dropped with }

theorem together_applyBody (twin : Twin b other) :
    Lockstep (AlikeUpTo tries) (applyBody env now b) (applyBody env now' other) := by
  have tails : List.Forall₂ SameEffect b.transactions.tail other.transactions.tail := by
    have same := twin.transactions
    generalize b.transactions = txs, other.transactions = others at same ⊢
    cases same with
    | nil => exact .nil
    | cons _ rest => exact rest
  unfold applyBody
  apply Lockstep.bind
  · apply Lockstep.modify
    intro s t alike
    exact { alike with accounts := by simp only [alike.accounts] }
  intro _
  apply Lockstep.bind (together_applyCoinbase twin)
  intro _
  apply Lockstep.bind (together_applyTransactions twin.index tails 0)
  intro totalFee
  apply Lockstep.bind (together_payFees twin totalFee)
  intro _ s t alike
  exact .ok (alike_closing s t alike)

theorem getLast?_pushed (b : Block) (chain : List Block) : (pushed b chain).getLast? = some b := by
  have short : (chain ++ [b]).length - chainWindowSize ≤ chain.length := by
    simp [chainWindowSize]
  rw [pushed, List.drop_append_of_le_length short]
  simp

theorem getLast?_pushBlock (b : Block) (bc : Blockchain) :
    (pushBlock b bc).chain.getLast? = some b := by
  unfold pushBlock
  simp only [getLast?_pushed]

structure TippedUpTo (tries : Option SentrixTrie → Option SentrixTrie → Prop) (b other : Block)
    (s t : Blockchain) : Prop where
  alike : AlikeUpTo tries s t
  last : s.chain.getLast? = some b
  last' : t.chain.getLast? = some other

abbrev Tipped (b other : Block) (s t : Blockchain) : Prop := TippedUpTo Eq b other s t

variable {s t : Blockchain}

theorem AlikeUpTo.withChain (alike : AlikeUpTo tries s t) {chain chain' : List Block}
    (height : chain.getLast?.map (·.index) = chain'.getLast?.map (·.index)) :
    AlikeUpTo tries { s with chain } { t with chain := chain' } :=
  { alike with height := congrArg (·.getD 0) height }

theorem tipped_pushBlock (index : b.index = other.index) (alike : AlikeUpTo tries s t) :
    TippedUpTo tries b other (pushBlock b s) (pushBlock other t) := by
  unfold pushBlock
  refine ⟨alike.withChain ?_, ?_, ?_⟩
  · simp only [getLast?_pushed, Option.map_some, index]
  · simp only [getLast?_pushed]
  · simp only [getLast?_pushed]

def signers (b : Block) : Option (List (Address × Nat)) :=
  b.justification.map fun j => j.precommits.map fun p => (p.validator, p.stakeWeight)

theorem applyReward_uncertified {forks : Forks} {bc : Blockchain}
    (last : bc.chain.getLast? = some b) (bare : b.justification = none) :
    applyRewardBookkeepingForLatestBlock forks bc = bc := by
  simp only [applyRewardBookkeepingForLatestBlock, last, bare]

theorem applyReward_certified {forks : Forks} {bc : Blockchain} {j : BlockJustification}
    (last : bc.chain.getLast? = some b) (certified : b.justification = some j) :
    applyRewardBookkeepingForLatestBlock forks bc = { bc with
      slashing := bc.slashing.recordBlockSignatures (j.precommits.map (·.validator)) b.index
      stakeRegistry := finalState (StakeRegistry.distributeReward b.validator
        (j.precommits.map fun p => (p.validator, p.stakeWeight)) (bc.getBlockReward forks) 0)
        bc.stakeRegistry
      epochManager := bc.epochManager.recordBlock (bc.getBlockReward forks) } := by
  simp only [applyRewardBookkeepingForLatestBlock, last, certified]

theorem tipped_applyReward (twin : Twin b other) (certificate : signers b = signers other)
    (s t : Blockchain) (tipped : TippedUpTo tries b other s t) :
    TippedUpTo tries b other (applyRewardBookkeepingForLatestBlock env.forks s)
      (applyRewardBookkeepingForLatestBlock env.forks t) := by
  obtain ⟨alike, last, last'⟩ := tipped
  have reward : s.getBlockReward env.forks = t.getBlockReward env.forks := by
    simp only [getBlockReward, alike.height, alike.totalMinted]
  unfold signers at certificate
  cases own : b.justification with
  | none =>
    cases their : other.justification with
    | none =>
      rw [applyReward_uncertified last own, applyReward_uncertified last' their]
      exact ⟨alike, last, last'⟩
    | some => simp [own, their] at certificate
  | some j =>
    cases their : other.justification with
    | none => simp [own, their] at certificate
    | some j' =>
      have votes : (j.precommits.map fun p => (p.validator, p.stakeWeight)) =
          j'.precommits.map fun p => (p.validator, p.stakeWeight) := by
        simpa [own, their] using certificate
      have names : j.precommits.map (·.validator) = j'.precommits.map (·.validator) := by
        simpa [Function.comp_def] using congrArg (List.map Prod.fst) votes
      rw [applyReward_certified last own, applyReward_certified last' their]
      refine ⟨?_, last, last'⟩
      refine { alike with stakeRegistry := ?_, epochManager := ?_, slashing := ?_ }
      · simp only [alike.stakeRegistry, votes, reward, twin.validator]
      · simp only [alike.epochManager, reward]
      · simp only [alike.slashing, names, twin.index]

theorem TippedUpTo.on {s' t' : Blockchain} (tipped : TippedUpTo tries b other s t)
    (alike : AlikeUpTo tries s' t') (own : s'.chain = s.chain) (their : t'.chain = t.chain) :
    TippedUpTo tries b other s' t' :=
  ⟨alike, own ▸ tipped.last, their ▸ tipped.last'⟩

theorem together_releaseUnbonding (height : Nat) (released : Address × Nat) :
    Lockstep (TippedUpTo tries b other) (releaseUnbonding env.forks height released)
      (releaseUnbonding env.forks height released) :=
  Lockstep.focus (fun _ _ tipped => tipped.alike.accounts)
    (fun _ _ _ tipped => tipped.on { tipped.alike with accounts := rfl } rfl rfl) _

theorem tipped_rotateEpoch (s t : Blockchain) (tipped : TippedUpTo tries b other s t) :
    TippedUpTo tries b other (rotateEpoch s) (rotateEpoch t) := by
  refine tipped.on { tipped.alike with stakeRegistry := ?_, epochManager := ?_ } rfl rfl
  · simp only [rotateEpoch, tipped.alike.stakeRegistry]
  · simp only [rotateEpoch, tipped.alike.stakeRegistry, tipped.alike.epochManager]

theorem tipped_punishDowntime (height : Nat) (s t : Blockchain)
    (tipped : TippedUpTo tries b other s t) :
    TippedUpTo tries b other (punishDowntime height s) (punishDowntime height t) := by
  have alike := tipped.alike
  refine tipped.on { alike with accounts := ?_, stakeRegistry := ?_, slashing := ?_ } rfl rfl
  · simp only [punishDowntime, alike.stakeRegistry, alike.slashing, alike.accounts]
  · simp only [punishDowntime, alike.stakeRegistry, alike.slashing]
  · simp only [punishDowntime, alike.stakeRegistry, alike.slashing]

theorem together_runEpochBookkeeping (height : Nat) :
    Lockstep (TippedUpTo tries b other) (runEpochBookkeeping env.forks height)
      (runEpochBookkeeping env.forks height) := by
  unfold runEpochBookkeeping
  apply Lockstep.ite
  · apply Lockstep.get_bind
    intro s t tipped
    rw [tipped.alike.stakeRegistry]
    apply Lockstep.bind
    · exact Lockstep.set (tipped.on { tipped.alike with stakeRegistry := rfl } rfl rfl)
    intro _
    apply Lockstep.bind (Lockstep.forM (together_releaseUnbonding height) _)
    intro _
    apply Lockstep.bind (Lockstep.modify tipped_rotateEpoch)
    intro _
    exact Lockstep.modify (tipped_punishDowntime height)
  · exact Lockstep.pure _

theorem together_bookkeeping (twin : Twin b other)
    (certificate : reached env.forks.rewardApplyPath b.index = true → signers b = signers other) :
    Lockstep (TippedUpTo tries b other) (bookkeeping env) (bookkeeping env) := by
  unfold bookkeeping
  apply Lockstep.get_bind
  intro s t tipped
  have height : t.height = b.index := by
    simp only [Blockchain.height, tipped.last', Option.map_some, Option.getD_some, twin.index]
  rw [tipped.alike.height, height]
  split
  · rename_i active
    apply Lockstep.bind (Lockstep.modify (tipped_applyReward twin (certificate active)))
    intro _
    apply Lockstep.get_bind
    intro x y tipped
    rw [tipped.alike.height]
    exact together_runEpochBookkeeping _
  · exact Lockstep.pure _

/-- What the trie update reads: the staking ledgers only once they are committed. -/
structure TrieInputs (forks : Forks) (b other : Block) (s t : Blockchain) : Prop where
  accounts : s.accounts = t.accounts
  contracts : s.contracts = t.contracts
  nftRegistry : s.nftRegistry = t.nftRegistry
  stateTrie : s.stateTrie = t.stateTrie
  last : s.chain.getLast? = some b
  last' : t.chain.getLast? = some other
  staking : reached forks.stateInTrie b.index = true → s.stakeRegistry = t.stakeRegistry ∧
    s.slashing = t.slashing ∧ s.epochManager = t.epochManager ∧ s.totalMinted = t.totalMinted

/-- A comparison of nodes under which the trie update can be followed. -/
structure TrieReady (forks : Forks) (b other : Block) (R : Blockchain → Blockchain → Prop) :
    Prop where
  reads : ∀ s t, R s t → TrieInputs forks b other s t
  accounts : ∀ s t db, R s t → R { s with accounts := db } { t with accounts := db }
  stateTrie : ∀ s t trie, R s t →
    R { s with stateTrie := some trie } { t with stateTrie := some trie }

theorem Twin.touchedByTransactions (twin : Twin b other) :
    touchedByTransactions b = touchedByTransactions other := by
  have same := twin.transactions
  unfold Blockchain.touchedByTransactions
  generalize b.transactions = txs, other.transactions = others at same ⊢
  induction same with
  | nil => rfl
  | cons first _ ih => simp only [List.flatMap_cons, first.fromAddress, first.toAddress, ih]

theorem stateWrites_eq (twin : Twin b other) (inputs : TrieInputs env.forks b other s t) :
    s.stateWrites env.wire env.forks env.trie (s.touchedAddresses env.forks env.settings b)
        b.index =
      t.stateWrites env.wire env.forks env.trie (t.touchedAddresses env.forks env.settings other)
        other.index := by
  have touched : s.touchedAddresses env.forks env.settings b =
      t.touchedAddresses env.forks env.settings other := by
    simp only [touchedAddresses, twin.touchedByTransactions, twin.validator, twin.index,
      inputs.accounts]
  have staking : (if reached env.forks.stateInTrie b.index then s.stakingWrites env.wire else []) =
      if reached env.forks.stateInTrie b.index then t.stakingWrites env.wire else [] := by
    split
    · rename_i active
      obtain ⟨stake, slashing, epoch, minted⟩ := inputs.staking active
      simp only [stakingWrites, stake, slashing, epoch, minted]
    · rfl
  unfold stateWrites
  rw [staking, touched]
  simp only [accountWrites, nativeWrites, inputs.accounts, inputs.contracts, inputs.nftRegistry,
    twin.index]

section
variable {R : Blockchain → Blockchain → Prop}

theorem TrieReady.rebaseTreasury (ready : TrieReady env.forks b other R) (twin : Twin b other)
    (s t : Blockchain) (related : R s t) :
    R (rebaseTreasury env.settings s) (rebaseTreasury env.settings t) := by
  have inputs := ready.reads s t related
  unfold Blockchain.rebaseTreasury
  rw [inputs.last, inputs.last']
  simp only [Option.map_some, twin.index, inputs.accounts]
  exact ready.accounts s t _ related

theorem TrieReady.drainTouched (ready : TrieReady env.forks b other R)
    (s t : Blockchain) (related : R s t) :
    R (drainTouched env.forks other.index s) (drainTouched env.forks other.index t) := by
  unfold Blockchain.drainTouched
  rw [(ready.reads s t related).accounts]
  split
  · exact ready.accounts s t _ related
  · exact related

theorem TrieReady.commitBlock (ready : TrieReady env.forks b other R) (twin : Twin b other)
    (trie : SentrixTrie) {s t : Blockchain} (related : R s t) :
    Lockstep R (commitBlock env.wire env.forks env.settings env.trie trie b s)
      (commitBlock env.wire env.forks env.settings env.trie trie other t) := by
  unfold Blockchain.commitBlock
  rw [stateWrites_eq twin (ready.reads s t related), twin.index]
  apply Lockstep.bind (Lockstep.modify ready.drainTouched)
  intro _
  apply Lockstep.bind
  · exact Lockstep.focus (fun _ _ _ => rfl) ready.stateTrie _
  intro root
  exact Lockstep.pure (some root)

theorem TrieReady.updateTrieForBlock (ready : TrieReady env.forks b other R) (twin : Twin b other) :
    Lockstep R (updateTrieForBlock env.wire env.forks env.settings env.trie)
      (updateTrieForBlock env.wire env.forks env.settings env.trie) := by
  unfold Blockchain.updateTrieForBlock
  apply Lockstep.bind (Lockstep.modify (ready.rebaseTreasury twin))
  intro _
  apply Lockstep.get_bind
  intro s t related
  have inputs := ready.reads s t related
  have height : s.height = t.height := by
    simp only [Blockchain.height, inputs.last, inputs.last', Option.map_some, twin.index]
  rw [inputs.stateTrie, inputs.last, inputs.last', height]
  cases t.stateTrie with
  | none =>
    apply Lockstep.bind (Lockstep.ensure _ _ _)
    intro _
    exact Lockstep.pure none
  | some trie => exact ready.commitBlock twin trie related

theorem TrieReady.updateTrie (ready : TrieReady env.forks b other R) (twin : Twin b other) :
    Lockstep R (updateTrie env) (updateTrie env) := by
  intro s t related
  have agree := ready.updateTrieForBlock twin s t related
  unfold Blockchain.updateTrie
  generalize Blockchain.updateTrieForBlock env.wire env.forks env.settings env.trie s = left,
    Blockchain.updateTrieForBlock env.wire env.forks env.settings env.trie t = right at agree
  cases agree with
  | ok after => exact .ok after
  | error after => exact .error after

end

theorem trieReady_tipped : TrieReady env.forks b other (Tipped b other) where
  reads _ _ tipped :=
    { accounts := tipped.alike.accounts
      contracts := tipped.alike.contracts
      nftRegistry := tipped.alike.nftRegistry
      stateTrie := tipped.alike.stateTrie
      last := tipped.last
      last' := tipped.last'
      staking := fun _ => ⟨tipped.alike.stakeRegistry, tipped.alike.slashing,
        tipped.alike.epochManager, tipped.alike.totalMinted⟩ }
  accounts _ _ _ tipped := tipped.on { tipped.alike with accounts := rfl } rfl rfl
  stateTrie _ _ _ tipped := tipped.on { tipped.alike with stateTrie := rfl } rfl rfl

structure Ledgers where
  accounts : AccountDB
  contracts : ContractRegistry
  nftRegistry : NftRegistry
  totalMinted : Nat
  stateTrie : Option SentrixTrie
  stakeRegistry : StakeRegistry
  epochManager : EpochManager
  slashing : SlashingEngine
  deriving DecidableEq

def ledgers (bc : Blockchain) : Ledgers where
  accounts := bc.accounts
  contracts := bc.contracts
  nftRegistry := bc.nftRegistry
  totalMinted := bc.totalMinted
  stateTrie := bc.stateTrie
  stakeRegistry := bc.stakeRegistry
  epochManager := bc.epochManager
  slashing := bc.slashing

variable {s t : Blockchain}

theorem AlikeUpTo.ledgers (alike : Alike s t) : ledgers s = ledgers t := by
  simp only [Blockchain.ledgers, alike.accounts, alike.contracts, alike.nftRegistry,
    alike.totalMinted, alike.stateTrie, alike.stakeRegistry, alike.epochManager, alike.slashing]

theorem keeps_settleStateRoot_of {γ : Type} {read : Blockchain → γ}
    (free : ∀ bc chain, read { bc with chain } = read bc) (computed : Option Bytes) :
    Keeps read (settleStateRoot env computed) :=
  Steps.keeps (steps_settleStateRoot env free computed)

def applyUpToRoot (env : Platform) (now : Nat) (b : Block) : Apply (Option Bytes) := do
  applyBody env now b
  modify (pushBlock b)
  bookkeeping env
  updateTrie env

variable {bc after : Blockchain}

theorem applyBlockPass2_split {u : Unit} :
    applyBlockPass2 env now b bc = .ok u after ↔ ∃ computed reached,
      applyUpToRoot env now b bc = .ok computed reached ∧
        settleStateRoot env computed reached = .ok u after := by
  simp only [applyBlockPass2, applyTail, applyUpToRoot, bind_ok]
  constructor
  · rintro ⟨_, body, ran, _, pushed, push, _, booked, book, computed, reached, update, settled⟩
    exact ⟨computed, reached, ⟨_, body, ran, _, pushed, push, _, booked, book, update⟩, settled⟩
  · rintro ⟨computed, reached, ⟨_, body, ran, _, pushed, push, _, booked, book, update⟩, settled⟩
    exact ⟨_, body, ran, _, pushed, push, _, booked, book, computed, reached, update, settled⟩

theorem twin_appended (twin : Twin b other) {x : Blockchain} (alike : AlikeUpTo tries s t)
    (ran : applyBody env now b s = .ok () x) :
    ∃ y, applyBody env now' other t = .ok () y ∧
      TippedUpTo tries b other (pushBlock b x) (pushBlock other y) := by
  obtain ⟨y, ran', after⟩ := (together_applyBody twin).follows alike ran
  exact ⟨y, ran', tipped_pushBlock twin.index after⟩

variable {computed : Option Bytes}

theorem applyUpToRoot_ok :
    applyUpToRoot env now b bc = .ok computed after ↔ ∃ body booked,
      applyBody env now b bc = .ok () body ∧ bookkeeping env (pushBlock b body) = .ok () booked ∧
        updateTrie env booked = .ok computed after := by
  constructor
  · intro ran
    obtain ⟨_, body, bodyRan, ran⟩ := bind_ok.mp ran
    obtain ⟨_, booked, bookRan, update⟩ := bind_ok.mp (modify_bind_ok ran)
    exact ⟨body, booked, bodyRan, bookRan, update⟩
  · rintro ⟨body, booked, bodyRan, bookRan, update⟩
    exact bind_ok.mpr ⟨(), body, bodyRan, bind_ok.mpr ⟨⟨⟩, pushBlock b body, rfl,
      bind_ok.mpr ⟨(), booked, bookRan, update⟩⟩⟩

theorem twin_upToRoot (twin : Twin b other)
    (certificate : reached env.forks.rewardApplyPath b.index = true → signers b = signers other)
    {x : Blockchain} (alike : Alike s t) (ran : applyUpToRoot env now b s = .ok computed x) :
    ∃ y, applyUpToRoot env now' other t = .ok computed y ∧ Tipped b other x y := by
  obtain ⟨body, booked, bodyRan, bookRan, update⟩ := applyUpToRoot_ok.mp ran
  obtain ⟨body', bodyRan', pushed⟩ := twin_appended twin alike bodyRan
  obtain ⟨booked', bookRan', tipped⟩ :=
    (together_bookkeeping twin certificate).follows pushed bookRan
  obtain ⟨y, update', after⟩ := (trieReady_tipped.updateTrie twin).follows tipped update
  exact ⟨y, applyUpToRoot_ok.mpr ⟨body', booked', bodyRan', bookRan', update'⟩, after⟩

theorem last_upToRoot {x : Blockchain} (ran : applyUpToRoot env now b s = .ok computed x) :
    x.chain.getLast? = some b := by
  obtain ⟨y, -, tipped⟩ : ∃ y, applyUpToRoot env now b s = .ok computed y ∧ Tipped b b x y :=
    twin_upToRoot (Twin.refl b) (fun _ => rfl) (Alike.refl _) ran
  exact tipped.last

theorem twin_pass2 (twin : Twin b other)
    (certificate : reached env.forks.rewardApplyPath b.index = true → signers b = signers other)
    {after' : Blockchain} {u u' : Unit} (alike : Alike s t)
    (ran : applyBlockPass2 env now b s = .ok u after)
    (ran' : applyBlockPass2 env now' other t = .ok u' after') : ledgers after = ledgers after' := by
  obtain ⟨computed, x, upTo, settled⟩ := applyBlockPass2_split.mp ran
  obtain ⟨computed', y, upTo', settled'⟩ := applyBlockPass2_split.mp ran'
  obtain ⟨y', followed, tipped⟩ := twin_upToRoot twin certificate alike upTo
  obtain ⟨rfl, rfl⟩ : computed' = computed ∧ y = y' := by simpa using upTo'.symm.trans followed
  calc ledgers after = ledgers x := (keeps_settleStateRoot_of (fun _ _ => rfl) computed').ok settled
    _ = ledgers y := tipped.alike.ledgers
    _ = ledgers after' :=
      ((keeps_settleStateRoot_of (fun _ _ => rfl) computed').ok settled').symm

/-- A view that shows neither the trie nor the list of touched addresses sees of the
trie update only the operator-set treasury balance. -/
theorem updateTrie_view {γ : Type} {read : Blockchain → γ}
    (tries : ∀ bc trie, read { bc with stateTrie := some trie } = read bc)
    (lists : ∀ bc, read { bc with accounts := bc.accounts.clearTouchedInBlock } = read bc)
    (ran : updateTrie env bc = .ok computed after) :
    read after = read (rebaseTreasury env.settings bc) := by
  have updated : updateTrieForBlock env.wire env.forks env.settings env.trie bc =
      .ok computed after := by
    unfold updateTrie at ran
    split at ran
    · rename_i inner
      cases ran
      exact inner
    · cases ran
  have updated := get_bind_ok (modify_bind_ok updated)
  generalize rebaseTreasury env.settings bc = start at updated
  cases present : start.stateTrie with
  | none =>
    rw [present] at updated
    obtain ⟨-, done⟩ := ensure_bind_ok updated
    rw [(pure_ok.mp done).2]
  | some =>
    cases last : start.chain.getLast? with
    | none =>
      rw [present, last] at updated
      rw [(pure_ok.mp updated).2]
    | some =>
      rw [present, last] at updated
      obtain ⟨root, _, committed, done⟩ := bind_ok.mp (modify_bind_ok updated)
      obtain ⟨t, -, rfl⟩ := focus_ok.mp committed
      obtain ⟨-, rfl⟩ := pure_ok.mp done
      rw [tries, drainTouched]
      split
      · exact lists start
      · rfl

theorem applyReward_frame (forks : Forks) (bc : Blockchain) :
    ∃ slashing stakeRegistry epochManager, applyRewardBookkeepingForLatestBlock forks bc =
      { bc with slashing, stakeRegistry, epochManager } := by
  unfold applyRewardBookkeepingForLatestBlock
  split
  · exact ⟨_, _, _, rfl⟩
  · split
    · exact ⟨_, _, _, rfl⟩
    · exact ⟨_, _, _, rfl⟩

def rewarded (env : Platform) (height : Nat) (bc : Blockchain) : Blockchain :=
  if reached env.forks.rewardApplyPath height then
    applyRewardBookkeepingForLatestBlock env.forks bc
  else bc

theorem rewarded_frame (env : Platform) (height : Nat) (bc : Blockchain) :
    ∃ slashing stakeRegistry epochManager,
      rewarded env height bc = { bc with slashing, stakeRegistry, epochManager } := by
  unfold rewarded
  split
  · exact applyReward_frame env.forks bc
  · exact ⟨_, _, _, rfl⟩

theorem rewarded_chain (env : Platform) (height : Nat) (bc : Blockchain) :
    (rewarded env height bc).chain = bc.chain := by
  obtain ⟨_, _, _, frame⟩ := rewarded_frame env height bc
  rw [frame]

theorem rewarded_accounts (env : Platform) (height : Nat) (bc : Blockchain) :
    (rewarded env height bc).accounts = bc.accounts := by
  obtain ⟨_, _, _, frame⟩ := rewarded_frame env height bc
  rw [frame]

/-- Between epoch boundaries nothing else is booked. -/
theorem bookkeeping_within (last : bc.chain.getLast? = some b)
    (within : EpochManager.isEpochBoundary b.index = false) :
    bookkeeping env bc = .ok () (rewarded env b.index bc) := by
  have height (s : Blockchain) (kept : s.chain = bc.chain) : s.height = b.index := by
    simp only [Blockchain.height, kept, last, Option.map_some, Option.getD_some]
  have booked : (applyRewardBookkeepingForLatestBlock env.forks bc).height = b.index := by
    obtain ⟨_, _, _, frame⟩ := applyReward_frame env.forks bc
    exact height _ (by rw [frame])
  refine bind_ok.mpr ⟨bc, bc, rfl, ?_⟩
  rw [height bc rfl, rewarded]
  split
  · refine bind_ok.mpr ⟨⟨⟩, applyRewardBookkeepingForLatestBlock env.forks bc, rfl,
      bind_ok.mpr ⟨_, _, rfl, ?_⟩⟩
    rw [booked]
    simp only [runEpochBookkeeping, within]
    rfl
  · rfl

theorem applyUpToRoot_within (within : EpochManager.isEpochBoundary b.index = false) :
    applyUpToRoot env now b bc = .ok computed after ↔ ∃ body,
      applyBody env now b bc = .ok () body ∧
        updateTrie env (rewarded env b.index (pushBlock b body)) = .ok computed after := by
  have book (body : Blockchain) : bookkeeping env (pushBlock b body) =
      .ok () (rewarded env b.index (pushBlock b body)) :=
    bookkeeping_within (getLast?_pushBlock b body) within
  rw [applyUpToRoot_ok]
  constructor
  · rintro ⟨body, booked, bodyRan, bookRan, update⟩
    cases (book body).symm.trans bookRan
    exact ⟨body, bodyRan, update⟩
  · rintro ⟨body, bodyRan, update⟩
    exact ⟨body, _, bodyRan, book body, update⟩

section
variable {source : BlockSource} {row : Block}

theorem getLast?_setLast (f : Block → Block) (bc : Blockchain) :
    (setLast f bc).chain.getLast? = bc.chain.getLast?.map f := by
  unfold setLast
  cases found : bc.chain.getLast? with
  | none => simp [found]
  | some => simp

def Restamped (b row : Block) : Prop :=
  ∃ stateRoot hash, row = { b with stateRoot, hash }

theorem Restamped.twin (restamped : Restamped b row) : Twin b row := by
  obtain ⟨_, _, rfl⟩ := restamped
  exact ⟨rfl, rfl, (Twin.refl b).transactions⟩

theorem Restamped.signers (restamped : Restamped b row) : signers b = signers row := by
  obtain ⟨_, _, rfl⟩ := restamped
  rfl

variable {bc : Blockchain}

theorem settleStateRoot_top {computed : Option Bytes} {settled : Blockchain} {u : Unit}
    (last : bc.chain.getLast? = some b) (ran : settleStateRoot env computed bc = .ok u settled) :
    ∃ row, settled.chain.getLast? = some row ∧ Restamped b row := by
  have stamped (f : Block → Block) (f_restamps : Restamped b (f b)) :
      ∃ row, (setLast f bc).chain.getLast? = some row ∧ Restamped b row :=
    ⟨f b, by rw [getLast?_setLast, last]; rfl, f_restamps⟩
  have ran := get_bind_ok ran
  cases computed with
  | none =>
    obtain ⟨-, rfl⟩ := pure_ok.mp ran
    exact ⟨b, last, _, _, rfl⟩
  | some =>
    simp only [last, settleRootOf] at ran
    split at ran
    · cases received : b.stateRoot with
      | none =>
        simp only [received, stampMissingRoot] at ran
        obtain ⟨-, ran⟩ := ensure_bind_ok (get_bind_ok ran)
        obtain rfl := modify_ok.mp ran
        exact stamped _ ⟨_, _, rfl⟩
      | some =>
        simp only [received, checkReceivedRoot] at ran
        obtain ⟨-, ran⟩ := ensure_bind_ok (get_bind_ok ran)
        obtain rfl := modify_ok.mp ran
        exact stamped _ ⟨_, _, rfl⟩
    · obtain rfl := modify_ok.mp ran
      exact stamped _ ⟨_, _, rfl⟩

theorem accepted_top {after : Blockchain} {u : Unit}
    (accepted : addBlockWithSource env now source b bc = .ok u after) :
    b.index = bc.expectedIndex ∧ ∃ row, after.chain.getLast? = some row ∧ Restamped b row := by
  obtain ⟨verified, applied, header, -, pass2, rfl⟩ := addBlockWithSource_ok accepted
  obtain ⟨_, -, structured, -⟩ := checkHeader_ok header
  obtain ⟨computed, x, upTo, settled⟩ := applyBlockPass2_split.mp pass2
  obtain ⟨row, top, restamped⟩ := settleStateRoot_top (last_upToRoot upTo) settled
  exact ⟨structured.index_eq, row, top, restamped⟩

theorem height_of_top (top : bc.chain.getLast? = some row) : bc.height = row.index := by
  simp [height, top]

end

end Blockchain
end SentrixCore
