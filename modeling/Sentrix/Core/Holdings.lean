import Sentrix.Core.Footprint

/-!
What an accepted block does to accounts, tokens and NFTs. Outside the loop over its
transactions the protocol itself moves money in a few fixed ways, collected as
`ProtocolMove`.
-/
namespace SentrixCore
open Effects SentrixPrimitives List
open Relation (ReflTransGen)

/-- Credits, payouts of the treasury, burns and operator-set treasury balances. -/
inductive ProtocolMove : AccountDB → AccountDB → Prop where
  | none (db : AccountDB) : ProtocolMove db db
  | clear (db : AccountDB) : ProtocolMove db db.clearTouchedInBlock
  | burn (db : AccountDB) (amount : Nat) : ProtocolMove db (db.burn amount)
  | rebase (db : AccountDB) (balance : Nat) : ProtocolMove db (db.setBalance protocolTreasury balance)
  | credit (db : AccountDB) (address : Address) (amount : Nat) :
      ProtocolMove db (finalState (AccountDB.credit address amount) db)
  | payout (db : AccountDB) (address : Address) (amount : Nat) :
      ProtocolMove db (finalState (AccountDB.transfer protocolTreasury address amount 0) db)

namespace Blockchain

structure SideStep (bc after : Blockchain) : Prop where
  accounts : ProtocolMove bc.accounts after.accounts
  contracts : after.contracts = bc.contracts
  nftRegistry : after.nftRegistry = bc.nftRegistry

abbrev Sideways : Blockchain → Blockchain → Prop :=
  ReflTransGen SideStep

theorem Sideways.tokens {bc after : Blockchain} (moved : Sideways bc after) :
    after.contracts = bc.contracts ∧ after.nftRegistry = bc.nftRegistry := by
  induction moved with
  | refl => exact ⟨rfl, rfl⟩
  | tail _ step ih => exact ⟨step.contracts.trans ih.1, step.nftRegistry.trans ih.2⟩

theorem Sideways.accounts {R : AccountDB → AccountDB → Prop} (refl : ∀ db, R db db)
    (trans : ∀ {x y z}, R x y → R y z → R x z) (move : ∀ {x y}, ProtocolMove x y → R x y)
    {bc after : Blockchain} (moved : Sideways bc after) : R bc.accounts after.accounts := by
  induction moved with
  | refl => exact refl _
  | tail _ step ih => exact trans ih (move step.accounts)

theorem SideStep.elsewhere {bc after : Blockchain} (accounts : after.accounts = bc.accounts)
    (contracts : after.contracts = bc.contracts) (nfts : after.nftRegistry = bc.nftRegistry) :
    SideStep bc after :=
  ⟨accounts ▸ .none _, contracts, nfts⟩

structure Accounting (step : Blockchain → Blockchain → Prop) : Prop extends MoneyMoves step where
  elsewhere : ∀ {bc after : Blockchain}, after.accounts = bc.accounts →
    after.contracts = bc.contracts → after.nftRegistry = bc.nftRegistry → step bc after
  rebase : ∀ (bc : Blockchain) (balance : Nat),
    step bc { bc with accounts := bc.accounts.setBalance protocolTreasury balance }

theorem accounting_sideStep : Accounting SideStep where
  elsewhere := .elsewhere
  credit bc address amount := ⟨.credit bc.accounts address amount, rfl, rfl⟩
  payout bc address amount := ⟨.payout bc.accounts address amount, rfl, rfl⟩
  burn bc amount := ⟨.burn bc.accounts amount, rfl, rfl⟩
  rebase bc balance := ⟨.rebase bc.accounts balance, rfl, rfl⟩

variable (env : Platform) (now : Nat) (b : Block)

namespace Accounting
variable {step : Blockchain → Blockchain → Prop} (acc : Accounting step)
include acc

theorem moves : ProtocolMoves step where
  bench _ := acc.elsewhere rfl rfl rfl
  authority _ _ := acc.elsewhere rfl rfl rfl
  toMoneyMoves := acc.toMoneyMoves
  epochs _ _ := acc.elsewhere rfl rfl rfl

theorem steps_applyCoinbase : Steps step (applyCoinbase env b) :=
  acc.moves.steps_applyCoinbase env b fun _ _ => acc.elsewhere rfl rfl rfl

theorem steps_afterTransactions (totalFee : Nat) :
    Steps step (do
      payFees b totalFee
      modify (recordProduced b)
      modify (dropMined now b) : Apply Unit) :=
  acc.moves.steps_afterTransactions now b (fun _ _ _ _ => acc.elsewhere rfl rfl rfl) totalFee

theorem applyRewardBookkeeping (forks : Forks) (bc : Blockchain) :
    step bc (applyRewardBookkeepingForLatestBlock forks bc) := by
  unfold applyRewardBookkeepingForLatestBlock
  split
  · exact acc.elsewhere rfl rfl rfl
  · split
    · exact acc.elsewhere rfl rfl rfl
    · exact acc.elsewhere rfl rfl rfl

theorem steps_bookkeeping : Steps step (bookkeeping env) :=
  acc.moves.steps_bookkeeping env (acc.applyRewardBookkeeping env.forks)

theorem rebaseTreasury (settings : Settings) (bc : Blockchain) :
    ReflTransGen step bc (Blockchain.rebaseTreasury settings bc) := by
  have one (start : Blockchain) (now : Prop) [Decidable now] (value : Nat) : step start
      { start with accounts := if now then start.accounts.setBalance protocolTreasury value
          else start.accounts } := by
    split
    · exact acc.rebase start value
    · exact acc.elsewhere rfl rfl rfl
  unfold Blockchain.rebaseTreasury
  cases settings.stateRootV2TreasuryBalance with
  | none =>
    cases settings.treasuryRebaseBalance with
    | none => exact .refl
    | some => exact .single (one bc _ _)
  | some =>
    cases settings.treasuryRebaseBalance with
    | none => exact .single (one bc _ _)
    | some => exact (ReflTransGen.single (one bc _ _)).tail (one _ _ _)

end Accounting

theorem elsewhere_drainTouched (forks : Forks) (index : Nat) (bc : Blockchain) :
    SideStep bc (drainTouched forks index bc) := by
  unfold drainTouched
  split
  · exact ⟨.clear _, rfl, rfl⟩
  · exact .elsewhere rfl rfl rfl

theorem steps_onTrie {α : Type} (trie : SentrixTrie) (m : EStateM SentrixError SentrixTrie α) :
    Steps SideStep (onTrie trie m) := by
  apply Steps.single
  intro bc
  unfold finalState onTrie focus
  cases m trie
  · exact .elsewhere rfl rfl rfl
  · exact .elsewhere rfl rfl rfl

theorem steps_updateTrieForBlock (w : Wire) (forks : Forks) (settings : Settings) (ops : TrieOps) :
    Steps SideStep (updateTrieForBlock w forks settings ops) := by
  unfold updateTrieForBlock
  apply Steps.bind
  · exact fun bc => accounting_sideStep.rebaseTreasury settings bc
  intro _
  apply Steps.bind Steps.get
  intro bc
  cases bc.stateTrie with
  | none =>
    apply Steps.bind (Steps.ensure _ _)
    intro _
    exact Steps.pure _
  | some trie =>
    cases bc.chain.getLast? with
    | none => exact Steps.pure _
    | some last =>
      apply Steps.bind (Steps.modify (elsewhere_drainTouched forks last.index))
      intro _
      apply Steps.bind (steps_onTrie trie _)
      intro _
      exact Steps.pure _

theorem steps_updateTrie : Steps SideStep (updateTrie env) := by
  intro bc
  have steps := steps_updateTrieForBlock env.wire env.forks env.settings env.trie bc
  unfold finalState updateTrie at *
  cases ran : updateTrieForBlock env.wire env.forks env.settings env.trie bc with
  | ok => simp only [ran] at steps ⊢; exact steps
  | error => simp only [ran] at steps ⊢; exact steps

theorem steps_applyTail : Steps SideStep (applyTail env) := by
  unfold applyTail
  apply Steps.bind (accounting_sideStep.steps_bookkeeping env)
  intro _
  apply Steps.bind (steps_updateTrie env)
  intro computed
  exact steps_settleStateRoot env (fun _ _ => .elsewhere rfl rfl rfl) computed

def opened (env : Platform) (b : Block) (bc : Blockchain) : Blockchain :=
  finalState (applyCoinbase env b) { bc with accounts := bc.accounts.clearTouchedInBlock }

theorem sideways_opened (bc : Blockchain) : Sideways bc (opened env b bc) := by
  have cleared : SideStep bc { bc with accounts := bc.accounts.clearTouchedInBlock } :=
    ⟨.clear _, rfl, rfl⟩
  exact .head cleared (accounting_sideStep.steps_applyCoinbase env b _)

theorem applyBlockPass2_ok {bc after : Blockchain} {u : Unit}
    (ran : applyBlockPass2 env now b bc = .ok u after) :
    ∃ fees finish, applyTransactions env now b b.transactions.tail 0 (opened env b bc) =
        .ok fees finish ∧ Sideways finish after := by
  unfold applyBlockPass2 at ran
  obtain ⟨_, body, bodyRan, rest⟩ := bind_ok.mp ran
  unfold applyBody at bodyRan
  obtain ⟨_, start, coinbaseRan, loop⟩ := bind_ok.mp (modify_bind_ok bodyRan)
  obtain ⟨fees, finish, txsRan, ending⟩ := bind_ok.mp loop
  have isStart : opened env b bc = start := finalState_ok coinbaseRan
  refine ⟨fees, finish, isStart ▸ txsRan, ?_⟩
  have toBody := (accounting_sideStep.steps_afterTransactions now b fees).ok ending
  have pushed : SideStep body (pushBlock b body) := by
    unfold pushBlock
    exact .elsewhere rfl rfl rfl
  have tail := (steps_applyTail env).ok (modify_bind_ok rest)
  exact (toBody.tail pushed).trans tail

section
variable {env now b} {tx : Transaction} {totalFee fees : Nat} {bc paid after : Blockchain} {u : Unit}

theorem chargeTransaction_system (system : tx.isSystemTx env.wire = true)
    (ran : chargeTransaction env tx totalFee bc = .ok fees paid) : paid = bc := by
  unfold chargeTransaction at ran
  rw [if_pos system] at ran
  exact (pure_ok.mp ran).2.symm

theorem chargeTransaction_ok (ordinary : tx.isSystemTx env.wire = false)
    (ran : chargeTransaction env tx totalFee bc = .ok fees paid) :
    (if tx.isEvmTx then AccountDB.chargeFeeOnly tx.fromAddress tx.fee
      else AccountDB.transfer tx.fromAddress tx.toAddress tx.amount tx.fee) bc.accounts =
        .ok () paid.accounts := by
  unfold chargeTransaction at ran
  rw [if_neg (by simp [ordinary])] at ran
  obtain ⟨_, charged, moved, counted⟩ := bind_ok.mp ran
  obtain ⟨_, rfl⟩ := fromOption_ok.mp counted
  obtain ⟨db, paidDb, rfl⟩ := focus_ok.mp moved
  exact paidDb

theorem claimRewards_accounts {claimer : Address} (ran : claimRewards claimer bc = .ok u after) :
    after.accounts = bc.accounts ∨ ∃ total,
      AccountDB.transfer protocolTreasury claimer total 0 bc.accounts = .ok () after.accounts := by
  unfold claimRewards at ran
  have ran := get_bind_ok ran
  split at ran
  · right
    obtain ⟨_, moved, transferred, drained⟩ := bind_ok.mp ran
    obtain ⟨db, paidDb, rfl⟩ := focus_ok.mp transferred
    cases modify_ok.mp drained
    exact ⟨_, paidDb⟩
  · left
    rw [← (pure_ok.mp ran).2]

theorem accounts_skips : SkipsStaking accounts :=
  ⟨fun _ _ => rfl, fun _ _ _ => rfl, fun _ _ => rfl⟩

theorem applyStakingOp_accounts (ran : applyStakingOp env now b tx bc = .ok u after) :
    after.accounts = bc.accounts ∨ env.wire.stakingOp tx.data = some .claimRewards ∧ ∃ total,
      AccountDB.transfer protocolTreasury tx.fromAddress total 0 bc.accounts =
        .ok () after.accounts := by
  by_cases claim : env.wire.stakingOp tx.data = some .claimRewards
  · unfold applyStakingOp at ran
    simp only [claim] at ran
    split at ran
    · obtain ⟨_, ran⟩ := ensure_bind_ok ran
      rcases claimRewards_accounts ran with same | moved
      · exact .inl same
      · exact .inr ⟨claim, moved⟩
    · left
      rw [← (pure_ok.mp ran).2]
  · left
    have kept := keeps_applyStakingOp env now b tx accounts_skips claim
    exact kept.ok ran

theorem applyTransaction_ok (ran : applyTransaction env now b tx totalFee bc = .ok fees after) :
    ∃ paid tokened staked, chargeTransaction env tx totalFee bc = .ok fees paid ∧
      applyTokenOp env b tx paid = .ok () tokened ∧
      applyStakingOp env now b tx tokened = .ok () staked ∧ after = dispatchEvm env b tx staked := by
  unfold applyTransaction at ran
  obtain ⟨_, paid, charged, ran⟩ := bind_ok.mp ran
  obtain ⟨_, tokened, tokens, ran⟩ := bind_ok.mp ran
  obtain ⟨_, staked, staking, ran⟩ := bind_ok.mp ran
  obtain ⟨rfl, rfl⟩ := pure_ok.mp (modify_bind_ok ran)
  exact ⟨paid, tokened, staked, charged, tokens, staking, rfl⟩

theorem applyTokenOp_accounts (ran : applyTokenOp env b tx bc = .ok u after) :
    after.accounts = bc.accounts :=
  (keeps_applyTokenOp env b tx (fun _ _ => rfl) fun _ _ => rfl).ok ran

end

structure Applied where
  tx : Transaction
  before : Blockchain
  after : Blockchain

def appliedIn (env : Platform) (now : Nat) (b : Block) :
    List Transaction → Nat → Blockchain → List Applied
  | [], _, _ => []
  | tx :: rest, totalFee, bc =>
    match applyTransaction env now b tx totalFee bc with
    | .error _ _ => []
    | .ok fees after => ⟨tx, bc, after⟩ :: appliedIn env now b rest fees after

theorem appliedIn_cons {env : Platform} {now : Nat} {b : Block} {tx : Transaction}
    {rest : List Transaction} {totalFee fees : Nat} {bc after : Blockchain}
    (ran : applyTransaction env now b tx totalFee bc = .ok fees after) :
    appliedIn env now b (tx :: rest) totalFee bc =
      ⟨tx, bc, after⟩ :: appliedIn env now b rest fees after := by
  simp only [appliedIn, ran]

theorem appliedIn_ran {env : Platform} {now : Nat} {b : Block} {txs : List Transaction}
    {totalFee : Nat} {bc : Blockchain} {x : Applied}
    (inside : x ∈ appliedIn env now b txs totalFee bc) :
    ∃ earlier fees, applyTransaction env now b x.tx earlier x.before = .ok fees x.after := by
  induction txs generalizing totalFee bc with
  | nil => cases inside
  | cons tx rest ih =>
    unfold appliedIn at inside
    split at inside
    · cases inside
    · rename_i fees after ran
      rcases List.mem_cons.mp inside with rfl | later
      · exact ⟨totalFee, fees, ran⟩
      · exact ih later

theorem appliedIn_transactions {env : Platform} {now : Nat} {b : Block} {txs : List Transaction}
    {totalFee fees : Nat} {bc finish : Blockchain}
    (ran : applyTransactions env now b txs totalFee bc = .ok fees finish) :
    (appliedIn env now b txs totalFee bc).map (·.tx) = txs := by
  induction txs generalizing totalFee bc with
  | nil => rfl
  | cons _ _ ih =>
    obtain ⟨_, after, one, others⟩ := bind_ok.mp ran
    rw [appliedIn_cons one, map_cons, ih others]

theorem applyTransactions_respects {R : Blockchain → Blockchain → Prop} (refl : ∀ bc, R bc bc)
    (trans : ∀ {x y z}, R x y → R y z → R x z) {env : Platform} {now : Nat} {b : Block}
    {txs : List Transaction} {totalFee fees : Nat} {bc finish : Blockchain}
    (each : ∀ x ∈ appliedIn env now b txs totalFee bc, R x.before x.after)
    (ran : applyTransactions env now b txs totalFee bc = .ok fees finish) : R bc finish := by
  induction txs generalizing totalFee bc with
  | nil =>
    obtain ⟨_, rfl⟩ := pure_ok.mp ran
    exact refl bc
  | cons _ _ ih =>
    obtain ⟨_, after, one, others⟩ := bind_ok.mp ran
    rw [appliedIn_cons one] at each
    have first := each _ mem_cons_self
    exact trans first (ih (fun x member => each x (mem_cons_of_mem _ member)) others)

end Blockchain
end SentrixCore
