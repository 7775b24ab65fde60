import Sentrix.Core.EvmSettlement
import Sentrix.Tokens.NftAuthority

/-!
Who can lose what in a block. A native transaction is charged to whoever signed it, an EVM
transaction to the sender it names.
-/
namespace SentrixCore
open Effects SentrixPrimitives SentrixTokens List

structure Untouched (a : Address) (before after : AccountDB) : Prop where
  balance : before.getBalance a ≤ after.getBalance a
  nonce : after.getNonce a = before.getNonce a

theorem Untouched.refl (a : Address) (db : AccountDB) : Untouched a db db :=
  ⟨Nat.le_refl _, rfl⟩

variable {a : Address}

theorem Untouched.trans {x y z : AccountDB} (first : Untouched a x y) (second : Untouched a y z) :
    Untouched a x z :=
  ⟨Nat.le_trans first.balance second.balance, second.nonce.trans first.nonce⟩

theorem untouched_credit {address : Address} {amount : Nat} (db : AccountDB) :
    Untouched a db (finalState (AccountDB.credit address amount) db) := by
  unfold finalState
  cases ran : AccountDB.credit address amount db with
  | ok =>
    obtain ⟨balances, nonces⟩ := AccountDB.credit_ok ran
    constructor
    · simp only [balances a]
      omega
    · exact nonces a
  | error =>
    obtain ⟨balances, nonces⟩ := AccountDB.credit_error ran
    exact ⟨Nat.le_of_eq (balances a).symm, nonces a⟩

theorem untouched_transfer {sender recipient : Address} {amount fee : Nat} (other : a ≠ sender)
    (db : AccountDB) :
    Untouched a db (finalState (AccountDB.transfer sender recipient amount fee) db) := by
  unfold finalState
  cases ran : AccountDB.transfer sender recipient amount fee db with
  | ok =>
    obtain ⟨_, _, balances, nonces⟩ := AccountDB.transfer_ok ran
    constructor
    · simp only [balances a, if_neg other]
      omega
    · simp [nonces a, other]
  | error =>
    obtain ⟨balances, nonces⟩ := AccountDB.transfer_error ran
    exact ⟨Nat.le_of_eq (balances a other).symm, (nonces a).2 other⟩

theorem untouched_markEvmTxFailed (db : AccountDB) (txid : Hash) :
    Untouched a db (db.markEvmTxFailed txid) := by
  have same : (db.markEvmTxFailed txid).accounts = db.accounts :=
    (congrArg AccountDB.accounts (ledgerOf_markEvmTxFailed db txid) :)
  refine ⟨?_, AccountDB.getNonce_markEvmTxFailed _ _ _⟩
  unfold AccountDB.getBalance
  rw [same]

theorem untouched_storeDeployment {host : EvmHost} {txid : Hash} {receipt : TxReceipt}
    (db : AccountDB) : Untouched a db (storeDeployment host txid receipt db) := by
  refine ⟨?_, getNonce_storeDeployment host txid receipt db a⟩
  unfold storeDeployment
  split
  · exact Nat.le_refl _
  · split
    · exact Nat.le_refl _
    · split
      · exact (untouched_markEvmTxFailed db txid).balance
      · dsimp only [AccountDB.setContract]
        rw [AccountDB.getBalance_update]
        split
        · rename_i same
          rw [AccountDB.getOrCreate_balance, ← same]
          exact Nat.le_refl _
        · exact Nat.le_refl _

theorem untouched_executeEvmTx {forks : Forks} {host : EvmHost} {chainId height : Nat}
    {tx : Transaction} {db : AccountDB}
    (absent : ∀ receipt state, evmRun forks host chainId tx height db = some (receipt, state) →
      ∀ entry ∈ state, addressToSentrix entry.1 ≠ a) :
    Untouched a db (executeEvmTxInBlock forks host chainId tx height db) := by
  revert absent
  unfold executeEvmTxInBlock evmRun
  cases evmFields tx.data with
  | none => exact fun _ => .refl a db
  | some fields =>
    dsimp only [Option.bind_eq_bind, Option.bind_some]
    cases decodeEvmTx forks host db tx height fields with
    | none => exact fun _ => untouched_markEvmTxFailed db tx.txid
    | some call =>
      dsimp only [Option.bind_some]
      cases executeTxWithStateGated host (evmView host db call) call chainId
        (reached forks.evmGasFix height) with
      | error => exact fun _ => untouched_markEvmTxFailed db tx.txid
      | ok outcome =>
        obtain ⟨receipt, state⟩ := outcome
        intro absent
        have marked : Untouched a db
            (if receipt.success then db else db.markEvmTxFailed tx.txid) := by
          split
          · exact .refl a db
          · exact untouched_markEvmTxFailed db tx.txid
        dsimp only [settleEvmCall]
        generalize (if receipt.success then db else db.markEvmTxFailed tx.txid) = mid at marked
        have stored := marked.trans
          (@untouched_storeDeployment a host tx.txid receipt mid)
        split
        · refine stored.trans ?_
          have kept := lookup_write_absent (c := a) (fun entry inside =>
            absent receipt state rfl entry (mem_touchedAccounts.mp inside).1)
            (storeDeployment host tx.txid receipt mid)
          constructor
          · unfold commitStateToAccountDb AccountDB.getBalance
            rw [kept]
          · unfold commitStateToAccountDb AccountDB.getNonce
            rw [kept]
        · exact stored

theorem ProtocolMove.untouched (ordinary : a ≠ protocolTreasury) {db after : AccountDB}
    (move : ProtocolMove db after) : Untouched a db after := by
  cases move with
  | none => exact Untouched.refl a db
  | clear => exact ⟨Nat.le_refl _, rfl⟩
  | burn => exact ⟨Nat.le_refl _, rfl⟩
  | rebase =>
    constructor
    · rw [AccountDB.getBalance_setBalance, if_neg ordinary]
    · exact AccountDB.getNonce_setBalance db _ _ _
  | credit => exact untouched_credit db
  | payout => exact untouched_transfer ordinary db

namespace Blockchain

variable {a : Address} {bc after : Blockchain}

theorem Sideways.untouched (ordinary : a ≠ protocolTreasury) (moved : Sideways bc after) :
    Untouched a bc.accounts after.accounts :=
  moved.accounts (Untouched.refl a) Untouched.trans (ProtocolMove.untouched ordinary)

def isOwn (env : Platform) (a : Address) (tx : Transaction) : Bool :=
  tx.fromAddress == a && isOrdinary env tx

def debit (env : Platform) (a : Address) (tx : Transaction) : Nat :=
  if isOwn env a tx then tx.amount + tx.fee else 0

def nonceUse (env : Platform) (a : Address) (tx : Transaction) : Nat :=
  if isOwn env a tx then 1 else 0

def opDebit (contract : Address) : TokenOp → Nat
  | .transfer c _ amount => if c = contract then amount else 0
  | .burn c amount => if c = contract then amount else 0
  | _ => 0

def tokenDebit (env : Platform) (contract a : Address) (tx : Transaction) : Nat :=
  if isOwn env a tx then ((env.wire.tokenOp tx.data).map (opDebit contract)).getD 0 else 0

structure WithinMandate (env : Platform) (a : Address) (x : Applied) : Prop where
  balance : x.before.accounts.getBalance a ≤ x.after.accounts.getBalance a + debit env a x.tx
  nonce : x.after.accounts.getNonce a = x.before.accounts.getNonce a + nonceUse env a x.tx
  tokens : ∀ contract, x.before.contracts.getTokenBalance contract a ≤
    x.after.contracts.getTokenBalance contract a + tokenDebit env contract a x.tx
  nfts : NftRegistry.Spares a x.before.nftRegistry x.after.nftRegistry ∨
    isOrdinary env x.tx = true ∧ ∃ op, env.wire.tokenOp x.tx.data = some op ∧
      NftTaken op x.tx.fromAddress a x.before.nftRegistry
  grants : NftRegistry.GrantsBy x.tx.fromAddress x.before.nftRegistry x.after.nftRegistry

theorem onContracts_ok {α : Type} {m : EStateM SentrixError ContractRegistry α} {v : α}
    (ran : onContracts m bc = .ok v after) :
    m bc.contracts = .ok v after.contracts ∧ after.nftRegistry = bc.nftRegistry := by
  obtain ⟨reg, method, rfl⟩ := focus_ok.mp ran
  exact ⟨method, rfl⟩

theorem onNfts_ok {α : Type} {m : EStateM SentrixError NftRegistry α} {v : α}
    (ran : onNfts m bc = .ok v after) :
    m bc.nftRegistry = .ok v after.nftRegistry ∧ after.contracts = bc.contracts := by
  obtain ⟨reg, method, rfl⟩ := focus_ok.mp ran
  exact ⟨method, rfl⟩

theorem onContract_within {contract : Address} {m : EStateM SentrixError SRC20Contract Unit}
    {u : Unit} {allowed : Address → Nat}
    (ran : onContracts (ContractRegistry.onContract contract m) bc = .ok u after)
    (within : ∀ c c', m c = .ok u c' → c.balanceOf a ≤ c'.balanceOf a + allowed contract)
    (other : Address) : bc.contracts.getTokenBalance other a ≤
      after.contracts.getTokenBalance other a + allowed other := by
  obtain ⟨method, -⟩ := onContracts_ok ran
  rcases ContractRegistry.getTokenBalance_onContract method other a with
    ⟨c, c', moved, rfl, before, now⟩ | ⟨_, kept⟩
  · rw [before, now]
    exact within c c' moved
  · omega

variable {env : Platform} {b : Block} {tx : Transaction}

theorem dispatchTokenOp_ok {op : TokenOp} {u : Unit}
    (ran : dispatchTokenOp env b tx op bc = .ok u after) (a : Address) :
    (∀ contract, bc.contracts.getTokenBalance contract a ≤
        after.contracts.getTokenBalance contract a +
          if a = tx.fromAddress then opDebit contract op else 0) ∧
      (NftRegistry.Spares a bc.nftRegistry after.nftRegistry ∨
        NftTaken op tx.fromAddress a bc.nftRegistry) ∧
      NftRegistry.GrantsBy tx.fromAddress bc.nftRegistry after.nftRegistry := by
  unfold dispatchTokenOp at ran
  split at ran
  case h_1 name symbol decimals supply maxSupply =>
    obtain ⟨method, same⟩ := onContracts_ok ran
    obtain ⟨_, reg, deployed, done⟩ := bind_ok.mp method
    obtain ⟨_, here⟩ := pure_ok.mp done
    rw [same]
    refine ⟨?_, .inl (.refl a _), .refl _ _⟩
    intro contract
    rw [← here]
    have rose := ContractRegistry.getTokenBalance_deploy deployed contract a
    omega
  case h_2 contract recipient amount =>
    rw [(onContracts_ok ran).2]
    refine ⟨onContract_within ran fun c c' moved => ?_, .inl (.refl a _), .refl _ _⟩
    have balance := SRC20Contract.transfer_ok moved a
    simp only [opDebit, if_true]
    omega
  case h_3 contract amount =>
    rw [(onContracts_ok ran).2]
    refine ⟨onContract_within ran fun c c' moved => ?_, .inl (.refl a _), .refl _ _⟩
    have balance := SRC20Contract.burn_ok moved a
    simp only [opDebit, if_true]
    omega
  case h_4 contract recipient amount =>
    rw [(onContracts_ok ran).2]
    refine ⟨onContract_within ran fun c c' moved => ?_, .inl (.refl a _), .refl _ _⟩
    have balance := SRC20Contract.mint_ok moved a
    rw [balance]
    omega
  case h_5 contract spender amount =>
    rw [(onContracts_ok ran).2]
    refine ⟨onContract_within ran fun c c' moved => ?_, .inl (.refl a _), .refl _ _⟩
    have balance := SRC20Contract.approve_ok moved a
    rw [balance]
    omega
  case h_6 =>
    obtain ⟨_, gated⟩ := ensure_bind_ok ran
    obtain ⟨method, same⟩ := onNfts_ok gated
    obtain ⟨_, reg, applied, done⟩ := bind_ok.mp method
    obtain ⟨_, here⟩ := pure_ok.mp done
    obtain ⟨grants, spares⟩ := applyNftTokenOp_ok applied
    rw [← here, same]
    refine ⟨?_, spares a, grants⟩
    intro contract
    omega

variable {now totalFee fees : Nat}

/-- The charge and a reward claim, for an account other than the treasury. -/
theorem accounts_withinMandate (account : a ≠ protocolTreasury) (plain : tx.isCoinbase = false)
    (native : tx.isEvmTx = false)
    (ran : applyTransaction env now b tx totalFee bc = .ok fees after) :
    bc.accounts.getBalance a ≤ after.accounts.getBalance a + debit env a tx ∧
      after.accounts.getNonce a = bc.accounts.getNonce a + nonceUse env a tx := by
  obtain ⟨paid, tokened, staked, charged, tokens, staking, rfl⟩ := applyTransaction_ok ran
  rw [dispatchEvm_native native]
  have claimed : Untouched a paid.accounts staked.accounts := by
    rw [← applyTokenOp_accounts tokens]
    rcases applyStakingOp_accounts staking with same | ⟨_, total, moved⟩
    · rw [same]
      exact Untouched.refl a _
    · rw [← finalState_ok moved]
      exact untouched_transfer account _
  by_cases system : tx.isSystemTx env.wire = true
  · cases chargeTransaction_system system charged
    have free : isOwn env a tx = false := by simp [isOwn, isOrdinary, system]
    simp only [debit, nonceUse, free, Bool.false_eq_true, if_false, Nat.add_zero]
    exact ⟨claimed.balance, claimed.nonce⟩
  · have ordinary : tx.isSystemTx env.wire = false := by simpa using system
    have moved := chargeTransaction_ok ordinary charged
    simp only [native, Bool.false_eq_true, if_false] at moved
    obtain ⟨_, _, balances, nonces⟩ := AccountDB.transfer_ok moved
    have balance := claimed.balance
    have nonce := claimed.nonce
    rw [balances a] at balance
    rw [nonces a] at nonce
    by_cases own : a = tx.fromAddress
    · have mine : isOwn env a tx = true := by simp [isOwn, isOrdinary, plain, ordinary, own]
      simp only [debit, nonceUse, mine, if_true]
      rw [if_pos own] at balance nonce
      exact ⟨by omega, nonce⟩
    · have other : isOwn env a tx = false := by
        have apart : tx.fromAddress ≠ a := fun same => own same.symm
        simp [isOwn, apart]
      simp only [debit, nonceUse, other, Bool.false_eq_true, if_false]
      rw [if_neg own] at balance nonce
      exact ⟨by omega, nonce⟩

def tokenView (bc : Blockchain) : ContractRegistry × NftRegistry :=
  (bc.contracts, bc.nftRegistry)

theorem tokenView_skips : SkipsStaking tokenView :=
  ⟨fun _ _ => rfl, fun _ _ _ => rfl, fun _ _ => rfl⟩

theorem applyTransaction_tokens (native : tx.isEvmTx = false)
    (ran : applyTransaction env now b tx totalFee bc = .ok fees after) :
    ∃ paid tokened, applyTokenOp env b tx paid = .ok () tokened ∧
      paid.contracts = bc.contracts ∧ paid.nftRegistry = bc.nftRegistry ∧
      after.contracts = tokened.contracts ∧ after.nftRegistry = tokened.nftRegistry := by
  obtain ⟨paid, tokened, staked, charged, tokens, staking, rfl⟩ := applyTransaction_ok ran
  rw [dispatchEvm_native native]
  have before : tokenView paid = tokenView bc :=
    (keeps_chargeTransaction env tx (fun _ _ => rfl) totalFee).ok charged
  have behind : tokenView staked = tokenView tokened :=
    (Steps.keeps (tokenView_skips.moves.steps_applyStakingOp env now b tx fun _ =>
      tokenView_skips.moves.steps_claimRewards _ fun _ =>
        steps_onAccounts (fun _ _ => rfl) _)).ok staking
  simp only [tokenView, Prod.mk.injEq] at before behind
  exact ⟨paid, tokened, tokens, before.1, before.2, behind.1, behind.2⟩

/-- Data that decodes to a staking operation decodes to no token operation: both are
told apart by one tag. The data of an EVM transaction is neither. -/
structure OneOperation (w : Wire) : Prop where
  staking : ∀ data op, w.stakingOp data = some op → w.tokenOp data = none
  evm : ∀ tx : Transaction, tx.isEvmTx = true →
    w.tokenOp tx.data = none ∧ w.stakingOp tx.data = none

/-- An EVM transaction neither names the account as its sender nor writes it. -/
def EvmSpares (env : Platform) (b : Block) (a : Address) (x : Applied) : Prop :=
  x.tx.isEvmTx = true → x.tx.fromAddress ≠ a ∧ ∀ receipt state,
    SentrixCore.evmRun env.forks env.evm x.before.chainId x.tx b.index x.charged =
      some (receipt, state) → ∀ entry ∈ state, addressToSentrix entry.1 ≠ a

theorem system_noTokenOp (one : OneOperation env.wire) (system : tx.isSystemTx env.wire = true) :
    env.wire.tokenOp tx.data = none := by
  simp only [Transaction.isSystemTx, Transaction.isJailEvidenceBundleTx, Bool.and_eq_true] at system
  cases decoded : env.wire.stakingOp tx.data with
  | none => simp [decoded] at system
  | some op => exact one.staking tx.data op decoded

theorem evm_withinMandate (one : OneOperation env.wire) (evm : tx.isEvmTx = true)
    (spares : EvmSpares env b a ⟨tx, bc, after⟩)
    (ran : applyTransaction env now b tx totalFee bc = .ok fees after) :
    WithinMandate env a ⟨tx, bc, after⟩ := by
  obtain ⟨other, absent⟩ := spares evm
  obtain ⟨paid, moved, result, contracts, nfts⟩ := applyTransaction_evm evm (one.evm tx evm) ran
  have charged : (Applied.mk tx bc after).charged = paid.accounts := finalState_ok moved
  rw [charged] at absent
  obtain ⟨-, balances, nonces⟩ := AccountDB.chargeFeeOnly_ok moved
  have fee : Untouched a bc.accounts paid.accounts := by
    refine ⟨?_, nonces a⟩
    rw [balances a, if_neg fun same => other same.symm]
    exact Nat.le_refl _
  have whole : Untouched a bc.accounts after.accounts := by
    rw [result]
    split
    · exact fee.trans (untouched_executeEvmTx absent)
    · exact fee
  have books : after.contracts = bc.contracts ∧ after.nftRegistry = bc.nftRegistry := by
    rw [result]
    split <;> exact ⟨contracts, nfts⟩
  have foreign : isOwn env a tx = false := by simp [isOwn, other]
  constructor
  · simpa [debit, foreign] using whole.balance
  · simpa [nonceUse, foreign] using whole.nonce
  · intro contract
    simp [tokenDebit, foreign, books.1]
  · left
    simp only [books.2]
    exact .refl a _
  · simp only [books.2]
    exact .refl _ _

theorem native_withinMandate (one : OneOperation env.wire) (account : a ≠ protocolTreasury)
    (plain : tx.isCoinbase = false) (native : tx.isEvmTx = false)
    (ran : applyTransaction env now b tx totalFee bc = .ok fees after) :
    WithinMandate env a ⟨tx, bc, after⟩ := by
  obtain ⟨balance, nonce⟩ := accounts_withinMandate account plain native ran
  obtain ⟨paid, tokened, tokens, contracts, nfts, contracts', nfts'⟩ :=
    applyTransaction_tokens native ran
  unfold applyTokenOp at tokens
  cases decoded : env.wire.tokenOp tx.data with
  | none =>
    simp only [decoded] at tokens
    obtain ⟨_, rfl⟩ := pure_ok.mp tokens
    have sameNfts : after.nftRegistry = bc.nftRegistry := nfts'.trans nfts
    refine ⟨balance, nonce, ?_, .inl ?_, ?_⟩
    · intro contract
      simp only [contracts', contracts]
      omega
    · simp only [sameNfts]
      exact .refl a _
    · simp only [sameNfts]
      exact .refl _ _
  | some op =>
    simp only [decoded] at tokens
    have ordinary : isOrdinary env tx = true := by
      apply (isOrdinary_iff plain).mpr
      by_contra system
      rw [system_noTokenOp one (by simpa using system)] at decoded
      cases decoded
    obtain ⟨fungible, spared, grants⟩ := dispatchTokenOp_ok tokens a
    rw [contracts] at fungible
    rw [nfts] at spared grants
    rw [← contracts'] at fungible
    rw [← nfts'] at spared grants
    refine ⟨balance, nonce, ?_, ?_, grants⟩
    · intro contract
      have bound := fungible contract
      by_cases own : a = tx.fromAddress
      · have mine : isOwn env a tx = true := by simp [isOwn, own, ordinary]
        rw [if_pos own] at bound
        simpa [tokenDebit, mine, decoded] using bound
      · rw [if_neg own] at bound
        simp only
        omega
    · rcases spared with kept | taken
      · exact .inl kept
      · exact .inr ⟨ordinary, op, decoded, taken⟩

theorem loop_withinMandate {txs : List Transaction} {finish : Blockchain}
    (one : OneOperation env.wire) (account : a ≠ protocolTreasury)
    (plain : ∀ tx ∈ txs, tx.isCoinbase = false)
    (ran : applyTransactions env now b txs totalFee bc = .ok fees finish)
    (spares : ∀ x ∈ appliedIn env now b txs totalFee bc, EvmSpares env b a x) :
    (∀ x ∈ appliedIn env now b txs totalFee bc, WithinMandate env a x) ∧
      bc.accounts.getBalance a ≤ finish.accounts.getBalance a + (txs.map (debit env a)).sum ∧
      finish.accounts.getNonce a = bc.accounts.getNonce a + (txs.map (nonceUse env a)).sum ∧
      ∀ contract, bc.contracts.getTokenBalance contract a ≤
        finish.contracts.getTokenBalance contract a + (txs.map (tokenDebit env contract a)).sum := by
  induction txs generalizing totalFee bc with
  | nil =>
    obtain ⟨_, rfl⟩ := pure_ok.mp ran
    simp [appliedIn]
  | cons tx _ ih =>
    obtain ⟨_, after, first, others⟩ := bind_ok.mp ran
    rw [appliedIn_cons first] at spares ⊢
    have here : WithinMandate env a ⟨tx, bc, after⟩ := by
      cases evm : tx.isEvmTx with
      | true => exact evm_withinMandate one evm (spares _ mem_cons_self) first
      | false => exact native_withinMandate one account (plain tx mem_cons_self) evm first
    obtain ⟨each, balance, nonce, tokens⟩ := ih
      (fun t inside => plain t (mem_cons_of_mem _ inside)) others
      fun x inside => spares x (mem_cons_of_mem _ inside)
    simp only [map_cons, sum_cons]
    refine ⟨?_, ?_, ?_, ?_⟩
    · intro x inside
      rcases List.mem_cons.mp inside with rfl | later
      · exact here
      · exact each x later
    · have bound := here.balance
      simp only at bound
      omega
    · have moved := here.nonce
      simp only at moved
      omega
    · intro contract
      have bound := here.tokens contract
      have onward := tokens contract
      simp only at bound
      omega

theorem checkTransactions_signed {origin : Blockchain} {txs : List Transaction}
    {work done : Working} (plain : ∀ tx ∈ txs, tx.isCoinbase = false)
    (passed : origin.checkTransactions env txs work = .ok done) :
    ∀ tx ∈ txs, isOrdinary env tx = true → tx.isEvmTx = false → tx.Signed env.wire := by
  induction txs generalizing work with
  | nil => simp
  | cons tx _ ih =>
    obtain ⟨next, first, others⟩ := checkTransactions_cons passed
    have here := plain tx mem_cons_self
    have later := ih (fun t inside => plain t (mem_cons_of_mem _ inside)) others
    intro t inside counted native
    rcases List.mem_cons.mp inside with rfl | after
    · have ordinary := (isOrdinary_iff here).mp counted
      obtain ⟨_, valid, _⟩ := checkTransaction_ok ordinary first
      exact (Transaction.validate_ok here ordinary valid).2.2.2 native
    · exact later t after counted native

/-- In a block whose EVM transactions spare it an account other than the treasury pays only
for its own transactions, all of them signed, and no more than they name; an NFT is taken
from it by the owner, an approved address or the admin who burns it, and approvals for its
tokens are given by itself or its operators. -/
theorem block_authorized {env : Platform} {s : Submission} {bc after : Blockchain} {u : Unit}
    {a : Address} (one : OneOperation env.wire) (accepted : submit env s bc = .ok u after)
    (spares : ∀ x ∈ blockTrace env s bc, EvmSpares env s.block a x)
    (account : a ≠ protocolTreasury) :
    (∀ tx ∈ s.block.transactions.tail, isOrdinary env tx = true → tx.isEvmTx = false →
      tx.Signed env.wire) ∧
      bc.accounts.getBalance a ≤ after.accounts.getBalance a +
        (s.block.transactions.tail.map (debit env a)).sum ∧
      after.accounts.getNonce a = bc.accounts.getNonce a +
        (s.block.transactions.tail.map (nonceUse env a)).sum ∧
      (∀ contract, bc.contracts.getTokenBalance contract a ≤
        after.contracts.getTokenBalance contract a +
          (s.block.transactions.tail.map (tokenDebit env contract a)).sum) ∧
      (NftRegistry.Spares a bc.nftRegistry after.nftRegistry ∨
        ∃ x ∈ blockTrace env s bc, isOrdinary env x.tx = true ∧
          ∃ op, env.wire.tokenOp x.tx.data = some op ∧
            NftTaken op x.tx.fromAddress a x.before.nftRegistry) ∧
      ∀ x ∈ blockTrace env s bc,
        NftRegistry.GrantsBy x.tx.fromAddress x.before.nftRegistry x.after.nftRegistry := by
  obtain ⟨verified, applied, header, contents, pass2, rfl⟩ := addBlockWithSource_ok accepted
  obtain ⟨fees, finish, loop, ending⟩ := applyBlockPass2_ok env s.now s.block pass2
  obtain ⟨_, _, structured, _⟩ := checkHeader_ok header
  obtain ⟨coinbase, others, shape, _, plain⟩ := structured.first
  have tail : s.block.transactions.tail = others := by rw [shape]; rfl
  obtain ⟨_, work, checked⟩ := checkContents_ok contents
  simp only [blockTrace, header, tail] at spares ⊢
  rw [tail] at loop checked
  have opening := sideways_opened env s.block (bc.entering s.source verified)
  have before : Untouched a bc.accounts (opened env s.block (bc.entering s.source verified)).accounts :=
    (opening.untouched account :)
  have behind : Untouched a finish.accounts applied.accounts := ending.untouched account
  have contractsBefore : (opened env s.block (bc.entering s.source verified)).contracts =
      bc.contracts := opening.tokens.1
  have nftsBefore : (opened env s.block (bc.entering s.source verified)).nftRegistry =
      bc.nftRegistry := opening.tokens.2
  obtain ⟨each, balance, nonce, tokens⟩ := loop_withinMandate one account plain loop spares
  refine ⟨checkTransactions_signed plain checked, ?_, ?_, ?_, ?_, ?_⟩
  · have low := before.balance
    have high := behind.balance
    show bc.accounts.getBalance a ≤ applied.accounts.getBalance a + _
    omega
  · show applied.accounts.getNonce a = _
    rw [behind.nonce, nonce, before.nonce]
  · intro contract
    have bound := tokens contract
    rw [contractsBefore] at bound
    show _ ≤ applied.contracts.getTokenBalance contract a + _
    rw [ending.tokens.1]
    exact bound
  · -- some transaction takes an NFT, or none does and nothing is lost
    by_cases taken : ∃ x ∈ appliedIn env s.now s.block others 0
        (opened env s.block (bc.entering s.source verified)),
        isOrdinary env x.tx = true ∧ ∃ op, env.wire.tokenOp x.tx.data = some op ∧
          NftTaken op x.tx.fromAddress a x.before.nftRegistry
    · exact .inr taken
    · left
      have spared : NftRegistry.Spares a
          (opened env s.block (bc.entering s.source verified)).nftRegistry finish.nftRegistry := by
        apply applyTransactions_respects (R := fun x y =>
          NftRegistry.Spares a x.nftRegistry y.nftRegistry) (fun _ => .refl a _)
          (fun first second => first.trans second) _ loop
        intro x inside
        rcases (each x inside).nfts with kept | lost
        · exact kept
        · exact absurd ⟨x, inside, lost⟩ taken
      rw [nftsBefore] at spared
      show NftRegistry.Spares a bc.nftRegistry applied.nftRegistry
      rw [ending.tokens.2]
      exact spared
  · intro x inside
    exact (each x inside).grants

theorem signed_transfer_authorized :
    ∃ after, submit transferPlatform ⟨1700000001, .peer, transferBlock⟩ fundedChain = .ok () after ∧
      fundedChain.accounts.getBalance secondValidator ≤ after.accounts.getBalance secondValidator +
        (transferBlock.transactions.tail.map (debit transferPlatform secondValidator)).sum ∧
      (transferBlock.transactions.tail.map (debit transferPlatform secondValidator)).sum = 10500 := by
  obtain ⟨accepts, native⟩ :
      succeeds (submit transferPlatform ⟨1700000001, .peer, transferBlock⟩) fundedChain = true ∧
        ∀ x ∈ blockTrace transferPlatform ⟨1700000001, .peer, transferBlock⟩ fundedChain,
          x.tx.isEvmTx = false := by decide +kernel
  obtain ⟨_, after, accepted⟩ := succeeds_iff.mp accepts
  have one : OneOperation transferPlatform.wire := by
    refine ⟨?_, fun _ _ => ⟨rfl, rfl⟩⟩
    intro data op decoded
    cases decoded
  refine ⟨after, accepted, ?_, by decide⟩
  exact (block_authorized one accepted
    (fun x inside evm => absurd (native x inside) (by simp [evm])) (by decide)).2.1

/-- The second validator pays the fee of a transaction without key, signature or envelope,
the only one of the block that names it. -/
theorem unsigned_evm_charged :
    ∃ after, submit replayPlatform ⟨1700000001, .peer, overCapBlock⟩ fundedChain = .ok () after ∧
      (∀ tx ∈ overCapBlock.transactions, tx.fromAddress = secondValidator →
        tx.signature = "" ∧ tx.publicKey = "" ∧ ¬ tx.Signed replayPlatform.wire) ∧
      fundedChain.accounts.getBalance secondValidator = 1000000 ∧
      after.accounts.getBalance secondValidator = 990000 := by
  obtain ⟨accepts, charged⟩ :
      succeeds (submit replayPlatform ⟨1700000001, .peer, overCapBlock⟩) fundedChain = true ∧
        (finalState (submit replayPlatform ⟨1700000001, .peer, overCapBlock⟩)
          fundedChain).accounts.getBalance secondValidator = 990000 := by decide +kernel
  obtain ⟨_, after, accepted⟩ := succeeds_iff.mp accepts
  rw [finalState_ok accepted] at charged
  refine ⟨after, accepted, ?_, by decide, charged⟩
  intro tx inside named
  have only : tx = overCapTx := by
    rcases List.mem_cons.mp inside with rfl | later
    · exact absurd named (by decide)
    · exact List.mem_singleton.mp later
  subst only
  exact ⟨rfl, rfl, by simp [Transaction.Signed, replayPlatform, plainPlatform, tableWire]⟩

/-- A JSON string of printable text: quotes and backslashes are escaped. -/
def escaped (s : String) : String :=
  String.ofList (['"'] ++ (s.toList.flatMap fun c =>
    if c = '"' || c = '\\' then ['\\', c] else [c]) ++ ['"'])

end Blockchain
end SentrixCore
