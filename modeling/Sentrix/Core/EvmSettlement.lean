import Sentrix.Core.Replay
import Sentrix.Core.Touched

/-!
What a block keeps of an EVM call.
-/
namespace SentrixCore
open HashTable Effects SentrixPrimitives Runs List

def evmRun (forks : Forks) (host : EvmHost) (chainId : Nat) (tx : Transaction) (height : Nat)
    (db : AccountDB) : Option (TxReceipt × EvmState) := do
  let fields ← evmFields tx.data
  let call ← decodeEvmTx forks host db tx height fields
  (executeTxWithStateGated host (evmView host db call) call chainId
    (reached forks.evmGasFix height)).toOption

def TxReceipt.withinCodeCap (receipt : TxReceipt) : Bool :=
  receipt.contractAddress.isNone || decide (receipt.output.length ≤ eip170MaxCodeSize)

def ledgerOf (db : AccountDB) : AccountDB :=
  { db with failedEvmTxs := [], failedEvmTxsOrder := [] }

/-- The whole diff after a success within the cap, and otherwise nothing. -/
def EvmSettled (host : EvmHost) (txid : Hash) (db after : AccountDB) :
    Option (TxReceipt × EvmState) → Prop
  | some (receipt, state) =>
    if receipt.success && receipt.withinCodeCap then
      after = commitStateToAccountDb state (storeDeployment host txid receipt db)
    else ledgerOf after = ledgerOf db
  | none => ledgerOf after = ledgerOf db

theorem ledgerOf_markEvmTxFailed (db : AccountDB) (txid : Hash) :
    ledgerOf (db.markEvmTxFailed txid) = ledgerOf db := by
  unfold AccountDB.markEvmTxFailed
  dsimp only
  split
  · rfl
  · split
    · split <;> rfl
    · rfl

variable {host : EvmHost} {txid : Hash} {receipt : TxReceipt} {db : AccountDB}

theorem isEvmTxFailed_storeDeployment (within : receipt.withinCodeCap = true) :
    (storeDeployment host txid receipt db).isEvmTxFailed txid = db.isEvmTxFailed txid := by
  unfold storeDeployment
  unfold TxReceipt.withinCodeCap at within
  cases created : receipt.contractAddress with
  | none => rfl
  | some =>
    simp only [created, Option.isNone_some, Bool.false_or, decide_eq_true_eq] at within
    dsimp only
    split
    · rfl
    · rw [if_neg (Nat.not_lt.mpr within)]
      rfl

theorem storeDeployment_oversized (oversized : receipt.withinCodeCap = false) :
    storeDeployment host txid receipt db = db.markEvmTxFailed txid := by
  unfold TxReceipt.withinCodeCap at oversized
  unfold storeDeployment
  cases created : receipt.contractAddress with
  | none => simp [created] at oversized
  | some =>
    simp only [created, Option.isNone_some, Bool.false_or, decide_eq_false_iff_not, Nat.not_le]
      at oversized
    have full : receipt.output.isEmpty = false := by
      cases output : receipt.output <;> simp [output] at oversized ⊢
    simp [full, oversized]

theorem reverted_creates_nothing {view : SentrixEvmDb} {call : TxEnv} {chainId : Nat}
    {gasFix : Bool} {state : EvmState}
    (ran : executeTxWithStateGated host view call chainId gasFix = .ok (receipt, state))
    (reverted : receipt.success = false) : receipt.contractAddress = none := by
  unfold executeTxWithStateGated at ran
  split at ran
  · cases ran
  · split at ran <;> cases ran
    · cases reverted
    · rfl

theorem isEvmTxFailed_mark (queue : db.FailedQueue) :
    (db.markEvmTxFailed txid).isEvmTxFailed txid = true := by
  unfold AccountDB.markEvmTxFailed AccountDB.isEvmTxFailed
  by_cases marked : txid ∈ db.failedEvmTxs
  · simp [marked]
  · have fresh : ∀ oldest ∈ db.failedEvmTxsOrder, txid ≠ oldest :=
      fun oldest queued same => marked (same ▸ queue.marked oldest queued)
    cases order : db.failedEvmTxsOrder with
    | nil => simp [marked, maxFailedEvmTxs]
    | cons oldest rest =>
      have other : txid ≠ oldest := fresh oldest (order ▸ mem_cons_self)
      simp only [contains_eq_mem, marked, decide_false, Bool.false_eq_true, if_false,
        cons_append]
      split
      · simp [mem_erase_of_ne other]
      · simp

/-- A run settles as it should unless it succeeds under an id that is still marked as failed. -/
theorem executeEvmTxInBlock_settled {forks : Forks} {chainId height : Nat} {tx : Transaction}
    (queue : db.FailedQueue)
    (unmarked : ∀ receipt state, evmRun forks host chainId tx height db = some (receipt, state) →
      receipt.success = true → receipt.withinCodeCap = true → db.isEvmTxFailed tx.txid = false) :
    EvmSettled host tx.txid db (executeEvmTxInBlock forks host chainId tx height db)
      (evmRun forks host chainId tx height db) := by
  revert unmarked
  unfold executeEvmTxInBlock evmRun
  cases evmFields tx.data with
  | none => simp [EvmSettled]
  | some fields =>
    dsimp only [Option.bind_eq_bind, Option.bind_some]
    cases decodeEvmTx forks host db tx height fields with
    | none => simp [EvmSettled, ledgerOf_markEvmTxFailed]
    | some call =>
      dsimp only [Option.bind_some]
      cases ran : executeTxWithStateGated host (evmView host db call) call chainId
        (reached forks.evmGasFix height) with
      | error => simp [EvmSettled, settleEvmCall, ledgerOf_markEvmTxFailed, Except.toOption]
      | ok outcome =>
        obtain ⟨receipt, state⟩ := outcome
        intro unmarked
        simp only [Except.toOption, EvmSettled, settleEvmCall]
        by_cases success : receipt.success = true
        · by_cases within : receipt.withinCodeCap = true
          · -- the only mark that can stand in the way is an old one
            have free := unmarked receipt state rfl success within
            simp [success, within, isEvmTxFailed_storeDeployment within, free]
          · simp [success, within, storeDeployment_oversized (Bool.eq_false_iff.mpr within),
              isEvmTxFailed_mark queue, ledgerOf_markEvmTxFailed]
        · have created := reverted_creates_nothing ran (Bool.eq_false_iff.mpr success)
          simp [success, storeDeployment, created, ledgerOf_markEvmTxFailed]

theorem ProtocolMove.queue {db after : AccountDB} (move : ProtocolMove db after) :
    db.FailedQueue → after.FailedQueue := by
  cases move with
  | none => exact id
  | clear => exact fun sound => sound.of_same rfl rfl
  | burn => exact fun sound => sound.of_same rfl rfl
  | rebase => exact (AccountDB.marks_setBalance _ _ _).queue
  | credit => exact (AccountDB.marks_credit _ _ _).queue
  | payout => exact (AccountDB.marks_transfer _ _ _ _ _).queue

namespace Blockchain

theorem Sideways.queue {bc after : Blockchain} (moved : Sideways bc after) :
    bc.accounts.FailedQueue → after.accounts.FailedQueue :=
  moved.accounts (R := fun x y => x.FailedQueue → y.FailedQueue) (fun _ => id)
    (fun first second sound => second (first sound)) ProtocolMove.queue

/-- The accounts the call of an EVM transaction runs on. -/
def Applied.charged (x : Applied) : AccountDB :=
  finalState (AccountDB.chargeFeeOnly x.tx.fromAddress x.tx.fee) x.before.accounts

def Applied.evmRun (env : Platform) (x : Applied) : Option (TxReceipt × EvmState) :=
  if x.before.voyagerModeFor env.forks x.before.height then
    SentrixCore.evmRun env.forks env.evm x.before.chainId x.tx x.before.expectedIndex x.charged
  else none

/-- A call that succeeds within the cap is not under an id that failed before. -/
def Applied.Unmarked (env : Platform) (x : Applied) : Prop :=
  ∀ receipt state, x.evmRun env = some (receipt, state) → receipt.success = true →
    receipt.withinCodeCap = true → x.charged.isEvmTxFailed x.tx.txid = false

section
variable {env : Platform} {now : Nat} {b : Block} {totalFee : Nat} {bc after : Blockchain}
  {txs : List Transaction} {u : Unit} {s : Submission} {x : Applied}

/-- Inside the loop the chain is still the one the block is checked against. -/
theorem appliedIn_before (queue : bc.accounts.FailedQueue)
    (inside : x ∈ appliedIn env now b txs totalFee bc) :
    x.before.accounts.FailedQueue ∧ x.before.chain = bc.chain := by
  induction txs generalizing totalFee bc with
  | nil => cases inside
  | cons tx rest ih =>
    unfold appliedIn at inside
    split at inside
    · cases inside
    · rename_i fees after ran
      rcases List.mem_cons.mp inside with rfl | later
      · exact ⟨queue, rfl⟩
      · have frame : outer after = outer bc :=
          (Steps.keeps (outer_skips.transactions.steps_applyTransaction env now b tx _)).ok ran
        obtain ⟨sound, chain⟩ := ih ((marked_applyTransaction ran).queue queue) later
        exact ⟨sound, chain.trans (congrArg Outer.chain frame)⟩

theorem block_queue (accepted : submit env s bc = .ok u after) (queue : bc.accounts.FailedQueue) :
    after.accounts.FailedQueue ∧ ∀ x ∈ blockTrace env s bc,
      x.before.accounts.FailedQueue ∧ s.block.index = x.before.expectedIndex := by
  obtain ⟨verified, applied, header, _, pass2, rfl⟩ := addBlockWithSource_ok accepted
  obtain ⟨fees, finish, loop, ending⟩ := applyBlockPass2_ok env s.now s.block pass2
  obtain ⟨_, _, structured, _⟩ := checkHeader_ok header
  have start : (opened env s.block (bc.entering s.source verified)).accounts.FailedQueue :=
    (sideways_opened env s.block (bc.entering s.source verified)).queue queue
  have frame : outer (opened env s.block (bc.entering s.source verified)) =
      outer (bc.entering s.source verified) :=
    Steps.keeps (outer_skips.protocol.steps_applyCoinbase env s.block fun _ _ => rfl) _
  have reached : finish.accounts.FailedQueue :=
    applyTransactions_respects (R := fun x y => x.accounts.FailedQueue → y.accounts.FailedQueue)
      (fun _ => id) (fun first second sound => second (first sound))
      (fun x inside => by
        obtain ⟨_, _, ran⟩ := appliedIn_ran inside
        exact (marked_applyTransaction ran).queue) loop start
  refine ⟨ending.queue reached, fun x inside => ?_⟩
  simp only [blockTrace, header] at inside
  obtain ⟨sound, chain⟩ := appliedIn_before start inside
  refine ⟨sound, structured.index_eq.trans ?_⟩
  have same : x.before.chain = bc.chain := chain.trans (congrArg Outer.chain frame)
  simp only [expectedIndex, Blockchain.height, same]
  rfl

theorem transaction_settled {fees : Nat} (evm : x.tx.isEvmTx = true)
    (json : env.wire.tokenOp x.tx.data = none ∧ env.wire.stakingOp x.tx.data = none)
    (queue : x.before.accounts.FailedQueue) (index : b.index = x.before.expectedIndex)
    (ran : applyTransaction env now b x.tx totalFee x.before = .ok fees x.after)
    (unmarked : x.Unmarked env) :
    EvmSettled env.evm x.tx.txid x.charged x.after.accounts (x.evmRun env) := by
  obtain ⟨paid, moved, result, -⟩ := applyTransaction_evm evm json ran
  have charged : x.charged = paid.accounts := finalState_ok moved
  have sound : x.charged.FailedQueue := (AccountDB.marks_chargeFeeOnly _ _ _).queue queue
  unfold Applied.Unmarked Applied.evmRun at unmarked
  unfold Applied.evmRun
  rw [result]
  split
  · rename_i voyager
    rw [if_pos voyager] at unmarked
    rw [index, ← charged]
    exact executeEvmTxInBlock_settled sound unmarked
  · rw [charged]
    rfl

end

structure EvmBooked (env : Platform) (h : History) : Prop where
  queue : h.chain.accounts.FailedQueue
  settled : ∀ x ∈ h.included, x.tx.isEvmTx = true → x.Unmarked env →
    EvmSettled env.evm x.tx.txid x.charged x.after.accounts (x.evmRun env)

theorem EvmBooked.step {env : Platform} {start : Blockchain} {h : History} {s : Submission}
    (json : ∀ tx : Transaction, tx.isEvmTx = true →
      env.wire.tokenOp tx.data = none ∧ env.wire.stakingOp tx.data = none)
    (booked : EvmBooked env h) (enabled : (chainSystem env start).enabled h s) :
    EvmBooked env ((chainSystem env start).step h s) := by
  obtain ⟨u, after, accepted⟩ := succeeds_iff.mp enabled
  obtain ⟨queue, entries⟩ := block_queue accepted booked.queue
  have final : finalState (submit env s) h.chain = after := finalState_ok accepted
  constructor
  · show (finalState (submit env s) h.chain).accounts.FailedQueue
    rw [final]
    exact queue
  · intro x inside evm unmarked
    rcases List.mem_append.mp inside with old | new
    · exact booked.settled x old evm unmarked
    · obtain ⟨sound, index⟩ := entries x new
      obtain ⟨_, _, ran⟩ := blockTrace_ran new
      exact transaction_settled evm (json x.tx evm) sound index ran unmarked

/-- In every run of accepted blocks each EVM transaction leaves the whole diff of its call or
nothing but its fee, unless the call succeeds under an id that is still marked as failed. -/
theorem included_evm_settled {env : Platform} {start : Blockchain} {h : History}
    (json : ∀ tx : Transaction, tx.isEvmTx = true →
      env.wire.tokenOp tx.data = none ∧ env.wire.stakingOp tx.data = none)
    (queue : start.accounts.FailedQueue)
    (run : Run (chainSystem env start) (fun _ _ => True) h) :
    ∀ x ∈ h.included, x.tx.isEvmTx = true → x.Unmarked env →
      EvmSettled env.evm x.tx.txid x.charged x.after.accounts (x.evmRun env) := by
  have booked : EvmBooked env h := by
    apply run.invariant (EvmBooked env)
    · exact ⟨queue, fun x inside => absurd inside not_mem_nil⟩
    · intro h s booked enabled _
      exact booked.step json enabled
  exact booked.settled

def lateTransfer : Transaction :=
  { overCapTx with
    txid := "a59bf9293204bc64ee9f1f0557fbcfe8297fd4d53140d73f170433e4449af94a"
    fromAddress := firstValidator
    toAddress := secondValidator
    data := "EVM:21000:"
    signature :=
      "f86b80822710825208942b5ad5c4795c026514f8317c7a215e218dccd6cf8814d1120d7b160000808237" ++
      "c1a09ae9caa681e485a9811033223da552d9fc973f7a7b65b4b34163f01508e94a02a053fe7e696a1a6f" ++
      "add9e1bd3bfadb261f901efa06ecc72c5410ffdb3e5cf80987" }

def transferHost : EvmHost where
  transact _ _ view call :=
    let held := fun a => (view.accounts.lookup a).getD ⟨0, 0, emptyCodeHash⟩
    let target := call.target.getD []
    if (held call.caller).balance < call.gasLimit * call.gasPrice + call.value then
      .error "lack of funds"
    else
      let payer := held call.caller
      let spent := 21000 * call.gasPrice + call.value
      .ok (.success [] none,
        [(call.caller, ⟨true, false,
            { payer with balance := payer.balance - spent, nonce := payer.nonce + 1 }, none, []⟩),
         (target, ⟨true, false,
            { held target with balance := (held target).balance + call.value }, none, []⟩)])
  envelopeValue raw :=
    if raw = (hexDecode lateTransfer.signature).getD [] then some 1500000000000000000 else none
  keccak := id
  parseSlot _ := none
  order := .stored
  storageOrder := .stored

def transferForks : Forks :=
  { Forks.off with evmValueTransfer := 0 }

def poorAccounts : AccountDB :=
  AccountDB.new.setBalance firstValidator 1000000

def richAccounts : AccountDB :=
  AccountDB.new.setBalance firstValidator 200000000

/-- The transfer lacks funds at height 1. At height 2 the sender has them and revm carries
it out, but nothing of it is written. -/
theorem marked_success_dropped :
    let run := executeEvmTxInBlock transferForks transferHost 7119 lateTransfer
    let later := (run 1 poorAccounts).setBalance firstValidator 200000000
    (evmRun transferForks transferHost 7119 lateTransfer 2 later).map (·.1.success) = some true ∧
      (run 2 later).getBalance secondValidator = 0 ∧
      (run 2 richAccounts).getBalance secondValidator = 150000000 := by
  decide +kernel

def settledBlock : Block :=
  sampleBlock 1 genesisBlock.hash [firstCoinbase, lateTransfer] 1700000001
    "bbc9dd70ba565bfbda97fa7351ba2b7b1e0f8fec6e26b9015d790441174a07b5"
    "3aafa990964a0ae4879de326a50a0af3a01b5cc9efebe4cd4787c8c735105102"

def settledPlatform : Platform :=
  { plainPlatform (tableWire (blockDigests settledBlock)) with
    evm := transferHost
    forks := transferForks }

def richChain : Blockchain :=
  { fundedChain with accounts := richAccounts }

/-- Under no mark the call moves the money. -/
theorem unmarked_success_written :
    ∃ h : History, (∀ x ∈ h.included, EvmSettled transferHost x.tx.txid x.charged x.after.accounts
        (x.evmRun settledPlatform)) ∧
      h.included.map (fun x => (x.tx, (x.evmRun settledPlatform).map (·.1.success),
        x.after.accounts.getBalance secondValidator)) = [(lateTransfer, some true, 150000000)] := by
  obtain ⟨accepts, listed, unmarked⟩ :
      succeeds (submit settledPlatform ⟨1700000001, .peer, settledBlock⟩) richChain = true ∧
        (blockTrace settledPlatform ⟨1700000001, .peer, settledBlock⟩ richChain).map (fun x =>
          (x.tx, (x.evmRun settledPlatform).map (·.1.success),
            x.after.accounts.getBalance secondValidator)) = [(lateTransfer, some true, 150000000)] ∧
        ∀ x ∈ blockTrace settledPlatform ⟨1700000001, .peer, settledBlock⟩ richChain,
          x.tx.isEvmTx = true ∧ x.charged.isEvmTxFailed x.tx.txid = false := by decide +kernel
  have queue : richChain.accounts.FailedQueue := ⟨nofun, nodup_nil⟩
  have run : Run (chainSystem settledPlatform richChain) (fun _ _ => True)
      ((chainSystem settledPlatform richChain).step ⟨richChain, []⟩
        ⟨1700000001, .peer, settledBlock⟩) :=
    Run.next Run.start accepts trivial
  have settled := included_evm_settled (fun _ _ => ⟨rfl, rfl⟩) queue run
  simp only [chainSystem, nil_append] at settled
  refine ⟨⟨richChain, blockTrace settledPlatform ⟨1700000001, .peer, settledBlock⟩ richChain⟩,
    ?_, ?_⟩
  · dsimp only
    intro x inside
    obtain ⟨evm, free⟩ := unmarked x inside
    exact settled x inside evm fun _ _ _ _ _ => free
  · dsimp only
    exact listed

end Blockchain
end SentrixCore
