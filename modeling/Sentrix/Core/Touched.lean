import Sentrix.Core.Holdings

/-!
The lists beside the accounts. Every operation that changes a balance or a nonce puts the
address on the list of touched addresses first, so an account that is not on it at the end
of a block is as it was when the list was cleared. The queue of failed EVM transactions
stays inside the set of them.
-/
namespace SentrixPrimitives
open MachineWords Effects

namespace AccountDB

/-- The queue holds every mark it lists, and each once. -/
structure FailedQueue (db : AccountDB) : Prop where
  marked : ∀ id ∈ db.failedEvmTxsOrder, id ∈ db.failedEvmTxs
  once : db.failedEvmTxsOrder.Nodup

theorem FailedQueue.markEvmTxFailed {db : AccountDB} (queue : FailedQueue db) (txid : String) :
    FailedQueue (db.markEvmTxFailed txid) := by
  by_cases known : txid ∈ db.failedEvmTxs
  · simpa [AccountDB.markEvmTxFailed, known] using queue
  · have fresh : txid ∉ db.failedEvmTxsOrder := fun listed => known (queue.marked txid listed)
    have listed : ∀ id ∈ db.failedEvmTxsOrder ++ [txid], id ∈ txid :: db.failedEvmTxs := by
      intro id inside
      rcases List.mem_append.mp inside with old | new
      · exact List.mem_cons_of_mem _ (queue.marked id old)
      · exact List.mem_singleton.mp new ▸ List.mem_cons_self
    have once : (db.failedEvmTxsOrder ++ [txid]).Nodup := by
      rw [← List.concat_eq_append]
      exact queue.once.concat fresh
    unfold AccountDB.markEvmTxFailed
    rw [if_neg (by simpa using known)]
    dsimp only
    generalize db.failedEvmTxsOrder ++ [txid] = order at listed once ⊢
    cases order with
    | nil => exact queue
    | cons oldest rest =>
      have first := List.nodup_cons.mp once
      dsimp only
      split
      · -- only the evicted id leaves the set, and the rest of the queue is without it
        refine ⟨fun id later => ?_, first.2⟩
        have other : id ≠ oldest := fun same => first.1 (same ▸ later)
        exact (List.mem_erase_of_ne other).mpr (listed id (List.mem_cons_of_mem _ later))
      · exact ⟨listed, once⟩

/-- The list grows, what changed is on it, and the queue stays sound. -/
structure Marks (db after : AccountDB) : Prop where
  grows : ∀ a ∈ db.touchedInBlock, a ∈ after.touchedInBlock
  kept : ∀ a, a ∉ after.touchedInBlock →
    after.getBalance a = db.getBalance a ∧ after.getNonce a = db.getNonce a
  queue : FailedQueue db → FailedQueue after

section
variable {x y z : AccountDB} {a : Address}

theorem Marks.refl (db : AccountDB) : Marks db db :=
  ⟨fun _ inside => inside, fun _ _ => ⟨rfl, rfl⟩, id⟩

theorem Marks.trans (first : Marks x y) (second : Marks y z) : Marks x z := by
  refine ⟨fun a inside => second.grows a (first.grows a inside), fun a absent => ?_,
    fun sound => second.queue (first.queue sound)⟩
  obtain ⟨balance, nonce⟩ := second.kept a absent
  obtain ⟨balance', nonce'⟩ := first.kept a fun inside => absent (second.grows a inside)
  exact ⟨balance.trans balance', nonce.trans nonce'⟩

theorem Marks.of_steps (steps : Relation.ReflTransGen Marks x y) : Marks x y := by
  induction steps with
  | refl => exact .refl x
  | tail _ step ih => exact ih.trans step

theorem FailedQueue.of_same (queue : FailedQueue x) (set : y.failedEvmTxs = x.failedEvmTxs)
    (order : y.failedEvmTxsOrder = x.failedEvmTxsOrder) : FailedQueue y :=
  ⟨by rw [set, order]; exact queue.marked, by rw [order]; exact queue.once⟩

theorem Marks.of_same (accounts : y.accounts = x.accounts)
    (list : y.touchedInBlock = x.touchedInBlock) (queue : FailedQueue x → FailedQueue y) :
    Marks x y := by
  refine ⟨fun a inside => list ▸ inside, fun a _ => ?_, queue⟩
  unfold getBalance getNonce
  rw [accounts]
  exact ⟨rfl, rfl⟩

theorem marks_update (db : AccountDB) {f : Account → Account} (listed : a ∈ db.touchedInBlock) :
    Marks db (db.update a f) := by
  refine ⟨fun _ inside => inside, fun c absent => ?_, fun sound => sound.of_same rfl rfl⟩
  have other : c ≠ a := fun same => absent (same ▸ listed)
  rw [getBalance_update, getNonce_update, if_neg other, if_neg other]
  exact ⟨rfl, rfl⟩

theorem mem_touch (db : AccountDB) (a c : Address) :
    c ∈ (db.touch a).touchedInBlock ↔ c = a ∨ c ∈ db.touchedInBlock :=
  List.mem_insert_iff

theorem marks_touch (db : AccountDB) (a : Address) : Marks db (db.touch a) :=
  ⟨fun c inside => (mem_touch db a c).mpr (.inr inside), fun _ _ => ⟨rfl, rfl⟩,
    fun sound => sound.of_same rfl rfl⟩

theorem marks_touch_update (db : AccountDB) (a : Address) (f : Account → Account) :
    Marks db ((db.touch a).update a f) :=
  (marks_touch db a).trans (marks_update _ ((mem_touch db a a).mpr (.inl rfl)))

theorem marks_credit (address : Address) (amount : Nat) (db : AccountDB) :
    Marks db (finalState (credit address amount) db) := by
  unfold credit
  rw [finalState_modify_bind, finalState_get_bind, finalState_fromOption_bind]
  have opened := marks_touch_update db address id
  cases checkedAdd64 (((db.touch address).update address id).getBalance address) amount with
  | none => exact opened
  | some balance =>
    have listed : address ∈ ((db.touch address).update address id).touchedInBlock :=
      (mem_touch db address address).mpr (.inl rfl)
    exact opened.trans (marks_update _ listed (f := fun a => { a with balance }))

theorem marks_chargeFeeOnly (sender : Address) (fee : Nat) (db : AccountDB) :
    Marks db (finalState (chargeFeeOnly sender fee) db) := by
  unfold chargeFeeOnly
  rw [finalState_get_bind, finalState_ensure_bind]
  split
  · rw [finalState_modify_bind]
    have paid := marks_touch_update db sender fun a => { a with balance := a.balance - fee }
    exact paid.trans (.of_same rfl rfl fun sound => sound.of_same rfl rfl)
  · exact .refl db

theorem marks_transfer (sender recipient : Address) (amount fee : Nat) (db : AccountDB) :
    Marks db (finalState (transfer sender recipient amount fee) db) := by
  unfold transfer
  rw [finalState_fromOption_bind]
  cases checkedAdd64 amount fee with
  | none => exact .refl db
  | some total =>
    rw [Option.map_some, Option.getD_some, finalState_get_bind, finalState_ensure_bind]
    split
    · rw [finalState_modify_bind, finalState_get_bind, finalState_fromOption_bind]
      generalize debited : ((db.touch sender).touch recipient).update sender
        (fun a => { a with balance := a.balance - total }) = paid
      have listed : sender ∈ ((db.touch sender).touch recipient).touchedInBlock :=
        (mem_touch _ recipient sender).mpr (.inr ((mem_touch db sender sender).mpr (.inl rfl)))
      have first : Marks db paid := by
        rw [← debited]
        exact ((marks_touch db sender).trans (marks_touch _ recipient)).trans
          (marks_update _ listed)
      cases checkedAdd64 (paid.getNonce sender) 1 with
      | none => exact first
      | some nonce =>
        have listed' : sender ∈ paid.touchedInBlock := debited ▸ listed
        have rest : Steps Marks (do credit recipient amount; modify (·.burn (burnShare fee)) :
            EStateM SentrixError AccountDB Unit) := by
          apply Steps.bind (Steps.single (marks_credit recipient amount))
          intro _
          exact Steps.modify fun db => .of_same rfl rfl fun sound => sound.of_same rfl rfl
        exact first.trans ((marks_update paid listed').trans (.of_steps (rest _)))
    · exact .refl db

theorem marks_setBalance (db : AccountDB) (a : Address) (n : Nat) : Marks db (db.setBalance a n) :=
  marks_touch_update db a _

theorem marks_setNonce (db : AccountDB) (a : Address) (n : Nat) : Marks db (db.setNonce a n) :=
  marks_touch_update db a _

theorem marks_setContract (db : AccountDB) (a : Address) (codeHash : Bytes) :
    Marks db (db.setContract a codeHash) :=
  marks_touch_update db a _

theorem marks_deployed (db : AccountDB) (codeHashHex : String) (bytecode : Bytes) (a : Address)
    (codeHash : Bytes) :
    Marks db ((db.storeContractCode codeHashHex bytecode).setContract a codeHash) := by
  have stored : Marks db (db.storeContractCode codeHashHex bytecode) :=
    .of_same rfl rfl fun sound => sound.of_same rfl rfl
  exact stored.trans (marks_setContract _ a codeHash)

theorem marks_markEvmTxFailed (db : AccountDB) (txid : String) :
    Marks db (db.markEvmTxFailed txid) := by
  have same : (db.markEvmTxFailed txid).accounts = db.accounts ∧
      (db.markEvmTxFailed txid).touchedInBlock = db.touchedInBlock := by
    unfold markEvmTxFailed
    split
    · exact ⟨rfl, rfl⟩
    · dsimp only
      split
      · split <;> exact ⟨rfl, rfl⟩
      · exact ⟨rfl, rfl⟩
  exact .of_same same.1 same.2 fun sound => sound.markEvmTxFailed txid

end
end AccountDB
end SentrixPrimitives

namespace SentrixCore
open MachineWords Effects SentrixPrimitives
open AccountDB (Marks)
open Relation (ReflTransGen)

theorem marks_foldl {α : Type} {f : AccountDB → α → AccountDB} (each : ∀ db x, Marks db (f db x))
    (l : List α) (db : AccountDB) : Marks db (l.foldl f db) := by
  induction l generalizing db with
  | nil => exact .refl db
  | cons x rest ih => exact (each db x).trans (ih (f db x))

theorem marks_writeAccount (db : AccountDB) (entry : Bytes × EvmAccount) :
    Marks db (writeAccount db entry) := by
  unfold writeAccount
  dsimp only
  split
  · exact (AccountDB.marks_setBalance _ _ _).trans (AccountDB.marks_setContract _ _ _)
  · have moved := (AccountDB.marks_setBalance db (addressToSentrix entry.1)
      (min (entry.2.info.balance / weiPerSentri) u64Max)).trans
      (AccountDB.marks_setNonce _ (addressToSentrix entry.1) entry.2.info.nonce)
    refine (moved.trans ?_).trans (marks_foldl (fun db slot => ?_) _ _)
    · unfold writeCode
      split
      · exact .refl _
      · split
        · exact .refl _
        · exact AccountDB.marks_deployed _ _ _ _ _
    · exact (AccountDB.marks_touch db _).trans (.of_same rfl rfl fun sound => sound.of_same rfl rfl)

theorem marks_storeDeployment (host : EvmHost) (txid : Hash) (receipt : TxReceipt)
    (db : AccountDB) : Marks db (storeDeployment host txid receipt db) := by
  unfold storeDeployment
  split
  · exact .refl db
  · split
    · exact .refl db
    · split
      · exact AccountDB.marks_markEvmTxFailed db txid
      · exact AccountDB.marks_deployed _ _ _ _ _

theorem marks_settleEvmCall (host : EvmHost) (txid : Hash) (db : AccountDB)
    (result : Except String (TxReceipt × EvmState)) :
    Marks db (settleEvmCall host txid db result) := by
  cases result with
  | error e => exact AccountDB.marks_markEvmTxFailed db txid
  | ok out =>
    obtain ⟨receipt, state⟩ := out
    have marked : Marks db (if receipt.success then db else db.markEvmTxFailed txid) := by
      split
      · exact .refl db
      · exact AccountDB.marks_markEvmTxFailed db txid
    have stored := marked.trans (marks_storeDeployment host txid receipt _)
    dsimp only [settleEvmCall]
    generalize (if receipt.success then db else db.markEvmTxFailed txid) = start at stored ⊢
    split
    · exact stored.trans (marks_foldl marks_writeAccount _ _)
    · exact stored

theorem marks_executeEvmTx (forks : Forks) (host : EvmHost) (chainId : Nat) (tx : Transaction)
    (height : Nat) (db : AccountDB) :
    Marks db (executeEvmTxInBlock forks host chainId tx height db) := by
  unfold executeEvmTxInBlock
  split
  · exact .refl db
  · split
    · exact AccountDB.marks_markEvmTxFailed db tx.txid
    · exact marks_settleEvmCall host tx.txid db _

namespace Blockchain

def Marked (bc after : Blockchain) : Prop :=
  Marks bc.accounts after.accounts

theorem accounting_marked : Accounting Marked where
  elsewhere {bc after} accounts _ _ := by
    unfold Marked
    rw [accounts]
    exact .refl _
  credit bc address amount := AccountDB.marks_credit address amount bc.accounts
  payout bc address amount := AccountDB.marks_transfer protocolTreasury address amount 0 bc.accounts
  burn _ _ := .of_same rfl rfl fun sound => sound.of_same rfl rfl
  rebase bc balance := AccountDB.marks_setBalance bc.accounts protocolTreasury balance

theorem Marked.of_steps {bc after : Blockchain} (steps : ReflTransGen Marked bc after) :
    Marked bc after := by
  induction steps with
  | refl => exact .refl _
  | tail _ step ih => exact ih.trans step

section
variable {env : Platform} {now : Nat} {b : Block} {tx : Transaction} {totalFee fees : Nat}
  {bc after : Blockchain} {u : Unit}

theorem marked_chargeTransaction (ran : chargeTransaction env tx totalFee bc = .ok fees after) :
    Marked bc after := by
  cases system : tx.isSystemTx env.wire with
  | true =>
    rw [chargeTransaction_system system ran]
    exact .refl _
  | false =>
    have moved := chargeTransaction_ok system ran
    unfold Marked
    rw [← finalState_ok moved]
    split
    · exact AccountDB.marks_chargeFeeOnly _ _ _
    · exact AccountDB.marks_transfer _ _ _ _ _

theorem marked_applyTransaction (ran : applyTransaction env now b tx totalFee bc = .ok fees after) :
    Marked bc after := by
  obtain ⟨paid, tokened, staked, charged, tokens, staking, rfl⟩ := applyTransaction_ok ran
  have first := marked_chargeTransaction charged
  have second : Marked paid staked := by
    unfold Marked
    rcases applyStakingOp_accounts staking with same | ⟨-, total, claimed⟩
    · rw [same, applyTokenOp_accounts tokens]
      exact .refl _
    · rw [← finalState_ok claimed, applyTokenOp_accounts tokens]
      exact AccountDB.marks_transfer _ _ _ _ _
  refine (first.trans second).trans ?_
  unfold dispatchEvm
  split
  · exact marks_executeEvmTx _ _ _ _ _ _
  · exact .refl _

/-- From the clearing of the list on, nothing changes without being listed. -/
theorem marked_applyBody (ran : applyBody env now b bc = .ok u after) :
    Marks bc.accounts.clearTouchedInBlock after.accounts := by
  unfold applyBody at ran
  obtain ⟨_, start, opening, ran⟩ := bind_ok.mp (modify_bind_ok ran)
  obtain ⟨total, finish, loop, ran⟩ := bind_ok.mp ran
  have first := Marked.of_steps ((accounting_marked.steps_applyCoinbase env b).ok opening)
  have second : Marked start finish := applyTransactions_respects (fun _ => .refl _)
    (fun first second => first.trans second)
    (fun x inside => by
      obtain ⟨_, _, ran⟩ := appliedIn_ran inside
      exact marked_applyTransaction ran) loop
  have third := Marked.of_steps
    ((accounting_marked.steps_afterTransactions now b total).ok ran)
  exact (first.trans second).trans third

end
end Blockchain
end SentrixCore
