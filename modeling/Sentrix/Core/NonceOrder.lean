import Sentrix.Lib.Consecutive
import Sentrix.Core.Mempool

/-!
The nonces in the queue. Admission asks for the account nonce plus the number of queued
transactions, and puts a transaction behind all others of its sender, so that a sender's
queue counts up from its nonce.
-/
namespace SentrixCore
open MachineWords Effects Runs SentrixPrimitives List

def OtherNoncesKept (senders : List Address) (before after : AccountDB) : Prop :=
  ∀ c, c ≠ protocolTreasury → c ∉ senders → after.getNonce c = before.getNonce c

theorem ProtocolMove.otherNonces {db after : AccountDB} (move : ProtocolMove db after) :
    OtherNoncesKept [] db after := by
  intro c other _
  cases move with
  | none => rfl
  | clear => rfl
  | burn => rfl
  | rebase => exact AccountDB.getNonce_setBalance _ _ _ _
  | credit address amount =>
    unfold finalState
    cases ran : AccountDB.credit address amount db with
    | ok => exact (AccountDB.credit_ok ran).2 c
    | error => exact (AccountDB.credit_error ran).2 c
  | payout address amount =>
    unfold finalState
    cases ran : AccountDB.transfer protocolTreasury address amount 0 db with
    | ok =>
      obtain ⟨_, _, _, nonces⟩ := AccountDB.transfer_ok ran
      simp [nonces c, other]
    | error => exact ((AccountDB.transfer_error ran).2 c).2 other

namespace Blockchain
open Consecutive (From)

theorem Sideways.otherNonces {bc after : Blockchain} (moved : Sideways bc after) :
    OtherNoncesKept [] bc.accounts after.accounts :=
  moved.accounts (fun _ _ _ _ => rfl)
    (fun first second c other out => (second c other out).trans (first c other out))
    ProtocolMove.otherNonces

theorem transaction_otherNonces {env : Platform} {now : Nat} {b : Block} {tx : Transaction}
    {totalFee fees : Nat} {bc after : Blockchain} (native : tx.isEvmTx = false)
    (ran : applyTransaction env now b tx totalFee bc = .ok fees after) :
    OtherNoncesKept [tx.fromAddress] bc.accounts after.accounts := by
  intro c other differs
  have differs : c ≠ tx.fromAddress := List.mem_singleton.not.mp differs
  obtain ⟨paid, tokened, staked, charged, tokens, staking, rfl⟩ := applyTransaction_ok ran
  rw [dispatchEvm_native native, (applyStakingOp_nonces staking).2 c other,
    applyTokenOp_accounts tokens]
  by_cases system : tx.isSystemTx env.wire = true
  · rw [chargeTransaction_system system charged]
  · have moved := chargeTransaction_ok (by simpa using system) charged
    simp only [native, Bool.false_eq_true, if_false] at moved
    obtain ⟨_, _, _, nonces⟩ := AccountDB.transfer_ok moved
    simp [nonces c, differs]

theorem loop_otherNonces {env : Platform} {now : Nat} {b : Block} {txs : List Transaction}
    (native : ∀ tx ∈ txs, tx.isEvmTx = false) {totalFee fees : Nat} {bc finish : Blockchain}
    (ran : applyTransactions env now b txs totalFee bc = .ok fees finish) :
    OtherNoncesKept (txs.map (·.fromAddress)) bc.accounts finish.accounts := by
  induction txs generalizing totalFee bc with
  | nil =>
    obtain ⟨-, rfl⟩ := pure_ok.mp ran
    exact fun _ _ _ => rfl
  | cons tx _ ih =>
    obtain ⟨_, after, one, others⟩ := bind_ok.mp ran
    intro c other out
    obtain ⟨differs, out⟩ := not_or.mp (List.mem_cons.not.mp out)
    have first := transaction_otherNonces (native tx mem_cons_self) one c other
      (List.mem_singleton.not.mpr differs)
    have later := ih (fun t inside => native t (mem_cons_of_mem _ inside)) others c other out
    exact later.trans first

theorem behind_sameSender (lib : AdmissionLib) (queue : List Transaction) (tx : Transaction) :
    ∀ t ∈ queue.drop (insertPosition lib queue tx), t.fromAddress ≠ tx.fromAddress := by
  intro t inside own
  unfold insertPosition sameSenderLast at inside
  cases found : queue.reverse.findIdx? (·.fromAddress == tx.fromAddress) with
  | none =>
    have member : t ∈ queue.reverse := List.mem_reverse.mpr (mem_of_mem_drop inside)
    have differs := List.findIdx?_eq_none_iff.mp found t member
    rw [own, beq_self_eq_true] at differs
    cases differs
  | some i =>
    rw [found] at inside
    simp only [Option.map_some] at inside
    -- what lies behind the position was passed over by the search from the back
    have later : t ∈ queue.drop (queue.length - i) :=
      drop_subset_drop_left _ (Nat.le_max_right _ _) inside
    have passed : t ∈ queue.reverse.take i := by
      rw [take_reverse]
      exact List.mem_reverse.mpr later
    obtain ⟨j, bound, rfl⟩ := List.mem_take_iff_getElem.mp passed
    obtain ⟨_, _, before⟩ := List.findIdx?_eq_some_iff_getElem.mp found
    exact before j (by omega) (beq_iff_eq.mpr own)

theorem pendingOf_enqueue (lib : AdmissionLib) (tx : Transaction) (bc : Blockchain) (a : Address) :
    (enqueue lib tx bc).pendingOf a =
      if tx.fromAddress = a then bc.pendingOf a ++ [tx] else bc.pendingOf a := by
  have whole := congrArg (List.filter (·.fromAddress == a))
    (take_append_drop (insertPosition lib bc.mempool tx) bc.mempool)
  rw [filter_append] at whole
  show (bc.mempool.take _ ++ tx :: bc.mempool.drop _).filter (·.fromAddress == a) = _
  rw [filter_append]
  by_cases own : tx.fromAddress = a
  · subst own
    have none : (bc.mempool.drop (insertPosition lib bc.mempool tx)).filter
        (·.fromAddress == tx.fromAddress) = [] := by
      apply List.filter_eq_nil_iff.mpr
      intro t inside
      simpa using behind_sameSender lib bc.mempool tx t inside
    rw [none, append_nil] at whole
    rw [if_pos rfl, filter_cons_of_pos (by simp), none, whole]
    rfl
  · rw [if_neg own, filter_cons_of_neg (by simpa using own), whole]
    rfl

def expired (now : Nat) (tx : Transaction) : Bool :=
  !decide (now ≤ satAdd64 tx.timestamp mempoolMaxAgeSecs)

def ExpiresInOrder (now : Nat) (queue : List Transaction) : Prop :=
  queue.Pairwise fun earlier later => earlier.fromAddress = later.fromAddress →
    expired now earlier = true → expired now later = true

/-- What keeps the row: nobody queues for the treasury or up to the last nonce, transactions
expire in order, and a block that is submitted has no EVM transactions and takes the txid
of a queued transaction only for that transaction. -/
def Orderly (bc : Blockchain) : MempoolEvent → Prop
  | .add _ tx => tx.fromAddress ≠ protocolTreasury ∧
      bc.accounts.getNonce tx.fromAddress + (bc.pendingOf tx.fromAddress).length ≤ u64Max
  | .prune now => ExpiresInOrder now bc.mempool
  | .evict _ => True
  | .clear => True
  | .block s => ExpiresInOrder s.now bc.mempool ∧
      (∀ tx ∈ s.block.transactions.tail, tx.isEvmTx = false) ∧
      ∀ tx ∈ bc.mempool, tx.txid ∈ s.block.transactions.map (·.txid) →
        tx ∈ s.block.transactions.tail

structure InOrder (bc : Blockchain) : Prop where
  indexed : Indexed bc
  rows : ∀ a, From (·.nonce) (bc.accounts.getNonce a) (bc.pendingOf a)
  owned : ∀ tx ∈ bc.mempool, tx.isCoinbase = false ∧ tx.fromAddress ≠ protocolTreasury

section
variable {env : Platform} {lib : AdmissionLib} {bc after : Blockchain}

theorem mem_pendingOf {a : Address} {tx : Transaction} (inside : tx ∈ bc.pendingOf a) :
    tx ∈ bc.mempool ∧ tx.fromAddress = a := by
  obtain ⟨queued, own⟩ := List.mem_filter.mp inside
  exact ⟨queued, beq_iff_eq.mp own⟩

theorem pendingOf_filter (keep : Transaction → Bool) (a : Address) :
    (bc.mempool.filter keep).filter (·.fromAddress == a) = (bc.pendingOf a).filter keep := by
  unfold pendingOf
  rw [filter_filter, filter_filter]
  congr 1
  funext tx
  exact Bool.and_comm _ _

theorem pruned_row {now : Nat} (closing : ExpiresInOrder now bc.mempool) {a : Address}
    (keep : Transaction → Bool) {n : Nat} (row : From (·.nonce) n ((bc.pendingOf a).filter keep)) :
    From (·.nonce) n (((bc.pendingOf a).filter keep).filter
      fun tx => now ≤ satAdd64 tx.timestamp mempoolMaxAgeSecs) := by
  apply row.filter_front
  have all : (bc.pendingOf a).Pairwise fun earlier later =>
      expired now earlier = true → expired now later = true := by
    have same := (closing.sublist filter_sublist :
      (bc.pendingOf a).Pairwise fun earlier later => earlier.fromAddress = later.fromAddress →
        expired now earlier = true → expired now later = true)
    apply same.imp_of_mem
    intro earlier later first second closes
    exact closes ((mem_pendingOf first).2.trans (mem_pendingOf second).2.symm)
  apply (all.sublist filter_sublist).imp
  intro earlier later closes out
  have gone : expired now earlier = true := by
    rw [expired, out]
    rfl
  simpa [expired] using closes gone

theorem InOrder.add (order : InOrder bc) {now : Nat} {tx : Transaction}
    (fits : Orderly bc (.add now tx)) : InOrder (finalState (addToMempool env lib now tx) bc) := by
  rcases addToMempool_after env lib now tx bc with same | ⟨ran, moved⟩
  · rw [same]
    exact order
  · rw [moved]
    obtain ⟨plain, fresh, valid, -⟩ := addToMempool_ok ran
    obtain ⟨other, room⟩ := fits
    have ordinary : tx.isSystemTx env.wire = false := by
      simp [Transaction.isSystemTx, other]
    have expected := (Transaction.validate_ok plain ordinary valid).1
    rw [order.indexed.counts, wrapAdd64_eq_add (by omega)] at expected
    refine ⟨order.indexed.enqueue lib fresh, ?_, ?_⟩
    · intro a
      rw [pendingOf_enqueue]
      split
      · rename_i own
        subst own
        exact (order.rows tx.fromAddress).append expected
      · exact order.rows a
    · intro t inside
      rcases List.mem_cons.mp ((perm_enqueue lib tx bc).mem_iff.mp inside) with rfl | queued
      · exact ⟨plain, other⟩
      · exact order.owned t queued

theorem InOrder.prune (order : InOrder bc) {now : Nat} (closing : ExpiresInOrder now bc.mempool) :
    InOrder (bc.pruneMempool now) := by
  refine ⟨order.indexed.retain _, ?_, fun tx inside => order.owned tx (List.mem_filter.mp inside).1⟩
  intro a
  show From _ _ ((bc.mempool.filter _).filter _)
  rw [pendingOf_filter]
  have whole : (bc.pendingOf a).filter (fun _ => true) = bc.pendingOf a := filter_true _
  have row := pruned_row closing (fun _ => true) (whole.symm ▸ order.rows a)
  rw [whole] at row
  exact row

/-- In a row nothing lies behind the sender's nonce, so there is nothing to evict. -/
theorem InOrder.evict (order : InOrder bc) (senders : List Address) :
    InOrder (bc.evictStaleNonceForSenders senders) := by
  have kept : bc.mempool.filter (fun tx => !senders.contains tx.fromAddress ||
      bc.accounts.getNonce tx.fromAddress ≤ tx.nonce) = bc.mempool := by
    apply List.filter_eq_self.mpr
    intro tx inside
    have queued : tx ∈ bc.pendingOf tx.fromAddress := List.mem_filter.mpr ⟨inside, by simp⟩
    rw [decide_eq_true ((order.rows tx.fromAddress).le queued), Bool.or_true]
  refine ⟨order.indexed.evict senders, ?_, ?_⟩
  · intro a
    unfold evictStaleNonceForSenders
    split
    · exact order.rows a
    · show From _ _ ((bc.mempool.filter _).filter _)
      rw [kept]
      exact order.rows a
  · unfold evictStaleNonceForSenders
    split
    · exact order.owned
    · exact fun tx inside => order.owned tx (List.mem_filter.mp inside).1

/-- The queue of a sender after the housekeeping of a block: what is neither mined nor
stale nor expired. -/
theorem pendingOf_dropMined (now : Nat) (b : Block) (settled : Blockchain) (a : Address) :
    (dropMined now b settled).pendingOf a = (((settled.pendingOf a).filter fun tx =>
        !(b.transactions.map (·.txid)).contains tx.txid).filter fun tx =>
        !(b.transactions.map (·.fromAddress)).contains tx.fromAddress ||
          settled.accounts.getNonce tx.fromAddress ≤ tx.nonce).filter
      fun tx => now ≤ satAdd64 tx.timestamp mempoolMaxAgeSecs := by
  have pruned (bc : Blockchain) : (bc.pruneMempool now).pendingOf a =
      (bc.pendingOf a).filter fun tx => now ≤ satAdd64 tx.timestamp mempoolMaxAgeSecs :=
    pendingOf_filter _ a
  have evicted (bc : Blockchain) (senders : List Address) :
      (bc.evictStaleNonceForSenders senders).pendingOf a = (bc.pendingOf a).filter fun tx =>
        !senders.contains tx.fromAddress || bc.accounts.getNonce tx.fromAddress ≤ tx.nonce := by
    unfold evictStaleNonceForSenders
    split
    · rename_i none
      rw [List.isEmpty_iff.mp none]
      exact (List.filter_eq_self.mpr fun _ _ => rfl).symm
    · exact pendingOf_filter _ a
  unfold dropMined
  rw [pruned, evicted]
  exact congrArg _ (congrArg _ (pendingOf_filter _ a))

/-- An accepted block without EVM transactions: nonces rise, only those of its senders and the
treasury's change, and each transaction it holds is used up. -/
theorem native_block_nonces (trusted : TrustedLibraries env) {s : Submission}
    (native : ∀ tx ∈ s.block.transactions.tail, tx.isEvmTx = false)
    (accepted : submit env s bc = .ok () after) :
    (∀ a, bc.accounts.getNonce a ≤ after.accounts.getNonce a) ∧
      ∀ tx ∈ s.block.transactions.tail, isOrdinary env tx = true →
        tx.nonce < after.accounts.getNonce tx.fromAddress := by
  have commits : ∀ x ∈ blockTrace env s bc, x.tx.isEvmTx = true → evmCommits env s.block x = true := by
    intro x inside evm
    have listed : x.tx ∈ s.block.transactions.tail := by
      rw [← blockTrace_transactions accepted]
      exact mem_map_of_mem inside
    rw [native x.tx listed] at evm
    cases evm
  obtain ⟨rise, -, placed, -⟩ := block_nonces trusted accepted commits
  exact ⟨rise, fun tx inside ordinary => (placed tx inside ordinary).2⟩

theorem accounts_dropMined (now : Nat) (b : Block) (settled : Blockchain) :
    (dropMined now b settled).accounts = settled.accounts := by
  unfold dropMined pruneMempool evictStaleNonceForSenders
  split <;> rfl

theorem mempool_evict (bc : Blockchain) (senders : List Address) :
    (bc.evictStaleNonceForSenders senders).mempool.Sublist bc.mempool := by
  unfold evictStaleNonceForSenders
  split
  · exact List.Sublist.refl _
  · exact filter_sublist

theorem mempool_dropMined (now : Nat) (b : Block) (settled : Blockchain) :
    (dropMined now b settled).mempool.Sublist settled.mempool :=
  List.Sublist.trans filter_sublist
    (List.Sublist.trans (mempool_evict _ _) filter_sublist)

theorem remains_iff {block : Block} {tx : Transaction} {old new : Nat}
    (listed : tx.txid ∈ block.transactions.map (·.txid) → tx ∈ block.transactions.tail)
    (used : tx ∈ block.transactions.tail → tx.nonce < new)
    (untouched : tx.fromAddress ∉ block.transactions.map (·.fromAddress) → new = old)
    (queued : old ≤ tx.nonce) :
    ((!(block.transactions.map (·.fromAddress)).contains tx.fromAddress ||
        decide (new ≤ tx.nonce)) &&
      !(block.transactions.map (·.txid)).contains tx.txid) = decide (new ≤ tx.nonce) := by
  by_cases mined : tx.txid ∈ block.transactions.map (·.txid)
  · have inTail := listed mined
    have gone := used inTail
    have inside : (block.transactions.map (·.txid)).contains tx.txid = true :=
      List.contains_iff_mem.mpr mined
    rw [inside, Bool.not_true, Bool.and_false]
    exact (decide_eq_false (by omega)).symm
  · have outside : (block.transactions.map (·.txid)).contains tx.txid = false := by
      simpa using mined
    rw [outside, Bool.not_false, Bool.and_true]
    by_cases sender : tx.fromAddress ∈ block.transactions.map (·.fromAddress)
    · have inside : (block.transactions.map (·.fromAddress)).contains tx.fromAddress = true :=
        List.contains_iff_mem.mpr sender
      rw [inside, Bool.not_true, Bool.false_or]
    · have still : new ≤ tx.nonce := (untouched sender).symm ▸ queued
      rw [decide_eq_true still, Bool.or_true]

theorem InOrder.accepted (trusted : TrustedLibraries env) (order : InOrder bc) {s : Submission}
    (fits : Orderly bc (.block s)) (ran : submit env s bc = .ok () after) : InOrder after := by
  obtain ⟨closing, native, listed⟩ := fits
  obtain ⟨rise, used⟩ := native_block_nonces trusted native ran
  obtain ⟨verified, applied, -, -, pass2, rfl⟩ := addBlockWithSource_ok ran
  obtain ⟨fees, finish, settled, loop, toSettled, before, toEnd, kept⟩ := pass2_pool pass2
  have queue : settled.mempool = bc.mempool := congrArg Prod.fst before
  have ended : applied.mempool = (dropMined s.now s.block settled).mempool := congrArg Prod.fst kept
  have opening := (sideways_opened env s.block (bc.entering s.source verified)).otherNonces
  have looped := loop_otherNonces native loop
  -- the housekeeping already sees the nonces of the end
  have final : ∀ a, a ≠ protocolTreasury →
      settled.accounts.getNonce a = applied.accounts.getNonce a := by
    intro a other
    have later := toEnd.otherNonces a other not_mem_nil
    rw [accounts_dropMined] at later
    exact later.symm
  have untouched : ∀ a, a ≠ protocolTreasury → a ∉ s.block.transactions.map (·.fromAddress) →
      applied.accounts.getNonce a = bc.accounts.getNonce a := by
    intro a other out
    have inTail : a ∉ s.block.transactions.tail.map (·.fromAddress) :=
      fun inside => out (map_subset _ (tail_subset _) inside)
    rw [← final a other, toSettled.otherNonces a other not_mem_nil, looped a other inTail,
      opening a other not_mem_nil]
    rfl
  refine ⟨?_, ?_, ?_⟩
  · exact ((order.indexed.of_pool before).dropMined s.now s.block).of_pool kept
  · intro a
    show From _ (applied.accounts.getNonce a) (applied.mempool.filter (·.fromAddress == a))
    rw [ended]
    show From _ _ ((dropMined s.now s.block settled).pendingOf a)
    have same : settled.pendingOf a = bc.pendingOf a := by
      unfold pendingOf
      rw [queue]
    rw [pendingOf_dropMined, same]
    have left : ((bc.pendingOf a).filter fun tx =>
          !(s.block.transactions.map (·.txid)).contains tx.txid).filter (fun tx =>
            !(s.block.transactions.map (·.fromAddress)).contains tx.fromAddress ||
              settled.accounts.getNonce tx.fromAddress ≤ tx.nonce) =
        (bc.pendingOf a).filter fun tx => applied.accounts.getNonce a ≤ tx.nonce := by
      rw [filter_filter]
      apply filter_congr
      intro tx inside
      obtain ⟨queued, rfl⟩ := mem_pendingOf inside
      obtain ⟨plain, other⟩ := order.owned tx queued
      have ordinary : isOrdinary env tx = true := by
        simp [isOrdinary, plain, Transaction.isSystemTx, other]
      rw [final _ other]
      exact remains_iff (listed tx queued) (fun mined => used tx mined ordinary)
        (untouched _ other) ((order.rows tx.fromAddress).le inside)
    rw [left]
    exact pruned_row closing _ ((order.rows a).filter_ge (rise a))
  · intro tx inside
    have inside : tx ∈ applied.mempool := inside
    rw [ended] at inside
    exact order.owned tx (queue ▸ (mempool_dropMined s.now s.block settled).subset inside)

theorem InOrder.event (trusted : TrustedLibraries env) (order : InOrder bc) (event : MempoolEvent)
    (fits : Orderly bc event) : InOrder (event.after env lib bc) := by
  cases event with
  | add => exact order.add fits
  | prune => exact order.prune fits
  | evict senders => exact order.evict senders
  | clear =>
    exact ⟨⟨fun _ => Iff.rfl, nodup_nil, fun _ => rfl⟩, fun _ => trivial,
      fun _ inside => (nomatch inside)⟩
  | block s =>
    show InOrder (finalState (submit env s) bc)
    cases ran : submit env s bc with
    | ok =>
      rw [finalState_ok ran]
      exact order.accepted trusted fits ran
    | error =>
      rw [finalState_error ran]
      obtain ⟨indexed, queue, accounts⟩ := rejected_pool order.indexed ran
      refine ⟨indexed, ?_, queue ▸ order.owned⟩
      intro a
      unfold pendingOf
      rw [queue, accounts]
      exact order.rows a

end

/-- In every run of the pool from the empty one whose steps are orderly, each sender's queued
transactions, in queue order, have the nonces from its account's on. -/
theorem queued_nonces_consecutive {env : Platform} {lib : AdmissionLib} {start bc : Blockchain}
    (trusted : TrustedLibraries env) (empty : start.pool = ([], [], ∅))
    (run : Run (mempoolSystem env lib start) Orderly bc) (a : Address) :
    From (·.nonce) (bc.accounts.getNonce a) (bc.pendingOf a) := by
  have order : InOrder bc := by
    apply run.invariant InOrder
    · have queue : start.mempool = [] := congrArg Prod.fst empty
      have none : Indexed start.clearMempool := ⟨fun _ => Iff.rfl, nodup_nil, fun _ => rfl⟩
      refine ⟨none.of_pool empty, ?_, ?_⟩
      · intro a
        show From _ _ (start.mempool.filter _)
        rw [queue]
        trivial
      · intro tx inside
        rw [show (mempoolSystem env lib start).init.mempool = [] from queue] at inside
        cases inside
    · intro before event order _ fits
      exact order.event trusted event fits
  exact order.rows a

def nextTransfer : Transaction :=
  { signedTransfer with
    txid := "f8182fc9c6b7c6cb2bbabea72469c8c17f6f0e4371ee84450f57a8ad4af80749"
    nonce := 1
    timestamp := 1700000101
    signature := "2fe9b78fd3abb0a4cd63c0329d6fe74c5bdc1d1b37830e5b629a7fbf50e5130e37932075c93d10fe" ++
      "dedd453e61de84c6cd32787562e1394ae80fe799ba0f80dc" }

def pairPlatform : Platform :=
  let bare := tableWire (blockDigests transferBlock)
  plainPlatform (signingWire (blockDigests transferBlock) secondKey secondValidator
    [(signedTransfer.signature, signedTransfer.signingPayload bare),
      (nextTransfer.signature, nextTransfer.signingPayload bare)])

theorem trusted_pairPlatform : TrustedLibraries pairPlatform :=
  trusted_signing _ _

instance (bc : Blockchain) : ∀ event, Decidable (Orderly bc event)
  | .add _ _ => inferInstanceAs (Decidable (_ ∧ _))
  | .prune _ => inferInstanceAs (Decidable (List.Pairwise _ _))
  | .evict _ => inferInstanceAs (Decidable True)
  | .clear => inferInstanceAs (Decidable True)
  | .block s =>
    have : Decidable (ExpiresInOrder s.now bc.mempool) :=
      inferInstanceAs (Decidable (List.Pairwise _ _))
    inferInstanceAs (Decidable (_ ∧ _ ∧ _))

instance (env : Platform) (lib : AdmissionLib) (start bc : Blockchain) (event : MempoolEvent) :
    Decidable ((mempoolSystem env lib start).enabled bc event) :=
  inferInstanceAs (Decidable True)

/-- Both are queued, the first is mined, and the second is the next one. -/
theorem mined_transfer_leaves_next :
    let events := [MempoolEvent.add 1700000101 signedTransfer, .add 1700000101 nextTransfer,
      .block ⟨1700000101, .peer, transferBlock⟩]
    let sys := mempoolSystem pairPlatform plainLib fundedChain
    let reached := sys.replay fundedChain events
    reached.mempool = [nextTransfer] ∧ reached.accounts.getNonce secondValidator = 1 ∧
      From (·.nonce) (reached.accounts.getNonce secondValidator)
        (reached.pendingOf secondValidator) := by
  intro events sys reached
  obtain ⟨legal, queue, nonce⟩ : sys.Legal Orderly fundedChain events ∧
      reached.mempool = [nextTransfer] ∧ reached.accounts.getNonce secondValidator = 1 := by
    decide +kernel
  have run : Run sys Orderly reached := Run.start.replay events legal
  have empty : fundedChain.pool = ([], [], ∅) := rfl
  clear_value reached
  exact ⟨queue, nonce, queued_nonces_consecutive trusted_pairPlatform empty run secondValidator⟩

/-- Both are queued; an hour after the first was made it is pruned and the second stays, with a
nonce the account has not reached. -/
theorem pruned_transfer_leaves_gap :
    let events := [MempoolEvent.add 1700000101 signedTransfer, .add 1700000101 nextTransfer,
      .prune 1700003602]
    let sys := mempoolSystem pairPlatform plainLib fundedChain
    let reached := sys.replay fundedChain events
    reached.pendingOf secondValidator = [nextTransfer] ∧ nextTransfer.nonce = 1 ∧
      reached.accounts.getNonce secondValidator = 0 ∧
      ¬ From (·.nonce) (reached.accounts.getNonce secondValidator)
        (reached.pendingOf secondValidator) := by
  decide +kernel

end Blockchain
end SentrixCore
