import Sentrix.Lib.CleanFailure
import Sentrix.Core.Atomicity
import Sentrix.Core.Replay
import Sentrix.Core.TwinRuns

/-!
The mempool: a queue of pending transactions with two indexes beside it, the set
of its txids and a count for each sender. Admission extends the indexes by one
entry, everything else rebuilds them from the queue.
-/
namespace SentrixCore
open MachineWords HashTable Effects Runs SentrixPrimitives List

def maxMempoolSize : Nat := 10000
def maxMempoolPerSender : Nat := 100
def maxTxSize : Nat := 128 * 1024

/-- Library calls of the admission: the bincode size of a transaction, and the binary
search of the queue, whose result is anything when the queue is not partitioned. -/
structure AdmissionLib where
  serializedSize : Transaction → Option Nat
  partitionPoint : (Transaction → Bool) → List Transaction → Nat

namespace Blockchain

def mempoolPendingCount (bc : Blockchain) (address : Address) : Nat :=
  (bc.mempoolSenderCount.lookup address).getD 0

def mempoolPendingSpend (bc : Blockchain) (address : Address) : Nat :=
  ((bc.mempool.filter (·.fromAddress == address)).map fun tx => satAdd64 tx.amount tx.fee).foldl
    satAdd64 0

def sameSenderLast (queue : List Transaction) (sender : Address) : Option Nat :=
  (queue.reverse.findIdx? (·.fromAddress == sender)).map fun i => queue.length - i

/-- By fee, highest first, but never before a transaction of the same sender. -/
def insertPosition (lib : AdmissionLib) (queue : List Transaction) (tx : Transaction) : Nat :=
  let feePos := lib.partitionPoint (fun existing => tx.fee ≤ existing.fee) queue
  match sameSenderLast queue tx.fromAddress with
  | some minPos => max feePos minPos
  | none => feePos

def enqueue (lib : AdmissionLib) (tx : Transaction) (bc : Blockchain) : Blockchain :=
  let pos := insertPosition lib bc.mempool tx
  { bc with
    mempool := bc.mempool.take pos ++ tx :: bc.mempool.drop pos
    mempoolTxids := tx.txid :: bc.mempoolTxids
    mempoolSenderCount := bc.mempoolSenderCount.insert tx.fromAddress
      (bc.mempoolPendingCount tx.fromAddress + 1) }

def checkTimeliness (now : Nat) (tx : Transaction) : Apply Unit := do
  ensure (tx.timestamp ≤ wrapAdd64 now 300) (.invalidTransaction
    "transaction timestamp too far in the future (max +5 min)")
  ensure (now ≤ satAdd64 tx.timestamp mempoolMaxAgeSecs) (.invalidTransaction
    ("transaction too old — max age " ++ toString mempoolMaxAgeSecs ++ " seconds"))

def checkDestination (w : Wire) (tx : Transaction) : Apply Unit := do
  ensure (isValidSentrixAddress tx.toAddress)
    (.invalidTransaction ("invalid to_address: '" ++ tx.toAddress ++ "'"))
  ensure (!(tx.toAddress == tokenOpAddress && (w.tokenOp tx.data).isNone && !tx.isEvmTx))
    (.invalidTransaction
      "cannot send SRX to zero address — use TokenOp::Burn to explicitly burn tokens")

def addToMempool (env : Platform) (lib : AdmissionLib) (now : Nat) (tx : Transaction) :
    Apply Unit := do
  ensure (!tx.isCoinbase) (.invalidTransaction "cannot manually add coinbase to mempool")
  ensure (((lib.serializedSize tx).getD 0) ≤ maxTxSize) (.invalidTransaction
    ("tx size " ++ toString ((lib.serializedSize tx).getD 0) ++ " bytes exceeds limit " ++
      toString maxTxSize))
  let bc ← get
  ensure (bc.mempool.length < maxMempoolSize)
    (.invalidTransaction "mempool full — try again later")
  ensure (bc.mempoolPendingCount tx.fromAddress < maxMempoolPerSender)
    (.invalidTransaction "too many pending transactions from this sender")
  checkDestination env.wire tx
  checkTimeliness now tx
  ensure (!bc.mempoolTxids.contains tx.txid)
    (.invalidTransaction ("duplicate txid in mempool: " ++ tx.txid))
  fromExcept (tx.validate env.wire (wrapAdd64 (bc.accounts.getNonce tx.fromAddress)
    (bc.mempoolPendingCount tx.fromAddress)) bc.chainId)
  let available := bc.accounts.getBalance tx.fromAddress - bc.mempoolPendingSpend tx.fromAddress
  let needed ← fromOption (checkedAdd64 tx.amount tx.fee)
    (.invalidTransaction "amount + fee overflow")
  ensure (needed ≤ available) (.insufficientBalance available needed)
  modify (enqueue lib tx)

def clearMempool (bc : Blockchain) : Blockchain :=
  { bc with mempool := [], mempoolTxids := [], mempoolSenderCount := ∅ }

section
variable {env : Platform} {lib : AdmissionLib} {now : Nat} {tx : Transaction}
  {bc after : Blockchain} {u : Unit}

theorem addToMempool_ok (ran : addToMempool env lib now tx bc = .ok u after) :
    tx.isCoinbase = false ∧ tx.txid ∉ bc.mempoolTxids ∧
      tx.validate env.wire (wrapAdd64 (bc.accounts.getNonce tx.fromAddress)
        (bc.mempoolPendingCount tx.fromAddress)) bc.chainId = .ok () ∧
      after = enqueue lib tx bc := by
  unfold addToMempool checkDestination checkTimeliness at ran
  obtain ⟨plain, ran⟩ := ensure_bind_ok ran
  obtain ⟨-, ran⟩ := ensure_bind_ok ran
  have ran := get_bind_ok ran
  obtain ⟨-, ran⟩ := ensure_bind_ok ran
  obtain ⟨-, ran⟩ := ensure_bind_ok ran
  obtain ⟨_, _, destination, ran⟩ := bind_ok.mp ran
  obtain ⟨-, zero⟩ := ensure_bind_ok destination
  obtain ⟨-, rfl⟩ := ensure_ok.mp zero
  obtain ⟨_, _, timely, ran⟩ := bind_ok.mp ran
  obtain ⟨-, old⟩ := ensure_bind_ok timely
  obtain ⟨-, rfl⟩ := ensure_ok.mp old
  obtain ⟨fresh, ran⟩ := ensure_bind_ok ran
  obtain ⟨_, _, valid, ran⟩ := bind_ok.mp ran
  obtain ⟨valid, rfl⟩ := fromExcept_ok.mp valid
  obtain ⟨needed, -, ran⟩ := fromOption_bind_ok ran
  obtain ⟨-, ran⟩ := ensure_bind_ok ran
  refine ⟨by simpa using plain, by simpa using fresh, valid, modify_ok.mp ran⟩

theorem failsClean_addToMempool : FailsClean (addToMempool env lib now tx) := by
  unfold addToMempool checkDestination checkTimeliness
  refine .ensure_bind (.ensure_bind (.get_bind fun bc => .ensure_bind (.ensure_bind ?_)))
  apply FailsClean.keeping_bind (Keeps.bind (Keeps.ensure _ _) fun _ => Keeps.ensure _ _)
  intro _
  apply FailsClean.keeping_bind (Keeps.bind (Keeps.ensure _ _) fun _ => Keeps.ensure _ _)
  intro _
  refine .ensure_bind (.keeping_bind ?_ fun _ => .fromOption_bind fun _ => .ensure_bind ?_)
  · intro start
    unfold fromExcept
    split <;> rfl
  · exact .of_ok fun start => ⟨⟨⟩, enqueue lib tx start, rfl⟩

end

def pendingOf (bc : Blockchain) (sender : Address) : List Transaction :=
  bc.mempool.filter (·.fromAddress == sender)

structure Indexed (bc : Blockchain) : Prop where
  txids : ∀ id, id ∈ bc.mempoolTxids ↔ id ∈ bc.mempool.map (·.txid)
  distinct : (bc.mempool.map (·.txid)).Nodup
  counts : ∀ a, bc.mempoolPendingCount a = (bc.pendingOf a).length

theorem senderCounts_lookup (queue : List Transaction) (a : Address) :
    ((senderCounts queue).lookup a).getD 0 = (queue.filter (·.fromAddress == a)).length := by
  have from_ (start : Table Address Nat) : ((queue.foldl (fun t tx =>
      t.insert tx.fromAddress (((t.lookup tx.fromAddress).getD 0) + 1)) start).lookup a).getD 0 =
        (start.lookup a).getD 0 + (queue.filter (·.fromAddress == a)).length := by
    induction queue generalizing start with
    | nil => rfl
    | cons tx _ ih =>
      rw [foldl_cons, ih]
      by_cases same : tx.fromAddress = a
      · subst same
        rw [filter_cons_of_pos (by simp), AList.lookup_insert, Option.getD_some,
          length_cons]
        omega
      · rw [filter_cons_of_neg (by simpa using same),
          AList.lookup_insert_ne (Ne.symm same)]
  have zero : ((∅ : Table Address Nat).lookup a).getD 0 = 0 := rfl
  rw [senderCounts, from_, zero, Nat.zero_add]

section
variable {bc : Blockchain}

theorem Indexed.rebuilt (distinct : (bc.mempool.map (·.txid)).Nodup) :
    Indexed bc.rebuildMempoolSidecars :=
  ⟨fun _ => Iff.rfl, distinct, fun a => senderCounts_lookup bc.mempool a⟩

theorem Indexed.retain (indexed : Indexed bc) (keep : Transaction → Bool) :
    Indexed (bc.retainMempool keep) :=
  Indexed.rebuilt (indexed.distinct.sublist (List.filter_sublist.map _))

theorem Indexed.evict (indexed : Indexed bc) (senders : List Address) :
    Indexed (bc.evictStaleNonceForSenders senders) := by
  unfold evictStaleNonceForSenders
  split
  · exact indexed
  · exact indexed.retain _

theorem Indexed.dropMined (indexed : Indexed bc) (now : Nat) (b : Block) :
    Indexed (dropMined now b bc) :=
  ((indexed.retain _).evict _).retain _

theorem perm_enqueue (lib : AdmissionLib) (tx : Transaction) (bc : Blockchain) :
    ((enqueue lib tx bc).mempool).Perm (tx :: bc.mempool) := by
  have split := take_append_drop (insertPosition lib bc.mempool tx) bc.mempool
  calc (enqueue lib tx bc).mempool.Perm
        (tx :: (bc.mempool.take (insertPosition lib bc.mempool tx) ++
          bc.mempool.drop (insertPosition lib bc.mempool tx))) := perm_middle
    _ = tx :: bc.mempool := by rw [split]

theorem Indexed.enqueue (indexed : Indexed bc) (lib : AdmissionLib) {tx : Transaction}
    (fresh : tx.txid ∉ bc.mempoolTxids) : Indexed (enqueue lib tx bc) := by
  have moved := perm_enqueue lib tx bc
  have ids := moved.map (·.txid)
  refine ⟨?_, ?_, ?_⟩
  · intro id
    rw [ids.mem_iff, map_cons, mem_cons, ← indexed.txids]
    exact mem_cons
  · rw [ids.nodup_iff, map_cons, nodup_cons, ← indexed.txids]
    exact ⟨fresh, indexed.distinct⟩
  · intro a
    have counted : ((Blockchain.enqueue lib tx bc).pendingOf a).length =
        ((tx :: bc.mempool).filter (·.fromAddress == a)).length :=
      (moved.filter _).length_eq
    rw [counted]
    unfold mempoolPendingCount Blockchain.enqueue
    dsimp only
    by_cases same : tx.fromAddress = a
    · subst same
      rw [AList.lookup_insert, Option.getD_some, filter_cons_of_pos (by simp),
        length_cons, indexed.counts]
      rfl
    · rw [AList.lookup_insert_ne (Ne.symm same), filter_cons_of_neg (by simpa using same)]
      exact indexed.counts a

end

def pool (bc : Blockchain) : List Transaction × List Hash × Table Address Nat :=
  (bc.mempool, bc.mempoolTxids, bc.mempoolSenderCount)

theorem Indexed.of_pool {bc after : Blockchain} (indexed : Indexed bc)
    (same : after.pool = bc.pool) : Indexed after := by
  obtain ⟨queue, rest⟩ := Prod.mk.inj same
  obtain ⟨ids, counts⟩ := Prod.mk.inj rest
  refine ⟨?_, ?_, ?_⟩
  · rw [ids, queue]
    exact indexed.txids
  · rw [queue]
    exact indexed.distinct
  · intro a
    unfold mempoolPendingCount pendingOf
    rw [counts, queue]
    exact indexed.counts a

section
variable (env : Platform) (now : Nat) (b : Block)

theorem pool_transactions : TransactionMoves fun bc after => after.pool = bc.pool where
  bench _ := rfl
  authority _ _ := rfl
  accounts _ _ := rfl
  contracts _ _ := rfl
  nfts _ _ := rfl

theorem pool_protocol : ProtocolMoves fun bc after => after.pool = bc.pool where
  bench _ := rfl
  authority _ _ := rfl
  credit _ _ _ := rfl
  payout _ _ _ := rfl
  burn _ _ := rfl
  epochs _ _ := rfl

theorem pool_applyTransactions (txs : List Transaction) (totalFee : Nat) :
    Keeps pool (applyTransactions env now b txs totalFee) :=
  Steps.keeps (pool_transactions.steps_applyTransactions env now b txs totalFee)

theorem pool_opened (bc : Blockchain) : (opened env b bc).pool = bc.pool := by
  have kept : Keeps pool (applyCoinbase env b) :=
    Steps.keeps (pool_protocol.steps_applyCoinbase env b fun _ _ => rfl)
  exact kept _

theorem pool_bookkeeping : Keeps pool (bookkeeping env) := by
  apply Steps.keeps (pool_protocol.steps_bookkeeping env _)
  intro bc
  unfold applyRewardBookkeepingForLatestBlock
  split
  · rfl
  · split <;> rfl

end

/-- The transactions of an applied block find the pool of before, its housekeeping comes
after the fees, and what follows leaves pool and other accounts alone. -/
theorem pass2_pool {env : Platform} {now : Nat} {b : Block} {bc after : Blockchain} {u : Unit}
    (ran : applyBlockPass2 env now b bc = .ok u after) :
    ∃ fees finish settled, applyTransactions env now b b.transactions.tail 0 (opened env b bc) =
        .ok fees finish ∧ Sideways finish settled ∧ settled.pool = bc.pool ∧
      Sideways (dropMined now b settled) after ∧ after.pool = (dropMined now b settled).pool := by
  obtain ⟨computed, x, upTo, settling⟩ := applyBlockPass2_split.mp ran
  obtain ⟨body, booked, bodyRan, bookRan, updated⟩ := applyUpToRoot_ok.mp upTo
  unfold applyBody at bodyRan
  obtain ⟨_, start, coinbaseRan, loop⟩ := bind_ok.mp (modify_bind_ok bodyRan)
  obtain ⟨fees, finish, txsRan, ending⟩ := bind_ok.mp loop
  obtain ⟨_, paid, feesPaid, housekeeping⟩ := bind_ok.mp ending
  have isStart : opened env b bc = start := finalState_ok coinbaseRan
  cases modify_ok.mp (modify_bind_ok housekeeping)
  have toPaid := (accounting_sideStep.moves.steps_payFees b fees).ok feesPaid
  have feesKept : Keeps pool (payFees b fees) := Steps.keeps (pool_protocol.steps_payFees b fees)
  refine ⟨fees, finish, recordProduced b paid, isStart ▸ txsRan, ?_, ?_, ?_, ?_⟩
  · exact toPaid.tail (.elsewhere rfl rfl rfl)
  · calc (recordProduced b paid).pool = paid.pool := rfl
      _ = finish.pool := feesKept.ok feesPaid
      _ = start.pool := (pool_applyTransactions env now b _ 0).ok txsRan
      _ = bc.pool := isStart ▸ pool_opened env b bc
  · have pushed : SideStep (dropMined now b (recordProduced b paid))
        (pushBlock b (dropMined now b (recordProduced b paid))) := by
      unfold pushBlock
      exact .elsewhere rfl rfl rfl
    have tail : applyTail env (pushBlock b (dropMined now b (recordProduced b paid))) =
        .ok u after :=
      bind_ok.mpr ⟨(), booked, bookRan, bind_ok.mpr ⟨computed, x, updated, settling⟩⟩
    exact .head pushed ((steps_applyTail env).ok tail)
  · calc after.pool = x.pool := (keeps_settleStateRoot_of (fun _ _ => rfl) computed).ok settling
      _ = (rebaseTreasury env.settings booked).pool :=
        updateTrie_view (fun _ _ => rfl) (fun _ => rfl) updated
      _ = booked.pool := rfl
      _ = (pushBlock b (dropMined now b (recordProduced b paid))).pool :=
        (pool_bookkeeping env).ok bookRan
      _ = (dropMined now b (recordProduced b paid)).pool := by simp only [pool, pushBlock]

theorem rejected_pool {env : Platform} {s : Submission} {bc after : Blockchain} {e : SentrixError}
    (indexed : Indexed bc) (rejected : submit env s bc = .error e after) :
    Indexed after ∧ after.mempool = bc.mempool ∧ after.accounts = bc.accounts := by
  rcases addBlockWithSource_error rejected with ⟨-, _, rfl⟩ | ⟨verified, failed, -, -, -, rfl⟩
  · exact ⟨indexed.of_pool rfl, rfl, rfl⟩
  · have rebuilt : Indexed (rebuildMempoolSidecars { failed with mempool := bc.mempool }) :=
      .rebuilt indexed.distinct
    exact ⟨rebuilt.of_pool rfl, rfl, rfl⟩

inductive MempoolEvent where
  | add (now : Nat) (tx : Transaction)
  | prune (now : Nat)
  | evict (senders : List Address)
  | clear
  | block (s : Submission)

def MempoolEvent.after (env : Platform) (lib : AdmissionLib) (bc : Blockchain) :
    MempoolEvent → Blockchain
  | .add now tx => finalState (addToMempool env lib now tx) bc
  | .prune now => bc.pruneMempool now
  | .evict senders => bc.evictStaleNonceForSenders senders
  | .clear => bc.clearMempool
  | .block s => finalState (submit env s) bc

def mempoolSystem (env : Platform) (lib : AdmissionLib) (start : Blockchain) :
    System Blockchain MempoolEvent where
  init := start
  enabled _ _ := True
  step := MempoolEvent.after env lib

section
variable {env : Platform} {lib : AdmissionLib} {bc after : Blockchain}

theorem addToMempool_after (env : Platform) (lib : AdmissionLib) (now : Nat) (tx : Transaction)
    (bc : Blockchain) : finalState (addToMempool env lib now tx) bc = bc ∨
      addToMempool env lib now tx bc = .ok () (enqueue lib tx bc) ∧
        finalState (addToMempool env lib now tx) bc = enqueue lib tx bc := by
  cases ran : addToMempool env lib now tx bc with
  | error e after =>
    left
    rw [finalState_error ran, failsClean_addToMempool bc e after ran]
  | ok =>
    right
    obtain ⟨-, -, -, rfl⟩ := addToMempool_ok ran
    exact ⟨rfl, finalState_ok ran⟩

theorem Indexed.event (indexed : Indexed bc) (event : MempoolEvent) :
    Indexed (event.after env lib bc) := by
  cases event with
  | add now tx =>
    rcases addToMempool_after env lib now tx bc with same | ⟨ran, moved⟩
    · show Indexed (finalState (addToMempool env lib now tx) bc)
      rw [same]
      exact indexed
    · show Indexed (finalState (addToMempool env lib now tx) bc)
      rw [moved]
      exact indexed.enqueue lib (addToMempool_ok ran).2.1
  | prune => exact indexed.retain _
  | evict senders => exact indexed.evict senders
  | clear => exact ⟨fun _ => Iff.rfl, nodup_nil, fun _ => rfl⟩
  | block s =>
    show Indexed (finalState (submit env s) bc)
    cases ran : submit env s bc with
    | error =>
      rw [finalState_error ran]
      exact (rejected_pool indexed ran).1
    | ok =>
      rw [finalState_ok ran]
      obtain ⟨verified, applied, -, -, pass2, rfl⟩ := addBlockWithSource_ok ran
      obtain ⟨fees, finish, settled, -, -, before, -, kept⟩ := pass2_pool pass2
      have housekept : Indexed (Blockchain.dropMined s.now s.block settled) :=
        (indexed.of_pool before).dropMined s.now s.block
      exact housekept.of_pool kept

end

/-- A pool that starts empty: after any sequence of admissions, prunings, evictions, clearings
and blocks, accepted or not, the indexes say what is in the queue. -/
theorem mempool_indexes_consistent {env : Platform} {lib : AdmissionLib} {start bc : Blockchain}
    (empty : start.pool = ([], [], ∅))
    (run : Run (mempoolSystem env lib start) (fun _ _ => True) bc) :
    (∀ id, id ∈ bc.mempoolTxids ↔ id ∈ bc.mempool.map (·.txid)) ∧
      (bc.mempool.map (·.txid)).Nodup ∧
      ∀ a, bc.mempoolPendingCount a = (bc.pendingOf a).length := by
  have indexed : Indexed bc := by
    apply run.invariant Indexed
    · have none : Indexed start.clearMempool := ⟨fun _ => Iff.rfl, nodup_nil, fun _ => rfl⟩
      exact none.of_pool empty
    · intro before event indexed _ _
      exact indexed.event event
  exact ⟨indexed.txids, indexed.distinct, indexed.counts⟩

def plainLib : AdmissionLib where
  serializedSize _ := some 512
  partitionPoint p queue := (queue.takeWhile p).length

/-- A transfer is queued, refused a second time, and mined. -/
theorem transfer_indexed_until_mined :
    let events := [MempoolEvent.add 1700000001 signedTransfer, .add 1700000001 signedTransfer]
    let sys := mempoolSystem transferPlatform plainLib fundedChain
    let queued := sys.replay fundedChain events
    let mined := sys.step queued (.block ⟨1700000001, .peer, transferBlock⟩)
    queued.mempool = [signedTransfer] ∧ queued.mempoolPendingCount secondValidator = 1 ∧
      mined.mempool = [] ∧ ∀ a, mined.mempoolPendingCount a = (mined.pendingOf a).length := by
  intro events sys queued mined
  have run : Run sys (fun _ _ => True) mined :=
    .next (Run.start.replay events (by simp [System.Legal, sys, mempoolSystem, events])) trivial trivial
  have evaluated : queued.mempool = [signedTransfer] ∧
      queued.mempoolPendingCount secondValidator = 1 ∧ mined.mempool = [] := by decide +kernel
  exact ⟨evaluated.1, evaluated.2.1, evaluated.2.2,
    (mempool_indexes_consistent (rfl : fundedChain.pool = ([], [], ∅)) run).2.2⟩

end Blockchain
end SentrixCore
