import Sentrix.Lib.PartitionPoint
import Sentrix.Core.NonceOrder

/-!
The order of fees in the queue. The place of a new transaction comes from a search that
presumes a queue sorted by fee, and a sender's later transaction goes behind its earlier
ones whatever it pays.
-/
namespace SentrixCore
open Effects Runs SentrixPrimitives List

def AdmissionLib.SearchesPartitions (lib : AdmissionLib) : Prop :=
  ∀ (p : Transaction → Bool) (yes no : List Transaction), (∀ x ∈ yes, p x = true) →
    (∀ x ∈ no, p x = false) → lib.partitionPoint p (yes ++ no) = yes.length

namespace Blockchain

def FeeSorted (queue : List Transaction) : Prop :=
  queue.Pairwise fun a b => b.fee ≤ a.fee

/-- Nobody adds a transaction that pays more than one it has pending. -/
def KeepsFees (bc : Blockchain) : MempoolEvent → Prop
  | .add _ tx => ∀ x ∈ bc.pendingOf tx.fromAddress, tx.fee ≤ x.fee
  | _ => True

section
variable {env : Platform} {lib : AdmissionLib} {bc : Blockchain} {tx : Transaction}
  {queue : List Transaction}

theorem FeeSorted.split (sorted : FeeSorted queue) (fee : Nat) :
    ∃ yes no, queue = yes ++ no ∧ (∀ x ∈ yes, fee ≤ x.fee) ∧ ∀ x ∈ no, x.fee < fee := by
  induction queue with
  | nil => exact ⟨[], [], rfl, fun _ inside => (nomatch inside), fun _ inside => (nomatch inside)⟩
  | cons first rest ih =>
    obtain ⟨top, sorted⟩ := List.pairwise_cons.mp sorted
    by_cases pays : fee ≤ first.fee
    · obtain ⟨yes, no, rfl, all, none⟩ := ih sorted
      refine ⟨first :: yes, no, rfl, fun x inside => ?_, none⟩
      rcases List.mem_cons.mp inside with rfl | later
      · exact pays
      · exact all x later
    · refine ⟨[], first :: rest, rfl, fun _ inside => (nomatch inside), fun x inside => ?_⟩
      rcases List.mem_cons.mp inside with rfl | later
      · exact Nat.not_le.mp pays
      · have := top x later
        omega

theorem sameSenderLast_le {yes no : List Transaction} {sender : Address} {last : Nat}
    (others : ∀ x ∈ no, x.fromAddress ≠ sender)
    (found : sameSenderLast (yes ++ no) sender = some last) : last ≤ yes.length := by
  obtain ⟨i, index, rfl⟩ := Option.map_eq_some_iff.mp found
  obtain ⟨bound, own, -⟩ := List.findIdx?_eq_some_iff_getElem.mp index
  rw [length_append]
  by_contra behind
  have late : i < no.reverse.length := by
    rw [length_reverse]
    omega
  -- the index counts from the back, so a small one lies in the second part
  have inside : (yes ++ no).reverse[i] ∈ no := by
    simp only [reverse_append]
    rw [getElem_append_left late]
    exact List.mem_reverse.mp (getElem_mem late)
  exact others _ inside (by simpa using own)

theorem enqueue_split (search : lib.SearchesPartitions) (sorted : FeeSorted bc.mempool)
    (keeps : ∀ x ∈ bc.pendingOf tx.fromAddress, tx.fee ≤ x.fee) :
    ∃ yes no, bc.mempool = yes ++ no ∧ (enqueue lib tx bc).mempool = yes ++ tx :: no ∧
      (∀ x ∈ yes, tx.fee ≤ x.fee) ∧ ∀ x ∈ no, x.fee < tx.fee := by
  obtain ⟨yes, no, parts, all, none⟩ := sorted.split tx.fee
  have boundary : lib.partitionPoint (fun existing => tx.fee ≤ existing.fee) bc.mempool =
      yes.length := by
    rw [parts]
    exact search _ yes no (fun x inside => decide_eq_true (all x inside))
      fun x inside => decide_eq_false (Nat.not_le.mpr (none x inside))
  have others : ∀ x ∈ no, x.fromAddress ≠ tx.fromAddress := by
    intro x inside own
    have pending : x ∈ bc.pendingOf tx.fromAddress := by
      refine List.mem_filter.mpr ⟨?_, by simpa using own⟩
      rw [parts]
      exact mem_append_right _ inside
    exact absurd (keeps x pending) (Nat.not_le.mpr (none x inside))
  have position : insertPosition lib bc.mempool tx = yes.length := by
    unfold insertPosition
    dsimp only
    rw [boundary]
    split
    · rename_i last found
      rw [parts] at found
      exact Nat.max_eq_left (sameSenderLast_le others found)
    · rfl
  refine ⟨yes, no, parts, ?_, all, none⟩
  show bc.mempool.take (insertPosition lib bc.mempool tx) ++
    tx :: bc.mempool.drop (insertPosition lib bc.mempool tx) = _
  rw [position, parts, take_left, drop_left]

theorem FeeSorted.enqueue (search : lib.SearchesPartitions) (sorted : FeeSorted bc.mempool)
    (keeps : ∀ x ∈ bc.pendingOf tx.fromAddress, tx.fee ≤ x.fee) :
    FeeSorted (enqueue lib tx bc).mempool := by
  obtain ⟨yes, no, parts, queued, all, none⟩ := enqueue_split search sorted keeps
  rw [parts] at sorted
  obtain ⟨front, back, across⟩ := List.pairwise_append.mp sorted
  rw [queued]
  refine List.pairwise_append.mpr ⟨front, List.pairwise_cons.mpr ⟨?_, back⟩, ?_⟩
  · exact fun x inside => Nat.le_of_lt (none x inside)
  · intro x inside y later
    rcases List.mem_cons.mp later with rfl | later
    · exact all x inside
    · exact across x inside y later

theorem mempool_block (s : Submission) (bc : Blockchain) :
    (finalState (submit env s) bc).mempool.Sublist bc.mempool := by
  cases ran : submit env s bc with
  | error e after =>
    rw [finalState_error ran]
    rcases addBlockWithSource_error ran with ⟨-, _, rfl⟩ | ⟨_, _, -, -, -, rfl⟩
    · exact List.Sublist.refl _
    · exact List.Sublist.refl _
  | ok u after =>
    rw [finalState_ok ran]
    obtain ⟨verified, applied, -, -, pass2, rfl⟩ := addBlockWithSource_ok ran
    obtain ⟨fees, finish, settled, -, -, before, -, kept⟩ := pass2_pool pass2
    have queue : settled.mempool = bc.mempool := congrArg Prod.fst before
    have ended : applied.mempool = (dropMined s.now s.block settled).mempool :=
      congrArg Prod.fst kept
    show applied.mempool.Sublist bc.mempool
    rw [ended, ← queue]
    exact mempool_dropMined s.now s.block settled

theorem FeeSorted.event (search : lib.SearchesPartitions) (sorted : FeeSorted bc.mempool)
    (event : MempoolEvent) (keeps : KeepsFees bc event) :
    FeeSorted (event.after env lib bc).mempool := by
  cases event with
  | add now tx =>
    show FeeSorted (finalState (addToMempool env lib now tx) bc).mempool
    rcases addToMempool_after env lib now tx bc with same | ⟨-, moved⟩
    · rw [same]
      exact sorted
    · rw [moved]
      exact sorted.enqueue search keeps
  | prune now => exact List.Pairwise.sublist filter_sublist sorted
  | evict senders => exact List.Pairwise.sublist (mempool_evict bc senders) sorted
  | clear => exact List.Pairwise.nil
  | block s => exact List.Pairwise.sublist (mempool_block s bc) sorted

end

/-- In every run in which no sender adds a transaction that pays more than one it has pending, a
new transaction of a sender without any is behind none that pays less. -/
theorem admitted_by_fee {env : Platform} {lib : AdmissionLib} {start bc after : Blockchain}
    {now : Nat} {tx : Transaction} (search : lib.SearchesPartitions)
    (empty : start.mempool = []) (run : Run (mempoolSystem env lib start) KeepsFees bc)
    (admitted : addToMempool env lib now tx bc = .ok () after)
    (alone : bc.pendingOf tx.fromAddress = []) :
    ∃ before behind, after.mempool = before ++ tx :: behind ∧ before ++ behind = bc.mempool ∧
      ∀ x ∈ before, tx.fee ≤ x.fee := by
  have sorted : FeeSorted bc.mempool := by
    apply run.invariant fun bc => FeeSorted bc.mempool
    · show FeeSorted start.mempool
      rw [empty]
      exact List.Pairwise.nil
    · exact fun before event sorted _ keeps => sorted.event search event keeps
  obtain ⟨-, -, -, rfl⟩ := addToMempool_ok admitted
  have keeps : ∀ x ∈ bc.pendingOf tx.fromAddress, tx.fee ≤ x.fee := by
    rw [alone]
    exact fun _ inside => nomatch inside
  obtain ⟨yes, no, parts, queued, all, -⟩ := enqueue_split search sorted keeps
  exact ⟨yes, no, queued, parts.symm, all⟩

def raisedTransfer : Transaction :=
  { signedTransfer with
    txid := "004dcad06b3fe71ccddb0e0bbc1866affa66714f2b23c0194ce59abe670b6147"
    fee := 100000
    nonce := 1
    timestamp := 1700000101
    signature := "e5044efc84ca195f0781d7b234b2a2faa3b71996d10d8400a56ec1a40c911fd773b175639016d4cd" ++
      "3038cbfb34ce6d39bc56f6dfe0755b9e78bc479f54d0c9e4" }

def middleTransfer : Transaction :=
  { signedTransfer with
    txid := "98515b49081e4d437ed2ba2b55df5c9687df3000335b3252a53ddad90e81597d"
    fromAddress := thirdAccount
    toAddress := secondValidator
    fee := 50000
    timestamp := 1700000101
    signature := "c3a1a0e5d45b70fa8b186073d379d1f171666b13e68559d4f8b1add5550a8d1c06921d2dbaff794d" ++
      "da7228a49aa2e5c42ef178da23854be5e11badb0e5cee6db"
    publicKey := thirdKey }

def twoKeysPlatform : Platform :=
  let bare := tableWire (blockDigests transferBlock)
  plainPlatform { bare with
    addressOfKey := fun key =>
      List.lookup key [(secondKey, secondValidator), (thirdKey, thirdAccount)]
    verifyEcdsa := fun key signature payload =>
      [signedTransfer, raisedTransfer, middleTransfer].any fun tx =>
        tx.publicKey == key && tx.signature == signature && tx.signingPayload bare == payload }

def halvingLib : AdmissionLib :=
  { plainLib with partitionPoint := PartitionPoint.partitionPoint }

theorem halvingLib_searches : halvingLib.SearchesPartitions :=
  fun _ _ _ all none => PartitionPoint.partitionPoint_split all none

def bothFunded : Blockchain :=
  { fundedChain with accounts := fundedChain.accounts.setBalance thirdAccount 1000000 }

instance (bc : Blockchain) : ∀ event, Decidable (KeepsFees bc event)
  | .add _ tx => inferInstanceAs (Decidable (∀ x ∈ bc.pendingOf tx.fromAddress, tx.fee ≤ x.fee))
  | .prune _ | .evict _ | .clear | .block _ => inferInstanceAs (Decidable True)

/-- Behind the cheaper transfer alone, the one in between goes to the front. -/
theorem higher_fee_goes_ahead :
    let sys := mempoolSystem twoKeysPlatform halvingLib bothFunded
    let reached := sys.replay bothFunded [.add 1700000101 signedTransfer]
    let after := finalState (addToMempool twoKeysPlatform halvingLib 1700000101 middleTransfer) reached
    after.mempool = [middleTransfer, signedTransfer] ∧ ∃ before behind,
      after.mempool = before ++ middleTransfer :: behind ∧ before ++ behind = reached.mempool ∧
        ∀ x ∈ before, middleTransfer.fee ≤ x.fee := by
  intro sys reached after
  obtain ⟨legal, admitted, alone, queue⟩ :
      sys.Legal KeepsFees bothFunded [.add 1700000101 signedTransfer] ∧
      succeeds (addToMempool twoKeysPlatform halvingLib 1700000101 middleTransfer) reached = true ∧
      reached.pendingOf thirdAccount = [] ∧ after.mempool = [middleTransfer, signedTransfer] := by
    decide +kernel
  have run : Run sys KeepsFees reached := Run.start.replay _ legal
  exact ⟨queue, admitted_by_fee halvingLib_searches rfl run (ok_of_succeeds admitted) alone⟩

/-- Behind the cheaper and the raised transfer of one sender, the one in between goes to the
end: the search looks at the raised one first. -/
theorem raised_fee_misplaces :
    let sys := mempoolSystem twoKeysPlatform halvingLib bothFunded
    let reached := sys.replay bothFunded
      [.add 1700000101 signedTransfer, .add 1700000101 raisedTransfer]
    let add := addToMempool twoKeysPlatform halvingLib 1700000101 middleTransfer
    reached.pendingOf thirdAccount = [] ∧ succeeds add reached = true ∧
      (finalState add reached).mempool = [signedTransfer, raisedTransfer, middleTransfer] ∧
      signedTransfer.fee < middleTransfer.fee := by
  decide +kernel

end Blockchain
end SentrixCore
