import Sentrix.Core.EpochSweep
import Sentrix.Core.Supply

/-!
Money at an epoch boundary. Matured unbonding entries are paid out of the treasury
one by one, and a payment that fails is only logged although its entry has left the
queue; what the sweep slashes is added to the burn counter and debited nowhere.
-/
namespace SentrixPrimitives
open MachineWords Effects List

namespace AccountDB

section
variable {db paid : AccountDB} {sender recipient address : Address} {amount : Nat}

theorem succeeds_credit (db : AccountDB) (address : Address) (amount : Nat) :
    succeeds (credit address amount) db = true ↔ db.getBalance address + amount ≤ u64Max := by
  rw [succeeds_iff]
  constructor
  · rintro ⟨u, paid, ran⟩
    unfold credit at ran
    obtain ⟨balance, sum, -⟩ := fromOption_bind_ok (get_bind_ok (modify_bind_ok ran))
    have fits := (checkedAdd64_eq_some sum).2
    rwa [getBalance_update_id, getBalance_touch] at fits
  · intro fits
    have sum : checkedAdd64 (((db.touch address).update address id).getBalance address) amount =
        some (db.getBalance address + amount) := by
      rw [getBalance_update_id, getBalance_touch, checkedAdd64, if_pos fits]
    unfold credit
    exact ⟨⟨⟩, _, bind_ok.mpr ⟨⟨⟩, _, rfl, bind_ok.mpr ⟨_, _, rfl,
      bind_ok.mpr ⟨_, _, fromOption_ok.mpr ⟨sum, rfl⟩, rfl⟩⟩⟩⟩

theorem succeeds_transfer (db : AccountDB) (sender recipient : Address) (amount : Nat) :
    succeeds (transfer sender recipient amount 0) db = true ↔
      amount ≤ u64Max ∧ amount ≤ db.getBalance sender ∧ db.getNonce sender + 1 ≤ u64Max ∧
        (db.getBalance recipient - if recipient = sender then amount else 0) + amount ≤ u64Max := by
  have debited (n : Nat) : ((((db.touch sender).touch recipient).update sender fun a =>
      { a with balance := a.balance - amount }).update sender fun a =>
        { a with nonce := n }).getBalance recipient =
        db.getBalance recipient - if recipient = sender then amount else 0 := by
    rw [getBalance_update_nonce, getBalance_update, getOrCreate_touch, getOrCreate_touch,
      getOrCreate_balance, getBalance_touch, getBalance_touch]
    by_cases same : recipient = sender
    · simp [same]
    · simp [same]
  rw [succeeds_iff]
  constructor
  · rintro ⟨u, paid, ran⟩
    unfold transfer at ran
    obtain ⟨total, sum, ran⟩ := fromOption_bind_ok ran
    obtain ⟨rfl, word⟩ := checkedAdd64_eq_some sum
    obtain ⟨enough, taken⟩ := ensure_bind_ok (get_bind_ok ran)
    obtain ⟨nonce, next, written⟩ := fromOption_bind_ok (get_bind_ok (modify_bind_ok taken))
    obtain ⟨_, credited, paidIn, -⟩ := bind_ok.mp (modify_bind_ok written)
    have counted := (checkedAdd64_eq_some next).2
    rw [getNonce_update_balance, getNonce_touch, getNonce_touch] at counted
    have held := (succeeds_credit _ _ _).mp (succeeds_iff.mpr ⟨_, _, paidIn⟩)
    rw [debited] at held
    exact ⟨word, of_decide_eq_true enough, counted, held⟩
  · rintro ⟨word, enough, counted, held⟩
    have sum : checkedAdd64 amount 0 = some amount := if_pos word
    have next : checkedAdd64 ((((db.touch sender).touch recipient).update sender fun a =>
        { a with balance := a.balance - amount }).getNonce sender) 1 =
          some (db.getNonce sender + 1) := by
      rw [getNonce_update_balance, getNonce_touch, getNonce_touch, checkedAdd64, if_pos counted]
    rw [← debited (db.getNonce sender + 1)] at held
    obtain ⟨u, credited, paidIn⟩ := succeeds_iff.mp ((succeeds_credit _ _ _).mpr held)
    unfold transfer
    exact ⟨⟨⟩, _, bind_ok.mpr ⟨_, _, fromOption_ok.mpr ⟨sum, rfl⟩, bind_ok.mpr ⟨_, _, rfl,
      bind_ok.mpr ⟨(), _, ensure_ok.mpr ⟨decide_eq_true enough, rfl⟩, bind_ok.mpr ⟨_, _, rfl,
      bind_ok.mpr ⟨_, _, rfl, bind_ok.mpr ⟨_, _, fromOption_ok.mpr ⟨next, rfl⟩,
      bind_ok.mpr ⟨_, _, rfl, bind_ok.mpr ⟨_, _, paidIn, rfl⟩⟩⟩⟩⟩⟩⟩⟩⟩

end
end AccountDB
end SentrixPrimitives

namespace SentrixCore
open MachineWords Effects SentrixPrimitives SentrixStaking List
open SlashingEngine (checkLiveness)

namespace Blockchain

/-- One payment out of the treasury; what a failing one has done stays. -/
def payOut (db : AccountDB) (entry : Address × Nat) : AccountDB :=
  finalState (AccountDB.transfer protocolTreasury entry.1 entry.2 0) db

abbrev Pays (db : AccountDB) (entry : Address × Nat) : Prop :=
  succeeds (AccountDB.transfer protocolTreasury entry.1 entry.2 0) db = true

def PaidInFull : AccountDB → List (Address × Nat) → Prop
  | _, [] => True
  | db, entry :: rest =>
    Pays db entry ∧ PaidInFull (payOut db entry) rest

instance decidablePaidInFull : (db : AccountDB) → (released : List (Address × Nat)) →
    Decidable (PaidInFull db released)
  | _, [] => .isTrue trivial
  | db, entry :: rest =>
    have := decidablePaidInFull (payOut db entry) rest
    inferInstanceAs (Decidable (Pays db entry ∧ PaidInFull (payOut db entry) rest))

def dueTo (delegator : Address) (released : List (Address × Nat)) : Nat :=
  (released.map fun e => if e.1 = delegator then e.2 else 0).sum

def outflow (released : List (Address × Nat)) : Nat :=
  (released.map fun e => if e.1 = protocolTreasury then 0 else e.2).sum

/-- The treasury can count the payments and can pay each after those before it, and every
delegator can hold what is due. -/
structure Affordable (db : AccountDB) (released : List (Address × Nat)) : Prop where
  nonces : db.getNonce protocolTreasury + released.length ≤ u64Max
  funds : ∀ before e after, released = before ++ e :: after →
    outflow before + e.2 ≤ db.getBalance protocolTreasury
  room : ∀ e ∈ released, e.1 ≠ protocolTreasury →
    db.getBalance e.1 + dueTo e.1 released ≤ u64Max

section
variable {db : AccountDB} {entry : Address × Nat} {rest released : List (Address × Nat)}

theorem dueTo_cons (delegator : Address) (entry : Address × Nat) (rest : List (Address × Nat)) :
    dueTo delegator (entry :: rest) = dueTo delegator [entry] + dueTo delegator rest := by
  simp [dueTo]

theorem outflow_cons (entry : Address × Nat) (rest : List (Address × Nat)) :
    outflow (entry :: rest) = outflow [entry] + outflow rest := by
  simp [outflow]

theorem dueTo_absent {delegator : Address} (absent : ∀ e ∈ released, e.1 ≠ delegator) :
    dueTo delegator released = 0 := by
  induction released with
  | nil => rfl
  | cons e rest ih =>
    rw [dueTo_cons, ih fun d member => absent d (mem_cons_of_mem _ member)]
    simp [dueTo, absent e mem_cons_self]

theorem payOut_paid (paid : Pays db entry) :
    (∀ c, (payOut db entry).getBalance c =
        (db.getBalance c - if c = protocolTreasury then entry.2 else 0) +
          if c = entry.1 then entry.2 else 0) ∧
      (payOut db entry).getNonce protocolTreasury = db.getNonce protocolTreasury + 1 ∧
      (payOut db entry).balanceSum = db.balanceSum ∧
      (payOut db entry).totalBurned = satAdd64 db.totalBurned 0 := by
  have ran := ok_of_succeeds paid
  obtain ⟨-, -, balances, nonces⟩ := AccountDB.transfer_ok ran
  obtain ⟨sum, burned⟩ := AccountDB.transfer_sum ran
  refine ⟨balances, ?_, sum, burned⟩
  rw [payOut, nonces, if_pos rfl]

theorem balances_payOut (paid : Pays db entry) :
    (payOut db entry).getBalance protocolTreasury + outflow [entry] =
        db.getBalance protocolTreasury ∧
      ∀ d ≠ protocolTreasury,
        (payOut db entry).getBalance d = db.getBalance d + dueTo d [entry] := by
  obtain ⟨-, enough, -⟩ := (AccountDB.succeeds_transfer _ _ _ _).mp paid
  obtain ⟨balances, -⟩ := payOut_paid paid
  constructor
  · rw [balances, if_pos rfl]
    by_cases own : entry.1 = protocolTreasury
    · simp only [outflow, own, map_cons, map_nil, sum_singleton, if_true]
      omega
    · simp only [outflow, own, Ne.symm own, map_cons, map_nil, sum_singleton, if_false]
      omega
  · intro d other
    rw [balances, if_neg other]
    simp [dueTo, eq_comm]

theorem affordable_cons (held : db.getBalance protocolTreasury ≤ u64Max) :
    Affordable db (entry :: rest) ↔
      Pays db entry ∧ Affordable (payOut db entry) rest := by
  have own : dueTo entry.1 [entry] = entry.2 := by simp [dueTo]
  constructor
  · intro covered
    have enough : outflow [] + entry.2 ≤ _ := covered.funds [] entry rest rfl
    have enough : entry.2 ≤ db.getBalance protocolTreasury := by simpa [outflow] using enough
    have counted := covered.nonces
    rw [length_cons] at counted
    have paid : Pays db entry := by
      refine (AccountDB.succeeds_transfer _ _ _ _).mpr ⟨by omega, enough, by omega, ?_⟩
      by_cases back : entry.1 = protocolTreasury
      · rw [if_pos back, back]
        omega
      · have fits := covered.room entry mem_cons_self back
        rw [dueTo_cons] at fits
        rw [if_neg back]
        omega
    obtain ⟨treasury, others⟩ := balances_payOut paid
    refine ⟨paid, ?_, ?_, ?_⟩
    · rw [(payOut_paid paid).2.1]
      omega
    · intro before e after split
      have later := covered.funds (entry :: before) e after (by rw [split]; rfl)
      rw [outflow_cons] at later
      omega
    · intro e member other
      have fits := covered.room e (mem_cons_of_mem _ member) other
      rw [dueTo_cons] at fits
      rw [others e.1 other]
      omega
  · rintro ⟨paid, covered⟩
    obtain ⟨-, enough, counted, fits⟩ := (AccountDB.succeeds_transfer _ _ _ _).mp paid
    obtain ⟨treasury, others⟩ := balances_payOut paid
    refine ⟨?_, ?_, ?_⟩
    · have later := covered.nonces
      rw [(payOut_paid paid).2.1] at later
      rw [length_cons]
      omega
    · intro before e after split
      cases before with
      | nil =>
        obtain ⟨rfl, -⟩ := List.cons.inj split
        simpa [outflow] using enough
      | cons first more =>
        obtain ⟨rfl, tail⟩ := List.cons.inj split
        have later := covered.funds more e after tail
        rw [outflow_cons]
        omega
    · intro e member other
      rw [dueTo_cons]
      by_cases again : ∃ d ∈ rest, d.1 = e.1
      · obtain ⟨d, inside, same⟩ := again
        have room := covered.room d inside (same ▸ other)
        rw [same, others e.1 other] at room
        omega
      · -- nothing more is due to this delegator
        have none : dueTo e.1 rest = 0 :=
          dueTo_absent fun d inside same => again ⟨d, inside, same⟩
        rcases List.mem_cons.mp member with rfl | inside
        · rw [if_neg other] at fits
          omega
        · exact absurd ⟨e, inside, rfl⟩ again

theorem paid_iff_affordable (released : List (Address × Nat)) :
    ∀ {db : AccountDB}, db.getBalance protocolTreasury ≤ u64Max →
      db.getNonce protocolTreasury ≤ u64Max → (PaidInFull db released ↔ Affordable db released) := by
  induction released with
  | nil =>
    intro db held counted
    refine iff_of_true trivial ⟨counted, fun before e after split => ?_, fun e inside => nomatch inside⟩
    cases before <;> cases split
  | cons entry rest ih =>
    intro db held counted
    rw [affordable_cons held]
    refine and_congr_right fun paid => ih ?_ ?_
    · have less := (balances_payOut paid).1
      omega
    · rw [(payOut_paid paid).2.1]
      exact ((AccountDB.succeeds_transfer _ _ _ _).mp paid).2.2.1

theorem paid_sums (released : List (Address × Nat)) :
    ∀ {db : AccountDB}, db.totalBurned ≤ u64Max → PaidInFull db released →
      (released.foldl payOut db).balanceSum = db.balanceSum ∧
        (released.foldl payOut db).totalBurned = db.totalBurned := by
  induction released with
  | nil => exact fun _ _ => ⟨rfl, rfl⟩
  | cons entry rest ih =>
    rintro db word ⟨paid, later⟩
    obtain ⟨-, -, sum, burned⟩ := payOut_paid paid
    have same : (payOut db entry).totalBurned = db.totalBurned :=
      burned.trans (satAdd_eq_add word)
    obtain ⟨sums, counters⟩ := ih (same ▸ word) later
    exact ⟨sums.trans sum, counters.trans same⟩

end

/-- What the sweep of the boundary slashes: it runs after the matured entries have left and
the set has been refreshed. -/
def slashedAt (height : Nat) (bc : Blockchain) : List (Address × Nat) :=
  let reg := (bc.stakeRegistry.processUnbonding height).1.updateActiveSet
  (checkLiveness height reg.activeSet ⟨bc.slashing, reg⟩).2

section
variable {forks : Forks} {height : Nat} {bc : Blockchain}

theorem release_pays (active : reached forks.rewardV2 height = true)
    (released : List (Address × Nat)) : ∀ bc : Blockchain,
      released.forM (releaseUnbonding forks height) bc =
        .ok ⟨⟩ { bc with accounts := released.foldl payOut bc.accounts } := by
  induction released with
  | nil => exact fun bc => rfl
  | cons entry rest ih =>
    intro bc
    have first : releaseUnbonding forks height entry bc =
        .ok () { bc with accounts := payOut bc.accounts entry } := by
      unfold releaseUnbonding onAccounts focus ignoreError payOut finalState
      rw [if_pos active]
      dsimp only
      cases AccountDB.transfer protocolTreasury entry.1 entry.2 0 bc.accounts <;> rfl
    exact bind_ok.mpr ⟨⟨⟩, _, first, ih _⟩

theorem accounts_runEpochBookkeeping (boundary : EpochManager.isEpochBoundary height = true)
    (active : reached forks.rewardV2 height = true) (bc : Blockchain) :
    (finalState (runEpochBookkeeping forks height) bc).accounts =
      (slashedAt height bc).foldl (fun db slashed => db.burn slashed.2)
        ((bc.stakeRegistry.processUnbonding height).2.foldl payOut bc.accounts) := by
  have paid := release_pays active (bc.stakeRegistry.processUnbonding height).2
    { bc with stakeRegistry := (bc.stakeRegistry.processUnbonding height).1 }
  have ran : runEpochBookkeeping forks height bc = .ok ⟨⟩ (punishDowntime height (rotateEpoch
      { bc with
        stakeRegistry := (bc.stakeRegistry.processUnbonding height).1
        accounts := (bc.stakeRegistry.processUnbonding height).2.foldl payOut bc.accounts })) := by
    unfold runEpochBookkeeping
    rw [if_pos boundary]
    exact bind_ok.mpr ⟨bc, bc, rfl, bind_ok.mpr ⟨⟨⟩, _, rfl, bind_ok.mpr ⟨⟨⟩, _, paid, rfl⟩⟩⟩
  rw [finalState_ok ran]
  rfl

theorem burn_all (slashed : List (Address × Nat)) :
    ∀ {db : AccountDB}, db.totalBurned ≤ u64Max →
      (slashed.foldl (fun db slashed => db.burn slashed.2) db).balanceSum = db.balanceSum ∧
        (slashed.foldl (fun db slashed => db.burn slashed.2) db).totalBurned =
          min (db.totalBurned + (slashed.map (·.2)).sum) u64Max := by
  induction slashed with
  | nil =>
    intro db word
    exact ⟨rfl, (Nat.min_eq_left word).symm⟩
  | cons entry rest ih =>
    intro db word
    have next : (db.burn entry.2).totalBurned = min (db.totalBurned + entry.2) u64Max := rfl
    obtain ⟨sum, counter⟩ := @ih (db.burn entry.2) (by rw [next]; exact Nat.min_le_right _ _)
    refine ⟨sum, ?_⟩
    rw [foldl_cons, counter, next, map_cons, sum_cons]
    omega

/-- At an epoch boundary balances and burned add up to what they did and every matured entry is
paid exactly when the treasury can pay them all, the delegators can hold them, and the
sweep slashes nothing or the burn counter is full. -/
theorem epoch_conserves_iff (boundary : EpochManager.isEpochBoundary height = true)
    (active : reached forks.rewardV2 height = true)
    (held : bc.accounts.getBalance protocolTreasury ≤ u64Max)
    (counted : bc.accounts.getNonce protocolTreasury ≤ u64Max)
    (word : bc.accounts.totalBurned ≤ u64Max) :
    let after := finalState (runEpochBookkeeping forks height) bc
    let released := (bc.stakeRegistry.processUnbonding height).2
    (after.accounts.balanceSum + after.accounts.totalBurned =
        bc.accounts.balanceSum + bc.accounts.totalBurned ∧ PaidInFull bc.accounts released) ↔
      Affordable bc.accounts released ∧
        (((slashedAt height bc).map (·.2)).sum = 0 ∨ bc.accounts.totalBurned = u64Max) := by
  intro after released
  rw [and_comm, ← paid_iff_affordable released held counted]
  refine and_congr_right fun paid => ?_
  obtain ⟨sums, counters⟩ := paid_sums released word paid
  obtain ⟨burnSum, burnCount⟩ := burn_all (slashedAt height bc) (counters.le.trans word)
  have final : after.accounts = (slashedAt height bc).foldl (fun db slashed => db.burn slashed.2)
      (released.foldl payOut bc.accounts) := accounts_runEpochBookkeeping boundary active bc
  rw [final, burnSum, burnCount, sums, counters]
  omega

end

/-- One validator that signed block 1 or none, one entry of a hundred that matured at height 5,
and a treasury. -/
def maturing (signers : List Address) (treasury : Nat) : Blockchain :=
  { seedChain { bondedSet [firstValidator] with
      unbondingQueue := AList.insert 5 [⟨"alice", firstValidator, 100, 5⟩] ∅ } with
    accounts := AccountDB.new.setBalance protocolTreasury treasury
    slashing := SlashingEngine.new.recordBlockSignatures signers 1 }

def forksOn : Forks := { Forks.off with rewardV2 := 0 }

/-- Nobody is down and the treasury holds enough. -/
theorem funded_boundary_conserves :
    let bc := maturing [] 1000
    let after := finalState (runEpochBookkeeping forksOn 28799) bc
    (bc.stakeRegistry.processUnbonding 28799).2 = [("alice", 100)] ∧
      after.accounts.balanceSum + after.accounts.totalBurned =
        bc.accounts.balanceSum + bc.accounts.totalBurned ∧
      PaidInFull bc.accounts (bc.stakeRegistry.processUnbonding 28799).2 := by
  intro bc after
  have paid : PaidInFull bc.accounts (bc.stakeRegistry.processUnbonding 28799).2 := by
    decide
  have covered := (paid_iff_affordable _ (by decide) (by decide)).mp paid
  exact ⟨by decide, (epoch_conserves_iff (by decide) (by decide) (by decide)
    (by decide) (by decide)).mpr ⟨covered, .inl (by decide)⟩⟩

/-- An empty treasury and an absent validator: the entry leaves the queue unpaid, and what the
validator is slashed is counted as burned while no balance moves. -/
theorem empty_treasury_boundary_diverges :
    let bc := maturing [firstValidator] 0
    let after := finalState (runEpochBookkeeping forksOn 28799) bc
    EpochManager.isEpochBoundary 28799 = true ∧ reached forksOn.rewardV2 28799 = true ∧
      (bc.stakeRegistry.processUnbonding 28799).2 = [("alice", 100)] ∧
      after.stakeRegistry.unbondingEntries = [] ∧ after.accounts.getBalance "alice" = 0 ∧
      after.accounts.balanceSum = bc.accounts.balanceSum ∧
      bc.accounts.totalBurned < after.accounts.totalBurned := by
  decide

end Blockchain
end SentrixCore
