import Sentrix.Core.BenchRuns
import Sentrix.Core.FinalityGate
import Sentrix.Staking.Downtime

/-!
The liveness sweep at an epoch boundary, against the signatures of all blocks
before it. Absence is inferred from positive records: a validator that never
signed has no first sighting, and the grace for newcomers never ends for it.
-/
namespace SentrixCore
open Effects SentrixPrimitives SentrixStaking
open SlashingEngine (Bench QuietStep BenchStep Watched Caught checkLiveness)
open Relation (ReflTransGen)

namespace Blockchain

def signatures (b : Block) : Signings :=
  match b.justification with
  | none => []
  | some j => ((j.precommits.map (·.validator)).map (·, b.index)).reverse

theorem watched_recorded {history : Signings} {before : Bench} (watched : Watched history before)
    {b : Block} (newest : ∀ e ∈ history, e.2 ≤ b.index) :
    Watched (signatures b ++ history) (recorded b before) := by
  unfold signatures recorded
  cases b.justification with
  | none => exact watched
  | some j => exact watched.signed _ newest

section
variable {env : Platform} {history : Signings} {s : Submission} {bc after : Blockchain}

theorem watched_accepted (watched : Watched history bc.bench)
    (newest : ∀ e ∈ history, e.2 ≤ s.block.index) (ran : submit env s bc = .ok () after) :
    Watched (if reached env.forks.rewardApplyPath s.block.index then signatures s.block ++ history
      else history) after.bench := by
  obtain ⟨before, opened, closed⟩ := accepted_bench ran
  split at closed
  · rename_i active
    rw [if_pos active]
    exact (watched_recorded (watched.quietly opened) newest).quietly closed
  · rename_i inactive
    rw [if_neg inactive]
    exact (watched.quietly opened).quietly closed

theorem watched_rejected {e : SentrixError} (watched : Watched history bc.bench)
    (ran : submit env s bc = .error e after) : Watched history after.bench := by
  rw [rejected_bench ran]
  exact watched

theorem window_before_boundary {height : Nat}
    (boundary : EpochManager.isEpochBoundary height = true) : livenessWindow ≤ height := by
  simp only [EpochManager.isEpochBoundary, epochLength, Bool.and_eq_true, decide_eq_true_eq,
    beq_iff_eq] at boundary
  unfold livenessWindow
  omega

/-- A release that fails is only logged, so the loop over them comes to its end. -/
theorem release_all (forks : Forks) (height : Nat) (released : List (Address × Nat)) :
    ∀ bc : Blockchain, ∃ paid, released.forM (releaseUnbonding forks height) bc = .ok () paid ∧
      paid.bench = bc.bench := by
  induction released with
  | nil => exact fun bc => ⟨bc, rfl, rfl⟩
  | cons entry rest ih =>
    intro bc
    obtain ⟨next, ran, same⟩ : ∃ next, releaseUnbonding forks height entry bc = .ok () next ∧
        next.bench = bc.bench := by
      unfold releaseUnbonding onAccounts focus ignoreError
      generalize (if reached forks.rewardV2 height then
        AccountDB.transfer protocolTreasury entry.1 entry.2 0
        else AccountDB.credit entry.1 entry.2) = pay
      dsimp only
      cases pay bc.accounts with
      | ok u db => exact ⟨_, rfl, rfl⟩
      | error e db => exact ⟨_, rfl, rfl⟩
    obtain ⟨paid, rest, same'⟩ := ih next
    exact ⟨paid, bind_ok.mpr ⟨⟨⟩, next, ran, rest⟩, same'.trans same⟩

theorem bench_runEpochBookkeeping (forks : Forks) {height : Nat}
    (boundary : EpochManager.isEpochBoundary height = true) (bc : Blockchain) :
    (finalState (runEpochBookkeeping forks height) bc).bench =
      let reg := (bc.stakeRegistry.processUnbonding height).1.updateActiveSet
      (checkLiveness height reg.activeSet ⟨bc.slashing, reg⟩).1 := by
  obtain ⟨paid, released, same⟩ := release_all forks height
    (bc.stakeRegistry.processUnbonding height).2
    { bc with stakeRegistry := (bc.stakeRegistry.processUnbonding height).1 }
  have ran : runEpochBookkeeping forks height bc =
      .ok ⟨⟩ (punishDowntime height (rotateEpoch paid)) := by
    unfold runEpochBookkeeping
    rw [if_pos boundary]
    exact bind_ok.mpr ⟨bc, bc, rfl, bind_ok.mpr ⟨⟨⟩, _, rfl, bind_ok.mpr ⟨⟨⟩, paid, released, rfl⟩⟩⟩
  rw [finalState_ok ran]
  obtain ⟨engine, registry⟩ := SlashingEngine.Bench.mk.inj same
  show (checkLiveness height paid.stakeRegistry.updateActiveSet.activeSet
    ⟨paid.slashing, paid.stakeRegistry.updateActiveSet⟩).1 = _
  rw [engine, registry]

/-- Whoever has never signed passes every boundary untouched. -/
theorem never_signed_kept (forks : Forks) {height : Nat} (watched : Watched history bc.bench)
    (newest : ∀ e ∈ history, e.2 ≤ height)
    (boundary : EpochManager.isEpochBoundary height = true) {validator : Address}
    (never : ∀ h, (validator, h) ∉ history) :
    (finalState (runEpochBookkeeping forks height) bc).stakeRegistry.getValidator validator =
      bc.stakeRegistry.getValidator validator := by
  have none : signedWithin history validator (height - livenessWindow) height <
      minSignedPerWindow := by
    rw [signedWithin_eq_zero fun h _ => never h]
    decide
  have judged := watched.tracks.isDowntimeAt_iff newest (window_before_boundary boundary) none
  have up : bc.slashing.liveness.isDowntimeAt validator height = false := by
    apply Bool.eq_false_iff.mpr
    intro down
    obtain ⟨h, inside, -⟩ := judged.mp down
    exact never h inside
  have swept := congrArg SlashingEngine.Bench.registry (bench_runEpochBookkeeping forks boundary bc)
  change (finalState (runEpochBookkeeping forks height) bc).stakeRegistry = _ at swept
  rw [swept]
  have spared (b : Bench) (same : b.engine = bc.slashing) (set : List Address) :
      (checkLiveness height set b).1.registry.getValidator validator =
        b.registry.getValidator validator := by
    have up : (SlashingEngine.dossier validator height b).2 = false := by
      show b.engine.liveness.isDowntimeAt validator height = false
      rw [same, up]
    exact congrArg Prod.fst (SlashingEngine.sweep_spares up set)
  exact spared _ rfl _

end

/-- At an epoch boundary, a validator that is registered, free and signed too few blocks of the
window is slashed and jailed exactly when the refreshed active set lists it and it has
signed a block at or before the beginning of the window. -/
theorem downtime_caught_iff (forks : Forks) {history : Signings} {bc : Blockchain} {height : Nat}
    (watched : Watched history bc.bench) (newest : ∀ e ∈ history, e.2 ≤ height)
    (boundary : EpochManager.isEpochBoundary height = true) {validator : Address}
    {old : ValidatorStake} (found : bc.stakeRegistry.getValidator validator = some old)
    (free : old.isJailed = false)
    (absent : signedWithin history validator (height - livenessWindow) height <
      minSignedPerWindow) :
    (∃ new, (finalState (runEpochBookkeeping forks height) bc).stakeRegistry.getValidator validator =
        some new ∧ Caught height old new) ↔
      validator ∈ bc.stakeRegistry.computeActiveSet ∧
        ∃ h, (validator, h) ∈ history ∧ h ≤ height - livenessWindow := by
  have swept := congrArg SlashingEngine.Bench.registry (bench_runEpochBookkeeping forks boundary bc)
  have refreshed : Watched history ⟨bc.slashing,
      (bc.stakeRegistry.processUnbonding height).1.updateActiveSet⟩ :=
    (watched.quiet (.call (.processUnbonding height))).quiet (.call .updateActiveSet)
  have grown : livenessWindow ≤ height := window_before_boundary boundary
  change (finalState (runEpochBookkeeping forks height) bc).stakeRegistry = _ at swept
  rw [swept]
  exact SlashingEngine.sweep_caught_iff refreshed newest grown found free absent _

def attended (signers : Nat → List Address) : Nat → SlashingEngine
  | 0 => .new
  | n + 1 => (attended signers n).recordBlockSignatures (signers (n + 1)) (n + 1)

def attendance (signers : Nat → List Address) : Nat → Signings
  | 0 => []
  | n + 1 => ((signers (n + 1)).map (·, n + 1)).reverse ++ attendance signers n

theorem mem_attendance (signers : Nat → List Address) (n : Nat) {v : Address} {h : Nat}
    (inside : (v, h) ∈ attendance signers n) : h ≤ n ∧ v ∈ signers h := by
  induction n with
  | zero => cases inside
  | succ n ih =>
    rcases List.mem_append.mp inside with here | earlier
    · obtain ⟨w, signed, same⟩ := List.mem_map.mp (List.mem_reverse.mp here)
      obtain ⟨rfl, rfl⟩ := Prod.mk.inj same
      exact ⟨Nat.le_refl _, signed⟩
    · exact ⟨Nat.le_succ_of_le (ih earlier).1, (ih earlier).2⟩

theorem attendance_mem (signers : Nat → List Address) {n h : Nat} {v : Address} (early : h ≤ n)
    (positive : 0 < h) (signed : v ∈ signers h) : (v, h) ∈ attendance signers n := by
  induction n with
  | zero => omega
  | succ n ih =>
    by_cases here : h = n + 1
    · subst here
      exact List.mem_append_left _ (List.mem_reverse.mpr (List.mem_map.mpr ⟨v, signed, rfl⟩))
    · exact List.mem_append_right _ (ih (by omega))

theorem watched_attended (signers : Nat → List Address) (reg : StakeRegistry) (n : Nat) :
    Watched (attendance signers n) ⟨attended signers n, reg⟩ := by
  induction n with
  | zero => exact .fresh reg
  | succ n ih =>
    exact ih.signed (signers (n + 1)) fun e inside =>
      Nat.le_succ_of_le (mem_attendance signers n inside).1

def attendedChain (signers : Nat → List Address) (n : Nat) : Blockchain :=
  { seedChain (bondedSet [firstValidator, secondValidator]) with slashing := attended signers n }

theorem watched_attendedChain (signers : Nat → List Address) (n : Nat) :
    Watched (attendance signers n) (attendedChain signers n).bench :=
  watched_attended signers _ n

theorem newest_attendance (signers : Nat → List Address) (n : Nat) :
    ∀ e ∈ attendance signers n, e.2 ≤ n :=
  fun _ inside => (mem_attendance signers n inside).1

/-- The second validator signs the first block of the epoch and no other. -/
theorem absent_after_first_block_caught :
    let signers := fun h => if h = 1 then [firstValidator, secondValidator] else [firstValidator]
    let after := finalState (runEpochBookkeeping .off 28799) (attendedChain signers 28799)
    ∃ new, after.stakeRegistry.getValidator secondValidator = some new ∧
      Caught 28799 (bonded secondValidator) new := by
  intro signers after
  have first : (secondValidator, 1) ∈ attendance signers 28799 :=
    attendance_mem signers (by decide) (by decide) (by decide)
  have absent : ∀ h, 28799 - livenessWindow < h → (secondValidator, h) ∉ attendance signers 28799 := by
    intro h late inside
    have signed := (mem_attendance signers 28799 inside).2
    have later : h ≠ 1 := by
      unfold livenessWindow at late
      omega
    simp only [signers, if_neg later] at signed
    exact absurd signed (by decide)
  refine (downtime_caught_iff .off (watched_attendedChain signers 28799)
    (newest_attendance signers 28799) (by decide) rfl rfl ?_).mpr
    ⟨by decide, 1, first, by decide⟩
  rw [signedWithin_eq_zero absent]
  decide

/-- The second validator signs nothing at all in the epoch; it is in the set and free all the
time, and stays so. -/
theorem silent_validator_not_caught :
    let signers := fun _ => [firstValidator]
    let bc := attendedChain signers 28799
    Watched (attendance signers 28799) bc.bench ∧ EpochManager.isEpochBoundary 28799 = true ∧
      (∀ n, secondValidator ∈ (attendedChain signers n).stakeRegistry.activeSet ∧
        (attendedChain signers n).stakeRegistry.getValidator secondValidator =
          some (bonded secondValidator)) ∧
      secondValidator ∈ bc.stakeRegistry.computeActiveSet ∧
      signedWithin (attendance signers 28799) secondValidator (28799 - livenessWindow) 28799 = 0 ∧
      (finalState (runEpochBookkeeping .off 28799) bc).stakeRegistry.getValidator secondValidator =
        some (bonded secondValidator) ∧ (bonded secondValidator).isJailed = false := by
  intro signers bc
  have never : ∀ h, (secondValidator, h) ∉ attendance signers 28799 := by
    intro h inside
    have signed : secondValidator ∈ [firstValidator] := (mem_attendance signers 28799 inside).2
    exact absurd signed (by decide)
  have watched := watched_attendedChain signers 28799
  refine ⟨watched, by decide, fun n => ⟨?_, rfl⟩, by decide,
    signedWithin_eq_zero fun h _ => never h, ?_, rfl⟩
  · show secondValidator ∈ [firstValidator, secondValidator]
    decide
  · exact never_signed_kept .off watched (newest_attendance signers 28799) (by decide) never

end Blockchain
end SentrixCore
