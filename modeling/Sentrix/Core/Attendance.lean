import Sentrix.Core.EpochSweep
import Sentrix.Staking.LivenessWindow

/-!
A validator after its jail. The sweep that jails it clears its records and leaves the
height at which it was first seen, so it comes back with an empty window and no grace.
-/
namespace SentrixCore
open Effects SentrixPrimitives SentrixStaking List
open SlashingEngine (Bench QuietStep Watched checkLiveness checkOne)
open LivenessTracker (Tracks Kept)

/-- Where the chain with newest block `n` looks for downtime: the sweep of a boundary block,
the evidence of the next block when that is a boundary, computed for it or checked in it. -/
def Checked (n height : Nat) : Prop :=
  height = n ∧ (EpochManager.isEpochBoundary n = true ∨ EpochManager.isEpochBoundary (n + 1) = true) ∨
    height = n + 1 ∧ EpochManager.isEpochBoundary (n + 1) = true

/-- The bench with newest block `n`, from the height at which the validator was unjailed on.
The validator signs every block; windows are cleared only of validators found down. -/
inductive Attending (validator : Address) (since : Nat) : Nat → Bench → Prop where
  | unjailed {history : Signings} {b : Bench} (watched : Watched history b)
      (newest : ∀ e ∈ history, e.2 ≤ since) : Attending validator since since b
  | quiet {n : Nat} {b after : Bench} (run : Attending validator since n b)
      (step : QuietStep b after) (kept : after.engine.liveness = b.engine.liveness) :
      Attending validator since n after
  | block {n : Nat} {b : Bench} (run : Attending validator since n b) {signers : List Address}
      (signed : validator ∈ signers) : Attending validator since (n + 1)
        { b with engine := b.engine.recordBlockSignatures signers (n + 1) }
  | again {n : Nat} {b : Bench} (run : Attending validator since n b) (signers : List Address) :
      Attending validator since n { b with engine := b.engine.recordBlockSignatures signers n }
  | cleared {n height : Nat} {b : Bench} (run : Attending validator since n b)
      (checked : Checked n height) {flagged : Address}
      (down : b.engine.liveness.isDowntimeAt flagged height = true) :
      Attending validator since n { b with
        engine := { b.engine with liveness := b.engine.liveness.reset flagged } }

structure Attended (validator : Address) (since n : Nat) (t : LivenessTracker) : Prop where
  later : since ≤ n
  records : ∃ history kept, Tracks history t ∧ Kept history kept t ∧ (∀ e ∈ history, e.2 ≤ n) ∧
    ∀ h, since < h → h ≤ n → (validator, h) ∈ kept ∧ (validator, h) ∈ history

section
variable {validator : Address} {since n height : Nat} {b after : Bench} {t : LivenessTracker}

/-- The boundaries are so far from the unjail that enough blocks can be signed before them. -/
def Distant (since : Nat) : Prop :=
  ∀ e, EpochManager.isEpochBoundary e = true → since ≤ e → since + minSignedPerWindow < e

theorem Checked.enough (far : Distant since) (later : since ≤ n) (checked : Checked n height) :
    n ≤ height ∧ height ≤ n + 1 ∧ since + minSignedPerWindow ≤ n := by
  rcases checked with ⟨rfl, now | next⟩ | ⟨rfl, next⟩
  · have := far height now later
    omega
  · have := far (height + 1) next (by omega)
    omega
  · have := far (n + 1) next (by omega)
    omega

theorem Attended.up (attended : Attended validator since n t) (far : Distant since)
    (checked : Checked n height) : t.isDowntimeAt validator height = false := by
  apply Bool.eq_false_iff.mpr
  intro down
  obtain ⟨reached, near, enough⟩ := checked.enough far attended.later
  obtain ⟨history, kept, tracks, held, newest, signed⟩ := attended.records
  obtain ⟨grown, first, -, -, few⟩ := (LivenessTracker.isDowntimeAt_eq t validator height).mp down
  have inside : ∀ h ∈ Finset.Ioc (max since (height - livenessWindow)) n,
      height - livenessWindow < h ∧ (validator, h) ∈ kept ∧ (validator, h) ∈ history := by
    intro h range
    obtain ⟨low, high⟩ := Finset.mem_Ioc.mp range
    exact ⟨by omega, signed h (by omega) high⟩
  have bound := held.all_counted tracks (fun e member => (newest e member).trans reached) inside
  rw [Nat.card_Ioc] at bound
  have window : minSignedPerWindow < livenessWindow := by decide
  omega

theorem Attending.attended (far : Distant since) (run : Attending validator since n b) :
    Attended validator since n b.engine.liveness := by
  induction run with
  | unjailed watched newest =>
    obtain ⟨kept, held⟩ := watched.kept
    exact ⟨Nat.le_refl _, _, kept, watched.tracks, held, newest, fun h low high => by omega⟩
  | quiet _ step kept ih =>
    rw [kept]
    exact ih
  | @block n b _ signers signed ih =>
    obtain ⟨later, history, kept, tracks, held, newest, all⟩ := ih
    have below : ∀ e ∈ history, e.2 ≤ n + 1 := fun e inside => Nat.le_succ_of_le (newest e inside)
    have own : (validator, n + 1) ∈ (signers.map (·, n + 1)).reverse :=
      List.mem_reverse.mpr (List.mem_map.mpr ⟨validator, signed, rfl⟩)
    refine ⟨Nat.le_succ_of_le later, _, _,
      SlashingEngine.tracks_recordBlockSignatures signers tracks below,
      LivenessTracker.kept_signers signers tracks held below, ?_, ?_⟩
    · intro e inside
      rcases List.mem_append.mp inside with now | earlier
      · obtain ⟨v, -, rfl⟩ := List.mem_map.mp (List.mem_reverse.mp now)
        exact Nat.le_refl _
      · exact below e earlier
    · intro h low high
      by_cases now : h = n + 1
      · subst now
        exact ⟨mem_append_left _ own, mem_append_left _ own⟩
      · obtain ⟨inKept, inHistory⟩ := all h low (by omega)
        exact ⟨mem_append_right _ inKept, mem_append_right _ inHistory⟩
  | @again n b _ signers ih =>
    obtain ⟨later, history, kept, tracks, held, newest, all⟩ := ih
    refine ⟨later, _, _, SlashingEngine.tracks_recordBlockSignatures signers tracks newest,
      LivenessTracker.kept_signers signers tracks held newest, ?_, ?_⟩
    · intro e inside
      rcases List.mem_append.mp inside with now | earlier
      · obtain ⟨v, -, rfl⟩ := List.mem_map.mp (List.mem_reverse.mp now)
        exact Nat.le_refl _
      · exact newest e earlier
    · intro h low high
      obtain ⟨inKept, inHistory⟩ := all h low high
      exact ⟨mem_append_right _ inKept, mem_append_right _ inHistory⟩
  | @cleared n height b _ checked flagged down ih =>
    -- only another validator's window is cleared
    have other : validator ≠ flagged := by
      rintro rfl
      rw [ih.up far checked] at down
      cases down
    obtain ⟨later, history, kept, tracks, held, newest, all⟩ := ih
    refine ⟨later, history, _, tracks.reset flagged, held.reset flagged, newest, ?_⟩
    intro h low high
    obtain ⟨inKept, inHistory⟩ := all h low high
    exact ⟨List.mem_filter.mpr ⟨inKept, by simpa using other⟩, inHistory⟩

theorem Attending.checkOne (run : Attending validator since n b) (checked : Checked n height)
    (w : Address) : Attending validator since n (SlashingEngine.checkOne height b w).1 := by
  unfold SlashingEngine.checkOne
  split
  · exact run
  · rename_i flagged
    have down : b.engine.liveness.isDowntimeAt w height = true := by
      by_contra up
      exact flagged (by simp [up])
    have cut := QuietStep.call (b := b) (.slash w downtimeSlashBp)
    rw [SlashingEngine.after_slash] at cut
    split
    · rename_i failed
      rw [finalState_error failed] at cut
      exact run.quiet cut rfl
    · rename_i amount reg ran
      rw [finalState_ok ran] at cut
      have jailed := QuietStep.call (b := { b with registry := reg })
        (.jail w downtimeJailBlocks height)
      rw [SlashingEngine.after_jail] at jailed
      exact (((run.quiet cut rfl).quiet jailed rfl).cleared checked down).quiet (.judged _ rfl) rfl

theorem Attending.sweep (checked : Checked n height) (set : List Address) :
    ∀ {b : Bench}, Attending validator since n b →
      Attending validator since n (checkLiveness height set b).1 := by
  induction set with
  | nil => exact fun run => run
  | cons w rest ih => exact fun run => ih (run.checkOne checked w)

theorem Attending.epoch {bc : Blockchain} (run : Attending validator since n bc.bench)
    (boundary : EpochManager.isEpochBoundary n = true) (forks : Forks) :
    Attending validator since n
      (finalState (Blockchain.runEpochBookkeeping forks n) bc).bench := by
  rw [Blockchain.bench_runEpochBookkeeping forks boundary bc]
  exact ((run.quiet (.call (.processUnbonding n)) rfl).quiet (.call .updateActiveSet) rfl).sweep
    (.inl ⟨rfl, .inl boundary⟩) _

/-- The entries of a verified bundle, one after the other. A cleared window is still one of a
validator that is down, so an entry that is named twice changes nothing. -/
theorem Attending.jailAll (checked : Checked n height) (jailHeight : Nat)
    (evidence : List JailEvidence) :
    ∀ {bc : Blockchain}, Attending validator since n bc.bench →
      (∀ e ∈ evidence, bc.slashing.liveness.isDowntimeAt e.validator height = true) →
      Attending validator since n
        (evidence.foldl (Blockchain.applyJailEvidence jailHeight) bc).bench := by
  induction evidence with
  | nil => exact fun run _ => run
  | cons e rest ih =>
    intro bc run flagged
    have jailed := QuietStep.call (b := bc.bench) (.jail e.validator downtimeJailBlocks jailHeight)
    rw [SlashingEngine.after_jail] at jailed
    change QuietStep bc.bench ⟨bc.slashing, finalState
      (StakeRegistry.jail e.validator downtimeJailBlocks jailHeight) bc.stakeRegistry⟩ at jailed
    rw [foldl_cons, Blockchain.applyJailEvidence]
    cases ran : StakeRegistry.jail e.validator downtimeJailBlocks jailHeight bc.stakeRegistry with
    | error =>
      rw [finalState_error ran] at jailed
      exact ih (run.quiet jailed rfl) fun d member => flagged d (mem_cons_of_mem _ member)
    | ok =>
      rw [finalState_ok ran] at jailed
      have down := flagged e mem_cons_self
      refine ih ((run.quiet jailed rfl).cleared checked down) fun d member => ?_
      exact LivenessTracker.isDowntimeAt_reset (flagged d (mem_cons_of_mem _ member))

theorem swept_down {set : List Address} {amount : Nat}
    (up : b.engine.liveness.isDowntimeAt validator height = false) :
    (validator, amount) ∉ (checkLiveness height set b).2 := by
  induction set generalizing b with
  | nil => exact fun listed => nomatch listed
  | cons w rest ih =>
    intro listed
    rcases List.mem_append.mp listed with first | later
    · have named : ∀ found, (SlashingEngine.checkOne height b w).2 = some found → found.1 = w := by
        unfold SlashingEngine.checkOne
        intro found
        split
        · exact fun none => nomatch none
        · split
          · exact fun none => nomatch none
          · rintro ⟨⟩
            rfl
      have found := Option.mem_toList.mp first
      obtain rfl : validator = w := named _ found
      rw [SlashingEngine.checkOne_of_not_down up] at found
      cases found
    · refine ih ?_ later
      by_cases here : validator = w
      · subst here
        rw [SlashingEngine.checkOne_of_not_down up]
        exact up
      · exact (congrArg Prod.snd (SlashingEngine.checkOne_spares here)).trans up

/-- In every run of a validator that signs each block after its unjail, and whose unjail is
more than the required signatures away from every later boundary, neither the sweep nor the
evidence of a boundary names it. -/
theorem attending_not_flagged (far : Distant since) (run : Attending validator since n b)
    (checked : Checked n height) (set : List Address) :
    (∀ amount, (validator, amount) ∉ (checkLiveness height set b).2) ∧
      ∀ evidence ∈ b.engine.computeJailEvidence set height, evidence.validator ≠ validator := by
  have up := (run.attended far).up far checked
  constructor
  · exact fun amount => swept_down up
  · rintro evidence produced rfl
    obtain ⟨v, -, down, rfl⟩ := SlashingEngine.mem_computeJailEvidence.mp produced
    rw [up] at down
    cases down

end

def benched : Bench :=
  ⟨SlashingEngine.new.recordBlockSignatures ["v"] 1,
    (StakeRegistry.new.setValidator "v" { bonded "v" with selfStake := 2 * minSelfStake })⟩

def jailedOnce : Bench := (checkLiveness 28799 ["v"] benched).1

def unjailedAt (height : Nat) : Bench :=
  { jailedOnce with registry := finalState (StakeRegistry.unjail "v" height) jailedOnce.registry }

def signingOn (height : Nat) : Nat → Bench
  | 0 => unjailedAt height
  | k + 1 =>
    let b := signingOn height k
    { b with engine := b.engine.recordBlockSignatures ["v"] (height + k + 1) }

theorem attending_signingOn {height : Nat} (later : 1 ≤ height) (k : Nat) :
    Attending "v" height (height + k) (signingOn height k) := by
  induction k with
  | zero =>
    have signed : Watched [("v", 1)] benched :=
      (Watched.fresh _).signed ["v"] fun _ inside => nomatch inside
    have swept : Watched [("v", 1)] jailedOnce :=
      signed.quietly (SlashingEngine.quiet_checkLiveness 28799 ["v"] benched)
    have freed := swept.quiet (.call (.unjail "v" height))
    have same : (StakeRegistry.Call.unjail "v" height).after jailedOnce.registry =
        finalState (StakeRegistry.unjail "v" height) jailedOnce.registry :=
      StakeRegistry.finalState_then _ _
    rw [same] at freed
    exact .unjailed freed fun e inside => by
      rw [List.mem_singleton.mp inside]
      exact later
  | succ k ih => exact ih.block mem_cons_self

/-- Unjailed right after the second boundary, it is not flagged at the third. -/
theorem early_return_not_flagged :
    Attending "v" 57600 (57600 + 28799) (signingOn 57600 28799) ∧ Checked (57600 + 28799) 86399 ∧
      ∀ set : List Address,
        (∀ amount, ("v", amount) ∉ (checkLiveness 86399 set (signingOn 57600 28799)).2) ∧
        ∀ evidence ∈ (signingOn 57600 28799).engine.computeJailEvidence set 86399,
          evidence.validator ≠ "v" := by
  have run : Attending "v" 57600 (57600 + 28799) (signingOn 57600 28799) :=
    attending_signingOn (by decide) 28799
  have checked : Checked (57600 + 28799) 86399 := .inl ⟨rfl, .inl (by decide)⟩
  have far : Distant 57600 := by
    intro e boundary later
    simp only [EpochManager.isEpochBoundary, epochLength, Bool.and_eq_true, decide_eq_true_eq,
      beq_iff_eq] at boundary
    unfold minSignedPerWindow
    omega
  exact ⟨run, checked, attending_not_flagged far run checked⟩

/-- Unjailed nine blocks before the second boundary, it signs all nine and is flagged there by
the sweep and by the evidence. -/
theorem late_return_flagged :
    ((checkLiveness 28799 ["v"] benched).2.map (·.1) = ["v"] ∧
      succeeds (StakeRegistry.unjail "v" 57590) jailedOnce.registry = true ∧
      (checkLiveness 57599 ["v"] (signingOn 57590 9)).2.map (·.1) = ["v"] ∧
      ((signingOn 57590 9).engine.computeJailEvidence ["v"] 57599).map (·.validator) = ["v"]) ∧
      Attending "v" 57590 57599 (signingOn 57590 9) ∧ Checked 57599 57599 :=
  ⟨by decide, attending_signingOn (by decide) 9, .inl ⟨rfl, .inl (by decide)⟩⟩

end SentrixCore
