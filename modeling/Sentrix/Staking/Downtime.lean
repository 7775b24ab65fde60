import Sentrix.Staking.BenchSteps
import Mathlib.Order.Interval.Finset.Nat

/-!
What the tracker knows about the signing history. It holds, for each validator, some of
the heights it signed, each once and in order, and the first height at which it was ever
seen.
-/
namespace SentrixStaking
open MachineWords Effects SentrixPrimitives List
open Relation (ReflTransGen)

/-- Who signed which height, newest first. -/
abbrev Signings := List (Address × Nat)

def signedWithin (history : Signings) (validator : Address) (cutoff height : Nat) : Nat :=
  ((Finset.Ioc cutoff height).filter fun h => (validator, h) ∈ history).card

theorem signedWithin_eq_zero {history : Signings} {validator : Address} {cutoff height : Nat}
    (absent : ∀ h, cutoff < h → (validator, h) ∉ history) :
    signedWithin history validator cutoff height = 0 := by
  apply Finset.card_eq_zero.mpr
  apply Finset.filter_eq_empty_iff.mpr
  intro h inside
  exact absent h (Finset.mem_Ioc.mp inside).1

namespace LivenessTracker

def entries (t : LivenessTracker) (validator : Address) : List LivenessRecord :=
  (t.records.lookup validator).getD []

structure Tracks (history : Signings) (t : LivenessTracker) : Prop where
  seen : ∀ v first, t.firstSeen.lookup v = some first → (v, first) ∈ history
  known : ∀ v h, (v, h) ∈ history → ∃ first, t.firstSeen.lookup v = some first ∧ first ≤ h
  ordered : ∀ v, (t.entries v).Pairwise fun r s => r.height < s.height
  signed : ∀ v, ∀ r ∈ t.entries v, (v, r.height) ∈ history

section
variable {history : Signings} {t : LivenessTracker} {validator : Address} {height : Nat}

theorem tracks_new : Tracks [] .new :=
  ⟨fun _ _ found => (nomatch found), fun _ _ inside => (nomatch inside), fun _ => .nil,
    fun _ _ inside => (nomatch inside)⟩

theorem entries_recordSigned (t : LivenessTracker) (validator : Address) (height : Nat)
    (v : Address) : (t.recordSigned validator height).entries v =
      if v = validator then
        if (t.entries validator).getLast?.map (·.height) = some height then t.entries validator
        else (t.entries validator ++ [LivenessRecord.mk height true]).drop
          ((t.entries validator ++ [LivenessRecord.mk height true]).length - livenessWindow)
      else t.entries v := by
  unfold recordSigned entries
  generalize livenessWindow = window
  dsimp only
  by_cases same : v = validator
  · subst same
    rw [if_pos rfl]
    split
    · rw [AList.lookup_insert, Option.getD_some]
    · rw [AList.lookup_insert, Option.getD_some]
  · rw [if_neg same]
    split
    · rw [AList.lookup_insert_ne same]
    · rw [AList.lookup_insert_ne same]

theorem firstSeen_recordSigned (t : LivenessTracker) (validator : Address) (height : Nat)
    (v : Address) : (t.recordSigned validator height).firstSeen.lookup v =
      if v = validator then some ((t.firstSeen.lookup validator).getD height)
      else t.firstSeen.lookup v := by
  have seen : (t.recordSigned validator height).firstSeen =
      t.firstSeen.insert validator ((t.firstSeen.lookup validator).getD height) := by
    unfold recordSigned
    dsimp only
    split <;> rfl
  rw [seen]
  by_cases same : v = validator
  · subst same
    rw [if_pos rfl, AList.lookup_insert]
  · rw [if_neg same, AList.lookup_insert_ne same]

/-- A new height that is not the last one recorded lies above all of them. -/
theorem below_of_ne_last {l : List LivenessRecord}
    (ordered : l.Pairwise fun r s => r.height < s.height) (reach : ∀ r ∈ l, r.height ≤ height)
    (other : l.getLast?.map (·.height) ≠ some height) : ∀ r ∈ l, r.height < height := by
  intro r inside
  rcases eq_nil_or_concat l with rfl | ⟨front, last, rfl⟩
  · cases inside
  · rw [concat_eq_append] at *
    have strict : last.height < height := by
      have bound := reach last (by simp)
      have differs : last.height ≠ height := by simpa using other
      omega
    rcases List.mem_append.mp inside with early | late
    · have before := (List.pairwise_append.mp ordered).2.2 r early last (by simp)
      omega
    · obtain rfl := List.mem_singleton.mp late
      exact strict

theorem Tracks.grown_ordered (tracks : Tracks history t) (newest : ∀ e ∈ history, e.2 ≤ height)
    (other : (t.entries validator).getLast?.map (·.height) ≠ some height) :
    (t.entries validator ++ [LivenessRecord.mk height true]).Pairwise
      fun r s => r.height < s.height := by
  have reach : ∀ r ∈ t.entries validator, r.height ≤ height :=
    fun r inside => newest _ (tracks.signed validator r inside)
  refine List.pairwise_append.mpr ⟨tracks.ordered validator, pairwise_singleton _ _, ?_⟩
  intro r inside s last
  obtain rfl := List.mem_singleton.mp last
  exact below_of_ne_last (tracks.ordered validator) reach other r inside

theorem Tracks.recordSigned (tracks : Tracks history t) (newest : ∀ e ∈ history, e.2 ≤ height)
    (validator : Address) :
    Tracks ((validator, height) :: history) (t.recordSigned validator height) := by
  refine ⟨?_, ?_, ?_, ?_⟩
  · intro v first found
    rw [firstSeen_recordSigned] at found
    split at found
    · rename_i same
      subst same
      obtain rfl := Option.some.inj found
      cases before : t.firstSeen.lookup v with
      | none => exact mem_cons_self
      | some first => exact mem_cons_of_mem _ (tracks.seen v first before)
    · exact mem_cons_of_mem _ (tracks.seen v first found)
  · intro v h inside
    rw [firstSeen_recordSigned]
    rcases List.mem_cons.mp inside with here | earlier
    · obtain ⟨rfl, rfl⟩ := Prod.mk.inj here
      refine ⟨_, if_pos rfl, ?_⟩
      cases before : t.firstSeen.lookup v with
      | none => exact Nat.le_refl _
      | some first => exact newest (v, first) (tracks.seen v first before)
    · obtain ⟨first, found, early⟩ := tracks.known v h earlier
      by_cases same : v = validator
      · subst same
        refine ⟨first, ?_, early⟩
        rw [if_pos rfl, found, Option.getD_some]
      · exact ⟨first, (if_neg same).trans found, early⟩
  · intro v
    rw [entries_recordSigned]
    split
    · split
      · exact tracks.ordered validator
      · rename_i other
        exact (tracks.grown_ordered newest other).sublist (drop_sublist _ _)
    · exact tracks.ordered v
  · intro v r inside
    rw [entries_recordSigned] at inside
    split at inside
    · rename_i same
      subst same
      split at inside
      · exact mem_cons_of_mem _ (tracks.signed v r inside)
      · rcases List.mem_append.mp (mem_of_mem_drop inside) with early | late
        · exact mem_cons_of_mem _ (tracks.signed v r early)
        · obtain rfl := List.mem_singleton.mp late
          exact mem_cons_self
    · exact mem_cons_of_mem _ (tracks.signed v r inside)

theorem entries_reset (t : LivenessTracker) (validator v : Address) :
    (t.reset validator).entries v = if v = validator then [] else t.entries v := by
  unfold LivenessTracker.reset entries
  by_cases same : v = validator
  · subst same
    rw [if_pos rfl, AList.lookup_erase, Option.getD_none]
  · rw [if_neg same, AList.lookup_erase_ne same]

theorem Tracks.reset (tracks : Tracks history t) (validator : Address) :
    Tracks history (t.reset validator) := by
  refine ⟨tracks.seen, tracks.known, ?_, ?_⟩
  · intro v
    rw [entries_reset]
    split
    · exact .nil
    · exact tracks.ordered v
  · intro v r inside
    rw [entries_reset] at inside
    split at inside
    · cases inside
    · exact tracks.signed v r inside

theorem Tracks.counted (tracks : Tracks history t) (newest : ∀ e ∈ history, e.2 ≤ height)
    (validator : Address) (cutoff : Nat) :
    ((t.entries validator).filter fun r => r.signed && cutoff < r.height).length ≤
      signedWithin history validator cutoff height := by
  set counted := (t.entries validator).filter fun r => r.signed && cutoff < r.height with filtered
  have distinct : (counted.map (·.height)).Nodup := by
    have sorted : counted.Pairwise fun r s => r.height < s.height :=
      (tracks.ordered validator).sublist filter_sublist
    exact List.pairwise_map.mpr (sorted.imp fun less => Nat.ne_of_lt less)
  calc counted.length = (counted.map (·.height)).toFinset.card := by
        rw [toFinset_card_of_nodup distinct, length_map]
    _ ≤ signedWithin history validator cutoff height := by
        apply Finset.card_le_card
        intro h inside
        obtain ⟨r, member, rfl⟩ := List.mem_map.mp (List.mem_toFinset.mp inside)
        rw [filtered, mem_filter] at member
        have real := tracks.signed validator r member.1
        have above : cutoff < r.height := by simpa using (Bool.and_eq_true_iff.mp member.2).2
        exact Finset.mem_filter.mpr ⟨Finset.mem_Ioc.mpr ⟨above, newest _ real⟩, real⟩

/-- Too few signatures in the window are downtime exactly for a validator seen before it. -/
theorem Tracks.isDowntimeAt_iff (tracks : Tracks history t) (newest : ∀ e ∈ history, e.2 ≤ height)
    (grown : livenessWindow ≤ height)
    (absent : signedWithin history validator (height - livenessWindow) height <
      minSignedPerWindow) :
    t.isDowntimeAt validator height = true ↔
      ∃ h, (validator, h) ∈ history ∧ h ≤ height - livenessWindow := by
  have few := tracks.counted newest validator (height - livenessWindow)
  unfold isDowntimeAt
  rw [if_neg (Nat.not_lt.mpr grown)]
  cases first : t.firstSeen.lookup validator with
  | none =>
    constructor
    · intro down
      cases down
    · rintro ⟨h, inside, -⟩
      obtain ⟨f, found, -⟩ := tracks.known validator h inside
      rw [first] at found
      cases found
  | some f =>
    have known := tracks.seen validator f first
    dsimp only
    split
    · rename_i late
      constructor
      · intro down
        cases down
      · rintro ⟨h, inside, early⟩
        obtain ⟨f', found, before⟩ := tracks.known validator h inside
        rw [first] at found
        cases found
        omega
    · rename_i early
      refine ⟨fun _ => ⟨f, known, Nat.not_lt.mp early⟩, fun _ => ?_⟩
      exact decide_eq_true (Nat.lt_of_le_of_lt few absent)

theorem isDowntimeAt_reset_of_ne {v : Address} (other : v ≠ validator) :
    (t.reset validator).isDowntimeAt v height = t.isDowntimeAt v height := by
  unfold LivenessTracker.reset isDowntimeAt
  rw [AList.lookup_erase_ne other]

end
end LivenessTracker

namespace SlashingEngine
open LivenessTracker (Tracks)

/-- Benches reached from a fresh engine, with the signatures recorded on the way. Heights
never go back; the same height may be recorded more than once. -/
inductive Watched : Signings → Bench → Prop where
  | fresh (reg : StakeRegistry) : Watched [] ⟨.new, reg⟩
  | quiet {history : Signings} {b after : Bench} (watched : Watched history b)
      (step : QuietStep b after) : Watched history after
  | signed {history : Signings} {b : Bench} (watched : Watched history b)
      (signers : List Address) {height : Nat} (newest : ∀ e ∈ history, e.2 ≤ height) :
      Watched ((signers.map (·, height)).reverse ++ history)
        { b with engine := b.engine.recordBlockSignatures signers height }

section
variable {history : Signings} {b after : Bench} {validator : Address} {height : Nat}

theorem QuietStep.tracks (step : QuietStep b after) (tracks : Tracks history b.engine.liveness) :
    Tracks history after.engine.liveness := by
  cases step with
  | call | claimed | dropped => exact tracks
  | judged e same =>
    show Tracks history e.liveness
    rw [same]
    exact tracks
  | cleared validator => exact tracks.reset validator

theorem tracks_recordBlockSignatures (signers : List Address) :
    ∀ {history : Signings} {t : LivenessTracker}, Tracks history t →
      (∀ e ∈ history, e.2 ≤ height) →
        Tracks ((signers.map (·, height)).reverse ++ history)
          (signers.foldl (fun t v => t.recordSigned v height) t) := by
  induction signers with
  | nil => exact fun tracks _ => tracks
  | cons v rest ih =>
    intro history t tracks newest
    have grown : ∀ e ∈ (v, height) :: history, e.2 ≤ height := by
      intro e inside
      rcases List.mem_cons.mp inside with rfl | earlier
      · exact Nat.le_refl _
      · exact newest e earlier
    have all := ih (tracks.recordSigned newest v) grown
    rw [map_cons, reverse_cons, append_assoc]
    exact all

theorem Watched.tracks (watched : Watched history b) : Tracks history b.engine.liveness := by
  induction watched with
  | fresh => exact LivenessTracker.tracks_new
  | quiet _ step ih => exact step.tracks ih
  | signed _ signers newest ih => exact tracks_recordBlockSignatures signers ih newest

theorem Watched.quietly (watched : Watched history b) (path : ReflTransGen QuietStep b after) :
    Watched history after := by
  induction path with
  | refl => exact watched
  | tail _ step ih => exact ih.quiet step

/-- Slashed by the downtime rate, self-stake first, and jailed from this height on. -/
def Caught (height : Nat) (old new : ValidatorStake) : Prop :=
  new.isJailed = true ∧ new.jailUntil = satAdd64 height downtimeJailBlocks ∧
    new.selfStake = old.selfStake -
      min (StakeRegistry.slashAmount old downtimeSlashBp) old.selfStake

def dossier (validator : Address) (height : Nat) (b : Bench) : Option ValidatorStake × Bool :=
  (b.registry.getValidator validator, b.engine.liveness.isDowntimeAt validator height)

theorem slash_cut {reg cut : StakeRegistry} {old : ValidatorStake} {bp amount : Nat}
    (ran : StakeRegistry.slash validator bp reg = .ok amount cut)
    (found : reg.getValidator validator = some old) :
    ∃ total, cut.getValidator validator = some { StakeRegistry.afterSelfSlash old
      (StakeRegistry.slashAmount old bp) with totalDelegated := total } := by
  obtain ⟨v, found', rfl, rfl⟩ := StakeRegistry.slash_ok ran
  rw [found] at found'
  cases found'
  exact (StakeRegistry.slashDelegations_entry
    (StakeRegistry.getValidator_setValidator reg validator _) _).1

theorem jail_runs {reg : StakeRegistry} {v : ValidatorStake}
    (found : reg.getValidator validator = some v) (duration height : Nat) :
    ∃ jailed, StakeRegistry.jail validator duration height reg = .ok () jailed ∧
      jailed.getValidator validator =
        some { v with isJailed := true, jailUntil := satAdd64 height duration } ∧
      StakeRegistry.OthersKept validator reg jailed := by
  refine ⟨(reg.setValidator validator { v with
    isJailed := true, jailUntil := satAdd64 height duration }).updateActiveSet, ?_,
    StakeRegistry.getValidator_setValidator _ _ _, StakeRegistry.othersKept_setValidator _ _ _⟩
  unfold StakeRegistry.jail StakeRegistry.punish
  exact bind_ok.mpr ⟨reg, reg, rfl, bind_ok.mpr ⟨v, reg, fromOption_ok.mpr ⟨found, rfl⟩, rfl⟩⟩

theorem checkOne_spares {other : Address} (differs : validator ≠ other) :
    dossier validator height (checkOne height b other).1 = dossier validator height b := by
  unfold checkOne
  split
  · rfl
  · split
    · rename_i failed
      rw [(StakeRegistry.slash_error failed).2]
    · rename_i amount reg ran
      obtain ⟨⟨_, cut, -, here, -⟩, others⟩ := StakeRegistry.slash_entry ran
      obtain ⟨jailed, jailing⟩ := jail_runs here downtimeJailBlocks height
      unfold dossier
      dsimp only
      rw [finalState_ok jailing.1, jailing.2.2 validator differs, others validator differs,
        LivenessTracker.isDowntimeAt_reset_of_ne differs]

theorem checkOne_of_not_down {v : Address} (up : b.engine.liveness.isDowntimeAt v height = false) :
    checkOne height b v = (b, none) := by
  unfold checkOne
  rw [up, Bool.not_false, Bool.true_or, if_pos rfl]

theorem sweep_spares (up : (dossier validator height b).2 = false) (set : List Address) :
    dossier validator height (checkLiveness height set b).1 = dossier validator height b := by
  induction set generalizing b with
  | nil => rfl
  | cons v rest ih =>
    show dossier validator height (checkLiveness height rest (checkOne height b v).1).1 = _
    by_cases same : v = validator
    · subst same
      rw [checkOne_of_not_down up]
      exact ih up
    · have kept : dossier validator height (checkOne height b v).1 = dossier validator height b :=
        checkOne_spares (Ne.symm same)
      rw [ih (kept ▸ up), kept]

theorem sweep_absent {set : List Address} (out : validator ∉ set) :
    dossier validator height (checkLiveness height set b).1 = dossier validator height b := by
  induction set generalizing b with
  | nil => rfl
  | cons v rest ih =>
    obtain ⟨differs, out⟩ := not_or.mp (List.mem_cons.not.mp out)
    show dossier validator height (checkLiveness height rest (checkOne height b v).1).1 = _
    rw [ih out, checkOne_spares differs]

theorem checkOne_catches {old : ValidatorStake} (down : dossier validator height b = (some old, true))
    (free : old.isJailed = false) :
    ∃ new, (checkOne height b validator).1.registry.getValidator validator = some new ∧
      Caught height old new := by
  obtain ⟨found, down⟩ := Prod.mk.inj down
  unfold checkOne
  rw [down, found]
  simp only [Bool.not_true, Option.any_some, free, Bool.or_self, Bool.false_eq_true, if_false]
  cases ran : StakeRegistry.slash validator downtimeSlashBp b.registry with
  | error e reg =>
    rw [(StakeRegistry.slash_error ran).1] at found
    cases found
  | ok amount reg =>
    obtain ⟨total, cut⟩ := slash_cut ran found
    obtain ⟨jailed, jailing, record, -⟩ := jail_runs cut downtimeJailBlocks height
    dsimp only
    rw [finalState_ok jailing]
    exact ⟨_, record, rfl, rfl, rfl⟩

theorem sweep_skips_jailed {jailed : ValidatorStake} (serving : jailed.isJailed = true)
    (set : List Address) (found : b.registry.getValidator validator = some jailed) :
    (checkLiveness height set b).1.registry.getValidator validator = some jailed := by
  induction set generalizing b with
  | nil => exact found
  | cons v rest ih =>
    apply ih
    by_cases same : validator = v
    · subst same
      unfold checkOne
      rw [found, Option.any_some, serving, Bool.or_true, if_pos rfl]
      exact found
    · have kept : dossier validator height (checkOne height b v).1 = dossier validator height b :=
        checkOne_spares same
      exact (congrArg Prod.fst kept).trans found

theorem sweep_catches {old : ValidatorStake} (free : old.isJailed = false) {set : List Address}
    (member : validator ∈ set) (down : dossier validator height b = (some old, true)) :
    ∃ new, (checkLiveness height set b).1.registry.getValidator validator = some new ∧
      Caught height old new := by
  induction set generalizing b with
  | nil => cases member
  | cons v rest ih =>
    show ∃ new, (checkLiveness height rest (checkOne height b v).1).1.registry.getValidator
      validator = some new ∧ _
    by_cases same : validator = v
    · subst same
      obtain ⟨new, record, caught⟩ := checkOne_catches down free
      exact ⟨new, sweep_skips_jailed caught.1 rest record, caught⟩
    · have later := (List.mem_cons.mp member).resolve_left same
      exact ih later ((checkOne_spares same).trans down)

/-- The sweep of a validator with too few signatures in the window. -/
theorem sweep_caught_iff (watched : Watched history b) (newest : ∀ e ∈ history, e.2 ≤ height)
    (grown : livenessWindow ≤ height) {old : ValidatorStake}
    (found : b.registry.getValidator validator = some old) (free : old.isJailed = false)
    (absent : signedWithin history validator (height - livenessWindow) height <
      minSignedPerWindow) (set : List Address) :
    (∃ new, (checkLiveness height set b).1.registry.getValidator validator = some new ∧
        Caught height old new) ↔
      validator ∈ set ∧ ∃ h, (validator, h) ∈ history ∧ h ≤ height - livenessWindow := by
  have judged := watched.tracks.isDowntimeAt_iff newest grown absent
  -- an untouched record is not a jailed one
  have untouched (same : dossier validator height (checkLiveness height set b).1 =
      dossier validator height b) :
      ¬ ∃ new, (checkLiveness height set b).1.registry.getValidator validator = some new ∧
        Caught height old new := by
    rintro ⟨new, record, jailed, -⟩
    have kept : (checkLiveness height set b).1.registry.getValidator validator = some old :=
      (congrArg Prod.fst same).trans found
    rw [record] at kept
    cases kept
    rw [free] at jailed
    cases jailed
  by_cases member : validator ∈ set
  · cases down : b.engine.liveness.isDowntimeAt validator height with
    | true =>
      have early := judged.mp down
      have caught := sweep_catches (b := b) free member (Prod.ext found down)
      exact ⟨fun _ => ⟨member, early⟩, fun _ => caught⟩
    | false =>
      have spared := untouched (sweep_spares down set)
      have never : ¬ ∃ h, (validator, h) ∈ history ∧ h ≤ height - livenessWindow := by
        rw [← judged, down]
        exact Bool.false_ne_true
      exact ⟨fun caught => absurd caught spared, fun early => absurd early.2 never⟩
  · have spared := untouched (sweep_absent member)
    exact ⟨fun caught => absurd caught spared, fun both => absurd both.1 member⟩

end
end SlashingEngine
end SentrixStaking
