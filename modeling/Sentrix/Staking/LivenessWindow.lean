import Sentrix.Staking.Downtime

/-!
The trimmed window against the whole history. The tracker keeps at most a window of
records for a validator and drops the oldest; a query reads the records of the last
window of heights.
-/
namespace SentrixStaking
open SentrixPrimitives List

namespace LivenessTracker

/-- Beside `Tracks`: every record is a signature, there is at most a window of them, what is
missing is older than what is there, and of what was recorded since the validator's
window was last cleared something is missing only when the window is full. -/
structure Kept (history since : Signings) (t : LivenessTracker) : Prop where
  signed : ∀ v, ∀ r ∈ t.entries v, r.signed = true
  short : ∀ v, (t.entries v).length ≤ livenessWindow
  recent : ∀ v h, (v, h) ∈ history →
    (∃ r ∈ t.entries v, r.height = h) ∨ ∀ r ∈ t.entries v, h < r.height
  full : ∀ v h, (v, h) ∈ since →
    (∃ r ∈ t.entries v, r.height = h) ∨ livenessWindow ≤ (t.entries v).length

def counted (t : LivenessTracker) (validator : Address) (cutoff : Nat) : List LivenessRecord :=
  (t.entries validator).filter fun r => r.signed && cutoff < r.height

section
variable {history since : Signings} {t : LivenessTracker} {validator v : Address}
  {height cutoff : Nat}

/-- Records in order above a height leave room for their number below the top. -/
theorem room_above {l : List LivenessRecord} {h top : Nat}
    (ordered : l.Pairwise fun r s => r.height < s.height) (above : ∀ r ∈ l, h < r.height)
    (below : ∀ r ∈ l, r.height ≤ top) (low : h ≤ top) : h + l.length ≤ top := by
  induction l generalizing h with
  | nil => exact low
  | cons r rest ih =>
    obtain ⟨first, later⟩ := List.pairwise_cons.mp ordered
    have here := above r mem_cons_self
    have room := ih later first (fun s inside => below s (mem_cons_of_mem _ inside))
      (below r mem_cons_self)
    rw [length_cons]
    omega

/-- What a cut to the window takes away is older than what it leaves, and it leaves a window. -/
theorem kept_or_cut {l : List LivenessRecord} (window : Nat)
    (ordered : l.Pairwise fun r s => r.height < s.height) {r : LivenessRecord} (inside : r ∈ l) :
    r ∈ l.drop (l.length - window) ∨
      (∀ s ∈ l.drop (l.length - window), r.height < s.height) ∧
        (l.drop (l.length - window)).length = window := by
  rw [← take_append_drop (l.length - window) l] at ordered inside
  rcases List.mem_append.mp inside with early | late
  · refine .inr ⟨fun s kept => (List.pairwise_append.mp ordered).2.2 r early s kept, ?_⟩
    have some : 0 < (l.take (l.length - window)).length := length_pos_of_mem early
    rw [length_take] at some
    rw [length_drop]
    omega
  · exact .inl late

theorem length_cut (l : List LivenessRecord) (window : Nat) :
    (l.drop (l.length - window)).length = min l.length window := by
  rw [length_drop]
  omega

theorem last_kept (l : List LivenessRecord) (r : LivenessRecord) {window : Nat}
    (positive : 0 < window) : r ∈ (l ++ [r]).drop ((l ++ [r]).length - window) := by
  rw [drop_append_of_le_length (by simp; omega)]
  exact mem_append_right _ mem_cons_self

theorem kept_new : Kept [] [] .new :=
  ⟨fun _ _ inside => (nomatch inside), fun _ => Nat.zero_le _,
    fun _ _ inside => (nomatch inside), fun _ _ inside => (nomatch inside)⟩

theorem last_height {l : List LivenessRecord} (same : l.getLast?.map (·.height) = some height) :
    ∃ r ∈ l, r.height = height := by
  obtain ⟨r, last, rfl⟩ := Option.map_eq_some_iff.mp same
  exact ⟨r, mem_of_getLast? last, rfl⟩

theorem Kept.recordSigned (kept : Kept history since t) (tracks : Tracks history t)
    (newest : ∀ e ∈ history, e.2 ≤ height) (validator : Address) :
    Kept ((validator, height) :: history) ((validator, height) :: since)
      (t.recordSigned validator height) := by
  have window : 0 < livenessWindow := by decide
  by_cases again : (t.entries validator).getLast?.map (·.height) = some height
  · -- a repeated height writes nothing
    have same : ∀ v, (t.recordSigned validator height).entries v = t.entries v := by
      intro v
      rw [entries_recordSigned, if_pos again]
      split
      · rename_i here
        rw [here]
      · rfl
    refine ⟨?_, ?_, ?_, ?_⟩
    · intro v r inside
      exact kept.signed v r (same v ▸ inside)
    · intro v
      rw [same]
      exact kept.short v
    · intro v h inside
      rw [same]
      rcases List.mem_cons.mp inside with here | earlier
      · obtain ⟨rfl, rfl⟩ := Prod.mk.inj here
        exact .inl (last_height again)
      · exact kept.recent v h earlier
    · intro v h inside
      rw [same]
      rcases List.mem_cons.mp inside with here | earlier
      · obtain ⟨rfl, rfl⟩ := Prod.mk.inj here
        exact .inl (last_height again)
      · exact kept.full v h earlier
  · have ordered := tracks.grown_ordered newest again
    have others : ∀ v ≠ validator,
        (t.recordSigned validator height).entries v = t.entries v := by
      intro v other
      rw [entries_recordSigned, if_neg other]
    have own : (t.recordSigned validator height).entries validator =
        (t.entries validator ++ [LivenessRecord.mk height true]).drop
          ((t.entries validator ++ [LivenessRecord.mk height true]).length - livenessWindow) := by
      rw [entries_recordSigned, if_pos rfl, if_neg again]
    have fresh : LivenessRecord.mk height true ∈ (t.recordSigned validator height).entries validator := by
      rw [own]
      exact last_kept _ _ window
    refine ⟨?_, ?_, ?_, ?_⟩
    · intro v r inside
      by_cases here : v = validator
      · subst here
        rw [own] at inside
        rcases List.mem_append.mp (mem_of_mem_drop inside) with old | new
        · exact kept.signed v r old
        · rw [List.mem_singleton.mp new]
      · exact kept.signed v r (others v here ▸ inside)
    · intro v
      by_cases here : v = validator
      · subst here
        rw [own, length_cut]
        exact Nat.min_le_right _ _
      · rw [others v here]
        exact kept.short v
    · intro v h inside
      by_cases here : v = validator
      · subst here
        by_cases now : h = height
        · exact .inl ⟨_, fresh, now.symm⟩
        have earlier : (v, h) ∈ history := by
          rcases List.mem_cons.mp inside with same | earlier
          · exact absurd (Prod.mk.inj same).2 now
          · exact earlier
        have early : h < height := by
          have := newest _ earlier
          omega
        rcases kept.recent v h earlier with ⟨r, member, rfl⟩ | older
        · rcases kept_or_cut livenessWindow ordered (mem_append_left _ member) with stays | cut
          · exact .inl ⟨r, own ▸ stays, rfl⟩
          · exact .inr (own ▸ cut.1)
        · refine .inr fun r member => ?_
          rw [own] at member
          rcases List.mem_append.mp (mem_of_mem_drop member) with old | new
          · exact older r old
          · rw [List.mem_singleton.mp new]
            exact early
      · rw [others v here]
        rcases List.mem_cons.mp inside with same | earlier
        · exact absurd (Prod.mk.inj same).1 here
        · exact kept.recent v h earlier
    · intro v h inside
      by_cases here : v = validator
      · subst here
        rcases List.mem_cons.mp inside with same | earlier
        · obtain ⟨-, rfl⟩ := Prod.mk.inj same
          exact .inl ⟨_, fresh, rfl⟩
        rcases kept.full v h earlier with ⟨r, member, rfl⟩ | crowded
        · rcases kept_or_cut livenessWindow ordered (mem_append_left _ member) with stays | cut
          · exact .inl ⟨r, own ▸ stays, rfl⟩
          · exact .inr (own ▸ cut.2.ge)
        · refine .inr ?_
          rw [own, length_cut, length_append]
          omega
      · rw [others v here]
        rcases List.mem_cons.mp inside with same | earlier
        · exact absurd (Prod.mk.inj same).1 here
        · exact kept.full v h earlier

theorem Kept.reset (kept : Kept history since t) (validator : Address) :
    Kept history (since.filter (·.1 ≠ validator)) (t.reset validator) := by
  refine ⟨?_, ?_, ?_, ?_⟩
  · intro v r inside
    rw [entries_reset] at inside
    split at inside
    · cases inside
    · exact kept.signed v r inside
  · intro v
    rw [entries_reset]
    split
    · exact Nat.zero_le _
    · exact kept.short v
  · intro v h inside
    rw [entries_reset]
    split
    · exact .inr fun r member => nomatch member
    · exact kept.recent v h inside
  · intro v h inside
    obtain ⟨recorded, other⟩ := List.mem_filter.mp inside
    rw [entries_reset, if_neg (by simpa using other)]
    exact kept.full v h recorded

theorem kept_signers (signers : List Address) :
    ∀ {history since : Signings} {t : LivenessTracker}, Tracks history t → Kept history since t →
      (∀ e ∈ history, e.2 ≤ height) →
        Kept ((signers.map (·, height)).reverse ++ history)
          ((signers.map (·, height)).reverse ++ since)
          (signers.foldl (fun t v => t.recordSigned v height) t) := by
  induction signers with
  | nil => exact fun _ kept _ => kept
  | cons v rest ih =>
    intro history since t tracks kept newest
    have grown : ∀ e ∈ (v, height) :: history, e.2 ≤ height := by
      intro e inside
      rcases List.mem_cons.mp inside with rfl | earlier
      · exact Nat.le_refl _
      · exact newest e earlier
    have all := ih (tracks.recordSigned newest v) (kept.recordSigned tracks newest v) grown
    rw [map_cons, reverse_cons, append_assoc, append_assoc]
    exact all

/-- Heights of the window that were recorded since the last clearing are all counted. -/
theorem Kept.all_counted (kept : Kept history since t) (tracks : Tracks history t)
    (newest : ∀ e ∈ history, e.2 ≤ height) {heights : Finset Nat}
    (inside : ∀ h ∈ heights, height - livenessWindow < h ∧ (validator, h) ∈ since ∧
      (validator, h) ∈ history) :
    heights.card ≤ (t.counted validator (height - livenessWindow)).length := by
  have recorded : heights ⊆
      ((t.counted validator (height - livenessWindow)).map (·.height)).toFinset := by
    intro h member
    obtain ⟨late, own, known⟩ := inside h member
    have held : ∃ r ∈ t.entries validator, r.height = h := by
      rcases kept.recent validator h known with found | older
      · exact found
      rcases kept.full validator h own with found | crowded
      · exact found
      · -- a full window of later records does not fit between this height and the query
        have room := room_above (tracks.ordered validator) older
          (fun r member => newest _ (tracks.signed validator r member)) (newest _ known)
        omega
    obtain ⟨r, held, rfl⟩ := held
    refine List.mem_toFinset.mpr (List.mem_map.mpr ⟨r, List.mem_filter.mpr ⟨held, ?_⟩, rfl⟩)
    simp [kept.signed validator r held, late]
  calc heights.card ≤ _ := Finset.card_le_card recorded
    _ ≤ ((t.counted validator (height - livenessWindow)).map (·.height)).length :=
      toFinset_card_le _
    _ = _ := length_map _

/-- Without a clearing in between, the window counts what was signed. -/
theorem Kept.counted_eq (kept : Kept history history t) (tracks : Tracks history t)
    (newest : ∀ e ∈ history, e.2 ≤ height) (validator : Address) :
    (t.counted validator (height - livenessWindow)).length =
      signedWithin history validator (height - livenessWindow) height := by
  refine Nat.le_antisymm (tracks.counted newest validator _) ?_
  apply kept.all_counted tracks newest
  intro h member
  obtain ⟨range, signed⟩ := Finset.mem_filter.mp member
  exact ⟨(Finset.mem_Ioc.mp range).1, signed, signed⟩

theorem isDowntimeAt_eq (t : LivenessTracker) (validator : Address) (height : Nat) :
    t.isDowntimeAt validator height = true ↔ livenessWindow ≤ height ∧
      ∃ first, t.firstSeen.lookup validator = some first ∧ first ≤ height - livenessWindow ∧
        (t.counted validator (height - livenessWindow)).length < minSignedPerWindow := by
  unfold isDowntimeAt counted entries
  by_cases young : height < livenessWindow
  · rw [if_pos young]
    exact iff_of_false Bool.false_ne_true fun down => absurd young (Nat.not_lt.mpr down.1)
  rw [if_neg young]
  cases seen : t.firstSeen.lookup validator with
  | none => exact iff_of_false Bool.false_ne_true fun ⟨_, _, found, _⟩ => nomatch found
  | some first =>
    dsimp only
    split
    · rename_i late
      refine iff_of_false Bool.false_ne_true fun ⟨_, first', found, early, _⟩ => ?_
      cases found
      exact absurd late (Nat.not_lt.mpr early)
    · rename_i early
      rw [decide_eq_true_iff]
      constructor
      · exact fun few => ⟨Nat.not_lt.mp young, first, rfl, Nat.not_lt.mp early, few⟩
      · rintro ⟨-, -, -, -, few⟩
        exact few

/-- Clearing windows acquits nobody. -/
theorem isDowntimeAt_reset (down : t.isDowntimeAt v height = true) :
    (t.reset validator).isDowntimeAt v height = true := by
  obtain ⟨grown, first, seen, early, few⟩ := (isDowntimeAt_eq t v height).mp down
  refine (isDowntimeAt_eq _ v height).mpr ⟨grown, first, seen, early, ?_⟩
  unfold counted
  rw [entries_reset]
  split
  · exact (by decide : 0 < minSignedPerWindow)
  · exact few

def recordAll (calls : Signings) : LivenessTracker :=
  calls.foldl (fun t c => t.recordSigned c.1 c.2) .new

def firstSignature (calls : Signings) (validator : Address) : Option Nat :=
  (calls.find? (·.1 == validator)).map (·.2)

/-- The verdict that counts distinct heights over everything ever recorded. -/
def untrimmedVerdict (calls : Signings) (validator : Address) (height : Nat) : Bool :=
  if height < livenessWindow then false
  else
    match firstSignature calls validator with
    | none => false
    | some first =>
      if height - livenessWindow < first then false
      else signedWithin calls validator (height - livenessWindow) height < minSignedPerWindow

theorem untrimmedVerdict_eq (calls : Signings) (validator : Address) (height : Nat) :
    untrimmedVerdict calls validator height = true ↔ livenessWindow ≤ height ∧
      ∃ first, firstSignature calls validator = some first ∧ first ≤ height - livenessWindow ∧
        signedWithin calls validator (height - livenessWindow) height < minSignedPerWindow := by
  unfold untrimmedVerdict
  by_cases young : height < livenessWindow
  · rw [if_pos young]
    exact iff_of_false Bool.false_ne_true fun down => absurd young (Nat.not_lt.mpr down.1)
  rw [if_neg young]
  cases seen : firstSignature calls validator with
  | none => exact iff_of_false Bool.false_ne_true fun ⟨_, _, found, _⟩ => nomatch found
  | some first =>
    dsimp only
    by_cases late : height - livenessWindow < first
    · rw [if_pos late]
      refine iff_of_false Bool.false_ne_true fun ⟨_, first', found, early, _⟩ => ?_
      cases found
      exact absurd late (Nat.not_lt.mpr early)
    · rw [if_neg late, decide_eq_true_iff]
      constructor
      · exact fun few => ⟨Nat.not_lt.mp young, first, rfl, Nat.not_lt.mp late, few⟩
      · rintro ⟨-, -, -, -, few⟩
        exact few

theorem firstSeen_fold (calls : Signings) (validator : Address) :
    ∀ t : LivenessTracker,
      (calls.foldl (fun t c => t.recordSigned c.1 c.2) t).firstSeen.lookup validator =
        (t.firstSeen.lookup validator).or (firstSignature calls validator) := by
  induction calls with
  | nil => exact fun t => (Option.or_none).symm
  | cons c rest ih =>
    intro t
    rw [foldl_cons, ih, firstSeen_recordSigned]
    unfold firstSignature
    by_cases here : validator = c.1
    · rw [if_pos here, List.find?_cons_of_pos (by simpa using here.symm), ← here]
      cases t.firstSeen.lookup validator <;> rfl
    · rw [if_neg here, List.find?_cons_of_neg (by simpa using Ne.symm here)]

theorem entries_fold (calls : Signings) (validator : Address) :
    ∀ t t' : LivenessTracker, t.entries validator = t'.entries validator →
      (calls.foldl (fun t c => t.recordSigned c.1 c.2) t).entries validator =
        ((calls.filter (·.1 == validator)).foldl
          (fun t c => t.recordSigned c.1 c.2) t').entries validator := by
  induction calls with
  | nil => exact fun _ _ same => same
  | cons c rest ih =>
    intro t t' same
    by_cases here : c.1 = validator
    · subst here
      rw [filter_cons_of_pos (by simp), foldl_cons, foldl_cons]
      apply ih
      rw [entries_recordSigned, entries_recordSigned, same]
    · rw [filter_cons_of_neg (by simpa using here), foldl_cons]
      apply ih
      rw [entries_recordSigned, if_neg (Ne.symm here), same]

theorem recordAll_snoc (calls : Signings) (c : Address × Nat) :
    recordAll (calls ++ [c]) = (recordAll calls).recordSigned c.1 c.2 := by
  unfold recordAll
  rw [foldl_append, foldl_cons, foldl_nil]

/-- Calls at heights that never go back. -/
theorem recordAll_sound (calls : Signings) (ordered : calls.Pairwise fun c d => c.2 ≤ d.2) :
    Tracks calls.reverse (recordAll calls) ∧
      Kept calls.reverse calls.reverse (recordAll calls) := by
  induction calls using reverseRecOn with
  | nil => exact ⟨tracks_new, kept_new⟩
  | append_singleton calls c ih =>
    obtain ⟨early, -, below⟩ := List.pairwise_append.mp ordered
    obtain ⟨tracks, kept⟩ := ih early
    have newest : ∀ e ∈ calls.reverse, e.2 ≤ c.2 :=
      fun e inside => below e (List.mem_reverse.mp inside) c mem_cons_self
    rw [recordAll_snoc, reverse_append]
    exact ⟨tracks.recordSigned newest c.1, kept.recordSigned tracks newest c.1⟩

theorem signedWithin_congr {calls calls' : Signings}
    (same : ∀ h, (validator, h) ∈ calls ↔ (validator, h) ∈ calls') (cutoff height : Nat) :
    signedWithin calls validator cutoff height = signedWithin calls' validator cutoff height := by
  unfold signedWithin
  exact congrArg Finset.card (Finset.filter_congr fun h _ => same h)

/-- Trimming by number never changes a verdict by height. -/
theorem trimmed_verdict_eq_untrimmed {calls : Signings}
    (ordered : (calls.filter (·.1 == validator)).Pairwise fun c d => c.2 ≤ d.2)
    (reached : ∀ h, (validator, h) ∈ calls → h ≤ height) :
    (recordAll calls).isDowntimeAt validator height = untrimmedVerdict calls validator height := by
  set own := calls.filter (·.1 == validator) with owned
  have member : ∀ e, e ∈ own.reverse ↔ e ∈ calls ∧ e.1 = validator := by
    intro e
    rw [mem_reverse, owned, mem_filter, beq_iff_eq]
  obtain ⟨tracks, kept⟩ := recordAll_sound own ordered
  have newest : ∀ e ∈ own.reverse, e.2 ≤ height := by
    intro e inside
    obtain ⟨called, rfl⟩ := (member e).mp inside
    exact reached e.2 called
  -- the count over the validator's own calls is the count over all of them
  have count : ((recordAll calls).counted validator (height - livenessWindow)).length =
      signedWithin calls validator (height - livenessWindow) height := by
    have same : (recordAll calls).counted validator (height - livenessWindow) =
        (recordAll own).counted validator (height - livenessWindow) := by
      unfold counted
      rw [show (recordAll calls).entries validator = (recordAll own).entries validator from
        entries_fold calls validator .new .new rfl]
    rw [same, kept.counted_eq tracks newest]
    exact signedWithin_congr (fun h => (member (validator, h)).trans (and_iff_left rfl)) _ _
  have first : (recordAll calls).firstSeen.lookup validator = firstSignature calls validator :=
    firstSeen_fold calls validator .new
  rw [Bool.eq_iff_iff, isDowntimeAt_eq, untrimmedVerdict_eq, count, first]

end

/-- A validator that signs one block, and again by a second report, and is then away. -/
theorem lone_signature_down :
    let calls : Signings := [("v", 1), ("w", 3), ("v", 1), ("w", 2)]
    (recordAll calls).isDowntimeAt "v" 20000 = untrimmedVerdict calls "v" 20000 ∧
      (recordAll calls).isDowntimeAt "v" 20000 = true := by
  intro calls
  have reached : ∀ e ∈ calls, e.2 ≤ 20000 := by decide
  exact ⟨trimmed_verdict_eq_untrimmed (by decide) fun h inside => reached _ inside,
    by decide⟩

end LivenessTracker

namespace SlashingEngine
open LivenessTracker (Tracks Kept)

section
variable {history : Signings} {b : Bench} {height : Nat}

theorem Watched.kept (watched : Watched history b) :
    ∃ since, Kept history since b.engine.liveness := by
  induction watched with
  | fresh => exact ⟨[], LivenessTracker.kept_new⟩
  | @quiet history b after _ step ih =>
    obtain ⟨since, kept⟩ := ih
    cases step with
    | call | claimed | dropped => exact ⟨since, kept⟩
    | judged e same =>
      refine ⟨since, ?_⟩
      show Kept history since e.liveness
      rw [same]
      exact kept
    | cleared validator => exact ⟨_, kept.reset validator⟩
  | signed watched signers newest ih =>
    obtain ⟨since, kept⟩ := ih
    exact ⟨_, LivenessTracker.kept_signers signers watched.tracks kept newest⟩

theorem mem_computeJailEvidence {e : SlashingEngine} {activeSet : List Address}
    {evidence : JailEvidence} :
    evidence ∈ e.computeJailEvidence activeSet height ↔
      ∃ v ∈ activeSet, e.liveness.isDowntimeAt v height = true ∧
        evidence = ⟨v, (e.liveness.getStats v).1, (e.liveness.getStats v).2, []⟩ := by
  unfold computeJailEvidence
  rw [mem_map]
  constructor
  · rintro ⟨v, member, rfl⟩
    obtain ⟨inside, down⟩ := List.mem_filter.mp member
    exact ⟨v, inside, down, rfl⟩
  · rintro ⟨v, inside, down, rfl⟩
    exact ⟨v, List.mem_filter.mpr ⟨inside, down⟩, rfl⟩

/-- Nothing but signatures is on record, so nothing is ever reported missed. -/
theorem getStats_eq {since : Signings} {t : LivenessTracker} (kept : Kept history since t)
    (v : Address) : t.getStats v = ((t.entries v).length, 0) := by
  have all : (t.entries v).filter (·.signed) = t.entries v :=
    List.filter_eq_self.mpr (kept.signed v)
  have none : (t.entries v).filter (!·.signed) = [] :=
    List.filter_eq_nil_iff.mpr fun r inside => by simp [kept.signed v r inside]
  show (((t.entries v).filter (·.signed)).length, ((t.entries v).filter (!·.signed)).length) = _
  rw [all, none, length_nil]

/-- With every height of the window signed and a window of records, none of them is older. -/
theorem records_inside {since : Signings} {t : LivenessTracker} (kept : Kept history since t)
    {v : Address} (grown : livenessWindow ≤ height)
    (all : signedWithin history v (height - livenessWindow) height = livenessWindow)
    (many : (t.entries v).length = livenessWindow) :
    ∀ r ∈ t.entries v, height - livenessWindow < r.height := by
  intro r inside
  by_contra old
  have card : (Finset.Ioc (height - livenessWindow) height).card = livenessWindow := by
    rw [Nat.card_Ioc]
    omega
  have signed : ∀ h ∈ Finset.Ioc (height - livenessWindow) height, (v, h) ∈ history :=
    Finset.card_filter_eq_iff.mp (all.trans card.symm)
  have recorded : insert r.height (Finset.Ioc (height - livenessWindow) height) ⊆
      ((t.entries v).map (·.height)).toFinset := by
    intro h member
    rw [mem_toFinset, mem_map]
    rcases Finset.mem_insert.mp member with rfl | range
    · exact ⟨r, inside, rfl⟩
    · rcases kept.recent v h (signed h range) with found | older
      · exact found
      · have := older r inside
        have := (Finset.mem_Ioc.mp range).1
        omega
  have bound := (Finset.card_le_card recorded).trans (toFinset_card_le _)
  rw [Finset.card_insert_of_notMem (fun range => old (Finset.mem_Ioc.mp range).1), card,
    length_map, many] at bound
  omega

def TrueCounts (history : Signings) (height : Nat) (evidence : JailEvidence) : Prop :=
  evidence.signedCount =
      signedWithin history evidence.validator (height - livenessWindow) height ∧
    evidence.missedCount = livenessWindow - evidence.signedCount

/-- No entry is ever right: the missed blocks are reported as none, which is right only for
a validator that signed the whole window, and such a one is not reported. -/
theorem evidence_untrue (watched : Watched history b)
    {activeSet : List Address} {evidence : JailEvidence}
    (produced : evidence ∈ b.engine.computeJailEvidence activeSet height) :
    ¬ TrueCounts history height evidence := by
  obtain ⟨since, kept⟩ := watched.kept
  obtain ⟨v, -, down, rfl⟩ := mem_computeJailEvidence.mp produced
  obtain ⟨grown, first, -, -, few⟩ := (LivenessTracker.isDowntimeAt_eq _ _ _).mp down
  rw [getStats_eq kept]
  rintro ⟨signedTrue, missedTrue⟩
  change (b.engine.liveness.entries v).length = _ at signedTrue
  change 0 = livenessWindow - (b.engine.liveness.entries v).length at missedTrue
  have many : (b.engine.liveness.entries v).length = livenessWindow := by
    have := kept.short v
    omega
  have inside := records_inside kept grown (signedTrue.symm.trans many) many
  have whole : b.engine.liveness.counted v (height - livenessWindow) = b.engine.liveness.entries v :=
    List.filter_eq_self.mpr fun r member => by simp [kept.signed v r member, inside r member]
  rw [whole, many] at few
  exact absurd few (by decide)

/-- The counts of all entries are true exactly when nobody is found down and there are none. -/
theorem evidence_counts_true_iff (watched : Watched history b) (activeSet : List Address)
    (height : Nat) :
    (∀ evidence ∈ b.engine.computeJailEvidence activeSet height,
        TrueCounts history height evidence) ↔
      ∀ v ∈ activeSet, b.engine.liveness.isDowntimeAt v height = false := by
  constructor
  · intro honest v inside
    apply Bool.eq_false_iff.mpr
    intro down
    have produced := mem_computeJailEvidence.mpr ⟨v, inside, down, rfl⟩
    exact evidence_untrue watched produced (honest _ produced)
  · intro up evidence produced
    obtain ⟨v, inside, down, rfl⟩ := mem_computeJailEvidence.mp produced
    rw [up v inside] at down
    cases down

end

def signedOnce (height : Nat) : Bench :=
  ⟨SlashingEngine.new.recordBlockSignatures ["v"] height, .new⟩

theorem watched_signedOnce (height : Nat) : Watched [("v", height)] (signedOnce height) :=
  (Watched.fresh .new).signed ["v"] fun _ inside => nomatch inside

/-- A newcomer is in its grace, nothing is reported and nothing is wrong. -/
theorem newcomer_counts_true :
    (∀ v ∈ ["v"], (signedOnce 28000).engine.liveness.isDowntimeAt v 28799 = false) ∧
      ∀ evidence ∈ (signedOnce 28000).engine.computeJailEvidence ["v"] 28799,
        TrueCounts [("v", 28000)] 28799 evidence := by
  have up : ∀ v ∈ ["v"], (signedOnce 28000).engine.liveness.isDowntimeAt v 28799 = false := by
    decide
  exact ⟨up, (evidence_counts_true_iff (watched_signedOnce 28000) ["v"] 28799).mpr up⟩

/-- Of a validator that signed block 1 alone, the evidence at the end of the first epoch says
that it signed one block of the window and missed none. -/
theorem absentee_reported_without_misses :
    (signedOnce 1).engine.computeJailEvidence ["v"] 28799 = [⟨"v", 1, 0, []⟩] ∧
      signedWithin [("v", 1)] "v" (28799 - livenessWindow) 28799 = 0 ∧
      ¬ TrueCounts [("v", 1)] 28799 ⟨"v", 1, 0, []⟩ := by
  have none : signedWithin [("v", 1)] "v" (28799 - livenessWindow) 28799 = 0 := by
    apply signedWithin_eq_zero
    intro h late inside
    have first : h = 1 := by simpa using inside
    rw [first] at late
    exact absurd late (by decide)
  refine ⟨by decide, none, fun counts => ?_⟩
  have wrong : 1 = signedWithin [("v", 1)] "v" (28799 - livenessWindow) 28799 := counts.1
  rw [none] at wrong
  cases wrong

end SlashingEngine
end SentrixStaking
