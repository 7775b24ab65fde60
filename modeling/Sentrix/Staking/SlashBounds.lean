import Mathlib.Algebra.Order.Floor.Div
import Sentrix.Staking.Unbonding

/-!
What a slash takes. Self-stake pays first; what it does not cover is shared out over the
delegations, each share rounded up, and the delegated total becomes what is left.
-/
namespace SentrixStaking
open MachineWords HashTable Effects SentrixPrimitives List

namespace StakeRegistry

section
variable {entry remaining delegated : Nat}

theorem delegationSlash_le_ceilDiv :
    delegationSlash entry remaining delegated ≤ (entry * remaining) ⌈/⌉ delegated :=
  Nat.mod_le _ _

theorem share_rounds (positive : 0 < delegated) :
    delegationSlash entry remaining delegated * delegated ≤ entry * remaining + delegated := by
  have floor := Nat.div_mul_le_self (entry * remaining + delegated - 1) delegated
  have cast := Nat.mul_le_mul_right delegated
    (Nat.mod_le ((entry * remaining + delegated - 1) / delegated) (2 ^ 64))
  unfold delegationSlash
  omega

variable (part : remaining ≤ delegated) (positive : 0 < delegated)
include part positive

theorem ceilDiv_le_entry : (entry * remaining) ⌈/⌉ delegated ≤ entry := by
  rw [ceilDiv_le_iff_le_mul positive, Nat.mul_comm delegated]
  exact Nat.mul_le_mul_left entry part

theorem delegationSlash_le : delegationSlash entry remaining delegated ≤ entry :=
  delegationSlash_le_ceilDiv.trans (ceilDiv_le_entry part positive)

/-- The cast to 64 bits cuts nothing off a share of a 64-bit entry. -/
theorem delegationSlash_eq (word : entry ≤ u64Max) :
    delegationSlash entry remaining delegated = (entry * remaining) ⌈/⌉ delegated := by
  have small : (entry * remaining) ⌈/⌉ delegated ≤ entry := ceilDiv_le_entry part positive
  unfold u64Max at word
  exact Nat.mod_eq_of_lt (by rw [← Nat.ceilDiv_eq_add_pred_div]; omega)

theorem share_covers (word : entry ≤ u64Max) :
    entry * remaining ≤ delegationSlash entry remaining delegated * delegated := by
  rw [delegationSlash_eq part positive word, Nat.mul_comm _ delegated]
  exact le_smul_ceilDiv positive

end

def entriesTo (validator : Address) (entries : List DelegationEntry) : Nat :=
  entries.countP (·.validator == validator)

def sharesTaken (validator : Address) (remaining delegated : Nat)
    (entries : List DelegationEntry) : Nat :=
  (entries.map fun e => if e.validator = validator then
    delegationSlash e.amount remaining delegated else 0).sum

section
variable {validator : Address} {remaining delegated : Nat} {entries : List DelegationEntry}

theorem sharesTaken_cons (e : DelegationEntry) :
    sharesTaken validator remaining delegated (e :: entries) =
      (if e.validator = validator then delegationSlash e.amount remaining delegated else 0) +
        sharesTaken validator remaining delegated entries := by
  simp [sharesTaken]

theorem amountTo_slashed (part : remaining ≤ delegated) (positive : 0 < delegated) :
    amountTo validator (slashEntries validator remaining delegated entries) +
      sharesTaken validator remaining delegated entries = amountTo validator entries := by
  induction entries with
  | nil => rfl
  | cons e rest ih =>
    unfold slashEntries at ih ⊢
    rw [map_cons, amountTo_cons, amountTo_cons, sharesTaken_cons]
    by_cases named : e.validator = validator
    · have paid : delegationSlash e.amount remaining delegated ≤ e.amount :=
        delegationSlash_le part positive
      simp only [if_pos named]
      omega
    · simp only [if_neg named]
      omega

theorem sharesTaken_bounds (part : remaining ≤ delegated) (positive : 0 < delegated)
    (words : ∀ e ∈ entries, e.validator = validator → e.amount ≤ u64Max) :
    amountTo validator entries * remaining ≤
        sharesTaken validator remaining delegated entries * delegated ∧
      sharesTaken validator remaining delegated entries * delegated ≤
        amountTo validator entries * remaining + entriesTo validator entries * delegated := by
  induction entries with
  | nil => simp [amountTo, sharesTaken, entriesTo]
  | cons e rest ih =>
    obtain ⟨covers, rounds⟩ := ih fun x inside => words x (mem_cons_of_mem _ inside)
    rw [sharesTaken_cons, amountTo_cons]
    unfold entriesTo at rounds ⊢
    by_cases named : e.validator = validator
    · have word := words e mem_cons_self named
      have low := share_covers part positive word
      have high : delegationSlash e.amount remaining delegated * delegated ≤
          e.amount * remaining + delegated := share_rounds positive
      rw [countP_cons_of_pos (by simpa using named)]
      simp only [if_pos named, Nat.add_mul, Nat.one_mul]
      omega
    · rw [countP_cons_of_neg (by simpa using named)]
      simp only [if_neg named, Nat.zero_add]
      exact ⟨covers, rounds⟩

theorem amount_le_amountTo {e : DelegationEntry} (inside : e ∈ entries)
    (named : e.validator = validator) : e.amount ≤ amountTo validator entries := by
  apply single_le_sum (fun _ _ => Nat.zero_le _)
  exact List.mem_map.mpr ⟨e, inside, if_pos named⟩

/-- The shares of all delegations together: the remainder, and less than one unit for each. -/
theorem remainder_shared (part : remaining ≤ amountTo validator entries)
    (positive : 0 < amountTo validator entries) (word : amountTo validator entries ≤ u64Max) :
    remaining ≤ sharesTaken validator remaining (amountTo validator entries) entries ∧
      sharesTaken validator remaining (amountTo validator entries) entries ≤
        remaining + entriesTo validator entries := by
  obtain ⟨covers, rounds⟩ := sharesTaken_bounds part positive fun e inside named =>
    (amount_le_amountTo inside named).trans word
  constructor
  · apply Nat.le_of_mul_le_mul_right _ positive
    rw [Nat.mul_comm remaining]
    exact covers
  · apply Nat.le_of_mul_le_mul_right _ positive
    rw [Nat.add_mul, Nat.mul_comm remaining]
    exact rounds

end

def entryShare (old : ValidatorStake) (amount entry : Nat) : Nat :=
  if amount ≤ old.selfStake then 0
  else delegationSlash entry (amount - old.selfStake) old.totalDelegated

section
variable {reg after : StakeRegistry} {validator : Address} {old new : ValidatorStake}
  {basisPoints amount : Nat}

theorem slashAmount_le (rate : basisPoints ≤ 10000) :
    slashAmount old basisPoints ≤ old.selfStake + old.totalDelegated := by
  have capped : old.totalStake ≤ old.selfStake + old.totalDelegated := Nat.min_le_left _ _
  have scaled : old.totalStake * basisPoints / 10000 ≤ old.totalStake := by
    apply Nat.div_le_of_le_mul
    rw [Nat.mul_comm 10000]
    exact Nat.mul_le_mul_left _ rate
  exact (Nat.mod_le _ _).trans (scaled.trans capped)

theorem slash_runs (found : reg.getValidator validator = some old) (basisPoints : Nat) :
    ∃ after, slash validator basisPoints reg = .ok (slashAmount old basisPoints) after := by
  cases ran : slash validator basisPoints reg with
  | ok amount after =>
    obtain ⟨v, found', rfl, -⟩ := slash_ok ran
    rw [found] at found'
    cases found'
    exact ⟨after, rfl⟩
  | error e after =>
    rw [(slash_error ran).1] at found
    cases found

theorem allDelegations_cutEntries (reg : StakeRegistry) (validator : Address)
    (remaining delegated : Nat) :
    (reg.cutEntries validator remaining delegated).allDelegations =
      slashEntries validator remaining delegated reg.allDelegations := by
  unfold allDelegations cutEntries slashEntries Table.pairs Table.mapValues
  simp only [map_map, map_flatMap, flatMap_map, Function.comp_def]

/-- Everything the slash does to one validator's record and the delegations. -/
theorem slash_record (ran : slash validator basisPoints reg = .ok amount after)
    (found : reg.getValidator validator = some old) (rate : basisPoints ≤ 10000) :
    amount = slashAmount old basisPoints ∧
      if amount ≤ old.selfStake then
        after.getValidator validator = some { old with selfStake := old.selfStake - amount } ∧
          after.delegations = reg.delegations
      else
        let cut := reg.cutEntries validator (amount - old.selfStake) old.totalDelegated
        after.getValidator validator = some { old with
          selfStake := 0, totalDelegated := min (cut.delegatedTo validator) u64Max } ∧
          after.delegations = cut.delegations := by
  obtain ⟨v, found', rfl, rfl⟩ := slash_ok ran
  rw [found] at found'
  cases found'
  refine ⟨rfl, ?_⟩
  have bound : slashAmount old basisPoints ≤ old.selfStake + old.totalDelegated :=
    slashAmount_le rate
  generalize slashAmount old basisPoints = amount at bound ⊢
  split
  · rename_i covered
    have none : amount - min amount old.selfStake = 0 := by omega
    unfold slashDelegations afterSelfSlash
    rw [none, if_neg (by omega), Nat.min_eq_left covered]
    exact ⟨getValidator_setValidator _ _ _, rfl⟩
  · rename_i short
    have rest : amount - min amount old.selfStake = amount - old.selfStake := by omega
    unfold slashDelegations afterSelfSlash
    rw [rest, if_pos (by dsimp only; omega), Nat.min_eq_right (by omega), Nat.sub_self]
    exact ⟨getValidator_setValidator _ _ _, rfl⟩

structure Slashed (validator : Address) (basisPoints amount : Nat) (reg after : StakeRegistry)
    (old new : ValidatorStake) : Prop where
  lowered : new.selfStake + new.totalDelegated + amount ≤ old.selfStake + old.totalDelegated
  rounded : old.selfStake + old.totalDelegated ≤
    new.selfStake + new.totalDelegated + amount + entriesTo validator reg.allDelegations
  selfFirst : 0 < new.selfStake →
    after.delegations = reg.delegations ∧ new.totalDelegated = old.totalDelegated
  entries : ∀ d, after.delegationsOf d = (reg.delegationsOf d).map fun e =>
    if e.validator = validator then { e with amount := e.amount - entryShare old amount e.amount }
    else e
  payable : ∀ e ∈ reg.allDelegations, e.validator = validator →
    entryShare old amount e.amount ≤ e.amount
  unbonding : ∀ c, after.bucket c = (reg.bucket c).map (cutEntry validator basisPoints)
  others : OthersKept validator reg after
  otherDelegations : ∀ d, (after.delegationsOf d).filter (·.validator != validator) =
    (reg.delegationsOf d).filter (·.validator != validator)
  otherUnbonding : ∀ c, (after.bucket c).filter (·.validator != validator) =
    (reg.bucket c).filter (·.validator != validator)

/-- A rewrite that leaves the elements outside a test alone and none inside it out. -/
theorem filter_map_outside {α : Type} {l : List α} {p : α → Bool} {f : α → α}
    (kept : ∀ x ∈ l, p x = true → f x = x) (out : ∀ x ∈ l, p x = false → p (f x) = false) :
    (l.map f).filter p = l.filter p := by
  induction l with
  | nil => rfl
  | cons x rest ih =>
    have later := ih (fun y inside => kept y (mem_cons_of_mem _ inside))
      fun y inside => out y (mem_cons_of_mem _ inside)
    rw [map_cons]
    cases test : p x with
    | true =>
      have same := kept x mem_cons_self test
      rw [same, filter_cons_of_pos test, filter_cons_of_pos test, later]
    | false =>
      have still := out x mem_cons_self test
      rw [filter_cons_of_neg (by simp [still]), filter_cons_of_neg (by simp [test]), later]

theorem bucket_slash (ran : slash validator basisPoints reg = .ok amount after) (c : Nat) :
    after.bucket c = (reg.bucket c).map (cutEntry validator basisPoints) := by
  obtain ⟨v, -, -, rfl⟩ := slash_ok ran
  refine (bucket_slashUnbonding _ validator basisPoints c).trans ?_
  unfold bucket
  rw [queue_slashDelegations]
  rfl

theorem delegationsOf_slash (ran : slash validator basisPoints reg = .ok amount after)
    (found : reg.getValidator validator = some old) (rate : basisPoints ≤ 10000) (d : Address) :
    after.delegationsOf d = (reg.delegationsOf d).map fun e =>
      if e.validator = validator then { e with amount := e.amount - entryShare old amount e.amount }
      else e := by
  obtain ⟨-, record⟩ := slash_record ran found rate
  unfold entryShare
  split at record
  · rename_i covered
    have none : (fun e : DelegationEntry => if e.validator = validator then
        { e with amount := e.amount - if amount ≤ old.selfStake then 0 else
          delegationSlash e.amount (amount - old.selfStake) old.totalDelegated } else e) = id := by
      funext e
      simp only [if_pos covered, Nat.sub_zero, ite_self, id]
    rw [none, map_id]
    unfold delegationsOf
    rw [record.2]
  · rename_i short
    simp only [if_neg short]
    unfold delegationsOf
    rw [record.2]
    unfold cutEntries
    rw [lookup_mapValues]
    cases reg.delegations.lookup d <;> rfl

theorem slash_total (ran : slash validator basisPoints reg = .ok amount after)
    (found : reg.getValidator validator = some old) (rate : basisPoints ≤ 10000)
    (booked : old.totalDelegated = reg.delegatedTo validator) (word : old.totalDelegated ≤ u64Max) :
    ∃ new, after.getValidator validator = some new ∧
      new.selfStake + new.totalDelegated + amount ≤ old.selfStake + old.totalDelegated ∧
      old.selfStake + old.totalDelegated ≤
        new.selfStake + new.totalDelegated + amount + entriesTo validator reg.allDelegations ∧
      (0 < new.selfStake →
        after.delegations = reg.delegations ∧ new.totalDelegated = old.totalDelegated) := by
  obtain ⟨rfl, record⟩ := slash_record ran found rate
  have bound : slashAmount old basisPoints ≤ old.selfStake + old.totalDelegated :=
    slashAmount_le rate
  generalize slashAmount old basisPoints = amount at record bound ⊢
  split at record
  · obtain ⟨entry, kept⟩ := record
    refine ⟨_, entry, ?_, ?_, fun _ => ⟨kept, rfl⟩⟩
    · dsimp only
      omega
    · dsimp only
      omega
  · rename_i short
    obtain ⟨entry, -⟩ := record
    have total : amountTo validator reg.allDelegations = old.totalDelegated := booked.symm
    have part : amount - old.selfStake ≤ amountTo validator reg.allDelegations := by omega
    obtain ⟨covers, rounds⟩ := remainder_shared part (by omega) (by omega)
    have paid : amountTo validator (slashEntries validator (amount - old.selfStake)
        (amountTo validator reg.allDelegations) reg.allDelegations) + sharesTaken validator
          (amount - old.selfStake) (amountTo validator reg.allDelegations) reg.allDelegations =
        amountTo validator reg.allDelegations := amountTo_slashed part (by omega)
    have left : (reg.cutEntries validator (amount - old.selfStake)
        old.totalDelegated).delegatedTo validator = amountTo validator (slashEntries validator
          (amount - old.selfStake) (amountTo validator reg.allDelegations) reg.allDelegations) := by
      rw [total, ← allDelegations_cutEntries]
      rfl
    refine ⟨_, entry, ?_, ?_, fun positive => absurd positive (Nat.lt_irrefl 0)⟩
    · dsimp only
      omega
    · dsimp only
      omega

/-- A slash of a validator whose total is that of its delegations lowers its stake by the
amount it returns, and by at most one unit more for each delegation. -/
theorem slash_within_rounding (found : reg.getValidator validator = some old)
    (booked : old.totalDelegated = reg.delegatedTo validator) (word : old.totalDelegated ≤ u64Max)
    (rate : basisPoints ≤ 10000) :
    ∃ amount after new, slash validator basisPoints reg = .ok amount after ∧
      after.getValidator validator = some new ∧
      Slashed validator basisPoints amount reg after old new ∧
      (old.selfStake + old.totalDelegated ≤ u64Max → new.totalStake + amount ≤ old.totalStake ∧
        old.totalStake ≤ new.totalStake + amount + entriesTo validator reg.allDelegations) := by
  obtain ⟨after, ran⟩ := slash_runs found basisPoints
  obtain ⟨new, entry, lowered, rounded, selfFirst⟩ := slash_total ran found rate booked word
  refine ⟨_, after, new, ran, entry, ⟨lowered, rounded, selfFirst, ?_, ?_, ?_, ?_, ?_, ?_⟩, ?_⟩
  · exact delegationsOf_slash ran found rate
  · intro e inside named
    have own : e.amount ≤ old.totalDelegated := by
      rw [booked]
      exact amount_le_amountTo inside named
    have bound : slashAmount old basisPoints ≤ old.selfStake + old.totalDelegated :=
      slashAmount_le rate
    unfold entryShare
    split
    · exact Nat.zero_le _
    · exact delegationSlash_le (by omega) (by omega)
  · exact bucket_slash ran
  · exact (slash_entry ran).2
  · intro d
    rw [delegationsOf_slash ran found rate]
    apply filter_map_outside
    · intro e _ other
      exact if_neg (by simpa using other)
    · intro e _ here
      have here : e.validator = validator := by simpa using here
      rw [if_pos here]
      simpa using here
  · intro c
    rw [bucket_slash ran]
    apply filter_map_outside
    · intro e _ other
      exact if_neg (by simpa using other)
    · intro e _ here
      have here : e.validator = validator := by simpa using here
      unfold cutEntry
      rw [if_pos here]
      simpa using here
  · intro fits
    have before : old.totalStake = old.selfStake + old.totalDelegated := satAdd_eq_add fits
    have behind : new.totalStake = new.selfStake + new.totalDelegated :=
      satAdd_eq_add (by omega)
    rw [before, behind]
    exact ⟨lowered, rounded⟩

end

def delegatedSet (selfStake totalDelegated : Nat) (entries : List DelegationEntry) :
    StakeRegistry :=
  { StakeRegistry.new with
    validators := (∅ : Table Address ValidatorStake).insert "v"
      { bonded "v" with selfStake, totalDelegated }
    delegations := entries.foldl (fun t e => t.insert e.delegator [e]) ∅ }

/-- Three delegations pay for most of a slash of one half; two of the shares round up. -/
theorem three_shares_round :
    let reg := delegatedSet 10 299 [⟨"a", "v", 99, 1⟩, ⟨"b", "v", 100, 1⟩, ⟨"c", "v", 100, 1⟩]
    let old := { bonded "v" with selfStake := 10, totalDelegated := 299 }
    ∃ amount after new, slash "v" 5000 reg = .ok amount after ∧
      after.getValidator "v" = some new ∧ Slashed "v" 5000 amount reg after old new ∧
      (old.selfStake + old.totalDelegated ≤ u64Max → new.totalStake + amount ≤ old.totalStake ∧
        old.totalStake ≤ new.totalStake + amount + entriesTo "v" reg.allDelegations) :=
  slash_within_rounding rfl (by decide) (by decide) (by decide)

/-- Past 64 bits the total stake is capped: all self-stake goes and the total does not move. -/
theorem capped_total_not_lowered :
    let reg := delegatedSet u64Max u64Max [⟨"a", "v", u64Max, 1⟩]
    let old := { bonded "v" with selfStake := u64Max, totalDelegated := u64Max }
    reg.getValidator "v" = some old ∧ old.totalDelegated = reg.delegatedTo "v" ∧
      ∃ after new, slash "v" 10000 reg = .ok u64Max after ∧ after.getValidator "v" = some new ∧
        old.totalStake = u64Max ∧ new.totalStake = u64Max := by
  intro reg old
  obtain ⟨found, booked, all, capped, left⟩ : reg.getValidator "v" = some old ∧
      old.totalDelegated = reg.delegatedTo "v" ∧ slashAmount old 10000 = u64Max ∧
      old.totalStake = u64Max ∧
      ((finalState (slash "v" 10000) reg).getValidator "v").map (·.totalStake) = some u64Max := by
    decide
  obtain ⟨after, ran⟩ := slash_runs found 10000
  rw [finalState_ok ran] at left
  obtain ⟨new, entry, total⟩ := Option.map_eq_some_iff.mp left
  exact ⟨found, booked, after, new, all ▸ ran, entry, capped, total⟩

end StakeRegistry
end SentrixStaking
