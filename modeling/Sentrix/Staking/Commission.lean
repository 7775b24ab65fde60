import Sentrix.Lib.CleanFailure
import Sentrix.Staking.Delegations

/-!
Commission rates over histories of registrations and updates. The height of the last
change is zero until the first one, so at positive heights it names the epoch of the
last change.
-/
namespace SentrixStaking
open Effects SentrixPrimitives List

namespace StakeRegistry

inductive TermsCall where
  | registerValidator (address : Address) (selfStake commissionRate height : Nat)
  | updateCommission (validator : Address) (newRate height : Nat)

def TermsCall.height : TermsCall → Nat
  | .registerValidator _ _ _ h => h
  | .updateCommission _ _ h => h

def TermsCall.run : TermsCall → Op Unit
  | .registerValidator a stake rate h => StakeRegistry.registerValidator a stake rate h
  | .updateCommission v rate h => StakeRegistry.updateCommission v rate h

def afterTerms (reg : StakeRegistry) (calls : List TermsCall) : StakeRegistry :=
  calls.foldl (fun reg c => finalState c.run reg) reg

/-- The rate is in the range that the network allows and below the declared maximum. -/
structure Disciplined (val : ValidatorStake) : Prop where
  least : minCommission ≤ val.commissionRate
  most : val.commissionRate ≤ maxCommission
  declared : val.commissionRate ≤ val.maxCommissionRate

def Near (rate rate' : Nat) : Prop :=
  rate' ≤ rate + maxCommissionChangePerEpoch ∧ rate ≤ rate' + maxCommissionChangePerEpoch

section
variable {reg after : StakeRegistry} {validator v : Address} {rate height stake : Nat}
  {u : Unit} {e : SentrixError}

theorem updateCommission_ok (ran : updateCommission validator rate height reg = .ok u after) :
    ∃ val, reg.getValidator validator = some val ∧
      Disciplined { val with commissionRate := rate } ∧ Near val.commissionRate rate ∧
      (val.lastCommissionChangeHeight = 0 ∨
        val.lastCommissionChangeHeight / epochLength ≠ height / epochLength) ∧
      after = reg.setValidator validator
        { val with commissionRate := rate, lastCommissionChangeHeight := height } := by
  unfold updateCommission at ran
  obtain ⟨val, found, ran⟩ := fromOption_bind_ok (get_bind_ok ran)
  obtain ⟨range, ran⟩ := ensure_bind_ok ran
  obtain ⟨declared, ran⟩ := ensure_bind_ok ran
  obtain ⟨close, ran⟩ := ensure_bind_ok ran
  obtain ⟨once, ran⟩ := ensure_bind_ok ran
  simp only [Bool.and_eq_true, decide_eq_true_eq] at range declared close
  refine ⟨val, found, ⟨range.1, range.2, declared⟩, ?_, by simpa using once, set_ok.mp ran⟩
  unfold Near
  omega

theorem updateCommission_error
    (failed : updateCommission validator rate height reg = .error e after) : after = reg := by
  have clean : FailsClean (updateCommission validator rate height) :=
    .get_bind fun _ => .fromOption_bind fun _ => .ensure_bind <| .ensure_bind <| .ensure_bind <|
      .ensure_bind (.of_ok fun _ => ⟨_, _, rfl⟩)
  exact clean _ _ _ failed

theorem registerValidator_ok (ran : registerValidator validator stake rate height reg = .ok u after) :
    reg.getValidator validator = none ∧ ∃ val, Disciplined val ∧
      after = reg.setValidator validator val := by
  unfold registerValidator at ran
  obtain ⟨fresh, ran⟩ := ensure_bind_ok (get_bind_ok ran)
  obtain ⟨-, ran⟩ := ensure_bind_ok ran
  obtain ⟨range, ran⟩ := ensure_bind_ok ran
  simp only [Bool.and_eq_true, decide_eq_true_eq] at range
  refine ⟨by simpa using fresh, _, ⟨range.1, range.2, ?_⟩, modify_ok.mp ran⟩
  -- the budget of later changes is added to the rate, and both bounds are above it
  have top : rate ≤ 65535 := range.2.trans (by decide)
  exact Nat.le_min.mpr ⟨Nat.le_min.mpr ⟨Nat.le_add_right _ _, top⟩, range.2⟩

theorem registerValidator_error
    (failed : registerValidator validator stake rate height reg = .error e after) : after = reg := by
  have clean : FailsClean (registerValidator validator stake rate height) :=
    .get_bind fun _ => .ensure_bind <| .ensure_bind <| .ensure_bind
      (.of_ok fun _ => ⟨_, _, rfl⟩)
  exact clean _ _ _ failed

/-- A record that was there and is there after a call: the same, or the one allowed change. -/
inductive Revised (height : Nat) (old : ValidatorStake) : ValidatorStake → Prop where
  | same : Revised height old old
  | changed (rate : Nat) (sound : Disciplined { old with commissionRate := rate })
      (near : Near old.commissionRate rate)
      (first : old.lastCommissionChangeHeight = 0 ∨
        old.lastCommissionChangeHeight / epochLength ≠ height / epochLength) :
      Revised height old
        { old with commissionRate := rate, lastCommissionChangeHeight := height }

theorem call_entry (c : TermsCall) (reg : StakeRegistry) (v : Address) {new : ValidatorStake}
    (found : (finalState c.run reg).getValidator v = some new) :
    (∃ old, reg.getValidator v = some old ∧ Revised c.height old new) ∨
      reg.getValidator v = none ∧ Disciplined new := by
  cases ran : c.run reg with
  | error _ after =>
    rw [finalState_error ran] at found
    have same : after = reg := by
      cases c with
      | registerValidator => exact registerValidator_error ran
      | updateCommission => exact updateCommission_error ran
    rw [same] at found
    exact .inl ⟨new, found, .same⟩
  | ok =>
    rw [finalState_ok ran] at found
    cases c with
    | registerValidator a =>
      obtain ⟨fresh, val, sound, rfl⟩ := registerValidator_ok ran
      by_cases here : v = a
      · subst here
        rw [getValidator_setValidator] at found
        cases found
        exact .inr ⟨fresh, sound⟩
      · rw [othersKept_setValidator _ _ _ v here] at found
        exact .inl ⟨new, found, .same⟩
    | updateCommission w rate =>
      obtain ⟨old, known, sound, near, first, rfl⟩ := updateCommission_ok ran
      by_cases here : v = w
      · subst here
        rw [getValidator_setValidator] at found
        cases found
        exact .inl ⟨old, known, .changed rate sound near first⟩
      · rw [othersKept_setValidator _ _ _ v here] at found
        exact .inl ⟨new, found, .same⟩

theorem disciplined_afterTerms (calls : List TermsCall) {reg : StakeRegistry}
    (sound : ∀ v val, reg.getValidator v = some val → Disciplined val) :
    ∀ v val, (reg.afterTerms calls).getValidator v = some val → Disciplined val := by
  induction calls generalizing reg with
  | nil => exact sound
  | cons c _ ih =>
    apply ih
    intro v val found
    rcases call_entry c reg v found with ⟨old, known, revised⟩ | ⟨-, fresh⟩
    · cases revised with
      | same => exact sound v val known
      | changed _ allowed => exact ⟨allowed.least, allowed.most, allowed.declared⟩
    · exact fresh

theorem known_after (c : TermsCall) {old : ValidatorStake} (known : reg.getValidator v = some old) :
    ∃ new, (finalState c.run reg).getValidator v = some new := by
  cases ran : c.run reg with
  | error _ after =>
    have same : after = reg := by
      cases c with
      | registerValidator => exact registerValidator_error ran
      | updateCommission => exact updateCommission_error ran
    exact ⟨old, by rw [finalState_error ran, same, known]⟩
  | ok =>
    rw [finalState_ok ran]
    have kept (w : Address) (val : ValidatorStake) :
        ∃ new, (reg.setValidator w val).getValidator v = some new := by
      by_cases here : v = w
      · subst here
        exact ⟨val, getValidator_setValidator _ _ _⟩
      · exact ⟨old, (othersKept_setValidator _ _ _ v here).trans known⟩
    cases c with
    | registerValidator a =>
      obtain ⟨-, val, -, rfl⟩ := registerValidator_ok ran
      exact kept a val
    | updateCommission w =>
      obtain ⟨old', -, -, -, -, rfl⟩ := updateCommission_ok ran
      exact kept w _

/-- Within an epoch a record has not changed yet, or has had its one change. -/
def Spent (epoch : Nat) (old new : ValidatorStake) : Prop :=
  new.commissionRate = old.commissionRate ∧
      new.lastCommissionChangeHeight = old.lastCommissionChangeHeight ∨
    Near old.commissionRate new.commissionRate ∧ 0 < new.lastCommissionChangeHeight ∧
      new.lastCommissionChangeHeight / epochLength = epoch

theorem Spent.revised {epoch : Nat} {old mid new : ValidatorStake} (spent : Spent epoch old mid)
    (positive : 0 < height) (here : height / epochLength = epoch)
    (revised : Revised height mid new) : Spent epoch old new := by
  cases revised with
  | same => exact spent
  | changed rate _ near first =>
    rcases spent with ⟨rate, last⟩ | ⟨-, later, inside⟩
    · rw [rate] at near
      exact .inr ⟨near, positive, here⟩
    · -- the last change was in this epoch, so this one would have been refused
      rcases first with never | elsewhere
      · omega
      · exact absurd (inside.trans here.symm) elsewhere

theorem spent_afterTerms {epoch : Nat} {old mid new : ValidatorStake} (calls : List TermsCall)
    {reg : StakeRegistry} (positive : ∀ c ∈ calls, 0 < c.height)
    (inside : ∀ c ∈ calls, c.height / epochLength = epoch) (spent : Spent epoch old mid)
    (before : reg.getValidator v = some mid)
    (found : (reg.afterTerms calls).getValidator v = some new) : Spent epoch old new := by
  induction calls generalizing reg mid with
  | nil =>
    have same : some mid = some new := before.symm.trans found
    cases same
    exact spent
  | cons c _ ih =>
    obtain ⟨next, known⟩ := known_after c before
    rcases call_entry c reg v known with ⟨mid', seen, revised⟩ | ⟨absent, -⟩
    · rw [before] at seen
      cases seen
      refine ih (fun d member => positive d (mem_cons_of_mem _ member))
        (fun d member => inside d (mem_cons_of_mem _ member)) ?_ known found
      exact spent.revised (positive c mem_cons_self) (inside c mem_cons_self) revised
    · rw [absent] at before
      cases before

theorem Spent.near {epoch : Nat} {old new : ValidatorStake} (spent : Spent epoch old new) :
    Near old.commissionRate new.commissionRate := by
  rcases spent with ⟨same, -⟩ | ⟨near, -⟩
  · rw [same]
    exact ⟨Nat.le_add_right _ _, Nat.le_add_right _ _⟩
  · exact near

/-- After any registrations and updates every rate is in range and below the declared
maximum, and at any two points with only calls of one epoch between them a
validator's rates are at most one change apart. -/
theorem commission_disciplined {calls : List TermsCall} (positive : ∀ c ∈ calls, 0 < c.height) :
    (∀ v val, (afterTerms .new calls).getValidator v = some val → Disciplined val) ∧
      ∀ early mid late epoch, calls = early ++ mid ++ late →
        (∀ c ∈ mid, c.height / epochLength = epoch) →
        ∀ v old new, (afterTerms .new early).getValidator v = some old →
          (afterTerms .new (early ++ mid)).getValidator v = some new →
          Near old.commissionRate new.commissionRate := by
  constructor
  · exact disciplined_afterTerms calls fun v val found => by cases found
  · rintro early mid late epoch rfl inside v old new before found
    have split : afterTerms .new (early ++ mid) = (afterTerms .new early).afterTerms mid :=
      foldl_append
    rw [split] at found
    have heights : ∀ c ∈ mid, 0 < c.height := fun c member =>
      positive c (mem_append_left _ (mem_append_right _ member))
    exact (spent_afterTerms mid heights inside (.inl ⟨rfl, rfl⟩) before found).near

end

/-- The second rise of an epoch is refused, the one after the boundary is not. -/
theorem two_rises_one_refused :
    let calls : List TermsCall := [.registerValidator "v1" minSelfStake 1000 1,
      .updateCommission "v1" 1200 5, .updateCommission "v1" 1400 6, .updateCommission "v1" 1400 28800]
    (∀ c ∈ calls, 0 < c.height) ∧
      ((afterTerms .new (calls.take 3)).getValidator "v1").map (·.commissionRate) = some 1200 ∧
      ((afterTerms .new calls).getValidator "v1").map (·.commissionRate) = some 1400 ∧
      (∀ v val, (afterTerms .new calls).getValidator v = some val → Disciplined val) ∧
      ∀ v old new, (afterTerms .new (calls.take 1)).getValidator v = some old →
        (afterTerms .new (calls.take 3)).getValidator v = some new →
        Near old.commissionRate new.commissionRate := by
  intro calls
  have positive : ∀ c ∈ calls, 0 < c.height := by decide
  have epoch : ∀ c ∈ (calls.drop 1).take 2, c.height / epochLength = 0 := by decide
  obtain ⟨sound, near⟩ := commission_disciplined positive
  exact ⟨positive, by decide, by decide, sound,
    near (calls.take 1) ((calls.drop 1).take 2) (calls.drop 3) 0 rfl epoch⟩

end StakeRegistry
end SentrixStaking
