import Sentrix.Lib.CleanFailure
import Sentrix.Staking.Unbonding

/-!
What a refused delegation call leaves behind. Every call checks its arguments first,
then moves the delegator's entry, and only then meets the last checks: the unbonding
caps and the validator's total.
-/
namespace SentrixStaking
open MachineWords Effects SentrixPrimitives

namespace StakeRegistry

inductive StakeCall where
  | delegate (delegator validator : Address) (amount height : Nat)
  | undelegate (delegator validator : Address) (amount height : Nat)
  | redelegate (delegator source target : Address) (amount height : Nat)

def StakeCall.run : StakeCall → Op Unit
  | .delegate d v amount height => StakeRegistry.delegate d v amount height
  | .undelegate d v amount height => StakeRegistry.undelegate d v amount height
  | .redelegate d source target amount height =>
    StakeRegistry.redelegate d source target amount height

structure Unchanged (reg after : StakeRegistry) : Prop where
  delegations : ∀ d, after.delegations.lookup d = reg.delegations.lookup d
  totals : ∀ v, after.totalDelegatedOf v = reg.totalDelegatedOf v
  queue : ∀ c, after.unbondingQueue.lookup c = reg.unbondingQueue.lookup c
  cooldowns : ∀ d, after.redelegateCooldowns.lookup d = reg.redelegateCooldowns.lookup d

def Open (reg : StakeRegistry) (validator : Address) : Prop :=
  ∃ val ∈ reg.getValidator validator, val.isTombstoned = false

def Covers (reg : StakeRegistry) (delegator validator : Address) (amount : Nat) : Prop :=
  ∃ e ∈ (reg.delegationsOf delegator).find? (·.validator == validator), amount ≤ e.amount

/-- The call passes the checks that come before its first write, so that the
delegator's entry moves whatever comes after. -/
def StakeCall.MovesEntry (reg : StakeRegistry) : StakeCall → Prop
  | .delegate d v amount _ =>
    amount ≠ 0 ∧ reg.Open v ∧ CanGrow v amount (reg.delegationsOf d)
  | .undelegate d v amount _ => amount ≠ 0 ∧ reg.Covers d v amount
  | .redelegate d source target amount height =>
    source ≠ target ∧ amount ≠ 0 ∧ (reg.redelegateCooldowns.lookup d).getD 0 ≤ height ∧
      reg.Open target ∧ reg.Covers d source amount

instance (reg : StakeRegistry) (v : Address) : Decidable (reg.Open v) :=
  inferInstanceAs (Decidable (∃ val ∈ reg.getValidator v, val.isTombstoned = false))

instance (reg : StakeRegistry) (d v : Address) (amount : Nat) : Decidable (reg.Covers d v amount) :=
  inferInstanceAs (Decidable (∃ e ∈ (reg.delegationsOf d).find? (·.validator == v),
    amount ≤ e.amount))

section
variable {reg mid after : StakeRegistry} {delegator validator source target : Address}
  {amount height : Nat} {e : SentrixError} {u : Unit}

theorem Unchanged.refl (reg : StakeRegistry) : Unchanged reg reg :=
  ⟨fun _ => rfl, fun _ => rfl, fun _ => rfl, fun _ => rfl⟩

theorem Unchanged.amounts (same : Unchanged reg after) (d w : Address) :
    amountTo w (after.delegationsOf d) = amountTo w (reg.delegationsOf d) := by
  unfold delegationsOf
  rw [same.delegations d]

theorem shrinkDelegation_error {missing exceeds : String}
    (failed : shrinkDelegation delegator validator amount missing exceeds reg = .error e after) :
    after = reg ∧ ¬ reg.Covers delegator validator amount := by
  unfold shrinkDelegation at failed
  unfold Covers delegationsOf
  rcases fromOption_bind_error (get_bind_error failed) with ⟨absent, same⟩ | ⟨entries, stored, failed⟩
  · exact ⟨same, by simp [absent]⟩
  rw [stored, Option.getD_some]
  rcases fromOption_bind_error failed with ⟨absent, same⟩ | ⟨entry, found, failed⟩
  · exact ⟨same, by simp [absent]⟩
  rcases bind_error.mp failed with short | ⟨_, _, _, never⟩
  · obtain ⟨lacks, -, same⟩ := ensure_error.mp short
    refine ⟨same, ?_⟩
    rw [found]
    simpa using lacks
  · cases never

/-- A list that cannot grow is not empty, so writing it back changes nothing. -/
theorem growDelegation_error
    (failed : growDelegation delegator validator amount height reg = .error e after) :
    ¬ CanGrow validator amount (reg.delegationsOf delegator) ∧
      after = reg.setDelegations delegator (reg.delegationsOf delegator) ∧
      (reg.delegations.lookup delegator).isSome := by
  unfold growDelegation at failed
  have failed := get_bind_error (modify_bind_error failed)
  simp only [delegationsOf_self] at failed
  have stored (full : reg.delegationsOf delegator ≠ []) :
      (reg.delegations.lookup delegator).isSome := by
    unfold delegationsOf at full
    cases found : reg.delegations.lookup delegator with
    | none => exact absurd (by rw [found]; rfl) full
    | some => rfl
  unfold CanGrow
  cases found : (reg.delegationsOf delegator).find? (·.validator == validator) with
  | some =>
    simp only [found] at failed
    have full : reg.delegationsOf delegator ≠ [] := by
      intro empty
      rw [empty] at found
      cases found
    rcases fromOption_bind_error failed with ⟨overflow, same⟩ | ⟨_, _, never⟩
    · refine ⟨fun fits => ?_, same, stored full⟩
      rw [checkedAdd64, if_pos fits] at overflow
      cases overflow
    · cases never
  | none =>
    simp only [found] at failed
    rcases bind_error.mp failed with crowded | ⟨_, _, _, never⟩
    · obtain ⟨many, -, same⟩ := ensure_error.mp crowded
      have many : maxDelegationsPerAccount ≤ (reg.delegationsOf delegator).length := by
        simpa using many
      refine ⟨Nat.not_lt.mpr many, same, stored fun empty => ?_⟩
      rw [empty] at many
      exact absurd many (by decide)
    · cases never

theorem addDelegated_error (failed : addDelegated validator amount reg = .error e after) :
    after = reg := by
  unfold addDelegated at failed
  rcases fromOption_bind_error (get_bind_error failed) with ⟨_, same⟩ | ⟨val, _, failed⟩
  · exact same
  rcases fromOption_bind_error failed with ⟨_, same⟩ | ⟨total, _, never⟩
  · exact same
  · cases never

theorem unchanged_rewrite (stored : (reg.delegations.lookup delegator).isSome) :
    Unchanged reg (reg.setDelegations delegator (reg.delegationsOf delegator)) := by
  refine ⟨fun d => ?_, fun _ => rfl, fun _ => rfl, fun _ => rfl⟩
  obtain ⟨entries, found⟩ := Option.isSome_iff_exists.mp stored
  unfold setDelegations delegationsOf
  by_cases here : d = delegator
  · subst here
    rw [AList.lookup_insert, found]
    rfl
  · exact AList.lookup_insert_ne here

theorem open_of_found {val : ValidatorStake} (found : reg.getValidator validator = some val)
    (alive : (!val.isTombstoned) = true) : reg.Open validator :=
  ⟨val, found, by simpa using alive⟩

theorem delegate_error (failed : delegate delegator validator amount height reg = .error e after) :
    Unchanged reg after ∧ ¬ (StakeCall.delegate delegator validator amount height).MovesEntry reg ∨
      (StakeCall.delegate delegator validator amount height).MovesEntry reg ∧
        amountTo validator (after.delegationsOf delegator) =
          amountTo validator (reg.delegationsOf delegator) + amount := by
  unfold delegate at failed
  unfold StakeCall.MovesEntry
  rcases ensure_bind_refused failed with ⟨zero, rfl⟩ | ⟨nonzero, failed⟩
  · exact .inl ⟨.refl _, fun moves => moves.1 (by simpa using zero)⟩
  rcases fromOption_bind_error (get_bind_error failed) with ⟨absent, rfl⟩ | ⟨val, found, failed⟩
  · refine .inl ⟨.refl _, fun ⟨_, ⟨val, found, _⟩, _⟩ => ?_⟩
    rw [absent] at found
    cases found
  rcases ensure_bind_refused failed with ⟨dead, rfl⟩ | ⟨alive, failed⟩
  · refine .inl ⟨.refl _, fun ⟨_, ⟨val', found', alive⟩, _⟩ => ?_⟩
    rw [found] at found'
    cases found'
    simp [alive] at dead
  rcases bind_error.mp failed with refused | ⟨_, mid, grew, failed⟩
  · obtain ⟨full, rfl, stored⟩ := growDelegation_error refused
    exact .inl ⟨unchanged_rewrite stored, fun moves => full moves.2.2⟩
  · -- the entry has grown and only the validator's total can refuse now
    obtain ⟨room, rfl⟩ := growDelegation_run grew
    obtain rfl := addDelegated_error failed
    refine .inr ⟨⟨by simpa using nonzero, open_of_found found alive, room⟩, ?_⟩
    rw [delegationsOf_self, amountTo_grown, if_pos rfl]

theorem undelegate_error (failed : undelegate delegator validator amount height reg = .error e after) :
    Unchanged reg after ∧ ¬ (StakeCall.undelegate delegator validator amount height).MovesEntry reg ∨
      (StakeCall.undelegate delegator validator amount height).MovesEntry reg ∧
        amountTo validator (after.delegationsOf delegator) + amount =
          amountTo validator (reg.delegationsOf delegator) := by
  unfold undelegate at failed
  unfold StakeCall.MovesEntry
  rcases ensure_bind_refused failed with ⟨zero, rfl⟩ | ⟨nonzero, failed⟩
  · exact .inl ⟨.refl _, fun moves => moves.1 (by simpa using zero)⟩
  rcases bind_error.mp failed with refused | ⟨_, mid, took, failed⟩
  · obtain ⟨rfl, short⟩ := shrinkDelegation_error refused
    exact .inl ⟨.refl _, fun moves => short moves.2⟩
  · obtain ⟨entry, found, enough, rfl⟩ := shrinkDelegation_run took
    -- both caps and the lookup leave the shrunk entry as it is
    have stays : after = reg.setDelegations delegator
        (shrunk validator amount entry (reg.delegationsOf delegator)) := by
      rcases ensure_bind_error (get_bind_error failed) with same | ⟨_, failed⟩
      · exact same
      rcases ensure_bind_error failed with same | ⟨_, failed⟩
      · exact same
      rcases fromOption_bind_error failed with ⟨_, same⟩ | ⟨_, _, never⟩
      · exact same
      · cases never
    refine .inr ⟨⟨by simpa using nonzero, entry, found, enough⟩, ?_⟩
    have less := amountTo_shrunk found enough validator
    rwa [if_pos rfl, ← delegationsOf_self reg delegator (shrunk _ _ _ _), ← stays] at less

theorem redelegate_error
    (failed : redelegate delegator source target amount height reg = .error e after) :
    Unchanged reg after ∧
        ¬ (StakeCall.redelegate delegator source target amount height).MovesEntry reg ∨
      (StakeCall.redelegate delegator source target amount height).MovesEntry reg ∧
        amountTo source (after.delegationsOf delegator) + amount =
          amountTo source (reg.delegationsOf delegator) := by
  unfold redelegate at failed
  unfold StakeCall.MovesEntry
  rcases ensure_bind_refused failed with ⟨same, rfl⟩ | ⟨distinct, failed⟩
  · exact .inl ⟨.refl _, fun moves => moves.1 (by simpa using same)⟩
  rcases ensure_bind_refused failed with ⟨zero, rfl⟩ | ⟨nonzero, failed⟩
  · exact .inl ⟨.refl _, fun moves => moves.2.1 (by simpa using zero)⟩
  rcases ensure_bind_refused (get_bind_error failed) with ⟨early, rfl⟩ | ⟨cooled, failed⟩
  · exact .inl ⟨.refl _, fun moves => of_decide_eq_false early moves.2.2.1⟩
  rcases fromOption_bind_error failed with ⟨absent, rfl⟩ | ⟨val, known, failed⟩
  · refine .inl ⟨.refl _, fun ⟨_, _, _, ⟨val, found, _⟩, _⟩ => ?_⟩
    rw [absent] at found
    cases found
  rcases ensure_bind_refused failed with ⟨dead, rfl⟩ | ⟨alive, failed⟩
  · refine .inl ⟨.refl _, fun ⟨_, _, _, ⟨val', found', alive⟩, _⟩ => ?_⟩
    rw [known] at found'
    cases found'
    simp [alive] at dead
  rcases bind_error.mp failed with refused | ⟨_, mid, took, failed⟩
  · obtain ⟨rfl, short⟩ := shrinkDelegation_error refused
    exact .inl ⟨.refl _, fun moves => short moves.2.2.2.2⟩
  obtain ⟨entry, found, enough, rfl⟩ := shrinkDelegation_run took
  refine .inr ⟨⟨by simpa using distinct, by simpa using nonzero, of_decide_eq_true cooled,
    open_of_found known alive, entry, found, enough⟩, ?_⟩
  have less := amountTo_shrunk found enough source
  rw [if_pos rfl] at less
  -- growing the target's entry, or failing to, leaves the amount at the source
  rcases bind_error.mp failed with never | ⟨_, lowered, low, failed⟩
  · exact absurd never modify_error
  have held : lowered.delegationsOf delegator =
      shrunk source amount entry (reg.delegationsOf delegator) := by
    rw [modify_ok.mp low]
    split <;> exact delegationsOf_self reg delegator _
  rcases bind_error.mp failed with refused | ⟨_, last, grew, failed⟩
  · obtain ⟨-, rfl, -⟩ := growDelegation_error refused
    rwa [delegationsOf_self, held]
  · obtain ⟨-, rfl⟩ := growDelegation_run grew
    rcases bind_error.mp failed with refused | ⟨_, _, _, never⟩
    · obtain rfl := addDelegated_error refused
      have apart : source ≠ target := by simpa using distinct
      rwa [delegationsOf_self, amountTo_grown, if_neg apart, Nat.add_zero, held]
    · cases never

/-- A refused call leaves everything as it was exactly when it was refused before
it moved the delegator's entry. -/
theorem failed_call_unchanged_iff {c : StakeCall} (failed : c.run reg = .error e after) :
    Unchanged reg after ↔ ¬ c.MovesEntry reg := by
  cases c with
  | delegate d v =>
    rcases delegate_error failed with ⟨same, still⟩ | ⟨moves, more⟩
    · exact iff_of_true same still
    · refine iff_of_false (fun same => ?_) (not_not_intro moves)
      have := same.amounts d v
      have := moves.1
      omega
  | undelegate d v =>
    rcases undelegate_error failed with ⟨same, still⟩ | ⟨moves, less⟩
    · exact iff_of_true same still
    · refine iff_of_false (fun same => ?_) (not_not_intro moves)
      have := same.amounts d v
      have := moves.1
      omega
  | redelegate d source =>
    rcases redelegate_error failed with ⟨same, still⟩ | ⟨moves, less⟩
    · exact iff_of_true same still
    · refine iff_of_false (fun same => ?_) (not_not_intro moves)
      have := same.amounts d source
      have := moves.2.1
      omega

end

def sevenUnbonding : List Call :=
  .registerValidator "v1" minSelfStake 1000 1 :: .delegate "alice" "v1" 1000 1 ::
    (List.range 7).map fun i => .undelegate "alice" "v1" 10 (2 + i)

/-- More is asked back than the entry holds: the refusal is clean. -/
theorem oversized_undelegation_unchanged :
    let reg := finalState (Call.runAll sevenUnbonding) .new
    let call := StakeCall.undelegate "alice" "v1" 2000 9
    succeeds call.run reg = false ∧ ¬ call.MovesEntry reg ∧ Unchanged reg (finalState call.run reg) := by
  intro reg call
  have evaluated : succeeds call.run reg = false ∧ ¬ (2000 ≠ 0 ∧ reg.Covers "alice" "v1" 2000) := by
    decide +kernel
  clear_value reg
  obtain ⟨refused, still⟩ := evaluated
  obtain ⟨e, failed⟩ := error_of_not_succeeds refused
  exact ⟨refused, still, (failed_call_unchanged_iff failed).mpr still⟩

/-- The eighth undelegation is refused by the cap on unbonding entries, after the
entry has been lowered: ten units are neither delegated nor unbonding. -/
theorem capped_undelegation_loses_stake :
    let reg := finalState (Call.runAll sevenUnbonding) .new
    let call := StakeCall.undelegate "alice" "v1" 10 9
    succeeds (Call.runAll sevenUnbonding) .new = true ∧ succeeds call.run reg = false ∧
      amountTo "v1" (reg.delegationsOf "alice") = 930 ∧
      amountTo "v1" ((finalState call.run reg).delegationsOf "alice") = 920 ∧
      ¬ Unchanged reg (finalState call.run reg) := by
  intro reg call
  have evaluated : succeeds (Call.runAll sevenUnbonding) .new = true ∧
      succeeds call.run reg = false ∧ amountTo "v1" (reg.delegationsOf "alice") = 930 ∧
      amountTo "v1" ((finalState call.run reg).delegationsOf "alice") = 920 := by
    decide +kernel
  clear_value reg
  obtain ⟨ran, refused, held, left⟩ := evaluated
  refine ⟨ran, refused, held, left, fun same => ?_⟩
  have := same.amounts "alice" "v1"
  omega

end StakeRegistry
end SentrixStaking
