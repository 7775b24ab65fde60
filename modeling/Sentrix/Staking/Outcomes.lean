import Sentrix.Staking.Slashing

/-!
What the registry's operations leave behind when they succeed.
-/
namespace SentrixStaking
open Effects SentrixPrimitives

namespace StakeRegistry

section
variable {reg after : StakeRegistry} {validator : Address} {u : Unit}

def slashAmount (v : ValidatorStake) (basisPoints : Nat) : Nat :=
  (v.totalStake * basisPoints / 10000) % 2 ^ 64

def afterSelfSlash (v : ValidatorStake) (amount : Nat) : ValidatorStake :=
  { v with selfStake := v.selfStake - min amount v.selfStake }

theorem slash_ok {basisPoints amount : Nat}
    (ran : slash validator basisPoints reg = .ok amount after) :
    ∃ v, reg.getValidator validator = some v ∧ amount = slashAmount v basisPoints ∧
      after = (((reg.setValidator validator (afterSelfSlash v amount)).slashDelegations validator
        (afterSelfSlash v amount) (amount - min amount v.selfStake)).slashUnbonding validator
          basisPoints).updateActiveSet := by
  unfold slash at ran
  obtain ⟨v, found, ran⟩ := fromOption_bind_ok (get_bind_ok ran)
  obtain ⟨_, _, stored, returned⟩ := bind_ok.mp ran
  obtain ⟨rfl, rfl⟩ := pure_ok.mp returned
  exact ⟨v, found, rfl, set_ok.mp stored⟩

theorem slash_error {basisPoints : Nat} {e : SentrixError}
    (failed : slash validator basisPoints reg = .error e after) :
    reg.getValidator validator = none ∧ after = reg := by
  unfold slash at failed
  rcases bind_error.mp (get_bind_error failed) with early | ⟨v, _, found, failed⟩
  · obtain ⟨unknown, -, same⟩ := fromOption_error.mp early
    exact ⟨unknown, same⟩
  · cases failed

theorem punish_ok {f : ValidatorStake → ValidatorStake} (ran : punish validator f reg = .ok u after) :
    ∃ v, reg.getValidator validator = some v ∧
      after = (reg.setValidator validator (f v)).updateActiveSet := by
  unfold punish at ran
  obtain ⟨v, found, ran⟩ := fromOption_bind_ok (get_bind_ok ran)
  exact ⟨v, found, set_ok.mp ran⟩

def OthersKept (validator : Address) (reg after : StakeRegistry) : Prop :=
  ∀ other ≠ validator, after.getValidator other = reg.getValidator other

theorem getValidator_setValidator (reg : StakeRegistry) (validator : Address)
    (v : ValidatorStake) : (reg.setValidator validator v).getValidator validator = some v :=
  AList.lookup_insert _

theorem othersKept_setValidator (reg : StakeRegistry) (validator : Address) (v : ValidatorStake) :
    OthersKept validator reg (reg.setValidator validator v) :=
  fun _ differs => AList.lookup_insert_ne differs

theorem slashDelegations_entry {v : ValidatorStake} (here : reg.getValidator validator = some v)
    (remaining : Nat) :
    (∃ total, (reg.slashDelegations validator v remaining).getValidator validator =
        some { v with totalDelegated := total }) ∧
      OthersKept validator reg (reg.slashDelegations validator v remaining) := by
  unfold slashDelegations
  split
  · exact ⟨⟨_, getValidator_setValidator _ _ _⟩, othersKept_setValidator _ _ _⟩
  · exact ⟨⟨v.totalDelegated, here⟩, fun _ _ => rfl⟩

/-- A slash lowers stakes; it does not decide about the ban. -/
theorem slash_entry {basisPoints amount : Nat}
    (ran : slash validator basisPoints reg = .ok amount after) :
    (∃ old new, reg.getValidator validator = some old ∧ after.getValidator validator = some new ∧
        new.isTombstoned = old.isTombstoned) ∧ OthersKept validator reg after := by
  obtain ⟨old, found, -, rfl⟩ := slash_ok ran
  obtain ⟨⟨total, entry⟩, others⟩ := slashDelegations_entry
    (getValidator_setValidator reg validator (afterSelfSlash old amount))
    (amount - min amount old.selfStake)
  refine ⟨⟨old, _, found, entry, rfl⟩, fun other differs => ?_⟩
  exact (others other differs).trans (othersKept_setValidator _ _ _ other differs)

theorem tombstone_entry (ran : tombstone validator reg = .ok u after) :
    (∃ new, after.getValidator validator = some new ∧ new.isTombstoned = true) ∧
      OthersKept validator reg after := by
  obtain ⟨v, -, rfl⟩ := punish_ok ran
  exact ⟨⟨_, getValidator_setValidator _ _ _, rfl⟩, othersKept_setValidator _ _ _⟩

end

end StakeRegistry

def DoubleSignEvidence.id (e : DoubleSignEvidence) : String :=
  e.validator ++ ":" ++ toString e.height ++ ":" ++ e.blockHashA ++ ":" ++ e.blockHashB

namespace SlashingEngine
variable {evidence : DoubleSignEvidence}

theorem processEvidence_ok {engine after : SlashingEngine} {fresh : Bool}
    (ran : processEvidence evidence engine = .ok fresh after) :
    evidence.blockHashA ≠ evidence.blockHashB ∧
      fresh = !engine.processed.contains evidence.id := by
  unfold processEvidence at ran
  obtain ⟨differ, ran⟩ := ensure_bind_ok ran
  obtain ⟨-, ran⟩ := ensure_bind_ok ran
  refine ⟨by simpa using differ, ?_⟩
  have ran := get_bind_ok ran
  dsimp only at ran
  split at ran
  · rename_i seen
    have seen : engine.processed.contains evidence.id = true := seen
    obtain ⟨rfl, -⟩ := pure_ok.mp ran
    rw [seen, Bool.not_true]
  · rename_i unseen
    have unseen : engine.processed.contains evidence.id = false := Bool.not_eq_true _ ▸ unseen
    obtain ⟨_, _, _, returned⟩ := bind_ok.mp ran
    obtain ⟨rfl, -⟩ := pure_ok.mp returned
    rw [unseen, Bool.not_false]

theorem processDoubleSign_ok {bench after : Bench} {amount : Nat}
    (ran : processDoubleSign evidence bench = .ok amount after) :
    evidence.blockHashA ≠ evidence.blockHashB ∧
      (evidence.id ∈ bench.engine.processed ∧ after.registry = bench.registry ∨
        evidence.id ∉ bench.engine.processed ∧
          (∃ old new, bench.registry.getValidator evidence.validator = some old ∧
            old.isTombstoned = false ∧ after.registry.getValidator evidence.validator = some new ∧
            new.isTombstoned = true) ∧
          StakeRegistry.OthersKept evidence.validator bench.registry after.registry) := by
  unfold processDoubleSign at ran
  obtain ⟨free, ran⟩ := ensure_bind_ok (get_bind_ok ran)
  obtain ⟨fresh, _, processed, ran⟩ := bind_ok.mp ran
  obtain ⟨engine, detected, rfl⟩ := focus_ok.mp processed
  obtain ⟨differ, isFresh⟩ := processEvidence_ok detected
  refine ⟨differ, ?_⟩
  split at ran
  · rename_i new
    right
    obtain ⟨amount, _, cutting, ran⟩ := bind_ok.mp ran
    obtain ⟨cut, slashed, rfl⟩ := focus_ok.mp cutting
    obtain ⟨_, _, banning, ran⟩ := bind_ok.mp ran
    obtain ⟨final, banned, rfl⟩ := focus_ok.mp banning
    obtain ⟨-, rfl⟩ := pure_ok.mp (modify_bind_ok ran)
    obtain ⟨⟨old, _, found, -⟩, keptBySlash⟩ := StakeRegistry.slash_entry slashed
    obtain ⟨⟨last, entry, ban⟩, keptByBan⟩ := StakeRegistry.tombstone_entry banned
    refine ⟨by simpa [new] using isFresh, ⟨old, last, found, ?_, entry, ban⟩, ?_⟩
    · have found : bench.registry.getValidator evidence.validator = some old := found
      simpa [found] using free
    · intro other differs
      exact (keptByBan other differs).trans (keptBySlash other differs)
  · rename_i known
    left
    obtain ⟨-, rfl⟩ := pure_ok.mp ran
    exact ⟨by simpa [known] using isFresh, rfl⟩

end SlashingEngine
end SentrixStaking
