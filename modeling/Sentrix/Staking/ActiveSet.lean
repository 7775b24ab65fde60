import Sentrix.Staking.Payouts
import Sentrix.Staking.Unbonding

/-!
The stored active set. It is refreshed by slashing, jailing, tombstoning and unjailing
only; everything else either leaves eligibility alone or raises it, so between refreshes
no member loses the right to be there.
-/
namespace SentrixStaking
open MachineWords HashTable Effects SentrixPrimitives List

namespace StakeRegistry

/-- The set lists eligible validators, each once and not too many; the validators in `banned`
are tombstoned; and every record lies under its own address. -/
structure Hygienic (banned : Address → Prop) (reg : StakeRegistry) : Prop where
  keyed : ∀ a v, reg.getValidator a = some v → v.address = a
  nodup : reg.activeSet.Nodup
  few : reg.activeSet.length ≤ maxActiveValidators
  eligible : ∀ a ∈ reg.activeSet, ∃ v, reg.getValidator a = some v ∧ v.isActiveEligible = true
  tombstoned : ∀ a, banned a → ∃ v, reg.getValidator a = some v ∧ v.isTombstoned = true

section
variable {banned : Address → Prop} {reg after : StakeRegistry} {validator : Address}

theorem Hygienic.new : Hygienic (fun _ => False) .new :=
  ⟨fun _ _ found => (nomatch found), nodup_nil, Nat.zero_le _,
    fun _ member => (nomatch member), fun _ => False.elim⟩

theorem Hygienic.banning (clean : Hygienic banned reg) :
    Hygienic (fun a => ∃ v, reg.getValidator a = some v ∧ v.isTombstoned = true) reg :=
  { clean with tombstoned := fun _ gone => gone }

theorem Hygienic.excluded (clean : Hygienic banned reg) {a : Address} (out : banned a) :
    a ∉ reg.activeSet := by
  intro member
  obtain ⟨v, found, eligible⟩ := clean.eligible a member
  obtain ⟨v', found', gone⟩ := clean.tombstoned a out
  rw [found] at found'
  cases found'
  simp [ValidatorStake.isActiveEligible, gone] at eligible

theorem Hygienic.raise (clean : Hygienic banned reg) {v : ValidatorStake}
    (own : v.address = validator)
    (kept : ∀ old, reg.getValidator validator = some old →
      (old.isActiveEligible = true → v.isActiveEligible = true) ∧
        (old.isTombstoned = true → v.isTombstoned = true)) :
    Hygienic banned (reg.setValidator validator v) := by
  have read : ∀ a, (reg.setValidator validator v).getValidator a =
      if a = validator then some v else reg.getValidator a := by
    intro a
    by_cases same : a = validator
    · subst same
      rw [getValidator_setValidator, if_pos rfl]
    · rw [othersKept_setValidator reg validator v a same, if_neg same]
  refine ⟨?_, clean.nodup, clean.few, ?_, ?_⟩
  · intro a x found
    rw [read] at found
    split at found
    · rename_i same
      cases found
      rw [same, own]
    · exact clean.keyed a x found
  · intro a member
    obtain ⟨old, found, eligible⟩ := clean.eligible a member
    rw [read]
    split
    · rename_i same
      rw [same] at found
      exact ⟨v, rfl, (kept old found).1 eligible⟩
    · exact ⟨old, found, eligible⟩
  · intro a out
    obtain ⟨old, found, gone⟩ := clean.tombstoned a out
    rw [read]
    split
    · rename_i same
      rw [same] at found
      exact ⟨v, rfl, (kept old found).2 gone⟩
    · exact ⟨old, found, gone⟩

theorem Hygienic.refresh (keyed : ∀ a v, reg.getValidator a = some v → v.address = a)
    (tombstoned : ∀ a, banned a → ∃ v, reg.getValidator a = some v ∧ v.isTombstoned = true) :
    Hygienic banned reg.updateActiveSet := by
  -- The chosen records, before their addresses are read off.
  let eligible := (reg.validators.pairs.map Prod.snd).filter ValidatorStake.isActiveEligible
  let chosen := (eligible.insertionSort ranksBefore).take maxActiveValidators
  have listed : ∀ v ∈ chosen, reg.getValidator v.address = some v ∧ v.isActiveEligible = true := by
    intro v member
    have sorted := mem_of_mem_take member
    rw [mem_insertionSort, mem_filter] at sorted
    obtain ⟨⟨a, x⟩, pair, rfl⟩ := List.mem_map.mp sorted.1
    have found : reg.getValidator a = some x := mem_pairs.mp pair
    refine ⟨?_, sorted.2⟩
    show reg.getValidator x.address = some x
    rw [keyed a x found, found]
  have distinct : (eligible.map ValidatorStake.address).Nodup := by
    have keys : (reg.validators.pairs.map Prod.snd).map ValidatorStake.address =
        reg.validators.keys := by
      rw [map_map]
      unfold Table.pairs
      rw [map_map]
      apply map_congr_left
      intro e member
      exact keyed e.1 e.2 (AList.mem_lookup_iff.mpr member)
    have all : ((reg.validators.pairs.map Prod.snd).map ValidatorStake.address).Nodup := by
      rw [keys]
      exact reg.validators.keys_nodup
    exact all.sublist (List.filter_sublist.map _)
  refine ⟨keyed, ?_, ?_, ?_, tombstoned⟩
  · show (chosen.map ValidatorStake.address).Nodup
    have sorted : ((eligible.insertionSort ranksBefore).map ValidatorStake.address).Nodup :=
      ((perm_insertionSort _ _).map _).nodup_iff.mpr distinct
    exact sorted.sublist ((take_sublist _ _).map _)
  · show (chosen.map ValidatorStake.address).length ≤ maxActiveValidators
    rw [length_map]
    exact length_take_le _ _
  · intro a member
    obtain ⟨v, taken, rfl⟩ := List.mem_map.mp member
    exact ⟨v, listed v taken⟩

def standing (reg : StakeRegistry) : List Address × (Address → Option (Address × Bool × Bool)) :=
  (reg.activeSet, fun a =>
    (reg.getValidator a).map fun v => (v.address, v.isActiveEligible, v.isTombstoned))

theorem Hygienic.of_standing (clean : Hygienic banned reg) (same : after.standing = reg.standing) :
    Hygienic banned after := by
  have set : after.activeSet = reg.activeSet := congrArg Prod.fst same
  have records : ∀ a, (after.getValidator a).map (fun v =>
        (v.address, v.isActiveEligible, v.isTombstoned)) =
      (reg.getValidator a).map fun v => (v.address, v.isActiveEligible, v.isTombstoned) :=
    fun a => congrFun (congrArg Prod.snd same) a
  -- Each record has a counterpart that stands alike.
  have forth : ∀ a v, reg.getValidator a = some v → ∃ v', after.getValidator a = some v' ∧
      v'.isActiveEligible = v.isActiveEligible ∧ v'.isTombstoned = v.isTombstoned := by
    intro a v found
    have here := records a
    rw [found] at here
    obtain ⟨v', found', alike⟩ := Option.map_eq_some_iff.mp here
    exact ⟨v', found', congrArg (·.2.1) alike, congrArg (·.2.2) alike⟩
  refine ⟨?_, set ▸ clean.nodup, set ▸ clean.few, ?_, ?_⟩
  · intro a v' found'
    have here := records a
    rw [found'] at here
    obtain ⟨v, found, alike⟩ := Option.map_eq_some_iff.mp here.symm
    have own : v.address = v'.address := congrArg (·.1) alike
    exact own ▸ clean.keyed a v found
  · intro a member
    rw [set] at member
    obtain ⟨v, found, eligible⟩ := clean.eligible a member
    obtain ⟨v', found', same', _⟩ := forth a v found
    exact ⟨v', found', same'.trans eligible⟩
  · intro a out
    obtain ⟨v, found, gone⟩ := clean.tombstoned a out
    obtain ⟨v', found', _, same'⟩ := forth a v found
    exact ⟨v', found', same'.trans gone⟩

theorem standing_setValidator {old v : ValidatorStake}
    (found : reg.getValidator validator = some old) (own : v.address = old.address)
    (eligible : v.isActiveEligible = old.isActiveEligible)
    (tombstoned : v.isTombstoned = old.isTombstoned) :
    (reg.setValidator validator v).standing = reg.standing := by
  refine Prod.ext rfl (funext fun a => ?_)
  show ((reg.setValidator validator v).getValidator a).map _ = (reg.getValidator a).map _
  by_cases same : a = validator
  · subst same
    rw [getValidator_setValidator, found]
    simp only [Option.map_some, own, eligible, tombstoned]
  · rw [othersKept_setValidator reg validator v a same]

variable {delegator : Address} {amount height : Nat}

theorem standing_skips : SkipsDelegations standing :=
  ⟨fun _ _ _ => rfl, fun _ _ _ _ found => standing_setValidator found rfl rfl rfl, fun _ _ => rfl⟩

theorem standing_undelegate : Keeps standing (undelegate delegator validator amount height) := by
  unfold undelegate
  refine Keeps.bind (Keeps.ensure _ _) fun _ => Keeps.bind standing_skips.shrinkDelegation fun _ => ?_
  intro reg
  rw [finalState_get_bind]
  dsimp only
  rw [finalState_ensure_bind]
  split
  · rw [finalState_ensure_bind]
    split
    · rw [finalState_fromOption_bind]
      cases found : reg.getValidator validator with
      | none => rfl
      | some => exact standing_setValidator found rfl rfl rfl
    · rfl
  · rfl

theorem standing_addPending (reg : StakeRegistry) (amount : Nat) :
    (reg.addPending validator amount).standing = reg.standing := by
  unfold addPending
  split
  · rename_i v found
    exact standing_setValidator found rfl rfl rfl
  · rfl

theorem standing_credit (reg : StakeRegistry) (c : Credit) :
    (reg.credit c).standing = reg.standing := by
  cases c with
  | pending _ n => exact standing_addPending reg n
  | delegator d n =>
    show (reg.addDelegatorReward d n).standing = _
    unfold addDelegatorReward
    split <;> rfl

theorem standing_distributeReward (proposer : Address) (signers : List (Address × Nat))
    (reward feeShare : Nat) : Keeps standing (distributeReward proposer signers reward feeShare) := by
  intro reg
  rw [distributeReward_eq]
  exact foldl_keeps _ standing_credit _ reg

theorem standing_updateCommission (rate : Nat) :
    Keeps standing (updateCommission validator rate height) := by
  intro reg
  unfold updateCommission
  rw [finalState_get_bind, finalState_fromOption_bind]
  cases found : reg.getValidator validator with
  | none => rfl
  | some =>
    simp only [Option.map_some, Option.getD_some, finalState_ensure_bind]
    split_ifs
    · exact standing_setValidator found rfl rfl rfl
    all_goals rfl

theorem Hygienic.registerValidator (clean : Hygienic banned reg) (selfStake rate : Nat) :
    Hygienic banned (finalState (registerValidator validator selfStake rate height) reg) := by
  unfold StakeRegistry.registerValidator
  simp only [finalState_get_bind, finalState_ensure_bind]
  split_ifs with absent enough within
  · refine clean.raise rfl ?_
    intro old found
    rw [found] at absent
    cases absent
  all_goals exact clean

theorem Hygienic.addSelfStake (clean : Hygienic banned reg) :
    Hygienic banned (finalState (addSelfStake validator amount) reg) := by
  unfold StakeRegistry.addSelfStake
  simp only [finalState_get_bind, finalState_ensure_bind, finalState_fromOption_bind]
  split
  · cases found : reg.getValidator validator with
    | none => exact clean
    | some v =>
      simp only [Option.map_some, Option.getD_some]
      split
      · cases sum : checkedAdd64 v.selfStake amount with
        | none => exact clean
        | some =>
          refine clean.raise (clean.keyed validator v found) ?_
          intro old found'
          rw [found] at found'
          cases found'
          refine ⟨fun eligible => ?_, fun gone => gone⟩
          have more := (checkedAdd64_eq_some sum).1
          simp only [ValidatorStake.isActiveEligible, Bool.and_eq_true, decide_eq_true_eq]
            at eligible ⊢
          exact ⟨eligible.1, by omega⟩
      · exact clean
  · exact clean

theorem Hygienic.forceUnjail (clean : Hygienic banned reg) :
    Hygienic banned (finalState (forceUnjail validator) reg) := by
  unfold StakeRegistry.forceUnjail
  simp only [finalState_get_bind, finalState_ensure_bind, finalState_fromOption_bind]
  cases found : reg.getValidator validator with
  | none => exact clean
  | some v =>
    simp only [Option.map_some, Option.getD_some]
    split
    · rename_i standing
      refine clean.raise (clean.keyed validator v found) ?_
      intro old found'
      rw [found] at found'
      cases found'
      refine ⟨fun eligible => ?_, fun gone => gone⟩
      simp only [ValidatorStake.isActiveEligible, Bool.and_eq_true, decide_eq_true_eq]
        at eligible ⊢
      exact ⟨⟨rfl, eligible.1.2⟩, Nat.le_max_right _ _⟩
    · exact clean

theorem Hygienic.rewrite (clean : Hygienic banned reg) {old v : ValidatorStake}
    (found : reg.getValidator validator = some old) (own : v.address = old.address)
    (tombstone : old.isTombstoned = true → v.isTombstoned = true)
    (here : after.getValidator validator = some v) (others : OthersKept validator reg after) :
    Hygienic banned after.updateActiveSet := by
  apply Hygienic.refresh
  · intro a x found'
    by_cases same : a = validator
    · subst same
      rw [here] at found'
      cases found'
      rw [own]
      exact clean.keyed a old found
    · rw [others a same] at found'
      exact clean.keyed a x found'
  · intro a out
    obtain ⟨x, found', gone⟩ := clean.tombstoned a out
    by_cases same : a = validator
    · subst same
      rw [found] at found'
      cases found'
      exact ⟨v, here, tombstone gone⟩
    · exact ⟨x, (others a same).trans found', gone⟩

theorem Hygienic.punish (clean : Hygienic banned reg) {f : ValidatorStake → ValidatorStake}
    (own : ∀ v, (f v).address = v.address)
    (tombstone : ∀ v, v.isTombstoned = true → (f v).isTombstoned = true) :
    Hygienic banned (finalState (punish validator f) reg) := by
  unfold StakeRegistry.punish
  simp only [finalState_get_bind, finalState_fromOption_bind]
  cases found : reg.getValidator validator with
  | none => exact clean
  | some v =>
    exact clean.rewrite found (own v) (tombstone v) (getValidator_setValidator _ _ _)
      (othersKept_setValidator _ _ _)

theorem Hygienic.unjail (clean : Hygienic banned reg) :
    Hygienic banned (finalState (unjail validator height) reg) := by
  unfold StakeRegistry.unjail
  simp only [finalState_get_bind, finalState_ensure_bind, finalState_fromOption_bind]
  cases reg.getValidator validator with
  | none => exact clean
  | some =>
    simp only [Option.map_some, Option.getD_some]
    split_ifs
    · exact clean.punish (fun _ => rfl) fun _ gone => gone
    all_goals exact clean

/-- A slash only fails for want of the validator, before it has done anything. -/
theorem Hygienic.slash (clean : Hygienic banned reg) (basisPoints : Nat) :
    Hygienic banned (finalState (slash validator basisPoints) reg) := by
  cases ran : StakeRegistry.slash validator basisPoints reg with
  | error =>
    rw [finalState_error ran, (slash_error ran).2]
    exact clean
  | ok taken =>
    rw [finalState_ok ran]
    obtain ⟨v, found, -, rfl⟩ := slash_ok ran
    obtain ⟨⟨total, here⟩, others⟩ := slashDelegations_entry
      (getValidator_setValidator reg validator (afterSelfSlash v taken)) (taken - min taken v.selfStake)
    refine clean.rewrite (v := { afterSelfSlash v taken with totalDelegated := total }) found rfl
      (fun gone => gone) here ?_
    intro a other
    exact (others a other).trans (othersKept_setValidator _ _ _ a other)

theorem Hygienic.call (clean : Hygienic banned reg) (c : Call) : Hygienic banned (c.after reg) := by
  have alone {α : Type} {m : Op α} (held : Hygienic banned (finalState m reg)) :
      Hygienic banned (finalState (do let _ ← m; pure ([] : List (Address × Nat))) reg) :=
    (finalState_then m _).symm ▸ held
  have kept {α : Type} {m : Op α} (keeps : Keeps standing m) :
      Hygienic banned (finalState (do let _ ← m; pure ([] : List (Address × Nat))) reg) :=
    alone (clean.of_standing (keeps reg))
  cases c with
  | updateActiveSet => exact Hygienic.refresh clean.keyed clean.tombstoned
  | takeDelegatorRewards => exact clean.of_standing rfl
  | processUnbonding => exact clean.of_standing rfl
  | registerValidator _ stake rate => exact alone (clean.registerValidator stake rate)
  | addSelfStake => exact alone (clean.addSelfStake)
  | delegate => exact kept standing_skips.delegate
  | undelegate => exact kept standing_undelegate
  | redelegate => exact kept standing_skips.redelegate
  | slash _ bp => exact alone (clean.slash bp)
  | jail => exact alone (clean.punish (fun _ => rfl) fun _ gone => gone)
  | tombstone => exact alone (clean.punish (fun _ => rfl) fun _ _ => rfl)
  | unjail => exact alone (clean.unjail)
  | forceUnjail => exact alone (clean.forceUnjail)
  | distributeReward p signers reward fees =>
    exact kept (standing_distributeReward p signers reward fees)
  | updateCommission _ rate => exact kept (standing_updateCommission rate)

end
end StakeRegistry
end SentrixStaking
