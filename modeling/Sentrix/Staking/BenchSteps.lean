import Sentrix.Staking.ActiveSet

/-!
The registry and the slashing engine side by side. Everything the chain does to
the two is a call of the registry, a claim or a drop of rewards, a verdict, a
cleared window or a block's signatures.
-/
namespace SentrixStaking
open HashTable Effects SentrixPrimitives
open Relation (ReflTransGen)

namespace StakeRegistry

def takePending (reg : StakeRegistry) (claimer : Address) : StakeRegistry :=
  match reg.getValidator claimer with
  | some v => reg.setValidator claimer { v with pendingRewards := 0 }
  | none => reg

def dropRewards (reg : StakeRegistry) : StakeRegistry :=
  { reg with
    validators := reg.validators.mapValues fun _ v => { v with pendingRewards := 0 }
    delegatorRewards := ∅ }

theorem standing_takePending (reg : StakeRegistry) (claimer : Address) :
    (reg.takePending claimer).standing = reg.standing := by
  unfold takePending
  split
  · rename_i v found
    exact standing_setValidator found rfl rfl rfl
  · rfl

theorem standing_dropRewards (reg : StakeRegistry) : reg.dropRewards.standing = reg.standing := by
  refine Prod.ext rfl (funext fun a => ?_)
  show ((reg.validators.mapValues fun _ v => { v with pendingRewards := 0 }).lookup a).map _ =
    (reg.validators.lookup a).map _
  rw [lookup_mapValues]
  cases reg.validators.lookup a <;> rfl

end StakeRegistry

namespace SlashingEngine

inductive QuietStep (b : Bench) : Bench → Prop where
  | call (c : StakeRegistry.Call) : QuietStep b { b with registry := c.after b.registry }
  | claimed (claimer : Address) : QuietStep b { b with registry := b.registry.takePending claimer }
  | dropped : QuietStep b { b with registry := b.registry.dropRewards }
  | judged (e : SlashingEngine) (same : e.liveness = b.engine.liveness) :
      QuietStep b { b with engine := e }
  | cleared (validator : Address) : QuietStep b { b with
      engine := { b.engine with liveness := b.engine.liveness.reset validator } }

inductive BenchStep (b : Bench) : Bench → Prop where
  | quiet {after : Bench} : QuietStep b after → BenchStep b after
  | signed (signers : List Address) (height : Nat) :
      BenchStep b { b with engine := b.engine.recordBlockSignatures signers height }

section
variable {b : Bench}

theorem quiet_call (c : StakeRegistry.Call) {α : Type} {m : StakeRegistry.Op α}
    (same : ∀ reg, c.after reg = finalState m reg) : Steps QuietStep (onRegistry m) := by
  apply Steps.single
  intro b
  have final : finalState (onRegistry m) b = { b with registry := c.after b.registry } := by
    rw [same]
    unfold finalState onRegistry focus
    cases m b.registry <;> rfl
  rw [final]
  exact .call c

theorem liveness_processEvidence (evidence : DoubleSignEvidence) :
    Keeps SlashingEngine.liveness (processEvidence evidence) := by
  unfold processEvidence
  refine Keeps.bind (Keeps.ensure _ _) fun _ => Keeps.bind (Keeps.ensure _ _) fun _ => ?_
  intro engine
  rw [finalState_get_bind]
  dsimp only
  split <;> rfl

theorem quiet_processEvidence (evidence : DoubleSignEvidence) :
    Steps QuietStep (onEngine (processEvidence evidence)) := by
  apply Steps.single
  intro b
  have kept := liveness_processEvidence evidence b.engine
  have final : finalState (onEngine (processEvidence evidence)) b =
      { b with engine := finalState (processEvidence evidence) b.engine } := by
    unfold finalState onEngine focus
    cases processEvidence evidence b.engine <;> rfl
  rw [final]
  exact .judged _ kept

theorem after_slash (validator : Address) (bp : Nat) (reg : StakeRegistry) :
    (StakeRegistry.Call.slash validator bp).after reg =
      finalState (StakeRegistry.slash validator bp) reg :=
  StakeRegistry.finalState_then _ _

theorem after_jail (validator : Address) (duration height : Nat) (reg : StakeRegistry) :
    (StakeRegistry.Call.jail validator duration height).after reg =
      finalState (StakeRegistry.jail validator duration height) reg :=
  StakeRegistry.finalState_then _ _

theorem quiet_processDoubleSign (evidence : DoubleSignEvidence) :
    Steps QuietStep (processDoubleSign evidence) := by
  unfold processDoubleSign
  refine Steps.bind Steps.get fun _ => Steps.bind (Steps.ensure _ _) fun _ => ?_
  apply Steps.bind (quiet_processEvidence evidence)
  intro fresh
  apply Steps.ite
  · apply Steps.bind (quiet_call (.slash evidence.validator doubleSignSlashBp) (after_slash _ _))
    intro amount
    apply Steps.bind
    · exact quiet_call (.tombstone evidence.validator) fun _ => StakeRegistry.finalState_then _ _
    intro _
    refine Steps.bind (Steps.modify fun _ => .judged _ rfl) fun _ => Steps.pure _
  · exact Steps.pure _

theorem quiet_checkOne (height : Nat) (b : Bench) (validator : Address) :
    ReflTransGen QuietStep b (checkOne height b validator).1 := by
  unfold checkOne
  split
  · exact .refl
  · have cut := QuietStep.call (b := b) (.slash validator downtimeSlashBp)
    rw [after_slash] at cut
    split
    · rename_i e reg ran
      rw [finalState_error ran] at cut
      exact .single cut
    · rename_i amount reg ran
      rw [finalState_ok ran] at cut
      have jailed := QuietStep.call (b := { b with registry := reg })
        (.jail validator downtimeJailBlocks height)
      rw [after_jail] at jailed
      exact (((ReflTransGen.single cut).tail jailed).tail (.cleared validator)).tail
        (.judged _ rfl)

theorem quiet_checkLiveness (height : Nat) (set : List Address) :
    ∀ b, ReflTransGen QuietStep b (checkLiveness height set b).1 := by
  induction set with
  | nil => exact fun b => .refl
  | cons validator rest ih => exact fun b => (quiet_checkOne height b validator).trans (ih _)

variable {banned : Address → Prop} {after : Bench}
open StakeRegistry (Hygienic)

theorem QuietStep.hygienic (step : QuietStep b after) (clean : Hygienic banned b.registry) :
    Hygienic banned after.registry := by
  cases step with
  | call c => exact clean.call c
  | claimed claimer => exact clean.of_standing (StakeRegistry.standing_takePending _ _)
  | dropped => exact clean.of_standing (StakeRegistry.standing_dropRewards _)
  | judged | cleared => exact clean

theorem BenchStep.hygienic (step : BenchStep b after) (clean : Hygienic banned b.registry) :
    Hygienic banned after.registry := by
  cases step with
  | quiet step => exact step.hygienic clean
  | signed => exact clean

theorem hygienic_of_path (path : ReflTransGen BenchStep b after)
    (clean : Hygienic banned b.registry) : Hygienic banned after.registry := by
  induction path with
  | refl => exact clean
  | tail _ step ih => exact step.hygienic ih

end
end SlashingEngine
end SentrixStaking
