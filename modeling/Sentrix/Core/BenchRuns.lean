import Sentrix.Core.Atomicity
import Sentrix.Core.Evidence
import Sentrix.Core.TwinRuns

/-!
The staking side of a block. Its transactions and the epoch boundary act on the registry
and the slashing engine by quiet steps only, the bookkeeping of the block in between
adds its signatures.
-/
namespace SentrixCore
open Effects SentrixPrimitives SentrixStaking
open SlashingEngine (Bench QuietStep BenchStep)
open Relation (ReflTransGen)

namespace Blockchain

def Quietly (bc after : Blockchain) : Prop :=
  ReflTransGen QuietStep bc.bench after.bench

section
variable {bc after : Blockchain}

theorem quietly_of_same (same : after.bench = bc.bench) : Quietly bc after := by
  unfold Quietly
  rw [same]

theorem quietly_of_steps (steps : ReflTransGen Quietly bc after) : Quietly bc after := by
  induction steps with
  | refl => exact .refl
  | tail _ last ih => exact ih.trans last

end

theorem quiet_transactions : TransactionMoves Quietly where
  bench := .single
  authority _ _ := .refl
  accounts _ _ := .refl
  contracts _ _ := .refl
  nfts _ _ := .refl

theorem quiet_protocol : ProtocolMoves Quietly where
  bench := .single
  authority _ _ := .refl
  credit _ _ _ := .refl
  payout _ _ _ := .refl
  burn _ _ := .refl
  epochs _ _ := .refl

section
variable (env : Platform) (now : Nat) (b : Block)

def recorded (b : Block) (before : Bench) : Bench :=
  match b.justification with
  | none => before
  | some j => { before with
      engine := before.engine.recordBlockSignatures (j.precommits.map (·.validator)) b.index }

theorem quiet_rewarded (forks : Forks) {bc : Blockchain} (top : bc.chain.getLast? = some b) :
    ReflTransGen QuietStep (recorded b bc.bench)
      (applyRewardBookkeepingForLatestBlock forks bc).bench := by
  unfold applyRewardBookkeepingForLatestBlock recorded
  simp only [top]
  cases b.justification with
  | none => exact .refl
  | some j =>
    have paid := QuietStep.call (b := ⟨bc.slashing.recordBlockSignatures
        (j.precommits.map (·.validator)) b.index, bc.stakeRegistry⟩)
      (.distributeReward b.validator (j.precommits.map fun p => (p.validator, p.stakeWeight))
        (bc.getBlockReward forks) 0)
    have same : (StakeRegistry.Call.distributeReward b.validator
        (j.precommits.map fun p => (p.validator, p.stakeWeight))
        (bc.getBlockReward forks) 0).after bc.stakeRegistry =
      finalState (StakeRegistry.distributeReward b.validator
        (j.precommits.map fun p => (p.validator, p.stakeWeight)) (bc.getBlockReward forks) 0)
        bc.stakeRegistry := StakeRegistry.finalState_then _ _
    rw [same] at paid
    exact .single paid

theorem quiet_bookkeeping {bc after : Blockchain} {u : Unit}
    (top : bc.chain.getLast? = some b) (ran : bookkeeping env bc = .ok u after) :
    ReflTransGen QuietStep
      (if reached env.forks.rewardApplyPath b.index then recorded b bc.bench else bc.bench)
      after.bench := by
  have height : bc.height = b.index := by simp [Blockchain.height, top]
  have ran := get_bind_ok ran
  rw [height] at ran
  split at ran
  · rename_i active
    rw [if_pos active]
    have ran := get_bind_ok (modify_bind_ok ran)
    have boundary := quietly_of_steps ((quiet_protocol.steps_runEpochBookkeeping env.forks _).ok ran)
    exact (quiet_rewarded b env.forks top).trans boundary
  · rename_i inactive
    rw [if_neg inactive]
    obtain ⟨-, rfl⟩ := pure_ok.mp ran
    exact .refl

end

section
variable {env : Platform} {s : Submission} {bc after : Blockchain}

theorem accepted_stages {u : Unit} (accepted : submit env s bc = .ok u after) :
    ∃ joined booked, Quietly bc joined ∧ joined.chain.getLast? = some s.block ∧
      bookkeeping env joined = .ok () booked ∧ after.bench = booked.bench := by
  obtain ⟨verified, applied, -, -, pass2, rfl⟩ := addBlockWithSource_ok accepted
  obtain ⟨computed, x, upTo, settled⟩ := applyBlockPass2_split.mp pass2
  obtain ⟨body, booked, bodyRan, bookRan, updated⟩ := applyUpToRoot_ok.mp upTo
  have opened : Quietly (bc.entering s.source verified) body :=
    quietly_of_steps ((steps_applyBody env s.now s.block quiet_transactions quiet_protocol
      (fun _ _ _ _ => .refl) fun _ _ => .refl).ok bodyRan)
  have joined : Quietly body (pushBlock s.block body) := by
    apply quietly_of_same
    simp only [bench, pushBlock]
  have sealing : applied.bench = booked.bench := calc
    applied.bench = x.bench := (keeps_settleStateRoot_of (fun _ _ => rfl) computed).ok settled
    _ = (rebaseTreasury env.settings booked).bench :=
      updateTrie_view (fun _ _ => rfl) (fun _ => rfl) updated
    _ = booked.bench := rfl
  exact ⟨pushBlock s.block body, booked, opened.trans joined, getLast?_pushBlock s.block body,
    bookRan, sealing⟩

theorem accepted_bench {u : Unit} (accepted : submit env s bc = .ok u after) :
    ∃ before, ReflTransGen QuietStep bc.bench before ∧ ReflTransGen QuietStep
      (if reached env.forks.rewardApplyPath s.block.index then recorded s.block before else before)
      after.bench := by
  obtain ⟨joined, booked, opened, top, bookRan, sealing⟩ := accepted_stages accepted
  rw [sealing]
  exact ⟨joined.bench, opened, quiet_bookkeeping env s.block top bookRan⟩

theorem rejected_bench {e : SentrixError} (rejected : submit env s bc = .error e after) :
    after.bench = bc.bench := by
  rcases addBlockWithSource_error rejected with ⟨-, _, rfl⟩ | ⟨_, _, -, -, -, rfl⟩
  · rfl
  · rfl

end

/-- Registry calls, the engine's judgements, the bookkeeping of a validator's own loop and
submitted blocks, accepted or not. -/
inductive StakingEvent where
  | call (c : StakeRegistry.Call)
  | evidence (e : DoubleSignEvidence)
  | sweep (height : Nat)
  | rewards
  | epoch (height : Nat)
  | block (s : Submission)

def StakingEvent.after (env : Platform) (bc : Blockchain) : StakingEvent → Blockchain
  | .call c => { bc with stakeRegistry := c.after bc.stakeRegistry }
  | .evidence e => finalState (onBench (SlashingEngine.processDoubleSign e)) bc
  | .sweep height => punishDowntime height bc
  | .rewards => applyRewardBookkeepingForLatestBlock env.forks bc
  | .epoch height => finalState (runEpochBookkeeping env.forks height) bc
  | .block s => finalState (submit env s) bc

def afterEvents (env : Platform) (bc : Blockchain) (events : List StakingEvent) : Blockchain :=
  events.foldl (StakingEvent.after env) bc

theorem path_of_quiet {x y : Bench} (quiet : ReflTransGen QuietStep x y) :
    ReflTransGen BenchStep x y := by
  induction quiet with
  | refl => exact .refl
  | tail _ step ih => exact ih.tail (.quiet step)

theorem path_recorded (b : Block) (x : Bench) : ReflTransGen BenchStep x (recorded b x) := by
  unfold recorded
  cases b.justification with
  | none => exact .refl
  | some => exact .single (.signed _ _)

theorem path_event (env : Platform) (bc : Blockchain) (event : StakingEvent) :
    ReflTransGen BenchStep bc.bench (event.after env bc).bench := by
  cases event with
  | call c => exact .single (.quiet (.call c))
  | evidence e =>
    exact path_of_quiet (quietly_of_steps
      (quiet_protocol.steps_onBench (SlashingEngine.quiet_processDoubleSign e) bc))
  | sweep height => exact path_of_quiet (SlashingEngine.quiet_checkLiveness height _ bc.bench)
  | epoch height =>
    exact path_of_quiet (quietly_of_steps
      (quiet_protocol.steps_runEpochBookkeeping env.forks height bc))
  | rewards =>
    cases top : bc.chain.getLast? with
    | none =>
      simp only [StakingEvent.after, applyRewardBookkeepingForLatestBlock, top]
      exact .refl
    | some b =>
      exact (path_recorded b bc.bench).trans (path_of_quiet (quiet_rewarded b env.forks top))
  | block s =>
    show ReflTransGen BenchStep bc.bench (finalState (submit env s) bc).bench
    cases ran : submit env s bc with
    | error => rw [finalState_error ran, rejected_bench ran]
    | ok =>
      rw [finalState_ok ran]
      obtain ⟨before, quiet, rest⟩ := accepted_bench ran
      refine (path_of_quiet quiet).trans (.trans ?_ (path_of_quiet rest))
      split
      · exact path_recorded s.block before
      · exact .refl

theorem hygienic_afterEvents {banned : Address → Prop} (env : Platform)
    (events : List StakingEvent) : ∀ {bc : Blockchain},
      StakeRegistry.Hygienic banned bc.stakeRegistry →
        StakeRegistry.Hygienic banned (afterEvents env bc events).stakeRegistry := by
  induction events with
  | nil => exact id
  | cons event _ ih =>
    intro bc clean
    exact ih (SlashingEngine.hygienic_of_path (path_event env bc event) clean)

def Tombstoned (bc : Blockchain) (validator : Address) : Prop :=
  ∃ v, bc.stakeRegistry.getValidator validator = some v ∧ v.isTombstoned = true

/-- A registry that starts empty: whatever happens, the active set lists registered validators
that are fit for it at that moment, each once and not too many, and nobody who has ever been
tombstoned. -/
theorem active_set_hygienic (env : Platform) {start : Blockchain}
    (fresh : start.stakeRegistry = .new) (events : List StakingEvent) :
    let reached := afterEvents env start events
    let reg := reached.stakeRegistry
    reg.activeSet.Nodup ∧ reg.activeSet.length ≤ maxActiveValidators ∧
      (∀ a ∈ reg.activeSet, ∃ v, reg.getValidator a = some v ∧ v.isJailed = false ∧
        v.isTombstoned = false ∧ minSelfStake ≤ v.selfStake) ∧
      ∀ earlier later, events = earlier ++ later →
        ∀ a, Tombstoned (afterEvents env start earlier) a → a ∉ reg.activeSet := by
  have empty : StakeRegistry.Hygienic (fun _ => False) start.stakeRegistry := by
    rw [fresh]
    exact StakeRegistry.Hygienic.new
  have clean := hygienic_afterEvents env events empty
  refine ⟨clean.nodup, clean.few, ?_, ?_⟩
  · intro a member
    obtain ⟨v, found, eligible⟩ := clean.eligible a member
    simp only [ValidatorStake.isActiveEligible, Bool.and_eq_true, Bool.not_eq_eq_eq_not,
      Bool.not_true, decide_eq_true_eq] at eligible
    exact ⟨v, found, eligible.1.1, eligible.1.2, eligible.2⟩
  · rintro earlier later rfl a gone
    -- from here on the tombstones of that moment are carried along
    have then_ := (hygienic_afterEvents env earlier empty).banning
    have split : afterEvents env start (earlier ++ later) =
        afterEvents env (afterEvents env start earlier) later := List.foldl_append
    rw [split]
    exact (hygienic_afterEvents env later then_).excluded gone

/-- Two validators register, one of them is banned and then calls everything it can. -/
theorem banned_validator_stays_out :
    let events := [StakingEvent.call (.registerValidator firstValidator minSelfStake 500 1),
      .call (.registerValidator secondValidator minSelfStake 500 1), .call .updateActiveSet,
      .call (.tombstone secondValidator), .call (.unjail secondValidator 900),
      .call (.addSelfStake secondValidator minSelfStake), .call (.forceUnjail secondValidator),
      .sweep 28799, .call .updateActiveSet]
    let reached := afterEvents (plainPlatform (tableWire [])) (seedChain .new) events
    reached.stakeRegistry.activeSet = [firstValidator] ∧
      secondValidator ∉ reached.stakeRegistry.activeSet := by
  refine ⟨by decide, ?_⟩
  refine (active_set_hygienic _ rfl _).2.2.2 _ _ (List.take_append_drop 4 _).symm secondValidator ?_
  exact ⟨_, rfl, rfl⟩

end Blockchain
end SentrixCore
