import Sentrix.Staking.Delegations

/-!
Stake on its way out. The queue is a table of buckets by completion height that
undelegation fills, slashing rewrites and `processUnbonding` empties; here it is
followed through any run as a list of what is pending.
-/
namespace SentrixStaking
open MachineWords HashTable Effects SentrixPrimitives List

namespace StakeRegistry

def bucket (reg : StakeRegistry) (completion : Nat) : List UnbondingEntry :=
  (reg.unbondingQueue.lookup completion).getD []

abbrev Event := Call × Bool

def Call.after (reg : StakeRegistry) (c : Call) : StakeRegistry :=
  finalState c.run reg

def history : StakeRegistry → List Call → List Event
  | _, [] => []
  | reg, c :: rest => (c, succeeds c.run reg) :: history (c.after reg) rest

def Call.released (reg : StakeRegistry) (c : Call) : List (Address × Nat) :=
  match c.run reg with
  | .ok handed _ => handed
  | .error _ _ => []

def cutAmount (basisPoints amount : Nat) : Nat :=
  amount - (amount * basisPoints / 10000) % 2 ^ 64

def cutBy (validator : Address) : List Event → Nat → Nat
  | [], amount => amount
  | (.slash v bp, true) :: later, amount =>
    cutBy validator later (if v = validator then cutAmount bp amount else amount)
  | _ :: later, amount => cutBy validator later amount

/-- No release has reached the height yet. -/
def unreached (completion : Nat) : List Event → Bool
  | [] => true
  | (.processUnbonding h, _) :: later => h < completion && unreached completion later
  | _ :: later => unreached completion later

/-- What a release at the height owes: every undelegation that is complete and was not
when any earlier release was made, reduced by the slashes since. -/
def due (height : Nat) : List Event → List (Address × Nat)
  | [] => []
  | (.undelegate d v amount h, true) :: later =>
    (if satAdd64 h unbondingPeriod ≤ height ∧ unreached (satAdd64 h unbondingPeriod) later then
      [(d, cutBy v later amount)] else []) ++ due height later
  | _ :: later => due height later

def cutEntry (validator : Address) (basisPoints : Nat) (e : UnbondingEntry) : UnbondingEntry :=
  if e.validator = validator then { e with amount := cutAmount basisPoints e.amount } else e

def settle (pending : List UnbondingEntry) : Event → List UnbondingEntry
  | (.undelegate d v amount h, true) => pending ++ [⟨d, v, amount, satAdd64 h unbondingPeriod⟩]
  | (.slash v bp, true) => pending.map (cutEntry v bp)
  | (.processUnbonding h, _) => pending.filter fun e => h < e.completionHeight
  | _ => pending

def Queued (reg : StakeRegistry) (pending : List UnbondingEntry) : Prop :=
  ∀ completion, reg.bucket completion = pending.filter (·.completionHeight == completion)

theorem Queued.of_queue {reg after : StakeRegistry} {pending : List UnbondingEntry}
    (queued : Queued reg pending) (same : after.unbondingQueue = reg.unbondingQueue) :
    Queued after pending := by
  intro completion
  unfold bucket
  rw [same]
  exact queued completion

section
variable {reg after : StakeRegistry} {delegator validator : Address} {amount height : Nat}

theorem queue_of_stakes {m : Op Unit} (keeps : Keeps stakes m) :
    Keeps (·.unbondingQueue) m :=
  fun reg => congrArg (fun read => read.2.1) (keeps reg)

theorem queue_ensure {c : Bool} {e : SentrixError} :
    Keeps (·.unbondingQueue) (ensure c e : Op Unit) :=
  Keeps.ensure c e

theorem queue_fromOption {α : Type} {v : Option α} {e : SentrixError} :
    Keeps (·.unbondingQueue) (fromOption v e : Op α) :=
  Keeps.fromOption v e

/-- A view that shows neither who delegates what nor the delegated totals. -/
structure SkipsDelegations {γ : Type} (read : StakeRegistry → γ) : Prop where
  entries : ∀ reg delegator list, read (reg.setDelegations delegator list) = read reg
  totals : ∀ reg validator v total, reg.getValidator validator = some v →
    read (reg.setValidator validator { v with totalDelegated := total }) = read reg
  cooldowns : ∀ reg table, read { reg with redelegateCooldowns := table } = read reg

namespace SkipsDelegations
variable {γ : Type} {read : StakeRegistry → γ} (skips : SkipsDelegations read)
include skips

theorem growDelegation : Keeps read (growDelegation delegator validator amount height) := by
  intro reg
  unfold StakeRegistry.growDelegation
  rw [finalState_modify_bind, finalState_get_bind]
  have opened := skips.entries reg delegator (reg.delegationsOf delegator)
  dsimp only
  split
  · rw [finalState_fromOption_bind]
    cases checkedAdd64 _ amount with
    | none => exact opened
    | some grown => exact (skips.entries _ _ _).trans opened
  · rw [finalState_ensure_bind]
    split
    · exact (skips.entries _ _ _).trans opened
    · exact opened

theorem shrinkDelegation {missing exceeds : String} :
    Keeps read (shrinkDelegation delegator validator amount missing exceeds) := by
  intro reg
  unfold StakeRegistry.shrinkDelegation
  rw [finalState_get_bind, finalState_fromOption_bind]
  cases reg.delegations.lookup delegator with
  | none => rfl
  | some entries =>
    simp only [Option.map_some, Option.getD_some]
    rw [finalState_fromOption_bind]
    cases entries.find? (·.validator == validator) with
    | none => rfl
    | some e =>
      simp only [Option.map_some, Option.getD_some]
      rw [finalState_ensure_bind]
      split
      · exact skips.entries reg _ _
      · rfl

theorem addDelegated : Keeps read (addDelegated validator amount) := by
  intro reg
  unfold StakeRegistry.addDelegated
  rw [finalState_get_bind, finalState_fromOption_bind]
  cases found : reg.getValidator validator with
  | none => rfl
  | some v =>
    simp only [Option.map_some, Option.getD_some]
    rw [finalState_fromOption_bind]
    cases checkedAdd64 v.totalDelegated amount with
    | none => rfl
    | some total => exact skips.totals reg validator v total found

theorem delegate : Keeps read (delegate delegator validator amount height) := by
  unfold StakeRegistry.delegate
  refine Keeps.bind (Keeps.ensure _ _) fun _ => Keeps.bind Keeps.get fun reg => ?_
  refine Keeps.bind (Keeps.fromOption _ _) fun v => Keeps.bind (Keeps.ensure _ _) fun _ => ?_
  exact Keeps.bind skips.growDelegation fun _ => skips.addDelegated

theorem redelegate {source target : Address} :
    Keeps read (redelegate delegator source target amount height) := by
  unfold StakeRegistry.redelegate
  refine Keeps.bind (Keeps.ensure _ _) fun _ => Keeps.bind (Keeps.ensure _ _) fun _ => ?_
  refine Keeps.bind Keeps.get fun reg => Keeps.bind (Keeps.ensure _ _) fun _ => ?_
  refine Keeps.bind (Keeps.fromOption _ _) fun v => Keeps.bind (Keeps.ensure _ _) fun _ => ?_
  refine Keeps.bind skips.shrinkDelegation fun _ => Keeps.bind (Keeps.modify fun reg => ?_) fun _ => ?_
  · split
    · rename_i v found
      exact skips.totals reg source v _ found
    · rfl
  · refine Keeps.bind skips.growDelegation fun _ => Keeps.bind skips.addDelegated fun _ => ?_
    exact Keeps.modify fun reg => skips.cooldowns reg _

end SkipsDelegations

theorem queue_skips : SkipsDelegations (·.unbondingQueue) :=
  ⟨fun _ _ _ => rfl, fun _ _ _ _ _ => rfl, fun _ _ => rfl⟩

variable {c : Nat}

theorem bucket_insert {reg : StakeRegistry} {c' : Nat} {entries : List UnbondingEntry}
    (at_c : after.unbondingQueue = reg.unbondingQueue.insert c entries) :
    after.bucket c' = if c' = c then entries else reg.bucket c' := by
  unfold bucket
  rw [at_c]
  split
  · rename_i same
    rw [same, AList.lookup_insert]
    rfl
  · rename_i other
    rw [AList.lookup_insert_ne other]

theorem undelegate_queue (ran : undelegate delegator validator amount height reg = .ok () after) :
    after.unbondingQueue = reg.unbondingQueue.insert (satAdd64 height unbondingPeriod)
      (reg.bucket (satAdd64 height unbondingPeriod) ++
        [⟨delegator, validator, amount, satAdd64 height unbondingPeriod⟩]) := by
  unfold undelegate at ran
  have ran := (ensure_bind_ok ran).2
  obtain ⟨_, mid, shrunk, ran⟩ := bind_ok.mp ran
  have same : mid.unbondingQueue = reg.unbondingQueue :=
    (congrArg (·.unbondingQueue) (finalState_ok shrunk)).symm.trans (queue_skips.shrinkDelegation reg)
  have ran := get_bind_ok ran
  have ran := (ensure_bind_ok ran).2
  have ran := (ensure_bind_ok ran).2
  obtain ⟨val, -, ran⟩ := fromOption_bind_ok ran
  cases set_ok.mp ran
  unfold bucket
  rw [← same]

theorem undelegate_failed (failed : succeeds (undelegate delegator validator amount height) reg = false) :
    (finalState (undelegate delegator validator amount height) reg).unbondingQueue =
      reg.unbondingQueue := by
  obtain ⟨e, failed⟩ := error_of_not_succeeds failed
  generalize finalState (undelegate delegator validator amount height) reg = after at failed ⊢
  unfold undelegate at failed
  rcases bind_error.mp failed with early | ⟨_, mid, checked, failed⟩
  · exact queue_ensure.error early
  have start := queue_ensure.ok checked
  rcases bind_error.mp failed with early | ⟨_, shrunk, took, failed⟩
  · exact (queue_skips.shrinkDelegation.error early).trans start
  refine Eq.trans ?_ ((queue_skips.shrinkDelegation.ok took).trans start)
  -- what remains can only fail before its one write
  have failed := get_bind_error failed
  rcases bind_error.mp failed with early | ⟨_, _, few, failed⟩
  · exact queue_ensure.error early
  refine Eq.trans ?_ (queue_ensure.ok few)
  rcases bind_error.mp failed with early | ⟨_, _, few, failed⟩
  · exact queue_ensure.error early
  refine Eq.trans ?_ (queue_ensure.ok few)
  rcases bind_error.mp failed with early | ⟨val, _, found, failed⟩
  · exact queue_fromOption.error early
  · cases failed

variable {pending : List UnbondingEntry}

theorem queued_undelegate (queued : Queued reg pending)
    (ran : undelegate delegator validator amount height reg = .ok () after) :
    Queued after (pending ++ [⟨delegator, validator, amount, satAdd64 height unbondingPeriod⟩]) := by
  intro c
  rw [bucket_insert (undelegate_queue ran), filter_append, ← queued c]
  generalize satAdd64 height unbondingPeriod = completion
  by_cases same : c = completion
  · subst same
    rw [if_pos rfl, filter_cons_of_pos (by simp), filter_nil]
  · rw [if_neg same, filter_cons_of_neg (by simpa using Ne.symm same), filter_nil,
      append_nil]

theorem completion_cutEntry (v : Address) (bp : Nat) (e : UnbondingEntry) :
    (cutEntry v bp e).completionHeight = e.completionHeight := by
  unfold cutEntry
  split <;> rfl

theorem bucket_slashUnbonding (reg : StakeRegistry) (validator : Address) (bp c : Nat) :
    (reg.slashUnbonding validator bp).bucket c = (reg.bucket c).map (cutEntry validator bp) := by
  unfold bucket slashUnbonding
  rw [lookup_mapValues]
  cases reg.unbondingQueue.lookup c <;> rfl

variable {bp : Nat}

theorem queued_slashUnbonding (queued : Queued reg pending) :
    Queued (reg.slashUnbonding validator bp) (pending.map (cutEntry validator bp)) := by
  intro c
  rw [bucket_slashUnbonding, queued c, filter_map]
  congr 2
  funext e
  simp only [Function.comp, completion_cutEntry]

theorem queue_slashDelegations {val : ValidatorStake} {remaining : Nat} :
    (reg.slashDelegations validator val remaining).unbondingQueue = reg.unbondingQueue := by
  unfold slashDelegations
  split <;> rfl

theorem queued_slash {loss : Nat} (queued : Queued reg pending)
    (ran : slash validator bp reg = .ok loss after) :
    Queued after (pending.map (cutEntry validator bp)) := by
  unfold slash at ran
  have ran := get_bind_ok ran
  obtain ⟨val, -, ran⟩ := fromOption_bind_ok ran
  obtain ⟨_, mid, wrote, ran⟩ := bind_ok.mp ran
  cases set_ok.mp wrote
  obtain ⟨-, rfl⟩ := pure_ok.mp ran
  refine Queued.of_queue (queued_slashUnbonding (Queued.of_queue queued ?_)) rfl
  exact queue_slashDelegations

theorem slash_failed (failed : succeeds (slash validator bp) reg = false) :
    (finalState (slash validator bp) reg).unbondingQueue = reg.unbondingQueue := by
  obtain ⟨e, failed⟩ := error_of_not_succeeds failed
  rw [(slash_error failed).2]

/-- The lists of distinct groups are, together, the members of any of these groups. -/
theorem perm_groups {α κ : Type} [DecidableEq α] [DecidableEq κ] (group : α → κ) (l : List α)
    {keys : List κ} (distinct : keys.Nodup) :
    (keys.flatMap fun k => l.filter (group · == k)).Perm (l.filter (group · ∈ keys)) := by
  rw [perm_iff_count]
  intro a
  induction keys with
  | nil => simp
  | cons k rest ih =>
    obtain ⟨fresh, distinct⟩ := List.nodup_cons.mp distinct
    rw [flatMap_cons, count_append, ih distinct]
    by_cases here : group a = k
    · have none_later : (l.filter (group · ∈ rest)).count a = 0 :=
        count_eq_zero_of_not_mem (by simp [here, fresh])
      rw [count_filter (by simp [here]), none_later, count_filter (by simp [here]),
        Nat.add_zero]
    · have none_here : (l.filter (group · == k)).count a = 0 :=
        count_eq_zero_of_not_mem (by simp [here])
      rw [none_here, Nat.zero_add]
      by_cases later : group a ∈ rest
      · rw [count_filter (by simp [later]), count_filter (by simp [later])]
      · rw [count_eq_zero_of_not_mem (by simp [later]),
          count_eq_zero_of_not_mem (by simp [later, here])]

def maturedKeys (reg : StakeRegistry) (height : Nat) : List Nat :=
  (reg.unbondingQueue.keys.filter (· ≤ height)).insertionSort (· ≤ ·)

theorem mem_maturedKeys :
    c ∈ reg.maturedKeys height ↔ c ∈ reg.unbondingQueue.keys ∧ c ≤ height := by
  unfold maturedKeys
  rw [(perm_insertionSort _ _).mem_iff, mem_filter, decide_eq_true_iff]

theorem bucket_of_not_key (absent : c ∉ reg.unbondingQueue.keys) : reg.bucket c = [] := by
  unfold bucket
  rw [AList.lookup_eq_none.mpr absent]
  rfl

theorem queued_process (queued : Queued reg pending) :
    Queued (reg.processUnbonding height).1 (pending.filter fun e => height < e.completionHeight) := by
  intro c
  have read : (reg.processUnbonding height).1.bucket c =
      if c ∈ reg.maturedKeys height then [] else reg.bucket c := by
    show (AList.lookup c (reg.unbondingQueue.eraseAll (reg.maturedKeys height))).getD [] = _
    rw [lookup_eraseAll]
    split <;> rfl
  rw [read, filter_filter]
  by_cases matured : c ≤ height
  · have gone : pending.filter (fun e => e.completionHeight == c && height < e.completionHeight) =
        [] := by
      rw [filter_eq_nil_iff]
      intro e _
      simp only [Bool.and_eq_true, beq_iff_eq, decide_eq_true_iff]
      omega
    rw [gone]
    split
    · rfl
    · rename_i other
      refine bucket_of_not_key fun key => other (mem_maturedKeys.mpr ⟨key, matured⟩)
  · rw [if_neg fun inside => matured (mem_maturedKeys.mp inside).2, queued c]
    refine filter_congr fun e _ => ?_
    by_cases same : e.completionHeight = c
    · simp [same, Nat.lt_of_not_le matured]
    · simp [same]

theorem released_perm (queued : Queued reg pending) :
    (reg.processUnbonding height).2.Perm
      ((pending.filter (·.completionHeight ≤ height)).map fun e => (e.delegator, e.amount)) := by
  show (((reg.maturedKeys height).flatMap reg.bucket).map fun e => (e.delegator, e.amount)).Perm _
  refine List.Perm.map _ ?_
  have buckets : reg.bucket = fun c => pending.filter (·.completionHeight == c) :=
    funext queued
  have distinct : (reg.maturedKeys height).Nodup :=
    (perm_insertionSort _ _).nodup_iff.mpr (reg.unbondingQueue.keys_nodup.filter _)
  rw [buckets]
  refine (perm_groups (·.completionHeight) pending distinct).trans (List.Perm.of_eq ?_)
  refine filter_congr fun e member => ?_
  rw [decide_eq_decide, mem_maturedKeys, and_iff_right_iff_imp]
  intro _
  by_contra absent
  have found : e ∈ reg.bucket e.completionHeight := by
    rw [queued e.completionHeight]
    exact List.mem_filter.mpr ⟨member, by simp⟩
  rw [bucket_of_not_key absent] at found
  cases found

theorem finalState_then {α β : Type} (m : Op α) (b : β) :
    finalState (do let _ ← m; pure b) reg = finalState m reg := by
  show finalState (EStateM.bind m fun _ => pure b) reg = _
  unfold finalState EStateM.bind
  cases m reg <;> rfl

theorem succeeds_then {α β : Type} (m : Op α) (b : β) :
    succeeds (do let _ ← m; pure b) reg = succeeds m reg := by
  show Effects.succeeds (EStateM.bind m fun _ => pure b) reg = _
  unfold Effects.succeeds EStateM.bind
  cases m reg <;> rfl

theorem queued_step (queued : Queued reg pending) (c : Call) :
    Queued (c.after reg) (settle pending (c, succeeds c.run reg)) := by
  have same {m : Op Unit} (keeps : Keeps (·.unbondingQueue) m) :
      Queued (finalState (do let _ ← m; pure ([] : List (Address × Nat))) reg) pending := by
    rw [finalState_then]
    exact queued.of_queue (keeps reg)
  cases c with
  | undelegate d v amount h =>
    unfold Call.after Call.run
    rw [finalState_then, succeeds_then]
    cases went : succeeds (StakeRegistry.undelegate d v amount h) reg with
    | true => exact queued_undelegate queued (ok_of_succeeds went)
    | false => exact queued.of_queue (undelegate_failed went)
  | slash v bp =>
    unfold Call.after Call.run
    rw [finalState_then, succeeds_then]
    cases went : succeeds (StakeRegistry.slash v bp) reg with
    | true =>
      obtain ⟨loss, after, ran⟩ := succeeds_iff.mp went
      rw [finalState_ok ran]
      exact queued_slash queued ran
    | false => exact queued.of_queue (slash_failed went)
  | processUnbonding h => exact queued_process queued
  | delegate => exact same queue_skips.delegate
  | redelegate => exact same queue_skips.redelegate
  | registerValidator => exact same (queue_of_stakes (stakes_registerValidator _ _ _ _))
  | addSelfStake => exact same (queue_of_stakes (stakes_addSelfStake _))
  | jail => exact same (queue_of_stakes (stakes_jail _ _))
  | tombstone => exact same (queue_of_stakes stakes_tombstone)
  | unjail => exact same (queue_of_stakes (stakes_unjail _))
  | forceUnjail => exact same (queue_of_stakes stakes_forceUnjail)
  | updateActiveSet => exact same (Keeps.modify fun _ => rfl)
  | distributeReward => exact same (queue_of_stakes (stakes_distributeReward _ _ _ _))
  | updateCommission => exact same (queue_of_stakes (stakes_updateCommission _ _))
  | takeDelegatorRewards => exact same (Keeps.modify fun _ => rfl)

theorem queued_history (queued : Queued reg pending) (calls : List Call) :
    Queued (calls.foldl Call.after reg) ((history reg calls).foldl settle pending) := by
  induction calls generalizing reg pending with
  | nil => exact queued
  | cons c rest ih => exact ih (queued_step queued c)

theorem settle_due (events : List Event) (pending : List UnbondingEntry) :
    ((events.foldl settle pending).filter (·.completionHeight ≤ height)).map
        (fun e => (e.delegator, e.amount)) =
      (pending.filter fun e => decide (e.completionHeight ≤ height) &&
          unreached e.completionHeight events).map
        (fun e => (e.delegator, cutBy e.validator events e.amount)) ++ due height events := by
  induction events generalizing pending with
  | nil => simp [unreached, cutBy, due]
  | cons event rest ih =>
    obtain ⟨c, went⟩ := event
    rw [foldl_cons, ih]
    cases c with
    | undelegate d v amount h =>
      cases went with
      | false => rfl
      | true =>
        simp only [settle, due, unreached, cutBy, filter_append, map_append,
          append_assoc]
        generalize satAdd64 h unbondingPeriod = completion
        congr 2
        by_cases now : completion ≤ height ∧ unreached completion rest = true
        · simp [now]
        · rw [if_neg now, filter_cons_of_neg (by simpa using now)]
          rfl
    | slash v bp =>
      cases went with
      | false => rfl
      | true =>
        simp only [settle, due, unreached, cutBy, filter_map, map_map]
        congr 1
        refine congr (congrArg List.map (funext fun e => ?_)) (filter_congr fun e _ => ?_)
        · simp only [Function.comp, cutEntry]
          by_cases same : e.validator = v
          · simp [same]
          · simp [same, Ne.symm same]
        · simp only [Function.comp, completion_cutEntry]
    | processUnbonding h =>
      simp only [settle, due, unreached, cutBy, filter_filter]
      congr 2
      refine filter_congr fun e _ => ?_
      cases decide (h < e.completionHeight) <;> simp
    | _ => rfl

/-- Whatever calls were made, a release hands out exactly what is due: each successful
undelegation once, when a release first reaches its completion, and nothing else. -/
theorem releases_due (calls : List Call) (height : Nat) :
    (Call.released (calls.foldl Call.after .new) (.processUnbonding height)).Perm
      (due height (history .new calls)) := by
  have queued : Queued (calls.foldl Call.after .new) ((history .new calls).foldl settle []) :=
    queued_history (fun _ => rfl) calls
  have paid := @settle_due height (history .new calls) []
  rw [filter_nil, map_nil, nil_append] at paid
  rw [← paid]
  exact released_perm queued

/-- The completion height saturates: near the top a release is not held back. -/
theorem released_at_once :
    let calls : List Call :=
      [.registerValidator "v" minSelfStake minCommission 0, .delegate "alice" "v" 100 u64Max,
        .undelegate "alice" "v" 100 u64Max]
    (history .new calls).map Prod.snd = [true, true, true] ∧
      Call.released (calls.foldl Call.after .new) (.processUnbonding u64Max) = [("alice", 100)] ∧
      u64Max < u64Max + unbondingPeriod := by
  decide

end
end StakeRegistry
end SentrixStaking
