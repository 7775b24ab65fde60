import Sentrix.Staking.Outcomes

/-!
The registry over whole runs. A validator's delegated total and the delegators' entries
are kept apart and updated by different operations; after any run of them the total is
what the entries add up to.
-/
namespace SentrixStaking
open MachineWords HashTable Effects SentrixPrimitives List

namespace StakeRegistry

/-- Operator recovery: out of jail with the least stake there is. -/
def forceUnjail (validator : Address) : Op Unit := do
  let reg ← get
  let val ← fromOption (reg.getValidator validator) notFoundValidator
  ensure (!val.isTombstoned) (.invalidTransaction "tombstoned validators cannot unjail")
  set (reg.setValidator validator
    { val with selfStake := max val.selfStake minSelfStake, isJailed := false, jailUntil := 0 })

def updateCommission (validator : Address) (newRate currentHeight : Nat) : Op Unit := do
  let reg ← get
  let val ← fromOption (reg.getValidator validator) notFoundValidator
  ensure (minCommission ≤ newRate && newRate ≤ maxCommission)
    (.invalidTransaction ("commission " ++ toString newRate ++ " out of range [" ++
      toString minCommission ++ ", " ++ toString maxCommission ++ "]"))
  ensure (newRate ≤ val.maxCommissionRate) (.invalidTransaction ("commission " ++
    toString newRate ++ " exceeds max " ++ toString val.maxCommissionRate))
  let diff := (newRate - val.commissionRate) + (val.commissionRate - newRate)
  ensure (diff ≤ maxCommissionChangePerEpoch) (.invalidTransaction ("commission change " ++
    toString diff ++ " exceeds max " ++ toString maxCommissionChangePerEpoch ++ " per epoch"))
  let epoch := currentHeight / epochLength
  ensure (val.lastCommissionChangeHeight == 0 ||
      val.lastCommissionChangeHeight / epochLength != epoch)
    (.invalidTransaction ("commission already changed in epoch " ++ toString epoch ++
      " (at height " ++ toString val.lastCommissionChangeHeight ++
      "); at most one change per epoch"))
  set (reg.setValidator validator
    { val with commissionRate := newRate, lastCommissionChangeHeight := currentHeight })

inductive Call where
  | registerValidator (address : Address) (selfStake commissionRate height : Nat)
  | addSelfStake (validator : Address) (amount : Nat)
  | delegate (delegator validator : Address) (amount height : Nat)
  | undelegate (delegator validator : Address) (amount height : Nat)
  | redelegate (delegator source target : Address) (amount height : Nat)
  | slash (validator : Address) (basisPoints : Nat)
  | jail (validator : Address) (duration height : Nat)
  | tombstone (validator : Address)
  | unjail (validator : Address) (height : Nat)
  | forceUnjail (validator : Address)
  | updateActiveSet
  | distributeReward (proposer : Address) (signers : List (Address × Nat)) (reward feeShare : Nat)
  | updateCommission (validator : Address) (rate height : Nat)
  | takeDelegatorRewards (delegator : Address)
  | processUnbonding (height : Nat)
  deriving DecidableEq

/-- The call, with what it hands out: matured stakes only come from `processUnbonding`. -/
def Call.run : Call → Op (List (Address × Nat))
  | .registerValidator a stake rate h => do
    StakeRegistry.registerValidator a stake rate h
    pure []
  | .addSelfStake v amount => do StakeRegistry.addSelfStake v amount; pure []
  | .delegate d v amount h => do StakeRegistry.delegate d v amount h; pure []
  | .undelegate d v amount h => do StakeRegistry.undelegate d v amount h; pure []
  | .redelegate d s t amount h => do StakeRegistry.redelegate d s t amount h; pure []
  | .slash v bp => do let _ ← StakeRegistry.slash v bp; pure []
  | .jail v duration h => do StakeRegistry.jail v duration h; pure []
  | .tombstone v => do StakeRegistry.tombstone v; pure []
  | .unjail v h => do StakeRegistry.unjail v h; pure []
  | .forceUnjail v => do StakeRegistry.forceUnjail v; pure []
  | .updateActiveSet => do modify StakeRegistry.updateActiveSet; pure []
  | .distributeReward p signers reward fees => do
    StakeRegistry.distributeReward p signers reward fees
    pure []
  | .updateCommission v rate h => do StakeRegistry.updateCommission v rate h; pure []
  | .takeDelegatorRewards d => do modify (·.takeDelegatorRewards d); pure []
  | .processUnbonding h => fun reg =>
    .ok (reg.processUnbonding h).2 (reg.processUnbonding h).1

def Call.runAll : List Call → Op Unit
  | [] => pure ()
  | c :: rest => do
    let _ ← c.run
    runAll rest

def totalDelegatedOf (reg : StakeRegistry) (validator : Address) : Nat :=
  ((reg.getValidator validator).map (·.totalDelegated)).getD 0

def stakes (reg : StakeRegistry) :
    Table Address (List DelegationEntry) × Table Nat (List UnbondingEntry) × (Address → Nat) :=
  (reg.delegations, reg.unbondingQueue, reg.totalDelegatedOf)

theorem totalDelegatedOf_setValidator (reg : StakeRegistry) (validator : Address)
    (v : ValidatorStake) (w : Address) :
    (reg.setValidator validator v).totalDelegatedOf w =
      if w = validator then v.totalDelegated else reg.totalDelegatedOf w := by
  unfold totalDelegatedOf
  by_cases same : w = validator
  · subst same
    rw [getValidator_setValidator, if_pos rfl]
    rfl
  · rw [othersKept_setValidator reg validator v w same, if_neg same]

theorem stakes_setValidator {reg : StakeRegistry} {validator : Address} {v : ValidatorStake}
    (same : v.totalDelegated = reg.totalDelegatedOf validator) :
    stakes (reg.setValidator validator v) = stakes reg := by
  have totals : (reg.setValidator validator v).totalDelegatedOf = reg.totalDelegatedOf := by
    funext w
    rw [totalDelegatedOf_setValidator]
    split
    · rename_i here
      rw [here, same]
    · rfl
  unfold stakes
  rw [totals]
  rfl

theorem totalDelegatedOf_found {reg : StakeRegistry} {validator : Address} {v : ValidatorStake}
    (found : reg.getValidator validator = some v) :
    reg.totalDelegatedOf validator = v.totalDelegated := by
  unfold totalDelegatedOf
  rw [found]
  rfl

section
variable {validator : Address} {reg : StakeRegistry}

theorem stakes_punish {f : ValidatorStake → ValidatorStake}
    (same : ∀ v, (f v).totalDelegated = v.totalDelegated) :
    Keeps stakes (punish validator f) := by
  intro reg
  unfold punish
  rw [finalState_get_bind, finalState_fromOption_bind]
  cases found : reg.getValidator validator with
  | none => rfl
  | some v => exact stakes_setValidator ((same v).trans (totalDelegatedOf_found found).symm)

theorem stakes_jail (duration height : Nat) : Keeps stakes (jail validator duration height) := by
  refine stakes_punish ?_
  intro v
  rfl

theorem stakes_tombstone : Keeps stakes (tombstone validator) := by
  refine stakes_punish ?_
  intro v
  rfl

theorem stakes_registerValidator (address : Address) (selfStake rate height : Nat) :
    Keeps stakes (registerValidator address selfStake rate height) := by
  intro reg
  unfold registerValidator
  rw [finalState_get_bind, finalState_ensure_bind, finalState_ensure_bind, finalState_ensure_bind]
  split
  · rename_i fresh
    have none : reg.totalDelegatedOf address = 0 := by
      unfold totalDelegatedOf
      rw [Option.isNone_iff_eq_none.mp fresh]
      rfl
    split
    · split
      · exact stakes_setValidator none.symm
      · rfl
    · rfl
  · rfl

theorem stakes_addSelfStake (amount : Nat) : Keeps stakes (addSelfStake validator amount) := by
  intro reg
  unfold addSelfStake
  rw [finalState_ensure_bind, finalState_get_bind, finalState_fromOption_bind]
  split
  · cases found : reg.getValidator validator with
    | none => rfl
    | some v =>
      simp only [Option.map_some, Option.getD_some]
      rw [finalState_ensure_bind, finalState_fromOption_bind]
      split
      · cases checkedAdd64 v.selfStake amount with
        | none => rfl
        | some => exact stakes_setValidator (totalDelegatedOf_found found).symm
      · rfl
  · rfl

theorem stakes_unjail (height : Nat) : Keeps stakes (unjail validator height) := by
  intro reg
  unfold unjail
  rw [finalState_get_bind, finalState_fromOption_bind]
  cases reg.getValidator validator with
  | none => rfl
  | some v =>
    simp only [Option.map_some, Option.getD_some]
    rw [finalState_ensure_bind, finalState_ensure_bind, finalState_ensure_bind]
    split
    · split
      · split
        · refine stakes_punish ?_ reg
          intro v
          rfl
        · rfl
      · rfl
    · rfl

theorem stakes_forceUnjail : Keeps stakes (forceUnjail validator) := by
  intro reg
  unfold forceUnjail
  rw [finalState_get_bind, finalState_fromOption_bind]
  cases found : reg.getValidator validator with
  | none => rfl
  | some =>
    simp only [Option.map_some, Option.getD_some]
    rw [finalState_ensure_bind]
    split
    · exact stakes_setValidator (totalDelegatedOf_found found).symm
    · rfl

theorem stakes_updateCommission (rate height : Nat) :
    Keeps stakes (updateCommission validator rate height) := by
  intro reg
  unfold updateCommission
  rw [finalState_get_bind, finalState_fromOption_bind]
  cases found : reg.getValidator validator with
  | none => rfl
  | some =>
    simp only [Option.map_some, Option.getD_some, finalState_ensure_bind]
    repeat' split
    all_goals first
      | exact stakes_setValidator (totalDelegatedOf_found found).symm
      | rfl

theorem stakes_addPending (reg : StakeRegistry) (amount : Nat) :
    stakes (reg.addPending validator amount) = stakes reg := by
  unfold addPending
  split
  · rename_i v found
    exact stakes_setValidator (totalDelegatedOf_found found).symm
  · rfl

theorem stakes_addDelegatorReward (reg : StakeRegistry) (delegator : Address) (amount : Nat) :
    stakes (reg.addDelegatorReward delegator amount) = stakes reg := by
  unfold addDelegatorReward
  split <;> rfl

theorem stakes_foldl {α : Type} (l : List α) {f : StakeRegistry → α → StakeRegistry}
    (each : ∀ reg a, stakes (f reg a) = stakes reg) (reg : StakeRegistry) :
    stakes (l.foldl f reg) = stakes reg := by
  induction l generalizing reg with
  | nil => rfl
  | cons a _ ih => exact (ih (f reg a)).trans (each reg a)

theorem stakes_payDelegators (reg : StakeRegistry) (pool : Nat) :
    stakes (reg.payDelegators validator pool) = stakes reg := by
  unfold payDelegators
  dsimp only
  split
  · rfl
  · exact stakes_foldl _ (fun r e => stakes_addDelegatorReward r _ _) reg

theorem stakes_payOneSigner (reg : StakeRegistry) (signerShare : Nat) :
    stakes (reg.payOneSigner validator signerShare) = stakes reg := by
  unfold payOneSigner
  split
  · rfl
  · dsimp only
    split
    · exact stakes_addPending _ _
    · split
      · exact (stakes_addPending _ _).trans (stakes_addPending _ _)
      · exact (stakes_payDelegators _ _).trans
          ((stakes_addPending _ _).trans (stakes_addPending _ _))

theorem stakes_distributeReward (proposer : Address) (signers : List (Address × Nat))
    (reward feeShare : Nat) : Keeps stakes (distributeReward proposer signers reward feeShare) := by
  intro reg
  unfold distributeReward
  dsimp only
  split
  · unfold distributeToSingleValidator
    rw [finalState_get_bind, finalState_fromOption_bind]
    cases reg.getValidator proposer with
    | none => rfl
    | some =>
      simp only [Option.map_some, Option.getD_some]
      show stakes (if _ then _ else _) = _
      split
      · exact stakes_addPending _ _
      · exact (stakes_addPending _ _).trans (stakes_addPending _ _)
  · refine stakes_foldl signers (fun r signer => ?_) reg
    dsimp only
    split
    · rfl
    · exact stakes_payOneSigner _ _

end

def amountTo (validator : Address) (entries : List DelegationEntry) : Nat :=
  (entries.map fun e => if e.validator = validator then e.amount else 0).sum

structure Listed (delegator : Address) (entries : List DelegationEntry) : Prop where
  own : ∀ e ∈ entries, e.delegator = delegator
  distinct : (entries.map (·.validator)).Nodup
  few : entries.length ≤ maxDelegationsPerAccount

section
variable {delegator validator : Address} {entries kept : List DelegationEntry} {w : Address}

theorem amountTo_cons (e : DelegationEntry) :
    amountTo w (e :: entries) = (if e.validator = w then e.amount else 0) + amountTo w entries := by
  simp [amountTo]

theorem amountTo_append (more : List DelegationEntry) :
    amountTo w (entries ++ more) = amountTo w entries + amountTo w more := by
  simp [amountTo]

theorem amountTo_eq_sum (w : Address) (entries : List DelegationEntry) :
    amountTo w entries = ((entries.filter (·.validator == w)).map (·.amount)).sum := by
  induction entries with
  | nil => rfl
  | cons e _ ih =>
    rw [amountTo_cons, ih]
    by_cases named : e.validator = w
    · simp [named]
    · simp [named]

theorem Listed.nil : Listed delegator [] :=
  ⟨nofun, nodup_nil, Nat.zero_le _⟩

theorem Listed.sublist (listed : Listed delegator entries) (fewer : kept.Sublist entries) :
    Listed delegator kept :=
  ⟨fun e member => listed.own e (fewer.subset member), listed.distinct.sublist (fewer.map _),
    fewer.length_le.trans listed.few⟩

theorem updateFirst_split {α : Type} {p : α → Bool} {l : List α} {x : α}
    (found : l.find? p = some x) (f : α → α) :
    ∃ before after, l = before ++ x :: after ∧ updateFirst p f l = before ++ f x :: after := by
  induction l with
  | nil => cases found
  | cons y rest ih =>
    unfold updateFirst
    by_cases here : p y = true
    · rw [List.find?_cons_of_pos here] at found
      cases found
      exact ⟨[], rest, rfl, by rw [if_pos here]; rfl⟩
    · rw [List.find?_cons_of_neg here] at found
      obtain ⟨before, after, split, updated⟩ := ih found
      exact ⟨y :: before, after, by rw [split]; rfl, by rw [if_neg here, updated]; rfl⟩

theorem amountTo_updateFirst {e : DelegationEntry} (f : DelegationEntry → DelegationEntry)
    (found : entries.find? (·.validator == validator) = some e)
    (same : (f e).validator = e.validator) (w : Address) :
    amountTo w (updateFirst (·.validator == validator) f entries) +
      (if w = validator then e.amount else 0) =
        amountTo w entries + if w = validator then (f e).amount else 0 := by
  have named : e.validator = validator := by simpa using List.find?_some found
  obtain ⟨before, after, rfl, updated⟩ := updateFirst_split found f
  rw [updated]
  simp only [amountTo_append, amountTo_cons, same, named]
  by_cases here : validator = w
  · subst here
    simp only [if_true]
    omega
  · simp only [here, Ne.symm here, if_false]

theorem Listed.updateFirst {e : DelegationEntry} (f : DelegationEntry → DelegationEntry)
    (found : entries.find? (·.validator == validator) = some e)
    (same : (f e).validator = e.validator ∧ (f e).delegator = e.delegator)
    (listed : Listed delegator entries) :
    Listed delegator (SentrixStaking.updateFirst (·.validator == validator) f entries) := by
  obtain ⟨before, after, rfl, updated⟩ := updateFirst_split found f
  rw [updated]
  refine ⟨fun x member => ?_, ?_, ?_⟩
  · rcases List.mem_append.mp member with early | late
    · exact listed.own x (mem_append_left _ early)
    · rcases List.mem_cons.mp late with rfl | late
      · exact same.2.trans (listed.own e (mem_append_right _ mem_cons_self))
      · exact listed.own x (mem_append_right _ (mem_cons_of_mem _ late))
  · simpa [same.1] using listed.distinct
  · simpa using listed.few

theorem amountTo_filter {p : DelegationEntry → Bool}
    (zero : ∀ e ∈ entries, p e = false → e.amount = 0) :
    amountTo w (entries.filter p) = amountTo w entries := by
  induction entries with
  | nil => rfl
  | cons e _ ih =>
    have later := ih fun x member => zero x (mem_cons_of_mem _ member)
    cases keep : p e with
    | true => rw [filter_cons_of_pos keep, amountTo_cons, amountTo_cons, later]
    | false =>
      rw [filter_cons_of_neg (by simp [keep]), amountTo_cons, later,
        zero e mem_cons_self keep, ite_self, Nat.zero_add]

end

theorem delegatedTo_eq (reg : StakeRegistry) (validator : Address) :
    reg.delegatedTo validator =
      sumOf (fun _ entries => amountTo validator entries) reg.delegations := by
  unfold delegatedTo Table.pairs sumOf amountTo
  generalize reg.delegations.entries = entries
  induction entries with
  | nil => rfl
  | cons _ _ ih => simpa using ih

theorem delegatedTo_setDelegations (reg : StakeRegistry) (delegator : Address)
    (entries : List DelegationEntry) (w : Address) :
    (reg.setDelegations delegator entries).delegatedTo w + amountTo w (reg.delegationsOf delegator) =
      reg.delegatedTo w + amountTo w entries := by
  have grown := sumOf_insert (fun _ entries => amountTo w entries) reg.delegations delegator entries
  rw [delegatedTo_eq, delegatedTo_eq]
  unfold delegationsOf
  cases found : reg.delegations.lookup delegator with
  | none =>
    rw [found] at grown
    exact grown
  | some =>
    rw [found] at grown
    exact grown

structure Booked (reg : StakeRegistry) : Prop where
  totals : ∀ v, reg.totalDelegatedOf v = reg.delegatedTo v
  words : ∀ v, reg.totalDelegatedOf v ≤ u64Max
  listed : ∀ d, Listed d (reg.delegationsOf d)

theorem Booked.new : Booked .new :=
  ⟨fun _ => rfl, fun _ => Nat.zero_le _, fun _ => .nil⟩

theorem Booked.of_stakes {reg after : StakeRegistry} (booked : Booked reg)
    (same : stakes after = stakes reg) : Booked after := by
  obtain ⟨delegations, rest⟩ := Prod.mk.inj same
  obtain ⟨-, totals⟩ := Prod.mk.inj rest
  have sums (v : Address) : after.delegatedTo v = reg.delegatedTo v := by
    unfold delegatedTo
    rw [delegations]
  have lists (d : Address) : after.delegationsOf d = reg.delegationsOf d := by
    unfold delegationsOf
    rw [delegations]
  exact ⟨fun v => by rw [totals, sums, booked.totals], fun v => by rw [totals]; exact booked.words v,
    fun d => by rw [lists]; exact booked.listed d⟩

theorem delegationsOf_setDelegations (reg : StakeRegistry) (delegator : Address)
    (entries : List DelegationEntry) (d : Address) :
    (reg.setDelegations delegator entries).delegationsOf d =
      if d = delegator then entries else reg.delegationsOf d := by
  unfold delegationsOf setDelegations
  by_cases same : d = delegator
  · subst same
    rw [AList.lookup_insert, if_pos rfl]
    rfl
  · rw [AList.lookup_insert_ne same, if_neg same]

theorem Booked.change {reg : StakeRegistry} (booked : Booked reg) {delegator validator : Address}
    {entries : List DelegationEntry} {v : ValidatorStake} (listed : Listed delegator entries)
    (others : ∀ w ≠ validator, amountTo w entries = amountTo w (reg.delegationsOf delegator))
    (moved : v.totalDelegated + amountTo validator (reg.delegationsOf delegator) =
      reg.totalDelegatedOf validator + amountTo validator entries)
    (word : v.totalDelegated ≤ u64Max) :
    Booked ((reg.setDelegations delegator entries).setValidator validator v) := by
  have sums (w : Address) := delegatedTo_setDelegations reg delegator entries w
  have same (w : Address) : ((reg.setDelegations delegator entries).setValidator validator
      v).delegatedTo w = (reg.setDelegations delegator entries).delegatedTo w := rfl
  refine ⟨fun w => ?_, fun w => ?_, fun d => ?_⟩
  · have sum := sums w
    have before := booked.totals w
    rw [totalDelegatedOf_setValidator, same]
    split
    · rename_i here
      subst here
      omega
    · rename_i other
      have untouched : (reg.setDelegations delegator entries).totalDelegatedOf w =
        reg.totalDelegatedOf w := rfl
      have amounts := others w other
      omega
  · rw [totalDelegatedOf_setValidator]
    split
    · exact word
    · exact booked.words w
  · show Listed d ((reg.setDelegations delegator entries).delegationsOf d)
    rw [delegationsOf_setDelegations]
    split
    · rename_i here
      subst here
      exact listed
    · exact booked.listed d

section
variable {reg after : StakeRegistry} {delegator validator : Address} {amount height : Nat} {u : Unit}

def grown (delegator validator : Address) (amount height : Nat) (entries : List DelegationEntry) :
    List DelegationEntry :=
  match entries.find? (·.validator == validator) with
  | some e => updateFirst (·.validator == validator)
      (fun x => { x with amount := e.amount + amount }) entries
  | none => entries ++ [⟨delegator, validator, amount, height⟩]

def CanGrow (validator : Address) (amount : Nat) (entries : List DelegationEntry) : Prop :=
  match entries.find? (·.validator == validator) with
  | some e => e.amount + amount ≤ u64Max
  | none => entries.length < maxDelegationsPerAccount

def shrunk (validator : Address) (amount : Nat) (e : DelegationEntry)
    (entries : List DelegationEntry) : List DelegationEntry :=
  let less := updateFirst (·.validator == validator)
    (fun x => { x with amount := x.amount - amount }) entries
  if e.amount - amount = 0 then less.filter fun x => !(x.validator == validator && x.amount == 0)
  else less

theorem delegationsOf_self (reg : StakeRegistry) (delegator : Address)
    (entries : List DelegationEntry) :
    (reg.setDelegations delegator entries).delegationsOf delegator = entries := by
  rw [delegationsOf_setDelegations, if_pos rfl]

theorem setDelegations_twice (reg : StakeRegistry) (delegator : Address)
    (entries entries' : List DelegationEntry) :
    (reg.setDelegations delegator entries).setDelegations delegator entries' =
      reg.setDelegations delegator entries' := by
  simp only [setDelegations, AList.insert_insert]

theorem growDelegation_run (ran : growDelegation delegator validator amount height reg = .ok u after) :
    CanGrow validator amount (reg.delegationsOf delegator) ∧
      after = reg.setDelegations delegator
        (grown delegator validator amount height (reg.delegationsOf delegator)) := by
  unfold growDelegation at ran
  have ran := get_bind_ok (modify_bind_ok ran)
  simp only [delegationsOf_self] at ran
  unfold CanGrow grown
  cases found : (reg.delegationsOf delegator).find? (·.validator == validator) with
  | some =>
    simp only [found] at ran
    obtain ⟨total, checked, ran⟩ := fromOption_bind_ok ran
    obtain ⟨rfl, fits⟩ := checkedAdd64_eq_some checked
    exact ⟨fits, (set_ok.mp ran).trans (setDelegations_twice _ _ _ _)⟩
  | none =>
    simp only [found] at ran
    obtain ⟨room, ran⟩ := ensure_bind_ok ran
    exact ⟨by simpa using room, (set_ok.mp ran).trans (setDelegations_twice _ _ _ _)⟩

theorem shrinkDelegation_run {missing exceeds : String}
    (ran : shrinkDelegation delegator validator amount missing exceeds reg = .ok u after) :
    ∃ e, (reg.delegationsOf delegator).find? (·.validator == validator) = some e ∧
      amount ≤ e.amount ∧ after = reg.setDelegations delegator
        (shrunk validator amount e (reg.delegationsOf delegator)) := by
  unfold shrinkDelegation at ran
  obtain ⟨entries, stored, ran⟩ := fromOption_bind_ok (get_bind_ok ran)
  have current : reg.delegationsOf delegator = entries := by
    unfold delegationsOf
    rw [stored]
    rfl
  rw [current]
  obtain ⟨e, found, ran⟩ := fromOption_bind_ok ran
  obtain ⟨enough, ran⟩ := ensure_bind_ok ran
  exact ⟨e, found, by simpa using enough, set_ok.mp ran⟩

theorem amountTo_grown (entries : List DelegationEntry) (w : Address) :
    amountTo w (grown delegator validator amount height entries) =
      amountTo w entries + if w = validator then amount else 0 := by
  unfold grown
  split
  · rename_i e found
    have moved := amountTo_updateFirst (fun x => { x with amount := e.amount + amount }) found rfl w
    by_cases here : w = validator
    · simp only [here, if_true] at moved ⊢
      omega
    · simp only [here, if_false, Nat.add_zero] at moved ⊢
      exact moved
  · rw [amountTo_append, amountTo_cons]
    simp only [amountTo, map_nil, sum_nil, Nat.add_zero, eq_comm]

theorem amountTo_shrunk {e : DelegationEntry} {entries : List DelegationEntry}
    (found : entries.find? (·.validator == validator) = some e) (enough : amount ≤ e.amount)
    (w : Address) :
    amountTo w (shrunk validator amount e entries) + (if w = validator then amount else 0) =
      amountTo w entries := by
  have moved := amountTo_updateFirst (fun x => { x with amount := x.amount - amount }) found rfl w
  have kept (p : Prop) [Decidable p] (l : List DelegationEntry) :
      amountTo w (if p then l.filter fun x => !(x.validator == validator && x.amount == 0) else l) =
        amountTo w l := by
    split
    · refine amountTo_filter fun x _ gone => ?_
      simp only [Bool.not_eq_false', Bool.and_eq_true, beq_iff_eq] at gone
      exact gone.2
    · rfl
  unfold shrunk
  rw [kept]
  by_cases here : w = validator
  · simp only [here, if_true] at moved ⊢
    omega
  · simp only [here, if_false, Nat.add_zero] at moved ⊢
    exact moved

theorem Listed.grown {entries : List DelegationEntry} (listed : Listed delegator entries)
    (room : CanGrow validator amount entries) :
    Listed delegator (StakeRegistry.grown delegator validator amount height entries) := by
  unfold StakeRegistry.grown
  unfold CanGrow at room
  split
  · rename_i e found
    exact listed.updateFirst (fun x => { x with amount := e.amount + amount }) found ⟨rfl, rfl⟩
  · rename_i found
    rw [found] at room
    refine ⟨?_, ?_, ?_⟩
    · intro x member
      rcases List.mem_append.mp member with old | new
      · exact listed.own x old
      · rw [List.mem_singleton.mp new]
    · have fresh : validator ∉ entries.map (·.validator) := by
        intro member
        obtain ⟨e, inside, named⟩ := List.mem_map.mp member
        have no := List.find?_eq_none.mp found e inside
        simp [named] at no
      rw [map_append, nodup_append]
      refine ⟨listed.distinct, nodup_singleton _, ?_⟩
      rintro v member v' alone rfl
      have named : v = validator := List.mem_singleton.mp alone
      exact fresh (named ▸ member)
    · rw [length_append, length_singleton]
      exact room

theorem Listed.shrunk {entries : List DelegationEntry} {e : DelegationEntry}
    (listed : Listed delegator entries)
    (found : entries.find? (·.validator == validator) = some e) :
    Listed delegator (StakeRegistry.shrunk validator amount e entries) := by
  have less := listed.updateFirst (fun x => { x with amount := x.amount - amount }) found ⟨rfl, rfl⟩
  unfold StakeRegistry.shrunk
  dsimp only
  split
  · exact less.sublist filter_sublist
  · exact less

theorem growDelegation_ok (booked : Booked reg)
    (ran : growDelegation delegator validator amount height reg = .ok u after) :
    ∃ entries, after = reg.setDelegations delegator entries ∧ Listed delegator entries ∧
      ∀ w, amountTo w entries = amountTo w (reg.delegationsOf delegator) +
        if w = validator then amount else 0 := by
  obtain ⟨room, rfl⟩ := growDelegation_run ran
  exact ⟨_, rfl, (booked.listed delegator).grown room, amountTo_grown _⟩

theorem shrinkDelegation_ok {missing exceeds : String} (booked : Booked reg)
    (ran : shrinkDelegation delegator validator amount missing exceeds reg = .ok u after) :
    ∃ entries, after = reg.setDelegations delegator entries ∧ Listed delegator entries ∧
      ∀ w, amountTo w entries + (if w = validator then amount else 0) =
        amountTo w (reg.delegationsOf delegator) := by
  obtain ⟨e, found, enough, rfl⟩ := shrinkDelegation_run ran
  exact ⟨_, rfl, (booked.listed delegator).shrunk found, amountTo_shrunk found enough⟩

theorem amountTo_le_delegatedTo (reg : StakeRegistry) (delegator validator : Address) :
    amountTo validator (reg.delegationsOf delegator) ≤ reg.delegatedTo validator := by
  have emptied := delegatedTo_setDelegations reg delegator [] validator
  have none : amountTo validator [] = 0 := rfl
  omega

theorem Booked.grow (booked : Booked reg)
    (ran : (do growDelegation delegator validator amount height; addDelegated validator amount)
      reg = .ok u after) : Booked after := by
  obtain ⟨_, mid, grew, ran⟩ := bind_ok.mp ran
  obtain ⟨entries, rfl, listed, amounts⟩ := growDelegation_ok booked grew
  unfold addDelegated at ran
  obtain ⟨v, found, ran⟩ := fromOption_bind_ok (get_bind_ok ran)
  obtain ⟨total, checked, ran⟩ := fromOption_bind_ok ran
  obtain ⟨rfl, fits⟩ := checkedAdd64_eq_some checked
  rw [set_ok.mp ran]
  have total : reg.totalDelegatedOf validator = v.totalDelegated := totalDelegatedOf_found found
  refine booked.change listed (fun w other => ?_) ?_ fits
  · rw [amounts, if_neg other, Nat.add_zero]
  · rw [amounts, if_pos rfl, total]
    dsimp only
    omega

theorem Booked.delegate (booked : Booked reg)
    (ran : StakeRegistry.delegate delegator validator amount height reg = .ok u after) :
    Booked after := by
  unfold StakeRegistry.delegate at ran
  obtain ⟨-, ran⟩ := ensure_bind_ok ran
  obtain ⟨v, found, ran⟩ := fromOption_bind_ok (get_bind_ok ran)
  obtain ⟨-, ran⟩ := ensure_bind_ok ran
  exact booked.grow ran

theorem Booked.shrink (booked : Booked reg) {entries : List DelegationEntry} {v : ValidatorStake}
    (listed : Listed delegator entries)
    (amounts : ∀ w, amountTo w entries + (if w = validator then amount else 0) =
      amountTo w (reg.delegationsOf delegator))
    (found : reg.getValidator validator = some v) :
    Booked ((reg.setDelegations delegator entries).setValidator validator
      { v with totalDelegated := v.totalDelegated - amount }) := by
  have total := totalDelegatedOf_found found
  have word := booked.words validator
  have sum := booked.totals validator
  have part := amountTo_le_delegatedTo reg delegator validator
  have moved := amounts validator
  rw [if_pos rfl] at moved
  refine booked.change listed (fun w other => ?_) ?_ ?_
  · have same := amounts w
    rwa [if_neg other, Nat.add_zero] at same
  · dsimp only
    omega
  · dsimp only
    omega

theorem Booked.undelegate (booked : Booked reg)
    (ran : StakeRegistry.undelegate delegator validator amount height reg = .ok u after) :
    Booked after := by
  unfold StakeRegistry.undelegate at ran
  obtain ⟨-, ran⟩ := ensure_bind_ok ran
  obtain ⟨_, mid, shrunk, ran⟩ := bind_ok.mp ran
  obtain ⟨entries, rfl, listed, amounts⟩ := shrinkDelegation_ok booked shrunk
  have ran := get_bind_ok ran
  obtain ⟨-, ran⟩ := ensure_bind_ok ran
  obtain ⟨-, ran⟩ := ensure_bind_ok ran
  obtain ⟨v, found, ran⟩ := fromOption_bind_ok ran
  rw [set_ok.mp ran]
  have booked := booked.shrink listed amounts found
  exact ⟨booked.totals, booked.words, booked.listed⟩

theorem Booked.redelegate (booked : Booked reg) {source target : Address}
    (ran : StakeRegistry.redelegate delegator source target amount height reg = .ok u after) :
    Booked after := by
  unfold StakeRegistry.redelegate at ran
  obtain ⟨-, ran⟩ := ensure_bind_ok ran
  obtain ⟨positive, ran⟩ := ensure_bind_ok ran
  obtain ⟨-, ran⟩ := ensure_bind_ok (get_bind_ok ran)
  obtain ⟨_, -, ran⟩ := fromOption_bind_ok ran
  obtain ⟨-, ran⟩ := ensure_bind_ok ran
  obtain ⟨_, mid, shrunk, ran⟩ := bind_ok.mp ran
  obtain ⟨entries, rfl, listed, amounts⟩ := shrinkDelegation_ok booked shrunk
  have ran := modify_bind_ok ran
  -- an entry for the source keeps its total above zero, so its record exists
  have known : ∃ v, reg.getValidator source = some v := by
    have moved := amounts source
    have part := amountTo_le_delegatedTo reg delegator source
    have sum := booked.totals source
    rw [if_pos rfl] at moved
    have positive : amount ≠ 0 := by simpa using positive
    unfold totalDelegatedOf at sum
    cases found : reg.getValidator source with
    | some v => exact ⟨v, rfl⟩
    | none =>
      rw [found] at sum
      simp only [Option.map_none, Option.getD_none] at sum
      omega
  obtain ⟨v, found⟩ := known
  have kept : (reg.setDelegations delegator entries).getValidator source = some v := found
  rw [kept] at ran
  have first := booked.shrink listed amounts found
  obtain ⟨_, grown, grew, ran⟩ := bind_ok.mp ran
  obtain ⟨_, added, counted, ran⟩ := bind_ok.mp ran
  have second := first.grow (bind_ok.mpr ⟨_, grown, grew, counted⟩)
  rw [modify_ok.mp ran]
  exact ⟨second.totals, second.words, second.listed⟩

theorem amountTo_slashEntries (remaining delegated : Nat) (entries : List DelegationEntry)
    (w : Address) :
    amountTo w (slashEntries validator remaining delegated entries) ≤ amountTo w entries ∧
      (w ≠ validator →
        amountTo w (slashEntries validator remaining delegated entries) = amountTo w entries) := by
  induction entries with
  | nil => exact ⟨Nat.le_refl _, fun _ => rfl⟩
  | cons e _ ih =>
    obtain ⟨le, same⟩ := ih
    unfold slashEntries at le same ⊢
    rw [map_cons, amountTo_cons, amountTo_cons]
    by_cases named : e.validator = validator
    · rw [if_pos named]
      dsimp only
      constructor
      · refine Nat.add_le_add ?_ le
        split
        · exact Nat.sub_le _ _
        · exact Nat.le_refl _
      · intro other
        have elsewhere : e.validator ≠ w := fun here => other (here.symm.trans named)
        rw [if_neg elsewhere, if_neg elsewhere, same other]
    · rw [if_neg named]
      exact ⟨Nat.add_le_add_left le _, fun other => by rw [same other]⟩

theorem Listed.slash {entries : List DelegationEntry} (listed : Listed delegator entries)
    (remaining delegated : Nat) :
    Listed delegator (slashEntries validator remaining delegated entries) := by
  unfold slashEntries
  refine ⟨fun x member => ?_, ?_, ?_⟩
  · obtain ⟨e, inside, rfl⟩ := List.mem_map.mp member
    split
    · exact listed.own e inside
    · exact listed.own e inside
  · have names : (entries.map fun e => if e.validator = validator then
        { e with amount := e.amount - delegationSlash e.amount remaining delegated } else e).map
          (·.validator) = entries.map (·.validator) := by
      rw [map_map]
      refine map_congr_left fun e _ => ?_
      dsimp only [Function.comp]
      split <;> rfl
    rw [names]
    exact listed.distinct
  · rw [length_map]
    exact listed.few

def cutEntries (reg : StakeRegistry) (validator : Address) (remaining delegated : Nat) :
    StakeRegistry :=
  { reg with
    delegations := reg.delegations.mapValues fun _ entries =>
      slashEntries validator remaining delegated entries }

/-- The recomputed total never exceeds the one before, so the cast does not bite. -/
theorem Booked.slashDelegations (booked : Booked reg) {v : ValidatorStake}
    (found : reg.getValidator validator = some v) (remaining : Nat) :
    Booked (reg.slashDelegations validator v remaining) := by
  unfold StakeRegistry.slashDelegations
  split
  · have total := totalDelegatedOf_found found
    have word := booked.words validator
    have sum := booked.totals validator
    let cut := reg.cutEntries validator remaining v.totalDelegated
    have sums (w : Address) : cut.delegatedTo w = sumOf (fun _ entries => amountTo w
        (slashEntries validator remaining v.totalDelegated entries)) reg.delegations := by
      rw [delegatedTo_eq]
      exact sumOf_mapValues (fun _ entries => amountTo w entries)
        (fun _ entries => slashEntries validator remaining v.totalDelegated entries) reg.delegations
    have less : cut.delegatedTo validator ≤ reg.delegatedTo validator := by
      rw [sums, delegatedTo_eq]
      exact sumOf_mono _ fun _ entries => (amountTo_slashEntries _ _ entries validator).1
    have others (w : Address) (other : w ≠ validator) : cut.delegatedTo w = reg.delegatedTo w := by
      rw [sums, delegatedTo_eq]
      exact sumOf_congr fun _ entries _ => (amountTo_slashEntries _ _ entries w).2 other
    have kept (w : Address) : cut.totalDelegatedOf w = reg.totalDelegatedOf w := rfl
    show Booked (cut.setValidator validator
      { v with totalDelegated := min (cut.delegatedTo validator) u64Max })
    refine ⟨fun w => ?_, fun w => ?_, fun d => ?_⟩
    · rw [totalDelegatedOf_setValidator]
      show _ = cut.delegatedTo w
      split
      · rename_i here
        subst here
        dsimp only
        omega
      · rename_i other
        rw [kept, others w other, booked.totals]
    · rw [totalDelegatedOf_setValidator]
      split
      · exact Nat.min_le_right _ _
      · rw [kept]
        exact booked.words w
    · show Listed d (cut.delegationsOf d)
      have listed := booked.listed d
      unfold delegationsOf at listed ⊢
      rw [show cut.delegations.lookup d = _ from lookup_mapValues _ _ _]
      cases stored : reg.delegations.lookup d with
      | none => exact .nil
      | some =>
        rw [stored] at listed
        exact listed.slash _ _
  · exact booked

theorem Booked.slash (booked : Booked reg) {basisPoints taken : Nat}
    (ran : StakeRegistry.slash validator basisPoints reg = .ok taken after) : Booked after := by
  obtain ⟨v, found, -, rfl⟩ := slash_ok ran
  have cut : Booked (reg.setValidator validator (afterSelfSlash v taken)) :=
    booked.of_stakes (stakes_setValidator (totalDelegatedOf_found found).symm)
  have slashed := cut.slashDelegations (getValidator_setValidator _ _ _)
    (taken - min taken v.selfStake)
  exact ⟨slashed.totals, slashed.words, slashed.listed⟩

theorem Booked.call {c : Call} {released : List (Address × Nat)} (booked : Booked reg)
    (ran : c.run reg = .ok released after) : Booked after := by
  have through {m : Op Unit} (keeps : Keeps stakes m)
      (ran : (do m; pure [] : Op (List (Address × Nat))) reg = .ok released after) :
      Booked after := by
    obtain ⟨_, mid, did, ran⟩ := bind_ok.mp ran
    obtain ⟨-, rfl⟩ := pure_ok.mp ran
    exact booked.of_stakes (keeps.ok did)
  cases c with
  | registerValidator => exact through (stakes_registerValidator _ _ _ _) ran
  | addSelfStake => exact through (stakes_addSelfStake _) ran
  | delegate =>
    obtain ⟨_, _, did, ran⟩ := bind_ok.mp ran
    obtain ⟨-, rfl⟩ := pure_ok.mp ran
    exact booked.delegate did
  | undelegate =>
    obtain ⟨_, _, did, ran⟩ := bind_ok.mp ran
    obtain ⟨-, rfl⟩ := pure_ok.mp ran
    exact booked.undelegate did
  | redelegate =>
    obtain ⟨_, _, did, ran⟩ := bind_ok.mp ran
    obtain ⟨-, rfl⟩ := pure_ok.mp ran
    exact booked.redelegate did
  | slash =>
    obtain ⟨_, _, did, ran⟩ := bind_ok.mp ran
    obtain ⟨-, rfl⟩ := pure_ok.mp ran
    exact booked.slash did
  | jail => exact through (stakes_jail _ _) ran
  | tombstone => exact through stakes_tombstone ran
  | unjail => exact through (stakes_unjail _) ran
  | forceUnjail => exact through stakes_forceUnjail ran
  | updateActiveSet => exact through (fun _ => rfl) ran
  | distributeReward => exact through (stakes_distributeReward _ _ _ _) ran
  | updateCommission => exact through (stakes_updateCommission _ _) ran
  | takeDelegatorRewards => exact through (fun _ => rfl) ran
  | processUnbonding =>
    obtain ⟨-, rfl⟩ := EStateM.Result.ok.inj ran
    exact ⟨booked.totals, booked.words, booked.listed⟩

theorem booked_of_run {calls : List Call} (booked : Booked reg)
    (ran : Call.runAll calls reg = .ok u after) : Booked after := by
  induction calls generalizing reg with
  | nil =>
    obtain ⟨-, rfl⟩ := pure_ok.mp ran
    exact booked
  | cons _ _ ih =>
    obtain ⟨_, mid, did, ran⟩ := bind_ok.mp ran
    exact ih (booked.call did) ran

def allDelegations (reg : StakeRegistry) : List DelegationEntry :=
  reg.delegations.pairs.flatMap Prod.snd

/-- Entries of a delegator stand in the list under its address. -/
theorem Booked.countP_le (booked : Booked reg) {p : DelegationEntry → Bool}
    (owned : ∀ e, p e = true → e.delegator = delegator) :
    reg.allDelegations.countP p ≤ (reg.delegationsOf delegator).countP p := by
  have sum : reg.allDelegations.countP p =
      sumOf (fun _ entries => entries.countP p) reg.delegations := by
    unfold allDelegations Table.pairs sumOf
    generalize reg.delegations.entries = entries
    induction entries with
    | nil => rfl
    | cons _ _ ih => simpa using ih
  have single := @sumOf_le_sum _ _ _ (fun _ entries => entries.countP p) reg.delegations
    (fun d => (reg.delegationsOf d).countP p) {delegator} (fun d entries stored => ?_)
    fun d entries stored some => ?_
  · rwa [Finset.sum_singleton, ← sum] at single
  · unfold delegationsOf
    rw [stored]
    exact Nat.le_refl _
  · obtain ⟨e, inside, named⟩ := List.countP_pos_iff.mp (Nat.pos_of_ne_zero some)
    have listed := booked.listed d
    unfold delegationsOf at listed
    rw [stored] at listed
    rw [Finset.mem_singleton, ← owned e named, listed.own e inside]

/-- After any run of successful calls the totals are those of the entries, which are
one for each delegator and validator and few for each delegator. -/
theorem delegations_booked {calls : List Call}
    (ran : Call.runAll calls .new = .ok () reg) :
    (∀ v record, reg.getValidator v = some record → record.totalDelegated =
        ((reg.allDelegations.filter (·.validator == v)).map (·.amount)).sum) ∧
      (∀ d v, reg.allDelegations.countP (fun e => e.delegator == d && e.validator == v) ≤ 1) ∧
      ∀ d, reg.allDelegations.countP (·.delegator == d) ≤ maxDelegationsPerAccount := by
  have booked := booked_of_run .new ran
  refine ⟨fun v record found => ?_, fun d v => ?_, fun d => ?_⟩
  · rw [← totalDelegatedOf_found found, booked.totals]
    exact amountTo_eq_sum v reg.allDelegations
  · have here := @Booked.countP_le reg d booked (fun e => e.delegator == d && e.validator == v)
      fun e named => by simpa using (Bool.and_eq_true_iff.mp named).1
    have single := List.nodup_iff_count_le_one.mp (booked.listed d).distinct v
    rw [count, countP_map] at single
    refine here.trans ((countP_mono_left fun e _ both => ?_).trans single)
    exact (Bool.and_eq_true_iff.mp both).2
  · exact (booked.countP_le fun e named => by simpa using named).trans
      (List.countP_le_length.trans (booked.listed d).few)

def movedStake : List Call :=
  [.registerValidator "v1" minSelfStake minCommission 0,
    .registerValidator "v2" minSelfStake maxCommission 0,
    .delegate "alice" "v1" 700 1, .delegate "alice" "v1" 300 2, .delegate "bob" "v1" 50 2,
    .redelegate "alice" "v1" "v2" 400 3, .undelegate "alice" "v1" 100 4, .slash "v1" 10000]

theorem movedStake_booked :
    ∃ reg : StakeRegistry, Call.runAll movedStake .new = .ok () reg ∧
      (∀ v record, reg.getValidator v = some record → record.totalDelegated =
        ((reg.allDelegations.filter (·.validator == v)).map (·.amount)).sum) ∧
      (∀ d v, reg.allDelegations.countP (fun e => e.delegator == d && e.validator == v) ≤ 1) ∧
      ∀ d, reg.allDelegations.countP (·.delegator == d) ≤ maxDelegationsPerAccount := by
  have ran := ok_of_succeeds (m := Call.runAll movedStake) (s := .new) (by decide +kernel)
  exact ⟨_, ran, delegations_booked ran⟩

end
end StakeRegistry
end SentrixStaking
