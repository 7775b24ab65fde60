import Sentrix.Lib.Effects
import Sentrix.Staking.Registry

/-!
The registry's operations: registration, delegation and its reversal, slashing
and jailing, and reward payout. A failing operation keeps what it had already
changed. Sums that the code computes in 128 bits and casts back are reduced
modulo the word where the cast is.
-/
namespace SentrixStaking
open MachineWords Effects SentrixPrimitives

def unbondingPeriod : Nat := 201600
def maxDelegationsPerAccount : Nat := 10
def maxUnbondingEntries : Nat := 7
def maxUnbondingPerValidator : Nat := 10000
def redelegateCooldown : Nat := 201600
def minCommission : Nat := 500
def maxCommission : Nat := 2000
def maxCommissionChangePerEpoch : Nat := 200

/-- Change the first entry that satisfies the test, as `iter_mut().find` does. -/
def updateFirst {α : Type} (p : α → Bool) (f : α → α) : List α → List α
  | [] => []
  | x :: rest => if p x then f x :: rest else x :: updateFirst p f rest

def notFoundValidator : SentrixError := .invalidTransaction "validator not found"

namespace StakeRegistry

abbrev Op := EStateM SentrixError StakeRegistry

def setValidator (reg : StakeRegistry) (address : Address) (v : ValidatorStake) : StakeRegistry :=
  { reg with validators := reg.validators.insert address v }

def delegationsOf (reg : StakeRegistry) (delegator : Address) : List DelegationEntry :=
  (reg.delegations.lookup delegator).getD []

def setDelegations (reg : StakeRegistry) (delegator : Address) (entries : List DelegationEntry) :
    StakeRegistry :=
  { reg with delegations := reg.delegations.insert delegator entries }

def registerValidator (address : Address) (selfStake commissionRate currentHeight : Nat) :
    Op Unit := do
  let reg ← get
  ensure (reg.getValidator address).isNone (.invalidTransaction "validator already registered")
  ensure (minSelfStake ≤ selfStake) (.invalidTransaction ("self-stake " ++ toString selfStake ++
    " below minimum " ++ toString minSelfStake))
  ensure (minCommission ≤ commissionRate && commissionRate ≤ maxCommission)
    (.invalidTransaction ("commission " ++ toString commissionRate ++ " out of range [" ++
      toString minCommission ++ ", " ++ toString maxCommission ++ "]"))
  modify (·.setValidator address
    { address, selfStake, totalDelegated := 0, commissionRate
      maxCommissionRate := min (satAdd 65535 commissionRate (maxCommissionChangePerEpoch * 5))
        maxCommission
      isJailed := false, jailUntil := 0, isTombstoned := false, blocksSigned := 0, blocksMissed := 0
      pendingRewards := 0, registrationHeight := currentHeight, lastCommissionChangeHeight := 0 })

def addSelfStake (validator : Address) (amount : Nat) : Op Unit := do
  ensure (amount != 0) (.invalidTransaction "AddSelfStake: amount must be > 0")
  let reg ← get
  let val ← fromOption (reg.getValidator validator) notFoundValidator
  ensure (!val.isTombstoned)
    (.invalidTransaction "AddSelfStake: tombstoned validators cannot add self_stake")
  let stake ← fromOption (checkedAdd64 val.selfStake amount)
    (.invalidTransaction "AddSelfStake: self_stake overflow")
  modify (·.setValidator validator { val with selfStake := stake })

/-- Grow the delegator's entry for a validator, or open one. The delegator's list
exists afterwards even when this fails. -/
def growDelegation (delegator validator : Address) (amount currentHeight : Nat) : Op Unit := do
  modify fun reg => reg.setDelegations delegator (reg.delegationsOf delegator)
  let reg ← get
  let entries := reg.delegationsOf delegator
  match entries.find? (·.validator == validator) with
  | some entry =>
    let grown ← fromOption (checkedAdd64 entry.amount amount)
      (.invalidTransaction "delegation overflow")
    set (reg.setDelegations delegator
      (updateFirst (·.validator == validator) (fun e => { e with amount := grown }) entries))
  | none =>
    ensure (entries.length < maxDelegationsPerAccount)
      (.invalidTransaction ("max " ++ toString maxDelegationsPerAccount ++
        " delegations per account"))
    set (reg.setDelegations delegator (entries ++ [⟨delegator, validator, amount, currentHeight⟩]))

def shrinkDelegation (delegator validator : Address) (amount : Nat) (missing exceeds : String) :
    Op Unit := do
  let reg ← get
  let entries ← fromOption (reg.delegations.lookup delegator)
    (.invalidTransaction "no delegations found")
  let entry ← fromOption (entries.find? (·.validator == validator)) (.invalidTransaction missing)
  ensure (amount ≤ entry.amount) (.invalidTransaction exceeds)
  let shrunk := updateFirst (·.validator == validator)
    (fun e => { e with amount := e.amount - amount }) entries
  let kept := if entry.amount - amount = 0 then
      shrunk.filter fun e => !(e.validator == validator && e.amount == 0)
    else shrunk
  set (reg.setDelegations delegator kept)

def addDelegated (validator : Address) (amount : Nat) : Op Unit := do
  let reg ← get
  let val ← fromOption (reg.getValidator validator) notFoundValidator
  let total ← fromOption (checkedAdd64 val.totalDelegated amount)
    (.invalidTransaction "delegated total overflow")
  set (reg.setValidator validator { val with totalDelegated := total })

def delegate (delegator validator : Address) (amount currentHeight : Nat) : Op Unit := do
  ensure (amount != 0) (.invalidTransaction "delegation amount must be > 0")
  let reg ← get
  let val ← fromOption (reg.getValidator validator) notFoundValidator
  ensure (!val.isTombstoned) (.invalidTransaction "cannot delegate to tombstoned validator")
  growDelegation delegator validator amount currentHeight
  addDelegated validator amount

def unbondingEntries (reg : StakeRegistry) : List UnbondingEntry :=
  reg.unbondingQueue.pairs.flatMap Prod.snd

def undelegate (delegator validator : Address) (amount currentHeight : Nat) : Op Unit := do
  ensure (amount != 0) (.invalidTransaction "undelegation amount must be > 0")
  shrinkDelegation delegator validator amount "delegation to this validator not found"
    "undelegation exceeds delegated amount"
  let reg ← get
  let pending := reg.unbondingEntries.filter (·.validator == validator)
  ensure ((pending.filter (·.delegator == delegator)).length < maxUnbondingEntries)
    (.invalidTransaction ("max " ++ toString maxUnbondingEntries ++
      " unbonding entries per delegation"))
  ensure (pending.length < maxUnbondingPerValidator)
    (.invalidTransaction ("max " ++ toString maxUnbondingPerValidator ++
      " unbonding entries per validator reached"))
  let val ← fromOption (reg.getValidator validator) notFoundValidator
  let completion := satAdd64 currentHeight unbondingPeriod
  let queued := (reg.unbondingQueue.lookup completion).getD [] ++
    [⟨delegator, validator, amount, completion⟩]
  set { reg.setValidator validator { val with totalDelegated := val.totalDelegated - amount } with
    unbondingQueue := reg.unbondingQueue.insert completion queued }

def redelegate (delegator source target : Address) (amount currentHeight : Nat) : Op Unit := do
  ensure (source != target) (.invalidTransaction "cannot redelegate to same validator")
  ensure (amount != 0) (.invalidTransaction "redelegate amount must be > 0")
  let reg ← get
  let cooldown := (reg.redelegateCooldowns.lookup delegator).getD 0
  ensure (cooldown ≤ currentHeight)
    (.invalidTransaction ("redelegate cooldown active until height " ++ toString cooldown))
  let val ← fromOption (reg.getValidator target) (.invalidTransaction "target validator not found")
  ensure (!val.isTombstoned) (.invalidTransaction "cannot redelegate to tombstoned validator")
  shrinkDelegation delegator source amount "delegation to source validator not found"
    "redelegate exceeds delegated amount"
  modify fun reg =>
    match reg.getValidator source with
    | some v => reg.setValidator source { v with totalDelegated := v.totalDelegated - amount }
    | none => reg
  growDelegation delegator target amount currentHeight
  addDelegated target amount
  modify fun reg => { reg with
    redelegateCooldowns := reg.redelegateCooldowns.insert delegator
      (satAdd64 currentHeight redelegateCooldown) }

/-- What one delegation loses: its share of the remainder, rounded up. -/
def delegationSlash (amount remaining delegated : Nat) : Nat :=
  ((amount * remaining + delegated - 1) / delegated) % 2 ^ 64

def slashEntries (validator : Address) (remaining delegated : Nat)
    (entries : List DelegationEntry) : List DelegationEntry :=
  entries.map fun e =>
    if e.validator = validator then
      { e with amount := e.amount - delegationSlash e.amount remaining delegated }
    else e

def delegatedTo (reg : StakeRegistry) (validator : Address) : Nat :=
  ((reg.delegations.pairs.flatMap Prod.snd).map fun e =>
    if e.validator = validator then e.amount else 0).sum

/-- Delegators pay what self-stake does not cover; the validator's total becomes
the sum of what is left. -/
def slashDelegations (reg : StakeRegistry) (validator : Address) (val : ValidatorStake)
    (remaining : Nat) : StakeRegistry :=
  if 0 < remaining ∧ 0 < val.totalDelegated then
    let cut := { reg with
      delegations := reg.delegations.mapValues fun _ entries =>
        slashEntries validator remaining val.totalDelegated entries }
    cut.setValidator validator
      { val with totalDelegated := min (cut.delegatedTo validator) u64Max }
  else reg

def slashUnbonding (reg : StakeRegistry) (validator : Address) (basisPoints : Nat) : StakeRegistry :=
  { reg with
    unbondingQueue := reg.unbondingQueue.mapValues fun _ entries => entries.map fun e =>
      if e.validator = validator then
        { e with amount := e.amount - (e.amount * basisPoints / 10000) % 2 ^ 64 }
      else e }

def slash (validator : Address) (basisPoints : Nat) : Op Nat := do
  let reg ← get
  let val ← fromOption (reg.getValidator validator) notFoundValidator
  let slashAmount := (val.totalStake * basisPoints / 10000) % 2 ^ 64
  let fromSelf := min slashAmount val.selfStake
  let val := { val with selfStake := val.selfStake - fromSelf }
  let reg := (reg.setValidator validator val).slashDelegations validator val (slashAmount - fromSelf)
  set (reg.slashUnbonding validator basisPoints).updateActiveSet
  pure slashAmount

def punish (validator : Address) (f : ValidatorStake → ValidatorStake) : Op Unit := do
  let reg ← get
  let val ← fromOption (reg.getValidator validator) notFoundValidator
  set (reg.setValidator validator (f val)).updateActiveSet

def jail (validator : Address) (duration currentHeight : Nat) : Op Unit :=
  punish validator fun v =>
    { v with isJailed := true, jailUntil := satAdd64 currentHeight duration }

def tombstone (validator : Address) : Op Unit :=
  punish validator fun v => { v with isJailed := true, isTombstoned := true, jailUntil := u64Max }

def unjail (validator : Address) (currentHeight : Nat) : Op Unit := do
  let reg ← get
  let val ← fromOption (reg.getValidator validator) notFoundValidator
  ensure (!val.isTombstoned) (.invalidTransaction "tombstoned validators cannot unjail")
  ensure (val.jailUntil ≤ currentHeight)
    (.invalidTransaction ("jail period active until height " ++ toString val.jailUntil))
  ensure (minSelfStake ≤ val.selfStake)
    (.invalidTransaction "self-stake below minimum after slashing — add more stake first")
  punish validator fun v => { v with isJailed := false, jailUntil := 0 }

def addPending (reg : StakeRegistry) (validator : Address) (amount : Nat) : StakeRegistry :=
  match reg.getValidator validator with
  | some v => reg.setValidator validator { v with pendingRewards := satAdd64 v.pendingRewards amount }
  | none => reg

/-- A share of a pot as the code computes it: in 128 bits, then cast. -/
def share (pot part whole : Nat) : Nat :=
  (pot * part / whole) % 2 ^ 64

def distributeToSingleValidator (validator : Address) (totalReward : Nat) : Op Unit := do
  let reg ← get
  let val ← fromOption (reg.getValidator validator)
    (.invalidTransaction "proposer not found in stake registry")
  let commission := share totalReward val.commissionRate 10000
  let pool := totalReward - commission
  let paid := reg.addPending validator commission
  set (if val.totalStake = 0 ∨ pool = 0 then paid
    else paid.addPending validator (share pool val.selfStake val.totalStake))

def delegationsTo (reg : StakeRegistry) (validator : Address) : List DelegationEntry :=
  ((reg.delegations.keys.insertionSort (· ≤ ·)).flatMap reg.delegationsOf).filter
    (·.validator == validator)

def addDelegatorReward (reg : StakeRegistry) (delegator : Address) (amount : Nat) : StakeRegistry :=
  if amount = 0 then reg
  else { reg with
    delegatorRewards := reg.delegatorRewards.insert delegator
      (satAdd64 ((reg.delegatorRewards.lookup delegator).getD 0) amount) }

def payDelegators (reg : StakeRegistry) (validator : Address) (pool : Nat) : StakeRegistry :=
  let entries := reg.delegationsTo validator
  let total := (entries.map (·.amount)).foldl wrapAdd64 0
  if total = 0 then reg
  else entries.foldl (fun r e => r.addDelegatorReward e.delegator (share pool e.amount total)) reg

def payOneSigner (reg : StakeRegistry) (validator : Address) (signerShare : Nat) : StakeRegistry :=
  match reg.getValidator validator with
  | none => reg
  | some val =>
    let commission := share signerShare val.commissionRate 10000
    let pool := signerShare - commission
    let paid := reg.addPending validator commission
    if val.totalStake = 0 ∨ pool = 0 then paid
    else
      let selfShare := share pool val.selfStake val.totalStake
      let paid := paid.addPending validator selfShare
      if pool - selfShare = 0 then paid else paid.payDelegators validator (pool - selfShare)

def paySigners (reg : StakeRegistry) (totalReward totalStake : Nat)
    (signers : List (Address × Nat)) : StakeRegistry :=
  signers.foldl (fun r signer =>
    let part := share totalReward signer.2 totalStake
    if signer.2 = 0 ∨ part = 0 then r else r.payOneSigner signer.1 part) reg

def distributeReward (proposer : Address) (signers : List (Address × Nat))
    (blockReward validatorFeeShare : Nat) : Op Unit := do
  let totalReward := satAdd64 blockReward validatorFeeShare
  let totalStake := (signers.map Prod.snd).foldl wrapAdd64 0
  if signers.isEmpty ∨ totalStake = 0 then distributeToSingleValidator proposer totalReward
  else modify (·.paySigners totalReward totalStake signers)

def peekDelegatorRewards (reg : StakeRegistry) (delegator : Address) : Nat :=
  (reg.delegatorRewards.lookup delegator).getD 0

def takeDelegatorRewards (reg : StakeRegistry) (delegator : Address) : StakeRegistry :=
  { reg with delegatorRewards := reg.delegatorRewards.erase delegator }

/-- Matured entries, oldest completion first, leave the queue. -/
def processUnbonding (reg : StakeRegistry) (currentHeight : Nat) :
    StakeRegistry × List (Address × Nat) :=
  let matured := (reg.unbondingQueue.keys.filter (· ≤ currentHeight)).insertionSort (· ≤ ·)
  let released := matured.flatMap fun key => (reg.unbondingQueue.lookup key).getD []
  ({ reg with unbondingQueue := matured.foldl (fun q key => q.erase key) reg.unbondingQueue },
    released.map fun e => (e.delegator, e.amount))

end StakeRegistry
end SentrixStaking
