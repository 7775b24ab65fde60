import Sentrix.Lib.HashTable
import Sentrix.Primitives.Basic
import Mathlib.Data.List.Sort

/-!
The delegated-stake registry: its records and the questions asked of it. The
active set is a stored list, refreshed from the records by `updateActiveSet`;
between refreshes the two may differ.
-/
namespace SentrixStaking
open MachineWords HashTable SentrixPrimitives List

def minSelfStake : Nat := 15000 * 100000000
def maxActiveValidators : Nat := 21

structure ValidatorStake where
  address : Address
  selfStake : Nat
  totalDelegated : Nat
  commissionRate : Nat
  maxCommissionRate : Nat
  isJailed : Bool
  jailUntil : Nat
  isTombstoned : Bool
  blocksSigned : Nat
  blocksMissed : Nat
  pendingRewards : Nat
  registrationHeight : Nat
  lastCommissionChangeHeight : Nat
  deriving DecidableEq, Repr

def ValidatorStake.totalStake (v : ValidatorStake) : Nat :=
  satAdd64 v.selfStake v.totalDelegated

def ValidatorStake.isActiveEligible (v : ValidatorStake) : Bool :=
  !v.isJailed && !v.isTombstoned && minSelfStake ≤ v.selfStake

structure DelegationEntry where
  delegator : Address
  validator : Address
  amount : Nat
  height : Nat
  deriving DecidableEq, Repr

structure UnbondingEntry where
  delegator : Address
  validator : Address
  amount : Nat
  completionHeight : Nat
  deriving DecidableEq, Repr

structure StakeRegistry where
  validators : Table Address ValidatorStake
  delegations : Table Address (List DelegationEntry)
  unbondingQueue : Table Nat (List UnbondingEntry)
  redelegateCooldowns : Table Address Nat
  activeSet : List Address
  delegatorRewards : Table Address Nat
  deriving DecidableEq

namespace StakeRegistry

def new : StakeRegistry :=
  ⟨∅, ∅, ∅, ∅, [], ∅⟩

def getValidator (reg : StakeRegistry) (address : Address) : Option ValidatorStake :=
  reg.validators.lookup address

/-- The weight a vote is counted with: the registered stake, or nothing. -/
def voteStake (reg : StakeRegistry) (address : Address) : Nat :=
  ((reg.getValidator address).map ValidatorStake.totalStake).getD 0

/-- The stake of the stored active set, summed as the validator loop sums it. -/
def totalActiveStake (reg : StakeRegistry) : Nat :=
  ((reg.activeSet.filterMap reg.getValidator).map ValidatorStake.totalStake).foldl wrapAdd64 0

/-- Larger stake first, then lower address. -/
def ranksBefore (a b : ValidatorStake) : Prop :=
  b.totalStake < a.totalStake ∨ b.totalStake = a.totalStake ∧ a.address ≤ b.address

instance (a b : ValidatorStake) : Decidable (ranksBefore a b) :=
  inferInstanceAs (Decidable (_ ∨ _))

def computeActiveSet (reg : StakeRegistry) : List Address :=
  let eligible := (reg.validators.pairs.map Prod.snd).filter ValidatorStake.isActiveEligible
  ((eligible.insertionSort ranksBefore).take maxActiveValidators).map ValidatorStake.address

def updateActiveSet (reg : StakeRegistry) : StakeRegistry :=
  { reg with activeSet := reg.computeActiveSet }

def isActive (reg : StakeRegistry) (address : Address) : Bool :=
  reg.activeSet.contains address

/-- Round-robin over the active set; the height wraps at 64 bits. -/
def weightedProposer (reg : StakeRegistry) (height round : Nat) : Option Address :=
  if reg.activeSet.isEmpty then none
  else reg.activeSet[wrapAdd64 height round % reg.activeSet.length]?

theorem foldl_wrapAdd64 (l : List Nat) (start : Nat) (fits : start + l.sum ≤ u64Max) :
    l.foldl wrapAdd64 start = start + l.sum := by
  induction l generalizing start with
  | nil => rfl
  | cons x rest ih =>
    rw [sum_cons] at fits
    rw [foldl_cons, wrapAdd64_eq_add (by omega), ih _ (by omega), sum_cons]
    omega

theorem sum_voteStake (reg : StakeRegistry) (addresses : List Address) :
    ((addresses.filterMap reg.getValidator).map ValidatorStake.totalStake).sum =
      (addresses.map reg.voteStake).sum := by
  induction addresses with
  | nil => rfl
  | cons a rest ih =>
    unfold voteStake at ih ⊢
    cases known : reg.getValidator a with
    | none => simp [known, ih]
    | some v => simp [known, ih]

/-- While the sum fits a word, the loop's total is the sum of the members' vote stakes. -/
theorem totalActiveStake_eq_sum {reg : StakeRegistry}
    (fits : (reg.activeSet.map reg.voteStake).sum ≤ u64Max) :
    reg.totalActiveStake = (reg.activeSet.map reg.voteStake).sum := by
  rw [← sum_voteStake] at fits ⊢
  unfold totalActiveStake
  rw [foldl_wrapAdd64 _ 0 (by omega), Nat.zero_add]

theorem totalActiveStake_word (reg : StakeRegistry) : reg.totalActiveStake ≤ u64Max := by
  have wraps : ∀ (l : List Nat) (start : Nat), start ≤ u64Max → l.foldl wrapAdd64 start ≤ u64Max := by
    intro l
    induction l with
    | nil => exact fun _ word => word
    | cons x rest ih => exact fun start _ => ih _ (Nat.le_of_lt_succ (Nat.mod_lt _ (by decide)))
  exact wraps _ 0 (Nat.zero_le _)

end StakeRegistry

def bonded (address : Address) : ValidatorStake where
  address := address
  selfStake := minSelfStake
  totalDelegated := 0
  commissionRate := 1000
  maxCommissionRate := 2000
  isJailed := false
  jailUntil := 0
  isTombstoned := false
  blocksSigned := 0
  blocksMissed := 0
  pendingRewards := 0
  registrationHeight := 0
  lastCommissionChangeHeight := 0

def bondedSet (members : List Address) : StakeRegistry :=
  { StakeRegistry.new with
    validators := members.foldl (fun t v => t.insert v (bonded v)) ∅
    activeSet := members }

end SentrixStaking
