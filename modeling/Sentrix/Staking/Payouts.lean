import Sentrix.Staking.Outcomes

/-!
Reward payout as a list of credits. What a signer is paid is fixed by its record and the
delegations to it, neither of which a payment changes; so a payout is a list of amounts
worked out beforehand and then added, entry by entry, with saturation.
-/
namespace SentrixStaking
open MachineWords HashTable Effects SentrixPrimitives List

/-- An amount on its way to a validator's pending rewards or to a delegator's. -/
inductive Credit where
  | pending (validator : Address) (amount : Nat)
  | delegator (delegator : Address) (amount : Nat)
  deriving DecidableEq

def Credit.amount : Credit → Nat
  | .pending _ n | .delegator _ n => n

namespace StakeRegistry

def credit (reg : StakeRegistry) : Credit → StakeRegistry
  | .pending v n => reg.addPending v n
  | .delegator d n => reg.addDelegatorReward d n

def creditAll (reg : StakeRegistry) (credits : List Credit) : StakeRegistry :=
  credits.foldl credit reg

def delegatedAmounts (reg : StakeRegistry) (validator : Address) : List Nat :=
  (reg.delegationsTo validator).map (·.amount)

def delegatorCredits (reg : StakeRegistry) (validator : Address) (pool : Nat) : List Credit :=
  let total := (reg.delegatedAmounts validator).foldl wrapAdd64 0
  if total = 0 then []
  else (reg.delegationsTo validator).map fun e => .delegator e.delegator (share pool e.amount total)

def ownCredits (validator : Address) (val : ValidatorStake) (pot : Nat) : List Credit :=
  let commission := share pot val.commissionRate 10000
  let pool := pot - commission
  if val.totalStake = 0 ∨ pool = 0 then [.pending validator commission]
  else [.pending validator commission, .pending validator (share pool val.selfStake val.totalStake)]

def delegatorPool (val : ValidatorStake) (pot : Nat) : Nat :=
  let pool := pot - share pot val.commissionRate 10000
  if val.totalStake = 0 then 0 else pool - share pool val.selfStake val.totalStake

def signerCredits (reg : StakeRegistry) (validator : Address) (signerShare : Nat) : List Credit :=
  match reg.getValidator validator with
  | none => []
  | some val => ownCredits validator val signerShare ++
      if delegatorPool val signerShare = 0 then []
      else reg.delegatorCredits validator (delegatorPool val signerShare)

def singleCredits (reg : StakeRegistry) (validator : Address) (totalReward : Nat) : List Credit :=
  match reg.getValidator validator with
  | none => []
  | some val => ownCredits validator val totalReward

def signersCredits (reg : StakeRegistry) (totalReward totalStake : Nat)
    (signers : List (Address × Nat)) : List Credit :=
  signers.flatMap fun signer =>
    let part := share totalReward signer.2 totalStake
    if signer.2 = 0 ∨ part = 0 then [] else reg.signerCredits signer.1 part

def rewardCredits (reg : StakeRegistry) (proposer : Address) (signers : List (Address × Nat))
    (blockReward validatorFeeShare : Nat) : List Credit :=
  let totalReward := satAdd64 blockReward validatorFeeShare
  let totalStake := (signers.map Prod.snd).foldl wrapAdd64 0
  if signers.isEmpty ∨ totalStake = 0 then reg.singleCredits proposer totalReward
  else reg.signersCredits totalReward totalStake signers

def ownTerms (reg : StakeRegistry) (v : Address) : Option (Nat × Nat × Nat) :=
  (reg.getValidator v).map fun x => (x.commissionRate, x.selfStake, x.totalStake)

theorem getValidator_addPending (reg : StakeRegistry) (v x : Address) (n : Nat) :
    (reg.addPending v n).getValidator x = (reg.getValidator x).map fun val =>
      if x = v then { val with pendingRewards := satAdd64 val.pendingRewards n } else val := by
  unfold addPending
  by_cases same : x = v
  · subst same
    cases found : reg.getValidator x with
    | none => simp [found]
    | some => simp [getValidator_setValidator]
  · cases found : reg.getValidator v with
    | none => cases reg.getValidator x <;> simp [same]
    | some =>
      rw [othersKept_setValidator reg v _ x same]
      cases reg.getValidator x <;> simp [same]

theorem getValidator_addDelegatorReward (reg : StakeRegistry) (d x : Address) (n : Nat) :
    (reg.addDelegatorReward d n).getValidator x = reg.getValidator x := by
  unfold addDelegatorReward
  split <;> rfl

theorem delegations_credit (reg : StakeRegistry) (c : Credit) :
    (reg.credit c).delegations = reg.delegations := by
  cases c with
  | pending v n =>
    show (reg.addPending v n).delegations = _
    unfold addPending
    split <;> rfl
  | delegator d n =>
    show (reg.addDelegatorReward d n).delegations = _
    unfold addDelegatorReward
    split <;> rfl

theorem ownTerms_credit (reg : StakeRegistry) (c : Credit) :
    (reg.credit c).ownTerms = reg.ownTerms := by
  funext x
  cases c with
  | pending v n =>
    unfold ownTerms
    show ((reg.addPending v n).getValidator x).map _ = _
    rw [getValidator_addPending]
    cases reg.getValidator x with
    | none => rfl
    | some =>
      simp only [Option.map_some]
      split <;> rfl
  | delegator d n =>
    unfold ownTerms
    show ((reg.addDelegatorReward d n).getValidator x).map _ = _
    rw [getValidator_addDelegatorReward]

theorem delegations_creditAll (reg : StakeRegistry) (credits : List Credit) :
    (reg.creditAll credits).delegations = reg.delegations :=
  foldl_keeps _ delegations_credit credits reg

theorem ownTerms_creditAll (reg : StakeRegistry) (credits : List Credit) :
    (reg.creditAll credits).ownTerms = reg.ownTerms :=
  foldl_keeps _ ownTerms_credit credits reg

theorem ownCredits_congr {val val' : ValidatorStake} (v : Address) (pot : Nat)
    (same : (val'.commissionRate, val'.selfStake, val'.totalStake) =
      (val.commissionRate, val.selfStake, val.totalStake)) :
    ownCredits v val' pot = ownCredits v val pot ∧ delegatorPool val' pot = delegatorPool val pot := by
  obtain ⟨rate, self, total⟩ := Prod.mk.inj same |>.imp_right Prod.mk.inj
  unfold ownCredits delegatorPool
  rw [rate, self, total]
  exact ⟨rfl, rfl⟩

section
variable {reg reg' : StakeRegistry}

theorem delegatorCredits_congr (same : reg'.delegationsTo = reg.delegationsTo) :
    reg'.delegatorCredits = reg.delegatorCredits := by
  unfold delegatorCredits delegatedAmounts
  rw [same]

theorem signerCredits_congr (terms : reg'.ownTerms = reg.ownTerms)
    (delegations : reg'.delegationsTo = reg.delegationsTo) :
    reg'.signerCredits = reg.signerCredits := by
  funext v pot
  have here := congrFun terms v
  unfold ownTerms at here
  unfold signerCredits
  rw [delegatorCredits_congr delegations]
  cases found : reg.getValidator v with
  | none =>
    rw [found] at here
    rw [Option.map_eq_none_iff.mp here]
  | some =>
    rw [found] at here
    obtain ⟨val', found', same⟩ := Option.map_eq_some_iff.mp here
    obtain ⟨own, pool⟩ := ownCredits_congr v pot same
    simp only [found', own, pool]

theorem singleCredits_congr (terms : reg'.ownTerms = reg.ownTerms) :
    reg'.singleCredits = reg.singleCredits := by
  funext v pot
  have here := congrFun terms v
  unfold ownTerms at here
  unfold singleCredits
  cases found : reg.getValidator v with
  | none =>
    rw [found] at here
    rw [Option.map_eq_none_iff.mp here]
  | some =>
    rw [found] at here
    obtain ⟨val', found', same⟩ := Option.map_eq_some_iff.mp here
    simp only [found', (ownCredits_congr v pot same).1]

theorem delegationsTo_of_delegations (same : reg'.delegations = reg.delegations) :
    reg'.delegationsTo = reg.delegationsTo := by
  have lists : reg'.delegationsOf = reg.delegationsOf := by
    unfold delegationsOf
    rw [same]
  unfold delegationsTo
  rw [lists, same]

theorem signersCredits_creditAll (credits : List Credit) :
    (reg.creditAll credits).signersCredits = reg.signersCredits := by
  unfold signersCredits
  rw [signerCredits_congr (ownTerms_creditAll reg credits)
    (delegationsTo_of_delegations (delegations_creditAll reg credits))]

end

theorem creditAll_append (reg : StakeRegistry) (first second : List Credit) :
    reg.creditAll (first ++ second) = (reg.creditAll first).creditAll second :=
  foldl_append

theorem payDelegators_eq (reg : StakeRegistry) (v : Address) (pool : Nat) :
    reg.payDelegators v pool = reg.creditAll (reg.delegatorCredits v pool) := by
  unfold payDelegators delegatorCredits creditAll delegatedAmounts
  dsimp only
  generalize ((reg.delegationsTo v).map (·.amount)).foldl wrapAdd64 0 = total
  split
  · rfl
  · rw [foldl_map]
    rfl

theorem payOneSigner_eq (reg : StakeRegistry) (v : Address) (pot : Nat) :
    reg.payOneSigner v pot = reg.creditAll (reg.signerCredits v pot) := by
  unfold payOneSigner signerCredits ownCredits delegatorPool
  cases found : reg.getValidator v with
  | none => rfl
  | some val =>
    dsimp only
    by_cases still : val.totalStake = 0
    · rw [if_pos (.inl still), if_pos (.inl still), if_pos still, if_pos rfl]
      rfl
    by_cases spent : pot - share pot val.commissionRate 10000 = 0
    · rw [if_pos (.inr spent), if_pos (.inr spent), if_neg still, spent, Nat.zero_sub, if_pos rfl]
      rfl
    have going : ¬ (val.totalStake = 0 ∨ pot - share pot val.commissionRate 10000 = 0) :=
      not_or.mpr ⟨still, spent⟩
    rw [if_neg going, if_neg going, if_neg still]
    generalize share pot val.commissionRate 10000 = commission
    generalize share (pot - commission) val.selfStake val.totalStake = own
    split
    · rfl
    · -- The delegators are paid from the registry the two credits have left.
      rw [payDelegators_eq, creditAll_append]
      show creditAll (reg.creditAll [.pending v commission, .pending v own]) _ = _
      congr 1
      refine congrFun (congrFun (delegatorCredits_congr (delegationsTo_of_delegations ?_)) v) _
      exact delegations_creditAll reg [.pending v commission, .pending v own]

theorem paySigners_eq (totalReward totalStake : Nat) (signers : List (Address × Nat)) :
    ∀ reg : StakeRegistry, reg.paySigners totalReward totalStake signers =
      reg.creditAll (reg.signersCredits totalReward totalStake signers) := by
  induction signers with
  | nil => intro reg; rfl
  | cons signer rest ih =>
    intro reg
    -- One signer's credits, which leave the others' as they were.
    have step : reg.paySigners totalReward totalStake (signer :: rest) =
        (reg.creditAll (reg.signersCredits totalReward totalStake [signer])).paySigners
          totalReward totalStake rest := by
      unfold paySigners signersCredits
      rw [foldl_cons, flatMap_singleton]
      dsimp only
      split
      · rfl
      · rw [payOneSigner_eq]
    rw [step, ih, signersCredits_creditAll, ← creditAll_append]
    congr 1
    simp [signersCredits]

theorem distributeReward_eq (reg : StakeRegistry) (proposer : Address)
    (signers : List (Address × Nat)) (blockReward feeShare : Nat) :
    finalState (distributeReward proposer signers blockReward feeShare) reg =
      reg.creditAll (reg.rewardCredits proposer signers blockReward feeShare) := by
  unfold distributeReward rewardCredits
  dsimp only
  split
  · unfold distributeToSingleValidator singleCredits
    rw [finalState_get_bind, finalState_fromOption_bind]
    cases reg.getValidator proposer with
    | none => rfl
    | some =>
      simp only [Option.map_some, Option.getD_some, ownCredits]
      show (if _ then _ else _) = _
      split <;> rfl
  · exact paySigners_eq _ _ signers reg

def toPending (v : Address) : List Credit → List Nat :=
  filterMap fun
    | .pending x n => if x = v then some n else none
    | .delegator .. => none

/-- Amounts of zero open no entry. -/
def toDelegator (d : Address) : List Credit → List Nat :=
  filterMap fun
    | .delegator x n => if x = d ∧ n ≠ 0 then some n else none
    | .pending .. => none

def pendingOf (reg : StakeRegistry) (v : Address) : Option Nat :=
  (reg.getValidator v).map (·.pendingRewards)

def addReward (held : Option Nat) (n : Nat) : Option Nat :=
  some (satAdd64 (held.getD 0) n)

theorem pendingOf_creditAll (v : Address) (credits : List Credit) :
    ∀ reg : StakeRegistry, (reg.creditAll credits).pendingOf v =
      (reg.pendingOf v).map fun held => (toPending v credits).foldl satAdd64 held := by
  induction credits with
  | nil => intro reg; simp [creditAll, toPending]
  | cons c rest ih =>
    intro reg
    show ((reg.credit c).creditAll rest).pendingOf v = _
    rw [ih]
    cases c with
    | pending x n =>
      have read : (reg.credit (.pending x n)).pendingOf v =
          (reg.pendingOf v).map fun held => if v = x then satAdd64 held n else held := by
        unfold pendingOf
        show ((reg.addPending x n).getValidator v).map _ = _
        rw [getValidator_addPending, Option.map_map, Option.map_map]
        congr 1
        funext val
        simp only [Function.comp_apply]
        split <;> rfl
      rw [read, Option.map_map]
      congr 1
      funext held
      by_cases same : x = v
      · simp [toPending, same]
      · simp [toPending, same, Ne.symm same]
    | delegator x n =>
      have read : (reg.credit (.delegator x n)).pendingOf v = reg.pendingOf v := by
        unfold pendingOf
        show ((reg.addDelegatorReward x n).getValidator v).map _ = _
        rw [getValidator_addDelegatorReward]
      rw [read]
      rfl

theorem rewards_creditAll (d : Address) (credits : List Credit) :
    ∀ reg : StakeRegistry, (reg.creditAll credits).delegatorRewards.lookup d =
      (toDelegator d credits).foldl addReward (reg.delegatorRewards.lookup d) := by
  induction credits with
  | nil => intro reg; rfl
  | cons c rest ih =>
    intro reg
    show ((reg.credit c).creditAll rest).delegatorRewards.lookup d = _
    rw [ih]
    cases c with
    | pending x n =>
      have kept : (reg.credit (.pending x n)).delegatorRewards = reg.delegatorRewards := by
        show (reg.addPending x n).delegatorRewards = _
        unfold addPending
        split <;> rfl
      rw [kept]
      rfl
    | delegator x n =>
      show (toDelegator d rest).foldl addReward
        ((reg.addDelegatorReward x n).delegatorRewards.lookup d) = _
      unfold addDelegatorReward
      by_cases nothing : n = 0
      · simp [toDelegator, nothing]
      · rw [if_neg nothing]
        by_cases same : x = d
        · subst same
          simp [toDelegator, nothing, addReward]
        · simp [toDelegator, same, AList.lookup_insert_ne (Ne.symm same)]

instance : RightCommutative satAdd64 :=
  ⟨fun a b c => by unfold satAdd64 satAdd; omega⟩

instance : RightCommutative addReward :=
  ⟨fun held a b => by
    have swapped : satAdd64 (satAdd64 (held.getD 0) a) b = satAdd64 (satAdd64 (held.getD 0) b) a :=
      RightCommutative.right_comm _ a b
    exact congrArg some swapped⟩

instance : RightCommutative wrapAdd64 :=
  ⟨fun a b c => by unfold wrapAdd64; omega⟩

section
variable {reg reg' : StakeRegistry}

/-- Equal delegations by lookup give equal lists, as the delegators are sorted first. -/
theorem delegationsTo_of_lookup (same : ∀ d, reg'.delegations.lookup d = reg.delegations.lookup d) :
    reg'.delegationsTo = reg.delegationsTo := by
  have lists : reg'.delegationsOf = reg.delegationsOf := by
    funext d
    unfold delegationsOf
    rw [same]
  have members : ∀ d, d ∈ reg'.delegations.keys ↔ d ∈ reg.delegations.keys := by
    intro d
    rw [← AList.mem_keys, ← AList.mem_keys, ← AList.lookup_isSome, ← AList.lookup_isSome, same]
  have perm : reg'.delegations.keys.Perm reg.delegations.keys :=
    (perm_ext_iff_of_nodup reg'.delegations.keys_nodup reg.delegations.keys_nodup).mpr members
  have sorted : reg'.delegations.keys.insertionSort (· ≤ ·) =
      reg.delegations.keys.insertionSort (· ≤ ·) := by
    apply List.Perm.eq_of_pairwise' (pairwise_insertionSort _ _)
      (pairwise_insertionSort _ _)
    exact (perm_insertionSort _ _).trans (perm.trans (perm_insertionSort _ _).symm)
  unfold delegationsTo
  rw [lists, sorted]

theorem rewardCredits_perm {signers signers' : List (Address × Nat)}
    (validators : ∀ v, reg'.validators.lookup v = reg.validators.lookup v)
    (delegations : ∀ d, reg'.delegations.lookup d = reg.delegations.lookup d)
    (perm : signers'.Perm signers) (proposer : Address) (reward feeShare : Nat) :
    (reg'.rewardCredits proposer signers' reward feeShare).Perm
      (reg.rewardCredits proposer signers reward feeShare) := by
  have terms : reg'.ownTerms = reg.ownTerms := by
    funext v
    unfold ownTerms getValidator
    rw [validators]
  have weights : (signers'.map Prod.snd).foldl wrapAdd64 0 =
      (signers.map Prod.snd).foldl wrapAdd64 0 := (perm.map _).foldl_eq 0
  unfold rewardCredits
  dsimp only
  rw [weights, perm.isEmpty_eq, singleCredits_congr terms]
  split
  · exact List.Perm.refl _
  · unfold signersCredits
    rw [signerCredits_congr terms (delegationsTo_of_lookup delegations)]
    exact perm.flatMap_right _

end

/-- Two registries with the same entries, in whatever order their maps hold them, and two orders
of one list of signers: the same pending rewards and the same delegator rewards. -/
theorem payout_order_free (reg reg' : StakeRegistry) (signers signers' : List (Address × Nat))
    (proposer : Address) (reward feeShare : Nat)
    (validators : ∀ v, reg'.validators.lookup v = reg.validators.lookup v)
    (delegations : ∀ d, reg'.delegations.lookup d = reg.delegations.lookup d)
    (rewards : ∀ d, reg'.delegatorRewards.lookup d = reg.delegatorRewards.lookup d)
    (perm : signers'.Perm signers) :
    let after := finalState (distributeReward proposer signers reward feeShare) reg
    let after' := finalState (distributeReward proposer signers' reward feeShare) reg'
    (∀ v, (after'.getValidator v).map (·.pendingRewards) =
        (after.getValidator v).map (·.pendingRewards)) ∧
      ∀ d, after'.delegatorRewards.lookup d = after.delegatorRewards.lookup d := by
  intro after after'
  have credits := rewardCredits_perm validators delegations perm proposer reward feeShare
  constructor
  · intro v
    show after'.pendingOf v = after.pendingOf v
    have held : reg'.pendingOf v = reg.pendingOf v := by
      unfold pendingOf getValidator
      rw [validators]
    simp only [after, after', distributeReward_eq, pendingOf_creditAll, held]
    congr 1
    funext start
    exact (credits.filterMap _).foldl_eq start
  · intro d
    simp only [after, after', distributeReward_eq, rewards_creditAll, rewards]
    exact (credits.filterMap _).foldl_eq _

/-- Two validators entered in either order, their votes counted in either order. -/
theorem two_signers_order_free :
    (bondedSet ["beta", "alpha"]).validators.entries ≠ (bondedSet ["alpha", "beta"]).validators.entries ∧
      ∀ v, ((finalState (distributeReward "alpha" [("beta", 3), ("alpha", 1)] 100 0)
          (bondedSet ["beta", "alpha"])).getValidator v).map (·.pendingRewards) =
        ((finalState (distributeReward "alpha" [("alpha", 1), ("beta", 3)] 100 0)
          (bondedSet ["alpha", "beta"])).getValidator v).map (·.pendingRewards) :=
  ⟨by decide, (payout_order_free (bondedSet ["alpha", "beta"]) (bondedSet ["beta", "alpha"])
    [("alpha", 1), ("beta", 3)] [("beta", 3), ("alpha", 1)] "alpha" 100 0
    (fun _ => AList.perm_lookup (by decide)) (fun _ => rfl) (fun _ => rfl) (by decide)).1⟩

def owed (reg : StakeRegistry) : Nat :=
  sumOf (fun _ v => v.pendingRewards) reg.validators + sumOf (fun _ n => n) reg.delegatorRewards

def amounts (credits : List Credit) : Nat :=
  (credits.map Credit.amount).sum

theorem owed_credit (reg : StakeRegistry) (c : Credit) :
    (reg.credit c).owed ≤ reg.owed + c.amount := by
  cases c with
  | pending v n =>
    show (reg.addPending v n).owed ≤ reg.owed + n
    unfold addPending
    split
    · rename_i val found
      have grown := sumOf_insert (fun _ (x : ValidatorStake) => x.pendingRewards) reg.validators v
        { val with pendingRewards := satAdd64 val.pendingRewards n }
      rw [show reg.validators.lookup v = some val from found] at grown
      have capped : satAdd64 val.pendingRewards n ≤ val.pendingRewards + n := Nat.min_le_left _ _
      unfold owed setValidator
      simp only [Option.map_some, Option.getD_some] at grown ⊢
      omega
    · exact Nat.le_add_right _ _
  | delegator d n =>
    show (reg.addDelegatorReward d n).owed ≤ reg.owed + n
    unfold addDelegatorReward
    split
    · exact Nat.le_add_right _ _
    · have grown := sumOf_insert (fun _ (x : Nat) => x) reg.delegatorRewards d
        (satAdd64 ((reg.delegatorRewards.lookup d).getD 0) n)
      have capped : satAdd64 ((reg.delegatorRewards.lookup d).getD 0) n ≤
          (reg.delegatorRewards.lookup d).getD 0 + n := Nat.min_le_left _ _
      have read : ((reg.delegatorRewards.lookup d).map fun x => x).getD 0 =
          (reg.delegatorRewards.lookup d).getD 0 := by
        cases reg.delegatorRewards.lookup d <;> rfl
      unfold owed
      dsimp only at grown ⊢
      omega

theorem owed_creditAll (credits : List Credit) :
    ∀ reg : StakeRegistry, (reg.creditAll credits).owed ≤ reg.owed + amounts credits := by
  induction credits with
  | nil => intro reg; exact Nat.le_refl _
  | cons c rest ih =>
    intro reg
    have later := ih (reg.credit c)
    have now := owed_credit reg c
    show ((reg.credit c).creditAll rest).owed ≤ _
    unfold amounts at later ⊢
    rw [map_cons, sum_cons]
    omega

theorem amounts_append (first second : List Credit) :
    amounts (first ++ second) = amounts first + amounts second := by
  simp [amounts]

theorem share_le_div (pot part whole : Nat) : share pot part whole ≤ pot * part / whole :=
  Nat.mod_le _ _

theorem share_le {part whole : Nat} (pot : Nat) (within : part ≤ whole) :
    share pot part whole ≤ pot := by
  refine Nat.le_trans (share_le_div pot part whole) ?_
  refine Nat.div_le_of_le_mul ?_
  rw [Nat.mul_comm]
  exact Nat.mul_le_mul_right pot within

/-- The cast to 64 bits cuts nothing off a share of a part that fits the whole. -/
theorem share_eq_div {pot part whole : Nat} (word : pot ≤ u64Max) (within : part ≤ whole) :
    share pot part whole = pot * part / whole := by
  have small : pot * part / whole ≤ pot := by
    refine Nat.div_le_of_le_mul ?_
    rw [Nat.mul_comm]
    exact Nat.mul_le_mul_right pot within
  unfold u64Max at word
  exact Nat.mod_eq_of_lt (by omega)

/-- Rounding down, the shares of parts that fit the whole add up to no more than the pot. -/
theorem sum_shares_le (pot whole : Nat) (parts : List Nat) :
    (parts.map fun part => share pot part whole).sum ≤ pot * parts.sum / whole := by
  induction parts with
  | nil => exact Nat.zero_le _
  | cons part rest =>
    have first := share_le_div pot part whole
    have both : pot * part / whole + pot * rest.sum / whole ≤ (pot * part + pot * rest.sum) / whole :=
      Nat.div_add_div_le_add_div
    rw [map_cons, sum_cons, sum_cons, Nat.mul_add]
    omega

theorem sum_shares_le_pot {whole : Nat} {parts : List Nat} (pot : Nat) (within : parts.sum ≤ whole) :
    (parts.map fun part => share pot part whole).sum ≤ pot := by
  refine Nat.le_trans (sum_shares_le pot whole parts) (Nat.div_le_of_le_mul ?_)
  rw [Nat.mul_comm]
  exact Nat.mul_le_mul_right pot within

structure Proper (val : ValidatorStake) : Prop where
  rate : val.commissionRate ≤ 10000
  word : val.selfStake ≤ u64Max

theorem Proper.self_le {val : ValidatorStake} (proper : Proper val) :
    val.selfStake ≤ val.totalStake :=
  Nat.le_min.mpr ⟨Nat.le_add_right _ _, proper.word⟩

theorem ownCredits_le {val : ValidatorStake} (proper : Proper val) (v : Address) (pot : Nat) :
    amounts (ownCredits v val pot) + delegatorPool val pot ≤ pot := by
  have taken := share_le pot proper.rate
  have own := share_le (pot - share pot val.commissionRate 10000) proper.self_le
  unfold ownCredits delegatorPool
  dsimp only
  split_ifs with first still <;> simp [amounts, Credit.amount] <;> omega

section
variable {reg : StakeRegistry}

theorem delegatorCredits_le {v : Address} (fits : (reg.delegatedAmounts v).sum ≤ u64Max)
    (pool : Nat) : amounts (reg.delegatorCredits v pool) ≤ pool := by
  unfold delegatorCredits
  dsimp only
  rw [foldl_wrapAdd64 _ 0 (by omega), Nat.zero_add]
  split
  · exact Nat.zero_le _
  · have shares := @sum_shares_le_pot _ (reg.delegatedAmounts v) pool (Nat.le_refl _)
    unfold delegatedAmounts at shares ⊢
    rw [map_map] at shares
    unfold amounts
    rw [map_map]
    exact shares

theorem signerCredits_le {v : Address} (proper : ∀ val, reg.getValidator v = some val → Proper val)
    (fits : (reg.delegatedAmounts v).sum ≤ u64Max) (pot : Nat) :
    amounts (reg.signerCredits v pot) ≤ pot := by
  unfold signerCredits
  cases found : reg.getValidator v with
  | none => exact Nat.zero_le _
  | some val =>
    have own := ownCredits_le (proper val found) v pot
    have rest := delegatorCredits_le fits (delegatorPool val pot)
    dsimp only
    rw [amounts_append]
    split
    · simp only [amounts, map_nil, sum_nil] at own ⊢
      omega
    · omega

theorem signersCredits_le {signers : List (Address × Nat)} {totalStake : Nat}
    (paid : ∀ s ∈ signers, s.2 ≠ 0 → (∀ val, reg.getValidator s.1 = some val → Proper val) ∧
      (reg.delegatedAmounts s.1).sum ≤ u64Max) (totalReward : Nat) :
    amounts (reg.signersCredits totalReward totalStake signers) ≤
      ((signers.map Prod.snd).map fun weight => share totalReward weight totalStake).sum := by
  induction signers with
  | nil => exact Nat.le_refl _
  | cons s _ ih =>
    have later := ih fun x member => paid x (mem_cons_of_mem _ member)
    unfold signersCredits at later ⊢
    rw [flatMap_cons, amounts_append, map_cons, map_cons, sum_cons]
    refine Nat.add_le_add ?_ later
    dsimp only
    split
    · exact Nat.zero_le _
    · rename_i counted
      obtain ⟨proper, fits⟩ := paid s mem_cons_self fun zero => counted (.inl zero)
      exact signerCredits_le proper fits (share totalReward s.2 totalStake)

end

/-- Commission and self-stake share of a pot are the whole quotients. -/
structure SharesExact (val : ValidatorStake) (pot : Nat) : Prop where
  commission : share pot val.commissionRate 10000 = pot * val.commissionRate / 10000
  own : share (pot - share pot val.commissionRate 10000) val.selfStake val.totalStake =
    (pot - share pot val.commissionRate 10000) * val.selfStake / val.totalStake

theorem Proper.exact {val : ValidatorStake} (proper : Proper val) {pot : Nat}
    (word : pot ≤ u64Max) : SharesExact val pot :=
  ⟨share_eq_div word proper.rate, share_eq_div (by omega) proper.self_le⟩

/-- With weights that fit a word, and commissions of at most the whole and delegations that
fit a word for those who are paid, no sum wraps, no cast cuts anything off, and no more is
paid out than the reward and the fee share. -/
theorem payout_bounded (reg : StakeRegistry) (proposer : Address) (signers : List (Address × Nat))
    (reward feeShare : Nat) (weights : (signers.map Prod.snd).sum ≤ u64Max)
    (single : (signers.map Prod.snd).sum = 0 →
      ∀ val, reg.getValidator proposer = some val → Proper val)
    (paid : ∀ s ∈ signers, s.2 ≠ 0 → (∀ val, reg.getValidator s.1 = some val → Proper val) ∧
      (reg.delegatedAmounts s.1).sum ≤ u64Max) :
    (finalState (distributeReward proposer signers reward feeShare) reg).owed ≤
        reg.owed + (reward + feeShare) ∧
      (signers.map Prod.snd).foldl wrapAdd64 0 = (signers.map Prod.snd).sum ∧
      ((signers.map Prod.snd).sum = 0 → ∀ val, reg.getValidator proposer = some val →
        SharesExact val (satAdd64 reward feeShare)) ∧
      ∀ s ∈ signers, s.2 ≠ 0 →
        let pot := share (satAdd64 reward feeShare) s.2 (signers.map Prod.snd).sum
        pot = satAdd64 reward feeShare * s.2 / (signers.map Prod.snd).sum ∧
        (reg.delegatedAmounts s.1).foldl wrapAdd64 0 = (reg.delegatedAmounts s.1).sum ∧
        ∀ val, reg.getValidator s.1 = some val → SharesExact val pot ∧
          ∀ amount ∈ reg.delegatedAmounts s.1,
            share (delegatorPool val pot) amount (reg.delegatedAmounts s.1).sum =
              delegatorPool val pot * amount / (reg.delegatedAmounts s.1).sum := by
  have capped : satAdd64 reward feeShare ≤ reward + feeShare := Nat.min_le_left _ _
  have word : satAdd64 reward feeShare ≤ u64Max := Nat.min_le_right _ _
  have sums : ∀ l : List Nat, l.sum ≤ u64Max → l.foldl wrapAdd64 0 = l.sum := by
    intro l fits
    rw [foldl_wrapAdd64 l 0 (by omega), Nat.zero_add]
  have part : ∀ {l : List Nat} {n : Nat}, n ∈ l → n ≤ l.sum := fun member =>
    single_le_sum (fun _ _ => Nat.zero_le _) _ member
  refine ⟨?_, sums _ weights, fun none val found => (single none val found).exact word, ?_⟩
  · have credited := owed_creditAll (reg.rewardCredits proposer signers reward feeShare) reg
    have bounded : amounts (reg.rewardCredits proposer signers reward feeShare) ≤
        satAdd64 reward feeShare := by
      unfold rewardCredits
      dsimp only
      rw [sums _ weights]
      split
      · rename_i nobody
        have none : (signers.map Prod.snd).sum = 0 :=
          nobody.elim (fun empty => by simp [isEmpty_iff.mp empty]) id
        unfold singleCredits
        cases found : reg.getValidator proposer with
        | none => exact Nat.zero_le _
        | some val =>
          exact Nat.le_trans (Nat.le_add_right _ _)
            (ownCredits_le (single none val found) proposer _)
      · exact Nat.le_trans (signersCredits_le paid (satAdd64 reward feeShare))
          (sum_shares_le_pot _ (Nat.le_refl _))
    rw [distributeReward_eq]
    omega
  · intro s member counted pot
    obtain ⟨proper, fits⟩ := paid s member counted
    have within := part (mem_map_of_mem (f := Prod.snd) member)
    have small : pot ≤ u64Max := (share_le _ within).trans word
    refine ⟨share_eq_div word within, sums _ fits, fun val found => ⟨(proper val found).exact small,
      fun amount listed => share_eq_div ?_ (part listed)⟩⟩
    have pool := ownCredits_le (proper val found) s.1 pot
    omega

/-- Two weights that a peer may send: their sum wraps to one, and a reward of one coin
credits more than a hundred billion. -/
theorem wrapped_weights_overpay :
    (finalState (distributeReward "alpha" [("alpha", u64Max), ("beta", 2)] 100000000 0)
        (bondedSet ["alpha", "beta"])).owed >
      (bondedSet ["alpha", "beta"]).owed + 100000000 * 100000000000 := by
  decide

/-- The proposer's commission of twice the whole is not read, as it does not sign. -/
theorem honest_weights_bounded :
    let reg := (bondedSet ["alpha", "beta"]).setValidator "gamma"
      { bonded "gamma" with commissionRate := 20000 }
    (finalState (distributeReward "gamma" [("alpha", minSelfStake), ("beta", minSelfStake)]
      100000000 0) reg).owed ≤ reg.owed + (100000000 + 0) := by
  intro reg
  refine (payout_bounded reg "gamma" [("alpha", minSelfStake), ("beta", minSelfStake)] 100000000 0
    (by decide) (fun none => absurd none (by decide)) ?_).1
  intro s member _
  refine ⟨fun val found => ?_, Nat.zero_le _⟩
  rcases List.mem_cons.mp member with rfl | member
  · cases found
    exact ⟨by decide, by decide⟩
  · cases List.mem_singleton.mp member
    cases found
    exact ⟨by decide, by decide⟩

end StakeRegistry
end SentrixStaking
