import Sentrix.Lib.WeightedQuorum

/-!
Two-phase voting with locks, seen only through the record of votes cast. Three rules on
the honest part of the record are enough for two precommit quorums, of any rounds, to
name the same value.
-/
namespace LockedVoting
open WeightedQuorum
variable {V B : Type}

structure Record (V B : Type) where
  prevoted : V → Nat → B → Prop
  precommitted : V → Nat → B → Prop

/-- A quorum for `value` in `round` as far as the record can show one: faulty
voters may have voted for everything. -/
def PrevoteQuorum (c : Committee V) (faulty : V → Prop) (record : Record V B)
    (round : Nat) (value : B) : Prop :=
  c.Quorum fun v => faulty v ∨ record.prevoted v round value

def PrecommitQuorum (c : Committee V) (faulty : V → Prop) (record : Record V B)
    (round : Nat) (value : B) : Prop :=
  c.Quorum fun v => faulty v ∨ record.precommitted v round value

structure LockRules (c : Committee V) (faulty : V → Prop) (record : Record V B) : Prop where
  one_prevote : ∀ {v r a b}, v ∈ c.members → ¬ faulty v →
    record.prevoted v r a → record.prevoted v r b → a = b
  precommit_backed : ∀ {v r a}, v ∈ c.members → ¬ faulty v →
    record.precommitted v r a → PrevoteQuorum c faulty record r a
  lock_respected : ∀ {v r s a b}, v ∈ c.members → ¬ faulty v →
    record.precommitted v r a → PrecommitQuorum c faulty record r a →
    record.prevoted v s b → r < s → b ≠ a →
    ∃ between other, r < between ∧ between < s ∧ other ≠ a ∧
      PrevoteQuorum c faulty record between other

variable {c : Committee V} {faulty : V → Prop} {record : Record V B}

theorem prevoteQuorum_unique (few : c.BelowThird faulty) (rules : LockRules c faulty record)
    {r : Nat} {a b : B} (left : PrevoteQuorum c faulty record r a)
    (right : PrevoteQuorum c faulty record r b) : a = b := by
  obtain ⟨v, member, honest, votedLeft, votedRight⟩ :=
    Committee.quorum_meets_outside few left right
  exact rules.one_prevote member honest (votedLeft.resolve_left honest)
    (votedRight.resolve_left honest)

theorem prevoteQuorum_of_precommitQuorum (few : c.BelowThird faulty)
    (rules : LockRules c faulty record) {r : Nat} {a : B}
    (quorum : PrecommitQuorum c faulty record r a) : PrevoteQuorum c faulty record r a := by
  obtain ⟨v, member, honest, voted⟩ := Committee.quorum_has_outside few quorum
  exact rules.precommit_backed member honest (voted.resolve_left honest)

/-- Once a value has a precommit quorum, no other value gathers prevotes later.
The induction is on the later round: a voter in both quorums gave the value
up, which needs a quorum for yet another value strictly in between. -/
theorem no_later_prevoteQuorum (few : c.BelowThird faulty) (rules : LockRules c faulty record)
    {r : Nat} {a : B} (decided : PrecommitQuorum c faulty record r a) :
    ∀ s b, r < s → b ≠ a → ¬ PrevoteQuorum c faulty record s b := by
  intro s
  induction s using Nat.strongRecOn with
  | ind s ih =>
    intro b later differs quorum
    obtain ⟨v, member, honest, precommitted, prevoted⟩ :=
      Committee.quorum_meets_outside few decided quorum
    obtain ⟨between, other, after, before, otherDiffers, earlier⟩ :=
      rules.lock_respected member honest (precommitted.resolve_left honest) decided
        (prevoted.resolve_left honest) later differs
    exact ih between before other after otherDiffers earlier

theorem precommitQuorum_le (few : c.BelowThird faulty) (rules : LockRules c faulty record)
    {r s : Nat} {a b : B} (order : r ≤ s) (left : PrecommitQuorum c faulty record r a)
    (right : PrecommitQuorum c faulty record s b) : a = b := by
  have later := prevoteQuorum_of_precommitQuorum few rules right
  rcases Nat.lt_or_eq_of_le order with before | same
  · by_contra differs
    exact no_later_prevoteQuorum few rules left s b before (Ne.symm differs) later
  · subst same
    exact prevoteQuorum_unique few rules (prevoteQuorum_of_precommitQuorum few rules left) later

/-- Agreement: precommit quorums of any two rounds name one value. -/
theorem precommitQuorum_agree (few : c.BelowThird faulty) (rules : LockRules c faulty record)
    {r s : Nat} {a b : B} (left : PrecommitQuorum c faulty record r a)
    (right : PrecommitQuorum c faulty record s b) : a = b := by
  rcases Nat.le_total r s with order | order
  · exact precommitQuorum_le few rules order left right
  · exact (precommitQuorum_le few rules order right left).symm

end LockedVoting
