import Mathlib

/-!
Weighted committees and their two-thirds quorums. A quorum is a set of members whose
weight is more than two thirds of the whole.
-/
namespace WeightedQuorum
variable {V : Type}

structure Committee (V : Type) where
  members : Finset V
  weight : V → Nat

def twoThirdsPlusOne (total : Nat) : Nat :=
  total * 2 / 3 + 1

namespace Committee
variable (c : Committee V)

def total : Nat :=
  ∑ v ∈ c.members, c.weight v

open Classical in
noncomputable def weightOf (p : V → Prop) : Nat :=
  ∑ v ∈ c.members.filter p, c.weight v

def Quorum (p : V → Prop) : Prop :=
  twoThirdsPlusOne c.total ≤ c.weightOf p

def BelowThird (p : V → Prop) : Prop :=
  3 * c.weightOf p < c.total

variable {c} {p q : V → Prop}

theorem weightOf_le_total : c.weightOf p ≤ c.total := by
  classical
  exact Finset.sum_le_sum_of_subset (Finset.filter_subset p c.members)

theorem weightOf_mono (sub : ∀ v ∈ c.members, p v → q v) : c.weightOf p ≤ c.weightOf q := by
  classical
  apply Finset.sum_le_sum_of_subset
  intro v member
  simp only [Finset.mem_filter] at member ⊢
  exact ⟨member.1, sub v member.1 member.2⟩

theorem weightOf_or_add_and :
    c.weightOf (fun v => p v ∨ q v) + c.weightOf (fun v => p v ∧ q v) =
      c.weightOf p + c.weightOf q := by
  classical
  have either : c.members.filter (fun v => p v ∨ q v) =
      c.members.filter p ∪ c.members.filter q := by
    ext v; simp only [Finset.mem_filter, Finset.mem_union]; tauto
  have both : c.members.filter (fun v => p v ∧ q v) =
      c.members.filter p ∩ c.members.filter q := by
    ext v; simp only [Finset.mem_filter, Finset.mem_inter]; tauto
  have parts : ∑ v ∈ c.members.filter p ∪ c.members.filter q, c.weight v +
        ∑ v ∈ c.members.filter p ∩ c.members.filter q, c.weight v =
      ∑ v ∈ c.members.filter p, c.weight v + ∑ v ∈ c.members.filter q, c.weight v :=
    Finset.sum_union_inter
  rw [← either, ← both] at parts
  unfold weightOf
  convert parts

theorem Quorum.mono (quorum : c.Quorum p) (sub : ∀ v ∈ c.members, p v → q v) : c.Quorum q :=
  Nat.le_trans quorum (weightOf_mono sub)

/-- Two quorums meet in more than one third of the committee's weight. -/
theorem quorum_overlap (left : c.Quorum p) (right : c.Quorum q) :
    c.total < 3 * c.weightOf (fun v => p v ∧ q v) := by
  have split := weightOf_or_add_and (c := c) (p := p) (q := q)
  have whole := weightOf_le_total (c := c) (p := fun v => p v ∨ q v)
  unfold Quorum twoThirdsPlusOne at left right
  omega

/-- Two quorums share a member outside any set below one third. -/
theorem quorum_meets_outside {faulty : V → Prop} (few : c.BelowThird faulty)
    (left : c.Quorum p) (right : c.Quorum q) :
    ∃ v ∈ c.members, ¬ faulty v ∧ p v ∧ q v := by
  have overlap := quorum_overlap left right
  by_contra none
  push Not at none
  have sub : c.weightOf (fun v => p v ∧ q v) ≤ c.weightOf faulty := by
    apply weightOf_mono
    intro v member both
    by_contra honest
    exact none v member honest both.1 both.2
  unfold BelowThird at few
  omega

theorem quorum_has_outside {faulty : V → Prop} (few : c.BelowThird faulty)
    (quorum : c.Quorum p) : ∃ v ∈ c.members, ¬ faulty v ∧ p v := by
  obtain ⟨v, member, honest, voted, _⟩ := quorum_meets_outside few quorum quorum
  exact ⟨v, member, honest, voted⟩

end Committee
end WeightedQuorum
