import Sentrix.Bft.EngineMoves

/-!
The tallies against the recorded votes. A tally entry is the stake of the
recorded votes for its hash, each voter counted once, so a supermajority in the
collector is a set of recorded voters of that much stake.
-/
namespace SentrixEngine
open MachineWords HashTable SentrixPrimitives SentrixMessages
variable {ν : Type}

def weightFor (vote : ν → Option Hash) (stake : ν → Nat) (hash : Option Hash)
    (_ : Address) (x : ν) : Nat :=
  if vote x = hash then stake x else 0

def Tallied (vote : ν → Option Hash) (stake : ν → Nat) (tally : Tally)
    (votes : Table Address ν) : Prop :=
  ∀ hash, (tally.lookup hash).getD 0 = sumOf (weightFor vote stake hash) votes

variable {vote : ν → Option Hash} {stake : ν → Nat}

theorem tallied_empty : Tallied vote stake (∅ : Tally) ∅ := by
  intro hash
  rfl

theorem Tallied.add {tally : Tally} {votes : Table Address ν}
    (tallied : Tallied vote stake tally votes) {u : Address} (x : ν)
    (fresh : votes.lookup u = none)
    (fits : sumOf (weightFor vote stake (vote x)) votes + stake x ≤ u64Max) :
    Tallied vote stake (tally.add (vote x) (stake x)) (votes.insert u x) := by
  intro hash
  rw [sumOf_insert_absent _ _ fresh]
  unfold Tally.add
  by_cases same : hash = vote x
  · subst same
    rw [AList.lookup_insert, Option.getD_some, tallied, wrapAdd64_eq_add fits]
    simp only [weightFor, if_pos]
    omega
  · rw [AList.lookup_insert_ne same, tallied hash]
    simp only [weightFor, if_neg (Ne.symm same), Nat.zero_add]

/-- Stake may wrap around in a tally entry, but never adds to it. -/
def TalliedBelow (vote : ν → Option Hash) (stake : ν → Nat) (tally : Tally)
    (votes : Table Address ν) : Prop :=
  ∀ hash, (tally.lookup hash).getD 0 ≤ sumOf (weightFor vote stake hash) votes

theorem TalliedBelow.add {tally : Tally} {votes : Table Address ν}
    (below : TalliedBelow vote stake tally votes) {u : Address} (x : ν)
    (fresh : votes.lookup u = none) :
    TalliedBelow vote stake (tally.add (vote x) (stake x)) (votes.insert u x) := by
  intro hash
  rw [sumOf_insert_absent _ _ fresh]
  unfold Tally.add
  by_cases same : hash = vote x
  · subst same
    have wrapped : wrapAdd64 ((tally.lookup (vote x)).getD 0) (stake x) ≤
        (tally.lookup (vote x)).getD 0 + stake x := Nat.mod_le _ _
    have before := below (vote x)
    rw [AList.lookup_insert, Option.getD_some]
    simp only [weightFor, if_pos] at before ⊢
    omega
  · rw [AList.lookup_insert_ne same]
    simp only [weightFor, if_neg (Ne.symm same), Nat.zero_add]
    exact below hash

theorem supermajority_weight {order : HashIter (Option Hash × Nat)} {tally : Tally} {total : Nat}
    {hash : Option Hash} (found : tally.supermajority order total = some hash) :
    supermajorityThreshold total ≤ (tally.lookup hash).getD 0 := by
  unfold Tally.supermajority at found
  obtain ⟨entry, first, same⟩ := Option.map_eq_some_iff.mp found
  have member := List.mem_of_find?_eq_some first
  have enough := List.find?_some first
  rw [order.mem_visit] at member
  obtain ⟨key, weight⟩ := entry
  rw [mem_pairs] at member
  subst same
  rw [member]
  simpa using enough

structure CountsExact (c : Core) : Prop where
  prevotes : Tallied Prod.fst Prod.snd c.collector.prevoteTally c.prevotes
  precommits : Tallied Prod.fst (fun x => x.2.2) c.collector.precommitTally c.precommits

theorem CountsExact.advance (c : Core) : CountsExact c.advance :=
  ⟨tallied_empty, tallied_empty⟩

theorem CountsExact.countPrevote {c : Core} (counts : CountsExact c) {p : Prevote} {weight : Nat}
    (fresh : c.prevotes.lookup p.validator = none)
    (fits : sumOf (weightFor Prod.fst Prod.snd p.blockHash) c.prevotes + weight ≤ u64Max) :
    CountsExact (c.countPrevote p weight) :=
  ⟨counts.prevotes.add (p.blockHash, weight) fresh fits, counts.precommits⟩

theorem CountsExact.countPrecommit {c : Core} (counts : CountsExact c) {p : Precommit}
    {weight : Nat} (fresh : c.precommits.lookup p.validator = none)
    (fits : sumOf (weightFor Prod.fst (fun x => x.2.2) p.blockHash) c.precommits + weight ≤ u64Max) :
    CountsExact (c.countPrecommit p weight) :=
  ⟨counts.prevotes, counts.precommits.add (p.blockHash, p.signature, weight) fresh fits⟩

end SentrixEngine
