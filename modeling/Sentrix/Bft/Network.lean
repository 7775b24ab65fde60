import Sentrix.Lib.LockedVoting
import Sentrix.Lib.Runs
import Sentrix.Bft.Tallies

/-!
One height of the protocol over a whole validator set. Honest members run the engine;
Byzantine ones say anything. The network may drop, repeat and reorder: a vote in an
honest name can be delivered whenever that validator has let a vote with the same
signing payload leave its node.
-/
namespace SentrixNetwork
open MachineWords HashTable SentrixPrimitives SentrixMessages SentrixStaking SentrixEngine List
open WeightedQuorum LockedVoting Runs

def committee (reg : StakeRegistry) : Committee Address where
  members := reg.activeSet.toFinset
  weight := reg.voteStake

structure Setup where
  reg : StakeRegistry
  /-- The validators that the authority roster has as active. -/
  authority : Address → Bool
  height : Nat
  byzantine : Address → Bool
  distinct : reg.activeSet.Nodup
  fits : (reg.activeSet.map reg.voteStake).sum ≤ u64Max
  heightWord : height ≤ u64Max
  few : (committee reg).BelowThird fun v => byzantine v

def Setup.isActiveBftSigner (S : Setup) (v : Address) : Bool :=
  S.reg.isActive v || S.authority v

structure Network where
  engines : Address → BftEngine
  /-- Proposals honest nodes have signed: proposer, round, hash. -/
  proposals : List (Address × Nat × Hash)
  /-- Prevotes that left honest nodes, those embedded in proposals included. -/
  prevotes : List Prevote
  precommits : List Precommit
  /-- `FinalizeBlock` actions: validator, round, hash. -/
  finalized : List (Address × Nat × Hash)

structure Event where
  validator : Address
  call : EngineCall

def sentPrevotes : BftAction → List Prevote
  | .broadcastPrevote p => [p]
  | _ => []

def sentPrecommits : BftAction → List Precommit
  | .broadcastPrecommit p => [p]
  | _ => []

def sentFinal (v : Address) : BftAction → List (Address × Nat × Hash)
  | .finalizeBlock _ round blockHash _ => [(v, round, blockHash)]
  | _ => []

def embeddedPrevotes (e : BftEngine) : EngineCall → List Prevote
  | .ownProposal blockHash => [e.ownPrevote (some blockHash)]
  | _ => []

def sentProposals (e : BftEngine) : EngineCall → List (Address × Nat × Hash)
  | .ownProposal blockHash => [(e.ourAddress, e.state.round, blockHash)]
  | _ => []

namespace Network

def initial (S : Setup) : Network where
  engines v := BftEngine.new S.height v S.reg.totalActiveStake
  proposals := []
  prevotes := []
  precommits := []
  finalized := []

def step (S : Setup) (n : Network) (ev : Event) : Network :=
  let e := n.engines ev.validator
  let result := e.perform S.reg ev.call
  { engines := Function.update n.engines ev.validator result.1
    proposals := sentProposals e ev.call ++ n.proposals
    prevotes := sentPrevotes result.2 ++ embeddedPrevotes e ev.call ++ n.prevotes
    precommits := sentPrecommits result.2 ++ n.precommits
    finalized := sentFinal ev.validator result.2 ++ n.finalized }

/-- What the boundary lets through to an honest engine: signers that are active or on the
authority roster. A round status only moves rounds forward and is left unconstrained. -/
def Deliverable (S : Setup) (n : Network) (e : BftEngine) : EngineCall → Prop
  | .proposal blockHash proposer => S.isActiveBftSigner proposer ∧
      (S.byzantine proposer ∨ (proposer, e.state.round, blockHash) ∈ n.proposals)
  | .ownProposal _ => e.state.phase = .propose ∧ e.isProposer S.reg
  | .prevote _ p => S.isActiveBftSigner p.validator ∧
      (S.byzantine p.validator ∨
        ∃ q ∈ n.prevotes, q.validator = p.validator ∧ q.payload = p.payload)
  | .precommit _ _ p => S.isActiveBftSigner p.validator ∧
      (S.byzantine p.validator ∨
        ∃ q ∈ n.precommits, q.validator = p.validator ∧ q.payload = p.payload)
  | _ => True

def Enabled (S : Setup) (n : Network) (ev : Event) : Prop :=
  S.byzantine ev.validator = false ∧ Deliverable S n (n.engines ev.validator) ev.call

instance (S : Setup) (n : Network) (e : BftEngine) :
    ∀ call, Decidable (Deliverable S n e call)
  | .proposal _ _ => inferInstanceAs (Decidable (_ ∧ _))
  | .ownProposal _ => inferInstanceAs (Decidable (_ ∧ _))
  | .prevote _ _ => inferInstanceAs (Decidable (_ ∧ _))
  | .precommit _ _ _ => inferInstanceAs (Decidable (_ ∧ _))
  | .advanceRound | .catchUpRound _ | .timeout | .roundStatus _ _ | .legacyRoundStatus _
  | .stash _ _ | .markPrevoteCast | .markPrecommitCast => inferInstanceAs (Decidable True)

instance (S : Setup) (n : Network) (ev : Event) : Decidable (Enabled S n ev) :=
  inferInstanceAs (Decidable (_ ∧ _))

end Network

def system (S : Setup) : System Network Event where
  init := Network.initial S
  enabled := Network.Enabled S
  step := Network.step S

instance (S : Setup) (n : Network) (ev : Event) : Decidable ((system S).enabled n ev) :=
  inferInstanceAs (Decidable (Network.Enabled S n ev))

def Network.Prevoted (n : Network) (v : Address) (round : Nat) (h : Hash) : Prop :=
  ∃ p ∈ n.prevotes, p.validator = v ∧ p.round = round ∧ p.blockHash = some h

def Network.Precommitted (n : Network) (v : Address) (round : Nat) (h : Hash) : Prop :=
  ∃ p ∈ n.precommits, p.validator = v ∧ p.round = round ∧ p.blockHash = some h

def Network.record (n : Network) : Record Address Hash where
  prevoted := n.Prevoted
  precommitted := n.Precommitted

def Setup.faulty (S : Setup) (v : Address) : Prop :=
  S.byzantine v

abbrev Network.Polka (S : Setup) (n : Network) (round : Nat) (h : Hash) : Prop :=
  PrevoteQuorum (committee S.reg) S.faulty n.record round h

abbrev Network.Commit (S : Setup) (n : Network) (round : Nat) (h : Hash) : Prop :=
  PrecommitQuorum (committee S.reg) S.faulty n.record round h

theorem committee_total (S : Setup) :
    (committee S.reg).total = (S.reg.activeSet.map S.reg.voteStake).sum :=
  sum_toFinset S.reg.voteStake S.distinct

theorem committee_weightOf {reg : StakeRegistry} (distinct : reg.activeSet.Nodup)
    (p : Address → Bool) :
    (committee reg).weightOf (fun v => p v) = ((reg.activeSet.filter p).map reg.voteStake).sum := by
  classical
  rw [← sum_toFinset reg.voteStake (distinct.filter p), toFinset_filter]
  unfold Committee.weightOf
  congr!

theorem committee_total_eq (S : Setup) : (committee S.reg).total = S.reg.totalActiveStake := by
  rw [committee_total, StakeRegistry.totalActiveStake_eq_sum S.fits]

def FromMembers {ν : Type} (reg : StakeRegistry) (stake : ν → Nat) (votes : Table Address ν) : Prop :=
  ∀ u x, votes.lookup u = some x → u ∈ reg.activeSet ∧ stake x = reg.voteStake u

section
variable {ν : Type} {reg : StakeRegistry} {vote : ν → Option Hash} {stake : ν → Nat}
  {votes : Table Address ν}

theorem FromMembers.insert (members : FromMembers reg stake votes) {u : Address} {x : ν}
    (member : u ∈ reg.activeSet) (weight : stake x = reg.voteStake u) :
    FromMembers reg stake (votes.insert u x) := by
  intro w y recorded
  by_cases same : w = u
  · subst same
    rw [AList.lookup_insert] at recorded
    cases recorded
    exact ⟨member, weight⟩
  · rw [AList.lookup_insert_ne same] at recorded
    exact members w y recorded

theorem FromMembers.sum_le_total (members : FromMembers reg stake votes)
    (vote : ν → Option Hash) (hash : Option Hash) :
    sumOf (weightFor vote stake hash) votes ≤ (committee reg).total := by
  apply sumOf_le_sum
  · intro u x recorded
    unfold weightFor
    split
    · exact Nat.le_of_eq (members u x recorded).2
    · exact Nat.zero_le _
  · intro u x recorded _
    exact List.mem_toFinset.mpr (members u x recorded).1

theorem FromMembers.quorum (members : FromMembers reg stake votes) {hash : Option Hash}
    {p : Address → Prop} (source : ∀ u x, votes.lookup u = some x → vote x = hash → p u)
    (enough : supermajorityThreshold (committee reg).total ≤
      sumOf (weightFor vote stake hash) votes) : (committee reg).Quorum p := by
  classical
  refine Nat.le_trans enough (sumOf_le_sum ?_ ?_)
  · intro u x recorded
    unfold weightFor
    split
    · exact Nat.le_of_eq (members u x recorded).2
    · exact Nat.zero_le _
  · intro u x recorded nonzero
    have voted : vote x = hash := by
      by_contra other
      exact nonzero (if_neg other)
    exact Finset.mem_filter.mpr
      ⟨List.mem_toFinset.mpr (members u x recorded).1, source u x recorded voted⟩

end

structure VotesPlaced (S : Setup) (n : Network) : Prop where
  prevote : ∀ p ∈ n.prevotes, p.height = S.height ∧ p.round ≤ u32Max
  precommit : ∀ p ∈ n.precommits, p.height = S.height ∧ p.round ≤ u32Max

theorem VotesPlaced.prevoted {S : Setup} {n : Network} (placed : VotesPlaced S n) {p : Prevote}
    {h : Hash} (height : p.height = S.height) (word : p.round ≤ u32Max)
    (named : p.blockHash = some h) (spelled : p.blockHash ≠ some "NIL")
    (authentic : S.byzantine p.validator ∨
      ∃ q ∈ n.prevotes, q.validator = p.validator ∧ q.payload = p.payload) :
    S.faulty p.validator ∨ n.Prevoted p.validator p.round h := by
  refine authentic.imp_right ?_
  rintro ⟨q, member, name, same⟩
  obtain ⟨qHeight, qWord⟩ := placed.prevote q member
  have parts := signedText_inj (by rw [qHeight]; exact S.heightWord)
    (by rw [height]; exact S.heightWord) qWord word same
  rw [named] at parts spelled
  have voted := voteText_inj (fun nil => spelled (congrArg some nil)) parts.2.2.symm
  exact ⟨q, member, name, parts.2.1, voted⟩

theorem VotesPlaced.precommitted {S : Setup} {n : Network} (placed : VotesPlaced S n)
    {p : Precommit} {h : Hash} (height : p.height = S.height) (word : p.round ≤ u32Max)
    (named : p.blockHash = some h) (spelled : p.blockHash ≠ some "NIL")
    (authentic : S.byzantine p.validator ∨
      ∃ q ∈ n.precommits, q.validator = p.validator ∧ q.payload = p.payload) :
    S.faulty p.validator ∨ n.Precommitted p.validator p.round h := by
  refine authentic.imp_right ?_
  rintro ⟨q, member, name, same⟩
  obtain ⟨qHeight, qWord⟩ := placed.precommit q member
  have parts := signedText_inj (by rw [qHeight]; exact S.heightWord)
    (by rw [height]; exact S.heightWord) qWord word same
  rw [named] at parts spelled
  have voted := voteText_inj (fun nil => spelled (congrArg some nil)) parts.2.2.symm
  exact ⟨q, member, name, parts.2.1, voted⟩

end SentrixNetwork
