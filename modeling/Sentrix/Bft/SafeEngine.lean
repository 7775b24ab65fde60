import Sentrix.Bft.Network

/-!
The invariant of one honest engine inside a run: what its past votes say about its round
and phase, where its recorded votes come from, and how its lock relates to the hashes it
precommitted.
-/
namespace SentrixNetwork
open MachineWords SentrixPrimitives SentrixEngine
variable {S : Setup} {n n' : Network} {v : Address} {e e' : BftEngine}

/-- The votes delivered are of active validators and do not spell the nil text, the round
counter is not stuck at its top, and a proposer votes for what it proposes. -/
def Clean (S : Setup) (n : Network) (ev : Event) : Prop :=
  match ev.call with
  | .prevote _ p => p.validator ∈ S.reg.activeSet ∧ p.blockHash ≠ some "NIL"
  | .precommit _ _ p => p.validator ∈ S.reg.activeSet ∧ p.blockHash ≠ some "NIL"
  | .advanceRound => (n.engines ev.validator).state.round < u32Max
  | .ownProposal h => (n.engines ev.validator).voteFor h = some h ∨
      (n.engines ev.validator).staleLock h
  | _ => True

instance (S : Setup) (n : Network) : ∀ ev, Decidable (Clean S n ev)
  | ⟨_, .prevote _ _⟩ => inferInstanceAs (Decidable (_ ∧ _))
  | ⟨_, .precommit _ _ _⟩ => inferInstanceAs (Decidable (_ ∧ _))
  | ⟨_, .advanceRound⟩ => inferInstanceAs (Decidable (_ < _))
  | ⟨_, .ownProposal _⟩ => inferInstanceAs (Decidable (_ ∨ _))
  | ⟨_, .catchUpRound _⟩ | ⟨_, .proposal _ _⟩ | ⟨_, .timeout⟩ | ⟨_, .roundStatus _ _⟩
  | ⟨_, .legacyRoundStatus _⟩ | ⟨_, .stash _ _⟩ | ⟨_, .markPrevoteCast⟩
  | ⟨_, .markPrecommitCast⟩ => inferInstanceAs (Decidable True)

def StaleFires (S : Setup) (n : Network) (ev : Event) : Prop :=
  ((n.engines ev.validator).accepts S.reg ev.call).any (n.engines ev.validator).staleLock

instance (S : Setup) (n : Network) (ev : Event) : Decidable (StaleFires S n ev) :=
  inferInstanceAs (Decidable (_ = true))

def MayPrecommit (e : BftEngine) (round : Nat) : Prop :=
  e.state.round < round ∨
    e.state.round = round ∧ (e.state.phase = .propose ∨ e.state.phase = .prevote)

/-- Enough stake has precommitted `h` in `round`, or could still do so. -/
def Network.Committable (S : Setup) (n : Network) (round : Nat) (h : Hash) : Prop :=
  (committee S.reg).Quorum fun u =>
    S.faulty u ∨ n.Precommitted u round h ∨ MayPrecommit (n.engines u) round

def Network.Superseded (S : Setup) (n : Network) (round : Nat) (h : Hash) (bound : Nat) : Prop :=
  ∃ between other, round < between ∧ between < bound ∧ other ≠ h ∧ n.Polka S between other

structure Placed (S : Setup) (v : Address) (c : Core) : Prop where
  address : c.ourAddress = v
  height : c.height = S.height
  total : c.totalActiveStake = S.reg.totalActiveStake
  word : c.round ≤ u32Max

structure VotesPast (S : Setup) (n : Network) (v : Address) (e : BftEngine) : Prop where
  pendingPrevote : ∀ p, e.pendingPrevote = some p →
    p ∈ n.prevotes ∧ p.validator = v ∧ p.round = e.state.round
  prevote : ∀ p ∈ n.prevotes, p.validator = v → p.height = S.height ∧ p.round ≤ e.state.round ∧
    (p.round = e.state.round → e.state.phase ≠ .propose)
  prevoteOnce : ∀ p ∈ n.prevotes, ∀ q ∈ n.prevotes, p.validator = v → q.validator = v →
    p.round = q.round → p.blockHash = q.blockHash
  pendingPrecommit : ∀ p, e.pendingPrecommit = some p →
    p ∈ n.precommits ∧ p.validator = v ∧ p.round = e.state.round
  precommit : ∀ p ∈ n.precommits, p.validator = v → p.height = S.height ∧
    p.round ≤ e.state.round ∧ (p.round = e.state.round → PastPrecommitting e.state.phase)

structure VotesCounted (S : Setup) (n : Network) (c : Core) : Prop where
  prevote : ∀ u vote weight, c.prevotes.lookup u = some (vote, weight) →
    u ∈ S.reg.activeSet ∧ weight = S.reg.voteStake u ∧
      ∀ h, vote = some h → S.faulty u ∨ n.Prevoted u c.round h
  precommit : ∀ u vote signature weight, c.precommits.lookup u = some (vote, signature, weight) →
    u ∈ S.reg.activeSet ∧ weight = S.reg.voteStake u ∧
      ∀ h, vote = some h → S.faulty u ∨ n.Precommitted u c.round h
  counts : CountsExact c

structure LockKept (S : Setup) (n : Network) (v : Address) (c : Core) : Prop where
  lock : ∀ h, c.lockedHash = some h → ∃ r, c.lockedRound = some r ∧ r ≤ c.round ∧
    (r = c.round → PastPrecommitting c.phase) ∧ n.Polka S r h
  backed : ∀ r h, n.Precommitted v r h → n.Polka S r h
  held : ∀ r h, n.Precommitted v r h → n.Committable S r h → n.Superseded S r h c.round ∨
    ∃ other lockRound, c.lockedHash = some other ∧ c.lockedRound = some lockRound ∧
      r ≤ lockRound ∧ (lockRound = r → other = h)
  respected : ∀ r s h g, n.Precommitted v r h → n.Prevoted v s g → r < s → g ≠ h →
    n.Committable S r h → n.Superseded S r h s

structure SafeEngine (S : Setup) (n : Network) (v : Address) (e : BftEngine) : Prop where
  placed : Placed S v e.core
  past : VotesPast S n v e
  counted : VotesCounted S n e.core
  locks : LockKept S n v e.core

structure Grows (S : Setup) (n n' : Network) (u : Address) : Prop where
  prevotes : ∀ p ∈ n.prevotes, p ∈ n'.prevotes
  newPrevotes : ∀ p ∈ n'.prevotes, p ∈ n.prevotes ∨ p.validator = u
  precommits : ∀ p ∈ n.precommits, p ∈ n'.precommits
  newPrecommits : ∀ p ∈ n'.precommits, p ∈ n.precommits ∨ p.validator = u
  committable : ∀ r h, n'.Committable S r h → n.Committable S r h

variable {u : Address} {r : Nat} {h : Hash}

theorem Grows.prevoted {w : Address} (grows : Grows S n n' u) (voted : n.Prevoted w r h) :
    n'.Prevoted w r h := by
  obtain ⟨p, member, facts⟩ := voted
  exact ⟨p, grows.prevotes p member, facts⟩

theorem Grows.precommitted {w : Address} (grows : Grows S n n' u) (voted : n.Precommitted w r h) :
    n'.Precommitted w r h := by
  obtain ⟨p, member, facts⟩ := voted
  exact ⟨p, grows.precommits p member, facts⟩

theorem Grows.polka (grows : Grows S n n' u) (polka : n.Polka S r h) : n'.Polka S r h :=
  polka.mono fun _ _ voted => voted.imp_right grows.prevoted

theorem Grows.commit (grows : Grows S n n' u) (commit : n.Commit S r h) : n'.Commit S r h :=
  commit.mono fun _ _ voted => voted.imp_right grows.precommitted

theorem Grows.superseded (grows : Grows S n n' u) {bound : Nat}
    (superseded : n.Superseded S r h bound) : n'.Superseded S r h bound := by
  obtain ⟨between, other, after, before, differs, polka⟩ := superseded
  exact ⟨between, other, after, before, differs, grows.polka polka⟩

theorem Superseded.mono {bound bound' : Nat} (superseded : n.Superseded S r h bound)
    (later : bound ≤ bound') : n.Superseded S r h bound' := by
  obtain ⟨between, other, after, before, differs, polka⟩ := superseded
  exact ⟨between, other, after, Nat.lt_of_lt_of_le before later, differs, polka⟩

theorem Grows.prevoted_other (grows : Grows S n n' u) (other : v ≠ u) (voted : n'.Prevoted v r h) :
    n.Prevoted v r h := by
  obtain ⟨p, member, name, facts⟩ := voted
  rcases grows.newPrevotes p member with old | fresh
  · exact ⟨p, old, name, facts⟩
  · exact absurd (name.symm.trans fresh) other

theorem Grows.precommitted_other (grows : Grows S n n' u) (other : v ≠ u)
    (voted : n'.Precommitted v r h) : n.Precommitted v r h := by
  obtain ⟨p, member, name, facts⟩ := voted
  rcases grows.newPrecommits p member with old | fresh
  · exact ⟨p, old, name, facts⟩
  · exact absurd (name.symm.trans fresh) other

theorem VotesCounted.grow {c : Core} (counted : VotesCounted S n c) (grows : Grows S n n' u) :
    VotesCounted S n' c where
  prevote w vote weight recorded := by
    obtain ⟨member, stake, source⟩ := counted.prevote w vote weight recorded
    exact ⟨member, stake, fun h named => (source h named).imp_right grows.prevoted⟩
  precommit w vote signature weight recorded := by
    obtain ⟨member, stake, source⟩ := counted.precommit w vote signature weight recorded
    exact ⟨member, stake, fun h named => (source h named).imp_right grows.precommitted⟩
  counts := counted.counts

theorem LockKept.grow {c : Core} (locks : LockKept S n v c) (grows : Grows S n n' u)
    (samePrecommits : ∀ r h, n'.Precommitted v r h → n.Precommitted v r h)
    (votes : ∀ s g, n'.Prevoted v s g → n.Prevoted v s g ∨
      ∀ r h, n.Precommitted v r h → n.Committable S r h → g ≠ h → n.Superseded S r h s) :
    LockKept S n' v c where
  lock h locked := by
    obtain ⟨r, round, bound, phase, polka⟩ := locks.lock h locked
    exact ⟨r, round, bound, phase, grows.polka polka⟩
  backed r h voted := grows.polka (locks.backed r h (samePrecommits r h voted))
  held r h voted alive := by
    rcases locks.held r h (samePrecommits r h voted) (grows.committable r h alive) with gone | kept
    · exact Or.inl (grows.superseded gone)
    · exact Or.inr kept
  respected r s h g voted prevoted later differs alive := by
    have before := samePrecommits r h voted
    have chance := grows.committable r h alive
    apply grows.superseded
    rcases votes s g prevoted with old | new
    · exact locks.respected r s h g before old later differs chance
    · exact new r h before chance differs

theorem VotesPast.grow (past : VotesPast S n v e) (grows : Grows S n n' u) (other : v ≠ u) :
    VotesPast S n' v e := by
  have oldPrevote : ∀ p ∈ n'.prevotes, p.validator = v → p ∈ n.prevotes := by
    intro p member name
    exact (grows.newPrevotes p member).resolve_right fun fresh => other (name.symm.trans fresh)
  have oldPrecommit : ∀ p ∈ n'.precommits, p.validator = v → p ∈ n.precommits := by
    intro p member name
    exact (grows.newPrecommits p member).resolve_right fun fresh => other (name.symm.trans fresh)
  refine ⟨?_, ?_, ?_, ?_, ?_⟩
  · intro p pending
    obtain ⟨member, facts⟩ := past.pendingPrevote p pending
    exact ⟨grows.prevotes p member, facts⟩
  · intro p member name
    exact past.prevote p (oldPrevote p member name) name
  · intro p hp q hq pName qName
    exact past.prevoteOnce p (oldPrevote p hp pName) q (oldPrevote q hq qName) pName qName
  · intro p pending
    obtain ⟨member, facts⟩ := past.pendingPrecommit p pending
    exact ⟨grows.precommits p member, facts⟩
  · intro p member name
    exact past.precommit p (oldPrecommit p member name) name

theorem SafeEngine.grow (safe : SafeEngine S n v e) (grows : Grows S n n' u) (other : v ≠ u) :
    SafeEngine S n' v e where
  placed := safe.placed
  past := safe.past.grow grows other
  counted := safe.counted.grow grows
  locks := safe.locks.grow grows (fun _ _ => grows.precommitted_other other)
    (fun _ _ voted => Or.inl (grows.prevoted_other other voted))

end SentrixNetwork
