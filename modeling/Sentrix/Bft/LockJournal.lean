import Sentrix.Bft.Tallies
import Sentrix.Bft.ValidatorLoop

/-!
The lock of one engine against the journal of its node. A validator that precommitted a
hash may prevote another one only after it has itself recorded a supermajority for that
other hash in a later round.
-/
namespace SentrixLoop
open MachineWords HashTable SentrixPrimitives SentrixMessages SentrixStaking SentrixEngine
variable {Chain Block : Type}

/-- Prevotes a receiver accepts: signed ones, and those inside signed proposals. -/
def Note.prevotes : Note Chain → List Prevote
  | .prevote p => if p.signature = [] then [] else [p]
  | .proposal p => if p.signature = [] then [] else p.proposerPrevote.toList
  | _ => []

def Note.precommits : Note Chain → List Precommit
  | .precommit p => if p.signature = [] then [] else [p]
  | _ => []

def RecordedQuorum (e : BftEngine) (vote : Option Hash) : Prop :=
  supermajorityThreshold e.state.totalActiveStake ≤
    sumOf (weightFor Prod.fst Prod.snd vote) e.state.prevotes

def Note.SawAfter (height round : Nat) (vote : Option Hash) : Note Chain → Prop
  | .engine e => e.state.height = height ∧ round < e.state.round ∧ RecordedQuorum e vote
  | _ => False

def Conflict (p : Precommit) (q : Prevote) : Prop :=
  p.height = q.height ∧ p.blockHash ≠ none ∧ q.blockHash ≠ none ∧ p.blockHash ≠ q.blockHash

def Justified (journal : List (Note Chain)) (q : Prevote) : Prop :=
  ∀ note ∈ journal, ∀ p ∈ note.precommits, Conflict p q →
    ∃ seen ∈ journal, seen.SawAfter p.height p.round q.blockHash

/-- Newest note first: each prevote was justified by what stood before it. -/
def LockOutlives : List (Note Chain) → Prop
  | [] => True
  | note :: older => (∀ q ∈ note.prevotes, Justified older q) ∧ LockOutlives older

instance (height round : Nat) (vote : Option Hash) :
    ∀ note : Note Chain, Decidable (note.SawAfter height round vote)
  | .engine _ => inferInstanceAs (Decidable (_ ∧ _ ∧ _ ≤ _))
  | .prevote _ | .precommit _ | .proposal _ | .heard _ _ => inferInstanceAs (Decidable False)

instance (journal : List (Note Chain)) (q : Prevote) : Decidable (Justified journal q) :=
  inferInstanceAs (Decidable (∀ note ∈ journal, ∀ p ∈ note.precommits, (_ ∧ _ ∧ _ ∧ _) → _))

instance decidableLockOutlives : ∀ journal : List (Note Chain), Decidable (LockOutlives journal)
  | [] => inferInstanceAs (Decidable True)
  | note :: older =>
    have := decidableLockOutlives older
    inferInstanceAs (Decidable ((∀ q ∈ note.prevotes, Justified older q) ∧ LockOutlives older))

def Voted (journal : List (Note Chain)) (height round : Nat) (h : Hash) : Prop :=
  ∃ note ∈ journal, ∃ p ∈ note.precommits, p.height = height ∧ p.round = round ∧
    p.blockHash = some h

def SawAt (journal : List (Note Chain)) (height round : Nat) (h : Hash) : Prop :=
  ∃ e, .engine e ∈ journal ∧ e.state.height = height ∧ e.state.round = round ∧
    RecordedQuorum e (some h)

variable {journal : List (Note Chain)} {note : Note Chain} {height round : Nat} {h : Hash}

theorem SawAt.cons (saw : SawAt journal height round h) (note : Note Chain) :
    SawAt (note :: journal) height round h := by
  obtain ⟨e, member, facts⟩ := saw
  exact ⟨e, List.mem_cons_of_mem _ member, facts⟩

theorem Voted.of_quiet (quiet : note.precommits = [])
    (voted : Voted (note :: journal) height round h) : Voted journal height round h := by
  obtain ⟨other, member, p, cast, facts⟩ := voted
  rcases List.mem_cons.mp member with rfl | old
  · rw [quiet] at cast
    cases cast
  · exact ⟨other, old, p, cast, facts⟩

/-- Outweighed, for the precommits of rounds before the prevote's own. -/
def JustifiedBefore (journal : List (Note Chain)) (height round : Nat) (vote : Option Hash) :
    Prop :=
  ∀ g r h, vote = some g → Voted journal height r h → r < round → g ≠ h →
    ∃ later, r < later ∧ SawAt journal height later g

variable {vote : Option Hash}

theorem JustifiedBefore.cons (before : JustifiedBefore journal height round vote)
    (old : ∀ r h, Voted (note :: journal) height r h → r < round → Voted journal height r h) :
    JustifiedBefore (note :: journal) height round vote := by
  intro g r h named voted earlier differs
  obtain ⟨later, after, saw⟩ := before g r h named (old r h voted earlier) earlier differs
  exact ⟨later, after, saw.cons note⟩

variable {q : Prevote}

theorem Justified.of_before (before : JustifiedBefore journal q.height q.round q.blockHash)
    (below : ∀ r h, Voted journal q.height r h → r < q.round) : Justified journal q := by
  rintro note member p cast ⟨same, real, voted, differs⟩
  obtain ⟨h, hash⟩ := Option.ne_none_iff_exists'.mp real
  obtain ⟨g, vote⟩ := Option.ne_none_iff_exists'.mp voted
  have earlier : Voted journal q.height p.round h := ⟨note, member, p, cast, same, rfl, hash⟩
  have other : g ≠ h := by
    rintro rfl
    exact differs (hash.trans vote.symm)
  obtain ⟨later, after, e, seen, height, round, quorum⟩ :=
    before g p.round h vote earlier (below p.round h earlier) other
  refine ⟨.engine e, seen, height.trans same.symm, by omega, ?_⟩
  rw [vote]
  exact quorum

structure LockFacts (journal : List (Note Chain)) (c : Core) : Prop where
  lock : ∀ h, c.lockedHash = some h → ∃ r, c.lockedRound = some r ∧ r ≤ c.round ∧
    (r = c.round → PastPrecommitting c.phase) ∧ SawAt journal c.height r h
  voted : ∀ r h, Voted journal c.height r h → r ≤ c.round ∧
    (r = c.round → PastPrecommitting c.phase) ∧
    ∃ other lockRound, c.lockedHash = some other ∧ c.lockedRound = some lockRound ∧
      r ≤ lockRound ∧ (lockRound = r → other = h)
  tally : TalliedBelow Prod.fst Prod.snd c.collector.prevoteTally c.prevotes

structure CanPrevote (journal : List (Note Chain)) (e : BftEngine) (q : Prevote) : Prop where
  height : q.height = e.state.height
  round : q.round = e.state.round
  unsigned : q.signature = []
  before : JustifiedBefore journal e.state.height e.state.round q.blockHash

structure CanPrecommit (e : BftEngine) (p : Precommit) : Prop where
  height : p.height = e.state.height
  round : p.round = e.state.round
  unsigned : p.signature = []
  phase : PastPrecommitting e.state.phase
  lock : ∀ h, p.blockHash = some h →
    e.state.lockedHash = some h ∧ e.state.lockedRound = some e.state.round

structure Kept (journal : List (Note Chain)) (e : BftEngine) : Prop where
  facts : LockFacts journal e.core
  prevote : ∀ q, e.pendingPrevote = some q → CanPrevote journal e q
  precommit : ∀ p, e.pendingPrecommit = some p → CanPrecommit e p

def Offers (journal : List (Note Chain)) (e : BftEngine) : BftAction → Prop
  | .broadcastPrevote q => CanPrevote journal e q
  | .broadcastPrecommit p => CanPrecommit e p
  | _ => True

variable {e : BftEngine} {action : BftAction}

theorem Offers.of_silent (quiet : action.silent) : Offers journal e action := by
  cases action <;> trivial

variable {c : Core}

theorem LockFacts.same_lock {c' : Core} (facts : LockFacts journal c)
    (height : c'.height = c.height) (hash : c'.lockedHash = c.lockedHash)
    (lockRound : c'.lockedRound = c.lockedRound) (round : c.round ≤ c'.round)
    (phase : c'.round = c.round → PastPrecommitting c.phase → PastPrecommitting c'.phase)
    (tally : TalliedBelow Prod.fst Prod.snd c'.collector.prevoteTally c'.prevotes) :
    LockFacts journal c' where
  lock h locked := by
    rw [hash] at locked
    obtain ⟨r, at_round, bound, past, saw⟩ := facts.lock h locked
    rw [lockRound, height]
    exact ⟨r, at_round, by omega, fun now => phase (by omega) (past (by omega)), saw⟩
  voted r h cast := by
    rw [height] at cast
    obtain ⟨bound, past, held⟩ := facts.voted r h cast
    rw [hash, lockRound]
    exact ⟨by omega, fun now => phase (by omega) (past (by omega)), held⟩
  tally := tally

theorem LockFacts.cons (facts : LockFacts journal c) (quiet : note.precommits = []) :
    LockFacts (note :: journal) c where
  lock h locked := by
    obtain ⟨r, at_round, bound, past, saw⟩ := facts.lock h locked
    exact ⟨r, at_round, bound, past, saw.cons note⟩
  voted r h cast := facts.voted r h (cast.of_quiet quiet)
  tally := facts.tally

theorem LockFacts.justify (facts : LockFacts journal e.core)
    (free : ∀ g, vote = some g → e.state.lockedHash = none ∨ e.state.lockedHash = some g) :
    JustifiedBefore journal e.state.height e.state.round vote := by
  intro g r h named cast earlier differs
  obtain ⟨_, _, other, lockRound, locked, at_round, after, same⟩ := facts.voted r h cast
  rcases free g named with open_ | on
  · rw [show e.core.lockedHash = none from open_] at locked
    cases locked
  · have here : other = g := Option.some.inj (locked.symm.trans on)
    subst here
    obtain ⟨lr, lockedAt, _, _, saw⟩ := facts.lock other locked
    have agree : lockRound = lr := Option.some.inj (at_round.symm.trans lockedAt)
    subst agree
    have later : r ≠ lockRound := fun now => differs (same now.symm)
    exact ⟨lockRound, by omega, saw⟩

theorem CanPrevote.cons (can : CanPrevote journal e q) (quiet : note.precommits = []) :
    CanPrevote (note :: journal) e q :=
  ⟨can.height, can.round, can.unsigned, can.before.cons fun _ _ cast _ => cast.of_quiet quiet⟩

theorem Kept.cons (kept : Kept journal e) (quiet : note.precommits = []) :
    Kept (note :: journal) e :=
  ⟨kept.facts.cons quiet, fun q pending => (kept.prevote q pending).cons quiet, kept.precommit⟩

variable {e' : BftEngine}

theorem CanPrevote.carry (can : CanPrevote journal e q)
    (height : e'.state.height = e.state.height) (round : e'.state.round = e.state.round) :
    CanPrevote journal e' q :=
  ⟨can.height.trans height.symm, can.round.trans round.symm, can.unsigned,
    by rw [height, round]; exact can.before⟩

theorem CanPrecommit.carry {p : Precommit} (can : CanPrecommit e p)
    (height : e'.state.height = e.state.height) (round : e'.state.round = e.state.round)
    (phase : PastPrecommitting e'.state.phase) (hash : e'.state.lockedHash = e.state.lockedHash)
    (lockRound : e'.state.lockedRound = e.state.lockedRound) : CanPrecommit e' p where
  height := can.height.trans height.symm
  round := can.round.trans round.symm
  unsigned := can.unsigned
  phase := phase
  lock h named := by
    rw [hash, lockRound, round]
    exact can.lock h named

theorem Kept.settled (kept : Kept journal e) (settles : Settles e e')
    (facts : LockFacts journal e'.core) (height : e'.state.height = e.state.height)
    (round : e'.state.round = e.state.round)
    (phase : PastPrecommitting e.state.phase → PastPrecommitting e'.state.phase)
    (hash : e'.state.lockedHash = e.state.lockedHash)
    (lockRound : e'.state.lockedRound = e.state.lockedRound) : Kept journal e' where
  facts := facts
  prevote q pending := (kept.prevote q (settles.pendingPrevote pending)).carry height round
  precommit p pending := by
    have can := kept.precommit p (settles.pendingPrecommit pending)
    exact can.carry height round (phase can.phase) hash lockRound

theorem Kept.same_core (kept : Kept journal e) (settles : Settles e e') (core : e'.core = e.core) :
    Kept journal e' :=
  kept.settled settles (by rw [core]; exact kept.facts) (congrArg Core.height core)
    (congrArg Core.round core) (fun past => by rwa [show e'.state.phase = _ from
      congrArg Core.phase core]) (congrArg Core.lockedHash core) (congrArg Core.lockedRound core)

theorem Kept.prevoting (kept : Kept journal e) (start : e.state.phase = .propose)
    (core : e'.core = e.core.enter .prevote) (sends : SendsPrevote e e' action vote)
    (free : ∀ g, vote = some g → e.state.lockedHash = none ∨ e.state.lockedHash = some g) :
    Kept journal e' ∧ Offers journal e' action := by
  have height : e'.state.height = e.state.height := congrArg Core.height core
  have round : e'.state.round = e.state.round := congrArg Core.round core
  have idle : ¬ PastPrecommitting e.core.phase := by
    rw [show e.core.phase = _ from start]
    rintro (now | now) <;> cases now
  have facts : LockFacts journal e'.core := by
    rw [core]
    exact kept.facts.same_lock rfl rfl rfl le_rfl (fun _ past => absurd past idle) kept.facts.tally
  have own : CanPrevote journal e' (e.ownPrevote vote) :=
    ⟨height.symm, round.symm, rfl, by
      rw [height, round]
      exact kept.facts.justify free⟩
  have precommit : ∀ p, e'.pendingPrecommit = some p → CanPrecommit e' p := by
    intro p pending
    exact absurd (kept.precommit p (sends.precommit ▸ pending)).phase idle
  rcases sends.sent with ⟨quiet, same⟩ | ⟨sent, pending⟩
  · subst quiet
    exact ⟨⟨facts, fun q held => (kept.prevote q (same ▸ held)).carry height round, precommit⟩,
      trivial⟩
  · subst sent
    refine ⟨⟨facts, fun q held => ?_, precommit⟩, own⟩
    rw [pending] at held
    cases held
    exact own

theorem Kept.precommitting (kept : Kept journal e) (start : e.state.phase = .prevote)
    (facts : LockFacts journal e'.core) (height : e'.state.height = e.state.height)
    (round : e'.state.round = e.state.round) (phase : e'.state.phase = .precommit)
    (lock : ∀ h, vote = some h →
      e'.state.lockedHash = some h ∧ e'.state.lockedRound = some e'.state.round)
    (sends : SendsPrecommit e e' action vote) : Kept journal e' ∧ Offers journal e' action := by
  have own : CanPrecommit e' (e.ownPrecommit vote) :=
    ⟨height.symm, round.symm, rfl, Or.inl phase, lock⟩
  have prevote : ∀ q, e'.pendingPrevote = some q → CanPrevote journal e' q := by
    intro q held
    rcases sends.prevote with same | gone
    · exact (kept.prevote q (same ▸ held)).carry height round
    · rw [gone] at held
      cases held
  rcases sends.sent with ⟨quiet, same⟩ | ⟨sent, pending⟩
  · subst quiet
    refine ⟨⟨facts, prevote, fun p held => ?_⟩, trivial⟩
    have past := (kept.precommit p (same ▸ held)).phase
    rw [start] at past
    rcases past with now | now <;> cases now
  · subst sent
    refine ⟨⟨facts, prevote, fun p held => ?_⟩, own⟩
    rw [pending] at held
    cases held
    exact own

theorem LockFacts.relock {c' : Core} (facts : LockFacts journal c) (start : c.phase = .prevote)
    (height : c'.height = c.height) (round : c'.round = c.round) (phase : c'.phase = .precommit)
    (hash : c'.lockedHash = some h) (lockRound : c'.lockedRound = some c.round)
    (saw : SawAt journal c.height c.round h)
    (tally : TalliedBelow Prod.fst Prod.snd c'.collector.prevoteTally c'.prevotes) :
    LockFacts journal c' where
  lock g locked := by
    cases hash.symm.trans locked
    refine ⟨c.round, lockRound, by omega, fun _ => Or.inl phase, ?_⟩
    rw [height]
    exact saw
  voted r g cast := by
    rw [height] at cast
    obtain ⟨bound, past, _⟩ := facts.voted r g cast
    have strict : r ≠ c.round := by
      intro now
      rcases start ▸ past now with closed | closed <;> cases closed
    exact ⟨by omega, fun now => absurd now (by omega),
      h, c.round, hash, lockRound, by omega, fun now => absurd now.symm strict⟩
  tally := tally

theorem LockFacts.countPrevote (facts : LockFacts journal c) {p : Prevote} {weight : Nat}
    (fresh : c.prevotes.lookup p.validator = none) : LockFacts journal (c.countPrevote p weight) :=
  facts.same_lock rfl rfl rfl le_rfl (fun _ past => past)
    (facts.tally.add (p.blockHash, weight) fresh)

theorem Kept.locked {order : HashIter (Option Hash × Nat)} {p : Prevote} {weight : Nat}
    (kept : Kept journal e) (start : e.state.phase = .prevote)
    (fresh : e.state.prevotes.lookup p.validator = none)
    (quorum : (e.core.countPrevote p weight).collector.prevoteSupermajority order
      e.state.totalActiveStake = some vote)
    (core : e'.core = (e.core.countPrevote p weight).toPrecommit vote)
    (sends : SendsPrecommit e e' action vote) :
    Kept (.engine e' :: journal) e' ∧ Offers (.engine e' :: journal) e' action := by
  have kept' : Kept (.engine e' :: journal) e := kept.cons rfl
  have counted : LockFacts (.engine e' :: journal) (e.core.countPrevote p weight) :=
    kept'.facts.countPrevote fresh
  cases vote with
  | none =>
    have facts : LockFacts (.engine e' :: journal) e'.core := by
      rw [core]
      exact counted.same_lock rfl rfl rfl le_rfl (fun _ _ => Or.inl rfl) counted.tally
    exact kept'.precommitting start facts (congrArg Core.height core) (congrArg Core.round core)
      (congrArg Core.phase core) (fun _ named => by cases named) sends
  | some h =>
    have enough := (supermajority_weight quorum).trans (counted.tally (some h))
    have recorded : RecordedQuorum e' (some h) := by
      unfold RecordedQuorum
      rw [show e'.state.prevotes = _ from congrArg Core.prevotes core,
        show e'.state.totalActiveStake = _ from congrArg Core.totalActiveStake core]
      exact enough
    have saw : SawAt (.engine e' :: journal) e.core.height e.core.round h :=
      ⟨e', List.mem_cons_self, congrArg Core.height core, congrArg Core.round core, recorded⟩
    have facts : LockFacts (.engine e' :: journal) e'.core := by
      rw [core]
      exact counted.relock start rfl rfl rfl rfl rfl saw counted.tally
    refine kept'.precommitting start facts (congrArg Core.height core) (congrArg Core.round core)
      (congrArg Core.phase core) ?_ sends
    rintro g ⟨⟩
    refine ⟨congrArg Core.lockedHash core, ?_⟩
    rw [show e'.state.round = _ from congrArg Core.round core]
    exact congrArg Core.lockedRound core

theorem Kept.advanced (kept : Kept journal e)
    (core : e'.core = { e.core.advance with round := round }) (later : e.state.round < round)
    (noPrevote : e'.pendingPrevote = none) (noPrecommit : e'.pendingPrecommit = none) :
    Kept journal e' where
  facts := by
    rw [core]
    exact kept.facts.same_lock rfl rfl rfl later.le
      (fun now _ => absurd now (by exact Nat.ne_of_gt later)) (fun _ => Nat.zero_le _)
  prevote q held := by
    rw [noPrevote] at held
    cases held
  precommit p held := by
    rw [noPrecommit] at held
    cases held

theorem move_place {reg : StakeRegistry} {call : EngineCall} (move : Move reg e call e' action)
    (top : call = .advanceRound → e.state.round < u32Max) :
    e'.state.height = e.state.height ∧ e.state.round ≤ e'.state.round := by
  have of_core : ∀ {c : Core}, e'.core = c → c.height = e.state.height → e.state.round ≤ c.round →
      e'.state.height = e.state.height ∧ e.state.round ≤ e'.state.round := by
    rintro c rfl height round
    exact ⟨height, round⟩
  cases move with
  | still core => exact of_core core rfl le_rfl
  | repeatPrevote same => rw [same]; exact ⟨rfl, le_rfl⟩
  | repeatPrecommit same => rw [same]; exact ⟨rfl, le_rfl⟩
  | advanced steps core reach =>
    have fits : e.core.round + steps + 1 ≤ u32Max := by
      rcases reach with ⟨called, rfl⟩ | fits
      · exact top called
      · exact fits
    rw [e.core.iterate_advance steps fits] at core
    exact of_core core rfl (by change e.core.round ≤ e.core.round + steps + 1; omega)
  | prevoted _ _ _ core => exact of_core core rfl le_rfl
  | relaxed _ _ _ _ core => exact of_core core rfl le_rfl
  | counted _ _ _ _ _ _ core => exact of_core core rfl le_rfl
  | locked _ _ hash _ _ _ _ _ _ core => cases hash <;> exact of_core core rfl le_rfl
  | gaveUp _ _ core => exact of_core core rfl le_rfl
  | countedPrecommit _ _ _ _ _ _ _ core => exact of_core core rfl le_rfl
  | finalized _ _ _ _ _ _ _ _ _ core => exact of_core core rfl le_rfl

theorem Kept.move {reg : StakeRegistry} {call : EngineCall} (kept : Kept journal e)
    (move : Move reg e call e' action)
    (fresh : ∀ h, e.accepts reg call = some h → e.staleLock h = false)
    (top : call = .advanceRound → e.state.round < u32Max) :
    Kept (.engine e' :: journal) e' ∧ Offers (.engine e' :: journal) e' action := by
  have kept' : Kept (.engine e' :: journal) e := kept.cons rfl
  cases move with
  | still core settles quiet => exact ⟨kept'.same_core settles core, .of_silent quiet⟩
  | repeatPrevote same pending =>
    subst same
    exact ⟨kept', kept'.prevote _ pending⟩
  | repeatPrecommit same pending =>
    subst same
    exact ⟨kept', kept'.precommit _ pending⟩
  | advanced steps core reach _ noPrevote noPrecommit =>
    have fits : e.core.round + steps + 1 ≤ u32Max := by
      rcases reach with ⟨called, rfl⟩ | fits
      · exact top called
      · exact fits
    rw [e.core.iterate_advance steps fits] at core
    exact ⟨kept'.advanced core (by change e.core.round < _; omega) noPrevote noPrecommit, trivial⟩
  | prevoted _ start source core sends =>
    refine kept'.prevoting start core sends ?_
    rintro g rfl
    rcases source with ⟨_, none⟩ | ⟨h, _, _, named⟩
    · cases none
    · exact (BftEngine.voteFor_unlocked named.symm).2
  | relaxed h _ source stale =>
    rw [fresh h source] at stale
    cases stale
  | counted _ _ _ height round absent core settles =>
    refine ⟨kept'.settled settles ?_ (congrArg Core.height core) (congrArg Core.round core) ?_
      (congrArg Core.lockedHash core) (congrArg Core.lockedRound core), trivial⟩
    · rw [core]
      exact kept'.facts.countPrevote absent
    · rw [show e'.state.phase = _ from congrArg Core.phase core]
      exact id
  | locked _ _ _ _ _ _ absent start quorum core sends =>
    exact kept.locked start absent quorum core sends
  | gaveUp _ start core sends =>
    have facts : LockFacts (.engine e' :: journal) e'.core := by
      rw [core]
      exact kept'.facts.same_lock rfl rfl rfl le_rfl (fun _ _ => Or.inl rfl) kept'.facts.tally
    exact kept'.precommitting start facts (congrArg Core.height core) (congrArg Core.round core)
      (congrArg Core.phase core) (fun _ named => by cases named) sends
  | countedPrecommit _ _ _ _ height round _ core settles quiet =>
    refine ⟨kept'.settled settles ?_ (congrArg Core.height core) (congrArg Core.round core) ?_
      (congrArg Core.lockedHash core) (congrArg Core.lockedRound core), .of_silent quiet⟩
    · rw [core]
      exact kept'.facts.same_lock rfl rfl rfl le_rfl (fun _ past => past) kept'.facts.tally
    · rw [show e'.state.phase = _ from congrArg Core.phase core]
      exact id
  | finalized _ _ _ _ _ height round _ _ core settles =>
    refine ⟨kept'.settled settles ?_ (congrArg Core.height core) (congrArg Core.round core) ?_
      (congrArg Core.lockedHash core) (congrArg Core.lockedRound core), trivial⟩
    · rw [core]
      exact kept'.facts.same_lock rfl rfl rfl le_rfl (fun _ _ => Or.inr rfl) kept'.facts.tally
    · exact fun _ => Or.inr (congrArg Core.phase core)

end SentrixLoop
