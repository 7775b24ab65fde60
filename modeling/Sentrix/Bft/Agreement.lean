import Sentrix.Bft.HonestTurn

/-!
Agreement. Locks are kept by every honest step, so the record of votes obeys the rules
of locked voting and two finalized hashes are equal.
-/
namespace SentrixNetwork
open MachineWords HashTable SentrixPrimitives SentrixMessages SentrixStaking SentrixEngine
open WeightedQuorum LockedVoting Runs
variable {S : Setup} {n n' : Network} {v : Address} {e e' : BftEngine}

variable {c : Core} {h : Hash}

theorem VotesCounted.polka (counted : VotesCounted S n c) {total : Nat}
    (whole : total = S.reg.totalActiveStake) {order : HashIter (Option Hash × Nat)}
    (quorum : c.collector.prevoteSupermajority order total = some (some h)) :
    n.Polka S c.round h := by
  have enough := supermajority_weight quorum
  rw [counted.counts.prevotes, whole, ← committee_total_eq] at enough
  refine counted.prevotesFromMembers.quorum ?_ enough
  rintro u ⟨vote, weight⟩ recorded named
  exact (counted.prevote u vote weight recorded).2.2 h named

theorem VotesCounted.commit (counted : VotesCounted S n c) {total : Nat}
    (whole : total = S.reg.totalActiveStake) {order : HashIter (Option Hash × Nat)}
    (quorum : c.collector.precommitSupermajority order total = some (some h)) :
    n.Commit S c.round h := by
  have enough := supermajority_weight quorum
  rw [counted.counts.precommits, whole, ← committee_total_eq] at enough
  refine counted.precommitsFromMembers.quorum ?_ enough
  rintro u ⟨vote, signature, weight⟩ recorded named
  exact (counted.precommit u vote signature weight recorded).2.2 h named

theorem LockKept.of_lock {c' : Core} (locks : LockKept S n v c)
    (hash : c'.lockedHash = c.lockedHash) (lockRound : c'.lockedRound = c.lockedRound)
    (round : c.round ≤ c'.round)
    (phase : c'.round = c.round → PastPrecommitting c.phase → PastPrecommitting c'.phase) :
    LockKept S n v c' where
  lock h locked := by
    rw [hash] at locked
    obtain ⟨r, at_round, bound, past, polka⟩ := locks.lock h locked
    exact ⟨r, lockRound.trans at_round, by omega,
      fun now => phase (by omega) (past (by omega)), polka⟩
  backed := locks.backed
  held r h voted alive := by
    rw [hash, lockRound]
    exact (locks.held r h voted alive).imp_left fun gone => Superseded.mono gone round
  respected := locks.respected

theorem Recorded.samePrevotes {prevotes : List Prevote} {precommits : List Precommit}
    (recorded : Recorded n n' prevotes precommits) (old : ∀ p ∈ prevotes, p ∈ n.prevotes)
    (r : Nat) (h : Hash) (voted : n'.Prevoted v r h) : n.Prevoted v r h := by
  obtain ⟨p, member, facts⟩ := voted
  rw [recorded.prevotes] at member
  exact ⟨p, (List.mem_append.mp member).elim (old p) id, facts⟩

theorem Recorded.samePrecommits {prevotes : List Prevote} {precommits : List Precommit}
    (recorded : Recorded n n' prevotes precommits)
    (old : ∀ p ∈ precommits, p ∈ n.precommits ∨ p.blockHash = none)
    (r : Nat) (h : Hash) (voted : n'.Precommitted v r h) : n.Precommitted v r h := by
  obtain ⟨p, member, name, round, named⟩ := voted
  rw [recorded.precommits] at member
  rcases List.mem_append.mp member with fresh | kept
  · rcases old p fresh with kept | nil
    · exact ⟨p, kept, name, round, named⟩
    · rw [nil] at named; cases named
  · exact ⟨p, kept, name, round, named⟩

/-- When a vote for `g` leaves the propose phase, every hash precommitted before
that could still be committed is either `g` or superseded. -/
theorem LockKept.vote_superseded (locks : LockKept S n v c) (start : c.phase = .propose)
    {g : Hash} (unlocked : c.lockedHash = none ∨ c.lockedHash = some g) {r : Nat}
    (voted : n.Precommitted v r h) (alive : n.Committable S r h) (differs : g ≠ h) :
    n.Superseded S r h c.round := by
  rcases locks.held r h voted alive with gone | ⟨other, lockRound, locked, at_round, after, same⟩
  · exact gone
  · have onG : other = g := by
      rcases unlocked with free | on
      · rw [free] at locked; cases locked
      · exact Option.some.inj (locked.symm.trans on)
    subst onG
    obtain ⟨r', at_round', bound, past, polka⟩ := locks.lock other locked
    cases at_round.symm.trans at_round'
    have before : lockRound ≠ c.round := fun now => not_past_propose start (past now)
    have later : lockRound ≠ r := fun eq => differs (same eq)
    exact ⟨lockRound, other, by omega, by omega, differs, polka⟩

/-- When the lock on a hash that is dead is dropped, every hash precommitted
before that could still be committed is superseded. -/
theorem LockKept.drop_superseded (locks : LockKept S n v c) (start : c.phase = .propose)
    (dead : ∀ g, c.lockedHash = some g → ∀ r, n.Precommitted v r g → ¬ n.Committable S r g)
    {r : Nat} (voted : n.Precommitted v r h) (alive : n.Committable S r h) :
    n.Superseded S r h c.round := by
  rcases locks.held r h voted alive with gone | ⟨other, lockRound, locked, at_round, after, same⟩
  · exact gone
  · obtain ⟨r', at_round', bound, past, polka⟩ := locks.lock other locked
    cases at_round.symm.trans at_round'
    have differs : other ≠ h := by
      rintro rfl
      exact dead other locked r voted alive
    have before : lockRound ≠ c.round := fun now => not_past_propose start (past now)
    have later : lockRound ≠ r := fun eq => differs (same eq)
    exact ⟨lockRound, other, by omega, by omega, differs, polka⟩

theorem LockKept.unlock (locks : LockKept S n v c)
    (superseded : ∀ r h, n.Precommitted v r h → n.Committable S r h → n.Superseded S r h c.round) :
    LockKept S n v c.unlock where
  lock _ locked := nomatch locked
  backed := locks.backed
  held r h voted alive := Or.inl (superseded r h voted alive)
  respected := locks.respected

section
variable {call : EngineCall} {prevotes : List Prevote} {precommits : List Precommit}

/-- Locking on `g`: older precommits fall below the new lock, the new one is on it. -/
theorem LockKept.relock {c c' : Core} (locks : LockKept S n v c) (past : VotesPast S n v e)
    (round : c.round = e.state.round) (start : e.state.phase = .prevote) (grows : Grows S n n' v)
    (recorded : Recorded n n' [] precommits) {g : Hash} (polka : n.Polka S c.round g)
    (own : ∀ q ∈ precommits, q.round = c.round ∧ q.blockHash = some g)
    (hash : c'.lockedHash = some g) (lockRound : c'.lockedRound = some c.round)
    (sameRound : c'.round = c.round) (phase : c'.phase = .precommit) : LockKept S n' v c' := by
  have split : ∀ r h, n'.Precommitted v r h →
      n.Precommitted v r h ∧ r < c.round ∨ r = c.round ∧ h = g := by
    rintro r h ⟨p, member, name, rfl, named⟩
    rw [recorded.precommits] at member
    rcases List.mem_append.mp member with fresh | old
    · obtain ⟨at_round, hash⟩ := own p fresh
      exact Or.inr ⟨at_round, Option.some.inj (named.symm.trans hash)⟩
    · obtain ⟨_, bound, passed⟩ := past.precommit p old name
      have before : p.round ≠ e.state.round := fun now => not_past_prevote start (passed now)
      exact Or.inl ⟨⟨p, old, name, rfl, named⟩, by omega⟩
  have samePrevotes : ∀ s g, n'.Prevoted v s g → n.Prevoted v s g :=
    recorded.samePrevotes nofun
  refine ⟨?_, ?_, ?_, ?_⟩
  · intro h locked
    cases hash.symm.trans locked
    exact ⟨c.round, lockRound, by omega, fun _ => Or.inl phase, grows.polka polka⟩
  · intro r h voted
    rcases split r h voted with ⟨old, _⟩ | ⟨rfl, rfl⟩
    · exact grows.polka (locks.backed r h old)
    · exact grows.polka polka
  · intro r h voted alive
    refine Or.inr ⟨g, c.round, hash, lockRound, ?_⟩
    rcases split r h voted with ⟨_, before⟩ | ⟨rfl, rfl⟩
    · exact ⟨by omega, fun same => by omega⟩
    · exact ⟨Nat.le_refl _, fun _ => rfl⟩
  · intro r s h b voted prevoted later differs alive
    rcases split r h voted with ⟨old, _⟩ | ⟨rfl, rfl⟩
    · exact grows.superseded (locks.respected r s h b old (samePrevotes s b prevoted) later differs
        (grows.committable r h alive))
    · obtain ⟨p, member, name, rfl, _⟩ := samePrevotes s b prevoted
      have bound := (past.prevote p member name).2.1
      omega

theorem LockKept.turn (locks : LockKept S n v e.core) (past : VotesPast S n v e)
    (placed : Placed S v e.core) (counted : VotesCounted S n e'.core) (grows : Grows S n n' v)
    (recorded : Recorded n n' prevotes precommits) (turn : Turn S e call e' prevotes precommits)
    (dead : ∀ h, e.accepts S.reg call = some h → e.staleLock h →
      ∀ g, e.state.lockedHash = some g → ∀ r, n.Precommitted v r g → ¬ n.Committable S r g) :
    LockKept S n' v e'.core := by
  have later := Later.turn turn
  -- the lock itself is untouched except in the two cases that write it
  have untouched (hash : e'.core.lockedHash = e.core.lockedHash)
      (lockRound : e'.core.lockedRound = e.core.lockedRound) (locks : LockKept S n' v e.core) :
      LockKept S n' v e'.core :=
    locks.of_lock hash lockRound later.round later.precommitted
  cases turn with
  | idle core _ again againPrecommit =>
    refine untouched (by rw [core]) (by rw [core]) (locks.grow grows ?_ ?_)
    · exact recorded.samePrecommits fun p member =>
        Or.inl (past.pendingPrecommit p (againPrecommit p member)).1
    · exact fun s g voted => Or.inl (recorded.samePrevotes
        (fun p member => (past.pendingPrevote p (again p member)).1) s g voted)
  | advanced _ _ core _ _ silent silentPrecommit
  | counted _ _ _ _ _ _ core _ silent silentPrecommit
  | countedPrecommit _ _ _ _ _ _ _ _ _ core _ silent silentPrecommit =>
    subst silent silentPrecommit
    exact untouched (by rw [core]; rfl) (by rw [core]; rfl) (locks.grow grows
      (recorded.samePrecommits nofun) fun s g voted => Or.inl (recorded.samePrevotes nofun s g voted))
  | prevoted _ start unlocked core _ _ own silent =>
    subst silent
    refine untouched (by rw [core]; rfl) (by rw [core]; rfl) (locks.grow grows
      (recorded.samePrecommits nofun) ?_)
    rintro s g ⟨p, member, name, rfl, named⟩
    rw [recorded.prevotes] at member
    rcases List.mem_append.mp member with fresh | old
    · right
      intro r h voted alive differs
      rw [own p fresh] at named ⊢
      exact locks.vote_superseded start (unlocked g named) voted alive differs
    · exact Or.inl ⟨p, old, name, rfl, named⟩
  | relaxed h start source stale core _ _ own silent =>
    subst silent
    have superseded : ∀ r g, n.Precommitted v r g → n.Committable S r g →
        n.Superseded S r g e.state.round := fun r g voted alive =>
      locks.drop_superseded start (dead h source stale) voted alive
    have samePrecommits : ∀ r g, n'.Precommitted v r g → n.Precommitted v r g :=
      recorded.samePrecommits nofun
    have grown : LockKept S n' v e.core := by
      refine locks.grow grows samePrecommits ?_
      rintro s g ⟨p, member, name, rfl, named⟩
      rw [recorded.prevotes] at member
      rcases List.mem_append.mp member with fresh | old
      · right
        intro r b voted alive _
        rw [own p fresh]
        exact superseded r b voted alive
      · exact Or.inl ⟨p, old, name, rfl, named⟩
    have dropped : LockKept S n' v e.core.unlock := grown.unlock fun r g voted alive =>
      grows.superseded (superseded r g (samePrecommits r g voted) (grows.committable r g alive))
    exact dropped.of_lock (by rw [core]; rfl) (by rw [core]; rfl) later.round later.precommitted
  | locked _ _ hash _ _ round _ start quorum core _ _ silent own =>
    subst silent
    cases hash with
    | none =>
      refine untouched (by rw [core]; rfl) (by rw [core]; rfl) (locks.grow grows
        (recorded.samePrecommits fun q member => Or.inr ?_)
        fun s g voted => Or.inl (recorded.samePrevotes nofun s g voted))
      rw [own q member]
      rfl
    | some g =>
      have polka : n.Polka S e.state.round g := by
        rw [core] at counted
        exact counted.polka placed.total quorum
      refine locks.relock past rfl start grows recorded polka ?_ (by rw [core]; rfl)
        (by rw [core]; rfl) (by rw [core]; rfl) (by rw [core]; rfl)
      intro q member
      rw [own q member]
      exact ⟨rfl, rfl⟩
  | gaveUp _ core _ _ silent own =>
    subst silent
    refine untouched (by rw [core]; rfl) (by rw [core]; rfl) (locks.grow grows
      (recorded.samePrecommits fun q member => Or.inr ?_)
      fun s g voted => Or.inl (recorded.samePrevotes nofun s g voted))
    rw [own q member]
    rfl

end

theorem Move.commit {call : EngineCall} {height round : Nat} {h : Hash} {j : BlockJustification}
    (move : Move S.reg e call e' (.finalizeBlock height round h j))
    (counted : VotesCounted S n e.core) (all : VotesPlaced S n) (placed : Placed S v e.core)
    (admitted : Admitted S n call) : n.Commit S round h := by
  cases move with
  | still _ _ quiet => cases quiet
  | prevoted _ _ _ _ sends | relaxed _ _ _ _ _ sends | locked _ _ _ _ _ _ _ _ _ _ sends
  | gaveUp _ _ _ sends =>
    rcases sends.sent with ⟨silent, _⟩ | ⟨sent, _⟩
    · cases silent
    · cases sent
  | countedPrecommit _ _ _ _ _ _ _ _ _ quiet => cases quiet
  | finalized order listing p _ source height round fresh quorum core =>
    obtain ⟨member, spelled, authentic⟩ := admitted.precommit order listing p source
    have next := counted.countPrecommit all placed height round fresh member spelled authentic
    rw [show e'.state.round = e.state.round from congrArg Core.round core]
    exact next.commit placed.total quorum

structure SafeNetwork (S : Setup) (n : Network) : Prop where
  votes : VotesPlaced S n
  engines : ∀ v, S.byzantine v = false → SafeEngine S n v (n.engines v)
  finals : ∀ v r h, (v, r, h) ∈ n.finalized → n.Commit S r h

/-- The stale-lock branch is taken only for a hash that can no longer be
committed in any round in which this validator precommitted it. -/
def HarmlessRelax (S : Setup) (n : Network) (ev : Event) : Prop :=
  ∀ h, (n.engines ev.validator).accepts S.reg ev.call = some h →
    (n.engines ev.validator).staleLock h →
    ∀ g, (n.engines ev.validator).state.lockedHash = some g →
    ∀ r, n.Precommitted ev.validator r g → ¬ n.Committable S r g

theorem safe_initial (S : Setup) : SafeNetwork S (Network.initial S) where
  votes := ⟨nofun, nofun⟩
  engines v _ := {
    placed := ⟨rfl, rfl, rfl, Nat.zero_le _⟩
    past := ⟨nofun, nofun, nofun, nofun, nofun⟩
    counted := VotesCounted.empty rfl rfl rfl
    locks := by
      refine ⟨nofun, ?_, ?_, ?_⟩
      · rintro r h ⟨p, member, _⟩
        cases member
      · rintro r h ⟨p, member, _⟩
        cases member
      · rintro r s h g ⟨p, member, _⟩
        cases member }
  finals := nofun

variable {ev : Event}

theorem admitted_of_enabled (enabled : Network.Enabled S n ev) (clean : Clean S n ev) :
    Admitted S n ev.call := by
  obtain ⟨_, deliverable⟩ := enabled
  refine ⟨?_, ?_⟩
  · intro order p called
    rw [called] at deliverable
    unfold Clean at clean
    rw [called] at clean
    exact ⟨clean.1, clean.2, deliverable.2⟩
  · intro order listing p called
    rw [called] at deliverable
    unfold Clean at clean
    rw [called] at clean
    exact ⟨clean.1, clean.2, deliverable.2⟩

theorem turn_of_enabled (past : VotesPast S n ev.validator (n.engines ev.validator))
    (enabled : Network.Enabled S n ev) (clean : Clean S n ev) :
    Turn S (n.engines ev.validator) ev.call ((n.engines ev.validator).perform S.reg ev.call).1
      (sentPrevotes ((n.engines ev.validator).perform S.reg ev.call).2 ++
        embeddedPrevotes (n.engines ev.validator) ev.call)
      (sentPrecommits ((n.engines ev.validator).perform S.reg ev.call).2) := by
  obtain ⟨_, deliverable⟩ := enabled
  unfold Clean at clean
  refine turn_of_move (BftEngine.perform_move S.reg _ ev.call) past ?_ ?_ ?_
  · intro h called
    rw [called] at deliverable
    exact deliverable.1
  · intro called
    rw [called] at clean
    exact clean
  · intro h called
    rw [called] at clean
    exact clean

theorem safe_step (safe : SafeNetwork S n) (enabled : Network.Enabled S n ev)
    (clean : Clean S n ev) (harmless : HarmlessRelax S n ev) : SafeNetwork S (n.step S ev) := by
  have self := safe.engines ev.validator enabled.1
  have admitted := admitted_of_enabled enabled clean
  have turn := turn_of_enabled self.past enabled clean
  have recorded : Recorded n (n.step S ev) _ _ := ⟨rfl, rfl⟩
  have grows := Grows.turn recorded self.past self.placed turn rfl rfl
  have counted := self.counted.turn safe.votes self.placed admitted turn
  refine ⟨VotesPlaced.turn recorded safe.votes self.past self.placed turn, ?_, ?_⟩
  · intro v honest
    by_cases same : v = ev.validator
    · subst same
      rw [show (n.step S ev).engines ev.validator = _ from Function.update_self _ _ _]
      exact ⟨self.placed.turn turn, VotesPast.turn recorded self.past self.placed turn,
        counted.grow grows,
        self.locks.turn self.past self.placed counted grows recorded turn harmless⟩
    · rw [show (n.step S ev).engines v = n.engines v from Function.update_of_ne same _ _]
      exact (safe.engines v honest).grow grows same
  · intro v r h final
    rcases List.mem_append.mp final with fresh | old
    · cases action : ((n.engines ev.validator).perform S.reg ev.call).2 with
      | finalizeBlock =>
        rw [action] at fresh
        cases List.mem_singleton.mp fresh
        have move := BftEngine.perform_move S.reg (n.engines ev.validator) ev.call
        rw [action] at move
        exact grows.commit (Move.commit move self.counted safe.votes self.placed admitted)
      | _ =>
        rw [action] at fresh
        cases fresh
    · exact grows.commit (safe.finals v r h old)

theorem SafeNetwork.lockRules (safe : SafeNetwork S n) :
    LockRules (committee S.reg) S.faulty n.record := by
  have engine : ∀ v ∈ (committee S.reg).members, ¬ S.faulty v →
      SafeEngine S n v (n.engines v) := fun v _ honest =>
    safe.engines v (by simpa [Setup.faulty] using honest)
  refine ⟨?_, ?_, ?_⟩
  · rintro v r a b member honest ⟨p, hp, pName, rfl, pHash⟩ ⟨q, hq, qName, qRound, qHash⟩
    have once := (engine v member honest).past.prevoteOnce p hp q hq pName qName qRound.symm
    exact Option.some.inj (pHash.symm.trans (once.trans qHash))
  · intro v r a member honest voted
    exact (engine v member honest).locks.backed r a voted
  · intro v r s a b member honest voted decided prevoted later differs
    have alive : n.Committable S r a := decided.mono fun _ _ vote => vote.imp_right Or.inl
    exact (engine v member honest).locks.respected r s a b voted prevoted later differs alive

theorem SafeNetwork.agree (safe : SafeNetwork S n) {v w : Address} {r s : Nat} {a b : Hash}
    (first : (v, r, a) ∈ n.finalized) (second : (w, s, b) ∈ n.finalized) : a = b :=
  precommitQuorum_agree S.few safe.lockRules (safe.finals v r a first) (safe.finals w s b second)

theorem safe_of_run (run : Run (system S) (fun n ev => Clean S n ev ∧ HarmlessRelax S n ev) n) :
    SafeNetwork S n :=
  run.invariant (SafeNetwork S) (safe_initial S)
    fun _ _ safe enabled met => safe_step safe enabled met.1 met.2

theorem HarmlessRelax.of_not_fires (never : ¬ StaleFires S n ev) : HarmlessRelax S n ev := by
  intro h accepted stale
  refine absurd ?_ never
  unfold StaleFires
  rw [accepted]
  exact stale

/-- Without restarts and stale-lock relaxation, clean runs finalize one hash. An engine that
is honest need not be active. -/
theorem honest_engines_agree
    (run : Run (system S) (fun n ev => Clean S n ev ∧ ¬ StaleFires S n ev) n)
    {v w : Address} {r s : Nat} {a b : Hash}
    (first : (v, r, a) ∈ n.finalized) (second : (w, s, b) ∈ n.finalized) : a = b := by
  have safe := safe_of_run (run.weaken fun _ _ met => ⟨met.1, .of_not_fires met.2⟩)
  exact safe.agree first second

def fourValidators (height : Word32) : Setup where
  reg := bondedSet ["v0", "v1", "v2", "v3"]
  authority _ := false
  height := height
  byzantine v := v = "v3"
  distinct := by decide
  fits := by decide
  heightWord := height.val_le.trans (by decide)
  few := by
    have distinct : (bondedSet ["v0", "v1", "v2", "v3"]).activeSet.Nodup := by decide
    unfold Committee.BelowThird
    rw [committee_weightOf distinct, Committee.total, committee, List.sum_toFinset _ distinct]
    decide

def prevoteBy (height round : Nat) (v : Address) (h : Option Hash) : EngineCall :=
  .prevote HashIter.stored ⟨height, round, h, v, []⟩

def precommitBy (height round : Nat) (v : Address) (h : Option Hash) : EngineCall :=
  .precommit HashIter.stored HashIter.stored ⟨height, round, h, v, []⟩

def deliver (v : Address) (calls : List EngineCall) : List Event :=
  calls.map fun call => ⟨v, call⟩

def decidedRound (height round : Nat) (h : Hash) : List Event :=
  let prevotes := ["v0", "v1", "v3"].map fun v => prevoteBy height round v (some h)
  let precommits := ["v0", "v1", "v3"].map fun v => precommitBy height round v (some h)
  deliver "v0" [.stash h [], .ownProposal h] ++ deliver "v1" [.stash h [], .proposal h "v0"] ++
    deliver "v0" prevotes ++ deliver "v1" prevotes ++
    deliver "v0" precommits ++ deliver "v1" precommits

theorem honest_engines_agree_decided : ∃ n, Run (system (fourValidators 4))
    (fun n ev => Clean (fourValidators 4) n ev ∧ ¬ StaleFires (fourValidators 4) n ev) n ∧
    ("v0", 0, "h") ∈ n.finalized ∧ ("v1", 0, "h") ∈ n.finalized ∧
      ∀ v r a, (v, r, a) ∈ n.finalized → a = "h" := by
  have run : Run (system (fourValidators 4))
      (fun n ev => Clean (fourValidators 4) n ev ∧ ¬ StaleFires (fourValidators 4) n ev) _ :=
    Run.start.replay (decidedRound 4 0 "h") (by decide +kernel)
  have first : ("v0", 0, "h") ∈ ((system (fourValidators 4)).replay
      (system (fourValidators 4)).init (decidedRound 4 0 "h")).finalized := by decide +kernel
  exact ⟨_, run, first, by decide +kernel, fun v r a final => honest_engines_agree run final first⟩

/-- In round 0 `v0` and `v1` time out and precommit nil. The signed payload of a
nil vote is that of a vote for the hash `NIL`, so their signatures also
verify on precommits that name it. -/
def relabelledNil : List Event :=
  deliver "v0" [.timeout, prevoteBy 3 0 "v0" none, .timeout] ++
  deliver "v1" [.timeout, prevoteBy 3 0 "v1" none, .timeout] ++
  deliver "v2" (["v0", "v1", "v3"].map fun v => precommitBy 3 0 v (some "NIL")) ++
  [⟨"v0", .advanceRound⟩, ⟨"v1", .advanceRound⟩] ++ decidedRound 3 1 "h"

theorem relabelled_nil_forks : ∃ n, Run (system (fourValidators 3))
    (fun n ev => ¬ StaleFires (fourValidators 3) n ev) n ∧
    ("v0", 1, "h") ∈ n.finalized ∧ ("v2", 0, "NIL") ∈ n.finalized :=
  ⟨_, Run.start.replay relabelledNil (by decide +kernel), by decide +kernel, by decide +kernel⟩

/-- Clean runs that only drop locks on dead hashes finalize one hash. -/
theorem harmless_relaxation_agrees
    (run : Run (system S) (fun n ev => Clean S n ev ∧ HarmlessRelax S n ev) n)
    {v w : Address} {r s : Nat} {a b : Hash}
    (first : (v, r, a) ∈ n.finalized) (second : (w, s, b) ∈ n.finalized) : a = b :=
  (safe_of_run run).agree first second

instance (e : BftEngine) (round : Nat) : Decidable (MayPrecommit e round) :=
  inferInstanceAs (Decidable (_ ∨ _))

/-- The stake that is Byzantine, has precommitted `h` in `round` or could still do so. -/
def committableStake (S : Setup) (n : Network) (round : Nat) (h : Hash) : Nat :=
  ((S.reg.activeSet.filter fun u => S.byzantine u ||
    n.precommits.any (fun p => p.validator = u ∧ p.round = round ∧ p.blockHash = some h) ||
    decide (MayPrecommit (n.engines u) round)).map S.reg.voteStake).sum

theorem committable_iff {r : Nat} : n.Committable S r h ↔
    supermajorityThreshold (committee S.reg).total ≤ committableStake S n r h := by
  unfold committableStake
  rw [← committee_weightOf S.distinct]
  show _ ≤ (committee S.reg).weightOf _ ↔ _ ≤ (committee S.reg).weightOf _
  simp only [Setup.faulty, Network.Precommitted, Bool.or_eq_true, List.any_eq_true,
    decide_eq_true_eq, or_assoc]
  rfl

instance (n : Network) (r : Nat) (h : Hash) : Decidable (n.Committable S r h) :=
  decidable_of_iff (supermajorityThreshold (S.reg.activeSet.map S.reg.voteStake).sum ≤
    committableStake S n r h) (by rw [committable_iff, committee_total])

instance : Decidable (HarmlessRelax S n ev) :=
  decidable_of_iff (∀ h ∈ (n.engines ev.validator).accepts S.reg ev.call,
    (n.engines ev.validator).staleLock h → ∀ g ∈ (n.engines ev.validator).state.lockedHash,
    ∀ p ∈ n.precommits, p.validator = ev.validator ∧ p.blockHash = some g →
      ¬ n.Committable S p.round g) <| by
    constructor
    · rintro checked h accepted stale g locked r ⟨p, member, name, rfl, named⟩
      exact checked h accepted stale g locked p member ⟨name, named⟩
    · rintro harmless h accepted stale g locked p member ⟨name, named⟩
      exact harmless h accepted stale g locked p.round ⟨p, member, name, rfl, named⟩

def idleRound (height round : Nat) (v : Address) : List Event :=
  deliver v [.timeout, prevoteBy height round v none, .timeout,
    precommitBy height round v none, .timeout, .advanceRound]

def votesFor (vote : Nat → Nat → Address → Option Hash → EngineCall) (round : Nat) (h : Hash)
    (vs : List Address) : List EngineCall :=
  vs.map fun v => vote 4 round v (some h)

/-- `v1` misses the proposal of `h` but sees its prevotes, so it locks and precommits
without the bytes, and sixteen idle rounds go by. What becomes of `h` at `v0` is left
open. -/
def lockedBare (outcome : List EngineCall) : List Event :=
  deliver "v0" [.stash "h" [], .ownProposal "h"] ++
  deliver "v2" [.stash "h" [], .proposal "h" "v0", prevoteBy 4 0 "v2" (some "h")] ++
  deliver "v1" ([.timeout, prevoteBy 4 0 "v1" none] ++
    votesFor prevoteBy 0 "h" ["v0", "v2", "v3"]) ++
  deliver "v0" outcome ++
  deliver "v1" [precommitBy 4 0 "v1" (some "h"), .timeout, .advanceRound] ++
  deliver "v2" [.timeout, precommitBy 4 0 "v2" none, .timeout, .advanceRound] ++
  (List.range 16).flatMap (fun r => idleRound 4 (r + 1) "v1" ++ idleRound 4 (r + 1) "v2") ++
  deliver "v1" [.stash "k" []]

/-- `v1` drops the lock for a proposal of its own and, with `v2` and `v3`, finalizes it. -/
def relaxedRound : List Event :=
  deliver "v1" [.ownProposal "k"] ++
  deliver "v2" [.stash "k" [], .proposal "k" "v1"] ++
  deliver "v1" (votesFor prevoteBy 17 "k" ["v1", "v2", "v3"]) ++
  deliver "v2" (votesFor prevoteBy 17 "k" ["v1", "v2", "v3"]) ++
  deliver "v1" (votesFor precommitBy 17 "k" ["v1", "v2", "v3"])

/-- `v0` gives up on `h`, so the lock that `v1` drops is on a dead hash. -/
def deadLock : List Event :=
  lockedBare [prevoteBy 4 0 "v0" (some "h"), .timeout]

theorem harmless_relaxation_agrees_relaxed :
    StaleFires (fourValidators 4) ((system (fourValidators 4)).replay
        (system (fourValidators 4)).init deadLock) ⟨"v1", .ownProposal "k"⟩ ∧
    ∃ n, Run (system (fourValidators 4))
        (fun n ev => Clean (fourValidators 4) n ev ∧ HarmlessRelax (fourValidators 4) n ev) n ∧
      n.Precommitted "v1" 0 "h" ∧ ("v1", 17, "k") ∈ n.finalized ∧
      ∀ v r a, (v, r, a) ∈ n.finalized → a = "k" := by
  have run : Run (system (fourValidators 4))
      (fun n ev => Clean (fourValidators 4) n ev ∧ HarmlessRelax (fourValidators 4) n ev) _ :=
    Run.start.replay (deadLock ++ relaxedRound) (by decide +kernel)
  have first : ("v1", 17, "k") ∈ ((system (fourValidators 4)).replay
      (system (fourValidators 4)).init (deadLock ++ relaxedRound)).finalized := by decide +kernel
  exact ⟨by decide +kernel, _, run, ⟨⟨4, 0, some "h", "v1", []⟩, by decide +kernel, rfl, rfl, rfl⟩, first,
    fun v r a final => harmless_relaxation_agrees run final first⟩

/-- The same lock, but `v0` has finalized `h`. -/
def staleLockRun : List Event :=
  lockedBare (votesFor prevoteBy 0 "h" ["v0", "v2", "v3"] ++
    votesFor precommitBy 0 "h" ["v0", "v1", "v3"]) ++ relaxedRound

theorem stale_lock_forks : ∃ n, Run (system (fourValidators 4)) (Clean (fourValidators 4)) n ∧
    ("v0", 0, "h") ∈ n.finalized ∧ ("v1", 17, "k") ∈ n.finalized :=
  ⟨_, Run.start.replay staleLockRun (by decide +kernel), by decide +kernel, by decide +kernel⟩

end SentrixNetwork
