import Sentrix.Bft.LockJournal

/-!
Restarts. The lock is not written down, so a run keeps it exactly as long as no locked
engine goes down, no stale lock is dropped and a locked proposer still holds the block
it is locked on.
-/
namespace SentrixLoop
open MachineWords HashTable SentrixPrimitives SentrixMessages SentrixStaking SentrixEngine
open SentrixGuard Runs
variable {Chain Block : Type} {L : Ledger Chain Block} {k : Signer} {crypto : Recovery}
  {n : Node Chain Block} {e : BftEngine} {height r : Nat}

theorem round_lt_of_signPoint_le {s a b : Nat}
    (below : signPoint height r a ≤ signPoint height s b) (step : b < a) : r < s := by
  unfold signPoint at below
  rw [Prod.Lex.toLex_le_toLex] at below
  rcases below with less | ⟨_, rest⟩
  · exact absurd less (lt_irrefl _)
  · rw [Prod.Lex.toLex_le_toLex] at rest
    rcases rest with less | ⟨_, steps⟩
    · exact less
    · omega

/-- A locked engine still has the locked block, and its bytes decode. -/
def HoldsLockedBlock (L : Ledger Chain Block) (e : BftEngine) : Prop :=
  e.state.lockedHash = none ∨ (e.lockedProposalBytes.bind fun locked => L.decode locked.2).isSome

/-- No locked engine goes down, no stale lock is dropped, the round counter is not
stuck at its top, and a locked proposer holds its block. -/
def Steady (L : Ledger Chain Block) (n : Node Chain Block) (ev : LoopEvent Chain Block) : Prop :=
  match n.engine with
  | none => True
  | some e =>
    match ev with
    | .restart _ => e.state.lockedHash = none ∨ e.state.height ≤ L.height n.chain
    | .drain _ =>
      match n.inbox with
      | .propose p :: _ =>
        ((e.accepts (n.registry L) (.proposal p.blockHash p.proposer)).any e.staleLock) = false
      | _ => True
    | .handle _ =>
      match n.action with
      | some (_, .timeoutAdvanceRound) | some (_, .skipRound) => e.state.round < u32Max ∧
          (e.advanceRound.isProposer (n.registry L) → HoldsLockedBlock L e)
      | _ => True
    | _ => True

instance (L : Ledger Chain Block) (e : BftEngine) : Decidable (HoldsLockedBlock L e) :=
  inferInstanceAs (Decidable (_ ∨ _))

instance (L : Ledger Chain Block) (n : Node Chain Block) (ev : LoopEvent Chain Block) :
    Decidable (Steady L n ev) := by
  unfold Steady
  repeat' split
  all_goals infer_instance

structure CanReplay (journal : List (Note Chain)) (e : BftEngine) (p : Proposal) : Prop where
  round : p.height = e.state.height → p.round ≤ e.state.round
  before : p.height = e.state.height → p.round = e.state.round → ∀ q ∈ p.proposerPrevote,
    q.height = p.height ∧ q.round = p.round ∧
      JustifiedBefore journal e.state.height e.state.round q.blockHash

structure Prepared (s : Nat × Block × Proposal) : Prop where
  height : s.2.2.height = s.1
  round : s.2.2.round = 0
  embedded : ∀ q ∈ s.2.2.proposerPrevote, q.height = s.1 ∧ q.round = 0

structure Session (L : Ledger Chain Block) (n : Node Chain Block) (e : BftEngine) : Prop where
  outlives : LockOutlives n.journal
  kept : Kept n.journal e
  reach : e.state.height ≤ L.height n.chain + 1
  early : ∀ height r h, Voted n.journal height r h → height ≤ e.state.height
  guarded : ∃ g, n.guard = some g ∧ ∀ r h, Voted n.journal e.state.height r h →
    signPoint e.state.height r 2 ≤ g.state.point
  replay : ∀ p, n.lastSigned = some p → CanReplay n.journal e p
  prepared : ∀ s, n.speculative = some s → Prepared s

/-- A node between heights: everything precommitted so far is on the chain. -/
structure Ready (L : Ledger Chain Block) (n : Node Chain Block) : Prop where
  outlives : LockOutlives n.journal
  guarded : ∃ g, n.guard = some g
  decided : ∀ height r h, Voted n.journal height r h → height ≤ L.height n.chain
  prepared : ∀ s, n.speculative = some s → Prepared s

def NodeKept (L : Ledger Chain Block) (n : Node Chain Block) : Prop :=
  match n.engine with
  | some e => Session L n e ∧ ∀ arm a, n.action = some (arm, a) → Offers n.journal e a
  | none => Ready L n

variable {journal : List (Note Chain)}

theorem CanReplay.cons {note : Note Chain} {p : Proposal} (replay : CanReplay journal e p)
    (old : ∀ r h, Voted (note :: journal) e.state.height r h →
      r < e.state.round → Voted journal e.state.height r h) :
    CanReplay (note :: journal) e p where
  round := replay.round
  before height round q embedded := by
    obtain ⟨at_height, at_round, before⟩ := replay.before height round q embedded
    exact ⟨at_height, at_round, before.cons old⟩

theorem CanReplay.later {e' : BftEngine} {p : Proposal} (replay : CanReplay journal e p)
    (height : e'.state.height = e.state.height) (round : e.state.round ≤ e'.state.round) :
    CanReplay journal e' p where
  round at_height := (replay.round (at_height.trans height)).trans round
  before at_height at_round q embedded := by
    have bound := replay.round (at_height.trans height)
    have same : e'.state.round = e.state.round := by omega
    rw [height, same]
    exact replay.before (at_height.trans height) (at_round.trans same) q embedded

theorem Session.cons (session : Session L n e) {note : Note Chain} (quiet : note.precommits = [])
    (justified : ∀ q ∈ note.prevotes, Justified n.journal q) :
    Session L { n with journal := note :: n.journal } e where
  outlives := ⟨justified, session.outlives⟩
  kept := session.kept.cons quiet
  reach := session.reach
  early height r h cast := session.early height r h (cast.of_quiet quiet)
  guarded := by
    obtain ⟨g, held, above⟩ := session.guarded
    exact ⟨g, held, fun r h cast => above r h (cast.of_quiet quiet)⟩
  replay p last := (session.replay p last).cons fun _ _ cast _ => cast.of_quiet quiet
  prepared := session.prepared

theorem Session.same_core {e' : BftEngine} (session : Session L n e) (core : e'.core = e.core)
    (settles : Settles e e') : Session L n e' := by
  have height : e'.state.height = e.state.height := congrArg Core.height core
  refine ⟨session.outlives, session.kept.same_core settles core, ?_, ?_, ?_, ?_, session.prepared⟩
  · rw [height]
    exact session.reach
  · rw [height]
    exact session.early
  · rw [height]
    exact session.guarded
  · intro p last
    exact (session.replay p last).later height (congrArg Core.round core).ge

theorem Session.call (session : Session L n e) (c : EngineCall) (arm : Option Arm)
    (fresh : ∀ h, e.accepts (n.registry L) c = some h → e.staleLock h = false)
    (top : c = .advanceRound → e.state.round < u32Max) :
    NodeKept L (n.call L e c arm) := by
  have move := BftEngine.perform_move (n.registry L) e c
  obtain ⟨height, round⟩ := move_place move top
  obtain ⟨kept, offers⟩ := session.kept.move move fresh top
  have noted : Session L { n with journal := .engine (e.perform (n.registry L) c).1 :: n.journal } e :=
    session.cons rfl nofun
  refine ⟨⟨noted.outlives, kept, ?_, ?_, ?_, ?_, noted.prepared⟩, ?_⟩
  · rw [height]
    exact noted.reach
  · rw [height]
    exact noted.early
  · rw [height]
    exact noted.guarded
  · intro p last
    exact (noted.replay p last).later height round
  · intro a action followed
    cases arm with
    | none => cases followed
    | some =>
      cases followed
      exact offers

theorem Session.sign (session : Session L n e) (persisted : Bool) (height round : Nat)
    (step : VoteStep) (payload : Bytes) :
    Session L { n with guard := (k.signAt persisted n.guard height round step payload).1 } e := by
  obtain ⟨g, held, above⟩ := session.guarded
  obtain ⟨g', after, up⟩ := Signer.signAt_mono k persisted g height round step payload
  refine ⟨session.outlives, session.kept, session.reach, session.early, ?_, session.replay,
    session.prepared⟩
  rw [held]
  exact ⟨g', after, fun r h cast => (above r h cast).trans up⟩

/-- What is signed below the precommit step belongs to a round after every
signed precommit. -/
theorem Session.below (session : Session L n e) {persisted : Bool} {round : Nat} {step : VoteStep}
    {payload signature : Bytes} (lower : step.ord < 2)
    (signed : (k.signAt persisted n.guard e.state.height round step payload).2 = some signature)
    (r : Nat) (h : Hash) (cast : Voted n.journal e.state.height r h) : r < round := by
  obtain ⟨g, held, above⟩ := session.guarded
  have guarded : step ≠ .other := by
    rintro rfl
    exact absurd lower (by decide)
  rw [held] at signed
  exact round_lt_of_signPoint_le ((above r h cast).trans (Signer.signAt_some guarded signed).1) lower

theorem Session.sendPrevote (session : Session L n e) {q : Prevote} (persisted : Bool)
    (can : CanPrevote n.journal e q) :
    Session L { n with
      guard := (k.signPrevote persisted n.guard q).1
      journal := .prevote (k.signPrevote persisted n.guard q).2 :: n.journal } e := by
  refine (session.sign (k := k) persisted q.height q.round .prevote q.payload).cons rfl ?_
  intro v sent
  rw [Note.prevotes] at sent
  split at sent
  · cases sent
  · rename_i nonempty
    cases List.mem_singleton.mp sent
    obtain ⟨bytes, signed⟩ := signature_given can.unsigned nonempty
    have before := can.before
    rw [← can.height, ← can.round] at before
    rw [can.height] at signed
    refine Justified.of_before before ?_
    change ∀ r h, Voted n.journal q.height r h → r < q.round
    rw [can.height]
    exact session.below (by decide) signed

variable {p : Precommit}

theorem Voted.of_precommit {h : Hash} (cast : Voted (.precommit p :: journal) height r h) :
    Voted journal height r h ∨
      p.signature ≠ [] ∧ p.height = height ∧ p.round = r ∧ p.blockHash = some h := by
  obtain ⟨note, member, v, sent, facts⟩ := cast
  rcases List.mem_cons.mp member with rfl | old
  · rw [Note.precommits] at sent
    split at sent
    · cases sent
    · rename_i signed
      cases List.mem_singleton.mp sent
      exact Or.inr ⟨signed, facts⟩
  · exact Or.inl ⟨note, old, v, sent, facts⟩

theorem CanPrecommit.older (can : CanPrecommit e p) {signature : Bytes} {h : Hash}
    (cast : Voted (.precommit { p with signature := signature } :: journal) e.state.height r h)
    (earlier : r < e.state.round) : Voted journal e.state.height r h := by
  refine cast.of_precommit.resolve_right ?_
  rintro ⟨_, _, now, _⟩
  exact absurd (can.round.symm.trans now) (Nat.ne_of_gt earlier)

theorem Kept.sendPrecommit (kept : Kept journal e) (can : CanPrecommit e p) (signature : Bytes) :
    Kept (.precommit { p with signature := signature } :: journal) e := by
  refine ⟨⟨?_, ?_, kept.facts.tally⟩, ?_, kept.precommit⟩
  · intro h locked
    obtain ⟨r, at_round, bound, past, saw⟩ := kept.facts.lock h locked
    exact ⟨r, at_round, bound, past, saw.cons _⟩
  · intro r h cast
    rcases cast.of_precommit with before | ⟨_, _, now, named⟩
    · exact kept.facts.voted r h before
    · have here : r = e.state.round := now.symm.trans can.round
      subst here
      exact ⟨le_rfl, fun _ => can.phase, h, e.state.round, (can.lock h named).1,
        (can.lock h named).2, le_rfl, fun _ => rfl⟩
  · intro q pending
    have waiting := kept.prevote q pending
    exact ⟨waiting.height, waiting.round, waiting.unsigned,
      waiting.before.cons fun r h cast earlier => can.older cast earlier⟩

theorem Session.sendPrecommit (session : Session L n e) (persisted : Bool)
    (can : CanPrecommit e p) :
    Session L { n with
      guard := (k.signPrecommit persisted n.guard p).1
      journal := .precommit (k.signPrecommit persisted n.guard p).2 :: n.journal } e where
  outlives := ⟨nofun, session.outlives⟩
  kept := session.kept.sendPrecommit can _
  reach := session.reach
  early height r h cast := by
    rcases cast.of_precommit with before | ⟨_, at_height, _⟩
    · exact session.early height r h before
    · exact (at_height.symm.trans can.height).le
  guarded := by
    obtain ⟨g, held, above⟩ := session.guarded
    obtain ⟨g', after, up⟩ := Signer.signAt_mono k persisted g p.height p.round .precommit p.payload
    refine ⟨g', by rw [held]; exact after, fun r h cast => ?_⟩
    rcases cast.of_precommit with before | ⟨nonempty, _, now, _⟩
    · exact (above r h before).trans up
    · obtain ⟨bytes, signed⟩ := signature_given can.unsigned nonempty
      rw [held] at signed
      obtain ⟨_, g'', recorded, at_point⟩ := Signer.signAt_some (by decide) signed
      cases after.symm.trans recorded
      rw [at_point, ← can.height, ← now]
      exact le_rfl
  replay q last := (session.replay q last).cons fun _ _ cast earlier => can.older cast earlier
  prepared := session.prepared

theorem Session.frame {n' : Node Chain Block} (session : Session L n e)
    (journal : n'.journal = n.journal) (guard : n'.guard = n.guard)
    (lastSigned : n'.lastSigned = n.lastSigned) (speculative : n'.speculative = n.speculative)
    (chain : L.height n.chain ≤ L.height n'.chain) : Session L n' e := by
  refine ⟨?_, ?_, session.reach.trans (Nat.succ_le_succ chain), ?_, ?_, ?_, ?_⟩
  · rw [journal]
    exact session.outlives
  · rw [journal]
    exact session.kept
  · rw [journal]
    exact session.early
  · rw [journal, guard]
    exact session.guarded
  · rw [journal, lastSigned]
    exact session.replay
  · rw [speculative]
    exact session.prepared

theorem Session.follow (session : Session L n e) (at_work : n.engine = some e)
    (offers : ∀ arm a, n.action = some (arm, a) → Offers n.journal e a) : NodeKept L n := by
  unfold NodeKept
  rw [at_work]
  exact ⟨session, offers⟩

theorem Session.rest (session : Session L n e) (at_work : n.engine = some e)
    (idle : n.action = none) : NodeKept L n := by
  refine session.follow at_work fun arm a followed => ?_
  rw [idle] at followed
  cases followed

theorem Ready.rest (ready : Ready L n) (between : n.engine = none) : NodeKept L n := by
  unfold NodeKept
  rw [between]
  exact ready

theorem Session.offer (session : Session L n e) (block : Block) (p : Proposal) (arm : Option Arm)
    (keep : Bool) (justified : ∀ q ∈ (Note.proposal p : Note Chain).prevotes, Justified n.journal q)
    (replay : CanReplay n.journal e p) (fresh : e.staleLock (L.hash block) = false) :
    NodeKept L (n.offer L e block p arm keep) := by
  have sent : Session L { n with journal := .proposal p :: n.journal } e :=
    session.cons rfl justified
  have again : CanReplay (.proposal p :: n.journal) e p :=
    replay.cons fun _ _ cast _ => cast.of_quiet rfl
  have noted : Session L { n with
      proposedBlock := some block
      lastSigned := if keep then some p else n.lastSigned
      journal := .proposal p :: n.journal } e := by
    refine ⟨sent.outlives, sent.kept, sent.reach, sent.early, sent.guarded, ?_, sent.prepared⟩
    intro q last
    cases keep with
    | true =>
      cases last
      exact again
    | false => exact sent.replay q last
  have stashed : Session L _ (e.stashProposalBytes (L.hash block) p.blockData) :=
    noted.same_core rfl ⟨Or.inl rfl, Or.inl rfl⟩
  refine stashed.call _ arm ?_ nofun
  intro h accepted
  rcases BftEngine.accepts_hash accepted with own | ⟨_, other⟩
  · cases own
    exact fresh
  · cases other

/-- A proposer that holds its locked block proposes nothing its lock forbids. -/
theorem blockToPropose_free {c : Choices Block} {block : Block} {hash : Hash} {bytes : Bytes}
    (holds : HoldsLockedBlock L e) (chosen : blockToPropose L c e = some (block, hash, bytes)) :
    (e.state.lockedHash = none ∨ e.state.lockedHash = some hash) ∧ ∀ h, e.staleLock h = false := by
  unfold HoldsLockedBlock at holds
  unfold blockToPropose BftEngine.lockedProposalBytes at chosen
  unfold BftEngine.lockedProposalBytes at holds
  unfold BftEngine.staleLock
  cases locked : e.state.lockedHash with
  | none => exact ⟨Or.inl rfl, fun _ => rfl⟩
  | some =>
    cases cached : e.state.lockedBlock with
    | none => simp [locked, cached] at holds
    | some =>
      simp only [locked, cached, Option.bind_some, reduceCtorEq, false_or,
        Option.isSome_iff_exists] at holds chosen
      obtain ⟨found, decoded⟩ := holds
      simp only [decoded, Option.some.injEq, Prod.mk.injEq] at chosen
      refine ⟨Or.inr (congrArg some chosen.2.1), fun h => ?_⟩
      cases e.state.lockedRound <;> simp

theorem Session.propose (session : Session L n e) (idle : n.action = none) (c : Choices Block)
    (arm : Option Arm) (keep : Bool) (holds : HoldsLockedBlock L e) :
    NodeKept L (n.propose L k c e arm keep) := by
  unfold Node.propose buildOrReuseProposal
  cases chosen : blockToPropose L c e with
  | none =>
    have waiting : Session L { n with engine := some e } e :=
      session.frame rfl rfl rfl rfl le_rfl
    exact waiting.rest rfl idle
  | some choice =>
    obtain ⟨block, hash, bytes⟩ := choice
    obtain ⟨free, fresh⟩ := blockToPropose_free holds chosen
    have before : JustifiedBefore n.journal e.state.height e.state.round (some hash) := by
      refine session.kept.facts.justify ?_
      rintro g ⟨⟩
      exact free
    have signed := session.sign (k := k) c.persisted e.state.height e.state.round .proposal
      (Proposal.signingPayload e.state.height e.state.round hash)
    refine signed.offer block _ arm keep ?_ ?_ (fresh _)
    · intro q sent
      rw [Note.prevotes] at sent
      split at sent
      · cases sent
      · rename_i nonempty
        obtain ⟨signature, given⟩ := signature_given rfl nonempty
        cases Option.mem_toList.mp sent
        exact Justified.of_before before (session.below (by decide) given)
    · refine ⟨fun _ => le_rfl, fun _ _ q embedded => ?_⟩
      cases embedded
      exact ⟨rfl, rfl, before⟩

structure Blank (height : Nat) (e : BftEngine) : Prop where
  height : e.state.height = height
  unlocked : e.state.lockedHash = none
  prevotes : e.state.prevotes = ∅
  collector : e.collector = VoteCollector.new
  noPrevote : e.pendingPrevote = none
  noPrecommit : e.pendingPrecommit = none

theorem Blank.advance (steps : Nat) (blank : Blank height e) :
    Blank height (Nat.iterate BftEngine.advanceRound steps e) := by
  induction steps generalizing e with
  | zero => exact blank
  | succ _ ih => exact ih ⟨blank.height, blank.unlocked, rfl, rfl, rfl, rfl⟩

theorem newEngine_blank (L : Ledger Chain Block) (k : Signer) (chain : Chain)
    (guard : Option Guard) : Blank (L.height chain + 1) (newEngine L k chain guard) :=
  Blank.advance _ ⟨rfl, rfl, rfl, rfl, rfl, rfl⟩

theorem Blank.session (ready : Ready L n) (blank : Blank (L.height n.chain + 1) e)
    {n' : Node Chain Block} (journal : n'.journal = .engine e :: n.journal)
    (guard : n'.guard = n.guard) (lastSigned : n'.lastSigned = none)
    (speculative : n'.speculative = n.speculative ∨ n'.speculative = none)
    (chain : n'.chain = n.chain) : Session L n' e := by
  have none_here : ∀ r h, ¬ Voted (.engine e :: n.journal) e.state.height r h := by
    intro r h cast
    rw [blank.height] at cast
    have decided := ready.decided _ r h (cast.of_quiet rfl)
    omega
  refine ⟨?_, ?_, ?_, ?_, ?_, ?_, ?_⟩
  · rw [journal]
    exact ⟨nofun, ready.outlives⟩
  · rw [journal]
    refine ⟨⟨fun h locked => ?_, fun r h cast => absurd cast (none_here r h), ?_⟩, ?_, ?_⟩
    · cases blank.unlocked.symm.trans locked
    · change TalliedBelow _ _ e.collector.prevoteTally e.state.prevotes
      rw [blank.collector, blank.prevotes]
      exact fun _ => Nat.zero_le _
    · intro q pending
      cases blank.noPrevote.symm.trans pending
    · intro p pending
      cases blank.noPrecommit.symm.trans pending
  · rw [chain, blank.height]
  · rw [journal, blank.height]
    intro height r h cast
    have decided := ready.decided height r h (cast.of_quiet rfl)
    omega
  · obtain ⟨g, held⟩ := ready.guarded
    rw [journal, guard]
    exact ⟨g, held, fun r h cast => absurd cast (none_here r h)⟩
  · intro p last
    cases lastSigned.symm.trans last
  · intro s held
    rcases speculative with same | gone
    · exact ready.prepared s (same ▸ held)
    · cases gone.symm.trans held

theorem Ready.startHeight (ready : Ready L n) (idle : n.action = none) (c : Choices Block) :
    NodeKept L (n.startHeight L k c) := by
  have blank := newEngine_blank L k n.chain n.guard
  have holds : HoldsLockedBlock L (newEngine L k n.chain n.guard) := Or.inl blank.unlocked
  have fresh : ∀ h, (newEngine L k n.chain n.guard).staleLock h = false := by
    intro h
    unfold BftEngine.staleLock
    rw [blank.unlocked]
  have none_yet : ∀ r h, ¬ Voted (.engine (newEngine L k n.chain n.guard) :: n.journal)
      (L.height n.chain + 1) r h := by
    intro r h cast
    have decided := ready.decided _ r h (cast.of_quiet rfl)
    omega
  unfold Node.startHeight
  simp only
  split
  · have session : Session L { n with
        engine := some (newEngine L k n.chain n.guard)
        elected := n.registry L
        proposedBlock := none
        speculative := none
        lastSigned := none
        journal := .engine (newEngine L k n.chain n.guard) :: n.journal } _ :=
      blank.session ready rfl rfl rfl (Or.inr rfl) rfl
    split
    · rename_i block p taken
      obtain ⟨stored, fits⟩ := Option.filter_eq_some_iff.mp taken
      simp only [decide_eq_true_eq] at fits
      have prepared := ready.prepared _ stored
      refine session.offer block p _ true ?_ ⟨fun _ => ?_, fun _ _ q embedded => ?_⟩ (fresh _)
      · intro q sent
        rw [Note.prevotes] at sent
        split at sent
        · cases sent
        · have placed := prepared.embedded q (Option.mem_toList.mp sent)
          have height : q.height = L.height n.chain + 1 := placed.1.trans fits.1
          apply Justified.of_before
          · intro g r h _ cast
            rw [height] at cast
            exact absurd cast (none_yet r h)
          · intro r h cast
            rw [height] at cast
            exact absurd cast (none_yet r h)
      · exact prepared.round.trans_le (Nat.zero_le _)
      · have placed := prepared.embedded q embedded
        refine ⟨placed.1.trans prepared.height.symm, placed.2.trans prepared.round.symm, ?_⟩
        intro g r h _ cast
        rw [blank.height] at cast
        exact absurd cast (none_yet r h)
    · exact session.propose idle c _ true holds
  · have session : Session L { n with
        engine := some (newEngine L k n.chain n.guard)
        elected := n.registry L
        proposedBlock := none
        lastSigned := none
        journal := .engine (newEngine L k n.chain n.guard) :: n.journal } _ :=
      blank.session ready rfl rfl rfl (Or.inl rfl) rfl
    exact session.rest rfl idle

theorem Session.ready (session : Session L n e)
    (decided : e.state.lockedHash = none ∨ e.state.height ≤ L.height n.chain) : Ready L n := by
  obtain ⟨g, held, _⟩ := session.guarded
  refine ⟨session.outlives, ⟨g, held⟩, fun height r h cast => ?_, session.prepared⟩
  have bound := session.early height r h cast
  have reach := session.reach
  rcases decided with unlocked | done
  · by_cases same : height = e.state.height
    · subst same
      obtain ⟨_, _, other, _, locked, _⟩ := session.kept.facts.voted r h cast
      cases (show e.core.lockedHash = none from unlocked).symm.trans locked
    · omega
  · omega

theorem Session.drain (session : Session L n e) (at_work : n.engine = some e)
    (idle : n.action = none) (c : Choices Block) (message : BftMessage)
    (fresh : ∀ p, message = .propose p →
      (e.accepts (n.registry L) (.proposal p.blockHash p.proposer)).any e.staleLock = false) :
    NodeKept L (n.drain L c e message) := by
  cases message with
  | propose p =>
    unfold Node.drain
    simp only
    split
    · exact session.rest at_work idle
    · split
      · rename_i block decoded
        have heard : Session L { n with journal := .heard p n.chain :: n.journal } e :=
          session.cons rfl nofun
        have noted : Session L { n with
            proposedBlock := some block
            journal := .heard p n.chain :: n.journal } e :=
          heard.frame rfl rfl rfl rfl le_rfl
        have stashed : Session L _ (e.stashProposalBytes p.blockHash p.blockData) :=
          noted.same_core rfl ⟨Or.inl rfl, Or.inl rfl⟩
        refine stashed.call _ _ ?_ nofun
        intro h accepted
        have quiet := fresh p rfl
        rw [show e.accepts (n.registry L) (.proposal p.blockHash p.proposer) = some h from
          accepted] at quiet
        exact quiet
      · exact session.rest at_work idle
  | prevote => exact session.call _ _ nofun nofun
  | precommit => exact session.call _ _ nofun nofun
  | roundStatus => exact session.call _ _ nofun nofun

theorem Session.prepareNext (session : Session L n e) (at_work : n.engine = some e)
    (idle : n.action = none) (c : Choices Block) : NodeKept L (n.prepareNext L k c) := by
  have cleared : Session L { n with speculative := none } e :=
    ⟨session.outlives, session.kept, session.reach, session.early, session.guarded,
      session.replay, nofun⟩
  unfold Node.prepareNext
  simp only
  split
  · split
    · rename_i block _
      have signed := session.sign (k := k) c.persisted (L.height n.chain + 1) 0 .proposal
        (Proposal.signingPayload (L.height n.chain + 1) 0 (L.hash block))
      refine Session.rest ⟨signed.outlives, signed.kept, signed.reach, signed.early,
        signed.guarded, signed.replay, ?_⟩ at_work idle
      rintro s ⟨⟩
      refine ⟨rfl, rfl, ?_⟩
      rintro q ⟨⟩
      exact ⟨rfl, rfl⟩
    · exact cleared.rest at_work idle
  · exact cleared.rest at_work idle

theorem Session.finalize (session : Session L n e) (at_work : n.engine = some e)
    (c : Choices Block) (height round : Nat) (blockHash : Hash)
    (justification : BlockJustification) :
    NodeKept L (n.finalize L k c e height round blockHash justification) := by
  have waiting : Session L { n with action := none } e := session.frame rfl rfl rfl rfl le_rfl
  have dropped : Session L { n with proposedBlock := none, action := none } e :=
    session.frame rfl rfl rfl rfl le_rfl
  unfold Node.finalize
  split
  · exact dropped.rest at_work rfl
  split
  · exact session.call _ none nofun nofun
  split
  · exact waiting.rest at_work rfl
  · rename_i block _
    simp only
    split
    · exact dropped.rest at_work rfl
    split
    · have grows := L.grows n.chain (L.justify block round justification)
      split
      all_goals
        rename_i chain added
        rw [added] at grows
        have moved : Session L { n with
            chain := chain, proposedBlock := none, action := none } e :=
          dropped.frame rfl rfl rfl rfl grows
      · exact moved.prepareNext at_work rfl c
      · exact moved.rest at_work rfl
    · exact dropped.rest at_work rfl

theorem Session.nextRound (session : Session L n e) (c : Choices Block) (keep : Bool)
    (top : e.state.round < u32Max)
    (holds : e.advanceRound.isProposer (n.registry L) → HoldsLockedBlock L e) :
    NodeKept L (n.nextRound L k c e keep) := by
  have advanced := session.call .advanceRound none nofun fun _ => top
  unfold Node.nextRound
  simp only
  split
  · rename_i proposer
    exact advanced.1.propose rfl c none keep (holds proposer)
  · exact advanced

theorem Session.handle (session : Session L n e) (at_work : n.engine = some e)
    (c : Choices Block) (arm : Arm) (action : BftAction) (offers : Offers n.journal e action)
    (next : action = .timeoutAdvanceRound ∨ action = .skipRound → e.state.round < u32Max ∧
      (e.advanceRound.isProposer (n.registry L) → HoldsLockedBlock L e)) :
    NodeKept L (n.handle L k c e arm action) := by
  have waiting : Session L { n with action := none } e := session.frame rfl rfl rfl rfl le_rfl
  cases action with
  | broadcastPrevote q =>
    unfold Node.handle
    simp only
    split
    · have cast : Session L _ e.markPrevoteCast :=
        (session.sendPrevote (k := k) c.persisted offers).same_core rfl ⟨Or.inl rfl, Or.inl rfl⟩
      exact cast.call _ _ nofun nofun
    · exact (waiting.sign (k := k) c.persisted q.height q.round .prevote q.payload).rest at_work rfl
  | broadcastPrecommit p =>
    unfold Node.handle
    simp only
    split
    · have cast : Session L _ e.markPrecommitCast :=
        (session.sendPrecommit (k := k) c.persisted offers).same_core rfl
          ⟨Or.inl rfl, Or.inl rfl⟩
      exact cast.call _ _ nofun nofun
    · exact (waiting.sign (k := k) c.persisted p.height p.round .precommit p.payload).rest
        at_work rfl
  | finalizeBlock height round blockHash justification =>
    simp only [Node.handle]
    split
    · exact waiting.rest at_work rfl
    · exact session.finalize at_work c height round blockHash justification
  | timeoutAdvanceRound =>
    obtain ⟨top, holds⟩ := next (Or.inl rfl)
    exact session.nextRound c _ top holds
  | skipRound =>
    obtain ⟨top, holds⟩ := next (Or.inr rfl)
    exact session.nextRound c _ top holds
  | syncNeeded => exact waiting.rest at_work rfl
  | wait => exact waiting.rest at_work rfl
  | proposeBlock => exact waiting.rest at_work rfl

/-- The proposal goes out again in a round that has seen no precommit of ours. -/
theorem Session.rebroadcast (session : Session L n e) (at_work : n.engine = some e)
    (idle : n.action = none) {p : Proposal} (again : n.rebroadcasts e p) :
    NodeKept L { n with journal := .proposal p :: n.journal } := by
  obtain ⟨last, _, height, round, phase⟩ := of_decide_eq_true again
  have replay := session.replay p last
  have sent : Session L { n with journal := .proposal p :: n.journal } e := by
    refine session.cons rfl ?_
    intro q embedded
    rw [Note.prevotes] at embedded
    split at embedded
    · cases embedded
    obtain ⟨at_height, at_round, before⟩ :=
      replay.before height round q (Option.mem_toList.mp embedded)
    have here : q.height = e.state.height := at_height.trans height
    have now : q.round = e.state.round := at_round.trans round
    rw [← here, ← now] at before
    refine Justified.of_before before fun r h cast => ?_
    rw [here] at cast
    obtain ⟨bound, past, _⟩ := session.kept.facts.voted r h cast
    have open_ : r ≠ e.state.round := by
      intro same
      rcases past same with closed | closed <;> rcases phase with at_phase | at_phase <;>
        cases at_phase.symm.trans closed
    have : r ≤ e.state.round := bound
    omega
  exact sent.rest at_work idle

theorem Ready.restart (ready : Ready L n) {chain : Chain} (grown : L.height n.chain ≤ L.height chain) :
    NodeKept L (n.step L k crypto (.restart chain)) := by
  obtain ⟨g, held⟩ := ready.guarded
  refine Ready.rest ⟨ready.outlives, ⟨Guard.init (some g.disk), ?_⟩, ?_, nofun⟩ rfl
  · change n.guard.map _ = _
    rw [held]
    rfl
  · intro height r h cast
    exact (ready.decided height r h cast).trans grown

variable {ev : LoopEvent Chain Block}

theorem Ready.step (ready : Ready L n) (between : n.engine = none) (enabled : n.Enabled L ev) :
    NodeKept L (n.step L k crypto ev) := by
  cases ev with
  | chainMoves =>
    exact Ready.rest ⟨ready.outlives, ready.guarded,
      fun height r h cast => (ready.decided height r h cast).trans enabled, ready.prepared⟩ between
  | receive =>
    exact Ready.rest ⟨ready.outlives, ready.guarded, ready.decided, ready.prepared⟩ between
  | startHeight c => exact ready.startHeight enabled.1 c
  | drain | timeout | handle | rebroadcast =>
    simp only [Node.step, between]
    exact ready.rest between
  | restart => exact ready.restart enabled

theorem Session.step (session : Session L n e) (at_work : n.engine = some e)
    (offers : ∀ arm a, n.action = some (arm, a) → Offers n.journal e a) (enabled : n.Enabled L ev)
    (steady : Steady L n ev) : NodeKept L (n.step L k crypto ev) := by
  unfold Steady at steady
  simp only [at_work] at steady
  cases ev with
  | chainMoves chain =>
    have moved : Session L { n with chain := chain } e := session.frame rfl rfl rfl rfl enabled
    exact moved.follow at_work offers
  | receive message =>
    have queued : Session L { n with inbox := n.inbox ++ admitMessage L crypto n.chain message } e :=
      session.frame rfl rfl rfl rfl le_rfl
    exact queued.follow at_work offers
  | startHeight c =>
    obtain ⟨idle, late, _⟩ := enabled
    unfold Node.needNewRound at late
    rw [at_work] at late
    exact (session.ready (Or.inr (of_decide_eq_true late))).startHeight idle c
  | drain c =>
    cases inbox : n.inbox with
    | nil =>
      simp only [Node.step, at_work, inbox]
      exact session.follow at_work offers
    | cons message rest =>
      have drained : n.step L k crypto (.drain c) = { n with inbox := rest }.drain L c e message := by
        simp only [Node.step, at_work, inbox]
      rw [drained]
      have taken : Session L { n with inbox := rest } e := session.frame rfl rfl rfl rfl le_rfl
      refine taken.drain at_work enabled c message ?_
      rintro p rfl
      simp only [inbox] at steady
      exact steady
  | timeout =>
    simp only [Node.step, at_work]
    exact session.call _ _ nofun nofun
  | handle c =>
    cases action : n.action with
    | none =>
      simp only [Node.step, at_work, action]
      exact session.follow at_work offers
    | some followed =>
      obtain ⟨arm, a⟩ := followed
      simp only [Node.step, at_work, action]
      refine session.handle at_work c arm a (offers arm a action) ?_
      rintro (rfl | rfl) <;> simpa only [action] using steady
  | rebroadcast =>
    cases last : n.lastSigned with
    | none =>
      simp only [Node.step, at_work, last]
      exact session.follow at_work offers
    | some p =>
      have sent : n.step L k crypto .rebroadcast =
          if n.rebroadcasts e p then { n with journal := .proposal p :: n.journal } else n := by
        simp only [Node.step, at_work, last]
      rw [sent]
      split
      · rename_i again
        exact session.rebroadcast at_work enabled again
      · exact session.follow at_work offers
  | restart => exact (session.ready steady).restart enabled

theorem NodeKept.step (kept : NodeKept L n) (enabled : n.Enabled L ev) (steady : Steady L n ev) :
    NodeKept L (n.step L k crypto ev) := by
  unfold NodeKept at kept
  split at kept
  · rename_i e at_work
    exact kept.1.step at_work kept.2 enabled steady
  · rename_i between
    exact kept.step between enabled

theorem NodeKept.outlives (kept : NodeKept L n) : LockOutlives n.journal := by
  unfold NodeKept at kept
  split at kept
  · exact kept.1.outlives
  · exact kept.outlives

theorem boot_kept (L : Ledger Chain Block) (chain : Chain) (file : Option LastSignState) :
    NodeKept L (Node.boot L chain file) := by
  refine Ready.rest ⟨trivial, ⟨_, rfl⟩, ?_, nofun⟩ rfl
  rintro height r h ⟨note, member, _⟩
  cases member

/-- In every steady run a precommit binds the prevotes that follow it. -/
theorem steady_lock_outlives {chain : Chain} {file : Option LastSignState}
    (run : Run (loop L k crypto chain file) (Steady L) n) : LockOutlives n.journal := by
  have kept : NodeKept L n := run.invariant (NodeKept L) (boot_kept L chain file)
    fun _ _ kept enabled steady => kept.step enabled steady
  exact kept.outlives

def twoBlocks : Ledger Nat UInt8 where
  height := id
  stakeRegistry _ := bondedSet ["v0", "v1", "v2", "v3"]
  isActiveAuthority _ _ := false
  bftReady _ := true
  hash block := if block = 1 then "h" else "k"
  encode block := [block]
  decode
    | [block] => some block
    | _ => none
  justify block _ _ := block
  validateBlock _ _ := true
  addBlock chain _ := (chain + 1, true)
  grows chain _ := Nat.le_succ chain

def signatureOf (index : UInt8) : Bytes :=
  index :: List.replicate 64 0

def namedKeys : Recovery where
  recover _ signature := signature.head?.bind fun index => ["v0", "v1", "v2", "v3"][index.toNat]?

def keyOfV2 : Signer where
  address := "v2"
  signPayload _ := signatureOf 2
  hashPayload payload := String.ofList (payload.map fun b => Char.ofNat b.toNat)

def wellConnected : Choices UInt8 where
  persisted := true
  sent := true
  fresh := none
  votes := HashIter.stored
  listing := HashIter.stored
  rounds := HashIter.stored

def blockProposal (round : Nat) (index block : UInt8) (proposer : Address) : BftMessage :=
  let hash := if block = 1 then "h" else "k"
  .propose ⟨4, round, hash, [block], proposer, signatureOf index,
    some ⟨4, round, some hash, proposer, []⟩⟩

def drainAll (messages : List BftMessage) (passes : Nat) : List (LoopEvent Nat UInt8) :=
  messages.map .receive ++
    (List.replicate passes [.drain wellConnected, .handle wellConnected, .handle wellConnected]).flatten

def lockingRound (round : Nat) (index block : UInt8) (proposer other : Address) (by_ : UInt8) :
    List (LoopEvent Nat UInt8) :=
  let hash := if block = 1 then "h" else "k"
  drainAll [blockProposal round index block proposer,
    .prevote ⟨4, round, some hash, other, signatureOf by_⟩] 3

def roundTimeout : List (LoopEvent Nat UInt8) :=
  [.timeout, .handle wellConnected, .handle wellConnected]

def downAgain (chain : Nat) : List (LoopEvent Nat UInt8) :=
  [.restart chain, .startHeight wellConnected]

/-- `v2` locks on `k`, prevotes it again in the next round and goes down with its lock once
the chain is past the height. -/
def steadyEvents : List (LoopEvent Nat UInt8) :=
  .startHeight wellConnected :: (roundTimeout ++ downAgain 3 ++ lockingRound 1 1 2 "v1" "v0" 0 ++
    roundTimeout ++ .chainMoves 4 :: downAgain 4)

theorem steady_lock_outlives_restart : ∃ n, Run (loop twoBlocks keyOfV2 namedKeys 3 none)
    (Steady twoBlocks) n ∧ LockOutlives n.journal := by
  have run : Run (loop twoBlocks keyOfV2 namedKeys 3 none) (Steady twoBlocks) _ :=
    Run.start.replay steadyEvents (by decide +kernel)
  exact ⟨_, run, steady_lock_outlives run⟩

/-- `v2` precommits `h` in round 0, goes down, comes back in round 1 without its
lock and prevotes `k`. -/
def forgottenLock : List (LoopEvent Nat UInt8) :=
  .startHeight wellConnected :: (lockingRound 0 0 1 "v0" "v1" 1 ++ downAgain 3 ++
    drainAll [blockProposal 1 1 2 "v1"] 2)

theorem restart_forgets_lock : ∃ n, Run (loop twoBlocks keyOfV2 namedKeys 3 none)
    (fun _ _ => True) n ∧ ¬ LockOutlives n.journal :=
  ⟨_, Run.start.replay forgottenLock (by decide +kernel), by decide +kernel⟩

end SentrixLoop
