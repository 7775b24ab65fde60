import Sentrix.Bft.SafeEngine

/-!
One step of an honest engine inside a run, as the record of votes sees it. A `Turn`
pairs the change of the engine with the votes that leave the node.
-/
namespace SentrixNetwork
open MachineWords HashTable SentrixPrimitives SentrixMessages SentrixStaking SentrixEngine List
variable {S : Setup} {n n' : Network} {v : Address} {e e' : BftEngine}

/-- A step of an honest engine as the record sees it: the change of the engine
and the votes that leave the node with it. -/
inductive Turn (S : Setup) (e : BftEngine) (call : EngineCall) (e' : BftEngine)
    (prevotes : List Prevote) (precommits : List Precommit) : Prop where
  | idle (core : e'.core = e.core) (settles : Settles e e')
      (again : ∀ p ∈ prevotes, e.pendingPrevote = some p)
      (againPrecommit : ∀ p ∈ precommits, e.pendingPrecommit = some p)
  | advanced (steps : Nat) (fits : e.state.round + steps + 1 ≤ u32Max)
      (core : e'.core = { e.core.advance with round := e.state.round + steps + 1 })
      (noPrevote : e'.pendingPrevote = none) (noPrecommit : e'.pendingPrecommit = none)
      (silent : prevotes = []) (silentPrecommit : precommits = [])
  | prevoted (vote : Option Hash) (start : e.state.phase = .propose)
      (unlocked : ∀ h, vote = some h → e.state.lockedHash = none ∨ e.state.lockedHash = some h)
      (core : e'.core = e.core.enter .prevote)
      (pending : e'.pendingPrevote = e.pendingPrevote ∨
        e'.pendingPrevote = some (e.ownPrevote vote) ∧ e.ownPrevote vote ∈ prevotes)
      (kept : e'.pendingPrecommit = e.pendingPrecommit)
      (own : ∀ p ∈ prevotes, p = e.ownPrevote vote) (silent : precommits = [])
  | relaxed (h : Hash) (start : e.state.phase = .propose)
      (source : e.accepts S.reg call = some h) (stale : e.staleLock h)
      (core : e'.core = (e.core.enter .prevote).unlock)
      (pending : e'.pendingPrevote = e.pendingPrevote ∨
        e'.pendingPrevote = some (e.ownPrevote (some h)) ∧ e.ownPrevote (some h) ∈ prevotes)
      (kept : e'.pendingPrecommit = e.pendingPrecommit)
      (own : ∀ p ∈ prevotes, p = e.ownPrevote (some h)) (silent : precommits = [])
  | counted (order : HashIter (Option Hash × Nat)) (p : Prevote) (source : call = .prevote order p)
      (height : p.height = e.state.height) (round : p.round = e.state.round)
      (fresh : e.state.prevotes.lookup p.validator = none)
      (core : e'.core = e.core.countPrevote p (S.reg.voteStake p.validator))
      (settles : Settles e e') (silent : prevotes = []) (silentPrecommit : precommits = [])
  | locked (order : HashIter (Option Hash × Nat)) (p : Prevote) (hash : Option Hash)
      (source : call = .prevote order p)
      (height : p.height = e.state.height) (round : p.round = e.state.round)
      (fresh : e.state.prevotes.lookup p.validator = none) (start : e.state.phase = .prevote)
      (quorum : (e.core.countPrevote p (S.reg.voteStake p.validator)).collector.prevoteSupermajority
        order e.state.totalActiveStake = some hash)
      (core : e'.core = (e.core.countPrevote p (S.reg.voteStake p.validator)).toPrecommit hash)
      (kept : e'.pendingPrevote = e.pendingPrevote ∨ e'.pendingPrevote = none)
      (pending : e'.pendingPrecommit = e.pendingPrecommit ∨
        e'.pendingPrecommit = some (e.ownPrecommit hash) ∧ e.ownPrecommit hash ∈ precommits)
      (silent : prevotes = []) (own : ∀ q ∈ precommits, q = e.ownPrecommit hash)
  | gaveUp (start : e.state.phase = .prevote) (core : e'.core = e.core.toPrecommit none)
      (kept : e'.pendingPrevote = e.pendingPrevote ∨ e'.pendingPrevote = none)
      (pending : e'.pendingPrecommit = e.pendingPrecommit ∨
        e'.pendingPrecommit = some (e.ownPrecommit none) ∧ e.ownPrecommit none ∈ precommits)
      (silent : prevotes = []) (own : ∀ q ∈ precommits, q = e.ownPrecommit none)
  | countedPrecommit (order : HashIter (Option Hash × Nat))
      (listing : HashIter (Address × Option Hash × Bytes × Nat)) (p : Precommit)
      (phase : BftPhase) (source : call = .precommit order listing p)
      (height : p.height = e.state.height) (round : p.round = e.state.round)
      (fresh : e.state.precommits.lookup p.validator = none)
      (later : phase = e.state.phase ∨ phase = .finalize)
      (core : e'.core = (e.core.countPrecommit p (S.reg.voteStake p.validator)).enter phase)
      (settles : Settles e e') (silent : prevotes = []) (silentPrecommit : precommits = [])

theorem silent_sends {action : BftAction} (quiet : action.silent) :
    sentPrevotes action = [] ∧ sentPrecommits action = [] := by
  cases action <;> first | exact ⟨rfl, rfl⟩ | cases quiet

theorem embedded_nil {call : EngineCall} (other : ∀ h, call ≠ .ownProposal h) :
    embeddedPrevotes e call = [] := by
  cases call with
  | ownProposal h => exact absurd rfl (other h)
  | _ => rfl

theorem accepts_own {reg : StakeRegistry} {call : EngineCall} {h g : Hash}
    (accepted : e.accepts reg call = some h) (own : call = .ownProposal g) : g = h := by
  subst own
  simp only [BftEngine.accepts] at accepted
  split at accepted
  · exact Option.some.inj accepted
  · cases accepted

theorem sends_own {call : EngineCall} {action : BftAction} {vote : Option Hash}
    (sends : SendsPrevote e e' action vote) (own : ∀ h, call = .ownProposal h → vote = some h) :
    ∀ p ∈ sentPrevotes action ++ embeddedPrevotes e call, p = e.ownPrevote vote := by
  intro p member
  rcases List.mem_append.mp member with sent | embedded
  · rcases sends.sent with ⟨rfl, _⟩ | ⟨rfl, _⟩
    · cases sent
    · exact List.mem_singleton.mp sent
  · cases call with
    | ownProposal h =>
      rw [own h rfl]
      exact List.mem_singleton.mp embedded
    | _ => cases embedded

theorem turn_of_move {call : EngineCall} {action : BftAction}
    (move : Move S.reg e call e' action)
    (past : VotesPast S n v e)
    (turn : ∀ h, call = .ownProposal h → e.state.phase = .propose)
    (room : call = .advanceRound → e.state.round < u32Max)
    (consistent : ∀ h, call = .ownProposal h → e.voteFor h = some h ∨ e.staleLock h) :
    Turn S e call e' (sentPrevotes action ++ embeddedPrevotes e call) (sentPrecommits action) := by
  cases move with
  | still core settles quiet late =>
    have none_own : ∀ h, call ≠ .ownProposal h := fun h own => late h own (turn h own)
    have none_sent := silent_sends quiet
    rw [none_sent.1, none_sent.2, embedded_nil none_own]
    exact .idle core settles (by simp) (by simp)
  | repeatPrevote same pending =>
    rename_i p
    subst same
    have voted := past.pendingPrevote p pending
    have left : e'.state.phase ≠ .propose := (past.prevote p voted.1 voted.2.1).2.2 voted.2.2
    rw [embedded_nil fun h own => left (turn h own)]
    refine .idle rfl (Settles.refl e') ?_ (by simp [sentPrecommits])
    intro q member
    rw [append_nil] at member
    rw [List.mem_singleton.mp member]
    exact pending
  | repeatPrecommit same pending =>
    rename_i p
    subst same
    have voted := past.pendingPrecommit p pending
    have left : e'.state.phase ≠ .propose := by
      intro back
      rcases (past.precommit p voted.1 voted.2.1).2.2 voted.2.2 with h | h <;> rw [back] at h <;>
        cases h
    rw [embedded_nil fun h own => left (turn h own)]
    refine .idle rfl (Settles.refl e') (by simp [sentPrevotes]) ?_
    intro q member
    rw [List.mem_singleton.mp member]
    exact pending
  | advanced steps core reach other noPrevote noPrecommit =>
    have fits : e.state.round + steps + 1 ≤ u32Max := by
      rcases reach with ⟨plain, single⟩ | bound
      · have := room plain
        omega
      · exact bound
    rw [embedded_nil other]
    exact .advanced steps fits (core.trans (Core.iterate_advance e.core steps fits)) noPrevote
      noPrecommit rfl rfl
  | prevoted vote start source core sends =>
    have own : ∀ h, call = .ownProposal h → vote = some h := by
      intro h called
      rcases source with ⟨timeout, _⟩ | ⟨g, accepted, kept, votes⟩
      · rw [timeout] at called
        cases called
      · rw [votes, ← accepts_own accepted called]
        rcases consistent h called with agreed | stale
        · exact agreed
        · rw [accepts_own accepted called, kept] at stale
          cases stale
    have unlocked : ∀ h, vote = some h →
        e.state.lockedHash = none ∨ e.state.lockedHash = some h := by
      intro h named
      rcases source with ⟨_, nil⟩ | ⟨g, _, _, votes⟩
      · rw [nil] at named
        cases named
      · exact (BftEngine.voteFor_unlocked (votes.symm.trans named)).2
    have silent : sentPrecommits action = [] := by
      rcases sends.sent with ⟨rfl, _⟩ | ⟨rfl, _⟩ <;> rfl
    refine .prevoted vote start unlocked core ?_ sends.precommit (sends_own sends own) silent
    rcases sends.sent with ⟨_, kept⟩ | ⟨rfl, held⟩
    · exact Or.inl kept
    · exact Or.inr ⟨held, by simp [sentPrevotes]⟩
  | relaxed h start source stale core sends =>
    have own : ∀ g, call = .ownProposal g → some h = some g := by
      intro g called
      rw [accepts_own source called]
    have silent : sentPrecommits action = [] := by
      rcases sends.sent with ⟨rfl, _⟩ | ⟨rfl, _⟩ <;> rfl
    refine .relaxed h start source stale core ?_ sends.precommit (sends_own sends own) silent
    rcases sends.sent with ⟨_, kept⟩ | ⟨rfl, held⟩
    · exact Or.inl kept
    · exact Or.inr ⟨held, by simp [sentPrevotes]⟩
  | counted order p source height round fresh core settles =>
    rw [embedded_nil (by rw [source]; exact nofun)]
    exact .counted order p source height round fresh core settles rfl rfl
  | locked order p hash source height round fresh start quorum core sends =>
    rw [embedded_nil (by rw [source]; exact nofun), append_nil]
    rcases sends.sent with ⟨rfl, kept⟩ | ⟨rfl, held⟩
    · exact .locked order p hash source height round fresh start quorum core sends.prevote
        (Or.inl kept) rfl (by simp [sentPrecommits])
    · exact .locked order p hash source height round fresh start quorum core sends.prevote
        (Or.inr ⟨held, by simp [sentPrecommits]⟩) rfl (by simp [sentPrecommits])
  | gaveUp source start core sends =>
    rw [embedded_nil (by rw [source]; exact nofun), append_nil]
    rcases sends.sent with ⟨rfl, kept⟩ | ⟨rfl, held⟩
    · exact .gaveUp start core sends.prevote (Or.inl kept) rfl (by simp [sentPrecommits])
    · exact .gaveUp start core sends.prevote (Or.inr ⟨held, by simp [sentPrecommits]⟩) rfl
        (by simp [sentPrecommits])
  | countedPrecommit order listing p source height round fresh core settles quiet =>
    have none_sent := silent_sends quiet
    rw [none_sent.1, none_sent.2, embedded_nil (by rw [source]; exact nofun)]
    exact .countedPrecommit order listing p e.state.phase source height round fresh (Or.inl rfl)
      core settles rfl rfl
  | finalized order listing p _ source height round fresh _ core settles =>
    rw [embedded_nil (by rw [source]; exact nofun)]
    exact .countedPrecommit order listing p .finalize source height round fresh (Or.inr rfl)
      core settles rfl rfl

section
variable {call : EngineCall} {prevotes : List Prevote} {precommits : List Precommit}

theorem Placed.turn (placed : Placed S v e.core) (turn : Turn S e call e' prevotes precommits) :
    Placed S v e'.core := by
  cases turn with
  | idle core => rw [core]; exact placed
  | advanced _ fits core => rw [core]; exact ⟨placed.1, placed.2, placed.3, fits⟩
  | prevoted _ _ _ core | relaxed _ _ _ _ core | counted _ _ _ _ _ _ core =>
    rw [core]; exact ⟨placed.1, placed.2, placed.3, placed.4⟩
  | locked _ _ hash _ _ _ _ _ _ core =>
    rw [core]
    cases hash <;> exact ⟨placed.1, placed.2, placed.3, placed.4⟩
  | gaveUp _ core => rw [core]; exact ⟨placed.1, placed.2, placed.3, placed.4⟩
  | countedPrecommit _ _ _ _ _ _ _ _ _ core =>
    rw [core]; exact ⟨placed.1, placed.2, placed.3, placed.4⟩

structure Later (e e' : BftEngine) : Prop where
  round : e.state.round ≤ e'.state.round
  started : e'.state.round = e.state.round → e.state.phase ≠ .propose → e'.state.phase ≠ .propose
  precommitted : e'.state.round = e.state.round → PastPrecommitting e.state.phase →
    PastPrecommitting e'.state.phase

theorem Later.of_core (phase : BftPhase) (round : e'.core.round = e.core.round)
    (now : e'.core.phase = phase) (started : e.state.phase ≠ .propose → phase ≠ .propose)
    (precommitted : PastPrecommitting e.state.phase → PastPrecommitting phase) : Later e e' where
  round := Nat.le_of_eq round.symm
  started _ := by
    change _ → e'.core.phase ≠ _
    rw [now]
    exact started
  precommitted _ := by
    change _ → PastPrecommitting e'.core.phase
    rw [now]
    exact precommitted

theorem not_past_propose {phase : BftPhase} (start : phase = .propose) :
    ¬ PastPrecommitting phase := by
  rintro (h | h) <;> rw [start] at h <;> cases h

theorem not_past_prevote {phase : BftPhase} (start : phase = .prevote) :
    ¬ PastPrecommitting phase := by
  rintro (h | h) <;> rw [start] at h <;> cases h

theorem toPrecommit_round (c : Core) (hash : Option Hash) : (c.toPrecommit hash).round = c.round := by
  cases hash <;> rfl

theorem toPrecommit_phase (c : Core) (hash : Option Hash) :
    (c.toPrecommit hash).phase = .precommit := by
  cases hash <;> rfl

theorem Later.turn (turn : Turn S e call e' prevotes precommits) : Later e e' := by
  cases turn with
  | idle core => exact .of_core e.state.phase (by rw [core]) (by rw [core]; rfl) id id
  | advanced steps _ core =>
    have round : e'.state.round = e.state.round + steps + 1 := congrArg Core.round core
    exact ⟨by omega, fun same => by omega, fun same => by omega⟩
  | prevoted _ start _ core | relaxed _ start _ _ core =>
    exact .of_core .prevote (by rw [core]; rfl) (by rw [core]; rfl) (by simp)
      (fun past => absurd past (not_past_propose start))
  | counted _ _ _ _ _ _ core =>
    exact .of_core e.state.phase (by rw [core]; rfl) (by rw [core]; rfl) id id
  | locked _ _ _ _ _ _ _ start _ core =>
    exact .of_core .precommit (by rw [core, toPrecommit_round]; rfl)
      (by rw [core, toPrecommit_phase]) (by simp) (fun past => absurd past (not_past_prevote start))
  | gaveUp start core =>
    exact .of_core .precommit (by rw [core, toPrecommit_round]) (by rw [core, toPrecommit_phase])
      (by simp) (fun past => absurd past (not_past_prevote start))
  | countedPrecommit _ _ _ phase _ _ _ _ later core =>
    refine .of_core phase (by rw [core]; rfl) (by rw [core]; rfl) ?_ ?_
    · rcases later with same | final
      · rw [same]; exact id
      · rw [final]; simp
    · rcases later with same | final
      · rw [same]; exact id
      · exact fun _ => Or.inr final

theorem Turn.precommits_from (turn : Turn S e call e' prevotes precommits) :
    ∀ p ∈ precommits, e.pendingPrecommit = some p ∨
      e.state.phase = .prevote ∧ e'.state.phase = .precommit ∧ e'.state.round = e.state.round ∧
        ∃ vote, p = e.ownPrecommit vote := by
  intro p member
  cases turn with
  | idle _ _ _ againPrecommit => exact Or.inl (againPrecommit p member)
  | locked _ _ hash _ _ round _ start _ core _ _ _ own =>
    refine Or.inr ⟨start, ?_, ?_, hash, own p member⟩
    · exact (congrArg Core.phase core).trans (toPrecommit_phase _ hash)
    · exact (congrArg Core.round core).trans (toPrecommit_round _ hash)
  | gaveUp start core _ _ _ own =>
    refine Or.inr ⟨start, ?_, ?_, none, own p member⟩
    · exact (congrArg Core.phase core).trans (toPrecommit_phase _ none)
    · exact (congrArg Core.round core).trans (toPrecommit_round _ none)
  | advanced _ _ _ _ _ _ silentPrecommit => rw [silentPrecommit] at member; cases member
  | prevoted _ _ _ _ _ _ _ silent => rw [silent] at member; cases member
  | relaxed _ _ _ _ _ _ _ _ silent => rw [silent] at member; cases member
  | counted _ _ _ _ _ _ _ _ _ silentPrecommit => rw [silentPrecommit] at member; cases member
  | countedPrecommit _ _ _ _ _ _ _ _ _ _ _ _ silentPrecommit => rw [silentPrecommit] at member; cases member

theorem Turn.prevotes_from (turn : Turn S e call e' prevotes precommits) :
    (∀ p ∈ prevotes, e.pendingPrevote = some p) ∨
      e.state.phase = .propose ∧ e'.state.phase = .prevote ∧ e'.state.round = e.state.round ∧
        ∃ vote, ∀ p ∈ prevotes, p = e.ownPrevote vote := by
  cases turn with
  | idle _ _ again => exact Or.inl again
  | prevoted vote start _ core _ _ own =>
    exact Or.inr ⟨start, congrArg Core.phase core, congrArg Core.round core, vote, own⟩
  | relaxed h start _ _ core _ _ own =>
    exact Or.inr ⟨start, congrArg Core.phase core, congrArg Core.round core, some h, own⟩
  | advanced _ _ _ _ _ silent => rw [silent]; exact Or.inl nofun
  | counted _ _ _ _ _ _ _ _ silent => rw [silent]; exact Or.inl nofun
  | locked _ _ _ _ _ _ _ _ _ _ _ _ silent => rw [silent]; exact Or.inl nofun
  | gaveUp _ _ _ _ silent => rw [silent]; exact Or.inl nofun
  | countedPrecommit _ _ _ _ _ _ _ _ _ _ _ silent => rw [silent]; exact Or.inl nofun

theorem kept_or_sent {Vote : Type} {own p : Vote} {before now : Option Vote} {sent : List Vote}
    (sends : now = before ∨ now = some own ∧ own ∈ sent) (pending : now = some p) :
    before = some p ∨ p ∈ sent ∧ p = own := by
  rcases sends with same | ⟨fresh, member⟩
  · exact Or.inl (same.symm.trans pending)
  · cases fresh.symm.trans pending
    exact Or.inr ⟨member, rfl⟩

theorem Turn.pendingPrevote (turn : Turn S e call e' prevotes precommits) {p : Prevote}
    (pending : e'.pendingPrevote = some p) :
    e'.state.round = e.state.round ∧
      (e.pendingPrevote = some p ∨ p ∈ prevotes ∧ ∃ vote, p = e.ownPrevote vote) := by
  cases turn with
  | idle core settles => exact ⟨congrArg Core.round core, Or.inl (settles.pendingPrevote pending)⟩
  | advanced _ _ _ noPrevote => rw [noPrevote] at pending; cases pending
  | prevoted vote _ _ core sent =>
    refine ⟨congrArg Core.round core, ?_⟩
    exact (kept_or_sent sent pending).imp_right fun both => ⟨both.1, vote, both.2⟩
  | relaxed h _ _ _ core sent =>
    refine ⟨congrArg Core.round core, ?_⟩
    exact (kept_or_sent sent pending).imp_right fun both => ⟨both.1, some h, both.2⟩
  | counted _ _ _ _ round _ core settles =>
    exact ⟨congrArg Core.round core, Or.inl (settles.pendingPrevote pending)⟩
  | locked _ _ hash _ _ round _ _ _ core kept =>
    refine ⟨(congrArg Core.round core).trans (toPrecommit_round _ hash), Or.inl ?_⟩
    rcases kept with same | gone
    · exact same.symm.trans pending
    · rw [gone] at pending; cases pending
  | gaveUp _ core kept =>
    refine ⟨congrArg Core.round core, Or.inl ?_⟩
    rcases kept with same | gone
    · exact same.symm.trans pending
    · rw [gone] at pending; cases pending
  | countedPrecommit _ _ _ _ _ _ round _ _ core settles =>
    exact ⟨congrArg Core.round core, Or.inl (settles.pendingPrevote pending)⟩

theorem Turn.pendingPrecommit (turn : Turn S e call e' prevotes precommits) {p : Precommit}
    (pending : e'.pendingPrecommit = some p) :
    e'.state.round = e.state.round ∧
      (e.pendingPrecommit = some p ∨ p ∈ precommits ∧ ∃ vote, p = e.ownPrecommit vote) := by
  cases turn with
  | idle core settles => exact ⟨congrArg Core.round core, Or.inl (settles.pendingPrecommit pending)⟩
  | advanced _ _ _ _ noPrecommit => rw [noPrecommit] at pending; cases pending
  | prevoted _ _ _ core _ kept => exact ⟨congrArg Core.round core, Or.inl (kept.symm.trans pending)⟩
  | relaxed _ _ _ _ core _ kept =>
    exact ⟨congrArg Core.round core, Or.inl (kept.symm.trans pending)⟩
  | counted _ _ _ _ round _ core settles =>
    exact ⟨congrArg Core.round core, Or.inl (settles.pendingPrecommit pending)⟩
  | locked _ _ hash _ _ round fresh _ _ core _ sent =>
    refine ⟨(congrArg Core.round core).trans (toPrecommit_round _ hash), ?_⟩
    exact (kept_or_sent sent pending).imp_right fun both => ⟨both.1, hash, both.2⟩
  | gaveUp _ core _ sent =>
    refine ⟨congrArg Core.round core, ?_⟩
    exact (kept_or_sent sent pending).imp_right fun both => ⟨both.1, none, both.2⟩
  | countedPrecommit _ _ _ _ _ _ round _ _ core settles =>
    exact ⟨congrArg Core.round core, Or.inl (settles.pendingPrecommit pending)⟩

theorem mayPrecommit_of_later (later : Later e e') {round : Nat} (may : MayPrecommit e' round) :
    MayPrecommit e round := by
  have grown := later.round
  rcases may with ahead | ⟨now, early⟩
  · exact Or.inl (by omega)
  · rcases Nat.lt_or_eq_of_le grown with less | same
    · exact Or.inl (by omega)
    · refine Or.inr ⟨same.trans now, ?_⟩
      by_contra passed
      have done : PastPrecommitting e.state.phase := by
        unfold PastPrecommitting
        cases phase : e.state.phase <;> simp_all
      rcases later.precommitted same.symm done with h | h <;> rw [h] at early <;> simp at early

structure Recorded (n n' : Network) (prevotes : List Prevote) (precommits : List Precommit) :
    Prop where
  prevotes : n'.prevotes = prevotes ++ n.prevotes
  precommits : n'.precommits = precommits ++ n.precommits

variable (recorded : Recorded n n' prevotes precommits)
include recorded

theorem Recorded.prevote (past : VotesPast S n v e) (turn : Turn S e call e' prevotes precommits) :
    (∀ p ∈ n'.prevotes, p ∈ n.prevotes) ∨
      e.state.phase = .propose ∧ e'.state.phase = .prevote ∧ e'.state.round = e.state.round ∧
        ∃ vote, ∀ p ∈ n'.prevotes, p ∈ n.prevotes ∨ p = e.ownPrevote vote := by
  rw [recorded.prevotes]
  rcases turn.prevotes_from with again | ⟨start, now, round, vote, own⟩
  · left
    intro p member
    rcases List.mem_append.mp member with fresh | old
    · exact (past.pendingPrevote p (again p fresh)).1
    · exact old
  · refine Or.inr ⟨start, now, round, vote, ?_⟩
    intro p member
    rcases List.mem_append.mp member with fresh | old
    · exact Or.inr (own p fresh)
    · exact Or.inl old

theorem Recorded.precommit (past : VotesPast S n v e)
    (turn : Turn S e call e' prevotes precommits) :
    ∀ p ∈ n'.precommits, p ∈ n.precommits ∨
      e.state.phase = .prevote ∧ e'.state.phase = .precommit ∧ e'.state.round = e.state.round ∧
        ∃ vote, p = e.ownPrecommit vote := by
  rw [recorded.precommits]
  intro p member
  rcases List.mem_append.mp member with fresh | old
  · rcases turn.precommits_from p fresh with again | new
    · exact Or.inl (past.pendingPrecommit p again).1
    · exact Or.inr new
  · exact Or.inl old

theorem VotesPast.turn (past : VotesPast S n v e) (placed : Placed S v e.core)
    (turn : Turn S e call e' prevotes precommits) : VotesPast S n' v e' := by
  have later := Later.turn turn
  have oldPrevote : ∀ p ∈ n.prevotes, p.validator = v → p.height = S.height ∧
      p.round ≤ e'.state.round ∧ (p.round = e'.state.round → e'.state.phase ≠ .propose) := by
    intro p member name
    obtain ⟨height, bound, phase⟩ := past.prevote p member name
    have grown := later.round
    exact ⟨height, by omega, fun now => later.started (by omega) (phase (by omega))⟩
  have oldPrecommit : ∀ p ∈ n.precommits, p.validator = v → p.height = S.height ∧
      p.round ≤ e'.state.round ∧ (p.round = e'.state.round → PastPrecommitting e'.state.phase) := by
    intro p member name
    obtain ⟨height, bound, phase⟩ := past.precommit p member name
    have grown := later.round
    exact ⟨height, by omega, fun now => later.precommitted (by omega) (phase (by omega))⟩
  refine ⟨?_, ?_, ?_, ?_, ?_⟩
  · intro p pending
    obtain ⟨round, source⟩ := turn.pendingPrevote pending
    rw [recorded.prevotes, round]
    rcases source with old | ⟨member, vote, rfl⟩
    · obtain ⟨member, name, facts⟩ := past.pendingPrevote p old
      exact ⟨mem_append_right _ member, name, facts⟩
    · exact ⟨mem_append_left _ member, placed.address, rfl⟩
  · intro p member name
    rcases recorded.prevote past turn with old | ⟨start, now, round, vote, new⟩
    · exact oldPrevote p (old p member) name
    · rcases new p member with old | rfl
      · exact oldPrevote p old name
      · exact ⟨placed.height, Nat.le_of_eq round.symm, fun _ => by simp [now]⟩
  · intro p hp q hq pName qName same
    rcases recorded.prevote past turn with old | ⟨start, now, round, vote, new⟩
    · exact past.prevoteOnce p (old p hp) q (old q hq) pName qName same
    · rcases new p hp with oldP | rfl <;> rcases new q hq with oldQ | rfl
      · exact past.prevoteOnce p oldP q oldQ pName qName same
      · exact absurd start ((past.prevote p oldP pName).2.2 same)
      · exact absurd start ((past.prevote q oldQ qName).2.2 same.symm)
      · rfl
  · intro p pending
    obtain ⟨round, source⟩ := turn.pendingPrecommit pending
    rw [recorded.precommits, round]
    rcases source with old | ⟨member, vote, rfl⟩
    · obtain ⟨member, name, facts⟩ := past.pendingPrecommit p old
      exact ⟨mem_append_right _ member, name, facts⟩
    · exact ⟨mem_append_left _ member, placed.address, rfl⟩
  · intro p member name
    rcases recorded.precommit past turn p member with old | ⟨start, now, round, vote, rfl⟩
    · exact oldPrecommit p old name
    · exact ⟨placed.height, Nat.le_of_eq round.symm, fun _ => Or.inl now⟩

theorem VotesPlaced.turn (all : VotesPlaced S n) (past : VotesPast S n v e)
    (placed : Placed S v e.core) (turn : Turn S e call e' prevotes precommits) :
    VotesPlaced S n' := by
  refine ⟨?_, ?_⟩
  · intro p member
    rcases recorded.prevote past turn with old | ⟨_, _, _, vote, new⟩
    · exact all.prevote p (old p member)
    · rcases new p member with old | rfl
      · exact all.prevote p old
      · exact ⟨placed.height, placed.word⟩
  · intro p member
    rcases recorded.precommit past turn p member with old | ⟨_, _, _, vote, rfl⟩
    · exact all.precommit p old
    · exact ⟨placed.height, placed.word⟩

theorem Grows.turn (past : VotesPast S n v e) (placed : Placed S v e.core)
    (turn : Turn S e call e' prevotes precommits) (was : n.engines v = e)
    (now : n'.engines = Function.update n.engines v e') : Grows S n n' v := by
  have newPrecommits : ∀ p ∈ n'.precommits, p ∈ n.precommits ∨ p.validator = v := by
    intro p member
    rcases recorded.precommit past turn p member with old | ⟨_, _, _, vote, rfl⟩
    · exact Or.inl old
    · exact Or.inr placed.address
  refine ⟨?_, ?_, ?_, newPrecommits, ?_⟩
  · intro p member
    rw [recorded.prevotes]
    exact mem_append_right _ member
  · intro p member
    rcases recorded.prevote past turn with old | ⟨_, _, _, vote, new⟩
    · exact Or.inl (old p member)
    · rcases new p member with old | rfl
      · exact Or.inl old
      · exact Or.inr placed.address
  · intro p member
    rw [recorded.precommits]
    exact mem_append_right _ member
  · intro r h alive
    refine alive.mono fun u _ => Or.imp_right fun chance => ?_
    by_cases self : u = v
    · subst self
      rw [now, Function.update_self] at chance
      rw [was]
      rcases chance with ⟨p, member, name, round, named⟩ | may
      · rcases recorded.precommit past turn p member with old | ⟨start, _, _, vote, rfl⟩
        · exact Or.inl ⟨p, old, name, round, named⟩
        · exact Or.inr (Or.inr ⟨round, Or.inr start⟩)
      · exact Or.inr (mayPrecommit_of_later (Later.turn turn) may)
    · rw [now, Function.update_of_ne self] at chance
      refine chance.imp_left ?_
      rintro ⟨p, member, name, facts⟩
      rcases newPrecommits p member with old | fresh
      · exact ⟨p, old, name, facts⟩
      · exact absurd (name.symm.trans fresh) self

end

structure Admitted (S : Setup) (n : Network) (call : EngineCall) : Prop where
  prevote : ∀ order p, call = .prevote order p →
    p.validator ∈ S.reg.activeSet ∧ p.blockHash ≠ some "NIL" ∧
      (S.byzantine p.validator ∨
        ∃ q ∈ n.prevotes, q.validator = p.validator ∧ q.payload = p.payload)
  precommit : ∀ order listing p, call = .precommit order listing p →
    p.validator ∈ S.reg.activeSet ∧ p.blockHash ≠ some "NIL" ∧
      (S.byzantine p.validator ∨
        ∃ q ∈ n.precommits, q.validator = p.validator ∧ q.payload = p.payload)

theorem VotesCounted.prevotesFromMembers {c : Core} (counted : VotesCounted S n c) :
    FromMembers S.reg Prod.snd c.prevotes := by
  rintro u ⟨vote, weight⟩ recorded
  obtain ⟨member, stake, _⟩ := counted.prevote u vote weight recorded
  exact ⟨member, stake⟩

theorem VotesCounted.precommitsFromMembers {c : Core} (counted : VotesCounted S n c) :
    FromMembers S.reg (fun x : Option Hash × Bytes × Nat => x.2.2) c.precommits := by
  rintro u ⟨vote, signature, weight⟩ recorded
  obtain ⟨member, stake, _⟩ := counted.precommit u vote signature weight recorded
  exact ⟨member, stake⟩

theorem FromMembers.room {ν : Type} {vote : ν → Option Hash} {stake : ν → Nat}
    {votes : Table Address ν} (members : FromMembers S.reg stake votes) {u : Address} {x : ν}
    (fresh : votes.lookup u = none) (member : u ∈ S.reg.activeSet)
    (weight : stake x = S.reg.voteStake u) :
    sumOf (weightFor vote stake (vote x)) votes + stake x ≤ u64Max := by
  have bound := (members.insert member weight).sum_le_total vote (vote x)
  rw [sumOf_insert_absent _ _ fresh, committee_total] at bound
  have fits := S.fits
  simp only [weightFor, if_pos] at bound
  omega

theorem VotesCounted.countPrevote {c : Core} (counted : VotesCounted S n c)
    (all : VotesPlaced S n) (placed : Placed S v c) {p : Prevote} (height : p.height = c.height)
    (round : p.round = c.round) (fresh : c.prevotes.lookup p.validator = none)
    (member : p.validator ∈ S.reg.activeSet) (spelled : p.blockHash ≠ some "NIL")
    (authentic : S.byzantine p.validator ∨
      ∃ q ∈ n.prevotes, q.validator = p.validator ∧ q.payload = p.payload) :
    VotesCounted S n (c.countPrevote p (S.reg.voteStake p.validator)) where
  prevote u vote weight recorded := by
    change (c.prevotes.insert p.validator _).lookup u = _ at recorded
    by_cases same : u = p.validator
    · subst same
      rw [AList.lookup_insert] at recorded
      cases recorded
      refine ⟨member, rfl, fun h named => ?_⟩
      change S.faulty _ ∨ n.Prevoted _ c.round h
      rw [← round]
      exact all.prevoted (height.trans placed.height) (round ▸ placed.word) named spelled authentic
    · rw [AList.lookup_insert_ne same] at recorded
      exact counted.prevote u vote weight recorded
  precommit := counted.precommit
  counts := counted.counts.countPrevote fresh
    (counted.prevotesFromMembers.room (x := (p.blockHash, S.reg.voteStake p.validator)) fresh
      member rfl)

theorem VotesCounted.countPrecommit {c : Core} (counted : VotesCounted S n c)
    (all : VotesPlaced S n) (placed : Placed S v c) {p : Precommit} (height : p.height = c.height)
    (round : p.round = c.round) (fresh : c.precommits.lookup p.validator = none)
    (member : p.validator ∈ S.reg.activeSet) (spelled : p.blockHash ≠ some "NIL")
    (authentic : S.byzantine p.validator ∨
      ∃ q ∈ n.precommits, q.validator = p.validator ∧ q.payload = p.payload) :
    VotesCounted S n (c.countPrecommit p (S.reg.voteStake p.validator)) where
  prevote := counted.prevote
  precommit u vote signature weight recorded := by
    change (c.precommits.insert p.validator _).lookup u = _ at recorded
    by_cases same : u = p.validator
    · subst same
      rw [AList.lookup_insert] at recorded
      cases recorded
      refine ⟨member, rfl, fun h named => ?_⟩
      change S.faulty _ ∨ n.Precommitted _ c.round h
      rw [← round]
      exact all.precommitted (height.trans placed.height) (round ▸ placed.word) named spelled
        authentic
    · rw [AList.lookup_insert_ne same] at recorded
      exact counted.precommit u vote signature weight recorded
  counts := counted.counts.countPrecommit fresh
    (counted.precommitsFromMembers.room
      (x := (p.blockHash, p.signature, S.reg.voteStake p.validator)) fresh member rfl)

theorem VotesCounted.of_tables {c c' : Core} (counted : VotesCounted S n c)
    (round : c'.round = c.round) (prevotes : c'.prevotes = c.prevotes)
    (precommits : c'.precommits = c.precommits) (collector : c'.collector = c.collector) :
    VotesCounted S n c' := by
  refine ⟨?_, ?_, ?_⟩
  · rw [prevotes, round]
    exact counted.prevote
  · rw [precommits, round]
    exact counted.precommit
  · refine ⟨?_, ?_⟩
    · rw [prevotes, collector]
      exact counted.counts.prevotes
    · rw [precommits, collector]
      exact counted.counts.precommits

theorem VotesCounted.empty {c : Core} (prevotes : c.prevotes = ∅) (precommits : c.precommits = ∅)
    (collector : c.collector = VoteCollector.new) : VotesCounted S n c := by
  refine ⟨?_, ?_, ?_⟩
  · rw [prevotes]
    intro u vote weight recorded
    cases recorded
  · rw [precommits]
    intro u vote signature weight recorded
    cases recorded
  · refine ⟨?_, ?_⟩
    · rw [prevotes, collector]
      exact tallied_empty
    · rw [precommits, collector]
      exact tallied_empty

theorem VotesCounted.turn {call : EngineCall} {prevotes : List Prevote}
    {precommits : List Precommit} (counted : VotesCounted S n e.core) (all : VotesPlaced S n)
    (placed : Placed S v e.core) (admitted : Admitted S n call)
    (turn : Turn S e call e' prevotes precommits) : VotesCounted S n e'.core := by
  cases turn with
  | idle core => rw [core]; exact counted
  | advanced _ _ core => rw [core]; exact VotesCounted.empty rfl rfl rfl
  | prevoted _ _ _ core => rw [core]; exact counted.of_tables rfl rfl rfl rfl
  | relaxed _ _ _ _ core => rw [core]; exact counted.of_tables rfl rfl rfl rfl
  | counted order p source height round fresh core =>
    obtain ⟨member, spelled, authentic⟩ := admitted.prevote order p source
    rw [core]
    exact counted.countPrevote all placed height round fresh member spelled authentic
  | locked order p hash source height round fresh _ _ core =>
    obtain ⟨member, spelled, authentic⟩ := admitted.prevote order p source
    rw [core]
    have next := counted.countPrevote all placed height round fresh member spelled authentic
    cases hash <;> exact next.of_tables rfl rfl rfl rfl
  | gaveUp _ core => rw [core]; exact counted.of_tables rfl rfl rfl rfl
  | countedPrecommit order listing p _ source height round fresh _ core =>
    obtain ⟨member, spelled, authentic⟩ := admitted.precommit order listing p source
    rw [core]
    have next := counted.countPrecommit all placed height round fresh member spelled authentic
    exact next.of_tables rfl rfl rfl rfl

end SentrixNetwork
