import Sentrix.Bft.LockJournal
import Sentrix.Bft.Network

/-!
Whole runs of one engine under any calls, together with every vote it asked to be sent.
Two laws hold in every state of a run: one hash per round in the votes that went out,
and tallies that are exactly the recorded votes.
-/
namespace SentrixEngine
open MachineWords HashTable SentrixPrimitives SentrixMessages SentrixStaking Runs List
open SentrixNetwork (sentPrevotes sentPrecommits)
open SentrixLoop (RecordedQuorum)

structure EngineLog where
  engine : BftEngine
  action : BftAction
  prevotes : List Prevote
  precommits : List Precommit

inductive EngineEvent where
  | call (reg : StakeRegistry) (c : EngineCall)
  | newHeight (height totalActiveStake : Nat)

namespace EngineLog

def step (l : EngineLog) : EngineEvent → EngineLog
  | .call reg c =>
    let result := l.engine.perform reg c
    { engine := result.1
      action := result.2
      prevotes := sentPrevotes result.2 ++ l.prevotes
      precommits := sentPrecommits result.2 ++ l.precommits }
  | .newHeight height totalActiveStake =>
    { l with engine := l.engine.newHeight height totalActiveStake, action := .wait }

def Enabled (l : EngineLog) : EngineEvent → Prop
  | .call _ _ => True
  | .newHeight height _ => l.engine.state.height < height

instance (l : EngineLog) : ∀ ev, Decidable (l.Enabled ev)
  | .call _ _ => inferInstanceAs (Decidable True)
  | .newHeight _ _ => inferInstanceAs (Decidable (_ < _))

end EngineLog

def engineRuns (height : Nat) (ourAddress : Address) (totalActiveStake : Nat) :
    System EngineLog EngineEvent where
  init := ⟨BftEngine.new height ourAddress totalActiveStake, .wait, [], []⟩
  enabled := EngineLog.Enabled
  step := EngineLog.step

instance (height : Nat) (ourAddress : Address) (total : Nat) (l : EngineLog) (ev : EngineEvent) :
    Decidable ((engineRuns height ourAddress total).enabled l ev) :=
  inferInstanceAs (Decidable (l.Enabled ev))

section Ballots
variable {τ ν : Type} [PartialOrder τ] {now after : τ} {voted : Prop} {ballots : List (τ × ν)}

/-- Ballots were cast at places up to `now`, there only once `voted`, and two
ballots of one place agree. -/
structure CastOnce (now : τ) (voted : Prop) (ballots : List (τ × ν)) : Prop where
  past : ∀ b ∈ ballots, b.1 < now ∨ b.1 = now ∧ voted
  unique : ∀ b ∈ ballots, ∀ c ∈ ballots, b.1 = c.1 → b.2 = c.2

theorem CastOnce.again (once : CastOnce now voted ballots) {b : τ × ν} (member : b ∈ ballots) :
    CastOnce now voted (b :: ballots) := by
  constructor
  · intro c held
    rcases List.mem_cons.mp held with rfl | held
    · exact once.past c member
    · exact once.past c held
  · intro c held d held'
    have older : ∀ x ∈ b :: ballots, x ∈ ballots := by
      intro x listed
      rcases List.mem_cons.mp listed with rfl | listed
      · exact member
      · exact listed
    exact once.unique c (older c held) d (older d held')

theorem CastOnce.mono {voted' : Prop} (once : CastOnce now voted ballots) (sure : voted → voted') :
    CastOnce now voted' ballots :=
  ⟨fun b held => (once.past b held).imp_right fun ⟨same, done⟩ => ⟨same, sure done⟩, once.unique⟩

theorem CastOnce.later {voted' : Prop} (once : CastOnce now voted ballots) (grown : now < after) :
    CastOnce after voted' ballots := by
  refine ⟨fun b held => Or.inl ?_, once.unique⟩
  rcases once.past b held with before | ⟨same, _⟩
  · exact before.trans grown
  · exact same ▸ grown

theorem CastOnce.cast {voted' : Prop} (once : CastOnce now voted ballots) (idle : ¬ voted)
    (done : voted') (vote : ν) : CastOnce now voted' ((now, vote) :: ballots) := by
  have before : ∀ b ∈ ballots, b.1 ≠ now := by
    intro b held same
    rcases once.past b held with older | ⟨_, done⟩
    · exact absurd same older.ne
    · exact idle done
  constructor
  · intro b held
    rcases List.mem_cons.mp held with rfl | held
    · exact Or.inr ⟨rfl, done⟩
    · exact ((once.mono fun voted => absurd voted idle).past b held)
  · intro b held c held' same
    rcases List.mem_cons.mp held with rfl | held <;> rcases List.mem_cons.mp held' with rfl | held'
    · rfl
    · exact absurd same.symm (before c held')
    · exact absurd same (before b held)
    · exact once.unique b held c held' same

end Ballots

abbrev Place := Nat ×ₗ Nat

def BftEngine.place (e : BftEngine) : Place :=
  toLex (e.state.height, e.state.round)

def prevoteBallot (p : Prevote) : Place × Option Hash :=
  (toLex (p.height, p.round), p.blockHash)

def precommitBallot (p : Precommit) : Place × Option Hash :=
  (toLex (p.height, p.round), p.blockHash)

structure VotesOnce (l : EngineLog) : Prop where
  prevotes : CastOnce l.engine.place (l.engine.state.phase ≠ .propose)
    (l.prevotes.map prevoteBallot)
  precommits : CastOnce l.engine.place (PastPrecommitting l.engine.state.phase)
    (l.precommits.map precommitBallot)
  pendingPrevote : ∀ p, l.engine.pendingPrevote = some p → p ∈ l.prevotes
  pendingPrecommit : ∀ p, l.engine.pendingPrecommit = some p → p ∈ l.precommits

theorem sentPrevotes_silent {action : BftAction} (quiet : action.silent) :
    sentPrevotes action = [] := by
  cases action <;> first | rfl | cases quiet

theorem sentPrecommits_silent {action : BftAction} (quiet : action.silent) :
    sentPrecommits action = [] := by
  cases action <;> first | rfl | cases quiet

namespace VotesOnce
variable {l : EngineLog} {e' : BftEngine} {action : BftAction}

def extend (l : EngineLog) (e' : BftEngine) (action : BftAction) : EngineLog where
  engine := e'
  action := action
  prevotes := sentPrevotes action ++ l.prevotes
  precommits := sentPrecommits action ++ l.precommits

theorem quiet (once : VotesOnce l) (noPrevotes : sentPrevotes action = [])
    (noPrecommits : sentPrecommits action = []) (settles : Settles l.engine e')
    (place : e'.place = l.engine.place)
    (prevoted : l.engine.state.phase ≠ .propose → e'.state.phase ≠ .propose)
    (precommitted : PastPrecommitting l.engine.state.phase → PastPrecommitting e'.state.phase) :
    VotesOnce (extend l e' action) := by
  simp only [extend, noPrevotes, noPrecommits, nil_append]
  constructor
  · rw [place]
    exact once.prevotes.mono prevoted
  · rw [place]
    exact once.precommits.mono precommitted
  · exact fun p pending => once.pendingPrevote p (settles.pendingPrevote pending)
  · exact fun p pending => once.pendingPrecommit p (settles.pendingPrecommit pending)

theorem repeatPrevote (once : VotesOnce l) {p : Prevote}
    (pending : l.engine.pendingPrevote = some p) :
    VotesOnce (extend l l.engine (.broadcastPrevote p)) where
  prevotes := once.prevotes.again (mem_map_of_mem (once.pendingPrevote p pending))
  precommits := once.precommits
  pendingPrevote q held := mem_cons_of_mem p (once.pendingPrevote q held)
  pendingPrecommit := once.pendingPrecommit

theorem repeatPrecommit (once : VotesOnce l) {p : Precommit}
    (pending : l.engine.pendingPrecommit = some p) :
    VotesOnce (extend l l.engine (.broadcastPrecommit p)) where
  prevotes := once.prevotes
  precommits := once.precommits.again (mem_map_of_mem (once.pendingPrecommit p pending))
  pendingPrevote := once.pendingPrevote
  pendingPrecommit q held := mem_cons_of_mem p (once.pendingPrecommit q held)

theorem advance (once : VotesOnce l) (later : l.engine.place < e'.place)
    (noPrevote : e'.pendingPrevote = none) (noPrecommit : e'.pendingPrecommit = none) :
    VotesOnce { l with engine := e', action := .wait } where
  prevotes := once.prevotes.later later
  precommits := once.precommits.later later
  pendingPrevote p held := by rw [noPrevote] at held; cases held
  pendingPrecommit p held := by rw [noPrecommit] at held; cases held

theorem prevoting (once : VotesOnce l) {vote : Option Hash}
    (start : l.engine.state.phase = .propose) (place : e'.place = l.engine.place)
    (phase : e'.state.phase = .prevote) (sends : SendsPrevote l.engine e' action vote) :
    VotesOnce (extend l e' action) := by
  have idle : ¬ PastPrecommitting l.engine.state.phase := by
    rw [start]
    rintro (now | now) <;> cases now
  have voted : e'.state.phase ≠ .propose := by rw [phase]; exact BftPhase.noConfusion
  rcases sends.sent with ⟨rfl, same⟩ | ⟨rfl, pending⟩
  · exact once.quiet rfl rfl ⟨Or.inl same, Or.inl sends.precommit⟩ place (fun _ => voted)
      (fun past => absurd past idle)
  · constructor
    · rw [extend, place]
      exact once.prevotes.cast (fun open_ => open_ start) voted vote
    · rw [extend, place]
      exact once.precommits.mono fun past => absurd past idle
    · intro p held
      rw [extend, pending] at held
      cases held
      exact mem_cons_self
    · intro p held
      exact once.pendingPrecommit p (sends.precommit ▸ held)

theorem precommitting (once : VotesOnce l) {vote : Option Hash}
    (start : l.engine.state.phase = .prevote) (place : e'.place = l.engine.place)
    (phase : e'.state.phase = .precommit) (sends : SendsPrecommit l.engine e' action vote) :
    VotesOnce (extend l e' action) := by
  have idle : ¬ PastPrecommitting l.engine.state.phase := by
    rw [start]
    rintro (now | now) <;> cases now
  have voted : e'.state.phase ≠ .propose := by rw [phase]; exact BftPhase.noConfusion
  have settles : ∀ p, e'.pendingPrevote = some p → p ∈ l.prevotes := by
    intro p held
    rcases sends.prevote with same | gone
    · exact once.pendingPrevote p (same ▸ held)
    · rw [gone] at held; cases held
  rcases sends.sent with ⟨rfl, same⟩ | ⟨rfl, pending⟩
  · exact once.quiet rfl rfl ⟨sends.prevote, Or.inl same⟩ place (fun _ => voted)
      (fun _ => Or.inl phase)
  · constructor
    · rw [extend, place]
      exact once.prevotes.mono fun _ => voted
    · rw [extend, place]
      exact once.precommits.cast idle (Or.inl phase) vote
    · exact settles
    · intro p held
      rw [extend, pending] at held
      cases held
      exact mem_cons_self

theorem move {reg : StakeRegistry} {call : EngineCall} (once : VotesOnce l)
    (move : Move reg l.engine call e' action)
    (top : call = .advanceRound → l.engine.state.round < u32Max) :
    VotesOnce (extend l e' action) := by
  have placed : ∀ {c : Core}, e'.core = c → c.height = l.engine.state.height →
      c.round = l.engine.state.round → e'.place = l.engine.place := by
    rintro c rfl height round
    exact congrArg toLex (Prod.ext height round)
  have phased : ∀ {c : Core}, e'.core = c → e'.state.phase = c.phase :=
    fun core => congrArg Core.phase core
  cases move with
  | still core settles silent =>
    exact once.quiet (sentPrevotes_silent silent) (sentPrecommits_silent silent) settles
      (placed core rfl rfl) (by rw [phased core]; exact id) (by rw [phased core]; exact id)
  | repeatPrevote same pending => subst same; exact once.repeatPrevote pending
  | repeatPrecommit same pending => subst same; exact once.repeatPrecommit pending
  | advanced steps core reach _ noPrevote noPrecommit =>
    have fits : l.engine.core.round + steps + 1 ≤ u32Max := by
      rcases reach with ⟨called, rfl⟩ | fits
      · exact top called
      · exact fits
    rw [l.engine.core.iterate_advance steps fits] at core
    have height : e'.state.height = l.engine.state.height := congrArg Core.height core
    have round : e'.state.round = l.engine.state.round + steps + 1 := congrArg Core.round core
    refine once.advance ?_ noPrevote noPrecommit
    rw [BftEngine.place, BftEngine.place, height, round, Prod.Lex.toLex_lt_toLex]
    exact Or.inr ⟨rfl, by simp only; omega⟩
  | prevoted _ start _ core sends | relaxed _ start _ _ core sends =>
    exact once.prevoting start (placed core rfl rfl) (phased core) sends
  | counted _ _ _ _ _ _ core settles =>
    exact once.quiet rfl rfl settles (placed core rfl rfl) (by rw [phased core]; exact id)
      (by rw [phased core]; exact id)
  | locked _ _ hash _ _ _ _ start _ core sends =>
    exact once.precommitting start (placed core (by cases hash <;> rfl) (by cases hash <;> rfl))
      ((phased core).trans (by cases hash <;> rfl)) sends
  | gaveUp _ start core sends =>
    exact once.precommitting start (placed core rfl rfl) (phased core) sends
  | countedPrecommit _ _ _ _ _ _ _ core settles silent =>
    exact once.quiet (sentPrevotes_silent silent) (sentPrecommits_silent silent) settles
      (placed core rfl rfl) (by rw [phased core]; exact id) (by rw [phased core]; exact id)
  | finalized _ _ _ _ _ _ _ _ _ core settles =>
    have phase : e'.state.phase = .finalize := phased core
    refine once.quiet rfl rfl settles (placed core rfl rfl) (fun _ => ?_) (fun _ => Or.inr phase)
    rw [phase]
    exact BftPhase.noConfusion

end VotesOnce

/-- No call moves past the last round number: the counter would stay there and
the round would start over. -/
def RoundsLeft (l : EngineLog) : EngineEvent → Prop
  | .call _ .advanceRound => l.engine.state.round < u32Max
  | _ => True

theorem VotesOnce.step {l : EngineLog} {ev : EngineEvent} (once : VotesOnce l)
    (enabled : l.Enabled ev) (left : RoundsLeft l ev) : VotesOnce (l.step ev) := by
  cases ev with
  | call reg c =>
    refine once.move (BftEngine.perform_move reg l.engine c) ?_
    rintro rfl
    exact left
  | newHeight =>
    refine once.advance ?_ rfl rfl
    exact Prod.Lex.toLex_lt_toLex.mpr (Or.inl enabled)

theorem votesOnce_new (height : Nat) (ourAddress : Address) (total : Nat) :
    VotesOnce ⟨BftEngine.new height ourAddress total, .wait, [], []⟩ where
  prevotes := ⟨by simp, by simp⟩
  precommits := ⟨by simp, by simp⟩
  pendingPrevote p held := by cases held
  pendingPrecommit p held := by cases held

theorem votes_cast_once {height : Nat} {ourAddress : Address} {total : Nat} {l : EngineLog}
    (run : Run (engineRuns height ourAddress total) RoundsLeft l) :
    (∀ p ∈ l.prevotes, ∀ q ∈ l.prevotes, p.height = q.height → p.round = q.round →
      p.blockHash = q.blockHash) ∧
    (∀ p ∈ l.precommits, ∀ q ∈ l.precommits, p.height = q.height → p.round = q.round →
      p.blockHash = q.blockHash) := by
  have once : VotesOnce l := run.invariant VotesOnce (votesOnce_new height ourAddress total)
    fun _ _ once enabled left => once.step enabled left
  constructor
  · intro p sent q sent' height round
    exact once.prevotes.unique _ (mem_map_of_mem sent) _ (mem_map_of_mem sent')
      (congrArg toLex (Prod.ext height round))
  · intro p sent q sent' height round
    exact once.precommits.unique _ (mem_map_of_mem sent) _ (mem_map_of_mem sent')
      (congrArg toLex (Prod.ext height round))

instance (l : EngineLog) (ev : EngineEvent) : Decidable (RoundsLeft l ev) := by
  unfold RoundsLeft
  split <;> infer_instance

def prevoteSent (reg : StakeRegistry) (p : Prevote) : List EngineEvent :=
  [.call reg .markPrevoteCast, .call reg (.prevote HashIter.stored p)]

def fourValidators : StakeRegistry :=
  bondedSet ["v0", "v1", "v2", "v3"]

/-- A prevote whose first broadcast fails is emitted again on the timeout, and a
second proposal of the round draws no other one. -/
theorem prevote_repeated_after_failed_broadcast :
    ∃ l, Run (engineRuns 4 "v2" fourValidators.totalActiveStake) RoundsLeft l ∧
      l.prevotes.length = 2 ∧
      ∀ p ∈ l.prevotes, ∀ q ∈ l.prevotes, p.height = q.height → p.round = q.round →
        p.blockHash = q.blockHash := by
  have run : Run (engineRuns 4 "v2" fourValidators.totalActiveStake) RoundsLeft _ :=
    Run.start.replay ([.call fourValidators (.proposal "h" "v0"), .call fourValidators .timeout,
      .call fourValidators (.proposal "k" "v0")] ++
      prevoteSent fourValidators ⟨4, 0, some "h", "v2", []⟩) (by decide)
  exact ⟨_, run, by decide, (votes_cast_once run).1⟩

theorem BftEngine.iterate_advanceRound (e : BftEngine) (steps : Nat)
    (fits : e.state.round + steps + 1 ≤ u32Max) :
    Nat.iterate advanceRound (steps + 1) e =
      { e.advanceRound with
        state := { e.advanceRound.state with round := e.state.round + steps + 1 } } := by
  have first : e.advanceRound.state.round = e.state.round + 1 := satAdd_eq_add (by omega)
  induction steps generalizing e with
  | zero =>
    change e.advanceRound = _
    rw [Nat.add_zero, ← first]
  | succ _ ih =>
    have second : e.advanceRound.advanceRound.state.round = e.advanceRound.state.round + 1 :=
      satAdd_eq_add (by omega)
    rw [Function.iterate_succ_apply, ih e.advanceRound (by omega) second, first]
    simp only [BftEngine.advanceRound, BftRoundState.advanceRound, BftEngine.mk.injEq,
      BftRoundState.mk.injEq, and_true, true_and]
    omega

theorem BftEngine.catchUpRound_ahead (e : BftEngine) (target : Nat) (ahead : e.state.round < target)
    (fits : target ≤ u32Max) :
    e.catchUpRound target =
      ({ e.advanceRound with state := { e.advanceRound.state with round := target } }, none) := by
  obtain ⟨steps, rfl⟩ := Nat.exists_eq_add_of_lt ahead
  have gap : e.state.round + steps + 1 - e.state.round = steps + 1 := by omega
  rw [catchUpRound, if_neg (by omega), gap, e.iterate_advanceRound steps fits]

def enteredRound (round : Nat) : BftEngine :=
  let e := (BftEngine.new 4 "v2" fourValidators.totalActiveStake).advanceRound
  { e with state := { e.state with round := round } }

theorem enteredRound_run (round : Word32) (later : 0 < round.val) :
    Run (engineRuns 4 "v2" fourValidators.totalActiveStake) (fun _ _ => True)
      ⟨enteredRound round.val, .wait, [], []⟩ := by
  have fits : round.val ≤ u32Max := Nat.le_of_lt_succ round.isLt
  have caught : (engineRuns 4 "v2" fourValidators.totalActiveStake).step
      (engineRuns 4 "v2" fourValidators.totalActiveStake).init
      (.call fourValidators (.catchUpRound round)) =
      ⟨enteredRound round.val, .wait, [], []⟩ := by
    have ahead := (BftEngine.new 4 "v2" fourValidators.totalActiveStake).catchUpRound_ahead
      round.val later fits
    simp only [engineRuns, EngineLog.step, BftEngine.perform, ahead]
    rfl
  rw [← caught]
  exact .next .start trivial trivial

/-- In round `u32Max` the engine prevotes nil, skips the round, is in the same
round again and prevotes the proposal that arrives now. -/
theorem last_round_voted_twice :
    ∃ l, Run (engineRuns 4 "v2" fourValidators.totalActiveStake) (fun _ _ => True) l ∧
      ∃ p ∈ l.prevotes, ∃ q ∈ l.prevotes, p.height = q.height ∧ p.round = q.round ∧
        p.blockHash ≠ q.blockHash :=
  ⟨_, (enteredRound_run (Fin.last (2 ^ 32 - 1)) (by decide)).replay
    ([.call fourValidators .timeout] ++
      prevoteSent fourValidators ⟨4, u32Max, none, "v2", []⟩ ++
      [.call fourValidators .advanceRound, .call fourValidators (.proposal "h" "v3")])
    (by decide), by decide⟩

/-- The stake of all votes recorded this round, the one handed in included, is a word. -/
def StakeFits (l : EngineLog) : EngineEvent → Prop
  | .call reg (.prevote _ p) =>
    sumOf (fun _ x => x.2) l.engine.state.prevotes + reg.voteStake p.validator ≤ u64Max
  | .call reg (.precommit _ _ p) =>
    sumOf (fun _ x => x.2.2) l.engine.state.precommits + reg.voteStake p.validator ≤ u64Max
  | _ => True

structure Backed (e : BftEngine) (p : Precommit) (h : Hash) : Prop where
  height : p.height = e.state.height
  round : p.round = e.state.round
  quorum : RecordedQuorum e (some h)
  lockedHash : e.state.lockedHash = some h
  lockedRound : e.state.lockedRound = some e.state.round

structure Certifies (e : BftEngine) (h : Hash) (j : BlockJustification) : Prop where
  header : j.height = e.state.height ∧ j.round = e.state.round ∧ j.blockHash = h
  distinct : (j.precommits.map (·.validator)).Nodup
  exactly : ∀ entry, entry ∈ j.precommits ↔ entry.blockHash = h ∧
    e.state.precommits.lookup entry.validator = some (some h, entry.signature, entry.stakeWeight)
  enough : supermajorityThreshold e.state.totalActiveStake ≤
    (j.precommits.map (·.stakeWeight)).sum

def Founded (e : BftEngine) : BftAction → Prop
  | .broadcastPrecommit p => ∀ h, p.blockHash = some h → Backed e p h
  | .finalizeBlock height round h j =>
    height = e.state.height ∧ round = e.state.round ∧ Certifies e h j
  | _ => True

structure Accounted (e : BftEngine) : Prop where
  counts : CountsExact e.core
  /-- A precommit is pending only past the vote that brought it. -/
  late : ∀ p, e.pendingPrecommit = some p → PastPrecommitting e.state.phase
  pending : ∀ p, e.pendingPrecommit = some p → ∀ h, p.blockHash = some h → Backed e p h

theorem Founded.of_silent {e : BftEngine} {action : BftAction} (quiet : action.silent) :
    Founded e action := by
  cases action <;> trivial

theorem sumOf_weightFor_le {ν : Type} (vote : ν → Option Hash) (stake : ν → Nat)
    (hash : Option Hash) (votes : Table Address ν) :
    sumOf (weightFor vote stake hash) votes ≤ sumOf (fun _ x => stake x) votes := by
  unfold sumOf weightFor
  apply sum_le_sum
  intro entry _
  split
  · exact le_rfl
  · exact Nat.zero_le _

theorem justify_precommits (listing : HashIter (Address × Option Hash × Bytes × Nat))
    (e : BftEngine) (h : Hash) :
    e.justify listing h = ⟨e.state.height, e.state.round, h,
      ((listing.visit e.state.precommits.pairs).filter (·.2.1 = some h)).map fun entry =>
        ⟨entry.1, h, entry.2.2.1, entry.2.2.2⟩⟩ := by
  have loop : ∀ (entries : List (Address × Option Hash × Bytes × Nat)) (done : List SignedPrecommit),
      entries.foldl (fun j entry => if entry.2.1 = some h then
          j.addPrecommit entry.1 entry.2.2.1 entry.2.2.2 else j)
        (⟨e.state.height, e.state.round, h, done⟩ : BlockJustification) =
      ⟨e.state.height, e.state.round, h, done ++ (entries.filter (·.2.1 = some h)).map fun entry =>
        ⟨entry.1, h, entry.2.2.1, entry.2.2.2⟩⟩ := by
    intro entries
    induction entries with
    | nil => simp
    | cons entry _ ih =>
      intro done
      by_cases voted : entry.2.1 = some h
      · rw [foldl_cons, if_pos voted]
        refine (ih (done ++ [⟨entry.1, h, entry.2.2.1, entry.2.2.2⟩])).trans ?_
        simp [voted]
      · simp [voted, ih]
  exact (loop _ []).trans (by rw [nil_append])

theorem certifies_of_weight {e : BftEngine} {h : Hash}
    (weight : supermajorityThreshold e.state.totalActiveStake ≤
      sumOf (weightFor Prod.fst (fun x => x.2.2) (some h)) e.state.precommits)
    (listing : HashIter (Address × Option Hash × Bytes × Nat)) :
    Certifies e h (e.justify listing h) := by
  have visited := listing.perm e.state.precommits.pairs
  rw [justify_precommits]
  constructor
  · exact ⟨rfl, rfl, rfl⟩
  · have keys : (e.state.precommits.pairs.map Prod.fst).Nodup := by
      have nodup : (e.state.precommits.entries.map Sigma.fst).Nodup := e.state.precommits.nodupKeys
      simpa [Table.pairs, Function.comp_def] using nodup
    have sub : (((listing.visit e.state.precommits.pairs).filter (·.2.1 = some h)).map
        Prod.fst).Nodup :=
      ((visited.map Prod.fst).nodup_iff.mpr keys).sublist (List.filter_sublist.map Prod.fst)
    simpa [Function.comp_def] using sub
  · intro entry
    simp only [mem_map, mem_filter, listing.mem_visit, decide_eq_true_eq]
    constructor
    · rintro ⟨⟨u, vote, signature, stake⟩, ⟨member, rfl⟩, rfl⟩
      exact ⟨rfl, mem_pairs.mp member⟩
    · rintro ⟨rfl, recorded⟩
      exact ⟨(entry.validator, _, entry.signature, entry.stakeWeight),
        ⟨mem_pairs.mpr recorded, rfl⟩, rfl⟩
  · refine weight.trans_eq ?_
    have listed : sumOf (weightFor Prod.fst (fun x : Option Hash × Bytes × Nat => x.2.2) (some h))
        e.state.precommits = ((listing.visit e.state.precommits.pairs).map fun entry =>
          if entry.2.1 = some h then entry.2.2.2 else 0).sum := by
      rw [(visited.map _).sum_eq, Table.pairs, map_map]
      rfl
    rw [listed]
    generalize listing.visit e.state.precommits.pairs = entries
    induction entries with
    | nil => rfl
    | cons entry _ ih =>
      by_cases voted : entry.2.1 = some h
      · simp [voted, ih]
      · simp [voted, ih]

theorem Backed.carry {e e' : BftEngine} {p : Precommit} {h : Hash} (backed : Backed e p h)
    {c : Core} (core : e'.core = c) (place : c.height = e.core.height ∧ c.round = e.core.round)
    (lock : c.lockedHash = e.core.lockedHash ∧ c.lockedRound = e.core.lockedRound)
    (total : c.totalActiveStake = e.core.totalActiveStake)
    (grown : sumOf (weightFor Prod.fst Prod.snd (some h)) e.core.prevotes ≤
      sumOf (weightFor Prod.fst Prod.snd (some h)) c.prevotes) : Backed e' p h := by
  subst core
  constructor
  · exact backed.height.trans place.1.symm
  · exact backed.round.trans place.2.symm
  · have quorum := backed.quorum
    unfold RecordedQuorum at quorum ⊢
    rw [show e'.state.totalActiveStake = e.state.totalActiveStake from total]
    exact quorum.trans grown
  · exact lock.1.trans backed.lockedHash
  · exact (lock.2.trans backed.lockedRound).trans (congrArg some place.2.symm)

namespace Accounted
variable {e e' : BftEngine} {action : BftAction}

theorem settled (accounted : Accounted e) (settles : Settles e e') {c : Core} (core : e'.core = c)
    (counts : CountsExact c) (place : c.height = e.core.height ∧ c.round = e.core.round)
    (lock : c.lockedHash = e.core.lockedHash ∧ c.lockedRound = e.core.lockedRound)
    (total : c.totalActiveStake = e.core.totalActiveStake)
    (phase : PastPrecommitting e.core.phase → PastPrecommitting c.phase)
    (grown : ∀ h, sumOf (weightFor Prod.fst Prod.snd (some h)) e.core.prevotes ≤
      sumOf (weightFor Prod.fst Prod.snd (some h)) c.prevotes) : Accounted e' where
  counts := core ▸ counts
  late p held := by
    have past := phase (accounted.late p (settles.pendingPrecommit held))
    rw [← core] at past
    exact past
  pending p held h named :=
    (accounted.pending p (settles.pendingPrecommit held) h named).carry core place lock total
      (grown h)

theorem nothing_pending (accounted : Accounted e) (early : ¬ PastPrecommitting e.state.phase) :
    e.pendingPrecommit = none := by
  cases held : e.pendingPrecommit with
  | none => rfl
  | some p => exact absurd (accounted.late p held) early

theorem of_none (counts : CountsExact e.core) (none : e.pendingPrecommit = none) : Accounted e where
  counts := counts
  late p held := by rw [none] at held; cases held
  pending p held := by rw [none] at held; cases held

theorem prevoting (accounted : Accounted e) {vote : Option Hash} (start : e.state.phase = .propose)
    (counts : CountsExact e'.core) (sends : SendsPrevote e e' action vote) :
    Accounted e' ∧ Founded e' action := by
  have none := accounted.nothing_pending (by rw [start]; rintro (now | now) <;> cases now)
  refine ⟨of_none counts (sends.precommit.trans none), ?_⟩
  rcases sends.sent with ⟨rfl, _⟩ | ⟨rfl, _⟩ <;> trivial

theorem precommitting (accounted : Accounted e) {vote : Option Hash}
    (start : e.state.phase = .prevote) (counts : CountsExact e'.core)
    (phase : e'.state.phase = .precommit)
    (backed : ∀ h, vote = some h → Backed e' (e.ownPrecommit vote) h)
    (sends : SendsPrecommit e e' action vote) : Accounted e' ∧ Founded e' action := by
  have none := accounted.nothing_pending (by rw [start]; rintro (now | now) <;> cases now)
  rcases sends.sent with ⟨rfl, same⟩ | ⟨rfl, pending⟩
  · exact ⟨of_none counts (same.trans none), trivial⟩
  · refine ⟨⟨counts, fun p _ => Or.inl phase, ?_⟩, backed⟩
    intro p held h named
    rw [pending] at held
    cases held
    exact backed h named

theorem locked (accounted : Accounted e) {order : HashIter (Option Hash × Nat)} {p : Prevote}
    {weight : Nat} {vote : Option Hash} (start : e.state.phase = .prevote)
    (counts : CountsExact (e.core.countPrevote p weight))
    (quorum : (e.core.countPrevote p weight).collector.prevoteSupermajority order
      e.state.totalActiveStake = some vote)
    (core : e'.core = (e.core.countPrevote p weight).toPrecommit vote)
    (sends : SendsPrecommit e e' action vote) : Accounted e' ∧ Founded e' action := by
  have counts' : CountsExact e'.core := by
    rw [core]
    cases vote <;> exact ⟨counts.prevotes, counts.precommits⟩
  have phase : e'.state.phase = .precommit :=
    (congrArg Core.phase core).trans (by cases vote <;> rfl)
  refine accounted.precommitting start counts' phase ?_ sends
  rintro h rfl
  constructor
  · exact (congrArg Core.height core).symm
  · exact (congrArg Core.round core).symm
  · unfold RecordedQuorum
    rw [show e'.state.prevotes = _ from congrArg Core.prevotes core,
      show e'.state.totalActiveStake = _ from congrArg Core.totalActiveStake core]
    exact (supermajority_weight quorum).trans_eq (counts.prevotes (some h))
  · exact congrArg Core.lockedHash core
  · rw [show e'.state.round = _ from congrArg Core.round core]
    exact congrArg Core.lockedRound core

theorem move {reg : StakeRegistry} {call : EngineCall} (accounted : Accounted e)
    (move : Move reg e call e' action)
    (roomPrevote : ∀ order p, call = .prevote order p →
      sumOf (fun _ x => x.2) e.state.prevotes + reg.voteStake p.validator ≤ u64Max)
    (roomPrecommit : ∀ order listing p, call = .precommit order listing p →
      sumOf (fun _ x => x.2.2) e.state.precommits + reg.voteStake p.validator ≤ u64Max) :
    Accounted e' ∧ Founded e' action := by
  have countPrevote : ∀ {order p}, call = .prevote order p →
      e.state.prevotes.lookup p.validator = none →
      CountsExact (e.core.countPrevote p (reg.voteStake p.validator)) := by
    intro order p source fresh
    have room := roomPrevote order p source
    have below := sumOf_weightFor_le Prod.fst Prod.snd p.blockHash e.state.prevotes
    exact accounted.counts.countPrevote fresh ((Nat.add_le_add_right below _).trans room)
  have countPrecommit : ∀ {order listing p}, call = .precommit order listing p →
      e.state.precommits.lookup p.validator = none →
      CountsExact (e.core.countPrecommit p (reg.voteStake p.validator)) := by
    intro order listing p source fresh
    have room := roomPrecommit order listing p source
    have below := sumOf_weightFor_le Prod.fst (fun x => x.2.2) p.blockHash e.state.precommits
    exact accounted.counts.countPrecommit fresh ((Nat.add_le_add_right below _).trans room)
  cases move with
  | still core settles silent =>
    exact ⟨accounted.settled settles core accounted.counts ⟨rfl, rfl⟩ ⟨rfl, rfl⟩ rfl id
      (fun _ => le_rfl), .of_silent silent⟩
  | repeatPrevote same => subst same; exact ⟨accounted, trivial⟩
  | repeatPrecommit same pending => subst same; exact ⟨accounted, accounted.pending _ pending⟩
  | advanced _ core _ _ _ noPrecommit =>
    rw [Function.iterate_succ_apply'] at core
    exact ⟨of_none (core ▸ CountsExact.advance _) noPrecommit, trivial⟩
  | prevoted _ start _ core sends | relaxed _ start _ _ core sends =>
    exact accounted.prevoting start
      (core ▸ ⟨accounted.counts.prevotes, accounted.counts.precommits⟩) sends
  | counted _ _ source _ _ fresh core settles =>
    refine ⟨accounted.settled settles core (countPrevote source fresh) ⟨rfl, rfl⟩ ⟨rfl, rfl⟩ rfl id
      (fun h => ?_), trivial⟩
    exact (Nat.le_add_left _ _).trans_eq (sumOf_insert_absent _ _ fresh).symm
  | locked _ _ _ source _ _ fresh start quorum core sends =>
    exact accounted.locked start (countPrevote source fresh) quorum core sends
  | gaveUp _ start core sends =>
    exact accounted.precommitting start
      (core ▸ ⟨accounted.counts.prevotes, accounted.counts.precommits⟩)
      (congrArg Core.phase core) (fun _ named => by cases named) sends
  | countedPrecommit _ _ _ source _ _ fresh core settles silent =>
    exact ⟨accounted.settled settles core (countPrecommit source fresh) ⟨rfl, rfl⟩ ⟨rfl, rfl⟩ rfl id
      (fun _ => le_rfl), .of_silent silent⟩
  | finalized _ listing _ h source _ _ fresh quorum core settles =>
    have counts := countPrecommit source fresh
    have kept := accounted.settled settles core
      ⟨counts.prevotes, counts.precommits⟩ ⟨rfl, rfl⟩ ⟨rfl, rfl⟩ rfl (fun _ => Or.inr rfl)
      (fun _ => le_rfl)
    refine ⟨kept, rfl, rfl, certifies_of_weight ?_ listing⟩
    rw [show e'.state.precommits = _ from congrArg Core.precommits core,
      show e'.state.totalActiveStake = _ from congrArg Core.totalActiveStake core]
    exact (supermajority_weight quorum).trans_eq (counts.precommits (some h))

end Accounted

theorem Accounted.step {l : EngineLog} {ev : EngineEvent} (accounted : Accounted l.engine)
    (fits : StakeFits l ev) : Accounted (l.step ev).engine ∧
      Founded (l.step ev).engine (l.step ev).action := by
  cases ev with
  | call reg c =>
    refine accounted.move (BftEngine.perform_move reg l.engine c) ?_ ?_
    · rintro order p rfl
      exact fits
    · rintro order listing p rfl
      exact fits
  | newHeight => exact ⟨of_none ⟨tallied_empty, tallied_empty⟩ rfl, trivial⟩

theorem votes_accounted {height : Nat} {ourAddress : Address} {total : Nat} {l : EngineLog}
    (run : Run (engineRuns height ourAddress total) StakeFits l) :
    CountsExact l.engine.core ∧ Founded l.engine l.action := by
  have start : Accounted (BftEngine.new height ourAddress total) ∧
      Founded (BftEngine.new height ourAddress total) .wait :=
    ⟨.of_none ⟨tallied_empty, tallied_empty⟩ rfl, trivial⟩
  have kept : Accounted l.engine ∧ Founded l.engine l.action :=
    run.invariant (fun l => Accounted l.engine ∧ Founded l.engine l.action) start
      fun _ _ before _ fits => before.1.step fits
  exact ⟨kept.1.counts, kept.2⟩

instance (l : EngineLog) (ev : EngineEvent) : Decidable (StakeFits l ev) := by
  unfold StakeFits
  split <;> infer_instance

def finalizingRound : List EngineEvent :=
  [.call fourValidators (.proposal "h" "v0")] ++
  (["v2", "v0", "v1"].map fun v =>
    .call fourValidators (.prevote HashIter.stored ⟨4, 0, some "h", v, []⟩)) ++
  ["v2", "v0", "v1"].map fun v =>
    .call fourValidators (.precommit HashIter.stored HashIter.stored ⟨4, 0, some "h", v, []⟩)

theorem finalizing_round_accounted :
    ∃ l j, Run (engineRuns 4 "v2" fourValidators.totalActiveStake) StakeFits l ∧
      l.action = .finalizeBlock 4 0 "h" j ∧ CountsExact l.engine.core ∧
      Founded l.engine l.action := by
  have run : Run (engineRuns 4 "v2" fourValidators.totalActiveStake) StakeFits _ :=
    Run.start.replay finalizingRound (by decide)
  exact ⟨_, _, run, rfl, votes_accounted run⟩

end SentrixEngine
