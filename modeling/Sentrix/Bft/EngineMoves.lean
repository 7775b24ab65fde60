import Sentrix.Bft.Engine

/-!
What one engine call can do. `Core` keeps the part of the engine that votes and locks
depend on; `Move` lists every way a call changes it together with what the call hands
back.
-/
namespace SentrixEngine
open MachineWords HashTable SentrixPrimitives SentrixMessages SentrixStaking

inductive EngineCall where
  | advanceRound
  | catchUpRound (target : Word32)
  | proposal (blockHash : Hash) (proposer : Address)
  | ownProposal (blockHash : Hash)
  | prevote (order : HashIter (Option Hash × Nat)) (p : Prevote)
  | precommit (order : HashIter (Option Hash × Nat))
      (listing : HashIter (Address × Option Hash × Bytes × Nat)) (p : Precommit)
  | timeout
  | roundStatus (order : HashIter (Word32 × Nat)) (status : RoundStatus)
  | legacyRoundStatus (status : RoundStatus)
  | stash (blockHash : Hash) (bytes : Bytes)
  | markPrevoteCast
  | markPrecommitCast

/-- The hash a call brings to `acceptProposal`, past the guards in front of it. -/
def BftEngine.accepts (reg : StakeRegistry) (e : BftEngine) : EngineCall → Option Hash
  | .proposal blockHash proposer =>
    if (e.retryPendingPrevoteFor blockHash).isNone ∧ e.state.phase = .propose ∧
        reg.weightedProposer e.state.height e.state.round = some proposer ∧
        (reg.getValidator proposer).all (fun v => !(v.isJailed || v.isTombstoned)) then
      some blockHash
    else none
  | .ownProposal blockHash =>
    if (e.retryPendingPrevoteFor blockHash).isNone ∧ e.state.phase = .propose then some blockHash
    else none
  | _ => none

theorem BftEngine.accepts_hash {reg : StakeRegistry} {e : BftEngine} {call : EngineCall} {h : Hash}
    (accepted : e.accepts reg call = some h) :
    call = .ownProposal h ∨ ∃ proposer, call = .proposal h proposer := by
  unfold accepts at accepted
  split at accepted
  · split at accepted
    · cases accepted
      exact Or.inr ⟨_, rfl⟩
    · cases accepted
  · split at accepted
    · cases accepted
      exact Or.inl rfl
    · cases accepted
  · cases accepted

/-- Votes and statuses are weighted by what the registry holds for the sender. -/
def BftEngine.perform (reg : StakeRegistry) (e : BftEngine) : EngineCall → BftEngine × BftAction
  | .advanceRound => (e.advanceRound, .wait)
  | .catchUpRound target => ((e.catchUpRound target.val).1, .wait)
  | .proposal blockHash proposer => e.onProposal blockHash proposer reg
  | .ownProposal blockHash => e.onOwnProposal blockHash
  | .prevote order p => e.onPrevoteWeighted order p (reg.voteStake p.validator)
  | .precommit order listing p => e.onPrecommitWeighted order listing p (reg.voteStake p.validator)
  | .timeout => e.onTimeout
  | .roundStatus order status => e.onRoundStatusWeighted order status (reg.voteStake status.validator)
  | .legacyRoundStatus status => e.onRoundStatus status
  | .stash blockHash bytes => (e.stashProposalBytes blockHash bytes, .wait)
  | .markPrevoteCast => (e.markPrevoteCast, .wait)
  | .markPrecommitCast => (e.markPrecommitCast, .wait)

structure Core where
  height : Nat
  round : Nat
  phase : BftPhase
  lockedHash : Option Hash
  lockedRound : Option Nat
  prevotes : Table Address (Option Hash × Nat)
  precommits : Table Address (Option Hash × Bytes × Nat)
  collector : VoteCollector
  totalActiveStake : Nat
  ourAddress : Address

namespace Core

def advance (c : Core) : Core :=
  { c with
    round := satAdd32 c.round 1
    phase := .propose
    prevotes := ∅
    precommits := ∅
    collector := VoteCollector.new }

def countPrevote (c : Core) (p : Prevote) (stake : Nat) : Core :=
  { c with
    prevotes := c.prevotes.insert p.validator (p.blockHash, stake)
    collector := c.collector.addPrevote p.blockHash stake }

def countPrecommit (c : Core) (p : Precommit) (stake : Nat) : Core :=
  { c with
    precommits := c.precommits.insert p.validator (p.blockHash, p.signature, stake)
    collector := c.collector.addPrecommit p.blockHash stake }

def enter (c : Core) (phase : BftPhase) : Core :=
  { c with phase := phase }

def unlock (c : Core) : Core :=
  { c with lockedHash := none, lockedRound := none }

def toPrecommit (c : Core) : Option Hash → Core
  | some h => { c with phase := .precommit, lockedHash := some h, lockedRound := some c.round }
  | none => c.enter .precommit

end Core

namespace BftEngine

def core (e : BftEngine) : Core where
  height := e.state.height
  round := e.state.round
  phase := e.state.phase
  lockedHash := e.state.lockedHash
  lockedRound := e.state.lockedRound
  prevotes := e.state.prevotes
  precommits := e.state.precommits
  collector := e.collector
  totalActiveStake := e.state.totalActiveStake
  ourAddress := e.ourAddress

theorem core_advanceRound (e : BftEngine) : e.advanceRound.core = e.core.advance := rfl

theorem core_recordPrevote (e : BftEngine) (p : Prevote) (stake : Nat) :
    (e.recordPrevote p stake).core = e.core.countPrevote p stake := rfl

theorem core_recordPrecommit (e : BftEngine) (p : Precommit) (stake : Nat) :
    (e.recordPrecommit p stake).core = e.core.countPrecommit p stake := rfl

theorem core_enterPrecommit (e : BftEngine) (hash : Option Hash) :
    (e.enterPrecommit hash).core = e.core.toPrecommit hash := by
  cases hash <;> rfl

theorem core_iterate_advanceRound (n : Nat) (e : BftEngine) :
    (Nat.iterate advanceRound n e).core = Nat.iterate Core.advance n e.core := by
  induction n generalizing e with
  | zero => rfl
  | succ n ih => exact ih e.advanceRound

theorem pending_iterate_advanceRound (n : Nat) (e : BftEngine) :
    (Nat.iterate advanceRound (n + 1) e).pendingPrevote = none ∧
      (Nat.iterate advanceRound (n + 1) e).pendingPrecommit = none := by
  induction n generalizing e with
  | zero => exact ⟨rfl, rfl⟩
  | succ n ih => exact ih e.advanceRound

end BftEngine

theorem Core.iterate_advance (c : Core) (steps : Nat) (fits : c.round + steps + 1 ≤ u32Max) :
    Nat.iterate Core.advance (steps + 1) c = { c.advance with round := c.round + steps + 1 } := by
  have first : c.advance.round = c.round + 1 := satAdd_eq_add (by omega)
  induction steps generalizing c with
  | zero =>
    change c.advance = _
    rw [Nat.add_zero, ← first]
  | succ steps ih =>
    have second : c.advance.advance.round = c.advance.round + 1 := satAdd_eq_add (by omega)
    rw [Function.iterate_succ_apply, ih c.advance (by omega) second, first]
    simp only [Core.advance, Core.mk.injEq, and_true, true_and]
    omega

def BftAction.silent : BftAction → Bool
  | .broadcastPrevote _ => false
  | .broadcastPrecommit _ => false
  | .finalizeBlock .. => false
  | _ => true

def PastPrecommitting (phase : BftPhase) : Prop :=
  phase = .precommit ∨ phase = .finalize

structure Settles (e e' : BftEngine) : Prop where
  prevote : e'.pendingPrevote = e.pendingPrevote ∨ e'.pendingPrevote = none
  precommit : e'.pendingPrecommit = e.pendingPrecommit ∨ e'.pendingPrecommit = none

theorem Settles.refl (e : BftEngine) : Settles e e :=
  ⟨Or.inl rfl, Or.inl rfl⟩

theorem Settles.pendingPrevote {e e' : BftEngine} {p : Prevote} (settles : Settles e e')
    (pending : e'.pendingPrevote = some p) : e.pendingPrevote = some p := by
  rcases settles.prevote with same | gone
  · exact same.symm.trans pending
  · rw [gone] at pending; cases pending

theorem Settles.pendingPrecommit {e e' : BftEngine} {p : Precommit} (settles : Settles e e')
    (pending : e'.pendingPrecommit = some p) : e.pendingPrecommit = some p := by
  rcases settles.precommit with same | gone
  · exact same.symm.trans pending
  · rw [gone] at pending; cases pending

structure SendsPrevote (e e' : BftEngine) (action : BftAction) (vote : Option Hash) : Prop where
  precommit : e'.pendingPrecommit = e.pendingPrecommit
  sent : action = .wait ∧ e'.pendingPrevote = e.pendingPrevote ∨
    action = .broadcastPrevote (e.ownPrevote vote) ∧
      e'.pendingPrevote = some (e.ownPrevote vote)

structure SendsPrecommit (e e' : BftEngine) (action : BftAction) (vote : Option Hash) : Prop where
  prevote : e'.pendingPrevote = e.pendingPrevote ∨ e'.pendingPrevote = none
  sent : action = .wait ∧ e'.pendingPrecommit = e.pendingPrecommit ∨
    action = .broadcastPrecommit (e.ownPrecommit vote) ∧
      e'.pendingPrecommit = some (e.ownPrecommit vote)

/-- What a call changes, apart from cached bytes, cast flags and peer rounds. -/
inductive Move (reg : StakeRegistry) (e : BftEngine) (call : EngineCall) (e' : BftEngine) :
    BftAction → Prop where
  | still {action} (core : e'.core = e.core) (settles : Settles e e') (quiet : action.silent)
      (late : ∀ h, call = .ownProposal h → e.state.phase ≠ .propose) : Move reg e call e' action
  | repeatPrevote {p} (same : e' = e) (pending : e.pendingPrevote = some p) :
      Move reg e call e' (.broadcastPrevote p)
  | repeatPrecommit {p} (same : e' = e) (pending : e.pendingPrecommit = some p) :
      Move reg e call e' (.broadcastPrecommit p)
  | advanced (steps : Nat) (core : e'.core = Nat.iterate Core.advance (steps + 1) e.core)
      (reach : call = .advanceRound ∧ steps = 0 ∨ e.state.round + steps + 1 ≤ u32Max)
      (other : ∀ h, call ≠ .ownProposal h)
      (noPrevote : e'.pendingPrevote = none) (noPrecommit : e'.pendingPrecommit = none) :
      Move reg e call e' .wait
  | prevoted {action} (vote : Option Hash) (start : e.state.phase = .propose)
      (source : call = .timeout ∧ vote = none ∨
        ∃ h, e.accepts reg call = some h ∧ e.staleLock h = false ∧ vote = e.voteFor h)
      (core : e'.core = e.core.enter .prevote)
      (sends : SendsPrevote e e' action vote) : Move reg e call e' action
  | relaxed {action} (h : Hash) (start : e.state.phase = .propose)
      (source : e.accepts reg call = some h) (stale : e.staleLock h)
      (core : e'.core = (e.core.enter .prevote).unlock)
      (sends : SendsPrevote e e' action (some h)) : Move reg e call e' action
  | counted (order : HashIter (Option Hash × Nat)) (p : Prevote) (source : call = .prevote order p)
      (height : p.height = e.state.height) (round : p.round = e.state.round)
      (fresh : e.state.prevotes.lookup p.validator = none)
      (core : e'.core = e.core.countPrevote p (reg.voteStake p.validator))
      (settles : Settles e e') : Move reg e call e' .wait
  | locked {action} (order : HashIter (Option Hash × Nat)) (p : Prevote) (hash : Option Hash)
      (source : call = .prevote order p)
      (height : p.height = e.state.height) (round : p.round = e.state.round)
      (fresh : e.state.prevotes.lookup p.validator = none)
      (start : e.state.phase = .prevote)
      (quorum : (e.core.countPrevote p (reg.voteStake p.validator)).collector.prevoteSupermajority
        order e.state.totalActiveStake = some hash)
      (core : e'.core = (e.core.countPrevote p (reg.voteStake p.validator)).toPrecommit hash)
      (sends : SendsPrecommit e e' action hash) : Move reg e call e' action
  | gaveUp {action} (source : call = .timeout) (start : e.state.phase = .prevote)
      (core : e'.core = e.core.toPrecommit none)
      (sends : SendsPrecommit e e' action none) : Move reg e call e' action
  | countedPrecommit {action} (order : HashIter (Option Hash × Nat))
      (listing : HashIter (Address × Option Hash × Bytes × Nat)) (p : Precommit)
      (source : call = .precommit order listing p)
      (height : p.height = e.state.height) (round : p.round = e.state.round)
      (fresh : e.state.precommits.lookup p.validator = none)
      (core : e'.core = e.core.countPrecommit p (reg.voteStake p.validator))
      (settles : Settles e e') (quiet : action.silent) : Move reg e call e' action
  | finalized (order : HashIter (Option Hash × Nat))
      (listing : HashIter (Address × Option Hash × Bytes × Nat)) (p : Precommit) (h : Hash)
      (source : call = .precommit order listing p)
      (height : p.height = e.state.height) (round : p.round = e.state.round)
      (fresh : e.state.precommits.lookup p.validator = none)
      (quorum : (e.core.countPrecommit p
        (reg.voteStake p.validator)).collector.precommitSupermajority
          order e.state.totalActiveStake = some (some h))
      (core : e'.core = (e.core.countPrecommit p (reg.voteStake p.validator)).enter .finalize)
      (settles : Settles e e') :
      Move reg e call e' (.finalizeBlock e'.state.height e'.state.round h (e'.justify listing h))

namespace BftEngine

theorem emitPrevote_sends (e : BftEngine) (vote : Option Hash) :
    (e.emitPrevote (e.ownPrevote vote)).1.core = e.core ∧
      SendsPrevote e (e.emitPrevote (e.ownPrevote vote)).1
        (e.emitPrevote (e.ownPrevote vote)).2 vote := by
  unfold emitPrevote
  split
  · rename_i pending held
    split
    · split
      · rename_i same
        subst same
        exact ⟨rfl, rfl, Or.inr ⟨rfl, held⟩⟩
      · exact ⟨rfl, rfl, Or.inl ⟨rfl, rfl⟩⟩
    · exact ⟨rfl, rfl, Or.inr ⟨rfl, rfl⟩⟩
  · exact ⟨rfl, rfl, Or.inr ⟨rfl, rfl⟩⟩

theorem emitPrecommit_sends (e : BftEngine) (vote : Option Hash) :
    (e.emitPrecommit (e.ownPrecommit vote)).1.core = e.core ∧
      SendsPrecommit e (e.emitPrecommit (e.ownPrecommit vote)).1
        (e.emitPrecommit (e.ownPrecommit vote)).2 vote := by
  unfold emitPrecommit
  split
  · rename_i pending held
    split
    · split
      · rename_i same
        subst same
        exact ⟨rfl, Or.inl rfl, Or.inr ⟨rfl, held⟩⟩
      · exact ⟨rfl, Or.inl rfl, Or.inl ⟨rfl, rfl⟩⟩
    · exact ⟨rfl, Or.inl rfl, Or.inr ⟨rfl, rfl⟩⟩
  · exact ⟨rfl, Or.inl rfl, Or.inr ⟨rfl, rfl⟩⟩

variable {e : BftEngine} {blockHash : Hash}

theorem voteFor_unlocked {h : Hash} (vote : e.voteFor blockHash = some h) :
    h = blockHash ∧ (e.state.lockedHash = none ∨ e.state.lockedHash = some h) := by
  unfold voteFor at vote
  split at vote
  · rename_i locked held
    split at vote
    · cases vote
    · rename_i same
      simp only [ne_eq, not_not] at same
      cases vote
      exact ⟨rfl, Or.inr (same ▸ held)⟩
  · rename_i free
    cases vote
    exact ⟨rfl, Or.inl free⟩

variable {reg : StakeRegistry} {call : EngineCall}

theorem acceptProposal_move (source : e.accepts reg call = some blockHash)
    (start : e.state.phase = .propose) :
    Move reg e call (e.acceptProposal blockHash).1 (e.acceptProposal blockHash).2 := by
  unfold acceptProposal
  split
  · -- the stale lock is dropped, so the vote is for the proposal
    rename_i stale
    simp only
    split
    · exact .relaxed blockHash start source stale rfl ⟨rfl, Or.inl ⟨rfl, rfl⟩⟩
    · have emitted := emitPrevote_sends (e.dropLock.enterPrevote (some blockHash)) (some blockHash)
      exact .relaxed blockHash start source stale emitted.1
        ⟨emitted.2.precommit, emitted.2.sent⟩
  · rename_i kept
    have voted : ∃ h, e.accepts reg call = some h ∧ e.staleLock h = false ∧
        e.voteFor blockHash = e.voteFor h := ⟨blockHash, source, by simpa using kept, rfl⟩
    simp only
    split
    · exact .prevoted (e.voteFor blockHash) start (Or.inr voted) rfl ⟨rfl, Or.inl ⟨rfl, rfl⟩⟩
    · have emitted := emitPrevote_sends (e.enterPrevote (some blockHash)) (e.voteFor blockHash)
      exact .prevoted (e.voteFor blockHash) start (Or.inr voted) emitted.1
        ⟨emitted.2.precommit, emitted.2.sent⟩

theorem retryPendingPrevoteFor_move {action : BftAction}
    (retry : e.retryPendingPrevoteFor blockHash = some action) : Move reg e call e action := by
  unfold retryPendingPrevoteFor at retry
  split at retry
  · rename_i pending held
    split at retry
    · cases retry
      exact .repeatPrevote rfl held
    · cases retry
  · cases retry

theorem Move.waits (late : ∀ h, call = .ownProposal h → e.state.phase ≠ .propose) :
    Move reg e call e .wait :=
  .still rfl (Settles.refl e) rfl late

theorem onProposal_move (e : BftEngine) (blockHash : Hash) (proposer : Address)
    (reg : StakeRegistry) :
    Move reg e (.proposal blockHash proposer) (e.onProposal blockHash proposer reg).1
      (e.onProposal blockHash proposer reg).2 := by
  unfold onProposal
  split
  · rename_i action retry
    exact retryPendingPrevoteFor_move retry
  rename_i idle
  split
  · exact Move.waits nofun
  rename_i start
  split
  · exact Move.waits nofun
  rename_i turn
  simp only [ne_eq, not_not] at start turn
  have guards (standing : (reg.getValidator proposer).all
      (fun v => !(v.isJailed || v.isTombstoned))) :
      e.accepts reg (.proposal blockHash proposer) = some blockHash :=
    if_pos ⟨by rw [idle]; rfl, start, turn, standing⟩
  split
  · rename_i v known
    split
    · exact Move.waits nofun
    · rename_i standing
      exact acceptProposal_move (guards (by rw [known]; simpa using standing)) start
  · rename_i unknown
    exact acceptProposal_move (guards (by rw [unknown]; rfl)) start

theorem onOwnProposal_move (reg : StakeRegistry) (e : BftEngine) (blockHash : Hash) :
    Move reg e (.ownProposal blockHash) (e.onOwnProposal blockHash).1
      (e.onOwnProposal blockHash).2 := by
  unfold onOwnProposal
  split
  · rename_i action retry
    exact retryPendingPrevoteFor_move retry
  rename_i idle
  split
  · rename_i late
    exact Move.waits fun _ _ => late
  · rename_i start
    simp only [ne_eq, not_not] at start
    exact acceptProposal_move (if_pos ⟨by rw [idle]; rfl, start⟩) start

theorem settlePrevote_settles {settled : BftEngine} {p : Prevote}
    (ok : e.settlePrevote p = some settled) :
    settled.core = e.core ∧ settled.pendingPrecommit = e.pendingPrecommit ∧ Settles e settled := by
  unfold settlePrevote at ok
  split at ok
  · split at ok
    · split at ok
      · cases ok
      · cases ok
        exact ⟨rfl, rfl, Or.inr rfl, Or.inl rfl⟩
    · cases ok
      exact ⟨rfl, rfl, Settles.refl e⟩
  · cases ok
    exact ⟨rfl, rfl, Settles.refl e⟩

theorem settlePrecommit_settles {settled : BftEngine} {p : Precommit}
    (ok : e.settlePrecommit p = some settled) : settled.core = e.core ∧ Settles e settled := by
  unfold settlePrecommit at ok
  split at ok
  · split at ok
    · split at ok
      · cases ok
      · cases ok
        exact ⟨rfl, Or.inl rfl, Or.inr rfl⟩
    · cases ok
      exact ⟨rfl, Settles.refl e⟩
  · cases ok
    exact ⟨rfl, Settles.refl e⟩

theorem ownPrecommit_core (e e' : BftEngine) (vote : Option Hash)
    (height : e'.core.height = e.core.height) (round : e'.core.round = e.core.round)
    (address : e'.core.ourAddress = e.core.ourAddress) :
    e'.ownPrecommit vote = e.ownPrecommit vote := by
  change (⟨e'.core.height, e'.core.round, vote, e'.core.ourAddress, []⟩ : Precommit) = _
  rw [height, round, address]
  rfl

theorem enterPrecommit_pending (e : BftEngine) (hash : Option Hash) :
    (e.enterPrecommit hash).pendingPrevote = e.pendingPrevote ∧
      (e.enterPrecommit hash).pendingPrecommit = e.pendingPrecommit := by
  cases hash <;> exact ⟨rfl, rfl⟩

theorem enterPrecommit_ownPrecommit (e : BftEngine) (hash vote : Option Hash) :
    (e.enterPrecommit hash).ownPrecommit vote = e.ownPrecommit vote := by
  cases hash <;> rfl

theorem checkPrevotes_move {order : HashIter (Option Hash × Nat)} {counted : BftEngine}
    {p : Prevote} (height : p.height = e.state.height) (round : p.round = e.state.round)
    (fresh : e.state.prevotes.lookup p.validator = none)
    (core : counted.core = e.core.countPrevote p (reg.voteStake p.validator))
    (settles : Settles e counted) (precommit : counted.pendingPrecommit = e.pendingPrecommit) :
    Move reg e (.prevote order p) (counted.checkPrevotes order).1
      (counted.checkPrevotes order).2 := by
  have total : counted.state.totalActiveStake = e.state.totalActiveStake :=
    congrArg Core.totalActiveStake core
  unfold checkPrevotes
  rw [total, show counted.collector = _ from congrArg Core.collector core]
  split
  · rename_i hash quorum
    split
    · rename_i start
      have began : e.state.phase = .prevote :=
        (show counted.state.phase = e.state.phase from congrArg Core.phase core) ▸ start
      have entered : (counted.enterPrecommit hash).core =
          (e.core.countPrevote p (reg.voteStake p.validator)).toPrecommit hash := by
        rw [core_enterPrecommit, core]
      have kept := enterPrecommit_pending counted hash
      have own : (counted.enterPrecommit hash).ownPrecommit hash = e.ownPrecommit hash := by
        rw [enterPrecommit_ownPrecommit]
        exact ownPrecommit_core e counted hash (by rw [core]; rfl) (by rw [core]; rfl)
          (by rw [core]; rfl)
      simp only
      split
      · refine .locked order p hash rfl height round fresh began quorum entered ⟨?_, ?_⟩
        · rw [kept.1]
          exact settles.prevote
        · exact Or.inl ⟨rfl, kept.2.trans precommit⟩
      · have emitted := emitPrecommit_sends (counted.enterPrecommit hash) hash
        refine .locked order p hash rfl height round fresh began quorum
          (emitted.1.trans entered) ⟨?_, ?_⟩
        · rcases emitted.2.prevote with same | gone
          · rw [same, kept.1]
            exact settles.prevote
          · exact Or.inr gone
        · have sent := emitted.2.sent
          rw [own, kept.2, precommit] at sent
          rw [own]
          exact sent
    · exact .counted order p rfl height round fresh core settles
  · exact .counted order p rfl height round fresh core settles

theorem onPrevoteWeighted_move (reg : StakeRegistry) (order : HashIter (Option Hash × Nat))
    (e : BftEngine) (p : Prevote) :
    Move reg e (.prevote order p)
      (e.onPrevoteWeighted order p (reg.voteStake p.validator)).1
      (e.onPrevoteWeighted order p (reg.voteStake p.validator)).2 := by
  unfold onPrevoteWeighted
  split
  · exact Move.waits nofun
  rename_i height
  split
  · exact Move.waits nofun
  rename_i round
  simp only [ne_eq, not_not] at height round
  split
  · exact Move.waits nofun
  rename_i settled ok
  obtain ⟨core, precommit, settles⟩ := settlePrevote_settles ok
  split
  · exact .still core settles rfl nofun
  rename_i fresh
  have same : settled.state.prevotes = e.state.prevotes := congrArg Core.prevotes core
  rw [same] at fresh
  exact checkPrevotes_move height round (by simpa using fresh) (by rw [core_recordPrevote, core])
    ⟨settles.prevote, settles.precommit⟩ precommit

theorem checkPrecommits_move {order : HashIter (Option Hash × Nat)}
    {listing : HashIter (Address × Option Hash × Bytes × Nat)} {counted : BftEngine}
    {p : Precommit} (height : p.height = e.state.height) (round : p.round = e.state.round)
    (fresh : e.state.precommits.lookup p.validator = none)
    (core : counted.core = e.core.countPrecommit p (reg.voteStake p.validator))
    (settles : Settles e counted) :
    Move reg e (.precommit order listing p) (counted.checkPrecommits order listing).1
      (counted.checkPrecommits order listing).2 := by
  have total : counted.state.totalActiveStake = e.state.totalActiveStake :=
    congrArg Core.totalActiveStake core
  have tallies : counted.collector =
      (e.core.countPrecommit p (reg.voteStake p.validator)).collector :=
    congrArg Core.collector core
  unfold checkPrecommits
  split
  · rename_i h quorum
    rw [total, tallies] at quorum
    refine .finalized order listing p h rfl height round fresh quorum ?_
      ⟨settles.prevote, settles.precommit⟩
    rw [← core]
    rfl
  all_goals exact .countedPrecommit order listing p rfl height round fresh core settles rfl

theorem onPrecommitWeighted_move (reg : StakeRegistry) (order : HashIter (Option Hash × Nat))
    (listing : HashIter (Address × Option Hash × Bytes × Nat)) (e : BftEngine) (p : Precommit) :
    Move reg e (.precommit order listing p)
      (e.onPrecommitWeighted order listing p (reg.voteStake p.validator)).1
      (e.onPrecommitWeighted order listing p (reg.voteStake p.validator)).2 := by
  unfold onPrecommitWeighted
  split
  · exact Move.waits nofun
  rename_i height
  split
  · exact Move.waits nofun
  rename_i round
  simp only [ne_eq, not_not] at height round
  split
  · exact Move.waits nofun
  rename_i settled ok
  obtain ⟨core, settles⟩ := settlePrecommit_settles ok
  split
  · exact .still core settles rfl nofun
  rename_i fresh
  have same : settled.state.precommits = e.state.precommits := congrArg Core.precommits core
  rw [same] at fresh
  exact checkPrecommits_move height round (by simpa using fresh)
    (by rw [core_recordPrecommit, core]) ⟨settles.prevote, settles.precommit⟩

theorem onTimeout_move (reg : StakeRegistry) (e : BftEngine) :
    Move reg e .timeout e.onTimeout.1 e.onTimeout.2 := by
  unfold onTimeout
  split
  · rename_i held
    exact .repeatPrevote rfl held
  · rename_i held
    exact .repeatPrecommit rfl held
  · split
    · rename_i start
      simp only
      split
      · exact .prevoted none start (Or.inl ⟨rfl, rfl⟩) rfl ⟨rfl, Or.inl ⟨rfl, rfl⟩⟩
      · have emitted := emitPrevote_sends (e.enterPrevote e.state.proposedHash) none
        exact .prevoted none start (Or.inl ⟨rfl, rfl⟩) emitted.1
          ⟨emitted.2.precommit, emitted.2.sent⟩
    · rename_i start
      simp only
      split
      · exact .gaveUp rfl start rfl ⟨Or.inl rfl, Or.inl ⟨rfl, rfl⟩⟩
      · have emitted := emitPrecommit_sends (e.enterPrecommit none) none
        exact .gaveUp rfl start emitted.1 ⟨emitted.2.prevote, emitted.2.sent⟩
    · split <;> exact .still rfl (Settles.refl e) rfl nofun
    · exact Move.waits nofun

theorem catchUpRound_move (reg : StakeRegistry) (call : EngineCall) (e noted : BftEngine)
    {target : Nat} (word : target ≤ u32Max) (other : ∀ h, call ≠ .ownProposal h)
    (core : noted.core = e.core) (settles : Settles e noted) :
    (noted.catchUpRound target).2 = none ∧
      Move reg e call (noted.catchUpRound target).1 .wait := by
  unfold catchUpRound
  split
  · exact ⟨rfl, .still core settles rfl fun h own => absurd own (other h)⟩
  · rename_i ahead
    refine ⟨rfl, ?_⟩
    have sameRound : noted.state.round = e.state.round := congrArg Core.round core
    have steps : target - noted.state.round = (target - noted.state.round - 1) + 1 := by omega
    rw [steps]
    have pending := pending_iterate_advanceRound (target - noted.state.round - 1) noted
    refine .advanced (target - noted.state.round - 1) ?_ (Or.inr (by omega)) other pending.1
      pending.2
    rw [core_iterate_advanceRound, core]

theorem onRoundStatusWeighted_move (reg : StakeRegistry) (order : HashIter (Word32 × Nat))
    (e : BftEngine) (status : RoundStatus) (stake : Nat) :
    Move reg e (.roundStatus order status) (e.onRoundStatusWeighted order status stake).1
      (e.onRoundStatusWeighted order status stake).2 := by
  have noted : Move reg e (.roundStatus order status) (e.notePeerRound status stake) .wait :=
    .still rfl ⟨Or.inl rfl, Or.inl rfl⟩ rfl nofun
  unfold onRoundStatusWeighted
  split
  · exact .still rfl (Settles.refl e) rfl nofun
  split
  · exact Move.waits nofun
  simp only
  split
  · rename_i target _
    have caught := catchUpRound_move reg (.roundStatus order status) e
      (e.notePeerRound status stake) target.val_le nofun rfl ⟨Or.inl rfl, Or.inl rfl⟩
    split
    · split
      · rename_i result prevote eq
        rw [eq] at caught
        cases caught.1
      · rename_i result eq
        rw [eq] at caught
        exact caught.2
    · exact noted
  · exact noted

theorem onRoundStatus_move (reg : StakeRegistry) (e : BftEngine) (status : RoundStatus) :
    Move reg e (.legacyRoundStatus status) (e.onRoundStatus status).1
      (e.onRoundStatus status).2 := by
  unfold onRoundStatus
  split
  · exact .still rfl (Settles.refl e) rfl nofun
  split
  · have word : status.round.val - 1 ≤ u32Max := Nat.le_trans (Nat.sub_le _ _) status.round.val_le
    have caught := catchUpRound_move reg (.legacyRoundStatus status) e e word nofun rfl
      (Settles.refl e)
    split
    · rename_i result prevote eq
      rw [eq] at caught
      cases caught.1
    · rename_i result eq
      rw [eq] at caught
      exact caught.2
  · exact Move.waits nofun

theorem perform_move (reg : StakeRegistry) (e : BftEngine) (call : EngineCall) :
    Move reg e call (e.perform reg call).1 (e.perform reg call).2 := by
  cases call with
  | advanceRound => exact .advanced 0 (core_advanceRound e) (Or.inl ⟨rfl, rfl⟩) nofun rfl rfl
  | catchUpRound target =>
    exact (catchUpRound_move reg (.catchUpRound target) e e target.val_le nofun rfl
      (Settles.refl e)).2
  | proposal blockHash proposer => exact onProposal_move e blockHash proposer reg
  | ownProposal blockHash => exact onOwnProposal_move reg e blockHash
  | prevote order p => exact onPrevoteWeighted_move reg order e p
  | precommit order listing p => exact onPrecommitWeighted_move reg order listing e p
  | timeout => exact onTimeout_move reg e
  | roundStatus order status => exact onRoundStatusWeighted_move reg order e status _
  | legacyRoundStatus status => exact onRoundStatus_move reg e status
  | stash blockHash bytes => exact .still rfl ⟨Or.inl rfl, Or.inl rfl⟩ rfl nofun
  | markPrevoteCast => exact .still rfl ⟨Or.inl rfl, Or.inl rfl⟩ rfl nofun
  | markPrecommitCast => exact .still rfl ⟨Or.inl rfl, Or.inl rfl⟩ rfl nofun

end BftEngine
end SentrixEngine
