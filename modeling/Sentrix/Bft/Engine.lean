import Sentrix.Bft.Messages
import Sentrix.Staking.Registry

/-!
The consensus engine of one validator: round state, vote tallies, and one function per
call of the validator loop, each returning the engine after the call and the action
handed back to the loop.
-/
namespace SentrixEngine
open MachineWords HashTable SentrixPrimitives SentrixMessages SentrixStaking

def maxRound : Nat := 100
def staleLockRoundGap : Nat := 16

inductive BftPhase where
  | propose | prevote | precommit | finalize
  deriving DecidableEq, Repr

abbrev Tally := Table (Option Hash) Nat

def Tally.add (tally : Tally) (blockHash : Option Hash) (stake : Nat) : Tally :=
  tally.insert blockHash (wrapAdd64 ((tally.lookup blockHash).getD 0) stake)

/-- The first entry over the threshold, in the order this pass visits them. -/
def Tally.supermajority (order : HashIter (Option Hash × Nat)) (tally : Tally)
    (totalStake : Nat) : Option (Option Hash) :=
  ((order.visit tally.pairs).find? fun entry =>
    supermajorityThreshold totalStake ≤ entry.2).map Prod.fst

structure VoteCollector where
  prevoteTally : Tally
  precommitTally : Tally
  deriving DecidableEq

namespace VoteCollector

def new : VoteCollector := ⟨∅, ∅⟩

def addPrevote (c : VoteCollector) (blockHash : Option Hash) (stake : Nat) : VoteCollector :=
  { c with prevoteTally := c.prevoteTally.add blockHash stake }

def addPrecommit (c : VoteCollector) (blockHash : Option Hash) (stake : Nat) : VoteCollector :=
  { c with precommitTally := c.precommitTally.add blockHash stake }

def prevoteSupermajority (order : HashIter (Option Hash × Nat)) (c : VoteCollector)
    (totalStake : Nat) : Option (Option Hash) :=
  c.prevoteTally.supermajority order totalStake

def precommitSupermajority (order : HashIter (Option Hash × Nat)) (c : VoteCollector)
    (totalStake : Nat) : Option (Option Hash) :=
  c.precommitTally.supermajority order totalStake

end VoteCollector

structure BftRoundState where
  height : Nat
  round : Nat
  phase : BftPhase
  proposedHash : Option Hash
  prevotes : Table Address (Option Hash × Nat)
  precommits : Table Address (Option Hash × Bytes × Nat)
  ourPrevoteCast : Bool
  ourPrecommitCast : Bool
  lockedHash : Option Hash
  lockedRound : Option Nat
  lockedBlock : Option Bytes
  stagingBlock : Option (Hash × Bytes)
  totalActiveStake : Nat
  deriving DecidableEq

namespace BftRoundState

def new (height round totalActiveStake : Nat) : BftRoundState where
  height := height
  round := round
  phase := .propose
  proposedHash := none
  prevotes := ∅
  precommits := ∅
  ourPrevoteCast := false
  ourPrecommitCast := false
  lockedHash := none
  lockedRound := none
  lockedBlock := none
  stagingBlock := none
  totalActiveStake := totalActiveStake

/-- The lock and its bytes survive a round change; everything else is per round. -/
def advanceRound (s : BftRoundState) : BftRoundState :=
  { s with
    round := satAdd32 s.round 1
    phase := .propose
    proposedHash := none
    prevotes := ∅
    precommits := ∅
    ourPrevoteCast := false
    ourPrecommitCast := false
    stagingBlock := none }

/-- Pin the lock to `hash` and promote staged bytes that belong to it. -/
def lockOn (s : BftRoundState) (hash : Hash) : BftRoundState :=
  let kept := if s.lockedHash = some hash then s.lockedBlock else none
  let promoted := match s.stagingBlock with
    | some (stagedHash, stagedBytes) => if stagedHash = hash then some stagedBytes else kept
    | none => kept
  { s with
    lockedHash := some hash
    lockedRound := some s.round
    lockedBlock := promoted
    stagingBlock := none }

end BftRoundState

inductive BftAction where
  | proposeBlock
  | broadcastPrevote (prevote : Prevote)
  | broadcastPrecommit (precommit : Precommit)
  | finalizeBlock (height round : Nat) (blockHash : Hash) (justification : BlockJustification)
  | skipRound
  | timeoutAdvanceRound
  | wait
  | syncNeeded (peerHeight : Nat)
  deriving DecidableEq, Repr

structure BftEngine where
  state : BftRoundState
  collector : VoteCollector
  ourAddress : Address
  pendingPrevote : Option Prevote
  pendingPrecommit : Option Precommit
  peerRounds : Table Address (Word32 × Nat)
  deriving DecidableEq

namespace BftEngine

def new (height : Nat) (ourAddress : Address) (totalActiveStake : Nat) : BftEngine where
  state := BftRoundState.new height 0 totalActiveStake
  collector := VoteCollector.new
  ourAddress := ourAddress
  pendingPrevote := none
  pendingPrecommit := none
  peerRounds := ∅

def newHeight (e : BftEngine) (height totalActiveStake : Nat) : BftEngine :=
  { e with
    state := BftRoundState.new height 0 totalActiveStake
    collector := VoteCollector.new
    pendingPrevote := none
    pendingPrecommit := none
    peerRounds := ∅ }

def advanceRound (e : BftEngine) : BftEngine :=
  { e with
    state := e.state.advanceRound
    collector := VoteCollector.new
    pendingPrevote := none
    pendingPrecommit := none }

/-- Fast-forward to a higher round. No vote is cast: the second component, a
prevote for the caller to send, is never present. -/
def catchUpRound (e : BftEngine) (targetRound : Nat) : BftEngine × Option Prevote :=
  if targetRound ≤ e.state.round then (e, none)
  else (Nat.iterate advanceRound (targetRound - e.state.round) e, none)

def isProposer (e : BftEngine) (reg : StakeRegistry) : Bool :=
  reg.weightedProposer e.state.height e.state.round == some e.ourAddress

def ownPrevote (e : BftEngine) (blockHash : Option Hash) : Prevote :=
  ⟨e.state.height, e.state.round, blockHash, e.ourAddress, []⟩

def ownPrecommit (e : BftEngine) (blockHash : Option Hash) : Precommit :=
  ⟨e.state.height, e.state.round, blockHash, e.ourAddress, []⟩

def emitPrevote (e : BftEngine) (prevote : Prevote) : BftEngine × BftAction :=
  match e.pendingPrevote with
  | some pending =>
    if pending.height = prevote.height ∧ pending.round = prevote.round ∧
        pending.validator = prevote.validator then
      if pending = prevote then (e, .broadcastPrevote pending) else (e, .wait)
    else ({ e with pendingPrevote := some prevote }, .broadcastPrevote prevote)
  | none => ({ e with pendingPrevote := some prevote }, .broadcastPrevote prevote)

def emitPrecommit (e : BftEngine) (precommit : Precommit) : BftEngine × BftAction :=
  match e.pendingPrecommit with
  | some pending =>
    if pending.height = precommit.height ∧ pending.round = precommit.round ∧
        pending.validator = precommit.validator then
      if pending = precommit then (e, .broadcastPrecommit pending) else (e, .wait)
    else ({ e with pendingPrecommit := some precommit }, .broadcastPrecommit precommit)
  | none => ({ e with pendingPrecommit := some precommit }, .broadcastPrecommit precommit)

def retryPendingPrevoteFor (e : BftEngine) (blockHash : Hash) : Option BftAction :=
  match e.pendingPrevote with
  | some pending =>
    if pending.height = e.state.height ∧ pending.round = e.state.round ∧
        pending.blockHash = some blockHash then some (.broadcastPrevote pending)
    else none
  | none => none

/-- The lock is on another hash, has no cached bytes and is many rounds old. -/
def staleLock (e : BftEngine) (blockHash : Hash) : Bool :=
  match e.state.lockedHash, e.state.lockedRound with
  | some lockedHash, some lockedRound =>
    lockedHash ≠ blockHash ∧ e.state.lockedBlock = none ∧
      staleLockRoundGap ≤ e.state.round - lockedRound
  | _, _ => false

def dropLock (e : BftEngine) : BftEngine :=
  { e with state := { e.state with lockedHash := none, lockedRound := none, stagingBlock := none } }

def voteFor (e : BftEngine) (blockHash : Hash) : Option Hash :=
  match e.state.lockedHash with
  | some locked => if locked ≠ blockHash then none else some blockHash
  | none => some blockHash

def enterPrevote (e : BftEngine) (proposedHash : Option Hash) : BftEngine :=
  { e with state := { e.state with proposedHash := proposedHash, phase := .prevote } }

def acceptProposal (e : BftEngine) (blockHash : Hash) : BftEngine × BftAction :=
  let relaxed := if e.staleLock blockHash then e.dropLock else e
  let entered := relaxed.enterPrevote (some blockHash)
  if entered.state.ourPrevoteCast then (entered, .wait)
  else entered.emitPrevote (entered.ownPrevote (entered.voteFor blockHash))

def onProposal (e : BftEngine) (blockHash : Hash) (proposer : Address) (reg : StakeRegistry) :
    BftEngine × BftAction :=
  match e.retryPendingPrevoteFor blockHash with
  | some action => (e, action)
  | none =>
    if e.state.phase ≠ .propose then (e, .wait)
    else if reg.weightedProposer e.state.height e.state.round ≠ some proposer then (e, .wait)
    else
      match reg.getValidator proposer with
      | some v => if v.isJailed || v.isTombstoned then (e, .wait) else e.acceptProposal blockHash
      | none => e.acceptProposal blockHash

def onOwnProposal (e : BftEngine) (blockHash : Hash) : BftEngine × BftAction :=
  match e.retryPendingPrevoteFor blockHash with
  | some action => (e, action)
  | none => if e.state.phase ≠ .propose then (e, .wait) else e.acceptProposal blockHash

/-- Our own vote coming back must be the pending one, which it then settles. -/
def settlePrevote (e : BftEngine) (prevote : Prevote) : Option BftEngine :=
  if prevote.validator = e.ourAddress then
    match e.pendingPrevote with
    | some pending => if pending ≠ prevote then none else some { e with pendingPrevote := none }
    | none => some e
  else some e

def settlePrecommit (e : BftEngine) (precommit : Precommit) : Option BftEngine :=
  if precommit.validator = e.ourAddress then
    match e.pendingPrecommit with
    | some pending =>
      if pending ≠ precommit then none else some { e with pendingPrecommit := none }
    | none => some e
  else some e

def recordPrevote (e : BftEngine) (prevote : Prevote) (stake : Nat) : BftEngine :=
  { e with
    state := { e.state with
      prevotes := e.state.prevotes.insert prevote.validator (prevote.blockHash, stake) }
    collector := e.collector.addPrevote prevote.blockHash stake }

def recordPrecommit (e : BftEngine) (precommit : Precommit) (stake : Nat) : BftEngine :=
  { e with
    state := { e.state with
      precommits := e.state.precommits.insert precommit.validator
        (precommit.blockHash, precommit.signature, stake) }
    collector := e.collector.addPrecommit precommit.blockHash stake }

/-- A prevote supermajority moves to the precommit phase and, for a real hash, locks. -/
def enterPrecommit (e : BftEngine) (hash : Option Hash) : BftEngine :=
  let entered := { e.state with phase := BftPhase.precommit }
  match hash with
  | some h => { e with state := entered.lockOn h }
  | none => { e with state := entered }

def checkPrevotes (order : HashIter (Option Hash × Nat)) (e : BftEngine) : BftEngine × BftAction :=
  match e.collector.prevoteSupermajority order e.state.totalActiveStake with
  | some hash =>
    if e.state.phase = .prevote then
      let entered := e.enterPrecommit hash
      if entered.state.ourPrecommitCast then (entered, .wait)
      else entered.emitPrecommit (entered.ownPrecommit hash)
    else (e, .wait)
  | none => (e, .wait)

def onPrevoteWeighted (order : HashIter (Option Hash × Nat)) (e : BftEngine) (prevote : Prevote)
    (stake : Nat) : BftEngine × BftAction :=
  if prevote.height ≠ e.state.height then (e, .wait)
  else if prevote.round ≠ e.state.round then (e, .wait)
  else
    match e.settlePrevote prevote with
    | none => (e, .wait)
    | some settled =>
      if (settled.state.prevotes.lookup prevote.validator).isSome then (settled, .wait)
      else (settled.recordPrevote prevote stake).checkPrevotes order

def justify (order : HashIter (Address × Option Hash × Bytes × Nat)) (e : BftEngine)
    (blockHash : Hash) : BlockJustification :=
  (order.visit e.state.precommits.pairs).foldl
    (fun j entry => if entry.2.1 = some blockHash then j.addPrecommit entry.1 entry.2.2.1 entry.2.2.2
      else j)
    (BlockJustification.new e.state.height e.state.round blockHash)

def checkPrecommits (order : HashIter (Option Hash × Nat))
    (listing : HashIter (Address × Option Hash × Bytes × Nat)) (e : BftEngine) :
    BftEngine × BftAction :=
  match e.collector.precommitSupermajority order e.state.totalActiveStake with
  | some (some blockHash) =>
    ({ e with state := { e.state with phase := .finalize } },
      .finalizeBlock e.state.height e.state.round blockHash (e.justify listing blockHash))
  | some none => (e, .skipRound)
  | none => (e, .wait)

def onPrecommitWeighted (order : HashIter (Option Hash × Nat))
    (listing : HashIter (Address × Option Hash × Bytes × Nat)) (e : BftEngine)
    (precommit : Precommit) (stake : Nat) : BftEngine × BftAction :=
  if precommit.height ≠ e.state.height then (e, .wait)
  else if precommit.round ≠ e.state.round then (e, .wait)
  else
    match e.settlePrecommit precommit with
    | none => (e, .wait)
    | some settled =>
      if (settled.state.precommits.lookup precommit.validator).isSome then (settled, .wait)
      else (settled.recordPrecommit precommit stake).checkPrecommits order listing

def onTimeout (e : BftEngine) : BftEngine × BftAction :=
  match e.pendingPrevote, e.pendingPrecommit with
  | some prevote, _ => (e, .broadcastPrevote prevote)
  | none, some precommit => (e, .broadcastPrecommit precommit)
  | none, none =>
    match e.state.phase with
    | .propose =>
      let entered := e.enterPrevote e.state.proposedHash
      if entered.state.ourPrevoteCast then (entered, .wait)
      else entered.emitPrevote (entered.ownPrevote none)
    | .prevote =>
      let entered := e.enterPrecommit none
      if entered.state.ourPrecommitCast then (entered, .wait)
      else entered.emitPrecommit (entered.ownPrecommit none)
    | .precommit => if maxRound ≤ e.state.round then (e, .skipRound) else (e, .timeoutAdvanceRound)
    | .finalize => (e, .wait)

/-- The largest round that peers ahead of us, holding `threshold` stake together,
have all reached. -/
def roundReached (order : HashIter (Word32 × Nat)) (e : BftEngine) (threshold : Nat) :
    Option Word32 :=
  if e.state.totalActiveStake = 0 then none
  else
    let peers := (order.visit (e.peerRounds.pairs.map Prod.snd)).filter (e.state.round < ·.1.val)
    scan 0 (peers.insertionSort fun a b => b.1 ≤ a.1)
where
  scan (accumulated : Nat) : List (Word32 × Nat) → Option Word32
    | [] => none
    | (round, stake) :: rest =>
      if threshold ≤ satAdd64 accumulated stake then some round
      else scan (satAdd64 accumulated stake) rest

def peerSupermajorityHigherRound (order : HashIter (Word32 × Nat)) (e : BftEngine) : Option Word32 :=
  e.roundReached order (supermajorityThreshold e.state.totalActiveStake)

def fPlusOneRound (order : HashIter (Word32 × Nat)) (e : BftEngine) : Option Word32 :=
  e.roundReached order (e.state.totalActiveStake / 3 + 1)

def notePeerRound (e : BftEngine) (status : RoundStatus) (stake : Nat) : BftEngine :=
  let seen := ((e.peerRounds.lookup status.validator).getD (0, stake)).1
  let highest := if seen ≤ status.round then status.round else seen
  { e with peerRounds := e.peerRounds.insert status.validator (highest, stake) }

def onRoundStatusWeighted (order : HashIter (Word32 × Nat)) (e : BftEngine) (status : RoundStatus)
    (stake : Nat) : BftEngine × BftAction :=
  if e.state.height < status.height then (e, .syncNeeded status.height)
  else if status.height < e.state.height then (e, .wait)
  else
    let noted := e.notePeerRound status stake
    match noted.fPlusOneRound order with
    | some target =>
      if noted.state.round < target.val then
        match noted.catchUpRound target.val with
        | (caught, some prevote) => (caught, .broadcastPrevote prevote)
        | (caught, none) => (caught, .wait)
      else (noted, .wait)
    | none => (noted, .wait)

/-- The older single-peer rule, kept for callers without the peer's stake. -/
def onRoundStatus (e : BftEngine) (status : RoundStatus) : BftEngine × BftAction :=
  if e.state.height < status.height then (e, .syncNeeded status.height)
  else if status.height = e.state.height ∧ (e.state.round + 1) % 2 ^ 32 < status.round.val then
    match e.catchUpRound (status.round.val - 1) with
    | (caught, some prevote) => (caught, .broadcastPrevote prevote)
    | (caught, none) => (caught, .wait)
  else (e, .wait)

def stashProposalBytes (e : BftEngine) (blockHash : Hash) (bytes : Bytes) : BftEngine :=
  { e with state := { e.state with stagingBlock := some (blockHash, bytes) } }

def lockedProposalBytes (e : BftEngine) : Option (Hash × Bytes) :=
  match e.state.lockedHash, e.state.lockedBlock with
  | some hash, some bytes => some (hash, bytes)
  | _, _ => none

def markPrevoteCast (e : BftEngine) : BftEngine :=
  { e with state := { e.state with ourPrevoteCast := true } }

def markPrecommitCast (e : BftEngine) : BftEngine :=
  { e with state := { e.state with ourPrecommitCast := true } }

end BftEngine
end SentrixEngine
