import Sentrix.Primitives.Transactions
import Sentrix.Staking.Operations

/-!
Liveness tracking, equivocation evidence and epochs. The tracker records who signed
which height, from the justification of each block.
-/
namespace SentrixStaking
open MachineWords HashTable Effects SentrixPrimitives

def livenessWindow : Nat := 14400
def minSignedPerWindow : Nat := 4320
def downtimeSlashBp : Nat := 10
def downtimeJailBlocks : Nat := 600
def doubleSignSlashBp : Nat := 2000

structure LivenessRecord where
  height : Nat
  signed : Bool
  deriving DecidableEq, Repr

structure LivenessTracker where
  records : Table Address (List LivenessRecord)
  firstSeen : Table Address Nat
  deriving DecidableEq

namespace LivenessTracker

def new : LivenessTracker := ⟨∅, ∅⟩

/-- One entry a height; the oldest fall out of a full window. -/
def recordSigned (t : LivenessTracker) (validator : Address) (height : Nat) : LivenessTracker :=
  let firstSeen := t.firstSeen.insert validator ((t.firstSeen.lookup validator).getD height)
  let entries := (t.records.lookup validator).getD []
  if entries.getLast?.map (·.height) = some height then
    ⟨t.records.insert validator entries, firstSeen⟩
  else
    let grown := entries ++ [⟨height, true⟩]
    ⟨t.records.insert validator (grown.drop (grown.length - livenessWindow)), firstSeen⟩

def isDowntimeAt (t : LivenessTracker) (validator : Address) (currentHeight : Nat) : Bool :=
  if currentHeight < livenessWindow then false
  else
    match t.firstSeen.lookup validator with
    | none => false
    | some first =>
      let cutoff := currentHeight - livenessWindow
      if cutoff < first then false
      else
        let signed := ((t.records.lookup validator).getD []).filter fun r =>
          r.signed && cutoff < r.height
        signed.length < minSignedPerWindow

def getStats (t : LivenessTracker) (validator : Address) : Nat × Nat :=
  let entries := (t.records.lookup validator).getD []
  ((entries.filter (·.signed)).length, (entries.filter (!·.signed)).length)

def reset (t : LivenessTracker) (validator : Address) : LivenessTracker :=
  { t with records := t.records.erase validator }

end LivenessTracker

structure DoubleSignEvidence where
  validator : Address
  height : Nat
  blockHashA : Hash
  blockHashB : Hash
  signatureA : String
  signatureB : String
  deriving DecidableEq, Repr

structure SlashingEngine where
  liveness : LivenessTracker
  /-- Identifiers of evidence already acted on. -/
  processed : List String
  totalSlashed : Nat
  deriving DecidableEq

namespace SlashingEngine

def new : SlashingEngine := ⟨.new, [], 0⟩

/-- `DoubleSignDetector::process_evidence`. The signatures are not looked at. -/
def processEvidence (evidence : DoubleSignEvidence) : EStateM SentrixError SlashingEngine Bool := do
  ensure (evidence.blockHashA != evidence.blockHashB)
    (.invalidTransaction "evidence hashes must differ")
  ensure (!evidence.validator.isEmpty) (.invalidTransaction "evidence missing validator")
  let id := evidence.validator ++ ":" ++ toString evidence.height ++ ":" ++ evidence.blockHashA ++
    ":" ++ evidence.blockHashB
  let engine ← get
  if engine.processed.contains id then pure false
  else do
    let grown := engine.processed ++ [id]
    set { engine with processed := if 1000 < grown.length then grown.drop 500 else grown }
    pure true

structure Bench where
  engine : SlashingEngine
  registry : StakeRegistry

def onEngine {α : Type} (m : EStateM SentrixError SlashingEngine α) : EStateM SentrixError Bench α :=
  focus Bench.engine (fun b e => { b with engine := e }) m

def onRegistry {α : Type} (m : StakeRegistry.Op α) : EStateM SentrixError Bench α :=
  focus Bench.registry (fun b r => { b with registry := r }) m

def addSlashed (e : SlashingEngine) (amount : Nat) : SlashingEngine :=
  { e with totalSlashed := satAdd64 e.totalSlashed amount }

def processDoubleSign (evidence : DoubleSignEvidence) : EStateM SentrixError Bench Nat := do
  let bench ← get
  ensure (!(bench.registry.getValidator evidence.validator).any (·.isTombstoned))
    (.invalidTransaction "validator already tombstoned")
  let fresh ← onEngine (processEvidence evidence)
  if fresh then do
    let amount ← onRegistry (StakeRegistry.slash evidence.validator doubleSignSlashBp)
    onRegistry (StakeRegistry.tombstone evidence.validator)
    modify fun b => { b with engine := b.engine.addSlashed amount }
    pure amount
  else pure 0

/-- One validator of the liveness sweep: slash, jail and clear its window. -/
def checkOne (currentHeight : Nat) (b : Bench) (validator : Address) :
    Bench × Option (Address × Nat) :=
  if !b.engine.liveness.isDowntimeAt validator currentHeight ||
      (b.registry.getValidator validator).any (·.isJailed) then (b, none)
  else
    match StakeRegistry.slash validator downtimeSlashBp b.registry with
    | .error _ reg => ({ b with registry := reg }, none)
    | .ok amount reg =>
      ({ engine := ⟨b.engine.liveness.reset validator, b.engine.processed,
            satAdd64 b.engine.totalSlashed amount⟩
         registry := finalState (StakeRegistry.jail validator downtimeJailBlocks currentHeight) reg },
        some (validator, amount))

def checkLiveness (currentHeight : Nat) : List Address → Bench → Bench × List (Address × Nat)
  | [], b => (b, [])
  | validator :: rest, b =>
    let first := checkOne currentHeight b validator
    let others := checkLiveness currentHeight rest first.1
    (others.1, first.2.toList ++ others.2)

def recordBlockSignatures (e : SlashingEngine) (signers : List Address) (height : Nat) :
    SlashingEngine :=
  { e with liveness := signers.foldl (fun t v => t.recordSigned v height) e.liveness }

def computeJailEvidence (e : SlashingEngine) (activeSet : List Address) (currentHeight : Nat) :
    List JailEvidence :=
  (activeSet.filter fun v => e.liveness.isDowntimeAt v currentHeight).map fun v =>
    ⟨v, (e.liveness.getStats v).1, (e.liveness.getStats v).2, []⟩

end SlashingEngine

def epochLength : Nat := 28800

structure EpochInfo where
  epochNumber : Nat
  startHeight : Nat
  endHeight : Nat
  validatorSet : List Address
  totalStaked : Nat
  totalRewards : Nat
  totalBlocksProduced : Nat
  deriving DecidableEq, Repr

structure EpochManager where
  currentEpoch : EpochInfo
  history : List EpochInfo
  maxHistory : Nat
  deriving DecidableEq, Repr

namespace EpochManager

def new : EpochManager :=
  ⟨⟨0, 0, epochLength - 1, [], 0, 0, 0⟩, [], 100⟩

def epochForHeight (height : Nat) : Nat :=
  height / epochLength

def isEpochBoundary (height : Nat) : Bool :=
  0 < height && (height + 1) % epochLength == 0

def recordBlock (m : EpochManager) (reward : Nat) : EpochManager :=
  { m with currentEpoch := { m.currentEpoch with
      totalBlocksProduced := wrapAdd64 m.currentEpoch.totalBlocksProduced 1
      totalRewards := satAdd64 m.currentEpoch.totalRewards reward } }

def rotate (m : EpochManager) (activeSet : List Address) (totalStaked : Nat) : EpochManager :=
  let archived := m.history ++ [m.currentEpoch]
  let number := wrapAdd64 m.currentEpoch.epochNumber 1
  let start := number * epochLength % 2 ^ 64
  { m with
    history := if m.maxHistory < archived.length then archived.drop 1 else archived
    currentEpoch := ⟨number, start, (start + epochLength - 1) % 2 ^ 64, activeSet, totalStaked, 0, 0⟩ }

end EpochManager
end SentrixStaking
