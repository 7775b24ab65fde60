import Mathlib.Data.Prod.Lex
import Sentrix.Bft.Messages

/-!
The last-sign guard: before a vote or proposal is signed, its height, round and
step must lie above everything signed before, or repeat the last payload. The
record lives in memory and on disk; a failed write leaves the two apart.
-/
namespace SentrixGuard
open SentrixPrimitives SentrixMessages

inductive VoteStep where
  | proposal | prevote | precommit | other
  deriving DecidableEq, Repr

def VoteStep.ord : VoteStep → Nat
  | .proposal => 0
  | .prevote => 1
  | .precommit => 2
  | .other => 99

abbrev SignPoint := Nat ×ₗ Nat ×ₗ Nat

def signPoint (height round step : Nat) : SignPoint :=
  toLex (height, toLex (round, step))

structure LastSignState where
  height : Nat
  round : Nat
  step : Nat
  lastSignBytesHex : String
  deriving DecidableEq, Repr

namespace LastSignState

def initial : LastSignState := ⟨0, 0, 0, ""⟩

def point (s : LastSignState) : SignPoint :=
  signPoint s.height s.round s.step

end LastSignState

structure Guard where
  state : LastSignState
  disk : LastSignState
  deriving DecidableEq, Repr

/-- Start-up: the file if there is one, else a fresh record, written at once. -/
def Guard.init (file : Option LastSignState) : Guard :=
  let state := file.getD .initial
  ⟨state, state⟩

structure DoubleSignAttempt where
  attempted : SignPoint
  lastSigned : SignPoint

/-- `persisted` says whether the write of the record succeeds. Without a
configured path there is no guard and everything passes. -/
def checkAndRecordWithBytes (hashPayload : Bytes → String) (persisted : Bool)
    (guard : Option Guard) (height round : Nat) (step : VoteStep) (payload : Bytes) :
    Option Guard × Except DoubleSignAttempt Unit :=
  match guard with
  | none => (none, .ok ())
  | some g =>
    if step = .other then (some g, .ok ())
    else
      let current := g.state.point
      let requested := signPoint height round step.ord
      if requested = current ∧ payload ≠ [] then
        let newHash := hashPayload payload
        if g.state.lastSignBytesHex ≠ "" ∧ g.state.lastSignBytesHex = newHash then
          (some g, .ok ())
        else (some g, .error ⟨requested, current⟩)
      else if requested ≤ current then (some g, .error ⟨requested, current⟩)
      else
        let recorded : LastSignState :=
          ⟨height, round, step.ord, if payload ≠ [] then hashPayload payload else ""⟩
        if persisted then (some ⟨recorded, recorded⟩, .ok ())
        else (some { g with state := recorded }, .error ⟨requested, current⟩)

section
variable {hashPayload : Bytes → String} {persisted : Bool} {g : Guard} {height round : Nat}
  {step : VoteStep} {payload : Bytes}

theorem check_mono (hashPayload : Bytes → String) (persisted : Bool) (g : Guard)
    (height round : Nat) (step : VoteStep) (payload : Bytes) :
    ∃ g', (checkAndRecordWithBytes hashPayload persisted (some g) height round step
      payload).1 = some g' ∧ g.state.point ≤ g'.state.point := by
  simp only [checkAndRecordWithBytes]
  split
  · exact ⟨g, rfl, le_refl _⟩
  split
  · split <;> exact ⟨g, rfl, le_refl _⟩
  split
  · exact ⟨g, rfl, le_refl _⟩
  · rename_i above
    split <;> exact ⟨_, rfl, (not_le.mp above).le⟩

theorem check_ok (guarded : step ≠ .other)
    (ok : (checkAndRecordWithBytes hashPayload persisted (some g) height round step payload).2 =
      .ok ()) :
    g.state.point ≤ signPoint height round step.ord ∧
      ∃ g', (checkAndRecordWithBytes hashPayload persisted (some g) height round step
        payload).1 = some g' ∧ g'.state.point = signPoint height round step.ord := by
  simp only [checkAndRecordWithBytes, if_neg guarded] at ok ⊢
  split at ok
  · rename_i same
    simp only [if_pos same]
    split at ok
    · rename_i replayed
      exact ⟨same.1.ge, g, by rw [if_pos replayed], same.1.symm⟩
    · cases ok
  · rename_i differs
    simp only [if_neg differs]
    split at ok
    · cases ok
    · rename_i above
      simp only [if_neg above]
      split at ok
      · rename_i written
        exact ⟨(not_le.mp above).le, _, by rw [if_pos written], rfl⟩
      · cases ok

end

structure Signer where
  address : Address
  signPayload : Bytes → Bytes
  hashPayload : Bytes → String

namespace Signer

def signAt (k : Signer) (persisted : Bool) (guard : Option Guard) (height round : Nat)
    (step : VoteStep) (payload : Bytes) : Option Guard × Option Bytes :=
  match checkAndRecordWithBytes k.hashPayload persisted guard height round step payload with
  | (guard, .ok ()) => (guard, some (k.signPayload payload))
  | (guard, .error _) => (guard, none)

def signProposal (k : Signer) (persisted : Bool) (guard : Option Guard) (p : Proposal) :
    Option Guard × Proposal :=
  let signed := k.signAt persisted guard p.height p.round .proposal
    (Proposal.signingPayload p.height p.round p.blockHash)
  (signed.1, { p with signature := signed.2.getD p.signature })

def signPrevote (k : Signer) (persisted : Bool) (guard : Option Guard) (p : Prevote) :
    Option Guard × Prevote :=
  let signed := k.signAt persisted guard p.height p.round .prevote p.payload
  (signed.1, { p with signature := signed.2.getD p.signature })

def signPrecommit (k : Signer) (persisted : Bool) (guard : Option Guard) (p : Precommit) :
    Option Guard × Precommit :=
  let signed := k.signAt persisted guard p.height p.round .precommit p.payload
  (signed.1, { p with signature := signed.2.getD p.signature })

variable {k : Signer} {persisted : Bool} {g : Guard} {height round : Nat} {step : VoteStep}
  {payload : Bytes}

theorem signAt_mono (k : Signer) (persisted : Bool) (g : Guard) (height round : Nat)
    (step : VoteStep) (payload : Bytes) :
    ∃ g', (k.signAt persisted (some g) height round step payload).1 = some g' ∧
      g.state.point ≤ g'.state.point := by
  obtain ⟨g', after, above⟩ := check_mono k.hashPayload persisted g height round step payload
  refine ⟨g', ?_, above⟩
  unfold signAt
  split <;> rename_i found <;> rw [found] at after <;> exact after

theorem signAt_some {signature : Bytes} (guarded : step ≠ .other)
    (signed : (k.signAt persisted (some g) height round step payload).2 = some signature) :
    g.state.point ≤ signPoint height round step.ord ∧
      ∃ g', (k.signAt persisted (some g) height round step payload).1 = some g' ∧
        g'.state.point = signPoint height round step.ord := by
  unfold signAt at signed ⊢
  split at signed
  · rename_i found
    obtain ⟨above, g', after, at_point⟩ := check_ok guarded (congrArg Prod.snd found)
    rw [found] at after
    exact ⟨above, g', after, at_point⟩
  · cases signed

end Signer

theorem signature_given {given : Option Bytes} {old : Bytes} (unsigned : old = [])
    (nonempty : given.getD old ≠ []) : ∃ bytes, given = some bytes := by
  cases given with
  | none => exact absurd unsigned nonempty
  | some bytes => exact ⟨bytes, rfl⟩

end SentrixGuard
