import Sentrix.Primitives.Basic

/-!
Consensus messages and the byte strings their signatures cover. The payloads
are fixed-width height and round, a text, and one domain byte; a nil vote is
signed over the text `NIL`, the same bytes as a vote for a hash spelled `NIL`.
-/
namespace SentrixMessages
open MachineWords SentrixPrimitives List

/-- At this height the chain id enters the payload; the shipped value keeps it out. -/
def bftSigningV2ForkHeight : Nat := u64Max

def bftV2Magic : UInt8 := 0x20

def bftV2Prefix (chainId : Nat) : Bytes :=
  bftV2Magic :: (leBytes 8 chainId).reverse

def isBftSigningV2Active (height : Nat) : Bool :=
  bftSigningV2ForkHeight ≤ height

def signedText (separator : UInt8) (height round : Nat) (text : String) : Bytes :=
  leBytes 8 height ++ leBytes 4 round ++ textBytes text ++ [separator]

def voteText (blockHash : Option Hash) : String :=
  blockHash.getD "NIL"

structure Prevote where
  height : Nat
  round : Nat
  blockHash : Option Hash
  validator : Address
  signature : Bytes
  deriving DecidableEq, Repr

structure Precommit where
  height : Nat
  round : Nat
  blockHash : Option Hash
  validator : Address
  signature : Bytes
  deriving DecidableEq, Repr

/-- The embedded prevote carries no signature of its own: receivers trust it
because the proposal's signature covers the same height, round and hash. -/
structure Proposal where
  height : Nat
  round : Nat
  blockHash : Hash
  blockData : Bytes
  proposer : Address
  signature : Bytes
  proposerPrevote : Option Prevote
  deriving DecidableEq, Repr

/-- The round is kept as a word: receivers fast-forward to it. -/
structure RoundStatus where
  height : Nat
  round : Word32
  validator : Address
  signature : Bytes
  deriving DecidableEq, Repr

inductive BftMessage where
  | propose (proposal : Proposal)
  | prevote (prevote : Prevote)
  | precommit (precommit : Precommit)
  | roundStatus (status : RoundStatus)
  deriving DecidableEq, Repr

namespace Proposal

def signingPayload (height round : Nat) (blockHash : Hash) : Bytes :=
  signedText 0x01 height round blockHash

def signingPayloadV2 (height round : Nat) (blockHash : Hash) (chainId : Nat) : Bytes :=
  bftV2Prefix chainId ++ signingPayload height round blockHash

def signingPayloadForHeight (height round : Nat) (blockHash : Hash) (chainId : Nat) : Bytes :=
  if isBftSigningV2Active height then signingPayloadV2 height round blockHash chainId
  else signingPayload height round blockHash

end Proposal

namespace Prevote

def signingPayload (height round : Nat) (blockHash : Option Hash) : Bytes :=
  signedText 0x02 height round (voteText blockHash)

def signingPayloadV2 (height round : Nat) (blockHash : Option Hash) (chainId : Nat) : Bytes :=
  bftV2Prefix chainId ++ signingPayload height round blockHash

def signingPayloadForHeight (height round : Nat) (blockHash : Option Hash) (chainId : Nat) :
    Bytes :=
  if isBftSigningV2Active height then signingPayloadV2 height round blockHash chainId
  else signingPayload height round blockHash

def payload (p : Prevote) : Bytes :=
  signingPayload p.height p.round p.blockHash

end Prevote

namespace Precommit

def signingPayload (height round : Nat) (blockHash : Option Hash) : Bytes :=
  signedText 0x03 height round (voteText blockHash)

def signingPayloadV2 (height round : Nat) (blockHash : Option Hash) (chainId : Nat) : Bytes :=
  bftV2Prefix chainId ++ signingPayload height round blockHash

def signingPayloadForHeight (height round : Nat) (blockHash : Option Hash) (chainId : Nat) :
    Bytes :=
  if isBftSigningV2Active height then signingPayloadV2 height round blockHash chainId
  else signingPayload height round blockHash

def payload (p : Precommit) : Bytes :=
  signingPayload p.height p.round p.blockHash

end Precommit

namespace RoundStatus

def signingPayload (height round : Nat) (validator : Address) : Bytes :=
  signedText 0x04 height round validator

end RoundStatus

/-- Public-key recovery over the SHA-256 digest of a payload, and the address of
the recovered key. The length test stands in the code, the rest is library code. -/
structure Recovery where
  recover : Bytes → Bytes → Option Address
  unicode : Unicode := asciiText

def Recovery.recoverSigner (crypto : Recovery) (payload signature : Bytes) : Option Address :=
  if signature.length ≠ 65 then none else crypto.recover payload signature

/-- The wire form of a recoverable signature: `r`, `s` and the recovery id. -/
def signatureBytes (r s v : Nat) : Bytes :=
  (leBytes 65 ((r * 2 ^ 256 + s) * 256 + v)).reverse

def verifyVoteSignature (crypto : Recovery) (payload signature : Bytes)
    (expectedValidator : Address) : Bool :=
  if signature.isEmpty then false
  else crypto.recoverSigner payload signature == some expectedValidator

theorem signedText_inj {separator : UInt8} {height height' round round' : Nat} {text text' : String}
    (height_word : height ≤ u64Max) (height_word' : height' ≤ u64Max)
    (round_word : round ≤ u32Max) (round_word' : round' ≤ u32Max)
    (same : signedText separator height round text = signedText separator height' round' text') :
    height = height' ∧ round = round' ∧ text = text' := by
  unfold signedText at same
  have body := append_cancel_right same
  have front := append_inj body (by simp [length_leBytes])
  have words := append_inj front.1 (by simp [length_leBytes])
  unfold u64Max at height_word height_word'
  unfold u32Max at round_word round_word'
  refine ⟨leBytes_inj ?_ ?_ words.1, leBytes_inj ?_ ?_ words.2, textBytes_inj front.2⟩ <;> omega

theorem voteText_inj {hash : Hash} {vote : Option Hash} (named : hash ≠ "NIL")
    (same : voteText (some hash) = voteText vote) : vote = some hash := by
  cases vote with
  | none => exact absurd same named
  | some other => exact congrArg some (same : hash = other).symm

end SentrixMessages
