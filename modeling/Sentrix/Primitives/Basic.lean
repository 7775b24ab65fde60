import Sentrix.Lib.MachineWords

/-!
Values shared by every crate: addresses and hashes as text, byte strings, the
error type, and block justifications with their two-thirds threshold.
-/
namespace SentrixPrimitives
open MachineWords

abbrev Address := String
abbrev Hash := String
abbrev Bytes := List UInt8

def textBytes (s : String) : Bytes :=
  s.toByteArray.data.toList

theorem textBytes_inj {s t : String} (same : textBytes s = textBytes t) : s = t := by
  apply String.toByteArray_inj.mp
  exact ByteArray.ext (Array.toList_inj.mp same)

/-- `str::to_lowercase` maps all of Unicode. Of the mapping only what it does to ASCII
texts is known here. -/
structure Unicode where
  lowercase : String → String
  ascii : ∀ s, (∀ c ∈ s.toList, c.toNat < 128) →
    lowercase s = String.ofList (s.toList.map Char.toLower)

def asciiText : Unicode where
  lowercase s := String.ofList (s.toList.map Char.toLower)
  ascii _ _ := rfl

def hexDigit (n : Nat) : Char :=
  if n < 10 then Char.ofNat (48 + n) else Char.ofNat (87 + n)

/-- Two lowercase digits a byte (`hex::encode`). -/
def hexEncode (bytes : Bytes) : String :=
  String.ofList (bytes.flatMap fun b => [hexDigit (b.toNat / 16), hexDigit (b.toNat % 16)])

def hexValue (c : Char) : Option Nat :=
  if '0' ≤ c ∧ c ≤ '9' then some (c.toNat - 48)
  else if 'a' ≤ c ∧ c ≤ 'f' then some (c.toNat - 87)
  else if 'A' ≤ c ∧ c ≤ 'F' then some (c.toNat - 55)
  else none

def hexPairs : List Char → Option Bytes
  | [] => some []
  | [_] => none
  | a :: b :: rest => do
    let high ← hexValue a
    let low ← hexValue b
    let bytes ← hexPairs rest
    some (UInt8.ofNat (16 * high + low) :: bytes)

/-- Digits of either case, two a byte (`hex::decode`). -/
def hexDecode (s : String) : Option Bytes :=
  hexPairs s.toList

inductive SentrixError where
  | invalidBlock (reason : String)
  | invalidTransaction (reason : String)
  | insufficientBalance (held need : Nat)
  | invalidNonce (expected got : Nat)
  | chainValidationFailed (reason : String)
  | blockNotFound (reason : String)
  | transactionNotFound (reason : String)
  | unauthorizedValidator (reason : String)
  | notYourTurn
  | noActiveValidators
  | invalidPrivateKey
  | invalidSignature
  | keystoreError (reason : String)
  | wrongPassword
  | storageError (reason : String)
  | serializationError (reason : String)
  | networkError (reason : String)
  | peerNotFound (reason : String)
  | notFound (reason : String)
  | internal (reason : String)
  deriving DecidableEq, Repr

def SentrixError.text : SentrixError → String
  | .invalidBlock reason => "Invalid block: " ++ reason
  | .invalidTransaction reason => "Invalid transaction: " ++ reason
  | .insufficientBalance held need =>
    "Insufficient balance: have " ++ toString held ++ ", need " ++ toString need
  | .invalidNonce expected got =>
    "Invalid nonce: expected " ++ toString expected ++ ", got " ++ toString got
  | .chainValidationFailed reason => "Chain validation failed: " ++ reason
  | .blockNotFound reason => "Block not found: " ++ reason
  | .transactionNotFound reason => "Transaction not found: " ++ reason
  | .unauthorizedValidator reason => "Unauthorized validator: " ++ reason
  | .notYourTurn => "Not your turn to produce block"
  | .noActiveValidators => "No active validators"
  | .invalidPrivateKey => "Invalid private key"
  | .invalidSignature => "Invalid signature"
  | .keystoreError reason => "Keystore error: " ++ reason
  | .wrongPassword => "Wrong password"
  | .storageError reason => "Storage error: " ++ reason
  | .serializationError reason => "Serialization error: " ++ reason
  | .networkError reason => "Network error: " ++ reason
  | .peerNotFound reason => "Peer not found: " ++ reason
  | .notFound reason => "Not found: " ++ reason
  | .internal reason => "Internal error: " ++ reason

/-- Computed in 128 bits and cast back; see `supermajorityThreshold_fits`. -/
def supermajorityThreshold (totalStake : Nat) : Nat :=
  totalStake * 2 / 3 + 1

theorem supermajorityThreshold_fits {totalStake : Nat} (word : totalStake ≤ u64Max) :
    supermajorityThreshold totalStake ≤ u64Max := by
  unfold supermajorityThreshold u64Max at *
  omega

structure SignedPrecommit where
  validator : Address
  blockHash : Hash
  signature : Bytes
  stakeWeight : Nat
  deriving DecidableEq, Repr

structure BlockJustification where
  height : Nat
  round : Nat
  blockHash : Hash
  precommits : List SignedPrecommit
  deriving DecidableEq, Repr

namespace BlockJustification

def new (height round : Nat) (blockHash : Hash) : BlockJustification :=
  ⟨height, round, blockHash, []⟩

def addPrecommit (j : BlockJustification) (validator : Address) (signature : Bytes)
    (stakeWeight : Nat) : BlockJustification :=
  { j with precommits := j.precommits ++ [⟨validator, j.blockHash, signature, stakeWeight⟩] }

def totalStake (j : BlockJustification) : Nat :=
  (j.precommits.map (·.stakeWeight)).foldl wrapAdd64 0

def hasSupermajority (j : BlockJustification) (total : Nat) : Bool :=
  if total = 0 then false else supermajorityThreshold total ≤ j.totalStake

end BlockJustification
end SentrixPrimitives
