import Sentrix.Bft.Messages

/-!
What a signature is about. Every `sign` and `verify_sig` goes by the first payload
layout; the second, which starts with the chain id, has no caller. The chain is not in
the first, and nil is a text like any other.
-/
namespace SentrixMessages
open MachineWords SentrixPrimitives

inductive MessageKind where
  | proposal
  | prevote
  | precommit
  | roundStatus
  deriving DecidableEq, Repr

namespace BftMessage

def kind : BftMessage → MessageKind
  | .propose _ => .proposal
  | .prevote _ => .prevote
  | .precommit _ => .precommit
  | .roundStatus _ => .roundStatus

def height : BftMessage → Nat
  | .propose p => p.height
  | .prevote p => p.height
  | .precommit p => p.height
  | .roundStatus s => s.height

def round : BftMessage → Nat
  | .propose p => p.round
  | .prevote p => p.round
  | .precommit p => p.round
  | .roundStatus s => s.round

def vote : BftMessage → Option Hash
  | .propose p => some p.blockHash
  | .prevote p => p.blockHash
  | .precommit p => p.blockHash
  | .roundStatus _ => none

def signer : BftMessage → Address
  | .propose p => p.proposer
  | .prevote p => p.validator
  | .precommit p => p.validator
  | .roundStatus s => s.validator

/-- The bytes that `sign` hands to the key and `verify_sig` to the recovery. -/
def signedPayload : BftMessage → Bytes
  | .propose p => Proposal.signingPayload p.height p.round p.blockHash
  | .prevote p => Prevote.signingPayload p.height p.round p.blockHash
  | .precommit p => Precommit.signingPayload p.height p.round p.blockHash
  | .roundStatus s => RoundStatus.signingPayload s.height s.round s.validator

def signature : BftMessage → Bytes
  | .propose p => p.signature
  | .prevote p => p.signature
  | .precommit p => p.signature
  | .roundStatus s => s.signature

def verifySig (crypto : Recovery) (m : BftMessage) : Bool :=
  verifyVoteSignature crypto m.signedPayload m.signature m.signer

def text : BftMessage → String
  | .propose p => p.blockHash
  | .prevote p => voteText p.blockHash
  | .precommit p => voteText p.blockHash
  | .roundStatus s => s.validator

structure InWords (m : BftMessage) : Prop where
  height : m.height ≤ u64Max
  round : m.round ≤ u32Max

end BftMessage

def MessageKind.separator : MessageKind → UInt8
  | .proposal => 0x01
  | .prevote => 0x02
  | .precommit => 0x03
  | .roundStatus => 0x04

section
variable {m m' : BftMessage} {chain chain' : Nat}

theorem signedPayload_eq (m : BftMessage) :
    m.signedPayload = signedText m.kind.separator m.height m.round m.text := by
  cases m <;> rfl

theorem separator_inj {k k' : MessageKind} (same : k.separator = k'.separator) : k = k' := by
  cases k <;> cases k' <;> first | rfl | exact absurd same (by decide)

theorem separator_last {s s' : UInt8} {height height' round round' : Nat} {text text' : String}
    (same : signedText s height round text = signedText s' height' round' text') : s = s' := by
  unfold signedText at same
  have ends := List.append_inj' same rfl
  exact (List.cons.inj ends.2).1

theorem signedPayload_inj (words : m.InWords) (words' : m'.InWords) :
    m.signedPayload = m'.signedPayload ↔
      m.kind = m'.kind ∧ m.height = m'.height ∧ m.round = m'.round ∧ m.text = m'.text := by
  rw [signedPayload_eq, signedPayload_eq]
  constructor
  · intro same
    have kinds := separator_inj (separator_last same)
    rw [kinds] at same
    exact ⟨kinds, signedText_inj words.height words'.height words.round words'.round same⟩
  · rintro ⟨kinds, heights, rounds, texts⟩
    rw [kinds, heights, rounds, texts]

/-- One votes nil and the other for a hash spelled as nil is. -/
def NilTwins (vote vote' : Option Hash) : Prop :=
  vote = none ∧ vote' = some "NIL" ∨ vote = some "NIL" ∧ vote' = none

theorem voteText_eq {vote vote' : Option Hash} :
    voteText vote = voteText vote' ↔ vote = vote' ∨ NilTwins vote vote' := by
  unfold NilTwins
  cases vote with
  | none =>
    cases vote' with
    | none => simp
    | some hash => simp [voteText, eq_comm]
  | some hash =>
    cases vote' with
    | none => simp [voteText]
    | some hash' => simp [voteText]

theorem vote_of_text (kinds : m.kind = m'.kind) (texts : m.text = m'.text) :
    m.vote = m'.vote ∨ NilTwins m.vote m'.vote := by
  cases m with
  | propose p =>
    cases m' with
    | propose p' => exact .inl (congrArg some texts)
    | _ => cases kinds
  | prevote p =>
    cases m' with
    | prevote p' => exact voteText_eq.mp texts
    | _ => cases kinds
  | precommit p =>
    cases m' with
    | precommit p' => exact voteText_eq.mp texts
    | _ => cases kinds
  | roundStatus s =>
    cases m' with
    | roundStatus s' => exact .inl rfl
    | _ => cases kinds

theorem NilTwins.differ {vote vote' : Option Hash} (twins : NilTwins vote vote') : vote ≠ vote' := by
  rintro rfl
  rcases twins with ⟨nil, named⟩ | ⟨named, nil⟩
  · rw [nil] at named
    cases named
  · rw [nil] at named
    cases named

def SameMeaning (chain : Nat) (m : BftMessage) (chain' : Nat) (m' : BftMessage) : Prop :=
  m.kind = m'.kind ∧ chain = chain' ∧ m.height = m'.height ∧ m.round = m'.round ∧ m.vote = m'.vote

/-- The messages have one kind, height, round and text, and are on different chains or a nil
vote and a vote for the hash spelled as nil. -/
def Confusable (chain : Nat) (m : BftMessage) (chain' : Nat) (m' : BftMessage) : Prop :=
  (m.kind = m'.kind ∧ m.height = m'.height ∧ m.round = m'.round ∧ m.text = m'.text) ∧
    (chain ≠ chain' ∨ NilTwins m.vote m'.vote)

/-- For two messages on their chains, equal payloads mean the same message exactly when the two
are not confusable. -/
theorem payload_unambiguous_iff (words : m.InWords) (words' : m'.InWords) :
    (m.signedPayload = m'.signedPayload → SameMeaning chain m chain' m') ↔
      ¬ Confusable chain m chain' m' := by
  rw [signedPayload_inj words words']
  constructor
  · rintro meaning ⟨same, apart⟩
    obtain ⟨-, chains, -, -, votes⟩ := meaning same
    rcases apart with chains' | twins
    · exact chains' chains
    · exact twins.differ votes
  · rintro clear ⟨kinds, heights, rounds, texts⟩
    have chains : chain = chain' := by
      by_contra apart
      exact clear ⟨⟨kinds, heights, rounds, texts⟩, .inl apart⟩
    rcases vote_of_text kinds texts with votes | twins
    · exact ⟨kinds, chains, heights, rounds, votes⟩
    · exact absurd ⟨⟨kinds, heights, rounds, texts⟩, .inr twins⟩ clear

theorem verifySig_of_payload (crypto : Recovery) (payloads : m.signedPayload = m'.signedPayload)
    (signatures : m.signature = m'.signature) (signers : m.signer = m'.signer) :
    m.verifySig crypto = m'.verifySig crypto := by
  unfold BftMessage.verifySig
  rw [payloads, signatures, signers]

end

def nilPrevote (signature : Bytes) : BftMessage :=
  .prevote ⟨5, 0, none, "v", signature⟩

def namedPrevote (hash : Hash) (signature : Bytes) : BftMessage :=
  .prevote ⟨5, 0, some hash, "v", signature⟩

/-- A nil vote and a vote for an ordinary hash, on one chain. -/
theorem nil_and_hash_told_apart :
    ¬ Confusable 7119 (nilPrevote []) 7119 (namedPrevote "a1" []) ∧
      ((nilPrevote []).signedPayload = (namedPrevote "a1" []).signedPayload →
        SameMeaning 7119 (nilPrevote []) 7119 (namedPrevote "a1" [])) := by
  have words : ∀ vote : Option Hash, (BftMessage.prevote ⟨5, 0, vote, "v", []⟩).InWords :=
    fun vote => ⟨(by decide : 5 ≤ u64Max), Nat.zero_le _⟩
  have clear : ¬ Confusable 7119 (nilPrevote []) 7119 (namedPrevote "a1" []) := by
    rintro ⟨⟨-, -, -, texts⟩, -⟩
    exact absurd (texts : "NIL" = "a1") (by decide)
  exact ⟨clear, (payload_unambiguous_iff (words none) (words (some "a1"))).mpr clear⟩

/-- A prevote passes on every other chain, and a nil prevote passes as one for the hash `NIL`. -/
theorem prevote_signature_reused :
    (∀ hash, (namedPrevote hash []).signedPayload = (namedPrevote hash []).signedPayload ∧
      ¬ SameMeaning 7119 (namedPrevote hash []) 7120 (namedPrevote hash [])) ∧
      (nilPrevote []).signedPayload = (namedPrevote "NIL" []).signedPayload ∧
      ¬ SameMeaning 7119 (nilPrevote []) 7119 (namedPrevote "NIL" []) ∧
      ∀ crypto signature,
        (nilPrevote signature).verifySig crypto = (namedPrevote "NIL" signature).verifySig crypto := by
  refine ⟨fun hash => ⟨rfl, ?_⟩, rfl, ?_, fun crypto signature => ?_⟩
  · rintro ⟨-, chains, -⟩
    exact absurd chains (by decide)
  · rintro ⟨-, -, -, -, votes⟩
    cases votes
  · exact verifySig_of_payload crypto rfl rfl rfl

end SentrixMessages
