import Sentrix.Primitives.MerkleBinding

/-!
What a computed transaction id says about its transaction. `compute_txid` hashes the
signing payload, a JSON object with fixed keys, from which every field but the id
itself, the signature and the key can be read back.
-/
namespace SentrixPrimitives
open HashTree List

/-- A JSON string literal ends where it ends, whatever follows. -/
def Unambiguous (quote : String → String) : Prop :=
  ∀ {s t rest rest' : String}, quote s ++ rest = quote t ++ rest' → s = t ∧ rest = rest'

/-- The text does not go on with a digit. -/
def EndsNumber (rest : String) : Prop :=
  ∀ c ∈ rest.toList.head?, c.isDigit = false

theorem endsNumber_append {text rest : String} (comma : text.toList.head? = some ',') :
    EndsNumber (text ++ rest) := by
  intro c mem
  rw [String.toList_append, List.head?_append, comma] at mem
  cases mem
  decide

theorem takeWhile_digits {m : Nat} {rest : String} (ends : EndsNumber rest) :
    ((toString m).toList ++ rest.toList).takeWhile Char.isDigit = (toString m).toList := by
  have digits : ∀ c ∈ (toString m).toList, c.isDigit = true := by
    intro c mem
    exact Nat.isDigit_of_mem_toDigits (by decide) (by decide) (Nat.toList_repr ▸ mem)
  rw [takeWhile_append_of_pos digits]
  cases found : rest.toList with
  | nil => simp
  | cons c others => simp [ends c (by simp [found])]

theorem number_split {m k : Nat} {rest rest' : String} (ends : EndsNumber rest)
    (ends' : EndsNumber rest') (same : toString m ++ rest = toString k ++ rest') :
    m = k ∧ rest = rest' := by
  have lists : (toString m).toList ++ rest.toList = (toString k).toList ++ rest'.toList := by
    simpa only [String.toList_append] using congrArg String.toList same
  have digits : (toString m).toList = (toString k).toList := by
    rw [← takeWhile_digits ends, lists, takeWhile_digits ends']
  constructor
  · have decoded := congrArg (fun cs => Nat.ofDigitChars 10 cs 0) digits
    change Nat.ofDigitChars 10 m.repr.toList 0 = Nat.ofDigitChars 10 k.repr.toList 0 at decoded
    simpa [Nat.toList_repr, Nat.ofDigitChars_toDigits] using decoded
  · rw [digits] at lists
    exact String.toList_inj.mp (append_cancel_left lists)

theorem literal_split {text rest rest' : String} (same : text ++ rest = text ++ rest') :
    rest = rest' :=
  (append_inj_of_length same rfl).2

namespace Transaction

def content (tx : Transaction) : Transaction :=
  { tx with txid := "", signature := "", publicKey := "" }

theorem signingPayload_inj {w : Wire} {tx other : Transaction} (quoting : Unambiguous w.quote)
    (same : tx.signingPayload w = other.signingPayload w) : tx.content = other.content := by
  unfold signingPayload at same
  simp only [String.append_assoc] at same
  have comma : ∀ {text rest : String}, text.toList.head? = some ',' → EndsNumber (text ++ rest) :=
    endsNumber_append
  obtain ⟨amount, same⟩ := number_split (comma (by simp)) (comma (by simp)) (literal_split same)
  obtain ⟨chainId, same⟩ := number_split (comma (by simp)) (comma (by simp)) (literal_split same)
  obtain ⟨data, same⟩ := quoting (literal_split same)
  obtain ⟨fee, same⟩ := number_split (comma (by simp)) (comma (by simp)) (literal_split same)
  obtain ⟨sender, same⟩ := quoting (literal_split same)
  obtain ⟨nonce, same⟩ := number_split (comma (by simp)) (comma (by simp)) (literal_split same)
  obtain ⟨timestamp, same⟩ := number_split (comma (by simp)) (comma (by simp)) (literal_split same)
  obtain ⟨recipient, -⟩ := quoting (literal_split same)
  simp only [content, amount, chainId, data, fee, sender, nonce, timestamp, recipient]

def storeTxid (w : Wire) (tx : Transaction) : Transaction :=
  { tx with txid := tx.computeTxid w }

/-- `sign` is the wallet's secret key at work. -/
def new (w : Wire) (sign : String → String) (now : Nat) (fromAddress toAddress : Address)
    (amount fee nonce : Nat) (data : String) (chainId : Nat) (publicKey : String) : Transaction :=
  let tx : Transaction := ⟨"", fromAddress, toAddress, amount, fee, nonce, data, now, chainId, "",
    publicKey⟩
  storeTxid w { tx with signature := sign (tx.signingPayload w) }

def newCoinbase (w : Wire) (toAddress : Address) (amount blockIndex blockTimestamp : Nat) :
    Transaction :=
  storeTxid w ⟨"", coinbaseAddress, toAddress, amount, 0, 0, "block_" ++ toString blockIndex,
    blockTimestamp, 0, "", ""⟩

def newJailEvidenceBundle (w : Wire) (toJson : StakingOp → String) (op : StakingOp)
    (blockIndex blockTimestamp : Nat) : Except SentrixError Transaction :=
  match op with
  | .jailEvidenceBundle .. =>
    .ok (storeTxid w ⟨"", protocolTreasury, protocolTreasury, 0, 0, blockIndex, toJson op,
      blockTimestamp, 0, "", ""⟩)
  | _ => .error (.invalidTransaction
      "new_jail_evidence_bundle: op must be StakingOp::JailEvidenceBundle")

inductive Constructed (w : Wire) : Transaction → Prop where
  | new (sign : String → String) (now : Nat) (fromAddress toAddress : Address)
      (amount fee nonce : Nat) (data : String) (chainId : Nat) (publicKey : String) :
      Constructed w
        (new w sign now fromAddress toAddress amount fee nonce data chainId publicKey)
  | coinbase (toAddress : Address) (amount blockIndex blockTimestamp : Nat) :
      Constructed w (newCoinbase w toAddress amount blockIndex blockTimestamp)
  | jailEvidence {toJson : StakingOp → String} {op : StakingOp} {blockIndex blockTimestamp : Nat}
      {tx : Transaction}
      (built : newJailEvidenceBundle w toJson op blockIndex blockTimestamp = .ok tx) :
      Constructed w tx

theorem storeTxid_txid (w : Wire) (tx : Transaction) :
    (storeTxid w tx).txid = (storeTxid w tx).computeTxid w := rfl

theorem Constructed.txid_eq {w : Wire} {tx : Transaction} (made : Constructed w tx) :
    tx.txid = tx.computeTxid w := by
  cases made with
  | new => exact storeTxid_txid w _
  | coinbase => exact storeTxid_txid w _
  | jailEvidence built =>
    unfold newJailEvidenceBundle at built
    split at built
    · cases built
      exact storeTxid_txid w _
    · cases built

end Transaction

def isHexDigest (text : Hash) : Bool :=
  text.length == 64 && text.toList.all fun c => c.isDigit || ('a' ≤ c && c ≤ 'f')

theorem length_of_isHexDigest {text : Hash} (digest : isHexDigest text = true) :
    text.length = 64 := by
  simp only [isHexDigest, Bool.and_eq_true, beq_iff_eq] at digest
  exact digest.1

/-- SHA-256 is printed as 64 lowercase hex digits. -/
def HexDigests (w : Wire) : Prop :=
  ∀ m, isHexDigest (w.sha256Hex m) = true

theorem HexDigests.length_eq {w : Wire} (hex : HexDigests w) (m : Bytes) :
    (w.sha256Hex m).length = 64 :=
  length_of_isHexDigest (hex m)

theorem signingPayload_head (w : Wire) (tx : Transaction) :
    (tx.signingPayload w).toList.head? = some '\x7b' := by
  unfold Transaction.signingPayload
  simp only [String.toList_append, append_assoc]
  rw [List.head?_append]
  simp

/-- No hex digest, followed by anything, opens a JSON object. -/
theorem signingPayload_ne {w : Wire} {tx : Transaction} {a rest : Hash}
    (digest : isHexDigest a = true) : tx.signingPayload w ≠ a ++ rest := by
  intro same
  simp only [isHexDigest, Bool.and_eq_true, beq_iff_eq, all_eq_true] at digest
  cases shape : a.toList with
  | nil =>
    have := digest.1
    rw [← String.length_toList, shape] at this
    cases this
  | cons c others =>
    have opening : some '\x7b' = some c := by
      rw [← signingPayload_head w tx, same, String.toList_append, shape]
      rfl
    have := digest.2 c (by simp [shape])
    rw [← Option.some.inj opening] at this
    exact absurd this (by decide)

def Block.txids (b : Block) : List Hash :=
  b.transactions.map (·.txid)

/-- An id whose origin is known: one of the constructors, or, for an EVM
transaction, a digest by another function that is no inner node of the tree. -/
def Identified (w : Wire) (inner : List String) (tx : Transaction) : Prop :=
  if tx.isEvmTx then isHexDigest tx.txid = true ∧ ∀ s ∈ inner, w.digest s ≠ tx.txid
  else tx.Constructed w

section
variable {w : Wire} {b other : Block}

theorem Identified.isHexDigest {inner : List String} {tx : Transaction} (hex : HexDigests w)
    (known : Identified w inner tx) : isHexDigest tx.txid = true := by
  unfold Identified at known
  split at known
  · exact known.1
  · rw [known.txid_eq]
    exact hex _

/-- Every text hashed over digests starts with one. -/
theorem mem_merkleTexts {txids : List Hash} {s : String} (hex : HexDigests w)
    (digests : ∀ txid ∈ txids, isHexDigest txid = true) (mem : s ∈ merkleTexts w txids) :
    ∃ a rest, s = a ++ rest ∧ isHexDigest a = true := by
  unfold merkleTexts at mem
  split at mem
  · rename_i txid
    refine ⟨txid, "", ?_, digests txid (by simp)⟩
    rw [List.mem_singleton.mp mem, String.append_empty]
  · obtain ⟨a, rest, split, leaf | ⟨t, rfl⟩⟩ := mem_hashed mem
    · exact ⟨a, rest, split, digests a leaf⟩
    · exact ⟨_, rest, split, hex _⟩

def blockTexts (w : Wire) (b : Block) : List String :=
  b.transactions.map (·.signingPayload w) ++ merkleTexts w b.txids

theorem leaves_of_identified (hex : HexDigests w)
    (known : ∀ tx ∈ b.transactions, Identified w (merkleTexts w other.txids) tx)
    (known' : ∀ tx ∈ other.transactions, Identified w (merkleTexts w b.txids) tx)
    (free : CollisionFree w.digest (blockTexts w b ++ blockTexts w other)) :
    Leaves w b.txids other.txids := by
  constructor
  · intro txid mem
    obtain ⟨tx, inside, rfl⟩ := List.mem_map.mp mem
    exact length_of_isHexDigest ((known tx inside).isHexDigest hex)
  · intro txid mem s inner formed
    obtain ⟨tx, inside, rfl⟩ := List.mem_map.mp mem
    have identified := known tx inside
    unfold Identified at identified
    split at identified
    · exact identified.2 s inner formed
    · have digests : ∀ txid ∈ other.txids, SentrixPrimitives.isHexDigest txid = true := by
        intro txid mem
        obtain ⟨tx, inside, rfl⟩ := List.mem_map.mp mem
        exact (known' tx inside).isHexDigest hex
      obtain ⟨a, rest, split, digest⟩ := mem_merkleTexts hex digests inner
      have payload : tx.signingPayload w = s := by
        apply free _ ?_ _ ?_ (formed.trans identified.txid_eq).symm
        · exact mem_append_left _ (mem_append_left _ (mem_map_of_mem inside))
        · exact mem_append_right _ (mem_append_right _ inner)
      exact signingPayload_ne digest (payload.trans split)

end
end SentrixPrimitives
