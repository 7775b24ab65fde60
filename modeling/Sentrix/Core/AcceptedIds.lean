import Sentrix.Core.Authorization
import Sentrix.Primitives.TransactionIds

/-!
Transaction ids of accepted blocks. The id is a stored field: the structural checks
compare ids with each other and hash them, and no check recomputes one. Two blocks can
therefore share a Merkle root, and with it their hash, over different transactions.
-/
namespace SentrixCore
open HashTree Effects SentrixPrimitives List

namespace Blockchain

theorem structured_of_submit {env : Platform} {s : Submission} {bc after : Blockchain} {u : Unit}
    (accepted : submit env s bc = .ok u after) :
    ∃ previous, bc.latestBlock = .ok previous ∧
      s.block.WellStructured env.wire bc.expectedIndex previous.hash := by
  obtain ⟨_, _, header, _⟩ := addBlockWithSource_ok accepted
  obtain ⟨previous, latest, structured, _⟩ := checkHeader_ok header
  exact ⟨previous, latest, structured⟩

theorem txids_ne_nil {w : Wire} {b : Block} {index : Nat} {prevHash : Hash}
    (structured : b.WellStructured w index prevHash) : b.txids ≠ [] := by
  obtain ⟨coinbase, others, shape, -⟩ := structured.first
  simp [Block.txids, shape]

/-- Two blocks that pass the structural checks under one Merkle root: their txids
are the same exactly if their lengths are, and they are the same if they look
like digests and none is an inner node of the other tree. -/
theorem equal_roots_bind_txids {w : Wire} {b other : Block} {index index' : Nat}
    {prevHash prevHash' : Hash} (hex : HexDigests w)
    (free : CollisionFree w.digest (merkleTexts w b.txids ++ merkleTexts w other.txids))
    (passed : b.validateStructure w index prevHash = .ok ())
    (passed' : other.validateStructure w index' prevHash' = .ok ())
    (same : b.merkleRoot = other.merkleRoot) :
    (b.txids = other.txids ↔ b.txids.map String.length = other.txids.map String.length) ∧
      (Leaves w b.txids other.txids → Leaves w other.txids b.txids → b.txids = other.txids) := by
  have structured := Block.wellStructured_of_ok passed
  have structured' := Block.wellStructured_of_ok passed'
  have roots : merkleRoot w b.txids = merkleRoot w other.txids :=
    structured.root.trans (same.trans structured'.root.symm)
  refine ⟨⟨fun equal => by rw [equal], ?_⟩, ?_⟩
  · intro lengths
    exact merkleRoot_inj_of_lengths hex.length_eq (txids_ne_nil structured) lengths free roots
  · intro leaves leaves'
    exact merkleRoot_inj_of_leaves hex.length_eq (txids_ne_nil structured) (txids_ne_nil structured')
      structured.distinct structured'.distinct leaves leaves' free roots

def joinedIdBlock : Block :=
  sampleBlock 1 genesisBlock.hash [coinbaseTx firstValidator 100000000 1 1700000001 "ab"] 1700000001
    "fb8e20fc2e4c3f248c60c39bd652f3c1347298bb977b8b4d5903b85055620603"
    "7eb88cc01a9e8329badba15a4b7857264d4e841343c70077681b56093069e286"

/-- The same header over the txids `a` and `b`; the second is a signed transfer. -/
def splitIdBlock : Block :=
  { joinedIdBlock with transactions :=
      [coinbaseTx firstValidator 100000000 1 1700000001 "a", { signedTransfer with txid := "b" }] }

def shortIdPlatform : Platform :=
  let digests := blockDigests joinedIdBlock ++
    [(signedTransfer.signingPayload (tableWire []), signedTransfer.txid)]
  plainPlatform (signingWire digests secondKey secondValidator
    [(signedTransfer.signature, signedTransfer.signingPayload (tableWire []))])

/-- Both blocks pass the structural checks, no two of the texts hashed collide, the
roots are equal and the txids are not. -/
theorem one_root_two_txid_lists :
    let w := shortIdPlatform.wire
    joinedIdBlock.validateStructure w 1 genesisBlock.hash = .ok () ∧
      splitIdBlock.validateStructure w 1 genesisBlock.hash = .ok () ∧
      CollisionFree w.digest (merkleTexts w joinedIdBlock.txids ++ merkleTexts w splitIdBlock.txids) ∧
      joinedIdBlock.merkleRoot = splitIdBlock.merkleRoot ∧
      joinedIdBlock.txids = ["ab"] ∧ splitIdBlock.txids = ["a", "b"] := by
  decide +kernel

theorem hexDigests_table {table : List (String × Hash)}
    (entries : ∀ entry ∈ table, isHexDigest entry.2 = true) (m : Bytes) :
    isHexDigest (knownDigests table m) = true := by
  unfold knownDigests
  cases found : table.find? fun entry => textBytes entry.1 == m with
  | none => decide
  | some entry => exact entries entry (List.mem_of_find?_eq_some found)

def laterTransferBlock : Block :=
  { transferBlock with
    timestamp := 1700000002
    hash := "74b0e2ce06e6d74aa6cc097dbd0f90342c7e90ef9d367af9d482dbfdcb08270f" }

def idDigests : List (String × Hash) :=
  let bare := { tableWire [] with quote := escaped }
  [(firstCoinbase.signingPayload bare, firstCoinbase.txid),
   (signedTransfer.signingPayload bare, signedTransfer.txid)] ++
    blockDigests transferBlock ++ blockDigests laterTransferBlock ++ firstDigests

def idPlatform : Platform :=
  let bare := { tableWire [] with quote := escaped }
  plainPlatform { signingWire idDigests secondKey secondValidator
    [(signedTransfer.signature, signedTransfer.signingPayload bare)] with quote := escaped }

theorem idSample_checked :
    (∀ entry ∈ idDigests, isHexDigest entry.2 = true) ∧
      ((∀ txid ∈ transferBlock.txids, txid.length = 64) ∧
        Apart idPlatform.wire.digest transferBlock.txids
          (merkleTexts idPlatform.wire laterTransferBlock.txids)) ∧
      (transferBlock.validateStructure idPlatform.wire 1 genesisBlock.hash = .ok () ∧
        laterTransferBlock.validateStructure idPlatform.wire 1 genesisBlock.hash = .ok ()) ∧
      CollisionFree idPlatform.wire.digest (blockTexts idPlatform.wire transferBlock ++
        blockTexts idPlatform.wire laterTransferBlock) ∧
      CollisionFree idPlatform.wire.digest (merkleTexts idPlatform.wire transferBlock.txids ++
        merkleTexts idPlatform.wire laterTransferBlock.txids) := by
  decide +kernel

theorem hexDigests_idPlatform : HexDigests idPlatform.wire :=
  hexDigests_table idSample_checked.1

theorem transfer_roots_bind_txids :
    transferBlock.hash ≠ laterTransferBlock.hash ∧
      transferBlock.merkleRoot = laterTransferBlock.merkleRoot ∧
      transferBlock.txids = laterTransferBlock.txids := by
  obtain ⟨-, ⟨lengths, apart⟩, ⟨passed, passed'⟩, -, free⟩ := idSample_checked
  have leaves : Leaves idPlatform.wire transferBlock.txids laterTransferBlock.txids :=
    ⟨lengths, apart⟩
  refine ⟨by decide, rfl, ?_⟩
  exact (equal_roots_bind_txids hexDigests_idPlatform free passed passed' rfl).2 leaves leaves

def SameContent (tx other : Transaction) : Prop :=
  tx.isEvmTx = false → other.isEvmTx = false → tx.content = other.content

section
variable {w : Wire} {b other : Block}

theorem txid_of_identified {inner : List String} {tx : Transaction} (known : Identified w inner tx)
    (native : tx.isEvmTx = false) : tx.txid = tx.computeTxid w := by
  simp only [Identified, native, Bool.false_eq_true, if_false] at known
  exact known.txid_eq

theorem sameContent_of_txid (quoting : Unambiguous w.quote)
    (free : CollisionFree w.digest (blockTexts w b ++ blockTexts w other))
    {tx tx' : Transaction} (inside : tx ∈ b.transactions) (inside' : tx' ∈ other.transactions)
    (known : Identified w (merkleTexts w other.txids) tx)
    (known' : Identified w (merkleTexts w b.txids) tx') (same : tx.txid = tx'.txid) :
    SameContent tx tx' := by
  intro native native'
  apply Transaction.signingPayload_inj quoting
  apply free _ ?_ _ ?_
  · exact (txid_of_identified known native).symm.trans
      (same.trans (txid_of_identified known' native'))
  · exact mem_append_left _ (mem_append_left _ (mem_map_of_mem inside))
  · exact mem_append_right _ (mem_append_left _ (mem_map_of_mem inside'))

theorem txids_of_root (hex : HexDigests w)
    (free : CollisionFree w.digest (blockTexts w b ++ blockTexts w other))
    (known : ∀ tx ∈ b.transactions, Identified w (merkleTexts w other.txids) tx)
    (known' : ∀ tx ∈ other.transactions, Identified w (merkleTexts w b.txids) tx)
    {index index' : Nat} {prevHash prevHash' : Hash}
    (structured : b.WellStructured w index prevHash)
    (structured' : other.WellStructured w index' prevHash')
    (same : b.merkleRoot = other.merkleRoot) : b.txids = other.txids := by
  have texts : CollisionFree w.digest (merkleTexts w b.txids ++ merkleTexts w other.txids) := by
    apply free.mono
    intro t mem
    simp only [blockTexts, mem_append] at mem ⊢
    tauto
  have swapped : CollisionFree w.digest (blockTexts w other ++ blockTexts w b) :=
    free.mono fun t mem => List.mem_append.mpr (List.mem_append.mp mem).symm
  exact merkleRoot_inj_of_leaves hex.length_eq (txids_ne_nil structured) (txids_ne_nil structured')
    structured.distinct structured'.distinct (leaves_of_identified hex known known' free)
    (leaves_of_identified hex known' known swapped) texts
    (structured.root.trans (same.trans structured'.root.symm))

end

theorem forall₂_of_txids {R : Transaction → Transaction → Prop} {txs others : List Transaction}
    (same : txs.map (·.txid) = others.map (·.txid))
    (rel : ∀ tx ∈ txs, ∀ other ∈ others, tx.txid = other.txid → R tx other) :
    List.Forall₂ R txs others := by
  induction txs generalizing others with
  | nil => simp_all
  | cons tx _ ih =>
    cases others with
    | nil => simp at same
    | cons other =>
      simp only [map_cons, List.cons.injEq] at same
      apply List.Forall₂.cons (rel tx (by simp) other (by simp) same.1)
      apply ih same.2
      intro x inside y inside'
      exact rel x (by simp [inside]) y (by simp [inside'])

/-- Any two accepted blocks, of one chain or of two. -/
theorem accepted_ids_commit {env : Platform} {s other : Submission} {bc bc' after after' : Blockchain}
    (hex : HexDigests env.wire) (quoting : Unambiguous env.wire.quote)
    (free : CollisionFree env.wire.digest
      (blockTexts env.wire s.block ++ blockTexts env.wire other.block))
    (accepted : submit env s bc = .ok () after) (accepted' : submit env other bc' = .ok () after')
    (known : ∀ tx ∈ s.block.transactions,
      Identified env.wire (merkleTexts env.wire other.block.txids) tx)
    (known' : ∀ tx ∈ other.block.transactions,
      Identified env.wire (merkleTexts env.wire s.block.txids) tx) :
    (∀ tx ∈ s.block.transactions, tx.isEvmTx = false → tx.txid = tx.computeTxid env.wire) ∧
      (∀ tx ∈ s.block.transactions, ∀ tx' ∈ other.block.transactions,
        tx.txid = tx'.txid → SameContent tx tx') ∧
      (s.block.merkleRoot = other.block.merkleRoot →
        s.block.txids = other.block.txids ∧
          List.Forall₂ SameContent s.block.transactions other.block.transactions) := by
  have contents : ∀ tx ∈ s.block.transactions, ∀ tx' ∈ other.block.transactions,
      tx.txid = tx'.txid → SameContent tx tx' := by
    intro tx inside tx' inside'
    exact sameContent_of_txid quoting free inside inside' (known tx inside) (known' tx' inside')
  refine ⟨fun tx inside native => txid_of_identified (known tx inside) native, contents, ?_⟩
  intro same
  obtain ⟨_, _, structured⟩ := structured_of_submit accepted
  obtain ⟨_, _, structured'⟩ := structured_of_submit accepted'
  have ids := txids_of_root hex free known known' structured structured' same
  exact ⟨ids, forall₂_of_txids ids contents⟩

/-- A block with a signed transfer is accepted under an id that is not the transfer's,
and shares its Merkle root with a block that does not contain the transfer. -/
theorem chosen_id_accepted :
    succeeds (submit shortIdPlatform ⟨1700000001, .peer, splitIdBlock⟩) fundedChain = true ∧
      succeeds (submit shortIdPlatform ⟨1700000001, .peer, joinedIdBlock⟩) fundedChain = true ∧
      splitIdBlock.merkleRoot = joinedIdBlock.merkleRoot ∧
      ∃ tx ∈ splitIdBlock.transactions, tx.isCoinbase = false ∧ tx.isEvmTx = false ∧
        tx.txid = "b" ∧ tx.computeTxid shortIdPlatform.wire = signedTransfer.txid := by
  decide +kernel

def escapedChar (c : Char) : List Char :=
  if c = '"' || c = '\\' then ['\\', c] else [c]

theorem escapedChar_ne_quote {c : Char} {x y : List Char} : escapedChar c ++ x ≠ '"' :: y := by
  unfold escapedChar
  split
  · simp
  · simp_all

theorem escapedChar_split {c d : Char} {x y : List Char}
    (same : escapedChar c ++ x = escapedChar d ++ y) : c = d ∧ x = y := by
  unfold escapedChar at same
  split at same <;> split at same
  · simpa using same
  · grind
  · grind
  · simpa using same

theorem escapedChars_split {s t x y : List Char}
    (same : s.flatMap escapedChar ++ '"' :: x = t.flatMap escapedChar ++ '"' :: y) :
    s = t ∧ x = y := by
  induction s generalizing t with
  | nil =>
    cases t with
    | nil => simpa using same
    | cons =>
      rw [flatMap_cons, append_assoc] at same
      exact absurd same.symm escapedChar_ne_quote
  | cons _ _ ih =>
    cases t with
    | nil =>
      rw [flatMap_cons, append_assoc] at same
      exact absurd same escapedChar_ne_quote
    | cons =>
      rw [flatMap_cons, flatMap_cons, append_assoc, append_assoc] at same
      obtain ⟨rfl, tails⟩ := escapedChar_split same
      obtain ⟨rfl, rest⟩ := ih tails
      exact ⟨rfl, rest⟩

theorem unambiguous_escaped : Unambiguous escaped := by
  intro s t rest rest' same
  have lists := congrArg String.toList same
  simp only [escaped, String.toList_append, String.toList_ofList, append_assoc,
    cons_append, nil_append, List.cons.injEq, true_and] at lists
  obtain ⟨body, tail⟩ := escapedChars_split lists
  exact ⟨String.toList_inj.mp body, String.toList_inj.mp tail⟩

theorem idSample_accepted :
    (firstCoinbase = .newCoinbase idPlatform.wire firstValidator 100000000 1 1700000001 ∧
        signedTransfer = .new idPlatform.wire (fun _ => signedTransfer.signature) 1700000001
          secondValidator thirdAccount 500 10000 0 "" 7119 secondKey) ∧
      (∀ tx ∈ transferBlock.transactions, tx.isEvmTx = false) ∧
      (signedTransfer ∈ transferBlock.transactions ∧ signedTransfer.isEvmTx = false) ∧
      succeeds (submit idPlatform ⟨1700000001, .peer, transferBlock⟩) fundedChain = true ∧
      succeeds (submit idPlatform ⟨1700000002, .peer, laterTransferBlock⟩) fundedChain = true := by
  decide +kernel

theorem constructed_sample (tx : Transaction) (mem : tx ∈ [firstCoinbase, signedTransfer]) :
    tx.Constructed idPlatform.wire := by
  obtain ⟨⟨coinbase, transfer⟩, -⟩ := idSample_accepted
  simp only [mem_cons, not_mem_nil, or_false] at mem
  rcases mem with rfl | rfl
  · rw [coinbase]
    exact .coinbase _ _ _ _
  · rw [transfer]
    exact .new _ _ _ _ _ _ _ _ _ _

theorem identified_transferBlock (inner : List String) :
    ∀ tx ∈ transferBlock.transactions, Identified idPlatform.wire inner tx := by
  intro tx mem
  simp only [Identified, idSample_accepted.2.1 tx mem, Bool.false_eq_true, if_false]
  exact constructed_sample tx mem

theorem transfer_ids_commit :
    signedTransfer.txid = signedTransfer.computeTxid idPlatform.wire ∧
      transferBlock.txids = laterTransferBlock.txids := by
  obtain ⟨-, -, ⟨inside, native⟩, accepts, accepts'⟩ := idSample_accepted
  obtain ⟨_, _, accepted⟩ := succeeds_iff.mp accepts
  obtain ⟨_, _, accepted'⟩ := succeeds_iff.mp accepts'
  obtain ⟨own, -, roots⟩ := accepted_ids_commit hexDigests_idPlatform unambiguous_escaped
    idSample_checked.2.2.2.1 accepted accepted' (identified_transferBlock _)
    (identified_transferBlock _)
  exact ⟨own signedTransfer inside native, (roots rfl).1⟩

end Blockchain
end SentrixCore
