import Sentrix.Core.TrieMirror
import Sentrix.Core.TrieProofs

/-!
What reaches the trie from outside: proofs that a peer sends, and the addresses that an
accepted block brings.
-/
namespace SentrixCore
open HashTable Effects SentrixPrimitives SparseMerkle

namespace MerkleProof.Indexed

/-- Nothing where the code indexes past the key and panics. -/
def getBit (key : Bytes) (i : Nat) : Option Bool :=
  key[i / 8]?.map fun byte => byte.toNat.testBit (7 - i % 8)

section
variable (w : Wire) (b3 : Bytes → Bytes) (p : MerkleProof)

def computeRoot : Nat → Bytes → Option Bytes
  | 0, current => some current
  | d + 1, current => do
    let bit ← getBit p.key.1 d
    let sibling ← p.siblings[d]?
    computeRoot d (nodeHash w b3 (.beside bit current sibling))

def verifyMembership (root : Bytes) : Option Bool :=
  if !p.found || p.siblings.length != p.depth then some false
  else (computeRoot w b3 p p.depth (nodeHash w b3 (.leaf p.key.1 p.value))).map (· == root)

def verifyNonmembership (root : Bytes) : Option Bool :=
  if p.found || p.siblings.length != p.depth then some false
  else (computeRoot w b3 p p.depth p.terminalHash).map (· == root)

end

theorem getBit_keyBits (key : Bytes) (i : Nat) : getBit key i = (keyBits key)[i]? := by
  induction key generalizing i with
  | nil => rfl
  | cons byte rest ih =>
    have bits : ((List.range 8).map fun j => byte.toNat.testBit (7 - j)).length = 8 := by simp
    unfold keyBits at ih ⊢
    rw [List.flatMap_cons]
    by_cases first : i < 8
    · rw [List.getElem?_append_left (by omega)]
      simp [getBit, Nat.div_eq_of_lt first, Nat.mod_eq_of_lt first, first]
    · have later : i / 8 = (i - 8) / 8 + 1 := by omega
      have same : i % 8 = (i - 8) % 8 := by omega
      rw [List.getElem?_append_right (by omega), bits, ← ih]
      simp only [getBit, later, same, List.getElem?_cons_succ]

variable {w : Wire} {b3 : Bytes → Bytes} {p : MerkleProof}

theorem getBit_isSome {d : Nat} : (getBit p.key.1 d).isSome = true ↔ d < 256 := by
  rw [getBit_keyBits, isSome_getElem?, length_keyBits, p.key.2]

theorem computeRoot_deep {d : Nat} (deep : 256 < d) (current : Bytes) :
    computeRoot w b3 p d current = none := by
  obtain ⟨e, rfl⟩ := Nat.exists_eq_add_one_of_ne_zero (Nat.ne_of_gt (Nat.zero_lt_of_lt deep))
  have past : getBit p.key.1 e = none := by
    rw [← Option.not_isSome_iff_eq_none, getBit_isSome]
    omega
  simp only [computeRoot, past, Option.bind_eq_bind, Option.bind_none]

theorem computeRoot_rebuild {d : Nat} (short : d ≤ 256) (enough : d ≤ p.siblings.length)
    (current : Bytes) : computeRoot w b3 p d current =
      some (Tree.rebuild (nodeHash w b3) (keyBits p.key.1) (p.siblings.take d) current) := by
  induction d generalizing current with
  | zero => rw [computeRoot, List.take_zero, Tree.rebuild_nil]
  | succ d ih =>
    obtain ⟨bit, found⟩ := Option.isSome_iff_exists.mp (getBit_isSome.mpr short)
    have sibling : p.siblings[d]? = some p.siblings[d] := List.getElem?_eq_getElem enough
    have level : (keyBits p.key.1)[(p.siblings.take d).length]? = some bit := by
      rw [List.length_take_of_le (by omega), ← getBit_keyBits, found]
    simp only [computeRoot, found, sibling, Option.bind_eq_bind, Option.bind_some]
    rw [ih (by omega) (by omega), List.take_add_one, sibling, Option.toList_some,
      Tree.rebuild_concat level]

theorem verify_eq (short : p.siblings.length = p.depth → p.depth ≤ 256) (root : Bytes) :
    verifyMembership w b3 p root = some (p.verifyMembership w b3 root) ∧
      verifyNonmembership w b3 p root = some (p.verifyNonmembership w b3 root) := by
  unfold verifyMembership verifyNonmembership MerkleProof.verifyMembership
    MerkleProof.verifyNonmembership MerkleProof.computeRoot
  by_cases full : p.siblings.length = p.depth
  · have enough : p.depth ≤ p.siblings.length := by omega
    have whole : p.siblings.take p.depth = p.siblings := List.take_of_length_le (by omega)
    simp only [computeRoot_rebuild (short full) enough, whole, full]
    cases p.found <;> simp
  · simp [full]

end MerkleProof.Indexed

open MerkleProof.Indexed in
/-- Verification returns unless a proof brings more siblings than a key has bits. -/
theorem verification_returns_iff (w : Wire) (b3 : Bytes → Bytes) (p : MerkleProof) (root : Bytes) :
    ((verifyMembership w b3 p root).isSome = true ∧
        (verifyNonmembership w b3 p root).isSome = true) ↔
      (p.siblings.length = p.depth → p.depth ≤ 256) := by
  constructor
  · intro ⟨member, absent⟩ full
    by_contra deep
    unfold verifyMembership at member
    unfold verifyNonmembership at absent
    cases kind : p.found <;>
      simp [kind, full, computeRoot_deep (Nat.lt_of_not_le deep)] at member absent
  · intro short
    obtain ⟨member, absent⟩ := verify_eq short root
    rw [member, absent]
    exact ⟨rfl, rfl⟩

def deepProof : MerkleProof :=
  ⟨⟨List.replicate 32 0, rfl⟩, [], List.replicate 257 [], 257, true, []⟩

/-- One sibling too many. -/
theorem deep_proof_panics :
    MerkleProof.Indexed.verifyMembership (tableWire []) id deepProof [] = none := by
  decide +kernel

def namesOf (account earner seat : Address) : List KeyName :=
  [.account account, .pendingRewards earner, .liveness seat, .totalMinted, .src20Registry,
    .nftRegistry, .epochState]

/-- The first twenty bytes tell the kinds of consensus leaves apart, whatever the addresses. -/
theorem consensus_texts_nodup (u : Unicode) (account earner seat : Address) :
    ((namesOf account earner seat).tail.map (KeyName.text u)).Nodup := by
  obtain ⟨-, pending, liveness, -⟩ := KeyName.length_domain
  have heads : ((namesOf account earner seat).tail.map (KeyName.text u)).map (List.take 20) =
      (namesOf account earner seat).tail.map fun n => (textBytes n.domain).take 20 := by
    simp only [namesOf, List.tail_cons, List.map_cons, List.map_nil, KeyName.text, KeyName.domain,
      KeyName.owner, Option.map_some, Option.map_none, Option.getD_some, Option.getD_none,
      List.append_nil, List.take_append, pending, liveness]
    simp
  apply List.Nodup.of_map (List.take 20)
  rw [heads]
  show ((["sentrix/v1/pending_rewards/", "sentrix/v1/liveness/", "sentrix/v1/total_minted",
    "sentrix/v1/native_src20_registry", "sentrix/v1/native_nft_registry",
    "sentrix/v1/epoch_state"].map textBytes).map (List.take 20)).Nodup
  decide

/-- An address proper is hashed as twenty bytes, and every text of a consensus leaf is
longer. -/
theorem account_text_apart {u : Unicode} {account earner seat : Address}
    (valid : isValidSentrixAddress account = true) (seated : isValidSentrixAddress seat = true) :
    (KeyName.account account).text u ∉ (namesOf account earner seat).tail.map (KeyName.text u) := by
  obtain ⟨empty, pending, liveness, minted, epoch, src20, nft⟩ := KeyName.length_domain
  have short : ((KeyName.account account).text u).length = 20 := by
    simp [KeyName.text, KeyName.domain, KeyName.owner, empty, plainBytes_valid valid]
  have long : ∀ text ∈ (namesOf account earner seat).tail.map (KeyName.text u),
      20 < text.length := by
    simp [namesOf, KeyName.text, KeyName.domain, KeyName.owner, pending, liveness, minted, epoch,
      src20, nft, plainBytes_valid seated]
    omega
  intro same
  exact absurd (long _ same) (by omega)

/-- For an account and a validator with addresses proper no two of the keys are the same. -/
theorem namespaces_disjoint {w : Wire} {account earner seat : Address}
    (valid : isValidSentrixAddress account = true) (seated : isValidSentrixAddress seat = true)
    (free : Set.InjOn (digest w)
      {text | text ∈ (namesOf account earner seat).map (KeyName.text w.unicode)}) :
    ((namesOf account earner seat).map (KeyName.key w)).Nodup := by
  have keys : (namesOf account earner seat).map (KeyName.key w) =
      ((namesOf account earner seat).map (KeyName.text w.unicode)).map (digest w) :=
    (List.map_map ..).symm
  rw [keys]
  apply List.Nodup.map_on fun _ inside _ inside' => free inside inside'
  exact List.nodup_cons.mpr ⟨account_text_apart valid seated,
    consensus_texts_nodup w.unicode account earner seat⟩

namespace Blockchain

theorem payment_names_disjoint :
    ((namesOf thirdAccount firstValidator secondValidator).map
      (KeyName.key paymentPlatform.wire)).Nodup := by
  refine namespaces_disjoint (by decide) (by decide) (paymentLibraries.keys.mono ?_)
  rintro _ inside
  obtain ⟨n, named, rfl⟩ := List.mem_map.mp inside
  have listed : ∀ n ∈ namesOf thirdAccount firstValidator secondValidator,
      n ∈ namesOver paymentAddresses := by decide
  exact Set.mem_image_of_mem _ (mem_namesOver.mpr (listed n named))

def mintedAddress : Address := "sentrix/v1/total_minted"

def keyTransfer : Transaction :=
  { signedTransfer with
    txid := "5c6af06ab78f15f757576eefbafb93cbbb4560f4e55c4c7154d9d9d6ec40b6de"
    toAddress := mintedAddress
    signature :=
      "381f53f3a9b14a9d2fa18eecfcac3211173eef636716a53c07d99c2cc996cef676d22ece7e6f9776da05" ++
      "81d255caae451f7d8f2233172fb7a68fb7582bfeb028" }

def keyBlock : Block :=
  sampleBlock 1 genesisBlock.hash [firstCoinbase, keyTransfer] 1700000001
    "33503c4dfcc34ee66ac54f4e21eb7547f37a6d5b49325356b8c45dba9bc9f09a"
    "f93c9bef8a18f4f2a5ba96ced92b574c932fcc6d3ffde281509cd587c15feb3e"

def keyPlatform : Platform :=
  let digests :=
    (mintedAddress, "23177981fe3bb802fd5c60a307e3517bcf0d66671ad612c2350b7786cf6a09fb") ::
      blockDigests keyBlock
  plainPlatform (signingWire digests secondKey secondValidator
    [(keyTransfer.signature, keyTransfer.signingPayload (tableWire digests))])

/-- A block may pay an account whose leaf is that of the minted total. -/
theorem transfer_to_minted_key :
    succeeds (submit keyPlatform ⟨1700000001, .peer, keyBlock⟩) fundedChain = true ∧
      (finalState (submit keyPlatform ⟨1700000001, .peer, keyBlock⟩)
        fundedChain).accounts.getBalance mintedAddress = 500 ∧
      addressToKey keyPlatform.wire mintedAddress = totalMintedKey keyPlatform.wire := by
  decide +kernel

end Blockchain
end SentrixCore
