import Sentrix.Core.AcceptedIds
import Sentrix.Core.TwinRuns

/-!
What a block hash commits to. The header names index, parent, Merkle root, time and
producer, but not the certificate, which the reward bookkeeping reads, and of the
transactions only their stored ids.
-/
namespace SentrixCore
open HashTree Effects SentrixPrimitives SentrixStaking

namespace Blockchain

/-- The root as the header spells it; there is no other mark for a missing one. -/
def rootText (b : Block) : String :=
  (b.stateRoot.map hexEncode).getD zeroHash

def headerTail (b : Block) : String :=
  toString b.timestamp ++ b.validator ++ if stateRootForkHeight ≤ b.index then rootText b else ""

theorem headerPayload_split (b : Block) :
    b.headerPayload = toString b.index ++ b.previousHash ++ (b.merkleRoot ++ headerTail b) := by
  unfold Block.headerPayload headerTail rootText
  split
  · simp only [String.append_assoc]
  · simp only [String.append_assoc, String.append_empty]

section
variable {w : Wire} {b other : Block} {index : Nat} {prevHash : Hash}

theorem header_of_hash (hex : HexDigests w)
    (free : CollisionFree w.digest [b.headerPayload, other.headerPayload])
    (structured : b.WellStructured w index prevHash)
    (structured' : other.WellStructured w index prevHash) (same : b.hash = other.hash) :
    b.merkleRoot = other.merkleRoot ∧ headerTail b = headerTail other := by
  have payloads : b.headerPayload = other.headerPayload := by
    apply free _ (by simp) _ (by simp)
    exact structured.hash_eq.symm.trans (same.trans structured'.hash_eq)
  have roots : b.merkleRoot.length = other.merkleRoot.length := by
    rw [← structured.root, ← structured'.root]
    exact (merkleRoot_length hex.length_eq (txids_ne_nil structured)).trans
      (merkleRoot_length hex.length_eq (txids_ne_nil structured')).symm
  rw [headerPayload_split b, headerPayload_split other, structured.index_eq, structured'.index_eq,
    structured.previous, structured'.previous] at payloads
  exact append_inj_of_length (literal_split payloads) roots

theorem sameEffect_of_content {tx tx' : Transaction} (txid : tx.txid = tx'.txid)
    (content : tx.content = tx'.content) (native : tx.isEvmTx = false) : SameEffect tx tx' := by
  simp only [Transaction.content, Transaction.mk.injEq] at content
  obtain ⟨-, sender, recipient, amount, fee, nonce, data, time, chain, -⟩ := content
  exact ⟨txid, sender, recipient, amount, fee, nonce, data, time, chain,
    fun evm => absurd evm (by simp [native])⟩

end

theorem checkCoinbase_recipient {forks : Forks} {bc : Blockchain} {b : Block}
    (passed : bc.checkCoinbase forks b = .ok ()) : b.coinbase.map (·.toAddress) = some b.validator := by
  unfold checkCoinbase at passed
  cases found : b.coinbase with
  | none => simp [found] at passed
  | some coinbase =>
    rw [found] at passed
    obtain ⟨_, _, passed⟩ := except_bind_ok.mp passed
    simpa using require_ok.mp passed

/-- The producer is named by the coinbase, which the ids commit to. -/
theorem twin_of_sameEffect {env : Platform} {s other : Submission} {bc after after' : Blockchain}
    {u u' : Unit} (accepted : submit env s bc = .ok u after)
    (accepted' : submit env other bc = .ok u' after')
    (same : List.Forall₂ SameEffect s.block.transactions other.block.transactions) :
    Twin s.block other.block := by
  obtain ⟨_, _, structured⟩ := structured_of_submit accepted
  obtain ⟨_, _, structured'⟩ := structured_of_submit accepted'
  obtain ⟨_, _, _, contents, _⟩ := addBlockWithSource_ok accepted
  obtain ⟨_, _, _, contents', _⟩ := addBlockWithSource_ok accepted'
  have recipient := checkCoinbase_recipient (checkContents_ok contents).1
  have recipient' := checkCoinbase_recipient (checkContents_ok contents').1
  refine ⟨structured.index_eq.trans structured'.index_eq.symm, ?_, same⟩
  apply Option.some.inj
  rw [← recipient, ← recipient', coinbase_map_eq same SameEffect.toAddress]

/-- Two accepted blocks of one hash, whatever their sources and the clocks. -/
theorem hash_determines_transition {env : Platform} {s other : Submission}
    {bc after after' : Blockchain} (hex : HexDigests env.wire)
    (quoting : Unambiguous env.wire.quote)
    (free : CollisionFree env.wire.digest
      (blockTexts env.wire s.block ++ blockTexts env.wire other.block))
    (headers : CollisionFree env.wire.digest [s.block.headerPayload, other.block.headerPayload])
    (accepted : submit env s bc = .ok () after) (accepted' : submit env other bc = .ok () after')
    (known : ∀ tx ∈ s.block.transactions,
      Identified env.wire (merkleTexts env.wire other.block.txids) tx)
    (known' : ∀ tx ∈ other.block.transactions,
      Identified env.wire (merkleTexts env.wire s.block.txids) tx)
    (calls : ∀ tx ∈ s.block.transactions, ∀ tx' ∈ other.block.transactions, tx.txid = tx'.txid →
      (tx.isEvmTx || tx'.isEvmTx) = true → tx = tx')
    (certificate : reached env.forks.rewardApplyPath bc.expectedIndex = true →
      signers s.block = signers other.block)
    (same : s.block.hash = other.block.hash) : ledgers after = ledgers after' := by
  obtain ⟨previous, latest, structured⟩ := structured_of_submit accepted
  obtain ⟨previous', latest', structured'⟩ := structured_of_submit accepted'
  obtain rfl : previous = previous' := by simpa [latest] using latest'
  have roots := (header_of_hash hex headers structured structured' same).1
  have effects : List.Forall₂ SameEffect s.block.transactions other.block.transactions := by
    apply forall₂_of_txids (txids_of_root hex free known known' structured structured' roots)
    intro tx inside tx' inside' txid
    cases evm : tx.isEvmTx || tx'.isEvmTx with
    | true =>
      rw [calls tx inside tx' inside' txid evm]
      exact SameEffect.refl tx'
    | false =>
      simp only [Bool.or_eq_false_iff] at evm
      exact sameEffect_of_content txid (sameContent_of_txid quoting free inside inside'
        (known tx inside) (known' tx' inside') txid evm.1 evm.2) evm.1
  have twin := twin_of_sameEffect accepted accepted' effects
  obtain ⟨verified, applied, _, _, pass2, rfl⟩ := addBlockWithSource_ok accepted
  obtain ⟨verified', applied', _, _, pass2', rfl⟩ := addBlockWithSource_ok accepted'
  have alike : Alike (bc.entering s.source verified) (bc.entering other.source verified') :=
    { Alike.refl bc with }
  rw [← structured.index_eq] at certificate
  have settled : ledgers applied = ledgers applied' := twin_pass2 twin certificate alike pass2 pass2'
  exact settled

def fourthAccount : Address := "0x1eff47bc3a10a45d4b230b5d10e37751fe6aa718"

def fourSeats : Blockchain :=
  seedChain (bondedSet [firstValidator, secondValidator, thirdAccount, fourthAccount])

def precommitOf (v : Address) : SignedPrecommit :=
  ⟨v, firstBlock.hash, [], ((fourSeats.stakeRegistry.getValidator v).map (·.totalStake)).getD 0⟩

def certifiedBy (voters : List Address) : Block :=
  { firstBlock with justification := some ⟨1, 0, firstBlock.hash, voters.map precommitOf⟩ }

def rewardPlatform : Platform :=
  { plainPlatform (tableWire firstDigests) with forks := { Forks.off with rewardApplyPath := 0 } }

def pendingRewards (bc : Blockchain) (v : Address) : Option Nat :=
  (bc.stakeRegistry.getValidator v).map (·.pendingRewards)

/-- Two certificates of one block pay different validators, and two transaction lists
under one root move different money; each pair of blocks has one hash and both
are accepted from peers on one state. -/
theorem one_hash_two_transitions :
    let peer (b : Block) : Submission := ⟨1700000001, .peer, b⟩
    let third := certifiedBy [firstValidator, secondValidator, thirdAccount]
    let fourth := certifiedBy [firstValidator, secondValidator, fourthAccount]
    third.hash = fourth.hash ∧
      succeeds (submit rewardPlatform (peer third)) fourSeats = true ∧
      succeeds (submit rewardPlatform (peer fourth)) fourSeats = true ∧
      pendingRewards (finalState (submit rewardPlatform (peer third)) fourSeats) thirdAccount =
        some 33333333 ∧
      pendingRewards (finalState (submit rewardPlatform (peer fourth)) fourSeats) thirdAccount =
        some 0 ∧
      joinedIdBlock.hash = splitIdBlock.hash ∧
      (finalState (submit shortIdPlatform (peer joinedIdBlock)) fundedChain).accounts.getBalance
        thirdAccount = 0 ∧
      (finalState (submit shortIdPlatform (peer splitIdBlock)) fundedChain).accounts.getBalance
        thirdAccount = 500 := by
  decide +kernel

def rewardedIds : Platform :=
  { idPlatform with forks := { Forks.off with rewardApplyPath := 0 } }

def certifiedTransfer (round : Nat) : Block :=
  { transferBlock with
    round := round
    justification := some ⟨1, round, transferBlock.hash, [precommitOf firstValidator]⟩ }

def ownTransfer : Submission := ⟨1700000001, .selfProduced, certifiedTransfer 0⟩

def recertifiedTransfer : Submission := ⟨1700000009, .peer, certifiedTransfer 3⟩

def rewardedAfter (s : Submission) : Blockchain :=
  finalState (submit rewardedIds s) fundedChain

/-- Certified in another round by the same signer, who is paid for it. -/
theorem recertified_transfer_same_ledgers :
    ownTransfer.block ≠ recertifiedTransfer.block ∧
      pendingRewards (rewardedAfter ownTransfer) firstValidator = some 100000000 ∧
      ledgers (rewardedAfter ownTransfer) = ledgers (rewardedAfter recertifiedTransfer) := by
  obtain ⟨⟨accepts, accepts'⟩, free, native, paid, headers⟩ :
      (succeeds (submit rewardedIds ownTransfer) fundedChain = true ∧
          succeeds (submit rewardedIds recertifiedTransfer) fundedChain = true) ∧
        CollisionFree rewardedIds.wire.digest (blockTexts rewardedIds.wire (certifiedTransfer 0) ++
          blockTexts rewardedIds.wire (certifiedTransfer 3)) ∧
        (∀ tx ∈ transferBlock.transactions, tx.isEvmTx = false) ∧
        pendingRewards (rewardedAfter ownTransfer) firstValidator = some 100000000 ∧
        CollisionFree rewardedIds.wire.digest
          [(certifiedTransfer 0).headerPayload, (certifiedTransfer 3).headerPayload] := by
    decide +kernel
  refine ⟨by decide, paid, ?_⟩
  obtain ⟨_, _, accepted⟩ := succeeds_iff.mp accepts
  obtain ⟨_, _, accepted'⟩ := succeeds_iff.mp accepts'
  rw [rewardedAfter, rewardedAfter, finalState_ok accepted, finalState_ok accepted']
  have hex : HexDigests rewardedIds.wire := hexDigests_idPlatform
  apply hash_determines_transition hex unambiguous_escaped free
    headers accepted accepted' (identified_transferBlock _) (identified_transferBlock _)
  · intro tx inside tx' inside' _ evm
    simp [native tx inside, native tx' inside'] at evm
  · intro _
    rfl
  · rfl

end Blockchain
end SentrixCore
