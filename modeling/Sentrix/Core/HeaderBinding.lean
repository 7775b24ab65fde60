import Sentrix.Core.HashCommitment

/-!
Which header fields a block hash determines. The header joins decimal numbers and free
texts without separators: the Merkle root is cut off by its length, while a digit may
belong to the time or to the producer's name.
-/
namespace SentrixCore
open HashTree Effects SentrixPrimitives List

namespace Blockchain

theorem append_inj_of_length_right {a b c d : String} (same : a ++ b = c ++ d)
    (lengths : b.length = d.length) : a = c ∧ b = d := by
  have total := congrArg String.length same
  rw [String.length_append, String.length_append] at total
  exact append_inj_of_length same (by omega)

theorem toString_nat_inj {m k : Nat} (same : toString m = toString k) : m = k := by
  have ends : EndsNumber "" := fun c found => by cases found
  have joined : toString m ++ "" = toString k ++ "" := by rw [same]
  exact (number_split ends ends joined).1

theorem hexEncode_inj {bytes bytes' : Bytes} (same : hexEncode bytes = hexEncode bytes') :
    bytes = bytes' := by
  have read := congrArg (fun text => hexPairs text.toList) same
  simp only [hexPairs_hexEncode] at read
  exact Option.some.inj read

/-- A state root is an array of 32 bytes. -/
def Rooted (b : Block) : Prop :=
  ∀ root, b.stateRoot = some root → root.length = 32

def rootOrZero (b : Block) : Bytes :=
  b.stateRoot.getD (List.replicate 32 0)

theorem rootText_eq (b : Block) : rootText b = hexEncode (rootOrZero b) := by
  unfold rootText rootOrZero
  cases b.stateRoot with
  | none => decide
  | some root => rfl

theorem length_rootText {b : Block} (rooted : Rooted b) : (rootText b).length = 64 := by
  have bytes : (rootOrZero b).length = 32 := by
    unfold rootOrZero
    cases found : b.stateRoot with
    | none => rfl
    | some root => exact rooted root found
  rw [rootText_eq, String.length, length_hexEncode, bytes]

section
variable {b other : Block}

theorem headerTail_inj (rooted : Rooted b) (rooted' : Rooted other)
    (height : b.index = other.index) (same : headerTail b = headerTail other) :
    toString b.timestamp ++ b.validator = toString other.timestamp ++ other.validator ∧
      (stateRootForkHeight ≤ b.index → rootOrZero b = rootOrZero other) := by
  unfold headerTail at same
  rw [← height] at same
  by_cases past : stateRootForkHeight ≤ b.index
  · rw [if_pos past, if_pos past] at same
    obtain ⟨front, roots⟩ := append_inj_of_length_right same
      ((length_rootText rooted).trans (length_rootText rooted').symm)
    rw [rootText_eq, rootText_eq] at roots
    exact ⟨front, fun _ => hexEncode_inj roots⟩
  · rw [if_neg past, if_neg past, String.append_empty, String.append_empty] at same
    exact ⟨same, fun reached => absurd reached past⟩

/-- Where the time ends is told by the length of the name alone. -/
theorem producer_inj_iff
    (same : toString b.timestamp ++ b.validator = toString other.timestamp ++ other.validator) :
    b.timestamp = other.timestamp ∧ b.validator = other.validator ↔
      b.validator.length = other.validator.length := by
  constructor
  · rintro ⟨-, producer⟩
    rw [producer]
  · intro lengths
    obtain ⟨time, producer⟩ := append_inj_of_length_right same lengths
    exact ⟨toString_nat_inj time, producer⟩

end

/-- Two blocks of one hash, both accepted on one state: one Merkle root; one state root,
a missing one read as zeros, from the fork on; and time and producer are the same
exactly if the producers' names are equally long. -/
theorem hash_binds_header {env : Platform} {s other : Submission} {bc after after' : Blockchain}
    {u u' : Unit} (hex : HexDigests env.wire)
    (free : CollisionFree env.wire.digest [s.block.headerPayload, other.block.headerPayload])
    (rooted : Rooted s.block) (rooted' : Rooted other.block)
    (accepted : submit env s bc = .ok u after) (accepted' : submit env other bc = .ok u' after')
    (same : s.block.hash = other.block.hash) :
    s.block.merkleRoot = other.block.merkleRoot ∧
      (stateRootForkHeight ≤ s.block.index → rootOrZero s.block = rootOrZero other.block) ∧
      (s.block.timestamp = other.block.timestamp ∧ s.block.validator = other.block.validator ↔
        s.block.validator.length = other.block.validator.length) := by
  obtain ⟨previous, latest, structured⟩ := structured_of_submit accepted
  obtain ⟨previous', latest', structured'⟩ := structured_of_submit accepted'
  obtain rfl : previous = previous' := Except.ok.inj (latest.symm.trans latest')
  obtain ⟨root, tails⟩ := header_of_hash hex free structured structured' same
  have height : s.block.index = other.block.index :=
    structured.index_eq.trans structured'.index_eq.symm
  obtain ⟨front, roots⟩ := headerTail_inj rooted rooted' height tails
  exact ⟨root, roots, producer_inj_iff front⟩

def earlyGenesis : Block :=
  { genesisBlock with
    timestamp := 100000000
    hash := "c1396f4c8922406941c2d8ccefa2388de16c5d66986d534c00b3be43cefefe84" }

def earlyChain : Blockchain :=
  { seedChain .new with chain := [earlyGenesis] }

def earlyBlock : Block :=
  { firstBlock with
    previousHash := earlyGenesis.hash
    hash := "e42ff78627485c3ce4a69879438a7501c0218b6992e164cf071cfe0a55fbc970" }

/-- The time's last digit moved over to the producer, who is paid under that name. -/
def shiftedBlock : Block :=
  let producer := "1" ++ firstValidator
  { earlyBlock with
    timestamp := 170000000
    validator := producer
    transactions := earlyBlock.transactions.map fun tx => { tx with toAddress := producer } }

def earlyPlatform : Platform :=
  plainPlatform (tableWire (blockDigests earlyBlock))

def offered (b : Block) : Submission :=
  ⟨1700000001, .peer, b⟩

def rootedEarly : Block :=
  stampRoot (List.replicate 32 1) earlyBlock

theorem early_accepted :
    succeeds (submit earlyPlatform (offered earlyBlock)) earlyChain = true ∧
      succeeds (submit earlyPlatform (offered rootedEarly)) earlyChain = true ∧
      succeeds (submit earlyPlatform (offered shiftedBlock)) earlyChain = true ∧
      CollisionFree earlyPlatform.wire.digest
        [earlyBlock.headerPayload, rootedEarly.headerPayload, shiftedBlock.headerPayload] := by
  decide +kernel

/-- Below the fork the root is free, and one hash stands for two times and producers. -/
theorem one_hash_two_headers :
    (∃ after after', submit earlyPlatform (offered earlyBlock) earlyChain = .ok () after ∧
        submit earlyPlatform (offered rootedEarly) earlyChain = .ok () after' ∧
        earlyBlock.hash = rootedEarly.hash ∧ earlyBlock.stateRoot ≠ rootedEarly.stateRoot) ∧
      ∃ after after', submit earlyPlatform (offered earlyBlock) earlyChain = .ok () after ∧
        submit earlyPlatform (offered shiftedBlock) earlyChain = .ok () after' ∧
        earlyBlock.hash = shiftedBlock.hash ∧ earlyBlock.timestamp ≠ shiftedBlock.timestamp ∧
        earlyBlock.validator ≠ shiftedBlock.validator := by
  obtain ⟨first, second, third, -⟩ := early_accepted
  obtain ⟨_, after, accepted⟩ := succeeds_iff.mp first
  obtain ⟨_, withRoot, accepted'⟩ := succeeds_iff.mp second
  obtain ⟨_, shifted, accepted''⟩ := succeeds_iff.mp third
  exact ⟨⟨after, withRoot, accepted, accepted', rfl, by decide⟩,
    ⟨after, shifted, accepted, accepted'', rfl, by decide, by decide⟩⟩

/-- Equally long names: time and producer are bound along with the Merkle root. -/
theorem early_header_bound :
    rootedEarly.merkleRoot = earlyBlock.merkleRoot ∧
      rootedEarly.timestamp = earlyBlock.timestamp ∧ rootedEarly.validator = earlyBlock.validator := by
  obtain ⟨first, second, -, free⟩ := early_accepted
  obtain ⟨_, after, accepted⟩ := succeeds_iff.mp first
  obtain ⟨_, withRoot, accepted'⟩ := succeeds_iff.mp second
  have hex : HexDigests earlyPlatform.wire := hexDigests_table (by decide)
  have texts {x : String} (inside : x ∈ [rootedEarly.headerPayload, earlyBlock.headerPayload]) :
      x ∈ [earlyBlock.headerPayload, rootedEarly.headerPayload, shiftedBlock.headerPayload] := by
    rcases List.mem_pair.mp inside with rfl | rfl
    · exact mem_cons_of_mem _ mem_cons_self
    · exact mem_cons_self
  have bare : Rooted earlyBlock := nofun
  have full : Rooted rootedEarly := by
    intro root found
    rw [← Option.some.inj found, length_replicate]
  have bound := hash_binds_header hex (fun x inside y inside' => free x (texts inside) y (texts inside'))
    full bare accepted' accepted (by decide)
  exact ⟨bound.1, bound.2.2.mpr (by decide)⟩

end Blockchain
end SentrixCore
