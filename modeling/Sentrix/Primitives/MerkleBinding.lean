import Sentrix.Lib.HashTree
import Sentrix.Primitives.Blocks

/-!
What a Merkle root says about the txids under it. The structural checks refuse a
repeated txid and look at no other property of the txids, which are stored text.
-/
namespace SentrixPrimitives
open HashTree

def Wire.digest (w : Wire) (text : String) : Hash :=
  w.sha256Hex (textBytes text)

theorem merkleLevel_eq_level (w : Wire) (txids : List Hash) :
    merkleLevel w txids = level w.digest txids := by
  induction txids using joined.induct with
  | case1 a b rest ih => simp [merkleLevel, level, joined, Wire.digest, ih]
  | case2 a => simp [merkleLevel, level, joined, Wire.digest]
  | case3 => simp [merkleLevel, level, joined]

theorem merkleClimb_eq_climb (w : Wire) (fuel : Nat) (txids : List Hash) :
    merkleClimb w fuel txids = climb w.digest fuel txids := by
  induction fuel generalizing txids with
  | zero => simp [merkleClimb, climb]
  | succ fuel ih => simp [merkleClimb, climb, merkleLevel_eq_level, ih]

def merkleTexts (w : Wire) (txids : List Hash) : List String :=
  match txids with
  | [txid] => [txid]
  | _ => hashed w.digest txids.length txids

/-- A root is the digest of its only txid or the top of a tree. -/
theorem merkleRoot_cases (w : Wire) {txids : List Hash} (some_txid : txids ≠ []) :
    (∃ txid, txids = [txid] ∧ merkleRoot w txids = w.digest txid ∧ merkleTexts w txids = [txid]) ∨
      (2 ≤ txids.length ∧ climb w.digest txids.length txids = [merkleRoot w txids] ∧
        merkleTexts w txids = hashed w.digest txids.length txids) := by
  match txids with
  | [txid] => exact .inl ⟨txid, rfl, rfl, rfl⟩
  | a :: b :: rest =>
    right
    obtain ⟨_, root, climbed, -⟩ := climb_eq_rise w.digest (Nat.le_succ _) some_txid
    refine ⟨by simp, ?_, rfl⟩
    have top : merkleRoot w (a :: b :: rest) = root := by
      change ((merkleClimb w (a :: b :: rest).length (a :: b :: rest)).head?).getD zeroHash = root
      rw [merkleClimb_eq_climb, climbed]
      simp
    rw [climbed, top]

section roots
variable {w : Wire} {txids others : List Hash}

theorem merkleRoot_length (hex : ∀ m, (w.sha256Hex m).length = 64) (some_txid : txids ≠ []) :
    (merkleRoot w txids).length = 64 := by
  rcases merkleRoot_cases w some_txid with ⟨txid, -, root, -⟩ | ⟨wide, root, -⟩
  · rw [root]
    exact hex _
  · obtain ⟨_, s, _, _, climbed⟩ := climb_formed w.digest wide (Nat.le_succ _)
    have formed : merkleRoot w txids = w.digest s := by simpa [root] using climbed
    rw [formed]
    exact hex _

theorem merkleRoot_inj_of_lengths (hex : ∀ m, (w.sha256Hex m).length = 64) (some_txid : txids ≠ [])
    (lengths : txids.map String.length = others.map String.length)
    (free : CollisionFree w.digest (merkleTexts w txids ++ merkleTexts w others))
    (same : merkleRoot w txids = merkleRoot w others) : txids = others := by
  have width : ∀ s, (w.digest s).length = 64 := fun s => hex _
  have count : txids.length = others.length := by simpa using congrArg List.length lengths
  have some_other : others ≠ [] := by
    rw [← List.length_pos_iff] at some_txid ⊢
    omega
  rcases merkleRoot_cases w some_txid with ⟨txid, rfl, root, texts⟩ | ⟨wide, root, texts⟩ <;>
    rcases merkleRoot_cases w some_other with ⟨other, rfl, root', texts'⟩ | ⟨wide', root', texts'⟩
  · rw [root, root'] at same
    rw [texts, texts'] at free
    rw [free txid (by simp) other (by simp) same]
  · simp at count
    omega
  · simp at count
    omega
  · rw [texts, texts', count] at free
    apply climb_inj_of_lengths width lengths free
    rw [root', ← same, ← root, count]

/-- Digest-like txids, none of them an inner node of the other tree. -/
structure Leaves (w : Wire) (txids others : List Hash) : Prop where
  length_eq : ∀ txid ∈ txids, txid.length = 64
  apart : Apart w.digest txids (merkleTexts w others)

/-- An only txid is too short to be the text at the top of a tree. -/
theorem digest_ne_merkleRoot (hex : ∀ m, (w.sha256Hex m).length = 64) {txid : Hash}
    (length_eq : txid.length = 64) (lengths : ∀ other ∈ others, other.length = 64)
    (wide : 2 ≤ others.length)
    (root : climb w.digest others.length others = [merkleRoot w others])
    (free : ∀ s ∈ hashed w.digest others.length others, w.digest txid = w.digest s → txid = s) :
    w.digest txid ≠ merkleRoot w others := by
  have width : ∀ s, (w.digest s).length = 64 := fun s => hex _
  obtain ⟨s, inner, top, long⟩ := climb_top width lengths wide (Nat.le_succ _)
  intro same
  have formed : w.digest txid = w.digest s := by
    rw [same]
    simpa [root] using top
  have equal : txid = s := free s inner formed
  rw [equal] at length_eq
  omega

theorem merkleRoot_inj_of_leaves (hex : ∀ m, (w.sha256Hex m).length = 64) (some_txid : txids ≠ [])
    (some_other : others ≠ []) (nodup : txids.Nodup) (nodup' : others.Nodup)
    (leaves : Leaves w txids others) (leaves' : Leaves w others txids)
    (free : CollisionFree w.digest (merkleTexts w txids ++ merkleTexts w others))
    (same : merkleRoot w txids = merkleRoot w others) : txids = others := by
  have width : ∀ s, (w.digest s).length = 64 := fun s => hex _
  obtain ⟨lengths, apart⟩ := leaves
  obtain ⟨lengths', apart'⟩ := leaves'
  rcases merkleRoot_cases w some_txid with ⟨txid, rfl, root, texts⟩ | ⟨wide, root, texts⟩ <;>
    rcases merkleRoot_cases w some_other with ⟨other, rfl, root', texts'⟩ | ⟨wide', root', texts'⟩ <;>
    rw [texts, texts'] at free
  · rw [root, root'] at same
    rw [free txid (by simp) other (by simp) same]
  · rw [root] at same
    exact absurd same (digest_ne_merkleRoot hex (lengths txid (by simp)) lengths' wide' root'
      fun s inner => free txid (by simp) s (by simp [inner]))
  · rw [root'] at same
    exact absurd same.symm (digest_ne_merkleRoot hex (lengths' other (by simp)) lengths wide root
      fun s inner => free other (by simp) s (by simp [inner]))
  · rw [texts'] at apart
    rw [texts] at apart'
    exact climb_binds width ⟨lengths, nodup⟩ ⟨lengths', nodup'⟩ some_txid some_other (Nat.le_succ _)
      (Nat.le_succ _) free apart apart' (by rw [root, root', same])

end roots
end SentrixPrimitives
