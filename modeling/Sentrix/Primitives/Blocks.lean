import Sentrix.Primitives.Transactions

/-!
Blocks: the Merkle root over transaction ids, the header hash, and the
structural checks every block passes before any state is read.
-/
namespace SentrixPrimitives
open List

/-- From this height on the header hash covers the state root. -/
def stateRootForkHeight : Nat := 100000

structure Block where
  index : Nat
  previousHash : Hash
  transactions : List Transaction
  timestamp : Nat
  merkleRoot : Hash
  validator : Address
  hash : Hash
  stateRoot : Option Bytes
  round : Nat
  justification : Option BlockJustification
  deriving DecidableEq, Repr

/-- One level up: neighbours are hashed in pairs, an odd last one with itself. -/
def merkleLevel (w : Wire) : List Hash → List Hash
  | a :: b :: rest => w.sha256Hex (textBytes (a ++ b)) :: merkleLevel w rest
  | [a] => [w.sha256Hex (textBytes (a ++ a))]
  | [] => []

/-- The loop up the tree; `fuel` bounds the number of levels. -/
def merkleClimb (w : Wire) : Nat → List Hash → List Hash
  | 0, level => level
  | fuel + 1, level => if level.length ≤ 1 then level else merkleClimb w fuel (merkleLevel w level)

def zeroHash : Hash :=
  String.ofList (List.replicate 64 '0')

def merkleRoot (w : Wire) (txids : List Hash) : Hash :=
  match txids with
  | [] => zeroHash
  | [txid] => w.sha256Hex (textBytes txid)
  | _ => ((merkleClimb w txids.length txids).head?).getD zeroHash

namespace Block

def headerPayload (b : Block) : String :=
  let legacy := toString b.index ++ b.previousHash ++ b.merkleRoot ++ toString b.timestamp ++
    b.validator
  if stateRootForkHeight ≤ b.index then legacy ++ (b.stateRoot.map hexEncode).getD zeroHash
  else legacy

def calculateHash (w : Wire) (b : Block) : Hash :=
  w.sha256Hex (textBytes b.headerPayload)

def isValidHash (w : Wire) (b : Block) : Bool :=
  b.hash == b.calculateHash w

def coinbase (b : Block) : Option Transaction :=
  b.transactions.head?.filter Transaction.isCoinbase

def repeatedTxid : List Hash → List Hash → Option Hash
  | _, [] => none
  | seen, txid :: rest => if seen.contains txid then some txid else repeatedTxid (txid :: seen) rest

def validateStructure (w : Wire) (b : Block) (expectedIndex : Nat) (expectedPrevHash : Hash) :
    Except SentrixError Unit :=
  if b.index ≠ expectedIndex then
    .error (.invalidBlock ("expected index " ++ toString expectedIndex ++ ", got " ++
      toString b.index))
  else if b.previousHash ≠ expectedPrevHash then .error (.invalidBlock "invalid previous hash")
  else if !b.isValidHash w then .error (.invalidBlock "block hash is invalid")
  else
    match b.transactions with
    | [] => .error (.invalidBlock "block has no transactions")
    | first :: others =>
      if !first.isCoinbase then .error (.invalidBlock "first transaction must be coinbase")
      else if others.any Transaction.isCoinbase then
        .error (.invalidBlock "only the first transaction may be coinbase")
      else
        match repeatedTxid [] (b.transactions.map (·.txid)) with
        | some txid => .error (.invalidBlock ("duplicate txid " ++ txid ++ " in block"))
        | none =>
          if SentrixPrimitives.merkleRoot w (b.transactions.map (·.txid)) ≠ b.merkleRoot then
            .error (.invalidBlock "merkle root mismatch")
          else .ok ()

theorem nodup_of_repeatedTxid {txids seen : List Hash} (fresh : repeatedTxid seen txids = none) :
    txids.Nodup ∧ ∀ txid ∈ txids, txid ∉ seen := by
  induction txids generalizing seen with
  | nil => simp
  | cons txid rest ih =>
    simp only [repeatedTxid, contains_eq_mem, decide_eq_true_eq] at fresh
    split at fresh
    · cases fresh
    · rename_i unseen
      obtain ⟨nodup, apart⟩ := ih fresh
      simp only [mem_cons, not_or] at apart
      refine ⟨List.nodup_cons.mpr ⟨fun again => (apart txid again).1 rfl, nodup⟩, ?_⟩
      simp only [mem_cons, forall_eq_or_imp]
      exact ⟨unseen, fun other mem => (apart other mem).2⟩

structure WellStructured (w : Wire) (b : Block) (index : Nat) (prevHash : Hash) : Prop where
  index_eq : b.index = index
  previous : b.previousHash = prevHash
  hash_eq : b.hash = b.calculateHash w
  first : ∃ coinbase others, b.transactions = coinbase :: others ∧ coinbase.isCoinbase = true ∧
    ∀ tx ∈ others, tx.isCoinbase = false
  distinct : (b.transactions.map (·.txid)).Nodup
  root : SentrixPrimitives.merkleRoot w (b.transactions.map (·.txid)) = b.merkleRoot

theorem wellStructured_of_ok {w : Wire} {b : Block} {index : Nat} {prevHash : Hash}
    (passed : b.validateStructure w index prevHash = .ok ()) :
    b.WellStructured w index prevHash := by
  unfold validateStructure at passed
  split at passed
  · cases passed
  split at passed
  · cases passed
  split at passed
  · cases passed
  rename_i index_eq previous hash_eq
  split at passed
  · cases passed
  rename_i first others shape
  split at passed
  · cases passed
  split at passed
  · cases passed
  rename_i coinbase plain
  split at passed
  · cases passed
  rename_i fresh
  split at passed
  · cases passed
  rename_i root
  simp only [Bool.not_eq_true', Bool.not_eq_false, isValidHash, beq_iff_eq] at hash_eq coinbase
  simp only [any_eq_true, not_exists, not_and, Bool.not_eq_true] at plain
  exact ⟨not_not.mp index_eq, not_not.mp previous, hash_eq, ⟨first, others, shape, coinbase, plain⟩,
    (nodup_of_repeatedTxid fresh).1, not_not.mp root⟩

end Block
end SentrixPrimitives
