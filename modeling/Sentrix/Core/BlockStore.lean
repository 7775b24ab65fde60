import Sentrix.Core.Storage

/-!
What is read back from the chain database after any sequence of writes. The storage layer
and the durable writer put the same rows but not the same bytes under `height`: decimal
text there, eight big-endian bytes here; the reader expects the text.
-/
namespace SentrixCore
open MachineWords HashTable SentrixPrimitives List

def heightJson (n : Nat) : Bytes :=
  (Nat.toDigits 10 n).map fun c => UInt8.ofNat c.toNat

def isJsonSpace (byte : UInt8) : Bool :=
  byte == 32 || byte == 9 || byte == 10 || byte == 13

def trimJson (bytes : Bytes) : Bytes :=
  (bytes.dropWhile isJsonSpace).rdropWhile isJsonSpace

/-- An unsigned integer alone: digits without a leading zero, in range. -/
def readHeight (bytes : Bytes) : Option Nat :=
  let text := trimJson bytes
  let n := Nat.ofDigitChars 10 (text.map fun byte => Char.ofNat byte.toNat) 0
  if text = heightJson n ∧ n ≤ u64Max then some n else none

theorem digit_byte {n : Nat} {c : Char} (inside : c ∈ Nat.toDigits 10 n) :
    48 ≤ c.toNat ∧ c.toNat < 58 ∧ (UInt8.ofNat c.toNat).toNat = c.toNat := by
  have range := Nat.isDigit_of_mem_toDigits (by decide) (by decide) inside
  simp only [Char.isDigit, Bool.and_eq_true, decide_eq_true_eq, ge_iff_le, UInt32.le_iff_toNat_le]
    at range
  change 48 ≤ c.toNat ∧ c.toNat ≤ 57 at range
  exact ⟨range.1, Nat.lt_succ_of_le range.2, Nat.mod_eq_of_lt (by omega)⟩

theorem heightJson_plain {n : Nat} {byte : UInt8} (inside : byte ∈ heightJson n) :
    ¬ isJsonSpace byte ∧ byte ≠ 0 := by
  obtain ⟨c, digit, rfl⟩ := mem_map.mp inside
  obtain ⟨low, -, value⟩ := digit_byte digit
  simp only [isJsonSpace, Bool.or_eq_true, beq_iff_eq, ne_eq, ← UInt8.toNat_inj, value,
    UInt8.reduceToNat]
  omega

theorem mem_trimJson {bytes : Bytes} {byte : UInt8} (inside : byte ∈ bytes)
    (plain : ¬ isJsonSpace byte) : byte ∈ trimJson bytes := by
  rw [← takeWhile_append_dropWhile (p := isJsonSpace) (l := bytes)] at inside
  have later := (mem_append.mp inside).resolve_left fun h => plain (mem_takeWhile_imp h)
  rw [← rdropWhile_append_rtakeWhile (p := isJsonSpace) (l := bytes.dropWhile isJsonSpace)] at later
  exact (mem_append.mp later).resolve_right fun h => plain (mem_rtakeWhile_imp h)

theorem readHeight_heightJson {n : Nat} (word : n ≤ u64Max) :
    readHeight (heightJson n) = some n := by
  have trimmed : trimJson (heightJson n) = heightJson n := by
    have left : (heightJson n).dropWhile isJsonSpace = heightJson n :=
      dropWhile_eq_self_iff.mpr fun _ => (heightJson_plain (getElem_mem _)).1
    rw [trimJson, left]
    exact rdropWhile_eq_self_iff.mpr fun _ => (heightJson_plain (getLast_mem _)).1
  have decoded : (heightJson n).map (fun byte => Char.ofNat byte.toNat) = Nat.toDigits 10 n := by
    rw [heightJson, map_map]
    refine (map_congr_left fun c inside => ?_).trans (map_id _)
    rw [Function.comp_apply, (digit_byte inside).2.2, Char.ofNat_toNat, id]
  unfold readHeight
  simp only [trimmed, decoded, Nat.ofDigitChars_toDigits (b := 10) (by decide) (by decide)]
  exact if_pos ⟨trivial, word⟩

theorem readHeight_beBytes (n : Nat) : readHeight (beBytes n) ≠ some n := by
  intro read
  unfold readHeight at read
  simp only at read
  split_ifs at read with ok
  rw [Option.some_inj.mp read] at ok
  have short : (heightJson n).length ≤ 8 := by
    rw [← ok.1]
    exact Nat.le_trans (IsPrefix.length_le <| rdropWhile_prefix _ _)
      (dropWhile_suffix _).length_le
  have small : n < 10 ^ 8 := by
    rw [heightJson, length_map] at short
    exact (Nat.length_toDigits_le_iff (by decide) (by decide)).mp short
  have zero : (0 : UInt8) ∈ beBytes n := by
    have top : n / 256 / 256 / 256 / 256 = 0 := by omega
    simp [beBytes, leBytes, top]
  exact (heightJson_plain (ok.1 ▸ mem_trimJson zero (by decide))).2 rfl

inductive StoreCall where
  | saveBlock (b : Block)
  | saveBlocks (blocks : List Block)
  | saveBlockchain (bc : Blockchain)
  | persistBlockDurable (b : Block)

namespace StoreCall

def blocks : StoreCall → List Block
  | .saveBlock b => [b]
  | .saveBlocks blocks => blocks
  | .saveBlockchain bc => bc.chain
  | .persistBlockDurable b => [b]

/-- The rows; the durable writer puts those of `save_block`. -/
def put (db : ChainStorage) : StoreCall → ChainStorage
  | .saveBlock b => db.saveBlock b
  | .saveBlocks blocks => db.saveBlocks blocks
  | .saveBlockchain bc => db.saveBlockchain bc
  | .persistBlockDurable b => db.saveBlock b

def heightBytes (height : Nat) : StoreCall → Bytes
  | .persistBlockDurable _ => beBytes height
  | _ => heightJson height

end StoreCall

/-- The database with the bytes of its `height` row; `rows.height` is the number meant. -/
structure BlockStore where
  rows : ChainStorage
  heightRow : Option Bytes

namespace BlockStore

def empty : BlockStore :=
  ⟨⟨none, none, none, ∅, ∅, ∅, ∅⟩, none⟩

def call (s : BlockStore) (c : StoreCall) : BlockStore where
  rows := c.put s.rows
  heightRow := match c.blocks.getLast? with
    | some last => some (c.heightBytes last.index)
    | none => s.heightRow

def after (calls : List StoreCall) : BlockStore :=
  calls.foldl call empty

/-- Nothing, where the row is not the text of a number. -/
def loadHeight (s : BlockStore) : Option Nat :=
  match s.heightRow with
  | some bytes => readHeight bytes
  | none => some 0

def loadBlock (s : BlockStore) (index : Nat) : Option Block :=
  s.rows.loadBlock index

def loadBlockByHash (s : BlockStore) (hash : Hash) : Option Block :=
  (s.rows.blockHashes.lookup hash).bind s.loadBlock

end BlockStore

open BlockStore

def blocksWritten (calls : List StoreCall) : List Block :=
  calls.flatMap StoreCall.blocks

structure StoreConsistent (calls : List StoreCall) : Prop where
  tip : (after calls).loadHeight = some (((blocksWritten calls).getLast?.map Block.index).getD 0)
  block : ∀ i, (after calls).loadBlock i = (blocksWritten calls).reverse.find? (·.index = i)
  byHash : ∀ hash b, (after calls).loadBlockByHash hash = some b → b.hash = hash

/-- A height that is written again has its former hash written again too. -/
def hashesRenewed : List Block → Prop
  | [] => True
  | b :: later =>
    ((∃ c ∈ later, c.index = b.index) → ∃ c ∈ later, c.hash = b.hash) ∧ hashesRenewed later

def tables (db : ChainStorage) : Table Nat Block × Table Hash Nat :=
  (db.blocks, db.blockHashes)

def enter (t : Table Nat Block × Table Hash Nat) (b : Block) : Table Nat Block × Table Hash Nat :=
  (t.1.insert b.index b, t.2.insert b.hash b.index)

theorem tables_put (db : ChainStorage) (c : StoreCall) :
    tables (c.put db) = c.blocks.foldl enter (tables db) := by
  have all (blocks : List Block) (db : ChainStorage) :
      tables (blocks.foldl ChainStorage.putBlock db) = blocks.foldl enter (tables db) :=
    (foldl_hom tables fun _ _ => rfl).symm
  cases c with
  | saveBlock b => rfl
  | saveBlocks blocks =>
    rw [StoreCall.put, ChainStorage.saveBlocks, StoreCall.blocks, ← all]
    split
    · rfl
    · rename_i nothing
      rw [getLast?_eq_none_iff.mp nothing]
      rfl
  | saveBlockchain bc =>
    have saved := all bc.chain { db with state := some bc.persisted, blobHeight := some bc.height }
    rw [StoreCall.put, ChainStorage.saveBlockchain]
    split
    · exact saved
    · exact saved
  | persistBlockDurable b => rfl

theorem tables_after (calls : List StoreCall) :
    tables (after calls).rows = (blocksWritten calls).foldl enter (∅, ∅) := by
  rw [blocksWritten, foldl_flatMap]
  exact (foldl_hom (fun s : BlockStore => tables s.rows) fun s c => (tables_put s.rows c).symm).symm

/-- The last block entered under a key is the one found there. -/
theorem lookup_entered (blocks : List Block) :
    (∀ i, (blocks.foldl enter (∅, ∅)).1.lookup i = blocks.reverse.find? (·.index = i)) ∧
      ∀ hash, (blocks.foldl enter (∅, ∅)).2.lookup hash =
        (blocks.reverse.find? (·.hash = hash)).map Block.index := by
  induction blocks using reverseRecOn with
  | nil => exact ⟨fun _ => rfl, fun _ => rfl⟩
  | append_singleton blocks b ih =>
    rw [foldl_concat, reverse_concat]
    refine ⟨fun i => ?_, fun hash => ?_⟩
    · by_cases same : b.index = i
      · simp [enter, same]
      · simp [enter, same, AList.lookup_insert_ne (Ne.symm same), ih.1]
    · by_cases same : b.hash = hash
      · simp [enter, same]
      · simp [enter, same, AList.lookup_insert_ne (Ne.symm same), ih.2]

theorem loadBlock_after (calls : List StoreCall) (i : Nat) :
    (after calls).loadBlock i = (blocksWritten calls).reverse.find? (·.index = i) := by
  rw [← (lookup_entered _).1 i, ← tables_after]
  rfl

/-- The block a hash leads to. -/
def ledTo (blocks : List Block) (hash : Hash) : Option Block :=
  (blocks.reverse.find? (·.hash = hash)).bind fun b => blocks.reverse.find? (·.index = b.index)

theorem ledTo_later {first : Block} {later : List Block} {hash : Hash}
    (again : ∃ c ∈ later, c.hash = hash) : ledTo (first :: later) hash = ledTo later hash := by
  have found : (later.reverse.find? (·.hash = hash)).isSome := by simpa using again
  obtain ⟨b, here⟩ := Option.isSome_iff_exists.mp found
  have stored : (later.reverse.find? (·.index = b.index)).isSome := by
    simpa using ⟨b, mem_reverse.mp (mem_of_find?_eq_some here), rfl⟩
  obtain ⟨c, there⟩ := Option.isSome_iff_exists.mp stored
  simp [ledTo, here, there]

theorem ledTo_first {first : Block} {later : List Block}
    (gone : ¬ ∃ c ∈ later, c.hash = first.hash) :
    ledTo (first :: later) first.hash =
      (later.reverse.find? (·.index = first.index)).or (some first) := by
  have missing : later.reverse.find? (·.hash = first.hash) = none := by simpa using gone
  simp [ledTo, missing]

/-- From the first block on: only a hash that is not written again can lead astray, and it
does so when its height is. -/
theorem ledTo_iff (blocks : List Block) :
    (∀ hash b, ledTo blocks hash = some b → b.hash = hash) ↔ hashesRenewed blocks := by
  induction blocks with
  | nil => exact ⟨fun _ => trivial, nofun⟩
  | cons first later ih =>
    rw [hashesRenewed, ← ih]
    constructor
    · refine fun right => ⟨fun ⟨c, inside, same⟩ => ?_, fun hash b found => right hash b ?_⟩
      · by_contra gone
        have stored : (later.reverse.find? (·.index = first.index)).isSome := by
          simpa using ⟨c, inside, same⟩
        obtain ⟨d, there⟩ := Option.isSome_iff_exists.mp stored
        refine gone ⟨d, mem_reverse.mp (mem_of_find?_eq_some there), right _ d ?_⟩
        rw [ledTo_first gone, there, Option.some_or]
      · obtain ⟨c, here, -⟩ := Option.bind_eq_some_iff.mp found
        have hash_there : c.hash = hash := by simpa using find?_some here
        rwa [ledTo_later ⟨c, mem_reverse.mp (mem_of_find?_eq_some here), hash_there⟩]
    · intro ⟨renewed, right⟩ hash b found
      by_cases again : ∃ c ∈ later, c.hash = hash
      · exact right hash b (ledTo_later again ▸ found)
      · have same : first.hash = hash := by
          obtain ⟨c, here, -⟩ := Option.bind_eq_some_iff.mp found
          have hash_there : c.hash = hash := by simpa using find?_some here
          rcases mem_cons.mp (mem_reverse.mp (mem_of_find?_eq_some here)) with
            rfl | inside
          · exact hash_there
          · exact absurd ⟨c, inside, hash_there⟩ again
        subst same
        have missing : later.reverse.find? (·.index = first.index) = none := by
          simpa using mt renewed again
        rw [ledTo_first again, missing, Option.none_or] at found
        exact congrArg Block.hash (Option.some_inj.mp found).symm

theorem loadBlockByHash_after (calls : List StoreCall) (hash : Hash) :
    (after calls).loadBlockByHash hash = ledTo (blocksWritten calls) hash := by
  have index := (lookup_entered (blocksWritten calls)).2 hash
  rw [← tables_after] at index
  change ((tables (after calls).rows).2.lookup hash).bind _ = _
  rw [index, Option.bind_map]
  exact congrArg _ (funext fun b => loadBlock_after calls b.index)

def lastWriter (calls : List StoreCall) : Option StoreCall :=
  calls.reverse.find? (!·.blocks.isEmpty)

theorem tip_iff (calls : List StoreCall) (words : ∀ b ∈ blocksWritten calls, b.index ≤ u64Max) :
    (after calls).loadHeight = some (((blocksWritten calls).getLast?.map Block.index).getD 0) ↔
      ∀ b, lastWriter calls ≠ some (.persistBlockDurable b) := by
  induction calls using reverseRecOn with
  | nil => exact ⟨nofun, fun _ => rfl⟩
  | append_singleton calls c ih =>
    have last : after (calls ++ [c]) = (after calls).call c :=
      foldl_concat ..
    have blocks : blocksWritten (calls ++ [c]) = blocksWritten calls ++ c.blocks := by
      simp [blocksWritten]
    rw [blocks] at words ⊢
    rw [last, lastWriter, reverse_concat, find?_cons, loadHeight, call]
    rcases found : c.blocks.getLast? with _ | b
    · have nothing : c.blocks = [] := getLast?_eq_none_iff.mp found
      have same := ih fun b inside => words b (mem_append_left _ inside)
      simpa [nothing, lastWriter, loadHeight] using same
    · have word : b.index ≤ u64Max :=
        words b (mem_append_right _ (mem_of_getLast? found))
      have writes : (!c.blocks.isEmpty) = true := by
        simpa using ne_nil_of_mem (mem_of_getLast? found)
      rw [writes, getLast?_append, found, Option.some_or]
      cases c with
      | persistBlockDurable b' =>
        exact ⟨fun read => absurd read (readHeight_beBytes b.index),
          fun other => absurd rfl (other b')⟩
      | _ => exact ⟨nofun, fun _ => readHeight_heightJson word⟩

/-- What the store gives back is right exactly as long as the last writer was not the
durable one and no height lost a hash. -/
theorem store_consistent_iff (calls : List StoreCall)
    (words : ∀ b ∈ blocksWritten calls, b.index < 2 ^ 64) :
    StoreConsistent calls ↔
      (∀ b, lastWriter calls ≠ some (.persistBlockDurable b)) ∧
        hashesRenewed (blocksWritten calls) := by
  have tip := tip_iff calls fun b inside => Nat.le_sub_one_of_lt (words b inside)
  have byHash := ledTo_iff (blocksWritten calls)
  constructor
  · intro ⟨height, _, hashes⟩
    refine ⟨tip.mp height, byHash.mp fun hash b found => hashes hash b ?_⟩
    rwa [loadBlockByHash_after]
  · intro ⟨writer, renewed⟩
    refine ⟨tip.mpr writer, loadBlock_after calls, fun hash b found => ?_⟩
    rw [loadBlockByHash_after] at found
    exact byHash.mpr renewed hash b found

def rowBlock (index : Nat) (hash : Hash) : Block :=
  ⟨index, "", [], 0, "", "v0", hash, none, 0, none⟩

theorem store_consistent_saves :
    StoreConsistent [.persistBlockDurable (rowBlock 7 "a"),
      .saveBlocks [rowBlock 8 "b", rowBlock 9 "c"]] := by
  refine (store_consistent_iff _ (by decide)).mpr ⟨nofun, ?_⟩
  simp [blocksWritten, StoreCall.blocks, hashesRenewed, rowBlock]

/-- One durable write, and the height cannot be read; one height written twice, and the
first hash leads to the second block. -/
theorem durable_height_unreadable :
    ((after [.persistBlockDurable (rowBlock 7 "a")]).loadHeight = none ∧
      ¬ StoreConsistent [.persistBlockDurable (rowBlock 7 "a")]) ∧
    ((after [.saveBlock (rowBlock 7 "a"), .saveBlock (rowBlock 7 "b")]).loadBlockByHash "a" =
        some (rowBlock 7 "b") ∧
      ¬ StoreConsistent [.saveBlock (rowBlock 7 "a"), .saveBlock (rowBlock 7 "b")]) := by
  have unread : (after [.persistBlockDurable (rowBlock 7 "a")]).loadHeight = none := by decide
  have astray : (after [.saveBlock (rowBlock 7 "a"), .saveBlock (rowBlock 7 "b")]).loadBlockByHash
      "a" = some (rowBlock 7 "b") := by decide
  refine ⟨⟨unread, fun right => ?_⟩, astray, fun right => ?_⟩
  · cases unread.symm.trans right.tip
  · exact absurd (right.byHash "a" _ astray) (by decide)

end SentrixCore
