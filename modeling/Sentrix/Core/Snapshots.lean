import Sentrix.Core.Executor

/-!
Snapshots of the state. A snapshot may come from anywhere: verification looks at its
addresses, the import decodes the rest and passes over what does not decode.
-/
namespace SentrixCore
open HashTable Effects SentrixPrimitives List

structure AccountEntry where
  address : Address
  balance : Nat
  nonce : Nat
  codeHash : String

structure ContractCodeEntry where
  codeHash : String
  bytecodeHex : String

structure StorageEntry where
  key : String
  valueHex : String

structure ValidatorEntry where
  address : Address
  name : String
  publicKey : String
  isActive : Bool
  blocksProduced : Nat
  deriving DecidableEq

structure StateSnapshot where
  version : Nat
  accounts : List AccountEntry
  contractCode : List ContractCodeEntry
  contractStorage : List StorageEntry
  validators : List ValidatorEntry
  adminAddress : Address
  totalMinted : Nat
  totalBurned : Nat

def snapshotVersion : Nat := 1

def firstDuplicate : List Address → List Address → Option Address
  | _, [] => none
  | seen, a :: rest => if a ∈ seen then some a else firstDuplicate (a :: seen) rest

/-- The total in the summary; an optimised build adds up modulo a word. -/
def verifySnapshot (s : StateSnapshot) : Except SentrixError Nat :=
  let addresses := s.accounts.map (·.address)
  if s.version ≠ snapshotVersion then
    .error (.internal s!"unsupported snapshot version: {s.version}")
  else
    match addresses.find? (!isValidSentrixAddress ·),
      (s.validators.map (·.address)).find? (!isValidSentrixAddress ·),
      firstDuplicate [] addresses with
    | some a, _, _ => .error (.internal ("invalid account address: " ++ a))
    | none, some v, _ => .error (.internal ("invalid validator address: " ++ v))
    | none, none, some a => .error (.internal ("duplicate account address: " ++ a))
    | none, none, none => .ok ((s.accounts.map (·.balance)).sum % 2 ^ 64)

def decodeHash (text : String) : Option Bytes :=
  (hexDecode text).filter (·.length = 32)

def importAccount (t : Table Address Account) (e : AccountEntry) : Table Address Account :=
  let a := (t.lookup e.address).getD (Account.new e.address)
  t.insert e.address
    ⟨a.address, e.balance, e.nonce, (decodeHash e.codeHash).getD a.codeHash⟩

def hasColon (key : String) : Bool :=
  key.toList.contains ':'

def ValidatorEntry.toValidator (now : Nat) (v : ValidatorEntry) : Validator :=
  { Validator.new now v.address v.name v.publicKey with
    isActive := v.isActive
    blocksProduced := v.blocksProduced }

/-- A storage key is taken apart at its first colon and put together again. -/
def loadSnapshot (now : Nat) (s : StateSnapshot) (bc : Blockchain) : Blockchain :=
  let stored := s.contractStorage.filter fun e => hasColon e.key && (hexDecode e.valueHex).isSome
  { bc with
    totalMinted := s.totalMinted
    accounts := { bc.accounts with
      accounts := s.accounts.foldl importAccount ∅
      totalBurned := s.totalBurned
      contractCode := (∅ : Table String Bytes).collect
        (keyed (fun _ => true) (·.codeHash) fun e => hexDecode e.bytecodeHex) s.contractCode
      contractStorage := (∅ : Table String Bytes).collect
        (keyed hasColon (·.key) fun e => hexDecode e.valueHex) s.contractStorage
      touchedInBlock := stored.foldl (fun l e =>
        l.insert (String.ofList (e.key.toList.takeWhile (· != ':')))) bc.accounts.touchedInBlock }
    authority := ⟨(∅ : Table Address Validator).collect
      (keyed (fun _ => true) (·.address) fun v => some (v.toValidator now)) s.validators,
      s.adminAddress⟩ }

def importState (now : Nat) (s : StateSnapshot) : Apply Nat := do
  ensure (s.version = snapshotVersion)
    (.internal s!"unsupported snapshot version: {s.version} (expected {snapshotVersion})")
  modify (loadSnapshot now s)
  pure s.accounts.length

structure Contains (now : Nat) (s : StateSnapshot) (bc : Blockchain) : Prop where
  accounts : ∀ e ∈ s.accounts, (bc.accounts.accounts.lookup e.address).map (fun a =>
    (a.balance, a.nonce, some a.codeHash)) = some (e.balance, e.nonce, hexDecode e.codeHash)
  code : Arrived (·.codeHash) (fun e => hexDecode e.bytecodeHex) bc.accounts.contractCode
    s.contractCode
  storage : Arrived (·.key) (fun e => hexDecode e.valueHex) bc.accounts.contractStorage
    s.contractStorage
  validators : Arrived (·.address) (fun v => some (v.toValidator now)) bc.authority.validators
    s.validators

structure Importable (s : StateSnapshot) : Prop where
  hashes : ∀ e ∈ s.accounts, (decodeHash e.codeHash).isSome = true
  code : Consistent (fun _ => true) (·.codeHash) (fun e => hexDecode e.bytecodeHex) s.contractCode
  storage : Consistent hasColon (·.key) (fun e => hexDecode e.valueHex) s.contractStorage
  validators : ∀ a ∈ s.validators, ∀ b ∈ s.validators, a.address = b.address → a = b
  fits : (s.accounts.map (·.balance)).sum < 2 ^ 64

theorem firstDuplicate_none {seen l : List Address} (none_twice : firstDuplicate seen l = none) :
    l.Nodup ∧ ∀ a ∈ l, a ∉ seen := by
  induction l generalizing seen with
  | nil => exact ⟨nodup_nil, nofun⟩
  | cons a rest ih =>
    unfold firstDuplicate at none_twice
    split at none_twice
    · cases none_twice
    · rename_i fresh
      obtain ⟨distinct, apart⟩ := ih none_twice
      refine ⟨List.nodup_cons.mpr ⟨fun inside => apart a inside mem_cons_self, distinct⟩, ?_⟩
      rintro b inside
      rcases mem_cons.mp inside with rfl | later
      · exact fresh
      · exact fun old => apart b later (mem_cons_of_mem _ old)

variable {s : StateSnapshot}

theorem verifySnapshot_ok {total : Nat} (verified : verifySnapshot s = .ok total) :
    s.version = snapshotVersion ∧ (s.accounts.map (·.address)).Nodup ∧
      total = (s.accounts.map (·.balance)).sum % 2 ^ 64 := by
  unfold verifySnapshot at verified
  dsimp only at verified
  split at verified
  · cases verified
  · rename_i version
    split at verified <;> cases verified
    rename_i single
    exact ⟨not_not.mp version, (firstDuplicate_none single).1, rfl⟩

theorem lookup_importAccount {l : List AccountEntry} (distinct : (l.map (·.address)).Nodup)
    {e : AccountEntry} (inside : e ∈ l) : (l.foldl importAccount ∅).lookup e.address = some
      ⟨e.address, e.balance, e.nonce, (decodeHash e.codeHash).getD emptyCodeHash⟩ := by
  exact foldl_once (fun t : Table Address Account => t.lookup e.address) (fun held =>
    let a := held.getD (Account.new e.address)
    some ⟨a.address, e.balance, e.nonce, (decodeHash e.codeHash).getD a.codeHash⟩)
    (Nodup.of_map _ distinct) inside (fun _ => AList.lookup_insert _)
    (fun b there other _ => AList.lookup_insert_ne fun same =>
      other (List.inj_on_of_nodup_map distinct there inside same.symm)) ∅

theorem sumOf_importAccount {l : List AccountEntry} {t : Table Address Account}
    (distinct : (l.map (·.address)).Nodup) (absent : ∀ e ∈ l, t.lookup e.address = none) :
    sumOf (fun _ a => a.balance) (l.foldl importAccount t) =
      sumOf (fun _ a => a.balance) t + (l.map (·.balance)).sum := by
  induction l generalizing t with
  | nil => rfl
  | cons e rest ih =>
    obtain ⟨fresh, others⟩ := List.nodup_cons.mp distinct
    have later : ∀ d ∈ rest, (importAccount t e).lookup d.address = none := by
      intro d inside
      have other : d.address ≠ e.address := fun same => fresh (mem_map.mpr ⟨d, inside, same⟩)
      rw [importAccount, AList.lookup_insert_ne other]
      exact absent d (mem_cons_of_mem _ inside)
    rw [foldl_cons, ih others later, importAccount,
      sumOf_insert_absent _ _ (absent e mem_cons_self), map_cons, sum_cons]
    dsimp only
    omega

theorem decodeHash_isSome_iff (text : String) :
    some ((decodeHash text).getD emptyCodeHash) = hexDecode text ↔
      (decodeHash text).isSome = true := by
  unfold decodeHash
  cases hexDecode text with
  | none => simp
  | some bytes =>
    by_cases long : bytes.length = 32
    · simp [Option.filter, long]
    · have other : emptyCodeHash ≠ bytes := fun same => long (same ▸ rfl)
      simp [Option.filter, long, other]

theorem toValidator_inj {now : Nat} {a b : ValidatorEntry}
    (same : a.toValidator now = b.toValidator now) : a = b := by
  cases a
  cases b
  cases same
  rfl

/-- Of a verified snapshot everything arrives exactly if the rest of it decodes, no two
entries contradict each other and the total fits a word. -/
theorem verified_import_faithful_iff {total : Nat} (now : Nat) (bc : Blockchain)
    (verified : verifySnapshot s = .ok total) :
    (∃ n after, importState now s bc = .ok n after ∧ Contains now s after ∧
      sumOf (fun _ a => a.balance) after.accounts.accounts = total) ↔ Importable s := by
  obtain ⟨version, distinct, rfl⟩ := verifySnapshot_ok verified
  have runs : importState now s bc = .ok s.accounts.length (loadSnapshot now s bc) := by
    unfold importState
    rw [decide_eq_true version]
    rfl
  have accounts : ∀ e ∈ s.accounts, ((loadSnapshot now s bc).accounts.accounts.lookup
      e.address).map (fun a => (a.balance, a.nonce, some a.codeHash)) =
        some (e.balance, e.nonce, hexDecode e.codeHash) ↔ (decodeHash e.codeHash).isSome = true := by
    intro e inside
    unfold loadSnapshot
    simp [lookup_importAccount distinct inside, decodeHash_isSome_iff]
  have balances : sumOf (fun _ a => a.balance) (loadSnapshot now s bc).accounts.accounts =
      (s.accounts.map (·.balance)).sum :=
    (sumOf_importAccount distinct fun _ _ => rfl).trans (Nat.zero_add _)
  constructor
  · rintro ⟨n, after, ran, there, sum⟩
    cases runs.symm.trans ran
    rw [balances] at sum
    refine ⟨fun e inside => (accounts e inside).mp (there.accounts e inside),
      arrived_collect_iff.mp there.code, arrived_collect_iff.mp there.storage,
      fun a here b also same => ?_, sum ▸ Nat.mod_lt _ (by decide)⟩
    have agree := (arrived_collect_iff.mp there.validators).2 a here b also same
    exact toValidator_inj (Option.some.inj agree)
  · intro fine
    refine ⟨_, _, runs, ⟨fun e inside => (accounts e inside).mpr (fine.hashes e inside),
      arrived_collect_iff.mpr fine.code, arrived_collect_iff.mpr fine.storage,
      arrived_collect_iff.mpr ⟨fun _ _ => ⟨rfl, rfl⟩, fun a here b also same => ?_⟩⟩,
      balances.trans (Nat.mod_eq_of_lt fine.fits).symm⟩
    rw [fine.validators a here b also same]

namespace Blockchain

def snapshotOf (code : List ContractCodeEntry) : StateSnapshot :=
  ⟨1, [⟨firstValidator, 5, 1, hexEncode emptyCodeHash⟩], code, [⟨"a:b", "ff"⟩],
    [⟨secondValidator, "v", "k", true, 3⟩], firstValidator, 5, 0⟩

def emptyChain : Blockchain := seedChain .new

def twoCodes : StateSnapshot := snapshotOf [⟨"h", "01"⟩, ⟨"h", "02"⟩]

/-- The second code under a hash takes the place of the first. -/
theorem verified_code_lost : (verifySnapshot twoCodes).toOption = some 5 ∧
    succeeds (importState 0 twoCodes) emptyChain = true ∧
    (finalState (importState 0 twoCodes) emptyChain).accounts.getContractCode "h" = some [2] ∧
    ¬ Contains 0 twoCodes (finalState (importState 0 twoCodes) emptyChain) := by
  refine ⟨by decide, by decide, by decide, fun there => ?_⟩
  have first := there.code ⟨"h", "01"⟩ mem_cons_self
  exact absurd first (by decide)

def oneCode : StateSnapshot := snapshotOf [⟨"h", "01"⟩]

theorem sound_snapshot_imported : verifySnapshot oneCode = .ok 5 ∧
    ∃ n after, importState 0 oneCode emptyChain = .ok n after ∧ Contains 0 oneCode after ∧
      sumOf (fun _ a => a.balance) after.accounts.accounts = 5 := by
  have verified : verifySnapshot oneCode = .ok 5 := by rfl
  exact ⟨verified, (verified_import_faithful_iff 0 emptyChain verified).mpr
    ⟨by decide, by decide, by decide, by decide, by decide⟩⟩

end Blockchain

end SentrixCore
