import Sentrix.Lib.Effects
import Sentrix.Lib.HashTable
import Sentrix.Primitives.Basic

/-!
Native accounts: balances, nonces, contract code and storage, the burn counter
and the list of addresses a block has touched. Fallible operations keep what
they had changed when they fail; the caller rolls back.
-/
namespace SentrixPrimitives
open MachineWords HashTable Effects

def maxFailedEvmTxs : Nat := 100000

def emptyCodeHash : Bytes :=
  [0xc5, 0xd2, 0x46, 0x01, 0x86, 0xf7, 0x23, 0x3c, 0x92, 0x7e, 0x7d, 0xb2, 0xdc, 0xc7, 0x03, 0xc0,
   0xe5, 0x00, 0xb6, 0x53, 0xca, 0x82, 0x27, 0x3b, 0x7b, 0xfa, 0xd8, 0x04, 0x5d, 0x85, 0xa4, 0x70]

structure Account where
  address : Address
  balance : Nat
  nonce : Nat
  codeHash : Bytes
  deriving DecidableEq, Repr

def Account.new (address : Address) : Account :=
  ⟨address, 0, 0, emptyCodeHash⟩

structure AccountDB where
  accounts : Table Address Account
  totalBurned : Nat
  contractCode : Table String Bytes
  contractStorage : Table String Bytes
  failedEvmTxs : List String
  failedEvmTxsOrder : List String
  touchedInBlock : List Address
  deriving DecidableEq

namespace AccountDB

def new : AccountDB :=
  ⟨∅, 0, ∅, ∅, [], [], []⟩

def getOrCreate (db : AccountDB) (address : Address) : Account :=
  (db.accounts.lookup address).getD (Account.new address)

/-- `get_or_create` followed by a write through the reference. -/
def update (db : AccountDB) (address : Address) (f : Account → Account) : AccountDB :=
  { db with accounts := db.accounts.insert address (f (db.getOrCreate address)) }

def touch (db : AccountDB) (address : Address) : AccountDB :=
  { db with touchedInBlock := db.touchedInBlock.insert address }

def getBalance (db : AccountDB) (address : Address) : Nat :=
  ((db.accounts.lookup address).map (·.balance)).getD 0

def getNonce (db : AccountDB) (address : Address) : Nat :=
  ((db.accounts.lookup address).map (·.nonce)).getD 0

def burn (db : AccountDB) (amount : Nat) : AccountDB :=
  { db with totalBurned := satAdd64 db.totalBurned amount }

def burnShare (fee : Nat) : Nat :=
  (fee + 1) / 2

def credit (address : Address) (amount : Nat) : EStateM SentrixError AccountDB Unit := do
  modify fun db => (db.touch address).update address id
  let db ← get
  let balance ← fromOption (checkedAdd64 (db.getBalance address) amount)
    (.internal "balance overflow")
  modify (·.update address fun a => { a with balance := balance })

/-- For EVM transactions: no nonce moves here, revm is expected to move it. -/
def chargeFeeOnly (sender : Address) (fee : Nat) : EStateM SentrixError AccountDB Unit := do
  let db ← get
  ensure (fee ≤ db.getBalance sender) (.insufficientBalance (db.getBalance sender) fee)
  modify fun db => (db.touch sender).update sender fun a => { a with balance := a.balance - fee }
  modify (·.burn (burnShare fee))

def transfer (sender recipient : Address) (amount fee : Nat) :
    EStateM SentrixError AccountDB Unit := do
  let total ← fromOption (checkedAdd64 amount fee) (.internal "amount + fee overflow")
  let db ← get
  ensure (total ≤ db.getBalance sender) (.insufficientBalance (db.getBalance sender) total)
  modify fun db => ((db.touch sender).touch recipient).update sender fun a =>
    { a with balance := a.balance - total }
  let db ← get
  let nonce ← fromOption (checkedAdd64 (db.getNonce sender) 1) (.internal "nonce overflow")
  modify (·.update sender fun a => { a with nonce := nonce })
  credit recipient amount
  modify (·.burn (burnShare fee))

def storeContractCode (db : AccountDB) (codeHashHex : String) (bytecode : Bytes) : AccountDB :=
  { db with contractCode := db.contractCode.insert codeHashHex bytecode }

def getContractCode (db : AccountDB) (codeHashHex : String) : Option Bytes :=
  db.contractCode.lookup codeHashHex

def storeContractStorage (db : AccountDB) (address : Address) (slotHex : String) (value : Bytes) :
    AccountDB :=
  { db.touch address with
    contractStorage := db.contractStorage.insert (address ++ ":" ++ slotHex) value }

def setContract (db : AccountDB) (address : Address) (codeHash : Bytes) : AccountDB :=
  (db.touch address).update address fun a => { a with codeHash := codeHash }

def setBalance (db : AccountDB) (address : Address) (balance : Nat) : AccountDB :=
  (db.touch address).update address fun a => { a with balance := balance }

def setNonce (db : AccountDB) (address : Address) (nonce : Nat) : AccountDB :=
  (db.touch address).update address fun a => { a with nonce := nonce }

def clearTouchedInBlock (db : AccountDB) : AccountDB :=
  { db with touchedInBlock := [] }

/-- The oldest marks fall out once the list is full. -/
def markEvmTxFailed (db : AccountDB) (txid : String) : AccountDB :=
  if db.failedEvmTxs.contains txid then db
  else
    let order := db.failedEvmTxsOrder ++ [txid]
    match order with
    | oldest :: rest =>
      if maxFailedEvmTxs < order.length then
        { db with failedEvmTxs := (txid :: db.failedEvmTxs).erase oldest, failedEvmTxsOrder := rest }
      else { db with failedEvmTxs := txid :: db.failedEvmTxs, failedEvmTxsOrder := order }
    | [] => db

def isEvmTxFailed (db : AccountDB) (txid : String) : Bool :=
  db.failedEvmTxs.contains txid

section
variable (db : AccountDB) (a c : Address)

theorem getOrCreate_balance : (db.getOrCreate a).balance = db.getBalance a := by
  unfold getOrCreate getBalance
  cases db.accounts.lookup a <;> rfl

theorem getOrCreate_nonce : (db.getOrCreate a).nonce = db.getNonce a := by
  unfold getOrCreate getNonce
  cases db.accounts.lookup a <;> rfl

theorem lookup_update (f : Account → Account) : (db.update a f).accounts.lookup c =
    if c = a then some (f (db.getOrCreate a)) else db.accounts.lookup c := by
  unfold update
  by_cases same : c = a
  · subst same
    simp
  · simp [same, AList.lookup_insert_ne]

theorem getBalance_update (f : Account → Account) : (db.update a f).getBalance c =
    if c = a then (f (db.getOrCreate a)).balance else db.getBalance c := by
  rw [getBalance, lookup_update]
  split <;> rfl

theorem getNonce_update (f : Account → Account) : (db.update a f).getNonce c =
    if c = a then (f (db.getOrCreate a)).nonce else db.getNonce c := by
  rw [getNonce, lookup_update]
  split <;> rfl

@[simp] theorem getBalance_touch : (db.touch a).getBalance c = db.getBalance c := rfl
@[simp] theorem getNonce_touch : (db.touch a).getNonce c = db.getNonce c := rfl
@[simp] theorem getOrCreate_touch : (db.touch a).getOrCreate c = db.getOrCreate c := rfl
@[simp] theorem getBalance_burn (n : Nat) : (db.burn n).getBalance c = db.getBalance c := rfl
@[simp] theorem getNonce_burn (n : Nat) : (db.burn n).getNonce c = db.getNonce c := rfl

@[simp] theorem getNonce_update_balance (g : Account → Nat) :
    (db.update a fun x => { x with balance := g x }).getNonce c = db.getNonce c := by
  rw [getNonce_update]
  by_cases same : c = a
  · simp [same, getOrCreate_nonce]
  · simp [same]

@[simp] theorem getNonce_update_code (codeHash : Bytes) :
    (db.update a fun x => { x with codeHash := codeHash }).getNonce c = db.getNonce c := by
  rw [getNonce_update]
  by_cases same : c = a
  · simp [same, getOrCreate_nonce]
  · simp [same]

@[simp] theorem getNonce_update_id : (db.update a id).getNonce c = db.getNonce c := by
  rw [getNonce_update]
  by_cases same : c = a
  · simp [same, getOrCreate_nonce]
  · simp [same]

@[simp] theorem getBalance_update_id : (db.update a id).getBalance c = db.getBalance c := by
  rw [getBalance_update]
  by_cases same : c = a
  · simp [same, getOrCreate_balance]
  · simp [same]

@[simp] theorem getBalance_update_nonce (n : Nat) :
    (db.update a fun x => { x with nonce := n }).getBalance c = db.getBalance c := by
  rw [getBalance_update]
  by_cases same : c = a
  · simp [same, getOrCreate_balance]
  · simp [same]

theorem getBalance_setBalance (n : Nat) :
    (db.setBalance a n).getBalance c = if c = a then n else db.getBalance c := by
  unfold setBalance
  rw [getBalance_update, getBalance_touch]

theorem getNonce_setBalance (n : Nat) : (db.setBalance a n).getNonce c = db.getNonce c := by
  simp [setBalance]

theorem getNonce_setContract (codeHash : Bytes) :
    (db.setContract a codeHash).getNonce c = db.getNonce c := by
  simp [setContract]

theorem getNonce_markEvmTxFailed (txid : String) :
    (db.markEvmTxFailed txid).getNonce c = db.getNonce c := by
  unfold markEvmTxFailed
  split
  · rfl
  · dsimp only
    split
    · split <;> rfl
    · rfl

end

section
variable {db paid : AccountDB} {sender recipient address : Address} {amount fee : Nat} {u : Unit}
  {e : SentrixError}

theorem credit_ok (ran : credit address amount db = .ok u paid) :
    (∀ c, paid.getBalance c = db.getBalance c + if c = address then amount else 0) ∧
      ∀ c, paid.getNonce c = db.getNonce c := by
  unfold credit at ran
  obtain ⟨balance, sum, written⟩ := fromOption_bind_ok (get_bind_ok (modify_bind_ok ran))
  cases modify_ok.mp written
  have total := (checkedAdd64_eq_some sum).1
  rw [getBalance_update_id, getBalance_touch] at total
  constructor
  · intro c
    rw [getBalance_update, getBalance_update_id, getBalance_touch]
    by_cases same : c = address
    · simp [same, total]
    · simp [same]
  · intro c
    simp

theorem credit_error (ran : credit address amount db = .error e paid) :
    (∀ c, paid.getBalance c = db.getBalance c) ∧ ∀ c, paid.getNonce c = db.getNonce c := by
  have opened : paid = (db.touch address).update address id := by
    unfold credit at ran
    rcases bind_error.mp ran with impossible | ⟨_, _, opened, ran⟩
    · exact absurd impossible modify_error
    cases modify_ok.mp opened
    have ran := get_bind_error ran
    rcases bind_error.mp ran with refused | ⟨_, _, _, impossible⟩
    · exact (fromOption_error.mp refused).2.2
    · exact absurd impossible modify_error
  subst opened
  constructor
  · intro c
    simp
  · intro c
    simp

theorem chargeFeeOnly_ok (ran : chargeFeeOnly sender fee db = .ok u paid) :
    fee ≤ db.getBalance sender ∧
      (∀ c, paid.getBalance c = db.getBalance c - if c = sender then fee else 0) ∧
      ∀ c, paid.getNonce c = db.getNonce c := by
  unfold chargeFeeOnly at ran
  obtain ⟨enough, taken⟩ := ensure_bind_ok (get_bind_ok ran)
  cases modify_ok.mp (modify_bind_ok taken)
  refine ⟨of_decide_eq_true enough, ?_, ?_⟩
  · intro c
    rw [getBalance_burn, getBalance_update, getOrCreate_touch, getOrCreate_balance,
      getBalance_touch]
    by_cases same : c = sender
    · simp [same]
    · simp [same]
  · intro c
    simp

theorem transfer_ok (ran : transfer sender recipient amount fee db = .ok u paid) :
    amount + fee ≤ db.getBalance sender ∧ db.getNonce sender + 1 ≤ u64Max ∧
      (∀ c, paid.getBalance c = (db.getBalance c - if c = sender then amount + fee else 0) +
        if c = recipient then amount else 0) ∧
      ∀ c, paid.getNonce c = db.getNonce c + if c = sender then 1 else 0 := by
  unfold transfer at ran
  obtain ⟨total, sum, ran⟩ := fromOption_bind_ok ran
  obtain ⟨rfl, _⟩ := checkedAdd64_eq_some sum
  obtain ⟨enough, taken⟩ := ensure_bind_ok (get_bind_ok ran)
  obtain ⟨nonce, next, written⟩ := fromOption_bind_ok (get_bind_ok (modify_bind_ok taken))
  obtain ⟨_, credited, paidIn, burned⟩ := bind_ok.mp (modify_bind_ok written)
  cases modify_ok.mp burned
  obtain ⟨rfl, word⟩ := checkedAdd64_eq_some next
  obtain ⟨balances, nonces⟩ := credit_ok paidIn
  simp only [getNonce_update_balance, getNonce_touch] at word nonces
  refine ⟨of_decide_eq_true enough, word, ?_, ?_⟩
  · intro c
    rw [getBalance_burn, balances, getBalance_update_nonce, getBalance_update, getOrCreate_touch,
      getOrCreate_touch, getOrCreate_balance, getBalance_touch, getBalance_touch]
    by_cases same : c = sender
    · simp [same]
    · simp [same]
  · intro c
    rw [getNonce_burn, nonces, getNonce_update]
    by_cases same : c = sender
    · simp [same]
    · simp [same]

theorem transfer_error (ran : transfer sender recipient amount fee db = .error e paid) :
    (∀ c, c ≠ sender → paid.getBalance c = db.getBalance c) ∧
      ∀ c, db.getNonce c ≤ paid.getNonce c ∧ (c ≠ sender → paid.getNonce c = db.getNonce c) := by
  unfold transfer at ran
  rcases bind_error.mp ran with refused | ⟨total, _, added, summed⟩
  · obtain ⟨_, _, rfl⟩ := fromOption_error.mp refused
    simp
  obtain ⟨_, rfl⟩ := fromOption_ok.mp added
  rcases bind_error.mp (get_bind_error summed) with refused | ⟨_, _, enough, checked⟩
  · obtain ⟨_, _, rfl⟩ := ensure_error.mp refused
    simp
  obtain ⟨_, rfl⟩ := ensure_ok.mp enough
  rcases bind_error.mp checked with impossible | ⟨_, _, taken, charged⟩
  · exact absurd impossible modify_error
  cases modify_ok.mp taken
  rcases bind_error.mp (get_bind_error charged) with refused | ⟨nonce, _, next, numbered⟩
  · obtain ⟨_, _, rfl⟩ := fromOption_error.mp refused
    constructor
    · intro c other
      simp [getBalance_update, other]
    · intro c
      simp
  obtain ⟨sum, rfl⟩ := fromOption_ok.mp next
  obtain ⟨rfl, _⟩ := checkedAdd64_eq_some sum
  rcases bind_error.mp numbered with impossible | ⟨_, _, written, ending⟩
  · exact absurd impossible modify_error
  cases modify_ok.mp written
  rcases bind_error.mp ending with refused | ⟨_, _, _, impossible⟩
  · obtain ⟨balances, nonces⟩ := credit_error refused
    constructor
    · intro c other
      rw [balances]
      simp [getBalance_update, other]
    · intro c
      rw [nonces, getNonce_update]
      by_cases same : c = sender
      · simp [same]
      · simp [same]
  · exact absurd impossible modify_error

end

end AccountDB
end SentrixPrimitives
