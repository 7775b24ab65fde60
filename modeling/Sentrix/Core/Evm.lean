import Sentrix.Core.Blockchain

/-!
EVM transactions inside a block. The native pass has already taken the fee; here the
envelope in the signature field is decoded, the call is run by revm on a copy of the
account table, and the accounts it touched are written back. Every failure leaves the
block standing and marks the transaction as failed.
-/
namespace SentrixCore
open MachineWords HashTable SentrixPrimitives

def txGasLimitCap : Nat := 16777216
def initialBaseFee : Nat := 10000
def eip170MaxCodeSize : Nat := 24576
def weiPerSentri : Nat := 10000000000

structure AccountInfo where
  balance : Nat
  nonce : Nat
  codeHash : Bytes
  deriving DecidableEq, Repr

/-- Accounts by their twenty bytes, in wei. -/
structure SentrixEvmDb where
  accounts : Table Bytes AccountInfo
  code : Table Bytes Bytes
  storage : Table (Bytes × Nat) Nat
  deriving DecidableEq

structure TxEnv where
  caller : Bytes
  /-- The callee, or none for a creation. -/
  target : Option Bytes
  data : Bytes
  value : Nat
  gasLimit : Nat
  gasPrice : Nat
  nonce : Nat
  chainId : Nat
  deriving DecidableEq, Repr

structure EvmAccount where
  touched : Bool
  selfdestructed : Bool
  info : AccountInfo
  code : Option Bytes
  changedSlots : List (Nat × Nat)
  deriving DecidableEq, Repr

abbrev EvmState := List (Bytes × EvmAccount)

inductive ExecutionResult where
  | success (output : Bytes) (created : Option Bytes)
  | revert (output : Bytes)
  | halt (reason : String)
  deriving DecidableEq, Repr

/-- Library code behind the EVM path: revm, the EIP-2718 decoder (its `value`
field is what the code reads), Keccak, slot parsing, map iteration order. -/
structure EvmHost where
  transact : (disableBaseFee : Bool) → (chainId : Nat) → SentrixEvmDb → TxEnv →
    Except String (ExecutionResult × EvmState)
  envelopeValue : Bytes → Option Nat
  keccak : Bytes → Bytes
  parseSlot : String → Option Nat
  order : HashIter (Address × Account)
  storageOrder : HashIter (String × Bytes)

def parseSentrixAddress (addr : Address) : Option Bytes :=
  let digits := if addr.toList.take 2 = ['0', 'x'] then addr.toList.drop 2 else addr.toList
  if digits.length = 40 then hexPairs digits else none

def addressToSentrix (addr : Bytes) : Address :=
  "0x" ++ hexEncode addr

/-- `str::parse::<u64>`: an optional plus sign, at least one digit, no overflow. -/
def parseU64 (s : String) : Option Nat :=
  let digits := match s.toList with
    | '+' :: rest => rest
    | other => other
  if digits.isEmpty || !digits.all (·.isDigit) then none
  else
    let n := digits.foldl (fun n c => 10 * n + (c.toNat - 48)) 0
    if n ≤ u64Max then some n else none

def splitColon : List Char → Option (List Char × List Char)
  | [] => none
  | c :: rest =>
    if c = ':' then some ([], rest) else (splitColon rest).map fun (a, b) => (c :: a, b)

def evmFields (data : String) : Option (String × String) := do
  let (tag, rest) ← splitColon data.toList
  let (gas, calldata) ← splitColon rest
  if tag = ['E', 'V', 'M'] then some (String.ofList gas, String.ofList calldata) else none

def bytesToNat (bytes : Bytes) : Nat :=
  bytes.foldl (fun n b => 256 * n + b.toNat) 0

def slotBytes (n : Nat) : Bytes :=
  (leBytes 32 n).reverse

namespace SentrixEvmDb

def insertAccount (db : SentrixEvmDb) (entry : Address × Account) : SentrixEvmDb :=
  match parseSentrixAddress entry.1 with
  | none => db
  | some addr => { db with
      accounts := db.accounts.insert addr
        ⟨min (entry.2.balance * weiPerSentri) (2 ^ 256 - 1), entry.2.nonce, entry.2.codeHash⟩ }

def insertCode (source : AccountDB) (db : SentrixEvmDb) (a : Account) : SentrixEvmDb :=
  if a.codeHash = emptyCodeHash then db
  else
    match source.getContractCode (hexEncode a.codeHash) with
    | some bytecode => { db with code := db.code.insert a.codeHash bytecode }
    | none => db

def storageEntry (entry : String × Bytes) : Option ((Bytes × Nat) × Nat) := do
  let (owner, slot) ← splitColon entry.1.toList
  let addr ← parseSentrixAddress (String.ofList owner)
  let bytes ← if slot.length = 64 then hexPairs slot else none
  if entry.2.length = 32 then some ((addr, bytesToNat bytes), bytesToNat entry.2) else none

def insertStorage (db : SentrixEvmDb) (entry : String × Bytes) : SentrixEvmDb :=
  match storageEntry entry with
  | some (slot, value) => { db with storage := db.storage.insert slot value }
  | none => db

/-- Two spellings of one address share an entry: the last one visited wins. -/
def fromAccountDb (host : EvmHost) (source : AccountDB) : SentrixEvmDb :=
  let visited := host.order.visit source.accounts.pairs
  let loaded := visited.foldl insertAccount ⟨∅, ∅, ∅⟩
  let coded := (visited.map (·.2)).foldl (insertCode source) loaded
  (host.storageOrder.visit source.contractStorage.pairs).foldl insertStorage coded

/-- The callee's code and its slots, whatever their length, once more. -/
def preload (host : EvmHost) (source : AccountDB) (target : Bytes) (db : SentrixEvmDb) :
    SentrixEvmDb :=
  let text := addressToSentrix target
  match source.accounts.lookup text with
  | none => db
  | some account =>
    if account.codeHash = emptyCodeHash then db
    else
      let coded := db.insertCode source account
      let own := source.contractStorage.pairs.filter fun e => (text ++ ":").toList.isPrefixOf e.1.toList
      let sorted := own.insertionSort fun a b => a.1 ≤ b.1
      sorted.foldl (fun d e =>
        match host.parseSlot (String.ofList (e.1.toList.drop (text.length + 1))) with
        | some slot => { d with storage := d.storage.insert (target, slot) (bytesToNat (e.2.take 32)) }
        | none => d) coded

end SentrixEvmDb

def writeSlot (owner : Address) (db : AccountDB) (entry : Nat × Nat) : AccountDB :=
  db.storeContractStorage owner (hexEncode (slotBytes entry.1)) (slotBytes entry.2)

def writeCode (owner : Address) (a : EvmAccount) (db : AccountDB) : AccountDB :=
  match a.code with
  | none => db
  | some bytecode =>
    if bytecode.isEmpty then db
    else (db.storeContractCode (hexEncode a.info.codeHash) bytecode).setContract owner a.info.codeHash

/-- One touched account; a destroyed one keeps its nonce. -/
def writeAccount (db : AccountDB) (entry : Bytes × EvmAccount) : AccountDB :=
  let owner := addressToSentrix entry.1
  let a := entry.2
  if a.selfdestructed then (db.setBalance owner 0).setContract owner emptyCodeHash
  else
    let moved := (db.setBalance owner (min (a.info.balance / weiPerSentri) u64Max)).setNonce owner
      a.info.nonce
    (a.changedSlots.insertionSort fun x y => x.1 ≤ y.1).foldl (writeSlot owner)
      (writeCode owner a moved)

def touchedAccounts (state : EvmState) : List (Bytes × EvmAccount) :=
  (state.filter fun e => e.2.touched).insertionSort fun a b => bytesToNat a.1 ≤ bytesToNat b.1

def commitStateToAccountDb (state : EvmState) (db : AccountDB) : AccountDB :=
  (touchedAccounts state).foldl writeAccount db

structure TxReceipt where
  success : Bool
  contractAddress : Option Bytes
  output : Bytes
  deriving DecidableEq, Repr

def executeTxWithStateGated (host : EvmHost) (db : SentrixEvmDb) (tx : TxEnv) (chainId : Nat)
    (gasFixActive : Bool) : Except String (TxReceipt × EvmState) :=
  if tx.chainId ≠ chainId then .error "chain_id mismatch"
  else
    match host.transact gasFixActive chainId db tx with
    | .error e => .error e
    | .ok (.success output created, state) => .ok (⟨true, created, output⟩, state)
    | .ok (.revert output, state) => .ok (⟨false, none, output⟩, state)
    | .ok (.halt reason, _) => .error reason

/-- The call revm is given. The caller is the transaction's `from_address`; the
signer of the envelope is not recovered. -/
def evmCall (forks : Forks) (db : AccountDB) (tx : Transaction) (height gasLimit : Nat)
    (calldata : Bytes) (value : Nat) : TxEnv where
  caller := (parseSentrixAddress tx.fromAddress).getD (List.replicate 20 0)
  target := if tx.toAddress = tokenOpAddress then none else parseSentrixAddress tx.toAddress
  data := calldata
  value := if reached forks.evmValueTransfer height then value else 0
  gasLimit
  gasPrice := if reached forks.evmGasFix height then 0 else initialBaseFee
  nonce := db.getNonce tx.fromAddress
  chainId := tx.chainId

/-- A deployment stores its code; an oversized one fails the transaction. -/
def storeDeployment (host : EvmHost) (txid : Hash) (receipt : TxReceipt) (db : AccountDB) :
    AccountDB :=
  match receipt.contractAddress with
  | none => db
  | some created =>
    if receipt.output.isEmpty then db
    else if eip170MaxCodeSize < receipt.output.length then db.markEvmTxFailed txid
    else
      let codeHash := host.keccak receipt.output
      (db.storeContractCode (hexEncode codeHash) receipt.output).setContract
        (addressToSentrix created) codeHash

def settleEvmCall (host : EvmHost) (txid : Hash) (db : AccountDB) :
    Except String (TxReceipt × EvmState) → AccountDB
  | .error _ => db.markEvmTxFailed txid
  | .ok (receipt, state) =>
    let marked := if receipt.success then db else db.markEvmTxFailed txid
    let stored := storeDeployment host txid receipt marked
    if receipt.success && !stored.isEvmTxFailed txid then commitStateToAccountDb state stored
    else stored

def decodeEvmTx (forks : Forks) (host : EvmHost) (db : AccountDB) (tx : Transaction)
    (height : Nat) (fields : String × String) : Option TxEnv := do
  let gasLimit ← parseU64 fields.1
  if txGasLimitCap < gasLimit then none
  else
    let raw ← hexDecode tx.signature
    let value ← host.envelopeValue raw
    some (evmCall forks db tx height gasLimit ((hexDecode fields.2).getD []) value)

def evmView (host : EvmHost) (db : AccountDB) (call : TxEnv) : SentrixEvmDb :=
  match call.target with
  | some target => (SentrixEvmDb.fromAccountDb host db).preload host db target
  | none => SentrixEvmDb.fromAccountDb host db

def executeEvmTxInBlock (forks : Forks) (host : EvmHost) (chainId : Nat) (tx : Transaction)
    (height : Nat) (db : AccountDB) : AccountDB :=
  match evmFields tx.data with
  | none => db
  | some fields =>
    match decodeEvmTx forks host db tx height fields with
    | none => db.markEvmTxFailed tx.txid
    | some call =>
      settleEvmCall host tx.txid db
        (executeTxWithStateGated host (evmView host db call) call chainId
          (reached forks.evmGasFix height))

end SentrixCore
