import Sentrix.Core.Evm

/-!
Nonces across an EVM call. revm works on accounts named by twenty bytes, the ledger on
accounts named by text, and several spellings of one address are different accounts here
and one account there.
-/
namespace SentrixCore
open MachineWords HashTable Effects SentrixPrimitives List

theorem hexValue_hexDigit : ∀ n < 16, hexValue (hexDigit n) = some n := by decide

theorem hexPairs_hexEncode (bytes : Bytes) : hexPairs (hexEncode bytes).toList = some bytes := by
  unfold hexEncode
  rw [String.toList_ofList]
  induction bytes with
  | nil => rfl
  | cons byte rest ih =>
    have small : byte.toNat < 256 := byte.toNat_lt
    have high := hexValue_hexDigit (byte.toNat / 16) (by omega)
    have low := hexValue_hexDigit (byte.toNat % 16) (by omega)
    have whole : UInt8.ofNat (16 * (byte.toNat / 16) + byte.toNat % 16) = byte := by
      rw [Nat.div_add_mod, UInt8.ofNat_toNat]
    simp only [flatMap_cons, cons_append, nil_append, hexPairs, high, low, ih,
      Option.bind_eq_bind, Option.bind_some, whole]

theorem length_hexEncode (bytes : Bytes) : (hexEncode bytes).toList.length = 2 * bytes.length := by
  simp [hexEncode, length_flatMap]
  omega

theorem toList_addressToSentrix (addr : Bytes) :
    (addressToSentrix addr).toList = '0' :: 'x' :: (hexEncode addr).toList := by
  simp [addressToSentrix]

theorem parse_addressToSentrix {addr : Bytes} (twenty : addr.length = 20) :
    parseSentrixAddress (addressToSentrix addr) = some addr := by
  simp [parseSentrixAddress, toList_addressToSentrix, length_hexEncode, twenty, hexPairs_hexEncode]

theorem addressToSentrix_inj {a b : Bytes} (same : addressToSentrix a = addressToSentrix b) :
    a = b := by
  have texts := congrArg String.toList same
  rw [toList_addressToSentrix, toList_addressToSentrix] at texts
  have digits : (hexEncode a).toList = (hexEncode b).toList := by simpa using texts
  have read := congrArg hexPairs digits
  rw [hexPairs_hexEncode, hexPairs_hexEncode] at read
  exact Option.some.inj read

def isCanonical (address : Address) : Bool :=
  match parseSentrixAddress address with
  | some addr => address == addressToSentrix addr
  | none => false

def canonicalKeys (db : AccountDB) : Bool :=
  db.accounts.keys.all fun key => (parseSentrixAddress key).isNone || isCanonical key

theorem isCanonical_iff {address : Address} : isCanonical address = true ↔
    ∃ addr, parseSentrixAddress address = some addr ∧ address = addressToSentrix addr := by
  unfold isCanonical
  cases parseSentrixAddress address <;> simp

theorem canonicalKeys_spelling {db : AccountDB} (canonical : canonicalKeys db = true) {key : Address}
    {account : Account} (held : db.accounts.lookup key = some account) {addr : Bytes}
    (parsed : parseSentrixAddress key = some addr) : key = addressToSentrix addr := by
  have member : key ∈ db.accounts.keys :=
    AList.mem_keys.mpr (AList.lookup_isSome.mp (by rw [held]; rfl))
  have checked := List.all_eq_true.mp canonical key member
  simp only [parsed, Option.isNone_some, Bool.false_or] at checked
  obtain ⟨_, again, spelled⟩ := isCanonical_iff.mp checked
  rw [parsed] at again
  cases again
  exact spelled

def evmInfo (a : Account) : AccountInfo :=
  ⟨min (a.balance * weiPerSentri) (2 ^ 256 - 1), a.nonce, a.codeHash⟩

namespace SentrixEvmDb

def nonceOf (view : SentrixEvmDb) (addr : Bytes) : Nat :=
  ((view.accounts.lookup addr).map (·.nonce)).getD 0

variable {addr : Bytes}

def accountEntry (entry : Address × Account) : Option (Bytes × AccountInfo) :=
  (parseSentrixAddress entry.1).map fun addr => (addr, evmInfo entry.2)

theorem accounts_load (l : List (Address × Account)) (view : SentrixEvmDb) :
    (l.foldl insertAccount view).accounts = view.accounts.collect accountEntry l := by
  refine (foldl_hom accounts fun view entry => ?_).symm
  unfold accountEntry insertAccount
  cases parseSentrixAddress entry.1 <;> rfl

theorem accounts_insertCode (source : AccountDB) (view : SentrixEvmDb) (a : Account) :
    (view.insertCode source a).accounts = view.accounts := by
  unfold insertCode
  split
  · rfl
  · split <;> rfl

theorem accounts_insertStorage (view : SentrixEvmDb) (entry : String × Bytes) :
    (view.insertStorage entry).accounts = view.accounts := by
  unfold insertStorage
  split <;> rfl

theorem accounts_fromAccountDb (host : EvmHost) (source : AccountDB) :
    (fromAccountDb host source).accounts =
      ((host.order.visit source.accounts.pairs).foldl insertAccount ⟨∅, ∅, ∅⟩).accounts := by
  unfold fromAccountDb
  rw [foldl_keeps accounts accounts_insertStorage,
    foldl_keeps accounts (accounts_insertCode source)]

theorem accounts_preload (host : EvmHost) (source : AccountDB) (target : Bytes)
    (view : SentrixEvmDb) : (view.preload host source target).accounts = view.accounts := by
  unfold preload
  dsimp only
  split
  · rfl
  · split
    · rfl
    · rw [foldl_keeps accounts, accounts_insertCode]
      intro d e
      split <;> rfl

theorem lookup_fromAccountDb (host : EvmHost) {db : AccountDB}
    (canonical : canonicalKeys db = true) (twenty : addr.length = 20) :
    (fromAccountDb host db).accounts.lookup addr =
      (db.accounts.lookup (addressToSentrix addr)).map evmInfo := by
  rw [accounts_fromAccountDb, accounts_load]
  apply lookup_collect
  · intro e member info placed
    obtain ⟨here, parsed, same⟩ := Option.map_eq_some_iff.mp placed
    cases same
    have held : db.accounts.lookup e.1 = some e.2 := mem_pairs.mp (host.order.mem_visit.mp member)
    rw [← canonicalKeys_spelling canonical held parsed, held, Option.map_some]
  · intro absent
    cases held : db.accounts.lookup (addressToSentrix addr) with
    | none => rfl
    | some account =>
      have member : (addressToSentrix addr, account) ∈ host.order.visit db.accounts.pairs :=
        host.order.mem_visit.mpr (mem_pairs.mpr held)
      refine absurd ?_ (absent _ member (evmInfo account))
      simp [accountEntry, parse_addressToSentrix twenty]

theorem nonceOf_fromAccountDb (host : EvmHost) {db : AccountDB}
    (canonical : canonicalKeys db = true) (twenty : addr.length = 20) :
    (fromAccountDb host db).nonceOf addr = db.getNonce (addressToSentrix addr) := by
  unfold nonceOf AccountDB.getNonce
  rw [lookup_fromAccountDb host canonical twenty, Option.map_map]
  rfl

end SentrixEvmDb

variable {db : AccountDB}

theorem nonceOf_evmView (host : EvmHost) (canonical : canonicalKeys db = true) (call : TxEnv)
    {addr : Bytes} (twenty : addr.length = 20) :
    (evmView host db call).nonceOf addr = db.getNonce (addressToSentrix addr) := by
  have same : (evmView host db call).accounts = (SentrixEvmDb.fromAccountDb host db).accounts := by
    unfold evmView
    split
    · exact SentrixEvmDb.accounts_preload _ _ _ _
    · rfl
  rw [← SentrixEvmDb.nonceOf_fromAccountDb host canonical twenty]
  unfold SentrixEvmDb.nonceOf
  rw [same]

def written (old : Account) (a : EvmAccount) : Account :=
  if a.selfdestructed then { old with balance := 0, codeHash := emptyCodeHash }
  else
    { old with
      balance := min (a.info.balance / weiPerSentri) u64Max
      nonce := a.info.nonce
      codeHash := if (a.code.getD []).isEmpty then old.codeHash else a.info.codeHash }

theorem written_nonce (old : Account) (a : EvmAccount) : (written old a).nonce =
    if a.selfdestructed = false then a.info.nonce else old.nonce := by
  unfold written
  cases a.selfdestructed <;> rfl

theorem accounts_writeAccount (db : AccountDB) (entry : Bytes × EvmAccount) :
    (writeAccount db entry).accounts = db.accounts.insert (addressToSentrix entry.1)
      (written (db.getOrCreate (addressToSentrix entry.1)) entry.2) := by
  have slots (owner : Address) (l : List (Nat × Nat)) (d : AccountDB) :
      (l.foldl (writeSlot owner) d).accounts = d.accounts :=
    foldl_keeps AccountDB.accounts (f := writeSlot owner) (fun _ _ => rfl) l d
  unfold writeAccount written
  dsimp only
  cases entry.2.selfdestructed with
  | true =>
    simp [AccountDB.setContract, AccountDB.setBalance, AccountDB.update, AccountDB.touch,
      AccountDB.getOrCreate, AList.insert_insert]
  | false =>
    simp only [Bool.false_eq_true, if_false, slots]
    unfold writeCode
    rcases entry.2.code with _ | _ | ⟨byte, rest⟩ <;>
      simp [AccountDB.setContract, AccountDB.setNonce, AccountDB.setBalance,
        AccountDB.storeContractCode, AccountDB.update, AccountDB.touch, AccountDB.getOrCreate,
        AList.insert_insert]

theorem lookup_writeAccount (db : AccountDB) (entry : Bytes × EvmAccount) (c : Address) :
    (writeAccount db entry).accounts.lookup c =
      if c = addressToSentrix entry.1 then some (written (db.getOrCreate c) entry.2)
      else db.accounts.lookup c := by
  rw [accounts_writeAccount]
  split
  · rename_i same
    rw [same, AList.lookup_insert]
  · rename_i other
    rw [AList.lookup_insert_ne other]

variable {l : List (Bytes × EvmAccount)}

theorem lookup_write_absent {c : Address} (absent : ∀ e ∈ l, addressToSentrix e.1 ≠ c)
    (db : AccountDB) : (l.foldl writeAccount db).accounts.lookup c = db.accounts.lookup c :=
  foldl_skips (fun db : AccountDB => db.accounts.lookup c)
    (fun e inside db => (lookup_writeAccount db e c).trans
      (if_neg fun same => absent e inside same.symm)) db

theorem lookup_write (distinct : (l.map (·.1)).Nodup) {entry : Bytes × EvmAccount}
    (member : entry ∈ l) (db : AccountDB) :
    (l.foldl writeAccount db).accounts.lookup (addressToSentrix entry.1) =
      some (written (db.getOrCreate (addressToSentrix entry.1)) entry.2) := by
  refine foldl_once (fun db : AccountDB => db.accounts.lookup (addressToSentrix entry.1))
    (fun held => some (written (held.getD (.new (addressToSentrix entry.1))) entry.2))
    distinct.of_map member (fun db => ?_) (fun other inside apart db => ?_) db
  · rw [lookup_writeAccount, if_pos rfl]
    rfl
  · rw [lookup_writeAccount, if_neg]
    intro same
    exact apart (inj_on_of_nodup_map distinct inside member (addressToSentrix_inj same).symm)

variable {state : EvmState}

theorem mem_touchedAccounts {entry : Bytes × EvmAccount} :
    entry ∈ touchedAccounts state ↔ entry ∈ state ∧ entry.2.touched = true := by
  unfold touchedAccounts
  rw [(perm_insertionSort _ _).mem_iff, mem_filter]

theorem nodup_touchedAccounts (distinct : (state.map (·.1)).Nodup) :
    ((touchedAccounts state).map (·.1)).Nodup := by
  unfold touchedAccounts
  have filtered : ((state.filter fun e => e.2.touched).map (·.1)).Nodup :=
    distinct.sublist (List.filter_sublist.map _)
  exact ((perm_insertionSort _ _).map _).nodup_iff.mpr filtered

/-- What revm is trusted with: a successful call raises its caller's nonce by one,
lowers no nonce, and reports each twenty-byte account once. -/
structure RevmNonces (host : EvmHost) : Prop where
  accounts : ∀ {gasFix : Bool} {chainId : Nat} {view : SentrixEvmDb} {call : TxEnv} {output : Bytes}
    {created : Option Bytes} {state : EvmState},
    host.transact gasFix chainId view call = .ok (.success output created, state) →
      (state.map (·.1)).Nodup ∧ ∀ e ∈ state, e.1.length = 20
  caller : ∀ {gasFix : Bool} {chainId : Nat} {view : SentrixEvmDb} {call : TxEnv} {output : Bytes}
    {created : Option Bytes} {state : EvmState},
    host.transact gasFix chainId view call = .ok (.success output created, state) →
      ∃ a, (call.caller, a) ∈ state ∧ a.touched = true ∧ a.selfdestructed = false ∧
        a.info.nonce = view.nonceOf call.caller + 1 ∧ a.info.nonce ≤ u64Max
  others : ∀ {gasFix : Bool} {chainId : Nat} {view : SentrixEvmDb} {call : TxEnv} {output : Bytes}
    {created : Option Bytes} {state : EvmState},
    host.transact gasFix chainId view call = .ok (.success output created, state) →
      ∀ e ∈ state, e.2.selfdestructed = false → view.nonceOf e.1 ≤ e.2.info.nonce

/-- The call decodes, revm reports success, and nothing has marked the transaction
as failed: neither an earlier occurrence nor the code size limit. -/
def evmSucceeds (forks : Forks) (host : EvmHost) (chainId : Nat) (tx : Transaction) (height : Nat)
    (db : AccountDB) : Bool :=
  match evmFields tx.data with
  | none => false
  | some fields =>
    match decodeEvmTx forks host db tx height fields with
    | none => false
    | some call =>
      match executeTxWithStateGated host (evmView host db call) call chainId
        (reached forks.evmGasFix height) with
      | .error _ => false
      | .ok (receipt, _) =>
        receipt.success && !(storeDeployment host tx.txid receipt db).isEvmTxFailed tx.txid

theorem getNonce_storeDeployment (host : EvmHost) (txid : Hash) (receipt : TxReceipt)
    (db : AccountDB) (c : Address) :
    (storeDeployment host txid receipt db).getNonce c = db.getNonce c := by
  unfold storeDeployment
  split
  · rfl
  · split
    · rfl
    · split
      · exact AccountDB.getNonce_markEvmTxFailed _ _ _
      · rw [AccountDB.getNonce_setContract]
        rfl

variable {forks : Forks} {host : EvmHost} {tx : Transaction} {height : Nat}

theorem decodeEvmTx_caller {fields : String × String} {call : TxEnv}
    (decoded : decodeEvmTx forks host db tx height fields = some call) :
    call.caller = (parseSentrixAddress tx.fromAddress).getD (List.replicate 20 0) := by
  unfold decodeEvmTx at decoded
  obtain ⟨gasLimit, _, rest⟩ := Option.bind_eq_some_iff.mp decoded
  split at rest
  · cases rest
  · obtain ⟨raw, _, rest⟩ := Option.bind_eq_some_iff.mp rest
    obtain ⟨value, _, same⟩ := Option.bind_eq_some_iff.mp rest
    cases same
    rfl

variable {chainId : Nat}

theorem executeTxWithStateGated_success {view : SentrixEvmDb} {call : TxEnv} {gasFix : Bool}
    {receipt : TxReceipt}
    (ran : executeTxWithStateGated host view call chainId gasFix = .ok (receipt, state))
    (success : receipt.success = true) : ∃ output created,
      host.transact gasFix chainId view call = .ok (.success output created, state) := by
  unfold executeTxWithStateGated at ran
  split at ran
  · cases ran
  · split at ran
    · cases ran
    · rename_i output created outcome transacted
      cases ran
      exact ⟨output, created, transacted⟩
    · cases ran
      cases success
    · cases ran

theorem evmSucceeds_commits (succeeds : evmSucceeds forks host chainId tx height db = true) :
    ∃ call receipt state output created,
      call.caller = (parseSentrixAddress tx.fromAddress).getD (List.replicate 20 0) ∧
      host.transact (reached forks.evmGasFix height) chainId (evmView host db call) call =
        .ok (.success output created, state) ∧
      executeEvmTxInBlock forks host chainId tx height db =
        commitStateToAccountDb state (storeDeployment host tx.txid receipt db) := by
  unfold evmSucceeds at succeeds
  unfold executeEvmTxInBlock
  cases fields : evmFields tx.data with
  | none => simp [fields] at succeeds
  | some texts =>
    simp only [fields] at succeeds ⊢
    cases decoded : decodeEvmTx forks host db tx height texts with
    | none => simp [decoded] at succeeds
    | some call =>
      simp only [decoded] at succeeds ⊢
      cases ran : executeTxWithStateGated host (evmView host db call) call chainId
        (reached forks.evmGasFix height) with
      | error e => simp [ran] at succeeds
      | ok outcome =>
        simp only [ran, Bool.and_eq_true, Bool.not_eq_true'] at succeeds
        obtain ⟨output, created, transacted⟩ := executeTxWithStateGated_success ran succeeds.1
        refine ⟨call, outcome.1, outcome.2, output, created, decodeEvmTx_caller decoded, transacted, ?_⟩
        simp [settleEvmCall, succeeds.1, succeeds.2]

theorem executeEvmTx_nonces (revm : RevmNonces host)
    (succeeds : evmSucceeds forks host chainId tx height db = true)
    (canonical : canonicalKeys db = true) (spelled : isCanonical tx.fromAddress = true) :
    (executeEvmTxInBlock forks host chainId tx height db).getNonce tx.fromAddress =
        db.getNonce tx.fromAddress + 1 ∧
      db.getNonce tx.fromAddress + 1 ≤ u64Max ∧
      ∀ c, db.getNonce c ≤ (executeEvmTxInBlock forks host chainId tx height db).getNonce c := by
  obtain ⟨call, receipt, state, output, created, caller, transacted, committed⟩ :=
    evmSucceeds_commits succeeds
  obtain ⟨distinct, twenty⟩ := revm.accounts transacted
  obtain ⟨own, ownMember, touched, alive, raised, word⟩ := revm.caller transacted
  obtain ⟨addr, parsed, name⟩ := isCanonical_iff.mp spelled
  rw [parsed, Option.getD_some] at caller
  have keys := nodup_touchedAccounts distinct
  -- the nonce revm started from is the one the ledger holds
  have view : ∀ e ∈ state, (evmView host db call).nonceOf e.1 = db.getNonce (addressToSentrix e.1) :=
    fun e member => nonceOf_evmView host canonical call (twenty e member)
  have start : (evmView host db call).nonceOf call.caller = db.getNonce tx.fromAddress := by
    rw [view _ ownMember, caller, ← name]
  rw [start] at raised
  rw [committed]
  unfold commitStateToAccountDb
  refine ⟨?_, raised ▸ word, ?_⟩
  · have found := lookup_write keys (mem_touchedAccounts.mpr ⟨ownMember, touched⟩)
      (storeDeployment host tx.txid receipt db)
    rw [caller, ← name] at found
    rw [AccountDB.getNonce, found, Option.map_some, Option.getD_some, written_nonce, if_pos alive,
      raised]
  · intro c
    by_cases named : ∃ e ∈ touchedAccounts state, addressToSentrix e.1 = c
    · obtain ⟨e, member, rfl⟩ := named
      have inState := (mem_touchedAccounts.mp member).1
      rw [AccountDB.getNonce, AccountDB.getNonce, lookup_write keys member, Option.map_some,
        Option.getD_some, written_nonce, AccountDB.getOrCreate_nonce, getNonce_storeDeployment]
      split
      · rename_i living
        have lower := revm.others transacted e inState living
        rwa [view e inState] at lower
      · exact Nat.le_refl _
    · have kept := lookup_write_absent (c := c) (fun e member same => named ⟨e, member, same⟩)
        (storeDeployment host tx.txid receipt db)
      rw [AccountDB.getNonce, AccountDB.getNonce, kept]
      exact Nat.le_of_eq (getNonce_storeDeployment host tx.txid receipt db c).symm

end SentrixCore
