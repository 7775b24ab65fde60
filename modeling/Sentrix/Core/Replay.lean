import Sentrix.Lib.Runs
import Sentrix.Core.EvmNonces
import Sentrix.Core.Holdings

/-!
Replay protection. A native transaction uses up a nonce in `transfer`; an EVM
transaction pays its fee without one and relies on the diff revm returns, which is
dropped whenever the call does not commit.
-/
namespace SentrixCore
open MachineWords Effects Runs SentrixPrimitives SentrixStaking List

/-- Library facts: revm's nonces, text that starts with `EVM:` is no JSON, and no
key has the treasury's address. -/
structure TrustedLibraries (env : Platform) : Prop where
  revm : RevmNonces env.evm
  json : ∀ tx : Transaction, tx.isEvmTx = true →
    env.wire.tokenOp tx.data = none ∧ env.wire.stakingOp tx.data = none
  treasury : ∀ key, env.wire.addressOfKey key ≠ some protocolTreasury

def NoncesRise (before after : AccountDB) : Prop :=
  ∀ c, before.getNonce c ≤ after.getNonce c

theorem NoncesRise.refl (db : AccountDB) : NoncesRise db db := fun _ => Nat.le_refl _

theorem NoncesRise.trans {x y z : AccountDB} (first : NoncesRise x y) (second : NoncesRise y z) :
    NoncesRise x z := fun c => Nat.le_trans (first c) (second c)

theorem noncesRise_transfer {sender recipient : Address} {amount fee : Nat} (db : AccountDB) :
    NoncesRise db (finalState (AccountDB.transfer sender recipient amount fee) db) := by
  intro c
  unfold finalState
  cases ran : AccountDB.transfer sender recipient amount fee db with
  | ok =>
    obtain ⟨_, _, _, nonces⟩ := AccountDB.transfer_ok ran
    simp only [nonces c]
    omega
  | error => exact ((AccountDB.transfer_error ran).2 c).1

theorem ProtocolMove.noncesRise {db after : AccountDB} (move : ProtocolMove db after) :
    NoncesRise db after := by
  cases move with
  | none => exact NoncesRise.refl db
  | clear => exact NoncesRise.refl db
  | burn => exact NoncesRise.refl db
  | rebase =>
    intro c
    rw [AccountDB.getNonce_setBalance]
  | credit address amount =>
    intro c
    unfold finalState
    cases ran : AccountDB.credit address amount db with
    | ok => exact Nat.le_of_eq ((AccountDB.credit_ok ran).2 c).symm
    | error => exact Nat.le_of_eq ((AccountDB.credit_error ran).2 c).symm
  | payout => exact noncesRise_transfer db

namespace Blockchain

variable {bc after : Blockchain}

theorem Sideways.noncesRise (moved : Sideways bc after) : NoncesRise bc.accounts after.accounts :=
  moved.accounts NoncesRise.refl NoncesRise.trans ProtocolMove.noncesRise

/-- The EVM part of a transaction takes effect: the chain runs EVM transactions, the
call succeeds on the accounts as they are once the fee is paid, and neither the
sender nor any account is held under a second spelling of its address. -/
def evmCommits (env : Platform) (b : Block) (x : Applied) : Bool :=
  let db := finalState (AccountDB.chargeFeeOnly x.tx.fromAddress x.tx.fee) x.before.accounts
  x.before.voyagerModeFor env.forks x.before.height &&
    evmSucceeds env.forks env.evm x.before.chainId x.tx b.index db &&
    canonicalKeys db && isCanonical x.tx.fromAddress

variable {env : Platform} {now : Nat} {b : Block} {tx : Transaction} {u : Unit}

theorem applyStakingOp_nonces (ran : applyStakingOp env now b tx bc = .ok u after) :
    NoncesRise bc.accounts after.accounts ∧
      ∀ c, c ≠ protocolTreasury → after.accounts.getNonce c = bc.accounts.getNonce c := by
  rcases applyStakingOp_accounts ran with same | ⟨_, total, moved⟩
  · rw [same]
    exact ⟨NoncesRise.refl _, fun _ _ => rfl⟩
  · obtain ⟨_, _, _, nonces⟩ := AccountDB.transfer_ok moved
    constructor
    · intro c
      rw [nonces c]
      omega
    · intro c other
      simp [nonces c, other]

theorem dispatchEvm_native (native : tx.isEvmTx = false) : dispatchEvm env b tx bc = bc := by
  simp [dispatchEvm, native]

variable {totalFee fees : Nat}

theorem system_nonces (lib : TrustedLibraries env) (system : tx.isSystemTx env.wire = true)
    (ran : applyTransaction env now b tx totalFee bc = .ok fees after) :
    NoncesRise bc.accounts after.accounts := by
  have native : tx.isEvmTx = false := by
    by_contra evm
    have undecoded := (lib.json tx (by simpa using evm)).2
    simp [Transaction.isSystemTx, Transaction.isJailEvidenceBundleTx, undecoded] at system
  obtain ⟨paid, tokened, staked, charged, tokens, staking, rfl⟩ := applyTransaction_ok ran
  rw [dispatchEvm_native native]
  cases chargeTransaction_system system charged
  rw [← applyTokenOp_accounts tokens]
  exact (applyStakingOp_nonces staking).1

def NonceSpent (tx : Transaction) (bc after : Blockchain) : Prop :=
  after.accounts.getNonce tx.fromAddress = bc.accounts.getNonce tx.fromAddress + 1 ∧
    bc.accounts.getNonce tx.fromAddress + 1 ≤ u64Max ∧ NoncesRise bc.accounts after.accounts

theorem native_nonces (lib : TrustedLibraries env) (ordinary : tx.isSystemTx env.wire = false)
    (native : tx.isEvmTx = false) (signed : tx.Signed env.wire)
    (ran : applyTransaction env now b tx totalFee bc = .ok fees after) :
    NonceSpent tx bc after := by
  have other : tx.fromAddress ≠ protocolTreasury := by
    intro same
    exact lib.treasury tx.publicKey (same ▸ signed.1)
  obtain ⟨paid, tokened, staked, charged, tokens, staking, rfl⟩ := applyTransaction_ok ran
  rw [dispatchEvm_native native]
  have moved := chargeTransaction_ok ordinary charged
  simp only [native, Bool.false_eq_true, if_false] at moved
  obtain ⟨_, word, _, nonces⟩ := AccountDB.transfer_ok moved
  obtain ⟨rise, kept⟩ := applyStakingOp_nonces staking
  rw [applyTokenOp_accounts tokens] at rise kept
  refine ⟨?_, word, ?_⟩
  · rw [kept _ other, nonces]
    simp
  · apply NoncesRise.trans _ rise
    intro c
    rw [nonces c]
    omega

theorem evm_ordinary (plain : env.wire.stakingOp tx.data = none) :
    tx.isSystemTx env.wire = false := by
  simp [Transaction.isSystemTx, Transaction.isJailEvidenceBundleTx, plain]

/-- What an EVM transaction comes to when its data is no operation: the fee, and the call on
the accounts after it. -/
theorem applyTransaction_evm (evm : tx.isEvmTx = true)
    (json : env.wire.tokenOp tx.data = none ∧ env.wire.stakingOp tx.data = none)
    (ran : applyTransaction env now b tx totalFee bc = .ok fees after) :
    ∃ paid, AccountDB.chargeFeeOnly tx.fromAddress tx.fee bc.accounts = .ok () paid.accounts ∧
      after = (if bc.voyagerModeFor env.forks bc.height then
        { paid with
          accounts := executeEvmTxInBlock env.forks env.evm bc.chainId tx b.index paid.accounts }
        else paid) ∧
      paid.contracts = bc.contracts ∧ paid.nftRegistry = bc.nftRegistry := by
  obtain ⟨paid, tokened, staked, charged, tokens, staking, rfl⟩ := applyTransaction_ok ran
  have moved := chargeTransaction_ok (evm_ordinary json.2) charged
  simp only [evm, if_true] at moved
  obtain ⟨noToken, noStaking⟩ := json
  have sameToken : tokened = paid := by
    unfold applyTokenOp at tokens
    simp only [noToken] at tokens
    exact (pure_ok.mp tokens).2.symm
  have sameStaking : staked = tokened := by
    unfold applyStakingOp at staking
    simp only [noStaking] at staking
    exact (pure_ok.mp staking).2.symm
  subst sameStaking sameToken
  have frame : outer staked = outer bc :=
    (keeps_chargeTransaction env tx (fun _ _ => rfl) totalFee).ok charged
  have chainId : staked.chainId = bc.chainId := congrArg Outer.chainId frame
  have chain : staked.chain = bc.chain := congrArg Outer.chain frame
  have mode : staked.voyagerActivated = bc.voyagerActivated := congrArg Outer.voyagerActivated frame
  have keeps : Keeps (fun x : Blockchain => (x.contracts, x.nftRegistry))
      (chargeTransaction env tx totalFee) := keeps_chargeTransaction env tx (fun _ _ => rfl) totalFee
  have books : (staked.contracts, staked.nftRegistry) = (bc.contracts, bc.nftRegistry) :=
    keeps.ok charged
  refine ⟨staked, moved, ?_, congrArg Prod.fst books, congrArg Prod.snd books⟩
  simp only [dispatchEvm, evm, Bool.true_and, voyagerModeFor, Blockchain.height, mode, chain, chainId]

theorem evm_nonces (lib : TrustedLibraries env) (evm : tx.isEvmTx = true)
    (commits : evmCommits env b ⟨tx, bc, after⟩ = true)
    (ran : applyTransaction env now b tx totalFee bc = .ok fees after) :
    NonceSpent tx bc after := by
  obtain ⟨paid, moved, run, -⟩ := applyTransaction_evm evm (lib.json tx evm) ran
  have fee : finalState (AccountDB.chargeFeeOnly tx.fromAddress tx.fee) bc.accounts =
      paid.accounts := finalState_ok moved
  simp only [evmCommits, fee, Bool.and_eq_true] at commits
  obtain ⟨⟨⟨voyager, succeeded⟩, canonical⟩, spelled⟩ := commits
  obtain ⟨raised, word, rise⟩ := executeEvmTx_nonces lib.revm succeeded canonical spelled
  obtain ⟨_, _, nonces⟩ := AccountDB.chargeFeeOnly_ok moved
  rw [nonces] at raised word
  rw [run, if_pos voyager]
  refine ⟨raised, word, ?_⟩
  intro c
  rw [← nonces c]
  exact rise c

def isOrdinary (env : Platform) (tx : Transaction) : Bool :=
  !tx.isCoinbase && !tx.isSystemTx env.wire

def slot (tx : Transaction) : Address × Nat :=
  (tx.fromAddress, tx.nonce)

theorem isOrdinary_iff (plain : tx.isCoinbase = false) :
    isOrdinary env tx = true ↔ tx.isSystemTx env.wire = false := by
  simp [isOrdinary, plain]

theorem checkTransactions_slots {origin : Blockchain} {txs : List Transaction}
    {work done : Working} (plain : ∀ tx ∈ txs, tx.isCoinbase = false)
    (passed : origin.checkTransactions env txs work = .ok done) :
    ((txs.filter (isOrdinary env)).map slot).Nodup ∧
      ∀ tx ∈ txs, isOrdinary env tx = true → slot tx ∉ work.seen := by
  induction txs generalizing work with
  | nil => simp
  | cons tx _ ih =>
    obtain ⟨next, first, others⟩ := checkTransactions_cons passed
    have here := plain tx mem_cons_self
    obtain ⟨distinct, unseen⟩ := ih (fun t inside => plain t (mem_cons_of_mem _ inside)) others
    by_cases system : tx.isSystemTx env.wire = true
    · cases checkTransaction_system system first
      have skipped : isOrdinary env tx = false := by simp [isOrdinary, system]
      constructor
      · rw [filter_cons_of_neg (by simp [skipped])]
        exact distinct
      · intro t inside counted
        rcases List.mem_cons.mp inside with rfl | later
        · simp [skipped] at counted
        · exact unseen t later counted
    · have ordinary : tx.isSystemTx env.wire = false := by simpa using system
      obtain ⟨fresh, _, seen, _⟩ := checkTransaction_ok ordinary first
      have counted : isOrdinary env tx = true := (isOrdinary_iff here).mpr ordinary
      constructor
      · rw [filter_cons_of_pos counted, map_cons, nodup_cons]
        refine ⟨?_, distinct⟩
        intro again
        obtain ⟨t, member, same⟩ := List.mem_map.mp again
        obtain ⟨inside, kept⟩ := List.mem_filter.mp member
        apply unseen t inside kept
        rw [seen, same]
        exact mem_cons_self
      · intro t inside kept
        rcases List.mem_cons.mp inside with rfl | later
        · exact fresh
        · intro before
          apply unseen t later kept
          rw [seen]
          exact mem_cons_of_mem _ before

/-- The nonces the dry run expects lie between those before the block and those the
loop has reached. -/
def Tracks (origin : Blockchain) (work : Working) (bc : Blockchain) : Prop :=
  ∀ a, origin.accounts.getNonce a ≤ work.nonce origin a ∧ work.nonce origin a ≤ bc.accounts.getNonce a

theorem transaction_nonces {nonce chainId : Nat} (lib : TrustedLibraries env)
    (plain : tx.isCoinbase = false) (ordinary : tx.isSystemTx env.wire = false)
    (valid : tx.validate env.wire nonce chainId = .ok ())
    (commits : tx.isEvmTx = true → evmCommits env b ⟨tx, bc, after⟩ = true)
    (ran : applyTransaction env now b tx totalFee bc = .ok fees after) :
    NonceSpent tx bc after := by
  by_cases evm : tx.isEvmTx = true
  · exact evm_nonces lib evm (commits evm) ran
  · have native : tx.isEvmTx = false := by simpa using evm
    have signed := (Transaction.validate_ok plain ordinary valid).2.2.2 native
    exact native_nonces lib ordinary native signed ran

theorem loop_nonces {origin : Blockchain} (lib : TrustedLibraries env) {txs : List Transaction}
    {work done : Working} {finish : Blockchain} (plain : ∀ tx ∈ txs, tx.isCoinbase = false)
    (passed : origin.checkTransactions env txs work = .ok done)
    (ran : applyTransactions env now b txs totalFee bc = .ok fees finish)
    (commits : ∀ x ∈ appliedIn env now b txs totalFee bc, x.tx.isEvmTx = true →
      evmCommits env b x = true) (tracks : Tracks origin work bc) :
    NoncesRise bc.accounts finish.accounts ∧
      (∀ x ∈ appliedIn env now b txs totalFee bc, isOrdinary env x.tx = true →
        x.after.accounts.getNonce x.tx.fromAddress =
          x.before.accounts.getNonce x.tx.fromAddress + 1) ∧
      ∀ tx ∈ txs, isOrdinary env tx = true → origin.accounts.getNonce tx.fromAddress ≤ tx.nonce ∧
        tx.nonce < finish.accounts.getNonce tx.fromAddress := by
  induction txs generalizing work totalFee bc with
  | nil =>
    obtain ⟨_, rfl⟩ := pure_ok.mp ran
    simp [appliedIn, NoncesRise.refl]
  | cons tx rest ih =>
    obtain ⟨next, first, checked⟩ := checkTransactions_cons passed
    obtain ⟨_, after, one, others⟩ := bind_ok.mp ran
    have here := plain tx mem_cons_self
    have later : ∀ t ∈ rest, t.isCoinbase = false :=
      fun t inside => plain t (mem_cons_of_mem _ inside)
    rw [appliedIn_cons one] at commits ⊢
    have remaining := fun x inside => commits x (mem_cons_of_mem _ inside)
    by_cases system : tx.isSystemTx env.wire = true
    · cases checkTransaction_system system first
      have skipped : isOrdinary env tx = false := by simp [isOrdinary, system]
      have rise := system_nonces lib system one
      obtain ⟨onward, raised, placed⟩ := ih later checked others remaining
        fun a => ⟨(tracks a).1, Nat.le_trans (tracks a).2 (rise a)⟩
      refine ⟨rise.trans onward, ?_, ?_⟩
      · intro x inside counted
        rcases List.mem_cons.mp inside with rfl | after
        · simp [skipped] at counted
        · exact raised x after counted
      · intro t inside counted
        rcases List.mem_cons.mp inside with rfl | after
        · simp [skipped] at counted
        · exact placed t after counted
    · have ordinary : tx.isSystemTx env.wire = false := by simpa using system
      obtain ⟨_, valid, _, wrote⟩ := checkTransaction_ok ordinary first
      have expected := (Transaction.validate_ok here ordinary valid).1
      obtain ⟨up, word, rise⟩ := transaction_nonces lib here ordinary valid
        (commits _ mem_cons_self) one
      have own := tracks tx.fromAddress
      -- the expected nonce does not wrap, since the real one, which is no smaller, fits
      have counted : wrapAdd64 (work.nonce origin tx.fromAddress) 1 =
          work.nonce origin tx.fromAddress + 1 := wrapAdd64_eq_add (by omega)
      have advanced : Tracks origin next after := by
        intro a
        rw [Working.nonce_insert wrote, counted]
        by_cases same : a = tx.fromAddress
        · subst same
          rw [if_pos rfl]
          omega
        · rw [if_neg same]
          exact ⟨(tracks a).1, Nat.le_trans (tracks a).2 (rise a)⟩
      obtain ⟨onward, raised, placed⟩ := ih later checked others remaining advanced
      refine ⟨rise.trans onward, ?_, ?_⟩
      · intro x inside kept
        rcases List.mem_cons.mp inside with rfl | after
        · exact up
        · exact raised x after kept
      · intro t inside kept
        rcases List.mem_cons.mp inside with rfl | after
        · have final := onward t.fromAddress
          omega
        · exact placed t after kept

structure Submission where
  now : Nat
  source : BlockSource
  block : Block

def submit (env : Platform) (s : Submission) : Apply Unit :=
  addBlockWithSource env s.now s.source s.block

def blockTrace (env : Platform) (s : Submission) (bc : Blockchain) : List Applied :=
  match (bc.entering s.source false).checkHeader env s.now s.block with
  | .error _ => []
  | .ok verified => appliedIn env s.now s.block s.block.transactions.tail 0
      (opened env s.block (bc.entering s.source verified))

variable {s : Submission}

theorem blockTrace_transactions (accepted : submit env s bc = .ok u after) :
    (blockTrace env s bc).map (·.tx) = s.block.transactions.tail := by
  obtain ⟨verified, applied, header, _, pass2, _⟩ := addBlockWithSource_ok accepted
  obtain ⟨_, _, loop, _⟩ := applyBlockPass2_ok env s.now s.block pass2
  simp only [blockTrace, header]
  exact appliedIn_transactions loop

theorem blockTrace_ran {x : Applied} (inside : x ∈ blockTrace env s bc) :
    ∃ earlier fees, applyTransaction env s.now s.block x.tx earlier x.before =
      .ok fees x.after := by
  unfold blockTrace at inside
  split at inside
  · cases inside
  · exact appliedIn_ran inside

theorem block_nonces (lib : TrustedLibraries env) (accepted : submit env s bc = .ok u after)
    (commits : ∀ x ∈ blockTrace env s bc, x.tx.isEvmTx = true → evmCommits env s.block x = true) :
    NoncesRise bc.accounts after.accounts ∧
      (∀ x ∈ blockTrace env s bc, isOrdinary env x.tx = true →
        x.after.accounts.getNonce x.tx.fromAddress =
          x.before.accounts.getNonce x.tx.fromAddress + 1) ∧
      (∀ tx ∈ s.block.transactions.tail, isOrdinary env tx = true →
        bc.accounts.getNonce tx.fromAddress ≤ tx.nonce ∧
          tx.nonce < after.accounts.getNonce tx.fromAddress) ∧
      ((s.block.transactions.tail.filter (isOrdinary env)).map slot).Nodup := by
  obtain ⟨verified, applied, header, contents, pass2, rfl⟩ := addBlockWithSource_ok accepted
  obtain ⟨fees, finish, loop, ending⟩ := applyBlockPass2_ok env s.now s.block pass2
  obtain ⟨_, _, structured, _⟩ := checkHeader_ok header
  obtain ⟨coinbase, others, shape, _, plain⟩ := structured.first
  have tail : s.block.transactions.tail = others := by rw [shape]; rfl
  obtain ⟨_, work, checked⟩ := checkContents_ok contents
  simp only [blockTrace, header, tail] at commits ⊢
  rw [tail] at loop checked
  have opening : NoncesRise bc.accounts (opened env s.block (bc.entering s.source verified)).accounts :=
    (sideways_opened env s.block (bc.entering s.source verified)).noncesRise
  have start : Tracks (bc.entering s.source verified) .start
      (opened env s.block (bc.entering s.source verified)) :=
    fun a => ⟨Nat.le_refl _, opening a⟩
  obtain ⟨rise, raised, placed⟩ := loop_nonces lib plain checked loop commits start
  have closing : NoncesRise finish.accounts applied.accounts := ending.noncesRise
  refine ⟨(opening.trans rise).trans closing, raised, ?_, (checkTransactions_slots plain checked).1⟩
  intro tx inside counted
  obtain ⟨low, high⟩ := placed tx inside counted
  exact ⟨low, Nat.lt_of_lt_of_le high (closing tx.fromAddress)⟩

structure History where
  chain : Blockchain
  included : List Applied

def chainSystem (env : Platform) (start : Blockchain) : System History Submission where
  init := ⟨start, []⟩
  enabled h s := succeeds (submit env s) h.chain = true
  step h s := ⟨finalState (submit env s) h.chain, h.included ++ blockTrace env s h.chain⟩

def EvmAllCommit (env : Platform) (h : History) (s : Submission) : Prop :=
  ∀ x ∈ blockTrace env s h.chain, x.tx.isEvmTx = true → evmCommits env s.block x = true

structure NoncesUsed (env : Platform) (h : History) : Prop where
  raised : ∀ x ∈ h.included, isOrdinary env x.tx = true →
    x.after.accounts.getNonce x.tx.fromAddress = x.before.accounts.getNonce x.tx.fromAddress + 1
  behind : ∀ x ∈ h.included, isOrdinary env x.tx = true →
    x.tx.nonce < h.chain.accounts.getNonce x.tx.fromAddress
  distinct : (((h.included.map (·.tx)).filter (isOrdinary env)).map slot).Nodup

theorem NoncesUsed.step {start : Blockchain} {h : History} (lib : TrustedLibraries env)
    (used : NoncesUsed env h) (enabled : (chainSystem env start).enabled h s)
    (commits : EvmAllCommit env h s) : NoncesUsed env ((chainSystem env start).step h s) := by
  obtain ⟨u, after, accepted⟩ := succeeds_iff.mp enabled
  obtain ⟨rise, raised, placed, distinct⟩ := block_nonces lib accepted commits
  have listed := blockTrace_transactions accepted
  have final : finalState (submit env s) h.chain = after := finalState_ok accepted
  have inBlock : ∀ x ∈ blockTrace env s h.chain, x.tx ∈ s.block.transactions.tail := by
    intro x inside
    rw [← listed]
    exact mem_map_of_mem inside
  constructor
  · intro x inside counted
    rcases List.mem_append.mp inside with old | new
    · exact used.raised x old counted
    · exact raised x new counted
  · intro x inside counted
    show x.tx.nonce < (finalState (submit env s) h.chain).accounts.getNonce x.tx.fromAddress
    rw [final]
    rcases List.mem_append.mp inside with old | new
    · exact Nat.lt_of_lt_of_le (used.behind x old counted) (rise _)
    · exact (placed x.tx (inBlock x new) counted).2
  · show (((((h.included ++ blockTrace env s h.chain).map (·.tx))).filter (isOrdinary env)).map
      slot).Nodup
    rw [map_append, filter_append, map_append, listed, nodup_append]
    refine ⟨used.distinct, distinct, ?_⟩
    -- an old slot lies behind the sender's nonce, a new one does not
    intro old oldIn new newIn same
    obtain ⟨oldTx, oldKept, rfl⟩ := List.mem_map.mp oldIn
    obtain ⟨newTx, newKept, rfl⟩ := List.mem_map.mp newIn
    obtain ⟨oldMember, oldCounted⟩ := List.mem_filter.mp oldKept
    obtain ⟨x, xIn, rfl⟩ := List.mem_map.mp oldMember
    obtain ⟨newMember, newCounted⟩ := List.mem_filter.mp newKept
    have before := used.behind x xIn oldCounted
    have notBefore := (placed newTx newMember newCounted).1
    simp only [slot, Prod.mk.injEq] at same
    rw [same.1, same.2] at before
    omega

theorem NoncesUsed.run {start : Blockchain} {h : History} (lib : TrustedLibraries env)
    (run : Run (chainSystem env start) (EvmAllCommit env) h) : NoncesUsed env h := by
  apply run.invariant (NoncesUsed env)
  · constructor
    · intro x inside
      cases inside
    · intro x inside
      cases inside
    · exact nodup_nil
  · intro h s used enabled commits
    exact used.step lib enabled commits

/-- In every run of accepted blocks whose EVM transactions all commit, each included
transaction raised its sender's nonce by one, and no two have sender and nonce in
common. -/
theorem included_once {env : Platform} {start : Blockchain} {h : History}
    (lib : TrustedLibraries env) (run : Run (chainSystem env start) (EvmAllCommit env) h) :
    (∀ x ∈ h.included, isOrdinary env x.tx = true →
      x.after.accounts.getNonce x.tx.fromAddress =
        x.before.accounts.getNonce x.tx.fromAddress + 1) ∧
      (((h.included.map (·.tx)).filter (isOrdinary env)).map slot).Nodup := by
  have used := NoncesUsed.run lib run
  exact ⟨used.raised, used.distinct⟩

def thirdAccount : Address := "0x6813eb9362372eef6200f3b1dbc3f819671cba69"

def secondKey : String :=
  "04c6047f9441ed7d6d3045406e95c07cd85c778e4b8cef3ca7abac09b95c709ee51ae168fea63dc339a3c58419466ceae" ++
   "ef7f632653266d0e1236431a950cfe52a"

def thirdKey : String :=
  "04f9308a019258c31049344f85f89d5229b531c845836f99b08601f113bce036f9388f7b0f632de8140fe337e62a37f35" ++
    "66500a99934c2231b6cb9fd7584b8e672"

def signedTransfer : Transaction where
  txid := "d1b61ebac47d8b079d7433048bc8aaceb1aa77a047092986efd81ffa23a94010"
  fromAddress := secondValidator
  toAddress := thirdAccount
  amount := 500
  fee := 10000
  nonce := 0
  data := ""
  timestamp := 1700000001
  chainId := 7119
  signature := "bd76bd9c5a97f53e035a338ff4adb721e4f51e4a407d5cb3b3f8357eaf5dcd731b5ae4e17156b3dfc2b8" ++
    "267c6c593df352df52f1944699528189fd0667197385"
  publicKey := secondKey

def firstCoinbase : Transaction :=
  coinbaseTx firstValidator 100000000 1 1700000001
    "9a7f482d4bdf888b2e9f58857374f29120f91c019f963d2647626116698a43f1"

def transferBlock : Block :=
  sampleBlock 1 genesisBlock.hash [firstCoinbase, signedTransfer] 1700000001
    "bbf45cc8bcb404482f303fc1e87fcc12cbd75dcc554e40a01a721652ab25670f"
    "d13cd5df0208e4345f6a323e73144edf4b92fc49ee676fd6f6a46eaf236d646e"

def signingWire (digests : List (String × Hash)) (key : String) (owner : Address)
    (signatures : List (String × String)) : Wire :=
  { tableWire digests with
    addressOfKey := fun k => if k = key then some owner else none
    verifyEcdsa := fun k signature payload => k == key && signatures.contains (signature, payload) }

def transferPlatform : Platform :=
  let bare := tableWire (blockDigests transferBlock)
  plainPlatform (signingWire (blockDigests transferBlock) secondKey secondValidator
    [(signedTransfer.signature, signedTransfer.signingPayload bare)])

def fundedChain : Blockchain :=
  { seedChain (bondedSet [firstValidator]) with
    accounts := AccountDB.new.setBalance secondValidator 1000000 }

/-- On such a wire nothing is JSON, no EVM call runs and one key is known. -/
theorem trusted_signing (digests : List (String × Hash)) (signatures : List (String × String)) :
    TrustedLibraries
      (plainPlatform (signingWire digests secondKey secondValidator signatures)) where
  revm := by
    constructor
    · intro _ _ _ _ _ _ _ ran
      cases ran
    · intro _ _ _ _ _ _ _ ran
      cases ran
    · intro _ _ _ _ _ _ _ ran
      cases ran
  json := fun _ _ => ⟨rfl, rfl⟩
  treasury := by
    intro key derived
    have other : secondValidator ≠ protocolTreasury := by decide
    simp only [plainPlatform, signingWire] at derived
    split at derived
    · exact other (Option.some.inj derived)
    · cases derived

theorem trusted_transferPlatform : TrustedLibraries transferPlatform :=
  trusted_signing _ _

theorem signed_transfer_included_once :
    ∃ h : History, h.included.map (·.tx) = [signedTransfer] ∧
      (∀ x ∈ h.included, isOrdinary transferPlatform x.tx = true →
        x.after.accounts.getNonce x.tx.fromAddress =
          x.before.accounts.getNonce x.tx.fromAddress + 1) ∧
      (((h.included.map (·.tx)).filter (isOrdinary transferPlatform)).map slot).Nodup := by
  obtain ⟨accepts, listed⟩ :
      succeeds (submit transferPlatform ⟨1700000001, .peer, transferBlock⟩) fundedChain = true ∧
        (blockTrace transferPlatform ⟨1700000001, .peer, transferBlock⟩ fundedChain).map
          (·.tx) = [signedTransfer] := by decide +kernel
  have native : signedTransfer.isEvmTx = false := by decide
  have commits : EvmAllCommit transferPlatform ⟨fundedChain, []⟩
      ⟨1700000001, .peer, transferBlock⟩ := by
    intro x inside evm
    have same : x.tx ∈ [signedTransfer] := listed ▸ mem_map_of_mem inside
    rw [List.mem_singleton.mp same, native] at evm
    cases evm
  have run : Run (chainSystem transferPlatform fundedChain) (EvmAllCommit transferPlatform)
      ((chainSystem transferPlatform fundedChain).step ⟨fundedChain, []⟩
        ⟨1700000001, .peer, transferBlock⟩) :=
    Run.next Run.start accepts commits
  refine ⟨_, ?_, included_once trusted_transferPlatform run⟩
  simp only [chainSystem, nil_append]
  exact listed

def overCapTx : Transaction where
  txid := "21456324d4d9984b507189efc87fa2bffeaa871ead62e5195be685d1205c59e9"
  fromAddress := secondValidator
  toAddress := firstValidator
  amount := 0
  fee := 10000
  nonce := 0
  data := "EVM:30000000:"
  timestamp := 1700000001
  chainId := 7119
  signature := ""
  publicKey := ""

def overCapBlock : Block :=
  sampleBlock 1 genesisBlock.hash [firstCoinbase, overCapTx] 1700000001
    "e3a5fa7db50fd27056e1e56498611f3d93a4e8cfdfee3cc310fd643e47d316e5"
    "247e60889f68d87130652844fade4ee6b15cc8eb36cf3a0d13c85882bd2c7a83"

def secondCoinbase : Transaction :=
  coinbaseTx firstValidator 100000000 2 1700000002
    "43fc0db4b2fea532bb8fa6855f4b06631b9ccb3c0207c58ba996c628a9045a94"

def replayedBlock : Block :=
  sampleBlock 2 overCapBlock.hash [secondCoinbase, overCapTx] 1700000002
    "fb8a576cda75110b49b2ef52fc34f36873f8145e790d609e47af57762ea19d9b"
    "1bbbb1eb2bd55e9ed3e7917cc1f68889dd920def90c5b287a7d047f4198e3a74"

def replayPlatform : Platform :=
  plainPlatform (tableWire (blockDigests overCapBlock ++ blockDigests replayedBlock))

def replaySchedule : List Submission :=
  [⟨1700000001, .peer, overCapBlock⟩, ⟨1700000002, .peer, replayedBlock⟩]

/-- The same transaction is accepted in two blocks, leaves the nonce alone and is
charged its fee both times. -/
theorem failed_evm_transaction_replayed :
    let sys := chainSystem replayPlatform fundedChain
    let final := sys.replay sys.init replaySchedule
    sys.Legal (fun _ _ => True) sys.init replaySchedule ∧
      isOrdinary replayPlatform overCapTx = true ∧
      final.included.map (·.tx) = [overCapTx, overCapTx] ∧
      final.chain.accounts.getNonce secondValidator = 0 ∧
      fundedChain.accounts.getBalance secondValidator = 1000000 ∧
      final.chain.accounts.getBalance secondValidator = 980000 := by
  obtain ⟨first, second, rest⟩ :
      succeeds (submit replayPlatform ⟨1700000001, .peer, overCapBlock⟩) fundedChain = true ∧
        succeeds (submit replayPlatform ⟨1700000002, .peer, replayedBlock⟩)
          ((chainSystem replayPlatform fundedChain).step (chainSystem replayPlatform fundedChain).init
            ⟨1700000001, .peer, overCapBlock⟩).chain = true ∧
        isOrdinary replayPlatform overCapTx = true ∧
        ((chainSystem replayPlatform fundedChain).replay
          (chainSystem replayPlatform fundedChain).init replaySchedule).included.map (·.tx) =
            [overCapTx, overCapTx] ∧
        ((chainSystem replayPlatform fundedChain).replay
          (chainSystem replayPlatform fundedChain).init replaySchedule).chain.accounts.getNonce
            secondValidator = 0 ∧
        fundedChain.accounts.getBalance secondValidator = 1000000 ∧
        ((chainSystem replayPlatform fundedChain).replay
          (chainSystem replayPlatform fundedChain).init replaySchedule).chain.accounts.getBalance
            secondValidator = 980000 := by decide +kernel
  exact ⟨⟨first, trivial, second, trivial, trivial⟩, rest⟩

end Blockchain
end SentrixCore
