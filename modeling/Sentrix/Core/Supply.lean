import Sentrix.Core.TwinRuns
import Sentrix.Core.Replay

/-!
The native supply across a block: what all accounts hold together, and what has been
burned. Each transaction burns the larger half of its fee, the block pays the smaller
half of the fees' sum.
-/
namespace SentrixPrimitives
open MachineWords HashTable Effects List

namespace AccountDB

def balanceSum (db : AccountDB) : Nat :=
  sumOf (fun _ account => account.balance) db.accounts

section
variable {db paid : AccountDB} {sender recipient address : Address} {amount fee : Nat} {u : Unit}

theorem balanceSum_update (db : AccountDB) (a : Address) (f : Account → Account) :
    (db.update a f).balanceSum + db.getBalance a =
      db.balanceSum + (f (db.getOrCreate a)).balance :=
  sumOf_insert _ db.accounts a _

theorem balanceSum_update_same {a : Address} {f : Account → Account}
    (same : (f (db.getOrCreate a)).balance = db.getBalance a) :
    (db.update a f).balanceSum = db.balanceSum := by
  have moved := balanceSum_update db a f
  omega

theorem credit_sum (ran : credit address amount db = .ok u paid) :
    paid.balanceSum = db.balanceSum + amount ∧ paid.totalBurned = db.totalBurned := by
  unfold credit at ran
  obtain ⟨balance, sum, written⟩ := fromOption_bind_ok (get_bind_ok (modify_bind_ok ran))
  cases modify_ok.mp written
  have total := (checkedAdd64_eq_some sum).1
  have opened : ((db.touch address).update address id).balanceSum = db.balanceSum :=
    balanceSum_update_same (getOrCreate_balance (db.touch address) address)
  have added := balanceSum_update ((db.touch address).update address id) address fun a =>
    { a with balance }
  refine ⟨?_, rfl⟩
  dsimp only at added ⊢
  omega

theorem transfer_sum (ran : transfer sender recipient amount fee db = .ok u paid) :
    paid.balanceSum + fee = db.balanceSum ∧
      paid.totalBurned = satAdd64 db.totalBurned (burnShare fee) := by
  unfold transfer at ran
  obtain ⟨total, sum, ran⟩ := fromOption_bind_ok ran
  obtain ⟨rfl, _⟩ := checkedAdd64_eq_some sum
  obtain ⟨enough, taken⟩ := ensure_bind_ok (get_bind_ok ran)
  obtain ⟨nonce, _, written⟩ := fromOption_bind_ok (get_bind_ok (modify_bind_ok taken))
  obtain ⟨_, credited, paidIn, burned⟩ := bind_ok.mp (modify_bind_ok written)
  cases modify_ok.mp burned
  obtain ⟨received, kept⟩ := credit_sum paidIn
  have enough : amount + fee ≤ db.getBalance sender := of_decide_eq_true enough
  have debited := balanceSum_update ((db.touch sender).touch recipient) sender fun a =>
    { a with balance := a.balance - (amount + fee) }
  rw [getOrCreate_touch, getOrCreate_touch, getBalance_touch, getBalance_touch] at debited
  rw [balanceSum_update_same (getOrCreate_balance _ _)] at received
  have held := getOrCreate_balance db sender
  have same : ((db.touch sender).touch recipient).balanceSum = db.balanceSum := rfl
  constructor
  · show credited.balanceSum + fee = db.balanceSum
    dsimp only at debited
    omega
  · show satAdd64 credited.totalBurned _ = _
    rw [kept]
    rfl

end
end AccountDB
end SentrixPrimitives

namespace SentrixCore
open MachineWords HashTable Effects SentrixPrimitives SentrixStaking List

namespace Blockchain

def chargedFees (w : Wire) (txs : List Transaction) : List Nat :=
  (txs.filter fun tx => !tx.isSystemTx w).map (·.fee)

def burnedShares (w : Wire) (txs : List Transaction) : Nat :=
  ((chargedFees w txs).map AccountDB.burnShare).sum

def oddFees (w : Wire) (txs : List Transaction) : Nat :=
  (chargedFees w txs).countP fun fee => fee % 2 == 1

theorem burnShare_sum (fees : List Nat) :
    (fees.map AccountDB.burnShare).sum + fees.sum / 2 =
      fees.sum + (fees.countP fun fee => fee % 2 == 1) / 2 := by
  have doubled : 2 * (fees.map AccountDB.burnShare).sum =
      fees.sum + fees.countP fun fee => fee % 2 == 1 := by
    induction fees with
    | nil => rfl
    | cons =>
      simp only [map_cons, sum_cons, countP_cons, AccountDB.burnShare, beq_iff_eq]
      split <;> omega
  omega

section
variable {env : Platform} {now : Nat} {b : Block} {tx : Transaction} {totalFee fees : Nat}
  {bc after : Blockchain}

structure Charged (fees : List Nat) (db paid : AccountDB) : Prop where
  balances : paid.balanceSum + fees.sum = db.balanceSum
  burned : paid.totalBurned =
    min (db.totalBurned + (fees.map AccountDB.burnShare).sum) u64Max

theorem Charged.none {db : AccountDB} (word : db.totalBurned ≤ u64Max) : Charged [] db db :=
  ⟨rfl, by simp [word]⟩

theorem Charged.word {db paid : AccountDB} {fees : List Nat} (charged : Charged fees db paid) :
    paid.totalBurned ≤ u64Max := by
  rw [charged.burned]
  exact Nat.min_le_right _ _

theorem Charged.trans {db paid next : AccountDB} {fees later : List Nat}
    (first : Charged fees db paid) (second : Charged later paid next) :
    Charged (fees ++ later) db next := by
  have moved := first.balances
  have moved' := second.balances
  refine ⟨?_, ?_⟩
  · rw [sum_append]
    omega
  · rw [second.burned, first.burned, map_append, sum_append]
    omega

theorem charged_transfer {db paid : AccountDB} {sender recipient : Address} {amount fee : Nat}
    {u : Unit} (ran : AccountDB.transfer sender recipient amount fee db = .ok u paid) :
    Charged [fee] db paid := by
  obtain ⟨balances, burned⟩ := AccountDB.transfer_sum ran
  exact ⟨by simpa using balances, by simpa [satAdd64, satAdd] using burned⟩

theorem chargeTransaction_charged {paid : Blockchain} (native : tx.isEvmTx = false)
    (word : bc.accounts.totalBurned ≤ u64Max)
    (ran : chargeTransaction env tx totalFee bc = .ok fees paid) :
    Charged (chargedFees env.wire [tx]) bc.accounts paid.accounts ∧
      fees = totalFee + (chargedFees env.wire [tx]).sum := by
  cases system : tx.isSystemTx env.wire with
  | true =>
    have free : chargedFees env.wire [tx] = [] := by simp [chargedFees, system]
    rw [chargeTransaction, if_pos system] at ran
    obtain ⟨rfl, rfl⟩ := pure_ok.mp ran
    rw [free]
    exact ⟨.none word, rfl⟩
  | false =>
    have one : chargedFees env.wire [tx] = [tx.fee] := by simp [chargedFees, system]
    have moved := chargeTransaction_ok system ran
    rw [native] at moved
    rw [chargeTransaction, if_neg (by simp [system])] at ran
    obtain ⟨_, _, _, counted⟩ := bind_ok.mp ran
    obtain ⟨sum, _⟩ := fromOption_ok.mp counted
    rw [one]
    exact ⟨charged_transfer moved, by simpa using (checkedAdd64_eq_some sum).1⟩

theorem applyTransaction_charged (native : tx.isEvmTx = false)
    (word : bc.accounts.totalBurned ≤ u64Max)
    (ran : applyTransaction env now b tx totalFee bc = .ok fees after) :
    Charged (chargedFees env.wire [tx]) bc.accounts after.accounts ∧
      fees = totalFee + (chargedFees env.wire [tx]).sum := by
  obtain ⟨paid, tokened, staked, charged, tokens, staking, rfl⟩ := applyTransaction_ok ran
  obtain ⟨fee, counted⟩ := chargeTransaction_charged native word charged
  have idle : dispatchEvm env b tx staked = staked := by simp [dispatchEvm, native]
  rw [idle]
  refine ⟨?_, counted⟩
  rcases applyStakingOp_accounts staking with same | ⟨_, total, claimed⟩
  · rw [same, applyTokenOp_accounts tokens]
    exact fee
  · rw [applyTokenOp_accounts tokens] at claimed
    -- a claim is a transfer out of the treasury at no fee
    have free : Charged [] paid.accounts staked.accounts := by
      have charged := charged_transfer claimed
      exact ⟨by simpa using charged.balances, by simpa [AccountDB.burnShare] using charged.burned⟩
    simpa using fee.trans free

theorem chargedFees_cons (w : Wire) (tx : Transaction) (rest : List Transaction) :
    chargedFees w (tx :: rest) = chargedFees w [tx] ++ chargedFees w rest := by
  simp only [chargedFees, ← map_append, ← filter_append, singleton_append]

theorem applyTransactions_charged {txs : List Transaction} {finish : Blockchain}
    (native : ∀ tx ∈ txs, tx.isEvmTx = false) (word : bc.accounts.totalBurned ≤ u64Max)
    (ran : applyTransactions env now b txs totalFee bc = .ok fees finish) :
    Charged (chargedFees env.wire txs) bc.accounts finish.accounts ∧
      fees = totalFee + (chargedFees env.wire txs).sum := by
  induction txs generalizing totalFee bc with
  | nil =>
    obtain ⟨rfl, rfl⟩ := pure_ok.mp ran
    exact ⟨.none word, rfl⟩
  | cons tx _ ih =>
    obtain ⟨_, next, one, others⟩ := bind_ok.mp ran
    obtain ⟨first, counted⟩ := applyTransaction_charged (native tx mem_cons_self) word one
    obtain ⟨later, total⟩ := ih (fun t inside => native t (mem_cons_of_mem _ inside))
      first.word others
    rw [chargedFees_cons]
    refine ⟨first.trans later, ?_⟩
    rw [total, counted, sum_append, Nat.add_assoc]

theorem applyCoinbase_sum (ran : applyCoinbase env b bc = .ok () after) :
    ∃ coinbase, b.coinbase = some coinbase ∧
      after.accounts.balanceSum = bc.accounts.balanceSum + coinbase.amount ∧
      after.accounts.totalBurned = bc.accounts.totalBurned := by
  unfold applyCoinbase at ran
  obtain ⟨coinbase, found, ran⟩ := fromOption_bind_ok ran
  obtain ⟨_, credited, credit, minted⟩ := bind_ok.mp (modify_bind_ok ran)
  obtain ⟨db, paid, rfl⟩ := focus_ok.mp credit
  cases modify_ok.mp minted
  have same : (resetAtActivation env b bc).accounts = bc.accounts := by
    unfold resetAtActivation
    split <;> rfl
  rw [same] at paid
  obtain ⟨balances, burned⟩ := AccountDB.credit_sum paid
  exact ⟨coinbase, found, balances, burned⟩

theorem payFees_sum (ran : payFees b totalFee bc = .ok () after) :
    after.accounts.balanceSum = bc.accounts.balanceSum + totalFee / 2 ∧
      after.accounts.totalBurned = bc.accounts.totalBurned := by
  have share : totalFee - AccountDB.burnShare totalFee = totalFee / 2 := by
    unfold AccountDB.burnShare
    omega
  unfold payFees at ran
  rw [share] at ran
  split at ran
  · obtain ⟨db, paid, rfl⟩ := focus_ok.mp ran
    exact AccountDB.credit_sum paid
  · obtain ⟨-, rfl⟩ := pure_ok.mp ran
    omega

theorem dropMined_accounts (now : Nat) (b : Block) (bc : Blockchain) :
    (dropMined now b bc).accounts = bc.accounts := by
  have evicted (pool : Blockchain) (senders : List Address) :
      (pool.evictStaleNonceForSenders senders).accounts = pool.accounts := by
    unfold evictStaleNonceForSenders
    split <;> rfl
  exact evicted _ _

theorem applyBody_sum {body : Blockchain} (native : ∀ tx ∈ b.transactions, tx.isEvmTx = false)
    (word : bc.accounts.totalBurned ≤ u64Max) (ran : applyBody env now b bc = .ok () body) :
    ∃ coinbase, b.coinbase = some coinbase ∧
      body.accounts.balanceSum + (chargedFees env.wire b.transactions.tail).sum =
        bc.accounts.balanceSum + coinbase.amount +
          (chargedFees env.wire b.transactions.tail).sum / 2 ∧
      body.accounts.totalBurned =
        min (bc.accounts.totalBurned + burnedShares env.wire b.transactions.tail) u64Max := by
  unfold applyBody at ran
  obtain ⟨_, start, opening, ran⟩ := bind_ok.mp (modify_bind_ok ran)
  obtain ⟨total, finish, loop, ran⟩ := bind_ok.mp ran
  obtain ⟨_, paid, payout, closing⟩ := bind_ok.mp ran
  obtain ⟨coinbase, found, minted, kept⟩ := applyCoinbase_sum opening
  have plain : ∀ tx ∈ b.transactions.tail, tx.isEvmTx = false :=
    fun tx inside => native tx (mem_of_mem_tail inside)
  obtain ⟨charged, counted⟩ := applyTransactions_charged plain (kept ▸ word) loop
  obtain ⟨shared, unburned⟩ := payFees_sum payout
  cases modify_ok.mp (modify_bind_ok closing)
  have minted : start.accounts.balanceSum = bc.accounts.balanceSum + coinbase.amount := minted
  have balances := charged.balances
  have closed : (recordProduced b paid).accounts = paid.accounts := rfl
  rw [dropMined_accounts, closed]
  refine ⟨coinbase, found, ?_, ?_⟩
  · rw [Nat.zero_add] at counted
    rw [counted] at shared
    omega
  · rw [unburned, charged.burned, kept]
    rfl

def Unrebased (settings : Settings) (height : Nat) : Prop :=
  (settings.stateRootV2TreasuryBalance.isSome = true → settings.stateRootV2Height ≠ height) ∧
    (settings.treasuryRebaseBalance.isSome = true → settings.treasuryRebaseHeight ≠ height)

theorem rebaseTreasury_idle (last : bc.chain.getLast? = some b)
    (idle : Unrebased env.settings b.index) :
    (rebaseTreasury env.settings bc).accounts = bc.accounts := by
  obtain ⟨first, second⟩ := idle
  simp only [rebaseTreasury, last, Option.map_some, Option.some.injEq]
  cases early : env.settings.stateRootV2TreasuryBalance with
  | none =>
    cases late : env.settings.treasuryRebaseBalance with
    | none => rfl
    | some => exact if_neg fun due => second (by rw [late]; rfl) due.symm
  | some =>
    have skipped : ¬ b.index = env.settings.stateRootV2Height :=
      fun due => first (by rw [early]; rfl) due.symm
    simp only [if_neg skipped]
    cases late : env.settings.treasuryRebaseBalance with
    | none => rfl
    | some => exact if_neg fun due => second (by rw [late]; rfl) due.symm

def money (bc : Blockchain) : Nat × Nat :=
  (bc.accounts.balanceSum, bc.accounts.totalBurned)

theorem updateTrie_money {computed : Option Bytes} (last : bc.chain.getLast? = some b)
    (idle : Unrebased env.settings b.index) (ran : updateTrie env bc = .ok computed after) :
    money after = money bc := by
  have rebased : money (rebaseTreasury env.settings bc) = money bc := by
    unfold money
    rw [rebaseTreasury_idle last idle]
  have viewed : money after = money (rebaseTreasury env.settings bc) :=
    updateTrie_view (fun _ _ => rfl) (fun _ => rfl) ran
  rw [viewed, rebased]

/-- Everything an accepted block does to the money. -/
theorem block_money {s : Submission} {u : Unit} (accepted : submit env s bc = .ok u after)
    (native : ∀ tx ∈ s.block.transactions, tx.isEvmTx = false)
    (within : EpochManager.isEpochBoundary s.block.index = false)
    (idle : Unrebased env.settings s.block.index)
    (word : bc.accounts.totalBurned ≤ u64Max) :
    ∃ coinbase, s.block.coinbase = some coinbase ∧
      after.accounts.balanceSum + (chargedFees env.wire s.block.transactions.tail).sum =
        bc.accounts.balanceSum + coinbase.amount +
          (chargedFees env.wire s.block.transactions.tail).sum / 2 ∧
      after.accounts.totalBurned =
        min (bc.accounts.totalBurned + burnedShares env.wire s.block.transactions.tail) u64Max := by
  obtain ⟨verified, applied, -, -, pass2, rfl⟩ := addBlockWithSource_ok accepted
  obtain ⟨computed, x, upTo, settled⟩ := applyBlockPass2_split.mp pass2
  obtain ⟨body, bodyRan, update⟩ := (applyUpToRoot_within within).mp upTo
  have fits : (bc.entering s.source verified).accounts.totalBurned ≤ u64Max := word
  obtain ⟨coinbase, found, balances, burned⟩ := applyBody_sum native fits bodyRan
  have last : (rewarded env s.block.index (pushBlock s.block body)).chain.getLast? =
      some s.block := by
    rw [rewarded_chain, getLast?_pushBlock]
  have booked : money (rewarded env s.block.index (pushBlock s.block body)) = money body := by
    unfold money
    rw [rewarded_accounts, pushBlock]
  have kept : money (setSource .selfProduced applied) = money body :=
    calc money applied
      _ = money x := (keeps_settleStateRoot_of (fun _ _ => rfl) computed).ok settled
      _ = money (rewarded env s.block.index (pushBlock s.block body)) :=
        updateTrie_money last idle update
      _ = money body := booked
  obtain ⟨sum, counter⟩ := Prod.mk.inj kept
  rw [sum, counter]
  exact ⟨coinbase, found, balances, burned⟩

/-- A block adds its coinbase to balances and burn counter together, exactly when its
odd fees make up for what the counter cannot hold: as a rule, when there is at most
one of them. -/
theorem block_conserves_iff {s : Submission} {u : Unit} (accepted : submit env s bc = .ok u after)
    (native : ∀ tx ∈ s.block.transactions, tx.isEvmTx = false)
    (within : EpochManager.isEpochBoundary s.block.index = false)
    (idle : Unrebased env.settings s.block.index)
    (word : bc.accounts.totalBurned ≤ u64Max) :
    after.accounts.balanceSum + after.accounts.totalBurned =
        bc.accounts.balanceSum + bc.accounts.totalBurned +
          ((s.block.coinbase.map (·.amount)).getD 0) ↔
      oddFees env.wire s.block.transactions.tail / 2 =
        bc.accounts.totalBurned + burnedShares env.wire s.block.transactions.tail - u64Max := by
  obtain ⟨coinbase, found, balances, burned⟩ := block_money accepted native within idle word
  have halves := burnShare_sum (chargedFees env.wire s.block.transactions.tail)
  rw [found, Option.map_some, Option.getD_some, burned]
  unfold oddFees burnedShares at *
  omega

end

def oddTransfer (nonce : Nat) (txid : Hash) (signature : String) : Transaction :=
  { signedTransfer with nonce, txid, signature, fee := 10001 }

def firstOdd : Transaction := oddTransfer 0
  "5e6b9caff89ec5e9ecb7400a97bde4d8871bfa44f799df71b6e9fcfed0ae2164"
  ("30a62d54a74fedd1b7dca08f9a27d5654e278df4b50936b0fdc8985e9998e24b" ++
    "1326d0d7c71623417ef323a3321b3ac5bb70b3d77b6bc8bcccc73d54367ac022")

def secondOdd : Transaction := oddTransfer 1
  "e5f59e110983cdbc27a11625c133ca88223ff51c628567dbb66921694725808f"
  ("86844c7625f304fcae4488a20585acceb6aa61dba058baffefe468e8dcdb8b63" ++
    "4039e49f516516981f5ea0fb51859342c42b73f96735ba6e23f769a28b01f791")

def oddBlock : Block :=
  sampleBlock 1 genesisBlock.hash [firstCoinbase, firstOdd, secondOdd] 1700000001
    "1444c3560238e143d5c2a999b0064b6cdfe42a4b1870457412ab945fea58fb82"
    "35d6149c677e8afb83139f77ef795d288614a957554aae811dcc20bce672f12a"

def oddDigests : List (String × Hash) :=
  let left := "86150757162f592074f73931effd1dbcc6fb04b606972ab528b781db48856ffd"
  let right := "1f3b560f83eea4d1a4d7457b516a5b5da8217b50f0706e55fb04713c21a4af72"
  [(firstCoinbase.txid ++ firstOdd.txid, left), (secondOdd.txid ++ secondOdd.txid, right),
   (left ++ right, oddBlock.merkleRoot), (oddBlock.headerPayload, oddBlock.hash)]

def oddPlatform : Platform :=
  let bare := tableWire oddDigests
  plainPlatform (signingWire oddDigests secondKey secondValidator
    ([firstOdd, secondOdd].map fun tx => (tx.signature, tx.signingPayload bare)))

/-- Two fees of 10001: the block mints one unit more than its coinbase. -/
theorem odd_fees_mint :
    let s : Submission := ⟨1700000001, .peer, oddBlock⟩
    let after := finalState (submit oddPlatform s) fundedChain
    succeeds (submit oddPlatform s) fundedChain = true ∧
      oddBlock.transactions.all (fun tx => !tx.isEvmTx) = true ∧
      EpochManager.isEpochBoundary oddBlock.index = false ∧
      fundedChain.accounts.balanceSum + fundedChain.accounts.totalBurned = 1000000 ∧
      oddBlock.coinbase.map (·.amount) = some 100000000 ∧
      after.accounts.balanceSum + after.accounts.totalBurned = 101000001 := by
  decide +kernel

/-- One fee, no loss. -/
theorem transfer_conserves :
    let after := finalState (submit transferPlatform ⟨1700000001, .peer, transferBlock⟩) fundedChain
    after.accounts.balanceSum + after.accounts.totalBurned =
      fundedChain.accounts.balanceSum + fundedChain.accounts.totalBurned + 100000000 := by
  have accepts : succeeds (submit transferPlatform ⟨1700000001, .peer, transferBlock⟩)
      fundedChain = true := by decide +kernel
  obtain ⟨_, _, accepted⟩ := succeeds_iff.mp accepts
  have native : ∀ tx ∈ transferBlock.transactions, tx.isEvmTx = false := by decide
  have idle : Unrebased transferPlatform.settings transferBlock.index := ⟨nofun, nofun⟩
  rw [finalState_ok accepted]
  exact (block_conserves_iff accepted native (by decide) idle (by decide)).mpr (by decide)

end Blockchain
end SentrixCore
