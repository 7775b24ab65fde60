import Mathlib.Algebra.BigOperators.Ring.List
import Mathlib.Algebra.Ring.Nat
import Sentrix.Core.Supply

/-!
Money across an EVM call. A call that succeeds is written back account by account, wei
rounded down to sentri.
-/
namespace SentrixCore
open MachineWords HashTable SentrixPrimitives List

def SentrixEvmDb.weiOf (view : SentrixEvmDb) (addr : Bytes) : Nat :=
  ((view.accounts.lookup addr).map (·.balance)).getD 0

def sentriLeft (a : EvmAccount) : Nat :=
  if a.selfdestructed then 0 else min (a.info.balance / weiPerSentri) u64Max

def destroyedSentri (a : EvmAccount) : Nat :=
  if a.selfdestructed then a.info.balance / weiPerSentri else 0

variable {db : AccountDB} {l : List (Bytes × EvmAccount)} {state : EvmState}

theorem balanceSum_writeAccount (db : AccountDB) (e : Bytes × EvmAccount) :
    (writeAccount db e).balanceSum + db.getBalance (addressToSentrix e.1) =
      db.balanceSum + sentriLeft e.2 := by
  have left (old : Account) : (written old e.2).balance = sentriLeft e.2 := by
    unfold written sentriLeft
    cases e.2.selfdestructed <;> rfl
  unfold AccountDB.balanceSum
  rw [accounts_writeAccount, ← left (db.getOrCreate (addressToSentrix e.1))]
  exact sumOf_insert _ db.accounts _ _

theorem balanceSum_write (distinct : (l.map (·.1)).Nodup) (db : AccountDB) :
    (l.foldl writeAccount db).balanceSum +
        (l.map fun e => db.getBalance (addressToSentrix e.1)).sum =
      db.balanceSum + (l.map fun e => sentriLeft e.2).sum := by
  induction l generalizing db with
  | nil => rfl
  | cons e rest ih =>
    obtain ⟨fresh, distinct⟩ := List.nodup_cons.mp distinct
    have first := balanceSum_writeAccount db e
    have later := ih distinct (writeAccount db e)
    -- the accounts still to be written hold what they held
    have kept : rest.map (fun other =>
        (writeAccount db e).getBalance (addressToSentrix other.1)) =
        rest.map fun other => db.getBalance (addressToSentrix other.1) := by
      refine map_congr_left fun other inside => ?_
      have apart : addressToSentrix other.1 ≠ addressToSentrix e.1 :=
        fun same => fresh (mem_map.mpr ⟨other, inside, addressToSentrix_inj same⟩)
      unfold AccountDB.getBalance
      rw [lookup_writeAccount, if_neg apart]
    rw [kept] at later
    simp only [foldl_cons, map_cons, sum_cons]
    omega

theorem sentriLeft_below (l : List (Bytes × EvmAccount)) :
    (l.map fun e => sentriLeft e.2).sum * weiPerSentri ≤ (l.map fun e => e.2.info.balance).sum := by
  rw [← sum_map_mul_right]
  refine sum_le_sum fun e _ => ?_
  unfold sentriLeft
  cases e.2.selfdestructed with
  | true => simp
  | false => exact (Nat.mul_le_mul_right _ (Nat.min_le_left _ _)).trans (Nat.div_mul_le_self _ _)

theorem sentriLeft_above (fits : ∀ e ∈ l, e.2.info.balance / weiPerSentri ≤ u64Max) :
    (l.map fun e => e.2.info.balance).sum ≤ ((l.map fun e => sentriLeft e.2).sum + l.length +
      (l.map fun e => destroyedSentri e.2).sum) * weiPerSentri := by
  induction l with
  | nil => exact Nat.zero_le _
  | cons e rest ih =>
    have more := ih fun other inside => fits other (mem_cons_of_mem _ inside)
    have whole : sentriLeft e.2 + destroyedSentri e.2 = e.2.info.balance / weiPerSentri := by
      unfold sentriLeft destroyedSentri
      cases e.2.selfdestructed with
      | true => exact Nat.zero_add _
      | false => exact Nat.min_eq_left (fits e mem_cons_self)
    have one := Nat.lt_div_mul_add (a := e.2.info.balance) (show 0 < weiPerSentri by decide)
    rw [← whole] at one
    simp only [map_cons, sum_cons, length_cons, Nat.add_mul, Nat.one_mul] at more one ⊢
    omega

/-- Rounding down may lose a sentri for each account written, and never makes one. -/
theorem writeback_mints_nothing {host : EvmHost} (canonical : canonicalKeys db = true)
    (words : ∀ e ∈ db.accounts.pairs, e.2.balance ≤ u64Max) (distinct : (state.map (·.1)).Nodup)
    (twenty : ∀ e ∈ state, e.1.length = 20)
    (preserved : ((touchedAccounts state).map fun e => e.2.info.balance).sum =
      ((touchedAccounts state).map fun e => (SentrixEvmDb.fromAccountDb host db).weiOf e.1).sum) :
    (commitStateToAccountDb state db).balanceSum ≤ db.balanceSum ∧
      ((∀ e ∈ touchedAccounts state, e.2.info.balance / weiPerSentri ≤ u64Max) →
        db.balanceSum ≤ (commitStateToAccountDb state db).balanceSum +
          (touchedAccounts state).length +
          ((touchedAccounts state).map fun e => destroyedSentri e.2).sum) := by
  have wei : (touchedAccounts state).map (fun e =>
      (SentrixEvmDb.fromAccountDb host db).weiOf e.1) =
      (touchedAccounts state).map fun e =>
        db.getBalance (addressToSentrix e.1) * weiPerSentri := by
    refine map_congr_left fun e member => ?_
    unfold SentrixEvmDb.weiOf AccountDB.getBalance
    rw [SentrixEvmDb.lookup_fromAccountDb host canonical
      (twenty e (mem_touchedAccounts.mp member).1)]
    cases held : db.accounts.lookup (addressToSentrix e.1) with
    | none => rfl
    | some account =>
      have word : account.balance ≤ u64Max := words (_, account) (mem_pairs.mpr held)
      have small : account.balance * weiPerSentri ≤ 2 ^ 256 - 1 :=
        (Nat.mul_le_mul_right _ word).trans (by decide)
      simp only [Option.map_some, Option.getD_some, evmInfo, Nat.min_eq_left small]
  rw [wei, sum_map_mul_right] at preserved
  have moved := balanceSum_write (nodup_touchedAccounts distinct) db
  have below := sentriLeft_below (touchedAccounts state)
  rw [preserved] at below
  have lost := Nat.le_of_mul_le_mul_right below (by decide)
  unfold commitStateToAccountDb
  refine ⟨by omega, fun fits => ?_⟩
  have above := sentriLeft_above fits
  rw [preserved] at above
  have kept := Nat.le_of_mul_le_mul_right above (by decide)
  omega

def payerBytes : Bytes := List.replicate 20 1
def payeeBytes : Bytes := List.replicate 20 2

def payerHolds : AccountDB :=
  AccountDB.new.setBalance (addressToSentrix payerBytes) 5

def paymentDiff : EvmState :=
  [(payerBytes, ⟨true, false, ⟨35000000000, 1, emptyCodeHash⟩, none, []⟩),
   (payeeBytes, ⟨true, false, ⟨15000000000, 0, emptyCodeHash⟩, none, []⟩)]

theorem payment_mints_nothing :
    (commitStateToAccountDb paymentDiff payerHolds).balanceSum = 4 ∧
      (commitStateToAccountDb paymentDiff payerHolds).balanceSum ≤ payerHolds.balanceSum := by
  have conserved := @writeback_mints_nothing payerHolds paymentDiff (plainPlatform (tableWire [])).evm
    (by decide) (by decide) (by decide) (by decide)
    (by decide)
  exact ⟨by decide, conserved.1⟩

end SentrixCore
