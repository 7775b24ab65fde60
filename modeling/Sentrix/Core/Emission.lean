import Sentrix.Core.TwinRuns
import Sentrix.Core.Replay

/-!
The supply cap. A block mints what its coinbase names, the coinbase is checked against
the reward at the height it builds on, and the reward never exceeds what is left below
the cap there.
-/
namespace SentrixCore
open MachineWords Effects SentrixPrimitives

namespace Blockchain

theorem maxSupplyFor_mono (forks : Forks) {low high : Nat} (le : low ≤ high) :
    maxSupplyFor forks low ≤ maxSupplyFor forks high := by
  unfold maxSupplyFor
  by_cases early : reached forks.tokenomicsV2 low = true
  · have late : reached forks.tokenomicsV2 high = true := by
      unfold reached at early ⊢
      simp only [Bool.and_eq_true, bne_iff_ne, decide_eq_true_eq] at early ⊢
      exact ⟨early.1, early.2.trans le⟩
    rw [if_pos early, if_pos late]
  · rw [if_neg early]
    split
    · decide
    · exact Nat.le_refl _

theorem getBlockReward_fits (forks : Forks) (bc : Blockchain) :
    bc.totalMinted + bc.getBlockReward forks ≤
      max bc.totalMinted (maxSupplyFor forks bc.height) := by
  have share : bc.getBlockReward forks ≤ maxSupplyFor forks bc.height - bc.totalMinted :=
    Nat.min_le_right _ _
  omega

theorem totalMinted_skips : SkipsBooks totalMinted where
  stake _ _ := rfl
  bench _ _ _ := rfl
  authority _ _ := rfl
  accounts _ _ := rfl
  contracts _ _ := rfl
  nfts _ _ := rfl
  epochs _ _ := rfl
  pool _ _ _ _ := rfl

section
variable {env : Platform} {now : Nat} {b : Block} {bc after : Blockchain} {u : Unit}

theorem checkCoinbase_amount {forks : Forks} (passed : bc.checkCoinbase forks b = .ok u) :
    b.coinbase.map (·.amount) = some (bc.getBlockReward forks) := by
  unfold checkCoinbase at passed
  cases found : b.coinbase with
  | none => simp [found] at passed
  | some coinbase =>
    rw [found] at passed
    obtain ⟨_, amount, -⟩ := except_bind_ok.mp passed
    simpa using require_ok.mp amount

theorem applyCoinbase_minted {reward : Nat} (found : b.coinbase.map (·.amount) = some reward)
    (ran : applyCoinbase env b bc = .ok u after) :
    after.totalMinted = satAdd64 bc.totalMinted reward := by
  unfold applyCoinbase at ran
  obtain ⟨coinbase, isCoinbase, ran⟩ := fromOption_bind_ok ran
  obtain ⟨_, credited, paid, ran⟩ := bind_ok.mp (modify_bind_ok ran)
  obtain rfl := modify_ok.mp ran
  have kept : credited.totalMinted = (resetAtActivation env b bc).totalMinted :=
    (keeps_onAccounts (fun _ _ => rfl) _).ok paid
  have amount : coinbase.amount = reward := by
    rw [isCoinbase] at found
    exact Option.some.inj found
  show satAdd64 credited.totalMinted coinbase.amount = _
  have same : (resetAtActivation env b bc).totalMinted = bc.totalMinted := by
    unfold resetAtActivation
    split <;> rfl
  rw [kept, same, amount]

theorem applyBlockPass2_minted {reward : Nat} (found : b.coinbase.map (·.amount) = some reward)
    (ran : applyBlockPass2 env now b bc = .ok u after) :
    after.totalMinted = satAdd64 bc.totalMinted reward := by
  obtain ⟨computed, x, upTo, settled⟩ := applyBlockPass2_split.mp ran
  obtain ⟨body, booked, bodyRan, bookRan, update⟩ := applyUpToRoot_ok.mp upTo
  unfold applyBody at bodyRan
  obtain ⟨_, minted, coinbaseRan, rest⟩ := bind_ok.mp (modify_bind_ok bodyRan)
  have paid := applyCoinbase_minted found coinbaseRan
  calc after.totalMinted
    _ = x.totalMinted := (keeps_settleStateRoot_of (fun _ _ => rfl) computed).ok settled
    _ = (rebaseTreasury env.settings booked).totalMinted :=
      updateTrie_view (fun _ _ => rfl) (fun _ => rfl) update
    _ = booked.totalMinted := rfl
    _ = (pushBlock b body).totalMinted := (totalMinted_skips.keeps_bookkeeping env).ok bookRan
    _ = body.totalMinted := by rw [pushBlock]
    _ = minted.totalMinted := (totalMinted_skips.keeps_afterCoinbase env now b).ok rest
    _ = satAdd64 bc.totalMinted reward := paid

theorem block_mints {s : Submission} (accepted : submit env s bc = .ok u after) :
    after.totalMinted = satAdd64 bc.totalMinted (bc.getBlockReward env.forks) := by
  obtain ⟨verified, applied, -, contents, pass2, rfl⟩ := addBlockWithSource_ok accepted
  obtain ⟨coinbase, -⟩ := checkContents_ok contents
  exact (applyBlockPass2_minted (checkCoinbase_amount coinbase) pass2 :)

end

inductive Growth (env : Platform) (genesis : Blockchain) : Nat → Blockchain → Prop where
  | genesis : Growth env genesis 0 genesis
  | block {n : Nat} {bc next : Blockchain} {s : Submission} (earlier : Growth env genesis n bc)
      (accepted : submit env s bc = .ok () next) : Growth env genesis (n + 1) next

theorem Growth.height {env : Platform} {genesis bc : Blockchain} {n : Nat}
    (root : genesis.height = 0) (run : Growth env genesis n bc) :
    bc.height = n % 2 ^ 64 := by
  induction run with
  | genesis => exact root
  | @block n bc next s earlier accepted ih =>
    obtain ⟨index, row, top, restamped⟩ := accepted_top accepted
    rw [height_of_top top, ← restamped.twin.index, index, expectedIndex, ih, wrapAdd64]
    omega

theorem Growth.capped {env : Platform} {genesis bc : Blockchain} {n : Nat}
    (root : genesis.height = 0) (premine : genesis.totalMinted ≤ maxSupplyFor env.forks 0)
    (run : Growth env genesis n bc) : bc.totalMinted ≤ maxSupplyFor env.forks n := by
  induction run with
  | genesis => exact premine
  | @block n bc next s earlier accepted ih =>
    have reward := getBlockReward_fits env.forks bc
    -- the reward went by the height as a word, which is never above the count
    have word : maxSupplyFor env.forks bc.height ≤ maxSupplyFor env.forks (n + 1) :=
      maxSupplyFor_mono env.forks (by rw [earlier.height root]; omega)
    have risen : maxSupplyFor env.forks n ≤ maxSupplyFor env.forks (n + 1) :=
      maxSupplyFor_mono env.forks (Nat.le_succ n)
    calc next.totalMinted
      _ = satAdd64 bc.totalMinted (bc.getBlockReward env.forks) := block_mints accepted
      _ ≤ bc.totalMinted + bc.getBlockReward env.forks := Nat.min_le_left _ _
      _ ≤ maxSupplyFor env.forks (n + 1) := by omega

/-- The cap holds at the number of blocks above genesis, which is the height as long
as heights fit a word. -/
theorem supply_capped {env : Platform} {genesis bc : Blockchain} {n : Nat}
    (root : genesis.height = 0) (premine : genesis.totalMinted ≤ maxSupplyFor env.forks 0)
    (run : Growth env genesis n bc) :
    bc.totalMinted ≤ maxSupplyFor env.forks n ∧ (n ≤ u64Max → bc.height = n) := by
  refine ⟨run.capped root premine, fun fits => ?_⟩
  rw [run.height root]
  unfold u64Max at fits
  omega

def nearCap : Blockchain :=
  { seedChain .new with totalMinted := maxSupply - blockReward }

/-- The first block brings the counter to the cap, not beyond. -/
theorem cap_reached :
    ∃ bc, Growth (plainPlatform (tableWire firstDigests)) nearCap 1 bc ∧
      bc.totalMinted = maxSupply ∧ bc.totalMinted ≤ maxSupplyFor Forks.off bc.height := by
  have runs : succeeds (submit (plainPlatform (tableWire firstDigests))
      ⟨1700000001, .peer, firstBlock⟩) nearCap = true := by decide +kernel
  obtain ⟨_, bc, accepted⟩ := succeeds_iff.mp runs
  have run : Growth (plainPlatform (tableWire firstDigests)) nearCap 1 bc :=
    .block .genesis accepted
  obtain ⟨capped, height⟩ := supply_capped (by decide) (by decide) run
  refine ⟨bc, run, (block_mints accepted).trans (by decide), ?_⟩
  rw [height (by decide)]
  exact capped

end Blockchain
end SentrixCore
