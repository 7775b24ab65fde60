import Sentrix.Core.Emission
import Sentrix.Core.FinalityGate
import Sentrix.Core.HashCommitment
import Sentrix.Core.Storage

/-!
The reward is evaluated twice for one block: for the coinbase at the height and the
supply it builds on, and for the payout once the block has joined the chain and its
coinbase is counted.
-/
namespace SentrixCore
open MachineWords Effects SentrixPrimitives SentrixStaking

namespace Blockchain

def remainingSupply (forks : Forks) (height minted : Nat) : Nat :=
  maxSupplyFor forks height - minted

/-- With `c` minted by the block at `index` on `bc`: the schedule at `index` gives `c` again and
the supply left after the mint allows it, or the supply left is `c` and the schedule allows it. -/
def RewardRepeats (forks : Forks) (index : Nat) (bc : Blockchain) : Prop :=
  let c := bc.getBlockReward forks
  let left := remainingSupply forks index (satAdd64 bc.totalMinted c)
  scheduledReward forks index = c ∧ c ≤ left ∨ left = c ∧ c ≤ scheduledReward forks index

def Joined (env : Platform) (s : Submission) (bc joined : Blockchain) : Prop :=
  ∃ verified body, applyBody env s.now s.block (bc.entering s.source verified) = .ok () body ∧
    joined = pushBlock s.block body

def HandsOut (env : Platform) (b : Block) (joined : Blockchain) (reward : Nat) : Prop :=
  ∃ j, b.justification = some j ∧
    applyRewardBookkeepingForLatestBlock env.forks joined = { joined with
      slashing := joined.slashing.recordBlockSignatures (j.precommits.map (·.validator)) b.index
      stakeRegistry := finalState (StakeRegistry.distributeReward b.validator
        (j.precommits.map fun p => (p.validator, p.stakeWeight)) reward 0) joined.stakeRegistry
      epochManager := joined.epochManager.recordBlock reward }

section
variable {env : Platform} {s : Submission} {bc after : Blockchain} {u : Unit}

theorem getBlockReward_eq (forks : Forks) (bc : Blockchain) :
    bc.getBlockReward forks =
      min (scheduledReward forks bc.height) (remainingSupply forks bc.height bc.totalMinted) := rfl

theorem applyBody_minted {now : Nat} {b : Block} {body : Blockchain} {reward : Nat}
    (found : b.coinbase.map (·.amount) = some reward)
    (ran : applyBody env now b bc = .ok u body) :
    body.totalMinted = satAdd64 bc.totalMinted reward := by
  obtain ⟨_, minted, coinbaseRan, rest⟩ := bind_ok.mp (modify_bind_ok ran)
  have paid := applyCoinbase_minted found coinbaseRan
  rw [(totalMinted_skips.keeps_afterCoinbase env now b).ok rest]
  exact paid

theorem accepted_joined (accepted : submit env s bc = .ok u after) :
    ∃ joined booked, Joined env s bc joined ∧ bookkeeping env joined = .ok () booked ∧
      joined.chain.getLast? = some s.block ∧
      joined.totalMinted = satAdd64 bc.totalMinted (bc.getBlockReward env.forks) := by
  obtain ⟨verified, applied, -, contents, pass2, rfl⟩ := addBlockWithSource_ok accepted
  obtain ⟨computed, x, upTo, -⟩ := applyBlockPass2_split.mp pass2
  obtain ⟨body, booked, bodyRan, bookRan, -⟩ := applyUpToRoot_ok.mp upTo
  have coinbase := checkCoinbase_amount (checkContents_ok contents).1
  have counted := applyBody_minted coinbase bodyRan
  refine ⟨pushBlock s.block body, booked, ⟨verified, body, bodyRan, rfl⟩, bookRan,
    getLast?_pushBlock _ _, ?_⟩
  have joins : (pushBlock s.block body).totalMinted = body.totalMinted := by rw [pushBlock]
  rw [joins]
  exact counted

theorem handsOut_iff {joined : Blockchain} {j : BlockJustification} {reward : Nat}
    (top : joined.chain.getLast? = some s.block) (certified : s.block.justification = some j)
    (due : reward = joined.getBlockReward env.forks) : HandsOut env s.block joined reward := by
  refine ⟨j, certified, ?_⟩
  subst due
  unfold applyRewardBookkeepingForLatestBlock
  simp only [top, certified]

end

/-- For an accepted block with a justification where the bookkeeping is part of the block: its
coinbase mints the reward due before it, the bookkeeping hands out the one due after it, and
the two are equal exactly when the reward repeats. -/
theorem handed_out_is_minted_iff {env : Platform} {s : Submission} {bc after : Blockchain} {u : Unit}
    (accepted : submit env s bc = .ok u after) {j : BlockJustification}
    (certified : s.block.justification = some j)
    (inApply : reached env.forks.rewardApplyPath s.block.index = true) :
    ∃ joined reward, Joined env s bc joined ∧
      reached env.forks.rewardApplyPath joined.height = true ∧ HandsOut env s.block joined reward ∧
      (s.block.coinbase.map (·.amount) = some reward ↔
        RewardRepeats env.forks s.block.index bc) := by
  obtain ⟨joined, booked, joins, -, top, counted⟩ := accepted_joined accepted
  have height : joined.height = s.block.index := height_of_top top
  refine ⟨joined, joined.getBlockReward env.forks, joins, by rw [height]; exact inApply,
    handsOut_iff top certified rfl, ?_⟩
  obtain ⟨verified, applied, -, contents, -, -⟩ := addBlockWithSource_ok accepted
  have minted : s.block.coinbase.map (·.amount) = some (bc.getBlockReward env.forks) :=
    checkCoinbase_amount (checkContents_ok contents).1
  rw [minted, getBlockReward_eq env.forks joined, height, counted]
  unfold RewardRepeats
  dsimp only
  rw [Option.some.injEq]
  omega

def almostMinted : Blockchain :=
  { seedChain (bondedSet [firstValidator]) with totalMinted := maxSupply - blockReward }

/-- The last coin under the cap: the coinbase mints one and the bookkeeping hands out nothing. -/
theorem last_coin_not_handed_out :
    let s : Submission := ⟨1700000001, .peer, justifiedFirst 1 [] firstValidator minSelfStake⟩
    let after := finalState (submit rewardPlatform s) almostMinted
    succeeds (submit rewardPlatform s) almostMinted = true ∧
      s.block.coinbase.map (·.amount) = some blockReward ∧
      after.totalMinted = maxSupply ∧ after.epochManager.currentEpoch.totalBlocksProduced = 1 ∧
      after.epochManager.currentEpoch.totalRewards = 0 ∧
      pendingRewards after firstValidator = some 0 := by
  decide +kernel

/-- Far below the cap and within one halving period the reward repeats. -/
theorem first_reward_handed_out :
    ∃ joined, HandsOut rewardPlatform (justifiedFirst 1 [] firstValidator minSelfStake) joined
      blockReward := by
  obtain ⟨runs, repeats⟩ :
      succeeds (submit rewardPlatform
          ⟨1700000001, .peer, justifiedFirst 1 [] firstValidator minSelfStake⟩)
          (seedChain (bondedSet [firstValidator])) = true ∧
        (scheduledReward rewardPlatform.forks 1 = blockReward ∧
          blockReward ≤ remainingSupply rewardPlatform.forks 1 blockReward) := by decide +kernel
  obtain ⟨_, after, ran⟩ := succeeds_iff.mp runs
  obtain ⟨joined, reward, -, -, handed, equal⟩ := handed_out_is_minted_iff ran rfl (by decide)
  have same := equal.mpr (.inl repeats)
  have paid : reward = blockReward := (Option.some.inj same).symm
  rw [paid] at handed
  exact ⟨joined, handed⟩

end Blockchain
end SentrixCore
