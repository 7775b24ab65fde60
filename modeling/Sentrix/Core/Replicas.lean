import Sentrix.Core.Recovery

/-!
Nodes that follow one chain. Each takes in its blocks at times of its own, as a producer
or from a peer, with or without the state root; in between the pools may change.
-/
namespace SentrixCore
open Effects SentrixPrimitives

namespace Blockchain
section
variable {env : Platform} {bc bc' other other' final final' : Blockchain} {rows : List Block}

/-- The rows are the blocks the chain takes on, as it keeps them. -/
inductive Follows (env : Platform) : Blockchain → List Block → Blockchain → Prop where
  | done {bc final : Blockchain} (pool : SamePreState bc final) : Follows env bc [] final
  | block {bc mid next final : Blockchain} {s : Submission} {row : Block} {rows : List Block}
      (pool : SamePreState bc mid) (accepted : submit env s mid = .ok () next)
      (top : next.chain.getLast? = some row) (later : Follows env next rows final) :
      Follows env bc (row :: rows) final

theorem Level.pools (level : Level bc other) (pool : SamePreState bc bc')
    (pool' : SamePreState other other') : Level bc' other' := by
  obtain ⟨_, _, _, rfl⟩ := pool
  obtain ⟨_, _, _, rfl⟩ := pool'
  exact ⟨level.ledgers, level.chainId, level.voyagerActivated, level.height⟩

/-- Blocks that are kept as one row differ at most in root and hash. -/
theorem twin_of_row {b b' row : Block} (stamped : Restamped b row) (stamped' : Restamped b' row) :
    Twin b b' := by
  obtain ⟨_, _, rfl⟩ := stamped
  obtain ⟨_, _, same⟩ := stamped'
  obtain ⟨index, -, transactions, -, -, validator, -⟩ := Block.mk.inj same
  exact ⟨index, validator, transactions ▸ (Twin.refl b).transactions⟩

/-- Nodes that start with the same ledgers and whose chains take on the same rows end with
the same ledgers. -/
theorem replicas_level (level : Level bc other) (run : Follows env bc rows final)
    (run' : Follows env other rows final') : Level final final' := by
  induction run generalizing other with
  | done pool =>
    obtain ⟨pool'⟩ := run'
    exact level.pools pool pool'
  | block pool accepted top _ ih =>
    obtain _ | ⟨pool', accepted', top', later'⟩ := run'
    refine ih ?_ later'
    obtain ⟨-, row, last, stamped⟩ := accepted_top accepted
    obtain ⟨-, row', last', stamped'⟩ := accepted_top accepted'
    cases last.symm.trans top
    cases last'.symm.trans top'
    obtain ⟨ledgers, chainId, voyager⟩ := lasting_of_accepted (level.pools pool pool')
      (twin_of_row stamped stamped') (stamped.signers.trans stamped'.signers.symm)
      accepted accepted'
    exact ⟨ledgers, chainId, voyager, (height_of_top top).trans (height_of_top top').symm⟩

end

theorem first_replicas : Level { afterFirst with mempool := [] }
    { afterFirst with mempool := firstBlock.transactions } := by
  have alike (bc : Blockchain) : SamePreState bc bc := ⟨_, _, _, rfl⟩
  have taken (mempool : List Transaction) :
      Follows founderPlatform founderGenesis [rootedFirst] { afterFirst with mempool } :=
    .block (s := ⟨1700000001, .selfProduced, firstBlock⟩) (alike founderGenesis) first_accepted
      afterFirst_facts.2.1 (.done ⟨mempool, _, _, rfl⟩)
  exact replicas_level ⟨rfl, rfl, rfl, rfl⟩ (taken []) (taken firstBlock.transactions)

end Blockchain
end SentrixCore
