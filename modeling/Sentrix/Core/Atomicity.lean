import Sentrix.Core.Footprint

/-!
Whether a rejected block leaves a trace. The snapshot restores every ledger and
the trie root; the window is undone by truncating it to its old length, which
is right only while the append had not pushed the oldest block out.
-/
namespace SentrixCore
open MachineWords Effects SentrixPrimitives SentrixStaking List

namespace Blockchain

structure Unchanged (bc after : Blockchain) : Prop where
  chain : after.chain = bc.chain
  accounts : after.accounts = bc.accounts
  contracts : after.contracts = bc.contracts
  nftRegistry : after.nftRegistry = bc.nftRegistry
  authority : after.authority = bc.authority
  mempool : after.mempool = bc.mempool
  totalMinted : after.totalMinted = bc.totalMinted
  stakeRegistry : after.stakeRegistry = bc.stakeRegistry
  epochManager : after.epochManager = bc.epochManager
  slashing : after.slashing = bc.slashing
  trieRoot : after.stateTrie.map (·.root) = bc.stateTrie.map (·.root)

def joinsChain (env : Platform) (now : Nat) (source : BlockSource) (b : Block) (bc : Blockchain) :
    Bool :=
  match (bc.entering source false).checkHeader env now b with
  | .error _ => false
  | .ok verified =>
    match (bc.entering source verified).checkContents env b with
    | .error _ => false
    | .ok _ => succeeds (applyBody env now b) (bc.entering source verified)

theorem wrapAdd64_one_ne (n : Nat) : wrapAdd64 n 1 ≠ n := by
  unfold wrapAdd64
  omega

variable {b : Block}

theorem take_pushed_iff {chain : List Block} (fresh : chain.getLast? ≠ some b) :
    (pushed b chain).take chain.length = chain ↔ chain.length < chainWindowSize := by
  unfold pushed
  have size : (chain ++ [b]).length = chain.length + 1 := by simp
  constructor
  · intro same
    by_contra full
    have kept : (chain.length + 1) - (chain.length + 1 - chainWindowSize) = chainWindowSize := by
      unfold chainWindowSize at *
      omega
    -- nothing is cut off a full window, so its last block is the new one
    rw [take_of_length_le (by rw [length_drop, size, kept]; omega)] at same
    apply fresh
    rw [← same, List.getLast?_drop]
    have inside : ¬ (chain ++ [b]).length ≤ (chain ++ [b]).length - chainWindowSize := by
      unfold chainWindowSize at *
      omega
    rw [if_neg inside]
    simp
  · intro room
    have nothing : (chain ++ [b]).length - chainWindowSize = 0 := by omega
    rw [nothing]
    simp

variable {bc failed : Blockchain}

theorem restore_unchanged_iff (tries : failed.stateTrie.isSome = bc.stateTrie.isSome) :
    Unchanged bc (restore bc.snapshot failed) ↔ failed.chain.take bc.chain.length = bc.chain := by
  constructor
  · intro unchanged
    exact unchanged.chain
  · intro window
    refine ⟨window, rfl, rfl, rfl, rfl, rfl, rfl, rfl, rfl, rfl, ?_⟩
    cases before : bc.stateTrie with
    | none =>
      have none_after : failed.stateTrie = none := by simpa [before] using tries
      simp [restore, snapshot, before, none_after]
    | some old =>
      have some_after : failed.stateTrie.isSome = true := by simpa [before] using tries
      obtain ⟨trie, there⟩ := Option.isSome_iff_exists.mp some_after
      simp [restore, snapshot, before, there, SentrixTrie.setRoot]

theorem window_pushBlock (b : Block) (bc : Blockchain) :
    window (pushBlock b bc) = (pushed b bc.chain, bc.stateTrie.isSome) := by
  simp only [window, pushBlock]

variable {env : Platform} {now : Nat}

/-- A failing pass 2 stopped before the append or after it. -/
theorem applyBlockPass2_error {e : SentrixError}
    (ran : applyBlockPass2 env now b bc = .error e failed) :
    (succeeds (applyBody env now b) bc = false ∧ window failed = window bc) ∨
      (succeeds (applyBody env now b) bc = true ∧
        window failed = (pushed b bc.chain, bc.stateTrie.isSome)) := by
  unfold applyBlockPass2 at ran
  have body := keeps_window_of_outer (keeps_applyBody env now b)
  rcases bind_error.mp ran with before | ⟨_, applied, done, ran⟩
  · left
    constructor
    · exact succeeds_of_error before
    · exact body.error before
  · right
    constructor
    · exact succeeds_iff.mpr ⟨_, applied, done⟩
    · rcases bind_error.mp ran with impossible | ⟨_, _, appended, tail⟩
      · exact absurd impossible modify_error
      have here := modify_ok.mp appended
      subst here
      have kept : window applied = window bc := body.ok done
      simp only [window, Prod.mk.injEq] at kept
      rw [applyTail_error env tail, window_pushBlock, kept.1, kept.2]

theorem checkHeader_fresh {verified : Bool} (passed : bc.checkHeader env now b = .ok verified) :
    bc.chain.getLast? ≠ some b := by
  obtain ⟨_, _, structured, _⟩ := checkHeader_ok passed
  intro last
  have height : bc.height = b.index := by simp [Blockchain.height, last]
  have index := structured.index_eq
  unfold expectedIndex at index
  rw [height] at index
  exact wrapAdd64_one_ne b.index index.symm

theorem unchanged_entering (bc : Blockchain) (source : BlockSource) (verified : Bool) :
    Unchanged bc (setSource .selfProduced (bc.entering source verified)) ∧
      (setSource .selfProduced (bc.entering source verified)).stateTrie = bc.stateTrie :=
  ⟨⟨rfl, rfl, rfl, rfl, rfl, rfl, rfl, rfl, rfl, rfl, rfl⟩, rfl⟩

/-- A rejected block that never joined the chain changed nothing but the call's own flags. -/
theorem addBlockWithSource_error {source : BlockSource} {after : Blockchain} {e : SentrixError}
    (rejected : addBlockWithSource env now source b bc = .error e after) :
    (joinsChain env now source b bc = false ∧
        ∃ verified, after = setSource .selfProduced (bc.entering source verified)) ∨
      ∃ verified failed, (bc.entering source false).checkHeader env now b = .ok verified ∧
        (bc.entering source verified).checkContents env b = .ok () ∧
        applyBlockPass2 env now b (bc.entering source verified) = .error e failed ∧
        after = setSource .selfProduced (restore (bc.entering source verified).snapshot failed) := by
  unfold addBlockWithSource at rejected
  split at rejected
  · cases rejected
  rename_i e' inner ran
  simp only [EStateM.Result.error.injEq] at rejected
  obtain ⟨rfl, rfl⟩ := rejected
  unfold addBlockImpl at ran
  rcases bind_error.mp ran with impossible | ⟨_, _, cleared, ran⟩
  · exact absurd impossible modify_error
  have here := modify_ok.mp cleared
  subst here
  have ran := get_bind_error ran
  rcases bind_error.mp ran with stopped | ⟨verified, _, checked, ran⟩
  · left
    obtain ⟨header, rfl⟩ := fromExcept_error.mp stopped
    have early : (bc.entering source false).checkHeader env now b = .error e' := header
    constructor
    · simp [joinsChain, early]
    · exact ⟨false, rfl⟩
  obtain ⟨header, rfl⟩ := fromExcept_ok.mp checked
  have header : (bc.entering source false).checkHeader env now b = .ok verified := header
  rcases bind_error.mp ran with impossible | ⟨_, _, marked, ran⟩
  · exact absurd impossible modify_error
  have here := modify_ok.mp marked
  subst here
  have ran := get_bind_error ran
  rcases bind_error.mp ran with stopped | ⟨_, _, checked, ran⟩
  · left
    obtain ⟨contents, rfl⟩ := fromExcept_error.mp stopped
    have early : (bc.entering source verified).checkContents env b = .error e' := contents
    constructor
    · simp [joinsChain, header, early]
    · exact ⟨verified, rfl⟩
  · right
    obtain ⟨contents, rfl⟩ := fromExcept_ok.mp checked
    unfold commitOrRollBack at ran
    split at ran
    · cases ran
    rename_i failed pass2
    simp only [EStateM.Result.error.injEq] at ran
    obtain ⟨rfl, rfl⟩ := ran
    exact ⟨verified, failed, header, contents, pass2, rfl⟩

theorem unchanged_entering_iff {source : BlockSource} {verified : Bool} :
    Unchanged bc (setSource .selfProduced failed) ↔ Unchanged (bc.entering source verified) failed := by
  constructor
  all_goals
    intro same
    exact ⟨same.1, same.2, same.3, same.4, same.5, same.6, same.7, same.8, same.9, same.10, same.11⟩

/-- A rejected block leaves everything as it was exactly when the window was not
full, or the block did not get as far as the append. -/
theorem rejected_block_unchanged_iff {env : Platform} {now : Nat} {source : BlockSource} {b : Block}
    {bc after : Blockchain} {e : SentrixError}
    (rejected : addBlockWithSource env now source b bc = .error e after) :
    Unchanged bc after ↔
      bc.chain.length < chainWindowSize ∨ joinsChain env now source b bc = false := by
  rcases addBlockWithSource_error rejected with ⟨early, flag, rfl⟩ | late
  · constructor
    · intro _
      right
      exact early
    · intro _
      exact (unchanged_entering bc source flag).1
  · obtain ⟨verified, failed, header, contents, pass2, rfl⟩ := late
    have joins : joinsChain env now source b bc =
        succeeds (applyBody env now b) (bc.entering source verified) := by
      simp [joinsChain, header, contents]
    rw [joins, unchanged_entering_iff]
    rcases applyBlockPass2_error pass2 with ⟨before, kept⟩ | ⟨appended, kept⟩
    · simp only [window, Prod.mk.injEq] at kept
      rw [restore_unchanged_iff kept.2, kept.1, take_length]
      simp [before]
    · simp only [window, Prod.mk.injEq] at kept
      have fresh : (bc.entering source verified).chain.getLast? ≠ some b := checkHeader_fresh header
      rw [restore_unchanged_iff kept.2, kept.1, take_pushed_iff fresh, appended]
      simp [entering, setVerified, setSource]

/-- Block 99998. From the next one on a chain has to have its state trie. -/
def tipBlock : Block where
  index := 99998
  previousHash := zeroHash
  transactions := []
  timestamp := 1700000000
  merkleRoot := zeroHash
  validator := firstValidator
  hash := "34e268df0bc49ca7c9d952640a7f6b1dce213ae00d69e0d6c83c7ef462368f2c"
  stateRoot := none
  round := 0
  justification := none

def lateBlock : Block where
  index := 99999
  previousHash := tipBlock.hash
  transactions := [coinbaseTx firstValidator 100000000 99999 1700000001
    "f53770016046a5934d38d2df10a9c07497bf3c087fa3949fb1b513a57e01194a"]
  timestamp := 1700000001
  merkleRoot := "8355bb4d991b19e59f7554b87d11767ea70f5cf69fccafd90a9ae352b18a927e"
  validator := firstValidator
  hash := "0f408a9971674f68e6ebc620bdffefa3ce3c1bbf20d388aac49738def0608c14"
  stateRoot := none
  round := 0
  justification := none

def lateDigests : List (String × Hash) :=
  [("f53770016046a5934d38d2df10a9c07497bf3c087fa3949fb1b513a57e01194a", lateBlock.merkleRoot),
   (lateBlock.headerPayload, lateBlock.hash)]

def lateChain (blocks : Nat) : Blockchain :=
  { seedChain (bondedSet [firstValidator]) with
    chain := (List.range blocks).reverse.map fun back => { tipBlock with index := 99998 - back } }

theorem late_block_leaves_no_trace :
    ∃ e after, addBlock (plainPlatform (tableWire lateDigests)) 1700000001 lateBlock
        (lateChain 2) = .error e after ∧ Unchanged (lateChain 2) after := by
  have fails : succeeds (addBlock (plainPlatform (tableWire lateDigests)) 1700000001 lateBlock)
      (lateChain 2) = false := by decide +kernel
  obtain ⟨e, rejected⟩ := error_of_not_succeeds fails
  refine ⟨e, _, rejected, ?_⟩
  apply (rejected_block_unchanged_iff rejected).mpr
  left
  decide

/-- With a full window the block that failed stays on the chain. -/
theorem failed_block_stays_on_chain :
    ∃ e after, addBlock (plainPlatform (tableWire lateDigests)) 1700000001 lateBlock
        (lateChain 1000) = .error e after ∧ after.chain.getLast?.map (·.hash) = some lateBlock.hash ∧
      (lateChain 1000).chain.getLast?.map (·.hash) = some tipBlock.hash ∧
      ¬ Unchanged (lateChain 1000) after := by
  obtain ⟨fails, last, tip⟩ :
      succeeds (addBlock (plainPlatform (tableWire lateDigests)) 1700000001 lateBlock)
          (lateChain 1000) = false ∧
        (finalState (addBlock (plainPlatform (tableWire lateDigests)) 1700000001 lateBlock)
          (lateChain 1000)).chain.getLast?.map (·.hash) = some lateBlock.hash ∧
        (lateChain 1000).chain.getLast?.map (·.hash) = some tipBlock.hash := by decide +kernel
  have differ : tipBlock.hash ≠ lateBlock.hash := by decide
  obtain ⟨e, rejected⟩ := error_of_not_succeeds fails
  refine ⟨e, _, rejected, last, tip, ?_⟩
  intro unchanged
  rw [unchanged.chain, tip] at last
  exact differ (Option.some.inj last)

end Blockchain
end SentrixCore
