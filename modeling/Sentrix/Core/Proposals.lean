import Sentrix.Core.TwinRuns
import Sentrix.Core.Replay

/-!
From a proposal to a finalised block. The proposer applies its block to a copy of the
chain and proposes what that leaves on top: the block with its state root and the hash
over it. The certificate joins the block only after the vote, and with reward
bookkeeping it is applied too.
-/
namespace SentrixCore
open MachineWords Effects SentrixPrimitives SentrixStaking List

namespace Blockchain

/-- The block a proposer broadcasts for a fresh one: what add_block leaves on top of
a scratch copy. -/
def preApply (env : Platform) (now : Nat) (raw : Block) (bc : Blockchain) :
    Except SentrixError Block :=
  match addBlock env now raw bc with
  | .ok _ scratch => scratch.latestBlock
  | .error e _ => .error e

def speculativeApplyForStateRoot (env : Platform) (now : Nat) (b : Block) (bc : Blockchain) :
    Except SentrixError Bytes := do
  let top ← preApply env now b bc
  match top.stateRoot with
  | some root => .ok root
  | none => .error (.internal "speculative apply produced no state_root")

def computedRoot (env : Platform) (now : Nat) (b : Block) (bc : Blockchain) : Option Bytes :=
  match applyUpToRoot env now b bc with
  | .ok computed _ => computed
  | .error _ _ => none

def certified (b : Block) (j : BlockJustification) : Block :=
  { b with justification := some j }

def SamePreState (bc other : Blockchain) : Prop :=
  ∃ mempool mempoolTxids mempoolSenderCount,
    other = { bc with mempool, mempoolTxids, mempoolSenderCount }

/-- A height at which no certificate can move the state root. -/
def RootIgnoresCertificate (forks : Forks) (height : Nat) : Prop :=
  reached forks.rewardApplyPath height = false ∨
    reached forks.stateInTrie height = false ∧ EpochManager.isEpochBoundary height = false

section
variable {env : Platform} {now now' : Nat} {source : BlockSource} {raw block : Block}
  {bc other after : Blockchain} {j : BlockJustification}

structure Stamped (w : Wire) (raw block : Block) : Prop where
  index : block.index = raw.index
  previousHash : block.previousHash = raw.previousHash
  transactions : block.transactions = raw.transactions
  timestamp : block.timestamp = raw.timestamp
  merkleRoot : block.merkleRoot = raw.merkleRoot
  validator : block.validator = raw.validator
  hash : block.hash = block.calculateHash w

variable {b : Block}

theorem stamped_stampRoot {w : Wire} {root : Bytes} (valid : b.hash = b.calculateHash w)
    (below : ¬ stateRootForkHeight ≤ b.index) : Stamped w b (stampRoot root b) := by
  refine ⟨rfl, rfl, rfl, rfl, rfl, rfl, ?_⟩
  show b.hash = _
  rw [valid]
  simp only [Block.calculateHash, Block.headerPayload, stampRoot, below, if_false]

variable {computed : Option Bytes} {u : Unit}

theorem settleStateRoot_fresh {settled : Blockchain} (last : bc.chain.getLast? = some raw)
    (fresh : raw.stateRoot = none) (valid : raw.hash = raw.calculateHash env.wire)
    (ran : settleStateRoot env computed bc = .ok u settled) :
    ∃ block, settled.chain.getLast? = some block ∧ block.stateRoot = computed ∧
      Stamped env.wire raw block := by
  unfold settleStateRoot at ran
  have ran := get_bind_ok ran
  cases computed with
  | none =>
    obtain ⟨-, rfl⟩ := pure_ok.mp ran
    exact ⟨raw, last, fresh, rfl, rfl, rfl, rfl, rfl, rfl, valid⟩
  | some root =>
    simp only [last, settleRootOf] at ran
    split at ran
    · simp only [fresh, stampMissingRoot] at ran
      obtain ⟨-, ran⟩ := ensure_bind_ok (get_bind_ok ran)
      obtain rfl := modify_ok.mp ran
      exact ⟨{ stampRoot root raw with hash := (stampRoot root raw).calculateHash env.wire },
        by rw [getLast?_setLast, last]; rfl, rfl, rfl, rfl, rfl, rfl, rfl, rfl, rfl⟩
    · rename_i below
      obtain rfl := modify_ok.mp ran
      exact ⟨stampRoot root raw, by rw [getLast?_setLast, last]; rfl, rfl,
        stamped_stampRoot valid below⟩

theorem Stamped.twin (stamped : Stamped env.wire raw block) : Twin raw (certified block j) := by
  refine ⟨stamped.index.symm, stamped.validator.symm, ?_⟩
  show List.Forall₂ SameEffect raw.transactions block.transactions
  rw [stamped.transactions]
  exact (Twin.refl raw).transactions

theorem alike_entering (source : BlockSource) (verified : Bool) (bc : Blockchain) :
    Alike (bc.entering source verified) bc :=
  { Alike.refl bc with }

theorem latestBlock_ok : bc.latestBlock = .ok b ↔ bc.chain.getLast? = some b := by
  unfold latestBlock
  cases bc.chain.getLast? <;> simp

theorem preApply_ok (proposed : preApply env now raw bc = .ok block)
    (fresh : raw.stateRoot = none) :
    ∃ verified x, (bc.entering .selfProduced false).checkHeader env now raw = .ok verified ∧
      (bc.entering .selfProduced verified).checkContents env raw = .ok () ∧
      applyUpToRoot env now raw (bc.entering .selfProduced verified) = .ok block.stateRoot x ∧
      Stamped env.wire raw block := by
  unfold preApply at proposed
  split at proposed
  · rename_i ran
    obtain ⟨verified, applied, header, contents, pass2, rfl⟩ := addBlockWithSource_ok ran
    obtain ⟨_, _, structured, _⟩ := checkHeader_ok header
    obtain ⟨computed, x, upTo, settled⟩ := applyBlockPass2_split.mp pass2
    obtain ⟨top, last, root, stamped⟩ :=
      settleStateRoot_fresh (last_upToRoot upTo) fresh structured.hash_eq settled
    obtain rfl : top = block := by
      have found := latestBlock_ok.mp proposed
      exact Option.some.inj (last.symm.trans found)
    exact ⟨verified, x, header, contents, root ▸ upTo, stamped⟩
  · cases proposed

theorem SamePreState.alike (same : SamePreState bc other) (source : BlockSource)
    (verified verified' : Bool) :
    Alike (bc.entering .selfProduced verified) (other.entering source verified') := by
  obtain ⟨_, _, _, rfl⟩ := same
  exact { Alike.refl bc with }

theorem SamePreState.checkTransaction (same : SamePreState bc other) (source : BlockSource)
    (verified verified' : Bool) (work : Working) (tx : Transaction) :
    (other.entering source verified').checkTransaction env work tx =
      (bc.entering .selfProduced verified).checkTransaction env work tx := by
  obtain ⟨_, _, _, rfl⟩ := same
  rfl

theorem SamePreState.checkTransactions (same : SamePreState bc other) (source : BlockSource)
    (verified verified' : Bool) (txs : List Transaction) (work : Working) :
    (other.entering source verified').checkTransactions env txs work =
      (bc.entering .selfProduced verified).checkTransactions env txs work := by
  induction txs generalizing work with
  | nil => rfl
  | cons tx rest ih =>
    unfold Blockchain.checkTransactions
    rw [same.checkTransaction source verified verified']
    split
    · rfl
    · exact ih _

theorem SamePreState.checkContents (same : SamePreState bc other) (source : BlockSource)
    (verified verified' : Bool) (stamped : Stamped env.wire raw block) :
    (other.entering source verified').checkContents env (certified block j) =
      (bc.entering .selfProduced verified).checkContents env raw := by
  have coinbase : (other.entering source verified').checkCoinbase env.forks (certified block j) =
      (bc.entering .selfProduced verified).checkCoinbase env.forks raw := by
    obtain ⟨_, _, _, rfl⟩ := same
    simp only [checkCoinbase, Block.coinbase, certified, stamped.transactions, stamped.validator]
    rfl
  unfold Blockchain.checkContents
  rw [coinbase, show (certified block j).transactions = raw.transactions from stamped.transactions,
    same.checkTransactions source verified verified']

theorem Stamped.validateStructure (stamped : Stamped env.wire raw block)
    {index : Nat} {prevHash : Hash}
    (structured : raw.validateStructure env.wire index prevHash = .ok ()) :
    (certified block j).validateStructure env.wire index prevHash = .ok () := by
  have valid : (certified block j).isValidHash env.wire = raw.isValidHash env.wire := by
    have own := (Block.wellStructured_of_ok structured).hash_eq
    have their : (certified block j).hash = (certified block j).calculateHash env.wire :=
      stamped.hash
    simp only [Block.isValidHash, ← own, ← their, beq_self_eq_true]
  unfold Block.validateStructure at structured ⊢
  rw [valid]
  simpa only [certified, stamped.index, stamped.previousHash, stamped.transactions,
    stamped.merkleRoot] using structured

theorem SamePreState.checkJustification (same : SamePreState bc other) (source : BlockSource)
    (valid : bc.justificationGate env block j = .ok ()) :
    ∃ verified, (other.entering source false).checkJustification env (certified block j) =
      .ok verified := by
  have gate : (other.entering source false).justificationGate env (certified block j) j =
      .ok () := by
    obtain ⟨_, _, _, rfl⟩ := same
    exact valid
  unfold Blockchain.checkJustification
  simp only [show (certified block j).justification = some j from rfl, gate]
  split
  · exact ⟨true, rfl⟩
  · exact ⟨false, rfl⟩

theorem SamePreState.checkProducer (same : SamePreState bc other)
    (stamped : Stamped env.wire raw block) (source : BlockSource) :
    (other.entering source false).checkProducer env.forks (certified block j) =
      (bc.entering .selfProduced false).checkProducer env.forks raw := by
  obtain ⟨_, _, _, rfl⟩ := same
  simp only [Blockchain.checkProducer, certified, stamped.validator]
  rfl

theorem SamePreState.latestBlock (same : SamePreState bc other) (source : BlockSource) :
    (other.entering source false).latestBlock = (bc.entering .selfProduced false).latestBlock := by
  obtain ⟨_, _, _, rfl⟩ := same
  rfl

theorem SamePreState.expectedIndex (same : SamePreState bc other) (source : BlockSource) :
    (other.entering source false).expectedIndex =
      (bc.entering .selfProduced false).expectedIndex := by
  obtain ⟨_, _, _, rfl⟩ := same
  rfl

theorem clock_of_checkHeader {verified : Bool}
    (passed : bc.checkHeader env now raw = .ok verified) : raw.timestamp ≤ now + 15 := by
  unfold Blockchain.checkHeader at passed
  obtain ⟨_, _, passed⟩ := except_bind_ok.mp passed
  obtain ⟨_, _, passed⟩ := except_bind_ok.mp passed
  obtain ⟨_, _, passed⟩ := except_bind_ok.mp passed
  obtain ⟨_, times, -⟩ := except_bind_ok.mp passed
  obtain ⟨_, _, soon⟩ := except_bind_ok.mp times
  exact of_decide_eq_true (require_ok.mp soon)

theorem SamePreState.checkHeader (same : SamePreState bc other)
    (stamped : Stamped env.wire raw block) (source : BlockSource) {verified : Bool}
    (passed : (bc.entering .selfProduced false).checkHeader env now raw = .ok verified)
    (clock : block.timestamp ≤ now' + 15) (valid : bc.justificationGate env block j = .ok ()) :
    ∃ verified', (other.entering source false).checkHeader env now' (certified block j) =
      .ok verified' := by
  obtain ⟨verified', gate⟩ := same.checkJustification source valid
  unfold Blockchain.checkHeader at passed ⊢
  obtain ⟨previous, latest, passed⟩ := except_bind_ok.mp passed
  obtain ⟨_, structured, passed⟩ := except_bind_ok.mp passed
  obtain ⟨_, producer, passed⟩ := except_bind_ok.mp passed
  obtain ⟨_, times, -⟩ := except_bind_ok.mp passed
  obtain ⟨_, since, -⟩ := except_bind_ok.mp times
  have timely : checkTimestamp now' previous (certified block j) = .ok () := by
    refine except_bind_ok.mpr ⟨(), ?_, require_ok.mpr (decide_eq_true clock)⟩
    rw [← since]
    simp only [certified, stamped.timestamp]
  rw [same.latestBlock, same.expectedIndex, same.checkProducer stamped]
  exact ⟨verified', except_bind_ok.mpr ⟨previous, latest,
    except_bind_ok.mpr ⟨(), stamped.validateStructure structured,
      except_bind_ok.mpr ⟨(), producer, except_bind_ok.mpr ⟨(), timely, gate⟩⟩⟩⟩⟩

variable {b' : Block}

theorem trieReady_inputs : TrieReady env.forks b b' (TrieInputs env.forks b b') where
  reads _ _ inputs := inputs
  accounts _ _ _ inputs := { inputs with accounts := rfl }
  stateTrie _ _ _ inputs := { inputs with stateTrie := rfl }

variable {s t : Blockchain}

theorem Tipped.trieInputs (tipped : Tipped b b' s t)
    (outside : reached env.forks.stateInTrie b.index = false) :
    TrieInputs env.forks b b' (rewarded env b.index s) (rewarded env b'.index t) := by
  obtain ⟨_, _, _, frame⟩ := rewarded_frame env b.index s
  obtain ⟨_, _, _, frame'⟩ := rewarded_frame env b'.index t
  rw [frame, frame']
  exact
    { accounts := tipped.alike.accounts
      contracts := tipped.alike.contracts
      nftRegistry := tipped.alike.nftRegistry
      stateTrie := tipped.alike.stateTrie
      last := tipped.last
      last' := tipped.last'
      staking := fun active => by simp [outside] at active }

/-- Reward bookkeeping that the trie does not read. -/
theorem twin_root_within (twin : Twin b b')
    (within : EpochManager.isEpochBoundary b.index = false)
    (outside : reached env.forks.stateInTrie b.index = false) {x : Blockchain} (alike : Alike s t)
    (ran : applyUpToRoot env now b s = .ok computed x) :
    ∃ y, applyUpToRoot env now' b' t = .ok computed y ∧ y.chain.getLast? = some b' := by
  obtain ⟨body, bodyRan, update⟩ := (applyUpToRoot_within within).mp ran
  obtain ⟨body', bodyRan', tipped⟩ :
      ∃ body', applyBody env now' b' t = .ok () body' ∧
        Tipped b b' (pushBlock b body) (pushBlock b' body') :=
    twin_appended twin alike bodyRan
  obtain ⟨y, update', inputs⟩ :=
    (trieReady_inputs.updateTrie twin).follows (tipped.trieInputs outside) update
  exact ⟨y, (applyUpToRoot_within (twin.index ▸ within)).mpr ⟨body', bodyRan', update'⟩,
    inputs.last'⟩

theorem root_of_certified (twin : Twin b b') (ignored : RootIgnoresCertificate env.forks b.index)
    {x : Blockchain} (alike : Alike s t) (ran : applyUpToRoot env now b s = .ok computed x) :
    ∃ y, applyUpToRoot env now' b' t = .ok computed y ∧ y.chain.getLast? = some b' := by
  obtain quiet | ⟨outside, within⟩ := ignored
  · obtain ⟨y, ran', tipped⟩ := twin_upToRoot twin (by simp [quiet]) alike ran
    exact ⟨y, ran', tipped.last'⟩
  · exact twin_root_within twin within outside alike ran

theorem settleStateRoot_met (last : bc.chain.getLast? = some b) :
    ∃ settled, settleStateRoot env b.stateRoot bc = .ok () settled := by
  unfold settleStateRoot
  cases root : b.stateRoot with
  | none => exact ⟨bc, rfl⟩
  | some received =>
    suffices settles : ∃ settled, settleRootOf env b received bc = .ok () settled by
      obtain ⟨settled, ran⟩ := settles
      exact ⟨settled, bind_ok.mpr ⟨bc, bc, rfl, by simpa only [last] using ran⟩⟩
    unfold settleRootOf
    split
    · rw [root]
      exact ⟨_, bind_ok.mpr ⟨bc, bc, rfl, bind_ok.mpr ⟨(), bc, ensure_ok.mpr ⟨by simp, rfl⟩, rfl⟩⟩⟩
    · exact ⟨_, rfl⟩

/-- Whatever valid certificate the proposal gets, every node in this state adds it
and computes the root it carries. -/
def Finalisable (env : Platform) (block : Block) (bc : Blockchain) : Prop :=
  ∀ other now source j, SamePreState bc other → block.timestamp ≤ now + 15 →
    bc.justificationGate env block j = .ok () →
    (∃ after, submit env ⟨now, source, certified block j⟩ other = .ok () after) ∧
      computedRoot env now (certified block j) other = block.stateRoot

def handed (env : Platform) (b : Block) (booked : Blockchain) : List TrieWrite :=
  let bc := rebaseTreasury env.settings booked
  bc.stateWrites env.wire env.forks env.trie (bc.touchedAddresses env.forks env.settings b) b.index

def pendingWrites (env : Platform) (now : Nat) (b : Block) (bc : Blockchain) : List TrieWrite :=
  match applyBody env now b bc with
  | .ok _ body => handed env b (rewarded env b.index (pushBlock b body))
  | .error _ _ => []

/-- The root tells the two runs apart wherever what they write does. -/
def Separates (env : Platform) (now : Nat) (bc : Blockchain) (b b' : Block) : Prop :=
  computedRoot env now b bc = computedRoot env now b' bc →
    pendingWrites env now b bc = pendingWrites env now b' bc

theorem finalisable_of_ignored (fresh : raw.stateRoot = none)
    (proposed : preApply env now raw bc = .ok block)
    (ignored : RootIgnoresCertificate env.forks raw.index) : Finalisable env block bc := by
  intro other now' source j same clock valid
  obtain ⟨verified, x, header, contents, upTo, stamped⟩ := preApply_ok proposed fresh
  obtain ⟨verified', header'⟩ := same.checkHeader stamped source header clock valid
  have contents' : (other.entering source verified').checkContents env (certified block j) =
      .ok () := by
    rw [same.checkContents source verified verified' stamped, contents]
  have again {t : Blockchain} (alike : Alike (bc.entering .selfProduced verified) t) :
      ∃ y, applyUpToRoot env now' (certified block j) t = .ok block.stateRoot y ∧
        y.chain.getLast? = some (certified block j) :=
    root_of_certified stamped.twin ignored alike upTo
  constructor
  · obtain ⟨y, upTo', last⟩ := again (same.alike source verified verified')
    obtain ⟨settled, settle⟩ : ∃ settled,
        settleStateRoot env (certified block j).stateRoot y = .ok () settled :=
      settleStateRoot_met last
    exact ⟨_, addBlockWithSource_of header' contents'
      (applyBlockPass2_split.mpr ⟨_, y, upTo', settle⟩)⟩
  · have alike : Alike (bc.entering .selfProduced verified) other := by
      obtain ⟨_, _, _, rfl⟩ := same
      exact { Alike.refl bc with }
    obtain ⟨y, upTo', -⟩ := again alike
    unfold computedRoot
    rw [upTo']

theorem epochStateValueBytes_recordBlock (w : Wire) (m : EpochManager) (reward : Nat) :
    epochStateValueBytes w (m.recordBlock reward).currentEpoch ≠
      epochStateValueBytes w m.currentEpoch := by
  intro same
  simp only [epochStateValueBytes, EpochManager.recordBlock, append_assoc,
    append_cancel_left_eq] at same
  have counters := (append_inj (append_inj same (by simp [beBytes, length_leBytes])).2
    (by simp [beBytes, length_leBytes])).1
  have low := congrArg head? (reverse_injective counters)
  simp only [leBytes, List.head?_cons, Option.some.injEq] at low
  have bytes := congrArg UInt8.toNat low
  simp only [UInt8.toNat_ofNat', wrapAdd64] at bytes
  omega

theorem stakingWrites_epoch (same : s.stakingWrites env.wire = t.stakingWrites env.wire) :
    epochStateValueBytes env.wire s.epochManager.currentEpoch =
      epochStateValueBytes env.wire t.epochManager.currentEpoch := by
  have last := congrArg getLast? same
  simpa [stakingWrites] using last

/-- Over equal accounts and registries, equal writes come from equal staking ledgers. -/
theorem stakingWrites_of_stateWrites (twin : Twin b b') (accounts : s.accounts = t.accounts)
    (contracts : s.contracts = t.contracts) (nfts : s.nftRegistry = t.nftRegistry)
    (inside : reached env.forks.stateInTrie b.index = true)
    (same : s.stateWrites env.wire env.forks env.trie
        (s.touchedAddresses env.forks env.settings b) b.index =
      t.stateWrites env.wire env.forks env.trie
        (t.touchedAddresses env.forks env.settings b') b'.index) :
    s.stakingWrites env.wire = t.stakingWrites env.wire := by
  have touched : s.touchedAddresses env.forks env.settings b =
      t.touchedAddresses env.forks env.settings b' := by
    simp only [touchedAddresses, twin.touchedByTransactions, twin.validator, twin.index, accounts]
  simpa only [stateWrites, touched, ← twin.index, inside, if_true, accountWrites, nativeWrites,
    accounts, contracts, nfts, append_assoc, append_cancel_left_eq,
    append_cancel_right_eq] using same

theorem epoch_of_handed (twin : Twin b b') (inside : reached env.forks.stateInTrie b.index = true)
    (same : handed env b s = handed env b' t) (accounts : s.accounts = t.accounts)
    (contracts : s.contracts = t.contracts) (nfts : s.nftRegistry = t.nftRegistry)
    (last : s.chain.getLast? = some b) (last' : t.chain.getLast? = some b') :
    epochStateValueBytes env.wire s.epochManager.currentEpoch =
      epochStateValueBytes env.wire t.epochManager.currentEpoch := by
  have rebased : (rebaseTreasury env.settings s).accounts =
      (rebaseTreasury env.settings t).accounts := by
    simp only [rebaseTreasury, last, last', Option.map_some, twin.index, accounts]
  have entries := stakingWrites_epoch
    (stakingWrites_of_stateWrites twin rebased contracts nfts inside same)
  exact entries

theorem handed_ne (twin : Twin b b') (tipped : Tipped b b' s t) (bare : b.justification = none)
    (cert : b'.justification = some j) (booked : reached env.forks.rewardApplyPath b.index = true)
    (inside : reached env.forks.stateInTrie b.index = true) :
    handed env b (rewarded env b.index s) ≠ handed env b' (rewarded env b'.index t) := by
  rw [← twin.index, rewarded, rewarded, if_pos booked, if_pos booked,
    applyReward_uncertified tipped.last bare, applyReward_certified tipped.last' cert]
  intro same
  have counters := epoch_of_handed twin inside same tipped.alike.accounts tipped.alike.contracts
    tipped.alike.nftRegistry tipped.last tipped.last'
  rw [tipped.alike.epochManager] at counters
  exact epochStateValueBytes_recordBlock env.wire _ _ counters.symm

theorem pendingWrites_ne (twin : Twin b b')
    (within : EpochManager.isEpochBoundary b.index = false)
    (ran : applyUpToRoot env now b s = .ok computed after) (bare : b.justification = none)
    (cert : b'.justification = some j) (booked : reached env.forks.rewardApplyPath b.index = true)
    (inside : reached env.forks.stateInTrie b.index = true) :
    pendingWrites env now b s ≠ pendingWrites env now b' s := by
  obtain ⟨body, bodyRan, -⟩ := (applyUpToRoot_within within).mp ran
  obtain ⟨body', bodyRan', tipped⟩ : ∃ body', applyBody env now b' s = .ok () body' ∧
      Tipped b b' (pushBlock b body) (pushBlock b' body') :=
    twin_appended twin (Alike.refl s) bodyRan
  unfold pendingWrites
  rw [bodyRan, bodyRan']
  exact handed_ne twin tipped bare cert booked inside

theorem computedRoot_of_preApply (fresh : raw.stateRoot = none)
    (proposed : preApply env now raw bc = .ok block) :
    computedRoot env now raw bc = block.stateRoot ∧
      ∃ y, applyUpToRoot env now raw bc = .ok block.stateRoot y := by
  obtain ⟨verified, x, -, -, upTo, -⟩ := preApply_ok proposed fresh
  obtain ⟨y, ran, -⟩ : ∃ y, applyUpToRoot env now raw bc = .ok block.stateRoot y ∧
      Tipped raw raw x y :=
    twin_upToRoot (Twin.refl raw) (fun _ => rfl) (alike_entering _ _ bc) upTo
  refine ⟨?_, y, ran⟩
  unfold computedRoot
  rw [ran]

theorem ignored_of_finalisable (fresh : raw.stateRoot = none) (bare : raw.justification = none)
    (proposed : preApply env now raw bc = .ok block)
    (within : EpochManager.isEpochBoundary raw.index = false)
    (valid : bc.justificationGate env block j = .ok ())
    (separates : Separates env now bc raw (certified block j))
    (finalises : Finalisable env block bc) : RootIgnoresCertificate env.forks raw.index := by
  obtain ⟨verified, _, header, -, -, stamped⟩ := preApply_ok proposed fresh
  obtain ⟨root, y, ran⟩ := computedRoot_of_preApply fresh proposed
  have clock : block.timestamp ≤ now + 15 := by
    rw [stamped.timestamp]
    exact clock_of_checkHeader header
  obtain ⟨-, met⟩ := finalises bc now .selfProduced j ⟨_, _, _, rfl⟩ clock valid
  have equal := separates (root.trans met.symm)
  by_contra ignored
  simp only [RootIgnoresCertificate, within, and_true, not_or, Bool.not_eq_false] at ignored
  exact pendingWrites_ne stamped.twin within ran bare rfl ignored.1 ignored.2 equal

/-- Which proposals finalise: all, at heights where the root cannot depend on the
certificate; between epoch boundaries no others, if the trie keeps the two runs'
writes apart. -/
theorem proposal_finalises_iff (fresh : raw.stateRoot = none) (bare : raw.justification = none)
    (proposed : preApply env now raw bc = .ok block) :
    (RootIgnoresCertificate env.forks raw.index → Finalisable env block bc) ∧
      ∀ j, EpochManager.isEpochBoundary raw.index = false →
        bc.justificationGate env block j = .ok () →
        Separates env now bc raw (certified block j) →
        (Finalisable env block bc ↔ RootIgnoresCertificate env.forks raw.index) := by
  refine ⟨finalisable_of_ignored fresh proposed, ?_⟩
  intro j within valid separates
  exact ⟨ignored_of_finalisable fresh bare proposed within valid separates,
    finalisable_of_ignored fresh proposed⟩

theorem updateTrie_rooted (last : bc.chain.getLast? = some b)
    (past : stateRootForkHeight ≤ b.index) (ran : updateTrie env bc = .ok computed after) :
    computed.isSome = true := by
  unfold updateTrie at ran
  split at ran
  · rename_i inner
    cases ran
    have inner := get_bind_ok (modify_bind_ok inner)
    have height : (rebaseTreasury env.settings bc).height = b.index := by
      simp only [Blockchain.height, rebaseTreasury, last, Option.map_some, Option.getD_some]
    have top : (rebaseTreasury env.settings bc).chain.getLast? = some b := last
    rw [top, height] at inner
    cases present : (rebaseTreasury env.settings bc).stateTrie with
    | none =>
      rw [present] at inner
      obtain ⟨low, -⟩ := ensure_bind_ok inner
      have low := of_decide_eq_true low
      simp only [satAdd64, satAdd, u64Max, stateRootForkHeight] at low past
      omega
    | some trie =>
      rw [present] at inner
      obtain ⟨root, _, _, done⟩ := bind_ok.mp (modify_bind_ok inner)
      obtain ⟨rfl, -⟩ := pure_ok.mp done
      rfl
  · cases ran

theorem applyUpToRoot_rooted (past : stateRootForkHeight ≤ b.index)
    (ran : applyUpToRoot env now b bc = .ok computed after) : computed.isSome = true := by
  obtain ⟨body, booked, -, bookRan, update⟩ := applyUpToRoot_ok.mp ran
  have last := getLast?_pushBlock b body
  generalize pushBlock b body = start at last bookRan
  have kept : booked.chain = start.chain :=
    congrArg Outer.chain ((keeps_bookkeeping env).ok bookRan)
  exact updateTrie_rooted (kept ▸ last) past update

/-- Past both forks the pre-apply of a fresh block never gets through: it asks for the
root it is there to find. -/
theorem preApply_refused (fresh : raw.stateRoot = none)
    (past : stateRootForkHeight ≤ raw.index)
    (speculative : reached env.forks.speculativeApply raw.index = true) :
    preApply env now raw bc ≠ .ok block := by
  unfold preApply
  split
  · rename_i ran
    obtain ⟨verified, applied, -, -, pass2, rfl⟩ := addBlockWithSource_ok ran
    obtain ⟨computed, x, upTo, settled⟩ := applyBlockPass2_split.mp pass2
    have last := last_upToRoot upTo
    obtain ⟨root, rfl⟩ := Option.isSome_iff_exists.mp (applyUpToRoot_rooted past upTo)
    have settled := get_bind_ok settled
    simp only [last, settleRootOf, if_pos past, fresh, stampMissingRoot] at settled
    obtain ⟨allowed, -⟩ := ensure_bind_ok (get_bind_ok settled)
    simp [speculative] at allowed
  · simp

theorem speculativeApply_refused {root : Bytes} (fresh : raw.stateRoot = none)
    (past : stateRootForkHeight ≤ raw.index)
    (speculative : reached env.forks.speculativeApply raw.index = true) :
    speculativeApplyForStateRoot env now raw bc ≠ .ok root := by
  intro found
  obtain ⟨block, proposed, -⟩ := except_bind_ok.mp found
  exact preApply_refused fresh past speculative proposed

end

/-- The tree by its leaves; the root over them is looked up. -/
def leafTrie (roots : List (List (Bytes × Bytes) × Hash)) : TrieOps where
  insert key value := modify fun t => { t with nodes := t.nodes.insert key value }
  delete key := modify fun t => { t with nodes := t.nodes.erase key }
  commit version := do
    let t ← get
    let known := roots.find? fun entry => t.nodes.entries.length == entry.1.length &&
      entry.1.all fun leaf => t.nodes.lookup leaf.1 == some leaf.2
    let root := (known.bind fun entry => hexDecode entry.2).getD t.root
    set { t with root, version }
    pure root
  contractsHash _ := []
  nftHash _ := []

def soloBytes : Bytes := (hexDecode (plainAddress asciiText firstValidator)).getD []

def keyDigests : List (Bytes × Hash) :=
  [(soloBytes, "d6f781065c489e6513f45bc3dab82156055056d393c42f49a4defec22b5ee73f"),
   (textBytes "sentrix/v1/pending_rewards/" ++ soloBytes,
    "23b66b81995af6ac38987b9f8b6350cd0a03cbd70603b9b9379ed3d47a7b9b7e"),
   (textBytes "sentrix/v1/liveness/" ++ soloBytes,
    "236184120e39ba14e729fe9511ad4282bc8c167312a07e1e2ef19ae6e770ac7f"),
   (textBytes "sentrix/v1/total_minted",
    "23177981fe3bb802fd5c60a307e3517bcf0d66671ad612c2350b7786cf6a09fb"),
   (textBytes "sentrix/v1/epoch_state",
    "55e6f2fec9d7f8e06871fd505922c600fea75974cb14941bdc4519da7877bac1"),
   (textBytes "7e5f4552091a69125d5dfcb7b8c2659029395bdf\n",
    "a9d764d5b892640fac6fab8bc39bfe63cd429188520570d271f540f0a4d636d5")]

def soloWire (digests : List (String × Hash)) : Wire :=
  { tableWire digests with
    sha256Hex bytes :=
      ((keyDigests.find? (·.1 == bytes)).map (·.2)).getD (knownDigests digests bytes) }

def soloEpoch (rewards blocks : Nat) : EpochInfo where
  epochNumber := 0
  startHeight := 0
  endHeight := epochLength - 1
  validatorSet := [firstValidator]
  totalStaked := 1500000000000
  totalRewards := rewards
  totalBlocksProduced := blocks

def accountLeaf (w : Wire) (balance : Nat) : Bytes × Bytes :=
  (addressToKey w firstValidator, accountValueBytes balance 0)

def bareLeaves (w : Wire) : List (Bytes × Bytes) :=
  [accountLeaf w 100000000,
   (validatorLivenessKey w firstValidator, livenessValueBytes 0 0 0 false),
   (totalMintedKey w, beBytes 100000000),
   (epochStateKey w, epochStateValueBytes w (soloEpoch 0 0))]

def bookedLeaves (w : Wire) : List (Bytes × Bytes) :=
  [accountLeaf w 100000000,
   (validatorPendingRewardsKey w firstValidator, beBytes 100000000),
   (validatorLivenessKey w firstValidator, livenessValueBytes 1 0 0 false),
   (totalMintedKey w, beBytes 100000000),
   (epochStateKey w, epochStateValueBytes w (soloEpoch 100000000 1))]

def soloRoots (w : Wire) : List (List (Bytes × Bytes) × Hash) :=
  [([accountLeaf w 100000000], "e6dc0af7c6247577528cf9ba6f99c0271a54ea518ca8b275b2a1104b1101146b"),
   (bareLeaves w, "3faae706a2d89ee5294f54cb679c9149d3aff3c17b5c7a02fef543c99a7b18ae"),
   (bookedLeaves w, "723dcee773e718b944d3fec8d3567a8656cfcd5cec8c6387c6e8325a58b81161")]

def rootOf (hex : Hash) : Bytes := (hexDecode hex).getD []

def soloGenesis : Blockchain :=
  { seedChain (bondedSet [firstValidator]) with
    epochManager := ⟨soloEpoch 0 0, [], 100⟩
    stateTrie := some ⟨rootOf "cfd65818c2d271d133a0d6a3f4646e136db88ad0e013315f7f499daef878c64d", 0,
      false, ∅⟩ }

def soloPlatform (forks : Forks) : Platform :=
  { plainPlatform (soloWire firstDigests) with
    forks, trie := leafTrie (soloRoots (soloWire firstDigests)) }

/-- Speculative apply and reward bookkeeping from genesis, with and without the
staking ledgers in the trie. -/
def stakingPlatform : Platform :=
  soloPlatform { Forks.off with speculativeApply := 0, rewardApplyPath := 0, stateInTrie := 0 }

def rewardPathPlatform : Platform :=
  soloPlatform { Forks.off with speculativeApply := 0, rewardApplyPath := 0 }

def bareFirst : Block :=
  stampRoot (rootOf "3faae706a2d89ee5294f54cb679c9149d3aff3c17b5c7a02fef543c99a7b18ae") firstBlock

def plainFirst : Block :=
  stampRoot (rootOf "e6dc0af7c6247577528cf9ba6f99c0271a54ea518ca8b275b2a1104b1101146b") firstBlock

def firstVote : BlockJustification :=
  ⟨1, 0, firstBlock.hash, [⟨firstValidator, firstBlock.hash, rootOf
    ("88fb6ef712478c6a25ac72d41a4d01ec1d9b982e92f1de3d0018a3757a539327" ++
      "1b703ff9c3409fea3169e769febc2621a4bf342db939f646a03655121b6e4cc301"), 1500000000000⟩]⟩

theorem preApply_first :
    preApply stakingPlatform 1700000001 firstBlock soloGenesis = .ok bareFirst :=
  toOption_eq_some (by decide +kernel)

theorem firstVote_valid :
    soloGenesis.justificationGate stakingPlatform bareFirst firstVote = .ok () :=
  toOption_eq_some (by decide +kernel)

theorem computedRoot_first :
    computedRoot stakingPlatform 1700000001 (certified bareFirst firstVote) soloGenesis =
      some (rootOf "723dcee773e718b944d3fec8d3567a8656cfcd5cec8c6387c6e8325a58b81161") := by
  decide +kernel

theorem bareFirst_moved : bareFirst.stateRoot ≠
    some (rootOf "723dcee773e718b944d3fec8d3567a8656cfcd5cec8c6387c6e8325a58b81161") := by
  decide

/-- At a speculative-apply height the first proposal and a valid certificate for it give
another root than the one proposed. -/
theorem certificate_moves_root :
    reached stakingPlatform.forks.speculativeApply firstBlock.index = true ∧
      preApply stakingPlatform 1700000001 firstBlock soloGenesis = .ok bareFirst ∧
      soloGenesis.justificationGate stakingPlatform bareFirst firstVote = .ok () ∧
      computedRoot stakingPlatform 1700000001 (certified bareFirst firstVote) soloGenesis ≠
        bareFirst.stateRoot := by
  refine ⟨by decide, preApply_first, firstVote_valid, ?_⟩
  rw [computedRoot_first]
  exact bareFirst_moved.symm

/-- With rewards booked outside the trie the first proposal finalises; with the staking
ledgers inside it does not. -/
theorem first_proposals_finalise :
    Finalisable rewardPathPlatform plainFirst soloGenesis ∧
      ¬ Finalisable stakingPlatform bareFirst soloGenesis := by
  have plain : preApply rewardPathPlatform 1700000001 firstBlock soloGenesis = .ok plainFirst :=
    toOption_eq_some (by decide +kernel)
  have separates : Separates stakingPlatform 1700000001 soloGenesis firstBlock
      (certified bareFirst firstVote) := by
    intro same
    rw [(computedRoot_of_preApply rfl preApply_first).1, computedRoot_first] at same
    exact absurd same bareFirst_moved
  constructor
  · exact (proposal_finalises_iff rfl rfl plain).1 (.inr ⟨by decide, by decide⟩)
  · rw [(proposal_finalises_iff rfl rfl preApply_first).2 firstVote (by decide) firstVote_valid
      separates]
    unfold RootIgnoresCertificate
    decide

theorem speculativeApply_late :
    reached stakingPlatform.forks.speculativeApply 100000 = true ∧ ∀ root,
      speculativeApplyForStateRoot stakingPlatform 1700000001 { firstBlock with index := 100000 }
        { soloGenesis with chain := [{ firstBlock with index := 99999 }] } ≠ .ok root :=
  ⟨by decide, fun _ => speculativeApply_refused rfl (by decide) (by decide)⟩

end Blockchain
end SentrixCore
