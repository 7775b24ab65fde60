import Sentrix.Core.Executor

/-!
The justification gate: what an accepted peer block proves about its
finalization, and whose stake the strict rule counts.
-/
namespace SentrixCore
open MachineWords Effects SentrixPrimitives SentrixStaking SentrixMessages List

namespace Blockchain

def SignedBy (votes : Recovery) (chainId : Nat) (j : BlockJustification) (h : Hash)
    (p : SignedPrecommit) : Prop :=
  ∃ signer, votes.recoverSigner
      (Precommit.signingPayloadForHeight j.height j.round (some h) chainId) p.signature =
    some signer ∧ votes.unicode.lowercase signer = votes.unicode.lowercase p.validator

theorem verifiedPrecommit_ok {votes : Recovery} {g : GateView} {j : BlockJustification}
    {p : SignedPrecommit} {added : Nat} (passed : verifiedPrecommit votes g j p = .ok added) :
    SignedBy votes g.chainId j j.blockHash p ∧ added = g.registry.voteStake p.validator := by
  unfold verifiedPrecommit at passed
  cases known : g.registry.getValidator p.validator with
  | none => simp [known] at passed
  | some val =>
    cases recovered : votes.recoverSigner
      (Precommit.signingPayloadForHeight j.height j.round (some j.blockHash) g.chainId)
      p.signature with
    | none => simp [known, recovered] at passed
    | some signer =>
      by_cases same : votes.unicode.lowercase signer = votes.unicode.lowercase p.validator
      · simp only [known, recovered, same, ne_eq, not_true_eq_false, if_false,
          Except.ok.injEq] at passed
        constructor
        · exact ⟨signer, recovered, same⟩
        · simp [StakeRegistry.voteStake, known, passed]
      · simp [known, recovered, same] at passed

theorem verifiedStake_ok {votes : Recovery} {g : GateView} {j : BlockJustification} :
    ∀ {entries : List SignedPrecommit} {seen : List Address} {stake total : Nat},
      verifiedStake votes g j entries seen stake = .ok total →
      (entries.map (·.validator)).Nodup ∧ (∀ p ∈ entries, p.validator ∉ seen) ∧
        (∀ p ∈ entries, SignedBy votes g.chainId j j.blockHash p) ∧
        total ≤ stake + (entries.map fun p => g.registry.voteStake p.validator).sum := by
  intro entries
  induction entries with
  | nil =>
    intro seen stake total passed
    simp only [verifiedStake, Except.ok.injEq] at passed
    simp [passed]
  | cons p rest ih =>
    intro seen stake total passed
    unfold verifiedStake at passed
    by_cases known : p.validator ∈ seen
    · simp [known] at passed
    · simp only [contains_iff_mem, known, if_false] at passed
      split at passed
      · cases passed
      · rename_i added single
        obtain ⟨signed, weight⟩ := verifiedPrecommit_ok single
        obtain ⟨distinct, fresh, others, bounded⟩ := ih passed
        have fitted : satAdd64 stake added ≤ stake + added := Nat.min_le_left _ _
        constructor
        · simp only [map_cons, nodup_cons, mem_map, not_exists, not_and]
          constructor
          · intro q member same
            exact fresh q member (by simp [same])
          · exact distinct
        · refine ⟨?_, ?_, ?_⟩
          · intro q member
            rcases List.mem_cons.mp member with rfl | later
            · exact known
            · intro old
              exact fresh q later (mem_cons_of_mem _ old)
          · intro q member
            rcases List.mem_cons.mp member with rfl | later
            · exact signed
            · exact others q later
          · simp only [map_cons, sum_cons]
            omega

theorem strictGate_ok {votes : Recovery} {g : GateView} {b : Block} {j : BlockJustification}
    {u : Unit} (passed : strictGate votes g b j = .ok u) :
    j.blockHash = b.hash ∧ g.registry.totalActiveStake ≠ 0 ∧
      ∃ verified, verifiedStake votes g j j.precommits [] 0 = .ok verified ∧
        supermajorityThreshold g.registry.totalActiveStake ≤ verified := by
  unfold strictGate at passed
  obtain ⟨_, named, passed⟩ := except_bind_ok.mp passed
  obtain ⟨verified, counted, passed⟩ := except_bind_ok.mp passed
  obtain ⟨_, staked, passed⟩ := except_bind_ok.mp passed
  have enough := require_ok.mp passed
  simp only [require_ok, beq_iff_eq, bne_iff_ne, ne_eq] at named staked
  exact ⟨named, staked, verified, counted, by simpa using enough⟩

theorem legacyGate_ok {g : GateView} {j : BlockJustification} {u : Unit} :
    legacyGate g j = .ok u ↔ g.registry.totalActiveStake = 0 ∨
      j.hasSupermajority g.registry.totalActiveStake = true := by
  unfold legacyGate
  rw [require_ok]
  simp

theorem checkJustification_ok {env : Platform} {bc : Blockchain} {b : Block}
    {j : BlockJustification} {verified : Bool} (gated : bc.gated env = true)
    (carried : b.justification = some j) (passed : bc.checkJustification env b = .ok verified) :
    bc.justificationGate env b j = .ok () := by
  unfold checkJustification at passed
  rw [carried] at passed
  simp only [gated, if_true] at passed
  cases gate : bc.justificationGate env b j with
  | error e => simp [gate, Except.map] at passed
  | ok u => rfl

/-- The supermajority test itself, which a zero active stake never passes. -/
def PassesGate (env : Platform) (bc : Blockchain) (b : Block) (j : BlockJustification) : Prop :=
  if reached env.forks.strictJustification bc.expectedIndex then
    strictGate env.votes bc.gateView b j = .ok ()
  else j.hasSupermajority bc.stakeRegistry.totalActiveStake = true

def Finalized (env : Platform) (bc : Blockchain) (b : Block) : Prop :=
  ∃ j, b.justification = some j ∧ j.blockHash = b.hash ∧ j.height = b.index ∧
    bc.PassesGate env b j

/-- A justification is there and names the block's height. Before the strict
fork the code compares no hash either, and waves everything through while
no stake is active. -/
def JustifiesItself (env : Platform) (bc : Blockchain) (b : Block) : Prop :=
  ∃ j, b.justification = some j ∧ j.height = b.index ∧
    (reached env.forks.strictJustification bc.expectedIndex = false →
      j.blockHash = b.hash ∧ bc.stakeRegistry.totalActiveStake ≠ 0)

theorem gateView_entering (source : BlockSource) (verified : Bool) (bc : Blockchain) :
    (bc.entering source verified).gateView = bc.gateView := rfl

theorem justificationGate_entering (env : Platform) (source : BlockSource) (verified : Bool)
    (bc : Blockchain) (b : Block) (j : BlockJustification) :
    (bc.entering source verified).justificationGate env b j = bc.justificationGate env b j := by
  unfold justificationGate
  rw [gateView_entering]
  rfl

theorem checkHeader_gate {env : Platform} {now : Nat} {bc : Blockchain} {b : Block}
    {j : BlockJustification} {verified : Bool} (authz : env.settings.replayBypassAuthz = false)
    (voyager : bc.voyagerModeFor env.forks bc.expectedIndex = true)
    (carried : b.justification = some j)
    (passed : (bc.entering .peer false).checkHeader env now b = .ok verified) :
    bc.justificationGate env b j = .ok () := by
  obtain ⟨_, _, _, gate⟩ := checkHeader_ok passed
  have gated : (bc.entering .peer false).gated env = true := by
    show (!env.settings.replayBypassAuthz && true &&
      bc.voyagerModeFor env.forks bc.expectedIndex) = true
    simp [authz, voyager]
  have passedGate := checkJustification_ok gated carried gate
  rw [justificationGate_entering] at passedGate
  exact passedGate

/-- An accepted peer block is finalized exactly when it justifies itself: the
gate is skipped for a block without justification, and no height is compared. -/
theorem peer_block_finalized_iff {env : Platform} {now : Nat} {bc after : Blockchain} {b : Block}
    (authz : env.settings.replayBypassAuthz = false)
    (voyager : bc.voyagerModeFor env.forks bc.expectedIndex = true)
    (accepted : addBlockFromPeer env now b bc = .ok () after) :
    bc.Finalized env b ↔ bc.JustifiesItself env b := by
  obtain ⟨verified, _, header, _⟩ := addBlockWithSource_ok accepted
  constructor
  · intro finalized
    obtain ⟨j, carried, named, placed, passed⟩ := finalized
    refine ⟨j, carried, placed, ?_⟩
    intro relaxed
    unfold PassesGate at passed
    rw [if_neg (by simp [relaxed])] at passed
    constructor
    · exact named
    · intro unstaked
      simp [BlockJustification.hasSupermajority, unstaked] at passed
  · intro justified
    obtain ⟨j, carried, placed, relaxed⟩ := justified
    have gate := checkHeader_gate authz voyager carried header
    unfold justificationGate at gate
    by_cases strict : reached env.forks.strictJustification bc.expectedIndex = true
    · rw [if_pos strict] at gate
      refine ⟨j, carried, (strictGate_ok gate).1, placed, ?_⟩
      unfold PassesGate
      rw [if_pos strict]
      exact gate
    · obtain ⟨named, staked⟩ := relaxed (by simpa using strict)
      rw [if_neg strict] at gate
      refine ⟨j, carried, named, placed, ?_⟩
      unfold PassesGate
      rw [if_neg strict]
      exact (legacyGate_ok.mp gate).resolve_left staked

def justifiedFirst (height : Nat) (signature : Bytes) (signer : Address) (weight : Nat) : Block :=
  { firstBlock with
    justification := some ⟨height, 0, firstBlock.hash, [⟨signer, firstBlock.hash, signature, weight⟩]⟩ }

theorem first_block_finalized :
    ∃ after, addBlockFromPeer (plainPlatform (tableWire firstDigests)) 1700000001
        (justifiedFirst 1 [] firstValidator minSelfStake) (seedChain (bondedSet [firstValidator])) =
          .ok () after ∧
      (seedChain (bondedSet [firstValidator])).Finalized (plainPlatform (tableWire firstDigests))
        (justifiedFirst 1 [] firstValidator minSelfStake) := by
  have runs : succeeds (addBlockFromPeer (plainPlatform (tableWire firstDigests)) 1700000001
      (justifiedFirst 1 [] firstValidator minSelfStake))
      (seedChain (bondedSet [firstValidator])) = true := by decide +kernel
  obtain ⟨_, after, ran⟩ := succeeds_iff.mp runs
  have staked : (bondedSet [firstValidator]).totalActiveStake ≠ 0 := by decide
  refine ⟨after, ran, ?_⟩
  apply (peer_block_finalized_iff (by decide) (by decide) ran).mpr
  exact ⟨_, rfl, rfl, fun _ => ⟨rfl, staked⟩⟩

/-- Accepted from a peer under BFT with no justification at all. -/
theorem unjustified_block_accepted :
    (plainPlatform (tableWire firstDigests)).settings.replayBypassAuthz = false ∧
    (seedChain (bondedSet [firstValidator])).voyagerModeFor Forks.off 1 = true ∧
    (∃ after, addBlockFromPeer (plainPlatform (tableWire firstDigests)) 1700000001 firstBlock
      (seedChain (bondedSet [firstValidator])) = .ok () after) ∧
    ¬ (seedChain (bondedSet [firstValidator])).Finalized (plainPlatform (tableWire firstDigests))
      firstBlock := by
  have runs : succeeds (addBlockFromPeer (plainPlatform (tableWire firstDigests)) 1700000001
      firstBlock) (seedChain (bondedSet [firstValidator])) = true := by decide +kernel
  obtain ⟨_, after, ran⟩ := succeeds_iff.mp runs
  refine ⟨by decide, by decide, ⟨after, ran⟩, ?_⟩
  intro finalized
  obtain ⟨j, carried, _⟩ := finalized
  simp [firstBlock] at carried

def activeStake (reg : StakeRegistry) : Nat :=
  (reg.activeSet.map reg.voteStake).sum

/-- Some set of active validators holds a supermajority and each of them signed
a precommit for this block. -/
def SignedByActiveQuorum (votes : Recovery) (g : GateView) (b : Block) (j : BlockJustification) :
    Prop :=
  ∃ signers : Finset Address, (∀ v ∈ signers, v ∈ g.registry.activeSet ∧
      ∃ p ∈ j.precommits, p.validator = v ∧ SignedBy votes g.chainId j b.hash p) ∧
    supermajorityThreshold (activeStake g.registry) ≤ ∑ v ∈ signers, g.registry.voteStake v

/-- A justification that the strict rule lets through is signed by an active quorum when
all the validators it cites are active. -/
theorem strict_gate_sound {env : Platform} {bc : Blockchain} {b : Block} {j : BlockJustification}
    (strict : reached env.forks.strictJustification bc.expectedIndex = true)
    (passed : bc.justificationGate env b j = .ok ()) (fits : activeStake bc.stakeRegistry ≤ u64Max)
    (active : ∀ p ∈ j.precommits, p.validator ∈ bc.stakeRegistry.activeSet) :
    SignedByActiveQuorum env.votes bc.gateView b j := by
  unfold justificationGate at passed
  rw [if_pos strict] at passed
  obtain ⟨named, _, verified, counted, enough⟩ := strictGate_ok passed
  obtain ⟨distinct, _, signed, bounded⟩ := verifiedStake_ok counted
  rw [named] at signed
  refine ⟨(j.precommits.map (·.validator)).toFinset, ?_, ?_⟩
  · intro v member
    obtain ⟨p, cited, rfl⟩ := List.mem_map.mp (List.mem_toFinset.mp member)
    exact ⟨active p cited, p, cited, rfl, signed p cited⟩
  · rw [sum_toFinset _ distinct, map_map]
    rw [show bc.gateView.registry.totalActiveStake = activeStake bc.gateView.registry from
      StakeRegistry.totalActiveStake_eq_sum fits] at enough
    rw [Nat.zero_add] at bounded
    exact enough.trans bounded

def firstSignature : Bytes :=
  signatureBytes 0x88fb6ef712478c6a25ac72d41a4d01ec1d9b982e92f1de3d0018a3757a539327
    0x1b703ff9c3409fea3169e769febc2621a4bf342db939f646a03655121b6e4cc3 1

def secondSignature : Bytes :=
  signatureBytes 0xa12a09d32b670ff8805089478be5f756b5086f8d84a8444afa7cfe4cfe7694b6
    0x225e1c4bb17ab4be082513e430c16ca73e6c9e6e269cf65bdc2672af45a03b2f 1

def strictPlatform : Platform :=
  { plainPlatform (tableWire firstDigests) with
    forks := { Forks.off with strictJustification := 1 }
    votes.recover := fun payload signature =>
      if payload = Precommit.signingPayload 1 0 (some firstBlock.hash) then
        if signature = firstSignature then some firstValidator
        else if signature = secondSignature then some secondValidator else none
      else none }

def jailedSecond : StakeRegistry :=
  { bondedSet [firstValidator] with
    validators := (bondedSet [firstValidator]).validators.insert secondValidator
      { bonded secondValidator with selfStake := 2 * minSelfStake, isJailed := true, jailUntil := 600 } }

def firstJustification (signature : Bytes) (signer : Address) : BlockJustification :=
  ⟨1, 0, firstBlock.hash, [⟨signer, firstBlock.hash, signature, 0⟩]⟩

theorem active_signer_suffices :
    SignedByActiveQuorum strictPlatform.votes (seedChain jailedSecond).gateView firstBlock
      (firstJustification firstSignature firstValidator) := by
  have passed : (seedChain jailedSecond).justificationGate strictPlatform firstBlock
      (firstJustification firstSignature firstValidator) = .ok () := by decide
  exact strict_gate_sound (by decide) passed (by decide) (by decide)

/-- One jailed validator, and nobody else, signs: the strict gate lets it through. -/
theorem jailed_signer_passes_gate :
    reached strictPlatform.forks.strictJustification (seedChain jailedSecond).expectedIndex = true ∧
    (seedChain jailedSecond).justificationGate strictPlatform firstBlock
      (firstJustification secondSignature secondValidator) = .ok () ∧
    jailedSecond.activeSet = jailedSecond.computeActiveSet ∧
    ¬ SignedByActiveQuorum strictPlatform.votes (seedChain jailedSecond).gateView firstBlock
      (firstJustification secondSignature secondValidator) := by
  refine ⟨by decide, by decide, by decide, ?_⟩
  rintro ⟨signers, members, enough⟩
  have nobody : signers = ∅ := by
    apply Finset.eq_empty_of_forall_notMem
    intro v member
    obtain ⟨active, p, cited, rfl, _⟩ := members v member
    cases List.mem_singleton.mp cited
    exact absurd active (by decide)
  rw [nobody] at enough
  exact absurd enough (by decide)

end Blockchain
end SentrixCore
