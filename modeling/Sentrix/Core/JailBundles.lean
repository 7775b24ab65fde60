import Sentrix.Core.Executor
import Sentrix.Primitives.TransactionIds
import Sentrix.Staking.Outcomes

/-!
Downtime at epoch boundaries. A proposer cites the validators that are down at the
height it builds; the dispatch recomputes the citation at the height before. Whether
a boundary block may leave it out is asked by `validateBlock` only.
-/
namespace SentrixCore
open MachineWords Effects SentrixPrimitives SentrixStaking List

namespace Blockchain

def jailBundle (forks : Forks) (bc : Blockchain) (nextHeight : Nat) : Option StakingOp :=
  if !reached forks.jailConsensus nextHeight then none
  else if !EpochManager.isEpochBoundary nextHeight then none
  else
    let activeSet := bc.stakeRegistry.activeSet
    let evidence := bc.slashing.computeJailEvidence activeSet nextHeight
    if evidence.isEmpty then none
    else
      let epoch := EpochManager.epochForHeight nextHeight
      some (.jailEvidenceBundle epoch (min (epoch * epochLength) u64Max) nextHeight evidence activeSet)

def buildJailEvidenceSystemTx (w : Wire) (toJson : StakingOp → String) (forks : Forks)
    (bc : Blockchain) (nextHeight blockTimestamp : Nat) : Option Transaction := do
  let op ← bc.jailBundle forks nextHeight
  (Transaction.newJailEvidenceBundle w toJson op nextHeight blockTimestamp).toOption

theorem jailBundle_some {forks : Forks} {bc : Blockchain} {nextHeight : Nat} {op : StakingOp}
    (built : bc.jailBundle forks nextHeight = some op) :
    reached forks.jailConsensus nextHeight = true ∧
      EpochManager.isEpochBoundary nextHeight = true ∧
      bc.slashing.computeJailEvidence bc.stakeRegistry.activeSet nextHeight ≠ [] ∧
      op = .jailEvidenceBundle (EpochManager.epochForHeight nextHeight)
        (min (EpochManager.epochForHeight nextHeight * epochLength) u64Max) nextHeight
        (bc.slashing.computeJailEvidence bc.stakeRegistry.activeSet nextHeight)
        bc.stakeRegistry.activeSet := by
  unfold jailBundle at built
  split at built
  · cases built
  · rename_i fork
    split at built
    · cases built
    · rename_i boundary
      dsimp only at built
      split at built
      · cases built
      · rename_i cited
        cases built
        exact ⟨by simpa using fork, by simpa using boundary, by simpa using cited, rfl⟩

theorem epoch_before_boundary {height : Nat}
    (boundary : EpochManager.isEpochBoundary (height + 1) = true) :
    EpochManager.epochForHeight (height + 1) = EpochManager.epochForHeight height := by
  simp only [EpochManager.isEpochBoundary, epochLength, Bool.and_eq_true, decide_eq_true_eq,
    beq_iff_eq] at boundary
  unfold EpochManager.epochForHeight epochLength
  omega

def jailedAt (height : Nat) (v : ValidatorStake) : ValidatorStake :=
  { v with isJailed := true, jailUntil := satAdd64 height downtimeJailBlocks }

def JailsExactly (evidence : List JailEvidence) (bc after : Blockchain) : Prop :=
  ∀ v, after.stakeRegistry.getValidator v =
    if v ∈ evidence.map (·.validator) then
      (bc.stakeRegistry.getValidator v).map (jailedAt bc.height)
    else bc.stakeRegistry.getValidator v

section
variable {env : Platform} {bc after : Blockchain} {now : Nat} {b : Block} {tx : Transaction}

theorem getValidator_applyJailEvidence {height : Nat} {e : JailEvidence}
    (known : (bc.stakeRegistry.getValidator e.validator).isSome) (v : Address) :
    (applyJailEvidence height bc e).stakeRegistry.getValidator v =
      if v = e.validator then (bc.stakeRegistry.getValidator v).map (jailedAt height)
      else bc.stakeRegistry.getValidator v := by
  obtain ⟨record, found⟩ := Option.isSome_iff_exists.mp known
  have jailed : StakeRegistry.jail e.validator downtimeJailBlocks height bc.stakeRegistry =
      .ok () (bc.stakeRegistry.setValidator e.validator (jailedAt height record)).updateActiveSet := by
    unfold StakeRegistry.jail StakeRegistry.punish
    exact bind_ok.mpr ⟨_, _, rfl, bind_ok.mpr ⟨record, _, fromOption_ok.mpr ⟨found, rfl⟩, rfl⟩⟩
  unfold applyJailEvidence
  rw [jailed]
  by_cases same : v = e.validator
  · subst same
    rw [if_pos rfl, found]
    exact StakeRegistry.getValidator_setValidator _ _ _
  · rw [if_neg same]
    exact StakeRegistry.othersKept_setValidator _ _ _ v same

theorem getValidator_jailAll {height : Nat} (evidence : List JailEvidence)
    (known : ∀ e ∈ evidence, (bc.stakeRegistry.getValidator e.validator).isSome) (v : Address) :
    (evidence.foldl (applyJailEvidence height) bc).stakeRegistry.getValidator v =
      if v ∈ evidence.map (·.validator) then
        (bc.stakeRegistry.getValidator v).map (jailedAt height)
      else bc.stakeRegistry.getValidator v := by
  induction evidence generalizing bc with
  | nil => simp
  | cons e rest ih =>
    have first := @getValidator_applyJailEvidence bc height e (known e mem_cons_self)
    rw [foldl_cons, ih, first]
    · by_cases same : v = e.validator
      · subst same
        simp only [map_cons, mem_cons, true_or, if_true, Option.map_map]
        split <;> rfl
      · simp [same]
    · intro e' later
      rw [first]
      have stays := known e' (mem_cons_of_mem _ later)
      split
      · rw [Option.isSome_map]
        exact stays
      · exact stays

theorem mem_computeJailEvidence {engine : SlashingEngine} {activeSet : List Address} {height : Nat}
    {v : Address} : v ∈ (engine.computeJailEvidence activeSet height).map (·.validator) ↔
      v ∈ activeSet ∧ engine.liveness.isDowntimeAt v height = true := by
  simp [SlashingEngine.computeJailEvidence]

theorem computeJailEvidence_eq_iff {engine : SlashingEngine} {activeSet : List Address}
    {height height' : Nat} :
    engine.computeJailEvidence activeSet height = engine.computeJailEvidence activeSet height' ↔
      ∀ v ∈ activeSet, engine.liveness.isDowntimeAt v height =
        engine.liveness.isDowntimeAt v height' := by
  constructor
  · intro same v member
    have cited := congrArg (fun l => v ∈ l.map (·.validator)) same
    simp only [mem_computeJailEvidence, member, true_and, eq_iff_iff] at cited
    exact Bool.eq_iff_iff.mpr cited
  · intro agree
    unfold SlashingEngine.computeJailEvidence
    rw [filter_congr agree]

/-- The state in which the dispatch finds what the proposer cited. -/
structure RecomputesAlike (forks : Forks) (bc : Blockchain) : Prop where
  fork : reached forks.jailConsensus bc.height = true
  known : ∀ v ∈ bc.stakeRegistry.activeSet, (bc.stakeRegistry.getValidator v).isSome
  down : ∀ v ∈ bc.stakeRegistry.activeSet, bc.slashing.liveness.isDowntimeAt v bc.height =
    bc.slashing.liveness.isDowntimeAt v (bc.height + 1)

theorem applyJailEvidenceBundle_ok {epoch : Nat} {evidence : List JailEvidence}
    {activeSet : List Address} {u : Unit} :
    applyJailEvidenceBundle env epoch evidence activeSet bc = .ok u after ↔
      reached env.forks.jailConsensus bc.height = true ∧
      epoch = EpochManager.epochForHeight bc.height ∧ activeSet ≠ [] ∧
      (∀ v ∈ activeSet, (bc.stakeRegistry.getValidator v).isSome) ∧
      bc.slashing.computeJailEvidence activeSet bc.height = evidence ∧
      after = evidence.foldl (applyJailEvidence bc.height) bc := by
  unfold applyJailEvidenceBundle
  constructor
  · intro ran
    obtain ⟨fork, ran⟩ := ensure_bind_ok (get_bind_ok ran)
    obtain ⟨epochs, ran⟩ := ensure_bind_ok ran
    obtain ⟨full, ran⟩ := ensure_bind_ok ran
    obtain ⟨known, ran⟩ := ensure_bind_ok ran
    obtain ⟨same, ran⟩ := ensure_bind_ok ran
    exact ⟨fork, by simpa using epochs, by simpa using full, by simpa using known,
      by simpa using same, modify_ok.mp ran⟩
  · rintro ⟨fork, epochs, full, known, same, rfl⟩
    refine bind_ok.mpr ⟨bc, bc, get_ok.mpr ⟨rfl, rfl⟩, ?_⟩
    refine bind_ok.mpr ⟨(), bc, ensure_ok.mpr ⟨fork, rfl⟩, ?_⟩
    refine bind_ok.mpr ⟨(), bc, ensure_ok.mpr ⟨by simpa using epochs, rfl⟩, ?_⟩
    refine bind_ok.mpr ⟨(), bc, ensure_ok.mpr ⟨by simpa using full, rfl⟩, ?_⟩
    refine bind_ok.mpr ⟨(), bc, ensure_ok.mpr ⟨by simpa using known, rfl⟩, ?_⟩
    exact bind_ok.mpr ⟨(), bc, ensure_ok.mpr ⟨by simpa using same, rfl⟩, modify_ok.mpr rfl⟩

/-- An honest bundle is verified, and jails whom it cites, exactly where both heights
see the same downtime and the fork does not start with the boundary block. -/
theorem jail_bundle_verifies_iff {toJson : StakingOp → String} {timestamp : Nat}
    (json : ∀ op, bc.jailBundle env.forks (bc.height + 1) = some op →
      env.wire.stakingOp (toJson op) = some op)
    (built : bc.buildJailEvidenceSystemTx env.wire toJson env.forks (bc.height + 1) timestamp =
      some tx) :
    ∃ op, env.wire.stakingOp tx.data = some op ∧
      ((∃ after, dispatchStakingOp env now b tx op bc = .ok () after ∧
          JailsExactly (bc.slashing.computeJailEvidence bc.stakeRegistry.activeSet
            (bc.height + 1)) bc after) ↔ RecomputesAlike env.forks bc) := by
  obtain ⟨op, bundled, made⟩ := Option.bind_eq_some_iff.mp built
  obtain ⟨-, boundary, cited, rfl⟩ := jailBundle_some bundled
  cases made
  refine ⟨_, json _ bundled, ?_, fun alike => ?_⟩
  · rintro ⟨after, ran, -⟩
    obtain ⟨fork, -, -, known, same, -⟩ := applyJailEvidenceBundle_ok.mp ran
    exact ⟨fork, known, computeJailEvidence_eq_iff.mp same⟩
  · have same := computeJailEvidence_eq_iff.mpr alike.down
    have full : bc.stakeRegistry.activeSet ≠ [] := by
      intro none
      rw [none] at cited
      exact cited rfl
    refine ⟨_, applyJailEvidenceBundle_ok.mpr ⟨alike.fork, epoch_before_boundary boundary, full,
      alike.known, same, rfl⟩, fun v => getValidator_jailAll _ (fun e member => ?_) v⟩
    have named := mem_computeJailEvidence.mp (mem_map_of_mem member)
    exact alike.known _ named.1

theorem checkTransactions_entering (source : BlockSource) (verified : Bool)
    (txs : List Transaction) (work : Working) :
    (bc.entering source verified).checkTransactions env txs work =
      bc.checkTransactions env txs work := by
  induction txs generalizing work with
  | nil => rfl
  | cons tx rest ih =>
    have step : (bc.entering source verified).checkTransaction env work tx =
        bc.checkTransaction env work tx := rfl
    unfold checkTransactions
    rw [step]
    split
    · rfl
    · exact ih _

theorem checkContents_entering (source : BlockSource) (verified : Bool) :
    (bc.entering source verified).checkContents env b = bc.checkContents env b := by
  unfold checkContents
  rw [checkTransactions_entering]
  rfl

theorem checkHeader_entering {source : BlockSource} {verified : Bool}
    (passed : (bc.entering source false).checkHeader env now b = .ok verified) :
    ∃ previous, bc.latestBlock = .ok previous ∧
      b.validateStructure env.wire bc.expectedIndex previous.hash = .ok () ∧
      (env.settings.replayBypassAuthz = false → bc.checkProducer env.forks b = .ok ()) ∧
      checkTimestamp now previous b = .ok () := by
  unfold checkHeader at passed
  obtain ⟨previous, latest, passed⟩ := except_bind_ok.mp passed
  obtain ⟨_, structured, passed⟩ := except_bind_ok.mp passed
  obtain ⟨_, producer, passed⟩ := except_bind_ok.mp passed
  obtain ⟨_, time, -⟩ := except_bind_ok.mp passed
  refine ⟨previous, latest, structured, fun strict => ?_, time⟩
  rw [strict] at producer
  exact producer

/-- For a block that is applied, the read-only check comes down to what it asks beyond
pass 1. -/
theorem validateBlock_of_accepted {source : BlockSource}
    (accepted : addBlockWithSource env now source b bc = .ok () after) :
    bc.validateBlock env now b = .ok () ↔
      bc.checkProducer env.forks b = .ok () ∧ bc.checkJailEvidence env b = .ok () := by
  obtain ⟨verified, applied, header, contents, -, -⟩ := addBlockWithSource_ok accepted
  obtain ⟨previous, latest, structured, -, time⟩ := checkHeader_entering header
  rw [checkContents_entering] at contents
  unfold validateBlock
  constructor
  · intro passed
    obtain ⟨_, _, passed⟩ := except_bind_ok.mp passed
    obtain ⟨_, _, passed⟩ := except_bind_ok.mp passed
    obtain ⟨_, producer, passed⟩ := except_bind_ok.mp passed
    obtain ⟨_, _, passed⟩ := except_bind_ok.mp passed
    obtain ⟨_, evidence, _⟩ := except_bind_ok.mp passed
    exact ⟨producer, evidence⟩
  · rintro ⟨producer, evidence⟩
    exact except_bind_ok.mpr ⟨previous, latest, except_bind_ok.mpr ⟨_, structured,
      except_bind_ok.mpr ⟨_, producer, except_bind_ok.mpr ⟨_, time,
        except_bind_ok.mpr ⟨_, evidence, contents⟩⟩⟩⟩⟩

/-- A block the read-only check refuses is refused by application, unless all that is
missing is the bundle of a boundary block or, in replay mode, the producer's turn. -/
theorem rejected_by_both_iff (env : Platform) (now : Nat) (source : BlockSource) (bc : Blockchain)
    (b : Block) :
    ((∃ e, bc.validateBlock env now b = .error e) →
        ∃ e after, addBlockWithSource env now source b bc = .error e after) ↔
      ((∃ after, addBlockWithSource env now source b bc = .ok () after) →
        (env.settings.replayBypassAuthz = true → bc.checkProducer env.forks b = .ok ()) ∧
        bc.checkJailEvidence env b = .ok ()) := by
  cases ran : addBlockWithSource env now source b bc with
  | error e after =>
    refine iff_of_true (fun _ => ⟨e, after, rfl⟩) ?_
    rintro ⟨_, accepted⟩
    cases accepted
  | ok u after =>
    have valid := validateBlock_of_accepted ran
    obtain ⟨verified, applied, header, -, -, -⟩ := addBlockWithSource_ok ran
    obtain ⟨-, -, -, producer, -⟩ := checkHeader_entering header
    constructor
    · rintro agree -
      cases checked : bc.validateBlock env now b with
      | ok u =>
        obtain ⟨turn, evidence⟩ := valid.mp checked
        exact ⟨fun _ => turn, evidence⟩
      | error e =>
        obtain ⟨_, _, refused⟩ := agree ⟨e, checked⟩
        cases refused
    · rintro agree ⟨e, refused⟩
      obtain ⟨turn, evidence⟩ := agree ⟨after, rfl⟩
      have passed : bc.checkProducer env.forks b = .ok () := by
        cases mode : env.settings.replayBypassAuthz with
        | false => exact producer mode
        | true => exact turn mode
      rw [valid.mpr ⟨passed, evidence⟩] at refused
      cases refused

end

def boundaryCoinbase : Hash := "99437827cb9bca8c3ba8b57c569eb3de2ae2be671fee38c83cbc0e2f503cc664"

def boundaryBlock : Block :=
  sampleBlock 28799 genesisBlock.hash [coinbaseTx firstValidator 100000000 28799 1700000001
      boundaryCoinbase] 1700000001
    "c9389e2f85998e34d7e84897bb8fd9a2c6a3f79358f73876f9ff97763d1a9511"
    "8d31ccee6b3018f6bb608721c41d22c0758f87fc7cb0defcee7ba06f1120097c"

def silentChain (signed : Nat) : Blockchain :=
  { seedChain (bondedSet [firstValidator, secondValidator]) with
    chain := [{ genesisBlock with index := 28798 }]
    slashing := { SlashingEngine.new with
      liveness := LivenessTracker.new.recordSigned secondValidator signed } }

def citation : StakingOp :=
  .jailEvidenceBundle 0 0 28799 [⟨secondValidator, 1, 0, []⟩] [firstValidator, secondValidator]

/-- Its JSON text; the quotation mark is escaped where the text is quoted itself. -/
def citationText (mark : String) : String :=
  let quoted (s : String) : String := mark ++ s ++ mark
  "\x7b" ++ quoted "op" ++ ":" ++ quoted "jail_evidence_bundle" ++ "," ++ quoted "epoch" ++ ":0," ++
    quoted "epoch_start_block" ++ ":0," ++ quoted "epoch_end_block" ++ ":28799," ++
    quoted "evidence" ++ ":[\x7b" ++ quoted "validator" ++ ":" ++ quoted secondValidator ++ "," ++
    quoted "signed_count" ++ ":1," ++ quoted "missed_count" ++ ":0," ++
    quoted "justification_hashes" ++ ":[]\x7d]," ++ quoted "active_set" ++ ":[" ++
    quoted firstValidator ++ "," ++ quoted secondValidator ++ "]\x7d"

def citationTx : Transaction :=
  ⟨"cf91789e9e7f3d44d4f44d8e4fcb56368cc815ea6a81a6b8b4a2a82d0d6c6af8", protocolTreasury,
    protocolTreasury, 0, 0, 28799, citationText "\"", 1700000001, 0, "", ""⟩

def boundaryPlatform : Platform :=
  let quoting (w : Wire) : Wire :=
    { w with
      quote := fun s => if s = citationText "\"" then "\"" ++ citationText "\\\"" ++ "\""
        else w.quote s
      stakingOp := fun s => if s = citationText "\"" then some citation else none }
  let digests := (citationTx.signingPayload (quoting (tableWire [])), citationTx.txid) ::
    blockDigests boundaryBlock
  { plainPlatform (quoting (tableWire digests)) with
    forks := { Forks.off with rewardV2 := 0, jailConsensus := 0 } }

theorem citation_decoded : boundaryPlatform.wire.stakingOp citationTx.data = some citation := by
  decide +kernel

theorem citation_built (signed : Nat) (early : signed = 100 ∨ signed = 14399) :
    (silentChain signed).buildJailEvidenceSystemTx boundaryPlatform.wire
      (fun _ => citationText "\"") boundaryPlatform.forks ((silentChain signed).height + 1)
      1700000001 = some citationTx := by
  rcases early with rfl | rfl <;> decide +kernel

theorem citation_json {signed : Nat} (early : signed = 100 ∨ signed = 14399) (op : StakingOp)
    (bundled : (silentChain signed).jailBundle boundaryPlatform.forks
      ((silentChain signed).height + 1) = some op) :
    boundaryPlatform.wire.stakingOp (citationText "\"") = some op := by
  have cited : (silentChain signed).jailBundle boundaryPlatform.forks
      ((silentChain signed).height + 1) = some citation := by
    rcases early with rfl | rfl <;> decide +kernel
  cases bundled.symm.trans cited
  exact citation_decoded

/-- Silent since height 100: at both heights the whole window is missing. -/
theorem long_silence_jailed :
    ∃ op, boundaryPlatform.wire.stakingOp citationTx.data = some op ∧
      ∃ after, dispatchStakingOp boundaryPlatform 1700000001 boundaryBlock citationTx op
          (silentChain 100) = .ok () after ∧
        JailsExactly ((silentChain 100).slashing.computeJailEvidence
          (silentChain 100).stakeRegistry.activeSet ((silentChain 100).height + 1))
          (silentChain 100) after := by
  obtain ⟨op, decoded, verified⟩ := @jail_bundle_verifies_iff boundaryPlatform (silentChain 100)
    1700000001 boundaryBlock citationTx (fun _ => citationText "\"") 1700000001
    (citation_json (.inl rfl)) (citation_built 100 (.inl rfl))
  exact ⟨op, decoded, verified.mpr ⟨by decide, by decide, by decide⟩⟩

/-- Silent since height 14399: one height too early for the dispatch. -/
theorem fresh_silence_refused :
    (silentChain 14399).buildJailEvidenceSystemTx boundaryPlatform.wire
        (fun _ => citationText "\"") boundaryPlatform.forks ((silentChain 14399).height + 1)
        1700000001 = some citationTx ∧
      boundaryPlatform.wire.stakingOp citationTx.data = some citation ∧
      succeeds (dispatchStakingOp boundaryPlatform 1700000001 boundaryBlock citationTx citation)
        (silentChain 14399) = false :=
  ⟨citation_built 14399 (.inr rfl), citation_decoded, by decide⟩

/-- The boundary block without the bundle: refused a vote, and applied. -/
theorem silent_block_applied :
    (∃ e, (silentChain 100).validateBlock boundaryPlatform 1700000001 boundaryBlock = .error e) ∧
      succeeds (addBlockFromPeer boundaryPlatform 1700000001 boundaryBlock) (silentChain 100) =
        true := by
  have refused : ((silentChain 100).validateBlock boundaryPlatform 1700000001
      boundaryBlock).toOption = none := by decide +kernel
  refine ⟨?_, by decide +kernel⟩
  cases checked : (silentChain 100).validateBlock boundaryPlatform 1700000001 boundaryBlock with
  | error e => exact ⟨e, rfl⟩
  | ok u =>
    rw [checked] at refused
    cases refused

end Blockchain
end SentrixCore
