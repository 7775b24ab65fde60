import Sentrix.Core.Replay

/-!
Evidence of equivocation. An accepted `SubmitEvidence` transaction slashes and
tombstones the validator it names as soon as the two hashes differ and the detector has
not seen the evidence before.
-/
namespace SentrixCore
open Effects SentrixPrimitives SentrixStaking SentrixMessages

namespace Blockchain

def evidenceOf : StakingOp → Option DoubleSignEvidence
  | .submitEvidence height blockHashA blockHashB signatureA signatureB offender =>
    some ⟨offender, height, blockHashA, blockHashB, signatureA, signatureB⟩
  | _ => none

def submitted (w : Wire) (tx : Transaction) : Option DoubleSignEvidence :=
  (w.stakingOp tx.data).bind evidenceOf

def Punished (x : Applied) (validator : Address) : Prop :=
  ∃ old new, x.before.stakeRegistry.getValidator validator = some old ∧
    x.after.stakeRegistry.getValidator validator = some new ∧
    (new.selfStake < old.selfStake ∨ new.totalDelegated < old.totalDelegated ∨
      old.isTombstoned = false ∧ new.isTombstoned = true)

def votePayloads (height round : Nat) (blockHash : Hash) (chainId : Nat) : List Bytes :=
  [Proposal.signingPayloadForHeight height round blockHash chainId,
   Prevote.signingPayloadForHeight height round (some blockHash) chainId,
   Precommit.signingPayloadForHeight height round (some blockHash) chainId]

def SignedAt (env : Platform) (chainId height : Nat) (validator : Address) (blockHash : Hash)
    (signature : String) : Prop :=
  ∃ bytes round, hexDecode signature = some bytes ∧
    ∃ payload ∈ votePayloads height round blockHash chainId,
      verifyVoteSignature env.votes payload bytes validator = true

structure SignedBoth (env : Platform) (chainId : Nat) (e : DoubleSignEvidence) : Prop where
  first : SignedAt env chainId e.height e.validator e.blockHashA e.signatureA
  second : SignedAt env chainId e.height e.validator e.blockHashB e.signatureB

structure Equivocated (env : Platform) (chainId : Nat) (e : DoubleSignEvidence) : Prop
    extends SignedBoth env chainId e where
  differ : e.blockHashA ≠ e.blockHashB

/-- Whoever the block's evidence punishes is the accused, and did equivocate. -/
def PunishesOnlyEquivocators (env : Platform) (s : Submission) (bc : Blockchain) : Prop :=
  ∀ x ∈ blockTrace env s bc, ∀ e, submitted env.wire x.tx = some e →
    ∀ validator, Punished x validator → validator = e.validator ∧ Equivocated env bc.chainId e

section
variable {env : Platform} {now : Nat} {b : Block} {tx : Transaction} {totalFee fees : Nat}
  {bc after : Blockchain} {u : Unit} {e : DoubleSignEvidence}

theorem submitEvidence_ok (ran : submitEvidence tx e bc = .ok u after) :
    ∃ amount, SlashingEngine.processDoubleSign e bc.bench = .ok amount after.bench := by
  unfold submitEvidence noAmount at ran
  obtain ⟨-, ran⟩ := ensure_bind_ok ran
  obtain ⟨-, ran⟩ := ensure_bind_ok ran
  obtain ⟨judged, within, rfl⟩ := focus_ok.mp ran
  obtain ⟨amount, _, processed, returned⟩ := bind_ok.mp within
  obtain ⟨-, rfl⟩ := pure_ok.mp returned
  exact ⟨amount, processed⟩

/-- Past the reward fork the evidence is processed, before it it is passed over. -/
theorem applyStakingOp_evidence (op : submitted env.wire tx = some e)
    (ran : applyStakingOp env now b tx bc = .ok u after) :
    if reached env.forks.rewardV2 b.index = true then
      ∃ amount, SlashingEngine.processDoubleSign e bc.bench = .ok amount after.bench
    else after.bench = bc.bench := by
  obtain ⟨decoded, parsed, same⟩ := Option.bind_eq_some_iff.mp op
  unfold applyStakingOp at ran
  rw [parsed] at ran
  dsimp only at ran
  split
  · rename_i active
    rw [if_pos active] at ran
    obtain ⟨-, ran⟩ := ensure_bind_ok ran
    cases decoded with
    | submitEvidence =>
      obtain rfl := Option.some.inj same
      exact submitEvidence_ok ran
    | _ => cases same
  · rename_i inactive
    rw [if_neg inactive] at ran
    obtain ⟨-, rfl⟩ := pure_ok.mp ran
    rfl

/-- Fees, tokens and EVM execution stay away from stakes and slashing. -/
theorem evidence_applied (op : submitted env.wire tx = some e)
    (ran : applyTransaction env now b tx totalFee bc = .ok fees after) :
    if reached env.forks.rewardV2 b.index = true then
      ∃ amount, SlashingEngine.processDoubleSign e bc.bench = .ok amount after.bench
    else after.bench = bc.bench := by
  obtain ⟨paid, tokened, staked, charged, tokens, staking, rfl⟩ := applyTransaction_ok ran
  have before : tokened.bench = bc.bench :=
    ((keeps_applyTokenOp env b tx (fun _ _ => rfl) fun _ _ => rfl).ok tokens).trans
      ((keeps_chargeTransaction env tx (fun _ _ => rfl) totalFee).ok charged)
  have behind : (dispatchEvm env b tx staked).bench = staked.bench := by
    unfold dispatchEvm
    split <;> rfl
  rw [behind, ← before]
  exact applyStakingOp_evidence op staking

theorem not_punished {x : Applied} {validator : Address}
    (same : x.after.stakeRegistry.getValidator validator =
      x.before.stakeRegistry.getValidator validator) : ¬ Punished x validator := by
  rintro ⟨old, new, found, found', worse⟩
  rw [same, found] at found'
  cases found'
  rcases worse with less | less | ⟨free, banned⟩
  · exact Nat.lt_irrefl _ less
  · exact Nat.lt_irrefl _ less
  · rw [free] at banned
    cases banned

/-- An applied evidence transaction punishes the accused, and nobody else, exactly when
the detector does not know the evidence yet. -/
theorem punished_iff {x : Applied} (op : submitted env.wire x.tx = some e)
    (ran : applyTransaction env now b x.tx totalFee x.before = .ok fees x.after)
    (validator : Address) :
    Punished x validator ↔ validator = e.validator ∧ reached env.forks.rewardV2 b.index = true ∧
      e.id ∉ x.before.slashing.processed := by
  have judged := evidence_applied op ran
  by_cases active : reached env.forks.rewardV2 b.index = true
  · rw [if_pos active] at judged
    obtain ⟨_, judged⟩ := judged
    obtain ⟨-, ⟨seen, same⟩ | ⟨unseen, banned, others⟩⟩ :=
      SlashingEngine.processDoubleSign_ok judged
    · have same : x.after.stakeRegistry = x.before.stakeRegistry := same
      exact iff_of_false (not_punished (by rw [same])) fun fresh => fresh.2.2 seen
    · by_cases accused : validator = e.validator
      · obtain ⟨old, new, found, free, entry, ban⟩ := banned
        subst accused
        exact iff_of_true ⟨old, new, found, entry, .inr (.inr ⟨free, ban⟩)⟩ ⟨rfl, active, unseen⟩
      · exact iff_of_false (not_punished (others validator accused)) fun fresh => accused fresh.1
  · rw [if_neg active] at judged
    have same : x.after.stakeRegistry = x.before.stakeRegistry :=
      congrArg SlashingEngine.Bench.registry judged
    exact iff_of_false (not_punished (by rw [same])) fun fresh => active fresh.2.1

theorem hashes_differ {x : Applied} (op : submitted env.wire x.tx = some e)
    (ran : applyTransaction env now b x.tx totalFee x.before = .ok fees x.after)
    (active : reached env.forks.rewardV2 b.index = true) : e.blockHashA ≠ e.blockHashB := by
  have judged := evidence_applied op ran
  rw [if_pos active] at judged
  obtain ⟨_, judged⟩ := judged
  exact (SlashingEngine.processDoubleSign_ok judged).1

end

/-- A block's evidence punishes equivocators only, exactly when each piece that is new
to the detector comes with two valid signatures. -/
theorem punishes_only_equivocators_iff (env : Platform) (s : Submission) (bc : Blockchain) :
    PunishesOnlyEquivocators env s bc ↔
      (reached env.forks.rewardV2 s.block.index = true → ∀ x ∈ blockTrace env s bc, ∀ e,
        submitted env.wire x.tx = some e → e.id ∉ x.before.slashing.processed →
          SignedBoth env bc.chainId e) := by
  constructor
  · intro only active x inside e op unseen
    obtain ⟨_, _, applied⟩ := blockTrace_ran inside
    have punished := (punished_iff op applied e.validator).mpr ⟨rfl, active, unseen⟩
    exact (only x inside e op e.validator punished).2.toSignedBoth
  · intro proven x inside e op validator punished
    obtain ⟨_, _, applied⟩ := blockTrace_ran inside
    obtain ⟨accused, active, unseen⟩ := (punished_iff op applied validator).mp punished
    exact ⟨accused, proven active x inside e op unseen, hashes_differ op applied active⟩

/-- The data field as the client writes it; quotation marks are escaped where it is
quoted in turn. -/
def evidenceText (mark : String) (e : DoubleSignEvidence) : String :=
  let field (name value : String) := "," ++ mark ++ name ++ mark ++ ":" ++ mark ++ value ++ mark
  "\x7b" ++ mark ++ "op" ++ mark ++ ":" ++ mark ++ "submit_evidence" ++ mark ++ "," ++ mark ++
    "height" ++ mark ++ ":" ++ toString e.height ++ field "block_hash_a" e.blockHashA ++
    field "block_hash_b" e.blockHashB ++ field "signature_a" e.signatureA ++
    field "signature_b" e.signatureB ++ field "offender" e.validator ++ "\x7d"

def report (e : DoubleSignEvidence) (txid : Hash) (signature : String) : Transaction :=
  { signedTransfer with
    txid, signature, toAddress := protocolTreasury, amount := 0, data := evidenceText "\"" e }

def reportPlatform (e : DoubleSignEvidence) (tx : Transaction) (b : Block) : Platform :=
  let quoting (w : Wire) : Wire :=
    { w with
      quote := fun s => if s = tx.data then "\"" ++ evidenceText "\\\"" e ++ "\"" else w.quote s
      stakingOp := fun s => if s = tx.data then some (.submitEvidence e.height e.blockHashA
        e.blockHashB e.signatureA e.signatureB e.validator) else none }
  let wire := quoting (signingWire (blockDigests b) secondKey secondValidator
    [(tx.signature, tx.signingPayload (quoting (tableWire (blockDigests b))))])
  { plainPlatform wire with forks := { Forks.off with rewardV2 := 1 } }

def madeUp : DoubleSignEvidence :=
  ⟨firstValidator, 1, "a", "b", "", ""⟩

def falseReport : Transaction := report madeUp
  "6cb8e5bf2a0e282ca63083006011b0a7e5830ace28c8d42a364003b177dc52d5"
  ("4c03dc0706580e4cbf0f5c93b76a67f41cd5348996a8e1ac692b4fa4f59b486a" ++
    "5675d4d15d4f86d69bd889464d387b6291489d4c96aa49f2bfa5d208bbe0847b")

def falseReportBlock : Block :=
  sampleBlock 1 genesisBlock.hash [firstCoinbase, falseReport] 1700000001
    "b480dc7937c6da87ba756e7674458c5ed216c54600eb9aa27e5dba2cff6760c7"
    "4f72a8aae6b9cd947f743b733eeb2c5f57cff6f0773f4f865f71a00f85f09277"

def falsePlatform : Platform :=
  reportPlatform madeUp falseReport falseReportBlock

/-- A validator is banned for good over two hashes it never saw and no signatures. -/
theorem innocent_tombstoned :
    let s : Submission := ⟨1700000001, .peer, falseReportBlock⟩
    succeeds (submit falsePlatform s) fundedChain = true ∧
      ((finalState (submit falsePlatform s) fundedChain).stakeRegistry.getValidator
        firstValidator).map (·.isTombstoned) = some true ∧
      ¬ PunishesOnlyEquivocators falsePlatform s fundedChain := by
  intro s
  have facts : succeeds (submit falsePlatform s) fundedChain = true ∧
      ((finalState (submit falsePlatform s) fundedChain).stakeRegistry.getValidator
        firstValidator).map (·.isTombstoned) = some true ∧
      ∃ x ∈ blockTrace falsePlatform s fundedChain,
        submitted falsePlatform.wire x.tx = some madeUp ∧
          madeUp.id ∉ x.before.slashing.processed := by decide +kernel
  refine ⟨facts.1, facts.2.1, fun only => ?_⟩
  obtain ⟨x, inside, op, unseen⟩ := facts.2.2
  obtain ⟨_, _, applied⟩ := blockTrace_ran inside
  have punished := (punished_iff op applied firstValidator).mpr ⟨rfl, by decide, unseen⟩
  obtain ⟨bytes, _, decoded, _, -, verified⟩ :=
    (only x inside madeUp op firstValidator punished).2.first
  obtain rfl : [] = bytes := Option.some.inj decoded
  cases verified

end Blockchain
end SentrixCore
