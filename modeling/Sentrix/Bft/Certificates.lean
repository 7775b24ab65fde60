import Sentrix.Bft.QuorumWeights
import Sentrix.Core.FinalityGate

/-!
From recorded precommits to the strict justification gate. A certificate of peers'
precommits passes the gate of every node with the same registry, as long as votes are
signed over the older payload.
-/
namespace SentrixLoop
open MachineWords HashTable SentrixPrimitives SentrixMessages SentrixStaking SentrixEngine List
open SentrixGuard SentrixCore Runs Effects
open SentrixCore.Blockchain (GateView verifiedPrecommit verifiedStake strictGate)
variable {Chain B : Type}

theorem verifyVoteSignature_recovers {crypto : Recovery} {payload signature : Bytes}
    {validator : Address} (verified : verifyVoteSignature crypto payload signature validator = true) :
    crypto.recoverSigner payload signature = some validator := by
  unfold verifyVoteSignature at verified
  split at verified
  · cases verified
  · simpa using verified

/-- Each entry's signature recovers to its validator over the payload that the
gate computes from the certificate. -/
def Recovers (votes : Recovery) (chainId : Nat) (j : BlockJustification)
    (p : SignedPrecommit) : Prop :=
  votes.recoverSigner (Precommit.signingPayloadForHeight j.height j.round (some j.blockHash) chainId)
    p.signature = some p.validator

section
variable {votes : Recovery} {g : GateView} {j : BlockJustification}

theorem verifiedPrecommit_passes {p : SignedPrecommit} (recovers : Recovers votes g.chainId j p)
    (known : (g.registry.getValidator p.validator).isSome) :
    verifiedPrecommit votes g j p = .ok (g.registry.voteStake p.validator) := by
  obtain ⟨val, found⟩ := Option.isSome_iff_exists.mp known
  unfold Recovers at recovers
  simp [verifiedPrecommit, found, recovers, StakeRegistry.voteStake]

theorem verifiedStake_passes : ∀ (entries : List SignedPrecommit) (seen : List Address)
    (stake : Nat), stake ≤ u64Max → (entries.map (·.validator)).Nodup →
    (∀ p ∈ entries, p.validator ∉ seen) → (∀ p ∈ entries, Recovers votes g.chainId j p) →
    (∀ p ∈ entries, (g.registry.getValidator p.validator).isSome) →
    verifiedStake votes g j entries seen stake =
      .ok (min (stake + (entries.map fun p => g.registry.voteStake p.validator).sum) u64Max) := by
  intro entries
  induction entries with
  | nil =>
    intro seen stake word _ _ _ _
    simp [verifiedStake, word]
  | cons p rest ih =>
    intro seen stake word distinct unseen recovers known
    have fresh : p.validator ∉ seen := unseen p mem_cons_self
    rw [map_cons, nodup_cons] at distinct
    rw [verifiedStake, if_neg (by simpa using fresh),
      verifiedPrecommit_passes (recovers p mem_cons_self) (known p mem_cons_self)]
    have later : ∀ q ∈ rest, q.validator ∉ p.validator :: seen := by
      intro q member
      rw [mem_cons, not_or]
      constructor
      · intro same
        exact distinct.1 (List.mem_map.mpr ⟨q, member, same⟩)
      · exact unseen q (mem_cons_of_mem p member)
    have capped : satAdd64 stake (g.registry.voteStake p.validator) ≤ u64Max := Nat.min_le_right _ _
    simp only
    rw [ih (p.validator :: seen) _ capped distinct.2 later
      (fun q member => recovers q (mem_cons_of_mem p member))
      (fun q member => known q (mem_cons_of_mem p member))]
    simp only [map_cons, sum_cons, satAdd64, satAdd, Except.ok.injEq]
    omega

theorem strictGate_passes {b : Block} (named : j.blockHash = b.hash)
    (distinct : (j.precommits.map (·.validator)).Nodup)
    (recovers : ∀ p ∈ j.precommits, Recovers votes g.chainId j p)
    (known : ∀ p ∈ j.precommits, (g.registry.getValidator p.validator).isSome)
    (active : g.registry.totalActiveStake ≠ 0)
    (enough : supermajorityThreshold g.registry.totalActiveStake ≤
      (j.precommits.map fun p => g.registry.voteStake p.validator).sum) :
    strictGate votes g b j = .ok () := by
  have counted := verifiedStake_passes j.precommits [] 0 (Nat.zero_le _) distinct (by simp)
    recovers known
  have reached : supermajorityThreshold g.registry.totalActiveStake ≤
      min (0 + (j.precommits.map fun p => g.registry.voteStake p.validator).sum) u64Max := by
    have small := supermajorityThreshold_fits g.registry.totalActiveStake_word
    omega
  unfold strictGate
  apply except_bind_ok.mpr
  refine ⟨(), require_ok.mpr (by simp [named]), ?_⟩
  apply except_bind_ok.mpr
  refine ⟨_, counted, ?_⟩
  apply except_bind_ok.mpr
  exact ⟨(), require_ok.mpr (by simpa using active), require_ok.mpr (by simpa using reached)⟩

end

structure Verifiable (crypto : Recovery) (reg : StakeRegistry) (height round : Nat) (h : Hash)
    (j : BlockJustification) : Prop where
  header : j.height = height ∧ j.round = round ∧ j.blockHash = h
  distinct : (j.precommits.map (·.validator)).Nodup
  signed : ∀ p ∈ j.precommits, verifyVoteSignature crypto
    (Precommit.signingPayload height round (some h)) p.signature p.validator = true
  known : ∀ p ∈ j.precommits, (reg.getValidator p.validator).isSome
  enough : supermajorityThreshold reg.totalActiveStake ≤
    (j.precommits.map fun p => reg.voteStake p.validator).sum

def VerifiedPrecommit (crypto : Recovery) (reg : StakeRegistry) (height round : Nat)
    (v : Address) (x : Option Hash × Bytes × Nat) : Prop :=
  ∀ h, x.1 = some h → verifyVoteSignature crypto
      (Precommit.signingPayload height round (some h)) x.2.1 v = true ∧
    (reg.getValidator v).isSome ∧ x.2.2 = reg.voteStake v

structure Certifiable (crypto : Recovery) (elected : StakeRegistry) (e : BftEngine) : Prop where
  total : e.core.totalActiveStake = elected.totalActiveStake
  counts : CountsBelow e.core
  votes : VotesMeet (fun _ _ _ _ => True) (VerifiedPrecommit crypto elected) e.core

def CertifiedAction (crypto : Recovery) (elected : StakeRegistry) (action : BftAction) : Prop :=
  ∀ height round h j, action = .finalizeBlock height round h j →
    Verifiable crypto elected height round h j

theorem finalize_of_move {reg : StakeRegistry} {e e' : BftEngine} {call : EngineCall}
    {height round : Nat} {h : Hash} {j : BlockJustification}
    (move : Move reg e call e' (.finalizeBlock height round h j)) :
    height = e'.state.height ∧ round = e'.state.round ∧
      supermajorityThreshold e'.core.totalActiveStake ≤
        (e'.core.collector.precommitTally.lookup (some h)).getD 0 ∧
      ∃ listing, j = e'.justify listing h := by
  cases move with
  | still _ _ quiet => cases quiet
  | prevoted _ _ _ _ sends | relaxed _ _ _ _ _ sends | locked _ _ _ _ _ _ _ _ _ _ sends
  | gaveUp _ _ _ sends => rcases sends.sent with ⟨sent, _⟩ | ⟨sent, _⟩ <;> cases sent
  | countedPrecommit _ _ _ _ _ _ _ _ _ quiet => cases quiet
  | finalized _ listing _ _ _ _ _ _ quorum core =>
    refine ⟨rfl, rfl, ?_, listing, rfl⟩
    rw [core]
    exact supermajority_weight quorum

theorem Certifiable.finalizes {crypto : Recovery} {elected : StakeRegistry} {e : BftEngine}
    (certifiable : Certifiable crypto elected e) {h : Hash}
    (quorum : supermajorityThreshold e.core.totalActiveStake ≤
      (e.core.collector.precommitTally.lookup (some h)).getD 0)
    (listing : HashIter (Address × Option Hash × Bytes × Nat)) :
    Verifiable crypto elected e.state.height e.state.round h (e.justify listing h) := by
  have weight := quorum.trans (certifiable.counts.precommits (some h))
  have certifies := certifies_of_weight weight listing
  have recorded : ∀ p ∈ (e.justify listing h).precommits, VerifiedPrecommit crypto elected
      e.state.height e.state.round p.validator (some h, p.signature, p.stakeWeight) := by
    intro p member
    exact certifiable.votes.precommits _ _ ((certifies.exactly p).mp member).2
  refine ⟨certifies.header, certifies.distinct, fun p member => (recorded p member h rfl).1,
    fun p member => (recorded p member h rfl).2.1, ?_⟩
  have weights : (e.justify listing h).precommits.map (·.stakeWeight) =
      (e.justify listing h).precommits.map fun p => elected.voteStake p.validator :=
    map_congr_left fun p member => (recorded p member h rfl).2.2
  rw [← weights, ← certifiable.total]
  exact certifies.enough

theorem Certifiable.perform {crypto : Recovery} {elected reg : StakeRegistry} {e : BftEngine}
    (certifiable : Certifiable crypto elected e) (call : EngineCall)
    (brings : Brings (fun _ _ _ _ => True) (VerifiedPrecommit crypto elected) reg call) :
    Certifiable crypto elected (e.perform reg call).1 ∧
      CertifiedAction crypto elected (e.perform reg call).2 := by
  have move := BftEngine.perform_move reg e call
  obtain ⟨height, total, records⟩ := move_records move
  have kept : Certifiable crypto elected (e.perform reg call).1 :=
    ⟨total.trans certifiable.total, certifiable.counts.records records,
      certifiable.votes.records height records brings⟩
  refine ⟨kept, ?_⟩
  intro height round h j handed
  rw [handed] at move
  obtain ⟨rfl, rfl, quorum, listing, rfl⟩ := finalize_of_move move
  exact kept.finalizes quorum listing

theorem certifiable_law (L : Ledger Chain B) (k : Signer) (crypto : Recovery) :
    LoopLaw L k (Certifiable crypto) (CertifiedAction crypto) where
  fresh chain guard := by
    have unvoted := newEngine_unvoted L k chain guard
    exact ⟨unvoted.total, unvoted.countsBelow, unvoted.votesMeet _ _⟩
  core same certifiable := by
    obtain ⟨total, counts, votes⟩ := certifiable
    rw [← same] at total counts votes
    exact ⟨total, counts, votes⟩
  quiet reg call quiet certifiable := by
    refine certifiable.perform call ?_
    cases call <;> trivial

section
variable {L : Ledger Chain B} {k : Signer} {n : Node Chain B} {e : BftEngine}

@[simp] theorem inbox_call (c : EngineCall) (arm : Option Arm) :
    (n.call L e c arm).inbox = n.inbox := rfl

@[simp] theorem inbox_offer (block : B) (p : Proposal) (arm : Option Arm) (keep : Bool) :
    (n.offer L e block p arm keep).inbox = n.inbox := rfl

@[simp] theorem inbox_propose (c : Choices B) (arm : Option Arm) (keep : Bool) :
    (n.propose L k c e arm keep).inbox = n.inbox := by
  unfold Node.propose
  split <;> simp

@[simp] theorem inbox_startHeight (c : Choices B) : (n.startHeight L k c).inbox = n.inbox := by
  unfold Node.startHeight
  simp only
  split
  · split <;> simp
  · rfl

theorem inbox_drain (c : Choices B) (message : BftMessage) :
    (n.drain L c e message).inbox = n.inbox := by
  cases message with
  | propose =>
    unfold Node.drain
    simp only
    split
    · rfl
    · split <;> rfl
  | prevote => rfl
  | precommit => rfl
  | roundStatus => rfl

@[simp] theorem inbox_prepareNext (c : Choices B) : (n.prepareNext L k c).inbox = n.inbox := by
  unfold Node.prepareNext
  simp only
  split
  · split <;> rfl
  · rfl

@[simp] theorem inbox_finalize (c : Choices B) (height round : Nat) (h : Hash)
    (j : BlockJustification) : (n.finalize L k c e height round h j).inbox = n.inbox := by
  unfold Node.finalize
  split
  · rfl
  split
  · rfl
  split
  · rfl
  · simp only
    split
    · rfl
    split
    · split <;> simp
    · rfl

@[simp] theorem inbox_nextRound (c : Choices B) (keep : Bool) :
    (n.nextRound L k c e keep).inbox = n.inbox := by
  unfold Node.nextRound
  simp only
  split <;> simp

theorem inbox_handle (c : Choices B) (arm : Arm) (action : BftAction) :
    (n.handle L k c e arm action).inbox = n.inbox := by
  cases action <;> simp only [Node.handle] <;> first | rfl | (split <;> simp) | simp

theorem mem_inbox_step {crypto : Recovery} {ev : LoopEvent Chain B} {m : BftMessage}
    (there : m ∈ (n.step L k crypto ev).inbox) :
    m ∈ n.inbox ∨ ∃ message, m ∈ admitMessage L crypto n.chain message := by
  cases ev with
  | chainMoves => exact Or.inl there
  | receive message => exact (List.mem_append.mp there).imp_right fun new => ⟨message, new⟩
  | startHeight =>
    simp only [Node.step, inbox_startHeight] at there
    exact Or.inl there
  | drain c =>
    simp only [Node.step] at there
    split at there
    · rename_i message rest _ inbox
      rw [inbox_drain] at there
      rw [inbox]
      exact Or.inl (mem_cons_of_mem _ there)
    · exact Or.inl there
  | timeout =>
    simp only [Node.step] at there
    split at there <;> exact Or.inl there
  | handle =>
    simp only [Node.step] at there
    split at there
    · rw [inbox_handle] at there
      exact Or.inl there
    · exact Or.inl there
  | rebroadcast =>
    simp only [Node.step] at there
    split at there
    · split at there <;> exact Or.inl there
    · exact Or.inl there
  | restart => simp [Node.step] at there

theorem admit_precommit {crypto : Recovery} {chain : Chain} {message : BftMessage} {p : Precommit}
    (admitted : .precommit p ∈ admitMessage L crypto chain message) :
    verifyVoteSignature crypto p.payload p.signature p.validator = true := by
  cases message with
  | propose =>
    simp only [admitMessage, embeddedPrevote] at admitted
    split at admitted
    · split at admitted
      · split at admitted
        · simp at admitted
        · split at admitted <;> simp at admitted
      · simp at admitted
    · cases admitted
  | prevote =>
    simp only [admitMessage] at admitted
    split at admitted <;> simp at admitted
  | precommit q =>
    simp only [admitMessage] at admitted
    split at admitted
    · rename_i passed
      simp only [mem_singleton, BftMessage.precommit.injEq] at admitted
      subst admitted
      exact (Bool.and_eq_true _ _ ▸ passed).1
    · cases admitted
  | roundStatus =>
    simp only [admitMessage] at admitted
    split at admitted <;> simp at admitted

end

def InboxVerified (crypto : Recovery) (n : Node Chain B) : Prop :=
  ∀ p, .precommit p ∈ n.inbox → verifyVoteSignature crypto p.payload p.signature p.validator = true

theorem InboxVerified.step {L : Ledger Chain B} {k : Signer} {crypto : Recovery}
    {n : Node Chain B} {ev : LoopEvent Chain B} (verified : InboxVerified crypto n) :
    InboxVerified crypto (n.step L k crypto ev) := by
  intro p there
  rcases mem_inbox_step there with old | ⟨message, admitted⟩
  · exact verified p old
  · exact admit_precommit admitted

/-- Our own precommits for a hash are not counted, and a peer's comes from a
registered validator with the stake the total was taken over. -/
def Certified (L : Ledger Chain B) (n : Node Chain B) (ev : LoopEvent Chain B) : Prop :=
  match ev, Fed n ev with
  | .handle _, some (.precommit _ _ p) => p.blockHash = none
  | .drain _, some (.precommit _ _ p) => (n.elected.getValidator p.validator).isSome ∧
      (n.registry L).voteStake p.validator = n.elected.voteStake p.validator
  | _, _ => True

theorem Fed.drained {n : Node Chain B} {c : Choices B} {order : HashIter (Option Hash × Nat)}
    {listing : HashIter (Address × Option Hash × Bytes × Nat)} {p : Precommit}
    (fed : Fed n (.drain c) = some (.precommit order listing p)) : .precommit p ∈ n.inbox := by
  cases inbox : n.inbox with
  | nil => simp [Fed, inbox] at fed
  | cons message =>
    cases message with
    | precommit =>
      simp only [Fed, inbox, Option.some.injEq, EngineCall.precommit.injEq] at fed
      simp [fed.2.2]
    | propose => simp [Fed, inbox] at fed
    | prevote => simp [Fed, inbox] at fed
    | roundStatus => simp [Fed, inbox] at fed

theorem certified_admits {L : Ledger Chain B} {crypto : Recovery} {n : Node Chain B}
    {ev : LoopEvent Chain B} (verified : InboxVerified crypto n) (certified : Certified L n ev) :
    Lawful.Admits L (Certifiable crypto) (CertifiedAction crypto) n ev := by
  intro e call certifiable fed
  apply certifiable.perform
  cases call with
  | prevote => trivial
  | precommit _ _ p =>
    unfold Certified at certified
    rw [fed] at certified
    intro h named
    cases ev with
    | drain =>
      have checked := verified p (Fed.drained fed)
      rw [Precommit.payload, show p.blockHash = some h from named] at checked
      exact ⟨checked, certified.1, certified.2⟩
    | handle =>
      have nil : p.blockHash = none := certified
      cases nil.symm.trans named
    | chainMoves => cases fed
    | receive => cases fed
    | startHeight => cases fed
    | timeout => cases fed
    | rebroadcast => cases fed
    | restart => cases fed
  | advanceRound => trivial
  | catchUpRound => trivial
  | proposal => trivial
  | ownProposal => trivial
  | timeout => trivial
  | roundStatus => trivial
  | legacyRoundStatus => trivial
  | stash => trivial
  | markPrevoteCast => trivial
  | markPrecommitCast => trivial

theorem finalized_block_passes_gate {L : Ledger Chain B} {k : Signer} {crypto : Recovery}
    {chain : Chain} {file : Option LastSignState} {n : Node Chain B} {arm : Arm}
    {height round : Nat} {h : Hash} {j : BlockJustification}
    (run : Run (loop L k crypto chain file) (Certified L) n)
    (emitted : n.action = some (arm, .finalizeBlock height round h j))
    (before_fork : isBftSigningV2Active height = false)
    (active : n.elected.totalActiveStake ≠ 0) (chainId index : Nat) :
    (∀ p ∈ j.precommits, crypto.recoverSigner
      (Precommit.signingPayloadForHeight height round (some h) chainId) p.signature =
        some p.validator) ∧
    ∀ b : Block, b.hash = h → strictGate crypto ⟨n.elected, chainId, index⟩ b j = .ok () := by
  have kept : InboxVerified crypto n ∧ Lawful (Certifiable crypto) (CertifiedAction crypto) n := by
    refine run.invariant (fun n => InboxVerified crypto n ∧
      Lawful (Certifiable crypto) (CertifiedAction crypto) n)
      ⟨(fun p there => by cases there), lawful_boot L _ _ chain file⟩ ?_
    intro n ev before enabled certified
    exact ⟨before.1.step, before.2.step (certifiable_law L k crypto) enabled
      (certified_admits before.1 certified)⟩
  have verifiable := kept.2.action arm _ emitted height round h j rfl
  have recovers : ∀ p ∈ j.precommits, crypto.recoverSigner
      (Precommit.signingPayloadForHeight height round (some h) chainId) p.signature =
        some p.validator := by
    intro p member
    simp only [Precommit.signingPayloadForHeight, before_fork, Bool.false_eq_true, if_false]
    exact verifyVoteSignature_recovers (verifiable.signed p member)
  refine ⟨recovers, ?_⟩
  rintro b rfl
  obtain ⟨atHeight, atRound, named⟩ := verifiable.header
  refine strictGate_passes named verifiable.distinct ?_ verifiable.known active verifiable.enough
  intro p member
  rw [Recovers, atHeight, atRound, named]
  exact recovers p member

def seatLedger : Ledger Nat UInt8 :=
  { twoBlocks with stakeRegistry := fun _ => bondedSet seats }

def proposalSignature1 : Bytes :=
  signatureBytes 0xcf6e0d2c5514a8afe1d5fdfa15071fa9c4443a3f48c1608ff1fc8174e241bc68
    0x69a46dd8372e6f1a759fe263e009a125b5b48d6296208695693adc3b079688df 0

def prevoteSignature2 : Bytes :=
  signatureBytes 0xe1107aef4136b3e215e4dda11408f9085fb8624d7c681cc3c15c98023166f10c
    0x71af38a48a3d8936f77f2cce84e12694182c025f06dd758d25400104d9d889be 0

def prevoteSignature3 : Bytes :=
  signatureBytes 0x84f6262ce1d1c11cc33686940a4118d86a81bc53aab64718ddb1d0f66b3e911e
    0x308461c9c27d7eee6f8d4d679ecc6f73b03b91f29eaabf6ddb2086443e67ba3f 0

def precommitSignature1 : Bytes :=
  signatureBytes 0x24045801f77cce1c8311f656bf699a1a932d4753e224bb31fb88f32f0adf9f8d
    0x0f816898742bc9ec6ba62c8f5dabe94487be01cc84c23368d2fd8bcd38670e28 1

def precommitSignature2 : Bytes :=
  signatureBytes 0x612d0e947fe7c64f84d7d5611eaa4757fe6f6d8a2e1e5985ba37f77d6bf1000b
    0x2044e45e3ad561632d8e4ee2c47e047d275e0da8d6562f3d4aa40230527e68f5 0

def precommitSignature3 : Bytes :=
  signatureBytes 0x407b7fb574d4152abdde8383a35f6e00b539c86b898f4fd0bf8fbf6e733b64bb
    0x4448cabdd041dac67ae0e1e70dde58978b925a53fffbbc574606694a599699c6 0

def precommitSignature4 : Bytes :=
  signatureBytes 0xd9edaee6d218833bb92d71941cbdaea503560cd70a6cc48ca6a57b0cbcea1972
    0x0b3c64f6e3f4337d04f74e58bb0ddeac457febbb5f41a81e9495aa58f331cf7c 1

def seatRecovery : Recovery where
  recover payload signature :=
    if payload = Proposal.signingPayload 4 0 "h" then
      if signature = proposalSignature1 then seats[0]? else none
    else if payload = Prevote.signingPayload 4 0 (some "h") then
      if signature = prevoteSignature2 then seats[1]? else none
    else if payload = Precommit.signingPayload 4 0 (some "h") then
      if signature = precommitSignature1 then seats[0]?
      else if signature = precommitSignature2 then seats[1]?
      else if signature = precommitSignature4 then seats[3]? else none
    else none

def seatSigner : Signer where
  address := "0x6813eb9362372eef6200f3b1dbc3f819671cba69"
  signPayload payload :=
    if payload = Prevote.signingPayload 4 0 (some "h") then prevoteSignature3
    else if payload = Precommit.signingPayload 4 0 (some "h") then precommitSignature3 else []
  hashPayload payload :=
    if payload = Prevote.signingPayload 4 0 (some "h") then
      "40b8bbb309488f4ea34763d23f421b9c91b50daf10c4288d346adc72e9b0e99a"
    else if payload = Precommit.signingPayload 4 0 (some "h") then
      "881efa5ac43fc46bffdaf35883647d1fd13671b12d53a49fe18cac292e5d77d8"
    else ""

def peerPrecommit (voter : Address) (signature : Bytes) : BftMessage :=
  .precommit ⟨4, 0, some "h", voter, signature⟩

def takeUp (messages : List BftMessage) : List (LoopEvent Nat UInt8) :=
  messages.flatMap fun m =>
    [.receive m, .drain wellConnected, .handle wellConnected, .handle wellConnected]

instance (L : Ledger Chain B) (n : Node Chain B) (ev : LoopEvent Chain B) :
    Decidable (Certified L n ev) := by
  unfold Certified
  generalize Fed n ev = fed
  rcases ev with _ | _ | _ | _ | _ | _ | _ | _ <;>
    rcases fed with _ | (_ | _ | _ | _ | _ | _ | _ | _ | _ | _ | _ | _) <;> infer_instance

def hear (message : BftMessage) : List (LoopEvent Nat UInt8) :=
  [.receive message, .drain wellConnected]

def peersFinalise : List (LoopEvent Nat UInt8) :=
  .startHeight wellConnected :: (takeUp [
    peerPrecommit "0x7e5f4552091a69125d5dfcb7b8c2659029395bdf" precommitSignature1,
    peerPrecommit "0x2b5ad5c4795c026514f8317c7a215e218dccd6cf" precommitSignature2] ++
    hear (peerPrecommit "0x1eff47bc3a10a45d4b230b5d10e37751fe6aa718" precommitSignature4))

/-- Three peers precommit before this node has voted: their certificate passes. -/
theorem peers_certificate_passes_gate : ∃ n j,
    Run (loop seatLedger seatSigner seatRecovery 3 none) (Certified seatLedger) n ∧
      n.action = some (.peer, .finalizeBlock 4 0 "h" j) ∧ j.precommits.length = 3 ∧
      ∀ b : Block, b.hash = "h" → strictGate seatRecovery ⟨n.elected, 7119, 4⟩ b j = .ok () := by
  have run : Run (loop seatLedger seatSigner seatRecovery 3 none) (Certified seatLedger) _ :=
    Run.start.replay peersFinalise (by decide +kernel)
  refine ⟨_, _, run, rfl, by decide, ?_⟩
  exact (finalized_block_passes_gate run rfl (by decide) (by decide) 7119 4).2

def ownCertificate : BlockJustification where
  height := 4
  round := 0
  blockHash := "h"
  precommits := [
    ⟨"0x2b5ad5c4795c026514f8317c7a215e218dccd6cf", "h", precommitSignature2, minSelfStake⟩,
    ⟨"0x7e5f4552091a69125d5dfcb7b8c2659029395bdf", "h", precommitSignature1, minSelfStake⟩,
    ⟨"0x6813eb9362372eef6200f3b1dbc3f819671cba69", "h", [], minSelfStake⟩]

def ownFinalise : List (LoopEvent Nat UInt8) :=
  .startHeight wellConnected :: (hear (.propose ⟨4, 0, "h", [1],
    "0x7e5f4552091a69125d5dfcb7b8c2659029395bdf", proposalSignature1,
    some ⟨4, 0, some "h", "0x7e5f4552091a69125d5dfcb7b8c2659029395bdf", []⟩⟩) ++
    .handle wellConnected :: .drain wellConnected :: .handle wellConnected ::
    .handle wellConnected :: (takeUp [
      .prevote ⟨4, 0, some "h", "0x2b5ad5c4795c026514f8317c7a215e218dccd6cf", prevoteSignature2⟩,
      peerPrecommit "0x7e5f4552091a69125d5dfcb7b8c2659029395bdf" precommitSignature1] ++
      hear (peerPrecommit "0x2b5ad5c4795c026514f8317c7a215e218dccd6cf" precommitSignature2)))

/-- The node precommits itself: its own entry in the certificate is unsigned and
the gate refuses the block. -/
theorem own_precommit_fails_gate : ∃ n,
    Run (loop seatLedger seatSigner seatRecovery 3 none) (fun _ _ => True) n ∧
      n.action = some (.peer, .finalizeBlock 4 0 "h" ownCertificate) ∧
      isBftSigningV2Active 4 = false ∧
      (∃ p ∈ ownCertificate.precommits, seatRecovery.recoverSigner
        (Precommit.signingPayloadForHeight 4 0 (some "h") 7119) p.signature = none) ∧
      ∀ b : Block, strictGate seatRecovery ⟨bondedSet seats, 7119, 4⟩ b ownCertificate ≠ .ok () := by
  have run : Run (loop seatLedger seatSigner seatRecovery 3 none) (fun _ _ => True) _ :=
    Run.start.replay ownFinalise (by decide +kernel)
  refine ⟨_, run, by decide, by decide, by decide, ?_⟩
  intro b passed
  obtain ⟨_, _, verified, counted, _⟩ := Blockchain.strictGate_ok passed
  have refused : (verifiedStake seatRecovery ⟨bondedSet seats, 7119, 4⟩ ownCertificate
      ownCertificate.precommits [] 0).toBool = false := by decide
  rw [counted] at refused
  cases refused

end SentrixLoop
