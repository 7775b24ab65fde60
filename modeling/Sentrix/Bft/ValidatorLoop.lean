import Sentrix.Lib.Runs
import Sentrix.Bft.EngineMoves
import Sentrix.Bft.LastSignGuard

/-!
The validator loop around the engine: messages pass the network boundary into an inbox,
one is drained at a time, and the action the engine hands back is followed until it has
nothing more to do.
-/
namespace SentrixLoop
open MachineWords HashTable SentrixPrimitives SentrixMessages SentrixStaking SentrixEngine
open SentrixGuard Runs

/-- What the loop uses of the chain. `addBlock` covers the bookkeeping the loop
does after a block went in, and says whether it went in. -/
structure Ledger (Chain Block : Type) where
  height : Chain → Nat
  stakeRegistry : Chain → StakeRegistry
  isActiveAuthority : Chain → Address → Bool
  bftReady : Chain → Bool
  hash : Block → Hash
  encode : Block → Bytes
  decode : Bytes → Option Block
  justify : Block → Nat → BlockJustification → Block
  validateBlock : Chain → Block → Bool
  addBlock : Chain → Block → Chain × Bool
  grows : ∀ chain block, height chain ≤ height (addBlock chain block).1

variable {Chain Block : Type}

inductive Arm where
  | proposing | peer | timeout
  deriving DecidableEq, Repr

inductive Note (Chain : Type) where
  | engine (e : BftEngine)
  | prevote (p : Prevote)
  | precommit (p : Precommit)
  | proposal (p : Proposal)
  | heard (p : Proposal) (chain : Chain)

structure Node (Chain Block : Type) where
  chain : Chain
  engine : Option BftEngine
  /-- The registry over which the engine's total was taken. -/
  elected : StakeRegistry
  action : Option (Arm × BftAction)
  inbox : List BftMessage
  proposedBlock : Option Block
  speculative : Option (Nat × Block × Proposal)
  lastSigned : Option Proposal
  guard : Option Guard
  journal : List (Note Chain)

/-- What is decided outside the loop during one step: disk and network results,
the block the producer comes up with, and hash map orders. -/
structure Choices (Block : Type) where
  persisted : Bool
  sent : Bool
  fresh : Option Block
  votes : HashIter (Option Hash × Nat)
  listing : HashIter (Address × Option Hash × Bytes × Nat)
  rounds : HashIter (Word32 × Nat)

inductive LoopEvent (Chain Block : Type) where
  | chainMoves (chain : Chain)
  | receive (message : BftMessage)
  | startHeight (c : Choices Block)
  | drain (c : Choices Block)
  | timeout
  | handle (c : Choices Block)
  | rebroadcast
  | restart (chain : Chain)

def isActiveBftSigner (L : Ledger Chain Block) (chain : Chain) (address : Address) : Bool :=
  (L.stakeRegistry chain).isActive address || L.isActiveAuthority chain address

def embeddedPrevote (p : Proposal) : List BftMessage :=
  match p.proposerPrevote with
  | some v =>
    if v.validator ≠ p.proposer then []
    else if v.height = p.height ∧ v.round = p.round ∧ v.blockHash = some p.blockHash then
      [.prevote v]
    else []
  | none => []

def admitMessage (L : Ledger Chain Block) (crypto : Recovery) (chain : Chain) :
    BftMessage → List BftMessage
  | .propose p =>
    if verifyVoteSignature crypto (Proposal.signingPayload p.height p.round p.blockHash)
        p.signature p.proposer && isActiveBftSigner L chain p.proposer then
      embeddedPrevote p ++ [.propose p]
    else []
  | .prevote p =>
    if verifyVoteSignature crypto p.payload p.signature p.validator &&
        isActiveBftSigner L chain p.validator then [.prevote p]
    else []
  | .precommit p =>
    if verifyVoteSignature crypto p.payload p.signature p.validator &&
        isActiveBftSigner L chain p.validator then [.precommit p]
    else []
  | .roundStatus s =>
    if verifyVoteSignature crypto (RoundStatus.signingPayload s.height s.round s.validator)
        s.signature s.validator && isActiveBftSigner L chain s.validator then [.roundStatus s]
    else []

/-- A height at which something was signed before is taken up past that round. -/
def resumeRound (guard : Option Guard) (nextHeight : Nat) : Nat :=
  match guard with
  | some g =>
    if g.state.height = nextHeight then
      if 1 ≤ g.state.step then satAdd32 g.state.round 1 else g.state.round
    else 0
  | none => 0

def newEngine (L : Ledger Chain Block) (k : Signer) (chain : Chain) (guard : Option Guard) :
    BftEngine :=
  Nat.iterate BftEngine.advanceRound (resumeRound guard (L.height chain + 1))
    (BftEngine.new (L.height chain + 1) k.address (L.stakeRegistry chain).totalActiveStake)

def proposalOf (k : Signer) (height round : Nat) (hash : Hash) (bytes : Bytes) : Proposal where
  height := height
  round := round
  blockHash := hash
  blockData := bytes
  proposer := k.address
  signature := []
  proposerPrevote := some ⟨height, round, some hash, k.address, []⟩

def blockToPropose (L : Ledger Chain Block) (c : Choices Block) (e : BftEngine) :
    Option (Block × Hash × Bytes) :=
  let built := c.fresh.map fun block => (block, L.hash block, L.encode block)
  match e.lockedProposalBytes with
  | some (hash, bytes) =>
    match L.decode bytes with
    | some block => some (block, hash, bytes)
    | none => built
  | none => built

def buildOrReuseProposal (L : Ledger Chain Block) (k : Signer) (c : Choices Block)
    (guard : Option Guard) (e : BftEngine) : Option Guard × Option (Block × Proposal) :=
  match blockToPropose L c e with
  | some (block, hash, bytes) =>
    let signed := k.signProposal c.persisted guard
      (proposalOf k e.state.height e.state.round hash bytes)
    (signed.1, some (block, signed.2))
  | none => (guard, none)

namespace Node

def registry (L : Ledger Chain Block) (n : Node Chain Block) : StakeRegistry :=
  L.stakeRegistry n.chain

def call (L : Ledger Chain Block) (n : Node Chain Block) (e : BftEngine) (c : EngineCall)
    (arm : Option Arm) : Node Chain Block :=
  let result := e.perform (n.registry L) c
  { n with
    engine := some result.1
    action := arm.map fun a => (a, result.2)
    journal := .engine result.1 :: n.journal }

/-- Send a proposal, keep its block and vote for it. The vote's action is followed
only when a height starts; after a round change it waits for the next timeout. -/
def offer (L : Ledger Chain Block) (n : Node Chain Block) (e : BftEngine) (block : Block)
    (proposal : Proposal) (arm : Option Arm) (keep : Bool) : Node Chain Block :=
  let stashed := e.stashProposalBytes (L.hash block) proposal.blockData
  let sent := { n with
    proposedBlock := some block
    lastSigned := if keep then some proposal else n.lastSigned
    journal := .proposal proposal :: n.journal }
  sent.call L stashed (.ownProposal (L.hash block)) arm

def propose (L : Ledger Chain Block) (k : Signer) (c : Choices Block) (n : Node Chain Block)
    (e : BftEngine) (arm : Option Arm) (keep : Bool) : Node Chain Block :=
  match buildOrReuseProposal L k c n.guard e with
  | (guard, some (block, proposal)) => { n with guard := guard }.offer L e block proposal arm keep
  | (guard, none) => { n with guard := guard, engine := some e }

def startHeight (L : Ledger Chain Block) (k : Signer) (c : Choices Block)
    (n : Node Chain Block) : Node Chain Block :=
  let e := newEngine L k n.chain n.guard
  let started := { n with
    engine := some e
    elected := n.registry L
    proposedBlock := none
    lastSigned := none
    journal := .engine e :: n.journal }
  if e.isProposer (n.registry L) then
    let taken := { started with speculative := none }
    match n.speculative.filter fun s =>
        s.1 = L.height n.chain + 1 ∧ e.state.round = 0 ∧ e.lockedProposalBytes = none with
    | some (_, block, proposal) => taken.offer L e block proposal (some .proposing) true
    | none => taken.propose L k c e (some .proposing) true
  else started

def drain (L : Ledger Chain Block) (c : Choices Block) (n : Node Chain Block) (e : BftEngine) :
    BftMessage → Node Chain Block
  | .propose p =>
    if p.height ≠ e.state.height ∨ p.round ≠ e.state.round then n
    else
      match L.decode p.blockData with
      | some block =>
        let stashed := e.stashProposalBytes p.blockHash p.blockData
        let noted := { n with
          proposedBlock := some block
          journal := .heard p n.chain :: n.journal }
        noted.call L stashed (.proposal p.blockHash p.proposer) (some .peer)
      | none => n
  | .prevote p => n.call L e (.prevote c.votes p) (some .peer)
  | .precommit p => n.call L e (.precommit c.votes c.listing p) (some .peer)
  | .roundStatus s => n.call L e (.roundStatus c.rounds s) (some .peer)

def prepareNext (L : Ledger Chain Block) (k : Signer) (c : Choices Block)
    (n : Node Chain Block) : Node Chain Block :=
  let next := L.height n.chain + 1
  if (n.registry L).weightedProposer next 0 = some k.address then
    match c.fresh with
    | some block =>
      let signed := k.signProposal c.persisted n.guard
        (proposalOf k next 0 (L.hash block) (L.encode block))
      { n with guard := signed.1, speculative := some (next, block, signed.2) }
    | none => { n with speculative := none }
  else { n with speculative := none }

def finalize (L : Ledger Chain Block) (k : Signer) (c : Choices Block) (n : Node Chain Block)
    (e : BftEngine) (height round : Nat) (blockHash : Hash)
    (justification : BlockJustification) : Node Chain Block :=
  if height ≤ L.height n.chain then { n with proposedBlock := none, action := none }
  else
    match e.peerSupermajorityHigherRound c.rounds with
    | some target => n.call L e (.catchUpRound target) none
    | none =>
      match n.proposedBlock with
      | none => { n with action := none }
      | some block =>
        let dropped := { n with proposedBlock := none, action := none }
        if L.hash block ≠ blockHash then dropped
        else
          let complete := L.justify block round justification
          if L.validateBlock n.chain complete then
            match L.addBlock n.chain complete with
            | (chain, true) => { dropped with chain := chain }.prepareNext L k c
            | (chain, false) => { dropped with chain := chain }
          else dropped

def nextRound (L : Ledger Chain Block) (k : Signer) (c : Choices Block) (n : Node Chain Block)
    (e : BftEngine) (keep : Bool) : Node Chain Block :=
  let advanced := n.call L e .advanceRound none
  let e' := e.advanceRound
  if e'.isProposer (n.registry L) then advanced.propose L k c e' none keep else advanced

/-- One pass of the action loop. The loop after a timeout does not finalize. -/
def handle (L : Ledger Chain Block) (k : Signer) (c : Choices Block) (n : Node Chain Block)
    (e : BftEngine) (arm : Arm) : BftAction → Node Chain Block
  | .broadcastPrevote p =>
    let signed := k.signPrevote c.persisted n.guard p
    if c.sent then
      { n with guard := signed.1, journal := .prevote signed.2 :: n.journal }.call L
        e.markPrevoteCast (.prevote c.votes p) (some arm)
    else { n with guard := signed.1, action := none }
  | .broadcastPrecommit p =>
    let signed := k.signPrecommit c.persisted n.guard p
    if c.sent then
      { n with guard := signed.1, journal := .precommit signed.2 :: n.journal }.call L
        e.markPrecommitCast (.precommit c.votes c.listing p) (some arm)
    else { n with guard := signed.1, action := none }
  | .finalizeBlock height round blockHash justification =>
    if arm = .timeout then { n with action := none }
    else n.finalize L k c e height round blockHash justification
  | .timeoutAdvanceRound => n.nextRound L k c e (arm ≠ .timeout)
  | .skipRound => n.nextRound L k c e (arm ≠ .timeout)
  | .syncNeeded _ => { n with action := none }
  | .wait => { n with action := none }
  | .proposeBlock => { n with action := none }

def rebroadcasts (n : Node Chain Block) (e : BftEngine) (p : Proposal) : Bool :=
  n.lastSigned = some p ∧ n.proposedBlock.isSome ∧ p.height = e.state.height ∧
    p.round = e.state.round ∧ (e.state.phase = .propose ∨ e.state.phase = .prevote)

def needNewRound (L : Ledger Chain Block) (n : Node Chain Block) : Bool :=
  match n.engine with
  | none => true
  | some e => e.state.height ≤ L.height n.chain

def step (L : Ledger Chain Block) (k : Signer) (crypto : Recovery) (n : Node Chain Block) :
    LoopEvent Chain Block → Node Chain Block
  | .chainMoves chain => { n with chain := chain }
  | .receive message => { n with inbox := n.inbox ++ admitMessage L crypto n.chain message }
  | .startHeight c => n.startHeight L k c
  | .drain c =>
    match n.engine, n.inbox with
    | some e, message :: rest => { n with inbox := rest }.drain L c e message
    | _, _ => n
  | .timeout =>
    match n.engine with
    | some e => n.call L e .timeout (some .timeout)
    | none => n
  | .handle c =>
    match n.engine, n.action with
    | some e, some (arm, action) => n.handle L k c e arm action
    | _, _ => n
  | .rebroadcast =>
    match n.engine, n.lastSigned with
    | some e, some p =>
      if n.rebroadcasts e p then { n with journal := .proposal p :: n.journal } else n
    | _, _ => n
  | .restart chain =>
    { chain := chain
      engine := none
      elected := L.stakeRegistry chain
      action := none
      inbox := []
      proposedBlock := none
      speculative := none
      lastSigned := none
      guard := n.guard.map fun g => Guard.init (some g.disk)
      journal := n.journal }

/-- Between steps of the loop an action is followed to its end. -/
def Enabled (L : Ledger Chain Block) (n : Node Chain Block) : LoopEvent Chain Block → Prop
  | .chainMoves chain => L.height n.chain ≤ L.height chain
  | .receive _ => True
  | .startHeight _ => n.action = none ∧ n.needNewRound L ∧ L.bftReady n.chain
  | .drain _ => n.action = none
  | .timeout => n.action = none
  | .handle _ => True
  | .rebroadcast => n.action = none
  | .restart chain => L.height n.chain ≤ L.height chain

instance (L : Ledger Chain Block) (n : Node Chain Block) : ∀ ev, Decidable (n.Enabled L ev)
  | .chainMoves _ => inferInstanceAs (Decidable (_ ≤ _))
  | .startHeight _ =>
    have : Decidable (n.action = none) := inferInstance
    inferInstanceAs (Decidable (_ ∧ _))
  | .drain _ | .timeout | .rebroadcast => inferInstanceAs (Decidable (n.action = none))
  | .receive _ | .handle _ => inferInstanceAs (Decidable True)
  | .restart _ => inferInstanceAs (Decidable (_ ≤ _))

def boot (L : Ledger Chain Block) (chain : Chain) (file : Option LastSignState) :
    Node Chain Block where
  chain := chain
  engine := none
  elected := L.stakeRegistry chain
  action := none
  inbox := []
  proposedBlock := none
  speculative := none
  lastSigned := none
  guard := some (Guard.init file)
  journal := []

end Node

def loop (L : Ledger Chain Block) (k : Signer) (crypto : Recovery) (chain : Chain)
    (file : Option LastSignState) : System (Node Chain Block) (LoopEvent Chain Block) where
  init := Node.boot L chain file
  enabled := Node.Enabled L
  step := Node.step L k crypto

instance (L : Ledger Chain Block) (k : Signer) (crypto : Recovery) (chain : Chain)
    (file : Option LastSignState) (n : Node Chain Block) (ev : LoopEvent Chain Block) :
    Decidable ((loop L k crypto chain file).enabled n ev) :=
  inferInstanceAs (Decidable (n.Enabled L ev))

end SentrixLoop
