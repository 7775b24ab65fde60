import Sentrix.Core.Evm
import Sentrix.Core.StateTrie

/-!
Everything `add_block` checks before it mutates: structure, producer and time, the
justification gate for peer blocks, the coinbase, and a dry run of the transactions over
working balances and nonces.
-/
namespace SentrixCore
open MachineWords HashTable Effects SentrixPrimitives SentrixTokens SentrixStaking SentrixMessages

/-- The library code and the configuration a node runs with. -/
structure Platform where
  wire : Wire
  votes : Recovery
  forks : Forks
  settings : Settings
  trie : TrieOps
  evm : EvmHost

def require (condition : Bool) (e : SentrixError) : Except SentrixError Unit :=
  if condition then .ok () else .error e

theorem require_ok {condition : Bool} {e : SentrixError} {u : Unit} :
    require condition e = .ok u ↔ condition = true := by
  cases condition <;> simp [require]

namespace Blockchain

def expectedIndex (bc : Blockchain) : Nat :=
  wrapAdd64 bc.height 1

def checkProducer (forks : Forks) (bc : Blockchain) (b : Block) : Except SentrixError Unit :=
  if bc.voyagerModeFor forks bc.expectedIndex then .ok ()
  else
    match bc.authority.isAuthorized b.validator bc.expectedIndex with
    | .error e => .error e
    | .ok authorized => require authorized (.unauthorizedValidator ("validator " ++ b.validator ++
        " not authorized for block " ++ toString bc.expectedIndex))

def checkTimestamp (now : Nat) (previous b : Block) : Except SentrixError Unit := do
  require (previous.timestamp ≤ b.timestamp)
    (.invalidBlock "block timestamp is before previous block")
  require (b.timestamp ≤ now + 15) (.invalidBlock "block timestamp too far in the future")

def blockText (index : Nat) : String :=
  "block " ++ toString index

structure GateView where
  registry : StakeRegistry
  chainId : Nat
  index : Nat

def gateView (bc : Blockchain) : GateView :=
  ⟨bc.stakeRegistry, bc.chainId, bc.expectedIndex⟩

/-- One precommit of a justification under the strict rule: the stake it adds.
The lookup is in the whole registry. -/
def verifiedPrecommit (votes : Recovery) (g : GateView) (j : BlockJustification)
    (p : SignedPrecommit) : Except SentrixError Nat :=
  match g.registry.getValidator p.validator with
  | none => .error (.invalidBlock (blockText g.index ++ " justification cites validator " ++
      p.validator ++ " not in our active set — peer-finalised view diverges, refusing to apply"))
  | some val =>
    match votes.recoverSigner (Precommit.signingPayloadForHeight j.height j.round
      (some j.blockHash) g.chainId) p.signature with
    | none => .error (.invalidBlock (blockText g.index ++ " precommit from " ++ p.validator ++
        " has invalid signature"))
    | some recovered =>
      if votes.unicode.lowercase recovered ≠ votes.unicode.lowercase p.validator then
        .error (.invalidBlock (blockText g.index ++ " precommit from " ++ p.validator ++
          " signed by different key (recovered=" ++ recovered ++ ")"))
      else .ok val.totalStake

def verifiedStake (votes : Recovery) (g : GateView) (j : BlockJustification) :
    List SignedPrecommit → List Address → Nat → Except SentrixError Nat
  | [], _, stake => .ok stake
  | p :: rest, seen, stake =>
    if seen.contains p.validator then
      .error (.invalidBlock (blockText g.index ++ " justification has duplicate precommit from " ++
        p.validator))
    else
      match verifiedPrecommit votes g j p with
      | .error e => .error e
      | .ok added => verifiedStake votes g j rest (p.validator :: seen) (satAdd64 stake added)

def strictGate (votes : Recovery) (g : GateView) (b : Block) (j : BlockJustification) :
    Except SentrixError Unit := do
  let total := g.registry.totalActiveStake
  require (j.blockHash == b.hash) (.invalidBlock (blockText g.index ++
    " hash mismatch: block.hash=" ++ b.hash ++ " != justification.block_hash=" ++ j.blockHash ++
    " — peer block has inconsistent block/justification refs, refusing to apply"))
  let verified ← verifiedStake votes g j j.precommits [] 0
  require (total != 0) (.invalidBlock (blockText g.index ++
    " arrived during cold-start (total_active_stake=0); strict-justification fork active so we " ++
     "refuse to bypass — bypass_authz replay should be used to catch up"))
  require (supermajorityThreshold total ≤ verified) (.invalidBlock (blockText g.index ++
    " verified-stake " ++ toString verified ++ " < threshold " ++
    toString (supermajorityThreshold total) ++ " (total_active_stake=" ++ toString total ++
    ", signers=" ++ toString j.precommits.length ++
    ") — peer-finalised view diverges from ours, refusing to apply"))

/-- Before the strict fork only the claimed weights are added up, and an empty
active set lets everything through. -/
def legacyGate (g : GateView) (j : BlockJustification) : Except SentrixError Unit :=
  let total := g.registry.totalActiveStake
  require (total == 0 || j.hasSupermajority total) (.invalidBlock (blockText g.index ++
    " justification stake " ++ toString j.totalStake ++
    " is below the local supermajority threshold " ++ toString (supermajorityThreshold total) ++
    " (total_active_stake=" ++ toString total ++ ", signers=" ++ toString j.precommits.length ++
    ") — peer-finalised view diverges from ours, refusing to apply"))

def justificationGate (env : Platform) (bc : Blockchain) (b : Block) (j : BlockJustification) :
    Except SentrixError Unit :=
  if reached env.forks.strictJustification bc.expectedIndex then
    strictGate env.votes bc.gateView b j
  else legacyGate bc.gateView j

def gated (env : Platform) (bc : Blockchain) : Bool :=
  !env.settings.replayBypassAuthz && bc.sourceForCurrentAdd == .peer &&
    bc.voyagerModeFor env.forks bc.expectedIndex

/-- Passes and says whether a justification was verified. -/
def checkJustification (env : Platform) (bc : Blockchain) (b : Block) : Except SentrixError Bool :=
  match b.justification with
  | some j => if bc.gated env then (bc.justificationGate env b j).map fun _ => true else .ok false
  | none => .ok false

def checkCoinbase (forks : Forks) (bc : Blockchain) (b : Block) : Except SentrixError Unit :=
  match b.coinbase with
  | none => .error (.invalidBlock "missing coinbase")
  | some coinbase => do
    require (coinbase.amount == bc.getBlockReward forks)
      (.invalidBlock ("coinbase amount " ++ toString coinbase.amount ++
        " must equal block reward " ++ toString (bc.getBlockReward forks)))
    require (coinbase.toAddress == b.validator)
      (.invalidBlock ("coinbase recipient " ++ coinbase.toAddress ++
        " must equal block validator " ++ b.validator))

structure Working where
  balances : Table Address Nat
  nonces : Table Address Nat
  seen : List (Address × Nat)
  /-- The registry after the NFT operations so far, once there is one. -/
  nft : Option NftRegistry

def Working.start : Working := ⟨∅, ∅, [], none⟩

def Working.balance (work : Working) (bc : Blockchain) (a : Address) : Nat :=
  (work.balances.lookup a).getD (bc.accounts.getBalance a)

def Working.nonce (work : Working) (bc : Blockchain) (a : Address) : Nat :=
  (work.nonces.lookup a).getD (bc.accounts.getNonce a)

def contractExists (bc : Blockchain) (contract : Address) : Except SentrixError Unit :=
  require (bc.contracts.contains contract)
    (.invalidTransaction ("token contract " ++ contract ++ " not found"))

def tokenFunds (bc : Blockchain) (contract holder : Address) (amount : Nat) :
    Except SentrixError Unit :=
  require (amount ≤ bc.contracts.getTokenBalance contract holder)
    (.insufficientBalance (bc.contracts.getTokenBalance contract holder) amount)

def nftGated : SentrixError :=
  .invalidTransaction "NFT TokenOp dispatch is gated by NFT_TOKENOP_HEIGHT fork (currently disabled)"

/-- The token part of the dry run; token balances are those before the block. -/
def checkTokenOp (env : Platform) (bc : Blockchain) (work : Working) (tx : Transaction)
    (op : TokenOp) : Except SentrixError Working :=
  match op with
  | .transfer contract recipient amount => do
    bc.contractExists contract
    require (isSpendableSentrixAddress recipient)
      (.invalidTransaction ("invalid token transfer target address: '" ++ recipient ++
        "' (zero address rejected — use Burn op to destroy tokens)"))
    bc.tokenFunds contract tx.fromAddress amount
    .ok work
  | .burn contract amount => do
    bc.contractExists contract
    bc.tokenFunds contract tx.fromAddress amount
    .ok work
  | .mint contract recipient _ => do
    bc.contractExists contract
    require (isSpendableSentrixAddress recipient)
      (.invalidTransaction ("invalid token mint target address: '" ++ recipient ++
        "' (zero address rejected)"))
    .ok work
  | .approve contract spender _ => do
    bc.contractExists contract
    require (isValidSentrixAddress spender)
      (.invalidTransaction ("invalid token approve spender address: '" ++ spender ++ "'"))
    .ok work
  | .deploy name symbol _ _ _ => do
    require (validTokenName name) (.invalidTransaction "token name must be 1–64 characters")
    require (validTokenSymbol symbol)
      (.invalidTransaction "token symbol must be 1–10 ASCII alphanumeric characters")
    .ok work
  | nftOp => do
    require (reached env.forks.nftTokenOp bc.expectedIndex) nftGated
    match applyNftTokenOp env.wire nftOp tx.fromAddress tx.txid (work.nft.getD bc.nftRegistry) with
    | .ok _ reg => .ok { work with nft := some reg }
    | .error e _ => .error e

def checkTransaction (env : Platform) (bc : Blockchain) (work : Working) (tx : Transaction) :
    Except SentrixError Working :=
  if tx.isSystemTx env.wire then .ok work
  else do
    require (!work.seen.contains (tx.fromAddress, tx.nonce))
      (.invalidBlock ("duplicate (sender, nonce) pair for " ++ tx.fromAddress ++ " nonce " ++
        toString tx.nonce ++ " in block"))
    let balance := work.balance bc tx.fromAddress
    let nonce := work.nonce bc tx.fromAddress
    tx.validate env.wire nonce bc.chainId
    match checkedAdd64 tx.amount tx.fee with
    | none => .error (.invalidTransaction "amount + fee overflow")
    | some needed => do
      require (needed ≤ balance) (.insufficientBalance balance needed)
      let checked ← match env.wire.tokenOp tx.data with
        | some op => bc.checkTokenOp env work tx op
        | none => .ok work
      .ok { checked with
        seen := (tx.fromAddress, tx.nonce) :: work.seen
        balances := work.balances.insert tx.fromAddress (balance - needed)
        nonces := work.nonces.insert tx.fromAddress (wrapAdd64 nonce 1) }

def checkTransactions (env : Platform) (bc : Blockchain) :
    List Transaction → Working → Except SentrixError Working
  | [], work => .ok work
  | tx :: rest, work =>
    match bc.checkTransaction env work tx with
    | .error e => .error e
    | .ok next => checkTransactions env bc rest next

def checkHeader (env : Platform) (now : Nat) (bc : Blockchain) (b : Block) :
    Except SentrixError Bool := do
  let previous ← bc.latestBlock
  b.validateStructure env.wire bc.expectedIndex previous.hash
  (if env.settings.replayBypassAuthz then .ok () else bc.checkProducer env.forks b)
  checkTimestamp now previous b
  bc.checkJustification env b

def checkContents (env : Platform) (bc : Blockchain) (b : Block) : Except SentrixError Unit := do
  bc.checkCoinbase env.forks b
  let _ ← bc.checkTransactions env b.transactions.tail .start
  pure ()

/-- At an epoch boundary after the jail fork, evidence may not be left out. -/
def checkJailEvidence (env : Platform) (bc : Blockchain) (b : Block) : Except SentrixError Unit :=
  let index := bc.expectedIndex
  let evidence := bc.slashing.computeJailEvidence bc.stakeRegistry.activeSet index
  require (!(reached env.forks.jailConsensus index && EpochManager.isEpochBoundary index &&
      !evidence.isEmpty && !b.transactions.any (·.isSystemTx env.wire)))
    (.invalidBlock ("boundary block " ++ toString index ++
      " missing required JailEvidenceBundle (local evidence: " ++ toString evidence.length ++
      " entries — proposer omitted required system op)"))

def validateBlock (env : Platform) (now : Nat) (bc : Blockchain) (b : Block) :
    Except SentrixError Unit := do
  let previous ← bc.latestBlock
  b.validateStructure env.wire bc.expectedIndex previous.hash
  bc.checkProducer env.forks b
  checkTimestamp now previous b
  bc.checkJailEvidence env b
  bc.checkContents env b

variable {env : Platform} {bc : Blockchain}

theorem checkHeader_ok {now : Nat} {b : Block} {verified : Bool}
    (passed : bc.checkHeader env now b = .ok verified) :
    ∃ previous, bc.latestBlock = .ok previous ∧
      b.WellStructured env.wire bc.expectedIndex previous.hash ∧
      bc.checkJustification env b = .ok verified := by
  unfold checkHeader at passed
  obtain ⟨previous, latest, passed⟩ := except_bind_ok.mp passed
  obtain ⟨_, structured, passed⟩ := except_bind_ok.mp passed
  obtain ⟨_, _, passed⟩ := except_bind_ok.mp passed
  obtain ⟨_, _, passed⟩ := except_bind_ok.mp passed
  exact ⟨previous, latest, Block.wellStructured_of_ok structured, passed⟩

theorem checkContents_ok {b : Block} {u : Unit} (passed : bc.checkContents env b = .ok u) :
    bc.checkCoinbase env.forks b = .ok () ∧
      ∃ work, bc.checkTransactions env b.transactions.tail .start = .ok work := by
  unfold checkContents at passed
  obtain ⟨_, coinbase, passed⟩ := except_bind_ok.mp passed
  obtain ⟨work, checked, _⟩ := except_bind_ok.mp passed
  exact ⟨coinbase, work, checked⟩

variable {work next : Working} {tx : Transaction}

theorem checkTransaction_system (system : tx.isSystemTx env.wire = true)
    (passed : bc.checkTransaction env work tx = .ok next) : next = work := by
  unfold checkTransaction at passed
  rw [if_pos system] at passed
  cases passed
  rfl

theorem checkTransaction_ok (ordinary : tx.isSystemTx env.wire = false)
    (passed : bc.checkTransaction env work tx = .ok next) :
    (tx.fromAddress, tx.nonce) ∉ work.seen ∧
      tx.validate env.wire (work.nonce bc tx.fromAddress) bc.chainId = .ok () ∧
      next.seen = (tx.fromAddress, tx.nonce) :: work.seen ∧
      next.nonces = work.nonces.insert tx.fromAddress
        (wrapAdd64 (work.nonce bc tx.fromAddress) 1) := by
  unfold checkTransaction at passed
  rw [if_neg (by simp [ordinary])] at passed
  obtain ⟨_, fresh, passed⟩ := except_bind_ok.mp passed
  obtain ⟨_, valid, passed⟩ := except_bind_ok.mp passed
  have unseen := require_ok.mp fresh
  split at passed
  · cases passed
  · obtain ⟨_, _, passed⟩ := except_bind_ok.mp passed
    cases decoded : env.wire.tokenOp tx.data with
    | none | some op =>
      simp only [decoded] at passed
      obtain ⟨checked, _, passed⟩ := except_bind_ok.mp passed
      cases passed
      exact ⟨by simpa using unseen, valid, rfl, rfl⟩

theorem Working.nonce_insert {sender : Address} {n : Nat}
    (wrote : next.nonces = work.nonces.insert sender n) (a : Address) :
    next.nonce bc a = if a = sender then n else work.nonce bc a := by
  unfold Working.nonce
  rw [wrote]
  by_cases same : a = sender
  · subst same
    simp
  · simp [same, AList.lookup_insert_ne]

theorem checkTransactions_cons {done : Working} {rest : List Transaction}
    (passed : bc.checkTransactions env (tx :: rest) work = .ok done) :
    ∃ next, bc.checkTransaction env work tx = .ok next ∧
      bc.checkTransactions env rest next = .ok done := by
  unfold checkTransactions at passed
  split at passed
  · cases passed
  · rename_i next first
    exact ⟨next, first, passed⟩

end Blockchain
end SentrixCore
