import Sentrix.Core.Blockchain

/-!
The state commitment after a block: which accounts and counters are written to the trie,
under which keys and with which bytes, and the root that results. The tree itself
(insertion, deletion, commit) is a parameter of the model, of which nothing is assumed.
-/
namespace SentrixCore
open MachineWords Effects SentrixPrimitives SentrixTokens SentrixStaking

structure TrieOps where
  insert : Bytes → Bytes → EStateM SentrixError SentrixTrie Unit
  delete : Bytes → EStateM SentrixError SentrixTrie Unit
  commit : Nat → EStateM SentrixError SentrixTrie Bytes
  contractsHash : ContractRegistry → Bytes
  nftHash : NftRegistry → Bytes

def SentrixTrie.setRoot (t : SentrixTrie) (root : Bytes) : SentrixTrie :=
  { t with root := root }

def digest (w : Wire) (bytes : Bytes) : Bytes :=
  (hexDecode (w.sha256Hex bytes)).getD []

def beBytes (n : Nat) : Bytes :=
  (leBytes 8 n).reverse

/-- Every leading `0x`, not only the first. -/
def trimHexMark : List Char → List Char
  | '0' :: 'x' :: rest => trimHexMark rest
  | other => other

def plainAddress (u : Unicode) (address : Address) : String :=
  u.lowercase (String.ofList (trimHexMark address.toList))

/-- One key function for the three families of per-address keys. -/
def addressKey (w : Wire) (domain : String) (address : Address) : Bytes :=
  digest w (textBytes domain ++
    (hexDecode (plainAddress w.unicode address)).getD
      (textBytes (plainAddress w.unicode address)))

def addressToKey (w : Wire) : Address → Bytes := addressKey w ""
def validatorPendingRewardsKey (w : Wire) : Address → Bytes :=
  addressKey w "sentrix/v1/pending_rewards/"
def validatorLivenessKey (w : Wire) : Address → Bytes := addressKey w "sentrix/v1/liveness/"

def fixedKey (w : Wire) (domain : String) : Bytes := digest w (textBytes domain)

def totalMintedKey (w : Wire) : Bytes := fixedKey w "sentrix/v1/total_minted"
def epochStateKey (w : Wire) : Bytes := fixedKey w "sentrix/v1/epoch_state"
def nativeSrc20RegistryKey (w : Wire) : Bytes := fixedKey w "sentrix/v1/native_src20_registry"
def nativeNftRegistryKey (w : Wire) : Bytes := fixedKey w "sentrix/v1/native_nft_registry"

def accountValueBytes (balance nonce : Nat) : Bytes :=
  beBytes balance ++ beBytes nonce

def livenessValueBytes (signed missed jailUntil : Nat) (isJailed : Bool) : Bytes :=
  beBytes signed ++ beBytes missed ++ beBytes jailUntil ++ [if isJailed then 1 else 0]

def epochStateValueBytes (w : Wire) (e : EpochInfo) : Bytes :=
  let names := (e.validatorSet.map (plainAddress w.unicode)).insertionSort (· ≤ ·)
  beBytes e.epochNumber ++ beBytes e.startHeight ++ beBytes e.endHeight ++ beBytes e.totalStaked ++
    beBytes e.totalRewards ++ beBytes e.totalBlocksProduced ++
    digest w (names.flatMap fun name => textBytes (name ++ "\n"))

abbrev TrieWrite := Bytes × Option Bytes

def unlessZero (n : Nat) (value : Bytes) : Option Bytes :=
  if n = 0 then none else some value

namespace Blockchain

def touchedByTransactions (b : Block) : List Address :=
  b.transactions.flatMap fun tx =>
    (if isValidSentrixAddress tx.fromAddress then [tx.fromAddress] else []) ++
      (if isValidSentrixAddress tx.toAddress && tx.toAddress != tokenOpAddress then [tx.toAddress]
       else [])

def touchedAddresses (forks : Forks) (settings : Settings) (bc : Blockchain) (b : Block) :
    List Address :=
  let named := touchedByTransactions b ++
    (if isValidSentrixAddress b.validator then [b.validator] else []) ++
    (if settings.stateRootV2Height ≤ b.index then [protocolTreasury] else [])
  let all := named ++
    (if reached forks.extendedTouchList b.index then bc.accounts.touchedInBlock else [])
  all.dedup.insertionSort (· ≤ ·)

def accountWrites (w : Wire) (bc : Blockchain) (touched : List Address) : List TrieWrite :=
  touched.map fun a =>
    (addressToKey w a, unlessZero (bc.accounts.getBalance a)
      (accountValueBytes (bc.accounts.getBalance a) (bc.accounts.getNonce a)))

def stakingWrites (w : Wire) (bc : Blockchain) : List TrieWrite :=
  let validators := bc.stakeRegistry.validators.pairs.insertionSort fun a b => a.1 ≤ b.1
  (validators.map fun (a, v) =>
    (validatorPendingRewardsKey w a, unlessZero v.pendingRewards (beBytes v.pendingRewards))) ++
  (validators.map fun (a, v) =>
    let stats := bc.slashing.liveness.getStats a
    (validatorLivenessKey w a, some (livenessValueBytes stats.1 stats.2 v.jailUntil v.isJailed))) ++
  [(totalMintedKey w, some (beBytes bc.totalMinted)),
   (epochStateKey w, some (epochStateValueBytes w bc.epochManager.currentEpoch))]

def nativeWrites (w : Wire) (ops : TrieOps) (bc : Blockchain) : List TrieWrite :=
  [(nativeSrc20RegistryKey w, some (ops.contractsHash bc.contracts)),
   (nativeNftRegistryKey w, some (ops.nftHash bc.nftRegistry))]

def stateWrites (w : Wire) (forks : Forks) (ops : TrieOps) (touched : List Address)
    (bc : Blockchain) (index : Nat) : List TrieWrite :=
  bc.accountWrites w touched ++
    (if reached forks.stateInTrie index then bc.stakingWrites w else []) ++
    (if reached forks.nativeStateInTrie index then bc.nativeWrites w ops else [])

def writeTrie (ops : TrieOps) (entry : TrieWrite) : EStateM SentrixError SentrixTrie Unit :=
  match entry.2 with
  | some value => ops.insert entry.1 value
  | none => ops.delete entry.1

def commitWrites (forks : Forks) (ops : TrieOps) (writes : List TrieWrite) (index : Nat) :
    EStateM SentrixError SentrixTrie Bytes := do
  modify fun t => { t with canonicalDelete := reached forks.canonicalDelete index }
  writes.forM (writeTrie ops)
  ops.commit index

def rebaseTreasury (settings : Settings) (bc : Blockchain) : Blockchain :=
  let latest := bc.chain.getLast?.map (·.index)
  let rebase (target : Nat) (balance : Option Nat) (db : AccountDB) : AccountDB :=
    match balance with
    | some value => if latest = some target then db.setBalance protocolTreasury value else db
    | none => db
  { bc with
    accounts := rebase settings.treasuryRebaseHeight settings.treasuryRebaseBalance
      (rebase settings.stateRootV2Height settings.stateRootV2TreasuryBalance bc.accounts) }

def drainTouched (forks : Forks) (index : Nat) (bc : Blockchain) : Blockchain :=
  if reached forks.extendedTouchList index then
    { bc with accounts := bc.accounts.clearTouchedInBlock }
  else bc

def onTrie {α : Type} (trie : SentrixTrie) (m : EStateM SentrixError SentrixTrie α) : Apply α :=
  focus (fun _ => trie) (fun bc t => { bc with stateTrie := some t }) m

def trieUnavailable (nextHeight : Nat) : SentrixError :=
  .internal ("trie unavailable but next block height " ++ toString nextHeight ++
    " requires state_root (>= STATE_ROOT_FORK_HEIGHT). Recovery: wipe data dir and resync from a " ++
     "healthy peer. Validator should stop producing blocks until trie is rebuilt — running here " ++
     "would silently fork the chain.")

/-- What `bc` says is collected before the trie is written. -/
def commitBlock (w : Wire) (forks : Forks) (settings : Settings) (ops : TrieOps)
    (trie : SentrixTrie) (b : Block) (bc : Blockchain) : Apply (Option Bytes) := do
  modify (drainTouched forks b.index)
  let root ← onTrie trie (commitWrites forks ops
    (bc.stateWrites w forks ops (bc.touchedAddresses forks settings b) b.index) b.index)
  pure (some root)

def updateTrieForBlock (w : Wire) (forks : Forks) (settings : Settings) (ops : TrieOps) :
    Apply (Option Bytes) := do
  modify (rebaseTreasury settings)
  let bc ← get
  match bc.stateTrie with
  | none => do
    ensure (satAdd64 bc.height 1 < stateRootForkHeight) (trieUnavailable (satAdd64 bc.height 1))
    pure none
  | some trie =>
    match bc.chain.getLast? with
    | none => pure none
    | some b => commitBlock w forks settings ops trie b bc

end Blockchain
end SentrixCore
