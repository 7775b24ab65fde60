import Sentrix.Primitives.Accounts

/-!
Transactions, the token and staking operations their data field may carry, and
the stateless checks: signature verification and nonce, fee and chain id. JSON,
SHA-256 and secp256k1 are library code and enter as the fields of `Wire`.
-/
namespace SentrixPrimitives

def minTxFee : Nat := 10000
def coinbaseAddress : Address := "COINBASE"
def tokenOpAddress : Address := "0x0000000000000000000000000000000000000000"
def protocolTreasury : Address := "0x0000000000000000000000000000000000000002"

/-- `0x` and forty hex digits, in either case. -/
def isValidSentrixAddress (addr : Address) : Bool :=
  addr.utf8ByteSize == 42 && addr.toList.take 2 == ['0', 'x'] &&
    (addr.toList.drop 2).all fun c => c.isDigit || ('a' ≤ c && c ≤ 'f') || ('A' ≤ c && c ≤ 'F')

def zeroAddress : Address := "0x0000000000000000000000000000000000000000"

def isSpendableSentrixAddress (addr : Address) : Bool :=
  isValidSentrixAddress addr && addr != zeroAddress

inductive TokenOp where
  | deploy (name symbol : String) (decimals supply maxSupply : Nat)
  | transfer (contract recipient : Address) (amount : Nat)
  | burn (contract : Address) (amount : Nat)
  | mint (contract recipient : Address) (amount : Nat)
  | approve (contract spender : Address) (amount : Nat)
  | deployNft (name symbol baseUri : String) (maxSupply : Nat)
  | mintNft (contract recipient : Address) (tokenId : Nat) (metadataUri : String)
  | transferNft (contract sender recipient : Address) (tokenId : Nat)
  | burnNft (contract : Address) (tokenId : Nat)
  | approveNft (contract spender : Address) (tokenId : Nat)
  | setApprovalForAll (contract operator : Address) (approved : Bool)
  | deployMulti (name symbol baseUri : String)
  | mintMulti (contract recipient : Address) (tokenId amount : Nat) (data : String)
  | transferMulti (contract sender recipient : Address) (tokenId amount : Nat)
  | burnMulti (contract sender : Address) (tokenId amount : Nat)
  | batchMintMulti (contract recipient : Address) (ids amounts : List Nat)
  | batchTransferMulti (contract sender recipient : Address) (ids amounts : List Nat)
  deriving DecidableEq, Repr

structure JailEvidence where
  validator : Address
  signedCount : Nat
  missedCount : Nat
  justificationHashes : List Hash
  deriving DecidableEq, Repr

inductive StakingOp where
  | registerValidator (selfStake commissionRate : Nat) (publicKey : String)
  | delegate (validator : Address) (amount : Nat)
  | undelegate (validator : Address) (amount : Nat)
  | redelegate (source target : Address) (amount : Nat)
  | unjail
  | claimRewards
  | submitEvidence (height : Nat) (blockHashA blockHashB : Hash) (signatureA signatureB : String)
      (offender : Address)
  | jailEvidenceBundle (epoch epochStartBlock epochEndBlock : Nat) (evidence : List JailEvidence)
      (activeSet : List Address)
  | addSelfStake (amount : Nat)
  deriving DecidableEq, Repr

structure Transaction where
  txid : Hash
  fromAddress : Address
  toAddress : Address
  amount : Nat
  fee : Nat
  nonce : Nat
  data : String
  timestamp : Nat
  chainId : Nat
  signature : String
  publicKey : String
  deriving DecidableEq, Repr

structure Wire where
  quote : String → String
  tokenOp : String → Option TokenOp
  stakingOp : String → Option StakingOp
  sha256Hex : Bytes → Hash
  unicode : Unicode
  /-- The address of a hex-encoded public key, if it is a curve point. -/
  addressOfKey : String → Option Address
  /-- ECDSA over the SHA-256 digest of the payload: public key, signature, payload. -/
  verifyEcdsa : String → String → String → Bool

namespace Transaction

def isCoinbase (tx : Transaction) : Bool :=
  tx.fromAddress == coinbaseAddress

def isEvmTx (tx : Transaction) : Bool :=
  tx.data.toList.take 4 == ['E', 'V', 'M', ':']

/-- The substring test ahead of the parse. -/
def mentions (text part : String) : Bool :=
  text.toList.tails.any fun rest => part.toList.isPrefixOf rest

def isJailEvidenceBundleTx (w : Wire) (tx : Transaction) : Bool :=
  mentions tx.data "\"jail_evidence_bundle\"" &&
    match w.stakingOp tx.data with
    | some (.jailEvidenceBundle ..) => true
    | _ => false

def isSystemTx (w : Wire) (tx : Transaction) : Bool :=
  tx.fromAddress == protocolTreasury && tx.isJailEvidenceBundleTx w

/-- Keys in alphabetical order, as the map serialises. The txid is not covered. -/
def signingPayload (w : Wire) (tx : Transaction) : String :=
  "\x7b\"amount\":" ++ toString tx.amount ++ ",\"chain_id\":" ++ toString tx.chainId ++
    ",\"data\":" ++ w.quote tx.data ++ ",\"fee\":" ++ toString tx.fee ++
    ",\"from\":" ++ w.quote tx.fromAddress ++ ",\"nonce\":" ++ toString tx.nonce ++
    ",\"timestamp\":" ++ toString tx.timestamp ++ ",\"to\":" ++ w.quote tx.toAddress ++ "\x7d"

def computeTxid (w : Wire) (tx : Transaction) : Hash :=
  w.sha256Hex (textBytes (tx.signingPayload w))

/-- An EVM transaction passes here whatever its envelope says. -/
def verify (w : Wire) (tx : Transaction) : Except SentrixError Unit :=
  if tx.isCoinbase then
    if tx.signature.isEmpty && tx.publicKey.isEmpty then .ok ()
    else .error (.invalidTransaction "coinbase transaction must not have signature or public_key")
  else if tx.isEvmTx then .ok ()
  else if tx.isSystemTx w then
    if tx.signature.isEmpty && tx.publicKey.isEmpty then .ok ()
    else .error (.invalidTransaction
      "JailEvidenceBundle system tx must not have signature or public_key")
  else
    match w.addressOfKey tx.publicKey with
    | none => .error .invalidSignature
    | some derived =>
      if derived ≠ tx.fromAddress then
        .error (.invalidTransaction ("public key does not match from_address: expected " ++
          tx.fromAddress ++ ", derived " ++ derived))
      else if w.verifyEcdsa tx.publicKey tx.signature (tx.signingPayload w) then .ok ()
      else .error .invalidSignature

def carriesNoOp (w : Wire) (tx : Transaction) : Bool :=
  (w.tokenOp tx.data).isNone && !tx.isEvmTx && (w.stakingOp tx.data).isNone

def validate (w : Wire) (tx : Transaction) (expectedNonce expectedChainId : Nat) :
    Except SentrixError Unit :=
  if tx.isCoinbase then .ok ()
  else if tx.isSystemTx w then .ok ()
  else if tx.fee < minTxFee then
    .error (.invalidTransaction ("fee " ++ toString tx.fee ++ " below minimum " ++
      toString minTxFee))
  else if tx.amount = 0 && tx.carriesNoOp w then
    .error (.invalidTransaction "amount must be > 0 (unless token/EVM/staking operation)")
  else if tx.nonce ≠ expectedNonce then .error (.invalidNonce expectedNonce tx.nonce)
  else if tx.chainId ≠ expectedChainId then
    .error (.invalidTransaction ("wrong chain_id: expected " ++ toString expectedChainId ++
      ", got " ++ toString tx.chainId))
  else tx.verify w

def Signed (w : Wire) (tx : Transaction) : Prop :=
  w.addressOfKey tx.publicKey = some tx.fromAddress ∧
    w.verifyEcdsa tx.publicKey tx.signature (tx.signingPayload w) = true

instance (w : Wire) (tx : Transaction) : Decidable (tx.Signed w) :=
  inferInstanceAs (Decidable (_ ∧ _))

theorem signed_of_verify {w : Wire} {tx : Transaction} (plain : tx.isCoinbase = false)
    (ordinary : tx.isSystemTx w = false) (native : tx.isEvmTx = false)
    (passed : tx.verify w = .ok ()) : tx.Signed w := by
  simp only [verify, plain, ordinary, native, Bool.false_eq_true, if_false] at passed
  split at passed
  · cases passed
  · rename_i derived known
    by_cases own : derived = tx.fromAddress
    · subst own
      simp only [ne_eq, not_true_eq_false, if_false] at passed
      refine ⟨known, ?_⟩
      by_contra refused
      simp [refused] at passed
    · simp [own] at passed

theorem validate_ok {w : Wire} {tx : Transaction} {nonce chainId : Nat}
    (plain : tx.isCoinbase = false) (ordinary : tx.isSystemTx w = false)
    (passed : tx.validate w nonce chainId = .ok ()) :
    tx.nonce = nonce ∧ tx.chainId = chainId ∧ minTxFee ≤ tx.fee ∧
      (tx.isEvmTx = false → tx.Signed w) := by
  simp only [validate, plain, ordinary, Bool.false_eq_true, if_false] at passed
  split at passed
  · cases passed
  split at passed
  · cases passed
  split at passed
  · cases passed
  split at passed
  · cases passed
  rename_i cheap _ order chain
  exact ⟨not_not.mp order, not_not.mp chain, Nat.le_of_not_lt cheap,
    fun native => signed_of_verify plain ordinary native passed⟩

end Transaction
end SentrixPrimitives
