import Sentrix.Primitives.Transactions

/-!
Native NFT collections. Every method checks first and writes last; a burned token stays
as a tombstone, so its id is never minted again.
-/
namespace SentrixTokens
open MachineWords HashTable Effects SentrixPrimitives

inductive NftError where
  | unauthorized (reason : String)
  | tokenAlreadyExists (tokenId : Nat)
  | tokenNotFound (tokenId : Nat)
  | notOwner (tokenId : Nat) (claimed : Address)
  | notTransferable (tokenId : Nat)
  | tokenFrozen (tokenId : Nat)
  | collectionFrozen
  | metadataLocked
  | maxSupplyReached (minted max : Nat)
  | invalidParams (reason : String)
  | collectionExists (id : String)
  | overflow (counter : String)
  deriving DecidableEq, Repr

def NftError.text : NftError → String
  | .unauthorized reason => "unauthorized: " ++ reason
  | .tokenAlreadyExists id =>
    "token_id " ++ toString id ++ " already exists (ids are never reused after burn)"
  | .tokenNotFound id => "token_id " ++ toString id ++ " not found"
  | .notOwner id claimed => "token_id " ++ toString id ++ ": " ++ claimed ++ " is not the owner"
  | .notTransferable id => "token_id " ++ toString id ++ " is soulbound (non-transferable)"
  | .tokenFrozen id => "token_id " ++ toString id ++ " is frozen"
  | .collectionFrozen => "collection is frozen"
  | .metadataLocked => "collection metadata is locked"
  | .maxSupplyReached minted max =>
    "max supply reached: " ++ toString minted ++ " minted, max " ++ toString max
  | .invalidParams reason => "invalid params: " ++ reason
  | .collectionExists id => "collection " ++ id ++ " already exists"
  | .overflow counter => "arithmetic overflow: " ++ counter

def nftErrToSentrix (e : NftError) : SentrixError :=
  match e with
  | .unauthorized _ => .unauthorizedValidator e.text
  | .overflow _ => .internal e.text
  | _ => .invalidTransaction e.text

inductive NftEvent where
  | collectionCreated (id : String) (creator : Address) (name symbol : String)
  | collectionUpdated (id : String)
  | collectionFrozen (id : String)
  | collectionMetadataLocked (id : String)
  | tokenMinted (id : String) (tokenId : Nat) (recipient : Address) (transferable : Bool)
  | tokenTransferred (id : String) (tokenId : Nat) (sender recipient : Address)
  | tokenBurned (id : String) (tokenId : Nat) (owner : Address)
  | tokenApproved (id : String) (tokenId : Nat) (owner approved : Address)
  | approvalForAll (id : String) (owner operator : Address) (approved : Bool)
  | tokenUriUpdated (id : String) (tokenId : Nat)
  | tokenFrozen (id : String) (tokenId : Nat)
  | tokenUnfrozen (id : String) (tokenId : Nat)
  deriving DecidableEq, Repr

structure NftToken where
  collectionId : String
  tokenId : Nat
  owner : Address
  uri : String
  transferable : Bool
  frozen : Bool
  burned : Bool
  deriving DecidableEq, Repr

structure NftCollection where
  id : String
  creator : Address
  admin : Address
  name : String
  symbol : String
  description : String
  baseUri : String
  externalUrl : String
  maxSupply : Option Nat
  totalSupply : Nat
  totalMinted : Nat
  defaultTransferable : Bool
  metadataMutable : Bool
  frozen : Bool
  tokens : Table Nat NftToken
  balances : Table Address Nat
  tokenApprovals : Table Nat Address
  operatorApprovals : Table Address (Table Address Bool)
  deriving DecidableEq

namespace NftCollection

def new (id : String) (creator : Address) (name symbol baseUri : String) (maxSupply : Option Nat)
    (defaultTransferable metadataMutable : Bool) : NftCollection :=
  { id, creator, admin := creator, name, symbol, description := "", baseUri, externalUrl := ""
    maxSupply, totalSupply := 0, totalMinted := 0, defaultTransferable, metadataMutable
    frozen := false, tokens := ∅, balances := ∅, tokenApprovals := ∅, operatorApprovals := ∅ }

def liveToken (c : NftCollection) (tokenId : Nat) : Option NftToken :=
  (c.tokens.lookup tokenId).filter fun t => !t.burned

def ownerOf (c : NftCollection) (tokenId : Nat) : Option Address :=
  (c.liveToken tokenId).map (·.owner)

def balanceOf (c : NftCollection) (address : Address) : Nat :=
  (c.balances.lookup address).getD 0

def isApprovedForAll (c : NftCollection) (owner operator : Address) : Bool :=
  ((c.operatorApprovals.lookup owner).bind (·.lookup operator)).getD false

def transferAuthorized (c : NftCollection) (caller owner : Address) (tokenId : Nat) : Bool :=
  caller == owner || c.tokenApprovals.lookup tokenId == some caller ||
    c.isApprovedForAll owner caller

def setToken (c : NftCollection) (tokenId : Nat) (f : NftToken → NftToken) : NftCollection :=
  match c.tokens.lookup tokenId with
  | some t => { c with tokens := c.tokens.insert tokenId (f t) }
  | none => c

def mint (caller recipient : Address) (tokenId : Nat) (uri : String) (transferable : Option Bool) :
    EStateM NftError NftCollection NftEvent := do
  let c ← get
  ensure (caller == c.admin) (.unauthorized "only the collection admin can mint")
  ensure (!recipient.isEmpty) (.invalidParams "empty recipient")
  ensure (c.tokens.lookup tokenId).isNone (.tokenAlreadyExists tokenId)
  ensure (c.maxSupply.all (c.totalMinted < ·))
    (.maxSupplyReached c.totalMinted (c.maxSupply.getD 0))
  let transferable := transferable.getD c.defaultTransferable
  let balance ← fromOption (checkedAdd64 (c.balanceOf recipient) 1) (.overflow "balance")
  let supply ← fromOption (checkedAdd64 c.totalSupply 1) (.overflow "total_supply")
  let minted ← fromOption (checkedAdd64 c.totalMinted 1) (.overflow "total_minted")
  set { c with
    tokens := c.tokens.insert tokenId ⟨c.id, tokenId, recipient, uri, transferable, false, false⟩
    balances := c.balances.insert recipient balance
    totalSupply := supply
    totalMinted := minted }
  pure (.tokenMinted c.id tokenId recipient transferable)

def transfer (caller sender recipient : Address) (tokenId : Nat) :
    EStateM NftError NftCollection NftEvent := do
  let c ← get
  ensure (!(sender.isEmpty || recipient.isEmpty)) (.invalidParams "empty address")
  ensure (sender != recipient) (.invalidParams "cannot transfer to self")
  let token ← fromOption (c.liveToken tokenId) (.tokenNotFound tokenId)
  ensure token.transferable (.notTransferable tokenId)
  ensure (!token.frozen) (.tokenFrozen tokenId)
  ensure (!c.frozen) .collectionFrozen
  ensure (token.owner == sender) (.notOwner tokenId sender)
  ensure (c.transferAuthorized caller sender tokenId)
    (.unauthorized (caller ++ " cannot transfer token_id " ++ toString tokenId))
  let left ← fromOption (checkedSub (c.balanceOf sender) 1) (.overflow "transfer underflow")
  let gained ← fromOption (checkedAdd64 (c.balanceOf recipient) 1) (.overflow "transfer overflow")
  let moved := { c with balances := (c.balances.insert sender left).insert recipient gained }
  set { moved.setToken tokenId (fun t => { t with owner := recipient }) with
    tokenApprovals := c.tokenApprovals.erase tokenId }
  pure (.tokenTransferred c.id tokenId sender recipient)

def approve (caller spender : Address) (tokenId : Nat) :
    EStateM NftError NftCollection NftEvent := do
  let c ← get
  ensure (!spender.isEmpty) (.invalidParams "empty spender (use clear_approval)")
  let owner ← fromOption (c.ownerOf tokenId) (.tokenNotFound tokenId)
  ensure (caller == owner || c.isApprovedForAll owner caller)
    (.unauthorized (caller ++ " cannot approve token_id " ++ toString tokenId))
  set { c with tokenApprovals := c.tokenApprovals.insert tokenId spender }
  pure (.tokenApproved c.id tokenId owner spender)

def setApprovalForAll (caller owner operator : Address) (approved : Bool) :
    EStateM NftError NftCollection NftEvent := do
  let c ← get
  ensure (!(owner.isEmpty || operator.isEmpty)) (.invalidParams "empty address")
  ensure (caller == owner) (.unauthorized "caller may only set operator approvals for itself")
  ensure (owner != operator) (.invalidParams "cannot set operator for self")
  set { c with
    operatorApprovals := c.operatorApprovals.insert owner
      (((c.operatorApprovals.lookup owner).getD ∅).insert operator approved) }
  pure (.approvalForAll c.id owner operator approved)

/-- The owner burns, and so does the collection's admin. -/
def burn (caller : Address) (tokenId : Nat) : EStateM NftError NftCollection NftEvent := do
  let c ← get
  let owner ← fromOption (c.ownerOf tokenId) (.tokenNotFound tokenId)
  ensure (caller == owner || caller == c.admin)
    (.unauthorized ("only owner or admin can burn token_id " ++ toString tokenId))
  let left ← fromOption (checkedSub (c.balanceOf owner) 1) (.overflow "burn underflow")
  let supply ← fromOption (checkedSub c.totalSupply 1) (.overflow "total_supply underflow")
  let counted := { c with
    balances := c.balances.insert owner left
    totalSupply := supply
    tokenApprovals := c.tokenApprovals.erase tokenId }
  set (counted.setToken tokenId fun t => { t with burned := true, frozen := false })
  pure (.tokenBurned c.id tokenId owner)

def clearApproval (caller : Address) (tokenId : Nat) :
    EStateM NftError NftCollection NftEvent := do
  let c ← get
  let owner ← fromOption (c.ownerOf tokenId) (.tokenNotFound tokenId)
  ensure (caller == owner || c.isApprovedForAll owner caller)
    (.unauthorized (caller ++ " cannot clear approval on token_id " ++ toString tokenId))
  set { c with tokenApprovals := c.tokenApprovals.erase tokenId }
  pure (.tokenApproved c.id tokenId owner "")

/-- The token's own freeze is looked at after the caller's authority. -/
def updateTokenUri (caller : Address) (tokenId : Nat) (newUri : String) :
    EStateM NftError NftCollection NftEvent := do
  let c ← get
  ensure (!c.frozen) .collectionFrozen
  ensure c.metadataMutable .metadataLocked
  let owner ← fromOption (c.ownerOf tokenId) (.tokenNotFound tokenId)
  ensure (caller == c.admin || caller == owner)
    (.unauthorized (caller ++ " cannot update token_id " ++ toString tokenId ++ " uri"))
  ensure (!(c.tokens.lookup tokenId).any (·.frozen)) (.tokenFrozen tokenId)
  set (c.setToken tokenId fun t => { t with uri := newUri })
  pure (.tokenUriUpdated c.id tokenId)

def updateCollectionMetadata (caller : Address) (description baseUri externalUrl : Option String) :
    EStateM NftError NftCollection NftEvent := do
  let c ← get
  ensure (caller == c.admin) (.unauthorized "only admin can update metadata")
  ensure (!c.frozen) .collectionFrozen
  ensure c.metadataMutable .metadataLocked
  set { c with
    description := description.getD c.description
    baseUri := baseUri.getD c.baseUri
    externalUrl := externalUrl.getD c.externalUrl }
  pure (.collectionUpdated c.id)

def freezeCollection (caller : Address) : EStateM NftError NftCollection NftEvent := do
  let c ← get
  ensure (caller == c.admin) (.unauthorized "only admin can freeze")
  set { c with frozen := true }
  pure (.collectionFrozen c.id)

def lockMetadata (caller : Address) : EStateM NftError NftCollection NftEvent := do
  let c ← get
  ensure (caller == c.admin) (.unauthorized "only admin can lock metadata")
  set { c with metadataMutable := false }
  pure (.collectionMetadataLocked c.id)

def setTokenFrozen (caller : Address) (tokenId : Nat) (frozen : Bool) :
    EStateM NftError NftCollection NftEvent := do
  let c ← get
  ensure (caller == c.admin) (.unauthorized "only admin can freeze tokens")
  let _ ← fromOption (c.ownerOf tokenId) (.tokenNotFound tokenId)
  set (c.setToken tokenId fun t => { t with frozen })
  pure (if frozen then .tokenFrozen c.id tokenId else .tokenUnfrozen c.id tokenId)

structure Spares (a : Address) (c c' : NftCollection) : Prop where
  owned : ∀ id, c.ownerOf id = some a → c'.ownerOf id = some a
  counted : c.balanceOf a ≤ c'.balanceOf a

theorem ownerOf_insert {c : NftCollection} {tokens : Table Nat NftToken} {id : Nat} {t : NftToken}
    (wrote : tokens = c.tokens.insert id t) {c' : NftCollection} (now : c'.tokens = tokens) (x : Nat) :
    c'.ownerOf x = if x = id then (if t.burned then none else some t.owner) else c.ownerOf x := by
  unfold ownerOf liveToken
  rw [now, wrote]
  by_cases same : x = id
  · subst same
    cases burned : t.burned <;> simp [burned]
  · simp [same, AList.lookup_insert_ne]

theorem balanceOf_le_insert {c c' : NftCollection} {address x : Address} {n : Nat}
    (wrote : c'.balances = c.balances.insert address n) (own : x = address → c.balanceOf x ≤ n) :
    c.balanceOf x ≤ c'.balanceOf x := by
  unfold balanceOf at *
  rw [wrote]
  by_cases same : x = address
  · have enough := own same
    subst same
    simpa using enough
  · simp [AList.lookup_insert_ne same]

theorem liveToken_of_ownerOf {c : NftCollection} {id : Nat} {owner : Address}
    (owned : c.ownerOf id = some owner) :
    ∃ t, c.tokens.lookup id = some t ∧ t.owner = owner ∧ t.burned = false := by
  unfold ownerOf liveToken at owned
  obtain ⟨t, live, rfl⟩ := Option.map_eq_some_iff.mp owned
  obtain ⟨found, unburned⟩ := Option.filter_eq_some_iff.mp live
  exact ⟨t, found, rfl, by simpa using unburned⟩

theorem setToken_of_lookup {c : NftCollection} {id : Nat} {t : NftToken} (f : NftToken → NftToken)
    (found : c.tokens.lookup id = some t) :
    c.setToken id f = { c with tokens := c.tokens.insert id (f t) } := by
  simp only [setToken, found]

structure GrantsBy (sender : Address) (c c' : NftCollection) : Prop where
  operator : ∀ owner op, c'.isApprovedForAll owner op = true →
    c.isApprovedForAll owner op = true ∨ sender = owner
  token : ∀ id spender, c'.tokenApprovals.lookup id = some spender →
    c.tokenApprovals.lookup id = some spender ∨
      ∃ owner, c.ownerOf id = some owner ∧ (sender = owner ∨ c.isApprovedForAll owner sender = true)

end NftCollection

structure NftRegistry where
  collections : Table String NftCollection
  deriving DecidableEq

/-- The preimage is length-prefixed, so creator and seed cannot run together. -/
def computeCollectionId (w : Wire) (creator seed : String) : String :=
  "SRC721_" ++ String.ofList ((w.sha256Hex ((leBytes 8 creator.utf8ByteSize).reverse ++
    textBytes creator ++ (leBytes 8 seed.utf8ByteSize).reverse ++ textBytes seed)).toList.take 40)

namespace NftRegistry

def new : NftRegistry := ⟨∅⟩

def deployCollection (w : Wire) (creator : Address) (name symbol baseUri : String)
    (maxSupply : Option Nat) (defaultTransferable metadataMutable : Bool) (seed : String) :
    EStateM NftError NftRegistry NftEvent := do
  ensure (!creator.isEmpty) (.invalidParams "empty creator")
  ensure (!(name.isEmpty || 64 < name.utf8ByteSize)) (.invalidParams "name must be 1–64 bytes")
  ensure (!(symbol.isEmpty || 10 < symbol.utf8ByteSize || !symbol.toList.all fun c =>
      c.isDigit || ('a' ≤ c && c ≤ 'z') || ('A' ≤ c && c ≤ 'Z')))
    (.invalidParams "symbol must be 1–10 ASCII alphanumeric chars")
  ensure (maxSupply != some 0) (.invalidParams "max_supply cannot be 0 (use None for unlimited)")
  let id := computeCollectionId w creator seed
  let reg ← get
  ensure (reg.collections.lookup id).isNone (.collectionExists id)
  set (⟨reg.collections.insert id (.new id creator name symbol baseUri maxSupply
    defaultTransferable metadataMutable)⟩ : NftRegistry)
  pure (.collectionCreated id creator name symbol)

/-- `get_collection_mut`, then one method of the collection, its error translated. -/
def onCollection (contract : String) (m : EStateM NftError NftCollection NftEvent) :
    EStateM SentrixError NftRegistry NftEvent := fun reg =>
  match reg.collections.lookup contract with
  | none => .error (.notFound ("nft collection " ++ contract)) reg
  | some c =>
    match m c with
    | .ok event c' => .ok event ⟨reg.collections.insert contract c'⟩
    | .error e c' => .error (nftErrToSentrix e) ⟨reg.collections.insert contract c'⟩

end NftRegistry

def liftNft {α : Type} (m : EStateM NftError NftRegistry α) : EStateM SentrixError NftRegistry α :=
  fun reg =>
    match m reg with
    | .ok a reg' => .ok a reg'
    | .error e reg' => .error (nftErrToSentrix e) reg'

def nftAddress (valid : Address → Bool) (label : String) (address : Address) :
    EStateM SentrixError NftRegistry Unit :=
  ensure (valid address) (.invalidTransaction ("invalid NFT " ++ label ++ " address: " ++ address))

/-- One NFT operation of a transaction; multi-token operations have no handler. -/
def applyNftTokenOp (w : Wire) (op : TokenOp) (sender : Address) (seed : String) :
    EStateM SentrixError NftRegistry NftEvent :=
  match op with
  | .deployNft name symbol baseUri maxSupply =>
    liftNft (NftRegistry.deployCollection w sender name symbol baseUri
      (if maxSupply = 0 then none else some maxSupply) true true seed)
  | .mintNft contract recipient tokenId metadataUri => do
    nftAddress isSpendableSentrixAddress "mint to" recipient
    NftRegistry.onCollection contract (NftCollection.mint sender recipient tokenId metadataUri none)
  | .transferNft contract source recipient tokenId => do
    nftAddress isValidSentrixAddress "transfer from" source
    nftAddress isSpendableSentrixAddress "transfer to" recipient
    NftRegistry.onCollection contract (NftCollection.transfer sender source recipient tokenId)
  | .burnNft contract tokenId => NftRegistry.onCollection contract (NftCollection.burn sender tokenId)
  | .approveNft contract spender tokenId => do
    nftAddress isValidSentrixAddress "approve spender" spender
    NftRegistry.onCollection contract (NftCollection.approve sender spender tokenId)
  | .setApprovalForAll contract operator approved => do
    nftAddress isValidSentrixAddress "operator" operator
    NftRegistry.onCollection contract
      (NftCollection.setApprovalForAll sender sender operator approved)
  | _ => throw (.invalidTransaction
      "unsupported NFT TokenOp in apply path (SRC-1155 / admin metadata ops deferred)")

namespace NftRegistry

def ownerOf (reg : NftRegistry) (contract : String) (id : Nat) : Option Address :=
  (reg.collections.lookup contract).bind (·.ownerOf id)

def balanceOf (reg : NftRegistry) (contract : String) (a : Address) : Nat :=
  ((reg.collections.lookup contract).map (·.balanceOf a)).getD 0

def approvedFor (reg : NftRegistry) (contract : String) (id : Nat) : Option Address :=
  (reg.collections.lookup contract).bind (·.tokenApprovals.lookup id)

def isOperator (reg : NftRegistry) (contract : String) (owner operator : Address) : Bool :=
  ((reg.collections.lookup contract).map (·.isApprovedForAll owner operator)).getD false

structure Spares (a : Address) (reg reg' : NftRegistry) : Prop where
  owned : ∀ contract id, reg.ownerOf contract id = some a → reg'.ownerOf contract id = some a
  counted : ∀ contract, reg.balanceOf contract a ≤ reg'.balanceOf contract a

structure GrantsBy (sender : Address) (reg reg' : NftRegistry) : Prop where
  operator : ∀ contract owner op, reg'.isOperator contract owner op = true →
    reg.isOperator contract owner op = true ∨ sender = owner
  token : ∀ contract id spender, reg'.approvedFor contract id = some spender →
    reg.approvedFor contract id = some spender ∨ ∃ owner, reg.ownerOf contract id = some owner ∧
      (sender = owner ∨ reg.isOperator contract owner sender = true)

theorem Spares.refl (a : Address) (reg : NftRegistry) : Spares a reg reg :=
  ⟨fun _ _ held => held, fun _ => Nat.le_refl _⟩

theorem Spares.trans {a : Address} {x y z : NftRegistry} (first : Spares a x y)
    (second : Spares a y z) : Spares a x z where
  owned contract id held := second.owned contract id (first.owned contract id held)
  counted contract := Nat.le_trans (first.counted contract) (second.counted contract)

theorem GrantsBy.refl (sender : Address) (reg : NftRegistry) : GrantsBy sender reg reg :=
  ⟨fun _ _ _ given => .inl given, fun _ _ _ given => .inl given⟩

section
variable {reg reg' : NftRegistry} {contract : String} {c c' : NftCollection} {a sender : Address}

theorem Spares.insert (found : reg.collections.lookup contract = some c)
    (spares : NftCollection.Spares a c c') : Spares a reg ⟨reg.collections.insert contract c'⟩ := by
  constructor
  · intro other id held
    unfold ownerOf at *
    by_cases same : other = contract
    · subst same
      simp only [found, Option.bind_some] at held
      simpa using spares.owned id held
    · simpa [AList.lookup_insert_ne same] using held
  · intro other
    unfold balanceOf
    by_cases same : other = contract
    · subst same
      simpa [found] using spares.counted
    · simp [AList.lookup_insert_ne same]

theorem GrantsBy.insert (found : reg.collections.lookup contract = some c)
    (grants : NftCollection.GrantsBy sender c c') :
    GrantsBy sender reg ⟨reg.collections.insert contract c'⟩ := by
  constructor
  · intro other owner op given
    unfold isOperator at *
    by_cases same : other = contract
    · subst same
      simp only [AList.lookup_insert, Option.map_some, Option.getD_some] at given
      simpa [found] using grants.operator owner op given
    · left
      simpa [AList.lookup_insert_ne same] using given
  · intro other id spender given
    unfold approvedFor ownerOf isOperator at *
    by_cases same : other = contract
    · subst same
      simp only [AList.lookup_insert, Option.bind_some] at given
      simpa [found] using grants.token id spender given
    · left
      simpa [AList.lookup_insert_ne same] using given

theorem fresh_collection (absent : reg.collections.lookup contract = none)
    (noApprovals : c.tokenApprovals = ∅) (noOperators : c.operatorApprovals = ∅) :
    Spares a reg ⟨reg.collections.insert contract c⟩ ∧
      GrantsBy sender reg ⟨reg.collections.insert contract c⟩ := by
  refine ⟨⟨?_, ?_⟩, ⟨?_, ?_⟩⟩
  · intro other id held
    unfold ownerOf at *
    by_cases same : other = contract
    · subst same
      simp [absent] at held
    · simpa [AList.lookup_insert_ne same] using held
  · intro other
    unfold balanceOf
    by_cases same : other = contract
    · subst same
      simp [absent]
    · simp [AList.lookup_insert_ne same]
  · intro other owner op given
    left
    unfold isOperator at *
    by_cases same : other = contract
    · subst same
      simp [NftCollection.isApprovedForAll, noOperators] at given
    · simpa [AList.lookup_insert_ne same] using given
  · intro other id spender given
    left
    unfold approvedFor at *
    by_cases same : other = contract
    · subst same
      simp [noApprovals] at given
    · simpa [AList.lookup_insert_ne same] using given

theorem onCollection_ok {m : EStateM NftError NftCollection NftEvent} {event : NftEvent}
    (ran : onCollection contract m reg = .ok event reg') :
    ∃ c c', reg.collections.lookup contract = some c ∧ m c = .ok event c' ∧
      reg' = ⟨reg.collections.insert contract c'⟩ := by
  unfold onCollection at ran
  split at ran
  · cases ran
  · rename_i c found
    split at ran
    · rename_i done c' method
      cases ran
      exact ⟨c, c', found, method, rfl⟩
    · cases ran

end

end NftRegistry

/-- The operation takes a token of `a`, and its sender may: as owner, as one the owner's
approvals name, or as the collection's admin who burns. -/
def NftTaken (op : TokenOp) (sender a : Address) (reg : NftRegistry) : Prop :=
  ∃ contract c id, reg.collections.lookup contract = some c ∧ c.ownerOf id = some a ∧
    ((∃ recipient, op = .transferNft contract a recipient id ∧
        c.transferAuthorized sender a id = true) ∨
      (op = .burnNft contract id ∧ (sender = a ∨ sender = c.admin)))

theorem liftNft_ok {α : Type} {m : EStateM NftError NftRegistry α} {reg reg' : NftRegistry} {x : α}
    (ran : liftNft m reg = .ok x reg') : m reg = .ok x reg' := by
  unfold liftNft at ran
  split at ran
  · rename_i y t done
    cases ran
    exact done
  · cases ran

end SentrixTokens
