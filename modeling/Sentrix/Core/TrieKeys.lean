import Sentrix.Core.EvmNonces
import Sentrix.Core.TrieContent
import Sentrix.Primitives.TransactionIds

/-!
The leaves of the state trie by name. Each key is the SHA-256 of a domain and, for the
families, of an address; for lowercase addresses no two of these texts are the same, so
where SHA-256 has no collision on them a leaf belongs to one name.
-/
namespace SentrixCore
open HashTable SentrixPrimitives List

theorem length_hexPairs {digits : List Char} {bytes : Bytes} (read : hexPairs digits = some bytes) :
    digits.length = 2 * bytes.length := by
  induction digits using hexPairs.induct generalizing bytes with
  | case1 => cases read; rfl
  | case2 => cases read
  | case3 a b rest ih =>
    simp only [hexPairs, Option.bind_eq_bind] at read
    obtain ⟨high, -, read⟩ := Option.bind_eq_some_iff.mp read
    obtain ⟨low, -, read⟩ := Option.bind_eq_some_iff.mp read
    obtain ⟨others, further, read⟩ := Option.bind_eq_some_iff.mp read
    cases read
    simp [ih further]
    omega

theorem hexPairs_some {digits : List Char} (even : digits.length % 2 = 0)
    (hex : ∀ c ∈ digits, (hexValue c).isSome = true) : (hexPairs digits).isSome = true := by
  induction digits using hexPairs.induct with
  | case1 => rfl
  | case2 => simp at even
  | case3 a b rest ih =>
    obtain ⟨high, first⟩ := Option.isSome_iff_exists.mp (hex a mem_cons_self)
    obtain ⟨low, second⟩ := Option.isSome_iff_exists.mp
      (hex b (mem_cons_of_mem _ mem_cons_self))
    obtain ⟨bytes, others⟩ := Option.isSome_iff_exists.mp (ih (by simp at even; omega)
      fun c inside => hex c (mem_cons_of_mem _ (mem_cons_of_mem _ inside)))
    simp [hexPairs, first, second, others]

theorem length_digest {w : Wire} (hex : HexDigests w) (m : Bytes) : (digest w m).length = 32 := by
  have checked := hex m
  simp only [isHexDigest, Bool.and_eq_true, beq_iff_eq, all_eq_true] at checked
  obtain ⟨long, digits⟩ := checked
  have length : (w.sha256Hex m).toList.length = 64 := by rw [String.length_toList, long]
  have values : ∀ c ∈ (w.sha256Hex m).toList, (hexValue c).isSome = true := by
    intro c inside
    have lower := digits c inside
    simp only [Char.isDigit, Bool.or_eq_true, Bool.and_eq_true, decide_eq_true_eq] at lower
    unfold hexValue
    split
    · rfl
    · rename_i notDigit
      rw [if_pos (lower.resolve_left fun digit => notDigit digit)]
      rfl
  obtain ⟨bytes, read⟩ := Option.isSome_iff_exists.mp (hexPairs_some (by omega) values)
  unfold digest hexDecode
  rw [read, Option.getD_some]
  have twice := length_hexPairs read
  omega

theorem hashes32 {w : Wire} {b3 : Bytes → Bytes} (hex : HexDigests w)
    (leaves : ∀ m, (b3 m).length = 32) : Hashes32 w b3 := by
  intro p
  cases p with
  | leaf => exact leaves _
  | branch => exact length_digest hex _
  | absent => exact length_digest hex _

theorem hexDigit_plain : ∀ n < 16, hexDigit n ≠ 'x' ∧ (hexDigit n).toLower = hexDigit n ∧
    (hexDigit n).toNat < 128 := by
  decide

theorem mem_hexEncode {bytes : Bytes} {c : Char} (inside : c ∈ (hexEncode bytes).toList) :
    ∃ n < 16, c = hexDigit n := by
  simp only [hexEncode, String.toList_ofList, mem_flatMap] at inside
  obtain ⟨byte, -, inside⟩ := inside
  have small : byte.toNat < 256 := byte.toNat_lt
  rcases List.mem_cons.mp inside with rfl | inside
  · exact ⟨_, by omega, rfl⟩
  · cases List.mem_singleton.mp inside
    exact ⟨_, by omega, rfl⟩

theorem trimHexMark_plain {digits : List Char} (plain : ∀ c ∈ digits, c ≠ 'x') :
    trimHexMark digits = digits := by
  unfold trimHexMark
  split
  · exact absurd rfl (plain 'x' (mem_cons_of_mem _ mem_cons_self))
  · rfl

def plainBytes (u : Unicode) (address : Address) : Bytes :=
  (hexDecode (plainAddress u address)).getD (textBytes (plainAddress u address))

variable {u : Unicode}

theorem plainBytes_addressToSentrix (addr : Bytes) :
    plainBytes u (addressToSentrix addr) = addr := by
  have plain : ∀ c ∈ (hexEncode addr).toList, c ≠ 'x' := by
    intro c inside
    obtain ⟨n, small, rfl⟩ := mem_hexEncode inside
    exact (hexDigit_plain n small).1
  have lower : (hexEncode addr).toList.map Char.toLower = (hexEncode addr).toList := by
    calc (hexEncode addr).toList.map Char.toLower
      _ = (hexEncode addr).toList.map id := by
        apply map_congr_left
        intro c inside
        obtain ⟨n, small, rfl⟩ := mem_hexEncode inside
        exact (hexDigit_plain n small).2.1
      _ = (hexEncode addr).toList := map_id _
  have text : (plainAddress u (addressToSentrix addr)).toList = (hexEncode addr).toList := by
    unfold plainAddress
    rw [toList_addressToSentrix, trimHexMark, trimHexMark_plain plain, u.ascii,
      String.toList_ofList, String.toList_ofList, lower]
    intro c inside
    rw [String.toList_ofList] at inside
    obtain ⟨n, small, rfl⟩ := mem_hexEncode inside
    exact (hexDigit_plain n small).2.2
  unfold plainBytes hexDecode
  rw [text, hexPairs_hexEncode, Option.getD_some]

theorem length_parse {a : Address} {addr : Bytes} (parsed : parseSentrixAddress a = some addr) :
    addr.length = 20 := by
  unfold parseSentrixAddress at parsed
  dsimp only at parsed
  generalize (if a.toList.take 2 = ['0', 'x'] then a.toList.drop 2 else a.toList) = digits at parsed
  split at parsed
  · have twice := length_hexPairs parsed
    omega
  · cases parsed

theorem plainBytes_canonical {a : Address} (canonical : isCanonical a = true) :
    (plainBytes u a).length = 20 ∧ a = addressToSentrix (plainBytes u a) := by
  obtain ⟨addr, parsed, rfl⟩ := isCanonical_iff.mp canonical
  rw [plainBytes_addressToSentrix]
  exact ⟨length_parse parsed, rfl⟩

theorem hexChar_plain {c : Char}
    (hex : (c.isDigit || ('a' ≤ c && c ≤ 'f') || ('A' ≤ c && c ≤ 'F')) = true) :
    c ≠ 'x' ∧ c.toNat < 128 ∧ c.utf8Size = 1 ∧ (hexValue c.toLower).isSome = true := by
  have small : c.toNat < 103 := by
    have value : c.toNat = c.val.toNat := rfl
    simp [Char.isDigit, Char.le_def, UInt32.le_iff_toNat_le] at hex
    omega
  have all : ∀ n < 103, ((Char.ofNat n).isDigit || ('a' ≤ Char.ofNat n && Char.ofNat n ≤ 'f') ||
      ('A' ≤ Char.ofNat n && Char.ofNat n ≤ 'F')) = true → Char.ofNat n ≠ 'x' ∧
        (Char.ofNat n).toNat < 128 ∧ (Char.ofNat n).utf8Size = 1 ∧
        (hexValue (Char.ofNat n).toLower).isSome = true := by
    decide
  have here := all c.toNat small
  rw [Char.ofNat_toNat] at here
  exact here hex

theorem utf8Len_ones {l : List Char} (one : ∀ c ∈ l, c.utf8Size = 1) :
    String.utf8Len l = l.length := by
  induction l with
  | nil => rfl
  | cons c rest ih =>
    rw [String.utf8Len, ih fun d inside => one d (mem_cons_of_mem _ inside), one c mem_cons_self,
      length_cons]

/-- The digits of an address may be of either case: they are ASCII. -/
theorem plainBytes_valid {a : Address} (valid : isValidSentrixAddress a = true) :
    (plainBytes u a).length = 20 := by
  simp only [isValidSentrixAddress, Bool.and_eq_true, beq_iff_eq, all_eq_true] at valid
  obtain ⟨⟨size, mark⟩, digits⟩ := valid
  generalize shape : a.toList.drop 2 = rest at digits
  have whole : a.toList = '0' :: 'x' :: rest := by
    rw [← take_append_drop 2 a.toList, mark, shape]
    rfl
  have count : rest.length = 40 := by
    rw [← @String.ofList_toList a, whole, String.utf8ByteSize_ofList, utf8Len_ones] at size
    · simpa using size
    · intro c inside
      rcases List.mem_cons.mp inside with rfl | inside
      · rfl
      · rcases List.mem_cons.mp inside with rfl | inside
        · rfl
        · exact (hexChar_plain (digits c inside)).2.2.1
  have text : (plainAddress u a).toList = rest.map Char.toLower := by
    unfold plainAddress
    rw [whole, trimHexMark, trimHexMark_plain fun c inside => (hexChar_plain (digits c inside)).1,
      u.ascii, String.toList_ofList, String.toList_ofList]
    intro c inside
    rw [String.toList_ofList] at inside
    exact (hexChar_plain (digits c inside)).2.1
  have hex : ∀ c ∈ rest.map Char.toLower, (hexValue c).isSome = true := by
    intro c inside
    obtain ⟨c, member, rfl⟩ := List.mem_map.mp inside
    exact (hexChar_plain (digits c member)).2.2.2
  obtain ⟨bytes, read⟩ := Option.isSome_iff_exists.mp
    (hexPairs_some (by rw [length_map, count]) hex)
  have twice := length_hexPairs read
  unfold plainBytes hexDecode
  rw [text, read, Option.getD_some]
  rw [length_map] at twice
  omega

inductive KeyName where
  | account (a : Address)
  | pendingRewards (a : Address)
  | liveness (a : Address)
  | totalMinted
  | epochState
  | src20Registry
  | nftRegistry
  deriving DecidableEq

namespace KeyName

def domain : KeyName → String
  | .account _ => ""
  | .pendingRewards _ => "sentrix/v1/pending_rewards/"
  | .liveness _ => "sentrix/v1/liveness/"
  | .totalMinted => "sentrix/v1/total_minted"
  | .epochState => "sentrix/v1/epoch_state"
  | .src20Registry => "sentrix/v1/native_src20_registry"
  | .nftRegistry => "sentrix/v1/native_nft_registry"

def owner : KeyName → Option Address
  | .account a | .pendingRewards a | .liveness a => some a
  | _ => none

def text (u : Unicode) (n : KeyName) : Bytes :=
  textBytes n.domain ++ (n.owner.map (plainBytes u)).getD []

def key (w : Wire) (n : KeyName) : Bytes :=
  digest w (n.text w.unicode)

def among (A : Set Address) : Set KeyName :=
  {n | ∀ a, n.owner = some a → a ∈ A}

theorem account_key (w : Wire) (a : Address) : (account a).key w = addressToKey w a := by
  simp only [addressToKey, addressKey, key, text, domain, owner, plainBytes, Option.map_some,
    Option.getD_some]

theorem pendingRewards_key (w : Wire) (a : Address) :
    (pendingRewards a).key w = validatorPendingRewardsKey w a := by
  simp only [validatorPendingRewardsKey, addressKey, key, text, domain, owner, plainBytes,
    Option.map_some, Option.getD_some]

theorem liveness_key (w : Wire) (a : Address) :
    (liveness a).key w = validatorLivenessKey w a := by
  simp only [validatorLivenessKey, addressKey, key, text, domain, owner, plainBytes,
    Option.map_some, Option.getD_some]

def size : KeyName → Nat
  | .account _ => 20
  | .pendingRewards _ => 47
  | .liveness _ => 40
  | .totalMinted => 23
  | .epochState => 22
  | .src20Registry => 32
  | .nftRegistry => 30

theorem length_domain : (textBytes "").length = 0 ∧
    (textBytes "sentrix/v1/pending_rewards/").length = 27 ∧
    (textBytes "sentrix/v1/liveness/").length = 20 ∧
    (textBytes "sentrix/v1/total_minted").length = 23 ∧
    (textBytes "sentrix/v1/epoch_state").length = 22 ∧
    (textBytes "sentrix/v1/native_src20_registry").length = 32 ∧
    (textBytes "sentrix/v1/native_nft_registry").length = 30 := by
  decide

variable {A : Set Address} (canonical : ∀ a ∈ A, isCanonical a = true)
include canonical

theorem length_text {n : KeyName} (inside : n ∈ among A) : (n.text u).length = n.size := by
  have owned {a : Address} (named : n.owner = some a) : (plainBytes u a).length = 20 :=
    (plainBytes_canonical (canonical a (inside a named))).1
  obtain ⟨account, pending, liveness, minted, epoch, src20, nft⟩ := length_domain
  unfold text
  rw [length_append]
  cases n with
  | account a => simp only [domain, account, owner, Option.map_some, Option.getD_some, owned rfl, size]
  | pendingRewards a =>
    simp only [domain, pending, owner, Option.map_some, Option.getD_some, owned rfl, size]
  | liveness a =>
    simp only [domain, liveness, owner, Option.map_some, Option.getD_some, owned rfl, size]
  | totalMinted => exact congrArg (· + 0) minted
  | epochState => exact congrArg (· + 0) epoch
  | src20Registry => exact congrArg (· + 0) src20
  | nftRegistry => exact congrArg (· + 0) nft

theorem text_injOn : Set.InjOn (text u) (among A) := by
  intro n inside m inside' same
  have lengths : n.size = m.size := by
    rw [← length_text (u := u) canonical inside, ← length_text (u := u) canonical inside', same]
  have owners {a c : Address} {d : Bytes} (named : n.owner = some a) (named' : m.owner = some c)
      (same : d ++ plainBytes u a = d ++ plainBytes u c) : a = c := by
    rw [(plainBytes_canonical (u := u) (canonical a (inside a named))).2,
      (plainBytes_canonical (u := u) (canonical c (inside' c named'))).2, append_cancel_left same]
  cases n <;> cases m <;> simp only [size] at lengths
  case account.account | pendingRewards.pendingRewards | liveness.liveness =>
    simp only [text, owner, domain, Option.map_some, Option.getD_some] at same
    exact congrArg _ (owners rfl rfl same)
  all_goals first | rfl | omega

theorem key_injOn {w : Wire} (free : Set.InjOn (digest w) (Set.image (text w.unicode) (among A))) :
    Set.InjOn (key w) (among A) := by
  intro n inside m inside' same
  have texts := free (Set.mem_image_of_mem _ inside) (Set.mem_image_of_mem _ inside') same
  exact text_injOn canonical inside inside' texts

end KeyName

namespace Blockchain

/-- What the state says about a name; a zero balance or a drained reward has no leaf. -/
def leafValue (w : Wire) (ops : TrieOps) (bc : Blockchain) : KeyName → Option Bytes
  | .account a => unlessZero (bc.accounts.getBalance a)
      (accountValueBytes (bc.accounts.getBalance a) (bc.accounts.getNonce a))
  | .pendingRewards a => (bc.stakeRegistry.validators.lookup a).bind fun v =>
      unlessZero v.pendingRewards (beBytes v.pendingRewards)
  | .liveness a => (bc.stakeRegistry.validators.lookup a).map fun v =>
      livenessValueBytes (bc.slashing.liveness.getStats a).1 (bc.slashing.liveness.getStats a).2
        v.jailUntil v.isJailed
  | .totalMinted => some (beBytes bc.totalMinted)
  | .epochState => some (epochStateValueBytes w bc.epochManager.currentEpoch)
  | .src20Registry => some (ops.contractsHash bc.contracts)
  | .nftRegistry => some (ops.nftHash bc.nftRegistry)

def validatorNames (bc : Blockchain) : List Address :=
  (bc.stakeRegistry.validators.pairs.insertionSort fun a b => a.1 ≤ b.1).map (·.1)

def stakingNames (bc : Blockchain) : List KeyName :=
  bc.validatorNames.map .pendingRewards ++ bc.validatorNames.map .liveness ++
    [.totalMinted, .epochState]

def stateNames (forks : Forks) (touched : List Address) (bc : Blockchain) (index : Nat) :
    List KeyName :=
  touched.map .account ++ (if reached forks.stateInTrie index then bc.stakingNames else []) ++
    (if reached forks.nativeStateInTrie index then [.src20Registry, .nftRegistry] else [])

def nameWrite (w : Wire) (ops : TrieOps) (bc : Blockchain) (n : KeyName) : TrieWrite :=
  (n.key w, bc.leafValue w ops n)

theorem fixed_key (w : Wire) {n : KeyName} (unowned : n.owner = none) :
    n.key w = fixedKey w n.domain := by
  unfold KeyName.key KeyName.text fixedKey
  rw [unowned, Option.map_none, Option.getD_none, append_nil]

theorem stakingWrites_named (w : Wire) (ops : TrieOps) (bc : Blockchain) :
    bc.stakingWrites w = bc.stakingNames.map (bc.nameWrite w ops) := by
  have listed : ∀ e ∈ bc.stakeRegistry.validators.pairs.insertionSort fun a b => a.1 ≤ b.1,
      bc.stakeRegistry.validators.lookup e.1 = some e.2 :=
    fun e inside => mem_pairs.mp ((mem_insertionSort _).mp inside)
  unfold stakingWrites stakingNames validatorNames
  dsimp only
  generalize bc.stakeRegistry.validators.pairs.insertionSort (fun a b => a.1 ≤ b.1) = l at listed ⊢
  have pending : ((l.map (·.1)).map KeyName.pendingRewards).map (bc.nameWrite w ops) =
      l.map fun e => (validatorPendingRewardsKey w e.1,
        unlessZero e.2.pendingRewards (beBytes e.2.pendingRewards)) := by
    rw [map_map, map_map]
    apply map_congr_left
    intro e inside
    simp only [Function.comp, nameWrite, KeyName.pendingRewards_key, leafValue, listed e inside,
      Option.bind_some]
  have live : ((l.map (·.1)).map KeyName.liveness).map (bc.nameWrite w ops) =
      l.map fun e => (validatorLivenessKey w e.1,
        some (livenessValueBytes (bc.slashing.liveness.getStats e.1).1
          (bc.slashing.liveness.getStats e.1).2 e.2.jailUntil e.2.isJailed)) := by
    rw [map_map, map_map]
    apply map_congr_left
    intro e inside
    simp only [Function.comp, nameWrite, KeyName.liveness_key, leafValue, listed e inside,
      Option.map_some]
  have fixed : [KeyName.totalMinted, .epochState].map (bc.nameWrite w ops) =
      [(totalMintedKey w, some (beBytes bc.totalMinted)),
       (epochStateKey w, some (epochStateValueBytes w bc.epochManager.currentEpoch))] := by
    simp only [map_cons, map_nil, nameWrite, fixed_key w (n := .totalMinted) rfl,
      fixed_key w (n := .epochState) rfl, KeyName.domain, totalMintedKey, epochStateKey, leafValue]
  rw [map_append, map_append, pending, live, fixed]

theorem stateWrites_named (w : Wire) (forks : Forks) (ops : TrieOps) (touched : List Address)
    (bc : Blockchain) (index : Nat) :
    bc.stateWrites w forks ops touched index =
      (bc.stateNames forks touched index).map (bc.nameWrite w ops) := by
  have accounts : bc.accountWrites w touched =
      (touched.map KeyName.account).map (bc.nameWrite w ops) := by
    rw [map_map]
    apply map_congr_left
    intro a _
    simp only [Function.comp, nameWrite, KeyName.account_key, leafValue]
  have natives : bc.nativeWrites w ops =
      [KeyName.src20Registry, .nftRegistry].map (bc.nameWrite w ops) := by
    simp only [map_cons, map_nil, nameWrite, fixed_key w (n := .src20Registry) rfl,
      fixed_key w (n := .nftRegistry) rfl, KeyName.domain, nativeWrites, nativeSrc20RegistryKey,
      nativeNftRegistryKey, leafValue]
  simp only [stateWrites, stateNames, map_append, accounts, natives, stakingWrites_named w ops]
  congr 1
  · congr 1
    split <;> rfl
  · split <;> rfl

theorem length_key {w : Wire} (hex : HexDigests w) (n : KeyName) : (n.key w).length = 32 :=
  length_digest hex (n.text w.unicode)

theorem find_stateWrites {w : Wire} {forks : Forks} {ops : TrieOps} {touched : List Address}
    {bc : Blockchain} {index : Nat} {A : Set Address} {tree : TrieTree} {canonical : Bool}
    (hex : HexDigests w) (free : Set.InjOn (KeyName.key w) (KeyName.among A))
    (named : ∀ n ∈ bc.stateNames forks touched index, n ∈ KeyName.among A)
    (placed : tree.Placed keyBits 256 []) (solid : tree.Solid) {n : KeyName}
    (inside : n ∈ KeyName.among A) :
    (treeWrites canonical (bc.stateWrites w forks ops touched index) tree).find (n.key w)
        (keyBits (n.key w)) =
      if n ∈ bc.stateNames forks touched index then bc.leafValue w ops n
      else tree.find (n.key w) (keyBits (n.key w)) := by
  rw [stateWrites_named]
  generalize bc.stateNames forks touched index = names at named ⊢
  have long : ∀ entry ∈ names.map (bc.nameWrite w ops), entry.1.length = 32 := by
    intro entry member
    obtain ⟨m, -, rfl⟩ := List.mem_map.mp member
    exact length_key hex m
  have same : ∀ m ∈ names, m.key w = n.key w → m = n :=
    fun m member equal => free (named m member) inside equal
  split
  · rename_i written
    apply find_treeWrites placed solid long (length_key hex n)
      (List.mem_map.mpr ⟨n, written, rfl⟩)
    intro entry member equal
    obtain ⟨m, there, rfl⟩ := List.mem_map.mp member
    rw [same m there equal]
    rfl
  · rename_i absent
    apply find_treeWrites_other placed solid long (length_key hex n)
    intro entry member equal
    obtain ⟨m, there, rfl⟩ := List.mem_map.mp member
    exact absent (same m there equal ▸ there)

end Blockchain
end SentrixCore
