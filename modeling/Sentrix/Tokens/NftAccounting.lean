import Sentrix.Tokens.NftHistory

/-!
The counters of a collection against its tokens. Balances, supplies and approvals are
maps and numbers of their own beside the token table; after any history they say what
the table says.
-/
namespace SentrixTokens
open HashTable SentrixPrimitives List

namespace NftCollection

def ownedWeight (a : Address) (t : NftToken) : Nat :=
  if !t.burned && t.owner == a then 1 else 0

def liveWeight (t : NftToken) : Nat :=
  if t.burned then 0 else 1

def liveOwned (c : NftCollection) (a : Address) : Nat :=
  sumOf (fun _ t => ownedWeight a t) c.tokens

def liveCount (c : NftCollection) : Nat :=
  sumOf (fun _ t => liveWeight t) c.tokens

def mintedIds (start : NftCollection) : List Call → List Nat
  | [] => []
  | call :: past =>
    match call with
    | .mint _ _ id _ _ =>
      if Done start past call then id :: mintedIds start past else mintedIds start past
    | _ => mintedIds start past

def burnedIds (start : NftCollection) : List Call → List Nat
  | [] => []
  | call :: past =>
    match call with
    | .burn _ id => if Done start past call then id :: burnedIds start past else burnedIds start past
    | _ => burnedIds start past

structure Accounted (c : NftCollection) : Prop where
  balances : ∀ a, c.balanceOf a = c.liveOwned a
  supply : c.totalSupply = c.liveCount
  cap : ∀ max, c.maxSupply = some max → c.totalMinted ≤ max
  approvals : ∀ id spender, c.tokenApprovals.lookup id = some spender → (c.ownerOf id).isSome

section
variable {c c' : NftCollection} {call : Call}

theorem new_accounted (id : String) (creator : Address) (name symbol baseUri : String)
    (maxSupply : Option Nat) (transferable mutable_ : Bool) :
    Accounted (new id creator name symbol baseUri maxSupply transferable mutable_) :=
  ⟨fun _ => rfl, rfl, fun _ _ => Nat.zero_le _, fun _ _ given => by cases given⟩

theorem getD_lookup_insert (t : Table Address Nat) (a x : Address) (n : Nat) :
    ((t.insert a n).lookup x).getD 0 = if x = a then n else (t.lookup x).getD 0 := by
  by_cases same : x = a
  · subst same
    simp
  · simp [same, AList.lookup_insert_ne same]

variable {t : NftToken}

theorem ownedWeight_live (live : t.burned = false) (a : Address) :
    ownedWeight a t = if a = t.owner then 1 else 0 := by
  unfold ownedWeight
  rw [live]
  by_cases same : a = t.owner
  · simp [same]
  · simp [same, Ne.symm same]

theorem ownedWeight_burned (gone : t.burned = true) (a : Address) : ownedWeight a t = 0 := by
  simp [ownedWeight, gone]

variable {id : Nat}

theorem sumOf_replace {w : NftToken → Nat} {t : Table Nat NftToken} {old : NftToken}
    (found : t.lookup id = some old) (new : NftToken) :
    sumOf (fun _ x => w x) (t.insert id new) + w old = sumOf (fun _ x => w x) t + w new := by
  have grown := sumOf_insert (fun _ x => w x) t id new
  rwa [found] at grown

theorem Accounted.rewritten (fine : Accounted c) {t' : NftToken}
    (found : c.tokens.lookup id = some t) (owner : t'.owner = t.owner)
    (life : t'.burned = t.burned) : Accounted { c with tokens := c.tokens.insert id t' } := by
  refine ⟨?_, ?_, fine.cap, ?_⟩
  · intro a
    have moved := sumOf_replace (w := ownedWeight a) found t'
    have same : ownedWeight a t' = ownedWeight a t := by rw [ownedWeight, ownedWeight, owner, life]
    have counted := fine.balances a
    unfold liveOwned balanceOf at *
    dsimp only
    omega
  · have moved := sumOf_replace (w := liveWeight) found t'
    have same : liveWeight t' = liveWeight t := by rw [liveWeight, liveWeight, life]
    have counted := fine.supply
    unfold liveCount at *
    dsimp only
    omega
  · intro x spender given
    have lives := fine.approvals x spender given
    rw [ownerOf_insert rfl rfl]
    split
    · rename_i same
      rw [same] at lives
      obtain ⟨owner', owned⟩ := Option.isSome_iff_exists.mp lives
      obtain ⟨t₀, found', _, live⟩ := liveToken_of_ownerOf owned
      rw [found] at found'
      cases found'
      simp [life, live]
    · exact lives

theorem Accounted.minted (fine : Accounted c) {recipient : Address} {uri : String}
    {transferable : Bool} (absent : c.tokens.lookup id = none)
    (room : ∀ max, c.maxSupply = some max → c.totalMinted < max) :
    Accounted { c with
      tokens := c.tokens.insert id ⟨c.id, id, recipient, uri, transferable, false, false⟩
      balances := c.balances.insert recipient (c.balanceOf recipient + 1)
      totalSupply := c.totalSupply + 1
      totalMinted := c.totalMinted + 1 } := by
  refine ⟨?_, ?_, room, ?_⟩
  · intro a
    have counted := fine.balances a
    unfold liveOwned balanceOf at *
    dsimp only
    rw [sumOf_insert_absent _ _ absent, getD_lookup_insert, ownedWeight_live rfl]
    split_ifs with gains
    · subst gains
      omega
    · omega
  · have counted := fine.supply
    unfold liveCount at *
    dsimp only
    rw [sumOf_insert_absent _ _ absent, counted]
    exact Nat.add_comm _ _
  · intro x spender given
    rw [ownerOf_insert rfl rfl]
    split
    · rfl
    · exact fine.approvals x spender given

theorem approval_of_erase {x : Nat} {spender : Address}
    (given : (c.tokenApprovals.erase id).lookup x = some spender) :
    x ≠ id ∧ c.tokenApprovals.lookup x = some spender := by
  by_cases same : x = id
  · subst same
    simp at given
  · rw [AList.lookup_erase_ne same] at given
    exact ⟨same, given⟩

theorem Accounted.moved (fine : Accounted c) {recipient : Address}
    (found : c.tokens.lookup id = some t) (live : t.burned = false) (apart : t.owner ≠ recipient)
    (held : 1 ≤ c.balanceOf t.owner) :
    Accounted { c with
      balances := (c.balances.insert t.owner (c.balanceOf t.owner - 1)).insert recipient
        (c.balanceOf recipient + 1)
      tokens := c.tokens.insert id { t with owner := recipient }
      tokenApprovals := c.tokenApprovals.erase id } := by
  refine ⟨?_, ?_, fine.cap, ?_⟩
  · intro a
    have replaced := sumOf_replace (w := ownedWeight a) found { t with owner := recipient }
    have counted := fine.balances a
    unfold liveOwned balanceOf at *
    dsimp only
    rw [ownedWeight_live live, ownedWeight_live (by exact live)] at replaced
    rw [getD_lookup_insert, getD_lookup_insert]
    -- The three kinds of address: the new owner, the old one, anyone else.
    by_cases gains : a = recipient
    · subst gains
      rw [if_neg (Ne.symm apart), if_pos rfl] at replaced
      rw [if_pos rfl]
      omega
    · rw [if_neg gains] at replaced ⊢
      by_cases loses : a = t.owner
      · subst loses
        rw [if_pos rfl] at replaced ⊢
        omega
      · rw [if_neg loses] at replaced ⊢
        omega
  · have replaced := sumOf_replace (w := liveWeight) found { t with owner := recipient }
    have same : liveWeight { t with owner := recipient } = liveWeight t := rfl
    have counted := fine.supply
    unfold liveCount at *
    dsimp only at replaced ⊢
    omega
  · intro x spender given
    obtain ⟨other, kept⟩ := approval_of_erase given
    rw [ownerOf_insert rfl rfl, if_neg other]
    exact fine.approvals x spender kept

theorem Accounted.burned (fine : Accounted c) (found : c.tokens.lookup id = some t)
    (live : t.burned = false) (held : 1 ≤ c.balanceOf t.owner) (supplied : 1 ≤ c.totalSupply) :
    Accounted { c with
      balances := c.balances.insert t.owner (c.balanceOf t.owner - 1)
      totalSupply := c.totalSupply - 1
      tokenApprovals := c.tokenApprovals.erase id
      tokens := c.tokens.insert id { t with burned := true, frozen := false } } := by
  refine ⟨?_, ?_, fine.cap, ?_⟩
  · intro a
    have replaced := sumOf_replace (w := ownedWeight a) found
      { t with burned := true, frozen := false }
    have counted := fine.balances a
    unfold liveOwned balanceOf at *
    dsimp only
    rw [ownedWeight_live live, ownedWeight_burned (by rfl)] at replaced
    rw [getD_lookup_insert]
    split_ifs at replaced ⊢ with loses
    · subst loses
      omega
    · omega
  · have replaced := sumOf_replace (w := liveWeight) found
      { t with burned := true, frozen := false }
    have lived : liveWeight t = 1 := by rw [liveWeight, live]; rfl
    have gone : liveWeight { t with burned := true, frozen := false } = 0 := rfl
    have counted := fine.supply
    unfold liveCount at *
    dsimp only at replaced ⊢
    omega
  · intro x spender given
    obtain ⟨other, kept⟩ := approval_of_erase given
    rw [ownerOf_insert rfl rfl, if_neg other]
    exact fine.approvals x spender kept

theorem Accounted.effect (fine : Accounted c) (did : Effect c call c') : Accounted c' := by
  cases did with
  | minted _ absent room => exact fine.minted absent room
  | moved found live _ _ _ owned apart _ held =>
    subst owned
    exact fine.moved found live apart held
  | @approved _ _ id owner owned _ =>
    refine ⟨fine.balances, fine.supply, fine.cap, ?_⟩
    intro x named given
    by_cases same : x = id
    · subst same
      have lives : c.ownerOf x = some owner := owned
      show (c.ownerOf x).isSome
      rw [lives]
      rfl
    · exact fine.approvals x named ((AList.lookup_insert_ne same).symm.trans given)
  | cleared =>
    exact ⟨fine.balances, fine.supply, fine.cap,
      fun x named given => fine.approvals x named (approval_of_erase given).2⟩
  | operatorSet => exact ⟨fine.balances, fine.supply, fine.cap, fine.approvals⟩
  | burned found live held supplied => exact fine.burned found live held supplied
  | retitled found => exact fine.rewritten found rfl rfl
  | described | closed | locked => exact ⟨fine.balances, fine.supply, fine.cap, fine.approvals⟩
  | iced found => exact fine.rewritten found rfl rfl

theorem lookup_isSome_insert {t : Table Nat NftToken} {old : NftToken}
    (found : t.lookup id = some old) (new : NftToken) (x : Nat) :
    ((t.insert id new).lookup x).isSome = (t.lookup x).isSome := by
  by_cases same : x = id
  · subst same
    simp [found]
  · rw [AList.lookup_insert_ne same]

/-- Only a mint brings an id into the table, and nothing takes one out. -/
theorem Effect.known (did : Effect c call c') :
    (∃ caller recipient id uri choice, call = .mint caller recipient id uri choice ∧
        c.tokens.lookup id = none ∧ c'.totalMinted = c.totalMinted + 1 ∧
        ∀ x, (c'.tokens.lookup x).isSome = (decide (x = id) || (c.tokens.lookup x).isSome)) ∨
      (∀ caller recipient id uri choice, call ≠ .mint caller recipient id uri choice) ∧
        c'.totalMinted = c.totalMinted ∧
        ∀ x, (c'.tokens.lookup x).isSome = (c.tokens.lookup x).isSome := by
  cases did with
  | @minted caller recipient id uri choice _ absent _ =>
    refine .inl ⟨caller, recipient, id, uri, choice, rfl, absent, rfl, fun x => ?_⟩
    by_cases same : x = id
    · subst same
      simp
    · simp [same, AList.lookup_insert_ne same]
  | moved found => exact .inr ⟨by simp, rfl, lookup_isSome_insert found _⟩
  | burned found => exact .inr ⟨by simp, rfl, lookup_isSome_insert found _⟩
  | retitled found => exact .inr ⟨by simp, rfl, lookup_isSome_insert found _⟩
  | iced found => exact .inr ⟨by simp, rfl, lookup_isSome_insert found _⟩
  | approved | cleared | operatorSet | described | closed | locked =>
    exact .inr ⟨by simp, rfl, fun _ => rfl⟩

/-- A tombstone stays one: a rewrite that keeps `burned` set keeps the id without an owner. -/
theorem Effect.buried (did : Effect c call c') (gone : (c.tokens.lookup id).any (·.burned) = true) :
    (c'.tokens.lookup id).any (·.burned) = true := by
  have rewritten : ∀ {x : Nat} {t t' : NftToken}, c.tokens.lookup x = some t →
      (t.burned = true → t'.burned = true) →
      ((c.tokens.insert x t').lookup id).any (·.burned) = true := by
    intro x t t' found kept
    by_cases same : id = x
    · subst same
      rw [found] at gone
      simpa using kept (by simpa using gone)
    · rwa [AList.lookup_insert_ne same]
  cases did with
  | @minted _ _ x _ _ _ absent _ =>
    have other : id ≠ x := by
      rintro rfl
      rw [absent] at gone
      cases gone
    show ((c.tokens.insert x _).lookup id).any _ = true
    rwa [AList.lookup_insert_ne other]
  | moved found => exact rewritten found fun kept => kept
  | burned found => exact rewritten found fun _ => rfl
  | retitled found => exact rewritten found fun kept => kept
  | iced found => exact rewritten found fun kept => kept
  | approved | cleared | operatorSet | described | closed | locked => exact gone

variable {start : NftCollection}

theorem after_accounted (fine : Accounted start) (past : List Call) :
    Accounted (start.after past) := by
  induction past with
  | nil => exact fine
  | cons call past ih =>
    rcases after_cons start past call with ⟨_, did⟩ | ⟨_, same⟩
    · exact ih.effect did
    · rw [same]
      exact ih

theorem maxSupply_after (past : List Call) : (start.after past).maxSupply = start.maxSupply := by
  induction past with
  | nil => rfl
  | cons call past ih =>
    rcases after_cons start past call with ⟨_, did⟩ | ⟨_, same⟩
    · rw [← ih]
      generalize start.after (call :: past) = c' at did
      cases did <;> rfl
    · rw [same, ih]

structure Recorded (start : NftCollection) (past : List Call) : Prop where
  nodup : (start.mintedIds past).Nodup
  counted : (start.after past).totalMinted = (start.mintedIds past).length
  known : ∀ id, id ∈ start.mintedIds past ↔ ((start.after past).tokens.lookup id).isSome

variable {past : List Call}

theorem mintedIds_other {call : Call}
    (other : ∀ caller recipient id uri choice, call ≠ .mint caller recipient id uri choice) :
    start.mintedIds (call :: past) = start.mintedIds past := by
  cases call with
  | mint caller recipient id uri choice => exact absurd rfl (other caller recipient id uri choice)
  | _ => rfl

theorem mintedIds_failed {call : Call} (failed : ¬ Done start past call) :
    start.mintedIds (call :: past) = start.mintedIds past := by
  cases call with
  | mint => exact if_neg failed
  | _ => rfl

theorem after_recorded (fresh : start.tokens = ∅) (unminted : start.totalMinted = 0)
    (past : List Call) : Recorded start past := by
  induction past with
  | nil =>
    refine ⟨nodup_nil, unminted, fun id => ?_⟩
    show id ∈ [] ↔ (start.tokens.lookup id).isSome
    simp [fresh]
  | cons call past ih =>
    rcases after_cons start past call with ⟨done, did⟩ | ⟨failed, same⟩
    · rcases did.known with ⟨caller, recipient, id, uri, choice, rfl, absent, tally, known⟩ |
        ⟨other, tally, known⟩
      · have minted : start.mintedIds (.mint caller recipient id uri choice :: past) =
            id :: start.mintedIds past := if_pos done
        refine ⟨?_, ?_, ?_⟩
        · rw [minted, nodup_cons, ih.known, absent]
          exact ⟨by simp, ih.nodup⟩
        · rw [minted, tally, ih.counted]
          rfl
        · intro x
          rw [minted, known, mem_cons, ih.known]
          simp
      · refine ⟨?_, ?_, ?_⟩ <;> rw [mintedIds_other other]
        · exact ih.nodup
        · rw [tally, ih.counted]
        · intro x
          rw [known, ih.known]
    · refine ⟨?_, ?_, ?_⟩ <;> rw [mintedIds_failed failed]
      · exact ih.nodup
      · rw [same, ih.counted]
      · rw [same]
        exact ih.known

theorem burnedIds_failed {call : Call} (failed : ¬ Done start past call) :
    start.burnedIds (call :: past) = start.burnedIds past := by
  cases call with
  | burn => exact if_neg failed
  | _ => rfl

theorem burnedIds_buried (past : List Call) :
    ∀ id ∈ start.burnedIds past, ((start.after past).tokens.lookup id).any (·.burned) = true := by
  induction past with
  | nil => intro id member; cases member
  | cons call past ih =>
    intro id member
    rcases after_cons start past call with ⟨done, did⟩ | ⟨failed, same⟩
    · by_cases earlier : id ∈ start.burnedIds past
      · exact did.buried (ih id earlier)
      · generalize start.after (call :: past) = c' at did ⊢
        cases did with
        | @burned caller x _ _ _ _ _ =>
          have burned : start.burnedIds (.burn caller x :: past) = x :: start.burnedIds past :=
            if_pos done
          rw [burned, mem_cons] at member
          rcases member with rfl | old
          · simp
          · exact absurd old earlier
        | _ => exact absurd member earlier
    · rw [same]
      apply ih
      rwa [burnedIds_failed failed] at member

end

/-- After any history of calls on a new collection, carried out or refused, the counters are
what the tokens say, and a refused call changes nothing. -/
theorem counters_match_tokens (id : String) (creator : Address) (name symbol baseUri : String)
    (maxSupply : Option Nat) (transferable metadataMutable : Bool) (past : List Call) :
    let start := new id creator name symbol baseUri maxSupply transferable metadataMutable
    let c := start.after past
    (∀ a, c.balanceOf a = c.liveOwned a) ∧ c.totalSupply = c.liveCount ∧
      (start.mintedIds past).Nodup ∧ c.totalMinted = (start.mintedIds past).length ∧
      (∀ max, maxSupply = some max → c.totalMinted ≤ max) ∧
      (∀ tokenId spender, c.tokenApprovals.lookup tokenId = some spender →
        (c.ownerOf tokenId).isSome) ∧
      (∀ tokenId ∈ start.burnedIds past, c.ownerOf tokenId = none) ∧
      ∀ (call : Call) (e : NftError) (c' : NftCollection), call.run c = .error e c' → c' = c := by
  intro start c
  have fine : Accounted c := after_accounted (new_accounted _ _ _ _ _ _ _ _) past
  have minted : Recorded start past := after_recorded rfl rfl past
  refine ⟨fine.balances, fine.supply, minted.nodup, minted.counted, ?_, fine.approvals, ?_, ?_⟩
  · intro max capped
    exact fine.cap max ((maxSupply_after past).trans capped)
  · intro tokenId member
    have buried := burnedIds_buried past tokenId member
    cases owned : c.ownerOf tokenId with
    | none => rfl
    | some =>
      obtain ⟨t, found, _, live⟩ := liveToken_of_ownerOf owned
      rw [show (start.after past).tokens.lookup tokenId = some t from found] at buried
      simp [live] at buried
  · intro call e c' failed
    exact call.failsClean c e c' failed

end NftCollection
end SentrixTokens
