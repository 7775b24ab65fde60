import Sentrix.Tokens.NftHistory

/-!
Who may move a token, told by the history. The two approval maps only hold what was
granted on the way and not taken back since; a grant for one token ends when the token
changes hands.
-/
namespace SentrixTokens
open Effects SentrixPrimitives

namespace NftCollection

/-- Whether a successful call ends or replaces the token's approval. -/
def Call.clears (id : Nat) : Call → Bool
  | .approve _ _ x | .clearApproval _ x | .transfer _ _ _ x | .burn _ x => x == id
  | _ => false

/-- `a` has let `operator` act for it and has not revoked that. -/
inductive Enabled (start : NftCollection) (a operator : Address) : List Call → Prop
  | granted {past : List Call} (done : Done start past (.setApprovalForAll a a operator true)) :
      Enabled start a operator (.setApprovalForAll a a operator true :: past)
  | kept {past : List Call} {call : Call} (earlier : Enabled start a operator past)
      (unrevoked : ∀ caller, call = .setApprovalForAll caller a operator false →
        ¬ Done start past call) :
      Enabled start a operator (call :: past)

/-- `spender` was approved for the token by `a` or an operator of `a`'s, while `a` owned it;
`a` has owned it ever since and the approval has not been cleared. -/
inductive Approved (start : NftCollection) (id : Nat) (a spender : Address) : List Call → Prop
  | given {past : List Call} {caller : Address}
      (done : Done start past (.approve caller spender id))
      (owned : (start.after past).ownerOf id = some a)
      (authority : caller = a ∨ Enabled start a caller past) :
      Approved start id a spender (.approve caller spender id :: past)
  | kept {past : List Call} {call : Call} (earlier : Approved start id a spender past)
      (owned : (start.after (call :: past)).ownerOf id = some a)
      (uncleared : Done start past call → call.clears id = false) :
      Approved start id a spender (call :: past)

section
variable {c c' : NftCollection} {call : Call}

/-- Only the owner's own call sets an operator. -/
theorem Effect.operators (did : Effect c call c') (a operator : Address)
    (given : c'.isApprovedForAll a operator = true) :
    call = .setApprovalForAll a a operator true ∨
      c.isApprovedForAll a operator = true ∧
        ∀ caller, call ≠ .setApprovalForAll caller a operator false := by
  cases did with
  | @operatorSet owner named _ =>
    unfold isApprovedForAll at given ⊢
    by_cases same : a = owner
    · subst same
      by_cases other : operator = named
      · subst other
        left
        simpa using given
      · right
        refine ⟨?_, fun caller revoked => by cases revoked; exact other rfl⟩
        simp only [AList.lookup_insert, Option.bind_some, AList.lookup_insert_ne other] at given
        cases held : c.operatorApprovals.lookup a with
        | none => simp [held] at given
        | some => simpa [held] using given
    · right
      refine ⟨?_, fun caller revoked => by cases revoked; exact same rfl⟩
      simpa [AList.lookup_insert_ne same] using given
  | _ => exact .inr ⟨given, by simp⟩

/-- An owner changes only in a transfer of that very token, made under its rules. -/
theorem Effect.owner (did : Effect c call c') {id : Nat} {a : Address}
    (owned : c.ownerOf id = some a) :
    c'.ownerOf id = some a ∨ call.clears id = true ∧
      ((∃ caller, call = .burn caller id ∧ c'.ownerOf id = none) ∨
        ∃ caller recipient t, call = .transfer caller a recipient id ∧
          c.tokens.lookup id = some t ∧ t.transferable = true ∧ t.frozen = false ∧
          c.frozen = false ∧ c.transferAuthorized caller a id = true) := by
  obtain ⟨t₀, found₀, owner₀, live₀⟩ := liveToken_of_ownerOf owned
  -- A token rewritten under another id, or with owner and life as they were.
  have rewritten : ∀ {x : Nat} {t t' : NftToken} {c₁ : NftCollection},
      c₁.tokens = c.tokens.insert x t' → c.tokens.lookup x = some t → t'.owner = t.owner →
      t'.burned = t.burned → c₁.ownerOf id = some a := by
    intro x t t' c₁ wrote found owner life
    rw [ownerOf_insert wrote rfl]
    split
    · rename_i same
      rw [← same, found₀] at found
      cases found
      simp [life, live₀, owner, owner₀]
    · exact owned
  cases did with
  | @minted _ _ x _ _ _ absent _ =>
    left
    have other : id ≠ x := by
      rintro rfl
      rw [absent] at found₀
      cases found₀
    rw [ownerOf_insert rfl rfl, if_neg other]
    exact owned
  | @moved caller _ recipient x _ found _ transferable thawed opened own _ allowed _ =>
    by_cases same : id = x
    · subst same
      rw [found₀] at found
      cases found
      rw [owner₀] at own
      subst own
      exact .inr ⟨by simp [Call.clears], .inr ⟨caller, recipient, t₀, rfl, found₀, transferable,
        thawed, opened, allowed⟩⟩
    · left
      rw [ownerOf_insert rfl rfl, if_neg same]
      exact owned
  | @burned caller x _ _ _ _ _ =>
    by_cases same : id = x
    · subst same
      right
      refine ⟨by simp [Call.clears], .inl ⟨caller, rfl, ?_⟩⟩
      rw [ownerOf_insert rfl rfl, if_pos rfl]
      rfl
    · left
      rw [ownerOf_insert rfl rfl, if_neg same]
      exact owned
  | retitled found => exact .inl (rewritten rfl found rfl rfl)
  | iced found => exact .inl (rewritten rfl found rfl rfl)
  | approved | cleared | operatorSet | described | closed | locked => exact .inl owned

/-- An approval that is there was given by this call or was there before and not cleared. -/
theorem Effect.approvals (did : Effect c call c') {id : Nat} {spender : Address}
    (given : c'.tokenApprovals.lookup id = some spender) :
    (∃ caller a, call = .approve caller spender id ∧ c.ownerOf id = some a ∧
        (caller = a ∨ c.isApprovedForAll a caller = true)) ∨
      c.tokenApprovals.lookup id = some spender ∧ call.clears id = false := by
  -- What an erased entry leaves of the map.
  have erased : ∀ {x : Nat}, (c.tokenApprovals.erase x).lookup id = some spender →
      c.tokenApprovals.lookup id = some spender ∧ (x == id) = false := by
    intro x left
    by_cases same : id = x
    · subst same
      simp at left
    · rw [AList.lookup_erase_ne same] at left
      exact ⟨left, by simpa using Ne.symm same⟩
  cases did with
  | @approved caller named x owner owned allowed =>
    by_cases same : id = x
    · subst same
      have named_eq : named = spender := by simpa using given
      subst named_eq
      exact .inl ⟨caller, owner, rfl, owned, allowed⟩
    · right
      have before : (c.tokenApprovals.insert x named).lookup id = some spender := given
      rw [AList.lookup_insert_ne same] at before
      exact ⟨before, by simpa [Call.clears] using Ne.symm same⟩
  | moved => exact .inr (erased given)
  | cleared => exact .inr (erased given)
  | burned => exact .inr (erased given)
  | minted | operatorSet | retitled | described | closed | locked | iced => exact .inr ⟨given, rfl⟩

variable {start : NftCollection}

theorem enabled_of_operator (fresh : start.operatorApprovals = ∅) (past : List Call) :
    ∀ a operator, (start.after past).isApprovedForAll a operator = true →
      Enabled start a operator past := by
  induction past with
  | nil =>
    intro a operator given
    have never : start.isApprovedForAll a operator = true := given
    simp [isApprovedForAll, fresh] at never
  | cons call past ih =>
    intro a operator given
    rcases after_cons start past call with ⟨done, did⟩ | ⟨failed, same⟩
    · rcases did.operators a operator given with rfl | ⟨before, other⟩
      · exact .granted done
      · exact .kept (ih a operator before) fun caller revoked => absurd revoked (other caller)
    · rw [same] at given
      exact .kept (ih a operator given) fun _ _ => failed

theorem approved_of_approval (fresh : start.operatorApprovals = ∅)
    (unapproved : start.tokenApprovals = ∅) (past : List Call) :
    ∀ id spender, (start.after past).tokenApprovals.lookup id = some spender →
      ∃ a, (start.after past).ownerOf id = some a ∧ Approved start id a spender past := by
  induction past with
  | nil =>
    intro id spender given
    have never : start.tokenApprovals.lookup id = some spender := given
    simp [unapproved] at never
  | cons call past ih =>
    intro id spender given
    rcases after_cons start past call with ⟨done, did⟩ | ⟨failed, same⟩
    · rcases did.approvals given with ⟨caller, a, rfl, owned, allowed⟩ | ⟨before, uncleared⟩
      · have held : (start.after (.approve caller spender id :: past)).ownerOf id = some a := by
          rcases did.owner owned with held | ⟨_, ⟨_, other, _⟩ | ⟨_, _, _, other, _⟩⟩
          · exact held
          · cases other
          · cases other
        exact ⟨a, held, .given done owned (allowed.imp_right (enabled_of_operator fresh past a caller))⟩
      · obtain ⟨a, owned, earlier⟩ := ih id spender before
        rcases did.owner owned with held | ⟨clears, _⟩
        · exact ⟨a, held, .kept earlier held fun _ => uncleared⟩
        · rw [uncleared] at clears
          cases clears
    · rw [same] at given ⊢
      obtain ⟨a, owned, earlier⟩ := ih id spender given
      exact ⟨a, owned, .kept earlier (by rw [same]; exact owned) fun done => absurd done failed⟩

theorem Effect.grantsBy (did : Effect c call c') : GrantsBy call.caller c c' where
  operator owner op given := by
    rcases did.operators owner op given with rfl | ⟨before, -⟩
    · exact .inr rfl
    · exact .inl before
  token id spender given := by
    rcases did.approvals given with ⟨caller, a, rfl, owned, allowed⟩ | ⟨before, -⟩
    · exact .inr ⟨a, owned, allowed⟩
    · exact .inl before

/-- The count of an account that keeps its tokens does not drop. -/
theorem Effect.spares (did : Effect c call c') {a : Address}
    (kept : ∀ id, c.ownerOf id = some a → c'.ownerOf id = some a) : Spares a c c' where
  owned := kept
  counted := by
    have still {id : Nat} {t : NftToken} (found : c.tokens.lookup id = some t)
        (live : t.burned = false) (own : t.owner = a) : c'.ownerOf id = some a :=
      kept id (by simp [ownerOf, liveToken, found, live, own])
    cases did with
    | minted =>
      apply balanceOf_le_insert rfl
      rintro rfl
      omega
    | @moved _ sender recipient _ _ found live _ _ _ own apart =>
      have other : a ≠ sender := by
        rintro rfl
        have held := still found live own
        rw [ownerOf_insert rfl rfl, if_pos rfl] at held
        simp only [live, Bool.false_eq_true, if_false, Option.some.injEq] at held
        exact apart held.symm
      unfold balanceOf
      by_cases gains : a = recipient
      · subst gains
        simp
      · simp [AList.lookup_insert_ne gains, AList.lookup_insert_ne other]
    | burned found live =>
      apply balanceOf_le_insert rfl
      rintro rfl
      have held := still found live rfl
      rw [ownerOf_insert rfl rfl, if_pos rfl] at held
      cases held
    | _ => exact Nat.le_refl _

theorem burn_allowed {caller : Address} {id : Nat} {event : NftEvent}
    (ran : burn caller id c = .ok event c') :
    ∃ owner, c.ownerOf id = some owner ∧ (caller = owner ∨ caller = c.admin) := by
  obtain ⟨owner, owned, rest⟩ := fromOption_bind_ok (get_bind_ok ran)
  obtain ⟨allowed, -⟩ := ensure_bind_ok rest
  exact ⟨owner, owned, by simpa using allowed⟩

end

/-- Over any history on a new collection, a live token goes from one owner to another only in
a call of the owner, of a spender approved under that owner, or of an operator the owner
has enabled; and never while it is soulbound, frozen or in a frozen collection. -/
theorem owner_changes_by_authority (id : String) (creator : Address)
    (name symbol baseUri : String) (maxSupply : Option Nat) (transferable metadataMutable : Bool)
    (past : List Call) (call : Call) (tokenId : Nat) (a b : Address)
    (owned : ((new id creator name symbol baseUri maxSupply transferable metadataMutable).after
      past).ownerOf tokenId = some a)
    (owns : ((new id creator name symbol baseUri maxSupply transferable metadataMutable).after
      (call :: past)).ownerOf tokenId = some b)
    (apart : a ≠ b) :
    let start := new id creator name symbol baseUri maxSupply transferable metadataMutable
    (call.caller = a ∨ Approved start tokenId a call.caller past ∨
        Enabled start a call.caller past) ∧
      ∃ t, (start.after past).tokens.lookup tokenId = some t ∧ t.transferable = true ∧
        t.frozen = false ∧ (start.after past).frozen = false := by
  intro start
  rcases after_cons start past call with ⟨done, did⟩ | ⟨failed, same⟩
  · rcases did.owner owned with held | ⟨_, ⟨_, _, gone⟩ |
        ⟨caller, recipient, t, rfl, found, loose, thawed, opened, allowed⟩⟩
    · rw [owns] at held
      exact absurd (Option.some.inj held).symm apart
    · rw [owns] at gone
      cases gone
    · refine ⟨?_, t, found, loose, thawed, opened⟩
      unfold transferAuthorized at allowed
      simp only [Bool.or_eq_true, beq_iff_eq] at allowed
      rcases allowed with (self | approved) | operator
      · exact .inl self
      · obtain ⟨a', owned', given⟩ := approved_of_approval rfl rfl past _ _ approved
        rw [owned] at owned'
        cases owned'
        exact .inr (.inl given)
      · exact .inr (.inr (enabled_of_operator rfl past a caller operator))
  · rw [same, owned] at owns
    exact absurd (Option.some.inj owns) apart

/-- A spender the owner approved moves a token. -/
theorem spender_moves_token :
    let start := new "art" "ada" "Art" "ART" "" none true true
    let past := [Call.approve "ada" "cy" 7, Call.mint "ada" "ada" 7 "" none]
    (start.after (Call.transfer "cy" "ada" "bob" 7 :: past)).ownerOf 7 = some "bob" ∧
      (("cy" : Address) = "ada" ∨ Approved start 7 "ada" "cy" past ∨ Enabled start "ada" "cy" past) :=
  ⟨by decide,
    (owner_changes_by_authority "art" "ada" "Art" "ART" "" none true true
      [Call.approve "ada" "cy" 7, Call.mint "ada" "ada" 7 "" none]
      (Call.transfer "cy" "ada" "bob" 7) 7 "ada" "bob" (by decide) (by decide)
      (by decide)).1⟩

end NftCollection

def nftCallOf (sender : Address) : TokenOp → Option (String × NftCollection.Call)
  | .mintNft contract recipient id uri => some (contract, .mint sender recipient id uri none)
  | .transferNft contract source recipient id =>
    some (contract, .transfer sender source recipient id)
  | .burnNft contract id => some (contract, .burn sender id)
  | .approveNft contract spender id => some (contract, .approve sender spender id)
  | .setApprovalForAll contract operator approved =>
    some (contract, .setApprovalForAll sender sender operator approved)
  | _ => none

theorem caller_nftCallOf {sender : Address} {op : TokenOp} {contract : String}
    {call : NftCollection.Call} (made : nftCallOf sender op = some (contract, call)) :
    call.caller = sender := by
  cases op <;> cases made <;> rfl

section
variable {w : Wire} {op : TokenOp} {sender : Address} {seed : String} {reg reg' : NftRegistry}
  {event : NftEvent}

theorem applyNftTokenOp_call (ran : applyNftTokenOp w op sender seed reg = .ok event reg') :
    (∃ contract name symbol baseUri maxSupply, reg.collections.lookup contract = none ∧
        reg' = ⟨reg.collections.insert contract
          (.new contract sender name symbol baseUri maxSupply true true)⟩) ∨
      ∃ contract c c' call, reg.collections.lookup contract = some c ∧
        nftCallOf sender op = some (contract, call) ∧ call.run c = .ok event c' ∧
        reg' = ⟨reg.collections.insert contract c'⟩ := by
  have called {contract : String} {call : NftCollection.Call}
      (made : nftCallOf sender op = some (contract, call))
      (ran : NftRegistry.onCollection contract call.run reg = .ok event reg') :
      ∃ contract c c' call, reg.collections.lookup contract = some c ∧
        nftCallOf sender op = some (contract, call) ∧ call.run c = .ok event c' ∧
        reg' = ⟨reg.collections.insert contract c'⟩ := by
    obtain ⟨c, c', found, method, same⟩ := NftRegistry.onCollection_ok ran
    exact ⟨contract, c, c', call, found, made, method, same⟩
  cases op with
  | deployNft name symbol baseUri =>
    obtain ⟨_, r1⟩ := ensure_bind_ok (liftNft_ok ran)
    obtain ⟨_, r2⟩ := ensure_bind_ok r1
    obtain ⟨_, r3⟩ := ensure_bind_ok r2
    obtain ⟨_, r4⟩ := ensure_bind_ok r3
    obtain ⟨absent, r5⟩ := ensure_bind_ok (get_bind_ok r4)
    obtain ⟨_, stored, written, done⟩ := bind_ok.mp r5
    cases set_ok.mp written
    obtain ⟨_, rfl⟩ := pure_ok.mp done
    exact .inl ⟨_, name, symbol, baseUri, _, Option.isNone_iff_eq_none.mp absent, rfl⟩
  | mintNft =>
    obtain ⟨_, r1⟩ := ensure_bind_ok ran
    exact .inr (called rfl r1)
  | transferNft =>
    obtain ⟨_, r1⟩ := ensure_bind_ok ran
    obtain ⟨_, r2⟩ := ensure_bind_ok r1
    exact .inr (called rfl r2)
  | burnNft => exact .inr (called rfl ran)
  | approveNft | setApprovalForAll =>
    obtain ⟨_, r1⟩ := ensure_bind_ok ran
    exact .inr (called rfl r1)
  | deploy | transfer | burn | mint | approve | deployMulti | mintMulti | transferMulti
  | burnMulti | batchMintMulti | batchTransferMulti => exact absurd ran throw_ok

theorem applyNftTokenOp_ok (ran : applyNftTokenOp w op sender seed reg = .ok event reg') :
    NftRegistry.GrantsBy sender reg reg' ∧
      ∀ a, NftRegistry.Spares a reg reg' ∨ NftTaken op sender a reg := by
  rcases applyNftTokenOp_call ran with ⟨contract, name, symbol, baseUri, maxSupply, absent, rfl⟩ |
    ⟨contract, c, c', call, found, made, method, rfl⟩
  · have fresh (a : Address) := @NftRegistry.fresh_collection reg contract
      (.new contract sender name symbol baseUri maxSupply true true) a sender absent rfl rfl
    exact ⟨(fresh sender).2, fun a => .inl (fresh a).1⟩
  · have did := NftCollection.effect_of_ok method
    have grants := did.grantsBy
    rw [caller_nftCallOf made] at grants
    refine ⟨.insert found grants, fun a => ?_⟩
    by_cases kept : ∀ id, c.ownerOf id = some a → c'.ownerOf id = some a
    · exact .inl (.insert found (did.spares kept))
    right
    obtain ⟨id, lost⟩ := not_forall.mp kept
    obtain ⟨owned, gone⟩ := Classical.not_imp.mp lost
    refine ⟨contract, c, id, found, owned, ?_⟩
    rcases did.owner owned with held | ⟨-, ⟨_, rfl, -⟩ | ⟨_, recipient, _, rfl, _, _, _, _, allowed⟩⟩
    · exact absurd held gone
    · obtain ⟨owner, owned', may⟩ := NftCollection.burn_allowed method
      cases owned.symm.trans owned'
      right
      cases op <;> cases made
      exact ⟨rfl, may⟩
    · left
      cases op <;> cases made
      exact ⟨recipient, rfl, allowed⟩

end
end SentrixTokens
