import Sentrix.Lib.CleanFailure
import Sentrix.Tokens.Nft

/-!
A collection over whole histories of calls, made by anyone and failing or not. `Effect`
says once what a successful call writes and under which conditions.
-/
namespace SentrixTokens
open MachineWords Effects SentrixPrimitives

namespace NftCollection

inductive Call where
  | mint (caller recipient : Address) (tokenId : Nat) (uri : String) (transferable : Option Bool)
  | transfer (caller sender recipient : Address) (tokenId : Nat)
  | approve (caller spender : Address) (tokenId : Nat)
  | clearApproval (caller : Address) (tokenId : Nat)
  | setApprovalForAll (caller owner operator : Address) (approved : Bool)
  | burn (caller : Address) (tokenId : Nat)
  | updateTokenUri (caller : Address) (tokenId : Nat) (newUri : String)
  | updateCollectionMetadata (caller : Address) (description baseUri externalUrl : Option String)
  | freezeCollection (caller : Address)
  | lockMetadata (caller : Address)
  | setTokenFrozen (caller : Address) (tokenId : Nat) (frozen : Bool)
  deriving DecidableEq

namespace Call

def caller : Call → Address
  | mint caller .. | transfer caller .. | approve caller .. | clearApproval caller _
  | setApprovalForAll caller .. | burn caller _ | updateTokenUri caller ..
  | updateCollectionMetadata caller .. | freezeCollection caller | lockMetadata caller
  | setTokenFrozen caller .. => caller

def run : Call → EStateM NftError NftCollection NftEvent
  | mint caller recipient id uri transferable =>
    NftCollection.mint caller recipient id uri transferable
  | transfer caller sender recipient id => NftCollection.transfer caller sender recipient id
  | approve caller spender id => NftCollection.approve caller spender id
  | clearApproval caller id => NftCollection.clearApproval caller id
  | setApprovalForAll caller owner operator approved =>
    NftCollection.setApprovalForAll caller owner operator approved
  | burn caller id => NftCollection.burn caller id
  | updateTokenUri caller id uri => NftCollection.updateTokenUri caller id uri
  | updateCollectionMetadata caller description baseUri externalUrl =>
    NftCollection.updateCollectionMetadata caller description baseUri externalUrl
  | freezeCollection caller => NftCollection.freezeCollection caller
  | lockMetadata caller => NftCollection.lockMetadata caller
  | setTokenFrozen caller id frozen => NftCollection.setTokenFrozen caller id frozen

end Call

def after (start : NftCollection) : List Call → NftCollection
  | [] => start
  | call :: past => finalState call.run (after start past)

def Done (start : NftCollection) (past : List Call) (call : Call) : Prop :=
  succeeds call.run (start.after past) = true

instance (start : NftCollection) (past : List Call) (call : Call) : Decidable (Done start past call) :=
  inferInstanceAs (Decidable (_ = true))

inductive Effect (c : NftCollection) : Call → NftCollection → Prop
  | minted {caller recipient : Address} {id : Nat} {uri : String} {choice : Option Bool}
      (transferable : Bool) (absent : c.tokens.lookup id = none)
      (room : ∀ max, c.maxSupply = some max → c.totalMinted < max) :
      Effect c (.mint caller recipient id uri choice) { c with
        tokens := c.tokens.insert id ⟨c.id, id, recipient, uri, transferable, false, false⟩
        balances := c.balances.insert recipient (c.balanceOf recipient + 1)
        totalSupply := c.totalSupply + 1
        totalMinted := c.totalMinted + 1 }
  | moved {caller sender recipient : Address} {id : Nat} {t : NftToken}
      (found : c.tokens.lookup id = some t) (live : t.burned = false)
      (transferable : t.transferable = true) (thawed : t.frozen = false) (open_ : c.frozen = false)
      (owned : t.owner = sender) (apart : sender ≠ recipient)
      (allowed : c.transferAuthorized caller sender id = true) (held : 1 ≤ c.balanceOf sender) :
      Effect c (.transfer caller sender recipient id) { c with
        balances := (c.balances.insert sender (c.balanceOf sender - 1)).insert recipient
          (c.balanceOf recipient + 1)
        tokens := c.tokens.insert id { t with owner := recipient }
        tokenApprovals := c.tokenApprovals.erase id }
  | approved {caller spender : Address} {id : Nat} {owner : Address}
      (owned : c.ownerOf id = some owner)
      (allowed : caller = owner ∨ c.isApprovedForAll owner caller = true) :
      Effect c (.approve caller spender id)
        { c with tokenApprovals := c.tokenApprovals.insert id spender }
  | cleared {caller : Address} {id : Nat} :
      Effect c (.clearApproval caller id) { c with tokenApprovals := c.tokenApprovals.erase id }
  | operatorSet {owner operator : Address} {approved : Bool} :
      Effect c (.setApprovalForAll owner owner operator approved) { c with
        operatorApprovals := c.operatorApprovals.insert owner
          (((c.operatorApprovals.lookup owner).getD ∅).insert operator approved) }
  | burned {caller : Address} {id : Nat} {t : NftToken}
      (found : c.tokens.lookup id = some t) (live : t.burned = false)
      (held : 1 ≤ c.balanceOf t.owner) (supplied : 1 ≤ c.totalSupply) :
      Effect c (.burn caller id) { c with
        balances := c.balances.insert t.owner (c.balanceOf t.owner - 1)
        totalSupply := c.totalSupply - 1
        tokenApprovals := c.tokenApprovals.erase id
        tokens := c.tokens.insert id { t with burned := true, frozen := false } }
  | retitled {caller : Address} {id : Nat} {uri : String} {t : NftToken}
      (found : c.tokens.lookup id = some t) :
      Effect c (.updateTokenUri caller id uri)
        { c with tokens := c.tokens.insert id { t with uri } }
  | described {caller : Address} {description baseUri externalUrl : Option String} :
      Effect c (.updateCollectionMetadata caller description baseUri externalUrl) { c with
        description := description.getD c.description
        baseUri := baseUri.getD c.baseUri
        externalUrl := externalUrl.getD c.externalUrl }
  | closed {caller : Address} : Effect c (.freezeCollection caller) { c with frozen := true }
  | locked {caller : Address} : Effect c (.lockMetadata caller) { c with metadataMutable := false }
  | iced {caller : Address} {id : Nat} {frozen : Bool} {t : NftToken}
      (found : c.tokens.lookup id = some t) :
      Effect c (.setTokenFrozen caller id frozen)
        { c with tokens := c.tokens.insert id { t with frozen } }

section
variable {c c' : NftCollection} {event : NftEvent} {caller sender recipient spender owner : Address}
  {id : Nat}

theorem mint_effect {uri : String} {choice : Option Bool}
    (ran : mint caller recipient id uri choice c = .ok event c') :
    Effect c (.mint caller recipient id uri choice) c' := by
  unfold mint at ran
  obtain ⟨_, r1⟩ := ensure_bind_ok (get_bind_ok ran)
  obtain ⟨_, r2⟩ := ensure_bind_ok r1
  obtain ⟨absent, r3⟩ := ensure_bind_ok r2
  obtain ⟨room, r4⟩ := ensure_bind_ok r3
  obtain ⟨balance, counted, r5⟩ := fromOption_bind_ok r4
  obtain ⟨supply, supplied, r6⟩ := fromOption_bind_ok r5
  obtain ⟨minted, tallied, r7⟩ := fromOption_bind_ok r6
  obtain ⟨_, stored, written, done⟩ := bind_ok.mp r7
  cases set_ok.mp written
  obtain ⟨_, rfl⟩ := pure_ok.mp done
  obtain ⟨rfl, _⟩ := checkedAdd64_eq_some counted
  obtain ⟨rfl, _⟩ := checkedAdd64_eq_some supplied
  obtain ⟨rfl, _⟩ := checkedAdd64_eq_some tallied
  refine .minted _ (Option.isNone_iff_eq_none.mp absent) ?_
  intro max capped
  simpa [capped] using room

theorem transfer_effect (ran : transfer caller sender recipient id c = .ok event c') :
    Effect c (.transfer caller sender recipient id) c' := by
  unfold transfer at ran
  obtain ⟨_, r1⟩ := ensure_bind_ok (get_bind_ok ran)
  obtain ⟨apart, r2⟩ := ensure_bind_ok r1
  obtain ⟨token, live, r3⟩ := fromOption_bind_ok r2
  obtain ⟨transferable, r4⟩ := ensure_bind_ok r3
  obtain ⟨thawed, r5⟩ := ensure_bind_ok r4
  obtain ⟨opened, r6⟩ := ensure_bind_ok r5
  obtain ⟨own, r7⟩ := ensure_bind_ok r6
  obtain ⟨allowed, r8⟩ := ensure_bind_ok r7
  obtain ⟨left, less, r9⟩ := fromOption_bind_ok r8
  obtain ⟨gained, more, r10⟩ := fromOption_bind_ok r9
  obtain ⟨_, stored, written, done⟩ := bind_ok.mp r10
  cases set_ok.mp written
  obtain ⟨_, rfl⟩ := pure_ok.mp done
  obtain ⟨rfl, held⟩ := checkedSub_eq_some less
  obtain ⟨rfl, _⟩ := checkedAdd64_eq_some more
  obtain ⟨found, unburned⟩ := Option.filter_eq_some_iff.mp live
  rw [setToken_of_lookup _ (by exact found)]
  exact .moved found (by simpa using unburned) transferable (by simpa using thawed)
    (by simpa using opened) (by simpa using own) (by simpa using apart) allowed held

theorem approve_effect (ran : approve caller spender id c = .ok event c') :
    Effect c (.approve caller spender id) c' := by
  unfold approve at ran
  obtain ⟨_, r1⟩ := ensure_bind_ok (get_bind_ok ran)
  obtain ⟨owner, owned, r2⟩ := fromOption_bind_ok r1
  obtain ⟨allowed, r3⟩ := ensure_bind_ok r2
  obtain ⟨_, stored, written, done⟩ := bind_ok.mp r3
  cases set_ok.mp written
  obtain ⟨_, rfl⟩ := pure_ok.mp done
  exact .approved owned (by simpa using allowed)

theorem clearApproval_effect (ran : clearApproval caller id c = .ok event c') :
    Effect c (.clearApproval caller id) c' := by
  unfold clearApproval at ran
  obtain ⟨owner, _, r1⟩ := fromOption_bind_ok (get_bind_ok ran)
  obtain ⟨_, r2⟩ := ensure_bind_ok r1
  obtain ⟨_, stored, written, done⟩ := bind_ok.mp r2
  cases set_ok.mp written
  obtain ⟨_, rfl⟩ := pure_ok.mp done
  exact .cleared

theorem setApprovalForAll_effect {operator : Address} {approved : Bool}
    (ran : setApprovalForAll caller owner operator approved c = .ok event c') :
    Effect c (.setApprovalForAll caller owner operator approved) c' := by
  obtain ⟨_, r1⟩ := ensure_bind_ok (get_bind_ok ran)
  obtain ⟨self, r2⟩ := ensure_bind_ok r1
  obtain ⟨_, r3⟩ := ensure_bind_ok r2
  obtain ⟨_, stored, written, done⟩ := bind_ok.mp r3
  cases set_ok.mp written
  obtain ⟨_, rfl⟩ := pure_ok.mp done
  rw [show caller = owner by simpa using self]
  exact .operatorSet

theorem burn_effect (ran : burn caller id c = .ok event c') : Effect c (.burn caller id) c' := by
  unfold burn at ran
  obtain ⟨owner, owned, r1⟩ := fromOption_bind_ok (get_bind_ok ran)
  obtain ⟨_, r2⟩ := ensure_bind_ok r1
  obtain ⟨left, less, r3⟩ := fromOption_bind_ok r2
  obtain ⟨supply, fewer, r4⟩ := fromOption_bind_ok r3
  obtain ⟨_, stored, written, done⟩ := bind_ok.mp r4
  cases set_ok.mp written
  obtain ⟨_, rfl⟩ := pure_ok.mp done
  obtain ⟨t, found, rfl, live⟩ := liveToken_of_ownerOf owned
  obtain ⟨rfl, held⟩ := checkedSub_eq_some less
  obtain ⟨rfl, supplied⟩ := checkedSub_eq_some fewer
  rw [setToken_of_lookup _ (by exact found)]
  exact .burned found live held supplied

theorem updateTokenUri_effect {uri : String} (ran : updateTokenUri caller id uri c = .ok event c') :
    Effect c (.updateTokenUri caller id uri) c' := by
  unfold updateTokenUri at ran
  obtain ⟨_, r1⟩ := ensure_bind_ok (get_bind_ok ran)
  obtain ⟨_, r2⟩ := ensure_bind_ok r1
  obtain ⟨owner, owned, r3⟩ := fromOption_bind_ok r2
  obtain ⟨_, r4⟩ := ensure_bind_ok r3
  obtain ⟨_, r5⟩ := ensure_bind_ok r4
  obtain ⟨_, stored, written, done⟩ := bind_ok.mp r5
  cases set_ok.mp written
  obtain ⟨_, rfl⟩ := pure_ok.mp done
  obtain ⟨t, found, _⟩ := liveToken_of_ownerOf owned
  rw [setToken_of_lookup _ found]
  exact .retitled found

theorem updateCollectionMetadata_effect {description baseUri externalUrl : Option String}
    (ran : updateCollectionMetadata caller description baseUri externalUrl c = .ok event c') :
    Effect c (.updateCollectionMetadata caller description baseUri externalUrl) c' := by
  unfold updateCollectionMetadata at ran
  obtain ⟨_, r1⟩ := ensure_bind_ok (get_bind_ok ran)
  obtain ⟨_, r2⟩ := ensure_bind_ok r1
  obtain ⟨_, r3⟩ := ensure_bind_ok r2
  obtain ⟨_, stored, written, done⟩ := bind_ok.mp r3
  cases set_ok.mp written
  obtain ⟨_, rfl⟩ := pure_ok.mp done
  exact .described

theorem setTokenFrozen_effect {frozen : Bool}
    (ran : setTokenFrozen caller id frozen c = .ok event c') :
    Effect c (.setTokenFrozen caller id frozen) c' := by
  unfold setTokenFrozen at ran
  obtain ⟨_, r1⟩ := ensure_bind_ok (get_bind_ok ran)
  obtain ⟨owner, owned, r2⟩ := fromOption_bind_ok r1
  obtain ⟨_, stored, written, done⟩ := bind_ok.mp r2
  cases set_ok.mp written
  obtain ⟨_, rfl⟩ := pure_ok.mp done
  obtain ⟨t, found, _⟩ := liveToken_of_ownerOf owned
  rw [setToken_of_lookup _ found]
  exact .iced found

theorem effect_of_ok {call : Call} (ran : call.run c = .ok event c') : Effect c call c' := by
  cases call with
  | mint => exact mint_effect ran
  | transfer => exact transfer_effect ran
  | approve => exact approve_effect ran
  | clearApproval => exact clearApproval_effect ran
  | setApprovalForAll => exact setApprovalForAll_effect ran
  | burn => exact burn_effect ran
  | updateTokenUri => exact updateTokenUri_effect ran
  | updateCollectionMetadata => exact updateCollectionMetadata_effect ran
  | freezeCollection =>
    obtain ⟨_, rest⟩ := ensure_bind_ok (get_bind_ok ran)
    obtain ⟨_, stored, written, done⟩ := bind_ok.mp rest
    cases set_ok.mp written
    obtain ⟨_, rfl⟩ := pure_ok.mp done
    exact .closed
  | lockMetadata =>
    obtain ⟨_, rest⟩ := ensure_bind_ok (get_bind_ok ran)
    obtain ⟨_, stored, written, done⟩ := bind_ok.mp rest
    cases set_ok.mp written
    obtain ⟨_, rfl⟩ := pure_ok.mp done
    exact .locked
  | setTokenFrozen => exact setTokenFrozen_effect ran

/-- Every method checks first and writes last. -/
theorem Call.failsClean (call : Call) : FailsClean call.run := by
  cases call <;> apply FailsClean.get_bind <;> intro c
  all_goals
    repeat first
      | exact FailsClean.set_pure _ _
      | apply FailsClean.ensure_bind
      | (apply FailsClean.fromOption_bind; intro _)

theorem after_cons (start : NftCollection) (past : List Call) (call : Call) :
    Done start past call ∧ Effect (start.after past) call (start.after (call :: past)) ∨
      ¬ Done start past call ∧ start.after (call :: past) = start.after past := by
  by_cases done : Done start past call
  · left
    refine ⟨done, ?_⟩
    obtain ⟨event, c', ran⟩ := succeeds_iff.mp done
    have reached : start.after (call :: past) = c' := finalState_ok ran
    rw [reached]
    exact effect_of_ok ran
  · right
    refine ⟨done, ?_⟩
    obtain ⟨e, failed⟩ := error_of_not_succeeds (Bool.eq_false_iff.mpr done)
    exact call.failsClean _ _ _ failed

end

end NftCollection
end SentrixTokens
