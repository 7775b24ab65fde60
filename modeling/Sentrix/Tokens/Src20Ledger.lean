import Sentrix.Lib.CleanFailure
import Sentrix.Tokens.Src20

/-!
SRC-20 contracts as ledgers. A contract is sound when its balances add up to its supply
and the supply is within the cap; every method is compared with that.
-/
namespace SentrixTokens
open MachineWords HashTable Effects SentrixPrimitives

namespace SRC20Contract

def total (c : SRC20Contract) : Nat :=
  sumOf (fun _ amount => amount) c.balances

structure Sound (c : SRC20Contract) : Prop where
  balanced : c.total = c.totalSupply
  word : c.totalSupply ≤ u64Max
  capped : c.maxSupply = 0 ∨ c.totalSupply ≤ c.maxSupply

def books (c : SRC20Contract) : (Address → Nat) × (Address → Address → Nat) × Nat :=
  (c.balanceOf, c.allowance, c.totalSupply)

inductive Call where
  | mint (caller recipient : Address) (amount : Nat)
  | burn (holder : Address) (amount : Nat)
  | transfer (sender recipient : Address) (amount : Nat)
  | approve (owner spender : Address) (amount : Nat)
  | increaseAllowance (owner spender : Address) (delta : Nat)
  | decreaseAllowance (owner spender : Address) (delta : Nat)
  | transferFrom (spender sender recipient : Address) (amount : Nat)
  deriving DecidableEq

def Call.run : Call → EStateM SentrixError SRC20Contract Unit
  | .mint caller recipient amount => SRC20Contract.mint caller recipient amount
  | .burn holder amount => SRC20Contract.burn holder amount
  | .transfer sender recipient amount => SRC20Contract.transfer sender recipient amount
  | .approve owner spender amount => SRC20Contract.approve owner spender amount
  | .increaseAllowance owner spender delta => SRC20Contract.increaseAllowance owner spender delta
  | .decreaseAllowance owner spender delta => SRC20Contract.decreaseAllowance owner spender delta
  | .transferFrom spender sender recipient amount =>
    SRC20Contract.transferFrom spender sender recipient amount

/-- An owner's mint without a cap that the recipient's balance can hold and the supply cannot. -/
def Overruns (c : SRC20Contract) : Call → Prop
  | .mint caller recipient amount =>
    caller = c.owner ∧ recipient.isEmpty = false ∧ amount ≠ 0 ∧ c.maxSupply = 0 ∧
      u64Max < c.totalSupply + amount ∧ c.balanceOf recipient + amount ≤ u64Max
  | _ => False

section
variable {c c' : SRC20Contract} {address holder sender recipient spender owner caller : Address}
  {amount n : Nat} {e e' : SentrixError} {u : Unit}

theorem total_setBalance (c : SRC20Contract) (address : Address) (n : Nat) :
    (c.setBalance address n).total + c.balanceOf address = c.total + n := by
  have grown := sumOf_insert (fun _ amount => amount) c.balances address n
  have read : ((c.balances.lookup address).map fun amount => amount).getD 0 = c.balanceOf address := by
    rw [balanceOf]
    cases c.balances.lookup address <;> rfl
  rw [← read]
  exact grown

theorem balanceOf_le_total (c : SRC20Contract) (address : Address) :
    c.balanceOf address ≤ c.total := by
  have emptied := total_setBalance c address 0
  omega

theorem books_touch (c : SRC20Contract) (address : Address) :
    (c.touch address).books = c.books :=
  Prod.ext (funext (balanceOf_touch c address)) rfl

theorem total_touch (c : SRC20Contract) (address : Address) : (c.touch address).total = c.total := by
  have same := total_setBalance c address (c.balanceOf address)
  unfold touch
  omega

theorem addBalance_fails (failed : addBalance address amount e' c = .error e c') :
    c' = c.touch address ∧ u64Max < c.balanceOf address + amount := by
  rcases fromOption_bind_error (get_bind_error (modify_bind_error failed)) with
    ⟨exceeded, same⟩ | ⟨_, _, later⟩
  · rw [balanceOf_setBalance_self] at exceeded
    refine ⟨same, ?_⟩
    unfold checkedAdd64 at exceeded
    split at exceeded
    · cases exceeded
    · omega
  · exact absurd later modify_error

theorem subBalance_fails (failed : subBalance address amount e' c = .error e c') :
    c' = c.touch address ∧ c.balanceOf address < amount := by
  rcases fromOption_bind_error (get_bind_error (modify_bind_error failed)) with
    ⟨exceeded, same⟩ | ⟨_, _, later⟩
  · rw [balanceOf_setBalance_self] at exceeded
    refine ⟨same, ?_⟩
    unfold checkedSub at exceeded
    split at exceeded
    · cases exceeded
    · omega
  · exact absurd later modify_error

theorem total_added (c : SRC20Contract) (address : Address) (amount : Nat) :
    ((c.touch address).setBalance address (c.balanceOf address + amount)).total =
      c.total + amount := by
  have moved := total_setBalance (c.touch address) address (c.balanceOf address + amount)
  rw [total_touch, balanceOf_touch] at moved
  omega

theorem total_taken (enough : amount ≤ c.balanceOf address) :
    ((c.touch address).setBalance address (c.balanceOf address - amount)).total + amount =
      c.total := by
  have moved := total_setBalance (c.touch address) address (c.balanceOf address - amount)
  rw [total_touch, balanceOf_touch] at moved
  omega

theorem allowance_setAllowance (c : SRC20Contract) (owner spender x y : Address) (n : Nat) :
    (c.setAllowance owner spender n).allowance x y =
      if x = owner ∧ y = spender then n else c.allowance x y := by
  unfold setAllowance allowance
  by_cases own : x = owner
  · subst own
    by_cases same : y = spender
    · subst same
      simp
    · simp only [AList.lookup_insert, Option.bind_some, AList.lookup_insert_ne same]
      cases c.allowances.lookup x <;> simp [same]
  · simp [own, AList.lookup_insert_ne own]

theorem books_setAllowance_self (c : SRC20Contract) (owner spender : Address) :
    (c.setAllowance owner spender (c.allowance owner spender)).books = c.books := by
  refine Prod.ext rfl (Prod.ext (funext fun x => funext fun y => ?_) rfl)
  show (c.setAllowance owner spender (c.allowance owner spender)).allowance x y = c.allowance x y
  rw [allowance_setAllowance]
  split
  · rename_i same
    rw [same.1, same.2]
  · rfl

theorem checkMaxSupply_within {limit : SRC20Contract}
    (ran : checkMaxSupply limit amount c = .ok u c') :
    limit.maxSupply = 0 ∨ limit.totalSupply + amount ≤ limit.maxSupply := by
  unfold checkMaxSupply at ran
  split at ran
  · rename_i uncapped
    exact .inl uncapped
  · obtain ⟨supply, sum, passed⟩ := fromOption_bind_ok ran
    obtain ⟨rfl, _⟩ := checkedAdd64_eq_some sum
    exact .inr (by simpa using (ensure_ok.mp passed).1)

theorem mint_sound (sound : c.Sound) (ran : mint caller recipient amount c = .ok u c') :
    c'.Sound := by
  obtain ⟨_, r1⟩ := ensure_bind_ok (get_bind_ok ran)
  obtain ⟨_, r2⟩ := ensure_bind_ok r1
  obtain ⟨_, checked, within, r3⟩ := bind_ok.mp r2
  cases checkMaxSupply_ok within
  obtain ⟨_, credited, added, r4⟩ := bind_ok.mp r3
  obtain ⟨supply, sum, written⟩ := fromOption_bind_ok r4
  cases modify_ok.mp written
  obtain ⟨rfl, fits⟩ := checkedAdd64_eq_some sum
  obtain ⟨rfl, _⟩ := addBalance_adds added
  refine ⟨?_, fits, checkMaxSupply_within within⟩
  show ((c.touch recipient).setBalance recipient (c.balanceOf recipient + amount)).total = _
  rw [total_added, sound.balanced]

theorem burn_sound (sound : c.Sound) (ran : burn holder amount c = .ok u c') : c'.Sound := by
  obtain ⟨_, r1⟩ := ensure_bind_ok ran
  obtain ⟨_, r2⟩ := ensure_bind_ok (get_bind_ok r1)
  obtain ⟨_, debited, taken, r3⟩ := bind_ok.mp r2
  obtain ⟨supply, difference, written⟩ := fromOption_bind_ok r3
  cases modify_ok.mp written
  obtain ⟨rfl, _⟩ := checkedSub_eq_some difference
  obtain ⟨rfl, enough⟩ := subBalance_takes taken
  have less := total_taken enough
  have balanced := sound.balanced
  refine ⟨?_, ?_, ?_⟩
  · show ((c.touch holder).setBalance holder (c.balanceOf holder - amount)).total =
      c.totalSupply - amount
    omega
  · exact Nat.le_trans (Nat.sub_le _ _) sound.word
  · exact sound.capped.imp_right fun within => Nat.le_trans (Nat.sub_le _ _) within

/-- Taking from one account and giving to another, or to the same, keeps the total. -/
theorem moved_sound {c₁ : SRC20Contract} (sound : c.Sound)
    (taken : subBalance sender amount e c = .ok u c₁)
    (added : addBalance recipient amount e' c₁ = .ok u c') : c'.Sound := by
  obtain ⟨rfl, enough⟩ := subBalance_takes taken
  obtain ⟨rfl, _⟩ := addBalance_adds added
  have less := total_taken enough
  refine ⟨?_, sound.word, sound.capped⟩
  rw [total_added]
  exact less.trans sound.balanced

theorem transfer_sound (sound : c.Sound) (ran : transfer sender recipient amount c = .ok u c') :
    c'.Sound := by
  obtain ⟨_, r1⟩ := ensure_bind_ok ran
  obtain ⟨_, r2⟩ := ensure_bind_ok r1
  obtain ⟨_, r3⟩ := ensure_bind_ok (get_bind_ok r2)
  obtain ⟨_, debited, taken, added⟩ := bind_ok.mp r3
  exact moved_sound sound taken added

theorem Sound.setAllowance (sound : c.Sound) (owner spender : Address) (n : Nat) :
    (c.setAllowance owner spender n).Sound :=
  ⟨sound.balanced, sound.word, sound.capped⟩

theorem transferFrom_sound (sound : c.Sound)
    (ran : transferFrom spender sender recipient amount c = .ok u c') : c'.Sound := by
  obtain ⟨_, r1⟩ := ensure_bind_ok ran
  obtain ⟨_, r2⟩ := ensure_bind_ok (get_bind_ok r1)
  obtain ⟨_, r3⟩ := ensure_bind_ok r2
  obtain ⟨left, _, r4⟩ := fromOption_bind_ok r3
  obtain ⟨_, debited, taken, added⟩ := bind_ok.mp (modify_bind_ok r4)
  exact moved_sound (sound.setAllowance sender spender left) taken added

variable {call : Call}

theorem call_sound (sound : c.Sound) (ran : call.run c = .ok u c') : c'.Sound := by
  cases call with
  | mint => exact mint_sound sound ran
  | burn => exact burn_sound sound ran
  | transfer => exact transfer_sound sound ran
  | transferFrom => exact transferFrom_sound sound ran
  | approve owner spender amount =>
    obtain ⟨_, r1⟩ := ensure_bind_ok ran
    obtain ⟨_, r2⟩ := ensure_bind_ok (get_bind_ok r1)
    cases modify_ok.mp r2
    exact sound.setAllowance owner spender amount
  | increaseAllowance owner spender | decreaseAllowance owner spender =>
    obtain ⟨_, r1⟩ := ensure_bind_ok ran
    obtain ⟨allowed, _, written⟩ := fromOption_bind_ok (get_bind_ok (modify_bind_ok r1))
    cases modify_ok.mp written
    exact (sound.setAllowance owner spender _).setAllowance owner spender allowed

theorem checkMaxSupply_fails {limit : SRC20Contract}
    (failed : checkMaxSupply limit amount c = .error e c') : c' = c := by
  unfold checkMaxSupply at failed
  split at failed
  · exact absurd failed pure_error
  · rcases fromOption_bind_error failed with ⟨_, same⟩ | ⟨_, _, later⟩
    · exact same
    · exact (ensure_error.mp later).2.2

theorem mint_refused (failed : mint caller recipient amount c = .error e c') :
    c'.books = c.books ∨ Overruns c (.mint caller recipient amount) := by
  rcases ensure_bind_error (get_bind_error failed) with rfl | ⟨mine, f1⟩
  · exact .inl rfl
  rcases ensure_bind_error f1 with rfl | ⟨sensible, f2⟩
  · exact .inl rfl
  rcases bind_error.mp f2 with early | ⟨_, _, within, f3⟩
  · rw [checkMaxSupply_fails early]
    exact .inl rfl
  cases checkMaxSupply_ok within
  rcases bind_error.mp f3 with early | ⟨_, _, added, f4⟩
  · rw [(addBalance_fails early).1]
    exact .inl (books_touch c recipient)
  rcases fromOption_bind_error f4 with ⟨exceeded, _⟩ | ⟨_, _, later⟩
  · have beyond : u64Max < c.totalSupply + amount := by
      unfold checkedAdd64 at exceeded
      split at exceeded
      · cases exceeded
      · omega
    have uncapped : c.maxSupply = 0 := by
      unfold checkMaxSupply at within
      split at within
      · assumption
      · obtain ⟨supply, sum, _⟩ := fromOption_bind_ok within
        have fits := (checkedAdd64_eq_some sum).2
        omega
    simp only [Bool.not_eq_true', Bool.or_eq_false_iff, beq_eq_false_iff_ne] at sensible
    exact .inr ⟨by simpa using mine, sensible.1, sensible.2, uncapped, beyond,
      (addBalance_adds added).2⟩
  · exact absurd later modify_error

theorem burn_refused (sound : c.Sound) (failed : burn holder amount c = .error e c') :
    c'.books = c.books := by
  rcases ensure_bind_error failed with rfl | ⟨_, f1⟩
  · rfl
  rcases ensure_bind_error (get_bind_error f1) with rfl | ⟨enough, f2⟩
  · rfl
  rcases bind_error.mp f2 with early | ⟨_, _, taken, f3⟩
  · rw [(subBalance_fails early).1]
    exact books_touch c holder
  · -- The supply covers every balance, so it covers what is burned.
    have covered := balanceOf_le_total c holder
    rw [sound.balanced] at covered
    rcases fromOption_bind_error f3 with ⟨under, _⟩ | ⟨_, _, later⟩
    · unfold checkedSub at under
      split at under
      · cases under
      · have enough : amount ≤ c.balanceOf holder := by simpa using enough
        omega
    · exact absurd later modify_error

/-- In a sound ledger the recipient's balance has room for what another account gives. -/
theorem moved_fits {c₁ : SRC20Contract} (sound : c.Sound)
    (enough : amount ≤ c.balanceOf sender)
    (failed : (do subBalance sender amount e; addBalance recipient amount e') c = .error e₀ c₁) :
    False := by
  rcases bind_error.mp failed with early | ⟨_, debited, taken, later⟩
  · have short := (subBalance_fails early).2
    omega
  · obtain ⟨rfl, _⟩ := subBalance_takes taken
    have exceeded := (addBalance_fails later).2
    have less := total_taken enough
    have within := balanceOf_le_total
      ((c.touch sender).setBalance sender (c.balanceOf sender - amount)) recipient
    have balanced := sound.balanced
    have word := sound.word
    omega

theorem transfer_refused (sound : c.Sound)
    (failed : transfer sender recipient amount c = .error e c') : c'.books = c.books := by
  rcases ensure_bind_error failed with rfl | ⟨_, f1⟩
  · rfl
  rcases ensure_bind_error f1 with rfl | ⟨_, f2⟩
  · rfl
  rcases ensure_bind_error (get_bind_error f2) with rfl | ⟨enough, f3⟩
  · rfl
  exact (moved_fits sound (by simpa using enough) f3).elim

theorem transferFrom_refused (sound : c.Sound)
    (failed : transferFrom spender sender recipient amount c = .error e c') :
    c'.books = c.books := by
  rcases ensure_bind_error failed with rfl | ⟨_, f1⟩
  · rfl
  rcases ensure_bind_error (get_bind_error f1) with rfl | ⟨_, f2⟩
  · rfl
  rcases ensure_bind_error f2 with rfl | ⟨enough, f3⟩
  · rfl
  rcases fromOption_bind_error f3 with ⟨_, rfl⟩ | ⟨left, _, f4⟩
  · rfl
  have covered : amount ≤ c.balanceOf sender := by simpa using enough
  exact (moved_fits (sound.setAllowance sender spender left) covered (modify_bind_error f4)).elim

theorem call_refused (sound : c.Sound) (failed : call.run c = .error e c')
    (fits : ¬ Overruns c call) : c'.books = c.books := by
  cases call with
  | mint => exact (mint_refused failed).resolve_right fits
  | burn => exact burn_refused sound failed
  | transfer => exact transfer_refused sound failed
  | transferFrom => exact transferFrom_refused sound failed
  | approve =>
    rcases ensure_bind_error failed with rfl | ⟨_, f1⟩
    · rfl
    rcases ensure_bind_error (get_bind_error f1) with rfl | ⟨_, f2⟩
    · rfl
    exact absurd f2 modify_error
  | increaseAllowance owner spender | decreaseAllowance owner spender =>
    rcases ensure_bind_error failed with rfl | ⟨_, f1⟩
    · rfl
    rcases fromOption_bind_error (get_bind_error (modify_bind_error f1)) with ⟨_, rfl⟩ | ⟨_, _, f2⟩
    · exact books_setAllowance_self c owner spender
    · exact absurd f2 modify_error

/-- The overrunning mint is refused with the recipient's balance already raised. -/
theorem overrun_marks (exceeded : Overruns c call) :
    ∃ e c', call.run c = .error e c' ∧ c'.books ≠ c.books := by
  cases call with
  | mint caller recipient amount =>
    obtain ⟨mine, named, some_, uncapped, beyond, fits⟩ := exceeded
    refine ⟨.internal "token supply overflow",
      (c.touch recipient).setBalance recipient (c.balanceOf recipient + amount), ?_, ?_⟩
    · have credited : addBalance recipient amount (.internal "token balance overflow") c =
          .ok () ((c.touch recipient).setBalance recipient (c.balanceOf recipient + amount)) := by
        unfold addBalance
        show (fromOption (checkedAdd64 ((c.touch recipient).balanceOf recipient) amount) _ >>= _)
          (c.touch recipient) = _
        rw [balanceOf_touch, checkedAdd64, if_pos fits]
        rfl
      have sensible : (!(recipient.isEmpty || amount == 0)) = true := by simp [named, some_]
      show (do
        ensure (caller == c.owner) _
        ensure (!(recipient.isEmpty || amount == 0)) _
        c.checkMaxSupply amount
        addBalance recipient amount _
        let supply ← fromOption (checkedAdd64 c.totalSupply amount) _
        modify fun c => { c with totalSupply := supply } : EStateM _ _ Unit) c = _
      rw [sensible, show (caller == c.owner) = true by simpa using mine, checkMaxSupply,
        if_pos uncapped, checkedAdd64, if_neg (by omega)]
      exact (bind_of_ok credited).trans rfl
    · intro same
      have raised := congrFun (congrArg Prod.fst same) recipient
      simp only [books, balanceOf_setBalance, if_true] at raised
      omega
  | _ => exact exceeded.elim

end
end SRC20Contract

namespace ContractRegistry

def Sound (reg : ContractRegistry) : Prop :=
  ∀ address c, reg.contracts.lookup address = some c → c.Sound

def books (reg : ContractRegistry) (address : Address) :
    Option ((Address → Nat) × (Address → Address → Nat) × Nat) :=
  (reg.contracts.lookup address).map (·.books)

inductive Call where
  | deploy (deployer : Address) (name symbol : String) (decimals totalSupply maxSupply : Nat)
      (seed : String)
  | method (contract : Address) (call : SRC20Contract.Call)
  deriving DecidableEq

def Call.run (w : Wire) : Call → EStateM SentrixError ContractRegistry Unit
  | .deploy deployer name symbol decimals totalSupply maxSupply seed => do
    let _ ← ContractRegistry.deploy w deployer name symbol decimals totalSupply maxSupply seed
    pure ()
  | .method contract call => onContract contract call.run

def Lawful (w : Wire) (call : Call) (reg : ContractRegistry) : Prop :=
  match call.run w reg with
  | .ok _ reg' => reg'.Sound
  | .error _ reg' => reg'.books = reg.books

def Overruns (reg : ContractRegistry) : Call → Prop
  | .method contract call => ∃ c, reg.contracts.lookup contract = some c ∧ c.Overruns call
  | .deploy .. => False

section
variable {reg reg' : ContractRegistry} {contract : Address} {c : SRC20Contract}

theorem Sound.insert (sound : reg.Sound) (fine : c.Sound) :
    Sound ⟨reg.contracts.insert contract c⟩ := by
  intro address x found
  by_cases same : address = contract
  · subst same
    have here : (reg.contracts.insert address c).lookup address = some x := found
    rw [AList.lookup_insert] at here
    cases here
    exact fine
  · exact sound address x ((AList.lookup_insert_ne same).symm.trans found)

theorem books_insert (reg : ContractRegistry) (contract : Address) (c : SRC20Contract) :
    books ⟨reg.contracts.insert contract c⟩ = fun address =>
      if address = contract then some c.books else reg.books address := by
  funext address
  unfold books
  by_cases same : address = contract
  · subst same
    simp
  · simp [same, AList.lookup_insert_ne same]

theorem new_sound (address : Address) (name symbol : String) (decimals : Nat) (owner : Address)
    (maxSupply : Nat) : (SRC20Contract.new address name symbol decimals owner maxSupply).Sound :=
  ⟨rfl, Nat.zero_le _, .inr (Nat.zero_le _)⟩

variable {w : Wire}

theorem lawful_of_ok {call : Call} {u : Unit} (ran : call.run w reg = .ok u reg') :
    Lawful w call reg ↔ reg'.Sound := by
  unfold Lawful
  rw [ran]

theorem lawful_of_error {call : Call} {e : SentrixError} (failed : call.run w reg = .error e reg') :
    Lawful w call reg ↔ reg'.books = reg.books := by
  unfold Lawful
  rw [failed]

variable {α : Type} {m : EStateM SentrixError SRC20Contract α}

theorem onContract_of_ok {a : α} {c' : SRC20Contract}
    (found : reg.contracts.lookup contract = some c) (ran : m c = .ok a c') :
    onContract contract m reg = .ok a ⟨reg.contracts.insert contract c'⟩ := by
  unfold onContract
  simp only [found, ran]

theorem onContract_of_error {e : SentrixError} {c' : SRC20Contract}
    (found : reg.contracts.lookup contract = some c) (failed : m c = .error e c') :
    onContract contract m reg = .error e ⟨reg.contracts.insert contract c'⟩ := by
  unfold onContract
  simp only [found, failed]

theorem onContract_absent (absent : reg.contracts.lookup contract = none) :
    onContract contract m reg = .error (.notFound ("contract " ++ contract)) reg := by
  unfold onContract
  simp only [absent]

/-- A deployment writes once, after the mint to the deployer has gone through. -/
theorem deploy_lawful (sound : reg.Sound) (deployer : Address) (name symbol : String)
    (decimals totalSupply maxSupply : Nat) (seed : String) :
    Lawful w (.deploy deployer name symbol decimals totalSupply maxSupply seed) reg := by
  cases ran : (Call.deploy deployer name symbol decimals totalSupply maxSupply seed).run w reg with
  | ok =>
    rw [lawful_of_ok ran]
    obtain ⟨address, deployed, made, done⟩ := bind_ok.mp ran
    obtain ⟨_, rfl⟩ := pure_ok.mp done
    obtain ⟨_, r1⟩ := ensure_bind_ok made
    obtain ⟨_, r2⟩ := ensure_bind_ok r1
    obtain ⟨free, _, r3⟩ := fromOption_bind_ok (get_bind_ok r2)
    cases minted : SRC20Contract.mint deployer deployer totalSupply
        (SRC20Contract.new free name symbol decimals deployer maxSupply) with
    | ok =>
      simp only [minted] at r3
      obtain ⟨_, stored, written, last⟩ := bind_ok.mp r3
      cases set_ok.mp written
      obtain ⟨_, rfl⟩ := pure_ok.mp last
      exact sound.insert (SRC20Contract.mint_sound (new_sound _ _ _ _ _ _) minted)
    | error =>
      simp only [minted] at r3
      exact absurd r3 throw_ok
  | error =>
    rw [lawful_of_error ran]
    rcases bind_error.mp ran with early | ⟨_, _, _, late⟩
    · rcases ensure_bind_error early with rfl | ⟨_, f1⟩
      · rfl
      rcases ensure_bind_error f1 with rfl | ⟨_, f2⟩
      · rfl
      rcases fromOption_bind_error (get_bind_error f2) with ⟨_, rfl⟩ | ⟨free, _, f3⟩
      · rfl
      cases minted : SRC20Contract.mint deployer deployer totalSupply
          (SRC20Contract.new free name symbol decimals deployer maxSupply) with
      | ok =>
        simp only [minted] at f3
        cases f3
      | error =>
        simp only [minted] at f3
        cases f3
        rfl
    · exact absurd late pure_error

theorem method_lawful_iff (sound : reg.Sound) (call : SRC20Contract.Call) :
    Lawful w (.method contract call) reg ↔ ¬ Overruns reg (.method contract call) := by
  cases found : reg.contracts.lookup contract with
  | none =>
    have missing : (Call.method contract call).run w reg = _ := onContract_absent found
    rw [lawful_of_error missing]
    simp [Overruns, found]
  | some c =>
    have fine := sound contract c found
    have here : reg.books contract = some c.books := by simp [books, found]
    constructor
    · rintro lawful ⟨c₀, found₀, exceeded⟩
      rw [found] at found₀
      cases found₀
      obtain ⟨e, c', failed, marked⟩ := SRC20Contract.overrun_marks exceeded
      have refused : (Call.method contract call).run w reg = _ := onContract_of_error found failed
      rw [lawful_of_error refused, books_insert] at lawful
      have same := congrFun lawful contract
      rw [if_pos rfl, here] at same
      exact marked (Option.some.inj same)
    · intro fits
      have spared : ¬ c.Overruns call := fun exceeded => fits ⟨c, found, exceeded⟩
      cases ran : call.run c with
      | ok =>
        have passed : (Call.method contract call).run w reg = _ := onContract_of_ok found ran
        rw [lawful_of_ok passed]
        exact sound.insert (SRC20Contract.call_sound fine ran)
      | error e c' =>
        have refused : (Call.method contract call).run w reg = _ := onContract_of_error found ran
        rw [lawful_of_error refused, books_insert]
        funext address
        split
        · rename_i same
          rw [same, here, SRC20Contract.call_refused fine ran spared]
        · rfl

end

/-- From any sound registry a call keeps the ledger's law exactly when it is not an uncapped
mint beyond the word that the recipient's balance still holds. -/
theorem ledger_lawful_iff (w : Wire) (reg : ContractRegistry) (sound : reg.Sound) (call : Call) :
    Lawful w call reg ↔ ¬ Overruns reg call := by
  cases call with
  | deploy deployer name symbol decimals totalSupply maxSupply seed =>
    exact ⟨fun _ => id, fun _ =>
      deploy_lawful sound deployer name symbol decimals totalSupply maxSupply seed⟩
  | method _ call => exact method_lawful_iff sound call

/-- An uncapped token whose owner has minted all but ten units of what a word holds. -/
def brimful : SRC20Contract :=
  finalState (SRC20Contract.mint "ada" "ada" (u64Max - 10))
    (SRC20Contract.new "SRC20_brim" "Brimful" "BRM" 8 "ada" 0)

def brimfulRegistry : ContractRegistry :=
  ⟨AList.insert "SRC20_brim" brimful ∅⟩

theorem brimful_supply : brimful.totalSupply = u64Max - 10 ∧ brimful.total = u64Max - 10 := by
  decide

theorem brimfulRegistry_lookup {address : Address} {c : SRC20Contract}
    (found : brimfulRegistry.contracts.lookup address = some c) : c = brimful := by
  by_cases same : address = "SRC20_brim"
  · subst same
    exact (Option.some.inj ((AList.lookup_insert _).symm.trans found)).symm
  · have absent := (AList.lookup_insert_ne same).symm.trans found
    simp at absent

theorem brimfulRegistry_sound : brimfulRegistry.Sound := by
  intro address c found
  cases brimfulRegistry_lookup found
  obtain ⟨supply, total⟩ := brimful_supply
  exact ⟨total.trans supply.symm, supply ▸ Nat.sub_le _ _, .inl rfl⟩

/-- The owner's mint of a hundred more is refused, and the recipient has the hundred. -/
theorem refused_mint_credits :
    brimfulRegistry.Sound ∧
      (∀ w, ¬ Lawful w (.method "SRC20_brim" (.mint "ada" "bob" 100)) brimfulRegistry) ∧
      succeeds (executeMint "SRC20_brim" "ada" "bob" 100) brimfulRegistry = false ∧
      brimfulRegistry.getTokenBalance "SRC20_brim" "bob" = 0 ∧
      (finalState (executeMint "SRC20_brim" "ada" "bob" 100) brimfulRegistry).getTokenBalance
        "SRC20_brim" "bob" = 100 := by
  refine ⟨brimfulRegistry_sound, ?_, by decide⟩
  intro w
  rw [method_lawful_iff brimfulRegistry_sound, not_not]
  exact ⟨brimful, rfl, rfl, by decide, by decide, rfl, by rw [brimful_supply.1]; decide,
    by decide⟩

/-- Ten more fill the word, and the ledger stays sound. -/
theorem filling_mint_lawful :
    brimfulRegistry.Sound ∧
      ∀ w, Lawful w (.method "SRC20_brim" (.mint "ada" "bob" 10)) brimfulRegistry := by
  refine ⟨brimfulRegistry_sound, fun w => ?_⟩
  apply (ledger_lawful_iff w brimfulRegistry brimfulRegistry_sound _).mpr
  rintro ⟨c, found, -, -, -, -, beyond, -⟩
  rw [brimfulRegistry_lookup found, brimful_supply.1] at beyond
  exact absurd beyond (by decide)

end ContractRegistry
end SentrixTokens
