import Sentrix.Primitives.Transactions

/-!
SRC-20 contracts and their registry. Each contract keeps its own balances and
allowances.
-/
namespace SentrixTokens
open MachineWords HashTable Effects SentrixPrimitives

structure SRC20Contract where
  contractAddress : Address
  name : String
  symbol : String
  decimals : Nat
  owner : Address
  totalSupply : Nat
  maxSupply : Nat
  balances : Table Address Nat
  allowances : Table Address (Table Address Nat)
  deriving DecidableEq

namespace SRC20Contract

def new (contractAddress : Address) (name symbol : String) (decimals : Nat) (owner : Address)
    (maxSupply : Nat) : SRC20Contract :=
  ⟨contractAddress, name, symbol, decimals, owner, 0, maxSupply, ∅, ∅⟩

def balanceOf (c : SRC20Contract) (address : Address) : Nat :=
  (c.balances.lookup address).getD 0

def allowance (c : SRC20Contract) (owner spender : Address) : Nat :=
  ((c.allowances.lookup owner).bind (·.lookup spender)).getD 0

def setBalance (c : SRC20Contract) (address : Address) (amount : Nat) : SRC20Contract :=
  { c with balances := c.balances.insert address amount }

/-- The entry exists afterwards even when the sum does not fit. -/
def addBalance (address : Address) (amount : Nat) (overflow : SentrixError) :
    EStateM SentrixError SRC20Contract Unit := do
  modify fun c => c.setBalance address (c.balanceOf address)
  let c ← get
  let balance ← fromOption (checkedAdd64 (c.balanceOf address) amount) overflow
  modify (·.setBalance address balance)

def subBalance (address : Address) (amount : Nat) (underflow : SentrixError) :
    EStateM SentrixError SRC20Contract Unit := do
  modify fun c => c.setBalance address (c.balanceOf address)
  let c ← get
  let balance ← fromOption (checkedSub (c.balanceOf address) amount) underflow
  modify (·.setBalance address balance)

/-- A limit of zero means no limit. -/
def checkMaxSupply (c : SRC20Contract) (amount : Nat) : EStateM SentrixError SRC20Contract Unit :=
  if c.maxSupply = 0 then pure ()
  else do
    let supply ← fromOption (checkedAdd64 c.totalSupply amount) (.internal "token supply overflow")
    ensure (supply ≤ c.maxSupply) (.invalidTransaction ("mint would exceed max_supply: " ++
      toString c.totalSupply ++ " + " ++ toString amount ++ " > " ++ toString c.maxSupply))

def mint (caller recipient : Address) (amount : Nat) : EStateM SentrixError SRC20Contract Unit := do
  let c ← get
  ensure (caller == c.owner) (.unauthorizedValidator "only the contract owner can mint tokens")
  ensure (!(recipient.isEmpty || amount == 0)) (.invalidTransaction "invalid mint params")
  c.checkMaxSupply amount
  addBalance recipient amount (.internal "token balance overflow")
  let supply ← fromOption (checkedAdd64 c.totalSupply amount) (.internal "token supply overflow")
  modify fun c => { c with totalSupply := supply }

def burn (holder : Address) (amount : Nat) : EStateM SentrixError SRC20Contract Unit := do
  ensure (!(holder.isEmpty || amount == 0)) (.invalidTransaction "invalid burn params")
  let c ← get
  ensure (amount ≤ c.balanceOf holder) (.insufficientBalance (c.balanceOf holder) amount)
  subBalance holder amount (.internal "token burn underflow")
  let supply ← fromOption (checkedSub c.totalSupply amount) (.internal "supply underflow")
  modify fun c => { c with totalSupply := supply }

def transfer (sender recipient : Address) (amount : Nat) :
    EStateM SentrixError SRC20Contract Unit := do
  ensure (!(sender.isEmpty || recipient.isEmpty || amount == 0))
    (.invalidTransaction "invalid transfer params")
  ensure (sender != recipient) (.invalidTransaction "cannot transfer to self")
  let c ← get
  ensure (amount ≤ c.balanceOf sender) (.insufficientBalance (c.balanceOf sender) amount)
  subBalance sender amount (.internal "transfer underflow")
  addBalance recipient amount (.internal "transfer overflow")

/-- A nonzero allowance is set back to zero before it is changed. -/
def approve (owner spender : Address) (amount : Nat) : EStateM SentrixError SRC20Contract Unit := do
  ensure (!(owner.isEmpty || spender.isEmpty)) (.invalidTransaction "invalid approve params")
  let c ← get
  ensure (c.allowance owner spender == 0 || amount == 0)
    (.invalidTransaction "must set allowance to 0 before changing to non-zero value")
  modify fun c => { c with
    allowances := c.allowances.insert owner
      (((c.allowances.lookup owner).getD ∅).insert spender amount) }

def setAllowance (c : SRC20Contract) (owner spender : Address) (amount : Nat) : SRC20Contract :=
  { c with
    allowances := c.allowances.insert owner
      (((c.allowances.lookup owner).getD ∅).insert spender amount) }

/-- As with balances, the entry exists afterwards even when the sum does not fit. -/
def increaseAllowance (owner spender : Address) (delta : Nat) :
    EStateM SentrixError SRC20Contract Unit := do
  ensure (!(owner.isEmpty || spender.isEmpty || delta == 0))
    (.invalidTransaction "invalid increase_allowance params")
  modify fun c => c.setAllowance owner spender (c.allowance owner spender)
  let c ← get
  let allowed ← fromOption (checkedAdd64 (c.allowance owner spender) delta)
    (.internal "allowance overflow")
  modify (·.setAllowance owner spender allowed)

def decreaseAllowance (owner spender : Address) (delta : Nat) :
    EStateM SentrixError SRC20Contract Unit := do
  ensure (!(owner.isEmpty || spender.isEmpty || delta == 0))
    (.invalidTransaction "invalid decrease_allowance params")
  modify fun c => c.setAllowance owner spender (c.allowance owner spender)
  let c ← get
  let allowed ← fromOption (checkedSub (c.allowance owner spender) delta)
    (.invalidTransaction "allowance underflow")
  modify (·.setAllowance owner spender allowed)

/-- Nothing keeps the two parties apart, unlike in `transfer`. -/
def transferFrom (spender sender recipient : Address) (amount : Nat) :
    EStateM SentrixError SRC20Contract Unit := do
  ensure (!(spender.isEmpty || sender.isEmpty || recipient.isEmpty || amount == 0))
    (.invalidTransaction "invalid transfer_from params")
  let c ← get
  let allowed := c.allowance sender spender
  ensure (amount ≤ allowed) (.invalidTransaction ("allowance " ++ toString allowed ++
    " < amount " ++ toString amount))
  ensure (amount ≤ c.balanceOf sender) (.insufficientBalance (c.balanceOf sender) amount)
  let left ← fromOption (checkedSub allowed amount) (.internal "allowance underflow")
  modify (·.setAllowance sender spender left)
  subBalance sender amount (.internal "transfer_from underflow")
  addBalance recipient amount (.internal "transfer_from overflow")

section
variable {c c' : SRC20Contract} {address sender recipient caller holder : Address} {amount : Nat}
  {e : SentrixError} {u : Unit}

theorem balanceOf_setBalance (c : SRC20Contract) (address x : Address) (n : Nat) :
    (c.setBalance address n).balanceOf x = if x = address then n else c.balanceOf x := by
  unfold setBalance balanceOf
  by_cases same : x = address
  · subst same
    simp
  · simp [same, AList.lookup_insert_ne]

theorem balanceOf_setBalance_self (c : SRC20Contract) (address x : Address) :
    (c.setBalance address (c.balanceOf address)).balanceOf x = c.balanceOf x := by
  rw [balanceOf_setBalance]
  split
  · rename_i same
    rw [same]
  · rfl

def touch (c : SRC20Contract) (address : Address) : SRC20Contract :=
  c.setBalance address (c.balanceOf address)

theorem balanceOf_touch (c : SRC20Contract) (address x : Address) :
    (c.touch address).balanceOf x = c.balanceOf x :=
  balanceOf_setBalance_self c address x

theorem addBalance_adds (ran : addBalance address amount e c = .ok u c') :
    c' = (c.touch address).setBalance address (c.balanceOf address + amount) ∧
      c.balanceOf address + amount ≤ u64Max := by
  obtain ⟨balance, sum, written⟩ := fromOption_bind_ok (get_bind_ok (modify_bind_ok ran))
  cases modify_ok.mp written
  obtain ⟨rfl, fits⟩ := checkedAdd64_eq_some sum
  rw [balanceOf_setBalance_self] at fits ⊢
  exact ⟨rfl, fits⟩

theorem subBalance_takes (ran : subBalance address amount e c = .ok u c') :
    c' = (c.touch address).setBalance address (c.balanceOf address - amount) ∧
      amount ≤ c.balanceOf address := by
  obtain ⟨balance, difference, written⟩ := fromOption_bind_ok (get_bind_ok (modify_bind_ok ran))
  cases modify_ok.mp written
  obtain ⟨rfl, enough⟩ := checkedSub_eq_some difference
  rw [balanceOf_setBalance_self] at enough ⊢
  exact ⟨rfl, enough⟩

theorem addBalance_ok (ran : addBalance address amount e c = .ok u c') (x : Address) :
    c'.balanceOf x = c.balanceOf x + if x = address then amount else 0 := by
  obtain ⟨rfl, -⟩ := addBalance_adds ran
  rw [balanceOf_setBalance, balanceOf_touch]
  by_cases same : x = address
  · simp [same]
  · simp [same]

theorem subBalance_ok (ran : subBalance address amount e c = .ok u c') (x : Address) :
    c.balanceOf x = c'.balanceOf x + if x = address then amount else 0 := by
  obtain ⟨rfl, enough⟩ := subBalance_takes ran
  rw [balanceOf_setBalance, balanceOf_touch]
  by_cases same : x = address
  · subst same
    simp only [if_true]
    omega
  · simp [same]

theorem checkMaxSupply_ok {limit : SRC20Contract} (ran : checkMaxSupply limit amount c = .ok u c') :
    c' = c := by
  unfold checkMaxSupply at ran
  split at ran
  · exact (pure_ok.mp ran).2.symm
  · obtain ⟨supply, _, passed⟩ := fromOption_bind_ok ran
    exact (ensure_ok.mp passed).2

theorem mint_ok (ran : mint caller recipient amount c = .ok u c') (x : Address) :
    c'.balanceOf x = c.balanceOf x + if x = recipient then amount else 0 := by
  unfold mint at ran
  obtain ⟨_, allowed⟩ := ensure_bind_ok (get_bind_ok ran)
  obtain ⟨_, sensible⟩ := ensure_bind_ok allowed
  obtain ⟨_, within, checked, rest⟩ := bind_ok.mp sensible
  cases checkMaxSupply_ok checked
  obtain ⟨_, added, credited, counted⟩ := bind_ok.mp rest
  obtain ⟨supply, _, written⟩ := fromOption_bind_ok counted
  cases modify_ok.mp written
  exact addBalance_ok credited x

theorem burn_ok (ran : burn holder amount c = .ok u c') (x : Address) :
    c.balanceOf x = c'.balanceOf x + if x = holder then amount else 0 := by
  unfold burn at ran
  obtain ⟨_, sensible⟩ := ensure_bind_ok ran
  obtain ⟨_, funded⟩ := ensure_bind_ok (get_bind_ok sensible)
  obtain ⟨_, taken, debited, counted⟩ := bind_ok.mp funded
  obtain ⟨supply, _, written⟩ := fromOption_bind_ok counted
  cases modify_ok.mp written
  exact subBalance_ok debited x

theorem transfer_ok (ran : transfer sender recipient amount c = .ok u c') (x : Address) :
    c.balanceOf x + (if x = recipient then amount else 0) =
      c'.balanceOf x + if x = sender then amount else 0 := by
  unfold transfer at ran
  obtain ⟨_, sensible⟩ := ensure_bind_ok ran
  obtain ⟨_, apart⟩ := ensure_bind_ok sensible
  obtain ⟨_, funded⟩ := ensure_bind_ok (get_bind_ok apart)
  obtain ⟨_, taken, debited, credited⟩ := bind_ok.mp funded
  rw [subBalance_ok debited x, addBalance_ok credited x]
  omega

theorem approve_ok {owner spender : Address} (ran : approve owner spender amount c = .ok u c')
    (x : Address) : c'.balanceOf x = c.balanceOf x := by
  unfold approve at ran
  obtain ⟨_, sensible⟩ := ensure_bind_ok ran
  obtain ⟨_, reset⟩ := ensure_bind_ok (get_bind_ok sensible)
  cases modify_ok.mp reset
  rfl

end

end SRC20Contract

structure ContractRegistry where
  contracts : Table Address SRC20Contract
  deriving DecidableEq

def computeContractAddress (w : Wire) (deployer seed : String) : Address :=
  "SRC20_" ++ String.ofList ((w.sha256Hex (textBytes (deployer ++ "|" ++ seed))).toList.take 40)

/-- The first free address of the sequence seed, seed|1, seed|2, … -/
def freeContractAddress (w : Wire) (deployer seed : String) (taken : Address → Bool) :
    Nat → Nat → Option Address
  | 0, _ => none
  | fuel + 1, counter =>
    let candidate := computeContractAddress w deployer
      (if counter = 0 then seed else seed ++ "|" ++ toString counter)
    if taken candidate then freeContractAddress w deployer seed taken fuel (counter + 1)
    else some candidate

def asciiAlphanumeric (s : String) : Bool :=
  s.toList.all fun c => c.isDigit || ('a' ≤ c && c ≤ 'z') || ('A' ≤ c && c ≤ 'Z')

def validTokenName (name : String) : Bool :=
  !(name.isEmpty || 64 < name.utf8ByteSize)

def validTokenSymbol (symbol : String) : Bool :=
  !(symbol.isEmpty || 10 < symbol.utf8ByteSize || !asciiAlphanumeric symbol)

namespace ContractRegistry

def new : ContractRegistry := ⟨∅⟩

def contains (reg : ContractRegistry) (address : Address) : Bool :=
  (reg.contracts.lookup address).isSome

def getTokenBalance (reg : ContractRegistry) (contract address : Address) : Nat :=
  ((reg.contracts.lookup contract).map (·.balanceOf address)).getD 0

/-- Search is cut at one more candidate than there are contracts: with a
collision-free hash one of those is free. -/
def deploy (w : Wire) (deployer : Address) (name symbol : String)
    (decimals totalSupply maxSupply : Nat) (seed : String) :
    EStateM SentrixError ContractRegistry Address := do
  ensure (validTokenName name) (.invalidTransaction "token name must be 1–64 characters")
  ensure (validTokenSymbol symbol)
    (.invalidTransaction "token symbol must be 1–10 ASCII alphanumeric characters")
  let reg ← get
  let address ← fromOption
    (freeContractAddress w deployer seed reg.contains (reg.contracts.entries.length + 1) 0)
    (.internal "no free contract address")
  let fresh := SRC20Contract.new address name symbol decimals deployer maxSupply
  match SRC20Contract.mint deployer deployer totalSupply fresh with
  | .ok _ contract =>
    set (⟨reg.contracts.insert address contract⟩ : ContractRegistry)
    pure address
  | .error e _ => throw e

/-- `get_mut` on the registry, then one method of the contract. -/
def onContract {α : Type} (contract : Address) (m : EStateM SentrixError SRC20Contract α) :
    EStateM SentrixError ContractRegistry α := fun reg =>
  match reg.contracts.lookup contract with
  | none => .error (.notFound ("contract " ++ contract)) reg
  | some c =>
    match m c with
    | .ok a c' => .ok a ⟨reg.contracts.insert contract c'⟩
    | .error e c' => .error e ⟨reg.contracts.insert contract c'⟩

def executeTransfer (contract sender recipient : Address) (amount : Nat) :
    EStateM SentrixError ContractRegistry Unit :=
  onContract contract (SRC20Contract.transfer sender recipient amount)

def executeBurn (contract holder : Address) (amount : Nat) :
    EStateM SentrixError ContractRegistry Unit :=
  onContract contract (SRC20Contract.burn holder amount)

def executeMint (contract caller recipient : Address) (amount : Nat) :
    EStateM SentrixError ContractRegistry Unit :=
  onContract contract (SRC20Contract.mint caller recipient amount)

def executeApprove (contract owner spender : Address) (amount : Nat) :
    EStateM SentrixError ContractRegistry Unit :=
  onContract contract (SRC20Contract.approve owner spender amount)

section
variable {reg reg' : ContractRegistry} {contract : Address} {u : Unit}

theorem onContract_ok {α : Type} {m : EStateM SentrixError SRC20Contract α} {a : α}
    (ran : onContract contract m reg = .ok a reg') :
    ∃ c c', reg.contracts.lookup contract = some c ∧ m c = .ok a c' ∧
      reg' = ⟨reg.contracts.insert contract c'⟩ := by
  unfold onContract at ran
  split at ran
  · cases ran
  · rename_i c found
    split at ran
    · rename_i done c' method
      cases ran
      exact ⟨c, c', found, method, rfl⟩
    · cases ran

theorem getTokenBalance_insert (reg : ContractRegistry) (contract other x : Address)
    (c : SRC20Contract) :
    (ContractRegistry.mk (reg.contracts.insert contract c)).getTokenBalance other x =
      if other = contract then c.balanceOf x else reg.getTokenBalance other x := by
  unfold getTokenBalance
  by_cases same : other = contract
  · subst same
    simp
  · simp [same, AList.lookup_insert_ne]

theorem getTokenBalance_onContract {m : EStateM SentrixError SRC20Contract Unit}
    (ran : onContract contract m reg = .ok u reg') (other x : Address) :
    (∃ c c', m c = .ok u c' ∧ other = contract ∧ reg.getTokenBalance other x = c.balanceOf x ∧
        reg'.getTokenBalance other x = c'.balanceOf x) ∨
      other ≠ contract ∧ reg'.getTokenBalance other x = reg.getTokenBalance other x := by
  obtain ⟨c, c', found, method, rfl⟩ := onContract_ok ran
  rw [getTokenBalance_insert]
  by_cases same : other = contract
  · left
    subst same
    refine ⟨c, c', method, rfl, ?_, by simp⟩
    simp [getTokenBalance, found]
  · right
    simp [same]

theorem freeContractAddress_free {w : Wire} {deployer seed : String} {taken : Address → Bool}
    {address : Address} (fuel : Nat) :
    ∀ counter, freeContractAddress w deployer seed taken fuel counter = some address →
      taken address = false := by
  induction fuel with
  | zero => intro counter found; cases found
  | succ fuel ih =>
    intro counter found
    unfold freeContractAddress at found
    dsimp only at found
    generalize computeContractAddress w deployer
      (if counter = 0 then seed else seed ++ "|" ++ toString counter) = candidate at found
    split at found
    · exact ih (counter + 1) found
    · rename_i free
      rw [← Option.some.inj found]
      simpa using free

theorem deploy_ok {w : Wire} {deployer : Address} {name symbol : String}
    {decimals totalSupply maxSupply : Nat} {seed : String} {address : Address}
    (ran : deploy w deployer name symbol decimals totalSupply maxSupply seed reg =
      .ok address reg') :
    ∃ free c, reg.contracts.lookup free = none ∧ reg' = ⟨reg.contracts.insert free c⟩ := by
  unfold deploy at ran
  obtain ⟨_, named⟩ := ensure_bind_ok ran
  obtain ⟨_, marked⟩ := ensure_bind_ok named
  obtain ⟨free, found, opened⟩ := fromOption_bind_ok (get_bind_ok marked)
  have untaken : reg.contracts.lookup free = none := by
    simpa [contains] using freeContractAddress_free _ 0 found
  cases minted : SRC20Contract.mint deployer deployer totalSupply
      (SRC20Contract.new free name symbol decimals deployer maxSupply) with
  | error e c =>
    simp only [minted] at opened
    exact absurd opened throw_ok
  | ok v c =>
    simp only [minted] at opened
    obtain ⟨_, stored, written, done⟩ := bind_ok.mp opened
    cases set_ok.mp written
    obtain ⟨_, rfl⟩ := pure_ok.mp done
    exact ⟨free, c, untaken, rfl⟩

theorem getTokenBalance_deploy {w : Wire} {deployer : Address} {name symbol : String}
    {decimals totalSupply maxSupply : Nat} {seed : String} {address : Address}
    (ran : deploy w deployer name symbol decimals totalSupply maxSupply seed reg =
      .ok address reg') (other x : Address) :
    reg.getTokenBalance other x ≤ reg'.getTokenBalance other x := by
  obtain ⟨free, c, untaken, rfl⟩ := deploy_ok ran
  rw [getTokenBalance_insert]
  split
  · rename_i same
    subst same
    simp [getTokenBalance, untaken]
  · exact Nat.le_refl _

end

end ContractRegistry
end SentrixTokens
