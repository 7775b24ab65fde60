import Sentrix.Lib.Runs
import Sentrix.Bft.EngineMoves

/-!
Where the bytes of a re-proposed block come from. They wait in a staging slot under
the hash they were stashed with, move to the lock when a quorum picks that hash, and
stay there for as long as the lock is on it.
-/
namespace SentrixEngine
open MachineWords HashTable SentrixPrimitives SentrixMessages SentrixStaking
open Runs (System Run)

structure Cache where
  lockedHash : Option Hash
  lockedBlock : Option Bytes
  stagingBlock : Option (Hash × Bytes)

namespace Cache

def unstage (c : Cache) : Cache :=
  { c with stagingBlock := none }

def unlock (c : Cache) : Cache :=
  { c with lockedHash := none, stagingBlock := none }

def lockOn (c : Cache) (hash : Hash) : Cache :=
  let kept := if c.lockedHash = some hash then c.lockedBlock else none
  { lockedHash := some hash
    lockedBlock := match c.stagingBlock with
      | some (stagedHash, stagedBytes) => if stagedHash = hash then some stagedBytes else kept
      | none => kept
    stagingBlock := none }

end Cache

inductive Recached (c : Cache) : Cache → Prop where
  | same : Recached c c
  | unstaged : Recached c c.unstage
  | unlocked : Recached c c.unlock
  | locked (hash : Hash) : Recached c (c.lockOn hash)

theorem Recached.carries {P : Hash → Bytes → Prop} {c c' : Cache} (moved : Recached c c')
    (staged : ∀ h bytes, c.stagingBlock = some (h, bytes) → P h bytes)
    (locked : ∀ h bytes, c.lockedHash = some h → c.lockedBlock = some bytes → P h bytes) :
    (∀ h bytes, c'.stagingBlock = some (h, bytes) → P h bytes) ∧
      ∀ h bytes, c'.lockedHash = some h → c'.lockedBlock = some bytes → P h bytes := by
  cases moved with
  | same => exact ⟨staged, locked⟩
  | unstaged => exact ⟨nofun, locked⟩
  | unlocked => exact ⟨nofun, nofun⟩
  | locked hash =>
    refine ⟨nofun, fun h bytes now held => ?_⟩
    obtain rfl : hash = h := Option.some.inj now
    -- bytes that were already under the lock count only when the lock was on this hash
    have kept (old : (if c.lockedHash = some hash then c.lockedBlock else none) = some bytes) :
        P hash bytes := by
      split at old
      · rename_i before
        exact locked hash bytes before old
      · cases old
    unfold Cache.lockOn at held
    dsimp only at held
    split at held
    · rename_i stagedHash stagedBytes staging
      split at held
      · rename_i same
        cases held
        subst same
        exact staged stagedHash bytes staging
      · exact kept held
    · exact kept held

namespace BftEngine

def cache (e : BftEngine) : Cache :=
  ⟨e.state.lockedHash, e.state.lockedBlock, e.state.stagingBlock⟩

section
variable {e settled : BftEngine}

theorem cache_emitPrevote (e : BftEngine) (p : Prevote) : (e.emitPrevote p).1.cache = e.cache := by
  unfold emitPrevote
  split
  · split
    · split <;> rfl
    · rfl
  · rfl

theorem cache_emitPrecommit (e : BftEngine) (p : Precommit) :
    (e.emitPrecommit p).1.cache = e.cache := by
  unfold emitPrecommit
  split
  · split
    · split <;> rfl
    · rfl
  · rfl

theorem cache_settlePrevote {p : Prevote} (ok : e.settlePrevote p = some settled) :
    settled.cache = e.cache := by
  unfold settlePrevote at ok
  split at ok
  · split at ok
    · split at ok
      · cases ok
      · cases ok
        rfl
    · cases ok
      rfl
  · cases ok
    rfl

theorem cache_settlePrecommit {p : Precommit} (ok : e.settlePrecommit p = some settled) :
    settled.cache = e.cache := by
  unfold settlePrecommit at ok
  split at ok
  · split at ok
    · split at ok
      · cases ok
      · cases ok
        rfl
    · cases ok
      rfl
  · cases ok
    rfl

theorem cache_rounds (n : Nat) (e : BftEngine) :
    (Nat.iterate advanceRound (n + 1) e).cache = e.cache.unstage := by
  induction n generalizing e with
  | zero => rfl
  | succ n ih => exact ih e.advanceRound

theorem recached_rounds (n : Nat) (e : BftEngine) :
    Recached e.cache (Nat.iterate advanceRound n e).cache := by
  cases n with
  | zero => exact .same
  | succ n =>
    rw [cache_rounds]
    exact .unstaged

theorem recached_catchUpRound (e : BftEngine) (target : Nat) :
    Recached e.cache (e.catchUpRound target).1.cache := by
  unfold catchUpRound
  split
  · exact .same
  · exact recached_rounds _ e

/-- A lock is dropped only together with the staged bytes. -/
theorem recached_acceptProposal (e : BftEngine) (h : Hash) :
    Recached e.cache (e.acceptProposal h).1.cache := by
  have relaxed : Recached e.cache (if e.staleLock h then e.dropLock else e).cache := by
    split
    · exact .unlocked
    · exact .same
  unfold acceptProposal
  generalize (if e.staleLock h then e.dropLock else e) = start at relaxed ⊢
  dsimp only
  split
  · exact relaxed
  · rw [cache_emitPrevote]
    exact relaxed

theorem recached_onProposal (e : BftEngine) (h : Hash) (proposer : Address) (reg : StakeRegistry) :
    Recached e.cache (e.onProposal h proposer reg).1.cache := by
  unfold onProposal
  split
  · exact .same
  · split
    · exact .same
    · split
      · exact .same
      · split
        · split
          · exact .same
          · exact recached_acceptProposal e h
        · exact recached_acceptProposal e h

theorem recached_onOwnProposal (e : BftEngine) (h : Hash) :
    Recached e.cache (e.onOwnProposal h).1.cache := by
  unfold onOwnProposal
  split
  · exact .same
  · split
    · exact .same
    · exact recached_acceptProposal e h

theorem recached_checkPrevotes (order : HashIter (Option Hash × Nat)) (e : BftEngine) :
    Recached e.cache (e.checkPrevotes order).1.cache := by
  have entered (hash : Option Hash) : Recached e.cache (e.enterPrecommit hash).cache := by
    cases hash with
    | none => exact .same
    | some h => exact .locked h
  unfold checkPrevotes
  split
  · rename_i hash quorum
    split
    · dsimp only
      split
      · exact entered hash
      · rw [cache_emitPrecommit]
        exact entered hash
    · exact .same
  · exact .same

theorem recached_onPrevote (order : HashIter (Option Hash × Nat)) (e : BftEngine) (p : Prevote)
    (stake : Nat) : Recached e.cache (e.onPrevoteWeighted order p stake).1.cache := by
  unfold onPrevoteWeighted
  split
  · exact .same
  · split
    · exact .same
    · split
      · exact .same
      · rename_i settled ok
        rw [← cache_settlePrevote ok]
        split
        · exact .same
        · exact recached_checkPrevotes order (settled.recordPrevote p stake)

theorem cache_onPrecommit (order : HashIter (Option Hash × Nat))
    (listing : HashIter (Address × Option Hash × Bytes × Nat)) (e : BftEngine) (p : Precommit)
    (stake : Nat) : (e.onPrecommitWeighted order listing p stake).1.cache = e.cache := by
  have checked (x : BftEngine) : (x.checkPrecommits order listing).1.cache = x.cache := by
    unfold checkPrecommits
    split <;> rfl
  unfold onPrecommitWeighted
  split
  · rfl
  · split
    · rfl
    · split
      · rfl
      · rename_i settled ok
        rw [← cache_settlePrecommit ok]
        split
        · rfl
        · exact checked (settled.recordPrecommit p stake)

theorem cache_onTimeout (e : BftEngine) : e.onTimeout.1.cache = e.cache := by
  unfold onTimeout
  split
  · rfl
  · rfl
  · split
    · dsimp only
      split
      · rfl
      · rw [cache_emitPrevote]
        rfl
    · dsimp only
      split
      · rfl
      · rw [cache_emitPrecommit]
        rfl
    · split <;> rfl
    · rfl

theorem recached_onRoundStatus (order : HashIter (Word32 × Nat)) (e : BftEngine)
    (status : RoundStatus) (stake : Nat) :
    Recached e.cache (e.onRoundStatusWeighted order status stake).1.cache := by
  unfold onRoundStatusWeighted
  split
  · exact .same
  · split
    · exact .same
    · dsimp only
      split
      · rename_i target _
        have caught := recached_catchUpRound (e.notePeerRound status stake) target.val
        split
        · split
          all_goals
            rename_i moved
            rw [moved] at caught
            exact caught
        · exact .same
      · exact .same

theorem recached_legacyRoundStatus (e : BftEngine) (status : RoundStatus) :
    Recached e.cache (e.onRoundStatus status).1.cache := by
  unfold onRoundStatus
  split
  · exact .same
  · split
    · have caught := recached_catchUpRound e (status.round.val - 1)
      split
      · rename_i moved
        rw [moved] at caught
        exact caught
      · rename_i moved
        rw [moved] at caught
        exact caught
    · exact .same

theorem perform_recached (reg : StakeRegistry) (e : BftEngine) (call : EngineCall)
    (other : ∀ h bytes, call ≠ .stash h bytes) :
    Recached e.cache (e.perform reg call).1.cache := by
  cases call with
  | advanceRound => exact .unstaged
  | catchUpRound target => exact recached_catchUpRound e target.val
  | proposal h proposer => exact recached_onProposal e h proposer reg
  | ownProposal h => exact recached_onOwnProposal e h
  | prevote order p => exact recached_onPrevote order e p _
  | precommit order listing p =>
    show Recached e.cache (e.onPrecommitWeighted order listing p _).1.cache
    rw [cache_onPrecommit]
    exact .same
  | timeout =>
    show Recached e.cache e.onTimeout.1.cache
    rw [cache_onTimeout]
    exact .same
  | roundStatus order status => exact recached_onRoundStatus order e status _
  | legacyRoundStatus status => exact recached_legacyRoundStatus e status
  | stash h bytes => exact absurd rfl (other h bytes)
  | markPrevoteCast => exact .same
  | markPrecommitCast => exact .same

end
end BftEngine

structure Sourced (stashed : List (Hash × Bytes)) (c : Cache) : Prop where
  staged : ∀ h bytes, c.stagingBlock = some (h, bytes) → (h, bytes) ∈ stashed
  locked : ∀ h bytes, c.lockedHash = some h → c.lockedBlock = some bytes → (h, bytes) ∈ stashed

theorem sourced_empty (stashed : List (Hash × Bytes)) (bytes : Option Bytes) :
    Sourced stashed ⟨none, bytes, none⟩ :=
  ⟨fun _ _ staged => (nomatch staged), fun _ _ locked => (nomatch locked)⟩

theorem Sourced.recached {stashed : List (Hash × Bytes)} {c c' : Cache} (sourced : Sourced stashed c)
    (moved : Recached c c') : Sourced stashed c' :=
  have carried := moved.carries (P := fun h bytes => (h, bytes) ∈ stashed)
    sourced.staged sourced.locked
  ⟨carried.1, carried.2⟩

structure Desk where
  engine : BftEngine
  stashed : List (Hash × Bytes)

inductive DeskEvent where
  | call (reg : StakeRegistry) (c : EngineCall)
  | newHeight (height totalActiveStake : Nat)

def Desk.step (d : Desk) : DeskEvent → Desk
  | .call reg c =>
    { engine := (d.engine.perform reg c).1
      stashed := match c with
        | .stash h bytes => (h, bytes) :: d.stashed
        | _ => d.stashed }
  | .newHeight height total => ⟨d.engine.newHeight height total, []⟩

def deskSystem (height : Nat) (ourAddress : Address) (totalActiveStake : Nat) :
    System Desk DeskEvent where
  init := ⟨BftEngine.new height ourAddress totalActiveStake, []⟩
  enabled := fun _ _ => True
  step := Desk.step

theorem sourced_step (d : Desk) (event : DeskEvent) (sourced : Sourced d.stashed d.engine.cache) :
    Sourced (d.step event).stashed (d.step event).engine.cache := by
  cases event with
  | newHeight height total => exact sourced_empty [] none
  | call reg c =>
    by_cases stash : ∃ h bytes, c = .stash h bytes
    · obtain ⟨h, bytes, rfl⟩ := stash
      refine ⟨fun h' bytes' staged => ?_, fun h' bytes' locked held => ?_⟩
      · have here : (h, bytes) = (h', bytes') := Option.some.inj staged
        rw [← here]
        exact List.mem_cons_self
      · exact List.mem_cons_of_mem _ (sourced.locked h' bytes' locked held)
    · have other : ∀ h bytes, c ≠ .stash h bytes := fun h bytes same => stash ⟨h, bytes, same⟩
      have log : (d.step (.call reg c)).stashed = d.stashed := by
        cases c with
        | stash h bytes => exact absurd rfl (other h bytes)
        | _ => rfl
      rw [log]
      exact sourced.recached (d.engine.perform_recached reg c other)

/-- In every run, bytes offered for a re-proposal are under the hash that the engine is locked on,
and were stashed under it at this height. -/
theorem reproposed_bytes_stashed {height totalActiveStake : Nat} {ourAddress : Address} {d : Desk}
    (run : Run (deskSystem height ourAddress totalActiveStake) (fun _ _ => True) d)
    {h : Hash} {bytes : Bytes} (offered : d.engine.lockedProposalBytes = some (h, bytes)) :
    d.engine.state.lockedHash = some h ∧ (h, bytes) ∈ d.stashed := by
  have sourced : Sourced d.stashed d.engine.cache := by
    refine run.invariant (fun d => Sourced d.stashed d.engine.cache) ?_ ?_
    · exact sourced_empty [] none
    · exact fun d event sourced _ _ => sourced_step d event sourced
  unfold BftEngine.lockedProposalBytes at offered
  split at offered
  · rename_i hash block locked held
    cases offered
    exact ⟨locked, sourced.locked h bytes locked held⟩
  · cases offered

theorem desk_legal {height totalActiveStake : Nat} {ourAddress : Address}
    (events : List DeskEvent) : ∀ d, (deskSystem height ourAddress totalActiveStake).Legal
      (fun _ _ => True) d events := by
  induction events with
  | nil => exact fun _ => trivial
  | cons event rest ih => exact fun d => ⟨trivial, trivial, ih _⟩

/-- One validator holds all stake. It stashes, accepts and locks `a` in the first round; in the
second a competing proposal `b` is stashed. -/
def competingCalls : List DeskEvent :=
  let reg := bondedSet ["v"]
  [.call reg (.stash "a" [1]), .call reg (.ownProposal "a"),
    .call reg (.prevote .stored ⟨3, 0, some "a", "v", []⟩), .call reg .advanceRound,
    .call reg (.stash "b" [2])]

theorem lock_keeps_its_bytes :
    let sys := deskSystem 3 "v" minSelfStake
    let d := sys.replay sys.init competingCalls
    Run sys (fun _ _ => True) d ∧ d.engine.lockedProposalBytes = some ("a", [1]) ∧
      d.engine.state.lockedHash = some "a" ∧ ("a", [1]) ∈ d.stashed := by
  intro sys d
  have run : Run sys (fun _ _ => True) d := Run.start.replay competingCalls (desk_legal _ _)
  have offered : d.engine.lockedProposalBytes = some ("a", [1]) := by decide
  exact ⟨run, offered, reproposed_bytes_stashed run offered⟩

end SentrixEngine
