import Sentrix.Bft.EngineRuns

/-!
Laws about the engine inside the validator loop. The loop makes engines, calls them and
hands their actions on; a law that holds of new engines, reads only the voting part and
survives every call survives the loop.
-/
namespace SentrixLoop
open HashTable SentrixPrimitives SentrixMessages SentrixStaking SentrixEngine
open SentrixGuard
variable {Chain Block : Type}

inductive Records (reg : StakeRegistry) (c : Core) (call : EngineCall) (c' : Core) : Prop where
  | kept (round : c'.round = c.round) (prevotes : c'.prevotes = c.prevotes)
      (precommits : c'.precommits = c.precommits) (collector : c'.collector = c.collector)
  | dropped (prevotes : c'.prevotes = ∅) (precommits : c'.precommits = ∅)
      (collector : c'.collector = VoteCollector.new)
  | prevote (order : HashIter (Option Hash × Nat)) (p : Prevote) (source : call = .prevote order p)
      (height : p.height = c.height) (place : p.round = c.round) (round : c'.round = c.round)
      (fresh : c.prevotes.lookup p.validator = none)
      (prevotes : c'.prevotes =
        c.prevotes.insert p.validator (p.blockHash, reg.voteStake p.validator))
      (precommits : c'.precommits = c.precommits)
      (collector : c'.collector = c.collector.addPrevote p.blockHash (reg.voteStake p.validator))
  | precommit (order : HashIter (Option Hash × Nat))
      (listing : HashIter (Address × Option Hash × Bytes × Nat)) (p : Precommit)
      (source : call = .precommit order listing p)
      (height : p.height = c.height) (place : p.round = c.round) (round : c'.round = c.round)
      (fresh : c.precommits.lookup p.validator = none)
      (prevotes : c'.prevotes = c.prevotes)
      (precommits : c'.precommits = c.precommits.insert p.validator
        (p.blockHash, p.signature, reg.voteStake p.validator))
      (collector : c'.collector = c.collector.addPrecommit p.blockHash (reg.voteStake p.validator))

theorem move_records {reg : StakeRegistry} {e e' : BftEngine} {call : EngineCall}
    {action : BftAction} (move : Move reg e call e' action) :
    e'.core.height = e.core.height ∧ e'.core.totalActiveStake = e.core.totalActiveStake ∧
      Records reg e.core call e'.core := by
  cases move with
  | still core => rw [core]; exact ⟨rfl, rfl, .kept rfl rfl rfl rfl⟩
  | repeatPrevote same => rw [same]; exact ⟨rfl, rfl, .kept rfl rfl rfl rfl⟩
  | repeatPrecommit same => rw [same]; exact ⟨rfl, rfl, .kept rfl rfl rfl rfl⟩
  | advanced _ core =>
    have fixed : ∀ (n : Nat) (c : Core), (Nat.iterate Core.advance n c).height = c.height ∧
        (Nat.iterate Core.advance n c).totalActiveStake = c.totalActiveStake := by
      intro n
      induction n with
      | zero => exact fun c => ⟨rfl, rfl⟩
      | succ _ ih => exact fun c => ih c.advance
    rw [core]
    refine ⟨(fixed _ _).1, (fixed _ _).2, ?_⟩
    rw [Function.iterate_succ_apply']
    exact .dropped rfl rfl rfl
  | prevoted _ _ _ core => rw [core]; exact ⟨rfl, rfl, .kept rfl rfl rfl rfl⟩
  | relaxed _ _ _ _ core => rw [core]; exact ⟨rfl, rfl, .kept rfl rfl rfl rfl⟩
  | counted order p source height round fresh core =>
    rw [core]
    exact ⟨rfl, rfl, .prevote order p source height round rfl fresh rfl rfl rfl⟩
  | locked order p hash source height round fresh _ _ core =>
    rw [core]
    cases hash <;> exact ⟨rfl, rfl, .prevote order p source height round rfl fresh rfl rfl rfl⟩
  | gaveUp _ _ core => rw [core]; exact ⟨rfl, rfl, .kept rfl rfl rfl rfl⟩
  | countedPrecommit order listing p source height round fresh core
  | finalized order listing p _ source height round fresh _ core =>
    rw [core]
    exact ⟨rfl, rfl, .precommit order listing p source height round rfl fresh rfl rfl rfl⟩

section
variable (P : Nat → Nat → Address → Option Hash × Nat → Prop)
  (Q : Nat → Nat → Address → Option Hash × Bytes × Nat → Prop)

structure VotesMeet (c : Core) : Prop where
  prevotes : ∀ v x, c.prevotes.lookup v = some x → P c.height c.round v x
  precommits : ∀ v x, c.precommits.lookup v = some x → Q c.height c.round v x

def Brings (reg : StakeRegistry) : EngineCall → Prop
  | .prevote _ p => P p.height p.round p.validator (p.blockHash, reg.voteStake p.validator)
  | .precommit _ _ p =>
    Q p.height p.round p.validator (p.blockHash, p.signature, reg.voteStake p.validator)
  | _ => True

variable {P Q}

theorem lookup_insert_cases {ν : Type} {t : Table Address ν} {u v : Address} {x y : ν}
    (found : (t.insert u x).lookup v = some y) : v = u ∧ y = x ∨ t.lookup v = some y := by
  by_cases same : v = u
  · subst same
    rw [AList.lookup_insert] at found
    exact Or.inl ⟨rfl, (Option.some.inj found).symm⟩
  · rw [AList.lookup_insert_ne same] at found
    exact Or.inr found

theorem VotesMeet.records {reg : StakeRegistry} {c c' : Core} {call : EngineCall}
    (meet : VotesMeet P Q c) (height : c'.height = c.height) (records : Records reg c call c')
    (brings : Brings P Q reg call) : VotesMeet P Q c' := by
  cases records with
  | kept round prevotes precommits =>
    constructor
    · rw [height, round, prevotes]
      exact meet.prevotes
    · rw [height, round, precommits]
      exact meet.precommits
  | dropped prevotes precommits =>
    constructor
    · rw [prevotes]
      intro v x found
      cases found
    · rw [precommits]
      intro v x found
      cases found
  | prevote _ _ source place place' round _ prevotes precommits =>
    subst source
    constructor
    · rw [height, round, prevotes]
      intro v x found
      rcases lookup_insert_cases found with ⟨rfl, rfl⟩ | found
      · rw [← place, ← place']
        exact brings
      · exact meet.prevotes v x found
    · rw [height, round, precommits]
      exact meet.precommits
  | precommit _ _ _ source place place' round _ prevotes precommits =>
    subst source
    constructor
    · rw [height, round, prevotes]
      exact meet.prevotes
    · rw [height, round, precommits]
      intro v x found
      rcases lookup_insert_cases found with ⟨rfl, rfl⟩ | found
      · rw [← place, ← place']
        exact brings
      · exact meet.precommits v x found

structure CountsBelow (c : Core) : Prop where
  prevotes : TalliedBelow Prod.fst Prod.snd c.collector.prevoteTally c.prevotes
  precommits : TalliedBelow Prod.fst (fun x => x.2.2) c.collector.precommitTally c.precommits

theorem CountsBelow.records {reg : StakeRegistry} {c c' : Core} {call : EngineCall}
    (below : CountsBelow c) (records : Records reg c call c') : CountsBelow c' := by
  cases records with
  | kept _ prevotes precommits collector =>
    exact ⟨by rw [collector, prevotes]; exact below.prevotes,
      by rw [collector, precommits]; exact below.precommits⟩
  | dropped prevotes precommits collector =>
    exact ⟨by rw [collector, prevotes]; exact fun _ => Nat.zero_le _,
      by rw [collector, precommits]; exact fun _ => Nat.zero_le _⟩
  | prevote _ p _ _ _ _ fresh prevotes precommits collector =>
    constructor
    · rw [collector, prevotes]
      exact below.prevotes.add (p.blockHash, reg.voteStake p.validator) fresh
    · rw [collector, precommits]
      exact below.precommits
  | precommit _ _ p _ _ _ _ fresh prevotes precommits collector =>
    constructor
    · rw [collector, prevotes]
      exact below.prevotes
    · rw [collector, precommits]
      exact below.precommits.add (p.blockHash, p.signature, reg.voteStake p.validator) fresh

end

structure Unvoted (height total : Nat) (c : Core) : Prop where
  height : c.height = height
  total : c.totalActiveStake = total
  prevotes : c.prevotes = ∅
  precommits : c.precommits = ∅
  collector : c.collector = VoteCollector.new

theorem newEngine_unvoted (L : Ledger Chain Block) (k : Signer) (chain : Chain)
    (guard : Option Guard) : Unvoted (L.height chain + 1) (L.stakeRegistry chain).totalActiveStake
      (newEngine L k chain guard).core := by
  have skipped : ∀ (steps : Nat) (c : Core) {height total : Nat}, Unvoted height total c →
      Unvoted height total (Nat.iterate Core.advance steps c) := by
    intro steps
    induction steps with
    | zero => exact fun _ _ _ unvoted => unvoted
    | succ _ ih =>
      intro c height total unvoted
      exact ih c.advance ⟨unvoted.height, unvoted.total, rfl, rfl, rfl⟩
  unfold newEngine
  rw [BftEngine.core_iterate_advanceRound]
  exact skipped _ _ ⟨rfl, rfl, rfl, rfl, rfl⟩

theorem Unvoted.votesMeet {height total : Nat} {c : Core} (unvoted : Unvoted height total c)
    (P : Nat → Nat → Address → Option Hash × Nat → Prop)
    (Q : Nat → Nat → Address → Option Hash × Bytes × Nat → Prop) : VotesMeet P Q c := by
  constructor
  · rw [unvoted.prevotes]
    intro v x found
    cases found
  · rw [unvoted.precommits]
    intro v x found
    cases found

theorem Unvoted.countsBelow {height total : Nat} {c : Core} (unvoted : Unvoted height total c) :
    CountsBelow c := by
  constructor
  · rw [unvoted.prevotes, unvoted.collector]
    exact fun _ => Nat.zero_le _
  · rw [unvoted.precommits, unvoted.collector]
    exact fun _ => Nat.zero_le _

def isVoteCall : EngineCall → Bool
  | .prevote _ _ => true
  | .precommit _ _ _ => true
  | _ => false

def Fed (n : Node Chain Block) : LoopEvent Chain Block → Option EngineCall
  | .drain c =>
    match n.inbox with
    | .prevote p :: _ => some (.prevote c.votes p)
    | .precommit p :: _ => some (.precommit c.votes c.listing p)
    | _ => none
  | .handle c =>
    match n.action with
    | some (_, .broadcastPrevote p) => if c.sent then some (.prevote c.votes p) else none
    | some (_, .broadcastPrecommit p) =>
      if c.sent then some (.precommit c.votes c.listing p) else none
    | _ => none
  | _ => none

/-- What holds of the engine, and of the action under way, judged by the registry
the engine's total was taken over. -/
structure LoopLaw (L : Ledger Chain Block) (k : Signer) (J : StakeRegistry → BftEngine → Prop)
    (A : StakeRegistry → BftAction → Prop) : Prop where
  fresh : ∀ chain guard, J (L.stakeRegistry chain) (newEngine L k chain guard)
  core : ∀ {elected e e'}, e'.core = e.core → J elected e → J elected e'
  quiet : ∀ {elected e} (reg call), isVoteCall call = false → J elected e →
    J elected (e.perform reg call).1 ∧ A elected (e.perform reg call).2

structure Lawful (J : StakeRegistry → BftEngine → Prop) (A : StakeRegistry → BftAction → Prop)
    (n : Node Chain Block) : Prop where
  engine : ∀ e, n.engine = some e → J n.elected e
  action : ∀ arm a, n.action = some (arm, a) → A n.elected a

namespace Lawful
variable {L : Ledger Chain Block} {k : Signer} {J : StakeRegistry → BftEngine → Prop}
  {A : StakeRegistry → BftAction → Prop} {n : Node Chain Block} {e : BftEngine}

theorem rest {n' : Node Chain Block} (lawful : Lawful J A n) (engine : n'.engine = n.engine)
    (elected : n'.elected = n.elected) (idle : n'.action = none) : Lawful J A n' := by
  constructor
  · rw [engine, elected]
    exact lawful.engine
  · intro arm a under_way
    rw [idle] at under_way
    cases under_way

theorem call {c : EngineCall} {arm : Option Arm}
    (result : J n.elected (e.perform (n.registry L) c).1 ∧ A n.elected (e.perform (n.registry L) c).2) :
    Lawful J A (n.call L e c arm) := by
  constructor
  · rintro e' ⟨⟩
    exact result.1
  · intro arm' a under_way
    obtain ⟨_, _, same⟩ := Option.map_eq_some_iff.mp under_way
    cases same
    exact result.2

variable (law : LoopLaw L k J A)
include law

theorem offer (holds : J n.elected e) (block : Block) (p : Proposal) (arm : Option Arm)
    (keep : Bool) : Lawful J A (n.offer L e block p arm keep) :=
  call (law.quiet _ _ rfl (law.core (e := e) rfl holds))

theorem propose (holds : J n.elected e) (idle : n.action = none) (c : Choices Block)
    (arm : Option Arm) (keep : Bool) : Lawful J A (n.propose L k c e arm keep) := by
  unfold Node.propose
  split
  · apply offer law
    exact holds
  · constructor
    · rintro e' ⟨⟩
      exact holds
    · intro arm' a under_way
      cases idle.symm.trans under_way

theorem startHeight (idle : n.action = none) (c : Choices Block) :
    Lawful J A (n.startHeight L k c) := by
  have holds : J (n.registry L) (newEngine L k n.chain n.guard) := law.fresh n.chain n.guard
  unfold Node.startHeight
  simp only
  split
  · split
    · apply offer law
      exact holds
    · apply propose law
      · exact holds
      · exact idle
  · constructor
    · rintro e' ⟨⟩
      exact holds
    · intro arm a under_way
      cases idle.symm.trans under_way

theorem nextRound (holds : J n.elected e) (c : Choices Block) (keep : Bool) :
    Lawful J A (n.nextRound L k c e keep) := by
  have advanced := law.quiet (n.registry L) .advanceRound rfl holds
  unfold Node.nextRound
  simp only
  split
  · exact propose law (n := n.call L e .advanceRound none) advanced.1 rfl c none keep
  · exact call advanced

omit law in
theorem prepareNext (lawful : Lawful J A n) (idle : n.action = none) (c : Choices Block) :
    Lawful J A (n.prepareNext L k c) := by
  unfold Node.prepareNext
  simp only
  split
  · split <;> exact lawful.rest rfl rfl idle
  · exact lawful.rest rfl rfl idle

theorem finalize (lawful : Lawful J A n) (at_work : n.engine = some e) (c : Choices Block)
    (height round : Nat) (blockHash : Hash) (justification : BlockJustification) :
    Lawful J A (n.finalize L k c e height round blockHash justification) := by
  unfold Node.finalize
  split
  · exact lawful.rest rfl rfl rfl
  split
  · exact call (law.quiet _ _ rfl (lawful.engine e at_work))
  split
  · exact lawful.rest rfl rfl rfl
  · simp only
    split
    · exact lawful.rest rfl rfl rfl
    split
    · split
      · apply prepareNext
        · exact lawful.rest rfl rfl rfl
        · rfl
      · exact lawful.rest rfl rfl rfl
    · exact lawful.rest rfl rfl rfl

def Admits (L : Ledger Chain Block) (J : StakeRegistry → BftEngine → Prop)
    (A : StakeRegistry → BftAction → Prop) (n : Node Chain Block)
    (ev : LoopEvent Chain Block) : Prop :=
  ∀ e call, J n.elected e → Fed n ev = some call →
    J n.elected (e.perform (n.registry L) call).1 ∧ A n.elected (e.perform (n.registry L) call).2

theorem drain (lawful : Lawful J A n) (at_work : n.engine = some e) (idle : n.action = none)
    {c : Choices Block} {message : BftMessage} {rest : List BftMessage}
    (inbox : n.inbox = message :: rest) (admits : Admits L J A n (.drain c)) :
    Lawful J A ({ n with inbox := rest }.drain L c e message) := by
  have holds := lawful.engine e at_work
  unfold Admits Fed at admits
  rw [inbox] at admits
  cases message with
  | propose =>
    unfold Node.drain
    simp only
    split
    · exact lawful.rest rfl rfl idle
    · split
      · exact call (law.quiet _ _ rfl (law.core (e := e) rfl holds))
      · exact lawful.rest rfl rfl idle
  | prevote => exact call (admits e _ holds rfl)
  | precommit => exact call (admits e _ holds rfl)
  | roundStatus => exact call (law.quiet _ _ rfl holds)

theorem handle (lawful : Lawful J A n) (at_work : n.engine = some e) {c : Choices Block}
    {arm : Arm} {action : BftAction} (under_way : n.action = some (arm, action))
    (admits : Admits L J A n (.handle c)) : Lawful J A (n.handle L k c e arm action) := by
  have holds := lawful.engine e at_work
  unfold Admits Fed at admits
  rw [under_way] at admits
  cases action with
  | broadcastPrevote p =>
    unfold Node.handle
    simp only
    split
    · rename_i sent
      exact call (admits e.markPrevoteCast _ (law.core (e := e) rfl holds) (if_pos sent))
    · exact lawful.rest rfl rfl rfl
  | broadcastPrecommit p =>
    unfold Node.handle
    simp only
    split
    · rename_i sent
      exact call (admits e.markPrecommitCast _ (law.core (e := e) rfl holds) (if_pos sent))
    · exact lawful.rest rfl rfl rfl
  | finalizeBlock height round blockHash justification =>
    unfold Node.handle
    simp only
    split
    · exact lawful.rest rfl rfl rfl
    · exact finalize law lawful at_work c height round blockHash justification
  | timeoutAdvanceRound => exact nextRound law holds c _
  | skipRound => exact nextRound law holds c _
  | syncNeeded => exact lawful.rest rfl rfl rfl
  | wait => exact lawful.rest rfl rfl rfl
  | proposeBlock => exact lawful.rest rfl rfl rfl

theorem step {crypto : Recovery} {ev : LoopEvent Chain Block} (lawful : Lawful J A n)
    (enabled : n.Enabled L ev) (admits : Admits L J A n ev) :
    Lawful J A (n.step L k crypto ev) := by
  cases ev with
  | chainMoves => exact ⟨lawful.engine, lawful.action⟩
  | receive => exact ⟨lawful.engine, lawful.action⟩
  | startHeight c => exact startHeight law enabled.1 c
  | drain c =>
    simp only [Node.step]
    split
    · rename_i e message rest at_work inbox
      exact drain law lawful at_work enabled inbox admits
    · exact lawful
  | timeout =>
    simp only [Node.step]
    split
    · rename_i e at_work
      exact call (law.quiet _ _ rfl (lawful.engine e at_work))
    · exact lawful
  | handle c =>
    simp only [Node.step]
    split
    · rename_i e arm action at_work under_way
      exact handle law lawful at_work under_way admits
    · exact lawful
  | rebroadcast =>
    simp only [Node.step]
    split
    · split
      · exact ⟨lawful.engine, lawful.action⟩
      · exact lawful
    · exact lawful
  | restart =>
    constructor
    · intro e at_work
      simp [Node.step] at at_work
    · intro arm a under_way
      simp [Node.step] at under_way

end Lawful

theorem lawful_boot (L : Ledger Chain Block) (J : StakeRegistry → BftEngine → Prop)
    (A : StakeRegistry → BftAction → Prop) (chain : Chain) (file : Option LastSignState) :
    Lawful J A (Node.boot L chain file) := by
  constructor
  · intro e at_work
    simp [Node.boot] at at_work
  · intro arm a under_way
    simp [Node.boot] at under_way

end SentrixLoop
