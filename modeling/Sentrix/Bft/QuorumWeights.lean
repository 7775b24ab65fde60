import Sentrix.Bft.RecordedVotes
import Sentrix.Bft.Restart

/-!
Whose stake a round counts. The boundary asks one notion of active, the weight comes
from the whole registry at delivery, the total was taken when the engine was made.
-/
namespace SentrixLoop
open MachineWords HashTable SentrixPrimitives SentrixMessages SentrixStaking SentrixEngine
open SentrixGuard WeightedQuorum Runs
open SentrixNetwork (committee FromMembers)
variable {Chain Block : Type}

def Elected (L : Ledger Chain Block) (n : Node Chain Block) (voter : Address) : Prop :=
  voter ∈ n.elected.activeSet ∧ (n.registry L).voteStake voter = n.elected.voteStake voter

def FromElected (L : Ledger Chain Block) (n : Node Chain Block)
    (ev : LoopEvent Chain Block) : Prop :=
  match Fed n ev with
  | some (.prevote _ p) => Elected L n p.validator
  | some (.precommit _ _ p) => Elected L n p.validator
  | _ => True

def SupermajorityOf (e : BftEngine) (voters : Address → Prop) : Prop :=
  ∃ hash,
    supermajorityThreshold e.state.totalActiveStake ≤
        (e.collector.prevoteTally.lookup hash).getD 0 ∧
      (∀ v, voters v ↔ ∃ stake, e.state.prevotes.lookup v = some (hash, stake)) ∨
    supermajorityThreshold e.state.totalActiveStake ≤
        (e.collector.precommitTally.lookup hash).getD 0 ∧
      (∀ v, voters v ↔ ∃ signature stake,
        e.state.precommits.lookup v = some (hash, signature, stake))

structure Weighed (L : Ledger Chain Block) (elected : StakeRegistry) (e : BftEngine) : Prop where
  known : ∃ chain, elected = L.stakeRegistry chain
  total : e.core.totalActiveStake = elected.totalActiveStake
  votes : VotesMeet (fun _ _ v x => v ∈ elected.activeSet ∧ x.2 = elected.voteStake v)
    (fun _ _ v x => v ∈ elected.activeSet ∧ x.2.2 = elected.voteStake v) e.core
  counts : CountsBelow e.core

theorem Weighed.perform {L : Ledger Chain Block} {elected reg : StakeRegistry} {e : BftEngine}
    (weighed : Weighed L elected e) (call : EngineCall)
    (brings : Brings (fun _ _ v x => v ∈ elected.activeSet ∧ x.2 = elected.voteStake v)
      (fun _ _ v x => v ∈ elected.activeSet ∧ x.2.2 = elected.voteStake v) reg call) :
    Weighed L elected (e.perform reg call).1 := by
  obtain ⟨height, total, records⟩ := move_records (BftEngine.perform_move reg e call)
  exact ⟨weighed.known, total.trans weighed.total, weighed.votes.records height records brings,
    weighed.counts.records records⟩

theorem weighed_law (L : Ledger Chain Block) (k : Signer) :
    LoopLaw L k (Weighed L) fun _ _ => True where
  fresh chain guard := by
    have unvoted := newEngine_unvoted L k chain guard
    exact ⟨⟨chain, rfl⟩, unvoted.total, unvoted.votesMeet _ _, unvoted.countsBelow⟩
  core same weighed := by
    obtain ⟨known, total, votes, counts⟩ := weighed
    rw [← same] at total votes counts
    exact ⟨known, total, votes, counts⟩
  quiet reg call quiet weighed := by
    refine ⟨weighed.perform call ?_, trivial⟩
    cases call <;> trivial

theorem fromElected_admits {L : Ledger Chain Block} {n : Node Chain Block}
    {ev : LoopEvent Chain Block} (elected : FromElected L n ev) :
    Lawful.Admits L (Weighed L) (fun _ _ => True) n ev := by
  intro e call weighed fed
  unfold FromElected at elected
  rw [fed] at elected
  refine ⟨weighed.perform call ?_, trivial⟩
  cases call <;> trivial

theorem SupermajorityOf.quorum {L : Ledger Chain Block} {elected : StakeRegistry} {e : BftEngine}
    (weighed : Weighed L elected e) (whole : (committee elected).total = elected.totalActiveStake)
    {voters : Address → Prop} (majority : SupermajorityOf e voters) :
    (committee elected).Quorum voters := by
  have total : e.state.totalActiveStake = (committee elected).total := weighed.total.trans whole.symm
  obtain ⟨hash, ⟨enough, same⟩ | ⟨enough, same⟩⟩ := majority
  · have members : FromMembers elected Prod.snd e.state.prevotes := weighed.votes.prevotes
    have counted := enough.trans (weighed.counts.prevotes hash)
    rw [total] at counted
    refine members.quorum ?_ counted
    rintro v ⟨vote, stake⟩ recorded rfl
    exact (same v).mpr ⟨stake, recorded⟩
  · have members : FromMembers elected (fun x => x.2.2) e.state.precommits :=
      weighed.votes.precommits
    have counted := enough.trans (weighed.counts.precommits hash)
    rw [total] at counted
    refine members.quorum ?_ counted
    rintro v ⟨vote, signature, stake⟩ recorded rfl
    exact (same v).mpr ⟨signature, stake, recorded⟩

theorem FromMembers.sum_le {ν : Type} {reg : StakeRegistry} {stake : ν → Nat}
    {votes : Table Address ν} (members : FromMembers reg stake votes) :
    sumOf (fun _ x => stake x) votes ≤ (committee reg).total :=
  sumOf_le_sum (fun v x recorded => (members v x recorded).2.le)
    fun v x recorded _ => List.mem_toFinset.mpr (members v x recorded).1

theorem recorded_weights_within_total {L : Ledger Chain Block} {k : Signer} {crypto : Recovery}
    {chain : Chain} {file : Option LastSignState} {n : Node Chain Block} {e : BftEngine}
    (distinct : ∀ chain, (L.stakeRegistry chain).activeSet.Nodup)
    (fits : ∀ chain, ((L.stakeRegistry chain).activeSet.map
      (L.stakeRegistry chain).voteStake).sum ≤ u64Max)
    (run : Run (loop L k crypto chain file) (FromElected L) n) (at_work : n.engine = some e) :
    e.state.totalActiveStake = n.elected.totalActiveStake ∧
    FromMembers n.elected Prod.snd e.state.prevotes ∧
    FromMembers n.elected (fun x => x.2.2) e.state.precommits ∧
    sumOf (fun _ x => x.2) e.state.prevotes ≤ e.state.totalActiveStake ∧
    sumOf (fun _ x => x.2.2) e.state.precommits ≤ e.state.totalActiveStake ∧
    ∀ left right, SupermajorityOf e left → SupermajorityOf e right →
      e.state.totalActiveStake < 3 * (committee n.elected).weightOf fun v => left v ∧ right v := by
  have lawful : Lawful (Weighed L) (fun _ _ => True) n :=
    run.invariant (Lawful (Weighed L) fun _ _ => True) (lawful_boot L _ _ chain file)
      fun _ _ lawful enabled elected =>
        lawful.step (weighed_law L k) enabled (fromElected_admits elected)
  have weighed := lawful.engine e at_work
  obtain ⟨source, known⟩ := weighed.known
  have whole : (committee n.elected).total = n.elected.totalActiveStake := by
    rw [known, StakeRegistry.totalActiveStake_eq_sum (fits source)]
    exact List.sum_toFinset _ (distinct source)
  have total : e.state.totalActiveStake = (committee n.elected).total :=
    weighed.total.trans whole.symm
  refine ⟨weighed.total, weighed.votes.prevotes, weighed.votes.precommits, ?_, ?_, ?_⟩
  · rw [total]
    exact FromMembers.sum_le weighed.votes.prevotes
  · rw [total]
    exact FromMembers.sum_le weighed.votes.precommits
  · intro left right majority majority'
    rw [total]
    exact Committee.quorum_overlap (majority.quorum weighed whole) (majority'.quorum weighed whole)

def seats : List Address :=
  ["0x7e5f4552091a69125d5dfcb7b8c2659029395bdf", "0x2b5ad5c4795c026514f8317c7a215e218dccd6cf",
   "0x6813eb9362372eef6200f3b1dbc3f819671cba69", "0x1eff47bc3a10a45d4b230b5d10e37751fe6aa718"]

/-- A validator in jail, with more stake than all seats together, that the older
authority roster still lists. -/
def outsider : Address := "0xe1ab8145f7e55dc933d51a18c793f901a3a0b276"

def jailedOutsider : StakeRegistry :=
  { bondedSet seats with
    validators := (bondedSet seats).validators.insert outsider
      { bonded outsider with selfStake := 5 * minSelfStake, isJailed := true, jailUntil := 600 } }

def rosterLedger : Ledger Nat UInt8 :=
  { twoBlocks with
    stakeRegistry := fun _ => jailedOutsider
    isActiveAuthority := fun _ address => address == outsider }

def outsiderSignature : Bytes :=
  signatureBytes 0x96930e6cb3f99e25d065ac19b9b30e9eba65927945d5ffddc054dc5463f6a725
    0x6501546d62b8f6ab366018208aff4e10dbed48c5aaa5323ae79b0f83fc05330d 1

def firstSeatSignature : Bytes :=
  signatureBytes 0x0b5952ac9b0fda69660758702df9fbde04cb907523b40bdf8524cfb2421af8a9
    0x09be408a1868362ef6955eecbb566f358d46da1d5c79a108bd5d4be1bcdb9bc2 0

def secondSeatSignature : Bytes :=
  signatureBytes 0x405aa4e385bef9dc8ca5a2a71af39b12fe62162a11872779a0d3cfd44fab4dec
    0x5e6ee701f58ea9ca19cb5f1f7d5d831904a9a504223ec552ac6191707ea9b55e 1

def prevoteRecovery : Recovery where
  recover payload signature :=
    if payload ≠ Prevote.signingPayload 4 0 (some "h") then none
    else if signature = outsiderSignature then some outsider
    else if signature = firstSeatSignature then seats[0]?
    else if signature = secondSeatSignature then seats[1]?
    else none

def thirdSeat : Signer where
  address := "0x6813eb9362372eef6200f3b1dbc3f819671cba69"
  signPayload _ := []
  hashPayload _ := ""

def heardPrevotes (votes : List (Address × Bytes)) : List (LoopEvent Nat UInt8) :=
  .startHeight wellConnected :: votes.flatMap fun vote =>
    [.receive (.prevote ⟨4, 0, some "h", vote.1, vote.2⟩), .drain wellConnected,
      .handle wellConnected]

instance (L : Ledger Chain Block) (n : Node Chain Block) (ev : LoopEvent Chain Block) :
    Decidable (FromElected L n ev) := by
  unfold FromElected Elected
  split <;> infer_instance

theorem seats_weigh_within_total : ∃ n e,
    Run (loop rosterLedger thirdSeat prevoteRecovery 3 none) (FromElected rosterLedger) n ∧
      n.engine = some e ∧ sumOf (fun _ x => x.2) e.state.prevotes = 2 * minSelfStake ∧
      sumOf (fun _ x => x.2) e.state.prevotes ≤ e.state.totalActiveStake := by
  have run : Run (loop rosterLedger thirdSeat prevoteRecovery 3 none) (FromElected rosterLedger) _ :=
    Run.start.replay (heardPrevotes (seats.zip [firstSeatSignature, secondSeatSignature]))
      (by decide)
  have distinct : jailedOutsider.activeSet.Nodup := by decide
  have fits : (jailedOutsider.activeSet.map jailedOutsider.voteStake).sum ≤ u64Max := by
    decide
  refine ⟨_, _, run, rfl, by decide, ?_⟩
  exact (recorded_weights_within_total (fun _ => distinct) (fun _ => fits) run rfl).2.2.2.1

/-- The jailed validator's prevote passes the boundary and counts for more than
the whole active set. -/
theorem outsider_outweighs_total : ∃ n e,
    Run (loop rosterLedger thirdSeat prevoteRecovery 3 none) (fun _ _ => True) n ∧
      n.engine = some e ∧ outsider ∉ n.elected.activeSet ∧
      e.state.totalActiveStake < sumOf (fun _ x => x.2) e.state.prevotes :=
  ⟨_, _, Run.start.replay (heardPrevotes [(outsider, outsiderSignature)]) (by decide), rfl,
    by decide, by decide⟩

end SentrixLoop
