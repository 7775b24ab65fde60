import Sentrix.Bft.EngineRuns

/-!
Skipping rounds. An engine keeps, for each peer of its height, the highest round the
peer reported and the stake it last came with, and jumps to the highest round that
enough stake has reached.
-/
namespace SentrixEngine
open MachineWords HashTable SentrixPrimitives SentrixMessages

def reaching (peers : List (Word32 × Nat)) (round : Nat) : Nat :=
  ((peers.filter (round ≤ ·.1.val)).map Prod.snd).sum

theorem reaching_above {peers : List (Word32 × Nat)} {round : Nat}
    (above : ∀ peer ∈ peers, peer.1.val < round) : reaching peers round = 0 := by
  have none_there : peers.filter (round ≤ ·.1.val) = [] := by simpa using above
  simp [reaching, none_there]

theorem reaching_perm {l l' : List (Word32 × Nat)} (perm : l.Perm l') :
    reaching l = reaching l' := by
  funext round
  exact ((perm.filter _).map _).sum_eq

/-- From the top round down: until the threshold is reached, what has been added up is the
stake at the rounds passed. -/
theorem scan_iff {threshold own : Nat} {peers : List (Word32 × Nat)} {accumulated : Nat}
    (sorted : peers.Pairwise fun a b => b.1 ≤ a.1) (ahead : ∀ peer ∈ peers, own < peer.1.val)
    (short : accumulated < threshold)
    (fits : accumulated + (peers.map Prod.snd).sum ≤ u64Max) (target : Word32) :
    BftEngine.roundReached.scan threshold accumulated peers = some target ↔
      IsGreatest {round : Word32 | own < round.val ∧
        threshold ≤ accumulated + reaching peers round.val} target := by
  induction peers generalizing accumulated with
  | nil =>
    refine ⟨nofun, fun greatest => ?_⟩
    have enough := greatest.1.2
    simp [reaching] at enough
    omega
  | cons peer rest ih =>
    obtain ⟨top, stake⟩ := peer
    obtain ⟨below, sorted⟩ := List.pairwise_cons.mp sorted
    obtain ⟨higher, ahead⟩ := List.forall_mem_cons.mp ahead
    simp only [List.map_cons, List.sum_cons] at fits
    have rest_above {round : Nat} (passed : top.val < round) : reaching rest round = 0 :=
      reaching_above fun peer inside => Nat.lt_of_le_of_lt (below peer inside) passed
    have added : satAdd64 accumulated stake = accumulated + stake := satAdd_eq_add (by omega)
    have counted (round : Nat) : reaching ((top, stake) :: rest) round =
        if round ≤ top.val then stake + reaching rest round else 0 := by
      split_ifs with reached
      · simp [reaching, reached]
      · have above := rest_above (Nat.lt_of_not_le reached)
        simpa [reaching, reached] using above
    rw [BftEngine.roundReached.scan, added]
    split_ifs with enough
    · have greatest : IsGreatest {round : Word32 | own < round.val ∧
          threshold ≤ accumulated + reaching ((top, stake) :: rest) round.val} top := by
        refine ⟨⟨higher, ?_⟩, fun round ⟨_, reached⟩ => ?_⟩
        · rw [counted, if_pos (Nat.le_refl _)]
          omega
        · by_contra passed
          rw [counted, if_neg (show ¬ round.val ≤ top.val from passed)] at reached
          omega
      rw [Option.some_inj]
      exact ⟨fun same => same ▸ greatest, fun other => greatest.unique other⟩
    · rw [@ih (accumulated + stake) sorted ahead (by omega) (by omega)]
      congr! 3 with round
      rw [counted]
      split_ifs with reached
      · omega
      · rw [rest_above (Nat.lt_of_not_le reached)]
        omega

namespace BftEngine

def peers (e : BftEngine) : List (Word32 × Nat) :=
  e.peerRounds.pairs.map Prod.snd

/-- The stake of the peers whose highest reported round is at least `round`. -/
def stakeReaching (e : BftEngine) : Nat → Nat :=
  reaching e.peers

def SkipTarget (e : BftEngine) (threshold : Nat) (target : Word32) : Prop :=
  IsGreatest {round : Word32 | e.state.round < round.val ∧ threshold ≤ e.stakeReaching round.val}
    target

variable {e : BftEngine} {threshold : Nat}

theorem roundReached_iff (fits : (e.peers.map Prod.snd).sum ≤ u64Max) (positive : 0 < threshold)
    (order : HashIter (Word32 × Nat)) (target : Word32) :
    e.roundReached order threshold = some target ↔
      e.state.totalActiveStake ≠ 0 ∧ e.SkipTarget threshold target := by
  by_cases active : e.state.totalActiveStake = 0
  · simp [roundReached, active]
  let ahead := (order.visit e.peers).filter (e.state.round < ·.1.val)
  have perm := List.perm_insertionSort (fun a b : Word32 × Nat => b.1 ≤ a.1) ahead
  have sorted : (ahead.insertionSort fun a b => b.1 ≤ a.1).Pairwise fun a b => b.1 ≤ a.1 :=
    haveI : Std.Total fun a b : Word32 × Nat => b.1 ≤ a.1 := ⟨fun a b => le_total b.1 a.1⟩
    haveI : IsTrans (Word32 × Nat) fun a b => b.1 ≤ a.1 := ⟨fun _ _ _ ab bc => bc.trans ab⟩
    List.pairwise_insertionSort _ _
  have small : 0 + ((ahead.insertionSort fun a b => b.1 ≤ a.1).map Prod.snd).sum ≤ u64Max := by
    rw [Nat.zero_add, (perm.map _).sum_eq]
    have part := (List.filter_sublist (p := fun peer : Word32 × Nat => e.state.round < peer.1.val)
      (l := order.visit e.peers)).map Prod.snd
    refine Nat.le_trans (part.sum_le_sum fun _ _ => Nat.zero_le _) ?_
    rwa [((order.perm _).map _).sum_eq]
  have higher : ∀ peer ∈ ahead.insertionSort fun a b => b.1 ≤ a.1, e.state.round < peer.1.val :=
    fun peer inside => by simpa using (List.mem_filter.mp (perm.mem_iff.mp inside)).2
  have scanned := scan_iff sorted higher positive small target
  have unfolded : e.roundReached order threshold =
      roundReached.scan threshold 0 (ahead.insertionSort fun a b => b.1 ≤ a.1) := if_neg active
  have same {round : Nat} (higher : e.state.round < round) :
      reaching ahead round = e.stakeReaching round := by
    rw [stakeReaching, ← reaching_perm (order.perm e.peers), reaching, List.filter_filter, reaching]
    refine congrArg _ (congrArg _ (List.filter_congr fun peer _ => ?_))
    simp
    omega
  simp only [reaching_perm perm, Nat.zero_add] at scanned
  rw [unfolded, scanned, and_iff_right active, SkipTarget]
  congr! 3 with round
  exact and_congr_right fun higher => by rw [same higher]

/-- Statuses of the engine's height are heard, and between them anything may happen that
leaves the noted rounds alone. -/
inductive Hears : BftEngine → List (RoundStatus × Nat) → BftEngine → Prop where
  | done (e : BftEngine) : Hears e [] e
  | status {e final : BftEngine} {status : RoundStatus} {stake : Nat}
      {rest : List (RoundStatus × Nat)} (order : HashIter (Word32 × Nat))
      (here : status.height = e.state.height)
      (later : Hears (e.onRoundStatusWeighted order status stake).1 rest final) :
      Hears e ((status, stake) :: rest) final
  | other {e next final : BftEngine} {heard : List (RoundStatus × Nat)}
      (kept : next.peerRounds = e.peerRounds) (later : Hears next heard final) : Hears e heard final

/-- Each peer comes with one stake. -/
def OneStake (heard : List (RoundStatus × Nat)) : Prop :=
  ∀ a ∈ heard, ∀ b ∈ heard, a.1.validator = b.1.validator → a.2 = b.2

/-- What is known of the peers after one more status. -/
def report (known : Address → Option (Word32 × Nat)) (heard : RoundStatus × Nat) :
    Address → Option (Word32 × Nat) :=
  Function.update known heard.1.validator
    (some ((known heard.1.validator).elim heard.1.round fun peer => max peer.1 heard.1.round,
      heard.2))

theorem lookup_notePeerRound (status : RoundStatus) (stake : Nat) :
    (e.notePeerRound status stake).peerRounds.lookup =
      report e.peerRounds.lookup (status, stake) := by
  funext v
  by_cases same : v = status.validator
  · subst same
    rw [notePeerRound, AList.lookup_insert, report, Function.update_self]
    cases e.peerRounds.lookup status.validator with
    | none => simp
    | some => simp [max_def]
  · rw [notePeerRound, AList.lookup_insert_ne same, report, Function.update_of_ne same]

theorem peerRounds_catchUpRound (target : Word32) :
    (e.catchUpRound target.val).1.peerRounds = e.peerRounds := by
  rcases Nat.lt_or_ge e.state.round target.val with ahead | behind
  · rw [e.catchUpRound_ahead target.val ahead target.val_le]
    rfl
  · rw [catchUpRound, if_pos behind]

theorem peerRounds_onRoundStatusWeighted (order : HashIter (Word32 × Nat)) {status : RoundStatus}
    (stake : Nat) (here : status.height = e.state.height) :
    (e.onRoundStatusWeighted order status stake).1.peerRounds =
      (e.notePeerRound status stake).peerRounds := by
  rw [onRoundStatusWeighted, if_neg (by omega), if_neg (by omega)]
  simp only
  split
  · rename_i target _
    have kept := (e.notePeerRound status stake).peerRounds_catchUpRound target
    split
    · split <;> simp_all
    · rfl
  · rfl

theorem Hears.lookup {final : BftEngine} {heard : List (RoundStatus × Nat)}
    (run : Hears e heard final) :
    final.peerRounds.lookup = heard.foldl report e.peerRounds.lookup := by
  induction run with
  | done => rfl
  | status order here _ ih =>
    rw [ih, List.foldl_cons, peerRounds_onRoundStatusWeighted order _ here, lookup_notePeerRound]
  | other kept _ ih => rw [ih, kept]

/-- Reports that agree on each peer's stake come to the same in any order. -/
theorem report_comm (known : Address → Option (Word32 × Nat)) {a b : RoundStatus × Nat}
    (stakes : a.1.validator = b.1.validator → a.2 = b.2) :
    report (report known a) b = report (report known b) a := by
  unfold report
  by_cases same : a.1.validator = b.1.validator
  · cases before : known b.1.validator with
    | none => simp [same, stakes same, before, max_comm]
    | some => simp [same, stakes same, before, max_right_comm]
  · simp [Function.update_of_ne same, Function.update_of_ne (Ne.symm same),
      Function.update_comm same]

theorem peers_perm {e' : BftEngine} (same : e'.peerRounds.lookup = e.peerRounds.lookup) :
    e'.peers.Perm e.peers :=
  ((List.lookup_ext e'.peerRounds.nodupKeys e.peerRounds.nodupKeys fun k _ =>
    by rw [← AList.lookup, ← AList.lookup, congrFun same k]).map _).map _

theorem roundReached_congr {e' : BftEngine} (fits : (e.peers.map Prod.snd).sum ≤ u64Max)
    (positive : 0 < threshold) (round : e'.state.round = e.state.round)
    (total : e'.state.totalActiveStake = e.state.totalActiveStake) (perm : e'.peers.Perm e.peers)
    (order order' : HashIter (Word32 × Nat)) :
    e'.roundReached order' threshold = e.roundReached order threshold := by
  have fits' : (e'.peers.map Prod.snd).sum ≤ u64Max := by rwa [(perm.map _).sum_eq]
  refine Option.ext fun target => ?_
  rw [roundReached_iff fits' positive, roundReached_iff fits positive, SkipTarget, SkipTarget,
    stakeReaching, stakeReaching, reaching_perm perm, round, total]

end BftEngine

open BftEngine

theorem skip_targets_exact {e : BftEngine} (fits : (e.peers.map Prod.snd).sum < 2 ^ 64) :
    (∀ order target, e.fPlusOneRound order = some target ↔
      e.state.totalActiveStake ≠ 0 ∧ e.SkipTarget (e.state.totalActiveStake / 3 + 1) target) ∧
    (∀ order target, e.peerSupermajorityHigherRound order = some target ↔
      e.state.totalActiveStake ≠ 0 ∧
        e.SkipTarget (supermajorityThreshold e.state.totalActiveStake) target) ∧
    ∀ (before e' : BftEngine) (heard heard' : List (RoundStatus × Nat)), Hears before heard e →
      Hears before heard' e' → heard.Perm heard' → OneStake heard →
      e'.state.round = e.state.round → e'.state.totalActiveStake = e.state.totalActiveStake →
      ∀ order order', e'.fPlusOneRound order' = e.fPlusOneRound order ∧
        e'.peerSupermajorityHigherRound order' = e.peerSupermajorityHigherRound order := by
  have fits : (e.peers.map Prod.snd).sum ≤ u64Max := Nat.le_sub_one_of_lt fits
  refine ⟨roundReached_iff fits (Nat.succ_pos _), roundReached_iff fits (Nat.succ_pos _), ?_⟩
  intro before e' heard heard' run run' perm stakes round total order order'
  have peers : e'.peers.Perm e.peers := by
    refine peers_perm ?_
    rw [run.lookup, run'.lookup]
    have comm := fun a here b there known => report_comm known (stakes a here b there)
    exact (perm.foldl_eq' comm _).symm
  unfold fPlusOneRound peerSupermajorityHigherRound
  rw [total]
  exact ⟨roundReached_congr fits (Nat.succ_pos _) round total peers order order',
    roundReached_congr fits (Nat.succ_pos _) round total peers order order'⟩

/-- An engine in round 0 that has noted the statuses. -/
def having (total : Nat) (heard : List (RoundStatus × Nat)) : BftEngine :=
  heard.foldl (fun e report => e.notePeerRound report.1 report.2) (BftEngine.new 4 "v0" total)

def saying (validator : Address) (round : Word32) (stake : Nat) : RoundStatus × Nat :=
  (⟨4, round, validator, []⟩, stake)

theorem skip_targets_exact_round_five :
    ((having 3 [saying "v1" 5 2]).peers.map Prod.snd).sum < 2 ^ 64 ∧
      (having 3 [saying "v1" 5 2]).SkipTarget (3 / 3 + 1) 5 := by
  have fits : ((having 3 [saying "v1" 5 2]).peers.map Prod.snd).sum < 2 ^ 64 := by decide
  exact ⟨fits, (((skip_targets_exact fits).1 HashIter.stored 5).mp (by decide)).2⟩

/-- Without active stake there is no target, however far peers are ahead; and a peer whose
stake changes between two statuses counts with the later one. -/
theorem no_target_without_stake :
    ((having 0 [saying "v1" 5 1]).SkipTarget (0 / 3 + 1) 5 ∧
      (having 0 [saying "v1" 5 1]).fPlusOneRound HashIter.stored = none) ∧
    ((having 0 [saying "v1" 5 1]).SkipTarget (supermajorityThreshold 0) 5 ∧
      (having 0 [saying "v1" 5 1]).peerSupermajorityHigherRound HashIter.stored = none) ∧
    (having 3 [saying "v1" 5 1, saying "v1" 5 2]).fPlusOneRound HashIter.stored = some 5 ∧
    (having 3 [saying "v1" 5 2, saying "v1" 5 1]).fPlusOneRound HashIter.stored = none := by
  have target : (having 0 [saying "v1" 5 1]).SkipTarget 1 5 :=
    ((BftEngine.roundReached_iff (e := having 1 [saying "v1" 5 1]) (by decide) (by decide)
      HashIter.stored 5).mp (by decide)).2
  exact ⟨⟨target, by decide⟩, ⟨target, by decide⟩, by decide, by decide⟩

end SentrixEngine
