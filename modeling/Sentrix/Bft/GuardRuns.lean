import Sentrix.Lib.Runs
import Sentrix.Bft.LastSignGuard

/-!
The last-sign guard over whole lifetimes of a validator: sign requests, writes that
fail, crashes inside a request and restarts that read the file back.
-/
namespace SentrixGuard
open SentrixPrimitives SentrixMessages Runs

structure SignRequest where
  height : Nat
  round : Nat
  step : VoteStep
  payload : Bytes
  deriving DecidableEq, Repr

def SignRequest.point (r : SignRequest) : SignPoint :=
  signPoint r.height r.round r.step.ord

def SignRequest.record (hashPayload : Bytes → String) (r : SignRequest) : LastSignState :=
  ⟨r.height, r.round, r.step.ord, if r.payload ≠ [] then hashPayload r.payload else ""⟩

def Guard.ask (hashPayload : Bytes → String) (g : Guard) (persisted : Bool) (r : SignRequest) :
    Guard × Except DoubleSignAttempt Unit :=
  let answer := checkAndRecordWithBytes hashPayload persisted (some g) r.height r.round r.step
    r.payload
  (answer.1.getD g, answer.2)

structure SignLog where
  guard : Guard
  allowed : List SignRequest
  deriving DecidableEq, Repr

inductive SignEvent where
  | request (persisted : Bool) (r : SignRequest)
  /-- The process dies inside the call, before or after the write. -/
  | crash (written : Bool) (r : SignRequest)
  | restart

namespace SignLog

def step (hashPayload : Bytes → String) (l : SignLog) : SignEvent → SignLog
  | .request persisted r =>
    match l.guard.ask hashPayload persisted r with
    | (guard, .ok ()) => ⟨guard, r :: l.allowed⟩
    | (guard, .error _) => ⟨guard, l.allowed⟩
  | .crash written r =>
    ⟨Guard.init (some (l.guard.ask hashPayload written r).1.disk), l.allowed⟩
  | .restart => ⟨Guard.init (some l.guard.disk), l.allowed⟩

def Enabled (_ : SignLog) : SignEvent → Prop
  | .request _ r => r.step ≠ .other
  | .crash _ r => r.step ≠ .other
  | .restart => True

instance (l : SignLog) : ∀ ev, Decidable (l.Enabled ev)
  | .request _ _ | .crash _ _ => inferInstanceAs (Decidable (_ ≠ _))
  | .restart => inferInstanceAs (Decidable True)

end SignLog

def guardRuns (hashPayload : Bytes → String) (file : Option LastSignState) :
    System SignLog SignEvent where
  init := ⟨Guard.init file, []⟩
  enabled := SignLog.Enabled
  step := SignLog.step hashPayload

instance (hashPayload : Bytes → String) (file : Option LastSignState) (l : SignLog)
    (ev : SignEvent) : Decidable ((guardRuns hashPayload file).enabled l ev) :=
  inferInstanceAs (Decidable (l.Enabled ev))

inductive Answer (hashPayload : Bytes → String) (g : Guard) (r : SignRequest) :
    Bool → Guard × Except DoubleSignAttempt Unit → Prop where
  | refused {persisted} (why) : Answer hashPayload g r persisted (g, .error why)
  | replayed {persisted} (same : r.point = g.state.point) (nonempty : r.payload ≠ [])
      (hash : g.state.lastSignBytesHex = hashPayload r.payload)
      (known : g.state.lastSignBytesHex ≠ "") : Answer hashPayload g r persisted (g, .ok ())
  | recorded (above : g.state.point < r.point) :
      Answer hashPayload g r true (⟨r.record hashPayload, r.record hashPayload⟩, .ok ())
  | unwritten (above : g.state.point < r.point) (why) :
      Answer hashPayload g r false ({ g with state := r.record hashPayload }, .error why)

theorem ask_answer (hashPayload : Bytes → String) (g : Guard) (persisted : Bool)
    {r : SignRequest} (guarded : r.step ≠ .other) :
    Answer hashPayload g r persisted (g.ask hashPayload persisted r) := by
  simp only [Guard.ask, checkAndRecordWithBytes, if_neg guarded]
  split
  · rename_i same
    split
    · rename_i hash
      exact .replayed same.1 same.2 hash.2 hash.1
    · exact .refused _
  · split
    · exact .refused _
    · rename_i above
      cases persisted with
      | false => exact .unwritten (not_le.mp above) _
      | true => exact .recorded (not_le.mp above)

structure Guarded (hashPayload : Bytes → String) (l : SignLog) : Prop where
  written : ∀ r ∈ l.allowed, r.point ≤ l.guard.disk.point
  bytes : ∀ r ∈ l.allowed, r.point = l.guard.disk.point →
    l.guard.disk.lastSignBytesHex = (r.record hashPayload).lastSignBytesHex
  ahead : l.guard.disk.point ≤ l.guard.state.point
  ordered : l.allowed.Pairwise fun newer older => older.point ≤ newer.point
  unique : ∀ r ∈ l.allowed, ∀ s ∈ l.allowed, r.point = s.point → r.payload = s.payload

/-- A payload whose record was not written is not asked for again while the
memory record stands above the file, and no two payloads in play share a digest. -/
def Replayable (hashPayload : Bytes → String) (l : SignLog) : SignEvent → Prop
  | .request _ r =>
    (r.point = l.guard.state.point → l.guard.state.lastSignBytesHex = hashPayload r.payload →
      l.guard.disk = l.guard.state) ∧
    ∀ s ∈ l.allowed, hashPayload s.payload = hashPayload r.payload → s.payload = r.payload
  | _ => True

namespace Guarded
variable {hashPayload : Bytes → String} {l : SignLog}

theorem reload (kept : Guarded hashPayload l) :
    Guarded hashPayload ⟨Guard.init (some l.guard.disk), l.allowed⟩ :=
  ⟨kept.written, kept.bytes, le_refl _, kept.ordered, kept.unique⟩

theorem below (kept : Guarded hashPayload l) {r : SignRequest}
    (above : l.guard.state.point < r.point) : ∀ s ∈ l.allowed, s.point < r.point :=
  fun s allowed => ((kept.written s allowed).trans kept.ahead).trans_lt above

theorem unwritten (kept : Guarded hashPayload l) {r : SignRequest}
    (above : l.guard.state.point < r.point) :
    Guarded hashPayload ⟨{ l.guard with state := r.record hashPayload }, l.allowed⟩ :=
  ⟨kept.written, kept.bytes, (kept.ahead.trans_lt above).le, kept.ordered, kept.unique⟩

theorem recordedOnly (kept : Guarded hashPayload l) {r : SignRequest}
    (above : l.guard.state.point < r.point) :
    Guarded hashPayload ⟨⟨r.record hashPayload, r.record hashPayload⟩, l.allowed⟩ where
  written s allowed := (kept.below above s allowed).le
  bytes s allowed same := absurd same (kept.below above s allowed).ne
  ahead := le_refl _
  ordered := kept.ordered
  unique := kept.unique

theorem allow (kept : Guarded hashPayload l) {r : SignRequest}
    (point : r.point = l.guard.disk.point)
    (bytes : l.guard.disk.lastSignBytesHex = (r.record hashPayload).lastSignBytesHex)
    (agrees : ∀ s ∈ l.allowed, s.point = r.point → s.payload = r.payload) :
    Guarded hashPayload ⟨l.guard, r :: l.allowed⟩ := by
  constructor
  · intro s allowed
    rcases List.mem_cons.mp allowed with rfl | allowed
    · exact point.le
    · exact kept.written s allowed
  · intro s allowed same
    rcases List.mem_cons.mp allowed with rfl | allowed
    · exact bytes
    · exact kept.bytes s allowed same
  · exact kept.ahead
  · exact List.pairwise_cons.mpr ⟨fun s allowed => point ▸ kept.written s allowed, kept.ordered⟩
  · intro s allowed t allowed' same
    rcases List.mem_cons.mp allowed with rfl | older <;>
      rcases List.mem_cons.mp allowed' with rfl | older'
    · rfl
    · exact (agrees t older' same.symm).symm
    · exact agrees s older same
    · exact kept.unique s older t older' same

theorem request (kept : Guarded hashPayload l) {persisted : Bool} {r : SignRequest}
    (guarded : r.step ≠ .other) (meets : Replayable hashPayload l (.request persisted r)) :
    Guarded hashPayload (l.step hashPayload (.request persisted r)) := by
  have answer := ask_answer hashPayload l.guard persisted guarded
  simp only [SignLog.step]
  generalize l.guard.ask hashPayload persisted r = result at answer
  cases answer with
  | refused => exact kept
  | replayed same nonempty hash known =>
    have onDisk := meets.1 same hash
    refine kept.allow (by rw [onDisk, same]) (by rw [onDisk, hash, SignRequest.record,
      if_pos nonempty]) ?_
    intro s allowed here
    have digest := kept.bytes s allowed (by rw [here, onDisk, same])
    rw [onDisk, SignRequest.record] at digest
    by_cases blank : s.payload = []
    · simp only [blank, ne_eq, not_true_eq_false, if_false] at digest
      exact absurd digest known
    · simp only [ne_eq, blank, not_false_eq_true, if_true] at digest
      exact meets.2 s allowed (digest.symm.trans hash)
  | recorded above =>
    exact (kept.recordedOnly above).allow rfl rfl fun s allowed here =>
      absurd here (kept.below above s allowed).ne
  | unwritten above => exact kept.unwritten above

theorem crash (kept : Guarded hashPayload l) {written : Bool} {r : SignRequest}
    (guarded : r.step ≠ .other) : Guarded hashPayload (l.step hashPayload (.crash written r)) := by
  have answer := ask_answer hashPayload l.guard written guarded
  simp only [SignLog.step]
  generalize l.guard.ask hashPayload written r = result at answer
  cases answer with
  | refused => exact kept.reload
  | replayed => exact kept.reload
  | recorded above => exact (kept.recordedOnly above).reload
  | unwritten => exact kept.reload

end Guarded

/-- One payload for each height, round and step, never a step back, and the file
at or above everything allowed. -/
theorem never_signs_twice {hashPayload : Bytes → String} {file : Option LastSignState}
    {l : SignLog} (run : Run (guardRuns hashPayload file) (Replayable hashPayload) l) :
    (∀ r ∈ l.allowed, ∀ s ∈ l.allowed, r.height = s.height → r.round = s.round →
      r.step = s.step → r.payload = s.payload) ∧
    (l.allowed.Pairwise fun newer older => older.point ≤ newer.point) ∧
    ∀ r ∈ l.allowed, r.point ≤ l.guard.disk.point := by
  have start : Guarded hashPayload ⟨Guard.init file, []⟩ :=
    ⟨by simp, by simp, le_refl _, List.Pairwise.nil, by simp⟩
  have kept : Guarded hashPayload l := by
    refine run.invariant (Guarded hashPayload) start ?_
    intro s ev kept enabled meets
    cases ev with
    | request => exact kept.request enabled meets
    | crash => exact kept.crash enabled
    | restart => exact kept.reload
  refine ⟨?_, kept.ordered, kept.written⟩
  intro r allowed s allowed' height round step
  refine kept.unique r allowed s allowed' ?_
  rw [SignRequest.point, SignRequest.point, height, round, step]

def prevoteRequest (hash : Hash) : SignRequest :=
  ⟨10, 0, .prevote, Prevote.signingPayload 10 0 (some hash)⟩

def prevoteDigest (payload : Bytes) : String :=
  if payload = (prevoteRequest "h").payload then
    "37e04d93c0b24836664eedc8b385faa0da46ce9c7daeb0f634658b85e56d99dd"
  else if payload = (prevoteRequest "k").payload then
    "049137ae31d9f823e22f37a301917e1b4fd47e35b01b2160edf81e15fb24b1d2"
  else ""

instance (hashPayload : Bytes → String) (l : SignLog) :
    ∀ ev, Decidable (Replayable hashPayload l ev)
  | .request _ _ => inferInstanceAs (Decidable ((_ → _ → _) ∧ ∀ s ∈ l.allowed, _))
  | .crash _ _ | .restart => inferInstanceAs (Decidable True)

/-- Signed, sent again, and after a restart refused for another hash. -/
theorem prevote_signed_once : ∃ l,
    Run (guardRuns prevoteDigest none) (Replayable prevoteDigest) l ∧
      l.allowed = [prevoteRequest "h", prevoteRequest "h"] ∧
      ∀ r ∈ l.allowed, r.point ≤ l.guard.disk.point := by
  have run : Run (guardRuns prevoteDigest none) (Replayable prevoteDigest) _ :=
    Run.start.replay [.request true (prevoteRequest "h"), .request true (prevoteRequest "h"),
      .restart, .request true (prevoteRequest "k")] (by decide)
  exact ⟨_, run, by decide, (never_signs_twice run).2.2⟩

/-- The write of the first record fails, the second request passes as a repeat of
it, and after a restart another hash passes at the same point. -/
theorem failed_write_signs_twice : ∃ l,
    Run (guardRuns prevoteDigest none) (fun _ _ => True) l ∧
      ∃ r ∈ l.allowed, ∃ s ∈ l.allowed, r.height = s.height ∧ r.round = s.round ∧
        r.step = s.step ∧ r.payload ≠ s.payload :=
  ⟨_, Run.start.replay [.request false (prevoteRequest "h"), .request false (prevoteRequest "h"),
    .restart, .request true (prevoteRequest "k")] (by decide), by decide⟩

end SentrixGuard
