import Mathlib

/-!
Fallible computations that mutate a state and keep what they mutated when they fail:
`EStateM ε σ`. The lemmas below take a successful run apart, and carry a relation
between the states before and after through it.
-/
namespace Effects
open List
variable {ε σ τ α β : Type}

/-- Run on one component of a larger state, success or not. -/
def focus (read : σ → τ) (write : σ → τ → σ) (m : EStateM ε τ α) : EStateM ε σ α := fun s =>
  match m (read s) with
  | .ok a t => .ok a (write s t)
  | .error e t => .error e (write s t)

def ensure (condition : Bool) (e : ε) : EStateM ε σ Unit :=
  if condition then pure () else throw e

def fromOption (value : Option α) (e : ε) : EStateM ε σ α :=
  match value with
  | some a => pure a
  | none => throw e

def fromExcept (value : Except ε α) : EStateM ε σ α :=
  match value with
  | .ok a => pure a
  | .error e => throw e

/-- A failure is swallowed; what it had mutated stays. -/
def ignoreError (m : EStateM ε σ Unit) : EStateM ε σ Unit := fun s =>
  match m s with
  | .ok _ t => .ok () t
  | .error _ t => .ok () t

def finalState (m : EStateM ε σ α) (s : σ) : σ :=
  match m s with
  | .ok _ t => t
  | .error _ t => t

variable {m : EStateM ε σ α}

theorem finalState_ok {s t : σ} {a : α} (ran : m s = .ok a t) : finalState m s = t := by
  unfold finalState
  rw [ran]

theorem finalState_error {s t : σ} {e : ε} (ran : m s = .error e t) : finalState m s = t := by
  unfold finalState
  rw [ran]

theorem finalState_modify_bind {f : σ → σ} {s : σ} :
    finalState (do modify f; m) s = finalState m (f s) := rfl

theorem finalState_ensure_bind {c : Bool} {e : ε} {s : σ} :
    finalState (do ensure c e; m) s = if c then finalState m s else s := by
  cases c <;> rfl

theorem finalState_fromOption_bind {v : Option α} {e : ε} {f : α → EStateM ε σ β} {s : σ} :
    finalState (do let a ← fromOption v e; f a) s = (v.map fun a => finalState (f a) s).getD s := by
  cases v <;> rfl

theorem finalState_get_bind {f : σ → EStateM ε σ α} {s : σ} :
    finalState (do let t ← get; f t) s = finalState (f s) s := rfl

def succeeds (m : EStateM ε σ α) (s : σ) : Bool :=
  match m s with
  | .ok _ _ => true
  | .error _ _ => false

theorem succeeds_iff {s : σ} : succeeds m s = true ↔ ∃ a t, m s = .ok a t := by
  unfold succeeds
  cases m s <;> simp

theorem succeeds_of_error {s t : σ} {e : ε} (ran : m s = .error e t) : succeeds m s = false := by
  unfold succeeds
  rw [ran]

theorem error_of_not_succeeds {s : σ} (failed : succeeds m s = false) :
    ∃ e, m s = .error e (finalState m s) := by
  unfold succeeds finalState at *
  cases ran : m s with
  | ok => simp [ran] at failed
  | error e => exact ⟨e, rfl⟩

theorem ok_of_succeeds {m : EStateM ε σ Unit} {s : σ} (ran : succeeds m s = true) :
    m s = .ok () (finalState m s) := by
  obtain ⟨_, t, ran⟩ := succeeds_iff.mp ran
  rw [ran, finalState_ok ran]

theorem toOption_eq_some {x : Except ε α} {a : α} (found : x.toOption = some a) : x = .ok a := by
  cases x with
  | error => cases found
  | ok => cases found; rfl

section
variable {s t : σ} {a : α} {b : β} {e : ε}

theorem bind_ok {m : EStateM ε σ α} {f : α → EStateM ε σ β} :
    (m >>= f) s = .ok b t ↔ ∃ a u, m s = .ok a u ∧ f a u = .ok b t := by
  show EStateM.bind m f s = _ ↔ _
  unfold EStateM.bind
  cases m s <;> simp

variable {u : σ}

theorem bind_of_ok {m : EStateM ε σ α} {f : α → EStateM ε σ β} (first : m s = .ok a u) :
    (m >>= f) s = f a u := by
  show EStateM.bind m f s = _
  unfold EStateM.bind
  rw [first]

theorem seq_ok {m : EStateM ε σ PUnit} {n : EStateM ε σ β} :
    (do m; n) s = .ok b t ↔ ∃ u, m s = .ok ⟨⟩ u ∧ n u = .ok b t := by
  rw [bind_ok]
  constructor
  · rintro ⟨_, u, first, rest⟩
    exact ⟨u, first, rest⟩
  · rintro ⟨u, first, rest⟩
    exact ⟨_, u, first, rest⟩

theorem pure_ok : (pure a : EStateM ε σ α) s = .ok b' t ↔ a = b' ∧ s = t := by
  show EStateM.Result.ok a s = _ ↔ _
  simp

theorem throw_ok : ¬ (throw e : EStateM ε σ α) s = .ok a t := by
  show ¬ EStateM.Result.error e s = _
  simp

theorem get_ok : (get : EStateM ε σ σ) s = .ok u t ↔ u = s ∧ t = s := by
  show EStateM.Result.ok s s = _ ↔ _
  simp [eq_comm]

theorem set_ok : (set u : EStateM ε σ PUnit) s = .ok ⟨⟩ t ↔ t = u := by
  show EStateM.Result.ok PUnit.unit u = _ ↔ _
  simp [eq_comm]

theorem modify_ok {f : σ → σ} : (modify f : EStateM ε σ PUnit) s = .ok ⟨⟩ t ↔ t = f s := by
  show EStateM.Result.ok PUnit.unit (f s) = _ ↔ _
  simp [eq_comm]

theorem ensure_ok {c : Bool} {u : Unit} :
    (ensure c e : EStateM ε σ Unit) s = .ok u t ↔ c = true ∧ t = s := by
  unfold ensure
  cases c
  · simpa using throw_ok
  · simp [pure_ok, eq_comm]

theorem fromOption_ok {v : Option α} :
    (fromOption v e : EStateM ε σ α) s = .ok a t ↔ v = some a ∧ t = s := by
  cases v with
  | none => simpa [fromOption] using throw_ok
  | some => simp [fromOption, pure_ok, eq_comm]

theorem fromExcept_ok {v : Except ε α} :
    (fromExcept v : EStateM ε σ α) s = .ok a t ↔ v = .ok a ∧ t = s := by
  cases v with
  | error => simpa [fromExcept] using throw_ok
  | ok => simp [fromExcept, pure_ok, eq_comm]

theorem focus_ok {read : σ → τ} {write : σ → τ → σ} {m : EStateM ε τ α} :
    focus read write m s = .ok a t ↔ ∃ u, m (read s) = .ok a u ∧ t = write s u := by
  unfold focus
  cases m (read s) <;> simp [eq_comm]

end

section
variable {s t : σ} {a : α} {b : β} {e : ε}

theorem get_bind_ok {f : σ → EStateM ε σ β} (ran : (get >>= f) s = .ok b t) : f s s = .ok b t := ran

theorem modify_bind_ok {f : σ → σ} {m : EStateM ε σ β} (ran : (do modify f; m) s = .ok b t) :
    m (f s) = .ok b t := ran

theorem ensure_bind_ok {c : Bool} {m : EStateM ε σ β} (ran : (do ensure c e; m) s = .ok b t) :
    c = true ∧ m s = .ok b t := by
  obtain ⟨_, u, passed, rest⟩ := bind_ok.mp ran
  obtain ⟨holds, rfl⟩ := ensure_ok.mp passed
  exact ⟨holds, rest⟩

theorem fromOption_bind_ok {v : Option α} {f : α → EStateM ε σ β}
    (ran : (fromOption v e >>= f) s = .ok b t) : ∃ a, v = some a ∧ f a s = .ok b t := by
  obtain ⟨a, u, passed, rest⟩ := bind_ok.mp ran
  obtain ⟨found, rfl⟩ := fromOption_ok.mp passed
  exact ⟨a, found, rest⟩

end

section
variable {s t : σ} {a : α} {b : β} {e : ε}

theorem bind_error {m : EStateM ε σ α} {f : α → EStateM ε σ β} :
    (m >>= f) s = .error e t ↔ m s = .error e t ∨ ∃ a u, m s = .ok a u ∧ f a u = .error e t := by
  show EStateM.bind m f s = _ ↔ _
  unfold EStateM.bind
  cases m s <;> simp

theorem modify_error {f : σ → σ} : ¬ (modify f : EStateM ε σ PUnit) s = .error e t := by
  show ¬ EStateM.Result.ok PUnit.unit (f s) = _
  simp

theorem pure_error : ¬ (pure a : EStateM ε σ α) s = .error e t := by
  show ¬ EStateM.Result.ok a s = _
  simp

variable {e' : ε}

theorem ensure_error {c : Bool} :
    (ensure c e' : EStateM ε σ Unit) s = .error e t ↔ c = false ∧ e = e' ∧ t = s := by
  cases c
  · show EStateM.Result.error e' s = _ ↔ _
    simp [eq_comm]
  · simpa [ensure] using pure_error

theorem get_bind_error {f : σ → EStateM ε σ β} (failed : (get >>= f) s = .error e t) :
    f s s = .error e t := failed

theorem ensure_modify_error {c : Bool} {f : σ → σ}
    (failed : (do ensure c e'; modify f : EStateM ε σ PUnit) s = .error e t) : t = s := by
  rcases bind_error.mp failed with refused | ⟨_, _, _, impossible⟩
  · exact (ensure_error.mp refused).2.2
  · exact absurd impossible modify_error

theorem fromOption_error {v : Option α} :
    (fromOption v e' : EStateM ε σ α) s = .error e t ↔ v = none ∧ e = e' ∧ t = s := by
  cases v with
  | none =>
    show EStateM.Result.error e' s = _ ↔ _
    simp [eq_comm]
  | some => simpa [fromOption] using pure_error

theorem fromExcept_error {v : Except ε α} :
    (fromExcept v : EStateM ε σ α) s = .error e t ↔ v = .error e ∧ t = s := by
  cases v with
  | error w =>
    show EStateM.Result.error w s = _ ↔ _
    simp [eq_comm]
  | ok => simpa [fromExcept] using pure_error

end

/-- `read` is the same before and after, success or not. -/
def Keeps {γ : Type} (read : σ → γ) (m : EStateM ε σ α) : Prop :=
  ∀ s, read (finalState m s) = read s

namespace Keeps
variable {γ : Type} {read : σ → γ}

theorem pure (a : α) : Keeps read (pure a : EStateM ε σ α) := fun _ => rfl

theorem throw (e : ε) : Keeps read (throw e : EStateM ε σ α) := fun _ => rfl

theorem get : Keeps read (get : EStateM ε σ σ) := fun _ => rfl

theorem modify {f : σ → σ} (same : ∀ s, read (f s) = read s) :
    Keeps read (modify f : EStateM ε σ PUnit) := fun s => same s

variable {m : EStateM ε σ α}

theorem bind {f : α → EStateM ε σ β} (first : Keeps read m) (rest : ∀ a, Keeps read (f a)) :
    Keeps read (m >>= f) := by
  intro s
  have before := first s
  show read (finalState (EStateM.bind m f) s) = read s
  unfold finalState EStateM.bind at *
  cases ran : m s with
  | ok a t =>
    simp only [ran] at before ⊢
    exact (rest a t).trans before
  | error =>
    simp only [ran] at before ⊢
    exact before

theorem ite {c : Prop} [Decidable c] {n : EStateM ε σ α} (yes : Keeps read m) (no : Keeps read n) :
    Keeps read (if c then m else n) := by
  split
  · exact yes
  · exact no

theorem ensure (c : Bool) (e : ε) : Keeps read (ensure c e : EStateM ε σ Unit) :=
  Keeps.ite (Keeps.pure ()) (Keeps.throw e)

theorem fromOption (v : Option α) (e : ε) : Keeps read (fromOption v e : EStateM ε σ α) := by
  cases v with
  | none => exact Keeps.throw e
  | some a => exact Keeps.pure a

theorem focus {part : σ → τ} {write : σ → τ → σ} (same : ∀ s t, read (write s t) = read s)
    (m : EStateM ε τ α) : Keeps read (focus part write m) := by
  intro s
  unfold finalState Effects.focus
  cases m (part s) <;> exact same s _

theorem ok (kept : Keeps read m) {s t : σ} {a : α} (ran : m s = .ok a t) : read t = read s := by
  have final := kept s
  unfold finalState at final
  rw [ran] at final
  exact final

theorem error (kept : Keeps read m) {s t : σ} {e : ε} (ran : m s = .error e t) :
    read t = read s := by
  have final := kept s
  unfold finalState at final
  rw [ran] at final
  exact final

end Keeps

/-- The final state, success or not, is reached from the first by steps of a kind. -/
def Steps (step : σ → σ → Prop) (m : EStateM ε σ α) : Prop :=
  ∀ s, Relation.ReflTransGen step s (finalState m s)

namespace Steps
variable {step : σ → σ → Prop}

theorem pure (a : α) : Steps step (pure a : EStateM ε σ α) := fun _ => .refl

theorem throw (e : ε) : Steps step (throw e : EStateM ε σ α) := fun _ => .refl

theorem get : Steps step (get : EStateM ε σ σ) := fun _ => .refl

variable {m : EStateM ε σ α}

theorem single (one : ∀ s, step s (finalState m s)) : Steps step m :=
  fun s => .single (one s)

theorem modify {f : σ → σ} (one : ∀ s, step s (f s)) :
    Steps step (modify f : EStateM ε σ PUnit) := fun s => .single (one s)

theorem bind {f : α → EStateM ε σ β} (first : Steps step m) (rest : ∀ a, Steps step (f a)) :
    Steps step (m >>= f) := by
  intro s
  have before := first s
  show Relation.ReflTransGen step s (finalState (EStateM.bind m f) s)
  unfold finalState EStateM.bind at *
  cases ran : m s with
  | ok a t =>
    simp only [ran] at before ⊢
    exact before.trans (rest a t)
  | error =>
    simp only [ran] at before ⊢
    exact before

theorem ite {c : Prop} [Decidable c] {n : EStateM ε σ α} (yes : Steps step m) (no : Steps step n) :
    Steps step (if c then m else n) := by
  split
  · exact yes
  · exact no

theorem ensure (c : Bool) (e : ε) : Steps step (ensure c e : EStateM ε σ Unit) :=
  Steps.ite (Steps.pure ()) (Steps.throw e)

theorem fromOption (v : Option α) (e : ε) : Steps step (fromOption v e : EStateM ε σ α) := by
  cases v with
  | none => exact Steps.throw e
  | some a => exact Steps.pure a

theorem forM {f : α → EStateM ε σ PUnit} (each : ∀ a, Steps step (f a)) :
    ∀ l : List α, Steps step (l.forM f) := by
  intro l
  induction l with
  | nil => exact Steps.pure _
  | cons a _ ih => exact Steps.bind (each a) fun _ => ih

theorem focus {part : σ → τ} {write : σ → τ → σ} (one : ∀ s t, step s (write s t))
    (m : EStateM ε τ α) : Steps step (focus part write m) := by
  apply Steps.single
  intro s
  unfold finalState Effects.focus
  cases m (part s) <;> exact one s _

theorem keeps {γ : Type} {read : σ → γ} (steps : Steps (fun s t => read t = read s) m) :
    Keeps read m := by
  intro s
  have path := steps s
  generalize finalState m s = final at path ⊢
  induction path with
  | refl => rfl
  | tail _ last ih => exact last.trans ih

theorem ok (steps : Steps step m) {s t : σ} {a : α} (ran : m s = .ok a t) :
    Relation.ReflTransGen step s t := by
  have final := steps s
  unfold finalState at final
  rw [ran] at final
  exact final

end Steps

section
variable {γ : Type} (read : σ → γ) {f : σ → α → σ} {l : List α}

theorem foldl_skips (each : ∀ a ∈ l, ∀ s, read (f s a) = read s) (s : σ) :
    read (l.foldl f s) = read s := by
  induction l generalizing s with
  | nil => rfl
  | cons a _ ih =>
    rw [foldl_cons, ih fun b inside => each b (mem_cons_of_mem _ inside),
      each a mem_cons_self]

theorem foldl_keeps (each : ∀ s a, read (f s a) = read s) (l : List α) (s : σ) :
    read (l.foldl f s) = read s :=
  foldl_skips read (fun a _ s => each s a) s

theorem foldl_once (change : γ → γ) {a : α} (distinct : l.Nodup) (inside : a ∈ l)
    (mine : ∀ s, read (f s a) = change (read s))
    (others : ∀ b ∈ l, b ≠ a → ∀ s, read (f s b) = read s) (s : σ) :
    read (l.foldl f s) = change (read s) := by
  obtain ⟨before, after, rfl⟩ := append_of_mem inside
  obtain ⟨-, rest, apart⟩ := List.nodup_append.mp distinct
  have early : ∀ b ∈ before, b ≠ a := fun b early => apart b early a mem_cons_self
  have late : ∀ b ∈ after, b ≠ a := fun b late same => (List.nodup_cons.mp rest).1 (same ▸ late)
  rw [foldl_append, foldl_cons,
    foldl_skips read fun b inside => others b (by simp [inside]) (late b inside), mine,
    foldl_skips read fun b inside => others b (by simp [inside]) (early b inside)]

end

theorem except_bind_ok {x : Except ε α} {f : α → Except ε β} {b : β} :
    (x >>= f) = .ok b ↔ ∃ a, x = .ok a ∧ f a = .ok b := by
  cases x <;> simp [bind, Except.bind]

end Effects
