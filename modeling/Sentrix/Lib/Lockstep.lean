import Sentrix.Lib.Effects

/-!
Two runs side by side. `Lockstep R m n` says that from states related by `R` the
computations `m` and `n` either both succeed, with the same value, or both fail, and
that the states they leave are related again.
-/
namespace Effects
variable {ε σ τ α β : Type} {R : σ → σ → Prop}

inductive Agree (R : σ → σ → Prop) : EStateM.Result ε σ α → EStateM.Result ε σ α → Prop where
  | ok {a : α} {s t : σ} (related : R s t) : Agree R (.ok a s) (.ok a t)
  | error {e e' : ε} {s t : σ} (related : R s t) : Agree R (.error e s) (.error e' t)

def Lockstep (R : σ → σ → Prop) (m n : EStateM ε σ α) : Prop :=
  ∀ s t, R s t → Agree R (m s) (n t)

namespace Lockstep

theorem pure (a : α) : Lockstep R (pure a : EStateM ε σ α) (pure a) :=
  fun _ _ related => .ok related

theorem throw (e e' : ε) : Lockstep R (throw e : EStateM ε σ α) (throw e') :=
  fun _ _ related => .error related

theorem bind {m n : EStateM ε σ α} {f g : α → EStateM ε σ β} (first : Lockstep R m n)
    (rest : ∀ a, Lockstep R (f a) (g a)) : Lockstep R (m >>= f) (n >>= g) := by
  intro s t related
  have agree := first s t related
  show Agree R (EStateM.bind m f s) (EStateM.bind n g t)
  unfold EStateM.bind
  generalize m s = left, n t = right at agree
  cases agree with
  | ok after => exact rest _ _ _ after
  | error after => exact .error after

theorem get_bind {f g : σ → EStateM ε σ β}
    (rest : ∀ s t, R s t → Lockstep R (f s) (g t)) :
    Lockstep R (do let s ← get; f s) (do let t ← get; g t) :=
  fun s t related => rest s t related s t related

theorem modify {f g : σ → σ} (each : ∀ s t, R s t → R (f s) (g t)) :
    Lockstep R (modify f : EStateM ε σ PUnit) (modify g) :=
  fun s t related => .ok (each s t related)

theorem set {x y : σ} (related : R x y) : Lockstep R (set x : EStateM ε σ PUnit) (set y) :=
  fun _ _ _ => .ok related

theorem ite {c : Prop} [Decidable c] {m n m' n' : EStateM ε σ α} (yes : Lockstep R m n)
    (no : Lockstep R m' n') : Lockstep R (if c then m else m') (if c then n else n') := by
  split
  · exact yes
  · exact no

theorem ensure (c : Bool) (e e' : ε) :
    Lockstep R (ensure c e : EStateM ε σ Unit) (Effects.ensure c e') :=
  Lockstep.ite (Lockstep.pure ()) (Lockstep.throw e e')

theorem fromOption (v : Option α) (e e' : ε) :
    Lockstep R (fromOption v e : EStateM ε σ α) (Effects.fromOption v e') := by
  cases v with
  | none => exact Lockstep.throw e e'
  | some a => exact Lockstep.pure a

theorem fromOption_bind {γ : Type} {key : α → γ} {v v' : Option α} {e e' : ε}
    {f g : α → EStateM ε σ β} (same : v.map key = v'.map key)
    (rest : ∀ a a', key a = key a' → Lockstep R (f a) (g a')) :
    Lockstep R (Effects.fromOption v e >>= f) (Effects.fromOption v' e' >>= g) := by
  intro s t related
  cases v with
  | none =>
    cases v' with
    | none => exact .error related
    | some a' => simp at same
  | some a =>
    cases v' with
    | none => simp at same
    | some a' => exact rest a a' (by simpa using same) s t related

theorem focus {read : σ → τ} {write : σ → τ → σ} (reads : ∀ s t, R s t → read s = read t)
    (writes : ∀ s t u, R s t → R (write s u) (write t u)) (m : EStateM ε τ α) :
    Lockstep R (focus read write m) (Effects.focus read write m) := by
  intro s t related
  unfold Effects.focus
  rw [reads s t related]
  cases m (read t) with
  | ok a u => exact .ok (writes s t u related)
  | error e u => exact .error (writes s t u related)

theorem forM {f g : α → EStateM ε σ PUnit} (each : ∀ a, Lockstep R (f a) (g a)) :
    ∀ l : List α, Lockstep R (l.forM f) (l.forM g) := by
  intro l
  induction l with
  | nil => exact Lockstep.pure _
  | cons a rest ih => exact Lockstep.bind (each a) fun _ => ih

theorem both_ok {m n : EStateM ε σ α} (together : Lockstep R m n) {s t s' t' : σ} {a a' : α}
    (related : R s t) (ran : m s = .ok a s') (ran' : n t = .ok a' t') : a = a' ∧ R s' t' := by
  have agree := together _ _ related
  rw [ran, ran'] at agree
  cases agree with
  | ok after => exact ⟨rfl, after⟩

theorem follows {m n : EStateM ε σ α} (together : Lockstep R m n) {s t s' : σ} {a : α}
    (related : R s t) (ran : m s = .ok a s') : ∃ t', n t = .ok a t' ∧ R s' t' := by
  have agree := together _ _ related
  rw [ran] at agree
  generalize second : n t = result at agree
  cases agree with
  | ok after => exact ⟨_, rfl, after⟩

end Lockstep
end Effects
