import Sentrix.Lib.Effects

/-!
Computations that check first and write last: when one fails, nothing has been
written. The rules follow the shape of such code, check by check.
-/
namespace Effects
variable {ε σ α β : Type}

section
variable {s t : σ} {e : ε}

theorem ensure_bind_refused {c : Bool} {e' : ε} {m : EStateM ε σ β}
    (failed : (do ensure c e'; m) s = .error e t) :
    c = false ∧ t = s ∨ c = true ∧ m s = .error e t := by
  rcases bind_error.mp failed with refused | ⟨_, u, passed, later⟩
  · obtain ⟨lacks, -, same⟩ := ensure_error.mp refused
    exact .inl ⟨lacks, same⟩
  · obtain ⟨held, rfl⟩ := ensure_ok.mp passed
    exact .inr ⟨held, later⟩

theorem ensure_bind_error {c : Bool} {e' : ε} {m : EStateM ε σ β}
    (failed : (do ensure c e'; m) s = .error e t) : t = s ∨ c = true ∧ m s = .error e t :=
  (ensure_bind_refused failed).imp_left And.right

theorem fromOption_bind_error {v : Option α} {e' : ε} {f : α → EStateM ε σ β}
    (failed : (fromOption v e' >>= f) s = .error e t) :
    v = none ∧ t = s ∨ ∃ a, v = some a ∧ f a s = .error e t := by
  rcases bind_error.mp failed with refused | ⟨a, u, passed, later⟩
  · obtain ⟨absent, _, same⟩ := fromOption_error.mp refused
    exact .inl ⟨absent, same⟩
  · obtain ⟨found, rfl⟩ := fromOption_ok.mp passed
    exact .inr ⟨a, found, later⟩

theorem modify_bind_error {f : σ → σ} {m : EStateM ε σ β}
    (failed : (do modify f; m) s = .error e t) : m (f s) = .error e t := failed

end

/-- A failure leaves the state as it was. -/
def FailsClean (m : EStateM ε σ α) : Prop :=
  ∀ s e t, m s = .error e t → t = s

namespace FailsClean

theorem of_ok {m : EStateM ε σ α} (never : ∀ s, ∃ a t, m s = .ok a t) : FailsClean m := by
  intro s e t failed
  obtain ⟨a, u, ran⟩ := never s
  rw [ran] at failed
  cases failed

theorem set_pure (u : σ) (a : α) : FailsClean (do set u; pure a : EStateM ε σ α) :=
  of_ok fun _ => ⟨a, u, rfl⟩

theorem get_bind {f : σ → EStateM ε σ β} (rest : ∀ s, FailsClean (f s)) :
    FailsClean (get >>= f) :=
  fun s e t failed => rest s s e t (get_bind_error failed)

theorem ensure_bind {c : Bool} {e : ε} {m : EStateM ε σ β} (rest : FailsClean m) :
    FailsClean (do ensure c e; m) := by
  intro s e' t failed
  rcases ensure_bind_error failed with same | ⟨_, later⟩
  · exact same
  · exact rest _ _ _ later

theorem fromOption_bind {v : Option α} {e : ε} {f : α → EStateM ε σ β}
    (rest : ∀ a, FailsClean (f a)) : FailsClean (fromOption v e >>= f) := by
  intro s e' t failed
  rcases fromOption_bind_error failed with ⟨_, same⟩ | ⟨a, _, later⟩
  · exact same
  · exact rest a _ _ _ later

theorem keeping_bind {m : EStateM ε σ α} {f : α → EStateM ε σ β} (kept : Keeps id m)
    (rest : ∀ a, FailsClean (f a)) : FailsClean (m >>= f) := by
  intro s e t failed
  rcases bind_error.mp failed with early | ⟨a, u, ran, later⟩
  · exact kept.error early
  · have same : u = s := kept.ok ran
    rw [rest a u e t later, same]

end FailsClean
end Effects
