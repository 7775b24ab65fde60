import Mathlib

/-!
Runs of a deterministic system under a nondeterministic schedule. Each step is chosen by
an event; `Run` collects the states reached when every step was enabled and met a side
condition `ok`, which is where a theorem states what it asks of a run.
-/
namespace Runs
variable {σ ι : Type}

structure System (σ ι : Type) where
  init : σ
  enabled : σ → ι → Prop
  step : σ → ι → σ

inductive Run (sys : System σ ι) (ok : σ → ι → Prop) : σ → Prop where
  | start : Run sys ok sys.init
  | next {s : σ} {i : ι} (run : Run sys ok s) (enabled : sys.enabled s i) (met : ok s i) :
      Run sys ok (sys.step s i)

variable {sys : System σ ι} {ok : σ → ι → Prop}

theorem Run.invariant {s : σ} (inv : σ → Prop) (start : inv sys.init)
    (preserved : ∀ s i, inv s → sys.enabled s i → ok s i → inv (sys.step s i))
    (run : Run sys ok s) : inv s := by
  induction run with
  | start => exact start
  | next run enabled met ih => exact preserved _ _ ih enabled met

theorem Run.weaken {ok' : σ → ι → Prop} {s : σ} (run : Run sys ok s)
    (weaker : ∀ s i, ok s i → ok' s i) : Run sys ok' s := by
  induction run with
  | start => exact .start
  | next run enabled met ih => exact .next ih enabled (weaker _ _ met)

def System.replay (sys : System σ ι) : σ → List ι → σ
  | s, [] => s
  | s, i :: rest => sys.replay (sys.step s i) rest

def System.Legal (sys : System σ ι) (ok : σ → ι → Prop) : σ → List ι → Prop
  | _, [] => True
  | s, i :: rest => sys.enabled s i ∧ ok s i ∧ sys.Legal ok (sys.step s i) rest

instance System.decidableLegal (sys : System σ ι) (ok : σ → ι → Prop)
    [∀ s i, Decidable (sys.enabled s i)] [∀ s i, Decidable (ok s i)] :
    ∀ s l, Decidable (sys.Legal ok s l)
  | _, [] => inferInstanceAs (Decidable True)
  | s, i :: rest =>
    have := System.decidableLegal sys ok (sys.step s i) rest
    inferInstanceAs (Decidable (sys.enabled s i ∧ ok s i ∧ sys.Legal ok (sys.step s i) rest))

theorem Run.replay {s : σ} (run : Run sys ok s) (l : List ι) (legal : sys.Legal ok s l) :
    Run sys ok (sys.replay s l) := by
  induction l generalizing s with
  | nil => exact run
  | cons i rest ih =>
    obtain ⟨enabled, met, tail⟩ := legal
    exact ih (.next run enabled met) tail

end Runs
