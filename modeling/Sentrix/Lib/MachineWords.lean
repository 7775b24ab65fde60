import Mathlib

/-!
Fixed-width unsigned arithmetic written on natural numbers: the saturating, wrapping and
checked operations of 32- and 64-bit words, and little-endian byte strings.
-/
namespace MachineWords

def u32Max : Nat := 2 ^ 32 - 1

def u64Max : Nat := 2 ^ 64 - 1

abbrev Word32 := Fin (2 ^ 32)

theorem Word32.val_le (w : Word32) : w.val ≤ u32Max :=
  Nat.le_sub_one_of_lt w.isLt

def satAdd (top a b : Nat) : Nat :=
  min (a + b) top

def satAdd32 : Nat → Nat → Nat :=
  satAdd u32Max

def satAdd64 : Nat → Nat → Nat :=
  satAdd u64Max

/-- Addition as an optimised build computes it: overflow is not trapped. -/
def wrapAdd64 (a b : Nat) : Nat :=
  (a + b) % 2 ^ 64

def checkedAdd64 (a b : Nat) : Option Nat :=
  if a + b ≤ u64Max then some (a + b) else none

def checkedSub (a b : Nat) : Option Nat :=
  if b ≤ a then some (a - b) else none

/-- The `width` low bytes of a number, lowest first. -/
def leBytes : Nat → Nat → List UInt8
  | 0, _ => []
  | width + 1, n => UInt8.ofNat n :: leBytes width (n / 256)

theorem satAdd_eq_add {top a b : Nat} (fits : a + b ≤ top) : satAdd top a b = a + b :=
  Nat.min_eq_left fits

theorem wrapAdd64_eq_add {a b : Nat} (fits : a + b ≤ u64Max) : wrapAdd64 a b = a + b := by
  unfold u64Max at fits
  exact Nat.mod_eq_of_lt (by omega)

theorem checkedAdd64_eq_some {a b c : Nat} (ok : checkedAdd64 a b = some c) :
    c = a + b ∧ a + b ≤ u64Max := by
  unfold checkedAdd64 at ok
  split at ok
  · rename_i fits
    exact ⟨(Option.some.inj ok).symm, fits⟩
  · cases ok

theorem checkedSub_eq_some {a b c : Nat} (ok : checkedSub a b = some c) :
    c = a - b ∧ b ≤ a := by
  unfold checkedSub at ok
  split at ok
  · rename_i fits
    exact ⟨(Option.some.inj ok).symm, fits⟩
  · cases ok

theorem length_leBytes (width n : Nat) : (leBytes width n).length = width := by
  induction width generalizing n with
  | zero => rfl
  | succ width ih => simp [leBytes, ih]

/-- Fixed-width encodings of numbers that fit are injective. -/
theorem leBytes_inj {width a b : Nat} (fits_a : a < 256 ^ width) (fits_b : b < 256 ^ width)
    (same : leBytes width a = leBytes width b) : a = b := by
  induction width generalizing a b with
  | zero => simp at fits_a fits_b; omega
  | succ width ih =>
    simp only [leBytes, List.cons.injEq] at same
    obtain ⟨low, high⟩ := same
    have low_mod : a % 256 = b % 256 := by
      have := congrArg UInt8.toNat low
      simpa using this
    have high_eq : a / 256 = b / 256 := by
      apply ih _ _ high
      · rw [Nat.pow_succ] at fits_a; omega
      · rw [Nat.pow_succ] at fits_b; omega
    omega

end MachineWords
