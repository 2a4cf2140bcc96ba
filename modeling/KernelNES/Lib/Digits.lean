import Mathlib.Data.Nat.Digits.Lemmas
import Mathlib.Tactic.Ring

/-!
# Lib — Digits

Numbers worked on digit by digit, low digit first, with a carry from each digit to the next.
`Carries B c xs rs c'`: the digits `rs` and the carry `c'` are what becomes of `xs` and the carry
`c`, where `xs` need not be below the base `B`, or positive.  No carry is lost, so the numbers are
the same (`Carries.value_add`).
-/

namespace KernelNES.Lib

variable {R : Type} [CommRing R] {B : R}

/-- The number with the given digits. -/
def value (B : R) : List R → R
  | [] => 0
  | d :: ds => d + B * value B ds

/-- From the carry `c` on, `xs` is worked off into `rs`, and the carry `c'` is left. -/
inductive Carries (B : R) : (c : R) → (xs rs : List R) → (c' : R) → Prop where
  | nil (c : R) : Carries B c [] [] c
  | cons {c c₁ c' x r : R} {xs rs : List R} (h : x + c = r + B * c₁)
      (t : Carries B c₁ xs rs c') : Carries B c (x :: xs) (r :: rs) c'

namespace Carries
variable {c c₁ c' : R} {xs rs ys ss : List R}

/-- One digit. -/
theorem one {x r : R} (h : x + c = r + B * c') : Carries B c [x] [r] c' := .cons h (.nil c')

/-- The carry out of one part goes into the next. -/
theorem append (h : Carries B c xs rs c₁) (h' : Carries B c₁ ys ss c') :
    Carries B c (xs ++ ys) (rs ++ ss) c' := by
  induction h with
  | nil => exact h'
  | cons h _ ih => exact .cons h (ih h')

/-- **No carry is lost.** -/
theorem value_add (h : Carries B c xs rs c') :
    value B xs + c = value B rs + B ^ xs.length * c' := by
  induction h with
  | nil => simp [value]
  | @cons c c₁ c' x r xs rs h _ ih =>
    simp only [value, List.length_cons, pow_succ]
    calc x + B * value B xs + c = (x + c) + B * value B xs := by ring
      _ = r + B * (value B xs + c₁) := by rw [h]; ring
      _ = r + B * value B rs + B ^ xs.length * B * c' := by rw [ih]; ring

end Carries

/-! ### Values -/

variable {α : Type} (l : List α)

theorem value_map_add (f g : α → R) :
    value B (l.map fun a => f a + g a) = value B (l.map f) + value B (l.map g) := by
  induction l with
  | nil => simp [value]
  | cons a l ih => simp only [List.map_cons, value, ih]; ring

theorem value_map_mul (k : R) (f : α → R) :
    value B (l.map fun a => k * f a) = k * value B (l.map f) := by
  induction l with
  | nil => simp [value]
  | cons a l ih => simp only [List.map_cons, value, ih]; ring

theorem value_map_sub (f g : α → R) :
    value B (l.map fun a => f a - g a) = value B (l.map f) - value B (l.map g) := by
  have h := value_map_add (B := B) l (fun a => f a - g a) g
  simp only [sub_add_cancel] at h
  rw [h, add_sub_cancel_right]

theorem value_map_zero : value B (l.map fun _ => 0) = 0 := by
  simpa using value_map_mul (B := B) l 0 fun _ => 0

/-- Over a natural base, the value of the digits is Mathlib's. -/
theorem value_natCast (b : Nat) (f : α → Nat) :
    value (b : R) (l.map fun a => (f a : R)) = (Nat.ofDigits b (l.map f) : Nat) := by
  induction l with
  | nil => simp [value]
  | cons a l ih => simp only [List.map_cons, value, ih, Nat.ofDigits_cons]; push_cast; ring

/-- With digits below the base, the digits are the remainder and the carry is the quotient. -/
theorem quotient_of_carries {b n r : Nat} {v c : Int} (hr : r < b ^ n)
    (h : v = r + (b : Int) ^ n * c) : (r : Int) = v % b ^ n ∧ c = v / b ^ n := by
  have hb : (0 : Int) < (b : Int) ^ n := by exact_mod_cast Nat.zero_lt_of_lt hr
  have hu := (Int.ediv_emod_unique hb (a := v) (r := r) (q := c)).mpr
    ⟨h.symm, Int.natCast_nonneg r, by exact_mod_cast hr⟩
  exact ⟨hu.2.symm, hu.1.symm⟩

end KernelNES.Lib
