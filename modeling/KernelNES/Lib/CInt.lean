import Mathlib.Algebra.Order.Ring.Int
import Mathlib.Data.Int.Init

/-!
# Lib — CInt

Fixed-width C integers.  `uint8_t`, `uint16_t` and `uint32_t` (also `size_t` and a pointer) are
bit vectors.  A C `int` is an `Int` in `[-2³¹, 2³¹)`; every operation that can leave the range is
followed by `wrap32`, which is what the compiled code computes.  `/` and `%` on `int` truncate
towards zero (`Int.tdiv`, `Int.tmod`).
-/

namespace KernelNES.Lib

/-- `uint8_t`. -/
abbrev U8 := BitVec 8

/-- `uint16_t`. -/
abbrev U16 := BitVec 16

/-- `uint32_t`. -/
abbrev U32 := BitVec 32

/-- Two's complement wrap-around of a 32-bit `int`. -/
def wrap32 (x : Int) : Int := x.bmod (2 ^ 32)

/-- An `int` that fits does not wrap. -/
theorem wrap32_eq_self {x : Int} (h₁ : -2 ^ 31 ≤ x) (h₂ : x < 2 ^ 31) : wrap32 x = x :=
  Int.bmod_eq_of_le (by omega) (by omega)

theorem wrap32_of_nonneg {x : Int} (h₁ : 0 ≤ x) (h₂ : x < 2 ^ 31) : wrap32 x = x :=
  wrap32_eq_self (by omega) h₂

theorem le_wrap32 (x : Int) : -2 ^ 31 ≤ wrap32 x := by
  have h : -((2 ^ 32 : Nat) / 2 : Int) ≤ x.bmod (2 ^ 32) := Int.le_bmod (by omega)
  unfold wrap32; omega

theorem wrap32_lt (x : Int) : wrap32 x < 2 ^ 31 := by
  have h : x.bmod (2 ^ 32) < ((2 ^ 32 : Nat) + 1) / 2 := Int.bmod_lt (by omega)
  unfold wrap32; omega

/-- `wrap32 x` is the member of `[-2³¹, 2³¹)` that differs from `x` by a multiple of `2³²`. -/
theorem wrap32_cases (x : Int) :
    ∃ k, wrap32 x = x + 2 ^ 32 * k ∧ -2 ^ 31 ≤ wrap32 x ∧ wrap32 x < 2 ^ 31 := by
  have h : x.bmod (2 ^ 32) + (2 ^ 32 : Nat) * x.bdiv (2 ^ 32) = x := Int.bmod_add_bdiv x (2 ^ 32)
  refine ⟨-x.bdiv (2 ^ 32), ?_, le_wrap32 x, wrap32_lt x⟩
  unfold wrap32
  omega

@[simp] theorem wrap32_wrap32_add (x y : Int) : wrap32 (wrap32 x + y) = wrap32 (x + y) :=
  Int.bmod_add_bmod

@[simp] theorem wrap32_add_wrap32 (x y : Int) : wrap32 (x + wrap32 y) = wrap32 (x + y) :=
  Int.add_bmod_bmod

@[simp] theorem wrap32_wrap32 (x : Int) : wrap32 (wrap32 x) = wrap32 x := Int.bmod_bmod

/-- Wrapping keeps the remainder by a divisor of `2³²`. -/
theorem wrap32_emod (x : Int) {d : Int} (hd : d ∣ 2 ^ 32) : wrap32 x % d = x % d := by
  have h : wrap32 x % (2 ^ 32 : Nat) = x % (2 ^ 32 : Nat) := Int.bmod_emod
  rw [← Int.emod_emod_of_dvd (wrap32 x) hd, ← Int.emod_emod_of_dvd x hd]
  exact congrArg (· % d) h

/-- The 32 bits of an `int` are those of the number behind it. -/
theorem ofInt_wrap32 (x : Int) : BitVec.ofInt 32 (wrap32 x) = BitVec.ofInt 32 x := by
  refine BitVec.eq_of_toInt_eq ?_
  rw [BitVec.toInt_ofInt, BitVec.toInt_ofInt, wrap32, Int.bmod_bmod]

/-- C's division, of naturals. -/
theorem tdiv_natCast (a b : Nat) : (a : Int).tdiv b = ((a / b : Nat) : Int) := by
  rw [Int.tdiv_eq_ediv_of_nonneg (by omega)]; rfl

/-- C's remainder, of naturals. -/
theorem tmod_natCast (a b : Nat) : (a : Int).tmod b = ((a % b : Nat) : Int) := by
  rw [Int.tmod_eq_emod_of_nonneg (by omega)]; rfl

end KernelNES.Lib
