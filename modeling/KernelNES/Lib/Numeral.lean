import Mathlib.Data.Nat.Digits.Lemmas

/-!
# Lib — Numeral

Numbers written out, high digit first.  `IsNumeral b n ds`: `ds` reads as `n` in base `b`, and has
no leading zero.  Each number has one numeral (`IsNumeral.unique`): its digits, turned round.
-/

namespace KernelNES.Lib

variable {b n : Nat} {ds ds' : List Nat}

/-- Read digits from left to right. -/
def readNumeral (b : Nat) (ds : List Nat) : Nat := ds.foldl (fun v d => b * v + d) 0

/-- Reading a numeral is `Nat.ofDigits`, of its digits from the last. -/
theorem readNumeral_eq_ofDigits (b : Nat) (ds : List Nat) :
    readNumeral b ds = Nat.ofDigits b ds.reverse := by
  rw [Nat.ofDigits_eq_foldr, List.foldr_reverse, readNumeral]
  simp only [Nat.cast_id, Nat.add_comm]

/-- The digits `ds` are the numeral of `n`. -/
structure IsNumeral (b n : Nat) (ds : List Nat) : Prop where
  ne_nil : ds ≠ []
  lt_base : ∀ d ∈ ds, d < b
  no_leading_zero : ds.head? = some 0 → ds = [0]
  reads : readNumeral b ds = n

/-- Zero is written with one digit. -/
theorem isNumeral_zero (hb : 0 < b) : IsNumeral b 0 [0] where
  ne_nil := List.cons_ne_nil 0 []
  lt_base := by simpa using hb
  no_leading_zero := fun _ => rfl
  reads := rfl

/-- Repeated division gives the digits from the right. -/
theorem isNumeral_digits (hb : 1 < b) (hn : n ≠ 0) : IsNumeral b n (Nat.digits b n).reverse where
  ne_nil := by simpa using Nat.digits_ne_nil_iff_ne_zero.mpr hn
  lt_base := fun d hd => Nat.digits_lt_base hb (List.mem_reverse.mp hd)
  no_leading_zero := by
    intro h
    rw [List.head?_reverse, List.getLast?_eq_getLast_of_ne_nil
      (Nat.digits_ne_nil_iff_ne_zero.mpr hn)] at h
    exact absurd (Option.some.inj h) (Nat.getLast_digit_ne_zero b hn)
  reads := by rw [readNumeral_eq_ofDigits, List.reverse_reverse, Nat.ofDigits_digits]

namespace IsNumeral

/-- A numeral other than `0` is what repeated division gives. -/
theorem eq_digits (hb : 1 < b) (h : IsNumeral b n ds) (hds : ds ≠ [0]) :
    ds.reverse = Nat.digits b n := by
  rw [← h.reads, readNumeral_eq_ofDigits, Nat.digits_ofDigits b hb]
  · exact fun d hd => h.lt_base d (List.mem_reverse.mp hd)
  · intro hne hzero
    refine hds (h.no_leading_zero ?_)
    rw [List.getLast_reverse] at hzero
    rw [List.head?_eq_some_head h.ne_nil, hzero]

/-- **A number has one numeral.** -/
theorem unique (hb : 1 < b) (h : IsNumeral b n ds) (h' : IsNumeral b n ds') : ds = ds' := by
  have zero_only : ∀ {ds ds' : List Nat}, IsNumeral b n ds → IsNumeral b n ds' → ds = [0] →
      ds' = [0] := by
    rintro _ ds' h h' rfl
    have hn : n = 0 := h.reads.symm
    by_contra hne
    have hnil := h'.eq_digits hb hne
    rw [hn, Nat.digits_zero, List.reverse_eq_nil_iff] at hnil
    exact h'.ne_nil hnil
  by_cases hds : ds = [0]
  · rw [hds, zero_only h h' hds]
  · have hds' : ds' ≠ [0] := fun e => hds (zero_only h' h e)
    exact List.reverse_injective ((h.eq_digits hb hds).trans (h'.eq_digits hb hds').symm)

end IsNumeral

end KernelNES.Lib
