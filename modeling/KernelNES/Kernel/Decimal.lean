import KernelNES.Kernel.Terminal
import KernelNES.Lib.Numeral
import KernelNES.Memory.Kheap

/-!
# Kernel — Decimal

`print_decimal` of `src/kernel.c`.  The digits come out of repeated division from the right; they go
into a buffer of eight, and are printed from its end.  Writing behind the buffer is a fault.
-/

namespace KernelNES.Kernel
open KernelNES.Lib KernelNES.Memory

/-- The size of `digits`. -/
def digitsSize : Nat := 8

/-- The loop that takes `value` apart: the buffer it leaves, and `i`. -/
def takeDigits (value : Int) (i : Nat) (digits : Nat → U8) : Except Fault ((Nat → U8) × Nat) :=
  if 0 < value then
    if i < digitsSize then
      takeDigits (value.tdiv 10) (i + 1)
        (Function.update digits i (BitVec.ofInt 8 (value.tmod 10) + char '0'))
    else
      .error .outOfBounds
  else
    .ok (digits, i)
termination_by value.toNat
decreasing_by
  rw [Int.tdiv_eq_ediv_of_nonneg (by omega)]
  omega

/-- The loop that prints `digits` from `n - 1` down. -/
def writeDigits (digits : Nat → U8) : (n : Nat) → StateM Terminal Unit
  | 0 => pure ()
  | j + 1 => do
    terminalWritechar (digits j) 15
    writeDigits digits j

/-- A terminal program among those that can fault. -/
def onTerminal (x : StateM Terminal Unit) : Exec Fault Terminal Unit := fun t => .ok ((), t.after x)

/-- `print_decimal`; `digits` is what the buffer holds before. -/
def printDecimal (digits : Nat → U8) (value : Int) : Exec Fault Terminal Unit :=
  if value = 0 then
    onTerminal (terminalWritechar (char '0') 15)
  else do
    let (digits, i) ← Exec.lift (takeDigits value 0 digits)
    onTerminal (writeDigits digits i)

/-! ### What a numeral is -/

/-- The digit a character stands for. -/
def digitValue (c : U8) : Nat := c.toNat - 48

/-- The characters `chars` are the decimal numeral of `n`. -/
structure IsDecimal (chars : List U8) (n : Nat) : Prop where
  digits : ∀ c ∈ chars, 48 ≤ c.toNat ∧ c.toNat ≤ 57
  numeral : IsNumeral 10 n (chars.map digitValue)

/-- The character of a digit. -/
def digit (d : Nat) : U8 := BitVec.ofNat 8 d + char '0'

theorem toNat_digit {d : Nat} (h : d < 10) : (digit d).toNat = d + 48 := by
  have h0 : char '0' = 48#8 := rfl
  rw [digit, h0, BitVec.toNat_add, BitVec.toNat_ofNat, BitVec.toNat_ofNat]
  omega

/-- The value of a digit. -/
theorem digitValue_digit {d : Nat} (h : d < 10) : digitValue (digit d) = d := by
  rw [digitValue, toNat_digit h, Nat.add_sub_cancel]

/-- The digit of a value. -/
theorem digit_digitValue {c : U8} (h₁ : 48 ≤ c.toNat) (h₂ : c.toNat ≤ 57) :
    digit (digitValue c) = c := by
  refine BitVec.eq_of_toNat_eq ?_
  rw [digitValue, toNat_digit (by omega)]
  omega

namespace IsDecimal
variable {chars chars' : List U8} {n : Nat} {ds : List Nat}

/-- A numeral of base ten, in characters. -/
theorem of_digits (h : IsNumeral 10 n ds) : IsDecimal (ds.map digit) n where
  digits := by
    intro c hc
    obtain ⟨d, hd, rfl⟩ := List.mem_map.mp hc
    have hlt := h.lt_base d hd
    rw [toNat_digit hlt]
    omega
  numeral := by
    have hds : (ds.map digit).map digitValue = ds := by
      rw [List.map_map]
      exact (List.map_congr_left fun d hd => digitValue_digit (h.lt_base d hd)).trans ds.map_id
    rwa [hds]

/-- Each character is that of its value. -/
theorem eq_map (h : IsDecimal chars n) : (chars.map digitValue).map digit = chars := by
  rw [List.map_map]
  exact (List.map_congr_left fun c hc =>
    digit_digitValue (h.digits c hc).1 (h.digits c hc).2).trans chars.map_id

/-- A number has one decimal numeral. -/
theorem unique (h : IsDecimal chars n) (h' : IsDecimal chars' n) : chars = chars' := by
  rw [← h.eq_map, ← h'.eq_map, h.numeral.unique (by decide) h'.numeral]

end IsDecimal

/-! ### Taking a value apart -/

/-- One round of the loop, on a number with a digit left. -/
theorem takeDigits_succ {v i : Nat} (hv : 0 < v) (hi : i < digitsSize) (digits : Nat → U8) :
    takeDigits v i digits =
      takeDigits (v / 10 : Nat) (i + 1) (Function.update digits i (digit (v % 10))) := by
  rw [takeDigits, if_pos (by omega), if_pos hi]
  have hdiv : (v : Int).tdiv 10 = (v / 10 : Nat) := tdiv_natCast v 10
  have hmod : (v : Int).tmod 10 = (v % 10 : Nat) := tmod_natCast v 10
  rw [hdiv, hmod, BitVec.ofInt_natCast, ← digit]

/-- A number with more digits than the buffer has room for runs over it. -/
theorem takeDigits_overflow {v i : Nat} (hi : i ≤ digitsSize)
    (h : digitsSize < i + (Nat.digits 10 v).length) (digits : Nat → U8) :
    takeDigits v i digits = .error .outOfBounds := by
  induction v using Nat.strong_induction_on generalizing i digits with
  | _ v ih =>
      have hv : 0 < v := by
        by_contra h0
        obtain rfl : v = 0 := by omega
        rw [Nat.digits_zero, List.length_nil] at h
        omega
      rw [Nat.digits_def' (by decide) hv, List.length_cons] at h
      by_cases hlt : i < digitsSize
      · rw [takeDigits_succ hv hlt]
        exact ih (v / 10) (by omega) (by omega) (by omega) _
      · rw [takeDigits, if_pos (by omega), if_neg hlt]

theorem range_map_update (digits : Nat → U8) (i : Nat) (c : U8) :
    (List.range (i + 1)).map (Function.update digits i c) = (List.range i).map digits ++ [c] := by
  rw [List.range_succ, List.map_append, List.map_singleton, Function.update_self]
  congr 1
  exact List.map_congr_left fun k hk =>
    Function.update_of_ne (Nat.ne_of_lt (List.mem_range.mp hk)) c digits

/-- A number the buffer has room for leaves its digits there, low digit first. -/
theorem takeDigits_fits {v i : Nat} (h : i + (Nat.digits 10 v).length ≤ digitsSize)
    (digits : Nat → U8) : ∃ digits',
      takeDigits v i digits = .ok (digits', i + (Nat.digits 10 v).length) ∧
        (List.range (i + (Nat.digits 10 v).length)).map digits' =
          (List.range i).map digits ++ (Nat.digits 10 v).map digit := by
  induction v using Nat.strong_induction_on generalizing i digits with
  | _ v ih =>
      rcases Nat.eq_zero_or_pos v with rfl | hv
      · refine ⟨digits, ?_, by simp⟩
        rw [takeDigits, if_neg (by omega)]
        simp
      · rw [Nat.digits_def' (by decide) hv, List.length_cons] at h ⊢
        obtain ⟨digits', htake, hmap⟩ := ih (v / 10) (by omega) (i := i + 1) (by omega)
          (Function.update digits i (digit (v % 10)))
        have hlen : i + ((Nat.digits 10 (v / 10)).length + 1) =
            i + 1 + (Nat.digits 10 (v / 10)).length := by omega
        refine ⟨digits', ?_, ?_⟩
        · rw [takeDigits_succ hv (by omega), htake, hlen]
        · rw [hlen, hmap, range_map_update, List.append_assoc]
          rfl

/-- The buffer is printed from its end. -/
theorem output_writeDigits (t : Terminal) (digits : Nat → U8) (n : Nat) :
    (t.after (writeDigits digits n)).output =
      t.output ++ (((List.range n).map digits).reverse).map (·, 15) := by
  induction n generalizing t with
  | zero => exact (List.append_nil _).symm
  | succ n ih =>
      rw [writeDigits, Terminal.after_bind, ih, Terminal.output_writechar, List.range_succ]
      simp

/-! ### Printing -/

/-- `print_decimal` prints the decimal numeral of `n`, which is the only one. -/
def PrintsDecimal (digits : Nat → U8) (t : Terminal) (n : Nat) : Prop :=
  ∃ t' chars, printDecimal digits n t = .ok ((), t') ∧
    t'.output = t.output ++ chars.map (·, 15) ∧ IsDecimal chars n ∧
      ∀ chars', IsDecimal chars' n → chars' = chars

/-- What prints the digits of `n` prints `n`. -/
theorem printsDecimal_of_digits {digits : Nat → U8} {t t' : Terminal} {n : Nat} (ds : List Nat)
    (hrun : printDecimal digits n t = .ok ((), t')) (h : IsNumeral 10 n ds)
    (hout : t'.output = t.output ++ (ds.map digit).map (·, 15)) : PrintsDecimal digits t n :=
  ⟨t', ds.map digit, hrun, hout, .of_digits h, fun _ h' => h'.unique (.of_digits h)⟩

/-- The digit that finds the buffer full is written behind it. -/
theorem printDecimal_overflow (digits : Nat → U8) (t : Terminal) {n : Nat}
    (h : 10 ^ digitsSize ≤ n) : printDecimal digits n t = .error .outOfBounds := by
  have hlen : digitsSize < 0 + (Nat.digits 10 n).length := by
    by_contra hle
    rw [Nat.zero_add, not_lt, Nat.digits_length_le_iff (by decide)] at hle
    omega
  have hn : n ≠ 0 := by
    rintro rfl
    exact absurd h (by decide)
  rw [printDecimal, if_neg (by omega), takeDigits_overflow (Nat.zero_le _) hlen]
  rfl

/-- **A number is printed, and rightly, exactly when it has at most eight digits.** -/
theorem printsDecimal_iff (digits : Nat → U8) (t : Terminal) (n : Nat) :
    PrintsDecimal digits t n ↔ n < 10 ^ digitsSize := by
  constructor
  · rintro ⟨t', chars, hrun, -⟩
    by_contra hge
    rw [printDecimal_overflow digits t (by omega)] at hrun
    cases hrun
  · intro hlt
    by_cases hn : n = 0
    · subst hn
      exact printsDecimal_of_digits [0] rfl (isNumeral_zero (by decide))
        Terminal.output_writechar
    · have hlen := (Nat.digits_length_le_iff (by decide) n).mpr hlt
      obtain ⟨digits', htake, hmap⟩ := takeDigits_fits (v := n) (i := 0) (by omega) digits
      have hrun : printDecimal digits n t =
          .ok ((), t.after (writeDigits digits' (0 + (Nat.digits 10 n).length))) := by
        rw [printDecimal, if_neg (by omega), htake]
        rfl
      refine printsDecimal_of_digits (Nat.digits 10 n).reverse hrun
        (isNumeral_digits (by decide) hn) ?_
      rw [output_writeDigits, hmap]
      simp

/-- The least number that runs over the buffer. -/
theorem printDecimal_overruns :
    ¬ PrintsDecimal (fun _ => 0) (.atBoot fun _ => 0) 100000000 := by
  rintro ⟨t', chars, hrun, -⟩
  rw [printDecimal_overflow _ _ (by decide)] at hrun
  cases hrun

end KernelNES.Kernel
