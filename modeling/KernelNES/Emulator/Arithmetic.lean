import KernelNES.Emulator.RamFrame

/-!
# Emulator — Arithmetic

`ADC` and `SBC` against 6502 binary arithmetic.  The result, carry, zero and negative are right for
every operand (`arith_registers`).  The overflow flag is not: it is computed from two `bit_XOR_A`
calls, and the second sees the `A` the first has changed.  `overflow` is its value in either order;
`Agrees` is exactly when both orders give the true one (`overflow_agrees_iff`).
-/

namespace KernelNES.Emulator
open KernelNES.Lib

/-! ### Status bits -/

/-- The flags register with one flag set to `c`. -/
def setFlag (flags flag : U8) (c : Bool) : U8 := if c then flags ||| flag else flags &&& ~~~flag

/-- The flags with one bit each. -/
def flagBits : List U8 :=
  [flagCarry, flagZero, flagInterruptDisable, flagDecimal, flagOverflow, flagNegative]

/-- A flag of the flags register. -/
def hasFlag (flags flag : U8) : Prop := flags &&& flag ≠ 0

instance (flags flag : U8) : Decidable (hasFlag flags flag) :=
  inferInstanceAs (Decidable (flags &&& flag ≠ 0))

/-- Each flag is one bit of the byte. -/
theorem flagBits_twoPow {flag : U8} (h : flag ∈ flagBits) :
    ∃ i < 8, flag = BitVec.twoPow 8 i := by
  revert flag; decide

theorem hasFlag_twoPow (flags : U8) {i : Nat} (hi : i < 8) :
    hasFlag flags (BitVec.twoPow 8 i) ↔ flags.getLsbD i = true := by
  have hne : BitVec.twoPow 8 i ≠ 0#8 := fun h => by
    have := congrArg (fun x => x.getLsbD i) h
    simp [hi] at this
  rw [hasFlag, BitVec.and_twoPow]
  cases flags.getLsbD i <;> simp [hne]

/-- Setting one bit leaves the others alone. -/
theorem setFlag_twoPow_getLsbD (flags : U8) {i j : Nat} (hj : j < 8) (c : Bool) :
    (setFlag flags (BitVec.twoPow 8 i) c).getLsbD j =
      if i = j then c else flags.getLsbD j := by
  by_cases hij : i = j
  · subst hij
    cases c <;> simp [setFlag, hj]
  · have hji : j ≠ i := fun e => hij e.symm
    cases c <;> simp [setFlag, hij, hji, hj]

/-- Setting one flag leaves the others alone. -/
theorem hasFlag_setFlag {flags f g : U8} (hf : f ∈ flagBits) (hg : g ∈ flagBits) (c : Bool) :
    hasFlag (setFlag flags f c) g ↔ if f = g then c = true else hasFlag flags g := by
  obtain ⟨i, hi, rfl⟩ := flagBits_twoPow hf
  obtain ⟨j, hj, rfl⟩ := flagBits_twoPow hg
  rw [hasFlag_twoPow _ hj, hasFlag_twoPow _ hj, setFlag_twoPow_getLsbD _ hj]
  by_cases hij : i = j
  · subst hij
    rw [if_pos rfl, if_pos rfl]
  · have hne : BitVec.twoPow 8 i ≠ BitVec.twoPow 8 j := fun e => by
      have := congrArg (fun x => x.getLsbD i) e
      exact hij (by simpa [hi] using this)
    rw [if_neg hij, if_neg hne]

/-! ### The specification -/

/-- `0` or `1`. -/
def carryIn (flags : U8) : Int := if hasFlag flags flagCarry then 1 else 0

/-- `A + M + C` and `A - M - (1 - C)`, on whole numbers. -/
def ArithOp.exact : ArithOp → (A M C : Int) → Int
  | .adc, A, M, C => A + M + C
  | .sbc, A, M, C => A - M - (1 - C)

/-- When the carry is set: on a carry out of the sum, on no borrow into the difference. -/
def ArithOp.CarryOut : ArithOp → Int → Prop
  | .adc, s => 255 < s
  | .sbc, s => 0 ≤ s

/-- A number that is no signed byte. -/
def Overflows (t : Int) : Prop := t < -128 ∨ 127 < t

/-- The state after an `ADC` or `SBC` with operand `M`, as on the 6502. -/
structure ArithRight (op : ArithOp) (M : U8) (m m' : Machine) : Prop where
  result : (m'.registers.A.toNat : Int) =
    op.exact m.registers.A.toNat M.toNat (carryIn m.registers.flags) % 256
  carry : hasFlag m'.registers.flags flagCarry ↔
    op.CarryOut (op.exact m.registers.A.toNat M.toNat (carryIn m.registers.flags))
  zero : hasFlag m'.registers.flags flagZero ↔ m'.registers.A = 0
  negative : hasFlag m'.registers.flags flagNegative ↔ 0x80 ≤ m'.registers.A
  overflow : hasFlag m'.registers.flags flagOverflow ↔
    Overflows (op.exact m.registers.A.toInt M.toInt (carryIn m.registers.flags))
  decimal : hasFlag m'.registers.flags flagDecimal ↔ hasFlag m.registers.flags flagDecimal
  interruptDisable : hasFlag m'.registers.flags flagInterruptDisable ↔
    hasFlag m.registers.flags flagInterruptDisable
  X : m'.registers.X = m.registers.X
  Y : m'.registers.Y = m.registers.Y
  stackPointer : m'.registers.stackPointer = m.registers.stackPointer
  RAM : m'.RAM = m.RAM

/-- The operands on which the overflow flag comes out right in both orders.  For `ADC`: `A` is
negative and `M` is not, or `A` is not and the sum is below 128 or carries.  For `SBC`: `A` is
negative, or neither is and nothing is borrowed. -/
def ArithOp.Agrees : ArithOp → (A M : U8) → (C : Int) → Prop
  | .adc, A, M, C =>
      (A ≥ 0x80 ∧ M < 0x80) ∨
        (A < 0x80 ∧ ((A.toNat : Int) + M.toNat + C < 128 ∨ 256 ≤ (A.toNat : Int) + M.toNat + C))
  | .sbc, A, M, C => A ≥ 0x80 ∨ (M < 0x80 ∧ (M.toNat : Int) + (1 - C) ≤ A.toNat)

/-! ### The operations -/

/-- The overflow flag, as `ADC_op` and `SBC_op` compute it from `A`, the operand `M` and the
result `S`. -/
def ArithOp.overflow : ArithOp → EvalOrder → (A M S : U8) → Bool
  | .adc, .leftFirst,  A, M, S => ~~~(A ^^^ M) &&& (A ^^^ M ^^^ S) &&& 0x80 ≠ 0
  | .adc, .rightFirst, A, M, S => ~~~(A ^^^ S ^^^ M) &&& (A ^^^ S) &&& 0x80 ≠ 0
  | .sbc, .leftFirst,  A, M, S => (A ^^^ M) &&& (A ^^^ M ^^^ S) &&& 0x80 ≠ 0
  | .sbc, .rightFirst, A, M, S => (A ^^^ S ^^^ M) &&& (A ^^^ S) &&& 0x80 ≠ 0

/-- The registers after the operation, if `sum` is its `sum`. -/
def ArithOp.registersAfter (op : ArithOp) (order : EvalOrder) (M : U8) (sum : Int)
    (r : Registers) : Registers :=
  let S := BitVec.ofInt 8 sum
  let carry : Bool := match op with
    | .adc => sum > 0xFF
    | .sbc => sum ≥ 0
  { r with
    A := S
    flags := setFlag (setFlag (setFlag (setFlag r.flags flagOverflow (op.overflow order r.A M S))
      flagCarry carry) flagZero (S = 0)) flagNegative (S ≥ 0x80) }

/-- What `adc_op` leaves in the registers. -/
theorem adcOp_registers (order : EvalOrder) (M : U8) (m : Machine) :
    (adcOp order M m).2.registers = ArithOp.registersAfter .adc order M
      (if hasFlag m.registers.flags flagCarry then m.registers.A.toNat + M.toNat + 1
        else m.registers.A.toNat + M.toNat) m.registers := by
  cases order <;> rfl

/-- What `sbc_op` leaves in the registers. -/
theorem sbcOp_registers (order : EvalOrder) (M : U8) (m : Machine) :
    (sbcOp order M m).2.registers = ArithOp.registersAfter .sbc order M
      (if ~~~m.registers.flags &&& flagCarry ≠ 0 then m.registers.A.toNat - M.toNat - 1
        else m.registers.A.toNat - M.toNat) m.registers := by
  cases order <;> rfl

/-- The borrow the code subtracts: `~flags & FLAG_CARRY` is the carry flag's complement. -/
theorem not_flags_carry (flags : U8) :
    ~~~flags &&& flagCarry ≠ 0 ↔ ¬ hasFlag flags flagCarry := by
  have hc : flagCarry = BitVec.twoPow 8 0 := rfl
  have h := hasFlag_twoPow (~~~flags) (i := 0) (by omega)
  rw [hc, hasFlag_twoPow flags (by omega), show ~~~flags &&& BitVec.twoPow 8 0 ≠ 0 ↔ _ from h]
  simp

/-- Either operation computes its exact result, then sets the registers from it. -/
theorem ArithOp.run_registers (op : ArithOp) (order : EvalOrder) (M : U8) (m : Machine) :
    (op.run order M m).2.registers = op.registersAfter order M
      (op.exact m.registers.A.toNat M.toNat (carryIn m.registers.flags)) m.registers := by
  cases op with
  | adc =>
      refine (adcOp_registers order M m).trans (congrArg (registersAfter _ order M · _) ?_)
      by_cases hc : hasFlag m.registers.flags flagCarry
      · simp only [carryIn, ArithOp.exact, if_pos hc]
      · simp only [carryIn, ArithOp.exact, if_neg hc, Int.add_zero]
  | sbc =>
      refine (sbcOp_registers order M m).trans (congrArg (registersAfter _ order M · _) ?_)
      simp only [not_flags_carry, carryIn, ArithOp.exact]
      by_cases hc : hasFlag m.registers.flags flagCarry
      · rw [if_neg (not_not.mpr hc), if_pos hc]; omega
      · rw [if_pos hc, if_neg hc]; omega

/-! ### The overflow flag -/

theorem and_sign_ne_zero (x : U8) : x &&& 0x80 ≠ 0 ↔ x.msb = true := by
  have h := hasFlag_twoPow x (i := 7) (by omega)
  rw [BitVec.msb_eq_getLsbD_last]
  exact h

theorem msb_iff (x : U8) : x.msb = true ↔ 128 ≤ x.toNat := by
  rw [BitVec.msb_eq_decide]; simp

/-- The two orders in terms of the signs of `A`, the operand and the result. -/
theorem ArithOp.overflow_msb (op : ArithOp) (A M S : U8) :
    (op.overflow .leftFirst A M S = true ↔
      match op with
      | .adc => A.msb = M.msb ∧ S.msb = true
      | .sbc => A.msb ≠ M.msb ∧ S.msb = false) ∧
    (op.overflow .rightFirst A M S = true ↔
      match op with
      | .adc => A.msb ≠ S.msb ∧ M.msb = true
      | .sbc => A.msb ≠ S.msb ∧ M.msb = false) := by
  cases op <;> simp only [ArithOp.overflow, decide_eq_true_eq, and_sign_ne_zero, BitVec.msb_and,
    BitVec.msb_xor, BitVec.msb_not] <;>
    cases A.msb <;> cases M.msb <;> cases S.msb <;> simp

/-- A byte read as signed. -/
theorem toInt_of_msb (x : U8) :
    x.toInt = if x.msb = true then (x.toNat : Int) - 256 else x.toNat := by
  rw [BitVec.toInt_eq_toNat_cond]
  have := x.isLt
  by_cases h : 128 ≤ x.toNat
  · rw [if_neg (by omega), if_pos ((msb_iff x).mpr h)]; rfl
  · rw [if_pos (by omega), if_neg (fun e => h ((msb_iff x).mp e))]

/-- The low byte of an `int`. -/
theorem toNat_ofInt_eight (i : Int) : ((BitVec.ofInt 8 i).toNat : Int) = i % 256 := by
  rw [BitVec.toNat_ofInt]
  exact Int.toNat_of_nonneg (Int.emod_nonneg i (by decide))

/-- **Both orders give the true overflow** exactly on the operands of `Agrees`. -/
theorem ArithOp.overflow_agrees_iff (op : ArithOp) (A M : U8) {C : Int} (hC : C = 0 ∨ C = 1) :
    (∀ order, op.overflow order A M (BitVec.ofInt 8 (op.exact A.toNat M.toNat C)) = true ↔
      Overflows (op.exact A.toInt M.toInt C)) ↔ op.Agrees A M C := by
  have hS := toNat_ofInt_eight (op.exact A.toNat M.toNat C)
  generalize BitVec.ofInt 8 (op.exact A.toNat M.toNat C) = S at hS ⊢
  have hall : ∀ P : EvalOrder → Prop, (∀ order, P order) ↔ P .leftFirst ∧ P .rightFirst :=
    fun P => ⟨fun h => ⟨h _, h _⟩, fun h order => by cases order <;> simp [h.1, h.2]⟩
  obtain ⟨hl, hr⟩ := op.overflow_msb A M S
  rw [hall, hl, hr, toInt_of_msb A, toInt_of_msb M]
  have hA := msb_iff A
  have hM := msb_iff M
  have hSm := msb_iff S
  have hA8 := A.isLt
  have hM8 := M.isLt
  cases op with
  | adc | sbc =>
      simp only [ArithOp.exact, ArithOp.Agrees, Overflows, ge_iff_le, BitVec.le_def,
        BitVec.lt_def] at hS ⊢
      cases ha : A.msb <;> cases hm : M.msb <;> cases hs : S.msb <;>
        simp only [ha, hm, hs, if_true, Bool.false_eq_true, if_false, true_iff, false_iff] at * <;>
        simp <;> omega

/-! ### One step -/

/-- The registers after an `ADC` or `SBC` instruction. -/
theorem arith_registers {m : Machine} {op : ArithOp} {operand : Operand}
    (hd : decode m.nextOpcode = some (.arith op operand)) (order : EvalOrder) (answer : Addr) :
    ∃ pc, (emulateCPU order answer m).2.registers =
      op.registersAfter order (m.peek m.effectiveAddress)
        (op.exact m.registers.A.toNat (m.peek m.effectiveAddress).toNat
          (carryIn m.registers.flags)) { m.registers with programCounter := pc } := by
  obtain ⟨pc, hregs⟩ := registers_of_still operand.get_still (m.fetched answer)
  have hrun : (emulateCPU order answer m).2.registers =
      (op.run order (operand.get (m.fetched answer)).1
        (operand.get (m.fetched answer)).2).2.registers := by
    rw [emulateCPU_of_decode hd]
    rfl
  have hM : (operand.get (m.fetched answer)).1 = m.peek m.effectiveAddress := by
    rw [operand.get_value, operandAddress_of_decode hd rfl, fetched_peek]
  refine ⟨pc, ?_⟩
  rw [hrun, op.run_registers, hM, hregs]
  rfl

theorem mem_flagBits : flagCarry ∈ flagBits ∧ flagZero ∈ flagBits ∧
    flagInterruptDisable ∈ flagBits ∧ flagDecimal ∈ flagBits ∧ flagOverflow ∈ flagBits ∧
    flagNegative ∈ flagBits := by
  decide

/-- Everything but the overflow flag is always right. -/
theorem arithRight_iff_overflow {m : Machine} {op : ArithOp} {operand : Operand}
    (hd : decode m.nextOpcode = some (.arith op operand)) (order : EvalOrder) (answer : Addr) :
    let M := m.peek m.effectiveAddress
    let C := carryIn m.registers.flags
    ArithRight op M m (emulateCPU order answer m).2 ↔
      (op.overflow order m.registers.A M
          (BitVec.ofInt 8 (op.exact m.registers.A.toNat M.toNat C)) = true ↔
        Overflows (op.exact m.registers.A.toInt M.toInt C)) := by
  intro M C
  obtain ⟨pc, hregs⟩ := arith_registers hd order answer
  obtain ⟨hC, hZ, hI, hD, hV, hN⟩ := mem_flagBits
  -- the overflow flag is what `overflow` says, since the flags set after it are others
  have hV' : hasFlag (emulateCPU order answer m).2.registers.flags flagOverflow ↔
      op.overflow order m.registers.A M
        (BitVec.ofInt 8 (op.exact m.registers.A.toNat M.toNat C)) = true := by
    rw [hregs]
    simp only [ArithOp.registersAfter, hasFlag_setFlag hN hV, hasFlag_setFlag hZ hV,
      hasFlag_setFlag hC hV, hasFlag_setFlag hV hV]
    rfl
  refine ⟨fun h => hV'.symm.trans h.overflow, fun h => ?_⟩
  -- everything but the overflow is right on all operands
  constructor
  case overflow => exact hV'.trans h
  case result => rw [hregs]; exact toNat_ofInt_eight _
  case carry =>
    rw [hregs]
    simp only [ArithOp.registersAfter, hasFlag_setFlag hN hC, hasFlag_setFlag hZ hC,
      hasFlag_setFlag hC hC]
    cases op <;> simp [flagNegative, flagZero, flagCarry, ArithOp.CarryOut] <;> rfl
  case zero =>
    rw [hregs]
    simp only [ArithOp.registersAfter, hasFlag_setFlag hN hZ, hasFlag_setFlag hZ hZ]
    simp [flagNegative, flagZero]
  case negative =>
    rw [hregs]
    simp only [ArithOp.registersAfter, hasFlag_setFlag hN hN]
    simp
  case decimal =>
    rw [hregs]
    simp only [ArithOp.registersAfter, hasFlag_setFlag hN hD, hasFlag_setFlag hZ hD,
      hasFlag_setFlag hC hD, hasFlag_setFlag hV hD]
    rfl
  case interruptDisable =>
    rw [hregs]
    simp only [ArithOp.registersAfter, hasFlag_setFlag hN hI, hasFlag_setFlag hZ hI,
      hasFlag_setFlag hC hI, hasFlag_setFlag hV hI]
    rfl
  case X => rw [hregs]; rfl
  case Y => rw [hregs]; rfl
  case stackPointer => rw [hregs]; rfl
  case RAM =>
    funext a
    rw [emulateCPU_of_decode hd]
    exact (Instr.arith op operand).run_confined order (m.fetched answer) a List.not_mem_nil

/-- The carry flag counts as 0 or 1. -/
theorem carryIn_eq (flags : U8) : carryIn flags = 0 ∨ carryIn flags = 1 := by
  unfold carryIn
  split
  · exact .inr rfl
  · exact .inl rfl

/-- The implemented opcodes. -/
def ArithOp.opcodes : ArithOp → List U8
  | .adc => [0x69, 0x65, 0x75, 0x6D]
  | .sbc => [0xE9, 0xE5, 0xED]

/-- The cases of `ADC` and of `SBC`. -/
theorem decode_of_mem_opcodes {op : ArithOp} {opcode : U8} (h : opcode ∈ op.opcodes) :
    ∃ operand, decode opcode = some (.arith op operand) := by
  cases op <;> simp only [ArithOp.opcodes, List.mem_cons, List.not_mem_nil, or_false] at h
  · rcases h with rfl | rfl | rfl | rfl <;> exact ⟨_, rfl⟩
  · rcases h with rfl | rfl | rfl <;> exact ⟨_, rfl⟩

/-- **`ADC` and `SBC` implement 6502 arithmetic**, in both evaluation orders, exactly on the
operands of `Agrees`. -/
theorem arithRight_iff {m : Machine} {op : ArithOp} (h : m.nextOpcode ∈ op.opcodes)
    (answer : Addr) :
    (∀ order, ArithRight op (m.peek m.effectiveAddress) m (emulateCPU order answer m).2) ↔
      op.Agrees m.registers.A (m.peek m.effectiveAddress) (carryIn m.registers.flags) := by
  obtain ⟨operand, hd⟩ := decode_of_mem_opcodes h
  exact (forall_congr' fun order => arithRight_iff_overflow hd order answer).trans
    (op.overflow_agrees_iff _ _ (carryIn_eq _))

/-- About to run `ADC #M` with `A` in the accumulator and the carry clear. -/
def adcImmediate (A M : U8) : Machine := .ofProgram [0x69, M] ⟨A, 0, 0, 0, 0xFD, 0⟩

/-- `1 + 1`. -/
theorem arithRight_one_plus_one :
    (adcImmediate 1 1).nextOpcode ∈ ArithOp.adc.opcodes ∧
      ∀ order, ArithRight .adc ((adcImmediate 1 1).peek (adcImmediate 1 1).effectiveAddress)
        (adcImmediate 1 1) (emulateCPU order 1 (adcImmediate 1 1)).2 := by
  have h : (adcImmediate 1 1).nextOpcode ∈ ArithOp.adc.opcodes := by decide +kernel
  exact ⟨h, (arithRight_iff h 1).mpr (.inr ⟨by decide +kernel, .inl (by decide +kernel)⟩)⟩

/-- `0x80 + 0x80`: the sum of the signed readings is `-256`, and overflow comes out clear. -/
theorem adc_misses_overflow :
    ¬ ∀ order, ArithRight .adc 0x80 (adcImmediate 0x80 0x80)
      (emulateCPU order 1 (adcImmediate 0x80 0x80)).2 := fun h =>
  absurd ((h .leftFirst).overflow.mpr (.inl (by decide +kernel))) (by decide +kernel)

end KernelNES.Emulator
