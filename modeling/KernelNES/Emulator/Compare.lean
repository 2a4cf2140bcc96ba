import KernelNES.Emulator.Arithmetic

/-!
# Emulator — Compare

`CMP`, `CPX` and `CPY` against the subtraction of `SBC`.  Carry and zero are right for every
register and operand.  Negative is not: `CMP_op` asks whether the `int` difference exceeds `127`,
and with a borrow that difference is negative, so the flag comes out clear where bit 7 of the byte
is set (`borrow_negative_iff`).
-/

namespace KernelNES.Emulator
open KernelNES.Lib

/-- The value of a register. -/
def Reg.value : Reg → Registers → U8
  | .A, r => r.A
  | .X, r => r.X
  | .Y, r => r.Y

/-- The opcodes that compare a register. -/
def Reg.compareOpcodes : Reg → List U8
  | .A => [0xC9, 0xC5, 0xCD]
  | .X => [0xE0, 0xE4, 0xEC]
  | .Y => [0xC0, 0xC4, 0xCC]

/-- The cases of `CMP`, `CPX` and `CPY`. -/
theorem decode_of_mem_compareOpcodes {reg : Reg} {opcode : U8} (h : opcode ∈ reg.compareOpcodes) :
    ∃ operand, decode opcode = some (.compare reg operand) := by
  cases reg <;> simp only [Reg.compareOpcodes, List.mem_cons, List.not_mem_nil, or_false] at h <;>
    rcases h with rfl | rfl | rfl <;> exact ⟨_, rfl⟩

/-! ### Carry, zero and negative -/

/-- The flags of a subtraction or a shift. -/
def carryZeroNegative : List U8 := [flagCarry, flagZero, flagNegative]

/-- The flags register with the three set, in this order. -/
def setCarryZeroNegative (flags : U8) (carry zero negative : Bool) : U8 :=
  setFlag (setFlag (setFlag flags flagCarry carry) flagZero zero) flagNegative negative

section
variable (flags : U8) (carry zero negative : Bool)

theorem hasFlag_carry :
    hasFlag (setCarryZeroNegative flags carry zero negative) flagCarry ↔ carry = true := by
  obtain ⟨hC, hZ, -, -, -, hN⟩ := mem_flagBits
  simp only [setCarryZeroNegative, hasFlag_setFlag hN hC, hasFlag_setFlag hZ hC,
    hasFlag_setFlag hC hC]
  simp [flagNegative, flagZero, flagCarry]

theorem hasFlag_zero :
    hasFlag (setCarryZeroNegative flags carry zero negative) flagZero ↔ zero = true := by
  obtain ⟨-, hZ, -, -, -, hN⟩ := mem_flagBits
  simp only [setCarryZeroNegative, hasFlag_setFlag hN hZ, hasFlag_setFlag hZ hZ]
  simp [flagNegative, flagZero]

theorem hasFlag_negative :
    hasFlag (setCarryZeroNegative flags carry zero negative) flagNegative ↔ negative = true := by
  obtain ⟨-, -, -, -, -, hN⟩ := mem_flagBits
  simp only [setCarryZeroNegative, hasFlag_setFlag hN hN, if_true]

/-- A comparison leaves the other flags alone. -/
theorem hasFlag_other {flag : U8} (hf : flag ∈ flagBits) (hn : flag ∉ carryZeroNegative) :
    hasFlag (setCarryZeroNegative flags carry zero negative) flag ↔ hasFlag flags flag := by
  obtain ⟨hC, hZ, -, -, -, hN⟩ := mem_flagBits
  have hne : flagCarry ≠ flag ∧ flagZero ≠ flag ∧ flagNegative ≠ flag := by
    refine ⟨?_, ?_, ?_⟩ <;> rintro rfl <;> exact hn (by decide)
  simp only [setCarryZeroNegative, hasFlag_setFlag hN hf, hasFlag_setFlag hZ hf,
    hasFlag_setFlag hC hf, if_neg hne.1, if_neg hne.2.1, if_neg hne.2.2]

end

/-! ### The specification -/

/-- The state in which `SBC` is to subtract from `R`: `R` is in `A`, and the carry is set. -/
def Machine.subtractFrom (m : Machine) (R : U8) : Machine :=
  { m with
    registers := { m.registers with A := R, flags := setFlag m.registers.flags flagCarry true } }

/-- The state after a comparison of `R` with `M`, as on the 6502. -/
structure CompareRight (R M : U8) (m m' : Machine) : Prop where
  carry : hasFlag m'.registers.flags flagCarry ↔ R ≥ M
  zero : hasFlag m'.registers.flags flagZero ↔ R = M
  negative : hasFlag m'.registers.flags flagNegative ↔ (R - M).msb = true
  subtraction : ∀ order, ∀ flag ∈ carryZeroNegative, hasFlag m'.registers.flags flag ↔
    hasFlag (sbcOp order M (m.subtractFrom R)).2.registers.flags flag
  registers : ∃ flags pc, m'.registers = { m.registers with flags, programCounter := pc }
  otherFlags : ∀ flag ∈ flagBits, flag ∉ carryZeroNegative →
    (hasFlag m'.registers.flags flag ↔ hasFlag m.registers.flags flag)
  RAM : m'.RAM = m.RAM

/-! ### The operation -/

/-- The flags register after `CMP_op`. -/
def comparedFlags (R M flags : U8) : U8 :=
  setCarryZeroNegative flags (R ≥ M) (R = M) ((R.toNat : Int) - M.toNat > 127)

/-- A comparison changes no register but the flags and the program counter. -/
theorem compare_registers {m : Machine} {reg : Reg} {operand : Operand}
    (hd : decode m.nextOpcode = some (.compare reg operand)) (order : EvalOrder) (answer : Addr) :
    ∃ pc, (emulateCPU order answer m).2.registers =
      { m.registers with
        flags := comparedFlags (reg.value m.registers) (m.peek m.effectiveAddress) m.registers.flags
        programCounter := pc } := by
  obtain ⟨pc, hregs⟩ := registers_of_still operand.get_still (m.fetched answer)
  have hM : (operand.get (m.fetched answer)).1 = m.peek m.effectiveAddress := by
    rw [operand.get_value, operandAddress_of_decode hd rfl, fetched_peek]
  have hrun : (emulateCPU order answer m).2.registers =
      { (operand.get (m.fetched answer)).2.registers with
        flags := comparedFlags (reg.value (operand.get (m.fetched answer)).2.registers)
          (operand.get (m.fetched answer)).1
          (operand.get (m.fetched answer)).2.registers.flags } := by
    rw [emulateCPU_of_decode hd]
    cases reg <;> rfl
  refine ⟨pc, ?_⟩
  rw [hrun, hM, hregs]
  cases reg <;> rfl

/-! ### The flags -/

/-- What `SBC` with the carry set makes of the flags. -/
theorem subtract_flags (order : EvalOrder) (R M : U8) (m : Machine) :
    let flags := (sbcOp order M (m.subtractFrom R)).2.registers.flags
    (hasFlag flags flagCarry ↔ R ≥ M) ∧ (hasFlag flags flagZero ↔ R = M) ∧
      (hasFlag flags flagNegative ↔ (R - M).msb = true) := by
  obtain ⟨hC, hZ, -, -, -, hN⟩ := mem_flagBits
  have hc : carryIn (m.subtractFrom R).registers.flags = 1 := by
    have h : hasFlag (setFlag m.registers.flags flagCarry true) flagCarry :=
      (hasFlag_setFlag hC hC true).mpr (by simp)
    exact if_pos h
  have hregs := ArithOp.run_registers .sbc order M (m.subtractFrom R)
  rw [hc] at hregs
  have hsum : ArithOp.exact .sbc (m.subtractFrom R).registers.A.toNat M.toNat 1 =
      (R.toNat : Int) - M.toNat := by
    show (R.toNat : Int) - M.toNat - (1 - 1) = _
    omega
  rw [hsum] at hregs
  have hS : BitVec.ofInt 8 ((R.toNat : Int) - M.toNat) = R - M := by
    refine BitVec.eq_of_toInt_eq ?_
    rw [BitVec.toInt_ofInt, BitVec.toInt_sub, BitVec.toInt_eq_toNat_bmod,
      BitVec.toInt_eq_toNat_bmod]
    simp
  have hflags : (sbcOp order M (m.subtractFrom R)).2.registers.flags = _ :=
    congrArg Registers.flags hregs
  rw [hflags]
  simp only [ArithOp.registersAfter, hS]
  refine ⟨(hasFlag_carry _ _ _ _).trans ?_, (hasFlag_zero _ _ _ _).trans ?_,
    (hasFlag_negative _ _ _ _).trans ?_⟩
  · simp [BitVec.le_def]
  · rw [decide_eq_true_iff]
    constructor <;> intro h <;> bv_omega
  · simp [msb_iff, BitVec.le_def]

/-- **The borrow.**  The `int` difference exceeds `127` exactly when bit 7 of the byte is set, but
for the borrows that leave it set. -/
theorem borrow_negative_iff (R M : U8) :
    ((R.toNat : Int) - M.toNat > 127 ↔ (R - M).msb = true) ↔
      R ≥ M ∨ 128 < M.toNat - R.toNat := by
  have hR := R.isLt
  have hM := M.isLt
  rw [msb_iff, BitVec.toNat_sub, ge_iff_le, BitVec.le_def]
  omega

/-! ### One step -/

/-- **A comparison is a subtraction** exactly when it does not borrow, or borrows so much that bit 7
of the difference is clear again. -/
theorem compareRight_iff {m : Machine} {reg : Reg} (h : m.nextOpcode ∈ reg.compareOpcodes)
    (order : EvalOrder) (answer : Addr) :
    let R := reg.value m.registers
    let M := m.peek m.effectiveAddress
    CompareRight R M m (emulateCPU order answer m).2 ↔ R ≥ M ∨ 128 < M.toNat - R.toNat := by
  intro R M
  obtain ⟨operand, hd⟩ := decode_of_mem_compareOpcodes h
  obtain ⟨pc, hregs⟩ := compare_registers hd order answer
  have hflags : (emulateCPU order answer m).2.registers.flags =
      comparedFlags R M m.registers.flags := by rw [hregs]
  have hN : hasFlag (comparedFlags R M m.registers.flags) flagNegative ↔
      (R.toNat : Int) - M.toNat > 127 := (hasFlag_negative _ _ _ _).trans decide_eq_true_iff
  have hC : hasFlag (comparedFlags R M m.registers.flags) flagCarry ↔ R ≥ M :=
    (hasFlag_carry _ _ _ _).trans decide_eq_true_iff
  have hZ : hasFlag (comparedFlags R M m.registers.flags) flagZero ↔ R = M :=
    (hasFlag_zero _ _ _ _).trans decide_eq_true_iff
  rw [← borrow_negative_iff, ← hN]
  refine ⟨fun hr => hflags ▸ hr.negative, fun hneg => ?_⟩
  -- only the negative flag can be wrong
  constructor
  case carry => rw [hflags]; exact hC
  case zero => rw [hflags]; exact hZ
  case negative => rw [hflags]; exact hneg
  case subtraction =>
    intro order' flag hf
    obtain ⟨hsC, hsZ, hsN⟩ := subtract_flags order' R M m
    simp only [carryZeroNegative, List.mem_cons, List.not_mem_nil, or_false] at hf
    rw [hflags]
    rcases hf with rfl | rfl | rfl
    · exact hC.trans hsC.symm
    · exact hZ.trans hsZ.symm
    · exact hneg.trans hsN.symm
  case registers => exact ⟨_, _, hregs⟩
  case otherFlags =>
    intro flag hf hn
    rw [hflags]
    exact hasFlag_other _ _ _ _ hf hn
  case RAM =>
    funext a
    rw [emulateCPU_of_decode hd]
    exact (Instr.compare reg operand).run_confined order (m.fetched answer) a List.not_mem_nil

/-- About to run `CMP #M` with `A` in the accumulator. -/
def cmpImmediate (A M : U8) : Machine := .ofProgram [0xC9, M] ⟨A, 0, 0, 0, 0xFD, 0⟩

/-- `5` with `3`. -/
theorem compareRight_five_three :
    (cmpImmediate 5 3).nextOpcode ∈ Reg.A.compareOpcodes ∧
      CompareRight 5 3 (cmpImmediate 5 3) (emulateCPU .leftFirst 1 (cmpImmediate 5 3)).2 := by
  have h : (cmpImmediate 5 3).nextOpcode ∈ Reg.A.compareOpcodes := by decide +kernel
  exact ⟨h, (compareRight_iff h .leftFirst 1).mpr (.inl (by decide +kernel))⟩

/-- `0` with `1`: the byte of the difference is `0xFF`, and negative comes out clear. -/
theorem cmp_misses_negative :
    (cmpImmediate 0 1).nextOpcode ∈ Reg.A.compareOpcodes ∧
      ¬ CompareRight 0 1 (cmpImmediate 0 1) (emulateCPU .leftFirst 1 (cmpImmediate 0 1)).2 :=
  ⟨by decide +kernel, fun h => absurd (h.negative.mpr (by decide)) (by decide +kernel)⟩

end KernelNES.Emulator
