import KernelNES.Emulator.Compare

/-!
# Emulator — Shifts

`ASL`, `LSR` and `ROL` are in the source twice: on the accumulator, inside the `switch`, and on
memory, as `ASL_op`, `LSR_op` and `ROL_op`.  The two forms compute the same byte and the same zero
and negative.  The carry is the bit shifted out in all of them but `LSR` on the accumulator, which
leaves an old carry in place when it shifts out a zero (`shiftsAgree_iff`).
-/

namespace KernelNES.Emulator
open KernelNES.Lib

/-- The operations with a form on the accumulator. -/
inductive ShiftOp where
  | asl
  | lsr
  | rol
  deriving DecidableEq, Repr

namespace ShiftOp

/-- The opcode of the accumulator form. -/
def accumulatorOpcode : ShiftOp → U8
  | asl => 0x0A
  | lsr => 0x4A
  | rol => 0x2A

/-- The opcodes of the memory form, zero page and absolute. -/
def memoryOpcodes : ShiftOp → List U8
  | asl => [0x06, 0x0E]
  | lsr => [0x46, 0x4E]
  | rol => [0x26, 0x2E]

/-- The instruction of the accumulator form. -/
def accumulator : ShiftOp → Instr
  | asl => .aslA
  | lsr => .lsrA
  | rol => .rolA

/-- The operation of the memory form. -/
def memory : ShiftOp → RmwOp
  | asl => .asl
  | lsr => .lsr
  | rol => .rol

/-- The byte shifted, with the carry before in `flags`. -/
def result : ShiftOp → (v flags : U8) → U8
  | asl, v, _ => v <<< 1
  | lsr, v, _ => v >>> 1
  | rol, v, flags => if hasFlag flags flagCarry then v <<< 1 ||| 0x01 else v <<< 1

/-- The bit shifted out. -/
def bitOut : ShiftOp → U8 → Bool
  | asl, v | rol, v => v &&& 0x80 ≠ 0
  | lsr, v => v &&& 0x01 ≠ 0

/-- The cases of the accumulator forms. -/
theorem decode_accumulator (op : ShiftOp) : decode op.accumulatorOpcode = some op.accumulator := by
  cases op <;> rfl

/-- The cases of the memory forms. -/
theorem decode_memory {op : ShiftOp} {opcode : U8} (h : opcode ∈ op.memoryOpcodes) :
    ∃ addr, decode opcode = some (.rmw op.memory addr) := by
  cases op <;> simp only [memoryOpcodes, List.mem_cons, List.not_mem_nil, or_false] at h <;>
    rcases h with rfl | rfl <;> exact ⟨_, rfl⟩

end ShiftOp

/-! ### The two forms -/

/-- The flags register after a shift with the given carry and result. -/
def shiftedFlags (flags : U8) (carry : Bool) (result : U8) : U8 :=
  setCarryZeroNegative flags carry (result = 0) (result ≥ 0x80)

/-- The carry after the accumulator form: `LSR` never clears it. -/
def ShiftOp.accumulatorCarry : ShiftOp → (v flags : U8) → Bool
  | .lsr, v, flags => ShiftOp.lsr.bitOut v || decide (hasFlag flags flagCarry)
  | op, v, _ => op.bitOut v

theorem sign_and (v : U8) : decide (v ≥ 0x80) = decide (v &&& 0x80 ≠ 0) := by
  refine decide_eq_decide.mpr ?_
  rw [and_sign_ne_zero, msb_iff, ge_iff_le, BitVec.le_def]
  rfl

/-- Setting a flag to what it is changes nothing. -/
theorem setFlag_self (flags flag : U8) {c : Bool} (hf : flag ∈ flagBits)
    (h : c = true ↔ hasFlag flags flag) : setFlag flags flag c = flags := by
  obtain ⟨i, hi, rfl⟩ := flagBits_twoPow hf
  rw [hasFlag_twoPow _ hi] at h
  refine BitVec.eq_of_getLsbD_eq fun j hj => ?_
  rw [setFlag_twoPow_getLsbD _ hj]
  by_cases hij : i = j
  · subst hij
    rw [if_pos rfl, Bool.eq_iff_iff, h]
  · rw [if_neg hij]

/-- `LSR` on the accumulator sets the carry, or leaves it. -/
theorem lsr_carry (v flags : U8) :
    (if v &&& 0x01 ≠ 0 then setFlag flags flagCarry true else flags) =
      setFlag flags flagCarry (ShiftOp.lsr.accumulatorCarry v flags) := by
  have hbit : ShiftOp.lsr.bitOut v = decide (v &&& 0x01 ≠ 0) := rfl
  rw [ShiftOp.accumulatorCarry, hbit]
  by_cases h : v &&& 0x01 ≠ 0
  · rw [if_pos h, decide_eq_true h, Bool.true_or]
  · rw [if_neg h, decide_eq_false h, Bool.false_or]
    exact (setFlag_self flags flagCarry mem_flagBits.1 decide_eq_true_iff).symm

/-- What `LSR A` leaves in the registers. -/
theorem lsrABody_registers (m : Machine) :
    (lsrABody m).2.registers =
      { m.registers with
        A := m.registers.A >>> 1
        flags := shiftedFlags m.registers.flags
          (ShiftOp.lsr.accumulatorCarry m.registers.A m.registers.flags)
          (m.registers.A >>> 1) } := by
  have hrun : (lsrABody m).2.registers =
      { m.registers with
        A := m.registers.A >>> 1
        flags := setFlag (setFlag
          (if m.registers.A &&& 0x01 ≠ 0 then setFlag m.registers.flags flagCarry true
            else m.registers.flags) flagZero (m.registers.A >>> 1 = 0)) flagNegative
          (m.registers.A >>> 1 ≥ 0x80) } := by
    show ((if m.registers.A &&& 0x01 ≠ 0 then _ else _ : CPU Unit) _).2.registers = _
    split <;> rfl
  rw [hrun, lsr_carry]
  rfl

/-- What `ROL A` leaves in the registers. -/
theorem rolABody_registers (m : Machine) :
    (rolABody m).2.registers =
      { m.registers with
        A := ShiftOp.rol.result m.registers.A m.registers.flags
        flags := shiftedFlags m.registers.flags (ShiftOp.rol.bitOut m.registers.A)
          (ShiftOp.rol.result m.registers.A m.registers.flags) } := by
  -- the carry is read after `A` has been shifted
  set m₁ := (regStatus (setARegister (m.registers.A <<< 1) (regA (regA m).2).2).2).2 with hm₁
  have hrun : rolABody m = (do
      let result ← (if hasFlag m.registers.flags flagCarry then bitORA 0x01
        else pure (m.registers.A <<< 1))
      setStatusFlag flagCarry (m.registers.A &&& 0x80 ≠ 0)
      setZeroNegative result : CPU Unit) m₁ := rfl
  rw [hrun]
  by_cases h : hasFlag m.registers.flags flagCarry
  · have hres : ShiftOp.rol.result m.registers.A m.registers.flags =
        m.registers.A <<< 1 ||| 0x01 := if_pos h
    rw [if_pos h, hres]
    rfl
  · have hres : ShiftOp.rol.result m.registers.A m.registers.flags = m.registers.A <<< 1 :=
      if_neg h
    rw [if_neg h, hres]
    rfl

/-- **The accumulator form.** -/
theorem ShiftOp.accumulator_registers (op : ShiftOp) (order : EvalOrder) (m : Machine) :
    (op.accumulator.run order m).2.registers =
      { m.registers with
        A := op.result m.registers.A m.registers.flags
        flags := shiftedFlags m.registers.flags
          (op.accumulatorCarry m.registers.A m.registers.flags)
          (op.result m.registers.A m.registers.flags) } := by
  cases op with
  | asl => rfl
  | lsr => exact lsrABody_registers m
  | rol => exact rolABody_registers m

/-- **The memory form.** -/
theorem ShiftOp.memory_run (op : ShiftOp) (v : U8) (a : U16) (m : Machine) :
    (op.memory.run v a m).2.registers =
        { m.registers with
          flags := shiftedFlags m.registers.flags (op.bitOut v)
            (op.result v m.registers.flags) } ∧
      (op.memory.run v a m).2.RAM = storeRAM m.RAM a (op.result v m.registers.flags) := by
  cases op with
  | asl | lsr => exact ⟨rfl, rfl⟩
  | rol =>
    refine ⟨?_, rfl⟩
    rw [ShiftOp.bitOut, ← sign_and]
    rfl

/-! ### One step -/

/-- What a shift leaves alone: `V`, `D`, `I`, `X`, `Y` and the stack pointer. -/
structure ShiftKeeps (r r' : Registers) : Prop where
  flags : ∀ flag ∈ [flagOverflow, flagDecimal, flagInterruptDisable],
    (hasFlag r'.flags flag ↔ hasFlag r.flags flag)
  X : r'.X = r.X
  Y : r'.Y = r.Y
  stackPointer : r'.stackPointer = r.stackPointer

/-- The accumulator form, from `mA` to `mA'`, and the memory form at the address `a`, from `mM` to
`mM'`, agree. -/
structure ShiftsAgree (a : U16) (mA mA' mM mM' : Machine) : Prop where
  result : mA'.registers.A = mM'.RAM a
  flags : ∀ flag ∈ carryZeroNegative,
    (hasFlag mA'.registers.flags flag ↔ hasFlag mM'.registers.flags flag)
  accumulatorKeeps : ShiftKeeps mA.registers mA'.registers
  memoryKeeps : ShiftKeeps mM.registers mM'.registers

theorem shiftKeeps_of_registers {r r' : Registers} {A c v pc}
    (h : r' = { r with A := A, flags := shiftedFlags r.flags c v, programCounter := pc }) :
    ShiftKeeps r r' := by
  subst h
  refine ⟨fun flag hf => hasFlag_other _ _ _ _ ?_ ?_, rfl, rfl, rfl⟩ <;>
    simp only [List.mem_cons, List.not_mem_nil, or_false] at hf <;>
    rcases hf with rfl | rfl | rfl <;> decide

section
variable {op : ShiftOp} {m : Machine}

/-- A step on the accumulator. -/
theorem accumulator_step (h : m.nextOpcode = op.accumulatorOpcode) (order : EvalOrder)
    (answer : Addr) :
    (emulateCPU order answer m).2.registers =
      { m.registers with
        A := op.result m.registers.A m.registers.flags
        flags := shiftedFlags m.registers.flags
          (op.accumulatorCarry m.registers.A m.registers.flags)
          (op.result m.registers.A m.registers.flags)
        programCounter := m.registers.programCounter + 1 } := by
  rw [emulateCPU_of_decode (h ▸ op.decode_accumulator)]
  exact op.accumulator_registers order (m.fetched answer)

/-- A step on a byte of RAM. -/
theorem memory_step (h : m.nextOpcode ∈ op.memoryOpcodes) (hram : m.effectiveAddress < 0x800)
    (order : EvalOrder) (answer : Addr) :
    let v := m.RAM m.effectiveAddress
    (emulateCPU order answer m).2.RAM m.effectiveAddress = op.result v m.registers.flags ∧
      ∃ pc, (emulateCPU order answer m).2.registers =
        { m.registers with
          flags := shiftedFlags m.registers.flags (op.bitOut v) (op.result v m.registers.flags)
          programCounter := pc } := by
  intro v
  obtain ⟨addr, hd⟩ := op.decode_memory h
  -- the address, and the byte there
  set s := (addr.get (m.fetched answer)).2 with hs
  obtain ⟨pc, hregs⟩ := registers_of_still addr.get_still (m.fetched answer)
  have ha : (addr.get (m.fetched answer)).1 = m.effectiveAddress := by
    rw [addr.get_value, operandAddress_of_decode hd rfl]
  have hpeek : s.peek m.effectiveAddress = v := by
    rw [hs, Machine.peek_of_still (addr.get_still _), fetched_peek, Machine.peek_RAM hram]
  have hRAM : s.RAM = m.RAM := RAM_of_still addr.get_still (m.fetched answer)
  have hrun : (emulateCPU order answer m).2 =
      (op.memory.run v m.effectiveAddress (emuRead m.effectiveAddress s).2).2.tick
        m.nextOpcode := by
    rw [emulateCPU_of_decode hd, ← hpeek, ← ha]
    rfl
  obtain ⟨hr, hm⟩ := op.memory_run v m.effectiveAddress (emuRead m.effectiveAddress s).2
  have hflags : (emuRead m.effectiveAddress s).2.registers.flags = m.registers.flags := by
    show s.registers.flags = _
    rw [hs, hregs]
    rfl
  rw [hflags] at hr hm
  rw [hrun]
  refine ⟨?_, pc, ?_⟩
  · show (op.memory.run v m.effectiveAddress _).2.RAM m.effectiveAddress = _
    rw [hm, storeRAM_self _ hram]
  · have hsregs : (emuRead m.effectiveAddress s).2.registers =
        { (m.fetched answer).registers with programCounter := pc } := hregs
    refine hr.trans ?_
    rw [hsregs]
    rfl

end

/-- **The two forms of a shift agree**, except that `LSR` on the accumulator keeps a carry where the
bit shifted out is clear. -/
theorem shiftsAgree_iff {op : ShiftOp} {mA mM : Machine}
    (hA : mA.nextOpcode = op.accumulatorOpcode) (hM : mM.nextOpcode ∈ op.memoryOpcodes)
    (hram : mM.effectiveAddress < 0x800) (hv : mM.RAM mM.effectiveAddress = mA.registers.A)
    (hflags : mM.registers.flags = mA.registers.flags) (orderA orderM : EvalOrder)
    (answerA answerM : Addr) :
    ShiftsAgree mM.effectiveAddress mA (emulateCPU orderA answerA mA).2 mM
        (emulateCPU orderM answerM mM).2 ↔
      ¬ (op = .lsr ∧ hasFlag mA.registers.flags flagCarry ∧ mA.registers.A &&& 0x01 = 0) := by
  have hrA := accumulator_step hA orderA answerA
  obtain ⟨hres, pc, hrM⟩ := memory_step hM hram orderM answerM
  rw [hv, hflags] at hres
  rw [hv, hflags] at hrM
  have hcarry : (op.accumulatorCarry mA.registers.A mA.registers.flags = true ↔
      op.bitOut mA.registers.A = true) ↔
      ¬ (op = .lsr ∧ hasFlag mA.registers.flags flagCarry ∧ mA.registers.A &&& 0x01 = 0) := by
    cases op with
    | asl | rol => simp [ShiftOp.accumulatorCarry]
    | lsr => simp [ShiftOp.accumulatorCarry, ShiftOp.bitOut]
  rw [← hcarry]
  constructor
  · intro h
    have hC := h.flags flagCarry (by decide)
    rw [hrA, hrM] at hC
    exact (hasFlag_carry _ _ _ _).symm.trans (hC.trans (hasFlag_carry _ _ _ _))
  · intro h
    refine ⟨?_, fun flag hf => ?_, shiftKeeps_of_registers hrA, ?_⟩
    · rw [hres, hrA]
    · rw [hrA, hrM]
      simp only [carryZeroNegative, List.mem_cons, List.not_mem_nil, or_false] at hf
      rcases hf with rfl | rfl | rfl
      · exact (hasFlag_carry _ _ _ _).trans (h.trans (hasFlag_carry _ _ _ _).symm)
      · exact (hasFlag_zero _ _ _ _).trans (hasFlag_zero _ _ _ _).symm
      · exact (hasFlag_negative _ _ _ _).trans (hasFlag_negative _ _ _ _).symm
    · rw [← hflags] at hrM
      exact shiftKeeps_of_registers hrM

/-- About to run an opcode of the accumulator, or one on the zero page byte `0`, which holds `v`. -/
def shiftMachine (opcode v flags : U8) : Machine :=
  { Machine.ofProgram [opcode, 0] ⟨v, 0, 0, flags, 0xFD, 0⟩ with RAM := fun _ => v }

/-- `ROL` of `0x80` with the carry set. -/
theorem shiftsAgree_rol :
    ShiftsAgree (shiftMachine 0x26 0x80 0x01).effectiveAddress (shiftMachine 0x2A 0x80 0x01)
      (emulateCPU .leftFirst 1 (shiftMachine 0x2A 0x80 0x01)).2 (shiftMachine 0x26 0x80 0x01)
      (emulateCPU .leftFirst 1 (shiftMachine 0x26 0x80 0x01)).2 := by
  have hA : (shiftMachine 0x2A 0x80 0x01).nextOpcode = ShiftOp.rol.accumulatorOpcode := by
    decide +kernel
  have hM : (shiftMachine 0x26 0x80 0x01).nextOpcode ∈ ShiftOp.rol.memoryOpcodes := by
    decide +kernel
  exact (shiftsAgree_iff hA hM (by decide +kernel) rfl rfl .leftFirst .leftFirst 1 1).mpr
    (by decide)

/-- `LSR` of `0` with the carry set: the accumulator form keeps the carry, the memory form clears
it. -/
theorem lsr_forms_differ :
    (shiftMachine 0x4A 0 0x01).nextOpcode = ShiftOp.lsr.accumulatorOpcode ∧
      (shiftMachine 0x46 0 0x01).nextOpcode ∈ ShiftOp.lsr.memoryOpcodes ∧
      (shiftMachine 0x46 0 0x01).effectiveAddress < 0x800 ∧
      ¬ ShiftsAgree (shiftMachine 0x46 0 0x01).effectiveAddress (shiftMachine 0x4A 0 0x01)
        (emulateCPU .leftFirst 1 (shiftMachine 0x4A 0 0x01)).2 (shiftMachine 0x46 0 0x01)
        (emulateCPU .leftFirst 1 (shiftMachine 0x46 0 0x01)).2 := by
  refine ⟨by decide +kernel, by decide +kernel, by decide +kernel, fun h => ?_⟩
  exact absurd ((h.flags flagCarry (by decide)).mp (by decide +kernel)) (by decide +kernel)

end KernelNES.Emulator
