import Mathlib.Data.Nat.Find
import KernelNES.Lib.Mos6502
import KernelNES.Emulator.Branches
import KernelNES.Emulator.CycleBound
import KernelNES.Emulator.Nesting
import KernelNES.Emulator.Pointers
import KernelNES.Emulator.Shifts
import KernelNES.Emulator.StatusByte

/-!
# Emulator — Conformance

The emulator against the 6502.  `Machine.arch` is what the processor's programmer sees of the
emulated console, and `bus` the address map of `emu_read` and `emu_write`.  For every opcode byte,
one `emulate_CPU` step is one step of the processor exactly when the state before it is `Faithful`
(`emulateCPU_refines_iff`): most cases always are; `ADC` and `SBC`, the comparisons, `LSR A`, the
logic operations on memory, the pointers, `BRK` and two of the opcodes without a case are under a
condition; `DEY` and the other opcodes without a case never are.  So a run of the emulator is the
processor's run exactly as far as its states are faithful (`run_refines_iff`).
-/

namespace KernelNES.Emulator
open KernelNES.Lib
open Mos6502 (Flags exec)

/-! ### The processor's view -/

/-- RAM and ROM. -/
abbrev Memory := (U16 → U8) × (U16 → U8)

/-- What `emu_read` returns, and what `emu_write` stores. -/
def bus : Mos6502.Bus Memory where
  read mem address :=
    let returnValue := 0
    let returnValue := if address < 0x800 then mem.1 address else returnValue
    if address ≥ 0x8000 then mem.2 (address - 0x8000) else returnValue
  write mem address value := (storeRAM mem.1 address value, mem.2)

/-- The registers, as the reference has them. -/
def Registers.cpu (r : Registers) : Mos6502.Cpu where
  A := r.A
  X := r.X
  Y := r.Y
  SP := r.stackPointer
  PC := r.programCounter
  flags := .ofByte r.flags

/-- The registers, and the memory. -/
def Machine.arch (m : Machine) : Mos6502.State Memory where
  cpu := m.registers.cpu
  mem := (m.RAM, m.ROM)

/-- Equal register by register, and in memory. -/
theorem arch_eq {m : Machine} {s : Mos6502.State Memory} (hA : m.registers.A = s.cpu.A)
    (hX : m.registers.X = s.cpu.X) (hY : m.registers.Y = s.cpu.Y)
    (hSP : m.registers.stackPointer = s.cpu.SP) (hPC : m.registers.programCounter = s.cpu.PC)
    (hflags : Flags.ofByte m.registers.flags = s.cpu.flags) (hmem : (m.RAM, m.ROM) = s.mem) :
    m.arch = s := by
  rcases s with ⟨⟨_, _, _, _, _, _⟩, _⟩
  subst hA hX hY hSP hPC hflags hmem
  rfl

/-! ### What the cases are cases of -/

/-- The register of the reference. -/
def Reg.ref : Reg → Mos6502.Reg
  | .A => .A
  | .X => .X
  | .Y => .Y

/-- The addressing mode of the reference. -/
def Addressing.ref : Addressing → Mos6502.Mode
  | .zeroPage  => .zeroPage
  | .zeroPageX => .zeroPageX
  | .absolute  => .absolute
  | .absoluteX => .absoluteX
  | .indirectX => .indirectX
  | .indirectY => .indirectY

/-- The addressing mode the operand is read in. -/
def Operand.ref : Operand → Mos6502.Mode
  | .immediate   => .immediate
  | .memory addr => addr.ref

/-- What the reference does to a byte in place. -/
def RmwOp.ref : RmwOp → Mos6502.Modify
  | .asl => .asl
  | .lsr => .lsr
  | .rol => .rol
  | .ror => .ror
  | .inc => .inc
  | .dec => .dec

/-- The logical operation of the reference. -/
def LogicOp.ref : LogicOp → Mos6502.Logic
  | .ora => .ora
  | .eor => .eor
  | .and => .and

/-- The operation of the reference. -/
def ArithOp.ref : ArithOp → Mos6502.Op
  | .adc => .adc
  | .sbc => .sbc

/-- The flip-flop of a flag. -/
def flagRef (flag : U8) : Mos6502.Flag :=
  if flag = flagNegative then .N
  else if flag = flagOverflow then .V
  else if flag = flagDecimal then .D
  else if flag = flagInterruptDisable then .I
  else if flag = flagZero then .Z
  else .C

/-- The instruction a case is there for; `HLT` is none of the documented ones. -/
def Instr.ref : Instr → Option (Mos6502.Op × Mos6502.Mode)
  | .hlt => none
  | .load reg operand => some (.load reg.ref, operand.ref)
  | .store reg addr => some (.store reg.ref, addr.ref)
  | .branch flag wanted => some (.branch (flagRef flag) wanted, .relative)
  | .pha => some (.pha, .implied)
  | .pla => some (.pla, .implied)
  | .jsr => some (.jsr, .absolute)
  | .rts => some (.rts, .implied)
  | .jmp => some (.jmp, .absolute)
  | .jmpIndirect => some (.jmp, .indirect)
  | .increment reg => some (.increment reg.ref, .implied)
  | .decrement reg => some (.decrement reg.ref, .implied)
  | .transfer dst src => some (.transfer dst.ref src.ref, .implied)
  | .txs => some (.txs, .implied)
  | .tsx => some (.tsx, .implied)
  | .setFlag flag value => some (.setFlag (flagRef flag) value, .implied)
  | .php => some (.php, .implied)
  | .plp => some (.plp, .implied)
  | .aslA => some (.modify .asl, .accumulator)
  | .lsrA => some (.modify .lsr, .accumulator)
  | .rolA => some (.modify .rol, .accumulator)
  | .rmw op addr => some (.modify op.ref, addr.ref)
  | .logicImmediate op => some (.logic op.ref, .immediate)
  | .logic op addr => some (.logic op.ref, addr.ref)
  | .arith op operand => some (op.ref, operand.ref)
  | .compare reg operand => some (.compare reg.ref, operand.ref)
  | .bit addr => some (.bit, addr.ref)
  | .brk => some (.brk, .implied)
  | .rti => some (.rti, .implied)
  | .nop => some (.nop, .implied)

/-- Every label but `0x88` stands before the case of its instruction. -/
theorem decode_ref {opcode : U8} {instr : Instr} (h : decode opcode = some instr)
    (hdey : opcode ≠ 0x88) : Mos6502.decode opcode = instr.ref := by
  have hall : ∀ p ∈ switchCases, p.1 ≠ 0x88 → Mos6502.decode p.1 = p.2.ref := by decide +kernel
  exact hall _ (mem_switchCases h) hdey

/-- The addressing helpers without a pointer. -/
def Addressing.pointerless : Addressing → Bool
  | .indirectX | .indirectY => false
  | _ => true

/-- The operands read without a pointer. -/
def Operand.pointerless : Operand → Bool
  | .immediate   => true
  | .memory addr => addr.pointerless

/-- What holds of every case of the `switch`: only stores go through a pointer of the zero page, and
a flag is one bit. -/
def Instr.regular : Instr → Bool
  | .load _ operand | .arith _ operand | .compare _ operand => operand.pointerless
  | .rmw _ addr | .logic _ addr | .bit addr => addr.pointerless
  | .branch flag _ | .setFlag flag _ => flagBits.contains flag
  | _ => true

/-- Every case of the `switch` is regular. -/
theorem regular_of_decode {opcode : U8} {instr : Instr} (h : decode opcode = some instr) :
    instr.regular = true :=
  (by decide +kernel : ∀ p ∈ switchCases, p.2.regular = true) _ (mem_switchCases h)

/-! ### Flags -/

/-- A flag is one bit of the status byte. -/
theorem flagRef_bit : ∀ flag ∈ flagBits, flag = BitVec.twoPow 8 (flagRef flag).bit := by
  decide

/-- Setting a flag of the byte sets the flip-flop. -/
theorem ofByte_setFlag (flag : U8) (h : flag ∈ flagBits) (b : Bool) (flags : U8) :
    Flags.ofByte (setFlag flags flag b) = (Flags.ofByte flags).set b (flagRef flag) := by
  refine Flags.ext_get fun f => ?_
  rw [Flags.get_ofByte, Flags.get_set, Flags.get_ofByte]
  nth_rewrite 1 [flagRef_bit flag h]
  rw [setFlag_twoPow_getLsbD flags f.bit_lt]
  simp only [Mos6502.Flag.bit_inj]

/-- A flag of the byte is the flip-flop. -/
theorem ofByte_get (flag : U8) (h : flag ∈ flagBits) (flags : U8) :
    (Flags.ofByte flags).get (flagRef flag) = decide (hasFlag flags flag) := by
  rw [Flags.get_ofByte, Bool.eq_iff_iff, decide_eq_true_iff]
  nth_rewrite 2 [flagRef_bit flag h]
  exact (hasFlag_twoPow flags (flagRef flag).bit_lt).symm

theorem ge_eq_msb (v : U8) : decide (v ≥ 0x80) = v.msb := by
  rw [BitVec.msb_eq_decide]
  rfl

theorem and_eq_getLsbD : ∀ v : U8, decide (v &&& 0x80 ≠ 0) = v.getLsbD 7 ∧
    decide (v &&& 0x40 ≠ 0) = v.getLsbD 6 ∧ decide (v &&& 0x01 ≠ 0) = v.getLsbD 0 := by
  decide

/-- The byte pushed for the flags. -/
theorem byte_ofByte : ∀ flags : U8, (Flags.ofByte flags).byte = flags ||| 0x30 := by
  decide

/-- Zero and negative, as `set_zero_negative` sets them. -/
theorem ofByte_result (flags v : U8) :
    Flags.ofByte (setFlag (setFlag flags flagZero (v = 0)) flagNegative (v ≥ 0x80)) =
      (Flags.ofByte flags).result v := by
  rw [ofByte_setFlag _ (by decide), ofByte_setFlag _ (by decide), ge_eq_msb]
  rfl

/-- Carry, zero and negative of a result. -/
theorem ofByte_carryResult (flags v : U8) (carry : Bool) :
    Flags.ofByte (setCarryZeroNegative flags carry (v = 0) (v ≥ 0x80)) =
      { (Flags.ofByte flags).result v with C := carry } := by
  rw [setCarryZeroNegative, ofByte_result, ofByte_setFlag _ (by decide)]
  rfl

/-- The carry, as the shifts test it. -/
theorem carry_eq (flags : U8) : (Flags.ofByte flags).C = decide (flags &&& flagCarry ≠ 0) :=
  ofByte_get flagCarry (by decide) flags

/-! ### What the operations do -/

/-- Work on the registers leaves the memory. -/
theorem arch_of_apart {α : Type} {x : CPU α} (h : Preserves Machine.apart x) (m : Machine) :
    (x m).2.arch = { m.arch with cpu := (x m).2.registers.cpu } := by
  have hmem := h.comp (fun s => (s.RAM, s.ROM)) m
  exact arch_eq rfl rfl rfl rfl rfl rfl hmem

section
variable (m : Machine)

/-- A result goes to its register and to the flags. -/
theorem setReg_arch (reg : Reg) (v : U8) :
    (do setZeroNegative (← reg.set v) : CPU Unit).run m |>.2.arch = m.arch.setReg reg.ref v := by
  cases reg <;> exact arch_eq rfl rfl rfl rfl rfl (ofByte_result _ _) rfl

/-- A logical operation does to the processor what the reference says. -/
theorem logicOp_arch (op : LogicOp) (v : U8) :
    (do setZeroNegative (← op.run v) : CPU Unit).run m |>.2.arch =
      m.arch.setReg .A (op.ref.apply m.arch.cpu.A v) := by
  cases op <;> exact arch_eq rfl rfl rfl rfl rfl (ofByte_result _ _) rfl

/-- What `BIT` makes of the flags. -/
theorem bitOp_arch (v : U8) : (bitOp v m).2.arch =
    m.arch.setFlags
      { m.arch.cpu.flags with Z := m.arch.cpu.A &&& v = 0, N := v.getLsbD 7, V := v.getLsbD 6 } := by
  refine arch_eq rfl rfl rfl rfl rfl ?_ rfl
  show Flags.ofByte (setFlag (setFlag (setFlag m.registers.flags flagZero (m.registers.A &&& v = 0))
    flagNegative (v &&& 0x80 ≠ 0)) flagOverflow (v &&& 0x40 ≠ 0)) = _
  rw [ofByte_setFlag _ (by decide), ofByte_setFlag _ (by decide), ofByte_setFlag _ (by decide),
    (and_eq_getLsbD v).1, (and_eq_getLsbD v).2.1]
  rfl

/-- The byte the rotates make. -/
theorem rotate_eq (flags v : U8) :
    (if flags &&& flagCarry ≠ 0 then v <<< 1 ||| 0x01 else v <<< 1) =
        (Mos6502.Modify.rol.apply (Flags.ofByte flags).C v).1 ∧
      (if flags &&& flagCarry ≠ 0 then v >>> 1 ||| 0x80 else v >>> 1) =
        (Mos6502.Modify.ror.apply (Flags.ofByte flags).C v).1 := by
  simp only [carry_eq, Mos6502.Modify.apply]
  by_cases hc : flags &&& flagCarry ≠ 0
  · rw [if_pos hc, if_pos hc, decide_eq_true hc]
    exact ⟨rfl, rfl⟩
  · rw [if_neg hc, if_neg hc, decide_eq_false hc]
    exact ⟨BitVec.or_zero.symm, BitVec.or_zero.symm⟩

/-- The flags behind a shift. -/
theorem shifted_arch {s : Machine} {a : U16} {new : U8} {carry : Bool}
    (hs : s = { m with
      registers := { m.registers with
        flags := setCarryZeroNegative m.registers.flags carry (new = 0) (new ≥ 0x80) }
      RAM := storeRAM m.RAM a new
      debugTracker := s.debugTracker
      log := s.log }) :
    s.arch = { m.arch.setFlags { m.arch.cpu.flags.result new with C := carry } with
      mem := bus.write m.arch.mem a new } := by
  rw [hs]
  exact arch_eq rfl rfl rfl rfl rfl (ofByte_carryResult _ _ _) rfl

/-- An operation in place does to the processor what the reference says. -/
theorem rmwOp_arch (op : RmwOp) (v : U8) (a : U16) : (op.run v a m).2.arch =
    { m.arch.setFlags { m.arch.cpu.flags.result (op.ref.apply m.arch.cpu.flags.C v).1 with
        C := (op.ref.apply m.arch.cpu.flags.C v).2 } with
      mem := bus.write m.arch.mem a (op.ref.apply m.arch.cpu.flags.C v).1 } := by
  cases op with
  | inc | dec => exact arch_eq rfl rfl rfl rfl rfl (ofByte_result _ _) rfl
  | asl =>
      have hc : v.msb = decide (v &&& 0x80 ≠ 0) := (and_eq_getLsbD v).1.symm
      simp only [RmwOp.ref, Mos6502.Modify.apply, hc]
      exact shifted_arch m rfl
  | lsr =>
      have hc : v.getLsbD 0 = decide (v &&& 0x01 ≠ 0) := (and_eq_getLsbD v).2.2.symm
      simp only [RmwOp.ref, Mos6502.Modify.apply, hc]
      exact shifted_arch m rfl
  | rol =>
      have hc : v.msb = decide (v ≥ 0x80) := (ge_eq_msb v).symm
      rw [RmwOp.ref, show m.arch.cpu.flags.C = (Flags.ofByte m.registers.flags).C from rfl,
        ← (rotate_eq m.registers.flags v).1]
      simp only [Mos6502.Modify.apply, hc]
      exact shifted_arch m rfl
  | ror =>
      have hc : v.getLsbD 0 = decide (v &&& 0x01 ≠ 0) := (and_eq_getLsbD v).2.2.symm
      rw [RmwOp.ref, show m.arch.cpu.flags.C = (Flags.ofByte m.registers.flags).C from rfl,
        ← (rotate_eq m.registers.flags v).2]
      simp only [Mos6502.Modify.apply, hc]
      exact shifted_arch m rfl

end

/-! ### The cases that are the processor's -/

section
variable (order : EvalOrder) (m : Machine) (answer : Addr)

/-- What a case leaves. -/
abbrev Instr.leaves (instr : Instr) : Mos6502.State Memory :=
  (instr.run order (m.fetched answer)).2.arch

/-- A case leaves what its instruction leaves on the processor. -/
def Instr.Meets (instr : Instr) : Prop :=
  instr.ref.map (fun (op, mode) => exec bus op mode m.arch) = some (instr.leaves order m answer)

/-- The state of the processor behind the instruction. -/
abbrev Machine.behind (mode : Mos6502.Mode) : Mos6502.State Memory :=
  m.arch.jump (mode.behind (m.arch.cpu.PC + 1))

/-- Without a pointer, the address is that of the reference. -/
theorem address_refines {addr : Addressing} (h : addr.pointerless = true) :
    (addr.get (m.fetched answer)).1 = m.arch.address bus addr.ref := by
  cases addr with
  | indirectX | indirectY => cases h
  | zeroPage | zeroPageX | absolute | absoluteX => rfl

/-- Computing an address moves the program counter behind the operand, and no more. -/
theorem addressing_arch (addr : Addressing) :
    (addr.get (m.fetched answer)).2.arch = m.behind addr.ref := by
  cases addr <;> rfl

/-- Without a pointer, the operand is that of the reference. -/
theorem operand_refines {operand : Operand} (h : operand.pointerless = true) :
    (operand.get (m.fetched answer)).1 =
      bus.read m.arch.mem (m.arch.address bus operand.ref) := by
  cases operand with
  | immediate => rfl
  | memory addr =>
      have haddr := address_refines m answer (show addr.pointerless = true from h)
      have hread : ((Operand.memory addr).get (m.fetched answer)).1 =
          bus.read m.arch.mem (addr.get (m.fetched answer)).1 := by
        cases addr <;> rfl
      rw [hread, haddr]
      rfl

/-- Reading an operand moves the program counter behind it, and no more. -/
theorem operand_arch (operand : Operand) :
    (operand.get (m.fetched answer)).2.arch = m.behind operand.ref := by
  cases operand with
  | immediate => rfl
  | memory addr => exact addressing_arch m answer addr

/-- The operand of the instruction at the program counter. -/
def Machine.operand (m : Machine) (mode : AddressingMode) : U8 :=
  m.peek (m.operandAddress mode (m.registers.programCounter + 1))

/-- The operand is the byte the table's mode finds. -/
theorem operand_value (operand : Operand) :
    (operand.get (m.fetched answer)).1 = m.operand operand.mode :=
  (operand.get_value _).trans (congrArg m.peek (operandAddress_fetched m answer operand.mode))

/-- A case that reads its operand, and then only works on it. -/
theorem meets_iff_of_operand {instr : Instr} {operand : Operand} {x : U8 → CPU Unit}
    {f : Mos6502.State Memory → U8 → Mos6502.State Memory} (h : operand.pointerless = true)
    (hrun : instr.run order = operand.get >>= x)
    (href : instr.ref.map (fun (op, mode) => exec bus op mode m.arch) =
      some (f (m.behind operand.ref) (bus.read m.arch.mem (m.arch.address bus operand.ref)))) :
    instr.Meets order m answer ↔
      f (operand.get (m.fetched answer)).2.arch (m.operand operand.mode) =
        (x (m.operand operand.mode) (operand.get (m.fetched answer)).2).2.arch := by
  have hM := operand_value m answer operand
  have hleaves : instr.leaves order m answer =
      (x (m.operand operand.mode) (operand.get (m.fetched answer)).2).2.arch := by
    rw [Instr.leaves, hrun, ← hM]
    rfl
  rw [Instr.Meets, href, ← operand_refines m answer h, ← operand_arch m answer, hM, hleaves]
  exact Option.some_inj

/-- Loads without a pointer do what the reference says. -/
theorem load_meets (reg : Reg) {operand : Operand} (h : operand.pointerless = true) :
    (Instr.load reg operand).Meets order m answer :=
  (meets_iff_of_operand order m answer h (x := fun v => do setZeroNegative (← reg.set v))
    (f := fun s v => s.setReg reg.ref v) rfl rfl).mpr (setReg_arch _ reg _).symm

/-- So do the logical operations on a constant. -/
theorem logicImmediate_meets (op : LogicOp) : (Instr.logicImmediate op).Meets order m answer :=
  (meets_iff_of_operand order m answer (show Operand.immediate.pointerless = true from rfl)
    (x := fun v => do setZeroNegative (← op.run v))
    (f := fun s v => s.setReg .A (op.ref.apply s.cpu.A v)) rfl rfl).mpr (logicOp_arch _ op _).symm

/-- So does `BIT`. -/
theorem bit_meets {addr : Addressing} (h : addr.pointerless = true) :
    (Instr.bit addr).Meets order m answer :=
  (meets_iff_of_operand order m answer (show (Operand.memory addr).pointerless = true from h)
    (x := bitOp)
    (f := fun s v => s.setFlags
      { s.cpu.flags with Z := s.cpu.A &&& v = 0, N := v.getLsbD 7, V := v.getLsbD 6 })
    rfl rfl).mpr (bitOp_arch _ _).symm

/-- So do the operations in place. -/
theorem rmw_meets (op : RmwOp) {addr : Addressing} (h : addr.pointerless = true) :
    (Instr.rmw op addr).Meets order m answer := by
  have hmode : addr.ref ≠ .accumulator := by cases addr <;> decide
  have hrmw := rmwOp_arch (Operand.get (.memory addr) (m.fetched answer)).2 op
    (Operand.get (.memory addr) (m.fetched answer)).1 (addr.get (m.fetched answer)).1
  refine congrArg some (Eq.trans ?_ hrmw.symm)
  rw [operand_refines m answer (show (Operand.memory addr).pointerless = true from h), operand_arch,
    address_refines m answer h]
  simp only [exec, if_neg hmode]
  rfl

/-- The address a branch goes to. -/
theorem takeBranch_target (pc : U16) (offset : U8) :
    BitVec.ofInt 16 (pc.toNat +
        if offset ≥ 0x80 then (offset.toNat : Int) - 256 else offset.toNat) =
      pc + offset.signExtend 16 := by
  rw [signedValue_eq, ofInt_toNat_add, BitVec.signExtend]

/-- So do the branches. -/
theorem branch_meets {flag : U8} (h : flag ∈ flagBits) (wanted : Bool) :
    (Instr.branch flag wanted).Meets order m answer := by
  have hflag : m.arch.cpu.flags.get (flagRef flag) =
      decide ((m.fetched answer).registers.flags &&& flag ≠ 0) :=
    ofByte_get flag h m.registers.flags
  refine congrArg some ?_
  show _ = (branchBody flag wanted (m.fetched answer)).2.arch
  rw [branchBody_run]
  simp only [exec, hflag]
  by_cases htaken : decide ((m.fetched answer).registers.flags &&& flag ≠ 0) = wanted
  · rw [if_pos htaken, if_pos htaken]
    exact (arch_eq rfl rfl rfl rfl (takeBranch_target _ _) rfl rfl).symm
  · rw [if_neg htaken, if_neg htaken]
    rfl

end

/-! ### The cases that are not always -/

section
variable (order : EvalOrder) (m : Machine) (answer : Addr)

/-- The operands on which `ADC_op` and `SBC_op` get the overflow flag right, one order of evaluation
at a time.  `S` is the byte of the result. -/
def ArithOp.OverflowRight : ArithOp → EvalOrder → (A M S : U8) → Prop
  | .adc, .leftFirst,  A, M, _ => A.msb = false ∨ M.msb = false
  | .sbc, .leftFirst,  A, M, _ => A.msb = true ∨ M.msb = false
  | _,    .rightFirst, A, _, S => A.msb = true ∨ S.msb = false

/-- The overflow flag is right when the code's is that of the reference. -/
theorem ArithOp.overflowRight_iff (op : ArithOp) (order : EvalOrder) (A M : U8) {C : Int}
    (hC : C = 0 ∨ C = 1) :
    (op.overflow order A M (BitVec.ofInt 8 (op.exact A.toNat M.toNat C)) = true ↔
        Overflows (op.exact A.toInt M.toInt C)) ↔
      op.OverflowRight order A M (BitVec.ofInt 8 (op.exact A.toNat M.toNat C)) := by
  have hS := toNat_ofInt_eight (op.exact A.toNat M.toNat C)
  generalize BitVec.ofInt 8 (op.exact A.toNat M.toNat C) = S at hS ⊢
  obtain ⟨hl, hr⟩ := op.overflow_msb A M S
  have hA := msb_iff A
  have hM := msb_iff M
  have hSm := msb_iff S
  have hA8 := A.isLt
  have hM8 := M.isLt
  cases op <;> cases order <;>
    simp only [hl, hr, ArithOp.exact, ArithOp.OverflowRight, Overflows, toInt_of_msb A,
      toInt_of_msb M] at hS ⊢ <;>
    cases ha : A.msb <;> cases hm : M.msb <;> cases hs : S.msb <;>
    simp only [ha, hm, hs, if_true, Bool.false_eq_true, if_false, true_iff, false_iff] at * <;>
    simp <;> omega

/-- The carry that `ADC` and `SBC` add is the flip-flop. -/
theorem carryIn_eq_toNat (flags : U8) : carryIn flags = ((Flags.ofByte flags).C.toNat : Int) := by
  rw [carry_eq]
  show (if flags &&& flagCarry ≠ 0 then (1 : Int) else 0) = _
  by_cases hc : flags &&& flagCarry ≠ 0
  · rw [if_pos hc, decide_eq_true hc]
    rfl
  · rw [if_neg hc, decide_eq_false hc]
    rfl

/-- The processor's arithmetic. -/
def ArithOp.cpu : ArithOp → Mos6502.Cpu → U8 → Mos6502.Cpu
  | .adc => .add
  | .sbc => .subtract

/-- The reference sets overflow when the signed result does not fit. -/
theorem ArithOp.cpu_overflow (op : ArithOp) (r : Registers) (M : U8) :
    (op.cpu r.cpu M).flags.V = true ↔
      Overflows (op.exact r.A.toInt M.toInt (carryIn r.flags)) := by
  rw [carryIn_eq_toNat]
  cases op <;> exact decide_eq_true_iff

/-- The registers of `ADC_op` and `SBC_op` are the processor's but for the overflow flag. -/
theorem ArithOp.registersAfter_cpu (op : ArithOp) (order : EvalOrder) (M : U8) (r : Registers) :
    let sum := op.exact r.A.toNat M.toNat (carryIn r.flags)
    (op.registersAfter order M sum r).cpu =
      { op.cpu r.cpu M with
        flags := { (op.cpu r.cpu M).flags with
          V := op.overflow order r.A M (BitVec.ofInt 8 sum) } } := by
  obtain ⟨hC, -, -, -, hV, -⟩ := mem_flagBits
  cases op <;>
    simp only [ArithOp.registersAfter, Registers.cpu, ofByte_result, ofByte_setFlag _ hC,
      ofByte_setFlag _ hV, carryIn_eq_toNat] <;> rfl

/-- An arithmetic operation is the processor's when it gets the overflow flag right. -/
theorem arithOp_arch_iff (op : ArithOp) (M : U8) (s : Machine) :
    { s.arch with cpu := op.cpu s.arch.cpu M } = (op.run order M s).2.arch ↔
      op.OverflowRight order s.registers.A M
        (BitVec.ofInt 8 (op.exact s.registers.A.toNat M.toNat (carryIn s.registers.flags))) := by
  have hV := op.cpu_overflow s.registers M
  rw [← op.overflowRight_iff order _ _ (carryIn_eq s.registers.flags), ← hV,
    arch_of_apart (op.run_apart order M) s, op.run_registers, op.registersAfter_cpu]
  constructor
  · intro h
    have hv := congrArg (fun t : Mos6502.State Memory => t.cpu.flags.V) h
    exact Bool.eq_iff_iff.mp hv.symm
  · intro h
    rw [Bool.eq_iff_iff.mpr h]
    rfl

/-- `ADC` and `SBC` do what the reference says when their overflow flag is right. -/
theorem arith_meets_iff (op : ArithOp) {operand : Operand} (h : operand.pointerless = true) :
    (Instr.arith op operand).Meets order m answer ↔
      op.OverflowRight order m.registers.A (m.operand operand.mode)
        (BitVec.ofInt 8 (op.exact m.registers.A.toNat (m.operand operand.mode).toNat
          (carryIn m.registers.flags))) := by
  have hmeets := meets_iff_of_operand order m answer h
    (x := op.run order) (f := fun s v => { s with cpu := op.cpu s.cpu v })
    (show (Instr.arith op operand).run order = _ from rfl) (by cases op <;> rfl)
  have hA : (operand.get (m.fetched answer)).2.registers.A = m.registers.A :=
    operand.get_still.comp (fun s => s.registers.A) (m.fetched answer)
  have hflags : (operand.get (m.fetched answer)).2.registers.flags = m.registers.flags :=
    operand.get_still.comp (fun s => s.registers.flags) (m.fetched answer)
  rw [hmeets, arithOp_arch_iff, hA, hflags]

/-! ### Comparisons -/

/-- The flags of a comparison, as flip-flops. -/
theorem ofByte_compare (flags : U8) (carry zero negative : Bool) :
    Flags.ofByte (setCarryZeroNegative flags carry zero negative) =
      { Flags.ofByte flags with C := carry, Z := zero, N := negative } := by
  rw [setCarryZeroNegative, ofByte_setFlag _ (by decide), ofByte_setFlag _ (by decide),
    ofByte_setFlag _ (by decide)]
  rfl

/-- A comparison is the processor's when the difference has the sign of its byte. -/
theorem compareOp_arch_iff (R M : U8) (s : Machine) :
    s.arch.setFlags { s.arch.cpu.flags.result (R - M) with C := M ≤ R } = (cmpOp M R s).2.arch ↔
      R ≥ M ∨ 128 < M.toNat - R.toNat := by
  have hcmp : (cmpOp M R s).2.arch = s.arch.setFlags
      { s.arch.cpu.flags with
        C := R ≥ M, Z := R = M, N := (R.toNat : Int) - M.toNat > 127 } :=
    arch_eq rfl rfl rfl rfl rfl (ofByte_compare _ _ _ _) rfl
  have hzero : decide (R - M = 0) = decide (R = M) :=
    decide_eq_decide.mpr (by constructor <;> intro h <;> bv_omega)
  rw [← borrow_negative_iff, hcmp, Flags.result, hzero]
  constructor
  · intro h
    have hN := congrArg (fun t : Mos6502.State Memory => t.cpu.flags.N) h
    rw [← decide_eq_true_iff (p := (R.toNat : Int) - M.toNat > 127)]
    exact Bool.eq_iff_iff.mp hN.symm
  · intro h
    have hN : decide ((R.toNat : Int) - M.toNat > 127) = (R - M).msb := by
      rw [Bool.eq_iff_iff, decide_eq_true_iff, h]
    rw [hN]

theorem compare_meets_iff (reg : Reg) {operand : Operand} (h : operand.pointerless = true) :
    let R := reg.value m.registers
    let M := m.operand operand.mode
    (Instr.compare reg operand).Meets order m answer ↔ R ≥ M ∨ 128 < M.toNat - R.toNat := by
  intro R M
  have hmeets := meets_iff_of_operand order m answer h
    (x := fun v => do cmpOp v (← reg.get))
    (f := fun s v => s.setFlags
      { s.cpu.flags.result (s.cpu.get reg.ref - v) with C := v ≤ s.cpu.get reg.ref })
    (show (Instr.compare reg operand).run order = _ from rfl) rfl
  have hget : ∀ s : Machine, s.arch.cpu.get reg.ref = reg.value s.registers := by
    intro s
    cases reg <;> rfl
  have hcmp : ∀ s : Machine, ((do cmpOp M (← reg.get) : CPU Unit) s).2.arch =
      (cmpOp M (reg.value s.registers) s).2.arch := by
    intro s
    cases reg <;> rfl
  have hR : reg.value (operand.get (m.fetched answer)).2.registers = R := by
    have hregs := operand.get_still.comp (fun s => reg.value s.registers) (m.fetched answer)
    cases reg <;> exact hregs
  rw [hmeets, hget, hcmp, compareOp_arch_iff, hR]

/-! ### Stores -/

/-- Two stores of a byte are the same store, or both find the byte there. -/
theorem storeRAM_eq_iff {RAM : U16 → U8} {a b : U16} {v : U8} :
    storeRAM RAM a v = storeRAM RAM b v ↔
      a = b ∨ ((a < 0x800 → v = RAM a) ∧ (b < 0x800 → v = RAM b)) := by
  constructor
  · intro h
    by_cases hab : a = b
    · exact .inl hab
    · refine .inr ⟨fun ha => ?_, fun hb => ?_⟩
      · have hcell := congrFun h a
        rwa [storeRAM_self v ha, storeRAM_of_ne v hab] at hcell
      · have hcell := congrFun h b
        rw [storeRAM_self v hb, storeRAM_of_ne v (Ne.symm hab)] at hcell
        exact hcell.symm
  · rintro (rfl | ⟨ha, hb⟩)
    · rfl
    · funext i
      rw [storeRAM_eq_self_iff.mpr ha, storeRAM_eq_self_iff.mpr hb]

theorem store_meets_iff (reg : Reg) (addr : Addressing) :
    let v := reg.value m.registers
    let a := m.operandAddress addr.mode (m.registers.programCounter + 1)
    let b := m.arch.address bus addr.ref
    (Instr.store reg addr).Meets order m answer ↔
      a = b ∨ ((a < 0x800 → v = m.RAM a) ∧ (b < 0x800 → v = m.RAM b)) := by
  intro v a b
  rw [← storeRAM_eq_iff, eq_comm]
  have hleaves : (Instr.store reg addr).leaves order m answer =
      { m.behind addr.ref with mem := (storeRAM m.RAM a v, m.ROM) } := by
    cases reg <;> cases addr <;> rfl
  have hexec : exec bus (.store reg.ref) addr.ref m.arch =
      { m.behind addr.ref with mem := (storeRAM m.RAM b v, m.ROM) } := by
    cases reg <;> rfl
  rw [Instr.Meets, hleaves]
  show some (exec bus (.store reg.ref) addr.ref m.arch) = _ ↔ _
  rw [hexec, Option.some_inj]
  constructor
  · intro h
    exact congrArg (fun t : Mos6502.State Memory => t.mem.1) h
  · intro h
    rw [h]

/-- `ORA`, `EOR` and `AND` on memory are the processor's when what they store is there already. -/
theorem logic_meets_iff (op : LogicOp) {addr : Addressing} (h : addr.pointerless = true) :
    let a := m.operandAddress addr.mode (m.registers.programCounter + 1)
    (Instr.logic op addr).Meets order m answer ↔
      (a < 0x800 → op.Keeps m.registers.A (m.RAM a)) := by
  intro a
  have ha : m.arch.address bus addr.ref = a := by
    cases addr with
    | indirectX | indirectY => cases h
    | zeroPage | zeroPageX | absolute | absoluteX => rfl
  have hexec : exec bus (.logic op.ref) addr.ref m.arch =
      (m.behind addr.ref).setReg .A (op.result m.registers.A (m.peek a)) := by
    rw [← ha]
    cases op <;> rfl
  have hleaves : (Instr.logic op addr).leaves order m answer =
      { (m.behind addr.ref).setReg .A (op.result m.registers.A (m.peek a)) with
        mem := (storeRAM m.RAM a (op.result m.registers.A (m.peek a)), m.ROM) } := by
    cases addr with
    | indirectX | indirectY => cases h
    | zeroPage | zeroPageX | absolute | absoluteX =>
        cases op <;> exact arch_eq rfl rfl rfl rfl rfl (ofByte_result _ _) rfl
  have hstore : storeRAM m.RAM a (op.result m.registers.A (m.peek a)) = m.RAM ↔
      (a < 0x800 → op.Keeps m.registers.A (m.RAM a)) := by
    rw [funext_iff, storeRAM_eq_self_iff]
    refine forall_congr' fun hlt => ?_
    rw [Machine.peek_RAM hlt, op.result_eq_iff]
  rw [Instr.Meets, hleaves, ← hstore]
  show some (exec bus (.logic op.ref) addr.ref m.arch) = _ ↔ _
  rw [hexec, Option.some_inj]
  constructor
  · intro h
    exact (congrArg (fun t : Mos6502.State Memory => t.mem.1) h).symm
  · intro h
    rw [h]
    rfl

theorem jmpIndirect_meets_iff :
    let a := m.operandAddress .absolute (m.registers.programCounter + 1)
    Instr.jmpIndirect.Meets order m answer ↔ m.peek (a + 1) = m.peek (nextInPage a) := by
  intro a
  have hleaves : Instr.jmpIndirect.leaves order m answer =
      (m.behind .indirect).jump (word (m.peek (a + 1)) (m.peek a)) := rfl
  have hexec : exec bus .jmp .indirect m.arch =
      (m.behind .indirect).jump (word (m.peek (nextInPage a)) (m.peek a)) := rfl
  rw [Instr.Meets, hleaves]
  show some (exec bus .jmp .indirect m.arch) = _ ↔ _
  rw [hexec, Option.some_inj]
  constructor
  · intro h
    exact (word_injective (congrArg (fun t : Mos6502.State Memory => t.cpu.PC) h)).1.symm
  · intro h
    rw [h]

/-! ### `BRK` and the shifts of the accumulator -/

theorem interrupt_status_iff : ∀ flags : U8,
    (Flags.ofByte flags).I = true ∧ flags ||| 0x30 = flags ↔ flags &&& 0x34 = 0x34 := by
  decide

/-- `BRK` pushes the status register as it is, and does not set `I`. -/
theorem brk_meets_iff : Instr.brk.Meets order m answer ↔ m.registers.flags &&& 0x34 = 0x34 := by
  -- the memory when the status is pushed, and the state behind the instruction
  set pushed := ((m.behind .implied).pushWord bus (m.arch.cpu.PC + 1 + 1)).mem with hpushed
  set sp := m.registers.stackPointer - 1 - 1 with hsp
  set next := ((m.behind .implied).pushWord bus (m.arch.cpu.PC + 1 + 1)).push bus 0 with hnext
  have hleaves : Instr.brk.leaves order m answer =
      { (next.jump (word (m.peek 0xFFFF) (m.peek 0xFFFE))) with
        mem := bus.write pushed (stackAddress sp) m.registers.flags } := rfl
  have hexec : exec bus .brk .implied m.arch =
      { (next.jump (word (m.peek 0xFFFF) (m.peek 0xFFFE))).setFlags
          { m.arch.cpu.flags with I := true } with
        mem := bus.write pushed (stackAddress sp) (Flags.ofByte m.registers.flags).byte } := rfl
  rw [Instr.Meets, hleaves, ← interrupt_status_iff, ← byte_ofByte]
  show some (exec bus .brk .implied m.arch) = _ ↔ _
  rw [hexec, Option.some_inj]
  constructor
  · intro h
    have hI := congrArg (fun t : Mos6502.State Memory => t.cpu.flags.I) h
    have hcell := congrArg (fun t : Mos6502.State Memory => t.mem.1 (stackAddress sp)) h
    simp only [bus, storeRAM_self _ (stackAddress_lt sp)] at hcell
    exact ⟨hI.symm, hcell⟩
  · rintro ⟨hI, hbyte⟩
    rw [hbyte]
    exact congrArg (fun b => { (next.jump (word (m.peek 0xFFFF) (m.peek 0xFFFE))).setFlags
      { m.arch.cpu.flags with I := b } with
        mem := bus.write pushed (stackAddress sp) m.registers.flags }) hI.symm

/-- The shifts of the code are those of the reference. -/
theorem ShiftOp.apply_eq (op : ShiftOp) (v flags : U8) :
    op.memory.ref.apply (Flags.ofByte flags).C v = (op.result v flags, op.bitOut v) := by
  have hbit := and_eq_getLsbD v
  cases op with
  | asl => exact Prod.ext rfl hbit.1.symm
  | lsr => exact Prod.ext rfl hbit.2.2.symm
  | rol => exact Prod.ext (rotate_eq flags v).1.symm hbit.1.symm

/-- A shift of the accumulator is the processor's when its carry is the bit shifted out. -/
theorem accumulator_meets_iff (op : ShiftOp) :
    op.accumulator.Meets order m answer ↔
      op.bitOut m.registers.A = op.accumulatorCarry m.registers.A m.registers.flags := by
  set A := op.result m.registers.A m.registers.flags with hA
  have hleaves : op.accumulator.leaves order m answer =
      { m.behind .accumulator with
        cpu := { (m.behind .accumulator).cpu with
          A := A
          flags := { m.arch.cpu.flags.result A with
            C := op.accumulatorCarry m.registers.A m.registers.flags } } } := by
    have hon : op.accumulator.onRegisters = true := by cases op <;> rfl
    rw [Instr.leaves, arch_of_apart (Instr.run_apart order hon), op.accumulator_registers,
      Registers.cpu, shiftedFlags, ofByte_carryResult]
    rfl
  have hexec : exec bus (.modify op.memory.ref) .accumulator m.arch =
      { m.behind .accumulator with
        cpu := { (m.behind .accumulator).cpu with
          A := A
          flags := { m.arch.cpu.flags.result A with C := op.bitOut m.registers.A } } } := by
    have happly := op.apply_eq m.registers.A m.registers.flags
    simp only [exec, if_pos]
    rw [show m.arch.cpu.flags.C = (Flags.ofByte m.registers.flags).C from rfl,
      show m.arch.cpu.A = m.registers.A from rfl, happly]
    rfl
  rw [Instr.Meets, hleaves]
  have href : op.accumulator.ref.map (fun (op, mode) => exec bus op mode m.arch) =
      some (exec bus (.modify op.memory.ref) .accumulator m.arch) := by cases op <;> rfl
  rw [href, hexec, Option.some_inj]
  constructor
  · intro h
    exact congrArg (fun t : Mos6502.State Memory => t.cpu.flags.C) h
  · intro h
    rw [h]

/-! ### Faithful states -/

/-- The states in which a case does what its instruction does on the processor: the condition of
each of the cases that have one. -/
def Instr.Faithful (order : EvalOrder) (m : Machine) : Instr → Prop
  | .hlt => False
  | .store reg addr =>
      let v := reg.value m.registers
      let a := m.operandAddress addr.mode (m.registers.programCounter + 1)
      let b := m.arch.address bus addr.ref
      a = b ∨ ((a < 0x800 → v = m.RAM a) ∧ (b < 0x800 → v = m.RAM b))
  | .jmpIndirect =>
      let a := m.operandAddress .absolute (m.registers.programCounter + 1)
      m.peek (a + 1) = m.peek (nextInPage a)
  | .lsrA => m.registers.A &&& 0x01 ≠ 0 ∨ ¬ hasFlag m.registers.flags flagCarry
  | .logic op addr =>
      let a := m.operandAddress addr.mode (m.registers.programCounter + 1)
      a < 0x800 → op.Keeps m.registers.A (m.RAM a)
  | .arith op operand =>
      op.OverflowRight order m.registers.A (m.operand operand.mode)
        (BitVec.ofInt 8 (op.exact m.registers.A.toNat (m.operand operand.mode).toNat
          (carryIn m.registers.flags)))
  | .compare reg operand =>
      let R := reg.value m.registers
      let M := m.operand operand.mode
      R ≥ M ∨ 128 < M.toNat - R.toNat
  | .brk => m.registers.flags &&& 0x34 = 0x34
  | _ => True

/-- **One case.** -/
theorem Instr.meets_iff {instr : Instr} (h : instr.regular = true) :
    instr.Meets order m answer ↔ instr.Faithful order m := by
  cases instr with
  | hlt => exact iff_of_false nofun id
  | store reg addr => exact store_meets_iff order m answer reg addr
  | jmpIndirect => exact jmpIndirect_meets_iff order m answer
  | logic op addr => exact logic_meets_iff order m answer op h
  | arith op operand => exact arith_meets_iff order m answer op h
  | compare reg operand => exact compare_meets_iff order m answer reg h
  | brk => exact brk_meets_iff order m answer
  | lsrA =>
      refine (accumulator_meets_iff order m answer .lsr).trans ?_
      simp only [ShiftOp.accumulatorCarry, ShiftOp.bitOut, Instr.Faithful]
      by_cases hc : hasFlag m.registers.flags flagCarry
      · simp [hc]
      · simp [hc]
  | aslA => exact iff_of_true ((accumulator_meets_iff order m answer .asl).mpr rfl) trivial
  | rolA => exact iff_of_true ((accumulator_meets_iff order m answer .rol).mpr rfl) trivial
  | load reg operand => exact iff_of_true (load_meets order m answer reg h) trivial
  | rmw op addr => exact iff_of_true (rmw_meets order m answer op h) trivial
  | bit addr => exact iff_of_true (bit_meets order m answer h) trivial
  | logicImmediate op => exact iff_of_true (logicImmediate_meets order m answer op) trivial
  | branch flag wanted =>
      have hflag : flag ∈ flagBits := List.contains_iff_mem.mp h
      exact iff_of_true (branch_meets order m answer hflag wanted) trivial
  | setFlag flag value =>
      have hset := ofByte_setFlag flag (List.contains_iff_mem.mp h) value m.registers.flags
      have harch : (Instr.setFlag flag value).leaves order m answer =
          exec bus (.setFlag (flagRef flag) value) .implied m.arch :=
        arch_eq rfl rfl rfl rfl rfl hset rfl
      exact iff_of_true (congrArg some harch.symm) trivial
  | increment reg | decrement reg =>
      have hset := setReg_arch ((reg.get (m.fetched answer)).2) reg
      refine iff_of_true (congrArg some ?_) trivial
      cases reg <;> exact (hset _).symm
  | transfer dst src =>
      have hset := setReg_arch ((src.get (m.fetched answer)).2) dst (src.value m.registers)
      refine iff_of_true (congrArg some ?_) trivial
      cases src <;> exact hset.symm
  | pla =>
      have hset := setReg_arch (pullStack (m.fetched answer)).2 .A (pullStack (m.fetched answer)).1
      exact iff_of_true (congrArg some hset.symm) trivial
  | tsx =>
      have hset := setReg_arch (stackPointer (m.fetched answer)).2 .X m.registers.stackPointer
      exact iff_of_true (congrArg some hset.symm) trivial
  | php =>
      refine iff_of_true (congrArg some ?_) trivial
      show (m.behind .implied).push bus (Flags.ofByte m.registers.flags).byte = _
      rw [byte_ofByte]
      rfl
  | rti =>
      refine iff_of_true (congrArg some ?_) trivial
      exact congrArg (fun pc => Mos6502.State.jump _ pc) (BitVec.add_zero _)
  | pha | jsr | rts | jmp | txs | plp | nop => exact iff_of_true rfl trivial

end

/-! ### One step -/

/-- The states in which a step is the processor's.  Without a case, the emulator goes on behind the
opcode: so do `CLD` when `D` is clear, and `ROR A` when `A` and the flags are what it makes of
them. -/
def Machine.Faithful (order : EvalOrder) (m : Machine) : Prop :=
  match decode m.nextOpcode with
  | some instr => m.nextOpcode ≠ 0x88 ∧ instr.Faithful order m
  | none =>
      (m.nextOpcode = 0xD8 ∧ ¬ hasFlag m.registers.flags flagDecimal) ∨
        (m.nextOpcode = 0x6A ∧
          ((m.registers.A = 0x00 ∧ m.registers.flags &&& 0x83 = 0x02) ∨
            (m.registers.A = 0xFF ∧ m.registers.flags &&& 0x83 = 0x81)))

/-- The opcodes without a case go on behind themselves, and but for two of them have operands. -/
theorem missing_opcodes : ∀ opcode : U8, decode opcode = none → ∀ p ∈ Mos6502.decode opcode,
    p.1.leaves = false ∧
      (p.2 ≠ .implied ∧ p.2 ≠ .accumulator ∨ opcode = 0xD8 ∨ opcode = 0x6A) := by
  decide +kernel

/-- Behind an operand is not where it was. -/
theorem behind_ne {mode : Mos6502.Mode} (h : mode ≠ .implied ∧ mode ≠ .accumulator) (pc : U16) :
    mode.behind pc ≠ pc := by
  cases mode <;> simp [Mos6502.Mode.behind] at h ⊢ <;> bv_omega

/-- The bytes that `ROR` leaves as they are, with the carry. -/
theorem ror_fixed : ∀ (carry : Bool) (v : U8), Mos6502.Modify.ror.apply carry v = (v, carry) ↔
    (v = 0x00 ∧ carry = false) ∨ (v = 0xFF ∧ carry = true) := by
  decide

theorem ofByte_fixed : ∀ flags : U8,
    ((Flags.ofByte flags).C = false ∧ (Flags.ofByte flags).result 0x00 = Flags.ofByte flags ↔
        flags &&& 0x83 = 0x02) ∧
      ((Flags.ofByte flags).C = true ∧ (Flags.ofByte flags).result 0xFF = Flags.ofByte flags ↔
        flags &&& 0x83 = 0x81) := by
  decide

/-- `ROR A` does nothing but go on exactly on these bytes and flags. -/
theorem ror_goesOn_iff (m : Machine) :
    exec bus (.modify .ror) .accumulator m.arch = m.behind .implied ↔
      (m.registers.A = 0x00 ∧ m.registers.flags &&& 0x83 = 0x02) ∨
        (m.registers.A = 0xFF ∧ m.registers.flags &&& 0x83 = 0x81) := by
  set flags := Flags.ofByte m.registers.flags with hflags
  set r := Mos6502.Modify.ror.apply flags.C m.registers.A with hr
  have hexec : exec bus (.modify .ror) .accumulator m.arch =
      { m.behind .accumulator with
        cpu := { (m.behind .accumulator).cpu with
          A := r.1
          flags := { flags.result r.1 with C := r.2 } } } := by
    simp only [exec, if_pos]
    rfl
  have hsame : exec bus (.modify .ror) .accumulator m.arch = m.behind .implied ↔
      r = (m.registers.A, flags.C) ∧ flags.result m.registers.A = flags := by
    rw [hexec]
    constructor
    · intro h
      have hA := congrArg (fun t : Mos6502.State Memory => t.cpu.A) h
      have hf := congrArg (fun t : Mos6502.State Memory => t.cpu.flags) h
      have hC := congrArg (fun f : Flags => f.C) hf
      have hr' : r = (m.registers.A, flags.C) := Prod.ext hA hC
      rw [hr'] at hf
      exact ⟨hr', hf⟩
    · rintro ⟨hr', hf⟩
      rw [hr', hf]
      rfl
  rw [hsame, hr, ror_fixed, ← (ofByte_fixed m.registers.flags).1, ← (ofByte_fixed _).2]
  constructor
  · rintro ⟨⟨hA, hC⟩ | ⟨hA, hC⟩, hf⟩
    · exact .inl ⟨hA, hC, hA ▸ hf⟩
    · exact .inr ⟨hA, hC, hA ▸ hf⟩
  · rintro (⟨hA, hC, hf⟩ | ⟨hA, hC, hf⟩)
    · exact ⟨.inl ⟨hA, hC⟩, hA ▸ hf⟩
    · exact ⟨.inr ⟨hA, hC⟩, hA ▸ hf⟩

/-- `CLD` does nothing but go on exactly when `D` is clear. -/
theorem cld_goesOn_iff (m : Machine) :
    exec bus (.setFlag .D false) .implied m.arch = m.behind .implied ↔
      ¬ hasFlag m.registers.flags flagDecimal := by
  have hD := ofByte_get flagDecimal (by decide) m.registers.flags
  have hclear : ¬ hasFlag m.registers.flags flagDecimal ↔
      (Flags.ofByte m.registers.flags).D = false := by
    rw [show (Flags.ofByte m.registers.flags).D = _ from hD, decide_eq_false_iff_not]
  rw [hclear]
  constructor
  · intro h
    exact (congrArg (fun t : Mos6502.State Memory => t.cpu.flags.D) h).symm
  · intro h
    exact congrArg (fun b =>
      (m.behind .implied).setFlags { Flags.ofByte m.registers.flags with D := b }) h.symm

section
variable (order : EvalOrder) (answer : Addr) (m : Machine)

/-- **One step**: the emulator's is the processor's exactly in the faithful states. -/
theorem emulateCPU_refines_iff :
    Mos6502.step bus m.arch = some (emulateCPU order answer m).2.arch ↔ m.Faithful order := by
  have hopcode : m.arch.opcode bus = m.nextOpcode := rfl
  rw [Mos6502.step, hopcode, Machine.Faithful]
  cases hd : decode m.nextOpcode with
  | none =>
      have hskip : (emulateCPU order answer m).2.arch = m.behind .implied := by
        rw [emulateCPU_run, switchOpcode_of_decode_none hd]
        rfl
      rw [hskip]
      cases hp : Mos6502.decode m.nextOpcode with
      | none =>
          refine iff_of_false (Option.some_ne_none _).symm ?_
          rintro (⟨h, -⟩ | ⟨h, -⟩) <;> exact absurd hp (by rw [h]; decide)
      | some p =>
          obtain ⟨op, mode⟩ := p
          obtain ⟨hleaves, hmode⟩ := missing_opcodes m.nextOpcode hd (op, mode) hp
          have hpc := Mos6502.exec_PC bus mode m.arch hleaves
          rw [Option.map_some, Option.some_inj]
          rcases hmode with hmode | h | h
          · refine iff_of_false (fun h => ?_) ?_
            · have hpc' : (exec bus op mode m.arch).cpu.PC = m.arch.cpu.PC + 1 := by
                rw [show exec bus op mode m.arch = _ from h]
                rfl
              rw [hpc'] at hpc
              exact behind_ne hmode _ hpc.symm
            · rintro (⟨h, -⟩ | ⟨h, -⟩) <;>
                · rw [h] at hp
                  cases hp
                  simp at hmode
          · rw [h] at hp ⊢
            cases hp
            simpa using cld_goesOn_iff m
          · rw [h] at hp ⊢
            cases hp
            simpa using ror_goesOn_iff m
  | some instr =>
      rw [emulateCPU_of_decode hd]
      by_cases hdey : m.nextOpcode = 0x88
      · refine iff_of_false (fun h => ?_) fun h => h.1 hdey
        rw [hdey] at hd h
        cases hd
        have hX : m.registers.X = m.registers.X - 1 :=
          congrArg (fun t : Mos6502.State Memory => t.cpu.X) (Option.some.inj h)
        bv_omega
      · rw [decode_ref hd hdey]
        exact (Instr.meets_iff order m answer (regular_of_decode hd)).trans
          (and_iff_right hdey).symm

end

/-! ### Runs -/

/-- **Runs.**  The first `n` instructions are the processor's exactly when every state they start
from is faithful. -/
theorem run_refines_iff (order : EvalOrder) (answers : Nat → Addr) (m : Machine) (n : Nat) :
    (∀ k ≤ n, Mos6502.run bus k m.arch = some (m.after order answers k).arch) ↔
      ∀ k < n, (m.after order answers k).Faithful order :=
  Mos6502.run_simulates_iff Machine.arch (fun k s => (emulateCPU order (answers k) s).2)
    (m.after order answers) (fun _ => rfl)
    (fun k s => emulateCPU_refines_iff order (answers k) s) n

/-- The states behind the first instruction. -/
theorem after_succ (order : EvalOrder) (answers : Nat → Addr) (m : Machine) (n : Nat) :
    m.after order answers (n + 1) =
      (emulateCPU order (answers 0) m).2.after order (fun i => answers (i + 1)) n := by
  induction n with
  | zero => rfl
  | succ n ih =>
      show (emulateCPU order (answers (n + 1)) (m.after order answers (n + 1))).2 = _
      rw [ih]
      rfl

/-- The loop of `emu_run` ends in the first state that is not running. -/
theorem emuRun_eq_after (order : EvalOrder) {n : Nat} :
    ∀ (answers : Nat → Addr) (m : Machine),
      (∀ k < n, (m.after order answers k).running = true) →
      (m.after order answers n).running = false →
      ∀ fuel, n ≤ fuel → (emuRun order fuel answers m).2 = m.after order answers n := by
  induction n with
  | zero => exact fun answers m _ hstop fuel _ => emuRun_of_not_running order fuel answers hstop
  | succ n ih =>
      intro answers m hrun hstop fuel hfuel
      obtain ⟨fuel, rfl⟩ := Nat.exists_eq_succ_of_ne_zero (by omega : fuel ≠ 0)
      have hzero : m.running = true := hrun 0 (Nat.succ_pos n)
      rw [emuRun_of_running order fuel answers hzero, after_succ]
      rw [after_succ] at hstop
      refine ih _ _ (fun k hk => ?_) hstop fuel (Nat.le_of_succ_le_succ hfuel)
      rw [← after_succ]
      exact hrun (k + 1) (Nat.succ_lt_succ hk)

/-- The loop does not run for ever: every round lowers the measure. -/
theorem exists_not_running (order : EvalOrder) (answers : Nat → Addr) (m : Machine) :
    ∃ n, (m.after order answers n).running = false := by
  by_contra hnone
  have hrun : ∀ n, (m.after order answers n).running = true := by
    intro n
    by_contra hn
    exact hnone ⟨n, Bool.not_eq_true _ ▸ hn⟩
  have hmeasure : ∀ n, (m.after order answers n).measure + n ≤ m.measure := by
    intro n
    induction n with
    | zero =>
        have hzero : m.after order answers 0 = m := rfl
        rw [hzero, Nat.add_zero]
    | succ n ih =>
        have hcycles := ((m.after order answers n).running_iff.mp (hrun n)).2
        have hlt : (m.after order answers (n + 1)).measure < (m.after order answers n).measure :=
          measure_emulateCPU order (answers n) hcycles
        omega
  have hpast := hmeasure (m.measure + 1)
  omega

/-- **`emu_run`.**  The loop stops after some number `n` of instructions, and these are the
processor's exactly when the states they start from are faithful. -/
theorem emuRun_refines_iff (order : EvalOrder) (answers : Nat → Addr) (m : Machine) :
    ∃ n, (∀ fuel, n ≤ fuel → (emuRun order fuel answers m).2 = m.after order answers n) ∧
      (m.after order answers n).running = false ∧
      ((∀ k ≤ n, Mos6502.run bus k m.arch = some (m.after order answers k).arch) ↔
        ∀ k < n, (m.after order answers k).Faithful order) := by
  have hstops := exists_not_running order answers m
  refine ⟨Nat.find hstops, ?_, Nat.find_spec hstops, run_refines_iff order answers m _⟩
  refine emuRun_eq_after order answers m (fun k hk => ?_) (Nat.find_spec hstops)
  exact Bool.eq_true_of_not_eq_false (Nat.find_min hstops hk)

end KernelNES.Emulator
