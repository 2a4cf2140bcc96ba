import KernelNES.Lib.Frame
import KernelNES.Emulator.Cpu

/-!
# Emulator — Instruction

The parts of one `emulate_CPU` step: the fetch (`Machine.fetched`), the case of the `switch`, the
cycles (`Machine.tick`).  Reading an operand moves nothing but the program counter, the debug
tracker and the log (`Machine.still`), and reads it from the address its addressing mode denotes in
the state before (`Addressing.get_value`).  Work on the registers moves nothing but these and the
debug tracker (`Machine.apart`, `Instr.run_apart`).
-/

namespace KernelNES.Emulator
open KernelNES.Lib

/-! ### Fetch, case, cycles -/

/-- The start of `emulate_CPU`, up to the `switch`. -/
def fetchOpcode (answer : Addr) : CPU U8 := do
  resetTracker
  addTracelogEntry answer
  let opcode ← readIncrementPC
  modify fun m => { m with curOpcode := opcode }
  pure opcode

/-- The opcode at the program counter. -/
def Machine.nextOpcode (m : Machine) : U8 := m.peek m.registers.programCounter

/-- The state the `switch` starts from. -/
def Machine.fetched (m : Machine) (answer : Addr) : Machine := (fetchOpcode answer m).2

/-- The cycles added at the end. -/
def Machine.tick (m : Machine) (opcode : U8) : Machine :=
  { m with totalCPUCycles := m.totalCPUCycles + (opcodeTable opcode).cycles }

/-- One step: the fetch, the case of the opcode, and its cycles. -/
theorem emulateCPU_run (order : EvalOrder) (answer : Addr) (m : Machine) :
    (emulateCPU order answer m).2 =
      (switchOpcode order m.nextOpcode (m.fetched answer)).2.tick m.nextOpcode := rfl

section
variable (m : Machine) (answer : Addr)

@[simp] theorem fetched_RAM : (m.fetched answer).RAM = m.RAM := rfl
@[simp] theorem fetched_ROM : (m.fetched answer).ROM = m.ROM := rfl
@[simp] theorem fetched_cpuHalted : (m.fetched answer).cpuHalted = m.cpuHalted := rfl
@[simp] theorem fetched_totalCPUCycles :
    (m.fetched answer).totalCPUCycles = m.totalCPUCycles := rfl
@[simp] theorem fetched_registers : (m.fetched answer).registers =
    { m.registers with programCounter := m.registers.programCounter + 1 } := rfl
@[simp] theorem fetched_peek (a : U16) : (m.fetched answer).peek a = m.peek a := rfl

end

/-- What is decoded is a case of the `switch`. -/
theorem mem_switchCases {opcode : U8} {instr : Instr} (h : decode opcode = some instr) :
    (opcode, instr) ∈ switchCases := by
  obtain ⟨l₁, l₂, e, -⟩ := List.lookup_eq_some_iff.mp h
  exact e ▸ List.mem_append_right l₁ List.mem_cons_self

/-- The `switch` runs the case of the opcode. -/
theorem switchOpcode_of_decode {order : EvalOrder} {opcode : U8} {instr : Instr}
    (h : decode opcode = some instr) : switchOpcode order opcode = instr.run order := by
  rw [switchOpcode, h]

/-- An opcode without a case does nothing. -/
theorem switchOpcode_of_decode_none {order : EvalOrder} {opcode : U8}
    (h : decode opcode = none) : switchOpcode order opcode = pure () := by
  rw [switchOpcode, h]

/-- The step of an opcode with a case is that case, from the fetched state. -/
theorem emulateCPU_of_decode {order : EvalOrder} {answer : Addr} {m : Machine} {instr : Instr}
    (h : decode m.nextOpcode = some instr) : (emulateCPU order answer m).2 =
      (instr.run order (m.fetched answer)).2.tick m.nextOpcode := by
  rw [emulateCPU_run, switchOpcode_of_decode h]

/-- A branch reads its offset and the flags, and is taken or not. -/
theorem branchBody_run (flag : U8) (wanted : Bool) (m : Machine) :
    (branchBody flag wanted m).2 =
      if decide (m.registers.flags &&& flag ≠ 0) = wanted then
        (takeBranch (m.peek m.registers.programCounter) (regStatus (readIncrementPC m).2).2).2
      else (regStatus (readIncrementPC m).2).2 := by
  show ((if decide (m.registers.flags &&& flag ≠ 0) = wanted then _ else _ : CPU Unit) _).2 = _
  split <;> rfl

/-! ### Operand addresses -/

/-- A word, from its bytes. -/
theorem word_toNat (highbyte lowbyte : U8) :
    (word highbyte lowbyte).toNat = lowbyte.toNat + 256 * highbyte.toNat := by
  have hh := highbyte.isLt
  have hl := lowbyte.isLt
  have hor := Nat.two_pow_add_eq_or_of_lt hl highbyte.toNat
  rw [word, BitVec.toNat_or, BitVec.toNat_shiftLeft, BitVec.toNat_setWidth, BitVec.toNat_setWidth,
    Nat.shiftLeft_eq, Nat.mod_eq_of_lt (a := highbyte.toNat) (by omega),
    Nat.mod_eq_of_lt (a := lowbyte.toNat) (by omega), Nat.mod_eq_of_lt (by omega),
    Nat.mul_comm, ← hor]
  omega

/-- The address an instruction whose operand bytes start at `pc` works on, by addressing mode; for
the modes without one, `0`.  The bytes of a pointer are at `base` and `base + 1`, as the source
reads them. -/
def Machine.operandAddress (m : Machine) (mode : AddressingMode) (pc : U16) : U16 :=
  let byte := m.peek pc
  let absolute := word (m.peek (pc + 1)) byte
  let pointer (base : U8) := word (m.peek (base.setWidth 16 + 1)) (m.peek (base.setWidth 16))
  match mode with
  | .immediate => pc
  | .zeroPage  => byte.setWidth 16
  | .zeroPageX => (byte + m.registers.X).setWidth 16
  | .zeroPageY => (byte + m.registers.Y).setWidth 16
  | .absolute  => absolute
  | .absoluteX => absolute + m.registers.X.setWidth 16
  | .absoluteY => absolute + m.registers.Y.setWidth 16
  | .indirectX => pointer (byte + m.registers.X)
  | .indirectY => pointer byte + m.registers.Y.setWidth 16
  | .implied | .accumulator | .absIndirect | .relative | .unknown => 0

/-- The address the instruction at the program counter works on. -/
def Machine.effectiveAddress (m : Machine) : U16 :=
  m.operandAddress (opcodeTable m.nextOpcode).addrMode (m.registers.programCounter + 1)

/-- The mode of the table an addressing helper is for. -/
def Addressing.mode : Addressing → AddressingMode
  | .zeroPage  => .zeroPage
  | .zeroPageX => .zeroPageX
  | .absolute  => .absolute
  | .absoluteX => .absoluteX
  | .indirectX => .indirectX
  | .indirectY => .indirectY

/-- The addressing mode the table gives the operand. -/
def Operand.mode : Operand → AddressingMode
  | .immediate   => .immediate
  | .memory addr => addr.mode

/-- The mode of an instruction with an operand in memory. -/
def Instr.operandMode : Instr → Option AddressingMode
  | .store _ addr | .rmw _ addr | .logic _ addr | .bit addr => some addr.mode
  | .load _ operand | .arith _ operand | .compare _ operand => some operand.mode
  | .logicImmediate _ => some .immediate
  | _ => none

/-- The case of an opcode computes its address the way the opcode's row says. -/
theorem addrMode_of_decode {opcode : U8} {instr : Instr} {mode : AddressingMode}
    (h : decode opcode = some instr) (hm : instr.operandMode = some mode) :
    (opcodeTable opcode).addrMode = mode := by
  have hall : ∀ p ∈ switchCases, p.2.operandMode.all ((opcodeTable p.1).addrMode = ·) = true := by
    decide +kernel
  have := hall _ (mem_switchCases h)
  rw [hm] at this
  simpa using this

/-- Where the operand is, seen from before the fetch. -/
theorem operandAddress_fetched (m : Machine) (answer : Addr) (mode : AddressingMode) :
    (m.fetched answer).operandAddress mode (m.fetched answer).registers.programCounter =
      m.operandAddress mode (m.registers.programCounter + 1) := by
  cases mode <;> rfl

/-- The operand address of a case, in the state it starts from. -/
theorem operandAddress_of_decode {m : Machine} {instr : Instr} {mode : AddressingMode}
    (h : decode m.nextOpcode = some instr) (hm : instr.operandMode = some mode) (answer : Addr) :
    (m.fetched answer).operandAddress mode (m.fetched answer).registers.programCounter =
      m.effectiveAddress := by
  rw [operandAddress_fetched, Machine.effectiveAddress, addrMode_of_decode h hm]

/-- The address is where the table's mode puts it. -/
theorem Addressing.get_value (addr : Addressing) (m : Machine) :
    (addr.get m).1 = m.operandAddress addr.mode m.registers.programCounter := by
  cases addr <;> rfl

/-! ### What reading leaves alone -/

/-- The machine but for what reads move: the program counter, the debug tracker and the log. -/
def Machine.still (m : Machine) : Machine :=
  { m with
    registers := { m.registers with programCounter := 0 }
    debugTracker := ⟨0, 0, false, false⟩
    log := .empty fun _ => .zero }

/-- Computing an address changes no register but the program counter. -/
theorem Addressing.get_still (addr : Addressing) : Preserves Machine.still addr.get := by
  cases addr <;> exact fun _ => rfl

theorem emuRead_still (a : U16) : Preserves Machine.still (emuRead a) := fun _ => rfl

theorem Operand.get_still (operand : Operand) : Preserves Machine.still operand.get := by
  cases operand with
  | immediate => exact fun _ => rfl
  | memory addr => exact addr.get_still.bind emuRead_still

theorem Reg.get_still (reg : Reg) : Preserves Machine.still reg.get := by
  cases reg <;> exact fun _ => rfl

/-- Memory read from equal states. -/
theorem Machine.peek_of_still {m m' : Machine} (h : m'.still = m.still) (a : U16) :
    m'.peek a = m.peek a := by
  have hRAM : m'.still.RAM = m.still.RAM := by rw [h]
  have hROM : m'.still.ROM = m.still.ROM := by rw [h]
  simp only [Machine.still] at hRAM hROM
  simp only [Machine.peek, hRAM, hROM]

/-- Of the registers, reading moves the program counter at most. -/
theorem registers_of_still {α : Type} {x : CPU α} (h : Preserves Machine.still x) (m : Machine) :
    ∃ pc, (x m).2.registers = { m.registers with programCounter := pc } :=
  ⟨_, congrArg (fun r : Registers => { r with
    programCounter := (x m).2.registers.programCounter }) (h.comp (fun s => s.registers) m)⟩

theorem Machine.peek_RAM {m : Machine} {a : U16} (h : a < 0x800) : m.peek a = m.RAM a := by
  have hge : ¬ a ≥ 0x8000 := by bv_omega
  simp only [Machine.peek, if_pos h, if_neg hge]

/-- The operand is the byte at that address. -/
theorem Operand.get_value (operand : Operand) (m : Machine) :
    (operand.get m).1 = m.peek (m.operandAddress operand.mode m.registers.programCounter) := by
  cases operand with
  | immediate => rfl
  | memory addr =>
      have h : ((Operand.memory addr).get m).1 = (addr.get m).2.peek (addr.get m).1 := rfl
      rw [h, addr.get_value, Machine.peek_of_still (addr.get_still m)]
      rfl

/-! ### What work on the registers leaves alone -/

/-- The machine but for the registers, the program counter apart, and the debug tracker. -/
def Machine.apart (m : Machine) : Machine :=
  { m with
    registers := ⟨0, 0, 0, 0, 0, m.registers.programCounter⟩
    debugTracker := ⟨0, 0, false, false⟩ }

/-- Reading a register touches neither memory nor the log. -/
theorem Reg.get_apart (reg : Reg) : Preserves Machine.apart reg.get := by
  cases reg <;> exact fun _ => rfl

/-- Nor does setting one. -/
theorem Reg.set_apart (reg : Reg) (v : U8) : Preserves Machine.apart (reg.set v) := by
  cases reg <;> exact fun _ => rfl

/-- Nor do the logical operations. -/
theorem LogicOp.run_apart (op : LogicOp) (v : U8) : Preserves Machine.apart (op.run v) := by
  cases op <;> exact fun _ => rfl

/-- Nor do `ADC` and `SBC`. -/
theorem ArithOp.run_apart (order : EvalOrder) (op : ArithOp) (v : U8) :
    Preserves Machine.apart (op.run order v) := by
  cases op <;> cases order <;> exact fun _ => rfl

theorem setZeroNegative_apart (v : U8) : Preserves Machine.apart (setZeroNegative v) := fun _ => rfl

theorem Reg.load_apart (reg : Reg) (v : U8) :
    Preserves Machine.apart (do setZeroNegative (← reg.set v)) :=
  (reg.set_apart v).bind setZeroNegative_apart

theorem LogicOp.load_apart (op : LogicOp) (v : U8) :
    Preserves Machine.apart (do setZeroNegative (← op.run v)) :=
  (op.run_apart v).bind setZeroNegative_apart

theorem Reg.compare_apart (reg : Reg) (v : U8) :
    Preserves Machine.apart (do cmpOp v (← reg.get)) := reg.get_apart.bind fun _ => fun _ => rfl

/-- The cases that work on the registers only. -/
def Instr.onRegisters : Instr → Bool
  | .increment _ | .decrement _ | .transfer _ _ | .txs | .tsx | .setFlag _ _ | .aslA | .lsrA | .rolA
  | .nop => true
  | _ => false

/-- The cases on registers touch neither memory nor the log. -/
theorem Instr.run_apart (order : EvalOrder) {instr : Instr} (h : instr.onRegisters = true) :
    Preserves Machine.apart (instr.run order) := by
  cases instr with
  | increment reg | decrement reg => exact reg.get_apart.bind fun _ => reg.load_apart _
  | transfer dst src => exact src.get_apart.bind dst.load_apart
  | lsrA => exact .bind (fun _ => rfl) fun _ => .ite (fun _ => rfl) fun _ => rfl
  | rolA =>
      exact .bind (fun _ => rfl) fun _ => .bind (fun _ => rfl) fun _ =>
        .bind (fun _ => rfl) fun _ => .bind (fun _ => rfl) fun _ =>
          .bind (.ite (fun _ => rfl) fun _ => rfl) fun _ => fun _ => rfl
  | txs | tsx | setFlag | aslA | nop => exact fun _ => rfl
  | _ => cases h

/-! ### Programs -/

/-- A machine about to run `program`, which lies at the start of the ROM. -/
def Machine.ofProgram (program : List U8) (registers : Registers) : Machine where
  filepath := ""
  registers := { registers with programCounter := 0x8000 }
  RAM := fun _ => 0
  ROM := fun i => program.getD i.toNat 0
  header := fun _ => 0
  curOpcode := 0
  totalCPUCycles := 8
  cpuHalted := false
  debugTracker := ⟨0, 0, false, false⟩
  log := .empty fun _ => .zero

end KernelNES.Emulator
