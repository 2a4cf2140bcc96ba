import KernelNES.Lib.Logged
import KernelNES.Emulator.Fetch

/-!
# Emulator — Accesses

The bytes of data a step reads and writes.  `Instr.runLogged` is a copy of the cases that logs each
read through `emu_read` at an operand's address, a pointer, the stack or a vector, and each write;
the opcode and operand bytes go through `read_increment_PC` and `read_PC`, and are not logged.
Without the log it is the step (`emulateCPULogged_erases`).  Which addresses are read, and that all
of them are while the program counter is behind the instruction, can be told from the state before
(`Instr.runLogged_accesses`).
-/

namespace KernelNES.Emulator
open KernelNES.Lib

/-- An access to data, with the program counter a read is made at. -/
inductive Access where
  | read (address pc : U16) (value : U8)
  | write (address : U16) (value : U8)
  deriving DecidableEq, Repr

/-- `CPU`, with the accesses to memory logged. -/
abbrev LoggedCPU := Logged Access CPU

/-! ### The cases, with their accesses -/

/-- `emu_read` of data. -/
def emuReadLogged (address : U16) : LoggedCPU U8 := do
  let value ← unlogged (emuRead address)
  note (.read address (← unlogged programCounter) value)
  pure value

/-- `emu_write`. -/
def emuWriteLogged (address : U16) (value : U8) : LoggedCPU Unit := do
  note (.write address value)
  unlogged (emuWrite address value)

/-- `push_stack`. -/
def pushStackLogged (value : U8) : LoggedCPU Unit := do
  emuWriteLogged (stackAddress (← unlogged get).registers.stackPointer) value
  unlogged do
    modifyRegisters fun r => { r with stackPointer := r.stackPointer - 1 }
    trackRead regBitStack
    trackWrite regBitStack

/-- `pull_stack`. -/
def pullStackLogged : LoggedCPU U8 := do
  let oldValue := (← unlogged get).debugTracker.readsMem
  unlogged (modifyRegisters fun r => { r with stackPointer := r.stackPointer + 1 })
  let result ← emuReadLogged (stackAddress (← unlogged get).registers.stackPointer)
  unlogged do
    trackRead regBitStack
    trackWrite regBitStack
    modify fun m => { m with debugTracker := { m.debugTracker with readsMem := oldValue } }
  pure result

/-- The addressing helpers, of which two read a pointer. -/
def Addressing.getLogged : Addressing → LoggedCPU U16
  | .indirectX => do
      let address := (← unlogged readIncrementPC) + (← unlogged regX)
      let lowbyte ← emuReadLogged (address.setWidth 16)
      let highbyte ← emuReadLogged (address.setWidth 16 + 1)
      let indirectAddr := word highbyte lowbyte
      unlogged (modifyLog fun s => s.tailLogSetIndexedAddress indirectAddr)
      pure indirectAddr
  | .indirectY => do
      let address ← unlogged readIncrementPC
      let lowbyte ← emuReadLogged (address.setWidth 16)
      let highbyte ← emuReadLogged (address.setWidth 16 + 1)
      let indirectAddr := word highbyte lowbyte + (← unlogged regY).setWidth 16
      unlogged (modifyLog fun s => s.tailLogSetIndexedAddress indirectAddr)
      pure indirectAddr
  | addr => unlogged addr.get

/-- `Operand.get`, with its accesses. -/
def Operand.getLogged : Operand → LoggedCPU U8
  | .immediate   => unlogged readIncrementPC
  | .memory addr => do emuReadLogged (← addr.getLogged)

/-- `ASL_op` to `DEC_op`. -/
def RmwOp.runLogged (op : RmwOp) (input : U8) (address : U16) : LoggedCPU Unit :=
  match op with
  | .asl => do
      unlogged (setStatusFlag flagCarry (input &&& 0x80 ≠ 0))
      let input := input <<< 1
      emuWriteLogged address input
      unlogged (setZeroNegative input)
  | .lsr => do
      unlogged (setStatusFlag flagCarry (input &&& 0x01 ≠ 0))
      let input := input >>> 1
      emuWriteLogged address input
      unlogged (setZeroNegative input)
  | .rol => do
      let newCarryBit := decide (input ≥ 0x80)
      let input := input <<< 1
      let input := if (← unlogged regStatus) &&& flagCarry ≠ 0 then input ||| 0x01 else input
      emuWriteLogged address input
      unlogged (setStatusFlag flagCarry newCarryBit)
      unlogged (setZeroNegative input)
  | .ror => do
      let newCarryBit := decide (input &&& 0x01 ≠ 0)
      let input := input >>> 1
      let input := if (← unlogged regStatus) &&& flagCarry ≠ 0 then input ||| 0x80 else input
      emuWriteLogged address input
      unlogged (setStatusFlag flagCarry newCarryBit)
      unlogged (setZeroNegative input)
  | .inc => do
      let input := input + 1
      emuWriteLogged address input
      unlogged (setZeroNegative input)
  | .dec => do
      let input := input - 1
      emuWriteLogged address input
      unlogged (setZeroNegative input)

/-- The two pulls of `RTI` and `RTS`. -/
def pullPCLogged : LoggedCPU Unit := do
  let lowbyte ← pullStackLogged
  let highbyte ← pullStackLogged
  let _ ← unlogged (setPC (word highbyte lowbyte))

/-- The body of `JSR`. -/
def jsrBodyLogged : LoggedCPU Unit := do
  let lowbyte ← unlogged readIncrementPC
  let highbyte ← unlogged readPC
  pushStackLogged (((← unlogged programCounter) >>> 8).setWidth 8)
  pushStackLogged ((← unlogged programCounter).setWidth 8)
  let _ ← unlogged (setPC (word highbyte lowbyte))

/-- The body of `JMP` through a pointer. -/
def jmpIndirectBodyLogged : LoggedCPU Unit := do
  let address ← unlogged getAbsoluteAddr
  let lowbyte ← emuReadLogged address
  let highbyte ← emuReadLogged (address + 1)
  let _ ← unlogged (setPC (word highbyte lowbyte))

/-- The body of `BRK`. -/
def brkBodyLogged : LoggedCPU Unit := do
  unlogged incrementPC
  pushStackLogged (((← unlogged programCounter) >>> 8).setWidth 8)
  pushStackLogged ((← unlogged programCounter).setWidth 8)
  pushStackLogged (← unlogged regStatus)
  let lowbyte ← emuReadLogged 0xFFFE
  let highbyte ← emuReadLogged 0xFFFF
  let _ ← unlogged (setPC (word highbyte lowbyte))

/-- What a case does, with its accesses.  The cases at the end access no data. -/
def Instr.runLogged (order : EvalOrder) : Instr → LoggedCPU Unit
  | .load reg operand => do
      let result ← unlogged (reg.set (← operand.getLogged))
      unlogged (setZeroNegative result)
  | .store reg addr => do
      let address ← addr.getLogged
      emuWriteLogged address (← unlogged reg.get)
  | .pha => do pushStackLogged (← unlogged regA)
  | .pla => do
      let result ← unlogged (setARegister (← pullStackLogged))
      unlogged (setZeroNegative result)
  | .jsr => jsrBodyLogged
  | .rts => do
      pullPCLogged
      let _ ← unlogged readIncrementPC
  | .jmpIndirect => jmpIndirectBodyLogged
  | .php => do pushStackLogged ((← unlogged regStatus) ||| 0x30)
  | .plp => do let _ ← unlogged (setStatusRegister (← pullStackLogged))
  | .rmw op addr => do
      let address ← addr.getLogged
      op.runLogged (← emuReadLogged address) address
  | .logic op addr => do
      let address ← addr.getLogged
      let temp ← unlogged (op.run (← emuReadLogged address))
      emuWriteLogged address temp
      unlogged (setZeroNegative temp)
  | .arith op operand => do unlogged (op.run order (← operand.getLogged))
  | .compare reg operand => do unlogged (cmpOp (← operand.getLogged) (← unlogged reg.get))
  | .bit addr => do
      let address ← addr.getLogged
      unlogged (bitOp (← emuReadLogged address))
  | .brk => brkBodyLogged
  | .rti => do
      let _ ← unlogged (setStatusRegister (← pullStackLogged))
      pullPCLogged
  | instr => unlogged (instr.run order)

/-- The `switch`. -/
def switchOpcodeLogged (order : EvalOrder) (opcode : U8) : LoggedCPU Unit :=
  match decode opcode with
  | some instr => instr.runLogged order
  | none       => pure ()

/-- `emulate_CPU`, with the accesses of the case. -/
def emulateCPULogged (order : EvalOrder) (answer : Addr) : LoggedCPU Unit := do
  unlogged resetTracker
  unlogged (addTracelogEntry answer)
  let opcode ← unlogged readIncrementPC
  unlogged (modify fun m => { m with curOpcode := opcode })
  switchOpcodeLogged order opcode
  unlogged (modify fun m =>
    { m with totalCPUCycles := m.totalCPUCycles + (opcodeTable opcode).cycles })

/-- The accesses of the step from `m`. -/
def Machine.accesses (m : Machine) (order : EvalOrder) (answer : Addr) : List Access :=
  (emulateCPULogged order answer [] m).1.2

/-! ### Erasing the log -/

theorem emuReadLogged_erases (address : U16) : Erases (emuReadLogged address) (emuRead address) :=
  fun _ => rfl

theorem emuWriteLogged_erases (address : U16) (value : U8) :
    Erases (emuWriteLogged address value) (emuWrite address value) := fun _ => rfl

theorem pushStackLogged_erases (value : U8) : Erases (pushStackLogged value) (pushStack value) :=
  fun _ => rfl

theorem pullStackLogged_erases : Erases pullStackLogged pullStack := fun _ => rfl

theorem Addressing.getLogged_erases (addr : Addressing) : Erases addr.getLogged addr.get := by
  cases addr <;> exact fun _ => rfl

/-- Without its log, reading an operand is the code's. -/
theorem Operand.getLogged_erases (operand : Operand) : Erases operand.getLogged operand.get := by
  cases operand with
  | immediate => exact .unlogged _
  | memory addr => exact addr.getLogged_erases.bind emuReadLogged_erases

/-- Without its log, the operation is the code's. -/
theorem RmwOp.runLogged_erases (op : RmwOp) (input : U8) (address : U16) :
    Erases (op.runLogged input address) (op.run input address) := by
  cases op <;> exact fun _ => rfl

theorem pullPCLogged_erases : Erases pullPCLogged pullPC :=
  pullStackLogged_erases.bind fun _ => pullStackLogged_erases.bind fun _ => fun _ => rfl

theorem jsrBodyLogged_erases : Erases jsrBodyLogged jsrBody := fun _ => rfl

theorem jmpIndirectBodyLogged_erases : Erases jmpIndirectBodyLogged jmpIndirectBody := fun _ => rfl

theorem brkBodyLogged_erases : Erases brkBodyLogged brkBody := fun _ => rfl

/-- **Without the log it is the case.** -/
theorem Instr.runLogged_erases (order : EvalOrder) (instr : Instr) :
    Erases (instr.runLogged order) (instr.run order) := by
  cases instr with
  | load reg operand =>
    exact operand.getLogged_erases.bind fun _ => .bind (.unlogged _) fun _ => .unlogged _
  | store reg addr =>
    exact addr.getLogged_erases.bind fun _ => .bind (.unlogged _) fun _ =>
      emuWriteLogged_erases _ _
  | pha | php => exact .bind (.unlogged _) fun _ => pushStackLogged_erases _
  | pla => exact pullStackLogged_erases.bind fun _ => .bind (.unlogged _) fun _ => .unlogged _
  | jsr => exact jsrBodyLogged_erases
  | rts => exact pullPCLogged_erases.bind fun _ => .bind (.unlogged _) fun _ => .pure _
  | jmpIndirect => exact jmpIndirectBodyLogged_erases
  | plp => exact pullStackLogged_erases.bind fun _ => .bind (.unlogged _) fun _ => .pure _
  | rmw op addr =>
    exact addr.getLogged_erases.bind fun _ => (emuReadLogged_erases _).bind fun _ =>
      op.runLogged_erases _ _
  | logic op addr =>
    exact addr.getLogged_erases.bind fun _ => (emuReadLogged_erases _).bind fun _ =>
      .bind (.unlogged _) fun _ => (emuWriteLogged_erases _ _).bind fun _ => .unlogged _
  | arith op operand => exact operand.getLogged_erases.bind fun _ => .unlogged _
  | compare reg operand =>
    exact operand.getLogged_erases.bind fun _ => .bind (.unlogged _) fun _ => .unlogged _
  | bit addr =>
    exact addr.getLogged_erases.bind fun _ => (emuReadLogged_erases _).bind fun _ => .unlogged _
  | brk => exact brkBodyLogged_erases
  | rti =>
    exact pullStackLogged_erases.bind fun _ => .bind (.unlogged _) fun _ => pullPCLogged_erases
  | _ => exact .unlogged _

/-- **Without the log it is the step.** -/
theorem emulateCPULogged_erases (order : EvalOrder) (answer : Addr) :
    Erases (emulateCPULogged order answer) (emulateCPU order answer) := by
  have hswitch :
      ∀ opcode, Erases (switchOpcodeLogged order opcode) (switchOpcode order opcode) := by
    intro opcode
    unfold switchOpcodeLogged switchOpcode
    cases decode opcode with
    | none => exact .pure ()
    | some instr => exact instr.runLogged_erases order
  exact .bind (.unlogged _) fun _ => .bind (.unlogged _) fun _ => .bind (.unlogged _) fun opcode =>
    .bind (.unlogged _) fun _ => (hswitch opcode).bind fun _ => .unlogged _

/-- The accesses of a step are those of its case. -/
theorem accesses_of_decode {m : Machine} {instr : Instr} (hd : decode m.nextOpcode = some instr)
    (order : EvalOrder) (answer : Addr) :
    m.accesses order answer = (instr.runLogged order [] (m.fetched answer)).1.2 := by
  show (switchOpcodeLogged order m.nextOpcode [] (m.fetched answer)).1.2 = _
  rw [switchOpcodeLogged, hd]

/-! ### The addresses -/

/-- The reads of a log, with the program counter and the byte of each. -/
def readsOf (log : List Access) : List (U16 × U16 × U8) :=
  log.filterMap fun
    | .read address pc value => some (address, pc, value)
    | .write _ _ => none

/-- The addresses written to. -/
def storesOf (log : List Access) : List U16 :=
  log.filterMap fun
    | .read _ _ _ => none
    | .write address _ => some address

/-- The addresses of the pointer that an addressing helper reads, whose operand bytes start at
`pc`. -/
def Addressing.pointer (m : Machine) (pc : U16) : Addressing → List U16
  | .indirectX =>
    let address := (m.peek pc + m.registers.X).setWidth 16
    [address, address + 1]
  | .indirectY =>
    let address := (m.peek pc).setWidth 16
    [address, address + 1]
  | _ => []

/-- The addresses an operand is read from. -/
def Operand.reads (m : Machine) (pc : U16) : Operand → List U16
  | .immediate   => []
  | .memory addr => addr.pointer m pc ++ [m.operandAddress addr.mode pc]

/-- The addresses a case reads data from, in order.  `pc` is behind the opcode. -/
def Instr.reads (m : Machine) (pc : U16) : Instr → List U16
  | .load _ operand | .arith _ operand | .compare _ operand => operand.reads m pc
  | .rmw _ addr | .logic _ addr | .bit addr => (Operand.memory addr).reads m pc
  | .store _ addr => addr.pointer m pc
  | .pla | .plp => [stackAddress (m.registers.stackPointer + 1)]
  | .rts =>
    [stackAddress (m.registers.stackPointer + 1), stackAddress (m.registers.stackPointer + 1 + 1)]
  | .rti =>
    [stackAddress (m.registers.stackPointer + 1), stackAddress (m.registers.stackPointer + 1 + 1),
      stackAddress (m.registers.stackPointer + 1 + 1 + 1)]
  | .jmpIndirect => [m.operandAddress .absolute pc, m.operandAddress .absolute pc + 1]
  | .brk => [0xFFFE, 0xFFFF]
  | _ => []

/-- The addresses a case writes to, in order. -/
def Instr.stores (m : Machine) (pc : U16) : Instr → List U16
  | .store _ addr | .rmw _ addr | .logic _ addr => [m.operandAddress addr.mode pc]
  | .pha | .php => [stackAddress m.registers.stackPointer]
  | .jsr =>
    [stackAddress m.registers.stackPointer, stackAddress (m.registers.stackPointer - 1)]
  | .brk =>
    [stackAddress m.registers.stackPointer, stackAddress (m.registers.stackPointer - 1),
      stackAddress (m.registers.stackPointer - 1 - 1)]
  | _ => []

/-- `n` bytes on. -/
def bytesOn (pc : U16) : Nat → U16
  | 0 => pc
  | n + 1 => bytesOn (pc + 1) n

/-- Where the program counter is while a case reads its data: behind the operand bytes, and in `BRK`
one byte further. -/
def Instr.behind (pc : U16) : Instr → U16
  | .brk  => pc + 1
  | instr => bytesOn pc instr.operandLength

/-- **The accesses of a case.**  It reads from the addresses `reads`, all with the program counter
behind the instruction, and writes to the addresses `stores`. -/
theorem Instr.runLogged_accesses (order : EvalOrder) (instr : Instr) (m : Machine) :
    readsOf (instr.runLogged order [] m).1.2 =
        (instr.reads m m.registers.programCounter).map (fun a =>
          (a, instr.behind m.registers.programCounter, m.peek a)) ∧
      storesOf (instr.runLogged order [] m).1.2 = instr.stores m m.registers.programCounter := by
  cases instr with
  | load _ operand | arith _ operand | compare _ operand =>
    cases operand with
    | immediate => exact ⟨rfl, rfl⟩
    | memory addr => cases addr <;> exact ⟨rfl, rfl⟩
  | store _ addr | bit addr | logic _ addr => cases addr <;> exact ⟨rfl, rfl⟩
  | rmw op addr => cases op <;> cases addr <;> exact ⟨rfl, rfl⟩
  | _ => exact ⟨rfl, rfl⟩

end KernelNES.Emulator
