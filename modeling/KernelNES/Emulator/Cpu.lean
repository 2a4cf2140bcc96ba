import KernelNES.Emulator.Machine

/-!
# Emulator — Cpu

`emulate_CPU` and `emu_run`.  The `switch` is in two parts: `switchCases` is its labels, in the
order of the source, each with its case as an `Instr`; `Instr.run` is what the cases do.

C leaves open which of the two `bit_XOR_A` calls in the overflow expressions of `ADC_op` and
`SBC_op` runs first, and both change `A`: the choice is an `EvalOrder`.  `answer` is what `kzalloc`
returns to `add_tracelog_entry`.
-/

namespace KernelNES.Emulator
open KernelNES.Lib

/-- Which operand of a binary operator C evaluates first. -/
inductive EvalOrder where
  | leftFirst
  | rightFirst
  deriving DecidableEq, Repr

/-- The operands of a binary operator. -/
def evalOperands (order : EvalOrder) (left right : CPU U8) : CPU (U8 × U8) :=
  match order with
  | .leftFirst => do
      let x ← left
      let y ← right
      pure (x, y)
  | .rightFirst => do
      let y ← right
      let x ← left
      pure (x, y)

/-! ### Operations -/

/-- `ASL_op`. -/
def aslOp (input : U8) (address : U16) : CPU Unit := do
  setStatusFlag flagCarry (input &&& 0x80 ≠ 0)
  let input := input <<< 1
  emuWrite address input
  setZeroNegative input

/-- `LSR_op`. -/
def lsrOp (input : U8) (address : U16) : CPU Unit := do
  setStatusFlag flagCarry (input &&& 0x01 ≠ 0)
  let input := input >>> 1
  emuWrite address input
  setZeroNegative input

/-- `ROL_op`. -/
def rolOp (input : U8) (address : U16) : CPU Unit := do
  let newCarryBit := decide (input ≥ 0x80)
  let input := input <<< 1
  let input := if (← regStatus) &&& flagCarry ≠ 0 then input ||| 0x01 else input
  emuWrite address input
  setStatusFlag flagCarry newCarryBit
  setZeroNegative input

/-- `ROR_op`. -/
def rorOp (input : U8) (address : U16) : CPU Unit := do
  let newCarryBit := decide (input &&& 0x01 ≠ 0)
  let input := input >>> 1
  let input := if (← regStatus) &&& flagCarry ≠ 0 then input ||| 0x80 else input
  emuWrite address input
  setStatusFlag flagCarry newCarryBit
  setZeroNegative input

/-- `ADC_op`. -/
def adcOp (order : EvalOrder) (input : U8) : CPU Unit := do
  let sum : Int := (← regA).toNat + input.toNat
  let sum := if (← regStatus) &&& flagCarry ≠ 0 then sum + 1 else sum
  let (left, right) ← evalOperands order (bitXORA input) (bitXORA (BitVec.ofInt 8 sum))
  setStatusFlag flagOverflow (~~~left &&& right &&& 0x80 ≠ 0)
  setStatusFlag flagCarry (sum > 0xFF)
  let result ← setARegister (BitVec.ofInt 8 sum)
  setZeroNegative result

/-- `SBC_op`. -/
def sbcOp (order : EvalOrder) (input : U8) : CPU Unit := do
  let sum : Int := (← regA).toNat - input.toNat
  let sum := if ~~~(← regStatus) &&& flagCarry ≠ 0 then sum - 1 else sum
  let (left, right) ← evalOperands order (bitXORA input) (bitXORA (BitVec.ofInt 8 sum))
  setStatusFlag flagOverflow (left &&& right &&& 0x80 ≠ 0)
  setStatusFlag flagCarry (sum ≥ 0)
  let result ← setARegister (BitVec.ofInt 8 sum)
  setZeroNegative result

/-- `INC_op`. -/
def incOp (input : U8) (address : U16) : CPU Unit := do
  let input := input + 1
  emuWrite address input
  setZeroNegative input

/-- `DEC_op`. -/
def decOp (input : U8) (address : U16) : CPU Unit := do
  let input := input - 1
  emuWrite address input
  setZeroNegative input

/-- `CMP_op`.  The difference is an `int`. -/
def cmpOp (input regValue : U8) : CPU Unit := do
  setStatusFlag flagCarry (regValue ≥ input)
  setStatusFlag flagZero (regValue = input)
  setStatusFlag flagNegative ((regValue.toNat : Int) - input.toNat > 127)

/-- `BIT_op`. -/
def bitOp (input : U8) : CPU Unit := do
  setStatusFlag flagZero ((← regA) &&& input = 0)
  setStatusFlag flagNegative (input &&& 0x80 ≠ 0)
  setStatusFlag flagOverflow (input &&& 0x40 ≠ 0)

/-! ### The cases of `emulate_CPU` -/

/-- The ways a case computes an address. -/
inductive Addressing where
  | zeroPage
  | zeroPageX
  | absolute
  | absoluteX
  | indirectX
  | indirectY
  deriving DecidableEq, Repr

/-- The address, as the helper of the source computes it. -/
def Addressing.get : Addressing → CPU U16
  | .zeroPage  => zeroPageAddr
  | .zeroPageX => do getZPIndexedAddress (← regX)
  | .absolute  => getAbsoluteAddr
  | .absoluteX => getAbsoluteAddrXIndexed
  | .indirectX => getIndirectAddressXIndexed
  | .indirectY => getIndirectAddressYIndexed

/-- The ways a case reads its operand: `read_increment_PC()`, or `emu_read(address)`. -/
inductive Operand where
  | immediate
  | memory (addr : Addressing)
  deriving DecidableEq, Repr

/-- The byte an instruction works on. -/
def Operand.get : Operand → CPU U8
  | .immediate   => readIncrementPC
  | .memory addr => do emuRead (← addr.get)

/-- The registers an instruction names. -/
inductive Reg where
  | A
  | X
  | Y
  deriving DecidableEq, Repr

/-- The register, noted as read. -/
def Reg.get : Reg → CPU U8
  | .A => regA
  | .X => regX
  | .Y => regY

/-- The register set, and noted as written. -/
def Reg.set : Reg → U8 → CPU U8
  | .A => setARegister
  | .X => setXRegister
  | .Y => setYRegister

/-- The operations on a byte of memory in place. -/
inductive RmwOp where
  | asl
  | lsr
  | rol
  | ror
  | inc
  | dec
  deriving DecidableEq, Repr

/-- The operation, on the byte and its address. -/
def RmwOp.run : RmwOp → U8 → U16 → CPU Unit
  | .asl => aslOp
  | .lsr => lsrOp
  | .rol => rolOp
  | .ror => rorOp
  | .inc => incOp
  | .dec => decOp

/-- The logical operations with the accumulator. -/
inductive LogicOp where
  | ora
  | eor
  | and
  deriving DecidableEq, Repr

/-- The operation, on the operand. -/
def LogicOp.run : LogicOp → U8 → CPU U8
  | .ora => bitORA
  | .eor => bitXORA
  | .and => bitANDA

/-- `ADC` and `SBC`. -/
inductive ArithOp where
  | adc
  | sbc
  deriving DecidableEq, Repr

/-- The operation, on the operand. -/
def ArithOp.run (order : EvalOrder) : ArithOp → U8 → CPU Unit
  | .adc => adcOp order
  | .sbc => sbcOp order

/-- The cases of the `switch`: one constructor for the cases whose code differs in a register, a
flag, an operation or an operand only. -/
inductive Instr where
  | hlt
  | load (reg : Reg) (operand : Operand)
  | store (reg : Reg) (addr : Addressing)
  | branch (flag : U8) (wanted : Bool)
  | pha
  | pla
  | jsr
  | rts
  | jmp
  | jmpIndirect
  | increment (reg : Reg)
  | decrement (reg : Reg)
  | transfer (dst src : Reg)
  | txs
  | tsx
  | setFlag (flag : U8) (value : Bool)
  | php
  | plp
  | aslA
  | lsrA
  | rolA
  | rmw (op : RmwOp) (addr : Addressing)
  | logicImmediate (op : LogicOp)
  | logic (op : LogicOp) (addr : Addressing)
  | arith (op : ArithOp) (operand : Operand)
  | compare (reg : Reg) (operand : Operand)
  | bit (addr : Addressing)
  | brk
  | rti
  | nop
  deriving DecidableEq, Repr

/-- What a taken branch does. -/
def takeBranch (result : U8) : CPU Unit := do
  let signedValue : Int := if result ≥ 0x80 then result.toNat - 256 else result.toNat
  let _ ← setPC (BitVec.ofInt 16 ((← programCounter).toNat + signedValue))
  modify fun m => { m with totalCPUCycles := m.totalCPUCycles + 1 }

/-- The body of a branch. -/
def branchBody (flag : U8) (wanted : Bool) : CPU Unit := do
  let result ← readIncrementPC
  if decide ((← regStatus) &&& flag ≠ 0) = wanted then
    takeBranch result

/-- The two pulls and `set_PC((PC_highbyte << 8) | PC_lowbyte)` that end `RTI` and begin `RTS`. -/
def pullPC : CPU Unit := do
  let lowbyte ← pullStack
  let highbyte ← pullStack
  let _ ← setPC (word highbyte lowbyte)

/-- The body of `JSR`. -/
def jsrBody : CPU Unit := do
  let lowbyte ← readIncrementPC
  let highbyte ← readPC
  pushStack (((← programCounter) >>> 8).setWidth 8)
  pushStack ((← programCounter).setWidth 8)
  let _ ← setPC (word highbyte lowbyte)

/-- The body of `JMP` through a pointer. -/
def jmpIndirectBody : CPU Unit := do
  let address ← getAbsoluteAddr
  let lowbyte ← emuRead address
  let highbyte ← emuRead (address + 1)
  let _ ← setPC (word highbyte lowbyte)

/-- The body of `ASL` on the accumulator. -/
def aslABody : CPU Unit := do
  setStatusFlag flagCarry ((← regA) &&& 0x80 ≠ 0)
  let result ← setARegister ((← regA) <<< 1)
  setZeroNegative result

/-- The body of `LSR` on the accumulator, which sets the carry but never clears it. -/
def lsrABody : CPU Unit := do
  if (← regA) &&& 0x01 ≠ 0 then
    setStatusFlag flagCarry true
  let result ← setARegister ((← regA) >>> 1)
  setZeroNegative result

/-- The body of `ROL` on the accumulator. -/
def rolABody : CPU Unit := do
  let newCarryBit := decide ((← regA) &&& 0x80 ≠ 0)
  let result ← setARegister ((← regA) <<< 1)
  let status ← regStatus
  let result ← (if status &&& flagCarry ≠ 0 then bitORA 0x01 else pure result)
  setStatusFlag flagCarry newCarryBit
  setZeroNegative result

/-- The body of `BRK`. -/
def brkBody : CPU Unit := do
  incrementPC
  pushStack (((← programCounter) >>> 8).setWidth 8)
  pushStack ((← programCounter).setWidth 8)
  pushStack (← regStatus)
  let lowbyte ← emuRead 0xFFFE
  let highbyte ← emuRead 0xFFFF
  let _ ← setPC (word highbyte lowbyte)

/-- What a case does. -/
def Instr.run (order : EvalOrder) : Instr → CPU Unit
  | .hlt => modify fun m => { m with cpuHalted := true }
  | .load reg operand => do
      let result ← reg.set (← operand.get)
      setZeroNegative result
  | .store reg addr => do
      let address ← addr.get
      emuWrite address (← reg.get)
  | .branch flag wanted => branchBody flag wanted
  | .pha => do pushStack (← regA)
  | .pla => do
      let result ← setARegister (← pullStack)
      setZeroNegative result
  | .jsr => jsrBody
  | .rts => do
      pullPC
      let _ ← readIncrementPC
  | .jmp => do let _ ← setPC (← getAbsoluteAddr)
  | .jmpIndirect => jmpIndirectBody
  | .increment reg => do
      let result ← reg.set ((← reg.get) + 1)
      setZeroNegative result
  | .decrement reg => do
      let result ← reg.set ((← reg.get) - 1)
      setZeroNegative result
  | .transfer dst src => do
      let result ← dst.set (← src.get)
      setZeroNegative result
  | .txs => do let _ ← setSP (← regX)
  | .tsx => do
      let result ← setXRegister (← stackPointer)
      setZeroNegative result
  | .setFlag flag value => setStatusFlag flag value
  | .php => do pushStack ((← regStatus) ||| 0x30)
  | .plp => do let _ ← setStatusRegister (← pullStack)
  | .aslA => aslABody
  | .lsrA => lsrABody
  | .rolA => rolABody
  | .rmw op addr => do
      let address ← addr.get
      op.run (← emuRead address) address
  | .logicImmediate op => do
      let result ← op.run (← readIncrementPC)
      setZeroNegative result
  | .logic op addr => do
      let address ← addr.get
      let temp ← op.run (← emuRead address)
      emuWrite address temp
      setZeroNegative temp
  | .arith op operand => do op.run order (← operand.get)
  | .compare reg operand => do cmpOp (← operand.get) (← reg.get)
  | .bit addr => do
      let address ← addr.get
      bitOp (← emuRead address)
  | .brk => brkBody
  | .rti => do
      let _ ← setStatusRegister (← pullStack)
      pullPC
  | .nop => pure ()

/-- The labels of the `switch`.  `0x88`, `DEY`, is the source's: it decrements `X`. -/
def switchCases : List (U8 × Instr) := [
  (0x02, .hlt),
  (0xA0, .load .Y .immediate),
  (0xA2, .load .X .immediate),
  (0xA9, .load .A .immediate),
  (0xA5, .load .A (.memory .zeroPage)),
  (0xB5, .load .A (.memory .zeroPageX)),
  (0xAD, .load .A (.memory .absolute)),
  (0xBD, .load .A (.memory .absoluteX)),
  (0x85, .store .A .zeroPage),
  (0x95, .store .A .zeroPageX),
  (0x8D, .store .A .absolute),
  (0x9D, .store .A .absoluteX),
  (0x91, .store .A .indirectY),
  (0x81, .store .A .indirectX),
  (0x86, .store .X .zeroPage),
  (0x8E, .store .X .absolute),
  (0x84, .store .Y .zeroPage),
  (0x8C, .store .Y .absolute),
  (0xD0, .branch flagZero false),
  (0xF0, .branch flagZero true),
  (0x10, .branch flagNegative false),
  (0x30, .branch flagNegative true),
  (0x50, .branch flagOverflow false),
  (0x70, .branch flagOverflow true),
  (0x90, .branch flagCarry false),
  (0xB0, .branch flagCarry true),
  (0x48, .pha),
  (0x68, .pla),
  (0x20, .jsr),
  (0x60, .rts),
  (0x4C, .jmp),
  (0x6C, .jmpIndirect),
  (0xE8, .increment .X),
  (0xCA, .decrement .X),
  (0xC8, .increment .Y),
  (0x88, .decrement .X),
  (0xAA, .transfer .X .A),
  (0xA8, .transfer .Y .A),
  (0x8A, .transfer .A .X),
  (0x98, .transfer .A .Y),
  (0x9A, .txs),
  (0xBA, .tsx),
  (0x38, .setFlag flagCarry true),
  (0x18, .setFlag flagCarry false),
  (0xB8, .setFlag flagOverflow false),
  (0x78, .setFlag flagInterruptDisable true),
  (0x58, .setFlag flagInterruptDisable false),
  (0xF8, .setFlag flagDecimal true),
  (0x08, .php),
  (0x28, .plp),
  (0x0A, .aslA),
  (0x06, .rmw .asl .zeroPage),
  (0x0E, .rmw .asl .absolute),
  (0x4A, .lsrA),
  (0x46, .rmw .lsr .zeroPage),
  (0x4E, .rmw .lsr .absolute),
  (0x2A, .rolA),
  (0x26, .rmw .rol .zeroPage),
  (0x2E, .rmw .rol .absolute),
  (0x66, .rmw .ror .zeroPage),
  (0x6E, .rmw .ror .absolute),
  (0x09, .logicImmediate .ora),
  (0x05, .logic .ora .zeroPage),
  (0x0D, .logic .ora .absolute),
  (0x49, .logicImmediate .eor),
  (0x45, .logic .eor .zeroPage),
  (0x4D, .logic .eor .absolute),
  (0x29, .logicImmediate .and),
  (0x25, .logic .and .zeroPage),
  (0x2D, .logic .and .absolute),
  (0xE6, .rmw .inc .zeroPage),
  (0xEE, .rmw .inc .absolute),
  (0xFE, .rmw .inc .absoluteX),
  (0xC6, .rmw .dec .zeroPage),
  (0xCE, .rmw .dec .absolute),
  (0x69, .arith .adc .immediate),
  (0x75, .arith .adc (.memory .zeroPageX)),
  (0x65, .arith .adc (.memory .zeroPage)),
  (0x6D, .arith .adc (.memory .absolute)),
  (0xE9, .arith .sbc .immediate),
  (0xE5, .arith .sbc (.memory .zeroPage)),
  (0xED, .arith .sbc (.memory .absolute)),
  (0xC9, .compare .A .immediate),
  (0xC5, .compare .A (.memory .zeroPage)),
  (0xCD, .compare .A (.memory .absolute)),
  (0xE0, .compare .X .immediate),
  (0xE4, .compare .X (.memory .zeroPage)),
  (0xEC, .compare .X (.memory .absolute)),
  (0xC0, .compare .Y .immediate),
  (0xC4, .compare .Y (.memory .zeroPage)),
  (0xCC, .compare .Y (.memory .absolute)),
  (0x24, .bit .zeroPage),
  (0x2C, .bit .absolute),
  (0x00, .brk),
  (0x40, .rti),
  (0xEA, .nop)]

/-- The case of an opcode, if it has one. -/
def decode (opcode : U8) : Option Instr := switchCases.lookup opcode

/-- The `switch`; the default case does nothing. -/
def switchOpcode (order : EvalOrder) (opcode : U8) : CPU Unit :=
  match decode opcode with
  | some instr => instr.run order
  | none       => pure ()

/-! ### One instruction, and the run -/

/-- `add_tracelog_entry(&emu)`. -/
def addTracelogEntry (answer : Addr) : CPU Unit := modify fun m =>
  { m with log := (m.log.addTracelogEntry answer m.registers m.totalCPUCycles).2 }

/-- `emulate_CPU`. -/
def emulateCPU (order : EvalOrder) (answer : Addr) : CPU Unit := do
  resetTracker
  addTracelogEntry answer
  let opcode ← readIncrementPC
  modify fun m => { m with curOpcode := opcode }
  switchOpcode order opcode
  modify fun m => { m with totalCPUCycles := m.totalCPUCycles + (opcodeTable opcode).cycles }

/-- The condition of the loop in `emu_run`. -/
def Machine.running (m : Machine) : Bool := !m.cpuHalted && m.totalCPUCycles < 1000

/-- The loop of `emu_run`, for at most `fuel` rounds; `answers` are the answers of `kzalloc`. -/
def emuRun (order : EvalOrder) : (fuel : Nat) → (answers : Nat → Addr) → CPU Unit
  | 0, _ => pure ()
  | fuel + 1, answers => do
      if (← get).running then
        emulateCPU order (answers 0)
        emuRun order fuel fun i => answers (i + 1)

end KernelNES.Emulator
