import KernelNES.Emulator.OpcodeTable
import KernelNES.Emulator.Tracelogger

/-!
# Emulator — Machine

The state of the emulated console and the operations `emulate_CPU` is made of: the memory and
register accesses, the stack, the status flags and the addressing helpers of `emulator.c` and
`emulator_debug.h`.

An operation is a `CPU` computation, a function of the `Machine`.  A condition of the source that
only decides what happens to one field stands inside that field, so what an operation does to the
others can be read off by evaluation.  `debug_tracker` is kept as in a `DEBUG` build; nothing reads
it in the others.
-/

namespace KernelNES.Emulator
open KernelNES.Lib

/-- `struct mem_reg_access`. -/
structure MemRegAccess where
  regReadBitflag : U8
  regWriteBitflag : U8
  readsMem : Bool
  writesMem : Bool
  deriving DecidableEq, Inhabited

/-- `struct emulator emu`, with `CPU_halted`, `debug_tracker` and the trace log.  `RAM` is the block
of `0x800` bytes, `ROM` the one of `0x8000` and `header` the one of `0x10`. -/
structure Machine where
  filepath : String
  registers : Registers
  RAM : U16 → U8
  ROM : U16 → U8
  header : U16 → U8
  curOpcode : U8
  totalCPUCycles : Int
  cpuHalted : Bool
  debugTracker : MemRegAccess
  log : Tracelog

/-- A C function over the globals of the emulator. -/
abbrev CPU := StateM Machine

/-! ### Status flags -/

/-- `FLAG_CARRY`. -/
def flagCarry : U8 := 0x01

/-- `FLAG_ZERO`. -/
def flagZero : U8 := 0x02

/-- `FLAG_INTERRUPT_DISABLE`. -/
def flagInterruptDisable : U8 := 0x04

/-- `FLAG_DECIMAL`. -/
def flagDecimal : U8 := 0x08

/-- `FLAG_OVERFLOW`. -/
def flagOverflow : U8 := 0x40

/-- `FLAG_NEGATIVE`. -/
def flagNegative : U8 := 0x80

/-! ### Registers and the debug tracker -/

/-- `debug_tracker.reg_read_bitflag |= bit`. -/
def trackRead (bit : U8) : CPU Unit := modify fun m =>
  { m with debugTracker :=
      { m.debugTracker with regReadBitflag := m.debugTracker.regReadBitflag ||| bit } }

/-- `debug_tracker.reg_write_bitflag |= bit`. -/
def trackWrite (bit : U8) : CPU Unit := modify fun m =>
  { m with debugTracker :=
      { m.debugTracker with regWriteBitflag := m.debugTracker.regWriteBitflag ||| bit } }

/-- `reset_tracker`. -/
def resetTracker : CPU Unit := modify fun m => { m with debugTracker := ⟨0, 0, false, false⟩ }

/-- A write to `registers`. -/
def modifyRegisters (f : Registers → Registers) : CPU Unit := modify fun m =>
  { m with registers := f m.registers }

/-- A call of the trace log. -/
def modifyLog (f : Tracelog → Tracelog) : CPU Unit := modify fun m => { m with log := f m.log }

/-- `set_A_register`. -/
def setARegister (value : U8) : CPU U8 := do
  trackWrite regBitA
  modifyRegisters fun r => { r with A := value }
  pure value

/-- `bit_OR_A`, which alone of the three does not track the read. -/
def bitORA (value : U8) : CPU U8 := do
  trackWrite regBitA
  modifyRegisters fun r => { r with A := r.A ||| value }
  pure (← get).registers.A

/-- `bit_XOR_A`. -/
def bitXORA (value : U8) : CPU U8 := do
  trackRead regBitA
  trackWrite regBitA
  modifyRegisters fun r => { r with A := r.A ^^^ value }
  pure (← get).registers.A

/-- `bit_AND_A`. -/
def bitANDA (value : U8) : CPU U8 := do
  trackRead regBitA
  trackWrite regBitA
  modifyRegisters fun r => { r with A := r.A &&& value }
  pure (← get).registers.A

/-- `reg_A`. -/
def regA : CPU U8 := do
  trackRead regBitA
  pure (← get).registers.A

/-- `set_X_register`. -/
def setXRegister (value : U8) : CPU U8 := do
  trackWrite regBitX
  modifyRegisters fun r => { r with X := value }
  pure value

/-- `reg_X`. -/
def regX : CPU U8 := do
  trackRead regBitX
  pure (← get).registers.X

/-- `set_Y_register`. -/
def setYRegister (value : U8) : CPU U8 := do
  trackWrite regBitY
  modifyRegisters fun r => { r with Y := value }
  pure value

/-- `reg_Y`. -/
def regY : CPU U8 := do
  trackRead regBitY
  pure (← get).registers.Y

/-- `set_status_register`. -/
def setStatusRegister (value : U8) : CPU U8 := do
  trackWrite regBitStatus
  modifyRegisters fun r => { r with flags := value }
  pure value

/-- `reg_status`. -/
def regStatus : CPU U8 := do
  trackRead regBitStatus
  pure (← get).registers.flags

/-- `set_SP`. -/
def setSP (value : U8) : CPU U8 := do
  trackWrite regBitStack
  modifyRegisters fun r => { r with stackPointer := value }
  pure value

/-- `stack_pointer`. -/
def stackPointer : CPU U8 := do
  trackRead regBitStack
  pure (← get).registers.stackPointer

/-- `program_counter`. -/
def programCounter : CPU U16 := do
  pure (← get).registers.programCounter

/-- `set_status_flag`. -/
def setStatusFlag (flag : U8) (condition : Bool) : CPU Unit := do
  modifyRegisters fun r =>
    { r with flags := if condition then r.flags ||| flag else r.flags &&& ~~~flag }
  trackWrite regBitStatus

/-- `set_status_flag(FLAG_ZERO, result == 0)` and `set_status_flag(FLAG_NEGATIVE, result >= 0x80)`,
the two lines most cases of `emulate_CPU` end with. -/
def setZeroNegative (result : U8) : CPU Unit := do
  setStatusFlag flagZero (result = 0)
  setStatusFlag flagNegative (result ≥ 0x80)

/-! ### Memory -/

/-- What `emu_read` returns at an address. -/
def Machine.peek (m : Machine) (address : U16) : U8 :=
  let returnValue := 0
  let returnValue := if address < 0x800 then m.RAM address else returnValue
  if address ≥ 0x8000 then m.ROM (address - 0x8000) else returnValue

/-- `emu_read`: only a read away from the program counter is noted. -/
def emuRead (address : U16) : CPU U8 := do
  let returnValue := (← get).peek address
  modify fun m =>
    { m with
      debugTracker :=
        if address ≠ m.registers.programCounter then { m.debugTracker with readsMem := true }
        else m.debugTracker
      log :=
        if address ≠ m.registers.programCounter then m.log.tailLogSetReadValue returnValue
        else m.log }
  pure returnValue

/-- `emu_write`: only a write to RAM is stored and noted. -/
def emuWrite (address : U16) (value : U8) : CPU Unit := modify fun m =>
  { m with
    debugTracker := { m.debugTracker with writesMem := true }
    RAM := if address < 0x800 then Function.update m.RAM address value else m.RAM
    log := if address < 0x800 then m.log.tailLogSetWrittenValue value else m.log }

/-- `0x100 + stack_pointer`. -/
def stackAddress (sp : U8) : U16 := 0x100 + sp.setWidth 16

/-- `push_stack`. -/
def pushStack (value : U8) : CPU Unit := do
  emuWrite (stackAddress (← get).registers.stackPointer) value
  modifyRegisters fun r => { r with stackPointer := r.stackPointer - 1 }
  trackRead regBitStack
  trackWrite regBitStack

/-- `pull_stack`, which takes back the note that memory was read. -/
def pullStack : CPU U8 := do
  let oldValue := (← get).debugTracker.readsMem
  modifyRegisters fun r => { r with stackPointer := r.stackPointer + 1 }
  let result ← emuRead (stackAddress (← get).registers.stackPointer)
  trackRead regBitStack
  trackWrite regBitStack
  modify fun m => { m with debugTracker := { m.debugTracker with readsMem := oldValue } }
  pure result

/-! ### The program counter -/

/-- `read_increment_PC`. -/
def readIncrementPC : CPU U8 := do
  let result ← emuRead (← get).registers.programCounter
  modifyRegisters fun r => { r with programCounter := r.programCounter + 1 }
  modifyLog fun s => s.tailLogSetOperand result
  pure result

/-- `read_PC`. -/
def readPC : CPU U8 := do
  let result ← emuRead (← get).registers.programCounter
  modifyLog fun s => s.tailLogSetOperand result
  pure result

/-- `increment_PC`. -/
def incrementPC : CPU Unit :=
  modifyRegisters fun r => { r with programCounter := r.programCounter + 1 }

/-- `set_PC`. -/
def setPC (address : U16) : CPU U8 := do
  modifyLog fun s => s.tailLogSetAddress address
  modifyRegisters fun r => { r with programCounter := address }
  pure (address.setWidth 8)

/-- `(PC_highbyte << 8) | PC_lowbyte`. -/
def word (highbyte lowbyte : U8) : U16 := highbyte.setWidth 16 <<< 8 ||| lowbyte.setWidth 16

/-! ### Addressing -/

/-- `address = read_increment_PC()`, the zero page. -/
def zeroPageAddr : CPU U16 := do
  pure ((← readIncrementPC).setWidth 16)

/-- `get_ZP_indexed_address`. -/
def getZPIndexedAddress (regValue : U8) : CPU U16 := do
  let indexedAddress := (← readIncrementPC) + regValue
  modifyLog fun s => s.tailLogSetIndexedAddress (indexedAddress.setWidth 16)
  pure (indexedAddress.setWidth 16)

/-- `get_absolute_addr`. -/
def getAbsoluteAddr : CPU U16 := do
  let lowbyte ← readIncrementPC
  let highbyte ← readIncrementPC
  let address := word highbyte lowbyte
  modifyLog fun s => s.tailLogSetAddress address
  pure address

/-- `get_absolute_addr_X_indexed`, and `get_absolute_addr_Y_indexed` with `reg_Y`. -/
def getAbsoluteAddrIndexed (reg : CPU U8) : CPU U16 := do
  let lowbyte ← readIncrementPC
  let highbyte ← readIncrementPC
  let address := word highbyte lowbyte + (← reg).setWidth 16
  modifyLog fun s => s.tailLogSetAddress address
  pure address

/-- `get_absolute_addr_X_indexed`. -/
def getAbsoluteAddrXIndexed : CPU U16 := getAbsoluteAddrIndexed regX

/-- `get_absolute_addr_Y_indexed`. -/
def getAbsoluteAddrYIndexed : CPU U16 := getAbsoluteAddrIndexed regY

/-- `get_indirect_address_Y_indexed`: the pointer's second byte is at `address + 1`, an `int`, and
so past the zero page when `address` is its last byte. -/
def getIndirectAddressYIndexed : CPU U16 := do
  let address ← readIncrementPC
  let lowbyte ← emuRead (address.setWidth 16)
  let highbyte ← emuRead (address.setWidth 16 + 1)
  let indirectAddr := word highbyte lowbyte + (← regY).setWidth 16
  modifyLog fun s => s.tailLogSetIndexedAddress indirectAddr
  pure indirectAddr

/-- `get_indirect_address_X_indexed`. -/
def getIndirectAddressXIndexed : CPU U16 := do
  let address := (← readIncrementPC) + (← regX)
  let lowbyte ← emuRead (address.setWidth 16)
  let highbyte ← emuRead (address.setWidth 16 + 1)
  let indirectAddr := word highbyte lowbyte
  modifyLog fun s => s.tailLogSetIndexedAddress indirectAddr
  pure indirectAddr

end KernelNES.Emulator
