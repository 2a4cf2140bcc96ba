import KernelNES.Lib.CInt
import Mathlib.Logic.Function.Basic

/-!
# Emulator — Tracelogger

`src/emulator/CPU/tracelogger.c`: the trace log, a doubly linked list of entries in kernel memory
with a cursor into it.  Pointers are addresses and `0` is `NULL`.  `Tracelog.mem` is what memory
holds at each address, read as an entry; freeing a block leaves its contents where they are.  Three
fields record what the C program does not store: which blocks are live, the arguments of `kfree`,
and whether a hook ran while `log_tail` was `NULL`.

`kzalloc`'s answer is an argument of `addTracelogEntry`: an address, or `0` when it fails.
-/

namespace KernelNES.Emulator
open KernelNES.Lib

/-- The address of an entry; 0 is `NULL`. -/
abbrev Addr := U32

/-- `struct registers`. -/
structure Registers where
  A : U8
  X : U8
  Y : U8
  flags : U8
  stackPointer : U8
  programCounter : U16
  deriving DecidableEq, Inhabited

/-- `TRACELOG_MAX_LENGTH`. -/
def tracelogMaxLength : Int := 256

/-- `NUM_PRINT_ENTRIES`. -/
def numPrintEntries : Int := 24

/-- `struct tracelog_entry`.  `operands` is indexed as the C code indexes it; from index `2` on it
stands for the bytes behind the array. -/
structure TracelogEntry where
  next : Addr
  prev : Addr
  opcode : U8
  operands : Nat → U8
  address : U16
  indexedAddress : U16
  readValue : U8
  writtenValue : U8
  readValueSet : Bool
  writeValueSet : Bool
  totalCPUCycles : Int
  registers : Registers

/-- A block `kzalloc` has just cleared. -/
def TracelogEntry.zero : TracelogEntry where
  next := 0
  prev := 0
  opcode := 0
  operands := fun _ => 0
  address := 0
  indexedAddress := 0
  readValue := 0
  writtenValue := 0
  readValueSet := false
  writeValueSet := false
  totalCPUCycles := 0
  registers := ⟨0, 0, 0, 0, 0, 0⟩

/-- The globals of `tracelogger.c` and the memory they point into. -/
structure Tracelog where
  logHead : Addr
  logTail : Addr
  currentLength : Int
  currentOperand : Nat
  curSelectedEntry : Addr
  curSelectedIndex : Int
  mem : Addr → TracelogEntry
  live : Addr → Bool
  freed : List Addr
  nullHook : Bool

/-- The globals as the kernel starts, over any memory. -/
def Tracelog.empty (mem : Addr → TracelogEntry) : Tracelog where
  logHead := 0
  logTail := 0
  currentLength := 0
  currentOperand := 0
  curSelectedEntry := 0
  curSelectedIndex := 0
  mem := mem
  live := fun _ => false
  freed := []
  nullHook := false

namespace Tracelog

/-- Writes through a pointer to an entry. -/
def modifyEntry (s : Tracelog) (a : Addr) (f : TracelogEntry → TracelogEntry) : Tracelog :=
  { s with mem := Function.update s.mem a (f (s.mem a)) }

/-- `kfree(a)`. -/
def kfree (s : Tracelog) (a : Addr) : Tracelog :=
  { s with live := Function.update s.live a false, freed := a :: s.freed }

/-- `kzalloc(sizeof(struct tracelog_entry))`, which answers `a`. -/
def kzalloc (s : Tracelog) (a : Addr) : Tracelog :=
  if a = 0 then s
  else { s with mem := Function.update s.mem a .zero, live := Function.update s.live a true }

/-- `remove_first_entry`. -/
def removeFirstEntry (s : Tracelog) : Tracelog :=
  if s.logHead = 0 then s
  else
    let oldHead := s.logHead
    let s :=
      if s.logHead = s.logTail then { s with logHead := 0, logTail := 0 }
      else
        let s := { s with logHead := (s.mem oldHead).next }
        s.modifyEntry s.logHead fun e => { e with prev := 0 }
    let s := s.kfree oldHead
    { s with currentLength := s.currentLength - 1 }

/-- `init_log_entry`. -/
def initLogEntry (s : Tracelog) (entry : Addr) (registers : Registers) (totalCPUCycles : Int) :
    Tracelog :=
  { s.modifyEntry entry fun e => { e with registers, totalCPUCycles } with currentOperand := 0 }

/-- The eviction at the start of `add_tracelog_entry`. -/
def evict (s : Tracelog) : Tracelog :=
  if s.currentLength + 1 > tracelogMaxLength then s.removeFirstEntry else s

/-- `add_tracelog_entry`: the pointer returned (`ERROR(-ENOMEM)` is `-3` as a pointer) and the new
state.  `registers` and `totalCPUCycles` are the fields of `*emu` it copies. -/
def addTracelogEntry (s : Tracelog) (answer : Addr) (registers : Registers)
    (totalCPUCycles : Int) : Addr × Tracelog :=
  let s := s.evict
  let s := s.kzalloc answer
  let entry := answer
  if entry = 0 then (BitVec.ofInt 32 (-3), s.kfree entry)
  else if s.logHead = 0 then
    let s := { s with logHead := entry, curSelectedEntry := entry, logTail := entry }
    (entry, s.initLogEntry entry registers totalCPUCycles)
  else
    let s := s.modifyEntry s.logTail fun e => { e with next := entry }
    let s := s.modifyEntry entry fun e => { e with prev := s.logTail }
    let s := { s with logTail := entry }
    let s := s.initLogEntry entry registers totalCPUCycles
    (entry, { s with currentLength := s.currentLength + 1 })

/-- A write through `log_tail` by one of the hooks below. -/
def modifyTail (s : Tracelog) (f : TracelogEntry → TracelogEntry) : Tracelog :=
  { s.modifyEntry s.logTail f with nullHook := s.nullHook || s.logTail = 0 }

/-- `tail_log_set_operand`. -/
def tailLogSetOperand (s : Tracelog) (byte : U8) : Tracelog :=
  if (s.mem s.logTail).opcode = 0 then s.modifyTail fun e => { e with opcode := byte }
  else
    let s' := s.modifyTail fun e =>
      { e with operands := Function.update e.operands s.currentOperand byte }
    { s' with currentOperand := s.currentOperand + 1 }

/-- `tail_log_set_address`. -/
def tailLogSetAddress (s : Tracelog) (address : U16) : Tracelog :=
  s.modifyTail fun e => { e with address }

/-- `tail_log_set_indexed_address`. -/
def tailLogSetIndexedAddress (s : Tracelog) (indexedAddress : U16) : Tracelog :=
  s.modifyTail fun e => { e with indexedAddress }

/-- `tail_log_set_written_value`. -/
def tailLogSetWrittenValue (s : Tracelog) (byte : U8) : Tracelog :=
  s.modifyTail fun e => { e with writtenValue := byte, writeValueSet := true }

/-- `tail_log_set_read_value`. -/
def tailLogSetReadValue (s : Tracelog) (byte : U8) : Tracelog :=
  s.modifyTail fun e => { e with readValue := byte, readValueSet := true }

/-- The loop of `tracelog_print_entries`: `n` rounds are left, from `printEntry` on.  The result is
the pointers `print_tracelog_entry` is called with, each of which it dereferences. -/
def tracelogPrintLoop (s : Tracelog) : (n : Nat) → Addr → List Addr
  | 0, _ => []
  | n + 1, printEntry =>
    printEntry ::
      tracelogPrintLoop s n (if printEntry ≠ s.logTail then (s.mem printEntry).next else printEntry)

/-- `tracelog_print_entries`: the loop runs while
`i <= NUM_PRINT_ENTRIES && i <= current_length`. -/
def tracelogPrintEntries (s : Tracelog) : List Addr :=
  s.tracelogPrintLoop (min numPrintEntries s.currentLength + 1).toNat s.curSelectedEntry

/-- `scroll_down`: the new state and the pointers it dereferences. -/
def scrollDown (s : Tracelog) : Tracelog × List Addr :=
  if s.curSelectedIndex + numPrintEntries < s.currentLength then
    let s' := { s with
      curSelectedEntry := (s.mem s.curSelectedEntry).next
      curSelectedIndex := s.curSelectedIndex + 1 }
    (s', s.curSelectedEntry :: s'.tracelogPrintEntries)
  else (s, s.tracelogPrintEntries)

/-- `scroll_up`: the new state and the pointers it dereferences. -/
def scrollUp (s : Tracelog) : Tracelog × List Addr :=
  if s.curSelectedEntry ≠ s.logHead then
    let s' := { s with
      curSelectedEntry := (s.mem s.curSelectedEntry).prev
      curSelectedIndex := s.curSelectedIndex - 1 }
    (s', s.curSelectedEntry :: s'.tracelogPrintEntries)
  else (s, s.tracelogPrintEntries)

end Tracelog

end KernelNES.Emulator
