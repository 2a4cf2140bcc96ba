import KernelNES.Emulator.OpcodeTable
import KernelNES.Emulator.Tracelogger
import KernelNES.Kernel.Terminal

/-!
# Emulator — TracePrint

How `src/emulator/CPU/tracelogger.c` prints the operands of a trace entry.  What is printed for each
addressing mode is padded with spaces, so that what follows starts in the same column on every line.
It does, except behind the operands of an indexed indirect instruction no value was recorded for:
their padding is two spaces too long.
-/

namespace KernelNES.Emulator
open KernelNES.Lib KernelNES.Kernel

/-- The value of a line, and the padding behind it: `extra_spaces`, and `missing` more when the
entry has no value. -/
def printTracelogValue (curLogEntry : TracelogEntry) (extraSpaces missing : Nat) :
    StateM Terminal Unit := do
  let printValue :=
    if curLogEntry.writeValueSet then curLogEntry.writtenValue else curLogEntry.readValue
  if curLogEntry.readValueSet ∨ curLogEntry.writeValueSet then
    print (cstr " = $")
    printHex8 printValue
    printSpaces extraSpaces
  else
    printSpaces (extraSpaces + missing)

/-- `print_tracelog_address`. -/
def printTracelogAddress (curLogEntry : TracelogEntry) (address : U16) :
    StateM Terminal Unit := do
  print (cstr "$")
  if address.toNat ≤ 0xFF then
    printHex8 (address.setWidth 8)
    printTracelogValue curLogEntry (12 + 2) 6
  else
    printHex16 address
    printTracelogValue curLogEntry 12 6

/-- `print_tracelog_ZP_indexed`. -/
def printTracelogZPIndexed (curLogEntry : TracelogEntry) (regName : List U8) :
    StateM Terminal Unit := do
  print (cstr "$")
  printHex8 (curLogEntry.operands 0)
  print (cstr ",")
  print regName
  print (cstr " [$")
  printHex16 curLogEntry.indexedAddress
  print (cstr "]")
  printTracelogValue curLogEntry 4 6

/-- `print_tracelog_indirect_indexed`. -/
def printTracelogIndirectIndexed (curLogEntry : TracelogEntry) (regName : U8) :
    StateM Terminal Unit := do
  print (cstr "($")
  printHex8 (curLogEntry.operands 0)
  let indexString := if regName = char 'Y' then cstr "),Y [$" else cstr ",X) [$"
  print indexString
  printHex16 curLogEntry.indexedAddress
  print (cstr "]")
  printTracelogValue curLogEntry 2 8

/-- `print_tracelog_operands`. -/
def printTracelogOperands (curLogEntry : TracelogEntry) (opcodeEntry : OpcodeEntry) :
    StateM Terminal Unit :=
  match opcodeEntry.addrMode with
  | .zeroPage => printTracelogAddress curLogEntry ((curLogEntry.operands 0).setWidth 16)
  | .absolute | .absoluteY | .absoluteX | .relative =>
    printTracelogAddress curLogEntry curLogEntry.address
  | .zeroPageX => printTracelogZPIndexed curLogEntry (cstr "X")
  | .zeroPageY => printTracelogZPIndexed curLogEntry (cstr "Y")
  | .indirectY => printTracelogIndirectIndexed curLogEntry (char 'Y')
  | .indirectX => printTracelogIndirectIndexed curLogEntry (char 'X')
  | .immediate => do
    print (cstr "#$")
    printHex8 (curLogEntry.operands 0)
    printSpaces 19
  | _ => printSpaces 23

/-! ### How long a line's operands are -/

variable (t : Terminal) (entry : TracelogEntry)

/-- A value takes six characters, and its absence as many more spaces as the caller says. -/
theorem length_printTracelogValue (extraSpaces missing : Nat) :
    (t.after (printTracelogValue entry extraSpaces missing)).output.length =
      t.output.length + extraSpaces +
        if entry.readValueSet ∨ entry.writeValueSet then 6 else missing := by
  have hlen : (cstr " = $").length = 4 := rfl
  simp only [printTracelogValue, Terminal.after_ite]
  split
  · simp [hlen]; omega
  · simp; omega

theorem length_printTracelogAddress (address : U16) :
    (t.after (printTracelogAddress entry address)).output.length = t.output.length + 23 := by
  have hlen : (cstr "$").length = 1 := rfl
  simp only [printTracelogAddress, Terminal.after_bind, Terminal.after_ite]
  split <;> simp [length_printTracelogValue, hlen]

theorem length_printTracelogZPIndexed {regName : List U8} (hreg : regName.length = 1) :
    (t.after (printTracelogZPIndexed entry regName)).output.length = t.output.length + 23 := by
  have h₁ : (cstr "$").length = 1 := rfl
  have h₂ : (cstr ",").length = 1 := rfl
  have h₃ : (cstr " [$").length = 3 := rfl
  have h₄ : (cstr "]").length = 1 := rfl
  simp [printTracelogZPIndexed, length_printTracelogValue, hreg, h₁, h₂, h₃, h₄]

/-- The indexed indirect modes are padded for an absent value of eight characters, not six. -/
theorem length_printTracelogIndirectIndexed (regName : U8) :
    (t.after (printTracelogIndirectIndexed entry regName)).output.length =
      t.output.length + if entry.readValueSet ∨ entry.writeValueSet then 23 else 25 := by
  have h₁ : (cstr "($").length = 2 := rfl
  have h₂ : (if regName = char 'Y' then cstr "),Y [$" else cstr ",X) [$").length = 6 := by
    split <;> rfl
  have h₃ : (cstr "]").length = 1 := rfl
  simp only [printTracelogIndirectIndexed, Terminal.after_bind, length_printTracelogValue,
    Terminal.length_output_print, Terminal.length_output_printHex8,
    Terminal.length_output_printHex16, h₁, h₂, h₃]
  split <;> rfl

/-- The addressing modes whose operands are printed as an indexed indirect address. -/
def AddressingMode.IndexedIndirect (mode : AddressingMode) : Prop :=
  mode = .indirectX ∨ mode = .indirectY

instance (mode : AddressingMode) : Decidable mode.IndexedIndirect :=
  inferInstanceAs (Decidable (_ ∨ _))

theorem length_printTracelogImmediate :
    (t.after (do
      print (cstr "#$")
      printHex8 (entry.operands 0)
      printSpaces 19)).output.length = t.output.length + 23 := by
  have hlen : (cstr "#$").length = 2 := rfl
  rw [Terminal.after_bind, Terminal.after_bind, Terminal.length_output_printSpaces,
    Terminal.length_output_printHex8, Terminal.length_output_print, hlen]

/-- The operands take 23 columns, and two more in an indexed indirect mode without a value. -/
theorem length_printTracelogOperands (opcodeEntry : OpcodeEntry) :
    (t.after (printTracelogOperands entry opcodeEntry)).output.length = t.output.length +
      if opcodeEntry.addrMode.IndexedIndirect ∧ ¬ (entry.readValueSet ∨ entry.writeValueSet)
      then 25 else 23 := by
  unfold printTracelogOperands
  cases opcodeEntry.addrMode with
  | zeroPage | absolute | absoluteX | absoluteY | relative =>
      rw [if_neg (by simp [AddressingMode.IndexedIndirect])]
      exact length_printTracelogAddress t entry _
  | zeroPageX | zeroPageY =>
      rw [if_neg (by simp [AddressingMode.IndexedIndirect])]
      exact length_printTracelogZPIndexed t entry rfl
  | indirectX | indirectY =>
      rw [length_printTracelogIndirectIndexed]
      by_cases hv : entry.readValueSet ∨ entry.writeValueSet
      · rw [if_pos hv, if_neg fun h => h.2 hv]
      · rw [if_neg hv, if_pos ⟨by simp [AddressingMode.IndexedIndirect], hv⟩]
  | immediate =>
      rw [if_neg (by simp [AddressingMode.IndexedIndirect])]
      exact length_printTracelogImmediate t entry
  | implied | accumulator | absIndirect | unknown =>
      rw [if_neg (by simp [AddressingMode.IndexedIndirect])]
      exact Terminal.length_output_printSpaces 23

/-- **The columns line up, except behind an indexed indirect address without a value.** -/
theorem operands_aligned_iff :
    (t.after (printTracelogOperands entry (opcodeTable entry.opcode))).output.length =
        t.output.length + 23 ↔
      ¬ ((opcodeTable entry.opcode).addrMode.IndexedIndirect ∧
        entry.readValueSet = false ∧ entry.writeValueSet = false) := by
  rw [length_printTracelogOperands]
  split
  next h => simpa using h
  next h => simpa using h

theorem length_without_value {entry : TracelogEntry} (hop : entry.opcode = 0x01)
    (hr : entry.readValueSet = false) (hw : entry.writeValueSet = false) :
    (t.after (printTracelogOperands entry (opcodeTable entry.opcode))).output.length =
      t.output.length + 25 := by
  have hmode : (opcodeTable 0x01).addrMode = .indirectX := rfl
  rw [length_printTracelogOperands, hop, hmode, hr, hw, if_pos (by decide)]

/-- `ORA` with an indexed indirect operand, and no value recorded: 25 characters. -/
theorem operands_misaligned :
    ¬ ∀ (t : Terminal) (entry : TracelogEntry),
      (t.after (printTracelogOperands entry (opcodeTable entry.opcode))).output.length =
        t.output.length + 23 := by
  intro h
  have hlen := h (.atBoot fun _ => 0) { TracelogEntry.zero with opcode := 0x01 }
  rw [length_without_value _ rfl rfl rfl] at hlen
  exact absurd (Nat.add_left_cancel hlen) (by decide)

end KernelNES.Emulator
