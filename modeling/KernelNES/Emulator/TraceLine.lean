import KernelNES.Emulator.Machine
import KernelNES.Emulator.TracePrint
import KernelNES.Kernel.Decimal
import KernelNES.Kernel.Page

/-!
# Emulator — TraceLine

`print_tracelog_entry` of `src/emulator/CPU/tracelogger.c`: one line of the trace log.  `line` is
the text of an entry, and `printTracelogEntry_prints` says that it is printed, with a newline behind
it.  A line is shorter than a row of the screen as long as the number of cycles has at most four
digits.
-/

namespace KernelNES.Emulator
open KernelNES.Lib KernelNES.Kernel KernelNES.Memory

/-- The flags of `print_tracelog_entry`. -/
def printFlags (flags : U8) : StateM Terminal Unit := do
  print (if flags &&& flagNegative ≠ 0 then cstr "N" else cstr "n")
  print (if flags &&& flagOverflow ≠ 0 then cstr "V" else cstr "v")
  print (cstr "--")
  print (if flags &&& flagDecimal ≠ 0 then cstr "D" else cstr "d")
  print (if flags &&& flagInterruptDisable ≠ 0 then cstr "I" else cstr "i")
  print (if flags &&& flagZero ≠ 0 then cstr "Z" else cstr "z")
  print (if flags &&& flagCarry ≠ 0 then cstr "C" else cstr "c")

/-- `print_tracelog_entry`, up to the number of cycles. -/
def printTracelogState (curLogEntry : TracelogEntry) : StateM Terminal Unit := do
  printHex16 curLogEntry.registers.programCounter
  let opcodeEntry := opcodeTable curLogEntry.opcode
  print (cstr " ")
  printHex8 curLogEntry.opcode
  print (cstr "  ")
  print (cstr opcodeEntry.mnemonic)
  print (cstr " ")
  printTracelogOperands curLogEntry opcodeEntry
  print (cstr "A:")
  printHex8 curLogEntry.registers.A
  print (cstr " X:")
  printHex8 curLogEntry.registers.X
  print (cstr " Y:")
  printHex8 curLogEntry.registers.Y
  print (cstr " S:")
  printHex8 curLogEntry.registers.stackPointer
  print (cstr " P:")
  printFlags curLogEntry.registers.flags
  print (cstr " Cycle:")

/-- `print_tracelog_entry`; `digits` is what the buffer of `print_decimal` holds before. -/
def printTracelogEntry (digits : Nat → U8) (curLogEntry : TracelogEntry) :
    Exec Fault Terminal Unit := do
  onTerminal (printTracelogState curLogEntry)
  printDecimal digits curLogEntry.totalCPUCycles
  onTerminal (print (cstr "\n"))

/-! ### The text of a line -/

section
variable (e : TracelogEntry)

/-- `n` spaces. -/
def spaces (n : Nat) : List U8 := List.replicate n (char ' ')

/-- The value an instruction read or wrote. -/
def valueText (extraSpaces missing : Nat) : List U8 :=
  if e.readValueSet ∨ e.writeValueSet then
    cstr " = $" ++ (hex8 (if e.writeValueSet then e.writtenValue else e.readValue) ++
      spaces extraSpaces)
  else spaces (extraSpaces + missing)

/-- An address, of one byte or of two, and the value behind it. -/
def addressText (address : U16) : List U8 :=
  cstr "$" ++ if address.toNat ≤ 0xFF then hex8 (address.setWidth 8) ++ valueText e (12 + 2) 6
    else hex16 address ++ valueText e 12 6

/-- A zero page address with an index register, where it points and the value there. -/
def zpIndexedText (reg : String) : List U8 :=
  cstr "$" ++ (hex8 (e.operands 0) ++ (cstr "," ++ (cstr reg ++ (cstr " [$" ++
    (hex16 e.indexedAddress ++ (cstr "]" ++ valueText e 4 6))))))

/-- A pointer with an index register, where it points and the value there. -/
def indirectIndexedText (index : String) : List U8 :=
  cstr "($" ++ (hex8 (e.operands 0) ++ (cstr index ++ (hex16 e.indexedAddress ++
    (cstr "]" ++ valueText e 2 8))))

/-- The operands of a line. -/
def operandsText : List U8 :=
  match (opcodeTable e.opcode).addrMode with
  | .zeroPage => addressText e ((e.operands 0).setWidth 16)
  | .absolute | .absoluteY | .absoluteX | .relative => addressText e e.address
  | .zeroPageX => zpIndexedText e "X"
  | .zeroPageY => zpIndexedText e "Y"
  | .indirectY => indirectIndexedText e "),Y [$"
  | .indirectX => indirectIndexedText e ",X) [$"
  | .immediate => cstr "#$" ++ (hex8 (e.operands 0) ++ spaces 19)
  | _ => spaces 23

/-- A letter for each flag, a capital where it is set. -/
def flagsText (flags : U8) : List U8 :=
  (if flags &&& flagNegative ≠ 0 then cstr "N" else cstr "n") ++
  ((if flags &&& flagOverflow ≠ 0 then cstr "V" else cstr "v") ++
  (cstr "--" ++
  ((if flags &&& flagDecimal ≠ 0 then cstr "D" else cstr "d") ++
  ((if flags &&& flagInterruptDisable ≠ 0 then cstr "I" else cstr "i") ++
  ((if flags &&& flagZero ≠ 0 then cstr "Z" else cstr "z") ++
  (if flags &&& flagCarry ≠ 0 then cstr "C" else cstr "c"))))))

/-- A line, up to the number of cycles. -/
def stateText : List U8 :=
  hex16 e.registers.programCounter ++ (cstr " " ++ (hex8 e.opcode ++ (cstr "  " ++
  (cstr (opcodeTable e.opcode).mnemonic ++ (cstr " " ++ (operandsText e ++
  (cstr "A:" ++ (hex8 e.registers.A ++ (cstr " X:" ++ (hex8 e.registers.X ++
  (cstr " Y:" ++ (hex8 e.registers.Y ++ (cstr " S:" ++ (hex8 e.registers.stackPointer ++
  (cstr " P:" ++ (flagsText e.registers.flags ++ cstr " Cycle:"))))))))))))))))

/-- The decimal numeral of a number. -/
def decimal (n : Nat) : List U8 :=
  if n = 0 then [char '0'] else ((Nat.digits 10 n).map digit).reverse

/-- **A line** of the trace log. -/
def line : List U8 := stateText e ++ decimal e.totalCPUCycles.toNat

end

/-- The line of an instruction with an immediate operand. -/
example : stateText { TracelogEntry.zero with
    opcode := 0xA9
    operands := fun _ => 0x42
    registers := ⟨0x01, 0x02, 0x03, 0x24, 0xFD, 0x8000⟩ } =
      cstr "8000 A9  LDA #$42                   A:01 X:02 Y:03 S:FD P:nv--dIzc Cycle:" := by
  decide

/-! ### It is printed -/

section
variable (e : TracelogEntry)

/-- The value of a line. -/
theorem printTracelogValue_prints (extraSpaces missing : Nat) :
    PrintsPlain (printTracelogValue e extraSpaces missing) (valueText e extraSpaces missing) :=
  .ite (.bind (.print (by decide)) (.bind (.printHex8 _) (.printSpaces _))) (.printSpaces _)

/-- An address of a line. -/
theorem printTracelogAddress_prints (address : U16) :
    PrintsPlain (printTracelogAddress e address) (addressText e address) :=
  .bind (.print (by decide)) (.ite (.bind (.printHex8 _) (printTracelogValue_prints e _ _))
    (.bind (.printHex16 _) (printTracelogValue_prints e _ _)))

/-- An address of the zero page with an index register. -/
theorem printTracelogZPIndexed_prints {reg : String} (h : char '\n' ∉ cstr reg) :
    PrintsPlain (printTracelogZPIndexed e (cstr reg)) (zpIndexedText e reg) :=
  .bind (.print (by decide)) (.bind (.printHex8 _) (.bind (.print (by decide)) (.bind (.print h)
    (.bind (.print (by decide)) (.bind (.printHex16 _) (.bind (.print (by decide))
      (printTracelogValue_prints e _ _)))))))

/-- A pointer with an index register. -/
theorem printTracelogIndirectIndexed_prints {reg : U8} {index : String}
    (hindex : (if reg = char 'Y' then cstr "),Y [$" else cstr ",X) [$") = cstr index)
    (h : char '\n' ∉ cstr index) :
    PrintsPlain (printTracelogIndirectIndexed e reg) (indirectIndexedText e index) := by
  rw [printTracelogIndirectIndexed, hindex]
  exact .bind (.print (by decide)) (.bind (.printHex8 _) (.bind (.print h) (.bind (.printHex16 _)
    (.bind (.print (by decide)) (printTracelogValue_prints e _ _)))))

/-- The operands of a line are their text. -/
theorem printTracelogOperands_prints :
    PrintsPlain (printTracelogOperands e (opcodeTable e.opcode)) (operandsText e) := by
  rw [printTracelogOperands, operandsText]
  cases (opcodeTable e.opcode).addrMode with
  | zeroPage | absolute | absoluteX | absoluteY | relative => exact printTracelogAddress_prints e _
  | zeroPageX | zeroPageY => exact printTracelogZPIndexed_prints e (by decide)
  | indirectX | indirectY => exact printTracelogIndirectIndexed_prints e (by decide) (by decide)
  | immediate => exact .bind (.print (by decide)) (.bind (.printHex8 _) (.printSpaces _))
  | implied | accumulator | absIndirect | unknown => exact .printSpaces 23

end

/-- The flags of a line are their text. -/
theorem printFlags_prints (flags : U8) : PrintsPlain (printFlags flags) (flagsText flags) := by
  refine .bind (.print ?_) (.bind (.print ?_) (.bind (.print (by decide)) (.bind (.print ?_)
    (.bind (.print ?_) (.bind (.print ?_) (.print ?_)))))) <;> split <;> decide

set_option maxRecDepth 4000 in

/-- The mnemonics of the table have three letters. -/
theorem mnemonic_letters :
    ∀ entry ∈ opcodeEntries, (cstr entry.mnemonic).length = 3 ∧ char '\n' ∉ cstr entry.mnemonic := by
  decide

/-- The state of the CPU is its text. -/
theorem printTracelogState_prints (e : TracelogEntry) :
    PrintsPlain (printTracelogState e) (stateText e) :=
  .bind (.printHex16 _) (.bind (.print (by decide)) (.bind (.printHex8 _)
    (.bind (.print (by decide)) (.bind (.print (mnemonic_letters _ (opcodeTable_mem _)).2)
    (.bind (.print (by decide)) (.bind (printTracelogOperands_prints e)
    (.bind (.print (by decide)) (.bind (.printHex8 _) (.bind (.print (by decide))
    (.bind (.printHex8 _) (.bind (.print (by decide)) (.bind (.printHex8 _)
    (.bind (.print (by decide)) (.bind (.printHex8 _) (.bind (.print (by decide))
    (.bind (printFlags_prints _) (.print (by decide))))))))))))))))))

/-- The digits come out from the last to the first. -/
theorem prints_writeDigits (digits : Nat → U8) (n : Nat) :
    Prints (writeDigits digits n) ((List.range n).map digits).reverse := by
  induction n with
  | zero => exact fun _ => rfl
  | succ n ih =>
      rw [List.range_succ, List.map_append, List.reverse_append]
      exact (prints_writechar (digits n)).bind ih

/-- A number of at most eight digits. -/
theorem printDecimal_prints (digits : Nat → U8) {n : Nat} (h : n < 10 ^ digitsSize) (t : Terminal) :
    printDecimal digits n t = .ok ((), t.after (print (decimal n))) := by
  by_cases hn : n = 0
  · subst hn
    rfl
  · have hlen := (Nat.digits_length_le_iff (by decide) n).mpr h
    obtain ⟨digits', htake, hmap⟩ := takeDigits_fits (v := n) (i := 0) (by omega) digits
    have hprints := prints_writeDigits digits' (0 + (Nat.digits 10 n).length) t
    rw [hmap, List.range_zero, List.map_nil, List.nil_append] at hprints
    rw [printDecimal, if_neg (by omega), htake, decimal, if_neg hn, ← hprints]
    rfl

/-- **The line of an entry is printed**, with a newline behind it. -/
theorem printTracelogEntry_prints (digits : Nat → U8) {e : TracelogEntry}
    (h0 : 0 ≤ e.totalCPUCycles) (h : e.totalCPUCycles.toNat < 10 ^ digitsSize) (t : Terminal) :
    printTracelogEntry digits e t = .ok ((), t.after (print (line e ++ [char '\n']))) := by
  obtain ⟨n, hn⟩ := Int.eq_ofNat_of_zero_le h0
  rw [hn] at h
  rw [printTracelogEntry, line, hn, Terminal.print_append, Terminal.print_append,
    ← (printTracelogState_prints e).prints t]
  have hstate : onTerminal (printTracelogState e) t = .ok ((), t.after (printTracelogState e)) := rfl
  exact (Exec.bind_ok hstate).trans (Exec.bind_ok (printDecimal_prints digits h _))

/-! ### How long it is -/

theorem length_flagsText (flags : U8) : (flagsText flags).length = 8 := by
  have hletter : ∀ (p : Prop) [Decidable p] (a b : List U8), a.length = 1 → b.length = 1 →
      (if p then a else b).length = 1 := by
    intro p _ a b ha hb
    split
    · exact ha
    · exact hb
  simp only [flagsText, List.length_append]
  rw [hletter, hletter, hletter, hletter, hletter, hletter] <;> rfl

/-- The operands take 23 characters, or 25. -/
theorem length_operandsText (e : TracelogEntry) : (operandsText e).length ≤ 25 := by
  have hlen := length_printTracelogOperands (.atBoot fun _ => 0) e (opcodeTable e.opcode)
  rw [(printTracelogOperands_prints e).prints, Terminal.length_output_print] at hlen
  rw [Nat.add_left_cancel hlen]
  split <;> omega

/-- The state of the CPU takes 75 characters at most. -/
theorem length_stateText (e : TracelogEntry) : (stateText e).length ≤ 75 := by
  have hoperands := length_operandsText e
  have hmnemonic := (mnemonic_letters _ (opcodeTable_mem e.opcode)).1
  simp only [stateText, List.length_append, length_flagsText, hmnemonic]
  simp [hex8, hex16, cstr]
  omega

/-- A number below `10 ^ k` has `k` digits at most. -/
theorem length_decimal {n k : Nat} (hk : 0 < k) (h : n < 10 ^ k) : (decimal n).length ≤ k := by
  rw [decimal]
  split
  · exact hk
  · rw [List.length_reverse, List.length_map]
    exact (Nat.digits_length_le_iff (by decide) n).mpr h

theorem decimal_plain (n : Nat) : char '\n' ∉ decimal n := by
  rw [decimal]
  split
  · decide
  · intro h
    obtain ⟨d, hd, he⟩ := List.mem_map.mp (List.mem_reverse.mp h)
    have hlt := Nat.digits_lt_base (by decide) hd
    have hdigit := toNat_digit hlt
    rw [he] at hdigit
    have hnl : (char '\n').toNat = 10 := rfl
    omega

/-- **A line is shorter than a row**, if its number of cycles has at most four digits. -/
theorem line_fits {e : TracelogEntry} (h : e.totalCPUCycles < 10000) : Fits (line e) where
  length := by
    have hstate := length_stateText e
    have hcycles := length_decimal (n := e.totalCPUCycles.toNat) (k := 4) (by decide) (by omega)
    have hw : vgaWidth = 80 := rfl
    rw [line, List.length_append]
    omega
  no_newline := by
    rw [line, List.mem_append, not_or]
    exact ⟨(printTracelogState_prints e).plain, decimal_plain _⟩

end KernelNES.Emulator
