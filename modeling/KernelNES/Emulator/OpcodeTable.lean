import KernelNES.Lib.CInt

/-!
# Emulator — OpcodeTable

`src/emulator/CPU/opcode_table.c`: what the emulator knows of each opcode byte.
-/

namespace KernelNES.Emulator
open KernelNES.Lib

/-- `ADDRESSING_MODE`. -/
inductive AddressingMode where
  | implied
  | accumulator
  | immediate
  | absolute
  | zeroPage
  | absoluteX
  | absoluteY
  | zeroPageX
  | zeroPageY
  | indirectX
  | indirectY
  | absIndirect
  | relative
  | unknown
  deriving DecidableEq, Repr

/-- `REG_STATUS`, a bit of the two bitflags below. -/
def regBitStatus : U8 := 0x01

/-- `REG_STACK`. -/
def regBitStack : U8 := 0x02

/-- `REG_Y`. -/
def regBitY : U8 := 0x04

/-- `REG_X`. -/
def regBitX : U8 := 0x08

/-- `REG_A`. -/
def regBitA : U8 := 0x10

/-- `struct opcode_entry`. -/
structure OpcodeEntry where
  opcode : U8
  mnemonic : String
  addrMode : AddressingMode
  numBytes : Nat
  cycles : Nat
  regReadBitflag : U8
  regWriteBitflag : U8
  readsMem : Bool
  writesMem : Bool
  deriving DecidableEq, Repr

/-- The rows of `opcode_table`. -/
def opcodeEntries : List OpcodeEntry := [
  ⟨0x00, "BRK", .unknown,     1, 7, 0x03, 0x02, true,  true⟩,
  ⟨0x01, "ORA", .indirectX,   2, 6, 0x10, 0x01, true,  false⟩,
  ⟨0x02, "STP", .unknown,     1, 2, 0x00, 0x00, false, false⟩,
  ⟨0x03, "SLO", .indirectX,   2, 8, 0x10, 0x01, true,  true⟩,
  ⟨0x04, "NOP", .zeroPage,    2, 3, 0x00, 0x00, true,  false⟩,
  ⟨0x05, "ORA", .zeroPage,    2, 3, 0x10, 0x11, true,  false⟩,
  ⟨0x06, "ASL", .zeroPage,    2, 5, 0x00, 0x01, true,  true⟩,
  ⟨0x07, "SLO", .zeroPage,    2, 5, 0x10, 0x11, true,  true⟩,
  ⟨0x08, "PHP", .unknown,     1, 3, 0x03, 0x02, false, true⟩,
  ⟨0x09, "ORA", .immediate,   2, 2, 0x00, 0x11, false, false⟩,
  ⟨0x0A, "ASL", .unknown,     1, 2, 0x10, 0x11, false, false⟩,
  ⟨0x0B, "ANC", .immediate,   2, 2, 0x10, 0x01, false, false⟩,
  ⟨0x0C, "NOP", .absolute,    3, 4, 0x00, 0x00, true,  false⟩,
  ⟨0x0D, "ORA", .absolute,    3, 4, 0x10, 0x11, true,  false⟩,
  ⟨0x0E, "ASL", .absolute,    3, 6, 0x00, 0x01, true,  true⟩,
  ⟨0x0F, "SLO", .absolute,    3, 6, 0x10, 0x11, true,  true⟩,
  ⟨0x10, "BPL", .relative,    2, 2, 0x01, 0x00, false, false⟩,
  ⟨0x11, "ORA", .indirectY,   2, 5, 0x10, 0x01, true,  false⟩,
  ⟨0x12, "KIL", .unknown,     1, 0, 0x00, 0x00, false, false⟩,
  ⟨0x13, "SLO", .indirectY,   2, 8, 0x10, 0x01, true,  true⟩,
  ⟨0x14, "NOP", .zeroPageX,   2, 4, 0x00, 0x00, true,  false⟩,
  ⟨0x15, "ORA", .zeroPageX,   2, 4, 0x10, 0x11, true,  false⟩,
  ⟨0x16, "ASL", .zeroPageX,   2, 6, 0x00, 0x01, true,  true⟩,
  ⟨0x17, "SLO", .zeroPageX,   2, 6, 0x10, 0x11, true,  true⟩,
  ⟨0x18, "CLC", .implied,     1, 2, 0x00, 0x01, false, false⟩,
  ⟨0x19, "ORA", .absoluteY,   3, 4, 0x10, 0x11, true,  false⟩,
  ⟨0x1A, "NOP", .implied,     1, 2, 0x00, 0x00, false, false⟩,
  ⟨0x1B, "SLO", .absoluteY,   3, 7, 0x10, 0x11, true,  true⟩,
  ⟨0x1C, "NOP", .absoluteX,   3, 4, 0x00, 0x00, true,  false⟩,
  ⟨0x1D, "ORA", .absoluteX,   3, 4, 0x10, 0x11, true,  false⟩,
  ⟨0x1E, "ASL", .absoluteX,   3, 7, 0x00, 0x01, true,  true⟩,
  ⟨0x1F, "SLO", .absoluteX,   3, 7, 0x10, 0x11, true,  true⟩,
  ⟨0x20, "JSR", .absolute,    3, 6, 0x02, 0x02, false, true⟩,
  ⟨0x21, "AND", .indirectX,   2, 6, 0x00, 0x11, true,  false⟩,
  ⟨0x22, "KIL", .unknown,     1, 0, 0x00, 0x00, false, false⟩,
  ⟨0x23, "RLA", .indirectX,   2, 8, 0x01, 0x11, true,  true⟩,
  ⟨0x24, "BIT", .zeroPage,    2, 3, 0x10, 0x01, true,  false⟩,
  ⟨0x25, "AND", .zeroPage,    2, 3, 0x10, 0x11, true,  false⟩,
  ⟨0x26, "ROL", .zeroPage,    2, 5, 0x01, 0x01, true,  true⟩,
  ⟨0x27, "RLA", .zeroPage,    2, 5, 0x11, 0x11, true,  true⟩,
  ⟨0x28, "PLP", .unknown,     1, 4, 0x02, 0x03, false, false⟩,
  ⟨0x29, "AND", .immediate,   2, 2, 0x10, 0x11, false, false⟩,
  ⟨0x2A, "ROL", .accumulator, 1, 2, 0x11, 0x11, false, false⟩,
  ⟨0x2B, "ANC", .immediate,   2, 2, 0x10, 0x01, false, false⟩,
  ⟨0x2C, "BIT", .absolute,    3, 4, 0x10, 0x01, true,  false⟩,
  ⟨0x2D, "AND", .absolute,    3, 4, 0x10, 0x11, true,  false⟩,
  ⟨0x2E, "ROL", .absolute,    3, 6, 0x01, 0x01, true,  true⟩,
  ⟨0x2F, "RLA", .absolute,    3, 6, 0x11, 0x11, true,  true⟩,
  ⟨0x30, "BMI", .relative,    2, 2, 0x01, 0x00, false, false⟩,
  ⟨0x31, "AND", .indirectY,   2, 5, 0x00, 0x11, true,  false⟩,
  ⟨0x32, "KIL", .unknown,     1, 0, 0x00, 0x00, false, false⟩,
  ⟨0x33, "RLA", .indirectY,   2, 8, 0x01, 0x11, true,  true⟩,
  ⟨0x34, "NOP", .zeroPageX,   2, 4, 0x00, 0x00, true,  false⟩,
  ⟨0x35, "AND", .zeroPageX,   2, 4, 0x10, 0x11, true,  false⟩,
  ⟨0x36, "ROL", .zeroPageX,   2, 6, 0x01, 0x01, true,  true⟩,
  ⟨0x37, "RLA", .zeroPageX,   2, 6, 0x11, 0x11, true,  true⟩,
  ⟨0x38, "SEC", .implied,     1, 2, 0x00, 0x01, false, false⟩,
  ⟨0x39, "AND", .absoluteY,   3, 4, 0x10, 0x11, true,  false⟩,
  ⟨0x3A, "NOP", .implied,     1, 2, 0x00, 0x00, false, false⟩,
  ⟨0x3B, "RLA", .absoluteY,   3, 7, 0x11, 0x11, true,  true⟩,
  ⟨0x3C, "NOP", .absoluteX,   3, 4, 0x00, 0x00, true,  false⟩,
  ⟨0x3D, "AND", .absoluteX,   3, 4, 0x10, 0x11, true,  false⟩,
  ⟨0x3E, "ROL", .absoluteX,   3, 7, 0x01, 0x01, true,  true⟩,
  ⟨0x3F, "RLA", .absoluteX,   3, 7, 0x11, 0x11, true,  true⟩,
  ⟨0x40, "RTI", .implied,     1, 6, 0x02, 0x03, false, false⟩,
  ⟨0x41, "EOR", .indirectX,   2, 6, 0x10, 0x01, true,  false⟩,
  ⟨0x42, "KIL", .unknown,     1, 0, 0x00, 0x00, false, false⟩,
  ⟨0x43, "SRE", .indirectX,   2, 8, 0x10, 0x01, true,  true⟩,
  ⟨0x44, "NOP", .zeroPage,    2, 3, 0x00, 0x00, true,  false⟩,
  ⟨0x45, "EOR", .zeroPage,    2, 3, 0x10, 0x11, true,  false⟩,
  ⟨0x46, "LSR", .zeroPage,    2, 5, 0x00, 0x01, true,  true⟩,
  ⟨0x47, "SRE", .zeroPage,    2, 5, 0x10, 0x11, true,  true⟩,
  ⟨0x48, "PHA", .implied,     1, 3, 0x12, 0x02, false, true⟩,
  ⟨0x49, "EOR", .immediate,   2, 2, 0x10, 0x11, false, false⟩,
  ⟨0x4A, "LSR", .accumulator, 1, 2, 0x10, 0x11, false, false⟩,
  ⟨0x4B, "ALR", .immediate,   2, 2, 0x10, 0x11, false, false⟩,
  ⟨0x4C, "JMP", .absolute,    3, 3, 0x00, 0x00, false, false⟩,
  ⟨0x4D, "EOR", .absolute,    3, 4, 0x10, 0x11, true,  false⟩,
  ⟨0x4E, "LSR", .absolute,    3, 6, 0x00, 0x01, true,  true⟩,
  ⟨0x4F, "SRE", .absolute,    3, 6, 0x10, 0x11, true,  true⟩,
  ⟨0x50, "BVC", .relative,    2, 3, 0x01, 0x00, false, false⟩,
  ⟨0x51, "EOR", .indirectY,   2, 5, 0x10, 0x01, true,  false⟩,
  ⟨0x52, "KIL", .unknown,     1, 0, 0x00, 0x00, false, false⟩,
  ⟨0x53, "SRE", .indirectY,   2, 8, 0x10, 0x01, true,  true⟩,
  ⟨0x54, "NOP", .zeroPageX,   2, 4, 0x00, 0x00, true,  false⟩,
  ⟨0x55, "EOR", .zeroPageX,   2, 4, 0x10, 0x11, true,  false⟩,
  ⟨0x56, "LSR", .zeroPageX,   2, 6, 0x00, 0x01, true,  true⟩,
  ⟨0x57, "SRE", .zeroPageX,   2, 6, 0x10, 0x11, true,  true⟩,
  ⟨0x58, "CLI", .implied,     1, 2, 0x00, 0x01, false, false⟩,
  ⟨0x59, "EOR", .absoluteY,   3, 4, 0x10, 0x11, true,  false⟩,
  ⟨0x5A, "NOP", .implied,     1, 2, 0x00, 0x00, false, false⟩,
  ⟨0x5B, "SRE", .absoluteY,   3, 7, 0x10, 0x11, true,  true⟩,
  ⟨0x5C, "NOP", .absoluteX,   3, 4, 0x00, 0x00, true,  false⟩,
  ⟨0x5D, "EOR", .absoluteX,   3, 4, 0x10, 0x11, true,  false⟩,
  ⟨0x5E, "LSR", .absoluteX,   3, 7, 0x00, 0x01, true,  true⟩,
  ⟨0x5F, "SRE", .absoluteX,   3, 7, 0x10, 0x11, true,  true⟩,
  ⟨0x60, "RTS", .implied,     1, 6, 0x02, 0x02, false, false⟩,
  ⟨0x61, "ADC", .indirectX,   2, 6, 0x11, 0x11, true,  false⟩,
  ⟨0x62, "KIL", .unknown,     1, 0, 0x00, 0x00, false, false⟩,
  ⟨0x63, "RRA", .indirectX,   2, 8, 0x11, 0x11, true,  true⟩,
  ⟨0x64, "NOP", .zeroPage,    2, 3, 0x00, 0x00, true,  false⟩,
  ⟨0x65, "ADC", .zeroPage,    2, 3, 0x11, 0x11, true,  false⟩,
  ⟨0x66, "ROR", .zeroPage,    2, 5, 0x01, 0x01, true,  true⟩,
  ⟨0x67, "RRA", .zeroPage,    2, 5, 0x11, 0x11, true,  true⟩,
  ⟨0x68, "PLA", .implied,     1, 4, 0x02, 0x13, false, false⟩,
  ⟨0x69, "ADC", .immediate,   2, 2, 0x11, 0x11, false, false⟩,
  ⟨0x6A, "ROR", .accumulator, 1, 2, 0x11, 0x11, false, false⟩,
  ⟨0x6B, "ARR", .immediate,   2, 2, 0x11, 0x11, false, false⟩,
  ⟨0x6C, "JMP", .absIndirect, 3, 5, 0x00, 0x00, false, false⟩,
  ⟨0x6D, "ADC", .absolute,    3, 4, 0x11, 0x11, true,  false⟩,
  ⟨0x6E, "ROR", .absolute,    3, 6, 0x01, 0x01, true,  true⟩,
  ⟨0x6F, "RRA", .absolute,    3, 6, 0x11, 0x11, true,  true⟩,
  ⟨0x70, "BVS", .relative,    2, 2, 0x01, 0x00, false, false⟩,
  ⟨0x71, "ADC", .indirectY,   2, 5, 0x11, 0x11, true,  false⟩,
  ⟨0x72, "KIL", .unknown,     1, 0, 0x00, 0x00, false, false⟩,
  ⟨0x73, "RRA", .indirectY,   2, 8, 0x11, 0x11, true,  true⟩,
  ⟨0x74, "NOP", .zeroPageX,   2, 4, 0x00, 0x00, true,  false⟩,
  ⟨0x75, "ADC", .zeroPageX,   2, 4, 0x19, 0x11, true,  false⟩,
  ⟨0x76, "ROR", .zeroPageX,   2, 6, 0x01, 0x01, true,  true⟩,
  ⟨0x77, "RRA", .zeroPageX,   2, 6, 0x11, 0x11, true,  true⟩,
  ⟨0x78, "SEI", .implied,     1, 2, 0x00, 0x01, false, false⟩,
  ⟨0x79, "ADC", .absoluteY,   3, 4, 0x11, 0x11, true,  false⟩,
  ⟨0x7A, "NOP", .implied,     1, 2, 0x00, 0x00, false, false⟩,
  ⟨0x7B, "RRA", .absoluteY,   3, 7, 0x11, 0x11, true,  true⟩,
  ⟨0x7C, "NOP", .absoluteX,   3, 4, 0x00, 0x00, true,  false⟩,
  ⟨0x7D, "ADC", .absoluteX,   3, 4, 0x11, 0x11, true,  false⟩,
  ⟨0x7E, "ROR", .absoluteX,   3, 7, 0x01, 0x01, true,  true⟩,
  ⟨0x7F, "RRA", .absoluteX,   3, 7, 0x11, 0x11, true,  true⟩,
  ⟨0x80, "NOP", .immediate,   2, 2, 0x00, 0x00, false, false⟩,
  ⟨0x81, "STA", .indirectX,   2, 6, 0x10, 0x00, true,  true⟩,
  ⟨0x82, "NOP", .immediate,   2, 2, 0x00, 0x00, false, false⟩,
  ⟨0x83, "SAX", .indirectX,   2, 6, 0x00, 0x00, true,  true⟩,
  ⟨0x84, "STY", .zeroPage,    2, 3, 0x04, 0x00, false, true⟩,
  ⟨0x85, "STA", .zeroPage,    2, 3, 0x10, 0x00, false, true⟩,
  ⟨0x86, "STX", .zeroPage,    2, 3, 0x08, 0x00, false, true⟩,
  ⟨0x87, "SAX", .zeroPage,    2, 3, 0x00, 0x00, false, true⟩,
  ⟨0x88, "DEY", .implied,     1, 2, 0x04, 0x05, false, false⟩,
  ⟨0x89, "NOP", .immediate,   2, 2, 0x00, 0x00, false, false⟩,
  ⟨0x8A, "TXA", .implied,     1, 2, 0x08, 0x11, false, false⟩,
  ⟨0x8B, "XAA", .immediate,   2, 2, 0x00, 0x11, false, false⟩,
  ⟨0x8C, "STY", .absolute,    3, 4, 0x04, 0x00, false, true⟩,
  ⟨0x8D, "STA", .absolute,    3, 4, 0x10, 0x00, false, true⟩,
  ⟨0x8E, "STX", .absolute,    3, 4, 0x08, 0x00, false, true⟩,
  ⟨0x8F, "SAX", .absolute,    3, 4, 0x00, 0x00, false, true⟩,
  ⟨0x90, "BCC", .relative,    2, 3, 0x01, 0x00, false, false⟩,
  ⟨0x91, "STA", .indirectY,   2, 6, 0x14, 0x00, true,  true⟩,
  ⟨0x92, "KIL", .unknown,     1, 0, 0x00, 0x00, false, false⟩,
  ⟨0x93, "AHX", .indirectY,   2, 6, 0x00, 0x00, true,  true⟩,
  ⟨0x94, "STY", .zeroPageX,   2, 4, 0x04, 0x00, true,  true⟩,
  ⟨0x95, "STA", .zeroPageX,   2, 4, 0x18, 0x00, false, true⟩,
  ⟨0x96, "STX", .zeroPageY,   2, 4, 0x08, 0x00, true,  true⟩,
  ⟨0x97, "SAX", .zeroPageY,   2, 4, 0x00, 0x00, true,  true⟩,
  ⟨0x98, "TYA", .implied,     1, 2, 0x04, 0x11, false, false⟩,
  ⟨0x99, "STA", .absoluteY,   3, 5, 0x10, 0x00, true,  true⟩,
  ⟨0x9A, "TXS", .implied,     1, 2, 0x08, 0x02, false, false⟩,
  ⟨0x9B, "TAS", .absoluteY,   1, 5, 0x04, 0x02, false, true⟩,
  ⟨0x9C, "SHY", .absoluteX,   3, 5, 0x04, 0x00, true,  true⟩,
  ⟨0x9D, "STA", .absoluteX,   3, 5, 0x10, 0x00, true,  true⟩,
  ⟨0x9E, "SHX", .absoluteY,   3, 5, 0x08, 0x00, true,  true⟩,
  ⟨0x9F, "AHX", .absoluteY,   3, 5, 0x00, 0x00, true,  true⟩,
  ⟨0xA0, "LDY", .immediate,   2, 2, 0x00, 0x05, false, false⟩,
  ⟨0xA1, "LDA", .indirectX,   2, 6, 0x00, 0x11, true,  false⟩,
  ⟨0xA2, "LDX", .immediate,   2, 2, 0x00, 0x09, false, false⟩,
  ⟨0xA3, "LAX", .indirectX,   2, 6, 0x00, 0x19, true,  false⟩,
  ⟨0xA4, "LDY", .zeroPage,    2, 3, 0x00, 0x05, true,  false⟩,
  ⟨0xA5, "LDA", .zeroPage,    2, 3, 0x00, 0x11, true,  false⟩,
  ⟨0xA6, "LDX", .zeroPage,    2, 3, 0x00, 0x09, true,  false⟩,
  ⟨0xA7, "LAX", .zeroPage,    2, 3, 0x00, 0x19, true,  false⟩,
  ⟨0xA8, "TAY", .implied,     1, 2, 0x10, 0x05, false, false⟩,
  ⟨0xA9, "LDA", .immediate,   2, 2, 0x00, 0x11, false, false⟩,
  ⟨0xAA, "TAX", .implied,     1, 2, 0x10, 0x09, false, false⟩,
  ⟨0xAB, "LAX", .immediate,   2, 2, 0x10, 0x19, false, false⟩,
  ⟨0xAC, "LDY", .absolute,    3, 4, 0x00, 0x05, true,  false⟩,
  ⟨0xAD, "LDA", .absolute,    3, 4, 0x00, 0x11, true,  false⟩,
  ⟨0xAE, "LDX", .absolute,    3, 4, 0x00, 0x09, true,  false⟩,
  ⟨0xAF, "LAX", .absolute,    3, 4, 0x00, 0x19, true,  false⟩,
  ⟨0xB0, "BCS", .relative,    2, 2, 0x01, 0x00, false, false⟩,
  ⟨0xB1, "LDA", .indirectY,   2, 5, 0x00, 0x11, true,  false⟩,
  ⟨0xB2, "KIL", .unknown,     1, 0, 0x00, 0x00, false, false⟩,
  ⟨0xB3, "LAX", .indirectY,   2, 5, 0x00, 0x19, true,  false⟩,
  ⟨0xB4, "LDY", .zeroPageX,   2, 4, 0x00, 0x05, true,  false⟩,
  ⟨0xB5, "LDA", .zeroPageX,   2, 4, 0x08, 0x11, true,  false⟩,
  ⟨0xB6, "LDX", .zeroPageY,   2, 4, 0x00, 0x09, true,  false⟩,
  ⟨0xB7, "LAX", .zeroPageY,   2, 4, 0x00, 0x19, true,  false⟩,
  ⟨0xB8, "CLV", .implied,     1, 2, 0x00, 0x01, false, false⟩,
  ⟨0xB9, "LDA", .absoluteY,   3, 4, 0x00, 0x11, true,  false⟩,
  ⟨0xBA, "TSX", .implied,     1, 2, 0x02, 0x09, false, false⟩,
  ⟨0xBB, "LAS", .absoluteY,   3, 4, 0x02, 0x1b, true,  false⟩,
  ⟨0xBC, "LDY", .absoluteX,   3, 4, 0x00, 0x05, true,  false⟩,
  ⟨0xBD, "LDA", .absoluteX,   3, 4, 0x08, 0x11, true,  false⟩,
  ⟨0xBE, "LDX", .absoluteY,   3, 4, 0x00, 0x09, true,  false⟩,
  ⟨0xBF, "LAX", .absoluteY,   3, 4, 0x00, 0x19, true,  false⟩,
  ⟨0xC0, "CPY", .immediate,   2, 2, 0x04, 0x01, false, false⟩,
  ⟨0xC1, "CMP", .indirectX,   2, 6, 0x10, 0x01, true,  false⟩,
  ⟨0xC2, "NOP", .immediate,   2, 2, 0x00, 0x00, false, false⟩,
  ⟨0xC3, "DCP", .indirectX,   2, 8, 0x10, 0x01, true,  true⟩,
  ⟨0xC4, "CPY", .zeroPage,    2, 3, 0x04, 0x01, true,  false⟩,
  ⟨0xC5, "CMP", .zeroPage,    2, 3, 0x10, 0x01, true,  false⟩,
  ⟨0xC6, "DEC", .zeroPage,    2, 5, 0x00, 0x01, true,  true⟩,
  ⟨0xC7, "DCP", .zeroPage,    2, 5, 0x10, 0x01, true,  true⟩,
  ⟨0xC8, "INY", .implied,     1, 2, 0x04, 0x05, false, false⟩,
  ⟨0xC9, "CMP", .immediate,   2, 2, 0x10, 0x01, false, false⟩,
  ⟨0xCA, "DEX", .implied,     1, 2, 0x08, 0x09, false, false⟩,
  ⟨0xCB, "AXS", .immediate,   2, 2, 0x00, 0x09, false, false⟩,
  ⟨0xCC, "CPY", .absolute,    3, 4, 0x04, 0x01, true,  false⟩,
  ⟨0xCD, "CMP", .absolute,    3, 4, 0x10, 0x01, true,  false⟩,
  ⟨0xCE, "DEC", .absolute,    3, 6, 0x00, 0x01, true,  true⟩,
  ⟨0xCF, "DCP", .absolute,    3, 6, 0x10, 0x01, true,  true⟩,
  ⟨0xD0, "BNE", .relative,    2, 2, 0x01, 0x00, false, false⟩,
  ⟨0xD1, "CMP", .indirectY,   2, 5, 0x10, 0x01, true,  false⟩,
  ⟨0xD2, "KIL", .unknown,     1, 0, 0x00, 0x00, false, false⟩,
  ⟨0xD3, "DCP", .indirectY,   2, 8, 0x10, 0x01, true,  true⟩,
  ⟨0xD4, "NOP", .zeroPageX,   2, 4, 0x00, 0x00, true,  false⟩,
  ⟨0xD5, "CMP", .zeroPageX,   2, 4, 0x10, 0x01, true,  false⟩,
  ⟨0xD6, "DEC", .zeroPageX,   2, 6, 0x00, 0x01, true,  true⟩,
  ⟨0xD7, "DCP", .zeroPageX,   2, 6, 0x10, 0x01, true,  true⟩,
  ⟨0xD8, "CLD", .implied,     1, 2, 0x00, 0x01, false, false⟩,
  ⟨0xD9, "CMP", .absoluteY,   3, 4, 0x10, 0x01, true,  false⟩,
  ⟨0xDA, "NOP", .implied,     1, 2, 0x00, 0x00, false, false⟩,
  ⟨0xDB, "DCP", .absoluteY,   3, 7, 0x10, 0x01, true,  true⟩,
  ⟨0xDC, "NOP", .absoluteX,   3, 4, 0x00, 0x00, true,  false⟩,
  ⟨0xDD, "CMP", .absoluteX,   3, 4, 0x10, 0x01, true,  false⟩,
  ⟨0xDE, "DEC", .absoluteX,   3, 7, 0x00, 0x01, true,  true⟩,
  ⟨0xDF, "DCP", .absoluteX,   3, 7, 0x10, 0x01, true,  true⟩,
  ⟨0xE0, "CPX", .immediate,   2, 2, 0x08, 0x01, false, false⟩,
  ⟨0xE1, "SBC", .indirectX,   2, 6, 0x11, 0x11, true,  false⟩,
  ⟨0xE2, "NOP", .immediate,   2, 2, 0x00, 0x00, false, false⟩,
  ⟨0xE3, "ISC", .indirectX,   2, 8, 0x11, 0x11, true,  true⟩,
  ⟨0xE4, "CPX", .zeroPage,    2, 3, 0x08, 0x01, true,  false⟩,
  ⟨0xE5, "SBC", .zeroPage,    2, 3, 0x11, 0x11, true,  false⟩,
  ⟨0xE6, "INC", .zeroPage,    2, 5, 0x00, 0x01, true,  true⟩,
  ⟨0xE7, "ISC", .zeroPage,    2, 5, 0x11, 0x11, true,  true⟩,
  ⟨0xE8, "INX", .implied,     1, 2, 0x08, 0x09, false, false⟩,
  ⟨0xE9, "SBC", .immediate,   2, 2, 0x11, 0x11, false, false⟩,
  ⟨0xEA, "NOP", .implied,     1, 2, 0x00, 0x00, false, false⟩,
  ⟨0xEB, "SBC", .immediate,   2, 2, 0x11, 0x11, false, false⟩,
  ⟨0xEC, "CPX", .absolute,    3, 4, 0x08, 0x01, true,  false⟩,
  ⟨0xED, "SBC", .absolute,    3, 4, 0x11, 0x11, true,  false⟩,
  ⟨0xEE, "INC", .absolute,    3, 6, 0x00, 0x01, true,  true⟩,
  ⟨0xEF, "ISC", .absolute,    3, 6, 0x11, 0x11, true,  true⟩,
  ⟨0xF0, "BEQ", .relative,    2, 2, 0x01, 0x00, false, false⟩,
  ⟨0xF1, "SBC", .indirectY,   2, 5, 0x11, 0x11, true,  false⟩,
  ⟨0xF2, "KIL", .unknown,     1, 0, 0x00, 0x00, false, false⟩,
  ⟨0xF3, "ISC", .indirectY,   2, 8, 0x11, 0x11, true,  true⟩,
  ⟨0xF4, "NOP", .zeroPageX,   2, 4, 0x00, 0x00, true,  false⟩,
  ⟨0xF5, "SBC", .zeroPageX,   2, 4, 0x11, 0x11, true,  false⟩,
  ⟨0xF6, "INC", .zeroPageX,   2, 6, 0x00, 0x01, true,  true⟩,
  ⟨0xF7, "ISC", .zeroPageX,   2, 6, 0x11, 0x11, true,  true⟩,
  ⟨0xF8, "SED", .implied,     1, 2, 0x00, 0x01, false, false⟩,
  ⟨0xF9, "SBC", .absoluteY,   3, 4, 0x11, 0x11, true,  false⟩,
  ⟨0xFA, "NOP", .implied,     1, 2, 0x00, 0x00, false, false⟩,
  ⟨0xFB, "ISC", .absoluteY,   3, 7, 0x11, 0x11, true,  true⟩,
  ⟨0xFC, "NOP", .absoluteX,   3, 4, 0x00, 0x00, true,  false⟩,
  ⟨0xFD, "SBC", .absoluteX,   3, 4, 0x11, 0x11, true,  false⟩,
  ⟨0xFE, "INC", .absoluteX,   3, 7, 0x08, 0x01, true,  true⟩,
  ⟨0xFF, "ISC", .absoluteX,   3, 7, 0x11, 0x11, true,  true⟩]

set_option maxRecDepth 4000 in

/-- The table has a row for each of the 256 opcodes. -/
theorem opcodeEntries_length : opcodeEntries.length = 256 := rfl

/-- `opcode_table[opcode]`. -/
def opcodeTable (opcode : U8) : OpcodeEntry :=
  opcodeEntries.get ⟨opcode.toNat, opcodeEntries_length ▸ opcode.isLt⟩

/-- Every opcode finds a row. -/
theorem opcodeTable_mem (opcode : U8) : opcodeTable opcode ∈ opcodeEntries :=
  List.get_mem _ _

set_option maxRecDepth 4000 in
/-- Every row stands at the index of its opcode. -/
theorem opcodeTable_opcode (opcode : U8) : (opcodeTable opcode).opcode = opcode := by
  have hrows : opcodeEntries.map (fun e => e.opcode) = (List.range 256).map (BitVec.ofNat 8) := by
    decide +kernel
  have hlt : opcode.toNat < opcodeEntries.length := opcodeEntries_length ▸ opcode.isLt
  have hrow : opcodeEntries[opcode.toNat].opcode = opcode := by
    have h := congrArg (fun l => l[opcode.toNat]?) hrows
    simpa [hlt, opcode.isLt] using h
  exact hrow

/-- No row takes more than eight cycles. -/
theorem opcodeTable_cycles_le (opcode : U8) : (opcodeTable opcode).cycles ≤ 8 :=
  (by decide +kernel : ∀ e ∈ opcodeEntries, e.cycles ≤ 8) _ (opcodeTable_mem opcode)

end KernelNES.Emulator
