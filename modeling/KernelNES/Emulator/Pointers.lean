import KernelNES.Emulator.RamFrame

/-!
# Emulator — Pointers

The two bytes of a pointer.  The 6502 increments the low byte of the pointer's address only, so that
a pointer at the last byte of a page has its high byte at the first byte of the same page
(`nextInPage`).  The source passes `address + 1`, an `int`, to `emu_read`: the high byte comes from
the next page (`pointerRight_iff`).
-/

namespace KernelNES.Emulator
open KernelNES.Lib

/-- The instructions that go through a pointer: `STA (zp),Y`, `STA (zp,X)` and `JMP (a)`. -/
inductive PointerOp where
  | staIndirectY
  | staIndirectX
  | jmpIndirect
  deriving DecidableEq, Repr

namespace PointerOp

/-- Its opcode. -/
def opcode : PointerOp → U8
  | staIndirectY => 0x91
  | staIndirectX => 0x81
  | jmpIndirect  => 0x6C

/-- Its instruction. -/
def instr : PointerOp → Instr
  | staIndirectY => .store .A .indirectY
  | staIndirectX => .store .A .indirectX
  | jmpIndirect  => .jmpIndirect

/-- Each opcode is the instruction. -/
theorem decode_opcode (op : PointerOp) : decode op.opcode = some op.instr := by
  cases op <;> rfl

/-- Where the pointer is. -/
def location (op : PointerOp) (m : Machine) : U16 :=
  let byte := m.peek (m.registers.programCounter + 1)
  match op with
  | staIndirectY => byte.setWidth 16
  | staIndirectX => (byte + m.registers.X).setWidth 16
  | jmpIndirect  => word (m.peek (m.registers.programCounter + 2)) byte

/-- What is added to the pointer. -/
def index (op : PointerOp) (m : Machine) : U16 :=
  match op with
  | staIndirectY => m.registers.Y.setWidth 16
  | staIndirectX | jmpIndirect => 0

end PointerOp

/-- The address with the same page, and the low byte incremented. -/
def nextInPage (a : U16) : U16 := word ((a >>> 8).setWidth 8) (a.setWidth 8 + 1)

/-- The address the pointer leads to, as on the 6502. -/
def Machine.pointerTarget (m : Machine) (op : PointerOp) : U16 :=
  let a := op.location m
  word (m.peek (nextInPage a)) (m.peek a) + op.index m

/-- The address the code comes to: the one it stores to, or the new program counter. -/
def PointerOp.reached (op : PointerOp) (order : EvalOrder) (answer : Addr) (m : Machine) : U16 :=
  match op with
  | staIndirectY => (getIndirectAddressYIndexed (m.fetched answer)).1
  | staIndirectX => (getIndirectAddressXIndexed (m.fetched answer)).1
  | jmpIndirect  => (emulateCPU order answer m).2.registers.programCounter

/-- What a step makes of the address it comes to. -/
def PointerOp.Used (op : PointerOp) (a : U16) (m m' : Machine) : Prop :=
  match op with
  | staIndirectY | staIndirectX => m'.RAM = storeRAM m.RAM a m.registers.A
  | jmpIndirect => m'.registers.programCounter = a ∧ m'.RAM = m.RAM

/-- The step goes through its pointer as on the 6502. -/
structure PointerRight (op : PointerOp) (order : EvalOrder) (answer : Addr) (m : Machine) :
    Prop where
  reached : op.reached order answer m = m.pointerTarget op
  used : op.Used (m.pointerTarget op) m (emulateCPU order answer m).2

/-! ### The bytes of a pointer -/

/-- A word is its two bytes. -/
theorem word_injective {h h' l l' : U8} (e : word h l = word h' l') : h = h' ∧ l = l' := by
  have hn := congrArg BitVec.toNat e
  rw [word_toNat, word_toNat] at hn
  have hl := l.isLt
  have hl' := l'.isLt
  exact ⟨BitVec.eq_of_toNat_eq (by omega), BitVec.eq_of_toNat_eq (by omega)⟩

/-- Inside a page, the next address is the next one of the page. -/
theorem nextInPage_of_inside {a : U16} (h : a.setWidth 8 ≠ (0xFF : U8)) : nextInPage a = a + 1 := by
  have ha := a.isLt
  have hlow : a.toNat % 256 ≠ 255 := fun e => h (BitVec.eq_of_toNat_eq e)
  refine BitVec.eq_of_toNat_eq ?_
  rw [nextInPage, word_toNat, BitVec.toNat_add, BitVec.toNat_add, BitVec.toNat_setWidth,
    BitVec.toNat_setWidth, BitVec.toNat_ushiftRight, Nat.shiftRight_eq_div_pow]
  simp only [BitVec.ofNat_eq_ofNat, BitVec.toNat_ofNat]
  omega

section
variable {op : PointerOp} {m : Machine} (h : m.nextOpcode = op.opcode) (order : EvalOrder)
  (answer : Addr)
include h

/-- The code takes the high byte from the address behind. -/
theorem reached_eq : op.reached order answer m =
    word (m.peek (op.location m + 1)) (m.peek (op.location m)) + op.index m := by
  cases op with
  | staIndirectY => rfl
  | staIndirectX => exact (BitVec.add_zero _).symm
  | jmpIndirect =>
    have hpc : m.registers.programCounter + 1 + 1 = m.registers.programCounter + 2 :=
      BitVec.add_assoc _ _ _
    rw [PointerOp.reached, emulateCPU_of_decode (h ▸ PointerOp.decode_opcode _),
      PointerOp.location, ← hpc]
    exact (BitVec.add_zero _).symm

/-- The address is the one the step used. -/
theorem reached_used : op.Used (op.reached order answer m) m (emulateCPU order answer m).2 := by
  cases op with
  | staIndirectY | staIndirectX =>
    rw [emulateCPU_of_decode (h ▸ PointerOp.decode_opcode _)]
    rfl
  | jmpIndirect =>
    refine ⟨rfl, ?_⟩
    rw [emulateCPU_of_decode (h ▸ PointerOp.decode_opcode _)]
    rfl

/-- **Pointers are fetched within their page**, exactly when they do not lie across its end, or the
byte behind the page is the one at its start. -/
theorem pointerRight_iff : PointerRight op order answer m ↔
    (op.location m).setWidth 8 ≠ (0xFF : U8) ∨
      m.peek (op.location m + 1) = m.peek (nextInPage (op.location m)) := by
  have hreached := reached_eq h order answer
  constructor
  · intro hr
    have heq := hr.reached.symm.trans hreached
    exact .inr (word_injective ((BitVec.add_left_inj _).mp heq)).1.symm
  · intro hc
    have hbyte : m.peek (op.location m + 1) = m.peek (nextInPage (op.location m)) := by
      rcases hc with hc | hc
      · rw [nextInPage_of_inside hc]
      · exact hc
    have htarget : op.reached order answer m = m.pointerTarget op := by
      rw [hreached, hbyte]
      rfl
    exact ⟨htarget, htarget ▸ reached_used h order answer⟩

end

/-- About to run `STA (0xFF),Y` at the end of the zero page. -/
def pointerMachine : Machine :=
  { Machine.ofProgram [0x91, 0xFF] ⟨7, 0, 0, 0, 0xFD, 0⟩ with
    RAM := fun a => if a = 0x00FF then 0x10 else if a = 0x0100 then 0x03 else 0x02 }

/-- `JMP (0x8003)`. -/
theorem pointerRight_jmp :
    PointerRight .jmpIndirect .leftFirst 1
      (.ofProgram [0x6C, 0x03, 0x80, 0x00, 0x90] ⟨0, 0, 0, 0, 0xFD, 0⟩) :=
  (pointerRight_iff (by decide +kernel) .leftFirst 1).mpr (.inl (by decide +kernel))

/-- The pointer's high byte comes from the stack page, and the store is to `0x0310` instead of
`0x0210`. -/
theorem pointer_leaves_page :
    pointerMachine.nextOpcode = PointerOp.staIndirectY.opcode ∧
      pointerMachine.pointerTarget .staIndirectY = 0x0210 ∧
      PointerOp.staIndirectY.reached .leftFirst 1 pointerMachine = 0x0310 ∧
      ¬ PointerRight .staIndirectY .leftFirst 1 pointerMachine := by
  have htarget : pointerMachine.pointerTarget .staIndirectY = 0x0210 := by decide +kernel
  have hreached : PointerOp.staIndirectY.reached .leftFirst 1 pointerMachine = 0x0310 := by
    decide +kernel
  refine ⟨by decide +kernel, htarget, hreached, fun h => ?_⟩
  have heq := h.reached
  rw [htarget, hreached] at heq
  exact absurd heq (by decide)

end KernelNES.Emulator
