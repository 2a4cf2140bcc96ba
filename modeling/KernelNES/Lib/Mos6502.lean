import KernelNES.Lib.CInt

/-!
# Lib — Mos6502

The 6502 as its programmers see it: the 151 documented opcodes, each an operation and an addressing
mode, and what one of them does to the registers and to the memory.  The memory is any type with a
`Bus`, so that the address map of a machine is its own affair.  Arithmetic is binary whatever the
decimal flag says, as in the chips sold without decimal mode.

`step` has no result at an undocumented opcode.  `run` is so many steps, and composes (`run_add`);
two machines of which each step of the one is a step of the other run together as long as the
condition for that holds (`run_simulates_iff`).
-/

namespace KernelNES.Lib.Mos6502

/-! ### State -/

/-- The flags of the status register that are flip-flops. -/
structure Flags where
  N : Bool
  V : Bool
  D : Bool
  I : Bool
  Z : Bool
  C : Bool
  deriving DecidableEq, Repr

/-- The registers. -/
structure Cpu where
  A : U8
  X : U8
  Y : U8
  SP : U8
  PC : U16
  flags : Flags
  deriving DecidableEq, Repr

/-- How the processor sees a memory of type `M`. -/
structure Bus (M : Type) where
  read : M → U16 → U8
  write : M → U16 → U8 → M

/-- The registers and a memory. -/
structure State (M : Type) where
  cpu : Cpu
  mem : M

/-- The flags a byte of the stack stands for. -/
def Flags.ofByte (v : U8) : Flags where
  N := v.getLsbD 7
  V := v.getLsbD 6
  D := v.getLsbD 3
  I := v.getLsbD 2
  Z := v.getLsbD 1
  C := v.getLsbD 0

/-- The byte the flags are pushed as.  The two bits without a flip-flop are pushed as ones, by
`PHP` and by `BRK`. -/
def Flags.byte (f : Flags) : U8 :=
  (BitVec.ofBool f.N ++ BitVec.ofBool f.V ++ 0b11#2 ++ BitVec.ofBool f.D ++ BitVec.ofBool f.I ++
    BitVec.ofBool f.Z ++ BitVec.ofBool f.C : BitVec 8)

@[simp] theorem Flags.ofByte_byte (f : Flags) : Flags.ofByte f.byte = f := by
  rcases f with ⟨N, V, D, I, Z, C⟩
  revert N V D I Z C
  decide

/-- Zero and negative, after a result. -/
def Flags.result (f : Flags) (v : U8) : Flags := { f with Z := v = 0, N := v.msb }

/-! ### Operations and modes -/

/-- The registers an operation names. -/
inductive Reg where
  | A
  | X
  | Y
  deriving DecidableEq, Repr

/-- The value of a register. -/
def Cpu.get (c : Cpu) : Reg → U8
  | .A => c.A
  | .X => c.X
  | .Y => c.Y

/-- A register set to `v`. -/
def Cpu.set (c : Cpu) (v : U8) : Reg → Cpu
  | .A => { c with A := v }
  | .X => { c with X := v }
  | .Y => { c with Y := v }

/-- The flags. -/
inductive Flag where
  | N
  | V
  | D
  | I
  | Z
  | C
  deriving DecidableEq, Repr

/-- The value of a flag. -/
def Flags.get (f : Flags) : Flag → Bool
  | .N => f.N
  | .V => f.V
  | .D => f.D
  | .I => f.I
  | .Z => f.Z
  | .C => f.C

/-- A flag set to `b`. -/
def Flags.set (f : Flags) (b : Bool) : Flag → Flags
  | .N => { f with N := b }
  | .V => { f with V := b }
  | .D => { f with D := b }
  | .I => { f with I := b }
  | .Z => { f with Z := b }
  | .C => { f with C := b }

/-- The bit of the status byte that a flag is. -/
def Flag.bit : Flag → Nat
  | .N => 7
  | .V => 6
  | .D => 3
  | .I => 2
  | .Z => 1
  | .C => 0

theorem Flag.bit_lt (f : Flag) : f.bit < 8 := by cases f <;> decide

/-- No two flags share a bit. -/
theorem Flag.bit_inj {f g : Flag} : f.bit = g.bit ↔ f = g := by
  cases f <;> cases g <;> decide

/-- A flag of a byte is its bit. -/
theorem Flags.get_ofByte (v : U8) (f : Flag) : (Flags.ofByte v).get f = v.getLsbD f.bit := by
  cases f <;> rfl

/-- Setting one flag leaves the others alone. -/
theorem Flags.get_set (s : Flags) (b : Bool) (f g : Flag) :
    (s.set b f).get g = if f = g then b else s.get g := by
  cases f <;> cases g <;> rfl

/-- Flags are equal when each is. -/
theorem Flags.ext_get {s t : Flags} (h : ∀ f : Flag, s.get f = t.get f) : s = t := by
  obtain ⟨N, V, D, I, Z, C⟩ := s
  exact Flags.mk.injEq .. ▸ ⟨h .N, h .V, h .D, h .I, h .Z, h .C⟩

/-- The logical operations. -/
inductive Logic where
  | ora
  | and
  | eor
  deriving DecidableEq, Repr

/-- The result, of the accumulator and the operand. -/
def Logic.apply : Logic → U8 → U8 → U8
  | .ora, a, v => a ||| v
  | .and, a, v => a &&& v
  | .eor, a, v => a ^^^ v

/-- What is done to a byte in place. -/
inductive Modify where
  | asl
  | lsr
  | rol
  | ror
  | inc
  | dec
  deriving DecidableEq, Repr

/-- The new byte, and the new carry. -/
def Modify.apply (carry : Bool) (v : U8) : Modify → U8 × Bool
  | .asl => (v <<< 1, v.msb)
  | .lsr => (v >>> 1, v.getLsbD 0)
  | .rol => (v <<< 1 ||| (BitVec.ofBool carry).setWidth 8, v.msb)
  | .ror => (v >>> 1 ||| (BitVec.ofBool carry).setWidth 8 <<< 7, v.getLsbD 0)
  | .inc => (v + 1, carry)
  | .dec => (v - 1, carry)

/-- What an instruction does. -/
inductive Op where
  | load (reg : Reg)
  | store (reg : Reg)
  | logic (op : Logic)
  | adc
  | sbc
  | compare (reg : Reg)
  | bit
  /-- The shifts, `INC` and `DEC`, on memory or on the accumulator. -/
  | modify (op : Modify)
  | increment (reg : Reg)
  | decrement (reg : Reg)
  | transfer (dst src : Reg)
  | tsx
  | txs
  | setFlag (flag : Flag) (value : Bool)
  | pha
  | pla
  | php
  | plp
  | branch (flag : Flag) (wanted : Bool)
  | jmp
  | jsr
  | rts
  | brk
  | rti
  | nop
  deriving DecidableEq, Repr

/-- Where an instruction finds its operand. -/
inductive Mode where
  | implied
  | accumulator
  | immediate
  | zeroPage
  | zeroPageX
  | zeroPageY
  | absolute
  | absoluteX
  | absoluteY
  | indirect
  | indirectX
  | indirectY
  | relative
  deriving DecidableEq, Repr

/-- The documented opcodes. -/
def opcodes : List (U8 × Op × Mode) := [
  (0x69, .adc, .immediate), (0x65, .adc, .zeroPage), (0x75, .adc, .zeroPageX),
  (0x6D, .adc, .absolute), (0x7D, .adc, .absoluteX), (0x79, .adc, .absoluteY),
  (0x61, .adc, .indirectX), (0x71, .adc, .indirectY),
  (0xE9, .sbc, .immediate), (0xE5, .sbc, .zeroPage), (0xF5, .sbc, .zeroPageX),
  (0xED, .sbc, .absolute), (0xFD, .sbc, .absoluteX), (0xF9, .sbc, .absoluteY),
  (0xE1, .sbc, .indirectX), (0xF1, .sbc, .indirectY),
  (0x09, .logic .ora, .immediate), (0x05, .logic .ora, .zeroPage),
  (0x15, .logic .ora, .zeroPageX), (0x0D, .logic .ora, .absolute),
  (0x1D, .logic .ora, .absoluteX), (0x19, .logic .ora, .absoluteY),
  (0x01, .logic .ora, .indirectX), (0x11, .logic .ora, .indirectY),
  (0x29, .logic .and, .immediate), (0x25, .logic .and, .zeroPage),
  (0x35, .logic .and, .zeroPageX), (0x2D, .logic .and, .absolute),
  (0x3D, .logic .and, .absoluteX), (0x39, .logic .and, .absoluteY),
  (0x21, .logic .and, .indirectX), (0x31, .logic .and, .indirectY),
  (0x49, .logic .eor, .immediate), (0x45, .logic .eor, .zeroPage),
  (0x55, .logic .eor, .zeroPageX), (0x4D, .logic .eor, .absolute),
  (0x5D, .logic .eor, .absoluteX), (0x59, .logic .eor, .absoluteY),
  (0x41, .logic .eor, .indirectX), (0x51, .logic .eor, .indirectY),
  (0xC9, .compare .A, .immediate), (0xC5, .compare .A, .zeroPage),
  (0xD5, .compare .A, .zeroPageX), (0xCD, .compare .A, .absolute),
  (0xDD, .compare .A, .absoluteX), (0xD9, .compare .A, .absoluteY),
  (0xC1, .compare .A, .indirectX), (0xD1, .compare .A, .indirectY),
  (0xE0, .compare .X, .immediate), (0xE4, .compare .X, .zeroPage), (0xEC, .compare .X, .absolute),
  (0xC0, .compare .Y, .immediate), (0xC4, .compare .Y, .zeroPage), (0xCC, .compare .Y, .absolute),
  (0x24, .bit, .zeroPage), (0x2C, .bit, .absolute),
  (0xA9, .load .A, .immediate), (0xA5, .load .A, .zeroPage), (0xB5, .load .A, .zeroPageX),
  (0xAD, .load .A, .absolute), (0xBD, .load .A, .absoluteX), (0xB9, .load .A, .absoluteY),
  (0xA1, .load .A, .indirectX), (0xB1, .load .A, .indirectY),
  (0xA2, .load .X, .immediate), (0xA6, .load .X, .zeroPage), (0xB6, .load .X, .zeroPageY),
  (0xAE, .load .X, .absolute), (0xBE, .load .X, .absoluteY),
  (0xA0, .load .Y, .immediate), (0xA4, .load .Y, .zeroPage), (0xB4, .load .Y, .zeroPageX),
  (0xAC, .load .Y, .absolute), (0xBC, .load .Y, .absoluteX),
  (0x85, .store .A, .zeroPage), (0x95, .store .A, .zeroPageX), (0x8D, .store .A, .absolute),
  (0x9D, .store .A, .absoluteX), (0x99, .store .A, .absoluteY), (0x81, .store .A, .indirectX),
  (0x91, .store .A, .indirectY),
  (0x86, .store .X, .zeroPage), (0x96, .store .X, .zeroPageY), (0x8E, .store .X, .absolute),
  (0x84, .store .Y, .zeroPage), (0x94, .store .Y, .zeroPageX), (0x8C, .store .Y, .absolute),
  (0x0A, .modify .asl, .accumulator), (0x06, .modify .asl, .zeroPage),
  (0x16, .modify .asl, .zeroPageX), (0x0E, .modify .asl, .absolute),
  (0x1E, .modify .asl, .absoluteX),
  (0x4A, .modify .lsr, .accumulator), (0x46, .modify .lsr, .zeroPage),
  (0x56, .modify .lsr, .zeroPageX), (0x4E, .modify .lsr, .absolute),
  (0x5E, .modify .lsr, .absoluteX),
  (0x2A, .modify .rol, .accumulator), (0x26, .modify .rol, .zeroPage),
  (0x36, .modify .rol, .zeroPageX), (0x2E, .modify .rol, .absolute),
  (0x3E, .modify .rol, .absoluteX),
  (0x6A, .modify .ror, .accumulator), (0x66, .modify .ror, .zeroPage),
  (0x76, .modify .ror, .zeroPageX), (0x6E, .modify .ror, .absolute),
  (0x7E, .modify .ror, .absoluteX),
  (0xE6, .modify .inc, .zeroPage), (0xF6, .modify .inc, .zeroPageX),
  (0xEE, .modify .inc, .absolute), (0xFE, .modify .inc, .absoluteX),
  (0xC6, .modify .dec, .zeroPage), (0xD6, .modify .dec, .zeroPageX),
  (0xCE, .modify .dec, .absolute), (0xDE, .modify .dec, .absoluteX),
  (0xE8, .increment .X, .implied), (0xC8, .increment .Y, .implied),
  (0xCA, .decrement .X, .implied), (0x88, .decrement .Y, .implied),
  (0xAA, .transfer .X .A, .implied), (0xA8, .transfer .Y .A, .implied),
  (0x8A, .transfer .A .X, .implied), (0x98, .transfer .A .Y, .implied),
  (0xBA, .tsx, .implied), (0x9A, .txs, .implied),
  (0x18, .setFlag .C false, .implied), (0x38, .setFlag .C true, .implied),
  (0x58, .setFlag .I false, .implied), (0x78, .setFlag .I true, .implied),
  (0xD8, .setFlag .D false, .implied), (0xF8, .setFlag .D true, .implied),
  (0xB8, .setFlag .V false, .implied),
  (0x48, .pha, .implied), (0x68, .pla, .implied), (0x08, .php, .implied), (0x28, .plp, .implied),
  (0x10, .branch .N false, .relative), (0x30, .branch .N true, .relative),
  (0x50, .branch .V false, .relative), (0x70, .branch .V true, .relative),
  (0x90, .branch .C false, .relative), (0xB0, .branch .C true, .relative),
  (0xD0, .branch .Z false, .relative), (0xF0, .branch .Z true, .relative),
  (0x4C, .jmp, .absolute), (0x6C, .jmp, .indirect), (0x20, .jsr, .absolute),
  (0x60, .rts, .implied), (0x00, .brk, .implied), (0x40, .rti, .implied), (0xEA, .nop, .implied)]

/-- The operation and the mode of a documented opcode. -/
def decode (opcode : U8) : Option (Op × Mode) := opcodes.lookup opcode

/-! ### Addresses -/

/-- The word with the given bytes. -/
def word (highbyte lowbyte : U8) : U16 := highbyte.setWidth 16 <<< 8 ||| lowbyte.setWidth 16

/-- The next address in the same page of 256. -/
def nextInPage (a : U16) : U16 := word ((a >>> 8).setWidth 8) (a.setWidth 8 + 1)

/-- The address behind an instruction whose operand is at `pc`. -/
def Mode.behind (pc : U16) : Mode → U16
  | .implied | .accumulator => pc
  | .immediate | .zeroPage | .zeroPageX | .zeroPageY | .indirectX | .indirectY | .relative => pc + 1
  | .absolute | .absoluteX | .absoluteY | .indirect => pc + 1 + 1

section
variable {M : Type} (bus : Bus M)

/-- A pointer, whose two bytes are in one page. -/
def Bus.pointer (mem : M) (a : U16) : U16 := word (bus.read mem (nextInPage a)) (bus.read mem a)

/-- The address the instruction at the program counter works on. -/
def State.address (s : State M) (mode : Mode) : U16 :=
  let pc := s.cpu.PC + 1
  let byte := bus.read s.mem pc
  let absolute := word (bus.read s.mem (pc + 1)) byte
  match mode with
  | .implied | .accumulator => 0
  | .immediate => pc
  | .zeroPage  => byte.setWidth 16
  | .zeroPageX => (byte + s.cpu.X).setWidth 16
  | .zeroPageY => (byte + s.cpu.Y).setWidth 16
  | .absolute  => absolute
  | .absoluteX => absolute + s.cpu.X.setWidth 16
  | .absoluteY => absolute + s.cpu.Y.setWidth 16
  | .indirect  => bus.pointer s.mem absolute
  | .indirectX => bus.pointer s.mem ((byte + s.cpu.X).setWidth 16)
  | .indirectY => bus.pointer s.mem (byte.setWidth 16) + s.cpu.Y.setWidth 16
  | .relative  => pc + 1 + byte.signExtend 16

/-! ### Instructions -/

/-- Where the stack pointer points. -/
def stackAt (sp : U8) : U16 := 0x100 + sp.setWidth 16

/-- A byte put on the stack. -/
def State.push (s : State M) (v : U8) : State M where
  cpu := { s.cpu with SP := s.cpu.SP - 1 }
  mem := bus.write s.mem (stackAt s.cpu.SP) v

/-- A word put on the stack, its high byte first. -/
def State.pushWord (s : State M) (a : U16) : State M :=
  (s.push bus ((a >>> 8).setWidth 8)).push bus (a.setWidth 8)

/-- The byte on top of the stack. -/
def State.top (s : State M) : U8 := bus.read s.mem (stackAt (s.cpu.SP + 1))

/-- The stack pointer past one byte. -/
def State.drop (s : State M) : State M := { s with cpu := { s.cpu with SP := s.cpu.SP + 1 } }

/-- The program counter taken from the stack, and `skip` added to it. -/
def State.return (s : State M) (skip : U16) : State M :=
  { s.drop.drop with
    cpu := { s.drop.drop.cpu with PC := word (s.drop.top bus) (s.top bus) + skip } }

/-- The program counter set to `a`. -/
def State.jump (s : State M) (a : U16) : State M := { s with cpu := { s.cpu with PC := a } }

/-- The flags set to `f`. -/
def State.setFlags (s : State M) (f : Flags) : State M := { s with cpu := { s.cpu with flags := f } }

/-- A register set to `v`, and the flags of a result. -/
def State.setReg (s : State M) (reg : Reg) (v : U8) : State M :=
  { s with cpu := { s.cpu.set v reg with flags := s.cpu.flags.result v } }

/-- The sum of the accumulator, an operand and the carry. -/
def Cpu.add (c : Cpu) (v : U8) : Cpu :=
  let sum : Int := c.A.toNat + v.toNat + c.flags.C.toNat
  let signed : Int := c.A.toInt + v.toInt + c.flags.C.toNat
  { c with
    A := BitVec.ofInt 8 sum
    flags :=
      { c.flags.result (BitVec.ofInt 8 sum) with
        C := 255 < sum
        V := signed < -128 ∨ 127 < signed } }

/-- The difference, less the borrow: the carry set is no borrow. -/
def Cpu.subtract (c : Cpu) (v : U8) : Cpu :=
  let difference : Int := c.A.toNat - v.toNat - (1 - c.flags.C.toNat)
  let signed : Int := c.A.toInt - v.toInt - (1 - c.flags.C.toNat)
  { c with
    A := BitVec.ofInt 8 difference
    flags :=
      { c.flags.result (BitVec.ofInt 8 difference) with
        C := 0 ≤ difference
        V := signed < -128 ∨ 127 < signed } }

/-- One instruction. -/
def exec (op : Op) (mode : Mode) (s : State M) : State M :=
  let a := s.address bus mode
  let v := bus.read s.mem a
  let next := s.jump (mode.behind (s.cpu.PC + 1))
  match op with
  | .load reg => next.setReg reg v
  | .store reg => { next with mem := bus.write s.mem a (s.cpu.get reg) }
  | .logic op => next.setReg .A (op.apply s.cpu.A v)
  | .adc => { next with cpu := next.cpu.add v }
  | .sbc => { next with cpu := next.cpu.subtract v }
  | .compare reg =>
      next.setFlags { s.cpu.flags.result (s.cpu.get reg - v) with C := v ≤ s.cpu.get reg }
  | .bit =>
      next.setFlags
        { s.cpu.flags with Z := s.cpu.A &&& v = 0, N := v.getLsbD 7, V := v.getLsbD 6 }
  | .modify op =>
      let old := if mode = .accumulator then s.cpu.A else v
      let (new, carry) := op.apply s.cpu.flags.C old
      let next := next.setFlags { s.cpu.flags.result new with C := carry }
      if mode = .accumulator then { next with cpu := { next.cpu with A := new } }
      else { next with mem := bus.write s.mem a new }
  | .increment reg => next.setReg reg (s.cpu.get reg + 1)
  | .decrement reg => next.setReg reg (s.cpu.get reg - 1)
  | .transfer dst src => next.setReg dst (s.cpu.get src)
  | .tsx => next.setReg .X s.cpu.SP
  | .txs => { next with cpu := { next.cpu with SP := s.cpu.X } }
  | .setFlag flag value => next.setFlags (s.cpu.flags.set value flag)
  | .pha => next.push bus s.cpu.A
  | .pla => next.drop.setReg .A (s.top bus)
  | .php => next.push bus s.cpu.flags.byte
  | .plp => next.drop.setFlags (.ofByte (s.top bus))
  | .branch flag wanted => if s.cpu.flags.get flag = wanted then next.jump a else next
  | .jmp => next.jump a
  | .jsr => (next.pushWord bus (s.cpu.PC + 1 + 1)).jump a
  | .rts => next.return bus 1
  | .brk =>
      let pushed := (next.pushWord bus (s.cpu.PC + 1 + 1)).push bus s.cpu.flags.byte
      (pushed.setFlags { s.cpu.flags with I := true }).jump (bus.pointer pushed.mem 0xFFFE)
  | .rti => (next.drop.setFlags (.ofByte (s.top bus))).return bus 0
  | .nop => next

/-- The opcode at the program counter. -/
def State.opcode (s : State M) : U8 := bus.read s.mem s.cpu.PC

/-- One step, if the opcode is documented. -/
def step (s : State M) : Option (State M) :=
  (decode (s.opcode bus)).map fun (op, mode) => exec bus op mode s

/-- So many steps. -/
def run : (steps : Nat) → State M → Option (State M)
  | 0, s => some s
  | n + 1, s => (step bus s).bind (run n)

end

/-! ### Runs -/

section
variable {M : Type} {bus : Bus M}

/-- A step executes the operation of the opcode. -/
theorem step_of_decode {s : State M} {op : Op} {mode : Mode}
    (h : decode (s.opcode bus) = some (op, mode)) : step bus s = some (exec bus op mode s) := by
  rw [step, h, Option.map_some]

/-- A run is its first steps, and then the others. -/
theorem run_add (n k : Nat) (s : State M) :
    run bus (n + k) s = (run bus n s).bind (run bus k) := by
  induction n generalizing s with
  | zero => rw [Nat.zero_add]; rfl
  | succ n ih =>
      rw [Nat.succ_add]
      show (step bus s).bind (run bus (n + k)) = ((step bus s).bind (run bus n)).bind (run bus k)
      rw [Option.bind_assoc]
      exact congrArg _ (funext ih)

/-- The last of `n + 1` steps. -/
theorem run_succ (n : Nat) (s : State M) :
    run bus (n + 1) s = (run bus n s).bind (step bus) := by
  rw [run_add]
  refine congrArg _ (funext fun s => ?_)
  show (step bus s).bind some = _
  rw [Option.bind_fun_some]

/-- **Two machines side by side.**  If `Faithful` is when a step of a machine, seen through `view`,
is a step of the processor, then all the states of its run up to the `n`-th are the processor's
exactly when it is faithful up to there. -/
theorem run_simulates_iff {σ : Type} (view : σ → State M) (next : Nat → σ → σ) (states : Nat → σ)
    {Faithful : σ → Prop} (hnext : ∀ k, states (k + 1) = next k (states k))
    (hstep : ∀ k s, step bus (view s) = some (view (next k s)) ↔ Faithful s) (n : Nat) :
    (∀ k ≤ n, run bus k (view (states 0)) = some (view (states k))) ↔
      ∀ k < n, Faithful (states k) := by
  induction n with
  | zero =>
      refine iff_of_true (fun k hk => ?_) nofun
      rw [Nat.le_zero.mp hk]
      rfl
  | succ n ih =>
      constructor
      · intro hrun k hk
        rw [← hstep k, ← hnext]
        have hk' := hrun (k + 1) hk
        rw [run_succ, hrun k (by omega)] at hk'
        exact hk'
      · intro hfaithful k hk
        have hbefore := ih.mpr fun j hj => hfaithful j (by omega)
        rcases Nat.lt_or_ge n k with hlt | hle
        · obtain rfl : k = n + 1 := by omega
          rw [run_succ, hbefore n le_rfl, hnext]
          exact (hstep n _).mpr (hfaithful n (by omega))
        · exact hbefore k hle

end

/-! ### What follows an instruction -/

/-- The operations after which the program does not go on behind them. -/
def Op.leaves : Op → Bool
  | .branch _ _ | .jmp | .jsr | .rts | .brk | .rti => true
  | _ => false

section
variable {M : Type} (bus : Bus M) (mode : Mode) (s : State M)

theorem setReg_PC (reg : Reg) (v : U8) : (s.setReg reg v).cpu.PC = s.cpu.PC := by
  cases reg <;> rfl

/-- An operation that does not leave goes on behind its operand. -/
theorem exec_PC {op : Op} (h : op.leaves = false) :
    (exec bus op mode s).cpu.PC = mode.behind (s.cpu.PC + 1) := by
  cases op with
  | load | logic | increment | decrement | transfer | tsx | pla => exact setReg_PC _ _ _
  | modify op =>
      simp only [exec]
      split <;> rfl
  | store | adc | sbc | compare | bit | txs | setFlag | pha | php | plp | nop => rfl
  | branch | jmp | jsr | rts | brk | rti => cases h

end

end KernelNES.Lib.Mos6502
