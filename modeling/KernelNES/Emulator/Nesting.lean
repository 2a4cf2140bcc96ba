import KernelNES.Lib.Runs
import KernelNES.Emulator.RamFrame

/-!
# Emulator — Nesting

`JSR` and `RTS`, `BRK` and `RTI`.  The stack page holds, above the stack pointer, the bytes that the
open subroutines and interrupts will pull (`Stacked`); a push adds one and a pull takes one, and
both wrap around the page.  So every exit of a well-bracketed sequence of entries and exits finds
what its entry pushed (`nested_returns`).
-/

namespace KernelNES.Emulator
open KernelNES.Lib

/-! ### The stack page -/

/-- The stack is in RAM. -/
theorem stackAddress_lt (sp : U8) : stackAddress sp < 0x800 := by
  have hsp := sp.isLt
  unfold stackAddress
  bv_omega

/-- Every stack pointer has a cell of its own. -/
theorem stackAddress_injective {a b : U8} (h : stackAddress a = stackAddress b) : a = b := by
  have hw : a.setWidth 16 = b.setWidth 16 := (BitVec.add_right_inj _).mp h
  have hn := congrArg BitVec.toNat hw
  simp only [BitVec.toNat_setWidth] at hn
  exact BitVec.eq_of_toNat_eq (by omega)

/-- The addresses `0x0100` to `0x01FF`. -/
def InStackPage (a : U16) : Prop := 0x0100 ≤ a ∧ a ≤ 0x01FF

theorem stackAddress_inStackPage (sp : U8) : InStackPage (stackAddress sp) := by
  have hsp := sp.isLt
  unfold stackAddress
  constructor <;> bv_omega

/-- A read of the stack is a read of RAM. -/
theorem peek_stack (m : Machine) (sp : U8) : m.peek (stackAddress sp) = m.RAM (stackAddress sp) :=
  Machine.peek_RAM (stackAddress_lt sp)

/-- The bytes `l` are the next ones to be pulled. -/
def Stacked (RAM : U16 → U8) (sp : U8) (l : List U8) : Prop :=
  ∀ k (hk : k < l.length), RAM (stackAddress (sp + 1 + BitVec.ofNat 8 k)) = l[k]

/-- A push, when the page still has room. -/
theorem Stacked.push {RAM : U16 → U8} {sp : U8} {l : List U8} (h : Stacked RAM sp l)
    (hl : l.length < 256) (v : U8) :
    Stacked (storeRAM RAM (stackAddress sp) v) (sp - 1) (v :: l) := by
  intro k hk
  -- the byte pushed is the first one now, and each of the others one further
  cases k with
  | zero =>
    have hsp : sp - 1 + 1 + BitVec.ofNat 8 0 = sp := by bv_omega
    rw [hsp]
    exact storeRAM_self v (stackAddress_lt sp)
  | succ k =>
    simp only [List.length_cons, Nat.add_lt_add_iff_right] at hk
    have hsp : sp - 1 + 1 + BitVec.ofNat 8 (k + 1) = sp + 1 + BitVec.ofNat 8 k := by bv_omega
    -- with less than a page on the stack the push does not come round to an older byte
    have hne : stackAddress (sp + 1 + BitVec.ofNat 8 k) ≠ stackAddress sp := by
      intro he
      have := stackAddress_injective he
      bv_omega
    rw [hsp, storeRAM_of_ne v hne]
    exact h k hk

/-- A pull. -/
theorem Stacked.pull {RAM : U16 → U8} {sp v : U8} {l : List U8} (h : Stacked RAM sp (v :: l)) :
    RAM (stackAddress (sp + 1)) = v ∧ Stacked RAM (sp + 1) l := by
  constructor
  · have h0 := h 0 (Nat.zero_lt_succ _)
    simpa using h0
  · intro k hk
    have hsp : sp + 1 + 1 + BitVec.ofNat 8 k = sp + 1 + BitVec.ofNat 8 (k + 1) := by bv_omega
    rw [hsp]
    exact h (k + 1) (Nat.succ_lt_succ hk)

/-- A word pushed high byte first and pulled low byte first. -/
theorem word_bytes (w : U16) : word ((w >>> 8).setWidth 8) (w.setWidth 8) = w := by
  refine BitVec.eq_of_getLsbD_eq fun i hi => ?_
  simp only [word, BitVec.getLsbD_or, BitVec.getLsbD_shiftLeft, BitVec.getLsbD_setWidth,
    BitVec.getLsbD_ushiftRight]
  by_cases h8 : i < 8
  · simp [h8, hi]
  · have hsub : 8 + (i - 8) = i := by omega
    have hlt : i - 8 < 16 := by omega
    have hlt8 : i - 8 < 8 := by omega
    simp [h8, hi, hlt, hlt8, hsub]

/-! ### Entries and exits -/

/-- `JSR` and `RTS`, or `BRK` and `RTI`. -/
inductive FrameKind where
  | subroutine
  | interrupt
  deriving DecidableEq, Repr

/-- The opcode of the entry. -/
def FrameKind.entry : FrameKind → U8
  | .subroutine => 0x20
  | .interrupt  => 0x00

/-- The opcode of the exit. -/
def FrameKind.exit : FrameKind → U8
  | .subroutine => 0x60
  | .interrupt  => 0x40

/-- How far behind the entry its exit continues. -/
def FrameKind.distance : FrameKind → U16
  | .subroutine => 3
  | .interrupt  => 2

/-- An entry not yet left: its kind and the registers before it. -/
structure Frame where
  kind : FrameKind
  registers : Registers
  deriving DecidableEq

/-- What the entry pushes, in the order it is pulled. -/
def Frame.bytes (f : Frame) : List U8 :=
  let returnPC := f.registers.programCounter + 2
  let address := [returnPC.setWidth 8, (returnPC >>> 8).setWidth 8]
  match f.kind with
  | .subroutine => address
  | .interrupt  => f.registers.flags :: address

/-- The outstanding bytes of the stack. -/
def outstanding (frames : List Frame) : List U8 := frames.flatMap Frame.bytes

/-- What an exit restores. -/
structure Returns (f : Frame) (r : Registers) : Prop where
  programCounter : r.programCounter = f.registers.programCounter + f.kind.distance
  stackPointer : r.stackPointer = f.registers.stackPointer
  flags : f.kind = .interrupt → r.flags = f.registers.flags

/-- A machine, its open frames, and what each exit so far came back with. -/
structure Nest where
  machine : Machine
  frames : List Frame
  returned : List (Frame × Registers)

/-- An entry, while its bytes fit on the page, or the exit of the innermost frame. -/
inductive NestStep (order : EvalOrder) : Nest → U8 → Nest → Prop where
  | enter {n : Nest} (kind : FrameKind) (answer : Addr)
      (h : n.machine.nextOpcode = kind.entry)
      (hroom : (outstanding (⟨kind, n.machine.registers⟩ :: n.frames)).length ≤ 256) :
      NestStep order n kind.entry
        { n with
          machine := (emulateCPU order answer n.machine).2
          frames := ⟨kind, n.machine.registers⟩ :: n.frames }
  | leave {n : Nest} {f : Frame} {frames : List Frame} (answer : Addr)
      (hf : n.frames = f :: frames) (h : n.machine.nextOpcode = f.kind.exit) :
      NestStep order n f.kind.exit
        { machine := (emulateCPU order answer n.machine).2
          frames := frames
          returned := (f, (emulateCPU order answer n.machine).2.registers) :: n.returned }

/-! ### One instruction -/

section
variable (order : EvalOrder) (answer : Addr) {m : Machine} {l : List U8}

/-- A step whose case is known. -/
theorem emulateCPU_case {opcode : U8} {instr : Instr} (h : m.nextOpcode = opcode)
    (hd : decode opcode = some instr) :
    (emulateCPU order answer m).2 = (instr.run order (m.fetched answer)).2.tick opcode := by
  rw [emulateCPU_of_decode (h ▸ hd), h]

/-- `JSR` pushes its frame. -/
theorem jsr_pushes (h : m.nextOpcode = 0x20)
    (hs : Stacked m.RAM m.registers.stackPointer l)
    (hroom : (Frame.bytes ⟨.subroutine, m.registers⟩ ++ l).length ≤ 256) :
    Stacked (emulateCPU order answer m).2.RAM (emulateCPU order answer m).2.registers.stackPointer
      (Frame.bytes ⟨.subroutine, m.registers⟩ ++ l) := by
  rw [emulateCPU_case order answer h rfl]
  simp only [Frame.bytes, List.cons_append, List.nil_append, List.length_cons] at hroom ⊢
  -- the address pushed is that of the last byte: the opcode and the low byte are fetched by then
  have hpc : m.registers.programCounter + 2 = m.registers.programCounter + 1 + 1 := by bv_omega
  rw [hpc]
  exact (hs.push (by omega) _).push (by simp only [List.length_cons]; omega) _

/-- `BRK` pushes its frame. -/
theorem brk_pushes (h : m.nextOpcode = 0x00)
    (hs : Stacked m.RAM m.registers.stackPointer l)
    (hroom : (Frame.bytes ⟨.interrupt, m.registers⟩ ++ l).length ≤ 256) :
    Stacked (emulateCPU order answer m).2.RAM (emulateCPU order answer m).2.registers.stackPointer
      (Frame.bytes ⟨.interrupt, m.registers⟩ ++ l) := by
  rw [emulateCPU_case order answer h rfl]
  simp only [Frame.bytes, List.cons_append, List.nil_append, List.length_cons] at hroom ⊢
  have hpc : m.registers.programCounter + 2 = m.registers.programCounter + 1 + 1 := by bv_omega
  rw [hpc]
  exact ((hs.push (by omega) _).push (by simp only [List.length_cons]; omega) _).push
    (by simp only [List.length_cons]; omega) _

/-- `RTS` continues behind the word it pulls. -/
theorem rts_pulls {w : U16} (h : m.nextOpcode = 0x60)
    (hs : Stacked m.RAM m.registers.stackPointer (w.setWidth 8 :: (w >>> 8).setWidth 8 :: l)) :
    (emulateCPU order answer m).2.registers =
        { m.registers with
          programCounter := w + 1
          stackPointer := m.registers.stackPointer + 1 + 1 } ∧
      Stacked (emulateCPU order answer m).2.RAM (m.registers.stackPointer + 1 + 1) l := by
  obtain ⟨hlo, hs⟩ := hs.pull
  obtain ⟨hhi, hs⟩ := hs.pull
  have hregisters : (emulateCPU order answer m).2.registers =
      { m.registers with
        programCounter := word (m.peek (stackAddress (m.registers.stackPointer + 1 + 1)))
          (m.peek (stackAddress (m.registers.stackPointer + 1))) + 1
        stackPointer := m.registers.stackPointer + 1 + 1 } := by
    rw [emulateCPU_case order answer h rfl]
    rfl
  refine ⟨?_, ?_⟩
  · rw [hregisters, peek_stack, peek_stack, hlo, hhi, word_bytes]
  · rw [emulateCPU_case order answer h rfl]
    exact hs

/-- `RTI` takes back the flags and continues at the word it pulls. -/
theorem rti_pulls {flags : U8} {w : U16} (h : m.nextOpcode = 0x40)
    (hs : Stacked m.RAM m.registers.stackPointer
      (flags :: w.setWidth 8 :: (w >>> 8).setWidth 8 :: l)) :
    (emulateCPU order answer m).2.registers =
        { m.registers with
          flags := flags
          programCounter := w
          stackPointer := m.registers.stackPointer + 1 + 1 + 1 } ∧
      Stacked (emulateCPU order answer m).2.RAM (m.registers.stackPointer + 1 + 1 + 1) l := by
  obtain ⟨hflags, hs⟩ := hs.pull
  obtain ⟨hlo, hs⟩ := hs.pull
  obtain ⟨hhi, hs⟩ := hs.pull
  have hregisters : (emulateCPU order answer m).2.registers =
      { m.registers with
        flags := m.peek (stackAddress (m.registers.stackPointer + 1))
        programCounter := word (m.peek (stackAddress (m.registers.stackPointer + 1 + 1 + 1)))
          (m.peek (stackAddress (m.registers.stackPointer + 1 + 1)))
        stackPointer := m.registers.stackPointer + 1 + 1 + 1 } := by
    rw [emulateCPU_case order answer h rfl]
    rfl
  refine ⟨?_, ?_⟩
  · rw [hregisters, peek_stack, peek_stack, peek_stack, hflags, hlo, hhi, word_bytes]
  · rw [emulateCPU_case order answer h rfl]
    exact hs

/-- An entry pushes its frame. -/
theorem enter_pushes {kind : FrameKind} (h : m.nextOpcode = kind.entry)
    (hs : Stacked m.RAM m.registers.stackPointer l)
    (hroom : (Frame.bytes ⟨kind, m.registers⟩ ++ l).length ≤ 256) :
    Stacked (emulateCPU order answer m).2.RAM (emulateCPU order answer m).2.registers.stackPointer
      (Frame.bytes ⟨kind, m.registers⟩ ++ l) := by
  cases kind with
  | subroutine => exact jsr_pushes order answer h hs hroom
  | interrupt => exact brk_pushes order answer h hs hroom

/-- How far an entry moves the stack pointer. -/
theorem enter_stackPointer {kind : FrameKind} (h : m.nextOpcode = kind.entry) :
    (emulateCPU order answer m).2.registers.stackPointer +
      BitVec.ofNat 8 (Frame.bytes ⟨kind, m.registers⟩).length = m.registers.stackPointer := by
  cases kind with
  | subroutine =>
    rw [emulateCPU_case order answer h rfl]
    show m.registers.stackPointer - 1 - 1 + 2 = _
    bv_omega
  | interrupt =>
    rw [emulateCPU_case order answer h rfl]
    show m.registers.stackPointer - 1 - 1 - 1 + 3 = _
    bv_omega

/-- An exit that finds its frame on the stack returns. -/
theorem exit_returns {f : Frame} (h : m.nextOpcode = f.kind.exit)
    (hs : Stacked m.RAM m.registers.stackPointer (f.bytes ++ l))
    (hsp : m.registers.stackPointer + BitVec.ofNat 8 f.bytes.length = f.registers.stackPointer) :
    Returns f (emulateCPU order answer m).2.registers ∧
      Stacked (emulateCPU order answer m).2.RAM f.registers.stackPointer l := by
  obtain ⟨kind, registers⟩ := f
  cases kind with
  | subroutine =>
    obtain ⟨hr, hs⟩ := rts_pulls order answer h hs
    have hsp' : m.registers.stackPointer + 1 + 1 = registers.stackPointer := by
      rw [← hsp, BitVec.add_assoc]
      rfl
    refine ⟨⟨?_, ?_, nofun⟩, hsp' ▸ hs⟩
    · rw [hr]
      exact BitVec.add_assoc _ _ _
    · rw [hr]
      exact hsp'
  | interrupt =>
    obtain ⟨hr, hs⟩ := rti_pulls order answer h hs
    have hsp' : m.registers.stackPointer + 1 + 1 + 1 = registers.stackPointer := by
      rw [← hsp, BitVec.add_assoc, BitVec.add_assoc]
      rfl
    refine ⟨⟨?_, ?_, fun _ => ?_⟩, hsp' ▸ hs⟩
    · rw [hr]
      rfl
    · rw [hr]
      exact hsp'
    · rw [hr]

/-- A case whose footprint is in the stack page leaves the rest of RAM alone. -/
theorem emulateCPU_stackPage {opcode : U8} {instr : Instr} (h : m.nextOpcode = opcode)
    (hd : decode opcode = some instr)
    (hfoot : ∀ a ∈ instr.footprint (m.fetched answer), InStackPage a) {a : U16}
    (ha : ¬ InStackPage a) : (emulateCPU order answer m).2.RAM a = m.RAM a := by
  rw [emulateCPU_case order answer h hd]
  exact instr.run_confined order (m.fetched answer) a fun hmem => ha (hfoot a hmem)

/-- What enters writes to the stack page, and nowhere else. -/
theorem enter_stackPage {kind : FrameKind} (h : m.nextOpcode = kind.entry) {a : U16}
    (ha : ¬ InStackPage a) : (emulateCPU order answer m).2.RAM a = m.RAM a := by
  cases kind with
  | subroutine =>
    refine emulateCPU_stackPage order answer h rfl (fun b hb => ?_) ha
    simp only [Instr.footprint, List.mem_cons, List.not_mem_nil, or_false] at hb
    rcases hb with rfl | rfl <;> exact stackAddress_inStackPage _
  | interrupt =>
    refine emulateCPU_stackPage order answer h rfl (fun b hb => ?_) ha
    simp only [Instr.footprint, List.mem_cons, List.not_mem_nil, or_false] at hb
    rcases hb with rfl | rfl | rfl <;> exact stackAddress_inStackPage _

/-- What leaves writes nowhere else, either. -/
theorem exit_stackPage {kind : FrameKind} (h : m.nextOpcode = kind.exit) {a : U16}
    (ha : ¬ InStackPage a) : (emulateCPU order answer m).2.RAM a = m.RAM a := by
  cases kind with
  | subroutine | interrupt =>
    exact emulateCPU_stackPage order answer h rfl (fun b hb => absurd hb List.not_mem_nil) ha

end

/-! ### Every well-bracketed sequence -/

/-- Each frame begins where the one inside it ends. -/
def FramesAt : (sp : U8) → List Frame → Prop
  | _, [] => True
  | sp, f :: frames =>
    sp + BitVec.ofNat 8 f.bytes.length = f.registers.stackPointer ∧
      FramesAt f.registers.stackPointer frames

/-- What holds between the instructions of a well-bracketed sequence that started at `m`. -/
structure NestInv (m : Machine) (n : Nest) : Prop where
  stacked : Stacked n.machine.RAM n.machine.registers.stackPointer (outstanding n.frames)
  framesAt : FramesAt n.machine.registers.stackPointer n.frames
  returned : ∀ r ∈ n.returned, Returns r.1 r.2
  elsewhere : ∀ a, ¬ InStackPage a → n.machine.RAM a = m.RAM a

/-- Nothing is open at first. -/
theorem nestInv_start (m : Machine) : NestInv m ⟨m, [], []⟩ where
  stacked k hk := absurd hk (Nat.not_lt_zero k)
  framesAt := trivial
  returned _ h := absurd h List.not_mem_nil
  elsewhere _ _ := rfl

/-- Entering or leaving a frame keeps the invariant. -/
theorem NestStep.inv {order : EvalOrder} {m : Machine} {n n' : Nest} {opcode : U8}
    (hi : NestInv m n) (h : NestStep order n opcode n') : NestInv m n' := by
  cases h with
  | enter kind answer h hroom =>
    exact
      { stacked := enter_pushes order answer h hi.stacked hroom
        framesAt := ⟨enter_stackPointer order answer h, hi.framesAt⟩
        returned := hi.returned
        elsewhere := fun a ha => (enter_stackPage order answer h ha).trans (hi.elsewhere a ha) }
  | @leave f frames answer hf h =>
    have hstacked := hi.stacked
    have hframes := hi.framesAt
    rw [hf] at hstacked hframes
    obtain ⟨hsp, hrest⟩ := hframes
    obtain ⟨hreturns, hs⟩ := exit_returns order answer h hstacked hsp
    refine
      { stacked := ?_
        framesAt := ?_
        returned := ?_
        elsewhere := fun a ha => (exit_stackPage order answer h ha).trans (hi.elsewhere a ha) }
    · dsimp only
      rw [hreturns.stackPointer]
      exact hs
    · dsimp only
      rw [hreturns.stackPointer]
      exact hrest
    · intro r hr
      rcases List.mem_cons.mp hr with rfl | hr
      · exact hreturns
      · exact hi.returned r hr

/-- **Subroutines and interrupts nest.**  In every well-bracketed sequence of `JSR`, `RTS`, `BRK`
and `RTI` that never has more than 256 bytes outstanding, each exit comes back to its entry, and
only the stack page changes. -/
theorem nested_returns {order : EvalOrder} {m : Machine} {n : Nest} {opcodes : List U8}
    (hrun : Run (NestStep order) ⟨m, [], []⟩ opcodes n) :
    (∀ r ∈ n.returned, Returns r.1 r.2) ∧
      ∀ a, ¬ InStackPage a → n.machine.RAM a = m.RAM a := by
  have hi := hrun.invariant (nestInv_start m) fun _ _ _ => NestStep.inv
  exact ⟨hi.returned, hi.elsewhere⟩

/-- `JSR $8003` at `$8000` and the `RTS` it calls. -/
def callMachine : Machine := .ofProgram [0x20, 0x03, 0x80, 0x60] ⟨0, 0, 0, 0, 0, 0⟩

theorem callMachine_run : ∃ n,
    Run (NestStep .leftFirst) ⟨callMachine, [], []⟩ [0x20, 0x60] n ∧ n.returned.length = 1 := by
  have hjsr : NestStep .leftFirst ⟨callMachine, [], []⟩ 0x20 _ :=
    .enter .subroutine 1 rfl (by decide)
  exact ⟨_, .cons hjsr (.one (.leave (f := ⟨.subroutine, callMachine.registers⟩) 2 rfl rfl)), rfl⟩

/-- With the stack pointer at `0`, the two pushes wrap around. -/
theorem nested_returns_call :
    ∃ n, Run (NestStep .leftFirst) ⟨callMachine, [], []⟩ [0x20, 0x60] n ∧
      n.returned.length = 1 ∧ ∀ r ∈ n.returned, Returns r.1 r.2 := by
  obtain ⟨n, hrun, hlen⟩ := callMachine_run
  exact ⟨n, hrun, hlen, (nested_returns hrun).1⟩

end KernelNES.Emulator
