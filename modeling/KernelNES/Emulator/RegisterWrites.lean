import KernelNES.Emulator.Primitives
import KernelNES.Emulator.SelfCheck

/-!
# Emulator — RegisterWrites

Which registers a step changes.  Every case writes registers through the accessors of
`emulator_debug.h`, which note each write (`Instr.run_honest`); so a step changes at most the
registers its case notes, and these are the ones of the opcode's row for every opcode but that of
`DEY`, whose case decrements `X` (`registersAgree_iff`).
-/

namespace KernelNES.Emulator
open KernelNES.Lib

/-- The registers `reg_write_bitflag` has a bit for. -/
inductive TrackedReg where
  | A
  | X
  | Y
  | stackPointer
  | flags
  deriving DecidableEq, Repr

/-- Its bit of `reg_write_bitflag`. -/
def TrackedReg.bit : TrackedReg → U8
  | .A            => regBitA
  | .X            => regBitX
  | .Y            => regBitY
  | .stackPointer => regBitStack
  | .flags        => regBitStatus

/-- Its value. -/
def TrackedReg.get : TrackedReg → Registers → U8
  | .A, r            => r.A
  | .X, r            => r.X
  | .Y, r            => r.Y
  | .stackPointer, r => r.stackPointer
  | .flags, r        => r.flags

/-- From `r` to `r'` only registers with a bit in `bits` changed. -/
def WritesWithin (bits : U8) (r r' : Registers) : Prop :=
  ∀ reg : TrackedReg, bits &&& reg.bit = 0 → reg.get r' = reg.get r

/-- One write behind another. -/
theorem WritesWithin.trans {b c : U8} {r r' r'' : Registers} (h : WritesWithin b r r')
    (h' : WritesWithin c r' r'') : WritesWithin (b ||| c) r r'' := by
  intro reg hbit
  rw [BitVec.and_or_distrib_right] at hbit
  obtain ⟨hb, hc⟩ := BitVec.or_eq_zero_iff.mp hbit
  exact (h' reg hc).trans (h reg hb)

/-! ### The accessors are honest -/

/-- `x` notes the registers it changes. -/
def Honest {α : Type} (x : CPU α) : Prop := ∀ m, ∃ bits,
  (x m).2.debugTracker.regWriteBitflag = m.debugTracker.regWriteBitflag ||| bits ∧
    WritesWithin bits m.registers (x m).2.registers

namespace Honest
variable {α β : Type} {x : CPU α} {y : α → CPU β}

/-- What changes no register and notes none. -/
theorem of_still
    (h : Preserves (fun m : Machine => m.debugTracker.regWriteBitflag) x)
    (hr : ∀ reg : TrackedReg, Preserves (fun m : Machine => reg.get m.registers) x) :
    Honest x := by
  intro m
  exact ⟨0, (h m).trans (BitVec.or_zero).symm, fun reg _ => hr reg m⟩

/-- What writes one register and notes it. -/
theorem of_write (reg : TrackedReg)
    (h : ∀ m, (x m).2.debugTracker.regWriteBitflag = m.debugTracker.regWriteBitflag ||| reg.bit)
    (hr : ∀ reg' : TrackedReg, reg' ≠ reg →
      Preserves (fun m : Machine => reg'.get m.registers) x) : Honest x := by
  intro m
  refine ⟨reg.bit, h m, fun reg' hbit => hr reg' ?_ m⟩
  rintro rfl
  revert hbit
  cases reg' <;> decide

/-- Both parts say what they write. -/
theorem bind (hx : Honest x) (hy : ∀ a, Honest (y a)) : Honest (x >>= y) := by
  intro m
  obtain ⟨b, hb, hwrites⟩ := hx m
  obtain ⟨c, hc, hwrites'⟩ := hy (x m).1 (x m).2
  refine ⟨b ||| c, ?_, hwrites.trans hwrites'⟩
  rw [← BitVec.or_assoc, ← hb]
  exact hc

end Honest

theorem emuRead_honest (a : U16) : Honest (emuRead a) := by
  refine .of_still (fun m => ?_) fun reg m => rfl
  show (if _ then _ else _ : MemRegAccess).regWriteBitflag = _
  split <;> rfl

theorem readIncrementPC_honest : Honest readIncrementPC := by
  refine .of_still (fun m => ?_) fun reg m => by cases reg <;> rfl
  show (if _ then _ else _ : MemRegAccess).regWriteBitflag = _
  split <;> rfl

theorem readPC_honest : Honest readPC := by
  refine .of_still (fun m => ?_) fun reg m => rfl
  show (if _ then _ else _ : MemRegAccess).regWriteBitflag = _
  split <;> rfl

theorem pullStack_honest : Honest pullStack := by
  refine .of_write .stackPointer (fun m => ?_) fun reg hne m => ?_
  · show (if _ then _ else _ : MemRegAccess).regWriteBitflag ||| regBitStack = _
    split <;> rfl
  · cases reg with
    | stackPointer => exact absurd rfl hne
    | A | X | Y | flags => rfl

/-- Every access notes the register it changes. -/
theorem honest_rule : PrimitiveRule Honest where
  pure _ := .of_still (fun _ => rfl) fun _ _ => rfl
  bind := Honest.bind
  regGet reg := by
    cases reg with
    | A | X | Y => exact .of_still (fun _ => rfl) fun _ _ => rfl
  regSet reg v := by
    cases reg with
    | A => exact .of_write .A (fun _ => rfl) fun reg hne m => by cases reg <;> trivial
    | X => exact .of_write .X (fun _ => rfl) fun reg hne m => by cases reg <;> trivial
    | Y => exact .of_write .Y (fun _ => rfl) fun reg hne m => by cases reg <;> trivial
  logicOp op v := by
    cases op with
    | ora | eor | and =>
      exact .of_write .A (fun _ => rfl) fun reg hne m => by cases reg <;> trivial
  regStatus := .of_still (fun _ => rfl) fun _ _ => rfl
  setStatusFlag flag _ condition :=
    .of_write .flags (fun _ => rfl) fun reg hne m => by cases reg <;> trivial
  stackPointer := .of_still (fun _ => rfl) fun _ _ => rfl
  setSP v := .of_write .stackPointer (fun _ => rfl) fun reg hne m => by cases reg <;> trivial
  programCounter := .of_still (fun _ => rfl) fun _ _ => rfl
  incrementPC := .of_still (fun _ => rfl) fun reg _ => by cases reg <;> rfl
  setPC a := .of_still (fun _ => rfl) fun reg _ => by cases reg <;> rfl
  readPC := readPC_honest
  readIncrementPC := readIncrementPC_honest
  emuRead := emuRead_honest
  emuWrite a v := .of_still (fun _ => rfl) fun _ _ => rfl
  pushStack v :=
    .of_write .stackPointer (fun _ => rfl) fun reg hne m => by cases reg <;> trivial
  pullStack := pullStack_honest
  setAddress a := .of_still (fun _ => rfl) fun _ _ => rfl
  setIndexedAddress a := .of_still (fun _ => rfl) fun _ _ => rfl
  halt := .of_still (fun _ => rfl) fun _ _ => rfl
  cycle := .of_still (fun _ => rfl) fun _ _ => rfl

/-- `set_status_register` says what it writes. -/
theorem setStatusRegister_honest (v : U8) : Honest (setStatusRegister v) :=
  .of_write .flags (fun _ => rfl) fun reg hne m => by cases reg <;> trivial

/-- A case changes at most the registers it notes. -/
theorem Instr.run_writesWithin (order : EvalOrder) {opcode : U8} {instr : Instr}
    (hd : decode opcode = some instr) (m : Machine) (h : m.debugTracker = .none) :
    WritesWithin (instr.access (instr.away m)).regWriteBitflag m.registers
      (instr.run order m).2.registers := by
  obtain ⟨bits, hbits, hwrites⟩ := honest_rule.instr order instr
    (fun _ _ e => setFlag_of_decode (e ▸ hd)) (fun _ => setStatusRegister_honest) m
  have htracks := instr.run_tracks order m
  rw [h, MemRegAccess.none_or] at htracks
  rw [htracks, h] at hbits
  have hzero : MemRegAccess.none.regWriteBitflag ||| bits = bits := BitVec.zero_or
  rw [hbits, hzero]
  exact hwrites

/-! ### A step and the table -/

/-- From `m` to `m'` only registers changed that the row of the opcode says are written. -/
def RegistersAgree (m m' : Machine) : Prop :=
  WritesWithin (opcodeTable m.nextOpcode).regWriteBitflag m.registers m'.registers

/-- The writes a case notes are the ones of its opcode's row, but for `DEY`. -/
theorem regWriteBitflag_of_decode {opcode : U8} {instr : Instr} (h : decode opcode = some instr)
    (hne : opcode ≠ 0x88) (away : Bool) :
    (instr.access away).regWriteBitflag = (opcodeTable opcode).regWriteBitflag := by
  have hall : ∀ p ∈ switchCases, p.1 ≠ 0x88 → ∀ away,
      (p.2.access away).regWriteBitflag = (opcodeTable p.1).regWriteBitflag := by decide +kernel
  exact hall _ (mem_switchCases h) hne away

section
variable (order : EvalOrder) (answer : Addr) {m : Machine}

/-- But for `DEY`, every case says which registers it writes. -/
theorem step_registersAgree (h : m.nextOpcode ≠ 0x88) :
    RegistersAgree m (emulateCPU order answer m).2 := by
  unfold RegistersAgree
  rw [emulateCPU_run]
  -- what the fetch does to the registers is not seen by any of the five
  have hfetch : WritesWithin 0 m.registers (m.fetched answer).registers := by
    intro reg _
    cases reg <;> rfl
  cases hd : decode m.nextOpcode with
  | none =>
    rw [switchOpcode_of_decode_none hd]
    exact fun reg _ => hfetch reg BitVec.zero_and
  | some instr =>
    rw [switchOpcode_of_decode hd, ← regWriteBitflag_of_decode hd h (instr.away (m.fetched answer))]
    have hreset : (m.fetched answer).debugTracker = .none :=
      (readIncrementPC_tracks _).trans (MemRegAccess.or_none _)
    exact fun reg hbit => (Instr.run_writesWithin order hd _ hreset reg hbit).trans
      (hfetch reg BitVec.zero_and)

/-- A step of an increment: the register, the other index register, and the next opcode. -/
theorem step_increment (reg : Reg) (h : decode m.nextOpcode = some (.increment reg)) :
    (emulateCPU order answer m).2.registers.X =
        (if reg = .X then m.registers.X + 1 else m.registers.X) ∧
      (emulateCPU order answer m).2.registers.Y =
        (if reg = .Y then m.registers.Y + 1 else m.registers.Y) ∧
      (emulateCPU order answer m).2.nextOpcode = m.peek (m.registers.programCounter + 1) := by
  rw [emulateCPU_of_decode h]
  cases reg with
  | A | X | Y => exact ⟨rfl, rfl, rfl⟩

/-- A step of `DEX`, and of `DEY`, whose case is the same. -/
theorem step_decrement_X (h : decode m.nextOpcode = some (.decrement .X)) :
    (emulateCPU order answer m).2.registers.X = m.registers.X - 1 ∧
      (emulateCPU order answer m).2.registers.Y = m.registers.Y := by
  rw [emulateCPU_of_decode h]
  exact ⟨rfl, rfl⟩

end

/-- Where the next two instructions are `INX` and `DEX`, or `INY` and `DEY`, both index registers
are after them what they were before. -/
def IndexPairsRestore (order : EvalOrder) (answer answer' : Addr) (m : Machine) : Prop :=
  let m₁ := (emulateCPU order answer m).2
  let m₂ := (emulateCPU order answer' m₁).2
  (m.nextOpcode, m₁.nextOpcode) ∈ [((0xE8 : U8), (0xCA : U8)), (0xC8, 0x88)] →
    m₂.registers.X = m.registers.X ∧ m₂.registers.Y = m.registers.Y

/-- **Register writes agree with the table**, exactly when the opcode is not the one of `DEY`, and
index pairs restore exactly when they are not `INY` and `DEY`. -/
theorem registersAgree_iff (order : EvalOrder) (answer answer' : Addr) (m : Machine) :
    (RegistersAgree m (emulateCPU order answer m).2 ↔ m.nextOpcode ≠ 0x88) ∧
      (IndexPairsRestore order answer answer' m ↔
        ¬ (m.nextOpcode = 0xC8 ∧ m.peek (m.registers.programCounter + 1) = 0x88)) := by
  have hne : ∀ v : U8, v - 1 ≠ v := by decide
  refine ⟨⟨?_, step_registersAgree order answer⟩, ⟨?_, ?_⟩⟩
  · intro hagree hop
    -- the row of `DEY` does not have `X`, which loses one
    have hX := (step_decrement_X order answer (m := m) (by rw [hop]; decide)).1
    refine hne _ (hX.symm.trans (hagree .X ?_))
    rw [hop]
    decide
  · rintro hrestore ⟨hop, hop'⟩
    obtain ⟨hX, -, hnext⟩ :=
      step_increment order answer (m := m) .Y (by rw [hop]; decide)
    rw [hop'] at hnext
    have hX' := (step_decrement_X order answer'
      (m := (emulateCPU order answer m).2) (by rw [hnext]; decide)).1
    refine hne m.registers.X ?_
    rw [hX, if_neg (by decide)] at hX'
    exact hX'.symm.trans (hrestore (by rw [hop, hnext]; decide)).1
  · intro hnot hpair
    simp only [List.mem_cons, Prod.mk.injEq, List.not_mem_nil, or_false] at hpair
    rcases hpair with ⟨hop, hop'⟩ | ⟨hop, hop'⟩
    · obtain ⟨hX, hY, -⟩ :=
        step_increment order answer (m := m) .X (by rw [hop]; decide)
      obtain ⟨hX', hY'⟩ := step_decrement_X order answer'
        (m := (emulateCPU order answer m).2) (by rw [hop']; decide)
      rw [hX', hY', hX, hY, if_pos rfl, if_neg (by decide)]
      exact ⟨BitVec.add_sub_cancel _ _, rfl⟩
    · have hnext := (step_increment order answer (m := m) .Y (by rw [hop]; decide)).2.2
      exact absurd ⟨hop, hnext.symm.trans hop'⟩ hnot

/-- `INY`, `DEY` from `X = 5`, `Y = 7`: `DEY` changes `X`, which its row does not have, and the pair
leaves `X = 4` and `Y = 8`. -/
theorem dey_changes_X :
    ¬ RegistersAgree (.ofProgram [0x88] ⟨0, 5, 7, 0, 0xFD, 0⟩)
        (emulateCPU .leftFirst 1 (.ofProgram [0x88] ⟨0, 5, 7, 0, 0xFD, 0⟩)).2 ∧
      ¬ IndexPairsRestore .leftFirst 1 2 (.ofProgram [0xC8, 0x88] ⟨0, 5, 7, 0, 0xFD, 0⟩) :=
  ⟨fun h => absurd (h .X (by decide)) (by decide +kernel),
    fun h => absurd (h (by decide +kernel)) (by decide +kernel)⟩

end KernelNES.Emulator
