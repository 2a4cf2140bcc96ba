import KernelNES.Lib.Respects
import KernelNES.Emulator.CycleBound
import KernelNES.Emulator.StatusByte

/-!
# Emulator — Inert

The decimal and the interrupt flag decide nothing.  `Machine.view` hides them, and with them what
only watches the CPU: the debug tracker and the trace log.  Every access but `reg_status` is a
function of the view; `reg_status` is not, but the cases only test the carry, zero, overflow and
negative bits of it (`StatusTestRule`), except `PHP` and `BRK`, which push it.  So of two states
with the same view the one goes where the other goes (`decimal_interrupt_inert`).
-/

namespace KernelNES.Emulator
open KernelNES.Lib

/-- The flags the CPU never asks for. -/
def inertFlags : U8 := flagDecimal ||| flagInterruptDisable

/-- The opcode is neither `PHP` nor `BRK`. -/
def KeepsStatus (opcode : U8) : Prop := opcode ≠ 0x08 ∧ opcode ≠ 0x00

instance (opcode : U8) : Decidable (KeepsStatus opcode) := inferInstanceAs (Decidable (_ ∧ _))

/-- The two states agree in everything but the decimal and the interrupt flag. -/
structure SameButInert (m m' : Machine) : Prop where
  A : m'.registers.A = m.registers.A
  X : m'.registers.X = m.registers.X
  Y : m'.registers.Y = m.registers.Y
  stackPointer : m'.registers.stackPointer = m.registers.stackPointer
  programCounter : m'.registers.programCounter = m.registers.programCounter
  flags : m'.registers.flags &&& ~~~inertFlags = m.registers.flags &&& ~~~inertFlags
  RAM : m'.RAM = m.RAM
  ROM : m'.ROM = m.ROM
  totalCPUCycles : m'.totalCPUCycles = m.totalCPUCycles
  cpuHalted : m'.cpuHalted = m.cpuHalted

/-- What a machine is but for the two flags, the debug tracker, the log, and what no case reads. -/
def Machine.view (m : Machine) : Machine × U8 :=
  ({ m with
      registers := { m.registers with flags := 0 }
      filepath := ""
      header := fun _ => 0
      curOpcode := 0
      debugTracker := ⟨0, 0, false, false⟩
      log := .empty fun _ => .zero },
    m.registers.flags &&& ~~~inertFlags)

/-- The view leaves out the decimal and interrupt flags. -/
theorem view_eq_iff {m m' : Machine} : m'.view = m.view ↔ SameButInert m m' := by
  constructor
  · intro h
    have hseen {γ : Type} (f : Machine × U8 → γ) : f m'.view = f m.view := congrArg f h
    exact ⟨hseen fun v => v.1.registers.A, hseen fun v => v.1.registers.X,
      hseen fun v => v.1.registers.Y, hseen fun v => v.1.registers.stackPointer,
      hseen fun v => v.1.registers.programCounter, hseen Prod.snd, hseen fun v => v.1.RAM,
      hseen fun v => v.1.ROM, hseen fun v => v.1.totalCPUCycles, hseen fun v => v.1.cpuHalted⟩
  · rintro ⟨hA, hX, hY, hsp, hpc, hflags, hRAM, hROM, hcycles, hhalted⟩
    simp only [Machine.view, hA, hX, hY, hsp, hpc, hflags, hRAM, hROM, hcycles, hhalted]

/-- A computation that does not look at the status register, nor set it. -/
theorem respects_view_of {α : Type} {x : CPU α} (hresult : ∀ m, (x m).1 = (x m.view.1).1)
    (hview : ∀ m, (x m).2.view = ((x m.view.1).2.view.1, m.view.2)) :
    Respects Machine.view x :=
  .of_view (fun v => (x v.1).1) (fun v => ((x v.1).2.view.1, v.2)) hresult hview

/-- Setting a flag, seen without the two. -/
theorem setFlag_inert (flags flag : U8) (condition : Bool) :
    (if condition then flags ||| flag else flags &&& ~~~flag) &&& ~~~inertFlags =
      (if condition then flags &&& ~~~inertFlags ||| flag
        else flags &&& ~~~inertFlags &&& ~~~flag) &&& ~~~inertFlags := by
  cases condition
  · show flags &&& ~~~flag &&& ~~~inertFlags = flags &&& ~~~inertFlags &&& ~~~flag &&& ~~~inertFlags
    rw [BitVec.and_assoc flags (~~~inertFlags), BitVec.and_comm (~~~inertFlags),
      ← BitVec.and_assoc, BitVec.and_assoc _ (~~~inertFlags), BitVec.and_self]
  · show (flags ||| flag) &&& ~~~inertFlags = (flags &&& ~~~inertFlags ||| flag) &&& ~~~inertFlags
    rw [BitVec.and_or_distrib_right, BitVec.and_or_distrib_right, BitVec.and_assoc, BitVec.and_self]

/-- Setting a flag respects the view. -/
theorem setStatusFlag_inert (flag : U8) (condition : Bool) :
    Respects Machine.view (setStatusFlag flag condition) :=
  .of_view (fun _ => ()) (fun v => (v.1, (if condition then v.2 ||| flag else v.2 &&& ~~~flag) &&&
    ~~~inertFlags)) (fun _ => rfl) fun m =>
      congrArg (m.view.1, ·) (setFlag_inert m.registers.flags flag condition)

/-- The tested flags are the same. -/
theorem tested_of_view {m m' : Machine} (h : m.view = m'.view) :
    m.registers.flags &&& testedMask = m'.registers.flags &&& testedMask := by
  have hmask : ∀ flags : U8, flags &&& testedMask = flags &&& ~~~inertFlags &&& testedMask := by
    intro flags
    rw [BitVec.and_assoc]
    rfl
  have hflags : m.registers.flags &&& ~~~inertFlags = m'.registers.flags &&& ~~~inertFlags :=
    congrArg Prod.snd h
  rw [hmask, hflags, ← hmask]

theorem inert_rule : StatusTestRule (Respects Machine.view) where
  pure := .pure
  bind := .bind
  regGet reg := by cases reg <;> exact respects_view_of (fun _ => rfl) fun _ => rfl
  regSet reg v := by cases reg <;> exact respects_view_of (fun _ => rfl) fun _ => rfl
  logicOp op v := by cases op <;> exact respects_view_of (fun _ => rfl) fun _ => rfl
  testStatus hy h := .bind_factorsThrough (fun _ _ => tested_of_view) (fun _ _ h => h) hy h
  setStatusFlag flag _ condition := setStatusFlag_inert flag condition
  stackPointer := respects_view_of (fun _ => rfl) fun _ => rfl
  setSP _ := respects_view_of (fun _ => rfl) fun _ => rfl
  programCounter := respects_view_of (fun _ => rfl) fun _ => rfl
  incrementPC := respects_view_of (fun _ => rfl) fun _ => rfl
  setPC _ := respects_view_of (fun _ => rfl) fun _ => rfl
  readPC := respects_view_of (fun _ => rfl) fun _ => rfl
  readIncrementPC := respects_view_of (fun _ => rfl) fun _ => rfl
  emuRead _ := respects_view_of (fun _ => rfl) fun _ => rfl
  emuWrite _ _ := respects_view_of (fun _ => rfl) fun _ => rfl
  pushStack _ := respects_view_of (fun _ => rfl) fun _ => rfl
  pullStack := respects_view_of (fun _ => rfl) fun _ => rfl
  setAddress _ := respects_view_of (fun _ => rfl) fun _ => rfl
  setIndexedAddress _ := respects_view_of (fun _ => rfl) fun _ => rfl
  halt := respects_view_of (fun _ => rfl) fun _ => rfl
  cycle := respects_view_of (fun _ => rfl) fun _ => rfl

/-! ### One step -/

/-- Every case but `PHP` and `BRK`. -/
theorem switchOpcode_inert (order : EvalOrder) {opcode : U8} (h : KeepsStatus opcode) :
    Respects Machine.view (switchOpcode order opcode) := by
  cases hd : decode opcode with
  | none => rw [switchOpcode_of_decode_none hd]; exact .pure ()
  | some instr =>
    have hpush : instr.pushesStatus = false := pushesStatus_of_decode hd h
    rw [switchOpcode_of_decode hd]
    exact inert_rule.instr order instr (fun _ _ e => setFlag_of_decode (e ▸ hd))
      (fun _ _ e => branch_of_decode (e ▸ hd))
      (fun _ v => .of_view (fun _ => v) (fun w => (w.1, v &&& ~~~inertFlags)) (fun _ => rfl)
        fun _ => rfl) hpush

/-- **One step**: the same opcode, and states that agree again. -/
theorem SameButInert.step {m m' : Machine} (h : SameButInert m m') (order : EvalOrder)
    (answer answer' : Addr) (hop : KeepsStatus m.nextOpcode) :
    m'.nextOpcode = m.nextOpcode ∧
      SameButInert (emulateCPU order answer m).2 (emulateCPU order answer' m').2 := by
  have hview := view_eq_iff.mpr h
  have hnext : ∀ m : Machine, m.nextOpcode = m.view.1.nextOpcode := fun _ => rfl
  have hfetched : ∀ (m : Machine) (answer : Addr),
      (m.fetched answer).view = ((m.view.1.fetched 0).view.1, m.view.2) := fun _ _ => rfl
  have htick : ∀ (m : Machine) (opcode : U8),
      (m.tick opcode).view = (m.view.1.tick opcode, m.view.2) := fun _ _ => rfl
  have hsame : m'.nextOpcode = m.nextOpcode := by rw [hnext, hnext m, hview]
  refine ⟨hsame, view_eq_iff.mp ?_⟩
  rw [emulateCPU_run, emulateCPU_run, hsame, htick, htick]
  have hcase := (switchOpcode_inert order hop (m'.fetched answer') (m.fetched answer)
    (by rw [hfetched m', hfetched m, hview])).2
  rw [hcase]

/-! ### Runs -/

/-- The opcodes `emu_run` executes. -/
def executedOpcodes (order : EvalOrder) : (fuel : Nat) → (answers : Nat → Addr) → Machine → List U8
  | 0, _, _ => []
  | fuel + 1, answers, m =>
    if m.running then
      m.nextOpcode ::
        executedOpcodes order fuel (fun i => answers (i + 1)) (emulateCPU order (answers 0) m).2
    else []

/-- The states after any number of instructions. -/
theorem SameButInert.after {m m' : Machine} (h : SameButInert m m') (order : EvalOrder)
    (answers answers' : Nat → Addr) {n : Nat}
    (hops : ∀ k < n, KeepsStatus (m.after order answers k).nextOpcode) :
    ∀ k ≤ n, SameButInert (m.after order answers k) (m'.after order answers' k) := by
  intro k hk
  induction k with
  | zero => exact h
  | succ k ih => exact ((ih (Nat.le_of_succ_le hk)).step order _ _ (hops k hk)).2

/-- The view says whether the loop goes on. -/
theorem SameButInert.running {m m' : Machine} (h : SameButInert m m') : m'.running = m.running := by
  rw [Machine.running, Machine.running, h.cpuHalted, h.totalCPUCycles]

/-- The run of `emu_run`. -/
theorem SameButInert.emuRun (order : EvalOrder) (n : Nat) :
    ∀ {m m' : Machine} (answers answers' : Nat → Addr), SameButInert m m' →
      (∀ opcode ∈ executedOpcodes order n answers m, KeepsStatus opcode) →
      executedOpcodes order n answers' m' = executedOpcodes order n answers m ∧
        SameButInert (Emulator.emuRun order n answers m).2
          (Emulator.emuRun order n answers' m').2 := by
  induction n with
  | zero => exact fun _ _ h _ => ⟨rfl, h⟩
  | succ n ih =>
    intro m m' answers answers' h hops
    have hrunning := h.running
    rw [executedOpcodes, executedOpcodes, hrunning]
    rw [executedOpcodes] at hops
    by_cases hr : m.running = true
    · rw [if_pos hr] at hops
      rw [if_pos hr, if_pos hr, emuRun_of_running order n answers hr,
        emuRun_of_running order n answers' (hrunning.trans hr)]
      obtain ⟨hnext, hstep⟩ := h.step order (answers 0) (answers' 0) (hops _ List.mem_cons_self)
      obtain ⟨hrest, hend⟩ := ih (fun i => answers (i + 1)) (fun i => answers' (i + 1)) hstep
        fun opcode hmem => hops opcode (List.mem_cons_of_mem _ hmem)
      exact ⟨by rw [hnext, hrest], hend⟩
    · have hr' : m.running = false := Bool.eq_false_iff.mpr hr
      rw [if_neg hr, if_neg hr, emuRun_of_not_running order _ answers hr',
        emuRun_of_not_running order _ answers' (hrunning.trans hr')]
      exact ⟨rfl, h⟩

/-- **The decimal and the interrupt flag are inert.**  From two states that agree but for them, the
instructions one after the other, and the run of `emu_run`, execute the same opcodes and lead to
states that agree, as long as no `PHP` or `BRK` is executed. -/
theorem decimal_interrupt_inert (order : EvalOrder) (n : Nat) (answers answers' : Nat → Addr)
    {m m' : Machine} (h : SameButInert m m') :
    ((∀ k < n, KeepsStatus (m.after order answers k).nextOpcode) →
      (∀ k < n, (m'.after order answers' k).nextOpcode = (m.after order answers k).nextOpcode) ∧
        ∀ k ≤ n, SameButInert (m.after order answers k) (m'.after order answers' k)) ∧
    ((∀ opcode ∈ executedOpcodes order n answers m, KeepsStatus opcode) →
      executedOpcodes order n answers' m' = executedOpcodes order n answers m ∧
        SameButInert (emuRun order n answers m).2 (emuRun order n answers' m').2) := by
  refine ⟨fun hops => ?_, SameButInert.emuRun order n answers answers' h⟩
  have hsame := h.after order answers answers' hops
  exact ⟨fun k hk => ((hsame k hk.le).step order 0 0 (hops k hk)).1, hsame⟩

/-- `ADC #$09`, `SED`, `PLP` and `HLT`. -/
def decimalMachine (flags : U8) : Machine :=
  .ofProgram [0x69, 0x09, 0xF8, 0x28, 0x02] ⟨9, 0, 0, flags, 0xFC, 0⟩

/-- With the decimal flag set and clear, nine and nine make `0x12`. -/
theorem decimal_interrupt_inert_adc :
    SameButInert (emuRun .leftFirst 4 (fun _ => 1) (decimalMachine 0x00)).2
      (emuRun .leftFirst 4 (fun _ => 1) (decimalMachine 0x08)).2 := by
  have hsame : SameButInert (decimalMachine 0x00) (decimalMachine 0x08) :=
    ⟨rfl, rfl, rfl, rfl, rfl, by decide, rfl, rfl, rfl, rfl⟩
  refine ((decimal_interrupt_inert .leftFirst 4 (fun _ => 1) (fun _ => 1) hsame).2 ?_).2
  decide +kernel

end KernelNES.Emulator
