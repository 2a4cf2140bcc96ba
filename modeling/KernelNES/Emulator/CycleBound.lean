import KernelNES.Emulator.Instruction

/-!
# Emulator — CycleBound

`emu_run` stops.  A step adds at most eight cycles (`emulateCPU_cycles`), and one that adds none is
at a `KIL` row, which has no case: it only moves the program counter on by one
(`emulateCPU_of_no_cycles`).  From any address that walk meets the addresses between RAM and ROM,
which read as `BRK` and cost seven, before it has gone round.  So the pair of the cycles left and
the distance to `0x800` falls at every step (`measure_emulateCPU`).
-/

namespace KernelNES.Emulator
open KernelNES.Lib

/-! ### What a case leaves of the rest of the machine -/

/-- The machine but for registers, RAM, the debug tracker and the log. -/
def Machine.rest (m : Machine) : Machine :=
  { m.still with
    registers := ⟨0, 0, 0, 0, 0, 0⟩
    RAM := fun _ => 0 }

theorem rest_of_still {α : Type} {x : CPU α} (h : Preserves Machine.still x) :
    Preserves Machine.rest x :=
  h.comp fun s => { s with registers := ⟨0, 0, 0, 0, 0, 0⟩, RAM := fun _ => 0 }

theorem rest_of_apart {α : Type} {x : CPU α} (h : Preserves Machine.apart x) :
    Preserves Machine.rest x := h.comp Machine.rest

theorem RmwOp.run_rest (op : RmwOp) (v : U8) (a : U16) : Preserves Machine.rest (op.run v a) := by
  cases op <;> exact fun _ => rfl

/-- But for `HLT` and the branches, a case changes registers, RAM, the tracker and the log only. -/
theorem Instr.run_rest (order : EvalOrder) {instr : Instr} (hh : instr ≠ .hlt)
    (hb : ∀ flag wanted, instr ≠ .branch flag wanted) :
    Preserves Machine.rest (instr.run order) := by
  cases instr with
  | hlt => exact absurd rfl hh
  | branch flag wanted => exact absurd rfl (hb flag wanted)
  | store reg addr =>
      exact (rest_of_still addr.get_still).bind fun a =>
        .bind (rest_of_still reg.get_still) fun v => fun _ => rfl
  | rmw op addr =>
      exact (rest_of_still addr.get_still).bind fun a =>
        .bind (rest_of_still (emuRead_still a)) fun v => op.run_rest v a
  | logic op addr =>
      exact (rest_of_still addr.get_still).bind fun a =>
        .bind (rest_of_still (emuRead_still a)) fun v =>
          .bind (rest_of_apart (op.run_apart v)) fun t => fun _ => rfl
  | load reg operand =>
      exact (rest_of_still operand.get_still).bind fun v => rest_of_apart (reg.load_apart v)
  | logicImmediate op => exact .bind (fun _ => rfl) fun v => rest_of_apart (op.load_apart v)
  | arith op operand =>
      exact (rest_of_still operand.get_still).bind fun v => rest_of_apart (op.run_apart order v)
  | compare reg operand =>
      exact (rest_of_still operand.get_still).bind fun v => rest_of_apart (reg.compare_apart v)
  | bit addr => exact (rest_of_still addr.get_still).bind fun a => fun _ => rfl
  | pha | pla | jsr | rts | jmp | jmpIndirect | php | plp | brk | rti => exact fun _ => rfl
  | increment | decrement | transfer | txs | tsx | setFlag | aslA | lsrA | rolA | nop =>
      exact rest_of_apart (Instr.run_apart order rfl)

/-- The number of cycles belongs to that rest. -/
theorem cycles_of_rest {m m' : Machine} (h : m'.rest = m.rest) :
    m'.totalCPUCycles = m.totalCPUCycles := by
  have hc : m'.rest.totalCPUCycles = m.rest.totalCPUCycles := by rw [h]
  exact hc

/-! ### The cycles of one step -/

/-- A branch adds one cycle if it is taken. -/
theorem branchBody_cycles (flag : U8) (wanted : Bool) (m : Machine) :
    (branchBody flag wanted m).2.totalCPUCycles =
      m.totalCPUCycles + if decide (m.registers.flags &&& flag ≠ 0) = wanted then 1 else 0 := by
  rw [branchBody_run]
  split
  · rfl
  · exact (Int.add_zero _).symm

/-- What the rows say of the cycles of the cases. -/
def Instr.cyclesFit (opcode : U8) : Instr → Bool
  | .branch _ _ => 1 ≤ (opcodeTable opcode).cycles && (opcodeTable opcode).cycles ≤ 7
  | _ => 1 ≤ (opcodeTable opcode).cycles

/-- The row of every case fits. -/
theorem cyclesFit_of_decode {opcode : U8} {instr : Instr} (h : decode opcode = some instr) :
    instr.cyclesFit opcode = true :=
  (by decide +kernel : ∀ p ∈ switchCases, p.2.cyclesFit p.1 = true) _ (mem_switchCases h)

/-- An opcode without cycles has no case. -/
theorem decode_of_no_cycles {opcode : U8} (h : (opcodeTable opcode).cycles = 0) :
    decode opcode = none := by
  cases hd : decode opcode with
  | none => rfl
  | some instr =>
      have hf := cyclesFit_of_decode hd
      cases instr <;> simp [Instr.cyclesFit, h] at hf

/-- A step adds at most eight cycles, and at least those of its row. -/
theorem emulateCPU_cycles (order : EvalOrder) (answer : Addr) (m : Machine) :
    let m' := (emulateCPU order answer m).2
    m.totalCPUCycles + (opcodeTable m.nextOpcode).cycles ≤ m'.totalCPUCycles ∧
      m'.totalCPUCycles ≤ m.totalCPUCycles + 8 := by
  have hle := opcodeTable_cycles_le m.nextOpcode
  simp only [emulateCPU_run, Machine.tick]
  cases hd : decode m.nextOpcode with
  | none =>
      have hc : (switchOpcode order m.nextOpcode (m.fetched answer)).2.totalCPUCycles =
          m.totalCPUCycles := by rw [switchOpcode_of_decode_none hd]; rfl
      rw [hc]
      omega
  | some instr =>
      rw [switchOpcode_of_decode hd]
      by_cases hb : ∃ flag wanted, instr = .branch flag wanted
      · obtain ⟨flag, wanted, rfl⟩ := hb
        have hf := cyclesFit_of_decode hd
        simp only [Instr.cyclesFit, Bool.and_eq_true, decide_eq_true_eq] at hf
        have hc := branchBody_cycles flag wanted (m.fetched answer)
        rw [fetched_totalCPUCycles] at hc
        rw [Instr.run, hc]
        split <;> omega
      · have hc : (instr.run order (m.fetched answer)).2.totalCPUCycles = m.totalCPUCycles := by
          by_cases hh : instr = .hlt
          · rw [hh]; rfl
          · have hr := Instr.run_rest order hh (fun flag wanted e => hb ⟨flag, wanted, e⟩)
            exact (cycles_of_rest (hr (m.fetched answer))).trans (fetched_totalCPUCycles m answer)
        rw [hc]
        omega

/-- A step that adds no cycles only moves the program counter on, from an address that is not in the
region between RAM and ROM. -/
theorem emulateCPU_of_no_cycles (order : EvalOrder) (answer : Addr) {m : Machine}
    (h : (opcodeTable m.nextOpcode).cycles = 0) :
    let m' := (emulateCPU order answer m).2
    m'.totalCPUCycles = m.totalCPUCycles ∧
      m'.registers.programCounter = m.registers.programCounter + 1 ∧
      m.registers.programCounter ≠ 0x800 := by
  have hd := decode_of_no_cycles h
  simp only [emulateCPU_run, switchOpcode_of_decode_none hd, Machine.tick, h]
  refine ⟨Int.add_zero _, rfl, fun hpc => ?_⟩
  have hop : m.nextOpcode = 0 := by rw [Machine.nextOpcode, hpc]; rfl
  rw [hop] at h
  exact absurd h (by decide)

/-! ### The measure -/

/-- The steps to `0x800`, one address at a time. -/
def Machine.distance (m : Machine) : Nat := (0x800 - m.registers.programCounter).toNat

/-- The cycles left, then the distance. -/
def Machine.measure (m : Machine) : Nat :=
  (1000 - m.totalCPUCycles).toNat * 65536 + m.distance

/-- One byte on, the distance to the end of RAM is one less. -/
theorem distance_succ {pc : U16} (h : pc ≠ 0x800) :
    (0x800 - (pc + 1)).toNat + 1 = (0x800 - pc).toNat := by
  bv_omega

/-- Every step of the loop lowers the measure. -/
theorem measure_emulateCPU (order : EvalOrder) (answer : Addr) {m : Machine}
    (h : m.totalCPUCycles < 1000) : (emulateCPU order answer m).2.measure < m.measure := by
  have hlt : (emulateCPU order answer m).2.distance < 65536 := BitVec.isLt _
  obtain ⟨hlo, -⟩ := emulateCPU_cycles order answer m
  by_cases hc : (opcodeTable m.nextOpcode).cycles = 0
  · obtain ⟨hcyc, hpc, hne⟩ := emulateCPU_of_no_cycles order answer hc
    have hdist := distance_succ hne
    simp only [Machine.measure, Machine.distance, hcyc, hpc]
    omega
  · have hleft : (1000 - (emulateCPU order answer m).2.totalCPUCycles).toNat + 1 ≤
        (1000 - m.totalCPUCycles).toNat := by omega
    simp only [Machine.measure]
    omega

/-! ### The run -/

theorem emuRun_of_not_running (order : EvalOrder) (n : Nat) (answers : Nat → Addr) {m : Machine}
    (h : m.running = false) : (emuRun order n answers m).2 = m := by
  cases n with
  | zero => rfl
  | succ n =>
      show ((if m.running then _ else _ : CPU Unit) m).2 = m
      rw [if_neg (by simp [h])]
      rfl

theorem emuRun_of_running (order : EvalOrder) (n : Nat) (answers : Nat → Addr) {m : Machine}
    (h : m.running = true) :
    (emuRun order (n + 1) answers m).2 =
      (emuRun order n (fun i => answers (i + 1)) (emulateCPU order (answers 0) m).2).2 := by
  show ((if m.running then _ else _ : CPU Unit) m).2 = _
  rw [if_pos h]
  rfl

/-- The loop of `emu_run` goes on below 1000 cycles, until the processor halts. -/
theorem Machine.running_iff (m : Machine) :
    m.running = true ↔ m.cpuHalted = false ∧ m.totalCPUCycles < 1000 := by
  simp [Machine.running]

/-- The run from any state whose cycles do not exceed the bound yet, by induction on the measure. -/
theorem emuRun_stops (order : EvalOrder) : ∀ (m : Machine) (answers : Nat → Addr),
    m.totalCPUCycles ≤ 1007 →
    ∃ n s, (∀ k, n ≤ k → (emuRun order k answers m).2 = s) ∧ s.running = false ∧
      s.totalCPUCycles ≤ 1007 := by
  intro m
  induction hμ : m.measure using Nat.strong_induction_on generalizing m with
  | _ μ ih =>
    intro answers hm
    by_cases hr : m.running = true
    · obtain ⟨-, hlt⟩ := m.running_iff.mp hr
      obtain ⟨-, hhi⟩ := emulateCPU_cycles order (answers 0) m
      have hlow := measure_emulateCPU order (answers 0) hlt
      rw [hμ] at hlow
      obtain ⟨n, s, hn, hs⟩ := ih _ hlow (emulateCPU order (answers 0) m).2 rfl
        (fun i => answers (i + 1)) (by omega)
      refine ⟨n + 1, s, fun k hk => ?_, hs⟩
      cases k with
      | zero => exact absurd hk (Nat.not_succ_le_zero n)
      | succ j =>
          rw [emuRun_of_running order j answers hr]
          exact hn j (Nat.le_of_succ_le_succ hk)
    · have hr' : m.running = false := by simpa using hr
      exact ⟨0, m, fun k _ => emuRun_of_not_running order k answers hr', hr', hm⟩

/-- **`emu_run` terminates.**  After finitely many steps, and whatever `kzalloc` answered on the
way, the loop has stopped for good, with the CPU halted or the cycles between 1000 and 1007. -/
theorem emuRun_terminates (order : EvalOrder) (answers : Nat → Addr) (m : Machine)
    (h : m.totalCPUCycles < 1000) :
    ∃ n s, (∀ k, n ≤ k → (emuRun order k answers m).2 = s) ∧ s.running = false ∧
      (s.cpuHalted = true ∨ 1000 ≤ s.totalCPUCycles ∧ s.totalCPUCycles ≤ 1007) := by
  obtain ⟨n, s, hn, hr, hs⟩ := emuRun_stops order m answers (by omega)
  refine ⟨n, s, hn, hr, ?_⟩
  cases hh : s.cpuHalted with
  | true => exact .inl rfl
  | false =>
      refine .inr ⟨?_, hs⟩
      by_contra hlt
      have := s.running_iff.mpr ⟨hh, by omega⟩
      rw [hr] at this; cases this

/-- The run of an empty program. -/
theorem emuRun_terminates_empty :
    ∃ n s, (∀ k, n ≤ k →
        (emuRun .leftFirst k (fun _ => 1) (.ofProgram [] ⟨0, 0, 0, 0, 0xFD, 0⟩)).2 = s) ∧
      s.running = false ∧
      (s.cpuHalted = true ∨ 1000 ≤ s.totalCPUCycles ∧ s.totalCPUCycles ≤ 1007) :=
  emuRun_terminates .leftFirst _ _ (by decide)

end KernelNES.Emulator
