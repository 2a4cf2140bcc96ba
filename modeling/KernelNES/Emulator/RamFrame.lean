import KernelNES.Emulator.Instruction

/-!
# Emulator — RamFrame

Which RAM cells an instruction changes.  Every case of the `switch` is confined to its `footprint`
(`Instr.run_confined`), which is what the instruction is meant to write but for `ORA`, `EOR` and
`AND` on memory: these write their result back (`logic_RAM`).  So a step changes only the cells it
is meant to exactly when it is none of the six opcodes, or the operand is not in RAM, or the result
is what the operand's cell held anyway (`writesOnlyMeant_iff`).
-/

namespace KernelNES.Emulator
open KernelNES.Lib

/-- What `emu_write` does to RAM. -/
def storeRAM (RAM : U16 → U8) (address : U16) (value : U8) : U16 → U8 :=
  if address < 0x800 then Function.update RAM address value else RAM

/-- A write to RAM leaves the other cells alone. -/
theorem storeRAM_of_ne {RAM : U16 → U8} {a i : U16} (v : U8) (h : i ≠ a) :
    storeRAM RAM a v i = RAM i := by
  unfold storeRAM
  split
  · exact Function.update_of_ne h _ _
  · rfl

/-- The cell written, in RAM. -/
theorem storeRAM_self {RAM : U16 → U8} {a : U16} (v : U8) (h : a < 0x800) :
    storeRAM RAM a v a = v := by
  unfold storeRAM
  rw [if_pos h, Function.update_self]

/-- `emu_write` writes one cell, at most. -/
theorem emuWrite_confined (a : U16) (v : U8) :
    Confined Machine.RAM (fun _ => [a]) (emuWrite a v) := fun _ _ hi =>
  storeRAM_of_ne v (List.ne_of_not_mem_cons hi)

/-! ### The cases that keep RAM -/

theorem RAM_of_still {α : Type} {x : CPU α} (h : Preserves Machine.still x) :
    Preserves Machine.RAM x := h.comp Machine.RAM

theorem RAM_of_apart {α : Type} {x : CPU α} (h : Preserves Machine.apart x) :
    Preserves Machine.RAM x := h.comp Machine.RAM

theorem branchBody_RAM (flag : U8) (wanted : Bool) :
    Preserves Machine.RAM (branchBody flag wanted) :=
  .bind (fun _ => rfl) fun _ => .bind (fun _ => rfl) fun _ => .ite (fun _ => rfl) fun _ => rfl

/-! ### The cases that store -/

/-- An operation in place writes one cell of RAM. -/
theorem RmwOp.run_RAM (op : RmwOp) (v : U8) (a : U16) (m : Machine) :
    ∃ w, (op.run v a m).2.RAM = storeRAM m.RAM a w := by
  cases op <;> exact ⟨_, rfl⟩

/-- It writes no other. -/
theorem RmwOp.run_confined (op : RmwOp) (v : U8) (a : U16) :
    Confined Machine.RAM (fun _ => [a]) (op.run v a) := by
  intro m i hi
  obtain ⟨w, h⟩ := op.run_RAM v a m
  rw [h]
  exact storeRAM_of_ne w (List.ne_of_not_mem_cons hi)

/-- A case that works on an address and stores there only. -/
theorem Addressing.confined (addr : Addressing) {f : U16 → CPU Unit}
    (hf : ∀ a, Confined Machine.RAM (fun _ => [a]) (f a)) :
    Confined Machine.RAM (fun m => [m.operandAddress addr.mode m.registers.programCounter])
      (addr.get >>= f) :=
  .preserves_bind (B := fun a _ => [a]) (RAM_of_still addr.get_still) hf
    fun m => by rw [addr.get_value]

/-- The `k`-th slot below the top of the stack. -/
def Machine.stackSlot (m : Machine) (k : U8) : U16 := stackAddress (m.registers.stackPointer - k)

theorem stackSlot_zero (m : Machine) : m.stackSlot 0 = stackAddress m.registers.stackPointer := by
  simp [Machine.stackSlot]

theorem stackSlot_one (m : Machine) :
    m.stackSlot 1 = stackAddress (m.registers.stackPointer - 1) := rfl

theorem stackSlot_two (m : Machine) :
    m.stackSlot 2 = stackAddress (m.registers.stackPointer - 1 - 1) := by
  rw [Machine.stackSlot, BitVec.sub_sub]; rfl

/-- A push writes the slot at the stack pointer. -/
theorem pushStack_confined (v : U8) :
    Confined Machine.RAM (fun m => [m.stackSlot 0]) (pushStack v) := by
  intro m i hi
  have hne : i ≠ m.stackSlot 0 := List.ne_of_not_mem_cons hi
  rw [stackSlot_zero] at hne
  exact storeRAM_of_ne v hne

/-- `JSR` writes two slots of the stack. -/
theorem jsrBody_RAM (m : Machine) : ∃ v w, (jsrBody m).2.RAM =
    storeRAM (storeRAM m.RAM (stackAddress m.registers.stackPointer) v)
      (stackAddress (m.registers.stackPointer - 1)) w := ⟨_, _, rfl⟩

theorem jsrBody_confined :
    Confined Machine.RAM (fun m => [m.stackSlot 0, m.stackSlot 1]) jsrBody := by
  intro m i hi
  simp only [List.mem_cons, List.not_mem_nil, or_false, not_or, stackSlot_zero,
    stackSlot_one] at hi
  obtain ⟨v, w, h⟩ := jsrBody_RAM m
  rw [h, storeRAM_of_ne w hi.2, storeRAM_of_ne v hi.1]

/-- `BRK` writes three. -/
theorem brkBody_RAM (m : Machine) : ∃ u v w, (brkBody m).2.RAM =
    storeRAM (storeRAM (storeRAM m.RAM (stackAddress m.registers.stackPointer) u)
      (stackAddress (m.registers.stackPointer - 1)) v)
      (stackAddress (m.registers.stackPointer - 1 - 1)) w := ⟨_, _, _, rfl⟩

theorem brkBody_confined :
    Confined Machine.RAM (fun m => [m.stackSlot 0, m.stackSlot 1, m.stackSlot 2]) brkBody := by
  intro m i hi
  simp only [List.mem_cons, List.not_mem_nil, or_false, not_or, stackSlot_zero,
    stackSlot_one, stackSlot_two] at hi
  obtain ⟨u, v, w, h⟩ := brkBody_RAM m
  rw [h, storeRAM_of_ne w hi.2.2, storeRAM_of_ne v hi.2.1, storeRAM_of_ne u hi.1]

/-! ### Every case -/

/-- The addresses a case may store to, read off the state after the fetch. -/
def Instr.footprint (instr : Instr) (m : Machine) : List U16 :=
  match instr with
  | .store _ addr | .rmw _ addr | .logic _ addr =>
      [m.operandAddress addr.mode m.registers.programCounter]
  | .pha | .php => [m.stackSlot 0]
  | .jsr => [m.stackSlot 0, m.stackSlot 1]
  | .brk => [m.stackSlot 0, m.stackSlot 1, m.stackSlot 2]
  | _ => []

/-- **The footprint of a case.**  It changes RAM at most at the addresses of its footprint. -/
theorem Instr.run_confined (order : EvalOrder) (instr : Instr) :
    Confined Machine.RAM instr.footprint (instr.run order) := by
  cases instr with
  | store reg addr =>
      exact addr.confined fun a => .preserves_bind (B := fun _ _ => [a])
        (RAM_of_still reg.get_still) (emuWrite_confined a) fun _ => rfl
  | rmw op addr =>
      exact addr.confined fun a => .preserves_bind (B := fun _ _ => [a])
        (RAM_of_still (emuRead_still a)) (fun v => op.run_confined v a) fun _ => rfl
  | logic op addr =>
      exact addr.confined fun a => .preserves_bind (B := fun _ _ => [a])
        (RAM_of_still (emuRead_still a)) (fun v => .preserves_bind (B := fun _ _ => [a])
          (RAM_of_apart (op.run_apart v)) (fun t => (emuWrite_confined a t).bind_preserves fun _ =>
            RAM_of_apart (setZeroNegative_apart t)) fun _ => rfl) fun _ => rfl
  | pha | php =>
      exact .preserves_bind (B := fun _ m => [m.stackSlot 0]) (fun _ => rfl)
        (fun v => pushStack_confined _) fun _ => rfl
  | jsr => exact jsrBody_confined
  | brk => exact brkBody_confined
  | load reg operand =>
      exact Preserves.confined (.bind (RAM_of_still operand.get_still) fun v =>
        RAM_of_apart (reg.load_apart v)) _
  | branch flag wanted => exact (branchBody_RAM flag wanted).confined _
  | logicImmediate op =>
      exact Preserves.confined (.bind (fun _ => rfl) fun v => RAM_of_apart (op.load_apart v)) _
  | arith op operand =>
      exact Preserves.confined (.bind (RAM_of_still operand.get_still) fun v =>
        RAM_of_apart (op.run_apart order v)) _
  | compare reg operand =>
      exact Preserves.confined (.bind (RAM_of_still operand.get_still) fun v =>
        RAM_of_apart (reg.compare_apart v)) _
  | bit addr =>
      exact Preserves.confined (.bind (RAM_of_still addr.get_still) fun a => fun _ => rfl) _
  | hlt | pla | rts | jmp | jmpIndirect | plp | rti => exact Preserves.confined (fun _ => rfl) _
  | increment | decrement | transfer | txs | tsx | setFlag | aslA | lsrA | rolA | nop =>
      exact (RAM_of_apart (Instr.run_apart order rfl)).confined _

/-! ### `ORA`, `EOR` and `AND` on memory -/

/-- The result of `op`, of the accumulator and the operand. -/
def LogicOp.result : LogicOp → (A v : U8) → U8
  | .ora, A, v => A ||| v
  | .eor, A, v => A ^^^ v
  | .and, A, v => A &&& v

/-- The operand is the result already: `A` adds no bit, flips none, clears none. -/
def LogicOp.Keeps : LogicOp → (A v : U8) → Prop
  | .ora, A, v => A &&& ~~~v = 0
  | .eor, A, _ => A = 0
  | .and, A, v => v &&& ~~~A = 0

/-- The operation leaves the operand as it was on the pairs it keeps. -/
theorem LogicOp.result_eq_iff (op : LogicOp) (A v : U8) : op.result A v = v ↔ op.Keeps A v := by
  cases op with
  | ora | eor | and =>
      simp only [LogicOp.result, LogicOp.Keeps, BitVec.eq_of_getLsbD_eq_iff, BitVec.getLsbD_or,
        BitVec.getLsbD_xor, BitVec.getLsbD_and, BitVec.getLsbD_not]
      refine forall_congr' fun i => forall_congr' fun hi => ?_
      cases A.getLsbD i <;> cases v.getLsbD i <;> simp [hi]

/-- The value an operation answers. -/
theorem LogicOp.run_value (op : LogicOp) (v : U8) (m : Machine) :
    (op.run v m).1 = op.result m.registers.A v := by
  cases op <;> rfl

/-- `ORA`, `EOR` and `AND` on memory store the result where they read the operand. -/
theorem logic_RAM (order : EvalOrder) (op : LogicOp) (addr : Addressing) (m : Machine) :
    let ea := m.operandAddress addr.mode m.registers.programCounter
    ((Instr.logic op addr).run order m).2.RAM =
      storeRAM m.RAM ea (op.result m.registers.A (m.peek ea)) := by
  have hA : (addr.get m).2.registers.A = m.registers.A :=
    addr.get_still.comp (fun s => s.registers.A) m
  have hRAM : (addr.get m).2.RAM = m.RAM := RAM_of_still addr.get_still m
  -- the operand, and the state it is read in
  set v := (addr.get m).2.peek (addr.get m).1 with hv
  set s := (emuRead (addr.get m).1 (addr.get m).2).2 with hs
  have hrun : ((Instr.logic op addr).run order m).2.RAM =
      storeRAM (op.run v s).2.RAM (addr.get m).1 (op.run v s).1 := rfl
  have hsA : s.registers.A = m.registers.A := hA
  have hsRAM : s.RAM = m.RAM := hRAM
  rw [hrun, RAM_of_apart (op.run_apart v) s, op.run_value v s, hsA, hsRAM, hv,
    Machine.peek_of_still (addr.get_still m), addr.get_value]

/-! ### One step -/

/-- The RAM cells the instruction at the program counter is meant to write. -/
def Machine.meantCells (m : Machine) : List U16 :=
  if m.nextOpcode = 0x48 ∨ m.nextOpcode = 0x08 then [m.stackSlot 0]
  else if m.nextOpcode = 0x20 then [m.stackSlot 0, m.stackSlot 1]
  else if m.nextOpcode = 0x00 then [m.stackSlot 0, m.stackSlot 1, m.stackSlot 2]
  else if (opcodeTable m.nextOpcode).writesMem then [m.effectiveAddress]
  else []

/-- From `m` to `m'` no other cell of RAM changed. -/
def WritesOnlyMeant (m m' : Machine) : Prop :=
  ∀ a, m'.RAM a ≠ m.RAM a → a ∈ m.meantCells

/-- The next instruction is `ORA`, `EOR` or `AND` on a RAM cell that does not hold the result. -/
def Machine.WritesBack (m : Machine) : Prop :=
  ∃ op addr, decode m.nextOpcode = some (.logic op addr) ∧ m.effectiveAddress < 0x800 ∧
    ¬ op.Keeps m.registers.A (m.RAM m.effectiveAddress)

/-- What the row of the table says of the stores of a case. -/
def Instr.agrees (opcode : U8) : Instr → Bool
  | .store _ _ | .rmw _ _ =>
      opcode ∉ [0x48, 0x08, 0x20, 0x00] && (opcodeTable opcode).writesMem
  | .logic _ _ =>
      opcode ∉ [0x48, 0x08, 0x20, 0x00] && !(opcodeTable opcode).writesMem
  | .pha => opcode = 0x48
  | .php => opcode = 0x08
  | .jsr => opcode = 0x20
  | .brk => opcode = 0x00
  | _ => true

/-- The table and the `switch` agree on where each case writes. -/
theorem agrees_of_decode {opcode : U8} {instr : Instr} (h : decode opcode = some instr) :
    instr.agrees opcode = true :=
  (by decide +kernel : ∀ p ∈ switchCases, p.2.agrees p.1 = true) _ (mem_switchCases h)

/-- But for `ORA`, `EOR` and `AND` on memory, a case stores only where it is meant to. -/
theorem footprint_subset {m : Machine} {instr : Instr} (hd : decode m.nextOpcode = some instr)
    (hl : ∀ op addr, instr ≠ .logic op addr) (answer : Addr) :
    ∀ a ∈ instr.footprint (m.fetched answer), a ∈ m.meantCells := by
  have hg := agrees_of_decode hd
  unfold Machine.meantCells
  cases instr with
  | logic op addr => exact absurd rfl (hl op addr)
  | store reg addr | rmw op addr =>
      simp only [Instr.agrees, Bool.and_eq_true, decide_eq_true_eq, List.mem_cons,
        List.not_mem_nil, or_false, not_or] at hg
      obtain ⟨⟨h₁, h₂, h₃, h₄⟩, hw⟩ := hg
      rw [if_neg (not_or.mpr ⟨h₁, h₂⟩), if_neg h₃, if_neg h₄, if_pos hw,
        ← operandAddress_of_decode hd rfl answer]
      exact fun a ha => ha
  | pha | php | jsr | brk =>
      simp only [Instr.agrees, decide_eq_true_eq] at hg
      rw [hg]
      exact fun a ha => ha
  | _ => exact fun a ha => absurd ha List.not_mem_nil

/-- The logical operations are meant to write nothing. -/
theorem logic_meantCells {m : Machine} {op : LogicOp} {addr : Addressing}
    (hd : decode m.nextOpcode = some (.logic op addr)) : m.meantCells = [] := by
  have hg := agrees_of_decode hd
  simp only [Instr.agrees, Bool.and_eq_true, decide_eq_true_eq, List.mem_cons, List.not_mem_nil,
    or_false, not_or, Bool.not_eq_true'] at hg
  obtain ⟨⟨h₁, h₂, h₃, h₄⟩, hw⟩ := hg
  rw [Machine.meantCells, if_neg (not_or.mpr ⟨h₁, h₂⟩), if_neg h₃, if_neg h₄, hw]
  rfl

/-- A write changes RAM unless the cell holds the value, or is outside. -/
theorem storeRAM_eq_self_iff {RAM : U16 → U8} {a : U16} {v : U8} :
    (∀ i, storeRAM RAM a v i = RAM i) ↔ (a < 0x800 → v = RAM a) := by
  unfold storeRAM
  split
  · rename_i ha
    refine ⟨fun h _ => ?_, fun h i => ?_⟩
    · rw [← h a, Function.update_self]
    · rw [h ha, Function.update_eq_self]
  · rename_i ha
    exact ⟨fun _ h => absurd h ha, fun _ _ => rfl⟩

/-- A step of `ORA`, `EOR` or `AND` on memory keeps RAM exactly when it finds the result there. -/
theorem logic_writesOnlyMeant_iff (order : EvalOrder) (answer : Addr) {m : Machine} {op : LogicOp}
    {addr : Addressing} (hd : decode m.nextOpcode = some (.logic op addr)) :
    WritesOnlyMeant m (emulateCPU order answer m).2 ↔
      (m.effectiveAddress < 0x800 →
        op.Keeps m.registers.A (m.RAM m.effectiveAddress)) := by
  have hRAM : (emulateCPU order answer m).2.RAM = storeRAM m.RAM m.effectiveAddress
      (op.result m.registers.A (m.peek m.effectiveAddress)) := by
    have h := logic_RAM order op addr (m.fetched answer)
    rw [operandAddress_of_decode hd rfl] at h
    rw [emulateCPU_of_decode hd]
    exact h
  have hsame : WritesOnlyMeant m (emulateCPU order answer m).2 ↔
      ∀ i, (emulateCPU order answer m).2.RAM i = m.RAM i := by
    simp only [WritesOnlyMeant, logic_meantCells hd, List.not_mem_nil, imp_false, not_not]
  rw [hsame, hRAM, storeRAM_eq_self_iff]
  refine forall_congr' fun hlt => ?_
  rw [Machine.peek_RAM hlt, op.result_eq_iff]

/-- **Instructions write only the RAM they are meant to**, exactly when the next one is not an
`ORA`, `EOR` or `AND` whose operand is a RAM cell that does not hold the result. -/
theorem writesOnlyMeant_iff (order : EvalOrder) (answer : Addr) (m : Machine) :
    WritesOnlyMeant m (emulateCPU order answer m).2 ↔ ¬ m.WritesBack := by
  cases hd : decode m.nextOpcode with
  | none =>
      refine iff_of_true (fun a ha => absurd ?_ ha) ?_
      · rw [emulateCPU_run, switchOpcode_of_decode_none hd]
        rfl
      · rintro ⟨op, addr, h, -⟩
        rw [hd] at h; cases h
  | some instr =>
      -- only the logic operations on memory write where they should not
      by_cases hl : ∃ op addr, instr = .logic op addr
      · obtain ⟨op, addr, rfl⟩ := hl
        rw [logic_writesOnlyMeant_iff order answer hd]
        constructor
        · rintro h ⟨op', addr', h', hlt, hne⟩
          rw [hd] at h'
          cases h'
          exact hne (h hlt)
        · exact fun h hlt => by_contra fun hne => h ⟨op, addr, hd, hlt, hne⟩
      · refine iff_of_true (fun a ha => ?_) ?_
        · by_contra hm
          refine ha ?_
          rw [emulateCPU_of_decode hd]
          exact instr.run_confined order (m.fetched answer) a fun hf =>
            hm (footprint_subset hd (fun op addr e => hl ⟨op, addr, e⟩) answer a hf)
        · rintro ⟨op, addr, h, -⟩
          rw [hd] at h
          exact hl ⟨op, addr, Option.some.inj h⟩

/-- `ORA $10` with `A = 1`: the cell at `0x10` turns from `0` to `1`. -/
theorem ora_writes_back :
    ¬ WritesOnlyMeant (.ofProgram [0x05, 0x10] ⟨1, 0, 0, 0, 0xFD, 0⟩)
      (emulateCPU .leftFirst 1 (.ofProgram [0x05, 0x10] ⟨1, 0, 0, 0, 0xFD, 0⟩)).2 := fun h =>
  absurd (h 0x10 (by decide +kernel)) (by decide +kernel)

end KernelNES.Emulator
