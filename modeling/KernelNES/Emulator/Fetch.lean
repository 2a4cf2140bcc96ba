import KernelNES.Emulator.Instruction

/-!
# Emulator — Fetch

The bytes of an instruction: how many its case reads, which of them the trace log gets, and where
the program counter ends up.  A case reads its operand bytes one behind the other from the program
counter on, before it does anything else; the table counts them with the opcode
(`numBytes_of_decode`).
-/

namespace KernelNES.Emulator
open KernelNES.Lib

/-! ### Lengths -/

/-- The operand bytes of an addressing helper. -/
def Addressing.length : Addressing → Nat
  | .absolute | .absoluteX => 2
  | .zeroPage | .zeroPageX | .indirectX | .indirectY => 1

/-- The bytes of the operand behind the opcode. -/
def Operand.length : Operand → Nat
  | .immediate   => 1
  | .memory addr => addr.length

/-- The operand bytes a case reads behind the opcode. -/
def Instr.operandLength : Instr → Nat
  | .load _ operand | .arith _ operand | .compare _ operand => operand.length
  | .store _ addr | .rmw _ addr | .logic _ addr | .bit addr => addr.length
  | .logicImmediate _ | .branch _ _ => 1
  | .jsr | .jmp | .jmpIndirect => 2
  | _ => 0

/-- The cases that set the program counter, or move it without a fetch. -/
def Instr.jumps : Instr → Bool
  | .branch _ _ | .jmp | .jmpIndirect | .jsr | .rts | .brk | .rti => true
  | _ => false

/-- The row of an opcode counts the bytes its case reads. -/
theorem numBytes_of_decode {opcode : U8} {instr : Instr} (h : decode opcode = some instr) :
    (opcodeTable opcode).numBytes = instr.operandLength + 1 := by
  have hall : ∀ p ∈ switchCases, (opcodeTable p.1).numBytes = p.2.operandLength + 1 := by
    decide +kernel
  exact hall _ (mem_switchCases h)

/-! ### The program counter -/

/-- `x` moves the program counter `n` bytes on. -/
def Advances {α : Type} (n : Nat) (x : CPU α) : Prop := ∀ m,
  (x m).2.registers.programCounter = m.registers.programCounter + BitVec.ofNat 16 n

/-- `x` leaves the program counter alone. -/
abbrev KeepsPC {α : Type} (x : CPU α) : Prop :=
  Preserves (fun m : Machine => m.registers.programCounter) x

section
variable {α β : Type} {n : Nat} {x : CPU α} {y : α → CPU β}

theorem Advances.of_keeps (h : KeepsPC x) : Advances 0 x :=
  fun m => (h m).trans (BitVec.add_zero _).symm

/-- What leaves the program counter alone moves it no further. -/
theorem Advances.bind (hx : Advances n x) (hy : ∀ a, KeepsPC (y a)) : Advances n (x >>= y) :=
  fun m => (hy (x m).1 (x m).2).trans (hx m)

end

/-- An address takes its operand bytes. -/
theorem Addressing.get_advances (addr : Addressing) : Advances addr.length addr.get := by
  intro m
  cases addr with
  | zeroPage | zeroPageX | indirectX | indirectY => rfl
  | absolute | absoluteX => exact BitVec.add_assoc _ 1 1

/-- An operand takes its bytes. -/
theorem Operand.get_advances (operand : Operand) : Advances operand.length operand.get := by
  cases operand with
  | immediate => exact fun _ => rfl
  | memory addr => exact addr.get_advances.bind fun _ => fun _ => rfl

theorem keepsPC_of_apart {α : Type} {x : CPU α} (h : Preserves Machine.apart x) : KeepsPC x :=
  h.comp fun s => s.registers.programCounter

/-- An operation in place leaves the program counter alone. -/
theorem RmwOp.run_keepsPC (op : RmwOp) (v : U8) (a : U16) : KeepsPC (op.run v a) := by
  cases op <;> exact fun _ => rfl

/-- A case that does not jump leaves the program counter behind its operand. -/
theorem Instr.run_advances (order : EvalOrder) {instr : Instr} (h : instr.jumps = false) :
    Advances instr.operandLength (instr.run order) := by
  cases instr with
  | branch | jmp | jmpIndirect | jsr | rts | brk | rti => cases h
  | load reg operand =>
    exact operand.get_advances.bind fun v => keepsPC_of_apart (reg.load_apart v)
  | store reg addr =>
    exact addr.get_advances.bind fun _ => (keepsPC_of_apart reg.get_apart).bind fun _ =>
      fun _ => rfl
  | rmw op addr =>
    exact addr.get_advances.bind fun a => .bind (fun _ => rfl) fun v => op.run_keepsPC v a
  | logic op addr =>
    exact addr.get_advances.bind fun _ => .bind (fun _ => rfl) fun v =>
      (keepsPC_of_apart (op.run_apart v)).bind fun _ => fun _ => rfl
  | logicImmediate op =>
    exact Operand.immediate.get_advances.bind fun v => keepsPC_of_apart (op.load_apart v)
  | arith op operand =>
    exact operand.get_advances.bind fun v => keepsPC_of_apart (op.run_apart order v)
  | compare reg operand =>
    exact operand.get_advances.bind fun v => keepsPC_of_apart (reg.compare_apart v)
  | bit addr => exact addr.get_advances.bind fun _ => fun _ => rfl
  | hlt | pha | pla | php | plp => exact .of_keeps fun _ => rfl
  | increment | decrement | transfer | txs | tsx | setFlag | aslA | lsrA | rolA | nop =>
    exact .of_keeps (keepsPC_of_apart (Instr.run_apart order rfl))

/-! ### The trace of the current instruction -/

/-- What the trace log knows of the instruction being executed: the last entry, but for the
addresses and values of its accesses, and how many operands it has. -/
structure Traced where
  tail : Addr
  opcode : U8
  operands : Nat → U8
  currentOperand : Nat
  registers : Registers
  totalCPUCycles : Int

/-- The last entry of the log, as what is traced of an instruction. -/
def Tracelog.traced (s : Tracelog) : Traced where
  tail := s.logTail
  opcode := (s.mem s.logTail).opcode
  operands := (s.mem s.logTail).operands
  currentOperand := s.currentOperand
  registers := (s.mem s.logTail).registers
  totalCPUCycles := (s.mem s.logTail).totalCPUCycles

/-- `tail_log_set_operand`. -/
def Traced.feed (t : Traced) (byte : U8) : Traced :=
  if t.opcode = 0 then { t with opcode := byte }
  else
    { t with
      operands := Function.update t.operands t.currentOperand byte
      currentOperand := t.currentOperand + 1 }

/-- The last entry is fed one byte. -/
theorem tailLogSetOperand_traced (s : Tracelog) (byte : U8) :
    (s.tailLogSetOperand byte).traced = s.traced.feed byte := by
  unfold Tracelog.tailLogSetOperand Traced.feed
  by_cases h : (s.mem s.logTail).opcode = 0
  · rw [if_pos h, if_pos (show s.traced.opcode = 0 from h)]
    simp [Tracelog.traced, Tracelog.modifyTail, Tracelog.modifyEntry]
  · rw [if_neg h, if_neg (show ¬ s.traced.opcode = 0 from h)]
    simp [Tracelog.traced, Tracelog.modifyTail, Tracelog.modifyEntry]

/-- A fresh entry has the state of the CPU and no bytes yet. -/
theorem addTracelogEntry_traced (s : Tracelog) {answer : Addr} (ha : answer ≠ 0)
    (registers : Registers) (totalCPUCycles : Int) :
    (s.addTracelogEntry answer registers totalCPUCycles).2.traced =
      ⟨answer, 0, fun _ => 0, 0, registers, totalCPUCycles⟩ := by
  unfold Tracelog.addTracelogEntry
  simp only [if_neg ha, Tracelog.kzalloc]
  split
  · simp [Tracelog.traced, Tracelog.initLogEntry, Tracelog.modifyEntry, TracelogEntry.zero]
  · by_cases ht : s.evict.logTail = answer
    · simp [Tracelog.traced, Tracelog.initLogEntry, Tracelog.modifyEntry, TracelogEntry.zero, ht]
    · simp [Tracelog.traced, Tracelog.initLogEntry, Tracelog.modifyEntry, TracelogEntry.zero, ht,
        Function.update_of_ne (Ne.symm ht)]

/-- `x` gives the trace log no byte. -/
abbrev Quiet {α : Type} (x : CPU α) : Prop := Preserves (fun m : Machine => m.log.traced) x

theorem emuRead_quiet (a : U16) : Quiet (emuRead a) := by
  intro m
  show Tracelog.traced (if _ then _ else _) = _
  split
  · simp [Tracelog.traced, Tracelog.tailLogSetReadValue, Tracelog.modifyTail,
      Tracelog.modifyEntry]
  · rfl

theorem emuWrite_quiet (a : U16) (v : U8) : Quiet (emuWrite a v) := by
  intro m
  show Tracelog.traced (if _ then _ else _) = _
  split
  · simp [Tracelog.traced, Tracelog.tailLogSetWrittenValue, Tracelog.modifyTail,
      Tracelog.modifyEntry]
  · rfl

theorem tailLogSetAddress_traced (s : Tracelog) (a : U16) :
    (s.tailLogSetAddress a).traced = s.traced := by
  simp [Tracelog.traced, Tracelog.tailLogSetAddress, Tracelog.modifyTail, Tracelog.modifyEntry]

theorem tailLogSetIndexedAddress_traced (s : Tracelog) (a : U16) :
    (s.tailLogSetIndexedAddress a).traced = s.traced := by
  simp [Tracelog.traced, Tracelog.tailLogSetIndexedAddress, Tracelog.modifyTail,
    Tracelog.modifyEntry]

theorem setPC_quiet (a : U16) : Quiet (setPC a) := fun m => tailLogSetAddress_traced m.log a

theorem pushStack_quiet (v : U8) : Quiet (pushStack v) := fun m => emuWrite_quiet _ v m

theorem pullStack_quiet : Quiet pullStack :=
  .bind (fun _ => rfl) fun _ => .bind (fun _ => rfl) fun _ => .bind (fun _ => rfl) fun _ =>
    (emuRead_quiet _).bind fun _ => fun _ => rfl

theorem pullPC_quiet : Quiet pullPC :=
  pullStack_quiet.bind fun _ => pullStack_quiet.bind fun _ => (setPC_quiet _).bind fun _ =>
    fun _ => rfl

theorem quiet_of_apart {α : Type} {x : CPU α} (h : Preserves Machine.apart x) : Quiet x :=
  h.comp fun s => s.log.traced

theorem RmwOp.run_quiet (op : RmwOp) (v : U8) (a : U16) : Quiet (op.run v a) := by
  intro m
  cases op <;> exact emuWrite_quiet a _ m

/-- The `n` bytes from `a` on. -/
def Machine.bytesFrom (m : Machine) (a : U16) : (n : Nat) → List U8
  | 0 => []
  | n + 1 => m.peek a :: m.bytesFrom (a + 1) n

/-- As many bytes as asked for. -/
theorem Machine.bytesFrom_length (m : Machine) (a : U16) (n : Nat) :
    (m.bytesFrom a n).length = n := by
  induction n generalizing a with
  | zero => rfl
  | succ n ih => exact congrArg (· + 1) (ih (a + 1))

/-- `x` gives the trace log the `n` bytes at the program counter. -/
def Feeds {α : Type} (n : Nat) (x : CPU α) : Prop := ∀ m,
  (x m).2.log.traced =
    (m.bytesFrom m.registers.programCounter n).foldl Traced.feed m.log.traced

section
variable {α β : Type} {n : Nat} {x : CPU α} {y : α → CPU β}

theorem Feeds.of_quiet (h : Quiet x) : Feeds 0 x := h

/-- What is quiet feeds no more. -/
theorem Feeds.bind (hx : Feeds n x) (hy : ∀ a, Quiet (y a)) : Feeds n (x >>= y) :=
  fun m => (hy (x m).1 (x m).2).trans (hx m)

end

/-- A byte read behind the opcode is fed to the log. -/
theorem readIncrementPC_feeds : Feeds 1 readIncrementPC := by
  intro m
  have h := emuRead_quiet m.registers.programCounter m
  exact (tailLogSetOperand_traced _ _).trans (congrArg (Traced.feed · _) h)

/-- Two fetches in a row. -/
theorem fetchTwo_feeds {α : Type} {y : U8 → U8 → CPU α} (hy : ∀ a b, Quiet (y a b)) :
    Feeds 2 (do
      let lowbyte ← readIncrementPC
      let highbyte ← readIncrementPC
      y lowbyte highbyte) := by
  intro m
  have h₁ := readIncrementPC_feeds m
  have h₂ := readIncrementPC_feeds (readIncrementPC m).2
  have hlast := hy (readIncrementPC m).1 (readIncrementPC (readIncrementPC m).2).1
    (readIncrementPC (readIncrementPC m).2).2
  exact hlast.trans (h₂.trans (congrArg (Traced.feed · _) h₁))

/-- An address feeds its operand bytes. -/
theorem Addressing.get_feeds (addr : Addressing) : Feeds addr.length addr.get := by
  cases addr with
  | zeroPage => exact readIncrementPC_feeds.bind fun _ => fun _ => rfl
  | zeroPageX =>
    have hfetch : ∀ v, Feeds 1 (getZPIndexedAddress v) := fun v =>
      readIncrementPC_feeds.bind fun _ =>
        .bind (fun m => tailLogSetIndexedAddress_traced m.log _) fun _ => fun _ => rfl
    exact fun m => hfetch _ (regX m).2
  | absolute =>
    exact fetchTwo_feeds fun _ _ =>
      .bind (fun m => tailLogSetAddress_traced m.log _) fun _ => fun _ => rfl
  | absoluteX =>
    exact fetchTwo_feeds fun _ _ => .bind (fun _ => rfl) fun _ =>
      .bind (fun m => tailLogSetAddress_traced m.log _) fun _ => fun _ => rfl
  | indirectX =>
    exact readIncrementPC_feeds.bind fun _ => .bind (fun _ => rfl) fun _ =>
      (emuRead_quiet _).bind fun _ => (emuRead_quiet _).bind fun _ =>
        .bind (fun m => tailLogSetIndexedAddress_traced m.log _) fun _ => fun _ => rfl
  | indirectY =>
    exact readIncrementPC_feeds.bind fun _ => (emuRead_quiet _).bind fun _ =>
      (emuRead_quiet _).bind fun _ => .bind (fun _ => rfl) fun _ =>
        .bind (fun m => tailLogSetIndexedAddress_traced m.log _) fun _ => fun _ => rfl

/-- An operand feeds its bytes. -/
theorem Operand.get_feeds (operand : Operand) : Feeds operand.length operand.get := by
  cases operand with
  | immediate => exact readIncrementPC_feeds
  | memory addr => exact addr.get_feeds.bind emuRead_quiet

/-- `JSR` fetches its two bytes, the second without moving on. -/
theorem jsrBody_feeds : Feeds 2 jsrBody := by
  intro m
  have h₁ := readIncrementPC_feeds m
  have hread : ∀ m, (readPC m).2.log.traced =
      m.log.traced.feed (m.peek m.registers.programCounter) := fun m =>
    (tailLogSetOperand_traced _ _).trans
      (congrArg (Traced.feed · _) (emuRead_quiet m.registers.programCounter m))
  have h₂ := hread (readIncrementPC m).2
  have hrest : ∀ lowbyte highbyte, Quiet (do
      pushStack (((← programCounter) >>> 8).setWidth 8)
      pushStack ((← programCounter).setWidth 8)
      let _ ← setPC (word highbyte lowbyte)) := fun _ _ =>
    .bind (fun _ => rfl) fun _ => (pushStack_quiet _).bind fun _ => .bind (fun _ => rfl) fun _ =>
      (pushStack_quiet _).bind fun _ => (setPC_quiet _).bind fun _ => fun _ => rfl
  have hlast := hrest (readIncrementPC m).1 (readPC (readIncrementPC m).2).1
    (readPC (readIncrementPC m).2).2
  exact hlast.trans (h₂.trans (congrArg (Traced.feed · _) h₁))

theorem brkBody_quiet : Quiet brkBody :=
  .bind (fun _ => rfl) fun _ => .bind (fun _ => rfl) fun _ => (pushStack_quiet _).bind fun _ =>
    .bind (fun _ => rfl) fun _ => (pushStack_quiet _).bind fun _ => .bind (fun _ => rfl) fun _ =>
      (pushStack_quiet _).bind fun _ => (emuRead_quiet _).bind fun _ =>
        (emuRead_quiet _).bind fun _ => (setPC_quiet _).bind fun _ => fun _ => rfl

/-- **What a case gives the trace log**: its operand bytes, and in `RTS` the byte at the address
pulled. -/
theorem Instr.run_feeds (order : EvalOrder) (instr : Instr) (m : Machine) :
    ∃ stray, (stray ≠ [] → instr = .rts ∧ stray.length = 1) ∧
      (instr.run order m).2.log.traced =
        (m.bytesFrom m.registers.programCounter instr.operandLength ++ stray).foldl Traced.feed
          m.log.traced := by
  -- every case but `RTS` feeds its operand bytes only
  have none : ∀ {n : Nat}, Feeds n (instr.run order) → instr.operandLength = n →
      ∃ stray, (stray ≠ [] → instr = .rts ∧ stray.length = 1) ∧
        (instr.run order m).2.log.traced =
          (m.bytesFrom m.registers.programCounter instr.operandLength ++ stray).foldl Traced.feed
            m.log.traced := by
    rintro n h rfl
    exact ⟨[], fun hne => absurd rfl hne, by rw [List.append_nil]; exact h m⟩
  cases instr with
  | rts =>
    refine ⟨[(pullPC m).2.peek (pullPC m).2.registers.programCounter], fun _ => ⟨rfl, rfl⟩, ?_⟩
    have hpull : (pullPC m).2.log.traced = m.log.traced := pullPC_quiet m
    rw [← hpull]
    exact readIncrementPC_feeds (pullPC m).2
  | load reg operand =>
    exact none (operand.get_feeds.bind fun v => quiet_of_apart (reg.load_apart v)) rfl
  | store reg addr =>
    exact none (addr.get_feeds.bind fun a => (quiet_of_apart reg.get_apart).bind fun v =>
      emuWrite_quiet a v) rfl
  | branch flag wanted =>
    exact none (readIncrementPC_feeds.bind fun _ => .bind (fun _ => rfl) fun _ =>
      .ite (.bind (fun _ => rfl) fun _ => (setPC_quiet _).bind fun _ => fun _ => rfl)
        fun _ => rfl) rfl
  | pha | php => exact none (.of_quiet (.bind (fun _ => rfl) fun v => pushStack_quiet _)) rfl
  | pla | plp => exact none (.of_quiet (pullStack_quiet.bind fun _ => fun _ => rfl)) rfl
  | jsr => exact none jsrBody_feeds rfl
  | jmp =>
    exact none ((Addressing.get_feeds .absolute).bind fun a => (setPC_quiet a).bind fun _ =>
      fun _ => rfl) rfl
  | jmpIndirect =>
    exact none ((Addressing.get_feeds .absolute).bind fun a => (emuRead_quiet a).bind fun _ =>
      (emuRead_quiet _).bind fun _ => (setPC_quiet _).bind fun _ => fun _ => rfl) rfl
  | rmw op addr =>
    exact none (addr.get_feeds.bind fun a => (emuRead_quiet a).bind fun v => op.run_quiet v a) rfl
  | logicImmediate op =>
    exact none (readIncrementPC_feeds.bind fun v => quiet_of_apart (op.load_apart v)) rfl
  | logic op addr =>
    exact none (addr.get_feeds.bind fun a => (emuRead_quiet a).bind fun v =>
      (quiet_of_apart (op.run_apart v)).bind fun t => (emuWrite_quiet a t).bind fun _ =>
        fun _ => rfl) rfl
  | arith op operand =>
    exact none (operand.get_feeds.bind fun v => quiet_of_apart (op.run_apart order v)) rfl
  | compare reg operand =>
    exact none (operand.get_feeds.bind fun v => quiet_of_apart (reg.compare_apart v)) rfl
  | bit addr =>
    exact none (addr.get_feeds.bind fun a => (emuRead_quiet a).bind fun _ => fun _ => rfl) rfl
  | brk => exact none (.of_quiet brkBody_quiet) rfl
  | rti =>
    exact none (.of_quiet (pullStack_quiet.bind fun _ => .bind (fun _ => rfl) fun _ =>
      pullPC_quiet)) rfl
  | hlt => exact none (.of_quiet fun _ => rfl) rfl
  | increment | decrement | transfer | txs | tsx | setFlag | aslA | lsrA | rolA | nop =>
    exact none (.of_quiet (quiet_of_apart (Instr.run_apart order rfl))) rfl

/-! ### One step -/

/-- From `t` to `t'`, the bytes `l` became the next operands. -/
structure Traced.Took (t t' : Traced) (l : List U8) : Prop where
  currentOperand : t'.currentOperand = t.currentOperand + l.length
  operands : ∀ i (hi : i < l.length), t'.operands (t.currentOperand + i) = l[i]
  before : ∀ i < t.currentOperand, t'.operands i = t.operands i
  rest : { t' with operands := t.operands, currentOperand := t.currentOperand } = t

/-- Nothing yet. -/
theorem Traced.Took.nil (t : Traced) : t.Took t [] :=
  ⟨rfl, fun _ hi => absurd hi (Nat.not_lt_zero _), fun _ _ => rfl, rfl⟩

/-- An entry whose opcode is known takes every byte as an operand. -/
theorem foldl_feed (l : List U8) :
    ∀ t : Traced, t.opcode ≠ 0 → t.Took (l.foldl Traced.feed t) l := by
  induction l with
  | nil => exact fun t _ => .nil t
  | cons b l ih =>
    intro t ht
    have hfeed : t.feed b =
        { t with
          operands := Function.update t.operands t.currentOperand b
          currentOperand := t.currentOperand + 1 } := if_neg ht
    -- `b` is the next operand, and the opcode is still there for the bytes behind it
    have h := ih (t.feed b) (by rw [hfeed]; exact ht)
    rw [List.foldl_cons]
    rw [hfeed] at h ⊢
    constructor
    case currentOperand =>
      have hcount := h.currentOperand
      dsimp only at hcount
      rw [hcount, List.length_cons]
      omega
    case operands =>
      intro i hi
      cases i with
      | zero =>
        exact (h.before _ (Nat.lt_succ_self _)).trans (Function.update_self _ _ _)
      | succ i =>
        have hoperand := h.operands i (by simpa using hi)
        rw [show t.currentOperand + (i + 1) = t.currentOperand + 1 + i by omega]
        exact hoperand
    case before =>
      intro i hi
      rw [h.before i (Nat.lt_succ_of_lt hi)]
      exact Function.update_of_ne (Nat.ne_of_lt hi) _ _
    case rest =>
      have hrest := congrArg (fun t' : Traced =>
        { t' with operands := t.operands, currentOperand := t.currentOperand }) h.rest
      exact hrest

/-- The `i`th of the bytes from an address. -/
theorem Machine.bytesFrom_getElem (m : Machine) {a : U16} {n i : Nat}
    (hi : i < (m.bytesFrom a n).length) :
    (m.bytesFrom a n)[i] = m.peek (a + BitVec.ofNat 16 i) := by
  induction n generalizing a i with
  | zero => exact absurd hi (Nat.not_lt_zero i)
  | succ n ih =>
    cases i with
    | zero => exact congrArg m.peek (BitVec.add_zero a).symm
    | succ i =>
      have h := ih (Nat.lt_of_succ_lt_succ hi)
      have ha : a + 1 + BitVec.ofNat 16 i = a + BitVec.ofNat 16 (i + 1) := by bv_omega
      rw [ha] at h
      exact h

/-- The opcodes of the branches, `JMP`, `JSR`, `RTS`, `BRK` and `RTI`. -/
def jumpOpcodes : List U8 :=
  [0x10, 0x30, 0x50, 0x70, 0x90, 0xB0, 0xD0, 0xF0, 0x4C, 0x6C, 0x20, 0x60, 0x00, 0x40]

/-- Outside the jumps, no case sets the program counter. -/
theorem jumps_of_decode {opcode : U8} {instr : Instr} (h : decode opcode = some instr)
    (hj : opcode ∉ jumpOpcodes) : instr.jumps = false := by
  have hall : ∀ p ∈ switchCases, p.1 ∉ jumpOpcodes → p.2.jumps = false := by decide +kernel
  exact hall _ (mem_switchCases h) hj

/-- The entry that the step from `m` to `m'` adds to the trace log, at `answer`. -/
structure StepTraced (m m' : Machine) (answer : Addr) : Prop where
  tail : m'.log.logTail = answer
  operands_le : m'.log.currentOperand ≤ 2
  opcode : (m'.log.mem answer).opcode = m.nextOpcode
  operands : ∀ i, i < (opcodeTable m.nextOpcode).numBytes - 1 →
    (m'.log.mem answer).operands i =
      m.peek (m.registers.programCounter + 1 + BitVec.ofNat 16 i)
  registers : (m'.log.mem answer).registers = m.registers
  totalCPUCycles : (m'.log.mem answer).totalCPUCycles = m.totalCPUCycles

/-- The trace after the fetch of the opcode. -/
theorem fetched_traced (m : Machine) {answer : Addr} (ha : answer ≠ 0) :
    (m.fetched answer).log.traced =
      ⟨answer, m.nextOpcode, fun _ => 0, 0, m.registers, m.totalCPUCycles⟩ := by
  have hentry := addTracelogEntry_traced m.log ha m.registers m.totalCPUCycles
  have hfeed := readIncrementPC_feeds (addTracelogEntry answer (resetTracker m).2).2
  have hfetch : (m.fetched answer).log.traced =
      (m.log.addTracelogEntry answer m.registers m.totalCPUCycles).2.traced.feed m.nextOpcode :=
    hfeed
  rw [hfetch, hentry]
  rfl

/-- The trace after the whole step: the operand bytes, in `RTS` with one more. -/
theorem stepTraced_of_took {m m' : Machine} {answer : Addr} {n : Nat} {stray : List U8}
    (hn : n + stray.length ≤ 2) (hbytes : (opcodeTable m.nextOpcode).numBytes = n + 1)
    (h : Traced.Took ⟨answer, m.nextOpcode, fun _ => 0, 0, m.registers, m.totalCPUCycles⟩
      m'.log.traced (m.bytesFrom (m.registers.programCounter + 1) n ++ stray)) :
    StepTraced m m' answer := by
  have hlen : (m.bytesFrom (m.registers.programCounter + 1) n ++ stray).length =
      n + stray.length := by rw [List.length_append, Machine.bytesFrom_length]
  have htail : m'.log.logTail = answer := congrArg Traced.tail h.rest
  have hcount := h.currentOperand
  rw [hlen, Nat.zero_add] at hcount
  constructor
  case tail => exact htail
  case operands_le => exact hcount.trans_le hn
  case opcode => exact htail ▸ congrArg Traced.opcode h.rest
  case operands =>
    intro i hi
    rw [hbytes, Nat.add_sub_cancel] at hi
    have hin : i < (m.bytesFrom (m.registers.programCounter + 1) n).length := by
      rwa [Machine.bytesFrom_length]
    have hi' := h.operands i (by rw [hlen]; omega)
    rw [List.getElem_append_left hin, m.bytesFrom_getElem hin] at hi'
    simp only [Nat.zero_add] at hi'
    exact htail ▸ hi'
  case registers => exact htail ▸ congrArg Traced.registers h.rest
  case totalCPUCycles => exact htail ▸ congrArg Traced.totalCPUCycles h.rest

/-- The fetch changes no byte of the instruction. -/
theorem fetched_bytesFrom (m : Machine) (answer : Addr) (a : U16) (n : Nat) :
    (m.fetched answer).bytesFrom a n = m.bytesFrom a n := by
  induction n generalizing a with
  | zero => rfl
  | succ n ih => exact congrArg (m.peek a :: ·) (ih (a + 1))

/-- A case has at most two operand bytes. -/
theorem Instr.operandLength_le (instr : Instr) : instr.operandLength ≤ 2 := by
  have haddr : ∀ addr : Addressing, addr.length ≤ 2 := by
    intro addr
    cases addr <;> decide
  have hop : ∀ operand : Operand, operand.length ≤ 2 := by
    intro operand
    cases operand with
    | immediate => decide
    | memory addr => exact haddr addr
  cases instr with
  | load _ operand | arith _ operand | compare _ operand => exact hop operand
  | store _ addr | rmw _ addr | logic _ addr | bit addr => exact haddr addr
  | _ => simp [Instr.operandLength]

/-- **Fetch and trace agree with the table.**  Whatever the state, a step of an opcode with a case
adds an entry with the opcode, its operand bytes and the CPU before it, and leaves the program
counter behind the instruction unless it jumps. -/
theorem step_agrees_with_table (order : EvalOrder) (answer : Addr) (m : Machine)
    (h : (decode m.nextOpcode).isSome) :
    (answer ≠ 0 → StepTraced m (emulateCPU order answer m).2 answer) ∧
      (m.nextOpcode ∉ jumpOpcodes →
        (emulateCPU order answer m).2.registers.programCounter =
          m.registers.programCounter + BitVec.ofNat 16 (opcodeTable m.nextOpcode).numBytes) := by
  obtain ⟨instr, hd⟩ := Option.isSome_iff_exists.mp h
  have hrun : (emulateCPU order answer m).2 =
      (instr.run order (m.fetched answer)).2.tick m.nextOpcode := emulateCPU_of_decode hd
  rw [hrun, numBytes_of_decode hd]
  constructor
  · intro ha
    obtain ⟨stray, hstray, hfed⟩ := instr.run_feeds order (m.fetched answer)
    rw [fetched_traced m ha, fetched_bytesFrom] at hfed
    -- the only opcode byte that is zero is `BRK`'s, and `BRK` reads no operand
    by_cases hzero : m.nextOpcode = 0
    · have hbrk : instr = .brk := by
        rw [hzero] at hd
        exact (Option.some.inj hd).symm
      have hnil : stray = [] := by
        by_contra hne
        have := (hstray hne).1
        rw [hbrk] at this
        cases this
      subst hbrk hnil
      have htook := Traced.Took.nil
        ⟨answer, m.nextOpcode, fun _ => 0, 0, m.registers, m.totalCPUCycles⟩
      have hle : 0 + ([] : List U8).length ≤ 2 := by decide
      exact stepTraced_of_took hle (numBytes_of_decode hd) (hfed ▸ htook)
    · have htook := foldl_feed (m.bytesFrom (m.registers.programCounter + 1)
        instr.operandLength ++ stray)
        ⟨answer, m.nextOpcode, fun _ => 0, 0, m.registers, m.totalCPUCycles⟩ hzero
      refine stepTraced_of_took (n := instr.operandLength) ?_ (numBytes_of_decode hd)
        (hfed ▸ htook)
      by_cases hne : stray = []
      · rw [hne]
        exact instr.operandLength_le
      · obtain ⟨rfl, hone⟩ := hstray hne
        rw [hone]
        decide
  · intro hj
    have hpc := instr.run_advances order (jumps_of_decode hd hj) (m.fetched answer)
    have hsum : m.registers.programCounter + 1 + BitVec.ofNat 16 instr.operandLength =
        m.registers.programCounter + BitVec.ofNat 16 (instr.operandLength + 1) := by bv_omega
    exact hpc.trans hsum

/-- `LDA $1234`. -/
def loadMachine : Machine := .ofProgram [0xAD, 0x34, 0x12] ⟨0, 0, 0, 0, 0xFD, 0⟩

theorem step_agrees_with_table_load :
    StepTraced loadMachine (emulateCPU .leftFirst 1 loadMachine).2 1 ∧
      (emulateCPU .leftFirst 1 loadMachine).2.registers.programCounter = 0x8003 := by
  obtain ⟨htraced, hpc⟩ := step_agrees_with_table .leftFirst 1 loadMachine rfl
  exact ⟨htraced (by decide), hpc (by decide)⟩

end KernelNES.Emulator
