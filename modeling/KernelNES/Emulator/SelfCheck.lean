import KernelNES.Emulator.Fetch

/-!
# Emulator — SelfCheck

The `DEBUG` self-check: after each instruction `compare_with_table` compares what `debug_tracker`
noted with the opcode's row.  What a case notes is fixed but for one thing, whether its operand was
read away from the program counter (`Instr.run_tracks`); so for each opcode it is known when the
check says nothing (`silent_iff`).
-/

namespace KernelNES.Emulator
open KernelNES.Lib

/-! ### What is noted -/

namespace MemRegAccess

/-- Nothing noted. -/
def none : MemRegAccess := ⟨0, 0, false, false⟩

/-- A register read. -/
def reads (bit : U8) : MemRegAccess := ⟨bit, 0, false, false⟩

/-- A register written. -/
def writes (bit : U8) : MemRegAccess := ⟨0, bit, false, false⟩

/-- Memory read, and noted or not. -/
def memRead (noted : Bool) : MemRegAccess := ⟨0, 0, noted, false⟩

/-- Memory written. -/
def memWrite : MemRegAccess := ⟨0, 0, false, true⟩

/-- What is noted by one and the other. -/
def or (s t : MemRegAccess) : MemRegAccess where
  regReadBitflag := s.regReadBitflag ||| t.regReadBitflag
  regWriteBitflag := s.regWriteBitflag ||| t.regWriteBitflag
  readsMem := s.readsMem || t.readsMem
  writesMem := s.writesMem || t.writesMem

@[simp] theorem or_none (t : MemRegAccess) : t.or none = t := by
  simp [or, none]

@[simp] theorem none_or (t : MemRegAccess) : none.or t = t := by
  simp [or, none]

theorem or_assoc (s t u : MemRegAccess) : (s.or t).or u = s.or (t.or u) := by
  simp [or, BitVec.or_assoc, Bool.or_assoc]

end MemRegAccess

open MemRegAccess in
/-- `x` notes `t`, which may depend on the state it starts from. -/
def Tracks {α : Type} (t : Machine → MemRegAccess) (x : CPU α) : Prop := ∀ m,
  (x m).2.debugTracker = m.debugTracker.or (t m)

namespace Tracks
variable {α β : Type} {x : CPU α} {y : α → CPU β} {t : Machine → MemRegAccess}
  {c d : MemRegAccess}

/-- What leaves the tracker alone notes nothing. -/
theorem of_preserves (h : Preserves Machine.debugTracker x) :
    Tracks (fun _ => MemRegAccess.none) x :=
  fun m => (h m).trans (MemRegAccess.or_none _).symm

/-- A sequence whose second part always notes the same. -/
theorem bind (hx : Tracks t x) (hy : ∀ a, Tracks (fun _ => d) (y a)) :
    Tracks (fun m => (t m).or d) (x >>= y) := by
  intro m
  have h := hy (x m).1 (x m).2
  rw [hx m, MemRegAccess.or_assoc] at h
  exact h

/-- A sequence from one state, where the second part notes `d` of what the first leaves. -/
theorem bind_at (hx : Tracks (fun _ => c) x) (m : Machine)
    (hy : (y (x m).1 (x m).2).2.debugTracker = (x m).2.debugTracker.or d) :
    ((x >>= y) m).2.debugTracker = m.debugTracker.or (c.or d) := by
  rw [hx m, MemRegAccess.or_assoc] at hy
  exact hy

/-- A sequence whose second part's notes differ in what the first part has noted already. -/
theorem absorb (hx : Tracks (fun _ => c) x)
    (hy : ∀ a m, ∃ e, c.or e = d ∧ (y a m).2.debugTracker = m.debugTracker.or e) :
    Tracks (fun _ => d) (x >>= y) := by
  intro m
  obtain ⟨e, rfl, he⟩ := hy (x m).1 (x m).2
  exact hx.bind_at m he

/-- A sequence whose first part notes nothing and keeps what the second part's notes depend on. -/
theorem preserves_bind (hx : Preserves Machine.debugTracker x) (hy : ∀ a, Tracks t (y a))
    (ht : ∀ m, t (x m).2 = t m) : Tracks t (x >>= y) := by
  intro m
  have h := hy (x m).1 (x m).2
  rw [hx m, ht m] at h
  exact h

theorem ite {p : Prop} [Decidable p] {x' : CPU α} (hx : Tracks t x) (hx' : Tracks t x') :
    Tracks t (if p then x else x') := by
  split
  · exact hx
  · exact hx'

/-- Notes that are equal in every state. -/
theorem congr {t' : Machine → MemRegAccess} (h : Tracks t x) (ht : ∀ m, t m = t' m) :
    Tracks t' x := fun m => (h m).trans (congrArg m.debugTracker.or (ht m))

end Tracks

theorem trackRead_tracks (bit : U8) : Tracks (fun _ => .reads bit) (trackRead bit) := by
  intro m
  show { m.debugTracker with regReadBitflag := m.debugTracker.regReadBitflag ||| bit } = _
  simp [MemRegAccess.or, MemRegAccess.reads]

theorem trackWrite_tracks (bit : U8) : Tracks (fun _ => .writes bit) (trackWrite bit) := by
  intro m
  show { m.debugTracker with regWriteBitflag := m.debugTracker.regWriteBitflag ||| bit } = _
  simp [MemRegAccess.or, MemRegAccess.writes]

/-- A read is noted, unless its address is the program counter. -/
theorem emuRead_tracks (a : U16) :
    Tracks (fun m => .memRead (a ≠ m.registers.programCounter)) (emuRead a) := by
  intro m
  show (if a ≠ m.registers.programCounter then { m.debugTracker with readsMem := true }
    else m.debugTracker) = _
  split
  · rename_i h
    simp [MemRegAccess.or, MemRegAccess.memRead, h]
  · rename_i h
    simp [MemRegAccess.or, MemRegAccess.memRead, not_not.mp h]

/-- A write is noted. -/
theorem emuWrite_tracks (a : U16) (v : U8) : Tracks (fun _ => .memWrite) (emuWrite a v) := by
  intro m
  show { m.debugTracker with writesMem := true } = _
  simp [MemRegAccess.or, MemRegAccess.memWrite]

/-- What one push notes. -/
def MemRegAccess.push : MemRegAccess := ⟨regBitStack, regBitStack, false, true⟩

/-- What one pull notes: the read of memory is taken back. -/
def MemRegAccess.pull : MemRegAccess := ⟨regBitStack, regBitStack, false, false⟩

theorem pushStack_tracks (v : U8) : Tracks (fun _ => .push) (pushStack v) := by
  intro m
  show MemRegAccess.mk _ _ _ _ = _
  simp [MemRegAccess.or, MemRegAccess.push]

theorem pullStack_tracks : Tracks (fun _ => .pull) pullStack := by
  intro m
  -- the read itself is the only thing not fixed, and it is noted in `readsMem` only
  have hread := emuRead_tracks (stackAddress (m.registers.stackPointer + 1))
    { m with registers := { m.registers with stackPointer := m.registers.stackPointer + 1 } }
  have hpull : (pullStack m).2.debugTracker =
      ⟨(emuRead (stackAddress (m.registers.stackPointer + 1))
          { m with registers := { m.registers with
              stackPointer := m.registers.stackPointer + 1 } }).2.debugTracker.regReadBitflag |||
            regBitStack,
        (emuRead (stackAddress (m.registers.stackPointer + 1))
          { m with registers := { m.registers with
              stackPointer := m.registers.stackPointer + 1 } }).2.debugTracker.regWriteBitflag |||
            regBitStack,
        m.debugTracker.readsMem,
        (emuRead (stackAddress (m.registers.stackPointer + 1))
          { m with registers := { m.registers with
              stackPointer := m.registers.stackPointer + 1 } }).2.debugTracker.writesMem⟩ := rfl
  rw [hpull, hread]
  simp [MemRegAccess.or, MemRegAccess.pull, MemRegAccess.memRead]

/-! ### Registers and operands -/

/-- The bit of the register. -/
def Reg.bit : Reg → U8
  | .A => regBitA
  | .X => regBitX
  | .Y => regBitY

/-- Reading a register notes its bit. -/
theorem Reg.get_tracks (reg : Reg) : Tracks (fun _ => .reads reg.bit) reg.get := by
  cases reg <;> exact ((trackRead_tracks _).bind fun _ =>
    .of_preserves fun _ => rfl).congr fun _ => MemRegAccess.or_none _

/-- Setting a register notes its bit. -/
theorem Reg.set_tracks (reg : Reg) (v : U8) : Tracks (fun _ => .writes reg.bit) (reg.set v) := by
  cases reg <;> exact ((trackWrite_tracks _).bind fun _ =>
    .of_preserves fun _ => rfl).congr fun _ => MemRegAccess.or_none _

theorem regStatus_tracks : Tracks (fun _ => .reads regBitStatus) regStatus :=
  ((trackRead_tracks _).bind fun _ => .of_preserves fun _ => rfl).congr
    fun _ => MemRegAccess.or_none _

theorem stackPointer_tracks : Tracks (fun _ => .reads regBitStack) stackPointer :=
  ((trackRead_tracks _).bind fun _ => .of_preserves fun _ => rfl).congr
    fun _ => MemRegAccess.or_none _

theorem setStatusRegister_tracks (v : U8) :
    Tracks (fun _ => .writes regBitStatus) (setStatusRegister v) :=
  ((trackWrite_tracks _).bind fun _ => .of_preserves fun _ => rfl).congr
    fun _ => MemRegAccess.or_none _

theorem setSP_tracks (v : U8) : Tracks (fun _ => .writes regBitStack) (setSP v) :=
  ((trackWrite_tracks _).bind fun _ => .of_preserves fun _ => rfl).congr
    fun _ => MemRegAccess.or_none _

theorem setStatusFlag_tracks (flag : U8) (c : Bool) :
    Tracks (fun _ => .writes regBitStatus) (setStatusFlag flag c) :=
  .preserves_bind (fun _ => rfl) (fun _ => trackWrite_tracks _) fun _ => rfl

theorem setZeroNegative_tracks (v : U8) :
    Tracks (fun _ => .writes regBitStatus) (setZeroNegative v) :=
  ((setStatusFlag_tracks _ _).bind fun _ => setStatusFlag_tracks _ _).congr fun _ => rfl

/-- Every read or write of `A` by the three operations, which differ in what they note. -/
def LogicOp.access : LogicOp → MemRegAccess
  | .ora        => .writes regBitA
  | .eor | .and => ⟨regBitA, regBitA, false, false⟩

/-- What a logical operation notes. -/
theorem LogicOp.run_tracks (op : LogicOp) (v : U8) : Tracks (fun _ => op.access) (op.run v) := by
  cases op with
  | ora =>
    exact ((trackWrite_tracks _).bind fun _ => .of_preserves fun _ => rfl).congr
      fun _ => MemRegAccess.or_none _
  | eor | and =>
    exact ((trackRead_tracks _).bind fun _ => (trackWrite_tracks _).bind fun _ =>
      .of_preserves fun _ => rfl).congr fun _ => rfl

/-- A read at the program counter is not noted. -/
theorem emuRead_programCounter (m : Machine) :
    (emuRead m.registers.programCounter m).2.debugTracker = m.debugTracker := by
  have h := emuRead_tracks m.registers.programCounter m
  simp only [ne_eq, not_true_eq_false, decide_false] at h
  exact h.trans (MemRegAccess.or_none _)

theorem readIncrementPC_tracks : Tracks (fun _ => .none) readIncrementPC :=
  .of_preserves emuRead_programCounter

theorem readPC_tracks : Tracks (fun _ => .none) readPC :=
  .of_preserves emuRead_programCounter

/-- What computing the address notes. -/
def Addressing.access : Addressing → MemRegAccess
  | .zeroPage | .absolute   => .none
  | .zeroPageX | .absoluteX => .reads regBitX
  | .indirectX              => ⟨regBitX, 0, true, false⟩
  | .indirectY              => ⟨regBitY, 0, true, false⟩

/-- A read of a two-byte pointer is always noted: the program counter is at one of its bytes at
most. -/
theorem pointer_tracks {α : Type} {c : MemRegAccess} (a : U16) {y : U8 → U8 → CPU α}
    (hy : ∀ lowbyte highbyte, Tracks (fun _ => c) (y lowbyte highbyte)) :
    Tracks (fun _ => (MemRegAccess.memRead true).or c) (do
      let lowbyte ← emuRead a
      let highbyte ← emuRead (a + 1)
      y lowbyte highbyte) := by
  intro m
  have h₁ := emuRead_tracks a m
  have h₂ := emuRead_tracks (a + 1) (emuRead a m).2
  have h₃ := hy (emuRead a m).1 (emuRead (a + 1) (emuRead a m).2).1
    (emuRead (a + 1) (emuRead a m).2).2
  rw [h₂, h₁] at h₃
  dsimp only at h₃
  have hpc : (emuRead a m).2.registers.programCounter = m.registers.programCounter := rfl
  have hone : (decide (a ≠ m.registers.programCounter) ||
      decide (a + 1 ≠ m.registers.programCounter)) = true := by
    simp only [Bool.or_eq_true, decide_eq_true_eq]
    by_contra hboth
    obtain ⟨h, h'⟩ := not_or.mp hboth
    rw [not_not.mp h] at h'
    exact h' (by bv_omega)
  have hread : (MemRegAccess.memRead (a ≠ m.registers.programCounter)).or
      (.memRead (a + 1 ≠ m.registers.programCounter)) = .memRead true := by
    simp only [MemRegAccess.or, MemRegAccess.memRead, hone]
    rfl
  rw [hpc, MemRegAccess.or_assoc m.debugTracker, hread, MemRegAccess.or_assoc] at h₃
  exact h₃

/-- What computing an address notes. -/
theorem Addressing.get_tracks (addr : Addressing) : Tracks (fun _ => addr.access) addr.get := by
  cases addr with
  | zeroPage => exact readIncrementPC_tracks.bind fun _ => .of_preserves fun _ => rfl
  | zeroPageX =>
    exact ((Reg.get_tracks .X).bind fun _ => readIncrementPC_tracks.bind fun _ =>
      .of_preserves fun _ => rfl).congr fun _ => rfl
  | absolute =>
    exact (readIncrementPC_tracks.bind fun _ => readIncrementPC_tracks.bind fun _ =>
      .of_preserves fun _ => rfl).congr fun _ => rfl
  | absoluteX =>
    exact (readIncrementPC_tracks.bind fun _ => readIncrementPC_tracks.bind fun _ =>
      (Reg.get_tracks .X).bind fun _ => .of_preserves fun _ => rfl).congr fun _ => rfl
  | indirectX =>
    exact (readIncrementPC_tracks.bind fun _ => (Reg.get_tracks .X).bind fun _ =>
      pointer_tracks _ fun _ _ => .of_preserves fun _ => rfl).congr fun _ => rfl
  | indirectY =>
    exact (readIncrementPC_tracks.bind fun _ => pointer_tracks _ fun _ _ =>
      (Reg.get_tracks .Y).bind fun _ => .of_preserves fun _ => rfl).congr fun _ => rfl

/-- The operand is not at the byte behind the instruction. -/
def Machine.away (m : Machine) (addr : Addressing) : Bool :=
  m.operandAddress addr.mode m.registers.programCounter ≠
    m.registers.programCounter + BitVec.ofNat 16 addr.length

/-- Computing an address and reading there. -/
theorem operand_tracks (addr : Addressing) :
    Tracks (fun m => addr.access.or (.memRead (m.away addr))) (do emuRead (← addr.get)) := by
  intro m
  show (emuRead (addr.get m).1 (addr.get m).2).2.debugTracker = _
  rw [emuRead_tracks (addr.get m).1 (addr.get m).2]
  dsimp only
  rw [addr.get_tracks m, addr.get_value, addr.get_advances m, MemRegAccess.or_assoc]
  rfl

/-- What a case whose operand is at `addr` notes, when it notes `c` with the value. -/
theorem operand_bind_tracks {α : Type} {c : MemRegAccess} (addr : Addressing)
    {y : U16 → U8 → CPU α} (hy : ∀ a v, Tracks (fun _ => c) (y a v)) :
    Tracks (fun m => (addr.access.or (.memRead (m.away addr))).or c) (do
      let address ← addr.get
      let v ← emuRead address
      y address v) := by
  intro m
  have h := hy (addr.get m).1 (emuRead (addr.get m).1 (addr.get m).2).1
    (emuRead (addr.get m).1 (addr.get m).2).2
  have hread := operand_tracks addr m
  rw [show (emuRead (addr.get m).1 (addr.get m).2).2.debugTracker =
    m.debugTracker.or (addr.access.or (.memRead (m.away addr))) from hread,
    MemRegAccess.or_assoc] at h
  exact h

/-! ### Every case -/

/-- The operand of a case that reads it at an address. -/
def Instr.operandRead : Instr → Option Addressing
  | .load _ (.memory addr) | .rmw _ addr | .logic _ addr | .arith _ (.memory addr)
  | .compare _ (.memory addr) | .bit addr => some addr
  | _ => none

/-- What reading an operand notes, when a read at an address is `away` from the program counter. -/
def Operand.access (away : Bool) : Operand → MemRegAccess
  | .immediate   => .none
  | .memory addr => addr.access.or (.memRead away)

/-- What the operation notes. -/
def RmwOp.access : RmwOp → MemRegAccess
  | .asl | .lsr | .inc | .dec => ⟨0, regBitStatus, false, true⟩
  | .rol | .ror               => ⟨regBitStatus, regBitStatus, false, true⟩

/-- What a case notes. -/
def Instr.access (away : Bool) : Instr → MemRegAccess
  | .hlt | .jmp | .nop => .none
  | .load reg operand => (operand.access away).or ⟨0, reg.bit ||| regBitStatus, false, false⟩
  | .store reg addr => addr.access.or ⟨reg.bit, 0, false, true⟩
  | .branch _ _ => .reads regBitStatus
  | .pha => (MemRegAccess.reads regBitA).or .push
  | .pla => MemRegAccess.pull.or ⟨0, regBitA ||| regBitStatus, false, false⟩
  | .jsr => MemRegAccess.push
  | .rts => MemRegAccess.pull
  | .jmpIndirect => .memRead true
  | .increment reg | .decrement reg => ⟨reg.bit, reg.bit ||| regBitStatus, false, false⟩
  | .transfer dst src => ⟨src.bit, dst.bit ||| regBitStatus, false, false⟩
  | .txs => ⟨regBitX, regBitStack, false, false⟩
  | .tsx => ⟨regBitStack, regBitX ||| regBitStatus, false, false⟩
  | .setFlag _ _ => .writes regBitStatus
  | .php => (MemRegAccess.reads regBitStatus).or .push
  | .plp => MemRegAccess.pull.or (.writes regBitStatus)
  | .aslA | .lsrA => ⟨regBitA, regBitA ||| regBitStatus, false, false⟩
  | .rolA => ⟨regBitA ||| regBitStatus, regBitA ||| regBitStatus, false, false⟩
  | .rmw op addr => (addr.access.or (.memRead away)).or op.access
  | .logicImmediate op => op.access.or (.writes regBitStatus)
  | .logic op addr =>
      (addr.access.or (.memRead away)).or (op.access.or ⟨0, regBitStatus, false, true⟩)
  | .arith _ operand =>
      (operand.access away).or
        ⟨regBitA ||| regBitStatus, regBitA ||| regBitStatus, false, false⟩
  | .compare reg operand => (operand.access away).or ⟨reg.bit, regBitStatus, false, false⟩
  | .bit addr => (addr.access.or (.memRead away)).or ⟨regBitA, regBitStatus, false, false⟩
  | .brk => ⟨regBitStatus ||| regBitStack, regBitStack, true, true⟩
  | .rti => MemRegAccess.pull.or (.writes regBitStatus)

/-- Whether the operand of a case is read away from the program counter. -/
def Instr.away (instr : Instr) (m : Machine) : Bool :=
  match instr.operandRead with
  | some addr => m.away addr
  | none      => true

/-- Reading an operand of either kind, and then noting `c`. -/
theorem Operand.get_bind_tracks {α : Type} {c : MemRegAccess} (operand : Operand) {y : U8 → CPU α}
    (hy : ∀ v, Tracks (fun _ => c) (y v)) :
    Tracks (fun m =>
      (operand.access (match operand with | .immediate => true | .memory addr => m.away addr)).or c)
      (operand.get >>= y) := by
  cases operand with
  | immediate => exact readIncrementPC_tracks.bind hy
  | memory addr => exact operand_bind_tracks addr fun _ v => hy v

/-- What an operation in place notes. -/
theorem RmwOp.run_tracks (op : RmwOp) (v : U8) (a : U16) :
    Tracks (fun _ => op.access) (op.run v a) := by
  cases op with
  | asl | lsr =>
    exact ((setStatusFlag_tracks _ _).bind fun _ => (emuWrite_tracks _ _).bind fun _ =>
      setZeroNegative_tracks _).congr fun _ => rfl
  | rol | ror =>
    exact (regStatus_tracks.bind fun _ => (emuWrite_tracks _ _).bind fun _ =>
      (setStatusFlag_tracks _ _).bind fun _ => setZeroNegative_tracks _).congr fun _ => rfl
  | inc | dec =>
    exact ((emuWrite_tracks _ _).bind fun _ => setZeroNegative_tracks _).congr fun _ => rfl

/-- What `ADC` and `SBC` note. -/
theorem ArithOp.run_tracks (order : EvalOrder) (op : ArithOp) (v : U8) :
    Tracks (fun _ => ⟨regBitA ||| regBitStatus, regBitA ||| regBitStatus, false, false⟩)
      (op.run order v) := by
  have hxor : ∀ a b, Tracks (fun _ => ⟨regBitA, regBitA, false, false⟩)
      (evalOperands order (bitXORA a) (bitXORA b)) := by
    intro a b
    cases order <;> exact ((LogicOp.run_tracks .eor _).bind fun _ =>
      (LogicOp.run_tracks .eor _).bind fun _ => .of_preserves fun _ => rfl).congr fun _ => rfl
  cases op <;> exact ((Reg.get_tracks .A).bind fun _ => regStatus_tracks.bind fun _ =>
    (hxor _ _).bind fun _ => (setStatusFlag_tracks _ _).bind fun _ =>
      (setStatusFlag_tracks _ _).bind fun _ => (Reg.set_tracks .A _).bind fun _ =>
        setZeroNegative_tracks _).congr fun _ => rfl

/-- `JSR` and `BRK` push words and bytes one after the other. -/
theorem jsrBody_tracks : Tracks (fun _ => .push) jsrBody :=
  (readIncrementPC_tracks.bind fun _ => readPC_tracks.bind fun _ =>
    .preserves_bind (fun _ => rfl) (fun _ => (pushStack_tracks _).bind fun _ =>
      .preserves_bind (fun _ => rfl) (fun _ => (pushStack_tracks _).bind fun _ =>
        .of_preserves fun _ => rfl) fun _ => rfl) fun _ => rfl).congr fun _ => rfl

/-- What `BRK` notes. -/
theorem brkBody_tracks :
    Tracks (fun _ => ⟨regBitStatus ||| regBitStack, regBitStack, true, true⟩) brkBody := by
  have hlast : Tracks (fun _ => (MemRegAccess.memRead true).or .none) (do
      let lowbyte ← emuRead 0xFFFE
      let highbyte ← emuRead 0xFFFF
      let _ ← setPC (word highbyte lowbyte)) :=
    pointer_tracks 0xFFFE fun _ _ => .of_preserves fun _ => rfl
  refine Tracks.congr (.preserves_bind (fun _ => rfl) (fun _ => .preserves_bind (fun _ => rfl)
    (fun _ => (pushStack_tracks _).bind fun _ => .preserves_bind (fun _ => rfl)
      (fun _ => (pushStack_tracks _).bind fun _ => regStatus_tracks.bind fun _ =>
        (pushStack_tracks _).bind fun _ => hlast) fun _ => rfl) fun _ => rfl) fun _ => rfl)
    fun _ => rfl

theorem pullPC_tracks : Tracks (fun _ => .pull) pullPC :=
  (pullStack_tracks.bind fun _ => pullStack_tracks.bind fun _ => .of_preserves fun _ => rfl).congr
    fun _ => rfl

theorem lsrABody_tracks :
    Tracks (fun _ => ⟨regBitA, regBitA ||| regBitStatus, false, false⟩) lsrABody := by
  have hrest : Tracks (fun _ => ⟨regBitA, regBitA ||| regBitStatus, false, false⟩) (do
      let result ← setARegister ((← regA) >>> 1)
      setZeroNegative result) :=
    ((Reg.get_tracks .A).bind fun _ => (Reg.set_tracks .A _).bind fun _ =>
      setZeroNegative_tracks _).congr fun _ => rfl
  exact ((Reg.get_tracks .A).bind fun _ => .ite
    (((setStatusFlag_tracks _ _).bind fun _ => hrest).congr fun _ => rfl) hrest).congr fun _ => rfl

theorem rolABody_tracks :
    Tracks (fun _ => ⟨regBitA ||| regBitStatus, regBitA ||| regBitStatus, false, false⟩)
      rolABody := by
  refine ((Reg.get_tracks .A).bind fun carry => (Reg.get_tracks .A).bind fun a =>
    (Reg.set_tracks .A _).absorb (d := ⟨regBitStatus, regBitA ||| regBitStatus, false, false⟩)
      fun result m => ?_).congr fun _ => rfl
  have hrest : ∀ v : U8, Tracks (fun _ => .writes regBitStatus) (do
      setStatusFlag flagCarry (decide (carry &&& 0x80 ≠ 0))
      setZeroNegative v) :=
    fun v => ((setStatusFlag_tracks _ _).bind fun _ => setZeroNegative_tracks v).congr fun _ => rfl
  -- the carry that comes in is written to the accumulator a second time
  by_cases hcarry : m.registers.flags &&& flagCarry ≠ 0
  · refine ⟨(MemRegAccess.reads regBitStatus).or ((MemRegAccess.writes regBitA).or
      (.writes regBitStatus)), rfl, ?_⟩
    exact regStatus_tracks.bind_at m <| (if_pos hcarry).symm ▸
      ((LogicOp.run_tracks .ora _).bind hrest) _
  · refine ⟨(MemRegAccess.reads regBitStatus).or (.writes regBitStatus), rfl, ?_⟩
    exact regStatus_tracks.bind_at m <| (if_neg hcarry).symm ▸ hrest result _

/-- **What every case notes.** -/
theorem Instr.run_tracks (order : EvalOrder) (instr : Instr) :
    Tracks (fun m => instr.access (instr.away m)) (instr.run order) := by
  cases instr with
  | hlt | nop => exact .of_preserves fun _ => rfl
  | jmp => exact (Addressing.get_tracks .absolute).bind fun _ => .of_preserves fun _ => rfl
  | load reg operand =>
    refine (operand.get_bind_tracks fun v => (reg.set_tracks v).bind fun _ =>
      setZeroNegative_tracks _).congr fun m => ?_
    cases operand <;> cases reg <;> rfl
  | store reg addr =>
    refine (addr.get_tracks.bind fun _ => reg.get_tracks.bind fun _ =>
      emuWrite_tracks _ _).congr fun _ => ?_
    cases reg <;> rfl
  | branch flag wanted =>
    exact (readIncrementPC_tracks.bind fun _ => regStatus_tracks.bind fun _ =>
      .of_preserves (.ite (fun _ => rfl) fun _ => rfl)).congr fun _ => rfl
  | pha => exact (Reg.get_tracks .A).bind fun _ => pushStack_tracks _
  | pla =>
    exact (pullStack_tracks.bind fun _ => (Reg.set_tracks .A _).bind fun _ =>
      setZeroNegative_tracks _).congr fun _ => rfl
  | jsr => exact jsrBody_tracks
  | rts =>
    exact (pullPC_tracks.bind fun _ => readIncrementPC_tracks.bind fun _ =>
      .of_preserves fun _ => rfl).congr fun _ => rfl
  | jmpIndirect =>
    exact ((Addressing.get_tracks .absolute).bind fun a => pointer_tracks a fun _ _ =>
      .of_preserves fun _ => rfl).congr fun _ => rfl
  | increment reg | decrement reg =>
    refine (reg.get_tracks.bind fun _ => (reg.set_tracks _).bind fun _ =>
      setZeroNegative_tracks _).congr fun _ => ?_
    cases reg <;> rfl
  | transfer dst src =>
    refine (src.get_tracks.bind fun _ => (dst.set_tracks _).bind fun _ =>
      setZeroNegative_tracks _).congr fun _ => ?_
    cases dst <;> cases src <;> rfl
  | txs =>
    exact ((Reg.get_tracks .X).bind fun _ => (setSP_tracks _).bind fun _ =>
      .of_preserves fun _ => rfl).congr fun _ => rfl
  | tsx =>
    exact (stackPointer_tracks.bind fun _ => (Reg.set_tracks .X _).bind fun _ =>
      setZeroNegative_tracks _).congr fun _ => rfl
  | setFlag flag value => exact setStatusFlag_tracks flag value
  | php => exact regStatus_tracks.bind fun _ => pushStack_tracks _
  | plp =>
    exact (pullStack_tracks.bind fun _ => (setStatusRegister_tracks _).bind fun _ =>
      .of_preserves fun _ => rfl).congr fun _ => rfl
  | aslA =>
    exact ((Reg.get_tracks .A).bind fun _ => (setStatusFlag_tracks _ _).bind fun _ =>
      (Reg.get_tracks .A).bind fun _ => (Reg.set_tracks .A _).bind fun _ =>
        setZeroNegative_tracks _).congr fun _ => rfl
  | lsrA => exact lsrABody_tracks
  | rolA => exact rolABody_tracks
  | rmw op addr => exact operand_bind_tracks addr fun a v => op.run_tracks v a
  | logicImmediate op =>
    exact (readIncrementPC_tracks.bind fun v => (op.run_tracks v).bind fun _ =>
      setZeroNegative_tracks _).congr fun _ => MemRegAccess.none_or _
  | logic op addr =>
    exact (operand_bind_tracks addr fun a v => (op.run_tracks v).bind fun t =>
      (emuWrite_tracks a t).bind fun _ => setZeroNegative_tracks _).congr fun _ => rfl
  | arith op operand =>
    refine (operand.get_bind_tracks fun v => op.run_tracks order v).congr fun m => ?_
    cases operand <;> rfl
  | compare reg operand =>
    refine (operand.get_bind_tracks fun v => reg.get_tracks.bind fun w =>
      (setStatusFlag_tracks _ _).bind fun _ => (setStatusFlag_tracks _ _).bind fun _ =>
        setStatusFlag_tracks _ _).congr fun m => ?_
    cases operand <;> cases reg <;> rfl
  | bit addr =>
    exact (operand_bind_tracks addr fun a v => (Reg.get_tracks .A).bind fun _ =>
      (setStatusFlag_tracks _ _).bind fun _ => (setStatusFlag_tracks _ _).bind fun _ =>
        setStatusFlag_tracks _ _).congr fun _ => rfl
  | brk => exact brkBody_tracks
  | rti =>
    exact (pullStack_tracks.bind fun _ => (setStatusRegister_tracks _).bind fun _ =>
      pullPC_tracks).congr fun _ => rfl

/-! ### `compare_with_table` -/

/-- What `print`, `print_hex8` and `print_hex16` are called with. -/
inductive Printed where
  | text (s : String)
  | hex8 (value : U8)
  | hex16 (value : U16)
  deriving DecidableEq

/-- `ACCESS_TYPE`. -/
inductive AccessType where
  | read
  | write
  deriving DecidableEq

/-- The `type_string` of `check_register_access`. -/
def AccessType.typeString : AccessType → String
  | .read  => "read"
  | .write => "write"

/-- The `regs` of `check_register_access`. -/
def checkedRegisters : List (U8 × String) :=
  [(regBitStatus, "status"), (regBitStack, "stack"), (regBitY, "Y"), (regBitX, "X"), (regBitA, "A")]

/-- `check_memory_read`. -/
def checkMemoryRead (tracker : MemRegAccess) (table : OpcodeEntry) : List Printed :=
  if tracker.readsMem ≠ table.readsMem then
    [.text (if table.readsMem then "Instruction should read from memory, but doesn't.\n"
      else "Instruction shouldn't read from memory, but does.\n")]
  else []

/-- `check_memory_write`. -/
def checkMemoryWrite (tracker : MemRegAccess) (table : OpcodeEntry) : List Printed :=
  if tracker.writesMem ≠ table.writesMem then
    [.text (if table.writesMem then "Instruction should write to memory, but doesn't.\n"
      else "Instruction shouldn't write to memory, but does.\n")]
  else []

/-- `check_register_access`. -/
def checkRegisterAccess (type : AccessType) (actual tableReference : U8) : List Printed :=
  checkedRegisters.flatMap fun (mask, name) =>
    if (actual ^^^ tableReference) &&& mask ≠ 0 then
      [.text "Expected "] ++ (if tableReference &&& mask = 0 then [.text "no "] else []) ++
      [.text type.typeString, .text " to ", .text name, .text " register, but "] ++
      (if actual &&& mask = 0 then [.text "no "] else []) ++
      [.text type.typeString, .text " occurred.\n"]
    else []

/-- `print_header`. -/
def printHeader (opcode : U8) (programCounter : U16) : List Printed :=
  [.text "------ PC:", .hex16 programCounter, .text ": 0x", .hex8 opcode, .text " ",
    .text (opcodeTable opcode).mnemonic, .text " ------\n"]

/-- `compare_with_table`: what it prints. -/
def compareWithTable (tracker : MemRegAccess) (opcode : U8) (programCounter : U16) :
    List Printed :=
  let table := opcodeTable opcode
  (if tracker.regReadBitflag ^^^ table.regReadBitflag ≠ 0 ∨
      tracker.regWriteBitflag ^^^ table.regWriteBitflag ≠ 0 ∨
      tracker.readsMem ≠ table.readsMem ∨ tracker.writesMem ≠ table.writesMem then
    printHeader opcode programCounter else []) ++
  checkRegisterAccess .read tracker.regReadBitflag table.regReadBitflag ++
  checkRegisterAccess .write tracker.regWriteBitflag table.regWriteBitflag ++
  checkMemoryRead tracker table ++ checkMemoryWrite tracker table

/-- The four fields of an opcode's row. -/
def tableAccess (opcode : U8) : MemRegAccess :=
  let table := opcodeTable opcode
  ⟨table.regReadBitflag, table.regWriteBitflag, table.readsMem, table.writesMem⟩

/-- The check says nothing exactly when all four fields agree. -/
theorem compareWithTable_eq_nil (tracker : MemRegAccess) (opcode : U8) (programCounter : U16) :
    compareWithTable tracker opcode programCounter = [] ↔ tracker = tableAccess opcode := by
  have hxor : ∀ a b : U8, a ^^^ b ≠ 0 ↔ a ≠ b := fun a b => not_congr BitVec.xor_eq_zero_iff
  constructor
  · intro h
    unfold compareWithTable at h
    simp only [List.append_eq_nil_iff] at h
    by_contra hne
    refine absurd h.1.1.1.1 ?_
    rw [if_pos]
    · exact List.cons_ne_nil _ _
    · by_contra hall
      simp only [hxor, not_or, not_not] at hall
      obtain ⟨h₁, h₂, h₃, h₄⟩ := hall
      obtain ⟨r, w, rm, wm⟩ := tracker
      exact hne (by simp only [tableAccess, ← h₁, ← h₂, ← h₃, ← h₄])
  · rintro rfl
    simp [compareWithTable, tableAccess, checkRegisterAccess, checkMemoryRead, checkMemoryWrite,
      checkedRegisters]

/-! ### When the check is silent -/

/-- The opcodes on whose case and row the four fields never agree: `STA` at `abs,X` and at `(zp,X)`,
`JMP` through a pointer, `DEY`, and `ORA`, `EOR` and `AND` on memory. -/
def mismatchedOpcodes : List U8 :=
  [0x9D, 0x81, 0x6C, 0x88, 0x05, 0x0D, 0x45, 0x4D, 0x25, 0x2D]

/-- The row says that memory is read, and the read is the one of the operand: `BRK` reads its vector
and `STA` at `(zp),Y` its pointer. -/
def ReadsOperand (opcode : U8) : Prop :=
  (opcodeTable opcode).readsMem ∧ opcode ≠ 0x00 ∧ opcode ≠ 0x91

instance (opcode : U8) : Decidable (ReadsOperand opcode) := inferInstanceAs (Decidable (_ ∧ _))

/-- The notes of a case are those of the table, but for the mismatched rows, and for an operand read
at the program counter. -/
theorem access_eq_table_iff {opcode : U8} {instr : Instr} (h : decode opcode = some instr)
    (away : Bool) :
    instr.access away = tableAccess opcode ↔
      opcode ∉ mismatchedOpcodes ∧ (ReadsOperand opcode → away = true) := by
  have hall : ∀ p ∈ switchCases, ∀ away, p.2.access away = tableAccess p.1 ↔
      p.1 ∉ mismatchedOpcodes ∧ (ReadsOperand p.1 → away = true) := by decide +kernel
  exact hall _ (mem_switchCases h) away

/-- The operand a case reads is the one its row names. -/
theorem operandRead_of_decode {opcode : U8} {instr : Instr} (h : decode opcode = some instr)
    (hr : ReadsOperand opcode) (hm : opcode ∉ mismatchedOpcodes) :
    ∃ addr, instr.operandRead = some addr ∧ instr.operandMode = some addr.mode ∧
      addr.length = instr.operandLength := by
  have hall : ∀ p ∈ switchCases, ReadsOperand p.1 → p.1 ∉ mismatchedOpcodes →
      p.2.operandRead.any fun addr => p.2.operandMode = some addr.mode ∧
        addr.length = p.2.operandLength := by decide +kernel
  obtain ⟨addr, haddr, h⟩ := (Option.any_eq_true _ _).mp (hall _ (mem_switchCases h) hr hm)
  exact ⟨addr, haddr, decide_eq_true_iff.mp h⟩

/-- **When the self-check is silent.**  After a step, `debug_tracker` is what the opcode's row says
exactly for the opcodes that are not mismatched, and only where the operand is not at the byte
behind the instruction. -/
theorem silent_iff (order : EvalOrder) (answer : Addr) (m : Machine)
    (h : (decode m.nextOpcode).isSome) :
    ((emulateCPU order answer m).2.debugTracker = tableAccess m.nextOpcode ∧
      compareWithTable (emulateCPU order answer m).2.debugTracker m.nextOpcode
        m.registers.programCounter = []) ↔
      m.nextOpcode ∉ mismatchedOpcodes ∧
        (ReadsOperand m.nextOpcode → m.effectiveAddress ≠
          m.registers.programCounter + BitVec.ofNat 16 (opcodeTable m.nextOpcode).numBytes) := by
  obtain ⟨instr, hd⟩ := Option.isSome_iff_exists.mp h
  have hrun : (emulateCPU order answer m).2 =
      (instr.run order (m.fetched answer)).2.tick m.nextOpcode := emulateCPU_of_decode hd
  have hreset : (m.fetched answer).debugTracker = .none :=
    (readIncrementPC_tracks _).trans (MemRegAccess.or_none _)
  have htracker : (emulateCPU order answer m).2.debugTracker =
      instr.access (instr.away (m.fetched answer)) := by
    rw [hrun]
    refine (instr.run_tracks order (m.fetched answer)).trans ?_
    rw [hreset, MemRegAccess.none_or]
  -- what is left is whether the read of the operand is told apart from a fetch
  rw [compareWithTable_eq_nil, and_self_iff, htracker, access_eq_table_iff hd]
  refine and_congr_right fun hm => imp_congr_right fun hr => ?_
  obtain ⟨addr, haddr, hmode, hlen⟩ := operandRead_of_decode hd hr hm
  have haway : instr.away (m.fetched answer) = (m.fetched answer).away addr := by
    unfold Instr.away
    rw [haddr]
  have hpc : (m.fetched answer).registers.programCounter + BitVec.ofNat 16 addr.length =
      m.registers.programCounter + BitVec.ofNat 16 (opcodeTable m.nextOpcode).numBytes := by
    rw [numBytes_of_decode hd, hlen]
    show m.registers.programCounter + 1 + _ = _
    bv_omega
  rw [haway, Machine.away, decide_eq_true_iff, operandAddress_of_decode hd hmode, hpc]

/-- `LDA $10`: the check says nothing. -/
theorem silent_lda :
    (emulateCPU .leftFirst 1 (.ofProgram [0xA5, 0x10] ⟨0, 0, 0, 0, 0xFD, 0⟩)).2.debugTracker =
        tableAccess 0xA5 ∧
      compareWithTable
        (emulateCPU .leftFirst 1 (.ofProgram [0xA5, 0x10] ⟨0, 0, 0, 0, 0xFD, 0⟩)).2.debugTracker
        0xA5 0x8000 = [] :=
  (silent_iff .leftFirst 1 (.ofProgram [0xA5, 0x10] ⟨0, 0, 0, 0, 0xFD, 0⟩)
    (by decide +kernel)).mpr ⟨by decide +kernel, fun _ => by decide +kernel⟩

/-- `ORA $10`: the check reports that memory is written and `A` not read.  `LDA $8003` at `0x8000`,
whose operand is the byte behind it: memory is read, and not noted. -/
theorem reported_ora :
    (emulateCPU .leftFirst 1 (.ofProgram [0x05, 0x10] ⟨0, 0, 0, 0, 0xFD, 0⟩)).2.debugTracker ≠
        tableAccess 0x05 ∧
      compareWithTable
        (emulateCPU .leftFirst 1 (.ofProgram [0x05, 0x10] ⟨0, 0, 0, 0, 0xFD, 0⟩)).2.debugTracker
        0x05 0x8000 ≠ [] ∧
      (emulateCPU .leftFirst 1
        (.ofProgram [0xAD, 0x03, 0x80] ⟨0, 0, 0, 0, 0xFD, 0⟩)).2.debugTracker ≠
        tableAccess 0xAD := by
  decide +kernel

end KernelNES.Emulator
