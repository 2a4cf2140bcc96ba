import KernelNES.Emulator.Primitives

/-!
# Emulator — Reset

`emu_init` and `emu_reset`, and the hooks of the trace log.  A hook writes through `log_tail`;
`Tracelog.nullHook` records that one ran while it was `NULL`.  No operation clears the record
(`emuRun_keeps`), and `emu_reset` makes one before the first instruction: it reads the two bytes of
the reset vector, and the program counter can be at the address of one of them only
(`resetVector_nullHook`).
-/

namespace KernelNES.Emulator
open KernelNES.Lib

/-! ### `emu_init` and `emu_reset` -/

/-- `FILE_SEEK_MODE`. -/
inductive FileSeekMode where
  | set
  | cur
  | endOfFile
  deriving DecidableEq, Repr

/-- What the emulator uses of `fs/file.h`, over a state `V` of the file layer.  A call returns its
value and the new state, `fread` also the contents of its buffer. -/
structure FileOps (V : Type) where
  fopen : (filename mode : String) → V → Int × V
  fread : (buffer : U16 → U8) → (size nmemb : U32) → (fd : Int) → V → (U16 → U8) × Int × V
  fseek : (fd offset : Int) → FileSeekMode → V → Int × V

section
variable {V : Type} (files : FileOps V)

/-- The part of `emu_reset` for an opened file. -/
def loadFile (fd : Int) (v : V) : CPU V := do
  let (header, _, v) := files.fread (← get).header 0x10 1 fd v
  modify fun m => { m with header }
  let (_, v) := files.fseek fd 0x10 .set v
  let (ROM, _, v) := files.fread (← get).ROM 0x8000 1 fd v
  modify fun m => { m with ROM }
  setStatusFlag flagInterruptDisable true
  pure v

/-- The part of `emu_reset` that reads the reset vector. -/
def resetVector : CPU Unit := do
  let lowbyte ← emuRead 0xFFFC
  let highbyte ← emuRead 0xFFFD
  modifyRegisters fun r => { r with programCounter := word highbyte lowbyte }
  modifyRegisters fun r => { r with stackPointer := 0xFD }

/-- `emu_reset`, with `fuel` rounds of `emu_run`. -/
def emuReset (order : EvalOrder) (fuel : Nat) (answers : Nat → Addr) (v : V) : CPU V := do
  let (fd, v) := files.fopen (← get).filepath "r" v
  let v ← (if fd ≠ 0 then loadFile files fd v else pure v)
  resetVector
  emuRun order fuel answers
  pure v

/-- The state in which `emu_reset` reaches `emu_run`. -/
def resetState (v : V) (m : Machine) : Machine :=
  (emuReset files .leftFirst 0 (fun _ => 0) v m).2

/-- `emu_init`, its allocations succeeding. -/
def emuInit (filepath : String) (order : EvalOrder) (fuel : Nat) (answers : Nat → Addr) (v : V) :
    CPU V := do
  modify fun m =>
    { m with
      RAM := fun _ => 0
      ROM := fun _ => 0
      header := fun _ => 0
      filepath
      totalCPUCycles := 8
      cpuHalted := false }
  emuReset files order fuel answers v

end

/-! ### Properties of the log that no hook breaks -/

/-- Every hook, and `add_tracelog_entry`, keeps `P`. -/
structure HookStable (P : Tracelog → Prop) : Prop where
  operand : ∀ s byte, P s → P (s.tailLogSetOperand byte)
  address : ∀ s address, P s → P (s.tailLogSetAddress address)
  indexedAddress : ∀ s address, P s → P (s.tailLogSetIndexedAddress address)
  written : ∀ s byte, P s → P (s.tailLogSetWrittenValue byte)
  read : ∀ s byte, P s → P (s.tailLogSetReadValue byte)
  entry : ∀ s answer registers cycles, P s → P (s.addTracelogEntry answer registers cycles).2

/-- `x` keeps the property `P` of the log. -/
abbrev KeepsLog (P : Tracelog → Prop) {α : Type} (x : CPU α) : Prop :=
  Keeps (fun m => P m.log) x

namespace HookStable
variable {P : Tracelog → Prop} (h : HookStable P)
include h

/-- What the log keeps through its hooks, a read keeps. -/
theorem emuRead (a : U16) : KeepsLog P (emuRead a) := by
  intro m hm
  show P (if a ≠ m.registers.programCounter then m.log.tailLogSetReadValue _ else m.log)
  split
  · exact h.read _ _ hm
  · exact hm

/-- A write keeps it, too. -/
theorem emuWrite (a : U16) (v : U8) : KeepsLog P (emuWrite a v) := by
  intro m hm
  show P (if a < 0x800 then m.log.tailLogSetWrittenValue v else m.log)
  split
  · exact h.written _ _ hm
  · exact hm

theorem pushStack (v : U8) : KeepsLog P (pushStack v) :=
  fun m hm => h.emuWrite _ v m hm

theorem pullStack : KeepsLog P pullStack :=
  .bind (fun _ hm => hm) fun _ => .bind (fun _ hm => hm) fun _ => .bind (fun _ hm => hm) fun _ =>
    .bind (h.emuRead _) fun _ => fun _ hm => hm

theorem readIncrementPC : KeepsLog P readIncrementPC :=
  .bind (fun _ hm => hm) fun _ => .bind (h.emuRead _) fun _ => .bind (fun _ hm => hm) fun _ =>
    .bind (fun _ hm => h.operand _ _ hm) fun _ => fun _ hm => hm

theorem readPC : KeepsLog P readPC :=
  .bind (fun _ hm => hm) fun _ => .bind (h.emuRead _) fun _ =>
    .bind (fun _ hm => h.operand _ _ hm) fun _ => fun _ hm => hm

/-- Every access keeps `P`, and so does every case. -/
theorem rule : PrimitiveRule (KeepsLog P) where
  pure _ := fun _ hm => hm
  bind hx hy := .bind hx hy
  regGet reg := by cases reg <;> exact fun _ hm => hm
  regSet reg v := by cases reg <;> exact fun _ hm => hm
  logicOp op v := by cases op <;> exact fun _ hm => hm
  regStatus := fun _ hm => hm
  setStatusFlag _ _ _ := fun _ hm => hm
  stackPointer := fun _ hm => hm
  setSP _ := fun _ hm => hm
  programCounter := fun _ hm => hm
  incrementPC := fun _ hm => hm
  setPC _ := fun _ hm => h.address _ _ hm
  readPC := h.readPC
  readIncrementPC := h.readIncrementPC
  emuRead := h.emuRead
  emuWrite := h.emuWrite
  pushStack := h.pushStack
  pullStack := h.pullStack
  setAddress _ := fun _ hm => h.address _ _ hm
  setIndexedAddress _ := fun _ hm => h.indexedAddress _ _ hm
  halt := fun _ hm => hm
  cycle := fun _ hm => hm

/-- A step keeps it, as does the entry it adds. -/
theorem emulateCPU (order : EvalOrder) (answer : Addr) :
    KeepsLog P (emulateCPU order answer) := by
  refine .bind (fun _ hm => hm) fun _ => .bind (fun _ hm => h.entry _ _ _ _ hm) fun _ =>
    h.readIncrementPC.bind fun opcode => .bind (fun _ hm => hm) fun _ => .bind ?_ fun _ =>
      fun _ hm => hm
  cases hd : decode opcode with
  | none => rw [switchOpcode_of_decode_none hd]; exact fun _ hm => hm
  | some i =>
      rw [switchOpcode_of_decode hd]
      exact h.rule.instr order i (fun _ _ e => setFlag_of_decode (e ▸ hd)) fun _ _ _ hm => hm

/-- The whole run keeps it. -/
theorem emuRun (order : EvalOrder) (fuel : Nat) :
    ∀ answers, KeepsLog P (emuRun order fuel answers) := by
  induction fuel with
  | zero => exact fun _ _ hm => hm
  | succ fuel ih =>
      exact fun answers => .bind (fun _ hm => hm) fun _ =>
        .ite ((h.emulateCPU order _).bind fun _ => ih _) fun _ hm => hm

end HookStable

/-! ### A hook with `log_tail` `NULL` -/

theorem modifyTail_nullHook (s : Tracelog) (f : TracelogEntry → TracelogEntry) :
    (s.modifyTail f).nullHook = (s.nullHook || s.logTail = 0) := rfl

/-- A new entry follows no `NULL`. -/
theorem addTracelogEntry_nullHook (s : Tracelog) (answer : Addr) (registers : Registers)
    (cycles : Int) : (s.addTracelogEntry answer registers cycles).2.nullHook = s.nullHook := by
  have hevict : s.evict.nullHook = s.nullHook := by
    unfold Tracelog.evict Tracelog.removeFirstEntry
    split
    · split
      · rfl
      · dsimp only
        split <;> rfl
    · rfl
  have hzalloc : (s.evict.kzalloc answer).nullHook = s.nullHook := by
    unfold Tracelog.kzalloc
    split <;> exact hevict
  unfold Tracelog.addTracelogEntry
  dsimp only
  split
  · exact hzalloc
  · split <;> exact hzalloc

/-- The record of a hook with `log_tail` `NULL` is never cleared. -/
theorem nullHook_stable : HookStable fun s => s.nullHook = true where
  operand s byte h := by
    unfold Tracelog.tailLogSetOperand
    split <;> simp [modifyTail_nullHook, h]
  address s a h := by simp [Tracelog.tailLogSetAddress, modifyTail_nullHook, h]
  indexedAddress s a h := by simp [Tracelog.tailLogSetIndexedAddress, modifyTail_nullHook, h]
  written s b h := by simp [Tracelog.tailLogSetWrittenValue, modifyTail_nullHook, h]
  read s b h := by simp [Tracelog.tailLogSetReadValue, modifyTail_nullHook, h]
  entry s a r c h := by rw [addTracelogEntry_nullHook, h]

/-- Reading the reset vector of an empty log runs a hook: the program counter is not at both of its
bytes. -/
theorem resetVector_nullHook {m : Machine} (h : m.log.logTail = 0) :
    (resetVector m).2.log.nullHook = true := by
  have hread : ∀ (a : U16) (m : Machine), m.log.logTail = 0 → a ≠ m.registers.programCounter →
      (emuRead a m).2.log.nullHook = true := by
    intro a m ht hne
    show (if a ≠ m.registers.programCounter then m.log.tailLogSetReadValue _
      else m.log).nullHook = true
    rw [if_pos hne, Tracelog.tailLogSetReadValue, modifyTail_nullHook, ht]
    simp
  by_cases hlo : (0xFFFC : U16) = m.registers.programCounter
  · -- the first read leaves the log as it is, and the second is elsewhere
    have hlog : (emuRead 0xFFFC m).2.log = m.log := if_neg (not_not.mpr hlo)
    refine hread 0xFFFD (emuRead 0xFFFC m).2 (by rw [hlog, h]) ?_
    show (0xFFFD : U16) ≠ m.registers.programCounter
    rw [← hlo]; decide
  · exact nullHook_stable.emuRead 0xFFFD _ (hread 0xFFFC m h hlo)

/-- `emu_reset` is the loading of a file, if one was opened, the reset vector and `emu_run`. -/
theorem emuReset_run {V : Type} (files : FileOps V) (order : EvalOrder) (fuel : Nat)
    (answers : Nat → Addr) (v : V) (m : Machine) :
    ∃ m₁, m₁.log = m.log ∧
      (emuReset files order fuel answers v m).2 =
        (emuRun order fuel answers (resetVector m₁).2).2 := by
  set r := files.fopen m.filepath "r" v with hr
  have hrun : emuReset files order fuel answers v m =
      ((if r.1 ≠ 0 then loadFile files r.1 r.2 else pure r.2) >>= fun v => do
        resetVector
        emuRun order fuel answers
        pure v : CPU V) m := rfl
  rw [hrun]
  by_cases hfd : r.1 ≠ 0
  · rw [if_pos hfd]
    exact ⟨(loadFile files r.1 r.2 m).2, rfl, rfl⟩
  · rw [if_neg hfd]
    exact ⟨m, rfl, rfl⟩

/-- **Every run from `emu_init` runs a hook without an entry.**  Whatever the files are, whether
`fopen` succeeds, whatever `kzalloc` answers and however far the run has come. -/
theorem emuInit_nullHook {V : Type} (files : FileOps V) (filepath : String) (order : EvalOrder)
    (fuel : Nat) (answers : Nat → Addr) (v : V) (m : Machine) (h : m.log.logTail = 0) :
    (emuInit files filepath order fuel answers v m).2.log.nullHook = true := by
  obtain ⟨m₁, hlog, hrun⟩ := emuReset_run files order fuel answers v
    { m with
      RAM := fun _ => 0, ROM := fun _ => 0, header := fun _ => 0, filepath
      totalCPUCycles := 8, cpuHalted := false }
  have htail : m₁.log.logTail = 0 := by rw [hlog, h]
  have hinit : (emuInit files filepath order fuel answers v m).2 =
      (emuRun order fuel answers (resetVector m₁).2).2 := hrun
  rw [hinit]
  exact nullHook_stable.emuRun order fuel answers _ (resetVector_nullHook htail)

/-- A file layer without files. -/
def noFiles : FileOps Unit where
  fopen _ _ v := (0, v)
  fread buffer _ _ _ v := (buffer, -2, v)
  fseek _ _ _ v := (-2, v)

theorem emuInit_nullHook_noFiles :
    (emuInit noFiles "0:/game.nes" .leftFirst 1000 (fun _ => 1) ()
      (.ofProgram [] ⟨0, 0, 0, 0, 0, 0⟩)).2.log.nullHook = true :=
  emuInit_nullHook noFiles _ _ _ _ _ _ rfl

/-- The reset alone, before the first instruction. -/
theorem reset_runs_hook_without_entry :
    (emuInit noFiles "0:/game.nes" .leftFirst 0 (fun _ => 1) ()
      (.ofProgram [] ⟨0, 0, 0, 0, 0, 0⟩)).2.log.nullHook = true := by
  decide +kernel

end KernelNES.Emulator
