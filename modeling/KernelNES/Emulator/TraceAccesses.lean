import KernelNES.Emulator.Accesses

/-!
# Emulator — TraceAccesses

What a trace entry says of the data its step reads and writes.  `emu_read` tells a read of data from
a fetch by the address: a byte at the program counter is never noted.  So the marks of the last
entry follow the log of accesses, less the reads at the program counter
(`emulateCPULogged_follows`), and the entry is right unless the byte read last is such a one
(`dataTraced_iff`).
-/

namespace KernelNES.Emulator
open KernelNES.Lib

/-! ### The marks of an entry -/

/-- What an entry says of the accesses of its step. -/
@[ext]
structure Marks where
  read : Option U8
  written : Option U8

/-- The marks of a fresh entry. -/
def Marks.none : Marks := ⟨.none, .none⟩

/-- The marks of an entry of the log. -/
def TracelogEntry.marks (e : TracelogEntry) : Marks where
  read := if e.readValueSet then some e.readValue else .none
  written := if e.writeValueSet then some e.writtenValue else .none

/-- The last entry. -/
def Tracelog.tailEntry (s : Tracelog) : TracelogEntry := s.mem s.logTail

/-- The marks that a step finds in the last entry: those of the entry `kzalloc` has just cleared,
and when it fails those of an old one. -/
def Tracelog.marksFound (s : Tracelog) (answer : Addr) : Marks :=
  if answer = 0 then s.evict.tailEntry.marks else .none

theorem modifyTail_marks (s : Tracelog) (f : TracelogEntry → TracelogEntry) :
    (s.modifyTail f).tailEntry.marks = (f s.tailEntry).marks :=
  congrArg TracelogEntry.marks (Function.update_self _ _ _)

theorem tailLogSetOperand_marks (s : Tracelog) (byte : U8) :
    (s.tailLogSetOperand byte).tailEntry.marks = s.tailEntry.marks := by
  unfold Tracelog.tailLogSetOperand
  split
  · exact modifyTail_marks _ _
  · exact modifyTail_marks s fun e =>
      { e with operands := Function.update e.operands s.currentOperand byte }

theorem tailLogSetAddress_marks (s : Tracelog) (a : U16) :
    (s.tailLogSetAddress a).tailEntry.marks = s.tailEntry.marks := modifyTail_marks s _

theorem tailLogSetIndexedAddress_marks (s : Tracelog) (a : U16) :
    (s.tailLogSetIndexedAddress a).tailEntry.marks = s.tailEntry.marks := modifyTail_marks s _

theorem tailLogSetReadValue_marks (s : Tracelog) (byte : U8) :
    (s.tailLogSetReadValue byte).tailEntry.marks = { s.tailEntry.marks with read := some byte } :=
  modifyTail_marks s _

theorem tailLogSetWrittenValue_marks (s : Tracelog) (byte : U8) :
    (s.tailLogSetWrittenValue byte).tailEntry.marks =
      { s.tailEntry.marks with written := some byte } := modifyTail_marks s _

/-- Behind a new entry, the marks are those of the entry it finds. -/
theorem addTracelogEntry_marks (s : Tracelog) (answer : Addr) (registers : Registers)
    (totalCPUCycles : Int) :
    (s.addTracelogEntry answer registers totalCPUCycles).2.tailEntry.marks =
      s.marksFound answer := by
  unfold Tracelog.addTracelogEntry Tracelog.marksFound
  by_cases ha : answer = 0
  · simp only [if_pos ha, Tracelog.kzalloc]
    rfl
  · simp only [if_neg ha, Tracelog.kzalloc]
    split
    · simp [Tracelog.tailEntry, Tracelog.initLogEntry, Tracelog.modifyEntry, TracelogEntry.marks,
        TracelogEntry.zero, Marks.none]
    · by_cases ht : s.evict.logTail = answer
      · simp [Tracelog.tailEntry, Tracelog.initLogEntry, Tracelog.modifyEntry, TracelogEntry.marks,
          TracelogEntry.zero, Marks.none, ht]
      · simp [Tracelog.tailEntry, Tracelog.initLogEntry, Tracelog.modifyEntry, TracelogEntry.marks,
          TracelogEntry.zero, Marks.none, ht, Function.update_of_ne (Ne.symm ht)]

/-! ### The marks follow the log -/

/-- The byte of a read. -/
def Access.byteRead : Access → Option U8
  | .read _ _ byte => some byte
  | .write _ _ => none

/-- The byte of a read that `emu_read` takes for one of data. -/
def Access.byteNoted : Access → Option U8
  | .read address pc byte => if address ≠ pc then some byte else none
  | .write _ _ => none

/-- The byte of a write that is stored: it is to RAM. -/
def Access.byteStored : Access → Option U8
  | .read _ _ _ => none
  | .write address byte => if address < 0x800 then some byte else none

/-- What an access does to the marks. -/
def Marks.take (marks : Marks) (access : Access) : Marks where
  read := access.byteNoted.or marks.read
  written := access.byteStored.or marks.written

/-- The marks of the last entry follow the log of `x`. -/
abbrev MarksFollow {α : Type} (x : LoggedCPU α) : Prop :=
  Follows Marks.take (fun m : Machine => m.log.tailEntry.marks) x

/-- `x` leaves the marks of the last entry alone. -/
abbrev KeepsMarks {α : Type} (x : CPU α) : Prop :=
  Preserves (fun m : Machine => m.log.tailEntry.marks) x

/-- A read leaves its mark. -/
theorem emuRead_marks (a : U16) (m : Machine) :
    (emuRead a m).2.log.tailEntry.marks =
      m.log.tailEntry.marks.take (.read a m.registers.programCounter (m.peek a)) := by
  show (Tracelog.tailEntry (if a ≠ m.registers.programCounter then _ else _)).marks =
    Marks.mk ((if a ≠ m.registers.programCounter then some (m.peek a) else none).or _) _
  split
  · exact tailLogSetReadValue_marks _ _
  · rfl

/-- A write leaves its mark. -/
theorem emuWrite_marks (a : U16) (v : U8) (m : Machine) :
    (emuWrite a v m).2.log.tailEntry.marks = m.log.tailEntry.marks.take (.write a v) := by
  show (Tracelog.tailEntry (if a < 0x800 then _ else _)).marks =
    Marks.mk _ ((if a < 0x800 then some v else none).or _)
  split
  · exact tailLogSetWrittenValue_marks _ _
  · rfl

theorem emuReadLogged_follows (a : U16) : MarksFollow (emuReadLogged a) :=
  fun _ m => ⟨[.read a m.registers.programCounter (m.peek a)], rfl, emuRead_marks a m⟩

theorem emuWriteLogged_follows (a : U16) (v : U8) : MarksFollow (emuWriteLogged a v) :=
  fun _ m => ⟨[.write a v], rfl, emuWrite_marks a v m⟩

theorem pushStackLogged_follows (v : U8) : MarksFollow (pushStackLogged v) :=
  .bind (.unlogged fun _ => rfl) fun _ => (emuWriteLogged_follows _ _).bind fun _ =>
    .unlogged fun _ => rfl

theorem pullStackLogged_follows : MarksFollow pullStackLogged :=
  .bind (.unlogged fun _ => rfl) fun _ => .bind (.unlogged fun _ => rfl) fun _ =>
    .bind (.unlogged fun _ => rfl) fun _ => (emuReadLogged_follows _).bind fun _ =>
      .bind (.unlogged fun _ => rfl) fun _ => .pure _

/-- A byte at the program counter is taken for a fetch. -/
theorem fetch_marks (m : Machine) :
    (emuRead m.registers.programCounter m).2.log.tailEntry.marks = m.log.tailEntry.marks := by
  rw [emuRead_marks]
  simp [Marks.take, Access.byteNoted, Access.byteStored]

theorem readIncrementPC_keepsMarks : KeepsMarks readIncrementPC :=
  fun m => (tailLogSetOperand_marks _ _).trans (fetch_marks m)

theorem readPC_keepsMarks : KeepsMarks readPC :=
  fun m => (tailLogSetOperand_marks _ _).trans (fetch_marks m)

theorem setPC_keepsMarks (a : U16) : KeepsMarks (setPC a) :=
  fun m => tailLogSetAddress_marks m.log a

theorem getAbsoluteAddr_keepsMarks : KeepsMarks getAbsoluteAddr :=
  readIncrementPC_keepsMarks.bind fun _ => readIncrementPC_keepsMarks.bind fun _ =>
    .bind (fun m => tailLogSetAddress_marks m.log _) fun _ => fun _ => rfl

theorem branchBody_keepsMarks (flag : U8) (wanted : Bool) : KeepsMarks (branchBody flag wanted) :=
  readIncrementPC_keepsMarks.bind fun _ => .bind (fun _ => rfl) fun _ =>
    .ite (.bind (fun _ => rfl) fun _ => (setPC_keepsMarks _).bind fun _ => fun _ => rfl)
      fun _ => rfl

theorem keepsMarks_of_apart {α : Type} {x : CPU α} (h : Preserves Machine.apart x) : KeepsMarks x :=
  h.comp fun s => s.log.tailEntry.marks

/-- The marks follow the accesses of an address. -/
theorem Addressing.getLogged_follows (addr : Addressing) : MarksFollow addr.getLogged := by
  have hset : ∀ a, KeepsMarks (modifyLog fun s => s.tailLogSetIndexedAddress a) :=
    fun a m => tailLogSetIndexedAddress_marks m.log a
  cases addr with
  | zeroPage => exact .unlogged (readIncrementPC_keepsMarks.bind fun _ => fun _ => rfl)
  | zeroPageX =>
    have hfetch : ∀ v, KeepsMarks (getZPIndexedAddress v) := fun v =>
      readIncrementPC_keepsMarks.bind fun _ => (hset _).bind fun _ => fun _ => rfl
    exact .unlogged fun m => hfetch _ (regX m).2
  | absolute => exact .unlogged getAbsoluteAddr_keepsMarks
  | absoluteX =>
    exact .unlogged (readIncrementPC_keepsMarks.bind fun _ =>
      readIncrementPC_keepsMarks.bind fun _ => .bind (fun _ => rfl) fun _ =>
        .bind (fun m => tailLogSetAddress_marks m.log _) fun _ => fun _ => rfl)
  | indirectX =>
    exact .bind (.unlogged readIncrementPC_keepsMarks) fun _ => .bind (.unlogged fun _ => rfl)
      fun _ => (emuReadLogged_follows _).bind fun _ => (emuReadLogged_follows _).bind fun _ =>
        .bind (.unlogged (hset _)) fun _ => .pure _
  | indirectY =>
    exact .bind (.unlogged readIncrementPC_keepsMarks) fun _ =>
      (emuReadLogged_follows _).bind fun _ => (emuReadLogged_follows _).bind fun _ =>
        .bind (.unlogged fun _ => rfl) fun _ => .bind (.unlogged (hset _)) fun _ => .pure _

/-- They follow those of an operand. -/
theorem Operand.getLogged_follows (operand : Operand) : MarksFollow operand.getLogged := by
  cases operand with
  | immediate => exact .unlogged readIncrementPC_keepsMarks
  | memory addr => exact addr.getLogged_follows.bind emuReadLogged_follows

/-- They follow those of an operation in place. -/
theorem RmwOp.runLogged_follows (op : RmwOp) (v : U8) (a : U16) :
    MarksFollow (op.runLogged v a) := by
  have hset : ∀ v, KeepsMarks (setZeroNegative v) := fun _ _ => rfl
  cases op with
  | asl | lsr =>
    exact .bind (.unlogged fun _ => rfl) fun _ => (emuWriteLogged_follows _ _).bind fun _ =>
      .unlogged (hset _)
  | rol | ror =>
    exact .bind (.unlogged fun _ => rfl) fun _ => (emuWriteLogged_follows _ _).bind fun _ =>
      .bind (.unlogged fun _ => rfl) fun _ => .unlogged (hset _)
  | inc | dec => exact (emuWriteLogged_follows _ _).bind fun _ => .unlogged (hset _)

theorem pullPCLogged_follows : MarksFollow pullPCLogged :=
  pullStackLogged_follows.bind fun _ => pullStackLogged_follows.bind fun _ =>
    .bind (.unlogged (setPC_keepsMarks _)) fun _ => .pure _

theorem jsrBodyLogged_follows : MarksFollow jsrBodyLogged :=
  .bind (.unlogged readIncrementPC_keepsMarks) fun _ => .bind (.unlogged readPC_keepsMarks) fun _ =>
    .bind (.unlogged fun _ => rfl) fun _ => (pushStackLogged_follows _).bind fun _ =>
      .bind (.unlogged fun _ => rfl) fun _ => (pushStackLogged_follows _).bind fun _ =>
        .bind (.unlogged (setPC_keepsMarks _)) fun _ => .pure _

theorem jmpIndirectBodyLogged_follows : MarksFollow jmpIndirectBodyLogged :=
  .bind (.unlogged getAbsoluteAddr_keepsMarks) fun _ => (emuReadLogged_follows _).bind fun _ =>
    (emuReadLogged_follows _).bind fun _ => .bind (.unlogged (setPC_keepsMarks _)) fun _ => .pure _

theorem brkBodyLogged_follows : MarksFollow brkBodyLogged :=
  .bind (.unlogged fun _ => rfl) fun _ => .bind (.unlogged fun _ => rfl) fun _ =>
    (pushStackLogged_follows _).bind fun _ => .bind (.unlogged fun _ => rfl) fun _ =>
      (pushStackLogged_follows _).bind fun _ => .bind (.unlogged fun _ => rfl) fun _ =>
        (pushStackLogged_follows _).bind fun _ => (emuReadLogged_follows _).bind fun _ =>
          (emuReadLogged_follows _).bind fun _ =>
            .bind (.unlogged (setPC_keepsMarks _)) fun _ => .pure _

/-- The marks follow the log of every case. -/
theorem Instr.runLogged_follows (order : EvalOrder) (instr : Instr) :
    MarksFollow (instr.runLogged order) := by
  cases instr with
  | load reg operand =>
    exact operand.getLogged_follows.bind fun v =>
      .unlogged (keepsMarks_of_apart (reg.load_apart v))
  | store reg addr =>
    exact addr.getLogged_follows.bind fun _ =>
      .bind (.unlogged (keepsMarks_of_apart reg.get_apart)) fun _ => emuWriteLogged_follows _ _
  | branch flag wanted => exact .unlogged (branchBody_keepsMarks flag wanted)
  | pha | php => exact .bind (.unlogged fun _ => rfl) fun _ => pushStackLogged_follows _
  | pla =>
    exact pullStackLogged_follows.bind fun _ => .bind (.unlogged fun _ => rfl) fun _ =>
      .unlogged fun _ => rfl
  | plp =>
    exact pullStackLogged_follows.bind fun _ => .bind (.unlogged fun _ => rfl) fun _ => .pure _
  | jsr => exact jsrBodyLogged_follows
  | rts =>
    exact pullPCLogged_follows.bind fun _ => .bind (.unlogged readIncrementPC_keepsMarks) fun _ =>
      .pure _
  | jmp =>
    exact .unlogged (getAbsoluteAddr_keepsMarks.bind fun a => (setPC_keepsMarks a).bind fun _ =>
      fun _ => rfl)
  | jmpIndirect => exact jmpIndirectBodyLogged_follows
  | rmw op addr =>
    exact addr.getLogged_follows.bind fun a => (emuReadLogged_follows a).bind fun v =>
      op.runLogged_follows v a
  | logicImmediate op =>
    exact .unlogged (readIncrementPC_keepsMarks.bind fun v =>
      keepsMarks_of_apart (op.load_apart v))
  | logic op addr =>
    exact addr.getLogged_follows.bind fun a => (emuReadLogged_follows a).bind fun v =>
      .bind (.unlogged (keepsMarks_of_apart (op.run_apart v))) fun t =>
        (emuWriteLogged_follows a t).bind fun _ => .unlogged fun _ => rfl
  | arith op operand =>
    exact operand.getLogged_follows.bind fun v =>
      .unlogged (keepsMarks_of_apart (op.run_apart order v))
  | compare reg operand =>
    exact operand.getLogged_follows.bind fun v =>
      .bind (.unlogged (keepsMarks_of_apart reg.get_apart)) fun _ => .unlogged fun _ => rfl
  | bit addr =>
    exact addr.getLogged_follows.bind fun a => (emuReadLogged_follows a).bind fun _ =>
      .unlogged fun _ => rfl
  | brk => exact brkBodyLogged_follows
  | rti =>
    exact pullStackLogged_follows.bind fun _ => .bind (.unlogged fun _ => rfl) fun _ =>
      pullPCLogged_follows
  | hlt => exact .unlogged fun _ => rfl
  | increment | decrement | transfer | txs | tsx | setFlag | aslA | lsrA | rolA | nop =>
    exact .unlogged (keepsMarks_of_apart (Instr.run_apart order rfl))

/-- **The marks of a step** are those it finds, and what its accesses make of them. -/
theorem emulateCPU_marks {m : Machine} {instr : Instr} (hd : decode m.nextOpcode = some instr)
    (order : EvalOrder) (answer : Addr) :
    (emulateCPU order answer m).2.log.tailEntry.marks =
      (m.accesses order answer).foldl Marks.take (m.log.marksFound answer) := by
  have hrun := (instr.runLogged_follows order).run (m.fetched answer)
  have herase : (instr.runLogged order [] (m.fetched answer)).2 =
      (instr.run order (m.fetched answer)).2 :=
    congrArg Prod.snd (congrFun (instr.runLogged_erases order []) (m.fetched answer))
  have hfound : (m.fetched answer).log.tailEntry.marks = m.log.marksFound answer :=
    (readIncrementPC_keepsMarks _).trans (addTracelogEntry_marks _ _ _ _)
  rw [herase, hfound, ← accesses_of_decode hd] at hrun
  rw [emulateCPU_of_decode hd]
  exact hrun

/-! ### The bytes of a log -/

/-- The bytes of data read. -/
def bytesRead (log : List Access) : List U8 := log.filterMap Access.byteRead

/-- The bytes stored. -/
def bytesStored (log : List Access) : List U8 := log.filterMap Access.byteStored

/-- The marks are those of the last byte noted and the last byte stored. -/
theorem foldl_take (log : List Access) (marks : Marks) :
    log.foldl Marks.take marks =
      ⟨(log.filterMap Access.byteNoted).getLast?.or marks.read,
        (bytesStored log).getLast?.or marks.written⟩ := by
  have hread := foldl_or_eq_getLast? Access.byteNoted log marks.read
  have hwritten := foldl_or_eq_getLast? Access.byteStored log marks.written
  ext1
  · exact (List.foldl_hom Marks.read fun _ _ => rfl).symm.trans hread
  · exact (List.foldl_hom Marks.written fun _ _ => rfl).symm.trans hwritten

/-- The bytes that a log of accesses reads. -/
theorem bytesRead_eq (log : List Access) : bytesRead log = (readsOf log).map fun r => r.2.2 := by
  rw [bytesRead, readsOf, List.map_filterMap]
  congr 1
  funext access
  cases access <;> rfl

theorem bytesNoted_eq (log : List Access) : log.filterMap Access.byteNoted =
    (readsOf log).filterMap fun r => if r.1 ≠ r.2.1 then some r.2.2 else none := by
  rw [readsOf, List.filterMap_filterMap]
  congr 1
  funext access
  cases access <;> rfl

/-- A byte is stored when some write goes to RAM. -/
theorem bytesStored_ne_nil_iff (log : List Access) :
    bytesStored log ≠ [] ↔ ∃ a ∈ storesOf log, a < 0x800 := by
  induction log with
  | nil => simp [bytesStored, storesOf]
  | cons access log ih =>
    cases access with
    | read address pc byte => exact ih
    | write address byte =>
      have hstores : storesOf (.write address byte :: log) = address :: storesOf log := rfl
      simp only [hstores, List.mem_cons, exists_eq_or_imp, ← ih]
      by_cases ha : address < 0x800
      · have hstored : bytesStored (.write address byte :: log) = byte :: bytesStored log :=
          List.filterMap_cons_some (if_pos ha)
        exact iff_of_true (hstored ▸ List.cons_ne_nil _ _) (.inl ha)
      · have hstored : bytesStored (.write address byte :: log) = bytesStored log :=
          List.filterMap_cons_none (if_neg ha)
        rw [hstored, or_iff_right ha]

/-! ### When an entry is right -/

/-- **What a trace entry should say** of a step with the accesses `log`: a byte is read when the
step read one, and is the last such byte, and a byte is written when the step stored one, and is the
last. -/
structure DataTraced (log : List Access) (e : TracelogEntry) : Prop where
  readValueSet : e.readValueSet = true ↔ bytesRead log ≠ []
  readValue : ∀ byte, (bytesRead log).getLast? = some byte → e.readValue = byte
  writeValueSet : e.writeValueSet = true ↔ bytesStored log ≠ []
  writtenValue : ∀ byte, (bytesStored log).getLast? = some byte → e.writtenValue = byte

/-- A flag with a value says what the last of a list is. -/
theorem mark_eq_getLast?_iff (set : Bool) (value : U8) (bytes : List U8) :
    (if set then some value else none) = bytes.getLast? ↔
      (set = true ↔ bytes ≠ []) ∧ ∀ byte, bytes.getLast? = some byte → value = byte := by
  cases hlast : bytes.getLast? with
  | none =>
    have hnil : bytes = [] := List.getLast?_eq_none_iff.mp hlast
    simp [hnil]
  | some byte =>
    have hne : bytes ≠ [] := fun hnil => by simp [hnil] at hlast
    cases set <;> simp [hne]

/-- The entry says what was read and written last. -/
theorem dataTraced_iff_marks (log : List Access) (e : TracelogEntry) :
    DataTraced log e ↔ e.marks = ⟨(bytesRead log).getLast?, (bytesStored log).getLast?⟩ := by
  have hread := mark_eq_getLast?_iff e.readValueSet e.readValue (bytesRead log)
  have hwritten := mark_eq_getLast?_iff e.writeValueSet e.writtenValue (bytesStored log)
  rw [TracelogEntry.marks, Marks.mk.injEq, hread, hwritten]
  constructor
  · rintro ⟨h₁, h₂, h₃, h₄⟩
    exact ⟨⟨h₁, h₂⟩, h₃, h₄⟩
  · rintro ⟨⟨h₁, h₂⟩, h₃, h₄⟩
    exact ⟨h₁, h₂, h₃, h₄⟩

/-- The addresses a step reads data from, in order. -/
def Machine.dataReads (m : Machine) (instr : Instr) : List U16 :=
  instr.reads m (m.registers.programCounter + 1)

/-- Where the program counter is then. -/
def Machine.pcBehind (m : Machine) (instr : Instr) : U16 :=
  instr.behind (m.registers.programCounter + 1)

/-- The addresses a step writes to, in order. -/
def Machine.dataStores (m : Machine) (instr : Instr) : List U16 :=
  instr.stores m (m.registers.programCounter + 1)

section
variable {m : Machine} {instr : Instr}

/-- The bytes a case reads. -/
theorem bytesRead_accesses (hd : decode m.nextOpcode = some instr) (order : EvalOrder)
    (answer : Addr) :
    bytesRead (m.accesses order answer) = (m.dataReads instr).map m.peek := by
  rw [accesses_of_decode hd, bytesRead_eq, (instr.runLogged_accesses order _).1, List.map_map]
  rfl

/-- The bytes it notes: those not read at the program counter. -/
theorem bytesNoted_accesses (hd : decode m.nextOpcode = some instr) (order : EvalOrder)
    (answer : Addr) :
    (m.accesses order answer).filterMap Access.byteNoted =
      ((m.dataReads instr).filter (· ≠ m.pcBehind instr)).map m.peek := by
  rw [accesses_of_decode hd, bytesNoted_eq, (instr.runLogged_accesses order _).1,
    List.filterMap_map, ← List.filterMap_eq_map', List.filterMap_filter]
  simp only [decide_eq_true_eq]
  rfl

/-- It stores a byte when it writes to RAM. -/
theorem bytesStored_accesses (hd : decode m.nextOpcode = some instr) (order : EvalOrder)
    (answer : Addr) :
    bytesStored (m.accesses order answer) ≠ [] ↔ ∃ a ∈ m.dataStores instr, a < 0x800 := by
  rw [accesses_of_decode hd, bytesStored_ne_nil_iff, (instr.runLogged_accesses order _).2]
  rfl

end

/-- A step that reads no data finds no byte read; and one whose last read of data is at the program
counter has the same byte noted already, from a read elsewhere before, or finds it. -/
def Machine.LastReadNoted (m : Machine) (instr : Instr) (answer : Addr) : Prop :=
  (m.dataReads instr = [] → (m.log.marksFound answer).read = none) ∧
    ((m.dataReads instr).getLast? = some (m.pcBehind instr) →
      (((m.dataReads instr).filter (· ≠ m.pcBehind instr)).getLast?.map m.peek).or
        (m.log.marksFound answer).read = some (m.peek (m.pcBehind instr)))

/-- The step writes to RAM, or finds no byte written. -/
def Machine.StoreNoted (m : Machine) (instr : Instr) (answer : Addr) : Prop :=
  (∃ a ∈ m.dataStores instr, a < 0x800) ∨ (m.log.marksFound answer).written = none

/-- Without the elements `b`, a list has the same last value unless `b` is last. -/
theorem getLast?_filter_or_iff {α β : Type} [DecidableEq α] (l : List α) (b : α) (f : α → β)
    (found : Option β) :
    ((l.filter (· ≠ b)).getLast?.map f).or found = l.getLast?.map f ↔
      (l = [] → found = none) ∧
        (l.getLast? = some b → ((l.filter (· ≠ b)).getLast?.map f).or found = some (f b)) := by
  cases hlast : l.getLast? with
  | none =>
    have hnil : l = [] := List.getLast?_eq_none_iff.mp hlast
    simp [hnil]
  | some a =>
    have hne : l ≠ [] := fun hnil => by simp [hnil] at hlast
    by_cases hab : a = b
    · simp [hab, hne]
    · obtain ⟨front, rfl⟩ := List.getLast?_eq_some_iff.mp hlast
      simp [hab]

/-- The marks agree with the reads when the byte read last is noted. -/
theorem readMark_iff {m : Machine} {instr : Instr} (hd : decode m.nextOpcode = some instr)
    (order : EvalOrder) (answer : Addr) :
    ((m.accesses order answer).filterMap Access.byteNoted).getLast?.or
        (m.log.marksFound answer).read = (bytesRead (m.accesses order answer)).getLast? ↔
      m.LastReadNoted instr answer := by
  rw [bytesNoted_accesses hd, bytesRead_accesses hd, List.getLast?_map, List.getLast?_map,
    getLast?_filter_or_iff]
  exact Iff.rfl

/-- The marks agree with the stores when one is noted. -/
theorem writtenMark_iff {m : Machine} {instr : Instr} (hd : decode m.nextOpcode = some instr)
    (order : EvalOrder) (answer : Addr) :
    (bytesStored (m.accesses order answer)).getLast?.or (m.log.marksFound answer).written =
        (bytesStored (m.accesses order answer)).getLast? ↔ m.StoreNoted instr answer := by
  rw [Machine.StoreNoted, ← bytesStored_accesses hd order answer]
  cases hlast : (bytesStored (m.accesses order answer)).getLast? with
  | none => simp [List.getLast?_eq_none_iff.mp hlast]
  | some byte =>
    have hne : bytesStored (m.accesses order answer) ≠ [] := fun hnil => by simp [hnil] at hlast
    simp [hne]

/-- **When the last entry says what its step read and wrote.**  In any state, for any opcode with a
case: exactly when the byte of data read last is not one at the program counter, which `emu_read`
takes for a fetch, or the entry has the same byte from elsewhere; and, where the allocation of an
entry fails, the old entry has no marks of an access that the step does not make. -/
theorem dataTraced_iff {m : Machine} {instr : Instr} (hd : decode m.nextOpcode = some instr)
    (order : EvalOrder) (answer : Addr) :
    DataTraced (m.accesses order answer) (emulateCPU order answer m).2.log.tailEntry ↔
      m.LastReadNoted instr answer ∧ m.StoreNoted instr answer := by
  rw [dataTraced_iff_marks, emulateCPU_marks hd, foldl_take, Marks.mk.injEq, readMark_iff hd,
    writtenMark_iff hd]

theorem dataTraced_iff_load :
    DataTraced (loadMachine.accesses .leftFirst 1)
      (emulateCPU .leftFirst 1 loadMachine).2.log.tailEntry :=
  (dataTraced_iff rfl .leftFirst 1).mpr
    ⟨⟨fun h => absurd h (by decide), fun h => absurd h (by decide)⟩, .inr rfl⟩

/-- `LDA $8003` at `0x8000`: the byte behind the instruction. -/
def loadBehindMachine : Machine := .ofProgram [0xAD, 0x03, 0x80, 0x05] ⟨0, 0, 0, 0, 0xFD, 0⟩

/-- The step reads `5` and does not note it. -/
theorem loadBehind_untraced :
    (decode loadBehindMachine.nextOpcode).isSome ∧
      bytesRead (loadBehindMachine.accesses .leftFirst 1) = [5] ∧
      (emulateCPU .leftFirst 1 loadBehindMachine).2.log.tailEntry.readValueSet = false ∧
      ¬ DataTraced (loadBehindMachine.accesses .leftFirst 1)
        (emulateCPU .leftFirst 1 loadBehindMachine).2.log.tailEntry := by
  have hread : bytesRead (loadBehindMachine.accesses .leftFirst 1) = [5] := by decide
  have hset : (emulateCPU .leftFirst 1 loadBehindMachine).2.log.tailEntry.readValueSet = false := by
    decide
  refine ⟨by decide, hread, hset, ?_⟩
  intro h
  have hmarked := h.readValueSet.mpr (hread ▸ List.cons_ne_nil _ _)
  rw [hset] at hmarked
  cases hmarked

end KernelNES.Emulator
