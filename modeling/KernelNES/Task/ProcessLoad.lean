import KernelNES.Task.FreshTask
import KernelNES.Task.Process
import Mathlib.Logic.Relation

/-!
# Task — ProcessLoad

What `process_load` does, call by call.  The calls answer in the order in which they are made
(`outcomes`); the error is that of the first to fail, and only the kernel has changed up to there.
`process_map_binary` maps the first page of the binary, and its result is always a success
(`processMapBinary_ok`).
-/

namespace KernelNES.Task
open KernelNES.Lib KernelNES.Memory

variable {calls : Calls} {filename : List U8}

/-! ### The outcomes of the calls -/

/-- What the calls of `process_load_binary` answer, each made whatever the others answer. -/
structure BinaryOutcomes where
  fd : Int
  stat : Int
  filesize : U32
  data : U32
  read : Int

/-- The calls of `process_load_binary`, and their answers. -/
def binaryOutcomes (calls : Calls) (filename : List U8) :
    StateM (TaskState Heap) BinaryOutcomes := do
  let fd ← calls.fopen filename [0x72]
  let (stat, filesize) ← calls.fstat fd
  let data ← kzalloc filesize
  let read ← calls.fread data filesize 1 fd
  let _ ← calls.fclose fd
  pure { fd, stat, filesize, data, read }

/-- What the calls of `process_load` answer. -/
structure Outcomes where
  process : U32
  binary : BinaryOutcomes
  stack : U32
  task : U32

/-- The calls of `process_load`, and their answers. -/
def outcomes (calls : Calls) (filename : List U8) : StateM (TaskState Heap) Outcomes := do
  let process ← kzalloc sizeofProcess
  let binary ← binaryOutcomes calls filename
  let stack ← kzalloc peachosUserProgramStackSize
  let task ← calls.taskNew process
  pure { process, binary, stack, task }

/-- None of the calls fails. -/
structure BinaryOutcomes.Succeed (o : BinaryOutcomes) : Prop where
  fd : o.fd ≠ 0
  stat : o.stat = 0
  data : o.data ≠ 0
  read : o.read = 1

/-- Every call behind the `kzalloc` of the process does what it is to do. -/
structure Outcomes.Succeed (o : Outcomes) : Prop where
  binary : o.binary.Succeed
  stack : o.stack ≠ 0
  task : 0 < o.task.toInt

/-- A call of `process_load_binary`, with any arguments. -/
inductive FileCall (calls : Calls) (k : TaskState Heap) : TaskState Heap → Prop where
  | fopen (filename mode : List U8) : FileCall calls k (calls.fopen filename mode k).2
  | fstat (fd : Int) : FileCall calls k (calls.fstat fd k).2
  | kzalloc (size : U32) : FileCall calls k (kzalloc size k).2
  | fread (ptr size nmemb : U32) (fd : Int) :
      FileCall calls k (calls.fread ptr size nmemb fd k).2
  | fclose (fd : Int) : FileCall calls k (calls.fclose fd k).2

/-- Any number of such calls. -/
abbrev FileCalls (calls : Calls) : TaskState Heap → TaskState Heap → Prop :=
  Relation.ReflTransGen (FileCall calls)

variable {k k' : TaskState Heap} {o : BinaryOutcomes}

/-- The calls one by one, with the states between them. -/
structure BinaryCalls (calls : Calls) (filename : List U8) (o : BinaryOutcomes)
    (k k₁ k₂ k₃ k₄ k' : TaskState Heap) : Prop where
  fopen : calls.fopen filename [0x72] k = (o.fd, k₁)
  fstat : calls.fstat o.fd k₁ = ((o.stat, o.filesize), k₂)
  kzalloc : kzalloc o.filesize k₂ = (o.data, k₃)
  fread : calls.fread o.data o.filesize 1 o.fd k₃ = (o.read, k₄)
  fclose : (calls.fclose o.fd k₄).2 = k'

/-- The calls behind the answers. -/
theorem binaryOutcomes_inv (h : binaryOutcomes calls filename k = (o, k')) :
    ∃ k₁ k₂ k₃ k₄, BinaryCalls calls filename o k k₁ k₂ k₃ k₄ k' := by
  obtain ⟨rfl, rfl⟩ := Prod.mk.inj h.symm
  exact ⟨_, _, _, _, rfl, rfl, rfl, rfl, rfl⟩

/-- One call more. -/
theorem FileCalls.step {α : Type} {x : StateM (TaskState Heap) α} {k₀ : TaskState Heap} {a : α}
    (h : FileCalls calls k₀ k) (hx : x k = (a, k')) (hstep : FileCall calls k (x k).2) :
    FileCalls calls k₀ k' := by
  rw [hx] at hstep
  exact h.tail hstep

namespace BinaryCalls
variable {k₁ k₂ k₃ k₄ : TaskState Heap} (h : BinaryCalls calls filename o k k₁ k₂ k₃ k₄ k')
include h

theorem opened : FileCalls calls k k₁ := .step .refl h.fopen (.fopen ..)

theorem statted : FileCalls calls k k₂ := .step h.opened h.fstat (.fstat ..)

theorem allocated : FileCalls calls k k₃ := .step h.statted h.kzalloc (.kzalloc ..)

theorem hasRead : FileCalls calls k k₄ := .step h.allocated h.fread (.fread ..)

theorem closed : FileCalls calls k k' := h.fclose ▸ h.hasRead.tail (.fclose _)

end BinaryCalls

/-! ### Calls and writes -/

theorem call_ok {α : Type} {x : StateM (TaskState Heap) α} {s : ProcessState} {a : α}
    (h : x s.kernel = (a, k)) : call x s = .ok (a, { s with kernel := k }) := by
  rw [call, h]

/-- The process `p` is at `process`. -/
def ProcessState.written (s : ProcessState) (process : U32) (p : Process) (k : TaskState Heap) :
    ProcessState :=
  { s with kernel := k, mem := Function.update s.mem process p }

/-- The process `p` is at `process`, and in its slot. -/
def ProcessState.made (s : ProcessState) (process : U32) (p : Process) (processSlot : Nat)
    (k : TaskState Heap) : ProcessState :=
  { kernel := k
    mem := Function.update s.mem process p
    processes := Function.update s.processes processSlot process
    process }

section
variable (s : ProcessState) (process : U32) (p : Process)

@[simp] theorem written_mem (k : TaskState Heap) : (s.written process p k).mem process = p :=
  Function.update_self ..

@[simp] theorem made_mem (processSlot : Nat) (k : TaskState Heap) :
    (s.made process p processSlot k).mem process = p := Function.update_self ..

theorem call_written {α : Type} {x : StateM (TaskState Heap) α} {a : α} (h : x k = (a, k')) :
    call x (s.written process p k) = .ok (a, s.written process p k') := call_ok h

theorem setProcess_written (f : Process → Process) (k : TaskState Heap) :
    setProcess process f (s.written process p k) = .ok ((), s.written process (f p) k) := by
  have hmem : Function.update (Function.update s.mem process p) process
      (f ((s.written process p k).mem process)) = Function.update s.mem process (f p) := by
    rw [written_mem, Function.update_idem]
  exact congrArg (fun mem => Except.ok ((), { s with kernel := k, mem })) hmem

end

variable {s s' : ProcessState} {process task : U32} {p : Process} {processSlot : Nat} {res : Int}

/-! ### The binary -/

theorem processLoadBinaryOut_ok (fd res : Int) (k : TaskState Heap) :
    processLoadBinaryOut calls fd res (s.written process p k) =
      .ok (res, s.written process p (calls.fclose fd k).2) := rfl

/-- When all its calls succeed, the binary is loaded. -/
theorem processLoadBinary_ok (h : binaryOutcomes calls filename k = (o, k')) (ho : o.Succeed) :
    processLoadBinary calls filename process (s.written process p k) =
      .ok (0, s.written process { p with ptr := o.data, size := o.filesize } k') := by
  obtain ⟨k₁, k₂, k₃, k₄, h⟩ := binaryOutcomes_inv h
  rw [processLoadBinary, Exec.bind_ok (call_written _ _ _ h.fopen), if_neg ho.fd,
    Exec.bind_ok (call_written _ _ _ h.fstat)]
  dsimp only
  rw [if_neg (not_not.mpr ho.stat), Exec.bind_ok (call_written _ _ _ h.kzalloc), if_neg ho.data,
    Exec.bind_ok (call_written _ _ _ h.fread), if_neg (not_not.mpr ho.read),
    Exec.bind_ok (setProcess_written ..), processLoadBinaryOut_ok, h.fclose, ho.stat]

/-- A call that fails: the result is not `0`, and only the kernel has changed. -/
theorem processLoadBinary_fails (h : binaryOutcomes calls filename k = (o, k'))
    (ho : ¬ o.Succeed) :
    ∃ res k₁, processLoadBinary calls filename process (s.written process p k) =
        .ok (res, s.written process p k₁) ∧
      res ≠ 0 ∧ FileCalls calls k k₁ := by
  obtain ⟨k₁, k₂, k₃, k₄, h⟩ := binaryOutcomes_inv h
  rw [processLoadBinary, Exec.bind_ok (call_written _ _ _ h.fopen)]
  by_cases hfd : o.fd = 0
  · rw [if_pos hfd, processLoadBinaryOut_ok]
    exact ⟨_, _, rfl, by decide, h.opened.tail (.fclose _)⟩
  rw [if_neg hfd, Exec.bind_ok (call_written _ _ _ h.fstat)]
  dsimp only
  by_cases hstat : o.stat = 0
  · rw [if_neg (not_not.mpr hstat), Exec.bind_ok (call_written _ _ _ h.kzalloc)]
    by_cases hdata : o.data = 0
    · rw [if_pos hdata, processLoadBinaryOut_ok]
      exact ⟨_, _, rfl, by decide, h.allocated.tail (.fclose _)⟩
    · have hread : o.read ≠ 1 := fun hread => ho ⟨hfd, hstat, hdata, hread⟩
      rw [if_neg hdata, Exec.bind_ok (call_written _ _ _ h.fread), if_pos hread,
        processLoadBinaryOut_ok]
      exact ⟨_, _, rfl, by decide, h.hasRead.tail (.fclose _)⟩
  · rw [if_pos hstat, processLoadBinaryOut_ok]
    exact ⟨_, _, rfl, hstat, h.statted.tail (.fclose _)⟩

/-! ### The slot -/

/-- The loop answers the first free slot, or that there is none. -/
theorem processGetFreeSlotLoop_spec (processes : Nat → U32) (n i : Nat) :
    (∀ j, i ≤ j → j < i + n → processes j ≠ 0) ∧
        processGetFreeSlotLoop processes n i = -eistkn ∨
      ∃ processSlot : Nat, processSlot < i + n ∧ processes processSlot = 0 ∧
        processGetFreeSlotLoop processes n i = processSlot := by
  induction n generalizing i with
  | zero => exact .inl ⟨fun j h₁ h₂ => absurd h₂ (by omega), rfl⟩
  | succ n ih =>
    rw [processGetFreeSlotLoop]
    by_cases h0 : processes i = 0
    · rw [if_pos h0]
      exact .inr ⟨i, by omega, h0, rfl⟩
    · rw [if_neg h0]
      rcases ih (i + 1) with ⟨htaken, h⟩ | ⟨processSlot, hlt, hfree, h⟩
      · refine .inl ⟨fun j h₁ h₂ => ?_, h⟩
        rcases Nat.eq_or_lt_of_le h₁ with rfl | hlt
        · exact h0
        · exact htaken j hlt (by omega)
      · exact .inr ⟨processSlot, by omega, hfree, h⟩

/-- `process_get_free_slot` answers a free slot, or that there is none. -/
theorem processGetFreeSlot_spec (processes : Nat → U32) :
    (∀ i < peachosMaxProcesses, processes i ≠ 0) ∧ processGetFreeSlot processes = -eistkn ∨
      ∃ processSlot : Nat, processSlot < peachosMaxProcesses ∧ processes processSlot = 0 ∧
        processGetFreeSlot processes = processSlot := by
  rcases processGetFreeSlotLoop_spec processes peachosMaxProcesses 0 with
    ⟨htaken, h⟩ | ⟨processSlot, hlt, hfree, h⟩
  · exact .inl ⟨fun i hi => htaken i (Nat.zero_le i) (by omega), h⟩
  · exact .inr ⟨processSlot, by omega, hfree, h⟩

/-- A process that has its binary and nothing else. -/
def loadedProcess (ptr size : U32) : Process :=
  { id := 0, filename := [], task := 0, ptr, stack := 0, size }

/-- `process_load` in a state with a free slot, up to the file. -/
theorem processLoad_slot (stale : U32) (hslot : processGetFreeSlot s.processes = processSlot)
    (hlt : processSlot < peachosMaxProcesses) (hfree : s.processes processSlot = 0)
    (hprocess : kzalloc sizeofProcess s.kernel = (process, k)) :
    processLoad calls filename stale s =
      if process = 0 then .ok (-enomem, { s with kernel := k })
      else (processLoadBinary calls filename process >>= fun res =>
        if res < 0 then processLoadForSlotOut process res
        else processLoadStack calls filename process processSlot)
          (s.written process (loadedProcess 0 0) k) := by
  have hget : processGet processSlot s = .ok (0, s) := by
    rw [processGet, Exec.get_bind, if_neg (by omega), Int.toNat_natCast, hfree]
    rfl
  rw [processLoad, Exec.get_bind, hslot, if_neg (by omega), processLoadForSlot, Exec.bind_ok hget,
    if_neg (not_not.mpr rfl), Exec.bind_ok (call_ok hprocess)]
  by_cases h0 : process = 0
  · rw [if_pos h0, if_pos h0, processLoadForSlotOut, Exec.get_bind, if_neg fun h => h.2.1 h0]
    rfl
  · rw [if_neg h0, if_neg h0]
    rfl

/-! ### Mapping the binary -/

theorem onKernel_ok {α : Type} {x : Exec Fault (TaskState Heap) α} {s : ProcessState} {a : α}
    (h : x s.kernel = .ok (a, k)) : onKernel x s = .ok (a, { s with kernel := k }) := by
  rw [onKernel, h]

theorem onKernel_eq_ok {α : Type} {x : Exec Fault (TaskState Heap) α} {s s' : ProcessState} {a : α}
    (h : onKernel x s = .ok (a, s')) : ∃ k, s' = { s with kernel := k } := by
  rw [onKernel] at h
  cases hx : x s.kernel with
  | error e => rw [hx] at h; cases h
  | ok r =>
    rw [hx] at h
    cases h
    exact ⟨r.2, rfl⟩

/-- `process_map_binary` reports success, whatever the task. -/
theorem processMapBinary_eq_ok {s s' : ProcessState} {process : U32} {res : Int}
    (h : processMapBinary process s = .ok (res, s')) :
    res = 0 ∧ ∃ k, s' = { s with kernel := k } := by
  rw [processMapBinary, Exec.get_bind] at h
  obtain ⟨chunk, s₁, hchunk, h⟩ := Exec.bind_eq_ok.mp h
  obtain ⟨directory, s₂, hdirectory, h⟩ := Exec.bind_eq_ok.mp h
  obtain ⟨_, s₃, hmap, h⟩ := Exec.bind_eq_ok.mp h
  obtain ⟨k₁, rfl⟩ := onKernel_eq_ok hchunk
  obtain ⟨k₂, rfl⟩ := onKernel_eq_ok hdirectory
  obtain ⟨k₃, rfl⟩ := onKernel_eq_ok hmap
  cases h
  exact ⟨rfl, k₃, rfl⟩

/-- `paging_align_address` rounds up to a page. -/
theorem pagingAlignAddress_toNat {a : U32} (h : a.toNat + 4096 < 2 ^ 32) :
    (pagingAlignAddress a).toNat = (a.toNat + 4095) / 4096 * 4096 := by
  have hmod : (a % pagingPageSize).toNat = a.toNat % 4096 := by
    rw [BitVec.toNat_umod]
    rfl
  have hadd : (a + pagingPageSize).toNat = a.toNat + 4096 := by
    rw [BitVec.toNat_add, Nat.mod_eq_of_lt (by exact h)]
    rfl
  rw [pagingAlignAddress]
  by_cases h0 : a % pagingPageSize = 0
  · rw [if_neg (not_not.mpr h0)]
    rw [h0] at hmod
    have hmod : 0 = a.toNat % 4096 := hmod
    omega
  · rw [if_pos h0, BitVec.toNat_sub_of_le (by rw [BitVec.le_def]; omega), hadd, hmod]
    have hne : a.toNat % 4096 ≠ 0 := fun he => h0 (BitVec.eq_of_toNat_eq (hmod.trans he))
    omega

/-- The range that `process_map_binary` gives `paging_map_to`, for a binary of at most a page. -/
theorem binary_range {ptr size : U32} (ha : ptr % 4096 = 0) (hsize : size.toNat ≤ 4096)
    (hptr : ptr.toNat + 8192 < 2 ^ 32) :
    ValidRange peachosProgramVirtualAddress ptr (pagingAlignAddress (ptr + size)) ∧
      rangePages ptr (pagingAlignAddress (ptr + size)) = (size.toNat + 4095) / 4096 := by
  have hadd : (ptr + size).toNat = ptr.toNat + size.toNat := by
    rw [BitVec.toNat_add, Nat.mod_eq_of_lt (by omega)]
  have hend := pagingAlignAddress_toNat (a := ptr + size) (by omega)
  rw [hadd] at hend
  have hmod := aligned_iff.mp ha
  refine ⟨⟨rfl, ha, aligned_iff.mpr (by omega), ?_⟩, ?_⟩
  · rw [BitVec.le_def]
    omega
  · rw [rangePages]
    omega

/-- What `paging_map_to` writes: nothing, or the entry of the first page of the range. -/
theorem pagingMapTo_words {H : Type} {s : PagingState H} {chunk directory : U32}
    {table : Nat → U32} (h : PageTables s.words chunk directory table)
    (virt phys physEnd flags : U32) :
    ∃ res words, pagingMapTo directory virt phys physEnd flags s = .ok (res, { s with words }) ∧
      (words = s.words ∨
        words = Function.update s.words (pageEntry table virt) (phys ||| flags)) ∧
      (ValidRange virt phys physEnd → rangePages phys physEnd ≠ 0 →
        words = Function.update s.words (pageEntry table virt) (phys ||| flags)) := by
  by_cases hvalid : ValidRange virt phys physEnd
  · have hrun := pagingMapTo_ok h flags hvalid
    by_cases hn : rangePages phys physEnd = 0
    · rw [if_pos hn] at hrun
      exact ⟨_, _, hrun, .inl rfl, fun _ hne => absurd hn hne⟩
    · rw [if_neg hn] at hrun
      exact ⟨_, _, hrun, .inr rfl, fun _ _ => rfl⟩
  · exact ⟨_, _, pagingMapTo_refused directory flags hvalid s, .inl rfl,
      fun hv => absurd hv hvalid⟩

/-- The address space of a task with the first page of the binary mapped, if it has one. -/
structure FirstMapped (k : TaskState Heap) (p : Process) (process : U32) : Prop where
  process : k.paging.words (slot p.task processField) = process
  space : ∃ directory table, PageTables k.paging.words (k.pageDirectory p.task) directory table
  others : ∀ va, va % 4096 = 0 → va ≠ peachosProgramVirtualAddress →
    pageWalk k.paging.words (k.paging.words (k.pageDirectory p.task)) va =
      va ||| (pagingIsPresent ||| pagingAccessFromAll).setWidth 32
  first : ValidRange peachosProgramVirtualAddress p.ptr (pagingAlignAddress (p.ptr + p.size)) →
    rangePages p.ptr (pagingAlignAddress (p.ptr + p.size)) ≠ 0 →
    pageWalk k.paging.words (k.paging.words (k.pageDirectory p.task))
      peachosProgramVirtualAddress = p.ptr ||| binaryFlags

/-- **`process_map_binary`** maps the first page of a binary that has one, and no other. -/
theorem processMapBinary_ok {s : ProcessState} {process : U32} {p : Process}
    (hp : s.mem process = p) (h0 : p.task ≠ 0) (hfresh : FreshTask s.kernel p.task process) :
    ∃ k, processMapBinary process s = .ok (0, { s with kernel := k }) ∧
      FirstMapped k p process := by
  obtain ⟨directory, table, htables, hown, hwalk⟩ := hfresh.space
  obtain ⟨res, words, hmap, hwords, hfirst⟩ := pagingMapTo_words htables
    peachosProgramVirtualAddress p.ptr (pagingAlignAddress (p.ptr + p.size)) binaryFlags
  -- the task lies in none of the tables
  have hfield : ∀ field : U32, field.toNat < 1024 →
      words (slot p.task field) = s.kernel.paging.words (slot p.task field) := by
    intro field hf
    rcases hwords with rfl | rfl
    · rfl
    · refine Function.update_of_ne (fun he => ?_) _ _
      exact hown 1 (by decide) (slot_inj hfresh.aligned (htables.tables 1 (by decide)).2 hf
        (by decide) he).1.symm
  have hset := htables.set (show peachosProgramVirtualAddress % 4096 = 0 from rfl)
    (p.ptr ||| binaryFlags)
  obtain ⟨htables', hothers⟩ : PageTables words (s.kernel.pageDirectory p.task) directory table ∧
      ∀ va, va % 4096 = 0 → va ≠ peachosProgramVirtualAddress →
        pageWalk words directory va = pageWalk s.kernel.paging.words directory va := by
    rcases hwords with rfl | rfl
    · exact ⟨htables, fun _ _ _ => rfl⟩
    · exact ⟨hset.1, fun va hva hne => (hset.2 va hva).trans (if_neg hne)⟩
  have hdirectory : words (slot p.task pageDirectoryField) = s.kernel.pageDirectory p.task :=
    hfield pageDirectoryField (by decide)
  rw [← hdirectory] at htables'
  refine ⟨{ s.kernel with paging := { s.kernel.paging with words } }, ?_,
    (hfield processField (by decide)).trans hfresh.process, ⟨directory, table, htables'⟩,
    fun va hva hne => ?_, fun hvalid hn => ?_⟩
  · have hchunk : loadField p.task pageDirectoryField s.kernel =
      .ok (s.kernel.pageDirectory p.task, s.kernel) := loadField_ok h0 pageDirectoryField s.kernel
    have hload : loadWord (s.kernel.pageDirectory p.task) 0 s.kernel.paging =
      .ok (directory, s.kernel.paging) := htables.getDirectory
    rw [processMapBinary, Exec.get_bind, hp, Exec.bind_ok (onKernel_ok hchunk),
      Exec.bind_ok (onKernel_ok (onPaging_ok hload)),
      Exec.bind_ok (onKernel_ok (onPaging_ok hmap))]
    rfl
  · have hroot : words (words (slot p.task pageDirectoryField)) = directory := htables'.head.2.2
    exact (congrArg (pageWalk words · va) hroot).trans ((hothers va hva hne).trans (hwalk va hva))
  · have hroot : words (words (slot p.task pageDirectoryField)) = directory := htables'.head.2.2
    refine (congrArg (pageWalk words · _) hroot).trans ?_
    rw [hfirst hvalid hn, hset.2 _ rfl, if_pos rfl]

/-! ### The stack and the task -/

theorem processLoadForSlotOut_ok (h : 0 ≤ res ∨ (s.mem process).task = 0) :
    processLoadForSlotOut process res s = .ok (res, s) := by
  rw [processLoadForSlotOut, Exec.get_bind, if_neg]
  · rfl
  · rintro ⟨hres, -, htask⟩
    rcases h with h | h
    · omega
    · exact htask h

variable {ptr size stack : U32} {k₁ k₂ k₃ : TaskState Heap}

/-- A task of `0` is returned as the status, and nothing is put into the slot; any other is taken
for a good one. -/
theorem processLoadTask_eq_ok (hnew : calls.taskNew process k = (task, k'))
    (hrun : processLoadTask calls process processSlot (s.written process p k) = .ok (res, s')) :
    res = 0 ∧ (task = 0 ∧ s'.processes = s.processes ∨
      task ≠ 0 ∧ ∃ k, s' = s.made process { p with task } processSlot k) := by
  rw [processLoadTask, Exec.bind_ok (call_written _ _ _ hnew)] at hrun
  by_cases h0 : task = 0
  · subst h0
    rw [if_pos (by decide), processLoadForSlotOut_ok (.inl (by decide))] at hrun
    cases hrun
    exact ⟨rfl, .inl ⟨rfl, rfl⟩⟩
  · have hint : task.toInt ≠ 0 := fun hi => h0 (BitVec.eq_of_toInt_eq hi)
    rw [if_neg hint, Exec.bind_ok (setProcess_written ..)] at hrun
    obtain ⟨res₁, s₁, hmap, hrun⟩ := Exec.bind_eq_ok.mp hrun
    obtain ⟨rfl, k₁, rfl⟩ := processMapBinary_eq_ok hmap
    cases hrun
    exact ⟨rfl, .inr ⟨h0, k₁, rfl⟩⟩

/-- With a good task, the process is put into its slot and its first page is mapped. -/
theorem processLoadTask_ok (processSlot : Nat) (hnew : calls.taskNew process k = (task, k'))
    (h0 : task ≠ 0) (hfresh : FreshTask k' task process) :
    ∃ k₁, processLoadTask calls process processSlot (s.written process p k) =
        .ok (0, s.made process { p with task } processSlot k₁) ∧
      FirstMapped k₁ { p with task } process := by
  obtain ⟨k₁, hmap, hmapped⟩ := processMapBinary_ok (written_mem s process { p with task } k') h0
    hfresh
  have hint : task.toInt ≠ 0 := fun hi => h0 (BitVec.eq_of_toInt_eq hi)
  refine ⟨k₁, ?_, hmapped⟩
  rw [processLoadTask, Exec.bind_ok (call_written _ _ _ hnew), if_neg hint,
    Exec.bind_ok (setProcess_written ..), processMapMemory, Exec.bind_ok hmap]
  rfl

/-- A process that has all it is to have. -/
def madeProcess (filename : List U8) (processSlot : Nat) (task ptr stack size : U32) : Process :=
  { id := BitVec.ofInt 16 processSlot
    filename := filename.take (peachosMaxPath - 1)
    task
    ptr
    stack
    size }

/-- Without a stack, `process_load` answers `-ENOMEM`. -/
theorem processLoadStack_none (hstack : kzalloc peachosUserProgramStackSize k = (0, k')) :
    processLoadStack calls filename process processSlot
        (s.written process (loadedProcess ptr size) k) =
      .ok (-enomem, s.written process (loadedProcess ptr size) k') := by
  rw [processLoadStack, Exec.bind_ok (call_written _ _ _ hstack), if_pos rfl]
  exact processLoadForSlotOut_ok (.inr (by rw [written_mem]; rfl))

/-- With one, it goes on to the task. -/
theorem processLoadStack_some (hstack : kzalloc peachosUserProgramStackSize k = (stack, k'))
    (h0 : stack ≠ 0) :
    processLoadStack calls filename process processSlot
        (s.written process (loadedProcess ptr size) k) =
      processLoadTask calls process processSlot
        (s.written process (madeProcess filename processSlot 0 ptr stack size) k') := by
  rw [processLoadStack, Exec.bind_ok (call_written _ _ _ hstack), if_neg h0,
    Exec.bind_ok (setProcess_written ..)]
  rfl

/-- What `process_load` does from the stack on. -/
theorem processLoadStack_eq_ok (hstack : kzalloc peachosUserProgramStackSize k₁ = (stack, k₂))
    (hnew : calls.taskNew process k₂ = (task, k₃))
    (hrun : processLoadStack calls filename process processSlot
      (s.written process (loadedProcess ptr size) k₁) = .ok (res, s')) :
    stack = 0 ∧ res < 0 ∧ s'.kernel = k₂ ∨
      stack ≠ 0 ∧ res = 0 ∧ (task = 0 ∧ s'.processes = s.processes ∨ task ≠ 0 ∧
        ∃ k, s' = s.made process (madeProcess filename processSlot task ptr stack size)
          processSlot k) := by
  by_cases h0 : stack = 0
  · subst h0
    rw [processLoadStack_none hstack] at hrun
    cases hrun
    exact .inl ⟨rfl, by decide, rfl⟩
  · rw [processLoadStack_some hstack h0] at hrun
    exact .inr ⟨h0, processLoadTask_eq_ok hnew hrun⟩

/-- The same with a stack and a good task. -/
theorem processLoadStack_ok (processSlot : Nat)
    (hstack : kzalloc peachosUserProgramStackSize k₁ = (stack, k₂)) (hstack0 : stack ≠ 0)
    (hnew : calls.taskNew process k₂ = (task, k₃)) (htask0 : task ≠ 0)
    (hfresh : FreshTask k₃ task process) :
    ∃ k, processLoadStack calls filename process processSlot
          (s.written process (loadedProcess ptr size) k₁) =
        .ok (0, s.made process (madeProcess filename processSlot task ptr stack size)
          processSlot k) ∧
      FirstMapped k (madeProcess filename processSlot task ptr stack size) process := by
  rw [processLoadStack_some hstack hstack0]
  exact processLoadTask_ok processSlot hnew htask0 hfresh

/-- What `process_load` does up to the stack, once there is a process. -/
theorem processLoad_cases (stale : U32) (hslot : processGetFreeSlot s.processes = processSlot)
    (hlt : processSlot < peachosMaxProcesses) (hfree : s.processes processSlot = 0)
    (hprocess : kzalloc sizeofProcess s.kernel = (process, k₁)) (h0 : process ≠ 0)
    (hbinary : binaryOutcomes calls filename k₁ = (o, k₂)) :
    (o.Succeed ∧ processLoad calls filename stale s =
      processLoadStack calls filename process processSlot
        (s.written process (loadedProcess o.data o.filesize) k₂)) ∨
    ¬ o.Succeed ∧ ∃ k, FileCalls calls k₁ k ∧
      ((∃ res < 0, processLoad calls filename stale s =
          .ok (res, s.written process (loadedProcess 0 0) k)) ∨
        processLoad calls filename stale s =
          processLoadStack calls filename process processSlot
            (s.written process (loadedProcess 0 0) k)) := by
  rw [processLoad_slot stale hslot hlt hfree hprocess, if_neg h0]
  by_cases ho : o.Succeed
  · refine .inl ⟨ho, ?_⟩
    rw [Exec.bind_ok (processLoadBinary_ok hbinary ho), if_neg (show ¬ (0 : Int) < 0 by decide)]
    rfl
  · obtain ⟨res, k, hload, hres, hcalls⟩ := processLoadBinary_fails hbinary ho
    refine .inr ⟨ho, k, hcalls, ?_⟩
    rw [Exec.bind_ok hload]
    by_cases hneg : res < 0
    · rw [if_pos hneg]
      exact .inl ⟨res, hneg, processLoadForSlotOut_ok (.inr (by rw [written_mem]; rfl))⟩
    · rw [if_neg hneg]
      exact .inr rfl

end KernelNES.Task
