import KernelNES.Task.ProcessLoad
import KernelNES.Task.TaskList

/-!
# Task — AllOrNothing

`process_load` is to load a process or to leave everything as it was (`AllOrNothing`).  Whichever
call fails once there is a `struct process`, nothing frees it: all or nothing it is exactly when
there is no process to begin with or nothing fails (`allOrNothing_iff`).
-/

namespace KernelNES.Task
open KernelNES.Lib KernelNES.Memory

variable {calls : Calls} {filename : List U8} {s s' : ProcessState} {k k' : TaskState Heap}
  {process task : U32} {processSlot : Nat} {res : Int}

/-! ### The heap -/

/-- An allocation leaves the heap in its place. -/
theorem kzalloc_inPlace {size ptr : U32} (h : HeapInPlace k.paging.heap)
    (hrun : kzalloc size k = (ptr, k')) : HeapInPlace k'.paging.heap := by
  cases hrun
  have hextends := heapMalloc_extends k.paging.heap size
  exact ⟨hextends.saddr.trans h.saddr, hextends.total.trans h.total⟩

/-- The heap has not moved, and block `r` is taken. -/
structure Holding (r : Nat) (k : TaskState Heap) : Prop where
  place : HeapInPlace k.paging.heap
  taken : ¬ EntryFree (k.paging.heap.table.entries r)

/-- No call of `process_load_binary` frees block `r`, whichever are made from `k` on. -/
def Calls.Spare (calls : Calls) (r : Nat) (k : TaskState Heap) : Prop :=
  ∀ k', FileCalls calls k k' → Holding r k'

/-- An allocation leaves what is held alone. -/
theorem Holding.kzalloc {r : Nat} {size ptr : U32} (h : Holding r k)
    (hrun : kzalloc size k = (ptr, k')) : Holding r k' := by
  refine ⟨kzalloc_inPlace h.place hrun, ?_⟩
  cases hrun
  exact heapMalloc_taken k.paging.heap size h.taken

/-- An allocation takes no more blocks than it asks for. -/
theorem kzalloc_freeBlocks {size ptr : U32} (hrun : kzalloc size k = (ptr, k')) :
    k.paging.heap.freeBlocks.card ≤
      k'.paging.heap.freeBlocks.card + (blocksFor size).toNat := by
  cases hrun
  exact heapMalloc_freeBlocks k.paging.heap size

/-- `kzalloc` fails, or returns a block that was free. -/
theorem kzalloc_block {size ptr : U32} (hrun : kzalloc size k = (ptr, k')) :
    ptr = 0 ∧ k'.paging.heap = k.paging.heap ∨
      ∃ b < k.paging.heap.table.total.toNat, ptr = heapBlockToAddress k.paging.heap b ∧
        EntryFree (k.paging.heap.table.entries b) ∧
        k'.paging.heap = heapMarkBlocksTaken k.paging.heap b (blocksFor size).toNat := by
  have hmalloc : heapMalloc k.paging.heap size = (ptr, k'.paging.heap) := by
    cases hrun
    rfl
  rcases heapMalloc_block k.paging.heap size with he | ⟨b, hb, hfree, he⟩
  · obtain ⟨h0, hheap⟩ := Prod.mk.inj (hmalloc.symm.trans he)
    exact .inl ⟨h0, hheap⟩
  · obtain ⟨haddr, hheap⟩ := Prod.mk.inj (hmalloc.symm.trans he)
    exact .inr ⟨b, hb, haddr, hfree, hheap⟩

/-- The binary is put where `paging_map_to` takes it. -/
theorem kzalloc_aligned {size ptr : U32} (hplace : HeapInPlace k.paging.heap)
    (hrun : kzalloc size k = (ptr, k')) : ptr % 4096 = 0 ∧ ptr.toNat + 8192 < 2 ^ 32 := by
  rcases kzalloc_block hrun with ⟨rfl, -⟩ | ⟨b, hb, rfl, -⟩
  · exact ⟨rfl, by decide⟩
  · refine ⟨(hplace.paged.address_page hb).2, ?_⟩
    obtain ⟨haddr, hlt⟩ := hplace.address_toNat hb
    omega

/-- There is no process, or one in a block that was free. -/
theorem kzalloc_process (hplace : HeapInPlace k.paging.heap)
    (hrun : kzalloc sizeofProcess k = (process, k')) :
    process = 0 ∧ k'.paging.heap = k.paging.heap ∨
      process ≠ 0 ∧ ∃ b < k.paging.heap.table.total.toNat,
        process = heapBlockToAddress k.paging.heap b ∧
        EntryFree (k.paging.heap.table.entries b) := by
  rcases kzalloc_block hrun with h | ⟨b, hb, rfl, hfree, -⟩
  · exact .inl h
  · exact .inr ⟨(hplace.paged.address_page hb).1, b, hb, rfl, hfree⟩

/-! ### All or nothing -/

/-- A task that can be switched to: it is no error, its process is `process`, and it has an address
space. -/
structure ValidTask (k : TaskState Heap) (task process : U32) : Prop where
  pos : 0 < task.toInt
  process : k.paging.words (slot task processField) = process
  space : ∃ directory table, PageTables k.paging.words (k.pageDirectory task) directory table

/-- Every page of the binary is mapped, from `PEACHOS_PROGRAM_VIRTUAL_ADDRESS` on. -/
structure BinaryMapped (k : TaskState Heap) (p : Process) : Prop where
  loaded : p.ptr ≠ 0
  mapped : ∀ i < (p.size.toNat + 4095) / 4096,
    pageWalk k.paging.words (k.paging.words (k.pageDirectory p.task))
      (rangePage peachosProgramVirtualAddress i) = rangePage p.ptr i ||| binaryFlags

/-- A free slot holds a new process, with a task in whose address space the binary is mapped. -/
structure Loaded (s : ProcessState) (processSlot : Nat) (process : U32) (s' : ProcessState) :
    Prop where
  free : processSlot < peachosMaxProcesses ∧ s.processes processSlot = 0
  new : process ≠ 0 ∧ ∃ b < s.kernel.paging.heap.table.total.toNat,
    process = heapBlockToAddress s.kernel.paging.heap b ∧
      EntryFree (s.kernel.paging.heap.table.entries b)
  processes : s'.processes = Function.update s.processes processSlot process
  given : s'.process = process
  id : (s'.mem process).id.toNat = processSlot
  task : ValidTask s'.kernel (s'.mem process).task process
  mapped : BinaryMapped s'.kernel (s'.mem process)

/-- The processes, `*process` and the blocks of the heap are as they were. -/
structure Untouched (s s' : ProcessState) : Prop where
  processes : s'.processes = s.processes
  process : s'.process = s.process
  table : s'.kernel.paging.heap.table = s.kernel.paging.heap.table

/-- `process_load` returns, with a new process or with nothing changed. -/
def AllOrNothing (calls : Calls) (filename : List U8) (stale : U32) (s : ProcessState) : Prop :=
  ∃ res s', processLoad calls filename stale s = .ok (res, s') ∧
    (0 ≤ res ∧ (∃ processSlot process, Loaded s processSlot process s') ∨ res < 0 ∧ Untouched s s')

/-! ### Binaries of more than a page -/

/-- The second page is mapped to itself, and not writeable. -/
theorem FirstMapped.size_le {p : Process} (h : FirstMapped k p process)
    (hmapped : BinaryMapped k p) : p.size.toNat ≤ 4096 := by
  by_contra hlt
  have hsecond := hmapped.mapped 1 (by omega)
  rw [h.others _ (rangePage_aligned rfl 1) (rangePage_ne_first le_rfl (by decide))] at hsecond
  have hbit : BitVec.getLsbD _ 1 = BitVec.getLsbD _ 1 := congrArg (BitVec.getLsbD · 1) hsecond
  rw [BitVec.getLsbD_or, BitVec.getLsbD_or, show binaryFlags.getLsbD 1 = true by decide,
    Bool.or_true] at hbit
  exact absurd hbit (by decide)

/-- A binary of one page is mapped by its first page. -/
theorem FirstMapped.binaryMapped {p : Process} (h : FirstMapped k p process) (h0 : p.ptr ≠ 0)
    (ha : p.ptr % 4096 = 0) (hptr : p.ptr.toNat + 8192 < 2 ^ 32) (hsize : p.size.toNat ≤ 4096) :
    BinaryMapped k p := by
  refine ⟨h0, fun i hi => ?_⟩
  obtain ⟨hvalid, hpages⟩ := binary_range ha hsize hptr
  obtain rfl : i = 0 := by omega
  rw [rangePage_zero, rangePage_zero]
  exact h.first hvalid (by omega)

/-! ### Runs -/

variable {stale ptr size stack : U32} {k₁ k₂ k₃ : TaskState Heap} {r : Nat}

/-- Behind an error no block stays taken. -/
theorem AllOrNothing.not_leaked (hall : AllOrNothing calls filename stale s)
    (hrun : processLoad calls filename stale s = .ok (res, s')) (hres : res < 0)
    (hfree : EntryFree (s.kernel.paging.heap.table.entries r)) : ¬ Holding r s'.kernel := by
  intro hheld
  obtain ⟨res', s₁, hrun', hout⟩ := hall
  cases hrun.symm.trans hrun'
  rcases hout with ⟨h0, -⟩ | ⟨-, huntouched⟩
  · omega
  · exact hheld.taken (huntouched.table ▸ hfree)

/-- A `process_load` that goes on to the stack gets one, and a task, and has the binary mapped. -/
theorem AllOrNothing.of_stack (hall : AllOrNothing calls filename stale s)
    (hload : processLoad calls filename stale s = processLoadStack calls filename process
      processSlot (s.written process (loadedProcess ptr size) k₁))
    (hstack : kzalloc peachosUserProgramStackSize k₁ = (stack, k₂))
    (hnew : calls.taskNew process k₂ = (task, k₃))
    (hfree : EntryFree (s.kernel.paging.heap.table.entries r)) (hheld : Holding r k₂) :
    stack ≠ 0 ∧ 0 < task.toInt ∧ ∃ k, processLoad calls filename stale s =
        .ok (0, s.made process (madeProcess filename processSlot task ptr stack size)
          processSlot k) ∧
      BinaryMapped k (madeProcess filename processSlot task ptr stack size) := by
  obtain ⟨res, s', hrun, hout⟩ := id hall
  rcases processLoadStack_eq_ok hstack hnew (hload ▸ hrun) with
    ⟨-, hres, hkernel⟩ | ⟨h0, rfl, hmade⟩
  · exact absurd (hkernel ▸ hheld) (hall.not_leaked hrun hres hfree)
  · obtain ⟨-, i, process', hloaded⟩ | ⟨hneg, -⟩ := hout
    · rcases hmade with ⟨-, hsame⟩ | ⟨-, k, rfl⟩
      · -- nothing has been put into the slot
        have hnew := congrFun (hsame.symm.trans hloaded.processes) i
        rw [Function.update_self, hloaded.free.2] at hnew
        exact absurd hnew.symm hloaded.new.1
      · obtain rfl : process = process' := hloaded.given
        have htask := hloaded.task
        have hmapped := hloaded.mapped
        rw [made_mem] at htask hmapped
        exact ⟨h0, htask.pos, k, hrun, hmapped⟩
    · omega

/-- The calls one by one, with the states between them. -/
theorem outcomes_inv {o : Outcomes} (h : outcomes calls filename k = (o, k')) :
    ∃ k₁ k₂ k₃, kzalloc sizeofProcess k = (o.process, k₁) ∧
      binaryOutcomes calls filename k₁ = (o.binary, k₂) ∧
      kzalloc peachosUserProgramStackSize k₂ = (o.stack, k₃) ∧
      calls.taskNew o.process k₃ = (o.task, k') := by
  obtain ⟨rfl, rfl⟩ := Prod.mk.inj h.symm
  exact ⟨_, _, _, rfl, rfl, rfl, rfl⟩

/-- The answers, call by call. -/
theorem outcomes_eq {o : Outcomes} {k₁ k₂ k₃ : TaskState Heap}
    (hprocess : kzalloc sizeofProcess k = (o.process, k₁))
    (hbinary : binaryOutcomes calls filename k₁ = (o.binary, k₂))
    (hstack : kzalloc peachosUserProgramStackSize k₂ = (o.stack, k₃))
    (hnew : calls.taskNew o.process k₃ = (o.task, k')) : outcomes calls filename k = (o, k') := by
  simp only [outcomes, bind, StateT.bind, hprocess, hbinary, hstack, hnew]
  rfl

/-- The binary is put where a page can be mapped to it. -/
theorem binaryOutcomes_data {b : BinaryOutcomes} (hspare : calls.Spare r k)
    (h : binaryOutcomes calls filename k = (b, k')) :
    b.data % 4096 = 0 ∧ b.data.toNat + 8192 < 2 ^ 32 := by
  obtain ⟨k₁, k₂, k₃, k₄, h⟩ := binaryOutcomes_inv h
  exact kzalloc_aligned (hspare k₂ h.statted).place h.kzalloc

/-- **`process_load` is all or nothing exactly when it is nothing, before there is a process, or
all, and the binary is not more than a page.**  The calls may do to the kernel what they will, as
long as those on files leave the block of the new process alone and a task that `task_new` gives is
one. -/
theorem allOrNothing_iff (stale : U32) {o : Outcomes} (hplace : HeapInPlace s.kernel.paging.heap)
    (ho : outcomes calls filename s.kernel = (o, k))
    (hspare : ∀ b < s.kernel.paging.heap.table.total.toNat,
      o.process = heapBlockToAddress s.kernel.paging.heap b →
        calls.Spare b (kzalloc sizeofProcess s.kernel).2)
    (htask : 0 < o.task.toInt → FreshTask k o.task o.process) :
    AllOrNothing calls filename stale s ↔ (∀ i < peachosMaxProcesses, s.processes i ≠ 0) ∨
      o.process = 0 ∨ o.Succeed ∧ o.binary.filesize.toNat ≤ 4096 := by
  rcases processGetFreeSlot_spec s.processes with ⟨htaken, hslot⟩ | ⟨i, hlt, hfree, hslot⟩
  · refine iff_of_true ⟨-eistkn, s, ?_, .inr ⟨by decide, rfl, rfl, rfl⟩⟩ (.inl htaken)
    rw [processLoad, Exec.get_bind, hslot, if_pos (by decide)]
    rfl
  have hsome : ¬ ∀ i < peachosMaxProcesses, s.processes i ≠ 0 := fun h => h i hlt hfree
  obtain ⟨k₁, k₂, k₃, hprocess, hbinary, hstack, hnew⟩ := outcomes_inv ho
  rcases kzalloc_process hplace hprocess with ⟨h0, hheap⟩ | ⟨h0, b, hb, haddr, hblock⟩
  · refine iff_of_true ⟨-enomem, { s with kernel := k₁ }, ?_, .inr ⟨by decide, rfl, rfl, ?_⟩⟩
      (.inr (.inl h0))
    · rw [processLoad_slot stale hslot hlt hfree hprocess, if_pos h0]
    · exact congrArg Heap.table hheap
  have hspare := hspare b hb haddr
  rw [hprocess] at hspare
  have hcases := processLoad_cases stale hslot hlt hfree hprocess h0 hbinary
  have hdata := binaryOutcomes_data hspare hbinary
  rw [or_iff_right hsome, or_iff_right h0]
  have htask0 : 0 < o.task.toInt → o.task ≠ 0 := fun hpos h => by
    rw [h] at hpos
    exact absurd hpos (by decide)
  constructor
  · intro hall
    rcases hcases with ⟨hsucceed, hload⟩ | ⟨-, k', hcalls, ⟨res, hres, hload⟩ | hload⟩
    · obtain ⟨_, _, _, _, hcalls⟩ := binaryOutcomes_inv hbinary
      have hheld := (hspare k₂ hcalls.closed).kzalloc hstack
      obtain ⟨hstack0, hpos, k₄, hrun, hmapped⟩ := hall.of_stack hload hstack hnew hblock hheld
      obtain ⟨k₅, hrun', hfirst⟩ := processLoadStack_ok i hstack hstack0 hnew (htask0 hpos)
        (htask hpos)
      obtain rfl : k₄ = k₅ :=
        congrArg (fun r => r.2.kernel) (Except.ok.inj (hrun.symm.trans (hload.trans hrun')))
      exact ⟨⟨hsucceed, hstack0, hpos⟩, hfirst.size_le hmapped⟩
    · exact absurd (hspare k' hcalls) (hall.not_leaked hload hres hblock)
    · -- there is no binary
      obtain ⟨-, -, k₄, -, hmapped⟩ := hall.of_stack hload rfl rfl hblock
        ((hspare k' hcalls).kzalloc rfl)
      exact absurd rfl hmapped.loaded
  · rintro ⟨⟨hsucceed, hstack0, hpos⟩, hsize⟩
    rcases hcases with ⟨-, hload⟩ | ⟨hfails, -⟩
    · obtain ⟨k₄, hrun, hfirst⟩ := processLoadStack_ok i hstack hstack0 hnew (htask0 hpos)
        (htask hpos)
      refine ⟨0, _, hload.trans hrun, .inl ⟨le_rfl, i, o.process, ⟨hlt, hfree⟩,
        ⟨h0, b, hb, haddr, hblock⟩, rfl, rfl, ?_, ?_, ?_⟩⟩
      · rw [made_mem]
        have hbound : i < 12 := hlt
        show (BitVec.ofInt 16 i).toNat = i
        rw [BitVec.ofInt_natCast, BitVec.toNat_ofNat, Nat.mod_eq_of_lt (by omega)]
      · rw [made_mem]
        exact ⟨hpos, hfirst.process, hfirst.space⟩
      · rw [made_mem]
        exact hfirst.binaryMapped hsucceed.data hdata.1 hdata.2 hsize
    · exact absurd hsucceed hfails

/-! ### After boot -/

/-- Without processes. -/
def bootProcesses : ProcessState :=
  { kernel := bootState
    mem := fun _ => loadedProcess 0 0
    processes := fun _ => 0
    process := 0 }

theorem bootState_inPlace : HeapInPlace bootState.paging.heap := ⟨rfl, rfl⟩

/-- The blocks of a process, of a binary of 100 bytes and of the stack. -/
theorem bootState_kzalloc : ∃ k₁ k₂ k₃, kzalloc sizeofProcess bootState = (0x01000000, k₁) ∧
    kzalloc 100 k₁ = (0x01002000, k₂) ∧
    kzalloc peachosUserProgramStackSize k₂ = (0x01003000, k₃) ∧
    (¬ EntryFree (k₁.paging.heap.table.entries 0) ∧ ¬ EntryFree (k₁.paging.heap.table.entries 1)) ∧
    k₃.taskHead = 0 :=
  ⟨_, _, _, Prod.ext (by decide) rfl, Prod.ext (by decide) rfl, Prod.ext (by decide) rfl,
    ⟨by decide, by decide⟩, rfl⟩

/-- A file of 100 bytes, and `task_new`. -/
def smallFileCalls : Calls where
  fopen _ _ := pure 1
  fstat _ := pure (0, 100)
  fread _ _ _ _ := pure 1
  fclose _ := pure 0
  taskNew process := fun k =>
    match taskNew .kheap process k with
    | .ok r => r
    | .error _ => (0, k)

theorem smallFileCalls_spare {r : Nat} (h : Holding r k) : smallFileCalls.Spare r k := by
  intro k' hcalls
  induction hcalls with
  | refl => exact h
  | tail _ hstep ih =>
    cases hstep with
    | kzalloc size => exact ih.kzalloc rfl
    | fopen => exact ih
    | fstat => exact ih
    | fread => exact ih
    | fclose => exact ih

/-- The file is loaded. -/
theorem allOrNothing_iff_small : AllOrNothing smallFileCalls [0x61] 0 bootProcesses := by
  obtain ⟨k₁, k₂, k₃, hprocess, hdata, hstack, ⟨htaken, -⟩, hhead⟩ := bootState_kzalloc
  have hplace₁ := kzalloc_inPlace bootState_inPlace hprocess
  have hfree : 1027 ≤ k₃.paging.heap.freeBlocks.card := by
    have h₀ : bootState.paging.heap.freeBlocks.card = 25600 := kernelHeap_freeBlocks
    have h₁ : _ ≤ _ + 2 := kzalloc_freeBlocks hprocess
    have h₂ : _ ≤ _ + 1 := kzalloc_freeBlocks hdata
    have h₃ : _ ≤ _ + 4 := kzalloc_freeBlocks hstack
    omega
  obtain ⟨task, k₄, hnew, hpos, hfresh⟩ := taskNew_fresh 0x01000000
    (kzalloc_inPlace (kzalloc_inPlace hplace₁ hdata) hstack) hfree (absurd hhead)
  have htask : smallFileCalls.taskNew 0x01000000 k₃ = (task, k₄) := by
    show (match taskNew .kheap 0x01000000 k₃ with | .ok r => r | .error _ => (0, k₃)) = _
    rw [hnew]
  have ho : outcomes smallFileCalls [0x61] bootProcesses.kernel =
      (⟨0x01000000, ⟨1, 0, 100, 0x01002000, 1⟩, 0x01003000, task⟩, k₄) := by
    have hbinary : binaryOutcomes smallFileCalls [0x61] k₁ =
        (⟨1, 0, 100, 0x01002000, 1⟩, k₂) := by
      show ((⟨1, 0, 100, (kzalloc 100 k₁).1, 1⟩ : BinaryOutcomes), (kzalloc 100 k₁).2) = _
      rw [hdata]
    exact outcomes_eq hprocess hbinary hstack htask
  have hsucceed : BinaryOutcomes.Succeed ⟨1, 0, 100, 0x01002000, 1⟩ :=
    ⟨by decide, rfl, by decide, rfl⟩
  refine (allOrNothing_iff 0 bootState_inPlace ho (fun b hb haddr => ?_) fun _ => hfresh).mpr
    (.inr (.inr ⟨⟨hsucceed, (show (0x01003000 : U32) ≠ 0 by decide), hpos⟩,
      (show (100 : U32).toNat ≤ 4096 by decide)⟩))
  obtain rfl : 0 = b := bootState_inPlace.paged.address_inj (by decide) hb haddr
  have hstart : (kzalloc sizeofProcess bootProcesses.kernel).2 = k₁ := congrArg Prod.snd hprocess
  rw [hstart]
  exact smallFileCalls_spare ⟨hplace₁, htaken⟩

/-- No file is found. -/
def noFileCalls : Calls where
  fopen _ _ := pure 0
  fstat _ := pure (-eio, 0)
  fread _ _ _ _ := pure (-eio)
  fclose _ := pure (-eio)
  taskNew _ := pure (BitVec.ofInt 32 (-enomem))

/-- **The file is missing:** the error is reported, and the two blocks of the process stay taken. -/
theorem missing_file_leaks :
    ∃ s', processLoad noFileCalls [0x61] 0 bootProcesses = .ok (-eio, s') ∧
      (∀ b : Nat, EntryFree (bootState.paging.heap.table.entries b)) ∧
      ¬ EntryFree (s'.kernel.paging.heap.table.entries 0) ∧
      ¬ EntryFree (s'.kernel.paging.heap.table.entries 1) ∧
      ¬ AllOrNothing noFileCalls [0x61] 0 bootProcesses := by
  obtain ⟨k₁, -, -, hprocess, -, -, ⟨h₀, h₁⟩, -⟩ := bootState_kzalloc
  have hload : processLoadBinary noFileCalls [0x61] 0x01000000
      (bootProcesses.written 0x01000000 (loadedProcess 0 0) k₁) =
    .ok (-eio, bootProcesses.written 0x01000000 (loadedProcess 0 0) k₁) := rfl
  have hrun : processLoad noFileCalls [0x61] 0 bootProcesses =
      .ok (-eio, bootProcesses.written 0x01000000 (loadedProcess 0 0) k₁) := by
    have hslot : processGetFreeSlot bootProcesses.processes = (0 : Nat) := rfl
    rw [processLoad_slot 0 hslot (by decide) rfl hprocess,
      if_neg (by decide : ¬ (0x01000000 : U32) = 0), Exec.bind_ok hload,
      if_pos (by decide : -eio < 0)]
    exact processLoadForSlotOut_ok (.inr (by rw [written_mem]; rfl))
  have hfree : ∀ b : Nat, EntryFree (bootState.paging.heap.table.entries b) :=
    fun _ => show EntryFree heapBlockTableEntryFree by decide
  exact ⟨_, hrun, hfree, h₀, h₁, fun hall => hall.not_leaked hrun (by decide) (hfree 0)
    ⟨kzalloc_inPlace bootState_inPlace hprocess, h₀⟩⟩

end KernelNES.Task
