import KernelNES.Task.TaskCalls

/-!
# Task — FreshTask

The task that `task_new` makes on the kernel heap: it lies in a block of its own, and in its address
space every page is mapped to itself (`taskNew_fresh`).
-/

namespace KernelNES.Task
open KernelNES.Lib KernelNES.Memory

variable {k : TaskState Heap} {task : U32}

/-- What `task_new` makes: a task of the process, in a block of its own, and an address space in
which every page is mapped to itself. -/
structure FreshTask (k : TaskState Heap) (task process : U32) : Prop where
  aligned : task % 4096 = 0
  process : k.paging.words (slot task processField) = process
  space : ∃ directory table, PageTables k.paging.words (k.pageDirectory task) directory table ∧
    (∀ i < 1024, table i ≠ task) ∧ ∀ va, va % 4096 = 0 → pageWalk k.paging.words directory va =
      va ||| (pagingIsPresent ||| pagingAccessFromAll).setWidth 32

/-- The tail of the list, if there is one, is a task in a block of its own. -/
structure TailTaken (k : TaskState Heap) : Prop where
  pos : k.taskTail ≠ 0
  aligned : k.taskTail % 4096 = 0
  took : k.paging.heap.Took k.taskTail

/-- The fields of a task other than its links are not written when it is put on the list. -/
theorem appended_field (ha : task % 4096 = 0)
    (htail : k.taskHead ≠ 0 → k.taskTail % 4096 = 0) {field : U32} (hf : field.toNat < 1024)
    (hnext : field ≠ nextField) (hprev : field ≠ prevField) :
    (appended k task).paging.words (slot task field) = k.paging.words (slot task field) := by
  rw [appended]
  split
  · rfl
  · rename_i hhead
    exact (withField_other _ ha ha (by decide) hf (.inr hprev) _).trans
      (withField_other _ (htail hhead) ha (by decide) hf (.inr hnext) _)

/-- Linking a task in changes it and the tail, and no other block. -/
theorem appended_words (ha : task % 4096 = 0) (htail : k.taskHead ≠ 0 → k.taskTail % 4096 = 0)
    {O : Set U32} (hO : task ∉ O) (hO' : k.taskHead ≠ 0 → k.taskTail ∉ O) :
    SameOn O k.paging.words (appended k task).paging.words := by
  rw [appended]
  split
  · exact .refl O _
  · rename_i hhead
    exact ((withField_words k (htail hhead) (by decide) task).sameOn (hO' hhead)).trans
      ((withField_words _ ha (by decide) k.taskTail).sameOn hO)

/-- **`task_new`** makes such a task. -/
theorem taskNew_fresh (process : U32) (hplace : HeapInPlace k.paging.heap)
    (hfree : 1027 ≤ k.paging.heap.freeBlocks.card) (htail : k.taskHead ≠ 0 → TailTaken k) :
    ∃ task k', taskNew .kheap process k = .ok (task, k') ∧ 0 < task.toInt ∧
      FreshTask k' task process := by
  obtain ⟨task, s₁, s₂, b, bs, k', hrun, hblocks⟩ :=
    taskNew_blocks process hplace.paged hfree fun hhead => (htail hhead).pos
  obtain ⟨chunk, directory, table, d, ts, c, rfl, hspace, htables, hcells, rfl⟩ := hblocks.space
  have ha := hblocks.took.aligned
  have htook := tookEach_of_run hblocks.run
  have htask : task ∉ {p | p ∈ spacePages chunk directory table} :=
    hspace.not_mem htook.free hblocks.took.took
  have htail' : k.taskHead ≠ 0 → k.taskTail ∉ {p | p ∈ spacePages chunk directory table} :=
    fun hhead => hspace.not_mem htook.free (hblocks.took.keeps _ (htail hhead).took).1
  have hsame := ((initialized_words { k with paging := s₂ } ha chunk process).sameOn htask).trans
    (appended_words (k := initialized { k with paging := s₂ } task chunk process) ha
      (fun hhead => (htail hhead).aligned) htask htail')
  have htables' := pageTables_congr htables hsame
  have hfield : ∀ field : U32, field.toNat < 1024 → field ≠ nextField → field ≠ prevField → _ :=
    fun field => appended_field (k := initialized { k with paging := s₂ } task chunk process) ha
      fun hhead => (htail hhead).aligned
  refine ⟨task, _, hrun, ?_, ha, ?_, directory, table, ?_, fun i hi he => htask ?_,
    fun va hva => ?_⟩
  · rw [hblocks.block]
    exact hplace.address_pos (Heap.freeBlocks_lt hblocks.takes.1)
  · rw [hfield processField (by decide) (by decide) (by decide)]
    exact withField_self ..
  · have hdirectory := (hfield pageDirectoryField (by decide) (by decide) (by decide)).trans
      (initialized_fields { k with paging := s₂ } ha chunk process).1
    unfold TaskState.pageDirectory
    rw [hdirectory]
    exact htables'
  · exact he ▸ table_mem_spacePages chunk directory table hi
  · refine htables'.walk_fresh (fun i hi j hj => ?_) hva
    have hmem := table_mem_spacePages chunk directory table hi
    rw [hsame.slot hmem (htables.tables i hi).2 (by rwa [index_toNat hj])]
    exact hcells i hi j hj

end KernelNES.Task
