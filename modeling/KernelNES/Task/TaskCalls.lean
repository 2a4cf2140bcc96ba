import KernelNES.Task.Task

/-!
# Task — TaskCalls

What each function of `task.c` does.  `task_free` writes one word of memory, the `next` of the task
in front (`taskFree_ok`); the `prev` of the task behind is not written.  `task_new` makes a task and
its address space from pages that were not out (`taskNew_take`).
-/

namespace KernelNES.Task
open KernelNES.Lib KernelNES.Memory

variable {H α : Type} {alloc : Allocator H} {s s' : TaskState H} {task : U32}

/-! ### Fields -/

/-- `task->page_directory`. -/
def TaskState.pageDirectory (s : TaskState H) (task : U32) : U32 :=
  s.paging.words (slot task pageDirectoryField)

/-- `task->next`. -/
def TaskState.next (s : TaskState H) (task : U32) : U32 := s.paging.words (slot task nextField)

/-- `task->prev`. -/
def TaskState.prev (s : TaskState H) (task : U32) : U32 := s.paging.words (slot task prevField)

/-- What the paging calls answer, with their state put back. -/
theorem onPaging_ok {x : Exec Fault (PagingState H) α} {a : α} {paging : PagingState H}
    (h : x s.paging = .ok (a, paging)) : onPaging x s = .ok (a, { s with paging }) := by
  rw [onPaging, h]

theorem onPaging_eq_ok {x : Exec Fault (PagingState H) α} {a : α} (h : onPaging x s = .ok (a, s')) :
    ∃ paging, x s.paging = .ok (a, paging) ∧ s' = { s with paging } := by
  rw [onPaging] at h
  cases hx : x s.paging with
  | error e => rw [hx] at h; cases h
  | ok r =>
    rw [hx] at h
    cases h
    exact ⟨r.2, rfl, rfl⟩

theorem loadField_ok (h : task ≠ 0) (field : U32) (s : TaskState H) :
    loadField task field s = .ok (s.paging.words (slot task field), s) :=
  onPaging_ok (loadWord_ok h field s.paging)

theorem loadField_eq_ok {field val : U32} (h : loadField task field s = .ok (val, s')) :
    task ≠ 0 ∧ val = s.paging.words (slot task field) ∧ s' = s := by
  obtain ⟨paging, hload, rfl⟩ := onPaging_eq_ok h
  obtain ⟨h0, hval, rfl⟩ := loadWord_eq_ok hload
  exact ⟨h0, hval, rfl⟩

/-- Heap and memory after `task->field = val`. -/
def TaskState.withField (s : TaskState H) (task field val : U32) : TaskState H :=
  { s with paging := { s.paging with
      words := Function.update s.paging.words (slot task field) val } }

theorem storeField_ok (h : task ≠ 0) (field val : U32) (s : TaskState H) :
    storeField task field val s = .ok ((), s.withField task field val) :=
  onPaging_ok (storeWord_ok h field val s.paging)

/-! ### `task_get_next` and `task_list_remove` -/

/-- The next task, or the first behind the last. -/
theorem taskGetNext_ok (h : s.currentTask ≠ 0) : taskGetNext s =
    .ok (if s.next s.currentTask = 0 then s.taskHead else s.next s.currentTask, s) := by
  have hload : loadField s.currentTask nextField s = .ok (s.next s.currentTask, s) :=
    loadField_ok h nextField s
  rw [taskGetNext, Exec.get_bind, Exec.bind_ok hload]
  by_cases hnext : s.next s.currentTask = 0
  · rw [if_pos hnext, if_pos hnext]
    rfl
  · rw [if_neg hnext, if_neg hnext, hload]

/-- Memory once the task in front of `task` leads to the one behind. -/
def unlinkedWords (s : TaskState H) (task : U32) : U32 → U32 :=
  if s.prev task = 0 then s.paging.words
  else Function.update s.paging.words (slot (s.prev task) nextField) (s.next task)

theorem taskListUnlink_ok (h : task ≠ 0) : taskListUnlink task s =
    .ok ((), { s with paging := { s.paging with words := unlinkedWords s task } }) := by
  have hprev : loadField task prevField s = .ok (s.prev task, s) := loadField_ok h prevField s
  have hnext : loadField task nextField s = .ok (s.next task, s) := loadField_ok h nextField s
  rw [taskListUnlink, Exec.bind_ok hprev, unlinkedWords]
  by_cases h0 : s.prev task = 0
  · rw [if_pos h0, if_pos h0]
    rfl
  · rw [if_neg h0, if_neg h0, Exec.bind_ok hnext, storeField_ok h0]
    rfl

theorem taskListDropHead_ok (h : task ≠ 0) : taskListDropHead task s =
    .ok ((), { s with taskHead := if task = s.taskHead then s.next task else s.taskHead }) := by
  rw [taskListDropHead, Exec.get_bind]
  split
  · rw [Exec.bind_ok (loadField_ok h nextField s)]
    rfl
  · rfl

theorem taskListDropTail_ok (h : task ≠ 0) : taskListDropTail task s =
    .ok ((), { s with taskTail := if task = s.taskTail then s.prev task else s.taskTail }) := by
  rw [taskListDropTail, Exec.get_bind]
  split
  · rw [Exec.bind_ok (loadField_ok h prevField s)]
    rfl
  · rfl

theorem taskListDropCurrent_ok (h : task ≠ 0) : taskListDropCurrent task s =
    .ok ((), { s with currentTask := if task = s.currentTask
      then (if s.next task = 0 then s.taskHead else s.next task) else s.currentTask }) := by
  rw [taskListDropCurrent, Exec.get_bind]
  split
  · rename_i hcurrent
    rw [Exec.bind_ok (taskGetNext_ok (hcurrent ▸ h)), ← hcurrent]
    rfl
  · rfl

/-- What `task_list_remove` makes of the list. -/
structure Removed (s : TaskState H) (task : U32) (s' : TaskState H) : Prop where
  words : s'.paging.words = unlinkedWords s task
  taskHead : s'.taskHead = if task = s.taskHead then s.next task else s.taskHead
  taskTail : s'.taskTail = if task = s.taskTail then s.prev task else s.taskTail
  currentTask : s'.currentTask = if task = s.currentTask
    then (if s.next task = 0 then s'.taskHead else s.next task) else s.currentTask

/-- The links of `task` itself are not written, as long as it is not in front of itself. -/
theorem taskListRemove_ok (h : task ≠ 0) (ha : task % 4096 = 0)
    (hprev : s.prev task ≠ task ∧ s.prev task % 4096 = 0) :
    ∃ s', taskListRemove task s = .ok ((), s') ∧ s'.paging.heap = s.paging.heap ∧
      Removed s task s' := by
  obtain ⟨s₁, hs₁⟩ : ∃ s₁ : TaskState H,
    s₁ = { s with paging := { s.paging with words := unlinkedWords s task } } := ⟨_, rfl⟩
  have hfield : ∀ field : U32, field.toNat < 1024 →
      s₁.paging.words (slot task field) = s.paging.words (slot task field) := fun field hf => by
    rw [hs₁]
    dsimp only [unlinkedWords]
    split
    · rfl
    · exact Function.update_of_ne
        (fun he => hprev.1 (slot_inj ha hprev.2 hf (by decide) he).1.symm) _ _
  have hnext : s₁.next task = s.next task := hfield nextField (by decide)
  have hprev₁ : s₁.prev task = s.prev task := hfield prevField (by decide)
  have hunlink : taskListUnlink task s = .ok ((), s₁) := by rw [taskListUnlink_ok h, hs₁]
  have hhead : s₁.taskHead = s.taskHead := by rw [hs₁]
  have htail : s₁.taskTail = s.taskTail := by rw [hs₁]
  have hcurrent : s₁.currentTask = s.currentTask := by rw [hs₁]
  refine ⟨_, ((Exec.bind_ok hunlink).trans ((Exec.bind_ok (taskListDropHead_ok h)).trans
    ((Exec.bind_ok (taskListDropTail_ok h)).trans (taskListDropCurrent_ok h)))), by rw [hs₁],
    by rw [hs₁], ?_, ?_, ?_⟩
  · show (if task = s₁.taskHead then s₁.next task else s₁.taskHead) = _
    rw [hhead, hnext]
  · show (if task = s₁.taskTail then s₁.prev task else s₁.taskTail) = _
    rw [htail, hprev₁]
  · show (if task = s₁.currentTask then (if s₁.next task = 0 then _ else s₁.next task)
      else s₁.currentTask) = _
    rw [hcurrent, hnext]

/-- **`task_free`** of a task whose address space can be freed. -/
theorem taskFree_ok {heap : H} (h : task ≠ 0) (ha : task % 4096 = 0)
    (hprev : s.prev task ≠ task ∧ s.prev task % 4096 = 0)
    (hspace : pagingFree4gb alloc (s.pageDirectory task) s.paging =
      .ok ((), { s.paging with heap })) :
    ∃ s', taskFree alloc task s = .ok (0, s') ∧ s'.paging.heap = alloc.kfree task heap ∧
      Removed s task s' := by
  have hchunk : loadField task pageDirectoryField s = .ok (s.pageDirectory task, s) :=
    loadField_ok h pageDirectoryField s
  obtain ⟨s₂, hremove, hheap, hremoved⟩ :=
    taskListRemove_ok (s := { s with paging := { s.paging with heap } }) h ha hprev
  refine ⟨{ s₂ with paging := { s₂.paging with heap := alloc.kfree task s₂.paging.heap } }, ?_, ?_,
    hremoved.words, hremoved.taskHead, hremoved.taskTail, hremoved.currentTask⟩
  · rw [taskFree, Exec.bind_ok hchunk, Exec.bind_ok (onPaging_ok hspace)]
    exact (Exec.bind_ok hremove).trans (Exec.bind_ok rfl)
  · dsimp only
    rw [hheap]

/-! ### `task_new` -/

/-- An address space reads the words of its own pages only. -/
theorem pageTables_congr {words words' : U32 → U32} {chunk directory : U32} {table : Nat → U32}
    (h : PageTables words chunk directory table)
    (hsame : SameOn {p | p ∈ spacePages chunk directory table} words words') :
    PageTables words' chunk directory table := by
  have hchunk : chunk ∈ spacePages chunk directory table := by simp [spacePages]
  have hdirectory : directory ∈ spacePages chunk directory table := by simp [spacePages]
  refine ⟨⟨h.head.1, h.head.2.1, ?_⟩, h.root, fun k hk => ?_, h.tables, h.apart, h.distinct⟩
  · have hword := hsame.slot hchunk h.head.2.1 (i := 0) (by decide)
    rw [slot_zero] at hword
    exact hword.trans h.head.2.2
  · rw [hsame.slot hdirectory h.root.2 (by rwa [index_toNat hk])]
    exact h.entries k hk

/-- A field of a task is a word of its page. -/
theorem withField_words (s : TaskState H) (ha : task % 4096 = 0) {field : U32}
    (hf : field.toNat < 1024) (val : U32) :
    SameOff task s.paging.words (s.withField task field val).paging.words := by
  intro a hpage
  refine Function.update_of_ne (fun he => hpage ?_) _ _
  rw [he, pageOf_slot ha hf]

@[simp] theorem withField_self (s : TaskState H) (task field val : U32) :
    (s.withField task field val).paging.words (slot task field) = val := Function.update_self _ _ _

/-- Another field, or a field of another task. -/
theorem withField_other (s : TaskState H) {task' field field' : U32} (ha : task % 4096 = 0)
    (ha' : task' % 4096 = 0) (hf : field.toNat < 1024) (hf' : field'.toNat < 1024)
    (hne : task' ≠ task ∨ field' ≠ field) (val : U32) :
    (s.withField task field val).paging.words (slot task' field') =
      s.paging.words (slot task' field') := by
  refine Function.update_of_ne (fun he => ?_) _ _
  obtain ⟨htask, hfield⟩ := slot_inj ha' ha hf' hf he
  exact hne.elim (absurd htask) (absurd hfield)

/-- The state `task_init` leaves, from that in which the address space has been made. -/
def initialized (s : TaskState H) (task chunk process : U32) : TaskState H :=
  ((((s.withField task pageDirectoryField chunk).withField task registersIpField
    peachosProgramVirtualAddress).withField task registersSsField userDataSegment).withField task
    registersEspField peachosProgramVirtualStackAddressStart).withField task processField process

/-- Setting up a task changes its block alone. -/
theorem initialized_words (s : TaskState H) (ha : task % 4096 = 0) (chunk process : U32) :
    SameOff task s.paging.words (initialized s task chunk process).paging.words :=
  (withField_words _ ha (by decide) _).trans <| (withField_words _ ha (by decide) _).trans <|
    (withField_words _ ha (by decide) _).trans <| (withField_words _ ha (by decide) _).trans
      (withField_words _ ha (by decide) _)

/-- Of the fields the list uses, `page_directory` is set. -/
theorem initialized_fields (s : TaskState H) (ha : task % 4096 = 0) (chunk process : U32) :
    (initialized s task chunk process).pageDirectory task = chunk ∧
      (initialized s task chunk process).next task = s.next task ∧
      (initialized s task chunk process).prev task = s.prev task := by
  unfold initialized TaskState.pageDirectory TaskState.next TaskState.prev
  simp (disch := first | assumption | decide | (apply Or.inr; decide)) only [withField_other,
    withField_self, and_self]

/-- Memory after the `memset` of `task_init`. -/
def clearedTask (paging : PagingState H) (task : U32) : PagingState H :=
  { paging with words := fun a =>
      if (a - task).toNat < sizeofTask.toNat then 0 else paging.words a }

/-- `task_init` succeeds once the address space is made. -/
theorem taskInit_ok {process chunk : U32} {paging : PagingState H} (h : task ≠ 0)
    (hnew : pagingNew4gb alloc (pagingIsPresent ||| pagingAccessFromAll)
      (clearedTask s.paging task) = .ok (chunk, paging)) (hchunk : chunk ≠ 0) :
    taskInit alloc task process s = .ok (0, initialized { s with paging } task chunk process) := by
  have hmemset : memsetTask task s = .ok ((), { s with paging := clearedTask s.paging task }) :=
    onPaging_ok (if_neg h)
  rw [taskInit, Exec.bind_ok hmemset, Exec.bind_ok (onPaging_ok hnew),
    Exec.bind_ok (storeField_ok h _ _ _), Exec.bind_ok (loadField_ok h _ _), withField_self,
    if_neg hchunk, Exec.bind_ok (storeField_ok h _ _ _), Exec.bind_ok (storeField_ok h _ _ _),
    Exec.bind_ok (storeField_ok h _ _ _), Exec.bind_ok (storeField_ok h _ _ _)]
  rfl

/-- What `task_new` has made when it puts the task on the list: the pages of the task and its
address space, and no links yet. -/
structure Made (Owns : H → Set U32 → Prop) (O : Set U32) (s : TaskState H) (task : U32)
    (ps : List U32) (s' : TaskState H) : Prop where
  took : TookPages Owns O O s.paging ps s'.paging
  space : ∃ directory table, PageTables s'.paging.words (s'.pageDirectory task) directory table ∧
    ps.Perm (task :: spacePages (s'.pageDirectory task) directory table)
  next : s'.next task = 0
  prev : s'.prev task = 0
  globals : s'.taskHead = s.taskHead ∧ s'.taskTail = s.taskTail ∧ s'.currentTask = s.currentTask

variable {Owns : H → Set U32 → Prop} {O : Set U32}

/-- The space that `task_init` makes, and the fields it leaves. -/
theorem taskInit_take (halloc : PageAllocator alloc Owns) {process : U32} {res : Int}
    (ho : Owns s.paging.heap O) (h : task ≠ 0) (ha : task % 4096 = 0) (hO : task ∈ O)
    (hrun : taskInit alloc task process s = .ok (res, s')) :
    res = 0 ∧ ∃ directory table ps,
      PageTables s'.paging.words (s'.pageDirectory task) directory table ∧
      ps.Perm (spacePages (s'.pageDirectory task) directory table) ∧
      TookPages Owns O (O \ {task}) s.paging ps s'.paging ∧ s'.next task = 0 ∧ s'.prev task = 0 ∧
      s'.taskHead = s.taskHead ∧ s'.taskTail = s.taskTail ∧ s'.currentTask = s.currentTask := by
  have hmade := hrun
  rw [taskInit] at hmade
  obtain ⟨_, s₁, hmemset, hmade⟩ := Exec.bind_eq_ok.mp hmade
  obtain ⟨cleared, hcleared, rfl⟩ := onPaging_eq_ok hmemset
  obtain rfl : cleared = clearedTask s.paging task := by
    rw [if_neg h] at hcleared
    cases hcleared
    rfl
  obtain ⟨chunk, s₂, hspace, -⟩ := Exec.bind_eq_ok.mp hmade
  obtain ⟨paging, hnew, -⟩ := onPaging_eq_ok hspace
  obtain ⟨directory, table, htables, ps, hperm, htook⟩ :=
    pagingNew4gb_take (s := clearedTask s.paging task) halloc ho hnew
  obtain ⟨rfl, rfl⟩ := Prod.mk.inj (Except.ok.inj
    (hrun.symm.trans (taskInit_ok h hnew htables.head.1)))
  obtain ⟨hdirectory, hnext, hprev⟩ := initialized_fields { s with paging } ha chunk process
  have hwords := initialized_words { s with paging } ha chunk process
  have htask : task ∉ {p | p ∈ spacePages chunk directory table} := fun hmem =>
    (htook.fresh task (hperm.mem_iff.mpr hmem)).2.2 hO
  -- the links are the zeros of the `memset`
  have hzero : ∀ field : U32, field.toNat < 16 → paging.words (slot task field) = 0 := by
    intro field hf
    rw [htook.words.slot hO ha (by omega)]
    refine if_pos ?_
    show (slot task field - task).toNat < 64
    unfold slot
    bv_omega
  refine ⟨rfl, directory, table, ps, ?_, ?_, ⟨htook.owns, htook.nodup, htook.fresh, ?_⟩,
    hnext.trans (hzero nextField (by decide)), hprev.trans (hzero prevField (by decide)), rfl, rfl,
    rfl⟩
  · rw [hdirectory]
    exact pageTables_congr htables (hwords.sameOn htask)
  · rw [hdirectory]
    exact hperm
  · intro a hin
    refine (hwords a hin.2).trans ((htook.words a hin.1).trans (if_neg fun hlt => hin.2 ?_))
    exact pageOf_of_sub_lt ha (Nat.lt_trans hlt (by decide))

/-- **`task_new`** makes a task and its address space from pages that were not out, and puts it on
the list. -/
theorem taskNew_take (halloc : PageAllocator alloc Owns) {process : U32}
    (ho : Owns s.paging.heap O) (hrun : taskNew alloc process s = .ok (task, s')) :
    task ≠ 0 ∧ ∃ ps s₁, Made Owns O s task ps s₁ ∧ taskListAppend task s₁ = .ok ((), s') := by
  rw [taskNew] at hrun
  obtain ⟨block, s₁, hblock, hmake⟩ := Exec.bind_eq_ok.mp hrun
  obtain ⟨paging, hkzalloc, rfl⟩ := onPaging_eq_ok hblock
  by_cases h : block = 0
  · -- there is no block, and `task_free` of the null pointer faults
    subst h
    rw [if_pos rfl, taskNewOut, if_pos (by decide)] at hmake
    obtain ⟨_, _, hfree, -⟩ := Exec.bind_eq_ok.mp hmake
    rw [taskFree] at hfree
    obtain ⟨_, _, hload, -⟩ := Exec.bind_eq_ok.mp hfree
    exact absurd rfl (loadField_eq_ok hload).1
  · have htook := kzallocWords_take halloc ho (by decide) (by decide) hkzalloc h
    obtain ⟨-, ha, hout⟩ := htook.fresh block (List.mem_singleton_self _)
    rw [if_neg h] at hmake
    obtain ⟨res, s₂, hinit, hlist⟩ := Exec.bind_eq_ok.mp hmake
    obtain ⟨rfl, directory, table, ps, htables, hperm, htook', hnext, hprev, hglobals⟩ :=
      taskInit_take (O := O ∪ {p | p ∈ [block]}) halloc htook.owns h ha
        (.inr (List.mem_singleton_self _)) hinit
    rw [if_neg (not_not.mpr rfl)] at hlist
    obtain ⟨_, s₃, happend, hret⟩ := Exec.bind_eq_ok.mp hlist
    rw [taskNewOut, if_neg (by decide)] at hret
    cases hret
    have hK : TookPages Owns (O ∪ {p | p ∈ [task]}) O paging ps s₂.paging :=
      ⟨htook'.owns, htook'.nodup, htook'.fresh,
        htook'.words.mono fun p hp => ⟨.inl hp, fun he => hout (he ▸ hp)⟩⟩
    exact ⟨h, [task] ++ ps, s₂, ⟨htook.trans hK, ⟨directory, table, htables, hperm.cons task⟩,
      hnext, hprev, hglobals⟩, happend⟩

/-- The state in which the list has the new task behind the last. -/
def appended (s : TaskState H) (task : U32) : TaskState H :=
  if s.taskHead = 0 then { s with taskHead := task, taskTail := task }
  else { (s.withField s.taskTail nextField task).withField task prevField s.taskTail with
    taskTail := task }

/-- The new task is put behind the last. -/
theorem taskListAppend_ok (h : task ≠ 0) (htail : s.taskHead ≠ 0 → s.taskTail ≠ 0) :
    taskListAppend task s = .ok ((), appended s task) := by
  rw [taskListAppend, Exec.get_bind, appended]
  by_cases h0 : s.taskHead = 0
  · rw [if_pos h0, if_pos h0]
    rfl
  · rw [if_neg h0, if_neg h0, Exec.bind_ok (storeField_ok (htail h0) _ _ _),
      Exec.bind_ok (storeField_ok h _ _ _)]
    rfl

/-- `task_switch` touches neither memory nor the list. -/
theorem taskSwitch_eq_ok {res : Int} (hrun : taskSwitch task s = .ok (res, s')) :
    s'.paging = s.paging ∧ s'.taskHead = s.taskHead ∧ s'.taskTail = s.taskTail := by
  rw [taskSwitch] at hrun
  obtain ⟨_, s₁, hcurrent, hrest⟩ := Exec.bind_eq_ok.mp hrun
  obtain ⟨chunk, s₂, hchunk, hrest⟩ := Exec.bind_eq_ok.mp hrest
  obtain ⟨directory, s₃, hdirectory, hrest⟩ := Exec.bind_eq_ok.mp hrest
  obtain ⟨-, -, rfl⟩ := loadField_eq_ok hchunk
  obtain ⟨paging, hload, rfl⟩ := onPaging_eq_ok hdirectory
  obtain ⟨-, -, rfl⟩ := loadWord_eq_ok hload
  cases hcurrent
  cases hrest
  exact ⟨rfl, rfl, rfl⟩

theorem appended_heap (s : TaskState H) (task : U32) :
    (appended s task).paging.heap = s.paging.heap := by
  unfold appended
  split
  · rfl
  · rfl

/-- What `task_new` takes, and in which order: a block for the task, and those of its address
space. -/
structure TaskBlocks (s : TaskState Heap) (process task : U32) (paging₁ paging₂ : PagingState Heap)
    (b : Nat) (bs : List Nat) (s' : TaskState Heap) : Prop where
  block : task = heapBlockToAddress s.paging.heap b
  takes : TakesOne s.paging.heap b paging₁.heap
  took : TookBlock s.paging paging₁ task
  space : ∃ chunk directory table d ts c, bs = d :: (ts ++ [c]) ∧
    SpaceBlocks paging₁.heap chunk directory table d ts c ∧
    PageTables paging₂.words chunk directory table ∧
    (∀ k < 1024, ∀ b < 1024, paging₂.words (slot (table k) (BitVec.ofNat 32 b)) =
      initialEntry (tableOffset k) (pagingIsPresent ||| pagingAccessFromAll) b) ∧
    s' = appended (initialized { s with paging := paging₂ } task chunk process) task
  run : Run TakesOne paging₁.heap bs paging₂.heap

/-- `task_new` takes one block, and those of an address space. -/
theorem taskNew_blocks {s : TaskState Heap} (process : U32) (hpaged : PagedHeap s.paging.heap)
    (hfree : 1027 ≤ s.paging.heap.freeBlocks.card) (htail : s.taskHead ≠ 0 → s.taskTail ≠ 0) :
    ∃ task paging₁ paging₂ b bs s', taskNew .kheap process s = .ok (task, s') ∧
      TaskBlocks s process task paging₁ paging₂ b bs s' := by
  obtain ⟨b, s₁, hblock, htake, htook⟩ :=
    kzallocWords_takesOne sizeofTask (by decide) (by decide) hpaged (by omega)
  obtain ⟨task, htask⟩ : ∃ task, heapBlockToAddress s.paging.heap b = task := ⟨_, rfl⟩
  rw [htask] at hblock htook
  have hleft := htook.left
  obtain ⟨chunk, s₂, directory, table, d, ts, c, hnew, ⟨htables, hcells⟩, hblocks, hspace⟩ :=
    pagingNew4gb_blocks (s := clearedTask s₁ task) (pagingIsPresent ||| pagingAccessFromAll)
      htook.paged (by show 1026 ≤ s₁.heap.freeBlocks.card; omega)
  have hinit : taskInit .kheap task process { s with paging := s₁ } = _ :=
    taskInit_ok htook.pos hnew htables.head.1
  have happend : taskListAppend task (initialized { s with paging := s₂ } task chunk process) =
    .ok ((), appended _ task) := taskListAppend_ok htook.pos htail
  refine ⟨task, s₁, s₂, b, _, _, ?_, htask.symm, htake, htook,
    ⟨chunk, directory, table, d, ts, c, rfl, hspace, htables, hcells, rfl⟩, hblocks⟩
  rw [taskNew, Exec.bind_ok (onPaging_ok hblock), if_neg htook.pos, Exec.bind_ok hinit,
    if_neg (not_not.mpr rfl)]
  exact Exec.bind_ok happend

/-- **`task_new` succeeds on the kernel heap while 1027 blocks are free.** -/
theorem taskNew_kheap {s : TaskState Heap} (process : U32) (hkernel : KernelHeap s.paging.heap)
    (hfree : 1027 ≤ s.paging.heap.freeBlocks.card) (htail : s.taskHead ≠ 0 → s.taskTail ≠ 0) :
    ∃ task s', taskNew .kheap process s = .ok (task, s') ∧ task ≠ 0 ∧ 0 ≤ task.toInt ∧
      KernelHeap s'.paging.heap ∧
      s'.paging.heap.freeBlocks.card + 1027 = s.paging.heap.freeBlocks.card := by
  obtain ⟨task, s₁, s₂, b, bs, s', hrun, hblocks⟩ :=
    taskNew_blocks process hkernel.paged hfree htail
  obtain ⟨chunk, directory, table, d, ts, c, rfl, hspace, -, -, rfl⟩ := hblocks.space
  have hint : 0 ≤ task.toInt := by
    rw [hblocks.block]
    exact (hkernel.inPlace.address_pos (Heap.freeBlocks_lt hblocks.takes.1)).le
  obtain ⟨hkernel₁, hleft₁⟩ := hkernel.takes (.one hblocks.takes)
  obtain ⟨hkernel₂, hleft₂⟩ := hkernel₁.takes hblocks.run
  have hlength := hspace.tables_length
  have hheap : (appended (initialized { s with paging := s₂ } task chunk process)
    task).paging.heap = s₂.heap := appended_heap _ _
  refine ⟨task, _, hrun, hblocks.took.pos, hint, by rw [hheap]; exact hkernel₂, ?_⟩
  rw [hheap]
  rw [List.length_singleton] at hleft₁
  rw [List.length_cons, List.length_append, hlength, List.length_singleton] at hleft₂
  omega

end KernelNES.Task
