import KernelNES.Memory.Ownership

/-!
# Task — Task

`src/task/task.c`: tasks, and the list they are on.  A `struct task` is 16 words of a block of the
kernel heap, next to the tables of its address space; every field is read and written where it lies
in memory, so that a stale pointer meets whatever is there by then.
-/

namespace KernelNES.Task
open KernelNES.Lib KernelNES.Memory

/-! ### `struct task` -/

/-- `page_directory`, a word of `struct task`. -/
def pageDirectoryField : U32 := 0

/-- `registers.ip`. -/
def registersIpField : U32 := 8

/-- `registers.esp`. -/
def registersEspField : U32 := 11

/-- `registers.ss`. -/
def registersSsField : U32 := 12

/-- `process`. -/
def processField : U32 := 13

/-- `next`. -/
def nextField : U32 := 14

/-- `prev`. -/
def prevField : U32 := 15

/-- `sizeof(struct task)`. -/
def sizeofTask : U32 := 64

/-- `PEACHOS_PROGRAM_VIRTUAL_ADDRESS`. -/
def peachosProgramVirtualAddress : U32 := 0x400000

/-- `PEACHOS_PROGRAM_VIRTUAL_STACK_ADDRESS_START`. -/
def peachosProgramVirtualStackAddressStart : U32 := 0x3FF000

/-- `USER_DATA_SEGMENT`. -/
def userDataSegment : U32 := 0x23

/-- `PAGING_IS_PRESENT`. -/
def pagingIsPresent : U8 := 0b00000001

/-- `PAGING_ACCESS_FROM_ALL`. -/
def pagingAccessFromAll : U8 := 0b00000100

/-- `EIO`. -/
def eio : Int := 1

/-- Heap and memory, the variables of `task.c`, and what `paging_switch` sets. -/
structure TaskState (H : Type) where
  paging : PagingState H
  currentTask : U32
  taskTail : U32
  taskHead : U32
  currentDirectory : U32
  cr3 : U32

section
variable {H α : Type}

/-- A computation on heap and memory. -/
def onPaging (x : Exec Fault (PagingState H) α) : Exec Fault (TaskState H) α := fun s =>
  match x s.paging with
  | .ok (a, paging) => .ok (a, { s with paging })
  | .error e => .error e

/-- A word of `struct task`, read. -/
def loadField (task field : U32) : Exec Fault (TaskState H) U32 := onPaging (loadWord task field)

/-- A word of `struct task`, written. -/
def storeField (task field val : U32) : Exec Fault (TaskState H) Unit :=
  onPaging (storeWord task field val)

/-- `memset(task, 0, sizeof(struct task))`. -/
def memsetTask (task : U32) : Exec Fault (TaskState H) Unit := onPaging fun s =>
  if task = 0 then .error .nullDeref
  else .ok ((), { s with
    words := fun a => if (a - task).toNat < sizeofTask.toNat then 0 else s.words a })

/-- `paging_switch`, with `paging_load_directory`. -/
def pagingSwitch (directory : U32) : Exec Fault (TaskState H) Unit := fun s =>
  .ok ((), { s with cr3 := directory, currentDirectory := directory })

/-! ### `task.c` -/

/-- `task_init`. -/
def taskInit (alloc : Allocator H) (task process : U32) : Exec Fault (TaskState H) Int := do
  memsetTask task
  let chunk ← onPaging (pagingNew4gb alloc (pagingIsPresent ||| pagingAccessFromAll))
  storeField task pageDirectoryField chunk
  let pageDirectory ← loadField task pageDirectoryField
  if pageDirectory = 0 then pure (-eio)
  else do
    storeField task registersIpField peachosProgramVirtualAddress
    storeField task registersSsField userDataSegment
    storeField task registersEspField peachosProgramVirtualStackAddressStart
    storeField task processField process
    pure 0

/-- `task_get_next`. -/
def taskGetNext : Exec Fault (TaskState H) U32 := do
  let s ← get
  let next ← loadField s.currentTask nextField
  if next = 0 then pure s.taskHead else loadField s.currentTask nextField

/-- `task_list_remove`: the task in front, if there is one, leads to the one behind. -/
def taskListUnlink (task : U32) : Exec Fault (TaskState H) Unit := do
  let prev ← loadField task prevField
  if prev = 0 then pure ()
  else do
    let next ← loadField task nextField
    storeField prev nextField next

/-- `task_list_remove`: `task_head`. -/
def taskListDropHead (task : U32) : Exec Fault (TaskState H) Unit := do
  let s ← get
  if task = s.taskHead then do
    let next ← loadField task nextField
    set { s with taskHead := next }
  else pure ()

/-- `task_list_remove`: `task_tail`. -/
def taskListDropTail (task : U32) : Exec Fault (TaskState H) Unit := do
  let s ← get
  if task = s.taskTail then do
    let prev ← loadField task prevField
    set { s with taskTail := prev }
  else pure ()

/-- `task_list_remove`: `current_task`. -/
def taskListDropCurrent (task : U32) : Exec Fault (TaskState H) Unit := do
  let s ← get
  if task = s.currentTask then do
    let next ← taskGetNext
    set { s with currentTask := next }
  else pure ()

/-- `task_list_remove`. -/
def taskListRemove (task : U32) : Exec Fault (TaskState H) Unit := do
  taskListUnlink task
  taskListDropHead task
  taskListDropTail task
  taskListDropCurrent task

/-- `task_free`. -/
def taskFree (alloc : Allocator H) (task : U32) : Exec Fault (TaskState H) Int := do
  let chunk ← loadField task pageDirectoryField
  onPaging (pagingFree4gb alloc chunk)
  taskListRemove task
  onPaging (kfreeWords alloc task)
  pure 0

/-- `task_new`: the new task behind `task_tail`. -/
def taskListAppend (task : U32) : Exec Fault (TaskState H) Unit := do
  let s ← get
  if s.taskHead = 0 then set { s with taskHead := task, taskTail := task }
  else do
    storeField s.taskTail nextField task
    storeField task prevField s.taskTail
    modify fun s => { s with taskTail := task }

/-- `task_new`, from `out` on. -/
def taskNewOut (alloc : Allocator H) (task : U32) (res : Int) : Exec Fault (TaskState H) U32 :=
  if res < 0 then do
    let _ ← taskFree alloc task
    pure (BitVec.ofInt 32 res)
  else pure task

/-- `task_new`. -/
def taskNew (alloc : Allocator H) (process : U32) : Exec Fault (TaskState H) U32 := do
  let task ← onPaging (kzallocWords alloc sizeofTask)
  if task = 0 then taskNewOut alloc task (-enomem)
  else do
    let res ← taskInit alloc task process
    if res ≠ 0 then taskNewOut alloc task res
    else do
      taskListAppend task
      taskNewOut alloc task res

/-- `task_switch`. -/
def taskSwitch (task : U32) : Exec Fault (TaskState H) Int := do
  modify fun s => { s with currentTask := task }
  let chunk ← loadField task pageDirectoryField
  let directory ← onPaging (loadWord chunk 0)
  pagingSwitch directory
  pure 0

end

end KernelNES.Task
