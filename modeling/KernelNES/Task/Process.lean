import KernelNES.Memory.PagingRange
import KernelNES.Task.Task

/-!
# Task — Process

`src/task/process.c`: a process is its file, loaded into memory, a stack, and a task in whose
address space the file is mapped.  The file functions and `task_new` answer as they will, and may
change the kernel on the way (`Calls`); `kzalloc` is that of the kernel heap.
-/

namespace KernelNES.Task
open KernelNES.Lib KernelNES.Memory

/-! ### `struct process` -/

/-- `PEACHOS_MAX_PROCESSES`. -/
def peachosMaxProcesses : Nat := 12

/-- `PEACHOS_MAX_PATH`. -/
def peachosMaxPath : Nat := 108

/-- `PEACHOS_USER_PROGRAM_STACK_SIZE`. -/
def peachosUserProgramStackSize : U32 := 1024 * 16

/-- `EISTKN`. -/
def eistkn : Int := 8

/-- `struct process`, without its `allocations`, which nothing reads. -/
structure Process where
  id : U16
  filename : List U8
  task : U32
  ptr : U32
  stack : U32
  size : U32
  deriving DecidableEq, Repr

/-- `sizeof(struct process)`, the 1024 words of `allocations` among it. -/
def sizeofProcess : U32 := 4224

/-- The kernel, the processes at their addresses, the variable `processes`, and what `process_load`
gives its caller. -/
structure ProcessState where
  kernel : TaskState Heap
  mem : U32 → Process
  processes : Nat → U32
  process : U32

/-- What `process.c` calls.  `fstat` also gives the `filesize`. -/
structure Calls where
  fopen : (filename mode : List U8) → StateM (TaskState Heap) Int
  fstat : (fd : Int) → StateM (TaskState Heap) (Int × U32)
  fread : (ptr size nmemb : U32) → (fd : Int) → StateM (TaskState Heap) Int
  fclose : (fd : Int) → StateM (TaskState Heap) Int
  taskNew : (process : U32) → StateM (TaskState Heap) U32

/-- `kzalloc`, with the `memset` of what it returns. -/
def kzalloc (size : U32) : StateM (TaskState Heap) U32 := fun s =>
  let (ptr, heap) := heapMalloc s.paging.heap size
  let words := fun a => if ptr ≠ 0 ∧ (a - ptr).toNat < size.toNat then 0 else s.paging.words a
  (ptr, { s with paging := { heap, words } })

example (size : U32) (s : TaskState Heap) :
    onPaging (kzallocWords .kheap size) s = .ok (kzalloc size s) := rfl

section
variable {α : Type}

/-- A call. -/
def call (x : StateM (TaskState Heap) α) : Exec Fault ProcessState α := fun s =>
  .ok ((x s.kernel).1, { s with kernel := (x s.kernel).2 })

/-- A computation on the kernel. -/
def onKernel (x : Exec Fault (TaskState Heap) α) : Exec Fault ProcessState α := fun s =>
  match x s.kernel with
  | .ok (a, kernel) => .ok (a, { s with kernel })
  | .error e => .error e

/-- The process at `process` is written. -/
def setProcess (process : U32) (f : Process → Process) : Exec Fault ProcessState Unit :=
  modify fun s => { s with mem := Function.update s.mem process (f (s.mem process)) }

end

/-! ### `process.c` -/

/-- `process_init`: `memset(process, 0, sizeof(struct process))`. -/
def processInit (process : U32) : Exec Fault ProcessState Unit :=
  setProcess process fun _ =>
    { id := 0, filename := [], task := 0, ptr := 0, stack := 0, size := 0 }

/-- `process_get`. -/
def processGet (processId : Int) : Exec Fault ProcessState U32 := do
  let s ← get
  if processId < 0 ∨ processId ≥ peachosMaxProcesses then pure 0
  else pure (s.processes processId.toNat)

/-- `process_load_binary`, from `out` on. -/
def processLoadBinaryOut (calls : Calls) (fd res : Int) : Exec Fault ProcessState Int := do
  let _ ← call (calls.fclose fd)
  pure res

/-- `process_load_binary`. -/
def processLoadBinary (calls : Calls) (filename : List U8) (process : U32) :
    Exec Fault ProcessState Int := do
  let fd ← call (calls.fopen filename [0x72])
  if fd = 0 then processLoadBinaryOut calls fd (-eio)
  else do
    let (res, filesize) ← call (calls.fstat fd)
    if res ≠ 0 then processLoadBinaryOut calls fd res
    else do
      let programDataPtr ← call (kzalloc filesize)
      if programDataPtr = 0 then processLoadBinaryOut calls fd (-enomem)
      else do
        let read ← call (calls.fread programDataPtr filesize 1 fd)
        if read ≠ 1 then processLoadBinaryOut calls fd (-eio)
        else do
          setProcess process fun p => { p with ptr := programDataPtr, size := filesize }
          processLoadBinaryOut calls fd res

/-- `process_load_data`. -/
def processLoadData (calls : Calls) (filename : List U8) (process : U32) :
    Exec Fault ProcessState Int :=
  processLoadBinary calls filename process

/-- `paging_align_address`. -/
def pagingAlignAddress (ptr : U32) : U32 :=
  if ptr % pagingPageSize ≠ 0 then ptr + pagingPageSize - ptr % pagingPageSize else ptr

/-- `PAGING_IS_PRESENT | PAGING_ACCESS_FROM_ALL | PAGING_IS_WRITEABLE`. -/
def binaryFlags : U32 := (pagingIsPresent ||| pagingAccessFromAll).setWidth 32 ||| pagingIsWriteable

/-- `process_map_binary`; what `paging_map_to` returns is not looked at. -/
def processMapBinary (process : U32) : Exec Fault ProcessState Int := do
  let p := (← get).mem process
  let chunk ← onKernel (loadField p.task pageDirectoryField)
  let directory ← onKernel (onPaging (loadWord chunk 0))
  let _ ← onKernel (onPaging (pagingMapTo directory peachosProgramVirtualAddress p.ptr
    (pagingAlignAddress (p.ptr + p.size)) binaryFlags))
  pure 0

/-- `process_map_memory`. -/
def processMapMemory (process : U32) : Exec Fault ProcessState Int := processMapBinary process

/-- `process_load_for_slot`, from `out` on.  There is nothing behind the comment on freeing the data
of the process. -/
def processLoadForSlotOut (process : U32) (res : Int) : Exec Fault ProcessState Int := do
  let s ← get
  if res < 0 ∧ process ≠ 0 ∧ (s.mem process).task ≠ 0 then do
    let _ ← onKernel (taskFree .kheap (s.mem process).task)
    pure res
  else pure res

/-- `process_load_for_slot`, from `task_new` on.  A task of `0` is taken for the error. -/
def processLoadTask (calls : Calls) (process : U32) (processSlot : Int) :
    Exec Fault ProcessState Int := do
  let task ← call (calls.taskNew process)
  if task.toInt = 0 then processLoadForSlotOut process task.toInt
  else do
    setProcess process fun p => { p with task }
    let res ← processMapMemory process
    if res < 0 then processLoadForSlotOut process res
    else do
      modify fun s => { s with process }
      modify fun s => { s with
        processes := Function.update s.processes processSlot.toNat process }
      processLoadForSlotOut process res

/-- `process_load_for_slot`, from the stack on. -/
def processLoadStack (calls : Calls) (filename : List U8) (process : U32) (processSlot : Int) :
    Exec Fault ProcessState Int := do
  let programStackPtr ← call (kzalloc peachosUserProgramStackSize)
  if programStackPtr = 0 then processLoadForSlotOut process (-enomem)
  else do
    -- `strncpy` leaves room for the `0`
    setProcess process fun p => { p with
      filename := filename.take (peachosMaxPath - 1)
      stack := programStackPtr
      id := BitVec.ofInt 16 processSlot }
    processLoadTask calls process processSlot

/-- `process_load_for_slot`; `stale` is what `_process` holds before it is set. -/
def processLoadForSlot (calls : Calls) (filename : List U8) (processSlot : Int) (stale : U32) :
    Exec Fault ProcessState Int := do
  let taken ← processGet processSlot
  if taken ≠ 0 then processLoadForSlotOut stale (-eistkn)
  else do
    let process ← call (kzalloc sizeofProcess)
    if process = 0 then processLoadForSlotOut process (-enomem)
    else do
      processInit process
      let res ← processLoadData calls filename process
      if res < 0 then processLoadForSlotOut process res
      else processLoadStack calls filename process processSlot

/-- The loop of `process_get_free_slot`: `n` entries are left, from entry `i` on. -/
def processGetFreeSlotLoop (processes : Nat → U32) : (n i : Nat) → Int
  | 0, _ => -eistkn
  | n + 1, i => if processes i = 0 then i else processGetFreeSlotLoop processes n (i + 1)

/-- `process_get_free_slot`. -/
def processGetFreeSlot (processes : Nat → U32) : Int :=
  processGetFreeSlotLoop processes peachosMaxProcesses 0

/-- `process_load`. -/
def processLoad (calls : Calls) (filename : List U8) (stale : U32) :
    Exec Fault ProcessState Int := do
  let processSlot := processGetFreeSlot (← get).processes
  if processSlot < 0 then pure (-eistkn)
  else processLoadForSlot calls filename processSlot stale

end KernelNES.Task
