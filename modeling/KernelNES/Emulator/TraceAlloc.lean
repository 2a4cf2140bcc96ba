import KernelNES.Memory.HeapRuns
import KernelNES.Emulator.Tracelogger

/-!
# Emulator — TraceAlloc

`add_tracelog_entry` on the kernel heap.  `LogMemory` is the log with the heap its entries are
allocated from; on the log alone it is the `add_tracelog_entry` of Tracelogger, with the answer the
heap gives (`addTracelogEntry_log`).

When `kzalloc` fails, the call goes to its exit with `entry == NULL` and frees it.  `NULL` lies 4096
blocks in front of the kernel heap, and `heap_free` does not look: it writes the entry of that
block (`failedAdd_disturbs`).
-/

namespace KernelNES.Memory
open KernelNES.Lib

/-- `kfree(NULL)` on the kernel heap. -/
theorem heapFree_null {heap : Heap} (hsaddr : heap.saddr = 0x01000000)
    (htotal : heap.table.total = 25600) : ∃ is, heap.Writes is (heapFree heap 0) ∧ -4096 ∈ is := by
  have hblock : heapAddressToBlock heap 0 = -4096 := by
    rw [heapAddressToBlock, hsaddr]
    decide
  obtain ⟨is, h, hmem⟩ := heapMarkBlocksFreeLoop_writes
    (heap.table.total.toInt - heapAddressToBlock heap 0).toNat (heapAddressToBlock heap 0) heap
  refine ⟨is, h, ?_⟩
  rw [hblock, htotal] at hmem
  exact hmem (by decide)

end KernelNES.Memory

namespace KernelNES.Emulator
open KernelNES.Lib KernelNES.Memory

/-- Removing the first entry takes one off the length. -/
theorem Tracelog.removeFirstEntry_currentLength {s : Tracelog} (h : s.logHead ≠ 0) :
    s.removeFirstEntry.currentLength = s.currentLength - 1 := by
  unfold removeFirstEntry
  rw [if_neg h]
  dsimp only
  split <;> rfl

/-- `sizeof(struct tracelog_entry)`. -/
def sizeofTracelogEntry : U32 := 32

/-- The trace log, and the kernel heap. -/
structure LogMemory where
  log : Tracelog
  heap : Heap

namespace LogMemory

/-- `kfree`. -/
def kfree (t : LogMemory) (a : Addr) : LogMemory :=
  ⟨t.log.kfree a, heapFree t.heap a⟩

/-- `kzalloc(sizeof(struct tracelog_entry))`. -/
def kzalloc (t : LogMemory) : Addr × LogMemory :=
  let (answer, heap) := heapMalloc t.heap sizeofTracelogEntry
  (answer, ⟨t.log.kzalloc answer, heap⟩)

/-- `remove_first_entry`. -/
def removeFirstEntry (t : LogMemory) : LogMemory :=
  if t.log.logHead = 0 then t
  else
    let oldHead := t.log.logHead
    let s := t.log
    let s :=
      if s.logHead = s.logTail then { s with logHead := 0, logTail := 0 }
      else
        let s := { s with logHead := (s.mem oldHead).next }
        s.modifyEntry s.logHead fun e => { e with prev := 0 }
    let t := kfree { t with log := s } oldHead
    { t with log := { t.log with currentLength := t.log.currentLength - 1 } }

/-- The eviction at the start of `add_tracelog_entry`. -/
def evict (t : LogMemory) : LogMemory :=
  if t.log.currentLength + 1 > tracelogMaxLength then t.removeFirstEntry else t

/-- `add_tracelog_entry`. -/
def addTracelogEntry (t : LogMemory) (registers : Registers) (totalCPUCycles : Int) :
    Addr × LogMemory :=
  let t := t.evict
  let (entry, t) := t.kzalloc
  if entry = 0 then (BitVec.ofInt 32 (-3), t.kfree entry)
  else
    let s := t.log
    if s.logHead = 0 then
      let s := { s with logHead := entry, curSelectedEntry := entry, logTail := entry }
      (entry, { t with log := s.initLogEntry entry registers totalCPUCycles })
    else
      let s := s.modifyEntry s.logTail fun e => { e with next := entry }
      let s := s.modifyEntry entry fun e => { e with prev := s.logTail }
      let s := { s with logTail := entry }
      let s := s.initLogEntry entry registers totalCPUCycles
      (entry, { t with log := { s with currentLength := s.currentLength + 1 } })

/-- What `kzalloc` answers inside `add_tracelog_entry`. -/
def answer (t : LogMemory) : Addr := t.evict.kzalloc.1

/-! ### The log alone -/

/-- On the log, eviction is that of `Tracelog`. -/
theorem evict_log (t : LogMemory) : t.evict.log = t.log.evict := by
  unfold evict Tracelog.evict removeFirstEntry Tracelog.removeFirstEntry
  split
  · split
    · rfl
    · rfl
  · rfl

/-- **On the log**, the call is that of Tracelogger with the heap's answer. -/
theorem addTracelogEntry_log (t : LogMemory) (registers : Registers) (totalCPUCycles : Int) :
    ((t.addTracelogEntry registers totalCPUCycles).1,
        (t.addTracelogEntry registers totalCPUCycles).2.log) =
      t.log.addTracelogEntry t.answer registers totalCPUCycles := by
  unfold addTracelogEntry Tracelog.addTracelogEntry
  rw [← evict_log]
  have hkzalloc : t.evict.kzalloc.2.log = t.evict.log.kzalloc t.answer := rfl
  dsimp only
  rw [← hkzalloc]
  show (Prod.fst (if t.answer = 0 then _ else _),
    LogMemory.log (Prod.snd (if t.answer = 0 then _ else _))) = _
  by_cases h : t.answer = 0
  · rw [if_pos h, if_pos h]
    rfl
  · rw [if_neg h, if_neg h]
    split
    · rfl
    · rfl

/-! ### A failed allocation -/

/-- The list, `current_length`, `cur_selected_entry` and `cur_selected_index` are as before. -/
structure SameLog (s s' : Tracelog) : Prop where
  logHead : s'.logHead = s.logHead
  logTail : s'.logTail = s.logTail
  entries : s'.mem = s.mem
  currentLength : s'.currentLength = s.currentLength
  curSelectedEntry : s'.curSelectedEntry = s.curSelectedEntry
  curSelectedIndex : s'.curSelectedIndex = s.curSelectedIndex

/-- The call returned an error, and left the log and the heap as they were. -/
structure FailsQuietly (t : LogMemory) (r : Addr × LogMemory) : Prop where
  error : r.1.toInt < 0
  log : SameLog t.log r.2.log
  inside : ∀ i ∈ t.heap.newWrites r.2.heap, 0 ≤ i ∧ i < t.heap.table.total.toNat
  table : ∀ i : Int, 0 ≤ i → i < t.heap.table.total.toNat →
    r.2.heap.table.entries i = t.heap.table.entries i

section
variable {t : LogMemory} {registers : Registers} {totalCPUCycles : Int}

theorem evict_writes (t : LogMemory) : ∃ is, t.heap.Writes is t.evict.heap := by
  unfold evict removeFirstEntry
  split
  · split
    · exact ⟨[], .refl t.heap⟩
    · exact heapFree_writes t.heap t.log.logHead
  · exact ⟨[], .refl t.heap⟩

/-- When `kzalloc` fails, `add_tracelog_entry` frees `NULL` and answers -3. -/
theorem addTracelogEntry_of_null (hnull : t.answer = 0) :
    t.addTracelogEntry registers totalCPUCycles =
      (BitVec.ofInt 32 (-3), t.evict.kzalloc.2.kfree 0) := by
  show (if t.answer = 0 then (BitVec.ofInt 32 (-3), t.evict.kzalloc.2.kfree t.answer) else _) = _
  rw [if_pos hnull, hnull]

/-- A failed call writes in front of the block table. -/
theorem failedAdd_writes (hsaddr : t.heap.saddr = 0x01000000) (htotal : t.heap.table.total = 25600)
    (hnull : t.answer = 0) :
    -4096 ∈ t.heap.newWrites (t.addTracelogEntry registers totalCPUCycles).2.heap := by
  obtain ⟨is, hevict⟩ := t.evict_writes
  obtain ⟨js, hmalloc⟩ := heapMalloc_writes t.evict.heap sizeofTracelogEntry
  have hboth := hevict.trans hmalloc
  obtain ⟨ks, hfree, hmem⟩ := heapFree_null (hboth.saddr.trans hsaddr) (hboth.total.trans htotal)
  rw [addTracelogEntry_of_null hnull]
  show -4096 ∈ t.heap.newWrites (heapFree (heapMalloc t.evict.heap sizeofTracelogEntry).2 0)
  rw [(hboth.trans hfree).newWrites_eq]
  exact List.mem_append_left _ hmem

/-- The log is left alone exactly when no entry was evicted to make room. -/
theorem failedAdd_sameLog_iff (hnull : t.answer = 0) :
    SameLog t.log (t.addTracelogEntry registers totalCPUCycles).2.log ↔
      t.log.currentLength + 1 ≤ tracelogMaxLength ∨ t.log.logHead = 0 := by
  have hlog : (t.addTracelogEntry registers totalCPUCycles).2.log = t.log.evict.kfree 0 := by
    rw [addTracelogEntry_of_null hnull, ← evict_log]
    show (t.evict.log.kzalloc t.answer).kfree 0 = _
    rw [hnull]
    rfl
  rw [hlog]
  constructor
  · intro h
    by_contra hne
    obtain ⟨hfull, hhead⟩ := not_or.mp hne
    have hevict : t.log.evict.currentLength = t.log.currentLength - 1 := by
      rw [Tracelog.evict, if_pos (not_le.mp hfull), Tracelog.removeFirstEntry_currentLength hhead]
    have hsame : t.log.evict.currentLength = t.log.currentLength := h.currentLength
    omega
  · intro h
    have hevict : t.log.evict = t.log := by
      rcases h with h | h
      · exact if_neg (not_lt.mpr h)
      · rw [Tracelog.evict, Tracelog.removeFirstEntry, if_pos h, ite_self]
    rw [hevict]
    exact ⟨rfl, rfl, rfl, rfl, rfl, rfl⟩

/-- **A failed allocation never goes unnoticed**: freeing `NULL` writes the entry of a block that is
none. -/
theorem failedAdd_disturbs (hsaddr : t.heap.saddr = 0x01000000)
    (htotal : t.heap.table.total = 25600) (hnull : t.answer = 0) :
    ¬ FailsQuietly t (t.addTracelogEntry registers totalCPUCycles) := by
  intro h
  have := (h.inside _ (failedAdd_writes hsaddr htotal hnull)).1
  omega

end

/-- The kernel heap with each of its blocks allocated. -/
def fullHeap : Heap := ⟨⟨fun _ => 0x41, 25600⟩, 0x01000000, []⟩

/-- The log before the first instruction, on a heap without a free block. -/
def exhausted : LogMemory := ⟨.empty fun _ => .zero, fullHeap⟩

theorem exhausted_answer : exhausted.answer = 0 := by
  have hmalloc : heapMalloc exhausted.heap sizeofTracelogEntry = (0, exhausted.heap) :=
    heapMalloc_full (by decide) (by decide) fun _ _ => by
      show ¬ EntryFree 0x41
      decide
  have hevict : exhausted.evict = exhausted := if_neg (by decide)
  rw [answer, hevict, kzalloc, hmalloc]

theorem failedAdd_disturbs_exhausted :
    ¬ FailsQuietly exhausted (exhausted.addTracelogEntry ⟨0, 0, 0, 0, 0xFD, 0x8000⟩ 7) :=
  failedAdd_disturbs rfl rfl exhausted_answer

/-- The call writes 4096 entries in front of the block table. -/
theorem failedAdd_writes_outside :
    exhausted.answer = 0 ∧
      -4096 ∈ exhausted.heap.newWrites
        (exhausted.addTracelogEntry ⟨0, 0, 0, 0, 0xFD, 0x8000⟩ 7).2.heap ∧
      ¬ FailsQuietly exhausted (exhausted.addTracelogEntry ⟨0, 0, 0, 0, 0xFD, 0x8000⟩ 7) := by
  have hwrites : -4096 ∈ exhausted.heap.newWrites
      (exhausted.addTracelogEntry ⟨0, 0, 0, 0, 0xFD, 0x8000⟩ 7).2.heap :=
    failedAdd_writes rfl rfl exhausted_answer
  refine ⟨exhausted_answer, hwrites, fun h => ?_⟩
  exact absurd (h.inside _ hwrites).1 (by decide)

end LogMemory

end KernelNES.Emulator
