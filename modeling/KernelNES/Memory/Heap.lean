import KernelNES.Lib.CInt
import Mathlib.Logic.Function.Basic

/-!
# Memory — Heap

`src/memory/heap/heap.c`: the block heap.  `table->entries` is a pointer into memory, so an entry
can be named at any `int` index; `Heap.writes` records the indexes the code has written.
-/

namespace KernelNES.Memory
open KernelNES.Lib

/-- `PEACHOS_HEAP_BLOCK_SIZE`. -/
def peachosHeapBlockSize : Nat := 4096

/-- `-ENOMEM`. -/
def enomem : Int := 3

/-- `HEAP_BLOCK_TABLE_ENTRY`. -/
abbrev HeapBlockTableEntry := U8

/-- `HEAP_BLOCK_TABLE_ENTRY_TAKEN`. -/
def heapBlockTableEntryTaken : HeapBlockTableEntry := 0x01

/-- `HEAP_BLOCK_TABLE_ENTRY_FREE`. -/
def heapBlockTableEntryFree : HeapBlockTableEntry := 0x00

/-- `HEAP_BLOCK_HAS_NEXT`. -/
def heapBlockHasNext : HeapBlockTableEntry := 0b10000000

/-- `HEAP_BLOCK_IS_FIRST`. -/
def heapBlockIsFirst : HeapBlockTableEntry := 0b01000000

/-- `struct heap_table`. -/
structure HeapTable where
  entries : Int → HeapBlockTableEntry
  total : U32

/-- `struct heap`, with the table it points to and the indexes of the table writes so far,
latest first. -/
structure Heap where
  table : HeapTable
  saddr : U32
  writes : List Int

/-- `heap->table->entries[i] = entry`. -/
def Heap.setEntry (heap : Heap) (i : Int) (entry : HeapBlockTableEntry) : Heap :=
  { heap with
    table := { heap.table with entries := Function.update heap.table.entries i entry }
    writes := i :: heap.writes }

/-- `heap_validate_table`. -/
def heapValidateTable (ptr end' : U32) (table : HeapTable) : Int :=
  if table.total ≠ (end' - ptr) / 4096 then -2 else 0

/-- `heap_validate_alignment`. -/
def heapValidateAlignment (ptr : U32) : Bool := ptr % 4096 = 0

/-- `heap_create`: the status and, when it is `0`, the heap. -/
def heapCreate (ptr end' : U32) (table : HeapTable) : Int × Option Heap :=
  if ¬ heapValidateAlignment ptr ∨ ¬ heapValidateAlignment end' then (-2, none)
  else
    let res := heapValidateTable ptr end' table
    if res < 0 then (res, none)
    else
      -- `memset(table->entries, FREE, total)`
      let entries := fun i : Int =>
        if 0 ≤ i ∧ i < table.total.toNat then heapBlockTableEntryFree else table.entries i
      (res, some { table := { table with entries }, saddr := ptr, writes := [] })

/-- `heap_align_value_to_upper`. -/
def heapAlignValueToUpper (val : U32) : U32 :=
  if val % 4096 = 0 then val else val - val % 4096 + 4096

/-- `heap_get_entry_type`. -/
def heapGetEntryType (entry : HeapBlockTableEntry) : U8 := entry &&& 0x0f

/-- The loop of `heap_get_start_block`: `n` entries are left, from index `i` on; the result is
`bs` when the loop ends. -/
def heapGetStartBlockLoop (table : HeapTable) (totalBlocks : U32) :
    (n i : Nat) → (bc bs : Int) → Int
  | 0, _, _, bs => bs
  | n + 1, i, bc, bs =>
    if heapGetEntryType (table.entries i) ≠ heapBlockTableEntryFree then
      heapGetStartBlockLoop table totalBlocks n (i + 1) 0 (-1)
    else
      let bs := if bs = -1 then (i : Int) else bs
      let bc := bc + 1
      if BitVec.ofInt 32 bc = totalBlocks then bs
      else heapGetStartBlockLoop table totalBlocks n (i + 1) bc bs

/-- `heap_get_start_block`. -/
def heapGetStartBlock (heap : Heap) (totalBlocks : U32) : Int :=
  let bs := heapGetStartBlockLoop heap.table totalBlocks heap.table.total.toNat 0 0 (-1)
  if bs = -1 then -enomem else bs

/-- `heap_block_to_address`. -/
def heapBlockToAddress (heap : Heap) (block : Int) : U32 :=
  heap.saddr + BitVec.ofInt 32 (block * peachosHeapBlockSize)

/-- The loop of `heap_mark_blocks_taken`: `n` blocks are left, from index `i` on. -/
def heapMarkBlocksTakenLoop (endBlock : Int) :
    (n : Nat) → (i : Int) → HeapBlockTableEntry → Heap → Heap
  | 0, _, _, heap => heap
  | n + 1, i, entry, heap =>
    let heap := heap.setEntry i entry
    let entry := heapBlockTableEntryTaken
    let entry := if i ≠ endBlock - 1 then entry ||| heapBlockHasNext else entry
    heapMarkBlocksTakenLoop endBlock n (i + 1) entry heap

/-- `heap_mark_blocks_taken`. -/
def heapMarkBlocksTaken (heap : Heap) (startBlock totalBlocks : Int) : Heap :=
  let endBlock := startBlock + totalBlocks - 1
  let entry := heapBlockTableEntryTaken ||| heapBlockIsFirst
  let entry := if totalBlocks > 1 then entry ||| heapBlockHasNext else entry
  heapMarkBlocksTakenLoop endBlock (endBlock + 1 - startBlock).toNat startBlock entry heap

/-- `heap_malloc_blocks`. -/
def heapMallocBlocks (heap : Heap) (totalBlocks : U32) : U32 × Heap :=
  let startBlock := heapGetStartBlock heap totalBlocks
  if startBlock < 0 then (0, heap)
  else (heapBlockToAddress heap startBlock, heapMarkBlocksTaken heap startBlock totalBlocks.toInt)

/-- The loop of `heap_mark_blocks_free`: `n` entries are left, from index `i` on. -/
def heapMarkBlocksFreeLoop : (n : Nat) → (i : Int) → Heap → Heap
  | 0, _, heap => heap
  | n + 1, i, heap =>
    let entry := heap.table.entries i
    let heap := heap.setEntry i heapBlockTableEntryFree
    if entry &&& heapBlockHasNext = 0 then heap
    else heapMarkBlocksFreeLoop n (i + 1) heap

/-- `heap_mark_blocks_free`. -/
def heapMarkBlocksFree (heap : Heap) (startingBlock : Int) : Heap :=
  heapMarkBlocksFreeLoop (heap.table.total.toInt - startingBlock).toNat startingBlock heap

/-- `heap_address_to_block`. -/
def heapAddressToBlock (heap : Heap) (address : U32) : Int :=
  (address - heap.saddr).toInt.tdiv peachosHeapBlockSize

/-- `heap_malloc`. -/
def heapMalloc (heap : Heap) (size : U32) : U32 × Heap :=
  let alignedSize := heapAlignValueToUpper size
  let totalBlocks := alignedSize / 4096
  heapMallocBlocks heap totalBlocks

/-- `heap_free`. -/
def heapFree (heap : Heap) (ptr : U32) : Heap :=
  heapMarkBlocksFree heap (heapAddressToBlock heap ptr)

end KernelNES.Memory
