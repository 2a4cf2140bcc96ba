import KernelNES.Lib.Runs
import KernelNES.Memory.BlockTable
import Mathlib.Data.Finset.Card

/-!
# Memory — Paging

`src/memory/paging/paging.c`: the page directory of an address space and its 1024 page tables, each
in a block of the kernel heap.  Memory is the word at each address.  Whatever pages are set, walking
the tables as the processor does gives for every page the value set last, and for a page never set
the page itself with the flags of the address space (`paging_translates_as_last_set`).

The tables lie in blocks of their own, so that a write to one is seen in no other (`PageTables`).
-/

namespace KernelNES.Memory
open KernelNES.Lib

/-! ### `paging.c` -/

/-- `PAGING_TOTAL_ENTRIES_PER_TABLE`. -/
def pagingTotalEntriesPerTable : Nat := 1024

/-- `PAGING_PAGE_SIZE`. -/
def pagingPageSize : U32 := 4096

/-- `PAGING_IS_WRITEABLE`. -/
def pagingIsWriteable : U32 := 0b00000010

/-- `EINVARG`. -/
def einvarg : Int := 2

/-- The heap, and the words of memory. -/
structure PagingState (H : Type) where
  heap : H
  words : U32 → U32

/-- The address of `ptr[i]`, for words. -/
def slot (ptr i : U32) : U32 := ptr + 4 * i

section
variable {H : Type}

/-- `kzalloc`, with the `memset` of what it returns. -/
def kzallocWords (alloc : Allocator H) (size : U32) : Exec Fault (PagingState H) U32 := fun s =>
  let (ptr, heap) := alloc.kzalloc size s.heap
  let words := fun a => if ptr ≠ 0 ∧ (a - ptr).toNat < size.toNat then 0 else s.words a
  .ok (ptr, { heap, words })

/-- `ptr[i]`. -/
def loadWord (ptr i : U32) : Exec Fault (PagingState H) U32 := fun s =>
  if ptr = 0 then .error .nullDeref else .ok (s.words (slot ptr i), s)

/-- `ptr[i] = val`. -/
def storeWord (ptr i val : U32) : Exec Fault (PagingState H) Unit := fun s =>
  if ptr = 0 then .error .nullDeref
  else .ok ((), { s with words := Function.update s.words (slot ptr i) val })

/-- The inner loop of `paging_new_4gb`: `n` entries are left, from entry `b` on. -/
def pagingFillTable (entry offset : U32) (flags : U8) :
    (n b : Nat) → Exec Fault (PagingState H) Unit
  | 0, _ => pure ()
  | n + 1, b => do
    storeWord entry (BitVec.ofNat 32 b)
      ((offset + BitVec.ofNat 32 b * pagingPageSize) ||| flags.setWidth 32)
    pagingFillTable entry offset flags n (b + 1)

/-- The outer loop: `n` tables are left, from table `i` on.  The `int` `offset` wraps. -/
def pagingNewTables (alloc : Allocator H) (directory : U32) (flags : U8) :
    (n i : Nat) → (offset : U32) → Exec Fault (PagingState H) Unit
  | 0, _, _ => pure ()
  | n + 1, i, offset => do
    let entry ← kzallocWords alloc 4096
    pagingFillTable entry offset flags pagingTotalEntriesPerTable 0
    let offset := offset + BitVec.ofNat 32 pagingTotalEntriesPerTable * pagingPageSize
    storeWord directory (BitVec.ofNat 32 i) (entry ||| flags.setWidth 32 ||| pagingIsWriteable)
    pagingNewTables alloc directory flags n (i + 1) offset

/-- `paging_new_4gb`; the only field of `struct paging_4gb_chunk` is its first word. -/
def pagingNew4gb (alloc : Allocator H) (flags : U8) : Exec Fault (PagingState H) U32 := do
  let directory ← kzallocWords alloc 4096
  pagingNewTables alloc directory flags pagingTotalEntriesPerTable 0 0
  let chunk4gb ← kzallocWords alloc 4
  storeWord chunk4gb 0 directory
  pure chunk4gb

/-- `paging_4gb_chunk_get_directory`. -/
def paging4gbChunkGetDirectory (chunk : U32) : Exec Fault (PagingState H) U32 := loadWord chunk 0

/-- `paging_is_aligned`. -/
def pagingIsAligned (addr : U32) : Bool := addr % pagingPageSize = 0

/-- `paging_get_indexes`: the status, and what is then in `directory_index_out` and
`table_index_out`. -/
def pagingGetIndexes (virtualAddress directoryIndex tableIndex : U32) : Int × U32 × U32 :=
  if ¬ pagingIsAligned virtualAddress then (-einvarg, directoryIndex, tableIndex)
  else
    let tableBytes := BitVec.ofNat 32 pagingTotalEntriesPerTable * pagingPageSize
    (0, virtualAddress / tableBytes, virtualAddress % tableBytes / pagingPageSize)

/-- `paging_set`. -/
def pagingSet (directory virt val : U32) : Exec Fault (PagingState H) Int :=
  if ¬ pagingIsAligned virt then pure (-einvarg)
  else
    let (res, directoryIndex, tableIndex) := pagingGetIndexes virt 0 0
    if res < 0 then pure res
    else do
      let entry ← loadWord directory directoryIndex
      let table := entry &&& 0xfffff000
      storeWord table tableIndex val
      pure 0

/-- `paging_map`; the flags are an `int`. -/
def pagingMap (directory virt phys flags : U32) : Exec Fault (PagingState H) Int :=
  if virt % pagingPageSize ≠ 0 ∨ phys % pagingPageSize ≠ 0 then pure (-einvarg)
  else pagingSet directory virt (phys ||| flags)

end

/-! ### Words and pages -/

/-- The page of an address. -/
def pageOf (a : U32) : U32 := a &&& 0xfffff000

theorem pageOf_toNat (a : U32) : (pageOf a).toNat = a.toNat / 4096 * 4096 := by
  have hmask : ∀ i < 32, (0xfffff000 : U32).getLsbD i = decide (12 ≤ i) := by decide
  have h : pageOf a = (a >>> 12) <<< 12 := by
    refine BitVec.eq_of_getLsbD_eq fun i hi => ?_
    rw [pageOf, BitVec.getLsbD_and, hmask i hi, BitVec.getLsbD_shiftLeft,
      BitVec.getLsbD_ushiftRight]
    by_cases h12 : 12 ≤ i
    · simp [h12, hi, Nat.add_sub_cancel' h12]
    · simp [h12]
  rw [h, BitVec.toNat_shiftLeft, BitVec.toNat_ushiftRight, Nat.shiftLeft_eq,
    Nat.shiftRight_eq_div_pow,
    Nat.mod_eq_of_lt (by omega)]

theorem aligned_iff {p : U32} : p % 4096 = 0 ↔ p.toNat % 4096 = 0 := by
  rw [← BitVec.toNat_inj]
  simp

@[simp] theorem slot_zero (p : U32) : slot p 0 = p := by simp [slot]

/-- A word of a page. -/
theorem pageOf_slot {p i : U32} (hp : p % 4096 = 0) (hi : i.toNat < 1024) :
    pageOf (slot p i) = p := by
  rw [aligned_iff] at hp
  refine BitVec.eq_of_toNat_eq ?_
  rw [pageOf_toNat, slot]
  have := p.isLt
  have h4 : (4 * i : U32).toNat = 4 * i.toNat := by
    rw [BitVec.toNat_mul, Nat.mod_eq_of_lt (by simp; omega)]; rfl
  rw [BitVec.toNat_add, h4, Nat.mod_eq_of_lt (by omega)]
  omega

/-- A word less than a page behind the start of a page. -/
theorem pageOf_of_sub_lt {p a : U32} (hp : p % 4096 = 0) (ha : (a - p).toNat < 4096) :
    pageOf a = p := by
  rw [aligned_iff] at hp
  have hin : a.toNat = p.toNat + (a - p).toNat := by bv_omega
  refine BitVec.eq_of_toNat_eq ?_
  rw [pageOf_toNat]
  omega

/-- Entries of tables are at different addresses. -/
theorem slot_inj {p q i j : U32} (hp : p % 4096 = 0) (hq : q % 4096 = 0) (hi : i.toNat < 1024)
    (hj : j.toNat < 1024) (h : slot p i = slot q j) : p = q ∧ i = j := by
  have hpq : p = q := by rw [← pageOf_slot hp hi, h, pageOf_slot hq hj]
  subst hpq
  refine ⟨rfl, BitVec.eq_of_toNat_eq ?_⟩
  unfold slot at h
  bv_omega

/-- Flags do not hide the page they are put on. -/
theorem pageOf_flags {p x : U32} (hp : p % 4096 = 0) (hx : x.toNat < 4096) :
    pageOf (p ||| x) = p := by
  have hpp : pageOf p = p := by
    rw [aligned_iff] at hp
    refine BitVec.eq_of_toNat_eq ?_
    rw [pageOf_toNat]
    omega
  have hxx : pageOf x = 0 := by
    refine BitVec.eq_of_toNat_eq ?_
    rw [pageOf_toNat, Nat.div_eq_of_lt hx]
    rfl
  unfold pageOf at hpp hxx ⊢
  rw [BitVec.and_comm, BitVec.and_or_distrib_left]
  rw [BitVec.and_comm _ p, BitVec.and_comm _ x, hpp, hxx]
  exact BitVec.or_zero

/-! ### Blocks for tables -/

/-- The heap's blocks are whole pages, none at address `0`, and do not wrap. -/
structure PagedHeap (heap : Heap) : Prop where
  aligned : heap.saddr % 4096 = 0
  pos : heap.saddr ≠ 0
  fits : heap.saddr.toNat + 4096 * heap.table.total.toNat ≤ 2 ^ 32

/-- The free blocks. -/
def Heap.freeBlocks (heap : Heap) : Finset Nat :=
  (Finset.range heap.table.total.toNat).filter fun b => EntryFree (heap.table.entries b)

theorem Heap.freeBlocks_lt {heap : Heap} {b : Nat} (hb : b ∈ heap.freeBlocks) :
    b < heap.table.total.toNat := Finset.mem_range.mp (Finset.mem_filter.mp hb).1

/-- No free block is at `p`. -/
def Heap.Took (heap : Heap) (p : U32) : Prop :=
  ∀ b ∈ heap.freeBlocks, heapBlockToAddress heap b ≠ p

/-- Words outside the page `p` are the same. -/
def SameOff (p : U32) (words words' : U32 → U32) : Prop := ∀ a, pageOf a ≠ p → words' a = words a

/-- What a request for one block does. -/
structure TookBlock (s s' : PagingState Heap) (ptr : U32) : Prop where
  pos : ptr ≠ 0
  aligned : ptr % 4096 = 0
  paged : PagedHeap s'.heap
  left : s'.heap.freeBlocks.card + 1 = s.heap.freeBlocks.card
  took : s'.heap.Took ptr
  keeps : ∀ p, s.heap.Took p → s'.heap.Took p ∧ p ≠ ptr
  words : SameOff ptr s.words s'.words

theorem PagedHeap.address {heap : Heap} (h : PagedHeap heap) {b : Nat}
    (hb : b < heap.table.total.toNat) :
    (heapBlockToAddress heap b).toNat = heap.saddr.toNat + 4096 * b := by
  have hfits := h.fits
  have hsaddr := heap.saddr.isLt
  have hoffset := heapBlockToAddress_offset heap (b := b) (by omega)
  bv_omega

theorem PagedHeap.total_lt {heap : Heap} (h : PagedHeap heap) :
    heap.table.total.toNat < 2 ^ 20 := by
  have hpos : heap.saddr.toNat ≠ 0 := fun h0 => h.pos (BitVec.eq_of_toNat_eq h0)
  have := h.fits
  omega

/-- Every block is a page, and not the one at `0`. -/
theorem PagedHeap.address_page {heap : Heap} (h : PagedHeap heap) {b : Nat}
    (hb : b < heap.table.total.toNat) :
    heapBlockToAddress heap b ≠ 0 ∧ heapBlockToAddress heap b % 4096 = 0 := by
  have haddr := h.address hb
  have haligned := aligned_iff.mp h.aligned
  have hpos : heap.saddr.toNat ≠ 0 := fun h0 => h.pos (BitVec.eq_of_toNat_eq h0)
  refine ⟨fun h0 => ?_, by rw [aligned_iff, haddr]; omega⟩
  have h0 := congrArg BitVec.toNat h0
  rw [haddr] at h0
  exact hpos (Nat.add_eq_zero_iff.mp h0).1

theorem PagedHeap.address_inj {heap : Heap} (h : PagedHeap heap) {b b' : Nat}
    (hb : b < heap.table.total.toNat) (hb' : b' < heap.table.total.toNat)
    (he : heapBlockToAddress heap b = heapBlockToAddress heap b') : b = b' := by
  have haddr := h.address hb
  rw [he, h.address hb'] at haddr
  omega

/-- One block is marked by one write. -/
theorem heapMarkBlocksTaken_one (heap : Heap) (b : Nat) :
    heapMarkBlocksTaken heap b (1 : Nat) = heap.setEntry b (runCode 1 0) := by
  rw [heapMarkBlocksTaken, show ((b : Int) + (1 : Nat) - 1 + 1 - b).toNat = 1 by omega]
  rfl

/-- A request for one block takes a free one. -/
theorem heapMalloc_setEntry {heap : Heap} {size : U32} (hsize : blocksFor size = 1)
    (ht : heap.table.total.toNat < 2 ^ 31) (hfree : 0 < heap.freeBlocks.card) :
    ∃ b ∈ heap.freeBlocks,
      heapMalloc heap size = (heapBlockToAddress heap b, heap.setEntry b (runCode 1 0)) := by
  obtain ⟨b₀, hb₀⟩ := Finset.card_pos.mp hfree
  obtain ⟨hlt₀, hfree₀⟩ := Finset.mem_filter.mp hb₀
  have hlt₀ := Finset.mem_range.mp hlt₀
  have hone : (blocksFor size).toNat = 1 := by rw [hsize]; rfl
  have hfinds : FindsRun heap size := by
    refine ⟨b₀, hlt₀.le, ?_⟩
    rw [hone]
    refine ⟨hlt₀, fun i h₁ h₂ => ?_⟩
    obtain rfl : i = b₀ := by omega
    exact hfree₀
  obtain ⟨b, hrun, hmalloc⟩ := heapMalloc_of_findsRun ht (by rw [hsize]; decide) hfinds
  rw [hone] at hrun hmalloc
  rw [heapMarkBlocksTaken_one] at hmalloc
  exact ⟨b, Finset.mem_filter.mpr ⟨Finset.mem_range.mpr (by have := hrun.1; omega),
    hrun.2 b le_rfl (Nat.lt_succ_self b)⟩, hmalloc⟩

/-- Of the entries only the one of the block taken has changed. -/
theorem freeBlocks_setEntry (heap : Heap) (b : Nat) :
    (heap.setEntry b (runCode 1 0)).freeBlocks = heap.freeBlocks.erase b := by
  ext k
  rw [Finset.mem_erase, Heap.freeBlocks, Heap.freeBlocks, Finset.mem_filter, Finset.mem_filter,
    Heap.setEntry_total, Heap.setEntry_entries]
  by_cases hk : k = b
  · subst hk
    rw [if_pos rfl]
    simp [runCode_not_free]
  · rw [if_neg (by omega)]
    simp [hk]

/-- Block `b` is free, and taken by itself. -/
def TakesOne (heap : Heap) (b : Nat) (heap' : Heap) : Prop :=
  b ∈ heap.freeBlocks ∧ heap' = heap.setEntry b (runCode 1 0)

/-- A page is one block. -/
theorem kzallocWords_takesOne {s : PagingState Heap} (size : U32) (hsize : blocksFor size = 1)
    (hle : size.toNat ≤ 4096) (hpaged : PagedHeap s.heap) (hfree : 0 < s.heap.freeBlocks.card) :
    ∃ (b : Nat) (s' : PagingState Heap),
      kzallocWords .kheap size s = .ok (heapBlockToAddress s.heap b, s') ∧
      TakesOne s.heap b s'.heap ∧ TookBlock s s' (heapBlockToAddress s.heap b) := by
  obtain ⟨b, hb, hmalloc⟩ := heapMalloc_setEntry hsize (by have := hpaged.total_lt; omega) hfree
  have hblocks := freeBlocks_setEntry s.heap b
  have hblt : b < s.heap.table.total.toNat := Heap.freeBlocks_lt hb
  have haddr := hpaged.address hblt
  have hto : ∀ k, heapBlockToAddress (s.heap.setEntry b (runCode 1 0)) k =
      heapBlockToAddress s.heap k := fun _ => rfl
  refine ⟨b, _, by
    rw [kzallocWords, show Allocator.kheap.kzalloc size s.heap = _ from hmalloc], ⟨hb, rfl⟩, ?_⟩
  obtain ⟨hne, haligned⟩ := hpaged.address_page hblt
  constructor
  · exact hne
  · exact haligned
  · exact ⟨hpaged.aligned, hpaged.pos, hpaged.fits⟩
  · rw [hblocks]
    exact Finset.card_erase_add_one hb
  · intro k hk he
    rw [hblocks] at hk
    obtain ⟨hkb, hk⟩ := Finset.mem_erase.mp hk
    have hklt := Heap.freeBlocks_lt hk
    exact hkb (hpaged.address_inj hklt hblt he)
  · intro p hp
    refine ⟨fun k hk => ?_, fun he => hp b hb he.symm⟩
    rw [hblocks] at hk
    rw [hto]
    exact hp k (Finset.mem_of_mem_erase hk)
  · intro a ha
    -- the words cleared are those of the block
    exact if_neg fun h => ha (pageOf_of_sub_lt haligned (by omega))

/-! ### Building the tables -/

/-- What `paging_new_4gb` writes to entry `b` of the table that starts at `offset`. -/
def initialEntry (offset : U32) (flags : U8) (b : Nat) : U32 :=
  (offset + BitVec.ofNat 32 b * pagingPageSize) ||| flags.setWidth 32

/-- The first address of table `k`. -/
def tableOffset (k : Nat) : U32 := BitVec.ofNat 32 (k * 4194304)

theorem tableOffset_succ (k : Nat) :
    tableOffset k + BitVec.ofNat 32 pagingTotalEntriesPerTable * pagingPageSize =
      tableOffset (k + 1) := by
  rw [tableOffset, tableOffset, Nat.add_mul, BitVec.ofNat_add]
  rfl

theorem storeWord_ok {H : Type} {ptr : U32} (h : ptr ≠ 0) (i val : U32) (s : PagingState H) :
    storeWord ptr i val s =
      .ok ((), { s with words := Function.update s.words (slot ptr i) val }) := if_neg h

theorem loadWord_ok {H : Type} {ptr : U32} (h : ptr ≠ 0) (i : U32) (s : PagingState H) :
    loadWord ptr i s = .ok (s.words (slot ptr i), s) := if_neg h

theorem index_toNat {i : Nat} (hi : i < 1024) : (BitVec.ofNat 32 i).toNat = i := by
  rw [BitVec.toNat_ofNat, Nat.mod_eq_of_lt (by omega)]

/-- Entry `i` of the table at `p` is not entry `j` of the one at `q`. -/
theorem slot_ne {p q : U32} {i j : Nat} (hp : p % 4096 = 0) (hq : q % 4096 = 0) (hi : i < 1024)
    (hj : j < 1024) (hne : p ≠ q ∨ i ≠ j) :
    slot p (BitVec.ofNat 32 i) ≠ slot q (BitVec.ofNat 32 j) := by
  intro h
  obtain ⟨hpq, hij⟩ := slot_inj hp hq (by rwa [index_toNat hi]) (by rwa [index_toNat hj]) h
  have := congrArg BitVec.toNat hij
  rw [index_toNat hi, index_toNat hj] at this
  exact hne.elim (absurd hpq) (absurd this)

/-- A write to a table is seen in that table only. -/
theorem SameOff.update {p : U32} {i : Nat} (hp : p % 4096 = 0) (hi : i < 1024) (words : U32 → U32)
    (val : U32) : SameOff p words (Function.update words (slot p (BitVec.ofNat 32 i)) val) := by
  intro a ha
  refine Function.update_of_ne (fun he => ha ?_) _ _
  rw [he, pageOf_slot hp (by rwa [index_toNat hi])]

theorem SameOff.trans {p : U32} {w₁ w₂ w₃ : U32 → U32} (h₁ : SameOff p w₁ w₂)
    (h₂ : SameOff p w₂ w₃) :
    SameOff p w₁ w₃ := fun a ha => (h₂ a ha).trans (h₁ a ha)

/-- An entry of another table. -/
theorem SameOff.entry {p q : U32} {w w' : U32 → U32} (h : SameOff p w w') (hq : q % 4096 = 0)
    (hne : q ≠ p) {i : Nat} (hi : i < 1024) :
    w' (slot q (BitVec.ofNat 32 i)) = w (slot q (BitVec.ofNat 32 i)) :=
  h _ (by rw [pageOf_slot hq (by rwa [index_toNat hi])]; exact hne)

/-- The inner loop fills the rest of the table, and nothing else. -/
theorem pagingFillTable_spec {H : Type} {entry : U32} (offset : U32) (flags : U8) (hpos : entry ≠ 0)
    (ha : entry % 4096 = 0) (n b : Nat) (hb : b + n ≤ 1024) (s : PagingState H) :
    ∃ words, pagingFillTable entry offset flags n b s = .ok ((), { s with words }) ∧
      SameOff entry s.words words ∧
      ∀ j < 1024, words (slot entry (BitVec.ofNat 32 j)) =
        if b ≤ j ∧ j < b + n then initialEntry offset flags j
        else s.words (slot entry (BitVec.ofNat 32 j)) := by
  -- the entries behind `b` are filled by the rounds that are left
  induction n generalizing b s with
  | zero => exact ⟨s.words, rfl, fun a _ => rfl, fun j _ => by rw [if_neg (by omega)]⟩
  | succ n ih =>
    obtain ⟨words, hrun, hsame, hcells⟩ := ih (b + 1) (by omega) ⟨s.heap,
      Function.update s.words (slot entry (BitVec.ofNat 32 b)) (initialEntry offset flags b)⟩
    refine ⟨words, ?_, (SameOff.update ha (by omega) _ _).trans hsame, fun j hj => ?_⟩
    · rw [pagingFillTable, Exec.bind_ok (storeWord_ok hpos _ _ s)]
      exact hrun
    · rw [hcells j hj]
      by_cases hjb : j = b
      · subst hjb
        rw [if_neg (by omega), if_pos (by omega)]
        exact Function.update_self _ _ _
      · by_cases hin : b + 1 ≤ j ∧ j < b + 1 + n
        · rw [if_pos hin, if_pos (by omega)]
        · rw [if_neg hin, if_neg (by omega)]
          exact Function.update_of_ne (slot_ne ha ha hj (by omega) (.inr hjb)) _ _

/-- The first `n` tables are built: their entries are the initial ones, and they lie in blocks of
their own. -/
structure Built (s : PagingState Heap) (directory : U32) (flags : U8) (table : Nat → U32)
    (n : Nat) :
    Prop where
  entries : ∀ k < n, s.words (slot directory (BitVec.ofNat 32 k)) =
    table k ||| flags.setWidth 32 ||| pagingIsWriteable
  cells : ∀ k < n, ∀ b < 1024, s.words (slot (table k) (BitVec.ofNat 32 b)) =
    initialEntry (tableOffset k) flags b
  pos : ∀ k < n, table k ≠ 0
  aligned : ∀ k < n, table k % 4096 = 0
  apart : ∀ k < n, table k ≠ directory
  distinct : ∀ k < n, ∀ l < n, table k = table l → k = l
  took : s.heap.Took directory ∧ ∀ k < n, s.heap.Took (table k)

/-- One more table. -/
theorem Built.add {s s₁ s₂ : PagingState Heap} {directory entry : U32} {flags : U8}
    {table : Nat → U32} {n : Nat} (h : Built s directory flags table n) (hn : n < 1024)
    (hd : directory % 4096 = 0) (htook : TookBlock s s₁ entry) (hheap : s₂.heap = s₁.heap)
    (hcells : ∀ b < 1024, s₂.words (slot entry (BitVec.ofNat 32 b)) =
      initialEntry (tableOffset n) flags b)
    (hentry : s₂.words (slot directory (BitVec.ofNat 32 n)) =
      entry ||| flags.setWidth 32 ||| pagingIsWriteable)
    (hsame : ∀ p i, p % 4096 = 0 → p ≠ entry → i < 1024 → (p ≠ directory ∨ i ≠ n) →
      s₂.words (slot p (BitVec.ofNat 32 i)) = s.words (slot p (BitVec.ofNat 32 i))) :
    Built s₂ directory flags (Function.update table n entry) (n + 1) := by
  have hnew : Function.update table n entry n = entry := Function.update_self _ _ _
  have hold : ∀ k < n, Function.update table n entry k = table k := fun k hk =>
    Function.update_of_ne (by omega) _ _
  have hcase : ∀ k < n + 1, k = n ∨ k < n := fun k hk => by omega
  -- the block of the new table is none of the old ones
  have hfresh : ∀ k < n, table k ≠ entry := fun k hk => (htook.keeps _ (h.took.2 k hk)).2
  have hdirectory : directory ≠ entry := (htook.keeps _ h.took.1).2
  have htaken : ∀ p, s₂.heap.Took p ↔ s₁.heap.Took p := fun p => by rw [hheap]
  constructor
  · intro k hk
    rcases hcase k hk with rfl | hk
    · rw [hnew, hentry]
    · rw [hold k hk, hsame directory k hd hdirectory (by omega) (.inr (by omega)), h.entries k hk]
  · intro k hk b hb
    rcases hcase k hk with rfl | hk
    · rw [hnew, hcells b hb]
    · rw [hold k hk, hsame _ b (h.aligned k hk) (hfresh k hk) hb (.inl (h.apart k hk)),
        h.cells k hk b hb]
  · intro k hk
    rcases hcase k hk with rfl | hk
    · rw [hnew]; exact htook.pos
    · rw [hold k hk]; exact h.pos k hk
  · intro k hk
    rcases hcase k hk with rfl | hk
    · rw [hnew]; exact htook.aligned
    · rw [hold k hk]; exact h.aligned k hk
  · intro k hk
    rcases hcase k hk with rfl | hk
    · rw [hnew]; exact hdirectory.symm
    · rw [hold k hk]; exact h.apart k hk
  · intro k hk l hl he
    rcases hcase k hk with rfl | hk <;> rcases hcase l hl with rfl | hl
    · rfl
    · rw [hnew, hold l hl] at he
      exact absurd he.symm (hfresh l hl)
    · rw [hnew, hold k hk] at he
      exact absurd he (hfresh k hk)
    · rw [hold k hk, hold l hl] at he
      exact h.distinct k hk l hl he
  · refine ⟨(htaken _).mpr (htook.keeps _ h.took.1).1, fun k hk => (htaken _).mpr ?_⟩
    rcases hcase k hk with rfl | hk
    · rw [hnew]; exact htook.took
    · rw [hold k hk]; exact (htook.keeps _ (h.took.2 k hk)).1

/-- The outer loop builds the rest of the tables, in blocks taken one by one. -/
theorem pagingNewTables_blocks {directory : U32} (flags : U8) (hpos : directory ≠ 0)
    (hd : directory % 4096 = 0) (m n : Nat) (hn : n + m = 1024) (s : PagingState Heap)
    (table : Nat → U32) (h : Built s directory flags table n) (hpaged : PagedHeap s.heap)
    (hfree : m ≤ s.heap.freeBlocks.card) :
    ∃ s' table' blocks,
      pagingNewTables .kheap directory flags m n (tableOffset n) s = .ok ((), s') ∧
      (Built s' directory flags table' 1024 ∧ PagedHeap s'.heap ∧
        s'.heap.freeBlocks.card + m = s.heap.freeBlocks.card) ∧
      Run TakesOne s.heap blocks s'.heap ∧ (∀ k < n, table' k = table k) ∧
      (List.range' n m).map table' = blocks.map fun b : Nat => heapBlockToAddress s.heap b := by
  induction m generalizing n s table with
  | zero =>
    obtain rfl : n = 1024 := by omega
    exact ⟨s, table, [], rfl, ⟨h, hpaged, rfl⟩, .nil _, fun _ _ => rfl, rfl⟩
  | succ m ih =>
    obtain ⟨block, s₁, halloc, hone, htook⟩ :=
      kzallocWords_takesOne 4096 (by decide) (by decide) hpaged (by omega)
    obtain ⟨entry, hblock⟩ : ∃ entry, heapBlockToAddress s.heap block = entry := ⟨_, rfl⟩
    rw [hblock] at halloc htook
    obtain ⟨words, hfill, hsame, hcells⟩ := pagingFillTable_spec (tableOffset n) flags
      htook.pos htook.aligned 1024 0 le_rfl s₁
    -- the directory's block was taken before, so its new entry is in no table
    have hdirectory : directory ≠ entry := (htook.keeps _ h.took.1).2
    set s₂ : PagingState Heap := ⟨s₁.heap, Function.update words
      (slot directory (BitVec.ofNat 32 n)) (entry ||| flags.setWidth 32 ||| pagingIsWriteable)⟩
    have hentry : s₂.words (slot directory (BitVec.ofNat 32 n)) =
        entry ||| flags.setWidth 32 ||| pagingIsWriteable := Function.update_self _ _ _
    have hnew : ∀ b < 1024, s₂.words (slot entry (BitVec.ofNat 32 b)) =
        initialEntry (tableOffset n) flags b := by
      intro b hb
      have hne := slot_ne (j := n) htook.aligned hd hb (by omega) (.inl hdirectory.symm)
      exact (Function.update_of_ne hne _ _).trans ((hcells b hb).trans (if_pos (by omega)))
    have hrest : ∀ p i, p % 4096 = 0 → p ≠ entry → i < 1024 → (p ≠ directory ∨ i ≠ n) →
        s₂.words (slot p (BitVec.ofNat 32 i)) = s.words (slot p (BitVec.ofNat 32 i)) := by
      intro p i hp hne hi hslot
      have hslot := slot_ne hp hd hi (show n < 1024 by omega) hslot
      exact (Function.update_of_ne hslot _ _).trans
        ((hsame.entry hp hne hi).trans (htook.words.entry hp hne hi))
    have hheap : s₂.heap = s₁.heap := rfl
    have hbuilt := h.add (by omega) hd htook hheap hnew hentry hrest
    have hleft := htook.left
    rw [← hheap] at hleft
    obtain ⟨s', table', blocks, hrun, ⟨hbuilt', hpaged', hleft'⟩, hblocks, hkept, haddrs⟩ :=
      ih (n + 1) (by omega) _ _ hbuilt htook.paged (by omega)
    refine ⟨s', table', block :: blocks, ?_, ⟨hbuilt', hpaged', by omega⟩, .cons hone hblocks,
      fun k hk => ?_, ?_⟩
    rotate_left
    · rw [hkept k (by omega), Function.update_of_ne (by omega)]
    · have hfirst : table' n = entry :=
        (hkept n (Nat.lt_succ_self n)).trans (Function.update_self ..)
      have hsaddr : s₂.heap.saddr = s.heap.saddr := by rw [hheap, hone.2]; rfl
      rw [List.range'_succ, List.map_cons, List.map_cons, hfirst, hblock, haddrs]
      simp only [heapBlockToAddress, hsaddr]
    rw [pagingNewTables, Exec.bind_ok halloc]
    dsimp only
    rw [pagingTotalEntriesPerTable, Exec.bind_ok hfill, Exec.bind_ok (storeWord_ok hpos _ _ _)]
    have hoffset := tableOffset_succ n
    rw [pagingTotalEntriesPerTable] at hoffset
    rw [hoffset]
    exact hrun

/-! ### Walking the tables -/

/-- What the processor finds for a virtual address: bits 22 to 31 select the page table, bits 12 to
21 its entry. -/
def pageWalk (words : U32 → U32) (directory va : U32) : U32 :=
  words (slot (words (slot directory (va >>> 22)) &&& 0xfffff000) (va >>> 12 &&& 0x3ff))

/-- The tables of an address space: each is found behind the flags of its directory entry, and no
two share a page, nor does one share that of the directory or of the chunk. -/
structure PageTables (words : U32 → U32) (chunk directory : U32) (table : Nat → U32) : Prop where
  head : chunk ≠ 0 ∧ chunk % 4096 = 0 ∧ words chunk = directory
  root : directory ≠ 0 ∧ directory % 4096 = 0
  entries : ∀ k < 1024, pageOf (words (slot directory (BitVec.ofNat 32 k))) = table k
  tables : ∀ k < 1024, table k ≠ 0 ∧ table k % 4096 = 0
  apart : ∀ k < 1024, table k ≠ directory ∧ table k ≠ chunk
  distinct : ∀ k < 1024, ∀ l < 1024, table k = table l → k = l

theorem flagsOfEntry_lt (flags : U8) : (flags.setWidth 32 ||| pagingIsWriteable).toNat < 4096 := by
  have hflags : (flags.setWidth 32).toNat < 2 ^ 8 := by
    rw [BitVec.toNat_setWidth]
    have := flags.isLt
    omega
  rw [BitVec.toNat_or]
  have := Nat.or_lt_two_pow hflags (show pagingIsWriteable.toNat < 2 ^ 8 by decide)
  omega

/-- The blocks of an address space: of its directory, of its tables and of its chunk. -/
structure SpaceBlocks (heap : Heap) (chunk directory : U32) (table : Nat → U32) (d : Nat)
    (ts : List Nat) (c : Nat) : Prop where
  directory : directory = heapBlockToAddress heap d
  tables : (List.range' 0 1024).map table = ts.map fun b : Nat => heapBlockToAddress heap b
  chunk : chunk = heapBlockToAddress heap c

theorem SpaceBlocks.tables_length {heap : Heap} {chunk directory : U32} {table : Nat → U32}
    {d c : Nat} {ts : List Nat} (h : SpaceBlocks heap chunk directory table d ts c) :
    ts.length = 1024 := by
  have hmap := congrArg List.length h.tables
  rw [List.length_map, List.length_map, List.length_range'] at hmap
  exact hmap.symm

/-- **`paging_new_4gb`** makes an address space in which every page is mapped to itself, in blocks
taken one by one. -/
theorem pagingNew4gb_blocks (flags : U8) {s : PagingState Heap} (hpaged : PagedHeap s.heap)
    (hfree : 1026 ≤ s.heap.freeBlocks.card) :
    ∃ chunk s' directory table d ts c, pagingNew4gb .kheap flags s = .ok (chunk, s') ∧
      (PageTables s'.words chunk directory table ∧
        ∀ k < 1024, ∀ b < 1024, s'.words (slot (table k) (BitVec.ofNat 32 b)) =
          initialEntry (tableOffset k) flags b) ∧
      Run TakesOne s.heap (d :: (ts ++ [c])) s'.heap ∧
      SpaceBlocks s.heap chunk directory table d ts c := by
  obtain ⟨d, s₁, hdirectory, hone₁, htook₁⟩ :=
    kzallocWords_takesOne 4096 (by decide) (by decide) hpaged (by omega)
  have hsaddr₁ : s₁.heap.saddr = s.heap.saddr := by rw [hone₁.2]; rfl
  obtain ⟨directory, hd⟩ : ∃ directory, heapBlockToAddress s.heap d = directory := ⟨_, rfl⟩
  rw [hd] at hdirectory htook₁
  have hnone : Built s₁ directory flags (fun _ => 0) 0 :=
    ⟨nofun, nofun, nofun, nofun, nofun, nofun, htook₁.took, nofun⟩
  obtain ⟨s₂, table, ts, htables, ⟨hbuilt, hpaged₂, hleft₂⟩, hblocks, -, haddrs⟩ :=
    pagingNewTables_blocks flags htook₁.pos htook₁.aligned 1024 0 rfl s₁ _ hnone htook₁.paged
      (by have := htook₁.left; omega)
  obtain ⟨c, s₃, hchunk, hone₃, htook₃⟩ := kzallocWords_takesOne 4 (by decide) (by decide)
    hpaged₂ (by have := htook₁.left; omega)
  have hsaddr₂ := hblocks.invariant (P := fun heap => heap.saddr = s₁.heap.saddr) rfl
    fun _ _ _ hsaddr h => by rw [h.2]; exact hsaddr
  obtain ⟨chunk, hc⟩ : ∃ chunk, heapBlockToAddress s₂.heap c = chunk := ⟨_, rfl⟩
  rw [hc] at hchunk htook₃
  -- the chunk's block is none of those of the directory and the tables
  have hne : ∀ p, s₂.heap.Took p → p ≠ chunk := fun p hp => (htook₃.keeps p hp).2
  have hwords : SameOff chunk s₂.words (Function.update s₃.words (slot chunk 0) directory) :=
    htook₃.words.trans (SameOff.update (i := 0) htook₃.aligned (by decide) _ _)
  refine ⟨chunk, ⟨s₃.heap, Function.update s₃.words (slot chunk 0) directory⟩, directory, table,
    d, ts, c, ?_, ⟨?_, ?_⟩, .cons hone₁ (hblocks.trans (.one hone₃)), hd.symm, ?_, ?_⟩
  · rw [pagingNew4gb, Exec.bind_ok hdirectory]
    have htables' : pagingNewTables .kheap directory flags pagingTotalEntriesPerTable 0 0 s₁ =
      .ok ((), s₂) := htables
    rw [Exec.bind_ok htables', Exec.bind_ok hchunk, Exec.bind_ok (storeWord_ok htook₃.pos _ _ _)]
    rfl
  · have hd := hne directory hbuilt.took.1
    refine ⟨⟨htook₃.pos, htook₃.aligned, ?_⟩, ⟨htook₁.pos, htook₁.aligned⟩, fun k hk => ?_,
      fun k hk => ⟨hbuilt.pos k hk, hbuilt.aligned k hk⟩,
      fun k hk => ⟨hbuilt.apart k hk, hne _ (hbuilt.took.2 k hk)⟩, hbuilt.distinct⟩
    · rw [slot_zero]
      exact Function.update_self _ _ _
    · have hentry := (hwords.entry htook₁.aligned hd hk).trans (hbuilt.entries k hk)
      rw [BitVec.or_assoc] at hentry
      exact (congrArg pageOf hentry).trans
        (pageOf_flags (hbuilt.aligned k hk) (flagsOfEntry_lt flags))
  · intro k hk b hb
    have hentry := hwords.entry (hbuilt.aligned k hk) (hne _ (hbuilt.took.2 k hk)) hb
    exact hentry.trans (hbuilt.cells k hk b hb)
  · rw [haddrs]
    simp only [heapBlockToAddress, hsaddr₁]
  · rw [← hc, heapBlockToAddress, hsaddr₂, hsaddr₁]
    rfl

/-- `paging_new_4gb` maps every page to itself. -/
theorem pagingNew4gb_spec (flags : U8) {s : PagingState Heap} (hpaged : PagedHeap s.heap)
    (hfree : 1026 ≤ s.heap.freeBlocks.card) :
    ∃ chunk s' directory table, pagingNew4gb .kheap flags s = .ok (chunk, s') ∧
      PageTables s'.words chunk directory table ∧
      ∀ k < 1024, ∀ b < 1024, s'.words (slot (table k) (BitVec.ofNat 32 b)) =
        initialEntry (tableOffset k) flags b := by
  obtain ⟨chunk, s', directory, table, -, -, -, hrun, htables, -⟩ :=
    pagingNew4gb_blocks flags hpaged hfree
  exact ⟨chunk, s', directory, table, hrun, htables⟩

/-! ### Setting a page -/

/-- The indexes of a page, for the processor and for `paging_get_indexes`. -/
theorem directoryIndex_eq (va : U32) : va >>> 22 = BitVec.ofNat 32 (va.toNat / 4194304) := by
  refine BitVec.eq_of_toNat_eq ?_
  have := va.isLt
  rw [BitVec.toNat_ushiftRight, Nat.shiftRight_eq_div_pow, index_toNat (by omega)]

theorem tableIndex_eq (va : U32) :
    va >>> 12 &&& 0x3ff = BitVec.ofNat 32 (va.toNat / 4096 % 1024) := by
  refine BitVec.eq_of_toNat_eq ?_
  rw [BitVec.toNat_and, BitVec.toNat_ushiftRight, Nat.shiftRight_eq_div_pow,
    show (0x3ff : U32).toNat = 2 ^ 10 - 1 from rfl, Nat.and_two_pow_sub_one_eq_mod,
    index_toNat (Nat.mod_lt _ (by decide))]

theorem pagingGetIndexes_ok {va : U32} (h : pagingIsAligned va) (i j : U32) :
    pagingGetIndexes va i j = (0, BitVec.ofNat 32 (va.toNat / 4194304),
      BitVec.ofNat 32 (va.toNat / 4096 % 1024)) := by
  have := va.isLt
  have hbytes : (BitVec.ofNat 32 pagingTotalEntriesPerTable * pagingPageSize).toNat = 4194304 := rfl
  have hdirectory : va / (BitVec.ofNat 32 pagingTotalEntriesPerTable * pagingPageSize) =
      BitVec.ofNat 32 (va.toNat / 4194304) := by
    refine BitVec.eq_of_toNat_eq ?_
    rw [BitVec.toNat_udiv, hbytes, index_toNat (by omega)]
  have htable :
      va % (BitVec.ofNat 32 pagingTotalEntriesPerTable * pagingPageSize) / pagingPageSize =
      BitVec.ofNat 32 (va.toNat / 4096 % 1024) := by
    refine BitVec.eq_of_toNat_eq ?_
    rw [BitVec.toNat_udiv, BitVec.toNat_umod, hbytes, index_toNat (Nat.mod_lt _ (by decide))]
    show va.toNat % 4194304 / 4096 = _
    omega
  rw [pagingGetIndexes, if_neg (not_not.mpr h)]
  dsimp only
  rw [hdirectory, htable]

/-- The entry of a page in the tables. -/
def pageEntry (table : Nat → U32) (va : U32) : U32 :=
  slot (table (va.toNat / 4194304)) (BitVec.ofNat 32 (va.toNat / 4096 % 1024))

variable {words : U32 → U32} {chunk directory : U32} {table : Nat → U32}

/-- The walk finds the entry of the page. -/
theorem PageTables.walk (h : PageTables words chunk directory table) (va : U32) :
    pageWalk words directory va = words (pageEntry table va) := by
  have := va.isLt
  have hentry := h.entries (va.toNat / 4194304) (by omega)
  rw [pageWalk, directoryIndex_eq, tableIndex_eq]
  unfold pageOf at hentry
  rw [hentry, pageEntry]

/-- Different pages have different entries. -/
theorem PageTables.pageEntry_inj (h : PageTables words chunk directory table) {va va' : U32}
    (ha : va % 4096 = 0) (ha' : va' % 4096 = 0) (he : pageEntry table va = pageEntry table va') :
    va = va' := by
  rw [aligned_iff] at ha ha'
  have hlt := va.isLt
  have hlt' := va'.isLt
  by_contra hne
  have hnat : va.toNat ≠ va'.toNat := fun e => hne (BitVec.eq_of_toNat_eq e)
  refine slot_ne (h.tables _ (by omega)).2 (h.tables _ (by omega)).2 (Nat.mod_lt _ (by decide))
    (Nat.mod_lt _ (by decide)) ?_ he
  -- in different tables, or in one table at different entries
  by_cases hk : va.toNat / 4194304 = va'.toNat / 4194304
  · exact .inr (by omega)
  · exact .inl fun ht => hk (h.distinct _ (by omega) _ (by omega) ht)

/-- A page that is set. -/
theorem PageTables.set (h : PageTables words chunk directory table) {va : U32}
    (ha : va % 4096 = 0) (val : U32) :
    PageTables (Function.update words (pageEntry table va) val) chunk directory table ∧
      ∀ va', va' % 4096 = 0 →
        pageWalk (Function.update words (pageEntry table va) val) directory va' =
          if va' = va then val else pageWalk words directory va' := by
  have hlt := va.isLt
  have hi : va.toNat / 4096 % 1024 < 1024 := Nat.mod_lt _ (by decide)
  have hk : va.toNat / 4194304 < 1024 := by omega
  have hsame : SameOff (table (va.toNat / 4194304)) words
      (Function.update words (pageEntry table va) val) := .update (h.tables _ hk).2 hi _ _
  have htables :
      PageTables (Function.update words (pageEntry table va) val) chunk directory table := by
    refine ⟨⟨h.head.1, h.head.2.1, ?_⟩, h.root, fun k hk' => ?_, h.tables, h.apart, h.distinct⟩
    · have hchunk := hsame.entry h.head.2.1 (h.apart _ hk).2.symm (i := 0) (by decide)
      have h0 : slot chunk (BitVec.ofNat 32 0) = chunk := slot_zero chunk
      rw [h0] at hchunk
      exact hchunk.trans h.head.2.2
    · rw [hsame.entry h.root.2 (h.apart _ hk).1.symm hk']
      exact h.entries k hk'
  refine ⟨htables, fun va' ha' => ?_⟩
  rw [htables.walk, h.walk]
  by_cases hva : va' = va
  · subst hva
    rw [if_pos rfl, Function.update_self]
  · rw [if_neg hva, Function.update_of_ne fun he => hva (h.pageEntry_inj ha' ha he)]

/-- `paging_set` of an aligned address sets its page. -/
theorem pagingSet_ok {H : Type} {s : PagingState H}
    (h : PageTables s.words chunk directory table) {va : U32} (ha : va % 4096 = 0) (val : U32) :
    pagingSet directory va val s =
      .ok (0, { s with words := Function.update s.words (pageEntry table va) val }) := by
  have hlt := va.isLt
  have hk : va.toNat / 4194304 < 1024 := by omega
  have haligned : pagingIsAligned va := decide_eq_true ha
  have hentry : s.words (slot directory (BitVec.ofNat 32 (va.toNat / 4194304))) &&& 0xfffff000 =
      table (va.toNat / 4194304) := h.entries _ hk
  rw [pagingSet, if_neg (not_not.mpr haligned), pagingGetIndexes_ok haligned]
  dsimp only
  rw [if_neg (by decide), Exec.bind_ok (loadWord_ok h.root.1 _ s), hentry,
    Exec.bind_ok (storeWord_ok (h.tables _ hk).1 _ _ _)]
  rfl

/-- `paging_map` sets the entry of the page. -/
theorem pagingMap_ok {H : Type} {s : PagingState H} (h : PageTables s.words chunk directory table)
    {virt phys : U32} (hv : virt % 4096 = 0) (hp : phys % 4096 = 0) (flags : U32) :
    pagingMap directory virt phys flags s = .ok (0,
      { s with words := Function.update s.words (pageEntry table virt) (phys ||| flags) }) := by
  have hmap : ¬ (virt % pagingPageSize ≠ 0 ∨ phys % pagingPageSize ≠ 0) := by
    rintro (hv' | hp')
    · exact hv' hv
    · exact hp' hp
  rw [pagingMap, if_neg hmap]
  exact pagingSet_ok h hv _

/-! ### Calls -/

/-- A call on the directory of an address space. -/
inductive PagingCall where
  | set (virt val : U32)
  | map (virt phys flags : U32)
  deriving DecidableEq

namespace PagingCall

/-- The page that is set. -/
def virt : PagingCall → U32
  | .set virt _   => virt
  | .map virt _ _ => virt

/-- What the page is set to. -/
def value : PagingCall → U32
  | .set _ val        => val
  | .map _ phys flags => phys ||| flags

/-- Every address it is given is aligned. -/
def Aligned : PagingCall → Prop
  | .set virt _      => virt % 4096 = 0
  | .map virt phys _ => virt % 4096 = 0 ∧ phys % 4096 = 0

/-- The call, on the directory of `chunk`. -/
def run {H : Type} (chunk : U32) (c : PagingCall) : Exec Fault (PagingState H) Int := do
  let directory ← paging4gbChunkGetDirectory chunk
  match c with
  | .set virt val => pagingSet directory virt val
  | .map virt phys flags => pagingMap directory virt phys flags

end PagingCall

/-- A successful call. -/
def PagingStep {H : Type} (chunk : U32) (s : PagingState H) (c : PagingCall) (s' : PagingState H) :
    Prop := c.run chunk s = .ok (0, s')

/-- The value of the last call for `va`. -/
def lastValue (calls : List PagingCall) (va : U32) : Option U32 :=
  (calls.reverse.find? fun c => c.virt = va).map PagingCall.value

theorem PageTables.getDirectory {H : Type} {s : PagingState H}
    (h : PageTables s.words chunk directory table) :
    paging4gbChunkGetDirectory chunk s = .ok (directory, s) := by
  rw [paging4gbChunkGetDirectory, loadWord_ok h.head.1, slot_zero, h.head.2.2]

/-- A call with aligned addresses succeeds and sets its page. -/
theorem PagingCall.run_aligned {H : Type} {s : PagingState H} {c : PagingCall}
    (h : PageTables s.words chunk directory table) (ha : c.Aligned) :
    c.run chunk s =
      .ok (0, { s with words := Function.update s.words (pageEntry table c.virt) c.value }) := by
  rw [PagingCall.run, Exec.bind_ok h.getDirectory]
  cases c with
  | set virt val => exact pagingSet_ok h ha val
  | map virt phys flags => exact pagingMap_ok h ha.1 ha.2 flags

/-- **A call with an unaligned address** is refused and changes nothing. -/
theorem PagingCall.run_unaligned {H : Type} {s : PagingState H} {c : PagingCall}
    (h : PageTables s.words chunk directory table) (ha : ¬ c.Aligned) :
    c.run chunk s = .ok (-einvarg, s) := by
  rw [PagingCall.run, Exec.bind_ok h.getDirectory]
  cases c with
  | set virt val =>
    have hset : ¬ pagingIsAligned virt := by
      intro hv
      have haligned : virt % pagingPageSize = 0 := of_decide_eq_true hv
      exact ha haligned
    dsimp only
    rw [pagingSet, if_pos hset]
    rfl
  | map virt phys flags =>
    have hmap : virt % pagingPageSize ≠ 0 ∨ phys % pagingPageSize ≠ 0 := by
      by_contra hc
      rw [not_or, not_not, not_not] at hc
      exact ha hc
    dsimp only
    rw [pagingMap, if_pos hmap]
    rfl

/-- What one call makes of the translation. -/
theorem PagingStep.walk {H : Type} {s s' : PagingState H} {c : PagingCall}
    (h : PageTables s.words chunk directory table) (hstep : PagingStep chunk s c s') :
    PageTables s'.words chunk directory table ∧ ∀ va, va % 4096 = 0 →
      pageWalk s'.words directory va =
        if va = c.virt then c.value else pageWalk s.words directory va := by
  by_cases ha : c.Aligned
  · cases (PagingCall.run_aligned h ha).symm.trans hstep
    have hvirt : c.virt % 4096 = 0 := by
      cases c with
      | set virt val => exact ha
      | map virt phys flags => exact ha.1
    exact h.set hvirt c.value
  · cases (PagingCall.run_unaligned h ha).symm.trans hstep

theorem lastValue_snoc (calls : List PagingCall) (c : PagingCall) (va : U32) :
    lastValue (calls ++ [c]) va = if c.virt = va then some c.value else lastValue calls va := by
  rw [lastValue, List.reverse_append, List.reverse_singleton, List.singleton_append,
    List.find?_cons]
  by_cases h : c.virt = va
  · simp [h]
  · simp [h, lastValue]

/-- What a run of calls makes of it. -/
theorem pagingRun_walk {H : Type} {s s' : PagingState H} {calls : List PagingCall}
    (h : PageTables s.words chunk directory table) (hrun : Run (PagingStep chunk) s calls s') :
    PageTables s'.words chunk directory table ∧ ∀ va, va % 4096 = 0 →
      pageWalk s'.words directory va =
        (lastValue calls va).getD (pageWalk s.words directory va) := by
  induction hrun with
  | nil => exact ⟨h, fun va _ => rfl⟩
  | @snoc s₁ s₂ calls c _ hstep ih =>
    obtain ⟨htables, hwalk⟩ := ih
    obtain ⟨htables', hwalk'⟩ := hstep.walk htables
    refine ⟨htables', fun va ha => ?_⟩
    rw [hwalk' va ha, lastValue_snoc]
    by_cases hva : va = c.virt
    · rw [if_pos hva, if_pos hva.symm]
      rfl
    · rw [if_neg hva, if_neg (Ne.symm hva)]
      exact hwalk va ha

/-- A page is in the table of its upper bits. -/
theorem initialEntry_eq {va : U32} (ha : va % 4096 = 0) (flags : U8) :
    initialEntry (tableOffset (va.toNat / 4194304)) flags (va.toNat / 4096 % 1024) =
      va ||| flags.setWidth 32 := by
  have hva : tableOffset (va.toNat / 4194304) +
      BitVec.ofNat 32 (va.toNat / 4096 % 1024) * pagingPageSize = va := by
    have hlt := va.isLt
    have hp := aligned_iff.mp ha
    have hmul : (BitVec.ofNat 32 (va.toNat / 4096 % 1024) * pagingPageSize).toNat =
        va.toNat / 4096 % 1024 * 4096 := by
      rw [BitVec.toNat_mul, index_toNat (Nat.mod_lt _ (by decide))]
      exact Nat.mod_eq_of_lt (by show _ * 4096 < _; omega)
    refine BitVec.eq_of_toNat_eq ?_
    rw [BitVec.toNat_add, hmul, tableOffset, BitVec.toNat_ofNat,
      Nat.mod_eq_of_lt (a := va.toNat / 4194304 * 4194304) (by omega), Nat.mod_eq_of_lt (by omega)]
    omega
  rw [initialEntry, hva]

/-- In an address space just built every page is mapped to itself, with the flags. -/
theorem PageTables.walk_fresh {words : U32 → U32} {chunk directory : U32} {table : Nat → U32}
    {flags : U8} (h : PageTables words chunk directory table)
    (hcells : ∀ k < 1024, ∀ b < 1024, words (slot (table k) (BitVec.ofNat 32 b)) =
      initialEntry (tableOffset k) flags b) {va : U32} (ha : va % 4096 = 0) :
    pageWalk words directory va = va ||| flags.setWidth 32 := by
  have hlt := va.isLt
  rw [h.walk, pageEntry, hcells _ (by omega) _ (Nat.mod_lt _ (by decide)), initialEntry_eq ha]

/-- **The tables translate as last set.**  `paging_new_4gb` makes an address space from any heap
with enough free blocks.  After any sequence of successful `paging_set` and `paging_map` calls on
its directory, the walk of every page gives the value of the last call for it, and the page itself
with the flags if there was none; every call with aligned addresses succeeds, and every other one
returns `-EINVARG` and changes nothing. -/
theorem paging_translates_as_last_set (flags : U8) {s : PagingState Heap}
    (hpaged : PagedHeap s.heap) (hfree : 1026 ≤ s.heap.freeBlocks.card) :
    ∃ chunk s₀, pagingNew4gb .kheap flags s = .ok (chunk, s₀) ∧
      ∀ calls s', Run (PagingStep chunk) s₀ calls s' →
        (∀ va, va % 4096 = 0 → pageWalk s'.words (s'.words chunk) va =
          (lastValue calls va).getD (va ||| flags.setWidth 32)) ∧
        (∀ c : PagingCall, c.Aligned → ∃ s'', PagingStep chunk s' c s'') ∧
        ∀ c : PagingCall, ¬ c.Aligned → c.run chunk s' = .ok (-einvarg, s') := by
  obtain ⟨chunk, s₀, directory, table, hnew, htables, hcells⟩ :=
    pagingNew4gb_spec flags hpaged hfree
  refine ⟨chunk, s₀, hnew, fun calls s' hrun => ?_⟩
  obtain ⟨htables', hwalk⟩ := pagingRun_walk htables hrun
  refine ⟨fun va ha => ?_, fun c hc => ⟨_, c.run_aligned htables' hc⟩,
    fun c hc => c.run_unaligned htables' hc⟩
  rw [htables'.head.2.2, hwalk va ha, htables.walk_fresh hcells ha]

/-! ### The kernel heap -/

/-- The kernel heap as `kheap_init` leaves it: 100 MB from `0x01000000` on, all free. -/
def kernelHeap : Heap := ⟨⟨fun _ => heapBlockTableEntryFree, 25600⟩, 0x01000000, []⟩

theorem kernelHeap_freeBlocks : kernelHeap.freeBlocks.card = 25600 := by
  have hfree : ∀ b ∈ Finset.range kernelHeap.table.total.toNat,
      EntryFree (kernelHeap.table.entries b) :=
    fun _ _ => show EntryFree heapBlockTableEntryFree by decide
  rw [Heap.freeBlocks, Finset.filter_true_of_mem hfree, Finset.card_range]
  rfl

theorem kernelHeap_paged : PagedHeap kernelHeap := ⟨by decide, by decide, by decide⟩

theorem kernelHeap_room : 1026 ≤ kernelHeap.freeBlocks.card := by
  rw [kernelHeap_freeBlocks]
  decide

/-- The first page set to a frame, mapped to another and asked for with an unaligned address. -/
theorem paging_translates_as_last_set_twice :
    ∃ chunk s₀ s', pagingNew4gb .kheap 7 ⟨kernelHeap, fun _ => 0⟩ = .ok (chunk, s₀) ∧
      Run (PagingStep chunk) s₀ [.set 0x1000 0x5007, .map 0x1000 0x9000 3] s' ∧
      pageWalk s'.words (s'.words chunk) 0x1000 = 0x9003 ∧
      pageWalk s'.words (s'.words chunk) 0x80000000 = 0x80000007 ∧
      (PagingCall.set 0x1004 0).run chunk s' = .ok (-einvarg, s') := by
  obtain ⟨chunk, s₀, hnew, hcalls⟩ := paging_translates_as_last_set 7
    (s := ⟨kernelHeap, fun _ => 0⟩) kernelHeap_paged kernelHeap_room
  obtain ⟨s₁, h₁⟩ := (hcalls [] s₀ (.nil s₀)).2.1 (.set 0x1000 0x5007) rfl
  obtain ⟨s₂, h₂⟩ := (hcalls _ s₁ (.one h₁)).2.1 (.map 0x1000 0x9000 3) ⟨rfl, rfl⟩
  have hrun := Run.cons h₁ (.one h₂)
  obtain ⟨hwalk, -, hrefused⟩ := hcalls _ s₂ hrun
  exact ⟨chunk, s₀, s₂, hnew, hrun, hwalk 0x1000 rfl, hwalk 0x80000000 rfl,
    hrefused (.set 0x1004 0) (by simp [PagingCall.Aligned])⟩

end KernelNES.Memory
