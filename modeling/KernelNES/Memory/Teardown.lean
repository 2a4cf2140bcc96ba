import KernelNES.Memory.PagingRange

/-!
# Memory — Teardown

`paging_free_4gb` of `src/memory/paging/paging.c`.  The tables of an address space are found behind
the flags of its directory, whatever was mapped since it was made, so they are freed with the
directory and the chunk, each once.  Every block is back as it was (`teardown_returns_blocks`).
-/

namespace KernelNES.Memory
open KernelNES.Lib

/-! ### The function -/

section
variable {H : Type}

/-- `kfree`. -/
def kfreeWords (alloc : Allocator H) (ptr : U32) : Exec Fault (PagingState H) Unit := fun s =>
  .ok ((), { s with heap := alloc.kfree ptr s.heap })

/-- The loop of `paging_free_4gb`: `n` tables are left, from table `i` on. -/
def pagingFreeTables (alloc : Allocator H) (chunk : U32) :
    (n i : Nat) → Exec Fault (PagingState H) Unit
  | 0, _ => pure ()
  | n + 1, i => do
    let directory ← loadWord chunk 0
    let entry ← loadWord directory (BitVec.ofNat 32 i)
    let table := entry &&& 0xfffff000
    kfreeWords alloc table
    pagingFreeTables alloc chunk n (i + 1)

/-- `paging_free_4gb`. -/
def pagingFree4gb (alloc : Allocator H) (chunk : U32) : Exec Fault (PagingState H) Unit := do
  pagingFreeTables alloc chunk 1024 0
  let directory ← loadWord chunk 0
  kfreeWords alloc directory
  kfreeWords alloc chunk

/-! ### The pointers freed -/

/-- `kfree` of each, in order. -/
def kfreeAll (alloc : Allocator H) (ptrs : List U32) (heap : H) : H :=
  ptrs.foldl (fun heap ptr => alloc.kfree ptr heap) heap

theorem kfreeAll_append (alloc : Allocator H) (ps qs : List U32) (heap : H) :
    kfreeAll alloc (ps ++ qs) heap = kfreeAll alloc qs (kfreeAll alloc ps heap) :=
  List.foldl_append ..

variable {alloc : Allocator H} {s : PagingState H} {chunk directory : U32} {table : Nat → U32}

theorem pagingFreeTables_eq (h : PageTables s.words chunk directory table) (n i : Nat)
    (hn : i + n ≤ 1024) :
    pagingFreeTables alloc chunk n i s =
      .ok ((), { s with heap := kfreeAll alloc ((List.range' i n).map table) s.heap }) := by
  induction n generalizing i s with
  | zero => rfl
  | succ n ih =>
    have hentry : s.words (slot directory (BitVec.ofNat 32 i)) &&& 0xfffff000 = table i :=
      h.entries i (by omega)
    have hload : loadWord chunk 0 s = .ok (directory, s) := h.getDirectory
    have hrest := ih (s := { s with heap := alloc.kfree (table i) s.heap }) h (i + 1) (by omega)
    rw [pagingFreeTables, Exec.bind_ok hload, Exec.bind_ok (loadWord_ok h.root.1 _ s), hentry]
    exact (Exec.bind_ok rfl).trans hrest

/-- The tables of the directory are freed, then the directory and the chunk. -/
theorem pagingFree4gb_eq (h : PageTables s.words chunk directory table) :
    pagingFree4gb alloc chunk s = .ok ((), { s with
      heap := kfreeAll alloc ((List.range' 0 1024).map table ++ [directory, chunk]) s.heap }) := by
  have htables : pagingFreeTables alloc chunk 1024 0 s = _ := pagingFreeTables_eq h 1024 0 le_rfl
  generalize (List.range' 0 1024).map table = ptrs at htables ⊢
  have hload : loadWord chunk 0 { s with heap := kfreeAll alloc ptrs s.heap } =
      .ok (directory, _) := PageTables.getDirectory h
  rw [pagingFree4gb, Exec.bind_ok htables, Exec.bind_ok hload, kfreeAll_append]
  rfl

end

/-! ### Blocks taken and freed one by one -/

/-- The entries of the blocks `bs` set to one value. -/
def Heap.setEntries (heap : Heap) (bs : List Nat) (e : HeapBlockTableEntry) : Heap :=
  bs.foldl (fun heap (b : Nat) => heap.setEntry b e) heap

section
variable {heap heap' : Heap} {bs : List Nat}

theorem Heap.setEntries_entries (heap : Heap) (bs : List Nat) (e : HeapBlockTableEntry) (k : Int) :
    (heap.setEntries bs e).table.entries k =
      if ∃ b ∈ bs, k = (b : Int) then e else heap.table.entries k := by
  induction bs generalizing heap with
  | nil => simp [setEntries]
  | cons b bs ih =>
    rw [setEntries, List.foldl_cons]
    refine (ih (heap.setEntry b e)).trans ?_
    rw [Heap.setEntry_entries]
    by_cases hlater : ∃ b ∈ bs, k = (b : Int)
    · obtain ⟨b', hb', hk⟩ := hlater
      rw [if_pos ⟨b', hb', hk⟩, if_pos ⟨b', List.mem_cons_of_mem _ hb', hk⟩]
    · rw [if_neg hlater]
      simp only [List.mem_cons, exists_eq_or_imp, hlater, or_false]

@[simp] theorem Heap.setEntries_total (heap : Heap) (bs : List Nat) (e : HeapBlockTableEntry) :
    (heap.setEntries bs e).table.total = heap.table.total := by
  induction bs generalizing heap with
  | nil => rfl
  | cons b bs ih => exact ih (heap.setEntry b e)

theorem Heap.setEntries_writes (heap : Heap) (bs : List Nat) (e : HeapBlockTableEntry) :
    (heap.setEntries bs e).writes = (bs.map Int.ofNat).reverse ++ heap.writes := by
  induction bs generalizing heap with
  | nil => rfl
  | cons b bs ih =>
    refine (ih (heap.setEntry b e)).trans ?_
    rw [Heap.setEntry_writes, List.map_cons, List.reverse_cons, List.append_assoc]
    rfl

/-- What taking blocks one by one makes of the table. -/
structure TookEach (heap heap' : Heap) (bs : List Nat) : Prop where
  saddr : heap'.saddr = heap.saddr
  total : heap'.table.total = heap.table.total
  nodup : bs.Nodup
  free : ∀ b ∈ bs, b ∈ heap.freeBlocks
  entries : ∀ k : Int, heap'.table.entries k =
    if ∃ b ∈ bs, k = (b : Int) then runCode 1 0 else heap.table.entries k

theorem tookEach_of_run (h : Run TakesOne heap bs heap') : TookEach heap heap' bs := by
  induction h with
  | nil => exact ⟨rfl, rfl, .nil, nofun, fun k => by simp⟩
  | @snoc heap₁ heap₂ bs b _ hstep ih =>
    obtain ⟨hfree, rfl⟩ := hstep
    obtain ⟨hlt, hfree⟩ := Finset.mem_filter.mp hfree
    -- a block taken before is not free
    have hfresh : b ∉ bs := fun hb => by
      rw [ih.entries, if_pos ⟨b, hb, rfl⟩] at hfree
      exact runCode_not_free 1 0 hfree
    have hnone : ¬ ∃ b' ∈ bs, (b : Int) = (b' : Int) := by
      rintro ⟨b', hb', hk⟩
      obtain rfl : b = b' := by omega
      exact hfresh hb'
    refine ⟨ih.saddr, ih.total, ?_, fun b' hb' => ?_, fun k => ?_⟩
    · rw [List.nodup_append]
      refine ⟨ih.nodup, List.nodup_singleton b, fun b' hb' c hc => ?_⟩
      rw [List.mem_singleton.mp hc]
      exact fun he => hfresh (he ▸ hb')
    · rcases List.mem_append.mp hb' with hb' | hb'
      · exact ih.free b' hb'
      · rw [List.mem_singleton.mp hb']
        rw [ih.entries, if_neg hnone] at hfree
        rw [ih.total] at hlt
        exact Finset.mem_filter.mpr ⟨hlt, hfree⟩
    · rw [Heap.setEntry_entries, ih.entries]
      simp only [List.mem_append, List.mem_singleton, or_and_right, exists_or, exists_eq_left]
      by_cases hk : k = (b : Int)
      · rw [if_pos hk, if_pos (.inr hk)]
      · rw [if_neg hk]
        simp only [hk, or_false]

/-- Freeing a block that was taken by itself writes its entry. -/
theorem heapFree_one {b : Nat} (ht : heap.table.total.toNat ≤ 2 ^ 19)
    (hb : b < heap.table.total.toNat) (hcode : heap.table.entries b = runCode 1 0) :
    heapFree heap (heapBlockToAddress heap b) = heap.setEntry b heapBlockTableEntryFree := by
  have hoffset := heapBlockToAddress_offset heap (b := b) (by omega)
  have htotal : heap.table.total.toInt = heap.table.total.toNat :=
    BitVec.toInt_eq_toNat_of_lt (by omega)
  obtain ⟨n, hn⟩ : ∃ n, (heap.table.total.toInt - (b : Int)).toNat = n + 1 :=
    ⟨_, (Nat.succ_pred (by omega)).symm⟩
  rw [heapFree, heapAddressToBlock_eq hoffset (by omega), heapMarkBlocksFree, hn,
    heapMarkBlocksFreeLoop, if_pos (by rw [hcode]; decide)]

/-- Freeing the blocks clears their entries. -/
theorem kfreeAll_setEntries (hnodup : bs.Nodup) (ht : heap.table.total.toNat ≤ 2 ^ 19)
    (hb : ∀ b ∈ bs, b < heap.table.total.toNat ∧ heap.table.entries b = runCode 1 0) :
    kfreeAll .kheap (bs.map fun b : Nat => heapBlockToAddress heap b) heap =
      heap.setEntries bs heapBlockTableEntryFree := by
  induction bs generalizing heap with
  | nil => rfl
  | cons b bs ih =>
    obtain ⟨hfresh, hnodup⟩ := List.nodup_cons.mp hnodup
    obtain ⟨hlt, hcode⟩ := hb b List.mem_cons_self
    have hrest := @ih (heap.setEntry b heapBlockTableEntryFree) hnodup ht fun b' hb' => by
      obtain ⟨hlt', hcode'⟩ := hb b' (List.mem_cons_of_mem _ hb')
      have hne : b' ≠ b := fun he => hfresh (he ▸ hb')
      exact ⟨hlt', by rw [Heap.setEntry_entries, if_neg (by omega), hcode']⟩
    rw [List.map_cons, kfreeAll, List.foldl_cons,
      show Allocator.kheap.kfree (heapBlockToAddress heap b) heap = _ from
        heapFree_one ht hlt hcode]
    exact hrest

/-- Blocks that are taken one by one from a well-formed table and then freed, in any order, are back
as they were. -/
theorem TookEach.restored (h : TookEach heap heap' bs) (hwf : WellFormed heap.table)
    {bs' : List Nat} (hperm : bs'.Perm bs) :
    (heap'.setEntries bs' heapBlockTableEntryFree).table = heap.table := by
  refine HeapTable.ext' ((Heap.setEntries_total ..).trans h.total) fun k => ?_
  rw [Heap.setEntries_entries, h.entries]
  by_cases hk : ∃ b ∈ bs, k = (b : Int)
  · obtain ⟨b, hb, rfl⟩ := hk
    rw [if_pos ⟨b, hperm.mem_iff.mpr hb, rfl⟩]
    obtain ⟨hlt, hfree⟩ := Finset.mem_filter.mp (h.free b hb)
    rcases hwf b (Finset.mem_range.mp hlt) with hentry | ⟨b', n, h₁, h₂, -, hcoded⟩
    · exact hentry.symm
    · exact absurd hfree (hcoded.not_free h₁ h₂)
  · rw [if_neg hk, if_neg]
    rintro ⟨b, hb, hkb⟩
    exact hk ⟨b, hperm.mem_iff.mp hb, hkb⟩

end

/-! ### An address space and its end -/

/-- The kernel heap is where and as large as `kheap_init` makes it. -/
structure HeapInPlace (heap : Heap) : Prop where
  saddr : heap.saddr = 0x01000000
  total : heap.table.total = 25600

theorem HeapInPlace.paged {heap : Heap} (h : HeapInPlace heap) : PagedHeap heap := by
  refine ⟨?_, ?_, ?_⟩
  · rw [h.saddr]; decide
  · rw [h.saddr]; decide
  · rw [h.saddr, h.total]; decide

theorem HeapInPlace.address_toNat {heap : Heap} (h : HeapInPlace heap) {b : Nat}
    (hb : b < heap.table.total.toNat) :
    (heapBlockToAddress heap b).toNat = 0x01000000 + 4096 * b ∧ b < 25600 := by
  have haddr := h.paged.address hb
  rw [h.saddr] at haddr
  rw [h.total] at hb
  exact ⟨haddr, hb⟩

/-- No block of it is at an address that would be taken for an error. -/
theorem HeapInPlace.address_pos {heap : Heap} (h : HeapInPlace heap) {b : Nat}
    (hb : b < heap.table.total.toNat) : 0 < (heapBlockToAddress heap b).toInt := by
  obtain ⟨haddr, hlt⟩ := h.address_toNat hb
  rw [BitVec.toInt_eq_toNat_of_lt (by omega)]
  omega

/-- The kernel heap, where and as large as `kheap_init` makes it, with a well-formed table. -/
structure KernelHeap (heap : Heap) : Prop where
  saddr : heap.saddr = 0x01000000
  total : heap.table.total = 25600
  wellFormed : WellFormed heap.table

theorem KernelHeap.inPlace {heap : Heap} (h : KernelHeap heap) : HeapInPlace heap :=
  ⟨h.saddr, h.total⟩

theorem KernelHeap.paged {heap : Heap} (h : KernelHeap heap) : PagedHeap heap := h.inPlace.paged

theorem kernelHeap_kernelHeap : KernelHeap kernelHeap := ⟨rfl, rfl, fun _ _ => .inl rfl⟩

theorem KernelHeap.takesOne {heap heap' : Heap} {b : Nat} (h : KernelHeap heap)
    (htake : TakesOne heap b heap') : KernelHeap heap' := by
  obtain ⟨hb, rfl⟩ := htake
  obtain ⟨hlt, hfree⟩ := Finset.mem_filter.mp hb
  refine ⟨h.saddr, h.total, fun i hi => ?_⟩
  rw [Heap.setEntry_entries]
  by_cases hib : (i : Int) = b
  · obtain rfl : i = b := by omega
    refine .inr ⟨i, 1, le_rfl, Nat.lt_succ_self i, hi, fun j hj => ?_⟩
    obtain rfl : j = 0 := by omega
    exact if_pos rfl
  · rw [if_neg hib]
    refine (h.wellFormed i hi).imp_right fun ⟨b', n, h₁, h₂, h₃, hcoded⟩ => ?_
    -- a run that was taken does not reach a free block
    refine ⟨b', n, h₁, h₂, h₃, fun j hj => ?_⟩
    have hne : b' + j ≠ b := fun he =>
      hcoded.not_free (i := b) (by omega) (by omega) hfree
    rw [Heap.setEntry_entries, if_neg (by omega)]
    exact hcoded j hj

/-- Taking blocks one by one leaves the heap well-formed, with that many free blocks less. -/
theorem KernelHeap.takes {heap heap' : Heap} {bs : List Nat} (h : KernelHeap heap)
    (hrun : Run TakesOne heap bs heap') :
    KernelHeap heap' ∧ heap'.freeBlocks.card + bs.length = heap.freeBlocks.card := by
  induction hrun with
  | nil => exact ⟨h, rfl⟩
  | snoc _ htake ih =>
    obtain ⟨hkernel, hleft⟩ := ih
    refine ⟨hkernel.takesOne htake, ?_⟩
    obtain ⟨hb, rfl⟩ := htake
    rw [freeBlocks_setEntry, List.length_append, List.length_singleton]
    have := Finset.card_erase_add_one hb
    omega

/-- **Teardown returns every block.**  An address space is made, any `paging_set`, `paging_map` and
`paging_map_to` calls follow on its directory, and it is freed: the block table is then what it was
before.  The 1026 entries written by `paging_free_4gb` are all different, and each is that of a
block that was free before the address space was made. -/
theorem teardown_returns_blocks (flags : U8) {s : PagingState Heap} (hkernel : KernelHeap s.heap)
    (hfree : 1026 ≤ s.heap.freeBlocks.card) :
    ∃ chunk s₀, pagingNew4gb .kheap flags s = .ok (chunk, s₀) ∧
      ∀ ops s₁, Run (PagingOpStep chunk) s₀ ops s₁ →
        ∃ s₂ freed, pagingFree4gb .kheap chunk s₁ = .ok ((), s₂) ∧
          s₂.heap.table = s.heap.table ∧ s₂.heap.writes = freed ++ s₁.heap.writes ∧
          freed.length = 1026 ∧ freed.Nodup ∧
          ∀ i ∈ freed, ∃ b ∈ s.heap.freeBlocks, i = Int.ofNat b := by
  obtain ⟨chunk, s₀, directory, table, d, ts, c, hnew, ⟨htables, -⟩, hblocks, hspace⟩ :=
    pagingNew4gb_blocks flags hkernel.paged hfree
  have htook := tookEach_of_run hblocks
  refine ⟨chunk, s₀, hnew, fun ops s₁ hrun => ?_⟩
  obtain ⟨htables₁, hheap₁⟩ := pagingOps_keep htables hrun
  -- the blocks in the order in which they are freed
  have hperm : (ts ++ [d, c]).Perm (d :: (ts ++ [c])) := List.perm_middle
  have hptrs : (List.range' 0 1024).map table ++ [directory, chunk] =
      (ts ++ [d, c]).map fun b : Nat => heapBlockToAddress s₁.heap b := by
    rw [List.map_append, hspace.tables, hspace.directory, hspace.chunk, hheap₁]
    simp only [heapBlockToAddress, htook.saddr, List.map_cons, List.map_nil]
  have hlength := hspace.tables_length
  have htotal : s₁.heap.table.total.toNat = 25600 := by
    rw [hheap₁, htook.total, hkernel.total]
    rfl
  have hfreed : kfreeAll .kheap ((List.range' 0 1024).map table ++ [directory, chunk]) s₁.heap =
      s₁.heap.setEntries (ts ++ [d, c]) heapBlockTableEntryFree := by
    rw [hptrs]
    refine kfreeAll_setEntries (hperm.nodup_iff.mpr htook.nodup) (by omega) fun b hb => ?_
    have hb := hperm.mem_iff.mp hb
    have hlt := Heap.freeBlocks_lt (htook.free b hb)
    rw [hkernel.total] at hlt
    refine ⟨by rw [htotal]; exact hlt, ?_⟩
    rw [hheap₁, htook.entries, if_pos ⟨b, hb, rfl⟩]
  refine ⟨_, ((ts ++ [d, c]).map Int.ofNat).reverse, pagingFree4gb_eq htables₁, ?_, ?_, ?_, ?_, ?_⟩
  · rw [hfreed, hheap₁]
    exact htook.restored hkernel.wellFormed hperm
  · rw [hfreed]
    exact Heap.setEntries_writes ..
  · simp [hlength]
  · rw [List.nodup_reverse]
    exact (hperm.nodup_iff.mpr htook.nodup).map fun _ _ h => Int.ofNat.inj h
  · intro i hi
    obtain ⟨b, hb, rfl⟩ := List.mem_map.mp (List.mem_reverse.mp hi)
    exact ⟨b, htook.free b (hperm.mem_iff.mp hb), rfl⟩

/-- The first address space after boot, with a page of it set. -/
theorem teardown_returns_blocks_first :
    ∃ chunk s₀ s₁ s₂, pagingNew4gb .kheap 7 ⟨kernelHeap, fun _ => 0⟩ = .ok (chunk, s₀) ∧
      (PagingOp.call (.set 0x400000 0x1000007)).run chunk s₀ = .ok (0, s₁) ∧
      pagingFree4gb .kheap chunk s₁ = .ok ((), s₂) ∧ s₂.heap.table = kernelHeap.table := by
  obtain ⟨chunk, s₀, hnew, hfreed⟩ := teardown_returns_blocks 7
    (s := ⟨kernelHeap, fun _ => 0⟩) kernelHeap_kernelHeap kernelHeap_room
  obtain ⟨chunk', s₀', _, _, hnew', htables, -⟩ := pagingNew4gb_spec 7
    (s := ⟨kernelHeap, fun _ => 0⟩) kernelHeap_paged kernelHeap_room
  cases hnew.symm.trans hnew'
  have haligned : (PagingCall.set 0x400000 0x1000007).Aligned := rfl
  have hset : (PagingOp.call (.set 0x400000 0x1000007)).run chunk s₀ = .ok (0, _) :=
    PagingCall.run_aligned htables haligned
  obtain ⟨s₂, -, hteardown, htable, -⟩ := hfreed _ _ (.one ⟨0, hset⟩)
  exact ⟨chunk, s₀, _, s₂, hnew, hset, hteardown, htable⟩

end KernelNES.Memory
