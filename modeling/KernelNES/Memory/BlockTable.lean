import KernelNES.Lib.Guarded
import KernelNES.Memory.HeapRuns
import KernelNES.Memory.Kheap

/-!
# Memory — BlockTable

Well-formed block tables, and what the calls of the heap make of a block that nobody frees.  In a
well-formed table every entry is free or in a run that was taken as a whole (`WellFormed`).  A block
taken by itself from such a table stays taken as long as it is not freed itself: the runs that are
freed end before it (`Pinned`).

`heap_malloc` does this only when it finds a run of free blocks, so the kernel heap is paired with a
note of whether it did for every request so far (`Allocator.kheapWatched`).
-/

namespace KernelNES.Memory
open KernelNES.Lib

theorem HeapTable.ext' {table table' : HeapTable} (htotal : table.total = table'.total)
    (hentries : ∀ k, table.entries k = table'.entries k) : table = table' := by
  cases table
  cases table'
  simp only [HeapTable.mk.injEq]
  exact ⟨funext hentries, htotal⟩

/-- Every entry is free, or in an allocated run. -/
def WellFormed (table : HeapTable) : Prop :=
  ∀ i < table.total.toNat, table.entries i = heapBlockTableEntryFree ∨
    ∃ b n, b ≤ i ∧ i < b + n ∧ b + n ≤ table.total.toNat ∧ Coded table b n

/-- In front of a free block no run goes on. -/
theorem WellFormed.ends {table : HeapTable} (h : WellFormed table) {r : Nat}
    (hr : r + 1 < table.total.toNat) (hfree : EntryFree (table.entries (r + 1 : Nat))) :
    table.entries r &&& heapBlockHasNext = 0 := by
  rcases h r (by omega) with hr | ⟨b, n, hb, hn, -, hc⟩
  · rw [hr]; decide
  · -- the run of block `r` is over at `r + 1`
    have hlast : b + n = r + 1 := by
      by_contra hne
      exact hc.not_free (i := r + 1) (by omega) (by omega) hfree
    have hcode := hc (r - b) (by omega)
    rw [Nat.add_sub_cancel' hb] at hcode
    rw [hcode]
    exact (runCode_hasNext n (r - b)).mpr (by omega)

/-! ### A request -/

/-- There is a run of free blocks for a request. -/
def FindsRun (heap : Heap) (size : U32) : Prop :=
  ∃ b ≤ heap.table.total.toNat, FreeRun heap.table b (blocksFor size).toNat

instance (heap : Heap) (size : U32) : Decidable (FindsRun heap size) :=
  decidable_of_iff
    (∃ b < heap.table.total.toNat + 1, FreeRun heap.table b (blocksFor size).toNat) <| by
    simp only [Nat.lt_succ_iff, FindsRun]

/-- The blocks of a size are fewer than 2²⁰. -/
theorem blocksFor_lt_of_any (size : U32) : (blocksFor size).toNat < 2 ^ 20 := by
  rw [blocksFor, BitVec.toNat_udiv]
  have := (heapAlignValueToUpper size).isLt
  show _ / 4096 < _
  omega

/-- The lowest run of free blocks is taken. -/
theorem heapMalloc_lowest {heap : Heap} {size : U32}
    (ht : heap.table.total.toNat < 2 ^ 31) (hn : blocksFor size ≠ 0) (h : FindsRun heap size) :
    ∃ b, FreeRun heap.table b (blocksFor size).toNat ∧
      (∀ b' < b, ¬ FreeRun heap.table b' (blocksFor size).toNat) ∧
      heapMalloc heap size =
        (heapBlockToAddress heap b, heapMarkBlocksTaken heap b (blocksFor size).toNat) := by
  have hlt := blocksFor_lt_of_any size
  have hint : (blocksFor size).toInt = ((blocksFor size).toNat : Int) :=
    BitVec.toInt_eq_toNat_of_lt (by omega)
  have hpos : 0 < (blocksFor size).toNat :=
    Nat.pos_of_ne_zero fun h0 => hn (BitVec.eq_of_toNat_eq h0)
  obtain ⟨b, -, hrun⟩ := h
  obtain ⟨r, hr, hstart⟩ := heapGetStartBlock_spec heap (blocksFor size) hpos ht
  have hm : heapMalloc heap size = heapMallocBlocks heap (blocksFor size) := rfl
  rw [hm, heapMallocBlocks, hstart, hint]
  cases hr with
  | found b hrun hmin =>
    refine ⟨b, hrun, hmin, ?_⟩
    rw [if_neg (by omega), if_neg (by omega)]
  | full hnone => exact absurd hrun (hnone b)
  | tail _ hnone => exact absurd hrun (hnone b)

/-- A request that finds a run reserves it. -/
theorem heapMalloc_of_findsRun {heap : Heap} {size : U32}
    (ht : heap.table.total.toNat < 2 ^ 31) (hn : blocksFor size ≠ 0) (h : FindsRun heap size) :
    ∃ b, FreeRun heap.table b (blocksFor size).toNat ∧
      heapMalloc heap size =
        (heapBlockToAddress heap b, heapMarkBlocksTaken heap b (blocksFor size).toNat) := by
  obtain ⟨b, hrun, -, hmalloc⟩ := heapMalloc_lowest ht hn h
  exact ⟨b, hrun, hmalloc⟩

/-- The search gives a free block, whatever the length asked for. -/
theorem heapGetStartBlockLoop_free (table : HeapTable) (totalBlocks : U32) (m i : Nat) (bc bs : Int)
    (hbs : bs = -1 ∨ ∃ b : Nat, bs = b ∧ b < i + m ∧ EntryFree (table.entries b)) :
    heapGetStartBlockLoop table totalBlocks m i bc bs = -1 ∨
      ∃ b : Nat, heapGetStartBlockLoop table totalBlocks m i bc bs = b ∧ b < i + m ∧
        EntryFree (table.entries b) := by
  induction m generalizing i bc bs with
  | zero => exact hbs
  | succ m ih =>
    rw [heapGetStartBlockLoop]
    have hle : i + 1 + m = i + (m + 1) := by omega
    by_cases hfree : heapGetEntryType (table.entries i) = heapBlockTableEntryFree
    · have hbs' : ∃ b : Nat, (if bs = -1 then (i : Int) else bs) = b ∧ b < i + (m + 1) ∧
          EntryFree (table.entries b) := by
        rcases hbs with rfl | ⟨b, rfl, hb⟩
        · exact ⟨i, if_pos rfl, by omega, hfree⟩
        · exact ⟨b, if_neg (by omega), hb⟩
      rw [if_neg (not_not.mpr hfree)]
      dsimp only
      split
      · exact .inr hbs'
      · exact hle ▸ ih (i + 1) _ _ (.inr (hle ▸ hbs'))
    · rw [if_pos hfree]
      exact hle ▸ ih (i + 1) 0 (-1) (.inl rfl)

/-- A request fails, or is answered with a block that was free; the entries written are those from
that block on. -/
theorem heapMalloc_block (heap : Heap) (size : U32) :
    heapMalloc heap size = (0, heap) ∨
      ∃ b, b < heap.table.total.toNat ∧ EntryFree (heap.table.entries b) ∧
        heapMalloc heap size =
          (heapBlockToAddress heap b, heapMarkBlocksTaken heap b (blocksFor size).toNat) := by
  have hm : heapMalloc heap size = heapMallocBlocks heap (blocksFor size) := rfl
  have hn : (blocksFor size).toInt = (blocksFor size).toNat :=
    BitVec.toInt_eq_toNat_of_lt (by have := blocksFor_lt size; omega)
  rw [hm, heapMallocBlocks, heapGetStartBlock]
  rcases heapGetStartBlockLoop_free heap.table (blocksFor size) heap.table.total.toNat 0 0 (-1)
    (.inl rfl) with h | ⟨b, h, hb, hfree⟩
  · rw [h]
    exact .inl rfl
  · refine .inr ⟨b, by omega, hfree, ?_⟩
    rw [h, if_neg (by omega), if_neg (by omega), hn]

theorem heapMarkBlocksTaken_zero (heap : Heap) (b : Nat) :
    heapMarkBlocksTaken heap b (0 : Nat) = heap := by
  rw [heapMarkBlocksTaken, show ((b : Int) + (0 : Nat) - 1 + 1 - b).toNat = 0 by omega]
  rfl

/-- A request for no blocks takes none: it fails, or returns a block that stays free. -/
theorem heapMalloc_zero (heap : Heap) {size : U32} (hn : blocksFor size = 0) :
    heapMalloc heap size = (0, heap) ∨
      ∃ b, b < heap.table.total.toNat ∧ EntryFree (heap.table.entries b) ∧
        heapMalloc heap size = (heapBlockToAddress heap b, heap) := by
  rcases heapMalloc_block heap size with h | ⟨b, hb, hfree, h⟩
  · exact .inl h
  · rw [hn] at h
    exact .inr ⟨b, hb, hfree, h.trans (congrArg _ (heapMarkBlocksTaken_zero heap b))⟩

/-- A block that is taken stays so. -/
theorem heapMarkBlocksTaken_taken (heap : Heap) (b n : Nat) {k : Int}
    (hk : ¬ EntryFree (heap.table.entries k)) :
    ¬ EntryFree ((heapMarkBlocksTaken heap b n).table.entries k) := by
  rcases Nat.eq_zero_or_pos n with rfl | hn
  · rwa [heapMarkBlocksTaken_zero]
  · rw [(heapMarkBlocksTaken_wrote heap b hn).entries]
    split
    · exact runCode_not_free _ _
    · exact hk

/-- Reserving frees nothing. -/
theorem heapMalloc_taken (heap : Heap) (size : U32) {k : Int}
    (hk : ¬ EntryFree (heap.table.entries k)) :
    ¬ EntryFree ((heapMalloc heap size).2.table.entries k) := by
  rcases heapMalloc_block heap size with h | ⟨b, -, -, h⟩
  · rwa [h]
  · rw [h]
    exact heapMarkBlocksTaken_taken heap b _ hk

/-! ### A block that nobody frees -/

/-- Block `r` of the heap at `saddr` was taken by itself, and no run goes on into it. -/
structure Pinned (saddr : U32) (r : Nat) (heap : Heap) : Prop where
  saddr : heap.saddr = saddr
  total : heap.table.total.toNat ≤ 2 ^ 19
  taken : heap.table.entries r = runCode 1 0
  ends : ∀ i : Nat, i + 1 = r → heap.table.entries i &&& heapBlockHasNext = 0

/-- The address of a block below 2 GiB that is not block `r`. -/
def OtherBlock (saddr : U32) (r : Nat) (ptr : U32) : Prop :=
  ∃ b : Nat, b ≠ r ∧ b < 2 ^ 19 ∧ (ptr - saddr).toNat = 4096 * b

variable {saddr : U32} {r : Nat} {heap : Heap}

/-- A pinned entry is not free. -/
theorem Pinned.not_free (h : Pinned saddr r heap) : ¬ EntryFree (heap.table.entries r) := by
  rw [h.taken]
  exact runCode_not_free 1 0

/-- The address of a free block is not that of `r`. -/
theorem Pinned.otherBlock (h : Pinned saddr r heap) {b : Nat} (hb : b < heap.table.total.toNat)
    (hfree : EntryFree (heap.table.entries b)) :
    OtherBlock saddr r (heapBlockToAddress heap b) := by
  have ht := h.total
  refine ⟨b, fun e => h.not_free (e ▸ hfree), by omega, ?_⟩
  rw [← h.saddr]
  exact heapBlockToAddress_offset heap (by omega)

/-- Taking a run of free blocks. -/
theorem Pinned.take (h : Pinned saddr r heap) {b n : Nat} (hn : 0 < n)
    (hrun : FreeRun heap.table b n) : Pinned saddr r (heapMarkBlocksTaken heap b n) := by
  have hw := heapMarkBlocksTaken_wrote heap b hn
  have hr := hrun.not_of_taken h.not_free
  refine ⟨hw.saddr.trans h.saddr, hw.total ▸ h.total, ?_, fun i hi => ?_⟩
  · rw [hw.entries, if_neg (by omega), h.taken]
  · rw [hw.entries]
    split
    · -- the last block of the new run
      exact (runCode_hasNext n _).mpr (by omega)
    · exact h.ends i hi

/-- The loop of `heap_mark_blocks_free` does not go on into block `r`. -/
theorem Pinned.freeLoop (n i : Nat) (h : Pinned saddr r heap) (hi : i ≠ r) :
    Pinned saddr r (heapMarkBlocksFreeLoop n i heap) := by
  induction n generalizing i heap with
  | zero => exact h
  | succ n ih =>
    have hset : Pinned saddr r (heap.setEntry i heapBlockTableEntryFree) := by
      refine ⟨h.saddr, h.total, ?_, fun j hj => ?_⟩
      · rw [Heap.setEntry_entries, if_neg (by omega), h.taken]
      · rw [Heap.setEntry_entries]
        split
        · decide
        · exact h.ends j hj
    unfold heapMarkBlocksFreeLoop
    dsimp only
    split
    · exact hset
    · rename_i hnext
      exact ih (i + 1) hset fun e => hnext (h.ends i e)

/-- Freeing another block. -/
theorem Pinned.release (h : Pinned saddr r heap) {ptr : U32} (hp : OtherBlock saddr r ptr) :
    Pinned saddr r (heapFree heap ptr) := by
  obtain ⟨b, hne, hb, hoffset⟩ := hp
  rw [← h.saddr] at hoffset
  rw [heapFree, heapAddressToBlock_eq hoffset (by omega), heapMarkBlocksFree]
  exact h.freeLoop _ _ hne

/-- A block taken by itself from a well-formed table is pinned. -/
theorem WellFormed.pins (hwf : WellFormed heap.table) (ht : heap.table.total.toNat ≤ 2 ^ 19)
    {b : Nat} (hrun : FreeRun heap.table b 1) :
    Pinned heap.saddr b (heapMarkBlocksTaken heap b (1 : Nat)) := by
  have hw := heapMarkBlocksTaken_wrote heap b Nat.one_pos
  refine ⟨hw.saddr, hw.total ▸ ht, ?_, fun i hi => ?_⟩
  · rw [hw.entries, if_pos (by omega), Int.sub_self]
    rfl
  · subst hi
    rw [hw.entries, if_neg (by omega)]
    exact hwf.ends (by have := hrun.1; omega) (hrun.2 _ le_rfl (by omega))

/-! ### The kernel heap, watched -/

/-- The kernel heap, with a note of whether it found a run of free blocks for every request. -/
def Allocator.kheapWatched : Allocator (Heap × Bool) where
  kzalloc size h :=
    let (ptr, heap) := heapMalloc h.1 size
    (ptr, heap, h.2 && FindsRun h.1 size)
  kfree ptr h := (heapFree h.1 ptr, h.2)

/-- What the code relies on in an allocator when `I` is to hold as long as `good` does: `kfree` is
given addresses of kind `G`, and those that `kzalloc` hands out are of that kind. -/
structure Allocator.Guards {H : Type} (alloc : Allocator H) (good I : H → Prop) (G : U32 → Prop) :
    Prop where
  kzalloc : ∀ size, Guarded (ε := Fault) good I True (alloc.callKzalloc size) fun ptr =>
    (ptr = 0 ∨ G ptr) ∧ (blocksFor size ≠ 0 → G ptr)
  kfree : ∀ ptr, Guarded (ε := Fault) good I (G ptr) (alloc.callKfree ptr) fun _ => True

/-- **A pinned block outlives every call.** -/
theorem kheapWatched_guards (saddr : U32) (r : Nat) :
    Allocator.kheapWatched.Guards (fun h => h.2 = true) (fun h => Pinned saddr r h.1)
      (OtherBlock saddr r) := by
  constructor
  · intro size s ptr s' h hgood
    cases h
    obtain ⟨hs, hfinds⟩ : s.2 = true ∧ FindsRun s.1 size := by
      simpa [Allocator.kheapWatched] using hgood
    refine ⟨hs, fun _ hI => ?_⟩
    have ht := hI.total
    show Pinned saddr r (heapMalloc s.1 size).2 ∧ ((heapMalloc s.1 size).1 = 0 ∨
      OtherBlock saddr r (heapMalloc s.1 size).1) ∧
      (blocksFor size ≠ 0 → OtherBlock saddr r (heapMalloc s.1 size).1)
    by_cases hn : blocksFor size = 0
    · rcases heapMalloc_zero s.1 hn with h | ⟨b, hb, hfree, h⟩ <;> rw [h]
      · exact ⟨hI, .inl rfl, fun hne => absurd hn hne⟩
      · have hother := hI.otherBlock hb hfree
        exact ⟨hI, .inr hother, fun _ => hother⟩
    · obtain ⟨b, hrun, h⟩ := heapMalloc_of_findsRun (by omega) hn hfinds
      have hpos : 0 < (blocksFor size).toNat :=
        Nat.pos_of_ne_zero fun h0 => hn (BitVec.eq_of_toNat_eq h0)
      have hother := hI.otherBlock (by have := hrun.1; omega) (hrun.2 b le_rfl (by omega))
      rw [h]
      exact ⟨hI.take hpos hrun, .inr hother, fun _ => hother⟩
  · intro ptr s a s' h hgood
    cases h
    exact ⟨hgood, fun hp hI => ⟨hI.release hp, trivial⟩⟩

end KernelNES.Memory
