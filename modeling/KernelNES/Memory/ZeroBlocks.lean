import KernelNES.Memory.BlockTable
import KernelNES.Memory.Ledger

/-!
# Memory — ZeroBlocks

Requests whose size rounds to no blocks: `0`, and the sizes from which rounding up wraps.  The
search then never stops, since it stops when it has counted as many blocks as asked for; it ends
with the start of the free tail of the table (`heapMalloc_zero_eq`).  That address is returned and
nothing is reserved, so a later request gets it as well (`zeroBlocks_safe_iff`).  What is reserved
at all is what a request for a block is answered with (`kheap_reserves_iff`).
-/

namespace KernelNES.Memory
open KernelNES.Lib

/-- The sizes that round to no blocks. -/
theorem blocksFor_eq_zero_iff {size : U32} :
    blocksFor size = 0 ↔ size = 0 ∨ 0xFFFFF000 < size.toNat := by
  by_cases hle : size.toNat ≤ 0xFFFFF000
  · have hn := blocksFor_toNat hle
    constructor
    · intro h
      rw [h] at hn
      exact .inl (BitVec.eq_of_toNat_eq (show size.toNat = 0 by simp at hn; omega))
    · rintro (rfl | h)
      · rfl
      · omega
  · refine iff_of_true ?_ (.inr (by omega))
    have hmod : (size % 4096).toNat = size.toNat % 4096 := by simp
    have hlt := size.isLt
    have hsub : size % 4096 ≤ size := by rw [BitVec.le_def, hmod]; exact Nat.mod_le _ _
    have hz : ¬ size % 4096 = 0 := fun h => by
      have := congrArg BitVec.toNat h
      rw [hmod] at this
      simp at this
      omega
    rw [blocksFor, heapAlignValueToUpper, if_neg hz]
    apply BitVec.eq_of_toNat_eq
    rw [BitVec.toNat_udiv, BitVec.toNat_add, BitVec.toNat_sub_of_le hsub, hmod]
    show (size.toNat - size.toNat % 4096 + 4096) % 2 ^ 32 / 4096 = 0
    omega

/-! ### The free tail -/

/-- The free entries at the end of the table start at block `b`. -/
structure FreeTail (table : HeapTable) (b : Nat) : Prop where
  lt : b < table.total.toNat
  free : ∀ k, b ≤ k → k < table.total.toNat → EntryFree (table.entries k)
  first : b ≠ 0 → ¬ EntryFree (table.entries ((b : Int) - 1))

/-- The last entry of the table is taken, or there is none. -/
def LastTaken (table : HeapTable) : Prop :=
  table.total.toNat = 0 ∨ ¬ EntryFree (table.entries ((table.total.toNat : Int) - 1))

theorem FreeTail.not_lastTaken {table : HeapTable} {b : Nat} (h : FreeTail table b) :
    ¬ LastTaken table := by
  have hlt := h.lt
  rintro (h0 | hlast)
  · omega
  · have e : ((table.total.toNat : Int) - 1) = ((table.total.toNat - 1 : Nat) : Int) := by omega
    rw [e] at hlast
    exact hlast (h.free _ (by omega) (by omega))

theorem FreeTail.unique {table : HeapTable} {b b' : Nat} (h : FreeTail table b)
    (h' : FreeTail table b') : b = b' := by
  by_contra hne
  wlog hlt : b < b' generalizing b b'
  · exact this h' h (Ne.symm hne) (by omega)
  · have e : ((b' : Int) - 1) = ((b' - 1 : Nat) : Int) := by omega
    have hfirst := h'.first (by omega)
    rw [e] at hfirst
    exact hfirst (h.free _ (by omega) (by have := h'.lt; omega))

/-- Asked for no blocks, the search goes on to the end of the table. -/
theorem heapGetStartBlockLoop_zero (table : HeapTable) (m i : Nat) (bc bs : Int)
    (hi : i + m = table.total.toNat) (h : ScanInv table (table.total.toNat + 1) i bc bs) :
    heapGetStartBlockLoop table 0 m i bc bs = -1 ∧ LastTaken table ∨
      ∃ b : Nat, heapGetStartBlockLoop table 0 m i bc bs = b ∧ FreeTail table b := by
  induction m generalizing i bc bs with
  | zero =>
    obtain rfl : i = table.total.toNat := by omega
    rcases h.tail with ⟨rfl, -, hlast⟩ | ⟨b, rfl, -, hb, -, hfree, hfirst⟩
    · exact .inl ⟨rfl, or_iff_not_imp_left.mpr hlast⟩
    · exact .inr ⟨b, rfl, hb, hfree, hfirst⟩
  | succ m ih =>
    have hlt : i < table.total.toNat := by omega
    rw [heapGetStartBlockLoop]
    by_cases hfree : EntryFree (table.entries i)
    · have hfree' : heapGetEntryType (table.entries i) = heapBlockTableEntryFree := hfree
      obtain ⟨b, hb, hbc, hbi, hrun, hfirst, -⟩ := h.free hlt hfree
      -- the count of free blocks is not `0`
      have hcount : BitVec.ofInt 32 ((i + 1 : Int) - b) ≠ 0 := by
        have e : (i + 1 : Int) - b = ((i + 1 - b : Nat) : Int) := by omega
        have ht := table.total.isLt
        rw [e, BitVec.ofInt_natCast]
        intro hz
        have := congrArg BitVec.toNat hz
        rw [BitVec.toNat_ofNat, Nat.mod_eq_of_lt (by omega)] at this
        simp at this
        omega
      simp only [hfree', ne_eq, not_true_eq_false, if_false, hb, hbc, if_neg hcount]
      exact ih (i + 1) _ _ (by omega) ⟨by omega, fun b' hb' => by omega, .inr ⟨b, rfl,
        by push_cast; rfl, by omega, by omega, fun k h₁ h₂ => hrun k h₁ (by omega), hfirst⟩⟩
    · have hfree' : heapGetEntryType (table.entries i) ≠ heapBlockTableEntryFree := hfree
      rw [if_pos hfree']
      exact ih (i + 1) 0 (-1) (by omega) (h.taken hlt hfree)

/-- A request for no blocks fails when the last block is taken, and returns the start of the free
tail when it is not; it takes nothing. -/
theorem heapMalloc_zero_eq (heap : Heap) {size : U32} (hn : blocksFor size = 0) :
    LastTaken heap.table ∧ heapMalloc heap size = (0, heap) ∨
      ∃ b : Nat, FreeTail heap.table b ∧
        heapMalloc heap size = (heapBlockToAddress heap b, heap) := by
  have hm : heapMalloc heap size = heapMallocBlocks heap 0 := by rw [← hn]; rfl
  have hstart : ScanInv heap.table (heap.table.total.toNat + 1) 0 0 (-1) :=
    ⟨Nat.zero_le _, fun b hb => by omega, .inl ⟨rfl, rfl, fun h => absurd rfl h⟩⟩
  rw [hm, heapMallocBlocks, heapGetStartBlock]
  rcases heapGetStartBlockLoop_zero heap.table heap.table.total.toNat 0 0 (-1) (by omega) hstart
    with
    ⟨h, hlast⟩ | ⟨b, h, htail⟩
  · rw [h]
    exact .inl ⟨hlast, rfl⟩
  · refine .inr ⟨b, htail, ?_⟩
    rw [h, if_neg (by omega), if_neg (by omega), heapMarkBlocksTaken,
      show ((b : Int) + (0 : U32).toInt - 1 + 1 - b).toNat = 0 by simp]
    rfl

/-! ### What the caller gets -/

/-- A later call: `heap_malloc` of any size, or `heap_free` of a live pointer. -/
inductive CallStep : HeapState → HeapOp → HeapState → Prop where
  | mallocNull {st : HeapState} {size : U32} {heap' : Heap}
      (h : heapMalloc st.heap size = (0, heap')) :
      CallStep st (.malloc size) { st with heap := heap' }
  | malloc {st : HeapState} {size p : U32} {heap' : Heap}
      (h : heapMalloc st.heap size = (p, heap')) (hp : p ≠ 0) :
      CallStep st (.malloc size) { heap := heap', live := ⟨p, size⟩ :: st.live }
  | free {st : HeapState} {a : Allocation} (h : a ∈ st.live) :
      CallStep st (.free a.ptr) { heap := heapFree st.heap a.ptr, live := st.live.erase a }

/-- The request fails, or takes a free block. -/
def ReservesOrFails (heap : Heap) (size : U32) : Prop :=
  (heapMalloc heap size).1 = 0 ∨ ∃ i : Nat, i < heap.table.total.toNat ∧
    EntryFree (heap.table.entries i) ∧ ¬ EntryFree ((heapMalloc heap size).2.table.entries i)

/-- The blocks of the allocation are taken. -/
def Kept (heap : Heap) (a : Allocation) : Prop :=
  ∀ i : Nat, heap.offset a ≤ 4096 * i → 4096 * i < heap.offset a + a.bytes →
    ¬ EntryFree (heap.table.entries i)

/-- Whatever is called later, no other allocation has the address returned, and freeing it keeps the
blocks of the others. -/
def OwnsAddress (st : HeapState) (size : U32) : Prop :=
  (heapMalloc st.heap size).1 ≠ 0 → ∀ ops st',
    Run CallStep ⟨(heapMalloc st.heap size).2, st.live⟩ ops st' →
      ∀ a ∈ st'.live, a.ptr ≠ (heapMalloc st.heap size).1 ∧
        Kept (heapFree st'.heap (heapMalloc st.heap size).1) a

/-- One byte is given the lowest free block. -/
theorem heapMalloc_one {heap : Heap} (ht : heap.table.total.toNat < 2 ^ 31) {b : Nat}
    (hb : b < heap.table.total.toNat) (hfree : EntryFree (heap.table.entries b))
    (hbelow : ∀ i < b, ¬ EntryFree (heap.table.entries i)) :
    heapMalloc heap 1 = (heapBlockToAddress heap b, heapMarkBlocksTaken heap b (1 : Nat)) := by
  have hrun : FreeRun heap.table b 1 := ⟨by omega, fun i h₁ h₂ => by
    obtain rfl : i = b := by omega
    exact hfree⟩
  obtain ⟨b₀, hrun₀, hmin, hmalloc⟩ :=
    heapMalloc_lowest ht (show blocksFor 1 ≠ 0 by decide) ⟨b, by omega, hrun⟩
  have hge : b ≤ b₀ := by
    by_contra hlt
    exact hbelow b₀ (by omega) (hrun₀.2 b₀ le_rfl (by simp; decide))
  obtain rfl : b₀ = b := by
    by_contra hne
    exact hmin b (by omega) hrun
  exact hmalloc

/-- A free block is given away by enough requests for a byte, when all but `k` of the blocks below
it are taken. -/
theorem block_given_away {b : Nat} (k : Nat) (heap : Heap) (live : List Allocation)
    (ht : heap.table.total.toNat < 2 ^ 31) (hb : b < heap.table.total.toNat)
    (hfree : EntryFree (heap.table.entries b)) (hne : heapBlockToAddress heap b ≠ 0)
    (hbelow : ∀ i, i + k < b → ¬ EntryFree (heap.table.entries i)) :
    ∃ ops st', Run CallStep ⟨heap, live⟩ ops st' ∧
      ∃ a ∈ st'.live, a.ptr = heapBlockToAddress heap b := by
  induction k generalizing heap live with
  | zero =>
    exact ⟨_, _, .one (.malloc (heapMalloc_one ht hb hfree hbelow) hne), _, List.mem_cons_self, rfl⟩
  | succ k ih =>
    by_cases hc : k + 1 ≤ b ∧ EntryFree (heap.table.entries ((b - (k + 1) : Nat) : Int))
    · -- the next byte is given the free block below
      obtain ⟨hle, hfreec⟩ := hc
      have hw := heapMarkBlocksTaken_wrote heap (b - (k + 1)) Nat.one_pos
      have hmalloc := heapMalloc_one ht (by omega) hfreec fun i hi => hbelow i (by omega)
      have hrest := fun live => ih (heapMarkBlocksTaken heap (b - (k + 1) : Nat) (1 : Nat)) live
        (hw.total ▸ ht) (hw.total ▸ hb) (by rw [hw.entries, if_neg (by omega)]; exact hfree)
        (by rwa [heapBlockToAddress, hw.saddr]) fun i hi => by
          rw [hw.entries]
          split
          · exact runCode_not_free 1 _
          · exact hbelow i (by omega)
      rw [heapBlockToAddress, hw.saddr] at hrest
      by_cases hnull : heapBlockToAddress heap (b - (k + 1) : Nat) = 0
      · obtain ⟨ops, st', hrun, ha⟩ := hrest live
        exact ⟨_, st', .cons (.mallocNull (hnull ▸ hmalloc)) hrun, ha⟩
      · obtain ⟨ops, st', hrun, ha⟩ := hrest (⟨_, 1⟩ :: live)
        exact ⟨_, st', .cons (.malloc hmalloc hnull) hrun, ha⟩
    · refine ih heap live ht hb hfree hne fun i hi hfreei => ?_
      by_cases hi' : i + (k + 1) < b
      · exact hbelow i hi' hfreei
      · obtain rfl : i = b - (k + 1) := by omega
        exact hc ⟨by omega, hfreei⟩

/-- **A request for no blocks is safe exactly when there is no free tail, or it starts at address
`0`**, for either thing a caller relies on. -/
theorem zeroBlocks_safe_iff {st : HeapState} (ht : st.heap.table.total.toNat < 2 ^ 20) {size : U32}
    (hn : blocksFor size = 0) :
    (ReservesOrFails st.heap size ↔ LastTaken st.heap.table ∨
      ∃ b : Nat, FreeTail st.heap.table b ∧ heapBlockToAddress st.heap b = 0) ∧
    (OwnsAddress st size ↔ LastTaken st.heap.table ∨
      ∃ b : Nat, FreeTail st.heap.table b ∧ heapBlockToAddress st.heap b = 0) := by
  rcases heapMalloc_zero_eq st.heap hn with ⟨hlast, hmalloc⟩ | ⟨b, htail, hmalloc⟩
  · refine ⟨iff_of_true (.inl (by rw [hmalloc])) (.inl hlast), iff_of_true ?_ (.inl hlast)⟩
    rw [OwnsAddress, hmalloc]
    exact fun h => absurd rfl h
  · have hcond : (LastTaken st.heap.table ∨
        ∃ b : Nat, FreeTail st.heap.table b ∧ heapBlockToAddress st.heap b = 0) ↔
        heapBlockToAddress st.heap b = 0 := by
      constructor
      · rintro (hlast | ⟨b', htail', hnull⟩)
        · exact absurd hlast htail.not_lastTaken
        · rwa [htail.unique htail']
      · exact fun hnull => .inr ⟨b, htail, hnull⟩
    rw [hcond, ReservesOrFails, OwnsAddress, hmalloc]
    refine ⟨⟨?_, .inl⟩, ⟨fun howns => ?_, fun hnull hne => absurd hnull hne⟩⟩
    · rintro (hnull | ⟨i, -, hfree, htaken⟩)
      · exact hnull
      · exact absurd hfree htaken
    · by_contra hne
      obtain ⟨ops, st', hrun, a, ha, hshared⟩ := block_given_away b st.heap st.live (by omega)
        htail.lt (htail.free b le_rfl htail.lt) hne fun i hi => by omega
      exact (howns hne ops st' hrun a ha).1 hshared

/-! ### What the heap reserves -/

/-- `kzalloc` of `size` bytes reserved the block at `ptr`: it did not fail, and it was asked for a
block. -/
def Reserves (size ptr : U32) : Prop := ptr ≠ 0 ∧ blocksFor size ≠ 0

instance (size ptr : U32) : Decidable (Reserves size ptr) := inferInstanceAs (Decidable (_ ∧ _))

/-- The allocator with a record of the blocks it reserved, and of what it was given back. -/
def Allocator.reserving {H : Type} (alloc : Allocator H) : Allocator (H × List HeapCall) where
  kzalloc size h :=
    let (ptr, heap) := alloc.kzalloc size h.1
    (ptr, heap, if Reserves size ptr then h.2 ++ [.took ptr] else h.2)
  kfree ptr h := (alloc.kfree ptr h.1, h.2 ++ [.gave ptr])

/-- The block at `ptr` was reserved, and has not been given back. -/
def Held (log : List HeapCall) (ptr : U32) : Prop := .took ptr ∈ log ∧ .gave ptr ∉ log

/-- **What the kernel heap reserves is what it marks as taken**: the block at the address it returns
is taken afterwards exactly when it was asked for a block. -/
theorem kheap_reserves_iff {heap : Heap} (ht : heap.table.total.toNat ≤ 2 ^ 20) {size : U32}
    (hne : (heapMalloc heap size).1 ≠ 0) :
    Reserves size (heapMalloc heap size).1 ↔
      ∃ b : Nat, b < heap.table.total.toNat ∧
        (heapMalloc heap size).1 = heapBlockToAddress heap b ∧
        ¬ EntryFree ((heapMalloc heap size).2.table.entries b) := by
  rcases heapMalloc_block heap size with h | ⟨b, hb, hfree, h⟩
  · exact absurd (congrArg Prod.fst h) hne
  rw [h] at hne ⊢
  by_cases hn : blocksFor size = 0
  · -- nothing is marked, and the block stays free
    refine iff_of_false (fun hres => hres.2 hn) ?_
    rintro ⟨b', hb', haddr, htaken⟩
    obtain rfl : b = b' := by
      have haddr := congrArg (fun p => (p - heap.saddr).toNat) haddr
      simp only [heapBlockToAddress_offset heap (show b < 2 ^ 20 by omega),
        heapBlockToAddress_offset heap (show b' < 2 ^ 20 by omega)] at haddr
      omega
    rw [hn] at htaken
    exact htaken ((congrArg (fun h => EntryFree (h.table.entries b))
      (heapMarkBlocksTaken_zero heap b)).mpr hfree)
  · refine iff_of_true ⟨hne, hn⟩ ⟨b, hb, rfl, ?_⟩
    have hpos : 0 < (blocksFor size).toNat :=
      Nat.pos_of_ne_zero fun h0 => hn (BitVec.eq_of_toNat_eq h0)
    rw [(heapMarkBlocksTaken_wrote heap b hpos).entries, if_pos (by omega)]
    exact runCode_not_free _ _

/-! ### A heap of one block -/

/-- The only block of a heap is taken. -/
theorem zeroBlocks_safe_full :
    ReservesOrFails (heapMalloc oneBlockHeap 1).2 0 :=
  (@zeroBlocks_safe_iff ⟨(heapMalloc oneBlockHeap 1).2, [⟨0x1000, 1⟩]⟩ (by decide) 0
    (by decide)).1.mpr (.inl (.inr (by decide)))

/-- **An empty request, then a request for a byte**: both get the only block, and the release of the
first frees it. -/
theorem zeroBlocks_shared :
    heapMalloc oneBlockHeap 0 = (0x1000, oneBlockHeap) ∧
      (heapMalloc oneBlockHeap 1).1 = 0x1000 ∧
      EntryFree ((heapFree (heapMalloc oneBlockHeap 1).2 0x1000).table.entries 0) ∧
      ¬ ReservesOrFails oneBlockHeap 0 ∧ ¬ OwnsAddress ⟨oneBlockHeap, []⟩ 0 := by
  refine ⟨rfl, by decide, by decide, ?_, fun h => ?_⟩
  · rintro (hnull | ⟨i, hi, hfree, htaken⟩)
    · exact absurd hnull (by decide)
    · exact absurd hfree htaken
  · have hrun : Run CallStep ⟨oneBlockHeap, []⟩ [.malloc 1]
        ⟨(heapMalloc oneBlockHeap 1).2, [⟨0x1000, 1⟩]⟩ := .one (.malloc rfl (by decide))
    exact (h (by decide) _ _ hrun _ List.mem_cons_self).1 rfl

end KernelNES.Memory
