import KernelNES.Lib.Runs
import KernelNES.Memory.FirstFit

/-!
# Memory — HeapRuns

Histories of `heap_malloc` and `heap_free` on a heap made by `heap_create`.  A state is the heap
and the live allocations, each with the size it was asked for; a pointer may be freed only while it
is live.

The allocations stay apart (`NoOverlap`) as long as every step is `Safe`:

* a `heap_malloc` is unsafe when no free run is long enough and the last block of the table is
  free: `heap_get_start_block` then returns the start of the free tail, and
  `heap_mark_blocks_taken` writes past the table;
* a `heap_free` is unsafe when its pointer lies 2 GiB or more above `saddr`:
  `heap_address_to_block` casts the distance to `int` and gets a negative block.

An unsafe step leaves a write outside the table behind, so the histories without such a write are
exactly the safe ones (`noOverlap_iff_safe`).
-/

namespace KernelNES.Memory
open KernelNES.Lib

/-! ### Histories -/

/-- The number of blocks `heap_malloc(size)` asks for. -/
def blocksFor (size : U32) : U32 := heapAlignValueToUpper size / 4096

/-- An allocation: the pointer returned and the size asked for. -/
structure Allocation where
  ptr : U32
  size : U32
  deriving DecidableEq

/-- Distance in bytes from `saddr`, in the 32-bit address space. -/
def Heap.offset (heap : Heap) (a : Allocation) : Nat := (a.ptr - heap.saddr).toNat

/-- Bytes reserved for the allocation. -/
def Allocation.bytes (a : Allocation) : Nat := 4096 * (blocksFor a.size).toNat

/-- The heap, and the allocations not freed yet. -/
structure HeapState where
  heap : Heap
  live : List Allocation

/-- The calls of the heap. -/
inductive HeapOp where
  | malloc (size : U32)
  | free (ptr : U32)

/-- One call: `heap_malloc` of at least one byte that does not round past 2³², or `heap_free` of a
live pointer. -/
inductive HeapStep : HeapState → HeapOp → HeapState → Prop where
  | mallocNull {st : HeapState} {size : U32} {heap' : Heap} (h₁ : 1 ≤ size.toNat)
      (h₂ : size.toNat ≤ 0xFFFFF000) (h : heapMalloc st.heap size = (0, heap')) :
      HeapStep st (.malloc size) { st with heap := heap' }
  | malloc {st : HeapState} {size p : U32} {heap' : Heap} (h₁ : 1 ≤ size.toNat)
      (h₂ : size.toNat ≤ 0xFFFFF000) (h : heapMalloc st.heap size = (p, heap')) (hp : p ≠ 0) :
      HeapStep st (.malloc size) { heap := heap', live := ⟨p, size⟩ :: st.live }
  | free {st : HeapState} {a : Allocation} (h : a ∈ st.live) :
      HeapStep st (.free a.ptr) { heap := heapFree st.heap a.ptr, live := st.live.erase a }

/-- The byte ranges of two allocations do not meet. -/
def Heap.Apart (heap : Heap) (a a' : Allocation) : Prop :=
  heap.offset a + a.bytes ≤ heap.offset a' ∨ heap.offset a' + a'.bytes ≤ heap.offset a

/-- What the heap promises: every live allocation owns whole blocks that cover its size, lie in
`[saddr, saddr + total * 4096)` and are taken in the table; no two meet; and no table write had an
index outside `[0, total)`. -/
structure NoOverlap (st : HeapState) : Prop where
  aligned : ∀ a ∈ st.live, 4096 ∣ st.heap.offset a
  covers : ∀ a ∈ st.live, a.size.toNat ≤ a.bytes
  inside : ∀ a ∈ st.live, st.heap.offset a + a.bytes ≤ 4096 * st.heap.table.total.toNat
  taken : ∀ a ∈ st.live, ∀ i : Nat, st.heap.offset a ≤ 4096 * i →
    4096 * i < st.heap.offset a + a.bytes → ¬ EntryFree (st.heap.table.entries i)
  apart : st.live.Pairwise st.heap.Apart
  writes : ∀ i ∈ st.heap.writes, 0 ≤ i ∧ i < st.heap.table.total.toNat

/-- The condition under which a call does what it promises. -/
def Safe (st : HeapState) : HeapOp → Prop
  | .malloc size =>
    (∃ b, FreeRun st.heap.table b (blocksFor size).toNat) ∨ st.heap.table.total.toNat = 0 ∨
      ¬ EntryFree (st.heap.table.entries ((st.heap.table.total.toNat : Int) - 1))
  | .free ptr => (ptr - st.heap.saddr).toNat < 2 ^ 31

/-! ### Arithmetic of the rounding -/

/-- The blocks of a size, rounded up. -/
theorem blocksFor_toNat {size : U32} (h : size.toNat ≤ 0xFFFFF000) :
    (blocksFor size).toNat = (size.toNat + 4095) / 4096 := by
  have hmod : (size % 4096).toNat = size.toNat % 4096 := by simp
  unfold blocksFor heapAlignValueToUpper
  by_cases hz : size % 4096 = 0
  · have h0 : size.toNat % 4096 = 0 := by rw [← hmod, hz]; rfl
    rw [if_pos hz]
    simp only [BitVec.toNat_udiv]
    show size.toNat / 4096 = _
    omega
  · have h0 : size.toNat % 4096 ≠ 0 := fun e => hz (by
      apply BitVec.eq_of_toNat_eq; rw [hmod, e]; rfl)
    have hle : size % 4096 ≤ size := by rw [BitVec.le_def, hmod]; exact Nat.mod_le _ _
    rw [if_neg hz]
    simp only [BitVec.toNat_udiv, BitVec.toNat_add, BitVec.toNat_sub_of_le hle, hmod]
    show (size.toNat - size.toNat % 4096 + 4096) % 2 ^ 32 / 4096 = _
    rw [Nat.mod_eq_of_lt (by omega)]
    omega

theorem blocksFor_pos {size : U32} (h₁ : 1 ≤ size.toNat) (h₂ : size.toNat ≤ 0xFFFFF000) :
    0 < (blocksFor size).toNat := by
  rw [blocksFor_toNat h₂]; omega

theorem blocksFor_lt (size : U32) : (blocksFor size).toNat < 2 ^ 20 := by
  have hlt := (heapAlignValueToUpper size).isLt
  rw [blocksFor, BitVec.toNat_udiv]
  show _ / 4096 < _
  omega

/-- The address of a block of the table, measured from `saddr`. -/
theorem heapBlockToAddress_offset (heap : Heap) {b : Nat} (hb : b < 2 ^ 20) :
    (heapBlockToAddress heap b - heap.saddr).toNat = 4096 * b := by
  have e : ((b : Int) * (peachosHeapBlockSize : Nat)) = ((b * 4096 : Nat) : Int) := by
    push_cast; rfl
  rw [heapBlockToAddress, e, BitVec.ofInt_natCast, BitVec.add_comm, BitVec.add_sub_cancel,
    BitVec.toNat_ofNat, Nat.mod_eq_of_lt (by omega)]
  omega

/-- `heap_address_to_block` inverts it below 2 GiB. -/
theorem heapAddressToBlock_eq {heap : Heap} {p : U32} {b : Nat}
    (h : (p - heap.saddr).toNat = 4096 * b) (hlt : (p - heap.saddr).toNat < 2 ^ 31) :
    heapAddressToBlock heap p = b := by
  rw [heapAddressToBlock, BitVec.toInt_eq_toNat_of_lt (by omega), tdiv_natCast, h]
  simp [peachosHeapBlockSize]

/-- From 2 GiB on the cast makes the block negative. -/
theorem heapAddressToBlock_neg {heap : Heap} {p : U32} {b : Nat}
    (h : (p - heap.saddr).toNat = 4096 * b) (hlt : 2 ^ 31 ≤ (p - heap.saddr).toNat) :
    heapAddressToBlock heap p < 0 := by
  have hb := (p - heap.saddr).isLt
  have e : (p - heap.saddr).toInt = -((2 ^ 32 - 4096 * b : Nat) : Int) := by
    rw [BitVec.toInt_eq_toNat_cond, if_neg (by omega), h]; omega
  rw [heapAddressToBlock, e, Int.neg_tdiv, tdiv_natCast]
  have : 0 < (2 ^ 32 - 4096 * b) / peachosHeapBlockSize :=
    Nat.div_pos (by simp only [peachosHeapBlockSize]; omega) (by decide)
  omega

/-! ### The invariant -/

/-- The first block of a live allocation, and the run of blocks it holds. -/
structure Holds (heap : Heap) (a : Allocation) (b : Nat) : Prop where
  offset : heap.offset a = 4096 * b
  pos : 0 < (blocksFor a.size).toNat
  covers : a.size.toNat ≤ a.bytes
  inside : b + (blocksFor a.size).toNat ≤ heap.table.total.toNat
  coded : Coded heap.table b (blocksFor a.size).toNat

/-- What every call preserves. -/
structure HeapInv (st : HeapState) : Prop where
  total : st.heap.table.total.toNat < 2 ^ 20
  holds : ∀ a ∈ st.live, ∃ b, Holds st.heap a b
  apart : st.live.Pairwise st.heap.Apart
  writes : ∀ i ∈ st.heap.writes, 0 ≤ i ∧ i < st.heap.table.total.toNat

theorem Heap.apart_congr {heap heap' : Heap} (h : heap'.saddr = heap.saddr) :
    heap'.Apart = heap.Apart := by
  funext a a'
  simp only [Heap.Apart, Heap.offset, h]

/-- An allocation whose blocks are not written is left as it was. -/
theorem Holds.frame {heap heap' : Heap} {a : Allocation} {b x y : Nat}
    {f : Int → HeapBlockTableEntry} (h : Holds heap a b) (hw : Wrote heap heap' x y f)
    (hd : b + (blocksFor a.size).toNat ≤ x ∨ y ≤ b) : Holds heap' a b := by
  refine ⟨?_, h.pos, h.covers, hw.total ▸ h.inside, fun j hj => ?_⟩
  · rw [Heap.offset, hw.saddr]; exact h.offset
  · rw [hw.entries, if_neg (by omega)]
    exact h.coded j hj

/-- The blocks of two allocations that hold their runs are apart when their bytes are. -/
theorem Heap.Apart.blocks {heap : Heap} {a a' : Allocation} {b b' : Nat} (h : heap.Apart a a')
    (ha : Holds heap a b) (ha' : Holds heap a' b') :
    b + (blocksFor a.size).toNat ≤ b' ∨ b' + (blocksFor a'.size).toNat ≤ b := by
  have e := ha.offset
  have e' := ha'.offset
  rcases h with h | h
  · left; rw [e, e', Allocation.bytes] at h; omega
  · right; rw [e, e', Allocation.bytes] at h; omega

theorem Heap.Apart.symm {heap : Heap} {a a' : Allocation} (h : heap.Apart a a') :
    heap.Apart a' a := Or.symm h

/-- A held run does not meet a free one. -/
theorem Holds.apart_freeRun {heap : Heap} {a : Allocation} {b x n : Nat} (h : Holds heap a b)
    (hr : FreeRun heap.table x n) (hn : 0 < n) :
    b + (blocksFor a.size).toNat ≤ x ∨ x + n ≤ b := by
  by_contra hc
  have hpos := h.pos
  exact h.coded.not_free (i := max b x) (by omega) (by omega) (hr.2 _ (by omega) (by omega))

/-! ### Creation and the two calls -/

/-- A fresh heap keeps the invariant. -/
theorem heapCreate_inv {ptr end' : U32} {table : HeapTable} {heap : Heap}
    (h : heapCreate ptr end' table = (0, some heap)) : HeapInv ⟨heap, []⟩ := by
  unfold heapCreate at h
  split at h
  · cases h
  · by_cases hv : table.total = (end' - ptr) / 4096
    · simp only [heapValidateTable, ne_eq, hv, not_true_eq_false, if_false, lt_irrefl] at h
      cases h
      refine ⟨?_, by simp, .nil, by simp⟩
      show ((end' - ptr) / 4096).toNat < 2 ^ 20
      rw [BitVec.toNat_udiv]
      show (end' - ptr).toNat / 4096 < 2 ^ 20
      have := (end' - ptr).isLt
      omega
    · simp only [heapValidateTable, ne_eq, hv, not_false_eq_true, if_true] at h
      cases h

/-- What `heap_malloc` does: it takes the lowest free run that is long enough; or there is none and
the last block is taken, and it fails; or there is none and it takes the free tail with the blocks
beyond it. -/
theorem heapMalloc_cases {st : HeapState} (hi : HeapInv st) {size : U32} (h₁ : 1 ≤ size.toNat)
    (h₂ : size.toNat ≤ 0xFFFFF000) :
    (∃ b, FreeRun st.heap.table b (blocksFor size).toNat ∧
      (∀ b' < b, ¬ FreeRun st.heap.table b' (blocksFor size).toNat) ∧
      heapMalloc st.heap size = (heapBlockToAddress st.heap b,
        heapMarkBlocksTaken st.heap b (blocksFor size).toNat)) ∨
    ((∀ b, ¬ FreeRun st.heap.table b (blocksFor size).toNat) ∧
      (st.heap.table.total.toNat ≠ 0 →
        ¬ EntryFree (st.heap.table.entries ((st.heap.table.total.toNat : Int) - 1))) ∧
      heapMalloc st.heap size = (0, st.heap)) ∨
    (∃ b, (∀ b', ¬ FreeRun st.heap.table b' (blocksFor size).toNat) ∧
      b < st.heap.table.total.toNat ∧ st.heap.table.total.toNat < b + (blocksFor size).toNat ∧
      EntryFree (st.heap.table.entries ((st.heap.table.total.toNat : Int) - 1)) ∧
      heapMalloc st.heap size = (heapBlockToAddress st.heap b,
        heapMarkBlocksTaken st.heap b (blocksFor size).toNat)) := by
  have ht := hi.total
  have hn := blocksFor_pos h₁ h₂
  have hlt := blocksFor_lt size
  have hint : (blocksFor size).toInt = ((blocksFor size).toNat : Int) :=
    BitVec.toInt_eq_toNat_of_lt (by omega)
  obtain ⟨r, hr, hstart⟩ := heapGetStartBlock_spec st.heap (blocksFor size) hn (by omega)
  have hm : heapMalloc st.heap size = heapMallocBlocks st.heap (blocksFor size) := rfl
  rw [hm, heapMallocBlocks, hstart, hint]
  cases hr with
  | found b hrun hmin =>
      refine .inl ⟨b, hrun, hmin, ?_⟩
      rw [if_neg (by omega), if_neg (by omega)]
  | full hnone hlast =>
      refine .inr (.inl ⟨hnone, hlast, ?_⟩)
      rw [if_pos rfl, if_pos (by decide)]
  | tail b hnone hb hbt hfree =>
      refine .inr (.inr ⟨b, hnone, hb, hbt, ?_, ?_⟩)
      · have e : ((st.heap.table.total.toNat : Int) - 1) =
            ((st.heap.table.total.toNat - 1 : Nat) : Int) := by omega
        rw [e]
        exact hfree _ (by omega) (by omega)
      · rw [if_neg (by omega), if_neg (by omega)]

/-- On a heap without a free block an allocation fails. -/
theorem heapMalloc_full {heap : Heap} {size : U32} (hn : 0 < (blocksFor size).toNat)
    (ht : heap.table.total.toNat < 2 ^ 31)
    (htaken : ∀ b < heap.table.total.toNat, ¬ EntryFree (heap.table.entries b)) :
    heapMalloc heap size = (0, heap) := by
  obtain ⟨r, hr, hstart⟩ := heapGetStartBlock_spec heap (blocksFor size) hn ht
  have hm : heapMalloc heap size = heapMallocBlocks heap (blocksFor size) := rfl
  rw [hm, heapMallocBlocks, hstart]
  cases hr with
  | found b hrun =>
    have hle := hrun.1
    have hfree := hrun.2 b le_rfl (by omega)
    exact absurd hfree (htaken b (by omega))
  | full => rfl
  | tail b _ hlt _ hfree => exact absurd (hfree b le_rfl hlt) (htaken b hlt)

/-- Taking a free run leaves the live allocations as they were and adds one. -/
theorem HeapInv.take {st : HeapState} (hi : HeapInv st) {size : U32} (h₁ : 1 ≤ size.toNat)
    (h₂ : size.toNat ≤ 0xFFFFF000) {b : Nat} (hr : FreeRun st.heap.table b (blocksFor size).toNat) :
    let heap' := heapMarkBlocksTaken st.heap b (blocksFor size).toNat
    let a : Allocation := ⟨heapBlockToAddress st.heap b, size⟩
    HeapInv { st with heap := heap' } ∧ HeapInv ⟨heap', a :: st.live⟩ := by
  intro heap' a
  have hn := blocksFor_pos h₁ h₂
  have ht := hi.total
  have hb := hr.1
  have hw := heapMarkBlocksTaken_wrote st.heap b hn
  have hold : ∀ a' ∈ st.live, ∃ b', Holds heap' a' b' := by
    intro a' ha'
    obtain ⟨b', hb'⟩ := hi.holds a' ha'
    exact ⟨b', hb'.frame hw (hb'.apart_freeRun hr hn)⟩
  have hwrites : ∀ i ∈ heap'.writes, 0 ≤ i ∧ i < heap'.table.total.toNat := by
    intro i hiw
    rw [hw.total]
    rcases (hw.writes i).mp hiw with h | h
    · omega
    · exact hi.writes i h
  -- the new allocation holds the run, and the blocks written are its own
  have hnew : Holds heap' a b := by
    refine ⟨?_, hn, ?_, hw.total ▸ hb, fun j hj => ?_⟩
    · rw [Heap.offset, hw.saddr]
      exact heapBlockToAddress_offset st.heap (by omega)
    · show size.toNat ≤ 4096 * (blocksFor size).toNat
      rw [blocksFor_toNat h₂]; omega
    · have hj' : j < (blocksFor size).toNat := hj
      rw [hw.entries, if_pos (by omega)]
      rw [show (((b + j : Nat) : Int) - b).toNat = j by omega]
  have hap : st.live.Pairwise heap'.Apart := Heap.apart_congr hw.saddr ▸ hi.apart
  refine ⟨⟨hw.total ▸ ht, hold, hap, hwrites⟩, ⟨hw.total ▸ ht, ?_, ?_, hwrites⟩⟩
  · intro a' ha'
    rcases List.mem_cons.mp ha' with rfl | ha'
    · exact ⟨b, hnew⟩
    · exact hold a' ha'
  · refine List.pairwise_cons.mpr ⟨fun a' ha' => ?_, hap⟩
    obtain ⟨b', hb'⟩ := hi.holds a' ha'
    have hb'' := hb'.frame hw (hb'.apart_freeRun hr hn)
    rcases hb'.apart_freeRun hr hn with h | h
    · right; rw [hb''.offset, hnew.offset, Allocation.bytes]; omega
    · left
      rw [hb''.offset, hnew.offset, Allocation.bytes]
      show 4096 * b + 4096 * (blocksFor size).toNat ≤ _
      omega

/-- Freeing a live allocation below 2 GiB clears its blocks and leaves the others as they were. -/
theorem HeapInv.release {st : HeapState} (hi : HeapInv st) {a : Allocation} (ha : a ∈ st.live)
    (hlt : (a.ptr - st.heap.saddr).toNat < 2 ^ 31) :
    HeapInv ⟨heapFree st.heap a.ptr, st.live.erase a⟩ := by
  obtain ⟨b, hb⟩ := hi.holds a ha
  have hfree : heapFree st.heap a.ptr = heapMarkBlocksFree st.heap b := by
    rw [heapFree, heapAddressToBlock_eq hb.offset hlt]
  rw [hfree]
  have hw := heapMarkBlocksFree_wrote hb.pos hb.inside (by have := hi.total; omega) hb.coded
  have hperm := List.perm_cons_erase ha
  have hcons : (a :: st.live.erase a).Pairwise st.heap.Apart :=
    (hperm.pairwise_iff fun h => h.symm).mp hi.apart
  obtain ⟨hfirst, hrest⟩ := List.pairwise_cons.mp hcons
  refine ⟨hw.total ▸ hi.total, fun a' ha' => ?_, Heap.apart_congr hw.saddr ▸ hrest, fun i hiw => ?_⟩
  · obtain ⟨b', hb'⟩ := hi.holds a' (List.mem_of_mem_erase ha')
    exact ⟨b', hb'.frame hw ((hfirst a' ha').blocks hb hb').symm⟩
  · have e : (heapMarkBlocksFree st.heap b).table.total = st.heap.table.total := hw.total
    rcases (hw.writes i).mp hiw with h | h
    · have := hb.inside; simp only [e]; omega
    · simp only [e]; exact hi.writes i h

/-- A safe `heap_malloc` takes a free run or nothing. -/
theorem heapMalloc_safe {st : HeapState} {size : U32} (hi : HeapInv st)
    (hsafe : Safe st (.malloc size)) (h₁ : 1 ≤ size.toNat) (h₂ : size.toNat ≤ 0xFFFFF000) :
    (∃ b, FreeRun st.heap.table b (blocksFor size).toNat ∧
      heapMalloc st.heap size = (heapBlockToAddress st.heap b,
        heapMarkBlocksTaken st.heap b (blocksFor size).toNat)) ∨
    heapMalloc st.heap size = (0, st.heap) := by
  rcases heapMalloc_cases hi h₁ h₂ with ⟨b, hr, -, e⟩ | ⟨-, -, e⟩ | ⟨b, hnone, hb, -, hfree, -⟩
  · exact .inl ⟨b, hr, e⟩
  · exact .inr e
  · rcases hsafe with ⟨b', hr⟩ | h0 | hlast
    · exact absurd hr (hnone b')
    · omega
    · exact absurd hfree hlast

/-- **One safe call.** -/
theorem HeapStep.inv {st st' : HeapState} {op : HeapOp} (hi : HeapInv st)
    (h : Meeting Safe HeapStep st op st') : HeapInv st' := by
  obtain ⟨hsafe, hstep⟩ := h
  cases hstep with
  | free ha => exact hi.release ha hsafe
  | mallocNull h₁ h₂ hm =>
      rcases heapMalloc_safe hi hsafe h₁ h₂ with ⟨b, hr, e⟩ | e
      · obtain ⟨-, rfl⟩ := Prod.mk.inj (e.symm.trans hm)
        exact (hi.take h₁ h₂ hr).1
      · obtain ⟨-, rfl⟩ := Prod.mk.inj (e.symm.trans hm)
        exact hi
  | malloc h₁ h₂ hm hp =>
      rcases heapMalloc_safe hi hsafe h₁ h₂ with ⟨b, hr, e⟩ | e
      · obtain ⟨rfl, rfl⟩ := Prod.mk.inj (e.symm.trans hm)
        exact (hi.take h₁ h₂ hr).2
      · exact absurd (Prod.mk.inj (e.symm.trans hm)).1.symm hp

/-- The invariant keeps allocations apart. -/
theorem HeapInv.noOverlap {st : HeapState} (hi : HeapInv st) : NoOverlap st := by
  refine ⟨fun a ha => ?_, fun a ha => ?_, fun a ha => ?_, fun a ha i h₁ h₂ => ?_, hi.apart,
    hi.writes⟩
  all_goals obtain ⟨b, hb⟩ := hi.holds a ha
  · exact ⟨b, hb.offset⟩
  · exact hb.covers
  · have := hb.inside
    rw [hb.offset, Allocation.bytes]; omega
  · rw [hb.offset] at h₁ h₂
    rw [Allocation.bytes] at h₂
    exact hb.coded.not_free (by omega) (by omega)

/-! ### What a call writes -/

/-- The indexes of the table writes that lead from `heap` to `heap'`. -/
def Heap.newWrites (heap heap' : Heap) : List Int :=
  heap'.writes.take (heap'.writes.length - heap.writes.length)

/-- `heap'` comes from `heap` by table writes at `is`, latest first. -/
structure Heap.Writes (heap : Heap) (is : List Int) (heap' : Heap) : Prop where
  total : heap'.table.total = heap.table.total
  saddr : heap'.saddr = heap.saddr
  writes : heap'.writes = is ++ heap.writes

namespace Heap.Writes
variable {heap heap' heap'' : Heap} {is js : List Int}

theorem refl (heap : Heap) : heap.Writes [] heap := ⟨rfl, rfl, rfl⟩

theorem trans (h : heap.Writes is heap') (h' : heap'.Writes js heap'') :
    heap.Writes (js ++ is) heap'' :=
  ⟨h'.total.trans h.total, h'.saddr.trans h.saddr, by rw [h'.writes, h.writes, List.append_assoc]⟩

theorem setEntry (heap : Heap) (i : Int) (e : HeapBlockTableEntry) :
    heap.Writes [i] (heap.setEntry i e) := ⟨rfl, rfl, rfl⟩

/-- What was written since. -/
theorem newWrites_eq (h : heap.Writes is heap') : heap.newWrites heap' = is := by
  rw [Heap.newWrites, h.writes, List.length_append, Nat.add_sub_cancel, List.take_left]

end Heap.Writes

theorem heapMarkBlocksTakenLoop_writes (endBlock : Int) :
    ∀ (n : Nat) (i : Int) (e : HeapBlockTableEntry) (heap : Heap),
      ∃ is, heap.Writes is (heapMarkBlocksTakenLoop endBlock n i e heap) := by
  intro n
  induction n with
  | zero => intro i e heap; exact ⟨[], .refl heap⟩
  | succ n ih =>
      intro i e heap
      obtain ⟨is, h⟩ := ih (i + 1) _ (heap.setEntry i e)
      exact ⟨_, (Heap.Writes.setEntry heap i e).trans h⟩

/-- Reserving writes to the table through `writes`. -/
theorem heapMalloc_writes (heap : Heap) (size : U32) :
    ∃ is, heap.Writes is (heapMalloc heap size).2 := by
  unfold heapMalloc heapMallocBlocks
  dsimp only
  split
  · exact ⟨[], .refl heap⟩
  · exact heapMarkBlocksTakenLoop_writes _ _ _ _ heap

/-- The loop writes where it starts, whatever is there. -/
theorem heapMarkBlocksFreeLoop_writes :
    ∀ (n : Nat) (i : Int) (heap : Heap),
      ∃ is, heap.Writes is (heapMarkBlocksFreeLoop n i heap) ∧ (0 < n → i ∈ is) := by
  intro n
  induction n with
  | zero => intro i heap; exact ⟨[], .refl heap, fun h => absurd h (lt_irrefl 0)⟩
  | succ n ih =>
      intro i heap
      have hset := Heap.Writes.setEntry heap i heapBlockTableEntryFree
      rw [heapMarkBlocksFreeLoop]
      split
      · exact ⟨[i], hset, fun _ => List.mem_singleton_self i⟩
      · obtain ⟨is, h, -⟩ := ih (i + 1) (heap.setEntry i heapBlockTableEntryFree)
        exact ⟨is ++ [i], hset.trans h, fun _ => by simp⟩

/-- So does freeing. -/
theorem heapFree_writes (heap : Heap) (ptr : U32) : ∃ is, heap.Writes is (heapFree heap ptr) := by
  obtain ⟨is, h, -⟩ := heapMarkBlocksFreeLoop_writes _ (heapAddressToBlock heap ptr) heap
  exact ⟨is, h⟩

/-! ### The unsafe calls -/

/-- `heap'` comes from `heap` by table writes alone. -/
structure Heap.Extends (heap heap' : Heap) : Prop where
  total : heap'.table.total = heap.table.total
  saddr : heap'.saddr = heap.saddr
  writes : ∀ k ∈ heap.writes, k ∈ heap'.writes

theorem Heap.Writes.extends {heap heap' : Heap} {is : List Int} (h : heap.Writes is heap') :
    heap.Extends heap' :=
  ⟨h.total, h.saddr, fun _ hk => h.writes ▸ List.mem_append_right is hk⟩

theorem heapMarkBlocksFreeLoop_extends (n : Nat) (i : Int) (heap : Heap) :
    heap.Extends (heapMarkBlocksFreeLoop n i heap) ∧
      (0 < n → i ∈ (heapMarkBlocksFreeLoop n i heap).writes) := by
  obtain ⟨is, h, hmem⟩ := heapMarkBlocksFreeLoop_writes n i heap
  exact ⟨h.extends, fun hn => h.writes ▸ List.mem_append_left _ (hmem hn)⟩

theorem heapMalloc_extends (heap : Heap) (size : U32) : heap.Extends (heapMalloc heap size).2 := by
  obtain ⟨is, h⟩ := heapMalloc_writes heap size
  exact h.extends

/-- A call extends what was written. -/
theorem HeapStep.extends {st st' : HeapState} {op : HeapOp} (h : HeapStep st op st') :
    st.heap.Extends st'.heap := by
  cases h with
  | @mallocNull size _ _ _ hm =>
      have h := heapMalloc_extends st.heap size
      rwa [hm] at h
  | @malloc size _ _ _ _ hm _ =>
      have h := heapMalloc_extends st.heap size
      rwa [hm] at h
  | free _ => exact (heapMarkBlocksFreeLoop_extends _ _ _).1

/-- Some table write had an index outside the table. -/
def WroteOutside (st : HeapState) : Prop :=
  ∃ i ∈ st.heap.writes, ¬ (0 ≤ i ∧ i < st.heap.table.total.toNat)

/-- What is written outside stays written. -/
theorem WroteOutside.step {st st' : HeapState} {op : HeapOp} (hb : WroteOutside st)
    (h : HeapStep st op st') : WroteOutside st' := by
  obtain ⟨i, hi, hout⟩ := hb
  exact ⟨i, h.extends.writes i hi, by rwa [h.extends.total]⟩

/-- A `heap_malloc` that takes the short free tail writes its last block past the table. -/
theorem wroteOutside_of_tail {st : HeapState} {b n : Nat} {live : List Allocation} (hn : 0 < n)
    (hlt : st.heap.table.total.toNat < b + n) :
    WroteOutside ⟨heapMarkBlocksTaken st.heap b n, live⟩ := by
  have hw := heapMarkBlocksTaken_wrote st.heap b hn
  refine ⟨((b + n - 1 : Nat) : Int), (hw.writes _).mpr (.inl (by omega)), fun h => ?_⟩
  have e : (heapMarkBlocksTaken st.heap b n).table.total = st.heap.table.total := hw.total
  simp only [e] at h
  omega

/-- An unsafe `heap_malloc` takes the short free tail. -/
theorem heapMalloc_wroteOutside {st : HeapState} {size : U32} {r : U32 × Heap}
    {live : List Allocation} (hi : HeapInv st) (hs : ¬ Safe st (.malloc size)) (h₁ : 1 ≤ size.toNat)
    (h₂ : size.toNat ≤ 0xFFFFF000) (hm : heapMalloc st.heap size = r) :
    WroteOutside ⟨r.2, live⟩ := by
  simp only [Safe, not_or, not_exists, not_not] at hs
  rcases heapMalloc_cases hi h₁ h₂ with ⟨b, hr, -, -⟩ | ⟨-, hlast, -⟩ | ⟨b, -, -, hlt, -, e⟩
  · exact absurd hr (hs.1 b)
  · exact absurd hs.2.2 (hlast hs.2.1)
  · rw [← hm, e]
    exact wroteOutside_of_tail (blocksFor_pos h₁ h₂) hlt

/-- **One unsafe call** writes outside the table. -/
theorem HeapStep.wroteOutside {st st' : HeapState} {op : HeapOp} (hi : HeapInv st)
    (hs : ¬ Safe st op) (h : HeapStep st op st') : WroteOutside st' := by
  cases h with
  | mallocNull h₁ h₂ hm => exact heapMalloc_wroteOutside hi hs h₁ h₂ hm
  | malloc h₁ h₂ hm hp => exact heapMalloc_wroteOutside hi hs h₁ h₂ hm
  | @free a ha =>
      obtain ⟨b, hb⟩ := hi.holds a ha
      have hneg := heapAddressToBlock_neg hb.offset (Nat.not_lt.mp hs)
      have ht : st.heap.table.total.toInt = st.heap.table.total.toNat :=
        BitVec.toInt_eq_toNat_of_lt (by have := hi.total; omega)
      refine ⟨heapAddressToBlock st.heap a.ptr, ?_, fun h => absurd h.1 (by omega)⟩
      exact (heapMarkBlocksFreeLoop_extends _ _ _).2 (by omega)

/-! ### Every history -/

/-- **Allocations never overlap, in exactly the safe histories.**  From a heap made by
`heap_create`, a history of calls leaves every live allocation its own blocks inside the heap, with
no table write outside `[0, total)`, if and only if each of its calls was safe. -/
theorem noOverlap_iff_safe {ptr end' : U32} {table : HeapTable} {heap : Heap} {ops : List HeapOp}
    {st : HeapState} (hc : heapCreate ptr end' table = (0, some heap))
    (hrun : Run HeapStep ⟨heap, []⟩ ops st) :
    NoOverlap st ↔ Run (Meeting Safe HeapStep) ⟨heap, []⟩ ops st := by
  have h₀ := heapCreate_inv hc
  constructor
  · intro hno
    refine hrun.meeting_of_not h₀ (fun _ _ _ => HeapStep.inv)
      (fun _ _ _ hi hs h => h.wroteOutside hi hs)
      (fun _ _ _ => WroteOutside.step) ?_
    rintro ⟨i, hi, hout⟩
    exact hout (hno.writes i hi)
  · intro hsafe
    exact (hsafe.invariant h₀ fun _ _ _ => HeapStep.inv).noOverlap

/-- A table of one block. -/
def oneBlockTable : HeapTable := { entries := fun _ => heapBlockTableEntryFree, total := 1 }

/-- The heap `heap_create` makes of it at `[0x1000, 0x2000)`. -/
def oneBlockHeap : Heap :=
  { table :=
      { oneBlockTable with
        entries := fun i =>
          if 0 ≤ i ∧ i < oneBlockTable.total.toNat then heapBlockTableEntryFree
          else oneBlockTable.entries i }
    saddr := 0x1000
    writes := [] }

/-- The state after a call that succeeds. -/
def HeapState.next (st : HeapState) : HeapOp → HeapState
  | .malloc size =>
    ⟨(heapMalloc st.heap size).2, ⟨(heapMalloc st.heap size).1, size⟩ :: st.live⟩
  | .free ptr =>
    ⟨heapFree st.heap ptr, (st.live.find? (·.ptr = ptr)).elim st.live st.live.erase⟩

/-- The call succeeds, and is safe. -/
def HeapState.ready (st : HeapState) : HeapOp → Bool
  | .malloc size =>
    1 ≤ size.toNat && size.toNat ≤ 0xFFFFF000 && (heapMalloc st.heap size).1 ≠ 0 &&
      FreeRun st.heap.table (((heapMalloc st.heap size).1 - st.heap.saddr).toNat / 4096)
        (blocksFor size).toNat
  | .free ptr => st.live.any (·.ptr = ptr) && (ptr - st.heap.saddr).toNat < 2 ^ 31

theorem HeapState.next_free {st : HeapState} {ptr : U32} (h : st.live.any (·.ptr = ptr) = true) :
    ∃ a ∈ st.live, a.ptr = ptr ∧
      st.next (.free ptr) = ⟨heapFree st.heap ptr, st.live.erase a⟩ := by
  obtain ⟨b, hb, hptr⟩ := List.any_eq_true.mp h
  obtain ⟨a, hfind⟩ : ∃ a, st.live.find? (·.ptr = ptr) = some a :=
    Option.isSome_iff_exists.mp (List.find?_isSome.mpr ⟨b, hb, hptr⟩)
  have ha : a.ptr = ptr := by simpa using List.find?_some hfind
  exact ⟨a, List.mem_of_find?_eq_some hfind, ha, by rw [next, hfind]; rfl⟩

theorem HeapState.next_safe (st : HeapState) (op : HeapOp) (h : st.ready op = true) :
    Meeting Safe HeapStep st op (st.next op) := by
  cases op with
  | malloc size =>
      simp only [ready, Bool.and_eq_true, decide_eq_true_eq] at h
      obtain ⟨⟨⟨h₁, h₂⟩, hp⟩, hfree⟩ := h
      exact ⟨.inl ⟨_, hfree⟩, .malloc h₁ h₂ rfl hp⟩
  | free ptr =>
      rw [ready, Bool.and_eq_true, decide_eq_true_eq] at h
      obtain ⟨a, hmem, rfl, hnext⟩ := next_free h.1
      rw [hnext]
      exact ⟨h.2, .free hmem⟩

/-- A table of eight blocks. -/
def eightBlockTable : HeapTable := { entries := fun _ => heapBlockTableEntryFree, total := 8 }

/-- The heap `heap_create` makes of it at `[0x1000, 0x9000)`. -/
def eightBlockHeap : Heap where
  table :=
    { eightBlockTable with
      entries := fun i =>
        if 0 ≤ i ∧ i < eightBlockTable.total.toNat then heapBlockTableEntryFree
        else eightBlockTable.entries i }
  saddr := 0x1000
  writes := []

/-- Blocks are freed and asked for again, in two pieces. -/
def reuse : List HeapOp :=
  [.malloc 8192, .malloc 1, .free 0x1000, .malloc 4096, .malloc 1]

/-- Three allocations are live at the end, in the first three blocks. -/
theorem noOverlap_reuse :
    let st := reuse.foldl HeapState.next ⟨eightBlockHeap, []⟩
    Run HeapStep ⟨eightBlockHeap, []⟩ reuse st ∧
      st.live = [⟨0x2000, 1⟩, ⟨0x1000, 4096⟩, ⟨0x3000, 1⟩] ∧ NoOverlap st := by
  have hsafe : Run (Meeting Safe HeapStep) ⟨eightBlockHeap, []⟩ reuse
      (reuse.foldl HeapState.next ⟨eightBlockHeap, []⟩) :=
    Run.of_allAlong HeapState.next_safe (by decide +kernel)
  have hrun := hsafe.mono fun _ _ _ h => h.2
  have hc : heapCreate 0x1000 0x9000 eightBlockTable = (0, some eightBlockHeap) := rfl
  exact ⟨hrun, by decide +kernel, (noOverlap_iff_safe hc hrun).mpr hsafe⟩

/-- Two blocks asked of a heap of one: the call returns its only block and writes entry `1`. -/
theorem oneBlock_malloc_two :
    heapCreate 0x1000 0x2000 oneBlockTable = (0, some oneBlockHeap) ∧
    HeapStep ⟨oneBlockHeap, []⟩ (.malloc 8192)
      ⟨(heapMalloc oneBlockHeap 8192).2, [⟨0x1000, 8192⟩]⟩ ∧
    (heapMalloc oneBlockHeap 8192).2.writes = [1, 0] ∧
    ¬ NoOverlap ⟨(heapMalloc oneBlockHeap 8192).2, [⟨0x1000, 8192⟩]⟩ := by
  refine ⟨rfl, .malloc (by decide) (by decide) rfl (by decide), by decide, fun h => ?_⟩
  have h1 := h.writes 1 (by decide)
  exact absurd h1 (by decide)

end KernelNES.Memory
