import KernelNES.Memory.Ownership
import Mathlib.Data.Set.Card

/-!
# Memory — Ledger

The pages a computation took since it began.  Over a kernel heap that starts as `heap₀` the pages
that are out say what the block table is (`Heap.TookFrom`): when none is out, it is that of `heap₀`
again.  A recorded allocator keeps a ledger of its calls, so that what was freed, and how often, can
be read off a run (`Ledger`).
-/

namespace KernelNES.Memory
open KernelNES.Lib

/-! ### Room -/

section
variable {H : Type} {alloc : Allocator H} {Owns : H → Set U32 → Prop}

/-- While less than `capacity` pages are out, a request of at most a page succeeds. -/
def Roomy (alloc : Allocator H) (Owns : H → Set U32 → Prop) (capacity : Nat) : Prop :=
  ∀ ⦃h : H⦄ ⦃O : Set U32⦄ ⦃size : U32⦄, Owns h O → O.ncard < capacity → size ≠ 0 →
    size.toNat ≤ 4096 → (alloc.kzalloc size h).1 ≠ 0

instance : Finite U32 := Finite.of_injective BitVec.toFin fun _ _ => BitVec.toFin_inj.mp

/-- Pages that were not out count in full. -/
theorem ncard_took {O K : Set U32} {s s' : PagingState H} {ps : List U32}
    (h : TookPages Owns O K s ps s') : (O ∪ {p | p ∈ ps}).ncard = O.ncard + ps.length := by
  have hdisjoint : Disjoint O {p | p ∈ ps} :=
    Set.disjoint_left.mpr fun p hO hp => (h.fresh p hp).2.2 hO
  have hlist : ({p | p ∈ ps} : Set U32).ncard = ps.length := by
    rw [← List.coe_toFinset, Set.ncard_coe_finset, List.toFinset_card_of_nodup h.nodup]
  rw [Set.ncard_union_eq hdisjoint (Set.toFinite O) (Set.toFinite _), hlist]

/-! ### Calls -/

/-- A call of the allocator, and its pointer. -/
inductive HeapCall where
  | took (ptr : U32)
  | gave (ptr : U32)
  deriving DecidableEq, Repr

/-- The allocator with its calls recorded. -/
def Allocator.recorded (alloc : Allocator H) : Allocator (H × List HeapCall) where
  kzalloc size h :=
    let (ptr, heap) := alloc.kzalloc size h.1
    (ptr, heap, h.2 ++ [.took ptr])
  kfree ptr h := (alloc.kfree ptr h.1, h.2 ++ [.gave ptr])

/-- Each page given back was out: it had been taken, and not given back since.  The pages `O` still
are. -/
inductive Ledger : List HeapCall → Set U32 → Prop where
  | nil : Ledger [] ∅
  | took {log O p} (h : Ledger log O) (hp : p ∉ O) : Ledger (log ++ [.took p]) (insert p O)
  | gave {log O p} (h : Ledger log O) (hp : p ∈ O) : Ledger (log ++ [.gave p]) (O \ {p})

/-- A page is out once more than it was given back, or as often. -/
theorem Ledger.count {log : List HeapCall} {O : Set U32} (h : Ledger log O) (p : U32) :
    (p ∈ O → log.count (.took p) = log.count (.gave p) + 1) ∧
      (p ∉ O → log.count (.took p) = log.count (.gave p)) := by
  induction h with
  | nil => exact ⟨fun h => absurd h (Set.notMem_empty p), fun _ => rfl⟩
  | @took log O q _ hq ih =>
    simp only [List.count_append, List.count_singleton, beq_iff_eq, HeapCall.took.injEq,
      reduceCtorEq, if_false, Set.mem_insert_iff]
    by_cases hpq : q = p
    · subst hpq
      simp [ih.2 hq]
    · simp only [hpq, Ne.symm hpq, if_false, false_or]
      exact ih
  | @gave log O q _ hq ih =>
    simp only [List.count_append, List.count_singleton, beq_iff_eq, HeapCall.gave.injEq,
      reduceCtorEq, if_false, Set.mem_sdiff, Set.mem_singleton_iff]
    by_cases hpq : q = p
    · subst hpq
      simp [ih.1 hq]
    · simp only [hpq, Ne.symm hpq, if_false, not_false_eq_true, and_true]
      exact ih

theorem PageAllocator.recorded (halloc : PageAllocator alloc Owns) :
    PageAllocator alloc.recorded fun h O => Owns h.1 O ∧ Ledger h.2 O where
  take {h h' O size p} ho hsize hle hrun hp := by
    obtain ⟨rfl, rfl⟩ := Prod.mk.inj hrun
    obtain ⟨ha, hout, howns⟩ := halloc.take ho.1 hsize hle rfl hp
    exact ⟨ha, hout, howns, ho.2.took hout⟩
  give ho hp := ⟨halloc.give ho.1 hp, ho.2.gave hp⟩

theorem Roomy.recorded {capacity : Nat} (hroom : Roomy alloc Owns capacity) :
    Roomy alloc.recorded (fun h O => Owns h.1 O ∧ Ledger h.2 O) capacity :=
  fun _ _ _ ho hO hsize hle => hroom ho.1 hO hsize hle

end

/-! ### The kernel heap -/

/-- The pages `O` are those of blocks taken by themselves since the heap was `heap₀`, and no other
entry of its table has changed. -/
structure Heap.TookFrom (heap₀ heap : Heap) (O : Set U32) : Prop where
  saddr : heap.saddr = heap₀.saddr
  total : heap.table.total = heap₀.table.total
  pages : ∀ p ∈ O, ∃ b ∈ heap₀.freeBlocks, heapBlockToAddress heap₀ b = p
  taken : ∀ b ∈ heap₀.freeBlocks, heapBlockToAddress heap₀ b ∈ O →
    heap.table.entries b = runCode 1 0
  others : ∀ k : Int, (∀ b ∈ heap₀.freeBlocks, heapBlockToAddress heap₀ b ∈ O → k ≠ b) →
    heap.table.entries k = heap₀.table.entries k

section
variable {heap₀ heap : Heap} {O : Set U32}

theorem Heap.TookFrom.start (heap₀ : Heap) : heap₀.TookFrom heap₀ ∅ :=
  ⟨rfl, rfl, nofun, nofun, fun _ _ => rfl⟩

/-- With no page out the table is as it was. -/
theorem Heap.TookFrom.table_eq (h : heap₀.TookFrom heap ∅) : heap.table = heap₀.table :=
  HeapTable.ext' h.total fun k => h.others k nofun

theorem Heap.TookFrom.address (h : heap₀.TookFrom heap O) (b : Nat) :
    heapBlockToAddress heap b = heapBlockToAddress heap₀ b := by
  rw [heapBlockToAddress, heapBlockToAddress, h.saddr]

/-- A block is free when it was and its page is not out. -/
theorem Heap.TookFrom.mem_freeBlocks (h : heap₀.TookFrom heap O) {b : Nat} :
    b ∈ heap.freeBlocks ↔ b ∈ heap₀.freeBlocks ∧ heapBlockToAddress heap₀ b ∉ O := by
  constructor
  · intro hb
    obtain ⟨hrange, hfree⟩ := Finset.mem_filter.mp hb
    have hblt : b < heap₀.table.total.toNat := by
      rw [← h.total]
      exact Finset.mem_range.mp hrange
    have hout : ∀ c ∈ heap₀.freeBlocks, heapBlockToAddress heap₀ c ∈ O → (b : Int) ≠ c := by
      intro c hc hcO he
      rw [he, h.taken c hc hcO] at hfree
      exact runCode_not_free 1 0 hfree
    rw [h.others b hout] at hfree
    have hb₀ : b ∈ heap₀.freeBlocks :=
      Finset.mem_filter.mpr ⟨Finset.mem_range.mpr hblt, hfree⟩
    exact ⟨hb₀, fun hO => hout b hb₀ hO rfl⟩
  · rintro ⟨hb₀, hO⟩
    obtain ⟨-, hfree⟩ := Finset.mem_filter.mp hb₀
    have hsame := h.others b fun c hc hcO he => by
      obtain rfl : b = c := by omega
      exact hO hcO
    rw [Heap.freeBlocks, Finset.mem_filter, Finset.mem_range, h.total, hsame]
    exact ⟨Heap.freeBlocks_lt hb₀, hfree⟩

/-- Taking a free block puts its page out. -/
theorem Heap.TookFrom.take (h : heap₀.TookFrom heap O) (hpaged : PagedHeap heap₀) {b : Nat}
    (hb : b ∈ heap.freeBlocks) :
    heap₀.TookFrom (heap.setEntry b (runCode 1 0)) (insert (heapBlockToAddress heap₀ b) O) := by
  obtain ⟨hb₀, hout⟩ := h.mem_freeBlocks.mp hb
  refine ⟨h.saddr, h.total, ?_, fun c hc hcO => ?_, fun k hk => ?_⟩
  · rintro p (rfl | hp)
    · exact ⟨b, hb₀, rfl⟩
    · exact h.pages p hp
  · rw [Heap.setEntry_entries]
    split
    · rfl
    · rename_i hne
      refine h.taken c hc (hcO.resolve_left fun he => hne ?_)
      rw [hpaged.address_inj (Heap.freeBlocks_lt hc) (Heap.freeBlocks_lt hb₀) he]
  · rw [Heap.setEntry_entries, if_neg (hk b hb₀ (.inl rfl))]
    exact h.others k fun c hc hcO => hk c hc (.inr hcO)

/-- Freeing a block whose page is out takes it back. -/
theorem Heap.TookFrom.give (h : heap₀.TookFrom heap O) (hpaged : PagedHeap heap₀)
    (hwf : WellFormed heap₀.table) {b : Nat} (hb₀ : b ∈ heap₀.freeBlocks) :
    heap₀.TookFrom (heap.setEntry b heapBlockTableEntryFree)
      (O \ {heapBlockToAddress heap₀ b}) := by
  refine ⟨h.saddr, h.total, fun p hp => h.pages p hp.1, fun c hc hcO => ?_, fun k hk => ?_⟩
  · rw [Heap.setEntry_entries, if_neg, h.taken c hc hcO.1]
    intro he
    obtain rfl : c = b := by omega
    exact hcO.2 rfl
  · rw [Heap.setEntry_entries]
    split
    · rename_i he
      subst he
      -- the entry of a free block of a well-formed table
      obtain ⟨hrange, hfree⟩ := Finset.mem_filter.mp hb₀
      rcases hwf b (Heap.freeBlocks_lt hb₀) with hentry | ⟨b', n, h₁, h₂, -, hcoded⟩
      · exact hentry.symm
      · exact absurd hfree (hcoded.not_free h₁ h₂)
    · rename_i hne
      refine h.others k fun c hc hcO he => ?_
      refine hk c hc ⟨hcO, fun hcb => hne ?_⟩ he
      rw [he, hpaged.address_inj (Heap.freeBlocks_lt hc) (Heap.freeBlocks_lt hb₀) hcb]

end

section
variable {heap₀ : Heap}

/-- The kernel heap is an allocator of pages. -/
theorem KernelHeap.pageAllocator (h : KernelHeap heap₀) :
    PageAllocator .kheap heap₀.TookFrom where
  take {heap heap' O size p} ho hpos hle hrun hp := by
    have hrun : heapMalloc heap size = (p, heap') := hrun
    have htotal : heap.table.total.toNat < 2 ^ 31 := by
      rw [ho.total, h.total]
      decide
    rcases heapMalloc_oneOrNone (blocksFor_page hpos hle) htotal with hfull | ⟨b, hb, htake⟩
    · exact absurd (congrArg Prod.fst (hrun.symm.trans hfull)) hp
    · obtain ⟨rfl, rfl⟩ := Prod.mk.inj (hrun.symm.trans htake)
      obtain ⟨hb₀, hout⟩ := ho.mem_freeBlocks.mp hb
      rw [ho.address]
      exact ⟨(h.paged.address_page (Heap.freeBlocks_lt hb₀)).2, hout, ho.take h.paged hb⟩
  give {heap O p} ho hp := by
    obtain ⟨b, hb₀, rfl⟩ := ho.pages p hp
    have htotal : heap.table.total.toNat ≤ 2 ^ 19 := by
      rw [ho.total, h.total]
      decide
    have hfree : Allocator.kheap.kfree (heapBlockToAddress heap b) heap = _ :=
      heapFree_one htotal (by rw [ho.total]; exact Heap.freeBlocks_lt hb₀) (ho.taken b hb₀ hp)
    rw [← ho.address, hfree, ho.address]
    exact ho.give h.paged h.wellFormed hb₀

/-- It has as much room as it has free blocks. -/
theorem KernelHeap.roomy (h : KernelHeap heap₀) :
    Roomy .kheap heap₀.TookFrom heap₀.freeBlocks.card := by
  intro heap O size ho hO hpos hle
  have htotal : heap.table.total.toNat < 2 ^ 31 := by
    rw [ho.total, h.total]
    decide
  -- the free blocks cannot all be out
  have hfree : 0 < heap.freeBlocks.card := by
    by_contra hnone
    have hempty := Finset.card_eq_zero.mp (Nat.eq_zero_of_not_pos hnone)
    have hsub : (heap₀.freeBlocks.image fun b : Nat => heapBlockToAddress heap₀ b) ⊆
        O.toFinite.toFinset := by
      intro p hp
      obtain ⟨b, hb, rfl⟩ := Finset.mem_image.mp hp
      rw [Set.Finite.mem_toFinset]
      by_contra hout
      exact Finset.notMem_empty b (hempty ▸ ho.mem_freeBlocks.mpr ⟨hb, hout⟩)
    have hcard := Finset.card_le_card hsub
    rw [← Set.ncard_eq_toFinset_card, Finset.card_image_of_injOn] at hcard
    · omega
    · intro b hb c hc he
      exact h.paged.address_inj (Heap.freeBlocks_lt hb) (Heap.freeBlocks_lt hc) he
  obtain ⟨b, hb, htake⟩ := heapMalloc_setEntry (blocksFor_page hpos hle) htotal hfree
  rw [show Allocator.kheap.kzalloc size heap = _ from htake, ho.address]
  exact (h.paged.address_page (Heap.freeBlocks_lt (ho.mem_freeBlocks.mp hb).1)).1

end

end KernelNES.Memory
