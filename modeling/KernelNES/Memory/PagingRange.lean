import KernelNES.Memory.Paging

/-!
# Memory — PagingRange

`paging_map_range` and `paging_map_to` of `src/memory/paging/paging.c`.  The loop over the pages of
a range leaves as soon as a page *is* mapped, so of a range only the first page is
(`pagingMapTo_ok`); the range translates as it should exactly when the others did before
(`map_to_covers_iff`).
-/

namespace KernelNES.Memory
open KernelNES.Lib

/-! ### The two functions -/

section
variable {H : Type}

/-- The loop of `paging_map_range`: `n` pages are left. -/
def pagingMapRangeLoop (directory flags : U32) :
    (n : Nat) → (virt phys : U32) → (res : Int) → Exec Fault (PagingState H) Int
  | 0, _, _, res => pure res
  | n + 1, virt, phys, _ => do
    let res ← pagingMap directory virt phys flags
    if res = 0 then pure res
    else pagingMapRangeLoop directory flags n (virt + pagingPageSize) (phys + pagingPageSize) res

/-- `paging_map_range`. -/
def pagingMapRange (directory virt phys : U32) (count : Int) (flags : U32) :
    Exec Fault (PagingState H) Int :=
  pagingMapRangeLoop directory flags count.toNat virt phys 0

/-- `paging_map_to`. -/
def pagingMapTo (directory virt phys physEnd flags : U32) : Exec Fault (PagingState H) Int :=
  if virt % pagingPageSize ≠ 0 then pure (-einvarg)
  else if phys % pagingPageSize ≠ 0 then pure (-einvarg)
  else if physEnd % pagingPageSize ≠ 0 then pure (-einvarg)
  else if physEnd < phys then pure (-einvarg)
  else
    let totalBytes := physEnd - phys
    let totalPages := (totalBytes / pagingPageSize).toInt
    pagingMapRange directory virt phys totalPages flags

end

/-! ### What they do -/

/-- The three addresses are aligned, and the range does not end before it starts. -/
def ValidRange (virt phys physEnd : U32) : Prop :=
  virt % 4096 = 0 ∧ phys % 4096 = 0 ∧ physEnd % 4096 = 0 ∧ phys ≤ physEnd

/-- The pages of a range. -/
def rangePages (phys physEnd : U32) : Nat := (physEnd.toNat - phys.toNat) / 4096

variable {words : U32 → U32} {chunk directory : U32} {table : Nat → U32}

/-- **A range that is not valid** is refused, and nothing changes. -/
theorem pagingMapTo_refused {H : Type} (directory : U32) {virt phys physEnd : U32} (flags : U32)
    (h : ¬ ValidRange virt phys physEnd) (s : PagingState H) :
    pagingMapTo directory virt phys physEnd flags s = .ok (-einvarg, s) := by
  rw [pagingMapTo]
  split
  · rfl
  split
  · rfl
  split
  · rfl
  split
  · rfl
  rename_i h₁ h₂ h₃ h₄
  exact absurd ⟨not_not.mp h₁, not_not.mp h₂, not_not.mp h₃, BitVec.not_lt.mp h₄⟩ h

/-- Of a valid range that is not empty the first page is mapped, and no other. -/
theorem pagingMapTo_ok {H : Type} {s : PagingState H} (h : PageTables s.words chunk directory table)
    {virt phys physEnd : U32} (flags : U32) (hvalid : ValidRange virt phys physEnd) :
    pagingMapTo directory virt phys physEnd flags s = .ok (0,
      if rangePages phys physEnd = 0 then s
      else
        { s with
          words := Function.update s.words (pageEntry table virt) (phys ||| flags) }) := by
  obtain ⟨hv, hp, he, hle⟩ := hvalid
  have hsub : (physEnd - phys).toNat = physEnd.toNat - phys.toNat := BitVec.toNat_sub_of_le hle
  have hpages : ((physEnd - phys) / pagingPageSize).toInt.toNat = rangePages phys physEnd := by
    have hto : ((physEnd - phys) / pagingPageSize).toNat = rangePages phys physEnd := by
      rw [BitVec.toNat_udiv, hsub]
      rfl
    have hlt := (physEnd - phys).isLt
    rw [BitVec.toInt_eq_toNat_of_lt (by rw [hto, rangePages, ← hsub]; omega), hto,
      Int.toNat_natCast]
  rw [pagingMapTo, if_neg (show ¬ virt % pagingPageSize ≠ 0 from not_not.mpr hv),
    if_neg (show ¬ phys % pagingPageSize ≠ 0 from not_not.mpr hp),
    if_neg (show ¬ physEnd % pagingPageSize ≠ 0 from not_not.mpr he),
    if_neg (BitVec.not_lt.mpr hle)]
  rw [pagingMapRange, hpages]
  cases hn : rangePages phys physEnd with
  | zero => rfl
  | succ n =>
    rw [pagingMapRangeLoop, Exec.bind_ok (pagingMap_ok h hv hp flags), if_pos rfl,
      if_neg (Nat.succ_ne_zero n)]
    rfl

/-! ### Calls -/

/-- A call on the directory of an address space, with `paging_map_to` among them. -/
inductive PagingOp where
  | call (c : PagingCall)
  | mapTo (virt phys physEnd flags : U32)
  deriving DecidableEq

/-- The call, on the directory of `chunk`. -/
def PagingOp.run {H : Type} (chunk : U32) : PagingOp → Exec Fault (PagingState H) Int
  | .call c => c.run chunk
  | .mapTo virt phys physEnd flags => do
    let directory ← paging4gbChunkGetDirectory chunk
    pagingMapTo directory virt phys physEnd flags

/-- A call, whatever its status. -/
def PagingOpStep {H : Type} (chunk : U32) (s : PagingState H) (op : PagingOp)
    (s' : PagingState H) : Prop := ∃ res, op.run chunk s = .ok (res, s')

theorem PagingOp.run_mapTo {H : Type} {s : PagingState H}
    (h : PageTables s.words chunk directory table) (virt phys physEnd flags : U32) :
    (PagingOp.mapTo virt phys physEnd flags).run chunk s =
      pagingMapTo directory virt phys physEnd flags s := by
  rw [PagingOp.run, Exec.bind_ok h.getDirectory]

/-- A call changes no more than one entry of a page table. -/
theorem PagingOpStep.cases {H : Type} {s s' : PagingState H} {op : PagingOp}
    (h : PageTables s.words chunk directory table) (hstep : PagingOpStep chunk s op s') :
    s' = s ∨ ∃ va val, va % 4096 = 0 ∧
      s' = { s with words := Function.update s.words (pageEntry table va) val } := by
  obtain ⟨res, hrun⟩ := hstep
  cases op with
  | call c =>
    by_cases ha : c.Aligned
    · cases (PagingCall.run_aligned h ha).symm.trans hrun
      refine .inr ⟨c.virt, c.value, ?_, rfl⟩
      cases c with
      | set virt val => exact ha
      | map virt phys flags => exact ha.1
    · cases (PagingCall.run_unaligned h ha).symm.trans hrun
      exact .inl rfl
  | mapTo virt phys physEnd flags =>
    rw [PagingOp.run_mapTo h] at hrun
    by_cases hvalid : ValidRange virt phys physEnd
    · cases (pagingMapTo_ok h flags hvalid).symm.trans hrun
      split
      · exact .inl rfl
      · exact .inr ⟨virt, _, hvalid.1, rfl⟩
    · cases (pagingMapTo_refused directory flags hvalid s).symm.trans hrun
      exact .inl rfl

/-- What the calls leave as it was: the tables where they are, and the heap. -/
theorem pagingOps_keep {H : Type} {s s' : PagingState H} {ops : List PagingOp}
    (h : PageTables s.words chunk directory table) (hrun : Run (PagingOpStep chunk) s ops s') :
    PageTables s'.words chunk directory table ∧ s'.heap = s.heap := by
  induction hrun with
  | nil => exact ⟨h, rfl⟩
  | snoc _ hstep ih =>
    obtain ⟨htables, hheap⟩ := ih
    rcases hstep.cases htables with rfl | ⟨va, val, ha, rfl⟩
    · exact ⟨htables, hheap⟩
    · exact ⟨(htables.set ha val).1, hheap⟩

/-! ### Whole ranges -/

/-- Page `i` of a range. -/
def rangePage (start : U32) (i : Nat) : U32 := start + BitVec.ofNat 32 (4096 * i)

/-- `paging_map_to` maps every page of a valid range and keeps the translation of every other page;
what is not a valid range it refuses, and changes nothing. -/
structure MapsRange {H : Type} (chunk : U32) (s : PagingState H) (virt phys physEnd flags : U32) :
    Prop where
  mapped : ValidRange virt phys physEnd →
    ∃ s', (PagingOp.mapTo virt phys physEnd flags).run chunk s = .ok (0, s') ∧
      (∀ i < rangePages phys physEnd, pageWalk s'.words (s'.words chunk) (rangePage virt i) =
        rangePage phys i ||| flags) ∧
      ∀ va, va % 4096 = 0 → (∀ i < rangePages phys physEnd, va ≠ rangePage virt i) →
        pageWalk s'.words (s'.words chunk) va = pageWalk s.words (s.words chunk) va
  refused : ¬ ValidRange virt phys physEnd →
    (PagingOp.mapTo virt phys physEnd flags).run chunk s = .ok (-einvarg, s)

/-- Every page of the range behind the first translates as it is to be mapped. -/
def MappedBehindFirst {H : Type} (chunk : U32) (s : PagingState H)
    (virt phys physEnd flags : U32) : Prop :=
  ∀ i, 1 ≤ i → i < rangePages phys physEnd →
    pageWalk s.words (s.words chunk) (rangePage virt i) = rangePage phys i ||| flags

theorem rangePage_aligned {start : U32} (h : start % 4096 = 0) (i : Nat) :
    rangePage start i % 4096 = 0 := by
  rw [aligned_iff] at h ⊢
  rw [rangePage, BitVec.toNat_add, BitVec.toNat_ofNat]
  omega

theorem rangePage_ne_first {start : U32} {i : Nat} (h₁ : 1 ≤ i) (h₂ : i < 2 ^ 20) :
    rangePage start i ≠ start := by
  intro h
  have hlt := start.isLt
  have hnat := congrArg BitVec.toNat h
  rw [rangePage, BitVec.toNat_add, BitVec.toNat_ofNat] at hnat
  omega

theorem rangePages_lt (phys physEnd : U32) : rangePages phys physEnd < 2 ^ 20 := by
  have := physEnd.isLt
  rw [rangePages]
  omega

theorem rangePage_zero (start : U32) : rangePage start 0 = start := by simp [rangePage]

/-- The translation after a valid range of at least one page. -/
theorem pagingMapTo_walk {H : Type} {s : PagingState H}
    (h : PageTables s.words chunk directory table) {virt phys physEnd : U32} (flags : U32)
    (hvalid : ValidRange virt phys physEnd) :
    ∃ s', (PagingOp.mapTo virt phys physEnd flags).run chunk s = .ok (0, s') ∧
      ∀ va, va % 4096 = 0 → pageWalk s'.words (s'.words chunk) va =
        if va = virt ∧ rangePages phys physEnd ≠ 0 then phys ||| flags
        else pageWalk s.words (s.words chunk) va := by
  refine ⟨_, (PagingOp.run_mapTo h ..).trans (pagingMapTo_ok h flags hvalid), fun va ha => ?_⟩
  by_cases hn : rangePages phys physEnd = 0
  · rw [if_pos hn, if_neg fun hc => hc.2 hn]
  · obtain ⟨htables, hwalk⟩ := h.set hvalid.1 (phys ||| flags)
    rw [if_neg hn]
    dsimp only
    rw [htables.head.2.2, h.head.2.2, hwalk va ha]
    simp only [hn, ne_eq, not_false_eq_true, and_true]

/-- The range is mapped when every page behind the first was, before the call. -/
theorem mapsRange_iff {H : Type} {s : PagingState H} (h : PageTables s.words chunk directory table)
    (virt phys physEnd flags : U32) :
    MapsRange chunk s virt phys physEnd flags ↔
      ¬ ValidRange virt phys physEnd ∨ MappedBehindFirst chunk s virt phys physEnd flags := by
  by_cases hvalid : ValidRange virt phys physEnd
  · obtain ⟨s', hrun, hwalk⟩ := pagingMapTo_walk h flags hvalid
    have hpages := rangePages_lt phys physEnd
    constructor
    · intro hmaps
      refine .inr fun i hi hin => ?_
      obtain ⟨s'', hrun', hmapped, -⟩ := hmaps.mapped hvalid
      cases hrun.symm.trans hrun'
      have hpage := hmapped i hin
      rw [hwalk _ (rangePage_aligned hvalid.1 i),
        if_neg fun hc => rangePage_ne_first hi (by omega) hc.1] at hpage
      exact hpage
    · rintro (hinvalid | hbehind)
      · exact absurd hvalid hinvalid
      · refine ⟨fun _ => ⟨s', hrun, fun i hin => ?_, fun va ha hother => ?_⟩,
          fun hinvalid => absurd hvalid hinvalid⟩
        · rw [hwalk _ (rangePage_aligned hvalid.1 i)]
          rcases Nat.eq_zero_or_pos i with rfl | hi
          · rw [rangePage_zero, rangePage_zero, if_pos ⟨rfl, by omega⟩]
          · rw [if_neg fun hc => rangePage_ne_first hi (by omega) hc.1]
            exact hbehind i hi hin
        · rw [hwalk va ha, if_neg]
          rintro ⟨rfl, hn⟩
          exact hother 0 (Nat.pos_of_ne_zero hn) (rangePage_zero va).symm
  · refine iff_of_true ⟨fun hv => absurd hv hvalid, fun _ => ?_⟩ (.inl hvalid)
    rw [PagingOp.run_mapTo h]
    exact pagingMapTo_refused directory flags hvalid s

/-- **`paging_map_to` covers a range exactly when every page behind the first translates so
already.**  This is after any calls on an address space of `paging_new_4gb`. -/
theorem map_to_covers_iff (buildFlags : U8) {s : PagingState Heap} (hpaged : PagedHeap s.heap)
    (hfree : 1026 ≤ s.heap.freeBlocks.card) :
    ∃ chunk s₀, pagingNew4gb .kheap buildFlags s = .ok (chunk, s₀) ∧
      ∀ ops s', Run (PagingOpStep chunk) s₀ ops s' → ∀ virt phys physEnd flags,
        (MapsRange chunk s' virt phys physEnd flags ↔
          ¬ ValidRange virt phys physEnd ∨ MappedBehindFirst chunk s' virt phys physEnd flags) := by
  obtain ⟨chunk, s₀, directory, table, hnew, htables, -⟩ :=
    pagingNew4gb_spec buildFlags hpaged hfree
  exact ⟨chunk, s₀, hnew, fun ops s' hrun => mapsRange_iff (pagingOps_keep htables hrun).1⟩

/-- Three pages, of which the last two are mapped one at a time before. -/
theorem map_to_covers_threePages :
    ∃ chunk s₀ s₂, pagingNew4gb .kheap 7 ⟨kernelHeap, fun _ => 0⟩ = .ok (chunk, s₀) ∧
      Run (PagingOpStep chunk) s₀
        [.mapTo 0x402000 0x802000 0x803000 3, .mapTo 0x401000 0x801000 0x802000 3] s₂ ∧
      MapsRange chunk s₂ 0x400000 0x800000 0x803000 3 := by
  obtain ⟨chunk, s₀, hnew, hcovers⟩ := map_to_covers_iff 7
    (s := ⟨kernelHeap, fun _ => 0⟩) kernelHeap_paged kernelHeap_room
  obtain ⟨_, _, directory, table, hnew', htables, -⟩ := pagingNew4gb_spec 7
    (s := ⟨kernelHeap, fun _ => 0⟩) kernelHeap_paged kernelHeap_room
  cases hnew.symm.trans hnew'
  obtain ⟨s₁, hrun₁, hwalk₁⟩ := pagingMapTo_walk htables 3
    (show ValidRange 0x402000 0x802000 0x803000 from ⟨rfl, rfl, rfl, by decide⟩)
  obtain ⟨htables₁, -⟩ := pagingOps_keep htables (.one ⟨_, hrun₁⟩)
  obtain ⟨s₂, hrun₂, hwalk₂⟩ := pagingMapTo_walk htables₁ 3
    (show ValidRange 0x401000 0x801000 0x802000 from ⟨rfl, rfl, rfl, by decide⟩)
  have hrun : Run (PagingOpStep chunk) s₀
      [.mapTo 0x402000 0x802000 0x803000 3, .mapTo 0x401000 0x801000 0x802000 3] s₂ :=
    .cons ⟨_, hrun₁⟩ (.one ⟨_, hrun₂⟩)
  refine ⟨chunk, s₀, s₂, hnew, hrun, (hcovers _ s₂ hrun _ _ _ _).mpr (.inr fun i hi hin => ?_)⟩
  have hthree : rangePages 0x800000 0x803000 = 3 := by decide
  obtain rfl | rfl : i = 1 ∨ i = 2 := by omega
  · rw [hwalk₂ _ rfl, if_pos (by decide)]
    rfl
  · rw [hwalk₂ _ rfl, if_neg (by decide), hwalk₁ _ rfl, if_pos (by decide)]
    rfl

/-- **Two pages are to be mapped, and the second is left as it was.** -/
theorem second_page_not_mapped :
    ∃ chunk s₀ s', pagingNew4gb .kheap 7 ⟨kernelHeap, fun _ => 0⟩ = .ok (chunk, s₀) ∧
      (PagingOp.mapTo 0x400000 0x1000000 0x1002000 7).run chunk s₀ = .ok (0, s') ∧
      pageWalk s'.words (s'.words chunk) 0x401000 = 0x401007 ∧
      ¬ MapsRange chunk s₀ 0x400000 0x1000000 0x1002000 7 := by
  obtain ⟨chunk, s₀, directory, table, hnew, htables, hcells⟩ := pagingNew4gb_spec 7
    (s := ⟨kernelHeap, fun _ => 0⟩) kernelHeap_paged kernelHeap_room
  have hfresh : ∀ va, va % 4096 = 0 → pageWalk s₀.words (s₀.words chunk) va = va ||| 7 :=
    fun va ha => htables.head.2.2 ▸ htables.walk_fresh hcells ha
  have hvalid : ValidRange 0x400000 0x1000000 0x1002000 := ⟨rfl, rfl, rfl, by decide⟩
  obtain ⟨s', hrun, hwalk⟩ := pagingMapTo_walk htables 7 hvalid
  refine ⟨chunk, s₀, s', hnew, hrun, ?_, fun hmaps => ?_⟩
  · rw [hwalk _ rfl, if_neg (by decide), hfresh _ rfl]
    rfl
  · rcases (mapsRange_iff htables _ _ _ _).mp hmaps with hinvalid | hbehind
    · exact hinvalid hvalid
    · have hsecond := hbehind 1 le_rfl (by decide)
      rw [hfresh _ rfl] at hsecond
      exact absurd hsecond (by decide)

end KernelNES.Memory
