import KernelNES.Memory.Teardown
import Mathlib.Order.Interval.Finset.Nat

/-!
# Memory — Ownership

Pages and who holds them.  A `PageAllocator` hands out a page that nobody holds and takes back one
that somebody does; `Owns h O` says that the pages `O` are out.  The kernel heap is one
(`kheap_pageAllocator`): it may hand out an address freed before, but none that is out.

`paging_new_4gb` takes the pages of an address space and leaves the memory of all pages that were
out as it was (`pagingNew4gb_take`); `paging_free_4gb` gives them back (`pagingFree4gb_give`).
-/

namespace KernelNES.Memory
open KernelNES.Lib

/-- `alloc` answers requests of at most a page.  `Owns h O`: the pages `O` are out. -/
structure PageAllocator {H : Type} (alloc : Allocator H) (Owns : H → Set U32 → Prop) : Prop where
  take {h h' : H} {O : Set U32} {size p : U32} : Owns h O → size ≠ 0 → size.toNat ≤ 4096 →
    alloc.kzalloc size h = (p, h') → p ≠ 0 → p % 4096 = 0 ∧ p ∉ O ∧ Owns h' (insert p O)
  give {h : H} {O : Set U32} {p : U32} : Owns h O → p ∈ O → Owns (alloc.kfree p h) (O \ {p})

/-- The words of the pages `O` are the same. -/
def SameOn (O : Set U32) (words words' : U32 → U32) : Prop := ∀ a, pageOf a ∈ O → words' a = words a

theorem SameOn.refl (O : Set U32) (words : U32 → U32) : SameOn O words words := fun _ _ => rfl

theorem SameOn.trans {O : Set U32} {w₁ w₂ w₃ : U32 → U32} (h₁ : SameOn O w₁ w₂)
    (h₂ : SameOn O w₂ w₃) : SameOn O w₁ w₃ := fun a ha => (h₂ a ha).trans (h₁ a ha)

theorem SameOn.mono {O O' : Set U32} {words words' : U32 → U32} (h : SameOn O words words')
    (hsub : O' ⊆ O) : SameOn O' words words' := fun a ha => h a (hsub ha)

theorem SameOff.sameOn {O : Set U32} {p : U32} {words words' : U32 → U32}
    (h : SameOff p words words') (hp : p ∉ O) : SameOn O words words' :=
  fun a ha => h a fun he => hp (he ▸ ha)

/-- A word of a page. -/
theorem SameOn.slot {O : Set U32} {p i : U32} {words words' : U32 → U32}
    (h : SameOn O words words') (hp : p ∈ O) (ha : p % 4096 = 0) (hi : i.toNat < 1024) :
    words' (slot p i) = words (slot p i) := h _ (by rwa [pageOf_slot ha hi])

/-! ### The kernel heap -/

/-- Every page of `O` is that of a block taken by itself. -/
structure Heap.OwnsPages (heap : Heap) (O : Set U32) : Prop where
  paged : PagedHeap heap
  total : heap.table.total.toNat ≤ 2 ^ 19
  taken : ∀ p ∈ O, ∃ b < heap.table.total.toNat, heapBlockToAddress heap b = p ∧
    heap.table.entries b = runCode 1 0

/-- A request of at most a page is for one block. -/
theorem blocksFor_page {size : U32} (hpos : size ≠ 0) (hle : size.toNat ≤ 4096) :
    blocksFor size = 1 := by
  have hne : size.toNat ≠ 0 := fun h0 => hpos (BitVec.eq_of_toNat_eq h0)
  refine BitVec.eq_of_toNat_eq ?_
  rw [blocksFor_toNat (by omega)]
  show _ = 1
  omega

/-- A request for one block takes a free one, or fails. -/
theorem heapMalloc_oneOrNone {heap : Heap} {size : U32} (hsize : blocksFor size = 1)
    (ht : heap.table.total.toNat < 2 ^ 31) :
    heapMalloc heap size = (0, heap) ∨ ∃ b ∈ heap.freeBlocks,
      heapMalloc heap size = (heapBlockToAddress heap b, heap.setEntry b (runCode 1 0)) := by
  rcases Nat.eq_zero_or_pos heap.freeBlocks.card with hnone | hsome
  · left
    have htaken : ∀ b < heap.table.total.toNat, ¬ EntryFree (heap.table.entries b) := fun b hb hf =>
      Finset.eq_empty_iff_forall_notMem.mp (Finset.card_eq_zero.mp hnone) b
        (Finset.mem_filter.mpr ⟨Finset.mem_range.mpr hb, hf⟩)
    exact heapMalloc_full (by rw [hsize]; decide) ht htaken
  · exact .inr (heapMalloc_setEntry hsize ht hsome)

/-- A request takes no more blocks than it is for. -/
theorem heapMalloc_freeBlocks (heap : Heap) (size : U32) :
    heap.freeBlocks.card ≤ (heapMalloc heap size).2.freeBlocks.card + (blocksFor size).toNat := by
  rcases heapMalloc_block heap size with h | ⟨b, -, -, h⟩
  · rw [h]
    exact Nat.le_add_right _ _
  rw [h]
  rcases Nat.eq_zero_or_pos (blocksFor size).toNat with hn | hn
  · rw [hn, heapMarkBlocksTaken_zero]
    exact le_rfl
  have hwrote := heapMarkBlocksTaken_wrote heap b hn
  have hsub : heap.freeBlocks ⊆ (heapMarkBlocksTaken heap b (blocksFor size).toNat).freeBlocks ∪
      Finset.Ico b (b + (blocksFor size).toNat) := by
    intro i hi
    obtain ⟨hlt, hfree⟩ := Finset.mem_filter.mp hi
    rw [Finset.mem_union, Finset.mem_Ico, Heap.freeBlocks, Finset.mem_filter, hwrote.total,
      hwrote.entries]
    by_cases hin : b ≤ i ∧ i < b + (blocksFor size).toNat
    · exact .inr hin
    · rw [if_neg (by omega)]
      exact .inl ⟨hlt, hfree⟩
  have hcard := (Finset.card_le_card hsub).trans (Finset.card_union_le _ _)
  rwa [Nat.card_Ico, Nat.add_sub_cancel_left] at hcard

theorem kheap_pageAllocator : PageAllocator .kheap Heap.OwnsPages where
  take {heap heap' O size p} ho hpos hle hrun hp := by
    have hrun : heapMalloc heap size = (p, heap') := hrun
    have htotal : heap.table.total.toNat < 2 ^ 31 := by
      have := ho.total
      omega
    rcases heapMalloc_oneOrNone (blocksFor_page hpos hle) htotal with hfull | ⟨b, hb, htake⟩
    · exact absurd (congrArg Prod.fst (hrun.symm.trans hfull)) hp
    · obtain ⟨rfl, rfl⟩ := Prod.mk.inj (hrun.symm.trans htake)
      obtain ⟨hlt, hfree⟩ := Finset.mem_filter.mp hb
      have hlt := Finset.mem_range.mp hlt
      have hother : ∀ q ∈ O, ∃ b' < heap.table.total.toNat, b' ≠ b ∧
          heapBlockToAddress heap b' = q ∧ heap.table.entries b' = runCode 1 0 := by
        intro q hq
        obtain ⟨b', hlt', haddr, hcode⟩ := ho.taken q hq
        refine ⟨b', hlt', fun he => ?_, haddr, hcode⟩
        rw [← he, hcode] at hfree
        exact runCode_not_free 1 0 hfree
      refine ⟨(ho.paged.address_page hlt).2, fun hmem => ?_, ?_⟩
      · obtain ⟨b', hlt', hne, haddr, -⟩ := hother _ hmem
        exact hne (ho.paged.address_inj hlt' hlt haddr)
      · refine ⟨⟨ho.paged.aligned, ho.paged.pos, ho.paged.fits⟩, ho.total, fun q hq => ?_⟩
        rcases hq with rfl | hq
        · exact ⟨b, hlt, rfl, by rw [Heap.setEntry_entries, if_pos rfl]⟩
        · obtain ⟨b', hlt', hne, haddr, hcode⟩ := hother q hq
          exact ⟨b', hlt', haddr, by rw [Heap.setEntry_entries, if_neg (by omega), hcode]⟩
  give {heap O p} ho hp := by
    obtain ⟨b, hlt, rfl, hcode⟩ := ho.taken p hp
    have hfree : Allocator.kheap.kfree (heapBlockToAddress heap b) heap = _ :=
      heapFree_one ho.total hlt hcode
    rw [hfree]
    refine ⟨⟨ho.paged.aligned, ho.paged.pos, ho.paged.fits⟩, ho.total, fun q hq => ?_⟩
    obtain ⟨b', hlt', haddr, hcode'⟩ := ho.taken q hq.1
    have hne : b' ≠ b := fun he => hq.2 (by rw [← haddr, he]; rfl)
    exact ⟨b', hlt', haddr, by rw [Heap.setEntry_entries, if_neg (by omega), hcode']⟩

/-! ### Taking pages -/

section
variable {H : Type} {alloc : Allocator H} {Owns : H → Set U32 → Prop} {s s' : PagingState H}
  {O : Set U32}

/-- The pages `ps` were handed out one after the other, and memory is as it was in the pages `K`. -/
structure TookPages (Owns : H → Set U32 → Prop) (O K : Set U32) (s : PagingState H) (ps : List U32)
    (s' : PagingState H) : Prop where
  owns : Owns s'.heap (O ∪ {p | p ∈ ps})
  nodup : ps.Nodup
  fresh : ∀ p ∈ ps, p ≠ 0 ∧ p % 4096 = 0 ∧ p ∉ O
  words : SameOn K s.words s'.words

theorem union_one (O : Set U32) (p : U32) : O ∪ {q | q ∈ [p]} = insert p O := by
  ext q
  simp [or_comm]

theorem union_append (O : Set U32) (ps qs : List U32) :
    O ∪ {p | p ∈ ps ++ qs} = O ∪ {p | p ∈ ps} ∪ {p | p ∈ qs} := by
  ext p
  simp [or_assoc]

/-- The pages of one part, and of the next. -/
theorem TookPages.trans {K : Set U32} {s₁ : PagingState H} {ps qs : List U32}
    (h₁ : TookPages Owns O K s ps s₁)
    (h₂ : TookPages Owns (O ∪ {p | p ∈ ps}) K s₁ qs s') : TookPages Owns O K s (ps ++ qs) s' := by
  refine ⟨?_, List.nodup_append.mpr ⟨h₁.nodup, h₂.nodup, ?_⟩, fun p hp => ?_,
    h₁.words.trans h₂.words⟩
  · rw [union_append]
    exact h₂.owns
  · rintro p hp q hq rfl
    exact (h₂.fresh p hq).2.2 (.inr hp)
  · rcases List.mem_append.mp hp with hp | hp
    · exact h₁.fresh p hp
    · obtain ⟨h0, ha, hout⟩ := h₂.fresh p hp
      exact ⟨h0, ha, fun hO => hout (.inl hO)⟩

/-- An allocation of at most a page takes one. -/
theorem kzallocWords_take (halloc : PageAllocator alloc Owns) (ho : Owns s.heap O) {size p : U32}
    (hsize : size ≠ 0) (hle : size.toNat ≤ 4096) (hrun : kzallocWords alloc size s = .ok (p, s'))
    (hp : p ≠ 0) : TookPages Owns O O s [p] s' := by
  obtain ⟨rfl, rfl⟩ := Prod.mk.inj (Except.ok.inj hrun)
  obtain ⟨ha, hout, howns⟩ := halloc.take ho hsize hle rfl hp
  refine ⟨?_, List.nodup_singleton _, fun q hq => ?_, fun a hO => if_neg fun hin => hout ?_⟩
  · rw [union_one]
    exact howns
  · rw [List.mem_singleton.mp hq]
    exact ⟨hp, ha, hout⟩
  · rwa [pageOf_of_sub_lt ha (by omega)] at hO

theorem storeWord_eq_ok {ptr i val : U32} (h : storeWord ptr i val s = .ok ((), s')) :
    ptr ≠ 0 ∧ s' = { s with words := Function.update s.words (slot ptr i) val } := by
  by_cases h0 : ptr = 0
  · rw [storeWord, if_pos h0] at h
    cases h
  · rw [storeWord_ok h0] at h
    cases h
    exact ⟨h0, rfl⟩

theorem loadWord_eq_ok {ptr i val : U32} (h : loadWord ptr i s = .ok (val, s')) :
    ptr ≠ 0 ∧ val = s.words (slot ptr i) ∧ s' = s := by
  by_cases h0 : ptr = 0
  · rw [loadWord, if_pos h0] at h
    cases h
  · rw [loadWord_ok h0] at h
    cases h
    exact ⟨h0, rfl, rfl⟩

/-- The tables that are left to build are new pages, and the directory leads to them. -/
theorem pagingNewTables_take (halloc : PageAllocator alloc Owns) {directory offset : U32}
    (flags : U8) (hd : directory % 4096 = 0) (m n : Nat) (hn : n + m ≤ 1024)
    (hdO : directory ∈ O) (ho : Owns s.heap O)
    (hrun : pagingNewTables alloc directory flags m n offset s = .ok ((), s')) :
    ∃ ts : List U32, ts.length = m ∧ TookPages Owns O (O \ {directory}) s ts s' ∧
      (∀ k < n, s'.words (slot directory (BitVec.ofNat 32 k)) =
        s.words (slot directory (BitVec.ofNat 32 k))) ∧
      ∀ k (hk : k < ts.length),
        pageOf (s'.words (slot directory (BitVec.ofNat 32 (n + k)))) = ts[k] := by
  induction m generalizing n offset s O with
  | zero =>
    cases hrun
    refine ⟨[], rfl, ⟨?_, .nil, nofun, .refl _ _⟩, fun _ _ => rfl, nofun⟩
    simpa using ho
  | succ m ih =>
    rw [pagingNewTables] at hrun
    obtain ⟨entry, s₁, halloc₁, hfilled⟩ := Exec.bind_eq_ok.mp hrun
    obtain ⟨_, s₂, hfill, hstored⟩ := Exec.bind_eq_ok.mp hfilled
    obtain ⟨_, s₃, hstore, hrest⟩ := Exec.bind_eq_ok.mp hstored
    have hentry : entry ≠ 0 := by
      rw [pagingTotalEntriesPerTable, pagingFillTable] at hfill
      obtain ⟨_, _, hfirst, -⟩ := Exec.bind_eq_ok.mp hfill
      exact (storeWord_eq_ok hfirst).1
    have htook := kzallocWords_take halloc ho (by decide) (by decide) halloc₁ hentry
    obtain ⟨-, ha, hout⟩ := htook.fresh entry (List.mem_singleton_self _)
    have hde : directory ≠ entry := fun he => hout (he ▸ hdO)
    obtain ⟨words, hfill', hsame, -⟩ :=
      pagingFillTable_spec offset flags hentry ha 1024 0 le_rfl s₁
    cases hfill.symm.trans hfill'
    obtain ⟨-, hs₃⟩ := storeWord_eq_ok hstore
    have hwords : s₃.words = Function.update words (slot directory (BitVec.ofNat 32 n))
        (entry ||| flags.setWidth 32 ||| pagingIsWriteable) := by rw [hs₃]
    have howns : Owns s₃.heap (O ∪ {p | p ∈ [entry]}) := by rw [hs₃]; exact htook.owns
    obtain ⟨ts, hlen, htook', hkept, hentries⟩ :=
      ih (n + 1) (by omega) (.inl hdO) howns hrest
    -- up to here the directory has changed in the entry of the new table
    have hbefore : ∀ k < 1024, k ≠ n → s₃.words (slot directory (BitVec.ofNat 32 k)) =
        s.words (slot directory (BitVec.ofNat 32 k)) := fun k hk hne => by
      rw [hwords, Function.update_of_ne (slot_ne hd hd hk (by omega) (.inr hne)),
        hsame.entry hd hde hk]
      exact htook.words.slot hdO hd (by rwa [index_toNat hk])
    have hsame₁ : TookPages Owns O (O \ {directory}) s [entry] s₃ := by
      refine ⟨howns, htook.nodup, htook.fresh, fun a hO => ?_⟩
      rw [hwords, SameOff.update hd (by omega) _ _ a hO.2, hsame.sameOn hout a hO.1]
      exact htook.words a hO.1
    have hsame₂ : TookPages Owns (O ∪ {p | p ∈ [entry]}) (O \ {directory}) s₃ ts s' :=
      ⟨htook'.owns, htook'.nodup, htook'.fresh, htook'.words.mono fun p hp => ⟨.inl hp.1, hp.2⟩⟩
    refine ⟨entry :: ts, by rw [List.length_cons, hlen], hsame₁.trans hsame₂, fun k hk => ?_,
      fun k hk => ?_⟩
    · exact (hkept k (by omega)).trans (hbefore k (by omega) (by omega))
    · cases k with
      | zero =>
        have hlast := hkept n (Nat.lt_succ_self n)
        rw [hwords, Function.update_self, BitVec.or_assoc] at hlast
        rw [Nat.add_zero, hlast]
        exact pageOf_flags ha (flagsOfEntry_lt flags)
      | succ k =>
        have hnext := hentries k (Nat.lt_of_succ_lt_succ hk)
        rwa [Nat.add_assoc, Nat.add_comm 1 k] at hnext

/-- The pages of an address space, in the order in which `paging_free_4gb` gives them back. -/
def spacePages (chunk directory : U32) (table : Nat → U32) : List U32 :=
  (List.range' 0 1024).map table ++ [directory, chunk]

theorem table_mem_spacePages (chunk directory : U32) (table : Nat → U32) {i : Nat} (hi : i < 1024) :
    table i ∈ spacePages chunk directory table := by
  rw [spacePages, List.mem_append, List.mem_map]
  exact .inl ⟨i, List.mem_range'_1.mpr ⟨Nat.zero_le i, by omega⟩, rfl⟩

/-- The pages of an address space are those of blocks that were free. -/
theorem SpaceBlocks.not_mem {heap : Heap} {chunk directory p : U32} {table : Nat → U32}
    {d c : Nat} {ts : List Nat} (h : SpaceBlocks heap chunk directory table d ts c)
    (hfree : ∀ b ∈ d :: (ts ++ [c]), b ∈ heap.freeBlocks) (hp : heap.Took p) :
    p ∉ spacePages chunk directory table := by
  rw [spacePages, h.tables, h.directory, h.chunk]
  intro hmem
  simp only [List.mem_append, List.mem_map, List.mem_cons, List.not_mem_nil, or_false] at hmem
  rcases hmem with ⟨b, hb, he⟩ | he | he
  · exact hp b (hfree b (by simp [hb])) he
  · exact hp d (hfree d (by simp)) he.symm
  · exact hp c (hfree c (by simp)) he.symm

/-- An address space is made of pages that were not out. -/
theorem pagingNew4gb_take (halloc : PageAllocator alloc Owns) {flags : U8} {chunk : U32}
    (ho : Owns s.heap O) (hrun : pagingNew4gb alloc flags s = .ok (chunk, s')) :
    ∃ directory table, PageTables s'.words chunk directory table ∧
      ∃ ps, ps.Perm (spacePages chunk directory table) ∧ TookPages Owns O O s ps s' := by
  rw [pagingNew4gb] at hrun
  obtain ⟨directory, s₁, halloc₁, hrun⟩ := Exec.bind_eq_ok.mp hrun
  obtain ⟨_, s₂, htables, hrun⟩ := Exec.bind_eq_ok.mp hrun
  obtain ⟨chunk', s₃, halloc₃, hrun⟩ := Exec.bind_eq_ok.mp hrun
  obtain ⟨_, s₄, hstore, hrun⟩ := Exec.bind_eq_ok.mp hrun
  cases hrun
  obtain ⟨hchunk, hs'⟩ := storeWord_eq_ok hstore
  have hdirectory : directory ≠ 0 := by
    rw [pagingTotalEntriesPerTable, pagingNewTables] at htables
    obtain ⟨_, _, -, htables⟩ := Exec.bind_eq_ok.mp htables
    obtain ⟨_, _, -, htables⟩ := Exec.bind_eq_ok.mp htables
    obtain ⟨_, _, hstore, -⟩ := Exec.bind_eq_ok.mp htables
    exact (storeWord_eq_ok hstore).1
  have htook₁ := kzallocWords_take halloc ho (by decide) (by decide) halloc₁ hdirectory
  obtain ⟨-, hd, hdout⟩ := htook₁.fresh directory (List.mem_singleton_self _)
  obtain ⟨ts, hlen, htook₂, -, hentries⟩ := pagingNewTables_take halloc flags hd 1024 0 le_rfl
    (.inr (List.mem_singleton_self _)) htook₁.owns htables
  have htook₃ := kzallocWords_take halloc htook₂.owns (by decide) (by decide) halloc₃ hchunk
  obtain ⟨-, hc, hcout⟩ := htook₃.fresh chunk (List.mem_singleton_self _)
  obtain ⟨table, hget⟩ : ∃ table : Nat → U32, ∀ k (hk : k < ts.length), table k = ts[k] :=
    ⟨fun k => ts[k]?.getD 0, fun k hk => by simp [hk]⟩
  have hmem : ∀ k < 1024, table k ∈ ts := fun k hk => by
    rw [hget k (by omega)]
    exact List.getElem_mem _
  have hmap : (List.range' 0 1024).map table = ts := by
    refine List.ext_getElem (by simp [hlen]) fun k hk hk' => ?_
    rw [List.getElem_map, List.getElem_range', Nat.one_mul, Nat.zero_add, hget k hk']
  -- the chunk's page is none of the others, so that its word changes none of theirs
  have hdc : directory ≠ chunk := fun he => hcout (.inl (.inr (by simp [he])))
  have hstored : SameOff chunk s₃.words s'.words := by
    rw [hs']
    exact SameOff.update (i := 0) hc (by decide) _ _
  have hO : chunk ∉ O := fun hO => hcout (.inl (.inl hO))
  refine ⟨directory, table, ⟨⟨hchunk, hc, ?_⟩, ⟨hdirectory, hd⟩, fun k hk => ?_, fun k hk => ?_,
    fun k hk => ⟨?_, ?_⟩, fun k hk l hl he => ?_⟩, [directory] ++ ts ++ [chunk], ?_, ?_⟩
  · rw [hs', slot_zero]
    exact Function.update_self _ _ _
  · rw [hstored.entry hd hdc hk,
      htook₃.words.slot (.inl (.inr (List.mem_singleton_self _))) hd (by rwa [index_toNat hk]),
      hget k (by omega)]
    have hentry := hentries k (by omega)
    rwa [Nat.zero_add] at hentry
  · obtain ⟨h0, ha, -⟩ := htook₂.fresh _ (hmem k hk)
    exact ⟨h0, ha⟩
  · exact fun he => (htook₂.fresh _ (hmem k hk)).2.2 (.inr (by simp [he]))
  · exact fun he => hcout (.inr (he ▸ hmem k hk))
  · rw [hget k (by omega), hget l (by omega)] at he
    exact (htook₂.nodup.getElem_inj_iff).mp he
  · rw [spacePages, hmap, List.append_assoc]
    have hmiddle : (ts ++ directory :: [chunk]).Perm (directory :: (ts ++ [chunk])) :=
      List.perm_middle
    exact hmiddle.symm
  · have h₁₂ : TookPages Owns O O s ([directory] ++ ts) s₂ := htook₁.trans
      ⟨htook₂.owns, htook₂.nodup, htook₂.fresh, htook₂.words.mono fun p hp =>
        ⟨.inl hp, fun he => hdout (he ▸ hp)⟩⟩
    refine h₁₂.trans ?_
    rw [union_append]
    refine ⟨?_, htook₃.nodup, htook₃.fresh,
      (htook₃.words.mono fun p hp => .inl (.inl hp)).trans (hstored.sameOn hO)⟩
    rw [hs']
    exact htook₃.owns

/-! ### Giving them back -/

/-- Freeing pages gives them back. -/
theorem kfreeAll_give {heap : H} (halloc : PageAllocator alloc Owns) {ps : List U32}
    (hnodup : ps.Nodup) (ho : Owns heap O) (hps : ∀ p ∈ ps, p ∈ O) :
    Owns (kfreeAll alloc ps heap) (O \ {p | p ∈ ps}) := by
  induction ps generalizing heap O with
  | nil => simpa [kfreeAll] using ho
  | cons p ps ih =>
    obtain ⟨hp, hnodup⟩ := List.nodup_cons.mp hnodup
    have hrest := ih (O := O \ {p}) hnodup (halloc.give ho (hps p List.mem_cons_self)) fun q hq =>
      ⟨hps q (List.mem_cons_of_mem p hq), fun he => hp (he ▸ hq)⟩
    have hdiff : O \ {q | q ∈ p :: ps} = (O \ {p}) \ {q | q ∈ ps} := by
      ext q
      simp [and_assoc]
    rw [hdiff]
    exact hrest

/-- The pages of an address space are given back, and memory stays as it is. -/
theorem pagingFree4gb_give (halloc : PageAllocator alloc Owns) {chunk directory : U32}
    {table : Nat → U32} (htables : PageTables s.words chunk directory table)
    (hnodup : (spacePages chunk directory table).Nodup) (ho : Owns s.heap O)
    (hps : ∀ p ∈ spacePages chunk directory table, p ∈ O) :
    ∃ heap, pagingFree4gb alloc chunk s = .ok ((), { s with heap }) ∧
      Owns heap (O \ {p | p ∈ spacePages chunk directory table}) :=
  ⟨_, pagingFree4gb_eq htables, kfreeAll_give halloc hnodup ho hps⟩

end

end KernelNES.Memory
