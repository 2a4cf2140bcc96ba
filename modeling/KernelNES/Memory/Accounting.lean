import KernelNES.Memory.ZeroBlocks

/-!
# Memory — Accounting

Histories in which every `heap_malloc` needs at least one block and finds a free run, from a table
made by `heap_create`.  The runs of the table are then the live allocations, one for one; a call
changes the entries of its own run and no other (`ExactStep`).  The one exception is a `heap_free`
2 GiB or more above `saddr`, whose block is computed through `int` (`accounting_exact_iff`).
-/

namespace KernelNES.Memory
open KernelNES.Lib

/-! ### Runs of a table -/

/-- Blocks `b, …, b + n - 1` are an allocated run. -/
def IsRun (table : HeapTable) (b n : Nat) : Prop :=
  0 < n ∧ b + n ≤ table.total.toNat ∧ Coded table b n

theorem runCode_isFirst (n j : Nat) : runCode n j &&& heapBlockIsFirst = 0 ↔ j ≠ 0 := by
  unfold runCode
  split <;> split <;> simp_all <;> decide

theorem runCode_ne_free (n j : Nat) : runCode n j ≠ heapBlockTableEntryFree :=
  fun h => runCode_not_free n j (h ▸ by decide)

/-- An entry of a coded run. -/
theorem Coded.entry {table : HeapTable} {b n i : Nat} (h : Coded table b n) (h₁ : b ≤ i)
    (h₂ : i < b + n) : table.entries i = runCode n (i - b) := by
  have e := h (i - b) (by omega)
  rwa [Nat.add_sub_cancel' h₁] at e

/-- Only the first block of a run is marked as the first. -/
theorem Coded.start_le {table : HeapTable} {b b' n n' i : Nat} (h : Coded table b n)
    (h' : Coded table b' n') (hi : b ≤ i ∧ i < b + n) (hi' : b' ≤ i ∧ i < b' + n') : b' ≤ b := by
  by_contra hlt
  have e := h.entry (i := b') (by omega) (by omega)
  rw [h'.entry le_rfl (by omega), Nat.sub_self] at e
  have hfirst := (runCode_isFirst n (b' - b)).mpr (by omega)
  rw [← e] at hfirst
  exact (runCode_isFirst n' 0).mp hfirst rfl

/-- Only the last block of a run has none next. -/
theorem Coded.length_le {table : HeapTable} {b n n' : Nat} (h : Coded table b n)
    (h' : Coded table b n') (hn : 0 < n) : n' ≤ n := by
  by_contra hlt
  have e := h.entry (i := b + n - 1) (by omega) (by omega)
  rw [h'.entry (by omega) (by omega)] at e
  have hlast := (runCode_hasNext n (b + n - 1 - b)).mpr (by omega)
  rw [← e] at hlast
  exact (runCode_hasNext n' _).mp hlast (by omega)

/-- A block is in one run. -/
theorem Coded.unique {table : HeapTable} {b b' n n' i : Nat} (h : Coded table b n)
    (h' : Coded table b' n') (hi : b ≤ i ∧ i < b + n) (hi' : b' ≤ i ∧ i < b' + n') :
    b = b' ∧ n = n' := by
  obtain rfl : b = b' := Nat.le_antisymm (h'.start_le h hi' hi) (h.start_le h' hi hi')
  exact ⟨rfl, Nat.le_antisymm (h'.length_le h (by omega)) (h.length_le h' (by omega))⟩

/-! ### What is promised -/

/-- The table is well formed, and its runs are the live allocations. -/
structure Accounted (st : HeapState) : Prop where
  wellFormed : ∀ i < st.heap.table.total.toNat,
    st.heap.table.entries i = heapBlockTableEntryFree ∨
      ∃! r : Nat × Nat, IsRun st.heap.table r.1 r.2 ∧ r.1 ≤ i ∧ i < r.1 + r.2
  runs : ∀ b n, IsRun st.heap.table b n ↔
    ∃ a ∈ st.live, st.heap.offset a = 4096 * b ∧ (blocksFor a.size).toNat = n
  distinct : st.live.Pairwise fun a a' => a.ptr ≠ a'.ptr

/-- `heap'` has the codes `f` in the `n` entries from `b` on, and is `heap` elsewhere. -/
structure Changed (heap heap' : Heap) (b n : Nat) (f : Nat → HeapBlockTableEntry) : Prop where
  saddr : heap'.saddr = heap.saddr
  total : heap'.table.total = heap.table.total
  entries : ∀ k : Int, heap'.table.entries k =
    if (b : Int) ≤ k ∧ k < b + n then f (k - b).toNat else heap.table.entries k

/-- `heap_malloc` that needs blocks and finds a free run, or `heap_free` of a live pointer. -/
inductive FitStep : HeapState → HeapOp → HeapState → Prop where
  | malloc {st : HeapState} {size : U32} (hn : blocksFor size ≠ 0)
      (hfit : FindsRun st.heap size) :
      FitStep st (.malloc size)
        ⟨(heapMalloc st.heap size).2, ⟨(heapMalloc st.heap size).1, size⟩ :: st.live⟩
  | free {st : HeapState} {a : Allocation} (h : a ∈ st.live) :
      FitStep st (.free a.ptr) ⟨heapFree st.heap a.ptr, st.live.erase a⟩

/-- A request that finds a run is met. -/
theorem FitStep.malloc_eq {heap heap' : Heap} {live : List Allocation} {size ptr : U32}
    (hn : blocksFor size ≠ 0) (hfit : FindsRun heap size)
    (h : heapMalloc heap size = (ptr, heap')) :
    FitStep ⟨heap, live⟩ (.malloc size) ⟨heap', ⟨ptr, size⟩ :: live⟩ := by
  have hstep : FitStep ⟨heap, live⟩ (.malloc size)
      ⟨(heapMalloc heap size).2, ⟨(heapMalloc heap size).1, size⟩ :: live⟩ := .malloc hn hfit
  rwa [h] at hstep

/-- The effect a call has: `heap_malloc` takes the lowest free run of the length it needs,
`heap_free` clears the run of its allocation. -/
def Effect (st : HeapState) : HeapOp → HeapState → Prop
  | .malloc size, st' => ∃ b, FreeRun st.heap.table b (blocksFor size).toNat ∧
      (∀ b' < b, ¬ FreeRun st.heap.table b' (blocksFor size).toNat) ∧
      (heapMalloc st.heap size).1 = heapBlockToAddress st.heap b ∧
      Changed st.heap st'.heap b (blocksFor size).toNat (runCode (blocksFor size).toNat)
  | .free ptr, st' => ∃ a ∈ st.live, a.ptr = ptr ∧ ∃ b, st.heap.offset a = 4096 * b ∧
      Changed st.heap st'.heap b (blocksFor a.size).toNat fun _ => heapBlockTableEntryFree

/-- A call with its effect, after which the table accounts for the live allocations. -/
def ExactStep (st : HeapState) (op : HeapOp) (st' : HeapState) : Prop :=
  FitStep st op st' ∧ Effect st op st' ∧ Accounted st'

/-- The pointer that is freed lies less than 2 GiB above `saddr`. -/
def Near (st : HeapState) : HeapOp → Prop
  | .malloc _ => True
  | .free ptr => (ptr - st.heap.saddr).toNat < 2 ^ 31

/-! ### The invariant -/

/-- The live allocations hold their runs, and every other entry is free. -/
structure Accounts (st : HeapState) : Prop where
  inv : HeapInv st
  covered : ∀ i < st.heap.table.total.toNat,
    st.heap.table.entries i = heapBlockTableEntryFree ∨
      ∃ a ∈ st.live, ∃ b, Holds st.heap a b ∧ b ≤ i ∧ i < b + (blocksFor a.size).toNat

/-- What an allocation holds is a run of its size. -/
theorem Holds.isRun {heap : Heap} {a : Allocation} {b : Nat} (h : Holds heap a b) :
    IsRun heap.table b (blocksFor a.size).toNat :=
  ⟨h.pos, h.inside, h.coded⟩

theorem Accounts.accounted {st : HeapState} (h : Accounts st) : Accounted st := by
  refine ⟨fun i hi => ?_, fun b n => ⟨fun hrun => ?_, ?_⟩, h.inv.apart.imp_of_mem ?_⟩
  · refine (h.covered i hi).imp_right ?_
    rintro ⟨a, -, b, hb, h₁, h₂⟩
    refine ⟨(b, (blocksFor a.size).toNat), ⟨hb.isRun, h₁, h₂⟩, ?_⟩
    rintro ⟨b', n'⟩ ⟨hrun', h₁', h₂'⟩
    obtain ⟨rfl, rfl⟩ := hrun'.2.2.unique hb.coded ⟨h₁', h₂'⟩ ⟨h₁, h₂⟩
    rfl
  · obtain ⟨hn, hin, hcoded⟩ := hrun
    rcases h.covered b (by omega) with hfree | ⟨a, ha, b', hb', h₁, h₂⟩
    · exact absurd hfree (hcoded.entry le_rfl (by omega) ▸ runCode_ne_free n _)
    · obtain ⟨rfl, rfl⟩ := hcoded.unique hb'.coded ⟨le_rfl, by omega⟩ ⟨h₁, h₂⟩
      exact ⟨a, ha, hb'.offset, rfl⟩
  · rintro ⟨a, ha, hoffset, rfl⟩
    obtain ⟨b', hb'⟩ := h.inv.holds a ha
    obtain rfl : b = b' := by have := hb'.offset; omega
    exact hb'.isRun
  · intro a a' ha ha' hapart heq
    obtain ⟨b, hb⟩ := h.inv.holds a ha
    obtain ⟨b', hb'⟩ := h.inv.holds a' ha'
    have hblocks := hapart.blocks hb hb'
    have hsame : st.heap.offset a = st.heap.offset a' := by rw [Heap.offset, heq]; rfl
    have h₁ := hb.offset
    have h₂ := hb'.offset
    have h₃ := hb.pos
    have h₄ := hb'.pos
    omega

/-- A fresh table is free. -/
theorem heapCreate_entries {ptr end' : U32} {table : HeapTable} {heap : Heap}
    (h : heapCreate ptr end' table = (0, some heap)) {i : Nat}
    (hi : i < heap.table.total.toNat) : heap.table.entries i = heapBlockTableEntryFree := by
  unfold heapCreate at h
  split at h
  · cases h
  · dsimp only at h
    split at h
    · nomatch (Prod.mk.inj h).2
    · cases Option.some.inj (Prod.mk.inj h).2
      exact if_pos ⟨by omega, by exact_mod_cast hi⟩

/-- A fresh heap accounts for itself. -/
theorem heapCreate_accounts {ptr end' : U32} {table : HeapTable} {heap : Heap}
    (h : heapCreate ptr end' table = (0, some heap)) : Accounts ⟨heap, []⟩ :=
  ⟨heapCreate_inv h, fun _ hi => .inl (heapCreate_entries h hi)⟩

/-! ### One call -/

theorem Wrote.changed {heap heap' : Heap} {b n : Nat} {f : Nat → HeapBlockTableEntry}
    (h : Wrote heap heap' b (b + n : Nat) fun k => f (k - b).toNat) : Changed heap heap' b n f :=
  ⟨h.saddr, h.total, fun k => by rw [h.entries, Nat.cast_add]⟩

/-- The sizes that round up to some blocks. -/
theorem size_of_blocksFor {size : U32} (hn : blocksFor size ≠ 0) :
    1 ≤ size.toNat ∧ size.toNat ≤ 0xFFFFF000 := by
  rw [ne_eq, blocksFor_eq_zero_iff, not_or] at hn
  obtain ⟨hne, hle⟩ := hn
  refine ⟨Nat.pos_of_ne_zero fun h0 => hne (BitVec.eq_of_toNat_eq h0), by omega⟩

/-- A `heap_malloc` that finds a free run takes the lowest. -/
theorem Accounts.malloc {st : HeapState} (h : Accounts st) {size : U32}
    (hn : blocksFor size ≠ 0) (hfit : FindsRun st.heap size) :
    let st' : HeapState :=
      ⟨(heapMalloc st.heap size).2, ⟨(heapMalloc st.heap size).1, size⟩ :: st.live⟩
    Effect st (.malloc size) st' ∧ Accounts st' := by
  obtain ⟨h₁, h₂⟩ := size_of_blocksFor hn
  have ht := h.inv.total
  obtain ⟨b, hrun, hmin, hmalloc⟩ := heapMalloc_lowest (by omega) hn hfit
  have hpos := blocksFor_pos h₁ h₂
  have hw := heapMarkBlocksTaken_wrote st.heap b hpos
  have hinv := (h.inv.take h₁ h₂ hrun).2
  have hb := hrun.1
  rw [hmalloc]
  refine ⟨⟨b, hrun, hmin, by rw [hmalloc], hw.changed⟩, hinv, fun i hi => ?_⟩
  by_cases hin : b ≤ i ∧ i < b + (blocksFor size).toNat
  · -- a block of the new run
    obtain ⟨b', hb'⟩ := hinv.holds _ List.mem_cons_self
    have hoffset : 4096 * b = 4096 * b' := by
      rw [← hb'.offset, Heap.offset, hw.saddr]
      exact (heapBlockToAddress_offset st.heap (by omega)).symm
    obtain rfl : b = b' := by omega
    exact .inr ⟨_, List.mem_cons_self, b, hb', hin⟩
  · have hsame : (heapMarkBlocksTaken st.heap b (blocksFor size).toNat).table.entries i =
        st.heap.table.entries i := by rw [hw.entries, if_neg (by omega)]
    rw [show (heapMarkBlocksTaken st.heap b (blocksFor size).toNat).table.total =
      st.heap.table.total from hw.total] at hi
    refine (h.covered i hi).imp hsame.trans ?_
    rintro ⟨a, ha, b', hb', hi'⟩
    exact ⟨a, List.mem_cons_of_mem _ ha, b', hb'.frame hw (hb'.apart_freeRun hrun hpos), hi'⟩

/-- A `heap_free` below 2 GiB clears the run of its allocation. -/
theorem Accounts.free {st : HeapState} (h : Accounts st) {a : Allocation} (ha : a ∈ st.live)
    (hnear : Near st (.free a.ptr)) :
    ∃ b, Holds st.heap a b ∧
      Changed st.heap (heapFree st.heap a.ptr) b (blocksFor a.size).toNat
        (fun _ => heapBlockTableEntryFree) ∧
      Accounts ⟨heapFree st.heap a.ptr, st.live.erase a⟩ := by
  obtain ⟨b, hb⟩ := h.inv.holds a ha
  have hinv := h.inv.release ha hnear
  have ht := h.inv.total
  have hw : Wrote st.heap (heapFree st.heap a.ptr) b (b + (blocksFor a.size).toNat : Nat)
      (fun _ => heapBlockTableEntryFree) := by
    rw [heapFree, heapAddressToBlock_eq hb.offset hnear]
    exact heapMarkBlocksFree_wrote hb.pos hb.inside (by omega) hb.coded
  refine ⟨b, hb, hw.changed, hinv, fun i hi => ?_⟩
  by_cases hin : b ≤ i ∧ i < b + (blocksFor a.size).toNat
  · exact .inl (by rw [hw.entries, if_pos (by omega)])
  · have hsame : (heapFree st.heap a.ptr).table.entries i = st.heap.table.entries i := by
      rw [hw.entries, if_neg (by omega)]
    rw [show (heapFree st.heap a.ptr).table.total = st.heap.table.total from hw.total] at hi
    refine (h.covered i hi).imp hsame.trans ?_
    rintro ⟨a', ha', b', hb', hi'⟩
    -- another allocation's block, since it is not one of this run
    have hne : a' ≠ a := by
      rintro rfl
      obtain rfl : b = b' := by have := hb.offset; have := hb'.offset; omega
      exact hin hi'
    have hmem := (List.mem_erase_of_ne hne).mpr ha'
    obtain ⟨b'', hb''⟩ := hinv.holds a' hmem
    obtain rfl : b' = b'' := by
      have h₁ := hb'.offset
      have h₂ := hb''.offset
      rw [Heap.offset, hw.saddr] at h₂
      rw [Heap.offset] at h₁
      omega
    exact ⟨a', hmem, b', hb'', hi'⟩

/-- A call near enough has its effect, and keeps the accounts. -/
theorem Accounts.step {st st' : HeapState} {op : HeapOp} (h : Accounts st)
    (hstep : Meeting Near FitStep st op st') : Effect st op st' ∧ Accounts st' := by
  obtain ⟨hnear, hstep⟩ := hstep
  cases hstep with
  | malloc hn hfit => exact h.malloc hn hfit
  | @free a ha =>
    obtain ⟨b, hb, hchanged, hafter⟩ := h.free ha hnear
    exact ⟨⟨a, ha, rfl, b, hb.offset, hchanged⟩, hafter⟩

/-! ### A release 2 GiB above `saddr` -/

theorem heapMarkBlocksFreeLoop_below (n : Nat) {i k : Int} (hk : k < i) (heap : Heap) :
    (heapMarkBlocksFreeLoop n i heap).table.entries k = heap.table.entries k := by
  induction n generalizing i heap with
  | zero => rfl
  | succ n ih =>
    have hset : (heap.setEntry i heapBlockTableEntryFree).table.entries k =
        heap.table.entries k := by rw [Heap.setEntry_entries, if_neg (by omega)]
    rw [heapMarkBlocksFreeLoop]
    split
    · exact hset
    · exact (ih (by omega) _).trans hset

/-- Freeing a free block changes nothing. -/
theorem heapMarkBlocksFreeLoop_of_free (n : Nat) {i : Int} {heap : Heap}
    (hfree : heap.table.entries i = heapBlockTableEntryFree) :
    (heapMarkBlocksFreeLoop (n + 1) i heap).table.entries = heap.table.entries := by
  rw [heapMarkBlocksFreeLoop, if_pos (by rw [hfree]; decide)]
  funext k
  rw [Heap.setEntry_entries]
  split
  · rename_i hk
    rw [hk, hfree]
  · rfl

/-- Started at a free entry the loop changes nothing; else it changes that entry. -/
theorem heapMarkBlocksFreeLoop_at (n : Nat) (i : Int) (heap : Heap) :
    (heapMarkBlocksFreeLoop (n + 1) i heap).table.entries = heap.table.entries ∨
      (heapMarkBlocksFreeLoop (n + 1) i heap).table.entries i ≠ heap.table.entries i := by
  by_cases hfree : heap.table.entries i = heapBlockTableEntryFree
  · exact .inl (heapMarkBlocksFreeLoop_of_free n hfree)
  · right
    have hset : (heap.setEntry i heapBlockTableEntryFree).table.entries i =
        heapBlockTableEntryFree := by rw [Heap.setEntry_entries, if_pos rfl]
    rw [heapMarkBlocksFreeLoop]
    split
    · exact fun h => hfree (h.symm.trans hset)
    · rw [heapMarkBlocksFreeLoop_below n (by omega)]
      exact fun h => hfree (h.symm.trans hset)

/-- A call that has its effect was near enough. -/
theorem Accounts.near_of_effect {st st' : HeapState} {op : HeapOp} (h : Accounts st)
    (hstep : FitStep st op st') (heffect : Effect st op st') : Near st op := by
  cases hstep with
  | malloc => trivial
  | @free a ha =>
    by_contra hfar
    obtain ⟨b, hb⟩ := h.inv.holds a ha
    have ht := h.inv.total
    have hneg := heapAddressToBlock_neg hb.offset (Nat.not_lt.mp hfar)
    have htotal : st.heap.table.total.toInt = st.heap.table.total.toNat :=
      BitVec.toInt_eq_toNat_of_lt (by omega)
    obtain ⟨n, hn⟩ : ∃ n, (st.heap.table.total.toInt -
        heapAddressToBlock st.heap a.ptr).toNat = n + 1 := ⟨_, (Nat.succ_pred (by omega)).symm⟩
    obtain ⟨a', ha', hptr, b', hoffset, hchanged⟩ := heffect
    obtain ⟨b'', hb'⟩ := h.inv.holds a' ha'
    obtain rfl : b' = b'' := by have := hb'.offset; omega
    -- the block is negative, so its entry may not change; then nothing does
    have hkept := hchanged.entries (heapAddressToBlock st.heap a.ptr)
    rw [if_neg (by omega)] at hkept
    rcases heapMarkBlocksFreeLoop_at n (heapAddressToBlock st.heap a.ptr) st.heap with hall | hne
    · have hpos := hb'.pos
      have hcleared := hchanged.entries b'
      rw [if_pos (by omega)] at hcleared
      rw [heapFree, heapMarkBlocksFree, hn, hall] at hcleared
      exact runCode_ne_free _ _ ((hb'.coded.entry le_rfl (by omega)).symm.trans hcleared)
    · rw [heapFree, heapMarkBlocksFree, hn] at hkept
      exact hne hkept

/-- A call is exact when it is near enough. -/
theorem Accounts.exactStep_iff {st st' : HeapState} {op : HeapOp} (h : Accounts st) :
    ExactStep st op st' ↔ Meeting Near FitStep st op st' := by
  constructor
  · rintro ⟨hstep, heffect, -⟩
    exact ⟨h.near_of_effect hstep heffect, hstep⟩
  · intro hstep
    obtain ⟨heffect, hafter⟩ := h.step hstep
    exact ⟨hstep.2, heffect, hafter.accounted⟩

/-! ### Releases in any order -/

/-- `heap_free` of each, in order. -/
def heapFreeAll (heap : Heap) (as : List Allocation) : Heap :=
  as.foldl (fun heap a => heapFree heap a.ptr) heap

/-- Entry `k` belongs to the allocation. -/
def Heap.Owns (heap : Heap) (a : Allocation) (k : Int) : Prop :=
  ∃ b : Nat, heap.offset a = 4096 * b ∧ (b : Int) ≤ k ∧ k < b + (blocksFor a.size).toNat

theorem Heap.owns_congr {heap heap' : Heap} (h : heap'.saddr = heap.saddr) (a : Allocation)
    (k : Int) : heap'.Owns a k ↔ heap.Owns a k := by
  simp only [Heap.Owns, Heap.offset, h]

/-- Releasing live allocations clears the entries that belong to one of them. -/
theorem Accounts.freeAll {st : HeapState} (h : Accounts st) (as : List Allocation)
    {rest : List Allocation} (hlive : st.live.Perm (as ++ rest))
    (hnear : ∀ a ∈ as, Near st (.free a.ptr)) :
    (heapFreeAll st.heap as).table.total = st.heap.table.total ∧
      ∀ k, ((∃ a ∈ as, st.heap.Owns a k) →
          (heapFreeAll st.heap as).table.entries k = heapBlockTableEntryFree) ∧
        ((∀ a ∈ as, ¬ st.heap.Owns a k) →
          (heapFreeAll st.heap as).table.entries k = st.heap.table.entries k) := by
  induction as generalizing st with
  | nil => exact ⟨rfl, fun k => ⟨by simp, fun _ => rfl⟩⟩
  | cons a as ih =>
    have ha : a ∈ st.live := hlive.mem_iff.mpr List.mem_cons_self
    obtain ⟨b, hb, hchanged, hafter⟩ := h.free ha (hnear a List.mem_cons_self)
    have hlive' : (st.live.erase a).Perm (as ++ rest) := by
      have := hlive.erase a
      rwa [List.cons_append, List.erase_cons_head] at this
    have hnear' : ∀ a' ∈ as, Near ⟨heapFree st.heap a.ptr, st.live.erase a⟩ (.free a'.ptr) := by
      intro a' ha'
      rw [Near, hchanged.saddr]
      exact hnear a' (List.mem_cons_of_mem _ ha')
    obtain ⟨htotal, hentries⟩ := ih hafter hlive' hnear'
    simp only [Heap.owns_congr hchanged.saddr] at hentries
    have howns : ∀ k, st.heap.Owns a k ↔ (b : Int) ≤ k ∧ k < b + (blocksFor a.size).toNat := by
      intro k
      constructor
      · rintro ⟨b', hb', hk⟩
        obtain rfl : b = b' := by have := hb.offset; omega
        exact hk
      · exact fun hk => ⟨b, hb.offset, hk⟩
    refine ⟨htotal.trans hchanged.total, fun k => ⟨?_, fun hnone => ?_⟩⟩
    · rintro ⟨a', ha', hk⟩
      by_cases hlater : ∃ a'' ∈ as, st.heap.Owns a'' k
      · exact (hentries k).1 hlater
      · simp only [not_exists, not_and] at hlater
        rcases List.mem_cons.mp ha' with rfl | ha'
        · exact ((hentries k).2 hlater).trans
            ((hchanged.entries k).trans (if_pos ((howns k).mp hk)))
        · exact absurd hk (hlater a' ha')
    · refine ((hentries k).2 fun a' ha' => hnone a' (List.mem_cons_of_mem _ ha')).trans ?_
      rw [hchanged.entries, if_neg ((howns k).not.mp (hnone a List.mem_cons_self))]

/-- Freeing a set of live allocations gives the same table in any order. -/
def FreesCommute (st : HeapState) : Prop :=
  ∀ as as' rest : List Allocation, as.Perm as' → st.live.Perm (as ++ rest) →
    (∀ a ∈ as, Near st (.free a.ptr)) →
    (heapFreeAll st.heap as).table = (heapFreeAll st.heap as').table

/-- Freeing what `heap_malloc` has just returned restores the table. -/
def FreeRestores (st : HeapState) : Prop :=
  ∀ size, blocksFor size ≠ 0 → FindsRun st.heap size →
    Near st (.free (heapMalloc st.heap size).1) →
    (heapFree (heapMalloc st.heap size).2 (heapMalloc st.heap size).1).table = st.heap.table

/-- Two frees may be swapped. -/
theorem Accounts.freesCommute {st : HeapState} (h : Accounts st) : FreesCommute st := by
  intro as as' rest hperm hlive hnear
  obtain ⟨htotal, hentries⟩ := h.freeAll as hlive hnear
  obtain ⟨htotal', hentries'⟩ := h.freeAll as' (hlive.trans (hperm.append_right rest))
    fun a ha => hnear a (hperm.mem_iff.mpr ha)
  refine HeapTable.ext' (htotal.trans htotal'.symm) fun k => ?_
  by_cases hk : ∃ a ∈ as, st.heap.Owns a k
  · obtain ⟨a, ha, howns⟩ := hk
    rw [(hentries k).1 ⟨a, ha, howns⟩, (hentries' k).1 ⟨a, hperm.mem_iff.mp ha, howns⟩]
  · simp only [not_exists, not_and] at hk
    rw [(hentries k).2 hk, (hentries' k).2 fun a ha => hk a (hperm.mem_iff.mpr ha)]

/-- Freeing what was just reserved restores the table. -/
theorem Accounts.freeRestores {st : HeapState} (h : Accounts st) : FreeRestores st := by
  intro size hn hfit hnear
  obtain ⟨⟨b, hrun, -, hptr, htaken⟩, hafter⟩ := h.malloc hn hfit
  have hnear' : Near ⟨(heapMalloc st.heap size).2,
      ⟨(heapMalloc st.heap size).1, size⟩ :: st.live⟩ (.free (heapMalloc st.heap size).1) := by
    rw [Near, htaken.saddr]
    exact hnear
  obtain ⟨b', hb', hfreed, -⟩ := hafter.free List.mem_cons_self hnear'
  replace hfreed : Changed _ _ b' (blocksFor size).toNat _ := hfreed
  have ht := h.inv.total
  have hb := hrun.1
  obtain rfl : b = b' := by
    have hoffset := hb'.offset
    rw [Heap.offset, htaken.saddr, hptr, heapBlockToAddress_offset st.heap (by omega)] at hoffset
    omega
  refine HeapTable.ext' (hfreed.total.trans htaken.total) fun k => ?_
  rw [hfreed.entries]
  split
  · -- a block of the run: it was free in a table whose taken blocks are all held
    obtain ⟨i, rfl⟩ : ∃ i : Nat, k = i := ⟨k.toNat, by omega⟩
    rcases h.covered i (by omega) with hfree | ⟨a, -, b'', hb'', h₁, h₂⟩
    · exact hfree.symm
    · exact absurd (hrun.2 i (by omega) (by omega)) (hb''.coded.not_free h₁ h₂)
  · rw [htaken.entries, if_neg ‹_›]

/-! ### Every history -/

/-- **First fit accounts exactly for the live allocations, in exactly the histories that free no
pointer 2 GiB or more above `saddr`.**  Such frees commute, and freeing what was just allocated
restores the table. -/
theorem accounting_exact_iff {ptr end' : U32} {table : HeapTable} {heap : Heap} {ops : List HeapOp}
    {st : HeapState} (hc : heapCreate ptr end' table = (0, some heap)) :
    (Accounted ⟨heap, []⟩ ∧ Run ExactStep ⟨heap, []⟩ ops st ↔
      Run (Meeting Near FitStep) ⟨heap, []⟩ ops st) ∧
    (Run (Meeting Near FitStep) ⟨heap, []⟩ ops st → FreesCommute st ∧ FreeRestores st) := by
  have h₀ := heapCreate_accounts hc
  have hstep : ∀ s op s', Accounts s → Meeting Near FitStep s op s' → Accounts s' :=
    fun _ _ _ h hs => (h.step hs).2
  have hiff : Run ExactStep ⟨heap, []⟩ ops st ↔ Run (Meeting Near FitStep) ⟨heap, []⟩ ops st :=
    Run.congr_of_invariant h₀ (fun _ _ _ h => h.exactStep_iff) hstep
  refine ⟨⟨fun h => hiff.mp h.2, fun h => ⟨h₀.accounted, hiff.mpr h⟩⟩, fun hrun => ?_⟩
  have h := hrun.invariant h₀ hstep
  exact ⟨h.freesCommute, h.freeRestores⟩

/-- The call finds blocks, or frees a near one. -/
def HeapState.fits (st : HeapState) : HeapOp → Bool
  | .malloc size => blocksFor size ≠ 0 && FindsRun st.heap size
  | .free ptr    => st.live.any (·.ptr = ptr) && (ptr - st.heap.saddr).toNat < 2 ^ 31

theorem HeapState.next_fits (st : HeapState) (op : HeapOp) (h : st.fits op = true) :
    Meeting Near FitStep st op (st.next op) := by
  cases op with
  | malloc size =>
      simp only [fits, Bool.and_eq_true, decide_eq_true_eq] at h
      exact ⟨trivial, .malloc h.1 h.2⟩
  | free ptr =>
      rw [fits, Bool.and_eq_true, decide_eq_true_eq] at h
      obtain ⟨a, hmem, rfl, hnext⟩ := HeapState.next_free h.1
      rw [hnext]
      exact ⟨h.2, .free hmem⟩

/-- Every call of `reuse` has its effect, and three allocations are live in the end. -/
theorem accounting_reuse :
    let st := reuse.foldl HeapState.next ⟨eightBlockHeap, []⟩
    Run ExactStep ⟨eightBlockHeap, []⟩ reuse st ∧ st.live.length = 3 ∧ FreesCommute st := by
  have hc : heapCreate 0x1000 0x9000 eightBlockTable = (0, some eightBlockHeap) := rfl
  have hrun : Run (Meeting Near FitStep) ⟨eightBlockHeap, []⟩ reuse
      (reuse.foldl HeapState.next ⟨eightBlockHeap, []⟩) :=
    Run.of_allAlong HeapState.next_fits (by decide +kernel)
  obtain ⟨hexact, hfrees⟩ := accounting_exact_iff hc
  exact ⟨(hexact.mpr hrun).2, by decide +kernel, (hfrees hrun).1⟩

/-- A table of 2 GiB and one block. -/
def hugeTable : HeapTable := { entries := fun _ => heapBlockTableEntryFree, total := 0x80001 }

/-- The heap `heap_create` makes of it at `[0x1000, 0x80002000)`. -/
def hugeHeap : Heap :=
  { table :=
      { hugeTable with
        entries := fun i =>
          if 0 ≤ i ∧ i < hugeTable.total.toNat then heapBlockTableEntryFree
          else hugeTable.entries i }
    saddr := 0x1000
    writes := [] }

theorem hugeHeap_entries (i : Int) : hugeHeap.table.entries i = heapBlockTableEntryFree := by
  simp [hugeHeap, hugeTable]

/-- The first 2 GiB of the heap taken. -/
def hugeHeapTaken : Heap := heapMarkBlocksTaken hugeHeap (0 : Nat) (0x80000 : Nat)

theorem hugeHeapTaken_wrote : Wrote hugeHeap hugeHeapTaken (0 : Nat) (0 + 0x80000 : Nat)
    (fun k => runCode 0x80000 (k - (0 : Nat)).toNat) :=
  heapMarkBlocksTaken_wrote hugeHeap 0 (by decide)

theorem hugeHeap_malloc :
    FindsRun hugeHeap 0x80000000 ∧ heapMalloc hugeHeap 0x80000000 = (0x1000, hugeHeapTaken) := by
  have hrun : FreeRun hugeHeap.table 0 0x80000 :=
    ⟨by decide, fun i _ _ => by rw [hugeHeap_entries]; decide⟩
  have hfinds : FindsRun hugeHeap 0x80000000 := ⟨0, Nat.zero_le _, hrun⟩
  obtain ⟨b, -, hmin, hmalloc⟩ := heapMalloc_lowest (by decide) (by decide) hfinds
  obtain rfl : b = 0 := by
    by_contra hne
    exact hmin 0 (by omega) hrun
  exact ⟨hfinds, hmalloc⟩

theorem hugeHeapTaken_malloc :
    FindsRun hugeHeapTaken 1 ∧ heapMalloc hugeHeapTaken 1 =
      (0x80001000, heapMarkBlocksTaken hugeHeapTaken (0x80000 : Nat) (1 : Nat)) := by
  have hw := hugeHeapTaken_wrote
  have htotal : hugeHeapTaken.table.total.toNat = 0x80001 := by rw [hw.total]; rfl
  have hfree : EntryFree (hugeHeapTaken.table.entries (0x80000 : Nat)) := by
    rw [hw.entries, if_neg (by omega), hugeHeap_entries]
    decide
  refine ⟨⟨0x80000, by omega, ⟨?_, fun i h₁ h₂ => ?_⟩⟩, ?_⟩
  · rw [htotal]
    decide
  · obtain rfl : i = 0x80000 := Nat.le_antisymm (Nat.le_of_lt_succ h₂) h₁
    exact hfree
  · rw [heapMalloc_one (by omega) (by omega) hfree fun i hi => ?_, heapBlockToAddress, hw.saddr]
    · rfl
    · rw [hw.entries, if_pos (by omega)]
      exact runCode_not_free _ _

/-- **A block 2 GiB above `saddr` is freed, and stays taken.** -/
theorem far_release_lost :
    heapCreate 0x1000 0x80002000 hugeTable = (0, some hugeHeap) ∧
    ∃ st, Run FitStep ⟨hugeHeap, []⟩ [.malloc 0x80000000, .malloc 1, .free 0x80001000] st ∧
      ¬ Accounted st := by
  obtain ⟨hfinds₁, hmalloc₁⟩ := hugeHeap_malloc
  obtain ⟨hfinds₂, hmalloc₂⟩ := hugeHeapTaken_malloc
  have hw := heapMarkBlocksTaken_wrote hugeHeapTaken 0x80000 Nat.one_pos
  generalize hheap :
    heapMarkBlocksTaken hugeHeapTaken (0x80000 : Nat) (1 : Nat) = heap at hw hmalloc₂
  have hw' := hugeHeapTaken_wrote
  have hsaddr : heap.saddr = 0x1000 := hw.saddr.trans hw'.saddr
  have htotal : heap.table.total = 0x80001 := hw.total.trans hw'.total
  -- the block computed for the pointer, whose entry is free
  have hblock : heapAddressToBlock heap 0x80001000 = -0x80000 := by
    rw [heapAddressToBlock, hsaddr]
    decide
  have hbelow : heap.table.entries (-0x80000) = heapBlockTableEntryFree := by
    rw [hw.entries, if_neg (by omega), hw'.entries, if_neg (by omega), hugeHeap_entries]
  have hkept : (heapFree heap 0x80001000).table.entries = heap.table.entries := by
    rw [heapFree, hblock, heapMarkBlocksFree, htotal]
    exact heapMarkBlocksFreeLoop_of_free _ hbelow
  refine ⟨rfl, _, .cons (.malloc_eq (by decide) hfinds₁ hmalloc₁)
    (.cons (.malloc_eq (by decide) hfinds₂ hmalloc₂)
      (.one (.free (a := ⟨0x80001000, 1⟩) List.mem_cons_self))), fun h => ?_⟩
  have hextends := (heapMarkBlocksFreeLoop_extends (heap.table.total.toInt -
    heapAddressToBlock heap 0x80001000).toNat (heapAddressToBlock heap 0x80001000) heap).1
  have hrun : IsRun (heapFree heap 0x80001000).table 0x80000 1 := by
    refine ⟨Nat.one_pos, ?_, fun j hj => ?_⟩
    · rw [show (heapFree heap 0x80001000).table.total = 0x80001 from hextends.total.trans htotal]
      decide
    · obtain rfl : j = 0 := by omega
      rw [hkept, hw.entries, if_pos (by omega)]
      rfl
  obtain ⟨a, ha, hoffset, -⟩ := (h.runs _ _).mp hrun
  obtain rfl : a = ⟨0x1000, 0x80000000⟩ := List.mem_singleton.mp ha
  rw [Heap.offset, show (heapFree heap 0x80001000).saddr = 0x1000 from
    hextends.saddr.trans hsaddr] at hoffset
  exact absurd hoffset (by decide)

end KernelNES.Memory
