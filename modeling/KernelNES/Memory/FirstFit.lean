import KernelNES.Memory.Heap
import Mathlib.Tactic.Ring

/-!
# Memory — FirstFit

What each function of `heap.c` does to the table.

* `heapGetStartBlock_spec`: the search returns the lowest free run of the wanted length; when there
  is none it reports `-ENOMEM` only if the last entry of the table is taken, and otherwise returns
  the start of the free tail, which is too short.
* `heapMarkBlocksTaken_wrote`: a run of `n` blocks is written as `runCode n`.
* `heapMarkBlocksFree_wrote`: on a run so written, `heap_mark_blocks_free` clears exactly it.
-/

namespace KernelNES.Memory
open KernelNES.Lib

/-! ### Free entries and runs -/

/-- `entry` is free as `heap_get_start_block` sees it. -/
def EntryFree (entry : HeapBlockTableEntry) : Prop :=
  heapGetEntryType entry = heapBlockTableEntryFree

instance (entry : HeapBlockTableEntry) : Decidable (EntryFree entry) :=
  inferInstanceAs (Decidable (_ = _))

/-- Blocks `b, …, b + n - 1` are inside the table and free. -/
def FreeRun (table : HeapTable) (b n : Nat) : Prop :=
  b + n ≤ table.total.toNat ∧ ∀ i, b ≤ i → i < b + n → EntryFree (table.entries i)

instance (table : HeapTable) (b n : Nat) : Decidable (FreeRun table b n) :=
  decidable_of_iff
    (b + n ≤ table.total.toNat ∧ ∀ j < n, EntryFree (table.entries (b + j : Nat))) <| by
    refine and_congr_right fun _ => ⟨fun h i h₁ h₂ => ?_, fun h j hj => h _ (by omega) (by omega)⟩
    have := h (i - b) (by omega)
    rwa [Nat.add_sub_cancel' h₁] at this

/-- The entry of the `j`-th block of an allocated run of `n` blocks. -/
def runCode (n j : Nat) : HeapBlockTableEntry :=
  (if j = 0 then heapBlockTableEntryTaken ||| heapBlockIsFirst else heapBlockTableEntryTaken) |||
    (if j + 1 < n then heapBlockHasNext else 0)

theorem runCode_not_free (n j : Nat) : ¬ EntryFree (runCode n j) := by
  unfold runCode
  split <;> split <;> decide

/-- Every entry of a run but the last has the next one. -/
theorem runCode_hasNext (n j : Nat) : runCode n j &&& heapBlockHasNext = 0 ↔ ¬ j + 1 < n := by
  unfold runCode
  split <;> split <;> simp_all <;> decide

/-- The entries of `[b, b + n)` are those of an allocated run. -/
def Coded (table : HeapTable) (b n : Nat) : Prop :=
  ∀ j < n, table.entries (b + j : Nat) = runCode n j

/-- The entries of a coded run are taken. -/
theorem Coded.not_free {table : HeapTable} {b n i : Nat} (h : Coded table b n) (h₁ : b ≤ i)
    (h₂ : i < b + n) : ¬ EntryFree (table.entries i) := by
  have e := h (i - b) (by omega)
  rw [Nat.add_sub_cancel' h₁] at e
  rw [e]
  exact runCode_not_free n (i - b)

/-! ### The search -/

/-- What `heap_get_start_block` knows at index `i`: no run of `n` free blocks ends at or before
`i`, and `bc`, `bs` describe the free blocks just before `i`. -/
structure ScanInv (table : HeapTable) (n i : Nat) (bc bs : Int) : Prop where
  le : i ≤ table.total.toNat
  none_before : ∀ b, b + n ≤ i → ¬ FreeRun table b n
  tail : (bs = -1 ∧ bc = 0 ∧ (i ≠ 0 → ¬ EntryFree (table.entries ((i : Int) - 1)))) ∨
    ∃ s : Nat, bs = s ∧ bc = (i : Int) - s ∧ s < i ∧ i < s + n ∧
      (∀ k, s ≤ k → k < i → EntryFree (table.entries k)) ∧
      (s ≠ 0 → ¬ EntryFree (table.entries ((s : Int) - 1)))

/-- What the loop returns: the lowest free run, or no run exists and the result is `-1` with the
table's last entry taken, or the start of a free tail shorter than `n`. -/
inductive ScanResult (table : HeapTable) (n : Nat) : Int → Prop where
  | found (b : Nat) : FreeRun table b n → (∀ b' < b, ¬ FreeRun table b' n) → ScanResult table n b
  | full : (∀ b, ¬ FreeRun table b n) →
      (table.total.toNat ≠ 0 → ¬ EntryFree (table.entries ((table.total.toNat : Int) - 1))) →
      ScanResult table n (-1)
  | tail (b : Nat) : (∀ b', ¬ FreeRun table b' n) → b < table.total.toNat →
      table.total.toNat < b + n →
      (∀ k, b ≤ k → k < table.total.toNat → EntryFree (table.entries k)) → ScanResult table n b

/-- A free run of `n` blocks cannot contain a taken entry. -/
theorem FreeRun.not_of_taken {table : HeapTable} {b n k : Nat} (h : FreeRun table b n)
    (hk : ¬ EntryFree (table.entries k)) : k < b ∨ b + n ≤ k := by
  by_contra hc
  exact hk (h.2 k (by omega) (by omega))

/-- A taken entry starts the count again. -/
theorem ScanInv.taken {table : HeapTable} {n i : Nat} {bc bs : Int} (h : ScanInv table n i bc bs)
    (hi : i < table.total.toNat) (hf : ¬ EntryFree (table.entries i)) :
    ScanInv table n (i + 1) 0 (-1) := by
  refine ⟨hi, fun b hb hr => ?_, .inl ⟨rfl, rfl, fun _ => by simpa using hf⟩⟩
  rcases hr.not_of_taken hf with h' | h'
  · by_cases h0 : b = i + 1
    · obtain rfl : n = 0 := by omega
      exact h.none_before i (by omega) ⟨by omega, fun k _ _ => by omega⟩
    · omega
  · exact h.none_before b h' hr

/-- Before the wanted length is reached, one more free entry extends the run at hand. -/
theorem ScanInv.free {table : HeapTable} {n i : Nat} {bc bs : Int} (h : ScanInv table n i bc bs)
    (hi : i < table.total.toNat) (hf : EntryFree (table.entries i)) :
    ∃ s : Nat, (if bs = -1 then (i : Int) else bs) = s ∧ bc + 1 = (i + 1 : Int) - s ∧ s ≤ i ∧
      (∀ k, s ≤ k → k ≤ i → EntryFree (table.entries k)) ∧
      (s ≠ 0 → ¬ EntryFree (table.entries ((s : Int) - 1))) ∧ (i < s + n ∨ n = 0) := by
  rcases h.tail with ⟨rfl, rfl, ht⟩ | ⟨s, rfl, rfl, hs, hn, hfree, hprev⟩
  · refine ⟨i, by simp, by omega, le_refl i, fun k h₁ h₂ => ?_, ht, by omega⟩
    obtain rfl : k = i := by omega
    exact hf
  · refine ⟨s, ?_, by omega, by omega, fun k h₁ h₂ => ?_, hprev, by omega⟩
    · rw [if_neg (by omega)]
    · rcases Nat.lt_or_ge k i with h' | h'
      · exact hfree k h₁ h'
      · obtain rfl : k = i := by omega
        exact hf

/-- No run starts before the run at hand: it would contain the taken entry in front of it. -/
theorem none_before_start {table : HeapTable} {n i s : Nat} {bc bs : Int}
    (h : ScanInv table n i bc bs) (hs : s ≤ i)
    (hprev : s ≠ 0 → ¬ EntryFree (table.entries ((s : Int) - 1))) :
    ∀ b < s, ¬ FreeRun table b n := by
  intro b hb hr
  have e : ((s : Int) - 1) = ((s - 1 : Nat) : Int) := by omega
  have hp := hprev (by omega)
  rw [e] at hp
  rcases hr.not_of_taken hp with h' | h'
  · omega
  · exact h.none_before b (by omega) hr

/-- The loop finds the first run of free blocks, or a short tail, or none. -/
theorem heapGetStartBlockLoop_spec (table : HeapTable) (totalBlocks : U32)
    (hn : 0 < totalBlocks.toNat) (ht : table.total.toNat < 2 ^ 31) :
    ∀ (m i : Nat) (bc bs : Int), i + m = table.total.toNat →
      ScanInv table totalBlocks.toNat i bc bs →
      ScanResult table totalBlocks.toNat (heapGetStartBlockLoop table totalBlocks m i bc bs) := by
  intro m
  induction m with
  | zero =>
      intro i bc bs hi h
      obtain rfl : i = table.total.toNat := by omega
      -- the loop has come to the end of the table, perhaps inside a run that is too short
      have hnone : ∀ b, ¬ FreeRun table b totalBlocks.toNat := fun b hr =>
        h.none_before b hr.1 hr
      rcases h.tail with ⟨rfl, -, htaken⟩ | ⟨s, rfl, -, hs, hlt, hfree, -⟩
      · exact .full hnone htaken
      · exact .tail s hnone hs hlt hfree
  | succ m ih =>
      intro i bc bs hi h
      have hlt : i < table.total.toNat := by omega
      unfold heapGetStartBlockLoop
      by_cases hf : EntryFree (table.entries i)
      · have hf' : heapGetEntryType (table.entries i) = heapBlockTableEntryFree := hf
        obtain ⟨s, hs, hbc, hsi, hfree, hprev, hn'⟩ := h.free hlt hf
        have hbefore := none_before_start h hsi hprev
        simp only [hf', ne_eq, not_true_eq_false, if_false, hs, hbc]
        have hcast : BitVec.ofInt 32 ((i + 1 : Int) - s) = BitVec.ofNat 32 (i + 1 - s) := by
          rw [← BitVec.ofInt_natCast]; congr 1; omega
        rw [hcast]
        by_cases hstop : BitVec.ofNat 32 (i + 1 - s) = totalBlocks
        · -- the run at hand has reached the wanted length
          have hlen : totalBlocks.toNat = i + 1 - s := by
            rw [← hstop, BitVec.toNat_ofNat, Nat.mod_eq_of_lt (by omega)]
          rw [if_pos hstop]
          exact .found s ⟨by omega, fun k h₁ h₂ => hfree k h₁ (by omega)⟩ hbefore
        · have hlen : i + 1 - s ≠ totalBlocks.toNat := fun e => hstop (by rw [e]; simp)
          rw [if_neg hstop]
          refine ih (i + 1) _ _ (by omega)
            ⟨by omega, fun b hb hr => ?_, .inr ⟨s, rfl, by push_cast; rfl, by omega, by omega,
              fun k h₁ h₂ => hfree k h₁ (by omega), hprev⟩⟩
          rcases Nat.lt_or_ge b s with hbs | hbs
          · exact hbefore b hbs hr
          · omega
      · have hf' : heapGetEntryType (table.entries i) ≠ heapBlockTableEntryFree := hf
        simp only [ne_eq, hf', not_false_eq_true, if_true]
        exact ih (i + 1) 0 (-1) (by omega) (h.taken hlt hf)

/-- **The search.**  For a request of at least one block: the lowest free run of that length if
there is one; else `-ENOMEM` if the last entry is taken, and the start of the too short free tail
if it is not. -/
theorem heapGetStartBlock_spec (heap : Heap) (totalBlocks : U32) (hn : 0 < totalBlocks.toNat)
    (ht : heap.table.total.toNat < 2 ^ 31) :
    ∃ r, ScanResult heap.table totalBlocks.toNat r ∧
      heapGetStartBlock heap totalBlocks = if r = -1 then -enomem else r :=
  ⟨_, heapGetStartBlockLoop_spec heap.table totalBlocks hn ht _ 0 0 (-1) (by omega)
    ⟨by omega, fun b hb => by omega, .inl ⟨rfl, rfl, fun h => absurd rfl h⟩⟩, rfl⟩

/-! ### The two marking loops -/

@[simp] theorem Heap.setEntry_total (heap : Heap) (i : Int) (e : HeapBlockTableEntry) :
    (heap.setEntry i e).table.total = heap.table.total := rfl

@[simp] theorem Heap.setEntry_saddr (heap : Heap) (i : Int) (e : HeapBlockTableEntry) :
    (heap.setEntry i e).saddr = heap.saddr := rfl

@[simp] theorem Heap.setEntry_writes (heap : Heap) (i : Int) (e : HeapBlockTableEntry) :
    (heap.setEntry i e).writes = i :: heap.writes := rfl

/-- One entry is set. -/
theorem Heap.setEntry_entries (heap : Heap) (i k : Int) (e : HeapBlockTableEntry) :
    (heap.setEntry i e).table.entries k = if k = i then e else heap.table.entries k := by
  simp only [Heap.setEntry, Function.update_apply]

/-- `heap'` is `heap` after writing `f i` at each index `i` of `[a, b)`, and nothing else. -/
structure Wrote (heap heap' : Heap) (a b : Int) (f : Int → HeapBlockTableEntry) : Prop where
  total : heap'.table.total = heap.table.total
  saddr : heap'.saddr = heap.saddr
  entries : ∀ k, heap'.table.entries k = if a ≤ k ∧ k < b then f k else heap.table.entries k
  writes : ∀ k, k ∈ heap'.writes ↔ (a ≤ k ∧ k < b) ∨ k ∈ heap.writes

theorem Wrote.refl (heap : Heap) (a : Int) (f : Int → HeapBlockTableEntry) :
    Wrote heap heap a a f :=
  ⟨rfl, rfl, fun k => by rw [if_neg (by omega)], fun k => by
    constructor
    · exact .inr
    · rintro (h | h)
      · omega
      · exact h⟩

/-- One write in front of a block of writes. -/
theorem Wrote.cons {heap heap' : Heap} {a b : Int} {f : Int → HeapBlockTableEntry}
    {e : HeapBlockTableEntry} (h : Wrote (heap.setEntry a e) heap' (a + 1) b f) (he : f a = e)
    (hab : a < b) : Wrote heap heap' a b f := by
  refine ⟨h.total, h.saddr, fun k => ?_, fun k => ?_⟩
  · rw [h.entries, Heap.setEntry_entries]
    by_cases hk : k = a
    · subst hk
      rw [if_neg (by omega), if_pos rfl, if_pos (by omega), he]
    · rw [if_neg hk]
      by_cases hr : a + 1 ≤ k ∧ k < b
      · rw [if_pos hr, if_pos (by omega)]
      · rw [if_neg hr, if_neg (by omega)]
  · rw [h.writes, Heap.setEntry_writes, List.mem_cons]
    constructor
    · rintro (h' | rfl | h')
      · exact .inl (by omega)
      · exact .inl (by omega)
      · exact .inr h'
    · rintro (h' | h')
      · by_cases hk : k = a
        · exact .inr (.inl hk)
        · exact .inl (by omega)
      · exact .inr (.inr h')

/-- The entry the loop of `heap_mark_blocks_taken` carries into the write at block `start + j`. -/
theorem heapMarkBlocksTakenLoop_wrote (start : Int) (n : Nat) :
    ∀ (m j : Nat) (heap : Heap), j + m = n →
      Wrote heap (heapMarkBlocksTakenLoop (start + n - 1) m (start + j) (runCode n j) heap)
        (start + j) (start + n) (fun k => runCode n (k - start).toNat) := by
  intro m
  induction m with
  | zero =>
      intro j heap hj
      obtain rfl : j = n := by omega
      exact .refl heap _ _
  | succ m ih =>
      intro j heap hj
      unfold heapMarkBlocksTakenLoop
      -- the code computed for the next entry is right, or there is no next entry
      have hnext : (if start + j ≠ start + n - 1 - 1 then
          heapBlockTableEntryTaken ||| heapBlockHasNext else heapBlockTableEntryTaken) =
          runCode n (j + 1) ∨ m = 0 := by
        by_cases hm : m = 0
        · exact .inr hm
        · refine .inl ?_
          by_cases hlast : j + 1 + 1 < n
          · rw [if_pos (by omega)]; simp [runCode, hlast]
          · rw [if_neg (by omega)]; simp [runCode, hlast]
      have hcode : runCode n (start + (j : Int) - start).toNat = runCode n j := by
        rw [show (start + (j : Int) - start).toNat = j by omega]
      refine Wrote.cons ?_ hcode (by omega)
      rcases hnext with he | rfl
      · have t := ih (j + 1) (heap.setEntry (start + j) (runCode n j)) (by omega)
        simp only [he]
        rwa [show start + ((j + 1 : Nat) : Int) = start + j + 1 by push_cast; ring] at t
      · simp only [heapMarkBlocksTakenLoop]
        rw [show start + (n : Int) = start + j + 1 by omega]
        exact .refl _ _ _

/-- **`heap_mark_blocks_taken`** writes an allocated run of `n` blocks at `b`. -/
theorem heapMarkBlocksTaken_wrote (heap : Heap) (b : Nat) {n : Nat} (hn : 0 < n) :
    Wrote heap (heapMarkBlocksTaken heap b n) b (b + n : Nat)
      (fun k => runCode n (k - b).toNat) := by
  have h := heapMarkBlocksTakenLoop_wrote b n n 0 heap (by omega)
  have hfirst : (if (n : Int) > 1 then
      heapBlockTableEntryTaken ||| heapBlockIsFirst ||| heapBlockHasNext
      else heapBlockTableEntryTaken ||| heapBlockIsFirst) = runCode n 0 := by
    by_cases h1 : 1 < n
    · rw [if_pos (by omega)]; simp [runCode, h1]
    · rw [if_neg (by omega)]; simp [runCode, h1]
  unfold heapMarkBlocksTaken
  simp only [hfirst]
  rw [show ((b : Int) + (n : Int) - 1 + 1 - b).toNat = n by omega]
  simpa using h

/-- The loop of `heap_mark_blocks_free`, started inside a coded run, clears the rest of it. -/
theorem heapMarkBlocksFreeLoop_wrote {b n : Nat} :
    ∀ (m j : Nat) (heap : Heap), j < n → n ≤ j + m →
      (∀ i, j ≤ i → i < n → heap.table.entries (b + i : Nat) = runCode n i) →
      Wrote heap (heapMarkBlocksFreeLoop m (b + j : Nat) heap) (b + j : Nat) (b + n : Nat)
        (fun _ => heapBlockTableEntryFree) := by
  intro m
  induction m with
  | zero => intro j heap h₁ h₂; omega
  | succ m ih =>
      intro j heap h₁ h₂ hc
      unfold heapMarkBlocksFreeLoop
      refine Wrote.cons ?_ rfl (by omega)
      rw [hc j le_rfl h₁]
      by_cases hnext : j + 1 < n
      · rw [if_neg (by rw [runCode_hasNext]; omega)]
        refine ih (j + 1) _ hnext (by omega) fun i h₃ h₄ => ?_
        rw [Heap.setEntry_entries, if_neg (by omega)]
        exact hc i (by omega) h₄
      · rw [if_pos ((runCode_hasNext n j).mpr hnext)]
        obtain rfl : j + 1 = n := by omega
        exact .refl _ _ _

/-- **`heap_mark_blocks_free`**, called on the first block of an allocated run, clears the run. -/
theorem heapMarkBlocksFree_wrote {heap : Heap} {b n : Nat} (hn : 0 < n)
    (hb : b + n ≤ heap.table.total.toNat) (ht : heap.table.total.toNat < 2 ^ 31)
    (hc : Coded heap.table b n) :
    Wrote heap (heapMarkBlocksFree heap b) b (b + n : Nat) (fun _ => heapBlockTableEntryFree) := by
  have e : heap.table.total.toInt = heap.table.total.toNat :=
    BitVec.toInt_eq_toNat_of_lt (by omega)
  unfold heapMarkBlocksFree
  exact heapMarkBlocksFreeLoop_wrote (j := 0) _ heap hn (by omega) fun i _ h => hc i h

end KernelNES.Memory
