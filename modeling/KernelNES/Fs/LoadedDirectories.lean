import KernelNES.Fs.PathWalk
import KernelNES.Memory.ZeroBlocks

/-!
# Fs — LoadedDirectories

What `fat16_load_fat_directory` hands out.  Past its first allocation every failure ends at the
label that frees the directory, and the pointer is returned all the same.  An empty directory gets
an array of no bytes, for which the heap reserves nothing (`kheap_reserves_iff`), and which is freed
with the directory all the same.  So what is handed out is good for a search and for a release
exactly when nothing fails and a slot was counted (`handsOutLive_iff`).
-/

namespace KernelNES.Fs
open KernelNES.Lib KernelNES.Memory

/-! ### What stops a search -/

/-- The fault is a read through neither `NULL` nor a pointer to freed memory. -/
def PointerSafe (e : Fault) : Prop := e ≠ .nullDeref ∧ e ≠ .useAfterFree

theorem pointerSafe_outOfBounds : PointerSafe .outOfBounds := ⟨by decide, by decide⟩

theorem pointerSafe_diverges : PointerSafe .diverges := ⟨by decide, by decide⟩

section
variable {H : Type} {alloc : Allocator H} {vol : Volume}

theorem kzalloc_safe (alloc : Allocator H) (size : U32) :
    FaultsIn PointerSafe (kzalloc alloc size) := nofun

/-- What is freed on the way has just been allocated. -/
theorem freeDirectory_safe (alloc : Allocator H) (a : U32) (contents : FatDirectory) :
    FaultsIn PointerSafe (fat16FreeDirectory alloc (.live a contents)) := by
  intro s e h
  obtain ⟨s', hs'⟩ := freeDirectory_live alloc a contents s
  rw [hs'] at h
  cases h

theorem loadDirectory_safe (alloc : Allocator H) (vol : Volume) (item : FatDirectoryItem) :
    FaultsIn PointerSafe (fat16LoadFatDirectory alloc vol item) := by
  refine .ite (.pure _) ((kzalloc_safe alloc _).bind fun directory => .ite (.pure _) ?_)
  refine (getTotalItems_faults pointerSafe_outOfBounds pointerSafe_diverges _ _).bind
    fun total => ?_
  refine (kzalloc_safe alloc _).bind fun array => ?_
  refine .ite ((freeDirectory_safe alloc _ _).bind fun _ => .pure _) ?_
  refine (readInternal_faults pointerSafe_outOfBounds
    (fun _ => ⟨by decide, by decide⟩) _ _ _).bind fun r => .ite ?_ (.pure _)
  exact (freeDirectory_safe alloc _ _).bind fun _ => .pure _

theorem newItem_safe (alloc : Allocator H) (vol : Volume) (item : FatDirectoryItem) :
    FaultsIn PointerSafe (fat16NewFatItemForDirectoryItem alloc vol item) := by
  refine (kzalloc_safe alloc _).bind fun fItem => .ite (.pure _) (.ite ?_ ?_)
  · exact (loadDirectory_safe alloc vol item).bind fun _ => .pure _
  · have hclone : FaultsIn PointerSafe (fat16CloneDirectoryItem alloc item sizeofItem) :=
      .ite (.pure _) ((kzalloc_safe alloc _).bind fun _ => .ite (.pure _) (.pure _))
    exact hclone.bind fun _ => .pure _

/-- A search of a directory whose array is live. -/
theorem findItem_safe (alloc : Allocator H) (vol : Volume) {directory : FatDirectory} {addr : U32}
    {bytes : List U8} (hitem : directory.item = .live addr bytes) (name : Name) :
    FaultsIn PointerSafe (fat16FindItemInDirectory alloc vol directory name) := by
  have hloop : ∀ n i fItem,
      FaultsIn PointerSafe (fat16FindItemLoop alloc vol directory name n i fItem) := by
    intro n
    induction n with
    | zero => exact fun i fItem => .pure _
    | succ n ih =>
      intro i fItem
      refine (FaultsIn.lift fun e he => ?_).bind fun item => .ite ?_ (ih (i + 1) fItem)
      · rw [slot_of_live hitem] at he
        split at he
        · cases he
        · cases he; exact ⟨by decide, by decide⟩
      · exact (newItem_safe alloc vol item).bind fun fItem => ih (i + 1) fItem
  exact hloop _ 0 .null

end

/-! ### What is handed out -/

section
variable {H : Type}

/-- Nothing fails when the subdirectory is loaded: there is a block for it, its slots can be counted
and there is one, there is a block for as many of them, and the chain goes on as far. -/
def LoadsWhole (alloc : Allocator H) (vol : Volume) (item : FatDirectoryItem) (heap : H) : Prop :=
  (directoryBlock alloc heap).1 ≠ 0 ∧ 0 < clusterBytes vol ∧
    ∃ n T, SlotCount vol.disk (storedSubdirectory vol item).start n T ∧ 0 < T ∧
      (arrayBlock alloc heap T).1 ≠ 0 ∧ Covered vol item T

variable {alloc : Allocator H} {vol : Volume} {item : FatDirectoryItem} {heap : H}

/-- The pointer is `NULL`, or to a live directory whose array is live, both in blocks that are
reserved. -/
def NullOrLive (log : List HeapCall) (p : Ref FatDirectory) : Prop :=
  p = .null ∨ ∃ a directory array bytes, p = .live a directory ∧
    directory.item = .live array bytes ∧ Held log a ∧ Held log array

/-- `fat16_find_item_in_directory` of the directory behind a pointer. -/
def searchDirectory (alloc : Allocator H) (vol : Volume) (directory : Ref FatDirectory)
    (name : Name) : K H (Ref FatItem) := do
  let contents ← Exec.lift directory.load
  fat16FindItemInDirectory alloc vol contents name

/-- Loading a directory, and releasing the item at `fItem` that is built from it. -/
def loadAndRelease (alloc : Allocator H) (vol : Volume) (item : FatDirectoryItem) (fItem : U32) :
    K H Unit := do
  let directory ← fat16LoadFatDirectory alloc vol item
  fat16FatItemFree alloc (.live fItem (.directory directory))

/-- The directory can be searched without a read through `NULL` or a pointer to freed memory. -/
def Searchable (alloc : Allocator H) (vol : Volume) (directory : Ref FatDirectory) : Prop :=
  ∀ name, FaultsIn PointerSafe (searchDirectory alloc vol directory name)

/-- The release gives back each block that loading reserved, the last one first, and then the block
of the item; and nothing else. -/
def ReleasedOnce (alloc : Allocator H) (vol : Volume) (item : FatDirectoryItem)
    (s : KState H) : Prop :=
  ∀ fItem, ∃ (taken : List U32) (s' : _),
    loadAndRelease alloc.reserving vol item fItem ⟨(s.heap, []), s.pos⟩ = .ok ((), s') ∧
    s'.heap.2 = taken.map .took ++ (taken.reverse ++ [fItem]).map .gave

/-- `fat16_load_fat_directory` returns `NULL` or a live directory with a live array, and an item
built from it can be searched and released. -/
def HandsOutLive (alloc : Allocator H) (vol : Volume) (item : FatDirectoryItem)
    (s : KState H) : Prop :=
  ∃ p s', fat16LoadFatDirectory alloc.reserving vol item ⟨(s.heap, []), s.pos⟩ = .ok (p, s') ∧
    NullOrLive s'.heap.2 p ∧
    (item.attributes &&& fatFileSubdirectory ≠ 0 →
      Searchable alloc vol p ∧ ReleasedOnce alloc vol item s)

/-- The release of a loaded directory. -/
theorem fatItemFree_live (alloc : Allocator H) (fItem a array : U32) (directory : FatDirectory)
    {bytes : List U8} (hitem : directory.item = .live array bytes) (s : KState H) :
    fat16FatItemFree alloc (.live fItem (.directory (.live a directory))) s = .ok ((), { s with
      heap := alloc.kfree fItem (alloc.kfree a (alloc.kfree array s.heap)) }) := by
  have hload : (Exec.lift (Ref.live fItem (FatItem.directory (.live a directory))).load :
      K H FatItem) s = .ok (.directory (.live a directory), s) := rfl
  have hfree : fat16FreeDirectory alloc (.live a directory) s =
      .ok ((), { s with heap := alloc.kfree a (alloc.kfree array s.heap) }) := by
    have hload : (Exec.lift (Ref.live a directory).load : K H FatDirectory) s =
        .ok (directory, s) := rfl
    rw [fat16FreeDirectory, if_neg (by simp), Exec.bind_ok hload, hitem]
    rfl
  rw [fat16FatItemFree, Exec.bind_ok hload]
  dsimp only
  rw [Exec.bind_ok hfree]
  rfl

/-- A directory loaded whole is released. -/
theorem loadAndRelease_whole (alloc : Allocator H)
    (hsub : item.attributes &&& fatFileSubdirectory ≠ 0) {s : KState H}
    (hdir : (directoryBlock alloc s.heap).1 ≠ 0) (hC : 0 < clusterBytes vol) {n T : Nat}
    (hcount : SlotCount vol.disk (storedSubdirectory vol item).start n T)
    (harray : (arrayBlock alloc s.heap T).1 ≠ 0) (hcovered : Covered vol item T) (fItem : U32) :
    ∃ s', loadAndRelease alloc vol item fItem s = .ok ((), s') ∧
      s'.heap = alloc.kfree fItem (alloc.kfree (directoryBlock alloc s.heap).1
        (alloc.kfree (arrayBlock alloc s.heap T).1 (arrayBlock alloc s.heap T).2)) := by
  obtain ⟨bytes, pos, -, hload⟩ := loadDirectory_live hsub hdir hC hcount harray hcovered
  refine ⟨⟨_, pos⟩, ?_, rfl⟩
  rw [loadAndRelease, Exec.bind_ok hload]
  exact fatItemFree_live alloc fItem _ _ _ rfl _

/-- The blocks of a subdirectory that is loaded, as they are recorded. -/
theorem reserving_log {T : Nat} (hdir : (directoryBlock alloc heap).1 ≠ 0)
    (harray : (arrayBlock alloc heap T).1 ≠ 0) (hT : T < 2 ^ 26 + 1) :
    (arrayBlock alloc.reserving (heap, []) T).2.2 =
      .took (directoryBlock alloc heap).1 ::
        if 0 < T then [.took (arrayBlock alloc heap T).1] else [] := by
  have hblocks : blocksFor (BitVec.ofInt 32 (wrap32 (T * sizeofItem))) ≠ 0 ↔ 0 < T := by
    have hsize := arraySize_toNat hT
    rw [Ne, blocksFor_eq_zero_iff, not_or]
    simp only [sizeofItem] at hsize ⊢
    constructor
    · rintro ⟨hne, -⟩
      refine Nat.pos_of_ne_zero ?_
      rintro rfl
      exact hne rfl
    · intro hpos
      exact ⟨fun h0 => by rw [h0] at hsize; simp at hsize; omega, by omega⟩
  have hfirst : (directoryBlock alloc.reserving (heap, [])).2.2 =
      [.took (directoryBlock alloc heap).1] := if_pos ⟨hdir, by decide⟩
  have hsecond : (arrayBlock alloc.reserving (heap, []) T).2.2 =
      if 0 < T then (directoryBlock alloc.reserving (heap, [])).2.2 ++
        [.took (arrayBlock alloc heap T).1]
      else (directoryBlock alloc.reserving (heap, [])).2.2 :=
    if_congr (by rw [← hblocks]; exact and_iff_right harray) rfl rfl
  rw [hsecond, hfirst]
  split <;> rfl

/-- Loading and releasing, as they are recorded. -/
theorem loadAndRelease_log (hsub : item.attributes &&& fatFileSubdirectory ≠ 0) {s : KState H}
    (hdir : (directoryBlock alloc s.heap).1 ≠ 0) (hC : 0 < clusterBytes vol) {n T : Nat}
    (hcount : SlotCount vol.disk (storedSubdirectory vol item).start n T)
    (harray : (arrayBlock alloc s.heap T).1 ≠ 0) (hcovered : Covered vol item T) (fItem : U32) :
    ∃ s', loadAndRelease alloc.reserving vol item fItem ⟨(s.heap, []), s.pos⟩ = .ok ((), s') ∧
      s'.heap.2 = .took (directoryBlock alloc s.heap).1 ::
        (if 0 < T then [.took (arrayBlock alloc s.heap T).1] else []) ++
          [.gave (arrayBlock alloc s.heap T).1, .gave (directoryBlock alloc s.heap).1,
            .gave fItem] := by
  obtain ⟨s', hrun, hheap⟩ := loadAndRelease_whole alloc.reserving (s := ⟨(s.heap, []), s.pos⟩)
    hsub hdir hC hcount harray hcovered fItem
  refine ⟨s', hrun, ?_⟩
  rw [← reserving_log hdir harray hcount.total_lt, hheap]
  show (((arrayBlock alloc.reserving (s.heap, []) T).2.2 ++ [_]) ++ [_]) ++ [_] = _
  simp only [List.append_assoc, List.cons_append, List.nil_append]
  rfl

/-- What loads whole is handed out live. -/
theorem handsOutLive_whole (hsub : item.attributes &&& fatFileSubdirectory ≠ 0) {s : KState H}
    (h : LoadsWhole alloc vol item s.heap) : HandsOutLive alloc vol item s := by
  obtain ⟨hdir, hC, n, T, hcount, hpos, harray, hcovered⟩ := h
  obtain ⟨bytes, pos, -, hload⟩ : ∃ bytes pos, ReadsCounted vol item T bytes ∧
      fat16LoadFatDirectory alloc.reserving vol item ⟨(s.heap, []), s.pos⟩ =
        .ok (.live (directoryBlock alloc s.heap).1
          (loadedSubdirectory (arrayBlock alloc s.heap T).1 T bytes),
            ⟨(arrayBlock alloc.reserving (s.heap, []) T).2, pos⟩) :=
    loadDirectory_live hsub (s := ⟨(s.heap, []), s.pos⟩) hdir hC hcount harray hcovered
  have hlog := reserving_log hdir harray hcount.total_lt
  rw [if_pos hpos] at hlog
  refine ⟨_, _, hload, .inr ⟨_, _, _, _, rfl, rfl, ?_, ?_⟩,
    fun _ => ⟨fun name s e he => ?_, fun fItem => ?_⟩⟩
  · exact ⟨hlog ▸ List.mem_cons_self, by rw [hlog]; simp⟩
  · exact ⟨hlog ▸ List.mem_cons_of_mem _ List.mem_cons_self, by rw [hlog]; simp⟩
  · exact findItem_safe alloc vol rfl name s e he
  · obtain ⟨s', hrun, hlog'⟩ := loadAndRelease_log hsub hdir hC hcount harray hcovered fItem
    rw [if_pos hpos] at hlog'
    exact ⟨[(directoryBlock alloc s.heap).1, (arrayBlock alloc s.heap T).1], s', hrun, hlog'⟩

/-- What is handed out live was loaded without a failure. -/
theorem loadDirectory_of_live {s s' : KState H} {a : U32} {directory : FatDirectory}
    (h : fat16LoadFatDirectory alloc vol item s = .ok (.live a directory, s')) :
    item.attributes &&& fatFileSubdirectory ≠ 0 ∧ (directoryBlock alloc s.heap).1 ≠ 0 ∧
      0 < clusterBytes vol ∧
        ∃ n T, SlotCount vol.disk (storedSubdirectory vol item).start n T ∧
          (arrayBlock alloc s.heap T).1 ≠ 0 ∧ Covered vol item T := by
  have hsub : item.attributes &&& fatFileSubdirectory ≠ 0 := by
    intro hfile
    rw [fat16LoadFatDirectory, if_pos hfile] at h
    cases h
  have hdir : (directoryBlock alloc s.heap).1 ≠ 0 := by
    intro hnull
    rw [loadDirectory_null hsub hnull] at h
    cases h
  obtain ⟨n, T, hcount, hroom⟩ := loadDirectory_returns hsub hdir h
  -- a failure further on leaves a pointer to freed memory
  have hfine : ¬ ((arrayBlock alloc s.heap T).1 = 0 ∨
      (0 < clusterBytes vol ∧ ¬ Covered vol item T)) := by
    intro hfail
    obtain ⟨s₁, hs₁⟩ := loadDirectory_dangling alloc hsub hdir hcount hfail
    cases hs₁.symm.trans h
  rw [not_or, not_and_not_right] at hfine
  have hC := hroom.resolve_left hfine.1
  exact ⟨hsub, hdir, hC, n, T, hcount, hfine.1, hfine.2 hC⟩

/-- What is handed out live was loaded whole. -/
theorem loadsWhole_of_handsOutLive (hsub : item.attributes &&& fatFileSubdirectory ≠ 0)
    {s : KState H} (h : HandsOutLive alloc vol item s) : LoadsWhole alloc vol item s.heap := by
  obtain ⟨p, s', hload, hlive, huse⟩ := h
  obtain ⟨hsearch, hrelease⟩ := huse hsub
  rcases hlive with rfl | ⟨a, directory, -, -, rfl, -⟩
  · -- `NULL` cannot be searched
    exact absurd rfl (hsearch [] s _ rfl).1
  obtain ⟨-, hdir, hC, n, T, hcount, harray, hcovered⟩ := loadDirectory_of_live hload
  have hdir : (directoryBlock alloc s.heap).1 ≠ 0 := hdir
  have harray : (arrayBlock alloc s.heap T).1 ≠ 0 := harray
  refine ⟨hdir, hC, n, T, hcount, ?_, harray, hcovered⟩
  -- of an empty directory three blocks are given back, and only two were reserved
  by_contra hempty
  obtain ⟨taken, s₁, hrun, hlog⟩ := hrelease 0
  obtain ⟨s₂, hrun', hlog'⟩ := loadAndRelease_log hsub hdir hC hcount harray hcovered 0
  cases hrun.symm.trans hrun'
  rw [if_neg hempty] at hlog'
  have hlen := congrArg List.length (hlog.symm.trans hlog')
  simp at hlen
  omega

/-- The array of an empty directory is in a block that stays free. -/
theorem emptyDirectory_unreserved {s s' : KState Heap} {a array : U32} {directory : FatDirectory}
    {bytes : List U8} (h : fat16LoadFatDirectory .kheap vol item s = .ok (.live a directory, s'))
    (hitem : directory.item = .live array bytes) (hempty : directory.total = 0) :
    ∃ b, b < s'.heap.table.total.toNat ∧ array = heapBlockToAddress s'.heap b ∧
      EntryFree (s'.heap.table.entries b) := by
  obtain ⟨hsub, hdir, hC, n, T, hcount, harray, hcovered⟩ := loadDirectory_of_live h
  obtain ⟨bytes', pos, -, hload⟩ := loadDirectory_live hsub hdir hC hcount harray hcovered
  cases hload.symm.trans h
  cases hitem
  obtain rfl : T = 0 := Int.ofNat_eq_zero.mp hempty
  -- the request for its array was one for no bytes
  rcases heapMalloc_zero (directoryBlock .kheap s.heap).2 (show blocksFor 0 = 0 by decide) with
    hfull | ⟨b, hb, hfree, hmalloc⟩
  · exact absurd (congrArg Prod.fst hfull) harray
  · rw [show arrayBlock .kheap s.heap 0 = _ from hmalloc]
    exact ⟨b, hb, rfl, hfree⟩

/-- **Loading hands out what can be searched and released exactly when nothing fails and there is a
slot**: the item is no subdirectory, and nothing is built from the `NULL` that is returned, or its
two allocations succeed, its slots can be counted and there is one, and its chain has the clusters
of those that were. -/
theorem handsOutLive_iff (alloc : Allocator H) (vol : Volume) (item : FatDirectoryItem)
    (s : KState H) :
    HandsOutLive alloc vol item s ↔
      item.attributes &&& fatFileSubdirectory = 0 ∨ LoadsWhole alloc vol item s.heap := by
  by_cases hsub : item.attributes &&& fatFileSubdirectory = 0
  · refine iff_of_true ⟨.null, ⟨(s.heap, []), s.pos⟩, ?_, .inl rfl, fun h => absurd hsub h⟩
      (.inl hsub)
    rw [fat16LoadFatDirectory, if_pos hsub]
    rfl
  · rw [or_iff_right hsub]
    exact ⟨loadsWhole_of_handsOutLive hsub, handsOutLive_whole hsub⟩

end

/-! ### A chain that ends too early -/

/-- Cluster 2 is a sector of sixteen slots in use, and so is the first slot behind it; the FAT is
empty. -/
def shortChainVolume : Volume where
  disk := ⟨fun lba i => if lba = 3 ∨ lba = 4 ∧ i < 32 then 0x41 else 0⟩
  header :=
    { sectorsPerCluster := 1, reservedSectors := 1, fatCopies := 1, rootDirEntries := 16,
      sectorsPerFat := 1 }
  rootDirectory := { item := .null, total := 0, sectorPos := 2, endingSectorPos := 3 }

/-- The slot of the subdirectory `A` in cluster 2. -/
def shortChainItem : FatDirectoryItem :=
  .ofBytes
    (0x41 :: List.replicate 10 0x20 ++ 0x10 :: List.replicate 14 0 ++ 2 :: List.replicate 5 0)

/-- **A directory with more slots than its chain has room for is handed out freed**: a search of it
reads freed memory, and so does its release. -/
theorem shortChain_handedOut_freed :
    (∃ a s', fat16LoadFatDirectory Allocator.ample shortChainVolume shortChainItem
        ⟨0, fun _ => 0⟩ = .ok (.dangling a, s') ∧
      searchDirectory Allocator.ample shortChainVolume (.dangling a) [0x41] s' =
        .error .useAfterFree ∧
      fat16FatItemFree Allocator.ample (.live 0x01000000 (.directory (.dangling a))) s' =
        .error .useAfterFree) ∧
      ¬ HandsOutLive Allocator.ample shortChainVolume shortChainItem ⟨0, fun _ => 0⟩ := by
  have hsub : shortChainItem.attributes &&& fatFileSubdirectory ≠ 0 := by decide
  have hcount : SlotCount shortChainVolume.disk
      (storedSubdirectory shortChainVolume shortChainItem).start 17 17 :=
    ⟨by decide +kernel, by decide +kernel, by decide +kernel, by decide +kernel⟩
  have hshort : ¬ Covered shortChainVolume shortChainItem 17 := by
    intro h
    exact absurd (h (by decide) 1 (by decide)) (by decide +kernel)
  obtain ⟨s', hload⟩ := loadDirectory_dangling Allocator.ample (s := ⟨0, fun _ => 0⟩) hsub
    (by decide) hcount (.inr ⟨by decide, hshort⟩)
  refine ⟨⟨_, s', hload, rfl, rfl⟩, fun h => ?_⟩
  obtain ⟨-, -, n, T, hcount', -, -, hcovered⟩ := loadsWhole_of_handsOutLive hsub h
  obtain rfl := hcount'.unique hcount
  exact hshort hcovered

end KernelNES.Fs
