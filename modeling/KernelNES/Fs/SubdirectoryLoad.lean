import KernelNES.Fs.DirectoryLoad
import KernelNES.Fs.ReadEffects

/-!
# Fs — SubdirectoryLoad

`fat16_load_fat_directory`.  It allocates the directory, counts the slots, allocates an array for as
many and reads them along the chain of the directory (`loadDirectory_counted`).  How it ends depends
on the answers of the heap, the count and the chain alone: `loadDirectory_null`,
`loadDirectory_dangling`, `loadDirectory_live`.  With a heap that has room it loads the slots that
are stored (`loadFatDirectory_of_count`).
-/

namespace KernelNES.Fs
open KernelNES.Lib KernelNES.Memory

section
variable {H : Type} {alloc : Allocator H} {vol : Volume} {item : FatDirectoryItem}

/-! ### The slots of a subdirectory -/

/-- No more slots in use than slots. -/
theorem SlotCount.total_le {disk : Disk} {p : Int} {n T : Nat} (h : SlotCount disk p n T) :
    T ≤ n := by
  rw [h.count]
  exact (List.countP_le_length ..).trans (by simp)

/-- The size of a slot divides the size of a cluster. -/
theorem sizeofItem_dvd (vol : Volume) :
    clusterBytes vol = sizeofItem * (16 * vol.header.sectorsPerCluster.toNat) := by
  simp only [clusterBytes, sizeofItem]; omega

/-- The chain covers the first `T` slots when each of them is in one of its clusters. -/
theorem chainCovers_iff (hC : 0 < clusterBytes vol) (T : Nat) :
    ChainCovers vol (firstCluster item) (sizeofItem * T) ↔
      ∀ i < T, (storedSubdirectory vol item).slots i ≠ none := by
  constructor
  · intro h i hi
    have := h (sizeofItem * i / clusterBytes vol) (by
      have := Nat.div_mul_le_self (sizeofItem * i) (clusterBytes vol)
      simp only [sizeofItem] at this ⊢; omega)
    simp [storedSubdirectory, hC, this]
  · intro h j hj
    have hslot : j * clusterBytes vol =
        sizeofItem * (j * (16 * vol.header.sectorsPerCluster.toNat)) := by
      rw [sizeofItem_dvd]; ring
    rw [hslot] at hj
    have := h _ (Nat.lt_of_mul_lt_mul_left hj)
    simp only [storedSubdirectory, ← hslot, Nat.mul_div_cancel _ hC] at this
    by_contra hneg
    exact this (if_neg fun h => hneg h.2)

/-- A slot of what is read along the chain. -/
theorem readBytes_slot (hC : 0 < clusterBytes vol) {T i : Nat} (hi : i < T) {bytes : List U8}
    (h : (storedSubdirectory vol item).slots i = some bytes) :
    ((readBytes vol (fun j => clusterAhead vol j (firstCluster item)) 0 (sizeofItem * T)).drop
      (sizeofItem * i)).take sizeofItem = bytes := by
  simp only [storedSubdirectory] at h
  split at h
  swap
  · cases h
  cases h
  rw [readBytes, map_range_slice _ (by simp only [sizeofItem]; omega), bytesAt]
  refine List.map_congr_left fun u hu => ?_
  have hu := List.mem_range.mp hu
  -- the slot lies in one cluster
  have hdiv := Nat.div_add_mod' (sizeofItem * i) (clusterBytes vol)
  have hlt := Nat.mod_lt (sizeofItem * i) hC
  have hdvd : sizeofItem ∣ sizeofItem * i % clusterBytes vol :=
    (Nat.dvd_mod_iff ⟨_, sizeofItem_dvd vol⟩).mpr ⟨i, rfl⟩
  have hin : sizeofItem * i % clusterBytes vol + u < clusterBytes vol := by
    have hC' := sizeofItem_dvd vol
    obtain ⟨x, hx⟩ := hdvd
    simp only [sizeofItem] at hx hlt hu hC' ⊢
    omega
  rw [← hdiv, Nat.add_assoc, Nat.add_comm (_ * _), Nat.add_mul_div_right _ _ hC,
    Nat.div_eq_of_lt hin, Nat.zero_add, Nat.add_mul_mod_self_right, Nat.mod_eq_of_lt hin,
    hdiv, Nat.zero_add]
  push_cast
  rw [Int.add_assoc]

/-- A subdirectory counts fewer than 2²⁶ + 1 slots. -/
theorem SlotCount.total_lt {n T : Nat}
    (h : SlotCount vol.disk (storedSubdirectory vol item).start n T) : T < 2 ^ 26 + 1 := by
  refine Nat.lt_of_le_of_lt h.total_le (h.lt ?_ (le_wrap32 _) (wrap32_lt _))
  have := clusterPos_emod vol (firstCluster item)
  rw [storedSubdirectory, wrap32_emod _ (by decide)]
  exact this

/-! ### The steps of a load -/

/-- The block of the `struct fat_directory`, and the heap behind it. -/
def directoryBlock (alloc : Allocator H) (heap : H) : U32 × H := alloc.kzalloc 16 heap

/-- The block of the array of `T` items, and the heap behind it. -/
def arrayBlock (alloc : Allocator H) (heap : H) (T : Nat) : U32 × H :=
  alloc.kzalloc (BitVec.ofInt 32 (wrap32 (T * sizeofItem))) (directoryBlock alloc heap).2

/-- The chain has the clusters of the `T` slots that were counted.  The size in bytes of `2 ^ 26`
slots is negative as an `int`, and they are not read. -/
def Covered (vol : Volume) (item : FatDirectoryItem) (T : Nat) : Prop :=
  sizeofItem * T < 2 ^ 31 → ChainCovers vol (firstCluster item) (sizeofItem * T)

/-- A subdirectory once it is loaded: the array at `array`, with `bytes` read into it, and `T` slots
that were counted. -/
def loadedSubdirectory (array : U32) (T : Nat) (bytes : List U8) : FatDirectory where
  item := .live array (zeroPadded (BitVec.ofInt 32 (wrap32 (T * sizeofItem))) bytes)
  total := T
  sectorPos := 0
  endingSectorPos := 0

/-- What is read of the `T` slots: their bytes along the chain, and nothing of `2 ^ 26` slots. -/
def ReadsCounted (vol : Volume) (item : FatDirectoryItem) (T : Nat) (bytes : List U8) : Prop :=
  (sizeofItem * T < 2 ^ 31 ∧
      bytes = readBytes vol (fun j => clusterAhead vol j (firstCluster item)) 0 (sizeofItem * T)) ∨
    T = 2 ^ 26 ∧ bytes = []

/-- The size of the array does not wrap. -/
theorem arraySize_toNat {T : Nat} (hT : T < 2 ^ 26 + 1) :
    (BitVec.ofInt 32 (wrap32 (T * sizeofItem))).toNat = sizeofItem * T := by
  rw [ofInt_wrap32, show ((T : Int) * sizeofItem) = ((sizeofItem * T : Nat) : Int) by
    push_cast; ring, BitVec.ofInt_natCast, BitVec.toNat_ofNat, Nat.mod_eq_of_lt]
  simp only [sizeofItem]
  omega

/-- The array has room for the slots that were counted. -/
theorem zeroPadded_length {T : Nat} (hT : T < 2 ^ 26 + 1) (bytes : List U8) :
    sizeofItem * T ≤ (zeroPadded (BitVec.ofInt 32 (wrap32 (T * sizeofItem))) bytes).length := by
  rw [zeroPadded, List.length_append, List.length_replicate, arraySize_toNat hT]
  omega

/-- The position at which `fat16_load_fat_directory` starts to count. -/
theorem subdirectory_start (vol : Volume) (item : FatDirectoryItem) :
    wrap32 (fat16ClusterToSector vol (firstCluster item) * 512) =
      (storedSubdirectory vol item).start := by
  simpa [storedSubdirectory] using startingPos_eq vol (firstCluster item) 0

/-- The second pass fails exactly when the chain ends before the slots that were counted. -/
theorem readCounted_settles (item : FatDirectoryItem) (hC : 0 < clusterBytes vol) {T : Nat}
    (hT : T < 2 ^ 26 + 1) :
    ∃ res bytes, Settles (fat16ReadInternal (H := H) vol (firstCluster item) 0
        (wrap32 (T * sizeofItem))) (.ok (res, bytes)) ∧ (res = 0 ↔ Covered vol item T) ∧
      (Covered vol item T → ReadsCounted vol item T bytes) := by
  obtain ⟨h₀, h₁⟩ := firstCluster_range item
  rcases Nat.lt_or_ge (sizeofItem * T) (2 ^ 31) with hlt | hge
  · have hsize : wrap32 (T * sizeofItem) = ((sizeofItem * T : Nat) : Int) := by
      rw [wrap32_of_nonneg (by simp only [sizeofItem]; omega)
        (by simp only [sizeofItem] at hlt ⊢; omega)]
      push_cast; ring
    rw [hsize]
    by_cases hcovers : ChainCovers vol (firstCluster item) (sizeofItem * T)
    · exact ⟨_, _, readChain_settles h₀ h₁ hC (by omega) hcovers,
        iff_of_true rfl fun _ => hcovers, fun _ => .inl ⟨hlt, rfl⟩⟩
    · obtain ⟨res, out, hread, hres⟩ := readChain_ended (H := H) h₀ h₁ hC (by omega) hcovers
      exact ⟨res, out, hread, iff_of_false hres fun h => hcovers (h hlt),
        fun h => absurd (h hlt) hcovers⟩
  · obtain rfl : T = 2 ^ 26 := by simp only [sizeofItem] at hge; omega
    rw [show wrap32 (((2 ^ 26 : Nat) : Int) * sizeofItem) = -2 ^ 31 by decide]
    refine ⟨_, _, readChain_negative h₀ h₁ hC (by decide) le_rfl, iff_of_true rfl fun h => ?_,
      fun _ => .inr ⟨rfl, rfl⟩⟩
    exact absurd h (by decide)

/-- A read divides by the size of a cluster first. -/
theorem readInternal_clusterBytes {cluster offset total : Int} {s s' : KState H}
    {r : Int × List U8} (h : fat16ReadInternal vol cluster offset total s = .ok (r, s')) :
    0 < clusterBytes vol := by
  rw [fat16ReadInternal, fat16ReadInternalFromStream] at h
  obtain ⟨c, s₁, hget, -⟩ := Exec.bind_eq_ok.mp h
  by_contra hC
  rw [fat16GetClusterForOffset, if_pos (by rw [sizeOfClusterBytes_eq]; omega)] at hget
  cases hget

/-- Freeing a live directory succeeds. -/
theorem freeDirectory_live (alloc : Allocator H) (addr : U32) (directory : FatDirectory)
    (s : KState H) : ∃ s', fat16FreeDirectory alloc (.live addr directory) s = .ok ((), s') := by
  rw [fat16FreeDirectory, if_neg (by simp)]
  rw [Exec.bind_ok (show Exec.lift (Ref.live addr directory).load s = .ok (directory, s) from rfl)]
  by_cases h : directory.item = .null
  · rw [if_neg (by simpa using h)]; exact ⟨_, rfl⟩
  · rw [if_pos h]; exact ⟨_, rfl⟩

/-- Without a block for the directory, the lookup answers `NULL`. -/
theorem loadDirectory_null (hsub : item.attributes &&& fatFileSubdirectory ≠ 0) {s : KState H}
    (hdir : (directoryBlock alloc s.heap).1 = 0) :
    fat16LoadFatDirectory alloc vol item s =
      .ok (.null, { s with heap := (directoryBlock alloc s.heap).2 }) := by
  have hcall : kzalloc alloc 16 s = .ok ((directoryBlock alloc s.heap).1,
      { s with heap := (directoryBlock alloc s.heap).2 }) := rfl
  rw [fat16LoadFatDirectory, if_neg hsub, Exec.bind_ok hcall, if_pos hdir]
  rfl

/-- Loading, up to the array. -/
theorem loadDirectory_counted (hsub : item.attributes &&& fatFileSubdirectory ≠ 0) {s : KState H}
    (hdir : (directoryBlock alloc s.heap).1 ≠ 0) {n T : Nat}
    (hcount : SlotCount vol.disk (storedSubdirectory vol item).start n T) :
    ∃ pos, fat16LoadFatDirectory alloc vol item s =
      (let contents : FatDirectory :=
          { item := .null, total := T, sectorPos := 0, endingSectorPos := 0 }
        let directory := (directoryBlock alloc s.heap).1
        let array := (arrayBlock alloc s.heap T).1
        if array = 0 then do
          fat16FreeDirectory alloc (.live directory contents)
          pure (.dangling directory)
        else do
          let (res, bytes) ←
            fat16ReadInternal vol (firstCluster item) 0x00 (wrap32 (T * sizeofItem))
          let contents := { contents with
            item := .live array (zeroPadded (BitVec.ofInt 32 (wrap32 (T * sizeofItem))) bytes) }
          if res ≠ 0 then do
            fat16FreeDirectory alloc (.live directory contents)
            pure (.dangling directory)
          else pure (.live directory contents) : K H (Ref FatDirectory))
        ⟨(arrayBlock alloc s.heap T).2, pos⟩ := by
  have hcall : kzalloc alloc 16 s = .ok ((directoryBlock alloc s.heap).1,
      { s with heap := (directoryBlock alloc s.heap).2 }) := rfl
  obtain ⟨s₂, hs₂⟩ := (getTotalItems_eq_ok vol.disk
    (fat16ClusterToSector vol (firstCluster item)) T
    { s with heap := (directoryBlock alloc s.heap).2 }).mpr
      ⟨n, T, by rw [subdirectory_start]; exact hcount, rfl⟩
  have hheap : s₂.heap = (directoryBlock alloc s.heap).2 := getTotalItems_leaves _ _ _ _ _ hs₂
  have harray : kzalloc alloc (BitVec.ofInt 32 (wrap32 (T * sizeofItem))) s₂ =
      .ok ((arrayBlock alloc s.heap T).1, ⟨(arrayBlock alloc s.heap T).2, s₂.pos⟩) := by
    rw [kzalloc, hheap]
    rfl
  refine ⟨s₂.pos, ?_⟩
  rw [fat16LoadFatDirectory, if_neg hsub, Exec.bind_ok hcall, if_neg hdir, Exec.bind_ok hs₂,
    Exec.bind_ok harray]

/-- **A failure past the first allocation leaves a pointer to freed memory.** -/
theorem loadDirectory_dangling (alloc : Allocator H)
    (hsub : item.attributes &&& fatFileSubdirectory ≠ 0) {s : KState H}
    (hdir : (directoryBlock alloc s.heap).1 ≠ 0) {n T : Nat}
    (hcount : SlotCount vol.disk (storedSubdirectory vol item).start n T)
    (hfail : (arrayBlock alloc s.heap T).1 = 0 ∨ (0 < clusterBytes vol ∧ ¬ Covered vol item T)) :
    ∃ s', fat16LoadFatDirectory alloc vol item s =
      .ok (.dangling (directoryBlock alloc s.heap).1, s') := by
  obtain ⟨pos, hload⟩ := loadDirectory_counted hsub hdir hcount
  rw [hload]
  dsimp only
  by_cases harray : (arrayBlock alloc s.heap T).1 = 0
  · rw [if_pos harray]
    obtain ⟨s', hs'⟩ := freeDirectory_live alloc (directoryBlock alloc s.heap).1
      { item := .null, total := T, sectorPos := 0, endingSectorPos := 0 }
      ⟨(arrayBlock alloc s.heap T).2, pos⟩
    exact ⟨s', by rw [Exec.bind_ok hs']; rfl⟩
  · obtain ⟨hC, hshort⟩ := hfail.resolve_left harray
    obtain ⟨res, bytes, hread, hres, -⟩ :=
      readCounted_settles (H := H) item hC hcount.total_lt
    obtain ⟨s₁, hs₁⟩ := hread.ok ⟨(arrayBlock alloc s.heap T).2, pos⟩
    rw [if_neg harray, Exec.bind_ok hs₁]
    dsimp only
    rw [if_pos fun h => hshort (hres.mp h)]
    obtain ⟨s', hs'⟩ := freeDirectory_live alloc (directoryBlock alloc s.heap).1 _ s₁
    exact ⟨s', by rw [Exec.bind_ok hs']; rfl⟩

/-- When nothing fails, the directory is the first block and its array the second. -/
theorem loadDirectory_live (hsub : item.attributes &&& fatFileSubdirectory ≠ 0) {s : KState H}
    (hdir : (directoryBlock alloc s.heap).1 ≠ 0) (hC : 0 < clusterBytes vol) {n T : Nat}
    (hcount : SlotCount vol.disk (storedSubdirectory vol item).start n T)
    (harray : (arrayBlock alloc s.heap T).1 ≠ 0) (hcovered : Covered vol item T) :
    ∃ bytes pos, ReadsCounted vol item T bytes ∧ fat16LoadFatDirectory alloc vol item s =
      .ok (.live (directoryBlock alloc s.heap).1
        (loadedSubdirectory (arrayBlock alloc s.heap T).1 T bytes),
          ⟨(arrayBlock alloc s.heap T).2, pos⟩) := by
  obtain ⟨pos, hload⟩ := loadDirectory_counted hsub hdir hcount
  obtain ⟨res, bytes, hread, hres, hbytes⟩ :=
    readCounted_settles (H := H) item hC hcount.total_lt
  obtain ⟨s₁, hs₁⟩ := hread.ok ⟨(arrayBlock alloc s.heap T).2, pos⟩
  have hheap : s₁.heap = (arrayBlock alloc s.heap T).2 := readInternal_leaves _ _ _ _ _ _ _ hs₁
  refine ⟨bytes, s₁.pos, hbytes hcovered, ?_⟩
  rw [hload]
  dsimp only
  rw [if_neg harray, Exec.bind_ok hs₁]
  dsimp only
  rw [if_neg fun h => h (hres.mpr hcovered), ← hheap]
  rfl

/-- Loading returns only when there is no block for the directory, or its slots can be counted and
there is no block for them, or there are clusters to read them from. -/
theorem loadDirectory_returns (hsub : item.attributes &&& fatFileSubdirectory ≠ 0) {s s' : KState H}
    {p : Ref FatDirectory} (hdir : (directoryBlock alloc s.heap).1 ≠ 0)
    (h : fat16LoadFatDirectory alloc vol item s = .ok (p, s')) :
    ∃ n T, SlotCount vol.disk (storedSubdirectory vol item).start n T ∧
      ((arrayBlock alloc s.heap T).1 = 0 ∨ 0 < clusterBytes vol) := by
  have hcall : kzalloc alloc 16 s = .ok ((directoryBlock alloc s.heap).1,
      { s with heap := (directoryBlock alloc s.heap).2 }) := rfl
  obtain ⟨n, T, hcount⟩ : ∃ n T, SlotCount vol.disk (storedSubdirectory vol item).start n T := by
    rw [fat16LoadFatDirectory, if_neg hsub, Exec.bind_ok hcall, if_neg hdir] at h
    obtain ⟨total, s₁, hs₁, -⟩ := Exec.bind_eq_ok.mp h
    obtain ⟨n, T, hcount, -⟩ := (getTotalItems_eq_ok ..).mp ⟨s₁, hs₁⟩
    exact ⟨n, T, by rwa [subdirectory_start] at hcount⟩
  refine ⟨n, T, hcount, ?_⟩
  by_cases harray : (arrayBlock alloc s.heap T).1 = 0
  · exact .inl harray
  · obtain ⟨pos, hload⟩ := loadDirectory_counted hsub hdir hcount
    rw [hload] at h
    dsimp only at h
    rw [if_neg harray] at h
    obtain ⟨r, s₁, hs₁, -⟩ := Exec.bind_eq_ok.mp h
    exact .inr (readInternal_clusterBytes hs₁)

/-! ### Loading the slots that are stored -/

/-- The second pass reads the `T` slots that were counted. -/
def Readable (stored : StoredDirectory) (T : Nat) : Prop :=
  sizeofItem * T < 2 ^ 31 ∧ ∀ i < T, stored.slots i ≠ none

/-- `T` slots that are all zero, which is what an array is whose size in bytes is not an `int`. -/
structure Blank (directory : FatDirectory) (T : Nat) : Prop where
  total : directory.total = T
  slot : ∀ i < T, directory.slot i = .ok (.ofBytes (List.replicate sizeofItem 0))

/-- The array holds the slots that are stored, or, where it was too large to be read, zeros. -/
theorem holds_of_readsCounted (hC : 0 < clusterBytes vol) {T : Nat} (hT : T < 2 ^ 26 + 1)
    {bytes : List U8} (h : ReadsCounted vol item T bytes) (array : U32) :
    (Readable (storedSubdirectory vol item) T →
        Holds (loadedSubdirectory array T bytes) (storedSubdirectory vol item) T) ∧
      (sizeofItem * T < 2 ^ 31 ∨ Blank (loadedSubdirectory array T bytes) T) := by
  have hsize := arraySize_toNat hT
  rcases h with ⟨hlt, rfl⟩ | ⟨rfl, rfl⟩
  · refine ⟨fun hreadable => ⟨rfl, fun i hi bytes hbytes => ?_,
      fun i hi hnone => absurd hnone (hreadable.2 i hi)⟩, .inl hlt⟩
    have hlen : (readBytes vol (fun j => clusterAhead vol j (firstCluster item)) 0
        (sizeofItem * T)).length = sizeofItem * T := by simp [readBytes]
    rw [slot_of_live rfl, zeroPadded, hsize, hlen, Nat.sub_self, List.replicate_zero,
      List.append_nil, hlen, if_pos (by simp only [sizeofItem]; omega),
      readBytes_slot hC hi hbytes]
  · refine ⟨fun hreadable => absurd hreadable.1 (by decide), .inr ⟨rfl, fun i hi => ?_⟩⟩
    rw [slot_of_live rfl, zeroPadded, List.nil_append, List.length_nil, Nat.sub_zero, hsize,
      List.length_replicate, if_pos (by simp only [sizeofItem]; omega), List.drop_replicate,
      List.take_replicate, Nat.min_eq_left (by simp only [sizeofItem]; omega)]

/-- **A subdirectory is loaded with the slots that were counted**, unless its chain ends before;
then the pointer is dangling. -/
theorem loadFatDirectory_of_count (hsucc : alloc.Succeeds)
    (hsub : item.attributes &&& fatFileSubdirectory ≠ 0) (hC : 0 < clusterBytes vol) {n T : Nat}
    (hcount : SlotCount vol.disk (storedSubdirectory vol item).start n T) (s : KState H) :
    ∃ p s', fat16LoadFatDirectory alloc vol item s = .ok (p, s') ∧
      (Readable (storedSubdirectory vol item) T →
        ∃ addr directory, p = .live addr directory ∧
          Holds directory (storedSubdirectory vol item) T) ∧
      ∀ addr directory, p = .live addr directory →
        Readable (storedSubdirectory vol item) T ∨ Blank directory T := by
  have hdir : (directoryBlock alloc s.heap).1 ≠ 0 := hsucc _ _
  have harray : (arrayBlock alloc s.heap T).1 ≠ 0 := hsucc _ _
  by_cases hcovered : Covered vol item T
  · obtain ⟨bytes, pos, hbytes, hload⟩ := loadDirectory_live hsub hdir hC hcount harray hcovered
    obtain ⟨hholds, hblank⟩ :=
      holds_of_readsCounted hC hcount.total_lt hbytes (arrayBlock alloc s.heap T).1
    refine ⟨_, _, hload, fun h => ⟨_, _, rfl, hholds h⟩, fun addr directory h => ?_⟩
    cases h
    exact hblank.imp_left fun hlt => ⟨hlt, (chainCovers_iff hC T).mp (hcovered hlt)⟩
  · -- the chain ends before the items do: the directory is freed again
    obtain ⟨s', hload⟩ := loadDirectory_dangling alloc hsub hdir hcount (.inr ⟨hC, hcovered⟩)
    refine ⟨_, s', hload, fun h => ?_, fun _ _ h => by cases h⟩
    exact absurd (fun _ => (chainCovers_iff hC T).mpr h.2) hcovered

/-- The subdirectory of the item can be loaded: there are clusters, and the counting pass comes to
an end. -/
def Loads (vol : Volume) (item : FatDirectoryItem) : Prop :=
  0 < clusterBytes vol ∧
    ∃ n T, SlotCount vol.disk (storedSubdirectory vol item).start n T

/-- A subdirectory is loaded, or found broken, only when its slots can be counted. -/
theorem loads_of_loadFatDirectory (hsucc : alloc.Succeeds)
    (hsub : item.attributes &&& fatFileSubdirectory ≠ 0) {s s' : KState H} {p : Ref FatDirectory}
    (h : fat16LoadFatDirectory alloc vol item s = .ok (p, s')) : Loads vol item := by
  obtain ⟨n, T, hcount, hroom⟩ := loadDirectory_returns hsub (hsucc _ _) h
  exact ⟨hroom.resolve_left (hsucc _ _), n, T, hcount⟩

end

end KernelNES.Fs
