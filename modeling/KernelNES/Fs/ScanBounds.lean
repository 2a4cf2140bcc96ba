import KernelNES.Fs.LoadedDirectories
import KernelNES.Lib.Traced

/-!
# Fs — ScanBounds

How far the driver scans.  The search of a directory stays inside the array that was loaded whenever
its `total` does (`Inside`); for a subdirectory, whose array is made for the slots that were
counted, it always does.  The array of the root is made for `root_dir_entries` slots, and the
counting pass looks for a terminating slot wherever the disk has one (`scansInside_iff`).
-/

namespace KernelNES.Fs
open KernelNES.Lib KernelNES.Memory

/-! ### The slots that are examined -/

section
variable {H : Type}

/-- `fat16_get_total_items_for_directory`, with a mark for each slot that it examines. -/
def scanItemsLoop (disk : Disk) : (fuel : Nat) → (i : Nat) → Traced Unit Fault (KState H) Int
  | 0, _ => .quiet (Exec.fault .diverges)
  | fuel + 1, i => do
    .mark ()
    let (res, item) ← .quiet (streamRead disk .directory sizeofItem)
    if res ≠ 0 then pure (-eio)
    else if item.headD 0 = 0x00 then pure i
    else if item.headD 0 = 0xE5 then scanItemsLoop disk fuel i
    else scanItemsLoop disk fuel (i + 1)

/-- `fat16_get_total_items_for_directory`, the slots it examines marked. -/
def scanItems (disk : Disk) (directoryStartSector : U32) : Traced Unit Fault (KState H) Int := do
  let directoryStartPos := (directoryStartSector * 512).toInt
  let res ← .quiet (diskstreamerSeek .directory directoryStartPos)
  if res ≠ 0 then pure (-eio) else scanItemsLoop disk totalItemsFuel 0

/-- `fat16_get_root_directory`, the slots it examines marked. -/
def scanRootDirectory (alloc : Allocator H) (disk : Disk) (header : FatHeader) :
    Traced Unit Fault (KState H) (Int × Option FatDirectory) := do
  let totalItems ← scanItems disk (BitVec.ofInt 32 (rootDirSectorPos header))
  .quiet do
    let dir ← kzalloc alloc (BitVec.ofInt 32 (rootDirSize header))
    if dir = 0 then pure (-enomem, none)
    else
      let res ← diskstreamerSeek .directory (fat16SectorToAbsolute (rootDirSectorPos header))
      if res ≠ 0 then do
        kfree alloc dir
        pure (-eio, none)
      else
        let (res, bytes) ← streamRead disk .directory (rootDirSize header)
        if res ≠ 0 then do
          kfree alloc dir
          pure (-eio, none)
        else
          pure (0, some
            { item := .live dir bytes
              total := totalItems
              sectorPos := rootDirSectorPos header
              endingSectorPos := rootDirSectorPos header + rootDirTotalSectors header })

/-- Without its marks, the scan is the code's. -/
theorem scanItemsLoop_erase (disk : Disk) (fuel i : Nat) :
    (scanItemsLoop (H := H) disk fuel i).erase = fat16GetTotalItemsLoop disk fuel i := by
  induction fuel generalizing i with
  | zero => rfl
  | succ fuel ih =>
    simp only [scanItemsLoop, fat16GetTotalItemsLoop, Traced.erase_bind, Traced.erase_mark,
      Traced.erase_quiet, Traced.erase_ite, Traced.erase_pure, pure_bind, ih]

theorem scanItems_erase (disk : Disk) (sector : U32) :
    (scanItems (H := H) disk sector).erase = fat16GetTotalItemsForDirectory disk sector := by
  simp only [scanItems, fat16GetTotalItemsForDirectory, Traced.erase_bind, Traced.erase_quiet,
    Traced.erase_ite, Traced.erase_pure, scanItemsLoop_erase]

/-- Without the marks it is the root directory that is loaded. -/
theorem scanRootDirectory_erase (alloc : Allocator H) (disk : Disk) (header : FatHeader) :
    (scanRootDirectory alloc disk header).erase = fat16GetRootDirectory alloc disk header := by
  simp only [scanRootDirectory, fat16GetRootDirectory, Traced.erase_bind, Traced.erase_quiet,
    scanItems_erase]

/-- The pass examines the slots in use and the one that ends them. -/
theorem scanItemsLoop_trace {disk : Disk} {p : Int} {n T : Nat} (hcount : SlotCount disk p n T)
    (fuel : Nat) (hfuel : n < fuel) (i : Nat) {s : KState H} (hs : s.pos .directory = wrap32 p) :
    ((scanItemsLoop disk fuel i).trace s).length = n + 1 := by
  induction n generalizing p T fuel i s with
  | zero =>
    obtain ⟨fuel, rfl⟩ : ∃ m, fuel = m + 1 := ⟨fuel - 1, by omega⟩
    obtain ⟨hsound, h₀, -⟩ := slotCount_zero.mp hcount
    rw [scanItemsLoop, Traced.trace_mark_bind,
      Traced.trace_quiet_bind_ok (streamRead_slot hs hsound)]
    simp only [ne_eq, not_true_eq_false, if_false, bytesAt_headD]
    rw [if_pos h₀]
    rfl
  | succ n ih =>
    obtain ⟨fuel, rfl⟩ : ∃ m, fuel = m + 1 := ⟨fuel - 1, by omega⟩
    obtain ⟨hsound, h₀, T', hcount, -⟩ := slotCount_succ.mp hcount
    have hs' : (Function.update s.pos .directory (wrap32 (p + sizeofItem))) .directory =
        wrap32 (p + sizeofItem) := Function.update_self ..
    rw [scanItemsLoop, Traced.trace_mark_bind,
      Traced.trace_quiet_bind_ok (streamRead_slot hs hsound)]
    simp only [ne_eq, not_true_eq_false, if_false, bytesAt_headD]
    rw [if_neg h₀]
    split
    all_goals rw [List.length_cons, ih hcount fuel (by omega) _ hs']

/-- The scan examines the counted slots, and the one that ends them. -/
theorem scanRootDirectory_trace {alloc : Allocator H} {disk : Disk} {header : FatHeader} {n T : Nat}
    (hcount : SlotCount disk (storedRoot disk header).start n T) (s : KState H) :
    ((scanRootDirectory alloc disk header).trace s).length = n + 1 := by
  simp only [storedRoot] at hcount
  obtain ⟨s₁, hs₁⟩ :=
    (getTotalItems_eq_ok disk (rootDirSectorPos header) T s).mpr ⟨n, T, hcount, rfl⟩
  rw [← scanItems_erase] at hs₁
  have hs : (Function.update s.pos .directory
      (BitVec.ofInt 32 (rootDirSectorPos header) * 512).toInt) .directory =
        wrap32 (wrap32 (rootDirSectorPos header * 512)) := by
    rw [Function.update_self, directoryStartPos_eq, wrap32_wrap32]
  have hn := hcount.lt (by rw [wrap32_emod _ (by decide)]; omega) (le_wrap32 _) (wrap32_lt _)
  have hloop := scanItemsLoop_trace hcount totalItemsFuel (by simp only [totalItemsFuel]; omega) 0
    (s := ⟨s.heap, Function.update s.pos .directory _⟩) hs
  rw [scanRootDirectory, Traced.trace_bind_ok hs₁, Traced.trace_quiet, List.append_nil, scanItems]
  exact hloop

end

/-! ### Staying inside the directory -/

/-- `total` is within the array that was loaded, and so is every slot that a search reads. -/
structure Inside (directory : FatDirectory) : Prop where
  live : ∃ addr bytes, directory.item = .live addr bytes ∧ 0 ≤ directory.total ∧
    directory.total ≤ (bytes.length / sizeofItem : Nat)
  slots : ∀ i < directory.total.toNat, ∃ item, directory.slot i = .ok item

/-- Every scan of a directory of the disk stays inside it: the root is loaded, or there is no block
for it, after at most `root_dir_entries` slots were examined, and whatever is loaded has its `total`
within its array. -/
structure ScansInside (disk : Disk) (header : FatHeader) : Prop where
  root : ∀ {H : Type} (alloc : Allocator H) (s : KState H),
    (∃ r s', fat16GetRootDirectory alloc disk header s = .ok (r, s')) ∧
      ((scanRootDirectory alloc disk header).trace s).length ≤ header.rootDirEntries.toNat
  loadedRoot : ∀ {H : Type} (alloc : Allocator H) (s s' : KState H) (directory : FatDirectory),
    fat16GetRootDirectory alloc disk header s = .ok ((0, some directory), s') → Inside directory
  loadedSubdirectory : ∀ {H : Type} (alloc : Allocator H) (root : FatDirectory)
    (item : FatDirectoryItem) (s s' : KState H) (addr : U32) (directory : FatDirectory),
    fat16LoadFatDirectory alloc ⟨disk, header, root⟩ item s = .ok (.live addr directory, s') →
      Inside directory

/-- An array long enough holds every slot. -/
theorem inside_of_length {directory : FatDirectory} {addr : U32} {bytes : List U8} {T : Nat}
    (hitem : directory.item = .live addr bytes) (htotal : directory.total = T)
    (hlen : sizeofItem * T ≤ bytes.length) : Inside directory := by
  refine ⟨⟨addr, bytes, hitem, by omega, ?_⟩, fun i hi => ?_⟩
  · rw [htotal]
    simp only [sizeofItem] at hlen ⊢
    omega
  · rw [slot_of_live hitem, if_pos (by simp only [sizeofItem] at hlen ⊢; omega)]
    exact ⟨_, rfl⟩

/-- **Every subdirectory that is loaded has as many slots as were counted.** -/
theorem inside_of_loadFatDirectory {H : Type} {alloc : Allocator H} {vol : Volume}
    {item : FatDirectoryItem} {s s' : KState H} {addr : U32} {directory : FatDirectory}
    (h : fat16LoadFatDirectory alloc vol item s = .ok (.live addr directory, s')) :
    Inside directory := by
  by_cases hsub : item.attributes &&& fatFileSubdirectory = 0
  · rw [fat16LoadFatDirectory, if_pos hsub] at h
    cases h
  have hdir : (directoryBlock alloc s.heap).1 ≠ 0 := by
    intro hnull
    rw [loadDirectory_null hsub hnull] at h
    cases h
  obtain ⟨n, T, hcount, hroom⟩ := loadDirectory_returns hsub hdir h
  by_cases hfail : (arrayBlock alloc s.heap T).1 = 0 ∨
      (0 < clusterBytes vol ∧ ¬ Covered vol item T)
  · obtain ⟨s₁, hs₁⟩ := loadDirectory_dangling alloc hsub hdir hcount hfail
    rw [hs₁] at h
    cases h
  · rw [not_or, not_and_not_right] at hfail
    have hC := hroom.resolve_left hfail.1
    obtain ⟨bytes, pos, -, hload⟩ :=
      loadDirectory_live hsub hdir hC hcount hfail.1 (hfail.2 hC)
    rw [hload] at h
    cases h
    exact inside_of_length rfl rfl (zeroPadded_length hcount.total_lt bytes)

/-- **The scans stay inside their directories exactly when one of the first `root_dir_entries` slots
of the root ends it.** -/
theorem scansInside_iff (disk : Disk) (header : FatHeader) :
    ScansInside disk header ↔
      ∃ n T, SlotCount disk (storedRoot disk header).start n T ∧
        n < header.rootDirEntries.toNat := by
  constructor
  · intro h
    obtain ⟨⟨r, s', hload⟩, hlen⟩ := h.root Allocator.ample ⟨0, fun _ => 0⟩
    obtain ⟨n, T, hcount⟩ := getRootDirectory_count hload
    rw [scanRootDirectory_trace hcount] at hlen
    exact ⟨n, T, hcount, hlen⟩
  · rintro ⟨n, T, hcount, hn⟩
    -- how loading the root ends, whatever the heap answers
    have hload : ∀ {H : Type} (alloc : Allocator H) (s : KState H), ∃ addr s',
        fat16GetRootDirectory alloc disk header s = .ok (if addr = 0 then (-enomem, none)
          else (0, some (Fs.loadedRoot disk header addr T)), s') := by
      intro H alloc s
      simp only [storedRoot] at hcount
      obtain ⟨s₁, hs₁⟩ :=
        (getTotalItems_eq_ok disk (rootDirSectorPos header) T s).mpr ⟨n, T, hcount, rfl⟩
      obtain ⟨pos, h⟩ := getRootDirectory_read hs₁ (rfl : kzalloc alloc _ s₁ = _)
      exact ⟨_, _, h⟩
    refine ⟨fun alloc s => ⟨?_, ?_⟩, fun alloc s s' directory h => ?_,
      fun alloc root item s s' addr directory h => inside_of_loadFatDirectory h⟩
    · obtain ⟨addr, s', h⟩ := hload alloc s
      exact ⟨_, s', h⟩
    · rw [scanRootDirectory_trace hcount]
      exact hn
    · obtain ⟨addr, s', h'⟩ := hload alloc s
      rw [h] at h'
      split at h'
      · cases h'
      · cases h'
        refine inside_of_length rfl rfl ?_
        rw [bytesAt_length]
        have := hcount.total_le
        simp only [sizeofItem]
        omega

/-! ### A full root directory -/

/-- The sixteen slots of the root directory, which is sector 2, are in use; so is the first slot of
the sector behind it, which belongs to the first file. -/
def fullRootDisk : Disk := ⟨fun lba i => if lba = 2 ∨ lba = 3 ∧ i < 32 then 0x41 else 0⟩

/-- **The slots of a full root are counted on into the data behind it**: eighteen are examined, and
`total` is one more than the array holds. -/
theorem fullRoot_outruns :
    (∃ directory s', fat16GetRootDirectory Allocator.ample fullRootDisk twoSlotHeader
        ⟨0, fun _ => 0⟩ = .ok ((0, some directory), s') ∧ directory.total = 17 ∧
        directory.slot 16 = .error .outOfBounds) ∧
      ((scanRootDirectory Allocator.ample fullRootDisk twoSlotHeader).trace
        ⟨0, fun _ => 0⟩).length = 18 ∧
      ¬ ScansInside fullRootDisk twoSlotHeader := by
  have hcount : SlotCount fullRootDisk (storedRoot fullRootDisk twoSlotHeader).start 17 17 :=
    ⟨by decide +kernel, by decide +kernel, by decide +kernel, by decide +kernel⟩
  obtain ⟨directory, s', hload, hholds, -⟩ := getRootDirectory_of_count Allocator.ample_succeeds
    fullRootDisk twoSlotHeader hcount ⟨0, fun _ => 0⟩
  refine ⟨⟨directory, s', hload, hholds.total, hholds.missing 16 (by decide) rfl⟩,
    scanRootDirectory_trace hcount _, fun h => ?_⟩
  have hlen := (h.root Allocator.ample ⟨0, fun _ => 0⟩).2
  rw [scanRootDirectory_trace hcount] at hlen
  exact absurd hlen (by decide)

end KernelNES.Fs
