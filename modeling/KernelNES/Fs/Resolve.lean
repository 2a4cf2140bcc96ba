import KernelNES.Fs.DirectoryLoad
import KernelNES.Fs.ReadEffects

/-!
# Fs — Resolve

`fat16_resolve`.  Of the header it checks the signature and nothing else, so a disk is accepted with
whatever the other fields are (`resolve_accepted`), once its root directory can be loaded
(`resolve_of_count`).
-/

namespace KernelNES.Fs
open KernelNES.Lib KernelNES.Memory

/-- `sizeof(struct fat_h)`. -/
def sizeofFatH : Nat := 62

/-- The `struct fat_header` a `struct fat_h` starts with. -/
def FatHeader.ofBytes (bytes : List U8) : FatHeader where
  sectorsPerCluster := bytes.getD 13 0
  reservedSectors := le16 bytes 14
  fatCopies := bytes.getD 16 0
  rootDirEntries := le16 bytes 17
  sectorsPerFat := le16 bytes 22

/-- `shared.extended_header.signature` of a `struct fat_h`. -/
def fatSignature (bytes : List U8) : U8 := bytes.getD 38 0

section
variable {H : Type}

/-- `diskstreamer_new` of the only disk: the position is written through what `kzalloc` returned. -/
def diskstreamerNew (alloc : Allocator H) : K H U32 := do
  let streamer ← kzalloc alloc 8
  if streamer = 0 then Exec.fault .nullDeref else pure streamer

/-- A stream of the driver from `diskstreamer_new`. -/
def driverStreamNew (alloc : Allocator H) (stream : StreamId) : K H Unit := do
  let _ ← diskstreamerNew alloc
  let _ ← diskstreamerSeek stream 0

/-- `fat16_init_private`. -/
def fat16InitPrivate (alloc : Allocator H) (private' : U32) : K H Unit := do
  -- `memset`, whatever `kzalloc` returned
  if private' = 0 then Exec.fault .nullDeref
  else do
    driverStreamNew alloc .clusterRead
    driverStreamNew alloc .fatRead
    driverStreamNew alloc .directory

/-- `fat16_resolve`, from the read of the header to its label `out`: the status and, when it is `0`,
the volume. -/
def fat16ReadVolume (alloc : Allocator H) (disk : Disk) : K H (Int × Option Volume) := do
  -- the stream is a new one, at position `0`
  let (res, bytes, _) ← Exec.lift (diskstreamerRead disk 0 sizeofFatH)
  if res ≠ 0 then pure (-eio, none)
  else if fatSignature bytes ≠ 0x29 then pure (-efsnotus, none)
  else do
    let header := FatHeader.ofBytes bytes
    let (res, directory) ← fat16GetRootDirectory alloc disk header
    if res ≠ 0 then pure (-eio, none)
    else pure (0, directory.map fun rootDirectory => { disk, header, rootDirectory })

/-- `fat16_resolve`: the status and, when it is `0`, the volume. -/
def fat16Resolve (alloc : Allocator H) (disk : Disk) : K H (Int × Option Volume) := do
  let fatPrivate ← kzalloc alloc 92
  fat16InitPrivate alloc fatPrivate
  let stream ← diskstreamerNew alloc
  let (res, vol) ← fat16ReadVolume alloc disk
  -- `diskstreamer_close`
  kfree alloc stream
  if res < 0 then do
    kfree alloc fatPrivate
    pure (res, none)
  else pure (res, vol)

/-! ### What is accepted -/

/-- The `struct fat_h` of a disk. -/
def bootHeader (disk : Disk) : List U8 := bytesAt disk 0 sizeofFatH

/-- The boot sector is read from the start of the disk. -/
theorem bootHeader_read (disk : Disk) :
    diskstreamerRead disk 0 sizeofFatH = .ok (0, bootHeader disk, 62) :=
  diskstreamerRead_spec disk (.inl le_rfl) (by decide) (by decide) (by decide) (by decide)

variable {alloc : Allocator H} {disk : Disk}

/-- An accepted volume has the header on the disk, and the signature. -/
theorem readVolume_accepted {vol : Volume} {s s' : KState H}
    (h : fat16ReadVolume alloc disk s = .ok ((0, some vol), s')) :
    vol.disk = disk ∧ vol.header = .ofBytes (bootHeader disk) ∧
      fatSignature (bootHeader disk) = 0x29 := by
  rw [fat16ReadVolume, bootHeader_read, Exec.lift_ok_bind] at h
  dsimp only at h
  rw [if_neg (not_not.mpr rfl)] at h
  split at h
  · cases h
  · rename_i hsig
    obtain ⟨⟨res, directory⟩, s₁, -, h⟩ := Exec.bind_eq_ok.mp h
    dsimp only at h
    split at h
    · cases h
    · cases directory with
      | none => cases h
      | some rootDirectory =>
        cases h
        exact ⟨rfl, rfl, not_not.mp hsig⟩

/-- What an accepted disk says of its volume. -/
theorem resolve_accepted {vol : Volume} {s s' : KState H}
    (h : fat16Resolve alloc disk s = .ok ((0, some vol), s')) :
    vol.disk = disk ∧ vol.header = .ofBytes (bootHeader disk) ∧
      fatSignature (bootHeader disk) = 0x29 := by
  obtain ⟨fatPrivate, s₁, -, h⟩ := Exec.bind_eq_ok.mp h
  obtain ⟨⟨⟩, s₂, -, h⟩ := Exec.bind_eq_ok.mp h
  obtain ⟨stream, s₃, -, h⟩ := Exec.bind_eq_ok.mp h
  obtain ⟨⟨res, found⟩, s₄, hread, h⟩ := Exec.bind_eq_ok.mp h
  dsimp only at h
  obtain ⟨⟨⟩, s₅, -, h⟩ := Exec.bind_eq_ok.mp h
  split at h
  · obtain ⟨⟨⟩, s₆, -, h⟩ := Exec.bind_eq_ok.mp h
    cases h
  · cases h
    exact readVolume_accepted hread

/-! ### A disk that is accepted -/

/-- The heap, with the block of one more stream taken. -/
def streamTaken (alloc : Allocator H) (heap : H) : H := (alloc.kzalloc 8 heap).2

/-- The heap, with the blocks of `struct fat_private` and its three streams taken. -/
def privateTaken (alloc : Allocator H) (heap : H) : H :=
  streamTaken alloc (streamTaken alloc (streamTaken alloc (alloc.kzalloc 92 heap).2))

/-- The array of the root directory, and the heap with it. -/
def rootBlock (alloc : Allocator H) (disk : Disk) (heap : H) : U32 × H :=
  alloc.kzalloc (BitVec.ofInt 32 (rootDirSize (.ofBytes (bootHeader disk))))
    (streamTaken alloc (privateTaken alloc heap))

/-- The volume of a disk with `T` slots counted in its root, loaded to `addr`. -/
def resolvedVolume (disk : Disk) (addr : U32) (T : Nat) : Volume where
  disk := disk
  header := .ofBytes (bootHeader disk)
  rootDirectory := loadedRoot disk (.ofBytes (bootHeader disk)) addr T

/-- A stream is made when its block is. -/
theorem diskstreamerNew_ok (hsucc : alloc.Succeeds) (s : KState H) :
    diskstreamerNew alloc s =
      .ok ((alloc.kzalloc 8 s.heap).1, { s with heap := streamTaken alloc s.heap }) := by
  have hcall : kzalloc alloc 8 s =
      .ok ((alloc.kzalloc 8 s.heap).1, { s with heap := streamTaken alloc s.heap }) := rfl
  rw [diskstreamerNew, Exec.bind_ok hcall, if_neg (hsucc 8 s.heap)]
  rfl

/-- The streams of the driver are made one after the other. -/
theorem driverStreamNew_ok (hsucc : alloc.Succeeds) (stream : StreamId) (s : KState H) :
    ∃ pos, driverStreamNew alloc stream s = .ok ((), ⟨streamTaken alloc s.heap, pos⟩) := by
  rw [driverStreamNew, Exec.bind_ok (diskstreamerNew_ok hsucc s)]
  exact ⟨_, rfl⟩

/-- All three streams are made. -/
theorem initPrivate_ok (hsucc : alloc.Succeeds) {s : KState H} (heap : H)
    (hs : s.heap = (alloc.kzalloc 92 heap).2) :
    ∃ pos, fat16InitPrivate alloc (alloc.kzalloc 92 heap).1 s =
      .ok ((), ⟨privateTaken alloc heap, pos⟩) := by
  obtain ⟨pos₁, h₁⟩ := driverStreamNew_ok hsucc .clusterRead s
  obtain ⟨pos₂, h₂⟩ := driverStreamNew_ok hsucc .fatRead ⟨streamTaken alloc s.heap, pos₁⟩
  obtain ⟨pos₃, h₃⟩ := driverStreamNew_ok hsucc .directory
    ⟨streamTaken alloc (streamTaken alloc s.heap), pos₂⟩
  refine ⟨pos₃, ?_⟩
  rw [fat16InitPrivate, if_neg (hsucc 92 heap), Exec.bind_ok h₁, Exec.bind_ok h₂, h₃, hs]
  rfl

/-- **Every disk with the signature is accepted**, when the slots of its root directory can be
counted and no allocation fails. -/
theorem resolve_of_count (hsucc : alloc.Succeeds) (hsig : fatSignature (bootHeader disk) = 0x29)
    {n T : Nat} (hcount : SlotCount disk (storedRoot disk (.ofBytes (bootHeader disk))).start n T)
    (s : KState H) :
    ∃ stream pos, fat16Resolve alloc disk s =
      .ok ((0, some (resolvedVolume disk (rootBlock alloc disk s.heap).1 T)),
        ⟨alloc.kfree stream (rootBlock alloc disk s.heap).2, pos⟩) := by
  obtain ⟨pos, hinit⟩ := initPrivate_ok hsucc s.heap
    (show (⟨(alloc.kzalloc 92 s.heap).2, s.pos⟩ : KState H).heap = _ from rfl)
  have hstream := diskstreamerNew_ok hsucc (⟨privateTaken alloc s.heap, pos⟩ : KState H)
  -- the root directory is counted and loaded
  simp only [storedRoot] at hcount
  obtain ⟨s₁, hs₁⟩ := (getTotalItems_eq_ok disk (rootDirSectorPos (.ofBytes (bootHeader disk))) T
    ⟨streamTaken alloc (privateTaken alloc s.heap), pos⟩).mpr ⟨n, T, hcount, rfl⟩
  have hheap : s₁.heap = streamTaken alloc (privateTaken alloc s.heap) :=
    getTotalItems_leaves disk _ _ _ _ hs₁
  have hs₂ : kzalloc alloc (BitVec.ofInt 32 (rootDirSize (.ofBytes (bootHeader disk)))) s₁ =
      .ok ((rootBlock alloc disk s.heap).1, ⟨(rootBlock alloc disk s.heap).2, s₁.pos⟩) := by
    rw [rootBlock, ← hheap]
    rfl
  obtain ⟨pos', hroot⟩ := getRootDirectory_read hs₁ hs₂
  have haddr : (rootBlock alloc disk s.heap).1 ≠ 0 := hsucc _ _
  rw [if_neg haddr] at hroot
  have hread : fat16ReadVolume alloc disk ⟨streamTaken alloc (privateTaken alloc s.heap), pos⟩ =
      .ok ((0, some (resolvedVolume disk (rootBlock alloc disk s.heap).1 T)),
        ⟨(rootBlock alloc disk s.heap).2, pos'⟩) := by
    rw [fat16ReadVolume, bootHeader_read, Exec.lift_ok_bind]
    dsimp only
    rw [if_neg (not_not.mpr rfl), if_neg (not_not.mpr hsig), Exec.bind_ok hroot]
    rfl
  have hcall : kzalloc alloc 92 s =
      .ok ((alloc.kzalloc 92 s.heap).1, ⟨(alloc.kzalloc 92 s.heap).2, s.pos⟩) := rfl
  refine ⟨(alloc.kzalloc 8 (privateTaken alloc s.heap)).1, pos', ?_⟩
  rw [fat16Resolve, Exec.bind_ok hcall, Exec.bind_ok hinit, Exec.bind_ok hstream,
    Exec.bind_ok hread]
  rfl

end

end KernelNES.Fs
