import KernelNES.Emulator.Reset
import KernelNES.Fs.FatFile
import Mathlib.Data.List.GetD

/-!
# Emulator — RomLoad

`emu_reset` over the files of the kernel: a ROM file on a FAT16 volume ends up in the memory of the
emulator.  `fread` reads the header, `fseek` goes to its end and `fread` reads the ROM, both times
from the file's first cluster; so for a cluster of at least `0x8010` bytes the header and the ROM
are the first bytes of the file (`reset_loads_rom`), when they are read at all.  The calls check
nothing of what `fopen` gave them: a descriptor of `512` is rejected by each of them, and a file
whose directory item was not cloned is read through `NULL` (`reset_loads_rom_iff`).
-/

namespace KernelNES.Emulator
open KernelNES.Lib KernelNES.Memory
open KernelNES.Fs (FileState FileDescriptor FatState FatDirectoryItem Volume MountedDisk Name FileAt
  romVolume romSlot bootFiles)

/-- The characters of a C string. -/
def cString (s : String) : Name := s.toUTF8.data.toList.map UInt8.toBitVec

/-- The values of `FILE_SEEK_MODE` the emulator passes. -/
def FileSeekMode.toFs : FileSeekMode → Fs.FileSeekMode
  | .set       => .seekSet
  | .cur       => .seekCur
  | .endOfFile => .seekEnd

/-- The buffer once `bytes` are written to its start. -/
def overwrite (buffer : U16 → U8) (bytes : List U8) : U16 → U8 := fun i =>
  bytes.getD i.toNat (buffer i)

/-- The files of the kernel, until a call stops at a fault. -/
def kernelFiles {H : Type} (alloc : Allocator H) (disk : MountedDisk H) :
    FileOps (Except Fault (FileState H)) where
  fopen filename mode v :=
    match v >>= Fs.fopen alloc disk (cString filename) (cString mode) with
    | .ok (fd, s) => (fd, .ok s)
    | .error e => (0, .error e)
  fread buffer size nmemb fd v :=
    match v >>= Fs.fread size nmemb fd with
    | .ok ((res, bytes), s) => (overwrite buffer bytes, res, .ok s)
    | .error e => (buffer, 0, .error e)
  fseek fd offset whence v :=
    match v >>= Fs.fseek fd offset whence.toFs with
    | .ok (res, s) => (res, .ok s)
    | .error e => (0, .error e)

section
variable {H : Type} {alloc : Allocator H} {disk : MountedDisk H} {s s' : FileState H} {fd res : Int}

/-- `fopen`, through the files of the kernel. -/
theorem kernelFiles_fopen {filename mode : String}
    (h : Fs.fopen alloc disk (cString filename) (cString mode) s = .ok (fd, s')) :
    (kernelFiles alloc disk).fopen filename mode (.ok s) = (fd, .ok s') := by
  have hbind : (Except.ok s >>= Fs.fopen alloc disk (cString filename) (cString mode)) =
      .ok (fd, s') := h
  simp only [kernelFiles, hbind]

/-- `fread`, through the files of the kernel. -/
theorem kernelFiles_fread {size nmemb : U32} {bytes : List U8} (buffer : U16 → U8)
    (h : Fs.fread size nmemb fd s = .ok ((res, bytes), s')) :
    (kernelFiles alloc disk).fread buffer size nmemb fd (.ok s) =
      (overwrite buffer bytes, res, .ok s') := by
  have hbind : (Except.ok s >>= Fs.fread size nmemb fd) = .ok ((res, bytes), s') := h
  simp only [kernelFiles, hbind]

/-- `fseek`, through the files of the kernel. -/
theorem kernelFiles_fseek {offset : Int} {whence : FileSeekMode}
    (h : Fs.fseek fd offset whence.toFs s = .ok (res, s')) :
    (kernelFiles alloc disk).fseek fd offset whence (.ok s) = (res, .ok s') := by
  have hbind : (Except.ok s >>= Fs.fseek fd offset whence.toFs) = .ok (res, s') := h
  simp only [kernelFiles, hbind]

end

/-! ### `emu_reset` -/

section
variable {H : Type} {alloc : Allocator H} {vol : Volume} {s s' : FileState (FatState H)} {fd : Int}
  {item : FatDirectoryItem}

/-- `emu_reset` up to `emu_run`, with an open file. -/
theorem emuReset_of_fopen {V : Type} {files : FileOps V} {v v₁ v₂ v₃ v₄ : V} {m : Machine}
    {fd res₁ res₂ res₃ : Int} {header ROM : U16 → U8}
    (hopen : files.fopen m.filepath "r" v = (fd, v₁)) (hfd : fd ≠ 0)
    (hheader : files.fread m.header 0x10 1 fd v₁ = (header, res₁, v₂))
    (hseek : files.fseek fd 0x10 .set v₂ = (res₂, v₃))
    (hROM : files.fread m.ROM 0x8000 1 fd v₃ = (ROM, res₃, v₄)) :
    let r := emuReset files .leftFirst 0 (fun _ => 0) v m
    r.1 = v₄ ∧ r.2.header = header ∧ r.2.ROM = ROM ∧ r.2.RAM = m.RAM ∧
      r.2.registers =
        { m.registers with
          flags := m.registers.flags ||| flagInterruptDisable
          programCounter := word (ROM 0x7FFD) (ROM 0x7FFC)
          stackPointer := 0xFD } := by
  have hload : loadFile files fd v₁ m =
      (setStatusFlag flagInterruptDisable true >>= fun _ => pure v₄ : CPU V)
        { m with header, ROM } := by
    show ((fun r₁ : (U16 → U8) × Int × V => (fun r₂ : Int × V =>
      (fun r₃ : (U16 → U8) × Int × V =>
        (setStatusFlag flagInterruptDisable true >>= fun _ => pure r₃.2.2 : CPU V)
          { m with header := r₁.1, ROM := r₃.1 })
        (files.fread m.ROM 0x8000 1 fd r₂.2))
      (files.fseek fd 0x10 .set r₁.2.2)) (files.fread m.header 0x10 1 fd v₁)) = _
    rw [hheader]
    dsimp only
    rw [hseek]
    dsimp only
    rw [hROM]
  -- `fopen` gave a descriptor, so that `emu_reset` loads the file
  have hrun : emuReset files .leftFirst 0 (fun _ => 0) v m =
      ((fun r : Int × V => (if r.1 ≠ 0 then loadFile files r.1 r.2 else pure r.2) >>= fun v => do
        resetVector
        emuRun .leftFirst 0 (fun _ => 0)
        pure v) (files.fopen m.filepath "r" v) : CPU V) m := rfl
  rw [hopen] at hrun
  simp only [if_pos hfd] at hrun
  have hdone : emuReset files .leftFirst 0 (fun _ => 0) v m =
      (v₄, (resetVector (loadFile files fd v₁ m).2).2) := by
    rw [hrun]
    show ((loadFile files fd v₁ m).1, (resetVector (loadFile files fd v₁ m).2).2) = _
    rw [hload]
    rfl
  intro r
  have hr : r = (v₄, (resetVector (loadFile files fd v₁ m).2).2) := hdone
  rw [hr, hload]
  exact ⟨rfl, rfl, rfl, rfl, rfl⟩

/-- What `emu_reset` loads from an open file. -/
theorem resetState_of_fopen {V : Type} {files : FileOps V} {v v₁ v₂ v₃ v₄ : V} {m : Machine}
    {fd res₁ res₂ res₃ : Int} {header ROM : U16 → U8}
    (hopen : files.fopen m.filepath "r" v = (fd, v₁)) (hfd : fd ≠ 0)
    (hheader : files.fread m.header 0x10 1 fd v₁ = (header, res₁, v₂))
    (hseek : files.fseek fd 0x10 .set v₂ = (res₂, v₃))
    (hROM : files.fread m.ROM 0x8000 1 fd v₃ = (ROM, res₃, v₄)) :
    let m' := resetState files v m
    m'.header = header ∧ m'.ROM = ROM ∧ m'.RAM = m.RAM ∧
      m'.registers =
        { m.registers with
          flags := m.registers.flags ||| flagInterruptDisable
          programCounter := word (ROM 0x7FFD) (ROM 0x7FFC)
          stackPointer := 0xFD } :=
  (emuReset_of_fopen hopen hfd hheader hseek hROM).2

/-- A buffer of `n` bytes once the bytes of the first cluster from `offset` on are written to it. -/
theorem overwrite_bytesAt {c : Nat → Int} {offset n : Nat} (hin : offset + n ≤ Fs.clusterBytes vol)
    (hn : n ≤ 2 ^ 16) (buffer : U16 → U8) {i : Nat} (hi : i < n) :
    overwrite buffer (Fs.bytesAt vol.disk (Fs.clusterPos vol (c 0) + offset) n)
        (BitVec.ofNat 16 i) =
      Fs.fileByte vol c (offset + i) := by
  have hbyte : Fs.fileByte vol c (offset + i) =
      Fs.byteAt vol.disk (Fs.clusterPos vol (c 0) + (offset + i : Nat)) := by
    rw [Fs.fileByte, Nat.div_eq_of_lt (by omega), Nat.mod_eq_of_lt (by omega)]
  have hidx : (BitVec.ofNat 16 i).toNat = i := by
    rw [BitVec.toNat_ofNat, Nat.mod_eq_of_lt (by omega)]
  rw [overwrite, hidx, hbyte, Fs.bytesAt, List.getD_eq_getElem _ _ (by simpa using hi),
    List.getElem_map, List.getElem_range, Int.natCast_add, Int.add_assoc]

/-- The header and the ROM are the first bytes of the file. -/
def HoldsRom (vol : Volume) (c : Nat → Int) (header ROM : U16 → U8) : Prop :=
  (∀ i < 0x10, header (BitVec.ofNat 16 i) = Fs.fileByte vol c i) ∧
    ∀ i < 0x8000, ROM (BitVec.ofNat 16 i) = Fs.fileByte vol c (16 + i)

/-- `emu_reset` of `m` comes to `emu_run`, in the state `m'` with the file loaded: the program
counter is the address in the ROM's last words but one, the stack is empty and interrupts are
disabled, and RAM and the other registers are as they were. -/
structure RomLoaded {H : Type} (vol : Volume) (c : Nat → Int) (m : Machine)
    (v : Except Fault (FileState (FatState H))) (m' : Machine) : Prop where
  reached : ∃ s, v = .ok s
  loaded : HoldsRom vol c m'.header m'.ROM
  programCounter : m'.registers.programCounter.toNat =
    (m'.ROM 0x7FFC).toNat + 256 * (m'.ROM 0x7FFD).toNat
  stackPointer : m'.registers.stackPointer = 0xFD
  flags : m'.registers.flags = m.registers.flags ||| flagInterruptDisable
  RAM : m'.RAM = m.RAM
  A : m'.registers.A = m.registers.A
  X : m'.registers.X = m.registers.X
  Y : m'.registers.Y = m.registers.Y

/-- The ROM is loaded when what was read, or was there before, is the file. -/
theorem romLoaded_of_fopen {files : FileOps (Except Fault (FileState (FatState H)))}
    {v v₁ v₂ v₃ : Except Fault (FileState (FatState H))} {m : Machine} {fd res₁ res₂ res₃ : Int}
    {header ROM : U16 → U8} {c : Nat → Int}
    (hopen : files.fopen m.filepath "r" v = (fd, v₁)) (hfd : fd ≠ 0)
    (hheader : files.fread m.header 0x10 1 fd v₁ = (header, res₁, v₂))
    (hseek : files.fseek fd 0x10 .set v₂ = (res₂, v₃))
    (hROM : files.fread m.ROM 0x8000 1 fd v₃ = (ROM, res₃, .ok s')) :
    let r := emuReset files .leftFirst 0 (fun _ => 0) v m
    RomLoaded vol c m r.1 r.2 ↔ HoldsRom vol c header ROM := by
  intro r
  obtain ⟨hv, hh, hR, hRAM, hregs⟩ : r.1 = _ ∧ r.2.header = _ ∧ r.2.ROM = _ ∧ r.2.RAM = _ ∧
      r.2.registers = _ := emuReset_of_fopen hopen hfd hheader hseek hROM
  rw [← hh, ← hR]
  refine ⟨fun h => h.loaded, fun h => ⟨⟨s', hv⟩, h, ?_, ?_, ?_, hRAM, ?_, ?_, ?_⟩⟩
  · rw [hregs, hR]
    exact word_toNat _ _
  all_goals rw [hregs]

/-- **The ROM is loaded** from a file that `fopen` opened, of at least `0x8010` bytes on a volume
whose clusters are as large, when the positions of these bytes are `int`s. -/
theorem reset_loads_rom {m : Machine} {pos : U32} {c : Nat → Int}
    (hcluster : 0x8010 ≤ Fs.clusterBytes vol)
    (hopen : Fs.fopen (Fs.Allocator.onFat alloc) (Fs.fat16Disk alloc vol) (cString m.filepath)
      (cString "r") s = .ok (fd, s'))
    (hfile : FileAt s' fd item pos) (hsize : 0x8010 ≤ item.filesize)
    (hfirst : c 0 = (Fs.fat16GetFirstCluster item).toInt) (hpos : 0 ≤ Fs.clusterPos vol (c 0))
    (hfit : Fs.clusterPos vol (c 0) + 0x8010 ≤ 2 ^ 31) :
    let r := emuReset (kernelFiles (Fs.Allocator.onFat alloc) (Fs.fat16Disk alloc vol)) .leftFirst 0
      (fun _ => 0) (.ok s) m
    RomLoaded vol c m r.1 r.2 := by
  have hfd : fd ≠ 0 := by
    obtain ⟨ptr, desc, p, q, r, hget, -⟩ := hfile
    have := (Fs.entry_of_live hget).1
    omega
  have hat := Fs.fopen_onVolume hopen hfile
  rw [hfirst] at hpos hfit
  -- the header, from the start of the file; the seek behind it; the ROM, from there on
  obtain ⟨s₁, hheader, hat₁⟩ := hat.reads 0 0x10 (by decide) (by omega) hpos (by omega)
  obtain ⟨s₂, hseek, hat₂⟩ := hat₁.seeks 0x10 (by bv_omega)
  obtain ⟨s₃, hROM, -⟩ := hat₂.reads 0x10 0x8000 (by decide) (by omega) hpos (by omega)
  rw [← hfirst] at hheader hROM
  have hseek' : (kernelFiles (Fs.Allocator.onFat alloc) (Fs.fat16Disk alloc vol)).fseek fd 0x10
      .set (.ok s₁) = (0, .ok s₂) := kernelFiles_fseek hseek
  refine (romLoaded_of_fopen (kernelFiles_fopen hopen) hfd (kernelFiles_fread m.header hheader)
    hseek' (kernelFiles_fread m.ROM hROM)).mpr ⟨fun i hi => ?_, fun i hi => ?_⟩
  · rw [overwrite_bytesAt (by omega) (by decide) _ hi, Nat.zero_add]
  · exact overwrite_bytesAt (by omega) (by decide) m.ROM hi

/-! ### What `fopen` found -/

/-- The entry of `fd` has the descriptor of a file, with `clone` for a directory item. -/
def FileFound (s : FileState (FatState H)) (fd : Int) (clone : Ref FatDirectoryItem) : Prop :=
  ∃ ptr desc p q pos, s.fileDescriptors (fd - 1).toNat = .live ptr desc ∧
    s.kernel.descriptors desc.privateData = .live p { item := .live q (.file clone), pos }

/-- What `fat16_clone_directory_item` makes of a directory item: a copy, or `NULL` when there is no
block for one. -/
def CloneOf (item : FatDirectoryItem) (clone : Ref FatDirectoryItem) : Prop :=
  clone = .null ∨ ∃ r, clone = .live r item

/-- One of the entries whose descriptors are served is free. -/
def ServedEntryFree (s : FileState (FatState H)) : Prop :=
  ∃ i < 511, (s.fileDescriptors i).isNull

/-- `fopen` hands out the descriptor `512` exactly when no other entry is free. -/
theorem fopen_served_iff {filename modeStr : Name}
    (hopen : Fs.fopen (Fs.Allocator.onFat alloc) (Fs.fat16Disk alloc vol) filename modeStr s =
      .ok (fd, s')) (hfd : fd ≠ 0) :
    0 < fd ∧ fd ≤ 512 ∧ (ServedEntryFree s ↔ fd ≠ 512) := by
  obtain ⟨⟨res, ref⟩, s₁, hbody, hopen⟩ := Exec.bind_eq_ok.mp hopen
  cases hopen
  rcases Fs.fopenBody_cases hbody with ⟨hres, -⟩ |
    ⟨-, -, -, i, -, -, hi, ⟨hnull, htaken⟩, -, rfl, -⟩
  · exact absurd (if_pos hres) hfd
  · rw [Fs.peachosMaxFileDescriptors] at hi
    rw [if_neg (by omega)]
    refine ⟨by omega, by omega, fun ⟨j, hj, hfree⟩ h => ?_, fun h => ⟨i, by omega, hnull⟩⟩
    exact absurd hfree (by simp [htaken j (by omega)])

/-- The calls on descriptor `512` leave the buffers alone. -/
theorem reset_rejected_iff {m : Machine} {c : Nat → Int}
    (hopen : Fs.fopen (Fs.Allocator.onFat alloc) (Fs.fat16Disk alloc vol) (cString m.filepath)
      (cString "r") s = .ok (512, s')) :
    let r := emuReset (kernelFiles (Fs.Allocator.onFat alloc) (Fs.fat16Disk alloc vol)) .leftFirst 0
      (fun _ => 0) (.ok s) m
    RomLoaded vol c m r.1 r.2 ↔ HoldsRom vol c m.header m.ROM := by
  have hread : ∀ size : U32, size ≠ 0 → Fs.fread size 1 512 s' = .ok ((-Fs.einvarg, []), s') := by
    intro size hsize
    unfold Fs.fread
    rw [if_neg (by simp only [hsize, false_or]; decide)]
    rfl
  have hseek : Fs.fseek 512 0x10 FileSeekMode.set.toFs s' = .ok (-Fs.eio, s') := rfl
  exact romLoaded_of_fopen (kernelFiles_fopen hopen) (by decide)
    (kernelFiles_fread m.header (hread 0x10 (by decide))) (kernelFiles_fseek hseek)
    (kernelFiles_fread m.ROM (hread 0x8000 (by decide)))

/-- Without a clone `emu_reset` does not come to `emu_run`. -/
theorem reset_without_clone {m : Machine} {c : Nat → Int}
    (hopen : Fs.fopen (Fs.Allocator.onFat alloc) (Fs.fat16Disk alloc vol) (cString m.filepath)
      (cString "r") s = .ok (fd, s')) (hfd : fd ≠ 0) (hserved : fd ≠ 512)
    (hfound : FileFound s' fd .null) :
    let r := emuReset (kernelFiles (Fs.Allocator.onFat alloc) (Fs.fat16Disk alloc vol)) .leftFirst 0
      (fun _ => 0) (.ok s) m
    ¬ RomLoaded vol c m r.1 r.2 := by
  obtain ⟨hpos, hle, -⟩ := fopen_served_iff hopen hfd
  obtain ⟨ptr, desc, p, q, pos, hentry, hdesc⟩ := hfound
  have hget : Fs.fileGetDescriptor s' fd = .live ptr desc := by
    rw [Fs.fileGetDescriptor, if_neg (by rw [Fs.peachosMaxFileDescriptors]; omega), hentry]
  have hfs := (Fs.fopen_descriptor hopen hfd hget).1
  have hheader : (kernelFiles (Fs.Allocator.onFat alloc) (Fs.fat16Disk alloc vol)).fread m.header
      0x10 1 fd (.ok s') = (m.header, 0, .error .nullDeref) := by
    have hread := Fs.fread_without_clone hget hfs hdesc (show (0x10 : U32) ≠ 0 by decide)
      (show (1 : U32) ≠ 0 by decide)
    have hbind : (Except.ok s' >>= Fs.fread 0x10 1 fd) = .error .nullDeref := hread
    simp only [kernelFiles, hbind]
  intro r hloaded
  obtain ⟨s₁, hv⟩ := hloaded.reached
  rw [(emuReset_of_fopen (kernelFiles_fopen hopen) hfd hheader rfl rfl).1] at hv
  cases hv

/-- **The ROM is loaded exactly when the calls on it reach the file**: an entry below the last one
is free for it and its directory item is cloned, or the file is not read, and its bytes are there
already.  This is for every file that `fopen` finds of at least `0x8010` bytes, on a volume whose
clusters are as large, when the positions of these bytes are `int`s. -/
theorem reset_loads_rom_iff {m : Machine} {clone : Ref FatDirectoryItem} {c : Nat → Int}
    (hcluster : 0x8010 ≤ Fs.clusterBytes vol)
    (hopen : Fs.fopen (Fs.Allocator.onFat alloc) (Fs.fat16Disk alloc vol) (cString m.filepath)
      (cString "r") s = .ok (fd, s')) (hfd : fd ≠ 0) (hfound : FileFound s' fd clone)
    (hclone : CloneOf item clone) (hsize : 0x8010 ≤ item.filesize)
    (hfirst : c 0 = (Fs.fat16GetFirstCluster item).toInt) (hpos : 0 ≤ Fs.clusterPos vol (c 0))
    (hfit : Fs.clusterPos vol (c 0) + 0x8010 ≤ 2 ^ 31) :
    let r := emuReset (kernelFiles (Fs.Allocator.onFat alloc) (Fs.fat16Disk alloc vol)) .leftFirst 0
      (fun _ => 0) (.ok s) m
    RomLoaded vol c m r.1 r.2 ↔
      ServedEntryFree s ∧ clone ≠ .null ∨ ¬ ServedEntryFree s ∧ HoldsRom vol c m.header m.ROM := by
  intro r
  obtain ⟨hlt, hle, hserved⟩ := fopen_served_iff hopen hfd
  by_cases h512 : fd = 512
  · subst h512
    have hnone : ¬ ServedEntryFree s := fun h => hserved.mp h rfl
    refine (reset_rejected_iff hopen).trans ?_
    simp [hnone]
  · have hfree := hserved.mpr h512
    simp only [hfree, true_and, not_true_eq_false, false_and, or_false]
    rcases hclone with rfl | ⟨q, rfl⟩
    · exact iff_of_false (reset_without_clone hopen hfd h512 hfound) (by simp)
    · obtain ⟨ptr, desc, p, a, pos, hentry, hdesc⟩ := hfound
      have hget : Fs.fileGetDescriptor s' fd = .live ptr desc := by
        rw [Fs.fileGetDescriptor, if_neg (by rw [Fs.peachosMaxFileDescriptors]; omega), hentry]
      exact iff_of_true (reset_loads_rom hcluster hopen ⟨ptr, desc, p, a, q, hget, hdesc⟩ hsize
        hfirst hpos hfit) (by simp)

end

/-! ### A volume with one file -/

/-- The emulator when `emu_init` is called with `0:/a`. -/
def romMachine : Machine := { Machine.ofProgram [] ⟨1, 2, 3, 0, 0, 0⟩ with filepath := "0:/a" }

/-- The file starts in sector 3, and its reset vector is in sector `0x43`. -/
theorem reset_loads_rom_iff_oneFile :
    ∃ r, r = emuReset (kernelFiles (Fs.Allocator.onFat .ample) (Fs.fat16Disk .ample romVolume))
        .leftFirst 0 (fun _ => 0) (.ok bootFiles) romMachine ∧
      RomLoaded romVolume (fun _ => 2) romMachine r.1 r.2 ∧ r.2.header 0x000F = 0x03 ∧
      r.2.ROM 0x0000 = 0x03 ∧ r.2.registers.programCounter = 0x4343 ∧
      r.2.registers.stackPointer = 0xFD ∧ r.2.registers.A = 1 := by
  obtain ⟨s', q, hopen, hfound⟩ : ∃ s' q, Fs.fopen (Fs.Allocator.onFat .ample)
      (Fs.fat16Disk .ample romVolume) (cString romMachine.filepath) (cString "r") bootFiles =
        .ok (1, s') ∧ FileFound s' 1 (.live q (.ofBytes romSlot)) :=
    ⟨_, _, rfl, _, _, _, _, _, rfl, rfl⟩
  have h := (reset_loads_rom_iff (c := fun _ => 2) (by decide) hopen (by decide) hfound
    (.inr ⟨q, rfl⟩) (by decide) rfl (by decide) (by decide)).mpr
    (.inl ⟨⟨0, by decide, rfl⟩, nofun⟩)
  generalize emuReset _ _ _ _ (Except.ok bootFiles) romMachine = r at h
  have hlow : r.2.ROM 0x7FFC = 0x43 :=
    (h.loaded.2 0x7FFC (by decide)).trans (by decide +kernel)
  have hhigh : r.2.ROM 0x7FFD = 0x43 :=
    (h.loaded.2 0x7FFD (by decide)).trans (by decide +kernel)
  have hPC := h.programCounter
  rw [hlow, hhigh] at hPC
  exact ⟨r, rfl, h, (h.loaded.1 0xF (by decide)).trans (by decide +kernel),
    (h.loaded.2 0 (by decide)).trans (by decide +kernel), BitVec.eq_of_toNat_eq hPC,
    h.stackPointer, h.A⟩

/-- The kernel with the file opened `511` times. -/
def crowdedFiles : FileState (FatState Nat) where
  fileDescriptors i :=
    if i < 511 then
      .live (BitVec.ofNat 32 (0x02000000 + 0x1000 * i))
        { index := i + 1
          filesystem := some (Fs.fat16Filesystem .ample romVolume)
          privateData := BitVec.ofNat 32 (0x03000000 + 0x1000 * i) }
    else .null
  kernel :=
    { driver := ⟨0, fun _ => 0⟩
      descriptors := fun p =>
        if 0x03000000 ≤ p ∧ p < 0x03000000 + 0x1000 * 511 then
          .live p
            { item := .live (p + 0x01000000) (.file (.live (p + 0x02000000) (.ofBytes romSlot)))
              pos := 0 }
        else .null }

/-- **With `511` files open the next ROM is not loaded**: `fopen` finds it and returns `512`, and
the reads of it are rejected. -/
theorem reset_keeps_buffers_crowded :
    (∃ s' q, Fs.fopen (Fs.Allocator.onFat .ample) (Fs.fat16Disk .ample romVolume)
        (cString romMachine.filepath) (cString "r") crowdedFiles = .ok (512, s') ∧
      FileFound s' 512 (.live q (.ofBytes romSlot))) ∧
    ∃ r, r = emuReset (kernelFiles (Fs.Allocator.onFat .ample) (Fs.fat16Disk .ample romVolume))
        .leftFirst 0 (fun _ => 0) (.ok crowdedFiles) romMachine ∧
      ¬ RomLoaded romVolume (fun _ => 2) romMachine r.1 r.2 := by
  have hfree : Fs.FirstFree crowdedFiles.fileDescriptors 511 := by
    refine ⟨rfl, fun j hj => ?_⟩
    have htaken : crowdedFiles.fileDescriptors j = .live _ _ := if_pos hj
    rw [htaken]
    rfl
  obtain ⟨priv, k₁, ptr, k₂, hprivate, halloc, q, a, hdesc⟩ : ∃ priv k₁ ptr k₂,
      Fs.fopenPrivate (Fs.Allocator.onFat .ample) (Fs.fat16Disk .ample romVolume)
        (cString romMachine.filepath) (cString "r") crowdedFiles.kernel =
          .ok (.ok (Fs.fat16Filesystem .ample romVolume, priv), k₁) ∧
      (Fs.Allocator.onFat .ample).kzallocWritten 16 k₁ = .ok (ptr, k₂) ∧
      ∃ q a, k₂.descriptors priv =
        .live priv { item := .live a (.file (.live q (.ofBytes romSlot))), pos := 0 } :=
    ⟨_, _, _, _, rfl, rfl, _, _, rfl⟩
  obtain ⟨desc, hdata, hopen⟩ : ∃ desc : FileDescriptor (FatState Nat), desc.privateData = priv ∧
      Fs.fopen (Fs.Allocator.onFat .ample) (Fs.fat16Disk .ample romVolume)
        (cString romMachine.filepath) (cString "r") crowdedFiles =
          .ok (512, ⟨Function.update crowdedFiles.fileDescriptors 511 (.live ptr desc), k₂⟩) := by
    refine ⟨⟨512, some (Fs.fat16Filesystem .ample romVolume), priv⟩, rfl, ?_⟩
    unfold Fs.fopen
    rw [Exec.bind_ok (Fs.fopenBody_ok hprivate (by decide) hfree halloc)]
    rfl
  have hentry : Function.update crowdedFiles.fileDescriptors 511 (.live ptr desc)
      ((512 : Int) - 1).toNat = .live ptr desc := Function.update_self ..
  refine ⟨⟨_, q, hopen, ptr, desc, priv, a, 0, hentry, hdata ▸ hdesc⟩, _, rfl, fun h => ?_⟩
  -- the header is still empty
  have hheader := ((reset_rejected_iff hopen).mp h).1 0xF (by decide)
  exact absurd hheader (by decide +kernel)

end KernelNES.Emulator
