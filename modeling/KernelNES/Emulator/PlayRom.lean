import KernelNES.Emulator.Conformance
import KernelNES.Emulator.RomLoad
import KernelNES.Fs.Mount

/-!
# Emulator — PlayRom

From the disk to the last instruction.  Once a disk is mounted, `emu_init` of a path of its tree
opens the file, reads it and runs it.  The file is a cartridge (`cartridge`): its header, and behind
the header the ROM a processor finds from `0x8000` on.  The run of the emulator is the run of a
processor with this cartridge exactly when the ROM is read as it is and the states of the run are
faithful (`emuInit_plays_iff`).
-/

namespace KernelNES.Emulator
open KernelNES.Lib KernelNES.Memory
open KernelNES.Fs (Disk KState FatState FatDirectoryItem Volume MountedDisk Name Stored Adjoins
  OnVolume fileView readElements mountDisk storedRoot fat16Disk fsInit fileByte clusterBytes)
open KernelNES.Fs.PathMemory (printPath)
open Mos6502 (Flags)

/-! ### The cartridge -/

/-- The size of the header, and of the ROM behind it. -/
def headerBytes : Nat := 0x10

/-- The bytes of the program ROM. -/
def romBytes : Nat := 0x8000

/-- A processor at power on with the bytes of a ROM file plugged in: RAM is empty, and the program
starts at the address in the ROM's last words but one. -/
def cartridge (file : List U8) (r : Registers) : Mos6502.State Memory where
  cpu :=
    { A := r.A
      X := r.X
      Y := r.Y
      SP := 0xFD
      PC := word (file.getD (headerBytes + 0x7FFD) 0) (file.getD (headerBytes + 0x7FFC) 0)
      flags := { Flags.ofByte r.flags with I := true } }
  mem := (fun _ => 0, fun i => ((file.drop headerBytes).take romBytes).getD i.toNat 0)

theorem ofByte_disabled : ∀ flags : U8,
    Flags.ofByte (flags ||| flagInterruptDisable) = { Flags.ofByte flags with I := true } := by
  decide

/-- Bytes in an empty buffer are the bytes they are. -/
theorem overwrite_empty_inj {bytes bytes' : List U8} (hlen : bytes.length = bytes'.length)
    (hfit : bytes.length ≤ 2 ^ 16) :
    overwrite (fun _ => 0) bytes = (fun i => bytes'.getD i.toNat 0) ↔ bytes = bytes' := by
  constructor
  · intro h
    refine List.ext_getElem hlen fun i hi hi' => ?_
    have hidx : (BitVec.ofNat 16 i).toNat = i := by
      rw [BitVec.toNat_ofNat, Nat.mod_eq_of_lt (by omega)]
    have hat := congrFun h (BitVec.ofNat 16 i)
    simpa only [overwrite, hidx, List.getD_eq_getElem _ _ hi, List.getD_eq_getElem _ _ hi'] using hat
  · rintro rfl
    rfl

/-! ### `emu_init` -/

/-- The machine `emu_init` resets. -/
def Machine.initialized (m : Machine) (filepath : String) : Machine :=
  { m with
    RAM := fun _ => 0
    ROM := fun _ => 0
    header := fun _ => 0
    filepath
    totalCPUCycles := 8
    cpuHalted := false }

section
variable {V : Type}

/-- `emu_reset` is what comes before `emu_run`, and `emu_run`. -/
theorem emuReset_eq (files : FileOps V) (order : EvalOrder) (fuel : Nat) (answers : Nat → Addr)
    (v : V) (m : Machine) :
    (emuReset files order fuel answers v m).2 =
      (emuRun order fuel answers (resetState files v m)).2 := by
  have hrun : ∀ order fuel answers, emuReset files order fuel answers v m =
      ((if (files.fopen m.filepath "r" v).1 ≠ 0 then
          loadFile files (files.fopen m.filepath "r" v).1 (files.fopen m.filepath "r" v).2
        else pure (files.fopen m.filepath "r" v).2) >>= fun v => do
          resetVector
          emuRun order fuel answers
          pure v : CPU V) m := fun _ _ _ => rfl
  rw [resetState, hrun, hrun]
  split <;> rfl

/-- `emu_init` runs the loop from the state it sets up. -/
theorem emuInit_eq (files : FileOps V) (filepath : String) (order : EvalOrder) (fuel : Nat)
    (answers : Nat → Addr) (v : V) (m : Machine) :
    (emuInit files filepath order fuel answers v m).2 =
      (emuRun order fuel answers (resetState files v (m.initialized filepath))).2 :=
  emuReset_eq files order fuel answers v (m.initialized filepath)

end

/-! ### A file of the tree is loaded -/

section
variable {H : Type} {alloc : Allocator H} {disk : Disk} {vol : Volume} {s₀ s₁ : KState H}

/-- What `emu_init` loads from the file a path of the tree leads to. -/
theorem resetState_of_tree (hlow : Fs.Allocator.Low alloc)
    (hmount : mountDisk alloc disk s₀ = .ok (some vol, s₁))
    {components : List Name} {item : FatDirectoryItem}
    (htree : Fs.Tree vol (storedRoot vol.disk vol.header) components item) {trailing : Bool}
    (hprint : Fs.Printable components trailing) {filepath : String}
    (hpath : cString filepath = printPath 0x30 components trailing)
    {c : Nat → Int} {k : Nat} (hstored : Stored H vol item c k)
    (hsize : headerBytes + romBytes ≤ item.filesize.toNat) (m : Machine) :
    let m' := resetState (kernelFiles (Fs.Allocator.onFat alloc) (fat16Disk alloc vol))
      (.ok (fsInit ⟨s₁, fun _ => .null⟩)) (m.initialized filepath)
    m'.header = overwrite (fun _ => 0) (readElements vol c headerBytes 1 0) ∧
      m'.ROM = overwrite (fun _ => 0) (readElements vol c romBytes 1 headerBytes) ∧
      m'.RAM = (fun _ => 0) ∧
      m'.registers =
        { m.registers with
          flags := m.registers.flags ||| flagInterruptDisable
          programCounter := word (m'.ROM 0x7FFD) (m'.ROM 0x7FFC)
          stackPointer := 0xFD } := by
  obtain ⟨T, hlisted⟩ := htree.listed
  have hmounted := Fs.mountDisk_mounted hlow.succeeds hmount hstored.clusters hlisted
  obtain ⟨s, hopen, hat⟩ := Fs.fopen_tree hlow hmounted htree hprint
    (show Fs.fileGetModeByString (cString "r") = .read by decide)
    (s := fsInit ⟨s₁, fun _ => .null⟩) (i := 0) (by decide) ⟨rfl, nofun⟩
  rw [← hpath] at hopen
  rw [headerBytes, romBytes] at hsize
  -- the header, the seek behind it, and the ROM
  obtain ⟨s₂, hheader, hat₂⟩ := Fs.fread_view hstored hat (show (0x10 : U32) ≠ 0 by decide)
    (show (1 : U32) ≠ 0 by decide) (by show 0 + 1 * 0x10 ≤ _; omega)
  obtain ⟨s₃, hseek, hat₃⟩ := hat₂.seeks 0x10 (by bv_omega)
  obtain ⟨s₄, hROM, -⟩ := Fs.fread_view hstored
    (show Fs.OnVolume alloc vol s₃ 1 item (BitVec.ofNat 32 0x10) from hat₃)
    (show (0x8000 : U32) ≠ 0 by decide) (show (1 : U32) ≠ 0 by decide) (by show 0x10 + 1 * 0x8000 ≤ _; omega)
  have hseek' : (kernelFiles (Fs.Allocator.onFat alloc) (fat16Disk alloc vol)).fseek 1 0x10 .set
      (.ok s₂) = (0, .ok s₃) := kernelFiles_fseek hseek
  obtain ⟨hh, hR, hRAM, hregs⟩ := resetState_of_fopen (m := m.initialized filepath)
    (kernelFiles_fopen hopen) (by decide) (kernelFiles_fread _ hheader) hseek'
    (kernelFiles_fread _ hROM)
  refine ⟨hh, hR, hRAM, ?_⟩
  rw [hR]
  exact hregs

/-- One element is read as it is exactly when it adjoins. -/
theorem readElement_eq_iff {item : FatDirectoryItem} {c : Nat → Int} {k : Nat}
    (hstored : Stored H vol item c k) {offset size : Nat}
    (hend : offset + size ≤ item.filesize.toNat) :
    readElements vol c size 1 offset = ((fileView vol item c k 0).contents.drop offset).take size ↔
      Adjoins vol c offset size := by
  have hone := Fs.readElements_eq_iff (c := c) hstored.clusters size 1 offset
  rw [Nat.one_mul, ← hstored.slice 0 hend] at hone
  refine hone.trans ⟨fun h => ?_, fun h i hi => ?_⟩
  · simpa using h 0 Nat.one_pos
  · obtain rfl : i = 0 := by omega
    simpa using h

/-- As many bytes as the element has in the file. -/
theorem readElement_length {item : FatDirectoryItem} {c : Nat → Int} {k : Nat}
    (hstored : Stored H vol item c k) {offset size : Nat}
    (hend : offset + size ≤ item.filesize.toNat) :
    (readElements vol c size 1 offset).length =
      (((fileView vol item c k 0).contents.drop offset).take size).length := by
  rw [hstored.slice 0 hend]
  simp [readElements, Fs.readBytes]

/-- The processor is at power on, with the file plugged in, exactly when the ROM is read as it is;
the header always is. -/
theorem reset_cartridge_iff (hlow : Fs.Allocator.Low alloc)
    (hmount : mountDisk alloc disk s₀ = .ok (some vol, s₁))
    {components : List Name} {item : FatDirectoryItem}
    (htree : Fs.Tree vol (storedRoot vol.disk vol.header) components item) {trailing : Bool}
    (hprint : Fs.Printable components trailing) {filepath : String}
    (hpath : cString filepath = printPath 0x30 components trailing)
    {c : Nat → Int} {k : Nat} (hstored : Stored H vol item c k)
    (hsize : headerBytes + romBytes ≤ item.filesize.toNat) (m : Machine) :
    let m' := resetState (kernelFiles (Fs.Allocator.onFat alloc) (fat16Disk alloc vol))
      (.ok (fsInit ⟨s₁, fun _ => .null⟩)) (m.initialized filepath)
    let file := (fileView vol item c k 0).contents
    (m'.arch = cartridge file m.registers ↔ Adjoins vol c headerBytes romBytes) ∧
      m'.header = fun i => (file.take headerBytes).getD i.toNat 0 := by
  intro m' file
  obtain ⟨hheader, hROM, hRAM, hregs⟩ : m'.header = _ ∧ m'.ROM = _ ∧ m'.RAM = _ ∧ m'.registers = _ :=
    resetState_of_tree hlow hmount htree hprint hpath hstored hsize m
  constructor
  · have hlen := readElement_length hstored hsize
    have hinj := overwrite_empty_inj hlen (by
      rw [hlen, List.length_take]
      exact (min_le_left _ _).trans (by decide))
    rw [← readElement_eq_iff hstored hsize, ← hinj, ← hROM]
    constructor
    · intro h
      exact (Prod.mk.inj (congrArg Mos6502.State.mem h)).2
    · intro h
      have hvector : ∀ i : U16, i.toNat < romBytes →
          m'.ROM i = file.getD (headerBytes + i.toNat) 0 := by
        intro i hi
        rw [h]
        simp [file, List.getD_eq_getElem?_getD, hi]
      refine arch_eq ?_ ?_ ?_ ?_ ?_ ?_ (Prod.ext hRAM h)
      · rw [hregs]; rfl
      · rw [hregs]; rfl
      · rw [hregs]; rfl
      · rw [hregs]; rfl
      · rw [hregs, cartridge]
        dsimp only
        rw [hvector _ (by decide), hvector _ (by decide)]
        rfl
      · rw [hregs]
        exact ofByte_disabled _
  · -- the header is at the start of a cluster
    have hstart : headerBytes ≤ item.filesize.toNat := (Nat.le_add_right _ _).trans hsize
    have hadjoin := (readElement_eq_iff hstored (show 0 + headerBytes ≤ _ by omega)).mpr
      (Fs.adjoins_of_aligned (Nat.zero_mod _))
    rw [hheader, hadjoin, List.drop_zero]
    rfl

end

/-! ### A disk with one cartridge -/

/-- A disk with the file `TEST1.NES` in its root, in cluster 2: a header, a ROM that starts with
`JMP $8000`, and the reset vector `$8000`. -/
def cartDisk : Disk where
  sector lba i :=
    if lba = 0 then
      if i = 13 then 0x80
      else if i = 14 ∨ i = 16 ∨ i = 22 then 1
      else if i = 17 then 16
      else if i = 38 then 0x29
      else 0
    else if lba = 2 then
      if i < 11 then (cString "TEST1   NES").getD i 0
      else if i = 26 then 2 else if i = 28 then 0x10 else if i = 29 then 0x80 else 0
    else if lba = 3 then
      if i = 16 then 0x4C else if i = 18 then 0x80 else 0
    else if lba = 67 then
      if i = 13 then 0x80 else 0
    else 0

/-- Its volume, once it is mounted. -/
def cartVolume : Volume := Fs.resolvedVolume cartDisk (Fs.rootBlock .ample cartDisk 0).1 1

/-- The slot of its ROM. -/
def cartSlot : List U8 := Fs.bytesAt cartDisk 0x400 32

theorem cartDisk_mount :
    ∃ s₁, mountDisk .ample cartDisk ⟨0, fun _ => 0⟩ = .ok (some cartVolume, s₁) := by
  have hcount : Fs.SlotCount cartDisk
      (storedRoot cartDisk (.ofBytes (Fs.bootHeader cartDisk))).start 1 1 :=
    ⟨by decide, by decide, by decide, by decide⟩
  obtain ⟨stream, pos, h⟩ := Fs.resolve_of_count Allocator.ample_succeeds
    (show Fs.fatSignature (Fs.bootHeader cartDisk) = 0x29 by decide) hcount ⟨0, fun _ => 0⟩
  exact ⟨_, Fs.mountDisk_eq_ok.mpr ⟨_, _, h, rfl⟩⟩

/-- Its root holds the ROM. -/
theorem cartVolume_tree : Fs.Tree cartVolume (storedRoot cartVolume.disk cartVolume.header)
    [cString "test1.nes"] (.ofBytes cartSlot) := by
  refine .file (T := 1) ⟨⟨1, ?_⟩, ?_⟩ ⟨⟨0, by decide, by decide, ?_⟩, ?_⟩ ?_
  · exact ⟨by decide, by decide, by decide, by decide⟩
  · exact ⟨by decide, by decide⟩
  · omega
  · decide
  · decide

/-- The chain of the ROM is kept. -/
theorem cartVolume_stored : Stored Nat cartVolume (.ofBytes cartSlot) (fun _ => 2) 0 := by
  have hchain : Fs.Chain Nat cartVolume (fun _ => 2) 0 := by
    refine ⟨fun i hi => ?_, fun i hi => by decide, fun i hi => by decide⟩
    obtain rfl : i = 0 := by omega
    exact Fs.fat16GetClusterForOffset_settles (H := Nat) cartVolume
      (show (0 : Int) ≤ 2 by decide) (by decide) ((0 * clusterBytes cartVolume : Nat) : Int)
      (by decide)
  exact ⟨hchain, by decide, by decide, by decide, by decide⟩

/-- A processor whose ROM starts with a jump to its start, where the reset vector points, stays in the
state it is in at power on. -/
theorem cartridge_spins {file : List U8} (hjump : file.getD 0x10 0 = 0x4C)
    (hlow : file.getD 0x11 0 = 0x00) (hhigh : file.getD 0x12 0 = 0x80)
    (hvector : word (file.getD 0x800D 0) (file.getD 0x800C 0) = 0x8000) (r : Registers) :
    (cartridge file r).opcode bus = 0x4C ∧
      Mos6502.step bus (cartridge file r) = some (cartridge file r) := by
  have hPC : (cartridge file r).cpu.PC = 0x8000 := hvector
  have hread : ∀ i < 3, bus.read (cartridge file r).mem (0x8000 + BitVec.ofNat 16 i) =
      file.getD (0x10 + i) 0 := by
    intro i hi
    have hidx : (0x8000 + BitVec.ofNat 16 i - 0x8000 : U16).toNat = i := by bv_omega
    show (if (0x8000 + BitVec.ofNat 16 i : U16) ≥ 0x8000 then
      ((file.drop headerBytes).take romBytes).getD (0x8000 + BitVec.ofNat 16 i - 0x8000 : U16).toNat 0
      else _) = _
    rw [if_pos (by bv_omega), hidx]
    simp [List.getD_eq_getElem?_getD, headerBytes, romBytes, show i < 32768 by omega]
  have hop : (cartridge file r).opcode bus = 0x4C := by
    rw [Mos6502.State.opcode, hPC]
    exact (hread 0 (by decide)).trans hjump
  have htarget : (cartridge file r).address bus .absolute = 0x8000 := by
    show word (bus.read _ ((cartridge file r).cpu.PC + 1 + 1))
      (bus.read _ ((cartridge file r).cpu.PC + 1)) = 0x8000
    rw [hPC]
    exact congrArg₂ word ((hread 2 (by decide)).trans hhigh) ((hread 1 (by decide)).trans hlow)
  refine ⟨hop, ?_⟩
  rw [Mos6502.step_of_decode (show _ = some (.jmp, .absolute) by rw [hop]; rfl)]
  show some ((cartridge file r).jump ((cartridge file r).address bus .absolute)) = _
  rw [htarget, ← hPC]
  rfl

/-- A machine that stays where it is, seen from outside, is faithful all along. -/
theorem spinning_faithful {order : EvalOrder} {answers : Nat → Addr} {m : Machine} {instr : Instr}
    (hspin : Mos6502.step bus m.arch = some m.arch) (hop : m.nextOpcode ≠ 0x88)
    (hdecode : decode m.nextOpcode = some instr) (hfaithful : ∀ s, instr.Faithful order s) (n : Nat) :
    (m.after order answers n).arch = m.arch ∧ (m.after order answers n).Faithful order := by
  induction n with
  | zero =>
      refine ⟨rfl, ?_⟩
      show m.Faithful order
      rw [Machine.Faithful, hdecode]
      exact ⟨hop, hfaithful m⟩
  | succ n ih =>
      obtain ⟨harch, hn⟩ := ih
      have hstep := (emulateCPU_refines_iff order (answers n) _).mpr hn
      rw [harch, hspin] at hstep
      have harch' : (m.after order answers (n + 1)).arch = m.arch := (Option.some.inj hstep).symm
      have hnext : (m.after order answers (n + 1)).nextOpcode = m.nextOpcode :=
        congrArg (fun s : Mos6502.State Memory => s.opcode bus) harch'
      refine ⟨harch', ?_⟩
      rw [Machine.Faithful, hnext, hdecode]
      exact ⟨hop, hfaithful _⟩

end KernelNES.Emulator
