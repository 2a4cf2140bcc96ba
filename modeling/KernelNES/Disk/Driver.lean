import KernelNES.Lib.AtaPio

/-!
# Disk — Driver

`disk_read_sector` of `src/disk/disk.c`.  It writes the number of the first sector and the number of
sectors to the registers of the drive, each cut to the width of its register, commands a read and
takes `total` sectors.  From any idle drive it delivers the sectors asked for, and leaves the drive
idle, exactly for 1 to 256 sectors that are all on the disk (`diskReadSector_delivers_iff`); where
the disk has too few of them it waits for ever.
-/

namespace KernelNES.Disk
open KernelNES.Lib KernelNES.Lib.AtaPio

section
variable {ε D : Type} (ports : Ports D)

/-- What `disk_read_sector` writes to the registers. -/
def address (lba : U32) (total : Int) : Pio ε D Unit := do
  outb ports 0x1F6 ((lba.sshiftRight 24 ||| 0xE0).setWidth 8)
  outb ports 0x1F2 (BitVec.ofInt 8 total)
  outb ports 0x1F3 ((lba &&& 0xFF).setWidth 8)
  outb ports 0x1F4 ((lba.sshiftRight 8).setWidth 8)
  outb ports 0x1F5 ((lba.sshiftRight 16).setWidth 8)

/-- `disk_read_sector`: what it returns, and the words it stores from `buf` on.  Each wait for the
drive reads the status at most `fuel` times. -/
def diskReadSector (lba : U32) (total : Int) (fuel : Nat) : Pio ε D (Int × List U16) := do
  address ports lba total
  outb ports 0x1F7 0x20
  -- `for (int b = 0; b < total; b++)`
  let words ← takeSectors ports total.toNat fuel
  pure (0, words)

end

/-! ### The command -/

/-- The registers as `disk_read_sector` writes them. -/
def sectorRegisters (lba : U32) (total : Int) : Registers where
  count := BitVec.ofInt 8 total
  low := (lba &&& 0xFF).setWidth 8
  mid := (lba.sshiftRight 8).setWidth 8
  high := (lba.sshiftRight 16).setWidth 8
  head := (lba.sshiftRight 24 ||| 0xE0).setWidth 8

/-- The number of sectors the drive fetches. -/
def sectorCount (total : Int) : Nat := if total % 256 = 0 then 256 else (total % 256).toNat

/-- At least one sector is asked for. -/
theorem sectorCount_pos (total : Int) : 0 < sectorCount total := by
  rw [sectorCount]
  split <;> omega

/-- The drive is asked for as many sectors as the code takes, up to 256. -/
theorem sectorCount_eq_iff {total : Int} (h : 0 < total) :
    (sectorCount total : Int) = total ↔ total ≤ 256 := by
  rw [sectorCount]
  split <;> omega

/-- It is never asked for more. -/
theorem sectorCount_le {total : Int} (h : 0 < total) : (sectorCount total : Int) ≤ total := by
  rw [sectorCount]
  split <;> omega

/-- The sector count register holds what is asked for. -/
theorem sectorRegisters_wanted (lba : U32) (total : Int) :
    (sectorRegisters lba total).wanted = sectorCount total := by
  have hcount : (BitVec.ofInt 8 total).toNat = (total % 256).toNat := BitVec.toNat_ofInt total
  have hzero : (BitVec.ofInt 8 total = 0) ↔ total % 256 = 0 := by
    rw [← BitVec.toNat_inj, hcount]
    show (total % 256).toNat = 0 ↔ _
    omega
  rw [Registers.wanted, sectorCount]
  by_cases h : total % 256 = 0
  · rw [if_pos h]
    exact if_pos (hzero.mpr h)
  · rw [if_neg h, ← hcount]
    exact if_neg (mt hzero.mp h)

/-- A byte of a word does not depend on how the word is shifted to it. -/
theorem sshiftRight_byte (lba : U32) {k : Nat} (hk : k ≤ 24) :
    ((lba.sshiftRight k).setWidth 8 : U8) = (lba >>> k).setWidth 8 := by
  refine BitVec.eq_of_getLsbD_eq fun i hi => ?_
  rw [BitVec.getLsbD_setWidth, BitVec.getLsbD_setWidth, BitVec.getLsbD_sshiftRight,
    BitVec.getLsbD_ushiftRight, if_pos (by omega), decide_eq_false (show ¬ 32 ≤ i by omega), Bool.not_false,
    Bool.true_and]

theorem shifted_toNat (lba : U32) {k : Nat} (hk : k ≤ 24) :
    ((lba.sshiftRight k).setWidth 8 : U8).toNat = lba.toNat / 2 ^ k % 256 := by
  rw [sshiftRight_byte lba hk, BitVec.toNat_setWidth, BitVec.toNat_ushiftRight,
    Nat.shiftRight_eq_div_pow]

theorem head_byte : ∀ b : U8, ((b ||| 0xE0) &&& 0x0F).toNat = b.toNat % 16 ∧
    (b ||| 0xE0).getLsbD 4 = decide (16 ≤ b.toNat % 32) ∧ (b ||| 0xE0).getLsbD 6 = true := by
  decide +kernel

/-- The head register has four bits of the sector number; the one above them selects the drive. -/
theorem sectorRegisters_head (lba : U32) :
    ((lba.sshiftRight 24 ||| 0xE0).setWidth 8 &&& 0x0F : U8).toNat = lba.toNat / 2 ^ 24 % 16 ∧
      ((lba.sshiftRight 24 ||| 0xE0).setWidth 8 : U8).getLsbD 4 =
        decide (16 ≤ lba.toNat / 2 ^ 24 % 32) ∧
      ((lba.sshiftRight 24 ||| 0xE0).setWidth 8 : U8).getLsbD 6 = true := by
  obtain ⟨hnibble, hdrive, hlba⟩ := head_byte ((lba.sshiftRight 24).setWidth 8)
  rw [shifted_toNat lba le_rfl] at hnibble hdrive
  rw [BitVec.setWidth_or]
  refine ⟨hnibble.trans (by omega), hdrive.trans ?_, hlba⟩
  rw [show lba.toNat / 2 ^ 24 % 256 % 32 = lba.toNat / 2 ^ 24 % 32 by omega]

/-- The drive is sent the low 28 bits of the address. -/
theorem sectorRegisters_address (lba : U32) (total : Int) :
    (sectorRegisters lba total).address = lba.toNat % 2 ^ 28 := by
  have hlow : ((lba &&& 0xFF).setWidth 8 : U8).toNat = lba.toNat % 256 := by
    rw [BitVec.setWidth_and, show (BitVec.setWidth 8 (0xFF : U32)) = BitVec.allOnes 8 by decide,
      BitVec.and_allOnes, BitVec.toNat_setWidth]
  rw [Registers.address]
  dsimp only [sectorRegisters]
  rw [(sectorRegisters_head lba).1, hlow, shifted_toNat lba (by decide), shifted_toNat lba (by decide)]
  omega

/-- A sector number that fits selects the drive. -/
theorem sectorRegisters_selected_iff (lba : U32) (total : Int) :
    (sectorRegisters lba total).Selected ↔ lba.toNat / 2 ^ 28 % 2 = 0 := by
  rw [Registers.Selected]
  dsimp only [sectorRegisters]
  rw [(sectorRegisters_head lba).2.1, decide_eq_false_iff_not]
  omega

section
variable {ε D : Type} {drive : Drive D} {d d' : D} {lba : U32} {total : Int}

/-- An idle drive takes what is written to its registers. -/
theorem address_idle (hidle : drive.phase d = .idle) (lba : U32) (total : Int) :
    ∃ d', (address drive.toPorts lba total : Pio ε D Unit) d = .ok ((), d') ∧
      drive.registers d' = sectorRegisters lba total ∧ drive.phase d' = .idle := by
  obtain ⟨h₁, i₁⟩ := drive.written 0x1F6 ((lba.sshiftRight 24 ||| 0xE0).setWidth 8) hidle
    (by decide)
  obtain ⟨h₂, i₂⟩ := drive.written 0x1F2 (BitVec.ofInt 8 total) i₁ (by decide)
  obtain ⟨h₃, i₃⟩ := drive.written 0x1F3 ((lba &&& 0xFF).setWidth 8) i₂ (by decide)
  obtain ⟨h₄, i₄⟩ := drive.written 0x1F4 ((lba.sshiftRight 8).setWidth 8) i₃ (by decide)
  obtain ⟨h₅, i₅⟩ := drive.written 0x1F5 ((lba.sshiftRight 16).setWidth 8) i₄ (by decide)
  refine ⟨_, rfl, ?_, i₅⟩
  rw [h₅, h₄, h₃, h₂, h₁]
  rfl

/-- Then it takes the command, if the sector number selects it. -/
theorem command_idle (hidle : drive.phase d = .idle) (lba : U32) (total : Int) :
    ∃ d', (∀ fuel, (diskReadSector drive.toPorts lba total fuel : Pio ε D _) d =
        (takeSectors drive.toPorts total.toNat fuel >>= fun words => pure (0, words)) d') ∧
      drive.registers d' = sectorRegisters lba total ∧
      drive.phase d' =
        if (sectorRegisters lba total).Selected
        then .busy (lba.toNat % 2 ^ 28) (sectorCount total) else .idle := by
  obtain ⟨d₁, hrun, hregisters, hidle₁⟩ := address_idle (ε := ε) hidle lba total
  obtain ⟨hsame, hphase⟩ := drive.commanded hidle₁ (by
    rw [hregisters]
    exact (sectorRegisters_head lba).2.2)
  rw [hregisters] at hsame hphase
  rw [sectorRegisters_address, sectorRegisters_wanted] at hphase
  exact ⟨_, fun fuel => Exec.bind_ok hrun, hsame, hphase⟩

/-! ### The sectors -/

/-- The run is the loop over the sectors, once the registers are written. -/
theorem diskReadSector_ends {d₁ : D} {words : List U16}
    (hrun : ∀ fuel, (diskReadSector drive.toPorts lba total fuel : Pio ε D _) d =
      (takeSectors drive.toPorts total.toNat fuel >>= fun words => pure (0, words)) d₁)
    (h : EndsIn (ε := ε) (takeSectors drive.toPorts total.toNat) d₁ words d') :
    EndsIn (ε := ε) (diskReadSector drive.toPorts lba total) d (0, words) d' := by
  obtain ⟨enough, hends⟩ := h.bind (f := fun _ words => pure ((0 : Int), words)) (.pure _ _)
  exact ⟨enough, fun fuel => (hrun fuel).trans (hends fuel)⟩

/-- The sectors are on the disk, as many as can be asked for. -/
def Readable (image : Image) (lba : U32) (total : Int) : Prop :=
  0 < total ∧ total ≤ 256 ∧ lba.toNat + total ≤ image.size

/-- The sectors asked for are delivered, and the drive is idle again. -/
theorem diskReadSector_reads (hidle : drive.phase d = .idle) (h : Readable drive.image lba total) :
    ∃ d', EndsIn (ε := ε) (diskReadSector drive.toPorts lba total) d
        (0, drive.image.sectors total.toNat lba.toNat) d' ∧ drive.phase d' = .idle := by
  obtain ⟨hpos, hmax, hsize⟩ := h
  have hfits := drive.image.size_lt
  have hlba : lba.toNat % 2 ^ 28 = lba.toNat := Nat.mod_eq_of_lt (by omega)
  have hsel : (sectorRegisters lba total).Selected :=
    (sectorRegisters_selected_iff lba total).mpr (by omega)
  have hcount := (sectorCount_eq_iff hpos).mpr hmax
  obtain ⟨d₁, hrun, hregisters, hbusy⟩ := command_idle (ε := ε) hidle lba total
  rw [if_pos hsel, hlba] at hbusy
  obtain ⟨d', hreads, hphase⟩ := takeSectors_reads (ε := ε) (n := total.toNat)
    (hregisters.symm ▸ hsel) hbusy (by omega) (by omega) (by omega)
  exact ⟨d', diskReadSector_ends hrun hreads, hphase.mpr (by omega)⟩

/-- Sectors that are not all on the disk are waited for for ever, unless none is asked for or the
sector number is cut. -/
theorem diskReadSector_hangs (hidle : drive.phase d = .idle) (hpos : 0 < total)
    (hbeyond : 256 < total ∨ drive.image.size < lba.toNat % 2 ^ 28 + total) :
    Hangs (ε := ε) (diskReadSector drive.toPorts lba total) d := by
  obtain ⟨d₁, hrun, hregisters, hphase⟩ := command_idle (ε := ε) hidle lba total
  suffices hhangs : Hangs (ε := ε) (takeSectors drive.toPorts total.toNat) d₁ from
    fun fuel => (hrun fuel).trans (hhangs.bind (fun _ words => pure ((0 : Int), words)) fuel)
  by_cases hsel : (sectorRegisters lba total).Selected
  · have hcount := sectorCount_le hpos
    have hiff := sectorCount_eq_iff hpos
    rw [if_pos hsel] at hphase
    exact takeSectors_hangs (hregisters.symm ▸ hsel) hphase (sectorCount_pos total) (by omega)
      (by omega)
  · exact takeSectors_never (.inl (.inl (hregisters.symm ▸ hsel))) (by omega)

/-- **`disk_read_sector`**, called on an idle drive, ends with the sectors asked for and leaves the
drive idle exactly when they are 1 to 256 sectors of the disk.  Otherwise it waits for ever, if a
sector is asked for and its number has 28 bits. -/
theorem diskReadSector_delivers_iff (hidle : drive.phase d = .idle) (lba : U32) (total : Int) :
    ((∃ words d', EndsIn (ε := ε) (diskReadSector drive.toPorts lba total) d (0, words) d' ∧
        drive.image.read lba.toNat total.toNat = some words ∧ drive.phase d' = .idle) ↔
      Readable drive.image lba total) ∧
    (¬ Readable drive.image lba total → 0 < total → lba.toNat < 2 ^ 28 →
      Hangs (ε := ε) (diskReadSector drive.toPorts lba total) d) := by
  refine ⟨⟨?_, fun h => ?_⟩, fun hnot hpos hlba => ?_⟩
  · rintro ⟨words, d', hends, hread, hphase⟩
    have hsize : lba.toNat + total.toNat ≤ drive.image.size := by
      rw [Image.read] at hread
      split at hread
      · assumption
      · cases hread
    have hfits := drive.image.size_lt
    by_cases hpos : 0 < total
    · refine ⟨hpos, ?_, by omega⟩
      by_contra hmax
      exact (diskReadSector_hangs hidle hpos (.inl (by omega))).not_endsIn hends
    · -- no sector is taken, and the drive is fetching those of the command
      obtain ⟨d₁, hrun, -, hbusy⟩ := command_idle (ε := ε) hidle lba total
      have hnone : EndsIn (ε := ε) (takeSectors drive.toPorts total.toNat) d₁ [] d₁ := by
        rw [show total.toNat = 0 by omega]
        exact .pure _ _
      have hsel : (sectorRegisters lba total).Selected :=
        (sectorRegisters_selected_iff lba total).mpr (by omega)
      rw [← ((diskReadSector_ends hrun hnone).unique hends).2, hbusy, if_pos hsel] at hphase
      cases hphase
  · obtain ⟨d', hends, hphase⟩ := diskReadSector_reads (ε := ε) hidle h
    obtain ⟨hpos, -, hsize⟩ := h
    exact ⟨_, d', hends, if_pos (by omega), hphase⟩
  · refine diskReadSector_hangs hidle hpos ?_
    by_contra hall
    exact hnot ⟨hpos, by omega, by omega⟩

end

/-- A drive with two sectors, of which it is found busy once. -/
def smallDrive : Drive TimedState :=
  timedDrive ⟨2, fun lba i => BitVec.ofNat 16 (256 * lba + i), by decide⟩ fun _ => 1

/-- It is idle. -/
def smallDriveIdle : TimedState := ⟨⟨0, 0, 0, 0, 0⟩, .idle, 0, 0⟩

/-- The second sector is delivered, and the third waited for. -/
theorem smallDrive_delivers :
    (∃ words d', EndsIn (ε := Empty) (diskReadSector smallDrive.toPorts 1 1) smallDriveIdle
        (0, words) d' ∧
      smallDrive.image.read 1 1 = some words ∧ smallDrive.phase d' = .idle) ∧
      Hangs (ε := Empty) (diskReadSector smallDrive.toPorts 2 1) smallDriveIdle := by
  have hidle : smallDrive.phase smallDriveIdle = .idle := rfl
  exact ⟨(diskReadSector_delivers_iff hidle 1 1).1.mpr ⟨by decide, by decide, by decide⟩,
    (diskReadSector_delivers_iff hidle 2 1).2 (fun h => absurd h.2.2 (by decide)) (by decide)
      (by decide)⟩

end KernelNES.Disk
