import KernelNES.Disk.Driver
import KernelNES.Fs.SectorReads

/-!
# Disk — Streaming

`diskstreamer_read` of `src/disk/streamer.c` over the drive.  Elsewhere `disk_read_block` returns the
bytes of the sector asked for, whatever its number (`Fs.diskReadBlock`); here it is the driver, on a
disk of some size.  Along any reads the two agree exactly as long as each read ends before the last
byte of the disk (`streamReads_iff`): a read that takes the last byte asks for the sector behind it,
and waits for ever.
-/

namespace KernelNES.Disk
open KernelNES.Lib KernelNES.Lib.AtaPio KernelNES.Memory
open KernelNES.Fs (peachosSectorSize streamerTotalToRead bytesAt bytesAt_add bytesAt_sector)

/-! ### Words and bytes -/

/-- The bytes of words, as they are stored. -/
def wordBytes : List U16 → List U8
  | []      => []
  | w :: ws => w.setWidth 8 :: (w >>> 8).setWidth 8 :: wordBytes ws

/-- The byte `i` of a sector. -/
def sectorByte (image : Image) (lba i : Nat) : U8 :=
  if i % 2 = 0 then (image.word lba (i / 2)).setWidth 8 else (image.word lba (i / 2) >>> 8).setWidth 8

/-- The disk whose sectors are those of the image. -/
def diskOf (image : Image) : Fs.Disk where
  sector lba i := sectorByte image lba.toNat i

/-- A word is two bytes, the low one first. -/
theorem wordBytes_getD (ws : List U16) (i : Nat) :
    (wordBytes ws).getD i 0 =
      if i % 2 = 0 then (ws.getD (i / 2) 0).setWidth 8 else (ws.getD (i / 2) 0 >>> 8).setWidth 8 := by
  induction ws generalizing i with
  | nil =>
      simp only [wordBytes, List.getD_nil]
      split <;> rfl
  | cons w ws ih =>
      match i with
      | 0 => rfl
      | 1 => rfl
      | i + 2 =>
          show (wordBytes ws).getD i 0 = _
          rw [ih, Nat.add_mod_right, Nat.add_div_right i (by decide)]
          rfl

/-- The bytes of a sector read. -/
theorem wordBytes_sector (image : Image) (lba : Nat) {i : Nat} (hi : i < 512) :
    (wordBytes (image.sectors 1 lba)).getD i 0 = sectorByte image lba i := by
  have hword : (image.sectors 1 lba).getD (i / 2) 0 = image.word lba (i / 2) := by
    rw [Image.sectors, Image.sectors, List.append_nil, Image.sector, List.getD_eq_getElem?_getD,
      List.getElem?_map, List.getElem?_range (by omega)]
    rfl
  rw [wordBytes_getD, hword, sectorByte]

/-! ### `diskstreamer_read` -/

/-- `diskstreamer_read` from position `pos`: the status, the bytes written to `out` and the new
position. -/
def diskstreamerRead {D : Type} (ports : Ports D) (pos total : Int) (fuel : Nat) :
    Pio Fault D (Int × List U8 × Int) := do
  let sector := pos.tdiv peachosSectorSize
  let offset := pos.tmod peachosSectorSize
  let totalToRead := streamerTotalToRead offset total
  let (res, words) ← diskReadSector ports (BitVec.ofInt 32 sector) 1 fuel
  if res < 0 then pure (res, [], pos)
  else if 0 < totalToRead ∧ (offset < 0 ∨ peachosSectorSize < offset + totalToRead) then
    Exec.fault (.fault .outOfBounds)
  else
    let out := (List.range totalToRead.toNat).map fun i => (wordBytes words).getD (offset.toNat + i) 0
    let pos := wrap32 (pos + totalToRead)
    if wrap32 (offset + total) ≥ peachosSectorSize then do
      let (res, rest, pos) ← diskstreamerRead ports pos (wrap32 (total - totalToRead)) fuel
      pure (res, out ++ rest, pos)
    else pure (res, out, pos)
termination_by (wrap32 total).toNat
decreasing_by
  exact Fs.streamerRound_decreases ‹_› ‹_›

/-- The bytes of a sector from `offset` on. -/
def taken (words : List U16) (offset n : Nat) : List U8 :=
  (List.range n).map fun i => (wordBytes words).getD (offset + i) 0

/-- One round: the sector, the bytes from the position on, and what is behind the sector. -/
theorem diskstreamerRead_eq {D : Type} (ports : Ports D) {pos total : Int} (hpos : 0 ≤ pos) (htotal : 0 ≤ total)
    (hlt : pos + total < 2 ^ 31) :
    diskstreamerRead ports pos total = fun fuel =>
      diskReadSector ports (BitVec.ofInt 32 (pos / 512)) 1 fuel >>= fun r =>
        if r.1 < 0 then pure (r.1, [], pos)
        else if 512 ≤ pos % 512 + total then
          diskstreamerRead ports (pos + (512 - pos % 512)) (total - (512 - pos % 512)) fuel >>= fun p =>
            pure (p.1, taken r.2 (pos % 512).toNat (512 - pos % 512).toNat ++ p.2.1, p.2.2)
        else pure (r.1, taken r.2 (pos % 512).toNat total.toNat, pos + total) := by
  funext fuel
  have hw : wrap32 (pos % 512 + total) = pos % 512 + total := wrap32_of_nonneg (by omega) (by omega)
  rw [diskstreamerRead]
  simp only [peachosSectorSize, Int.tmod_eq_emod_of_nonneg hpos, Int.tdiv_eq_ediv_of_nonneg hpos, hw]
  congr 1
  funext ⟨res, words⟩
  dsimp only
  congr 1
  by_cases hover : pos % 512 + total ≥ 512
  · have ht : streamerTotalToRead (pos % 512) total = 512 - pos % 512 :=
      Fs.streamerTotalToRead_of_overflow (by omega) (by omega) (by rwa [hw])
    have hnext : wrap32 (pos + (512 - pos % 512)) = pos + (512 - pos % 512) :=
      wrap32_of_nonneg (by omega) (by omega)
    have hrest : wrap32 (total - (512 - pos % 512)) = total - (512 - pos % 512) :=
      wrap32_of_nonneg (by omega) (by omega)
    rw [ht, if_neg (by omega), if_pos hover, if_pos hover, hnext, hrest]
    rfl
  · have ht : streamerTotalToRead (pos % 512) total = total := by
      rw [streamerTotalToRead, hw, if_neg hover]
    rw [ht, if_neg (by omega), if_neg hover, if_neg hover, wrap32_of_nonneg (by omega) (by omega)]
    rfl

/-- The bytes a round takes of its sector are the bytes from the position on. -/
theorem taken_eq (image : Image) {pos : Int} (hpos : 0 ≤ pos) (hlt : pos < 2 ^ 31) {n : Nat}
    (hn : pos % 512 + n ≤ 512) :
    taken (image.sectors 1 (BitVec.ofInt 32 (pos / 512)).toNat) (pos % 512).toNat n =
      bytesAt (diskOf image) pos n := by
  rw [bytesAt_sector (by omega) hlt hn]
  refine List.map_congr_left fun i hi => ?_
  have hi := List.mem_range.mp hi
  exact wordBytes_sector image _ (by omega)

/-- The sector of a position on the disk. -/
theorem readable_sector {image : Image} {pos : Int} (hpos : 0 ≤ pos) (hlt : pos < 2 ^ 31)
    (hend : pos / 512 < image.size) : Readable image (BitVec.ofInt 32 (pos / 512)) 1 := by
  have hlba := Fs.toNat_ofInt_sector (n := pos / 512) (by omega) (by omega)
  exact ⟨by decide, by decide, by omega⟩

section
variable {D : Type} {drive : Drive D} {d : D}

/-- **A read that ends before the last byte of the disk** returns the bytes from the position of the
stream on, and leaves the drive idle. -/
theorem diskstreamerRead_reads {pos total : Int} (hidle : drive.phase d = .idle)
    (hpos : 0 ≤ pos) (htotal : 0 ≤ total) (hlt : pos + total < 2 ^ 31)
    (hend : pos + total < 512 * drive.image.size) :
    ∃ d', EndsIn (diskstreamerRead drive.toPorts pos total) d
        (0, bytesAt (diskOf drive.image) pos total.toNat, pos + total) d' ∧
      drive.phase d' = .idle := by
  induction hn : total.toNat using Nat.strong_induction_on generalizing pos total d with
  | _ n ih =>
    obtain ⟨d₁, hsector, hidle₁⟩ := diskReadSector_reads (ε := Fault) hidle
      (readable_sector hpos (by omega) (by omega))
    rw [diskstreamerRead_eq _ hpos htotal hlt]
    by_cases hover : 512 ≤ pos % 512 + total
    · -- the rest of the sector, and the read that starts behind it
      obtain ⟨d', hrest, hidle'⟩ := ih (total - (512 - pos % 512)).toNat (by omega) hidle₁
        (show 0 ≤ pos + (512 - pos % 512) by omega) (show 0 ≤ total - (512 - pos % 512) by omega)
        (by omega) (by omega) rfl
      refine ⟨d', hsector.bind ?_, hidle'⟩
      have hsplit : n = (512 - pos % 512).toNat + (total - (512 - pos % 512)).toNat := by omega
      simp only [if_neg (lt_irrefl (0 : Int)), if_pos hover]
      rw [hsplit, bytesAt_add, Int.toNat_of_nonneg (show 0 ≤ 512 - pos % 512 by omega),
        ← taken_eq drive.image hpos (by omega) (by omega),
        show pos + total = pos + (512 - pos % 512) + (total - (512 - pos % 512)) by omega]
      exact hrest.bind (.pure _ _)
    · refine ⟨d₁, hsector.bind ?_, hidle₁⟩
      simp only [if_neg (lt_irrefl (0 : Int)), if_neg hover]
      rw [← hn, ← taken_eq drive.image hpos (by omega) (by omega)]
      exact .pure _ _

/-- **A read that takes the last byte of the disk**, or passes it, waits for ever. -/
theorem diskstreamerRead_hangs {pos total : Int} (hidle : drive.phase d = .idle)
    (hpos : 0 ≤ pos) (htotal : 0 ≤ total) (hlt : pos + total < 2 ^ 31)
    (hend : 512 * drive.image.size ≤ pos + total) :
    Hangs (diskstreamerRead drive.toPorts pos total) d := by
  induction hn : total.toNat using Nat.strong_induction_on generalizing pos total d with
  | _ n ih =>
    rw [diskstreamerRead_eq _ hpos htotal hlt]
    by_cases hsize : pos / 512 < drive.image.size
    · -- the sector is there, and the read goes on behind it
      obtain ⟨d₁, hsector, hidle₁⟩ := diskReadSector_reads (ε := Fault) hidle
        (readable_sector hpos (by omega) hsize)
      refine hsector.bind_hangs ?_
      simp only [if_neg (lt_irrefl (0 : Int)), if_pos (show 512 ≤ pos % 512 + total by omega)]
      exact Hangs.bind _ (ih (total - (512 - pos % 512)).toNat (by omega) hidle₁
        (show 0 ≤ pos + (512 - pos % 512) by omega) (show 0 ≤ total - (512 - pos % 512) by omega)
        (by omega) (by omega) rfl)
    · have hlba := Fs.toNat_ofInt_sector (n := pos / 512) (by omega) (by omega)
      exact Hangs.bind _ (diskReadSector_hangs hidle (by decide) (by omega))

end

/-! ### Runs -/

/-- Reads, one after the other: where each starts, and how many bytes it takes. -/
def streamReads {D : Type} (ports : Ports D) :
    List (Int × Int) → (fuel : Nat) → Pio Fault D (List (Int × List U8))
  | [], _ => pure []
  | (pos, total) :: requests, fuel => do
    let (res, bytes, _) ← diskstreamerRead ports pos total fuel
    let answers ← streamReads ports requests fuel
    pure ((res, bytes) :: answers)

/-- The byte positions of a request are `int`s. -/
def IntRequest (r : Int × Int) : Prop := 0 ≤ r.1 ∧ 0 ≤ r.2 ∧ r.1 + r.2 < 2 ^ 31

instance (r : Int × Int) : Decidable (IntRequest r) := inferInstanceAs (Decidable (_ ∧ _))

/-- What a disk without an end answers. -/
def answersOf (disk : Fs.Disk) (requests : List (Int × Int)) : List (Int × List U8) :=
  requests.map fun r => (0, bytesAt disk r.1 r.2.toNat)

/-- **The driver below the filesystem.**  Reads through the driver give what reads of a disk without
an end give exactly when each of them ends before the last byte of the disk; otherwise the kernel
waits for ever. -/
theorem streamReads_iff {D : Type} {drive : Drive D} {requests : List (Int × Int)}
    (hint : ∀ r ∈ requests, IntRequest r) {d : D} (hidle : drive.phase d = .idle) :
    ((∃ d', EndsIn (streamReads drive.toPorts requests) d
        (answersOf (diskOf drive.image) requests) d') ↔
      ∀ r ∈ requests, r.1 + r.2 < 512 * drive.image.size) ∧
    ((∃ r ∈ requests, 512 * drive.image.size ≤ r.1 + r.2) →
      Hangs (streamReads drive.toPorts requests) d) := by
  have hhangs : (∃ r ∈ requests, 512 * (drive.image.size : Int) ≤ r.1 + r.2) →
      Hangs (streamReads drive.toPorts requests) d := by
    induction requests generalizing d with
    | nil => rintro ⟨r, hr, -⟩; cases hr
    | cons request requests ih =>
        rintro ⟨r, hr, hend⟩
        obtain ⟨hpos, htotal, hlt⟩ := hint request List.mem_cons_self
        rcases lt_or_ge (request.1 + request.2) (512 * (drive.image.size : Int)) with hin | hout
        · obtain ⟨d₁, hread, hidle₁⟩ := diskstreamerRead_reads hidle hpos htotal hlt hin
          refine hread.bind_hangs (Hangs.bind _ ?_)
          rcases List.mem_cons.mp hr with rfl | hr
          · omega
          · exact ih (fun r hr => hint r (List.mem_cons_of_mem _ hr)) hidle₁ ⟨r, hr, hend⟩
        · exact Hangs.bind _ (diskstreamerRead_hangs hidle hpos htotal hlt hout)
  refine ⟨⟨?_, ?_⟩, hhangs⟩
  · rintro ⟨d', hends⟩ r hr
    by_contra hend
    exact (hhangs ⟨r, hr, by omega⟩).not_endsIn hends
  · clear hhangs
    intro hin
    induction requests generalizing d with
    | nil => exact ⟨d, .pure [] d⟩
    | cons request requests ih =>
        obtain ⟨hpos, htotal, hlt⟩ := hint request List.mem_cons_self
        obtain ⟨d₁, hread, hidle₁⟩ := diskstreamerRead_reads hidle hpos htotal hlt
          (hin request List.mem_cons_self)
        obtain ⟨d', hrest⟩ := ih (fun r hr => hint r (List.mem_cons_of_mem _ hr)) hidle₁
          (fun r hr => hin r (List.mem_cons_of_mem _ hr))
        exact ⟨d', hread.bind (hrest.bind (.pure _ _))⟩

/-- The second sector of a small disk can be read but for its last byte. -/
theorem smallDrive_streams :
    (∃ d', EndsIn (streamReads smallDrive.toPorts [(0, 512), (1000, 23)]) smallDriveIdle
      (answersOf (diskOf smallDrive.image) [(0, 512), (1000, 23)]) d') ∧
      Hangs (streamReads smallDrive.toPorts [(0, 512), (1000, 24)]) smallDriveIdle := by
  have hidle : smallDrive.phase smallDriveIdle = .idle := rfl
  exact ⟨(streamReads_iff (by decide) hidle).1.mpr (by decide),
    (streamReads_iff (by decide) hidle).2 ⟨(1000, 24), by decide, by decide⟩⟩

end KernelNES.Disk
