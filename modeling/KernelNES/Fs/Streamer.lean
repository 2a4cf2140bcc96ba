import KernelNES.Memory.Kheap
import Mathlib.Data.List.Basic

/-!
# Fs — Streamer

`src/disk/streamer.c` over `src/disk/disk.c`.  A stream is a byte position on the disk; a read is
split at the sector boundaries by recursion.  From a position that is not negative, or starts a
sector, a read returns the bytes from there on (`diskstreamerRead_spec`).
-/

namespace KernelNES.Fs
open KernelNES.Lib KernelNES.Memory

/-- `PEACHOS_SECTOR_SIZE`, which is also the `sector_size` of the disk. -/
abbrev peachosSectorSize : Int := 512

/-- The disk: the bytes of each sector. -/
structure Disk where
  sector : (lba : U32) → Nat → U8

/-- `disk_read_block` for one sector of the only disk: the status and the buffer. -/
def diskReadBlock (disk : Disk) (lba : U32) : Int × (Nat → U8) := (0, disk.sector lba)

/-- The bytes one round of `diskstreamer_read` takes of a sector, from `offset` on. -/
def streamerTotalToRead (offset total : Int) : Int :=
  if wrap32 (offset + total) ≥ peachosSectorSize then
    wrap32 (total - wrap32 (wrap32 (offset + total) - peachosSectorSize))
  else total

/-- Up to the end of the sector. -/
theorem streamerTotalToRead_of_overflow {offset total : Int} (h₁ : -512 < offset)
    (h₂ : offset < 512) (h : wrap32 (offset + total) ≥ 512) :
    streamerTotalToRead offset total = 512 - offset := by
  rw [streamerTotalToRead, if_pos h]
  simp only [peachosSectorSize]
  obtain ⟨k, hk, -⟩ := wrap32_cases (offset + total)
  obtain ⟨l, hl, -⟩ := wrap32_cases (wrap32 (offset + total) - 512)
  obtain ⟨m, hm, hm₁, hm₂⟩ := wrap32_cases (total - wrap32 (wrap32 (offset + total) - 512))
  omega

/-- A round that stops at the end of the sector leaves less to read. -/
theorem streamerRound_decreases {pos total : Int}
    (hbuf : ¬ (0 < streamerTotalToRead (pos.tmod 512) total ∧
      (pos.tmod 512 < 0 ∨ 512 < pos.tmod 512 + streamerTotalToRead (pos.tmod 512) total)))
    (h : wrap32 (pos.tmod 512 + total) ≥ 512) :
    (wrap32 (wrap32 (total - streamerTotalToRead (pos.tmod 512) total))).toNat <
      (wrap32 total).toNat := by
  have h₁ := Int.lt_tmod_of_pos pos (show (0 : Int) < 512 by decide)
  have h₂ := Int.tmod_lt_of_pos pos (show (0 : Int) < 512 by decide)
  rw [streamerTotalToRead_of_overflow h₁ h₂ h] at hbuf ⊢
  rw [wrap32_wrap32]
  obtain ⟨k, hk, -, hk₂⟩ := wrap32_cases (pos.tmod 512 + total)
  obtain ⟨l, hl, hl₁, hl₂⟩ := wrap32_cases (total - (512 - pos.tmod 512))
  obtain ⟨m, hm, hm₁, hm₂⟩ := wrap32_cases total
  omega

/-- `diskstreamer_read` from position `pos`: the status, the bytes written to `out` and the new
position. -/
def diskstreamerRead (disk : Disk) (pos total : Int) : Except Fault (Int × List U8 × Int) :=
  let sector := pos.tdiv peachosSectorSize
  let offset := pos.tmod peachosSectorSize
  let totalToRead := streamerTotalToRead offset total
  let (res, buf) := diskReadBlock disk (BitVec.ofInt 32 sector)
  if res < 0 then .ok (res, [], pos)
  -- the loop reads `buf[offset]` to `buf[offset + total_to_read - 1]`
  else if 0 < totalToRead ∧ (offset < 0 ∨ peachosSectorSize < offset + totalToRead) then
    .error .outOfBounds
  else
    let out := (List.range totalToRead.toNat).map fun i => buf (offset.toNat + i)
    let pos := wrap32 (pos + totalToRead)
    if wrap32 (offset + total) ≥ peachosSectorSize then do
      let (res, rest, pos) ← diskstreamerRead disk pos (wrap32 (total - totalToRead))
      .ok (res, out ++ rest, pos)
    else .ok (res, out, pos)
termination_by (wrap32 total).toNat
decreasing_by
  exact streamerRound_decreases ‹_› ‹_›

/-! ### What a read returns -/

/-- The byte of the disk at position `p`. -/
def byteAt (disk : Disk) (p : Int) : U8 :=
  disk.sector (BitVec.ofInt 32 (wrap32 p / 512)) (wrap32 p % 512).toNat

/-- The `n` bytes of the disk from position `p` on. -/
def bytesAt (disk : Disk) (p : Int) (n : Nat) : List U8 :=
  (List.range n).map fun i : Nat => byteAt disk (p + i)

theorem bytesAt_length (disk : Disk) (p : Int) (n : Nat) : (bytesAt disk p n).length = n := by
  simp [bytesAt]

/-- Addresses of the disk go round at 2³². -/
theorem bytesAt_wrap32 (disk : Disk) (p : Int) (n : Nat) :
    bytesAt disk (wrap32 p) n = bytesAt disk p n := by
  simp [bytesAt, byteAt]

/-- The bytes of two ranges, one behind the other. -/
theorem bytesAt_add (disk : Disk) (p : Int) (m n : Nat) :
    bytesAt disk p (m + n) = bytesAt disk p m ++ bytesAt disk (p + m) n := by
  simp only [bytesAt, List.range_add, List.map_append, List.map_map]
  congr 1
  refine List.map_congr_left fun i _ => ?_
  simp [Int.add_assoc]

theorem map_range_slice {α : Type} (f : Nat → α) {a b n : Nat} (h : a + b ≤ n) :
    (((List.range n).map f).drop a).take b = (List.range b).map fun t => f (a + t) := by
  obtain ⟨r, rfl⟩ := Nat.exists_eq_add_of_le h
  rw [Nat.add_assoc, List.range_add, List.map_append, List.map_map, List.drop_left' (by simp),
    List.range_add, List.map_append, List.take_left' (by simp)]
  rfl

/-- A slice of the bytes. -/
theorem bytesAt_slice (disk : Disk) (p : Int) {a b n : Nat} (h : a + b ≤ n) :
    ((bytesAt disk p n).drop a).take b = bytesAt disk (p + a) b := by
  rw [bytesAt, map_range_slice _ h]
  refine List.map_congr_left fun i _ => ?_
  push_cast
  rw [Int.add_assoc]

/-- A position from which no read leaves the sector buffer. -/
def Sound (pos : Int) : Prop := 0 ≤ pos ∨ pos % 512 = 0

instance (pos : Int) : Decidable (Sound pos) := inferInstanceAs (Decidable (_ ∨ _))

/-- A sound position has its offset in the sector. -/
theorem Sound.tmod {pos : Int} (h : Sound pos) : pos.tmod 512 = pos % 512 := by
  rcases h with h | h
  · exact Int.tmod_eq_emod_of_nonneg h
  · rw [h]; exact Int.tmod_eq_zero_of_dvd (Int.dvd_of_emod_eq_zero h)

/-- And its sector. -/
theorem Sound.tdiv {pos : Int} (h : Sound pos) : pos.tdiv 512 = pos / 512 := by
  rcases h with h | h
  · exact Int.tdiv_eq_ediv_of_nonneg h
  · exact Int.tdiv_eq_ediv_of_dvd (Int.dvd_of_emod_eq_zero h)

/-- Within the sector of a position the bytes of the disk are those of the sector's buffer. -/
theorem bytesAt_sector {disk : Disk} {pos : Int} (h₁ : -2 ^ 31 ≤ pos) (h₂ : pos < 2 ^ 31) {n : Nat}
    (hn : pos % 512 + n ≤ 512) :
    bytesAt disk pos n = (List.range n).map fun i =>
      disk.sector (BitVec.ofInt 32 (pos / 512)) ((pos % 512).toNat + i) := by
  unfold bytesAt
  refine List.map_congr_left fun i hi => ?_
  have hi := List.mem_range.mp hi
  have hp : wrap32 (pos + i) = pos + i := wrap32_eq_self (by omega) (by omega)
  have hd : (pos + i) / 512 = pos / 512 := by omega
  have hm : ((pos + i) % 512).toNat = (pos % 512).toNat + i := by omega
  rw [byteAt, hp, hd, hm]

/-- **A read returns the bytes from the position of the stream on**, and moves the stream past
them, as long as the sum in its overflow test stays an `int`. -/
theorem diskstreamerRead_reads (disk : Disk) {pos total : Int} (hpos : Sound pos)
    (h₁ : -2 ^ 31 ≤ pos) (h₂ : pos < 2 ^ 31) (htotal : 0 ≤ total)
    (hlt : pos % 512 + total < 2 ^ 31) :
    diskstreamerRead disk pos total =
      .ok (0, bytesAt disk pos total.toNat, wrap32 (pos + total)) := by
  induction hn : total.toNat using Nat.strong_induction_on generalizing pos total with
  | _ n ih =>
    have hw : wrap32 (pos % 512 + total) = pos % 512 + total :=
      wrap32_of_nonneg (by omega) (by omega)
    rw [diskstreamerRead]
    simp only [peachosSectorSize, diskReadBlock, hpos.tmod, hpos.tdiv, hw]
    by_cases hov : pos % 512 + total ≥ 512
    · -- the read goes on in the next sector
      have ht : streamerTotalToRead (pos % 512) total = 512 - pos % 512 :=
        streamerTotalToRead_of_overflow (by omega) (by omega) (by rwa [hw])
      obtain ⟨m, hm⟩ : ∃ m : Nat, 512 - pos % 512 = m :=
        ⟨_, (Int.toNat_of_nonneg (by omega)).symm⟩
      have hrest : wrap32 (total - m) = total - m := wrap32_of_nonneg (by omega) (by omega)
      have hnext : wrap32 (pos + m) % 512 = 0 := by
        rw [wrap32_emod _ (by decide)]; omega
      have hrec := ih (total - m).toNat (by omega) (.inr hnext) (le_wrap32 _) (wrap32_lt _)
        (by omega : 0 ≤ total - m) (by omega) rfl
      have hsplit : n = m + (total - m).toNat := by omega
      have hend : wrap32 (wrap32 (pos + m) + (total - m)) = wrap32 (pos + total) := by
        rw [wrap32_wrap32_add]; congr 1; omega
      rw [ht, if_neg (by omega), if_neg (by omega), if_pos hov, hm, hrest, hrec, hend, hsplit,
        bytesAt_add, bytesAt_sector h₁ h₂ (by omega), bytesAt_wrap32, Int.toNat_natCast]
      rfl
    · -- the read ends in this sector
      have ht : streamerTotalToRead (pos % 512) total = total := by
        rw [streamerTotalToRead, hw, if_neg hov]
      rw [ht, if_neg (by omega), if_neg (by omega), if_neg hov, hn,
        bytesAt_sector h₁ h₂ (by omega)]

/-- A read from a sound position is the bytes asked for. -/
theorem diskstreamerRead_spec (disk : Disk) {pos total : Int} (hpos : Sound pos)
    (h₁ : -2 ^ 31 ≤ pos) (h₂ : pos < 2 ^ 31) (htotal : 0 ≤ total) (hlt : total < 2 ^ 30) :
    diskstreamerRead disk pos total =
      .ok (0, bytesAt disk pos total.toNat, wrap32 (pos + total)) :=
  diskstreamerRead_reads disk hpos h₁ h₂ htotal (by omega)

/-- From a negative position inside a sector a read leaves the sector buffer. -/
theorem diskstreamerRead_unsound (disk : Disk) {pos total : Int} (hpos : ¬ Sound pos)
    (htotal : 0 < total) : diskstreamerRead disk pos total = .error .outOfBounds := by
  simp only [Sound, not_or] at hpos
  have hoffset : pos.tmod 512 = pos % 512 - 512 := by
    rw [Int.tmod_eq_emod, if_neg (by omega)]; rfl
  have hread : 0 < streamerTotalToRead (pos % 512 - 512) total := by
    by_cases hov : wrap32 (pos % 512 - 512 + total) ≥ 512
    · rw [streamerTotalToRead_of_overflow (by omega) (by omega) hov]; omega
    · rwa [streamerTotalToRead, if_neg hov]
  rw [diskstreamerRead]
  simp only [peachosSectorSize, diskReadBlock, hoffset]
  rw [if_neg (by omega), if_pos ⟨hread, .inl (by omega)⟩]

end KernelNES.Fs
