import KernelNES.Fs.Fat16
import KernelNES.Lib.Logged
import Mathlib.Data.List.Nodup

/-!
# Fs — SectorReads

The streamer of `src/disk/streamer.c` seen from the two sides of a read: the bytes it stores
(`seek_read_exact`) and the sectors it asks the disk for, in the order of the requests
(`diskstreamerReadLogged_spec`).
-/

namespace KernelNES.Fs
open KernelNES.Lib KernelNES.Memory

/-! ### The bytes stored -/

section
variable {H : Type}

/-- `diskstreamer_seek`, then `diskstreamer_read`. -/
def seekAndRead (disk : Disk) (stream : StreamId) (pos total : Int) : K H (Int × List U8) := do
  let _ ← diskstreamerSeek stream pos
  streamRead disk stream total

/-- A read below 2³¹ is the bytes asked for. -/
theorem diskstreamerRead_of_nonneg (disk : Disk) {pos total : Int} (hpos : 0 ≤ pos)
    (htotal : 0 ≤ total) (hlt : pos + total < 2 ^ 31) :
    diskstreamerRead disk pos total = .ok (0, bytesAt disk pos total.toNat, pos + total) := by
  rw [diskstreamerRead_reads disk (.inl hpos) (by omega) (by omega) htotal (by omega),
    wrap32_of_nonneg (by omega) (by omega)]

/-- So is one through a stream. -/
theorem streamRead_exact (disk : Disk) (stream : StreamId) {pos total : Int} (hpos : 0 ≤ pos)
    (htotal : 0 ≤ total) (hlt : pos + total < 2 ^ 31) {s : KState H} (hs : s.pos stream = pos) :
    streamRead disk stream total s = .ok ((0, bytesAt disk pos total.toNat),
      { s with pos := Function.update s.pos stream (pos + total) }) := by
  simp only [streamRead, hs, diskstreamerRead_of_nonneg disk hpos htotal hlt]

/-- And one behind a seek. -/
theorem seekAndRead_exact (disk : Disk) (stream : StreamId) {pos total : Int} (hpos : 0 ≤ pos)
    (htotal : 0 ≤ total) (hlt : pos + total < 2 ^ 31) (s : KState H) :
    seekAndRead disk stream pos total s = .ok ((0, bytesAt disk pos total.toNat),
      { s with pos := Function.update s.pos stream (pos + total) }) := by
  have hseek : diskstreamerSeek stream pos s =
      .ok (0, { s with pos := Function.update s.pos stream pos }) := rfl
  rw [seekAndRead, Exec.bind_ok hseek,
    streamRead_exact disk stream hpos htotal hlt (Function.update_self ..)]
  simp only [Function.update_idem]

/-- Two reads, one after the other. -/
def readTwice (disk : Disk) (stream : StreamId) (a b : Int) : K H (Int × List U8) := do
  let (_, first) ← streamRead disk stream a
  let (res, second) ← streamRead disk stream b
  pure (res, first ++ second)

/-- Two reads in a row are one. -/
theorem streamRead_add (disk : Disk) (stream : StreamId) {a b : Int} (ha : 0 ≤ a) (hb : 0 ≤ b)
    (s : KState H) (hpos : 0 ≤ s.pos stream) (hlt : s.pos stream + (a + b) < 2 ^ 31) :
    readTwice disk stream a b s = streamRead disk stream (a + b) s := by
  have hfirst := streamRead_exact disk stream hpos ha (by omega) (rfl : s.pos stream = _)
  have hsecond := streamRead_exact disk stream (show 0 ≤ s.pos stream + a by omega) hb (by omega)
    (s := { s with pos := Function.update s.pos stream (s.pos stream + a) })
    (Function.update_self ..)
  have hsplit : (a + b).toNat = a.toNat + b.toNat := Int.toNat_add ha hb
  rw [readTwice, Exec.bind_ok hfirst]
  refine (Exec.bind_ok hsecond).trans ?_
  rw [streamRead_exact disk stream hpos (by omega) hlt rfl, hsplit, bytesAt_add,
    Int.toNat_of_nonneg ha]
  simp only [Function.update_idem, Int.add_assoc]
  rfl

/-- **The streamer is a byte view of the disk**: seeking and reading ends, returns `0`, stores the
bytes from the position on and leaves the stream behind them; no other stream moves, and a read
may be split anywhere. -/
theorem streamer_reads_bytes (disk : Disk) (stream : StreamId) {pos total : Int} (hpos : 0 ≤ pos)
    (htotal : 0 ≤ total) (hlt : pos + total < 2 ^ 31) (s : KState H) :
    seekAndRead disk stream pos total s = .ok ((0, bytesAt disk pos total.toNat),
      { s with pos := Function.update s.pos stream (pos + total) }) ∧
    ∀ a b : Int, 0 ≤ a → 0 ≤ b → a + b = total →
      (diskstreamerSeek stream pos >>= fun _ => readTwice disk stream a b) s =
        seekAndRead disk stream pos total s := by
  refine ⟨seekAndRead_exact disk stream hpos htotal hlt s, ?_⟩
  rintro a b ha hb rfl
  have hseek : diskstreamerSeek stream pos s =
      .ok (0, { s with pos := Function.update s.pos stream pos }) := rfl
  rw [Exec.bind_ok hseek, seekAndRead, Exec.bind_ok hseek]
  exact streamRead_add disk stream ha hb _ (by simpa using hpos) (by simpa using hlt)

/-- A read across the end of the first sector, of a disk whose bytes are their sector's number. -/
theorem streamer_reads_bytes_across :
    seekAndRead { sector := fun lba _ => lba.setWidth 8 } .fatRead 510 4
        (⟨(), fun _ => 0⟩ : KState Unit) =
      .ok ((0, [0, 0, 1, 1]), ⟨(), Function.update (fun _ => 0) .fatRead 514⟩) :=
  (streamer_reads_bytes _ .fatRead (by decide) (by decide) (by decide) _).1

end

/-! ### The sectors asked for -/

/-- `disk_read_block`, logging the sector it is passed. -/
def diskReadBlockLogged (disk : Disk) (lba : U32) :
    Logged U32 (Except Fault) (Int × (Nat → U8)) := do
  note lba
  pure (diskReadBlock disk lba)

/-- `diskstreamer_read`, logging the sectors it passes to `disk_read_block`. -/
def diskstreamerReadLogged (disk : Disk) (pos total : Int) :
    Logged U32 (Except Fault) (Int × List U8 × Int) := do
  let sector := pos.tdiv peachosSectorSize
  let offset := pos.tmod peachosSectorSize
  let totalToRead := streamerTotalToRead offset total
  let (res, buf) ← diskReadBlockLogged disk (BitVec.ofInt 32 sector)
  if res < 0 then pure (res, [], pos)
  else if 0 < totalToRead ∧ (offset < 0 ∨ peachosSectorSize < offset + totalToRead) then
    unlogged (.error .outOfBounds)
  else
    let out := (List.range totalToRead.toNat).map fun i => buf (offset.toNat + i)
    let pos := wrap32 (pos + totalToRead)
    if wrap32 (offset + total) ≥ peachosSectorSize then do
      let (res, rest, pos) ← diskstreamerReadLogged disk pos (wrap32 (total - totalToRead))
      pure (res, out ++ rest, pos)
    else pure (res, out, pos)
termination_by (wrap32 total).toNat
decreasing_by
  exact streamerRound_decreases ‹_› ‹_›

/-- Without the log it is `diskstreamer_read`. -/
theorem diskstreamerReadLogged_erases (disk : Disk) (pos total : Int) :
    Erases (diskstreamerReadLogged disk pos total) (diskstreamerRead disk pos total) := by
  induction hn : (wrap32 total).toNat using Nat.strong_induction_on generalizing pos total with
  | _ n ih =>
    rw [diskstreamerReadLogged, diskstreamerRead]
    simp only [diskReadBlockLogged, bind_assoc, pure_bind]
    refine .note_bind _ (.ite (.pure _) ?_)
    split
    · exact .unlogged _
    · rename_i hbuf
      split
      · rename_i hover
        refine .bind (ih _ ?_ _ _ rfl) fun _ => .pure _
        exact hn ▸ streamerRound_decreases hbuf hover
      · exact .pure _

/-- The `n` sectors from `sector` on. -/
def sectorsFrom (sector : Int) (n : Nat) : List U32 :=
  (List.range n).map fun i : Nat => BitVec.ofInt 32 (sector + i)

theorem sectorsFrom_succ (sector : Int) (n : Nat) :
    sectorsFrom sector (n + 1) = BitVec.ofInt 32 sector :: sectorsFrom (sector + 1) n := by
  simp only [sectorsFrom, List.range_succ_eq_map, List.map_cons, List.map_map]
  congr 1
  · simp
  · refine List.map_congr_left fun i _ => ?_
    simp only [Function.comp_apply, Nat.succ_eq_add_one, Nat.cast_add, Nat.cast_one]
    congr 1
    omega

/-- The sectors asked for, in order. -/
theorem diskstreamerReadLogged_log (disk : Disk) {pos total : Int} (hpos : 0 ≤ pos)
    (htotal : 0 ≤ total) (hlt : pos + total < 2 ^ 31) (log : List U32) :
    ∃ r, diskstreamerReadLogged disk pos total log =
      .ok (r, log ++ sectorsFrom (pos / 512) (((pos % 512 + total) / 512).toNat + 1)) := by
  induction hn : total.toNat using Nat.strong_induction_on generalizing pos total log with
  | _ n ih =>
    have hw : wrap32 (pos % 512 + total) = pos % 512 + total :=
      wrap32_of_nonneg (by omega) (by omega)
    rw [diskstreamerReadLogged]
    simp only [diskReadBlockLogged, bind_assoc, pure_bind, peachosSectorSize, diskReadBlock,
      Int.tmod_eq_emod_of_nonneg hpos, Int.tdiv_eq_ediv_of_nonneg hpos, hw]
    rw [note_bind_run, if_neg (by omega)]
    by_cases hov : pos % 512 + total ≥ 512
    · -- the next round starts at the next sector
      have ht : streamerTotalToRead (pos % 512) total = 512 - pos % 512 :=
        streamerTotalToRead_of_overflow (by omega) (by omega) (by rwa [hw])
      have hnext : wrap32 (pos + (512 - pos % 512)) = pos + (512 - pos % 512) :=
        wrap32_of_nonneg (by omega) (by omega)
      have hrest : wrap32 (total - (512 - pos % 512)) = total - (512 - pos % 512) :=
        wrap32_of_nonneg (by omega) (by omega)
      obtain ⟨r, hr⟩ := ih (total - (512 - pos % 512)).toNat (by omega)
        (show 0 ≤ pos + (512 - pos % 512) by omega)
        (show 0 ≤ total - (512 - pos % 512) by omega) (by omega)
        (log ++ [BitVec.ofInt 32 (pos / 512)]) rfl
      have hsector : (pos + (512 - pos % 512)) / 512 = pos / 512 + 1 := by omega
      have hcount : ((pos % 512 + total) / 512).toNat =
          (((pos + (512 - pos % 512)) % 512 + (total - (512 - pos % 512))) / 512).toNat + 1 := by
        omega
      rw [← hcount, hsector, List.append_assoc, List.singleton_append, ← sectorsFrom_succ] at hr
      rw [ht, if_neg (by omega), if_pos hov, hnext, hrest]
      exact ⟨_, Exec.bind_ok hr⟩
    · have ht : streamerTotalToRead (pos % 512) total = total := by
        rw [streamerTotalToRead, hw, if_neg hov]
      have hcount : ((pos % 512 + total) / 512).toNat = 0 := by omega
      rw [ht, if_neg (by omega), if_neg hov, hcount, sectorsFrom_succ]
      exact ⟨_, rfl⟩

theorem toNat_ofInt_sector {n : Int} (h₀ : 0 ≤ n) (h₁ : n < 2 ^ 32) :
    ((BitVec.ofInt 32 n).toNat : Int) = n := by
  rw [BitVec.toNat_ofInt]; omega

/-- A sector is asked for when it is in the range. -/
theorem mem_sectorsFrom {sector : Int} {n : Nat} (h₀ : 0 ≤ sector) (h₁ : sector + n ≤ 2 ^ 32)
    {lba : U32} : lba ∈ sectorsFrom sector n ↔ sector ≤ lba.toNat ∧ lba.toNat < sector + n := by
  simp only [sectorsFrom, List.mem_map, List.mem_range]
  constructor
  · rintro ⟨i, hi, rfl⟩
    rw [toNat_ofInt_sector (by omega) (by omega)]
    omega
  · rintro ⟨hge, hlt⟩
    refine ⟨(lba.toNat - sector).toNat, by omega, BitVec.eq_of_toNat_eq ?_⟩
    have := toNat_ofInt_sector (n := sector + (lba.toNat - sector).toNat) (by omega) (by omega)
    omega

/-- No sector is asked for twice. -/
theorem nodup_sectorsFrom {sector : Int} {n : Nat} (h₀ : 0 ≤ sector) (h₁ : sector + n ≤ 2 ^ 32) :
    (sectorsFrom sector n).Nodup := by
  refine List.Nodup.map_on (fun i hi j hj hij => ?_) List.nodup_range
  have hi := List.mem_range.mp hi
  have hj := List.mem_range.mp hj
  have hi' := toNat_ofInt_sector (n := sector + i) (by omega) (by omega)
  rw [hij, toNat_ofInt_sector (by omega) (by omega)] at hi'
  omega

/-- The sector holds a byte of the `total` from `pos` on. -/
def Intersects (lba : U32) (pos total : Int) : Prop :=
  512 * (lba.toNat : Int) < pos + total ∧ pos < 512 * (lba.toNat + 1)

/-- The sectors a read asks for are those it needs, each once.  Where it ends with the last byte of
a disk, none lies beyond the disk. -/
structure ExactRequests (pos total : Int) (log : List U32) : Prop where
  needed : ∀ lba ∈ log, Intersects lba pos total
  once : ∀ lba, Intersects lba pos total → log.count lba = 1
  onDisk : ∀ sectors : Nat, pos + total = 512 * sectors → ∀ lba ∈ log, lba.toNat < sectors

/-- **The streamer asks for the sectors it needs exactly when the read does not end with a
sector.**  Where it does, the test `>=` asks for the sector behind it too. -/
theorem exact_requests_iff (disk : Disk) {pos total : Int} (hpos : 0 ≤ pos) (htotal : 1 ≤ total)
    (hlt : pos + total < 2 ^ 31) :
    (∃ r log, diskstreamerReadLogged disk pos total [] = .ok (r, log) ∧
      ExactRequests pos total log) ↔ (pos + total) % 512 ≠ 0 := by
  obtain ⟨r, hlog⟩ := diskstreamerReadLogged_log disk hpos (by omega : 0 ≤ total) hlt []
  rw [List.nil_append] at hlog
  generalize hn : ((pos % 512 + total) / 512).toNat + 1 = n at hlog
  have hmem : ∀ {lba : U32}, lba ∈ sectorsFrom (pos / 512) n ↔
      pos / 512 ≤ lba.toNat ∧ lba.toNat < pos / 512 + n :=
    mem_sectorsFrom (by omega) (by omega)
  constructor
  · rintro ⟨r', log, hrun, hexact⟩ hend
    obtain ⟨-, rfl⟩ := Prod.mk.inj (Except.ok.inj (hlog.symm.trans hrun))
    -- the last request is for the sector that starts where the read ends
    have hlast := toNat_ofInt_sector (n := (pos + total) / 512) (by omega) (by omega)
    have := hexact.needed _ (hmem.mpr (by omega : pos / 512 ≤
      ((BitVec.ofInt 32 ((pos + total) / 512)).toNat : Int) ∧ _))
    simp only [Intersects] at this
    omega
  · intro hend
    refine ⟨r, _, hlog, fun lba hlba => ?_, fun lba hlba => ?_, fun sectors hsectors => by omega⟩
    · have := hmem.mp hlba
      simp only [Intersects]
      omega
    · simp only [Intersects] at hlba
      exact List.count_eq_one_of_mem (nodup_sectorsFrom (by omega) (by omega))
        (hmem.mpr (by omega))

/-- A read of the last but one byte of a sector. -/
theorem exact_requests_one_byte :
    ∃ r log, diskstreamerReadLogged { sector := fun _ _ => 0 } 510 1 [] = .ok (r, log) ∧
      ExactRequests 510 1 log :=
  (exact_requests_iff _ (by decide) (by decide) (by decide)).mpr (by decide)

/-- The first sector read whole: its neighbour is asked for as well. -/
theorem whole_sector_asks_for_next :
    ∃ r, diskstreamerReadLogged { sector := fun _ _ => 0 } 0 512 [] = .ok (r, [0, 1]) ∧
      ¬ ExactRequests 0 512 [0, 1] := by
  obtain ⟨r, hlog⟩ := diskstreamerReadLogged_log { sector := fun _ _ => 0 }
    (show (0 : Int) ≤ 0 by decide) (show (0 : Int) ≤ 512 by decide) (by decide) []
  refine ⟨r, hlog, fun hexact => ?_⟩
  have hneeded := hexact.needed 1 (by decide)
  exact absurd hneeded.1 (by decide)

end KernelNES.Fs
