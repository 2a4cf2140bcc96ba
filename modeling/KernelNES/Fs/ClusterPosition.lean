import KernelNES.Fs.ClusterRead
import Mathlib.Tactic.Positivity

/-!
# Fs — ClusterPosition

The position `fat16_read_internal_from_stream` seeks to.  It is computed in `int` from the geometry
of the boot sector, a cluster and an offset; it is exact for the bytes in the first 2 GiB of the
disk (`starting_position_exact_iff`), and the volume the boot sector declares is larger.
-/

namespace KernelNES.Fs
open KernelNES.Lib KernelNES.Memory

section
variable {H : Type}

/-- `starting_pos` of `fat16_read_internal_from_stream`. -/
def startingPos (vol : Volume) (clusterToUse offset : Int) : Int :=
  wrap32 (fat16ClusterToSector vol clusterToUse * peachosSectorSize +
    offset.tmod (sizeOfClusterBytes vol))

/-- What `fat16_read_internal_from_stream` does once it has called `diskstreamer_seek`, with the
status of that call. -/
def readSought (vol : Volume) (stream : StreamId) (cluster offset total res : Int) :
    K H (Int × List U8) := do
  let totalToRead := if total > sizeOfClusterBytes vol then sizeOfClusterBytes vol else total
  if res ≠ 0 then pure (res, [])
  else
    let (res, out) ← streamRead vol.disk stream totalToRead
    if res ≠ 0 then pure (res, out)
    else if total - totalToRead > 0 then do
      let (res, rest) ← fat16ReadInternalFromStream vol stream cluster
        (wrap32 (offset + totalToRead)) (total - totalToRead)
      pure (res, out ++ rest)
    else pure (res, out)

/-- Once the cluster is known, the stream is put at the starting position. -/
theorem fat16ReadInternalFromStream_seeks {vol : Volume} (hC : sizeOfClusterBytes vol ≠ 0)
    {stream : StreamId} {start offset total cluster : Int} {s s₁ : KState H}
    (hstart : fat16GetClusterForOffset vol start offset s = .ok (cluster, s₁))
    (hcluster : 0 ≤ cluster) :
    fat16ReadInternalFromStream vol stream start offset total s =
      (diskstreamerSeek stream (startingPos vol cluster offset) >>=
        readSought vol stream start offset total) s₁ := by
  rw [fat16ReadInternalFromStream, Exec.bind_ok hstart, if_neg (by omega), dif_neg hC]
  rfl

/-- An offset in the first cluster needs no lookup. -/
theorem fat16GetClusterForOffset_first (vol : Volume) (cluster : Int) {offset : Int}
    (h₀ : 0 ≤ offset) (h₁ : offset < sizeOfClusterBytes vol) (s : KState H) :
    fat16GetClusterForOffset vol cluster offset s = .ok (cluster, s) := by
  rw [fat16GetClusterForOffset, if_neg (by omega), Int.tdiv_eq_ediv_of_nonneg h₀,
    Int.ediv_eq_zero_of_lt h₀ h₁]
  rfl

end

/-! ### The range of the position -/

/-- A value of a C `int`. -/
def IsInt (x : Int) : Prop := -2 ^ 31 ≤ x ∧ x < 2 ^ 31

/-- The root directory ends where `fat16_get_root_directory` says. -/
def Geometry (vol : Volume) : Prop :=
  vol.rootDirectory.endingSectorPos = rootDirSectorPos vol.header + rootDirTotalSectors vol.header

instance (vol : Volume) : Decidable (Geometry vol) := inferInstanceAs (Decidable (_ = _))

theorem rootDirTotalSectors_nonneg (header : FatHeader) : 0 ≤ rootDirTotalSectors header := by
  have hsize : 0 ≤ rootDirSize header := by simp only [rootDirSize]; positivity
  have hsectors := Int.tdiv_nonneg hsize (show (0 : Int) ≤ peachosSectorSize by decide)
  simp only [rootDirTotalSectors]
  split <;> omega

theorem Geometry.ending_nonneg {vol : Volume} (h : Geometry vol) :
    0 ≤ vol.rootDirectory.endingSectorPos := by
  have hsectors := rootDirTotalSectors_nonneg vol.header
  have hstart : 0 ≤ rootDirSectorPos vol.header := by simp only [rootDirSectorPos]; positivity
  rw [h]
  omega

/-- The position of an offset in a cluster is computed without overflow, from `int` products and
sums, and its sector is not negative. -/
structure ExactPosition (vol : Volume) (cluster offset : Int) : Prop where
  product : IsInt ((cluster - 2) * vol.header.sectorsPerCluster.toNat)
  sector : IsInt (vol.rootDirectory.endingSectorPos +
    (cluster - 2) * vol.header.sectorsPerCluster.toNat)
  bytes : IsInt ((vol.rootDirectory.endingSectorPos +
    (cluster - 2) * vol.header.sectorsPerCluster.toNat) * peachosSectorSize)
  seek : startingPos vol cluster offset = (vol.rootDirectory.endingSectorPos +
    (cluster - 2) * vol.header.sectorsPerCluster.toNat) * 512 + offset % sizeOfClusterBytes vol
  read : 0 ≤ (startingPos vol cluster offset).tdiv peachosSectorSize

/-- The position is exact when it is below 2³¹. -/
theorem exactPosition_iff {vol : Volume} (hC : sizeOfClusterBytes vol ≠ 0) (hgeo : Geometry vol)
    {cluster offset : Int} (hcluster : 2 ≤ cluster) (hoffset : 0 ≤ offset) :
    ExactPosition vol cluster offset ↔
      clusterPos vol cluster + offset % sizeOfClusterBytes vol < 2 ^ 31 := by
  have hending := hgeo.ending_nonneg
  have hproduct : 0 ≤ (cluster - 2) * vol.header.sectorsPerCluster.toNat :=
    Int.mul_nonneg (by omega) (by omega)
  have hin := Int.emod_nonneg offset hC
  have hpos : startingPos vol cluster offset =
      wrap32 (clusterPos vol cluster + offset % sizeOfClusterBytes vol) := by
    rw [startingPos, startingPos_eq, Int.tmod_eq_emod_of_nonneg hoffset]
  have hlt := wrap32_lt (clusterPos vol cluster + offset % sizeOfClusterBytes vol)
  constructor
  · rintro ⟨-, -, -, hseek, -⟩
    rw [hpos] at hseek
    simp only [clusterPos] at hlt hseek ⊢
    omega
  · intro h
    have hexact := wrap32_of_nonneg (by simp only [clusterPos]; omega) h
    refine ⟨?_, ?_, ?_, hpos.trans hexact, ?_⟩
    · simp only [IsInt, clusterPos] at *; omega
    · simp only [IsInt, clusterPos] at *; omega
    · simp only [IsInt, clusterPos, peachosSectorSize] at *; omega
    · rw [hpos, hexact]
      exact Int.tdiv_nonneg (by simp only [clusterPos]; omega) (by decide)

/-- **`fat16_read_internal_from_stream` seeks to the exact position of an offset in a cluster
exactly when that byte is in the first 2 GiB of the disk.** -/
theorem starting_position_exact_iff {H : Type} {vol : Volume}
    (hspc : 0 < vol.header.sectorsPerCluster) (hgeo : Geometry vol) (stream : StreamId)
    {start offset cluster : Int} (total : Int)
    (hoffset : 0 ≤ offset) (hcluster : 2 ≤ cluster ∧ cluster ≤ 0xFFEF) {s s₁ : KState H}
    (hstart : fat16GetClusterForOffset vol start offset s = .ok (cluster, s₁)) :
    fat16ReadInternalFromStream vol stream start offset total s =
        (diskstreamerSeek stream (startingPos vol cluster offset) >>=
          readSought vol stream start offset total) s₁ ∧
      (ExactPosition vol cluster offset ↔
        clusterPos vol cluster + offset % sizeOfClusterBytes vol < 2 ^ 31) := by
  have hC : sizeOfClusterBytes vol ≠ 0 := by
    have : 0 < vol.header.sectorsPerCluster.toNat := hspc
    simp only [sizeOfClusterBytes, peachosSectorSize]
    omega
  exact ⟨fat16ReadInternalFromStream_seeks hC hstart (by omega),
    exactPosition_iff hC hgeo hcluster.1 hoffset⟩

/-! ### The shipped boot sector -/

/-- The volume of `src/boot/boot.asm`, with any disk. -/
def shippedVolume (disk : Disk) : Volume where
  disk
  header := { sectorsPerCluster := 0x80, reservedSectors := 200, fatCopies := 0x02,
              rootDirEntries := 0x40, sectorsPerFat := 0x100 }
  rootDirectory := { item := .null, total := 0, sectorPos := 712, endingSectorPos := 716 }

/-- `SectorsBig`. -/
def sectorsBig : Int := 0x773594

/-- The cluster ends within the sectors the boot sector declares. -/
def InsideShipped (disk : Disk) (cluster : Int) : Prop :=
  (shippedVolume disk).rootDirectory.endingSectorPos +
    (cluster - 1) * (shippedVolume disk).header.sectorsPerCluster.toNat ≤ sectorsBig

instance (disk : Disk) (cluster : Int) : Decidable (InsideShipped disk cluster) :=
  inferInstanceAs (Decidable (_ ≤ _))

/-- The byte at offset 100 of the last cluster that starts in the first 2 GiB. -/
theorem starting_position_exact_last :
    ExactPosition (shippedVolume ⟨fun _ _ => 0⟩) 32764 100 :=
  (starting_position_exact_iff (by decide) (by decide) .clusterRead 1 (by decide) (by decide)
    (fat16GetClusterForOffset_first (H := Unit) _ 32764 (by decide) (by decide)
      ⟨(), fun _ => 0⟩)).2.mpr (by decide)

/-- **Cluster 32765 of the shipped volume is sought at a negative position.** -/
theorem shipped_position_overflows :
    Geometry (shippedVolume ⟨fun _ _ => 0⟩) ∧ InsideShipped ⟨fun _ _ => 0⟩ 32765 ∧
      startingPos (shippedVolume ⟨fun _ _ => 0⟩) 32765 0 = -2147444736 ∧
      ¬ ExactPosition (shippedVolume ⟨fun _ _ => 0⟩) 32765 0 := by
  refine ⟨by decide, by decide, by decide, fun h => ?_⟩
  exact absurd ((exactPosition_iff (by decide) (by decide) (by decide) (by decide)).mp h)
    (by decide)

end KernelNES.Fs
