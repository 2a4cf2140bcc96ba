import KernelNES.Fs.Fat16

/-!
# Fs — ClusterChain

What the driver reads does not depend on where its streams stand: it seeks before it reads
(`seek_read`).  The FAT entry of a cluster is a value of the disk (`fatEntry`), the chain of
clusters is followed on these values alone (`clusterAhead`), and so is a file along it.
-/

namespace KernelNES.Fs
open KernelNES.Lib KernelNES.Memory

section
variable {H α : Type}

/-! ### Seeking, then reading -/

section
variable {disk : Disk} {stream : StreamId} {p total : Int} {k : Int → K H α}
  {g : Int × List U8 → K H α} (hk : k 0 = streamRead disk stream total >>= g)
include hk

theorem seek_read {res pos : Int} {out : List U8}
    (h : diskstreamerRead disk p total = .ok (res, out, pos)) (s : KState H) :
    ∃ pos', (diskstreamerSeek stream p >>= k) s = g (res, out) { s with pos := pos' } := by
  have hseek : diskstreamerSeek stream p s =
      .ok (0, { s with pos := Function.update s.pos stream p }) := rfl
  have hread : streamRead disk stream total { s with pos := Function.update s.pos stream p } =
      .ok ((res, out), { s with
        pos := Function.update (Function.update s.pos stream p) stream pos }) := by
    simp only [streamRead, Function.update_self, h]
  exact ⟨_, by rw [Exec.bind_ok hseek, hk, Exec.bind_ok hread]⟩

/-- Seeking and reading, when nothing is left to do. -/
theorem seek_read_pure {res pos : Int} {out : List U8} {a : α}
    (h : diskstreamerRead disk p total = .ok (res, out, pos)) (hg : g (res, out) = pure a)
    {s : KState H} :
    ∃ pos', (diskstreamerSeek stream p >>= k) s = .ok (a, { s with pos := pos' }) := by
  obtain ⟨pos', hs⟩ := seek_read hk h s
  rw [hs, hg]
  exact ⟨pos', rfl⟩

theorem seek_read_error {e : Fault} (h : diskstreamerRead disk p total = .error e)
    (s : KState H) : (diskstreamerSeek stream p >>= k) s = .error e := by
  have hseek : diskstreamerSeek stream p s =
      .ok (0, { s with pos := Function.update s.pos stream p }) := rfl
  have hread : streamRead disk stream total { s with pos := Function.update s.pos stream p } =
      .error e := by
    simp only [streamRead, Function.update_self, h]
  rw [Exec.bind_ok hseek, hk, Exec.bind_error hread]

/-- Seeking and reading settles when what follows does. -/
theorem settles_seek_read {res pos : Int} {out : List U8} {t : Except Fault α}
    (h : diskstreamerRead disk p total = .ok (res, out, pos)) (hg : Settles (g (res, out)) t) :
    Settles (diskstreamerSeek stream p >>= k) t := by
  intro s
  obtain ⟨pos', hs⟩ := seek_read hk h s
  rw [hs]
  exact hg _

end

/-! ### The file allocation table -/

/-- The first cluster of an item. -/
abbrev firstCluster (item : FatDirectoryItem) : Int := (fat16GetFirstCluster item).toInt

/-- The first cluster has 16 bits. -/
theorem firstCluster_range (item : FatDirectoryItem) :
    0 ≤ firstCluster item ∧ firstCluster item < 2 ^ 16 := by
  have h := (item.high16BitsFirstCluster ||| item.low16BitsFirstCluster).isLt
  have h' : firstCluster item =
      ((item.high16BitsFirstCluster ||| item.low16BitsFirstCluster).toNat : Int) := by
    rw [firstCluster, fat16GetFirstCluster, BitVec.toInt_setWidth]
    exact Int.bmod_eq_of_le (by omega) (by omega)
  omega

/-- The position of the FAT entry of a cluster. -/
def fatEntryPos (vol : Volume) (cluster : Int) : Int :=
  vol.header.reservedSectors.toNat * 512 + cluster * 2

/-- The FAT entry of a cluster. -/
def fatEntry (vol : Volume) (cluster : Int) : Int :=
  (le16 (bytesAt vol.disk (fatEntryPos vol cluster) 2) 0).toNat

/-- An entry of the FAT has 16 bits. -/
theorem fatEntry_range (vol : Volume) (cluster : Int) :
    0 ≤ fatEntry vol cluster ∧ fatEntry vol cluster < 2 ^ 16 := by
  have := (le16 (bytesAt vol.disk (fatEntryPos vol cluster) 2) 0).isLt
  simp only [fatEntry]; omega

/-- The entry is read whatever the streams stand at. -/
theorem fat16GetFatEntry_settles (vol : Volume) {cluster : Int} (h₀ : 0 ≤ cluster)
    (h₁ : cluster < 2 ^ 16) :
    Settles (fat16GetFatEntry vol cluster : K H Int) (.ok (fatEntry vol cluster)) := by
  have hpos : (fat16GetFirstFatSector vol * 512 +
      BitVec.ofInt 32 (cluster * peachosFat16FatEntrySize)).toInt = fatEntryPos vol cluster := by
    have hr := vol.header.reservedSectors.isLt
    obtain ⟨n, rfl⟩ := Int.eq_ofNat_of_zero_le h₀
    have hn : (n : Int) * peachosFat16FatEntrySize = ((n * 2 : Nat) : Int) := by
      simp [peachosFat16FatEntrySize]
    rw [hn, BitVec.ofInt_natCast, BitVec.toInt_eq_toNat_of_lt]
    · simp [fat16GetFirstFatSector, fatEntryPos]; omega
    · simp [fat16GetFirstFatSector]; omega
  have hr := vol.header.reservedSectors.isLt
  have hread := diskstreamerRead_spec vol.disk
    (.inl (show 0 ≤ fatEntryPos vol cluster by simp only [fatEntryPos]; omega))
    (by simp only [fatEntryPos]; omega) (by simp only [fatEntryPos]; omega)
    (show (0 : Int) ≤ 2 by decide) (by decide)
  rw [← hpos] at hread
  refine settles_seek_read rfl hread ?_
  rw [hpos]
  exact .pure _

/-- An entry that ends the walk of a chain. -/
def EndsChain (entry : Int) : Prop :=
  entry = 0xFFF8 ∨ entry = 0xFFFF ∨ entry = peachosFat16BadSector ∨ entry = 0xFF0 ∨
    entry = 0xFF6 ∨ entry = peachosFat16Unused

instance (entry : Int) : Decidable (EndsChain entry) := inferInstanceAs (Decidable (_ ∨ _))

/-- The cluster `n` ahead of a cluster, `-EIO` when the chain ends before. -/
def clusterAhead (vol : Volume) : (n : Nat) → (cluster : Int) → Int
  | 0, cluster => cluster
  | n + 1, cluster =>
    if EndsChain (fatEntry vol cluster) then -eio else clusterAhead vol n (fatEntry vol cluster)

/-- The loop settles on the cluster ahead. -/
theorem fat16GetClusterLoop_settles (vol : Volume) (n : Nat) {cluster : Int} (h₀ : 0 ≤ cluster)
    (h₁ : cluster < 2 ^ 16) :
    Settles (fat16GetClusterLoop vol n cluster : K H Int) (.ok (clusterAhead vol n cluster)) := by
  induction n generalizing cluster with
  | zero => exact .pure _
  | succ n ih =>
    refine .bind_ok (fat16GetFatEntry_settles vol h₀ h₁) ?_
    obtain ⟨h₀, h₁⟩ := fatEntry_range vol cluster
    by_cases hend : EndsChain (fatEntry vol cluster)
    · rw [clusterAhead, if_pos hend]
      rcases hend with h | h | h | h | h | h <;> rw [h] <;> exact .pure _
    · rw [clusterAhead, if_neg hend]
      simp only [EndsChain, not_or] at hend
      obtain ⟨h₁', h₂', h₃', h₄', h₅', h₆'⟩ := hend
      simp only [h₁', h₂', h₃', h₄', h₅', h₆', or_self, if_false]
      exact ih h₀ h₁

/-- A chain is followed on the entries of its clusters. -/
theorem fat16GetClusterForOffset_settles (vol : Volume) {cluster : Int} (h₀ : 0 ≤ cluster)
    (h₁ : cluster < 2 ^ 16) (offset : Int) (hC : sizeOfClusterBytes vol ≠ 0) :
    Settles (fat16GetClusterForOffset vol cluster offset : K H Int)
      (.ok (clusterAhead vol (offset.tdiv (sizeOfClusterBytes vol)).toNat cluster)) := by
  rw [fat16GetClusterForOffset, if_neg hC]
  exact fat16GetClusterLoop_settles vol _ h₀ h₁

end

end KernelNES.Fs
