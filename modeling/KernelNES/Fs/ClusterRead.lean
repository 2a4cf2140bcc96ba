import KernelNES.Fs.ClusterChain
import Mathlib.Tactic.Ring

/-!
# Fs — ClusterRead

Reading a file along its chain.  `fat16_read_internal_from_stream` reads in pieces of at most a
cluster's size, each from one position of the disk (`read_settles`).  A piece that starts inside a
cluster ends in the cluster that follows on the disk, which need not be the one that follows in the
chain: the read returns the file's bytes exactly when, for each step of the chain it takes, the
bytes read past the cluster are those the next cluster starts with (`fat16ReadInternal_iff`).
-/

namespace KernelNES.Fs
open KernelNES.Lib KernelNES.Memory

/-- The size of a cluster in bytes. -/
def clusterBytes (vol : Volume) : Nat := vol.header.sectorsPerCluster.toNat * 512

theorem sizeOfClusterBytes_eq (vol : Volume) : sizeOfClusterBytes vol = clusterBytes vol := by
  simp [sizeOfClusterBytes, clusterBytes]

theorem clusterBytes_lt (vol : Volume) : clusterBytes vol < 2 ^ 17 := by
  have := vol.header.sectorsPerCluster.isLt
  simp only [clusterBytes]; omega

/-- The position of a cluster on the disk. -/
def clusterPos (vol : Volume) (cluster : Int) : Int :=
  (vol.rootDirectory.endingSectorPos + (cluster - 2) * vol.header.sectorsPerCluster.toNat) * 512

/-- A cluster starts on a sector. -/
theorem clusterPos_emod (vol : Volume) (cluster : Int) : clusterPos vol cluster % 512 = 0 := by
  simp [clusterPos]

/-- The position `fat16_read_internal_from_stream` seeks to. -/
theorem startingPos_eq (vol : Volume) (cluster offset : Int) :
    wrap32 (fat16ClusterToSector vol cluster * peachosSectorSize + offset) =
      wrap32 (clusterPos vol cluster + offset) := by
  simp only [fat16ClusterToSector, clusterPos, wrap32, peachosSectorSize]
  rw [← Int.bmod_add_bmod, Int.bmod_mul_bmod, Int.bmod_add_bmod]

section
variable {H : Type} {vol : Volume} {stream : StreamId} {cluster : Int}

/-- `fat16_get_cluster_for_offset` uses an offset only to count the clusters before it. -/
theorem getCluster_add (a : Nat) {o : Nat} (ho : o < clusterBytes vol) :
    fat16GetClusterForOffset (H := H) vol cluster ((a * clusterBytes vol + o : Nat) : Int) =
      fat16GetClusterForOffset vol cluster ((a * clusterBytes vol : Nat) : Int) := by
  have h :
      (a * clusterBytes vol + o) / clusterBytes vol = a * clusterBytes vol / clusterBytes vol := by
    rw [Nat.mul_div_cancel _ (by omega), Nat.add_comm, Nat.add_mul_div_right _ _ (by omega),
      Nat.div_eq_of_lt ho, Nat.zero_add]
  simp only [fat16GetClusterForOffset, sizeOfClusterBytes_eq, tdiv_natCast, h]

/-- A round that finds the chain at its end. -/
theorem readRound_ended {offset total c : Int}
    (hc : Settles (fat16GetClusterForOffset (H := H) vol cluster offset) (.ok c)) (hneg : c < 0) :
    Settles (fat16ReadInternalFromStream (H := H) vol stream cluster offset total)
      (.ok (c, [])) := by
  rw [fat16ReadInternalFromStream]
  refine .bind_ok hc ?_
  rw [if_pos hneg]
  exact .pure _

section
variable {offset total : Nat} {c : Int} (hC : 0 < clusterBytes vol)
  (hc : Settles (fat16GetClusterForOffset (H := H) vol cluster offset) (.ok c)) (hc₀ : 0 ≤ c)
  (hsound : Sound (wrap32 (clusterPos vol c + (offset % clusterBytes vol : Nat))))
include hC hc hc₀ hsound

/-- The last round reads what is left. -/
theorem readRound_last (h : total ≤ clusterBytes vol) :
    Settles (fat16ReadInternalFromStream (H := H) vol stream cluster offset total)
      (.ok (0, bytesAt vol.disk (clusterPos vol c + (offset % clusterBytes vol : Nat)) total)) := by
  have hlt := clusterBytes_lt vol
  have hread := diskstreamerRead_spec vol.disk hsound (le_wrap32 _) (wrap32_lt _)
    (show (0 : Int) ≤ total by omega) (by omega)
  rw [bytesAt_wrap32, Int.toNat_natCast] at hread
  rw [fat16ReadInternalFromStream]
  refine .bind_ok hc ?_
  rw [if_neg (by omega), dif_neg (by rw [sizeOfClusterBytes_eq]; omega)]
  simp only [sizeOfClusterBytes_eq, tmod_natCast, startingPos_eq,
    if_neg (show ¬ (total : Int) > clusterBytes vol by omega)]
  refine settles_seek_read rfl hread ?_
  simp only [ne_eq, not_true_eq_false, if_false, Int.sub_self, gt_iff_lt, lt_irrefl, dite_false]
  exact .pure _

/-- Another round reads a cluster's size, and the read goes on after it. -/
theorem readRound_more (h : clusterBytes vol < total) (hint : offset + total ≤ 2 ^ 31)
    {res : Int} {rest : List U8}
    (hrest : Settles (fat16ReadInternalFromStream (H := H) vol stream cluster
      ((offset + clusterBytes vol : Nat) : Int) ((total - clusterBytes vol : Nat) : Int))
      (.ok (res, rest))) :
    Settles (fat16ReadInternalFromStream (H := H) vol stream cluster offset total)
      (.ok (res, bytesAt vol.disk (clusterPos vol c + (offset % clusterBytes vol : Nat))
        (clusterBytes vol) ++ rest)) := by
  have hlt := clusterBytes_lt vol
  have hread := diskstreamerRead_spec vol.disk hsound (le_wrap32 _) (wrap32_lt _)
    (show (0 : Int) ≤ clusterBytes vol by omega) (by omega)
  rw [bytesAt_wrap32, Int.toNat_natCast] at hread
  have hoffset : wrap32 ((offset : Int) + clusterBytes vol) =
      ((offset + clusterBytes vol : Nat) : Int) := by
    rw [wrap32_of_nonneg (by omega) (by omega)]; omega
  have htotal : (total : Int) - clusterBytes vol = ((total - clusterBytes vol : Nat) : Int) := by
    omega
  rw [fat16ReadInternalFromStream]
  refine .bind_ok hc ?_
  rw [if_neg (by omega), dif_neg (by rw [sizeOfClusterBytes_eq]; omega)]
  simp only [sizeOfClusterBytes_eq, tmod_natCast, startingPos_eq,
    if_pos (show (total : Int) > clusterBytes vol by omega)]
  refine settles_seek_read rfl hread ?_
  simp only [ne_eq, not_true_eq_false, if_false]
  rw [dif_pos (by omega), hoffset, htotal]
  exact .bind_ok hrest (.pure _)

end

/-- The `n` bytes that are read in pieces of a cluster's size, the `j`-th piece from offset `o` in
the cluster `c j` on. -/
def readBytes (vol : Volume) (c : Nat → Int) (o n : Nat) : List U8 :=
  (List.range n).map fun t =>
    byteAt vol.disk (clusterPos vol (c (t / clusterBytes vol)) + (o + t % clusterBytes vol : Nat))

/-- What fits in the first cluster comes from it. -/
theorem readBytes_of_le (vol : Volume) (c : Nat → Int) (o : Nat) {n : Nat}
    (h : n ≤ clusterBytes vol) :
    readBytes vol c o n = bytesAt vol.disk (clusterPos vol (c 0) + o) n := by
  refine List.map_congr_left fun t ht => ?_
  have ht := List.mem_range.mp ht
  rw [Nat.div_eq_of_lt (by omega), Nat.mod_eq_of_lt (by omega)]
  congr 1; omega

/-- The first cluster, and what follows it. -/
theorem readBytes_add (vol : Volume) (hC : 0 < clusterBytes vol) (c : Nat → Int) (o n : Nat) :
    readBytes vol c o (clusterBytes vol + n) =
      bytesAt vol.disk (clusterPos vol (c 0) + o) (clusterBytes vol) ++
        readBytes vol (fun j => c (j + 1)) o n := by
  rw [← readBytes_of_le vol c o le_rfl]
  simp only [readBytes, List.range_add, List.map_append, List.map_map]
  congr 1
  refine List.map_congr_left fun t _ => ?_
  simp only [Function.comp_apply]
  rw [Nat.add_div_left _ hC, Nat.add_mod_left]

/-- **A read in pieces**: the piece that starts in the `j`-th cluster of the chain is read from the
position of that cluster on. -/
theorem read_settles (hC : 0 < clusterBytes vol) {c : Nat → Int} {o : Nat}
    (ho : o < clusterBytes vol) {a total : Nat}
    (hc : ∀ j, j = 0 ∨ j * clusterBytes vol < total →
      Settles (fat16GetClusterForOffset (H := H) vol cluster
        (((a + j) * clusterBytes vol : Nat) : Int)) (.ok (c (a + j))) ∧ 0 ≤ c (a + j) ∧
        Sound (wrap32 (clusterPos vol (c (a + j)) + o)))
    (hint : a * clusterBytes vol + o + total ≤ 2 ^ 31) :
    Settles (fat16ReadInternalFromStream (H := H) vol stream cluster
      ((a * clusterBytes vol + o : Nat) : Int) total)
      (.ok (0, readBytes vol (fun j => c (a + j)) o total)) := by
  -- a round reads up to a whole cluster, and the next one is at the same offset of cluster `a + 1`
  induction total using Nat.strong_induction_on generalizing a with
  | _ total ih =>
    have hmod : (a * clusterBytes vol + o) % clusterBytes vol = o := by
      rw [Nat.add_comm, Nat.add_mul_mod_self_right, Nat.mod_eq_of_lt ho]
    obtain ⟨hget, hc₀, hsound⟩ := hc 0 (.inl rfl)
    rw [Nat.add_zero, ← getCluster_add a ho] at hget
    rw [← hmod] at hsound
    rcases Nat.lt_or_ge (clusterBytes vol) total with h | h
    · obtain ⟨rest, rfl⟩ := Nat.exists_eq_add_of_le h.le
      have hnext : a * clusterBytes vol + o + clusterBytes vol =
          (a + 1) * clusterBytes vol + o := by
        rw [Nat.add_mul, Nat.one_mul]; omega
      have hrest := ih rest (by omega) (a := a + 1) (fun j hj => by
        have := hc (1 + j) (.inr (by
          rw [Nat.add_mul, Nat.one_mul]
          rcases hj with rfl | hj <;> omega))
        rwa [← Nat.add_assoc] at this) (by omega)
      rw [← hnext] at hrest
      have hread := readRound_more hC hget hc₀ hsound h (by omega)
        (by rw [Nat.add_sub_cancel_left]; exact hrest)
      rw [hmod] at hread
      rw [readBytes_add vol hC]
      simpa only [Nat.add_zero, Nat.add_assoc, Nat.add_comm 1] using hread
    · rw [readBytes_of_le vol _ _ h]
      simpa only [hmod, Nat.add_zero] using readRound_last hC hget hc₀ hsound h

end

/-! ### A file along its chain -/

/-- `c 0`, …, `c k` is a chain of data clusters that `fat16_get_cluster_for_offset` follows and
whose bytes have positions that are `int`s. -/
structure Chain (H : Type) (vol : Volume) (c : Nat → Int) (k : Nat) : Prop where
  follows : ∀ i ≤ k, Settles (fat16GetClusterForOffset (H := H) vol (c 0)
    ((i * clusterBytes vol : Nat) : Int)) (.ok (c i))
  data : ∀ i ≤ k, 2 ≤ c i
  fits : ∀ i ≤ k, 0 ≤ clusterPos vol (c i) ∧ clusterPos vol (c i) + clusterBytes vol ≤ 2 ^ 31

/-- The concatenation of the clusters `c 0`, …, `c k`. -/
def chainContents (vol : Volume) (c : Nat → Int) (k : Nat) : List U8 :=
  (List.range (k + 1)).flatMap fun i => bytesAt vol.disk (clusterPos vol (c i)) (clusterBytes vol)

/-- The byte at offset `p` of a file. -/
def fileByte (vol : Volume) (c : Nat → Int) (p : Nat) : U8 :=
  byteAt vol.disk (clusterPos vol (c (p / clusterBytes vol)) + (p % clusterBytes vol : Nat))

/-- A byte of the file, by its cluster. -/
theorem fileByte_mul_add (vol : Volume) (c : Nat → Int) (i : Nat) {u : Nat}
    (hu : u < clusterBytes vol) :
    fileByte vol c (i * clusterBytes vol + u) = byteAt vol.disk (clusterPos vol (c i) + u) := by
  rw [fileByte, Nat.add_comm, Nat.add_mul_div_right _ _ (by omega), Nat.div_eq_of_lt hu,
    Nat.zero_add, Nat.add_mul_mod_self_right, Nat.mod_eq_of_lt hu]

/-- The bytes of the chain, one by one. -/
theorem chainContents_eq (vol : Volume) (c : Nat → Int) (k : Nat) :
    chainContents vol c k = (List.range ((k + 1) * clusterBytes vol)).map (fileByte vol c) := by
  have hcluster : ∀ i, bytesAt vol.disk (clusterPos vol (c i)) (clusterBytes vol) =
      (List.range (clusterBytes vol)).map fun u => fileByte vol c (i * clusterBytes vol + u) := by
    intro i
    exact List.map_congr_left fun u hu => (fileByte_mul_add vol c i (List.mem_range.mp hu)).symm
  induction k with
  | zero => simpa [chainContents] using hcluster 0
  | succ k ih =>
    rw [chainContents, List.range_succ, List.flatMap_append, ← chainContents, ih,
      Nat.add_mul (k + 1), Nat.one_mul, List.range_add, List.map_append, List.map_map]
    simp only [List.flatMap_cons, List.flatMap_nil, List.append_nil, hcluster]
    rfl

/-- A part of a file, byte by byte. -/
theorem chainContents_slice (vol : Volume) (c : Nat → Int) {k : Nat}
    {offset total : Nat} (h : offset + total ≤ (k + 1) * clusterBytes vol) :
    ((chainContents vol c k).drop offset).take total =
      (List.range total).map fun t => fileByte vol c (offset + t) := by
  rw [chainContents_eq, map_range_slice _ h]

/-- Where a read of `total` bytes from `offset` passes the end of the cluster `c i`, the disk goes
on as the cluster `c (i + 1)` starts. -/
def Adjoins (vol : Volume) (c : Nat → Int) (offset total : Nat) : Prop :=
  ∀ i u, offset / clusterBytes vol ≤ i → u < offset % clusterBytes vol →
    (i + 1) * clusterBytes vol + u < offset + total →
    byteAt vol.disk (clusterPos vol (c i) + (clusterBytes vol + u : Nat)) =
      byteAt vol.disk (clusterPos vol (c (i + 1)) + u)

/-- A read from the start of a cluster passes the end of none. -/
theorem adjoins_of_aligned {vol : Volume} {c : Nat → Int} {offset total : Nat}
    (h : offset % clusterBytes vol = 0) : Adjoins vol c offset total := by
  intro i u _ hu _
  omega

/-- Reading in pieces gives the bytes of the file exactly when the clusters read adjoin. -/
theorem readBytes_eq_iff (vol : Volume) (hC : 0 < clusterBytes vol) (c : Nat → Int)
    (offset total : Nat) :
    readBytes vol (fun j => c (offset / clusterBytes vol + j)) (offset % clusterBytes vol) total =
        (List.range total).map (fun t => fileByte vol c (offset + t)) ↔
      Adjoins vol c offset total := by
  have hoffset := Nat.div_add_mod' offset (clusterBytes vol)
  have ho := Nat.mod_lt offset hC
  rw [readBytes, List.map_inj_left]
  constructor
  · intro h i u hi hu hlt
    -- the byte `u` past the end of `c i` is the byte `t` of the read
    obtain ⟨j, rfl⟩ := Nat.exists_eq_add_of_le hi
    have hmul : (offset / clusterBytes vol + j + 1) * clusterBytes vol =
        offset / clusterBytes vol * clusterBytes vol + j * clusterBytes vol + clusterBytes vol := by
      ring
    have hx : clusterBytes vol - offset % clusterBytes vol + u < clusterBytes vol := by omega
    have ht := h (j * clusterBytes vol + (clusterBytes vol - offset % clusterBytes vol + u))
      (List.mem_range.mpr (by omega))
    have hsum : offset + (j * clusterBytes vol +
        (clusterBytes vol - offset % clusterBytes vol + u)) =
        (offset / clusterBytes vol + j + 1) * clusterBytes vol + u := by omega
    rw [hsum, fileByte_mul_add vol c _ (by omega), Nat.add_comm (j * _),
      Nat.add_mul_div_right _ _ hC, Nat.div_eq_of_lt hx, Nat.zero_add, Nat.add_mul_mod_self_right,
      Nat.mod_eq_of_lt hx] at ht
    rw [← ht]
    congr 2
    omega
  · intro h t ht
    have ht := List.mem_range.mp ht
    have htdiv := Nat.div_add_mod' t (clusterBytes vol)
    have hr := Nat.mod_lt t hC
    have hmul : (offset / clusterBytes vol + t / clusterBytes vol) * clusterBytes vol =
        offset / clusterBytes vol * clusterBytes vol + t / clusterBytes vol * clusterBytes vol := by
      ring
    rcases Nat.lt_or_ge (offset % clusterBytes vol + t % clusterBytes vol) (clusterBytes vol)
      with hin | hout
    · have hsum : offset + t = (offset / clusterBytes vol + t / clusterBytes vol) *
          clusterBytes vol + (offset % clusterBytes vol + t % clusterBytes vol) := by omega
      rw [hsum, fileByte_mul_add vol c _ hin]
    · obtain ⟨u, hu⟩ := Nat.exists_eq_add_of_le hout
      have hmul' : (offset / clusterBytes vol + t / clusterBytes vol + 1) * clusterBytes vol =
          (offset / clusterBytes vol + t / clusterBytes vol) * clusterBytes vol +
            clusterBytes vol := by ring
      have hsum : offset + t =
          (offset / clusterBytes vol + t / clusterBytes vol + 1) * clusterBytes vol + u := by omega
      rw [hu, hsum, fileByte_mul_add vol c _ (by omega)]
      exact h _ u (Nat.le_add_right _ _) (by omega) (by omega)

/-! ### `fat16_read_internal` -/

/-- The read returns `0` and fills `out` with the bytes `offset`, …, `offset + total - 1` of the
file. -/
def ReadsFile {H : Type} (vol : Volume) (c : Nat → Int) (k : Nat) (offset total : Int)
    (s : KState H) : Prop :=
  ∃ s', fat16ReadInternal vol (c 0) offset total s =
    .ok ((0, ((chainContents vol c k).drop offset.toNat).take total.toNat), s')

/-- A read inside the chain answers its bytes, from every state. -/
theorem fat16ReadInternal_settles {H : Type} {vol : Volume} {c : Nat → Int} {k : Nat}
    (hC : 0 < clusterBytes vol) (hc : Chain H vol c k) {offset total : Nat} (htotal : 0 < total)
    (hend : offset + total ≤ (k + 1) * clusterBytes vol) (hint : offset + total ≤ 2 ^ 31) :
    Settles (fat16ReadInternal (H := H) vol (c 0) offset total)
      (.ok (0, readBytes vol (fun j => c (offset / clusterBytes vol + j))
        (offset % clusterBytes vol) total)) := by
  have hoffset := Nat.div_add_mod' offset (clusterBytes vol)
  have ho := Nat.mod_lt offset hC
  rw [fat16ReadInternal]
  nth_rewrite 1 [← hoffset]
  refine read_settles hC ho (fun j hj => ?_) (by omega)
  have hmul : (offset / clusterBytes vol + j) * clusterBytes vol =
      offset / clusterBytes vol * clusterBytes vol + j * clusterBytes vol := by ring
  have hlt : (offset / clusterBytes vol + j) * clusterBytes vol < (k + 1) * clusterBytes vol := by
    rcases hj with rfl | hj <;> omega
  have hj : offset / clusterBytes vol + j ≤ k :=
    Nat.lt_succ_iff.mp (Nat.lt_of_mul_lt_mul_right hlt)
  obtain ⟨h₁, h₂⟩ := hc.fits _ hj
  refine ⟨hc.follows _ hj, by have := hc.data _ hj; omega, .inl ?_⟩
  rw [wrap32_of_nonneg (by omega) (by omega)]
  omega

/-- **A read returns the bytes of the file exactly when the clusters it reads adjoin.** -/
theorem fat16ReadInternal_iff {H : Type} (vol : Volume) (hspc : 1 ≤ vol.header.sectorsPerCluster)
    (c : Nat → Int) (k : Nat) (hc : Chain H vol c k) (offset total : Int) (hoffset : 0 ≤ offset)
    (htotal : 1 ≤ total) (hend : offset + total ≤ (k + 1) * clusterBytes vol)
    (hint : offset + total ≤ 2 ^ 31) (s : KState H) :
    ReadsFile vol c k offset total s ↔ Adjoins vol c offset.toNat total.toNat := by
  have hC : 0 < clusterBytes vol := by
    have : 1 ≤ vol.header.sectorsPerCluster.toNat := hspc
    simp only [clusterBytes]; omega
  obtain ⟨offset, rfl⟩ := Int.eq_ofNat_of_zero_le hoffset
  obtain ⟨total, rfl⟩ := Int.eq_ofNat_of_zero_le (show 0 ≤ total by omega)
  have hend : offset + total ≤ (k + 1) * clusterBytes vol := by exact_mod_cast hend
  obtain ⟨s', hs'⟩ := (fat16ReadInternal_settles hC hc (by omega) hend (by omega)).ok s
  simp only [ReadsFile, Int.toNat_natCast]
  rw [← readBytes_eq_iff vol hC, ← chainContents_slice vol c hend]
  constructor
  · rintro ⟨s'', hs''⟩
    rw [hs'] at hs''
    injection hs'' with hs''
    exact (Prod.mk.inj (Prod.mk.inj hs'').1).2
  · intro h
    exact ⟨s', by rw [hs', h]⟩

/-! ### A file in two clusters that are not neighbours -/

/-- A disk with one sector in each cluster.  Its FAT, in sector 1, chains cluster 2 to cluster 4;
the bytes of the other sectors are their numbers. -/
def fragmentedVolume : Volume where
  disk := ⟨fun lba i =>
    if lba = 1 then if i = 4 then 4 else if i = 8 ∨ i = 9 then 0xFF else 0 else lba.setWidth 8⟩
  header :=
    { sectorsPerCluster := 1, reservedSectors := 1, fatCopies := 2, rootDirEntries := 16,
      sectorsPerFat := 1 }
  rootDirectory := { item := .null, total := 0, sectorPos := 3, endingSectorPos := 4 }

/-- The clusters of the file that starts in cluster 2. -/
def fragmentedFile (i : Nat) : Int := if i = 0 then 2 else 4

theorem fragmentedFile_chain : Chain Unit fragmentedVolume fragmentedFile 1 where
  follows := by
    intro i hi
    have h := fat16GetClusterForOffset_settles (H := Unit) fragmentedVolume
      (show (0 : Int) ≤ fragmentedFile 0 by decide) (by decide)
      ((i * clusterBytes fragmentedVolume : Nat) : Int) (by decide)
    rcases (show i = 0 ∨ i = 1 by omega) with rfl | rfl
    · exact h
    · have hahead : clusterAhead fragmentedVolume
          (((1 * clusterBytes fragmentedVolume : Nat) : Int).tdiv
            (sizeOfClusterBytes fragmentedVolume)).toNat (fragmentedFile 0) =
          fragmentedFile 1 := by decide +kernel
      rwa [hahead] at h
  data := by
    intro i hi
    rcases (show i = 0 ∨ i = 1 by omega) with rfl | rfl <;> decide
  fits := by
    intro i hi
    rcases (show i = 0 ∨ i = 1 by omega) with rfl | rfl <;> decide

/-- The whole file is read as it is. -/
theorem fat16ReadInternal_fragmentedFile :
    ReadsFile fragmentedVolume fragmentedFile 1 0 1024 (⟨(), fun _ => 0⟩ : KState Unit) :=
  (fat16ReadInternal_iff fragmentedVolume (by decide) fragmentedFile 1 fragmentedFile_chain 0 1024
    (by decide) (by decide) (by decide) (by decide) _).mpr (adjoins_of_aligned (by decide))

/-- **A read from the middle of cluster 2 goes on in cluster 3**, where the file is not. -/
theorem read_leaves_chain :
    1 ≤ fragmentedVolume.header.sectorsPerCluster ∧
      Chain Unit fragmentedVolume fragmentedFile 1 ∧
      (16 : Int) + 512 ≤ (1 + 1) * clusterBytes fragmentedVolume ∧
      ¬ ReadsFile fragmentedVolume fragmentedFile 1 16 512 (⟨(), fun _ => 0⟩ : KState Unit) := by
  refine ⟨by decide, fragmentedFile_chain, by decide, fun ⟨s', h⟩ => ?_⟩
  obtain ⟨s'', h'⟩ := (fat16ReadInternal_settles (by decide) fragmentedFile_chain
    (show 0 < 512 by decide) (show 16 + 512 ≤ _ by decide) (by decide)).ok ⟨(), fun _ => 0⟩
  have hbytes := (Prod.mk.inj (Prod.mk.inj (Except.ok.inj (h'.symm.trans h))).1).2
  have hslice := hbytes.trans (chainContents_slice _ _ (show 16 + 512 ≤ _ by decide))
  have hadjoins := (readBytes_eq_iff _ (by decide) _ _ _).mp hslice
  exact absurd (hadjoins 0 0 (by decide) (by decide) (by decide)) (by decide +kernel)

end KernelNES.Fs
