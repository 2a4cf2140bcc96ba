import KernelNES.Fs.ClusterChain
import KernelNES.Lib.Logged
import Mathlib.Logic.Function.Iterate

/-!
# Fs — ChainLinks

Which chains `fat16_get_cluster_for_offset` follows.  The entries it refuses are six constants, some
of them a digit short: three data clusters are refused (`chain_followed_iff`), and most of the
entries that mark no cluster are followed (`stops_at_broken_iff`).  The FAT entries looked up are
logged.
-/

namespace KernelNES.Fs
open KernelNES.Lib KernelNES.Memory

/-! ### Links -/

/-- What the chain from a cluster comes to after `i` links. -/
def link (vol : Volume) (cluster : Int) (i : Nat) : Int := (fatEntry vol)^[i] cluster

@[simp] theorem link_zero (vol : Volume) (cluster : Int) : link vol cluster 0 = cluster := rfl

theorem link_succ (vol : Volume) (cluster : Int) (i : Nat) :
    link vol cluster (i + 1) = link vol (fatEntry vol cluster) i := rfl

theorem link_succ' (vol : Volume) (cluster : Int) (i : Nat) :
    link vol cluster (i + 1) = fatEntry vol (link vol cluster i) :=
  Function.iterate_succ_apply' ..

/-- No link is refused: the chain is followed to the end. -/
theorem clusterAhead_eq_link (vol : Volume) {n : Nat} {cluster : Int}
    (h : ∀ i < n, ¬ EndsChain (link vol cluster (i + 1))) :
    clusterAhead vol n cluster = link vol cluster n := by
  induction n generalizing cluster with
  | zero => rfl
  | succ n ih =>
    have hfirst : ¬ EndsChain (fatEntry vol cluster) := h 0 n.succ_pos
    rw [clusterAhead, if_neg hfirst, link_succ]
    exact ih fun i hi => h (i + 1) (by omega)

/-- One of the links is refused. -/
theorem clusterAhead_eq_eio (vol : Volume) {n i : Nat} {cluster : Int} (hi : i < n)
    (h : EndsChain (link vol cluster (i + 1))) : clusterAhead vol n cluster = -eio := by
  induction n generalizing cluster i with
  | zero => omega
  | succ n ih =>
    rw [clusterAhead]
    split
    · rfl
    · rename_i hfirst
      cases i with
      | zero => exact absurd h hfirst
      | succ i => rw [link_succ] at h; exact ih (Nat.lt_of_succ_lt_succ hi) h

/-- The clusters whose entries are looked up on the way to the cluster `n` ahead. -/
def lookups (vol : Volume) : (n : Nat) → (cluster : Int) → List Int
  | 0, _ => []
  | n + 1, cluster =>
    cluster :: if EndsChain (fatEntry vol cluster) then [] else lookups vol n (fatEntry vol cluster)

/-- The clusters looked up are those before the chain ends. -/
theorem mem_lookups (vol : Volume) {n : Nat} {cluster c : Int} :
    c ∈ lookups vol n cluster ↔
      ∃ i < n, c = link vol cluster i ∧ ∀ t < i, ¬ EndsChain (link vol cluster (t + 1)) := by
  induction n generalizing cluster with
  | zero => simp [lookups]
  | succ n ih =>
    rw [lookups, List.mem_cons]
    constructor
    · rintro (rfl | hc)
      · exact ⟨0, n.succ_pos, rfl, by simp⟩
      · split at hc
        · cases hc
        · rename_i hfirst
          obtain ⟨i, hi, rfl, hbefore⟩ := ih.mp hc
          refine ⟨i + 1, by omega, rfl, fun t ht => ?_⟩
          cases t with
          | zero => exact hfirst
          | succ t => exact hbefore t (by omega)
    · rintro ⟨i, hi, rfl, hbefore⟩
      cases i with
      | zero => exact .inl rfl
      | succ i =>
        have hfirst : ¬ EndsChain (fatEntry vol cluster) := hbefore 0 i.succ_pos
        rw [if_neg hfirst]
        exact .inr (ih.mpr ⟨i, by omega, rfl, fun t ht => hbefore (t + 1) (by omega)⟩)

/-! ### The lookups of `fat16_get_cluster_for_offset` -/

section
variable {H : Type}

/-- `fat16_get_fat_entry`, logging the cluster it is passed. -/
def fat16GetFatEntryLogged (vol : Volume) (cluster : Int) : Logged Int (K H) Int := do
  note cluster
  unlogged (fat16GetFatEntry vol cluster)

/-- The loop of `fat16_get_cluster_for_offset`, logging its lookups. -/
def fat16GetClusterLoopLogged (vol : Volume) :
    (n : Nat) → (clusterToUse : Int) → Logged Int (K H) Int
  | 0, clusterToUse => pure clusterToUse
  | n + 1, clusterToUse => do
    let entry ← fat16GetFatEntryLogged vol clusterToUse
    if entry = 0xFFF8 ∨ entry = 0xFFFF then pure (-eio)
    else if entry = peachosFat16BadSector then pure (-eio)
    else if entry = 0xFF0 ∨ entry = 0xFF6 then pure (-eio)
    else if entry = peachosFat16Unused then pure (-eio)
    else fat16GetClusterLoopLogged vol n entry

/-- `fat16_get_cluster_for_offset`, logging its lookups. -/
def fat16GetClusterForOffsetLogged (vol : Volume) (startingCluster offset : Int) :
    Logged Int (K H) Int :=
  if sizeOfClusterBytes vol = 0 then unlogged (Exec.fault .divisionByZero)
  else fat16GetClusterLoopLogged vol (offset.tdiv (sizeOfClusterBytes vol)).toNat startingCluster

/-- Without its log, the loop is the code's. -/
theorem fat16GetClusterLoopLogged_erases (vol : Volume) (n : Nat) (cluster : Int) :
    Erases (fat16GetClusterLoopLogged vol n cluster)
      (fat16GetClusterLoop vol n cluster : K H Int) := by
  induction n generalizing cluster with
  | zero => exact .pure _
  | succ n ih =>
    refine .bind (.note_bind _ (.unlogged _)) fun entry => ?_
    exact .ite (.pure _) (.ite (.pure _) (.ite (.pure _) (.ite (.pure _) (ih _))))

/-- Without the log it is `fat16_get_cluster_for_offset`. -/
theorem fat16GetClusterForOffsetLogged_erases (vol : Volume) (startingCluster offset : Int) :
    Erases (fat16GetClusterForOffsetLogged vol startingCluster offset)
      (fat16GetClusterForOffset vol startingCluster offset : K H Int) :=
  .ite (.unlogged _) (fat16GetClusterLoopLogged_erases vol _ _)

/-- The loop answers the cluster ahead, and logs what it looks up. -/
theorem fat16GetClusterLoopLogged_settles (vol : Volume) (n : Nat) {cluster : Int}
    (h₀ : 0 ≤ cluster) (h₁ : cluster < 2 ^ 16) (log : List Int) :
    Settles (fat16GetClusterLoopLogged vol n cluster log : K H _)
      (.ok (clusterAhead vol n cluster, log ++ lookups vol n cluster)) := by
  induction n generalizing cluster log with
  | zero => rw [lookups, List.append_nil]; exact .pure _
  | succ n ih =>
    rw [fat16GetClusterLoopLogged, fat16GetFatEntryLogged]
    simp only [bind_assoc]
    rw [note_bind_run, unlogged_bind_run]
    refine .bind_ok (fat16GetFatEntry_settles vol h₀ h₁) ?_
    obtain ⟨h₀, h₁⟩ := fatEntry_range vol cluster
    rw [clusterAhead, lookups]
    by_cases hend : EndsChain (fatEntry vol cluster)
    · rw [if_pos hend, if_pos hend]
      rcases hend with h | h | h | h | h | h <;> rw [h] <;> exact .pure _
    · rw [if_neg hend, if_neg hend]
      simp only [EndsChain, not_or] at hend
      obtain ⟨h₁', h₂', h₃', h₄', h₅', h₆'⟩ := hend
      simp only [h₁', h₂', h₃', h₄', h₅', h₆', or_self, if_false]
      have hrest := ih h₀ h₁ (log ++ [cluster])
      rwa [List.append_assoc, List.singleton_append] at hrest

/-- An offset is as many links as it has clusters. -/
theorem fat16GetClusterForOffsetLogged_settles (vol : Volume) {cluster : Int} (h₀ : 0 ≤ cluster)
    (h₁ : cluster < 2 ^ 16) {offset : Int} (hoffset : 0 ≤ offset)
    (hC : sizeOfClusterBytes vol ≠ 0) :
    Settles (fat16GetClusterForOffsetLogged vol cluster offset [] : K H _)
      (.ok (clusterAhead vol (offset / sizeOfClusterBytes vol).toNat cluster,
        lookups vol (offset / sizeOfClusterBytes vol).toNat cluster)) := by
  rw [fat16GetClusterForOffsetLogged, if_neg hC, Int.tdiv_eq_ediv_of_nonneg hoffset]
  exact fat16GetClusterLoopLogged_settles vol _ h₀ h₁ []

/-! ### Valid chains -/

/-- The number of a data cluster. -/
def DataCluster (cluster : Int) : Prop := 2 ≤ cluster ∧ cluster ≤ 0xFFEF

instance (cluster : Int) : Decidable (DataCluster cluster) := inferInstanceAs (Decidable (_ ∧ _))

/-- The FAT links the data clusters `c 0` to `c k`. -/
structure LinkedChain (vol : Volume) (c : Nat → Int) (k : Nat) : Prop where
  data : ∀ i ≤ k, DataCluster (c i)
  linked : ∀ i < k, fatEntry vol (c i) = c (i + 1)

/-- A chain that is linked is followed. -/
theorem LinkedChain.link_eq {vol : Volume} {c : Nat → Int} {k : Nat} (h : LinkedChain vol c k)
    {i : Nat} (hi : i ≤ k) : link vol (c 0) i = c i := by
  induction i with
  | zero => rfl
  | succ i ih => rw [link_succ', ih (by omega), h.linked i hi]

theorem neg_eio_lt : -eio < 0 := by decide

/-- The data clusters the driver takes for bad or reserved. -/
theorem endsChain_iff_of_data {cluster : Int} (h : DataCluster cluster) :
    EndsChain cluster ↔ cluster = 0xFF0 ∨ cluster = 0xFF6 ∨ cluster = 0xFF7 := by
  simp only [EndsChain, DataCluster, peachosFat16BadSector, peachosFat16Unused] at *
  omega

/-- **A valid chain is followed to the cluster of an offset exactly when none of the clusters it
links up to there is `0xFF0`, `0xFF6` or `0xFF7`.** -/
theorem chain_followed_iff {vol : Volume} (hC : 0 < sizeOfClusterBytes vol) {c : Nat → Int}
    {k : Nat} (hchain : LinkedChain vol c k) {offset : Int} (h₀ : 0 ≤ offset)
    (h₁ : offset < (k + 1) * sizeOfClusterBytes vol) (s : KState H) :
    (∃ s', fat16GetClusterForOffset vol (c 0) offset s =
        .ok (c (offset / sizeOfClusterBytes vol).toNat, s')) ↔
      ∀ i, 1 ≤ i → i ≤ (offset / sizeOfClusterBytes vol).toNat →
        c i ≠ 0xFF0 ∧ c i ≠ 0xFF6 ∧ c i ≠ 0xFF7 := by
  have hn : (offset / sizeOfClusterBytes vol).toNat ≤ k := by
    have := Int.ediv_lt_of_lt_mul hC h₁
    omega
  have hends : ∀ i ≤ k, EndsChain (c i) ↔ c i = 0xFF0 ∨ c i = 0xFF6 ∨ c i = 0xFF7 :=
    fun i hi => endsChain_iff_of_data (hchain.data i hi)
  have hstart := hchain.data 0 k.zero_le
  simp only [DataCluster] at hstart
  obtain ⟨s₁, hrun⟩ := (fat16GetClusterForOffset_settles vol (show 0 ≤ c 0 by omega)
    (by omega) offset (by omega)).ok s
  rw [Int.tdiv_eq_ediv_of_nonneg h₀] at hrun
  generalize (offset / sizeOfClusterBytes vol).toNat = n at hn hrun ⊢
  constructor
  · rintro ⟨s₂, hres⟩ i hi hin
    obtain ⟨i, rfl⟩ := Nat.exists_eq_add_of_le' hi
    have hres := (Prod.mk.inj (Except.ok.inj (hrun.symm.trans hres))).1
    by_contra hrefused
    have hend : EndsChain (link vol (c 0) (i + 1)) := by
      rw [hchain.link_eq (by omega)]
      exact (hends _ (by omega)).mpr (by tauto)
    rw [clusterAhead_eq_eio vol hin hend] at hres
    have hdata := hchain.data n hn
    have := neg_eio_lt
    simp only [DataCluster] at hdata
    omega
  · intro hgood
    refine ⟨s₁, ?_⟩
    rw [hrun, clusterAhead_eq_link vol fun i hi => ?_, hchain.link_eq hn]
    rw [hchain.link_eq (by omega), hends _ (by omega)]
    have := hgood (i + 1) (by omega) hi
    tauto

/-- A volume with one sector in a cluster, whose FAT has one entry, that of cluster 2. -/
def oneLinkVolume (entry : U16) : Volume where
  disk := { sector := fun lba i =>
    if lba = 1 ∧ i = 4 then entry.setWidth 8
    else if lba = 1 ∧ i = 5 then (entry >>> 8).setWidth 8
    else 0 }
  header := { sectorsPerCluster := 1, reservedSectors := 1, fatCopies := 1, rootDirEntries := 0,
              sectorsPerFat := 1 }
  rootDirectory := { item := .null, total := 0, sectorPos := 2, endingSectorPos := 2 }

theorem oneLinkVolume_chain (entry : U16) (h : DataCluster entry.toNat)
    (hlink : fatEntry (oneLinkVolume entry) 2 = entry.toNat) :
    LinkedChain (oneLinkVolume entry) (fun i => if i = 0 then 2 else entry.toNat) 1 where
  data i _ := by
    split
    · decide
    · exact h
  linked i hi := by
    obtain rfl : i = 0 := by omega
    exact hlink

/-- The second cluster of the chain 2, 3. -/
theorem chain_followed_second :
    ∃ s', fat16GetClusterForOffset (oneLinkVolume 3) 2 512 (⟨(), fun _ => 0⟩ : KState Unit) =
      .ok (3, s') := by
  have hn : (512 / sizeOfClusterBytes (oneLinkVolume 3)).toNat = 1 := by decide
  have h := chain_followed_iff (by decide)
    (oneLinkVolume_chain 3 (by decide) (by decide)) (show (0 : Int) ≤ 512 by decide) (by decide)
    (⟨(), fun _ => 0⟩ : KState Unit)
  rw [hn] at h
  refine h.mpr fun i hi hin => ?_
  obtain rfl : i = 1 := Nat.le_antisymm hin hi
  decide

/-- **The valid chain 2, `0xFF0` is not followed.** -/
theorem valid_chain_refused :
    LinkedChain (oneLinkVolume 0xFF0) (fun i => if i = 0 then 2 else 0xFF0) 1 ∧
      512 < (1 + 1) * sizeOfClusterBytes (oneLinkVolume 0xFF0) ∧
      ∃ s', fat16GetClusterForOffset (oneLinkVolume 0xFF0) 2 512
        (⟨(), fun _ => 0⟩ : KState Unit) = .ok (-eio, s') := by
  refine ⟨oneLinkVolume_chain 0xFF0 (by decide) (by decide), by decide, ?_⟩
  have hres : clusterAhead (oneLinkVolume 0xFF0) 1 2 = -eio :=
    clusterAhead_eq_eio _ Nat.zero_lt_one (by decide)
  exact hres ▸ (fat16GetClusterForOffset_settles (oneLinkVolume 0xFF0) (by decide) (by decide) 512
    (by decide)).ok _

/-! ### Broken and finished chains -/

/-- An entry that marks no data cluster: free, reserved, bad or the end of a chain. -/
def Broken (entry : Int) : Prop := entry = 0 ∨ entry = 1 ∨ 0xFFF0 ≤ entry ∧ entry ≤ 0xFFFF

instance (entry : Int) : Decidable (Broken entry) := inferInstanceAs (Decidable (_ ∨ _))

/-- A data cluster is no broken mark. -/
theorem DataCluster.not_broken {cluster : Int} (h : DataCluster cluster) : ¬ Broken cluster := by
  simp only [DataCluster, Broken] at *
  omega

/-- A walk of `n` links fails when it meets a broken entry; it neither returns one nor looks one
up. -/
structure StopsAtBroken (vol : Volume) (cluster : Int) (n : Nat) (res : Int) (log : List Int) :
    Prop where
  fails : (∃ i < n, Broken (link vol cluster (i + 1))) → res < 0
  result : ¬ Broken res
  lookedUp : ∀ c ∈ log, ¬ Broken c

/-- Every broken entry among the first `n` links is refused, or one before it is. -/
def BrokenRefused (vol : Volume) (cluster : Int) (n : Nat) : Prop :=
  ∀ j < n, Broken (link vol cluster (j + 1)) → ∃ i ≤ j, EndsChain (link vol cluster (i + 1))

/-- What stops at a broken entry refuses it. -/
theorem StopsAtBroken.refused {vol : Volume} {cluster : Int} {n : Nat}
    (h : StopsAtBroken vol cluster n (clusterAhead vol n cluster) (lookups vol n cluster)) :
    BrokenRefused vol cluster n := by
  intro j hj hbroken
  by_contra hnone
  simp only [not_exists, not_and] at hnone
  by_cases hlast : j + 1 = n
  · -- the broken entry is returned
    subst hlast
    have hres : clusterAhead vol (j + 1) cluster = link vol cluster (j + 1) :=
      clusterAhead_eq_link vol fun i hi => hnone i (by omega)
    exact h.result (hres ▸ hbroken)
  · -- the broken entry is looked up
    exact h.lookedUp _ ((mem_lookups vol).mpr
      ⟨j + 1, by omega, rfl, fun t ht => hnone t (by omega)⟩) hbroken

/-- Up to an entry that is not refused, nothing is broken. -/
theorem BrokenRefused.not_broken {vol : Volume} {cluster : Int} {n : Nat}
    (h : BrokenRefused vol cluster n) (hcluster : DataCluster cluster) {i : Nat} (hi : i ≤ n)
    (hbefore : ∀ t < i, ¬ EndsChain (link vol cluster (t + 1))) :
    ¬ Broken (link vol cluster i) := by
  cases i with
  | zero => exact hcluster.not_broken
  | succ i =>
    intro hbroken
    obtain ⟨t, ht, hend⟩ := h i (by omega) hbroken
    exact hbefore t (by omega) hend

/-- What refuses broken entries stops at the first. -/
theorem BrokenRefused.stops {vol : Volume} {cluster : Int} {n : Nat}
    (h : BrokenRefused vol cluster n) (hcluster : DataCluster cluster) :
    StopsAtBroken vol cluster n (clusterAhead vol n cluster) (lookups vol n cluster) := by
  refine ⟨?_, ?_, ?_⟩
  · rintro ⟨j, hj, hbroken⟩
    obtain ⟨i, hi, hend⟩ := h j hj hbroken
    rw [clusterAhead_eq_eio vol (by omega) hend]
    exact neg_eio_lt
  · by_cases hend : ∃ i < n, EndsChain (link vol cluster (i + 1))
    · obtain ⟨i, hi, hend⟩ := hend
      rw [clusterAhead_eq_eio vol hi hend]
      decide
    · simp only [not_exists, not_and] at hend
      rw [clusterAhead_eq_link vol hend]
      exact h.not_broken hcluster le_rfl hend
  · intro c hc
    obtain ⟨i, hi, rfl, hbefore⟩ := (mem_lookups vol).mp hc
    exact h.not_broken hcluster (by omega) hbefore

/-- **A broken entry stops the walk exactly when it, or an entry before it, is one of the six the
driver refuses.** -/
theorem stops_at_broken_iff {vol : Volume} (hC : sizeOfClusterBytes vol ≠ 0) {cluster : Int}
    (hcluster : DataCluster cluster) {offset : Int} (hoffset : 0 ≤ offset) (s : KState H) :
    (∃ res log s', fat16GetClusterForOffsetLogged vol cluster offset [] s =
        .ok ((res, log), s') ∧
      StopsAtBroken vol cluster (offset / sizeOfClusterBytes vol).toNat res log) ↔
    BrokenRefused vol cluster (offset / sizeOfClusterBytes vol).toNat := by
  have hrange := hcluster
  simp only [DataCluster] at hrange
  obtain ⟨s₁, hrun⟩ := (fat16GetClusterForOffsetLogged_settles vol (show 0 ≤ cluster by omega)
    (by omega) hoffset hC).ok s
  constructor
  · rintro ⟨res, log, s₂, hres, hstops⟩
    obtain ⟨rfl, rfl⟩ := Prod.mk.inj (Prod.mk.inj (Except.ok.inj (hrun.symm.trans hres))).1
    exact hstops.refused
  · exact fun h => ⟨_, _, s₁, hrun, h.stops hcluster⟩

/-- The chain that ends at cluster 2 with `0xFFFF`. -/
theorem stops_at_end_of_chain :
    ∃ res log s', fat16GetClusterForOffsetLogged (oneLinkVolume 0xFFFF) 2 512 []
        (⟨(), fun _ => 0⟩ : KState Unit) = .ok ((res, log), s') ∧
      StopsAtBroken (oneLinkVolume 0xFFFF) 2 1 res log :=
  (stops_at_broken_iff (by decide) (by decide) (by decide) _).mpr
    fun _ _ _ => ⟨0, Nat.zero_le _, by decide⟩

/-- **The end of chain mark `0xFFF9` is returned as a cluster**, and looked up for the cluster
after it. -/
theorem end_mark_followed :
    (∃ s', fat16GetClusterForOffsetLogged (oneLinkVolume 0xFFF9) 2 512 []
        (⟨(), fun _ => 0⟩ : KState Unit) = .ok ((0xFFF9, [2]), s')) ∧
      ¬ StopsAtBroken (oneLinkVolume 0xFFF9) 2 1 0xFFF9 [2] ∧
      ∃ s', fat16GetClusterForOffsetLogged (oneLinkVolume 0xFFF9) 2 1024 []
        (⟨(), fun _ => 0⟩ : KState Unit) = .ok ((-eio, [2, 0xFFF9]), s') := by
  have hrun (offset : Int) (h : 0 ≤ offset) :=
    (fat16GetClusterForOffsetLogged_settles (H := Unit) (oneLinkVolume 0xFFF9)
      (show (0 : Int) ≤ 2 by decide) (by decide) h (by decide)).ok ⟨(), fun _ => 0⟩
  refine ⟨hrun 512 (by decide), fun h => h.result (by decide), hrun 1024 (by decide)⟩

end

end KernelNES.Fs
