import KernelNES.Fs.ClusterChain
import KernelNES.Lib.Guarded

/-!
# Fs — ReadEffects

What holds of a read of the disk because it holds of the seeks and reads it is made of
(`readStream_of_sequential`, `totalItems_of_sequential`).  So a read leaves the heap alone
(`readInternal_leaves`), and it stops only where it leaves the buffer of a sector or divides by a
cluster size of zero (`readInternal_faults`); and to how it ends the streams do not matter
(`seekReads_settled`).
-/

namespace KernelNES.Fs
open KernelNES.Lib KernelNES.Memory

section
variable {H : Type}

/-! ### From the seeks and reads to the whole -/

/-- `P` holds of a seek and a read when it holds of what is done with what was read. -/
def SeekReads (disk : Disk) (P : (α : Type) → K H α → Prop) : Prop :=
  ∀ {α : Type} (stream : StreamId) (p total : Int) {k : Int → K H α} {g : Int × List U8 → K H α},
    k 0 = streamRead disk stream total >>= g → (∀ r, P α (g r)) →
      P α (diskstreamerSeek stream p >>= k)

section
variable {P : (α : Type) → K H α → Prop} (hP : Sequential P)
include hP

theorem totalItems_of_sequential {disk : Disk}
    (hread : ∀ stream total, P _ (streamRead disk stream total))
    (hseek : ∀ stream p, P _ (diskstreamerSeek stream p)) (hdiverges : P Int (Exec.fault .diverges))
    (directoryStartSector : U32) :
    P _ (fat16GetTotalItemsForDirectory disk directoryStartSector) := by
  have hloop : ∀ fuel i, P _ (fat16GetTotalItemsLoop disk fuel i) := by
    intro fuel
    induction fuel with
    | zero => exact fun _ => hdiverges
    | succ fuel ih =>
      intro i
      exact hP.bind (hread _ _) fun r =>
        hP.ite (hP.pure _) (hP.ite (hP.pure _) (hP.ite (ih i) (ih (i + 1))))
  exact hP.bind (hseek _ _) fun res => hP.ite (hP.pure _) (hloop _ _)

section
variable {vol : Volume} (hread : SeekReads vol.disk P)
  (hdiv : sizeOfClusterBytes vol = 0 → ∀ α, P α (Exec.fault .divisionByZero))
include hread hdiv

theorem clusterForOffset_of_sequential (cluster offset : Int) :
    P _ (fat16GetClusterForOffset vol cluster offset) := by
  have hentry : ∀ cluster, P _ (fat16GetFatEntry vol cluster) := fun cluster =>
    hread _ _ _ rfl fun r => hP.ite (hP.pure _) (hP.pure _)
  have hloop : ∀ n cluster, P _ (fat16GetClusterLoop vol n cluster) := by
    intro n
    induction n with
    | zero => exact fun _ => hP.pure _
    | succ n ih =>
      intro cluster
      exact hP.bind (hentry cluster) fun entry => hP.ite (hP.pure _)
        (hP.ite (hP.pure _) (hP.ite (hP.pure _) (hP.ite (hP.pure _) (ih entry))))
  rw [fat16GetClusterForOffset]
  split
  · rename_i hC
    exact hdiv hC _
  · exact hloop _ _

/-- Every round of a read finds its cluster on the FAT and seeks to it first. -/
theorem readStream_of_sequential (stream : StreamId) (cluster offset total : Int) :
    P _ (fat16ReadInternalFromStream vol stream cluster offset total) := by
  induction hn : total.toNat using Nat.strong_induction_on generalizing offset total with
  | _ n ih =>
    rw [fat16ReadInternalFromStream]
    refine hP.bind (clusterForOffset_of_sequential hP hread hdiv cluster offset) fun c => ?_
    split
    · exact hP.pure _
    split
    · rename_i hC
      exact hdiv hC _
    · rename_i hC
      refine hread _ _ _ rfl fun r => hP.ite (hP.pure _) ?_
      by_cases hmore : total -
          (if total > sizeOfClusterBytes vol then sizeOfClusterBytes vol else total) > 0
      · rw [dif_pos hmore]
        exact hP.bind (ih _ (hn ▸ readRound_decreases hC hmore) _ _ rfl) fun _ => hP.pure _
      · rw [dif_neg hmore]
        exact hP.pure _

end

end

/-! ### A read leaves the heap alone -/

theorem streamRead_leaves (disk : Disk) (stream : StreamId) (total : Int) :
    Leaves KState.heap (streamRead disk stream total : K H _) := by
  intro s a s' h
  unfold streamRead at h
  split at h
  · cases h
  · cases h
    rfl

theorem diskstreamerSeek_leaves (stream : StreamId) (pos : Int) :
    Leaves KState.heap (diskstreamerSeek stream pos : K H _) := by
  intro s a s' h
  cases h
  rfl

theorem getTotalItems_leaves (disk : Disk) (directoryStartSector : U32) :
    Leaves KState.heap (fat16GetTotalItemsForDirectory disk directoryStartSector : K H _) :=
  totalItems_of_sequential (Leaves.sequential _) (streamRead_leaves disk) diskstreamerSeek_leaves
    (.fault _) directoryStartSector

theorem seekReads_leaves (disk : Disk) :
    SeekReads disk fun _ (x : K H _) => Leaves KState.heap x := by
  intro α stream p total k g hk hg s a s' h
  obtain ⟨res, s₁, hseek, h⟩ := Exec.bind_eq_ok.mp h
  cases hseek
  rw [hk] at h
  have hheap := ((streamRead_leaves disk stream total).bind hg) _ a s' h
  exact hheap

theorem readInternal_leaves (vol : Volume) (cluster offset total : Int) :
    Leaves KState.heap (fat16ReadInternal vol cluster offset total : K H _) :=
  readStream_of_sequential (Leaves.sequential _) (seekReads_leaves vol.disk) (fun _ _ => .fault _)
    .clusterRead cluster offset total

/-! ### What stops a read -/

theorem diskstreamerRead_faults {disk : Disk} {pos total : Int} {e : Fault}
    (h : diskstreamerRead disk pos total = .error e) : e = .outOfBounds := by
  induction hn : (wrap32 total).toNat using Nat.strong_induction_on generalizing pos total with
  | _ n ih =>
    rw [diskstreamerRead] at h
    simp only [diskReadBlock, lt_self_iff_false, if_false] at h
    split at h
    · cases h; rfl
    · rename_i hbuf
      split at h
      · rename_i hov
        cases hrec : diskstreamerRead disk
            (wrap32 (pos + streamerTotalToRead (pos.tmod peachosSectorSize) total))
            (wrap32 (total - streamerTotalToRead (pos.tmod peachosSectorSize) total)) with
        | error e' =>
          rw [hrec] at h
          cases h
          exact ih _ (hn ▸ streamerRound_decreases hbuf hov) hrec rfl
        | ok r => rw [hrec] at h; cases h
      · cases h

section
variable {F : Fault → Prop} (hout : F .outOfBounds)
include hout

theorem streamRead_faults (disk : Disk) (stream : StreamId) (total : Int) :
    FaultsIn F (streamRead disk stream total : K H _) := by
  intro s e h
  unfold streamRead at h
  split at h
  · rename_i hread
    cases h
    rw [diskstreamerRead_faults hread]
    exact hout
  · cases h

theorem getTotalItems_faults (hdiverges : F .diverges) (disk : Disk) (directoryStartSector : U32) :
    FaultsIn F (fat16GetTotalItemsForDirectory disk directoryStartSector : K H _) :=
  totalItems_of_sequential (FaultsIn.sequential F) (streamRead_faults hout disk) (fun _ _ => nofun)
    (.fault hdiverges) directoryStartSector

theorem seekReads_faults (disk : Disk) : SeekReads disk fun _ (x : K H _) => FaultsIn F x := by
  intro α stream p total k g hk hg s e h
  have hseek : diskstreamerSeek stream p s =
      .ok (0, { s with pos := Function.update s.pos stream p }) := rfl
  rw [Exec.bind_ok hseek, hk] at h
  exact ((streamRead_faults hout disk stream total).bind hg) _ e h

theorem readInternal_faults {vol : Volume} (hdiv : sizeOfClusterBytes vol = 0 → F .divisionByZero)
    (cluster offset total : Int) :
    FaultsIn F (fat16ReadInternal vol cluster offset total : K H _) :=
  readStream_of_sequential (FaultsIn.sequential F) (seekReads_faults hout vol.disk)
    (fun hC _ => .fault (hdiv hC)) .clusterRead cluster offset total

end

/-! ### The streams do not matter -/

/-- A seek before a read settles it. -/
theorem seekReads_settled (disk : Disk) : SeekReads disk fun _ (x : K H _) => Settled x := by
  intro α stream p total k g hk hg
  cases h : diskstreamerRead disk p total with
  | error e => exact ⟨.error e, .of_error (seek_read_error hk h)⟩
  | ok r =>
    obtain ⟨res, out, pos⟩ := r
    obtain ⟨t, ht⟩ := hg (res, out)
    exact ⟨t, settles_seek_read hk h ht⟩

end

end KernelNES.Fs
