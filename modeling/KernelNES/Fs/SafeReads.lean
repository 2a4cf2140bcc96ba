import KernelNES.Fs.Interference
import KernelNES.Fs.Resolve
import KernelNES.Lib.Traced

/-!
# Fs — SafeReads

What reads of an accepted volume divide by, and whether they come to an end.  A read comes with
marks for its divisions by the size of a cluster and for the recursion over its pieces; without the
marks it is the read (`freadMarks_erase`).  `fat16_resolve` lets `sectors_per_cluster` be zero, and
the reads of the volume are safe exactly when it is not (`accepted_reads_safe_iff`).
-/

namespace KernelNES.Fs
open KernelNES.Lib KernelNES.Memory

/-- What a read relies on, as it goes: that it does not divide by zero, and that it recurses on
less. -/
inductive ReadMark where
  | divides (divisor : Int)
  | recurses (total rest : Int)
  deriving DecidableEq, Repr

section
variable {H : Type}

/-! ### Reads, with their marks -/

/-- `fat16_get_cluster_for_offset`, which divides before anything else. -/
def getClusterMarks (vol : Volume) (startingCluster offset : Int) :
    Traced ReadMark Fault (KState H) Int := do
  .mark (.divides (sizeOfClusterBytes vol))
  .quiet (fat16GetClusterForOffset vol startingCluster offset)

/-- `fat16_read_internal_from_stream`. -/
def readStreamMarks (vol : Volume) (stream : StreamId) (cluster offset total : Int) :
    Traced ReadMark Fault (KState H) (Int × List U8) := do
  let clusterToUse ← getClusterMarks vol cluster offset
  if clusterToUse < 0 then pure (clusterToUse, [])
  else do
    .mark (.divides (sizeOfClusterBytes vol))
    if _ : sizeOfClusterBytes vol = 0 then .quiet (Exec.fault .divisionByZero)
    else
      let offsetFromCluster := offset.tmod (sizeOfClusterBytes vol)
      let startingSector := fat16ClusterToSector vol clusterToUse
      let startingPos := wrap32 (startingSector * peachosSectorSize + offsetFromCluster)
      let totalToRead := if total > sizeOfClusterBytes vol then sizeOfClusterBytes vol else total
      let res ← .quiet (diskstreamerSeek stream startingPos)
      if res ≠ 0 then pure (res, [])
      else do
        let (res, out) ← .quiet (streamRead vol.disk stream totalToRead)
        if res ≠ 0 then pure (res, out)
        else if _ : total - totalToRead > 0 then do
          .mark (.recurses total (total - totalToRead))
          let (res, rest) ← readStreamMarks vol stream cluster
            (wrap32 (offset + totalToRead)) (total - totalToRead)
          pure (res, out ++ rest)
        else pure (res, out)
termination_by total.toNat
decreasing_by
  exact readRound_decreases ‹_› ‹_›

/-- The loop of `fat16_read`. -/
def readLoopMarks (vol : Volume) (item : FatItem) (size : U32) :
    (n : Nat) → (offset : Int) → Traced ReadMark Fault (KState H) (Int × Int × List U8)
  | 0, offset => pure (0, offset, [])
  | n + 1, offset => do
    let contents ← .quiet (Exec.lift item.itemMember)
    let (res, out) ←
      readStreamMarks vol .clusterRead (fat16GetFirstCluster contents).toInt offset size.toInt
    if res < 0 then pure (res, offset, out)
    else
      let (res, offset, rest) ← readLoopMarks vol item size n (wrap32 (offset + size.toNat))
      pure (res, offset, out ++ rest)

/-- `fat16_read`. -/
def readMarks (vol : Volume) (descriptor size nmemb : U32) :
    Traced ReadMark Fault (FatState H) (Int × List U8) := do
  let desc ← .quiet (loadDescriptor descriptor)
  let fatItem ← .quiet (Exec.lift desc.item.load)
  let (res, offset, out) ← .zoom FatState.driver (fun driver s => { s with driver })
    (readLoopMarks vol fatItem size nmemb.toNat desc.pos.toInt)
  if res < 0 then pure (res, out)
  else do
    .quiet (setDescriptor descriptor (.live descriptor { desc with pos := BitVec.ofInt 32 offset }))
    pure (nmemb.toInt, out)

/-- `fread` of a file on the volume. -/
def freadMarks (vol : Volume) (size nmemb : U32) (fd : Int) :
    Traced ReadMark Fault (FileState (FatState H)) (Int × List U8) :=
  if size = 0 ∨ nmemb = 0 ∨ fd < 1 then pure (-einvarg, [])
  else do
    let s ← .quiet get
    if (fileGetDescriptor s fd).isNull then pure (-einvarg, [])
    else do
      let desc ← .quiet (Exec.lift (fileGetDescriptor s fd).load)
      .zoom FileState.kernel (fun kernel s => { s with kernel })
        (readMarks vol desc.privateData size nmemb)

/-! ### Without the marks -/

theorem getClusterMarks_erase (vol : Volume) (cluster offset : Int) :
    (getClusterMarks (H := H) vol cluster offset).erase =
      fat16GetClusterForOffset vol cluster offset := by
  simp only [getClusterMarks, Traced.erase_bind, Traced.erase_mark, Traced.erase_quiet, pure_bind]

theorem readStreamMarks_erase (vol : Volume) (stream : StreamId) (cluster offset total : Int) :
    (readStreamMarks (H := H) vol stream cluster offset total).erase =
      fat16ReadInternalFromStream vol stream cluster offset total := by
  induction hn : total.toNat using Nat.strong_induction_on generalizing offset total with
  | _ n ih =>
    rw [readStreamMarks, fat16ReadInternalFromStream]
    simp only [Traced.erase_bind, getClusterMarks_erase, Traced.erase_ite, Traced.erase_pure,
      Traced.erase_mark, pure_bind]
    by_cases hC : sizeOfClusterBytes vol = 0
    · simp only [dif_pos hC, Traced.erase_quiet]
    by_cases hmore : total -
        (if total > sizeOfClusterBytes vol then sizeOfClusterBytes vol else total) > 0
    · have hrec := ih _ (hn ▸ readRound_decreases hC hmore)
      simp only [dif_neg hC, dif_pos hmore, Traced.erase_bind, Traced.erase_quiet, Traced.erase_ite,
        Traced.erase_pure, Traced.erase_mark, pure_bind, hrec _ _ rfl]
    · simp only [dif_neg hC, dif_neg hmore, Traced.erase_bind, Traced.erase_quiet,
        Traced.erase_ite, Traced.erase_pure]

/-- Without its marks, the loop is the code's. -/
theorem readLoopMarks_erase (vol : Volume) (item : FatItem) (size : U32) (n : Nat)
    (offset : Int) : (readLoopMarks (H := H) vol item size n offset).erase =
      fat16ReadLoop vol item size n offset := by
  induction n generalizing offset with
  | zero => rfl
  | succ n ih =>
    simp only [readLoopMarks, fat16ReadLoop, Traced.erase_bind, Traced.erase_quiet,
      readStreamMarks_erase, Traced.erase_ite, Traced.erase_pure, ih]
    rfl

/-- Without its marks, `fat16_read` is the code's. -/
theorem readMarks_erase (vol : Volume) (p size nmemb : U32) :
    (readMarks (H := H) vol p size nmemb).erase = fat16Read vol p size nmemb := by
  have hloop : ∀ item n offset, (Traced.zoom FatState.driver (fun driver s => { s with driver })
      (readLoopMarks (H := H) vol item size n offset)).erase =
        onDriver (fat16ReadLoop vol item size n offset) := by
    intro item n offset
    funext s
    rw [Traced.erase_zoom, readLoopMarks_erase]
    rfl
  simp only [readMarks, fat16Read, Traced.erase_bind, Traced.erase_quiet, Traced.erase_ite,
    Traced.erase_pure, hloop]

variable {alloc : Allocator H} {vol : Volume} {s : FileState (FatState H)} {fd : Int}
  {item : FatDirectoryItem} {pos size nmemb : U32}

/-- What `fread` of a file on the volume comes to. -/
theorem fread_onVolume {ptr : U32} {desc : FileDescriptor (FatState H)}
    (hat : OnVolume alloc vol s fd item pos) (hget : fileGetDescriptor s fd = .live ptr desc)
    (hsize : size ≠ 0) (hnmemb : nmemb ≠ 0) :
    fread size nmemb fd s = onKernel (fat16Read vol desc.privateData size nmemb) s := by
  have hfd := (entry_of_live hget).1
  rw [fread, if_neg (by simp only [hsize, hnmemb, false_or]; omega),
    withDescriptor_live hget (hat.filesystem _ _ hget)]
  rfl

/-- Without its marks, `fread` is the code's. -/
theorem freadMarks_erase (hat : OnVolume alloc vol s fd item pos) (size nmemb : U32) :
    (freadMarks vol size nmemb fd).erase s = fread size nmemb fd s := by
  obtain ⟨ptr, desc, p, q, r, hget, -⟩ := hat.file
  have hfd := (entry_of_live hget).1
  by_cases hargs : size = 0 ∨ nmemb = 0
  · have hrefused : size = 0 ∨ nmemb = 0 ∨ fd < 1 := or_assoc.mp (.inl hargs)
    rw [freadMarks, fread, if_pos hrefused, if_pos hrefused]
    rfl
  · obtain ⟨hsize, hnmemb⟩ := not_or.mp hargs
    have hserved : (Traced.zoom FileState.kernel (fun kernel s => { s with kernel })
        (readMarks (H := H) vol desc.privateData size nmemb)).erase =
          onKernel (fat16Read vol desc.privateData size nmemb) := by
      funext s
      rw [Traced.erase_zoom, readMarks_erase]
      rfl
    rw [fread_onVolume hat hget hsize hnmemb, freadMarks,
      if_neg (by simp only [hsize, hnmemb, false_or]; omega)]
    simp only [Traced.erase_bind, Traced.erase_quiet, Traced.erase_ite]
    rw [Exec.get_bind, hget, if_neg (by simp [Ref.isNull]), Ref.load, Exec.lift_ok_bind, hserved]

/-! ### What a read relies on -/

/-- The divisor is not zero, or the recursion is on less, and on something. -/
def ReadMark.Safe : ReadMark → Prop
  | .divides divisor => divisor ≠ 0
  | .recurses total rest => 0 < rest ∧ rest < total

/-- The fault is not a division by zero, and not that the code does not come to an end. -/
def Tolerated (e : Fault) : Prop := e ≠ .divisionByZero ∧ e ≠ .diverges

/-- The read divides by no cluster size of zero and recurses on less each time, and so it neither
stops at a division by zero nor goes on for ever. -/
structure SafeRead (vol : Volume) (s : FileState (FatState H)) (size nmemb : U32) (fd : Int) :
    Prop where
  marks : ∀ m ∈ (freadMarks vol size nmemb fd).trace s, m.Safe
  ends : ∀ e, fread size nmemb fd s = .error e → Tolerated e

/-- Every `fread` of a file on the volume is safe, wherever it is and whatever it asks for. -/
def SafeReads (alloc : Allocator H) (vol : Volume) : Prop :=
  ∀ s fd item pos, OnVolume alloc vol s fd item pos → ∀ size nmemb, SafeRead vol s size nmemb fd

theorem load_tolerated {α : Type} {p : Ref α} {e : Fault} (h : p.load = .error e) :
    Tolerated e := by
  cases p <;> cases h <;> exact ⟨by decide, by decide⟩

section
variable (hC : sizeOfClusterBytes vol ≠ 0)
include hC

/-- Looking for a cluster divides by no zero. -/
theorem getClusterMarks_safe (cluster offset : Int) :
    Traced.Marks ReadMark.Safe (getClusterMarks (H := H) vol cluster offset) :=
  .bind (.mark hC) fun _ => .quiet _

theorem readStreamMarks_safe (stream : StreamId) (cluster offset total : Int) :
    Traced.Marks ReadMark.Safe (readStreamMarks (H := H) vol stream cluster offset total) := by
  induction hn : total.toNat using Nat.strong_induction_on generalizing offset total with
  | _ n ih =>
    rw [readStreamMarks]
    refine .bind (getClusterMarks_safe hC cluster offset) fun c => .ite (.pure _) ?_
    refine .bind (.mark hC) fun _ => ?_
    rw [dif_neg hC]
    refine .bind (.quiet _) fun res => .ite (.pure _) (.bind (.quiet _) fun r => .ite (.pure _) ?_)
    by_cases hmore : total -
        (if total > sizeOfClusterBytes vol then sizeOfClusterBytes vol else total) > 0
    · have hdec := readRound_decreases hC hmore
      rw [dif_pos hmore]
      exact .bind (.mark ⟨hmore, by omega⟩) fun _ => .bind (ih _ (hn ▸ hdec) _ _ rfl) fun _ =>
        .pure _
    · rw [dif_neg hmore]
      exact .pure _

theorem readLoopMarks_safe (item : FatItem) (size : U32) (n : Nat) (offset : Int) :
    Traced.Marks ReadMark.Safe (readLoopMarks (H := H) vol item size n offset) := by
  induction n generalizing offset with
  | zero => exact .pure _
  | succ n ih =>
    exact .bind (.quiet _) fun contents => .bind (readStreamMarks_safe hC _ _ _ _) fun r =>
      .ite (.pure _) (.bind (ih _) fun _ => .pure _)

/-- Every mark of `fread` is safe. -/
theorem freadMarks_safe (size nmemb : U32) (fd : Int) :
    Traced.Marks ReadMark.Safe (freadMarks (H := H) vol size nmemb fd) := by
  refine .ite (.pure _) (.bind (.quiet _) fun s => .ite (.pure _) (.bind (.quiet _) fun desc => ?_))
  refine .zoom (.bind (.quiet _) fun desc => .bind (.quiet _) fun fatItem => ?_)
  exact .bind (.zoom (readLoopMarks_safe hC _ _ _ _)) fun r =>
    .ite (.pure _) (.bind (.quiet _) fun _ => .pure _)

theorem readLoop_tolerated (item : FatItem) (size : U32) (n : Nat) (offset : Int) :
    FaultsIn Tolerated (fat16ReadLoop vol item size n offset : K H _) := by
  have hmember : ∀ e, item.itemMember = .error e → Tolerated e := by
    intro e he
    cases item with
    | directory p => cases p <;> cases he <;> exact ⟨by decide, by decide⟩
    | file p => exact load_tolerated he
  exact readLoop_of_sequential (FaultsIn.sequential _)
    (seekReads_faults ⟨by decide, by decide⟩ vol.disk) (fun h => absurd h hC) (.lift hmember)
    size n offset

/-- `fat16_read` faults only as it may. -/
theorem fat16Read_tolerated (p size nmemb : U32) :
    FaultsIn Tolerated (fat16Read vol p size nmemb : Exec Fault (FatState H) _) := by
  have hload : FaultsIn Tolerated (loadDescriptor p : Exec Fault (FatState H) _) := by
    intro s e he
    unfold loadDescriptor at he
    cases hp : (s.descriptors p).load with
    | error e' =>
      rw [hp] at he
      cases he
      exact load_tolerated hp
    | ok desc => rw [hp] at he; cases he
  have hloop : ∀ item n offset,
      FaultsIn Tolerated (onDriver (fat16ReadLoop vol item size n offset : K H _)) := by
    intro item n offset s e he
    unfold onDriver at he
    cases hx : fat16ReadLoop vol item size n offset s.driver with
    | error e' =>
      rw [hx] at he
      cases he
      exact readLoop_tolerated hC item size n offset _ _ hx
    | ok r => rw [hx] at he; cases he
  exact hload.bind fun desc => (FaultsIn.lift fun e he => load_tolerated he).bind fun fatItem =>
    (hloop _ _ _).bind fun r => .ite (.pure _) (.bind nofun fun _ => .pure _)

/-- **With clusters of some size every read is safe.** -/
theorem safeReads_of_cluster (alloc : Allocator H) : SafeReads alloc vol := by
  intro s fd item pos hat size nmemb
  refine ⟨freadMarks_safe hC size nmemb fd s, fun e he => ?_⟩
  by_cases hargs : size = 0 ∨ nmemb = 0
  · rw [fread, if_pos (or_assoc.mp (.inl hargs))] at he
    cases he
  · obtain ⟨hsize, hnmemb⟩ := not_or.mp hargs
    obtain ⟨ptr, desc, p, q, r, hget, -⟩ := hat.file
    rw [fread_onVolume hat hget hsize hnmemb, onKernel] at he
    cases hread : fat16Read vol desc.privateData size nmemb s.kernel with
    | error e' =>
      rw [hread] at he
      cases he
      exact fat16Read_tolerated hC _ size nmemb _ _ hread
    | ok a => rw [hread] at he; cases he

end

/-! ### Clusters of no size -/

/-- **With clusters of no size every read stops at a division by zero.** -/
theorem fread_divides_by_zero (hC : sizeOfClusterBytes vol = 0)
    (hat : OnVolume alloc vol s fd item pos) (hsize : size ≠ 0) (hnmemb : nmemb ≠ 0) :
    fread size nmemb fd s = .error .divisionByZero := by
  obtain ⟨ptr, desc, p, q, r, hget, hdesc⟩ := hat.file
  obtain ⟨n, hn⟩ : ∃ n, nmemb.toNat = n + 1 :=
    Nat.exists_eq_succ_of_ne_zero fun h => hnmemb (BitVec.eq_of_toNat_eq h)
  have hinternal : fat16ReadInternal vol (fat16GetFirstCluster item).toInt pos.toInt size.toInt
      s.kernel.driver = .error .divisionByZero := by
    rw [fat16ReadInternal, fat16ReadInternalFromStream]
    refine Exec.bind_error ?_
    rw [fat16GetClusterForOffset, if_pos hC]
    rfl
  have hloop : fat16ReadLoop vol (.file (.live r item)) size nmemb.toNat pos.toInt s.kernel.driver =
      .error .divisionByZero := by
    rw [hn, fat16ReadLoop, FatItem.itemMember, Ref.load, Exec.lift_ok_bind,
      Exec.bind_error hinternal]
  have hload : loadDescriptor desc.privateData s.kernel =
      .ok ({ item := .live q (.file (.live r item)), pos }, s.kernel) :=
    loadDescriptor_eq_ok.mpr ⟨p, hdesc, rfl⟩
  have hdriver : onDriver (fat16ReadLoop vol (.file (.live r item)) size nmemb.toNat pos.toInt)
      s.kernel = .error .divisionByZero := by
    rw [onDriver, hloop]
    rfl
  have hread : fat16Read vol desc.privateData size nmemb s.kernel = .error .divisionByZero := by
    rw [fat16Read, Exec.bind_ok hload, Ref.load, Exec.lift_ok_bind, Exec.bind_error hdriver]
  rw [fread_onVolume hat hget hsize hnmemb, onKernel, hread]
  rfl

/-- The kernel with one open file of the volume. -/
def oneOpenFile (alloc : Allocator H) (vol : Volume) (item : FatDirectoryItem) (driver : KState H) :
    FileState (FatState H) where
  fileDescriptors := Function.update (fun _ => .null) 0 (.live 0x01000000
    { index := 1, filesystem := some (fat16Filesystem alloc vol), privateData := 0x01001000 })
  kernel :=
    { driver
      descriptors := Function.update (fun _ => .null) 0x01001000 (.live 0x01001000
        { item := .live 0x01002000 (.file (.live 0x01003000 item)), pos := 0 }) }

/-- The file stands open at its start. -/
theorem oneOpenFile_onVolume (alloc : Allocator H) (vol : Volume) (item : FatDirectoryItem)
    (driver : KState H) : OnVolume alloc vol (oneOpenFile alloc vol item driver) 1 item 0 :=
  ⟨⟨_, _, _, _, _, rfl, rfl⟩, fun _ _ h => by cases h; rfl⟩

/-- **The reads of an accepted volume are safe exactly when its header has some sectors in a
cluster.** -/
theorem accepted_reads_safe_iff (alloc : Allocator H) (disk : Disk) {vol : Volume} {s s' : KState H}
    (h : fat16Resolve alloc disk s = .ok ((0, some vol), s')) :
    SafeReads alloc vol ↔ (FatHeader.ofBytes (bootHeader disk)).sectorsPerCluster ≠ 0 := by
  obtain ⟨-, hheader, -⟩ := resolve_accepted h
  rw [← hheader]
  constructor
  · intro hsafe hzero
    have hC : sizeOfClusterBytes vol = 0 := by
      rw [sizeOfClusterBytes, hzero]
      rfl
    have hat := oneOpenFile_onVolume alloc vol (.ofBytes []) s'
    have hstop := fread_divides_by_zero hC hat (show (1 : U32) ≠ 0 by decide)
      (show (1 : U32) ≠ 0 by decide)
    exact ((hsafe _ _ _ _ hat 1 1).ends _ hstop).1 rfl
  · intro hspc
    refine safeReads_of_cluster (fun hC => hspc (BitVec.eq_of_toNat_eq ?_)) alloc
    simp only [sizeOfClusterBytes, peachosSectorSize] at hC
    show vol.header.sectorsPerCluster.toNat = 0
    omega

end

/-! ### A boot sector without a cluster size -/

/-- A disk with `sectorsPerCluster` in its header, and the file `A` in its root directory. -/
def bootDisk (sectorsPerCluster : U8) : Disk where
  sector lba i :=
    if lba = 0 then
      if i = 13 then sectorsPerCluster
      else if i = 14 ∨ i = 16 ∨ i = 22 then 1
      else if i = 17 then 16
      else if i = 38 then 0x29
      else 0
    else if lba = 2 then romSlot.getD i 0 else 0

/-- Its volume, resolved first of all. -/
def bootVolume (sectorsPerCluster : U8) : Volume :=
  resolvedVolume (bootDisk sectorsPerCluster)
    (rootBlock .ample (bootDisk sectorsPerCluster) 0).1 1

theorem bootDisk_resolve {c : U8} (hc : c = 0 ∨ c = 1) :
    ∃ s, fat16Resolve .ample (bootDisk c) ⟨0, fun _ => 0⟩ = .ok ((0, some (bootVolume c)), s) := by
  have hcount : SlotCount (bootDisk c)
      (storedRoot (bootDisk c) (.ofBytes (bootHeader (bootDisk c)))).start 1 1 := by
    rcases hc with rfl | rfl <;>
      exact ⟨by decide +kernel, by decide +kernel, by decide +kernel, by decide +kernel⟩
  have hsig : fatSignature (bootHeader (bootDisk c)) = 0x29 := by
    rcases hc with rfl | rfl <;> decide +kernel
  obtain ⟨stream, pos, h⟩ :=
    resolve_of_count Allocator.ample_succeeds hsig hcount ⟨0, fun _ => 0⟩
  exact ⟨_, h⟩

/-- One sector in a cluster is enough. -/
theorem accepted_reads_safe_oneSector :
    ∃ s, fat16Resolve .ample (bootDisk 1) ⟨0, fun _ => 0⟩ = .ok ((0, some (bootVolume 1)), s) ∧
      SafeReads .ample (bootVolume 1) := by
  obtain ⟨s, h⟩ := bootDisk_resolve (.inr rfl)
  exact ⟨s, h, (accepted_reads_safe_iff .ample (bootDisk 1) h).mpr (by decide +kernel)⟩

theorem bootVolume_entry (s : KState Nat) :
    ∃ a c s', fat16GetDirectoryEntry .ample (bootVolume 0) [0x61] [] s =
      .ok (.live a (.file (.live c (.ofBytes romSlot))), s') := by
  have hslot : (bootVolume 0).rootDirectory.slot 0 = .ok (.ofBytes romSlot) :=
    (loadedRoot_holds _ _ _ 1).slot 0 (by decide) romSlot (by decide +kernel)
  obtain ⟨a, s₁, h₁, ha⟩ := kzalloc_succeeds Allocator.ample_succeeds 8 s
  obtain ⟨c, s₂, h₂, hc⟩ :=
    kzalloc_succeeds Allocator.ample_succeeds (BitVec.ofNat 32 sizeofItem) s₁
  have hclone : fat16CloneDirectoryItem .ample (.ofBytes romSlot) sizeofItem s₁ =
      .ok (.live c (.ofBytes romSlot), s₂) := by
    rw [fat16CloneDirectoryItem, if_neg (by decide), Exec.bind_ok h₂, if_neg hc]
    rfl
  have hnew : fat16NewFatItemForDirectoryItem .ample (bootVolume 0) (.ofBytes romSlot) s =
      .ok (.live a (.file (.live c (.ofBytes romSlot))), s₂) := by
    rw [fat16NewFatItemForDirectoryItem, Exec.bind_ok h₁, if_neg ha, if_neg (by decide),
      Exec.bind_ok hclone]
    rfl
  have hfind :
      fat16FindItemInDirectory .ample (bootVolume 0) (bootVolume 0).rootDirectory [0x61] s =
      .ok (.live a (.file (.live c (.ofBytes romSlot))), s₂) := by
    show fat16FindItemLoop .ample (bootVolume 0) (bootVolume 0).rootDirectory [0x61] 1 0 .null s = _
    rw [fat16FindItemLoop, hslot, Exec.lift_ok_bind, if_pos (by decide), Exec.bind_ok hnew]
    rfl
  refine ⟨a, c, s₂, ?_⟩
  rw [fat16GetDirectoryEntry, Exec.bind_ok hfind, if_neg (by simp)]
  rfl

theorem ample_nonneg (size : U32) (n : Nat) : 0 ≤ (Allocator.ample.kzalloc size n).1.toInt := by
  have h := Nat.mod_lt n (show 25600 > 0 by decide)
  show 0 ≤ (BitVec.ofNat 32 (0x01000000 + 4096 * (n % 25600))).toInt
  rw [BitVec.toInt_eq_toNat_of_lt] <;> rw [BitVec.toNat_ofNat] <;> omega

/-- The file of the volume opens. -/
theorem bootVolume_open (s : FatState Nat) (part : PathPart) (hpart : part.part = [0x61]) :
    ∃ p a c s', fat16Open .ample (bootVolume 0) [part] .read s = .ok (p, s') ∧ 0 ≤ p.toInt ∧
      s'.descriptors p =
        .live p { item := .live a (.file (.live c (.ofBytes romSlot))), pos := 0 } := by
  have halloc : onDriver (kzalloc .ample 8) s = .ok ((Allocator.ample.kzalloc 8 s.driver.heap).1,
      { s with driver := { s.driver with
        heap := (Allocator.ample.kzalloc 8 s.driver.heap).2 } }) := rfl
  obtain ⟨a, c, driver, hentry⟩ := bootVolume_entry
    { s.driver with heap := (Allocator.ample.kzalloc 8 s.driver.heap).2 }
  have hitem : onDriver (fat16GetDirectoryEntry .ample (bootVolume 0) part.part [])
      { s with driver := { s.driver with heap := (Allocator.ample.kzalloc 8 s.driver.heap).2 } } =
        .ok (.live a (.file (.live c (.ofBytes romSlot))), { s with driver }) := by
    rw [hpart]
    exact onDriver_eq_ok.mpr ⟨driver, hentry, rfl⟩
  refine ⟨(Allocator.ample.kzalloc 8 s.driver.heap).1, a, c,
    ⟨driver, Function.update s.descriptors _
      (.live _ { item := .live a (.file (.live c _)), pos := 0 })⟩,
    ?_, ample_nonneg _ _, Function.update_self ..⟩
  rw [fat16Open, if_neg (by decide), Exec.bind_ok halloc, if_neg (Allocator.ample_succeeds _ _)]
  dsimp only
  rw [List.map_nil, Exec.bind_ok hitem, if_neg (by simp)]
  rfl

theorem bootVolume_fopen (kernel : FatState Nat) :
    ∃ s, fopen (Allocator.onFat .ample) (fat16Disk .ample (bootVolume 0)) pathA modeR
        (fsInit kernel) = .ok (1, s) ∧ OnVolume .ample (bootVolume 0) s 1 (.ofBytes romSlot) 0 := by
  have hsucc : (Allocator.onFat .ample).Succeeds := fun size s =>
    Allocator.ample_succeeds size s.driver.heap
  obtain ⟨root, k₁, hparse, hdrive, hparts⟩ :=
    pathparserParse_ok hsucc (show pathA.length ≤ peachosMaxPath by decide) (by decide) kernel
  obtain ⟨part, hfirst, hpart⟩ : ∃ part, root.first = [part] ∧ part.part = [0x61] := by
    rw [show ((pathA.drop 3).splitOn slash).takeWhile (· ≠ []) = [[0x61]] by decide] at hparts
    obtain ⟨part, hfirst, hpart⟩ := List.map_eq_singleton_iff.mp hparts
    exact ⟨part, hfirst, hpart⟩
  obtain ⟨p, a, c, k₂, hopen, hp, hdesc⟩ := bootVolume_open k₁ part hpart
  have hprivate :
      fopenPrivate (Allocator.onFat .ample) (fat16Disk .ample (bootVolume 0)) pathA modeR
      kernel = .ok (.ok (fat16Filesystem .ample (bootVolume 0), p), k₂) := by
    rw [fopenPrivate, Exec.bind_ok hparse]
    dsimp only
    rw [hfirst, if_neg (by simp), hdrive]
    show (fat16Open .ample (bootVolume 0) [part] .read >>= _) k₁ = _
    rw [Exec.bind_ok hopen, if_neg (by omega)]
    rfl
  obtain ⟨ptr, k₃, -, halloc⟩ := hsucc.kzallocWritten 16 k₂
  have hbody := fopenBody_ok (s := fsInit kernel) (i := 0) hprivate (by decide) ⟨rfl, nofun⟩ halloc
  refine ⟨_, by rw [fopen, Exec.bind_ok hbody]; rfl, ⟨ptr, _, p, a, c, rfl, ?_⟩, fun _ _ h => ?_⟩
  · rw [← hdesc]
    exact congrFun (kzallocWritten_descriptors halloc) p
  · cases h
    rfl

/-- **A boot sector without a cluster size is accepted**, and then every read of its file divides by
zero. -/
theorem zeroClusters_accepted :
    ∃ s s', fat16Resolve .ample (bootDisk 0) ⟨0, fun _ => 0⟩ = .ok ((0, some (bootVolume 0)), s) ∧
      fopen (Allocator.onFat .ample) (fat16Disk .ample (bootVolume 0)) pathA modeR
        (fsInit ⟨s, fun _ => .null⟩) = .ok (1, s') ∧
      (∀ size nmemb, size ≠ 0 → nmemb ≠ 0 → fread size nmemb 1 s' = .error .divisionByZero) ∧
      ¬ SafeReads .ample (bootVolume 0) := by
  obtain ⟨s, hresolve⟩ := bootDisk_resolve (.inl rfl)
  obtain ⟨s', hopen, hat⟩ := bootVolume_fopen ⟨s, fun _ => .null⟩
  have hC : sizeOfClusterBytes (bootVolume 0) = 0 := by decide +kernel
  have hstop : ∀ size nmemb, size ≠ 0 → nmemb ≠ 0 →
      fread size nmemb 1 s' = .error .divisionByZero :=
    fun size nmemb hsize hnmemb => fread_divides_by_zero hC hat hsize hnmemb
  refine ⟨s, s', hresolve, hopen, hstop, fun hsafe => ?_⟩
  exact ((hsafe s' 1 _ 0 hat 1 1).ends _ (hstop 1 1 (by decide) (by decide))).1 rfl

end KernelNES.Fs
