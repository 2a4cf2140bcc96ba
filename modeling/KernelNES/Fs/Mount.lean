import KernelNES.Fs.FileTree
import KernelNES.Fs.FileView
import KernelNES.Fs.Resolve

/-!
# Fs — Mount

The filesystems that are registered, and the disk that is mounted with one of them.
`fs_insert_filesystem` takes the next entry of a table of twelve and never returns when it is full;
`fs_resolve` tries the filesystems in the order they were registered in (`insertAll_resolves`).  With
FAT16 registered alone, a disk is mounted exactly when it has the signature and its root directory
can be counted (`mount_iff`).  From there a path of the tree is opened and its bytes are read
(`mounted_session`).
-/

namespace KernelNES.Fs
open KernelNES.Lib KernelNES.Memory
open PathMemory (printPath)

/-- `PEACHOS_MAX_FILESYSTEMS`. -/
def peachosMaxFilesystems : Nat := 12

section
variable {H : Type}

/-- A `struct filesystem`, as far as a disk is resolved with it: what `resolve` returns, with the
volume it leaves in `disk->fs_private`. -/
structure Resolver (H : Type) where
  resolve : Disk → K H (Int × Option Volume)

/-- `filesystems`. -/
abbrev Filesystems (H : Type) : Type := Nat → Option (Resolver H)

/-- The loop of `fs_get_free_filesystem` with `n` entries left, from `i` on. -/
def fsFreeLoop (filesystems : Filesystems H) : (n i : Nat) → Option Nat
  | 0, _ => none
  | n + 1, i =>
    match filesystems i with
    | none => some i
    | some _ => fsFreeLoop filesystems n (i + 1)

/-- `fs_get_free_filesystem`. -/
def fsGetFreeFilesystem (filesystems : Filesystems H) : Option Nat :=
  fsFreeLoop filesystems peachosMaxFilesystems 0

/-- `fs_insert_filesystem`; with no entry free it loops for ever. -/
def fsInsertFilesystem (fs : Resolver H) (filesystems : Filesystems H) :
    Except Fault (Filesystems H) :=
  match fsGetFreeFilesystem filesystems with
  | none => .error .diverges
  | some i => .ok (Function.update filesystems i (some fs))

/-- The loop of `fs_resolve` with `n` entries left, from `i` on. -/
def fsResolveLoop (filesystems : Filesystems H) (disk : Disk) :
    (n i : Nat) → K H (Option (Resolver H × Option Volume))
  | 0, _ => pure none
  | n + 1, i =>
    match filesystems i with
    | none => fsResolveLoop filesystems disk n (i + 1)
    | some fs => do
      let (res, vol) ← fs.resolve disk
      if res = 0 then pure (some (fs, vol)) else fsResolveLoop filesystems disk n (i + 1)

/-- `fs_resolve`: the filesystem that takes the disk, with the volume. -/
def fsResolve (filesystems : Filesystems H) (disk : Disk) :
    K H (Option (Resolver H × Option Volume)) :=
  fsResolveLoop filesystems disk peachosMaxFilesystems 0

/-! ### The table -/

/-- The filesystems registered one after the other. -/
def insertAll : List (Resolver H) → Filesystems H → Except Fault (Filesystems H)
  | [], filesystems => .ok filesystems
  | fs :: fss, filesystems => do insertAll fss (← fsInsertFilesystem fs filesystems)

/-- The first filesystem of a list that takes the disk. -/
def firstResolving (disk : Disk) : List (Resolver H) → K H (Option (Resolver H × Option Volume))
  | [] => pure none
  | fs :: fss => do
    let (res, vol) ← fs.resolve disk
    if res = 0 then pure (some (fs, vol)) else firstResolving disk fss

/-- The entries of the table are those of the list, in order. -/
def Registered (fss : List (Resolver H)) (filesystems : Filesystems H) : Prop :=
  ∀ i, filesystems i = fss[i]?

theorem Registered.empty : Registered ([] : List (Resolver H)) fun _ => none := fun _ => rfl

theorem fsFreeLoop_registered {fss : List (Resolver H)} {filesystems : Filesystems H}
    (h : Registered fss filesystems) {n i : Nat} (hi : i ≤ fss.length) :
    fsFreeLoop filesystems n i = if fss.length < i + n then some fss.length else none := by
  induction n generalizing i with
  | zero => rw [fsFreeLoop, if_neg (by omega)]
  | succ n ih =>
      rw [fsFreeLoop, h i]
      rcases Nat.lt_or_ge i fss.length with hlt | hge
      · rw [List.getElem?_eq_getElem hlt, ← Nat.add_assoc, Nat.add_right_comm]
        exact ih hlt
      · obtain rfl : i = fss.length := by omega
        rw [List.getElem?_eq_none le_rfl, if_pos (by omega)]

/-- One more is registered behind the others, while there is an entry for it. -/
theorem insert_registered {fss : List (Resolver H)} {filesystems : Filesystems H}
    (h : Registered fss filesystems) (fs : Resolver H) :
    if fss.length < peachosMaxFilesystems then
      ∃ filesystems', fsInsertFilesystem fs filesystems = .ok filesystems' ∧
        Registered (fss ++ [fs]) filesystems'
    else fsInsertFilesystem fs filesystems = .error .diverges := by
  have hfree := fsFreeLoop_registered h (n := peachosMaxFilesystems) (Nat.zero_le _)
  rw [Nat.zero_add] at hfree
  rw [fsInsertFilesystem, fsGetFreeFilesystem, hfree]
  by_cases hroom : fss.length < peachosMaxFilesystems
  · rw [if_pos hroom, if_pos hroom]
    refine ⟨_, rfl, fun i => ?_⟩
    by_cases hi : i = fss.length
    · rw [hi, Function.update_self]
      simp
    · rw [Function.update_of_ne hi, h i]
      rcases Nat.lt_or_ge i fss.length with hlt | hge
      · rw [List.getElem?_append_left hlt]
      · rw [List.getElem?_eq_none hge, List.getElem?_eq_none (by simp; omega)]
  · rw [if_neg hroom, if_neg hroom]

theorem insertAll_registered (rest : List (Resolver H)) {fss : List (Resolver H)}
    {filesystems : Filesystems H} (h : Registered fss filesystems) (hroom : fss.length ≤ peachosMaxFilesystems) :
    if fss.length + rest.length ≤ peachosMaxFilesystems then
      ∃ filesystems', insertAll rest filesystems = .ok filesystems' ∧
        Registered (fss ++ rest) filesystems'
    else insertAll rest filesystems = .error .diverges := by
  induction rest generalizing fss filesystems with
  | nil =>
      rw [List.length_nil, Nat.add_zero, if_pos hroom, List.append_nil]
      exact ⟨filesystems, rfl, h⟩
  | cons fs rest ih =>
      have hinsert := insert_registered h fs
      by_cases hlt : fss.length < peachosMaxFilesystems
      · rw [if_pos hlt] at hinsert
        obtain ⟨filesystems₁, hok, hreg⟩ := hinsert
        have hrest := ih hreg (by rw [List.length_append]; exact hlt)
        rw [List.append_assoc, List.singleton_append, List.length_append, List.length_singleton,
          Nat.add_assoc, Nat.add_comm 1] at hrest
        rw [insertAll, hok]
        exact hrest
      · rw [if_neg hlt] at hinsert
        rw [if_neg (by rw [List.length_cons]; omega), insertAll, hinsert]
        rfl

theorem resolveLoop_registered {fss : List (Resolver H)} {filesystems : Filesystems H}
    (h : Registered fss filesystems) (disk : Disk) {n i : Nat} (hend : fss.length ≤ i + n) :
    fsResolveLoop filesystems disk n i = firstResolving disk (fss.drop i) := by
  induction n generalizing i with
  | zero =>
      rw [List.drop_eq_nil_of_le (by omega)]
      rfl
  | succ n ih =>
      have hrest := ih (i := i + 1) (by omega)
      rw [fsResolveLoop, h i]
      rcases Nat.lt_or_ge i fss.length with hlt | hge
      · rw [List.getElem?_eq_getElem hlt, List.drop_eq_getElem_cons hlt, firstResolving, hrest]
      · rw [List.getElem?_eq_none hge, hrest, List.drop_eq_nil_of_le hge,
          List.drop_eq_nil_of_le (by omega)]

/-- **Filesystems are tried in the order they were registered in.**  Up to twelve can be registered,
and with one more `fs_insert_filesystem` never returns. -/
theorem insertAll_resolves (fss : List (Resolver H)) :
    (insertAll fss (fun _ => none) = .error .diverges ↔ peachosMaxFilesystems < fss.length) ∧
      ∀ filesystems, insertAll fss (fun _ => none) = .ok filesystems →
        ∀ disk, fsResolve filesystems disk = firstResolving disk fss := by
  have hall := insertAll_registered fss (Registered.empty (H := H)) (Nat.zero_le _)
  rw [List.length_nil, Nat.zero_add, List.nil_append] at hall
  by_cases hroom : fss.length ≤ peachosMaxFilesystems
  · rw [if_pos hroom] at hall
    obtain ⟨filesystems, hok, hreg⟩ := hall
    refine ⟨iff_of_false (by rw [hok]; nofun) (by omega), fun filesystems' hok' disk => ?_⟩
    cases hok.symm.trans hok'
    exact resolveLoop_registered hreg disk (by omega)
  · rw [if_neg hroom] at hall
    refine ⟨iff_of_true hall (by omega), fun filesystems' hok' => ?_⟩
    rw [hall] at hok'
    cases hok'

/-! ### The disk -/

/-- `fat16_init`. -/
def fat16Init (alloc : Allocator H) : Resolver H := ⟨fat16Resolve alloc⟩

/-- `fs_load`. -/
def fsLoad (alloc : Allocator H) : Except Fault (Filesystems H) :=
  fsInsertFilesystem (fat16Init alloc) fun _ => none

/-- `disk_search_and_init`: the volume of `disk`, or nothing when `disk.filesystem` is `NULL`. -/
def diskSearchAndInit (filesystems : Filesystems H) (disk : Disk) : K H (Option Volume) := do
  match ← fsResolve filesystems disk with
  | none => pure none
  | some (_, vol) => pure vol

/-- `fs_init` and `disk_search_and_init`, as `kernel_main` calls them. -/
def mountDisk (alloc : Allocator H) (disk : Disk) : K H (Option Volume) := do
  let filesystems ← Exec.lift (fsLoad alloc)
  diskSearchAndInit filesystems disk

variable {alloc : Allocator H} {disk : Disk}

theorem fsLoad_registered (alloc : Allocator H) :
    ∃ filesystems, fsLoad alloc = .ok filesystems ∧ Registered [fat16Init alloc] filesystems := by
  have hinsert := insert_registered (Registered.empty (H := H)) (fat16Init alloc)
  rwa [if_pos (show ([] : List (Resolver H)).length < peachosMaxFilesystems from Nat.succ_pos 11)]
    at hinsert

/-- With FAT16 registered alone, a disk is mounted as `fat16_resolve` says. -/
theorem mountDisk_eq (alloc : Allocator H) (disk : Disk) :
    mountDisk alloc disk = (do
      let (res, vol) ← fat16Resolve alloc disk
      pure (if res = 0 then vol else none)) := by
  obtain ⟨filesystems, hok, hreg⟩ := fsLoad_registered alloc
  have hresolve : fsResolve filesystems disk = firstResolving disk [fat16Init alloc] :=
    resolveLoop_registered hreg disk (Nat.succ_le_of_lt (Nat.succ_pos 11))
  rw [mountDisk, hok]
  show diskSearchAndInit filesystems disk = _
  rw [diskSearchAndInit, hresolve, firstResolving, fat16Init, bind_assoc]
  congr 1
  funext ⟨res, vol⟩
  by_cases hres : res = 0
  · simp [hres]
  · simp [hres, firstResolving]

theorem mountDisk_eq_ok {s s' : KState H} {r : Option Volume} :
    mountDisk alloc disk s = .ok (r, s') ↔ ∃ res vol,
      fat16Resolve alloc disk s = .ok ((res, vol), s') ∧ r = if res = 0 then vol else none := by
  rw [mountDisk_eq, Exec.bind_eq_ok]
  constructor
  · rintro ⟨⟨res, vol⟩, s₁, hresolve, h⟩
    cases h
    exact ⟨res, vol, hresolve, rfl⟩
  · rintro ⟨res, vol, hresolve, rfl⟩
    exact ⟨(res, vol), s', hresolve, rfl⟩

/-- A disk without the signature is refused. -/
theorem resolve_refused (hsucc : alloc.Succeeds) (hsig : fatSignature (bootHeader disk) ≠ 0x29)
    (s : KState H) : ∃ s', fat16Resolve alloc disk s = .ok ((-efsnotus, none), s') := by
  obtain ⟨pos, hinit⟩ := initPrivate_ok hsucc s.heap
    (show (⟨(alloc.kzalloc 92 s.heap).2, s.pos⟩ : KState H).heap = _ from rfl)
  have hstream := diskstreamerNew_ok hsucc (⟨privateTaken alloc s.heap, pos⟩ : KState H)
  have hread : fat16ReadVolume alloc disk ⟨streamTaken alloc (privateTaken alloc s.heap), pos⟩ =
      .ok ((-efsnotus, none), ⟨streamTaken alloc (privateTaken alloc s.heap), pos⟩) := by
    rw [fat16ReadVolume, bootHeader_read, Exec.lift_ok_bind]
    dsimp only
    rw [if_neg (not_not.mpr rfl), if_pos hsig]
    rfl
  have hcall : kzalloc alloc 92 s =
      .ok ((alloc.kzalloc 92 s.heap).1, ⟨(alloc.kzalloc 92 s.heap).2, s.pos⟩) := rfl
  rw [fat16Resolve, Exec.bind_ok hcall, Exec.bind_ok hinit, Exec.bind_ok hstream,
    Exec.bind_ok hread]
  exact ⟨_, rfl⟩

/-- With the signature, `fat16_resolve` returns only when the slots of the root directory can be
counted. -/
theorem resolve_counts (hsig : fatSignature (bootHeader disk) = 0x29) {s s' : KState H}
    {r : Int × Option Volume} (h : fat16Resolve alloc disk s = .ok (r, s')) :
    ∃ n T, SlotCount disk (storedRoot disk (.ofBytes (bootHeader disk))).start n T := by
  obtain ⟨fatPrivate, s₁, -, h⟩ := Exec.bind_eq_ok.mp h
  obtain ⟨⟨⟩, s₂, -, h⟩ := Exec.bind_eq_ok.mp h
  obtain ⟨stream, s₃, -, h⟩ := Exec.bind_eq_ok.mp h
  obtain ⟨found, s₄, hread, -⟩ := Exec.bind_eq_ok.mp h
  rw [fat16ReadVolume, bootHeader_read, Exec.lift_ok_bind] at hread
  dsimp only at hread
  rw [if_neg (not_not.mpr rfl), if_neg (not_not.mpr hsig)] at hread
  obtain ⟨directory, s₅, hroot, -⟩ := Exec.bind_eq_ok.mp hread
  exact getRootDirectory_count hroot

/-- What is mounted is the volume of the disk, with the slots of its root directory counted. -/
theorem mountDisk_some (hsucc : alloc.Succeeds) {vol : Volume} {s s' : KState H}
    (h : mountDisk alloc disk s = .ok (some vol, s')) :
    fatSignature (bootHeader disk) = 0x29 ∧ ∃ n T addr,
      SlotCount disk (storedRoot disk (.ofBytes (bootHeader disk))).start n T ∧
      vol = resolvedVolume disk addr T := by
  obtain ⟨res, vol', hresolve, hr⟩ := mountDisk_eq_ok.mp h
  by_cases hsig : fatSignature (bootHeader disk) = 0x29
  · obtain ⟨n, T, hcount⟩ := resolve_counts hsig hresolve
    obtain ⟨stream, pos, hresolve'⟩ := resolve_of_count hsucc hsig hcount s
    cases hresolve.symm.trans hresolve'
    cases hr
    exact ⟨hsig, n, T, _, hcount, rfl⟩
  · obtain ⟨s₁, hresolve'⟩ := resolve_refused hsucc hsig s
    cases hresolve.symm.trans hresolve'
    cases hr

/-- **A disk is mounted** exactly when it has the signature and the slots of its root directory can
be counted; it is refused exactly when it has not the signature. -/
theorem mount_iff (hsucc : alloc.Succeeds) (disk : Disk) (s : KState H) :
    ((∃ vol s', mountDisk alloc disk s = .ok (some vol, s')) ↔
      fatSignature (bootHeader disk) = 0x29 ∧
        ∃ n T, SlotCount disk (storedRoot disk (.ofBytes (bootHeader disk))).start n T) ∧
    ((∃ s', mountDisk alloc disk s = .ok (none, s')) ↔
      fatSignature (bootHeader disk) ≠ 0x29) := by
  have hmounts : fatSignature (bootHeader disk) = 0x29 → ∀ n T,
      SlotCount disk (storedRoot disk (.ofBytes (bootHeader disk))).start n T →
        ∃ vol s', mountDisk alloc disk s = .ok (some vol, s') := by
    intro hsig n T hcount
    obtain ⟨stream, pos, hresolve⟩ := resolve_of_count hsucc hsig hcount s
    exact ⟨_, _, mountDisk_eq_ok.mpr ⟨_, _, hresolve, rfl⟩⟩
  refine ⟨⟨?_, ?_⟩, ?_, ?_⟩
  · rintro ⟨vol, s', h⟩
    obtain ⟨hsig, n, T, addr, hcount, -⟩ := mountDisk_some hsucc h
    exact ⟨hsig, n, T, hcount⟩
  · rintro ⟨hsig, n, T, hcount⟩
    exact hmounts hsig n T hcount
  · rintro ⟨s', h⟩ hsig
    obtain ⟨res, vol, hresolve, -⟩ := mountDisk_eq_ok.mp h
    obtain ⟨n, T, hcount⟩ := resolve_counts hsig hresolve
    obtain ⟨vol', s₁, h'⟩ := hmounts hsig n T hcount
    cases h.symm.trans h'
  · intro hsig
    obtain ⟨s', hresolve⟩ := resolve_refused hsucc hsig s
    exact ⟨s', mountDisk_eq_ok.mpr ⟨_, _, hresolve, rfl⟩⟩

/-! ### From the disk to the bytes of a file -/

/-- A mounted disk whose root directory is listed has it loaded. -/
theorem mountDisk_mounted (hsucc : alloc.Succeeds) {vol : Volume} {s s' : KState H}
    (h : mountDisk alloc disk s = .ok (some vol, s')) (hC : 0 < clusterBytes vol) {T : Nat}
    (hlisted : Listed vol.disk (storedRoot vol.disk vol.header) T) : Mounted vol T := by
  obtain ⟨-, n, T', addr, hcount, rfl⟩ := mountDisk_some hsucc h
  obtain ⟨n', hcount'⟩ := hlisted.counted
  obtain rfl : T = T' := hcount'.unique hcount
  exact ⟨hlisted, loadedRoot_holds _ _ _ _, hC⟩

end

/-! ### A disk with a directory -/

/-- A disk with the directory `D` in its root, and in it the file `B` of 600 bytes, in clusters 3 and
5. -/
def treeDisk : Disk where
  sector lba i :=
    if lba = 0 then
      if i = 13 ∨ i = 14 ∨ i = 16 ∨ i = 22 then 1
      else if i = 17 then 16
      else if i = 38 then 0x29
      else 0
    else if lba = 1 then
      if i = 6 then 5 else if i = 4 ∨ i = 5 ∨ i = 10 ∨ i = 11 then 0xFF else 0
    else if lba = 2 then
      if i = 0 then 0x44 else if i < 11 then 0x20 else if i = 11 then 0x10
      else if i = 26 then 2 else 0
    else if lba = 3 then
      if i = 0 then 0x42 else if i < 11 then 0x20 else if i = 26 then 3
      else if i = 28 then 0x58 else if i = 29 then 2 else 0
    else lba.setWidth 8

/-- Its volume, once it is mounted. -/
def treeVolume : Volume := resolvedVolume treeDisk (rootBlock .ample treeDisk 0).1 1

/-- The slot of `D`. -/
def slotD : List U8 := bytesAt treeDisk 0x400 32

/-- The slot of `B`. -/
def slotB : List U8 := bytesAt treeDisk 0x600 32

/-- The clusters of `B`. -/
def clustersB (i : Nat) : Int := if i = 0 then 3 else 5

theorem treeDisk_mount :
    ∃ s₁, mountDisk .ample treeDisk ⟨0, fun _ => 0⟩ = .ok (some treeVolume, s₁) := by
  have hcount : SlotCount treeDisk
      (storedRoot treeDisk (.ofBytes (bootHeader treeDisk))).start 1 1 :=
    ⟨by decide, by decide, by decide, by decide⟩
  obtain ⟨stream, pos, h⟩ := resolve_of_count Allocator.ample_succeeds
    (show fatSignature (bootHeader treeDisk) = 0x29 by decide) hcount ⟨0, fun _ => 0⟩
  exact ⟨_, mountDisk_eq_ok.mpr ⟨_, _, h, rfl⟩⟩

/-- The disk is mounted, and one without the signature is not. -/
theorem treeDisk_mounts :
    (∃ vol s', mountDisk .ample treeDisk ⟨0, fun _ => 0⟩ = .ok (some vol, s')) ∧
      ∃ s', mountDisk .ample ⟨fun _ _ => 0⟩ ⟨0, fun _ => 0⟩ = .ok (none, s') := by
  refine ⟨(mount_iff Allocator.ample_succeeds treeDisk _).1.mpr ⟨by decide, 1, 1, ?_⟩,
    (mount_iff Allocator.ample_succeeds _ _).2.mpr (by decide)⟩
  exact ⟨by decide, by decide, by decide, by decide⟩

/-- `D/B` leads to the file. -/
theorem treeVolume_tree : Tree treeVolume (storedRoot treeVolume.disk treeVolume.header)
    [[0x64], [0x62]] (.ofBytes slotB) := by
  refine .down (T := 1) ⟨⟨1, ?_⟩, ?_⟩
    (show Names _ 1 [0x64] slotD from ⟨⟨0, by decide, by decide, ?_⟩, ?_⟩) ?_
    (.file (T := 1) ⟨⟨1, ?_⟩, ?_⟩ ⟨⟨0, by decide, by decide, ?_⟩, ?_⟩ ?_)
  · exact ⟨by decide, by decide, by decide, by decide⟩
  · exact ⟨by decide, by decide⟩
  · omega
  · decide
  · decide
  · exact ⟨by decide, by decide, by decide, by decide⟩
  · exact ⟨by decide, by decide⟩
  · omega
  · decide
  · decide

theorem treeVolume_stored : Stored Nat treeVolume (.ofBytes slotB) clustersB 1 := by
  have hchain : Chain Nat treeVolume clustersB 1 := by
    refine ⟨fun i hi => ?_, fun i hi => ?_, fun i hi => ?_⟩
    · have h := fat16GetClusterForOffset_settles (H := Nat) treeVolume
        (show (0 : Int) ≤ clustersB 0 by decide) (by decide)
        ((i * clusterBytes treeVolume : Nat) : Int) (by decide)
      have hahead : clusterAhead treeVolume
          (((i * clusterBytes treeVolume : Nat) : Int).tdiv (sizeOfClusterBytes treeVolume)).toNat
          (clustersB 0) = clustersB i := by
        rcases (show i = 0 ∨ i = 1 by omega) with rfl | rfl <;> decide
      rwa [hahead] at h
    · rcases (show i = 0 ∨ i = 1 by omega) with rfl | rfl <;> decide
    · rcases (show i = 0 ∨ i = 1 by omega) with rfl | rfl <;> decide
  exact ⟨hchain, by decide, by decide, by decide, by decide⟩

end KernelNES.Fs
