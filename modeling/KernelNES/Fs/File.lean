import KernelNES.Fs.Pparser
import Mathlib.Logic.Function.Basic

/-!
# Fs — File

`src/fs/file.c`: the table of open files.  A filesystem driver is the record of its functions, over
the state `H` of the rest of the kernel.  An entry of the table owns what it points to, so the
descriptor is part of its entry.  There is one disk, `disk_get(0)`, and the pointer to it that a
descriptor keeps is left out; so is the buffer of `fread`, whose bytes are returned.
-/

namespace KernelNES.Fs
open KernelNES.Lib KernelNES.Memory

/-- `FILE_MODE`. -/
inductive FileMode where
  | read
  | write
  | append
  | invalid
  deriving DecidableEq, Repr

/-- `FILE_SEEK_MODE`, or another value. -/
inductive FileSeekMode where
  | seekSet
  | seekCur
  | seekEnd
  | other
  deriving DecidableEq, Repr

/-- `struct file_stat`. -/
structure FileStat where
  flags : U32
  filesize : U32
  deriving DecidableEq, Repr

/-- `struct filesystem`, once its disk is resolved. -/
structure Filesystem (H : Type) where
  fsOpen : (path : List PathPart) → (mode : FileMode) → Exec Fault H U32
  fsRead : (privateData size nmemb : U32) → Exec Fault H (Int × List U8)
  fsSeek : (privateData offset : U32) → (seekMode : FileSeekMode) → Exec Fault H Int
  fsStat : (privateData : U32) → Exec Fault H (Int × Option FileStat)
  fsClose : (privateData : U32) → Exec Fault H Int

/-- `struct disk`; `filesystem` is `none` when no filesystem resolved it. -/
structure MountedDisk (H : Type) where
  filesystem : Option (Filesystem H)

/-- `disk_get`. -/
def diskGet {H : Type} (disk : MountedDisk H) (index : Int) : Option (MountedDisk H) :=
  if index ≠ 0 then none else some disk

/-- `struct file_descriptor`. -/
structure FileDescriptor (H : Type) where
  index : Int
  filesystem : Option (Filesystem H)
  privateData : U32

/-- `PEACHOS_MAX_FILE_DESCRIPTORS`. -/
def peachosMaxFileDescriptors : Nat := 512

/-- `file_descriptors`, and the state of the rest of the kernel. -/
structure FileState (H : Type) where
  fileDescriptors : Nat → Ref (FileDescriptor H)
  kernel : H

/-- `file_get_mode_by_string`. -/
def fileGetModeByString (str : Name) : FileMode :=
  if strncmp str [0x72] 1 = 0 then .read
  else if strncmp str [0x77] 1 = 0 then .write
  else if strncmp str [0x61] 1 = 0 then .append
  else .invalid

section
variable {H α : Type}

/-! ### The table -/

/-- `fs_init`, for the table of open files. -/
def fsInit (kernel : H) : FileState H :=
  { fileDescriptors := fun _ => .null, kernel }

/-- What the rest of the kernel does in a call. -/
def onKernel (x : Exec Fault H α) : Exec Fault (FileState H) α := fun s =>
  (x s.kernel).map fun (a, kernel) => (a, { s with kernel })

/-- `file_descriptors[i] = p`. -/
def setFileDescriptor (i : Int) (p : Ref (FileDescriptor H)) : Exec Fault (FileState H) Unit :=
  fun s =>
    if 0 ≤ i ∧ i < peachosMaxFileDescriptors then
      .ok ((), { s with fileDescriptors := Function.update s.fileDescriptors i.toNat p })
    else .error .outOfBounds

/-- The loop of `file_new_descriptor` on the `n` entries from `i` on, up to the first free one. -/
def firstFree (fileDescriptors : Nat → Ref (FileDescriptor H)) : (n i : Nat) → Option Nat
  | 0, _ => none
  | n + 1, i => if (fileDescriptors i).isNull then some i else firstFree fileDescriptors n (i + 1)

/-- `file_new_descriptor`: an error, or the entry of the new descriptor, the pointer to it and what
it points to. -/
def fileNewDescriptor (alloc : Allocator H) :
    Exec Fault (FileState H) (Except Int (Nat × U32 × FileDescriptor H)) := do
  match firstFree (← get).fileDescriptors peachosMaxFileDescriptors 0 with
  | none => pure (.error (-enomem))
  | some i => do
    let ptr ← onKernel (alloc.kzallocWritten 16)
    let desc := { index := i + 1, filesystem := none, privateData := 0 }
    setFileDescriptor i (.live ptr desc)
    pure (.ok (i, ptr, desc))

/-- `file_get_descriptor`. -/
def fileGetDescriptor (s : FileState H) (fd : Int) : Ref (FileDescriptor H) :=
  if fd ≤ 0 ∨ fd ≥ peachosMaxFileDescriptors then .null else s.fileDescriptors (fd - 1).toNat

/-! ### fopen -/

/-- `fopen` up to the driver's `open`: an error, or the filesystem and the private data. -/
def fopenPrivate (alloc : Allocator H) (disk : MountedDisk H) (filename modeStr : Name) :
    Exec Fault H (Except Int (Filesystem H × U32)) := do
  let some rootPath ← pathparserParse alloc filename | pure (.error (-einvarg))
  if rootPath.first = [] then pure (.error (-einvarg))
  else
    let some disk := diskGet disk rootPath.driveNo | pure (.error (-eio))
    let some filesystem := disk.filesystem | pure (.error (-eio))
    let mode := fileGetModeByString modeStr
    if mode = .invalid then pure (.error (-einvarg))
    else do
      let descriptorPrivateData ← filesystem.fsOpen rootPath.first mode
      if descriptorPrivateData.toInt < 0 then pure (.error descriptorPrivateData.toInt)
      else pure (.ok (filesystem, descriptorPrivateData))

/-- `fopen` up to its label `out`: `res`, and what `desc` points to. -/
def fopenBody (alloc : Allocator H) (disk : MountedDisk H) (filename modeStr : Name) :
    Exec Fault (FileState H) (Int × Ref (FileDescriptor H)) := do
  match ← onKernel (fopenPrivate alloc disk filename modeStr) with
  | .error res => pure (res, .null)
  | .ok (filesystem, privateData) => do
    match ← fileNewDescriptor alloc with
    | .error res => pure (res, .null)
    | .ok (i, ptr, desc) => do
      let desc := { desc with filesystem := some filesystem, privateData }
      setFileDescriptor i (.live ptr desc)
      pure (desc.index, .live ptr desc)

/-- `fopen`. -/
def fopen (alloc : Allocator H) (disk : MountedDisk H) (filename modeStr : Name) :
    Exec Fault (FileState H) Int := do
  let (res, _) ← fopenBody alloc disk filename modeStr
  pure (if res < 0 then 0 else res)

/-! ### The calls on an open file -/

/-- `fseek`, `fstat` and `fclose`, and `fread` once its arguments are checked: `rejected` when
`file_get_descriptor` gives `NULL`, and otherwise what `serve` does with the descriptor and its
filesystem. -/
def withDescriptor (fd : Int) (rejected : α)
    (serve : U32 → FileDescriptor H → Filesystem H → Exec Fault (FileState H) α) :
    Exec Fault (FileState H) α := do
  let p := fileGetDescriptor (← get) fd
  if p.isNull then pure rejected
  else do
    let desc ← Exec.lift p.load
    match desc.filesystem with
    | none => Exec.fault .nullDeref
    | some filesystem => serve p.addr desc filesystem

/-- `fread`: the result and the bytes written to `ptr`. -/
def fread (size nmemb : U32) (fd : Int) : Exec Fault (FileState H) (Int × List U8) :=
  if size = 0 ∨ nmemb = 0 ∨ fd < 1 then pure (-einvarg, [])
  else withDescriptor fd (-einvarg, []) fun _ desc filesystem =>
    onKernel (filesystem.fsRead desc.privateData size nmemb)

/-- `fseek`; the driver takes the offset as unsigned. -/
def fseek (fd offset : Int) (whence : FileSeekMode) : Exec Fault (FileState H) Int :=
  withDescriptor fd (-eio) fun _ desc filesystem =>
    onKernel (filesystem.fsSeek desc.privateData (BitVec.ofInt 32 offset) whence)

/-- `fstat`: the result and what is written to `stat`. -/
def fstat (fd : Int) : Exec Fault (FileState H) (Int × Option FileStat) :=
  withDescriptor fd (-eio, none) fun _ desc filesystem =>
    onKernel (filesystem.fsStat desc.privateData)

/-- `file_free_descriptor`. -/
def fileFreeDescriptor (alloc : Allocator H) (ptr : U32) (desc : FileDescriptor H) :
    Exec Fault (FileState H) Unit := do
  setFileDescriptor (desc.index - 1) .null
  onKernel (alloc.callKfree ptr)

/-- `fclose` once it has its descriptor. -/
def closeDescriptor (alloc : Allocator H) (ptr : U32) (desc : FileDescriptor H)
    (filesystem : Filesystem H) : Exec Fault (FileState H) Int := do
  let res ← onKernel (filesystem.fsClose desc.privateData)
  if res = 0 then fileFreeDescriptor alloc ptr desc
  pure res

/-- `fclose`. -/
def fclose (alloc : Allocator H) (fd : Int) : Exec Fault (FileState H) Int :=
  withDescriptor fd (-eio) (closeDescriptor alloc)

/-! ### What a call can do -/

variable {alloc : Allocator H} {disk : MountedDisk H} {filename modeStr : Name} {s s' : FileState H}

/-- What the kernel answers, with its state put back. -/
theorem onKernel_eq_ok {x : Exec Fault H α} {a : α} :
    onKernel x s = .ok (a, s') ↔
      ∃ kernel, x s.kernel = .ok (a, kernel) ∧ s' = { s with kernel } := by
  unfold onKernel
  cases x s.kernel with
  | error e => simp [Except.map]
  | ok r => simp [Except.map, Prod.ext_iff, eq_comm]

theorem setFileDescriptor_eq_ok {i : Nat} (hi : i < peachosMaxFileDescriptors)
    (p : Ref (FileDescriptor H)) (s : FileState H) :
    setFileDescriptor i p s =
      .ok ((), { s with fileDescriptors := Function.update s.fileDescriptors i p }) := by
  unfold setFileDescriptor
  rw [if_pos ⟨by omega, by exact_mod_cast hi⟩, Int.toNat_natCast]

/-- Entry `i` is the first free one. -/
def FirstFree (fileDescriptors : Nat → Ref (FileDescriptor H)) (i : Nat) : Prop :=
  (fileDescriptors i).isNull ∧ ∀ j < i, (fileDescriptors j).isNull = false

/-- The first free slot, among those not passed yet. -/
theorem firstFree_eq_some {table : Nat → Ref (FileDescriptor H)} {j : Nat} :
    ∀ {n i : Nat}, (∀ k < i, (table k).isNull = false) →
      (firstFree table n i = some j ↔ j < i + n ∧ FirstFree table j) := by
  -- the entries before `i` have been looked at and are taken
  intro n
  induction n with
  | zero =>
      intro i hi
      simp only [firstFree, reduceCtorEq, false_iff, not_and]
      intro hj hfree
      have := hi j (by omega)
      simp [hfree.1] at this
  | succ n ih =>
      intro i hi
      rw [firstFree]
      split
      · rename_i hnull
        simp only [Option.some.injEq]
        constructor
        · rintro rfl
          exact ⟨by omega, hnull, hi⟩
        · rintro ⟨-, hj, hfree⟩
          rcases Nat.lt_trichotomy i j with hlt | heq | hlt
          · exact absurd hnull (by simp [hfree i hlt])
          · exact heq
          · exact absurd hj (by simp [hi j hlt])
      · rename_i hnull
        have hi' : ∀ k < i + 1, (table k).isNull = false := by
          intro k hk
          rcases Nat.lt_succ_iff_lt_or_eq.mp hk with hk | rfl
          · exact hi k hk
          · simpa using hnull
        rw [ih hi', Nat.add_right_comm, Nat.add_assoc]

/-- None of the slots is free. -/
theorem firstFree_eq_none {table : Nat → Ref (FileDescriptor H)} :
    ∀ {n i : Nat}, firstFree table n i = none →
      ∀ j, i ≤ j → j < i + n → (table j).isNull = false := by
  intro n
  induction n with
  | zero => intro i _ j _ _; omega
  | succ n ih =>
    intro i h j hle hlt
    rw [firstFree] at h
    split at h
    · cases h
    · rename_i hnull
      rcases Nat.eq_or_lt_of_le hle with rfl | hlt'
      · simpa using hnull
      · exact ih h j hlt' (by omega)

/-- Every entry is taken. -/
def TableFull (fileDescriptors : Nat → Ref (FileDescriptor H)) : Prop :=
  ∀ i < peachosMaxFileDescriptors, (fileDescriptors i).isNull = false

/-- What `file_new_descriptor` does. -/
theorem fileNewDescriptor_cases {r : Except Int (Nat × U32 × FileDescriptor H)}
    (h : fileNewDescriptor alloc s = .ok (r, s')) :
    (r = .error (-enomem) ∧ TableFull s.fileDescriptors ∧ s' = s) ∨
    ∃ i ptr kernel, i < peachosMaxFileDescriptors ∧ FirstFree s.fileDescriptors i ∧
      alloc.kzallocWritten 16 s.kernel = .ok (ptr, kernel) ∧
      r = .ok (i, ptr, { index := i + 1, filesystem := none, privateData := 0 }) ∧
      s' = { fileDescriptors := Function.update s.fileDescriptors i
               (.live ptr { index := i + 1, filesystem := none, privateData := 0 }), kernel } := by
  unfold fileNewDescriptor at h
  rw [Exec.get_bind] at h
  cases hi : firstFree s.fileDescriptors peachosMaxFileDescriptors 0 with
  | none =>
    rw [hi] at h
    cases h
    exact .inl ⟨rfl, fun j hj => firstFree_eq_none hi j j.zero_le (by omega), rfl⟩
  | some i =>
    rw [hi] at h
    obtain ⟨hlt, hfree⟩ := (firstFree_eq_some (by omega)).mp hi
    obtain ⟨ptr, s₁, hx, h⟩ := Exec.bind_eq_ok.mp h
    obtain ⟨kernel, halloc, rfl⟩ := onKernel_eq_ok.mp hx
    rw [Exec.bind_ok (setFileDescriptor_eq_ok (by omega) _ _)] at h
    cases h
    exact .inr ⟨i, ptr, kernel, by omega, hfree, halloc, rfl, rfl⟩

/-- What `fopen` does up to the driver's `open`: it fails with an error and does no more than parse
the path, or the driver opens it. -/
theorem fopenPrivate_cases {h h' : H} {r : Except Int (Filesystem H × U32)}
    (hopen : fopenPrivate alloc disk filename modeStr h = .ok (r, h')) :
    ∃ root h₁, pathparserParse alloc filename h = .ok (root, h₁) ∧
      ((∃ e < 0, r = .error e ∧ h' = h₁) ∨
        ∃ filesystem path privateData, disk.filesystem = some filesystem ∧
          filesystem.fsOpen path (fileGetModeByString modeStr) h₁ = .ok (privateData, h') ∧
          r = if privateData.toInt < 0 then .error privateData.toInt
            else .ok (filesystem, privateData)) := by
  unfold fopenPrivate at hopen
  obtain ⟨root, h₁, hparse, hopen⟩ := Exec.bind_eq_ok.mp hopen
  refine ⟨root, h₁, hparse, ?_⟩
  cases root with
  | none => cases hopen; exact .inl ⟨_, by decide, rfl, rfl⟩
  | some root =>
    dsimp only at hopen
    split at hopen
    · cases hopen; exact .inl ⟨_, by decide, rfl, rfl⟩
    by_cases hdrive : root.driveNo = 0
    · have hdisk : diskGet disk root.driveNo = some disk := if_neg (not_not.mpr hdrive)
      rw [hdisk] at hopen
      dsimp only at hopen
      cases hfs : disk.filesystem with
      | none => rw [hfs] at hopen; cases hopen; exact .inl ⟨_, by decide, rfl, rfl⟩
      | some filesystem =>
        rw [hfs] at hopen
        dsimp only at hopen
        split at hopen
        · cases hopen; exact .inl ⟨_, by decide, rfl, rfl⟩
        · obtain ⟨priv, h₂, hdriver, hopen⟩ := Exec.bind_eq_ok.mp hopen
          refine .inr ⟨filesystem, root.first, priv, rfl, ?_⟩
          split at hopen
          · rename_i hneg
            cases hopen
            exact ⟨hdriver, (if_pos hneg).symm⟩
          · rename_i hpos
            cases hopen
            exact ⟨hdriver, (if_neg hpos).symm⟩
    · have hdisk : diskGet disk root.driveNo = none := if_pos hdrive
      rw [hdisk] at hopen
      cases hopen
      exact .inl ⟨_, by decide, rfl, rfl⟩

/-- An error of `fopen` is negative. -/
theorem fopenPrivate_error {h h' : H} {res : Int}
    (hopen : fopenPrivate alloc disk filename modeStr h = .ok (.error res, h')) : res < 0 := by
  obtain ⟨root, h₁, -, ⟨e, he, hres, -⟩ | ⟨filesystem, path, priv, -, -, hres⟩⟩ :=
    fopenPrivate_cases hopen
  · cases hres
    exact he
  · split at hres
    · cases hres
      assumption
    · cases hres

/-- What `fopen` does up to `out`: it fails and leaves the table alone, which is full unless the
file was not opened, or the first free entry takes the new descriptor. -/
theorem fopenBody_cases {res : Int} {desc : Ref (FileDescriptor H)}
    (h : fopenBody alloc disk filename modeStr s = .ok ((res, desc), s')) :
    (res < 0 ∧ s'.fileDescriptors = s.fileDescriptors ∧
      ∃ r, fopenPrivate alloc disk filename modeStr s.kernel = .ok (r, s'.kernel) ∧
        ((∃ e, r = .error e) ∨ TableFull s.fileDescriptors)) ∨
    ∃ filesystem privateData h₁ i ptr,
      fopenPrivate alloc disk filename modeStr s.kernel = .ok (.ok (filesystem, privateData), h₁) ∧
      i < peachosMaxFileDescriptors ∧ FirstFree s.fileDescriptors i ∧
      alloc.kzallocWritten 16 h₁ = .ok (ptr, s'.kernel) ∧ res = i + 1 ∧
      desc = .live ptr { index := i + 1, filesystem := some filesystem, privateData } ∧
      s'.fileDescriptors = Function.update s.fileDescriptors i desc := by
  unfold fopenBody at h
  obtain ⟨r, s₁, hx, h⟩ := Exec.bind_eq_ok.mp h
  obtain ⟨h₁, hopen, rfl⟩ := onKernel_eq_ok.mp hx
  cases r with
  | error e =>
    cases h
    exact .inl ⟨fopenPrivate_error hopen, rfl, _, hopen, .inl ⟨_, rfl⟩⟩
  | ok r =>
    obtain ⟨filesystem, privateData⟩ := r
    obtain ⟨r, s₂, hnew, h⟩ := Exec.bind_eq_ok.mp h
    rcases fileNewDescriptor_cases hnew with
      ⟨rfl, hfull, rfl⟩ | ⟨i, ptr, h₂, hi, hfree, halloc, rfl, rfl⟩
    · cases h
      exact .inl ⟨by decide, rfl, _, hopen, .inr hfull⟩
    · dsimp only at h
      rw [Exec.bind_ok (setFileDescriptor_eq_ok hi _ _)] at h
      cases h
      exact .inr ⟨filesystem, privateData, h₁, i, ptr, hopen, hi, hfree, halloc, rfl, rfl,
        Function.update_idem _ _ _⟩

/-- What `fopen` does when an entry is free. -/
theorem fopenBody_ok {filesystem : Filesystem H} {privateData ptr : U32} {h₁ h₂ : H} {i : Nat}
    (hopen : fopenPrivate alloc disk filename modeStr s.kernel =
      .ok (.ok (filesystem, privateData), h₁))
    (hi : i < peachosMaxFileDescriptors) (hfree : FirstFree s.fileDescriptors i)
    (halloc : alloc.kzallocWritten 16 h₁ = .ok (ptr, h₂)) :
    let desc := .live ptr { index := i + 1, filesystem := some filesystem, privateData }
    fopenBody alloc disk filename modeStr s =
      .ok ((i + 1, desc), ⟨Function.update s.fileDescriptors i desc, h₂⟩) := by
  have hfirst : firstFree s.fileDescriptors peachosMaxFileDescriptors 0 = some i :=
    (firstFree_eq_some (by omega)).mpr ⟨by omega, hfree⟩
  have hnew : fileNewDescriptor alloc { s with kernel := h₁ } =
      .ok (.ok (i, ptr, { index := i + 1, filesystem := none, privateData := 0 }),
        ⟨Function.update s.fileDescriptors i
          (.live ptr { index := i + 1, filesystem := none, privateData := 0 }), h₂⟩) := by
    unfold fileNewDescriptor
    rw [Exec.get_bind, hfirst]
    dsimp only
    rw [Exec.bind_ok (onKernel_eq_ok.mpr ⟨h₂, halloc, rfl⟩),
      Exec.bind_ok (setFileDescriptor_eq_ok hi _ _)]
    rfl
  intro desc
  unfold fopenBody
  rw [Exec.bind_ok (onKernel_eq_ok.mpr ⟨h₁, hopen, rfl⟩)]
  dsimp only
  rw [Exec.bind_ok hnew]
  dsimp only
  rw [Exec.bind_ok (setFileDescriptor_eq_ok hi _ _), Function.update_idem]
  rfl

/-- An open file is at one entry of the table. -/
theorem entry_of_live {fd : Int} {ptr : U32} {desc : FileDescriptor H}
    (h : fileGetDescriptor s fd = .live ptr desc) :
    0 < fd ∧ s.fileDescriptors (fd - 1).toNat = .live ptr desc := by
  unfold fileGetDescriptor at h
  split at h
  · cases h
  · exact ⟨by omega, h⟩

/-- A descriptor that `file_get_descriptor` gives is served. -/
theorem withDescriptor_live {fd : Int} {rejected : α} {ptr : U32} {desc : FileDescriptor H}
    {filesystem : Filesystem H}
    {serve : U32 → FileDescriptor H → Filesystem H → Exec Fault (FileState H) α}
    (h : fileGetDescriptor s fd = .live ptr desc) (hf : desc.filesystem = some filesystem) :
    withDescriptor fd rejected serve s = serve ptr desc filesystem s := by
  unfold withDescriptor
  rw [Exec.get_bind, h]
  rw [if_neg (by simp [Ref.isNull]), Ref.load, Exec.lift_ok_bind, hf]
  rfl

/-- A call on a descriptor rejects it, or serves it. -/
theorem withDescriptor_cases {fd : Int} {rejected a : α}
    {serve : U32 → FileDescriptor H → Filesystem H → Exec Fault (FileState H) α}
    (h : withDescriptor fd rejected serve s = .ok (a, s')) :
    (fileGetDescriptor s fd = .null ∧ a = rejected ∧ s' = s) ∨
    ∃ ptr desc filesystem, fileGetDescriptor s fd = .live ptr desc ∧
      desc.filesystem = some filesystem ∧ serve ptr desc filesystem s = .ok (a, s') := by
  unfold withDescriptor at h
  rw [Exec.get_bind] at h
  cases hp : fileGetDescriptor s fd with
  | null =>
    rw [hp] at h
    cases h
    exact .inl ⟨rfl, rfl, rfl⟩
  | dangling ptr =>
    rw [hp] at h
    cases h
  | live ptr desc =>
    rw [hp] at h
    rw [if_neg (by simp [Ref.isNull]), Ref.load, Exec.lift_ok_bind] at h
    cases hf : desc.filesystem with
    | none => rw [hf] at h; cases h
    | some filesystem => rw [hf] at h; exact .inr ⟨ptr, desc, filesystem, rfl, hf, h⟩

/-- What `fclose` does: it fails and leaves the table alone, or frees the entry of the descriptor
it was given. -/
theorem fclose_cases {fd res : Int} (h : fclose alloc fd s = .ok (res, s')) :
    (res ≠ 0 ∧ s'.fileDescriptors = s.fileDescriptors) ∨
    (res = 0 ∧ ∃ ptr desc, fileGetDescriptor s fd = .live ptr desc ∧
      0 ≤ desc.index - 1 ∧ desc.index - 1 < peachosMaxFileDescriptors ∧
      s'.fileDescriptors = Function.update s.fileDescriptors (desc.index - 1).toNat .null ∧
      ∃ filesystem k, desc.filesystem = some filesystem ∧
        filesystem.fsClose desc.privateData s.kernel = .ok (0, k) ∧
        alloc.callKfree ptr k = .ok ((), s'.kernel)) := by
  rcases withDescriptor_cases h with ⟨-, rfl, rfl⟩ | ⟨ptr, desc, filesystem, hp, hf, h⟩
  · exact .inl ⟨by decide, rfl⟩
  · obtain ⟨res', s₁, hx, h⟩ := Exec.bind_eq_ok.mp h
    obtain ⟨h₁, hclose, rfl⟩ := onKernel_eq_ok.mp hx
    split at h
    · rename_i hres
      obtain ⟨⟨⟩, s₂, hfree, h⟩ := Exec.bind_eq_ok.mp h
      obtain ⟨rfl, rfl⟩ := Prod.mk.inj (Except.ok.inj h)
      obtain ⟨⟨⟩, s₃, hset, hk⟩ := Exec.bind_eq_ok.mp hfree
      obtain ⟨h₂, hkfree, rfl⟩ := onKernel_eq_ok.mp hk
      unfold setFileDescriptor at hset
      split at hset
      · rename_i hb
        cases hset
        exact .inr ⟨hres, ptr, desc, hp, hb.1, hb.2, rfl, filesystem, h₁, hf, hres ▸ hclose, hkfree⟩
      · cases hset
    · rename_i hres
      cases h
      exact .inl ⟨hres, rfl⟩

end

end KernelNES.Fs
