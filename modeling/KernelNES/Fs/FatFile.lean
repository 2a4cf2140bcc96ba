import KernelNES.Fs.ClusterRead
import KernelNES.Fs.File
import KernelNES.Fs.ReadEffects

/-!
# Fs — FatFile

`fat16_open`, `fat16_read`, `fat16_seek`, `fat16_stat` and `fat16_close`, and the filesystem they
make.  A `struct fat_file_descriptor` is behind the pointer that the kernel keeps as private data,
so the state has what each pointer denotes.  What a read returns, and whether it returns, depends
only on the volume and on the descriptor it is given (`fat16Read_settles`).
-/

namespace KernelNES.Fs
open KernelNES.Lib KernelNES.Memory

/-- `struct fat_file_descriptor`. -/
structure FatFileDescriptor where
  item : Ref FatItem
  pos : U32
  deriving DecidableEq, Repr

/-- The state of the driver, with the descriptors it handed out. -/
structure FatState (H : Type) where
  driver : KState H
  descriptors : U32 → Ref FatFileDescriptor

/-- `ERROR(-code)`. -/
def errorPtr (code : Int) : U32 := BitVec.ofInt 32 (-code)

/-- `FAT_FILE_READ_ONLY`. -/
def fatFileReadOnly : U8 := 0x01

/-- `FILE_STAT_READ_ONLY`. -/
def fileStatReadOnly : U32 := 0x01

/-- The heap below the driver, for the rest of the kernel. -/
def Allocator.onFat {H : Type} (alloc : Allocator H) : Allocator (FatState H) where
  kzalloc size s :=
    let (ptr, heap) := alloc.kzalloc size s.driver.heap
    (ptr, { s with driver := { s.driver with heap } })
  kfree ptr s := { s with driver := { s.driver with heap := alloc.kfree ptr s.driver.heap } }

section
variable {H α : Type}

/-- What the driver does without the descriptors. -/
def onDriver (x : K H α) : Exec Fault (FatState H) α := fun s =>
  (x s.driver).map fun (a, driver) => (a, { s with driver })

/-- What a `struct fat_file_descriptor *` denotes. -/
def loadDescriptor (ptr : U32) : Exec Fault (FatState H) FatFileDescriptor := fun s =>
  (s.descriptors ptr).load.map fun desc => (desc, s)

/-- `*ptr = desc`, or what `ptr` denotes once its block is freed. -/
def setDescriptor (ptr : U32) (desc : Ref FatFileDescriptor) : Exec Fault (FatState H) Unit :=
  fun s => .ok ((), { s with descriptors := Function.update s.descriptors ptr desc })

/-- `fat16_open`. -/
def fat16Open (alloc : Allocator H) (vol : Volume) (path : List PathPart) (mode : FileMode) :
    Exec Fault (FatState H) U32 :=
  if mode ≠ .read then pure (errorPtr erdonly)
  else do
    let descriptor ← onDriver (kzalloc alloc 8)
    if descriptor = 0 then pure (errorPtr enomem)
    else
      match path with
      | [] => Exec.fault .nullDeref
      | part :: next =>
        let item ← onDriver (fat16GetDirectoryEntry alloc vol part.part (next.map PathPart.part))
        if item = .null then do
          onDriver (kfree alloc descriptor)
          pure (errorPtr eio)
        else do
          setDescriptor descriptor (.live descriptor { item, pos := 0 })
          pure descriptor

/-- What the member `item` of a `struct fat_item` points to.  In a directory that is the
`struct fat_directory`, which is smaller: the cluster of a directory item lies past its end. -/
def FatItem.itemMember : FatItem → Except Fault FatDirectoryItem
  | .directory p => do
    let _ ← p.load
    .error .outOfBounds
  | .file item => item.load

/-- The loop of `fat16_read` with `n` rounds left: `res`, `offset` and the bytes written. -/
def fat16ReadLoop (vol : Volume) (item : FatItem) (size : U32) :
    (n : Nat) → (offset : Int) → K H (Int × Int × List U8)
  | 0, offset => pure (0, offset, [])
  | n + 1, offset => do
    let contents ← Exec.lift item.itemMember
    let (res, out) ←
      fat16ReadInternal vol (fat16GetFirstCluster contents).toInt offset size.toInt
    if res < 0 then pure (res, offset, out)
    else
      let (res, offset, rest) ← fat16ReadLoop vol item size n (wrap32 (offset + size.toNat))
      pure (res, offset, out ++ rest)

/-- `fat16_read`: the result and the bytes written to `out_ptr`. -/
def fat16Read (vol : Volume) (descriptor size nmemb : U32) :
    Exec Fault (FatState H) (Int × List U8) := do
  let desc ← loadDescriptor descriptor
  let fatItem ← Exec.lift desc.item.load
  let (res, offset, out) ← onDriver (fat16ReadLoop vol fatItem size nmemb.toNat desc.pos.toInt)
  if res < 0 then pure (res, out)
  else do
    setDescriptor descriptor (.live descriptor { desc with pos := BitVec.ofInt 32 offset })
    pure (nmemb.toInt, out)

/-- The status `fat16_seek` ends with and the new position, for a file of `filesize` bytes. -/
def seekPosition (filesize pos offset : U32) (seekMode : FileSeekMode) : Int × U32 :=
  if offset ≥ filesize then (-eio, pos)
  else
    match seekMode with
    | .seekSet => (0, offset)
    | .seekEnd => (-eunimp, pos)
    | .seekCur => (0, pos + offset)
    | .other => (-einvarg, pos)

/-- `fat16_seek`. -/
def fat16Seek (private' offset : U32) (seekMode : FileSeekMode) :
    Exec Fault (FatState H) Int := do
  let desc ← loadDescriptor private'
  match ← Exec.lift desc.item.load with
  | .directory _ => pure (-einvarg)
  | .file item => do
    let ritem ← Exec.lift item.load
    let (res, pos) := seekPosition ritem.filesize desc.pos offset seekMode
    setDescriptor private' (.live private' { desc with pos })
    pure res

/-- `fat16_stat`. -/
def fat16Stat (private' : U32) : Exec Fault (FatState H) (Int × Option FileStat) := do
  let desc ← loadDescriptor private'
  match ← Exec.lift desc.item.load with
  | .directory _ => pure (-einvarg, none)
  | .file item => do
    let ritem ← Exec.lift item.load
    let flags := if ritem.attributes &&& fatFileReadOnly ≠ 0 then fileStatReadOnly else 0
    pure (0, some { flags, filesize := ritem.filesize })

/-- `fat16_close`. -/
def fat16Close (alloc : Allocator H) (private' : U32) : Exec Fault (FatState H) Int := do
  let desc ← loadDescriptor private'
  onDriver (fat16FatItemFree alloc desc.item)
  onDriver (kfree alloc private')
  setDescriptor private' (.dangling private')
  pure 0

/-- `fat16_fs`, resolved for a volume. -/
def fat16Filesystem (alloc : Allocator H) (vol : Volume) : Filesystem (FatState H) where
  fsOpen := fat16Open alloc vol
  fsRead := fat16Read vol
  fsSeek := fat16Seek
  fsStat := fat16Stat
  fsClose := fat16Close alloc

/-- The disk with the volume. -/
def fat16Disk (alloc : Allocator H) (vol : Volume) : MountedDisk (FatState H) :=
  ⟨some (fat16Filesystem alloc vol)⟩

/-! ### Opening -/

/-- What the driver answers, with its state put back. -/
theorem onDriver_eq_ok {x : K H α} {s s' : FatState H} {a : α} :
    onDriver x s = .ok (a, s') ↔
      ∃ driver, x s.driver = .ok (a, driver) ∧ s' = { s with driver } := by
  unfold onDriver
  cases x s.driver with
  | error e => simp [Except.map]
  | ok r => simp [Except.map, Prod.ext_iff, eq_comm]

/-- Only a live descriptor is loaded. -/
theorem loadDescriptor_eq_ok {p : U32} {s s' : FatState H} {desc : FatFileDescriptor} :
    loadDescriptor p s = .ok (desc, s') ↔ ∃ q, s.descriptors p = .live q desc ∧ s' = s := by
  unfold loadDescriptor
  cases s.descriptors p with
  | null => simp [Ref.load, Except.map]
  | dangling q => simp [Ref.load, Except.map]
  | live q desc' => simp [Ref.load, Except.map, eq_comm]

/-- Every error is a negative pointer. -/
theorem errorPtr_neg {code : Int} (h : code = eio ∨ code = enomem ∨ code = erdonly) :
    (errorPtr code).toInt < 0 := by
  rcases h with rfl | rfl | rfl <;> decide

/-- What `fat16_open` does: it fails, or the new descriptor is at the start of what the walk of the
path found. -/
theorem fat16Open_cases {alloc : Allocator H} {vol : Volume} {path : List PathPart}
    {mode : FileMode} {s s' : FatState H} {ptr : U32}
    (h : fat16Open alloc vol path mode s = .ok (ptr, s')) :
    ptr.toInt < 0 ∨ ∃ part next d d' item, path = part :: next ∧
      fat16GetDirectoryEntry alloc vol part.part (next.map PathPart.part) d = .ok (item, d') ∧
      s'.descriptors = Function.update s.descriptors ptr (.live ptr { item, pos := 0 }) := by
  unfold fat16Open at h
  split at h
  · cases h
    exact .inl (errorPtr_neg (.inr (.inr rfl)))
  obtain ⟨descriptor, s₁, h₁, h⟩ := Exec.bind_eq_ok.mp h
  obtain ⟨d₁, -, rfl⟩ := onDriver_eq_ok.mp h₁
  split at h
  · cases h
    exact .inl (errorPtr_neg (.inr (.inl rfl)))
  cases path with
  | nil => cases h
  | cons part next =>
    obtain ⟨item, s₂, h₂, h⟩ := Exec.bind_eq_ok.mp h
    obtain ⟨d₂, hentry, rfl⟩ := onDriver_eq_ok.mp h₂
    split at h
    · obtain ⟨⟨⟩, s₃, h₃, h⟩ := Exec.bind_eq_ok.mp h
      cases h
      exact .inl (errorPtr_neg (.inl rfl))
    · cases h
      exact .inr ⟨part, next, d₁, d₂, item, rfl, hentry, rfl⟩

/-- What `fopen` needs of its filesystem when it succeeds. -/
theorem fopenPrivate_ok {alloc : Allocator H} {fs filesystem : Filesystem H} {k k' : H}
    {filename modeStr : Name} {privateData : U32}
    (h : fopenPrivate alloc ⟨some fs⟩ filename modeStr k =
      .ok (.ok (filesystem, privateData), k')) :
    filesystem = fs ∧ 0 ≤ privateData.toInt ∧
      ∃ path k₁, fs.fsOpen path (fileGetModeByString modeStr) k₁ = .ok (privateData, k') := by
  obtain ⟨root, k₁, -, ⟨e, -, hres, -⟩ | ⟨fs', path, priv, hfs, hopen, hres⟩⟩ :=
    fopenPrivate_cases h
  · cases hres
  · cases hfs
    split at hres
    · cases hres
    · rename_i hpos
      cases hres
      exact ⟨rfl, by omega, path, k₁, hopen⟩

/-- An allocation changes no descriptor. -/
theorem kzallocWritten_descriptors {alloc : Allocator H} {size ptr : U32} {s s' : FatState H}
    (h : (Allocator.onFat alloc).kzallocWritten size s = .ok (ptr, s')) :
    s'.descriptors = s.descriptors := by
  obtain ⟨p, s₁, hcall, h⟩ := Exec.bind_eq_ok.mp h
  cases hcall
  split at h
  · cases h
  · rw [← (Prod.mk.inj (Except.ok.inj h)).2]

/-- A file opened on the volume is at its start. -/
theorem fopen_descriptor {alloc : Allocator H} {vol : Volume} {filename modeStr : Name}
    {s s' : FileState (FatState H)} {fd : Int} {ptr : U32} {desc : FileDescriptor (FatState H)}
    (h : fopen (Allocator.onFat alloc) (fat16Disk alloc vol) filename modeStr s = .ok (fd, s'))
    (hfd : fd ≠ 0) (hp : fileGetDescriptor s' fd = .live ptr desc) :
    desc.filesystem = some (fat16Filesystem alloc vol) ∧
      ∃ item, s'.kernel.descriptors desc.privateData =
        .live desc.privateData { item, pos := 0 } := by
  obtain ⟨⟨res, ref⟩, s₁, hbody, h⟩ := Exec.bind_eq_ok.mp h
  cases h
  rcases fopenBody_cases hbody with ⟨hres, -, -⟩ |
    ⟨filesystem, privateData, k, i, p, hopen, hi, -, halloc, rfl, rfl, he⟩
  · exact absurd (if_pos hres) hfd
  · obtain ⟨rfl, hpos, path, k₁, hfs⟩ := fopenPrivate_ok hopen
    rw [if_neg (by omega)] at hp
    unfold fileGetDescriptor at hp
    split at hp
    · cases hp
    rw [he, show ((i : Int) + 1 - 1).toNat = i by omega, Function.update_self] at hp
    cases hp
    refine ⟨rfl, ?_⟩
    -- the block of the `struct file_descriptor` is taken from the heap, and no more
    have hkernel : s'.kernel.descriptors = k.descriptors := kzallocWritten_descriptors halloc
    rcases fat16Open_cases hfs with hneg | ⟨-, -, -, -, item, -, -, hitem⟩
    · omega
    · exact ⟨item, by rw [hkernel, hitem, Function.update_self]⟩

/-! ### What a read depends on -/

/-- What holds of a read and of the way to the directory item holds of all rounds. -/
theorem readLoop_of_sequential {P : (α : Type) → K H α → Prop} (hP : Sequential P) {vol : Volume}
    (hread : SeekReads vol.disk P)
    (hdiv : sizeOfClusterBytes vol = 0 → ∀ α, P α (Exec.fault .divisionByZero)) {item : FatItem}
    (hmember : P _ (Exec.lift item.itemMember)) (size : U32) (n : Nat) (offset : Int) :
    P _ (fat16ReadLoop vol item size n offset) := by
  induction n generalizing offset with
  | zero => exact hP.pure _
  | succ n ih =>
    exact hP.bind hmember fun contents =>
      hP.bind (readStream_of_sequential hP hread hdiv .clusterRead _ _ _) fun r =>
        hP.ite (hP.pure _) (hP.bind (ih _) fun _ => hP.pure _)

/-- The read loop settles, on an answer or on a fault. -/
theorem fat16ReadLoop_settled (vol : Volume) (item : FatItem) (size : U32) (n : Nat)
    (offset : Int) : Settled (fat16ReadLoop vol item size n offset : K H (Int × Int × List U8)) :=
  readLoop_of_sequential Settled.sequential (seekReads_settled vol.disk) (fun _ _ => .fault _)
    (.lift _) size n offset

/-! ### What a call on a descriptor does -/

/-- `x` changes no descriptor but the one behind `p`, and how it ends and what it makes of that one
depends on that one only. -/
def ActsOn (p : U32) (x : Exec Fault (FatState H) α) : Prop := ∀ (s s' : FatState H) (a : α),
  x s = .ok (a, s') → (∀ q, q ≠ p → s'.descriptors q = s.descriptors q) ∧
    ∀ t : FatState H, t.descriptors p = s.descriptors p →
      ∃ t', x t = .ok (a, t') ∧ t'.descriptors p = s'.descriptors p

namespace ActsOn
variable {p : U32} {β : Type} {x : Exec Fault (FatState H) α}

theorem pure (a : α) : ActsOn p (pure a : Exec Fault (FatState H) α) := by
  intro s s' b h
  cases h
  exact ⟨fun _ _ => rfl, fun t ht => ⟨t, rfl, ht⟩⟩

theorem lift (r : Except Fault α) : ActsOn p (Exec.lift r : Exec Fault (FatState H) α) := by
  intro s s' b h
  cases r with
  | error e => cases h
  | ok a =>
    cases h
    exact ⟨fun _ _ => rfl, fun t ht => ⟨t, rfl, ht⟩⟩

/-- Both parts act on the descriptor at `p` alone. -/
theorem bind {f : α → Exec Fault (FatState H) β} (hx : ActsOn p x) (hf : ∀ a, ActsOn p (f a)) :
    ActsOn p (x >>= f) := by
  intro s s' b h
  obtain ⟨a, s₁, h₁, h₂⟩ := Exec.bind_eq_ok.mp h
  obtain ⟨hframe, hx⟩ := hx s s₁ a h₁
  obtain ⟨hframe', hf⟩ := hf a s₁ s' b h₂
  refine ⟨fun q hq => (hframe' q hq).trans (hframe q hq), fun t ht => ?_⟩
  obtain ⟨t₁, ht₁, hsame⟩ := hx t ht
  obtain ⟨t', ht', hsame'⟩ := hf t₁ hsame
  exact ⟨t', by rw [Exec.bind_ok ht₁, ht'], hsame'⟩

theorem ite {c : Prop} [Decidable c] {y : Exec Fault (FatState H) α} (hx : ActsOn p x)
    (hy : ActsOn p y) : ActsOn p (if c then x else y) := by
  split
  · exact hx
  · exact hy

/-- What the driver does, when its streams and the heap do not matter. -/
theorem onDriver {x : K H α} (hx : Settled x) : ActsOn p (onDriver x) := by
  intro s s' a h
  obtain ⟨r, hr⟩ := hx
  unfold Fs.onDriver at h ⊢
  rcases hr s.driver with ⟨b, d, rfl, hs⟩ | ⟨e, rfl, hs⟩
  · rw [hs] at h
    cases h
    refine ⟨fun _ _ => rfl, fun t ht => ?_⟩
    obtain ⟨d', hd'⟩ := hr.ok t.driver
    exact ⟨{ t with driver := d' }, by rw [hd']; rfl, ht⟩
  · rw [hs] at h
    cases h

theorem loadDescriptor : ActsOn p (loadDescriptor p : Exec Fault (FatState H) _) := by
  intro s s' a h
  unfold Fs.loadDescriptor at h ⊢
  cases hload : (s.descriptors p).load with
  | error e =>
    rw [hload] at h
    cases h
  | ok desc =>
    rw [hload] at h
    cases h
    exact ⟨fun _ _ => rfl, fun t ht => ⟨t, by rw [ht, hload]; rfl, ht⟩⟩

theorem setDescriptor (desc : Ref FatFileDescriptor) :
    ActsOn p (setDescriptor p desc : Exec Fault (FatState H) _) := by
  intro s s' a h
  cases h
  refine ⟨fun q hq => Function.update_of_ne hq _ _, fun t _ => ⟨_, rfl, ?_⟩⟩
  simp only [Function.update_self]

end ActsOn

/-- **A read is about its own descriptor only**, whatever the streams were used for before. -/
theorem fat16Read_actsOn (vol : Volume) (p size nmemb : U32) :
    ActsOn p (fat16Read vol p size nmemb : Exec Fault (FatState H) _) :=
  ActsOn.loadDescriptor.bind fun _ => (ActsOn.lift _).bind fun _ =>
    (ActsOn.onDriver (fat16ReadLoop_settled vol _ _ _ _)).bind fun _ =>
      .ite (.pure _) ((ActsOn.setDescriptor _).bind fun _ => .pure _)

/-- Seeking acts on its own descriptor. -/
theorem fat16Seek_actsOn (p offset : U32) (seekMode : FileSeekMode) :
    ActsOn p (fat16Seek p offset seekMode : Exec Fault (FatState H) _) := by
  refine ActsOn.loadDescriptor.bind fun desc => (ActsOn.lift _).bind fun item => ?_
  cases item with
  | directory directory => exact .pure _
  | file item =>
    exact (ActsOn.lift _).bind fun _ => (ActsOn.setDescriptor _).bind fun _ => .pure _

/-! ### The first cluster of a file -/

/-- A read that stays in the first cluster. -/
theorem fat16ReadInternal_firstCluster {vol : Volume} {c : Int} {offset size : Nat} (hc₀ : 0 ≤ c)
    (hc₁ : c < 2 ^ 16) (hsize : 0 < size) (hin : offset + size ≤ clusterBytes vol)
    (hpos : 0 ≤ clusterPos vol c) (hfit : clusterPos vol c + offset < 2 ^ 31) :
    Settles (fat16ReadInternal vol c offset size : K H (Int × List U8))
      (.ok (0, bytesAt vol.disk (clusterPos vol c + offset) size)) := by
  have hmod : offset % clusterBytes vol = offset := Nat.mod_eq_of_lt (by omega)
  have hcluster := fat16GetClusterForOffset_settles (H := H) vol hc₀ hc₁ (offset : Int)
    (by rw [sizeOfClusterBytes_eq]; omega)
  rw [sizeOfClusterBytes_eq, tdiv_natCast, Nat.div_eq_of_lt (by omega), Int.toNat_natCast,
    clusterAhead] at hcluster
  have hread : Settles (fat16ReadInternalFromStream vol .clusterRead c offset size) _ :=
    readRound_last (by omega) hcluster hc₀
      (by rw [hmod, wrap32_of_nonneg (by omega) (by omega)]; exact .inl (by omega)) (by omega)
  rw [hmod] at hread
  exact hread

/-- What `fat16_read` gives for one element in the first cluster of a file. -/
theorem fat16Read_firstCluster {vol : Volume} {item : FatDirectoryItem} {offset size : Nat}
    {p p' q r : U32} {s : FatState H}
    (hdesc : s.descriptors p = .live p'
      { item := .live q (.file (.live r item)), pos := BitVec.ofNat 32 offset })
    (hsize : 0 < size) (hin : offset + size ≤ clusterBytes vol)
    (hpos : 0 ≤ clusterPos vol (fat16GetFirstCluster item).toInt)
    (hfit : clusterPos vol (fat16GetFirstCluster item).toInt + offset < 2 ^ 31) :
    ∃ driver, fat16Read vol p (BitVec.ofNat 32 size) 1 s =
      .ok ((1, bytesAt vol.disk
          (clusterPos vol (fat16GetFirstCluster item).toInt + offset) size),
        ⟨driver, Function.update s.descriptors p (.live p
          { item := .live q (.file (.live r item))
            pos := BitVec.ofNat 32 (offset + size) })⟩) := by
  have hlt := clusterBytes_lt vol
  obtain ⟨hc₀, hc₁⟩ := firstCluster_range item
  have hsizeInt : (BitVec.ofNat 32 size).toInt = size := by
    rw [BitVec.toInt_eq_toNat_of_lt] <;> simp only [BitVec.toNat_ofNat] <;> omega
  have hoffsetInt : (BitVec.ofNat 32 offset).toInt = offset := by
    rw [BitVec.toInt_eq_toNat_of_lt] <;> simp only [BitVec.toNat_ofNat] <;> omega
  have hend : wrap32 ((offset : Int) + (BitVec.ofNat 32 size).toNat) = (offset + size : Nat) := by
    rw [BitVec.toNat_ofNat, Nat.mod_eq_of_lt (by omega), wrap32_of_nonneg (by omega) (by omega)]
    omega
  obtain ⟨driver, hread⟩ := (fat16ReadInternal_firstCluster (H := H) hc₀ hc₁ hsize hin hpos
    hfit).ok s.driver
  have hloop : fat16ReadLoop vol (.file (.live r item)) (BitVec.ofNat 32 size) 1 offset s.driver =
      .ok ((0, ((offset + size : Nat) : Int), bytesAt vol.disk
        (clusterPos vol (fat16GetFirstCluster item).toInt + offset) size), driver) := by
    unfold fat16ReadLoop
    rw [FatItem.itemMember, Ref.load, Exec.lift_ok_bind, hsizeInt, Exec.bind_ok hread]
    simp only [fat16ReadLoop, hend]
    rw [if_neg (by decide)]
    show Except.ok ((0, _, _ ++ []), driver) = _
    rw [List.append_nil]
  have hload : loadDescriptor p s =
      .ok ({ item := .live q (.file (.live r item)), pos := BitVec.ofNat 32 offset }, s) :=
    loadDescriptor_eq_ok.mpr ⟨p', hdesc, rfl⟩
  refine ⟨driver, ?_⟩
  unfold fat16Read
  rw [Exec.bind_ok hload, Ref.load, Exec.lift_ok_bind,
    Exec.bind_ok (onDriver_eq_ok.mpr ⟨driver, by
      rw [hoffsetInt]
      exact hloop, rfl⟩)]
  dsimp only
  rw [if_neg (by decide), BitVec.ofInt_natCast]
  rfl

/-- What `fat16_seek` does to a file. -/
theorem fat16Seek_file {item : FatDirectoryItem} {p p' q r pos : U32} {s : FatState H}
    (hdesc : s.descriptors p = .live p' { item := .live q (.file (.live r item)), pos })
    (offset : U32) (seekMode : FileSeekMode) :
    fat16Seek p offset seekMode s = .ok ((seekPosition item.filesize pos offset seekMode).1,
      ⟨s.driver, Function.update s.descriptors p (.live p
        { item := .live q (.file (.live r item))
          pos := (seekPosition item.filesize pos offset seekMode).2 })⟩) := by
  have hload : loadDescriptor p s =
      .ok ({ item := .live q (.file (.live r item)), pos }, s) :=
    loadDescriptor_eq_ok.mpr ⟨p', hdesc, rfl⟩
  unfold fat16Seek
  rw [Exec.bind_ok hload, Ref.load, Exec.lift_ok_bind]
  dsimp only
  rw [Ref.load, Exec.lift_ok_bind]
  rfl

end

/-! ### An open file -/

section
variable {H : Type}

/-- `fd` is an open file with the directory item `item`, at position `pos`. -/
def FileAt (s : FileState (FatState H)) (fd : Int) (item : FatDirectoryItem) (pos : U32) : Prop :=
  ∃ ptr desc p q r, fileGetDescriptor s fd = .live ptr desc ∧
    s.kernel.descriptors desc.privateData =
      .live p { item := .live q (.file (.live r item)), pos }

/-- The same, with the volume it is on. -/
structure OnVolume (alloc : Allocator H) (vol : Volume) (s : FileState (FatState H)) (fd : Int)
    (item : FatDirectoryItem) (pos : U32) : Prop where
  file : FileAt s fd item pos
  filesystem : ∀ ptr desc, fileGetDescriptor s fd = .live ptr desc →
    desc.filesystem = some (fat16Filesystem alloc vol)

variable {alloc : Allocator H} {vol : Volume} {s s' : FileState (FatState H)} {fd : Int}
  {item : FatDirectoryItem}

/-- A file that `fopen` opened is at its start. -/
theorem fopen_onVolume {filename modeStr : Name} {pos : U32}
    (h : fopen (Allocator.onFat alloc) (fat16Disk alloc vol) filename modeStr s =
      .ok (fd, s')) (hfile : FileAt s' fd item pos) : OnVolume alloc vol s' fd item 0 := by
  obtain ⟨ptr, desc, p, q, r, hget, hdesc⟩ := hfile
  have hfd : fd ≠ 0 := by have := (entry_of_live hget).1; omega
  obtain ⟨hfs, found, hfound⟩ := fopen_descriptor h hfd hget
  rw [hfound] at hdesc
  cases hdesc
  refine ⟨⟨ptr, desc, _, q, r, hget, hfound⟩, fun ptr' desc' hget' => ?_⟩
  cases hget.symm.trans hget'
  exact hfs

/-- `fread` of one element in the first cluster. -/
theorem OnVolume.reads (offset size : Nat)
    (h : OnVolume alloc vol s fd item (BitVec.ofNat 32 offset)) (hsize : 0 < size)
    (hin : offset + size ≤ clusterBytes vol)
    (hpos : 0 ≤ clusterPos vol (fat16GetFirstCluster item).toInt)
    (hfit : clusterPos vol (fat16GetFirstCluster item).toInt + offset < 2 ^ 31) :
    ∃ s', fread (BitVec.ofNat 32 size) 1 fd s =
        .ok ((1, bytesAt vol.disk
          (clusterPos vol (fat16GetFirstCluster item).toInt + offset) size), s') ∧
      OnVolume alloc vol s' fd item (BitVec.ofNat 32 (offset + size)) := by
  obtain ⟨ptr, desc, p, q, r, hget, hdesc⟩ := h.file
  obtain ⟨kernel, hread, hkernel⟩ : ∃ kernel,
      fat16Read vol desc.privateData (BitVec.ofNat 32 size) 1 s.kernel =
        .ok ((1, bytesAt vol.disk
          (clusterPos vol (fat16GetFirstCluster item).toInt + offset) size), kernel) ∧
      kernel.descriptors desc.privateData = .live desc.privateData
        { item := .live q (.file (.live r item)), pos := BitVec.ofNat 32 (offset + size) } := by
    obtain ⟨driver, hread⟩ := fat16Read_firstCluster hdesc hsize hin hpos hfit
    exact ⟨_, hread, Function.update_self _ _ _⟩
  have hlt := clusterBytes_lt vol
  have hsize0 : (BitVec.ofNat 32 size : U32) ≠ 0 := by
    intro e
    have := congrArg BitVec.toNat e
    rw [BitVec.toNat_ofNat, Nat.mod_eq_of_lt (by omega)] at this
    exact hsize.ne' this
  have hfd := (entry_of_live hget).1
  refine ⟨{ s with kernel }, ?_, ⟨ptr, desc, _, q, r, hget, hkernel⟩, h.filesystem⟩
  unfold fread
  rw [if_neg (by simp only [hsize0, false_or, not_or]; exact ⟨by decide, by omega⟩),
    withDescriptor_live hget (h.filesystem _ _ hget)]
  exact onKernel_eq_ok.mpr ⟨kernel, hread, rfl⟩

/-- `fread` of a file whose directory item could not be cloned reads through `NULL`. -/
theorem fread_without_clone {ptr p q pos size nmemb : U32} {desc : FileDescriptor (FatState H)}
    (hget : fileGetDescriptor s fd = .live ptr desc)
    (hfs : desc.filesystem = some (fat16Filesystem alloc vol))
    (hdesc : s.kernel.descriptors desc.privateData =
      .live p { item := .live q (.file .null), pos }) (hsize : size ≠ 0) (hnmemb : nmemb ≠ 0) :
    fread size nmemb fd s = .error .nullDeref := by
  obtain ⟨n, hn⟩ : ∃ n, nmemb.toNat = n + 1 :=
    Nat.exists_eq_succ_of_ne_zero fun h => hnmemb (BitVec.eq_of_toNat_eq h)
  have hload : loadDescriptor desc.privateData s.kernel =
      .ok ({ item := .live q (.file .null), pos }, s.kernel) :=
    loadDescriptor_eq_ok.mpr ⟨p, hdesc, rfl⟩
  have hread : fat16Read vol desc.privateData size nmemb s.kernel = .error .nullDeref := by
    unfold fat16Read
    rw [Exec.bind_ok hload, Ref.load, Exec.lift_ok_bind, hn]
    rfl
  have hfd := (entry_of_live hget).1
  unfold fread
  rw [if_neg (by simp only [hsize, hnmemb, false_or]; omega), withDescriptor_live hget hfs]
  unfold onKernel
  rw [show (fat16Filesystem alloc vol).fsRead = fat16Read vol from rfl, hread]
  rfl

/-- `fseek` on an open file. -/
theorem OnVolume.fseeks {pos : U32} (h : OnVolume alloc vol s fd item pos) (offset : Int)
    (whence : FileSeekMode) :
    ∃ s', fseek fd offset whence s =
        .ok ((seekPosition item.filesize pos (BitVec.ofInt 32 offset) whence).1, s') ∧
      OnVolume alloc vol s' fd item
        (seekPosition item.filesize pos (BitVec.ofInt 32 offset) whence).2 := by
  obtain ⟨ptr, desc, p, q, r, hget, hdesc⟩ := h.file
  obtain ⟨kernel, hseek, hkernel⟩ : ∃ kernel,
      fat16Seek desc.privateData (BitVec.ofInt 32 offset) whence s.kernel =
        .ok ((seekPosition item.filesize pos (BitVec.ofInt 32 offset) whence).1, kernel) ∧
      kernel.descriptors desc.privateData = .live desc.privateData
        { item := .live q (.file (.live r item))
          pos := (seekPosition item.filesize pos (BitVec.ofInt 32 offset) whence).2 } :=
    ⟨_, fat16Seek_file hdesc _ whence, Function.update_self _ _ _⟩
  refine ⟨{ s with kernel }, ?_, ⟨ptr, desc, _, q, r, hget, hkernel⟩, h.filesystem⟩
  unfold fseek
  rw [withDescriptor_live hget (h.filesystem _ _ hget)]
  exact onKernel_eq_ok.mpr ⟨kernel, hseek, rfl⟩

/-- `fseek` to a position in the file. -/
theorem OnVolume.seeks {pos : U32} (offset : U32) (h : OnVolume alloc vol s fd item pos)
    (hlt : offset < item.filesize) :
    ∃ s', fseek fd offset.toInt .seekSet s = .ok (0, s') ∧
      OnVolume alloc vol s' fd item offset := by
  have hseek : seekPosition item.filesize pos (BitVec.ofInt 32 offset.toInt) .seekSet =
      (0, offset) := by
    rw [BitVec.ofInt_toInt]
    exact if_neg (by bv_omega)
  have h' := h.fseeks offset.toInt .seekSet
  rwa [hseek] at h'

end

/-! ### A volume with one file -/

/-- The slot of a file `A` of `0x8010` bytes, from cluster 2 on. -/
def romSlot : List U8 :=
  0x41 :: List.replicate 10 0x20 ++ List.replicate 15 0 ++ [0x02, 0x00, 0x10, 0x80, 0x00, 0x00]

/-- A volume with clusters of `0x10000` bytes and that file only.  Every byte of a sector is its
number. -/
def romVolume : Volume where
  disk := ⟨fun lba _ => lba.setWidth 8⟩
  header :=
    { sectorsPerCluster := 128, reservedSectors := 1, fatCopies := 1, rootDirEntries := 16,
      sectorsPerFat := 1 }
  rootDirectory :=
    { item := .live 0x1000 romSlot, total := 1, sectorPos := 2, endingSectorPos := 3 }

/-- The kernel before the first `fopen`. -/
def bootFiles : FileState (FatState Nat) := fsInit ⟨⟨0, fun _ => 0⟩, fun _ => .null⟩

end KernelNES.Fs
