import KernelNES.Fs.FatFile
import KernelNES.Fs.SubdirectoryLoad
import KernelNES.Memory.BlockTable

/-!
# Fs — OpenClose

What `fopen` and `fclose` leave in the block table of the heap.  `fopen` frees neither the root of
the parsed path nor its parts, so a call that gets as far as parsing the path leaves the block of
the root taken, whatever happens afterwards (`openClose_leaks_nothing_iff`).

Everything that is freed later was handed out later: the driver frees an item with the blocks behind
it (`ItemFrees`), a descriptor, and nothing else.
-/

namespace KernelNES.Fs
open KernelNES.Lib KernelNES.Memory

/-! ### What is freed with an item -/

/-- `fat16_free_directory` frees addresses of kind `G`. -/
def DirectoryFrees (G : U32 → Prop) (directory : Ref FatDirectory) : Prop :=
  ∀ a contents, directory = .live a contents →
    G a ∧ (contents.item ≠ .null → G contents.item.addr)

/-- `fat16_fat_item_free` frees addresses of kind `G`. -/
def ItemFrees (G : U32 → Prop) (item : Ref FatItem) : Prop :=
  ∀ a contents, item = .live a contents → G a ∧
    match contents with
    | .directory directory => DirectoryFrees G directory
    | .file file => G file.addr

theorem directoryFrees_null (G : U32 → Prop) : DirectoryFrees G .null := nofun

theorem directoryFrees_live {G : U32 → Prop} {a : U32} {contents : FatDirectory} (ha : G a)
    (hitem : contents.item ≠ .null → G contents.item.addr) :
    DirectoryFrees G (.live a contents) := by
  intro a' contents' h
  cases h
  exact ⟨ha, hitem⟩

theorem itemFrees_null (G : U32 → Prop) : ItemFrees G .null := nofun

section
variable {H α : Type} {alloc : Allocator H} {good I : H → Prop} {G : U32 → Prop} {P : Prop}

/-! ### The driver -/

/-- `Guarded`, for the heap below the driver. -/
abbrev DriverGuarded (good I : H → Prop) (P : Prop) (x : K H α) (Q : α → Prop) : Prop :=
  Guarded (fun s => good s.heap) (fun s => I s.heap) P x Q

theorem kzalloc_guarded (law : alloc.Guards good I G) (size : U32) :
    DriverGuarded good I P (kzalloc alloc size) fun ptr =>
      (ptr = 0 ∨ G ptr) ∧ (blocksFor size ≠ 0 → G ptr) :=
  ((law.kzalloc size).embed KState.heap fun _ _ _ h => by cases h; rfl).pre fun _ => trivial

theorem kzalloc_guarded_pos (law : alloc.Guards good I G) {size : U32} (h : blocksFor size ≠ 0) :
    DriverGuarded good I P (kzalloc alloc size) G :=
  (kzalloc_guarded law size).conseq id fun _ _ hptr => hptr.2 h

theorem kfree_guarded (law : alloc.Guards good I G) (ptr : U32) :
    DriverGuarded good I (G ptr) (kfree alloc ptr) fun _ => True :=
  (law.kfree ptr).embed KState.heap fun _ _ _ h => by cases h; rfl

/-! Directories and items. -/

theorem freeDirectory_guarded (law : alloc.Guards good I G) (directory : Ref FatDirectory) :
    DriverGuarded good I (DirectoryFrees G directory) (fat16FreeDirectory alloc directory)
      fun _ => True := by
  refine .ite (.pure fun _ => trivial) (.lift_bind fun contents hload => ?_)
  obtain ⟨a, rfl⟩ := Ref.load_eq_ok.mp hload
  have hlast := kfree_guarded law a
  by_cases hitem : contents.item = .null
  · rw [if_neg (not_not.mpr hitem)]
    exact hlast.pre fun h => (h.1 a contents rfl).1
  · rw [if_pos hitem]
    refine .seq ((kfree_guarded law _).pre fun h => (h.1 a contents rfl).2 hitem) fun _ => ?_
    exact hlast.pre fun h => (h.1.1 a contents rfl).1

theorem itemFree_guarded (law : alloc.Guards good I G) (item : Ref FatItem) :
    DriverGuarded good I (ItemFrees G item) (fat16FatItemFree alloc item) fun _ => True := by
  refine .lift_bind fun contents hload => ?_
  obtain ⟨a, rfl⟩ := Ref.load_eq_ok.mp hload
  cases contents with
  | directory directory =>
    exact .seq ((freeDirectory_guarded law directory).pre fun h => (h a _ rfl).2)
      fun _ => (kfree_guarded law a).pre fun h => (h.1 a _ rfl).1
  | file file =>
    exact .seq ((kfree_guarded law file.addr).pre fun h => (h a _ rfl).2)
      fun _ => (kfree_guarded law a).pre fun h => (h.1 a _ rfl).1

theorem cloneItem_guarded (law : alloc.Guards good I G) (item : FatDirectoryItem) :
    DriverGuarded good I P (fat16CloneDirectoryItem alloc item sizeofItem) fun copy =>
      G copy.addr := by
  refine .bind (kzalloc_guarded_pos law (by decide)) fun ptr => .ite (.pure ?_) (.pure fun h => h.1)
  rintro ⟨h, rfl⟩
  exact h

theorem loadDirectory_guarded (law : alloc.Guards good I G) (vol : Volume)
    (item : FatDirectoryItem) :
    DriverGuarded good I P (fat16LoadFatDirectory alloc vol item) (DirectoryFrees G) := by
  refine .ite (.pure fun _ => directoryFrees_null G) ?_
  refine .bind (kzalloc_guarded_pos law (by decide)) fun directory => ?_
  refine .ite (.pure fun _ => directoryFrees_null G) ?_
  refine .frame_seq (getTotalItems_leaves _ _) fun totalItems => ?_
  refine .seq (kzalloc_guarded law _) fun array => .ite ?_ ?_
  · -- the directory goes without its array
    refine .bind ((freeDirectory_guarded law _).pre fun h => ?_) fun _ => .pure fun _ => nofun
    exact directoryFrees_live h.1.1.1 fun hnull => absurd rfl hnull
  · refine .frame_seq (readInternal_leaves _ _ _ _) fun r => .ite ?_ (.pure fun h => ?_)
    · refine .bind ((freeDirectory_guarded law _).pre fun h => ?_) fun _ => .pure fun _ => nofun
      exact directoryFrees_live h.1.1.1.1 fun _ => h.1.1.2.1.resolve_left h.1.2
    · exact directoryFrees_live h.1.1.1.1 fun _ => h.1.1.2.1.resolve_left h.1.2

theorem newItem_guarded (law : alloc.Guards good I G) (vol : Volume) (item : FatDirectoryItem) :
    DriverGuarded good I P (fat16NewFatItemForDirectoryItem alloc vol item) (ItemFrees G) := by
  refine .bind (kzalloc_guarded_pos law (by decide)) fun fItem => ?_
  refine .ite (.pure fun _ => itemFrees_null G) (.ite ?_ ?_)
  · refine .seq (loadDirectory_guarded law vol item) fun directory => .pure fun h => ?_
    rintro a contents ⟨⟩
    exact ⟨h.1.1.1, h.2⟩
  · refine .seq (cloneItem_guarded law item) fun copy => .pure fun h => ?_
    rintro a contents ⟨⟩
    exact ⟨h.1.1.1, h.2⟩

/-- An item found before is not freed, and is no longer known. -/
theorem findItem_guarded (law : alloc.Guards good I G) (vol : Volume) (directory : FatDirectory)
    (name : Name) :
    DriverGuarded good I P (fat16FindItemInDirectory alloc vol directory name) (ItemFrees G) := by
  have hloop : ∀ n i fItem, DriverGuarded good I (ItemFrees G fItem)
      (fat16FindItemLoop alloc vol directory name n i fItem) (ItemFrees G) := by
    intro n
    induction n with
    | zero => exact fun i fItem => .pure id
    | succ n ih =>
      intro i fItem
      refine .lift_bind fun item _ => .ite ?_ ((ih (i + 1) fItem).pre fun h => h.1)
      exact .bind (newItem_guarded law vol item) fun fItem => ih (i + 1) fItem
  exact (hloop _ 0 .null).pre fun _ => itemFrees_null G

/-- A lookup is guarded, and so is the item it finds. -/
theorem getDirectoryEntry_guarded (law : alloc.Guards good I G) (vol : Volume) (part : Name)
    (next : List Name) :
    DriverGuarded good I P (fat16GetDirectoryEntry alloc vol part next) (ItemFrees G) := by
  have hloop : ∀ next item, DriverGuarded good I (ItemFrees G item)
      (fat16GetDirectoryEntryLoop alloc vol next item) (ItemFrees G) := by
    intro next
    induction next with
    | nil => exact fun item => .pure id
    | cons part next ih =>
      intro item
      refine .lift_bind fun contents _ => ?_
      cases contents with
      | file file =>
        -- a file with more parts behind it: the item is lost
        exact .pure fun _ => itemFrees_null G
      | directory directory =>
        refine .lift_bind fun directory _ => ?_
        -- the item of the directory is freed once the next one is found
        refine .seq (findItem_guarded law vol directory part) fun tmpItem => ?_
        exact .seq ((itemFree_guarded law item).pre fun h => h.1) fun _ =>
          (ih tmpItem).pre fun h => h.1.2
  refine .bind (findItem_guarded law vol _ part) fun rootItem => ?_
  exact .ite (.pure fun _ => itemFrees_null G) ((hloop next rootItem).pre fun h => h.1)

/-! ### The parser -/

theorem kzallocWritten_guarded (law : alloc.Guards good I G) {size : U32}
    (h : blocksFor size ≠ 0) : Guarded good I P (alloc.kzallocWritten size) G :=
  .bind ((law.kzalloc size).pre fun _ => trivial) fun _ =>
    .ite (.fault _) (.pure fun hptr => hptr.1.2 h)

/-- The block of an empty part is given back at once. -/
theorem parsePathPart_guarded (law : alloc.Guards good I G) (part : Name) :
    Guarded good I P (pathparserParsePathPart alloc part) fun _ => True := by
  refine .bind (Q := fun _ => True) (.ite ?_ ?_) fun partPtr => .ite (.pure fun _ => trivial) ?_
  · refine .bind ((law.kzalloc 108).pre fun _ => trivial) fun ptr => ?_
    exact .bind ((law.kfree ptr).pre fun h => h.2 (by decide)) fun _ => .pure fun _ => trivial
  · exact (kzallocWritten_guarded law (by decide)).conseq id fun _ _ _ => trivial
  · exact .bind (kzallocWritten_guarded law (by decide)) fun _ => .pure fun _ => trivial

theorem parseParts_guarded (law : alloc.Guards good I G) (path : List Name) :
    Guarded good I P (pathparserParseParts alloc path) fun _ => True := by
  induction path generalizing P with
  | nil => exact .bind (parsePathPart_guarded law []) fun _ => .pure fun _ => trivial
  | cons part path ih =>
    refine .bind (parsePathPart_guarded law part) fun part => ?_
    cases part with
    | none => exact .pure fun _ => trivial
    | some part => exact .bind ih fun _ => .pure fun _ => trivial

/-! ### Opening -/

/-- `fat16_close` of the descriptor behind `privateData` frees addresses of kind `G`. -/
def PrivateFrees (G : U32 → Prop) (descriptors : U32 → Ref FatFileDescriptor) (privateData : U32) :
    Prop :=
  G privateData ∧ ∀ p desc, descriptors privateData = .live p desc → ItemFrees G desc.item

/-- The kernel around the driver allocates like the driver, and leaves its descriptors alone. -/
theorem guards_onFat (law : alloc.Guards good I G) (J : (U32 → Ref FatFileDescriptor) → Prop) :
    (Allocator.onFat alloc).Guards (fun s => good s.driver.heap)
      (fun s => I s.driver.heap ∧ J s.descriptors) G := by
  constructor
  · intro size s ptr s' h hgood
    cases h
    obtain ⟨hs, hrun⟩ := law.kzalloc size s.driver.heap _ _ rfl hgood
    refine ⟨hs, fun hP hI => ?_⟩
    obtain ⟨hI', hptr⟩ := hrun hP hI.1
    exact ⟨⟨hI', hI.2⟩, hptr⟩
  · intro ptr s a s' h hgood
    cases h
    obtain ⟨hs, hrun⟩ := law.kfree ptr s.driver.heap _ _ rfl hgood
    exact ⟨hs, fun hP hI => ⟨⟨(hrun hP hI.1).1, hI.2⟩, trivial⟩⟩

/-- `fat16_open` answers a descriptor whose blocks may be freed. -/
theorem fat16Open_opens (law : alloc.Guards good I G) {vol : Volume} {path : List PathPart}
    {mode : FileMode} {s s' : FatState H} {ptr : U32}
    (h : fat16Open alloc vol path mode s = .ok (ptr, s')) (hgood : good s'.driver.heap) :
    good s.driver.heap ∧ (I s.driver.heap → I s'.driver.heap ∧
      (0 ≤ ptr.toInt → PrivateFrees G s'.descriptors ptr)) := by
  have hneg : ∀ {code}, (code = eio ∨ code = enomem ∨ code = erdonly) →
      ¬ 0 ≤ (errorPtr code).toInt := fun hcode => Int.not_le.mpr (errorPtr_neg hcode)
  unfold fat16Open at h
  split at h
  · cases h
    exact ⟨hgood, fun hI => ⟨hI, fun hpos => absurd hpos (hneg (.inr (.inr rfl)))⟩⟩
  obtain ⟨descriptor, s₁, h₁, h⟩ := Exec.bind_eq_ok.mp h
  obtain ⟨d₁, hk₁, rfl⟩ := onDriver_eq_ok.mp h₁
  have hdesc := kzalloc_guarded_pos (P := True) law (by decide) _ _ _ hk₁
  split at h
  · -- no block for the descriptor
    cases h
    obtain ⟨hs, hrun⟩ := hdesc hgood
    exact ⟨hs, fun hI => ⟨(hrun trivial hI).1,
      fun hpos => absurd hpos (hneg (.inr (.inl rfl)))⟩⟩
  cases path with
  | nil => cases h
  | cons part next =>
    obtain ⟨item, s₂, h₂, h⟩ := Exec.bind_eq_ok.mp h
    obtain ⟨d₂, hk₂, rfl⟩ := onDriver_eq_ok.mp h₂
    have hitem := getDirectoryEntry_guarded (P := True) law _ _ _ _ _ _ hk₂
    split at h
    · -- the path leads to no item, and the descriptor is freed again
      obtain ⟨⟨⟩, s₃, h₃, h⟩ := Exec.bind_eq_ok.mp h
      cases h
      obtain ⟨d₃, hk₃, rfl⟩ := onDriver_eq_ok.mp h₃
      obtain ⟨hd₂, hfree⟩ := kfree_guarded law _ _ _ _ hk₃ hgood
      obtain ⟨hd₁, hfind⟩ := hitem hd₂
      obtain ⟨hs, hnew⟩ := hdesc hd₁
      refine ⟨hs, fun hI => ?_⟩
      obtain ⟨hI₁, hG⟩ := hnew trivial hI
      exact ⟨(hfree hG (hfind trivial hI₁).1).1, fun hpos => absurd hpos (hneg (.inl rfl))⟩
    · -- the item is now behind the descriptor
      cases h
      obtain ⟨hd₁, hfind⟩ := hitem hgood
      obtain ⟨hs, hnew⟩ := hdesc hd₁
      refine ⟨hs, fun hI => ?_⟩
      obtain ⟨hI₁, hG⟩ := hnew trivial hI
      obtain ⟨hI₂, hfrees⟩ := hfind trivial hI₁
      refine ⟨hI₂, fun _ => ⟨hG, fun p desc hp => ?_⟩⟩
      cases (Function.update_self ptr _ s.descriptors).symm.trans hp
      exact hfrees

/-! ### Closing -/

/-- `fat16_close` frees only those. -/
theorem fat16Close_guarded (law : alloc.Guards good I G) {privateData : U32} {s s' : FatState H}
    {res : Int} (h : fat16Close alloc privateData s = .ok (res, s')) (hgood : good s'.driver.heap) :
    good s.driver.heap ∧
      (I s.driver.heap → PrivateFrees G s.descriptors privateData → I s'.driver.heap) := by
  obtain ⟨desc, s₁, hload, h⟩ := Exec.bind_eq_ok.mp h
  obtain ⟨⟨⟩, s₂, h₂, h⟩ := Exec.bind_eq_ok.mp h
  obtain ⟨⟨⟩, s₃, h₃, h⟩ := Exec.bind_eq_ok.mp h
  obtain ⟨⟨⟩, s₄, hset, h⟩ := Exec.bind_eq_ok.mp h
  cases h
  cases hset
  obtain ⟨d₂, hk₂, rfl⟩ := onDriver_eq_ok.mp h₂
  obtain ⟨d₃, hk₃, rfl⟩ := onDriver_eq_ok.mp h₃
  obtain ⟨p, hp, rfl⟩ := loadDescriptor_eq_ok.mp hload
  obtain ⟨hd₂, hlast⟩ := kfree_guarded law _ _ _ _ hk₃ hgood
  obtain ⟨hs, hitem⟩ := itemFree_guarded law _ _ _ _ hk₂ hd₂
  exact ⟨hs, fun hI hfrees => (hlast hfrees.1 (hitem (hfrees.2 p desc hp) hI).1).1⟩

end

/-! ### The block of the root -/

/-- `pathparser_parse` takes the path. -/
def PathAccepted (filename : Name) : Prop :=
  filename.length ≤ peachosMaxPath ∧ pathparserPathValidFormat filename

instance (filename : Name) : Decidable (PathAccepted filename) :=
  inferInstanceAs (Decidable (_ ∧ _))

/-- The driver's state over the kernel heap. -/
abbrev KernelState := FatState (Heap × Bool)

/-- The kernel heap. -/
def KernelState.heap (k : KernelState) : Heap := k.driver.heap.1

/-- There were enough free blocks for every request. -/
def KernelState.Enough (k : KernelState) : Prop := k.driver.heap.2 = true

instance (k : KernelState) : Decidable k.Enough := inferInstanceAs (Decidable (_ = true))

/-- The disk, with a volume on it or not. -/
def kernelDisk (vol : Option Volume) : MountedDisk KernelState :=
  ⟨vol.map (fat16Filesystem .kheapWatched)⟩

/-- The allocator of the kernel. -/
def kernelAllocator : Allocator KernelState := Allocator.onFat .kheapWatched

theorem pathparserParse_rejected {H : Type} (alloc : Allocator H) {path : Name}
    (h : ¬ PathAccepted path) : pathparserParse alloc path = pure none := by
  unfold pathparserParse
  split
  · rfl
  · rename_i hlen
    have hinvalid : ¬ pathparserPathValidFormat path := fun hv => h ⟨by omega, hv⟩
    have hdrive : pathparserGetDriveByPath path = (-ebadpath, path) := if_neg hinvalid
    rw [hdrive]
    exact if_pos (by decide)

/-- A path that is taken gets a root, and then its parts. -/
theorem pathparserParse_accepted {H : Type} {alloc : Allocator H} {path : Name}
    (h : PathAccepted path) {k k' : H} {res : Option PathRoot}
    (hparse : pathparserParse alloc path k = .ok (res, k')) :
    ∃ root ptr k₁ parts, res = some root ∧ alloc.kzallocWritten 8 k = .ok (ptr, k₁) ∧
      pathparserParseParts alloc ((path.drop 3).splitOn slash) k₁ = .ok (parts, k') := by
  obtain ⟨hlen, hvalid⟩ := h
  obtain ⟨hdrive, hdigit⟩ := pathparserGetDriveByPath_valid hvalid
  unfold pathparserParse at hparse
  rw [if_neg (by omega), hdrive] at hparse
  dsimp only at hparse
  rw [if_neg hdigit] at hparse
  obtain ⟨ptr, k₁, hroot, hparse⟩ := Exec.bind_eq_ok.mp hparse
  obtain ⟨parts, k₂, hparts, hparse⟩ := Exec.bind_eq_ok.mp hparse
  cases hparse
  exact ⟨_, ptr, k₁, parts, rfl, hroot, hparts⟩

/-- The root takes a block that was free. -/
theorem kzallocWritten_pins {k k' : KernelState} {ptr : U32}
    (hwf : WellFormed k.heap.table) (ht : k.heap.table.total.toNat ≤ 2 ^ 19)
    (h : kernelAllocator.kzallocWritten 8 k = .ok (ptr, k')) (henough : k'.Enough) :
    ∃ b : Nat, EntryFree (k.heap.table.entries b) ∧ Pinned k.heap.saddr b k'.heap := by
  unfold Allocator.kzallocWritten at h
  obtain ⟨p, k₁, hcall, h⟩ := Exec.bind_eq_ok.mp h
  split at h
  · cases h
  cases h
  cases hcall
  have hfinds : FindsRun k.heap 8 := of_decide_eq_true (Bool.and_eq_true_iff.mp henough).2
  obtain ⟨b, hrun, hmalloc⟩ := heapMalloc_of_findsRun (by omega) (by decide) hfinds
  have hpins := hwf.pins ht hrun
  refine ⟨b, hrun.2 b le_rfl (Nat.lt_succ_self b), ?_⟩
  show Pinned k.heap.saddr b (heapMalloc k.heap 8).2
  rw [hmalloc]
  exact hpins

/-- The driver's `open`, when the path was parsed. -/
theorem fopenPrivate_pins {vol : Option Volume} {filename modeStr : Name} {k k' : KernelState}
    {r : Except Int (Filesystem KernelState × U32)} (hpath : PathAccepted filename)
    (hwf : WellFormed k.heap.table) (ht : k.heap.table.total.toNat ≤ 2 ^ 19)
    (h : fopenPrivate kernelAllocator (kernelDisk vol) filename modeStr k = .ok (r, k'))
    (henough : k'.Enough) :
    ∃ b : Nat, EntryFree (k.heap.table.entries b) ∧ Pinned k.heap.saddr b k'.heap ∧
      ∀ filesystem privateData, r = .ok (filesystem, privateData) →
        PrivateFrees (OtherBlock k.heap.saddr b) k'.descriptors privateData := by
  obtain ⟨res, k₂, hparse, hrest⟩ := fopenPrivate_cases h
  obtain ⟨root, ptr, k₁, parts, -, hroot, hparts⟩ := pathparserParse_accepted hpath hparse
  have hparts := fun b => parseParts_guarded (P := True)
    (guards_onFat (kheapWatched_guards k.heap.saddr b) fun _ => True) _ _ _ _ hparts
  rcases hrest with ⟨e, -, rfl, rfl⟩ | ⟨filesystem, path, privateData, hfs, hopen, hr⟩
  · obtain ⟨b, hfree, hpins⟩ := kzallocWritten_pins hwf ht hroot (hparts 0 henough).1
    exact ⟨b, hfree, ((hparts b henough).2 trivial ⟨hpins, trivial⟩).1.1, nofun⟩
  · obtain ⟨v, rfl⟩ : ∃ v, filesystem = fat16Filesystem .kheapWatched v := by
      cases vol with
      | none => cases hfs
      | some v => exact ⟨v, (Option.some.inj hfs).symm⟩
    have hopens := fun b => fat16Open_opens (kheapWatched_guards k.heap.saddr b) hopen henough
    have henough₂ := (hopens 0).1
    obtain ⟨b, hfree, hpins⟩ := kzallocWritten_pins hwf ht hroot (hparts 0 henough₂).1
    have hpins₂ := ((hparts b henough₂).2 trivial ⟨hpins, trivial⟩).1.1
    obtain ⟨hpins', hprivate⟩ := (hopens b).2 hpins₂
    refine ⟨b, hfree, hpins', fun filesystem' privateData' hok => ?_⟩
    rw [hr] at hok
    split at hok
    · cases hok
    · cases hok
      exact hprivate (by omega)

/-- What is opened is closed by the driver. -/
theorem fopen_fsClose {vol : Option Volume} {filename modeStr : Name}
    {s s' : FileState KernelState} {fd : Int} {ptr : U32} {desc : FileDescriptor KernelState}
    (h : fopen kernelAllocator (kernelDisk vol) filename modeStr s = .ok (fd, s')) (hfd : fd ≠ 0)
    (hget : fileGetDescriptor s' fd = .live ptr desc) {filesystem : Filesystem KernelState}
    (hf : desc.filesystem = some filesystem) : filesystem.fsClose = fat16Close .kheapWatched := by
  cases vol with
  | some vol =>
    cases (fopen_descriptor h hfd hget).1.symm.trans hf
    rfl
  | none =>
    -- there is no filesystem to open it
    obtain ⟨⟨res, ref⟩, s₁, hbody, h⟩ := Exec.bind_eq_ok.mp h
    cases h
    rcases fopenBody_cases hbody with ⟨hres, -⟩ | ⟨fs, privateData, k, i, p, hopen, -⟩
    · exact absurd (if_pos hres) hfd
    · obtain ⟨-, -, -, ⟨e, -, hres, -⟩ | ⟨fs', -, -, hfs, -⟩⟩ := fopenPrivate_cases hopen
      · cases hres
      · cases hfs

/-- `fopen`, when the path was parsed, and what it opened has for `fclose` to free. -/
theorem fopen_pins {vol : Option Volume} {filename modeStr : Name}
    {s s' : FileState KernelState} {fd : Int} (hpath : PathAccepted filename)
    (hwf : WellFormed s.kernel.heap.table) (ht : s.kernel.heap.table.total.toNat ≤ 2 ^ 19)
    (h : fopen kernelAllocator (kernelDisk vol) filename modeStr s = .ok (fd, s'))
    (henough : s'.kernel.Enough) :
    ∃ b : Nat, EntryFree (s.kernel.heap.table.entries b) ∧
      Pinned s.kernel.heap.saddr b s'.kernel.heap ∧
      (fd ≠ 0 → ∀ ptr desc, fileGetDescriptor s' fd = .live ptr desc →
        OtherBlock s.kernel.heap.saddr b ptr ∧
          PrivateFrees (OtherBlock s.kernel.heap.saddr b) s'.kernel.descriptors
            desc.privateData) := by
  obtain ⟨⟨res, ref⟩, s₁, hbody, h⟩ := Exec.bind_eq_ok.mp h
  cases h
  rcases fopenBody_cases hbody with ⟨hres, -, r, hopen, -⟩ |
    ⟨filesystem, privateData, k, i, p, hopen, hi, -, halloc, rfl, rfl, he⟩
  · obtain ⟨b, hfree, hpins, -⟩ := fopenPrivate_pins hpath hwf ht hopen henough
    exact ⟨b, hfree, hpins, fun hfd => absurd (if_pos hres) hfd⟩
  · -- the block of the `struct file_descriptor`, and the descriptor as the driver left it
    have hdesc := fun b => kzallocWritten_guarded (P := True) (guards_onFat
      (kheapWatched_guards s.kernel.heap.saddr b)
      fun d => PrivateFrees (OtherBlock s.kernel.heap.saddr b) d privateData) (by decide)
      _ _ _ halloc henough
    obtain ⟨b, hfree, hpins, hfrees⟩ := fopenPrivate_pins hpath hwf ht hopen (hdesc 0).1
    obtain ⟨⟨hpins', hprivate⟩, hp⟩ := (hdesc b).2 trivial ⟨hpins, hfrees _ _ rfl⟩
    refine ⟨b, hfree, hpins', fun hfd ptr desc hget => ?_⟩
    rw [if_neg (by omega)] at hget
    have hentry := (entry_of_live hget).2
    rw [he, show ((i : Int) + 1 - 1).toNat = i by omega, Function.update_self] at hentry
    cases hentry
    exact ⟨hp, hprivate⟩

/-- What `fclose` does to the heap when it returns `0`. -/
theorem fclose_frees {s s' : FileState KernelState} {fd : Int}
    (hdriver : ∀ ptr desc filesystem, fileGetDescriptor s fd = .live ptr desc →
      desc.filesystem = some filesystem → filesystem.fsClose = fat16Close .kheapWatched)
    (h : fclose kernelAllocator fd s = .ok (0, s')) (henough : s'.kernel.Enough) :
    s.kernel.Enough ∧ ∃ ptr desc, fileGetDescriptor s fd = .live ptr desc ∧
      ∀ saddr b, Pinned saddr b s.kernel.heap → OtherBlock saddr b ptr →
        PrivateFrees (OtherBlock saddr b) s.kernel.descriptors desc.privateData →
        Pinned saddr b s'.kernel.heap := by
  obtain ⟨hne, -⟩ | ⟨-, ptr, desc, hget, -, -, -, filesystem, k, hf, hclose, hkfree⟩ :=
    fclose_cases h
  · exact absurd rfl hne
  · rw [hdriver ptr desc filesystem hget hf] at hclose
    have hlast := fun saddr b =>
      (guards_onFat (kheapWatched_guards saddr b) fun _ => True).kfree ptr _ _ _ hkfree henough
    have hfirst := fun saddr b =>
      fat16Close_guarded (kheapWatched_guards saddr b) hclose (hlast saddr b).1
    refine ⟨(hfirst 0 0).1, ptr, desc, hget, fun saddr b hpins hptr hprivate => ?_⟩
    exact ((hlast saddr b).2 hptr ⟨(hfirst saddr b).2 hpins hprivate, trivial⟩).1.1

/-- `fopen`, and `fclose` of the file when it was opened. -/
inductive OpenClose (vol : Option Volume) (filename modeStr : Name) :
    FileState KernelState → FileState KernelState → Prop where
  | notOpened {s s' : FileState KernelState}
      (h : fopen kernelAllocator (kernelDisk vol) filename modeStr s = .ok (0, s')) :
      OpenClose vol filename modeStr s s'
  | closed {s s₁ s' : FileState KernelState} {fd : Int} (hfd : fd ≠ 0)
      (hopen : fopen kernelAllocator (kernelDisk vol) filename modeStr s = .ok (fd, s₁))
      (hclose : fclose kernelAllocator fd s₁ = .ok (0, s')) :
      OpenClose vol filename modeStr s s'

/-- A rejected path is all `fopen` looks at. -/
theorem fopen_rejected {vol : Option Volume} {filename modeStr : Name}
    (hpath : ¬ PathAccepted filename) {s s' : FileState KernelState} {fd : Int}
    (h : fopen kernelAllocator (kernelDisk vol) filename modeStr s = .ok (fd, s')) :
    fd = 0 ∧ s' = s := by
  have hbody : fopen kernelAllocator (kernelDisk vol) filename modeStr s = .ok (0, s) := by
    unfold fopen fopenBody fopenPrivate
    rw [pathparserParse_rejected kernelAllocator hpath]
    rfl
  cases hbody.symm.trans h
  exact ⟨rfl, rfl⟩

/-- **Opening a file and closing it again leaks nothing only if its path is rejected.**  With a
well-formed block table and enough free blocks for every request, the table is the same after
`fopen` has failed, or after `fclose` has taken back what it opened, exactly when `pathparser_parse`
took nothing from the heap. -/
theorem openClose_leaks_nothing_iff {vol : Option Volume} {filename modeStr : Name}
    {s s' : FileState KernelState} (hwf : WellFormed s.kernel.heap.table)
    (ht : s.kernel.heap.table.total.toNat ≤ 2 ^ 19)
    (hrun : OpenClose vol filename modeStr s s') (henough : s'.kernel.Enough) :
    s'.kernel.heap.table = s.kernel.heap.table ↔ ¬ PathAccepted filename := by
  constructor
  · intro htable hpath
    -- the block of the root was free, and is not any more
    suffices hleak : ∃ b : Nat, EntryFree (s.kernel.heap.table.entries b) ∧
        Pinned s.kernel.heap.saddr b s'.kernel.heap by
      obtain ⟨b, hfree, hpins⟩ := hleak
      exact hpins.not_free (htable ▸ hfree)
    cases hrun with
    | notOpened h =>
      obtain ⟨b, hfree, hpins, -⟩ := fopen_pins hpath hwf ht h henough
      exact ⟨b, hfree, hpins⟩
    | closed hfd hopen hclose =>
      obtain ⟨henough₁, ptr, desc, hget, hfrees⟩ := fclose_frees
        (fun _ _ _ hget hf => fopen_fsClose hopen hfd hget hf) hclose henough
      obtain ⟨b, hfree, hpins, hdesc⟩ := fopen_pins hpath hwf ht hopen henough₁
      obtain ⟨hptr, hprivate⟩ := hdesc hfd ptr desc hget
      exact ⟨b, hfree, hfrees _ b hpins hptr hprivate⟩
  · intro hpath
    cases hrun with
    | notOpened h => rw [(fopen_rejected hpath h).2]
    | closed hfd hopen hclose => exact absurd (fopen_rejected hpath hopen).1 hfd

/-! ### A heap of four blocks -/

/-- Nothing is open, and no block is taken. -/
def freshKernel : FileState KernelState :=
  fsInit
    { driver :=
        { heap := (⟨⟨fun _ => heapBlockTableEntryFree, 4⟩, 0x01000000, []⟩, true)
          pos := fun _ => 0 }
      descriptors := fun _ => .null }

theorem freshKernel_wellFormed : WellFormed freshKernel.kernel.heap.table := fun _ _ => .inl rfl

/-- `fopen("0:x", "r")`: the path has no root, and no block is left behind. -/
theorem openClose_leaks_nothing_rootless :
    ∃ s', OpenClose none [0x30, 0x3A, 0x78] [0x72] freshKernel s' ∧
      s'.kernel.heap.table = freshKernel.kernel.heap.table := by
  have hrun : OpenClose none [0x30, 0x3A, 0x78] [0x72] freshKernel freshKernel := .notOpened rfl
  have hrejected : ¬ PathAccepted [0x30, 0x3A, 0x78] := by decide
  exact ⟨_, hrun, (openClose_leaks_nothing_iff freshKernel_wellFormed (by decide) hrun rfl).mpr
    hrejected⟩

/-- `fopen("0:/", "r")` returns `0`, and the block of the root stays taken. -/
theorem openClose_leaks_root :
    WellFormed freshKernel.kernel.heap.table ∧
      ∃ s', OpenClose none [0x30, 0x3A, 0x2F] [0x72] freshKernel s' ∧ s'.kernel.Enough ∧
        s'.kernel.heap.table.entries 0 = 0x41 ∧
        s'.kernel.heap.table ≠ freshKernel.kernel.heap.table := by
  refine ⟨freshKernel_wellFormed, _, .notOpened rfl, by decide +kernel, by decide +kernel,
    fun h => ?_⟩
  exact absurd (congrArg (fun table => table.entries 0) h) (by decide +kernel)

end KernelNES.Fs
