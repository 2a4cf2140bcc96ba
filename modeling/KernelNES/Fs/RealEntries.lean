import KernelNES.Fs.FatFile
import KernelNES.Fs.PathWalk
import KernelNES.Lib.Traced

/-!
# Fs — RealEntries

Which slot `fat16_find_item_in_directory` makes its item of.  Every slot of the name gets an item,
and the last one is returned; the attributes and the first byte of the slot are not looked at.  So a
lookup returns a file or a directory exactly when the last slot of the name is one
(`findsReal_iff`).  As many slots are searched as were counted, also where the array ends before;
what is searched then is the memory behind it (`FatDirectory.inMemory`).
-/

namespace KernelNES.Fs
open KernelNES.Lib KernelNES.Memory

/-! ### Entries -/

/-- `FAT_FILE_VOLUME_LABEL`. -/
def fatFileVolumeLabel : U8 := 0x08

/-- The attributes of a slot with a part of a long name. -/
def longNameAttributes : U8 := 0x0F

/-- The slot is one of a file or a directory. -/
structure RealEntry (item : FatDirectoryItem) : Prop where
  used : item.filename.headD 0 ≠ 0x00
  notDeleted : item.filename.headD 0 ≠ 0xE5
  notLabel : ¬ (item.attributes &&& fatFileVolumeLabel ≠ 0 ∧
    item.attributes &&& fatFileSubdirectory = 0)
  notLongName : item.attributes ≠ longNameAttributes

/-- The directory as a search reads it: where its array has less than `total` slots, the bytes go on
with what the memory holds `behind` it. -/
def FatDirectory.inMemory (directory : FatDirectory) (behind : Nat → U8) : FatDirectory :=
  { directory with
    item := match directory.item with
      | .live addr bytes => .live addr (bytes ++
          (List.range (sizeofItem * directory.total.toNat - bytes.length)).map behind)
      | item => item }

/-- The volume with its root directory as a search reads it.  The array of a subdirectory has room
for every slot that was counted (`zeroPadded_length`). -/
def Volume.inMemory (vol : Volume) (behind : Nat → U8) : Volume :=
  { vol with rootDirectory := vol.rootDirectory.inMemory behind }

/-- In memory every slot can be read, unless there is no array. -/
theorem inMemory_slot {directory : FatDirectory} {addr : U32} {bytes : List U8}
    (h : directory.item = .live addr bytes) (behind : Nat → U8) {i : Nat}
    (hi : i < directory.total.toNat) :
    ∃ item, (directory.inMemory behind).slot i = .ok item := by
  have hitem : (directory.inMemory behind).item = .live addr (bytes ++
      (List.range (sizeofItem * directory.total.toNat - bytes.length)).map behind) := by
    simp only [FatDirectory.inMemory, h]
  have hroom : sizeofItem * (i + 1) ≤ sizeofItem * directory.total.toNat :=
    Nat.mul_le_mul_left _ hi
  rw [slot_of_live hitem, if_pos]
  · exact ⟨_, rfl⟩
  · rw [List.length_append, List.length_map, List.length_range]
    omega

/-- The last of the first `n` slots that has the name. -/
structure LastNamed (directory : FatDirectory) (name : Name) (n i : Nat)
    (item : FatDirectoryItem) : Prop where
  lt : i < n
  slot : directory.slot i = .ok item
  named : item.Named name
  last : ∀ j, i < j → j < n → ∀ item', directory.slot j = .ok item' → ¬ item'.Named name

/-! ### The slot an item is made of -/

section
variable {H : Type}

/-- The loop of `fat16_find_item_in_directory`, with a mark for the slot of each item it makes. -/
def findSlotLoop (alloc : Allocator H) (vol : Volume) (directory : FatDirectory) (name : Name) :
    (n i : Nat) → (fItem : Ref FatItem) → Traced Nat Fault (KState H) (Ref FatItem)
  | 0, _, fItem => pure fItem
  | n + 1, i, fItem => do
    let item ← .quiet (Exec.lift (directory.slot i))
    if item.Named name then
      let fItem ← .quiet (fat16NewFatItemForDirectoryItem alloc vol item)
      .mark i
      findSlotLoop alloc vol directory name n (i + 1) fItem
    else findSlotLoop alloc vol directory name n (i + 1) fItem

/-- `fat16_find_item_in_directory`; the last mark is the slot of the item it returns. -/
def findSlot (alloc : Allocator H) (vol : Volume) (directory : FatDirectory) (name : Name) :
    Traced Nat Fault (KState H) (Ref FatItem) :=
  findSlotLoop alloc vol directory name directory.total.toNat 0 .null

/-- Without its marks, the search is the code's. -/
theorem findSlotLoop_erase (alloc : Allocator H) (vol : Volume) (directory : FatDirectory)
    (name : Name) (n i : Nat) (fItem : Ref FatItem) :
    (findSlotLoop alloc vol directory name n i fItem).erase =
      fat16FindItemLoop alloc vol directory name n i fItem := by
  induction n generalizing i fItem with
  | zero => rfl
  | succ n ih =>
    simp only [findSlotLoop, fat16FindItemLoop, Traced.erase_bind, Traced.erase_mark,
      Traced.erase_quiet, Traced.erase_ite, pure_bind, ih]

/-- Without the marks it is the lookup. -/
theorem findSlot_erase (alloc : Allocator H) (vol : Volume) (directory : FatDirectory)
    (name : Name) :
    (findSlot alloc vol directory name).erase = fat16FindItemInDirectory alloc vol directory name :=
  findSlotLoop_erase alloc vol directory name _ 0 .null

variable {alloc : Allocator H} {vol : Volume} {directory : FatDirectory} {name : Name}

/-- A scan that returns has read every slot, and its last mark is the last slot of the name, of
which the item it returns was made. -/
theorem findSlotLoop_outcome {n i m : Nat} {fItem r : Ref FatItem} {s s' : KState H}
    (hm : i + n = m) (h : fat16FindItemLoop alloc vol directory name n i fItem s = .ok (r, s')) :
    (∀ k, i ≤ k → k < m → ∃ item, directory.slot k = .ok item) ∧
      (((findSlotLoop alloc vol directory name n i fItem).trace s = [] ∧ r = fItem ∧
          ∀ k, i ≤ k → k < m → ∀ item, directory.slot k = .ok item → ¬ item.Named name) ∨
        ∃ k item s₁ s₂,
          ((findSlotLoop alloc vol directory name n i fItem).trace s).getLast? = some k ∧
          LastNamed directory name m k item ∧
          fat16NewFatItemForDirectoryItem alloc vol item s₁ = .ok (r, s₂)) := by
  induction n generalizing i fItem s with
  | zero =>
    cases h
    exact ⟨fun k h₁ h₂ => by omega, .inl ⟨rfl, rfl, fun k h₁ h₂ => by omega⟩⟩
  | succ n ih =>
    obtain ⟨item, s₁, hslot, h⟩ := Exec.bind_eq_ok.mp h
    have hitem : directory.slot i = .ok item := by
      cases hread : directory.slot i with
      | error e => rw [hread] at hslot; cases hslot
      | ok item' => rw [hread] at hslot; cases hslot; rfl
    have hpresent : (∀ k, i + 1 ≤ k → k < m → ∃ item, directory.slot k = .ok item) →
        ∀ k, i ≤ k → k < m → ∃ item, directory.slot k = .ok item := by
      intro hrest k h₁ h₂
      rcases Nat.eq_or_lt_of_le h₁ with rfl | h₁
      · exact ⟨item, hitem⟩
      · exact hrest k h₁ h₂
    by_cases hnamed : item.Named name
    · rw [if_pos hnamed] at h
      obtain ⟨made, s₂, hmade, h⟩ := Exec.bind_eq_ok.mp h
      have htrace : (findSlotLoop alloc vol directory name (n + 1) i fItem).trace s =
          i :: (findSlotLoop alloc vol directory name n (i + 1) made).trace s₂ := by
        rw [findSlotLoop, Traced.trace_quiet_bind_ok hslot, if_pos hnamed,
          Traced.trace_quiet_bind_ok hmade, Traced.trace_mark_bind]
      obtain ⟨hslots, hlast⟩ := ih (by omega) h
      refine ⟨hpresent hslots, .inr ?_⟩
      rcases hlast with ⟨hnone, rfl, hrest⟩ | ⟨k, item', s₃, s₄, hmark, hk, hmade'⟩
      · refine ⟨i, item, s₁, s₂, by rw [htrace, hnone]; rfl, ⟨by omega, hitem, hnamed, ?_⟩, hmade⟩
        exact fun j h₁ h₂ => hrest j h₁ h₂
      · exact ⟨k, item', s₃, s₄, by rw [htrace, List.getLast?_cons, hmark]; rfl, hk, hmade'⟩
    · rw [if_neg hnamed] at h
      have htrace : (findSlotLoop alloc vol directory name (n + 1) i fItem).trace s =
          (findSlotLoop alloc vol directory name n (i + 1) fItem).trace s₁ := by
        rw [findSlotLoop, Traced.trace_quiet_bind_ok hslot, if_neg hnamed]
      obtain ⟨hslots, hlast⟩ := ih (by omega) h
      rw [htrace]
      refine ⟨hpresent hslots, hlast.imp_left fun ⟨hnone, hr, hrest⟩ => ⟨hnone, hr, ?_⟩⟩
      intro k h₁ h₂ item' hk
      rcases Nat.eq_or_lt_of_le h₁ with rfl | h₁
      · cases hitem.symm.trans hk
        exact hnamed
      · exact hrest k h₁ h₂ item' hk

/-- The item a lookup returns is made of the last slot of the name. -/
theorem findItem_made {r : Ref FatItem} {s s' : KState H}
    (h : fat16FindItemInDirectory alloc vol directory name s = .ok (r, s')) (hr : r ≠ .null) :
    ∃ i item s₁ s₂, ((findSlot alloc vol directory name).trace s).getLast? = some i ∧
      LastNamed directory name directory.total.toNat i item ∧
      fat16NewFatItemForDirectoryItem alloc vol item s₁ = .ok (r, s₂) := by
  obtain ⟨-, ⟨-, hnull, -⟩ | hmade⟩ := findSlotLoop_outcome (Nat.zero_add _) h
  · exact absurd hnull hr
  · exact hmade

/-- The last slot of a name is one. -/
theorem LastNamed.unique {n i j : Nat} {item item' : FatDirectoryItem}
    (h : LastNamed directory name n i item) (h' : LastNamed directory name n j item') :
    item = item' := by
  rcases Nat.lt_trichotomy i j with hlt | rfl | hlt
  · exact absurd h'.named (h.last j hlt h'.lt item' h'.slot)
  · exact Except.ok.inj (h.slot.symm.trans h'.slot)
  · exact absurd h.named (h'.last i hlt h.lt item h.slot)

end

/-! ### What a lookup returns -/

/-- Whatever the lookup of the name returns is made of the slot of a file or a directory. -/
def FindsReal (directory : FatDirectory) (name : Name) : Prop :=
  ∀ {H : Type} (alloc : Allocator H) (vol : Volume) (s s' : KState H) (r : Ref FatItem),
    fat16FindItemInDirectory alloc vol directory name s = .ok (r, s') → r ≠ .null →
      ∃ i item, ((findSlot alloc vol directory name).trace s).getLast? = some i ∧
        directory.slot i = .ok item ∧ RealEntry item

/-- A heap with room for `struct fat_item`s only. -/
def Allocator.fatItems : Allocator Unit where
  kzalloc size heap := (if size = 8 then 0x01000000 else 0, heap)
  kfree _ heap := heap

theorem newItem_fatItems (vol : Volume) (item : FatDirectoryItem) (s : KState Unit) :
    ∃ contents, fat16NewFatItemForDirectoryItem Allocator.fatItems vol item s =
      .ok (.live 0x01000000 contents, s) := by
  have hcall : kzalloc Allocator.fatItems 8 s = .ok (0x01000000, s) := rfl
  rw [fat16NewFatItemForDirectoryItem, Exec.bind_ok hcall, if_neg (by decide)]
  by_cases hsub : item.attributes &&& fatFileSubdirectory ≠ 0
  · rw [if_pos hsub, Exec.bind_ok (loadDirectory_null hsub rfl)]
    exact ⟨_, rfl⟩
  · have hclone :
        fat16CloneDirectoryItem Allocator.fatItems item sizeofItem s = .ok (.null, s) := rfl
    rw [if_neg hsub, Exec.bind_ok hclone]
    exact ⟨_, rfl⟩

/-- With such a heap the search returns whenever the slots are there. -/
theorem findItemLoop_fatItems (vol : Volume) {directory : FatDirectory} (name : Name) {n i m : Nat}
    (hm : i + n = m) (hslots : ∀ k, i ≤ k → k < m → ∃ item, directory.slot k = .ok item)
    (fItem : Ref FatItem) (s : KState Unit) :
    ∃ r s', fat16FindItemLoop Allocator.fatItems vol directory name n i fItem s = .ok (r, s') := by
  induction n generalizing i fItem s with
  | zero => exact ⟨fItem, s, rfl⟩
  | succ n ih =>
    obtain ⟨item, hitem⟩ := hslots i le_rfl (by omega)
    have hread : (Exec.lift (directory.slot i) : K Unit FatDirectoryItem) s = .ok (item, s) := by
      rw [hitem]; rfl
    have hrest := fun made => ih (i := i + 1) (by omega) (fun k h => hslots k (by omega)) made s
    rw [fat16FindItemLoop, Exec.bind_ok hread]
    by_cases hnamed : item.Named name
    · obtain ⟨contents, hmade⟩ := newItem_fatItems vol item s
      rw [if_pos hnamed, Exec.bind_ok hmade]
      exact hrest _
    · rw [if_neg hnamed]
      exact hrest _

/-- The last slot that has the name is one of a file or a directory. -/
def LastReal (directory : FatDirectory) (name : Name) : Prop :=
  ∀ i item, LastNamed directory name directory.total.toNat i item → RealEntry item

/-- A search that can read every slot looks at the last one of the name. -/
theorem lastReal_of_findsReal {directory : FatDirectory} {name : Name}
    (hslots : ∀ i < directory.total.toNat, ∃ item, directory.slot i = .ok item)
    (h : FindsReal directory name) : LastReal directory name := by
  intro i item hlast
  obtain ⟨r, s', hfind⟩ := findItemLoop_fatItems (mountedVolume ⟨fun _ _ => 0⟩ twoSlotHeader) name
    (Nat.zero_add _) (fun k _ hk => hslots k hk) .null ⟨(), fun _ => 0⟩
  obtain ⟨-, ⟨-, -, hnone⟩ | ⟨k, item', s₁, s₂, hmark, hk, hmade⟩⟩ :=
    findSlotLoop_outcome (Nat.zero_add _) hfind
  · exact absurd hlast.named (hnone i (Nat.zero_le i) hlast.lt item hlast.slot)
  · have hr : r ≠ .null := by
      obtain ⟨contents, hnew⟩ := newItem_fatItems _ item' s₁
      rw [hnew] at hmade
      cases hmade
      simp
    obtain ⟨j, item'', hmark', hj, hreal⟩ := h _ _ _ _ r hfind hr
    obtain rfl : k = j := Option.some.inj (hmark.symm.trans hmark')
    obtain rfl : item' = item'' := Except.ok.inj (hk.slot.symm.trans hj)
    exact hk.unique hlast ▸ hreal

/-- Where the last slot of a name is real, the lookup finds a real one. -/
theorem findsReal_of_lastReal {directory : FatDirectory} {name : Name}
    (h : LastReal directory name) : FindsReal directory name := by
  intro H alloc vol s s' r hfind hr
  obtain ⟨i, item, s₁, s₂, hmark, hlast, -⟩ := findItem_made hfind hr
  exact ⟨i, item, hmark, hlast.slot, h i item hlast⟩

/-- Whatever lies behind the array, what is found is real exactly when the last slot of the name
is. -/
theorem findsReal_iff (directory : FatDirectory) (behind : Nat → U8) (name : Name) :
    FindsReal (directory.inMemory behind) name ↔ LastReal (directory.inMemory behind) name := by
  refine ⟨fun h => ?_, findsReal_of_lastReal⟩
  cases hitem : directory.item with
  | live addr bytes => exact lastReal_of_findsReal (fun i hi => inMemory_slot hitem behind hi) h
  | null =>
    -- there is no slot to read
    intro i item hlast
    have hslot := hlast.slot
    simp only [FatDirectory.slot, FatDirectory.inMemory, hitem, Ref.load] at hslot
    cases hslot
  | dangling addr =>
    intro i item hlast
    have hslot := hlast.slot
    simp only [FatDirectory.slot, FatDirectory.inMemory, hitem, Ref.load] at hslot
    cases hslot

/-! ### What a path leads to -/

section
variable {H : Type} {alloc : Allocator H} {vol : Volume}

/-- An item of a file has the contents of the slot it was made of. -/
theorem newItem_file {item item' : FatDirectoryItem} {a c : U32} {s s' : KState H}
    (h : fat16NewFatItemForDirectoryItem alloc vol item s =
      .ok (.live a (.file (.live c item')), s')) :
    item' = item := by
  obtain ⟨fItem, s₁, -, h⟩ := Exec.bind_eq_ok.mp h
  split at h
  · cases h
  split at h
  · obtain ⟨directory, s₂, -, h⟩ := Exec.bind_eq_ok.mp h
    cases h
  · obtain ⟨copy, s₂, hclone, h⟩ := Exec.bind_eq_ok.mp h
    cases h
    rw [fat16CloneDirectoryItem, if_neg (by decide)] at hclone
    obtain ⟨ptr, s₃, -, hclone⟩ := Exec.bind_eq_ok.mp hclone
    split at hclone
    · cases hclone
    · cases hclone
      rfl

/-- An item of a directory has the directory that was loaded for the slot. -/
theorem newItem_directory {item : FatDirectoryItem} {a b : U32} {directory : FatDirectory}
    {s s' : KState H} (h : fat16NewFatItemForDirectoryItem alloc vol item s =
      .ok (.live a (.directory (.live b directory)), s')) :
    ∃ s₁ s₂, fat16LoadFatDirectory alloc vol item s₁ = .ok (.live b directory, s₂) := by
  obtain ⟨fItem, s₁, -, h⟩ := Exec.bind_eq_ok.mp h
  split at h
  · cases h
  split at h
  · obtain ⟨directory', s₂, hload, h⟩ := Exec.bind_eq_ok.mp h
    cases h
    exact ⟨_, _, hload⟩
  · obtain ⟨copy, s₂, -, h⟩ := Exec.bind_eq_ok.mp h
    cases h

/-- The item is one of a real file, or of a directory that was loaded. -/
structure MadeReal (alloc : Allocator H) (vol : Volume) (fItem : Ref FatItem) : Prop where
  file : ∀ a c item, fItem = .live a (.file (.live c item)) → RealEntry item
  directory : ∀ a b directory, fItem = .live a (.directory (.live b directory)) →
    ∃ item s s', fat16LoadFatDirectory alloc vol item s = .ok (.live b directory, s')

/-- The item found is made of a real slot. -/
theorem findItem_real {directory : FatDirectory} {name : Name} (hreal : FindsReal directory name)
    {r : Ref FatItem} {s s' : KState H}
    (h : fat16FindItemInDirectory alloc vol directory name s = .ok (r, s')) :
    MadeReal alloc vol r := by
  refine ⟨fun a c item hr => ?_, fun a b directory' hr => ?_⟩
  all_goals
    subst hr
    obtain ⟨i, item', s₁, s₂, hmark, hlast, hmade⟩ := findItem_made h (by simp)
  · obtain ⟨j, item'', hmark', hslot, hitem⟩ := hreal _ _ _ _ _ h (by simp)
    obtain rfl : i = j := Option.some.inj (hmark.symm.trans hmark')
    obtain rfl : item' = item'' := Except.ok.inj (hlast.slot.symm.trans hslot)
    rw [newItem_file hmade]
    exact hitem
  · obtain ⟨s₃, s₄, hload⟩ := newItem_directory hmade
    exact ⟨item', s₃, s₄, hload⟩

/-- The lookups of a path return real entries: that of the first part in the root directory, and
those of the further parts in every directory that is loaded. -/
def PathReal (alloc : Allocator H) (vol : Volume) (part : Name) (next : List Name) : Prop :=
  LastReal vol.rootDirectory part ∧ ∀ item s s' addr directory,
    fat16LoadFatDirectory alloc vol item s = .ok (.live addr directory, s') →
      ∀ part ∈ next, LastReal directory part

/-- Down a path of real slots, the item is made of a real one. -/
theorem entryLoop_real {next : List Name}
    (hnext : ∀ item s s' addr directory,
      fat16LoadFatDirectory alloc vol item s = .ok (.live addr directory, s') →
        ∀ part ∈ next, LastReal directory part)
    {item r : Ref FatItem} {s s' : KState H} (hitem : MadeReal alloc vol item)
    (h : fat16GetDirectoryEntryLoop alloc vol next item s = .ok (r, s')) :
    MadeReal alloc vol r := by
  induction next generalizing item s with
  | nil => cases h; exact hitem
  | cons part next ih =>
    rcases entryLoop_cons h with ⟨a, f, rfl, rfl⟩ |
      ⟨a, b, directory, tmpItem, s₁, s₂, rfl, hfind, -, h⟩
    · exact ⟨nofun, nofun⟩
    · obtain ⟨slot, s₃, s₄, hload⟩ := hitem.directory a b directory rfl
      refine ih (fun item s s' addr directory h part hp =>
        hnext item s s' addr directory h part (List.mem_cons_of_mem _ hp)) ?_ h
      exact findItem_real (findsReal_of_lastReal
        (hnext slot s₃ s₄ b directory hload part List.mem_cons_self)) hfind

/-- What `fat16_open` puts behind a descriptor is what the walk of the path returned. -/
theorem fat16Open_item {part : PathPart} {next : List PathPart} {mode : FileMode}
    {s s' : FatState H} {ptr p : U32} {desc : FatFileDescriptor}
    (h : fat16Open alloc vol (part :: next) mode s = .ok (ptr, s')) (hptr : 0 ≤ ptr.toInt)
    (hdesc : s'.descriptors ptr = .live p desc) :
    ∃ d d', fat16GetDirectoryEntry alloc vol part.part (next.map PathPart.part) d =
      .ok (desc.item, d') := by
  rcases fat16Open_cases h with hneg | ⟨_, _, d, d', item, hpath, hentry, hnew⟩
  · omega
  · cases hpath
    rw [hnew, Function.update_self] at hdesc
    cases hdesc
    exact ⟨d, d', hentry⟩

end

/-- The slot of the volume label `NES`. -/
def labelSlot : List U8 :=
  [0x4E, 0x45, 0x53] ++ List.replicate 8 0x20 ++ 0x08 :: List.replicate 20 0

/-- A volume whose root directory has the volume label only. -/
def labelVolume : Volume where
  disk := ⟨fun _ _ => 0⟩
  header := twoSlotHeader
  rootDirectory :=
    { item := .live 0x01000000 labelSlot, total := 1, sectorPos := 2, endingSectorPos := 3 }

theorem label_notReal : ¬ RealEntry (.ofBytes labelSlot) := fun h => absurd h.notLabel (by decide)

end KernelNES.Fs
