import KernelNES.Fs.Lookup

/-!
# Fs — PathWalk

`fat16_get_directory_entry`.  `Reaches` is the walk as it is meant: each part of the path is looked
up in the directory found so far.  The code takes the same steps, but looks at the type of the item
it has found before it knows that it has found one.  Whenever it returns, it returns the right item
(`entryLoop_walksTo`); it returns exactly when no part strictly between the first and the last is
missing, the directories passed are loaded and the lookups return (`getDirectoryEntry_iff`).
-/

namespace KernelNES.Fs
open KernelNES.Lib KernelNES.Memory

section
variable {H : Type} {alloc : Allocator H} {vol : Volume}

/-! ### The walk -/

/-- Looking up `parts`, the first in the directory `item` and each further one in the directory
found so far, leads to `found`.  A directory is released once it has been searched. -/
inductive Reaches (alloc : Allocator H) (vol : Volume) :
    (item : Ref FatItem) → (parts : List Name) → KState H → (found : Ref FatItem) → KState H → Prop
  | here (item : Ref FatItem) (s : KState H) : Reaches alloc vol item [] s item s
  | down {a b : U32} {directory : FatDirectory} {part : Name} {parts : List Name}
      {tmpItem found : Ref FatItem} {s s₁ s₂ s' : KState H}
      (hfind : fat16FindItemInDirectory alloc vol directory part s = .ok (tmpItem, s₁))
      (hfree : fat16FatItemFree alloc (.live a (.directory (.live b directory))) s₁ = .ok ((), s₂))
      (h : Reaches alloc vol tmpItem parts s₂ found s') :
      Reaches alloc vol (.live a (.directory (.live b directory))) (part :: parts) s found s'

/-- The item is missing, or is a file: no further part can be looked up in it. -/
def IsEnd (item : Ref FatItem) : Prop := item = .null ∨ ∃ a f, item = .live a (.file f)

/-- The result of a walk: the item reached, and `NULL` when the walk ends before its last part. -/
def WalksTo (alloc : Allocator H) (vol : Volume) (item : Ref FatItem) (parts : List Name)
    (s : KState H) (r : Ref FatItem) : Prop :=
  (∃ s', Reaches alloc vol item parts s r s') ∨
    r = .null ∧ ∃ pre part post found s', parts = pre ++ part :: post ∧
      Reaches alloc vol item pre s found s' ∧ IsEnd found

/-- What the code needs of an item that it looks up `part` in: the item is not missing, and if it is
a directory, the directory is loaded and the lookup returns. -/
def Passes (alloc : Allocator H) (vol : Volume) (item : Ref FatItem) (part : Name)
    (s : KState H) : Prop :=
  item ≠ .null ∧ ∀ a p, item = .live a (.directory p) →
    ∃ b directory, p = .live b directory ∧
      ∃ x, fat16FindItemInDirectory alloc vol directory part s = .ok x

/-- Every item that a further part is looked up in passes. -/
def Passable (alloc : Allocator H) (vol : Volume) (item : Ref FatItem) (parts : List Name)
    (s : KState H) : Prop :=
  ∀ pre part post found s', parts = pre ++ part :: post → Reaches alloc vol item pre s found s' →
    Passes alloc vol found part s'

/-! ### Lookups and releases -/

theorem findItemLoop_ne_dangling {directory : FatDirectory} {name : Name} {n i : Nat}
    {fItem r : Ref FatItem} {s s' : KState H} (hf : ∀ a, fItem ≠ .dangling a)
    (h : fat16FindItemLoop alloc vol directory name n i fItem s = .ok (r, s')) :
    ∀ a, r ≠ .dangling a := by
  induction n generalizing i fItem s with
  | zero => cases h; exact hf
  | succ n ih =>
    obtain ⟨item, s₁, -, h⟩ := Exec.bind_eq_ok.mp h
    split at h
    · obtain ⟨found, s₂, hnew, h⟩ := Exec.bind_eq_ok.mp h
      refine ih (fun a ha => ?_) h
      subst ha
      obtain ⟨addr, s₃, -, hnew⟩ := Exec.bind_eq_ok.mp hnew
      split at hnew
      · cases hnew
      · split at hnew
        all_goals
          obtain ⟨_, _, -, hnew⟩ := Exec.bind_eq_ok.mp hnew
          cases hnew
    · exact ih hf h

theorem findItem_ne_dangling {directory : FatDirectory} {name : Name} {r : Ref FatItem}
    {s s' : KState H} (h : fat16FindItemInDirectory alloc vol directory name s = .ok (r, s')) :
    ∀ a, r ≠ .dangling a :=
  findItemLoop_ne_dangling (by simp) h

theorem fatItemFree_directory (alloc : Allocator H) (a b : U32) (directory : FatDirectory)
    (s : KState H) :
    ∃ s', fat16FatItemFree alloc (.live a (.directory (.live b directory))) s = .ok ((), s') := by
  obtain ⟨s₁, hs₁⟩ := freeDirectory_live alloc b directory s
  have hload : (Exec.lift (Ref.live a (FatItem.directory (.live b directory))).load :
      K H FatItem) s = .ok (.directory (.live b directory), s) := rfl
  rw [fat16FatItemFree, Exec.bind_ok hload]
  dsimp only
  rw [Exec.bind_ok hs₁]
  exact ⟨_, rfl⟩

/-! ### One part of the path -/

/-- One round of the loop, from a loaded directory. -/
theorem entryLoop_down {a b : U32} {directory : FatDirectory} {part : Name} {next : List Name}
    {tmpItem : Ref FatItem} {s s₁ s₂ : KState H}
    (hfind : fat16FindItemInDirectory alloc vol directory part s = .ok (tmpItem, s₁))
    (hfree : fat16FatItemFree alloc (.live a (.directory (.live b directory))) s₁ = .ok ((), s₂)) :
    fat16GetDirectoryEntryLoop alloc vol (part :: next)
        (.live a (.directory (.live b directory))) s =
      fat16GetDirectoryEntryLoop alloc vol next tmpItem s₂ := by
  have hitem : (Exec.lift (Ref.live a (FatItem.directory (.live b directory))).load :
      K H FatItem) s = .ok (.directory (.live b directory), s) := rfl
  have hdirectory : (Exec.lift (Ref.live b directory).load : K H FatDirectory) s =
      .ok (directory, s) := rfl
  rw [fat16GetDirectoryEntryLoop, Exec.bind_ok hitem]
  dsimp only
  rw [Exec.bind_ok hdirectory, Exec.bind_ok hfind, Exec.bind_ok hfree]

/-- What a round that returns has done. -/
theorem entryLoop_cons {part : Name} {next : List Name} {item r : Ref FatItem} {s s' : KState H}
    (h : fat16GetDirectoryEntryLoop alloc vol (part :: next) item s = .ok (r, s')) :
    (∃ a f, item = .live a (.file f) ∧ r = .null) ∨
      ∃ a b directory tmpItem s₁ s₂, item = .live a (.directory (.live b directory)) ∧
        fat16FindItemInDirectory alloc vol directory part s = .ok (tmpItem, s₁) ∧
        fat16FatItemFree alloc item s₁ = .ok ((), s₂) ∧
        fat16GetDirectoryEntryLoop alloc vol next tmpItem s₂ = .ok (r, s') := by
  rw [fat16GetDirectoryEntryLoop] at h
  obtain ⟨contents, s₀, hitem, h⟩ := Exec.bind_eq_ok.mp h
  cases item with
  | null => cases hitem
  | dangling a => cases hitem
  | live a value =>
    cases hitem
    cases contents with
    | file f => cases h; exact .inl ⟨a, f, rfl, rfl⟩
    | directory p =>
      obtain ⟨directory, s₀, hdirectory, h⟩ := Exec.bind_eq_ok.mp h
      cases p with
      | null => cases hdirectory
      | dangling b => cases hdirectory
      | live b value =>
        cases hdirectory
        obtain ⟨tmpItem, s₁, hfind, h⟩ := Exec.bind_eq_ok.mp h
        obtain ⟨_, s₂, hfree, h⟩ := Exec.bind_eq_ok.mp h
        exact .inr ⟨a, b, _, tmpItem, s₁, s₂, rfl, hfind, hfree, h⟩

/-- The walk from a directory passes when it does from what the first part leads to. -/
theorem passable_down {a b : U32} {directory : FatDirectory} {part : Name} {next : List Name}
    {tmpItem : Ref FatItem} {s s₁ s₂ : KState H}
    (hfind : fat16FindItemInDirectory alloc vol directory part s = .ok (tmpItem, s₁))
    (hfree : fat16FatItemFree alloc (.live a (.directory (.live b directory))) s₁ = .ok ((), s₂)) :
    Passable alloc vol (.live a (.directory (.live b directory))) (part :: next) s ↔
      Passable alloc vol tmpItem next s₂ := by
  constructor
  · rintro h pre part' post found s' rfl hreach
    exact h (part :: pre) part' post found s' rfl (.down hfind hfree hreach)
  · intro h pre part' post found s' hparts hreach
    cases hreach with
    | here =>
      obtain ⟨rfl, -⟩ := List.cons.inj hparts
      refine ⟨by simp, fun a' p hp => ?_⟩
      cases hp
      exact ⟨b, directory, rfl, _, hfind⟩
    | down hfind' hfree' hreach =>
      obtain ⟨rfl, hnext⟩ := List.cons.inj hparts
      rw [hfind] at hfind'
      cases hfind'
      rw [hfree] at hfree'
      cases hfree'
      exact h _ part' post found s' hnext hreach

/-! ### The whole path -/

/-- **What the loop returns is what the walk leads to.** -/
theorem entryLoop_walksTo {next : List Name} {item r : Ref FatItem} {s s' : KState H}
    (h : fat16GetDirectoryEntryLoop alloc vol next item s = .ok (r, s')) :
    WalksTo alloc vol item next s r := by
  induction next generalizing item s with
  | nil => cases h; exact .inl ⟨_, .here _ _⟩
  | cons part next ih =>
    rcases entryLoop_cons h with ⟨a, f, rfl, rfl⟩ |
      ⟨a, b, directory, tmpItem, s₁, s₂, rfl, hfind, hfree, h⟩
    · exact .inr ⟨rfl, [], part, next, _, s, rfl, .here _ s, .inr ⟨a, f, rfl⟩⟩
    · rcases ih h with ⟨s', hreach⟩ | ⟨rfl, pre, part', post, found, s', rfl, hreach, hend⟩
      · exact .inl ⟨s', .down hfind hfree hreach⟩
      · exact .inr ⟨rfl, part :: pre, part', post, found, s', rfl, .down hfind hfree hreach, hend⟩

/-- **The loop returns exactly when every item it looks a part up in passes.** -/
theorem entryLoop_returns_iff {next : List Name} {item : Ref FatItem} {s : KState H}
    (hitem : ∀ a, item ≠ .dangling a) :
    (∃ r s', fat16GetDirectoryEntryLoop alloc vol next item s = .ok (r, s')) ↔
      Passable alloc vol item next s := by
  induction next generalizing item s with
  | nil =>
    refine iff_of_true ⟨item, s, rfl⟩ ?_
    intro pre part post found s' hparts
    simp at hparts
  | cons part next ih =>
    constructor
    · rintro ⟨r, s', h⟩
      rcases entryLoop_cons h with ⟨a, f, rfl, rfl⟩ |
        ⟨a, b, directory, tmpItem, s₁, s₂, rfl, hfind, hfree, h⟩
      · intro pre part' post found s' _ hreach
        cases hreach
        exact ⟨by simp, by simp⟩
      · exact (passable_down hfind hfree).mpr
          ((ih (findItem_ne_dangling hfind)).mp ⟨r, s', h⟩)
    · intro h
      -- the item at hand is passable itself, and so is what lies below it
      obtain ⟨hnull, hdirectory⟩ := h [] part next item s rfl (.here item s)
      cases item with
      | null => exact absurd rfl hnull
      | dangling a => exact absurd rfl (hitem a)
      | live a contents =>
        cases contents with
        | file f => exact ⟨.null, s, rfl⟩
        | directory p =>
          obtain ⟨b, directory, rfl, ⟨tmpItem, s₁⟩, hfind⟩ := hdirectory a p rfl
          obtain ⟨s₂, hfree⟩ := fatItemFree_directory alloc a b directory s₁
          rw [entryLoop_down hfind hfree]
          exact (ih (findItem_ne_dangling hfind)).mpr ((passable_down hfind hfree).mp h)

/-- The code returns the item that the walk from the root directory leads to. -/
def EntryExact (alloc : Allocator H) (vol : Volume) (part : Name) (next : List Name)
    (s : KState H) : Prop :=
  ∃ r s' item s₁, fat16GetDirectoryEntry alloc vol part next s = .ok (r, s') ∧
    fat16FindItemInDirectory alloc vol vol.rootDirectory part s = .ok (item, s₁) ∧
    WalksTo alloc vol item next s₁ r

/-- **A path is walked exactly, and without a read of a field of `NULL`, if and only if** the first
lookup returns and, when it finds an item, every item that a further part is looked up in passes. -/
theorem getDirectoryEntry_iff (alloc : Allocator H) (vol : Volume) (part : Name)
    (next : List Name) (s : KState H) :
    EntryExact alloc vol part next s ↔
      ∃ item s₁, fat16FindItemInDirectory alloc vol vol.rootDirectory part s = .ok (item, s₁) ∧
        (item ≠ .null → Passable alloc vol item next s₁) := by
  constructor
  · rintro ⟨r, s', item, s₁, h, hfind, -⟩
    refine ⟨item, s₁, hfind, fun hnull => ?_⟩
    rw [fat16GetDirectoryEntry, Exec.bind_ok hfind, if_neg hnull] at h
    exact (entryLoop_returns_iff (findItem_ne_dangling hfind)).mp ⟨r, s', h⟩
  · rintro ⟨item, s₁, hfind, hpass⟩
    by_cases hnull : item = .null
    · subst hnull
      refine ⟨.null, s₁, .null, s₁, ?_, hfind, ?_⟩
      · rw [fat16GetDirectoryEntry, Exec.bind_ok hfind, if_pos rfl]; rfl
      · cases next with
        | nil => exact .inl ⟨s₁, .here _ _⟩
        | cons part' post => exact .inr ⟨rfl, [], part', post, _, s₁, rfl, .here _ _, .inl rfl⟩
    · obtain ⟨r, s', h⟩ := (entryLoop_returns_iff (findItem_ne_dangling hfind)).mpr (hpass hnull)
      refine ⟨r, s', item, s₁, ?_, hfind, entryLoop_walksTo h⟩
      rw [fat16GetDirectoryEntry, Exec.bind_ok hfind, if_neg hnull, h]

end

/-! ### A part missing from the middle of a path -/

/-- A volume whose root directory has one subdirectory `A`, in cluster 2, without a slot in use. -/
def loneDirectoryVolume : Volume where
  disk := ⟨fun _ _ => 0⟩
  header :=
    { sectorsPerCluster := 1, reservedSectors := 1, fatCopies := 1, rootDirEntries := 16,
      sectorsPerFat := 1 }
  rootDirectory :=
    { item := .live 0x01000000
        (0x41 :: List.replicate 10 0x20 ++ 0x10 :: List.replicate 14 0 ++ 2 :: List.replicate 5 0)
      total := 1
      sectorPos := 2
      endingSectorPos := 3 }

/-- The lookup of `A` in the root directory. -/
theorem loneDirectory_find (s : KState Nat) :
    ∃ a b directory s', fat16FindItemInDirectory Allocator.ample loneDirectoryVolume
        loneDirectoryVolume.rootDirectory [0x41] s =
          .ok (.live a (.directory (.live b directory)), s') ∧ directory.total = 0 := by
  obtain ⟨item, hslot⟩ : ∃ item, loneDirectoryVolume.rootDirectory.slot 0 = .ok item := ⟨_, rfl⟩
  have hsub : item.attributes &&& fatFileSubdirectory ≠ 0 := by cases hslot; decide
  have hnamed : item.Named [0x41] := by cases hslot; decide +kernel
  have hcount : SlotCount loneDirectoryVolume.disk
      (storedSubdirectory loneDirectoryVolume item).start 0 0 := by
    cases hslot
    exact slotCount_zero.mpr ⟨by decide +kernel, rfl, rfl⟩
  obtain ⟨a, s₁, hs₁, ha⟩ := kzalloc_succeeds Allocator.ample_succeeds 8 s
  obtain ⟨p, s₂, hs₂, hreads, -⟩ :=
    loadFatDirectory_of_count Allocator.ample_succeeds hsub (by decide) hcount s₁
  obtain ⟨b, directory, rfl, hholds⟩ := hreads ⟨by decide, by simp⟩
  refine ⟨a, b, directory, s₂, ?_, hholds.total⟩
  have hnew : fat16NewFatItemForDirectoryItem Allocator.ample loneDirectoryVolume item s =
      .ok (.live a (.directory (.live b directory)), s₂) := by
    rw [fat16NewFatItemForDirectoryItem, Exec.bind_ok hs₁, if_neg ha, if_pos hsub,
      Exec.bind_ok hs₂]
    rfl
  have hread : (Exec.lift (loneDirectoryVolume.rootDirectory.slot 0) : K Nat FatDirectoryItem) s =
      .ok (item, s) := by rw [hslot]; rfl
  rw [fat16FindItemInDirectory, show loneDirectoryVolume.rootDirectory.total.toNat = 1 from rfl,
    fat16FindItemLoop, Exec.bind_ok hread, if_pos hnamed, Exec.bind_ok hnew]
  rfl

/-- **The walk of `A/B/C` reads the type of an item that was not found.** -/
theorem walk_reads_null :
    fat16GetDirectoryEntry Allocator.ample loneDirectoryVolume [0x41] [[0x42], [0x43]]
        ⟨0, fun _ => 0⟩ = .error .nullDeref ∧
      ¬ EntryExact Allocator.ample loneDirectoryVolume [0x41] [[0x42], [0x43]] ⟨0, fun _ => 0⟩ := by
  obtain ⟨a, b, directory, s₁, hfind, htotal⟩ := loneDirectory_find ⟨0, fun _ => 0⟩
  have hmissing : fat16FindItemInDirectory Allocator.ample loneDirectoryVolume directory [0x42] s₁ =
      .ok (.null, s₁) := by
    rw [fat16FindItemInDirectory, htotal]; rfl
  obtain ⟨s₂, hfree⟩ := fatItemFree_directory Allocator.ample a b directory s₁
  have hfault : fat16GetDirectoryEntry Allocator.ample loneDirectoryVolume [0x41] [[0x42], [0x43]]
      ⟨0, fun _ => 0⟩ = .error .nullDeref := by
    rw [fat16GetDirectoryEntry, Exec.bind_ok hfind, if_neg (by simp),
      entryLoop_down hmissing hfree]
    rfl
  refine ⟨hfault, ?_⟩
  rintro ⟨r, s', -, -, h, -⟩
  rw [hfault] at h
  cases h

end KernelNES.Fs
