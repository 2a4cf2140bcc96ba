import KernelNES.Fs.SubdirectoryLoad

/-!
# Fs — Lookup

`fat16_find_item_in_directory` on a loaded directory.  It scans as many slots as the counting pass
counted, from the first one on.  The deleted slots are left out of the count but not of the scan: a
live slot is found only if it, or another slot of the same name, is among the first `T`, where `T`
is the number of slots counted (`rootFinds_iff`, `subdirectoryFinds_iff`).
-/

namespace KernelNES.Fs
open KernelNES.Lib KernelNES.Memory

/-! ### Names -/

/-- A part of a name ends at the first zero byte or space. -/
def inPart (b : U8) : Bool := b ≠ 0x00 ∧ b ≠ 0x20

/-- The 8.3 name of an item: an extension that is not empty follows a dot. -/
def shortName (item : FatDirectoryItem) : Name :=
  let base := item.filename.takeWhile inPart
  let ext := item.ext.takeWhile inPart
  if ext = [] then base else base ++ 0x2E :: ext

/-- The names differ at most in the case of ASCII letters. -/
def SameUpToCase (a b : Name) : Prop := a.map tolower = b.map tolower

instance (a b : Name) : Decidable (SameUpToCase a b) := inferInstanceAs (Decidable (_ = _))

theorem fat16ToProperString_eq (input : List U8) :
    fat16ToProperString input = input.takeWhile inPart := by
  induction input with
  | nil => rfl
  | cons b input ih => simp [fat16ToProperString, List.takeWhile_cons, inPart, ih]

theorem fat16GetFullRelativeFilename_eq (item : FatDirectoryItem) :
    fat16GetFullRelativeFilename item = shortName item := by
  simp only [fat16GetFullRelativeFilename, shortName, fat16ToProperString_eq]
  cases item.ext with
  | nil => simp
  | cons b ext =>
    by_cases hb : b ≠ 0x00 ∧ b ≠ 0x20
    · rw [List.takeWhile_cons_of_pos (by simpa [inPart] using hb), List.headD_cons, if_pos hb,
        if_neg (List.cons_ne_nil _ _)]
    · rw [List.takeWhile_cons_of_neg (by simpa [inPart] using hb), List.headD_cons, if_neg hb,
        if_pos rfl]

theorem tolower_ne_zero {b : U8} (h : b ≠ 0) : tolower b ≠ 0 := by
  unfold tolower
  split
  · rename_i hb
    intro h32
    have h32 := congrArg BitVec.toNat h32
    rw [BitVec.toInt_eq_toNat_cond] at hb
    simp [BitVec.toNat_add] at h32
    split at hb <;> omega
  · exact h

theorem istrncmp_differ {a b : Name} (n : Nat)
    (h : tolower (a.headD 0) ≠ tolower (b.headD 0)) : istrncmp a b (n + 1) ≠ 0 := by
  have hne : a.headD 0 ≠ b.headD 0 := fun he => h (congrArg tolower he)
  have hnat : (a.headD 0).toNat ≠ (b.headD 0).toNat := fun he => hne (BitVec.eq_of_toNat_eq he)
  rw [istrncmp]
  simp only [if_pos (And.intro hne h)]
  omega

theorem istrncmp_agree {a b : Name} (n : Nat) (h : tolower (a.headD 0) = tolower (b.headD 0))
    (ha : a.headD 0 ≠ 0) : istrncmp a b (n + 1) = istrncmp a.tail b.tail n := by
  rw [istrncmp]
  simp only [h, ha, ne_eq, not_true_eq_false, and_false, if_false]

/-- `istrncmp` of strings that end before the bound compares them up to case. -/
theorem istrncmp_eq_zero {a b : Name} (ha : 0 ∉ a) (hb : 0 ∉ b) {n : Nat} (hn : a.length < n) :
    istrncmp a b n = 0 ↔ SameUpToCase a b := by
  obtain ⟨n, rfl⟩ : ∃ m, n = m + 1 := ⟨n - 1, by omega⟩
  have hzero : ∀ (x : U8) (l : Name), 0 ∉ x :: l → tolower x ≠ tolower 0 := by
    intro x l h
    exact tolower_ne_zero fun hx => h (hx ▸ List.mem_cons_self)
  induction a generalizing b n with
  | nil =>
    cases b with
    | nil => simp [istrncmp, SameUpToCase]
    | cons y b =>
      exact iff_of_false (istrncmp_differ n (hzero y b hb).symm) (by simp [SameUpToCase])
  | cons x a ih =>
    cases b with
    | nil => exact iff_of_false (istrncmp_differ n (hzero x a ha)) (by simp [SameUpToCase])
    | cons y b =>
      by_cases hxy : tolower x = tolower y
      · obtain ⟨n, rfl⟩ : ∃ m, n = m + 1 := ⟨n - 1, by simp at hn; omega⟩
        have hx : x ≠ 0 := fun h => ha (h ▸ List.mem_cons_self)
        have hagree : istrncmp (x :: a) (y :: b) (n + 1 + 1) = istrncmp a b (n + 1) :=
          istrncmp_agree (n + 1) hxy hx
        rw [hagree]
        refine (ih (fun h => ha (List.mem_cons_of_mem _ h))
          (fun h => hb (List.mem_cons_of_mem _ h)) n (by simp at hn ⊢; omega)).trans ?_
        simp [SameUpToCase, hxy]
      · exact iff_of_false (istrncmp_differ n hxy) (by simp [SameUpToCase, hxy])

theorem zero_notMem_shortName (item : FatDirectoryItem) : 0 ∉ shortName item := by
  have hpart : ∀ l : List U8, 0 ∉ l.takeWhile inPart := by
    intro l h
    have := List.all_eq_true.mp List.all_takeWhile 0 h
    simp [inPart] at this
  simp only [shortName]
  split
  · exact hpart _
  · simp only [List.mem_append, List.mem_cons, not_or]
    exact ⟨hpart _, by decide, hpart _⟩

theorem shortName_length (item : FatDirectoryItem) :
    (shortName item).length ≤ item.filename.length + 1 + item.ext.length := by
  have hbase := (List.takeWhile_prefix (l := item.filename) inPart).length_le
  have hext := (List.takeWhile_prefix (l := item.ext) inPart).length_le
  simp only [shortName]
  split
  · omega
  · rw [List.length_append, List.length_cons]; omega

theorem shortName_ofBytes_length (bytes : List U8) :
    (shortName (.ofBytes bytes)).length < peachosMaxPath := by
  have h := shortName_length (.ofBytes bytes)
  have hbase : (FatDirectoryItem.ofBytes bytes).filename.length ≤ 8 :=
    List.length_take_le 8 bytes
  have hext : (FatDirectoryItem.ofBytes bytes).ext.length ≤ 3 :=
    List.length_take_le 3 (bytes.drop 8)
  simp only [peachosMaxPath]
  omega

/-- A slot is the one searched when its 8.3 name is the name searched, up to case. -/
theorem named_iff (bytes : List U8) {name : Name} (hname : 0 ∉ name) :
    (FatDirectoryItem.ofBytes bytes).Named name ↔
      SameUpToCase (shortName (.ofBytes bytes)) name := by
  rw [FatDirectoryItem.Named, fat16GetFullRelativeFilename_eq]
  exact istrncmp_eq_zero (zero_notMem_shortName _) hname (shortName_ofBytes_length bytes)

/-! ### The scan -/

section
variable {H : Type} {alloc : Allocator H} {vol : Volume}

/-- A new item is made of a directory item: of a subdirectory only if it loads. -/
def Openable (vol : Volume) (item : FatDirectoryItem) : Prop :=
  item.attributes &&& fatFileSubdirectory ≠ 0 → Loads vol item

theorem newFatItem_of_openable (hsucc : alloc.Succeeds) {item : FatDirectoryItem}
    (h : Openable vol item) (s : KState H) :
    ∃ fItem s', fat16NewFatItemForDirectoryItem alloc vol item s = .ok (fItem, s') ∧
      fItem ≠ .null := by
  obtain ⟨addr, s₁, hs₁, haddr⟩ := kzalloc_succeeds hsucc 8 s
  rw [fat16NewFatItemForDirectoryItem, Exec.bind_ok hs₁, if_neg haddr]
  by_cases hsub : item.attributes &&& fatFileSubdirectory ≠ 0
  · obtain ⟨hC, n, T, hcount⟩ := h hsub
    obtain ⟨p, s₂, hs₂, -⟩ := loadFatDirectory_of_count hsucc hsub hC hcount s₁
    rw [if_pos hsub, Exec.bind_ok hs₂]
    exact ⟨_, s₂, rfl, by simp⟩
  · obtain ⟨copy, s₂, hs₂, -⟩ := kzalloc_succeeds hsucc (BitVec.ofNat 32 sizeofItem) s₁
    have hclone : ∃ p s', fat16CloneDirectoryItem alloc item sizeofItem s₁ = .ok (p, s') := by
      rw [fat16CloneDirectoryItem, if_neg (by decide), Exec.bind_ok hs₂]
      split <;> exact ⟨_, _, rfl⟩
    obtain ⟨p, s₃, hs₃⟩ := hclone
    rw [if_neg hsub, Exec.bind_ok hs₃]
    exact ⟨_, s₃, rfl, by simp⟩

theorem openable_of_newFatItem (hsucc : alloc.Succeeds) {item : FatDirectoryItem}
    {s s' : KState H} {fItem : Ref FatItem}
    (h : fat16NewFatItemForDirectoryItem alloc vol item s = .ok (fItem, s')) :
    Openable vol item := by
  intro hsub
  obtain ⟨addr, s₁, hs₁, haddr⟩ := kzalloc_succeeds hsucc 8 s
  rw [fat16NewFatItemForDirectoryItem, Exec.bind_ok hs₁, if_neg haddr, if_pos hsub] at h
  obtain ⟨p, s₂, hs₂, -⟩ := Exec.bind_eq_ok.mp h
  exact loads_of_loadFatDirectory hsucc hsub hs₂

/-- The scan of `n` slots from slot `i` on ends without a fault: each slot is in the array, and each
one that has the name can be opened. -/
def ScanEnds (vol : Volume) (directory : FatDirectory) (name : Name) (i n : Nat) : Prop :=
  ∀ k < n, ∃ item, directory.slot (i + k) = .ok item ∧ (item.Named name → Openable vol item)

/-- One of `n` slots from slot `i` on has the name. -/
def ScanHits (directory : FatDirectory) (name : Name) (i n : Nat) : Prop :=
  ∃ k < n, ∃ item, directory.slot (i + k) = .ok item ∧ item.Named name

theorem scanEnds_succ {directory : FatDirectory} {name : Name} {i n : Nat} :
    ScanEnds vol directory name i (n + 1) ↔
      (∃ item, directory.slot i = .ok item ∧ (item.Named name → Openable vol item)) ∧
        ScanEnds vol directory name (i + 1) n := by
  constructor
  · intro h
    refine ⟨h 0 (by omega), fun k hk => ?_⟩
    rw [Nat.add_assoc, Nat.add_comm 1 k]
    exact h (k + 1) (by omega)
  · rintro ⟨h₀, h⟩ k hk
    cases k with
    | zero => exact h₀
    | succ k =>
      have := h k (by omega)
      rwa [Nat.add_assoc, Nat.add_comm 1 k] at this

theorem scanHits_succ {directory : FatDirectory} {name : Name} {i n : Nat} :
    ScanHits directory name i (n + 1) ↔
      (∃ item, directory.slot i = .ok item ∧ item.Named name) ∨
        ScanHits directory name (i + 1) n := by
  constructor
  · rintro ⟨k, hk, h⟩
    cases k with
    | zero => exact .inl h
    | succ k => exact .inr ⟨k, by omega, by rwa [Nat.add_assoc, Nat.add_comm 1 k]⟩
  · rintro (h | ⟨k, hk, h⟩)
    · exact ⟨0, by omega, h⟩
    · exact ⟨k + 1, by omega, by rwa [Nat.add_assoc, Nat.add_comm 1 k] at h⟩

/-- **The scan returns an item exactly when it ends and hits, or had an item already.** -/
theorem findItemLoop_eq_ok (hsucc : alloc.Succeeds) (directory : FatDirectory) (name : Name)
    (n i : Nat) (fItem : Ref FatItem) (s : KState H) :
    (∃ r s', fat16FindItemLoop alloc vol directory name n i fItem s = .ok (r, s') ∧ r ≠ .null) ↔
      ScanEnds vol directory name i n ∧ (fItem ≠ .null ∨ ScanHits directory name i n) := by
  induction n generalizing i fItem s with
  | zero =>
    constructor
    · rintro ⟨r, s', h, hr⟩
      cases h
      exact ⟨fun k hk => absurd hk (by omega), .inl hr⟩
    · rintro ⟨-, h | ⟨k, hk, -⟩⟩
      · exact ⟨_, s, rfl, h⟩
      · omega
  | succ n ih =>
    rw [scanEnds_succ, scanHits_succ, fat16FindItemLoop]
    cases hslot : directory.slot i with
    | error e =>
      have hfault : (Exec.lift (.error e) : K H FatDirectoryItem) s = .error e := rfl
      rw [Exec.bind_error hfault]
      simp
    | ok item =>
      have hread : (Exec.lift (.ok item) : K H FatDirectoryItem) s = .ok (item, s) := rfl
      rw [Exec.bind_ok hread]
      simp only [Except.ok.injEq, exists_eq_left']
      -- a match does not end the scan: a later one takes its place
      by_cases hnamed : item.Named name
      · rw [if_pos hnamed]
        by_cases hopen : Openable vol item
        · obtain ⟨found, s₁, hs₁, hfound⟩ := newFatItem_of_openable hsucc hopen s
          rw [Exec.bind_ok hs₁, ih]
          simp [hnamed, hopen, hfound]
        · constructor
          · rintro ⟨r, s', h, -⟩
            obtain ⟨found, s₁, hs₁, -⟩ := Exec.bind_eq_ok.mp h
            exact absurd (openable_of_newFatItem hsucc hs₁) hopen
          · rintro ⟨⟨h, -⟩, -⟩
            exact absurd (h hnamed) hopen
      · rw [if_neg hnamed, ih]
        simp [hnamed]

/-! ### What is found in a loaded directory -/

/-- The first `T` slots are all there, one of them has the name, and those that have it can be
opened. -/
structure Within (vol : Volume) (stored : StoredDirectory) (name : Name) (T : Nat) : Prop where
  present : ∀ i < T, stored.slots i ≠ none
  hit : ∃ i < T, ∃ bytes, stored.slots i = some bytes ∧
    SameUpToCase (shortName (.ofBytes bytes)) name
  opens : ∀ i < T, ∀ bytes, stored.slots i = some bytes →
    SameUpToCase (shortName (.ofBytes bytes)) name → Openable vol (.ofBytes bytes)

/-- On a loaded directory, the scan ends at what is stored. -/
theorem Holds.scan_iff {directory : FatDirectory} {stored : StoredDirectory} {T : Nat}
    (h : Holds directory stored T) {name : Name} (hname : 0 ∉ name) :
    ScanEnds vol directory name 0 T ∧ ScanHits directory name 0 T ↔ Within vol stored name T := by
  simp only [ScanEnds, ScanHits, Nat.zero_add]
  constructor
  · rintro ⟨hends, k, hk, item, hslot, hnamed⟩
    have hstored : ∀ i < T, stored.slots i ≠ none := by
      intro i hi hnone
      obtain ⟨item, hitem, -⟩ := hends i hi
      rw [h.missing i hi hnone] at hitem
      cases hitem
    refine ⟨hstored, ⟨k, hk, ?_⟩, fun i hi bytes hbytes hsame => ?_⟩
    · obtain ⟨bytes, hbytes⟩ := Option.ne_none_iff_exists'.mp (hstored k hk)
      rw [h.slot k hk bytes hbytes] at hslot
      cases hslot
      exact ⟨bytes, hbytes, (named_iff bytes hname).mp hnamed⟩
    · obtain ⟨item, hitem, hopen⟩ := hends i hi
      rw [h.slot i hi bytes hbytes] at hitem
      cases hitem
      exact hopen ((named_iff bytes hname).mpr hsame)
  · rintro ⟨hstored, ⟨k, hk, bytes, hbytes, hsame⟩, hopens⟩
    refine ⟨fun i hi => ?_, k, hk, _, h.slot k hk bytes hbytes, (named_iff bytes hname).mpr hsame⟩
    obtain ⟨bytes, hbytes⟩ := Option.ne_none_iff_exists'.mp (hstored i hi)
    exact ⟨_, h.slot i hi bytes hbytes,
      fun hnamed => hopens i hi bytes hbytes ((named_iff bytes hname).mp hnamed)⟩

/-- A search of a directory with `T` slots. -/
theorem findItem_iff (hsucc : alloc.Succeeds) {directory : FatDirectory} {T : Nat}
    (hT : directory.total = T) (name : Name) (s : KState H) :
    (∃ r s', fat16FindItemInDirectory alloc vol directory name s = .ok (r, s') ∧ r ≠ .null) ↔
      ScanEnds vol directory name 0 T ∧ ScanHits directory name 0 T := by
  rw [fat16FindItemInDirectory, hT, Int.toNat_natCast, findItemLoop_eq_ok hsucc]
  simp

/-- Nothing with a name is found among blank slots. -/
theorem Blank.not_hits {directory : FatDirectory} {T : Nat} (h : Blank directory T) {name : Name}
    (hname : name ≠ []) (h0 : 0 ∉ name) : ¬ ScanHits directory name 0 T := by
  rintro ⟨k, hk, item, hitem, hnamed⟩
  rw [Nat.zero_add, h.slot k hk] at hitem
  cases hitem
  have hsame := (named_iff _ h0).mp hnamed
  rw [show shortName (.ofBytes (List.replicate sizeofItem 0)) = [] by decide +kernel] at hsame
  exact hname (List.map_eq_nil_iff.mp hsame.symm)

/-! ### Root directory and subdirectories -/

/-- The counting pass counts `T` slots, and a slot of that name is among the first `T`. -/
def Counts (vol : Volume) (stored : StoredDirectory) (name : Name) : Prop :=
  ∃ n T, SlotCount vol.disk stored.start n T ∧ sizeofItem * T < 2 ^ 31 ∧ Within vol stored name T

/-- A live slot before the first terminating one has the name. -/
def LiveMatch (stored : StoredDirectory) (name : Name) : Prop :=
  ∃ i bytes, stored.slots i = some bytes ∧ bytes.headD 0 ≠ 0xE5 ∧
    SameUpToCase (shortName (.ofBytes bytes)) name ∧
    ∀ j ≤ i, ∃ b, stored.slots j = some b ∧ b.headD 0 ≠ 0

/-- The volume once its root directory is loaded, but for the items of the root. -/
def mountedVolume (disk : Disk) (header : FatHeader) : Volume where
  disk
  header
  rootDirectory :=
    { item := .null
      total := 0
      sectorPos := rootDirSectorPos header
      endingSectorPos := rootDirSectorPos header + rootDirTotalSectors header }

/-- The root directory is loaded, and every later search of it for the name returns an item. -/
def RootFinds (alloc : Allocator H) (disk : Disk) (header : FatHeader) (name : Name)
    (s : KState H) : Prop :=
  ∃ directory s₁, fat16GetRootDirectory alloc disk header s = .ok ((0, some directory), s₁) ∧
    ∀ s₂, ∃ r s₃, fat16FindItemInDirectory alloc ⟨disk, header, directory⟩ directory name s₂ =
      .ok (r, s₃) ∧ r ≠ .null

/-- The subdirectory is loaded, and every later search of it for the name returns an item. -/
def SubdirectoryFinds (alloc : Allocator H) (vol : Volume) (item : FatDirectoryItem) (name : Name)
    (s : KState H) : Prop :=
  ∃ addr directory s₁, fat16LoadFatDirectory alloc vol item s = .ok (.live addr directory, s₁) ∧
    ∀ s₂, ∃ r s₃, fat16FindItemInDirectory alloc vol directory name s₂ = .ok (r, s₃) ∧ r ≠ .null

/-- Whether items can be opened does not depend on the items of the root directory. -/
theorem openable_mounted (disk : Disk) (header : FatHeader) {directory : FatDirectory}
    (h : directory.endingSectorPos = rootDirSectorPos header + rootDirTotalSectors header)
    (item : FatDirectoryItem) :
    Openable ⟨disk, header, directory⟩ item ↔ Openable (mountedVolume disk header) item := by
  simp only [Openable, Loads, storedSubdirectory, clusterPos, clusterBytes, mountedVolume, h]

/-- The root is searched as it is counted. -/
theorem rootFinds_iff (hsucc : alloc.Succeeds) (disk : Disk) (header : FatHeader) {name : Name}
    (h0 : 0 ∉ name) (s : KState H) :
    RootFinds alloc disk header name s ↔
      Counts (mountedVolume disk header) (storedRoot disk header) name := by
  have hwithin : ∀ {directory : FatDirectory} {T : Nat},
      directory.endingSectorPos = rootDirSectorPos header + rootDirTotalSectors header →
      (Within ⟨disk, header, directory⟩ (storedRoot disk header) name T ↔
        Within (mountedVolume disk header) (storedRoot disk header) name T) := by
    intro directory T hend
    constructor
    · rintro ⟨h₁, h₂, h₃⟩
      exact ⟨h₁, h₂, fun i hi b hb hs => (openable_mounted disk header hend _).mp (h₃ i hi b hb hs)⟩
    · rintro ⟨h₁, h₂, h₃⟩
      exact ⟨h₁, h₂, fun i hi b hb hs =>
        (openable_mounted disk header hend _).mpr (h₃ i hi b hb hs)⟩
  constructor
  · rintro ⟨directory, s₁, hload, hfind⟩
    obtain ⟨n, T, hcount⟩ := getRootDirectory_count hload
    obtain ⟨directory', s', hload', hholds, hend⟩ :=
      getRootDirectory_of_count hsucc disk header hcount s
    rw [hload] at hload'
    cases hload'
    have hw := (hholds.scan_iff h0).mp ((findItem_iff hsucc hholds.total name s₁).mp (hfind s₁))
    refine ⟨n, T, hcount, ?_, (hwithin hend).mp hw⟩
    have hentries : T ≤ header.rootDirEntries.toNat := by
      by_contra hT
      refine hw.present header.rootDirEntries.toNat (by omega) ?_
      simp [storedRoot]
    have := header.rootDirEntries.isLt
    simp only [sizeofItem]; omega
  · rintro ⟨n, T, hcount, -, hw⟩
    obtain ⟨directory, s₁, hload, hholds, hend⟩ :=
      getRootDirectory_of_count hsucc disk header hcount s
    refine ⟨directory, s₁, hload, fun s₂ => ?_⟩
    exact (findItem_iff hsucc hholds.total name s₂).mpr
      ((hholds.scan_iff h0).mpr ((hwithin hend).mpr hw))

/-- So is a subdirectory. -/
theorem subdirectoryFinds_iff (hsucc : alloc.Succeeds) {item : FatDirectoryItem}
    (hsub : item.attributes &&& fatFileSubdirectory ≠ 0) {name : Name} (hname : name ≠ [])
    (h0 : 0 ∉ name) (s : KState H) :
    SubdirectoryFinds alloc vol item name s ↔
      Counts vol (storedSubdirectory vol item) name := by
  constructor
  · rintro ⟨addr, directory, s₁, hload, hfind⟩
    obtain ⟨hC, n, T, hcount⟩ := loads_of_loadFatDirectory hsucc hsub hload
    obtain ⟨p, s', hload', hreads, hlive⟩ := loadFatDirectory_of_count hsucc hsub hC hcount s
    rw [hload] at hload'
    cases hload'
    rcases hlive addr directory rfl with hreadable | hblank
    · obtain ⟨_, _, hp, hholds⟩ := hreads hreadable
      cases hp
      exact ⟨n, T, hcount, hreadable.1,
        (hholds.scan_iff h0).mp ((findItem_iff hsucc hholds.total name s₁).mp (hfind s₁))⟩
    · exact absurd ((findItem_iff hsucc hblank.total name s₁).mp (hfind s₁)).2
        (hblank.not_hits hname h0)
  · rintro ⟨n, T, hcount, hlt, hw⟩
    have hC : 0 < clusterBytes vol := by
      obtain ⟨i, -, bytes, hbytes, -⟩ := hw.hit
      simp only [storedSubdirectory] at hbytes
      split at hbytes
      · rename_i h; exact h.1
      · cases hbytes
    obtain ⟨p, s₁, hload, hreads, -⟩ := loadFatDirectory_of_count hsucc hsub hC hcount s
    obtain ⟨addr, directory, rfl, hholds⟩ := hreads ⟨hlt, hw.present⟩
    refine ⟨addr, directory, s₁, hload, fun s₂ => ?_⟩
    exact (findItem_iff hsucc hholds.total name s₂).mpr ((hholds.scan_iff h0).mpr hw)

/-- **A live match is found exactly when a match is among the first `T` slots**, `T` being the
number of slots the counting pass counts. -/
theorem lookup_complete_iff (alloc : Allocator H) (hsucc : alloc.Succeeds) (name : Name)
    (hname : name ≠ []) (h0 : 0 ∉ name) (s : KState H) :
    (∀ disk header, (LiveMatch (storedRoot disk header) name →
        RootFinds alloc disk header name s) ↔
      (LiveMatch (storedRoot disk header) name →
        Counts (mountedVolume disk header) (storedRoot disk header) name)) ∧
    ∀ vol item, item.attributes &&& fatFileSubdirectory ≠ 0 →
      ((LiveMatch (storedSubdirectory vol item) name →
          SubdirectoryFinds alloc vol item name s) ↔
        (LiveMatch (storedSubdirectory vol item) name →
          Counts vol (storedSubdirectory vol item) name)) := by
  refine ⟨fun disk header => ?_, fun vol item hsub => ?_⟩
  · rw [rootFinds_iff hsucc disk header h0 s]
  · rw [subdirectoryFinds_iff hsucc hsub hname h0 s]

end

/-! ### A root directory of two slots -/

/-- The root directory, in sector 2, has a slot whose name starts with `first`, a file `A`, and then
no slot in use. -/
def twoSlotDisk (first : U8) : Disk :=
  ⟨fun lba i => if lba = 2 then
    if i = 0 then first else if i = 32 then 0x41 else if i < 64 then 0x20 else 0
  else 0⟩

/-- The header of its volume. -/
def twoSlotHeader : FatHeader :=
  { sectorsPerCluster := 1, reservedSectors := 1, fatCopies := 1, rootDirEntries := 16,
    sectorsPerFat := 1 }

theorem twoSlot_liveMatch :
    LiveMatch (storedRoot (twoSlotDisk 0x42) twoSlotHeader) [0x61] ∧
      LiveMatch (storedRoot (twoSlotDisk 0xE5) twoSlotHeader) [0x61] := by
  constructor <;>
  · refine ⟨1, _, rfl, by decide +kernel, by decide +kernel, fun j hj => ?_⟩
    rcases (show j = 0 ∨ j = 1 by omega) with rfl | rfl <;> exact ⟨_, rfl, by decide +kernel⟩

/-- With no slot deleted, the file is found under `a`. -/
theorem lookup_complete_twoSlots :
    RootFinds Allocator.ample (twoSlotDisk 0x42) twoSlotHeader [0x61] ⟨0, fun _ => 0⟩ := by
  refine ((lookup_complete_iff Allocator.ample Allocator.ample_succeeds [0x61] (by decide)
    (by decide) ⟨0, fun _ => 0⟩).1 _ _).mpr (fun _ => ?_) twoSlot_liveMatch.1
  refine ⟨2, 2, ⟨by decide +kernel, by decide +kernel, by decide +kernel, by decide +kernel⟩,
    by decide, by decide, ⟨1, by decide, _, rfl, by decide +kernel⟩, ?_⟩
  intro i hi bytes hbytes _ hsub
  refine absurd ?_ hsub
  rcases (show i = 0 ∨ i = 1 by omega) with rfl | rfl <;> cases hbytes <;> decide +kernel

/-- **Behind a deleted slot the file is not found**: one slot is counted, and the deleted one is
the only one scanned. -/
theorem lookup_misses_behind_deleted :
    Allocator.ample.Succeeds ∧ LiveMatch (storedRoot (twoSlotDisk 0xE5) twoSlotHeader) [0x61] ∧
      ¬ RootFinds Allocator.ample (twoSlotDisk 0xE5) twoSlotHeader [0x61] ⟨0, fun _ => 0⟩ := by
  refine ⟨Allocator.ample_succeeds, twoSlot_liveMatch.2, fun h => ?_⟩
  obtain ⟨n, T, hcount, -, hw⟩ := (rootFinds_iff Allocator.ample_succeeds _ _ (by decide) _).mp h
  have hone :
      SlotCount (twoSlotDisk 0xE5) (storedRoot (twoSlotDisk 0xE5) twoSlotHeader).start 2 1 :=
    ⟨by decide +kernel, by decide +kernel, by decide +kernel, by decide +kernel⟩
  obtain rfl := hcount.unique hone
  obtain ⟨i, hi, bytes, hbytes, hsame⟩ := hw.hit
  obtain rfl : i = 0 := by omega
  cases hbytes
  exact absurd hsame (by decide +kernel)

end KernelNES.Fs
