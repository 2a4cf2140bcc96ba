import KernelNES.Fs.FatFile
import KernelNES.Fs.PathRoundTrip
import KernelNES.Fs.PathWalk
import KernelNES.Fs.RealEntries

/-!
# Fs — FileTree

The files of a volume as a tree on the disk.  `Tree` says which path leads to which directory item,
on the sectors alone: each directory is one whose slots are counted and stored, and each part of the
path names one slot of it.  `fopen` of a path of the tree opens the file it leads to, at its start
(`fopen_tree`).
-/

namespace KernelNES.Fs
open KernelNES.Lib KernelNES.Memory
open PathMemory (printPath printPath_pieces)

/-! ### The tree -/

/-- `T` slots of a directory are counted, and all of them are stored. -/
structure Listed (disk : Disk) (stored : StoredDirectory) (T : Nat) : Prop where
  counted : ∃ n, SlotCount disk stored.start n T
  readable : Readable stored T

/-- One of the first `T` slots, and no other, has the name. -/
structure Names (stored : StoredDirectory) (T : Nat) (name : Name) (bytes : List U8) : Prop where
  slot : ∃ i < T, stored.slots i = some bytes ∧
    ∀ j < T, ∀ b, stored.slots j = some b →
      SameUpToCase (shortName (.ofBytes b)) name → j = i
  named : SameUpToCase (shortName (.ofBytes bytes)) name

/-- The path leads from a directory to a file. -/
inductive Tree (vol : Volume) : StoredDirectory → List Name → FatDirectoryItem → Prop where
  | file {stored : StoredDirectory} {T : Nat} {name : Name} {bytes : List U8}
      (hlisted : Listed vol.disk stored T) (hnames : Names stored T name bytes)
      (hfile : (FatDirectoryItem.ofBytes bytes).attributes &&& fatFileSubdirectory = 0) :
      Tree vol stored [name] (.ofBytes bytes)
  | down {stored : StoredDirectory} {T : Nat} {name : Name} {bytes : List U8} {path : List Name}
      {item : FatDirectoryItem}
      (hlisted : Listed vol.disk stored T) (hnames : Names stored T name bytes)
      (hsub : (FatDirectoryItem.ofBytes bytes).attributes &&& fatFileSubdirectory ≠ 0)
      (h : Tree vol (storedSubdirectory vol (.ofBytes bytes)) path item) :
      Tree vol stored (name :: path) item

theorem Tree.listed {vol : Volume} {stored : StoredDirectory} {path : List Name}
    {item : FatDirectoryItem} (h : Tree vol stored path item) :
    ∃ T, Listed vol.disk stored T := by
  cases h with
  | file hlisted => exact ⟨_, hlisted⟩
  | down hlisted => exact ⟨_, hlisted⟩

/-- A directory is listed in one way. -/
theorem Listed.unique {disk : Disk} {stored : StoredDirectory} {T T' : Nat}
    (h : Listed disk stored T) (h' : Listed disk stored T') : T = T' := by
  obtain ⟨n, hn⟩ := h.counted
  obtain ⟨n', hn'⟩ := h'.counted
  exact hn.unique hn'

theorem Tree.ne_nil {vol : Volume} {stored : StoredDirectory} {path : List Name}
    {item : FatDirectoryItem} (h : Tree vol stored path item) : path ≠ [] := by
  cases h with
  | file => exact List.cons_ne_nil _ _
  | down => exact List.cons_ne_nil _ _

/-! ### One lookup -/

section
variable {H : Type} {alloc : Allocator H} {vol : Volume}

/-- The slot is the only one that the search of the loaded directory stops at. -/
theorem Names.lastNamed {directory : FatDirectory} {stored : StoredDirectory} {T : Nat}
    {name : Name} {bytes : List U8} (h : Names stored T name bytes)
    (hholds : Holds directory stored T) (hread : Readable stored T) (h0 : 0 ∉ name) :
    ∃ i, LastNamed directory name T i (.ofBytes bytes) := by
  obtain ⟨i, hi, hslot, honly⟩ := h.slot
  refine ⟨i, hi, hholds.slot i hi bytes hslot, (named_iff bytes h0).mpr h.named, ?_⟩
  intro j hij hj item hitem hnamed
  obtain ⟨b, hb⟩ := Option.ne_none_iff_exists'.mp (hread.2 j hj)
  rw [hholds.slot j hj b hb] at hitem
  cases hitem
  have hji := honly j hj b hb ((named_iff b h0).mp hnamed)
  omega

/-- **One lookup** makes an item of the slot that has the name. -/
theorem findItem_names (hsucc : alloc.Succeeds) {directory : FatDirectory}
    {stored : StoredDirectory} {T : Nat} {name : Name} {bytes : List U8}
    (h : Names stored T name bytes) (hholds : Holds directory stored T)
    (hread : Readable stored T) (h0 : 0 ∉ name) (hopen : Openable vol (.ofBytes bytes))
    (s : KState H) :
    ∃ r s' s₁ s₂, fat16FindItemInDirectory alloc vol directory name s = .ok (r, s') ∧
      fat16NewFatItemForDirectoryItem alloc vol (.ofBytes bytes) s₁ = .ok (r, s₂) ∧ r ≠ .null := by
  obtain ⟨i, hlast⟩ := h.lastNamed hholds hread h0
  have hwithin : Within vol stored name T := by
    obtain ⟨i, hi, hslot, honly⟩ := h.slot
    refine ⟨hread.2, ⟨i, hi, bytes, hslot, h.named⟩, fun j hj b hb hsame => ?_⟩
    obtain rfl := honly j hj b hb hsame
    rw [hslot] at hb
    cases hb
    exact hopen
  obtain ⟨r, s', hfind, hr⟩ :=
    (findItem_iff hsucc hholds.total name s).mpr ((hholds.scan_iff h0).mpr hwithin)
  obtain ⟨j, item, s₁, s₂, -, hj, hmade⟩ := findItem_made hfind hr
  rw [hholds.total, Int.toNat_natCast] at hj
  rw [hj.unique hlast] at hmade
  exact ⟨r, s', s₁, s₂, hfind, hmade, hr⟩

theorem madeItem_file (hsucc : alloc.Succeeds) {item : FatDirectoryItem}
    (hfile : item.attributes &&& fatFileSubdirectory = 0) {s s' : KState H} {r : Ref FatItem}
    (h : fat16NewFatItemForDirectoryItem alloc vol item s = .ok (r, s')) :
    ∃ a p, r = .live a (.file (.live p item)) := by
  obtain ⟨a, s₁, hs₁, ha⟩ := kzalloc_succeeds hsucc 8 s
  obtain ⟨p, s₂, hs₂, hp⟩ := kzalloc_succeeds hsucc (BitVec.ofNat 32 sizeofItem) s₁
  have hclone : fat16CloneDirectoryItem alloc item sizeofItem s₁ = .ok (.live p item, s₂) := by
    rw [fat16CloneDirectoryItem, if_neg (by decide), Exec.bind_ok hs₂, if_neg hp]
    rfl
  rw [fat16NewFatItemForDirectoryItem, Exec.bind_ok hs₁, if_neg ha, if_neg (not_not.mpr hfile),
    Exec.bind_ok hclone] at h
  cases h
  exact ⟨a, p, rfl⟩

/-- The item of a listed subdirectory holds what is stored. -/
theorem madeItem_directory (hsucc : alloc.Succeeds) (hC : 0 < clusterBytes vol)
    {item : FatDirectoryItem} (hsub : item.attributes &&& fatFileSubdirectory ≠ 0) {T : Nat}
    (hlisted : Listed vol.disk (storedSubdirectory vol item) T) {s s' : KState H} {r : Ref FatItem}
    (h : fat16NewFatItemForDirectoryItem alloc vol item s = .ok (r, s')) :
    ∃ a b directory, r = .live a (.directory (.live b directory)) ∧
      Holds directory (storedSubdirectory vol item) T := by
  obtain ⟨n, hcount⟩ := hlisted.counted
  obtain ⟨a, s₁, hs₁, ha⟩ := kzalloc_succeeds hsucc 8 s
  obtain ⟨p, s₂, hs₂, hreads, -⟩ := loadFatDirectory_of_count hsucc hsub hC hcount s₁
  obtain ⟨b, directory, rfl, hholds⟩ := hreads hlisted.readable
  rw [fat16NewFatItemForDirectoryItem, Exec.bind_ok hs₁, if_neg ha, if_pos hsub,
    Exec.bind_ok hs₂] at h
  cases h
  exact ⟨a, b, directory, rfl, hholds⟩

/-- The directory that a subdirectory's slot leads to can be loaded. -/
theorem Tree.openable {bytes : List U8} {path : List Name} {item : FatDirectoryItem}
    (h : Tree vol (storedSubdirectory vol (.ofBytes bytes)) path item)
    (hC : 0 < clusterBytes vol) : Openable vol (.ofBytes bytes) := by
  obtain ⟨T, hlisted⟩ := h.listed
  obtain ⟨n, hcount⟩ := hlisted.counted
  exact fun _ => ⟨hC, n, T, hcount⟩

/-! ### The walk -/

/-- **The walk** along a path of the tree ends at its file, from any directory that is loaded. -/
theorem entryLoop_tree (hsucc : alloc.Succeeds) (hC : 0 < clusterBytes vol)
    {stored : StoredDirectory} {path : List Name} {item : FatDirectoryItem}
    (h : Tree vol stored path item) (h0 : ∀ name ∈ path, 0 ∉ name) {directory : FatDirectory}
    {T : Nat} (hlisted : Listed vol.disk stored T) (hholds : Holds directory stored T) (a b : U32)
    (s : KState H) :
    ∃ q p s', fat16GetDirectoryEntryLoop alloc vol path
      (.live a (.directory (.live b directory))) s = .ok (.live q (.file (.live p item)), s') := by
  induction h generalizing directory T a b s with
  | file hlisted' hnames hfile =>
      obtain rfl := hlisted.unique hlisted'
      obtain ⟨r, s₁, t, t', hfind, hmade, -⟩ := findItem_names hsucc hnames hholds
        hlisted.readable (h0 _ List.mem_cons_self) (fun hsub => absurd hfile hsub) s
      obtain ⟨q, p, rfl⟩ := madeItem_file hsucc hfile hmade
      obtain ⟨s₂, hfree⟩ := fatItemFree_directory alloc a b directory s₁
      exact ⟨q, p, s₂, by rw [entryLoop_down hfind hfree]; rfl⟩
  | down hlisted' hnames hsub hrest ih =>
      obtain rfl := hlisted.unique hlisted'
      obtain ⟨r, s₁, t, t', hfind, hmade, -⟩ := findItem_names hsucc hnames hholds
        hlisted.readable (h0 _ List.mem_cons_self) (hrest.openable hC) s
      obtain ⟨T', hlisted'⟩ := hrest.listed
      obtain ⟨a', b', directory', rfl, hholds'⟩ := madeItem_directory hsucc hC hsub hlisted' hmade
      obtain ⟨s₂, hfree⟩ := fatItemFree_directory alloc a b directory s₁
      obtain ⟨q, p, s', hloop⟩ := ih (fun name hname => h0 name (List.mem_cons_of_mem _ hname))
        hlisted' hholds' a' b' s₂
      exact ⟨q, p, s', by rw [entryLoop_down hfind hfree, hloop]⟩

/-- The root directory is loaded as it is stored. -/
structure Mounted (vol : Volume) (T : Nat) : Prop where
  listed : Listed vol.disk (storedRoot vol.disk vol.header) T
  holds : Holds vol.rootDirectory (storedRoot vol.disk vol.header) T
  clusters : 0 < clusterBytes vol

/-- Down the tree, the lookup finds the file. -/
theorem getDirectoryEntry_tree (hsucc : alloc.Succeeds) {T : Nat} (hmounted : Mounted vol T)
    {part : Name} {next : List Name} {item : FatDirectoryItem}
    (h : Tree vol (storedRoot vol.disk vol.header) (part :: next) item)
    (h0 : ∀ name ∈ part :: next, 0 ∉ name) (s : KState H) :
    ∃ q p s', fat16GetDirectoryEntry alloc vol part next s =
      .ok (.live q (.file (.live p item)), s') := by
  obtain ⟨hroot, hholdsRoot, hC⟩ := hmounted
  generalize storedRoot vol.disk vol.header = stored at h hroot hholdsRoot
  cases h with
  | file hlisted hnames hfile =>
      obtain rfl := hroot.unique hlisted
      obtain ⟨r, s₁, t, t', hfind, hmade, hr⟩ := findItem_names hsucc hnames hholdsRoot
        hlisted.readable (h0 _ List.mem_cons_self) (fun hsub => absurd hfile hsub) s
      obtain ⟨q, p, rfl⟩ := madeItem_file hsucc hfile hmade
      exact ⟨q, p, s₁, by rw [fat16GetDirectoryEntry, Exec.bind_ok hfind, if_neg hr]; rfl⟩
  | down hlisted hnames hsub hrest =>
      obtain rfl := hroot.unique hlisted
      obtain ⟨r, s₁, t, t', hfind, hmade, hr⟩ := findItem_names hsucc hnames hholdsRoot
        hlisted.readable (h0 _ List.mem_cons_self) (hrest.openable hC) s
      obtain ⟨T', hlisted'⟩ := hrest.listed
      obtain ⟨a, b, directory, rfl, hholds⟩ := madeItem_directory hsucc hC hsub hlisted' hmade
      obtain ⟨q, p, s', hloop⟩ := entryLoop_tree hsucc hC hrest
        (fun name hname => h0 name (List.mem_cons_of_mem _ hname)) hlisted' hholds a b s₁
      exact ⟨q, p, s', by rw [fat16GetDirectoryEntry, Exec.bind_ok hfind, if_neg hr, hloop]⟩

/-! ### `fopen` -/

/-- Every allocation succeeds, at an address that is not taken for an error. -/
def Allocator.Low (alloc : Allocator H) : Prop :=
  ∀ size h, 0 < (alloc.kzalloc size h).1.toInt

theorem Allocator.Low.succeeds (hlow : Allocator.Low alloc) : alloc.Succeeds := by
  intro size h hnull
  have hpos := hlow size h
  rw [hnull] at hpos
  exact absurd hpos (by decide)

theorem Allocator.ample_low : Allocator.Low .ample := by
  intro size n
  have h := Nat.mod_lt n (show 25600 > 0 by decide)
  show 0 < (BitVec.ofNat 32 (0x01000000 + 4096 * (n % 25600))).toInt
  rw [BitVec.toInt_eq_toNat_of_lt] <;> rw [BitVec.toNat_ofNat] <;> omega

/-- The path is one that can be written: parts that are not empty, without slashes or terminators,
and the whole no longer than a path may be. -/
structure Printable (components : List Name) (trailing : Bool) : Prop where
  nonempty : components ≠ []
  parts : ∀ c ∈ components, c ≠ [] ∧ slash ∉ c ∧ 0 ∉ c
  short : (printPath 0x30 components trailing).length ≤ peachosMaxPath

theorem printPath_valid (components : List Name) (trailing : Bool) :
    pathparserPathValidFormat (printPath 0x30 components trailing) := by
  simp [pathparserPathValidFormat, printPath, strnlen, peachosMaxPath, isdigit]

/-- `fat16_open` opens a file of the tree at its start. -/
theorem fat16Open_tree (hlow : Allocator.Low alloc) {T : Nat} (hmounted : Mounted vol T)
    {path : List PathPart} {item : FatDirectoryItem}
    (h : Tree vol (storedRoot vol.disk vol.header) (path.map PathPart.part) item)
    (h0 : ∀ name ∈ path.map PathPart.part, 0 ∉ name) (s : FatState H) :
    ∃ d q p s', fat16Open alloc vol path .read s = .ok (d, s') ∧ 0 < d.toInt ∧
      s'.descriptors d = .live d { item := .live q (.file (.live p item)), pos := 0 } := by
  obtain ⟨d, s₁, hs₁, hd⟩ : ∃ d s₁, kzalloc alloc 8 s.driver = .ok (d, s₁) ∧ 0 < d.toInt :=
    ⟨_, _, rfl, hlow 8 s.driver.heap⟩
  have hd0 : d ≠ 0 := by
    rintro rfl
    exact absurd hd (by decide)
  cases path with
  | nil => exact absurd rfl h.ne_nil
  | cons part next =>
      obtain ⟨q, p, s₂, hentry⟩ := getDirectoryEntry_tree hlow.succeeds hmounted h h0 s₁
      refine ⟨d, q, p, ⟨s₂, Function.update s.descriptors d (.live d _)⟩, ?_, hd,
        Function.update_self ..⟩
      rw [fat16Open, if_neg (not_not.mpr rfl), Exec.bind_ok (onDriver_eq_ok.mpr ⟨s₁, hs₁, rfl⟩),
        if_neg hd0]
      dsimp only
      rw [Exec.bind_ok (onDriver_eq_ok.mpr ⟨s₂, hentry, rfl⟩), if_neg nofun]
      rfl

/-- **`fopen` opens the file that the path leads to**, at its start, in the first free entry of the
table. -/
theorem fopen_tree (hlow : Allocator.Low alloc) {T : Nat} (hmounted : Mounted vol T)
    {components : List Name} {item : FatDirectoryItem}
    (h : Tree vol (storedRoot vol.disk vol.header) components item) {trailing : Bool}
    (hprint : Printable components trailing) {modeStr : Name}
    (hmode : fileGetModeByString modeStr = .read) {s : FileState (FatState H)} {i : Nat}
    (hi : i + 1 < peachosMaxFileDescriptors) (hfree : FirstFree s.fileDescriptors i) :
    ∃ s', fopen (Allocator.onFat alloc) (fat16Disk alloc vol)
        (printPath 0x30 components trailing) modeStr s = .ok (i + 1, s') ∧
      OnVolume alloc vol s' (i + 1) item 0 := by
  have hsucc : (Allocator.onFat alloc).Succeeds := fun size h => hlow.succeeds size h.driver.heap
  -- the path is parsed into its components
  obtain ⟨root, k₁, hparse, hdrive, hparts⟩ := pathparserParse_ok hsucc hprint.short
    (printPath_valid components trailing) s.kernel
  rw [printPath_pieces hprint.nonempty fun c hc => ⟨(hprint.parts c hc).1, (hprint.parts c hc).2.1⟩]
    at hparts
  have hfirst : root.first ≠ [] := by
    intro he
    rw [he] at hparts
    exact hprint.nonempty hparts.symm
  have hdisk : diskGet (fat16Disk alloc vol) root.driveNo = some (fat16Disk alloc vol) := by
    rw [hdrive]
    rfl
  -- the driver opens the file
  obtain ⟨d, q, p, k₂, hopen, hd, hdesc⟩ := fat16Open_tree hlow hmounted
    (show Tree vol (storedRoot vol.disk vol.header) (root.first.map PathPart.part) item by
      rwa [hparts]) (fun name hname => (hprint.parts name (by rwa [← hparts])).2.2) k₁
  have hprivate : fopenPrivate (Allocator.onFat alloc) (fat16Disk alloc vol)
      (printPath 0x30 components trailing) modeStr s.kernel =
        .ok (.ok (fat16Filesystem alloc vol, d), k₂) := by
    rw [fopenPrivate, Exec.bind_ok hparse]
    dsimp only
    rw [if_neg hfirst, hdisk]
    dsimp only [fat16Disk]
    rw [hmode, if_neg nofun]
    dsimp only [fat16Filesystem]
    rw [Exec.bind_ok hopen, if_neg (by omega)]
    rfl
  -- the entry of the table points to the descriptor
  obtain ⟨ptr, k₃, -, hnew⟩ := hsucc.kzallocWritten 16 k₂
  have hsame := kzallocWritten_descriptors hnew
  have hbody := fopenBody_ok hprivate (by omega) hfree hnew
  have hget : ∀ desc, fileGetDescriptor (H := FatState H)
      ⟨Function.update s.fileDescriptors i desc, k₃⟩ (i + 1) = desc := by
    intro desc
    rw [fileGetDescriptor, if_neg (by omega), show ((i : Int) + 1 - 1).toNat = i by omega]
    exact Function.update_self ..
  refine ⟨_, by rw [fopen, Exec.bind_ok hbody]; dsimp only; rw [if_neg (by omega)]; rfl, ?_, ?_⟩
  · exact ⟨ptr, _, d, q, p, hget _, by rw [hsame, hdesc]⟩
  · intro ptr' desc' h'
    rw [hget] at h'
    cases h'
    rfl

end

end KernelNES.Fs
