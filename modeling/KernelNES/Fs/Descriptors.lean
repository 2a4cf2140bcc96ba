import KernelNES.Fs.File
import KernelNES.Lib.Runs

/-!
# Fs — Descriptors

Sessions of calls on files.  A session remembers, for every file descriptor handed out and not yet
closed, the `struct file_descriptor` that its `fopen` made.  An open file stays usable exactly in
the sessions whose every successful `fopen` finds one of the entries `0` to `510` free: the
descriptor of the last entry is `512`, which `file_get_descriptor` rejects.
-/

namespace KernelNES.Fs
open KernelNES.Lib KernelNES.Memory

section
variable {H : Type}

/-- The files, and what is open. -/
structure Session (H : Type) where
  files : FileState H
  opened : List (Int × Ref (FileDescriptor H))

/-- A call of a session. -/
inductive FileCall where
  | fopen (filename modeStr : Name)
  | fclose (fd : Int)
  | fread (size nmemb : U32) (fd : Int)
  | fseek (fd offset : Int) (whence : FileSeekMode)
  | fstat (fd : Int)

/-- One call.  A positive result of `fopen` is an open file, until its `fclose` succeeds. -/
inductive FileStep (alloc : Allocator H) (disk : MountedDisk H) :
    Session H → FileCall → Session H → Prop where
  | fopen {s : Session H} {filename modeStr : Name} {res : Int} {desc : Ref (FileDescriptor H)}
      {files : FileState H}
      (h : fopenBody alloc disk filename modeStr s.files = .ok ((res, desc), files)) :
      FileStep alloc disk s (.fopen filename modeStr)
        ⟨files, if 0 < res then (res, desc) :: s.opened else s.opened⟩
  | fclose {s : Session H} {fd res : Int} {files : FileState H}
      (h : fclose alloc fd s.files = .ok (res, files)) :
      FileStep alloc disk s (.fclose fd)
        ⟨files, if res = 0 then s.opened.filter fun p => p.1 ≠ fd else s.opened⟩
  | fread {s : Session H} {size nmemb : U32} {fd : Int} {res : Int × List U8}
      {files : FileState H} (h : fread size nmemb fd s.files = .ok (res, files)) :
      FileStep alloc disk s (.fread size nmemb fd) ⟨files, s.opened⟩
  | fseek {s : Session H} {fd offset res : Int} {whence : FileSeekMode} {files : FileState H}
      (h : fseek fd offset whence s.files = .ok (res, files)) :
      FileStep alloc disk s (.fseek fd offset whence) ⟨files, s.opened⟩
  | fstat {s : Session H} {fd : Int} {res : Int × Option FileStat} {files : FileState H}
      (h : fstat fd s.files = .ok (res, files)) :
      FileStep alloc disk s (.fstat fd) ⟨files, s.opened⟩

/-- Every call on `fd` reaches the filesystem of its descriptor. -/
def Served (alloc : Allocator H) (files : FileState H) (fd : Int) : Prop :=
  ∃ ptr desc filesystem,
    fileGetDescriptor files fd = .live ptr desc ∧ desc.filesystem = some filesystem ∧
    (∀ size nmemb, size ≠ 0 → nmemb ≠ 0 → fread size nmemb fd files =
      onKernel (filesystem.fsRead desc.privateData size nmemb) files) ∧
    (∀ offset whence, fseek fd offset whence files =
      onKernel (filesystem.fsSeek desc.privateData (BitVec.ofInt 32 offset) whence) files) ∧
    fstat fd files = onKernel (filesystem.fsStat desc.privateData) files ∧
    fclose alloc fd files = closeDescriptor alloc ptr desc filesystem files

/-- What is open can be used: each descriptor denotes what its `fopen` made, no two are the same,
and the calls on them are not rejected. -/
structure Usable (alloc : Allocator H) (s : Session H) : Prop where
  denotes : ∀ p ∈ s.opened, fileGetDescriptor s.files p.1 = p.2
  distinct : s.opened.Pairwise fun p q => p.1 ≠ q.1
  served : ∀ p ∈ s.opened, Served alloc s.files p.1

/-- An `fopen` whose path, disk and mode are accepted and whose file the filesystem opens finds one
of the first 511 entries free. -/
def FreeSlotLeft (alloc : Allocator H) (disk : MountedDisk H) (s : Session H) : FileCall → Prop
  | .fopen filename modeStr =>
      ∀ r h, fopenPrivate alloc disk filename modeStr s.files.kernel = .ok (.ok r, h) →
        ∃ i < 511, (s.files.fileDescriptors i).isNull
  | _ => True

/-! ### The invariant -/

/-- Entry `i` holds the descriptor numbered `i + 1`. -/
structure HoldsEntry (files : FileState H) (i : Nat) (p : Ref (FileDescriptor H)) : Prop where
  lt : i < 511
  entry : files.fileDescriptors i = p
  numbered : ∃ ptr desc filesystem, p = .live ptr desc ∧ desc.index = i + 1 ∧
    desc.filesystem = some filesystem

/-- What an entry holds depends on that entry only. -/
theorem HoldsEntry.congr {files files' : FileState H} {i : Nat} {p : Ref (FileDescriptor H)}
    (h : HoldsEntry files i p) (he : files'.fileDescriptors i = files.fileDescriptors i) :
    HoldsEntry files' i p :=
  { h with entry := he.trans h.entry }

theorem HoldsEntry.ne_null {files : FileState H} {i : Nat} {p : Ref (FileDescriptor H)}
    (h : HoldsEntry files i p) : (files.fileDescriptors i).isNull = false := by
  obtain ⟨ptr, desc, filesystem, rfl, -, -⟩ := h.numbered
  rw [h.entry]
  rfl

/-- What holds as long as the last entry is not used. -/
structure FilesInv (s : Session H) : Prop where
  last : s.files.fileDescriptors 511 = .null
  entries : ∀ i < 511, s.files.fileDescriptors i = .null ∨
    HoldsEntry s.files i (s.files.fileDescriptors i)
  owned : ∀ p ∈ s.opened, ∃ i : Nat, p.1 = i + 1 ∧ HoldsEntry s.files i p.2
  distinct : s.opened.Pairwise fun p q => p.1 ≠ q.1

/-- No file is open at first. -/
theorem filesInv_init (kernel : H) : FilesInv ⟨fsInit kernel, []⟩ where
  last := rfl
  entries _ _ := .inl rfl
  owned _ h := by cases h
  distinct := .nil

/-- `file_get_descriptor` finds what an entry below the last one holds. -/
theorem HoldsEntry.fileGetDescriptor {files : FileState H} {i : Nat} {p : Ref (FileDescriptor H)}
    (h : HoldsEntry files i p) : fileGetDescriptor files (i + 1) = p := by
  have hlt := h.lt
  unfold Fs.fileGetDescriptor peachosMaxFileDescriptors
  rw [if_neg (by omega), ← h.entry]
  congr 1
  omega

/-- A held entry serves its descriptor. -/
theorem HoldsEntry.served {files : FileState H} {i : Nat} {p : Ref (FileDescriptor H)}
    (h : HoldsEntry files i p) (alloc : Allocator H) : Served alloc files (i + 1) := by
  obtain ⟨ptr, desc, filesystem, rfl, -, hf⟩ := h.numbered
  have hget := h.fileGetDescriptor
  refine ⟨ptr, desc, filesystem, hget, hf, fun size nmemb hs hn => ?_, fun offset whence => ?_,
    ?_, ?_⟩
  · unfold fread
    rw [if_neg (by simp only [hs, hn, false_or]; omega)]
    exact withDescriptor_live hget hf
  all_goals exact withDescriptor_live hget hf

/-- The invariant makes every open descriptor usable. -/
theorem FilesInv.usable {s : Session H} (h : FilesInv s) (alloc : Allocator H) :
    Usable alloc s where
  denotes p hp := by
    obtain ⟨i, hfd, hi⟩ := h.owned p hp
    rw [hfd]
    exact hi.fileGetDescriptor
  distinct := h.distinct
  served p hp := by
    obtain ⟨i, hfd, hi⟩ := h.owned p hp
    rw [hfd]
    exact hi.served alloc

/-! ### One call -/

variable {alloc : Allocator H} {disk : MountedDisk H} {s s' : Session H} {c : FileCall}

/-- The invariant is about the table alone. -/
theorem FilesInv.congr {files : FileState H} (h : FilesInv s)
    (he : files.fileDescriptors = s.files.fileDescriptors) : FilesInv ⟨files, s.opened⟩ where
  last := he ▸ h.last
  entries i hi := he ▸ (h.entries i hi).imp_right fun h => h.congr (congrFun he i)
  owned p hp := by
    obtain ⟨i, hfd, hi⟩ := h.owned p hp
    exact ⟨i, hfd, hi.congr (congrFun he i)⟩
  distinct := h.distinct

/-- Setting one entry leaves what the others hold. -/
theorem FilesInv.entry_of_ne {files : FileState H} {i j : Nat} {p : Ref (FileDescriptor H)}
    (h : FilesInv s) (he : files.fileDescriptors = Function.update s.files.fileDescriptors i p)
    (hij : j ≠ i) (hj : j < 511) :
    files.fileDescriptors j = .null ∨ HoldsEntry files j (files.fileDescriptors j) := by
  have hsame : files.fileDescriptors j = s.files.fileDescriptors j := by
    rw [he, Function.update_of_ne hij]
  rw [hsame]
  exact (h.entries j hj).imp_right fun h => h.congr hsame

/-- A new descriptor in a free entry below the last one. -/
theorem FilesInv.opens {files : FileState H} {i : Nat} {p : Ref (FileDescriptor H)}
    (h : FilesInv s) (hfree : (s.files.fileDescriptors i).isNull)
    (he : files.fileDescriptors = Function.update s.files.fileDescriptors i p)
    (hi : HoldsEntry files i p) : FilesInv ⟨files, ((i : Int) + 1, p) :: s.opened⟩ where
  last := by
    have := hi.lt
    simp only [he]
    rw [Function.update_of_ne (by omega), h.last]
  entries j hj := by
    by_cases hij : j = i
    · subst hij
      exact .inr (hi.entry ▸ hi)
    · exact h.entry_of_ne he hij hj
  owned := by
    intro q hq
    rcases List.mem_cons.mp hq with rfl | hq
    · exact ⟨i, rfl, hi⟩
    · obtain ⟨j, hfd, hj⟩ := h.owned q hq
      have hij : j ≠ i := by
        rintro rfl
        simp [hj.ne_null] at hfree
      exact ⟨j, hfd, hj.congr (by rw [he, Function.update_of_ne hij])⟩
  distinct := by
    refine List.pairwise_cons.mpr ⟨fun q hq hfd => ?_, h.distinct⟩
    obtain ⟨j, hj, hheld⟩ := h.owned q hq
    -- the entry was free, and so none of the descriptors handed out before
    obtain rfl : j = i := by omega
    simp [hheld.ne_null] at hfree

/-- The entry of a descriptor given back. -/
theorem FilesInv.closes {files : FileState H} {i : Nat} (h : FilesInv s)
    (he : files.fileDescriptors = Function.update s.files.fileDescriptors i .null) :
    FilesInv ⟨files, s.opened.filter fun p => p.1 ≠ (i : Int) + 1⟩ where
  last := by
    simp only [he]
    by_cases hi : 511 = i
    · rw [← hi, Function.update_self]
    · rw [Function.update_of_ne hi, h.last]
  entries j hj := by
    by_cases hij : j = i
    · exact .inl (by simp only [he, hij, Function.update_self])
    · exact h.entry_of_ne he hij hj
  owned := by
    intro q hq
    obtain ⟨hq, hne⟩ := List.mem_filter.mp hq
    obtain ⟨j, hfd, hj⟩ := h.owned q hq
    have hij : j ≠ i := by
      rintro rfl
      simp [hfd] at hne
    exact ⟨j, hfd, hj.congr (by rw [he, Function.update_of_ne hij])⟩
  distinct := h.distinct.filter _

/-- `fread`, `fseek` and `fstat` leave the table alone. -/
theorem withDescriptor_frame {α : Type} {fd : Int} {rejected a : α} {files files' : FileState H}
    {serve : FileDescriptor H → Filesystem H → Exec Fault H α}
    (h : withDescriptor fd rejected (fun _ desc filesystem => onKernel (serve desc filesystem))
      files = .ok (a, files')) : files'.fileDescriptors = files.fileDescriptors := by
  rcases withDescriptor_cases h with ⟨-, -, rfl⟩ | ⟨ptr, desc, filesystem, -, -, h⟩
  · rfl
  · obtain ⟨kernel, -, rfl⟩ := onKernel_eq_ok.mp h
    rfl

/-- Reading changes no descriptor. -/
theorem fread_frame {size nmemb : U32} {fd : Int} {res : Int × List U8} {files files' : FileState H}
    (h : fread size nmemb fd files = .ok (res, files')) :
    files'.fileDescriptors = files.fileDescriptors := by
  unfold fread at h
  split at h
  · cases h
    rfl
  · exact withDescriptor_frame h

/-- A call with an entry left for it keeps the invariant. -/
theorem FileStep.inv (hi : FilesInv s)
    (h : Meeting (FreeSlotLeft alloc disk) (FileStep alloc disk) s c s') : FilesInv s' := by
  obtain ⟨hleft, h⟩ := h
  cases h with
  | fopen h =>
    rcases fopenBody_cases h with ⟨hres, he, -⟩ |
      ⟨filesystem, privateData, h₁, i, ptr, hopen, hlt, hfree, -, rfl, rfl, he⟩
    · rw [if_neg (by omega)]
      exact hi.congr he
    · -- a free entry before the last one is left, so the first free one is not the last
      obtain ⟨j, hj, hnull⟩ := hleft _ _ hopen
      have hij : i ≤ j := by
        by_contra hlt
        simp [hfree.2 j (by omega)] at hnull
      rw [if_pos (by omega)]
      exact hi.opens hfree.1 he ⟨by omega, by rw [he, Function.update_self], _, _, _, rfl, rfl, rfl⟩
  | @fclose fd res files h =>
    rcases fclose_cases h with ⟨hres, he⟩ | ⟨rfl, ptr, desc, hget, hlo, hup, he, -⟩
    · rw [if_neg hres]
      exact hi.congr he
    · rw [if_pos rfl]
      unfold fileGetDescriptor peachosMaxFileDescriptors at hget
      split at hget
      · cases hget
      · rename_i hfd
        obtain ⟨n, rfl⟩ : ∃ n : Nat, fd = n + 1 := ⟨(fd - 1).toNat, by omega⟩
        have hn : ((n : Int) + 1 - 1).toNat = n := by omega
        rw [hn] at hget
        rcases hi.entries n (by omega) with hnull | hheld
        · rw [hnull] at hget
          cases hget
        · -- the entry given back is the one of `fd`, since its descriptor has that index
          obtain ⟨ptr', desc', filesystem, hp, hindex, -⟩ := hheld.numbered
          rw [hget] at hp
          cases hp
          rw [hindex, hn] at he
          exact hi.closes he
  | fread h => exact hi.congr (fread_frame h)
  | fseek h => exact hi.congr (withDescriptor_frame h)
  | fstat h => exact hi.congr (withDescriptor_frame h)

/-- The descriptor of the last entry was handed out, and is open. -/
def LastOpened (s : Session H) : Prop :=
  ∃ ptr desc, ((512 : Int), Ref.live ptr desc) ∈ s.opened

/-- Once the last descriptor is handed out, one is not usable. -/
theorem LastOpened.not_usable (h : LastOpened s) : ¬ Usable alloc s := by
  obtain ⟨ptr, desc, hmem⟩ := h
  intro hu
  have := hu.denotes _ hmem
  cases this

/-- An `fopen` with no entry left for it but the last one opens the last one. -/
theorem FileStep.lastOpened (hi : FilesInv s) (hleft : ¬ FreeSlotLeft alloc disk s c)
    (h : FileStep alloc disk s c s') : LastOpened s' := by
  cases h with
  | fopen h =>
    simp only [FreeSlotLeft, not_forall, not_exists, not_and, exists_prop] at hleft
    obtain ⟨r, h₀, hopen, hfull⟩ := hleft
    rcases fopenBody_cases h with ⟨-, -, res, hres, hfail⟩ |
      ⟨filesystem, privateData, h₁, i, ptr, -, hlt, hfree, -, rfl, rfl, he⟩
    · rcases hfail with ⟨e, rfl⟩ | hfull'
      · rw [hopen] at hres
        cases hres
      · have := hfull' 511 (by decide)
        rw [hi.last] at this
        cases this
    · have hi511 : i = 511 := by
        unfold peachosMaxFileDescriptors at hlt
        by_contra hne
        exact hfull i (by omega) hfree.1
      subst hi511
      exact ⟨ptr, _, List.mem_cons_self⟩
  | fclose | fread | fseek | fstat => exact absurd trivial hleft

/-- No call takes the last descriptor back. -/
theorem LastOpened.step (hl : LastOpened s) (h : FileStep alloc disk s c s') : LastOpened s' := by
  obtain ⟨ptr, desc, hmem⟩ := hl
  refine ⟨ptr, desc, ?_⟩
  cases h with
  | fopen h =>
    dsimp only
    split
    · exact List.mem_cons_of_mem _ hmem
    · exact hmem
  | @fclose fd res files h =>
    dsimp only
    split
    · rename_i hres
      refine List.mem_filter.mpr ⟨hmem, ?_⟩
      rcases fclose_cases h with ⟨hne, -⟩ | ⟨-, ptr, desc, hget, -⟩
      · exact absurd hres hne
      · by_contra hfd
        obtain rfl : 512 = fd := by simpa only [ne_eq, decide_not, Bool.not_eq_true',
          decide_eq_false_iff_not, not_not] using hfd
        cases hget
    · exact hmem
  | fread | fseek | fstat => exact hmem

/-! ### Every session -/

/-- **Every open file is usable, in exactly the sessions that leave its `fopen` an entry.**  From
`fs_init`, what a session has open can be used if and only if each `fopen` that opened its file
found one of the entries below the last one free. -/
theorem usable_iff_freeSlotLeft {kernel : H} {calls : List FileCall}
    (hrun : Run (FileStep alloc disk) ⟨fsInit kernel, []⟩ calls s) :
    Usable alloc s ↔
      Run (Meeting (FreeSlotLeft alloc disk) (FileStep alloc disk)) ⟨fsInit kernel, []⟩ calls
        s := by
  have h₀ := filesInv_init kernel
  constructor
  · intro hu
    exact hrun.meeting_of_not h₀ (fun _ _ _ => FileStep.inv) (fun _ _ _ => FileStep.lastOpened)
      (fun _ _ _ => LastOpened.step) fun hl => hl.not_usable hu
  · intro hleft
    exact (hleft.invariant h₀ fun _ _ _ => FileStep.inv).usable alloc

end

/-- A filesystem that opens every file and has nothing to do for it. -/
def plainFilesystem : Filesystem Nat where
  fsOpen _ _ := pure 1
  fsRead _ _ _ := pure (0, [])
  fsSeek _ _ _ := pure 0
  fsStat _ := pure (0, some { flags := 0, filesize := 0 })
  fsClose _ := pure 0

/-- The call `fopen("0:/a", "r")`. -/
def openA : FileCall := .fopen [0x30, 0x3A, 0x2F, 0x61] [0x72]

theorem fopenPrivate_openA (k : Nat) : ∃ k',
    fopenPrivate .ample ⟨some plainFilesystem⟩ [0x30, 0x3A, 0x2F, 0x61] [0x72] k =
      .ok (.ok (plainFilesystem, 1), k') := by
  have hvalid : pathparserPathValidFormat [0x30, 0x3A, 0x2F, 0x61] := by decide
  obtain ⟨root, k', hparse, hdrive, hparts⟩ :=
    pathparserParse_ok Allocator.ample_succeeds (by decide) hvalid k
  have hfirst : root.first ≠ [] := by
    intro he
    rw [he] at hparts
    exact absurd hparts (by decide)
  have hdisk : diskGet ⟨some plainFilesystem⟩ root.driveNo = some ⟨some plainFilesystem⟩ := by
    rw [hdrive]
    rfl
  refine ⟨k', ?_⟩
  unfold fopenPrivate
  rw [Exec.bind_ok hparse]
  dsimp only
  rw [if_neg hfirst, hdisk]
  rfl

/-- `openA` takes the first free entry. -/
theorem openA_step (s : Session Nat) {n : Nat} (hn : n < 512)
    (hfree : FirstFree s.files.fileDescriptors n) :
    ∃ ptr desc k, FileStep .ample ⟨some plainFilesystem⟩ s openA
      ⟨⟨Function.update s.files.fileDescriptors n (.live ptr desc), k⟩,
        ((n : Int) + 1, .live ptr desc) :: s.opened⟩ := by
  obtain ⟨k₁, hopen⟩ := fopenPrivate_openA s.files.kernel
  obtain ⟨ptr, k₂, -, halloc⟩ := Allocator.ample_succeeds.kzallocWritten 16 k₁
  have h := FileStep.fopen (s := s) (fopenBody_ok hopen hn hfree halloc)
  rw [if_pos (by omega)] at h
  exact ⟨ptr, _, k₂, h⟩

theorem openA_snoc {R : Session Nat → FileCall → Session Nat → Prop} {s s' s'' : Session Nat}
    {n : Nat} (t : Run R s (List.replicate n openA) s') (h : R s' openA s'') :
    Run R s (List.replicate (n + 1) openA) s'' := by
  rw [List.replicate_succ']
  exact .snoc t h

/-- As many calls `openA` as there are entries take them all, in order. -/
theorem openA_run {n : Nat} (hn : n ≤ 512) :
    ∃ s, Run (FileStep .ample ⟨some plainFilesystem⟩) ⟨fsInit 0, []⟩ (List.replicate n openA) s ∧
      (∀ i < n, (s.files.fileDescriptors i).isNull = false) ∧
      (∀ i, n ≤ i → (s.files.fileDescriptors i).isNull) := by
  induction n with
  | zero => exact ⟨_, .nil _, fun i hi => absurd hi (Nat.not_lt_zero i), fun _ _ => rfl⟩
  | succ n ih =>
    obtain ⟨s, hrun, htaken, hfree⟩ := ih (by omega)
    obtain ⟨ptr, desc, k, hstep⟩ := openA_step s (n := n) (by omega) ⟨hfree n le_rfl, htaken⟩
    refine ⟨_, openA_snoc hrun hstep, fun i hi => ?_, fun i hi => ?_⟩
    · by_cases hin : i = n
      · simp [hin, Ref.isNull]
      · simp only [Function.update_of_ne hin]
        exact htaken i (by omega)
    · simp only [Function.update_of_ne (show i ≠ n by omega)]
      exact hfree i (by omega)

/-- Two files are opened, the first is closed, and another gets its descriptor. -/
def twoOpen : List FileCall := [openA, openA, .fclose 1, openA]

/-- Both files that are open at the end can be used. -/
theorem usable_twoOpen :
    ∃ s, Run (FileStep .ample ⟨some plainFilesystem⟩) ⟨fsInit 0, []⟩ twoOpen s ∧
      s.opened.map Prod.fst = [1, 2] ∧ Usable .ample s := by
  obtain ⟨s, hleft, hopened⟩ : ∃ s, Run (Meeting (FreeSlotLeft .ample ⟨some plainFilesystem⟩)
      (FileStep .ample ⟨some plainFilesystem⟩)) ⟨fsInit 0, []⟩ twoOpen s ∧
        s.opened.map Prod.fst = [1, 2] := by
    refine ⟨_, .cons ⟨fun _ _ _ => ⟨0, by decide, rfl⟩, .fopen rfl⟩
      (.cons ⟨fun _ _ _ => ⟨1, by decide, rfl⟩, .fopen rfl⟩
        (.cons ⟨trivial, .fclose rfl⟩
          (.one ⟨fun _ _ _ => ⟨0, by decide, rfl⟩, .fopen rfl⟩))), rfl⟩
  have hrun := hleft.mono fun _ _ _ h => h.2
  exact ⟨s, hrun, hopened, (usable_iff_freeSlotLeft hrun).mpr hleft⟩

/-- **The last entry gives out a descriptor that is rejected**: the 512th file opened is number
512. -/
theorem openA_last_rejected :
    ∃ s, Run (FileStep .ample ⟨some plainFilesystem⟩) ⟨fsInit 0, []⟩ (List.replicate 512 openA) s ∧
      (∃ desc, ((512 : Int), desc) ∈ s.opened ∧ desc.isNull = false) ∧
      fileGetDescriptor s.files 512 = .null ∧ ¬ Usable .ample s := by
  obtain ⟨s, hrun, htaken, hfree⟩ := openA_run (show 511 ≤ 512 by omega)
  obtain ⟨ptr, desc, k, hstep⟩ := openA_step s (n := 511) (by omega) ⟨hfree 511 le_rfl, htaken⟩
  have hlast : ((512 : Int), Ref.live ptr desc) ∈
      (((511 : Nat) : Int) + 1, Ref.live ptr desc) :: s.opened := List.mem_cons_self
  exact ⟨_, openA_snoc hrun hstep, ⟨_, hlast, rfl⟩, rfl,
    LastOpened.not_usable ⟨ptr, desc, hlast⟩⟩

end KernelNES.Fs
