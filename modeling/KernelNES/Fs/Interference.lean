import KernelNES.Fs.Descriptors
import KernelNES.Fs.FatFile

/-!
# Fs — Interference

Open files share the streams of the driver, and yet do not interfere: along any interleaving of
`fread` and `fseek` calls, the calls on one file descriptor return what they return when the calls
on all the others are left out (`open_files_do_not_interfere`).  What each call needs is in the
descriptor of its file, and open files have descriptors of their own (`OpenApart`).
-/

namespace KernelNES.Fs
open KernelNES.Lib KernelNES.Memory

section
variable {H : Type}

/-- A call of `fread` or `fseek` with what it returned, and the bytes `fread` delivered. -/
inductive IOEvent where
  | fread (fd : Int) (size nmemb : U32) (res : Int) (bytes : List U8)
  | fseek (fd offset : Int) (whence : FileSeekMode) (res : Int)
  deriving DecidableEq

/-- The descriptor the call is about. -/
def IOEvent.fd : IOEvent → Int
  | .fread fd _ _ _ _ => fd
  | .fseek fd _ _ _   => fd

/-- One call. -/
inductive IOStep : FileState (FatState H) → IOEvent → FileState (FatState H) → Prop where
  | fread {s s' : FileState (FatState H)} {fd res : Int} {size nmemb : U32} {bytes : List U8}
      (h : fread size nmemb fd s = .ok ((res, bytes), s')) :
      IOStep s (.fread fd size nmemb res bytes) s'
  | fseek {s s' : FileState (FatState H)} {fd offset res : Int} {whence : FileSeekMode}
      (h : fseek fd offset whence s = .ok (res, s')) :
      IOStep s (.fseek fd offset whence res) s'

/-- Every open file is one of the volume, and no two have their private data at the same place. -/
structure OpenApart (alloc : Allocator H) (vol : Volume) (files : FileState (FatState H)) :
    Prop where
  fat16 : ∀ i ptr desc, files.fileDescriptors i = .live ptr desc →
    desc.filesystem = some (fat16Filesystem alloc vol)
  apart : ∀ i j ptr ptr' desc desc', files.fileDescriptors i = .live ptr desc →
    files.fileDescriptors j = .live ptr' desc' → desc.privateData = desc'.privateData → i = j

/-- In `s` and `t` the file descriptor denotes the same file, at the same position. -/
def SameFile (fd : Int) (s t : FileState (FatState H)) : Prop :=
  fileGetDescriptor t fd = fileGetDescriptor s fd ∧
    ∀ ptr desc, fileGetDescriptor s fd = .live ptr desc →
      t.kernel.descriptors desc.privateData = s.kernel.descriptors desc.privateData

theorem SameFile.refl (fd : Int) (s : FileState (FatState H)) : SameFile fd s s :=
  ⟨rfl, fun _ _ _ => rfl⟩

variable {alloc : Allocator H} {vol : Volume} {s s' t : FileState (FatState H)}

/-! ### One call -/

theorem OpenApart.fat16_of_live (h : OpenApart alloc vol s) {fd : Int} {ptr : U32}
    {desc : FileDescriptor (FatState H)} (hp : fileGetDescriptor s fd = .live ptr desc) :
    desc.filesystem = some (fat16Filesystem alloc vol) :=
  h.fat16 _ _ _ (entry_of_live hp).2

/-- Different file descriptors have different private data. -/
theorem OpenApart.private_ne (h : OpenApart alloc vol s) {fd fd' : Int} {ptr ptr' : U32}
    {desc desc' : FileDescriptor (FatState H)} (hp : fileGetDescriptor s fd = .live ptr desc)
    (hp' : fileGetDescriptor s fd' = .live ptr' desc') (hne : fd ≠ fd') :
    desc.privateData ≠ desc'.privateData := by
  obtain ⟨hpos, he⟩ := entry_of_live hp
  obtain ⟨hpos', he'⟩ := entry_of_live hp'
  intro e
  have := h.apart _ _ _ _ _ _ he he' e
  omega

section
variable {α : Type} {fd : Int} {rejected a : α}
  {serve : FileDescriptor (FatState H) → Filesystem (FatState H) → Exec Fault (FatState H) α}
  (hacts : ∀ desc, ActsOn desc.privateData (serve desc (fat16Filesystem alloc vol)))
  (h : withDescriptor fd rejected (fun _ desc filesystem => onKernel (serve desc filesystem)) s =
    .ok (a, s'))
include hacts h

/-- A call goes the same way from every state in which its file is the same. -/
theorem withDescriptor_sameFile (hs : OpenApart alloc vol s) (hV : SameFile fd s t) :
    ∃ t', withDescriptor fd rejected (fun _ desc filesystem => onKernel (serve desc filesystem)) t =
      .ok (a, t') ∧ SameFile fd s' t' := by
  obtain ⟨hget, hdesc⟩ := hV
  rcases withDescriptor_cases h with ⟨hnull, rfl, rfl⟩ | ⟨ptr, desc, filesystem, hp, hf, hserve⟩
  · refine ⟨t, ?_, hget, hdesc⟩
    unfold withDescriptor
    rw [Exec.get_bind, hget, hnull]
    rfl
  · obtain rfl : filesystem = fat16Filesystem alloc vol :=
      Option.some.inj (hf.symm.trans (hs.fat16_of_live hp))
    obtain ⟨kernel, hk, rfl⟩ := onKernel_eq_ok.mp hserve
    -- the driver goes by the descriptor alone, which is the same in `t`
    obtain ⟨k', hk', hsame⟩ := (hacts desc _ _ _ hk).2 t.kernel (hdesc ptr desc hp)
    refine ⟨{ t with kernel := k' }, ?_, hget, fun ptr' desc' hp' => ?_⟩
    · rw [withDescriptor_live (hget.trans hp) hf]
      exact onKernel_eq_ok.mpr ⟨k', hk', rfl⟩
    · cases hp.symm.trans hp'
      exact hsame

/-- A call leaves every other open file alone. -/
theorem withDescriptor_otherFile (hs : OpenApart alloc vol s) {fd' : Int} (hne : fd ≠ fd')
    (hV : SameFile fd' s t) : SameFile fd' s' t := by
  obtain ⟨hget, hdesc⟩ := hV
  rcases withDescriptor_cases h with ⟨-, rfl, rfl⟩ | ⟨ptr, desc, filesystem, hp, hf, hserve⟩
  · exact ⟨hget, hdesc⟩
  · obtain rfl : filesystem = fat16Filesystem alloc vol :=
      Option.some.inj (hf.symm.trans (hs.fat16_of_live hp))
    obtain ⟨kernel, hk, rfl⟩ := onKernel_eq_ok.mp hserve
    refine ⟨hget, fun ptr' desc' hp' => (hdesc ptr' desc' hp').trans ?_⟩
    exact ((hacts desc _ _ _ hk).1 _ (hs.private_ne hp hp' hne).symm).symm

end

/-- `fread` and `fseek` leave the table alone. -/
theorem IOStep.frame {e : IOEvent} (h : IOStep s e s') :
    s'.fileDescriptors = s.fileDescriptors := by
  cases h with
  | fread h => exact fread_frame h
  | fseek h => exact withDescriptor_frame h

theorem OpenApart.congr (h : OpenApart alloc vol s) (he : s'.fileDescriptors = s.fileDescriptors) :
    OpenApart alloc vol s' :=
  ⟨he ▸ h.fat16, he ▸ h.apart⟩

/-- A call that is refused for its arguments, or is served by its file. -/
theorem fread_eq {size nmemb : U32} {fd : Int} :
    (fread size nmemb fd : Exec Fault (FileState (FatState H)) _) =
      if size = 0 ∨ nmemb = 0 ∨ fd < 1 then pure (-einvarg, [])
      else withDescriptor fd (-einvarg, []) fun _ desc filesystem =>
        onKernel (filesystem.fsRead desc.privateData size nmemb) := rfl

/-- A call is refused wherever it is made, or is one the file's driver serves. -/
theorem IOStep.served (alloc : Allocator H) (vol : Volume) {e : IOEvent} (h : IOStep s e s') :
    (s' = s ∧ ∀ t : FileState (FatState H), IOStep t e t) ∨
    ∃ (α : Type) (rejected a : α)
        (serve : FileDescriptor (FatState H) → Filesystem (FatState H) → Exec Fault (FatState H) α),
      (∀ desc, ActsOn desc.privateData (serve desc (fat16Filesystem alloc vol))) ∧
      withDescriptor e.fd rejected (fun _ desc filesystem => onKernel (serve desc filesystem)) s =
        .ok (a, s') ∧
      ∀ t t' : FileState (FatState H), withDescriptor e.fd rejected
        (fun _ desc filesystem => onKernel (serve desc filesystem)) t = .ok (a, t') →
        IOStep t e t' := by
  cases h with
  | @fread _ fd res size nmemb bytes h =>
    rw [fread_eq] at h
    by_cases hargs : size = 0 ∨ nmemb = 0 ∨ fd < 1
    · rw [if_pos hargs] at h
      cases h
      exact .inl ⟨rfl, fun t => .fread (by rw [fread_eq, if_pos hargs]; rfl)⟩
    · rw [if_neg hargs] at h
      refine .inr ⟨_, _, _, _, fun desc => ?_, h, fun t t' ht => ?_⟩
      · exact fat16Read_actsOn vol desc.privateData size nmemb
      · exact .fread (by rw [fread_eq, if_neg hargs]; exact ht)
  | fseek h =>
    exact .inr ⟨_, _, _, _, fun desc => fat16Seek_actsOn desc.privateData _ _, h,
      fun _ _ ht => .fseek ht⟩

/-- A call on a file depends on that file alone. -/
theorem IOStep.sameFile {e : IOEvent} (hs : OpenApart alloc vol s) (hV : SameFile e.fd s t)
    (h : IOStep s e s') : ∃ t', IOStep t e t' ∧ SameFile e.fd s' t' := by
  rcases h.served alloc vol with ⟨rfl, hall⟩ | ⟨α, rejected, a, serve, hacts, hserve, hstep⟩
  · exact ⟨t, hall t, hV⟩
  · obtain ⟨t', ht', hV'⟩ := withDescriptor_sameFile hacts hserve hs hV
    exact ⟨t', hstep t t' ht', hV'⟩

/-- A call on one file leaves another as it is. -/
theorem IOStep.otherFile {e : IOEvent} {fd' : Int} (hs : OpenApart alloc vol s)
    (hne : e.fd ≠ fd') (hV : SameFile fd' s t) (h : IOStep s e s') : SameFile fd' s' t := by
  rcases h.served alloc vol with ⟨rfl, -⟩ | ⟨α, rejected, a, serve, hacts, hserve, -⟩
  · exact hV
  · exact withDescriptor_otherFile hacts hserve hs hne hV

/-- A file that is the same is where it was. -/
theorem SameFile.onVolume {fd : Int} {item : FatDirectoryItem} {pos : U32} (h : SameFile fd s t)
    (hat : OnVolume alloc vol t fd item pos) : OnVolume alloc vol s fd item pos := by
  obtain ⟨ptr, desc, p, q, r, hget, hdesc⟩ := hat.file
  have hs := h.1.symm.trans hget
  exact ⟨⟨ptr, desc, p, q, r, hs, (h.2 _ _ hs).symm.trans hdesc⟩,
    fun ptr' desc' h' => hat.filesystem _ _ (h.1.trans h')⟩

/-! ### Sessions -/

/-- The private data an `fopen` gets is not that of a file still open: `kzalloc` does not hand out a
block that is in use. -/
def NewPrivateData (alloc : Allocator H) (vol : Volume) (s : Session (FatState H)) :
    FileCall → Prop
  | .fopen filename modeStr =>
      ∀ filesystem privateData k, fopenPrivate (Allocator.onFat alloc) (fat16Disk alloc vol)
          filename modeStr s.files.kernel = .ok (.ok (filesystem, privateData), k) →
        ∀ i ptr desc, s.files.fileDescriptors i = .live ptr desc → desc.privateData ≠ privateData
  | _ => True

theorem openApart_init (kernel : FatState H) : OpenApart alloc vol (fsInit kernel) :=
  ⟨nofun, nofun⟩

/-- A file with private data of its own joins the open ones. -/
theorem OpenApart.opens (h : OpenApart alloc vol s) {i : Nat} {ptr : U32}
    {desc : FileDescriptor (FatState H)} (hf : desc.filesystem = some (fat16Filesystem alloc vol))
    (hnew : ∀ j ptr' desc', s.fileDescriptors j = .live ptr' desc' →
      desc'.privateData ≠ desc.privateData)
    (he : s'.fileDescriptors = Function.update s.fileDescriptors i (.live ptr desc)) :
    OpenApart alloc vol s' := by
  have hentry : ∀ j p d, s'.fileDescriptors j = .live p d →
      (j = i ∧ d = desc) ∨ s.fileDescriptors j = .live p d := by
    intro j p d hj
    rw [he] at hj
    by_cases hji : j = i
    · rw [hji, Function.update_self] at hj
      cases hj
      exact .inl ⟨hji, rfl⟩
    · rw [Function.update_of_ne hji] at hj
      exact .inr hj
  constructor
  · intro j p d hj
    rcases hentry j p d hj with ⟨-, rfl⟩ | hj
    · exact hf
    · exact h.fat16 j p d hj
  · intro j k p p' d d' hj hk hpriv
    -- the file opened, or one that was open before
    rcases hentry j p d hj with ⟨rfl, rfl⟩ | hj <;> rcases hentry k p' d' hk with ⟨rfl, rfl⟩ | hk
    · rfl
    · exact absurd hpriv.symm (hnew _ _ _ hk)
    · exact absurd hpriv (hnew _ _ _ hj)
    · exact h.apart _ _ _ _ _ _ hj hk hpriv

/-- An entry given back. -/
theorem OpenApart.closes (h : OpenApart alloc vol s) {i : Nat}
    (he : s'.fileDescriptors = Function.update s.fileDescriptors i .null) :
    OpenApart alloc vol s' := by
  have hentry : ∀ j p d, s'.fileDescriptors j = .live p d → s.fileDescriptors j = .live p d := by
    intro j p d hj
    rw [he] at hj
    by_cases hji : j = i
    · rw [hji, Function.update_self] at hj
      cases hj
    · rwa [Function.update_of_ne hji] at hj
  exact ⟨fun j p d hj => h.fat16 j p d (hentry j p d hj), fun j k p p' d d' hj hk =>
    h.apart j k p p' d d' (hentry j p d hj) (hentry k p' d' hk)⟩

theorem FileStep.openApart {σ σ' : Session (FatState H)} {c : FileCall}
    (hs : OpenApart alloc vol σ.files)
    (h : Meeting (NewPrivateData alloc vol)
      (FileStep (Allocator.onFat alloc) (fat16Disk alloc vol)) σ c σ') :
    OpenApart alloc vol σ'.files := by
  obtain ⟨hnew, h⟩ := h
  cases h with
  | fopen h =>
    rcases fopenBody_cases h with ⟨-, he, -⟩ |
      ⟨filesystem, privateData, k, i, ptr, hopen, -, -, -, rfl, rfl, he⟩
    · exact hs.congr he
    · obtain ⟨rfl, -, -⟩ := fopenPrivate_ok hopen
      exact hs.opens rfl (hnew _ _ _ hopen) he
  | fclose h =>
    rcases fclose_cases h with ⟨-, he⟩ | ⟨-, ptr, desc, -, -, -, he, -⟩
    · exact hs.congr he
    · exact hs.closes he
  | fread h => exact hs.congr (fread_frame h)
  | fseek h => exact hs.congr (withDescriptor_frame h)
  | fstat h => exact hs.congr (withDescriptor_frame h)

end

/-! ### A file opened twice -/

/-- The path `0:/a` and the mode `r`. -/
def pathA : Name := [0x30, 0x3A, 0x2F, 0x61]

/-- The mode `"r"`. -/
def modeR : Name := [0x72]

/-- The state once the file is opened with entry `i`, its blocks starting at `p`. -/
def FileState.withA (s : FileState (FatState Nat)) (i : Nat) (p : U32) :
    FileState (FatState Nat) where
  fileDescriptors := Function.update s.fileDescriptors i (.live (p + 0x7000)
    { index := i + 1, filesystem := some (fat16Filesystem .ample romVolume),
      privateData := p + 0x4000 })
  kernel :=
    { driver := { s.kernel.driver with heap := s.kernel.driver.heap + 8 }
      descriptors := Function.update s.kernel.descriptors (p + 0x4000) (.live (p + 0x4000)
        { item := .live (p + 0x5000) (.file (.live (p + 0x6000) (.ofBytes romSlot))), pos := 0 }) }

/-- Opened twice, the file has two descriptors with private data of their own. -/
theorem openTwice_run :
    ∃ opened, Run (Meeting (NewPrivateData .ample romVolume)
        (FileStep (Allocator.onFat .ample) (fat16Disk .ample romVolume))) ⟨bootFiles, []⟩
        [.fopen pathA modeR, .fopen pathA modeR]
        ⟨(bootFiles.withA 0 0x01000000).withA 1 0x01008000, opened⟩ := by
  have hfirst : fopenPrivate (Allocator.onFat .ample) (fat16Disk .ample romVolume) pathA modeR
      bootFiles.kernel = .ok (.ok (fat16Filesystem .ample romVolume, 0x01004000),
        { (bootFiles.withA 0 0x01000000).kernel with driver := ⟨7, fun _ => 0⟩ }) := rfl
  have hsecond : fopenPrivate (Allocator.onFat .ample) (fat16Disk .ample romVolume) pathA modeR
      (bootFiles.withA 0 0x01000000).kernel =
        .ok (.ok (fat16Filesystem .ample romVolume, 0x0100C000),
          { ((bootFiles.withA 0 0x01000000).withA 1 0x01008000).kernel with
            driver := ⟨15, fun _ => 0⟩ }) := rfl
  obtain ⟨desc₁, hstep⟩ : ∃ desc, fopenBody (Allocator.onFat .ample) (fat16Disk .ample romVolume)
      pathA modeR bootFiles = .ok ((1, desc), bootFiles.withA 0 0x01000000) :=
    ⟨_, fopenBody_ok (i := 0) hfirst (by decide) ⟨rfl, nofun⟩ rfl⟩
  obtain ⟨desc₂, hstep'⟩ : ∃ desc, fopenBody (Allocator.onFat .ample) (fat16Disk .ample romVolume)
      pathA modeR (bootFiles.withA 0 0x01000000) =
        .ok ((2, desc), (bootFiles.withA 0 0x01000000).withA 1 0x01008000) :=
    ⟨_, fopenBody_ok (i := 1) hsecond (by decide)
      ⟨rfl, fun j hj => by rw [Nat.lt_one_iff.mp hj]; rfl⟩ rfl⟩
  refine ⟨_, .cons ⟨fun _ _ _ _ _ _ _ h => (nomatch h), .fopen hstep⟩ (.one ⟨?_, .fopen hstep'⟩)⟩
  intro filesystem privateData k hopen i ptr desc hi
  rw [hsecond] at hopen
  cases hopen
  by_cases h0 : i = 0
  · subst h0
    cases hi
    decide
  · rw [show (bootFiles.withA 0 0x01000000).fileDescriptors i = .null from
      Function.update_of_ne h0 _ _] at hi
    cases hi

end KernelNES.Fs
