import KernelNES.Fs.Basic
import KernelNES.Memory.Kheap

/-!
# Fs — Pparser

`src/fs/pparser.c`: a path such as `0:/a/b` is parsed into the number of its drive and the list of
its parts.  `kzalloc` is called for each piece, and the pointer it returns is written through before
it is tested.
-/

namespace KernelNES.Fs
open KernelNES.Lib KernelNES.Memory

/-- `'/'`. -/
def slash : U8 := 0x2F

/-- `struct path_part`: where it is, where its string is, and that string.  `next` is the next one
in the list it belongs to. -/
structure PathPart where
  ptr : U32
  partPtr : U32
  part : Name
  deriving DecidableEq, Repr

/-- `struct path_root`, and where it is; `first` has no parts when it is `0`. -/
structure PathRoot where
  ptr : U32
  driveNo : Int
  first : List PathPart
  deriving DecidableEq, Repr

/-- `pathparser_path_valid_format`. -/
def pathparserPathValidFormat (filename : Name) : Bool :=
  strnlen filename peachosMaxPath ≥ 3 ∧ isdigit (filename.headD 0) ∧
    filename.getD 1 0 = 0x3A ∧ filename.getD 2 0 = slash

/-- `pathparser_get_drive_by_path`: the drive or an error, and the path moved on. -/
def pathparserGetDriveByPath (path : Name) : Int × Name :=
  if pathparserPathValidFormat path then (tonumericdigit (path.headD 0), path.drop 3)
  else (-ebadpath, path)

section
variable {H : Type} (alloc : Allocator H)

/-- `pathparser_create_root`; the list of its parts is still empty. -/
def pathparserCreateRoot : Exec Fault H U32 := alloc.kzallocWritten 8

/-- `pathparser_get_path_part`, for the characters up to the next slash. -/
def pathparserGetPathPart (part : Name) : Exec Fault H U32 :=
  if part = [] then do
    let resultPathPart ← alloc.callKzalloc 108
    alloc.callKfree resultPathPart
    pure 0
  else alloc.kzallocWritten 108

/-- `pathparser_parse_path_part`; `none` is `NULL`. -/
def pathparserParsePathPart (part : Name) : Exec Fault H (Option PathPart) := do
  let partPtr ← pathparserGetPathPart alloc part
  if partPtr = 0 then pure none
  else do
    let ptr ← alloc.kzallocWritten 8
    pure (some { ptr, partPtr, part })

/-- The calls of `pathparser_parse_path_part` up to the one that returns `0`, on what is left of the
path cut at its slashes; at its end the next part is empty. -/
def pathparserParseParts : (path : List Name) → Exec Fault H (List PathPart)
  | [] => do
    let _ ← pathparserParsePathPart alloc []
    pure []
  | part :: path => do
    match ← pathparserParsePathPart alloc part with
    | none => pure []
    | some part => do
      let next ← pathparserParseParts path
      pure (part :: next)

/-- `pathparser_parse`; `none` is `NULL`. -/
def pathparserParse (path : Name) : Exec Fault H (Option PathRoot) :=
  if path.length > peachosMaxPath then pure none
  else
    let (res, tmpPath) := pathparserGetDriveByPath path
    if res < 0 then pure none
    else do
      let ptr ← pathparserCreateRoot alloc
      let first ← pathparserParseParts alloc (tmpPath.splitOn slash)
      pure (some { ptr, driveNo := res, first })

/-! ### What is parsed

With every allocation succeeding, the parts are what lies between the slashes, up to the first
empty piece. -/

theorem pathparserParsePathPart_empty (h : H) :
    ∃ h', pathparserParsePathPart alloc [] h = .ok (none, h') := by
  unfold pathparserParsePathPart pathparserGetPathPart
  exact ⟨_, rfl⟩

variable {alloc}

theorem pathparserParsePathPart_nonempty (hs : alloc.Succeeds) {part : Name} (hne : part ≠ [])
    (h : H) :
    ∃ p h', p.part = part ∧ pathparserParsePathPart alloc part h = .ok (some p, h') := by
  obtain ⟨partPtr, h₁, hnull, hx⟩ := hs.kzallocWritten 108 h
  obtain ⟨ptr, h₂, -, hy⟩ := hs.kzallocWritten 8 h₁
  refine ⟨⟨ptr, partPtr, part⟩, h₂, rfl, ?_⟩
  unfold pathparserParsePathPart pathparserGetPathPart
  rw [if_neg hne, Exec.bind_ok hx, if_neg hnull, Exec.bind_ok hy]
  rfl

/-- The parts are those up to the first empty one. -/
theorem pathparserParseParts_ok (hs : alloc.Succeeds) (path : List Name) :
    ∀ h, ∃ parts h', pathparserParseParts alloc path h = .ok (parts, h') ∧
      parts.map PathPart.part = path.takeWhile (· ≠ []) := by
  induction path with
  | nil =>
    intro h
    obtain ⟨h₁, hx⟩ := pathparserParsePathPart_empty alloc h
    refine ⟨[], h₁, ?_, rfl⟩
    unfold pathparserParseParts
    rw [Exec.bind_ok hx]
    rfl
  | cons part path ih =>
    intro h
    unfold pathparserParseParts
    by_cases hne : part = []
    · subst hne
      obtain ⟨h₁, hx⟩ := pathparserParsePathPart_empty alloc h
      refine ⟨[], h₁, ?_, by simp⟩
      rw [Exec.bind_ok hx]
      rfl
    · obtain ⟨p, h₁, hp, hx⟩ := pathparserParsePathPart_nonempty hs hne h
      obtain ⟨parts, h₂, hy, hparts⟩ := ih h₁
      refine ⟨p :: parts, h₂, ?_, by simp [hp, hne, hparts]⟩
      rw [Exec.bind_ok hx]
      dsimp only
      rw [Exec.bind_ok hy]
      rfl

/-- A path of the right form has a drive. -/
theorem pathparserGetDriveByPath_valid {path : Name} (hvalid : pathparserPathValidFormat path) :
    pathparserGetDriveByPath path = (tonumericdigit (path.headD 0), path.drop 3) ∧
      ¬ tonumericdigit (path.headD 0) < 0 := by
  refine ⟨if_pos hvalid, ?_⟩
  have := (decide_eq_true_iff.mp hvalid).2.1
  simp only [isdigit, decide_eq_true_eq] at this
  unfold tonumericdigit
  omega

/-- **A path of the right form is parsed** into its drive and the parts before the first empty
one. -/
theorem pathparserParse_ok (hs : alloc.Succeeds) {path : Name} (hlen : path.length ≤ peachosMaxPath)
    (hvalid : pathparserPathValidFormat path) (h : H) :
    ∃ root h', pathparserParse alloc path h = .ok (some root, h') ∧
      root.driveNo = tonumericdigit (path.headD 0) ∧
      root.first.map PathPart.part = ((path.drop 3).splitOn slash).takeWhile (· ≠ []) := by
  obtain ⟨ptr, h₁, -, hx⟩ := hs.kzallocWritten 8 h
  obtain ⟨parts, h₂, hy, hparts⟩ := pathparserParseParts_ok hs ((path.drop 3).splitOn slash) h₁
  refine ⟨⟨ptr, tonumericdigit (path.headD 0), parts⟩, h₂, ?_, rfl, hparts⟩
  obtain ⟨hdrive, hdigit⟩ := pathparserGetDriveByPath_valid hvalid
  unfold pathparserParse
  rw [if_neg (by omega), hdrive]
  dsimp only
  rw [if_neg hdigit]
  unfold pathparserCreateRoot
  rw [Exec.bind_ok hx, Exec.bind_ok hy]
  rfl

end

end KernelNES.Fs
