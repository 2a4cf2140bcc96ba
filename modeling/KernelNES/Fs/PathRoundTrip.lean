import KernelNES.Fs.PathMemory
import Mathlib.Data.List.TakeWhile

/-!
# Fs — PathRoundTrip

Paths printed and parsed.  A path of components that are not empty is parsed into those components
(`parse_print`).  A call of `pathparser_parse_path_part` returns `0` for an empty component as it
does at the end, so what follows two slashes is lost: the parts returned then are a proper prefix of
those named, unless the path starts with the empty component (`neverTruncates_iff`).
-/

namespace KernelNES.Fs.PathMemory
open KernelNES.Lib KernelNES.Memory

/-! ### On the kernel heap -/

/-- The parser on the kernel heap: a block for the root, two for each part, and a buffer. -/
theorem parse_kheap {path : Name} (hzero : 0 ∉ path) (hlen : path.length ≤ peachosMaxPath)
    (hvalid : pathparserPathValidFormat path) {s : Mem Heap} (hkernel : KernelHeap s.heap)
    (hfree : 2 * (((path.drop 3).splitOn slash).takeWhile (· ≠ [])).length + 2 ≤
      s.heap.freeBlocks.card) :
    ∃ root s', pathparserParse .kheap path s = .ok (root.ptr, s') ∧
      root.driveNo = tonumericdigit (path.headD 0) ∧
      root.first.map PathPart.part = ((path.drop 3).splitOn slash).takeWhile (· ≠ []) ∧
      RootAt s' root := by
  obtain ⟨root, s', hrun, -, hdrive, hnames, -, hroot⟩ := parse_refines hkernel.pageAllocator
    hkernel.roomy hzero hlen hvalid (Heap.TookFrom.start s.heap)
      (by rwa [Set.ncard_empty, zero_add])
  exact ⟨root, s', hrun, hdrive, hnames, hroot⟩

/-! ### Printing -/

/-- The path of the components on drive `d`, with a slash behind it or not. -/
def printPath (d : U8) (components : List Name) (trailing : Bool) : Name :=
  d :: 0x3A :: slash :: ([slash].intercalate components ++ if trailing then [slash] else [])

theorem printPath_pieces {components : List Name} (hne : components ≠ [])
    (hcomp : ∀ c ∈ components, c ≠ [] ∧ slash ∉ c) (d : U8) (trailing : Bool) :
    (((printPath d components trailing).drop 3).splitOn slash).takeWhile (· ≠ []) = components := by
  have hsplit := List.splitOn_intercalate slash (fun c hc => (hcomp c hc).2) hne
  have hall : ∀ c ∈ components, decide (c ≠ []) = true := fun c hc =>
    decide_eq_true (hcomp c hc).1
  have hdrop : (printPath d components trailing).drop 3 =
      [slash].intercalate components ++ if trailing then [slash] else [] := rfl
  rw [hdrop]
  cases trailing with
  | false =>
    rw [if_neg (by decide), List.append_nil, hsplit]
    exact List.takeWhile_eq_self_iff.mpr hall
  | true =>
    rw [if_pos rfl, List.splitOn_append_cons_self, hsplit, List.takeWhile_append_of_pos hall]
    simp

theorem zero_notMem_intercalate {components : List Name} (h : ∀ c ∈ components, 0 ∉ c) :
    0 ∉ [slash].intercalate components := by
  induction components with
  | nil => simp
  | cons c components ih =>
    have hc := h c List.mem_cons_self
    have hrest := ih fun c' hc' => h c' (List.mem_cons_of_mem c hc')
    cases components with
    | nil => simpa using hc
    | cons c' components =>
      rw [List.intercalate_cons_cons, List.mem_append, List.mem_append, not_or, not_or]
      exact ⟨⟨hc, by decide⟩, hrest⟩

/-- **Parsing undoes printing.**  With two free blocks for each component and two more no allocation
fails; the strings of the parts lie in their buffers with their terminators. -/
theorem parse_print {d : U8} (hd : isdigit d) {components : List Name} (hne : components ≠ [])
    (hcomp : ∀ c ∈ components, c ≠ [] ∧ slash ∉ c ∧ 0 ∉ c) (trailing : Bool)
    (hlen : (printPath d components trailing).length ≤ peachosMaxPath) {s : Mem Heap}
    (hkernel : KernelHeap s.heap) (hfree : 2 * components.length + 2 ≤ s.heap.freeBlocks.card) :
    ∃ root s', pathparserParse .kheap (printPath d components trailing) s = .ok (root.ptr, s') ∧
      RootAt s' root ∧ root.driveNo = d.toNat - 48 ∧
      root.first.map PathPart.part = components := by
  have hpieces := printPath_pieces hne (fun c hc => ⟨(hcomp c hc).1, (hcomp c hc).2.1⟩) d trailing
  have hdigit : 48 ≤ d.toInt ∧ d.toInt ≤ 57 := decide_eq_true_iff.mp hd
  have hd0 : d ≠ 0 := by
    rintro rfl
    exact absurd hdigit.1 (by decide)
  have hzero : 0 ∉ printPath d components trailing := by
    simp only [printPath, List.mem_cons, List.mem_append, not_or]
    refine ⟨hd0.symm, by decide, by decide,
      zero_notMem_intercalate fun c hc => (hcomp c hc).2.2, ?_⟩
    cases trailing <;> decide
  have hvalid : pathparserPathValidFormat (printPath d components trailing) := by
    simp [pathparserPathValidFormat, printPath, strnlen, peachosMaxPath, hd]
  obtain ⟨root, s', hrun, hdrive, hnames, hroot⟩ :=
    parse_kheap hzero hlen hvalid hkernel (by rwa [hpieces])
  refine ⟨root, s', hrun, hroot, ?_, hnames.trans hpieces⟩
  rw [hdrive, printPath, List.headD_cons, tonumericdigit]
  rw [BitVec.toInt_eq_toNat_cond] at hdigit ⊢
  split at hdigit <;> omega

/-- `0:/a/b/` on the heap after boot. -/
theorem parse_print_a_b :
    ∃ root s', pathparserParse .kheap (printPath 0x30 [[0x61], [0x62]] true)
        { heap := kernelHeap, words := fun _ => 0, chars := fun _ => 0 } = .ok (root.ptr, s') ∧
      RootAt s' root ∧ root.driveNo = (0x30 : U8).toNat - 48 ∧
      root.first.map PathPart.part = [[0x61], [0x62]] :=
  parse_print (by decide) (by decide) (by decide) true (by decide) kernelHeap_kernelHeap
    (by show _ ≤ kernelHeap.freeBlocks.card; rw [kernelHeap_freeBlocks]; decide)

/-! ### Truncation -/

/-- The components of a path that are not empty. -/
def namedComponents (path : Name) : List Name := ((path.drop 3).splitOn slash).filter (· ≠ [])

/-- An empty component stands before one that is not. -/
def HasGap (path : Name) : Prop :=
  ∃ before after, (path.drop 3).splitOn slash = before ++ [] :: after ∧ ∃ c ∈ after, c ≠ []

/-- What `pathparser_parse` returns on the kernel heap is `NULL`, a root without parts, or a root
with all components that are not empty, in order. -/
def NeverTruncates (path : Name) : Prop :=
  ∀ (s s' : Mem Heap) (root : U32), KernelHeap s.heap →
    pathparserParse .kheap path s = .ok (root, s') →
    root = 0 ∨ s'.words (slot root 1) = 0 ∨
      ∃ parts, PartsAt s' (s'.words (slot root 1)) parts ∧
        parts.map PathPart.part = namedComponents path

/-- Behind a gap there is more than before it. -/
theorem takeWhile_lt_filter {α : Type} {p : α → Bool} {gap c : α} {after : List α}
    (hgap : p gap = false) (hc : c ∈ after) (hpc : p c = true) (before : List α) :
    ((before ++ gap :: after).takeWhile p).length < ((before ++ gap :: after).filter p).length := by
  have hpos : ∀ l : List α, c ∈ l → 0 < (l.filter p).length := fun l hl =>
    List.length_pos_of_mem (List.mem_filter.mpr ⟨hl, hpc⟩)
  induction before with
  | nil =>
    rw [List.nil_append, List.takeWhile_cons_of_neg (by simp [hgap])]
    exact hpos _ (List.mem_cons_of_mem gap hc)
  | cons x before ih =>
    rw [List.cons_append]
    by_cases hx : p x = true
    · rw [List.takeWhile_cons_of_pos hx, List.filter_cons_of_pos hx]
      exact Nat.succ_lt_succ ih
    · rw [List.takeWhile_cons_of_neg hx]
      exact hpos _ (by simp [hc])

/-- A path with a gap is parsed into less than it names. -/
theorem takeWhile_ne_namedComponents {path : Name} (hgap : HasGap path) :
    ((path.drop 3).splitOn slash).takeWhile (· ≠ []) ≠ namedComponents path := by
  obtain ⟨before, after, hsplit, c, hc, hne⟩ := hgap
  rw [namedComponents, hsplit]
  intro he
  have hempty : decide (([] : Name) ≠ []) = false := by decide
  have hlt := takeWhile_lt_filter (p := (· ≠ [])) hempty hc (by simpa using hne) before
  rw [he] at hlt
  exact Nat.lt_irrefl _ hlt

/-- What is behind the gap is lost when the first component is not empty. -/
theorem truncates_of_first {path : Name} (hzero : 0 ∉ path) (hlen : path.length ≤ peachosMaxPath)
    (hvalid : pathparserPathValidFormat path) (hgap : HasGap path)
    (hfirst : path.getD 3 0 ≠ slash) : ¬ NeverTruncates path := by
  intro hnever
  obtain ⟨part, pieces, hsplit, hpart⟩ : ∃ part pieces,
      (path.drop 3).splitOn slash = part :: pieces ∧ part ≠ [] := by
    cases hrest : path.drop 3 with
    | nil =>
      obtain ⟨before, after, hsplit, c, hc, -⟩ := hgap
      rw [hrest, List.splitOn_nil] at hsplit
      cases before with
      | nil => simp_all
      | cons x before => simp at hsplit
    | cons c rest =>
      have hc : c ≠ slash := by
        have hhead := congrArg (fun l : Name => l.getD 0 0) hrest
        simp only [List.getD_eq_getElem?_getD, List.getElem?_drop] at hhead
        rw [List.getD_eq_getElem?_getD] at hfirst
        exact fun he => hfirst (hhead.trans he)
      obtain ⟨part, pieces, hl⟩ := List.exists_cons_of_ne_nil (List.splitOn_ne_nil slash rest)
      refine ⟨c :: part, pieces, ?_, List.cons_ne_nil _ _⟩
      rw [List.splitOn_cons_eq_if_modifyHead, if_neg (by simpa using hc), hl, List.modifyHead_cons]
  have hroom : 2 * (((path.drop 3).splitOn slash).takeWhile (· ≠ [])).length + 2 ≤
      kernelHeap.freeBlocks.card := by
    have hle := (List.takeWhile_sublist (l := (path.drop 3).splitOn slash) (· ≠ [])).length_le
    have hpieces := splitOn_length_le slash (path.drop 3)
    rw [List.length_drop] at hpieces
    simp only [peachosMaxPath] at hlen
    rw [kernelHeap_freeBlocks]
    omega
  obtain ⟨root, s', hrun, -, hnames, hroot⟩ := parse_kheap hzero hlen hvalid
    (s := { heap := kernelHeap, words := fun _ => 0, chars := fun _ => 0 }) kernelHeap_kernelHeap
    hroom
  rcases hnever _ s' root.ptr kernelHeap_kernelHeap hrun with h | h | ⟨parts, hparts, hall⟩
  · exact hroot.pos h
  · have hnil : root.first = [] := hroot.first.unique (show PartsAt s' _ [] from h)
    rw [hnil, hsplit, List.takeWhile_cons_of_pos (by simpa using hpart)] at hnames
    cases hnames
  · rw [hparts.unique hroot.first] at hall
    exact takeWhile_ne_namedComponents hgap (hnames.symm.trans hall)

section
variable {H : Type} {alloc : Allocator H} {s s' : Mem H}

theorem onWords_eq_ok {α : Type} {y : Exec Fault (PagingState H) α} {a : α}
    (h : onWords y s = .ok (a, s')) :
    ∃ w, y s.toPagingState = .ok (a, w) ∧ s' = { toPagingState := w, chars := s.chars } := by
  unfold onWords at h
  cases hy : y s.toPagingState with
  | error e => rw [hy] at h; cases h
  | ok p => rw [hy] at h; cases h; exact ⟨_, rfl, rfl⟩

theorem createRoot_eq_ok {driveNumber : Int} {root : U32}
    (h : pathparserCreateRoot alloc driveNumber s = .ok (root, s')) :
    root ≠ 0 ∧ s'.words (slot root 1) = 0 := by
  rw [pathparserCreateRoot] at h
  obtain ⟨p, s₁, -, h⟩ := Exec.bind_eq_ok.mp h
  obtain ⟨_, s₂, -, h⟩ := Exec.bind_eq_ok.mp h
  obtain ⟨_, s₃, hstore, h⟩ := Exec.bind_eq_ok.mp h
  cases h
  obtain ⟨w, hw, rfl⟩ := onWords_eq_ok hstore
  obtain ⟨hp, rfl⟩ := storeWord_eq_ok hw
  exact ⟨hp, Function.update_self ..⟩

/-- At a slash no part is returned, and no word is written but by `memset`. -/
theorem parsePathPart_slash (alloc : Allocator H) (last : U32) (rest : Name) (s : Mem H) :
    ∃ p s', pathparserParsePathPart alloc last (slash :: rest) s = .ok ((0, rest), s') ∧
      s'.words = clear s.words p 108 :=
  ⟨(alloc.kzalloc 108 s.heap).1, _, rfl, rfl⟩

/-- A path that starts with an empty component is parsed into no parts. -/
theorem first_zero_of_slash {path : Name} (hfirst : path.getD 3 0 = slash) {root : U32}
    (hrun : pathparserParse alloc path s = .ok (root, s')) :
    root = 0 ∨ s'.words (slot root 1) = 0 := by
  rw [pathparserParse] at hrun
  split at hrun
  · cases hrun
    exact .inl rfl
  · by_cases hvalid : pathparserPathValidFormat path = true
    · obtain ⟨hdrive, hdigit⟩ := pathparserGetDriveByPath_valid hvalid
      have hrest : path.drop 3 = slash :: path.drop 4 := by
        have hlt : 3 < path.length := by
          by_contra hge
          rw [List.getD_eq_default _ _ (by omega)] at hfirst
          cases hfirst
        rw [List.getD_eq_getElem _ _ hlt] at hfirst
        rw [List.drop_eq_getElem_cons hlt, hfirst]
      rw [hdrive, hrest] at hrun
      dsimp only at hrun
      rw [if_neg hdigit] at hrun
      obtain ⟨p, s₁, hroot, hrun⟩ := Exec.bind_eq_ok.mp hrun
      obtain ⟨hp, hnext⟩ := createRoot_eq_ok hroot
      obtain ⟨q, s₂, hcall, hwords⟩ := parsePathPart_slash alloc 0 (path.drop 4) s₁
      rw [if_neg hp, Exec.bind_ok hcall] at hrun
      cases hrun
      right
      rw [hwords, clear, hnext, ite_self]
    · rw [pathparserGetDriveByPath, if_neg hvalid] at hrun
      cases hrun
      exact .inl rfl

end

/-- **When a path with a gap is not truncated**: exactly when it starts with the empty component. -/
theorem neverTruncates_iff {path : Name} (hzero : 0 ∉ path) (hlen : path.length ≤ peachosMaxPath)
    (hvalid : pathparserPathValidFormat path) (hgap : HasGap path) :
    NeverTruncates path ↔ path.getD 3 0 = slash := by
  constructor
  · intro h
    by_contra hfirst
    exact truncates_of_first hzero hlen hvalid hgap hfirst h
  · intro hfirst s s' root _ hrun
    rcases first_zero_of_slash hfirst hrun with h | h
    · exact .inl h
    · exact .inr (.inl h)

/-- `0://a` is parsed into no parts. -/
theorem neverTruncates_slash_a : NeverTruncates [0x30, 0x3A, 0x2F, 0x2F, 0x61] :=
  (neverTruncates_iff (by decide) (by decide) (by decide)
    ⟨[], [[0x61]], by decide, [0x61], by decide, by decide⟩).mpr rfl

/-- `0:/a//b` names `a` and `b`, and is parsed into `a`. -/
theorem truncates_a_b :
    HasGap [0x30, 0x3A, 0x2F, 0x61, 0x2F, 0x2F, 0x62] ∧
      ¬ NeverTruncates [0x30, 0x3A, 0x2F, 0x61, 0x2F, 0x2F, 0x62] := by
  have hgap : HasGap [0x30, 0x3A, 0x2F, 0x61, 0x2F, 0x2F, 0x62] :=
    ⟨[[0x61]], [[0x62]], by decide, [0x62], by decide, by decide⟩
  exact ⟨hgap, truncates_of_first (by decide) (by decide) (by decide) hgap (by decide)⟩

end KernelNES.Fs.PathMemory
