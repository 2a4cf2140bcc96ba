import KernelNES.Fs.Pparser
import KernelNES.Memory.Ledger
import Mathlib.Data.List.GetD

/-!
# Fs — PathMemory

`src/fs/pparser.c` on memory: the strings are copied character by character, and the parts are
linked through the pointers in them.  The cursor is what is left of the path.

As long as the allocator has room, the parser leaves in memory the root and the parts that
`Fs.pathparserParse` returns for the same allocations (`parse_refines`), each in pages that were not
out before.
-/

namespace KernelNES.Fs.PathMemory
open KernelNES.Lib KernelNES.Memory

/-! ### Memory -/

/-- The heap, the words of memory, and its characters. -/
structure Mem (H : Type) extends PagingState H where
  chars : U32 → U8

section
variable {H : Type}

/-- A computation that uses no characters. -/
def onWords {α : Type} (x : Exec Fault (PagingState H) α) : Exec Fault (Mem H) α := fun s =>
  (x s.toPagingState).map fun p => (p.1, { toPagingState := p.2, chars := s.chars })

/-- `memset` of `size` bytes from `ptr` on to zero. -/
def clear {w : Nat} (mem : U32 → BitVec w) (ptr size : U32) : U32 → BitVec w := fun a =>
  if ptr ≠ 0 ∧ (a - ptr).toNat < size.toNat then 0 else mem a

/-- `kzalloc`, with the `memset` of what it returns. -/
def kzalloc (alloc : Allocator H) (size : U32) : Exec Fault (Mem H) U32 := do
  let ptr ← onWords (kzallocWords alloc size)
  modify fun s => { s with chars := clear s.chars ptr size }
  pure ptr

/-- `kfree`. -/
def kfree (alloc : Allocator H) (ptr : U32) : Exec Fault (Mem H) Unit :=
  onWords (kfreeWords alloc ptr)

/-- `ptr[i] = c` in a buffer of `PEACHOS_MAX_PATH` characters. -/
def storeChar (ptr : U32) (i : Nat) (c : U8) : Exec Fault (Mem H) Unit := fun s =>
  if ptr = 0 then .error .nullDeref
  else if peachosMaxPath ≤ i then .error .outOfBounds
  else .ok ((), { s with chars := Function.update s.chars (ptr + BitVec.ofNat 32 i) c })

/-! ### `pparser.c` -/

/-- `pathparser_create_root`: `drive_no` is the first word of `struct path_root`, `first` the
second. -/
def pathparserCreateRoot (alloc : Allocator H) (driveNumber : Int) : Exec Fault (Mem H) U32 := do
  let pathR ← kzalloc alloc 8
  onWords (storeWord pathR 0 (BitVec.ofInt 32 driveNumber))
  onWords (storeWord pathR 1 0)
  pure pathR

/-- The loop of `pathparser_get_path_part`: `i` characters have been copied. -/
def pathparserCopyPart (resultPathPart : U32) :
    (i : Nat) → (path : Name) → Exec Fault (Mem H) (Nat × Name)
  | i, [] => pure (i, [])
  | i, c :: path =>
    if c ≠ slash ∧ c ≠ 0x00 then do
      storeChar resultPathPart i c
      pathparserCopyPart resultPathPart (i + 1) path
    else pure (i, c :: path)

/-- `pathparser_get_path_part`: the string, and the path moved on. -/
def pathparserGetPathPart (alloc : Allocator H) (path : Name) :
    Exec Fault (Mem H) (U32 × Name) := do
  let resultPathPart ← kzalloc alloc 108
  let (i, path) ← pathparserCopyPart resultPathPart 0 path
  -- the slash is skipped, and so is a slash that comes at once
  let path := if path.headD 0 = slash then path.tail else path
  if i = 0 then
    kfree alloc resultPathPart
    pure (0, path)
  else pure (resultPathPart, path)

/-- `pathparser_parse_path_part`: `part` is the first word of `struct path_part`, `next` the
second. -/
def pathparserParsePathPart (alloc : Allocator H) (lastPart : U32) (path : Name) :
    Exec Fault (Mem H) (U32 × Name) := do
  let (pathPartStr, path) ← pathparserGetPathPart alloc path
  if pathPartStr = 0 then pure (0, path)
  else
    let part ← kzalloc alloc 8
    onWords (storeWord part 0 pathPartStr)
    onWords (storeWord part 1 0)
    if lastPart ≠ 0 then
      onWords (storeWord lastPart 1 part)
      pure (part, path)
    else pure (part, path)

/-- The loop of `pathparser_parse`, with `fuel` rounds left. -/
def pathparserParseLoop (alloc : Allocator H) :
    (fuel : Nat) → (part : U32) → (path : Name) → Exec Fault (Mem H) Unit
  | 0, _, _ => Exec.fault .diverges
  | fuel + 1, part, path =>
    if part = 0 then pure ()
    else do
      let (part, path) ← pathparserParsePathPart alloc part path
      pathparserParseLoop alloc fuel part path

/-- `pathparser_parse`: the rounds of the loop are no more than the characters of the path. -/
def pathparserParse (alloc : Allocator H) (path : Name) : Exec Fault (Mem H) U32 :=
  if path.length > peachosMaxPath then pure 0
  else
    let (res, tmpPath) := pathparserGetDriveByPath path
    if res < 0 then pure 0
    else do
      let pathRoot ← pathparserCreateRoot alloc res
      if pathRoot = 0 then pure pathRoot
      else
        let (firstPart, tmpPath) ← pathparserParsePathPart alloc 0 tmpPath
        if firstPart = 0 then pure pathRoot
        else
          onWords (storeWord pathRoot 1 firstPart)
          let (part, tmpPath) ← pathparserParsePathPart alloc firstPart tmpPath
          pathparserParseLoop alloc path.length part tmpPath
          pure pathRoot

end

/-! ### The cursor -/

/-- A list is split at a separator into what is before the first one and the rest. -/
theorem splitOn_cons_inv {α : Type} [DecidableEq α] {a : α} {l part : List α}
    {pieces : List (List α)} (h : l.splitOn a = part :: pieces) :
    a ∉ part ∧ ((l = part ∧ pieces = []) ∨
      ∃ rest, l = part ++ a :: rest ∧ rest.splitOn a = pieces) := by
  induction l generalizing part with
  | nil =>
    rw [List.splitOn_nil] at h
    obtain ⟨rfl, rfl⟩ := List.cons.inj h
    exact ⟨List.not_mem_nil, .inl ⟨rfl, rfl⟩⟩
  | cons x l ih =>
    rw [List.splitOn_cons_eq_if_modifyHead] at h
    by_cases hx : x = a
    · subst hx
      rw [if_pos (by simp)] at h
      obtain ⟨rfl, rfl⟩ := List.cons.inj h
      exact ⟨List.not_mem_nil, .inr ⟨l, rfl, rfl⟩⟩
    · rw [if_neg (by simpa using hx)] at h
      obtain ⟨part', pieces', hl⟩ := List.exists_cons_of_ne_nil (List.splitOn_ne_nil a l)
      rw [hl, List.modifyHead_cons] at h
      obtain ⟨rfl, rfl⟩ := List.cons.inj h
      obtain ⟨hpart, hrest⟩ := ih hl
      refine ⟨by simpa [Ne.symm hx] using hpart, ?_⟩
      rcases hrest with ⟨rfl, rfl⟩ | ⟨rest, rfl, hrest⟩
      · exact .inl ⟨rfl, rfl⟩
      · exact .inr ⟨rest, rfl, hrest⟩

theorem splitOn_length_le {α : Type} [DecidableEq α] (a : α) (l : List α) :
    (l.splitOn a).length ≤ l.length + 1 := by
  induction l with
  | nil => simp
  | cons x l ih =>
    rw [List.splitOn_cons_eq_if_modifyHead]
    split
    · simpa using ih
    · simp only [List.length_modifyHead, List.length_cons]
      omega

/-- What is left of the path is cut at its slashes into `pieces`; behind its end nothing is left. -/
structure Cut (path : Name) (pieces : List Name) : Prop where
  zero : 0 ∉ path
  short : path.length < peachosMaxPath
  cut : path.splitOn slash = pieces ∨ path = [] ∧ pieces = []

/-- The first piece ends at the end of the path or at a slash. -/
theorem Cut.head {path : Name} {pieces : List Name} (h : Cut path pieces) :
    ∃ rest, path = pieces.headD [] ++ rest ∧ slash ∉ pieces.headD [] ∧
      (rest = [] ∨ rest.headD 0 = slash) ∧ Cut rest.tail pieces.tail := by
  obtain ⟨hzero, hshort, hcut⟩ := h
  rcases hcut with rfl | ⟨rfl, rfl⟩
  · obtain ⟨part, pieces, hl⟩ := List.exists_cons_of_ne_nil (List.splitOn_ne_nil slash path)
    rw [hl]
    obtain ⟨hpart, ⟨rfl, rfl⟩ | ⟨rest, rfl, hrest⟩⟩ := splitOn_cons_inv hl
    · exact ⟨[], by simp, hpart, .inl rfl, by simp, by simp [peachosMaxPath], .inr ⟨rfl, rfl⟩⟩
    · refine ⟨slash :: rest, rfl, hpart, .inr rfl, ?_, ?_, .inl hrest⟩
      · exact fun h0 => hzero (List.mem_append_right _ (List.mem_cons_of_mem _ h0))
      · rw [List.length_append, List.length_cons] at hshort
        simp only [List.tail_cons]
        omega
  · exact ⟨[], rfl, List.not_mem_nil, .inl rfl, hzero, hshort, .inr ⟨rfl, rfl⟩⟩

theorem skip_slash {rest : Name} (h : rest = [] ∨ rest.headD 0 = slash) :
    (if rest.headD 0 = slash then rest.tail else rest) = rest.tail := by
  rcases h with rfl | h
  · rfl
  · rw [if_pos h]

theorem Cut.length_le {path : Name} {pieces : List Name} (h : Cut path pieces) :
    pieces.length ≤ path.length + 1 := by
  rcases h.cut with rfl | ⟨-, rfl⟩
  · exact splitOn_length_le slash path
  · exact Nat.zero_le _

/-! ### What is in memory -/

section
variable {H : Type} {s s₁ s' : Mem H} {O : Set U32} {x : U32}

/-- The string at `ptr`, with its terminator, in a buffer of `PEACHOS_MAX_PATH` characters. -/
structure StringAt (chars : U32 → U8) (ptr : U32) (str : Name) : Prop where
  zero : 0 ∉ str
  short : str.length < peachosMaxPath
  chars : ∀ j ≤ str.length, chars (ptr + BitVec.ofNat 32 j) = str.getD j 0

/-- A part is in memory, its link apart. -/
structure PartAt (s : Mem H) (part : PathPart) : Prop where
  pos : part.ptr ≠ 0
  str : s.words (slot part.ptr 0) = part.partPtr
  chars : StringAt s.chars part.partPtr part.part

/-- The list of parts is in memory from `p` on. -/
def PartsAt (s : Mem H) : (p : U32) → (parts : List PathPart) → Prop
  | p, [] => p = 0
  | p, part :: parts => p = part.ptr ∧ PartAt s part ∧ PartsAt s (s.words (slot part.ptr 1)) parts

/-- The root and its parts are in memory. -/
structure RootAt (s : Mem H) (root : PathRoot) : Prop where
  pos : root.ptr ≠ 0
  driveNo : s.words (slot root.ptr 0) = BitVec.ofInt 32 root.driveNo
  first : PartsAt s (s.words (slot root.ptr 1)) root.first

/-- The string at a pointer is one. -/
theorem StringAt.unique {chars : U32 → U8} {p : U32} {a b : Name} (ha : StringAt chars p a)
    (hb : StringAt chars p b) : a = b := by
  have hle : ∀ {a b : Name}, StringAt chars p a → StringAt chars p b → b.length ≤ a.length := by
    intro a b ha hb
    by_contra hlt
    have hend := hb.chars a.length (by omega)
    rw [ha.chars a.length le_rfl, List.getD_eq_default _ _ le_rfl,
      List.getD_eq_getElem _ _ (by omega)] at hend
    exact hb.zero (hend ▸ List.getElem_mem _)
  refine List.ext_getElem (le_antisymm (hle hb ha) (hle ha hb)) fun j hj hj' => ?_
  have hchar := ha.chars j hj.le
  rwa [hb.chars j hj'.le, List.getD_eq_getElem _ _ hj', List.getD_eq_getElem _ _ hj, eq_comm]
    at hchar

/-- The list of parts from a pointer on is one. -/
theorem PartsAt.unique {p : U32} {ps qs : List PathPart} (hp : PartsAt s p ps)
    (hq : PartsAt s p qs) : ps = qs := by
  induction ps generalizing p qs with
  | nil =>
    obtain rfl : p = 0 := hp
    cases qs with
    | nil => rfl
    | cons part qs => exact absurd hq.1.symm hq.2.1.pos
  | cons part ps ih =>
    obtain ⟨rfl, hpart, hrest⟩ := hp
    cases qs with
    | nil => exact absurd hq hpart.pos
    | cons part' qs =>
      obtain ⟨hptr, hpart', hrest'⟩ := hq
      have hstr : part.partPtr = part'.partPtr := by rw [← hpart.str, hptr, hpart'.str]
      have hname : part.part = part'.part := hpart.chars.unique (hstr ▸ hpart'.chars)
      obtain ⟨ptr, partPtr, name⟩ := part
      obtain ⟨ptr', partPtr', name'⟩ := part'
      obtain rfl : ptr = ptr' := hptr
      obtain rfl : partPtr = partPtr' := hstr
      obtain rfl : name = name' := hname
      rw [ih hrest hrest']

/-- The memory of the pages `O` is the same but for the word at `x`. -/
structure Kept (O : Set U32) (x : U32) (s s' : Mem H) : Prop where
  words : ∀ a, pageOf a ∈ O → a ≠ x → s'.words a = s.words a
  chars : ∀ a, pageOf a ∈ O → s'.chars a = s.chars a

theorem Kept.trans (h₁ : Kept O x s s₁) (h₂ : Kept O x s₁ s') : Kept O x s s' :=
  ⟨fun a ha hx => (h₂.words a ha hx).trans (h₁.words a ha hx),
    fun a ha => (h₂.chars a ha).trans (h₁.chars a ha)⟩

theorem Kept.mono {O' : Set U32} (h : Kept O x s s') (hsub : O' ⊆ O) : Kept O' x s s' :=
  ⟨fun a ha => h.words a (hsub ha), fun a ha => h.chars a (hsub ha)⟩

/-- A word of a page, other than the one at `x`. -/
theorem Kept.word {p i : U32} (h : Kept O x s s') (hp : p ∈ O) (ha : p % 4096 = 0)
    (hi : i.toNat < 1024) (hx : slot p i ≠ x) : s'.words (slot p i) = s.words (slot p i) :=
  h.words _ (by rwa [pageOf_slot ha hi]) hx

/-- A character of a page. -/
theorem pageOf_char {p : U32} (ha : p % 4096 = 0) {j : Nat} (hj : j < 4096) :
    pageOf (p + BitVec.ofNat 32 j) = p :=
  pageOf_of_sub_lt ha (by bv_omega)

theorem Kept.stringAt {p : U32} {str : Name} (h : Kept O x s s') (hp : p ∈ O) (ha : p % 4096 = 0)
    (hstr : StringAt s.chars p str) : StringAt s'.chars p str := by
  refine ⟨hstr.zero, hstr.short, fun j hj => ?_⟩
  have hlen := hstr.short
  rw [peachosMaxPath] at hlen
  rw [h.chars _ (by rwa [pageOf_char ha (by omega)])]
  exact hstr.chars j hj

/-- A part stays in memory when only its link changes. -/
theorem Kept.partAt {part : PathPart} (h : Kept O x s s') (hpart : PartAt s part)
    (hptr : part.ptr ∈ O ∧ part.ptr % 4096 = 0) (hstr : part.partPtr ∈ O ∧ part.partPtr % 4096 = 0)
    (hx : slot part.ptr 0 ≠ x) : PartAt s' part :=
  ⟨hpart.pos, (h.word hptr.1 hptr.2 (by decide) hx).trans hpart.str,
    h.stringAt hstr.1 hstr.2 hpart.chars⟩

/-! ### Reads and writes -/

theorem onWords_ok {α : Type} {y : Exec Fault (PagingState H) α} {a : α} {w : PagingState H}
    (h : y s.toPagingState = .ok (a, w)) :
    onWords y s = .ok (a, { toPagingState := w, chars := s.chars }) := by
  rw [onWords, h]
  rfl

theorem storeWord_run {p i val : U32} (hp : p ≠ 0) :
    onWords (storeWord p i val) s =
      .ok ((), { s with words := Function.update s.words (slot p i) val }) :=
  onWords_ok (storeWord_ok hp ..)

/-- A write to the word at `x`, or to a page that is not out. -/
theorem Kept.storeWord {p i : U32} (ha : p % 4096 = 0) (hi : i.toNat < 1024)
    (hp : p ∈ O → slot p i = x) (val : U32) :
    Kept O x s { s with words := Function.update s.words (Memory.slot p i) val } := by
  refine ⟨fun a hO hx => Function.update_of_ne (fun he => hx ?_) .., fun _ _ => rfl⟩
  rw [he] at hO ⊢
  exact hp (by rwa [pageOf_slot ha hi] at hO)

/-- The words with `a` and `b` stored to a structure of two words. -/
def setPair (words : U32 → U32) (p a b : U32) : U32 → U32 :=
  Function.update (Function.update words (slot p 0) a) (slot p 1) b

theorem setPair_zero {p : U32} (ha : p % 4096 = 0) (words : U32 → U32) (a b : U32) :
    setPair words p a b (slot p 0) = a := by
  have hne : slot p 0 ≠ slot p 1 := fun he =>
    absurd (slot_inj ha ha (by decide) (by decide) he).2 (by decide)
  rw [setPair, Function.update_of_ne hne, Function.update_self]

theorem setPair_one (words : U32 → U32) (p a b : U32) : setPair words p a b (slot p 1) = b :=
  Function.update_self ..

theorem Kept.setPair {p : U32} (ha : p % 4096 = 0) (hp : p ∉ O) (a b : U32) :
    Kept O x s { s with words := setPair s.words p a b } :=
  (Kept.storeWord ha (by decide) (fun h => absurd h hp) a).trans
    (Kept.storeWord ha (by decide) (fun h => absurd h hp) b)

/-- The characters of `part` are copied to the positions from `i` on. -/
theorem copyPart_ok {p : U32} (hp : p ≠ 0) (ha : p % 4096 = 0) {part rest : Name}
    (hslash : slash ∉ part) (hzero : 0 ∉ part) (hrest : rest = [] ∨ rest.headD 0 = slash)
    (i : Nat) (hi : i + part.length < peachosMaxPath) (s : Mem H) :
    ∃ chars, pathparserCopyPart p i (part ++ rest) s =
        .ok ((i + part.length, rest), { s with chars }) ∧
      (∀ j < peachosMaxPath, chars (p + BitVec.ofNat 32 j) =
        if i ≤ j ∧ j < i + part.length then part.getD (j - i) 0
        else s.chars (p + BitVec.ofNat 32 j)) ∧
      ∀ a, pageOf a ≠ p → chars a = s.chars a := by
  induction part generalizing i s with
  | nil =>
    refine ⟨s.chars, ?_, fun j _ => (if_neg ?_).symm, fun _ _ => rfl⟩
    · rcases hrest with rfl | hrest
      · rfl
      · cases rest with
        | nil => rfl
        | cons c rest =>
          obtain rfl : c = slash := hrest
          rfl
    · rw [List.length_nil]
      omega
  | cons c part ih =>
    have hc : c ≠ slash ∧ c ≠ 0x00 :=
      ⟨fun he => hslash (he ▸ List.mem_cons_self), fun he => hzero (he ▸ List.mem_cons_self)⟩
    rw [List.length_cons] at hi
    simp only [peachosMaxPath] at hi
    have hstore : storeChar p i c s = .ok ((), { s with
        chars := Function.update s.chars (p + BitVec.ofNat 32 i) c }) := by
      rw [storeChar, if_neg hp, if_neg (by rw [peachosMaxPath]; omega)]
    obtain ⟨chars, hrun, hin, hout⟩ := ih (fun h => hslash (List.mem_cons_of_mem _ h))
      (fun h => hzero (List.mem_cons_of_mem _ h)) (i + 1) (by rw [peachosMaxPath]; omega)
      { s with chars := Function.update s.chars (p + BitVec.ofNat 32 i) c }
    refine ⟨chars, ?_, fun j hj => ?_, fun a hpage => ?_⟩
    · rw [List.cons_append, pathparserCopyPart, if_pos hc, Exec.bind_ok hstore, hrun,
        List.length_cons, Nat.add_assoc, Nat.add_comm 1]
    · have hmax : j < 108 := hj
      rw [hin j hj, List.length_cons]
      by_cases hji : j = i
      · subst hji
        rw [if_neg (by omega), if_pos (by omega), Nat.sub_self]
        exact Function.update_self ..
      · have hne : p + BitVec.ofNat 32 j ≠ p + BitVec.ofNat 32 i := fun he => hji (by
          have he := congrArg BitVec.toNat ((BitVec.add_right_inj p).mp he)
          simp only [BitVec.toNat_ofNat] at he
          omega)
        by_cases hlater : i + 1 ≤ j ∧ j < i + 1 + part.length
        · obtain ⟨k, rfl⟩ := Nat.exists_eq_add_of_le hlater.1
          rw [if_pos hlater, if_pos (by omega), Nat.add_sub_cancel_left,
            show i + 1 + k - i = k + 1 by omega, List.getD_cons_succ]
        · rw [if_neg hlater, if_neg (by omega)]
          exact Function.update_of_ne hne ..
    · rw [hout a hpage]
      refine Function.update_of_ne (fun he => hpage ?_) ..
      rw [he, pageOf_char ha (by omega)]

end

/-! ### The parser

`halloc` and `hroom`: the pages handed out are not out yet, and there are some as long as less than
`capacity` are. -/

section
variable {H : Type} {alloc : Allocator H} {Owns : H → Set U32 → Prop} {capacity : Nat}
  (halloc : PageAllocator alloc Owns) (hroom : Roomy alloc Owns capacity)
  {s : Mem H} {O : Set U32}

include halloc hroom

/-- An allocation takes a page, filled with zeros. -/
theorem kzalloc_take (size : U32) (ho : Owns s.heap O) (hO : O.ncard < capacity)
    (hsize : size ≠ 0) (hle : size.toNat ≤ 4096) :
    ∃ p s', kzalloc alloc size s = .ok (p, s') ∧ alloc.kzalloc size s.heap = (p, s'.heap) ∧
      TookPages Owns O ∅ s.toPagingState [p] s'.toPagingState ∧ (∀ x, Kept O x s s') ∧
      ∀ j < size.toNat, s'.chars (p + BitVec.ofNat 32 j) = 0 := by
  obtain ⟨p, heap, hrequest⟩ : ∃ p heap, alloc.kzalloc size s.heap = (p, heap) := ⟨_, _, rfl⟩
  have hp : p ≠ 0 := by
    have h := hroom ho hO hsize hle
    rwa [hrequest] at h
  have hwords : kzallocWords alloc size s.toPagingState =
      .ok (p, { heap, words := clear s.words p size }) := by
    rw [kzallocWords, hrequest]
    rfl
  have htook := kzallocWords_take halloc ho hsize hle hwords hp
  obtain ⟨-, ha, hout⟩ := htook.fresh p (List.mem_singleton_self p)
  refine ⟨p, { heap, words := clear s.words p size, chars := clear s.chars p size }, ?_, hrequest,
    ⟨htook.owns, htook.nodup, htook.fresh, fun a h => absurd h (Set.notMem_empty _)⟩,
    fun x => ?_, fun j hj => ?_⟩
  · rw [kzalloc, Exec.bind_ok (onWords_ok hwords)]
    rfl
  · refine ⟨fun a hO _ => htook.words a hO, fun a hO => if_neg fun hin => hout ?_⟩
    rwa [pageOf_of_sub_lt ha (by omega)] at hO
  · have hsize := size.isLt
    have hoffset : (p + BitVec.ofNat 32 j - p).toNat = j := by bv_omega
    exact if_pos ⟨hp, by rwa [hoffset]⟩

/-- What a call that returns a part does: it takes a page for the string and one for the part, and
links the part behind `last`, if there is one. -/
structure Parsed (Owns : H → Set U32 → Prop) (O : Set U32) (last : U32) (s s' : Mem H)
    (part : PathPart) : Prop where
  took : TookPages Owns O ∅ s.toPagingState [part.partPtr, part.ptr] s'.toPagingState
  kept : Kept O (slot last 1) s s'
  linked : last ≠ 0 → s'.words (slot last 1) = part.ptr
  stored : PartAt s' part
  next : s'.words (slot part.ptr 1) = 0

/-- The pages of the parts. -/
def partPages (parts : List PathPart) : List U32 := parts.flatMap fun p => [p.partPtr, p.ptr]

/-- A piece that is not empty is copied to a page of its own. -/
theorem getPathPart_some {path part : Name} {pieces : List Name} (hcut : Cut path (part :: pieces))
    (hpart : part ≠ []) (ho : Owns s.heap O) (hO : O.ncard < capacity) :
    ∃ p s' path', pathparserGetPathPart alloc path s = .ok ((p, path'), s') ∧
      Fs.pathparserGetPathPart alloc part s.heap = .ok (p, s'.heap) ∧ Cut path' pieces ∧
      TookPages Owns O ∅ s.toPagingState [p] s'.toPagingState ∧ (∀ x, Kept O x s s') ∧
      StringAt s'.chars p part := by
  obtain ⟨rest, hpath, hslash, hrest, hcut'⟩ := hcut.head
  rw [List.headD_cons] at hpath hslash
  obtain ⟨p, s₁, hrun, hheap, htook, hkept, hclear⟩ :=
    kzalloc_take halloc hroom 108 ho hO (by decide) (by decide)
  obtain ⟨hp, ha, hout⟩ := htook.fresh p (List.mem_singleton_self p)
  have hlen : 0 + part.length < peachosMaxPath := by
    have := hcut.short
    rw [hpath, List.length_append] at this
    omega
  have hzero : 0 ∉ part := fun h0 => hcut.zero (hpath ▸ List.mem_append_left _ h0)
  obtain ⟨chars, hcopy, hin, hother⟩ := copyPart_ok hp ha hslash hzero hrest 0 hlen s₁
  refine ⟨p, { s₁ with chars }, rest.tail, ?_, ?_, hcut', htook, fun x => ?_, ?_⟩
  · rw [pathparserGetPathPart, Exec.bind_ok hrun, hpath, Exec.bind_ok hcopy]
    dsimp only
    rw [skip_slash hrest, if_neg (by simpa using hpart)]
    rfl
  · rw [Fs.pathparserGetPathPart, if_neg hpart, Allocator.kzallocWritten]
    refine (Exec.bind_ok (congrArg Except.ok hheap)).trans ?_
    rw [if_neg hp]
    rfl
  · refine (hkept x).trans ⟨fun _ _ _ => rfl, fun a hO => hother a fun he => hout (he ▸ hO)⟩
  · refine ⟨hzero, by omega, fun j hj => ?_⟩
    have hlen : 0 + part.length < 108 := hlen
    refine (hin j (by rw [peachosMaxPath]; omega)).trans ?_
    by_cases hend : j = part.length
    · subst hend
      rw [if_neg (by omega), hclear _ (by show _ < 108; omega)]
      simp
    · rw [if_pos (by omega), Nat.sub_zero]

/-- For an empty piece, or at the end of the path, the page is given back. -/
theorem getPathPart_none {path : Name} {pieces : List Name} (hcut : Cut path pieces)
    (hpart : pieces.headD [] = []) (ho : Owns s.heap O) (hO : O.ncard < capacity) :
    ∃ s' path', pathparserGetPathPart alloc path s = .ok ((0, path'), s') ∧
      Fs.pathparserGetPathPart alloc [] s.heap = .ok (0, s'.heap) ∧ Owns s'.heap O ∧
      ∀ x, Kept O x s s' := by
  obtain ⟨rest, hpath, -, hrest, -⟩ := hcut.head
  rw [hpart, List.nil_append] at hpath
  subst hpath
  obtain ⟨p, s₁, hrun, hheap, htook, hkept, -⟩ :=
    kzalloc_take halloc hroom 108 ho hO (by decide) (by decide)
  obtain ⟨hp, ha, hout⟩ := htook.fresh p (List.mem_singleton_self p)
  have hcopy : pathparserCopyPart p 0 path s₁ = .ok ((0, path), s₁) := by
    rcases hrest with rfl | hrest
    · rfl
    · cases path with
      | nil => rfl
      | cons c path =>
        obtain rfl : c = slash := hrest
        rfl
  have hfree : kfree alloc p s₁ = .ok ((), { s₁ with heap := alloc.kfree p s₁.heap }) := rfl
  have howns : Owns (alloc.kfree p s₁.heap) O := by
    have hgive := halloc.give htook.owns (.inr (List.mem_singleton_self p))
    rwa [union_one, Set.insert_sdiff_self_of_notMem hout] at hgive
  refine ⟨{ s₁ with heap := alloc.kfree p s₁.heap }, path.tail, ?_, ?_, howns, fun x =>
    (hkept x).trans ⟨fun _ _ _ => rfl, fun _ _ => rfl⟩⟩
  · rw [pathparserGetPathPart, Exec.bind_ok hrun, Exec.bind_ok hcopy]
    dsimp only
    rw [skip_slash hrest, if_pos rfl]
    exact Exec.bind_ok hfree
  · rw [Fs.pathparserGetPathPart, if_pos rfl]
    exact Exec.bind_ok (congrArg Except.ok hheap)

/-- A part of the path takes a page for itself, and one for its string. -/
theorem parsePathPart_some {path part : Name} {pieces : List Name} (last : U32)
    (hcut : Cut path (part :: pieces)) (hpart : part ≠ []) (ho : Owns s.heap O)
    (hO : O.ncard + 1 < capacity) (hlast : last ≠ 0 → last ∈ O ∧ last % 4096 = 0) :
    ∃ p s' path', pathparserParsePathPart alloc last path s = .ok ((p.ptr, path'), s') ∧
      Fs.pathparserParsePathPart alloc part s.heap = .ok (some p, s'.heap) ∧ p.part = part ∧
      Cut path' pieces ∧ Parsed Owns O last s s' p := by
  obtain ⟨str, s₁, path', hget, hgetList, hcut', htook₁, hkept₁, hstr⟩ :=
    getPathPart_some halloc hroom hcut hpart ho (by omega)
  have hO₁ : (O ∪ {p | p ∈ [str]}).ncard < capacity := by
    rw [ncard_took htook₁, List.length_singleton]
    exact hO
  obtain ⟨p, s₂, hrun, hheap, htook₂, hkept₂, -⟩ :=
    kzalloc_take halloc hroom 8 htook₁.owns hO₁ (by decide) (by decide)
  obtain ⟨hstr0, hstra, -⟩ := htook₁.fresh str (List.mem_singleton_self str)
  obtain ⟨hp, ha, hout⟩ := htook₂.fresh p (List.mem_singleton_self p)
  have htook : TookPages Owns O ∅ s.toPagingState [str, p] s₂.toPagingState :=
    htook₁.trans ⟨htook₂.owns, htook₂.nodup, htook₂.fresh, nofun⟩
  -- the two stores to the part
  obtain ⟨s₄, hs₄⟩ : ∃ s₄ : Mem H, s₄ = { s₂ with words := setPair s₂.words p str 0 } := ⟨_, rfl⟩
  have hkept₄ : Kept (O ∪ {p | p ∈ [str]}) (slot last 1) s₁ s₄ := by
    rw [hs₄]
    exact (hkept₂ _).trans (Kept.setPair ha hout str 0)
  -- the link, which is in none of the new pages
  obtain ⟨s', hlink, hheap', hwords, hchars, hlinked⟩ : ∃ s' : Mem H,
      (if last ≠ 0 then do
          onWords (storeWord last 1 p)
          pure (p, path')
        else pure (p, path')) s₄ = .ok ((p, path'), s') ∧ s'.heap = s₄.heap ∧
        (∀ a, a ≠ slot last 1 ∨ last = 0 → s'.words a = s₄.words a) ∧ s'.chars = s₄.chars ∧
        (last ≠ 0 → s'.words (slot last 1) = p) := by
    by_cases h0 : last = 0
    · refine ⟨s₄, ?_, rfl, fun _ _ => rfl, rfl, fun h => absurd h0 h⟩
      rw [if_neg (not_not.mpr h0)]
      rfl
    · refine ⟨{ s₄ with words := Function.update s₄.words (slot last 1) p }, ?_, rfl, fun a h => ?_,
        rfl, fun _ => Function.update_self ..⟩
      · rw [if_pos h0, Exec.bind_ok (storeWord_run h0)]
        rfl
      · exact Function.update_of_ne (h.resolve_right h0) ..
  have hoff : ∀ i : U32, i.toNat < 1024 → s'.words (slot p i) = s₄.words (slot p i) := by
    intro i hi
    refine hwords _ (or_iff_not_imp_right.mpr fun h0 he => hout ?_)
    obtain ⟨hlO, hla⟩ := hlast h0
    rw [(slot_inj ha hla hi (by decide) he).1]
    exact .inl hlO
  refine ⟨⟨p, str, part⟩, s', path', ?_, ?_, rfl, hcut', ?_, ?_, hlinked, ⟨hp, ?_, ?_⟩, ?_⟩
  · rw [pathparserParsePathPart, Exec.bind_ok hget]
    dsimp only
    rw [if_neg hstr0, Exec.bind_ok hrun, Exec.bind_ok (storeWord_run hp),
      Exec.bind_ok (storeWord_run hp), ← hlink, hs₄]
    rfl
  · rw [Fs.pathparserParsePathPart, Exec.bind_ok hgetList, if_neg hstr0, Allocator.kzallocWritten]
    have hcall : (alloc.callKzalloc 8 >>= fun ptr =>
        if ptr = 0 then Exec.fault Fault.nullDeref else pure ptr) s₁.heap = .ok (p, s₂.heap) := by
      refine (Exec.bind_ok (congrArg Except.ok hheap)).trans ?_
      rw [if_neg hp]
      rfl
    rw [Exec.bind_ok hcall, hheap', hs₄]
    rfl
  · refine ⟨?_, htook.nodup, htook.fresh, nofun⟩
    rw [hheap', hs₄]
    exact htook.owns
  · refine (hkept₁ _).trans ((hkept₄.mono Set.subset_union_left).trans ?_)
    exact ⟨fun a _ hx => hwords a (.inl hx), fun a _ => congrFun hchars a⟩
  · rw [hoff 0 (by decide), hs₄]
    exact setPair_zero ha ..
  · rw [hchars]
    exact hkept₄.stringAt (.inr (List.mem_singleton_self str)) hstra hstr
  · rw [hoff 1 (by decide), hs₄]
    exact setPair_one ..

theorem parsePathPart_none {path : Name} {pieces : List Name} (last : U32) (hcut : Cut path pieces)
    (hpart : pieces.headD [] = []) (ho : Owns s.heap O) (hO : O.ncard < capacity) :
    ∃ s' path', pathparserParsePathPart alloc last path s = .ok ((0, path'), s') ∧
      Fs.pathparserParsePathPart alloc [] s.heap = .ok (none, s'.heap) ∧ Owns s'.heap O ∧
      ∀ x, Kept O x s s' := by
  obtain ⟨s', path', hget, hgetList, howns, hkept⟩ :=
    getPathPart_none halloc hroom hcut hpart ho hO
  refine ⟨s', path', ?_, ?_, howns, hkept⟩
  · rw [pathparserParsePathPart, Exec.bind_ok hget]
    rfl
  · rw [Fs.pathparserParsePathPart, Exec.bind_ok hgetList]
    rfl

omit halloc hroom in
theorem parseParts_nil {pieces : List Name} {h h' : H} (hpart : pieces.headD [] = [])
    (hcall : Fs.pathparserParsePathPart alloc [] h = .ok (none, h')) :
    Fs.pathparserParseParts alloc pieces h = .ok ([], h') := by
  cases pieces with
  | nil =>
    rw [Fs.pathparserParseParts, Exec.bind_ok hcall]
    rfl
  | cons part pieces =>
    obtain rfl : part = [] := hpart
    rw [Fs.pathparserParseParts, Exec.bind_ok hcall]
    rfl

/-- The parts up to the first empty piece are linked behind `last`. -/
theorem parseLoop_ok {pieces : List Name} : ∀ (fuel : Nat) {path : Name} {last : U32} {s : Mem H}
    {O : Set U32}, Cut path pieces → Owns s.heap O →
    O.ncard + 2 * (pieces.takeWhile (· ≠ [])).length < capacity → last ≠ 0 → last ∈ O →
    last % 4096 = 0 → s.words (slot last 1) = 0 → pieces.length + 2 ≤ fuel →
    ∃ parts s', pathparserParseLoop alloc fuel last path s = .ok ((), s') ∧
      Fs.pathparserParseParts alloc pieces s.heap = .ok (parts, s'.heap) ∧
      parts.map PathPart.part = pieces.takeWhile (· ≠ []) ∧
      TookPages Owns O ∅ s.toPagingState (partPages parts) s'.toPagingState ∧
      Kept O (slot last 1) s s' ∧ PartsAt s' (s'.words (slot last 1)) parts := by
  -- the last call, which returns no part
  have hend : ∀ (fuel : Nat) {pieces : List Name} {path : Name} {last : U32} {s : Mem H}
      {O : Set U32}, pieces.headD [] = [] → Cut path pieces → Owns s.heap O → O.ncard < capacity →
      last ≠ 0 → last ∈ O → last % 4096 = 0 → s.words (slot last 1) = 0 →
      ∃ s', pathparserParseLoop alloc (fuel + 2) last path s = .ok ((), s') ∧
        Fs.pathparserParseParts alloc pieces s.heap = .ok ([], s'.heap) ∧
        TookPages Owns O ∅ s.toPagingState [] s'.toPagingState ∧
        Kept O (slot last 1) s s' ∧ s'.words (slot last 1) = 0 := by
    intro fuel pieces path last s O hpart hcut ho hO hl hlO hla hnext
    obtain ⟨s', path', hcall, hcallList, howns, hkept⟩ :=
      parsePathPart_none halloc hroom last hcut hpart ho hO
    refine ⟨s', ?_, parseParts_nil hpart hcallList, ⟨by simpa using howns, .nil, nofun, nofun⟩,
      hkept _, ?_⟩
    · rw [pathparserParseLoop, if_neg hl, Exec.bind_ok hcall]
      rfl
    · rw [(hkept (slot last 0)).word hlO hla (by decide) fun he =>
        absurd (slot_inj hla hla (by decide) (by decide) he).2 (by decide), hnext]
  induction pieces with
  | nil =>
    intro fuel path last s O hcut ho hO hl hlO hla hnext hfuel
    obtain ⟨fuel, rfl⟩ := Nat.exists_eq_add_of_le' hfuel
    obtain ⟨s', hrun, hlist, htook, hkept, hnext'⟩ :=
      hend fuel rfl hcut ho hO hl hlO hla hnext
    exact ⟨[], s', hrun, hlist, rfl, htook, hkept, hnext'⟩
  | cons part pieces ih =>
    intro fuel path last s O hcut ho hO hl hlO hla hnext hfuel
    rw [List.length_cons] at hfuel
    obtain ⟨fuel, rfl⟩ := Nat.exists_eq_add_of_le' (Nat.le_of_add_left_le hfuel)
    by_cases hpart : part = []
    · have hhead : (part :: pieces).headD [] = [] := hpart
      obtain ⟨s', hrun, hlist, htook, hkept, hnext'⟩ :=
        hend fuel hhead hcut ho (by omega) hl hlO hla hnext
      exact ⟨[], s', hrun, hlist, by simp [hpart], htook, hkept, hnext'⟩
    · rw [List.takeWhile_cons_of_pos (by simpa using hpart), List.length_cons] at hO
      obtain ⟨p, s₁, path₁, hcall, hcallList, hname, hcut₁, hp⟩ :=
        parsePathPart_some halloc hroom last hcut hpart ho (by omega) fun _ => ⟨hlO, hla⟩
      obtain ⟨-, hstra, -⟩ := hp.took.fresh p.partPtr (by simp)
      obtain ⟨hptr, hptra, hout⟩ := hp.took.fresh p.ptr (by simp)
      have hcard := ncard_took hp.took
      rw [List.length_cons, List.length_singleton] at hcard
      obtain ⟨parts, s', hrun, hlist, hnames, htook, hkept, hparts⟩ := ih (fuel + 1) hcut₁
        hp.took.owns (by omega) hptr (.inr (by simp)) hptra hp.next (by omega)
      -- only the link of the new part changes from here on
      have hne : slot last 1 ≠ slot p.ptr 1 := fun he =>
        hout ((slot_inj hla hptra (by decide) (by decide) he).1 ▸ hlO)
      have hlink : s'.words (slot last 1) = p.ptr :=
        (hkept.word (.inl hlO) hla (by decide) hne).trans (hp.linked hl)
      have hstored : PartAt s' p := hkept.partAt hp.stored ⟨.inr (by simp), hptra⟩
        ⟨.inr (by simp), hstra⟩ fun he =>
          absurd (slot_inj hptra hptra (by decide) (by decide) he).2 (by decide)
      refine ⟨p :: parts, s', ?_, ?_, ?_, hp.took.trans htook, hp.kept.trans ?_, hlink, hstored,
        hparts⟩
      · rw [pathparserParseLoop, if_neg hl, Exec.bind_ok hcall]
        exact hrun
      · rw [Fs.pathparserParseParts, Exec.bind_ok hcallList]
        dsimp only
        rw [Exec.bind_ok hlist]
        rfl
      · rw [List.map_cons, hname, hnames, List.takeWhile_cons_of_pos (by simpa using hpart)]
      · refine ⟨fun a ha _ => hkept.words a (.inl ha) fun he => hout ?_,
          fun a ha => hkept.chars a (.inl ha)⟩
        rwa [he, pageOf_slot hptra (by decide)] at ha

/-- The root takes a page. -/
theorem createRoot_ok (driveNumber : Int) (ho : Owns s.heap O) (hO : O.ncard < capacity) :
    ∃ p s', pathparserCreateRoot alloc driveNumber s = .ok (p, s') ∧
      Fs.pathparserCreateRoot alloc s.heap = .ok (p, s'.heap) ∧
      TookPages Owns O ∅ s.toPagingState [p] s'.toPagingState ∧
      s'.words (slot p 0) = BitVec.ofInt 32 driveNumber ∧ s'.words (slot p 1) = 0 := by
  obtain ⟨p, s₁, hrun, hheap, htook, -, -⟩ :=
    kzalloc_take halloc hroom 8 ho hO (by decide) (by decide)
  obtain ⟨hp, ha, -⟩ := htook.fresh p (List.mem_singleton_self p)
  refine ⟨p, { s₁ with words := setPair s₁.words p (BitVec.ofInt 32 driveNumber) 0 }, ?_, ?_,
    ⟨htook.owns, htook.nodup, htook.fresh, nofun⟩, setPair_zero ha .., setPair_one ..⟩
  · rw [pathparserCreateRoot, Exec.bind_ok hrun, Exec.bind_ok (storeWord_run hp),
      Exec.bind_ok (storeWord_run hp)]
    rfl
  · rw [Fs.pathparserCreateRoot, Allocator.kzallocWritten]
    refine (Exec.bind_ok (congrArg Except.ok hheap)).trans ?_
    rw [if_neg hp]
    rfl

/-- The parser once it has its root. -/
structure Started (alloc : Allocator H) (Owns : H → Set U32 → Prop) (O : Set U32) (path : Name)
    (s : Mem H) (root : U32) (s₁ : Mem H) : Prop where
  nonzero : root ≠ 0
  aligned : root % 4096 = 0
  took : TookPages Owns O ∅ s.toPagingState [root] s₁.toPagingState
  driveNo : s₁.words (slot root 0) = BitVec.ofInt 32 (tonumericdigit (path.headD 0))
  first : s₁.words (slot root 1) = 0
  rest : pathparserParse alloc path s = (do
    let (firstPart, tmpPath) ← pathparserParsePathPart alloc 0 (path.drop 3)
    if firstPart = 0 then pure root
    else
      onWords (storeWord root 1 firstPart)
      let (part, tmpPath) ← pathparserParsePathPart alloc firstPart tmpPath
      pathparserParseLoop alloc path.length part tmpPath
      pure root) s₁
  restList : ∀ {parts : List PathPart} {h' : H},
    Fs.pathparserParseParts alloc ((path.drop 3).splitOn slash) s₁.heap = .ok (parts, h') →
      Fs.pathparserParse alloc path s.heap =
        .ok (some ⟨root, tonumericdigit (path.headD 0), parts⟩, h')

/-- Behind a valid drive, the parser stands at the path's first part. -/
theorem parse_start {path : Name} (hlen : path.length ≤ peachosMaxPath)
    (hvalid : pathparserPathValidFormat path) (ho : Owns s.heap O) (hO : O.ncard < capacity) :
    ∃ root s₁, Started alloc Owns O path s root s₁ := by
  obtain ⟨hdrive, hdigit⟩ := pathparserGetDriveByPath_valid hvalid
  obtain ⟨root, s₁, hroot, hrootList, htook, hword0, hword1⟩ :=
    createRoot_ok halloc hroom (tonumericdigit (path.headD 0)) ho hO
  obtain ⟨hr, hra, -⟩ := htook.fresh root (List.mem_singleton_self root)
  refine ⟨root, s₁, hr, hra, htook, hword0, hword1, ?_, fun hparts => ?_⟩
  · rw [pathparserParse, if_neg (by omega), hdrive]
    dsimp only
    rw [if_neg hdigit, Exec.bind_ok hroot, if_neg hr]
  · rw [Fs.pathparserParse, if_neg (by omega), hdrive]
    dsimp only
    rw [if_neg hdigit, Exec.bind_ok hrootList, Exec.bind_ok hparts]
    rfl

/-- A path without a first part has a root without parts. -/
theorem parse_noFirst {path : Name} {pieces : List Name} {root : U32} {s₁ : Mem H}
    (hstart : Started alloc Owns O path s root s₁)
    (hpieces : (path.drop 3).splitOn slash = [] :: pieces)
    (hcut : Cut (path.drop 3) ([] :: pieces)) (hO : O.ncard + 2 ≤ capacity) :
    ∃ s', pathparserParse alloc path s = .ok (root, s') ∧
      Fs.pathparserParse alloc path s.heap =
        .ok (some ⟨root, tonumericdigit (path.headD 0), []⟩, s'.heap) ∧
      TookPages Owns O ∅ s.toPagingState (root :: partPages []) s'.toPagingState ∧
      RootAt s' ⟨root, tonumericdigit (path.headD 0), []⟩ := by
  obtain ⟨hr, hra, htook, hword0, hword1, hrest, hrestList⟩ := hstart
  have hcard := ncard_took htook
  rw [List.length_singleton] at hcard
  obtain ⟨s', path', hcall, hcallList, howns, hkept⟩ :=
    parsePathPart_none halloc hroom 0 hcut rfl htook.owns (by omega)
  refine ⟨s', ?_, hrestList (hpieces ▸ parseParts_nil rfl hcallList),
    ⟨howns, htook.nodup, htook.fresh, nofun⟩, hr, ?_, ?_⟩
  · rw [hrest, Exec.bind_ok hcall]
    rfl
  · rw [← hword0]
    exact (hkept 0).word (.inr (by simp)) hra (by decide) (by rwa [slot_zero])
  · refine Eq.trans ((hkept (slot root 0)).word (.inr (by simp)) hra (by decide) ?_) hword1
    exact fun he => absurd (slot_inj hra hra (by decide) (by decide) he).2 (by decide)

omit halloc hroom in
/-- Once the root points to the first part, the parser is in its loop. -/
theorem Started.run_first {path path₂ : Name} {root p : U32} {s₁ s₂ s' : Mem H}
    (hstart : Started alloc Owns O path s root s₁)
    (hcall : pathparserParsePathPart alloc 0 (path.drop 3) s₁ = .ok ((p, path₂), s₂)) (hp : p ≠ 0)
    (hrun : pathparserParseLoop alloc (path.length + 1) p path₂
      { s₂ with words := Function.update s₂.words (slot root 1) p } = .ok ((), s')) :
    pathparserParse alloc path s = .ok (root, s') := by
  rw [pathparserParseLoop, if_neg hp] at hrun
  obtain ⟨⟨part', path'⟩, s₄, hcall₄, hloop⟩ := Exec.bind_eq_ok.mp hrun
  rw [hstart.rest, Exec.bind_ok hcall]
  dsimp only
  rw [if_neg hp, Exec.bind_ok (storeWord_run hstart.nonzero), Exec.bind_ok hcall₄]
  dsimp only
  rw [Exec.bind_ok hloop]
  rfl

/-- A path with a first part has a root that points to it, and the parts behind it. -/
theorem parse_first {path part : Name} {pieces : List Name} {root : U32} {s₁ : Mem H}
    (hstart : Started alloc Owns O path s root s₁)
    (hpieces : (path.drop 3).splitOn slash = part :: pieces)
    (hcut : Cut (path.drop 3) (part :: pieces)) (hthree : 3 ≤ path.length) (hpart : part ≠ [])
    (hO : O.ncard + 2 * (pieces.takeWhile (· ≠ [])).length + 4 ≤ capacity) :
    ∃ parts s', pathparserParse alloc path s = .ok (root, s') ∧
      Fs.pathparserParse alloc path s.heap =
        .ok (some ⟨root, tonumericdigit (path.headD 0), parts⟩, s'.heap) ∧
      parts.map PathPart.part = part :: pieces.takeWhile (· ≠ []) ∧
      TookPages Owns O ∅ s.toPagingState (root :: partPages parts) s'.toPagingState ∧
      RootAt s' ⟨root, tonumericdigit (path.headD 0), parts⟩ := by
  have hstarted := hstart
  obtain ⟨hr, hra, htook₁, hword0, -, -, hrestList⟩ := hstart
  have hcard := ncard_took htook₁
  rw [List.length_singleton] at hcard
  have hlen := hcut.length_le
  rw [List.length_cons, List.length_drop] at hlen
  obtain ⟨p, s₂, path₂, hcall, hcallList, hname, hcut₂, hp⟩ :=
    parsePathPart_some halloc hroom 0 hcut hpart htook₁.owns (by omega) fun h => absurd rfl h
  obtain ⟨hptr, hptra, hout⟩ := hp.took.fresh p.ptr (by simp)
  obtain ⟨-, hstra, -⟩ := hp.took.fresh p.partPtr (by simp)
  have hcard₂ := ncard_took hp.took
  rw [List.length_cons, List.length_singleton] at hcard₂
  have hrO : root ∈ O ∪ {q | q ∈ [root]} := .inr (by simp)
  have hne : ∀ i j : U32, i.toNat < 1024 → j.toNat < 1024 → slot root i ≠ slot p.ptr j :=
    fun i j hi hj he => hout ((slot_inj hra hptra hi hj he).1 ▸ hrO)
  -- `path_root->first`
  obtain ⟨s₃, hs₃⟩ : ∃ s₃ : Mem H, s₃ =
    { s₂ with words := Function.update s₂.words (slot root 1) p.ptr } := ⟨_, rfl⟩
  have hkept₃ :
      Kept (O ∪ {q | q ∈ [root]} ∪ {q | q ∈ [p.partPtr, p.ptr]}) (slot root 1) s₂ s₃ := by
    rw [hs₃]
    exact Kept.storeWord hra (by decide) (fun _ => rfl) _
  have howns₃ : Owns s₃.heap (O ∪ {q | q ∈ [root]} ∪ {q | q ∈ [p.partPtr, p.ptr]}) := by
    rw [hs₃]
    exact hp.took.owns
  have hnext : s₃.words (slot p.ptr 1) = 0 :=
    (hkept₃.word (.inr (by simp)) hptra (by decide)
      (hne 1 1 (by decide) (by decide)).symm).trans hp.next
  obtain ⟨parts, s', hrun, hlist, hnames, htook, hkept, hparts⟩ := parseLoop_ok halloc hroom
    (path.length + 1) hcut₂ howns₃ (by omega) hptr (.inr (by simp)) hptra hnext (by omega)
  have hlink : s'.words (slot root 1) = p.ptr := by
    rw [hkept.word (.inl hrO) hra (by decide) (hne 1 1 (by decide) (by decide)), hs₃]
    exact Function.update_self ..
  have hdriveNo : s'.words (slot root 0) = BitVec.ofInt 32 (tonumericdigit (path.headD 0)) := by
    have hne01 : slot root 0 ≠ slot root 1 := fun he =>
      absurd (slot_inj hra hra (by decide) (by decide) he).2 (by decide)
    have hne0 : slot root 0 ≠ slot 0 1 := fun he =>
      hr (slot_inj hra (by decide) (by decide) (by decide) he).1
    rw [hkept.word (.inl hrO) hra (by decide) (hne 0 1 (by decide) (by decide)),
      hkept₃.word (.inl hrO) hra (by decide) hne01, hp.kept.word hrO hra (by decide) hne0,
      hword0]
  have hstored : PartAt s' p := by
    refine hkept.partAt (hkept₃.partAt hp.stored ⟨.inr (by simp), hptra⟩
      ⟨.inr (by simp), hstra⟩ (hne 1 0 (by decide) (by decide)).symm) ⟨.inr (by simp), hptra⟩
      ⟨.inr (by simp), hstra⟩ fun he => ?_
    exact absurd (slot_inj hptra hptra (by decide) (by decide) he).2 (by decide)
  have hheap₃ : s₃.heap = s₂.heap := by rw [hs₃]
  have htook₃ : TookPages Owns (O ∪ {q | q ∈ [root]} ∪ {q | q ∈ [p.partPtr, p.ptr]}) ∅
      s₂.toPagingState (partPages parts) s'.toPagingState :=
    ⟨htook.owns, htook.nodup, htook.fresh, nofun⟩
  refine ⟨p :: parts, s', hstarted.run_first hcall hptr (hs₃ ▸ hrun), hrestList ?_, ?_,
    htook₁.trans (hp.took.trans htook₃), hr, hdriveNo, hlink, hstored, hparts⟩
  · rw [hpieces, Fs.pathparserParseParts, Exec.bind_ok hcallList]
    dsimp only
    rw [← hheap₃, Exec.bind_ok hlist]
    rfl
  · rw [List.map_cons, hname, hnames]

/-- **The parser on memory does what the parser on lists does.**  For a path of the right form, with
room for a root, a string and a part for each piece up to the first empty one, and one buffer more,
both return the same root. -/
theorem parse_refines {path : Name} (hzero : 0 ∉ path) (hlen : path.length ≤ peachosMaxPath)
    (hvalid : pathparserPathValidFormat path) (ho : Owns s.heap O)
    (hO : O.ncard + 2 * (((path.drop 3).splitOn slash).takeWhile (· ≠ [])).length + 2 ≤ capacity) :
    ∃ root s', pathparserParse alloc path s = .ok (root.ptr, s') ∧
      Fs.pathparserParse alloc path s.heap = .ok (some root, s'.heap) ∧
      root.driveNo = tonumericdigit (path.headD 0) ∧
      root.first.map PathPart.part = ((path.drop 3).splitOn slash).takeWhile (· ≠ []) ∧
      TookPages Owns O ∅ s.toPagingState (root.ptr :: partPages root.first) s'.toPagingState ∧
      RootAt s' root := by
  have hthree : 3 ≤ path.length := by
    have hmin := (decide_eq_true_iff.mp hvalid).1
    simp only [strnlen] at hmin
    omega
  have hshort : (path.drop 3).length < peachosMaxPath := by
    rw [List.length_drop]
    simp only [peachosMaxPath] at hlen ⊢
    omega
  have hcut : Cut (path.drop 3) ((path.drop 3).splitOn slash) :=
    ⟨fun h0 => hzero (List.mem_of_mem_drop h0), hshort, .inl rfl⟩
  obtain ⟨root, s₁, hstart⟩ := parse_start halloc hroom hlen hvalid ho (by omega)
  cases hps : (path.drop 3).splitOn slash with
  | nil => exact absurd hps (List.splitOn_ne_nil slash _)
  | cons part pieces =>
      rw [hps] at hcut hO
      by_cases hpart : part = []
      · subst hpart
        obtain ⟨s', hrun, hlist, htook, hroot⟩ :=
          parse_noFirst halloc hroom hstart hps hcut (by omega)
        exact ⟨_, s', hrun, hlist, rfl, by simp, htook, hroot⟩
      · rw [List.takeWhile_cons_of_pos (by simpa using hpart), List.length_cons] at hO
        obtain ⟨parts, s', hrun, hlist, hnames, htook, hroot⟩ :=
          parse_first halloc hroom hstart hps hcut hthree hpart (by omega)
        refine ⟨_, s', hrun, hlist, rfl, ?_, htook, hroot⟩
        rw [hnames, List.takeWhile_cons_of_pos (by simpa using hpart)]

end

end KernelNES.Fs.PathMemory
