import KernelNES.Fs.PathMemory

/-!
# Fs — PathRelease

`pathparser_free`.  It frees the string and the part of each node of the list, then the root: all
that `pathparser_parse` took and has not freed itself.  On the kernel heap the block table is then
what it was before the path was parsed (`parsed_path_released`).
-/

namespace KernelNES.Fs.PathMemory
open KernelNES.Lib KernelNES.Memory

/-! ### The function -/

section
variable {H : Type} (alloc : Allocator H)

/-- The loop of `pathparser_free`, with `fuel` rounds left. -/
def pathparserFreeLoop : (fuel : Nat) → (part : U32) → Exec Fault (Mem H) Unit
  | 0, _ => Exec.fault .diverges
  | fuel + 1, part =>
    if part = 0 then pure ()
    else do
      let nextPart ← onWords (loadWord part 1)
      let str ← onWords (loadWord part 0)
      kfree alloc str
      kfree alloc part
      pathparserFreeLoop fuel nextPart

/-- `pathparser_free`: no list that ends has more parts than there are addresses. -/
def pathparserFree (root : U32) : Exec Fault (Mem H) Unit := do
  let part ← onWords (loadWord root 1)
  pathparserFreeLoop alloc (2 ^ 32) part
  kfree alloc root

end

/-! ### The pages freed -/

section
variable {H : Type} {alloc : Allocator H} {s : Mem H}

theorem loadWord_run {p i : U32} (hp : p ≠ 0) :
    onWords (loadWord p i) s = .ok (s.words (slot p i), s) := onWords_ok (loadWord_ok hp i _)

theorem PartsAt.withHeap {parts : List PathPart} : ∀ {p : U32} {s : Mem H}, PartsAt s p parts →
    ∀ heap : H, PartsAt { s with heap } p parts := by
  induction parts with
  | nil => exact fun h _ => h
  | cons part parts ih =>
    rintro p s ⟨hp, hpart, hrest⟩ heap
    exact ⟨hp, ⟨hpart.pos, hpart.str, hpart.chars⟩, ih hrest heap⟩

/-- Freeing changes no word, so the list can be followed to its end. -/
theorem freeLoop_ok {parts : List PathPart} : ∀ (fuel : Nat) {p : U32} {s : Mem H},
    PartsAt s p parts → parts.length < fuel → pathparserFreeLoop alloc fuel p s =
      .ok ((), { s with heap := kfreeAll alloc (partPages parts) s.heap }) := by
  induction parts with
  | nil =>
    intro fuel p s hp hfuel
    obtain rfl : p = 0 := hp
    obtain ⟨fuel, rfl⟩ := Nat.exists_eq_add_of_le' (Nat.one_le_of_lt hfuel)
    rfl
  | cons part parts ih =>
    intro fuel p s hp hfuel
    obtain ⟨rfl, hpart, hrest⟩ := hp
    rw [List.length_cons] at hfuel
    obtain ⟨fuel, rfl⟩ := Nat.exists_eq_add_of_le' (Nat.one_le_of_lt hfuel)
    have hfollow := ih fuel
      (hrest.withHeap (alloc.kfree part.ptr (alloc.kfree part.partPtr s.heap))) (by omega)
    rw [pathparserFreeLoop, if_neg hpart.pos, Exec.bind_ok (loadWord_run hpart.pos),
      Exec.bind_ok (loadWord_run hpart.pos), hpart.str]
    exact hfollow

/-- The pages of a parsed path are freed, the root last. -/
theorem pathparserFree_eq {root : PathRoot} (hroot : RootAt s root)
    (hlen : root.first.length < 2 ^ 32) :
    pathparserFree alloc root.ptr s = .ok ((), { s with
      heap := kfreeAll alloc (partPages root.first ++ [root.ptr]) s.heap }) := by
  rw [pathparserFree, Exec.bind_ok (loadWord_run hroot.pos),
    Exec.bind_ok (freeLoop_ok (2 ^ 32) hroot.first hlen), kfreeAll_append]
  rfl

end

/-! ### Parsed and freed -/

/-- A part takes a slash and a character at least. -/
theorem takeWhile_room (pieces : List Name) (hne : pieces ≠ []) :
    2 * (pieces.takeWhile (· ≠ [])).length ≤ ([slash].intercalate pieces).length + 1 := by
  induction pieces with
  | nil => exact absurd rfl hne
  | cons part pieces ih =>
    by_cases hpart : part = []
    · rw [List.takeWhile_cons_of_neg (by simpa using hpart)]
      exact Nat.zero_le _
    · have hpos := List.length_pos_iff.mpr hpart
      rw [List.takeWhile_cons_of_pos (by simpa using hpart), List.length_cons]
      cases pieces with
      | nil =>
        rw [List.intercalate_singleton, List.takeWhile_nil, List.length_nil]
        omega
      | cons part' pieces =>
        have hrest := ih (List.cons_ne_nil _ _)
        rw [List.intercalate_cons_cons, List.length_append, List.length_append,
          List.length_singleton]
        omega

/-- The allocations of a path are no more than its characters. -/
theorem parse_room {path : Name} (hvalid : pathparserPathValidFormat path) :
    2 * (((path.drop 3).splitOn slash).takeWhile (· ≠ [])).length + 2 ≤ path.length := by
  have hthree : 3 ≤ path.length := by
    have hmin := (decide_eq_true_iff.mp hvalid).1
    simp only [strnlen] at hmin
    omega
  have hroom := takeWhile_room _ (List.splitOn_ne_nil slash (path.drop 3))
  rw [List.intercalate_splitOn, List.length_drop] at hroom
  omega

/-- **A parsed path is released completely.**  On a well-formed kernel heap with as many free blocks
as the path has characters, `pathparser_parse` returns, and unless it returns `0` so does
`pathparser_free` of the root: then the block table is what it was, and no page the parser took is
out, each having been given back as often as it was taken. -/
theorem parsed_path_released {path : Name} (hzero : 0 ∉ path) {s : Mem (Heap × List HeapCall)}
    (hkernel : KernelHeap s.heap.1) (hlog : s.heap.2 = [])
    (hfree : path.length ≤ s.heap.1.freeBlocks.card) :
    ∃ root s', pathparserParse Allocator.kheap.recorded path s = .ok (root, s') ∧
      (root ≠ 0 → ∃ s'', pathparserFree Allocator.kheap.recorded root s' = .ok ((), s'') ∧
        s''.heap.1.table = s.heap.1.table ∧ Ledger s''.heap.2 ∅ ∧
        ∀ p, s''.heap.2.count (.took p) = s''.heap.2.count (.gave p)) := by
  by_cases hlen : path.length > peachosMaxPath
  · refine ⟨0, s, ?_, fun h => absurd rfl h⟩
    rw [pathparserParse, if_pos hlen]
    rfl
  by_cases hvalid : pathparserPathValidFormat path = true
  · have halloc := hkernel.pageAllocator.recorded
    have hstart : s.heap.1.TookFrom s.heap.1 ∅ ∧ Ledger s.heap.2 ∅ :=
      ⟨.start _, hlog ▸ .nil⟩
    have hroom := parse_room hvalid
    obtain ⟨root, s', hrun, -, -, hnames, htook, hroot⟩ := parse_refines halloc
      hkernel.roomy.recorded hzero (Nat.le_of_not_lt hlen) hvalid hstart
      (by rw [Set.ncard_empty, zero_add]; exact hroom.trans hfree)
    refine ⟨root.ptr, s', hrun, fun _ => ?_⟩
    have hlength : root.first.length < 2 ^ 32 := by
      have hcount := congrArg List.length hnames
      rw [List.length_map] at hcount
      simp only [peachosMaxPath] at hlen
      omega
    have hperm : (partPages root.first ++ [root.ptr]).Perm (root.ptr :: partPages root.first) :=
      List.perm_append_singleton ..
    have hgive := kfreeAll_give halloc (hperm.nodup_iff.mpr htook.nodup) htook.owns fun p hp =>
      .inr (hperm.mem_iff.mp hp)
    have hnone : (∅ ∪ {p | p ∈ root.ptr :: partPages root.first}) \
        {p | p ∈ partPages root.first ++ [root.ptr]} = (∅ : Set U32) := by
      rw [Set.empty_union, Set.sdiff_eq_empty]
      exact fun p hp => hperm.mem_iff.mpr hp
    rw [hnone] at hgive
    exact ⟨_, pathparserFree_eq hroot hlength, hgive.1.table_eq, hgive.2,
      fun p => (hgive.2.count p).2 (Set.notMem_empty p)⟩
  · refine ⟨0, s, ?_, fun h => absurd rfl h⟩
    rw [pathparserParse, if_neg hlen, pathparserGetDriveByPath, if_neg hvalid]
    rfl

/-- `0:/a//` on the heap after boot: it has a root, and all of it is released. -/
theorem parsed_path_released_a :
    ∃ root s' s'', pathparserParse Allocator.kheap.recorded [0x30, 0x3A, 0x2F, 0x61, 0x2F, 0x2F]
        { heap := (kernelHeap, []), words := fun _ => 0, chars := fun _ => 0 } = .ok (root, s') ∧
      root ≠ 0 ∧ pathparserFree Allocator.kheap.recorded root s' = .ok ((), s'') ∧
      s''.heap.1.table = kernelHeap.table ∧ Ledger s''.heap.2 ∅ ∧
      ∀ p, s''.heap.2.count (.took p) = s''.heap.2.count (.gave p) := by
  have hzero : (0 : U8) ∉ ([0x30, 0x3A, 0x2F, 0x61, 0x2F, 0x2F] : Name) := by decide
  have hcard := kernelHeap_freeBlocks
  obtain ⟨root, s', hrun, hreleased⟩ := parsed_path_released hzero
    (s := { heap := (kernelHeap, []), words := fun _ => 0, chars := fun _ => 0 })
    kernelHeap_kernelHeap rfl (by rw [hcard]; decide)
  obtain ⟨root', s₁, hrun', -, -, -, -, hroot⟩ := parse_refines
    kernelHeap_kernelHeap.pageAllocator.recorded kernelHeap_kernelHeap.roomy.recorded hzero
    (by decide) (by decide)
    (s := { heap := (kernelHeap, []), words := fun _ => 0, chars := fun _ => 0 })
    ⟨.start _, .nil⟩ (by rw [Set.ncard_empty, hcard]; decide)
  cases hrun.symm.trans hrun'
  obtain ⟨s'', hfree⟩ := hreleased hroot.1
  exact ⟨root'.ptr, s', s'', hrun, hroot.1, hfree⟩

end KernelNES.Fs.PathMemory
