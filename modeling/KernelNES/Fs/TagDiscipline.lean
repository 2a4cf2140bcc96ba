import KernelNES.Fs.RealEntries
import KernelNES.Lib.Runs
import KernelNES.Lib.Traced

/-!
# Fs — TagDiscipline

Which member of the union in `struct fat_item` the calls on a descriptor access.  Each call comes
with marks for the members it accesses and for its reads of the disk; without the marks it is the
call (`call_erase`).  `fat16_seek`, `fat16_stat` and `fat16_close` look at the type first;
`fat16_read` does not, and the tag is respected exactly when no directory is read
(`tag_respected_iff`).
-/

namespace KernelNES.Fs
open KernelNES.Lib KernelNES.Memory

/-- `FAT_ITEM_TYPE`. -/
inductive FatItemType where
  | directory
  | file
  deriving DecidableEq, Repr

/-- The type an item is tagged with. -/
def FatItem.type : FatItem → FatItemType
  | .directory _ => .directory
  | .file _ => .file

/-- What a call accesses: a member of the union of an item with the given tag, or the disk. -/
inductive Access where
  | member (tag member : FatItemType)
  | disk
  deriving DecidableEq, Repr

/-- A call on a descriptor. -/
inductive DescriptorCall where
  | read (size nmemb : U32)
  | seek (offset : U32) (seekMode : FileSeekMode)
  | stat
  | close
  deriving Repr

section
variable {H α : Type}

/-! ### The calls, with their accesses -/

/-- The driver's code on a descriptor, with its accesses. -/
abbrev Accessing (H : Type) := Traced Access Fault (FatState H)

/-- The loop of `fat16_read`. -/
def readLoopAccesses (vol : Volume) (item : FatItem) (size : U32) :
    (n : Nat) → (offset : Int) → Accessing H (Int × Int × List U8)
  | 0, offset => pure (0, offset, [])
  | n + 1, offset => do
    let contents ← .quiet (Exec.lift item.itemMember)
    .mark .disk
    let (res, out) ← .quiet (onDriver
      (fat16ReadInternal vol (fat16GetFirstCluster contents).toInt offset size.toInt))
    if res < 0 then pure (res, offset, out)
    else
      let (res, offset, rest) ← readLoopAccesses vol item size n (wrap32 (offset + size.toNat))
      pure (res, offset, out ++ rest)

/-- `fat16_read`: `fat_desc->item->item` is the first thing it reads. -/
def readAccesses (vol : Volume) (descriptor size nmemb : U32) : Accessing H (Int × List U8) := do
  let desc ← .quiet (loadDescriptor descriptor)
  let fatItem ← .quiet (Exec.lift desc.item.load)
  .mark (.member fatItem.type .file)
  let (res, offset, out) ← readLoopAccesses vol fatItem size nmemb.toNat desc.pos.toInt
  if res < 0 then pure (res, out)
  else do
    .quiet (setDescriptor descriptor (.live descriptor { desc with pos := BitVec.ofInt 32 offset }))
    pure (nmemb.toInt, out)

/-- `fat16_seek`. -/
def seekAccesses (private' offset : U32) (seekMode : FileSeekMode) : Accessing H Int := do
  let desc ← .quiet (loadDescriptor private')
  let descItem ← .quiet (Exec.lift desc.item.load)
  match descItem with
  | .directory _ => pure (-einvarg)
  | .file item => do
    .mark (.member descItem.type .file)
    let ritem ← .quiet (Exec.lift item.load)
    let (res, pos) := seekPosition ritem.filesize desc.pos offset seekMode
    .quiet (setDescriptor private' (.live private' { desc with pos }))
    pure res

/-- `fat16_stat`. -/
def statAccesses (private' : U32) : Accessing H (Int × Option FileStat) := do
  let desc ← .quiet (loadDescriptor private')
  let descItem ← .quiet (Exec.lift desc.item.load)
  match descItem with
  | .directory _ => pure (-einvarg, none)
  | .file item => do
    .mark (.member descItem.type .file)
    let ritem ← .quiet (Exec.lift item.load)
    let flags := if ritem.attributes &&& fatFileReadOnly ≠ 0 then fileStatReadOnly else 0
    pure (0, some { flags, filesize := ritem.filesize })

/-- `fat16_fat_item_free`. -/
def itemFreeAccesses (alloc : Allocator H) (item : Ref FatItem) : Accessing H Unit := do
  let contents ← .quiet (Exec.lift item.load)
  match contents with
  | .directory directory => do
    .mark (.member contents.type .directory)
    .quiet (onDriver (fat16FreeDirectory alloc directory))
  | .file file => do
    .mark (.member contents.type .file)
    .quiet (onDriver (kfree alloc file.addr))
  .quiet (onDriver (kfree alloc item.addr))

/-- `fat16_close`. -/
def closeAccesses (alloc : Allocator H) (private' : U32) : Accessing H Int := do
  let desc ← .quiet (loadDescriptor private')
  itemFreeAccesses alloc desc.item
  .quiet (onDriver (kfree alloc private'))
  .quiet (setDescriptor private' (.dangling private'))
  pure 0

/-- A call on the descriptor at `p`, with its accesses: what it returns. -/
def callAccesses (alloc : Allocator H) (vol : Volume) (p : U32) : DescriptorCall → Accessing H Int
  | .read size nmemb => do
    let (res, _) ← readAccesses vol p size nmemb
    pure res
  | .seek offset seekMode => seekAccesses p offset seekMode
  | .stat => do
    let (res, _) ← statAccesses p
    pure res
  | .close => closeAccesses alloc p

/-- The call itself. -/
def DescriptorCall.run (alloc : Allocator H) (vol : Volume) (p : U32) :
    DescriptorCall → Exec Fault (FatState H) Int
  | .read size nmemb => do
    let (res, _) ← fat16Read vol p size nmemb
    pure res
  | .seek offset seekMode => fat16Seek p offset seekMode
  | .stat => do
    let (res, _) ← fat16Stat p
    pure res
  | .close => fat16Close alloc p

/-! ### Erasing the accesses -/

theorem onDriver_bind {β : Type} (x : K H α) (f : α → K H β) :
    onDriver (x >>= f) = onDriver x >>= fun a => onDriver (f a) := by
  funext s
  show (((x s.driver).bind fun p => f p.1 p.2).map _) = (((x s.driver).map _).bind _)
  cases x s.driver <;> rfl

theorem onDriver_lift (r : Except Fault α) :
    onDriver (Exec.lift r : K H α) = Exec.lift r := by
  funext s
  cases r <;> rfl

theorem onDriver_ite {c : Prop} [Decidable c] (x y : K H α) :
    onDriver (if c then x else y) = if c then onDriver x else onDriver y := by
  split <;> rfl

/-- Without its marks, the read loop is the code's. -/
theorem readLoopAccesses_erase (vol : Volume) (item : FatItem) (size : U32) (n : Nat)
    (offset : Int) : (readLoopAccesses (H := H) vol item size n offset).erase =
      onDriver (fat16ReadLoop vol item size n offset) := by
  induction n generalizing offset with
  | zero => rfl
  | succ n ih =>
    simp only [readLoopAccesses, fat16ReadLoop, Traced.erase_bind, Traced.erase_quiet,
      Traced.erase_mark, Traced.erase_ite, Traced.erase_pure, pure_bind, ih, onDriver_bind,
      onDriver_lift, onDriver_ite]
    rfl

/-- Without its marks, `fat16_read` is the code's. -/
theorem readAccesses_erase (vol : Volume) (p size nmemb : U32) :
    (readAccesses (H := H) vol p size nmemb).erase = fat16Read vol p size nmemb := by
  simp only [readAccesses, fat16Read, Traced.erase_bind, Traced.erase_quiet, Traced.erase_mark,
    Traced.erase_ite, Traced.erase_pure, pure_bind, readLoopAccesses_erase]

/-- Without its marks, `fat16_seek` is the code's. -/
theorem seekAccesses_erase (p offset : U32) (seekMode : FileSeekMode) :
    (seekAccesses (H := H) p offset seekMode).erase = fat16Seek p offset seekMode := by
  simp only [seekAccesses, fat16Seek, Traced.erase_bind, Traced.erase_quiet]
  congr 1
  funext desc
  congr 1
  funext contents
  cases contents with
  | directory directory => rfl
  | file item =>
    simp only [Traced.erase_bind, Traced.erase_mark, Traced.erase_quiet, Traced.erase_pure,
      pure_bind]

/-- Without its marks, `fat16_stat` is the code's. -/
theorem statAccesses_erase (p : U32) : (statAccesses (H := H) p).erase = fat16Stat p := by
  simp only [statAccesses, fat16Stat, Traced.erase_bind, Traced.erase_quiet]
  congr 1
  funext desc
  congr 1
  funext contents
  cases contents with
  | directory directory => rfl
  | file item =>
    simp only [Traced.erase_bind, Traced.erase_mark, Traced.erase_quiet, Traced.erase_pure,
      pure_bind]

theorem itemFreeAccesses_erase (alloc : Allocator H) (item : Ref FatItem) :
    (itemFreeAccesses alloc item).erase = onDriver (fat16FatItemFree alloc item) := by
  simp only [itemFreeAccesses, fat16FatItemFree, Traced.erase_bind, Traced.erase_quiet,
    onDriver_bind, onDriver_lift]
  congr 1
  funext contents
  cases contents with
  | directory directory =>
    simp only [Traced.erase_bind, Traced.erase_mark, Traced.erase_quiet, pure_bind, onDriver_bind]
  | file file =>
    simp only [Traced.erase_bind, Traced.erase_mark, Traced.erase_quiet, pure_bind, onDriver_bind]

/-- Without its marks, `fat16_close` is the code's. -/
theorem closeAccesses_erase (alloc : Allocator H) (p : U32) :
    (closeAccesses alloc p).erase = fat16Close alloc p := by
  simp only [closeAccesses, fat16Close, Traced.erase_bind, Traced.erase_quiet, Traced.erase_pure,
    itemFreeAccesses_erase]

/-- Without its accesses it is the call. -/
theorem call_erase (alloc : Allocator H) (vol : Volume) (p : U32) (call : DescriptorCall) :
    (callAccesses alloc vol p call).erase = call.run alloc vol p := by
  cases call with
  | read size nmemb =>
    simp only [callAccesses, DescriptorCall.run, Traced.erase_bind, Traced.erase_pure,
      readAccesses_erase]
  | seek offset seekMode => exact seekAccesses_erase p offset seekMode
  | stat =>
    simp only [callAccesses, DescriptorCall.run, Traced.erase_bind, Traced.erase_pure,
      statAccesses_erase]
  | close => exact closeAccesses_erase alloc p

/-! ### One call -/

/-- What a call that gets as far as the item of its descriptor found there. -/
theorem loadItem_ok {β : Type} {p : U32} {s s' : FatState H} {b : β}
    {f : FatFileDescriptor → FatItem → Exec Fault (FatState H) β}
    (h : (loadDescriptor p >>= fun desc => Exec.lift desc.item.load >>= f desc) s = .ok (b, s')) :
    ∃ q desc contents, s.descriptors p = .live q desc ∧ f desc contents s = .ok (b, s') := by
  obtain ⟨desc, s₁, hload, hrest⟩ := Exec.bind_eq_ok.mp h
  obtain ⟨q, hdesc, hs₁⟩ := loadDescriptor_eq_ok.mp hload
  obtain ⟨contents, s₂, hlift, hend⟩ := Exec.bind_eq_ok.mp hrest
  obtain ⟨-, hs₂⟩ := Exec.lift_eq_ok.mp hlift
  subst hs₁ hs₂
  exact ⟨q, desc, contents, hdesc, hend⟩

/-- The access is one of the disk, or the member is the one the tag selects. -/
def Access.Fits : Access → Prop
  | .member tag m => m = tag
  | .disk => True

/-- The descriptor at `p` is one of a directory. -/
def AtDirectory (s : FatState H) (p : U32) : Prop :=
  ∃ q a directory pos, s.descriptors p = .live q { item := .live a (.directory directory), pos }

/-- The call respects the tag of the descriptor at `p`: it accesses only members that the tag
selects; and on a directory, unless it closes it, it fails, without a read of the disk or a move of
the position. -/
structure RespectsTag (alloc : Allocator H) (vol : Volume) (p : U32) (s : FatState H)
    (call : DescriptorCall) : Prop where
  members : ∀ a ∈ (callAccesses alloc vol p call).trace s, a.Fits
  refused : AtDirectory s p → call ≠ .close → ∃ res s', call.run alloc vol p s = .ok (res, s') ∧
    res < 0 ∧ s'.descriptors p = s.descriptors p ∧
    .disk ∉ (callAccesses alloc vol p call).trace s

variable {alloc : Allocator H} {vol : Volume} {p : U32}

/-- The read loop reads a file's member. -/
theorem readLoopAccesses_fits (vol : Volume) (item : FatItem) (size : U32) (n : Nat)
    (offset : Int) :
    Traced.Marks Access.Fits (readLoopAccesses (H := H) vol item size n offset) := by
  induction n generalizing offset with
  | zero => exact .pure _
  | succ n ih =>
    refine .bind (.quiet _) fun contents => .bind (.mark trivial) fun _ => ?_
    exact .bind (.quiet _) fun r => .ite (.pure _) (.bind (ih _) fun _ => .pure _)

/-- A call that is not a read looks at the type before it accesses a member. -/
theorem call_fits (call : DescriptorCall) (h : ∀ size nmemb, call ≠ .read size nmemb) :
    Traced.Marks Access.Fits (callAccesses alloc vol p call) := by
  cases call with
  | read size nmemb => exact absurd rfl (h size nmemb)
  | seek offset seekMode =>
    refine .bind (.quiet _) fun desc => .bind (.quiet _) fun contents => ?_
    cases contents with
    | directory directory => exact .pure _
    | file item =>
      refine .bind (.mark rfl) fun _ => .bind (.quiet _) fun ritem => ?_
      exact .bind (.quiet _) fun _ => .pure _
  | stat =>
    refine .bind (.bind (.quiet _) fun desc => .bind (.quiet _) fun contents => ?_) fun _ => .pure _
    cases contents with
    | directory directory => exact .pure _
    | file item => exact .bind (.mark rfl) fun _ => .bind (.quiet _) fun ritem => .pure _
  | close =>
    refine .bind (.quiet _) fun desc => .bind (.bind (.quiet _) fun contents => ?_) fun _ =>
      .bind (.quiet _) fun _ => .bind (.quiet _) fun _ => .pure _
    cases contents with
    | directory directory => exact .bind (.mark rfl) fun _ => .bind (.quiet _) fun _ => .quiet _
    | file file => exact .bind (.mark rfl) fun _ => .bind (.quiet _) fun _ => .quiet _

variable {s : FatState H}

theorem callAccesses_read_trace (size nmemb : U32) :
    (callAccesses alloc vol p (.read size nmemb)).trace s =
      (readAccesses vol p size nmemb).trace s :=
  Traced.trace_bind_pure (readAccesses vol p size nmemb) Prod.fst s

/-- What a call finds behind the descriptor of a directory. -/
theorem AtDirectory.loads (h : AtDirectory s p) :
    ∃ desc directory, loadDescriptor p s = .ok (desc, s) ∧
      Exec.lift desc.item.load s = .ok (.directory directory, s) := by
  obtain ⟨q, a, directory, pos, hdesc⟩ := h
  exact ⟨_, directory, loadDescriptor_eq_ok.mpr ⟨q, hdesc, rfl⟩, rfl⟩

/-- On a directory, a read uses the member of a file. -/
theorem read_accesses_item (size nmemb : U32) (h : AtDirectory s p) :
    .member .directory .file ∈ (callAccesses alloc vol p (.read size nmemb)).trace s := by
  obtain ⟨desc, directory, hload, hitem⟩ := h.loads
  rw [callAccesses_read_trace, readAccesses, Traced.trace_quiet_bind_ok hload,
    Traced.trace_quiet_bind_ok hitem, Traced.trace_mark_bind]
  exact List.mem_cons_self

/-- Elsewhere, every member it uses fits the tag. -/
theorem read_fits (size nmemb : U32) (h : ¬ AtDirectory s p) :
    ∀ a ∈ (callAccesses alloc vol p (.read size nmemb)).trace s, a.Fits := by
  intro a ha
  rw [callAccesses_read_trace, readAccesses, Traced.mem_trace_quiet_bind] at ha
  obtain ⟨desc, s₁, hload, ha⟩ := ha
  obtain ⟨q, hdesc, rfl⟩ := loadDescriptor_eq_ok.mp hload
  rw [Traced.mem_trace_quiet_bind] at ha
  obtain ⟨contents, s₂, hlift, ha⟩ := ha
  obtain ⟨hitem, rfl⟩ := Exec.lift_eq_ok.mp hlift
  rw [Traced.trace_mark_bind, List.mem_cons] at ha
  rcases ha with rfl | ha
  · cases contents with
    | file file => rfl
    | directory directory =>
      obtain ⟨addr, hitem⟩ := Ref.load_eq_ok.mp hitem
      exact absurd ⟨q, addr, directory, desc.pos, by rw [hdesc, ← hitem]⟩ h
  · refine Traced.Marks.bind (readLoopAccesses_fits vol contents size _ _) (fun r => ?_) _ a ha
    exact .ite (.pure _) (.bind (.quiet _) fun _ => .pure _)

/-- A seek or a look at the state of a directory fails. -/
theorem refused_directory (alloc : Allocator H) (vol : Volume) {call : DescriptorCall}
    (h : AtDirectory s p)
    (hread : ∀ size nmemb, call ≠ .read size nmemb) (hclose : call ≠ .close) :
    call.run alloc vol p s = .ok (-einvarg, s) ∧ (callAccesses alloc vol p call).trace s = [] := by
  obtain ⟨desc, directory, hload, hitem⟩ := h.loads
  cases call with
  | read size nmemb => exact absurd rfl (hread size nmemb)
  | close => exact absurd rfl hclose
  | seek offset seekMode =>
    refine ⟨?_, ?_⟩
    · show fat16Seek p offset seekMode s = _
      rw [fat16Seek, Exec.bind_ok hload, Exec.bind_ok hitem]
      rfl
    · show (seekAccesses p offset seekMode).trace s = _
      rw [seekAccesses, Traced.trace_quiet_bind_ok hload, Traced.trace_quiet_bind_ok hitem]
      rfl
  | stat =>
    refine ⟨?_, ?_⟩
    · have hstat : fat16Stat p s = .ok ((-einvarg, none), s) := by
        rw [fat16Stat, Exec.bind_ok hload, Exec.bind_ok hitem]
        rfl
      rw [DescriptorCall.run, Exec.bind_ok hstat]
      rfl
    · refine (Traced.trace_bind_pure (statAccesses p) Prod.fst s).trans ?_
      rw [statAccesses, Traced.trace_quiet_bind_ok hload, Traced.trace_quiet_bind_ok hitem]
      rfl

/-- **A call respects the tag unless it is a read of a directory.** -/
theorem respectsTag_iff (call : DescriptorCall) :
    RespectsTag alloc vol p s call ↔ ∀ size nmemb, call = .read size nmemb → ¬ AtDirectory s p := by
  constructor
  · rintro h size nmemb rfl hdir
    cases h.members _ (read_accesses_item size nmemb hdir)
  · intro h
    by_cases hread : ∃ size nmemb, call = .read size nmemb
    · obtain ⟨size, nmemb, rfl⟩ := hread
      exact ⟨read_fits size nmemb (h size nmemb rfl), fun hdir => absurd hdir (h size nmemb rfl)⟩
    · have hother : ∀ size nmemb, call ≠ .read size nmemb := fun size nmemb he =>
        hread ⟨size, nmemb, he⟩
      refine ⟨call_fits call hother s, fun hdir hclose => ?_⟩
      obtain ⟨hrun, htrace⟩ := refused_directory alloc vol hdir hother hclose
      exact ⟨-einvarg, s, hrun, by decide, rfl, by rw [htrace]; nofun⟩

/-! ### A sequence of calls -/

/-- A call that returns. -/
def CallStep (alloc : Allocator H) (vol : Volume) (p : U32) (s : FatState H) (call : DescriptorCall)
    (s' : FatState H) : Prop :=
  ∃ res, call.run alloc vol p s = .ok (res, s')

/-- Every call of the sequence that is reached respects the tag. -/
def RespectsThroughout (alloc : Allocator H) (vol : Volume) (p : U32) (s : FatState H)
    (calls : List DescriptorCall) : Prop :=
  ∀ pre call post s', calls = pre ++ call :: post → Run (CallStep alloc vol p) s pre s' →
    RespectsTag alloc vol p s' call

/-- The sequence reads the descriptor only after it closed it. -/
def NoReadOpen (calls : List DescriptorCall) : Prop :=
  ∀ pre size nmemb post, calls = pre ++ .read size nmemb :: post → .close ∈ pre

/-- A call that does not close a descriptor leaves its item as it is. -/
theorem run_item {call : DescriptorCall} {s' : FatState H} (h : CallStep alloc vol p s call s')
    (hclose : call ≠ .close) :
    ∃ q q' item pos pos', s.descriptors p = .live q { item, pos } ∧
      s'.descriptors p = .live q' { item, pos := pos' } := by
  obtain ⟨res, hrun⟩ := h
  cases call with
  | close => exact absurd rfl hclose
  | read size nmemb =>
    obtain ⟨r, s₀, hread, hres⟩ := Exec.bind_eq_ok.mp hrun
    cases hres
    obtain ⟨q, desc, contents, hdesc, hrounds⟩ := loadItem_ok hread
    obtain ⟨⟨res, offset, out⟩, s₁, hloop, hend⟩ := Exec.bind_eq_ok.mp hrounds
    dsimp only at hend
    obtain ⟨driver, -, hs₁⟩ := onDriver_eq_ok.mp hloop
    subst hs₁
    split at hend
    · cases hend
      exact ⟨q, q, desc.item, desc.pos, desc.pos, hdesc, hdesc⟩
    · cases hend
      exact ⟨q, p, desc.item, desc.pos, _, hdesc, Function.update_self ..⟩
  | seek offset seekMode =>
    obtain ⟨q, desc, contents, hdesc, hend⟩ := loadItem_ok hrun
    cases contents with
    | directory directory => cases hend; exact ⟨q, q, desc.item, desc.pos, desc.pos, hdesc, hdesc⟩
    | file item =>
      obtain ⟨ritem, s₁, hload, hset⟩ := Exec.bind_eq_ok.mp hend
      obtain ⟨-, hs₁⟩ := Exec.lift_eq_ok.mp hload
      subst hs₁
      cases hset
      exact ⟨q, p, desc.item, desc.pos, _, hdesc, Function.update_self ..⟩
  | stat =>
    obtain ⟨r, s₀, hstat, hres⟩ := Exec.bind_eq_ok.mp hrun
    cases hres
    obtain ⟨q, desc, contents, hdesc, hend⟩ := loadItem_ok hstat
    cases contents with
    | directory directory => cases hend; exact ⟨q, q, desc.item, desc.pos, desc.pos, hdesc, hdesc⟩
    | file item =>
      obtain ⟨ritem, s₁, hload, hset⟩ := Exec.bind_eq_ok.mp hend
      obtain ⟨-, hs₁⟩ := Exec.lift_eq_ok.mp hload
      subst hs₁
      cases hset
      exact ⟨q, q, desc.item, desc.pos, desc.pos, hdesc, hdesc⟩

/-- A closed descriptor dangles. -/
theorem close_dangling {s' : FatState H} (h : CallStep alloc vol p s .close s') :
    s'.descriptors p = .dangling p := by
  obtain ⟨res, h⟩ := h
  obtain ⟨desc, s₁, -, h⟩ := Exec.bind_eq_ok.mp h
  obtain ⟨⟨⟩, s₂, -, h⟩ := Exec.bind_eq_ok.mp h
  obtain ⟨⟨⟩, s₃, -, h⟩ := Exec.bind_eq_ok.mp h
  cases h
  exact Function.update_self ..

/-- A descriptor of a directory remains one until it is closed, and no other becomes one. -/
theorem atDirectory_step {call : DescriptorCall} {s' : FatState H}
    (h : CallStep alloc vol p s call s') :
    AtDirectory s' p ↔ AtDirectory s p ∧ call ≠ .close := by
  by_cases hclose : call = .close
  · subst hclose
    refine iff_of_false ?_ fun h => h.2 rfl
    rintro ⟨q, a, directory, pos, hdesc⟩
    rw [close_dangling h] at hdesc
    cases hdesc
  · obtain ⟨q, q', item, pos, pos', hs, hs'⟩ := run_item h hclose
    simp [AtDirectory, hs, hs', hclose]

/-- The tag stays as it is until the descriptor is closed. -/
theorem atDirectory_run {pre : List DescriptorCall} {s' : FatState H}
    (h : Run (CallStep alloc vol p) s pre s') :
    AtDirectory s' p ↔ AtDirectory s p ∧ .close ∉ pre := by
  induction h with
  | nil => simp
  | snoc _ h ih =>
    rw [atDirectory_step h, ih, List.mem_append, List.mem_singleton, not_or, and_assoc, ne_comm]

/-- On a directory, the first read of the sequence must come behind a close. -/
theorem noReadOpen_of_respects {calls : List DescriptorCall} (hdir : AtDirectory s p)
    (h : RespectsThroughout alloc vol p s calls) : NoReadOpen calls := by
  induction calls with
  | nil =>
    intro pre size nmemb post he
    simp at he
  | cons call calls ih =>
    have hcall := (respectsTag_iff call).mp (h [] call calls s rfl (.nil s))
    intro pre size nmemb post he
    cases pre with
    | nil =>
      obtain ⟨rfl, -⟩ := List.cons.inj he
      exact absurd hdir (hcall size nmemb rfl)
    | cons c pre =>
      obtain ⟨rfl, hrest⟩ := List.cons.inj he
      by_cases hclose : call = .close
      · exact hclose ▸ List.mem_cons_self
      · -- the call is refused, and the rest is run from the same state
        have hstep : CallStep alloc vol p s call s := ⟨_,
          (refused_directory alloc vol hdir (fun size nmemb he => hcall size nmemb he hdir)
            hclose).1⟩
        have hthrough : RespectsThroughout alloc vol p s calls :=
            fun pre' call' post' s' he' hrun =>
          h (call :: pre') call' post' s' (by rw [he']; rfl) (.cons hstep hrun)
        exact List.mem_cons_of_mem _ (ih hthrough pre size nmemb post hrest)

/-- **The tag is respected throughout exactly when the descriptor is not one of a directory, or no
read of the sequence finds it open.** -/
theorem tag_respected_iff (alloc : Allocator H) (vol : Volume) (p : U32) (s : FatState H)
    (calls : List DescriptorCall) :
    RespectsThroughout alloc vol p s calls ↔ ¬ AtDirectory s p ∨ NoReadOpen calls := by
  constructor
  · intro h
    by_cases hdir : AtDirectory s p
    · exact .inr (noReadOpen_of_respects hdir h)
    · exact .inl hdir
  · intro h pre call post s' he hrun
    refine (respectsTag_iff call).mpr ?_
    rintro size nmemb rfl hdir
    obtain ⟨hdir, hclose⟩ := (atDirectory_run hrun).mp hdir
    exact h.elim (fun hn => hn hdir) fun hopen => hclose (hopen pre size nmemb post he)

end

/-! ### A directory opened and read -/

/-- The state before the directory `A` of `loneDirectoryVolume` is opened. -/
def beforeOpen : FatState Nat := ⟨⟨0, fun _ => 0⟩, fun _ => .null⟩

theorem loneDirectory_open :
    ∃ s a b directory, fat16Open .ample loneDirectoryVolume [⟨0, 0, [0x41]⟩] .read beforeOpen =
        .ok (0x01000000, s) ∧
      s.descriptors 0x01000000 =
        .live 0x01000000 { item := .live a (.directory (.live b directory)), pos := 0 } := by
  obtain ⟨a, b, directory, driver, hfind, -⟩ := loneDirectory_find ⟨1, fun _ => 0⟩
  have hentry : fat16GetDirectoryEntry .ample loneDirectoryVolume [0x41] [] ⟨1, fun _ => 0⟩ =
      .ok (.live a (.directory (.live b directory)), driver) := by
    rw [fat16GetDirectoryEntry, Exec.bind_ok hfind, if_neg (by simp)]
    rfl
  have halloc : onDriver (kzalloc .ample 8) beforeOpen =
      .ok (0x01000000, ⟨⟨1, fun _ => 0⟩, fun _ => .null⟩) := rfl
  have hitem : onDriver (fat16GetDirectoryEntry .ample loneDirectoryVolume [0x41] [])
      ⟨⟨1, fun _ => 0⟩, fun _ => .null⟩ =
        .ok (.live a (.directory (.live b directory)), ⟨driver, fun _ => .null⟩) :=
    onDriver_eq_ok.mpr ⟨driver, hentry, rfl⟩
  refine ⟨⟨driver, Function.update (fun _ => .null) 0x01000000 (.live 0x01000000
    { item := .live a (.directory (.live b directory)), pos := 0 })⟩, a, b, directory, ?_, rfl⟩
  rw [fat16Open, if_neg (by decide), Exec.bind_ok halloc, if_neg (by decide)]
  dsimp only
  rw [List.map_nil, Exec.bind_ok hitem, if_neg (by simp)]
  rfl

/-- **A directory can be opened and read**: a read of no elements succeeds, another one reads behind
the `struct fat_directory`, and both take the directory for a directory entry. -/
theorem directory_read :
    ∃ s, fat16Open .ample loneDirectoryVolume [⟨0, 0, [0x41]⟩] .read beforeOpen =
        .ok (0x01000000, s) ∧ AtDirectory s 0x01000000 ∧
      (∃ s', (DescriptorCall.read 512 0).run .ample loneDirectoryVolume 0x01000000 s =
        .ok (0, s')) ∧
      (DescriptorCall.read 512 1).run .ample loneDirectoryVolume 0x01000000 s =
        .error .outOfBounds ∧
      .member .directory .file ∈
        (callAccesses .ample loneDirectoryVolume 0x01000000 (.read 512 1)).trace s ∧
      ¬ RespectsThroughout .ample loneDirectoryVolume 0x01000000 s [.read 512 1] := by
  obtain ⟨s, a, b, directory, hopen, hdesc⟩ := loneDirectory_open
  have hdir : AtDirectory s 0x01000000 := ⟨_, a, .live b directory, 0, hdesc⟩
  have hload : loadDescriptor 0x01000000 s =
      .ok ({ item := .live a (.directory (.live b directory)), pos := 0 }, s) :=
    loadDescriptor_eq_ok.mpr ⟨_, hdesc, rfl⟩
  have hitem : (Exec.lift (Ref.live a (FatItem.directory (.live b directory))).load :
      Exec Fault (FatState Nat) FatItem) s = .ok (.directory (.live b directory), s) := rfl
  have hnone : fat16Read loneDirectoryVolume 0x01000000 512 0 s = .ok ((0, []), { s with
      descriptors := Function.update s.descriptors 0x01000000 (.live 0x01000000
        { item := .live a (.directory (.live b directory)), pos := 0 }) }) := by
    rw [fat16Read, Exec.bind_ok hload, Exec.bind_ok hitem]
    rfl
  have hone : fat16Read loneDirectoryVolume 0x01000000 512 1 s = .error .outOfBounds := by
    rw [fat16Read, Exec.bind_ok hload, Exec.bind_ok hitem]
    rfl
  refine ⟨s, hopen, hdir, ⟨_, Exec.bind_ok hnone⟩, Exec.bind_error hone,
    read_accesses_item 512 1 hdir, fun h => ?_⟩
  cases (h [] _ [] s rfl (.nil s)).members _ (read_accesses_item 512 1 hdir)

end KernelNES.Fs
