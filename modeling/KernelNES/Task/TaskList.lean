import KernelNES.Lib.DList
import KernelNES.Task.TaskCalls
import Mathlib.Data.List.Pairwise

/-!
# Task — TaskList

The tasks from `task_head` to `task_tail`, under `task_new`, `task_free` and `task_switch` in any
order.  `task_free` leaves the `prev` of the task behind as it was, so that only the last task can
be freed without a pointer to freed memory left on the list: the histories in which the list stays
whole are those in which every task freed is the last one (`taskRuns_iff`).

No assumption on the addresses is needed: every task and every page of an address space is a block
of the kernel heap, and what `kzalloc` returns is none that is in use (`Spaces`).
-/

namespace KernelNES.Task
open KernelNES.Lib KernelNES.Memory

variable {H : Type}

/-! ### Calls -/

/-- The state, and the tasks made and not freed yet. -/
structure TaskHistory (H : Type) where
  state : TaskState H
  live : List U32

/-- The calls of `task.c` on the list. -/
inductive TaskOp where
  | new (process : U32)
  | free (task : U32)
  | switch (task : U32)

/-- One call: a `task_new` that succeeds, or `task_free` or `task_switch` of a live task. -/
inductive TaskStep (alloc : Allocator H) : TaskHistory H → TaskOp → TaskHistory H → Prop where
  | new {st : TaskHistory H} {process task : U32} {s' : TaskState H}
      (h : taskNew alloc process st.state = .ok (task, s')) (h₁ : task ≠ 0) (h₂ : 0 ≤ task.toInt) :
      TaskStep alloc st (.new process) ⟨s', task :: st.live⟩
  | free {st : TaskHistory H} {task : U32} {res : Int} {s' : TaskState H} (ht : task ∈ st.live)
      (h : taskFree alloc task st.state = .ok (res, s')) :
      TaskStep alloc st (.free task) ⟨s', st.live.erase task⟩
  | switch {st : TaskHistory H} {task : U32} {res : Int} {s' : TaskState H} (ht : task ∈ st.live)
      (h : taskSwitch task st.state = .ok (res, s')) :
      TaskStep alloc st (.switch task) ⟨s', st.live⟩

/-- The tasks from `task_head` to `task_tail`. -/
def TaskState.Listed (s : TaskState H) (l : List U32) : Prop :=
  DList 0 s.next s.prev s.taskHead s.taskTail l

/-- `task_get_next`, `n` times over, each time from the task the time before gave. -/
def taskTurns (s : TaskState H) (task : U32) : Nat → Except Fault U32
  | 0 => .ok task
  | n + 1 => do
    let current ← taskTurns s task n
    (taskGetNext { s with currentTask := current }).map Prod.fst

/-- The list is whole: it holds the live tasks, each once and linked both ways; none of them refers
to a task that is not live; and from each, `task_get_next` goes round all of them. -/
structure Whole (st : TaskHistory H) : Prop where
  listed : ∃ l, st.state.Listed l ∧ l.Perm st.live
  next_live : ∀ t ∈ st.live, st.state.next t = 0 ∨ st.state.next t ∈ st.live
  prev_live : ∀ t ∈ st.live, st.state.prev t = 0 ∨ st.state.prev t ∈ st.live
  round : ∀ t ∈ st.live, taskTurns st.state t st.live.length = .ok t ∧
    ∃ visited : List U32, visited.Perm st.live ∧
      ∀ n (hn : n < visited.length), taskTurns st.state t n = .ok visited[n]

/-- A call that leaves the list whole. -/
def WholeStep (alloc : Allocator H) (st : TaskHistory H) (op : TaskOp) (st' : TaskHistory H) :
    Prop :=
  TaskStep alloc st op st' ∧ Whole st'

/-- A task freed is the last one. -/
def FreesLast (st : TaskHistory H) : TaskOp → Prop
  | .free task => st.state.next task = 0
  | _ => True

/-! ### The list of a state -/

variable {s s' : TaskState H} {l : List U32} {pages : U32 → List U32}

/-- Turn by turn, the tasks come round. -/
theorem TaskState.Listed.taskTurns (h : s.Listed l) {t : U32} (ht : t ∈ l) (n : Nat) :
    taskTurns s t n = .ok ((DList.after 0 s.next s.taskHead)^[n] t) := by
  obtain ⟨i, hi, rfl⟩ := List.getElem_of_mem ht
  induction n with
  | zero => rfl
  | succ n ih =>
    have hmem := List.mem_of_getElem? (h.after_iterate hi n)
    have hnext := taskGetNext_ok
      (s := { s with currentTask := (DList.after 0 s.next s.taskHead)^[n] l[i] })
      fun h0 => h.not_null (h0 ▸ hmem)
    rw [Task.taskTurns, ih, Function.iterate_succ_apply']
    exact congrArg (Except.map Prod.fst) hnext

/-- A listed state is whole. -/
theorem TaskState.Listed.whole {live : List U32} (h : s.Listed l) (hlive : l.Perm live) :
    Whole ⟨s, live⟩ := by
  refine ⟨⟨l, h, hlive⟩, fun t ht => ?_, fun t ht => ?_, fun t ht => ?_⟩
  · rw [← hlive.mem_iff]
    exact h.next_mem (hlive.mem_iff.mpr ht)
  · rw [← hlive.mem_iff]
    exact h.prev_mem (hlive.mem_iff.mpr ht)
  · have ht := hlive.mem_iff.mpr ht
    obtain ⟨hback, visited, hvisited, hat⟩ := h.round ht
    refine ⟨?_, visited, hvisited.trans hlive, fun n hn => ?_⟩
    · rw [h.taskTurns ht, ← hlive.length_eq, hback]
    · rw [h.taskTurns ht, hat n hn]

/-! ### Tasks and their pages -/

/-- Each task of `l` has pages of its own: that of the task, and those of its address space. -/
structure Spaces (s : TaskState H) (l : List U32) (pages : U32 → List U32) : Prop where
  space : ∀ t ∈ l, t % 4096 = 0 ∧
    ∃ directory table, PageTables s.paging.words (s.pageDirectory t) directory table ∧
      (pages t).Perm (t :: spacePages (s.pageDirectory t) directory table)
  nodup : (l.flatMap pages).Nodup

/-- Only links of tasks of `l` are different. -/
def SameBut (l : List U32) (words words' : U32 → U32) : Prop :=
  ∀ a, words' a ≠ words a → ∃ t ∈ l, a = slot t nextField ∨ a = slot t prevField

theorem Spaces.mem_pages (h : Spaces s l pages) {t : U32} (ht : t ∈ l) : t ∈ pages t := by
  obtain ⟨-, _, _, -, hperm⟩ := h.space t ht
  exact hperm.mem_iff.mpr List.mem_cons_self

/-- No task lies in the pages of an address space. -/
theorem Spaces.not_mem_space (h : Spaces s l pages) {t t' : U32} (ht : t ∈ l) (ht' : t' ∈ l)
    {ps : List U32} (hperm : (pages t).Perm (t :: ps)) : t' ∉ ps := by
  obtain ⟨hnodup, hpairwise⟩ := List.nodup_flatMap.mp h.nodup
  intro hmem
  have hin : t' ∈ pages t := hperm.mem_iff.mpr (List.mem_cons_of_mem t hmem)
  by_cases hne : t' = t
  · have hfirst := (List.nodup_cons.mp (hperm.nodup_iff.mp (hnodup t ht))).1
    exact hfirst (hne ▸ hmem)
  · have : Std.Symm (Function.onFun List.Disjoint pages) := ⟨fun _ _ hd => hd.symm⟩
    exact hpairwise.forall ht' ht hne (h.mem_pages ht') hin

/-- Spaces outlive changes to the tasks. -/
theorem Spaces.congr (h : Spaces s l pages) (hsame : SameBut l s.paging.words s'.paging.words) :
    Spaces s' l pages := by
  refine ⟨fun t ht => ?_, h.nodup⟩
  obtain ⟨ha, directory, table, htables, hperm⟩ := h.space t ht
  have haligned : ∀ t' ∈ l, t' % 4096 = 0 := fun t' ht' => (h.space t' ht').1
  have hdirectory : s'.pageDirectory t = s.pageDirectory t := by
    by_contra hne
    obtain ⟨t', ht', he | he⟩ := hsame _ hne
    · exact absurd (slot_inj ha (haligned t' ht') (by decide) (by decide) he).2 (by decide)
    · exact absurd (slot_inj ha (haligned t' ht') (by decide) (by decide) he).2 (by decide)
  rw [hdirectory]
  refine ⟨ha, directory, table, pageTables_congr htables fun a hpage => ?_, hperm⟩
  by_contra hne
  obtain ⟨t', ht', rfl | rfl⟩ := hsame _ hne
  · rw [pageOf_slot (haligned t' ht') (by decide)] at hpage
    exact h.not_mem_space ht ht' hperm hpage
  · rw [pageOf_slot (haligned t' ht') (by decide)] at hpage
    exact h.not_mem_space ht ht' hperm hpage

/-- The invariant: the list, and the pages of its tasks, which are all that is out. -/
structure TaskInv (Owns : H → Set U32 → Prop) (s : TaskState H) (l : List U32) : Prop where
  list : s.Listed l
  spaces : ∃ pages, Spaces s l pages ∧ Owns s.paging.heap {p | p ∈ l.flatMap pages}

variable {alloc : Allocator H} {Owns : H → Set U32 → Prop} {task : U32}

/-! ### `task_new` -/

/-- One more task, with pages that were not out. -/
theorem Spaces.made (h : Spaces s l pages) {ps : List U32}
    (hmade : Made Owns {p | p ∈ l.flatMap pages} s task ps s') :
    task ∉ l ∧ Spaces s' (l ++ [task]) (Function.update pages task ps) ∧
      (l ++ [task]).flatMap (Function.update pages task ps) = l.flatMap pages ++ ps := by
  obtain ⟨directory, table, htables, hperm⟩ := hmade.space
  have hmem : task ∈ ps := hperm.mem_iff.mpr List.mem_cons_self
  have hnew : task ∉ l := fun ht =>
    (hmade.took.fresh task hmem).2.2 (List.mem_flatMap.mpr ⟨task, ht, h.mem_pages ht⟩)
  have hold : ∀ t ∈ l, Function.update pages task ps t = pages t := fun t ht =>
    Function.update_of_ne (show t ≠ task from fun he => hnew (he ▸ ht)) _ _
  have hflat : (l ++ [task]).flatMap (Function.update pages task ps) = l.flatMap pages ++ ps := by
    rw [List.flatMap_append, List.flatMap_congr hold, List.flatMap_singleton, Function.update_self]
  refine ⟨hnew, ⟨fun t ht => ?_, ?_⟩, hflat⟩
  · rcases List.mem_append.mp ht with ht | ht
    · obtain ⟨ha, directory, table, htables, hperm⟩ := h.space t ht
      have hout : ∀ p ∈ pages t, p ∈ {p | p ∈ l.flatMap pages} := fun p hp =>
        List.mem_flatMap.mpr ⟨t, ht, hp⟩
      have hdirectory : s'.pageDirectory t = s.pageDirectory t :=
        hmade.took.words.slot (hout t (h.mem_pages ht)) ha (by decide)
      rw [hold t ht, hdirectory]
      refine ⟨ha, directory, table, pageTables_congr htables ?_, hperm⟩
      exact hmade.took.words.mono fun p hp =>
        hout p (hperm.mem_iff.mpr (List.mem_cons_of_mem t hp))
    · rw [List.mem_singleton.mp ht, Function.update_self]
      exact ⟨(hmade.took.fresh task hmem).2.1, directory, table, htables, hperm⟩
  · rw [hflat, List.nodup_append]
    refine ⟨h.nodup, hmade.took.nodup, ?_⟩
    rintro p hp q hq rfl
    exact (hmade.took.fresh p hq).2.2 hp

theorem SameBut.refl (l : List U32) (words : U32 → U32) : SameBut l words words :=
  fun _ hne => absurd rfl hne

/-- A link is set. -/
theorem SameBut.withField {l : List U32} {words : U32 → U32} {t field : U32}
    (h : SameBut l words s.paging.words) (ht : t ∈ l) (hf : field = nextField ∨ field = prevField)
    (val : U32) : SameBut l words (s.withField t field val).paging.words := by
  intro a hne
  by_cases ha : a = slot t field
  · rcases hf with rfl | rfl
    · exact ⟨t, ht, .inl ha⟩
    · exact ⟨t, ht, .inr ha⟩
  · exact h a fun he => hne ((Function.update_of_ne ha _ _).trans he)

/-- The list with a task put behind the last. -/
theorem TaskState.Listed.append (h : s.Listed l) (hnew : task ∉ l) (h0 : task ≠ 0)
    (ha : ∀ t ∈ l ++ [task], t % 4096 = 0) (hnext : s.next task = 0) (hprev : s.prev task = 0)
    (hrun : taskListAppend task s = .ok ((), s')) :
    s'.Listed (l ++ [task]) ∧ SameBut (l ++ [task]) s.paging.words s'.paging.words ∧
      s'.paging.heap = s.paging.heap := by
  have htail : l ≠ [] → s.taskTail ∈ l := h.tail_mem
  have htail0 : s.taskHead ≠ 0 → s.taskTail ≠ 0 := fun hhead h0 =>
    h.not_null (h0 ▸ htail fun hl => hhead (h.head_eq_null_iff.mpr hl))
  cases hrun.symm.trans (taskListAppend_ok h0 htail0)
  rw [appended]
  by_cases hl : l = []
  · have hhead : s.taskHead = 0 := h.head_eq_null_iff.mpr hl
    rw [if_pos hhead]
    refine ⟨h.snoc hnew h0 (fun _ _ _ => rfl) (fun _ _ => rfl) (absurd hl) ?_ hnext
      (if_pos hl).symm,
      .refl _ _, rfl⟩
    rw [h.tail_eq, hl]
    exact hprev
  · have hhead : s.taskHead ≠ 0 := fun h0 => hl (h.head_eq_null_iff.mp h0)
    have htail := htail hl
    have hne : s.taskTail ≠ task := fun he => hnew (he ▸ htail)
    have hat : ∀ t ∈ l, t % 4096 = 0 := fun t ht => ha t (List.mem_append_left _ ht)
    have hatask : task % 4096 = 0 := ha task (by simp)
    rw [if_neg hhead]
    refine ⟨h.snoc hnew h0 (fun x hx hxt => ?_) (fun x hx => ?_) (fun _ => ?_) ?_ ?_ ?_, ?_, rfl⟩
    · exact (withField_other _ hatask (hat x hx) (by decide) (by decide) (.inr (by decide)) _).trans
        (withField_other _ (hat _ htail) (hat x hx) (by decide) (by decide) (.inl hxt) _)
    · exact (withField_other _ hatask (hat x hx) (by decide) (by decide)
        (.inl fun he => hnew (he ▸ hx)) _).trans
        (withField_other _ (hat _ htail) (hat x hx) (by decide) (by decide) (.inr (by decide)) _)
    · exact (withField_other _ hatask (hat _ htail) (by decide) (by decide) (.inl hne) _).trans
        (withField_self ..)
    · exact withField_self ..
    · exact (withField_other _ hatask hatask (by decide) (by decide) (.inr (by decide)) _).trans
        ((withField_other _ (hat _ htail) hatask (by decide) (by decide) (.inl hne.symm) _).trans
          hnext)
    · exact (if_neg hl).symm
    · exact ((SameBut.refl _ _).withField (List.mem_append_left _ htail) (.inl rfl) _).withField
        (by simp) (.inr rfl) _

theorem TaskState.Listed.congr (h : s.Listed l) (hhead : s'.taskHead = s.taskHead)
    (htail : s'.taskTail = s.taskTail) (hnext : ∀ t ∈ l, s'.next t = s.next t)
    (hprev : ∀ t ∈ l, s'.prev t = s.prev t) : s'.Listed l :=
  ⟨h.nodup, h.not_null, hhead.trans h.head_eq, htail.trans h.tail_eq, h.seg.congr hnext hprev⟩

/-- A new task is put on the list. -/
theorem TaskInv.new (h : TaskInv Owns s l) (halloc : PageAllocator alloc Owns) {process : U32}
    (hrun : taskNew alloc process s = .ok (task, s')) : TaskInv Owns s' (l ++ [task]) := by
  obtain ⟨pages, hspaces, howns⟩ := h.spaces
  obtain ⟨h0, ps, s₁, hmade, happend⟩ := taskNew_take halloc howns hrun
  obtain ⟨hnew, hspaces₁, hflat⟩ := hspaces.made hmade
  obtain ⟨hhead, htail, -⟩ := hmade.globals
  have hfield : ∀ t ∈ l, ∀ field : U32, field.toNat < 1024 →
      s₁.paging.words (slot t field) = s.paging.words (slot t field) := fun t ht field hf =>
    hmade.took.words.slot (List.mem_flatMap.mpr ⟨t, ht, hspaces.mem_pages ht⟩)
      (hspaces.space t ht).1 hf
  have hlist₁ : s₁.Listed l := h.list.congr hhead htail
    (fun t ht => hfield t ht nextField (by decide)) (fun t ht => hfield t ht prevField (by decide))
  obtain ⟨hlist, hsame, hheap⟩ := hlist₁.append hnew h0 (fun t ht => (hspaces₁.space t ht).1)
    hmade.next hmade.prev happend
  refine ⟨hlist, _, hspaces₁.congr hsame, ?_⟩
  rw [hheap, hflat]
  have hunion : {p | p ∈ l.flatMap pages ++ ps} = {p | p ∈ l.flatMap pages} ∪ {p | p ∈ ps} := by
    ext p
    simp
  rw [hunion]
  exact hmade.took.owns

/-! ### `task_free` -/

/-- `task_free` of a task of the list gives its pages back. -/
theorem TaskInv.free (h : TaskInv Owns s l) (halloc : PageAllocator alloc Owns) (ht : task ∈ l) :
    ∃ s', taskFree alloc task s = .ok (0, s') ∧ Removed s task s' ∧ ∃ pages, Spaces s l pages ∧
      Owns s'.paging.heap ({p | p ∈ l.flatMap pages} \ {p | p ∈ pages task}) := by
  obtain ⟨pages, hspaces, howns⟩ := h.spaces
  obtain ⟨ha, directory, table, htables, hperm⟩ := hspaces.space task ht
  have h0 : task ≠ 0 := fun he => h.list.not_null (he ▸ ht)
  have hprev : s.prev task ≠ task ∧ s.prev task % 4096 = 0 := by
    refine ⟨h.list.prev_ne ht, ?_⟩
    rcases h.list.prev_mem ht with he | hmem
    · rw [he]
      rfl
    · exact (hspaces.space _ hmem).1
  have hnodup := hperm.nodup_iff.mp ((List.nodup_flatMap.mp hspaces.nodup).1 task ht)
  have hout : ∀ p ∈ pages task, p ∈ {p | p ∈ l.flatMap pages} := fun p hp =>
    List.mem_flatMap.mpr ⟨task, ht, hp⟩
  obtain ⟨heap, hspace, howns⟩ := pagingFree4gb_give halloc htables (List.nodup_cons.mp hnodup).2
    howns fun p hp => hout p (hperm.mem_iff.mpr (List.mem_cons_of_mem task hp))
  obtain ⟨s', hfree, hheap, hremoved⟩ := taskFree_ok h0 ha hprev hspace
  refine ⟨s', hfree, hremoved, pages, hspaces, ?_⟩
  have hgive := halloc.give howns
    ⟨hout task (hspaces.mem_pages ht), (List.nodup_cons.mp hnodup).1⟩
  have hpages : {p | p ∈ pages task} =
      {p | p ∈ spacePages (s.pageDirectory task) directory table} ∪ {task} := by
    ext p
    simp [hperm.mem_iff]
  rw [hheap, hpages, ← Set.sdiff_sdiff]
  exact hgive

/-- Only the `next` of the task in front is written. -/
theorem Removed.words_eq (h : Removed s task s') {a : U32}
    (ha : s.prev task = 0 ∨ a ≠ slot (s.prev task) nextField) :
    s'.paging.words a = s.paging.words a := by
  rw [h.words, unlinkedWords]
  split
  · rfl
  · rename_i h0
    exact Function.update_of_ne (ha.resolve_left h0) _ _

/-- Without its last task, the others keep their spaces. -/
theorem Spaces.init (h : Spaces s (l ++ [task]) pages) : Spaces s l pages := by
  refine ⟨fun t ht => h.space t (List.mem_append_left _ ht), ?_⟩
  have hnodup := h.nodup
  rw [List.flatMap_append, List.nodup_append] at hnodup
  exact hnodup.1

/-- The list without its last task. -/
theorem TaskState.Listed.removeLast (h : s.Listed (l ++ [task])) (ha : ∀ t ∈ l, t % 4096 = 0)
    (hremoved : Removed s task s') :
    s'.Listed l ∧ SameBut l s.paging.words s'.paging.words := by
  have hnew : task ∉ l := fun ht =>
    (List.nodup_append.mp h.nodup).2.2 task ht task (List.mem_singleton_self _) rfl
  have htail : task = s.taskTail := by rw [h.tail_eq]; simp
  have hnext : s.next task = 0 := (h.next_eq_null_iff (by simp)).mpr htail
  have hprev : s.prev task = l.getLastD 0 := h.seg.prev_last
  have hprev_mem : l ≠ [] → s.prev task ∈ l := fun hl => by
    rw [hprev]
    cases l with
    | nil => exact absurd rfl hl
    | cons x xs => rw [List.getLastD_cons]; exact List.getLastD_mem_cons
  have hfield : ∀ t ∈ l, ∀ field : U32, field.toNat < 1024 → t ≠ s.prev task ∨ field ≠ nextField →
      s'.paging.words (slot t field) = s.paging.words (slot t field) := by
    intro t ht field hf hne
    refine hremoved.words_eq (.inr fun he => ?_)
    obtain ⟨htask, hfield⟩ := slot_inj (ha t ht) (ha _ (hprev_mem (List.ne_nil_of_mem ht))) hf
      (by decide) he
    exact hne.elim (absurd htask) (absurd hfield)
  have htail' : s'.taskTail = s.prev task := by rw [hremoved.taskTail, if_pos htail]
  refine ⟨?_, fun a hne => ?_⟩
  · unfold TaskState.Listed
    rw [htail']
    refine h.unsnoc (fun t ht hne => hfield t ht nextField (by decide) (.inl hne))
      (fun t ht => hfield t ht prevField (by decide) (.inr (by decide))) (fun hl => ?_) ?_
    · have h0 : s.prev task ≠ 0 := fun he => h.not_null
        (List.mem_append_left _ (he ▸ hprev_mem hl))
      rw [TaskState.next, hremoved.words, unlinkedWords, if_neg h0, Function.update_self, hnext]
    · rw [hremoved.taskHead, hnext]
      cases l with
      | nil => rw [if_pos rfl, if_pos (by rw [h.head_eq]; rfl)]
      | cons x xs =>
        have hx : s.taskHead = x := h.head_eq
        rw [if_neg (List.cons_ne_nil x xs), if_neg fun he => hnew (by rw [he, hx]; simp)]
  · have hslot : s.prev task ≠ 0 ∧ a = slot (s.prev task) nextField := by
      by_contra hc
      exact hne (hremoved.words_eq (or_iff_not_imp_left.mpr fun h0 he => hc ⟨h0, he⟩))
    refine ⟨s.prev task, hprev_mem fun hl => hslot.1 ?_, .inl hslot.2⟩
    rw [hprev, hl]
    rfl

/-- The last task is freed. -/
theorem TaskInv.freeLast (h : TaskInv Owns s (l ++ [task])) (halloc : PageAllocator alloc Owns)
    {res : Int} (hrun : taskFree alloc task s = .ok (res, s')) : TaskInv Owns s' l := by
  obtain ⟨s₁, hfree, hremoved, pages, hspaces, howns⟩ := h.free halloc (show task ∈ _ by simp)
  cases hfree.symm.trans hrun
  obtain ⟨hlist, hsame⟩ := h.list.removeLast (fun t ht => (hspaces.init.space t ht).1) hremoved
  have hrest : {p | p ∈ (l ++ [task]).flatMap pages} \ {p | p ∈ pages task} =
      {p | p ∈ l.flatMap pages} := by
    have hnodup := hspaces.nodup
    rw [List.flatMap_append, List.flatMap_singleton] at hnodup ⊢
    have hdisjoint := (List.nodup_append.mp hnodup).2.2
    ext p
    constructor
    · rintro ⟨hin, hout⟩
      exact (List.mem_append.mp hin).resolve_right hout
    · intro hin
      exact ⟨List.mem_append_left _ hin, fun hp => hdisjoint p hin p hp rfl⟩
  rw [hrest] at howns
  exact ⟨hlist, pages, hspaces.init.congr hsame, howns⟩

/-- A task freed in front of another is still what that one's `prev` refers to. -/
theorem TaskInv.prev_stale (h : TaskInv Owns s l) (halloc : PageAllocator alloc Owns)
    (ht : task ∈ l) (hnext : s.next task ≠ 0) {res : Int}
    (hrun : taskFree alloc task s = .ok (res, s')) : s'.prev (s.next task) = task := by
  obtain ⟨s₁, hfree, hremoved, pages, hspaces, -⟩ := h.free halloc ht
  cases hfree.symm.trans hrun
  have hmem : s.next task ∈ l := (h.list.next_mem ht).resolve_left hnext
  refine (hremoved.words_eq (or_iff_not_imp_left.mpr fun h0 he => ?_)).trans
    (h.list.prev_next ht hnext)
  have hprev := (h.list.prev_mem ht).resolve_left h0
  exact absurd (slot_inj (hspaces.space _ hmem).1 (hspaces.space _ hprev).1 (by decide) (by decide)
    he).2 (by decide)

/-- Freeing a task that is not the last leaves the list broken. -/
theorem TaskInv.not_whole (h : TaskInv Owns s l) (halloc : PageAllocator alloc Owns)
    {live : List U32} (hlive : l.Perm live) (ht : task ∈ l) (hnext : s.next task ≠ 0) {res : Int}
    (hrun : taskFree alloc task s = .ok (res, s')) : ¬ Whole ⟨s', live.erase task⟩ := by
  have hmem : s.next task ∈ l := (h.list.next_mem ht).resolve_left hnext
  have hne : s.next task ≠ task := fun he =>
    h.list.prev_ne hmem ((h.list.prev_next ht hnext).trans he.symm)
  intro hwhole
  have hprev : s'.prev (s.next task) = 0 ∨ s'.prev (s.next task) ∈ live.erase task :=
    hwhole.prev_live _ ((List.mem_erase_of_ne hne).mpr (hlive.mem_iff.mp hmem))
  rw [h.prev_stale halloc ht hnext hrun] at hprev
  rcases hprev with h0 | hin
  · exact h.list.not_null (h0 ▸ ht)
  · exact (hlive.nodup_iff.mp h.list.nodup).not_mem_erase hin

/-! ### Every history -/

/-- The tasks of the list are the live ones. -/
def TaskHistoryInv (Owns : H → Set U32 → Prop) (st : TaskHistory H) : Prop :=
  ∃ l, TaskInv Owns st.state l ∧ l.Perm st.live

/-- The invariant makes the history whole. -/
theorem TaskHistoryInv.whole {st : TaskHistory H} (h : TaskHistoryInv Owns st) : Whole st := by
  obtain ⟨l, hinv, hlive⟩ := h
  exact hinv.list.whole hlive

/-- A call that frees no task but the last. -/
theorem TaskHistoryInv.step {st st' : TaskHistory H} {op : TaskOp} (h : TaskHistoryInv Owns st)
    (halloc : PageAllocator alloc Owns) (hstep : Meeting FreesLast (TaskStep alloc) st op st') :
    TaskHistoryInv Owns st' := by
  obtain ⟨l, hinv, hlive⟩ := h
  obtain ⟨hlast, hstep⟩ := hstep
  cases hstep with
  | @new process task s' hrun h₁ h₂ =>
    exact ⟨l ++ [task], hinv.new halloc hrun, (List.perm_append_singleton _ _).trans (hlive.cons _)⟩
  | @free task res s' ht hrun =>
    have hmem := hlive.mem_iff.mpr ht
    obtain ⟨l', rfl⟩ := hinv.list.eq_snoc hmem hlast
    refine ⟨l', hinv.freeLast halloc hrun, ?_⟩
    have herase := (List.perm_append_singleton task l').symm.trans hlive
    simpa using herase.erase task
  | @switch task res s' ht hrun =>
    obtain ⟨hpaging, hhead, htail⟩ := taskSwitch_eq_ok hrun
    obtain ⟨pages, hspaces, howns⟩ := hinv.spaces
    have hwords : s'.paging.words = st.state.paging.words := by rw [hpaging]
    refine ⟨l, ⟨hinv.list.congr hhead htail (fun t _ => ?_) fun t _ => ?_, pages,
      hspaces.congr (hwords ▸ .refl _ _), by rw [hpaging]; exact howns⟩, hlive⟩
    · rw [TaskState.next, hwords, TaskState.next]
    · rw [TaskState.prev, hwords, TaskState.prev]

/-- A call that frees another. -/
theorem TaskHistoryInv.not_whole {st st' : TaskHistory H} {op : TaskOp}
    (h : TaskHistoryInv Owns st) (halloc : PageAllocator alloc Owns)
    (hstep : TaskStep alloc st op st')
    (hlast : ¬ FreesLast st op) : ¬ Whole st' := by
  obtain ⟨l, hinv, hlive⟩ := h
  cases hstep with
  | new => exact absurd trivial hlast
  | free ht hrun => exact hinv.not_whole halloc hlive (hlive.mem_iff.mpr ht) hlast hrun
  | switch => exact absurd trivial hlast

/-- Runs are whole exactly when each free is of the last task. -/
theorem taskRuns_iff_of_allocator (halloc : PageAllocator alloc Owns) {st st' : TaskHistory H}
    (h : TaskHistoryInv Owns st) (ops : List TaskOp) :
    Run (WholeStep alloc) st ops st' ↔ Run (Meeting FreesLast (TaskStep alloc)) st ops st' := by
  refine Run.congr_of_invariant h (fun st op st' h => ?_) fun st op st' h hstep =>
    h.step halloc hstep
  constructor
  · rintro ⟨hstep, hwhole⟩
    by_contra hc
    exact h.not_whole halloc hstep (fun hlast => hc ⟨hlast, hstep⟩) hwhole
  · intro hstep
    exact ⟨hstep.2, (h.step halloc hstep).whole⟩

/-- There are no tasks yet. -/
structure NoTasks (s : TaskState H) : Prop where
  taskHead : s.taskHead = 0
  taskTail : s.taskTail = 0

/-- With no tasks, the invariant holds. -/
theorem NoTasks.inv {s : TaskState Heap} (h : NoTasks s) (hkernel : KernelHeap s.paging.heap) :
    TaskHistoryInv Heap.OwnsPages ⟨s, []⟩ := by
  refine ⟨[], ⟨?_, fun _ => [], ⟨nofun, .nil⟩, hkernel.paged, ?_, nofun⟩, .nil⟩
  · unfold TaskState.Listed
    rw [h.taskHead, h.taskTail]
    exact .nil _ _
  · rw [hkernel.total]
    decide

/-- **The list stays whole in exactly the histories in which every task freed is the last one.**
This is for any calls of `task_new`, `task_free` and `task_switch` on the kernel heap, from a state
without tasks. -/
theorem taskRuns_iff {s : TaskState Heap} (hkernel : KernelHeap s.paging.heap) (hnone : NoTasks s)
    (ops : List TaskOp) (st : TaskHistory Heap) :
    Run (WholeStep .kheap) ⟨s, []⟩ ops st ↔
      Run (Meeting FreesLast (TaskStep .kheap)) ⟨s, []⟩ ops st :=
  taskRuns_iff_of_allocator kheap_pageAllocator (hnone.inv hkernel) ops

/-- After boot. -/
def bootState : TaskState Heap := ⟨⟨kernelHeap, fun _ => 0⟩, 0, 0, 0, 0, 0⟩

theorem bootState_noTasks : NoTasks bootState := ⟨rfl, rfl⟩

/-- Two tasks are made. -/
theorem bootState_two :
    ∃ first second s, Run (Meeting FreesLast (TaskStep .kheap)) ⟨bootState, []⟩ [.new 0, .new 0]
        ⟨s, [second, first]⟩ ∧ TaskInv Heap.OwnsPages s [first, second] := by
  have hfree : bootState.paging.heap.freeBlocks.card = 25600 := kernelHeap_freeBlocks
  obtain ⟨l, hinv, hlive⟩ := bootState_noTasks.inv kernelHeap_kernelHeap
  obtain rfl := List.perm_nil.mp hlive
  obtain ⟨first, s₁, hrun₁, h₁, hint₁, hkernel₁, hleft₁⟩ :=
    taskNew_kheap (s := bootState) 0 kernelHeap_kernelHeap (by omega) (absurd rfl)
  have hinv₁ := hinv.new kheap_pageAllocator hrun₁
  obtain ⟨second, s₂, hrun₂, h₂, hint₂, -⟩ := taskNew_kheap (s := s₁) 0 hkernel₁ (by omega)
    fun _ h0 => hinv₁.list.not_null (h0 ▸ hinv₁.list.tail_mem (by simp))
  exact ⟨first, second, s₂,
    .cons ⟨trivial, .new hrun₁ h₁ hint₁⟩ (.one ⟨trivial, .new hrun₂ h₂ hint₂⟩),
    hinv₁.new kheap_pageAllocator hrun₂⟩

/-- Two tasks, of which the second is freed. -/
theorem taskRuns_iff_secondFreed :
    ∃ second st, Run (WholeStep .kheap) ⟨bootState, []⟩ [.new 0, .new 0, .free second] st := by
  obtain ⟨first, second, s, hmade, hinv⟩ := bootState_two
  obtain ⟨s', hfree, -⟩ := hinv.free kheap_pageAllocator (show second ∈ _ by simp)
  have hlast : s.next second = 0 :=
    (hinv.list.next_eq_null_iff (by simp)).mpr hinv.list.tail_eq.symm
  exact ⟨second, _, (taskRuns_iff kernelHeap_kernelHeap bootState_noTasks _ _).mpr
    (hmade.snoc ⟨hlast, .free (by simp) hfree⟩)⟩

/-- **Two tasks, of which the first is freed:** the other one's `prev` is left on it. -/
theorem first_freed_stale :
    ∃ first second st, Run (TaskStep .kheap) ⟨bootState, []⟩ [.new 0, .new 0, .free first] st ∧
      st.live = [second] ∧ st.state.prev second = first ∧ ¬ Whole st := by
  obtain ⟨first, second, s, hmade, hinv⟩ := bootState_two
  have hrun : Run (TaskStep .kheap) ⟨bootState, []⟩ [.new 0, .new 0] ⟨s, [second, first]⟩ :=
    hmade.mono fun _ _ _ hstep => hstep.2
  obtain ⟨s', hfree, -⟩ := hinv.free kheap_pageAllocator (show first ∈ _ by simp)
  have hnext : s.next first = second := hinv.list.next_getElem (i := 0) (by simp)
  have hne : first ≠ second := fun he => by
    have hnodup := hinv.list.nodup
    simp [he] at hnodup
  have h0 : s.next first ≠ 0 := by
    rw [hnext]
    exact fun h0 => hinv.list.not_null (by simp [h0])
  have hlive : [second, first].erase first = [second] := by
    rw [List.erase_cons_tail (by simpa using hne.symm)]
    simp
  have hstale := hinv.prev_stale kheap_pageAllocator (by simp) h0 hfree
  rw [hnext] at hstale
  exact ⟨first, second, _, hrun.snoc (.free (by simp) hfree), hlive, hstale,
    hinv.not_whole kheap_pageAllocator (List.Perm.swap _ _ _) (by simp) h0 hfree⟩

end KernelNES.Task
