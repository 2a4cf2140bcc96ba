import KernelNES.Lib.DList
import KernelNES.Emulator.Tracelogger

/-!
# Emulator — TraceList

The trace log as a list.  `LogInv s l` says the entries from `log_head` to `log_tail` are `l`, all
live, and `current_length` is one less than their number.  `add_tracelog_entry` evicts the first
entry when the list holds 257 and appends the new one (`LogInv.add`); reading the cursor's
neighbours and printing touch no field of the log.
-/

namespace KernelNES.Emulator
open KernelNES.Lib

namespace Tracelog

/-- The entries from `log_head` to `log_tail`. -/
def Listed (s : Tracelog) (l : List Addr) : Prop :=
  DList 0 (fun a => (s.mem a).next) (fun a => (s.mem a).prev) s.logHead s.logTail l

/-- The log is the list `l`: its links, its live blocks and its length. -/
structure LogInv (s : Tracelog) (l : List Addr) : Prop where
  list : s.Listed l
  live : ∀ a ∈ l, s.live a = true
  length : s.currentLength = ((l.length - 1 : Nat) : Int)

/-- The entries left when `add_tracelog_entry` has made room. -/
def evicted (l : List Addr) : List Addr := if 256 < l.length then l.tail else l

theorem logInv_empty (mem : Addr → TracelogEntry) : LogInv (.empty mem) [] :=
  ⟨.nil _ _, by simp, rfl⟩

/-! ### Field lemmas -/

@[simp] theorem modifyEntry_mem (s : Tracelog) (a : Addr) (f : TracelogEntry → TracelogEntry) :
    (s.modifyEntry a f).mem = Function.update s.mem a (f (s.mem a)) := rfl

theorem mem_modifyEntry_of_ne {s : Tracelog} {a b : Addr} {f : TracelogEntry → TracelogEntry}
    (h : b ≠ a) : (s.modifyEntry a f).mem b = s.mem b := Function.update_of_ne h _ _

@[simp] theorem mem_modifyEntry_self (s : Tracelog) (a : Addr)
    (f : TracelogEntry → TracelogEntry) : (s.modifyEntry a f).mem a = f (s.mem a) :=
  Function.update_self _ _ _

/-! ### Eviction -/

/-- `add_tracelog_entry` makes room when there are more than 256 entries. -/
theorem evict_eq {s : Tracelog} {l : List Addr} (h : LogInv s l) :
    s.evict = if 256 < l.length then s.removeFirstEntry else s := by
  unfold evict
  rw [h.length, tracelogMaxLength]
  by_cases hl : 256 < l.length
  · rw [if_pos hl, if_pos (by omega)]
  · rw [if_neg hl, if_neg (by omega)]

/-- `remove_first_entry` on a list of two or more unlinks and frees the first entry. -/
theorem LogInv.removeFirst {s : Tracelog} {x y : Addr} {l : List Addr}
    (h : LogInv s (x :: y :: l)) :
    LogInv s.removeFirstEntry (y :: l) ∧ s.removeFirstEntry.freed = x :: s.freed ∧
      s.removeFirstEntry.live = Function.update s.live x false ∧
      s.removeFirstEntry.curSelectedEntry = s.curSelectedEntry ∧
      s.removeFirstEntry.curSelectedIndex = s.curSelectedIndex := by
  have hx : s.logHead = x := h.list.head_eq
  have hx0 : x ≠ 0 := fun e => h.list.not_null (e ▸ List.mem_cons_self)
  have hnext : (s.mem x).next = y := h.list.next_getElem (i := 0) (by simp)
  have hne : s.logHead ≠ s.logTail := by
    have := h.list.getElem_eq_tail_iff (i := 0) (by simp)
    simp only [List.getElem_cons_zero, List.length_cons] at this
    rw [hx]; intro e; have := this.mp e; omega
  obtain ⟨hxl, hnd⟩ := List.nodup_cons.mp h.list.nodup
  -- with two entries the head is not the tail, so that the second branch is taken
  have heq : s.removeFirstEntry =
      { ({ s with logHead := y }.modifyEntry y fun e => { e with prev := 0 }).kfree x with
        currentLength := s.currentLength - 1 } := by
    have hx0' : s.logHead ≠ 0 := hx ▸ hx0
    unfold removeFirstEntry
    simp only [if_neg hx0', if_neg hne]
    simp only [hx, hnext]
    rfl
  rw [heq]
  refine ⟨⟨?_, fun a ha => ?_, ?_⟩, rfl, rfl, rfl, rfl⟩
  · refine h.list.tail_of_cons (fun a _ => ?_) (fun a _ hay => ?_) hnext.symm (fun _ => ?_) ?_
    · by_cases e : a = y
      · subst e; simp [kfree]
      · simp [kfree, Function.update_of_ne e]
    · have e : a ≠ y := fun e => hay (e.trans hnext.symm)
      simp [kfree, Function.update_of_ne e]
    · simp only [hnext, kfree, modifyEntry_mem, Function.update_self]
    · rw [if_neg (by simp)]; rfl
  · have e : a ≠ x := fun e => hxl (e ▸ ha)
    exact (Function.update_of_ne e _ _).trans (h.live a (List.mem_cons_of_mem x ha))
  · show s.currentLength - 1 = _
    rw [h.length]
    simp only [List.length_cons]
    omega

/-- Making room keeps the list and the cursor; only the evicted entry dies. -/
theorem LogInv.evict {s : Tracelog} {l : List Addr} (h : LogInv s l) :
    LogInv s.evict (evicted l) ∧ s.evict.curSelectedEntry = s.curSelectedEntry ∧
      s.evict.curSelectedIndex = s.curSelectedIndex := by
  rw [evict_eq h, evicted]
  by_cases hl : 256 < l.length
  · rw [if_pos hl, if_pos hl]
    match l, hl with
    | x :: y :: l, _ =>
        obtain ⟨h₁, -, -, h₂, h₃⟩ := h.removeFirst
        exact ⟨h₁, h₂, h₃⟩
  · rw [if_neg hl, if_neg hl]
    exact ⟨h, rfl, rfl⟩

/-! ### Appending -/

/-- **`add_tracelog_entry`**, when `kzalloc` answers a block that is not live: the list loses its
first entry if it was over length and gains the new one; the cursor stays, or moves onto the first
entry of an empty log. -/
theorem LogInv.add {s : Tracelog} {l : List Addr} (h : LogInv s l) {answer : Addr}
    (ha : answer ≠ 0) (hfresh : s.evict.live answer = false) (registers : Registers)
    (totalCPUCycles : Int) :
    let s' := (s.addTracelogEntry answer registers totalCPUCycles).2
    LogInv s' (evicted l ++ [answer]) ∧ s'.curSelectedIndex = s.curSelectedIndex ∧
      s'.curSelectedEntry = if l = [] then answer else s.curSelectedEntry := by
  obtain ⟨hi, hcur, hidx⟩ := h.evict
  have hmem : answer ∉ evicted l := fun hm => by
    have := hi.live answer hm
    rw [hfresh] at this; cases this
  have hhead : s.evict.logHead = 0 ↔ l = [] := by
    rw [hi.list.head_eq_null_iff, evicted]
    split
    · constructor
      · intro e; have := congrArg List.length e; simp at this; omega
      · rintro rfl; simp at *
    · rfl
  have hk : s.evict.kzalloc answer = { s.evict with
      mem := Function.update s.evict.mem answer .zero
      live := Function.update s.evict.live answer true } := if_neg ha
  simp only [addTracelogEntry, if_neg ha, hk]
  by_cases hl : l = []
  · -- the first entry of an empty log
    have h0 : s.evict.logHead = 0 := hhead.mpr hl
    have ht : s.evict.logTail = 0 := by
      have := hi.list.tail_eq
      rw [hl] at this; simpa [evicted] using this
    have he : evicted l = [] := by rw [hl]; rfl
    rw [he] at hi
    simp only [if_pos h0, if_pos hl, he]
    refine ⟨⟨?_, fun a hm => ?_, ?_⟩, ?_, rfl⟩
    · refine hi.list.snoc (by simp) ha (by simp) (by simp) (by simp) ?_ ?_ rfl
      · simp [initLogEntry, modifyEntry, TracelogEntry.zero, ht]
      · simp [initLogEntry, modifyEntry, TracelogEntry.zero]
    · obtain rfl : a = answer := by simpa using hm
      simp [initLogEntry, modifyEntry]
    · exact hi.length
    · exact hidx
  · -- the entry is linked behind the old tail
    have h0 : s.evict.logHead ≠ 0 := fun e => hl (hhead.mp e)
    have hne : evicted l ≠ [] := fun e => hl (hhead.mp (hi.list.head_eq_null_iff.mpr e))
    have htail := hi.list.tail_mem hne
    have hta : s.evict.logTail ≠ answer := fun e => hmem (e ▸ htail)
    simp only [if_neg h0, if_neg hl]
    refine ⟨⟨?_, fun a hm => ?_, ?_⟩, hidx, hcur⟩
    · refine hi.list.snoc hmem ha (fun a hm' hat => ?_) (fun a hm' => ?_) (fun _ => ?_) ?_ ?_ ?_
      · have e : a ≠ answer := fun e => hmem (e ▸ hm')
        simp [initLogEntry, modifyEntry, Function.update_of_ne e, Function.update_of_ne hat]
      · have e : a ≠ answer := fun e => hmem (e ▸ hm')
        by_cases e' : a = s.evict.logTail
        · simp [initLogEntry, modifyEntry, e', Function.update_of_ne hta]
        · simp [initLogEntry, modifyEntry, Function.update_of_ne e, Function.update_of_ne e']
      · simp [initLogEntry, modifyEntry, Function.update_of_ne hta]
      · simp [initLogEntry, modifyEntry]
      · simp [initLogEntry, modifyEntry, Function.update_of_ne hta.symm, TracelogEntry.zero]
      · rw [if_neg hne]; rfl
    · show Function.update s.evict.live answer true a = true
      rcases List.mem_append.mp hm with hm' | hm'
      · rw [Function.update_of_ne fun (e : a = answer) => hmem (e ▸ hm')]; exact hi.live a hm'
      · rw [List.mem_singleton.mp hm', Function.update_self]
    · have hlen := hi.length
      have hpos : 0 < (evicted l).length := List.length_pos_iff.mpr hne
      simp only [initLogEntry, modifyEntry, List.length_append, List.length_singleton, hlen]
      omega

end Tracelog

end KernelNES.Emulator
