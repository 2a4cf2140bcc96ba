import KernelNES.Lib.Runs
import KernelNES.Emulator.TraceList

/-!
# Emulator — TraceCursor

The cursor into the trace log, under `add_tracelog_entry`, the two scroll operations and
`tracelog_print_entries` in any order.  A `LogStep` is one call; `derefs` are the pointers it
follows from the cursor.  `CursorStep` is a `LogStep` that follows only live members of the list and
leaves the cursor on the entry at `cur_selected_index`.

Two kinds of call break this (`Undisturbed` is their negation): printing or scrolling an empty log
follows `NULL`, and an `add_tracelog_entry` that evicts the first entry neither moves the cursor off
it nor lowers `cur_selected_index`.  The histories of `CursorStep`s are exactly the undisturbed ones
(`cursorRuns_iff`).
-/

namespace KernelNES.Emulator
open KernelNES.Lib

/-- The calls of the log: `add_tracelog_entry` with the answer of `kzalloc`, `scroll_up`,
`scroll_down` and `tracelog_print_entries`. -/
inductive LogOp where
  | add (answer : Addr) (registers : Registers) (totalCPUCycles : Int)
  | scrollUp
  | scrollDown
  | print

namespace Tracelog

/-- One call.  `kzalloc` succeeds, with a block that is not live when it is asked. -/
inductive LogStep : Tracelog → LogOp → Tracelog → Prop where
  | add {s : Tracelog} {answer : Addr} (registers : Registers) (totalCPUCycles : Int)
      (h₁ : answer ≠ 0) (h₂ : s.evict.live answer = false) :
      LogStep s (.add answer registers totalCPUCycles)
        (s.addTracelogEntry answer registers totalCPUCycles).2
  | scrollUp {s : Tracelog} : LogStep s .scrollUp s.scrollUp.1
  | scrollDown {s : Tracelog} : LogStep s .scrollDown s.scrollDown.1
  | print {s : Tracelog} : LogStep s .print s

/-- The pointers the call dereferences, from `cur_selected_entry` on. -/
def derefs (s : Tracelog) : LogOp → List Addr
  | .add _ _ _  => []
  | .scrollUp   => s.scrollUp.2
  | .scrollDown => s.scrollDown.2
  | .print      => s.tracelogPrintEntries

/-- `a` is a live member of the list from `log_head` to `log_tail`. -/
def LiveMember (s : Tracelog) (a : Addr) : Prop := ∃ l, s.Listed l ∧ a ∈ l ∧ s.live a = true

/-- The cursor is on the entry at position `cur_selected_index`, unless the list is empty. -/
def CursorOk (s : Tracelog) : Prop :=
  ∃ l, s.Listed l ∧
    (l ≠ [] → 0 ≤ s.curSelectedIndex ∧ l[s.curSelectedIndex.toNat]? = some s.curSelectedEntry)

/-- A call that follows live members only, from and to a state whose cursor is on its entry. -/
def CursorStep (s : Tracelog) (op : LogOp) (s' : Tracelog) : Prop :=
  LogStep s op s' ∧ CursorOk s ∧ (∀ a ∈ s.derefs op, s.LiveMember a) ∧ CursorOk s'

/-- The call neither evicts an entry nor looks at an empty log. -/
def Undisturbed (s : Tracelog) : LogOp → Prop
  | .add _ _ _ => s.currentLength + 1 ≤ tracelogMaxLength
  | .scrollUp | .scrollDown | .print => s.logHead ≠ 0

/-! ### The invariant -/

/-- The list with its cursor: at position `cur_selected_index`, or `NULL` in an empty log. -/
structure CursorInv (s : Tracelog) (l : List Addr) : Prop where
  log : LogInv s l
  nonneg : 0 ≤ s.curSelectedIndex
  at_index : l ≠ [] → l[s.curSelectedIndex.toNat]? = some s.curSelectedEntry
  at_null : l = [] → s.curSelectedIndex = 0 ∧ s.curSelectedEntry = 0

theorem cursorInv_empty (mem : Addr → TracelogEntry) : CursorInv (.empty mem) [] :=
  ⟨logInv_empty mem, le_refl 0, fun h => absurd rfl h, fun _ => ⟨rfl, rfl⟩⟩

/-- The cursor is on the entry at its index. -/
theorem CursorInv.ok {s : Tracelog} {l : List Addr} (h : CursorInv s l) : CursorOk s :=
  ⟨l, h.log.list, fun hl => ⟨h.nonneg, h.at_index hl⟩⟩

theorem not_liveMember_null (s : Tracelog) : ¬ s.LiveMember 0 :=
  fun ⟨_, hl, hm, _⟩ => hl.not_null hm

/-- The entries of the log are live. -/
theorem LogInv.liveMember {s : Tracelog} {l : List Addr} (h : LogInv s l) {a : Addr}
    (ha : a ∈ l) : s.LiveMember a := ⟨l, h.list, ha, h.live a ha⟩

/-- The head is `NULL` when there are no entries. -/
theorem LogInv.head_ne_iff {s : Tracelog} {l : List Addr} (h : LogInv s l) :
    s.logHead ≠ 0 ↔ l ≠ [] := not_congr h.list.head_eq_null_iff

/-- The cursor of a non-empty log, as a position. -/
theorem CursorInv.position {s : Tracelog} {l : List Addr} (h : CursorInv s l) (hl : l ≠ []) :
    ∃ (i : Nat) (hi : i < l.length), s.curSelectedIndex = i ∧ l[i] = s.curSelectedEntry := by
  obtain ⟨hi, e⟩ := List.getElem?_eq_some_iff.mp (h.at_index hl)
  exact ⟨_, hi, (Int.toNat_of_nonneg h.nonneg).symm, e⟩

/-- Moving the cursor, and nothing else, to another position. -/
theorem CursorInv.move {s : Tracelog} {l : List Addr} (h : CursorInv s l) {i : Nat}
    (hi : i < l.length) :
    CursorInv { s with curSelectedEntry := l[i], curSelectedIndex := i } l :=
  ⟨⟨h.log.list, h.log.live, h.log.length⟩, by simp, fun _ => by simp [hi],
    fun e => by simp [e] at hi⟩

/-! ### Printing and scrolling -/

/-- Printing follows members of the list: from the tail it stays where it is. -/
theorem LogInv.printLoop {s : Tracelog} {l : List Addr} (h : LogInv s l) :
    ∀ (n : Nat) (a : Addr), a ∈ l → ∀ x ∈ s.tracelogPrintLoop n a, x ∈ l := by
  intro n
  induction n with
  | zero => intro a _ x hx; cases hx
  | succ n ih =>
      intro a ha x hx
      rcases List.mem_cons.mp hx with rfl | hx
      · exact ha
      · refine ih _ ?_ x hx
        by_cases ht : a = s.logTail
        · rwa [if_neg (not_not.mpr ht)]
        · rw [if_pos ht]
          obtain ⟨i, hi, rfl⟩ := List.getElem_of_mem ha
          have hi' : i + 1 ≠ l.length := fun e => ht ((h.list.getElem_eq_tail_iff hi).mpr e)
          rw [h.list.next_getElem (show i + 1 < l.length by omega)]
          exact List.getElem_mem _

/-- Printing reads entries of the log, and no others. -/
theorem CursorInv.print {s : Tracelog} {l : List Addr} (h : CursorInv s l) (hl : l ≠ []) :
    ∀ x ∈ s.tracelogPrintEntries, x ∈ l :=
  h.log.printLoop _ _ (List.mem_of_getElem? (h.at_index hl))

/-- A scroll follows the cursor's entry to the new one, and prints from there. -/
theorem CursorInv.reprint {s s' : Tracelog} {l : List Addr} (h : CursorInv s l) (hl : l ≠ [])
    (h' : CursorInv s' l) : ∀ x ∈ s.curSelectedEntry :: s'.tracelogPrintEntries, x ∈ l := by
  intro x hx
  rcases List.mem_cons.mp hx with rfl | hx
  · exact List.mem_of_getElem? (h.at_index hl)
  · exact h'.print hl x hx

/-- Scrolling down keeps the cursor on the log. -/
theorem CursorInv.scrollDown {s : Tracelog} {l : List Addr} (h : CursorInv s l) (hl : l ≠ []) :
    CursorInv s.scrollDown.1 l ∧ ∀ x ∈ s.scrollDown.2, x ∈ l := by
  obtain ⟨i, hi, hidx, hcur⟩ := h.position hl
  unfold Tracelog.scrollDown
  by_cases hc : s.curSelectedIndex + numPrintEntries < s.currentLength
  · have hlen : i + 1 < l.length := by
      rw [hidx, h.log.length, numPrintEntries] at hc; omega
    have hnext : (s.mem s.curSelectedEntry).next = l[i + 1] := by
      rw [← hcur]; exact h.log.list.next_getElem hlen
    have hm := h.move hlen
    rw [if_pos hc]
    simp only [hnext, hidx]
    rw [Nat.cast_succ] at hm
    exact ⟨hm, h.reprint hl hm⟩
  · simp only [if_neg hc]
    exact ⟨h, h.print hl⟩

/-- Scrolling up does, too. -/
theorem CursorInv.scrollUp {s : Tracelog} {l : List Addr} (h : CursorInv s l) (hl : l ≠ []) :
    CursorInv s.scrollUp.1 l ∧ ∀ x ∈ s.scrollUp.2, x ∈ l := by
  obtain ⟨i, hi, hidx, hcur⟩ := h.position hl
  unfold Tracelog.scrollUp
  by_cases hc : s.curSelectedEntry ≠ s.logHead
  · have hi0 : i ≠ 0 := fun e => hc (hcur ▸ (h.log.list.getElem_eq_head_iff hi).mpr e)
    obtain ⟨j, rfl⟩ := Nat.exists_eq_succ_of_ne_zero hi0
    have hprev : (s.mem s.curSelectedEntry).prev = l[j] := by
      rw [← hcur]; exact h.log.list.prev_getElem hi
    have hm := h.move (show j < l.length by omega)
    rw [if_pos hc]
    simp only [hprev, hidx]
    rw [show ((j.succ : Nat) : Int) - 1 = j by omega]
    exact ⟨hm, h.reprint hl hm⟩
  · simp only [if_neg hc]
    exact ⟨h, h.print hl⟩

/-! ### One call -/

/-- An undisturbed call keeps the invariant and follows live members only. -/
theorem CursorInv.step {s s' : Tracelog} {l : List Addr} {op : LogOp} (h : CursorInv s l)
    (hs : Meeting Undisturbed LogStep s op s') :
    (∃ l', CursorInv s' l') ∧ ∀ a ∈ s.derefs op, s.LiveMember a := by
  obtain ⟨hu, hstep⟩ := hs
  cases hstep with
  | scrollUp =>
      obtain ⟨h₁, h₂⟩ := h.scrollUp (h.log.head_ne_iff.mp hu)
      exact ⟨⟨l, h₁⟩, fun a ha => h.log.liveMember (h₂ a ha)⟩
  | scrollDown =>
      obtain ⟨h₁, h₂⟩ := h.scrollDown (h.log.head_ne_iff.mp hu)
      exact ⟨⟨l, h₁⟩, fun a ha => h.log.liveMember (h₂ a ha)⟩
  | print =>
      exact ⟨⟨l, h⟩, fun a ha => h.log.liveMember (h.print (h.log.head_ne_iff.mp hu) a ha)⟩
  | add registers totalCPUCycles h₁ h₂ =>
      refine ⟨?_, fun a ha => absurd ha (by simp [derefs])⟩
      have hlen : ¬ 256 < l.length := by
        simp only [Undisturbed, h.log.length, tracelogMaxLength] at hu; omega
      obtain ⟨hi, hidx, hcur⟩ := h.log.add h₁ h₂ registers totalCPUCycles
      rw [evicted, if_neg hlen] at hi
      refine ⟨_, hi, hidx ▸ h.nonneg, fun _ => ?_, fun e => absurd e (by simp)⟩
      rw [hidx, hcur]
      by_cases hl : l = []
      · rw [if_pos hl, (h.at_null hl).1, hl]; rfl
      · obtain ⟨i, hi', e, e'⟩ := h.position hl
        rw [if_neg hl, e, ← e', Int.toNat_natCast, List.getElem?_append_left hi',
          List.getElem?_eq_getElem hi']

/-- A disturbed call follows `NULL`, or leaves the cursor off its entry. -/
theorem CursorInv.disturbed {s s' : Tracelog} {l : List Addr} {op : LogOp} (h : CursorInv s l)
    (hu : ¬ Undisturbed s op) : ¬ CursorStep s op s' := by
  rintro ⟨hstep, -, hd, hok⟩
  -- an empty log's cursor is `NULL`, and each look at it prints that
  have hprint : s.logHead = 0 → (0 : Addr) ∈ s.tracelogPrintEntries ∧
      s.scrollDown.2 = s.tracelogPrintEntries ∧ s.scrollUp.2 = s.tracelogPrintEntries := by
    intro h0
    obtain rfl := h.log.list.head_eq_null_iff.mp h0
    obtain ⟨hidx, hcur⟩ := h.at_null rfl
    have hlen : s.currentLength = 0 := h.log.length
    refine ⟨?_, ?_, ?_⟩
    · rw [tracelogPrintEntries, hlen, hcur]
      exact List.mem_cons_self
    · rw [Tracelog.scrollDown, hidx, hlen, if_neg (by decide)]
    · rw [Tracelog.scrollUp, hcur, h0, if_neg (by simp)]
  have hempty : s.logHead = 0 → (∀ a ∈ s.tracelogPrintEntries, s.LiveMember a) → False :=
    fun h0 hall => not_liveMember_null s (hall 0 (hprint h0).1)
  cases hstep with
  | scrollUp =>
      have h0 := not_not.mp hu
      exact hempty h0 ((hprint h0).2.2 ▸ hd)
  | scrollDown =>
      have h0 := not_not.mp hu
      exact hempty h0 ((hprint h0).2.1 ▸ hd)
  | print => exact hempty (not_not.mp hu) hd
  | @add answer registers totalCPUCycles h₁ h₂ =>
      have hlen : 256 < l.length := by
        simp only [Undisturbed, h.log.length, tracelogMaxLength] at hu; omega
      have hl : l ≠ [] := fun e => by simp [e] at hlen
      obtain ⟨hi, hidx, hcur⟩ := h.log.add h₁ h₂ registers totalCPUCycles
      obtain ⟨l', hl', hat⟩ := hok
      obtain rfl := hl'.unique hi.list
      obtain ⟨-, hat⟩ := hat (by simp)
      obtain ⟨i, hil, e, e'⟩ := h.position hl
      rw [hidx, hcur, if_neg hl, e, Int.toNat_natCast, ← e', evicted, if_pos hlen] at hat
      -- the new list holds at `i` the old entry `i + 1`, or at its end the new entry
      by_cases hlast : i + 1 < l.length
      · rw [List.getElem?_append_left (by simp; omega), List.getElem?_tail,
          List.getElem?_eq_getElem hlast] at hat
        have := (h.log.list.nodup.getElem_inj_iff).mp (Option.some.inj hat)
        omega
      · have hi' : i - l.tail.length = 0 := by simp; omega
        rw [List.getElem?_append_right (by simp; omega), hi'] at hat
        simp only [List.getElem?_cons_zero, Option.some.injEq] at hat
        have hmem : answer ∈ evicted l := by
          rw [evicted, if_pos hlen, hat]
          refine List.mem_of_getElem? (i := i - 1) ?_
          rw [List.getElem?_tail, Nat.sub_add_cancel (by omega), List.getElem?_eq_getElem hil]
        have := h.log.evict.1.live answer hmem
        rw [h₂] at this; cases this

/-! ### Every history -/

/-- **The cursor stays in the list in exactly the undisturbed histories.**  From the empty log, the
histories in which every dereference from the cursor meets a live member of the list, and the
cursor stays on the entry at `cur_selected_index`, are those in which no call evicts an entry and
none looks at an empty log. -/
theorem cursorRuns_iff (mem : Addr → TracelogEntry) (ops : List LogOp) (s : Tracelog) :
    Run CursorStep (.empty mem) ops s ↔
      Run (Meeting Undisturbed LogStep) (.empty mem) ops s := by
  refine Run.congr_of_invariant (P := fun s => ∃ l, CursorInv s l) ⟨[], cursorInv_empty mem⟩ ?_ ?_
  · rintro s op s' ⟨l, h⟩
    constructor
    · intro hc
      by_cases hu : Undisturbed s op
      · exact ⟨hu, hc.1⟩
      · exact absurd hc (h.disturbed hu)
    · intro hm
      obtain ⟨⟨l', h'⟩, hd⟩ := h.step hm
      exact ⟨hm.2, h.ok, hd, h'.ok⟩
  · rintro s op s' ⟨l, h⟩ hm
    exact (h.step hm).1

/-! ### The history of 258 instructions -/

/-- The log after `n` instructions, when `kzalloc` answers `1`, `2`, and so on. -/
def afterAdds : Nat → Tracelog
  | 0 => .empty fun _ => .zero
  | n + 1 => ((afterAdds n).addTracelogEntry (BitVec.ofNat 32 (n + 1)) ⟨0, 0, 0, 0, 0, 0⟩ 0).2

/-- The calls that lead there. -/
def addCalls : Nat → List LogOp
  | 0 => []
  | n + 1 => addCalls n ++ [.add (BitVec.ofNat 32 (n + 1)) ⟨0, 0, 0, 0, 0, 0⟩ 0]

/-- Eviction makes nothing live. -/
theorem live_of_evict {s : Tracelog} {a : Addr} (h : s.evict.live a = true) :
    s.live a = true := by
  have hupdate : ∀ b, Function.update s.live b false a = true → s.live a = true := by
    intro b hb
    by_cases hab : a = b
    · rw [hab, Function.update_self] at hb
      cases hb
    · rwa [Function.update_of_ne hab] at hb
  unfold evict removeFirstEntry at h
  split at h
  · split at h
    · exact h
    · dsimp only at h
      split at h <;> exact hupdate _ h
  · exact h

/-- What is live after a call was live before, or is what the call added. -/
theorem live_of_add {s : Tracelog} {answer a : Addr} {registers : Registers} {cycles : Int}
    (h : (s.addTracelogEntry answer registers cycles).2.live a = true) :
    a = answer ∨ s.live a = true := by
  by_cases hab : a = answer
  · exact .inl hab
  refine .inr (live_of_evict ?_)
  have hzalloc : (s.evict.kzalloc answer).live a = s.evict.live a := by
    unfold kzalloc
    split
    · rfl
    · exact Function.update_of_ne hab _ _
  rw [← hzalloc]
  unfold addTracelogEntry at h
  dsimp only at h
  split at h
  · exact (Function.update_of_ne hab _ _).symm.trans h
  · split at h <;> exact h

/-- Only addresses handed out so far are live. -/
theorem afterAdds_live {n : Nat} {a : Addr} (h : (afterAdds n).live a = true) : a.toNat ≤ n := by
  induction n with
  | zero => cases h
  | succ n ih =>
      rcases live_of_add h with rfl | h
      · exact (BitVec.toNat_ofNat _ _).trans_le (Nat.mod_le _ _)
      · exact (ih h).trans (Nat.le_succ n)

/-- The next address has not been handed out. -/
theorem afterAdds_fresh {n : Nat} (hn : n < 258) :
    BitVec.ofNat 32 (n + 1) ≠ 0 ∧ (afterAdds n).evict.live (BitVec.ofNat 32 (n + 1)) = false := by
  have hnat : (BitVec.ofNat 32 (n + 1)).toNat = n + 1 := Nat.mod_eq_of_lt (by omega)
  refine ⟨fun h => ?_, Bool.eq_false_iff.mpr fun h => ?_⟩
  · rw [h] at hnat
    cases hnat
  · have := afterAdds_live (live_of_evict h)
    omega

theorem run_afterAdds {n : Nat} (hn : n ≤ 258) :
    Run LogStep (.empty fun _ => .zero) (addCalls n) (afterAdds n) := by
  induction n with
  | zero => exact .nil _
  | succ n ih =>
      obtain ⟨hnull, hfresh⟩ := afterAdds_fresh (show n < 258 by omega)
      exact (ih (by omega)).snoc (.add _ _ hnull hfresh)

set_option maxRecDepth 4000 in
/-- The 258th instruction frees the entry under the cursor, and printing then follows it. -/
theorem print_follows_freed :
    ∃ s, Run LogStep (.empty fun _ => .zero) (addCalls 258) s ∧
      s.curSelectedEntry ∈ s.derefs .print ∧ ¬ s.LiveMember s.curSelectedEntry := by
  refine ⟨afterAdds 258, run_afterAdds (le_refl _), by decide +kernel, fun ⟨_, _, _, hlive⟩ => ?_⟩
  exact absurd hlive (by decide +kernel)

end Tracelog

end KernelNES.Emulator
