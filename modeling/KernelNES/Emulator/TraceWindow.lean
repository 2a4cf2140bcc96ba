import KernelNES.Lib.Window
import KernelNES.Emulator.TraceCursor
import KernelNES.Emulator.TraceHistory

/-!
# Emulator — TraceWindow

The trace log as a list behind a window.  An entry of the list is what the log says of one
instruction; the emulator appends one and fills in the last, and the keys move the window of 25
entries.  `ViewInv s w` says that the linked list `s` is the list behind the window `w`, with the
cursor at its first entry.  Each function of the log keeps it as long as no entry is evicted
(`ViewInv.add`, `ViewInv.hook`, `ViewInv.scrollUp`, `ViewInv.scrollDown`), and what
`tracelog_print_entries` prints are the entries in the window (`ViewInv.printed`).
-/

namespace KernelNES.Emulator
open KernelNES.Lib

/-- The functions that fill in the last entry. -/
inductive TailHook where
  | operand (byte : U8)
  | address (addr : U16)
  | indexedAddress (addr : U16)
  | writtenValue (byte : U8)
  | readValue (byte : U8)

/-- The function of the log. -/
def TailHook.run : TailHook → Tracelog → Tracelog
  | .operand byte, s => s.tailLogSetOperand byte
  | .address addr, s => s.tailLogSetAddress addr
  | .indexedAddress addr, s => s.tailLogSetIndexedAddress addr
  | .writtenValue byte, s => s.tailLogSetWrittenValue byte
  | .readValue byte, s => s.tailLogSetReadValue byte

/-! ### The window -/

/-- What the log says of one instruction, apart from the links of its entry; `currentOperand` is the
number of its operands so far. -/
structure Logged where
  answer : Addr
  entry : TracelogEntry
  currentOperand : Nat

/-- An entry without its links. -/
def TracelogEntry.unlinked (e : TracelogEntry) : TracelogEntry := { e with next := 0, prev := 0 }

/-- An instruction of which the log says no more than the state of the CPU. -/
def AddCall.logged (call : AddCall) : Logged where
  answer := call.answer
  entry := { TracelogEntry.zero with
    registers := call.registers, totalCPUCycles := call.totalCPUCycles }
  currentOperand := 0

/-- What is filled in. -/
def TailHook.fill : TailHook → Logged → Logged
  | .operand byte, c =>
    if c.entry.opcode = 0 then { c with entry := { c.entry with opcode := byte } }
    else { c with
      entry := { c.entry with operands := Function.update c.entry.operands c.currentOperand byte }
      currentOperand := c.currentOperand + 1 }
  | .address addr, c => { c with entry := { c.entry with address := addr } }
  | .indexedAddress addr, c => { c with entry := { c.entry with indexedAddress := addr } }
  | .writtenValue byte, c =>
    { c with entry := { c.entry with writtenValue := byte, writeValueSet := true } }
  | .readValue byte, c =>
    { c with entry := { c.entry with readValue := byte, readValueSet := true } }

/-- What the user looks at: the instructions, through a window of 25. -/
abbrev LogWindow : Type := Window Logged 25

/-- The log is the one in the window. -/
structure ViewInv (s : Tracelog) (w : LogWindow) : Prop where
  cursor : s.CursorInv (w.entries.map Logged.answer)
  start : s.curSelectedIndex = w.start
  entry : ∀ c ∈ w.entries, (s.mem c.answer).unlinked = c.entry
  operand : ∀ c, w.entries.getLast? = some c → s.currentOperand = c.currentOperand
  cycles : ∀ c ∈ w.entries, 0 ≤ c.entry.totalCPUCycles ∧ c.entry.totalCPUCycles < 10000

variable {s : Tracelog} {w : LogWindow}

theorem viewInv_empty (mem : Addr → TracelogEntry) : ViewInv (.empty mem) .empty :=
  ⟨Tracelog.cursorInv_empty mem, rfl, nofun, nofun, nofun⟩

/-- A log with a head has entries. -/
theorem ViewInv.ne_nil (h : ViewInv s w) (hhead : s.logHead ≠ 0) : w.entries ≠ [] := by
  intro he
  refine h.cursor.log.head_ne_iff.mp hhead ?_
  rw [he, List.map_nil]

/-- The length the log counts. -/
theorem ViewInv.length (h : ViewInv s w) : s.currentLength = ((w.entries.length - 1 : Nat) : Int) := by
  rw [h.cursor.log.length, List.length_map]

/-! ### One call -/

/-- Writing the links of an entry changes no more than links. -/
theorem modifyEntry_unlinked (s : Tracelog) (b : Addr) {f : TracelogEntry → TracelogEntry}
    (hf : ∀ e, (f e).unlinked = e.unlinked) (a : Addr) :
    ((s.modifyEntry b f).mem a).unlinked = (s.mem a).unlinked := by
  rcases eq_or_ne a b with rfl | h
  · rw [Tracelog.mem_modifyEntry_self, hf]
  · rw [Tracelog.mem_modifyEntry_of_ne h]

/-- A fresh entry is clear, and the others stay. -/
theorem kzalloc_unlinked (s : Tracelog) {answer : Addr} (ha : answer ≠ 0) (a : Addr) :
    ((s.kzalloc answer).mem a).unlinked =
      if a = answer then TracelogEntry.zero else (s.mem a).unlinked := by
  rw [Tracelog.kzalloc, if_neg ha]
  rcases eq_or_ne a answer with rfl | h
  · simp only [Function.update_self, if_pos]
    rfl
  · simp only [Function.update_of_ne h, if_neg h]

/-- A cleared entry is initialised. -/
theorem initLogEntry_unlinked {s : Tracelog} {call : AddCall} {e : Addr → TracelogEntry}
    (hs : ∀ a, (s.mem a).unlinked = if a = call.answer then TracelogEntry.zero else e a) (a : Addr) :
    ((s.initLogEntry call.answer call.registers call.totalCPUCycles).mem a).unlinked =
      if a = call.answer then call.logged.entry else e a := by
  unfold Tracelog.initLogEntry
  rcases eq_or_ne a call.answer with rfl | h
  · have hzero := hs call.answer
    rw [if_pos rfl] at hzero ⊢
    rw [Tracelog.mem_modifyEntry_self]
    exact congrArg (fun e : TracelogEntry => { e with
      registers := call.registers, totalCPUCycles := call.totalCPUCycles }) hzero
  · rw [Tracelog.mem_modifyEntry_of_ne h, hs]
    simp only [if_neg h]

/-- A new entry, with room for it, holds the state of the CPU; the others keep what they hold, but
for links. -/
theorem addTracelogEntry_unlinked (s : Tracelog) {call : AddCall} (ha : call.answer ≠ 0)
    (hroom : s.currentLength + 1 ≤ tracelogMaxLength) (a : Addr) :
    let s' := (s.addTracelogEntry call.answer call.registers call.totalCPUCycles).2
    s'.currentOperand = 0 ∧ (s'.mem a).unlinked =
      if a = call.answer then call.logged.entry else (s.mem a).unlinked := by
  have hzalloc := kzalloc_unlinked s ha
  have hevict : s.evict = s := if_neg (by omega)
  unfold Tracelog.addTracelogEntry
  simp only [hevict, if_neg ha]
  split
  · exact ⟨rfl, initLogEntry_unlinked hzalloc a⟩
  · let s₁ := s.kzalloc call.answer
    let s₂ := s₁.modifyEntry s₁.logTail fun e => { e with next := call.answer }
    have hnext : ∀ a, (s₂.mem a).unlinked = (s₁.mem a).unlinked :=
      modifyEntry_unlinked s₁ s₁.logTail fun _ => rfl
    have hprev : ∀ a, ((s₂.modifyEntry call.answer fun e =>
        { e with prev := s₂.logTail }).mem a).unlinked = (s₂.mem a).unlinked :=
      modifyEntry_unlinked s₂ call.answer fun _ => rfl
    exact ⟨rfl, initLogEntry_unlinked (fun a => (hprev a).trans ((hnext a).trans (hzalloc a))) a⟩

/-- A new entry. -/
theorem ViewInv.add (h : ViewInv s w) {call : AddCall} (ha : call.answer ≠ 0)
    (hfresh : s.evict.live call.answer = false) (hroom : s.currentLength + 1 ≤ tracelogMaxLength)
    (hcycles : 0 ≤ call.totalCPUCycles ∧ call.totalCPUCycles < 10000) :
    ViewInv (s.addTracelogEntry call.answer call.registers call.totalCPUCycles).2
      (w.push call.logged) := by
  have hadd : Meeting Tracelog.Undisturbed Tracelog.LogStep s
      (.add call.answer call.registers call.totalCPUCycles) _ := ⟨hroom, .add _ _ ha hfresh⟩
  obtain ⟨⟨l, hcursor⟩, -⟩ := h.cursor.step hadd
  obtain ⟨hlog, hindex, -⟩ := h.cursor.log.add ha hfresh call.registers call.totalCPUCycles
  have hentry := addTracelogEntry_unlinked s ha hroom
  have hlen := h.length
  have hevict : s.evict = s := if_neg (by omega)
  rw [tracelogMaxLength] at hroom
  rw [Tracelog.evicted, if_neg (by rw [List.length_map]; omega)] at hlog
  obtain rfl := hcursor.log.list.unique hlog.list
  refine ⟨?_, hindex.trans h.start, fun c hc => ?_, fun c hc => ?_, fun c hc => ?_⟩
  · rw [Window.push, List.map_append]
    exact hcursor
  · rw [(hentry c.answer).2]
    rcases List.mem_append.mp hc with hc | hc
    · rw [if_neg, h.entry c hc]
      -- an entry of the log is live, and the new one was not
      intro he
      have hlive := h.cursor.log.live c.answer (List.mem_map_of_mem hc)
      rw [hevict, ← he, hlive] at hfresh
      cases hfresh
    · rw [List.mem_singleton.mp hc]
      exact if_pos rfl
  · have hlast : (w.push call.logged).entries.getLast? = some call.logged :=
      List.getLast?_concat
    obtain rfl := Option.some.inj (hlast.symm.trans hc)
    exact (hentry 0).1
  · rcases List.mem_append.mp hc with hc | hc
    · exact h.cycles c hc
    · rw [List.mem_singleton.mp hc]
      exact hcycles

/-- The first byte is the opcode. -/
theorem TailHook.fill_opcode {c : Logged} (h : c.entry.opcode = 0) (byte : U8) :
    fill (.operand byte) c = { c with entry := { c.entry with opcode := byte } } := if_pos h

/-- The next are operands. -/
theorem TailHook.fill_operand {c : Logged} (h : c.entry.opcode ≠ 0) (byte : U8) :
    fill (.operand byte) c = { c with
      entry := { c.entry with operands := Function.update c.entry.operands c.currentOperand byte }
      currentOperand := c.currentOperand + 1 } := if_neg h

/-- What the log says, with the links of its entry left out. -/
def Logged.unlinked (c : Logged) : Logged := { c with entry := c.entry.unlinked }

/-- What fills in an entry leaves its address, its links and the state of the CPU in it alone. -/
theorem TailHook.fill_keeps (hook : TailHook) (c : Logged) :
    (hook.fill c).answer = c.answer ∧ (hook.fill c).entry.next = c.entry.next ∧
      (hook.fill c).entry.prev = c.entry.prev ∧
      (hook.fill c).entry.registers = c.entry.registers ∧
      (hook.fill c).entry.totalCPUCycles = c.entry.totalCPUCycles := by
  cases hook with
  | operand byte =>
      by_cases h : c.entry.opcode = 0
      · rw [fill_opcode h]
        exact ⟨rfl, rfl, rfl, rfl, rfl⟩
      · rw [fill_operand h]
        exact ⟨rfl, rfl, rfl, rfl, rfl⟩
  | address | indexedAddress | writtenValue | readValue => exact ⟨rfl, rfl, rfl, rfl, rfl⟩

/-- It does not look at the links. -/
theorem TailHook.fill_unlinked (hook : TailHook) (c : Logged) :
    hook.fill c.unlinked = (hook.fill c).unlinked := by
  cases hook with
  | operand byte =>
      by_cases h : c.entry.opcode = 0
      · rw [fill_opcode h, fill_opcode (c := c.unlinked) h]
        rfl
      · rw [fill_operand h, fill_operand (c := c.unlinked) h]
        rfl
  | address | indexedAddress | writtenValue | readValue => rfl

/-- The last entry, as the functions find it. -/
def Tracelog.last (s : Tracelog) : Logged := ⟨s.logTail, s.mem s.logTail, s.currentOperand⟩

/-- The functions fill in the last entry. -/
theorem TailHook.run_eq (hook : TailHook) (s : Tracelog) :
    hook.run s = { s.modifyTail (fun _ => (hook.fill s.last).entry) with
      currentOperand := (hook.fill s.last).currentOperand } := by
  cases hook with
  | operand byte =>
      rw [run, Tracelog.tailLogSetOperand]
      by_cases h : s.last.entry.opcode = 0
      · rw [fill_opcode h]
        exact if_pos h
      · rw [fill_operand h]
        exact if_neg h
  | address | indexedAddress | writtenValue | readValue => rfl

/-- A hook changes the last entry, and no other. -/
theorem TailHook.run_mem (hook : TailHook) (s : Tracelog) (a : Addr) :
    (hook.run s).mem a = if a = s.logTail then (hook.fill s.last).entry else s.mem a := by
  rw [hook.run_eq]
  exact Function.update_apply _ _ _ _

/-- The links stay, and the cursor with them. -/
theorem TailHook.run_cursor (hook : TailHook) {l : List Addr} (h : s.CursorInv l) :
    (hook.run s).CursorInv l := by
  obtain ⟨-, hnext, hprev, -⟩ := hook.fill_keeps s.last
  have hkept : ∀ g : TracelogEntry → Addr, g (hook.fill s.last).entry = g s.last.entry →
      (fun a => g ((hook.run s).mem a)) = fun a => g (s.mem a) := by
    intro g hg
    funext a
    rw [hook.run_mem]
    split
    · rename_i ha
      rw [ha]
      exact hg
    · rfl
  have hlisted : (hook.run s).Listed l := by
    rw [Tracelog.Listed, hkept TracelogEntry.next hnext, hkept TracelogEntry.prev hprev, hook.run_eq]
    exact h.log.list
  refine ⟨⟨hlisted, ?_, ?_⟩, ?_, ?_, ?_⟩
  · rw [hook.run_eq]; exact h.log.live
  · rw [hook.run_eq]; exact h.log.length
  · rw [hook.run_eq]; exact h.nonneg
  · rw [hook.run_eq]; exact h.at_index
  · rw [hook.run_eq]; exact h.at_null

/-- The last entry is the last in the window. -/
theorem ViewInv.last (h : ViewInv s w) {entries : List Logged} {c : Logged}
    (hentries : w.entries = entries ++ [c]) :
    s.logTail = c.answer ∧ s.last.unlinked = c ∧ ∀ d ∈ entries, d.answer ≠ c.answer := by
  have hlist := h.cursor.log.list
  rw [hentries, List.map_append, List.map_singleton] at hlist
  have htail : s.logTail = c.answer := by rw [hlist.tail_eq, List.getLastD_concat]
  have hc : c ∈ w.entries := hentries ▸ List.mem_append_right entries (List.mem_singleton_self c)
  have hentry : (s.mem s.logTail).unlinked = c.entry := by rw [htail, h.entry c hc]
  have hoperand := h.operand c (by rw [hentries, List.getLast?_concat])
  refine ⟨htail, ?_, fun d hd he => ?_⟩
  · rw [Logged.unlinked, Tracelog.last, hentry, hoperand, htail]
  · have hnodup := List.nodup_append.mp hlist.nodup
    exact hnodup.2.2 _ (List.mem_map_of_mem hd) _ (List.mem_singleton_self _) he

/-- Without an entry, nothing is filled in. -/
theorem ViewInv.hook_nil (h : ViewInv s w) (hnil : w.entries = []) (hook : TailHook) :
    ViewInv (hook.run s) w := by
  refine ⟨hook.run_cursor h.cursor, ?_, fun c hc => ?_, fun c hc => ?_, h.cycles⟩
  · rw [hook.run_eq]
    exact h.start
  · rw [hnil] at hc
    cases hc
  · rw [hnil] at hc
    cases hc

/-- The last entry is filled in, if there is one. -/
theorem ViewInv.hook (h : ViewInv s w) (hook : TailHook) :
    ViewInv (hook.run s) (w.mapLast hook.fill) := by
  obtain hnil | ⟨entries, c, hentries⟩ := w.entries.eq_nil_or_concat
  · rw [Window.mapLast_eq_self hnil]
    exact h.hook_nil hnil hook
  rw [List.concat_eq_append] at hentries
  obtain ⟨htail, hlast, hother⟩ := h.last hentries
  obtain ⟨hanswer, -, -, -, hcycles⟩ := hook.fill_keeps c
  have hunlinked := hook.fill_unlinked s.last
  rw [hlast] at hunlinked
  have hfilled := Window.entries_mapLast (f := hook.fill) hentries
  have hanswers : (w.mapLast hook.fill).entries.map Logged.answer = w.entries.map Logged.answer := by
    rw [hfilled, hentries, List.map_append, List.map_append, List.map_singleton,
      List.map_singleton, hanswer]
  have hmem : ∀ d ∈ (w.mapLast hook.fill).entries, d ∈ entries ∨ d = hook.fill c := by
    intro d hd
    rw [hfilled] at hd
    exact (List.mem_append.mp hd).imp_right List.mem_singleton.mp
  have hold : ∀ d ∈ entries, d ∈ w.entries := fun d hd => hentries ▸ List.mem_append_left [c] hd
  refine ⟨hanswers ▸ hook.run_cursor h.cursor, ?_, fun d hd => ?_, fun d hd => ?_, fun d hd => ?_⟩
  · rw [hook.run_eq]
    exact h.start
  · rw [hook.run_mem]
    rcases hmem d hd with hd | rfl
    · rw [if_neg (htail ▸ hother d hd)]
      exact h.entry d (hold d hd)
    · rw [if_pos (hanswer.trans htail.symm), hunlinked]
      rfl
  · rw [hfilled, List.getLast?_concat] at hd
    rw [← Option.some.inj hd, hunlinked, hook.run_eq]
    rfl
  · rcases hmem d hd with hd | rfl
    · exact h.cycles d (hold d hd)
    · rw [hcycles]
      exact h.cycles c (hentries ▸ List.mem_append_right entries (List.mem_singleton_self c))

/-- Scrolling up moves the cursor alone. -/
theorem scrollUp_kept (s : Tracelog) : s.scrollUp.1.mem = s.mem ∧
    s.scrollUp.1.currentOperand = s.currentOperand ∧ s.scrollUp.1.logHead = s.logHead := by
  rw [Tracelog.scrollUp]
  split <;> exact ⟨rfl, rfl, rfl⟩

/-- So does scrolling down. -/
theorem scrollDown_kept (s : Tracelog) : s.scrollDown.1.mem = s.mem ∧
    s.scrollDown.1.currentOperand = s.currentOperand ∧ s.scrollDown.1.logHead = s.logHead := by
  rw [Tracelog.scrollDown]
  split <;> exact ⟨rfl, rfl, rfl⟩

/-- The cursor moves up in the log as the window does. -/
theorem ViewInv.scrollUp (h : ViewInv s w) (hhead : s.logHead ≠ 0) :
    ViewInv s.scrollUp.1 w.up := by
  have hne : w.entries.map Logged.answer ≠ [] := h.cursor.log.head_ne_iff.mp hhead
  obtain ⟨i, hi, hindex, hcur⟩ := h.cursor.position hne
  have hstart : i = w.start := by
    have hs := h.start
    omega
  refine ⟨(h.cursor.scrollUp hne).1, ?_, fun c hc => ?_, ?_, h.cycles⟩
  · have htop : s.curSelectedEntry = s.logHead ↔ i = 0 := by
      rw [← hcur]
      exact h.cursor.log.list.getElem_eq_head_iff hi
    rw [Tracelog.scrollUp]
    show _ = ((w.start - 1 : Nat) : Int)
    by_cases hc : s.curSelectedEntry = s.logHead
    · have h0 := htop.mp hc
      rw [if_neg (not_not.mpr hc), hindex]
      omega
    · have h0 := mt htop.mpr hc
      rw [if_pos hc]
      show s.curSelectedIndex - 1 = _
      omega
  · rw [(scrollUp_kept s).1]
    exact h.entry c hc
  · rw [(scrollUp_kept s).2.1]
    exact h.operand

/-- The cursor moves down in the log as the window does. -/
theorem ViewInv.scrollDown (h : ViewInv s w) (hhead : s.logHead ≠ 0) :
    ViewInv s.scrollDown.1 w.down := by
  have hne : w.entries.map Logged.answer ≠ [] := h.cursor.log.head_ne_iff.mp hhead
  have hpos := List.length_pos_iff.mpr (h.ne_nil hhead)
  have hs := h.start
  have hlen := h.length
  refine ⟨(h.cursor.scrollDown hne).1, ?_, fun c hc => ?_, ?_, h.cycles⟩
  · rw [Tracelog.scrollDown, numPrintEntries]
    show _ = ((if w.start + 25 < w.entries.length then w.start + 1 else w.start : Nat) : Int)
    by_cases hc : w.start + 25 < w.entries.length
    · rw [if_pos hc, if_pos (by omega)]
      show s.curSelectedIndex + 1 = _
      omega
    · rw [if_neg hc, if_neg (by omega)]
      exact hs
  · rw [(scrollDown_kept s).1]
    exact h.entry c hc
  · rw [(scrollDown_kept s).2.1]
    exact h.operand

/-! ### What is printed -/

/-- The loop follows the entries one by one, as long as there are any. -/
theorem printLoop_eq {l : List Addr} (h : s.LogInv l) (n : Nat) {i : Nat} (hend : i + n ≤ l.length)
    (hn : 0 < n) (hi : i < l.length) :
    s.tracelogPrintLoop n l[i] = (l.drop i).take n := by
  induction n generalizing i with
  | zero => omega
  | succ n ih =>
      rw [Tracelog.tracelogPrintLoop, List.drop_eq_getElem_cons hi, List.take_succ_cons]
      rcases Nat.eq_zero_or_pos n with rfl | hpos
      · rfl
      · have hlast : l[i] ≠ s.logTail := fun he => by
          have := (h.list.getElem_eq_tail_iff hi).mp he
          omega
        rw [if_pos hlast, h.list.next_getElem (show i + 1 < l.length by omega),
          ih (by omega) hpos]

/-- **What is printed** are the entries in the window. -/
theorem ViewInv.printed (h : ViewInv s w) (hhead : s.logHead ≠ 0) :
    s.tracelogPrintEntries = w.shown.map Logged.answer := by
  have hne : w.entries.map Logged.answer ≠ [] := h.cursor.log.head_ne_iff.mp hhead
  have hpos := List.length_pos_iff.mpr (h.ne_nil hhead)
  obtain ⟨i, hi, hindex, hcur⟩ := h.cursor.position hne
  have hinside := w.inside
  obtain rfl : i = w.start := by
    have hs := h.start
    omega
  have hrounds : (min numPrintEntries s.currentLength + 1).toNat = min 25 w.entries.length := by
    rw [h.length, numPrintEntries]
    omega
  rw [Tracelog.tracelogPrintEntries, hrounds, ← hcur, printLoop_eq h.cursor.log _
    (by rw [List.length_map]; omega) (by omega) hi, Window.shown, List.map_take, List.map_drop]
  refine List.ext_getElem (by simp) fun r _ _ => ?_
  simp only [List.getElem_take]

end KernelNES.Emulator
