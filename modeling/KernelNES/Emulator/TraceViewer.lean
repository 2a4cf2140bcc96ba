import KernelNES.Emulator.TraceLine
import KernelNES.Emulator.TraceWindow

/-!
# Emulator — TraceViewer

The trace log on the screen.  While the emulator adds entries to the log and fills them in, keys
scroll through it; each look at the log prints the entries from the cursor on.  After each look the
rows of the screen are the lines of the entries in the window (`look_shows_window`).  This is so as
long as no entry is evicted, none of the looks finds an empty log, and the numbers of cycles have at
most four digits.
-/

namespace KernelNES.Emulator
open KernelNES.Lib KernelNES.Kernel KernelNES.Memory

/-! ### Looking at the log -/

/-- The calls of `print_tracelog_entry` in the loop of `tracelog_print_entries`; `digits i` is what
the buffer of `print_decimal` holds before, in round `i`. -/
def printTracelogEach (s : Tracelog) : (digits : Nat → Nat → U8) → List Addr →
    Exec Fault Terminal Unit
  | _, [] => pure ()
  | digits, printEntry :: rest => do
    printTracelogEntry (digits 0) (s.mem printEntry)
    printTracelogEach s (fun i => digits (i + 1)) rest

/-- `tracelog_print_entries`. -/
def printTracelogEntries (digits : Nat → Nat → U8) (s : Tracelog) : Exec Fault Terminal Unit := do
  onTerminal resetTerminal
  printTracelogEach s digits s.tracelogPrintEntries

/-- The log and the screen. -/
structure Viewer where
  log : Tracelog
  screen : Terminal

/-- What happens to them: the emulator adds an entry, or fills in the last; `scroll_up` and
`scroll_down` are called for a key, and `tracelog_print_entries` when the emulator is done. -/
inductive ViewOp where
  | add (call : AddCall)
  | hook (hook : TailHook)
  | scrollUp
  | scrollDown
  | print

/-- The log that is printed, by the calls that print it. -/
def ViewOp.look : ViewOp → Option (Tracelog → Tracelog)
  | .add _ | .hook _ => none
  | .scrollUp   => some fun s => s.scrollUp.1
  | .scrollDown => some fun s => s.scrollDown.1
  | .print      => some id

/-- A call. -/
inductive ViewStep : Viewer → ViewOp → Viewer → Prop where
  | add (v : Viewer) (call : AddCall) : ViewStep v (.add call)
      { v with log := (v.log.addTracelogEntry call.answer call.registers call.totalCPUCycles).2 }
  | hook (v : Viewer) (hook : TailHook) : ViewStep v (.hook hook) { v with log := hook.run v.log }
  | look {v : Viewer} {op : ViewOp} {move : Tracelog → Tracelog} {screen : Terminal}
      (digits : Nat → Nat → U8) (hlook : op.look = some move)
      (hprint : printTracelogEntries digits (move v.log) v.screen = .ok ((), screen)) :
      ViewStep v op ⟨move v.log, screen⟩

/-- The byte has a place in the last entry: it is the opcode, or one of two operands. -/
def TailHook.Placed : TailHook → Tracelog → Prop
  | .operand _, s => (s.mem s.logTail).opcode = 0 ∨ s.currentOperand < 2
  | _, _ => True

/-- The allocation of an entry succeeds, the entry evicts none, and its number of cycles has at most
four digits; what is filled in has a place; a look finds an entry. -/
def ViewOp.Meets (v : Viewer) : ViewOp → Prop
  | .add call => call.answer ≠ 0 ∧ v.log.evict.live call.answer = false ∧
      v.log.currentLength + 1 ≤ tracelogMaxLength ∧
      0 ≤ call.totalCPUCycles ∧ call.totalCPUCycles < 10000
  | .hook h => h.Placed v.log
  | .scrollUp | .scrollDown | .print => v.log.logHead ≠ 0

/-- What the call does to the window. -/
def ViewOp.window : ViewOp → LogWindow → LogWindow
  | .add call, w => w.push call.logged
  | .hook h, w => w.mapLast h.fill
  | .scrollUp, w => w.up
  | .scrollDown, w => w.down
  | .print, w => w

/-- The window after the calls. -/
def windowAfter (ops : List ViewOp) : LogWindow := ops.foldl (fun w op => op.window w) .empty

/-- One call more. -/
theorem windowAfter_snoc (ops : List ViewOp) (op : ViewOp) :
    windowAfter (ops ++ [op]) = op.window (windowAfter ops) := List.foldl_append

/-! ### One look -/

variable {s : Tracelog} {w : LogWindow}

/-- Each entry prints as its line. -/
theorem printTracelogEach_prints (digits : Nat → Nat → U8) {l : List Addr}
    (h : ∀ a ∈ l, 0 ≤ (s.mem a).totalCPUCycles ∧ (s.mem a).totalCPUCycles < 10000) (t : Terminal) :
    printTracelogEach s digits l t =
      .ok ((), t.after (print (text (l.map fun a => line (s.mem a))))) := by
  induction l generalizing digits t with
  | nil => rfl
  | cons a l ih =>
      obtain ⟨h0, hlt⟩ := h a List.mem_cons_self
      have hdigits : (10 : Nat) ^ digitsSize = 100000000 := rfl
      have hentry := printTracelogEntry_prints (digits 0) h0 (by omega) t
      have hrest := ih (fun i => digits (i + 1)) (fun b hb => h b (List.mem_cons_of_mem a hb))
        (t.after (print (line (s.mem a) ++ [char '\n'])))
      rw [List.map_cons, text, List.flatMap_cons, Terminal.print_append]
      exact (Exec.bind_ok hentry).trans hrest

/-- The lines in the window. -/
def LogWindow.lines (w : LogWindow) : List (List U8) := w.shown.map fun c => line c.entry

/-- The lines of the window are those of its entries. -/
theorem LogWindow.lines_getD (w : LogWindow) {r : Nat} (hr : r < w.lines.length) :
    w.lines[r] = line ((w.shown.map Logged.entry).getD r .zero) := by
  have hshown : r < w.shown.length := by simpa [LogWindow.lines] using hr
  simp [LogWindow.lines, hshown]

/-- A line says nothing of the links. -/
theorem line_unlinked (e : TracelogEntry) : line e.unlinked = line e := rfl

/-- The lines of the window fit on the screen. -/
theorem ViewInv.fits (h : ViewInv s w) : ∀ l ∈ w.lines, Fits l := by
  intro l hl
  obtain ⟨c, hc, rfl⟩ := List.mem_map.mp hl
  exact line_fits (h.cycles c (Window.mem_of_mem_shown hc)).2

/-- **A look** at the log prints those lines from the top of the screen. -/
theorem ViewInv.prints (h : ViewInv s w) (hhead : s.logHead ≠ 0) (digits : Nat → Nat → U8)
    (t : Terminal) : printTracelogEntries digits s t =
      .ok ((), (t.after resetTerminal).after (print (text w.lines))) := by
  have hreset : onTerminal resetTerminal t = .ok ((), t.after resetTerminal) := rfl
  have hcycles : ∀ a ∈ w.shown.map Logged.answer,
      0 ≤ (s.mem a).totalCPUCycles ∧ (s.mem a).totalCPUCycles < 10000 := by
    intro a ha
    obtain ⟨c, hc, rfl⟩ := List.mem_map.mp ha
    have hmem := Window.mem_of_mem_shown hc
    have hcycles := h.cycles c hmem
    rw [← h.entry c hmem] at hcycles
    exact hcycles
  have hlines : (w.shown.map Logged.answer).map (fun a => line (s.mem a)) = w.lines := by
    rw [List.map_map]
    refine List.map_congr_left fun c hc => ?_
    rw [Function.comp_apply, ← line_unlinked, h.entry c (Window.mem_of_mem_shown hc)]
  rw [printTracelogEntries, h.printed hhead]
  refine (Exec.bind_ok hreset).trans ((printTracelogEach_prints digits hcycles _).trans ?_)
  rw [hlines]

/-! ### Every run -/

/-- The rows of the screen `t'`, from the top, are the lines in the window.  But for one cell, the
screen is as it was from there on. -/
structure Shows (w : LogWindow) (t t' : Terminal) : Prop where
  row : ∀ (r : Nat) (hr : r < w.lines.length), t'.row r = rowOf w.lines[r]
  below : ∀ k, w.lines.length * vgaWidth < k → t'.videoMem k = t.videoMem k

/-- What a look prints. -/
theorem ViewInv.shows (h : ViewInv s w) (hhead : s.logHead ≠ 0) (t : Terminal) :
    Shows w t ((t.after resetTerminal).after (print (text w.lines))) := by
  have htop : (t.after resetTerminal).AtRow 0 := ⟨rfl, rfl⟩
  have hlen : w.lines.length = w.shown.length := List.length_map _
  have hshown := w.length_shown
  have hpos := List.length_pos_iff.mpr (h.ne_nil hhead)
  refine ⟨fun r hr => ?_, fun k hk => ?_⟩
  · have hrow := htop.row_text (by omega) h.fits hr
    rwa [Nat.zero_add] at hrow
  · have hne : w.lines ≠ [] := List.length_pos_iff.mp (by omega)
    rw [(htop.print_text hne (by omega) h.fits).2, stored_outside]
    · rfl
    · right
      rw [List.length_append, length_rows h.fits, List.length_singleton]
      omega

/-- A look moves the cursor as it moves the window, and finds an entry there. -/
theorem ViewInv.moved {v : Viewer} {op : ViewOp} {move : Tracelog → Tracelog}
    (h : ViewInv v.log w) (hlook : op.look = some move) (hmeets : op.Meets v) :
    ViewInv (move v.log) (op.window w) ∧ (move v.log).logHead ≠ 0 := by
  cases op with
  | add | hook => cases hlook
  | scrollUp =>
      cases hlook
      exact ⟨h.scrollUp hmeets, (scrollUp_kept v.log).2.2 ▸ hmeets⟩
  | scrollDown =>
      cases hlook
      exact ⟨h.scrollDown hmeets, (scrollDown_kept v.log).2.2 ▸ hmeets⟩
  | print =>
      cases hlook
      exact ⟨h, hmeets⟩

/-- **One look**: it comes to an end, and then the screen shows the window. -/
theorem ViewInv.look {v : Viewer} {op : ViewOp} {move : Tracelog → Tracelog}
    (h : ViewInv v.log w) (hlook : op.look = some move) (hmeets : op.Meets v) :
    (∃ v', ViewStep v op v') ∧ ∀ v', ViewStep v op v' →
      ViewInv v'.log (op.window w) ∧ Shows (op.window w) v.screen v'.screen := by
  obtain ⟨hinv, hhead⟩ := h.moved hlook hmeets
  refine ⟨⟨_, .look (fun _ _ => 0) hlook (hinv.prints hhead _ _)⟩, fun v' hstep => ?_⟩
  cases hstep with
  | add | hook => cases hlook
  | look digits hlook' hprint =>
      cases hlook.symm.trans hlook'
      rw [hinv.prints hhead] at hprint
      cases hprint
      exact ⟨hinv, hinv.shows hhead v.screen⟩

/-- **One call**: the log stays the one in the window. -/
theorem ViewInv.step {v v' : Viewer} {op : ViewOp} (h : ViewInv v.log w)
    (hstep : Meeting (fun v op => op.Meets v) ViewStep v op v') :
    ViewInv v'.log (op.window w) := by
  obtain ⟨hmeets, hstep⟩ := hstep
  cases hstep with
  | add call =>
      obtain ⟨ha, hfresh, hroom, hcycles⟩ := hmeets
      exact h.add ha hfresh hroom hcycles
  | hook hook => exact h.hook hook
  | look digits hlook hprint =>
      exact ((h.look hlook hmeets).2 _ (.look digits hlook hprint)).1

/-- A run of calls keeps the window. -/
theorem viewInv_of_run {mem : Addr → TracelogEntry} {t : Terminal} {ops : List ViewOp} {v : Viewer}
    (hrun : Run (Meeting (fun v op => op.Meets v) ViewStep) ⟨.empty mem, t⟩ ops v) :
    ViewInv v.log (windowAfter ops) := by
  induction hrun with
  | nil => exact viewInv_empty mem
  | snoc _ hstep ih =>
      rw [windowAfter_snoc]
      exact ih.step hstep

/-- **The rows of the screen are the lines of the window.**  After any calls from the empty log, each
of them meeting its condition, a look at the log comes to an end and leaves on the screen, from its
top, the lines of the entries in the window: 25 of them or as many as there are, from the entry to
which the keys have moved, each with what has been filled in. -/
theorem look_shows_window {mem : Addr → TracelogEntry} {t : Terminal} {ops : List ViewOp}
    {v : Viewer} {op : ViewOp} {move : Tracelog → Tracelog}
    (hrun : Run (Meeting (fun v op => op.Meets v) ViewStep) ⟨.empty mem, t⟩ ops v)
    (hlook : op.look = some move) (hmeets : op.Meets v) :
    (∃ v', ViewStep v op v') ∧
      ∀ v', ViewStep v op v' → Shows (windowAfter (ops ++ [op])) v.screen v'.screen := by
  obtain ⟨hend, hshows⟩ := (viewInv_of_run hrun).look hlook hmeets
  refine ⟨hend, fun v' hstep => ?_⟩
  rw [windowAfter_snoc]
  exact (hshows v' hstep).2

/-- The emulator's part of the run. -/
def Viewer.next (v : Viewer) : ViewOp → Viewer
  | .add call =>
    { v with log := (v.log.addTracelogEntry call.answer call.registers call.totalCPUCycles).2 }
  | .hook hook => { v with log := hook.run v.log }
  | _ => v

/-- An entry is added, or an opcode filled in. -/
def Viewer.ready (v : Viewer) : ViewOp → Bool
  | .add call => call.answer ≠ 0 && !v.log.evict.live call.answer &&
      v.log.currentLength + 1 ≤ tracelogMaxLength &&
      0 ≤ call.totalCPUCycles && call.totalCPUCycles < 10000
  | .hook (.operand _) => (v.log.mem v.log.logTail).opcode = 0
  | _ => false

theorem Viewer.next_meets (v : Viewer) (op : ViewOp) (h : v.ready op = true) :
    Meeting (fun v op => op.Meets v) ViewStep v op (v.next op) := by
  cases op with
  | add call =>
      simp only [ready, Bool.and_eq_true, decide_eq_true_eq, Bool.not_eq_true'] at h
      obtain ⟨⟨⟨⟨ha, hfresh⟩, hroom⟩, h0⟩, hlt⟩ := h
      exact ⟨⟨ha, hfresh, hroom, h0, hlt⟩, .add v call⟩
  | hook hook =>
      cases hook with
      | operand byte => exact ⟨.inl (of_decide_eq_true h), .hook v _⟩
      | _ => cases h
  | _ => cases h

/-- The calls for a `NOP`, the `n`-th of a program of them. -/
def nop (n : Nat) : List ViewOp :=
  [.add ⟨BitVec.ofNat 32 (n + 1), ⟨0x01, 0x02, 0x03, 0x24, 0xFD, 0x8000 + BitVec.ofNat 16 n⟩,
    8 + 2 * n⟩, .hook (.operand 0xEA)]

/-- The calls for the first 27 of them. -/
def nops : List ViewOp := (List.range 27).flatMap nop

/-- The entry in row `r` when S is pressed behind them. -/
def scrolledEntry (r : Nat) : TracelogEntry :=
  ((windowAfter (nops ++ [.scrollDown])).shown.map Logged.entry).getD r .zero

/-- S is pressed behind them: the window has moved to the second. -/
theorem nops_scrolled :
    ∃ v', ViewStep (nops.foldl Viewer.next ⟨.empty fun _ => .zero, .atBoot fun _ => 0⟩) .scrollDown
        v' ∧
      v'.screen.row 0 = rowOf
        (cstr "8001 EA  NOP                        A:01 X:02 Y:03 S:FD P:nv--dIzc Cycle:10") ∧
      v'.screen.row 24 = rowOf
        (cstr "8019 EA  NOP                        A:01 X:02 Y:03 S:FD P:nv--dIzc Cycle:58") := by
  have hrun : Run (Meeting (fun v op => op.Meets v) ViewStep)
      ⟨.empty fun _ => .zero, .atBoot fun _ => 0⟩ nops
      (nops.foldl Viewer.next ⟨.empty fun _ => .zero, .atBoot fun _ => 0⟩) :=
    Run.of_allAlong Viewer.next_meets (by decide +kernel)
  have hhead :
      (nops.foldl Viewer.next ⟨.empty fun _ => .zero, .atBoot fun _ => 0⟩).log.logHead ≠ 0 := by
    decide +kernel
  obtain ⟨⟨v', hstep⟩, hshows⟩ :=
    look_shows_window hrun (show ViewOp.scrollDown.look = _ from rfl) hhead
  have hlen : (windowAfter (nops ++ [.scrollDown])).lines.length = 25 := by decide +kernel
  have hrow : ∀ (r : Nat) {n : Nat}, r < 25 → (scrolledEntry r).totalCPUCycles.toNat = n →
      v'.screen.row r = rowOf (stateText (scrolledEntry r) ++ decimal n) := by
    rintro r _ hr rfl
    rw [(hshows v' hstep).row r (by omega), LogWindow.lines_getD]
    rfl
  have hfirst : decimal 10 = cstr "10" := by simp [decimal, digit, cstr, char]
  have hlast : decimal 58 = cstr "58" := by simp [decimal, digit, cstr, char]
  refine ⟨v', hstep, ?_, ?_⟩
  · rw [hrow 0 (n := 10) (by decide) (by decide +kernel), hfirst]
    exact congrArg rowOf (by decide +kernel)
  · rw [hrow 24 (n := 58) (by decide) (by decide +kernel), hlast]
    exact congrArg rowOf (by decide +kernel)

end KernelNES.Emulator
