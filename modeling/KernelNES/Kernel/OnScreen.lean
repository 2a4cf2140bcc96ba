import KernelNES.Kernel.Terminal
import KernelNES.Lib.Frame
import Mathlib.Data.List.Induction

/-!
# Kernel — OnScreen

Which sequences of `print` and `reset_terminal` keep every character in its row and on the screen.
A newline never does: the loop that blanks the rest of the row writes the first cell of the row
below as well.  Other characters take one cell each, so a row is never left, and the screen is left
by the character that finds all its cells taken.
-/

namespace KernelNES.Kernel
open KernelNES.Lib

/-- A call that prints, or goes back to the top of the screen. -/
inductive Call where
  | print (str : List U8)
  | resetTerminal
  deriving DecidableEq

/-- The function called. -/
def Call.run : Call → StateM Terminal Unit
  | .print str => Kernel.print str
  | .resetTerminal => Kernel.resetTerminal

/-- The calls, one after the other. -/
def runCalls : List Call → StateM Terminal Unit
  | [] => pure ()
  | call :: calls => do
    call.run
    runCalls calls

/-- The screen when the calls `done` have returned since `terminal_initialize`, and the characters
`str` of one more have been printed. -/
def screenAt (mem : Nat → U16) (done : List Call) (str : List U8) : Terminal :=
  (((Terminal.atBoot mem).after terminalInitialize).after (runCalls done)).after (print str)

/-- The indices into `video_mem` at which the character `c` is written. -/
def cellsOf (c : U8) (t : Terminal) : List Nat :=
  (t.after (terminalWritechar c 15)).stores.drop t.stores.length

/-- Every character of the calls stays on the screen, and in its row. -/
structure StaysOnScreen (mem : Nat → U16) (calls : List Call) : Prop where
  /-- The column is one of the row's, between the characters of a string … -/
  col_lt : ∀ done str str' todo, calls = done ++ .print (str ++ str') :: todo →
    (screenAt mem done str).terminalCol.toNat < vgaWidth
  /-- … and between the calls. -/
  col_lt_call : ∀ done todo, calls = done ++ todo →
    (screenAt mem done []).terminalCol.toNat < vgaWidth
  /-- A character is written in the row it finds the cursor in, from the cursor on. -/
  in_row : ∀ done str c str' todo, calls = done ++ .print (str ++ c :: str') :: todo →
    ∀ k ∈ cellsOf c (screenAt mem done str), ∃ x,
      (screenAt mem done str).terminalCol.toNat ≤ x ∧ x < vgaWidth ∧
        k = (screenAt mem done str).terminalRow.toNat * vgaWidth + x
  /-- Nothing is written behind the screen. -/
  on_screen : ∀ k ∈ (screenAt mem calls []).stores, k < vgaWidth * vgaHeight

/-- How many characters have been printed since the cursor was last reset. -/
def sinceReset : List Call → Nat :=
  List.foldl (fun n call => match call with
    | .print str => n + str.length
    | .resetTerminal => 0) 0

/-- The calls print no newline, and no more than a screenful between two resets. -/
structure FitsScreen (calls : List Call) : Prop where
  no_newline : ∀ str, .print str ∈ calls → char '\n' ∉ str
  screenful : ∀ done todo, calls = done ++ todo → sinceReset done ≤ vgaWidth * vgaHeight

/-! ### What is stored stays stored -/

section
variable {k : Nat}

theorem keeps_putchar (x y : Nat) (c colour : U8) :
    Keeps (k ∈ ·.stores) (terminalPutchar x y c colour) :=
  fun _ h => List.mem_append_left _ h

theorem keeps_fillRow (tempCol : Nat) : Keeps (k ∈ ·.stores) (fillRow tempCol) := by
  intro t h
  obtain ⟨mem, ht⟩ := Terminal.after_fillRow (t := t) tempCol
  show k ∈ (t.after (fillRow tempCol)).stores
  rw [ht]
  exact List.mem_append_left _ h

theorem keeps_writechar (c colour : U8) :
    Keeps (k ∈ ·.stores) (terminalWritechar c colour) := by
  refine .bind (fun _ h => h) fun _ => .ite ?_ ?_
  · exact .bind (fun _ h => h) fun _ => .bind (keeps_fillRow _) fun _ _ h => h
  · refine .bind (fun _ h => h) fun _ => .bind (keeps_putchar _ _ _ _) fun _ => ?_
    exact .bind (fun _ h => h) fun _ => .bind (fun _ h => h) fun _ =>
      .ite (fun _ h => h) fun _ h => h

/-- Printing takes back no store. -/
theorem keeps_print (str : List U8) : Keeps (k ∈ ·.stores) (print str) := by
  induction str with
  | nil => exact fun _ h => h
  | cons c str ih => exact .bind (keeps_writechar c 15) fun _ => ih

theorem keeps_runCalls (calls : List Call) : Keeps (k ∈ ·.stores) (runCalls calls) := by
  induction calls with
  | nil => exact fun _ h => h
  | cons call calls ih =>
      refine .bind ?_ fun _ => ih
      cases call with
      | print str => exact keeps_print str
      | resetTerminal => exact fun _ h => h

end

/-! ### The screen between the characters -/

variable {mem : Nat → U16} {calls done todo : List Call} {str : List U8}

/-- The calls, one list behind the other. -/
theorem runCalls_append (t : Terminal) (done todo : List Call) :
    t.after (runCalls (done ++ todo)) = (t.after (runCalls done)).after (runCalls todo) := by
  induction done generalizing t with
  | nil => rfl
  | cons call done ih => exact ih (t.after call.run)

theorem screenAt_append (done : List Call) (str₁ str₂ : List U8) :
    screenAt mem done (str₁ ++ str₂) = (screenAt mem done str₁).after (print str₂) := by
  rw [screenAt, Terminal.print_append, ← screenAt]

/-- The screen when a call is made. -/
theorem screenAt_nil (done : List Call) (str : List U8) :
    screenAt mem done str = (screenAt mem done []).after (print str) :=
  screenAt_append done [] str

/-- A call that has returned. -/
theorem screenAt_snoc (done : List Call) (call : Call) :
    screenAt mem (done ++ [call]) [] = (screenAt mem done []).after call.run := by
  simp only [screenAt, runCalls_append, runCalls, print, Terminal.after_bind, Terminal.after_pure]

theorem screenAt_todo (done todo : List Call) :
    screenAt mem (done ++ todo) [] = (screenAt mem done []).after (runCalls todo) := by
  simp only [screenAt, runCalls_append, print, Terminal.after_pure]

theorem mem_stores_screenAt {k : Nat} (h : k ∈ (screenAt mem done str).stores)
    (str' : List U8) (todo : List Call) :
    k ∈ (screenAt mem (done ++ .print (str ++ str') :: todo) []).stores := by
  rw [screenAt_todo, runCalls, Terminal.after_bind, Call.run, ← screenAt_nil, screenAt_append]
  exact keeps_runCalls todo _ (keeps_print str' _ h)

/-- The screen `terminal_initialize` leaves: nothing behind it has been written. -/
structure Initialized (t : Terminal) : Prop where
  on_screen : ∀ k ∈ t.stores, k < vgaWidth * vgaHeight
  row : t.terminalRow = 0
  col : t.terminalCol = 0

theorem initialized (mem : Nat → U16) :
    Initialized ((Terminal.atBoot mem).after terminalInitialize) := by
  refine Keeps.forM ?_ _ ⟨nofun, rfl, rfl⟩
  intro y hy
  refine Keeps.forM fun x hx t ht => ⟨fun k hk => ?_, ht.row, ht.col⟩
  rcases List.mem_append.mp hk with hk | hk
  · exact ht.on_screen k hk
  · rw [List.mem_range] at hx hy
    rw [List.mem_singleton.mp hk]
    simp only [vgaWidth, vgaHeight] at hx hy ⊢
    omega

/-- A call leaves the column on the screen. -/
theorem terminalCol_run {t : Terminal} (h : t.terminalCol.toNat < vgaWidth) (call : Call) :
    (t.after call.run).terminalCol.toNat < vgaWidth := by
  cases call with
  | print str => exact Terminal.terminalCol_print h str
  | resetTerminal => exact Nat.zero_lt_succ 79

theorem screenAt_start (mem : Nat → U16) :
    screenAt mem [] [] = (Terminal.atBoot mem).after terminalInitialize := by
  rw [screenAt, runCalls, print, Terminal.after_pure, Terminal.after_pure]

/-- The column is always one of the row's. -/
theorem terminalCol_screenAt (mem : Nat → U16) (done : List Call) (str : List U8) :
    (screenAt mem done str).terminalCol.toNat < vgaWidth := by
  rw [screenAt_nil]
  refine Terminal.terminalCol_print ?_ str
  induction done using List.reverseRecOn with
  | nil =>
      rw [screenAt_start, (initialized mem).col]
      decide
  | append_singleton done call ih =>
      rw [screenAt_snoc]
      exact terminalCol_run ih call

/-! ### What fits -/

theorem sinceReset_print (done : List Call) (str : List U8) :
    sinceReset (done ++ [.print str]) = sinceReset done + str.length := by
  rw [sinceReset, List.foldl_append]
  rfl

theorem FitsScreen.of_append (h : FitsScreen (done ++ todo)) : FitsScreen done where
  no_newline := fun str hstr => h.no_newline str (List.mem_append_left _ hstr)
  screenful := fun done' todo' e => h.screenful done' (todo' ++ todo) (by rw [e, List.append_assoc])

/-- The cursor counts the characters since it was reset. -/
theorem FitsScreen.position (h : FitsScreen done) (mem : Nat → U16) :
    (screenAt mem done []).position = sinceReset done := by
  induction done using List.reverseRecOn with
  | nil =>
      rw [screenAt_start, Terminal.position, (initialized mem).row, (initialized mem).col]
      rfl
  | append_singleton done call ih =>
      have hpos := ih h.of_append
      have hle := h.screenful (done ++ [call]) [] (by simp)
      rw [screenAt_snoc]
      cases call with
      | resetTerminal =>
          simp [Call.run, resetTerminal, Terminal.position, sinceReset]
      | print str =>
          have hnl := h.no_newline str (by simp)
          rw [sinceReset_print] at hle ⊢
          rw [← hpos] at hle ⊢
          exact Terminal.position_print (terminalCol_screenAt mem done []) hnl hle

/-- One character. -/
theorem print_singleton (t : Terminal) (c : U8) :
    t.after (print [c]) = t.after (terminalWritechar c 15) := rfl

/-- Without newlines, each character is stored at the next cell. -/
theorem stores_print {t : Terminal} (h : t.terminalCol.toNat < vgaWidth) (hs : char '\n' ∉ str)
    (hr : t.position + str.length ≤ vgaWidth * vgaHeight) :
    (t.after (print str)).stores = t.stores ++ List.range' t.position str.length := by
  induction str using List.reverseRecOn with
  | nil => simp [print]
  | append_singleton str c ih =>
      rw [List.length_append, List.length_singleton] at hr
      obtain ⟨hs, hc⟩ : char '\n' ∉ str ∧ char '\n' ≠ c := by simpa [not_or] using hs
      rw [Terminal.print_append, print_singleton, Terminal.stores_writechar (Ne.symm hc),
        ih hs (by omega), Terminal.position_print h hs (by omega), List.length_append,
        List.length_singleton,
        List.range'_concat, List.append_assoc, Nat.one_mul]

/-- Going back to the top stores nothing. -/
theorem stores_reset (t : Terminal) : (t.after resetTerminal).stores = t.stores := rfl

theorem cellsOf_char {c : U8} (hc : c ≠ char '\n') (t : Terminal) : cellsOf c t = [t.position] := by
  rw [cellsOf, Terminal.stores_writechar hc, List.drop_left]

/-- A newline writes the first cell of the next row. -/
theorem mem_cellsOf_newline {t : Terminal} (h : t.terminalCol.toNat < vgaWidth) :
    t.terminalRow.toNat * vgaWidth + vgaWidth ∈ cellsOf (char '\n') t := by
  rw [cellsOf, Terminal.stores_newline, List.drop_left]
  exact List.mem_map.mpr ⟨vgaWidth, List.mem_range'_1.mpr ⟨by omega, by omega⟩, rfl⟩

/-- Calls that fit store inside the screen. -/
theorem FitsScreen.on_screen (h : FitsScreen done) :
    ∀ k ∈ (screenAt mem done []).stores, k < vgaWidth * vgaHeight := by
  induction done using List.reverseRecOn with
  | nil =>
      rw [screenAt_start]
      exact (initialized mem).on_screen
  | append_singleton done call ih =>
      rw [screenAt_snoc]
      cases call with
      | resetTerminal =>
          rw [Call.run, stores_reset]
          exact ih h.of_append
      | print str =>
          have hle := h.screenful (done ++ [.print str]) [] (by simp)
          rw [sinceReset_print, ← h.of_append.position mem] at hle
          intro k hk
          rw [Call.run, stores_print (terminalCol_screenAt mem done []) (h.no_newline str (by simp))
            hle] at hk
          rcases List.mem_append.mp hk with hk | hk
          · exact ih h.of_append k hk
          · have hk' := (List.mem_range'_1.mp hk).2
            omega

/-- Calls that fit stay on the screen. -/
theorem FitsScreen.staysOnScreen (h : FitsScreen calls) : StaysOnScreen mem calls where
  col_lt := fun done str _ _ _ => terminalCol_screenAt mem done str
  col_lt_call := fun done _ _ => terminalCol_screenAt mem done []
  in_row := by
    intro done str c str' todo hcalls k hk
    have hnl := h.no_newline (str ++ c :: str') (by simp [hcalls])
    have hc : c ≠ char '\n' := fun e => hnl (by simp [e])
    rw [cellsOf_char hc, List.mem_singleton] at hk
    exact ⟨_, le_rfl, terminalCol_screenAt mem done str, hk⟩
  on_screen := h.on_screen

/-- Calls that stay on the screen print no newline. -/
theorem StaysOnScreen.no_newline (h : StaysOnScreen mem calls) (hstr : .print str ∈ calls) :
    char '\n' ∉ str := by
  intro hnl
  obtain ⟨done, todo, rfl⟩ := List.append_of_mem hstr
  obtain ⟨s₁, s₂, rfl⟩ := List.append_of_mem hnl
  obtain ⟨x, -, hx, hk⟩ := h.in_row done s₁ _ s₂ todo rfl _
    (mem_cellsOf_newline (terminalCol_screenAt mem done s₁))
  omega

/-- The character behind a screenful is stored behind the screen. -/
theorem StaysOnScreen.screenful (h : StaysOnScreen mem (done ++ .print str :: todo))
    (hfits : FitsScreen done) : sinceReset done + str.length ≤ vgaWidth * vgaHeight := by
  have hle := hfits.screenful done [] (List.append_nil done).symm
  by_contra hgt
  obtain ⟨n, hn⟩ : ∃ n, sinceReset done + n = vgaWidth * vgaHeight := ⟨_, Nat.add_sub_of_le hle⟩
  have hlt : n < str.length := by omega
  have hnl : char '\n' ∉ str := h.no_newline (by simp)
  -- the first `n` characters fill the screen, and the next one is `str[n]`
  have hsplit : str = (str.take n ++ [str[n]]) ++ str.drop (n + 1) := by simp
  have hfirst : (screenAt mem done (str.take n)).position = vgaWidth * vgaHeight := by
    have hnl' : char '\n' ∉ str.take n := fun hm => hnl (List.mem_of_mem_take hm)
    rw [screenAt_nil, Terminal.position_print (terminalCol_screenAt mem done []) hnl',
      hfits.position mem, List.length_take_of_le hlt.le, hn]
    rw [hfits.position mem, List.length_take_of_le hlt.le, hn]
  have hmem : vgaWidth * vgaHeight ∈ (screenAt mem done (str.take n ++ [str[n]])).stores := by
    rw [screenAt_append, print_singleton,
      Terminal.stores_writechar (fun e => hnl (e ▸ List.getElem_mem hlt)), hfirst]
    simp
  have hfinal := mem_stores_screenAt hmem (str.drop (n + 1)) todo
  rw [← hsplit] at hfinal
  exact absurd (h.on_screen _ hfinal) (lt_irrefl _)

/-- Calls that stay on the screen fit. -/
theorem StaysOnScreen.fits {todo : List Call} (h : StaysOnScreen mem (done ++ todo)) :
    FitsScreen done := by
  induction done using List.reverseRecOn generalizing todo with
  | nil =>
      refine ⟨nofun, fun done' todo' e => ?_⟩
      rw [(List.append_eq_nil_iff.mp e.symm).1]
      exact Nat.zero_le _
  | append_singleton done call ih =>
      rw [List.append_assoc] at h
      have hfits := ih h
      refine ⟨fun str hstr => h.no_newline (by simp at hstr ⊢; tauto), fun done' todo' e => ?_⟩
      -- a prefix of the calls is a prefix of those before the last, or all of them
      rcases List.eq_nil_or_concat todo' with rfl | ⟨todo', last, rfl⟩
      · rw [List.append_nil] at e
        rw [← e]
        cases call with
        | resetTerminal => simp [sinceReset]
        | print str =>
            rw [sinceReset_print]
            exact h.screenful hfits
      · rw [List.concat_eq_append, ← List.append_assoc] at e
        exact hfits.screenful done' todo' (List.append_inj_left' e rfl)

/-- **Output stays on the screen, and in its row, exactly when no newline is printed and no more
than a screenful between two resets.** -/
theorem staysOnScreen_iff (mem : Nat → U16) (calls : List Call) :
    StaysOnScreen mem calls ↔ FitsScreen calls :=
  ⟨fun h => StaysOnScreen.fits ((List.append_nil calls).symm ▸ h), FitsScreen.staysOnScreen⟩

/-- The first newline printed blanks a cell of the row below. -/
theorem newline_leaves_row : ¬ StaysOnScreen (fun _ => 0) [.print (cstr "\n")] := fun h =>
  h.no_newline List.mem_cons_self List.mem_cons_self

end KernelNES.Kernel
