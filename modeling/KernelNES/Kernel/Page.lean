import KernelNES.Kernel.Terminal
import Mathlib.Data.List.GetD

/-!
# Kernel — Page

What the screen shows once lines have been printed on it.  A printed string is stored cell by cell
from the cursor on (`videoMem_print`), and a newline blanks the rest of its row and the first cell of
the next (`videoMem_newline`), which the next line writes over.  So lines that are shorter than a
row, each with its newline, leave one row each, and the rows are all that has changed but for one
cell behind them (`AtRow.print_text`).

`Prints x str` says that the program `x` prints the string `str`.
-/

namespace KernelNES.Kernel
open KernelNES.Lib

/-! ### Cells in a row -/

/-- The memory `mem` with `cells` stored from `k` on. -/
def stored (mem : Nat → U16) (k : Nat) (cells : List U16) : Nat → U16 := fun j =>
  if k ≤ j then cells.getD (j - k) (mem j) else mem j

section
variable {mem : Nat → U16} {k : Nat} {a b c : List U16}

@[simp] theorem stored_nil : stored mem k [] = mem := by
  funext j
  simp [stored]

theorem stored_singleton (v : U16) : stored mem k [v] = Function.update mem k v := by
  funext j
  by_cases hj : j = k
  · simp [stored, hj]
  · rw [Function.update_of_ne hj, stored]
    split
    · rw [List.getD_eq_default _ _ (by simp; omega)]
    · rfl

/-- A cell of what was stored. -/
theorem stored_inside {j : Nat} (hj : j < a.length) : stored mem k a (k + j) = a[j] := by
  rw [stored, if_pos (Nat.le_add_right k j), Nat.add_sub_cancel_left, List.getD_eq_getElem a _ hj]

/-- A cell of what was there before. -/
theorem stored_outside {j : Nat} (hj : j < k ∨ k + a.length ≤ j) : stored mem k a j = mem j := by
  rw [stored]
  split
  · exact List.getD_eq_default _ _ (by omega)
  · rfl

/-- What is stored behind `a` is stored over what stood there. -/
theorem stored_append (h : b.length ≤ c.length) :
    stored (stored mem k (a ++ b)) (k + a.length) c = stored mem k (a ++ c) := by
  funext j
  rcases Nat.lt_or_ge j (k + a.length) with hj | hj
  · rw [stored_outside (.inl hj)]
    simp only [stored]
    split
    · rw [List.getD_append _ _ _ _ (by omega), List.getD_append _ _ _ _ (by omega)]
    · rfl
  · obtain ⟨i, rfl⟩ := Nat.exists_eq_add_of_le hj
    have hi : k + a.length + i - k = a.length + i := by omega
    rcases Nat.lt_or_ge i c.length with hlt | hge
    · rw [stored_inside hlt, stored, if_pos (by omega), hi,
        List.getD_append_right _ _ _ _ (by omega), Nat.add_sub_cancel_left,
        List.getD_eq_getElem c _ hlt]
    · rw [stored_outside (.inr (by omega)), stored_outside (.inr (by simp; omega)),
        stored_outside (.inr (by simp; omega))]

/-- The first word, and the rest behind it. -/
theorem stored_cons (v : U16) :
    stored (Function.update mem k v) (k + 1) a = stored mem k (v :: a) := by
  rw [← stored_singleton]
  exact stored_append (a := [v]) (b := []) (Nat.zero_le _)

end

/-! ### Rows -/

/-- A cell with nothing in it. -/
def blank : U16 := terminalMakeChar (char ' ') 0

/-- The cells of a string. -/
def cells (str : List U8) : List U16 := str.map (terminalMakeChar · 15)

/-- What a row shows with `line` in it, and nothing else. -/
def rowOf (line : List U8) : List U16 :=
  cells line ++ List.replicate (vgaWidth - line.length) blank

/-- The lines, each with its newline. -/
def text (lines : List (List U8)) : List U8 := lines.flatMap (· ++ [char '\n'])

@[simp] theorem length_cells (str : List U8) : (cells str).length = str.length := List.length_map _

/-- A row is as wide as the screen. -/
theorem length_rowOf {line : List U8} (h : line.length ≤ vgaWidth) :
    (rowOf line).length = vgaWidth := by
  rw [rowOf, List.length_append, length_cells, List.length_replicate]
  omega

/-- The line is shorter than a row, and has no newline in it. -/
structure Fits (line : List U8) : Prop where
  length : line.length < vgaWidth
  no_newline : char '\n' ∉ line

theorem length_rows {lines : List (List U8)} (hlines : ∀ line ∈ lines, Fits line) :
    (lines.flatMap rowOf).length = lines.length * vgaWidth := by
  induction lines with
  | nil => exact (Nat.zero_mul _).symm
  | cons line lines ih =>
      rw [List.flatMap_cons, List.length_append, List.length_cons, Nat.succ_mul,
        length_rowOf (hlines line List.mem_cons_self).length.le,
        ih fun l hl => hlines l (List.mem_cons_of_mem line hl), Nat.add_comm]

namespace Terminal
variable {t : Terminal} {y : Nat} {str line : List U8} {lines : List (List U8)}

/-- What is in a row of the screen. -/
def row (t : Terminal) (y : Nat) : List U16 :=
  (List.range vgaWidth).map fun x => t.videoMem (y * vgaWidth + x)

/-- The rest of a row, and the cell behind it. -/
theorem videoMem_fillRow (tempCol : Nat) : (t.after (fillRow tempCol)).videoMem =
    stored t.videoMem (t.terminalRow.toNat * vgaWidth + tempCol)
      (List.replicate (vgaWidth + 1 - tempCol) blank) := by
  induction h : vgaWidth + 1 - tempCol generalizing tempCol t with
  | zero =>
      rw [fillRow, if_neg (by omega), after_pure, List.replicate_zero, stored_nil]
  | succ n ih =>
      rw [fillRow, if_pos (by omega), after_get_bind, after_bind, ih _ (by omega), after_putchar,
        List.replicate_succ]
      exact stored_cons blank

/-- **A newline** blanks the rest of its row, and the first cell of the next. -/
theorem videoMem_newline (colour : U8) :
    (t.after (terminalWritechar (char '\n') colour)).videoMem =
      stored t.videoMem t.position
        (List.replicate (vgaWidth + 1 - t.terminalCol.toNat) blank) := by
  simp only [terminalWritechar, after_bind, after_get_bind, after_modify, if_pos]
  exact videoMem_fillRow (t := { t with output := t.output ++ [(char '\n', colour)] })
    t.terminalCol.toNat

/-- Where a newline leaves the cursor. -/
theorem row_newline (colour : U8) :
    (t.after (terminalWritechar (char '\n') colour)).terminalRow = t.terminalRow + 1 := by
  obtain ⟨mem, h⟩ := after_fillRow (t := { t with output := t.output ++ [(char '\n', colour)] })
    t.terminalCol.toNat
  simp only [terminalWritechar, after_bind, after_get_bind, after_modify, if_pos, h]

/-- Any other character is stored at the cursor. -/
theorem videoMem_writechar {c colour : U8} (hc : c ≠ char '\n') :
    (t.after (terminalWritechar c colour)).videoMem =
      Function.update t.videoMem t.position (terminalMakeChar c colour) := by
  simp only [terminalWritechar, after_putchar, after_bind, after_get_bind, after_modify, after_ite,
    if_neg hc, position]
  split <;> rfl

/-- **A string** that ends before the last cell of its row is stored from the cursor on, and the
cursor is behind it. -/
theorem videoMem_print (hs : char '\n' ∉ str) (h : t.terminalCol.toNat + str.length < vgaWidth) :
    (t.after (print str)).videoMem = stored t.videoMem t.position (cells str) ∧
      (t.after (print str)).terminalRow = t.terminalRow ∧
      (t.after (print str)).terminalCol.toNat = t.terminalCol.toNat + str.length := by
  induction str generalizing t with
  | nil => exact ⟨stored_nil.symm, rfl, rfl⟩
  | cons c str ih =>
      rw [List.mem_cons, not_or] at hs
      obtain ⟨hc, hs⟩ := hs
      rw [List.length_cons] at h ⊢
      have hw : vgaWidth = 80 := rfl
      have hcol : (t.terminalCol + 1).toNat = t.terminalCol.toNat + 1 := by bv_omega
      have hcur := cursor_writechar (t := t) (Ne.symm hc) 15
      rw [if_neg (by omega), Prod.mk.injEq] at hcur
      obtain ⟨hrow', hcol'⟩ := hcur
      obtain ⟨hmem, hrow, hend⟩ := ih (t := t.after (terminalWritechar c 15)) hs
        (by rw [hcol', hcol]; omega)
      have hpos : (t.after (terminalWritechar c 15)).position = t.position + 1 := by
        rw [position, hrow', hcol', hcol]
        rfl
      refine ⟨?_, hrow.trans hrow', hend.trans (by rw [hcol', hcol]; omega)⟩
      rw [hpos, videoMem_writechar (Ne.symm hc), stored_cons] at hmem
      exact hmem

/-- The cursor is at the start of row `y`. -/
structure AtRow (t : Terminal) (y : Nat) : Prop where
  row : t.terminalRow.toNat = y
  col : t.terminalCol = 0

/-- The start of a row. -/
theorem AtRow.position (h : t.AtRow y) : t.position = y * vgaWidth := by
  rw [Terminal.position, h.row, h.col]
  rfl

/-- **A line** fills its row, and blanks the first cell of the next. -/
theorem AtRow.print_line (h : t.AtRow y) (hy : y + 1 < 2 ^ 16) (hline : Fits line) :
    (t.after (print (line ++ [char '\n']))).AtRow (y + 1) ∧
      (t.after (print (line ++ [char '\n']))).videoMem =
        stored t.videoMem (y * vgaWidth) (rowOf line ++ [blank]) := by
  have hcol : t.terminalCol.toNat = 0 := by rw [h.col]; rfl
  obtain ⟨hmem, hrow, hend⟩ := videoMem_print (t := t) hline.no_newline
    (by rw [hcol, Nat.zero_add]; exact hline.length)
  rw [hcol, Nat.zero_add] at hend
  rw [h.position] at hmem
  have hnl : (t.after (print line)).after (print [char '\n']) =
      (t.after (print line)).after (terminalWritechar (char '\n') 15) := rfl
  rw [print_append, hnl]
  refine ⟨⟨?_, cursor_newline⟩, ?_⟩
  · rw [row_newline, hrow, BitVec.toNat_add, h.row]
    exact Nat.mod_eq_of_lt hy
  · have hrest : vgaWidth + 1 - line.length = (vgaWidth - line.length) + 1 := by
      have hlt := hline.length
      omega
    have hpos : (t.after (print line)).position = y * vgaWidth + (cells line).length := by
      rw [Terminal.position, hrow, hend, h.row, length_cells]
    rw [videoMem_newline, hmem, hpos, hend, hrest, List.replicate_succ', rowOf, List.append_assoc]
    have happend := @stored_append t.videoMem (y * vgaWidth) (cells line) []
      (List.replicate (vgaWidth - line.length) blank ++ [blank]) (Nat.zero_le _)
    rwa [List.append_nil] at happend

/-- **Lines** fill a row each.  The first cell behind them is blanked, and no other is written. -/
theorem AtRow.print_text (h : t.AtRow y) (hne : lines ≠ []) (hy : y + lines.length < 2 ^ 16)
    (hlines : ∀ line ∈ lines, Fits line) :
    (t.after (print (text lines))).AtRow (y + lines.length) ∧
      (t.after (print (text lines))).videoMem =
        stored t.videoMem (y * vgaWidth) (lines.flatMap rowOf ++ [blank]) := by
  induction lines generalizing t y with
  | nil => exact absurd rfl hne
  | cons line lines ih =>
      have hline := hlines line List.mem_cons_self
      rw [List.length_cons] at hy ⊢
      obtain ⟨hrow, hmem⟩ := h.print_line (by omega) hline
      have htext : t.after (print (text (line :: lines))) =
          (t.after (print (line ++ [char '\n']))).after (print (text lines)) := print_append _ _
      rw [htext, List.flatMap_cons]
      rcases eq_or_ne lines [] with rfl | hlines'
      · exact ⟨hrow, hmem.trans (by rw [List.flatMap_nil, List.append_nil])⟩
      · obtain ⟨hrow', hmem'⟩ := ih hrow hlines' (by omega) fun l hl =>
          hlines l (List.mem_cons_of_mem line hl)
        refine ⟨by rwa [Nat.add_right_comm] at hrow', ?_⟩
        have hnext : (y + 1) * vgaWidth = y * vgaWidth + (rowOf line).length := by
          rw [length_rowOf hline.length.le, Nat.succ_mul]
        rw [hmem', hmem, hnext, stored_append (by simp), List.append_assoc]

end Terminal

/-- Where lines are stored, each row is that of its line. -/
theorem row_stored {mem : Nat → U16} {y i : Nat} {lines : List (List U8)} (rest : List U16)
    (hlines : ∀ line ∈ lines, Fits line) (hi : i < lines.length) :
    (List.range vgaWidth).map (fun x =>
      stored mem (y * vgaWidth) (lines.flatMap rowOf ++ rest) ((y + i) * vgaWidth + x)) =
        rowOf lines[i] := by
  induction lines generalizing mem y i with
  | nil => cases hi
  | cons line lines ih =>
      have hline := length_rowOf (hlines line List.mem_cons_self).length.le
      rw [List.flatMap_cons, List.append_assoc]
      cases i with
      | zero =>
          refine List.ext_getElem (by simp [hline]) fun x hx hx' => ?_
          rw [List.getElem_cons_zero] at hx'
          rw [List.getElem_map, List.getElem_range, Nat.add_zero, stored_inside (by simp; omega),
            List.getElem_append_left hx']
          rfl
      | succ i =>
          have hsplit := @stored_append mem (y * vgaWidth) (rowOf line) []
            (lines.flatMap rowOf ++ rest) (Nat.zero_le _)
          rw [List.append_nil, hline, ← Nat.succ_mul] at hsplit
          rw [← hsplit, show y + (i + 1) = y.succ + i by omega]
          exact ih (fun l hl => hlines l (List.mem_cons_of_mem line hl))
            (by rw [List.length_cons] at hi; omega)

/-- The rows that lines fill. -/
theorem Terminal.AtRow.row_text {t : Terminal} {y i : Nat} {lines : List (List U8)}
    (h : t.AtRow y) (hy : y + lines.length < 2 ^ 16) (hlines : ∀ line ∈ lines, Fits line)
    (hi : i < lines.length) : (t.after (print (text lines))).row (y + i) = rowOf lines[i] := by
  have hne : lines ≠ [] := by
    rintro rfl
    cases hi
  rw [Terminal.row, (h.print_text hne hy hlines).2]
  exact row_stored [blank] hlines hi

/-! ### Programs that print -/

/-- The program prints the string. -/
def Prints (x : StateM Terminal Unit) (str : List U8) : Prop :=
  ∀ t : Terminal, t.after x = t.after (print str)

theorem Prints.print (str : List U8) : Prints (print str) str := fun _ => rfl

/-- One text behind the other. -/
theorem Prints.bind {x y : StateM Terminal Unit} {a b : List U8} (hx : Prints x a)
    (hy : Prints y b) : Prints (x >>= fun _ => y) (a ++ b) := fun t => by
  rw [Terminal.after_bind, hx t, hy, Terminal.print_append]

theorem prints_writechar (c : U8) : Prints (terminalWritechar c 15) [c] := fun _ => rfl

theorem prints_printSpaces (n : Nat) : Prints (printSpaces n) (List.replicate n (char ' ')) := by
  induction n with
  | zero => exact fun _ => rfl
  | succ n ih => exact (Prints.print (cstr " ")).bind ih

/-- The two characters of a byte, and the four of a word. -/
def hex8 (value : U8) : List U8 :=
  [gethexchar (value >>> 4).toNat, gethexchar (value &&& 0xF).toNat]

/-- The four hexadecimal digits of a word. -/
def hex16 (value : U16) : List U8 :=
  hex8 ((value >>> 8 &&& 0xFF).setWidth 8) ++ hex8 ((value &&& 0xFF).setWidth 8)

theorem prints_printHex8 (value : U8) : Prints (printHex8 value) (hex8 value) :=
  (prints_writechar _).bind (prints_writechar _)

theorem gethexchar_ne_newline (value : Nat) : gethexchar value ≠ char '\n' := by
  rcases Nat.lt_or_ge value 16 with hlt | hge
  · revert value
    decide
  · rw [gethexchar, List.getD_eq_default _ _ hge]
    decide

/-- The program prints the string, which stays in its row. -/
structure PrintsPlain (x : StateM Terminal Unit) (str : List U8) : Prop where
  prints : Prints x str
  plain : char '\n' ∉ str

namespace PrintsPlain
variable {x y : StateM Terminal Unit} {a b : List U8}

theorem bind (hx : PrintsPlain x a) (hy : PrintsPlain y b) :
    PrintsPlain (x >>= fun _ => y) (a ++ b) where
  prints := hx.prints.bind hy.prints
  plain := by
    rw [List.mem_append, not_or]
    exact ⟨hx.plain, hy.plain⟩

theorem ite {p : Prop} [Decidable p] (hx : PrintsPlain x a) (hy : PrintsPlain y b) :
    PrintsPlain (if p then x else y) (if p then a else b) := by
  by_cases h : p
  · rwa [if_pos h, if_pos h]
  · rwa [if_neg h, if_neg h]

theorem print {str : List U8} (h : char '\n' ∉ str) : PrintsPlain (Kernel.print str) str :=
  ⟨.print str, h⟩

theorem printSpaces (n : Nat) :
    PrintsPlain (Kernel.printSpaces n) (List.replicate n (char ' ')) where
  prints := prints_printSpaces n
  plain := fun h => absurd (List.eq_of_mem_replicate h) (by decide)

theorem printHex8 (value : U8) : PrintsPlain (Kernel.printHex8 value) (hex8 value) where
  prints := prints_printHex8 value
  plain := by
    rw [hex8, List.mem_pair, not_or]
    exact ⟨(gethexchar_ne_newline _).symm, (gethexchar_ne_newline _).symm⟩

theorem printHex16 (value : U16) : PrintsPlain (Kernel.printHex16 value) (hex16 value) :=
  (printHex8 _).bind (printHex8 _)

end PrintsPlain

end KernelNES.Kernel
