import KernelNES.Lib.CInt
import Mathlib.Data.List.Basic
import Mathlib.Logic.Function.Basic
import Mathlib.Tactic.Ring

/-!
# Kernel — Terminal

The text screen of `src/kernel.c`.  `video_mem` holds one 16-bit cell for each character, row by
row; printing moves `terminal_row` and `terminal_col` over it.  Two fields record what the C program
does not store: `stores`, the indices into `video_mem` written so far, and `output`, the characters
given to `terminal_writechar` with their colours.

A printed string stays in its row as long as it has no newline in it, and on the screen as long as
no more than `VGA_WIDTH * VGA_HEIGHT` characters are printed between two calls of `reset_terminal`.
-/

namespace KernelNES.Kernel
open KernelNES.Lib

/-- `VGA_WIDTH`. -/
def vgaWidth : Nat := 80

/-- `VGA_HEIGHT`. -/
def vgaHeight : Nat := 20

/-- A `char` of the source text. -/
def char (c : Char) : U8 := BitVec.ofNat 8 c.toNat

/-- A string literal, without its terminator. -/
def cstr (s : String) : List U8 := s.toList.map char

/-- The globals behind the screen. -/
structure Terminal where
  videoMem : Nat → U16
  terminalRow : U16
  terminalCol : U16
  stores : List Nat
  output : List (U8 × U8)

/-- The screen before `kernel_main`, with `mem` at the address `video_mem` is going to have. -/
def Terminal.atBoot (mem : Nat → U16) : Terminal where
  videoMem := mem
  terminalRow := 0
  terminalCol := 0
  stores := []
  output := []

/-- `terminal_make_char`.  Both arguments are signed, so a character from `0x80` on sets the
colour's bits as well. -/
def terminalMakeChar (c colour : U8) : U16 :=
  (colour.signExtend 32 <<< 8 ||| c.signExtend 32).setWidth 16

/-- `terminal_putchar`. -/
def terminalPutchar (x y : Nat) (c colour : U8) : StateM Terminal Unit := modify fun t =>
  { t with
    videoMem := Function.update t.videoMem (y * vgaWidth + x) (terminalMakeChar c colour)
    stores := t.stores ++ [y * vgaWidth + x] }

/-- The loop of `terminal_writechar` that fills the rest of a row. -/
def fillRow (tempCol : Nat) : StateM Terminal Unit :=
  if tempCol ≤ vgaWidth then do
    terminalPutchar tempCol (← get).terminalRow.toNat (char ' ') 0
    fillRow (tempCol + 1)
  else
    pure ()
termination_by vgaWidth + 1 - tempCol

/-- `terminal_writechar`. -/
def terminalWritechar (c colour : U8) : StateM Terminal Unit := do
  modify fun t => { t with output := t.output ++ [(c, colour)] }
  if c = char '\n' then
    fillRow (← get).terminalCol.toNat
    modify fun t => { t with terminalRow := t.terminalRow + 1, terminalCol := 0 }
  else
    let t ← get
    terminalPutchar t.terminalCol.toNat t.terminalRow.toNat c colour
    modify fun t => { t with terminalCol := t.terminalCol + 1 }
    if vgaWidth ≤ (← get).terminalCol.toNat then
      modify fun t => { t with terminalCol := 0, terminalRow := t.terminalRow + 1 }

/-- `reset_terminal`. -/
def resetTerminal : StateM Terminal Unit :=
  modify fun t => { t with terminalRow := 0, terminalCol := 0 }

/-- `terminal_initialize`. -/
def terminalInitialize : StateM Terminal Unit := do
  modify fun t => { t with terminalRow := 0, terminalCol := 0 }
  (List.range vgaHeight).forM fun y =>
    (List.range vgaWidth).forM fun x =>
      terminalPutchar x y (char ' ') 0

/-- `print`. -/
def print : (str : List U8) → StateM Terminal Unit
  | [] => pure ()
  | c :: str => do
    terminalWritechar c 15
    print str

/-- `print_spaces`. -/
def printSpaces : (numSpaces : Nat) → StateM Terminal Unit
  | 0 => pure ()
  | n + 1 => do
    print (cstr " ")
    printSpaces n

/-- `gethexchar`, of a value below `16`. -/
def gethexchar (value : Nat) : U8 := (cstr "0123456789ABCDEF").getD value 0

/-- `print_hex8`. -/
def printHex8 (value : U8) : StateM Terminal Unit := do
  terminalWritechar (gethexchar (value >>> 4).toNat) 15
  terminalWritechar (gethexchar (value &&& 0xF).toNat) 15

/-- `print_hex16`. -/
def printHex16 (value : U16) : StateM Terminal Unit := do
  printHex8 ((value >>> 8 &&& 0xFF).setWidth 8)
  printHex8 ((value &&& 0xFF).setWidth 8)

/-! ### What a program leaves -/

namespace Terminal
variable {t : Terminal} {c colour : U8} {str : List U8}

/-- The screen `x` leaves. -/
def after (t : Terminal) (x : StateM Terminal Unit) : Terminal := (x.run t).2

@[simp] theorem after_pure : t.after (pure ()) = t := rfl

@[simp] theorem after_bind (x : StateM Terminal Unit) (f : Unit → StateM Terminal Unit) :
    t.after (x >>= f) = (t.after x).after (f ()) := rfl

@[simp] theorem after_get_bind (f : Terminal → StateM Terminal Unit) :
    t.after (get >>= f) = t.after (f t) := rfl

@[simp] theorem after_modify (f : Terminal → Terminal) : t.after (modify f) = f t := rfl

@[simp] theorem after_ite {p : Prop} [Decidable p] (x y : StateM Terminal Unit) :
    t.after (if p then x else y) = if p then t.after x else t.after y := by
  split <;> rfl

@[simp] theorem after_putchar (x y : Nat) : t.after (terminalPutchar x y c colour) =
    { t with
      videoMem := Function.update t.videoMem (y * vgaWidth + x) (terminalMakeChar c colour)
      stores := t.stores ++ [y * vgaWidth + x] } := rfl

/-- How many cells are in front of the next character. -/
def position (t : Terminal) : Nat := t.terminalRow.toNat * vgaWidth + t.terminalCol.toNat

/-- The row is filled up to the cell behind its last one. -/
theorem after_fillRow (tempCol : Nat) : ∃ mem, t.after (fillRow tempCol) =
    { t with
      videoMem := mem
      stores := t.stores ++ (List.range' tempCol (vgaWidth + 1 - tempCol)).map
        (t.terminalRow.toNat * vgaWidth + ·) } := by
  induction h : vgaWidth + 1 - tempCol generalizing tempCol t with
  | zero =>
      rw [fillRow, if_neg (by omega)]
      exact ⟨t.videoMem, by simp⟩
  | succ n ih =>
      rw [fillRow, if_pos (by omega)]
      obtain ⟨mem, hn⟩ := ih (t := t.after (terminalPutchar tempCol _ (char ' ') 0)) (tempCol + 1)
        (by omega)
      refine ⟨mem, ?_⟩
      rw [after_get_bind, after_bind, hn]
      simp [List.range'_succ]

/-- What a newline stores. -/
theorem stores_newline (colour : U8) : (t.after (terminalWritechar (char '\n') colour)).stores =
    t.stores ++ (List.range' t.terminalCol.toNat (vgaWidth + 1 - t.terminalCol.toNat)).map
      (t.terminalRow.toNat * vgaWidth + ·) := by
  have h := after_fillRow (t := { t with output := t.output ++ [(char '\n', colour)] })
    t.terminalCol.toNat
  obtain ⟨mem, h⟩ := h
  simp only [terminalWritechar, after_bind, after_get_bind, after_modify, if_pos, h]

/-- What any other character stores. -/
theorem stores_writechar (hc : c ≠ char '\n') :
    (t.after (terminalWritechar c colour)).stores = t.stores ++ [t.position] := by
  simp only [terminalWritechar, after_putchar, after_bind, after_get_bind, after_modify,
    after_ite, if_neg hc, position]
  split <;> rfl

@[simp] theorem output_writechar :
    (t.after (terminalWritechar c colour)).output = t.output ++ [(c, colour)] := by
  obtain ⟨mem, h⟩ := after_fillRow (t := { t with output := t.output ++ [(c, colour)] })
    t.terminalCol.toNat
  simp only [terminalWritechar, after_putchar, after_bind, after_get_bind, after_modify,
    after_ite, h]
  split
  · rfl
  · split <;> rfl

/-- Where the next character goes. -/
theorem cursor_writechar (hc : c ≠ char '\n') (colour : U8) :
    ((t.after (terminalWritechar c colour)).terminalRow,
      (t.after (terminalWritechar c colour)).terminalCol) =
    if vgaWidth ≤ (t.terminalCol + 1).toNat then (t.terminalRow + 1, 0)
    else (t.terminalRow, t.terminalCol + 1) := by
  simp only [terminalWritechar, after_putchar, after_bind, after_get_bind, after_modify,
    after_ite, after_pure, if_neg hc]
  split <;> rfl

/-- A newline ends at the start of a row. -/
theorem cursor_newline :
    (t.after (terminalWritechar (char '\n') colour)).terminalCol = 0 := rfl

/-- **The column wraps.** -/
theorem terminalCol_writechar :
    (t.after (terminalWritechar c colour)).terminalCol.toNat < vgaWidth := by
  by_cases hc : c = char '\n'
  · rw [hc, cursor_newline]
    decide
  · have hcur := cursor_writechar (t := t) hc colour
    split at hcur
    · rw [(Prod.mk.inj hcur).2]
      decide
    · rw [(Prod.mk.inj hcur).2]
      omega

/-- A character that is no newline moves one cell on. -/
theorem position_writechar (h : t.terminalCol.toNat < vgaWidth)
    (hr : t.terminalRow.toNat ≤ vgaHeight) (hc : c ≠ char '\n') (colour : U8) :
    (t.after (terminalWritechar c colour)).position = t.position + 1 := by
  simp only [vgaWidth, vgaHeight] at h hr
  have hcol : (t.terminalCol + 1).toNat = t.terminalCol.toNat + 1 := by bv_omega
  have hrow : (t.terminalRow + 1).toNat = t.terminalRow.toNat + 1 := by bv_omega
  have hcur := cursor_writechar (t := t) hc colour
  split at hcur
  next hw =>
    -- the last cell of a row: the next one is the first of the row below
    rw [position, (Prod.mk.inj hcur).1, (Prod.mk.inj hcur).2, hrow]
    show (t.terminalRow.toNat + 1) * vgaWidth + 0 = t.position + 1
    simp only [position, vgaWidth, hcol] at hw ⊢
    omega
  next =>
    rw [position, (Prod.mk.inj hcur).1, (Prod.mk.inj hcur).2, hcol]
    exact (Nat.add_assoc ..).symm

/-! ### Printing a string -/

/-- One text behind the other. -/
theorem print_append (s₁ s₂ : List U8) :
    t.after (print (s₁ ++ s₂)) = (t.after (print s₁)).after (print s₂) := by
  induction s₁ generalizing t with
  | nil => rfl
  | cons c s₁ ih => exact ih (t := t.after (terminalWritechar c 15))

/-- Printing leaves the column on the screen. -/
theorem terminalCol_print (h : t.terminalCol.toNat < vgaWidth) (str : List U8) :
    (t.after (print str)).terminalCol.toNat < vgaWidth := by
  induction str generalizing t with
  | nil => exact h
  | cons c str ih => exact ih (t := t.after (terminalWritechar c 15)) terminalCol_writechar

/-- The characters come out in order, and white. -/
theorem output_print (str : List U8) :
    (t.after (print str)).output = t.output ++ str.map (·, 15) := by
  induction str generalizing t with
  | nil => simp [print]
  | cons c str ih =>
      have h := ih (t := t.after (terminalWritechar c 15))
      rw [output_writechar, List.append_assoc] at h
      exact h

/-- A string with no newline in it takes as many cells as it has characters. -/
theorem position_print (h : t.terminalCol.toNat < vgaWidth) (hs : char '\n' ∉ str)
    (hr : t.position + str.length ≤ vgaWidth * vgaHeight) :
    (t.after (print str)).position = t.position + str.length := by
  induction str generalizing t with
  | nil => rfl
  | cons c str ih =>
      rw [List.mem_cons, not_or] at hs
      obtain ⟨hc, hs⟩ := hs
      rw [List.length_cons] at hr ⊢
      have hrow : t.terminalRow.toNat ≤ vgaHeight := by
        simp only [position, vgaWidth, vgaHeight] at hr ⊢
        omega
      have hpos := position_writechar h hrow (Ne.symm hc) 15
      have ht := ih (t := t.after (terminalWritechar c 15)) terminalCol_writechar hs (by omega)
      rw [hpos] at ht
      exact ht.trans (by omega)

/-! ### How many characters are printed -/

@[simp] theorem length_output_writechar :
    (t.after (terminalWritechar c colour)).output.length = t.output.length + 1 := by
  rw [output_writechar, List.length_append, List.length_singleton]

@[simp] theorem length_output_print (str : List U8) :
    (t.after (print str)).output.length = t.output.length + str.length := by
  rw [output_print, List.length_append, List.length_map]

@[simp] theorem length_output_printSpaces (n : Nat) :
    (t.after (printSpaces n)).output.length = t.output.length + n := by
  induction n generalizing t with
  | zero => rfl
  | succ n ih =>
      rw [printSpaces, after_bind, ih, length_output_print]
      exact (Nat.add_assoc ..).trans (congrArg _ (Nat.add_comm 1 n))

@[simp] theorem length_output_printHex8 (value : U8) :
    (t.after (printHex8 value)).output.length = t.output.length + 2 := by
  rw [printHex8, after_bind, length_output_writechar, length_output_writechar]

@[simp] theorem length_output_printHex16 (value : U16) :
    (t.after (printHex16 value)).output.length = t.output.length + 4 := by
  rw [printHex16, after_bind, length_output_printHex8, length_output_printHex8]

end Terminal

end KernelNES.Kernel
