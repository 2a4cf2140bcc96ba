import Mathlib.Data.List.ModifyLast

/-!
# Lib — Window

A list that is looked at through a window of `size` entries.  The list grows at its end, and only the
last entry changes; the window moves by one entry at a time, and never past the end of the list, so
that it is always as full as the list allows (`length_shown`).
-/

namespace KernelNES.Lib
variable {α : Type*} {size : Nat}

/-- A window of `size` entries, from the entry at `start` on. -/
structure Window (α : Type*) (size : Nat) where
  entries : List α
  start : Nat
  inside : start = 0 ∨ start + size ≤ entries.length

namespace Window

/-- No entries yet. -/
def empty : Window α size := ⟨[], 0, .inl rfl⟩

/-- Another entry, at the end of the list. -/
def push (a : α) (w : Window α size) : Window α size where
  entries := w.entries ++ [a]
  start := w.start
  inside := w.inside.imp_right fun h => by
    rw [List.length_append]
    omega

theorem length_modifyLast (f : α → α) (l : List α) : (l.modifyLast f).length = l.length := by
  rcases l.eq_nil_or_concat with rfl | ⟨l, a, rfl⟩
  · rfl
  · simp [List.modifyLast_concat]

/-- The last entry changes. -/
def mapLast (f : α → α) (w : Window α size) : Window α size where
  entries := w.entries.modifyLast f
  start := w.start
  inside := (length_modifyLast f w.entries).symm ▸ w.inside

theorem mapLast_eq_self {f : α → α} {w : Window α size} (h : w.entries = []) : w.mapLast f = w := by
  cases w with
  | mk entries start inside =>
      cases h
      rfl

/-- The last entry changes. -/
theorem entries_mapLast {f : α → α} {w : Window α size} {l : List α} {a : α}
    (h : w.entries = l ++ [a]) : (w.mapLast f).entries = l ++ [f a] :=
  (congrArg (List.modifyLast f) h).trans (List.modifyLast_concat f a l)

/-- One entry up, if there is one. -/
def up (w : Window α size) : Window α size where
  entries := w.entries
  start := w.start - 1
  inside := by
    have h := w.inside
    omega

/-- One entry down, if there is one behind the window. -/
def down (w : Window α size) : Window α size where
  entries := w.entries
  start := if w.start + size < w.entries.length then w.start + 1 else w.start
  inside := by
    have h := w.inside
    split <;> omega

/-- What is in the window. -/
def shown (w : Window α size) : List α := (w.entries.drop w.start).take size

/-- The window shows `size` entries, or all when there are fewer. -/
theorem length_shown (w : Window α size) : w.shown.length = min size w.entries.length := by
  have h := w.inside
  rw [shown, List.length_take, List.length_drop]
  omega

/-- What is shown is an entry. -/
theorem mem_of_mem_shown {w : Window α size} {a : α} (h : a ∈ w.shown) : a ∈ w.entries :=
  List.mem_of_mem_drop (List.mem_of_mem_take h)

end Window

end KernelNES.Lib
