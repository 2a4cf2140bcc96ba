import Mathlib.Logic.Function.Basic

/-!
# Lib — Records

Records of a fixed number of cells, laid one behind the other in a memory `Nat → β`.  `readSlot`
reads the record at an index and `writeSlot` writes it; a record written cell by cell is a record
written at once (`update_writeSlot`).  `fill` writes a run of records in order; each slot of it then
holds the record of its own index (`readSlot_fill`).  A `Codec` says how a record is read back.
-/

namespace KernelNES.Lib

variable {α β : Type*} {size : Nat}

/-- The cells of record `i`. -/
def readSlot (size : Nat) (mem : Nat → β) (i : Nat) : Fin size → β := fun k => mem (size * i + k)

/-- Record `i` is written. -/
def writeSlot (mem : Nat → β) (i : Nat) (cells : Fin size → β) : Nat → β := fun a =>
  if h : size * i ≤ a ∧ a - size * i < size then cells ⟨a - size * i, h.2⟩ else mem a

/-- A cell of the record just written. -/
theorem writeSlot_apply (mem : Nat → β) (i : Nat) (cells : Fin size → β) {k : Nat} (hk : k < size) :
    writeSlot mem i cells (size * i + k) = cells ⟨k, hk⟩ := by
  have hin : size * i ≤ size * i + k ∧ size * i + k - size * i < size := by omega
  rw [writeSlot, dif_pos hin]
  exact congrArg cells (Fin.ext (Nat.add_sub_cancel_left _ _))

/-- The record just written is read back. -/
theorem readSlot_writeSlot_self (mem : Nat → β) (i : Nat) (cells : Fin size → β) :
    readSlot size (writeSlot mem i cells) i = cells := by
  funext k
  exact writeSlot_apply mem i cells k.isLt

/-- Two records share no cell. -/
theorem readSlot_writeSlot_of_ne {i j : Nat} (h : j ≠ i) (mem : Nat → β) (cells : Fin size → β) :
    readSlot size (writeSlot mem i cells) j = readSlot size mem j := by
  funext k
  refine dif_neg fun hin => h ?_
  have hk := k.isLt
  rcases Nat.lt_trichotomy j i with hlt | heq | hgt
  · have := Nat.mul_le_mul_left size hlt
    rw [Nat.mul_succ] at this
    omega
  · exact heq
  · have := Nat.mul_le_mul_left size hgt
    rw [Nat.mul_succ] at this
    omega

/-- Writing back what was read changes nothing. -/
theorem writeSlot_readSlot (mem : Nat → β) (i : Nat) :
    writeSlot mem i (readSlot size mem i) = mem := by
  funext a
  unfold writeSlot
  split
  · rename_i h
    show mem (size * i + (a - size * i)) = mem a
    rw [Nat.add_sub_cancel' h.1]
  · rfl

/-- One more cell of a record. -/
theorem update_writeSlot (mem : Nat → β) (i : Nat) (cells : Fin size → β) {k : Nat} (hk : k < size)
    (v : β) : Function.update (writeSlot mem i cells) (size * i + k) v =
      writeSlot mem i (Function.update cells ⟨k, hk⟩ v) := by
  funext a
  by_cases ha : a = size * i + k
  · subst ha
    rw [Function.update_self, writeSlot_apply mem i _ hk, Function.update_self]
  · rw [Function.update_of_ne ha]
    unfold writeSlot
    split
    · rename_i h
      refine (Function.update_of_ne (fun e => ha ?_) v cells).symm
      have hval : a - size * i = k := congrArg Fin.val e
      omega
    · rfl

/-- The records of `source`, `n` of them from index `i` on, are written in order. -/
def fill (encode : α → Fin size → β) (source : Nat → α) : (n i : Nat) → (Nat → β) → Nat → β
  | 0, _, mem => mem
  | n + 1, i, mem => fill encode source n (i + 1) (writeSlot mem i (encode (source i)))

/-- **A run of records**: each slot of it holds its own record, and the others are untouched. -/
theorem readSlot_fill (encode : α → Fin size → β) (source : Nat → α) (n i j : Nat) (mem : Nat → β) :
    readSlot size (fill encode source n i mem) j =
      if i ≤ j ∧ j < i + n then encode (source j) else readSlot size mem j := by
  induction n generalizing i mem with
  | zero => exact (if_neg (by omega)).symm
  | succ n ih =>
      rw [fill, ih]
      by_cases hj : j = i
      · subst hj
        rw [if_neg (by omega), if_pos (by omega), readSlot_writeSlot_self]
      · rw [readSlot_writeSlot_of_ne hj]
        exact if_congr (by omega) rfl rfl

/-- A way to write a value as a record, and to read it back. -/
structure Codec (α β : Type*) (size : Nat) where
  encode : α → Fin size → β
  decode : (Fin size → β) → α
  Valid : α → Prop
  decode_encode : ∀ {a}, Valid a → decode (encode a) = a

namespace Codec

/-- What is written is read back. -/
theorem decode_fill (codec : Codec α β size) (source : Nat → α) {n j : Nat} (mem : Nat → β)
    (hj : j < n) (hvalid : codec.Valid (source j)) :
    codec.decode (readSlot size (fill codec.encode source n 0 mem) j) = source j := by
  rw [readSlot_fill, if_pos (by omega), codec.decode_encode hvalid]

end Codec

end KernelNES.Lib
