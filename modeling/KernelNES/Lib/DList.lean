import Mathlib.Data.List.Nodup
import Mathlib.Data.List.Rotate

/-!
# Lib — DList

Doubly linked lists in memory.  `next` and `prev` read the two link fields of a node, `null` is the
null pointer.  `DSeg null next prev p l` says the nodes of `l` are linked both ways, in order, with
`p` in front of the first; `DList` adds the head and tail pointers and that no node occurs twice.

The rules: a list is a fact about the link fields of its own nodes (`DSeg.congr`), each node's
links are read off its position (`DList.next_getElem`, `DList.prev_getElem`), a node is appended at
the tail (`DList.snoc`) and the first or the last is removed (`DList.tail_of_cons`, `DList.unsnoc`).
Going round, with the head again behind the tail, visits every node (`DList.round`).
-/

namespace KernelNES.Lib

variable {A : Type*} {null : A} {next next' prev prev' : A → A}

/-- The nodes of `l` are linked both ways; `p` is what the first one's `prev` holds. -/
def DSeg (null : A) (next prev : A → A) : A → List A → Prop
  | _, [] => True
  | p, x :: xs => prev x = p ∧ next x = xs.headD null ∧ DSeg null next prev x xs

/-- The list `l` from `head` to `tail`. -/
structure DList (null : A) (next prev : A → A) (head tail : A) (l : List A) : Prop where
  nodup : l.Nodup
  not_null : null ∉ l
  head_eq : head = l.headD null
  tail_eq : tail = l.getLastD null
  seg : DSeg null next prev null l

/-- A segment reads the links of its own nodes only. -/
theorem DSeg.congr {p : A} {l : List A} (h : DSeg null next prev p l)
    (hn : ∀ x ∈ l, next' x = next x) (hp : ∀ x ∈ l, prev' x = prev x) :
    DSeg null next' prev' p l := by
  induction l generalizing p with
  | nil => trivial
  | cons x xs ih =>
      obtain ⟨h₁, h₂, h₃⟩ := h
      refine ⟨(hp x List.mem_cons_self).trans h₁, (hn x List.mem_cons_self).trans h₂, ih h₃ ?_ ?_⟩
      · exact fun y hy => hn y (List.mem_cons_of_mem x hy)
      · exact fun y hy => hp y (List.mem_cons_of_mem x hy)

/-- The nodes of a segment are determined by its first node and the `next` fields. -/
theorem DSeg.unique {p p' : A} {l l' : List A} (h : DSeg null next prev p l)
    (h' : DSeg null next prev p' l') (hl : null ∉ l) (hl' : null ∉ l')
    (hh : l.headD null = l'.headD null) : l = l' := by
  induction l generalizing p p' l' with
  | nil => cases l' with
    | nil => rfl
    | cons y ys =>
        obtain rfl : null = y := hh
        exact absurd List.mem_cons_self hl'
  | cons x xs ih => cases l' with
    | nil =>
        obtain rfl : x = null := hh
        exact absurd List.mem_cons_self hl
    | cons y ys =>
        obtain rfl : x = y := hh
        obtain ⟨-, h₂, h₃⟩ := h
        obtain ⟨-, h₂', h₃'⟩ := h'
        rw [ih h₃ h₃' (fun hm => hl (List.mem_cons_of_mem x hm))
          (fun hm => hl' (List.mem_cons_of_mem x hm)) (h₂.symm.trans h₂')]

/-- The entry behind the `i`th, or `null` behind the last. -/
theorem DSeg.next_getElem {p : A} {l : List A} (h : DSeg null next prev p l) {i : Nat}
    (hi : i < l.length) : next l[i] = l[i + 1]?.getD null := by
  induction l generalizing p i with
  | nil => cases hi
  | cons x xs ih =>
      obtain ⟨-, h₂, h₃⟩ := h
      cases i with
      | zero => cases xs with
        | nil => exact h₂
        | cons y ys => exact h₂
      | succ i => simpa using ih h₃ (by simpa using hi)

/-- The entry before the `i + 1`st. -/
theorem DSeg.prev_getElem {p : A} {l : List A} (h : DSeg null next prev p l) {i : Nat}
    (hi : i + 1 < l.length) : prev l[i + 1] = l[i] := by
  induction l generalizing p i with
  | nil => cases hi
  | cons x xs ih =>
      obtain ⟨-, -, h₃⟩ := h
      cases i with
      | zero => cases xs with
        | nil => simp at hi
        | cons y ys => exact h₃.1
      | succ i => simpa using ih h₃ (by simpa using hi)

/-- The first node of a segment whose last `next` now holds `b`: alone it is that last node, and
otherwise its `next` is the one it had. -/
theorem next_relinked {x b : A} {xs : List A} (hx : x ∉ xs)
    (hnext : xs ≠ [] → next x = xs.headD null) (hn : x ≠ xs.getLastD x → next' x = next x)
    (hlast : next' (xs.getLastD x) = b) : next' x = xs.headD b := by
  cases xs with
  | nil => exact hlast
  | cons y ys =>
      have hne : x ≠ (y :: ys).getLastD x := by
        rw [List.getLastD_cons]
        exact fun e => hx (e ▸ List.getLastD_mem_cons)
      exact (hn hne).trans (hnext (by simp))

/-- A segment gains a node behind its last one when the last node's `next` and the new node's
links are set. -/
theorem DSeg.snoc {p a : A} {l : List A} (h : DSeg null next prev p l)
    (hn : ∀ x ∈ l, x ≠ l.getLastD p → next' x = next x)
    (hp : ∀ x ∈ l, prev' x = prev x) (hnd : l.Nodup)
    (hlast : l ≠ [] → next' (l.getLastD p) = a) (hprev : prev' a = l.getLastD p)
    (hnext : next' a = null) : DSeg null next' prev' p (l ++ [a]) := by
  induction l generalizing p with
  | nil => exact ⟨hprev, hnext, trivial⟩
  | cons x xs ih =>
      obtain ⟨h₁, h₂, h₃⟩ := h
      obtain ⟨hx, hxs⟩ := List.nodup_cons.mp hnd
      have hsub : ∀ y ∈ xs, y ∈ x :: xs := fun y hy => List.mem_cons_of_mem x hy
      rw [List.getLastD_cons] at hn hlast hprev
      refine ⟨(hp x List.mem_cons_self).trans h₁, ?_, ih h₃ (fun y hy => hn y (hsub y hy))
        (fun y hy => hp y (hsub y hy)) hxs (fun _ => hlast (by simp)) hprev⟩
      have hlink := next_relinked hx (fun _ => h₂) (hn x List.mem_cons_self) (hlast (by simp))
      cases xs with
      | nil => exact hlink
      | cons y ys => exact hlink

/-- What is in front of the last node. -/
theorem DSeg.prev_last {p a : A} {l : List A} (h : DSeg null next prev p (l ++ [a])) :
    prev a = l.getLastD p := by
  induction l generalizing p with
  | nil => exact h.1
  | cons x xs ih =>
      obtain ⟨-, -, h₃⟩ := h
      rw [List.getLastD_cons]
      exact ih h₃

/-- A segment loses its last node when the `next` of the one in front of it is cleared. -/
theorem DSeg.unsnoc {p a : A} {l : List A} (h : DSeg null next prev p (l ++ [a]))
    (hn : ∀ x ∈ l, x ≠ l.getLastD p → next' x = next x) (hp : ∀ x ∈ l, prev' x = prev x)
    (hnd : l.Nodup) (hlast : l ≠ [] → next' (l.getLastD p) = null) :
    DSeg null next' prev' p l := by
  induction l generalizing p with
  | nil => trivial
  | cons x xs ih =>
      obtain ⟨h₁, h₂, h₃⟩ := h
      obtain ⟨hx, hxs⟩ := List.nodup_cons.mp hnd
      rw [List.getLastD_cons] at hn hlast
      refine ⟨(hp x List.mem_cons_self).trans h₁, ?_,
        ih h₃ (fun y hy => hn y (List.mem_cons_of_mem x hy))
          (fun y hy => hp y (List.mem_cons_of_mem x hy)) hxs fun _ => hlast (by simp)⟩
      have hnext : xs ≠ [] → next x = xs.headD null := by
        intro hne
        obtain ⟨y, ys, rfl⟩ := List.exists_cons_of_ne_nil hne
        exact h₂
      exact next_relinked hx hnext (hn x List.mem_cons_self) (hlast (by simp))

namespace DList

variable {head tail : A} {l : List A}

theorem nil (next prev : A → A) : DList null next prev null null [] :=
  ⟨.nil, by simp, rfl, rfl, trivial⟩

/-- The head pointer is null exactly when the list is empty. -/
theorem head_eq_null_iff (h : DList null next prev head tail l) : head = null ↔ l = [] := by
  rw [h.head_eq]
  cases l with
  | nil => simp
  | cons x xs =>
      have hx : x ≠ null := fun e => h.not_null (e ▸ List.mem_cons_self)
      simp [hx]

/-- A head pointer delimits one list. -/
theorem unique {tail' : A} {l' : List A} (h : DList null next prev head tail l)
    (h' : DList null next prev head tail' l') : l = l' :=
  h.seg.unique h'.seg h.not_null h'.not_null (h.head_eq.symm.trans h'.head_eq)

/-- The tail of a list with entries is one of them. -/
theorem tail_mem (h : DList null next prev head tail l) (hl : l ≠ []) : tail ∈ l := by
  rw [h.tail_eq]
  cases l with
  | nil => exact absurd rfl hl
  | cons x xs => rw [List.getLastD_cons]; exact List.getLastD_mem_cons

/-- The node at the last position is the tail. -/
theorem getElem_eq_tail_iff (h : DList null next prev head tail l) {i : Nat}
    (hi : i < l.length) : l[i] = tail ↔ i + 1 = l.length := by
  have hne : l ≠ [] := fun e => by simp [e] at hi
  have ht : tail = l[l.length - 1] := by
    rw [h.tail_eq, List.getLastD_eq_getLast?, List.getLast?_eq_getElem?,
      List.getElem?_eq_getElem (by omega), Option.getD_some]
  rw [ht, h.nodup.getElem_inj_iff]
  omega

/-- The node at position `0` is the head. -/
theorem getElem_eq_head_iff (h : DList null next prev head tail l) {i : Nat}
    (hi : i < l.length) : l[i] = head ↔ i = 0 := by
  have hh : head = l[0] := by
    rw [h.head_eq, List.headD_eq_head?_getD, List.head?_eq_getElem?,
      List.getElem?_eq_getElem (by omega), Option.getD_some]
  rw [hh, h.nodup.getElem_inj_iff]

/-- `next` leads from each position to the one behind it. -/
theorem next_getElem (h : DList null next prev head tail l) {i : Nat} (hi : i + 1 < l.length) :
    next l[i] = l[i + 1] := by
  rw [h.seg.next_getElem (by omega), List.getElem?_eq_getElem hi, Option.getD_some]

/-- `prev` leads from each position to the one in front of it. -/
theorem prev_getElem (h : DList null next prev head tail l) {i : Nat} (hi : i + 1 < l.length) :
    prev l[i + 1] = l[i] :=
  h.seg.prev_getElem hi

/-- Appending a node behind the tail, or as the only node of an empty list. -/
theorem snoc {a head' : A} (h : DList null next prev head tail l) (ha : a ∉ l) (hnull : a ≠ null)
    (hn : ∀ x ∈ l, x ≠ tail → next' x = next x) (hp : ∀ x ∈ l, prev' x = prev x)
    (hlast : l ≠ [] → next' tail = a) (hprev : prev' a = tail) (hnext : next' a = null)
    (hhead : head' = if l = [] then a else head) :
    DList null next' prev' head' a (l ++ [a]) := by
  have ht := h.tail_eq
  refine ⟨?_, ?_, ?_, by simp, h.seg.snoc (ht ▸ hn) hp h.nodup (ht ▸ hlast) (ht ▸ hprev) hnext⟩
  · exact List.nodup_append.mpr ⟨h.nodup, by simp, by rintro x hx y hy rfl; simp_all⟩
  · simp only [List.mem_append, List.mem_singleton, not_or]
    exact ⟨h.not_null, fun e => hnull e.symm⟩
  · rw [hhead]
    cases l with
    | nil => simp
    | cons x xs => simpa using h.head_eq

/-- Removing the first node. -/
theorem tail_of_cons {x : A} {head' tail' : A} (h : DList null next prev head tail (x :: l))
    (hn : ∀ y ∈ l, next' y = next y) (hp : ∀ y ∈ l, y ≠ next x → prev' y = prev y)
    (hhead : head' = next x) (hfirst : l ≠ [] → prev' (next x) = null)
    (htail : tail' = if l = [] then null else tail) : DList null next' prev' head' tail' l := by
  obtain ⟨-, h₂, h₃⟩ := h.seg
  obtain ⟨hx, hl⟩ := List.nodup_cons.mp h.nodup
  refine ⟨hl, fun hm => h.not_null (List.mem_cons_of_mem x hm), hhead.trans h₂, ?_, ?_⟩
  · rw [htail]
    have ht := h.tail_eq
    cases l with
    | nil => simp
    | cons y ys => simpa using ht
  · cases l with
    | nil => trivial
    | cons y ys =>
        obtain ⟨-, h₄, h₅⟩ := h₃
        obtain ⟨hy, -⟩ := List.nodup_cons.mp hl
        simp only [List.headD_cons] at h₂
        refine ⟨h₂ ▸ hfirst (by simp), (hn y List.mem_cons_self).trans h₄, h₅.congr ?_ ?_⟩
        · exact fun z hz => hn z (List.mem_cons_of_mem y hz)
        · refine fun z hz => hp z (List.mem_cons_of_mem y hz) fun e => hy ?_
          rw [← h₂, ← e]; exact hz

/-- The node behind which nothing follows is the tail. -/
theorem next_eq_null_iff (h : DList null next prev head tail l) {x : A} (hx : x ∈ l) :
    next x = null ↔ x = tail := by
  obtain ⟨i, hi, rfl⟩ := List.getElem_of_mem hx
  rw [h.getElem_eq_tail_iff hi, h.seg.next_getElem hi]
  by_cases hlast : i + 1 = l.length
  · rw [List.getElem?_eq_none (by omega)]
    exact iff_of_true rfl hlast
  · rw [List.getElem?_eq_getElem (by omega), Option.getD_some]
    exact iff_of_false (fun e => h.not_null (e ▸ List.getElem_mem _)) hlast

/-- The node behind which nothing follows is the last of the list. -/
theorem eq_snoc (h : DList null next prev head tail l) {x : A} (hx : x ∈ l)
    (hnext : next x = null) : ∃ l', l = l' ++ [x] := by
  have hne := List.ne_nil_of_mem hx
  have hlast : l.getLast hne = x := by
    rw [(h.next_eq_null_iff hx).mp hnext, h.tail_eq, List.getLastD_eq_getLast?,
      List.getLast?_eq_getLast_of_ne_nil hne]
    rfl
  exact ⟨l.dropLast, by rw [← hlast, List.dropLast_append_getLast]⟩

/-- `next` leads to a node of the list, or nowhere. -/
theorem next_mem (h : DList null next prev head tail l) {x : A} (hx : x ∈ l) :
    next x = null ∨ next x ∈ l := by
  obtain ⟨i, hi, rfl⟩ := List.getElem_of_mem hx
  rw [h.seg.next_getElem hi]
  cases hnext : l[i + 1]? with
  | none => exact .inl rfl
  | some y => exact .inr (List.mem_of_getElem? hnext)

/-- `prev` leads to a node of the list, and from the head nowhere. -/
theorem prev_mem (h : DList null next prev head tail l) {x : A} (hx : x ∈ l) :
    prev x = null ∨ prev x ∈ l := by
  obtain ⟨i, hi, rfl⟩ := List.getElem_of_mem hx
  cases i with
  | zero => cases l with
    | nil => cases hi
    | cons y ys => exact .inl h.seg.1
  | succ i => rw [h.prev_getElem hi]; exact .inr (List.getElem_mem _)

/-- No node is in front of itself. -/
theorem prev_ne (h : DList null next prev head tail l) {x : A} (hx : x ∈ l) : prev x ≠ x := by
  obtain ⟨i, hi, rfl⟩ := List.getElem_of_mem hx
  cases i with
  | zero => cases l with
    | nil => cases hi
    | cons y ys =>
        intro e
        have hy : null = y := h.seg.1.symm.trans e
        exact h.not_null (hy ▸ List.mem_cons_self)
  | succ i =>
      rw [h.prev_getElem hi, ne_eq, h.nodup.getElem_inj_iff]
      omega

/-- `prev` undoes `next`. -/
theorem prev_next (h : DList null next prev head tail l) {x : A} (hx : x ∈ l)
    (hnext : next x ≠ null) : prev (next x) = x := by
  obtain ⟨i, hi, rfl⟩ := List.getElem_of_mem hx
  have hlast : i + 1 < l.length := by
    by_contra hc
    rw [h.seg.next_getElem hi, List.getElem?_eq_none (by omega)] at hnext
    exact hnext rfl
  rw [h.next_getElem hlast, h.prev_getElem hlast]

/-- Removing the last node. -/
theorem unsnoc {a head' : A} (h : DList null next prev head tail (l ++ [a]))
    (hn : ∀ x ∈ l, x ≠ prev a → next' x = next x) (hp : ∀ x ∈ l, prev' x = prev x)
    (hlast : l ≠ [] → next' (prev a) = null) (hhead : head' = if l = [] then null else head) :
    DList null next' prev' head' (prev a) l := by
  have hprev := h.seg.prev_last
  have hnd := (List.nodup_append.mp h.nodup).1
  rw [hprev] at hn hlast
  refine ⟨hnd, fun hm => h.not_null (List.mem_append_left _ hm), ?_, hprev,
    h.seg.unsnoc hn hp hnd hlast⟩
  rw [hhead]
  cases l with
  | nil => rfl
  | cons x xs => exact h.head_eq

/-! ### Going round -/

/-- The node behind `x`, and behind the tail the head. -/
def after [DecidableEq A] (null : A) (next : A → A) (head x : A) : A :=
  if next x = null then head else next x

variable [DecidableEq A]

/-- Going round: behind the last entry is the first. -/
theorem after_getElem (h : DList null next prev head tail l) {i : Nat} (hi : i < l.length) :
    l[(i + 1) % l.length]? = some (after null next head l[i]) := by
  have htail : next l[i] = null ↔ i + 1 = l.length :=
    (h.next_eq_null_iff (List.getElem_mem hi)).trans (h.getElem_eq_tail_iff hi)
  by_cases hlast : i + 1 = l.length
  · have hhead : l[0] = head := (h.getElem_eq_head_iff (by omega)).mpr rfl
    rw [after, if_pos (htail.mpr hlast), hlast, Nat.mod_self, List.getElem?_eq_getElem (by omega),
      hhead]
  · rw [after, if_neg fun e => hlast (htail.mp e), h.next_getElem (by omega),
      Nat.mod_eq_of_lt (by omega), List.getElem?_eq_getElem]

/-- From any node, going on `n` times leads to the node `n` places further round. -/
theorem after_iterate (h : DList null next prev head tail l) {i : Nat} (hi : i < l.length)
    (n : Nat) : l[(i + n) % l.length]? = some ((after null next head)^[n] l[i]) := by
  induction n with
  | zero => rw [Nat.add_zero, Nat.mod_eq_of_lt hi, List.getElem?_eq_getElem hi]; rfl
  | succ n ih =>
      obtain ⟨hlt, hat⟩ := List.getElem?_eq_some_iff.mp ih
      have hnext := h.after_getElem hlt
      rwa [Nat.mod_add_mod, Nat.add_assoc, hat,
        ← Function.iterate_succ_apply' (after null next head)]
        at hnext

/-- **Going round.**  From any node every node is visited once, and then the first again. -/
theorem round (h : DList null next prev head tail l) {x : A} (hx : x ∈ l) :
    (after null next head)^[l.length] x = x ∧
      ∃ visited : List A, visited.Perm l ∧
        ∀ n (hn : n < visited.length), (after null next head)^[n] x = visited[n] := by
  obtain ⟨i, hi, rfl⟩ := List.getElem_of_mem hx
  refine ⟨?_, l.rotate i, l.rotate_perm i, fun n hn => ?_⟩
  · have hback := h.after_iterate hi l.length
    rw [Nat.add_mod_right, Nat.mod_eq_of_lt hi, List.getElem?_eq_getElem hi] at hback
    exact (Option.some.inj hback).symm
  · have hvisit := h.after_iterate hi n
    rw [List.length_rotate] at hn
    rw [Nat.add_comm, List.getElem?_eq_getElem (Nat.mod_lt _ (by omega))] at hvisit
    rw [List.getElem_rotate]
    exact (Option.some.inj hvisit).symm

end DList

end KernelNES.Lib
