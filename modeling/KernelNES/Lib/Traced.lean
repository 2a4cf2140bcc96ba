import KernelNES.Lib.Exec

/-!
# Lib — Traced

Computations that mark what they do.  The marks made before a fault are kept, so what a computation
did before it stopped can be spoken of.  `x.erase` is the computation without its marks: an
annotated copy of a program is the program once its marks are erased, and `Marks P x`, that all
marks of `x` are in `P`, then is a fact about the program.
-/

namespace KernelNES.Lib

/-- A computation that makes marks of type `ι`. -/
def Traced (ι ε σ α : Type) : Type := σ → List ι × Except ε (α × σ)

namespace Traced
variable {ι ε σ α β : Type}

/-- The marks of the second part follow those of the first, when the first comes to its end. -/
def andThen (x : Traced ι ε σ α) (f : α → Traced ι ε σ β) : Traced ι ε σ β := fun s =>
  match x s with
  | (t, .error e) => (t, .error e)
  | (t, .ok (a, s')) => (t ++ (f a s').1, (f a s').2)

instance : Monad (Traced ι ε σ) where
  pure a := fun s => ([], .ok (a, s))
  bind := andThen

/-- Make a mark. -/
def mark (i : ι) : Traced ι ε σ Unit := fun s => ([i], .ok ((), s))

/-- A computation that makes no marks. -/
def quiet (x : Exec ε σ α) : Traced ι ε σ α := fun s => ([], x s)

/-- A computation on a part of the state. -/
def zoom {τ : Type} (get : τ → σ) (set : σ → τ → τ) (x : Traced ι ε σ α) :
    Traced ι ε τ α := fun t =>
  ((x (get t)).1, (x (get t)).2.map fun (a, s) => (a, set s t))

/-- The marks made from a state on. -/
def trace (x : Traced ι ε σ α) (s : σ) : List ι := (x s).1

/-- The computation without its marks. -/
def erase (x : Traced ι ε σ α) : Exec ε σ α := fun s => (x s).2

variable {x : Traced ι ε σ α} {f : α → Traced ι ε σ β} {s s' : σ} {a : α}

/-! ### Erasing the marks -/

@[simp] theorem erase_pure (a : α) : (pure a : Traced ι ε σ α).erase = pure a := rfl

@[simp] theorem erase_mark (i : ι) : (mark i : Traced ι ε σ Unit).erase = pure () := rfl

@[simp] theorem erase_quiet (x : Exec ε σ α) : (quiet x : Traced ι ε σ α).erase = x := rfl

@[simp] theorem erase_bind (x : Traced ι ε σ α) (f : α → Traced ι ε σ β) :
    (x >>= f).erase = x.erase >>= fun a => (f a).erase := by
  funext s
  show (andThen x f s).2 = (x s).2.bind fun p => (f p.1 p.2).2
  unfold andThen
  rcases x s with ⟨t, e | ⟨a, s'⟩⟩ <;> rfl

/-- Erasing goes through a part of the state. -/
theorem erase_zoom {τ : Type} (get : τ → σ) (set : σ → τ → τ) (x : Traced ι ε σ α) (t : τ) :
    (zoom get set x).erase t = (x.erase (get t)).map fun (a, s) => (a, set s t) := rfl

@[simp] theorem erase_ite {p : Prop} [Decidable p] (x y : Traced ι ε σ α) :
    (if p then x else y).erase = if p then x.erase else y.erase := by
  split <;> rfl

/-! ### The marks of a sequence -/

@[simp] theorem trace_pure (a : α) (s : σ) : (pure a : Traced ι ε σ α).trace s = [] := rfl

@[simp] theorem trace_mark (i : ι) (s : σ) : (mark i : Traced ι ε σ Unit).trace s = [i] := rfl

@[simp] theorem trace_quiet (x : Exec ε σ α) (s : σ) : (quiet x : Traced ι ε σ α).trace s = [] :=
  rfl

/-- The trace of the first part, and then of the second. -/
theorem trace_bind_ok (h : x.erase s = .ok (a, s')) :
    (x >>= f).trace s = x.trace s ++ (f a).trace s' := by
  show (andThen x f s).1 = (x s).1 ++ (f a s').1
  rw [andThen, show x s = ((x s).1, .ok (a, s')) from Prod.ext rfl h]

/-- Behind a fault nothing is traced. -/
theorem trace_bind_error {e : ε} (h : x.erase s = .error e) : (x >>= f).trace s = x.trace s := by
  show (andThen x f s).1 = (x s).1
  rw [andThen, show x s = ((x s).1, .error e) from Prod.ext rfl h]

/-- A mark in front is the first of the trace. -/
@[simp] theorem trace_mark_bind (i : ι) (f : Unit → Traced ι ε σ β) (s : σ) :
    (mark i >>= f).trace s = i :: (f ()).trace s := rfl

theorem trace_quiet_bind_ok {y : Exec ε σ α} (h : y s = .ok (a, s')) :
    ((quiet y : Traced ι ε σ α) >>= f).trace s = (f a).trace s' :=
  trace_bind_ok (x := quiet y) h

/-- What is traced behind an untraced part comes from what follows it. -/
theorem mem_trace_quiet_bind {y : Exec ε σ α} {i : ι} :
    i ∈ ((quiet y : Traced ι ε σ α) >>= f).trace s ↔
      ∃ a s', y s = .ok (a, s') ∧ i ∈ (f a).trace s' := by
  cases hy : y s with
  | error e => simp [trace_bind_error (x := quiet y) hy]
  | ok p =>
    rw [trace_quiet_bind_ok hy]
    constructor
    · exact fun h => ⟨p.1, p.2, rfl, h⟩
    · rintro ⟨a, s', hp, h⟩
      cases hp
      exact h

/-- What is made of the result in the end makes no marks. -/
theorem trace_bind_pure (x : Traced ι ε σ α) (g : α → β) (s : σ) :
    (x >>= fun a => pure (g a)).trace s = x.trace s := by
  cases h : x.erase s with
  | error e => exact trace_bind_error h
  | ok p => rw [trace_bind_ok h, trace_pure, List.append_nil]

/-! ### What all marks are -/

/-- From every state, the marks of `x` are in `P`. -/
def Marks (P : ι → Prop) (x : Traced ι ε σ α) : Prop := ∀ s, ∀ i ∈ x.trace s, P i

namespace Marks
variable {P : ι → Prop}

theorem pure (a : α) : Marks P (pure a : Traced ι ε σ α) := nofun

theorem quiet (x : Exec ε σ α) : Marks P (quiet x : Traced ι ε σ α) := nofun

theorem mark {i : ι} (h : P i) : Marks P (mark i : Traced ι ε σ Unit) := by
  intro s j hj
  rw [trace_mark, List.mem_singleton] at hj
  exact hj ▸ h

/-- Each mark comes from one of the two parts. -/
theorem bind (hx : Marks P x) (hf : ∀ a, Marks P (f a)) : Marks P (x >>= f) := by
  intro s i hi
  cases h : x.erase s with
  | error e =>
    rw [trace_bind_error h] at hi
    exact hx s i hi
  | ok p =>
    rw [trace_bind_ok h, List.mem_append] at hi
    exact hi.elim (hx s i) (hf p.1 p.2 i)

theorem zoom {τ : Type} {get : τ → σ} {set : σ → τ → τ} (h : Marks P x) :
    Marks P (zoom get set x) := fun t => h (get t)

theorem ite {p : Prop} [Decidable p] {y : Traced ι ε σ α} (hx : Marks P x) (hy : Marks P y) :
    Marks P (if p then x else y) := by
  split
  · exact hx
  · exact hy

end Marks

end Traced

end KernelNES.Lib
