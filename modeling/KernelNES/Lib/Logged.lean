import KernelNES.Lib.Frame
import Mathlib.Control.Basic

/-!
# Lib — Logged

A program together with a log of the accesses it makes.  `Erases x y`: `x` without its log is the
program `y`.  What is shown of the log of `x` then is a fact about the accesses of `y`.
`Follows f obs x`: what `x` does to `obs` of the state can be told from the entries it logs, taken
in one by one by `f`.
-/

namespace KernelNES.Lib

variable {ι α β : Type} {m : Type → Type} [Monad m]

/-- A program that logs entries of type `ι`. -/
abbrev Logged (ι : Type) (m : Type → Type) := StateT (List ι) m

/-- Log an entry. -/
def note (i : ι) : Logged ι m Unit := fun log => pure ((), log ++ [i])

/-- A program that logs nothing. -/
def unlogged (x : m α) : Logged ι m α := fun log => do
  let a ← x
  pure (a, log)

/-- What is noted goes to the end of the log. -/
theorem note_bind_run [LawfulMonad m] (i : ι) (f : Unit → Logged ι m β) (log : List ι) :
    (note i >>= f) log = f () (log ++ [i]) := by
  show ((pure ((), log ++ [i]) : m _) >>= fun p => f p.1 p.2) = _
  rw [pure_bind]

/-- What is not logged leaves the log as it is. -/
theorem unlogged_bind_run [LawfulMonad m] (x : m α) (f : α → Logged ι m β) (log : List ι) :
    (unlogged x >>= f) log = x >>= fun a => f a log := by
  show ((x >>= fun a => pure (a, log)) >>= fun p => f p.1 p.2) = _
  rw [bind_assoc]
  simp only [pure_bind]

/-- Without its log, `x` is `y`. -/
def Erases (x : Logged ι m α) (y : m α) : Prop := ∀ log, Prod.fst <$> x log = y

namespace Erases

theorem ite {p : Prop} [Decidable p] {x x' : Logged ι m α} {y y' : m α} (hx : Erases x y)
    (hx' : Erases x' y') : Erases (if p then x else x') (if p then y else y') := by
  split
  · exact hx
  · exact hx'

variable [LawfulMonad m]

theorem pure (a : α) : Erases (pure a : Logged ι m α) (pure a) := by
  intro log
  show Prod.fst <$> (Pure.pure (a, log) : m (α × List ι)) = _
  rw [map_pure]

/-- Logs erase through a `>>=`. -/
theorem bind {x : Logged ι m α} {y : m α} {f : α → Logged ι m β} {g : α → m β} (hx : Erases x y)
    (hf : ∀ a, Erases (f a) (g a)) : Erases (x >>= f) (y >>= g) := by
  intro log
  show Prod.fst <$> (x log >>= fun p => f p.1 p.2) = _
  rw [map_bind, ← hx log, bind_map_left]
  congr 1
  funext p
  exact hf p.1 p.2

/-- An entry of the log leaves no trace in the program. -/
theorem note_bind (i : ι) {f : Unit → Logged ι m β} {y : m β} (hf : Erases (f ()) y) :
    Erases (note i >>= f) y := by
  intro log
  rw [note_bind_run]
  exact hf _

theorem unlogged (x : m α) : Erases (unlogged x : Logged ι m α) x := by
  intro log
  show Prod.fst <$> (x >>= fun a => Pure.pure (a, log)) = _
  rw [map_bind]
  simp only [map_pure, bind_pure]

end Erases

/-! ### A state that follows the log -/

section
variable {σ ω : Type} {f : ω → ι → ω} {obs : σ → ω}

/-- `x` takes `obs` of the state through the entries it logs. -/
def Follows (f : ω → ι → ω) (obs : σ → ω) (x : Logged ι (StateM σ) α) : Prop :=
  ∀ log s, ∃ new, (x log s).1.2 = log ++ new ∧ obs (x log s).2 = new.foldl f (obs s)

namespace Follows

/-- A program that logs nothing keeps `obs` of the state. -/
theorem unlogged {x : StateM σ α} (h : Preserves obs x) :
    Follows f obs (Lib.unlogged x : Logged ι (StateM σ) α) :=
  fun log s => ⟨[], (List.append_nil log).symm, h s⟩

theorem pure (a : α) : Follows f obs (pure a : Logged ι (StateM σ) α) :=
  fun log _ => ⟨[], (List.append_nil log).symm, rfl⟩

/-- What the log says follows the state through a `>>=`. -/
theorem bind {x : Logged ι (StateM σ) α} {y : α → Logged ι (StateM σ) β} (hx : Follows f obs x)
    (hy : ∀ a, Follows f obs (y a)) : Follows f obs (x >>= y) := by
  intro log s
  obtain ⟨new, hlog, hobs⟩ := hx log s
  obtain ⟨new', hlog', hobs'⟩ := hy (x log s).1.1 (x log s).1.2 (x log s).2
  refine ⟨new ++ new', ?_, ?_⟩
  · rw [← List.append_assoc, ← hlog]
    exact hlog'
  · rw [List.foldl_append, ← hobs]
    exact hobs'

/-- From the empty log, `obs` of the state is taken through the whole log. -/
theorem run {x : Logged ι (StateM σ) α} (h : Follows f obs x) (s : σ) :
    obs (x [] s).2 = (x [] s).1.2.foldl f (obs s) := by
  obtain ⟨new, hlog, hobs⟩ := h [] s
  rw [hlog, hobs, List.nil_append]

end Follows

/-- Taking in the entries that carry a value leaves the last one. -/
theorem foldl_or_eq_getLast? (g : ι → Option α) (log : List ι) (a : Option α) :
    log.foldl (fun a i => (g i).or a) a = (log.filterMap g).getLast?.or a := by
  induction log generalizing a with
  | nil => rfl
  | cons i log ih =>
    rw [List.foldl_cons, ih]
    cases hi : g i with
    | none => rw [List.filterMap_cons_none hi, Option.none_or]
    | some b =>
      rw [List.filterMap_cons_some hi, List.getLast?_cons]
      cases (log.filterMap g).getLast? <;> rfl

end

end KernelNES.Lib
