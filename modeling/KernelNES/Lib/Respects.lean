import Mathlib.Logic.Function.Basic

/-!
# Lib — Respects

Two runs of a state computation.  `Respects V x`: from states with the same view, `x` returns the
same and leaves states with the same view, so what `V` does not show never reaches what it shows.  A
result that differs may be used as long as what comes next looks only at what is the same in both
runs (`Respects.bind_factorsThrough`).
-/

namespace KernelNES.Lib

variable {σ τ α β γ : Type}

/-- What `x` returns, and the view of the state it leaves, depend on the view of the state alone. -/
def Respects (V : σ → τ) (x : StateM σ α) : Prop :=
  ∀ s t, V s = V t → (x s).1 = (x t).1 ∧ V (x s).2 = V (x t).2

namespace Respects
variable {V : σ → τ} {x : StateM σ α} {y : α → StateM σ β}

theorem pure (a : α) : Respects V (pure a : StateM σ α) := fun _ _ h => ⟨rfl, h⟩

/-- A result of which the rest looks at `g` only. -/
theorem bind_factorsThrough {g : α → γ} (hresult : ∀ s t, V s = V t → g (x s).1 = g (x t).1)
    (hview : ∀ s t, V s = V t → V (x s).2 = V (x t).2) (hg : y.FactorsThrough g)
    (hy : ∀ a, Respects V (y a)) : Respects V (x >>= y) := by
  intro s t h
  have hsame : y (x s).1 = y (x t).1 := hg (hresult s t h)
  show (y (x s).1 (x s).2).1 = (y (x t).1 (x t).2).1 ∧
    V (y (x s).1 (x s).2).2 = V (y (x t).1 (x t).2).2
  rw [hsame]
  exact hy _ _ _ (hview s t h)

/-- Respected by both parts, respected by the whole. -/
theorem bind (hx : Respects V x) (hy : ∀ a, Respects V (y a)) : Respects V (x >>= y) :=
  bind_factorsThrough (fun s t h => (hx s t h).1) (fun s t h => (hx s t h).2)
    (fun _ _ h => congrArg y h) hy

/-- A computation that is a function of the view. -/
theorem of_view (r : τ → α) (f : τ → τ) (hr : ∀ s, (x s).1 = r (V s))
    (hf : ∀ s, V (x s).2 = f (V s)) : Respects V x := by
  intro s t h
  rw [hr, hr, hf, hf, h]
  exact ⟨rfl, rfl⟩

end Respects

end KernelNES.Lib
