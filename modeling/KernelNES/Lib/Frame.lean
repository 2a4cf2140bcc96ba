import Mathlib.Init

/-!
# Lib — Frame

What a state computation leaves alone.  `Preserves f x`: `x` keeps `f` of the state.
`Confined f A x`: `x` changes the cells of `f` at most at the indexes `A`, read off the state it
starts from.  `Keeps P x`: `x` keeps the property `P` of the state.  All compose along `>>=`, so
what a program leaves alone follows from what its primitives do.
-/

namespace KernelNES.Lib

variable {σ α β γ ι : Type}

/-- `x` leaves `f` of the state as it is. -/
def Preserves (f : σ → γ) (x : StateM σ α) : Prop := ∀ s, f (x s).2 = f s

/-- `x` changes `f` at most at the indexes `A`. -/
def Confined (f : σ → ι → γ) (A : σ → List ι) (x : StateM σ α) : Prop :=
  ∀ s i, i ∉ A s → f (x s).2 i = f s i

/-- What both parts preserve. -/
theorem Preserves.bind {f : σ → γ} {x : StateM σ α} {y : α → StateM σ β} (hx : Preserves f x)
    (hy : ∀ a, Preserves f (y a)) : Preserves f (x >>= y) :=
  fun s => (hy (x s).1 (x s).2).trans (hx s)

theorem Preserves.ite {f : σ → γ} {c : Prop} [Decidable c] {x y : StateM σ α}
    (hx : Preserves f x) (hy : Preserves f y) : Preserves f (if c then x else y) := by
  split
  · exact hx
  · exact hy

/-- What is read off a preserved value is preserved. -/
theorem Preserves.comp {f : σ → γ} {x : StateM σ α} (h : Preserves f x) (g : γ → β) :
    Preserves (fun s => g (f s)) x := fun s => congrArg g (h s)

/-- What preserves every cell is confined to any of them. -/
theorem Preserves.confined {f : σ → ι → γ} {x : StateM σ α} (h : Preserves f x)
    (A : σ → List ι) : Confined f A x := fun s i _ => congrFun (h s) i

/-- A computation followed by one that preserves `f`. -/
theorem Confined.bind_preserves {f : σ → ι → γ} {A : σ → List ι} {x : StateM σ α}
    {y : α → StateM σ β} (hx : Confined f A x) (hy : ∀ a, Preserves f (y a)) :
    Confined f A (x >>= y) :=
  fun s i hi => (congrFun (hy (x s).1 (x s).2) i).trans (hx s i hi)

/-- A computation that preserves `f`, followed by one confined to indexes its result and the state
it leaves determine. -/
theorem Confined.preserves_bind {f : σ → ι → γ} {A : σ → List ι} {x : StateM σ α}
    {B : α → σ → List ι} {y : α → StateM σ β} (hx : Preserves f x)
    (hy : ∀ a, Confined f (B a) (y a)) (hA : ∀ s, B (x s).1 (x s).2 = A s) :
    Confined f A (x >>= y) :=
  fun s i hi => (hy _ _ i (by rwa [hA])).trans (congrFun (hx s) i)

/-- `x` keeps the property `P` of the state. -/
def Keeps (P : σ → Prop) (x : StateM σ α) : Prop := ∀ s, P s → P (x s).2

/-- What both parts keep. -/
theorem Keeps.bind {P : σ → Prop} {x : StateM σ α} {y : α → StateM σ β} (hx : Keeps P x)
    (hy : ∀ a, Keeps P (y a)) : Keeps P (x >>= y) :=
  fun s hs => hy (x s).1 (x s).2 (hx s hs)

theorem Keeps.ite {P : σ → Prop} {c : Prop} [Decidable c] {x y : StateM σ α}
    (hx : Keeps P x) (hy : Keeps P y) : Keeps P (if c then x else y) := by
  split
  · exact hx
  · exact hy

/-- A loop keeps what each of its rounds keeps. -/
theorem Keeps.forM {P : σ → Prop} {f : ι → StateM σ PUnit} {l : List ι}
    (h : ∀ i ∈ l, Keeps P (f i)) : Keeps P (l.forM f) := by
  induction l with
  | nil => exact fun _ hs => hs
  | cons i l ih =>
      exact .bind (h i List.mem_cons_self) fun _ => ih fun j hj => h j (List.mem_cons_of_mem i hj)

end KernelNES.Lib
