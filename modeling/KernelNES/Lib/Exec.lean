import Mathlib.Tactic.Choose

/-!
# Lib — Exec

Computations that change a state and can stop at a fault.  `Settles x r`: from every state, `x`
ends as `r` says.  `Settles` composes along `>>=` (`Settles.bind`), so a program whose result does
not depend on the state it starts from is run part by part, without following the state.  `FaultsIn`
bounds the faults a program can stop at, and composes in the same way; so does every `Sequential`
property, and what a program is shown to have from its parts alone it has for each of them.
-/

namespace KernelNES.Lib

variable {ε σ α β : Type}

/-- A computation on a state that can stop at a fault. -/
abbrev Exec (ε σ : Type) := StateT σ (Except ε)

namespace Exec

/-- Stop at a fault. -/
def fault (e : ε) : Exec ε σ α := fun _ => .error e

/-- A computation that does not use the state. -/
def lift (r : Except ε α) : Exec ε σ α := fun s => r.map fun a => (a, s)

/-- What runs first answers, and the rest goes on from there. -/
theorem bind_ok {x : Exec ε σ α} {f : α → Exec ε σ β} {s s' : σ} {a : α}
    (h : x s = .ok (a, s')) : (x >>= f) s = f a s' := by
  show (x s).bind (fun p => f p.1 p.2) = _
  rw [h]; rfl

/-- A fault ends the run. -/
theorem bind_error {x : Exec ε σ α} {f : α → Exec ε σ β} {s : σ} {e : ε}
    (h : x s = .error e) : (x >>= f) s = .error e := by
  show (x s).bind (fun p => f p.1 p.2) = _
  rw [h]; rfl

theorem get_bind {f : σ → Exec ε σ β} {s : σ} : ((get : Exec ε σ σ) >>= f) s = f s s := rfl

theorem lift_ok_bind {a : α} {f : α → Exec ε σ β} {s : σ} :
    ((lift (.ok a) : Exec ε σ α) >>= f) s = f a s := rfl

/-- Lifted, a pure answer leaves the state alone. -/
theorem lift_eq_ok {r : Except ε α} {s s' : σ} {a : α} :
    lift r s = .ok (a, s') ↔ r = .ok a ∧ s' = s := by
  cases r <;> simp [lift, Except.map, eq_comm]

/-- What a sequence that ends without a fault did. -/
theorem bind_eq_ok {x : Exec ε σ α} {f : α → Exec ε σ β} {s s' : σ} {b : β} :
    (x >>= f) s = .ok (b, s') ↔ ∃ a s₁, x s = .ok (a, s₁) ∧ f a s₁ = .ok (b, s') := by
  constructor
  · intro h
    cases hx : x s with
    | error e => rw [bind_error hx] at h; cases h
    | ok p => exact ⟨p.1, p.2, rfl, by rwa [bind_ok hx] at h⟩
  · rintro ⟨a, s₁, hx, hf⟩
    rw [bind_ok hx, hf]

end Exec

/-- From every state, `x` ends as `r` says. -/
def Settles (x : Exec ε σ α) (r : Except ε α) : Prop :=
  ∀ s, (∃ a s', r = .ok a ∧ x s = .ok (a, s')) ∨ ∃ e, r = .error e ∧ x s = .error e

namespace Settles
variable {x : Exec ε σ α} {r : Except ε α}

/-- What settles on an answer gives it from every state. -/
theorem ok {a : α} (h : Settles x (.ok a)) (s : σ) : ∃ s', x s = .ok (a, s') := by
  rcases h s with ⟨_, s', ha, hx⟩ | ⟨_, he, -⟩
  · cases ha; exact ⟨s', hx⟩
  · cases he

theorem of_ok {a : α} (h : ∀ s, ∃ s', x s = .ok (a, s')) : Settles x (.ok a) := by
  intro s
  obtain ⟨s', hx⟩ := h s
  exact .inl ⟨a, s', rfl, hx⟩

/-- What faults from every state settles on the fault. -/
theorem of_error {e : ε} (h : ∀ s, x s = .error e) : Settles x (.error e) :=
  fun s => .inr ⟨e, rfl, h s⟩

theorem pure (a : α) : Settles (pure a : Exec ε σ α) (.ok a) := of_ok fun s => ⟨s, rfl⟩

theorem fault (e : ε) : Settles (Exec.fault e : Exec ε σ α) (.error e) := of_error fun _ => rfl

theorem lift (r : Except ε α) : Settles (Exec.lift r : Exec ε σ α) r := by
  cases r with
  | ok a => exact of_ok fun s => ⟨s, rfl⟩
  | error e => exact of_error fun _ => rfl

/-- A sequence settles when its parts do. -/
theorem bind {g : α → Exec ε σ β} {t : α → Except ε β} (hx : Settles x r)
    (hg : ∀ a, r = .ok a → Settles (g a) (t a)) : Settles (x >>= g) (r >>= t) := by
  intro s
  rcases hx s with ⟨a, s₁, rfl, hxs⟩ | ⟨e, rfl, hxs⟩
  · rcases hg a rfl s₁ with ⟨b, s₂, hb, hgs⟩ | ⟨e, he, hgs⟩
    · exact .inl ⟨b, s₂, hb, by rw [Exec.bind_ok hxs, hgs]⟩
    · exact .inr ⟨e, he, by rw [Exec.bind_ok hxs, hgs]⟩
  · exact .inr ⟨e, rfl, Exec.bind_error hxs⟩

/-- After a computation that returns `a`. -/
theorem bind_ok {g : α → Exec ε σ β} {a : α} {t : Except ε β} (hx : Settles x (.ok a))
    (hg : Settles (g a) t) : Settles (x >>= g) t :=
  hx.bind (t := fun _ => t) fun _ h => by cases h; exact hg

end Settles

/-- Whether and how `x` ends does not depend on the state it starts from. -/
def Settled (x : Exec ε σ α) : Prop := ∃ r, Settles x r

namespace Settled
variable {x : Exec ε σ α}

theorem pure (a : α) : Settled (pure a : Exec ε σ α) := ⟨_, .pure a⟩

theorem fault (e : ε) : Settled (Exec.fault e : Exec ε σ α) := ⟨_, .fault e⟩

theorem lift (r : Except ε α) : Settled (Exec.lift r : Exec ε σ α) := ⟨_, .lift r⟩

/-- What settles, whatever comes before answers. -/
theorem bind {f : α → Exec ε σ β} (hx : Settled x) (hf : ∀ a, Settled (f a)) :
    Settled (x >>= f) := by
  obtain ⟨r, hr⟩ := hx
  choose t ht using hf
  exact ⟨r >>= t, hr.bind fun a _ => ht a⟩

end Settled

/-- `P` holds of a computation that returns at once, and of a sequence when it holds of its
parts. -/
structure Sequential (P : (α : Type) → Exec ε σ α → Prop) : Prop where
  pure : ∀ {α : Type} (a : α), P α (pure a)
  bind : ∀ {α β : Type} {x : Exec ε σ α} {f : α → Exec ε σ β},
    P α x → (∀ a, P β (f a)) → P β (x >>= f)

theorem Sequential.ite {P : (α : Type) → Exec ε σ α → Prop} (_ : Sequential P) {p : Prop}
    [Decidable p] {x y : Exec ε σ α} (hx : P α x) (hy : P α y) : P α (if p then x else y) := by
  split
  · exact hx
  · exact hy

theorem Settled.sequential : Sequential fun _ (x : Exec ε σ _) => Settled x := ⟨.pure, .bind⟩

/-- `x` stops at no other faults than those in `F`. -/
def FaultsIn (F : ε → Prop) (x : Exec ε σ α) : Prop := ∀ s e, x s = .error e → F e

namespace FaultsIn
variable {F : ε → Prop} {x : Exec ε σ α}

theorem pure (a : α) : FaultsIn F (pure a : Exec ε σ α) := nofun

theorem fault {e : ε} (h : F e) : FaultsIn F (Exec.fault e : Exec ε σ α) := by
  rintro s _ ⟨⟩
  exact h

theorem lift {r : Except ε α} (h : ∀ e, r = .error e → F e) :
    FaultsIn F (Exec.lift r : Exec ε σ α) := by
  intro s e he
  cases r with
  | error => cases he; exact h e rfl
  | ok a => cases he

/-- Only the faults of the two parts. -/
theorem bind {f : α → Exec ε σ β} (hx : FaultsIn F x) (hf : ∀ a, FaultsIn F (f a)) :
    FaultsIn F (x >>= f) := by
  intro s e he
  cases h : x s with
  | error e' =>
    rw [Exec.bind_error h] at he
    cases he
    exact hx s e h
  | ok p =>
    rw [Exec.bind_ok h] at he
    exact hf p.1 p.2 e he

theorem sequential (F : ε → Prop) : Sequential fun _ (x : Exec ε σ _) => FaultsIn F x :=
  ⟨.pure, .bind⟩

theorem ite {p : Prop} [Decidable p] {y : Exec ε σ α} (hx : FaultsIn F x) (hy : FaultsIn F y) :
    FaultsIn F (if p then x else y) := by
  split
  · exact hx
  · exact hy

end FaultsIn

end KernelNES.Lib
