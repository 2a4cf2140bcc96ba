import KernelNES.Lib.Exec

/-!
# Lib — Guarded

Partial correctness along the runs on which nothing goes wrong.  `good` says of a state that nothing
went wrong so far, and `I` is the invariant of such states.  `Guarded good I P x Q`: a run of `x`
that ends well began well; and if `P` held and `I` held of its first state, then `Q` holds of its
result and `I` of its last.  The precondition `P` is about the values `x` is given and not about the
state, so that `x` can be shown to begin well before anything is known of them (`Guarded.bind`).
-/

namespace KernelNES.Lib

variable {ε σ τ α β : Type} {good I : σ → Prop} {P : Prop} {Q : α → Prop} {R : β → Prop}

/-- `x` leaves `π` of the state as it is. -/
def Leaves (π : σ → τ) (x : Exec ε σ α) : Prop := ∀ s a s', x s = .ok (a, s') → π s' = π s

namespace Leaves
variable {π : σ → τ} {x : Exec ε σ α}

theorem pure (a : α) : Leaves π (pure a : Exec ε σ α) := by
  intro s b s' h
  cases h
  rfl

theorem fault (e : ε) : Leaves π (Exec.fault e : Exec ε σ α) := nofun

/-- What both parts leave alone. -/
theorem bind {f : α → Exec ε σ β} (hx : Leaves π x) (hf : ∀ a, Leaves π (f a)) :
    Leaves π (x >>= f) := by
  intro s b s' h
  obtain ⟨a, s₁, h₁, h₂⟩ := Exec.bind_eq_ok.mp h
  exact (hf a s₁ b s' h₂).trans (hx s a s₁ h₁)

theorem sequential (π : σ → τ) : Sequential fun _ (x : Exec ε σ _) => Leaves π x := ⟨.pure, .bind⟩

end Leaves

/-- A run of `x` that ends well began well, and takes `P` and `I` to `Q` and `I`. -/
def Guarded (good I : σ → Prop) (P : Prop) (x : Exec ε σ α) (Q : α → Prop) : Prop :=
  ∀ s a s', x s = .ok (a, s') → good s' → good s ∧ (P → I s → I s' ∧ Q a)

namespace Guarded
variable {x y : Exec ε σ α}

theorem pure {b : α} (h : P → Q b) : Guarded good I P (pure b : Exec ε σ α) Q := by
  intro s a s' hx hs
  cases hx
  exact ⟨hs, fun hP hI => ⟨hI, h hP⟩⟩

theorem fault (e : ε) : Guarded good I P (Exec.fault e : Exec ε σ α) Q := nofun

/-- A pure answer in front of a guarded run. -/
theorem lift_bind {r : Except ε α} {f : α → Exec ε σ β}
    (h : ∀ a, r = .ok a → Guarded good I P (f a) R) :
    Guarded good I P (Exec.lift r >>= f) R := by
  cases r with
  | error e => nofun
  | ok a => exact h a rfl

/-- What the first part establishes of its result is what the second part starts from. -/
theorem bind {f : α → Exec ε σ β} (hx : Guarded good I P x Q)
    (hf : ∀ a, Guarded good I (Q a) (f a) R) : Guarded good I P (x >>= f) R := by
  intro s b s' h hs'
  obtain ⟨a, s₁, h₁, h₂⟩ := Exec.bind_eq_ok.mp h
  obtain ⟨hs₁, hrest⟩ := hf a s₁ b s' h₂ hs'
  obtain ⟨hs, hfirst⟩ := hx s a s₁ h₁ hs₁
  refine ⟨hs, fun hP hI => ?_⟩
  obtain ⟨hI₁, hQ⟩ := hfirst hP hI
  exact hrest hQ hI₁

/-- The rule of consequence. -/
theorem conseq {P' : Prop} {Q' : α → Prop} (h : Guarded good I P x Q) (hP : P' → P)
    (hQ : ∀ a, P' → Q a → Q' a) : Guarded good I P' x Q' := by
  intro s a s' hx hs'
  obtain ⟨hs, hrun⟩ := h s a s' hx hs'
  refine ⟨hs, fun hP' hI => ?_⟩
  obtain ⟨hI', hQa⟩ := hrun (hP hP') hI
  exact ⟨hI', hQ a hP' hQa⟩

theorem pre {P' : Prop} (h : Guarded good I P x Q) (hP : P' → P) : Guarded good I P' x Q :=
  h.conseq hP fun _ _ hQ => hQ

/-- `bind`, where what was known before the first part is still known in the second. -/
theorem seq {f : α → Exec ε σ β} (hx : Guarded good I P x Q)
    (hf : ∀ a, Guarded good I (P ∧ Q a) (f a) R) : Guarded good I P (x >>= f) R :=
  bind (hx.conseq id fun _ hP hQ => ⟨hP, hQ⟩) hf

/-- A branch is guarded when each side is, given its condition. -/
theorem ite {c : Prop} [Decidable c] (hx : Guarded good I (P ∧ c) x Q)
    (hy : Guarded good I (P ∧ ¬ c) y Q) : Guarded good I P (if c then x else y) Q := by
  split
  · rename_i hc
    exact hx.pre fun hP => ⟨hP, hc⟩
  · rename_i hc
    exact hy.pre fun hP => ⟨hP, hc⟩

/-- The same on a larger state. -/
theorem embed {good' I' : τ → Prop} {x : Exec ε τ α} {z : Exec ε σ α} (π : σ → τ)
    (hz : ∀ s a s', z s = .ok (a, s') → x (π s) = .ok (a, π s'))
    (h : Guarded good' I' P x Q) :
    Guarded (fun s => good' (π s)) (fun s => I' (π s)) P z Q :=
  fun s a s' hs => h _ a _ (hz s a s' hs)

/-- A part that leaves alone what `good` and `I` are about. -/
theorem frame_seq {good' I' : τ → Prop} {π : σ → τ} {f : α → Exec ε σ β} (hx : Leaves π x)
    (hf : ∀ a, Guarded (fun s => good' (π s)) (fun s => I' (π s)) P (f a) R) :
    Guarded (fun s => good' (π s)) (fun s => I' (π s)) P (x >>= f) R := by
  intro s b s' h hs'
  obtain ⟨a, s₁, h₁, h₂⟩ := Exec.bind_eq_ok.mp h
  have hrest : good' (π s₁) ∧ (P → I' (π s₁) → I' (π s') ∧ R b) := hf a s₁ b s' h₂ hs'
  rwa [hx s a s₁ h₁] at hrest

end Guarded

end KernelNES.Lib
