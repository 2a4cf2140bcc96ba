import Mathlib.Init

/-!
# Lib — Runs

Runs of a labelled transition relation `R : σ → ι → σ → Prop`, as the list of labels taken and
the two end states.  A *step lemma* says what one step preserves; `Run.invariant` turns it into
what every run preserves.  `Meeting C R` is `R` cut down to the steps whose state and label satisfy
`C`; a run of `Meeting C R` is a run of `R` each of whose steps meets `C`.
-/

namespace KernelNES.Lib

variable {σ ι : Type*}

/-- `Run R s is s'`: the labels `is`, taken in order, lead from `s` to `s'`. -/
inductive Run (R : σ → ι → σ → Prop) : σ → List ι → σ → Prop where
  | nil (s : σ) : Run R s [] s
  | snoc {s s' s'' : σ} {is : List ι} {i : ι}
      (t : Run R s is s') (h : R s' i s'') : Run R s (is ++ [i]) s''

/-- `R`, restricted to the steps that meet `C`. -/
def Meeting (C : σ → ι → Prop) (R : σ → ι → σ → Prop) (s : σ) (i : ι) (s' : σ) : Prop :=
  C s i ∧ R s i s'

namespace Run

variable {R R' : σ → ι → σ → Prop} {s s' s'' : σ} {is js : List ι}

theorem one {i : ι} (h : R s i s') : Run R s [i] s' :=
  .snoc (.nil s) h

/-- One run behind another. -/
theorem trans (h₁ : Run R s is s') (h₂ : Run R s' js s'') : Run R s (is ++ js) s'' := by
  induction h₂ with
  | nil => simpa using h₁
  | snoc _ h ih => rw [← List.append_assoc]; exact .snoc ih h

theorem cons {i : ι} (h : R s i s') (t : Run R s' is s'') : Run R s (i :: is) s'' :=
  trans (one h) t

/-- A run of steps is one of weaker steps. -/
theorem mono (hR : ∀ s i s', R s i s' → R' s i s') (h : Run R s is s') : Run R' s is s' := by
  induction h with
  | nil => exact .nil _
  | snoc _ h ih => exact .snoc ih (hR _ _ _ h)

/-- Every step of a fold is one that `ok` allows. -/
def allAlong (next : σ → ι → σ) (ok : σ → ι → Bool) : σ → List ι → Bool
  | _, []      => true
  | s, i :: is => ok s i && allAlong next ok (next s i) is

/-- Runs can be computed: where `next` takes the steps that `ok` allows, a fold of such steps is a
run. -/
theorem of_allAlong {next : σ → ι → σ} {ok : σ → ι → Bool}
    (hok : ∀ s i, ok s i = true → R s i (next s i)) (h : allAlong next ok s is = true) :
    Run R s is (is.foldl next s) := by
  induction is generalizing s with
  | nil => exact .nil s
  | cons i is ih =>
      rw [allAlong, Bool.and_eq_true] at h
      exact .cons (hok s i h.1) (ih h.2)

/-- **The invariant rule.**  What holds at the start and is preserved by every step holds in
every state a run reaches. -/
theorem invariant {P : σ → Prop} (h₀ : P s) (hstep : ∀ s i s', P s → R s i s' → P s')
    (h : Run R s is s') : P s' := by
  induction h with
  | nil => exact h₀
  | snoc _ h ih => exact hstep _ _ _ ih h

/-- Two relations that agree where an invariant of the second holds have the same runs. -/
theorem congr_of_invariant {P : σ → Prop} (h₀ : P s)
    (hiff : ∀ s i s', P s → (R s i s' ↔ R' s i s')) (hstep : ∀ s i s', P s → R' s i s' → P s') :
    Run R s is s' ↔ Run R' s is s' := by
  constructor
  · intro h
    induction h with
    | nil => exact .nil _
    | snoc _ h ih => exact .snoc ih ((hiff _ _ _ (ih.invariant h₀ hstep)).mp h)
  · intro h
    induction h with
    | nil => exact .nil _
    | snoc t h ih => exact .snoc ih ((hiff _ _ _ (t.invariant h₀ hstep)).mpr h)

/-- **The purge rule.**  Where a step that is `mine` can be taken from every state with the same
view, with the same label, and the other steps leave the view alone, a run's steps that are `mine`
are a run by themselves, from every state with the same view. -/
theorem purge {P : σ → Prop} (V : σ → σ → Prop) (mine : ι → Prop) [DecidablePred mine] {t : σ}
    (h₀ : P s) (hstep : ∀ s i s', P s → R s i s' → P s')
    (hmine : ∀ s i s' t, P s → V s t → mine i → R s i s' → ∃ t', R t i t' ∧ V s' t')
    (hother : ∀ s i s' t, P s → V s t → ¬ mine i → R s i s' → V s' t)
    (hV : V s t) (h : Run R s is s') : ∃ t', Run R t (is.filter fun i => mine i) t' ∧ V s' t' := by
  induction h with
  | nil => exact ⟨t, .nil t, hV⟩
  | @snoc s₁ s₂ _ i r h ih =>
      obtain ⟨t₁, run, hV₁⟩ := ih
      have hP : P s₁ := r.invariant h₀ hstep
      rw [List.filter_append]
      by_cases hi : mine i
      · obtain ⟨t₂, h', hV₂⟩ := hmine _ _ _ _ hP hV₁ hi h
        exact ⟨t₂, by simpa [hi] using run.snoc h', hV₂⟩
      · exact ⟨t₁, by simpa [hi] using run, hother _ _ _ _ hP hV₁ hi h⟩

/-- The converse direction for a property a run never regains: if a step that does not meet `C`
leaves the bad state `B` behind it, and `B` is never left again, then a run that ends outside `B`
met `C` at every step. -/
theorem meeting_of_not {P B : σ → Prop} {C : σ → ι → Prop} (h₀ : P s)
    (hstep : ∀ s i s', P s → Meeting C R s i s' → P s')
    (hbad : ∀ s i s', P s → ¬ C s i → R s i s' → B s')
    (hstay : ∀ s i s', B s → R s i s' → B s')
    (h : Run R s is s') (hB : ¬ B s') : Run (Meeting C R) s is s' := by
  induction h with
  | nil => exact .nil _
  | @snoc s₁ s₂ _ i _ h ih =>
      have t : Run (Meeting C R) s _ s₁ := ih fun hb => hB (hstay _ _ _ hb h)
      have hP : P s₁ := t.invariant h₀ hstep
      by_cases hC : C s₁ i
      · exact .snoc t ⟨hC, h⟩
      · exact absurd (hbad _ _ _ hP hC h) hB

end Run

end KernelNES.Lib
