/-
This file takes apart computations that succeed, and those that fail, and compares two that run
side by side.
-/

namespace PomLens

/-- Two steps that succeed have each succeeded. -/
theorem exists_of_bind_eq_ok {ε α β : Type} {first : Except ε α} {second : α → Except ε β}
    {result : β} (succeeded : first >>= second = .ok result) :
    ∃ between, first = .ok between ∧ second between = .ok result := by
  cases first with
  | error failure => cases succeeded
  | ok between => exact ⟨between, rfl, succeeded⟩

/-- Of two steps one has failed, and the first one has succeeded if it was the second. -/
theorem cases_of_bind_eq_error {ε α β : Type} {first : Except ε α} {second : α → Except ε β}
    {failure : ε} (failed : first >>= second = .error failure) :
    first = .error failure ∨ ∃ between, first = .ok between ∧ second between = .error failure := by
  cases first with
  | error other =>
    cases failed
    exact Or.inl rfl
  | ok between => exact Or.inr ⟨between, rfl, failed⟩

theorem toOption_eq_some_iff {ε α : Type} {outcome : Except ε α} {result : α} :
    outcome.toOption = some result ↔ outcome = .ok result := by
  cases outcome <;> simp [Except.toOption]

theorem exists_eq_ok_of_isSome_toOption {ε α : Type} {outcome : Except ε α}
    (succeeds : outcome.toOption.isSome = true) : ∃ result, outcome = .ok result := by
  obtain ⟨result, found⟩ := Option.isSome_iff_exists.mp succeeds
  exact ⟨result, toOption_eq_some_iff.mp found⟩

/-- A computation that may succeed with nothing succeeds with something. -/
theorem join_toOption_eq_some_iff {ε α : Type} {outcome : Except ε (Option α)} {result : α} :
    outcome.toOption.join = some result ↔ outcome = .ok (some result) := by
  rw [Option.join_eq_some_iff, toOption_eq_some_iff]

/-! ### Two computations -/

/-- Two computations fail in the same way, or both succeed and their results are related. -/
inductive Agree {ε α β : Type} (related : α → β → Prop) : Except ε α → Except ε β → Prop
  | error (failure : ε) : Agree related (.error failure) (.error failure)
  | ok {first : α} {second : β} (results : related first second) :
      Agree related (.ok first) (.ok second)

namespace Agree

variable {ε α β γ δ : Type} {related : α → β → Prop} {further : γ → δ → Prop}
  {first : Except ε α} {second : Except ε β}

theorem bind (agree : Agree related first second) {next : α → Except ε γ} {other : β → Except ε δ}
    (steps : ∀ left right, related left right → Agree further (next left) (other right)) :
    Agree further (first >>= next) (second >>= other) := by
  cases agree with
  | error failure => exact .error failure
  | ok results => exact steps _ _ results

/-- Related states stay related over steps that keep them so. -/
theorem foldlM {σ : Type} {step : α → σ → Except ε α} {other : β → σ → Except ε β}
    (steps : ∀ left right input, related left right →
      Agree related (step left input) (other right input))
    (inputs : List σ) {left : α} {right : β} (results : related left right) :
    Agree related (inputs.foldlM step left) (inputs.foldlM other right) := by
  induction inputs generalizing left right with
  | nil => exact .ok results
  | cons input rest inductionHypothesis =>
    rw [List.foldlM_cons, List.foldlM_cons]
    exact (steps left right input results).bind fun _ _ => inductionHypothesis

end Agree

end PomLens
