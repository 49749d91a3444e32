/-!
# Steps that succeed

When a step that is built from another one gives a result, or fails.
-/

namespace HttpClientGen

variable {ε ε' α β : Type}

theorem map_eq_ok_iff {f : α → β} {step : Except ε α} {b : β} :
    f <$> step = .ok b ↔ ∃ a, step = .ok a ∧ f a = b := by
  cases step <;> simp [Functor.map, Except.map]

theorem map_eq_error_iff {f : α → β} {step : Except ε α} {failure : ε} :
    f <$> step = .error failure ↔ step = .error failure := by
  cases step <;> simp [Functor.map, Except.map]

theorem bind_eq_ok_iff {f : α → Except ε β} {step : Except ε α} {b : β} :
    step >>= f = .ok b ↔ ∃ a, step = .ok a ∧ f a = .ok b := by
  cases step <;> simp [bind, Except.bind]

theorem bind_eq_error_iff {f : α → Except ε β} {step : Except ε α} {failure : ε} :
    step >>= f = .error failure ↔
      step = .error failure ∨ ∃ a, step = .ok a ∧ f a = .error failure := by
  cases step <;> simp [bind, Except.bind]

theorem mapError_eq_ok_iff {f : ε → ε'} {step : Except ε α} {a : α} :
    step.mapError f = .ok a ↔ step = .ok a := by
  cases step with
  | ok b =>
    show (.ok b : Except ε' α) = .ok a ↔ (.ok b : Except ε α) = .ok a
    rw [Except.ok.injEq, Except.ok.injEq]
  | error e => exact ⟨nofun, nofun⟩

theorem mapError_eq_error_iff {f : ε → ε'} {step : Except ε α} {failure : ε'} :
    step.mapError f = .error failure ↔ ∃ cause, step = .error cause ∧ f cause = failure := by
  cases step with
  | ok b => exact ⟨nofun, fun ⟨_, failed, _⟩ => nomatch failed⟩
  | error cause =>
    constructor
    · rintro ⟨⟩
      exact ⟨cause, rfl, rfl⟩
    · rintro ⟨_, ⟨⟩, rfl⟩
      rfl

theorem toOption_eq_some_iff {step : Except ε α} {a : α} :
    step.toOption = some a ↔ step = .ok a := by
  cases step <;> simp [Except.toOption]

end HttpClientGen
