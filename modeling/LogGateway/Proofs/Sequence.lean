/-
Steps that keep a state and may fail, one after the other: what the first gives is what the next goes on with.
-/

namespace LogGateway

variable {ε σ α β : Type} {step : EStateM ε σ α} {next : α → EStateM ε σ β} {before after : σ}

theorem bind_of_ok {a : α} (h : step before = .ok a after) : (step >>= next) before = next a after := by
  simp only [bind, EStateM.bind, h]

theorem bind_of_error {e : ε} (h : step before = .error e after) : (step >>= next) before = .error e after := by
  simp only [bind, EStateM.bind, h]

/-- Two steps give something only if both do. -/
theorem of_bind_ok {b : β} (h : (step >>= next) before = .ok b after) :
    ∃ a mid, step before = .ok a mid ∧ next a mid = .ok b after := by
  cases hstep : step before with
  | ok a mid =>
    rw [bind_of_ok hstep] at h
    exact ⟨a, mid, rfl, h⟩
  | error e mid =>
    rw [bind_of_error hstep] at h
    cases h

end LogGateway
