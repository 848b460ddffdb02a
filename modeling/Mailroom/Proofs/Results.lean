/-!
# Results of computations

What is known of the parts of a computation when it has succeeded, and when it has failed.
-/

namespace Mailroom

variable {ε ε' α β : Type}

/-- A computation that succeeds succeeds in both of its parts. -/
theorem bind_eq_ok {x : Except ε α} {f : α → Except ε β} {b : β} :
    (x >>= f) = .ok b ↔ ∃ a, x = .ok a ∧ f a = .ok b := by
  cases x with
  | error e =>
    constructor
    · intro failed
      cases failed
    · rintro ⟨a, failed, -⟩
      cases failed
  | ok a =>
    constructor
    · intro taken
      exact ⟨a, rfl, taken⟩
    · rintro ⟨a, same, taken⟩
      cases same
      exact taken

/-- A computation that fails fails in its first part, or in the second after the first succeeded. -/
theorem bind_eq_error {x : Except ε α} {f : α → Except ε β} {e : ε} :
    (x >>= f) = .error e ↔ x = .error e ∨ ∃ a, x = .ok a ∧ f a = .error e := by
  cases x with
  | error e' =>
    constructor
    · intro failed
      cases failed
      exact .inl rfl
    · rintro (same | ⟨a, taken, -⟩)
      · cases same
        rfl
      · cases taken
  | ok a =>
    constructor
    · intro failed
      exact .inr ⟨a, rfl, failed⟩
    · rintro (same | ⟨a, taken, failed⟩)
      · cases same
      · cases taken
        exact failed

/-- What is made of a result. -/
theorem map_eq_ok {x : Except ε α} {f : α → β} {b : β} :
    x.map f = .ok b ↔ ∃ a, x = .ok a ∧ f a = b := by
  cases x with
  | error e =>
    constructor
    · intro failed
      cases failed
    · rintro ⟨a, failed, -⟩
      cases failed
  | ok a =>
    constructor
    · intro taken
      cases taken
      exact ⟨a, rfl, rfl⟩
    · rintro ⟨a, same, rfl⟩
      cases same
      rfl

theorem mapError_eq_ok {x : Except ε α} {f : ε → ε'} {a : α} :
    x.mapError f = .ok a ↔ x = .ok a := by
  cases x with
  | error fault =>
    constructor
    · intro failed
      cases failed
    · intro failed
      cases failed
  | ok a' =>
    constructor
    · intro taken
      cases taken
      rfl
    · intro taken
      cases taken
      rfl

end Mailroom
