/-!
# Results and faults

When a result that is computed in steps comes out: every step must let it through.
-/

namespace PowerPC

variable {x : Except ε α} {g : α → β} {b : β} {p : Prop} [Decidable p] {a a' : α} {e : ε}

theorem map_ok : x.map g = .ok b ↔ ∃ a, x = .ok a ∧ g a = b := by
  cases x with
  | error e => simp [Except.map]
  | ok a => simp [Except.map]

theorem map_error : x.map g = .error e ↔ x = .error e := by
  cases x with
  | error e => simp [Except.map]
  | ok a => simp [Except.map]

/-- There is one fault that it can fail with. -/
theorem error_iff_of_ok_iff {ok : Prop} {e' : ε} (hok : (∃ a, x = .ok a) ↔ ok)
    (herror : ∀ e, x = .error e → e = e') : x = .error e ↔ ¬ ok ∧ e = e' := by
  rw [← hok]
  cases x with
  | ok a => simp
  | error d =>
    obtain rfl := herror d rfl
    simp [eq_comm]

theorem bind_pure_ok : (x >>= fun a => pure (g a)) = .ok b ↔ ∃ a, x = .ok a ∧ g a = b := by
  rw [bind_pure_comp]
  exact map_ok

theorem require_ok : (if p then .ok a else .error e : Except ε α) = .ok a' ↔ a = a' ∧ p := by
  by_cases hp : p
  · simp [hp]
  · simp [hp]

theorem refuse_ok : (if p then .error e else .ok a : Except ε α) = .ok a' ↔ a = a' ∧ ¬ p := by
  by_cases hp : p
  · simp [hp]
  · simp [hp]

end PowerPC
