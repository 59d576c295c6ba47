import Mathlib

/-!
# Inverting binds in `Except`

The kernel's fallible code is modelled in `Except`, with a panic as the error.
A call that returns has returned from every step of its `do` block; these
lemmas take such a block apart one bind at a time.
-/

namespace ChaosKernel.Lib

universe u v

section Except

variable {ε : Type u} {α β : Type v}

/-- A bind after a step that returned runs the rest on its value. -/
theorem ok_bind (a : α) (f : α → Except ε β) : (Except.ok a >>= f) = f a := rfl

theorem bind_eq_ok {x : Except ε α} {f : α → Except ε β} {b : β} :
    x >>= f = .ok b ↔ ∃ a, x = .ok a ∧ f a = .ok b := by
  cases x with
  | error e => simp [bind, Except.bind]
  | ok a => simp [bind, Except.bind]

theorem bind_eq_error {x : Except ε α} {f : α → Except ε β} {e : ε} :
    x >>= f = .error e ↔ x = .error e ∨ ∃ a, x = .ok a ∧ f a = .error e := by
  cases x with
  | error e' => simp [bind, Except.bind]
  | ok a => simp [bind, Except.bind]

theorem map_eq_ok {x : Except ε α} {f : α → β} {b : β} :
    x.map f = .ok b ↔ ∃ a, x = .ok a ∧ f a = b := by
  cases x with
  | error e => simp [Except.map]
  | ok a => simp [Except.map]

/-- A state machine step that refuses a panic succeeds exactly when the call
returns. -/
theorem toOption_eq_some {x : Except ε α} {a : α} : x.toOption = some a ↔ x = .ok a := by
  cases x with
  | error e => simp [Except.toOption]
  | ok a' => simp [Except.toOption]

/-- A block panics when every way past its first step panics. -/
theorem exists_error_bind {x : Except ε α} {f : α → Except ε β}
    (h : ∀ a, x = .ok a → ∃ e, f a = .error e) : ∃ e, x >>= f = .error e := by
  cases x with
  | error e => exact ⟨e, rfl⟩
  | ok a => exact h a rfl

end Except

/-! ## Fuelled computations

A loop of the code that need not end is run for at most a given number of
turns: `Fuelled ε` is `Except ε` with one more outcome, `none`, for a run that
is still going when its fuel runs out. -/

section Fuelled

variable {ε α β : Type u}

/-- A computation that returns, fails with an `ε`, or runs out of fuel. -/
abbrev Fuelled (ε : Type u) := ExceptT ε Option

/-- A run that has not ended, for want of fuel. -/
def outOfFuel : Fuelled ε α :=
  ExceptT.lift none

variable {x : Fuelled ε α} {f : α → Fuelled ε β}

@[simp]
theorem run_outOfFuel : (outOfFuel : Fuelled ε α).run = none := rfl

theorem run_bind_eq_ok {b : β} :
    (x >>= f).run = some (.ok b) ↔ ∃ a, x.run = some (.ok a) ∧ (f a).run = some (.ok b) := by
  rcases hx : x.run with _ | _ | a <;> simp [ExceptT.run_bind, hx]

theorem run_bind_eq_error {e : ε} :
    (x >>= f).run = some (.error e) ↔
      x.run = some (.error e) ∨ ∃ a, x.run = some (.ok a) ∧ (f a).run = some (.error e) := by
  rcases hx : x.run with _ | _ | a <;> simp [ExceptT.run_bind, hx]

/-- A first step that returns hands its value on. -/
theorem run_bind_of_ok {a : α} (hx : x.run = some (.ok a)) : (x >>= f).run = (f a).run := by
  simp [ExceptT.run_bind, hx]

/-- A run out of fuel stays so. -/
theorem run_bind_of_none (hx : x.run = none) : (x >>= f).run = none := by
  simp [ExceptT.run_bind, hx]

/-- A block runs out of fuel when every way past its first step does. -/
theorem run_bind_eq_none (h : ∀ a, x.run = some (.ok a) → (f a).run = none)
    (hno : ∀ e, x.run ≠ some (.error e)) : (x >>= f).run = none := by
  rcases hx : x.run with _ | e | a
  · exact run_bind_of_none hx
  · exact absurd hx (hno e)
  · simp [ExceptT.run_bind, hx, h a hx]

@[simp]
theorem run_liftExcept (y : Except ε α) : (liftExcept y : Fuelled ε α).run = some y := by
  cases y <;> rfl

end Fuelled

end ChaosKernel.Lib
