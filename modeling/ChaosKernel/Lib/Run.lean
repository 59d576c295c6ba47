import Mathlib

/-!
# Runs of a deterministic, fallible state machine

Kernel components are modelled as a step function `State → Action → Option State`:
`none` is a step the component refuses (a panic, or a call its callers never
make).  This module provides the two views used throughout the development:
the inductive set of reachable states, with its invariant rule, and explicit
runs over a list of actions, which are how concrete histories are written.
-/

namespace ChaosKernel.Lib

variable {State Action : Type*}

/-- The states reached from `start` by finitely many successful steps. -/
inductive Reachable (step : State → Action → Option State) (start : State) : State → Prop
  | refl : Reachable step start start
  | tail {state next : State} (action : Action) :
      Reachable step start state → step state action = some next → Reachable step start next

/-- The invariant rule: a property of the start state that every successful step
preserves holds in every reachable state. -/
theorem Reachable.invariant {step : State → Action → Option State} {start : State}
    {inv : State → Prop} (hstart : inv start)
    (hstep : ∀ state action next, inv state → step state action = some next → inv next)
    {state : State} (hreach : Reachable step start state) : inv state := by
  induction hreach with
  | refl => exact hstart
  | tail action _ hnext ih => exact hstep _ action _ ih hnext

theorem Reachable.trans {step : State → Action → Option State} {start middle state : State}
    (hfirst : Reachable step start middle) (hsecond : Reachable step middle state) :
    Reachable step start state := by
  induction hsecond with
  | refl => exact hfirst
  | tail action _ hnext ih => exact .tail action ih hnext

/-- Apply the actions in order, stopping at the first refused step. -/
def runSteps (step : State → Action → Option State) : State → List Action → Option State
  | state, [] => some state
  | state, action :: actions => (step state action).bind fun next => runSteps step next actions

@[simp]
theorem runSteps_nil (step : State → Action → Option State) (state : State) :
    runSteps step state [] = some state := rfl

@[simp]
theorem runSteps_cons (step : State → Action → Option State) (state : State)
    (action : Action) (actions : List Action) :
    runSteps step state (action :: actions) =
      (step state action).bind fun next => runSteps step next actions := rfl

theorem runSteps_append (step : State → Action → Option State) (state : State)
    (first second : List Action) :
    runSteps step state (first ++ second) =
      (runSteps step state first).bind fun middle => runSteps step middle second := by
  induction first generalizing state with
  | nil => rfl
  | cons action actions ih =>
      simp only [List.cons_append, runSteps_cons]
      cases step state action with
      | none => rfl
      | some next => exact ih next

/-- The last step of a run, from the state the rest of the run ends in. -/
theorem step_of_runSteps_append {step : State → Action → Option State} {start middle state : State}
    {actions : List Action} {action : Action} (hfirst : runSteps step start actions = some middle)
    (hrun : runSteps step start (actions ++ [action]) = some state) :
    step middle action = some state := by
  rw [runSteps_append, hfirst] at hrun
  simpa using hrun

/-- Every state a run ends in is reachable. -/
theorem reachable_of_runSteps {step : State → Action → Option State} {start state : State}
    {actions : List Action} (hrun : runSteps step start actions = some state) :
    Reachable step start state := by
  induction actions generalizing start with
  | nil =>
      simp only [runSteps_nil, Option.some.injEq] at hrun
      subst hrun
      exact .refl
  | cons action actions ih =>
      simp only [runSteps_cons, Option.bind_eq_some_iff] at hrun
      obtain ⟨next, hnext, hrest⟩ := hrun
      exact Reachable.trans (.tail action .refl hnext) (ih hrest)

end ChaosKernel.Lib
