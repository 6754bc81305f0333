import Mathlib.Tactic.Common

/-!
# Transitions

Runs of a machine whose steps can fail, under a guard that each step has to meet, and the
rule that an invariant of one step is an invariant of every run.
-/

namespace StatsRecommender

variable {State Action Error : Type}

/-- The runs of `step` whose steps all meet the guard, with the actions taken so far. -/
inductive Reaches (step : State → Action → Except Error State) (guard : State → Action → Prop)
    (initial : State) : List Action → State → Prop
  | start : Reaches step guard initial [] initial
  | next {actions : List Action} {state next : State} {action : Action}
      (reached : Reaches step guard initial actions state) (guarded : guard state action)
      (taken : step state action = .ok next) :
      Reaches step guard initial (actions ++ [action]) next

namespace Reaches

variable {step : State → Action → Except Error State} {guard : State → Action → Prop}
  {initial state : State} {actions : List Action}

/-- What holds at the start and is kept by every guarded step holds of every run. -/
theorem invariant (reached : Reaches step guard initial actions state)
    (Holds : List Action → State → Prop) (start : Holds [] initial)
    (kept : ∀ actions state action next, Holds actions state → guard state action →
      step state action = .ok next → Holds (actions ++ [action]) next) :
    Holds actions state := by
  induction reached with
  | start => exact start
  | next _ guarded taken ih => exact kept _ _ _ _ ih guarded taken

/-- The rule for an invariant that does not look at the actions taken. -/
theorem state_invariant (reached : Reaches step guard initial actions state)
    (Holds : State → Prop) (start : Holds initial)
    (kept : ∀ state action next, Holds state → guard state action →
      step state action = .ok next → Holds next) :
    Holds state :=
  reached.invariant (fun _ => Holds) start fun _ => kept

/-- A run, from its first step on. -/
theorem cons {first : Action} {middle : State} {final : State} {rest : List Action}
    (guarded : guard initial first) (taken : step initial first = .ok middle)
    (reached : Reaches step guard middle rest final) :
    Reaches step guard initial (first :: rest) final := by
  induction reached with
  | start => exact .next .start guarded taken
  | next _ guarded' taken' ih => exact .next ih guarded' taken'

/-- A run may be guarded by less. -/
theorem weaken {guard' : State → Action → Prop}
    (reached : Reaches step guard initial actions state)
    (weaker : ∀ state action, guard state action → guard' state action) :
    Reaches step guard' initial actions state := by
  induction reached with
  | start => exact .start
  | next _ guarded taken ih => exact .next ih (weaker _ _ guarded) taken

/-- A run that nothing guards is what folding its steps comes to. -/
theorem of_foldlM (ran : actions.foldlM step initial = .ok state) :
    Reaches step (fun _ _ => True) initial actions state := by
  induction actions generalizing initial with
  | nil =>
      cases ran
      exact .start
  | cons action rest ih =>
      rw [List.foldlM_cons] at ran
      cases taken : step initial action with
      | error message =>
          rw [taken] at ran
          cases ran
      | ok next =>
          rw [taken] at ran
          exact .cons trivial taken (ih ran)

/-- What the state that a run comes to is tested for. -/
theorem exists_of_foldlM {p : State → Bool}
    (passed : (actions.foldlM step initial).toOption.any p = true) :
    ∃ state, Reaches step (fun _ _ => True) initial actions state ∧ p state = true := by
  cases ran : actions.foldlM step initial with
  | error message =>
      rw [ran] at passed
      cases passed
  | ok state =>
      rw [ran] at passed
      exact ⟨state, of_foldlM ran, passed⟩

/-- A step that is taken only where the guard allows it. -/
def guardedStep (step : State → Action → Except Error State) (guard : State → Action → Prop)
    [∀ state, DecidablePred (guard state)] (state : State) (action : Action) : Option State :=
  if guard state action then (step state action).toOption else none

variable (step guard) in
/-- What the state that a guarded run comes to is tested for. -/
theorem exists_of_guarded_foldlM [∀ state, DecidablePred (guard state)] (initial : State)
    (actions : List Action) (p : State → Bool)
    (passed : (actions.foldlM (guardedStep step guard) initial).any p = true) :
    ∃ state, Reaches step guard initial actions state ∧ p state = true := by
  induction actions generalizing initial with
  | nil => exact ⟨initial, .start, passed⟩
  | cons action rest ih =>
      rw [List.foldlM_cons, guardedStep] at passed
      by_cases guarded : guard initial action
      · rw [if_pos guarded] at passed
        cases taken : step initial action with
        | error message =>
            rw [taken] at passed
            cases passed
        | ok next =>
            rw [taken] at passed
            obtain ⟨state, reached, holds⟩ := ih next passed
            exact ⟨state, .cons guarded taken reached, holds⟩
      · rw [if_neg guarded] at passed
        cases passed

end Reaches

end StatsRecommender
