import Mathlib.Logic.Relation

set_option autoImplicit false

/- Runs of a guarded executable step. `step s event` is `none` where the event
is not enabled; `allowed` restricts a run to the steps that meet a condition. -/
namespace Runs

variable {σ α : Type} {step : σ → α → Option σ} {allowed : σ → α → Prop}

/-- Executes the events in order; `none` when one of them is not enabled. -/
def run (step : σ → α → Option σ) : σ → List α → Option σ
  | s, [] => some s
  | s, event :: rest => (step s event).bind fun next => run step next rest

@[simp] theorem run_nil (s : σ) : run step s [] = some s := rfl

theorem run_cons (s : σ) (event : α) (rest : List α) :
    run step s (event :: rest) = (step s event).bind fun next => run step next rest := rfl

theorem run_append (s : σ) (before after : List α) :
    run step s (before ++ after) = (run step s before).bind fun next => run step next after := by
  induction before generalizing s with
  | nil => rfl
  | cons event rest ih =>
      simp only [List.cons_append, run_cons]
      cases step s event with
      | none => rfl
      | some next => exact ih next

/-- A property of the end of a run, by execution. -/
theorem exists_run {start : σ} {events : List α} {P : σ → Prop} [DecidablePred P]
    (computed : (run step start events).any (fun s => decide (P s)) = true) :
    ∃ s, run step start events = some s ∧ P s := by
  obtain ⟨s, ran, holds⟩ := (Option.any_eq_true _ _).mp computed
  exact ⟨s, ran, of_decide_eq_true holds⟩

/-- The states some run from `start` ends in when each of its steps is allowed. -/
inductive Reaches (step : σ → α → Option σ) (allowed : σ → α → Prop) (start : σ) : σ → Prop
  | start : Reaches step allowed start start
  | next {s t : σ} {event : α} (earlier : Reaches step allowed start s)
      (permitted : allowed s event) (taken : step s event = some t) :
      Reaches step allowed start t

/-- An invariant that holds at the start and that every allowed step keeps
holds in every state reached. -/
theorem Reaches.invariant {start s : σ} (inv : σ → Prop) (reached : Reaches step allowed start s)
    (base : inv start)
    (kept : ∀ s t event, inv s → allowed s event → step s event = some t → inv t) : inv s := by
  induction reached with
  | start => exact base
  | @next s t event earlier permitted taken ih => exact kept s t event ih permitted taken

theorem Reaches.trans {start s t : σ} (first : Reaches step allowed start s)
    (second : Reaches step allowed s t) : Reaches step allowed start t := by
  induction second with
  | start => exact first
  | next earlier permitted taken ih => exact .next ih permitted taken

theorem Reaches.weaken {looser : σ → α → Prop} {start s : σ}
    (reached : Reaches step allowed start s) (implied : ∀ s event, allowed s event → looser s event) :
    Reaches step looser start s := by
  induction reached with
  | start => exact .start
  | next earlier permitted taken ih => exact .next ih (implied _ _ permitted) taken

/-- A successful execution is a run without conditions. -/
theorem reaches_of_run {start s : σ} {events : List α} (ran : run step start events = some s) :
    Reaches step (fun _ _ => True) start s := by
  induction events generalizing start with
  | nil =>
      obtain rfl : start = s := by simpa using ran
      exact .start
  | cons event rest ih =>
      rw [run_cons, Option.bind_eq_some_iff] at ran
      obtain ⟨next, taken, rest_ran⟩ := ran
      exact Reaches.trans (.next .start trivial taken) (ih rest_ran)

/-- Executes the events in order as long as each of them passes the check. -/
def runWhere (step : σ → α → Option σ) (check : σ → α → Bool) : σ → List α → Option σ
  | s, [] => some s
  | s, event :: rest =>
      if check s event then (step s event).bind fun next => runWhere step check next rest else none

theorem run_of_runWhere {check : σ → α → Bool} {start s : σ} {events : List α}
    (ran : runWhere step check start events = some s) : run step start events = some s := by
  induction events generalizing start with
  | nil => exact ran
  | cons event rest ih =>
      simp only [runWhere, Option.ite_none_right_eq_some, Option.bind_eq_some_iff] at ran
      obtain ⟨passed, next, taken, rest_ran⟩ := ran
      rw [run_cons, taken]
      exact ih rest_ran

theorem reaches_of_runWhere {check : σ → α → Bool} {start s : σ} {events : List α}
    (ran : runWhere step check start events = some s) :
    Reaches step (fun s event => check s event = true) start s := by
  induction events generalizing start with
  | nil =>
      obtain rfl : start = s := by simpa [runWhere] using ran
      exact .start
  | cons event rest ih =>
      simp only [runWhere, Option.ite_none_right_eq_some, Option.bind_eq_some_iff] at ran
      obtain ⟨passed, next, taken, rest_ran⟩ := ran
      exact Reaches.trans (.next .start passed taken) (ih rest_ran)

end Runs
