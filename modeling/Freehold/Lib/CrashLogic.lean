import Mathlib.Logic.Basic

set_option autoImplicit false

/- Programs over a state whose durable effects happen one after the other, and
the rules to reason about what a crash between two of them leaves behind. -/
namespace CrashLogic

/-- What running a program does: the states it had before each durable effect,
oldest first, the state it ends in and its result. A crash leaves one of the
states `passed`, or the last one. -/
structure Outcome (σ ε α : Type) where
  passed : List σ
  state : σ
  result : Except ε α

def Prog (σ ε α : Type) : Type := σ → Outcome σ ε α

variable {σ ε α β : Type}

namespace Outcome

/-- Every state a crash during the run, or right after it, can leave behind. -/
def crashes (outcome : Outcome σ ε α) : List σ := outcome.passed ++ [outcome.state]

/-- The states in which a run can end in an error: at an effect that fails, or by itself. -/
def errors (outcome : Outcome σ ε α) : List σ :=
  outcome.passed ++
    match outcome.result with
    | .ok _ => []
    | .error _ => [outcome.state]

/-- Crashes leave states of `crash`, a result satisfies `post`, an error `fail`. -/
def Meets (outcome : Outcome σ ε α) (crash : σ → Prop) (post : α → σ → Prop)
    (fail : ε → σ → Prop) : Prop :=
  (∀ s ∈ outcome.passed, crash s) ∧
    match outcome.result with
    | .ok a => post a outcome.state
    | .error e => fail e outcome.state

theorem Meets.mono {outcome : Outcome σ ε α} {crash crash' : σ → Prop}
    {post post' : α → σ → Prop} {fail fail' : ε → σ → Prop}
    (met : outcome.Meets crash post fail) (crashes : ∀ s, crash s → crash' s)
    (results : ∀ a s, post a s → post' a s) (errors : ∀ e s, fail e s → fail' e s) :
    outcome.Meets crash' post' fail' := by
  refine ⟨fun s member => crashes s (met.1 s member), ?_⟩
  have ended := met.2
  split <;> rename_i shape <;> rw [shape] at ended
  · exact results _ _ ended
  · exact errors _ _ ended

theorem Meets.passed {outcome : Outcome σ ε α} {crash : σ → Prop} {post : α → σ → Prop}
    {fail : ε → σ → Prop} (met : outcome.Meets crash post fail) {s : σ}
    (member : s ∈ outcome.passed) : crash s :=
  met.1 s member

theorem Meets.ok {outcome : Outcome σ ε α} {crash : σ → Prop} {post : α → σ → Prop}
    {fail : ε → σ → Prop} (met : outcome.Meets crash post fail) {a : α}
    (success : outcome.result = .ok a) : post a outcome.state := by
  have ended := met.2
  rw [success] at ended
  exact ended

theorem Meets.error {outcome : Outcome σ ε α} {crash : σ → Prop} {post : α → σ → Prop}
    {fail : ε → σ → Prop} (met : outcome.Meets crash post fail) {e : ε}
    (failed : outcome.result = .error e) : fail e outcome.state := by
  have ended := met.2
  rw [failed] at ended
  exact ended

theorem Meets.and {outcome : Outcome σ ε α} {crash crash' : σ → Prop} {post post' : α → σ → Prop}
    {fail fail' : ε → σ → Prop} (met : outcome.Meets crash post fail)
    (met' : outcome.Meets crash' post' fail') :
    outcome.Meets (fun s => crash s ∧ crash' s) (fun a s => post a s ∧ post' a s)
      fun e s => fail e s ∧ fail' e s := by
  refine ⟨fun s member => ⟨met.passed member, met'.passed member⟩, ?_⟩
  split <;> rename_i shape
  · exact ⟨met.ok shape, met'.ok shape⟩
  · exact ⟨met.error shape, met'.error shape⟩

/-- What holds of the end whatever the result is. -/
theorem Meets.ended {outcome : Outcome σ ε α} {crash inv : σ → Prop}
    (met : outcome.Meets crash (fun _ => inv) fun _ => inv) : inv outcome.state := by
  cases shape : outcome.result with
  | ok a => exact met.ok shape
  | error e => exact met.error shape

/-- A run that cannot end in an error returns a result. -/
theorem Meets.total {outcome : Outcome σ ε α} {crash : σ → Prop} {post : α → σ → Prop}
    (met : outcome.Meets crash post fun _ _ => False) :
    ∃ a, outcome.result = .ok a ∧ post a outcome.state := by
  have ended := met.2
  cases shape : outcome.result with
  | ok a => exact ⟨a, rfl, met.ok shape⟩
  | error e => exact (met.error shape).elim

/-- An invariant of every crash state and of the end holds of `crashes`. -/
theorem Meets.crashes {outcome : Outcome σ ε α} (inv : σ → Prop)
    (met : outcome.Meets inv (fun _ => inv) fun _ => inv) : ∀ s ∈ outcome.crashes, inv s := by
  intro s member
  rcases List.mem_append.mp member with earlier | last
  · exact met.1 s earlier
  · obtain rfl := List.mem_singleton.mp last
    cases shape : outcome.result with
    | ok a => exact met.ok shape
    | error e => exact met.error shape

end Outcome

namespace Prog

protected def pure (a : α) : Prog σ ε α := fun s => ⟨[], s, .ok a⟩

protected def bind (first : Prog σ ε α) (next : α → Prog σ ε β) : Prog σ ε β := fun s =>
  match (first s).result with
  | .ok a =>
      let rest := next a (first s).state
      ⟨(first s).passed ++ rest.passed, rest.state, rest.result⟩
  | .error e => ⟨(first s).passed, (first s).state, .error e⟩

instance : Monad (Prog σ ε) where
  pure := Prog.pure
  bind := Prog.bind

/-- Reads the state. -/
def get : Prog σ ε σ := fun s => ⟨[], s, .ok s⟩

/-- Changes what a crash forgets. -/
def modify (f : σ → σ) : Prog σ ε Unit := fun s => ⟨[], f s, .ok ()⟩

/-- One durable effect: a crash before it leaves the state as it was. -/
def effect (f : σ → σ) : Prog σ ε Unit := fun s => ⟨[s], f s, .ok ()⟩

def fail (e : ε) : Prog σ ε α := fun s => ⟨[], s, .error e⟩

def ofExcept : Except ε α → Prog σ ε α
  | .ok a => Prog.pure a
  | .error e => fail e

/-- Runs the program and goes on whether it succeeded or not. -/
def attempt (program : Prog σ ε α) : Prog σ ε Unit := fun s =>
  { program s with result := .ok () }

/-- Runs the body on each item in order, up to the first error. -/
def forEach (body : β → Prog σ ε Unit) : List β → Prog σ ε Unit
  | [] => Prog.pure ()
  | item :: rest => Prog.bind (body item) fun _ => forEach body rest

/-- Runs a program on a part of the state, and renames its errors. -/
def zoom {τ ε' : Type} (part : σ → τ) (put : τ → σ → σ) (rename : ε → ε') (program : Prog τ ε α) :
    Prog σ ε' α := fun s =>
  let outcome := program (part s)
  ⟨outcome.passed.map fun t => put t s, put outcome.state s, outcome.result.mapError rename⟩

theorem get_bind (next : σ → Prog σ ε α) (s : σ) : (get >>= next) s = next s s := rfl

theorem modify_bind (f : σ → σ) (next : Unit → Prog σ ε α) (s : σ) :
    (modify f >>= next) s = next () (f s) := rfl

theorem ofExcept_ok_bind (b : β) (next : β → Prog σ ε α) : (ofExcept (.ok b) >>= next) = next b := rfl

theorem ofExcept_error_bind (e : ε) (next : β → Prog σ ε α) :
    (ofExcept (.error e) >>= next) = fail e := rfl

theorem ofExcept_bind_cases {value : Except ε β} {next : β → Prog σ ε α} {s : σ}
    {P : Outcome σ ε α → Prop} (results : ∀ b, value = .ok b → P (next b s))
    (errors : ∀ e, value = .error e → P ⟨[], s, .error e⟩) : P ((ofExcept value >>= next) s) := by
  cases value with
  | ok b => exact results b rfl
  | error e => exact errors e rfl

theorem bind_of_ok {first : Prog σ ε β} {next : β → Prog σ ε α} {s t : σ} {passed : List σ} {b : β}
    (ran : first s = ⟨passed, t, .ok b⟩) : (first >>= next) s =
      ⟨passed ++ (next b t).passed, (next b t).state, (next b t).result⟩ := by
  show Prog.bind first next s = _
  rw [Prog.bind, ran]

theorem bind_of_error {first : Prog σ ε β} {next : β → Prog σ ε α} {s t : σ} {passed : List σ} {e : ε}
    (ran : first s = ⟨passed, t, .error e⟩) : (first >>= next) s = ⟨passed, t, .error e⟩ := by
  show Prog.bind first next s = _
  rw [Prog.bind, ran]

end Prog

variable {crash : σ → Prop} {post : α → σ → Prop} {fail : ε → σ → Prop}

theorem meets_pure {a : α} {s : σ} (holds : post a s) :
    (Prog.pure a : Prog σ ε α) s |>.Meets crash post fail :=
  ⟨fun _ member => (nomatch member), holds⟩

theorem meets_get {post : σ → σ → Prop} {s : σ} (holds : post s s) :
    (Prog.get : Prog σ ε σ) s |>.Meets crash post fail :=
  ⟨fun _ member => (nomatch member), holds⟩

theorem meets_modify {post : Unit → σ → Prop} {f : σ → σ} {s : σ} (holds : post () (f s)) :
    (Prog.modify f : Prog σ ε Unit) s |>.Meets crash post fail :=
  ⟨fun _ member => (nomatch member), holds⟩

theorem meets_effect {post : Unit → σ → Prop} {f : σ → σ} {s : σ} (before : crash s)
    (holds : post () (f s)) : (Prog.effect f : Prog σ ε Unit) s |>.Meets crash post fail := by
  refine ⟨?_, holds⟩
  intro t member
  rw [List.mem_singleton.mp member]
  exact before

theorem meets_fail {e : ε} {s : σ} (holds : fail e s) :
    (Prog.fail e : Prog σ ε α) s |>.Meets crash post fail :=
  ⟨fun _ member => (nomatch member), holds⟩

theorem meets_bind {first : Prog σ ε α} {next : α → Prog σ ε β} {s : σ} {post : β → σ → Prop}
    (middle : α → σ → Prop) (begins : (first s).Meets crash middle fail)
    (ends : ∀ a t, middle a t → (next a t).Meets crash post fail) :
    (first >>= next) s |>.Meets crash post fail := by
  change (Prog.bind first next s).Meets crash post fail
  unfold Prog.bind
  cases shape : (first s).result with
  | error e => exact ⟨begins.1, begins.error shape⟩
  | ok a =>
      have rest := ends a (first s).state (begins.ok shape)
      refine ⟨?_, rest.2⟩
      intro t member
      rcases List.mem_append.mp member with earlier | later
      · exact begins.1 t earlier
      · exact rest.1 t later

theorem meets_get_bind {next : σ → Prog σ ε α} {s : σ}
    (ends : (next s s).Meets crash post fail) :
    (Prog.get >>= next) s |>.Meets crash post fail := by
  apply meets_bind (fun a t => a = s ∧ t = s) (meets_get ⟨rfl, rfl⟩)
  intro a t same
  rw [same.1, same.2]
  exact ends

theorem meets_modify_bind {f : σ → σ} {next : Unit → Prog σ ε α} {s : σ}
    (ends : (next () (f s)).Meets crash post fail) :
    (Prog.modify f >>= next) s |>.Meets crash post fail := by
  apply meets_bind (fun _ t => t = f s) (meets_modify rfl)
  intro _ t same
  rw [same]
  exact ends

theorem meets_effect_bind {f : σ → σ} {next : Unit → Prog σ ε α} {s : σ} (before : crash s)
    (ends : (next () (f s)).Meets crash post fail) :
    (Prog.effect f >>= next) s |>.Meets crash post fail := by
  apply meets_bind (fun _ t => t = f s) (meets_effect before rfl)
  intro _ t same
  rw [same]
  exact ends

theorem meets_attempt {program : Prog σ ε α} {post : Unit → σ → Prop} {s : σ}
    (met : (program s).Meets crash (fun _ => post ()) fun _ => post ()) :
    (Prog.attempt program s).Meets crash post fail := by
  refine ⟨met.1, ?_⟩
  cases shape : (program s).result with
  | ok a => exact met.ok shape
  | error e => exact met.error shape

theorem meets_ofExcept {value : Except ε α} {s : σ} (results : ∀ a, value = .ok a → post a s)
    (errors : ∀ e, value = .error e → fail e s) :
    (Prog.ofExcept value s).Meets crash post fail := by
  cases value with
  | ok a => exact meets_pure (results a rfl)
  | error e => exact meets_fail (errors e rfl)

theorem meets_ofExcept_bind {value : Except ε β} {next : β → Prog σ ε α} {s : σ}
    (results : ∀ a, value = .ok a → (next a s).Meets crash post fail)
    (errors : ∀ e, value = .error e → fail e s) :
    (Prog.ofExcept value >>= next) s |>.Meets crash post fail := by
  apply meets_bind (fun a t => value = .ok a ∧ t = s)
    (meets_ofExcept (fun a ok => ⟨ok, rfl⟩) errors)
  rintro a t ⟨ok, rfl⟩
  exact results a ok

theorem meets_zoom {τ ε' : Type} {part : σ → τ} {put : τ → σ → σ} {rename : ε → ε'}
    {program : Prog τ ε α} {s : σ} {fail : ε' → σ → Prop}
    (met : (program (part s)).Meets (fun t => crash (put t s)) (fun a t => post a (put t s))
      fun e t => fail (rename e) (put t s)) :
    (Prog.zoom part put rename program s).Meets crash post fail := by
  refine ⟨?_, ?_⟩
  · intro t member
    obtain ⟨inner, passed, rfl⟩ := List.mem_map.mp member
    exact met.1 inner passed
  · cases shape : (program (part s)).result with
    | ok a =>
        simp only [Prog.zoom, shape]
        exact met.ok shape
    | error e =>
        simp only [Prog.zoom, shape]
        exact met.error shape

/-- The loop rule: `inv` speaks of the items still to come. -/
theorem meets_forEach {body : β → Prog σ ε Unit} (inv : List β → σ → Prop)
    (iteration : ∀ item rest s, inv (item :: rest) s →
      (body item s).Meets crash (fun _ => inv rest) fail)
    {items : List β} {s : σ} (start : inv items s) :
    (Prog.forEach body items s).Meets crash (fun _ => inv []) fail := by
  induction items generalizing s with
  | nil => exact meets_pure start
  | cons item rest ih => exact meets_bind _ (iteration item rest s start) fun _ t kept => ih kept

/-- A run's own end is a condition its end meets. -/
theorem meets_self (program : Prog σ ε α) (s : σ) : (program s).Meets (fun _ => True)
    (fun a t => (program s).result = .ok a ∧ t = (program s).state) fun _ _ => True := by
  refine ⟨fun _ _ => trivial, ?_⟩
  split
  · next a ended => exact ⟨ended, rfl⟩
  · trivial

/-- Every state the program passes through or ends in satisfies `inv` if its first one does. -/
def Keeps (inv : σ → Prop) (program : Prog σ ε α) : Prop :=
  ∀ s, inv s → (program s).Meets inv (fun _ => inv) fun _ => inv

section Keeps

variable {inv : σ → Prop}

theorem keeps_pure (a : α) : Keeps inv (pure a : Prog σ ε α) := fun _ holds => meets_pure holds

theorem keeps_fail (e : ε) : Keeps inv (Prog.fail e : Prog σ ε α) := fun _ holds => meets_fail holds

theorem keeps_get_bind {next : σ → Prog σ ε α} (ends : ∀ s, inv s → Keeps inv (next s)) :
    Keeps inv (Prog.get >>= next) :=
  fun s holds => meets_get_bind (ends s holds s holds)

theorem keeps_effect {f : σ → σ} (kept : ∀ s, inv s → inv (f s)) :
    Keeps inv (Prog.effect f : Prog σ ε Unit) :=
  fun s holds => meets_effect holds (kept s holds)

theorem keeps_modify {f : σ → σ} (kept : ∀ s, inv s → inv (f s)) :
    Keeps inv (Prog.modify f : Prog σ ε Unit) :=
  fun s holds => meets_modify (kept s holds)

theorem keeps_bind {first : Prog σ ε α} {next : α → Prog σ ε β} (begins : Keeps inv first)
    (ends : ∀ a, Keeps inv (next a)) : Keeps inv (first >>= next) :=
  fun s holds => meets_bind _ (begins s holds) fun a t kept => ends a t kept

theorem keeps_ofExcept (value : Except ε α) : Keeps inv (Prog.ofExcept value : Prog σ ε α) :=
  fun _ holds => meets_ofExcept (fun _ _ => holds) fun _ _ => holds

theorem keeps_attempt {program : Prog σ ε α} (kept : Keeps inv program) :
    Keeps inv (Prog.attempt program) :=
  fun s holds => meets_attempt (kept s holds)

theorem keeps_forEach {body : β → Prog σ ε Unit} (kept : ∀ item, Keeps inv (body item))
    (items : List β) : Keeps inv (Prog.forEach body items) := by
  induction items with
  | nil => exact keeps_pure ()
  | cons item rest ih => exact keeps_bind (kept item) fun _ => ih

end Keeps

end CrashLogic
