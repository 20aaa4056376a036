import Freehold.Lib.CrashLogic

set_option autoImplicit false

/- Asynchronous calls over a shared state. A call is a sequence of accesses to the
state; between two of them it waits, and other calls or a crash may come in between. -/
namespace Async

open CrashLogic

/-- A call that has its result, or waits for its next access to the state. The rest
of the call sees the state as the access found it. -/
inductive Call (σ ε α : Type) where
  | done (result : Except ε α)
  | await (access : σ → σ) (rest : σ → Call σ ε α)

variable {σ ε α β : Type}

namespace Call

protected def pure (a : α) : Call σ ε α := .done (.ok a)

protected def bind : Call σ ε α → (α → Call σ ε β) → Call σ ε β
  | .done (.ok a), next => next a
  | .done (.error e), _ => .done (.error e)
  | .await access rest, next => .await access fun s => (rest s).bind next

instance : Monad (Call σ ε) where
  pure := Call.pure
  bind := Call.bind

/-- Reads a part of the state. -/
def read (part : σ → β) : Call σ ε β := .await id fun s => .done (.ok (part s))

/-- One durable write. -/
def write (change : σ → σ) : Call σ ε Unit := .await change fun _ => .done (.ok ())

/-- Throws. -/
def fail (e : ε) : Call σ ε α := .done (.error e)

/-- Goes on with the value, or throws. -/
def ofExcept (result : Except ε α) : Call σ ε α := .done result

/-- Runs the call with nothing in between; a crash may strike before each access. -/
def run : Call σ ε α → Prog σ ε α
  | .done result => Prog.ofExcept result
  | .await access rest => fun s =>
      let ended := (rest s).run (access s)
      { ended with passed := s :: ended.passed }

/-- Every access of the call keeps to `guar`, whatever the state it finds. -/
def Keeps (guar : σ → σ → Prop) : Call σ ε α → Prop
  | .done _ => True
  | .await access rest => ∀ s, guar s (access s) ∧ (rest s).Keeps guar

end Call

theorem bind_pure (call : Call σ ε α) : (call >>= fun a => Call.pure a) = call := by
  change Call.bind call Call.pure = call
  induction call with
  | done result => cases result <;> rfl
  | await access rest ih => rw [Call.bind, funext ih]

section Keeps

variable {guar : σ → σ → Prop} {call : Call σ ε α} {next : α → Call σ ε β}

theorem keeps_bind (first : call.Keeps guar) (rest : ∀ a, (next a).Keeps guar) :
    (call >>= next).Keeps guar := by
  change (Call.bind call next).Keeps guar
  induction call with
  | done result =>
      cases result with
      | ok a => exact rest a
      | error e => trivial
  | await access later ih => exact fun s => ⟨(first s).1, ih s (first s).2⟩

theorem keeps_read_bind {part : σ → α} (same : ∀ s, guar s s) (rest : ∀ a, (next a).Keeps guar) :
    (Call.read part >>= next).Keeps guar :=
  fun s => ⟨same s, rest (part s)⟩

theorem keeps_write {change : σ → σ} (kept : ∀ s, guar s (change s)) :
    (Call.write change : Call σ ε Unit).Keeps guar :=
  fun s => ⟨kept s, trivial⟩

theorem keeps_write_bind {change : σ → σ} {next : Unit → Call σ ε β}
    (kept : ∀ s, guar s (change s)) (rest : (next ()).Keeps guar) :
    (Call.write change >>= next).Keeps guar :=
  fun s => ⟨kept s, rest⟩

theorem keeps_ofExcept_bind {result : Except ε α} (rest : ∀ a, (next a).Keeps guar) :
    (Call.ofExcept result >>= next).Keeps guar := by
  cases result with
  | ok a => exact rest a
  | error e => trivial

end Keeps

section Run

variable {crash : σ → Prop} {post : β → σ → Prop} {fail : ε → σ → Prop} {s : σ}

theorem meets_run_await {access : σ → σ} {rest : σ → Call σ ε β} (before : crash s)
    (ends : ((rest s).run (access s)).Meets crash post fail) :
    ((Call.await access rest).run s).Meets crash post fail := by
  refine ⟨?_, ends.2⟩
  intro t member
  rcases List.mem_cons.mp member with rfl | later
  · exact before
  · exact ends.1 t later

theorem meets_run_read {part : σ → β} (before : crash s) (holds : post (part s) s) :
    ((Call.read part : Call σ ε β).run s).Meets crash post fail :=
  meets_run_await before (meets_pure holds)

theorem meets_run_write {change : σ → σ} {post : Unit → σ → Prop} (before : crash s)
    (holds : post () (change s)) :
    ((Call.write change : Call σ ε Unit).run s).Meets crash post fail :=
  meets_run_await before (meets_pure holds)

theorem meets_run_read_bind {part : σ → α} {next : α → Call σ ε β} (before : crash s)
    (ends : ((next (part s)).run s).Meets crash post fail) :
    ((Call.read part >>= next).run s).Meets crash post fail :=
  meets_run_await before ends

theorem meets_run_write_bind {change : σ → σ} {next : Unit → Call σ ε β} (before : crash s)
    (ends : ((next ()).run (change s)).Meets crash post fail) :
    ((Call.write change >>= next).run s).Meets crash post fail :=
  meets_run_await before ends

theorem meets_run_ofExcept_bind {result : Except ε α} {next : α → Call σ ε β}
    (results : ∀ a, result = .ok a → ((next a).run s).Meets crash post fail)
    (errors : ∀ e, result = .error e → fail e s) :
    ((Call.ofExcept result >>= next).run s).Meets crash post fail := by
  cases result with
  | ok a => exact results a rfl
  | error e => exact meets_fail (errors e rfl)

/-- A call in two halves runs as the halves do. -/
theorem run_bind (call : Call σ ε α) (next : α → Call σ ε β) (s : σ) :
    (call >>= next).run s = (call.run >>= fun a => (next a).run) s := by
  change (Call.bind call next).run s = Prog.bind call.run (fun a => (next a).run) s
  induction call generalizing s with
  | done result =>
      cases result with
      | ok a => rfl
      | error e => rfl
  | await access rest ih =>
      change { ((rest s).bind next).run (access s) with
        passed := s :: (((rest s).bind next).run (access s)).passed } = _
      rw [ih s (access s)]
      simp only [Prog.bind, Call.run]
      cases ((rest s).run (access s)).result <;> rfl

theorem meets_run_bind {call : Call σ ε α} {next : α → Call σ ε β} (middle : α → σ → Prop)
    (begins : (call.run s).Meets crash middle fail)
    (ends : ∀ a t, middle a t → ((next a).run t).Meets crash post fail) :
    ((call >>= next).run s).Meets crash post fail := by
  rw [run_bind]
  exact meets_bind middle begins ends

end Run

end Async
