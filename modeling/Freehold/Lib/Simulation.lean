import Mathlib.Logic.Basic

set_option autoImplicit false

/- A machine that answers each event, and a specification that says what may be answered: what the
machine does along a run is what the specification allows. -/
namespace Simulation

variable {σ τ ε ω : Type}

/-- The events of a run with their answers, and the state after it. -/
def trace (machine : ε → σ → ω × σ) : List ε → σ → List (ε × ω) × σ
  | [], s => ([], s)
  | event :: events, s =>
      let (answer, s) := machine event s
      let (rest, s) := trace machine events s
      ((event, answer) :: rest, s)

/-- The specification goes along a trace from one state to another. -/
inductive Allows (spec : τ → ε → ω → τ → Prop) : τ → List (ε × ω) → τ → Prop where
  | nil (t : τ) : Allows spec t [] t
  | cons {t t' u : τ} {event : ε} {answer : ω} {rest : List (ε × ω)} (here : spec t event answer t')
      (later : Allows spec t' rest u) : Allows spec t ((event, answer) :: rest) u

variable {machine : ε → σ → ω × σ} {spec : τ → ε → ω → τ → Prop} {fits : ε → Prop} {rel : σ → τ → Prop}

theorem Allows.append {t u v : τ} {before after : List (ε × ω)} (first : Allows spec t before u)
    (second : Allows spec u after v) : Allows spec t (before ++ after) v := by
  induction first with
  | nil t => exact second
  | cons here later ih => exact .cons here (ih second)

/-- A relation that every step keeps is kept by a run. -/
theorem allows_trace (each : ∀ s t event, fits event → rel s t →
      ∃ t', spec t event (machine event s).1 t' ∧ rel (machine event s).2 t')
    {events : List ε} (all : ∀ event ∈ events, fits event) {s : σ} {t : τ} (related : rel s t) :
    ∃ u, Allows spec t (trace machine events s).1 u ∧ rel (trace machine events s).2 u := by
  induction events generalizing s t with
  | nil => exact ⟨t, .nil t, related⟩
  | cons event events ih =>
      obtain ⟨t', here, kept⟩ := each s t event (all event List.mem_cons_self) related
      obtain ⟨u, later, ended⟩ := ih (fun other member => all other (List.mem_cons_of_mem _ member)) kept
      exact ⟨u, .cons here later, ended⟩

/-- What every step keeps, of the state and of the answers so far, is kept by a run. -/
theorem history_trace (inv : σ → List ω → Prop)
    (each : ∀ s seen event, fits event → inv s seen → inv (machine event s).2 (seen ++ [(machine event s).1]))
    {events : List ε} (all : ∀ event ∈ events, fits event) {s : σ} {seen : List ω} (held : inv s seen) :
    inv (trace machine events s).2 (seen ++ (trace machine events s).1.map Prod.snd) := by
  induction events generalizing s seen with
  | nil => simpa only [trace, List.map_nil, List.append_nil] using held
  | cons event events ih =>
      have here := each s seen event (all event List.mem_cons_self) held
      have later := ih (fun other member => all other (List.mem_cons_of_mem _ member)) here
      simpa only [trace, List.map_cons, List.append_assoc, List.singleton_append] using later

end Simulation
