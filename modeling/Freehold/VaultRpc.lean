import Freehold.Lib.Rpc

set_option autoImplicit false

/- The calls of a vault: the page numbers them, the worker runs them on the wasm core and replies. -/
namespace Freehold

namespace VaultRpc

/-- The ops the main thread may invoke. -/
def OPS : List String :=
  ["enroll", "enroll_device", "gen_recovery", "recovery_code_valid", "add_recovery", "add_passkey",
    "remove_method", "list_methods", "envelope_generation", "import_bundle", "rotate_dek", "session_open",
    "session_open_recovery", "session_lock", "session_active", "session_sql", "session_export",
    "session_vault_pubkey", "session_attest", "verify_attestation", "device_keygen", "device_id_from_pubkey",
    "session_issue_device_cert", "verify_device_cert", "session_sync_id", "session_sync_seal",
    "session_sync_open", "session_sync_apply", "sync_vv_empty", "sync_vv_increment", "sync_vv_merge",
    "sync_reconcile", "session_relay_sign"]

/-- The ops the methods of `FreeholdVault` call, as they stand there. -/
def methodOps : List String :=
  ["envelope_generation", "enroll", "session_open", "enroll_device", "add_recovery", "session_open_recovery",
    "session_lock", "session_active", "gen_recovery", "recovery_code_valid", "add_passkey", "remove_method",
    "rotate_dek", "list_methods", "session_vault_pubkey", "session_attest", "verify_attestation",
    "device_keygen", "device_id_from_pubkey", "session_issue_device_cert", "verify_device_cert", "session_sql",
    "session_export", "import_bundle", "sync_vv_empty", "session_sync_open", "session_relay_sign",
    "session_sync_id", "sync_reconcile", "session_sync_apply", "sync_vv_merge", "session_sync_seal",
    "sync_vv_increment"]

/-- The wasm module: a call runs up to its first wait, or throws, and each time what it waits for has come it
goes on. -/
structure Wasm (σ τ arg val err : Type) where
  exported : String → Bool
  invoke : String → List arg → σ → Except err τ × σ
  poll : τ → σ → (τ ⊕ Except err val) × σ
  /-- `String(err && err.message ? err.message : err)`. -/
  message : err → String
  cloneable : val → Bool
  cloneError : String

structure Request (arg : Type) where
  op : String
  args : List arg

/-- The worker: whether `wasm` is set, and the core's own state. -/
structure Worker (σ : Type) where
  wasm : Bool
  core : σ

/-- Where `onmessage` waits, or that it has thrown. -/
inductive Handler (τ : Type) where
  | importing
  | starting
  | running (task : τ)
  | thrown (message : String)

/-- The `result` of a reply: `true` for `init`. -/
inductive Result (val : Type) where
  | initialized
  | value (v : val)
  deriving DecidableEq

/-- A reply: `ok` with a result, or an error. -/
abbrev Reply (val : Type) := Except String (Result val)

/-- What the import of the module and its `default` come to, which only the network knows. -/
abbrev Loaded := Except String Unit

variable {σ τ arg val err : Type} (wasm : Wasm σ τ arg val err)

def notInitialized : String := "vault worker not initialized — FreeholdVault.open() must complete first"

/-- `onmessage` up to its first wait. -/
def onmessage (request : Request arg) (w : Worker σ) : Handler τ × Worker σ :=
  if request.op = "init" then (.importing, w)
  else if !w.wasm then (.thrown notInitialized, w)
  else if !OPS.contains request.op || !wasm.exported request.op then (.thrown ("unknown op: " ++ request.op), w)
  else
    match wasm.invoke request.op request.args w.core with
    | (.ok task, core) => (.running task, { w with core })
    | (.error e, core) => (.thrown (wasm.message e), { w with core })

/-- `postMessage` of what an op has come to; a value that cannot be cloned is an error too. -/
def posted (outcome : Except err val) : Reply val :=
  match outcome with
  | .ok v => if wasm.cloneable v then .ok (.value v) else .error wasm.cloneError
  | .error e => .error (wasm.message e)

def resume (handler : Handler τ) (loaded : Loaded) (w : Worker σ) : (Handler τ ⊕ Reply val) × Worker σ :=
  match handler, loaded with
  | .importing, .ok () => (.inl .starting, { w with wasm := true })
  | .importing, .error e => (.inr (.error e), w)
  | .starting, .ok () => (.inr (.ok .initialized), w)
  | .starting, .error e => (.inr (.error e), w)
  | .thrown message, _ => (.inr (.error message), w)
  | .running task, _ =>
      match wasm.poll task w.core with
      | (.inl task, core) => (.inl (.running task), { w with core })
      | (.inr outcome, core) => (.inr (posted wasm outcome), { w with core })

def worker : Rpc.Server (Worker σ) (Request arg) (Handler τ) Loaded (Reply val) where
  start := onmessage wasm
  resume := resume wasm

/-- A vault: its calls and the worker, and whether `open` has returned it. -/
structure Vault (σ τ arg val : Type) where
  rpc : Rpc.State (Worker σ) (Request arg) (Handler τ) (Reply val)
  opened : Bool

abbrev Event (arg : Type) := Rpc.Event (Request arg) Loaded

abbrev Obs (arg val : Type) := Rpc.Obs (Request arg) (Reply val)

def init (url : arg) : Request arg := ⟨"init", [url]⟩

/-- `open` has made the worker and called `init`. -/
def opening (url : arg) (core : σ) : Vault σ τ arg val :=
  ⟨(Rpc.call (init url) true (.new ⟨false, core⟩)).2, false⟩

/-- The first call, which `open` waits for, has resolved. -/
def opens : Obs arg val → Bool
  | .settled 1 (.ok _) => true
  | _ => false

/-- Before `open` returns there is no vault to call a method of. -/
def step (event : Event arg) (v : Vault σ τ arg val) : Obs arg val × Vault σ τ arg val :=
  match event with
  | .call request sent =>
      if v.opened then
        let (obs, rpc) := Rpc.call request sent v.rpc
        (obs, { v with rpc })
      else (.idle, v)
  | event =>
      let (obs, rpc) := Rpc.step (worker wasm) event v.rpc
      (obs, ⟨rpc, v.opened || opens obs⟩)

/-- The call of an op and what has been seen since the worker was made. -/
def seen (url : arg) (core : σ) (events : List (Event arg)) : List (Obs arg val) :=
  .called 1 (init url) true :: (Simulation.trace (step wasm) events (opening url core)).1.map Prod.snd

/-- A task of an op, whatever other ops do to the core in between. -/
inductive Runs (request : Request arg) : τ → Prop where
  | invoke (core : σ) {task : τ} (begun : (wasm.invoke request.op request.args core).1 = .ok task) :
      Runs request task
  | poll (core : σ) {task next : τ} (earlier : Runs request task) (goes_on : (wasm.poll task core).1 = .inl next) :
      Runs request next

/-- What the op of a request comes to on the core. -/
inductive Outcome (request : Request arg) : Except err val → Prop where
  | threw (core : σ) {e : err} (failed : (wasm.invoke request.op request.args core).1 = .error e) :
      Outcome request (.error e)
  | ended (core : σ) {task : τ} {outcome : Except err val} (ran : Runs wasm request task)
      (ends : (wasm.poll task core).1 = .inr outcome) : Outcome request outcome

/-- The reply to a request: what its op came to, or that the module has no such op. -/
def Answer (request : Request arg) (reply : Reply val) : Prop :=
  if wasm.exported request.op then ∃ outcome, Outcome wasm request outcome ∧ reply = posted wasm outcome
  else reply = .error ("unknown op: " ++ request.op)

section Worker

variable {wasm} {request : Request arg} {w : Worker σ}

/-- The worker begins with a request when it is `init`, or when the module is there and the op is listed. -/
def Fits (request : Request arg) (w : Worker σ) : Prop :=
  request.op = "init" ∨ request.op ≠ "init" ∧ w.wasm = true ∧ OPS.contains request.op = true

/-- What is known of the handler of an op, and of its reply. -/
def Stands (wasm : Wasm σ τ arg val err) (request : Request arg) : Handler τ ⊕ Reply val → Prop
  | .inl (.running task) => wasm.exported request.op = true ∧ Runs wasm request task
  | .inl (.thrown message) => Answer wasm request (.error message)
  | .inl _ => False
  | .inr reply => Answer wasm request reply

theorem stands_onmessage (other : request.op ≠ "init") (fit : Fits request w) :
    Stands wasm request (.inl (onmessage wasm request w).1) := by
  obtain ⟨_, set, listed⟩ := fit.resolve_left other
  rw [onmessage, if_neg other, set, listed]
  simp only [Bool.not_true, Bool.false_eq_true, if_false, Bool.false_or]
  cases exported : wasm.exported request.op with
  | false =>
      simp only [Bool.not_false, if_true, Stands, Answer, exported, Bool.false_eq_true, if_false]
  | true =>
      simp only [Bool.not_true, Bool.false_eq_true, if_false]
      cases invoked : wasm.invoke request.op request.args w.core with
      | mk outcome core =>
          have first : (wasm.invoke request.op request.args w.core).1 = outcome := congrArg Prod.fst invoked
          cases outcome with
          | ok task => exact ⟨exported, .invoke w.core first⟩
          | error e =>
              simp only [Stands, Answer, exported, if_true]
              exact ⟨.error e, .threw w.core first, rfl⟩

theorem stands_resume {handler : Handler τ} (loaded : Loaded) (stands : Stands wasm request (.inl handler)) :
    Stands wasm request (resume wasm handler loaded w).1 := by
  cases handler with
  | importing => cases stands
  | starting => cases stands
  | thrown message => cases loaded <;> exact stands
  | running task =>
      obtain ⟨exported, ran⟩ := stands
      cases polled : wasm.poll task w.core with
      | mk outcome core =>
          have first : (wasm.poll task w.core).1 = outcome := congrArg Prod.fst polled
          have shape : (resume wasm (.running task) loaded w).1 =
              (match outcome with
              | .inl next => .inl (.running next)
              | .inr outcome => .inr (posted wasm outcome) : Handler τ ⊕ Reply val) := by
            cases loaded <;> cases outcome <;> simp only [resume, polled]
          rw [shape]
          cases outcome with
          | inl next => exact ⟨exported, .poll w.core ran first⟩
          | inr outcome =>
              simp only [Stands, Answer, exported, if_true]
              exact ⟨outcome, .ended w.core ran first, rfl⟩

/-- The reply to an op is what the op comes to on the core. -/
theorem stands_comes {x : Handler τ ⊕ Reply val} (other : request.op ≠ "init")
    (comes : Rpc.Comes (worker wasm) Fits request x) : Stands wasm request x := by
  induction comes with
  | start w fit => exact stands_onmessage other fit
  | resume loaded w earlier ih => exact stands_resume loaded ih

/-- What is known of the handler of `init`, and of its reply. -/
def Inits : Handler τ ⊕ Reply val → Prop
  | .inl .importing => True
  | .inl .starting => True
  | .inl _ => False
  | .inr reply => ∀ result, reply = .ok result → result = .initialized

theorem inits_comes {x : Handler τ ⊕ Reply val} (init : request.op = "init")
    (comes : Rpc.Comes (worker wasm) Fits request x) : Inits x := by
  induction comes with
  | start w fit =>
      change Inits (.inl (onmessage wasm request w).1)
      rw [onmessage, if_pos init]
      trivial
  | @resume handler loaded w earlier ih =>
      cases handler with
      | running task => cases ih
      | thrown message => cases ih
      | importing =>
          cases loaded with
          | ok done => trivial
          | error e =>
              intro result same
              cases same
      | starting =>
          cases loaded with
          | ok done =>
              intro result same
              cases same
              rfl
          | error e =>
              intro result same
              cases same

/-- That the module is there shows in a handler that has imported it, and in the reply to `init`. -/
def Shows : Handler τ ⊕ Reply val → Prop
  | .inl .starting => True
  | .inr (.ok .initialized) => True
  | _ => False

theorem onmessage_wasm (wasm : Wasm σ τ arg val err) (request : Request arg) (w : Worker σ) :
    (onmessage wasm request w).2.wasm = w.wasm ∧ ¬Shows (.inl (onmessage wasm request w).1 : Handler τ ⊕ Reply val) := by
  unfold onmessage
  split
  · exact ⟨rfl, id⟩
  split
  · exact ⟨rfl, id⟩
  split
  · exact ⟨rfl, id⟩
  cases invoked : wasm.invoke request.op request.args w.core with
  | mk outcome core => cases outcome <;> exact ⟨rfl, id⟩

theorem posted_value (outcome : Except err val) : ¬Shows (.inr (posted wasm outcome) : Handler τ ⊕ Reply val) := by
  cases outcome with
  | error e => exact id
  | ok v =>
      unfold posted
      dsimp only
      split <;> exact id

theorem marks (wasm : Wasm σ τ arg val err) : Rpc.Marks (worker wasm) (fun w => w.wasm = true) Shows := by
  refine ⟨?_, ?_⟩
  · intro request w
    obtain ⟨same, hidden⟩ := onmessage_wasm wasm request w
    exact ⟨fun set => same.trans set, fun shown => absurd shown hidden⟩
  · intro handler loaded w before
    cases handler with
    | importing =>
        cases loaded with
        | ok done => exact ⟨fun _ => rfl, fun _ => rfl⟩
        | error e => exact ⟨fun set => set, False.elim⟩
    | starting =>
        have set := before trivial
        cases loaded with
        | ok done => exact ⟨fun _ => set, fun _ => set⟩
        | error e => exact ⟨fun _ => set, fun _ => set⟩
    | thrown message =>
        cases loaded <;> exact ⟨fun set => set, False.elim⟩
    | running task =>
        cases polled : wasm.poll task w.core with
        | mk outcome core =>
            have shape : resume wasm (.running task) loaded w = (match outcome with
                | .inl next => (.inl (.running next), { w with core })
                | .inr outcome => (.inr (posted wasm outcome), { w with core })) := by
              cases loaded <;> cases outcome <;> simp only [resume, polled]
            rw [worker]
            dsimp only
            rw [shape]
            cases outcome with
            | inl next => exact ⟨fun set => set, False.elim⟩
            | inr outcome => exact ⟨fun set => set, fun shown => absurd shown (posted_value outcome)⟩

end Worker

/-- What holds of a vault and of what has been seen of it. -/
structure VaultInv (wasm : Wasm σ τ arg val err) (url : arg) (v : Vault σ τ arg val) (t : List (Obs arg val)) :
    Prop where
  rpc : Rpc.Inv (worker wasm) Fits v.rpc t
  marked : Rpc.Marked (fun w => w.wasm = true) Shows v.rpc t
  asked : 1 ≤ v.rpc.seq
  listed : ∀ id request, (id, request) ∈ Rpc.sent t →
    id = 1 ∧ request = init url ∨ v.opened = true ∧ 1 < id ∧ request.op ∈ methodOps
  set : v.opened = true → v.rpc.server.wasm = true

section Run

variable {wasm} {url : arg} {v : Vault σ τ arg val} {t : List (Obs arg val)}

theorem methodOps_listed : ∀ op ∈ methodOps, op ≠ "init" ∧ OPS.contains op = true := by decide +kernel

theorem VaultInv.opening (wasm : Wasm σ τ arg val err) (url : arg) (core : σ) :
    VaultInv wasm url (opening url core) [.called 1 (init url) true] := by
  have rpc := (@Rpc.Inv.new _ _ _ _ _ (worker wasm) Fits ⟨false, core⟩).call (init url) true
  refine ⟨rpc, ?_, Nat.le_refl 1, ?_, ?_⟩
  · refine ⟨?_, ?_⟩ <;> intro id _ member <;> cases member
  · intro id request member
    have same := Prod.mk.inj (List.mem_singleton.mp member)
    exact .inl same
  · intro opened
    cases opened

/-- The worker has the module when it takes the next request. -/
theorem VaultInv.fits (inv : VaultInv wasm url v t) {id : Nat} {request : Request arg}
    {rest : List (Nat × Request arg)} (next : v.rpc.inbox = (id, request) :: rest) : Fits request v.rpc.server := by
  have member : (id, request) ∈ Rpc.sent t := by
    apply inv.rpc.queued.subset
    rw [next]
    exact List.mem_append_right _ List.mem_cons_self
  rcases inv.listed id request member with ⟨_, rfl⟩ | ⟨opened, _, method⟩
  · exact .inl rfl
  · obtain ⟨other, allowed⟩ := methodOps_listed _ method
    exact .inr ⟨other, inv.set opened, allowed⟩

/-- Where the first call has resolved, the worker has the module. -/
theorem loaded_of_opened (rpc : Rpc.Inv (worker wasm) Fits v.rpc t)
    (marked : Rpc.Marked (fun w => w.wasm = true) Shows v.rpc t)
    (first : ∀ request, (1, request) ∈ Rpc.sent t → request = init url) {result : Result val}
    (resolved : (1, .ok result) ∈ Rpc.settled t) : v.rpc.server.wasm = true := by
  obtain ⟨request, begun, comes⟩ := rpc.correlated resolved
  have ended := rpc.ordered.subset (List.mem_append_left _ (rpc.kept _ resolved))
  have asked := first request (rpc.in_order.subset begun)
  have shown : result = .initialized := inits_comes (congrArg Request.op asked) comes result rfl
  apply marked.2 1 _ ended
  rw [shown]
  trivial

theorem resolved_of_opens {obs : Obs arg val} (opened : opens obs = true) :
    ∃ result, (1, .ok result) ∈ Rpc.settled (t ++ [obs]) := by
  cases obs with
  | settled id reply =>
      cases reply with
      | error e =>
          unfold opens at opened
          split at opened
          · rename_i same
            cases same
          · cases opened
      | ok result =>
          unfold opens at opened
          split at opened
          · rename_i same
            cases same
            exact ⟨result, by simp [Rpc.settled, Rpc.Obs.settled?]⟩
          · cases opened
  | idle => cases opened
  | called id request wasSent => cases opened
  | began id request => cases opened
  | finished id result => cases opened
  | dropped id result => cases opened
  | failed ids => cases opened

theorem step_other (event : Event arg) (other : ∀ request wasSent, event ≠ .call request wasSent)
    (v : Vault σ τ arg val) : step wasm event v = ((Rpc.step (worker wasm) event v.rpc).1,
      ⟨(Rpc.step (worker wasm) event v.rpc).2, v.opened || opens (Rpc.step (worker wasm) event v.rpc).1⟩) := by
  cases event with
  | call request wasSent => exact absurd rfl (other request wasSent)
  | deliver => rfl
  | resume id loaded => rfl
  | reply => rfl
  | fail => rfl
  | stop => rfl

theorem VaultInv.other (inv : VaultInv wasm url v t) (event : Event arg)
    (other : ∀ request wasSent, event ≠ .call request wasSent) :
    VaultInv wasm url (step wasm event v).2 (t ++ [(step wasm event v).1]) := by
  have rpc := inv.rpc.step event fun id request rest next => inv.fits next
  have marked := inv.marked.step (marks wasm) event
  obtain ⟨quiet, seq⟩ := Rpc.step_quiet (worker wasm) event other v.rpc
  have sent : Rpc.sent (t ++ [(Rpc.step (worker wasm) event v.rpc).1]) = Rpc.sent t := by
    rw [Rpc.sent_concat, quiet, Option.toList_none, List.append_nil]
  rw [step_other event other]
  refine ⟨rpc, marked, ?_, ?_, ?_⟩
  · change 1 ≤ (Rpc.step (worker wasm) event v.rpc).2.seq
    rw [seq]
    exact inv.asked
  · intro id request member
    rw [sent] at member
    rcases inv.listed id request member with first | ⟨opened, later⟩
    · exact .inl first
    · exact .inr ⟨by rw [opened, Bool.true_or], later⟩
  · intro opened
    rcases Bool.or_eq_true_iff.mp opened with before | now
    · exact (marks wasm).stays inv.marked event (inv.set before)
    · obtain ⟨result, resolved⟩ := @resolved_of_opens _ _ t _ now
      have first : ∀ request, (1, request) ∈ Rpc.sent (t ++ [(Rpc.step (worker wasm) event v.rpc).1]) →
          request = init url := by
        intro request member
        rw [sent] at member
        rcases inv.listed 1 request member with ⟨_, same⟩ | ⟨_, later, _⟩
        · exact same
        · omega
      exact @loaded_of_opened _ _ _ _ _ wasm url ⟨_, true⟩ _ rpc marked first result resolved

theorem VaultInv.call (inv : VaultInv wasm url v t) {request : Request arg} (wasSent : Bool)
    (method : request.op ∈ methodOps) :
    VaultInv wasm url (step wasm (.call request wasSent) v).2 (t ++ [(step wasm (.call request wasSent) v).1]) := by
  cases opened : v.opened with
  | false =>
      simp only [VaultRpc.step, opened, Bool.false_eq_true, if_false]
      refine ⟨inv.rpc.idle, inv.marked.same (fun _ listed => listed) rfl rfl, inv.asked, ?_, inv.set⟩
      intro id asked member
      rw [Rpc.sent_concat, Rpc.Obs.sent?, Option.toList_none, List.append_nil] at member
      · exact inv.listed id asked member
      · intro _ _ same
        cases same
  | true =>
      simp only [VaultRpc.step, opened, if_true]
      refine ⟨inv.rpc.call request wasSent, inv.marked.step (marks wasm) (.call request wasSent), ?_, ?_, fun _ => inv.set opened⟩
      · exact Nat.le_add_left 1 v.rpc.seq
      · intro id asked member
        rw [Rpc.sent_concat] at member
        rcases List.mem_append.mp member with old | new
        · rcases inv.listed id asked old with first | ⟨_, later⟩
          · exact .inl first
          · exact .inr ⟨rfl, later⟩
        · cases wasSent with
          | false => cases new
          | true =>
              obtain ⟨rfl, rfl⟩ := Prod.mk.inj (List.mem_singleton.mp new)
              have before := inv.asked
              exact .inr ⟨rfl, by omega, method⟩

/-- What a vault does keeps it. -/
theorem VaultInv.step (inv : VaultInv wasm url v t) (event : Event arg)
    (method : ∀ request wasSent, event = .call request wasSent → request.op ∈ methodOps) :
    VaultInv wasm url (step wasm event v).2 (t ++ [(step wasm event v).1]) := by
  by_cases called : ∃ request wasSent, event = .call request wasSent
  · obtain ⟨request, wasSent, rfl⟩ := called
    exact inv.call wasSent (method request wasSent rfl)
  · exact inv.other event fun request wasSent same => called ⟨request, wasSent, same⟩

theorem vaultInv_seen (wasm : Wasm σ τ arg val err) (url : arg) (core : σ) {events : List (Event arg)}
    (methods : ∀ request wasSent, .call request wasSent ∈ events → request.op ∈ methodOps) :
    VaultInv wasm url (Simulation.trace (step wasm) events (opening url core)).2 (seen wasm url core events) := by
  have first := VaultInv.opening wasm url core
  have each : ∀ (v : Vault σ τ arg val) (t : List (Obs arg val)) (event : Event arg),
      (∀ request wasSent, event = .call request wasSent → request.op ∈ methodOps) → VaultInv wasm url v t →
      VaultInv wasm url (step wasm event v).2 (t ++ [(step wasm event v).1]) :=
    fun v t event method inv => inv.step event method
  have all : ∀ event ∈ events, ∀ request wasSent, event = .call request wasSent → request.op ∈ methodOps := by
    intro event listed request wasSent same
    rw [same] at listed
    exact methods request wasSent listed
  exact Simulation.history_trace (VaultInv wasm url) each all first

end Run

end VaultRpc

/-- The calls of a vault, in any order of its methods, of messages, of waits and of failures of the worker.
The worker begins with their ops in the order in which they were called. No call is settled twice, and
each that resolves has what its own op came to on the core, never that the worker was not initialized. When
nothing is on its way any more, every call is settled, unless the vault was closed. -/
theorem vault_calls {σ τ arg val err : Type} (wasm : VaultRpc.Wasm σ τ arg val err) (url : arg) (core : σ)
    (events : List (VaultRpc.Event arg))
    (methods : ∀ request wasSent, .call request wasSent ∈ events → request.op ∈ VaultRpc.methodOps) :
    let v := (Simulation.trace (VaultRpc.step wasm) events (VaultRpc.opening url core)).2
    let t := VaultRpc.seen wasm url core events
    Rpc.begun t <+: Rpc.sent t ∧ (Rpc.ids (Rpc.sent t)).Nodup ∧
    (Rpc.ids (Rpc.settled t) ++ Rpc.failed t).Nodup ∧
    (∀ id reply, (id, reply) ∈ Rpc.settled t → id ≠ 1 →
      ∃ request, (id, request) ∈ Rpc.sent t ∧ VaultRpc.Answer wasm request reply) ∧
    (v.rpc.alive = true → v.rpc.inbox = [] → v.rpc.running = [] → v.rpc.outbox = [] →
      ∀ id request, (id, request) ∈ Rpc.sent t → id ∈ Rpc.ids (Rpc.settled t) ∨ id ∈ Rpc.failed t) := by
  intro v t
  have inv : VaultRpc.VaultInv wasm url v t := VaultRpc.vaultInv_seen wasm url core methods
  refine ⟨inv.rpc.in_order, inv.rpc.sent_once, inv.rpc.settled_once, ?_, ?_⟩
  · intro id reply resolved later
    obtain ⟨request, begun, comes⟩ := inv.rpc.correlated resolved
    have member := inv.rpc.in_order.subset begun
    refine ⟨request, member, ?_⟩
    rcases inv.listed id request member with ⟨first, _⟩ | ⟨_, _, method⟩
    · exact absurd first later
    · exact VaultRpc.stands_comes (VaultRpc.methodOps_listed _ method).1 comes
  · intro alive inbox running outbox id request member
    exact inv.rpc.at_rest alive inbox running outbox (Rpc.mem_ids_of_mem member)

namespace VaultRpcSample

open VaultRpc

/-- A core that counts: `session_sql` adds its argument when it goes on, `session_lock` throws. -/
def counter : Wasm Nat Nat Nat Nat String where
  exported _ := true
  invoke op args n := if op = "session_sql" then (.ok (args.headD 0), n) else (.error "locked", n)
  poll task n := (.inr (.ok (n + task)), n + task)
  message := id
  cloneable _ := true
  cloneError := "DataCloneError"

def sql (n : Nat) : Request Nat := ⟨"session_sql", [n]⟩

/-- Two calls, the second of which ends first. -/
def events : List (VaultRpc.Event Nat) :=
  [.deliver, .resume 1 (.ok ()), .resume 1 (.ok ()), .reply, .call (sql 5) true, .call (sql 7) true, .deliver,
    .deliver, .resume 3 (.ok ()), .resume 2 (.ok ()), .reply, .reply]

theorem methods : ∀ request wasSent, .call request wasSent ∈ events → request.op ∈ methodOps := by
  intro request wasSent listed
  simp only [events, List.mem_cons, List.not_mem_nil, or_false, reduceCtorEq, false_or,
    Rpc.Event.call.injEq] at listed
  rcases listed with ⟨rfl, _⟩ | ⟨rfl, _⟩ <;> decide +kernel

end VaultRpcSample

open VaultRpcSample in
theorem vault_calls_two :
    Rpc.settled (VaultRpc.seen counter 0 10 events) =
      [(1, .ok .initialized), (3, .ok (.value 17)), (2, .ok (.value 22))] ∧
    (∀ id reply, (id, reply) ∈ Rpc.settled (VaultRpc.seen counter 0 10 events) → id ≠ 1 →
      ∃ request, (id, request) ∈ Rpc.sent (VaultRpc.seen counter 0 10 events) ∧
        VaultRpc.Answer counter request reply) :=
  ⟨by decide +kernel, (vault_calls counter 0 10 events methods).2.2.2.1⟩

end Freehold
