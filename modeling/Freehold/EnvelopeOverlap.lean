import Freehold.MetaStore

set_option autoImplicit false

namespace Freehold

open Async MetaStore

/-- A call under way: up to its authorization, or past it, with the envelope that
`#envelope` has given it and the PRF that authorizes it. -/
inductive Pending where
  | authorizing (method : Change) (results : PoolResults) (task : MetaM (Envelope × List UInt8))
  | performing (method : Change) (env : Envelope) (prf : List UInt8) (task : MetaM Unit)

/-- The records and the calls under way, with the methods that the calls which stored
their envelope have added and not removed, and the calls that have resolved. -/
structure Overlap where
  records : MetaStore
  pending : List Pending
  methods : List Enrollment
  resolved : List Change

inductive OverlapEvent where
  | start (method : Change) (picked : CredId) (results : PoolResults)
  | resume (k : Nat)
  | reject (k : Nat)

namespace Overlap

/-- The ledger after an access of the call. -/
def record (before after : MetaStore) (method : Change) (env : Envelope) (prf : List UInt8)
    (methods : List Enrollment) : List Enrollment :=
  if after.envelope = before.envelope then methods else (method.mutation prf).record ⟨env, 0, methods⟩

/-- The `k`-th call goes on to its next await, or ends. -/
def resume (w : Overlap) (k : Nat) : Pending → Overlap
  | .authorizing method results (.await access rest) =>
      { w with
        records := access w.records
        pending := w.pending.set k (.authorizing method results (rest w.records)) }
  | .authorizing method results (.done (.ok both)) =>
      let task := method.perform results both.1 both.2
      { w with pending := w.pending.set k (.performing method both.1 both.2 task) }
  | .performing method env prf (.await access rest) =>
      { w with
        records := access w.records
        methods := record w.records (access w.records) method env prf w.methods
        pending := w.pending.set k (.performing method env prf (rest w.records)) }
  | .performing method _ _ (.done (.ok _)) =>
      { w with pending := w.pending.eraseIdx k, resolved := w.resolved ++ [method] }
  | .authorizing _ _ (.done (.error _)) | .performing _ _ _ (.done (.error _)) =>
      { w with pending := w.pending.eraseIdx k }

/-- Calls start, go on to their next await and throw at any of them. -/
def step (w : Overlap) : OverlapEvent → Option Overlap
  | .start method picked results =>
      some { w with pending := w.pending ++ [.authorizing method results (method.authorized picked)] }
  | .resume k => w.pending[k]?.map (w.resume k)
  | .reject k => w.pending[k]?.map fun _ => { w with pending := w.pending.eraseIdx k }

/-- A vault on which no call is under way. -/
def start (records : MetaStore) (methods : List Enrollment) : Overlap := ⟨records, [], methods, []⟩

/-- An added slot finds room. -/
def roomy (env : Envelope) : Change → Bool
  | .addRecoveryCode _ | .addPasskey _ => Enrolled.Roomy env.body.slots
  | _ => true

/-- A call replaces no envelope but the one it was given. -/
def unraced (w : Overlap) : OverlapEvent → Bool
  | .resume k =>
      match w.pending[k]? with
      | some (.performing method env _ (.await access _)) =>
          (access w.records).envelope = w.records.envelope ||
            (w.records.envelope = some env && roomy env method)
      | _ => true
  | _ => true

/-- The stored envelope admits the methods of the ledger, and no others. -/
def Reflects (w : Overlap) : Prop :=
  ∃ env dek, w.records.envelope = some env ∧ (∀ e ∈ w.methods, env.openWith e.method = .ok dek) ∧
    ∀ method, (∀ e ∈ w.methods, e.method ≠ method) → ∀ dek', env.openWith method ≠ .ok dek'

/-- An access leaves the stored envelope alone. -/
def Keeping (s t : MetaStore) : Prop := t.envelope = s.envelope

theorem Keeping.refl (s : MetaStore) : Keeping s s := rfl

/-- A call that stores at most one envelope, which its operation makes of the one it was given. -/
def Stores (method : Change) (env : Envelope) (prf : List UInt8) : MetaM Unit → Prop
  | .done _ => True
  | .await access rest => ∀ s,
      Keeping s (access s) ∧ Stores method env prf (rest s) ∨
      (∃ dek next, env.openWith (.prf prf) = .ok dek ∧
          (method.mutation prf).apply env dek = .ok next ∧ (access s).envelope = some next) ∧
        (rest s).Keeps Keeping

section Calls

variable {method : Change} {env : Envelope} {prf : List UInt8} {results : PoolResults}

theorem keeps_currentEnvelope : currentEnvelope.Keeps Keeping := by
  apply keeps_read_bind Keeping.refl
  intro stored
  apply keeps_ofExcept_bind
  intro env
  apply keeps_read_bind Keeping.refl
  exact fun _ => trivial

theorem keeps_presentPrf (picked : CredId) : (presentPrf picked).Keeps Keeping := by
  apply keeps_read_bind Keeping.refl
  intro credId
  apply keeps_read_bind Keeping.refl
  exact fun _ => trivial

theorem keeps_authorized (picked : CredId) : (method.authorized picked).Keeps Keeping := by
  apply keeps_ofExcept_bind
  intro _
  apply keeps_bind keeps_currentEnvelope
  intro env
  apply keeps_bind (keeps_presentPrf picked)
  exact fun _ => trivial

theorem keeps_bumpFloor (env : Envelope) : (bumpFloor env).Keeps Keeping := by
  apply keeps_read_bind Keeping.refl
  intro floor
  split
  · exact keeps_write fun _ => rfl
  · trivial

theorem keeps_unlock (picked : CredId) (session : Except String Unit) :
    (unlock picked session).Keeps Keeping := by
  apply keeps_bind keeps_currentEnvelope
  intro env
  apply keeps_read_bind Keeping.refl
  intro _
  apply keeps_bind
  · apply keeps_bind
    · apply keeps_read_bind Keeping.refl
      intro key
      apply keeps_read_bind Keeping.refl
      exact fun _ => trivial
    · intro device
      cases device with
      | some secret => trivial
      | none => exact keeps_presentPrf picked
  · intro secret
    apply keeps_ofExcept_bind
    exact fun _ => trivial

theorem keeps_finish (method : Change) (results : PoolResults) : (method.finish results).Keeps Keeping := by
  cases method with
  | rotateKey draws unlocked again => exact keeps_write_bind (fun _ => rfl) (keeps_unlock again _)
  | addRecoveryCode code => trivial
  | addPasskey new => trivial
  | removeMethod kekId => trivial

/-- A call that stores nothing more. -/
theorem Stores.of_keeps {task : MetaM Unit} (keeps : task.Keeps Keeping) :
    Stores method env prf task := by
  induction task with
  | done result => trivial
  | await access rest ih => exact fun s => .inl ⟨(keeps s).1, ih s (keeps s).2⟩

theorem stores_perform : Stores method env prf (method.perform results env prf) := by
  rw [perform_eq]
  have rest : Stores method env prf ((do
      let next ← Call.ofExcept (method.worker results prf env)
      Call.write fun records => { records with envelope := some next }
      bumpFloor next : MetaM Unit) >>= fun _ => method.finish results) := by
    cases made : method.worker results prf env with
    | error e => trivial
    | ok next =>
        obtain ⟨dek, opened, ok⟩ := worker_ok made
        have quiet := keeps_bind (keeps_bumpFloor next) fun _ => keeps_finish method results
        exact fun s => .inr ⟨⟨dek, next, opened, ok, rfl⟩, quiet⟩
  cases new : method.new with
  | none => exact rest
  | some passkey => exact fun s => .inl ⟨rfl, rest⟩

end Calls

/-- What is to come of a call: it has yet to store its envelope, or will store none. -/
def Sound : Pending → Prop
  | .authorizing _ _ task => task.Keeps Keeping
  | .performing method env prf task => Stores method env prf task

/-- The slots of the stored envelope are those of the ledger, and the calls are sound. -/
structure Inv (w : Overlap) : Prop where
  ledger : ∃ env dek, w.records.envelope = some env ∧ Enrolled.Inv ⟨env, dek, w.methods⟩
  calls : ∀ call ∈ w.pending, Sound call

theorem Inv.reflects {w : Overlap} (inv : Inv w) : Reflects w := by
  obtain ⟨env, dek, stored, exactly⟩ := inv.ledger
  exact ⟨env, dek, stored, exactly.exact.admits, exactly.exact.refuses⟩

theorem record_kept {before after : MetaStore} {method : Change} {env : Envelope} {prf : List UInt8}
    {methods : List Enrollment} (same : Keeping before after) :
    record before after method env prf methods = methods := if_pos same

theorem record_replaced {before after : MetaStore} {method : Change} {env : Envelope}
    {prf : List UInt8} {methods : List Enrollment} (other : ¬ Keeping before after) :
    record before after method env prf methods = (method.mutation prf).record ⟨env, 0, methods⟩ :=
  if_neg other

/-- An unraced replacement moves the ledger as the operation moves the envelope. -/
theorem ledger_replaced {method : Change} {env next : Envelope} {prf : List UInt8} {dek dek' : Dek}
    {methods : List Enrollment} (inv : Enrolled.Inv ⟨env, dek, methods⟩)
    (opened : env.openWith (.prf prf) = .ok dek')
    (ok : (method.mutation prf).apply env dek' = .ok next) (fits : roomy env method = true) :
    ∃ dek'', Enrolled.Inv ⟨next, dek'', (method.mutation prf).record ⟨env, 0, methods⟩⟩ := by
  obtain ⟨_, rfl⟩ := (inv.openWith (.prf prf) dek').mp opened
  refine ⟨(method.mutation prf).dek dek', ?_⟩
  have permitted : Enrolled.allowed ⟨env, dek', methods⟩ (method.mutation prf) := by
    cases method with
    | addRecoveryCode code => exact of_decide_eq_true fits
    | addPasskey new => exact of_decide_eq_true fits
    | removeMethod kekId => trivial
    | rotateKey draws unlocked again => trivial
  have taken : Enrolled.step ⟨env, dek', methods⟩ (method.mutation prf) =
      some ⟨next, (method.mutation prf).dek dek', (method.mutation prf).record ⟨env, dek', methods⟩⟩ := by
    unfold Enrolled.step
    rw [ok]
  have kept := inv.step permitted taken
  cases method <;> exact kept

theorem Inv.step {w after : Overlap} {event : OverlapEvent} (inv : Inv w)
    (permitted : unraced w event = true) (taken : step w event = some after) : Inv after := by
  cases event with
  | start method picked results =>
      obtain rfl := Option.some.inj taken
      refine ⟨inv.ledger, ?_⟩
      intro call member
      rcases List.mem_append.mp member with old | new
      · exact inv.calls call old
      · rw [List.mem_singleton.mp new]
        exact keeps_authorized picked
  | reject k =>
      obtain ⟨call, running, rfl⟩ := Option.map_eq_some_iff.mp taken
      exact ⟨inv.ledger, fun call member => inv.calls call (List.mem_of_mem_eraseIdx member)⟩
  | resume k =>
      obtain ⟨call, running, rfl⟩ := Option.map_eq_some_iff.mp taken
      have own := inv.calls call (List.mem_of_getElem? running)
      have erased : ∀ call ∈ w.pending.eraseIdx k, Sound call :=
        fun call member => inv.calls call (List.mem_of_mem_eraseIdx member)
      have moved : ∀ changed, Sound changed → ∀ call ∈ w.pending.set k changed, Sound call := by
        intro changed sound call member
        rcases List.mem_or_eq_of_mem_set member with old | rfl
        · exact inv.calls call old
        · exact sound
      cases call with
      | authorizing method results task =>
          cases task with
          | done result =>
              cases result with
              | ok both => exact ⟨inv.ledger, moved _ stores_perform⟩
              | error e => exact ⟨inv.ledger, erased⟩
          | await access rest =>
              have kept := own w.records
              obtain ⟨env, dek, stored, exactly⟩ := inv.ledger
              exact ⟨⟨env, dek, kept.1.trans stored, exactly⟩, moved _ kept.2⟩
      | performing method env prf task =>
          cases task with
          | done result => cases result <;> exact ⟨inv.ledger, erased⟩
          | await access rest =>
              obtain ⟨stored, dek, held, exactly⟩ := inv.ledger
              have untouched : Keeping w.records (access w.records) → ∃ env' dek',
                  (access w.records).envelope = some env' ∧ Enrolled.Inv ⟨env', dek',
                    record w.records (access w.records) method env prf w.methods⟩ := by
                intro keeping
                refine ⟨stored, dek, keeping.trans held, ?_⟩
                rw [record_kept keeping]
                exact exactly
              rcases own w.records with ⟨keeping, later⟩ | ⟨⟨dek', next, opened, ok, replaced⟩, later⟩
              · exact ⟨untouched keeping, moved _ later⟩
              · refine ⟨?_, moved _ (Stores.of_keeps later)⟩
                by_cases keeping : Keeping w.records (access w.records)
                · exact untouched keeping
                · have current : w.records.envelope = some env ∧ roomy env method = true := by
                    simp only [unraced, running] at permitted
                    simpa [show ¬ (access w.records).envelope = w.records.envelope from keeping]
                      using permitted
                  obtain rfl := Option.some.inj (held.symm.trans current.1)
                  obtain ⟨dek'', exactly'⟩ := ledger_replaced exactly opened ok current.2
                  rw [← record_replaced keeping] at exactly'
                  exact ⟨next, dek'', replaced, exactly'⟩

/-- A vault enrolled with a passkey of the device. -/
def sampleRecords : MetaStore where
  envelope := some (Envelope.createEnvelope 5 1 (List.replicate 16 7))
  envFloor := some 1
  credId := some [1]
  epoch := none
  deviceKey := none
  deviceWrap := none
  passkeys := [⟨[1], List.replicate 16 7, sampleId_identified⟩]

def sampleMethods : List Enrollment := [⟨0, kindPasskey, .prf (List.replicate 16 7)⟩]

/-- The `k`-th call goes on `n` times. -/
def goesOn (k n : Nat) : List OverlapEvent := List.replicate n (.resume k)

/-- Two calls that add a recovery code. -/
def sampleStarts : List OverlapEvent :=
  [.start (.addRecoveryCode ['A']) [] .fine, .start (.addRecoveryCode ['B']) [] .fine]

end Overlap

end Freehold
