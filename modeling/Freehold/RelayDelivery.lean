import Freehold.Relay

set_option autoImplicit false

namespace Freehold

namespace Relay

/-- The indices from `since` on below the length of a log. -/
def indicesFrom (since length : Nat) : List Nat := List.range' since (length - since)

theorem indicesFrom_succ (since length : Nat) : indicesFrom since (length + 1) =
    indicesFrom since length ++ if since ≤ length then [length] else [] := by
  unfold indicesFrom
  split
  · next reached =>
    rw [show length + 1 - since = length - since + 1 by omega, List.range'_concat]
    simp only [Nat.one_mul]
    rw [show since + (length - since) = length by omega]
  · next later =>
    rw [show length + 1 - since = length - since by omega, List.append_nil]

/-- The backlog replay goes through them. -/
theorem filter_range (since length : Nat) :
    ((List.range length).filter fun i => since ≤ i) = indicesFrom since length := by
  induction length with
  | zero => simp [indicesFrom]
  | succ length ih =>
      rw [List.range_succ, List.filter_append, ih, indicesFrom_succ]
      by_cases reached : since ≤ length <;> simp [reached]

namespace Event

/-- The event on a connection of its own. -/
def on (event : Event) (stream : Nat) : Event :=
  match event with
  | .request now _ method msg => .request now stream method msg
  | .closed ended => .closed ended

end Event

/-- The requests of a run, each on the connection of its place. -/
def numbered (events : List Event) : List Event := events.mapIdx fun n event => event.on n

section Runs

variable {κ : Type} (sha256 : List UInt8 → Vector UInt8 32)
  (ed25519Verify : List UInt8 → List UInt8 → List UInt8 → Bool) [DecidableEq κ] (name : Text → κ)

/-- The relay after a run. -/
def after (events : List Event) : State κ :=
  (run sha256 ed25519Verify name (numbered events) (.new κ)).2

/-- The events of a run and their answers. -/
def trace (events : List Event) : List (Event × Option Answer) :=
  (numbered events).zip (run sha256 ed25519Verify name (numbered events) (.new κ)).1

end Runs

def State.log {κ : Type} (s : State κ) (key : κ) : List Text := ((s.buckets key).getD .empty).log

/-- The blob of a put on the bucket `key` that was answered. -/
def put? (key : Text) : Event × Option Answer → Option Text
  | (.request _ _ _ msg, some (.pushed _ _)) => if msg.syncId = some key then msg.blob else none
  | _ => none

/-- What a stream is sent at an event. -/
def emits (stream : Nat) : Event × Option Answer → List Nat
  | (.request _ own _ _, some (.stream indices)) => if own = stream then indices else []
  | (_, some (.pushed seq told)) => (told.filter (· = stream)).map fun _ => seq
  | _ => []

/-- What a stream has been sent. -/
def emitted (stream : Nat) (trace : List (Event × Option Answer)) : List Nat :=
  trace.flatMap (emits stream)

/-- The answer to a request on a bucket that holds `log`. -/
def Answers (log : List Text) (msg : Msg) : Answer → Prop
  | .denied _ => True
  | .pushed seq _ => seq = log.length
  | .count n => ∃ since, msg.since = some since ∧ n = (log.drop since).length
  | .blob blob => ∃ seq, msg.seq = some seq ∧ blob = log[seq]?
  | .stream indices => ∃ since, msg.since = some since ∧ indices = indicesFrom since log.length

/-- A subscription that is open. -/
def Serving {κ : Type} (s : State κ) (stream : Nat) (key : κ) (since : Nat) : Prop :=
  ∃ b, s.buckets key = some b ∧ (stream, since) ∈ b.waiters

section Snoc

variable {κ : Type} {sha256 : List UInt8 → Vector UInt8 32}
  {ed25519Verify : List UInt8 → List UInt8 → List UInt8 → Bool} [DecidableEq κ] {name : Text → κ}

theorem run_append (before later : List Event) (s : State κ) :
    run sha256 ed25519Verify name (before ++ later) s =
      ((run sha256 ed25519Verify name before s).1 ++
          (run sha256 ed25519Verify name later (run sha256 ed25519Verify name before s).2).1,
        (run sha256 ed25519Verify name later (run sha256 ed25519Verify name before s).2).2) := by
  induction before generalizing s with
  | nil => rfl
  | cons event before ih => simp only [List.cons_append, run, ih]

theorem length_run (events : List Event) (s : State κ) :
    (run sha256 ed25519Verify name events s).1.length = events.length := by
  induction events generalizing s with
  | nil => rfl
  | cons event events ih => simp only [run, List.length_cons, ih]

theorem numbered_concat (events : List Event) (event : Event) :
    numbered (events ++ [event]) = numbered events ++ [event.on events.length] := by
  rw [numbered, numbered, List.mapIdx_concat]

theorem length_numbered (events : List Event) : (numbered events).length = events.length := by
  rw [numbered, List.length_mapIdx]

theorem after_concat (events : List Event) (event : Event) :
    after sha256 ed25519Verify name (events ++ [event]) =
      (step sha256 ed25519Verify name (event.on events.length)
        (after sha256 ed25519Verify name events)).2 := by
  simp only [after, numbered_concat, run_append, run]

theorem trace_concat (events : List Event) (event : Event) :
    trace sha256 ed25519Verify name (events ++ [event]) = trace sha256 ed25519Verify name events ++
      [(event.on events.length, (step sha256 ed25519Verify name (event.on events.length)
        (after sha256 ed25519Verify name events)).1)] := by
  have length := @length_run _ sha256 ed25519Verify _ name (numbered events) (.new κ)
  simp only [trace, after, numbered_concat, run_append, run]
  exact List.zip_append length.symm

theorem length_trace (events : List Event) :
    (trace sha256 ed25519Verify name events).length = events.length := by
  rw [trace, List.length_zip, length_run, length_numbered, Nat.min_self]

/-- The trace of the first part of a run is the first part of its trace. -/
theorem trace_take (events : List Event) (n : Nat) :
    trace sha256 ed25519Verify name (events.take n) =
      (trace sha256 ed25519Verify name events).take n := by
  induction events using List.reverseRecOn with
  | nil => simp [trace, numbered]
  | append_singleton events event ih =>
      have length := @length_trace _ sha256 ed25519Verify _ name events
      by_cases early : n ≤ events.length
      · rw [List.take_append_of_le_length early, trace_concat,
          List.take_append_of_le_length (by omega), ih]
      · rw [List.take_of_length_le (by simp; omega), trace_concat, List.take_of_length_le (by simp; omega)]

end Snoc

/-- What holds of the relay and its trace at every point of a run. -/
structure Delivering (s : State Text) (trace : List (Event × Option Answer)) : Prop where
  ledger : ∀ key, s.log key = trace.filterMap (put? key)
  served : ∀ stream key since, Serving s stream key since →
    stream < trace.length ∧ emitted stream trace = indicesFrom since (s.log key).length
  apart : ∀ stream key since key' since', Serving s stream key since → Serving s stream key' since' →
    key = key'
  once : ∀ key b, s.buckets key = some b → (b.waiters.map Prod.fst).Nodup
  unheard : ∀ stream, trace.length ≤ stream → emitted stream trace = []

section Told

variable {waiters : List (Nat × Nat)} {stream since : Nat}

theorem told_of_notMem (seq : Nat) (absent : stream ∉ waiters.map Prod.fst) :
    (((waiters.filter fun waiter => waiter.2 ≤ seq).map Prod.fst).filter (· = stream)) = [] := by
  rw [List.filter_eq_nil_iff]
  intro other told same
  rw [decide_eq_true_eq] at same
  subst same
  obtain ⟨waiter, member, rfl⟩ := List.mem_map.mp told
  exact absent (List.mem_map_of_mem (List.mem_of_mem_filter member))

/-- A push is told once to a waiter that asked for it. -/
theorem told_of_mem (seq : Nat) (once : (waiters.map Prod.fst).Nodup) (member : (stream, since) ∈ waiters) :
    (((waiters.filter fun waiter => waiter.2 ≤ seq).map Prod.fst).filter (· = stream)) =
      if since ≤ seq then [stream] else [] := by
  induction waiters with
  | nil => simp at member
  | cons waiter waiters ih =>
      rw [List.map_cons, List.nodup_cons] at once
      rcases List.mem_cons.mp member with rfl | later
      · have rest := told_of_notMem seq once.1
        by_cases reached : since ≤ seq
        · simp only [List.filter_cons, reached, decide_true, if_true, List.map_cons, rest]
        · simp only [List.filter_cons, reached, decide_false, Bool.false_eq_true, if_false, rest]
      · have other : waiter.1 ≠ stream := by
          intro same
          exact once.1 (same ▸ List.mem_map_of_mem (f := Prod.fst) later)
        rw [← ih once.2 later, List.filter_cons]
        split
        · simp [other]
        · rfl

end Told

section Step

variable {s s' : State Text} {trace : List (Event × Option Answer)} {entry : Event × Option Answer}
  {stream since : Nat} {key : Text}

theorem emitted_concat (stream : Nat) (trace : List (Event × Option Answer))
    (entry : Event × Option Answer) :
    emitted stream (trace ++ [entry]) = emitted stream trace ++ emits stream entry := by
  simp [emitted]

theorem log_setBucket (syncText : Text) (b : Bucket) (s : State Text) (key : Text) :
    (setBucket id syncText b s).log key = if key = syncText then b.log else s.log key := by
  by_cases same : key = syncText
  · subst same
    simp [State.log, setBucket]
  · simp [State.log, setBucket, same]

theorem serving_setBucket (syncText : Text) (b : Bucket) (s : State Text) :
    Serving (setBucket id syncText b s) stream key since ↔
      if key = syncText then (stream, since) ∈ b.waiters else Serving s stream key since := by
  by_cases same : key = syncText
  · subst same
    simp [Serving, setBucket]
  · simp [Serving, setBucket, same]

theorem serving_held (s : State Text) (key : Text) :
    (stream, since) ∈ ((s.buckets key).getD .empty).waiters ↔ Serving s stream key since := by
  unfold Serving
  cases s.buckets key <;> simp [Bucket.empty]

/-- An event that leaves the buckets as they are. -/
theorem Delivering.quiet (inv : Delivering s trace) (same : s'.buckets = s.buckets)
    (noPut : ∀ key, put? key entry = none) (silent : ∀ stream, emits stream entry = []) :
    Delivering s' (trace ++ [entry]) := by
  have log (key : Text) : s'.log key = s.log key := by rw [State.log, State.log, same]
  have serving (stream : Nat) (key : Text) (since : Nat) :
      Serving s' stream key since ↔ Serving s stream key since := by rw [Serving, Serving, same]
  refine ⟨fun key => ?_, fun stream key since held => ?_, fun stream key since key' since' one other => ?_,
    fun key b held => inv.once key b (same ▸ held), fun stream late => ?_⟩
  · rw [log, inv.ledger key, List.filterMap_append]
    simp [noPut key]
  · obtain ⟨known, sent⟩ := inv.served stream key since ((serving ..).mp held)
    rw [emitted_concat, silent, List.append_nil, log, List.length_append]
    exact ⟨Nat.lt_add_right _ known, sent⟩
  · exact inv.apart stream key since key' since' ((serving ..).mp one) ((serving ..).mp other)
  · rw [List.length_append] at late
    rw [emitted_concat, silent, List.append_nil]
    exact inv.unheard stream (by omega)

/-- The end of a stream. -/
theorem Delivering.close (inv : Delivering s trace) (ended : Nat) :
    Delivering (closeStream ended s) (trace ++ [(.closed ended, none)]) := by
  have bucket (key : Text) (b : Bucket) (held : (closeStream ended s).buckets key = some b) :
      ∃ b', s.buckets key = some b' ∧
        b = { b' with waiters := b'.waiters.filter fun waiter => waiter.1 ≠ ended } := by
    obtain ⟨b', held', same⟩ := Option.map_eq_some_iff.mp held
    exact ⟨b', held', same.symm⟩
  have log (key : Text) : (closeStream ended s).log key = s.log key := by
    simp only [State.log, closeStream]
    cases s.buckets key <;> rfl
  have serving (stream : Nat) (key : Text) (since : Nat)
      (held : Serving (closeStream ended s) stream key since) : Serving s stream key since := by
    obtain ⟨b, found, member⟩ := held
    obtain ⟨b', found', rfl⟩ := bucket key b found
    exact ⟨b', found', List.mem_of_mem_filter member⟩
  refine ⟨fun key => ?_, fun stream key since held => ?_, fun stream key since key' since' one other => ?_,
    fun key b held => ?_, fun stream late => ?_⟩
  · rw [log, inv.ledger key, List.filterMap_append]
    simp [put?]
  · obtain ⟨known, sent⟩ := inv.served stream key since (serving _ _ _ held)
    rw [emitted_concat, log, List.length_append, sent]
    simp only [emits, List.append_nil, and_true]
    exact Nat.lt_add_right _ known
  · exact inv.apart stream key since key' since' (serving _ _ _ one) (serving _ _ _ other)
  · obtain ⟨b', found', rfl⟩ := bucket key b held
    exact (inv.once key b' found').sublist (List.filter_sublist.map _)
  · rw [List.length_append] at late
    rw [emitted_concat, inv.unheard stream (by omega)]
    rfl

/-- A put. -/
theorem Delivering.push (inv : Delivering s trace) {now : Rat} {own : Nat} {method : Method} {msg : Msg}
    {syncText blob : Text} (bucket : msg.syncId = some syncText) (sent : msg.blob = some blob) :
    let b := (s.buckets syncText).getD .empty
    Delivering (setBucket id syncText { b with log := b.log ++ [blob] } s)
      (trace ++ [(.request now own method msg, some (.pushed b.log.length
        ((b.waiters.filter fun waiter => waiter.2 ≤ b.log.length).map Prod.fst)))]) := by
  intro b
  have held : b.log = s.log syncText := rfl
  have serving (stream : Nat) (key : Text) (since : Nat) :
      Serving (setBucket id syncText { b with log := b.log ++ [blob] } s) stream key since ↔
        Serving s stream key since := by
    rw [serving_setBucket]
    split
    · next same =>
      subst same
      exact serving_held s key
    · rfl
  have once : (b.waiters.map Prod.fst).Nodup := by
    show (((s.buckets syncText).getD .empty).waiters.map Prod.fst).Nodup
    cases found : s.buckets syncText with
    | none => simp [Bucket.empty]
    | some b' => exact inv.once syncText b' found
  refine ⟨fun key => ?_, fun stream key since open_ => ?_,
    fun stream key since key' since' one other => ?_, fun key b' found => ?_, fun stream late => ?_⟩
  · rw [log_setBucket, List.filterMap_append, ← inv.ledger key]
    by_cases same : key = syncText
    · simp [same, put?, bucket, sent, held]
    · simp [same, put?, bucket, Ne.symm same]
  · have before := (serving stream key since).mp open_
    obtain ⟨known, received⟩ := inv.served stream key since before
    rw [List.length_append, emitted_concat, received, log_setBucket]
    refine ⟨Nat.lt_add_right _ known, ?_⟩
    by_cases same : key = syncText
    · subst same
      have member : (stream, since) ∈ b.waiters := (serving_held s key).mpr before
      simp only [if_true, emits, told_of_mem _ once member, List.length_append, List.length_singleton,
        indicesFrom_succ, held]
      split <;> rfl
    · have absent : stream ∉ b.waiters.map Prod.fst := by
        intro told
        obtain ⟨⟨_, since'⟩, member, rfl⟩ := List.mem_map.mp told
        exact same (inv.apart _ _ _ _ _ before ((serving_held s syncText).mp member))
      simp only [same, if_false, emits, told_of_notMem _ absent, List.map_nil, List.append_nil]
  · exact inv.apart _ _ _ _ _ ((serving ..).mp one) ((serving ..).mp other)
  · by_cases same : key = syncText
    · subst same
      simp only [setBucket, id, Function.update_self, Option.some.injEq] at found
      subst found
      exact once
    · simp only [setBucket, id, Function.update_of_ne same] at found
      exact inv.once key b' found
  · rw [List.length_append] at late
    have absent : stream ∉ b.waiters.map Prod.fst := by
      intro told
      obtain ⟨⟨_, since⟩, member, rfl⟩ := List.mem_map.mp told
      have known := (inv.served _ _ _ ((serving_held s syncText).mp member)).1
      simp only at late
      omega
    rw [emitted_concat, inv.unheard stream (by omega)]
    simp only [emits, told_of_notMem _ absent, List.map_nil, List.append_nil]

/-- A new subscription. -/
theorem Delivering.subscribe (inv : Delivering s trace) {now : Rat} {method : Method} {msg : Msg}
    {syncText : Text} (since : Nat) :
    let b := (s.buckets syncText).getD .empty
    Delivering (setBucket id syncText { b with waiters := b.waiters ++ [(trace.length, since)] } s)
      (trace ++ [(.request now trace.length method msg,
        some (.stream ((List.range b.log.length).filter fun i => since ≤ i)))]) := by
  intro b
  have log (key : Text) :
      (setBucket id syncText { b with waiters := b.waiters ++ [(trace.length, since)] } s).log key =
        s.log key := by
    rw [log_setBucket]
    split
    · next same => rw [same]; rfl
    · rfl
  have serving (stream : Nat) (key : Text) (since' : Nat) :
      Serving (setBucket id syncText { b with waiters := b.waiters ++ [(trace.length, since)] } s)
          stream key since' ↔
        Serving s stream key since' ∨ key = syncText ∧ stream = trace.length ∧ since' = since := by
    rw [serving_setBucket]
    by_cases same : key = syncText
    · subst same
      simp only [if_true, List.mem_append, List.mem_singleton, Prod.mk.injEq, true_and]
      rw [serving_held]
    · simp [same]
  have fresh (stream : Nat) (key : Text) (since' : Nat) (held : Serving s stream key since') :
      stream ≠ trace.length := Nat.ne_of_lt (inv.served _ _ _ held).1
  refine ⟨fun key => ?_, fun stream key since' open_ => ?_,
    fun stream key since₁ key' since₂ one other => ?_, fun key b' found => ?_, fun stream late => ?_⟩
  · rw [log, inv.ledger key, List.filterMap_append]
    simp [put?]
  · rw [List.length_append, emitted_concat, log]
    rcases (serving ..).mp open_ with before | ⟨rfl, rfl, rfl⟩
    · obtain ⟨known, received⟩ := inv.served _ _ _ before
      have other : trace.length ≠ stream := Ne.symm (fresh _ _ _ before)
      simp only [emits, other, if_false, List.append_nil, received, and_true]
      exact Nat.lt_add_right _ known
    · rw [inv.unheard _ (Nat.le_refl _)]
      simp only [emits, if_true, List.nil_append, filter_range, List.length_singleton]
      exact ⟨Nat.lt_succ_self _, rfl⟩
  · rcases (serving ..).mp one with before | ⟨rfl, rfl, rfl⟩
    · rcases (serving ..).mp other with before' | ⟨rfl, rfl, rfl⟩
      · exact inv.apart _ _ _ _ _ before before'
      · exact absurd rfl (fresh _ _ _ before)
    · rcases (serving ..).mp other with before' | ⟨rfl, _, rfl⟩
      · exact absurd rfl (fresh _ _ _ before')
      · rfl
  · by_cases same : key = syncText
    · subst same
      simp only [setBucket, id, Function.update_self, Option.some.injEq] at found
      subst found
      rw [List.map_append, List.nodup_append]
      refine ⟨?_, List.nodup_singleton _, ?_⟩
      · show (((s.buckets key).getD .empty).waiters.map Prod.fst).Nodup
        cases held : s.buckets key with
        | none => simp [Bucket.empty]
        | some b' => exact inv.once key b' held
      · intro stream told other last same
        rw [List.map_singleton, List.mem_singleton] at last
        obtain ⟨⟨_, since'⟩, member, rfl⟩ := List.mem_map.mp told
        exact fresh _ _ _ ((serving_held s key).mp member) (same.trans last)
    · simp only [setBucket, id, Function.update_of_ne same] at found
      exact inv.once key b' found
  · rw [List.length_append, List.length_singleton] at late
    rw [emitted_concat, inv.unheard stream (by omega)]
    simp only [emits, List.nil_append]
    rw [if_neg (by omega)]

end Step

section Run

variable {sha256 : List UInt8 → Vector UInt8 32} {ed25519Verify : List UInt8 → List UInt8 → List UInt8 → Bool}
  {s : State Text} {trace : List (Event × Option Answer)}

theorem field_eq_some {text : Option Text} {b64 : Text} (read : field text = some b64) :
    text = some b64 := (Option.filter_eq_some_iff.mp read).1

/-- The bucket of a request that passes is the one it names. -/
theorem syncId_of_checks {method : Method} {msg : Msg} {syncText pubText : Text}
    (passed : checks sha256 ed25519Verify method msg = .ok (syncText, pubText)) :
    msg.syncId = some syncText := by
  unfold checks at passed
  split at passed
  · cases passed
  · next named =>
    split at passed
    · dsimp only at passed
      split at passed
      · cases passed
      · split at passed
        · cases passed
        · split at passed
          · cases passed
          · cases passed
            exact field_eq_some named
    · cases passed

theorem Delivering.handle (inv : Delivering s trace) {now : Rat} {method : Method} {msg : Msg}
    {syncText : Text} (bucket : msg.syncId = some syncText) :
    Delivering (handle id trace.length method msg syncText s).2
      (trace ++ [(.request now trace.length method msg,
        some (handle id trace.length method msg syncText s).1)]) := by
  unfold Relay.handle
  cases method with
  | pushBlob =>
      cases sent : field msg.blob with
      | none => exact inv.quiet rfl (fun _ => rfl) fun _ => rfl
      | some blob => exact inv.push bucket (field_eq_some sent)
  | listBlobs =>
      cases msg.since with
      | none => exact inv.quiet rfl (fun _ => rfl) fun _ => rfl
      | some since => exact inv.quiet rfl (fun _ => rfl) fun _ => rfl
  | getBlob =>
      cases msg.seq with
      | none => exact inv.quiet rfl (fun _ => rfl) fun _ => rfl
      | some seq => exact inv.quiet rfl (fun _ => rfl) fun _ => rfl
  | subscribe =>
      cases msg.since with
      | none => exact inv.quiet rfl (fun _ => rfl) fun _ => rfl
      | some since => exact inv.subscribe since

theorem Delivering.step (inv : Delivering s trace) (event : Event) :
    Delivering (step sha256 ed25519Verify id (event.on trace.length) s).2
      (trace ++ [(event.on trace.length,
        (step sha256 ed25519Verify id (event.on trace.length) s).1)]) := by
  cases event with
  | closed ended => exact inv.close ended
  | request now stream method msg =>
      show Delivering (Relay.step sha256 ed25519Verify id (.request now trace.length method msg) s).2
        (trace ++ [(.request now trace.length method msg,
          (Relay.step sha256 ed25519Verify id (.request now trace.length method msg) s).1)])
      cases passed : checks sha256 ed25519Verify method msg with
      | error err =>
          rw [step_refused passed]
          exact inv.quiet rfl (fun _ => rfl) fun _ => rfl
      | ok texts =>
          obtain ⟨syncText, pubText⟩ := texts
          cases token : (rateOk id now pubText s).1 with
          | false =>
              rw [step_limited passed token]
              exact inv.quiet rfl (fun _ => rfl) fun _ => rfl
          | true =>
              rw [step_granted passed token]
              have rated : Delivering (rateOk id now pubText s).2 trace :=
                ⟨inv.ledger, inv.served, inv.apart, inv.once, inv.unheard⟩
              exact rated.handle (syncId_of_checks passed)

theorem delivering (events : List Event) :
    Delivering (after sha256 ed25519Verify id events) (Relay.trace sha256 ed25519Verify id events) := by
  induction events using List.reverseRecOn with
  | nil =>
      refine ⟨fun _ => rfl, ?_, ?_, ?_, fun _ _ => rfl⟩
      · rintro stream key since ⟨b, none, _⟩
        cases none
      · rintro stream key since key' since' ⟨b, none, _⟩
        cases none
      · intro key b none
        cases none
  | append_singleton events event ih =>
      have step := @Delivering.step sha256 ed25519Verify _ _ ih event
      rw [length_trace] at step
      rw [after_concat, trace_concat]
      exact step

/-- What a request that is let through is answered. -/
theorem answers_handle {stream : Nat} {method : Method} {msg : Msg} {syncText : Text} :
    Answers (s.log syncText) msg (handle id stream method msg syncText s).1 := by
  unfold Relay.handle
  cases method with
  | pushBlob =>
      cases field msg.blob with
      | none => trivial
      | some blob => rfl
  | listBlobs =>
      cases since : msg.since with
      | none => trivial
      | some since' => exact ⟨since', since, (List.length_drop ..).symm⟩
  | getBlob =>
      cases seq : msg.seq with
      | none => trivial
      | some seq' => exact ⟨seq', seq, rfl⟩
  | subscribe =>
      cases since : msg.since with
      | none => trivial
      | some since' => exact ⟨since', since, filter_range since' _⟩

/-- What any request on a bucket is answered. -/
theorem answers_step {now : Rat} {stream : Nat} {method : Method} {msg : Msg} {answer : Answer} {key : Text}
    (answered : (step sha256 ed25519Verify id (.request now stream method msg) s).1 = some answer)
    (bucket : msg.syncId = some key) : Answers (s.log key) msg answer := by
  cases passed : checks sha256 ed25519Verify method msg with
  | error err =>
      rw [step_refused passed, Option.some.injEq] at answered
      subst answered
      trivial
  | ok texts =>
      obtain ⟨syncText, pubText⟩ := texts
      cases token : (rateOk id now pubText s).1 with
      | false =>
          rw [step_limited passed token, Option.some.injEq] at answered
          subst answered
          trivial
      | true =>
          rw [step_granted passed token, Option.some.injEq] at answered
          have named := syncId_of_checks passed
          rw [bucket, Option.some.injEq] at named
          subst answered named
          exact @answers_handle (rateOk id now pubText s).2 _ _ _ _

theorem serving_handle {stream own since : Nat} {method : Method} {msg : Msg} {syncText key : Text}
    (open_ : Serving s stream key since) : Serving (handle id own method msg syncText s).2 stream key since := by
  unfold Relay.handle
  cases method with
  | pushBlob =>
      cases field msg.blob with
      | none => exact open_
      | some blob =>
          rw [serving_setBucket]
          split
          · next same =>
            subst same
            exact (serving_held s key).mpr open_
          · exact open_
  | listBlobs => cases msg.since <;> exact open_
  | getBlob => cases msg.seq <;> exact open_
  | subscribe =>
      cases msg.since with
      | none => exact open_
      | some since =>
          rw [serving_setBucket]
          split
          · next same =>
            subst same
            exact List.mem_append_left _ ((serving_held s key).mpr open_)
          · exact open_

/-- A subscription stays open until its stream ends. -/
theorem serving_step {stream since : Nat} {event : Event} {key : Text} (open_ : Serving s stream key since)
    (goes_on : event ≠ .closed stream) :
    Serving (step sha256 ed25519Verify id event s).2 stream key since := by
  cases event with
  | closed ended =>
      obtain ⟨b, found, member⟩ := open_
      have other : stream ≠ ended := by
        intro same
        exact goes_on (by rw [same])
      refine ⟨{ b with waiters := b.waiters.filter fun waiter => waiter.1 ≠ ended }, ?_, ?_⟩
      · simp only [step, closeStream, found, Option.map_some]
      · simp [member, other]
  | request now own method msg =>
      cases passed : checks sha256 ed25519Verify method msg with
      | error err =>
          rw [step_refused passed]
          exact open_
      | ok texts =>
          obtain ⟨syncText, pubText⟩ := texts
          cases token : (rateOk id now pubText s).1 with
          | false =>
              rw [step_limited passed token]
              exact open_
          | true =>
              rw [step_granted passed token]
              exact @serving_handle (rateOk id now pubText s).2 _ _ _ _ _ _ _ open_

theorem subscribed_handle {own since : Nat} {method : Method} {msg : Msg} {indices : List Nat}
    {syncText : Text} (asked : msg.since = some since)
    (answered : (handle id own method msg syncText s).1 = .stream indices) :
    Serving (handle id own method msg syncText s).2 own syncText since := by
  cases method with
  | pushBlob => cases sent : field msg.blob <;> simp [Relay.handle, sent] at answered
  | listBlobs => simp [Relay.handle, asked] at answered
  | getBlob => cases seq : msg.seq <;> simp [Relay.handle, seq] at answered
  | subscribe => simp [Relay.handle, asked, serving_setBucket]

/-- An answered subscription is open. -/
theorem serving_subscribed {now : Rat} {own since : Nat} {method : Method} {msg : Msg} {indices : List Nat}
    {key : Text} (bucket : msg.syncId = some key) (asked : msg.since = some since)
    (answered : (step sha256 ed25519Verify id (.request now own method msg) s).1 =
      some (.stream indices)) :
    Serving (step sha256 ed25519Verify id (.request now own method msg) s).2 own key since := by
  cases passed : checks sha256 ed25519Verify method msg with
  | error err =>
      rw [step_refused passed] at answered
      cases answered
  | ok texts =>
      obtain ⟨syncText, pubText⟩ := texts
      cases token : (rateOk id now pubText s).1 with
      | false =>
          rw [step_limited passed token] at answered
          cases answered
      | true =>
          have named := syncId_of_checks passed
          rw [bucket, Option.some.injEq] at named
          subst named
          rw [step_granted passed token] at answered ⊢
          exact subscribed_handle asked (Option.some.inj answered)

/-- What an event of a run was answered. -/
theorem getElem?_trace {events : List Event} {n : Nat} {entry : Event × Option Answer}
    (found : (Relay.trace sha256 ed25519Verify id events)[n]? = some entry) :
    ∃ event, events[n]? = some event ∧ entry = (event.on n, (step sha256 ed25519Verify id (event.on n)
      (after sha256 ed25519Verify id (events.take n))).1) := by
  have inside : n < events.length := by
    have bound := (List.getElem?_eq_some_iff.mp found).1
    rwa [length_trace] at bound
  refine ⟨events[n], List.getElem?_eq_getElem inside, ?_⟩
  have last := @trace_take _ sha256 ed25519Verify _ id events (n + 1)
  rw [List.take_succ_eq_append_getElem inside, trace_concat, List.length_take,
    Nat.min_eq_left (Nat.le_of_lt inside)] at last
  have here := congrArg (fun entries => entries[n]?) last
  have length : (Relay.trace sha256 ed25519Verify id (events.take n)).length = n := by
    rw [length_trace, List.length_take]
    omega
  simp only [List.getElem?_take, Nat.lt_succ_self, if_true] at here
  rw [found, List.getElem?_append_right (by omega), length, Nat.sub_self] at here
  simpa using here.symm

end Run

end Relay

end Freehold
