import Freehold.Lib.Simulation
import Mathlib.Data.List.Basic
import Mathlib.Data.List.Count
import Mathlib.Data.List.Nodup

set_option autoImplicit false

/- Calls with numbers over two queues. The caller numbers its calls and waits for replies with their
numbers; the server takes the requests in order and goes on with them in any order. -/
namespace Rpc

/-- What a server does with a request: it starts a handler, and each time what the handler waits for has
come it goes on to a next wait or to the reply. -/
structure Server (σ ρ κ ι α : Type) where
  start : ρ → σ → κ × σ
  resume : κ → ι → σ → (κ ⊕ α) × σ

structure State (σ ρ κ α : Type) where
  seq : Nat
  pending : List Nat
  inbox : List (Nat × ρ)
  running : List (Nat × κ)
  outbox : List (Nat × α)
  server : σ
  alive : Bool

/-- Who acts next. A call may fail to send its request, the server may report a failure of its own, and it
may be stopped. -/
inductive Event (ρ ι : Type) where
  | call (request : ρ) (sent : Bool)
  | deliver
  | resume (id : Nat) (input : ι)
  | reply
  | fail
  | stop

inductive Obs (ρ α : Type) where
  | idle
  | called (id : Nat) (request : ρ) (sent : Bool)
  | began (id : Nat) (request : ρ)
  | finished (id : Nat) (result : α)
  | settled (id : Nat) (result : α)
  /-- A reply that nobody waits for. -/
  | dropped (id : Nat) (result : α)
  | failed (ids : List Nat)

variable {σ ρ κ ι α : Type} (server : Server σ ρ κ ι α)

def State.new (s : σ) : State σ ρ κ α := ⟨0, [], [], [], [], s, true⟩

def call (request : ρ) (sent : Bool) (s : State σ ρ κ α) : Obs ρ α × State σ ρ κ α :=
  let id := s.seq + 1
  (.called id request sent,
    { s with
      seq := id
      pending := s.pending ++ [id]
      inbox := if sent && s.alive then s.inbox ++ [(id, request)] else s.inbox })

def step (event : Event ρ ι) (s : State σ ρ κ α) : Obs ρ α × State σ ρ κ α :=
  match event with
  | .call request sent => call request sent s
  | .deliver =>
      match s.inbox with
      | [] => (.idle, s)
      | (id, request) :: rest =>
          let (handler, started) := server.start request s.server
          (.began id request,
            { s with inbox := rest, running := s.running ++ [(id, handler)], server := started })
  | .resume id input =>
      match s.running.find? (·.1 = id) with
      | none => (.idle, s)
      | some (_, handler) =>
          match server.resume handler input s.server with
          | (.inl handler, resumed) =>
              (.idle, { s with
                running := (s.running.filter (·.1 ≠ id)) ++ [(id, handler)]
                server := resumed })
          | (.inr result, resumed) =>
              (.finished id result, { s with
                running := s.running.filter (·.1 ≠ id)
                outbox := s.outbox ++ [(id, result)]
                server := resumed })
  | .reply =>
      match s.outbox with
      | [] => (.idle, s)
      | (id, result) :: rest =>
          if id ∈ s.pending then
            (.settled id result, { s with pending := s.pending.erase id, outbox := rest })
          else (.dropped id result, { s with outbox := rest })
  | .fail => (.failed s.pending, { s with pending := [] })
  | .stop => (.idle, { s with inbox := [], running := [], outbox := [], alive := false })

namespace Obs

def call? : Obs ρ α → Option Nat
  | called id _ _ => some id
  | _ => none

def sent? : Obs ρ α → Option (Nat × ρ)
  | called id request true => some (id, request)
  | _ => none

def began? : Obs ρ α → Option (Nat × ρ)
  | began id request => some (id, request)
  | _ => none

def finished? : Obs ρ α → Option (Nat × α)
  | finished id result => some (id, result)
  | _ => none

def received? : Obs ρ α → Option (Nat × α)
  | settled id result => some (id, result)
  | dropped id result => some (id, result)
  | _ => none

def settled? : Obs ρ α → Option (Nat × α)
  | settled id result => some (id, result)
  | _ => none

def failures : Obs ρ α → List Nat
  | failed ids => ids
  | _ => []

end Obs

/-- The numbers of the calls. -/
def calls (t : List (Obs ρ α)) : List Nat := t.filterMap Obs.call?

/-- The requests that were sent. -/
def sent (t : List (Obs ρ α)) : List (Nat × ρ) := t.filterMap Obs.sent?

/-- The requests the server has started on. -/
def begun (t : List (Obs ρ α)) : List (Nat × ρ) := t.filterMap Obs.began?

def finished (t : List (Obs ρ α)) : List (Nat × α) := t.filterMap Obs.finished?

def received (t : List (Obs ρ α)) : List (Nat × α) := t.filterMap Obs.received?

/-- The calls that have resolved to their reply. -/
def settled (t : List (Obs ρ α)) : List (Nat × α) := t.filterMap Obs.settled?

/-- The calls that a failure of the server has rejected. -/
def failed (t : List (Obs ρ α)) : List Nat := t.flatMap Obs.failures

/-- What the handler of a request can come to, whatever happens to the state in between. The state it
starts in `fits` the request. -/
inductive Comes (fits : ρ → σ → Prop) : ρ → κ ⊕ α → Prop where
  | start (request : ρ) (s : σ) (fit : fits request s) : Comes fits request (.inl (server.start request s).1)
  | resume {request : ρ} {handler : κ} (input : ι) (s : σ) (earlier : Comes fits request (.inl handler)) :
      Comes fits request (server.resume handler input s).1

/-- The numbers of a queue. -/
def ids {β : Type} (queue : List (Nat × β)) : List Nat := queue.map Prod.fst

/-- What holds of the two parties and of what has been seen of them. -/
structure Inv (fits : ρ → σ → Prop) (s : State σ ρ κ α) (t : List (Obs ρ α)) : Prop where
  numbered : ∀ id, (calls t).count id = if 1 ≤ id ∧ id ≤ s.seq then 1 else 0
  posted : ∀ id, (ids (sent t)).count id ≤ (calls t).count id
  queued : begun t ++ s.inbox <+: sent t
  busy : ∀ id, (ids (finished t)).count id + (ids s.running).count id ≤ (ids (begun t)).count id
  ordered : received t ++ s.outbox <+: finished t
  awaited : ∀ id, (ids (settled t)).count id + (failed t).count id + s.pending.count id = (calls t).count id
  heard : ∀ id ∈ ids (received t), id ∉ s.pending
  kept : ∀ reply ∈ settled t, reply ∈ received t
  handled : ∀ id handler, (id, handler) ∈ s.running → ∃ request, (id, request) ∈ begun t ∧
    Comes server fits request (.inl handler)
  resulted : ∀ id result, (id, result) ∈ finished t → ∃ request, (id, request) ∈ begun t ∧
    Comes server fits request (.inr result)
  lossless : s.alive = true → begun t ++ s.inbox = sent t ∧ received t ++ s.outbox = finished t ∧
    ∀ id, (ids (finished t)).count id + (ids s.running).count id = (ids (begun t)).count id
  halted : s.alive = false → s.inbox = [] ∧ s.running = [] ∧ s.outbox = []

section Concat

variable (t : List (Obs ρ α)) (o : Obs ρ α)

@[simp] theorem calls_concat : calls (t ++ [o]) = calls t ++ o.call?.toList := by
  cases o <;> simp [calls, Obs.call?]

@[simp] theorem sent_concat : sent (t ++ [o]) = sent t ++ o.sent?.toList := by
  cases h : o.sent? <;> simp [sent, h]

@[simp] theorem begun_concat : begun (t ++ [o]) = begun t ++ o.began?.toList := by
  cases h : o.began? <;> simp [begun, h]

@[simp] theorem finished_concat : finished (t ++ [o]) = finished t ++ o.finished?.toList := by
  cases h : o.finished? <;> simp [finished, h]

theorem finished_quiet {o : Obs ρ α} (quiet : o.finished? = none) : finished (t ++ [o]) = finished t := by
  rw [finished_concat, quiet, Option.toList_none, List.append_nil]

@[simp] theorem received_concat : received (t ++ [o]) = received t ++ o.received?.toList := by
  cases h : o.received? <;> simp [received, h]

@[simp] theorem settled_concat : settled (t ++ [o]) = settled t ++ o.settled?.toList := by
  cases h : o.settled? <;> simp [settled, h]

@[simp] theorem failed_concat : failed (t ++ [o]) = failed t ++ o.failures := by simp [failed]

end Concat

section Ids

variable {β : Type} (queue other : List (Nat × β)) (id : Nat)

@[simp] theorem ids_nil : ids ([] : List (Nat × β)) = [] := rfl

@[simp] theorem ids_cons (entry : Nat × β) : ids (entry :: queue) = entry.1 :: ids queue := rfl

@[simp] theorem ids_append : ids (queue ++ other) = ids queue ++ ids other := List.map_append

theorem mem_ids_of_mem {queue : List (Nat × β)} {id : Nat} {b : β} (member : (id, b) ∈ queue) :
    id ∈ ids queue := List.mem_map_of_mem (f := Prod.fst) member

theorem count_filter (j : Nat) : (ids (queue.filter (·.1 ≠ id))).count j = if j = id then 0 else (ids queue).count j := by
  induction queue with
  | nil => simp
  | cons entry queue ih =>
      by_cases same : entry.1 = id
      · by_cases here : j = id
        · simp_all
        · have apart : ¬id = j := fun is => here is.symm
          simp_all
      · by_cases here : j = id
        · simp_all
        · simp_all [List.count_cons]

end Ids

section Inv

variable {server} {fits : ρ → σ → Prop} {s : State σ ρ κ α} {t : List (Obs ρ α)}

theorem Inv.new (s : σ) : Inv server fits (.new s) ([] : List (Obs ρ α)) := by
  refine ⟨?_, ?_, List.prefix_rfl, ?_, List.prefix_rfl, ?_, ?_, ?_, ?_, ?_, ?_, ?_⟩
  · intro id
    have none : ¬(1 ≤ id ∧ id ≤ 0) := by omega
    exact (if_neg none).symm
  all_goals simp [calls, sent, begun, finished, received, settled, failed, State.new]

/-- Where a prefix is, there are no more of a number than in the whole. -/
theorem count_ids_le {β : Type} {queue whole : List (Nat × β)} (first : queue <+: whole) (id : Nat) :
    (ids queue).count id ≤ (ids whole).count id :=
  (first.map Prod.fst).sublist.count_le id

theorem Inv.begun_le (inv : Inv server fits s t) (id : Nat) :
    (ids (begun t)).count id + (ids s.inbox).count id ≤ (ids (sent t)).count id := by
  have bound := count_ids_le inv.queued id
  rwa [ids_append, List.count_append] at bound

theorem Inv.received_le (inv : Inv server fits s t) (id : Nat) :
    (ids (received t)).count id + (ids s.outbox).count id ≤ (ids (finished t)).count id := by
  have bound := count_ids_le inv.ordered id
  rwa [ids_append, List.count_append] at bound

/-- A number occurs once. -/
theorem Inv.once (inv : Inv server fits s t) (id : Nat) : (calls t).count id ≤ 1 := by
  rw [inv.numbered id]
  split <;> omega

theorem Inv.idle (inv : Inv server fits s t) : Inv server fits s (t ++ [.idle]) := by
  refine ⟨?_, ?_, ?_, ?_, ?_, ?_, ?_, ?_, ?_, ?_, ?_, inv.halted⟩ <;>
    simp only [calls_concat, sent_concat, begun_concat, finished_concat, received_concat, settled_concat,
      failed_concat, Obs.call?, Obs.sent?, Obs.began?, Obs.finished?, Obs.received?, Obs.settled?,
      Obs.failures, Option.toList_none, List.append_nil]
  exacts [inv.numbered, inv.posted, inv.queued, inv.busy, inv.ordered, inv.awaited, inv.heard, inv.kept,
    inv.handled, inv.resulted, inv.lossless]

theorem Inv.call (inv : Inv server fits s t) (request : ρ) (wasSent : Bool) :
    Inv server fits (Rpc.call request wasSent s).2 (t ++ [(Rpc.call request wasSent s).1]) := by
  have fresh : (calls t).count (s.seq + 1) = 0 := by
    rw [inv.numbered, if_neg (by omega)]
  have unsent : (ids (sent t)).count (s.seq + 1) = 0 := by
    have bound := inv.posted (s.seq + 1)
    omega
  have same : sent (t ++ [(Rpc.call request wasSent s).1]) =
      sent t ++ if wasSent then [(s.seq + 1, request)] else [] := by
    cases wasSent <;> simp [Rpc.call, Obs.sent?]
  have begunSame : begun (t ++ [(Rpc.call request wasSent s).1]) = begun t := by simp [Rpc.call, Obs.began?]
  have finishedSame : finished (t ++ [(Rpc.call request wasSent s).1]) = finished t := by
    simp [Rpc.call, Obs.finished?]
  have receivedSame : received (t ++ [(Rpc.call request wasSent s).1]) = received t := by
    simp [Rpc.call, Obs.received?]
  have settledSame : settled (t ++ [(Rpc.call request wasSent s).1]) = settled t := by
    simp [Rpc.call, Obs.settled?]
  have failedSame : failed (t ++ [(Rpc.call request wasSent s).1]) = failed t := by
    simp [Rpc.call, Obs.failures]
  have callsNew : calls (t ++ [(Rpc.call request wasSent s).1]) = calls t ++ [s.seq + 1] := by
    simp [Rpc.call, Obs.call?]
  refine ⟨?_, ?_, ?_, ?_, ?_, ?_, ?_, ?_, ?_, ?_, ?_, ?_⟩
  · intro id
    rw [callsNew, List.count_append, inv.numbered, List.count_singleton]
    change _ = if 1 ≤ id ∧ id ≤ s.seq + 1 then 1 else 0
    by_cases here : s.seq + 1 = id
    · subst here
      simp
    · simp only [beq_iff_eq, here, if_false, Nat.add_zero]
      congr 1
      apply propext
      omega
  · intro id
    have bound := inv.posted id
    rw [callsNew, same, ids_append, List.count_append, List.count_append]
    cases wasSent
    · simp only [Bool.false_eq_true, if_false, ids_nil, List.count_nil]
      omega
    · simp only [if_true, ids_cons, ids_nil]
      omega
  · rw [begunSame, same]
    change begun t ++ (if wasSent && s.alive then s.inbox ++ [(s.seq + 1, request)] else s.inbox) <+: _
    cases wasSent
    · simpa using inv.queued
    · cases alive : s.alive
      · simpa using inv.queued.trans (List.prefix_append _ _)
      · have all := (inv.lossless alive).1
        simp [← all]
  · rw [finishedSame, begunSame]
    exact inv.busy
  · rw [finishedSame, receivedSame]
    exact inv.ordered
  · intro id
    have before := inv.awaited id
    rw [callsNew, settledSame, failedSame]
    change _ + _ + (s.pending ++ [s.seq + 1]).count id = _
    rw [List.count_append, List.count_append]
    omega
  · intro id member
    rw [receivedSame] at member
    change id ∉ s.pending ++ [s.seq + 1]
    rw [List.mem_append, List.mem_singleton]
    rintro (old | new)
    · exact inv.heard id member old
    · have some := List.count_pos_iff.mpr member
      have bound := inv.received_le id
      have bound' := inv.busy id
      have bound'' := inv.begun_le id
      rw [new] at some bound bound' bound''
      omega
  · rw [settledSame, receivedSame]
    exact inv.kept
  · rw [begunSame]
    exact inv.handled
  · rw [begunSame, finishedSame]
    exact inv.resulted
  · intro alive
    obtain ⟨all, replies, busy⟩ := inv.lossless alive
    rw [begunSame, finishedSame, receivedSame, same]
    refine ⟨?_, replies, busy⟩
    change begun t ++ (if wasSent && s.alive then s.inbox ++ [(s.seq + 1, request)] else s.inbox) = _
    have on : s.alive = true := alive
    cases wasSent <;> simp [on, ← all]
  · intro dead
    have off : s.alive = false := dead
    obtain ⟨inbox, running, outbox⟩ := inv.halted off
    refine ⟨?_, running, outbox⟩
    change (if wasSent && s.alive then s.inbox ++ [(s.seq + 1, request)] else s.inbox) = []
    rw [off, Bool.and_false, inbox]
    rfl

theorem Inv.deliver (inv : Inv server fits s t) {id : Nat} {request : ρ} {rest : List (Nat × ρ)}
    (next : s.inbox = (id, request) :: rest) (fit : fits request s.server) :
    Inv server fits { s with
      inbox := rest
      running := s.running ++ [(id, (server.start request s.server).1)]
      server := (server.start request s.server).2 } (t ++ [.began id request]) := by
  have queued := inv.queued
  rw [next, ← List.singleton_append, ← List.append_assoc] at queued
  refine ⟨?_, ?_, ?_, ?_, ?_, ?_, ?_, ?_, ?_, ?_, ?_, ?_⟩ <;>
    simp only [calls_concat, sent_concat, begun_concat, finished_concat, received_concat, settled_concat,
      failed_concat, Obs.call?, Obs.sent?, Obs.began?, Obs.finished?, Obs.received?, Obs.settled?,
      Obs.failures, Option.toList_none, Option.toList_some, List.append_nil]
  · exact inv.numbered
  · exact inv.posted
  · exact queued
  · intro j
    have bound := inv.busy j
    simp only [ids_append, ids_cons, ids_nil, List.count_append]
    omega
  · exact inv.ordered
  · exact inv.awaited
  · exact inv.heard
  · exact inv.kept
  · intro j handler member
    rcases List.mem_append.mp member with old | new
    · obtain ⟨earlier, listed, comes⟩ := inv.handled j handler old
      exact ⟨earlier, List.mem_append_left _ listed, comes⟩
    · obtain ⟨rfl, rfl⟩ := Prod.mk.inj (List.mem_singleton.mp new)
      exact ⟨request, List.mem_append_right _ (List.mem_singleton_self _), .start request s.server fit⟩
  · intro j result member
    obtain ⟨earlier, listed, comes⟩ := inv.resulted j result member
    exact ⟨earlier, List.mem_append_left _ listed, comes⟩
  · intro alive
    obtain ⟨all, replies, busy⟩ := inv.lossless alive
    rw [next, ← List.singleton_append, ← List.append_assoc] at all
    refine ⟨all, replies, ?_⟩
    intro j
    have exact_ := busy j
    simp only [ids_append, ids_cons, ids_nil, List.count_append]
    omega
  · intro dead
    rw [(inv.halted dead).1] at next
    cases next

theorem Inv.running_once (inv : Inv server fits s t) {id : Nat} {handler : κ} (member : (id, handler) ∈ s.running) :
    (ids s.running).count id = 1 := by
  have some := List.count_pos_iff.mpr (mem_ids_of_mem member)
  have bound := inv.busy id
  have bound' := inv.begun_le id
  have bound'' := inv.posted id
  have once := inv.once id
  omega

/-- A handler that waits again. -/
theorem Inv.wait (inv : Inv server fits s t) {id : Nat} {handler : κ} {input : ι} {later : κ}
    (member : (id, handler) ∈ s.running) (server' : σ)
    (resumed : (server.resume handler input s.server).1 = .inl later) :
    Inv server fits { s with
      running := (s.running.filter (·.1 ≠ id)) ++ [(id, later)]
      server := server' } (t ++ [.idle]) := by
  have one := inv.running_once member
  have kept : ∀ j, (ids (s.running.filter (·.1 ≠ id) ++ [(id, later)])).count j = (ids s.running).count j := by
    intro j
    rw [ids_append, List.count_append, count_filter, ids_cons, ids_nil, List.count_singleton]
    by_cases here : j = id
    · rw [here, one]
      simp
    · have apart : ¬id = j := fun is => here is.symm
      simp [here, apart]
  have idle := inv.idle
  refine ⟨idle.numbered, idle.posted, idle.queued, ?_, idle.ordered, idle.awaited, idle.heard, idle.kept, ?_,
    idle.resulted, ?_, ?_⟩
  · intro j
    have bound := idle.busy j
    rwa [kept j]
  · intro j other listed
    rcases List.mem_append.mp listed with old | new
    · exact idle.handled j other (List.mem_of_mem_filter old)
    · obtain ⟨rfl, rfl⟩ := Prod.mk.inj (List.mem_singleton.mp new)
      obtain ⟨request, begun, comes⟩ := idle.handled j handler member
      have onward := Comes.resume input s.server comes
      rw [resumed] at onward
      exact ⟨request, begun, onward⟩
  · intro alive
    obtain ⟨all, replies, busy⟩ := idle.lossless alive
    refine ⟨all, replies, ?_⟩
    intro j
    have exact_ := busy j
    rwa [kept j]
  · intro dead
    rw [(inv.halted dead).2.1] at member
    cases member

theorem Inv.finish (inv : Inv server fits s t) {id : Nat} {handler : κ} {input : ι} {result : α}
    (member : (id, handler) ∈ s.running) (server' : σ)
    (resumed : (server.resume handler input s.server).1 = .inr result) :
    Inv server fits { s with
      running := s.running.filter (·.1 ≠ id)
      outbox := s.outbox ++ [(id, result)]
      server := server' } (t ++ [.finished id result]) := by
  have one := inv.running_once member
  have alive : s.alive = true := by
    by_contra dead
    rw [(inv.halted (Bool.eq_false_iff.mpr dead)).2.1] at member
    cases member
  have moved : ∀ j, (ids (finished t ++ [(id, result)])).count j + (ids (s.running.filter (·.1 ≠ id))).count j =
      (ids (finished t)).count j + (ids s.running).count j := by
    intro j
    rw [ids_append, List.count_append, count_filter, ids_cons, ids_nil, List.count_singleton]
    by_cases here : j = id
    · rw [here, one]
      simp
    · have apart : ¬id = j := fun is => here is.symm
      simp [here, apart]
  refine ⟨?_, ?_, ?_, ?_, ?_, ?_, ?_, ?_, ?_, ?_, ?_, ?_⟩ <;>
    simp only [calls_concat, sent_concat, begun_concat, finished_concat, received_concat, settled_concat,
      failed_concat, Obs.call?, Obs.sent?, Obs.began?, Obs.finished?, Obs.received?, Obs.settled?,
      Obs.failures, Option.toList_none, Option.toList_some, List.append_nil]
  · exact inv.numbered
  · exact inv.posted
  · exact inv.queued
  · intro j
    have bound := inv.busy j
    rwa [moved j]
  · refine ⟨[], ?_⟩
    rw [List.append_nil, ← List.append_assoc, (inv.lossless alive).2.1]
  · exact inv.awaited
  · exact inv.heard
  · exact inv.kept
  · intro j other listed
    exact inv.handled j other (List.mem_of_mem_filter listed)
  · intro j other listed
    rcases List.mem_append.mp listed with old | new
    · exact inv.resulted j other old
    · obtain ⟨rfl, rfl⟩ := Prod.mk.inj (List.mem_singleton.mp new)
      obtain ⟨request, begun, comes⟩ := inv.handled j handler member
      have onward := Comes.resume input s.server comes
      rw [resumed] at onward
      exact ⟨request, begun, onward⟩
  · intro alive
    obtain ⟨all, replies, busy⟩ := inv.lossless alive
    refine ⟨all, ?_, ?_⟩
    · rw [← List.append_assoc, replies]
    · intro j
      have exact_ := busy j
      rwa [moved j]
  · intro dead
    rw [alive] at dead
    cases dead

theorem Inv.settle (inv : Inv server fits s t) {id : Nat} {result : α} {rest : List (Nat × α)}
    (next : s.outbox = (id, result) :: rest) (waiting : id ∈ s.pending) :
    Inv server fits { s with pending := s.pending.erase id, outbox := rest } (t ++ [.settled id result]) := by
  have ordered := inv.ordered
  rw [next, ← List.singleton_append, ← List.append_assoc] at ordered
  have waits := List.count_pos_iff.mpr waiting
  refine ⟨?_, ?_, ?_, ?_, ?_, ?_, ?_, ?_, ?_, ?_, ?_, ?_⟩ <;>
    simp only [calls_concat, sent_concat, begun_concat, finished_concat, received_concat, settled_concat,
      failed_concat, Obs.call?, Obs.sent?, Obs.began?, Obs.finished?, Obs.received?, Obs.settled?,
      Obs.failures, Option.toList_none, Option.toList_some, List.append_nil]
  · exact inv.numbered
  · exact inv.posted
  · exact inv.queued
  · exact inv.busy
  · exact ordered
  · intro j
    have before := inv.awaited j
    rw [ids_append, List.count_append, ids_cons, ids_nil, List.count_singleton]
    by_cases here : j = id
    · rw [here, List.count_erase_self]
      rw [here] at before
      simp only [beq_self_eq_true, if_true]
      omega
    · have apart : ¬id = j := fun is => here is.symm
      rw [List.count_erase_of_ne here]
      simp only [beq_iff_eq, apart, if_false]
      omega
  · intro j member still
    have before := inv.awaited id
    have once := inv.once id
    rw [ids_append, List.mem_append, ids_cons, ids_nil, List.mem_singleton] at member
    rcases member with old | rfl
    · exact inv.heard j old (List.mem_of_mem_erase still)
    · have some := List.count_pos_iff.mpr still
      rw [List.count_erase_self] at some
      omega
  · intro reply listed
    rcases List.mem_append.mp listed with old | new
    · exact List.mem_append_left _ (inv.kept reply old)
    · exact List.mem_append_right _ new
  · exact inv.handled
  · exact inv.resulted
  · intro alive
    obtain ⟨all, replies, busy⟩ := inv.lossless alive
    rw [next, ← List.singleton_append, ← List.append_assoc] at replies
    exact ⟨all, replies, busy⟩
  · intro dead
    rw [(inv.halted dead).2.2] at next
    cases next

theorem Inv.drop (inv : Inv server fits s t) {id : Nat} {result : α} {rest : List (Nat × α)}
    (next : s.outbox = (id, result) :: rest) (unknown : id ∉ s.pending) :
    Inv server fits { s with outbox := rest } (t ++ [.dropped id result]) := by
  have ordered := inv.ordered
  rw [next, ← List.singleton_append, ← List.append_assoc] at ordered
  refine ⟨?_, ?_, ?_, ?_, ?_, ?_, ?_, ?_, ?_, ?_, ?_, ?_⟩ <;>
    simp only [calls_concat, sent_concat, begun_concat, finished_concat, received_concat, settled_concat,
      failed_concat, Obs.call?, Obs.sent?, Obs.began?, Obs.finished?, Obs.received?, Obs.settled?,
      Obs.failures, Option.toList_none, Option.toList_some, List.append_nil]
  · exact inv.numbered
  · exact inv.posted
  · exact inv.queued
  · exact inv.busy
  · exact ordered
  · exact inv.awaited
  · intro j member
    rw [ids_append, List.mem_append, ids_cons, ids_nil, List.mem_singleton] at member
    rcases member with old | rfl
    · exact inv.heard j old
    · exact unknown
  · exact fun reply listed => List.mem_append_left _ (inv.kept reply listed)
  · exact inv.handled
  · exact inv.resulted
  · intro alive
    obtain ⟨all, replies, busy⟩ := inv.lossless alive
    rw [next, ← List.singleton_append, ← List.append_assoc] at replies
    exact ⟨all, replies, busy⟩
  · intro dead
    rw [(inv.halted dead).2.2] at next
    cases next

theorem Inv.fail (inv : Inv server fits s t) :
    Inv server fits { s with pending := [] } (t ++ [.failed s.pending]) := by
  refine ⟨?_, ?_, ?_, ?_, ?_, ?_, ?_, ?_, ?_, ?_, ?_, ?_⟩ <;>
    simp only [calls_concat, sent_concat, begun_concat, finished_concat, received_concat, settled_concat,
      failed_concat, Obs.call?, Obs.sent?, Obs.began?, Obs.finished?, Obs.received?, Obs.settled?,
      Obs.failures, Option.toList_none, List.append_nil]
  · exact inv.numbered
  · exact inv.posted
  · exact inv.queued
  · exact inv.busy
  · exact inv.ordered
  · intro j
    have before := inv.awaited j
    rw [List.count_append, List.count_nil]
    omega
  · exact fun _ _ => List.not_mem_nil
  · exact inv.kept
  · exact inv.handled
  · exact inv.resulted
  · exact inv.lossless
  · exact inv.halted

theorem Inv.stop (inv : Inv server fits s t) :
    Inv server fits { s with inbox := [], running := [], outbox := [], alive := false } (t ++ [.idle]) := by
  have idle := inv.idle
  refine ⟨idle.numbered, idle.posted, ?_, ?_, ?_, idle.awaited, idle.heard, idle.kept, ?_, idle.resulted, ?_, ?_⟩
  · rw [List.append_nil]
    exact (List.prefix_append _ _).trans idle.queued
  · intro id
    have bound := idle.busy id
    rw [ids_nil, List.count_nil]
    omega
  · rw [List.append_nil]
    exact (List.prefix_append _ _).trans idle.ordered
  · intro id handler member
    cases member
  · intro dead
    cases dead
  · exact fun _ => ⟨rfl, rfl, rfl⟩

/-- Every step keeps it, where the state fits the request that comes next. -/
theorem Inv.step (inv : Inv server fits s t) (event : Event ρ ι)
    (fit : ∀ id request rest, s.inbox = (id, request) :: rest → fits request s.server) :
    Inv server fits (step server event s).2 (t ++ [(step server event s).1]) := by
  cases event with
  | call request wasSent => exact inv.call request wasSent
  | deliver =>
      cases next : s.inbox with
      | nil => simpa only [Rpc.step, next] using inv.idle
      | cons entry rest => simpa only [Rpc.step, next] using inv.deliver next (fit _ _ _ next)
  | resume id input =>
      cases found : s.running.find? (·.1 = id) with
      | none => simpa only [Rpc.step, found] using inv.idle
      | some entry =>
          have same : entry.1 = id := by simpa using List.find?_some found
          have member : (id, entry.2) ∈ s.running := by
            rw [← same]
            exact List.mem_of_find?_eq_some found
          cases resumed : server.resume entry.2 input s.server with
          | mk outcome server' =>
              have first : (server.resume entry.2 input s.server).1 = outcome := congrArg Prod.fst resumed
              cases outcome with
              | inl later => simpa only [Rpc.step, found, resumed] using inv.wait member server' first
              | inr result => simpa only [Rpc.step, found, resumed] using inv.finish member server' first
  | reply =>
      cases next : s.outbox with
      | nil => simpa only [Rpc.step, next] using inv.idle
      | cons entry rest =>
          by_cases waiting : entry.1 ∈ s.pending
          · simpa only [Rpc.step, next, waiting, if_true] using inv.settle next waiting
          · simpa only [Rpc.step, next, waiting, if_false] using inv.drop next waiting
  | fail => exact inv.fail
  | stop => exact inv.stop

/-- Requests are started in the order in which they were sent. -/
theorem Inv.in_order (inv : Inv server fits s t) : begun t <+: sent t :=
  (List.prefix_append _ _).trans inv.queued

theorem Inv.sent_once (inv : Inv server fits s t) : (ids (sent t)).Nodup := by
  rw [List.nodup_iff_count_le_one]
  intro id
  have bound := inv.posted id
  have once := inv.once id
  omega

/-- No call is settled twice. -/
theorem Inv.settled_once (inv : Inv server fits s t) : (ids (settled t) ++ failed t).Nodup := by
  rw [List.nodup_iff_count_le_one]
  intro id
  have before := inv.awaited id
  have once := inv.once id
  rw [List.count_append]
  omega

/-- A call resolves to what its own request has come to. -/
theorem Inv.correlated (inv : Inv server fits s t) {id : Nat} {result : α} (listed : (id, result) ∈ settled t) :
    ∃ request, (id, request) ∈ begun t ∧ Comes server fits request (.inr result) := by
  have received := List.mem_append_left s.outbox (inv.kept _ listed)
  exact inv.resulted id result (inv.ordered.subset received)

/-- When nothing is on its way any more, every call whose request was sent is settled. -/
theorem Inv.at_rest (inv : Inv server fits s t) (alive : s.alive = true) (inbox : s.inbox = [])
    (running : s.running = []) (outbox : s.outbox = []) {id : Nat} (listed : id ∈ ids (sent t)) :
    id ∈ ids (settled t) ∨ id ∈ failed t := by
  obtain ⟨all, replies, busy⟩ := inv.lossless alive
  rw [inbox, List.append_nil] at all
  rw [outbox, List.append_nil] at replies
  have done := busy id
  have waits := inv.awaited id
  rw [running, ids_nil, List.count_nil, all] at done
  have some := List.count_pos_iff.mpr listed
  have came : id ∈ ids (received t) := by
    rw [replies]
    exact List.count_pos_iff.mp (by omega)
  have off := List.count_eq_zero.mpr (inv.heard id came)
  have bound := inv.posted id
  by_contra neither
  rw [not_or, ← List.count_eq_zero, ← List.count_eq_zero] at neither
  omega

/-- Only a call sends a request, and takes a number. -/
theorem step_quiet (server : Server σ ρ κ ι α) (event : Event ρ ι) (other : ∀ request wasSent, event ≠ .call request wasSent)
    (s : State σ ρ κ α) : (step server event s).1.sent? = none ∧ (step server event s).2.seq = s.seq := by
  cases event with
  | call request wasSent => exact absurd rfl (other request wasSent)
  | deliver => cases next : s.inbox <;> simp [Rpc.step, next, Obs.sent?]
  | resume id input =>
      cases found : s.running.find? (·.1 = id) with
      | none => simp [Rpc.step, found, Obs.sent?]
      | some entry =>
          cases resumed : server.resume entry.2 input s.server with
          | mk outcome server' => cases outcome <;> simp [Rpc.step, found, resumed, Obs.sent?]
  | reply =>
      cases next : s.outbox with
      | nil => simp [Rpc.step, next, Obs.sent?]
      | cons entry rest => by_cases waiting : entry.1 ∈ s.pending <;> simp [Rpc.step, next, waiting, Obs.sent?]
  | fail => exact ⟨rfl, rfl⟩
  | stop => exact ⟨rfl, rfl⟩

end Inv

/-- A property of the server that stays, and the handlers and replies that show that it has come. -/
structure Marks (server : Server σ ρ κ ι α) (holds : σ → Prop) (shows : κ ⊕ α → Prop) : Prop where
  start : ∀ request s, (holds s → holds (server.start request s).2) ∧
    (shows (.inl (server.start request s).1) → holds (server.start request s).2)
  resume : ∀ handler input s, (shows (.inl handler) → holds s) →
    (holds s → holds (server.resume handler input s).2) ∧
    (shows (server.resume handler input s).1 → holds (server.resume handler input s).2)

/-- What the handlers and replies show holds. -/
def Marked (holds : σ → Prop) (shows : κ ⊕ α → Prop) (s : State σ ρ κ α) (t : List (Obs ρ α)) : Prop :=
  (∀ id handler, (id, handler) ∈ s.running → shows (.inl handler) → holds s.server) ∧
  ∀ id result, (id, result) ∈ finished t → shows (.inr result) → holds s.server

section Marks

variable {server} {holds : σ → Prop} {shows : κ ⊕ α → Prop} {s : State σ ρ κ α} {t : List (Obs ρ α)}

theorem Marked.same (marked : Marked holds shows s t) {s' : State σ ρ κ α} {o : Obs ρ α}
    (running : ∀ entry ∈ s'.running, entry ∈ s.running) (server' : s'.server = s.server) (quiet : o.finished? = none) :
    Marked holds shows s' (t ++ [o]) := by
  refine ⟨?_, ?_⟩
  · intro id handler listed shown
    rw [server']
    exact marked.1 id handler (running _ listed) shown
  · intro id result listed shown
    rw [finished_quiet t quiet] at listed
    rw [server']
    exact marked.2 id result listed shown

/-- It stays along every step. -/
theorem Marks.stays (marks : Marks server holds shows) (marked : Marked holds shows s t) (event : Event ρ ι)
    (held : holds s.server) : holds (step server event s).2.server := by
  cases event with
  | call request wasSent => exact held
  | deliver =>
      cases next : s.inbox with
      | nil => simpa only [Rpc.step, next] using held
      | cons entry rest => simpa only [Rpc.step, next] using (marks.start entry.2 s.server).1 held
  | resume id input =>
      cases found : s.running.find? (·.1 = id) with
      | none => simpa only [Rpc.step, found] using held
      | some entry =>
          have member : entry ∈ s.running := List.mem_of_find?_eq_some found
          have later := (marks.resume entry.2 input s.server (marked.1 entry.1 entry.2 member)).1 held
          cases resumed : server.resume entry.2 input s.server with
          | mk outcome server' =>
              rw [resumed] at later
              cases outcome <;> simpa only [Rpc.step, found, resumed] using later
  | reply =>
      cases next : s.outbox with
      | nil => simpa only [Rpc.step, next] using held
      | cons entry rest =>
          by_cases waiting : entry.1 ∈ s.pending <;> simpa only [Rpc.step, next, waiting, if_true, if_false] using held
  | fail => exact held
  | stop => exact held

theorem Marked.step (marks : Marks server holds shows) (marked : Marked holds shows s t) (event : Event ρ ι) :
    Marked holds shows (step server event s).2 (t ++ [(step server event s).1]) := by
  have same {s' : State σ ρ κ α} {o : Obs ρ α} := @Marked.same σ ρ κ α holds shows s t marked s' o
  cases event with
  | call request wasSent => exact same (fun _ listed => listed) rfl rfl
  | deliver =>
      cases next : s.inbox with
      | nil =>
          simp only [Rpc.step, next]
          exact same (fun _ listed => listed) rfl rfl
      | cons entry rest =>
          obtain ⟨stays, comes⟩ := marks.start entry.2 s.server
          simp only [Rpc.step, next]
          refine ⟨?_, ?_⟩
          · intro id handler listed shown
            rcases List.mem_append.mp listed with old | new
            · exact stays (marked.1 id handler old shown)
            · rw [(Prod.mk.inj (List.mem_singleton.mp new)).2] at shown
              exact comes shown
          · intro id result listed shown
            rw [finished_quiet t rfl] at listed
            exact stays (marked.2 id result listed shown)
  | resume id input =>
      cases found : s.running.find? (·.1 = id) with
      | none =>
          simp only [Rpc.step, found]
          exact same (fun _ listed => listed) rfl rfl
      | some entry =>
          have member : entry ∈ s.running := List.mem_of_find?_eq_some found
          obtain ⟨stays, comes⟩ := marks.resume entry.2 input s.server (marked.1 entry.1 entry.2 member)
          cases resumed : server.resume entry.2 input s.server with
          | mk outcome server' =>
              rw [resumed] at stays comes
              cases outcome with
              | inl later =>
                  simp only [Rpc.step, found, resumed]
                  refine ⟨?_, ?_⟩
                  · intro j handler listed shown
                    rcases List.mem_append.mp listed with old | new
                    · exact stays (marked.1 j handler (List.mem_of_mem_filter old) shown)
                    · rw [(Prod.mk.inj (List.mem_singleton.mp new)).2] at shown
                      exact comes shown
                  · intro j result listed shown
                    rw [finished_quiet t rfl] at listed
                    exact stays (marked.2 j result listed shown)
              | inr result =>
                  simp only [Rpc.step, found, resumed]
                  refine ⟨?_, ?_⟩
                  · intro j handler listed shown
                    exact stays (marked.1 j handler (List.mem_of_mem_filter listed) shown)
                  · intro j other listed shown
                    rw [finished_concat, Obs.finished?, Option.toList_some] at listed
                    rcases List.mem_append.mp listed with old | new
                    · exact stays (marked.2 j other old shown)
                    · rw [(Prod.mk.inj (List.mem_singleton.mp new)).2] at shown
                      exact comes shown
  | reply =>
      cases next : s.outbox with
      | nil =>
          simp only [Rpc.step, next]
          exact same (fun _ listed => listed) rfl rfl
      | cons entry rest =>
          by_cases waiting : entry.1 ∈ s.pending
          · simp only [Rpc.step, next, waiting, if_true]
            exact same (fun _ listed => listed) rfl rfl
          · simp only [Rpc.step, next, waiting, if_false]
            exact same (fun _ listed => listed) rfl rfl
  | fail => exact same (fun _ listed => listed) rfl rfl
  | stop => exact same (fun _ listed => absurd listed List.not_mem_nil) rfl rfl

end Marks

end Rpc
