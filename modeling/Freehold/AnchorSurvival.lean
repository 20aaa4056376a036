import Freehold.EpochTokens
import Freehold.Lib.DoubleBuffer

set_option autoImplicit false

namespace Freehold

open CrashLogic DoubleBuffer

/-- The arguments of `anchor_record_full`. -/
structure AnchorRecord where
  uuid : Uuid
  committed : Option Nat
  inFlight : Option Nat
  epochFloor : Option Nat
  deriving DecidableEq

namespace AnchorRecord

def upsert (r : AnchorRecord) (table : AnchorTable) : Option AnchorTable :=
  anchorUpsert r.uuid r.committed r.inFlight r.epochFloor table

/-- Only a floor is saved in both slots. -/
def both (r : AnchorRecord) : Bool := r.epochFloor.isSome

def run (r : AnchorRecord) : PoolM Unit :=
  Pool.anchorRecordFull r.uuid r.committed r.inFlight r.epochFloor

end AnchorRecord

/-- The slots of the anchor that authenticate, as a double buffer. -/
def AnchorFile.buffer (dek : Dek) (file : AnchorFile) : Buffer AnchorTable := fun slot =>
  (anchorSlot dek file slot.toNat).map fun payload => ⟨payload.seq, payload.table⟩

section Buffer

variable {dek : Dek} {file : AnchorFile} {table : AnchorTable}

theorem load_buffer (dek : Dek) (file : AnchorFile) : (file.buffer dek).load =
    (anchorPick dek file).map fun payload => ⟨payload.seq, payload.table⟩ := by
  have even : file.buffer dek false = (anchorSlot dek file 0).map fun p => ⟨p.seq, p.table⟩ := rfl
  have odd : file.buffer dek true = (anchorSlot dek file 1).map fun p => ⟨p.seq, p.table⟩ := rfl
  rw [Buffer.load, even, odd, anchorPick]
  cases anchorSlot dek file 0 with
  | none => rfl
  | some payload =>
      cases anchorSlot dek file 1 with
      | none => rfl
      | some later =>
          dsimp only [Option.map_some]
          split <;> rfl

theorem seq_buffer (dek : Dek) (file : AnchorFile) :
    (file.buffer dek).seq = (anchorLoad dek file).1 := by
  rw [Buffer.seq, load_buffer, anchorLoad]
  cases anchorPick dek file <;> rfl

theorem value_buffer (dek : Dek) (file : AnchorFile) :
    (file.buffer dek).value .empty = (anchorLoad dek file).2 := by
  rw [Buffer.value, load_buffer, anchorLoad]
  cases anchorPick dek file <;> rfl

theorem buffer_save : (anchorSave dek ((anchorLoad dek file).1 + 1) table file).buffer dek =
    (file.buffer dek).save table := by
  funext slot
  have parity (n : Nat) : n % 2 = n.bodd.toNat := (Nat.mod_two_of_bodd n)
  have small : slot.toNat < 2 := Bool.toNat_lt slot
  rw [Buffer.save, Buffer.next, seq_buffer]
  show Option.map _ (anchorSlot dek _ slot.toNat) = _
  rw [anchorSlot_save small, parity]
  by_cases same : slot = ((anchorLoad dek file).1 + 1).bodd
  · rw [if_pos (congrArg Bool.toNat same), same, Buffer.put_self]
    rfl
  · have injective : ∀ a b : Bool, a.toNat = b.toNat → a = b := by decide
    rw [if_neg fun equal => same (injective _ _ equal), Buffer.put_of_ne same]
    rfl

/-- Bytes that do not authenticate at their slot. -/
theorem buffer_set {slot : Bool} {bytes : SealedBytes AnchorPayload}
    (spoiled : bytes.openWith (.anchorKey dek) (.anchor slot.toNat) = none) :
    (file.set slot.toNat bytes).buffer dek = (file.buffer dek).lose slot := by
  funext other
  show Option.map _ (anchorSlot dek _ other.toNat) = _
  by_cases same : other = slot
  · rw [same, anchorSlot, AnchorFile.get_set, spoiled]
    exact Buffer.put_self.symm
  · have kept : (file.set slot.toNat bytes).get other.toNat = file.get other.toNat := by
      cases slot <;> cases other <;> first | rfl | exact absurd rfl same
    rw [anchorSlot, kept, Buffer.lose, Buffer.put_of_ne same]
    rfl

theorem buffer_blank (dek : Dek) : AnchorFile.blank.buffer dek = .blank := by
  funext slot
  cases slot <;> rfl

end Buffer

/-- What befalls the anchor of a pool, with the slot that was spoiled since the last save: a record
that returns, one during which the power fails between two writes or in the middle of one (a record
that is refused writes nothing), or a slot whose bytes go bad. After a power failure the pool is
opened again. No slot goes bad while the other one is spoiled. -/
inductive AnchorStep : Pool × Option Bool → Event AnchorRecord → Pool × Option Bool → Prop
  | saved {pool : Pool} {spoiled : Option Bool} {r : AnchorRecord}
      (returned : (r.run pool).result = .ok ()) :
      AnchorStep (pool, spoiled) (.saved r) ((r.run pool).state, none)
  | cut {pool left : Pool} {spoiled : Option Bool} {r : AnchorRecord} {n : Nat}
      (crash : (r.run pool).crashes[n]? = some left) :
      AnchorStep (pool, spoiled) (.killed r) (left.reopen pool.dek, if n = 0 then spoiled else none)
  | torn {pool left : Pool} {spoiled : Option Bool} {r : AnchorRecord} {slot : Bool}
      {bytes : SealedBytes AnchorPayload} (before : left ∈ (r.run pool).passed)
      (written : slot = ((anchorLoad pool.dek left.anchor).1 + 1).bodd)
      (bad : bytes.openWith (.anchorKey pool.dek) (.anchor slot.toNat) = none) :
      AnchorStep (pool, spoiled) (.killed r)
        ({ left.reopen pool.dek with anchor := left.anchor.set slot.toNat bytes }, some slot)
  | lost {pool : Pool} {spoiled : Option Bool} {slot : Bool} {bytes : SealedBytes AnchorPayload}
      (bad : bytes.openWith (.anchorKey pool.dek) (.anchor slot.toNat) = none)
      (single : ∀ other, spoiled = some other → other = slot) :
      AnchorStep (pool, spoiled) (.lost slot)
        ({ pool with anchor := pool.anchor.set slot.toNat bytes }, some slot)

inductive AnchorRun : Pool × Option Bool → List (Event AnchorRecord) → Pool × Option Bool → Prop
  | nil {s : Pool × Option Bool} : AnchorRun s [] s
  | cons {s t u : Pool × Option Bool} {event : Event AnchorRecord} {events : List (Event AnchorRecord)}
      (taken : AnchorStep s event t) (rest : AnchorRun t events u) : AnchorRun s (event :: events) u

/-- The buffer of a pool's anchor. -/
def anchorState (s : Pool × Option Bool) : State AnchorTable := ⟨s.1.anchor.buffer s.1.dek, s.2⟩

section Simulation

variable {pool : Pool} {r : AnchorRecord} {table : AnchorTable}

theorem buffer_savedOnce : (pool.savedOnce table).anchor.buffer pool.dek =
    (pool.anchor.buffer pool.dek).save table := buffer_save

theorem buffer_savedTwice : (pool.savedTwice table).anchor.buffer pool.dek =
    ((pool.anchor.buffer pool.dek).save table).save table := by
  have loaded := congrArg Prod.fst (pool.anchorLoad_savedOnce table)
  rw [← buffer_savedOnce, ← buffer_save, loaded]
  rfl

/-- The runs of a record. -/
theorem run_cases (r : AnchorRecord) (pool : Pool) :
    (∃ table, r.upsert ((pool.anchor.buffer pool.dek).value .empty) = some table ∧
      r.run pool = if r.both then ⟨[pool, pool.savedOnce table], pool.savedTwice table, .ok ()⟩
        else ⟨[pool], pool.savedOnce table, .ok ()⟩) ∨
    ∃ e, r.run pool = ⟨[], pool, .error e⟩ := by
  rw [value_buffer]
  cases room : r.upsert (anchorLoad pool.dek pool.anchor).2 with
  | none => exact .inr ⟨_, Pool.anchorRecordFull_none room⟩
  | some table => exact .inl ⟨table, rfl, Pool.anchorRecordFull_some room⟩

/-- The step of the buffer that an event of the anchor is. -/
theorem AnchorStep.simulates {s t : Pool × Option Bool} {event : Event AnchorRecord}
    (taken : AnchorStep s event t) : t.1.dek = s.1.dek ∧
      Step AnchorRecord.upsert AnchorRecord.both .empty (anchorState s) event (anchorState t) := by
  cases taken with
  | @saved pool spoiled r returned =>
      rcases run_cases r pool with ⟨table, accepted, ran⟩ | ⟨e, refused⟩
      · have taken : Step AnchorRecord.upsert AnchorRecord.both .empty (anchorState (pool, spoiled))
          (.saved r) _ := .saved accepted
        rw [ran]
        cases two : r.both with
        | true =>
            rw [two, if_pos rfl, ← buffer_savedTwice] at taken
            exact ⟨rfl, taken⟩
        | false =>
            rw [two, if_neg Bool.false_ne_true, ← buffer_savedOnce] at taken
            exact ⟨rfl, taken⟩
      · rw [refused] at returned
        cases returned
  | @cut pool left spoiled r n crash =>
      refine ⟨rfl, ?_⟩
      rcases run_cases r pool with ⟨table, accepted, ran⟩ | ⟨e, refused⟩
      · have once : Step AnchorRecord.upsert AnchorRecord.both .empty (anchorState (pool, spoiled))
          (.killed r) _ := .killedOnce accepted
        rw [← buffer_savedOnce] at once
        rw [ran] at crash
        cases two : r.both with
        | true =>
            have twice : Step AnchorRecord.upsert AnchorRecord.both .empty (anchorState (pool, spoiled))
              (.killed r) _ := .killedAfter accepted two
            rw [← buffer_savedTwice] at twice
            rw [two, if_pos rfl] at crash
            match n, crash with
            | 0, crash =>
                cases crash
                exact .killedBefore
            | 1, crash =>
                cases crash
                exact once
            | 2, crash =>
                cases crash
                exact twice
        | false =>
            rw [two, if_neg Bool.false_ne_true] at crash
            match n, crash with
            | 0, crash =>
                cases crash
                exact .killedBefore
            | 1, crash =>
                cases crash
                exact once
      · rw [refused] at crash
        match n, crash with
        | 0, crash =>
            cases crash
            exact .killedBefore
  | @torn pool left spoiled r slot bytes before written bad =>
      refine ⟨rfl, ?_⟩
      have landed : anchorState ({ left.reopen pool.dek with anchor := left.anchor.set slot.toNat bytes },
          some slot) = ⟨(left.anchor.buffer pool.dek).lose slot, some slot⟩ := by
        rw [anchorState, ← buffer_set bad]
        rfl
      rw [landed]
      rcases run_cases r pool with ⟨table, accepted, ran⟩ | ⟨e, refused⟩
      · have first : left = pool → Step AnchorRecord.upsert AnchorRecord.both .empty
            (anchorState (pool, spoiled)) (.killed r)
            ⟨(left.anchor.buffer pool.dek).lose slot, some slot⟩ := by
          rintro rfl
          rw [written, ← seq_buffer]
          exact .killedFirst
        rw [ran] at before
        cases two : r.both with
        | true =>
            rw [two, if_pos rfl] at before
            rcases List.mem_cons.mp before with same | second
            · exact first same
            · obtain rfl := List.mem_singleton.mp second
              have taken : Step AnchorRecord.upsert AnchorRecord.both .empty (anchorState (pool, spoiled))
                (.killed r) _ := .killedSecond accepted two
              rw [← buffer_savedOnce] at taken
              rw [written, ← seq_buffer]
              exact taken
        | false =>
            rw [two, if_neg Bool.false_ne_true] at before
            exact first (List.mem_singleton.mp before)
      · rw [refused] at before
        cases before
  | @lost pool spoiled slot bytes bad single =>
      refine ⟨rfl, ?_⟩
      have taken : Step AnchorRecord.upsert AnchorRecord.both .empty (anchorState (pool, spoiled))
        (.lost slot) _ := .lost single
      rw [anchorState, anchorState]
      dsimp only
      rw [buffer_set bad]
      exact taken

theorem AnchorRun.simulates {s t : Pool × Option Bool} {events : List (Event AnchorRecord)}
    (run : AnchorRun s events t) : t.1.dek = s.1.dek ∧
      Run AnchorRecord.upsert AnchorRecord.both .empty (anchorState s) events (anchorState t) := by
  induction run with
  | nil => exact ⟨rfl, .nil⟩
  | cons taken rest ih =>
      obtain ⟨same, step⟩ := taken.simulates
      exact ⟨ih.1.trans same, .cons step ih.2⟩

end Simulation

/-- The maximum of what the records give a field of a database. -/
def recorded (field : AnchorRecord → Option Nat) (records : List AnchorRecord) (uuid : Uuid) : Nat :=
  ((records.filter fun r => r.uuid = uuid).filterMap field).foldl max 0

/-- The window the records of a database amount to, if there is one. -/
def windowOf (records : List AnchorRecord) (uuid : Uuid) : Option AnchorEntry :=
  if ∃ r ∈ records, r.uuid = uuid then
    some {
      uuid := uuid
      committed := recorded AnchorRecord.committed records uuid
      inFlight := recorded AnchorRecord.inFlight records uuid
      epochFloor := recorded AnchorRecord.epochFloor records uuid
    }
  else none

/-- A window that has taken in what a record gives. -/
def Covers (window : Option AnchorEntry) (r : AnchorRecord) : Prop :=
  ∃ e, window = some e ∧ (∀ c, r.committed = some c → c ≤ e.committed) ∧
    (∀ f, r.inFlight = some f → f ≤ e.inFlight) ∧ ∀ f, r.epochFloor = some f → f ≤ e.epochFloor

/-- No field of a window is lower than it was. -/
def Risen (before after : Option AnchorEntry) : Prop :=
  ∀ e, before = some e → ∃ e', after = some e' ∧
    e.committed ≤ e'.committed ∧ e.inFlight ≤ e'.inFlight ∧ e.epochFloor ≤ e'.epochFloor

section Windows

variable {records : List AnchorRecord} {r : AnchorRecord} {uuid : Uuid}

theorem foldl_max (values : List Nat) (start : Nat) :
    values.foldl max start = max start (values.foldl max 0) := by
  induction values generalizing start with
  | nil => rw [List.foldl_nil, List.foldl_nil, Nat.max_zero]
  | cons value values ih =>
      rw [List.foldl_cons, List.foldl_cons, ih, ih (max 0 value)]
      omega

theorem recorded_concat (field : AnchorRecord → Option Nat) :
    recorded field (records ++ [r]) uuid =
      if r.uuid = uuid then max (recorded field records uuid) ((field r).getD 0)
      else recorded field records uuid := by
  rw [recorded, List.filter_append, List.filterMap_append, List.foldl_append, ← recorded]
  by_cases same : r.uuid = uuid
  · rw [if_pos same, List.filter_cons_of_pos (by simpa using same), List.filter_nil]
    cases given : field r with
    | none => simp [given]
    | some value => simp [given]
  · rw [if_neg same, List.filter_cons_of_neg (by simpa using same), List.filter_nil]
    rfl

theorem le_recorded {field : AnchorRecord → Option Nat} {value : Nat} (member : r ∈ records)
    (given : field r = some value) : value ≤ recorded field records r.uuid := by
  have bound (values : List Nat) : ∀ v ∈ values, v ≤ values.foldl max 0 := by
    intro v inside
    obtain ⟨before, after, rfl⟩ := List.append_of_mem inside
    rw [List.foldl_append, List.foldl_cons, foldl_max after]
    omega
  apply bound
  rw [List.mem_filterMap]
  exact ⟨r, List.mem_filter.mpr ⟨member, by simp⟩, given⟩

theorem covers_windowOf (member : r ∈ records) : Covers (windowOf records r.uuid) r := by
  rw [windowOf, if_pos ⟨r, member, rfl⟩]
  exact ⟨_, rfl, fun _ given => le_recorded member given, fun _ given => le_recorded member given,
    fun _ given => le_recorded member given⟩

theorem getD_windowOf (records : List AnchorRecord) (uuid : Uuid) :
    (windowOf records uuid).getD ⟨uuid, 0, 0, 0⟩ = ⟨uuid, recorded AnchorRecord.committed records uuid,
      recorded AnchorRecord.inFlight records uuid, recorded AnchorRecord.epochFloor records uuid⟩ := by
  by_cases named : ∃ r ∈ records, r.uuid = uuid
  · rw [windowOf, if_pos named, Option.getD_some]
  · have none_left : records.filter (fun r => r.uuid = uuid) = [] := by
      rw [List.filter_eq_nil_iff]
      intro r member same
      exact named ⟨r, member, of_decide_eq_true same⟩
    have zero (field : AnchorRecord → Option Nat) : recorded field records uuid = 0 := by
      rw [recorded, none_left]
      rfl
    rw [windowOf, if_neg named, Option.getD_none, zero, zero, zero]

/-- A raised field is the greater of its value and the one given, a missing one counting as zero. -/
theorem raise_eq_max (e : AnchorEntry) (committed inFlight epochFloor : Option Nat) :
    e.raise committed inFlight epochFloor = ⟨e.uuid, max e.committed (committed.getD 0),
      max e.inFlight (inFlight.getD 0), max e.epochFloor (epochFloor.getD 0)⟩ := by
  cases committed <;> cases inFlight <;> cases epochFloor <;> simp [AnchorEntry.raise]

theorem windowOf_concat : windowOf (records ++ [r]) uuid =
    if uuid = r.uuid then
      some (((windowOf records uuid).getD ⟨uuid, 0, 0, 0⟩).raise r.committed r.inFlight r.epochFloor)
    else windowOf records uuid := by
  by_cases same : r.uuid = uuid
  · rw [if_pos same.symm, getD_windowOf, windowOf,
      if_pos ⟨r, List.mem_append_right _ (List.mem_singleton_self r), same⟩]
    rw [recorded_concat, recorded_concat, recorded_concat, if_pos same, if_pos same, if_pos same,
      raise_eq_max]
  · rw [if_neg (Ne.symm same), windowOf, windowOf, recorded_concat, recorded_concat, recorded_concat,
      if_neg same, if_neg same, if_neg same]
    have named : (∃ q ∈ records ++ [r], q.uuid = uuid) ↔ ∃ q ∈ records, q.uuid = uuid := by
      simp [or_and_right, exists_or, same]
    simp only [named]

/-- The windows of the table some updates lead to. -/
theorem find_replay {kept : List (Kept AnchorRecord)} {table : AnchorTable}
    (replayed : replay AnchorRecord.upsert .empty kept = some table) (uuid : Uuid) :
    table.find uuid = windowOf (kept.map Kept.update) uuid := by
  induction kept using List.reverseRecOn generalizing table with
  | nil =>
      cases replayed
      rfl
  | append_singleton kept k ih =>
      rw [replay, List.foldlM_append, ← replay] at replayed
      obtain ⟨before, earlier, last⟩ := Option.bind_eq_some_iff.mp replayed
      have accepted : k.update.upsert before = some table := by simpa using last
      rw [find_anchorUpsert accepted, List.map_append, List.map_singleton, windowOf_concat, ← ih earlier]
      by_cases same : uuid = k.update.uuid
      · rw [if_pos same, if_pos same, same]
      · rw [if_neg same, if_neg same]

theorem risen_refl (window : Option AnchorEntry) : Risen window window :=
  fun e found => ⟨e, found, Nat.le_refl _, Nat.le_refl _, Nat.le_refl _⟩

theorem risen_upsert {table next : AnchorTable} (accepted : r.upsert table = some next) (uuid : Uuid) :
    Risen (table.find uuid) (next.find uuid) := by
  intro e found
  rw [find_anchorUpsert accepted]
  by_cases same : uuid = r.uuid
  · rw [if_pos same, ← same, found, Option.getD_some]
    refine ⟨_, rfl, ?_, ?_, ?_⟩
    · cases r.committed with
      | none => exact Nat.le_refl _
      | some c => exact Nat.le_max_left _ _
    · cases r.inFlight with
      | none => exact Nat.le_refl _
      | some f => exact Nat.le_max_left _ _
    · cases r.epochFloor with
      | none => exact Nat.le_refl _
      | some f => exact Nat.le_max_left _ _
  · rw [if_neg same]
    exact ⟨e, found, Nat.le_refl _, Nat.le_refl _, Nat.le_refl _⟩

end Windows

section Runs

variable {start pool : Pool} {spoiled : Option Bool} {events : List (Event AnchorRecord)}

/-- What the anchor holds after a run from a blank file. -/
theorem AnchorRun.holds (blank : start.anchor = .blank)
    (run : AnchorRun (start, none) events (pool, spoiled)) : ∃ kept fresh,
      Keeps AnchorRecord.both [] true events kept fresh ∧
        Holds AnchorRecord.upsert .empty (anchorState (pool, spoiled)) kept fresh := by
  have steps := run.simulates.2
  have begins : anchorState (start, none) = ⟨.blank, none⟩ := by
    rw [anchorState, blank, buffer_blank]
  rw [begins] at steps
  exact steps.holds holds_blank

theorem window_eq (pool : Pool) (spoiled : Option Bool) (uuid : Uuid) :
    pool.window uuid = ((anchorState (pool, spoiled)).buffer.value .empty).find uuid := by
  rw [anchorState, value_buffer]
  rfl

theorem AnchorRun.windows (blank : start.anchor = .blank)
    (run : AnchorRun (start, none) events (pool, spoiled)) : ∃ kept fresh,
      Keeps AnchorRecord.both [] true events kept fresh ∧
        ∀ uuid, pool.window uuid = windowOf (kept.map Kept.update) uuid := by
  obtain ⟨kept, fresh, keeps, held⟩ := run.holds blank
  refine ⟨kept, fresh, keeps, fun uuid => ?_⟩
  rw [window_eq pool spoiled, find_replay held.value]

/-- An update that is safe is in the window of its database. -/
theorem covers_of_safe {kept : List (Kept AnchorRecord)} {fresh : Bool} {r : AnchorRecord}
    (safe : Safe r kept fresh) : Covers (windowOf (kept.map Kept.update) r.uuid) r := by
  obtain ⟨k, member, same, _⟩ := safe
  exact covers_windowOf (same ▸ List.mem_map_of_mem member)

/-- Only the loss of a slot lowers a window. -/
theorem AnchorRun.risen {next : Pool} {spoiled' : Option Bool} {event : Event AnchorRecord}
    (blank : start.anchor = .blank) (run : AnchorRun (start, none) events (pool, spoiled))
    (taken : AnchorStep (pool, spoiled) event (next, spoiled')) (no_loss : ∀ slot, event ≠ .lost slot)
    (uuid : Uuid) : Risen (pool.window uuid) (next.window uuid) := by
  obtain ⟨kept, fresh, _, held⟩ := run.holds blank
  rw [window_eq pool spoiled, window_eq next spoiled']
  rcases taken.simulates.2.value_cases held.wf no_loss with same | ⟨r, table, accepted, same⟩
  · rw [same]
    exact risen_refl _
  · rw [same]
    exact risen_upsert accepted uuid

end Runs

/-- The anchor after every run of records, power failures and losses of one slot at a time: its windows
are the maxima of the records that are left. Without losses that is all of them; one loss takes at most
the last record, and only one without a floor; a record that raises a floor is never lost, nor one that
another record followed before a loss. Nothing but a loss lowers a window. -/
theorem anchor_survives {start pool : Pool} {spoiled : Option Bool} {events : List (Event AnchorRecord)}
    (blank : start.anchor = .blank) (run : AnchorRun (start, none) events (pool, spoiled)) :
    (∃ kept fresh, Keeps AnchorRecord.both [] true events kept fresh ∧
      ∀ uuid, pool.window uuid = windowOf (kept.map Kept.update) uuid) ∧
    (∀ records, events = records.map .saved → ∀ uuid, pool.window uuid = windowOf records uuid) ∧
    (∀ records slot, events = records.map .saved ++ [.lost slot] →
      (∀ uuid, pool.window uuid = windowOf records uuid) ∨
        ∃ before r, records = before ++ [r] ∧ r.epochFloor = none ∧
          ∀ uuid, pool.window uuid = windowOf before uuid) ∧
    (∀ records r, events = records.map .saved ++ [.killed r] →
      (∀ uuid, pool.window uuid = windowOf records uuid) ∨
        ∀ uuid, pool.window uuid = windowOf (records ++ [r]) uuid) ∧
    (∀ r, .saved r ∈ events → r.epochFloor ≠ none → Covers (pool.window r.uuid) r) ∧
    (∀ r r' before between after,
      events = before ++ .saved r :: (between ++ .saved r' :: after) → (∀ slot, .lost slot ∉ between) →
        Covers (pool.window r.uuid) r) ∧
    ∀ event next spoiled', AnchorStep (pool, spoiled) event (next, spoiled') →
      (∀ slot, event ≠ .lost slot) → ∀ uuid, Risen (pool.window uuid) (next.window uuid) := by
  obtain ⟨kept, fresh, keeps, windows⟩ := run.windows blank
  refine ⟨⟨kept, fresh, keeps, windows⟩, ?_, ?_, ?_, ?_, ?_, ?_⟩
  · rintro records rfl uuid
    rw [windows, keeps.of_saved, List.nil_append, map_update]
  · rintro records slot rfl
    rcases keeps.of_saved_lost with all | ⟨before, r, split, single, rest⟩
    · exact .inl fun uuid => by rw [windows, all]
    · have unfloored : r.epochFloor = none := by simpa [AnchorRecord.both] using single
      exact .inr ⟨before, r, split, unfloored, fun uuid => by rw [windows, rest]⟩
  · rintro records r rfl
    rcases keeps.of_saved_killed with all | more
    · exact .inl fun uuid => by rw [windows, all]
    · exact .inr fun uuid => by rw [windows, more]
  · intro r saved floored
    rw [windows]
    exact covers_of_safe (keeps.safe_of_both saved (Option.isSome_iff_ne_none.mpr floored))
  · rintro r r' before between after rfl none_lost
    rw [windows]
    exact covers_of_safe (keeps.safe_of_later none_lost)
  · intro event next spoiled' taken no_loss uuid
    exact run.risen blank taken no_loss uuid

/-- A commit, an attested floor, and the loss of the slot that was written last. -/
theorem anchor_survives_sample :
    let commit : AnchorRecord := ⟨7, some 3, some 3, none⟩
    let epoch : AnchorRecord := ⟨7, some 5, some 5, some 5⟩
    ∃ pool spoiled, AnchorRun (Pool.unused 0, none) [.saved commit, .saved epoch, .lost true] (pool, spoiled) ∧
      Covers (pool.window 7) epoch := by
  intro commit epoch
  have first : (commit.run (Pool.unused 0)).result = .ok () := rfl
  have second : (epoch.run (commit.run (Pool.unused 0)).state).result = .ok () := rfl
  have bad : (Aead.Sealed.junk 0 : SealedBytes AnchorPayload).openWith
      (.anchorKey (epoch.run (commit.run (Pool.unused 0)).state).state.dek) (.anchor true.toNat) = none := rfl
  have run : AnchorRun (Pool.unused 0, none) [.saved commit, .saved epoch, .lost true] _ :=
    .cons (.saved first) (.cons (.saved second) (.cons (.lost bad fun _ none => (nomatch none)) .nil))
  refine ⟨_, _, run, ?_⟩
  have survives := anchor_survives rfl run
  exact survives.2.2.2.2.1 epoch (by simp) (Option.some_ne_none _)

end Freehold
