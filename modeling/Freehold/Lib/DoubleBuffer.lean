import Mathlib.Data.Nat.Bits
import Mathlib.Logic.Function.Basic

set_option autoImplicit false

/- A value kept in two slots that are written in turn, each write under the next sequence
number, and what is left of the updates when slots are lost one at a time. -/
namespace DoubleBuffer

variable {α υ : Type}

structure Entry (α : Type) where
  seq : Nat
  value : α

/-- The slots of even and of odd sequence numbers; a lost slot holds nothing. -/
abbrev Buffer (α : Type) : Type := Bool → Option (Entry α)

namespace Buffer

def blank : Buffer α := fun _ => none

/-- The entry with the highest sequence number, the first one on a tie. -/
def load (b : Buffer α) : Option (Entry α) :=
  match b false, b true with
  | none, later => later
  | some entry, none => some entry
  | some entry, some later => if later.seq > entry.seq then some later else some entry

def seq (b : Buffer α) : Nat := (b.load.map fun entry => entry.seq).getD 0

def value (start : α) (b : Buffer α) : α := (b.load.map fun entry => entry.value).getD start

def put (slot : Bool) (entry : Option (Entry α)) (b : Buffer α) : Buffer α :=
  Function.update b slot entry

/-- The slot that is written next. -/
def next (b : Buffer α) : Bool := (b.seq + 1).bodd

def save (value : α) (b : Buffer α) : Buffer α := b.put b.next (some ⟨b.seq + 1, value⟩)

def lose (slot : Bool) (b : Buffer α) : Buffer α := b.put slot none

/-- Each slot holds a sequence number of its own parity. -/
def Wf (b : Buffer α) : Prop := ∀ slot entry, b slot = some entry → entry.seq.bodd = slot

variable {b : Buffer α} {v start : α} {slot : Bool} {entry : Option (Entry α)}

@[simp] theorem put_self : b.put slot entry slot = entry := Function.update_self ..

@[simp] theorem put_not : b.put slot entry (!slot) = b (!slot) :=
  Function.update_of_ne (by cases slot <;> decide) ..

theorem put_of_ne {other : Bool} (distinct : other ≠ slot) : b.put slot entry other = b other :=
  Function.update_of_ne distinct ..

theorem put_put (again : Option (Entry α)) : (b.put slot entry).put slot again = b.put slot again :=
  Function.update_idem ..

theorem put_same (held : b slot = entry) : b.put slot entry = b := by
  rw [put, ← held, Function.update_eq_self]

theorem wf_blank : (blank : Buffer α).Wf := fun _ _ found => (nomatch found)

theorem Wf.put (wf : b.Wf) (parity : ∀ e, entry = some e → e.seq.bodd = slot) :
    (b.put slot entry).Wf := by
  intro other e found
  by_cases same : other = slot
  · rw [same, put_self] at found
    rw [parity e found, same]
  · rw [put_of_ne same] at found
    exact wf other e found

theorem Wf.save (wf : b.Wf) : (b.save v).Wf := wf.put fun _ found => by cases found; rfl

theorem Wf.lose (wf : b.Wf) : (b.lose slot).Wf := wf.put fun _ found => (nomatch found)

/-- What is loaded stands in one slot, and nothing newer in the other. -/
theorem load_cases (b : Buffer α) :
    ∃ slot, b.load = b slot ∧ ∀ e, b (!slot) = some e → e.seq ≤ b.seq := by
  cases even : b false with
  | none =>
      refine ⟨true, ?_, fun e found => ?_⟩
      · rw [load, even]
      · rw [Bool.not_true, even] at found
        cases found
  | some entry =>
      cases odd : b true with
      | none =>
          refine ⟨false, ?_, fun e found => ?_⟩
          · rw [load, even, odd]
          · rw [Bool.not_false, odd] at found
            cases found
      | some later =>
          by_cases newer : later.seq > entry.seq
          · have loaded : b.load = some later := by
              rw [load, even, odd]
              exact if_pos newer
            refine ⟨true, by rw [loaded, odd], fun e found => ?_⟩
            rw [Bool.not_true, even] at found
            cases found
            rw [seq, loaded]
            exact Nat.le_of_lt newer
          · have loaded : b.load = some entry := by
              rw [load, even, odd]
              exact if_neg newer
            refine ⟨false, by rw [loaded, even], fun e found => ?_⟩
            rw [Bool.not_false, odd] at found
            cases found
            rw [seq, loaded]
            exact Nat.le_of_not_lt newer

/-- Nothing is loaded only where both slots are lost. -/
theorem load_eq_none (lost : b.load = none) (slot : Bool) : b slot = none := by
  rw [load] at lost
  cases even : b false with
  | none =>
      rw [even] at lost
      cases slot with
      | false => exact even
      | true => exact lost
  | some entry =>
      rw [even] at lost
      cases odd : b true with
      | none =>
          rw [odd] at lost
          cases lost
      | some later =>
          rw [odd] at lost
          dsimp only at lost
          split at lost <;> cases lost

theorem seq_le {e : Entry α} (found : b slot = some e) : e.seq ≤ b.seq := by
  obtain ⟨newest, loaded, older⟩ := b.load_cases
  by_cases same : slot = newest
  · rw [seq, loaded, ← same, found]
    exact Nat.le_refl _
  · rw [Bool.eq_not_of_ne same] at found
    exact older e found

/-- The new entry is the one that is loaded next. -/
theorem load_save : (b.save v).load = some ⟨b.seq + 1, v⟩ := by
  obtain ⟨newest, loaded, older⟩ := (b.save v).load_cases
  by_cases same : newest = b.next
  · rw [loaded, same]
    exact put_self
  · have other : newest = !b.next := Bool.eq_not_of_ne same
    rw [other, Bool.not_not] at older
    have above := older _ put_self
    have kept : (b.save v).load = b (!b.next) := by
      rw [loaded, other]
      exact put_not
    have below : (b.save v).seq ≤ b.seq := by
      rw [seq, kept]
      cases found : b (!b.next) with
      | none => exact Nat.zero_le _
      | some e => exact seq_le found
    exact absurd (Nat.le_trans above below) (Nat.not_succ_le_self _)

@[simp] theorem seq_save : (b.save v).seq = b.seq + 1 := by
  rw [seq, load_save]
  rfl

@[simp] theorem value_save : (b.save v).value start = v := by
  rw [value, load_save]
  rfl

/-- Without a slot, the other one is loaded. -/
theorem load_lose : (b.lose slot).load = b (!slot) := by
  cases slot with
  | false =>
      have gone : b.lose false false = none := put_self
      have kept : b.lose false true = b true := put_not
      rw [load, gone, kept]
      rfl
  | true =>
      have gone : b.lose true true = none := put_self
      have kept : b.lose true false = b false := put_not
      rw [load, gone, kept]
      cases found : b false <;> exact found.symm

/-- The entry that is loaded is not in the slot that is written next. -/
theorem load_not_next (wf : b.Wf) : b (!b.next) = b.load := by
  have parity : (!b.next) = b.seq.bodd := by rw [next, Nat.bodd_succ, Bool.not_not]
  obtain ⟨newest, loaded, older⟩ := b.load_cases
  cases found : b.load with
  | some e =>
      rw [found] at loaded
      have number : b.seq = e.seq := by
        rw [seq, found]
        rfl
      rw [parity, number, wf newest e loaded.symm, ← loaded]
  | none =>
      exact load_eq_none found _

/-- Losing the slot that is written next loses nothing, as does tearing that write. -/
theorem load_lose_next (wf : b.Wf) : (b.lose b.next).load = b.load := by
  rw [load_lose, load_not_next wf]

/-- Losing a slot after a save leaves the saved value, or the one before it. -/
theorem load_lose_save (wf : b.Wf) : ((b.save v).lose slot).load =
    if slot = b.next then b.load else (b.save v).load := by
  rw [load_lose]
  by_cases same : slot = b.next
  · rw [if_pos same, same, save, put_not, load_not_next wf]
  · rw [if_neg same, Bool.eq_not_of_ne same, Bool.not_not, save, put_self]
    exact load_save.symm

end Buffer

/-- What befalls a buffer: an update that is reported as saved, one that is cut off at any point,
or the loss of a slot. -/
inductive Event (υ : Type) where
  | saved (u : υ)
  | killed (u : υ)
  | lost (slot : Bool)

/-- A buffer, and the slot it has lost since the last save. -/
structure State (α : Type) where
  buffer : Buffer α
  spoiled : Option Bool

/-- An update with the slots that hold it: both, or the newest one only. -/
structure Kept (υ : Type) where
  update : υ
  twice : Bool

variable (apply : υ → α → Option α) (both : υ → Bool) (start : α)

/-- One event. An update is saved once, or in both slots; cut off, it has written nothing, torn a
slot, or saved it. No slot is lost while the other one is spoiled. -/
inductive Step : State α → Event υ → State α → Prop
  | saved {b : Buffer α} {spoiled : Option Bool} {u : υ} {v : α}
      (accepted : apply u (b.value start) = some v) :
      Step ⟨b, spoiled⟩ (.saved u) ⟨if both u then (b.save v).save v else b.save v, none⟩
  | killedBefore {s : State α} {u : υ} : Step s (.killed u) s
  | killedFirst {b : Buffer α} {spoiled : Option Bool} {u : υ} :
      Step ⟨b, spoiled⟩ (.killed u) ⟨b.lose b.next, some b.next⟩
  | killedOnce {b : Buffer α} {spoiled : Option Bool} {u : υ} {v : α}
      (accepted : apply u (b.value start) = some v) :
      Step ⟨b, spoiled⟩ (.killed u) ⟨b.save v, none⟩
  | killedSecond {b : Buffer α} {spoiled : Option Bool} {u : υ} {v : α}
      (accepted : apply u (b.value start) = some v) (two : both u = true) :
      Step ⟨b, spoiled⟩ (.killed u) ⟨(b.save v).lose (b.save v).next, some (b.save v).next⟩
  | killedAfter {b : Buffer α} {spoiled : Option Bool} {u : υ} {v : α}
      (accepted : apply u (b.value start) = some v) (two : both u = true) :
      Step ⟨b, spoiled⟩ (.killed u) ⟨(b.save v).save v, none⟩
  | lost {b : Buffer α} {spoiled : Option Bool} {slot : Bool}
      (single : ∀ other, spoiled = some other → other = slot) :
      Step ⟨b, spoiled⟩ (.lost slot) ⟨b.lose slot, some slot⟩

/-- One event after the other. -/
inductive Run : State α → List (Event υ) → State α → Prop
  | nil {s : State α} : Run s [] s
  | cons {s t r : State α} {event : Event υ} {events : List (Event υ)}
      (taken : Step apply both start s event t) (rest : Run t events r) : Run s (event :: events) r

/-- What an event leaves of the updates: a loss takes the last one if it is in one slot only. The flag
tells that there is a save since the last loss; without one a loss takes nothing. -/
inductive Leaves : List (Kept υ) → Bool → Event υ → List (Kept υ) → Bool → Prop
  | saved {kept : List (Kept υ)} {fresh : Bool} {u : υ} :
      Leaves kept fresh (.saved u) (kept ++ [⟨u, both u⟩]) true
  | killed {kept : List (Kept υ)} {fresh : Bool} {u : υ} : Leaves kept fresh (.killed u) kept fresh
  | killedSaved {kept : List (Kept υ)} {fresh : Bool} {u : υ} :
      Leaves kept fresh (.killed u) (kept ++ [⟨u, false⟩]) true
  | lostNone {kept : List (Kept υ)} {fresh slot : Bool} : Leaves kept fresh (.lost slot) kept false
  | lostLast {kept : List (Kept υ)} {u : υ} {slot : Bool} :
      Leaves (kept ++ [⟨u, false⟩]) true (.lost slot) kept false

inductive Keeps : List (Kept υ) → Bool → List (Event υ) → List (Kept υ) → Bool → Prop
  | nil {kept : List (Kept υ)} {fresh : Bool} : Keeps kept fresh [] kept fresh
  | cons {kept kept' kept'' : List (Kept υ)} {fresh fresh' fresh'' : Bool} {event : Event υ}
      {events : List (Event υ)} (left : Leaves both kept fresh event kept' fresh')
      (rest : Keeps kept' fresh' events kept'' fresh'') : Keeps kept fresh (event :: events) kept'' fresh''

/-- The value the updates lead to, if all of them are accepted. -/
def replay (kept : List (Kept υ)) : Option α := kept.foldlM (fun v k => apply k.update v) start

/-- What a state holds of the updates that are left. -/
structure Holds (s : State α) (kept : List (Kept υ)) (fresh : Bool) : Prop where
  wf : s.buffer.Wf
  value : replay apply start kept = some (s.buffer.value start)
  spoiled : ∀ slot, s.spoiled = some slot → s.buffer slot = none
  fresh : s.spoiled = none → fresh = true
  backed : s.spoiled = none → ∀ slot,
    (s.buffer.lose slot).value start = s.buffer.value start ∨
      ∃ before u, kept = before ++ [⟨u, false⟩] ∧
        replay apply start before = some ((s.buffer.lose slot).value start)

section Rules

variable {apply both start} {b : Buffer α} {s t : State α} {kept : List (Kept υ)} {fresh : Bool}
  {events : List (Event υ)} {u : υ} {v : α}

theorem value_congr {b b' : Buffer α} (same : b.load = b'.load) : b.value start = b'.value start := by
  rw [Buffer.value, Buffer.value, same]

theorem replay_concat (replayed : replay apply start kept = some (b.value start))
    (accepted : apply u (b.value start) = some v) (twice : Bool) :
    replay apply start (kept ++ [⟨u, twice⟩]) = some v := by
  rw [replay, List.foldlM_append, ← replay, replayed]
  simpa using accepted

theorem holds_blank : Holds apply start (⟨.blank, none⟩ : State α) ([] : List (Kept υ)) true := by
  refine ⟨Buffer.wf_blank, rfl, fun _ none => (nomatch none), fun _ => rfl, fun _ slot => .inl ?_⟩
  have same : Buffer.lose slot (.blank : Buffer α) = .blank := Buffer.put_same rfl
  rw [same]

theorem Holds.save_once {spoiled : Option Bool} (held : Holds apply start ⟨b, spoiled⟩ kept fresh)
    (accepted : apply u (b.value start) = some v) :
    Holds apply start ⟨b.save v, none⟩ (kept ++ [⟨u, false⟩]) true := by
  have replayed := replay_concat held.value accepted false
  refine ⟨held.wf.save, by rw [replayed, Buffer.value_save], fun _ none => (nomatch none), fun _ => rfl, ?_⟩
  intro _ slot
  have left := @Buffer.load_lose_save _ b v slot held.wf
  by_cases same : slot = b.next
  · rw [if_pos same] at left
    exact .inr ⟨kept, u, rfl, by rw [value_congr left]; exact held.value⟩
  · rw [if_neg same] at left
    exact .inl (value_congr left)

theorem Holds.save_twice {spoiled : Option Bool} (held : Holds apply start ⟨b, spoiled⟩ kept fresh)
    (accepted : apply u (b.value start) = some v) (twice : Bool) :
    Holds apply start ⟨(b.save v).save v, none⟩ (kept ++ [⟨u, twice⟩]) true := by
  have replayed := replay_concat held.value accepted twice
  refine ⟨held.wf.save.save, by rw [replayed, Buffer.value_save], fun _ none => (nomatch none),
    fun _ => rfl, ?_⟩
  intro _ slot
  have left := @Buffer.load_lose_save _ (b.save v) v slot held.wf.save
  left
  by_cases same : slot = (b.save v).next
  · rw [if_pos same] at left
    rw [value_congr left, Buffer.value_save, Buffer.value_save]
  · rw [if_neg same] at left
    exact value_congr left

/-- Tearing the next write, or losing the slot it goes to, takes nothing. -/
theorem Holds.lose_next {spoiled : Option Bool} (held : Holds apply start ⟨b, spoiled⟩ kept fresh) :
    Holds apply start ⟨b.lose b.next, some b.next⟩ kept fresh := by
  refine ⟨held.wf.lose, ?_, ?_, fun none => (nomatch none), fun none => (nomatch none)⟩
  · rw [value_congr (Buffer.load_lose_next held.wf)]
    exact held.value
  · rintro slot ⟨⟩
    exact Buffer.put_self

/-- Losing a slot takes the last update at most, and only if it is in that slot alone. -/
theorem Holds.lose {spoiled : Option Bool} {slot : Bool} (held : Holds apply start ⟨b, spoiled⟩ kept fresh)
    (single : ∀ other, spoiled = some other → other = slot) :
    Holds apply start ⟨b.lose slot, some slot⟩ kept false ∨
      ∃ before u, kept = before ++ [⟨u, false⟩] ∧ fresh = true ∧
        Holds apply start ⟨b.lose slot, some slot⟩ before false := by
  have gone : ∀ other, some slot = some other → b.lose slot other = none := by
    rintro other ⟨⟩
    exact Buffer.put_self
  cases spoiled with
  | some other =>
      have same : b.lose slot = b := by
        rw [single other rfl] at held
        exact Buffer.put_same (held.spoiled slot rfl)
      refine .inl ⟨held.wf.lose, ?_, gone, fun none => (nomatch none), fun none => (nomatch none)⟩
      rw [same]
      exact held.value
  | none =>
      rcases held.backed rfl slot with same | ⟨before, u, split, left⟩
      · refine .inl ⟨held.wf.lose, ?_, gone, fun none => (nomatch none), fun none => (nomatch none)⟩
        rw [same]
        exact held.value
      · exact .inr ⟨before, u, split, held.fresh rfl,
          held.wf.lose, left, gone, fun none => (nomatch none), fun none => (nomatch none)⟩

theorem Holds.step (held : Holds apply start s kept fresh) {event : Event υ}
    (taken : Step apply both start s event t) :
    ∃ kept' fresh', Leaves both kept fresh event kept' fresh' ∧ Holds apply start t kept' fresh' := by
  cases taken with
  | @saved b spoiled u v accepted =>
      refine ⟨_, _, .saved, ?_⟩
      cases two : both u with
      | true => exact held.save_twice accepted true
      | false => exact held.save_once accepted
  | killedBefore => exact ⟨_, _, .killed, held⟩
  | killedFirst => exact ⟨_, _, .killed, held.lose_next⟩
  | killedOnce accepted => exact ⟨_, _, .killedSaved, held.save_once accepted⟩
  | killedSecond accepted two => exact ⟨_, _, .killedSaved, (held.save_once accepted).lose_next⟩
  | killedAfter accepted two => exact ⟨_, _, .killedSaved, held.save_twice accepted false⟩
  | lost single =>
      rcases held.lose single with left | ⟨before, u, rfl, rfl, left⟩
      · exact ⟨_, _, .lostNone, left⟩
      · exact ⟨_, _, .lostLast, left⟩

/-- A step that loses no slot leaves the value, or the one an update makes of it. -/
theorem Step.value_cases {event : Event υ} (wf : s.buffer.Wf) (taken : Step apply both start s event t)
    (no_loss : ∀ slot, event ≠ .lost slot) : t.buffer.value start = s.buffer.value start ∨
      ∃ u v, apply u (s.buffer.value start) = some v ∧ t.buffer.value start = v := by
  cases taken with
  | @saved b spoiled u v accepted =>
      refine .inr ⟨u, v, accepted, ?_⟩
      cases two : both u with
      | true => exact Buffer.value_save
      | false => exact Buffer.value_save
  | killedBefore => exact .inl rfl
  | killedFirst => exact .inl (value_congr (Buffer.load_lose_next wf))
  | @killedOnce b spoiled u v accepted => exact .inr ⟨u, v, accepted, Buffer.value_save⟩
  | @killedSecond b spoiled u v accepted two =>
      refine .inr ⟨u, v, accepted, ?_⟩
      exact (value_congr (Buffer.load_lose_next wf.save)).trans Buffer.value_save
  | @killedAfter b spoiled u v accepted two => exact .inr ⟨u, v, accepted, Buffer.value_save⟩
  | @lost b spoiled slot single => exact absurd rfl (no_loss slot)

/-- After every run, the buffer holds the value of the updates that are left. -/
theorem Run.holds (run : Run apply both start s events t) (held : Holds apply start s kept fresh) :
    ∃ kept' fresh', Keeps both kept fresh events kept' fresh' ∧ Holds apply start t kept' fresh' := by
  induction run generalizing kept fresh with
  | nil => exact ⟨kept, fresh, .nil, held⟩
  | cons taken rest ih =>
      obtain ⟨kept', fresh', left, held'⟩ := held.step taken
      obtain ⟨kept'', fresh'', keeps, held''⟩ := ih held'
      exact ⟨kept'', fresh'', .cons left keeps, held''⟩

end Rules

section Left

variable {both} {kept kept' : List (Kept υ)} {fresh fresh' : Bool} {events rest : List (Event υ)} {u : υ}

theorem Keeps.append (keeps : Keeps both kept fresh (events ++ rest) kept' fresh') :
    ∃ middle flag, Keeps both kept fresh events middle flag ∧ Keeps both middle flag rest kept' fresh' := by
  induction events generalizing kept fresh with
  | nil => exact ⟨kept, fresh, .nil, keeps⟩
  | cons event events ih =>
      cases keeps with
      | cons left later =>
          obtain ⟨middle, flag, first, second⟩ := ih later
          exact ⟨middle, flag, .cons left first, second⟩

/-- An update no loss can take any more: it is in both slots, or not the last one. -/
def Safe (u : υ) (kept : List (Kept υ)) (fresh : Bool) : Prop :=
  ∃ k ∈ kept, k.update = u ∧ (fresh = true → k.twice = true ∨ k ∈ kept.dropLast)

theorem Safe.leaves {event : Event υ} (safe : Safe u kept fresh)
    (left : Leaves both kept fresh event kept' fresh') : Safe u kept' fresh' := by
  obtain ⟨k, member, same, shelter⟩ := safe
  cases left with
  | saved => exact ⟨k, List.mem_append_left _ member, same, fun _ => .inr (by simpa using member)⟩
  | killed => exact ⟨k, member, same, shelter⟩
  | killedSaved => exact ⟨k, List.mem_append_left _ member, same, fun _ => .inr (by simpa using member)⟩
  | lostNone => exact ⟨k, member, same, fun flag => (nomatch flag)⟩
  | lostLast =>
      refine ⟨k, ?_, same, fun flag => (nomatch flag)⟩
      rcases shelter rfl with twice | earlier
      · rcases List.mem_append.mp member with old | last
        · exact old
        · rw [List.mem_singleton.mp last] at twice
          cases twice
      · rwa [List.dropLast_concat] at earlier

theorem Safe.keeps (safe : Safe u kept fresh) (keeps : Keeps both kept fresh events kept' fresh') :
    Safe u kept' fresh' := by
  induction keeps with
  | nil => exact safe
  | cons left _ ih => exact ih (safe.leaves left)

/-- An update that was saved in both slots is safe from then on. -/
theorem Keeps.safe_of_both (keeps : Keeps both kept fresh events kept' fresh')
    (saved : .saved u ∈ events) (two : both u = true) : Safe u kept' fresh' := by
  obtain ⟨before, after, rfl⟩ := List.append_of_mem saved
  obtain ⟨middle, flag, _, later⟩ := keeps.append
  cases later with
  | cons left later =>
      cases left with
      | saved =>
          have now : Safe u (middle ++ [⟨u, both u⟩]) true :=
            ⟨_, List.mem_append_right _ (List.mem_singleton_self _), rfl, fun _ => .inl two⟩
          exact now.keeps later

/-- Without a loss the updates stay. -/
theorem Keeps.mem_of_no_loss {k : Kept υ} (keeps : Keeps both kept fresh events kept' fresh')
    (none_lost : ∀ slot, .lost slot ∉ events) (member : k ∈ kept) : k ∈ kept' := by
  induction keeps with
  | nil => exact member
  | @cons _ _ _ _ _ _ event _ left _ ih =>
      apply ih (fun slot lost => none_lost slot (List.mem_cons_of_mem _ lost))
      cases left with
      | saved => exact List.mem_append_left _ member
      | killed => exact member
      | killedSaved => exact List.mem_append_left _ member
      | @lostNone _ _ slot => exact absurd List.mem_cons_self (none_lost slot)
      | @lostLast _ _ slot => exact absurd List.mem_cons_self (none_lost slot)

/-- An update is safe once another one is saved, if there was no loss in between. -/
theorem Keeps.safe_of_later {u' : υ} {before between after : List (Event υ)}
    (keeps : Keeps both kept fresh (before ++ .saved u :: (between ++ .saved u' :: after)) kept' fresh')
    (none_lost : ∀ slot, .lost slot ∉ between) : Safe u kept' fresh' := by
  obtain ⟨_, _, _, keeps⟩ := keeps.append
  cases keeps with
  | cons left keeps =>
      cases left with
      | saved =>
          obtain ⟨middle, _, first, keeps⟩ := keeps.append
          have member := first.mem_of_no_loss none_lost
            (List.mem_append_right _ (List.mem_singleton_self (⟨u, both u⟩ : Kept υ)))
          cases keeps with
          | cons left keeps =>
              cases left with
              | saved =>
                  have now : Safe u (middle ++ [⟨u', both u'⟩]) true :=
                    ⟨_, List.mem_append_left _ member, rfl, fun _ => .inr (by simpa using member)⟩
                  exact now.keeps keeps

/-- Without a loss or a cut every update is left. -/
theorem Keeps.of_saved {updates : List υ}
    (keeps : Keeps both kept fresh (updates.map .saved) kept' fresh') :
    kept' = kept ++ updates.map fun u => ⟨u, both u⟩ := by
  induction updates generalizing kept fresh with
  | nil =>
      cases keeps
      rw [List.map_nil, List.append_nil]
  | cons u updates ih =>
      cases keeps with
      | cons left keeps =>
          cases left with
          | saved => rw [ih keeps, List.append_assoc, List.map_cons, List.singleton_append]

theorem map_update (updates : List υ) :
    (updates.map fun u => (⟨u, both u⟩ : Kept υ)).map Kept.update = updates := by
  rw [List.map_map]
  exact List.map_id updates

/-- A loss after updates that were all saved takes the last one at most. -/
theorem Keeps.of_saved_lost {updates : List υ} {slot : Bool}
    (keeps : Keeps both [] fresh (updates.map .saved ++ [.lost slot]) kept' fresh') :
    kept'.map Kept.update = updates ∨
      ∃ before u, updates = before ++ [u] ∧ both u = false ∧ kept'.map Kept.update = before := by
  obtain ⟨middle, flag, first, last⟩ := keeps.append
  have all := first.of_saved
  rw [List.nil_append] at all
  cases last with
  | cons left rest =>
      cases rest
      cases left with
      | lostNone => exact .inl (by rw [all, map_update])
      | @lostLast _ u _ =>
          obtain ⟨before, single, split, front, back⟩ := List.map_eq_append_iff.mp all.symm
          obtain ⟨u', one, same⟩ := List.map_eq_singleton_iff.mp back
          rw [Kept.mk.injEq] at same
          exact .inr ⟨before, u', by rw [split, one], same.2, by rw [← front, map_update]⟩

/-- An update that is cut off is left or not. -/
theorem Keeps.of_saved_killed {updates : List υ} {u : υ}
    (keeps : Keeps both [] fresh (updates.map .saved ++ [.killed u]) kept' fresh') :
    kept'.map Kept.update = updates ∨ kept'.map Kept.update = updates ++ [u] := by
  obtain ⟨middle, flag, first, last⟩ := keeps.append
  have all := first.of_saved
  rw [List.nil_append] at all
  cases last with
  | cons left rest =>
      cases rest
      cases left with
      | killed => exact .inl (by rw [all, map_update])
      | killedSaved => exact .inr (by rw [all, List.map_append, map_update, List.map_singleton])

end Left

end DoubleBuffer
