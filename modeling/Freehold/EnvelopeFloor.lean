import Freehold.MetaStore

set_option autoImplicit false

namespace Freehold

open Async MetaStore

/-- The records, with the envelopes that calls have superseded since the last `enroll()`
or `importBundle()`. -/
structure FloorHistory where
  records : MetaStore
  superseded : List Envelope
  deriving DecidableEq

/-- One call, with what the worker makes of it. It runs to its end, or up to a crash
before its access number `cut`. -/
structure FloorEvent where
  request : Request
  results : PoolResults
  cut : Option Nat

namespace FloorHistory

/-- What the call supersedes, if it stored another envelope. -/
def supersedes (request : Request) (before after : MetaStore) (superseded : List Envelope) :
    List Envelope :=
  if after.envelope = before.envelope then superseded
  else match request with
    | .change .. => before.envelope.toList ++ superseded
    | _ => []

/-- The records that a call leaves. -/
def recordsAfter (records : MetaStore) (event : FloorEvent) : Option MetaStore :=
  let ended := (event.request.call event.results).run records
  match event.cut with
  | none => some ended.state
  | some k => ended.passed[k]?

def step (h : FloorHistory) (event : FloorEvent) : Option FloorHistory :=
  (recordsAfter h.records event).map fun after =>
    ⟨after, supersedes event.request h.records after h.superseded⟩

/-- A device that was never enrolled. -/
def start (passkeys : List Passkey) : FloorHistory :=
  ⟨⟨none, none, none, none, none, none, passkeys⟩, []⟩

/-- The calls of a history: the six methods, a DEK drawn by `enroll()` being fresh and an
added slot being at most the 255th. -/
def permitted (records : MetaStore) : Request → Prop
  | .enroll _ dek _ => ∀ env ∈ records.envelope, ¬ env.IssuedUnder dek
  | .change (.addRecoveryCode _) _ | .change (.addPasskey _) _ =>
      ∀ env ∈ records.envelope, env.body.slots.length < 255
  | .change .. | .importBundle _ => True
  | .enrollConvenience .. | .reset => False

instance (records : MetaStore) : DecidablePred (permitted records)
  | .enroll .. => inferInstanceAs (Decidable (∀ env ∈ records.envelope, ¬ env.mac = some _))
  | .change (.addRecoveryCode _) _ | .change (.addPasskey _) _ =>
      inferInstanceAs (Decidable (∀ env ∈ records.envelope, env.body.slots.length < 255))
  | .change (.removeMethod _) _ | .change (.rotateKey ..) _ | .importBundle _ =>
      inferInstanceAs (Decidable True)
  | .enrollConvenience .. | .reset => inferInstanceAs (Decidable False)

/-- A crash does not come between the write of an envelope and the next write of the floor. -/
def allowed (h : FloorHistory) (event : FloorEvent) : Prop :=
  permitted h.records event.request ∧
    (event.cut.isSome → ∀ after ∈ recordsAfter h.records event,
      after.envelope = h.records.envelope ∨ after.envFloor ≠ h.records.envFloor)

instance (h : FloorHistory) : DecidablePred (allowed h) :=
  fun _ => inferInstanceAs (Decidable (_ ∧ _))

/-- The stored envelope passes the floor check, and no superseded one in its place does. -/
structure Guarded (h : FloorHistory) : Prop where
  current : ∀ env, h.records.envelope = some env → (currentEnvelope.run h.records).result = .ok env
  stale : ∀ old ∈ h.superseded, ∀ env,
    (currentEnvelope.run { h.records with envelope := some old }).result ≠ .ok env

/-- The floor is not above the stored envelope, but above every superseded one. -/
structure Inv (h : FloorHistory) : Prop where
  above : ∀ env floor, h.records.envelope = some env → h.records.envFloor = some floor →
    floor ≤ env.generation
  below : ∀ old ∈ h.superseded, ∃ floor, h.records.envFloor = some floor ∧ old.generation < floor

theorem Inv.guarded {h : FloorHistory} (inv : Inv h) : Guarded h := by
  constructor
  · exact fun env stored => currentEnvelope_ok.mpr ⟨stored, fun floor => inv.above env floor stored⟩
  · intro old member env passes
    obtain ⟨floor, set, less⟩ := inv.below old member
    obtain ⟨same, above⟩ := currentEnvelope_ok.mp passes
    obtain rfl := Option.some.inj same
    exact Nat.not_le_of_lt less (above floor set)

/-- The envelopes a call may store. -/
def Issues (records : MetaStore) : Request → Envelope → Prop
  | .enroll _ dek _, env => env.generation = 1 ∧ env.IssuedUnder dek
  | .change .., env => ∃ old, records.envelope = some old ∧ env.generation = old.generation + 1
  | _, _ => True

/-- The call has stored no envelope. -/
def Untouched (s t : MetaStore) : Prop := t.envelope = s.envelope ∧ t.envFloor = s.envFloor

/-- The call has stored one beside the floor of before. -/
def Between (request : Request) (s t : MetaStore) : Prop :=
  ∃ env, Issues s request env ∧ t.envelope = some env ∧ t.envFloor = s.envFloor

/-- `enroll()` has dropped that floor. -/
def Cleared (request : Request) (s t : MetaStore) : Prop :=
  (∃ new dek envSalt, request = .enroll new dek envSalt) ∧
    ∃ env, Issues s request env ∧ t.envelope = some env ∧ t.envFloor = none

/-- The floor has come up to the stored envelope. -/
def Raised (request : Request) (s t : MetaStore) : Prop :=
  ∃ env, Issues s request env ∧ t.envelope = some env ∧ t.envFloor = some env.generation

/-- Each of the six methods moves the envelope and the floor in this order. -/
def Ordered (request : Request) (s : MetaStore) (outcome : CrashLogic.Outcome MetaStore String Unit) :
    Prop :=
  outcome.Meets (fun t => Untouched s t ∨ Between request s t ∨ Cleared request s t ∨ Raised request s t)
    (fun _ t => Untouched s t ∨ Raised request s t) fun _ t => Untouched s t ∨ Raised request s t

section Calls

variable {s : MetaStore} {results : PoolResults}

theorem bumped_envelope (s : MetaStore) (env : Envelope) : (s.bumped env).envelope = s.envelope := by
  unfold bumped
  split <;> rfl

theorem bumped_envFloor {env : Envelope} (above : ∀ floor, s.envFloor = some floor →
    floor < env.generation) : (s.bumped env).envFloor = some env.generation := by
  unfold bumped
  rw [if_pos]
  cases set : s.envFloor with
  | none => rfl
  | some floor => exact decide_eq_true (above floor set)

theorem registered_untouched (s : MetaStore) (new : Option Passkey) : Untouched s (s.registered new) := by
  cases new <;> exact ⟨rfl, rfl⟩

/-- An operation moves the generation up by one. -/
theorem apply_generation {method : Change} {prf : List UInt8} {picked : CredId} {env next : Envelope}
    {dek : Dek} (fits : permitted s (.change method picked)) (stored : s.envelope = some env)
    (ok : (method.mutation prf).apply env dek = .ok next) : next.generation = env.generation + 1 := by
  cases method with
  | addRecoveryCode code =>
      obtain ⟨short, rfl⟩ := Envelope.addRecoverySlot_ok.mp ok
      have room := fits env stored
      rw [Envelope.generation_of_short short, Envelope.generation_of_short]
      · rfl
      · change (env.body.slots ++ [_]).length ≤ 255
        rw [List.length_append, List.length_singleton]
        omega
  | addPasskey new =>
      obtain ⟨short, rfl⟩ := Envelope.addPasskeySlot_ok.mp ok
      have room := fits env stored
      rw [Envelope.generation_of_short short, Envelope.generation_of_short]
      · rfl
      · change (env.body.slots ++ [_]).length ≤ 255
        rw [List.length_append, List.length_singleton]
        omega
  | removeMethod kekId =>
      obtain ⟨short, _, _, rfl⟩ := Envelope.removeSlot_ok.mp ok
      rw [Envelope.generation_of_short short, Envelope.generation_of_short]
      · rfl
      · exact Nat.le_trans (List.length_filter_le _ _) short
  | rotateKey draws unlocked again =>
      obtain ⟨short, rfl⟩ := Envelope.rotateEnvelope_ok.mp ok
      rw [Envelope.generation_of_short short, Envelope.rotated_generation]

theorem change_ordered {method : Change} {picked : CredId}
    (above : ∀ env floor, s.envelope = some env → s.envFloor = some floor → floor ≤ env.generation)
    (fits : permitted s (.change method picked)) :
    Ordered (.change method picked) s (((Request.change method picked).call results).run s) := by
  have untouched : Untouched s s := ⟨rfl, rfl⟩
  have registered := registered_untouched s method.new
  apply meets_authorized_bind (.inl untouched)
  · intro env prf stored _
    apply meets_perform (.inl untouched) fun _ => .inl registered
    intro dek next _ made
    have more := apply_generation fits stored made
    have issued : Issues s (.change method picked) next := ⟨env, stored, more⟩
    have raised : ∀ t : MetaStore, t.envelope = some next → t.envFloor = some next.generation →
        Raised (.change method picked) s t := fun t held floor => ⟨next, issued, held, floor⟩
    have held := bumped_envelope { s.registered method.new with envelope := some next } next
    have floor : (({ s.registered method.new with envelope := some next } : MetaStore).bumped
        next).envFloor = some next.generation := by
      apply bumped_envFloor
      intro floor set
      have least := above env floor stored (registered.2.symm.trans set)
      omega
    refine ⟨.inl registered, .inr (.inl ⟨next, issued, rfl, registered.2⟩), ?_⟩
    cases method with
    | rotateKey draws unlocked again =>
        apply meets_run_write_bind (.inr (.inr (.inr (raised _ held floor))))
        apply meets_unlock
        · exact .inr (.inr (.inr (raised _ held floor)))
        · exact fun _ _ _ _ _ _ => .inr (raised _ held floor)
        · exact fun _ => .inr (raised _ held floor)
    | addRecoveryCode code => exact CrashLogic.meets_pure (.inr (raised _ held floor))
    | addPasskey new => exact CrashLogic.meets_pure (.inr (raised _ held floor))
    | removeMethod kekId => exact CrashLogic.meets_pure (.inr (raised _ held floor))
  · exact fun _ => .inl untouched

theorem enroll_ordered {new : Passkey} {dek : Dek} {envSalt : BitVec 128} :
    Ordered (.enroll new dek envSalt) s (((Request.enroll new dek envSalt).call results).run s) := by
  have untouched : Untouched s s := ⟨rfl, rfl⟩
  apply meets_run_ofExcept_bind
  · intro _ _
    apply meets_run_write_bind (.inl untouched)
    apply meets_run_ofExcept_bind
    · intro env made
      obtain rfl := enroll_ok made
      have issued : Issues s (.enroll new dek envSalt) (Envelope.createEnvelope envSalt dek new.prf) :=
        ⟨rfl, rfl⟩
      apply meets_run_write_bind (.inl untouched)
      apply meets_run_write_bind (.inr (.inl ⟨_, issued, rfl, rfl⟩))
      apply meets_run_write_bind (.inr (.inl ⟨_, issued, rfl, rfl⟩))
      apply meets_run_write_bind (.inr (.inl ⟨_, issued, rfl, rfl⟩))
      have cleared := (⟨new, dek, envSalt, rfl⟩ :
        ∃ new' dek' envSalt', Request.enroll new dek envSalt = .enroll new' dek' envSalt')
      apply meets_run_bind (fun _ t => Raised (.enroll new dek envSalt) s t)
      · apply meets_bumpFloor (.inr (.inr (.inl ⟨cleared, _, issued, rfl, rfl⟩)))
        exact ⟨_, issued, rfl, rfl⟩
      · intro _ t raised
        apply meets_run_ofExcept_bind
        · intro _ _
          exact CrashLogic.meets_ofExcept (fun _ _ => .inr raised) fun _ _ => .inr raised
        · exact fun _ _ => .inr raised
    · exact fun _ _ => .inl untouched
  · exact fun _ _ => .inl untouched

theorem importBundle_ordered {bundle : BundleMeta} :
    Ordered (.importBundle bundle) s (((Request.importBundle bundle).call results).run s) := by
  have untouched : Untouched s s := ⟨rfl, rfl⟩
  have between : ∀ t : MetaStore, t.envelope = some bundle.envelope → t.envFloor = s.envFloor →
      Between (.importBundle bundle) s t := fun t held floor => ⟨_, trivial, held, floor⟩
  apply meets_run_ofExcept_bind
  · intro _ _
    apply meets_run_ofExcept_bind
    · intro _ _
      apply meets_run_write_bind (.inl untouched)
      apply meets_run_bind (fun _ t => t.envelope = some bundle.envelope ∧ t.envFloor = s.envFloor)
      · unfold adoptCredId
        split
        · exact CrashLogic.meets_pure ⟨rfl, rfl⟩
        · exact meets_run_write (.inr (.inl (between _ rfl rfl))) ⟨rfl, rfl⟩
      · rintro _ t ⟨held, floor⟩
        apply meets_run_write_bind (.inr (.inl (between _ held floor)))
        apply meets_run_write (.inr (.inl (between _ held floor)))
        exact .inr ⟨_, trivial, held, rfl⟩
    · exact fun _ _ => .inl untouched
  · exact fun _ _ => .inl untouched

end Calls

section Invariant

variable {h next : FloorHistory} {event : FloorEvent}

theorem ordered (inv : Inv h) (fits : permitted h.records event.request) :
    Ordered event.request h.records ((event.request.call event.results).run h.records) := by
  cases request : event.request with
  | enroll new dek envSalt => exact enroll_ordered
  | enrollConvenience key secret dek envSalt code =>
      rw [request] at fits
      exact fits.elim
  | change method picked =>
      rw [request] at fits
      exact change_ordered inv.above fits
  | importBundle bundle => exact importBundle_ordered
  | reset =>
      rw [request] at fits
      exact fits.elim

/-- The records a call leaves, where no crash came between its two writes. -/
theorem recordsAfter_cases (inv : Inv h) (permitted : allowed h event) {after : MetaStore}
    (left : recordsAfter h.records event = some after) :
    Untouched h.records after ∨ Cleared event.request h.records after ∨
      Raised event.request h.records after := by
  have met := ordered inv permitted.1
  unfold recordsAfter at left
  cases cut : event.cut with
  | none =>
      simp only [cut] at left
      obtain rfl := Option.some.inj left
      cases ended : ((event.request.call event.results).run h.records).result with
      | ok a => exact (met.ok ended).imp_right .inr
      | error e => exact (met.error ended).imp_right .inr
  | some k =>
      simp only [cut] at left
      have crashes := permitted.2 (by rw [cut]; rfl) after (by simp only [recordsAfter, cut, left, Option.mem_def])
      rcases met.passed (List.mem_of_getElem? left) with untouched | between | cleared | raised
      · exact .inl untouched
      · obtain ⟨env, _, held, floor⟩ := between
        rcases crashes with same | moved
        · exact .inl ⟨same, floor⟩
        · exact absurd floor moved
      · exact .inr (.inl cleared)
      · exact .inr (.inr raised)

theorem Inv.step (inv : Inv h) (permitted : allowed h event) (taken : step h event = some next) :
    Inv next := by
  obtain ⟨after, left, rfl⟩ := Option.map_eq_some_iff.mp taken
  rcases recordsAfter_cases inv permitted left with untouched | cleared | raised
  · obtain ⟨held, floor⟩ := untouched
    constructor
    · intro env least stored set
      exact inv.above env least (held.symm.trans stored) (floor.symm.trans set)
    · unfold supersedes
      rw [if_pos held]
      intro old member
      obtain ⟨least, set, less⟩ := inv.below old member
      exact ⟨least, floor.trans set, less⟩
  · obtain ⟨⟨new, dek, envSalt, request⟩, env, issued, held, floor⟩ := cleared
    have fresh := permitted.1
    rw [request] at issued fresh
    have other : after.envelope ≠ h.records.envelope := by
      intro same
      exact fresh env (same.symm.trans held) issued.2
    constructor
    · intro _ _ _ set
      cases floor.symm.trans set
    · unfold supersedes
      rw [if_neg other, request]
      exact fun _ member => nomatch member
  · obtain ⟨env, issued, held, floor⟩ := raised
    constructor
    · intro env' least stored set
      obtain rfl := Option.some.inj (held.symm.trans stored)
      exact Nat.le_of_eq (Option.some.inj (floor.symm.trans set)).symm
    · have kept : ∀ old ∈ h.superseded, ∀ stored, h.records.envelope = some stored →
          old.generation < stored.generation := by
        intro old member stored present
        obtain ⟨least, set, less⟩ := inv.below old member
        exact Nat.lt_of_lt_of_le less (inv.above stored least present set)
      unfold supersedes
      intro old member
      refine ⟨env.generation, floor, ?_⟩
      split at member
      · next same => exact kept old member env (same.symm.trans held)
      · split at member
        · next method picked request =>
            rw [request] at issued
            obtain ⟨before, stored, more⟩ := issued
            rcases List.mem_append.mp member with first | earlier
            · rw [stored] at first
              obtain rfl := List.mem_singleton.mp first
              omega
            · have less := kept old earlier before stored
              omega
        · exact nomatch member

end Invariant

theorem Inv.start (passkeys : List Passkey) : Inv (start passkeys) :=
  ⟨fun _ _ stored => (nomatch stored), fun _ member => (nomatch member)⟩

/-- A passkey of the device. -/
def samplePasskey : Passkey := ⟨[1], List.replicate 16 7, sampleId_identified⟩

/-- A call that runs to its end. -/
def whole (request : Request) : FloorEvent := ⟨request, .fine, none⟩

/-- The vault enrolled with that passkey, the envelope with a recovery code added, and
the calls that add the code and remove it again. -/
def sampleEnrolled : Envelope := Envelope.createEnvelope 5 1 (List.replicate 16 7)
def sampleWithCode : Envelope := Envelope.rebuild sampleEnrolled 1 (sampleEnrolled.body.slots ++
  [Envelope.wrapSlot 1 (.recovery ['C'] 5) 1 kindRecovery])
def sampleCalls : List FloorEvent := [whole (.enroll samplePasskey 1 5),
  whole (.change (.addRecoveryCode ['C']) []), whole (.change (.removeMethod 1) [])]

end FloorHistory

end Freehold
