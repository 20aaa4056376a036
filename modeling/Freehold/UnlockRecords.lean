import Freehold.MetaStore

set_option autoImplicit false

namespace Freehold

open Async MetaStore

namespace UnlockRecords

/-- A call that resolves, with what the worker makes of it. -/
def step (records : MetaStore) (event : Request × PoolResults) : Option MetaStore :=
  let ended := (event.1.call event.2).run records
  match ended.result with
  | .ok _ => some ended.state
  | .error _ => none

/-- A device that was never enrolled. -/
def start (passkeys : List Passkey) : MetaStore := ⟨none, none, none, none, none, none, passkeys⟩

/-- A slot of the envelope opens under the secret. -/
def Admits (env : Envelope) (secret : List UInt8) : Prop := ∃ dek, env.openWith (.prf secret) = .ok dek

/-- A secret this device holds: the PRF of a passkey, or what the stored device key unwraps. -/
def Held (records : MetaStore) (secret : List UInt8) : Prop :=
  (∃ credId, records.prfOf credId = some secret) ∨
    unwrapDevice records.deviceKey records.deviceWrap = .ok (some secret)

/-- Whichever passkey is picked where none is asked for, `unlock()` presents a secret of
a slot of the envelope. -/
def Presents (records : MetaStore) (env : Envelope) : Prop :=
  ∀ picked, (records.prfOf picked).isSome →
    ∃ secret, records.presented picked = .ok secret ∧ Admits env secret

/-- If the stored envelope has a slot for a secret of this device, `unlock()` derives
such a secret. -/
def Unlocks (records : MetaStore) : Prop :=
  ∀ env, records.envelope = some env → (∃ secret, Held records secret ∧ Admits env secret) →
    ∀ picked, (records.prfOf picked).isSome →
      ∃ secret, ((unlockSecret picked).run records).result = .ok secret ∧ Admits env secret

/-- The slots that `removeMethod(kekId)` removes and those it keeps. -/
def removed (slots : List Slot) (kekId : UInt8) : List Slot :=
  slots.filter fun slot => slot.kekId = kekId
def kept (slots : List Slot) (kekId : UInt8) : List Slot :=
  slots.filter fun slot => slot.kekId ≠ kekId

/-- Some of the slots is sealed under the secret. -/
def SlotFor (slots : List Slot) (secret : List UInt8) : Prop :=
  ∃ slot ∈ slots, (slot.wrapped.openWith (.prf secret) (slot.kekId, slot.kind)).isSome

/-- The condition on a call. -/
def allowed (records : MetaStore) : Request → Prop
  | .enroll .. => unwrapDevice records.deviceKey records.deviceWrap = .ok none
  | .change (.addRecoveryCode _) _ => ∀ env ∈ records.envelope, env.body.slots.length < 255
  | .change (.addPasskey new) _ => ∀ env ∈ records.envelope,
      env.body.slots.length < 255 ∧ ¬ SlotFor env.body.slots new.prf
  | .change (.removeMethod kekId) _ => ∀ env ∈ records.envelope,
      (∀ picked secret, records.presented picked = .ok secret → ¬ SlotFor (removed env.body.slots kekId) secret) ∨
        ∀ secret, Held records secret → ¬ SlotFor (kept env.body.slots kekId) secret
  | .change (.rotateKey ..) _ => ∀ picked picked', (records.prfOf picked).isSome →
      (records.prfOf picked').isSome → records.presented picked = records.presented picked'
  | .importBundle bundle =>
      Presents { records with
          credId := if bundle.credId.isEmpty then records.credId else some bundle.credId }
        bundle.envelope ∨
      ∀ secret, Held records secret → ¬ Admits bundle.envelope secret
  | .enrollConvenience .. | .reset => True

instance (slots : List Slot) (secret : List UInt8) : Decidable (SlotFor slots secret) :=
  inferInstanceAs (Decidable (∃ slot ∈ slots, _))

theorem Presents.unlocks {records : MetaStore} (presents : ∀ env, records.envelope = some env →
    Presents records env) : Unlocks records := by
  intro env stored _ picked held
  obtain ⟨secret, ok, admits⟩ := presents env stored picked held
  exact ⟨secret, unlockSecret_result.trans ok, admits⟩

/-- Where a secret of the device opens the envelope, `unlock()` presents one. -/
theorem Unlocks.presents {records : MetaStore} {env : Envelope} {secret : List UInt8}
    (unlocks : Unlocks records) (stored : records.envelope = some env) (held : Held records secret)
    (admits : Admits env secret) : Presents records env := by
  intro picked present
  obtain ⟨secret', ok, admits'⟩ := unlocks env stored ⟨secret, held, admits⟩ picked present
  exact ⟨secret', unlockSecret_result.symm.trans ok, admits'⟩

section Slots

variable {env next : Envelope} {secret : List UInt8} {dek : Dek}

/-- The slot search of `open_with_kek` under a PRF. -/
def search (slots : List Slot) (secret : List UInt8) : Option Dek :=
  slots.findSome? fun slot => slot.wrapped.openWith (.prf secret) (slot.kekId, slot.kind)

theorem openWith_prf : env.openWith (.prf secret) = .ok dek ↔
    env.body.slots.length ≤ 255 ∧ env.IssuedUnder dek ∧ search env.body.slots secret = some dek :=
  Envelope.openWithKek_ok

theorem search_append {slots added : List Slot} :
    search (slots ++ added) secret = (search slots secret).or (search added secret) :=
  List.findSome?_append

theorem search_eq_none {slots : List Slot} : search slots secret = none ↔ ¬ SlotFor slots secret := by
  rw [search, List.findSome?_eq_none_iff]
  unfold SlotFor
  constructor
  · rintro all ⟨slot, member, opens⟩
    rw [all slot member] at opens
    cases opens
  · intro absent slot member
    by_contra opens
    exact absent ⟨slot, member, Option.isSome_iff_ne_none.mpr opens⟩

/-- Removing slots that the secret does not open leaves the search as it was. -/
theorem search_kept {slots : List Slot} {kekId : UInt8} (absent : ¬ SlotFor (removed slots kekId) secret) :
    search (kept slots kekId) secret = search slots secret := by
  rw [← search_eq_none] at absent
  unfold search removed kept at *
  induction slots with
  | nil => rfl
  | cons slot rest ih =>
      by_cases same : slot.kekId = kekId
      · rw [List.filter_cons_of_pos (by simpa using same), List.findSome?_cons] at absent
        rw [List.filter_cons_of_neg (by simpa using same), List.findSome?_cons]
        split at absent
        · cases absent
        · exact ih absent
      · rw [List.filter_cons_of_neg (by simpa using same)] at absent
        rw [List.filter_cons_of_pos (by simpa using same), List.findSome?_cons, List.findSome?_cons, ih absent]

/-- An appended slot takes nothing from the others. -/
theorem admits_appended {slot : Slot} (admits : Admits env secret) (issued : env.IssuedUnder dek)
    (room : env.body.slots.length < 255) :
    Admits (Envelope.rebuild env dek (env.body.slots ++ [slot])) secret := by
  obtain ⟨found, ok⟩ := admits
  obtain ⟨short, issued', opens⟩ := openWith_prf.mp ok
  obtain rfl := issued.unique issued'
  refine ⟨dek, openWith_prf.mpr ⟨?_, rfl, ?_⟩⟩
  · change (env.body.slots ++ [slot]).length ≤ 255
    rw [List.length_append, List.length_singleton]
    omega
  · change search (env.body.slots ++ [slot]) secret = some dek
    rw [search_append, opens]
    rfl

/-- Nor does a removed one that the secret does not open. -/
theorem admits_kept {kekId : UInt8} (admits : Admits env secret) (issued : env.IssuedUnder dek)
    (absent : ¬ SlotFor (removed env.body.slots kekId) secret) :
    Admits (Envelope.rebuild env dek (kept env.body.slots kekId)) secret := by
  obtain ⟨found, ok⟩ := admits
  obtain ⟨short, issued', opens⟩ := openWith_prf.mp ok
  obtain rfl := issued.unique issued'
  exact ⟨dek, openWith_prf.mpr ⟨Nat.le_trans (List.length_filter_le _ _) short, rfl,
    (search_kept absent).trans opens⟩⟩

theorem not_admits_kept {kekId : UInt8} (absent : ¬ SlotFor (kept env.body.slots kekId) secret) :
    ¬ Admits (Envelope.rebuild env dek (kept env.body.slots kekId)) secret := by
  rintro ⟨found, ok⟩
  have none_opens := search_eq_none.mpr absent
  have opens : search (kept env.body.slots kekId) secret = some found := (openWith_prf.mp ok).2.2
  rw [none_opens] at opens
  cases opens

/-- The secret of a slot that no earlier slot opens under is admitted. -/
theorem admits_new {kekId kind : UInt8} (room : env.body.slots.length < 255)
    (fresh : ¬ SlotFor env.body.slots secret) : Admits (Envelope.rebuild env dek
      (env.body.slots ++ [Envelope.wrapSlot dek (.prf secret) kekId kind])) secret := by
  refine ⟨dek, openWith_prf.mpr ⟨?_, rfl, ?_⟩⟩
  · change (env.body.slots ++ [_]).length ≤ 255
    rw [List.length_append, List.length_singleton]
    omega
  · change search (env.body.slots ++ [_]) secret = some dek
    rw [search_append, search_eq_none.mpr fresh]
    simp [search, Envelope.wrapSlot]

theorem admits_created (envSalt : BitVec 128) (kind : UInt8) :
    Admits (Envelope.createEnvelopeKind envSalt dek secret kind) secret := by
  refine ⟨dek, openWith_prf.mpr ⟨?_, rfl, ?_⟩⟩
  · change 1 ≤ 255
    decide
  · simp [search, Envelope.createEnvelopeKind, Envelope.finalize, Envelope.wrapSlot]

end Slots

/-- The records that say what `unlock()` presents are the same. -/
structure SameDevice (s t : MetaStore) : Prop where
  credId : t.credId = s.credId
  deviceKey : t.deviceKey = s.deviceKey
  deviceWrap : t.deviceWrap = s.deviceWrap
  passkeys : t.passkeys = s.passkeys

section Device

variable {s t : MetaStore}

theorem SameDevice.prfOf (same : SameDevice s t) (credId : CredId) : t.prfOf credId = s.prfOf credId := by
  rw [MetaStore.prfOf, same.passkeys, MetaStore.prfOf]

theorem SameDevice.presented (same : SameDevice s t) (picked : CredId) :
    t.presented picked = s.presented picked := by
  rw [MetaStore.presented, same.deviceKey, same.deviceWrap, same.credId, same.prfOf, MetaStore.presented]

theorem SameDevice.held (same : SameDevice s t) {secret : List UInt8} (held : Held t secret) :
    Held s secret := by
  rcases held with ⟨credId, present⟩ | device
  · exact .inl ⟨credId, (same.prfOf credId).symm.trans present⟩
  · rw [same.deviceKey, same.deviceWrap] at device
    exact .inr device

theorem SameDevice.presents (same : SameDevice s t) {env : Envelope} (presents : Presents s env) :
    Presents t env := by
  intro picked held
  rw [same.prfOf] at held
  rw [same.presented]
  exact presents picked held

theorem bumped_same (s : MetaStore) (env : Envelope) : SameDevice s (s.bumped env) := by
  unfold bumped
  split <;> exact ⟨rfl, rfl, rfl, rfl⟩

theorem bumped_envelope_eq (s : MetaStore) (env : Envelope) : (s.bumped env).envelope = s.envelope := by
  unfold bumped
  split <;> rfl

/-- The stored id is asked for, or whatever is picked. -/
theorem askedFor_cases (credId : Option CredId) :
    (∃ id, ∀ picked, askedFor credId picked = id) ∨ ∀ picked, askedFor credId picked = picked := by
  cases credId with
  | none => exact .inr fun _ => rfl
  | some id =>
      cases empty : id.isEmpty with
      | true => exact .inr fun picked => by rw [askedFor, empty, if_pos rfl]
      | false => exact .inl ⟨id, fun picked => by simp [askedFor, empty]⟩

/-- A secret presented for one pick is presented for all, or the pick is a passkey. -/
theorem presented_ok {picked : CredId} {secret : List UInt8} (ok : s.presented picked = .ok secret) :
    (∀ other, s.presented other = .ok secret) ∨ (s.prfOf picked).isSome := by
  unfold MetaStore.presented at *
  split at ok
  · cases ok
  · exact .inl fun _ => ok
  · rcases askedFor_cases s.credId with ⟨id, fixed⟩ | free
    · rw [fixed] at ok
      exact .inl fun other => (fixed other).symm ▸ ok
    · rw [free, evaluated_ok] at ok
      exact .inr (by rw [ok]; rfl)

end Device

section Calls

variable {s : MetaStore} {results : PoolResults}

/-- A call that resolves leaves records from which `unlock()` presents an admitted secret. -/
def Keeps (call : MetaM Unit) (s : MetaStore) : Prop :=
  (call.run s).Meets (fun _ => True) (fun _ t => Unlocks t) fun _ _ => True

theorem keeps_enroll {new : Passkey} {dek : Dek} {envSalt : BitVec 128}
    (permitted : allowed s (.enroll new dek envSalt)) : Keeps (enroll new dek envSalt results) s := by
  apply meets_run_ofExcept_bind
  · intro _ _
    apply meets_run_write_bind trivial
    apply meets_run_ofExcept_bind
    · intro env made
      obtain rfl := enroll_ok made
      apply meets_run_write_bind trivial
      apply meets_run_write_bind trivial
      apply meets_run_write_bind trivial
      apply meets_run_write_bind trivial
      apply meets_run_bind fun _ t => Unlocks t
      · apply meets_bumpFloor trivial
        apply Presents.unlocks
        intro env stored
        rw [bumped_envelope_eq] at stored
        obtain rfl := Option.some.inj stored
        apply (bumped_same _ _).presents
        intro picked _
        refine ⟨new.prf, ?_, admits_created envSalt kindPasskey⟩
        have asked : askedFor (some new.credId) picked = new.credId := by
          simp [askedFor, new.identified]
        simp only [MetaStore.presented]
        rw [permitted]
        simp [asked, MetaStore.prfOf, evaluated]
      · intro _ t unlocks
        apply meets_run_ofExcept_bind
        · intro _ _
          exact CrashLogic.meets_ofExcept (fun _ _ => unlocks) fun _ _ => trivial
        · exact fun _ _ => trivial
    · exact fun _ _ => trivial
  · exact fun _ _ => trivial

/-- With the device key stored beside the wrap it made, its secret is presented. -/
theorem presents_device {t : MetaStore} {key : DeviceKey} {secret : List UInt8} {env : Envelope}
    (stored : t.deviceKey = some key) (wrap : t.deviceWrap = some (.sealed key () secret))
    (admits : Admits env secret) : Presents t env := by
  intro picked _
  refine ⟨secret, ?_, admits⟩
  rw [MetaStore.presented, stored, wrap, unwrapDevice, Aead.openWith_sealed]

theorem keeps_enrollConvenience {key : DeviceKey} {secret : List UInt8} {dek : Dek}
    {envSalt : BitVec 128} {code : Option (List Char)} :
    Keeps (enrollConvenience key secret dek envSalt code results) s := by
  apply meets_run_ofExcept_bind
  · intro _ _
    apply meets_run_ofExcept_bind
    · intro env made
      obtain rfl := enrollDevice_ok made
      apply meets_run_write_bind trivial
      apply meets_run_write_bind trivial
      apply meets_run_write_bind trivial
      apply meets_run_write_bind trivial
      apply meets_run_write_bind trivial
      apply meets_run_write_bind trivial
      have admits : Admits (Envelope.createDeviceEnvelope envSalt dek secret) secret :=
        admits_created envSalt kindDevice
      apply meets_run_bind fun _ t => t.deviceKey = some key ∧
        t.deviceWrap = some (.sealed key () secret) ∧
        t.envelope = some (Envelope.createDeviceEnvelope envSalt dek secret)
      · apply meets_bumpFloor trivial
        have same := bumped_same { s with
            deviceKey := some key
            deviceWrap := some (.sealed key () secret)
            envelope := some (Envelope.createDeviceEnvelope envSalt dek secret)
            credId := none
            epoch := none
            envFloor := none } (Envelope.createDeviceEnvelope envSalt dek secret)
        exact ⟨same.deviceKey, same.deviceWrap, bumped_envelope_eq _ _⟩
      · rintro _ t ⟨stored, wrap, held⟩
        cases code with
        | none =>
            apply CrashLogic.meets_pure
            apply Presents.unlocks
            intro env present
            obtain rfl := Option.some.inj (held.symm.trans present)
            exact presents_device stored wrap admits
        | some code =>
            apply meets_run_bind fun found u => found = secret ∧ u = t
            · apply meets_run_bind fun device u => device = some secret ∧ u = t
              · apply meets_deviceSecret trivial
                · intro device unwrapped
                  rw [stored, wrap, unwrapDevice, Aead.openWith_sealed] at unwrapped
                  exact ⟨(Except.ok.inj unwrapped).symm, rfl⟩
                · exact fun _ _ => trivial
              · rintro device u ⟨rfl, rfl⟩
                exact CrashLogic.meets_pure ⟨rfl, rfl⟩
            · rintro found u ⟨rfl, rfl⟩
              apply meets_run_ofExcept_bind
              · intro next made
                obtain ⟨dek', opened, ok⟩ := authorized_ok made
                obtain ⟨_, rfl⟩ := Envelope.addRecoverySlot_ok.mp ok
                apply meets_run_write_bind trivial
                apply meets_bumpFloor trivial
                apply Presents.unlocks
                intro env present
                rw [bumped_envelope_eq] at present
                obtain rfl := Option.some.inj present
                apply (bumped_same _ _).presents
                apply presents_device stored wrap
                apply admits_appended admits (Envelope.openWith_issued opened)
                change 1 < 255
                decide
              · exact fun _ _ => trivial
    · exact fun _ _ => trivial
  · exact fun _ _ => trivial

/-- A new passkey answers for its own id only. -/
theorem prfOf_registered (new : Passkey) (credId : CredId) :
    (s.registered (some new)).prfOf credId = if new.credId = credId then some new.prf else s.prfOf credId := by
  unfold MetaStore.prfOf registered
  rw [List.find?_cons]
  by_cases own : new.credId = credId
  · simp [own]
  · simp [own]

/-- After a passkey is registered, every pick presents the new PRF or an admitted one. -/
theorem presents_registered {new : Passkey} {env : Envelope} {asserted : CredId}
    (presents : Presents s env) (held : (s.prfOf (askedFor s.credId asserted)).isSome)
    {picked : CredId} (present : ((s.registered (some new)).prfOf picked).isSome) :
    ∃ secret, (s.registered (some new)).presented picked = .ok secret ∧
      (secret = new.prf ∨ Admits env secret) := by
  have same_device : unwrapDevice (s.registered (some new)).deviceKey (s.registered (some new)).deviceWrap =
      unwrapDevice s.deviceKey s.deviceWrap := rfl
  have same_credId : (s.registered (some new)).credId = s.credId := rfl
  unfold MetaStore.presented
  rw [same_device, same_credId]
  obtain ⟨secret, ok, admits⟩ := presents _ held
  unfold MetaStore.presented at ok
  cases device : unwrapDevice s.deviceKey s.deviceWrap with
  | error e =>
      rw [device] at ok
      cases ok
  | ok found =>
      rw [device] at ok
      cases found with
      | some unwrapped =>
          obtain rfl := Except.ok.inj ok
          exact ⟨unwrapped, rfl, .inr admits⟩
      | none =>
          simp only [prfOf_registered, evaluated_ok] at ok present ⊢
          by_cases own : new.credId = askedFor s.credId picked
          · exact ⟨new.prf, if_pos own, .inl rfl⟩
          · rw [if_neg own]
            rcases askedFor_cases s.credId with ⟨id, fixed⟩ | free
            · rw [fixed] at ok ⊢
              exact ⟨secret, ok, .inr admits⟩
            · rw [free] at own ⊢
              rw [if_neg own] at present
              obtain ⟨secret', ok', admits'⟩ := presents picked present
              unfold MetaStore.presented at ok'
              rw [device] at ok'
              simp only [free, evaluated_ok] at ok'
              exact ⟨secret', ok', .inr admits'⟩

theorem keeps_change {method : Change} {picked : CredId} (unlocks : Unlocks s)
    (permitted : allowed s (.change method picked)) :
    Keeps ((Request.change method picked).call results) s := by
  apply meets_authorized_bind trivial
  · intro env prf stored present
    apply meets_perform trivial fun _ => trivial
    intro dek next opened made
    have presents := unlocks.presents stored (.inl ⟨_, present⟩) ⟨dek, opened⟩
    have issued := Envelope.openWith_issued opened
    refine ⟨trivial, trivial, ?_⟩
    cases method with
    | addRecoveryCode code =>
        obtain ⟨_, rfl⟩ := Envelope.addRecoverySlot_ok.mp made
        apply CrashLogic.meets_pure
        apply Presents.unlocks
        intro env' stored'
        rw [bumped_envelope_eq] at stored'
        obtain rfl := Option.some.inj stored'
        apply (bumped_same _ _).presents
        intro picked' held
        obtain ⟨secret, ok, admits⟩ := presents picked' held
        exact ⟨secret, ok, admits_appended admits issued (permitted env stored)⟩
    | addPasskey new =>
        obtain ⟨_, rfl⟩ := Envelope.addPasskeySlot_ok.mp made
        obtain ⟨room, fresh⟩ := permitted env stored
        apply CrashLogic.meets_pure
        apply Presents.unlocks
        intro env' stored'
        rw [bumped_envelope_eq] at stored'
        obtain rfl := Option.some.inj stored'
        apply (bumped_same _ _).presents
        intro picked' held
        obtain ⟨secret, ok, new_or_old⟩ := presents_registered presents (by rw [present]; rfl) held
        refine ⟨secret, ok, ?_⟩
        rcases new_or_old with rfl | admits
        · exact admits_new room fresh
        · exact admits_appended admits issued room
    | removeMethod kekId =>
        obtain ⟨_, _, _, rfl⟩ := Envelope.removeSlot_ok.mp made
        apply CrashLogic.meets_pure
        rcases permitted env stored with presented_stays | none_stays
        · apply Presents.unlocks
          intro env' stored'
          rw [bumped_envelope_eq] at stored'
          obtain rfl := Option.some.inj stored'
          apply (bumped_same _ _).presents
          intro picked' held
          obtain ⟨secret, ok, admits⟩ := presents picked' held
          exact ⟨secret, ok, admits_kept admits issued (presented_stays picked' secret ok)⟩
        · intro env' stored'
          rw [bumped_envelope_eq] at stored'
          obtain rfl := Option.some.inj stored'
          rintro ⟨secret, held, admits⟩
          have held' : Held { s with envelope := some _ } secret := (bumped_same _ _).held held
          exact absurd admits (not_admits_kept (none_stays secret held'))
    | rotateKey draws unlocked again =>
        apply meets_run_write_bind trivial
        apply meets_unlock trivial
        · intro env' secret dek' stored' presented' opened'
          apply Presents.unlocks
          intro env'' stored''
          obtain rfl := Option.some.inj (stored'.symm.trans stored'')
          have same : SameDevice s { ({ s with envelope := some next } : MetaStore).bumped next with
              epoch := none } := by
            have bumped := bumped_same { s with envelope := some next } next
            exact ⟨bumped.credId, bumped.deviceKey, bumped.deviceWrap, bumped.passkeys⟩
          have ok : s.presented again = .ok secret := (same.presented again).symm.trans presented'
          apply same.presents
          intro picked' held
          refine ⟨secret, ?_, dek', opened'⟩
          rcases presented_ok ok with all | held'
          · exact all picked'
          · exact (permitted picked' again held held').trans ok
        · exact fun _ => trivial
  · exact fun _ => trivial

theorem keeps_importBundle {bundle : BundleMeta} (permitted : allowed s (.importBundle bundle)) :
    Keeps (importBundle bundle results) s := by
  apply meets_run_ofExcept_bind
  · intro _ _
    apply meets_run_ofExcept_bind
    · intro _ _
      apply meets_run_write_bind trivial
      apply meets_run_bind fun _ t => t = { s with
        envelope := some bundle.envelope
        credId := if bundle.credId.isEmpty then s.credId else some bundle.credId }
      · unfold adoptCredId
        split
        · exact CrashLogic.meets_pure rfl
        · exact meets_run_write trivial rfl
      · rintro _ t rfl
        apply meets_run_write_bind trivial
        apply meets_run_write trivial
        rcases permitted with presents | none_admitted
        · apply Presents.unlocks
          intro env stored
          obtain rfl := Option.some.inj stored
          exact presents
        · intro env stored
          obtain rfl := Option.some.inj stored
          rintro ⟨secret, held, admits⟩
          exact absurd admits (none_admitted secret held)
    · exact fun _ _ => trivial
  · exact fun _ _ => trivial

theorem keeps_reset : Keeps reset s := by
  apply meets_run_write_bind trivial
  apply meets_run_write_bind trivial
  apply meets_run_write_bind trivial
  apply meets_run_write_bind trivial
  apply meets_run_write_bind trivial
  apply meets_run_write trivial
  exact fun env stored => nomatch stored

theorem Unlocks.step {next : MetaStore} {event : Request × PoolResults} (unlocks : Unlocks s)
    (permitted : allowed s event.1) (taken : step s event = some next) : Unlocks next := by
  have keeps : Keeps (event.1.call event.2) s := by
    obtain ⟨request, results⟩ := event
    cases request with
    | enroll new dek envSalt => exact keeps_enroll permitted
    | enrollConvenience key secret dek envSalt code => exact keeps_enrollConvenience
    | change method picked => exact keeps_change unlocks permitted
    | importBundle bundle => exact keeps_importBundle permitted
    | reset => exact keeps_reset
  unfold UnlockRecords.step at taken
  simp only at taken
  split at taken
  · next resolved =>
      obtain rfl := Option.some.inj taken
      exact keeps.ok resolved
  · cases taken

end Calls

/-- In every state that such calls lead to, `unlock()` presents a secret that the stored
envelope accepts, if this device holds one. -/
theorem unlock_presents (passkeys : List Passkey) {records : MetaStore}
    (reached : Runs.Reaches step (fun records event => allowed records event.1) (start passkeys) records) :
    Unlocks records :=
  reached.invariant Unlocks (fun _ stored => nomatch stored)
    fun _ _ _ unlocks permitted taken => unlocks.step permitted taken

/-- Two passkeys of a device, and a device secret. -/
def firstPasskey : Passkey := ⟨[1], List.replicate 16 7, sampleId_identified⟩
def secondPasskey : Passkey := ⟨[2], List.replicate 16 8, by decide⟩
def sampleSecret : List UInt8 := List.replicate 32 9

/-- A vault enrolled with one passkey, with a second one added. -/
theorem unlock_presents_sample : ∃ records, Runs.run step (start [])
      [(.enroll firstPasskey 1 5, .fine), (.change (.addPasskey secondPasskey) [], .fine)] =
        some records ∧ records.passkeys = [secondPasskey, firstPasskey] ∧ Unlocks records := by
  let enrolled := Envelope.createEnvelope 5 1 firstPasskey.prf
  let added := Envelope.rebuild enrolled 1
    (enrolled.body.slots ++ [Envelope.wrapSlot 1 (.prf secondPasskey.prf) 1 kindPasskey])
  let before : MetaStore := ⟨some enrolled, some 1, some [1], none, none, none, [firstPasskey]⟩
  let after : MetaStore := ⟨some added, some 2, some [1], none, none, none, [secondPasskey, firstPasskey]⟩
  have first : step (start []) (.enroll firstPasskey 1 5, .fine) = some before := by
    decide +kernel
  have second : step before (.change (.addPasskey secondPasskey) [], .fine) = some after := by
    decide +kernel
  have fresh : allowed before (.change (.addPasskey secondPasskey) []) := by
    change ∀ env ∈ before.envelope, env.body.slots.length < 255 ∧ ¬ SlotFor env.body.slots secondPasskey.prf
    decide +kernel
  have blank : allowed (start []) (.enroll firstPasskey 1 5) := rfl
  refine ⟨after, ?_, rfl, unlock_presents [] (.next (.next .start blank first) fresh second)⟩
  rw [Runs.run_cons, first, Option.bind_some, Runs.run_cons, second]
  rfl

/-- `enroll()` on a device that holds a convenience vault's device key: the new vault's
passkey is there, but `unlock()` presents the device secret. -/
theorem enroll_keeps_device_key : ∃ records, Runs.run step (start [])
      [(.enrollConvenience 3 sampleSecret 1 5 none, .fine), (.enroll firstPasskey 2 6, .fine)] =
        some records ∧
    ((unlockSecret [1]).run records).result = .ok sampleSecret ∧ ¬ Unlocks records := by
  have facts : ∃ records, Runs.run step (start [])
      [(.enrollConvenience 3 sampleSecret 1 5 none, .fine), (.enroll firstPasskey 2 6, .fine)] =
        some records ∧ (records.envelope = some (Envelope.createEnvelope 6 2 firstPasskey.prf) ∧
      records.prfOf [1] = some firstPasskey.prf ∧
      ((unlockSecret [1]).run records).result = .ok sampleSecret) := by
    apply Runs.exists_run
    decide +kernel
  obtain ⟨records, ran, stored, held, presents⟩ := facts
  refine ⟨records, ran, presents, ?_⟩
  intro unlocks
  obtain ⟨secret, ok, dek, opened⟩ := unlocks _ stored
    ⟨_, .inl ⟨_, held⟩, admits_created 6 kindPasskey⟩ [1] (by rw [held]; rfl)
  obtain rfl := Except.ok.inj (presents.symm.trans ok)
  have refused : (Envelope.createEnvelope 6 2 firstPasskey.prf).openWith (.prf sampleSecret) =
      .error .unlock := by
    decide +kernel
  rw [refused] at opened
  cases opened

end UnlockRecords

end Freehold
