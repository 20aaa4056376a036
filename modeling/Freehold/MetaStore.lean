import Freehold.EnvelopeHistory
import Freehold.Vault
import Freehold.Lib.Async

set_option autoImplicit false

namespace Freehold

open Async

abbrev CredId := List UInt8

/-- A resident passkey, by its id and the PRF of the fixed salt. -/
structure Passkey where
  credId : CredId
  prf : List UInt8
  identified : credId ≠ []
  deriving DecidableEq

theorem sampleId_identified : ([1] : CredId) ≠ [] := List.cons_ne_nil _ _

/-- A non-extractable WebCrypto key, stored by reference. -/
abbrev DeviceKey := Nat

/-- The IndexedDB records that say how the vault is unlocked, and the passkeys the
device can assert, the newest first. -/
structure MetaStore where
  envelope : Option Envelope
  envFloor : Option Nat
  credId : Option CredId
  epoch : Option (SealedBytes (List UInt8))
  deviceKey : Option DeviceKey
  deviceWrap : Option (Aead.Sealed DeviceKey Unit (List UInt8))
  passkeys : List Passkey
  deriving DecidableEq

/-- What the authenticator evaluates for a credential id. -/
def MetaStore.prfOf (records : MetaStore) (credId : CredId) : Option (List UInt8) :=
  (records.passkeys.find? fun passkey => passkey.credId = credId).map fun passkey => passkey.prf

/-- One method of the SDK; every access is an await of its own. A worker call that
touches no record is none. -/
abbrev MetaM (α : Type) := Call MetaStore String α

namespace Worker

/-- The presented PRF must open the envelope, or the operation fails with `refused`. -/
def authorize (refused : String) (env : Envelope) (prf : List UInt8) : Except String Dek :=
  match env.openWith (.prf prf) with
  | .ok dek => .ok dek
  | .error _ => .error refused

/-- Shows the error of an envelope operation after `context`. -/
def shown (context : String) (note : String) (result : Except EnvelopeError Envelope) :
    Except String Envelope :=
  result.mapError fun e =>
    let text := e.debug
    s!"{context}: {text}{note}"

/-- `enroll_inner`; `pool` is what initializing the pool comes to. -/
def enroll (prf : List UInt8) (dek : Dek) (envSalt : BitVec 128) (pool : Except String Unit) :
    Except String Envelope := do
  if prf.length < 16 then
    throw "PRF output too short — is the `prf` extension actually supported here?"
  pool
  return Envelope.createEnvelope envSalt dek prf

/-- `enroll_device_inner`. -/
def enrollDevice (secret : List UInt8) (dek : Dek) (envSalt : BitVec 128) (pool : Except String Unit) :
    Except String Envelope := do
  if secret.length < 16 then throw "device secret too short — expected a 32-byte random secret"
  pool
  return Envelope.createDeviceEnvelope envSalt dek secret

/-- `add_recovery`. -/
def addRecovery (existingPrf : List UInt8) (code : List Char) (blob : Envelope) :
    Except String Envelope := do
  let dek ← authorize "current passkey did not unlock — cannot add a method" blob existingPrf
  shown "add_recovery_slot" "" (blob.addRecoverySlot dek code)

/-- `add_passkey`. -/
def addPasskey (existingPrf newPrf : List UInt8) (blob : Envelope) : Except String Envelope := do
  let dek ← authorize "current passkey did not unlock — cannot add a method" blob existingPrf
  shown "add_passkey_slot" "" (blob.addPasskeySlot dek newPrf)

/-- `remove_method`. -/
def removeMethod (existingPrf : List UInt8) (kekId : UInt8) (blob : Envelope) :
    Except String Envelope := do
  let dek ← authorize "current passkey did not unlock — cannot revoke a method" blob existingPrf
  shown "remove_slot" " (cannot remove the last method)" (blob.removeSlot dek kekId)

/-- `rotate_dek_inner`; `stage` is what staging the pool and locking the session come to. -/
def rotateDek (prf : List UInt8) (blob : Envelope) (draws : Vault.Draws) (stage : Except String Unit) :
    Except String Envelope := do
  let _ ← authorize "rotate: presenting passkey does not open the current envelope" blob prf
  let next ← shown "rotate: rotate_envelope" ""
    (blob.rotateEnvelope draws.newDek prf draws.envSalt draws.code)
  stage
  return next

end Worker

/-- The results of the worker's pool side of a call: its `session_lock`, its
`install`, `import_bundle` or staging, and its `session_open` once the DEK is unwrapped. -/
structure PoolResults where
  lock : Except String Unit
  pool : Except String Unit
  session : Except String Unit

/-- Nothing fails. -/
def PoolResults.fine : PoolResults := ⟨.ok (), .ok (), .ok ()⟩

/-- What a bundle carries beside the database files; its credential id may be empty. -/
structure BundleMeta where
  envelope : Envelope
  credId : CredId
  epoch : Option (SealedBytes (List UInt8))
  deriving DecidableEq

namespace MetaStore

/-- The floor check of `#envelope`. -/
def checkFloor (env : Envelope) (envFloor : Option Nat) : Except String Envelope :=
  match envFloor with
  | none => .ok env
  | some floor =>
      let gen := env.generation
      if gen < floor then
        .error s!"envelope rollback detected (generation {gen} < floor {floor}) — refusing a stale envelope"
      else .ok env

/-- Fails unless there is an envelope. -/
def enrolled (stored : Option Envelope) : Except String Envelope :=
  match stored with
  | none => .error "not enrolled on this device — call enroll() or importBundle() first"
  | some env => .ok env

/-- `#envelope`. -/
def currentEnvelope : MetaM Envelope := do
  let stored ← Call.read MetaStore.envelope
  let env ← Call.ofExcept (enrolled stored)
  let floor ← Call.read MetaStore.envFloor
  Call.ofExcept (checkFloor env floor)

/-- `#bumpFloor`. -/
def bumpFloor (env : Envelope) : MetaM Unit := do
  let floor ← Call.read MetaStore.envFloor
  if floor.all fun floor => floor < env.generation then
    Call.write fun records => { records with envFloor := some env.generation }
  else pure ()

/-- The passkey that `assertPrf` asks for: any resident one, `picked` at the prompt,
unless an id is given. -/
def askedFor (credId : Option CredId) (picked : CredId) : CredId :=
  match credId with
  | some id => if id.isEmpty then picked else id
  | none => picked

/-- `assertPrf` with what the authenticator evaluates. -/
def evaluated (prf : Option (List UInt8)) : Except String (List UInt8) :=
  match prf with
  | some prf => .ok prf
  | none => .error "NotAllowedError"

/-- `#prf`: the stored credential is asserted. -/
def presentPrf (picked : CredId) : MetaM (List UInt8) := do
  let credId ← Call.read MetaStore.credId
  let found ← Call.read fun records => records.prfOf (askedFor credId picked)
  Call.ofExcept (evaluated found)

/-- `registerPasskey`: the new credential and its PRF, the same at create and at get time. -/
def registerPasskey (new : Passkey) : MetaM Unit :=
  Call.write fun records => { records with passkeys := new :: records.passkeys }

/-- The device secret under its wrap, if this is a convenience vault. -/
def unwrapDevice (key : Option DeviceKey) (wrap : Option (Aead.Sealed DeviceKey Unit (List UInt8))) :
    Except String (Option (List UInt8)) :=
  match key, wrap with
  | some key, some wrap =>
      match wrap.openWith key () with
      | some secret => .ok (some secret)
      | none => .error "OperationError"
  | _, _ => .ok none

/-- `#deviceSecret`. -/
def deviceSecret : MetaM (Option (List UInt8)) := do
  let key ← Call.read MetaStore.deviceKey
  let wrap ← Call.read MetaStore.deviceWrap
  Call.ofExcept (unwrapDevice key wrap)

/-- The secret that `unlock()` presents: the device secret if there is one. -/
def unlockSecret (picked : CredId) : MetaM (List UInt8) := do
  let device ← deviceSecret
  match device with
  | some secret => return secret
  | none => presentPrf picked

/-- `unlock()`. -/
def unlock (picked : CredId) (session : Except String Unit) : MetaM Unit := do
  let env ← currentEnvelope
  let _ ← Call.read MetaStore.epoch
  let secret ← unlockSecret picked
  let _ ← Call.ofExcept (Vault.unwrap env (.prf secret))
  Call.ofExcept session

/-- `enroll()`. -/
def enroll (new : Passkey) (dek : Dek) (envSalt : BitVec 128) (results : PoolResults) : MetaM Unit := do
  Call.ofExcept results.lock
  registerPasskey new
  let envelope ← Call.ofExcept (Worker.enroll new.prf dek envSalt results.pool)
  Call.write fun records => { records with envelope := some envelope }
  Call.write fun records => { records with credId := some new.credId }
  Call.write fun records => { records with epoch := none }
  Call.write fun records => { records with envFloor := none }
  bumpFloor envelope
  let _ ← Call.ofExcept (Vault.unwrap envelope (.prf new.prf))
  Call.ofExcept results.session

/-- The device secret that authorizes the backup: `S2`, read as a buffer. -/
def backupSecret : MetaM (List UInt8) := do
  let device ← deviceSecret
  Call.ofExcept (match device with
    | some secret => .ok secret
    | none => .error "Cannot read properties of null (reading 'buffer')")

/-- `enrollConvenience()`; without a backup there is no `code`. -/
def enrollConvenience (key : DeviceKey) (secret : List UInt8) (dek : Dek) (envSalt : BitVec 128)
    (code : Option (List Char)) (results : PoolResults) : MetaM Unit := do
  Call.ofExcept results.lock
  let envelope ← Call.ofExcept (Worker.enrollDevice secret dek envSalt results.pool)
  Call.write fun records => { records with deviceKey := some key }
  Call.write fun records => { records with deviceWrap := some (.sealed key () secret) }
  Call.write fun records => { records with envelope := some envelope }
  Call.write fun records => { records with credId := none }
  Call.write fun records => { records with epoch := none }
  Call.write fun records => { records with envFloor := none }
  bumpFloor envelope
  match code with
  | none => pure ()
  | some code => do
      let secret ← backupSecret
      let envelope ← Call.ofExcept (Worker.addRecovery secret code envelope)
      Call.write fun records => { records with envelope := some envelope }
      bumpFloor envelope

/-- What the methods share that change the envelope `#envelope` has given them, once the
stored credential authorizes it: a passkey may be registered, and what the worker makes
of the envelope is stored before the floor is raised to it. -/
def replaceEnvelope (new : Option Passkey) (worker : List UInt8 → Envelope → Except String Envelope)
    (envelope : Envelope) (prf : List UInt8) : MetaM Unit := do
  match new with
  | some new => registerPasskey new
  | none => pure ()
  let next ← Call.ofExcept (worker prf envelope)
  Call.write fun records => { records with envelope := some next }
  bumpFloor next

/-- `addRecoveryCode(code)` past `#prf`, with the code given or generated. -/
def addRecoveryCode (code : List Char) : Envelope → List UInt8 → MetaM Unit :=
  replaceEnvelope none fun prf envelope => Worker.addRecovery prf code envelope

/-- `addPasskey()` past its assertion. -/
def addPasskey (new : Passkey) : Envelope → List UInt8 → MetaM Unit :=
  replaceEnvelope (some new) fun existing envelope => Worker.addPasskey existing new.prf envelope

/-- `removeMethod(kekId)` past `#prf`. -/
def removeMethod (kekId : UInt8) : Envelope → List UInt8 → MetaM Unit :=
  replaceEnvelope none fun prf envelope => Worker.removeMethod prf kekId envelope

/-- `rotateKey()` past `#prf`; its `unlock()` may prompt `again`. -/
def rotateKey (draws : Vault.Draws) (again : CredId) (results : PoolResults) (current : Envelope)
    (prf : List UInt8) : MetaM Unit := do
  replaceEnvelope none (fun prf current => Worker.rotateDek prf current draws results.pool) current prf
  Call.write fun records => { records with epoch := none }
  unlock again results.session

/-- The bundle's credential id replaces the stored one unless it is empty. -/
def adoptCredId (credId : CredId) : MetaM Unit :=
  if credId.isEmpty then pure ()
  else Call.write fun records => { records with credId := some credId }

/-- `importBundle(bytes)`. -/
def importBundle (bundle : BundleMeta) (results : PoolResults) : MetaM Unit := do
  Call.ofExcept results.lock
  Call.ofExcept results.pool
  Call.write fun records => { records with envelope := some bundle.envelope }
  adoptCredId bundle.credId
  Call.write fun records => { records with epoch := bundle.epoch }
  Call.write fun records => { records with envFloor := some bundle.envelope.generation }

/-- `reset()`, as far as these records go. -/
def reset : MetaM Unit := do
  Call.write fun records => { records with envelope := none }
  Call.write fun records => { records with credId := none }
  Call.write fun records => { records with epoch := none }
  Call.write fun records => { records with envFloor := none }
  Call.write fun records => { records with deviceKey := none }
  Call.write fun records => { records with deviceWrap := none }

deriving instance DecidableEq for Vault.Draws

/-- The methods that change the stored envelope, with what they are given and draw. -/
inductive Change where
  | addRecoveryCode (code : List Char)
  | addPasskey (new : Passkey)
  | removeMethod (kekId : UInt8)
  | rotateKey (draws : Vault.Draws) (unlocked : Bool) (again : CredId)
  deriving DecidableEq

/-- What the method checks before it reads a record. -/
def Change.guard : Change → Except String Unit
  | .rotateKey _ unlocked _ =>
      if unlocked then .ok () else .error "vault is locked — call unlock() before rotateKey()"
  | _ => .ok ()

/-- The operation on the envelope that `prf` authorizes. -/
def Change.mutation (prf : List UInt8) : Change → Mutation
  | .addRecoveryCode code => .addRecoverySlot code
  | .addPasskey new => .addPasskeySlot new.prf
  | .removeMethod kekId => .removeSlot kekId
  | .rotateKey draws _ _ => .rotateEnvelope draws.newDek prf draws.envSalt draws.code

/-- What each of the methods begins with: `#envelope`, then `#prf`. -/
def Change.authorized (picked : CredId) (method : Change) : MetaM (Envelope × List UInt8) := do
  Call.ofExcept method.guard
  let envelope ← currentEnvelope
  let prf ← presentPrf picked
  return (envelope, prf)

/-- The method past that. -/
def Change.perform (results : PoolResults) : Change → Envelope → List UInt8 → MetaM Unit
  | .addRecoveryCode code => MetaStore.addRecoveryCode code
  | .addPasskey new => MetaStore.addPasskey new
  | .removeMethod kekId => MetaStore.removeMethod kekId
  | .rotateKey draws _ again => MetaStore.rotateKey draws again results

/-- The calls on the records, with what the user, the authenticator and the random
source give them. -/
inductive Request where
  | enroll (new : Passkey) (dek : Dek) (envSalt : BitVec 128)
  | enrollConvenience (key : DeviceKey) (secret : List UInt8) (dek : Dek) (envSalt : BitVec 128)
      (code : Option (List Char))
  | change (method : Change) (picked : CredId)
  | importBundle (bundle : BundleMeta)
  | reset

/-- The whole method. -/
def Request.call (results : PoolResults) : Request → MetaM Unit
  | .enroll new dek envSalt => MetaStore.enroll new dek envSalt results
  | .enrollConvenience key secret dek envSalt code =>
      MetaStore.enrollConvenience key secret dek envSalt code results
  | .change method picked => do
      let authorized ← method.authorized picked
      method.perform results authorized.1 authorized.2
  | .importBundle bundle => MetaStore.importBundle bundle results
  | .reset => MetaStore.reset

/-- The records once `#bumpFloor` has raised the floor. -/
def bumped (s : MetaStore) (env : Envelope) : MetaStore :=
  if s.envFloor.all fun floor => floor < env.generation then { s with envFloor := some env.generation }
  else s

/-- The authenticator holds one more passkey. -/
def registered (s : MetaStore) : Option Passkey → MetaStore
  | some new => { s with passkeys := new :: s.passkeys }
  | none => s

/-- What `unlock()` presents. -/
def presented (s : MetaStore) (picked : CredId) : Except String (List UInt8) :=
  match unwrapDevice s.deviceKey s.deviceWrap with
  | .error e => .error e
  | .ok (some secret) => .ok secret
  | .ok none => evaluated (s.prfOf (askedFor s.credId picked))

/-- The passkey that the method registers. -/
def Change.new : Change → Option Passkey
  | .addPasskey new => some new
  | _ => none

/-- The envelope operation of the worker that the method asks for. -/
def Change.worker (results : PoolResults) : Change → List UInt8 → Envelope → Except String Envelope
  | .addRecoveryCode code => fun prf env => Worker.addRecovery prf code env
  | .addPasskey new => fun prf env => Worker.addPasskey prf new.prf env
  | .removeMethod kekId => fun prf env => Worker.removeMethod prf kekId env
  | .rotateKey draws _ _ => fun prf env => Worker.rotateDek prf env draws results.pool

/-- What the method does once the floor is raised. -/
def Change.finish (results : PoolResults) : Change → MetaM Unit
  | .rotateKey _ _ again => do
      Call.write fun records => { records with epoch := none }
      unlock again results.session
  | _ => pure ()

theorem checkFloor_ok {env found : Envelope} {envFloor : Option Nat} :
    checkFloor env envFloor = .ok found ↔
      found = env ∧ ∀ floor, envFloor = some floor → floor ≤ env.generation := by
  unfold checkFloor
  cases envFloor with
  | none =>
      rw [Except.ok.injEq, eq_comm]
      exact ⟨fun same => ⟨same, fun _ absent => by cases absent⟩, And.left⟩
  | some floor =>
      simp only [Option.some.injEq, forall_eq']
      split
      · exact iff_of_false (fun ok => by cases ok) (by omega)
      · rw [Except.ok.injEq, eq_comm]
        exact ⟨fun same => ⟨same, by omega⟩, And.left⟩

/-- What `#envelope` returns. -/
theorem currentEnvelope_ok {s : MetaStore} {env : Envelope} :
    (currentEnvelope.run s).result = .ok env ↔
      s.envelope = some env ∧ ∀ floor, s.envFloor = some floor → floor ≤ env.generation := by
  have result : (currentEnvelope.run s).result =
      (enrolled s.envelope >>= fun env => checkFloor env s.envFloor) := by
    change (Call.run (Call.ofExcept (enrolled s.envelope) >>= fun env => do
      let floor ← Call.read MetaStore.envFloor
      Call.ofExcept (checkFloor env floor)) s).result = _
    cases enrolled s.envelope with
    | error e => rfl
    | ok env =>
        change (CrashLogic.Prog.ofExcept (checkFloor env s.envFloor) s).result = checkFloor env s.envFloor
        cases checkFloor env s.envFloor <;> rfl
  rw [result]
  cases s.envelope with
  | none => exact iff_of_false (fun ok => by cases ok) fun present => by cases present.1
  | some stored =>
      change checkFloor stored s.envFloor = .ok env ↔ _
      rw [checkFloor_ok, Option.some.injEq, eq_comm (a := env)]
      constructor
      · rintro ⟨rfl, above⟩
        exact ⟨rfl, above⟩
      · rintro ⟨rfl, above⟩
        exact ⟨rfl, above⟩

theorem authorize_ok {refused : String} {env : Envelope} {prf : List UInt8} {dek : Dek} :
    Worker.authorize refused env prf = .ok dek ↔ env.openWith (.prf prf) = .ok dek := by
  unfold Worker.authorize
  cases env.openWith (.prf prf) with
  | ok found => rw [Except.ok.injEq, Except.ok.injEq]
  | error e => exact iff_of_false (fun ok => by cases ok) fun ok => by cases ok

theorem shown_ok {context note : String} {result : Except EnvelopeError Envelope} {env : Envelope} :
    Worker.shown context note result = .ok env ↔ result = .ok env := by
  cases result with
  | ok found =>
      change Except.ok found = .ok env ↔ _
      rw [Except.ok.injEq, Except.ok.injEq]
  | error e => exact iff_of_false (fun ok => by cases ok) fun ok => by cases ok

theorem unwrap_ok {env : Envelope} {method : Method} {dek : Dek} :
    Vault.unwrap env method = .ok dek ↔ env.openWith method = .ok dek := by
  unfold Vault.unwrap
  cases env.openWith method with
  | ok found => rw [Except.ok.injEq, Except.ok.injEq]
  | error e => cases method <;> exact iff_of_false (fun ok => by cases ok) fun ok => by cases ok

/-- An operation that authorizes first and mutates then succeeds as the mutation does. -/
theorem authorized_ok {refused context note : String} {env next : Envelope} {prf : List UInt8}
    {mutate : Dek → Except EnvelopeError Envelope}
    (ok : (Worker.authorize refused env prf >>= fun dek => Worker.shown context note (mutate dek)) =
      .ok next) : ∃ dek, env.openWith (.prf prf) = .ok dek ∧ mutate dek = .ok next := by
  cases opened : Worker.authorize refused env prf with
  | error e =>
      rw [opened] at ok
      cases ok
  | ok dek =>
      rw [opened] at ok
      exact ⟨dek, authorize_ok.mp opened, shown_ok.mp ok⟩

theorem enroll_ok {prf : List UInt8} {dek : Dek} {envSalt : BitVec 128} {pool : Except String Unit}
    {env : Envelope} (ok : Worker.enroll prf dek envSalt pool = .ok env) :
    env = Envelope.createEnvelope envSalt dek prf := by
  unfold Worker.enroll at ok
  by_cases short : prf.length < 16
  · rw [if_pos short] at ok
    cases ok
  · rw [if_neg short] at ok
    cases pool <;> cases ok
    rfl

theorem enrollDevice_ok {secret : List UInt8} {dek : Dek} {envSalt : BitVec 128}
    {pool : Except String Unit} {env : Envelope}
    (ok : Worker.enrollDevice secret dek envSalt pool = .ok env) :
    env = Envelope.createDeviceEnvelope envSalt dek secret := by
  unfold Worker.enrollDevice at ok
  by_cases short : secret.length < 16
  · rw [if_pos short] at ok
    cases ok
  · rw [if_neg short] at ok
    cases pool <;> cases ok
    rfl

theorem rotateDek_ok {prf : List UInt8} {env next : Envelope} {draws : Vault.Draws}
    {stage : Except String Unit} (ok : Worker.rotateDek prf env draws stage = .ok next) :
    ∃ dek, env.openWith (.prf prf) = .ok dek ∧
      env.rotateEnvelope draws.newDek prf draws.envSalt draws.code = .ok next := by
  unfold Worker.rotateDek at ok
  cases opened : Worker.authorize "rotate: presenting passkey does not open the current envelope" env prf with
  | error e =>
      rw [opened] at ok
      cases ok
  | ok dek =>
      rw [opened] at ok
      refine ⟨dek, authorize_ok.mp opened, ?_⟩
      cases made : env.rotateEnvelope draws.newDek prf draws.envSalt draws.code with
      | error e =>
          rw [made] at ok
          cases ok
      | ok rotated =>
          rw [made] at ok
          cases stage <;> cases ok
          rfl

theorem worker_ok {method : Change} {results : PoolResults} {prf : List UInt8} {env next : Envelope}
    (made : method.worker results prf env = .ok next) :
    ∃ dek, env.openWith (.prf prf) = .ok dek ∧ (method.mutation prf).apply env dek = .ok next := by
  cases method with
  | addRecoveryCode code => exact authorized_ok made
  | addPasskey new => exact authorized_ok made
  | removeMethod kekId => exact authorized_ok made
  | rotateKey draws unlocked again => exact rotateDek_ok made

/-- Every method replaces the envelope and then finishes. -/
theorem perform_eq (method : Change) (results : PoolResults) (env : Envelope) (prf : List UInt8) :
    method.perform results env prf =
      replaceEnvelope method.new (method.worker results) env prf >>= fun _ => method.finish results := by
  cases method with
  | rotateKey draws unlocked again => rfl
  | addRecoveryCode code => exact (bind_pure _).symm
  | addPasskey new => exact (bind_pure _).symm
  | removeMethod kekId => exact (bind_pure _).symm

theorem evaluated_ok {found : Option (List UInt8)} {prf : List UInt8} :
    evaluated found = .ok prf ↔ found = some prf := by
  cases found with
  | none => exact iff_of_false (fun ok => by cases ok) fun present => by cases present
  | some prf' => rw [evaluated, Except.ok.injEq, Option.some.injEq]

section Runs

variable {α : Type} {s : MetaStore} {crash : MetaStore → Prop} {post : α → MetaStore → Prop}
  {fail : String → MetaStore → Prop} {picked : CredId}

theorem meets_currentEnvelope_bind {next : Envelope → MetaM α} (before : crash s)
    (found : ∀ env, s.envelope = some env → checkFloor env s.envFloor = .ok env →
      ((next env).run s).Meets crash post fail) (refused : ∀ e, fail e s) :
    ((currentEnvelope >>= next).run s).Meets crash post fail := by
  apply meets_run_bind (fun env t => (s.envelope = some env ∧ checkFloor env s.envFloor = .ok env) ∧ t = s)
  · apply meets_run_read_bind before
    apply meets_run_ofExcept_bind
    · intro env stored
      have present : s.envelope = some env := by
        unfold enrolled at stored
        split at stored
        · cases stored
        · next env' same => rw [same, Except.ok.inj stored]
      apply meets_run_read_bind before
      apply CrashLogic.meets_ofExcept
      · intro env' checked
        have same : env' = env := by
          unfold checkFloor at checked
          split at checked
          · exact (Except.ok.inj checked).symm
          · simp only at checked
            split at checked
            · cases checked
            · exact (Except.ok.inj checked).symm
        subst same
        exact ⟨⟨present, checked⟩, rfl⟩
      · exact fun e _ => refused e
    · exact fun e _ => refused e
  · rintro env t ⟨⟨stored, checked⟩, rfl⟩
    exact found env stored checked

theorem meets_authorized_bind {method : Change} {next : Envelope × List UInt8 → MetaM α}
    (before : crash s)
    (found : ∀ env prf, s.envelope = some env → s.prfOf (askedFor s.credId picked) = some prf →
      ((next (env, prf)).run s).Meets crash post fail) (refused : ∀ e, fail e s) :
    ((method.authorized picked >>= next).run s).Meets crash post fail := by
  apply meets_run_bind (fun both t =>
    (s.envelope = some both.1 ∧ s.prfOf (askedFor s.credId picked) = some both.2) ∧ t = s)
  · apply meets_run_ofExcept_bind
    · intro _ _
      apply meets_currentEnvelope_bind before
      · intro env stored _
        apply meets_run_bind (fun prf t => s.prfOf (askedFor s.credId picked) = some prf ∧ t = s)
        · apply meets_run_read_bind before
          apply meets_run_read_bind before
          exact CrashLogic.meets_ofExcept (fun prf ok => ⟨evaluated_ok.mp ok, rfl⟩) fun e _ => refused e
        · rintro prf t ⟨present, rfl⟩
          exact CrashLogic.meets_pure ⟨⟨stored, present⟩, rfl⟩
      · exact refused
    · exact fun e _ => refused e
  · rintro ⟨env, prf⟩ t ⟨⟨stored, present⟩, rfl⟩
    exact found env prf stored present

theorem meets_bumpFloor {post : Unit → MetaStore → Prop} {env : Envelope} (before : crash s)
    (holds : post () (s.bumped env)) : ((bumpFloor env).run s).Meets crash post fail := by
  apply meets_run_read_bind before
  unfold bumped at holds
  split
  · next lower =>
      rw [if_pos lower] at holds
      exact meets_run_write before holds
  · next high =>
      rw [if_neg high] at holds
      exact CrashLogic.meets_pure holds

theorem meets_deviceSecret {post : Option (List UInt8) → MetaStore → Prop} (before : crash s)
    (unwraps : ∀ device, unwrapDevice s.deviceKey s.deviceWrap = .ok device → post device s)
    (refused : ∀ e, unwrapDevice s.deviceKey s.deviceWrap = .error e → fail e s) :
    (deviceSecret.run s).Meets crash post fail := by
  apply meets_run_read_bind before
  apply meets_run_read_bind before
  exact CrashLogic.meets_ofExcept unwraps refused

theorem meets_unlockSecret {post : List UInt8 → MetaStore → Prop} (before : crash s)
    (presents : ∀ secret, s.presented picked = .ok secret → post secret s)
    (refused : ∀ e, s.presented picked = .error e → fail e s) :
    ((unlockSecret picked).run s).Meets crash post fail := by
  unfold presented at presents refused
  apply meets_run_bind (fun device t => unwrapDevice s.deviceKey s.deviceWrap = .ok device ∧ t = s)
  · apply meets_deviceSecret before
    · exact fun device ok => ⟨ok, rfl⟩
    · intro e failed
      rw [failed] at refused
      exact refused e rfl
  · rintro device t ⟨device_ok, rfl⟩
    rw [device_ok] at presents refused
    cases device with
    | some secret => exact CrashLogic.meets_pure (presents secret rfl)
    | none =>
        apply meets_run_read_bind before
        apply meets_run_read_bind before
        exact CrashLogic.meets_ofExcept presents refused

theorem unlockSecret_result : ((unlockSecret picked).run s).result = s.presented picked := by
  have met : ((unlockSecret picked).run s).Meets (fun _ => True)
      (fun secret _ => s.presented picked = .ok secret) fun e _ => s.presented picked = .error e :=
    meets_unlockSecret trivial (fun _ ok => ok) fun _ failed => failed
  cases ended : ((unlockSecret picked).run s).result with
  | ok secret => exact (met.ok ended).symm
  | error e => exact (met.error ended).symm

theorem meets_unlock {post : Unit → MetaStore → Prop} {session : Except String Unit} (before : crash s)
    (opens : ∀ env secret dek, s.envelope = some env → s.presented picked = .ok secret →
      env.openWith (.prf secret) = .ok dek → post () s) (refused : ∀ e, fail e s) :
    ((unlock picked session).run s).Meets crash post fail := by
  apply meets_currentEnvelope_bind before
  · intro env stored _
    apply meets_run_read_bind before
    apply meets_run_bind (fun secret t => s.presented picked = .ok secret ∧ t = s)
    · exact meets_unlockSecret before (fun _ ok => ⟨ok, rfl⟩) fun e _ => refused e
    · rintro secret t ⟨presents, rfl⟩
      apply meets_run_ofExcept_bind
      · intro dek ok
        apply CrashLogic.meets_ofExcept
        · exact fun _ _ => opens env secret dek stored presents (unwrap_ok.mp ok)
        · exact fun e _ => refused e
      · exact fun e _ => refused e
  · exact refused

theorem meets_replaceEnvelope {post : Unit → MetaStore → Prop} {new : Option Passkey}
    {worker : List UInt8 → Envelope → Except String Envelope} {env : Envelope} {prf : List UInt8}
    (before : crash s) (refused : ∀ e, fail e (s.registered new))
    (stores : ∀ next, worker prf env = .ok next → crash (s.registered new) ∧
      crash { s.registered new with envelope := some next } ∧
      post () (({ s.registered new with envelope := some next } : MetaStore).bumped next)) :
    ((replaceEnvelope new worker env prf).run s).Meets crash post fail := by
  have stored : ((do
      let next ← Call.ofExcept (worker prf env)
      Call.write fun records => { records with envelope := some next }
      bumpFloor next : MetaM Unit).run (s.registered new)).Meets crash post fail := by
    apply meets_run_ofExcept_bind
    · intro next made
      obtain ⟨after, between, holds⟩ := stores next made
      exact meets_run_write_bind after (meets_bumpFloor between holds)
    · exact fun e _ => refused e
  cases new with
  | none => exact stored
  | some new => exact meets_run_write_bind before stored

/-- What a method does with the authorized envelope: it fails before it stores one, or
stores what its operation makes of the given one. -/
theorem meets_perform {post : Unit → MetaStore → Prop} {method : Change} {results : PoolResults}
    {env : Envelope} {prf : List UInt8} (before : crash s)
    (refused : ∀ e, fail e (s.registered method.new))
    (stores : ∀ dek next, env.openWith (.prf prf) = .ok dek →
      (method.mutation prf).apply env dek = .ok next → crash (s.registered method.new) ∧
      crash { s.registered method.new with envelope := some next } ∧
      ((method.finish results).run (({ s.registered method.new with envelope := some next } :
        MetaStore).bumped next)).Meets crash post fail) :
    ((method.perform results env prf).run s).Meets crash post fail := by
  rw [perform_eq]
  apply meets_run_bind (fun _ t => ((method.finish results).run t).Meets crash post fail)
  · apply meets_replaceEnvelope before refused
    intro next made
    obtain ⟨dek, opened, ok⟩ := worker_ok made
    exact stores dek next opened ok
  · exact fun _ _ ends => ends

end Runs

end MetaStore

end Freehold
