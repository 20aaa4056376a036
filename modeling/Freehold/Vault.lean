import Freehold.Envelope
import Freehold.OpenMainDb
import Freehold.Rotation
import Freehold.Sync

set_option autoImplicit false

namespace Freehold

open CrashLogic

/-- What a bundle holds of the databases: the files with their ciphertext. -/
abbrev BundleFiles := List (FileName × Region)

/-- The little-endian number in the bytes. -/
def fromLe : List UInt8 → Nat
  | [] => 0
  | byte :: rest => byte.toNat + 256 * fromLe rest

/-- Sixteen bytes as a uuid. -/
def uuidOf (bytes : List UInt8) : Uuid := BitVec.ofNat 128 (fromLe bytes)

def OpfsSAHError.debug : OpfsSAHError → String
  | .generic text =>
      let shown := text.quote
      s!"Generic({shown})"

/-- The fields of an opened epoch token: uuid, database and envelope generation. -/
def parseEpoch (plain : List UInt8) : Except OpfsSAHError (Uuid × Nat × Nat) :=
  if plain.length < 24 then .error (.generic "epoch token truncated")
  else
    let envGen := if 32 ≤ plain.length then fromLe (slice plain 24 8) else 0
    .ok (uuidOf (plain.take 16), fromLe (slice plain 16 8), envGen)

/-- `apply_epoch`: raises the window and the floor a peer attests. -/
def Pool.applyEpoch (token : SealedBytes (List UInt8)) : PoolM (Nat × Nat) := do
  let pool ← Prog.get
  match token.openWith (.epochKey pool.dek) .epoch with
  | none => Prog.fail (.generic "epoch token failed authentication (wrong DEK or tampered)")
  | some plain => do
      let fields ← Prog.ofExcept (parseEpoch plain)
      Pool.anchorRecordFull fields.1 (some fields.2.1) (some fields.2.1) (some fields.2.1)
      return fields.2

/-- One device's vault: the pool in OPFS with what the worker keeps of it, the state of
the session, and the records in IndexedDB. -/
structure Vault where
  pool : Pool
  unlocked : Bool
  envelope : Option Envelope
  envFloor : Option Nat
  epoch : Option (SealedBytes (List UInt8))
  deviceSecret : Option (List UInt8)
  trustSeed : Option (SealedBytes (BitVec 256))
  syncForks : List (Fork BundleFiles)

/-- A program over both stores; each of its effects is one durable write. -/
abbrev VaultM (α : Type) := Prog Vault String α

namespace Vault

def withPool (pool : Pool) (vault : Vault) : Vault := { vault with pool := pool }

/-- Runs a pool program, its errors shown after `context`. -/
def onPool {α : Type} (context : String) (program : PoolM α) : VaultM α :=
  Prog.zoom Vault.pool withPool (fun e =>
    let shown := e.debug
    s!"{context}: {shown}") program

/-- `#envelope`: the stored envelope, unless it is below the floor. -/
def checkedEnvelope (vault : Vault) : Except String Envelope :=
  match vault.envelope with
  | none => .error "not enrolled on this device — call enroll() or importBundle() first"
  | some env =>
      let gen := env.generation
      match vault.envFloor with
      | none => .ok env
      | some floor =>
          if gen < floor then
            .error s!"envelope rollback detected (generation {gen} < floor {floor}) — refusing a stale envelope"
          else .ok env

/-- `#bumpFloor`. -/
def bumpFloor (env : Envelope) : VaultM Unit := do
  let vault ← Prog.get
  if vault.envFloor.all fun floor => floor < env.generation then
    Prog.effect fun vault => { vault with envFloor := some env.generation }

/-- `session_lock_inner`. -/
def sessionLock : VaultM Unit := Prog.modify fun vault => { vault with unlocked := false }

/-- The freshness step of `session_begin`: a stored token is applied, and the envelope
must not be older than it attests. -/
def checkEpoch (env : Envelope) (epoch : Option (SealedBytes (List UInt8))) : VaultM Unit :=
  match epoch with
  | none => return ()
  | some token => do
      let attested ← onPool "apply_epoch" (Pool.applyEpoch token)
      let have_ := env.generation
      let attestedEnvGen := attested.2
      if have_ < attestedEnvGen then
        Prog.fail s!"envelope rollback vs peer epoch (generation {have_} < attested {attestedEnvGen}) — refusing a stale key-envelope"

/-- `session_begin`: installs the pool under the DEK and recovers a staged rotation
before anything opens. -/
def sessionBegin (order : IterOrder) (dek : Dek) (env : Envelope)
    (epoch : Option (SealedBytes (List UInt8))) : VaultM Unit := do
  sessionLock
  Prog.modify fun vault => vault.withPool (vault.pool.reopen dek)
  let _ ← onPool "rotation recovery" (Pool.recoverRotation order)
  checkEpoch env epoch
  Prog.modify fun vault => { vault with unlocked := true }

/-- The DEK an unlock method unwraps, as `session_open` and `session_open_recovery` do. -/
def unwrap (env : Envelope) (method : Method) : Except String Dek :=
  match env.openWith method, method with
  | .ok dek, _ => .ok dek
  | .error _, .prf _ =>
      .error "unlock failed — wrong passkey, wrong PRF/UV state, or tampered envelope"
  | .error _, .recovery _ =>
      .error "recovery code did not unlock — wrong code or tampered envelope"

/-- Opens a session with the given method: `unlock()` with a passkey or the device key,
`unlockWithRecovery(code)` with a code. -/
def unlockWith (order : IterOrder) (method : Method) : VaultM Unit := do
  let vault ← Prog.get
  let env ← Prog.ofExcept vault.checkedEnvelope
  let dek ← Prog.ofExcept (unwrap env method)
  sessionBegin order dek env vault.epoch

/-- `unlock()`: the device key is presented if there is one, else the passkey's PRF. -/
def unlock (order : IterOrder) (prf : List UInt8) : VaultM Unit := do
  let vault ← Prog.get
  unlockWith order (.prf (vault.deviceSecret.getD prf))

/-- `lock()`. -/
def lock : VaultM Unit := sessionLock

/-- What a rotation draws at random. -/
structure Draws where
  newDek : Dek
  envSalt : BitVec 128
  code : List Char

/-- `rotate_dek`: stages every database under the new DEK and locks the session. -/
def rotateDek (order : IterOrder) (draws : Draws) (prf : List UInt8) (current : Envelope) :
    VaultM Envelope := do
  let vault ← Prog.get
  match current.openWith (.prf prf) with
  | .error _ => Prog.fail "rotate: presenting passkey does not open the current envelope"
  | .ok _ =>
      match Envelope.rotateEnvelope current draws.newDek prf draws.envSalt draws.code with
      | .error e =>
          let shown := e.debug
          Prog.fail s!"rotate: rotate_envelope: {shown}"
      | .ok next => do
          onPool "rotate: stage" (Pool.stageRotation draws.newDek (Pool.databases order vault.pool)
            current.generation next.generation)
          sessionLock
          return next

/-- `rotateKey()`: stage, commit the envelope, raise the floor, drop the epoch, unlock. -/
def rotateKey (order : IterOrder) (draws : Draws) (prf : List UInt8) : VaultM (List Char) := do
  let vault ← Prog.get
  if vault.unlocked then
    let current ← Prog.ofExcept vault.checkedEnvelope
    let next ← rotateDek order draws prf current
    Prog.effect fun vault => { vault with envelope := some next }
    bumpFloor next
    Prog.effect fun vault => { vault with epoch := none }
    unlock order prf
    return draws.code
  else Prog.fail "vault is locked — call unlock() before rotateKey()"

end Vault

end Freehold
