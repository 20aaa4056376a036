import Freehold.Bundle
import Freehold.Lib.Runs

set_option autoImplicit false

namespace Freehold

open CrashLogic

/-- `vault_trust_public_key`: the public key of a trust seed, taken as collision free. -/
structure TrustKey where
  seed : BitVec 256
  deriving DecidableEq

/-- `trust_seed`: the seed in the sealed blob, or a random one where there is none yet. -/
def Pool.trustSeed (pool : Pool) (stored : Option (SealedBytes (BitVec 256))) (random : BitVec 256) :
    Except OpfsSAHError (BitVec 256 × SealedBytes (BitVec 256)) :=
  match stored with
  | none | some (.junk 0) => .ok (random, .sealed (.trustSealKey pool.dek) .trustSeed random)
  | some blob =>
      match blob.openWith (.trustSealKey pool.dek) .trustSeed with
      | some seed => .ok (seed, blob)
      | none => .error (.generic "trust seed unseal: Open")

namespace Vault

/-- `issueDeviceCert`, down to the trust key of the certificate. -/
def issueDeviceCert (devicePubkey : List UInt8) (random : BitVec 256) : VaultM TrustKey := do
  let vault ← Prog.get
  if vault.unlocked then
    if devicePubkey.length = 32 then
      let issued ← Prog.ofExcept ((vault.pool.trustSeed vault.trustSeed random).mapError fun e =>
        let shown := e.debug
        s!"issue_device_cert: {shown}")
      Prog.effect fun vault => { vault with trustSeed := some issued.2 }
      return ⟨issued.1⟩
    else Prog.fail "issueDeviceCert: devicePubkey must be 32 bytes"
  else Prog.fail "vault is locked — unlock() before issueDeviceCert()"

/-- `listForks`. -/
def listForks (vault : Vault) : List (Nat × Nat) := vault.syncForks.map fun fork => fork.id

/-- `openFork`. -/
def openFork (id : Nat × Nat) (vault : Vault) : Except String (SyncBlob BundleFiles) :=
  if vault.unlocked then
    match vault.syncForks.find? fun fork => fork.id = id with
    | some fork => vault.syncOpen fork.sealed
    | none =>
        let seq := id.1
        let position := id.2
        .error s!"unknown fork id: fork-{seq}-{position}"
  else .error "vault is locked — unlock() before openFork()"

/-- The local variables of the pull loop: the version vector and the forks. -/
structure Lineage where
  vv : VersionVector
  forks : List (Fork BundleFiles)

/-- The vectors merged and the loser of the fork at `seq` kept. -/
def Lineage.stash (line : Lineage) (seq : Nat) (incoming : VersionVector)
    (loser : SealedBytes (SyncBlob BundleFiles)) : Lineage :=
  ⟨line.vv.mergeMax incoming, line.forks ++ [⟨(seq, line.forks.length), loser⟩]⟩

/-- One blob of the pull loop. -/
def pullBlob (seq : Nat) (sealed : SealedBytes (SyncBlob BundleFiles)) (line : Lineage) :
    VaultM Lineage := do
  let vault ← Prog.get
  let incoming ← Prog.ofExcept (vault.syncOpen sealed)
  match reconcile line.vv incoming.vv with
  | .fastForward => do
      syncApply incoming.image
      return ⟨line.vv.mergeMax incoming.vv, line.forks⟩
  | .stale => return line
  | .fork true => do
      let loser ← Prog.ofExcept (vault.syncSeal syncDbUuid line.vv)
      syncApply incoming.image
      return line.stash seq incoming.vv loser
  | .fork false => return line.stash seq incoming.vv sealed

/-- The pull loop over what the relay returns from index `seq` on. -/
def pullBlobs : Nat → List (Option (SealedBytes (SyncBlob BundleFiles))) → Lineage → VaultM Lineage
  | _, [], line => return line
  | seq, none :: rest, line => pullBlobs (seq + 1) rest line
  | seq, some sealed :: rest, line => do
      let next ← pullBlob seq sealed line
      pullBlobs (seq + 1) rest next

end Vault

/-- A vault with the records of its sync line. -/
structure SyncedVault where
  vault : Vault
  deviceId : DeviceId
  syncVv : VersionVector
  syncCursor : Nat

namespace SyncedVault

def withVault (vault : Vault) (w : SyncedVault) : SyncedVault := { w with vault := vault }

def onVault {α : Type} (program : VaultM α) : Prog SyncedVault String α :=
  Prog.zoom SyncedVault.vault withVault id program

/-- What `sync()` pushes, with the vector it saves, and the blob given to the relay. -/
def publish (push : Bool) (vv : VersionVector) :
    Prog SyncedVault String (VersionVector × Option (SealedBytes (SyncBlob BundleFiles))) := do
  let w ← Prog.get
  if push then
    let next := vv.increment w.deviceId
    let blob ← Prog.ofExcept (w.vault.syncSeal syncDbUuid next)
    return (next, some blob)
  else return (vv, none)

/-- `sync()` by itself: `pulled` is what the relay has from the saved cursor on, and `listed`
its count after the push. -/
def sync (push : Bool) (pulled : List (Option (SealedBytes (SyncBlob BundleFiles)))) (listed : Nat) :
    Prog SyncedVault String (Option (SealedBytes (SyncBlob BundleFiles))) := do
  let w ← Prog.get
  if w.vault.unlocked then
    let line ← onVault (Vault.pullBlobs w.syncCursor pulled ⟨w.syncVv, w.vault.syncForks⟩)
    let published ← publish push line.vv
    let cursor := if push then listed else w.syncCursor + pulled.length
    Prog.effect fun w => { w with syncVv := published.1 }
    Prog.effect fun w => { w with syncCursor := cursor }
    Prog.effect fun w => w.withVault { w.vault with syncForks := line.forks }
    return published.2
  else Prog.fail "vault is locked — unlock() before sync()"

end SyncedVault

/-- The calls of a history. -/
inductive VaultCall where
  | issueDeviceCert (devicePubkey : List UInt8) (random : BitVec 256)
  | sync (push : Bool) (pulled : List (Option (SealedBytes (SyncBlob BundleFiles)))) (listed : Nat)
  | rotateKey (order : IterOrder) (draws : Vault.Draws) (prf : List UInt8)
  | lock
  | unlock (order : IterOrder) (method : Method)

/-- A vault with the trust keys of the certificates it has issued. -/
structure VaultHistory where
  device : SyncedVault
  issued : List TrustKey

namespace VaultHistory

/-- Where a call that succeeds leaves the vault. -/
def after {α : Type} (h : VaultHistory) (program : VaultM α) : Option (VaultHistory × α) :=
  match (program h.device.vault).result with
  | .ok a => some ({ h with device := h.device.withVault (program h.device.vault).state }, a)
  | .error _ => none

/-- One call, `none` where it fails. -/
def step (h : VaultHistory) : VaultCall → Option VaultHistory
  | .issueDeviceCert devicePubkey random =>
      (h.after (Vault.issueDeviceCert devicePubkey random)).map fun done =>
        { done.1 with issued := done.2 :: h.issued }
  | .sync push pulled listed =>
      match ((SyncedVault.sync push pulled listed) h.device).result with
      | .ok _ => some { h with device := ((SyncedVault.sync push pulled listed) h.device).state }
      | .error _ => none
  | .rotateKey order draws prf => (h.after (Vault.rotateKey order draws prf)).map Prod.fst
  | .lock => (h.after Vault.lock).map Prod.fst
  | .unlock order method => (h.after (Vault.unlockWith order method)).map Prod.fst

end VaultHistory

/-- The anchor shows windows, or nothing has been sealed into it. -/
def AnchorReads (dek : Dek) (anchor : AnchorFile) : Prop :=
  (anchorLoad dek anchor).2.entries ≠ [] ∨ (anchor.slot0.key? = none ∧ anchor.slot1.key? = none)

/-- Whatever is stored under a key derived from a DEK opens under the current one. -/
structure Vault.Current (vault : Vault) : Prop where
  trustSeed : ∀ blob, vault.trustSeed = some blob →
    ∃ seed, blob.openWith (.trustSealKey vault.pool.dek) .trustSeed = some seed
  forks : ∀ fork ∈ vault.syncForks, ∃ blob, SyncBlob.openBlob vault.pool.dek fork.sealed = some blob
  epoch : ∀ token, vault.epoch = some token →
    ∃ plain, token.openWith (.epochKey vault.pool.dek) .epoch = some plain
  files : ∀ name data, vault.pool.content name = some data → ∀ key ∈ data.keys, key.dek = vault.pool.dek
  anchor : AnchorReads vault.pool.dek vault.pool.anchor

/-- The certificates keep their trust key, the forks open and nothing is left behind
under another DEK. -/
structure VaultHistory.Survives (h : VaultHistory) : Prop where
  keyed : ∃ env, h.device.vault.envelope = some env ∧ env.IssuedUnder h.device.vault.pool.dek
  current : h.device.vault.Current
  certs : h.device.vault.unlocked = true → ∀ devicePubkey random, devicePubkey.length = 32 →
    ∃ key, ((Vault.issueDeviceCert devicePubkey random) h.device.vault).result = .ok key ∧
      ∀ before ∈ h.issued, before = key
  forks : h.device.vault.unlocked = true → ∀ id ∈ h.device.vault.listForks,
    ∃ blob, h.device.vault.openFork id = .ok blob

/-- Each slot of a manifest opens at its place, or has never been sealed. -/
def SlotsOpen (dek : Dek) (mname : FileName) : Region → Prop
  | .manifest file => ∀ entry ∈ file.slots.zipIdx, entry.1.key? = none ∨
      (entry.1.openWith (.dbKey dek file.uuid) (.block (fileIdFor mname) file.uuid entry.2)).isSome
  | _ => True

instance (dek : Dek) (mname : FileName) : DecidablePred (SlotsOpen dek mname)
  | .manifest file => inferInstanceAs (Decidable (∀ entry ∈ file.slots.zipIdx, _ ∨ _))
  | .blocks _ _ => inferInstanceAs (Decidable True)
  | .intent _ => inferInstanceAs (Decidable True)

/-- Everything sealed in the pool is in a file that a rotation re-seals. -/
def Pool.Covered (order : IterOrder) (pool : Pool) : Prop :=
  ∀ name ∈ pool.files.keys, ∀ data ∈ pool.content name, data.keys = [] ∨
    name ∈ Pool.databases order pool ∨
    (∃ db ∈ Pool.databases order pool, name = manifestName db) ∧ SlotsOpen pool.dek name data

instance (order : IterOrder) (pool : Pool) : Decidable (Pool.Covered order pool) :=
  inferInstanceAs (Decidable (∀ name ∈ pool.files.keys, ∀ data ∈ pool.content name, _ ∨ _))

/-- The condition on a call: what a pulled blob would write is sealed under the DEK, and
a rotation runs while no trust seed and no fork is stored and the pool holds nothing
sealed beside its databases. A new DEK is one that nothing is sealed under. -/
def VaultHistory.allowed (h : VaultHistory) : VaultCall → Prop
  | .sync _ pulled _ => ∀ sealed ∈ pulled.reduceOption,
      ∀ blob ∈ SyncBlob.openBlob h.device.vault.pool.dek sealed,
        ∀ file ∈ blob.image, ∀ key ∈ file.2.keys, key.dek = h.device.vault.pool.dek
  | .rotateKey order draws _ =>
      h.device.vault.trustSeed = none ∧ h.device.vault.syncForks = [] ∧
      Pool.Covered order h.device.vault.pool ∧ draws.newDek ≠ h.device.vault.pool.dek ∧
      anchorPick draws.newDek h.device.vault.pool.anchor = none
  | .issueDeviceCert _ _ | .lock | .unlock _ _ => True

instance (h : VaultHistory) : DecidablePred h.allowed
  | .sync _ pulled _ => inferInstanceAs (Decidable (∀ sealed ∈ pulled.reduceOption,
      ∀ blob ∈ SyncBlob.openBlob h.device.vault.pool.dek sealed,
        ∀ file ∈ blob.image, ∀ key ∈ file.2.keys, key.dek = h.device.vault.pool.dek))
  | .rotateKey order draws _ => inferInstanceAs (Decidable (_ ∧ _))
  | .issueDeviceCert _ _ => inferInstanceAs (Decidable True)
  | .lock => inferInstanceAs (Decidable True)
  | .unlock _ _ => inferInstanceAs (Decidable True)

end Freehold
