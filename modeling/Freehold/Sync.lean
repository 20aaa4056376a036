import Freehold.Crypto
import Freehold.VersionVector
import Freehold.Lib.Runs

set_option autoImplicit false

namespace Freehold

/-- The relay bucket name, a commitment to the DEK-derived key of `dbUuid`. -/
structure SyncId where
  dek : Dek
  dbUuid : Uuid
  deriving DecidableEq, Repr

/-- The fixed uuid that names the vault's sync bucket. -/
def syncDbUuid : Uuid := 0x66726565686f6c642f7661756c742f31

/-- The unit a device pushes and pulls. -/
structure SyncBlob (Image : Type) where
  dbUuid : Uuid
  vv : VersionVector
  image : Image
  deriving DecidableEq

namespace SyncBlob

variable {Image : Type}

/-- `SyncBlob::seal` under `sync_key`. -/
def sealBlob (dek : Dek) (blob : SyncBlob Image) : SealedBytes (SyncBlob Image) :=
  .sealed (.syncKey dek) .syncBlob blob

/-- `SyncBlob::open`; a wrong key or tampering gives `none`. -/
def openBlob (dek : Dek) (sealed : SealedBytes (SyncBlob Image)) : Option (SyncBlob Image) :=
  sealed.openWith (.syncKey dek) .syncBlob

@[simp] theorem openBlob_sealBlob (dek : Dek) (blob : SyncBlob Image) :
    openBlob dek (sealBlob dek blob) = some blob :=
  Aead.openWith_sealed ..

theorem openBlob_eq_some {dek : Dek} {sealed : SealedBytes (SyncBlob Image)}
    {blob : SyncBlob Image} : openBlob dek sealed = some blob ↔ sealed = sealBlob dek blob :=
  Aead.openWith_eq_some

end SyncBlob

/-- A preserved fork sibling; the id is `fork-<seq>-<position>`. -/
structure Fork (Image : Type) where
  id : Nat × Nat
  sealed : SealedBytes (SyncBlob Image)
  deriving DecidableEq

instance {Image : Type} [DecidableEq Image] : LawfulBEq (Fork Image) := inferInstance

instance {Write : Type} [DecidableEq Write] : LawfulBEq (Fork (List Write)) := inferInstance

/-- What the session offers the sync loop over the live database files. A
failing `importFiles` returns the files as it leaves them. -/
structure SessionOps (Store Image Write : Type) where
  commit : Write → Store → Store
  sessionImage : Store → Option Image
  importFiles : Image → Store → Except Store Store
  rotate : Dek → Store → Store

/-- Where a running `sync()` waits: one constructor for each await that reads
or writes state shared with another party. -/
inductive Phase (Image : Type) where
  | readVv
  | readCursor
  | readForks
  | list
  | get (i : Nat)
  | reconcile (i : Nat) (sealed : SealedBytes (SyncBlob Image))
  | fastForward (i : Nat) (incoming : SyncBlob Image)
  | sealLoser (i : Nat) (incoming : SyncBlob Image)
  | applyWinner (i : Nat) (incoming : SyncBlob Image) (loser : SealedBytes (SyncBlob Image))
  | sealPush
  | put (blob : SealedBytes (SyncBlob Image))
  | relist
  | saveVv
  | saveCursor
  | saveForks

/-- The local variables of one running `sync()`. `replaced` records that this
pass overwrote the live image by a fork winner; the source has no such variable. -/
structure SyncTask (Image : Type) where
  syncId : SyncId
  push : Bool
  localVv : VersionVector
  cursor : Nat
  forks : List (Fork Image)
  count : Nat
  phase : Phase Image
  replaced : Bool

/-- A blob of the relay log. The relay stores only `sealed`; `author` is kept for the proofs. -/
structure LogEntry (ι Image : Type) where
  author : ι
  sealed : SealedBytes (SyncBlob Image)

/-- One device: its session, its IndexedDB sync records, its running `sync()`
calls, and two histories kept for the proofs. -/
structure Device (Store Image Write : Type) where
  deviceId : DeviceId
  dek : Dek
  store : Store
  syncVv : VersionVector
  syncCursor : Nat
  syncForks : List (Fork Image)
  tasks : List (SyncTask Image)
  committed : List Write
  reconciled : List (SyncId × Nat)

structure World (ι Store Image Write : Type) where
  devices : ι → Device Store Image Write
  logs : SyncId → List (LogEntry ι Image)

/-- What can happen on one device. -/
inductive Action (Store Write : Type) where
  | commit (w : Write)
  | startSync (push : Bool)
  | resume (k : Nat)
  | abort (k : Nat)
  | crash
  | rotateKey (dek : Dek)
  | importBundle (dek : Dek) (store : Store)

section Steps

variable {ι Store Image Write : Type}

/-- `list(syncId, since)`: how many blobs stand at index `since` or later. -/
def listBlobs (log : List (LogEntry ι Image)) (since : Nat) : Nat := log.length - since

def Device.bucket (dev : Device Store Image Write) : SyncId := ⟨dev.dek, syncDbUuid⟩

/-- `session_sync_seal`: the current image and `vv` under the session's DEK. -/
def Device.syncSeal (ops : SessionOps Store Image Write) (dev : Device Store Image Write)
    (vv : VersionVector) : Option (SealedBytes (SyncBlob Image)) :=
  (ops.sessionImage dev.store).map fun image => SyncBlob.sealBlob dev.dek ⟨syncDbUuid, vv, image⟩

namespace SyncTask

/-- The head of the pull loop at index `i`; past the last blob the cursor moves on. -/
def pull (t : SyncTask Image) (i : Nat) : SyncTask Image :=
  if i < t.count then { t with phase := .get i }
  else { t with cursor := t.cursor + t.count, phase := if t.push then .sealPush else .saveVv }

/-- The fork branch after the winner is settled: merge the vectors, keep the loser. -/
def stash (t : SyncTask Image) (i : Nat) (incoming : SyncBlob Image)
    (loser : SealedBytes (SyncBlob Image)) : SyncTask Image :=
  { t with
    localVv := t.localVv.mergeMax incoming.vv
    forks := t.forks ++ [⟨(t.cursor + i, t.forks.length), loser⟩] }

@[simp] theorem pull_syncId (t : SyncTask Image) (i : Nat) : (t.pull i).syncId = t.syncId := by
  unfold pull; split <;> rfl

@[simp] theorem pull_forks (t : SyncTask Image) (i : Nat) : (t.pull i).forks = t.forks := by
  unfold pull; split <;> rfl

@[simp] theorem pull_replaced (t : SyncTask Image) (i : Nat) :
    (t.pull i).replaced = t.replaced := by
  unfold pull; split <;> rfl

@[simp] theorem stash_syncId (t : SyncTask Image) (i : Nat) (incoming : SyncBlob Image)
    (loser : SealedBytes (SyncBlob Image)) : (t.stash i incoming loser).syncId = t.syncId := rfl

@[simp] theorem stash_replaced (t : SyncTask Image) (i : Nat) (incoming : SyncBlob Image)
    (loser : SealedBytes (SyncBlob Image)) : (t.stash i incoming loser).replaced = t.replaced := rfl

@[simp] theorem mem_stash_forks {t : SyncTask Image} {i : Nat} {incoming : SyncBlob Image}
    {loser : SealedBytes (SyncBlob Image)} {f : Fork Image} :
    f ∈ (t.stash i incoming loser).forks ↔
      f ∈ t.forks ∨ f = ⟨(t.cursor + i, t.forks.length), loser⟩ := by
  simp [stash]

/-- `sync()` up to its first read of the saved state. -/
def start (syncId : SyncId) (push : Bool) : SyncTask Image :=
  ⟨syncId, push, .new, 0, [], 0, .readVv, false⟩

end SyncTask

/-- The blob at index `seq` of the task's bucket has been dealt with. -/
def Device.reconcile (dev : Device Store Image Write) (t : SyncTask Image) (i : Nat) :
    Device Store Image Write :=
  { dev with reconciled := (t.syncId, t.cursor + i) :: dev.reconciled }

/-- One await-to-await segment of `sync()` on device `d`: the device, the call
(`none` once it has returned or thrown) and the bucket's log afterwards. -/
def advance (ops : SessionOps Store Image Write) (d : ι) (log : List (LogEntry ι Image))
    (dev : Device Store Image Write) (t : SyncTask Image) :
    Device Store Image Write × Option (SyncTask Image) × List (LogEntry ι Image) :=
  match t.phase with
  | .readVv => (dev, some { t with localVv := dev.syncVv, phase := .readCursor }, log)
  | .readCursor => (dev, some { t with cursor := dev.syncCursor, phase := .readForks }, log)
  | .readForks => (dev, some { t with forks := dev.syncForks, phase := .list }, log)
  | .list => (dev, some ({ t with count := listBlobs log t.cursor }.pull 0), log)
  | .get i =>
      match log[t.cursor + i]? with
      | none => (dev, some (t.pull (i + 1)), log)
      | some entry => (dev, some { t with phase := .reconcile i entry.sealed }, log)
  | .reconcile i sealed =>
      match SyncBlob.openBlob dev.dek sealed with
      | none => (dev, none, log)
      | some incoming =>
          match reconcile t.localVv incoming.vv with
          | .fastForward => (dev, some { t with phase := .fastForward i incoming }, log)
          | .stale => (dev.reconcile t i, some (t.pull (i + 1)), log)
          | .fork true => (dev, some { t with phase := .sealLoser i incoming }, log)
          | .fork false =>
              (dev.reconcile t i, some ((t.stash i incoming sealed).pull (i + 1)), log)
  | .fastForward i incoming =>
      match ops.importFiles incoming.image dev.store with
      | .error store => ({ dev with store := store }, none, log)
      | .ok store =>
          ({ dev.reconcile t i with store := store },
            some ({ t with localVv := t.localVv.mergeMax incoming.vv }.pull (i + 1)), log)
  | .sealLoser i incoming =>
      match dev.syncSeal ops t.localVv with
      | none => (dev, none, log)
      | some loser => (dev, some { t with phase := .applyWinner i incoming loser }, log)
  | .applyWinner i incoming loser =>
      match ops.importFiles incoming.image dev.store with
      | .error store => ({ dev with store := store }, none, log)
      | .ok store =>
          ({ dev.reconcile t i with store := store },
            some (({ t with replaced := true }.stash i incoming loser).pull (i + 1)), log)
  | .sealPush =>
      match dev.syncSeal ops (t.localVv.increment dev.deviceId) with
      | none => (dev, none, log)
      | some blob =>
          (dev, some { t with
            localVv := t.localVv.increment dev.deviceId
            phase := .put blob }, log)
  | .put blob => (dev, some { t with phase := .relist }, log ++ [⟨d, blob⟩])
  | .relist => (dev, some { t with cursor := listBlobs log 0, phase := .saveVv }, log)
  | .saveVv => ({ dev with syncVv := t.localVv }, some { t with phase := .saveCursor }, log)
  | .saveCursor => ({ dev with syncCursor := t.cursor }, some { t with phase := .saveForks }, log)
  | .saveForks => ({ dev with syncForks := t.forks }, none, log)

/-- What no segment of `sync()` changes, and the two records that only grow. -/
structure Device.Frame (dev after : Device Store Image Write) : Prop where
  deviceId : after.deviceId = dev.deviceId
  dek : after.dek = dev.dek
  tasks : after.tasks = dev.tasks
  committed : after.committed = dev.committed
  reconciled : dev.reconciled ⊆ after.reconciled

theorem Device.Frame.refl (dev : Device Store Image Write) : dev.Frame dev :=
  ⟨rfl, rfl, rfl, rfl, fun _ member => member⟩

theorem Device.Frame.reconcile (dev : Device Store Image Write) (t : SyncTask Image) (i : Nat) :
    dev.Frame (dev.reconcile t i) :=
  ⟨rfl, rfl, rfl, rfl, fun _ member => List.mem_cons_of_mem _ member⟩

theorem advance_frame (ops : SessionOps Store Image Write) (d : ι) (log : List (LogEntry ι Image))
    (dev : Device Store Image Write) (t : SyncTask Image) :
    dev.Frame (advance ops d log dev t).1 := by
  have same := Device.Frame.refl dev
  have dealt := fun i => Device.Frame.reconcile dev t i
  unfold advance
  split <;> try exact ⟨rfl, rfl, rfl, rfl, same.reconciled⟩
  all_goals (split <;> try exact ⟨rfl, rfl, rfl, rfl, same.reconciled⟩)
  · split
    · exact same
    · exact dealt _
    · exact same
    · exact dealt _
  · exact ⟨rfl, rfl, rfl, rfl, (dealt _).reconciled⟩
  · exact ⟨rfl, rfl, rfl, rfl, (dealt _).reconciled⟩

/-- The relay appends; nothing is taken out of a bucket. -/
theorem advance_log (ops : SessionOps Store Image Write) (d : ι) (log : List (LogEntry ι Image))
    (dev : Device Store Image Write) (t : SyncTask Image) :
    log <+: (advance ops d log dev t).2.2 := by
  unfold advance
  split <;> try exact List.prefix_rfl
  case h_11 => exact List.prefix_append ..
  all_goals (split <;> try exact List.prefix_rfl)
  split <;> exact List.prefix_rfl

/-- Puts the `k`-th running call back, or drops it once it has ended. -/
def Device.putTask (dev : Device Store Image Write) (k : Nat) :
    Option (SyncTask Image) → Device Store Image Write
  | some t => { dev with tasks := dev.tasks.set k t }
  | none => { dev with tasks := dev.tasks.eraseIdx k }

/-- The calls running afterwards are old ones and what the `k`-th became. -/
theorem mem_putTask {dev : Device Store Image Write} {k : Nat} {t : Option (SyncTask Image)}
    {u : SyncTask Image} (member : u ∈ (dev.putTask k t).tasks) : u ∈ dev.tasks ∨ u ∈ t := by
  cases t with
  | none => exact .inl (List.mem_of_mem_eraseIdx member)
  | some moved =>
      rcases List.mem_or_eq_of_mem_set member with old | rfl
      · exact .inl old
      · exact .inr rfl

theorem moved_mem_putTask {dev : Device Store Image Write} {k : Nat} {old moved : SyncTask Image}
    (running : dev.tasks[k]? = some old) : moved ∈ (dev.putTask k (some moved)).tasks :=
  List.mem_set (List.getElem?_eq_some_iff.mp running).1 _

theorem other_mem_putTask {dev : Device Store Image Write} {k : Nat} {old u : SyncTask Image}
    (running : dev.tasks[k]? = some old) (t : Option (SyncTask Image)) (member : u ∈ dev.tasks)
    (distinct : u ≠ old) : u ∈ (dev.putTask k t).tasks := by
  obtain ⟨j, found⟩ := List.mem_iff_getElem?.mp member
  have apart : k ≠ j := by
    rintro rfl
    exact distinct (Option.some.inj (found.symm.trans running))
  cases t with
  | none => exact List.mem_eraseIdx_iff_getElem?.mpr ⟨j, apart.symm, found⟩
  | some moved =>
      exact List.mem_iff_getElem?.mpr ⟨j, by simp [Device.putTask, List.getElem?_set_ne apart, found]⟩

/-- One action of device `d`; `none` where it has no such running call. -/
def Device.act (ops : SessionOps Store Image Write) (d : ι)
    (logs : SyncId → List (LogEntry ι Image)) (dev : Device Store Image Write) :
    Action Store Write →
      Option (Device Store Image Write × (SyncId → List (LogEntry ι Image)))
  | .commit w =>
      some ({ dev with store := ops.commit w dev.store, committed := w :: dev.committed }, logs)
  | .startSync push => some ({ dev with tasks := dev.tasks ++ [.start dev.bucket push] }, logs)
  | .resume k =>
      dev.tasks[k]?.map fun t =>
        let result := advance ops d (logs t.syncId) dev t
        (result.1.putTask k result.2.1, Function.update logs t.syncId result.2.2)
  | .abort k => dev.tasks[k]?.map fun _ => (dev.putTask k none, logs)
  | .crash => some ({ dev with tasks := [] }, logs)
  | .rotateKey dek => some ({ dev with dek := dek, store := ops.rotate dek dev.store }, logs)
  | .importBundle dek store => some ({ dev with dek := dek, store := store }, logs)

/-- Only a running `sync()` touches the relay, and it only appends to its own bucket. -/
theorem act_logs {ops : SessionOps Store Image Write} {d : ι}
    {logs later : SyncId → List (LogEntry ι Image)} {dev after : Device Store Image Write}
    {action : Action Store Write} (taken : dev.act ops d logs action = some (after, later))
    (s : SyncId) : logs s <+: later s := by
  cases action with
  | resume k =>
      obtain ⟨t, running, moved⟩ := Option.map_eq_some_iff.mp taken
      obtain ⟨rfl, rfl⟩ := Prod.mk.inj moved
      by_cases own : s = t.syncId
      · subst own
        simpa using advance_log ops d (logs t.syncId) dev t
      · simp [Function.update_of_ne own]
  | abort k =>
      obtain ⟨t, running, moved⟩ := Option.map_eq_some_iff.mp taken
      obtain ⟨rfl, rfl⟩ := Prod.mk.inj moved
      exact List.prefix_rfl
  | commit w => cases taken; exact List.prefix_rfl
  | startSync push => cases taken; exact List.prefix_rfl
  | crash => cases taken; exact List.prefix_rfl
  | rotateKey dek => cases taken; exact List.prefix_rfl
  | importBundle dek store => cases taken; exact List.prefix_rfl

variable [DecidableEq ι]

/-- One event of the system: an action on one of the devices. -/
def step (ops : SessionOps Store Image Write) (world : World ι Store Image Write)
    (event : ι × Action Store Write) : Option (World ι Store Image Write) :=
  ((world.devices event.1).act ops event.1 world.logs event.2).map fun result =>
    ⟨Function.update world.devices event.1 result.1, result.2⟩

/-- An invariant of single devices that survives the growth of the logs and every
allowed action of its device is kept by every allowed step. -/
theorem step_device {ops : SessionOps Store Image Write}
    (inv : (SyncId → List (LogEntry ι Image)) → ι → Device Store Image Write → Prop)
    (grow : ∀ {logs later d dev}, (∀ s, logs s <+: later s) → inv logs d dev → inv later d dev)
    {world next : World ι Store Image Write} {event : ι × Action Store Write}
    (act : ∀ after later, (world.devices event.1).act ops event.1 world.logs event.2 =
      some (after, later) → inv world.logs event.1 (world.devices event.1) →
      inv later event.1 after)
    (taken : step ops world event = some next) (before : ∀ d, inv world.logs d (world.devices d))
    (d : ι) : inv next.logs d (next.devices d) := by
  obtain ⟨⟨after, later⟩, acted, rfl⟩ := Option.map_eq_some_iff.mp taken
  by_cases own : d = event.1
  · subst own
    simpa using act after later acted (before _)
  · simpa [Function.update_of_ne own] using grow (act_logs acted) (before d)

/-- A fleet of devices before any sync: no saved vector, cursor or fork, empty logs. -/
def World.fresh (deviceId : ι → DeviceId) (dek : ι → Dek) (store : ι → Store) :
    World ι Store Image Write where
  devices d := ⟨deviceId d, dek d, store d, .new, 0, [], [], [], []⟩
  logs _ := []

end Steps

/-- The live files abstracted to the writes they contain: a commit adds one, an
image carries all of them, and applying an image replaces them. -/
def historyOps (Write : Type) : SessionOps (List Write) (List Write) Write where
  commit w history := w :: history
  sessionImage history := some history
  importFiles image _ := .ok image
  rotate _ history := history

/-- Two devices of one identity with empty live files. -/
def twoDevices : World Bool (List Nat) (List Nat) Nat :=
  .fresh (fun d => if d then 2 else 1) (fun _ => 0) fun _ => []

/-- Device `d` resumes its oldest running call `n` times. -/
def resumes (d : Bool) (n : Nat) : List (Bool × Action (List Nat) Nat) :=
  List.replicate n (d, .resume 0)

end Freehold
