import Freehold.Lib.Ledger
import Freehold.SyncHistory
import Freehold.VectorOrder

set_option autoImplicit false

/- What a version vector claims of the blobs that have been pushed, against what the
device holds. -/
namespace Freehold.SyncClaims

open SyncHistory (inForks inForks_iff inForks_mono)

abbrev Device (Write : Type) := Freehold.Device (List Write) (List Write) Write

section Conditions

variable {ι Write : Type} [DecidableEq Write]

/-- `v` counts the push of `blob` by `author`. -/
def claims (deviceId : ι → DeviceId) (v : VersionVector) (author : ι) (blob : SyncBlob (List Write)) :
    Bool :=
  blob.vv.get (deviceId author) ≤ v.get (deviceId author)

/-- Every write of every blob that `v` claims meets `holds`. -/
def covers (deviceId : ι → DeviceId) (dek : Dek) (log : List (LogEntry ι (List Write)))
    (v : VersionVector) (holds : Write → Bool) : Bool :=
  log.all fun entry => (SyncBlob.openBlob dek entry.sealed).all fun blob =>
    !claims deviceId v entry.author blob || blob.image.all holds

/-- Each component of `v` has been pushed. -/
def seen (dek : Dek) (log : List (LogEntry ι (List Write))) (v : VersionVector) : Bool :=
  v.deviceIdSet.all fun id => log.any fun entry =>
    (SyncBlob.openBlob dek entry.sealed).any fun blob => v.get id ≤ blob.vv.get id

/-- A call whose forks are needed when it has ended: it has replaced the live image by a fork
winner, or has saved its vector. -/
def anchored (t : SyncTask (List Write)) : Bool :=
  t.replaced || match t.phase with
    | .saveCursor | .saveForks => true
    | _ => false

/-- `w` is in a saved fork or in one that an anchored call will save. -/
def keeps (dev : Device Write) (w : Write) : Bool :=
  inForks dev.dek dev.syncForks w ||
    dev.tasks.any fun t => anchored t && inForks dev.dek t.forks w

/-- `w` would be held with `live` as the live image and the forks of one more call. -/
def holds (dev : Device Write) (live : List Write) (forks : List (Fork (List Write))) (w : Write) :
    Bool :=
  w ∈ live || keeps dev w || inForks dev.dek forks w

/-- The live image may be replaced by that of `incoming`, with `loser` kept for every call:
what the vectors of the device and that of `incoming` claim is in the new image or kept. -/
def replaceSafe (deviceId : ι → DeviceId) (log : List (LogEntry ι (List Write))) (dev : Device Write)
    (t : SyncTask (List Write)) (incoming : SyncBlob (List Write)) (loser : List (Fork (List Write))) :
    Bool :=
  covers deviceId dev.dek log dev.syncVv (holds dev incoming.image loser) &&
    covers deviceId dev.dek log incoming.vv (holds dev incoming.image (t.forks ++ loser)) &&
    dev.tasks.all fun u =>
      covers deviceId dev.dek log u.localVv (holds dev incoming.image (u.forks ++ loser))

/-- The condition on a segment of `sync()`.
 - A FastForward or a fork winner is applied only if the incoming image and the kept forks
   contain what the incoming vector and those of the device claim.
 - A blob that loses a fork claims only what it contains or the device holds.
 - A push takes a number that no pushed vector has, and its image is still held.
 - The forks are saved over a list that the call has read. -/
def segmentSafe (deviceId : ι → DeviceId) (log : List (LogEntry ι (List Write))) (dev : Device Write)
    (t : SyncTask (List Write)) : Bool :=
  match t.phase with
  | .reconcile _ sealed => (SyncBlob.openBlob dev.dek sealed).all fun incoming =>
      reconcile t.localVv incoming.vv ≠ .fork false ||
        covers deviceId dev.dek log incoming.vv (holds dev (incoming.image ++ dev.store) t.forks)
  | .fastForward _ incoming => replaceSafe deviceId log dev t incoming []
  | .applyWinner i incoming loser =>
      replaceSafe deviceId log dev t incoming (t.forks ++ [⟨(t.cursor + i, t.forks.length), loser⟩])
  | .put blob => (SyncBlob.openBlob dev.dek blob).all fun pushed =>
      (log.all fun entry => (SyncBlob.openBlob dev.dek entry.sealed).all fun blob =>
          blob.vv.get dev.deviceId < pushed.vv.get dev.deviceId) &&
        pushed.image.all (holds dev dev.store t.forks)
  | .saveForks => dev.syncForks.all fun f => f ∈ t.forks
  | _ => true

/-- The call may end here. -/
def endsSafe (dev : Device Write) (t : SyncTask (List Write)) : Bool :=
  !anchored t || t.forks.all fun f => f ∈ dev.syncForks

/-- The condition on an action. A bundle is imported, or a vault enrolled, with no `sync()`
running, and the saved vector must describe the new image: in the bucket of its DEK each
component has been pushed, and what the vector claims is in the image or in a saved fork. -/
def actionSafe (deviceId : ι → DeviceId) (logs : SyncId → List (LogEntry ι (List Write)))
    (dev : Device Write) : Action (List Write) Write → Bool
  | .resume k => dev.tasks[k]?.all fun t => segmentSafe deviceId (logs t.syncId) dev t
  | .abort k => dev.tasks[k]?.all fun t => endsSafe dev t
  | .crash => dev.tasks.all fun t => endsSafe dev t
  | .importBundle dek store =>
      dev.tasks.isEmpty && seen dek (logs ⟨dek, syncDbUuid⟩) dev.syncVv &&
        covers deviceId dek (logs ⟨dek, syncDbUuid⟩) dev.syncVv fun w =>
          w ∈ store || inForks dek dev.syncForks w
  | .rotateKey _ => false
  | .commit _ | .startSync _ => true

/-- `w` is in the live image, in a saved fork or in a fork of a running call. -/
def Held (dev : Device Write) (w : Write) : Prop :=
  w ∈ dev.store ∨ inForks dev.dek dev.syncForks w = true ∨
    ∃ t ∈ dev.tasks, inForks dev.dek t.forks w = true

instance (dev : Device Write) (w : Write) : Decidable (Held dev w) :=
  inferInstanceAs (Decidable (_ ∨ _ ∨ ∃ t ∈ dev.tasks, inForks dev.dek t.forks w = true))

/-- A running call is about to take a blob for stale that contains `w`. -/
def discards (dev : Device Write) (w : Write) : Bool :=
  dev.tasks.any fun t => match t.phase with
    | .reconcile _ sealed => (SyncBlob.openBlob dev.dek sealed).any fun blob =>
        reconcile t.localVv blob.vv = .stale && w ∈ blob.image
    | _ => false

end Conditions

section Vectors

variable {v w : VersionVector} {id : DeviceId}

def components (v : VersionVector) : DeviceId → Nat := fun id => (v.get id).toNat

theorem components_le (le : v ≤ w) : components v ≤ components w :=
  fun id => UInt64.le_iff_toNat_le.mp (le id)

theorem components_new : components .new = fun _ => ⊥ := by
  funext id
  simp [components]

theorem components_mergeMax (v w : VersionVector) :
    components (v.mergeMax w) = components v ⊔ components w := by
  apply le_antisymm
  · intro id
    rw [components, VersionVector.get_mergeMax]
    split
    · exact le_sup_right (a := components v id)
    · exact le_sup_left (b := components w id)
  · exact sup_le (components_le (VersionVector.le_mergeMax_left v w))
      (components_le (VersionVector.le_mergeMax_right v w))

theorem le_increment (v : VersionVector) (id : DeviceId) : v ≤ v.increment id := by
  intro other
  by_cases same : id = other
  · subst same
    rw [VersionVector.get_increment_self, UInt64.le_iff_toNat_le, saturatingAdd_toNat]
    have bound := (v.get id).toNat_lt
    omega
  · rw [VersionVector.get_increment_of_ne v same]
    exact UInt64.le_refl _

theorem components_increment_of_ne {other : DeviceId} (distinct : other ≠ id) :
    components (v.increment id) other = components v other := by
  rw [components, VersionVector.get_increment_of_ne v (Ne.symm distinct)]
  rfl

theorem components_increment_self : 0 < components (v.increment id) id ∧
    components (v.increment id) id ≤ components v id + 1 := by
  rw [components, VersionVector.get_increment_self, saturatingAdd_toNat]
  have one : (1 : UInt64).toNat = 1 := rfl
  have self : (v.get id).toNat = components v id := rfl
  constructor
  · omega
  · omega

end Vectors

section Ledgers

variable {ι Write : Type} {deviceId : ι → DeviceId} {dek : Dek} {log later : List (LogEntry ι (List Write))}
  {author : ι} {blob : SyncBlob (List Write)}

/-- The push of `blob` as an update of its author. -/
def update (deviceId : ι → DeviceId) (author : ι) (blob : SyncBlob (List Write)) :
    Ledger.Update DeviceId Nat Write :=
  ⟨deviceId author, components blob.vv, {w | w ∈ blob.image}⟩

/-- The updates in a bucket. -/
def ledger (deviceId : ι → DeviceId) (dek : Dek) (log : List (LogEntry ι (List Write))) :
    Set (Ledger.Update DeviceId Nat Write) :=
  {u | ∃ entry ∈ log, ∃ blob, SyncBlob.openBlob dek entry.sealed = some blob ∧
    u = update deviceId entry.author blob}

theorem ledger_append : ledger deviceId dek (log ++ [⟨author, SyncBlob.sealBlob dek blob⟩]) =
    insert (update deviceId author blob) (ledger deviceId dek log) := by
  ext u
  simp only [ledger, Set.mem_ofPred_eq, Set.mem_insert_iff, List.mem_append, List.mem_singleton]
  constructor
  · rintro ⟨entry, old | rfl, pushed, opened, rfl⟩
    · exact Or.inr ⟨entry, old, pushed, opened, rfl⟩
    · rw [SyncBlob.openBlob_sealBlob] at opened
      obtain rfl := Option.some.inj opened
      exact Or.inl rfl
  · rintro (rfl | ⟨entry, old, pushed, opened, rfl⟩)
    · exact ⟨_, Or.inr rfl, blob, SyncBlob.openBlob_sealBlob .., rfl⟩
    · exact ⟨entry, Or.inl old, pushed, opened, rfl⟩

theorem claims_iff {v : VersionVector} : claims deviceId v author blob = true ↔
    (update deviceId author blob).number ≤ components v (update deviceId author blob).author := by
  rw [claims, decide_eq_true_eq, UInt64.le_iff_toNat_le]
  rfl

theorem covers_iff {v : VersionVector} {holds : Write → Bool} :
    covers deviceId dek log v holds = true ↔
      Ledger.Covers (ledger deviceId dek log) (components v) {w | holds w = true} := by
  simp only [covers, List.all_eq_true, Option.all_eq_true, Bool.or_eq_true, Bool.not_eq_true']
  constructor
  · rintro checked u ⟨entry, listed, blob, opened, rfl⟩ claimed
    rcases checked entry listed blob opened with unclaimed | held
    · rw [claims_iff.mpr claimed] at unclaimed
      cases unclaimed
    · exact held
  · intro covered entry listed blob opened
    cases claimed : claims deviceId v entry.author blob with
    | false => exact Or.inl rfl
    | true => exact Or.inr (covered _ ⟨entry, listed, blob, opened, rfl⟩ (claims_iff.mp claimed))

theorem seen_of_check {v : VersionVector} (checked : seen dek log v = true) :
    Ledger.Seen (ledger deviceId dek log) (components v) := by
  intro id
  by_cases zero : v.get id = 0
  · exact Or.inl (congrArg UInt64.toNat zero)
  · have stored : id ∈ v.deviceIdSet := by
      rw [VersionVector.deviceIdSet_eq]
      refine List.mem_map.mpr ⟨(id, v.get id), VersionVector.mem_entries.mpr ⟨rfl, ?_⟩, rfl⟩
      exact UInt64.pos_iff_ne_zero.mpr zero
    obtain ⟨entry, listed, found⟩ := List.any_eq_true.mp (List.all_eq_true.mp checked id stored)
    obtain ⟨blob, opened, least⟩ := (Option.any_eq_true ..).mp found
    refine Or.inr ⟨_, ⟨entry, listed, blob, opened, rfl⟩, ?_⟩
    exact UInt64.le_iff_toNat_le.mp (of_decide_eq_true least)

/-- Every blob of the bucket opens, and carries a number of its author. -/
def Pushed (deviceId : ι → DeviceId) (dek : Dek) (log : List (LogEntry ι (List Write))) : Prop :=
  ∀ entry ∈ log, ∃ blob, SyncBlob.openBlob dek entry.sealed = some blob ∧
    0 < components blob.vv (deviceId entry.author)

theorem Pushed.positive (pushed : Pushed deviceId dek log) :
    ∀ u ∈ ledger deviceId dek log, ⊥ < u.number := by
  rintro u ⟨entry, listed, blob, opened, rfl⟩
  obtain ⟨same, opens, positive⟩ := pushed entry listed
  rw [opened] at opens
  obtain rfl := Option.some.inj opens
  exact positive

/-- A bucket stays as it is or gets a blob with a number that is fresh in it. -/
def Extends (deviceId : ι → DeviceId) (dek : Dek) (log later : List (LogEntry ι (List Write))) : Prop :=
  later = log ∨ ∃ author blob, later = log ++ [⟨author, SyncBlob.sealBlob dek blob⟩] ∧
    Ledger.Fresh (ledger deviceId dek log) (update deviceId author blob)

theorem Extends.vouched {v : VersionVector} {held : Set Write} (grown : Extends deviceId dek log later)
    (vouched : Ledger.Vouched (ledger deviceId dek log) (components v) held) :
    Ledger.Vouched (ledger deviceId dek later) (components v) held := by
  rcases grown with rfl | ⟨author, blob, rfl, fresh⟩
  · exact vouched
  · rw [ledger_append]
    exact vouched.insert fresh

theorem Extends.subset (grown : Extends deviceId dek log later) :
    ledger deviceId dek log ⊆ ledger deviceId dek later := by
  rcases grown with rfl | ⟨author, blob, rfl, fresh⟩
  · exact subset_rfl
  · rw [ledger_append]
    exact Set.subset_insert _ _

theorem Extends.pushed (grown : Extends deviceId dek log later) (pushed : Pushed deviceId dek log) :
    Pushed deviceId dek later := by
  rcases grown with rfl | ⟨author, blob, rfl, fresh⟩
  · exact pushed
  · intro entry listed
    rcases List.mem_append.mp listed with old | new
    · exact pushed entry old
    · obtain rfl := List.mem_singleton.mp new
      exact ⟨blob, SyncBlob.openBlob_sealBlob .., fresh.positive⟩

end Ledgers

section Invariant

variable {ι Write : Type} [DecidableEq Write]

/-- What the device holds together with the forks of one more call. -/
def heldBy (dev : Device Write) (forks : List (Fork (List Write))) : Set Write :=
  {w | holds dev dev.store forks w = true}

/-- The vector behind that of the call: a push carries the next number of it. -/
def Base (id : DeviceId) (t : SyncTask (List Write)) (v : VersionVector) : Prop :=
  match t.phase with
  | .put _ => t.localVv = v.increment id
  | _ => v = t.localVv

/-- The blobs a call carries come from its bucket, or were sealed with its vector; a call
that has read no forks has none. -/
def Carries (deviceId : ι → DeviceId) (dek : Dek) (ledger : Set (Ledger.Update DeviceId Nat Write))
    (t : SyncTask (List Write)) : Prop :=
  match t.phase with
  | .readVv | .readCursor | .readForks => t.replaced = false ∧ t.forks = []
  | .reconcile _ sealed => ∃ author blob, SyncBlob.openBlob dek sealed = some blob ∧
      update deviceId author blob ∈ ledger
  | .fastForward _ incoming | .sealLoser _ incoming | .applyWinner _ incoming _ =>
      ∃ author, update deviceId author incoming ∈ ledger
  | .put blob => ∃ image, blob = SyncBlob.sealBlob dek ⟨syncDbUuid, t.localVv, image⟩
  | _ => True

structure TaskInv (deviceId : ι → DeviceId) (d : ι) (bucket : SyncId)
    (log : List (LogEntry ι (List Write))) (held : List (Fork (List Write)) → Set Write)
    (t : SyncTask (List Write)) : Prop where
  sameBucket : t.syncId = bucket
  carries : Carries deviceId bucket.dek (ledger deviceId bucket.dek log) t
  vouched : ∃ v, Base (deviceId d) t v ∧
    Ledger.Vouched (ledger deviceId bucket.dek log) (components v) (held t.forks)

/-- `log` is that of the device's bucket. -/
structure DeviceInv (deviceId : ι → DeviceId) (log : List (LogEntry ι (List Write))) (d : ι)
    (dev : Device Write) : Prop where
  sameId : dev.deviceId = deviceId d
  saved : Ledger.Vouched (ledger deviceId dev.dek log) (components dev.syncVv) (heldBy dev [])
  tasks : ∀ t ∈ dev.tasks, TaskInv deviceId d dev.bucket log (heldBy dev) t

theorem holds_iff {dev : Device Write} {live : List Write} {forks : List (Fork (List Write))} {w : Write} :
    holds dev live forks w = true ↔
      w ∈ live ∨ keeps dev w = true ∨ inForks dev.dek forks w = true := by
  simp [holds, or_assoc]

theorem keeps_iff {dev : Device Write} {w : Write} : keeps dev w = true ↔
    inForks dev.dek dev.syncForks w = true ∨
      ∃ t ∈ dev.tasks, anchored t = true ∧ inForks dev.dek t.forks w = true := by
  simp [keeps, List.any_eq_true]

theorem endsSafe_iff {dev : Device Write} {t : SyncTask (List Write)} :
    endsSafe dev t = true ↔ (anchored t = true → t.forks ⊆ dev.syncForks) := by
  simp only [endsSafe, Bool.or_eq_true, Bool.not_eq_true', List.all_eq_true, decide_eq_true_eq]
  cases anchored t with
  | false => simp
  | true => simp [List.subset_def]

theorem inForks_append {dek : Dek} {forks more : List (Fork (List Write))} {w : Write} :
    inForks dek (forks ++ more) w = true ↔ inForks dek forks w = true ∨ inForks dek more w = true := by
  simp [inForks, List.any_append]

/-- A device that keeps what `dev` keeps, with the same live image or a longer one. -/
theorem heldBy_mono {dev after : Device Write} (sameDek : after.dek = dev.dek)
    (live : dev.store ⊆ after.store) (kept : ∀ w, keeps dev w = true → keeps after w = true)
    {forks more : List (Fork (List Write))} (grown : forks ⊆ more) :
    heldBy dev forks ⊆ heldBy after more := by
  intro w held
  rcases holds_iff.mp held with alive | saved | own
  · exact holds_iff.mpr (Or.inl (live alive))
  · exact holds_iff.mpr (Or.inr (Or.inl (kept w saved)))
  · refine holds_iff.mpr (Or.inr (Or.inr ?_))
    rw [sameDek]
    exact inForks_mono grown own

/-- A device that has taken over the forks of an anchored call. -/
theorem heldBy_anchored {dev : Device Write} {forks : List (Fork (List Write))}
    (kept : ∀ w, inForks dev.dek forks w = true → keeps dev w = true) :
    heldBy dev forks ⊆ heldBy dev [] := by
  intro w held
  rcases holds_iff.mp held with alive | saved | own
  · exact holds_iff.mpr (Or.inl alive)
  · exact holds_iff.mpr (Or.inr (Or.inl saved))
  · exact holds_iff.mpr (Or.inr (Or.inl (kept w own)))

section Calls

variable {deviceId : ι → DeviceId} {d : ι} {log longer : List (LogEntry ι (List Write))}
  {dev dev' : Device Write} {t moved : SyncTask (List Write)} {k : Nat}

/-- The calls that go on keep their forks, and so does the call that moves on. -/
theorem keeps_putTask (running : dev.tasks[k]? = some t) (sameDek : dev'.dek = dev.dek)
    (sameTasks : dev'.tasks = dev.tasks) (sameForks : dev'.syncForks = dev.syncForks)
    (own : anchored t = true → anchored moved = true ∧ t.forks ⊆ moved.forks) (w : Write)
    (kept : keeps dev w = true) : keeps (dev'.putTask k (some moved)) w = true := by
  have still : dev'.tasks[k]? = some t := by
    rw [sameTasks]
    exact running
  rw [keeps_iff]
  dsimp only [Device.putTask]
  rw [sameDek, sameForks]
  rcases keeps_iff.mp kept with saved | ⟨u, member, anchor, inside⟩
  · exact Or.inl saved
  · right
    by_cases same : u = t
    · subst same
      obtain ⟨anchor', grown⟩ := own anchor
      exact ⟨moved, moved_mem_putTask still, anchor', inForks_mono grown inside⟩
    · have other := other_mem_putTask still (some moved) (sameTasks ▸ member) same
      exact ⟨u, other, anchor, inside⟩

/-- Calls that may end leave everything in saved forks. -/
theorem keeps_drop {rest : List (SyncTask (List Write))}
    (ends : ∀ t ∈ dev.tasks, t ∈ rest ∨ endsSafe dev t = true) (w : Write) (kept : keeps dev w = true) :
    keeps { dev with tasks := rest } w = true := by
  rw [keeps_iff]
  rcases keeps_iff.mp kept with saved | ⟨u, member, anchor, inside⟩
  · exact Or.inl saved
  · cases ends u member with
    | inl stays => exact Or.inr ⟨u, stays, anchor, inside⟩
    | inr safe => exact Or.inl (inForks_mono (endsSafe_iff.mp safe anchor) inside)

omit [DecidableEq Write]

theorem TaskInv.mono {bucket : SyncId} {held more : List (Fork (List Write)) → Set Write}
    (inv : TaskInv deviceId d bucket log held t) (grown : held t.forks ⊆ more t.forks) :
    TaskInv deviceId d bucket log more t := by
  obtain ⟨v, base, vouched⟩ := inv.vouched
  exact ⟨inv.sameBucket, inv.carries, v, base, vouched.mono grown⟩

theorem Carries.mono {dek : Dek} {ledger later : Set (Ledger.Update DeviceId Nat Write)}
    (carries : Carries deviceId dek ledger t) (grown : ledger ⊆ later) : Carries deviceId dek later t := by
  obtain ⟨syncId, push, localVv, cursor, forks, count, phase, replaced⟩ := t
  cases phase with
  | reconcile i sealed =>
      obtain ⟨author, blob, opened, published⟩ := carries
      exact ⟨author, blob, opened, grown published⟩
  | fastForward i incoming | sealLoser i incoming | applyWinner i incoming loser =>
      obtain ⟨author, published⟩ := carries
      exact ⟨author, grown published⟩
  | _ => exact carries

theorem TaskInv.grow {bucket : SyncId} {held : List (Fork (List Write)) → Set Write}
    (inv : TaskInv deviceId d bucket log held t) (grown : Extends deviceId bucket.dek log longer) :
    TaskInv deviceId d bucket longer held t := by
  obtain ⟨v, base, vouched⟩ := inv.vouched
  exact ⟨inv.sameBucket, inv.carries.mono grown.subset, v, base, grown.vouched vouched⟩

/-- The head of the pull loop carries no blob. -/
theorem TaskInv.pull {bucket : SyncId} {held : List (Fork (List Write)) → Set Write} (i : Nat)
    (sameBucket : t.syncId = bucket)
    (vouched : Ledger.Vouched (ledger deviceId bucket.dek log) (components t.localVv) (held t.forks)) :
    TaskInv deviceId d bucket log held (t.pull i) := by
  unfold SyncTask.pull
  split
  · exact ⟨sameBucket, trivial, t.localVv, rfl, vouched⟩
  · refine ⟨sameBucket, ?_, t.localVv, ?_, vouched⟩
    · cases t.push <;> trivial
    · cases t.push <;> rfl

theorem anchored_pull (t : SyncTask (List Write)) (i : Nat) : anchored (t.pull i) = t.replaced := by
  unfold SyncTask.pull
  split
  · exact Bool.or_false _
  · cases t.push <;> exact Bool.or_false _

theorem Base.le {id : DeviceId} {v : VersionVector} (base : Base id t v) : v ≤ t.localVv := by
  obtain ⟨syncId, push, localVv, cursor, forks, count, phase, replaced⟩ := t
  cases phase with
  | put blob =>
      obtain rfl : localVv = v.increment id := base
      exact le_increment v id
  | _ =>
      obtain rfl : v = localVv := base
      exact le_refl v

variable [DecidableEq Write]

theorem DeviceInv.grow (inv : DeviceInv deviceId log d dev)
    (grown : Extends deviceId dev.dek log longer) : DeviceInv deviceId longer d dev :=
  ⟨inv.sameId, grown.vouched inv.saved, fun t running => (inv.tasks t running).grow grown⟩

/-- A segment of a call that goes on. -/
theorem DeviceInv.moves (inv : DeviceInv deviceId log d dev) (frame : dev.Frame dev')
    (saved : Ledger.Vouched (ledger deviceId dev.dek log) (components dev'.syncVv)
      (heldBy (dev'.putTask k (some moved)) []))
    (others : ∀ u ∈ dev.tasks,
      TaskInv deviceId d dev.bucket log (heldBy (dev'.putTask k (some moved))) u)
    (own : TaskInv deviceId d dev.bucket log (heldBy (dev'.putTask k (some moved))) moved) :
    DeviceInv deviceId log d (dev'.putTask k (some moved)) := by
  have sameDek : (dev'.putTask k (some moved)).dek = dev.dek := frame.dek
  have sameBucket : (dev'.putTask k (some moved)).bucket = dev.bucket := by
    rw [Device.bucket, sameDek]
    rfl
  refine ⟨frame.deviceId.trans inv.sameId, ?_, ?_⟩
  · rw [sameDek]
    exact saved
  · intro u member
    rw [sameBucket]
    rcases mem_putTask member with old | new
    · exact others u (frame.tasks ▸ old)
    · obtain rfl := Option.some.inj new
      exact own

/-- A segment that leaves the live image and the records alone. -/
theorem DeviceInv.quiet (inv : DeviceInv deviceId log d dev) (running : dev.tasks[k]? = some t)
    (frame : dev.Frame dev') (sameStore : dev'.store = dev.store) (sameVv : dev'.syncVv = dev.syncVv)
    (sameForks : dev'.syncForks = dev.syncForks)
    (keeps_on : anchored t = true → anchored moved = true ∧ t.forks ⊆ moved.forks)
    (own : TaskInv deviceId d dev.bucket log (heldBy dev) moved) :
    DeviceInv deviceId log d (dev'.putTask k (some moved)) := by
  have sameDek : (dev'.putTask k (some moved)).dek = dev.dek := frame.dek
  have live : dev.store ⊆ (dev'.putTask k (some moved)).store := sameStore ▸ List.Subset.refl _
  have grown : ∀ forks, heldBy dev forks ⊆ heldBy (dev'.putTask k (some moved)) forks := by
    intro forks
    apply heldBy_mono sameDek live _ (List.Subset.refl _)
    exact keeps_putTask running frame.dek frame.tasks sameForks keeps_on
  refine inv.moves frame ?_ ?_ ?_
  · rw [sameVv]
    exact inv.saved.mono (grown [])
  · exact fun u member => (inv.tasks u member).mono (grown u.forks)
  · exact own.mono (grown moved.forks)

/-- Such a segment that goes on with the pull loop. -/
theorem DeviceInv.pulls (inv : DeviceInv deviceId log d dev) (running : dev.tasks[k]? = some t)
    (frame : dev.Frame dev') (sameStore : dev'.store = dev.store) (sameVv : dev'.syncVv = dev.syncVv)
    (sameForks : dev'.syncForks = dev.syncForks) (i : Nat) (sameBucket : moved.syncId = dev.bucket)
    (waits : anchored t = true → moved.replaced = true) (forks : t.forks ⊆ moved.forks)
    (vouched : Ledger.Vouched (ledger deviceId dev.dek log) (components moved.localVv)
      (heldBy dev moved.forks)) :
    DeviceInv deviceId log d (dev'.putTask k (some (moved.pull i))) := by
  refine inv.quiet running frame sameStore sameVv sameForks ?_ (TaskInv.pull i sameBucket vouched)
  intro anchor
  rw [anchored_pull, SyncTask.pull_forks]
  exact ⟨waits anchor, forks⟩

/-- A segment that replaces the live image and keeps `loser` for every call. -/
theorem DeviceInv.replaces (inv : DeviceInv deviceId log d dev) (running : dev.tasks[k]? = some t)
    {incoming : SyncBlob (List Write)} {author : ι} {loser : List (Fork (List Write))} (i : Nat)
    (published : update deviceId author incoming ∈ ledger deviceId dev.dek log)
    (safe : replaceSafe deviceId log dev t incoming loser = true)
    (known : Ledger.Seen (ledger deviceId dev.dek log) (components t.localVv))
    (sameBucket : moved.syncId = t.syncId) (merged : moved.localVv = t.localVv.mergeMax incoming.vv)
    (forks : t.forks ⊆ moved.forks) (waits : anchored t = true → moved.replaced = true)
    (lost : ∀ f ∈ loser, moved.replaced = true ∧ f ∈ moved.forks) :
    DeviceInv deviceId log d
      ({ dev.reconcile t i with store := incoming.image }.putTask k (some (moved.pull (i + 1)))) := by
  have frame : dev.Frame { dev.reconcile t i with store := incoming.image } :=
    ⟨rfl, rfl, rfl, rfl, (Device.Frame.reconcile dev t i).reconciled⟩
  set after := { dev.reconcile t i with store := incoming.image }.putTask k (some (moved.pull (i + 1)))
    with isAfter
  have here : moved.pull (i + 1) ∈ after.tasks := moved_mem_putTask running
  have kept : ∀ w, keeps dev w = true → keeps after w = true := by
    refine keeps_putTask running rfl rfl rfl fun anchor => ⟨?_, ?_⟩
    · rw [anchored_pull]
      exact waits anchor
    · rw [SyncTask.pull_forks]
      exact forks
  have keptLoser : ∀ w, inForks dev.dek loser w = true → keeps after w = true := by
    intro w inside
    obtain ⟨f, member, blob, opened, contained⟩ := inForks_iff.mp inside
    obtain ⟨had, mine⟩ := lost f member
    refine keeps_iff.mpr (Or.inr ⟨_, here, ?_, inForks_iff.mpr ⟨f, ?_, blob, opened, contained⟩⟩)
    · rw [anchored_pull]
      exact had
    · rw [SyncTask.pull_forks]
      exact mine
  have remains : ∀ forks, {w | holds dev incoming.image (forks ++ loser) w = true} ⊆
      heldBy after forks := by
    intro forks w held
    rcases holds_iff.mp held with alive | saved | own
    · exact holds_iff.mpr (Or.inl alive)
    · exact holds_iff.mpr (Or.inr (Or.inl (kept w saved)))
    · rcases inForks_append.mp own with mine | others
      · exact holds_iff.mpr (Or.inr (Or.inr mine))
      · exact holds_iff.mpr (Or.inr (Or.inl (keptLoser w others)))
  simp only [replaceSafe, Bool.and_eq_true, List.all_eq_true, covers_iff] at safe
  obtain ⟨⟨saved, arrived⟩, calls⟩ := safe
  have grown : heldBy after t.forks ⊆ heldBy after moved.forks :=
    heldBy_mono rfl (List.Subset.refl _) (fun _ => id) forks
  refine inv.moves frame ?_ ?_ ?_
  · exact ⟨inv.saved.seen, saved.mono (remains [])⟩
  · intro u member
    obtain ⟨v, base, vouched⟩ := (inv.tasks u member).vouched
    refine ⟨(inv.tasks u member).sameBucket, (inv.tasks u member).carries, v, base, vouched.seen, ?_⟩
    exact ((calls u member).mono (remains u.forks)).of_le (components_le base.le)
  · have running_call := List.mem_of_getElem? running
    apply TaskInv.pull
    · exact sameBucket.trans (inv.tasks t running_call).sameBucket
    · rw [merged, components_mergeMax]
      apply Ledger.Vouched.sup
      · exact ⟨known, ((calls t running_call).mono (remains t.forks)).mono grown⟩
      · exact ⟨Ledger.Seen.of_mem published, (arrived.mono (remains t.forks)).mono grown⟩

/-- The vector is saved: what it claims is held by saved forks and those the call will save. -/
theorem DeviceInv.saves (inv : DeviceInv deviceId log d dev) (running : dev.tasks[k]? = some t)
    (anchor : anchored moved = true) (forks : moved.forks = t.forks) {v : VersionVector}
    (vouched : Ledger.Vouched (ledger deviceId dev.dek log) (components v) (heldBy dev t.forks))
    (own : TaskInv deviceId d dev.bucket log (heldBy dev) moved) :
    DeviceInv deviceId log d (Device.putTask { dev with syncVv := v } k (some moved)) := by
  have frame : dev.Frame { dev with syncVv := v } := ⟨rfl, rfl, rfl, rfl, fun _ => id⟩
  have kept : ∀ w, keeps dev w = true →
      keeps (Device.putTask { dev with syncVv := v } k (some moved)) w = true := by
    refine keeps_putTask running rfl rfl rfl fun _ => ⟨anchor, ?_⟩
    rw [forks]
    exact List.Subset.refl _
  have grown : ∀ forks, heldBy dev forks ⊆
      heldBy (Device.putTask { dev with syncVv := v } k (some moved)) forks := by
    intro forks
    apply heldBy_mono _ _ kept (List.Subset.refl _)
    · rfl
    · exact List.Subset.refl dev.store
  refine inv.moves frame ?_ ?_ ?_
  · refine vouched.mono ((grown t.forks).trans (heldBy_anchored fun w inside => ?_))
    rw [← forks] at inside
    exact keeps_iff.mpr (Or.inr ⟨moved, moved_mem_putTask running, anchor, inside⟩)
  · exact fun u member => (inv.tasks u member).mono (grown u.forks)
  · exact own.mono (grown moved.forks)

/-- Calls end, and what they kept is kept without them. -/
theorem DeviceInv.ends (inv : DeviceInv deviceId log d dev) (sameId : dev'.deviceId = deviceId d)
    (sameDek : dev'.dek = dev.dek) (sameStore : dev'.store = dev.store)
    (sameVv : dev'.syncVv = dev.syncVv) (rest : dev'.tasks ⊆ dev.tasks)
    (kept : ∀ w, keeps dev w = true → keeps dev' w = true) : DeviceInv deviceId log d dev' := by
  have grown : ∀ forks, heldBy dev forks ⊆ heldBy dev' forks :=
    fun forks => heldBy_mono sameDek (sameStore ▸ List.Subset.refl _) kept (List.Subset.refl _)
  refine ⟨sameId, ?_, ?_⟩
  · rw [sameDek, sameVv]
    exact inv.saved.mono (grown [])
  · intro u member
    rw [Device.bucket, sameDek]
    exact (inv.tasks u (rest member)).mono (grown u.forks)

/-- One segment that meets its condition keeps the invariant of its device. -/
theorem resume_inv (inv : DeviceInv deviceId log d dev) (pushed : Pushed deviceId dev.dek log)
    (running : dev.tasks[k]? = some t) (safe : segmentSafe deviceId log dev t = true) :
    Extends deviceId dev.dek log (advance (historyOps Write) d log dev t).2.2 ∧
      DeviceInv deviceId (advance (historyOps Write) d log dev t).2.2 d
        ((advance (historyOps Write) d log dev t).1.putTask k
          (advance (historyOps Write) d log dev t).2.1) := by
  have same := Device.Frame.refl dev
  have stays : Extends deviceId dev.dek log log := Or.inl rfl
  have taskInv := inv.tasks t (List.mem_of_getElem? running)
  obtain ⟨syncId, push, localVv, cursor, forks, count, phase, replaced⟩ := t
  obtain ⟨sameBucket, carries, v, base, vouched⟩ := taskInv
  have on : (replaced || false) = true → replaced = true := by simp
  cases phase with
  | readVv =>
      obtain ⟨fresh, none_read⟩ : replaced = false ∧ forks = [] := carries
      subst fresh none_read
      refine ⟨stays, inv.quiet running same rfl rfl rfl (fun anchor => by cases anchor) ?_⟩
      exact ⟨sameBucket, ⟨rfl, rfl⟩, dev.syncVv, rfl, inv.saved⟩
  | readCursor =>
      refine ⟨stays, inv.quiet running same rfl rfl rfl ?_ ?_⟩
      · exact fun anchor => ⟨anchor, List.Subset.refl _⟩
      · exact ⟨sameBucket, carries, v, base, vouched⟩
  | readForks =>
      obtain ⟨fresh, none_read⟩ : replaced = false ∧ forks = [] := carries
      subst fresh none_read
      refine ⟨stays, inv.quiet running same rfl rfl rfl (fun anchor => by cases anchor) ?_⟩
      refine ⟨sameBucket, trivial, v, base, vouched.mono ?_⟩
      exact heldBy_mono rfl (List.Subset.refl _) (fun _ => id) (List.nil_subset _)
  | list =>
      obtain rfl : v = localVv := base
      refine ⟨stays, inv.pulls running same rfl rfl rfl 0 sameBucket on ?_ vouched⟩
      exact List.Subset.refl _
  | get i =>
      obtain rfl : v = localVv := base
      simp only [advance]
      cases found : log[cursor + i]? with
      | none =>
          refine ⟨stays, inv.pulls running same rfl rfl rfl (i + 1) sameBucket on ?_ vouched⟩
          exact List.Subset.refl _
      | some entry =>
          have listed := List.mem_of_getElem? found
          obtain ⟨blob, opened, _⟩ := pushed entry listed
          refine ⟨stays, inv.quiet running same rfl rfl rfl ?_ ?_⟩
          · exact fun anchor => ⟨anchor, List.Subset.refl _⟩
          · exact ⟨sameBucket, ⟨entry.author, blob, opened, entry, listed, blob, opened, rfl⟩, v, rfl,
              vouched⟩
  | reconcile i sealed =>
      obtain ⟨author, incoming, opened, published⟩ := carries
      obtain rfl : v = localVv := base
      have opened' : SyncBlob.openBlob dev.dek sealed = some incoming := opened
      simp only [advance, opened']
      cases outcome : Freehold.reconcile v incoming.vv with
      | fastForward =>
          refine ⟨stays, inv.quiet running same rfl rfl rfl ?_ ?_⟩
          · exact fun anchor => ⟨anchor, List.Subset.refl _⟩
          · exact ⟨sameBucket, ⟨author, published⟩, v, rfl, vouched⟩
      | stale =>
          refine ⟨stays, inv.pulls running (.reconcile ..) rfl rfl rfl (i + 1) sameBucket on ?_ vouched⟩
          exact List.Subset.refl _
      | fork winnerIsIncoming =>
          cases winnerIsIncoming with
          | true =>
              refine ⟨stays, inv.quiet running same rfl rfl rfl ?_ ?_⟩
              · exact fun anchor => ⟨anchor, List.Subset.refl _⟩
              · exact ⟨sameBucket, ⟨author, published⟩, v, rfl, vouched⟩
          | false =>
              refine ⟨stays, inv.pulls running (.reconcile ..) rfl rfl rfl (i + 1) sameBucket on ?_ ?_⟩
              · exact List.subset_append_left _ _
              · have arrived : Ledger.Covers (ledger deviceId dev.dek log) (components incoming.vv)
                    {w | holds dev (incoming.image ++ dev.store) forks w = true} := by
                  simp only [segmentSafe, opened', outcome, Option.all_some] at safe
                  exact covers_iff.mp safe
                -- the incoming image is now among the forks of the call
                have stashed : {w | holds dev (incoming.image ++ dev.store) forks w = true} ⊆
                    heldBy dev (forks ++ [⟨(cursor + i, forks.length), sealed⟩]) := by
                  intro w held
                  rcases holds_iff.mp held with alive | saved | own
                  · cases List.mem_append.mp alive with
                    | inl lost =>
                        refine holds_iff.mpr (Or.inr (Or.inr (inForks_append.mpr (Or.inr ?_))))
                        exact inForks_iff.mpr ⟨_, List.mem_singleton_self _, incoming, opened', lost⟩
                    | inr live => exact holds_iff.mpr (Or.inl live)
                  · exact holds_iff.mpr (Or.inr (Or.inl saved))
                  · exact holds_iff.mpr (Or.inr (Or.inr (inForks_append.mpr (Or.inl own))))
                dsimp only [SyncTask.stash]
                rw [components_mergeMax]
                apply Ledger.Vouched.sup
                · exact vouched.mono (heldBy_mono rfl (List.Subset.refl _) (fun _ => id)
                    (List.subset_append_left _ _))
                · exact ⟨Ledger.Seen.of_mem published, arrived.mono stashed⟩
  | fastForward i incoming =>
      obtain ⟨author, published⟩ := carries
      obtain rfl : v = localVv := base
      refine ⟨stays, inv.replaces running i published safe vouched.seen rfl rfl ?_ on ?_⟩
      · exact List.Subset.refl _
      · exact fun f member => absurd member List.not_mem_nil
  | sealLoser i incoming =>
      refine ⟨stays, inv.quiet running same rfl rfl rfl ?_ ?_⟩
      · exact fun anchor => ⟨anchor, List.Subset.refl _⟩
      · exact ⟨sameBucket, carries, v, base, vouched⟩
  | applyWinner i incoming loser =>
      obtain ⟨author, published⟩ := carries
      obtain rfl : v = localVv := base
      refine ⟨stays, inv.replaces running i published safe vouched.seen rfl rfl ?_ ?_ ?_⟩
      · exact List.subset_append_left _ _
      · exact fun _ => rfl
      · exact fun f member => ⟨rfl, member⟩
  | sealPush =>
      obtain rfl : v = localVv := base
      refine ⟨stays, inv.quiet running same rfl rfl rfl ?_ ?_⟩
      · exact fun anchor => ⟨anchor, List.Subset.refl _⟩
      · refine ⟨sameBucket, ⟨dev.store, rfl⟩, v, ?_, vouched⟩
        rw [← inv.sameId]
        rfl
  | put blob =>
      obtain ⟨image, sealedAs⟩ : ∃ image,
          blob = SyncBlob.sealBlob dev.dek ⟨syncDbUuid, localVv, image⟩ := carries
      subst sealedAs
      have next : localVv = v.increment (deviceId d) := base
      have opened : SyncBlob.openBlob dev.dek (SyncBlob.sealBlob dev.dek
          ⟨syncDbUuid, localVv, image⟩) = some ⟨syncDbUuid, localVv, image⟩ :=
        SyncBlob.openBlob_sealBlob ..
      simp only [segmentSafe, opened, Option.all_some, Bool.and_eq_true, List.all_eq_true,
        Option.all_eq_true, decide_eq_true_eq] at safe
      obtain ⟨unused, held⟩ := safe
      have number : 0 < components (v.increment (deviceId d)) (deviceId d) ∧
          components (v.increment (deviceId d)) (deviceId d) ≤ components v (deviceId d) + 1 :=
        components_increment_self
      rw [← next] at number
      have fresh : Ledger.Fresh (ledger deviceId dev.dek log)
          (update deviceId d ⟨syncDbUuid, localVv, image⟩) := by
        refine ⟨number.1, ?_⟩
        rintro e ⟨entry, listed, blob, opens, rfl⟩
        have less := unused entry listed blob opens
        rw [inv.sameId] at less
        exact UInt64.lt_iff_toNat_lt.mp less
      have extends_log : Extends deviceId dev.dek log
          (log ++ [⟨d, SyncBlob.sealBlob dev.dek ⟨syncDbUuid, localVv, image⟩⟩]) :=
        Or.inr ⟨d, _, rfl, fresh⟩
      refine ⟨extends_log, (inv.grow extends_log).quiet running same rfl rfl rfl ?_ ?_⟩
      · exact fun anchor => ⟨anchor, List.Subset.refl _⟩
      · refine ⟨sameBucket, trivial, localVv, rfl, ?_⟩
        dsimp only [Device.bucket]
        rw [ledger_append]
        refine vouched.publish fresh ?_ ?_ held
        · intro id apart
          dsimp only [update]
          rw [next]
          exact components_increment_of_ne apart
        · intro n below
          have bound := lt_of_lt_of_le below number.2
          exact Nat.lt_succ_iff.mp bound
  | relist =>
      refine ⟨stays, inv.quiet running same rfl rfl rfl ?_ ?_⟩
      · exact fun anchor => ⟨anchor, List.Subset.refl _⟩
      · exact ⟨sameBucket, trivial, v, base, vouched⟩
  | saveVv =>
      obtain rfl : v = localVv := base
      have anchor : anchored (⟨syncId, push, v, cursor, forks, count, .saveCursor, replaced⟩ :
          SyncTask (List Write)) = true := Bool.or_true _
      refine ⟨stays, inv.saves running anchor rfl vouched ?_⟩
      exact ⟨sameBucket, trivial, v, rfl, vouched⟩
  | saveCursor =>
      refine ⟨stays, inv.quiet running ?_ rfl rfl rfl ?_ ?_⟩
      · exact ⟨rfl, rfl, rfl, rfl, fun _ => id⟩
      · exact fun _ => ⟨Bool.or_true _, List.Subset.refl _⟩
      · exact ⟨sameBucket, trivial, v, base, vouched⟩
  | saveForks =>
      have current : dev.syncForks ⊆ forks := by
        intro f saved
        simp only [segmentSafe, List.all_eq_true, decide_eq_true_eq] at safe
        exact safe f saved
      refine ⟨stays, inv.ends inv.sameId rfl rfl rfl (List.eraseIdx_subset ..) ?_⟩
      intro w kept
      refine keeps_iff.mpr ?_
      rcases keeps_iff.mp kept with saved | ⟨u, member, anchor, inside⟩
      · exact Or.inl (inForks_mono current saved)
      · by_cases own : u = ⟨syncId, push, localVv, cursor, forks, count, .saveForks, replaced⟩
        · subst own
          exact Or.inl inside
        · exact Or.inr ⟨u, other_mem_putTask running none member own, anchor, inside⟩

omit [DecidableEq Write] in
theorem putTask_bucket (t : Option (SyncTask (List Write))) :
    Device.bucket (dev.putTask k t) = dev.bucket := by
  cases t <;> rfl

/-- One action that meets its condition keeps the invariant of its device and adds at most a
fresh blob to a bucket. -/
theorem act_inv {logs later : SyncId → List (LogEntry ι (List Write))} {dev after : Device Write}
    {action : Action (List Write) Write} (safe : actionSafe deviceId logs dev action = true)
    (taken : dev.act (historyOps Write) d logs action = some (after, later))
    (inv : DeviceInv deviceId (logs dev.bucket) d dev)
    (pushed : ∀ s : SyncId, Pushed deviceId s.dek (logs s)) :
    DeviceInv deviceId (later after.bucket) d after ∧
      ∀ s : SyncId, Extends deviceId s.dek (logs s) (later s) := by
  have stays : ∀ s : SyncId, Extends deviceId s.dek (logs s) (logs s) := fun _ => Or.inl rfl
  cases action with
  | commit w =>
      cases taken
      have grown : ∀ forks, heldBy dev forks ⊆
          heldBy { dev with store := w :: dev.store, committed := w :: dev.committed } forks := by
        intro forks
        apply heldBy_mono _ _ _ (List.Subset.refl _)
        · rfl
        · exact List.subset_cons_self w dev.store
        · exact fun _ kept => kept
      refine ⟨⟨inv.sameId, inv.saved.mono (grown []), ?_⟩, stays⟩
      exact fun u running => (inv.tasks u running).mono (grown u.forks)
  | startSync push =>
      cases taken
      have grown : ∀ forks, heldBy dev forks ⊆
          heldBy { dev with tasks := dev.tasks ++ [.start dev.bucket push] } forks := by
        intro forks
        apply heldBy_mono _ _ _ (List.Subset.refl _)
        · rfl
        · exact List.Subset.refl dev.store
        · intro w kept
          refine keeps_iff.mpr ((keeps_iff.mp kept).imp_right ?_)
          rintro ⟨u, member, held⟩
          exact ⟨u, List.mem_append_left _ member, held⟩
      refine ⟨⟨inv.sameId, inv.saved.mono (grown []), ?_⟩, stays⟩
      intro u running
      rcases List.mem_append.mp running with old | new
      · exact (inv.tasks u old).mono (grown u.forks)
      · obtain rfl := List.mem_singleton.mp new
        refine ⟨rfl, ⟨rfl, rfl⟩, .new, rfl, ?_⟩
        rw [components_new]
        exact Ledger.Vouched.bot (pushed dev.bucket).positive
  | resume k =>
      obtain ⟨t, running, moved⟩ := Option.map_eq_some_iff.mp taken
      obtain ⟨rfl, rfl⟩ := Prod.mk.inj moved
      have sameBucket := (inv.tasks t (List.mem_of_getElem? running)).sameBucket
      have safe : segmentSafe deviceId (logs dev.bucket) dev t = true := by
        simpa [actionSafe, running, sameBucket] using safe
      obtain ⟨grown, inv'⟩ := resume_inv inv (pushed dev.bucket) running safe
      have frame := advance_frame (historyOps Write) d (logs dev.bucket) dev t
      rw [sameBucket]
      refine ⟨?_, ?_⟩
      · have stillBucket : (advance (historyOps Write) d (logs dev.bucket) dev t).1.bucket = dev.bucket :=
          congrArg (fun dek => (⟨dek, syncDbUuid⟩ : SyncId)) frame.dek
        rw [putTask_bucket, stillBucket, Function.update_self]
        exact inv'
      · intro s
        by_cases own : s = dev.bucket
        · subst own
          rw [Function.update_self]
          exact grown
        · rw [Function.update_of_ne own]
          exact Or.inl rfl
  | abort k =>
      obtain ⟨t, running, moved⟩ := Option.map_eq_some_iff.mp taken
      obtain ⟨rfl, rfl⟩ := Prod.mk.inj moved
      have ends : endsSafe dev t = true := by simpa [actionSafe, running] using safe
      refine ⟨inv.ends inv.sameId rfl rfl rfl (List.eraseIdx_subset ..) (keeps_drop ?_), stays⟩
      intro u member
      by_cases own : u = t
      · subst own
        exact Or.inr ends
      · exact Or.inl (other_mem_putTask running none member own)
  | crash =>
      cases taken
      refine ⟨inv.ends inv.sameId rfl rfl rfl (List.nil_subset _) (keeps_drop ?_), stays⟩
      exact fun u member => Or.inr (List.all_eq_true.mp safe u member)
  | rotateKey dek => cases safe
  | importBundle dek store =>
      cases taken
      simp only [actionSafe, Bool.and_eq_true, List.isEmpty_iff, covers_iff] at safe
      obtain ⟨⟨quiet, known⟩, covered⟩ := safe
      refine ⟨⟨inv.sameId, ⟨seen_of_check known, covered.mono ?_⟩, ?_⟩, stays⟩
      · intro w held
        have held' : w ∈ store ∨ inForks dek dev.syncForks w = true := by simpa using held
        rcases held' with alive | saved
        · exact holds_iff.mpr (Or.inl alive)
        · exact holds_iff.mpr (Or.inr (Or.inl (keeps_iff.mpr (Or.inl saved))))
      · intro u running
        rw [show _ = _ from quiet] at running
        cases running

end Calls

end Invariant

variable {ι Write : Type} [DecidableEq Write]

theorem held_of_heldBy {dev : Device Write} {forks : List (Fork (List Write))} {w : Write}
    (held : w ∈ heldBy dev forks) (own : inForks dev.dek forks w = true → Held dev w) : Held dev w := by
  rcases holds_iff.mp held with alive | saved | mine
  · exact Or.inl alive
  · rcases keeps_iff.mp saved with stored | ⟨u, member, _, inside⟩
    · exact Or.inr (Or.inl stored)
    · exact Or.inr (Or.inr ⟨u, member, inside⟩)
  · exact own mine

variable [DecidableEq ι]

/-- The invariant of every run of steps that meet their condition. -/
theorem inv_of_reaches {deviceId : ι → DeviceId} {dek : ι → Dek} {store : ι → List Write}
    {world : World ι (List Write) (List Write) Write}
    (reached : Runs.Reaches (step (historyOps Write)) (fun world event =>
      actionSafe deviceId world.logs (world.devices event.1) event.2 = true)
      (World.fresh deviceId dek store) world) :
    (∀ d, DeviceInv deviceId (world.logs (world.devices d).bucket) d (world.devices d)) ∧
      ∀ s : SyncId, Pushed deviceId s.dek (world.logs s) := by
  refine reached.invariant (fun world =>
    (∀ d, DeviceInv deviceId (world.logs (world.devices d).bucket) d (world.devices d)) ∧
      ∀ s : SyncId, Pushed deviceId s.dek (world.logs s)) ?_ ?_
  · refine ⟨fun d => ⟨rfl, ?_, fun t running => nomatch running⟩, fun s entry listed => nomatch listed⟩
    show Ledger.Vouched _ (components .new) _
    rw [components_new]
    exact Ledger.Vouched.bot fun u ⟨entry, listed, _⟩ => nomatch listed
  · rintro before after event ⟨devices, pushed⟩ safe taken
    obtain ⟨⟨dev, later⟩, acted, rfl⟩ := Option.map_eq_some_iff.mp taken
    obtain ⟨own, grown⟩ := act_inv safe acted (devices event.1) pushed
    refine ⟨?_, fun s => (grown s).pushed (pushed s)⟩
    intro d
    by_cases same : d = event.1
    · subst same
      simpa using own
    · simpa [Function.update_of_ne same] using (devices d).grow (grown _)

end Freehold.SyncClaims
