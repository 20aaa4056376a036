import Freehold.Sync

set_option autoImplicit false

/- Devices whose live files are abstracted to the writes they contain. -/
namespace Freehold.SyncHistory

variable {ι Write : Type} [DecidableEq Write]

abbrev Device (Write : Type) := Freehold.Device (List Write) (List Write) Write

/-- `w` is in the history of an image kept in `forks`. -/
def inForks (dek : Dek) (forks : List (Fork (List Write))) (w : Write) : Bool :=
  forks.any fun f => (SyncBlob.openBlob dek f.sealed).any fun blob => w ∈ blob.image

theorem inForks_iff {dek : Dek} {forks : List (Fork (List Write))} {w : Write} :
    inForks dek forks w = true ↔
      ∃ f ∈ forks, ∃ blob, SyncBlob.openBlob dek f.sealed = some blob ∧ w ∈ blob.image := by
  simp [inForks, List.any_eq_true, Option.any_eq_true]

theorem inForks_mono {dek : Dek} {forks more : List (Fork (List Write))} {w : Write}
    (kept : forks ⊆ more) (held : inForks dek forks w = true) : inForks dek more w = true := by
  obtain ⟨f, member, blob, opened, contained⟩ := inForks_iff.mp held
  exact inForks_iff.mpr ⟨f, kept member, blob, opened, contained⟩

/-- The forks a running call can rely on: the saved ones and, once it has
replaced the live image, its own. -/
def kept (dev : Device Write) (t : SyncTask (List Write)) (w : Write) : Bool :=
  inForks dev.dek dev.syncForks w || (t.replaced && inForks dev.dek t.forks w)

variable [DecidableEq ι]

/-- The blobs `d` has put in the bucket with `n` as its own component. -/
def pushed (d : ι) (log : List (LogEntry ι (List Write))) (dev : Device Write) (n : UInt64) :
    List (SyncBlob (List Write)) :=
  log.filterMap fun entry =>
    if entry.author = d then
      (SyncBlob.openBlob dev.dek entry.sealed).filter fun blob => blob.vv.get dev.deviceId = n
    else none

/-- What a segment of `sync()` must meet for no commit to be lost.
 - A FastForward to a vector that carries `n` for the receiver: the receiver has
   committed nothing since its push number `n`, and the incoming image contains
   that push.
 - A fork winner is applied to the live image its loser was sealed from.
 - The forks are saved over the list the call has read. -/
def segmentSafe (d : ι) (log : List (LogEntry ι (List Write))) (dev : Device Write)
    (t : SyncTask (List Write)) : Bool :=
  match t.phase with
  | .fastForward _ incoming =>
      let pushes := pushed d log dev (incoming.vv.get dev.deviceId)
      (dev.committed.all fun w => kept dev t w || pushes.any fun blob => w ∈ blob.image) &&
        pushes.all fun blob => dev.committed.all fun w =>
          w ∉ blob.image || (w ∈ incoming.image || kept dev t w)
  | .applyWinner _ _ loser =>
      (SyncBlob.openBlob dev.dek loser).any fun blob => blob.image = dev.store
  | .saveForks => dev.syncForks.all fun f => f ∈ t.forks
  | _ => true

/-- The steps of the claim's runs under which no commit is lost. A call may die
only while no fork winner it applied has its loser unsaved; the DEK stays. -/
def actionSafe (d : ι) (logs : SyncId → List (LogEntry ι (List Write))) (dev : Device Write) :
    Action (List Write) Write → Bool
  | .resume k => dev.tasks[k]?.all fun t => segmentSafe d (logs t.syncId) dev t
  | .abort k => dev.tasks[k]?.all fun t => !t.replaced
  | .crash => dev.tasks.all fun t => !t.replaced
  | .rotateKey _ | .importBundle _ _ => false
  | .commit _ | .startSync _ => true

/-- The blob a call is about to reconcile or to put opens under the DEK, and a
call that has not begun to pull has replaced nothing. -/
def TaskInv (dek : Dek) (t : SyncTask (List Write)) : Prop :=
  match t.phase with
  | .reconcile _ sealed => (SyncBlob.openBlob dek sealed).isSome
  | .put blob => (SyncBlob.openBlob dek blob).isSome
  | .readVv | .readCursor | .readForks | .list => t.replaced = false
  | _ => True

structure DeviceInv (dek : Dek) (dev : Device Write) : Prop where
  sameDek : dev.dek = dek
  covered : ∀ w ∈ dev.committed, w ∈ dev.store ∨ inForks dek dev.syncForks w = true ∨
    ∃ t ∈ dev.tasks, t.replaced = true ∧ inForks dek t.forks w = true
  tasks : ∀ t ∈ dev.tasks, TaskInv dek t

/-- Every blob of every bucket opens under the DEK of the fleet. -/
def Opens (dek : Dek) (log : List (LogEntry ι (List Write))) : Prop :=
  ∀ entry ∈ log, (SyncBlob.openBlob dek entry.sealed).isSome

omit [DecidableEq Write] in
theorem TaskInv.pull {dek : Dek} (t : SyncTask (List Write)) (i : Nat) :
    TaskInv dek (t.pull i) := by
  unfold SyncTask.pull
  split
  · trivial
  · cases t.push <;> trivial

/-- A safe FastForward loses no commit of the receiver. -/
theorem fastForward_keeps {d : ι} {log : List (LogEntry ι (List Write))} {dev : Device Write}
    {t : SyncTask (List Write)} {i : Nat} {incoming : SyncBlob (List Write)}
    (at_apply : t.phase = .fastForward i incoming) (safe : segmentSafe d log dev t = true)
    {w : Write} (committed : w ∈ dev.committed) :
    w ∈ incoming.image ∨ kept dev t w = true := by
  simp only [segmentSafe, at_apply, Bool.and_eq_true, List.all_eq_true, Bool.or_eq_true,
    List.any_eq_true, decide_eq_true_eq] at safe
  obtain ⟨nothing_since, contains⟩ := safe
  rcases nothing_since w committed with held | ⟨blob, pushed, carried⟩
  · exact .inr held
  · exact (contains blob pushed w committed).resolve_left (not_not_intro carried)

/-- Where the call `t` itself accounts for a write of its device. -/
def CoveredBy (dek : Dek) (dev : Device Write) (t : Option (SyncTask (List Write)))
    (w : Write) : Prop :=
  w ∈ dev.store ∨ inForks dek dev.syncForks w = true ∨
    ∃ u ∈ t, u.replaced = true ∧ inForks dek u.forks w = true

/-- A call that leaves the live image alone, and keeps what it has replaced,
still accounts for every write. -/
theorem CoveredBy.carry {dek : Dek} {dev after : Device Write} {t moved : SyncTask (List Write)}
    {w : Write} (covered : CoveredBy dek dev (some t) w) (sameStore : after.store = dev.store)
    (sameForks : after.syncForks = dev.syncForks) (replaced : moved.replaced = t.replaced)
    (forks : t.forks ⊆ moved.forks) : CoveredBy dek after (some moved) w := by
  rcases covered with live | saved | ⟨u, ⟨⟩, had, held⟩
  · exact .inl (sameStore ▸ live)
  · exact .inr (.inl (sameForks ▸ saved))
  · exact .inr (.inr ⟨moved, rfl, replaced.trans had, inForks_mono forks held⟩)

/-- One safe segment keeps every write of its device accounted for. -/
theorem advance_covered {dek : Dek} {d : ι} {log : List (LogEntry ι (List Write))}
    {dev : Device Write} {t : SyncTask (List Write)} (sameDek : dev.dek = dek)
    (inv : TaskInv dek t) (safe : segmentSafe d log dev t = true) {w : Write}
    (committed : w ∈ dev.committed) (covered : CoveredBy dek dev (some t) w) :
    CoveredBy dek (advance (historyOps Write) d log dev t).1
      (advance (historyOps Write) d log dev t).2.1 w := by
  subst sameDek
  have keep := @fastForward_keeps ι Write _ _ d log dev t
  obtain ⟨syncId, push, localVv, cursor, forks, count, phase, replaced⟩ := t
  have same : forks ⊆ forks := List.Subset.refl _
  cases phase with
  | readVv => exact covered.carry rfl rfl rfl same
  | readCursor => exact covered.carry rfl rfl rfl same
  | readForks =>
      have fresh : replaced = false := inv
      rcases covered with live | saved | ⟨u, ⟨⟩, had, held⟩
      · exact .inl live
      · exact .inr (.inl saved)
      · exact absurd (show replaced = true from had) (by simp [fresh])
  | list =>
      refine covered.carry rfl rfl (SyncTask.pull_replaced ..) ?_
      simp [SyncTask.pull_forks]
  | get i =>
      simp only [advance]
      cases log[cursor + i]? with
      | none => exact covered.carry rfl rfl (SyncTask.pull_replaced ..) (by simp)
      | some entry => exact covered.carry rfl rfl rfl same
  | reconcile i sealed =>
      obtain ⟨incoming, opened⟩ := Option.isSome_iff_exists.mp inv
      simp only [advance, opened]
      cases outcome : Freehold.reconcile localVv incoming.vv with
      | fastForward => exact covered.carry rfl rfl rfl same
      | stale => exact covered.carry rfl rfl (SyncTask.pull_replaced ..) (by simp)
      | fork winnerIsIncoming =>
          cases winnerIsIncoming with
          | true => exact covered.carry rfl rfl rfl same
          | false =>
              refine covered.carry rfl rfl (SyncTask.pull_replaced ..) ?_
              simp [SyncTask.stash]
  | fastForward i incoming =>
      rcases keep rfl safe committed with arrived | held
      · exact .inl arrived
      · simp only [kept, Bool.or_eq_true, Bool.and_eq_true] at held
        rcases held with saved | ⟨had, own⟩
        · exact .inr (.inl saved)
        · exact .inr (.inr ⟨_, rfl, by simpa using had, by simpa using own⟩)
  | sealLoser i incoming => exact covered.carry rfl rfl rfl same
  | applyWinner i incoming loser =>
      obtain ⟨blob, opened, unchanged⟩ : ∃ blob, SyncBlob.openBlob dev.dek loser = some blob ∧
          blob.image = dev.store := by
        simpa [segmentSafe, Option.any_eq_true] using safe
      -- the call's own forks now hold everything the live image held
      rcases covered with live | saved | ⟨u, ⟨⟩, had, own⟩
      · refine .inr (.inr ⟨_, rfl, by simp, inForks_iff.mpr
          ⟨⟨(cursor + i, forks.length), loser⟩, ?_, blob, opened, unchanged ▸ live⟩⟩)
        simp [SyncTask.stash]
      · exact .inr (.inl saved)
      · exact .inr (.inr ⟨_, rfl, by simp, inForks_mono (by simp [SyncTask.stash]) own⟩)
  | sealPush => exact covered.carry rfl rfl rfl same
  | put blob => exact covered.carry rfl rfl rfl same
  | relist => exact covered.carry rfl rfl rfl same
  | saveVv => exact covered.carry rfl rfl rfl same
  | saveCursor => exact covered.carry rfl rfl rfl same
  | saveForks =>
      have current : dev.syncForks ⊆ forks := by
        intro f saved
        simp only [segmentSafe, List.all_eq_true, decide_eq_true_eq] at safe
        exact safe f saved
      rcases covered with live | saved | ⟨u, ⟨⟩, had, own⟩
      · exact .inl live
      · exact .inr (.inl (inForks_mono current saved))
      · exact .inr (.inl own)

omit [DecidableEq Write] [DecidableEq ι] in
/-- One segment keeps what a call carries openable, and the log with it. -/
theorem advance_opens {dek : Dek} {d : ι} {log : List (LogEntry ι (List Write))}
    {dev : Device Write} {t : SyncTask (List Write)} (sameDek : dev.dek = dek)
    (inv : TaskInv dek t) (opens : Opens dek log) :
    (∀ moved ∈ (advance (historyOps Write) d log dev t).2.1, TaskInv dek moved) ∧
      Opens dek (advance (historyOps Write) d log dev t).2.2 := by
  subst sameDek
  obtain ⟨syncId, push, localVv, cursor, forks, count, phase, replaced⟩ := t
  cases phase with
  | readVv => exact ⟨by rintro moved ⟨⟩; exact inv, opens⟩
  | readCursor => exact ⟨by rintro moved ⟨⟩; exact inv, opens⟩
  | readForks => exact ⟨by rintro moved ⟨⟩; exact inv, opens⟩
  | list => exact ⟨by rintro moved ⟨⟩; exact TaskInv.pull .., opens⟩
  | get i =>
      simp only [advance]
      cases found : log[cursor + i]? with
      | none => exact ⟨by rintro moved ⟨⟩; exact TaskInv.pull .., opens⟩
      | some entry =>
          exact ⟨by rintro moved ⟨⟩; exact opens entry (List.mem_of_getElem? found), opens⟩
  | reconcile i sealed =>
      obtain ⟨incoming, opened⟩ := Option.isSome_iff_exists.mp inv
      simp only [advance, opened]
      cases Freehold.reconcile localVv incoming.vv with
      | fastForward => exact ⟨by rintro moved ⟨⟩; trivial, opens⟩
      | stale => exact ⟨by rintro moved ⟨⟩; exact TaskInv.pull .., opens⟩
      | fork winnerIsIncoming =>
          cases winnerIsIncoming with
          | true => exact ⟨by rintro moved ⟨⟩; trivial, opens⟩
          | false => exact ⟨by rintro moved ⟨⟩; exact TaskInv.pull .., opens⟩
  | fastForward i incoming => exact ⟨by rintro moved ⟨⟩; exact TaskInv.pull .., opens⟩
  | sealLoser i incoming => exact ⟨by rintro moved ⟨⟩; trivial, opens⟩
  | applyWinner i incoming loser => exact ⟨by rintro moved ⟨⟩; exact TaskInv.pull .., opens⟩
  | sealPush =>
      refine ⟨?_, opens⟩
      rintro moved ⟨⟩
      simp [TaskInv]
  | put blob =>
      refine ⟨by rintro moved ⟨⟩; trivial, ?_⟩
      intro entry member
      rcases List.mem_append.mp member with old | new
      · exact opens entry old
      · obtain rfl := List.mem_singleton.mp new
        exact inv
  | relist => exact ⟨by rintro moved ⟨⟩; trivial, opens⟩
  | saveVv => exact ⟨by rintro moved ⟨⟩; trivial, opens⟩
  | saveCursor => exact ⟨by rintro moved ⟨⟩; trivial, opens⟩
  | saveForks => exact ⟨fun moved running => (nomatch running), opens⟩

/-- Ending a call that has replaced nothing uncovers no write. -/
theorem DeviceInv.drop {dek : Dek} {dev : Device Write} (inv : DeviceInv dek dev)
    {rest : List (SyncTask (List Write))} (subset : rest ⊆ dev.tasks)
    (spared : ∀ t ∈ dev.tasks, t.replaced = true → t ∈ rest) :
    DeviceInv dek { dev with tasks := rest } := by
  refine ⟨inv.sameDek, ?_, fun t member => inv.tasks t (subset member)⟩
  intro w committed
  rcases inv.covered w committed with live | saved | ⟨t, running, had, held⟩
  · exact .inl live
  · exact .inr (.inl saved)
  · exact .inr (.inr ⟨t, spared t running had, had, held⟩)

/-- A resumed call: what it becomes, with the other calls, still covers every write. -/
theorem resume_deviceInv {dek : Dek} {d : ι} {log : List (LogEntry ι (List Write))}
    {dev : Device Write} {t : SyncTask (List Write)} {k : Nat} (inv : DeviceInv dek dev)
    (opens : Opens dek log) (running : dev.tasks[k]? = some t)
    (safe : segmentSafe d log dev t = true) :
    DeviceInv dek ((advance (historyOps Write) d log dev t).1.putTask k
      (advance (historyOps Write) d log dev t).2.1) := by
  have present := List.mem_of_getElem? running
  have frame := advance_frame (historyOps Write) d log dev t
  have own := advance_opens (d := d) inv.sameDek (inv.tasks t present) opens
  have covered : ∀ w ∈ dev.committed, CoveredBy dek dev (some t) w →
      CoveredBy dek (advance (historyOps Write) d log dev t).1
        (advance (historyOps Write) d log dev t).2.1 w :=
    fun w committed => advance_covered inv.sameDek (inv.tasks t present) safe committed
  generalize advance (historyOps Write) d log dev t = result at frame own covered
  obtain ⟨after, moved, later⟩ := result
  have still : after.tasks[k]? = some t := by rw [frame.tasks]; exact running
  have fields : (after.putTask k moved).store = after.store ∧
      (after.putTask k moved).syncForks = after.syncForks ∧
      (after.putTask k moved).committed = dev.committed ∧
      (after.putTask k moved).dek = dev.dek := by
    cases moved <;> exact ⟨rfl, rfl, frame.committed, frame.dek⟩
  refine ⟨fields.2.2.2.trans inv.sameDek, ?_, ?_⟩
  · intro w committed
    rw [fields.2.2.1] at committed
    rw [fields.1, fields.2.1]
    have landed (self : CoveredBy dek dev (some t) w) : w ∈ after.store ∨
        inForks dek after.syncForks w = true ∨ ∃ u ∈ (after.putTask k moved).tasks,
          u.replaced = true ∧ inForks dek u.forks w = true := by
      rcases covered w committed self with live | saved | ⟨u, isMoved, held⟩
      · exact .inl live
      · exact .inr (.inl saved)
      · obtain rfl : moved = some u := isMoved
        exact .inr (.inr ⟨u, moved_mem_putTask still, held⟩)
    rcases inv.covered w committed with live | saved | ⟨u, member, held⟩
    · exact landed (.inl live)
    · exact landed (.inr (.inl saved))
    · by_cases same : u = t
      · subst same
        exact landed (.inr (.inr ⟨u, rfl, held⟩))
      · exact .inr (.inr ⟨u, other_mem_putTask still moved (frame.tasks ▸ member) same, held⟩)
  · intro u member
    rcases mem_putTask member with old | new
    · exact inv.tasks u (frame.tasks ▸ old)
    · exact own.1 u new

/-- One allowed action keeps the invariant of its device and the logs openable. -/
theorem act_inv {dek : Dek} {d : ι} {logs later : SyncId → List (LogEntry ι (List Write))}
    {dev after : Device Write} {action : Action (List Write) Write}
    (safe : actionSafe d logs dev action = true)
    (taken : dev.act (historyOps Write) d logs action = some (after, later))
    (inv : DeviceInv dek dev) (opens : ∀ s, Opens dek (logs s)) :
    DeviceInv dek after ∧ ∀ s, Opens dek (later s) := by
  cases action with
  | commit w =>
      cases taken
      refine ⟨⟨inv.sameDek, ?_, inv.tasks⟩, opens⟩
      intro u committed
      rcases List.mem_cons.mp committed with rfl | earlier
      · exact .inl (List.mem_cons_self ..)
      · exact (inv.covered u earlier).imp_left (List.mem_cons_of_mem _)
  | startSync push =>
      cases taken
      refine ⟨⟨inv.sameDek, ?_, ?_⟩, opens⟩
      · intro w committed
        rcases inv.covered w committed with live | saved | ⟨t, running, held⟩
        · exact .inl live
        · exact .inr (.inl saved)
        · exact .inr (.inr ⟨t, List.mem_append_left _ running, held⟩)
      · intro t running
        rcases List.mem_append.mp running with old | new
        · exact inv.tasks t old
        · obtain rfl := List.mem_singleton.mp new
          rfl
  | resume k =>
      obtain ⟨t, running, moved⟩ := Option.map_eq_some_iff.mp taken
      obtain ⟨rfl, rfl⟩ := Prod.mk.inj moved
      have safe : segmentSafe d (logs t.syncId) dev t = true := by
        simpa [actionSafe, running] using safe
      refine ⟨resume_deviceInv inv (opens _) running safe, ?_⟩
      intro s
      by_cases own : s = t.syncId
      · subst own
        rw [Function.update_self]
        exact (advance_opens inv.sameDek (inv.tasks t (List.mem_of_getElem? running))
          (opens _)).2
      · rw [Function.update_of_ne own]
        exact opens s
  | abort k =>
      obtain ⟨t, running, moved⟩ := Option.map_eq_some_iff.mp taken
      obtain ⟨rfl, rfl⟩ := Prod.mk.inj moved
      have spared : t.replaced = false := by simpa [actionSafe, running] using safe
      refine ⟨inv.drop (List.eraseIdx_subset ..) ?_, opens⟩
      intro u member had
      exact other_mem_putTask running none member (by rintro rfl; simp [spared] at had)
  | crash =>
      cases taken
      refine ⟨inv.drop (List.nil_subset _) ?_, opens⟩
      intro u member had
      have spared : u.replaced = false := by
        simpa using List.all_eq_true.mp safe u member
      simp [spared] at had
  | rotateKey dek => cases safe
  | importBundle dek store => cases safe

end Freehold.SyncHistory
