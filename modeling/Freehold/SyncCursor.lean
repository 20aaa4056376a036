import Freehold.Sync

set_option autoImplicit false

namespace Freehold.SyncCursor

variable {ι Store Image Write : Type}

/-- Each of the first `c` blobs of the bucket is one of `d`'s own pushes or has
been decrypted and reconciled by `d`. -/
def Dealt (log : List (LogEntry ι Image)) (d : ι) (reconciled : List (SyncId × Nat))
    (bucket : SyncId) (c : Nat) : Prop :=
  c ≤ log.length ∧ ∀ i < c, ∀ entry, log[i]? = some entry →
    entry.author = d ∨ (bucket, i) ∈ reconciled

theorem Dealt.zero (log : List (LogEntry ι Image)) (d : ι) (reconciled : List (SyncId × Nat))
    (bucket : SyncId) : Dealt log d reconciled bucket 0 :=
  ⟨Nat.zero_le _, fun _ below => absurd below (Nat.not_lt_zero _)⟩

/-- Appending to the log and reconciling more blobs keep what was dealt with. -/
theorem Dealt.mono {log later : List (LogEntry ι Image)} {d : ι}
    {reconciled more : List (SyncId × Nat)} {bucket : SyncId} {c : Nat}
    (dealt : Dealt log d reconciled bucket c) (grown : log <+: later)
    (kept : reconciled ⊆ more) : Dealt later d more bucket c := by
  refine ⟨Nat.le_trans dealt.1 grown.length_le, ?_⟩
  intro i below entry found
  have inside : i < log.length := Nat.lt_of_lt_of_le below dealt.1
  rw [List.prefix_iff_getElem?.mp grown i inside] at found
  exact (dealt.2 i below entry (by rw [List.getElem?_eq_getElem inside, found])).imp_right (kept ·)

theorem Dealt.snoc {log : List (LogEntry ι Image)} {d : ι} {reconciled : List (SyncId × Nat)}
    {bucket : SyncId} {c : Nat} (dealt : Dealt log d reconciled bucket c) (inside : c < log.length)
    (last : (bucket, c) ∈ reconciled) : Dealt log d reconciled bucket (c + 1) := by
  refine ⟨inside, ?_⟩
  intro i below entry found
  by_cases earlier : i < c
  · exact dealt.2 i earlier entry found
  · obtain rfl : i = c := by omega
    exact .inr last

/-- Blobs that only `d` has put extend what was dealt with to the end of the log. -/
theorem Dealt.own {log : List (LogEntry ι Image)} {d : ι} {reconciled : List (SyncId × Nat)}
    {bucket : SyncId} {c : Nat} (dealt : Dealt log d reconciled bucket c)
    (own : ∀ entry ∈ log.drop c, entry.author = d) :
    Dealt log d reconciled bucket log.length := by
  refine ⟨Nat.le_refl _, ?_⟩
  intro i below entry found
  by_cases earlier : i < c
  · exact dealt.2 i earlier entry found
  · refine .inl (own entry ?_)
    rw [List.mem_iff_getElem?]
    exact ⟨i - c, by rw [List.getElem?_drop, show c + (i - c) = i by omega, found]⟩

/-- The index of the pull loop, while the call is inside it. -/
def pulling (t : SyncTask Image) : Option Nat :=
  match t.phase with
  | .get i | .reconcile i _ | .fastForward i _ | .sealLoser i _ | .applyWinner i _ _ => some i
  | _ => none

/-- How many leading blobs of its bucket the call has dealt with. -/
def reached (t : SyncTask Image) : Nat :=
  match t.phase with
  | .readVv | .readCursor => 0
  | _ => t.cursor + (pulling t).getD 0

structure TaskInv (log : List (LogEntry ι Image)) (d : ι) (reconciled : List (SyncId × Nat))
    (t : SyncTask Image) : Prop where
  dealt : Dealt log d reconciled t.syncId (reached t)
  within : ∀ i, pulling t = some i → i < t.count ∧ t.cursor + t.count ≤ log.length

theorem TaskInv.mono {log later : List (LogEntry ι Image)} {d : ι}
    {reconciled more : List (SyncId × Nat)} {t : SyncTask Image}
    (inv : TaskInv log d reconciled t) (grown : log <+: later) (kept : reconciled ⊆ more) :
    TaskInv later d more t := by
  refine ⟨inv.dealt.mono grown kept, ?_⟩
  intro i looping
  have bounds := inv.within i looping
  have longer := grown.length_le
  omega

theorem TaskInv.start (log : List (LogEntry ι Image)) (d : ι) (reconciled : List (SyncId × Nat))
    (bucket : SyncId) (push : Bool) : TaskInv log d reconciled (.start bucket push) :=
  ⟨Dealt.zero .., fun _ looping => nomatch looping⟩

/-- The loop head keeps the invariant once the blobs before it are dealt with. -/
theorem TaskInv.pull {log : List (LogEntry ι Image)} {d : ι} {reconciled : List (SyncId × Nat)}
    {t : SyncTask Image} {i : Nat} (dealt : Dealt log d reconciled t.syncId (t.cursor + i))
    (inside : i ≤ t.count) (counted : t.cursor + t.count ≤ log.length) :
    TaskInv log d reconciled (t.pull i) := by
  unfold SyncTask.pull
  split
  · next more =>
      refine ⟨dealt, ?_⟩
      rintro j ⟨⟩
      exact ⟨more, counted⟩
  · next done =>
      obtain rfl : i = t.count := by omega
      cases t.push
      · exact ⟨dealt, fun _ looping => nomatch looping⟩
      · exact ⟨dealt, fun _ looping => nomatch looping⟩

/-- After the blob at the loop index has been reconciled the loop moves on. -/
theorem TaskInv.next {log : List (LogEntry ι Image)} {d : ι} {dev : Device Store Image Write}
    {t : SyncTask Image} {i : Nat} (moved : SyncTask Image)
    (dealt : Dealt log d dev.reconciled t.syncId (t.cursor + i)) (inside : i < t.count)
    (counted : t.cursor + t.count ≤ log.length) (sameId : moved.syncId = t.syncId)
    (sameCursor : moved.cursor = t.cursor) (sameCount : moved.count = t.count) :
    TaskInv log d (dev.reconcile t i).reconciled (moved.pull (i + 1)) := by
  have grown := (Device.Frame.reconcile dev t i).reconciled
  have here : (t.syncId, t.cursor + i) ∈ (dev.reconcile t i).reconciled := List.mem_cons_self ..
  apply TaskInv.pull
  · rw [sameId, sameCursor, ← Nat.add_assoc]
    exact (dealt.mono List.prefix_rfl grown).snoc (by omega) here
  · omega
  · omega

/-- Only the save of the cursor changes the saved cursor. -/
theorem advance_syncCursor (ops : SessionOps Store Image Write) (d : ι)
    (log : List (LogEntry ι Image)) (dev : Device Store Image Write) (t : SyncTask Image) :
    (advance ops d log dev t).1.syncCursor = dev.syncCursor ∨
      t.phase = .saveCursor ∧ (advance ops d log dev t).1.syncCursor = t.cursor := by
  unfold advance
  split <;> try exact .inl rfl
  case h_14 saving => exact .inr ⟨saving, rfl⟩
  all_goals (split <;> try exact .inl rfl)
  split <;> exact .inl rfl

structure DeviceInv (logs : SyncId → List (LogEntry ι Image)) (d : ι)
    (dev : Device Store Image Write) : Prop where
  saved : Dealt (logs dev.bucket) d dev.reconciled dev.bucket dev.syncCursor
  tasks : ∀ t ∈ dev.tasks, TaskInv (logs t.syncId) d dev.reconciled t

theorem DeviceInv.mono {logs later : SyncId → List (LogEntry ι Image)} {d : ι}
    {dev : Device Store Image Write} (inv : DeviceInv logs d dev)
    (grown : ∀ s, logs s <+: later s) : DeviceInv later d dev :=
  ⟨inv.saved.mono (grown _) (List.Subset.refl _),
    fun t running => (inv.tasks t running).mono (grown _) (List.Subset.refl _)⟩

theorem DeviceInv.rebucket {logs : SyncId → List (LogEntry ι Image)} {d : ι}
    {dev : Device Store Image Write} (inv : DeviceInv logs d dev) (dek : Dek) (store : Store)
    (safe : dek = dev.dek ∨ dev.syncCursor = 0) :
    DeviceInv logs d { dev with dek := dek, store := store } := by
  refine ⟨?_, inv.tasks⟩
  rcases safe with same | zero
  · subst same
    exact inv.saved
  · change Dealt _ d dev.reconciled _ dev.syncCursor
    rw [zero]
    exact Dealt.zero ..

variable [DecidableEq ι]

/-- What a segment of `sync()` must meet for the cursor to stay sound: at the
second `list` every blob from the pulled cursor on is the device's own, and a
cursor is read or saved only for the device's present bucket (or is zero). -/
def segmentSafe (d : ι) (log : List (LogEntry ι Image))
    (dev : Device Store Image Write) (t : SyncTask Image) : Bool :=
  match t.phase with
  | .relist => (log.drop t.cursor).all fun entry => entry.author = d
  | .readCursor => t.syncId = dev.bucket ∨ dev.syncCursor = 0
  | .saveCursor => t.syncId = dev.bucket ∨ t.cursor = 0
  | _ => true

/-- One segment keeps the invariant of its call. -/
theorem advance_taskInv (ops : SessionOps Store Image Write) {d : ι}
    {log : List (LogEntry ι Image)} {dev : Device Store Image Write} {t after : SyncTask Image}
    (inv : TaskInv log d dev.reconciled t) (safe : segmentSafe d log dev t = true)
    (saved : t.syncId = dev.bucket → Dealt log d dev.reconciled dev.bucket dev.syncCursor)
    (result : (advance ops d log dev t).2.1 = some after) :
    TaskInv (advance ops d log dev t).2.2 d (advance ops d log dev t).1.reconciled after ∧
      after.syncId = t.syncId := by
  obtain ⟨syncId, push, localVv, cursor, forks, count, phase, replaced⟩ := t
  have dealt := inv.dealt
  have within := inv.within
  have idle {t : SyncTask Image} {c : Nat} (outside : pulling t = none) (at_c : reached t = c)
      (enough : Dealt log d dev.reconciled t.syncId c) : TaskInv log d dev.reconciled t :=
    ⟨at_c ▸ enough, fun i looping => by simp [outside] at looping⟩
  cases phase with
  | readVv =>
      obtain rfl := Option.some.inj result
      exact ⟨idle rfl rfl (Dealt.zero ..), rfl⟩
  | readCursor =>
      obtain rfl := Option.some.inj result
      refine ⟨idle rfl rfl ?_, rfl⟩
      rcases of_decide_eq_true safe with own | zero
      · obtain rfl : syncId = dev.bucket := own
        exact saved rfl
      · change Dealt log d dev.reconciled syncId dev.syncCursor
        rw [zero]
        exact Dealt.zero ..
  | readForks =>
      obtain rfl := Option.some.inj result
      exact ⟨idle rfl rfl dealt, rfl⟩
  | list =>
      obtain rfl := Option.some.inj result
      have short := dealt.1
      have counted : cursor + (log.length - cursor) = log.length := Nat.add_sub_cancel' short
      exact ⟨TaskInv.pull dealt (Nat.zero_le _) (Nat.le_of_eq counted), SyncTask.pull_syncId ..⟩
  | get i =>
      obtain ⟨inside, counted⟩ : i < count ∧ cursor + count ≤ log.length := within i rfl
      have present : cursor + i < log.length := by omega
      simp only [advance, List.getElem?_eq_getElem present, Option.some.injEq] at result
      subst result
      simp only [advance, List.getElem?_eq_getElem present]
      exact ⟨⟨dealt, by rintro j ⟨⟩; exact ⟨inside, counted⟩⟩, trivial⟩
  | reconcile i sealed =>
      obtain ⟨inside, counted⟩ : i < count ∧ cursor + count ≤ log.length := within i rfl
      simp only [advance] at result ⊢
      cases opened : SyncBlob.openBlob dev.dek sealed with
      | none => simp [opened] at result
      | some incoming =>
          simp only [opened] at result ⊢
          cases outcome : Freehold.reconcile localVv incoming.vv with
          | fastForward =>
              simp only [outcome, Option.some.injEq] at result ⊢
              subst result
              exact ⟨⟨dealt, by rintro j ⟨⟩; exact ⟨inside, counted⟩⟩, rfl⟩
          | stale =>
              simp only [outcome, Option.some.injEq] at result ⊢
              subst result
              exact ⟨TaskInv.next _ dealt inside counted rfl rfl rfl, SyncTask.pull_syncId ..⟩
          | fork winnerIsIncoming =>
              cases winnerIsIncoming with
              | true =>
                  simp only [outcome, Option.some.injEq] at result ⊢
                  subst result
                  exact ⟨⟨dealt, by rintro j ⟨⟩; exact ⟨inside, counted⟩⟩, rfl⟩
              | false =>
                  simp only [outcome, Option.some.injEq] at result ⊢
                  subst result
                  exact ⟨TaskInv.next _ dealt inside counted rfl rfl rfl, SyncTask.pull_syncId ..⟩
  | fastForward i incoming =>
      obtain ⟨inside, counted⟩ : i < count ∧ cursor + count ≤ log.length := within i rfl
      simp only [advance] at result ⊢
      cases applied : ops.importFiles incoming.image dev.store with
      | error store => simp [applied] at result
      | ok store =>
          simp only [applied, Option.some.injEq] at result ⊢
          subst result
          exact ⟨TaskInv.next _ dealt inside counted rfl rfl rfl, SyncTask.pull_syncId ..⟩
  | sealLoser i incoming =>
      obtain ⟨inside, counted⟩ : i < count ∧ cursor + count ≤ log.length := within i rfl
      simp only [advance] at result ⊢
      cases sealing : dev.syncSeal ops localVv with
      | none => simp [sealing] at result
      | some loser =>
          simp only [sealing, Option.some.injEq] at result ⊢
          subst result
          exact ⟨⟨dealt, by rintro j ⟨⟩; exact ⟨inside, counted⟩⟩, rfl⟩
  | applyWinner i incoming loser =>
      obtain ⟨inside, counted⟩ : i < count ∧ cursor + count ≤ log.length := within i rfl
      simp only [advance] at result ⊢
      cases applied : ops.importFiles incoming.image dev.store with
      | error store => simp [applied] at result
      | ok store =>
          simp only [applied, Option.some.injEq] at result ⊢
          subst result
          exact ⟨TaskInv.next _ dealt inside counted rfl rfl rfl, SyncTask.pull_syncId ..⟩
  | sealPush =>
      simp only [advance] at result ⊢
      cases sealing : dev.syncSeal ops (localVv.increment dev.deviceId) with
      | none => simp [sealing] at result
      | some blob =>
          simp only [sealing, Option.some.injEq] at result ⊢
          subst result
          exact ⟨idle rfl rfl dealt, rfl⟩
  | put blob =>
      obtain rfl := Option.some.inj result
      have waiting := idle (t := ⟨syncId, push, localVv, cursor, forks, count, .relist, replaced⟩)
        rfl rfl dealt
      exact ⟨waiting.mono (List.prefix_append ..) (List.Subset.refl _), rfl⟩
  | relist =>
      obtain rfl := Option.some.inj result
      exact ⟨idle rfl rfl (dealt.own fun entry member =>
        of_decide_eq_true (List.all_eq_true.mp safe entry member)), rfl⟩
  | saveVv =>
      obtain rfl := Option.some.inj result
      exact ⟨idle rfl rfl dealt, rfl⟩
  | saveCursor =>
      obtain rfl := Option.some.inj result
      exact ⟨idle rfl rfl dealt, rfl⟩
  | saveForks => nomatch result

/-- The saved cursor stays sound over one segment of a running call. -/
theorem advance_saved (ops : SessionOps Store Image Write) {d : ι}
    {logs later : SyncId → List (LogEntry ι Image)} {dev : Device Store Image Write}
    {t : SyncTask Image} (inv : DeviceInv logs d dev) (running : t ∈ dev.tasks)
    (safe : segmentSafe d (logs t.syncId) dev t = true) (grown : ∀ s, logs s <+: later s) :
    let after := (advance ops d (logs t.syncId) dev t).1
    Dealt (later after.bucket) d after.reconciled after.bucket after.syncCursor := by
  intro after
  have frame := advance_frame ops d (logs t.syncId) dev t
  have sameBucket : after.bucket = dev.bucket := by
    simp only [Device.bucket, after, frame.dek]
  rw [sameBucket]
  rcases advance_syncCursor ops d (logs t.syncId) dev t with same | ⟨saving, moved⟩
  · rw [same]
    exact inv.saved.mono (grown _) frame.reconciled
  · rw [moved]
    simp only [segmentSafe, saving] at safe
    rcases of_decide_eq_true safe with own | zero
    · have dealt := (inv.tasks t running).dealt
      simp only [reached, saving, pulling, Option.getD_none, Nat.add_zero, own] at dealt
      exact dealt.mono (grown _) frame.reconciled
    · rw [zero]
      exact Dealt.zero ..

/-- The actions under which no saved cursor skips a peer's blob: every segment is
safe, and a call that changes the bucket runs while the saved cursor is zero. -/
def actionSafe (d : ι) (logs : SyncId → List (LogEntry ι Image))
    (dev : Device Store Image Write) : Action Store Write → Bool
  | .resume k => dev.tasks[k]?.all fun t => segmentSafe d (logs t.syncId) dev t
  | .rotateKey dek => dek = dev.dek ∨ dev.syncCursor = 0
  | .importBundle dek _ => dek = dev.dek ∨ dev.syncCursor = 0
  | _ => true

/-- One allowed action keeps the invariant of its device. -/
theorem act_deviceInv {ops : SessionOps Store Image Write} {d : ι}
    {logs later : SyncId → List (LogEntry ι Image)} {dev after : Device Store Image Write}
    {action : Action Store Write} (safe : actionSafe d logs dev action = true)
    (taken : dev.act ops d logs action = some (after, later)) (inv : DeviceInv logs d dev) :
    DeviceInv later d after := by
  have grown := act_logs taken
  cases action with
  | commit w => cases taken; exact ⟨inv.saved, inv.tasks⟩
  | startSync push =>
      cases taken
      refine ⟨inv.saved, ?_⟩
      intro t running
      rcases List.mem_append.mp running with old | new
      · exact inv.tasks t old
      · obtain rfl := List.mem_singleton.mp new
        exact TaskInv.start ..
  | resume k =>
      obtain ⟨t, running, moved⟩ := Option.map_eq_some_iff.mp taken
      obtain ⟨rfl, rfl⟩ := Prod.mk.inj moved
      have present : t ∈ dev.tasks := List.mem_of_getElem? running
      have safe : segmentSafe d (logs t.syncId) dev t = true := by
        simpa [actionSafe, running] using safe
      have frame := advance_frame ops d (logs t.syncId) dev t
      have saved := advance_saved ops inv present safe grown
      have others : ∀ u ∈ dev.tasks, TaskInv (Function.update logs t.syncId
          (advance ops d (logs t.syncId) dev t).2.2 u.syncId) d
          (advance ops d (logs t.syncId) dev t).1.reconciled u :=
        fun u member => (inv.tasks u member).mono (grown _) frame.reconciled
      cases ended : (advance ops d (logs t.syncId) dev t).2.1 with
      | none =>
          refine ⟨saved, ?_⟩
          intro u member
          exact others u (frame.tasks ▸ List.mem_of_mem_eraseIdx member)
      | some moved =>
          refine ⟨saved, ?_⟩
          intro u member
          rcases List.mem_or_eq_of_mem_set member with old | rfl
          · exact others u (frame.tasks ▸ old)
          · obtain ⟨kept, sameId⟩ := advance_taskInv ops (inv.tasks t present) safe
              (fun own => by simpa [own] using inv.saved) ended
            rw [sameId, Function.update_self]
            exact kept
  | abort k =>
      obtain ⟨t, running, moved⟩ := Option.map_eq_some_iff.mp taken
      obtain ⟨rfl, rfl⟩ := Prod.mk.inj moved
      exact ⟨inv.saved, fun u member => inv.tasks u (List.mem_of_mem_eraseIdx member)⟩
  | crash => cases taken; exact ⟨inv.saved, fun t running => nomatch running⟩
  | rotateKey dek => cases taken; exact inv.rebucket dek _ (of_decide_eq_true safe)
  | importBundle dek store => cases taken; exact inv.rebucket dek store (of_decide_eq_true safe)

/-- In every run of safe steps each index below a device's saved cursor, in the log
of its present bucket, is its own push or a blob it decrypted and reconciled. -/
theorem cursor_never_skips (ops : SessionOps Store Image Write) (deviceId : ι → DeviceId)
    (dek : ι → Dek) (store : ι → Store) {world : World ι Store Image Write}
    (reached : Runs.Reaches (step ops)
      (fun world event => actionSafe event.1 world.logs (world.devices event.1) event.2 = true)
      (World.fresh deviceId dek store) world)
    (d : ι) (i : Nat) (below : i < (world.devices d).syncCursor) (entry : LogEntry ι Image)
    (found : (world.logs (world.devices d).bucket)[i]? = some entry) :
    entry.author = d ∨ ((world.devices d).bucket, i) ∈ (world.devices d).reconciled := by
  have inv : ∀ d, DeviceInv world.logs d (world.devices d) := by
    refine reached.invariant (fun world => ∀ d, DeviceInv world.logs d (world.devices d)) ?_ ?_
    · exact fun d => ⟨Dealt.zero .., fun t running => nomatch running⟩
    · intro before after event inv safe taken
      exact step_device DeviceInv (fun grown inv => inv.mono grown)
        (fun _ _ acted inv => act_deviceInv safe acted inv) taken inv
  exact (inv d).saved.2 i below entry found

/-- The second device pulls the first one's push, and both cursors are sound. -/
theorem cursor_never_skips_pulled : ∃ world : World Bool (List Nat) (List Nat) Nat,
    (world.devices true).syncCursor = 2 ∧ ∀ i < 2, ∀ entry,
      (world.logs (world.devices true).bucket)[i]? = some entry →
        entry.author = true ∨ ((world.devices true).bucket, i) ∈ (world.devices true).reconciled := by
  have observed : ((Runs.runWhere (step (historyOps Nat))
      (fun world event => actionSafe event.1 world.logs (world.devices event.1) event.2) twoDevices
      ((false, .startSync true) :: resumes false 10 ++
        (true, .startSync true) :: resumes true 13)).map
      fun world => (world.devices true).syncCursor) = some 2 := by decide
  obtain ⟨world, ran, cursor⟩ := Option.map_eq_some_iff.mp observed
  refine ⟨world, cursor, ?_⟩
  intro i below entry found
  exact cursor_never_skips (historyOps Nat) _ _ _ (Runs.reaches_of_runWhere ran) true i
    (by omega) entry found

/-- The first device lists the empty bucket, the second pushes, the first pushes
and counts both blobs: its saved cursor covers a blob it never pulled. -/
theorem cursor_skips_racing_put : ¬ ∀ (events : List (Bool × Action (List Nat) Nat)) world,
    Runs.run (step (historyOps Nat)) twoDevices events = some world →
      ∀ d, ∀ i < (world.devices d).syncCursor, ∀ entry,
        (world.logs (world.devices d).bucket)[i]? = some entry →
          entry.author = d ∨ ((world.devices d).bucket, i) ∈ (world.devices d).reconciled := by
  intro sound
  have observed : ((Runs.run (step (historyOps Nat)) twoDevices
      ((false, .startSync true) :: resumes false 4 ++
        (true, .startSync true) :: resumes true 6 ++ resumes false 6)).map
      fun world => ((world.devices false).syncCursor, (world.devices false).reconciled,
        (world.logs (world.devices false).bucket)[0]?.map (LogEntry.author ·))) =
      some (2, [], some true) := by decide
  obtain ⟨world, ran, seen⟩ := Option.map_eq_some_iff.mp observed
  simp only [Prod.mk.injEq, Option.map_eq_some_iff] at seen
  obtain ⟨cursor, reconciled, entry, found, author⟩ := seen
  have skipped := sound _ world ran false 0 (by omega) entry found
  simp [author, reconciled] at skipped

end Freehold.SyncCursor
