import Freehold.Sync

set_option autoImplicit false

namespace Freehold

/-- One device and the bucket it syncs with, and what its calls have made of forks:
`replaced` are the live images overwritten by a fork winner, `losing` the incoming images
that lost one, with their index in the log. -/
structure ForkRun (Store Image Write : Type) where
  device : Device Store Image Write
  log : List (LogEntry Unit Image)
  replaced : List Image
  losing : List (Nat × Image)

/-- An action of the device, or a blob that somebody else puts in its bucket. -/
inductive ForkEvent (Store Image Write : Type) where
  | act (action : Action Store Write)
  | peerPut (sealed : SealedBytes (SyncBlob Image))

namespace ForkRun

variable {Store Image Write : Type} [DecidableEq Image]

/-- `image` is kept in the list of forks. -/
def kept (dek : Dek) (forks : List (Fork Image)) (image : Image) : Bool :=
  forks.any fun fork => (SyncBlob.openBlob dek fork.sealed).any fun blob => blob.image = image

/-- The live image that the segment overwrites by a fork winner, if it does; an import
that fails may have written some of the files. -/
def overwrites (ops : SessionOps Store Image Write) (dev : Device Store Image Write)
    (t : SyncTask Image) : Option Image :=
  match t.phase with
  | .applyWinner _ incoming _ =>
      match ops.importFiles incoming.image dev.store with
      | .ok _ => ops.sessionImage dev.store
      | .error store =>
          if ops.sessionImage store = ops.sessionImage dev.store then none
          else ops.sessionImage dev.store
  | _ => none

/-- The incoming image that loses a fork in the segment, with its index. -/
def loses (dev : Device Store Image Write) (t : SyncTask Image) : Option (Nat × Image) :=
  match t.phase with
  | .reconcile i sealed =>
      match SyncBlob.openBlob dev.dek sealed with
      | some incoming =>
          if reconcile t.localVv incoming.vv = .fork false then some (t.cursor + i, incoming.image)
          else none
      | none => none
  | _ => none

/-- One event. The bucket is that of the device's DEK. -/
def step (ops : SessionOps Store Image Write) (w : ForkRun Store Image Write) :
    ForkEvent Store Image Write → Option (ForkRun Store Image Write)
  | .peerPut sealed => some { w with log := w.log ++ [⟨(), sealed⟩] }
  | .act action =>
      (w.device.act ops () (fun _ => w.log) action).map fun result =>
        let resumed := match action with
          | .resume k => w.device.tasks[k]?
          | _ => none
        { device := result.1
          log := result.2 w.device.bucket
          replaced := (resumed.bind (overwrites ops w.device)).toList ++ w.replaced
          losing := (resumed.bind (loses w.device)).toList ++ w.losing }

/-- A device that has seen no fork, with any records and any log. -/
def start (device : Device Store Image Write) (log : List (LogEntry Unit Image)) :
    ForkRun Store Image Write :=
  ⟨{ device with tasks := [] }, log, [], []⟩

/-- A call that has saved its cursor and not yet its forks. -/
def saving (t : SyncTask Image) : Bool :=
  match t.phase with
  | .saveForks => true
  | _ => false

/-- The image is in the saved forks, or in those that a call is about to save. -/
def held (dev : Device Store Image Write) (image : Image) : Bool :=
  kept dev.dek dev.syncForks image ||
    dev.tasks.any fun t => saving t && kept dev.dek t.forks image

/-- The call may end here: it has replaced no live image and has not saved its cursor, or
its forks are saved. -/
def endsSafe (dev : Device Store Image Write) (t : SyncTask Image) : Bool :=
  (!t.replaced && !saving t) || t.forks.all fun fork => fork ∈ dev.syncForks

/-- The condition on a segment of `sync()`.
 - It throws only where the call may end.
 - A fork winner is applied to the live image its loser was sealed from; an import that
   fails leaves this image.
 - A blob behind the saved cursor loses a fork only if its image is held.
 - The cursor is saved past a blob that some call has seen lose only if its image is held
   or among the forks of the call.
 - The forks are saved over a list that the call has read. -/
def segmentSafe (ops : SessionOps Store Image Write) (w : ForkRun Store Image Write)
    (t : SyncTask Image) : Bool :=
  match t.phase with
  | .reconcile _ sealed =>
      ((SyncBlob.openBlob w.device.dek sealed).isSome || endsSafe w.device t) &&
        (loses w.device t).all fun entry =>
          w.device.syncCursor ≤ entry.1 || held w.device entry.2
  | .fastForward _ incoming =>
      (ops.importFiles incoming.image w.device.store).toBool || endsSafe w.device t
  | .sealLoser _ _ => (w.device.syncSeal ops t.localVv).isSome || endsSafe w.device t
  | .applyWinner _ incoming loser =>
      match ops.importFiles incoming.image w.device.store with
      | .ok _ => (SyncBlob.openBlob w.device.dek loser).any fun blob =>
          ops.sessionImage w.device.store = some blob.image
      | .error store => endsSafe w.device t &&
          ops.sessionImage store = ops.sessionImage w.device.store
  | .sealPush =>
      (w.device.syncSeal ops (t.localVv.increment w.device.deviceId)).isSome || endsSafe w.device t
  | .saveCursor => w.losing.all fun entry =>
      t.cursor ≤ entry.1 || held w.device entry.2 || kept w.device.dek t.forks entry.2
  | .saveForks => w.device.syncForks.all fun fork => fork ∈ t.forks
  | _ => true

/-- The condition on an event. The calls of the claim's runs are those of `sync()`: the
DEK stays and no bundle is imported. -/
def allowed (ops : SessionOps Store Image Write) (w : ForkRun Store Image Write) :
    ForkEvent Store Image Write → Bool
  | .peerPut _ => true
  | .act (.resume k) => w.device.tasks[k]?.all fun t => segmentSafe ops w t
  | .act (.abort k) => w.device.tasks[k]?.all fun t => endsSafe w.device t
  | .act .crash => w.device.tasks.all fun t => endsSafe w.device t
  | .act (.rotateKey _) | .act (.importBundle _ _) => false
  | .act (.commit _) | .act (.startSync _) => true

/-- A call that has not begun to pull. -/
def early (t : SyncTask Image) : Bool :=
  match t.phase with
  | .readVv | .readCursor | .readForks => true
  | _ => false

structure Inv (w : ForkRun Store Image Write) : Prop where
  fresh : ∀ t ∈ w.device.tasks, early t = true → t.replaced = false
  replaced : ∀ image ∈ w.replaced, kept w.device.dek w.device.syncForks image = true ∨
    ∃ t ∈ w.device.tasks, t.replaced = true ∧ kept w.device.dek t.forks image = true
  behind : ∀ entry ∈ w.losing, entry.1 < w.device.syncCursor → held w.device entry.2 = true

theorem kept_iff {dek : Dek} {forks : List (Fork Image)} {image : Image} :
    kept dek forks image = true ↔
      ∃ fork ∈ forks, ∃ blob, SyncBlob.openBlob dek fork.sealed = some blob ∧ blob.image = image := by
  simp [kept, List.any_eq_true, Option.any_eq_true]

theorem kept_mono {dek : Dek} {forks more : List (Fork Image)} {image : Image} (grown : forks ⊆ more)
    (known : kept dek forks image = true) : kept dek more image = true := by
  obtain ⟨fork, member, opens⟩ := kept_iff.mp known
  exact kept_iff.mpr ⟨fork, grown member, opens⟩

theorem held_iff {dev : Device Store Image Write} {image : Image} : held dev image = true ↔
    kept dev.dek dev.syncForks image = true ∨
      ∃ t ∈ dev.tasks, saving t = true ∧ kept dev.dek t.forks image = true := by
  simp [held, List.any_eq_true]

theorem endsSafe_iff {dev : Device Store Image Write} {t : SyncTask Image} : endsSafe dev t = true ↔
    (t.replaced = false ∧ saving t = false) ∨ t.forks ⊆ dev.syncForks := by
  simp [endsSafe, List.all_eq_true, List.subset_def]

section Steps

variable {w : ForkRun Store Image Write} {k : Nat} {t moved : SyncTask Image}
  {dev : Device Store Image Write} {log : List (LogEntry Unit Image)}

theorem Inv.withLog {replaced : List Image} {losing : List (Nat × Image)}
    (inv : Inv ⟨dev, log, replaced, losing⟩) (other : List (LogEntry Unit Image)) :
    Inv ⟨dev, other, replaced, losing⟩ :=
  ⟨inv.fresh, inv.replaced, inv.behind⟩

/-- Calls that may end take nothing with them. -/
theorem Inv.drop (inv : Inv w) {rest : List (SyncTask Image)} (subset : rest ⊆ w.device.tasks)
    (ends : ∀ t ∈ w.device.tasks, t ∈ rest ∨ endsSafe w.device t = true)
    (sameDek : dev.dek = w.device.dek) (sameForks : dev.syncForks = w.device.syncForks)
    (sameCursor : dev.syncCursor = w.device.syncCursor) (left : dev.tasks = rest) :
    Inv ⟨dev, log, w.replaced, w.losing⟩ := by
  refine ⟨?_, ?_, ?_⟩
  · intro t running
    exact inv.fresh t (subset (left ▸ running))
  · intro image lost
    dsimp only
    rw [sameDek, sameForks, left]
    rcases inv.replaced image lost with saved | ⟨t, running, had, own⟩
    · exact Or.inl saved
    · cases ends t running with
      | inl stays => exact Or.inr ⟨t, stays, had, own⟩
      | inr safe =>
          rcases endsSafe_iff.mp safe with ⟨spared, _⟩ | stored
          · rw [had] at spared
            cases spared
          · exact Or.inl (kept_mono stored own)
  · intro entry lost below
    dsimp only at below ⊢
    rw [held_iff, sameDek, sameForks, left]
    rw [sameCursor] at below
    rcases held_iff.mp (inv.behind entry lost below) with saved | ⟨t, running, atSave, own⟩
    · exact Or.inl saved
    · cases ends t running with
      | inl stays => exact Or.inr ⟨t, stays, atSave, own⟩
      | inr safe =>
          rcases endsSafe_iff.mp safe with ⟨_, spared⟩ | stored
          · rw [atSave] at spared
            cases spared
          · exact Or.inl (kept_mono stored own)

/-- A segment of a call that goes on and saves no forks. -/
structure Moves (w : ForkRun Store Image Write) (dev : Device Store Image Write)
    (t moved : SyncTask Image) (overwritten : Option Image) (lost : Option (Nat × Image)) : Prop where
  dek : dev.dek = w.device.dek
  tasks : dev.tasks = w.device.tasks
  syncForks : dev.syncForks = w.device.syncForks
  forks : t.replaced = true → t.forks ⊆ moved.forks
  replaced : t.replaced = true → moved.replaced = true
  fresh : early moved = true → moved.replaced = false
  waits : saving t = false
  overwritten : ∀ image ∈ overwritten, moved.replaced = true ∧ kept w.device.dek moved.forks image = true
  behind : ∀ entry, entry ∈ lost ∨ entry ∈ w.losing → entry.1 < dev.syncCursor →
    held w.device entry.2 = true ∨ (saving moved = true ∧ kept w.device.dek moved.forks entry.2 = true)

theorem Inv.moves (inv : Inv w) (running : w.device.tasks[k]? = some t) {overwritten : Option Image}
    {lost : Option (Nat × Image)} (moves : Moves w dev t moved overwritten lost) :
    Inv ⟨dev.putTask k (some moved), log, overwritten.toList ++ w.replaced, lost.toList ++ w.losing⟩ := by
  have still : dev.tasks[k]? = some t := by
    rw [moves.tasks]
    exact running
  have here : moved ∈ (dev.putTask k (some moved)).tasks := moved_mem_putTask still
  refine ⟨?_, ?_, ?_⟩
  · intro u member
    rcases mem_putTask member with old | new
    · exact inv.fresh u (moves.tasks ▸ old)
    · obtain rfl := Option.some.inj new
      exact moves.fresh
  · intro image gone
    dsimp only [Device.putTask]
    rw [moves.dek, moves.syncForks]
    cases List.mem_append.mp gone with
    | inl now =>
        obtain ⟨had, own⟩ := moves.overwritten image (Option.mem_toList.mp now)
        exact Or.inr ⟨moved, here, had, own⟩
    | inr before =>
        rcases inv.replaced image before with saved | ⟨u, member, had, own⟩
        · exact Or.inl saved
        · by_cases same : u = t
          · subst same
            exact Or.inr ⟨moved, here, moves.replaced had, kept_mono (moves.forks had) own⟩
          · have other := other_mem_putTask still (some moved) (moves.tasks ▸ member) same
            exact Or.inr ⟨u, other, had, own⟩
  · intro entry gone below
    have known : entry ∈ lost ∨ entry ∈ w.losing :=
      (List.mem_append.mp gone).imp_left Option.mem_toList.mp
    rw [held_iff]
    dsimp only [Device.putTask]
    rw [moves.dek, moves.syncForks]
    rcases moves.behind entry known below with before | ⟨atSave, own⟩
    · rcases held_iff.mp before with saved | ⟨u, member, atSave, own⟩
      · exact Or.inl saved
      · have apart : u ≠ t := by
          rintro rfl
          rw [moves.waits] at atSave
          cases atSave
        have other := other_mem_putTask still (some moved) (moves.tasks ▸ member) apart
        exact Or.inr ⟨u, other, atSave, own⟩
    · exact Or.inr ⟨moved, here, atSave, own⟩

/-- Segments that touch neither the records nor the forks of the call. -/
theorem Inv.plain (inv : Inv w) (running : w.device.tasks[k]? = some t)
    (sameDek : dev.dek = w.device.dek) (sameTasks : dev.tasks = w.device.tasks)
    (sameForks : dev.syncForks = w.device.syncForks) (sameCursor : dev.syncCursor = w.device.syncCursor)
    (waits : saving t = false) (forks : moved.forks = t.forks) (replaced : moved.replaced = t.replaced)
    (fresh : early moved = true → t.replaced = false) :
    Inv ⟨dev.putTask k (some moved), log, w.replaced, w.losing⟩ := by
  have move : Moves w dev t moved none none := by
    refine ⟨sameDek, sameTasks, sameForks, ?_, ?_, ?_, waits, ?_, ?_⟩
    · exact fun _ => forks ▸ List.Subset.refl _
    · exact fun had => replaced.trans had
    · exact fun soon => replaced.trans (fresh soon)
    · exact fun _ none_left => nomatch none_left
    · intro entry known below
      rw [sameCursor] at below
      exact Or.inl (inv.behind entry (known.resolve_left fun no => nomatch no) below)
  exact inv.moves running move

omit [DecidableEq Image] in
theorem early_pull (t : SyncTask Image) (i : Nat) : early (t.pull i) = false := by
  unfold SyncTask.pull
  split
  · rfl
  · cases t.push <;> rfl

/-- A segment that goes on with the pull loop. -/
theorem Inv.pulls (inv : Inv w) (running : w.device.tasks[k]? = some t)
    (sameDek : dev.dek = w.device.dek) (sameTasks : dev.tasks = w.device.tasks)
    (sameForks : dev.syncForks = w.device.syncForks) (sameCursor : dev.syncCursor = w.device.syncCursor)
    (waits : saving t = false) (forks : moved.forks = t.forks) (replaced : moved.replaced = t.replaced)
    (i : Nat) : Inv ⟨dev.putTask k (some (moved.pull i)), log, w.replaced, w.losing⟩ := by
  refine inv.plain running sameDek sameTasks sameForks sameCursor waits ?_ ?_ ?_
  · exact (SyncTask.pull_forks ..).trans forks
  · exact (SyncTask.pull_replaced ..).trans replaced
  · intro soon
    rw [early_pull] at soon
    cases soon

/-- A fork has been settled: its loser is among the forks of the call. -/
theorem Inv.stashes (inv : Inv w) (running : w.device.tasks[k]? = some t)
    (sameDek : dev.dek = w.device.dek) (sameTasks : dev.tasks = w.device.tasks)
    (sameForks : dev.syncForks = w.device.syncForks) (sameCursor : dev.syncCursor = w.device.syncCursor)
    (waits : saving t = false) {overwritten : Option Image} {lost : Option (Nat × Image)} {i : Nat}
    {incoming : SyncBlob Image} {loser : SealedBytes (SyncBlob Image)}
    (had : t.replaced = true → moved.replaced = true) (same : moved.forks = t.forks)
    (kept_loser : ∀ image ∈ overwritten, moved.replaced = true ∧
      ∃ blob, SyncBlob.openBlob w.device.dek loser = some blob ∧ blob.image = image)
    (behind : ∀ entry ∈ lost, entry.1 < w.device.syncCursor → held w.device entry.2 = true) :
    Inv ⟨dev.putTask k (some ((moved.stash i incoming loser).pull (i + 1))), log,
      overwritten.toList ++ w.replaced, lost.toList ++ w.losing⟩ := by
  have move : Moves w dev t ((moved.stash i incoming loser).pull (i + 1)) overwritten lost := by
    refine ⟨sameDek, sameTasks, sameForks, ?_, ?_, ?_, waits, ?_, ?_⟩
    · intro _ fork member
      rw [SyncTask.pull_forks, SyncTask.mem_stash_forks, same]
      exact Or.inl member
    · intro replaced
      rw [SyncTask.pull_replaced, SyncTask.stash_replaced]
      exact had replaced
    · intro soon
      rw [early_pull] at soon
      cases soon
    · intro image gone
      obtain ⟨replaced, blob, opened, own⟩ := kept_loser image gone
      refine ⟨?_, kept_iff.mpr ⟨⟨(moved.cursor + i, moved.forks.length), loser⟩, ?_, blob, opened, own⟩⟩
      · rw [SyncTask.pull_replaced, SyncTask.stash_replaced]
        exact replaced
      · rw [SyncTask.pull_forks, SyncTask.mem_stash_forks]
        exact Or.inr rfl
    · intro entry known below
      rw [sameCursor] at below
      cases known with
      | inl new => exact Or.inl (behind entry new below)
      | inr old => exact Or.inl (inv.behind entry old below)
  exact inv.moves running move

/-- A call that throws where it may end. -/
theorem Inv.throws (inv : Inv w) (running : w.device.tasks[k]? = some t)
    (safe : endsSafe w.device t = true) (sameDek : dev.dek = w.device.dek)
    (sameTasks : dev.tasks = w.device.tasks) (sameForks : dev.syncForks = w.device.syncForks)
    (sameCursor : dev.syncCursor = w.device.syncCursor) :
    Inv ⟨dev.putTask k none, log, w.replaced, w.losing⟩ := by
  have subset : w.device.tasks.eraseIdx k ⊆ w.device.tasks := List.eraseIdx_subset ..
  refine inv.drop subset ?_ sameDek sameForks sameCursor ?_
  · intro u member
    by_cases same : u = t
    · subst same
      exact Or.inr safe
    · exact Or.inl (other_mem_putTask running none member same)
  · dsimp only [Device.putTask]
    rw [sameTasks]

/-- The save of the forks ends a call and keeps everything it knew of. -/
theorem Inv.saves (inv : Inv w) (running : w.device.tasks[k]? = some t)
    (read : w.device.syncForks ⊆ t.forks) :
    Inv ⟨({ w.device with syncForks := t.forks } : Device Store Image Write).putTask k none, log,
      w.replaced, w.losing⟩ := by
  have others : ∀ u ∈ w.device.tasks, u ≠ t → u ∈ w.device.tasks.eraseIdx k :=
    fun u member apart => other_mem_putTask running none member apart
  refine ⟨fun u member => inv.fresh u (List.mem_of_mem_eraseIdx member), ?_, ?_⟩
  · intro image gone
    rcases inv.replaced image gone with saved | ⟨u, member, had, own⟩
    · exact Or.inl (kept_mono read saved)
    · by_cases same : u = t
      · subst same
        exact Or.inl own
      · exact Or.inr ⟨u, others u member same, had, own⟩
  · intro entry gone below
    rw [held_iff]
    rcases held_iff.mp (inv.behind entry gone below) with saved | ⟨u, member, atSave, own⟩
    · exact Or.inl (kept_mono read saved)
    · by_cases same : u = t
      · subst same
        exact Or.inl own
      · exact Or.inr ⟨u, others u member same, atSave, own⟩

/-- One segment of a call. -/
theorem Inv.resume {ops : SessionOps Store Image Write} (inv : Inv w)
    (running : w.device.tasks[k]? = some t) (safe : segmentSafe ops w t = true) :
    let result := advance ops () w.log w.device t
    Inv ⟨result.1.putTask k result.2.1, result.2.2, (overwrites ops w.device t).toList ++ w.replaced,
      (loses w.device t).toList ++ w.losing⟩ := by
  have fresh := inv.fresh t (List.mem_of_getElem? running)
  obtain ⟨syncId, push, localVv, cursor, forks, count, phase, replaced⟩ := t
  cases phase with
  | readVv => exact inv.plain running rfl rfl rfl rfl rfl rfl rfl fun _ => fresh rfl
  | readCursor => exact inv.plain running rfl rfl rfl rfl rfl rfl rfl fun _ => fresh rfl
  | readForks =>
      obtain rfl : replaced = false := fresh rfl
      have move : Moves w w.device ⟨syncId, push, localVv, cursor, forks, count, .readForks, false⟩
          ⟨syncId, push, localVv, cursor, w.device.syncForks, count, .list, false⟩ none none := by
        refine ⟨rfl, rfl, rfl, fun had => (nomatch had), fun had => (nomatch had), fun _ => rfl, rfl,
          fun _ no => (nomatch no), ?_⟩
        intro entry known below
        exact Or.inl (inv.behind entry (known.resolve_left fun no => nomatch no) below)
      exact inv.moves running move
  | list => apply inv.pulls running <;> rfl
  | get i =>
      simp only [advance]
      cases w.log[cursor + i]? with
      | none => apply inv.pulls running <;> rfl
      | some entry => exact inv.plain running rfl rfl rfl rfl rfl rfl rfl fun soon => nomatch soon
  | reconcile i sealed =>
      simp only [segmentSafe, Bool.and_eq_true, Bool.or_eq_true, Option.all_eq_true] at safe
      obtain ⟨throws, behind⟩ := safe
      simp only [advance, loses] at behind ⊢
      cases opened : SyncBlob.openBlob w.device.dek sealed with
      | none =>
          rw [opened] at throws
          exact inv.throws running (throws.resolve_left fun no => nomatch no) rfl rfl rfl rfl
      | some incoming =>
          simp only [opened] at behind ⊢
          cases outcome : Freehold.reconcile localVv incoming.vv with
          | fastForward => exact inv.plain running rfl rfl rfl rfl rfl rfl rfl fun soon => nomatch soon
          | stale => apply inv.pulls running <;> rfl
          | fork winnerIsIncoming =>
              cases winnerIsIncoming with
              | true => exact inv.plain running rfl rfl rfl rfl rfl rfl rfl fun soon => nomatch soon
              | false =>
                  simp only [outcome, if_true] at behind ⊢
                  have dealt : ∀ entry ∈ some (cursor + i, incoming.image),
                      entry.1 < w.device.syncCursor → held w.device entry.2 = true := by
                    intro entry new below
                    have safe := behind entry new
                    rw [decide_eq_true_eq] at safe
                    exact safe.resolve_left (Nat.not_le.mpr below)
                  refine inv.stashes running ?_ ?_ ?_ ?_ ?_ ?_ ?_ (fun _ no => ?_) dealt <;> try rfl
                  · exact fun had => had
                  · cases no
  | fastForward i incoming =>
      simp only [segmentSafe, Bool.or_eq_true] at safe
      simp only [advance]
      cases applied : ops.importFiles incoming.image w.device.store with
      | ok store => apply inv.pulls running <;> rfl
      | error store =>
          rw [applied] at safe
          exact inv.throws running (safe.resolve_left fun no => nomatch no) rfl rfl rfl rfl
  | sealLoser i incoming =>
      simp only [segmentSafe, Bool.or_eq_true] at safe
      simp only [advance]
      cases sealing : w.device.syncSeal ops localVv with
      | some loser => exact inv.plain running rfl rfl rfl rfl rfl rfl rfl fun soon => nomatch soon
      | none =>
          rw [sealing] at safe
          exact inv.throws running (safe.resolve_left fun no => nomatch no) rfl rfl rfl rfl
  | applyWinner i incoming loser =>
      simp only [segmentSafe] at safe
      simp only [advance, overwrites]
      cases applied : ops.importFiles incoming.image w.device.store with
      | ok store =>
          simp only [applied, Option.any_eq_true, decide_eq_true_eq] at safe ⊢
          obtain ⟨blob, opened, current⟩ := safe
          refine inv.stashes running ?_ ?_ ?_ ?_ ?_ (fun _ => ?_) ?_ ?_ (fun _ no => ?_) <;> try rfl
          · intro image overwritten
            rw [current] at overwritten
            exact ⟨rfl, blob, opened, Option.some.inj overwritten⟩
          · cases no
      | error store =>
          simp only [applied, Bool.and_eq_true, decide_eq_true_eq] at safe ⊢
          rw [if_pos safe.2]
          exact inv.throws running safe.1 rfl rfl rfl rfl
  | sealPush =>
      simp only [segmentSafe, Bool.or_eq_true] at safe
      simp only [advance]
      cases sealing : w.device.syncSeal ops (localVv.increment w.device.deviceId) with
      | some blob => exact inv.plain running rfl rfl rfl rfl rfl rfl rfl fun soon => nomatch soon
      | none =>
          rw [sealing] at safe
          exact inv.throws running (safe.resolve_left fun no => nomatch no) rfl rfl rfl rfl
  | put blob => exact inv.plain running rfl rfl rfl rfl rfl rfl rfl fun soon => nomatch soon
  | relist => exact inv.plain running rfl rfl rfl rfl rfl rfl rfl fun soon => nomatch soon
  | saveVv => exact inv.plain running rfl rfl rfl rfl rfl rfl rfl fun soon => nomatch soon
  | saveCursor =>
      have move : Moves w { w.device with syncCursor := cursor }
          ⟨syncId, push, localVv, cursor, forks, count, .saveCursor, replaced⟩
          ⟨syncId, push, localVv, cursor, forks, count, .saveForks, replaced⟩ none none := by
        refine ⟨rfl, rfl, rfl, fun _ => List.Subset.refl _, fun had => had, fun soon => (nomatch soon), rfl,
          fun _ no => (nomatch no), ?_⟩
        intro entry known below
        have seen := List.all_eq_true.mp safe entry (known.resolve_left fun no => nomatch no)
        simp only [Bool.or_eq_true, decide_eq_true_eq] at seen
        rcases seen with (ahead | saved) | own
        · exact absurd below (Nat.not_lt.mpr ahead)
        · exact Or.inl saved
        · exact Or.inr ⟨rfl, own⟩
      exact inv.moves running move
  | saveForks =>
      refine inv.saves running ?_
      intro fork member
      exact of_decide_eq_true (List.all_eq_true.mp safe fork member)

theorem Inv.step {ops : SessionOps Store Image Write} {event : ForkEvent Store Image Write}
    {next : ForkRun Store Image Write} (inv : Inv w) (permitted : allowed ops w event = true)
    (taken : step ops w event = some next) : Inv next := by
  cases event with
  | peerPut sealed =>
      obtain rfl := Option.some.inj taken
      exact inv.withLog _
  | act action =>
      obtain ⟨⟨after, later⟩, acted, rfl⟩ := Option.map_eq_some_iff.mp taken
      cases action with
      | commit write =>
          cases acted
          exact ⟨inv.fresh, inv.replaced, inv.behind⟩
      | startSync push =>
          cases acted
          refine ⟨?_, ?_, ?_⟩
          · intro t running
            rcases List.mem_append.mp running with old | new
            · exact inv.fresh t old
            · obtain rfl := List.mem_singleton.mp new
              exact fun _ => rfl
          · intro image gone
            rcases inv.replaced image gone with saved | ⟨t, running, own⟩
            · exact Or.inl saved
            · exact Or.inr ⟨t, List.mem_append_left _ running, own⟩
          · intro entry gone below
            rw [held_iff]
            rcases held_iff.mp (inv.behind entry gone below) with saved | ⟨t, running, own⟩
            · exact Or.inl saved
            · exact Or.inr ⟨t, List.mem_append_left _ running, own⟩
      | resume k =>
          obtain ⟨t, running, moved⟩ := Option.map_eq_some_iff.mp acted
          obtain ⟨rfl, rfl⟩ := Prod.mk.inj moved
          have safe : segmentSafe ops w t = true := by simpa [allowed, running] using permitted
          have kept := inv.resume running safe
          simp only [running, Option.bind_some]
          exact kept.withLog _
      | abort k =>
          obtain ⟨t, running, moved⟩ := Option.map_eq_some_iff.mp acted
          obtain ⟨rfl, rfl⟩ := Prod.mk.inj moved
          have safe : endsSafe w.device t = true := by simpa [allowed, running] using permitted
          exact inv.throws running safe rfl rfl rfl rfl
      | crash =>
          cases acted
          refine inv.drop (List.nil_subset _) ?_ rfl rfl rfl rfl
          exact fun t running => Or.inr (List.all_eq_true.mp permitted t running)
      | rotateKey dek => cases permitted
      | importBundle dek store => cases permitted

end Steps

/-- The image is the live one or in the saved forks. -/
def Durable (ops : SessionOps Store Image Write) (dev : Device Store Image Write) (image : Image) : Prop :=
  ops.sessionImage dev.store = some image ∨ kept dev.dek dev.syncForks image = true

/-- Device 3, with two writes of its own pushed, whose live files are its history. -/
def sampleDevice : Device (List Nat) (List Nat) Nat :=
  ⟨3, 0, [7], (VersionVector.new.increment 3).increment 3, 0, [], [], [], []⟩

/-- Two blobs of other devices: the first one loses to device 3, the second one wins over
it and the first. -/
def sampleLog : List (LogEntry Unit (List Nat)) :=
  [⟨(), SyncBlob.sealBlob 0 ⟨syncDbUuid, VersionVector.new.increment 5, [5]⟩⟩,
    ⟨(), SyncBlob.sealBlob 0 ⟨syncDbUuid,
      (((VersionVector.new.increment 9).increment 9).increment 9).increment 9, [9]⟩⟩]

def goesOn (n : Nat) : List (ForkEvent (List Nat) (List Nat) Nat) := List.replicate n (.act (.resume 0))

end ForkRun

end Freehold
