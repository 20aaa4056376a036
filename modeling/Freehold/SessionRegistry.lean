import Freehold.Vault
import Freehold.Lib.Runs

set_option autoImplicit false

namespace Freehold

/-- A pool registered with SQLite as the VFS `pk-session`: its key, bound when it was
registered, and its `open_files`. -/
structure RegisteredPool where
  id : Nat
  dek : Dek
  openFiles : List FileName
  deriving DecidableEq

/-- The thread-local `SESSION`: the pool of its `util` and its connections, with the DEK
that its envelope unwrapped to, which the source does not keep. -/
structure Session where
  pool : Nat
  handles : List FileName
  dek : Dek
  deriving DecidableEq

/-- What `session_begin` is given, with the DEK unwrapped from the envelope. -/
structure Attempt where
  envelope : Envelope
  dek : Dek
  epoch : Option (SealedBytes (List UInt8))
  deriving DecidableEq

/-- The worker: the registry entry, the session, and the running `session_begin` calls,
which wait for `REGISTER_GUARD` or hold it while `OpfsSAHPool::new` acquires the handles. -/
structure SessionWorker where
  registered : Option RegisteredPool
  session : Option Session
  waiting : List Attempt
  creating : Option Attempt
  nextPool : Nat
  deriving DecidableEq

/-- What the pool's part of a `session_begin` comes to: `recover_rotation`, and
`apply_epoch` with the envelope generation that the token attests. -/
structure TailResults where
  recovered : Except String Unit
  attested : Except String Nat

inductive SessionEvent where
  | sessionOpen (envelope : Envelope) (method : Method) (epoch : Option (SealedBytes (List UInt8)))
      (stuck : List FileName)
  | sessionLock (stuck : List FileName)
  | sessionSql (file : FileName)
  | install (k : Nat) (results : TailResults)
  | created (pool : Except String Unit) (results : TailResults)

namespace SessionWorker

/-- `pause_vfs` on the pool `id`: it unregisters the VFS unless a file is open. A pool that
is registered no more is paused already. -/
def pauseVfs (w : SessionWorker) (id : Nat) : Except String SessionWorker :=
  match w.registered with
  | some pool =>
      if pool.id = id then
        if pool.openFiles.isEmpty then .ok { w with registered := none }
        else .error "Cannot pause: files may be in use"
      else .ok w
  | none => .ok w

/-- Closes the connections of a session; SQLite does not close the `stuck` ones. -/
def closeHandles (w : SessionWorker) (handles stuck : List FileName) : SessionWorker :=
  { w with registered := w.registered.map fun pool =>
      { pool with openFiles := pool.openFiles.filter fun file => file ∉ handles ∨ file ∈ stuck } }

/-- `session_lock_inner`: the session is taken before the pool is paused. -/
def sessionLockInner (w : SessionWorker) (stuck : List FileName) : SessionWorker × Except String Unit :=
  match w.session with
  | none => (w, .ok ())
  | some session =>
      let closed := { w with session := none }.closeHandles session.handles stuck
      match closed.pauseVfs session.pool with
      | .ok paused => (paused, .ok ())
      | .error e =>
          let shown := (OpfsSAHError.generic e).debug
          (closed, .error s!"session_lock pause: {shown}")

/-- How a `session_begin` ends once `install` has returned. -/
inductive Verdict where
  | failed
  | stale
  | accepted
  deriving DecidableEq

/-- `recover_rotation` and, if there is a token, `apply_epoch` with its check. -/
def verdict (attempt : Attempt) (results : TailResults) : Verdict :=
  match results.recovered, attempt.epoch, results.attested with
  | .error _, _, _ => .failed
  | .ok _, none, _ => .accepted
  | .ok _, some _, .error _ => .failed
  | .ok _, some _, .ok attestedEnvGen =>
      if attempt.envelope.generation < attestedEnvGen then .stale else .accepted

/-- The rest of `session_begin`: an error leaves everything, a stale envelope releases
the pool if it can, and otherwise the session is stored. -/
def finishBegin (w : SessionWorker) (pool : Nat) (attempt : Attempt) (results : TailResults) :
    SessionWorker :=
  match verdict attempt results with
  | .failed => w
  | .stale =>
      match w.pauseVfs pool with
      | .ok paused => paused
      | .error _ => w
  | .accepted => { w with session := some ⟨pool, [], attempt.dek⟩ }

/-- One event. Everything between two awaits of a call happens in one step; `none` where
the call does not exist or the guard is held by another one. -/
def step (w : SessionWorker) : SessionEvent → Option SessionWorker
  | .sessionOpen envelope method epoch stuck =>
      match Vault.unwrap envelope method with
      | .error _ => some w
      | .ok dek =>
          match w.sessionLockInner stuck with
          | (locked, .ok _) => some { locked with waiting := locked.waiting ++ [⟨envelope, dek, epoch⟩] }
          | (locked, .error _) => some locked
  | .sessionLock stuck => some (w.sessionLockInner stuck).1
  | .sessionSql file =>
      match w.session, w.registered with
      | some session, some pool =>
          if file ∈ session.handles then some w
          else some { w with
            session := some { session with handles := session.handles ++ [file] }
            registered := some { pool with openFiles := pool.openFiles ++ [file] } }
      | _, _ => some w
  | .install k results =>
      match w.waiting[k]?, w.creating with
      | some attempt, none =>
          let entered := { w with waiting := w.waiting.eraseIdx k }
          match w.registered with
          -- `install` returns the registered pool and ignores the DEK it is given
          | some pool => some (entered.finishBegin pool.id attempt results)
          | none => some { entered with creating := some attempt }
      | _, _ => none
  | .created pool results =>
      match w.creating, pool with
      | some attempt, .ok _ =>
          let fresh : RegisteredPool := ⟨w.nextPool, attempt.dek, []⟩
          let registered : SessionWorker :=
            { w with registered := some fresh, creating := none, nextPool := w.nextPool + 1 }
          some (registered.finishBegin fresh.id attempt results)
      | some _, .error _ => some { w with creating := none }
      | none, _ => none

/-- A worker without a session. -/
def start : SessionWorker := ⟨none, none, [], none, 0⟩

/-- What the connections of the session read and write through is its own pool, under the
key of its envelope. -/
def Keyed (w : SessionWorker) : Prop :=
  ∀ session, w.session = some session → ∀ pool, w.registered = some pool →
    session.pool = pool.id ∧ pool.dek = session.dek

/-- The events that make a `session_begin` return an error. -/
def unlockFails (w : SessionWorker) : SessionEvent → Prop
  | .sessionOpen envelope method _ stuck =>
      (Vault.unwrap envelope method).toBool = true ∧ (w.sessionLockInner stuck).2.toBool = false
  | .sessionLock _ => False
  | .sessionSql _ => False
  | .install k results => ∃ attempt ∈ w.waiting[k]?, ∃ _pool ∈ w.registered,
      verdict attempt results ≠ .accepted
  | .created pool results => ∃ attempt ∈ w.creating,
      pool.toBool = true → verdict attempt results ≠ .accepted

/-- Closing the connections of the session leaves no file open. -/
def Closes (w : SessionWorker) (stuck : List FileName) : Prop :=
  ∀ session ∈ w.session, ∀ pool ∈ w.registered, ∀ file ∈ pool.openFiles,
    file ∈ session.handles ∧ file ∉ stuck

instance (w : SessionWorker) (stuck : List FileName) : Decidable (Closes w stuck) :=
  inferInstanceAs (Decidable (∀ session ∈ w.session, ∀ pool ∈ w.registered, ∀ file ∈ pool.openFiles, _))

/-- The condition on an event: the lock with which an unlock begins can close the
connections; an unlock that finds a pool registered has the key of this pool and does not
fail, or is stale while no file is open; and one that has registered its pool fails only
for a stale envelope. -/
def allowed (w : SessionWorker) : SessionEvent → Prop
  | .sessionOpen envelope method _ stuck =>
      (Vault.unwrap envelope method).toBool = true → Closes w stuck
  | .sessionLock _ => True
  | .sessionSql _ => True
  | .install k results => ∀ attempt ∈ w.waiting[k]?, ∀ pool ∈ w.registered,
      (verdict attempt results = .accepted ∧ pool.dek = attempt.dek) ∨
        (verdict attempt results = .stale ∧ pool.openFiles = [])
  | .created pool results => ∀ attempt ∈ w.creating,
      pool.toBool = true → verdict attempt results ≠ .failed

instance (w : SessionWorker) : DecidablePred (allowed w)
  | .sessionOpen envelope method _ stuck =>
      inferInstanceAs (Decidable ((Vault.unwrap envelope method).toBool = true → Closes w stuck))
  | .sessionLock _ => inferInstanceAs (Decidable True)
  | .sessionSql _ => inferInstanceAs (Decidable True)
  | .install k results => inferInstanceAs (Decidable (∀ attempt ∈ w.waiting[k]?, ∀ pool ∈ w.registered,
      (verdict attempt results = .accepted ∧ pool.dek = attempt.dek) ∨
        (verdict attempt results = .stale ∧ pool.openFiles = [])))
  | .created pool results => inferInstanceAs (Decidable (∀ attempt ∈ w.creating,
      pool.toBool = true → verdict attempt results ≠ .failed))

/-- While a pool is being created none is registered. -/
structure Inv (w : SessionWorker) : Prop where
  keyed : Keyed w
  guarded : w.creating.isSome → w.registered = none

/-- With no pool registered nothing is read or written. -/
theorem Inv.bare {w : SessionWorker} (absent : w.registered = none) : Inv w := by
  refine ⟨?_, fun _ => absent⟩
  intro session _ pool present
  rw [absent] at present
  cases present

theorem Inv.unlocked {w : SessionWorker} (idle : w.session = none)
    (guarded : w.creating.isSome → w.registered = none) : Inv w := by
  refine ⟨?_, guarded⟩
  intro session live
  rw [idle] at live
  cases live

/-- Only the guard, the registry and the session matter to the invariant. -/
theorem Inv.waiting {w : SessionWorker} (inv : Inv w) (calls : List Attempt) :
    Inv { w with waiting := calls } :=
  ⟨inv.keyed, inv.guarded⟩

theorem pauseVfs_ok {w paused : SessionWorker} {id : Nat} (done : w.pauseVfs id = .ok paused) :
    paused = w ∨ paused = { w with registered := none } := by
  unfold pauseVfs at done
  split at done
  · split_ifs at done
    · exact Or.inr (Except.ok.inj done).symm
    · exact Or.inl (Except.ok.inj done).symm
  · exact Or.inl (Except.ok.inj done).symm

theorem Inv.lock {w : SessionWorker} (inv : Inv w) (stuck : List FileName) :
    Inv (w.sessionLockInner stuck).1 := by
  unfold sessionLockInner
  cases live : w.session with
  | none => exact inv
  | some session =>
      have closed : Inv ({ w with session := none }.closeHandles session.handles stuck) := by
        refine Inv.unlocked rfl ?_
        intro busy
        have absent : w.registered = none := inv.guarded busy
        simp only [closeHandles, absent, Option.map_none]
      dsimp only
      cases paused : pauseVfs ({ w with session := none }.closeHandles session.handles stuck)
          session.pool with
      | error e => exact closed
      | ok next =>
          rcases pauseVfs_ok paused with rfl | rfl
          · exact closed
          · exact Inv.bare rfl

/-- A lock that closes every connection succeeds. -/
theorem Inv.lock_ok {w : SessionWorker} {stuck : List FileName} (inv : Inv w) (closes : Closes w stuck) :
    (w.sessionLockInner stuck).2 = .ok () := by
  unfold sessionLockInner
  cases live : w.session with
  | none => rfl
  | some session =>
      dsimp only
      cases present : w.registered with
      | none => simp only [closeHandles, pauseVfs, Option.map_none]
      | some pool =>
          obtain ⟨own, _⟩ := inv.keyed session live pool present
          have emptied : pool.openFiles.filter (fun file => file ∉ session.handles ∨ file ∈ stuck) = [] := by
            rw [List.filter_eq_nil_iff]
            intro file listed
            obtain ⟨handled, free⟩ := closes session live pool present file listed
            simp [handled, free]
          simp only [closeHandles, pauseVfs, Option.map_some, own, if_true, emptied, List.isEmpty_nil]

/-- An accepted unlock runs on the pool it has been given. -/
theorem Inv.accepted {w : SessionWorker} {pool : RegisteredPool} {attempt : Attempt}
    (present : w.registered = some pool) (idle : w.creating = none) (key : pool.dek = attempt.dek) :
    Inv { w with session := some ⟨pool.id, [], attempt.dek⟩ } := by
  refine ⟨?_, ?_⟩
  · intro session live other registered
    obtain rfl := Option.some.inj live
    obtain rfl := Option.some.inj (present.symm.trans registered)
    exact ⟨rfl, key⟩
  · intro busy
    rw [show w.creating = none from idle] at busy
    cases busy

/-- A pool without an open file is released. -/
theorem pauseVfs_registered {w : SessionWorker} {pool : RegisteredPool}
    (present : w.registered = some pool) (unused : pool.openFiles = []) :
    w.pauseVfs pool.id = .ok { w with registered := none } := by
  simp only [pauseVfs, present, unused, if_true, List.isEmpty_nil]

theorem finishBegin_accepted {w : SessionWorker} {attempt : Attempt} {results : TailResults}
    (accepted : verdict attempt results = .accepted) (pool : Nat) :
    w.finishBegin pool attempt results = { w with session := some ⟨pool, [], attempt.dek⟩ } := by
  simp only [finishBegin, accepted]

theorem finishBegin_stale {w : SessionWorker} {pool : RegisteredPool} {attempt : Attempt}
    {results : TailResults} (stale : verdict attempt results = .stale)
    (present : w.registered = some pool) (unused : pool.openFiles = []) :
    w.finishBegin pool.id attempt results = { w with registered := none } := by
  simp only [finishBegin, stale, pauseVfs_registered present unused]

theorem Inv.sql {w : SessionWorker} {session : Session} {pool : RegisteredPool} (inv : Inv w)
    (live : w.session = some session) (present : w.registered = some pool) (file : FileName) :
    Inv { w with
      session := some { session with handles := session.handles ++ [file] }
      registered := some { pool with openFiles := pool.openFiles ++ [file] } } := by
  refine ⟨?_, ?_⟩
  · intro other now otherPool registered
    obtain rfl := Option.some.inj now
    obtain rfl := Option.some.inj registered
    exact inv.keyed session live pool present
  · intro busy
    have absent := inv.guarded busy
    rw [present] at absent
    cases absent

/-- An unlock that finds a pool registered. -/
theorem Inv.reuse {w : SessionWorker} {pool : RegisteredPool} {attempt : Attempt}
    {results : TailResults} (present : w.registered = some pool) (idle : w.creating = none)
    (meets : (verdict attempt results = .accepted ∧ pool.dek = attempt.dek) ∨
      (verdict attempt results = .stale ∧ pool.openFiles = [])) :
    Inv (w.finishBegin pool.id attempt results) ∧
      (verdict attempt results ≠ .accepted →
        (w.finishBegin pool.id attempt results).registered = none) := by
  rcases meets with ⟨accepted, key⟩ | ⟨stale, unused⟩
  · rw [finishBegin_accepted accepted]
    exact ⟨Inv.accepted present idle key, fun failed => absurd accepted failed⟩
  · rw [finishBegin_stale stale present unused]
    exact ⟨Inv.bare rfl, fun _ => rfl⟩

/-- An unlock that has registered its own pool. -/
theorem Inv.fresh {w : SessionWorker} {attempt : Attempt} {results : TailResults} {id : Nat}
    (present : w.registered = some ⟨id, attempt.dek, []⟩) (idle : w.creating = none)
    (meets : verdict attempt results ≠ .failed) :
    Inv (w.finishBegin id attempt results) ∧
      (verdict attempt results ≠ .accepted →
        (w.finishBegin id attempt results).registered = none) := by
  refine Inv.reuse present idle ?_
  cases outcome : verdict attempt results with
  | failed => exact absurd outcome meets
  | stale => exact Or.inr ⟨rfl, rfl⟩
  | accepted => exact Or.inl ⟨rfl, rfl⟩

/-- What one allowed event keeps, and what it leaves behind where it makes an unlock fail. -/
theorem Inv.step {w next : SessionWorker} {event : SessionEvent} (inv : Inv w)
    (permitted : allowed w event) (taken : step w event = some next) :
    Inv next ∧ (unlockFails w event → next.registered = none) := by
  cases event with
  | sessionOpen envelope method epoch stuck =>
      cases unwrapped : Vault.unwrap envelope method with
      | error e =>
          simp only [SessionWorker.step, unwrapped, Option.some.injEq] at taken
          obtain rfl := taken
          refine ⟨inv, ?_⟩
          rintro ⟨opened, _⟩
          rw [unwrapped] at opened
          cases opened
      | ok dek =>
          have closes : Closes w stuck := permitted (by rw [unwrapped]; rfl)
          have locked := inv.lock_ok closes
          have kept := inv.lock stuck
          simp only [SessionWorker.step, unwrapped] at taken
          generalize outcome : w.sessionLockInner stuck = result at taken locked kept
          obtain ⟨after, unlocked⟩ := result
          obtain rfl := locked
          obtain rfl := Option.some.inj taken
          refine ⟨Inv.waiting kept _, ?_⟩
          rintro ⟨_, failed⟩
          rw [outcome] at failed
          cases failed
  | sessionLock stuck =>
      obtain rfl := Option.some.inj taken
      exact ⟨inv.lock stuck, False.elim⟩
  | sessionSql file =>
      refine ⟨?_, False.elim⟩
      simp only [SessionWorker.step] at taken
      split at taken
      · rename_i session pool live present
        split_ifs at taken
        · obtain rfl := Option.some.inj taken
          exact inv
        · obtain rfl := Option.some.inj taken
          exact inv.sql live present file
      · obtain rfl := Option.some.inj taken
        exact inv
  | install k results =>
      simp only [SessionWorker.step] at taken
      split at taken
      · rename_i attempt called idle
        split at taken
        · rename_i pool present
          obtain rfl := Option.some.inj taken
          have meets := permitted attempt called pool present
          have done := Inv.reuse (w := { w with waiting := w.waiting.eraseIdx k }) present idle meets
          refine ⟨done.1, ?_⟩
          rintro ⟨other, waited, _, _, failed⟩
          obtain rfl := Option.some.inj (called.symm.trans waited)
          exact done.2 failed
        · rename_i absent
          obtain rfl := Option.some.inj taken
          exact ⟨Inv.bare absent, fun _ => absent⟩
      · cases taken
  | created pool results =>
      simp only [SessionWorker.step] at taken
      split at taken
      · rename_i attempt _ called
        obtain rfl := Option.some.inj taken
        have done := Inv.fresh
          (w := { w with
            registered := some ⟨w.nextPool, attempt.dek, []⟩, creating := none, nextPool := w.nextPool + 1 })
          rfl rfl (permitted attempt called rfl)
        refine ⟨done.1, ?_⟩
        rintro ⟨other, creating, failed⟩
        obtain rfl := Option.some.inj (called.symm.trans creating)
        exact done.2 (failed rfl)
      · rename_i attempt e called
        obtain rfl := Option.some.inj taken
        have absent : w.registered = none := inv.guarded (by rw [called]; rfl)
        exact ⟨Inv.bare absent, fun _ => absent⟩
      · cases taken

/-- In every run, a session runs on a pool of its own under the key of its envelope, and
a failed unlock leaves no pool registered. -/
theorem session_runs_under_its_key {w : SessionWorker} (reached : Runs.Reaches step allowed start w) :
    Keyed w ∧ ∀ event next, allowed w event → step w event = some next → unlockFails w event →
      next.registered = none := by
  have inv : Inv w := reached.invariant Inv (Inv.bare rfl)
    (fun _ _ _ inv permitted taken => (inv.step permitted taken).1)
  exact ⟨inv.keyed, fun event next permitted taken failed => (inv.step permitted taken).2 failed⟩

/-- The envelope of a vault with the key `dek`, all with one secret. -/
def sampleEnvelope (dek : Dek) : Envelope := Envelope.createEnvelope 5 dek [7]

/-- Starts an unlock with this envelope. -/
def opens (dek : Dek) (epoch : Option (SealedBytes (List UInt8))) : SessionEvent :=
  .sessionOpen (sampleEnvelope dek) (.prf [7]) epoch []

def noToken : TailResults := ⟨.ok (), .error "no token"⟩

/-- An epoch token of the vault with the key `dek`, which attests the envelope generation 9. -/
def sampleToken (dek : Dek) : SealedBytes (List UInt8) :=
  .sealed (.epochKey dek) .epoch (List.replicate 24 0 ++ [9] ++ List.replicate 7 0)

/-- A session under the first key, an unlock with a stale envelope, and a session under
the second key. -/
def sampleSessions : List SessionEvent :=
  [opens 1 none, .install 0 noToken, .created (.ok ()) noToken, .sessionSql ['a'],
    opens 1 (some (sampleToken 1)), .install 0 ⟨.ok (), .ok 9⟩, .created (.ok ()) ⟨.ok (), .ok 9⟩,
    opens 2 none, .install 0 noToken, .created (.ok ()) noToken, .sessionSql ['b']]

theorem session_keyed_sample : ∃ w, Runs.run step start sampleSessions = some w ∧
    (∃ session ∈ w.session, session.dek = 2 ∧ session.handles = [['b']]) ∧ Keyed w := by
  have same : (Runs.runWhere step (fun w event => decide (allowed w event)) start sampleSessions).any
      (fun w => decide (∃ session ∈ w.session, session.dek = 2 ∧ session.handles = [['b']])) = true := by
    decide +kernel
  obtain ⟨w, ran, settled⟩ := (Option.any_eq_true _ _).mp same
  have reached := (Runs.reaches_of_runWhere ran).weaken fun _ _ passed => of_decide_eq_true passed
  exact ⟨w, Runs.run_of_runWhere ran, of_decide_eq_true settled,
    (session_runs_under_its_key reached).1⟩

/-- `apply_epoch` fails: the pool stays registered under the first key, and the unlock of
another vault that follows runs on it. So does the second of two unlocks that overlap. -/
theorem session_runs_under_other_key :
    (∃ w, Runs.run step start [opens 1 (some (sampleToken 2)), .install 0 ⟨.ok (), .error "apply_epoch"⟩,
        .created (.ok ()) ⟨.ok (), .error "apply_epoch"⟩] = some w ∧
      w.session = none ∧ ∃ pool ∈ w.registered, pool.dek = 1) ∧
    (∃ w, Runs.run step start [opens 1 (some (sampleToken 2)), .install 0 ⟨.ok (), .error "apply_epoch"⟩,
        .created (.ok ()) ⟨.ok (), .error "apply_epoch"⟩, opens 2 none, .install 0 noToken,
        .sessionSql ['a']] = some w ∧
      (∃ session ∈ w.session, session.dek = 2) ∧ ∃ pool ∈ w.registered, pool.dek = 1) ∧
    ∃ w, Runs.run step start [opens 1 none, opens 2 none, .install 0 noToken, .created (.ok ()) noToken,
        .install 0 noToken] = some w ∧
      (∃ session ∈ w.session, session.dek = 2) ∧ ∃ pool ∈ w.registered, pool.dek = 1 := by
  refine ⟨Runs.exists_run ?_, Runs.exists_run ?_, Runs.exists_run ?_⟩ <;> decide +kernel

end SessionWorker

end Freehold
