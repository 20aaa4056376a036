import Freehold.RotationMeaning
import Freehold.Vault

set_option autoImplicit false

namespace Freehold

open CrashLogic

namespace Vault

section Prelude

variable {vault : Vault} {env : Envelope} {dek : Dek} {method : Method} {order : IterOrder}

theorem checkedEnvelope_ok : vault.checkedEnvelope = .ok env ↔
    vault.envelope = some env ∧ ∀ floor, vault.envFloor = some floor → floor ≤ env.generation := by
  unfold checkedEnvelope
  cases vault.envelope with
  | none => exact iff_of_false (fun ok => by cases ok) fun held => by cases held.1
  | some stored =>
      cases vault.envFloor with
      | none =>
          simp only [Except.ok.injEq, Option.some.injEq]
          exact ⟨fun same => ⟨same, fun _ none => by cases none⟩, fun held => held.1⟩
      | some floor =>
          simp only [Option.some.injEq]
          split
          · next below =>
              refine iff_of_false (fun ok => by cases ok) ?_
              rintro ⟨rfl, above⟩
              have least := above floor rfl
              omega
          · next above =>
              rw [Except.ok.injEq]
              constructor
              · rintro rfl
                refine ⟨rfl, ?_⟩
                rintro _ rfl
                omega
              · exact fun held => held.1

theorem unwrap_ok : unwrap env method = .ok dek ↔ env.openWith method = .ok dek := by
  unfold unwrap
  cases env.openWith method with
  | ok opened => simp only [Except.ok.injEq]
  | error e => cases method <;> exact iff_of_false (fun ok => by cases ok) fun ok => by cases ok

end Prelude

/-- The windows after the stored epoch token has been applied, if it is accepted. -/
def epochTable (env : Envelope) (dek : Dek) (epoch : Option (SealedBytes (List UInt8)))
    (table : AnchorTable) : Option AnchorTable :=
  match epoch with
  | none => some table
  | some token =>
      match token.openWith (.epochKey dek) .epoch with
      | none => none
      | some plain =>
          match parseEpoch plain with
          | .error _ => none
          | .ok fields =>
              match anchorUpsert fields.1 (some fields.2.1) (some fields.2.1) (some fields.2.1) table with
              | none => none
              | some next => if env.generation < fields.2.2 then none else some next

section Begin

variable {vault : Vault} {env : Envelope} {dek : Dek} {st : Stored} {crash : Vault → Prop}
  {order : IterOrder}

@[simp] theorem withPool_pool (pool : Pool) : (vault.withPool pool).pool = pool := rfl

@[simp] theorem withPool_withPool (pool other : Pool) :
    (vault.withPool pool).withPool other = vault.withPool other := rfl

/-- The freshness step ends with the windows of `epochTable`, or refuses where it has none. -/
theorem meets_checkEpoch {epoch : Option (SealedBytes (List UInt8))} (live : vault.pool.Live dek st)
    (loose : epoch ≠ none → ∀ v, crash v) :
    ((checkEpoch env epoch) vault).Meets crash
      (fun _ v => ∃ anchor, epochTable env dek epoch (anchorLoad dek st.anchor).2 =
          some (anchorLoad dek anchor).2 ∧ ∃ q : Pool, q.Live dek { st with anchor := anchor } ∧
            v = vault.withPool q)
      (fun _ _ => epochTable env dek epoch (anchorLoad dek st.anchor).2 = none) := by
  unfold checkEpoch epochTable
  cases epoch with
  | none => exact meets_pure ⟨st.anchor, rfl, vault.pool, live, rfl⟩
  | some token =>
      have any := loose (Option.some_ne_none _)
      simp only
      apply meets_bind (fun attested v => ∃ plain fields anchor,
        token.openWith (.epochKey dek) .epoch = some plain ∧ parseEpoch plain = .ok fields ∧
        anchorUpsert fields.1 (some fields.2.1) (some fields.2.1) (some fields.2.1)
          (anchorLoad dek st.anchor).2 = some (anchorLoad dek anchor).2 ∧ attested = fields.2 ∧
        ∃ q : Pool, q.Live dek { st with anchor := anchor } ∧ v = vault.withPool q)
      · apply meets_zoom
        unfold Pool.applyEpoch
        apply meets_get_bind
        rw [live.dek_eq]
        cases opened : token.openWith (.epochKey dek) .epoch with
        | none => exact meets_fail rfl
        | some plain =>
            simp only
            apply meets_ofExcept_bind
            · intro fields parsed
              cases room : anchorUpsert fields.1 (some fields.2.1) (some fields.2.1)
                  (some fields.2.1) (anchorLoad dek st.anchor).2 with
              | none =>
                  apply meets_bind (fun _ _ => False)
                  · have full : ((Pool.anchorRecordFull fields.1 (some fields.2.1) (some fields.2.1)
                        (some fields.2.1)) vault.pool).Meets (fun _ => True) (fun _ _ => False)
                        fun _ _ => True :=
                      Pool.meets_anchorRecordFull_full (fun _ => True) live room fun _ => trivial
                    apply full.mono (fun _ _ => any _) (fun _ _ no => no)
                    intro _ _ _
                    simp only [parsed, room]
                  · exact fun _ _ no => no.elim
              | some table =>
                  apply meets_bind (fun _ q => ∃ anchor, (anchorLoad dek anchor).2 = table ∧
                    Pool.Live q dek { st with anchor := anchor })
                  · have saves : ((Pool.anchorRecordFull fields.1 (some fields.2.1) (some fields.2.1)
                        (some fields.2.1)) vault.pool).Meets (fun _ => True)
                        (fun _ q => ∃ anchor, (anchorLoad dek anchor).2 = table ∧
                          Pool.Live q dek { st with anchor := anchor }) fun _ _ => False :=
                      Pool.meets_anchorRecordFull (fun _ => True) live room trivial
                        (fun _ _ => trivial) fun anchor q loaded live' => ⟨anchor, loaded, live'⟩
                    exact saves.mono (fun _ _ => any _) (fun _ _ done => done) fun _ _ no => no.elim
                  · rintro _ q ⟨anchor, rfl, live'⟩
                    exact meets_pure ⟨plain, fields, anchor, rfl, parsed, room, rfl, q, live', rfl⟩
            · intro e failed
              simp only [failed]
      · rintro attested v ⟨plain, fields, anchor, opened, parsed, room, rfl, q, live', rfl⟩
        simp only [opened, parsed, room]
        split
        · exact meets_fail rfl
        · exact meets_pure ⟨anchor, rfl, q, live', rfl⟩

/-- A session begins on whatever the recovery of the pool leaves, with the stored token
applied to it. -/
theorem meets_sessionBegin (P : Stored → Prop) {epoch : Option (SealedBytes (List UInt8))}
    (recovers : ((Pool.recoverRotation order) (vault.pool.reopen dek)).Meets
      (fun q => ∀ u, crash { vault with pool := q, unlocked := u })
      (fun _ q => ∃ st, q.Live dek st ∧ P st) fun _ _ => False)
    (loose : epoch ≠ none → ∀ v, crash v) :
    ((sessionBegin order dek env epoch) vault).Meets crash
      (fun _ v => ∃ st anchor, P st ∧ epochTable env dek epoch (anchorLoad dek st.anchor).2 =
          some (anchorLoad dek anchor).2 ∧ ∃ q : Pool, q.Live dek { st with anchor := anchor } ∧
            v = { vault with pool := q, unlocked := true })
      (fun _ _ => ∃ st, P st ∧ epochTable env dek epoch (anchorLoad dek st.anchor).2 = none) := by
  unfold sessionBegin sessionLock
  apply meets_modify_bind
  apply meets_modify_bind
  apply meets_bind (fun _ v => ∃ st q, Pool.Live q dek st ∧ P st ∧
    v = { vault with pool := q, unlocked := false })
  · apply meets_zoom
    apply recovers.mono
    · intro q kept
      exact kept false
    · rintro _ q ⟨st, live, holds⟩
      exact ⟨st, q, live, holds, rfl⟩
    · intro _ _ no
      exact no.elim
  rintro _ _ ⟨st, q, live, holds, rfl⟩
  have checks : ((checkEpoch env epoch) { vault with pool := q, unlocked := false }).Meets crash _ _ :=
    meets_checkEpoch live loose
  apply meets_bind _ (checks.mono (fun _ kept => kept) (fun _ _ done => done) ?_)
  · rintro _ _ ⟨anchor, table, r, live', rfl⟩
    exact meets_modify ⟨st, anchor, holds, table, r, live', rfl⟩
  · intro _ _ refused
    exact ⟨st, holds, refused⟩

/-- `unlock` begins a session with what the method unwraps. -/
theorem unlockWith_eq {method : Method} (stored : vault.checkedEnvelope = .ok env)
    (opens : env.openWith method = .ok dek) :
    (unlockWith order method) vault = (sessionBegin order dek env vault.epoch) vault := by
  unfold unlockWith
  simp only [bind, Prog.bind, Prog.get, Prog.ofExcept, Prog.pure, stored, unwrap_ok.mpr opens,
    List.nil_append]

theorem unlockWith_ok {method : Method} (ok : ((unlockWith order method) vault).result = .ok ()) :
    ∃ env dek, vault.checkedEnvelope = .ok env ∧ env.openWith method = .ok dek := by
  have met : ((unlockWith order method) vault).Meets (fun _ => True)
      (fun _ _ => ∃ env dek, vault.checkedEnvelope = .ok env ∧ env.openWith method = .ok dek)
      fun _ _ => True := by
    unfold unlockWith
    apply meets_get_bind
    apply meets_ofExcept_bind
    · intro env stored
      apply meets_ofExcept_bind
      · intro dek opens
        exact ⟨fun _ _ => trivial, by
          split
          · exact ⟨env, dek, stored, unwrap_ok.mp opens⟩
          · trivial⟩
      · exact fun _ _ => trivial
    · exact fun _ _ => trivial
  exact met.ok ok

end Begin

/-- After an unlock with the method, the database opens and SQLite serves `image` of it. -/
def Serves (order : IterOrder) (method : Method) (freshUuid : Uuid) (name : FileName)
    (image : List Block) (vault : Vault) : Prop :=
  let session := (unlockWith order method) vault
  let opening := (Pool.openMainDb freshUuid name) session.state.pool
  session.result = .ok () ∧ opening.result = .ok () ∧ opening.state.servedImage name = .ok image

section Lines

variable {vault v : Vault} {pool : Pool} {env : Envelope} {dek newDek : Dek} {order : IterOrder}
  {method : Method} {dbNames : List FileName} {freshUuid : Uuid} {name : FileName}
  {image : List Block}

/-- Where the token is accepted, whatever passes the gates afterwards passed before. -/
theorem epochTable_fresh {epoch : Option (SealedBytes (List UInt8))} {anchor anchor' : AnchorFile}
    {uuid : Uuid} {gen : Nat}
    (accepted : epochTable env dek epoch (anchorLoad dek anchor).2 = some (anchorLoad dek anchor').2)
    (fresh : Pool.Fresh dek anchor' uuid gen) : Pool.Fresh dek anchor uuid gen := by
  unfold epochTable at accepted
  split at accepted
  · rw [Option.some.injEq] at accepted
    apply fresh.of_same <;> rw [accepted] <;> exact List.Subset.refl _
  · split at accepted
    · cases accepted
    · split at accepted
      · cases accepted
      · split at accepted
        · cases accepted
        · next saved =>
            split at accepted
            · cases accepted
            · rw [Option.some.injEq] at accepted
              rw [accepted] at saved
              exact fresh.before_raise saved

/-- A session under the old DEK of a vault on the old line. -/
theorem meets_begin_old (line : Pool.OldLine pool v.pool.stored)
    {epoch : Option (SealedBytes (List UInt8))} :
    ((sessionBegin order pool.dek env epoch) v).Meets (fun _ => True)
      (fun _ v' => ∃ st anchor, Pool.OldLine pool st ∧ st.disk rotIntentName = none ∧
        epochTable env pool.dek epoch (anchorLoad pool.dek pool.anchor).2 =
          some (anchorLoad pool.dek anchor).2 ∧
        v'.pool.Live pool.dek { st with anchor := anchor })
      (fun _ _ => epochTable env pool.dek epoch (anchorLoad pool.dek pool.anchor).2 = none) := by
  have recovers := Pool.meets_recoverRotation_old order (Pool.live_reopen v.pool pool.dek) line
  have begins : ((sessionBegin order pool.dek env epoch) v).Meets (fun _ => True) _ _ :=
    meets_sessionBegin (fun st => Pool.OldLine pool st ∧ st.disk rotIntentName = none)
      (recovers.mono (fun _ _ _ => trivial)
        (fun _ _ ⟨st, live, old, disarmed, _⟩ => ⟨st, live, old, disarmed⟩) fun _ _ no => no)
      fun _ _ => trivial
  apply begins.mono (fun _ kept => kept)
  · rintro _ _ ⟨st, anchor, ⟨old, disarmed⟩, table, q, live, rfl⟩
    rw [old.anchor] at table
    exact ⟨st, anchor, old, disarmed, table, live⟩
  · rintro _ _ ⟨st, ⟨old, _⟩, refused⟩
    rw [old.anchor] at refused
    exact refused

/-- On the old line a vault unlocks and serves as it does before the rotation. -/
theorem Serves.old (isDb : endsWith name dbSuffix = true)
    (reads : ∃ found, Pool.manifestOn pool.dek pool.content (manifestName name) = .ok found)
    (line : Pool.OldLine pool vault.pool.stored) (line' : Pool.OldLine pool v.pool.stored)
    (stored : vault.checkedEnvelope = .ok env) (stored' : v.checkedEnvelope = .ok env)
    (sameEpoch : v.epoch = vault.epoch) {method' : Method} {order' : IterOrder}
    (opens : env.openWith method = .ok pool.dek) (opens' : env.openWith method' = .ok pool.dek)
    (serves : Serves order method freshUuid name image vault) :
    Serves order' method' freshUuid name image v := by
  unfold Serves at serves ⊢
  rw [unlockWith_eq stored opens] at serves
  rw [unlockWith_eq stored' opens', sameEpoch]
  obtain ⟨⟨uuid, payload⟩, reads⟩ := reads
  have readsOn : ∀ {st : Stored} {anchor : AnchorFile}, Pool.OldLine pool st →
      Pool.manifestOn pool.dek ({ st with anchor := anchor } : Stored).disk (manifestName name) =
        .ok (uuid, payload) := by
    intro st anchor old
    rw [Pool.manifestOn, old.live _ isStaging_manifestName]
    exact reads
  obtain ⟨st, anchor, old, _, table, live⟩ := (meets_begin_old line).ok serves.1
  have began : ((sessionBegin order' pool.dek env vault.epoch) v).Meets (fun _ => True) _ _ :=
    meets_begin_old line'
  cases result : ((sessionBegin order' pool.dek env vault.epoch) v).result with
  | error e =>
      rw [began.error result] at table
      cases table
  | ok _ =>
      obtain ⟨st', anchor', old', _, table', live'⟩ := began.ok result
      refine ⟨result, (Pool.openMainDb_serves_iff live' (readsOn old')).mpr ?_⟩
      have before := (Pool.openMainDb_serves_iff live (readsOn old)).mp serves.2
      have kept : ∀ other, isStaging other = false → st'.disk other = st.disk other :=
        fun other unstaged => (old'.live other unstaged).trans (old.live other unstaged).symm
      rw [table, Option.some.injEq] at table'
      refine Pool.ServesOn.transfer ?_ ?_ ?_ ?_ before
      · exact kept _ (isStaging_of_db isDb)
      · exact kept _ isStaging_manifestName
      · exact kept _ Pool.isStaging_journalName
      · intro uuid gen fresh
        apply fresh.of_same <;> rw [table'] <;> exact List.Subset.refl _

/-- A session under the new DEK of a vault on the new line, with no token stored. -/
theorem meets_begin_new {ref : Pool} {refSt : Stored} {crash : Vault → Prop}
    (dbs : ∀ db ∈ dbNames, endsWith db dbSuffix = true)
    (present : ∀ db ∈ dbNames, pool.hasFilename db = true) (wf : pool.Wf)
    (refLive : ref.Live pool.dek refSt) (staged : Pool.Staged pool newDek dbNames refSt)
    (line : Pool.NewLine pool newDek dbNames refSt v.pool.stored)
    (whole : Pool.ShadowsWhole pool newDek dbNames v.pool.content)
    (kept : ∀ q u, Pool.NewLine pool newDek dbNames refSt q.stored →
      crash { v with pool := q, unlocked := u }) :
    ((sessionBegin order newDek env none) v).Meets crash
      (fun _ v' => ∃ st, Pool.Rolled pool newDek dbNames st ∧ st.disk rotIntentName = none ∧
        v'.pool.Live newDek st ∧ v' = { v with pool := v'.pool, unlocked := true })
      (fun _ _ => False) := by
  have recovers := Pool.meets_recoverRotation_new order dbs present wf refLive staged
    (Pool.live_reopen v.pool newDek) line whole
  have begins : ((sessionBegin order newDek env none) v).Meets crash _ _ :=
    meets_sessionBegin (fun st => Pool.Rolled pool newDek dbNames st ∧ st.disk rotIntentName = none)
      (recovers.mono (fun q left u => kept q u left)
        (fun _ _ ⟨st, live, rolled, gone⟩ => ⟨st, live, rolled, gone⟩) fun _ _ no => no)
      fun stored => absurd rfl stored
  apply begins.mono (fun _ kept => kept)
  · rintro _ _ ⟨st, anchor, ⟨rolled, gone⟩, table, q, live, rfl⟩
    rw [epochTable, Option.some.injEq] at table
    refine ⟨{ st with anchor := anchor }, ?_, gone, live, rfl⟩
    refine ⟨rolled.capacity, rolled.others, rolled.intent, rolled.strays, rolled.adopted, ?_, ?_⟩
    · exact table ▸ rolled.anchor
    · exact table ▸ rolled.carried
  · rintro _ _ ⟨st, _, refused⟩
    cases refused

end Lines

section Rotate

variable {vault : Vault} {current : Envelope} {draws : Draws} {prf : List UInt8}
  {order : IterOrder} {dbNames : List FileName}

/-- A vault in session: its pool is live under the DEK of the stored envelope, and no
rotation is staged. -/
structure InSession (vault : Vault) : Prop where
  wf : vault.pool.Wf
  keyed : ∃ env, vault.envelope = some env ∧ env.IssuedUnder vault.pool.dek
  disarmed : vault.pool.content rotIntentName = none

/-- A state of the rotation before its commit. -/
def BeforeCommit (vault v : Vault) : Prop :=
  Pool.OldLine vault.pool v.pool.stored ∧ v.envelope = vault.envelope ∧
    v.envFloor = vault.envFloor ∧ v.epoch = vault.epoch

/-- A state of the rotation after its commit; `refSt` is what the staging left. -/
def AfterCommit (vault : Vault) (newDek : Dek) (dbNames : List FileName) (next : Envelope)
    (v : Vault) : Prop :=
  ∃ (ref : Pool) (refSt : Stored), ref.Live vault.pool.dek refSt ∧
    Pool.Staged vault.pool newDek dbNames refSt ∧
    Pool.NewLine vault.pool newDek dbNames refSt v.pool.stored ∧
    v.envelope = some next ∧ ∀ floor, v.envFloor = some floor → floor ≤ next.generation

/-- A state a rotation passes through. -/
def Rotating (order : IterOrder) (draws : Draws) (prf : List UInt8) (current : Envelope)
    (vault v : Vault) : Prop :=
  BeforeCommit vault v ∨ AfterCommit vault draws.newDek (Pool.databases order vault.pool)
    (Envelope.rotated current.body.generation draws.newDek prf draws.envSalt draws.code) v

/-- The staging under the session's worker: before the commit throughout, and with
every shadow in place when it returns. -/
theorem meets_rotateDek (session : vault.InSession) (fresh : draws.newDek ≠ vault.pool.dek) :
    ((rotateDek order draws prf current) vault).Meets (BeforeCommit vault)
      (fun next v => BeforeCommit vault v ∧
        next = Envelope.rotated current.body.generation draws.newDek prf draws.envSalt draws.code ∧
        ∃ refSt, v.pool.Live vault.pool.dek refSt ∧
          Pool.Staged vault.pool draws.newDek (Pool.databases order vault.pool) refSt)
      (fun _ => BeforeCommit vault) := by
  have start : BeforeCommit vault vault := by
    refine ⟨⟨rfl, rfl, fun _ _ => rfl, ?_⟩, rfl, rfl, rfl⟩
    intro region held
    rw [show vault.pool.stored.disk rotIntentName = none from session.disarmed] at held
    cases held
  unfold rotateDek
  apply meets_get_bind
  cases opened : current.openWith (.prf prf) with
  | error e => exact meets_fail start
  | ok dek =>
    have rotates : Envelope.rotateEnvelope current draws.newDek prf draws.envSalt draws.code =
        .ok (Envelope.rotated current.body.generation draws.newDek prf draws.envSalt draws.code) :=
      Envelope.rotateEnvelope_ok.mpr ⟨Envelope.openWith_short opened, rfl⟩
    simp only [rotates]
    have stages := Pool.meets_stageRotation current.generation (current.body.generation + 1) session.wf
      session.disarmed (Pool.endsWith_databases order vault.pool) fresh
    apply meets_bind (fun _ v => ∃ refSt, v.pool.Live vault.pool.dek refSt ∧
      Pool.Staged vault.pool draws.newDek (Pool.databases order vault.pool) refSt ∧
      v = vault.withPool v.pool)
    · apply meets_zoom
      apply stages.mono
      · intro q line
        exact ⟨line, rfl, rfl, rfl⟩
      · rintro _ q ⟨refSt, live, staged⟩
        exact ⟨refSt, live, staged, rfl⟩
      · intro _ q line
        exact ⟨line, rfl, rfl, rfl⟩
    · rintro _ v ⟨refSt, live, staged, same⟩
      apply meets_modify_bind
      apply meets_pure
      refine ⟨⟨?_, ?_⟩, rfl, refSt, live, staged⟩
      · rw [live.stored_eq]
        exact staged.old
      · rw [same]
        exact ⟨rfl, rfl, rfl⟩

/-- Every state a rotation passes through is before its commit or after it. -/
theorem meets_rotateKey (session : vault.InSession) (unseen : Pool.Unseen draws.newDek vault.pool.stored)
    (fresh : draws.newDek ≠ vault.pool.dek) (stored : vault.checkedEnvelope = .ok current) :
    ((rotateKey order draws prf) vault).Meets (Rotating order draws prf current vault)
      (fun _ => Rotating order draws prf current vault)
      fun _ => Rotating order draws prf current vault := by
  have begun : BeforeCommit vault vault := by
    refine ⟨⟨rfl, rfl, fun _ _ => rfl, ?_⟩, rfl, rfl, rfl⟩
    intro region held
    rw [show vault.pool.stored.disk rotIntentName = none from session.disarmed] at held
    cases held
  unfold rotateKey
  apply meets_get_bind
  split
  case isFalse => exact meets_fail (Or.inl begun)
  apply meets_ofExcept_bind
  case errors => exact fun _ _ => Or.inl begun
  intro env ok
  rw [stored, Except.ok.injEq] at ok
  subst ok
  have stages : ((rotateDek order draws prf current) vault).Meets
      (Rotating order draws prf current vault) _ fun _ => Rotating order draws prf current vault :=
    (meets_rotateDek session fresh).mono (fun _ left => Or.inl left) (fun _ _ done => done)
      fun _ _ left => Or.inl left
  apply meets_bind _ stages
  rintro _ v ⟨before, rfl, refSt, live, staged⟩
  let next := Envelope.rotated current.body.generation draws.newDek prf draws.envSalt draws.code
  have rolling : Pool.NewLine vault.pool draws.newDek (Pool.databases order vault.pool) refSt refSt :=
    Or.inl (staged.rolling unseen.anchor)
  have line : Pool.NewLine vault.pool draws.newDek (Pool.databases order vault.pool) refSt
      v.pool.stored := by
    rw [live.stored_eq]
    exact rolling
  have below : ∀ floor, v.envFloor = some floor → floor ≤ next.generation := by
    intro floor held
    rw [before.2.2.1] at held
    have least := (checkedEnvelope_ok.mp stored).2 floor held
    have same := current.generation_le
    rw [Envelope.rotated_generation]
    omega
  have reached : Rotating order draws prf current vault v := Or.inl before
  apply meets_effect_bind reached
  have committed : ∀ w : Vault, w.pool = v.pool → w.envelope = some next →
      (∀ floor, w.envFloor = some floor → floor ≤ next.generation) →
      Rotating order draws prf current vault w := by
    intro w pool envelope floor
    right
    refine ⟨v.pool, refSt, live, staged, ?_, envelope, floor⟩
    rw [pool]
    exact line
  apply meets_bind (fun _ w => w.pool = v.pool ∧ w.envelope = some next ∧
    ∀ floor, w.envFloor = some floor → floor ≤ next.generation)
  · unfold bumpFloor
    apply meets_get_bind
    split
    · apply meets_effect
      · exact committed _ rfl rfl below
      · refine ⟨rfl, rfl, ?_⟩
        rintro floor ⟨⟩
        exact Nat.le_refl _
    · exact meets_pure ⟨rfl, rfl, below⟩
  rintro _ w ⟨pool, envelope, floor⟩
  apply meets_effect_bind (committed w pool envelope floor)
  -- the re-unlock, with no token left to apply
  apply meets_bind fun _ => Rotating order draws prf current vault
  case ends =>
    intro _ _ done
    exact meets_pure done
  let w' : Vault := { w with epoch := none }
  have reached : Rotating order draws prf current vault w' := committed w' pool envelope floor
  unfold unlock
  apply meets_get_bind
  unfold unlockWith
  apply meets_get_bind
  apply meets_ofExcept_bind
  case errors => exact fun _ _ => reached
  intro env held
  have same := (checkedEnvelope_ok.mp held).1
  rw [envelope, Option.some.injEq] at same
  subst same
  apply meets_ofExcept_bind
  case errors => exact fun _ _ => reached
  intro dek opened
  have keyed := (Envelope.openWith_issued (unwrap_ok.mp opened)).unique Envelope.rotated_issued
  subst keyed
  have whole : Pool.ShadowsWhole vault.pool draws.newDek (Pool.databases order vault.pool)
      w'.pool.content := by
    rw [pool, live.content_eq]
    intro name image resealed emptied
    rw [staged.shadow resealed] at emptied
    exact Option.some.inj emptied
  have begins : ((sessionBegin order draws.newDek next none) w').Meets
      (Rotating order draws prf current vault) _ _ :=
    meets_begin_new (Pool.endsWith_databases order vault.pool)
      (Pool.hasFilename_databases order vault.pool) session.wf live staged (pool ▸ line) whole
      fun q u left => Or.inr ⟨v.pool, refSt, live, staged, left, envelope, floor⟩
  apply begins.mono (fun _ left => left) ?_ fun _ _ no => no.elim
  rintro _ x ⟨st, rolled, _, live', same⟩
  rw [same]
  right
  refine ⟨v.pool, refSt, live, staged, ?_, envelope, floor⟩
  rw [live'.stored_eq]
  exact Or.inr rolled

/-- Past the commit, a crash has left nothing behind that the new DEK cannot do
without: no token of the old DEK, no shadow emptied on its way out, and no hot journal
that the old main file needed to be accepted. -/
def Resumable (order : IterOrder) (newDek : Dek) (vault c : Vault) : Prop :=
  c.envelope ≠ vault.envelope →
    c.epoch = none ∧
    Pool.ShadowsWhole vault.pool newDek (Pool.databases order vault.pool) c.pool.content ∧
    ∀ db ∈ Pool.databases order vault.pool, Pool.ServedAlone vault.pool.dek vault.pool.content db

/-- The databases are sealed wholly as they were, or wholly under the new DEK. -/
def OnOneLine (order : IterOrder) (newDek : Dek) (vault : Vault) (done : Pool) : Prop :=
  (done.dek = vault.pool.dek ∧
    ∀ name, isStaging name = false → done.content name = vault.pool.content name) ∨
  (done.dek = newDek ∧ ∀ db ∈ Pool.databases order vault.pool,
    ∃ files, Pool.resealDbCiphertext db newDek vault.pool = .ok files ∧
      ∀ name image, (name, image) ∈ files → done.content name = some image)

/-- A database of the vault: a main file whose manifest authenticates. -/
def Database (order : IterOrder) (vault : Vault) (name : FileName) : Prop :=
  name ∈ Pool.databases order vault.pool ∧
    ∃ found, Pool.manifestOn vault.pool.dek vault.pool.content (manifestName name) = .ok found

/-- An unlock of `c` succeeds, finds one line and serves what the vault served. -/
structure Resumes (order : IterOrder) (newDek : Dek) (vault c : Vault) (order₀ order' : IterOrder)
    (method₀ method : Method) : Prop where
  unlocks : ((unlockWith order' method) c).result = .ok ()
  line : OnOneLine order newDek vault ((unlockWith order' method) c).state.pool
  serves : ∀ freshUuid name image, Database order vault name →
    Serves order₀ method₀ freshUuid name image vault → Serves order' method freshUuid name image c

variable {order₀ order' : IterOrder} {method₀ method : Method} {dek : Dek} {c : Vault}

/-- Before the commit the next unlock finds everything as it was. -/
theorem BeforeCommit.resumes (session : vault.InSession) (stored : vault.checkedEnvelope = .ok current)
    (issued : current.IssuedUnder vault.pool.dek) (opens₀ : current.openWith method₀ = .ok vault.pool.dek)
    (usable : ((unlockWith order₀ method₀) vault).result = .ok ()) (before : BeforeCommit vault c)
    (opens : current.openWith method = .ok dek) (newDek : Dek) :
    Resumes order newDek vault c order₀ order' method₀ method := by
  obtain ⟨line, envelope, floor, epoch⟩ := before
  have start : Pool.OldLine vault.pool vault.pool.stored := by
    refine ⟨rfl, rfl, fun _ _ => rfl, ?_⟩
    intro region held
    rw [show vault.pool.stored.disk rotIntentName = none from session.disarmed] at held
    cases held
  have stored' : c.checkedEnvelope = .ok current := by
    rw [checkedEnvelope_ok, envelope, floor]
    exact checkedEnvelope_ok.mp stored
  obtain rfl : dek = vault.pool.dek := (Envelope.openWith_issued opens).unique issued
  rw [unlockWith_eq stored opens₀] at usable
  obtain ⟨_, _, _, _, table, _⟩ := (meets_begin_old start).ok usable
  have began : ((sessionBegin order' vault.pool.dek current c.epoch) c).Meets (fun _ => True) _ _ :=
    meets_begin_old line
  rw [epoch] at began
  have result : ((sessionBegin order' vault.pool.dek current vault.epoch) c).result = .ok () := by
    cases shape : ((sessionBegin order' vault.pool.dek current vault.epoch) c).result with
    | ok _ => rfl
    | error e =>
        rw [began.error shape] at table
        cases table
  obtain ⟨st, anchor, old, _, _, live⟩ := began.ok result
  refine ⟨?_, Or.inl ⟨?_, ?_⟩, ?_⟩
  · rw [unlockWith_eq stored' opens, epoch]
    exact result
  · rw [unlockWith_eq stored' opens, epoch]
    exact live.dek_eq
  · intro name unstaged
    rw [unlockWith_eq stored' opens, epoch, live.content_eq]
    exact old.live name unstaged
  · intro freshUuid name image database serves
    have isDb := Pool.endsWith_databases order vault.pool name database.1
    exact serves.old isDb database.2 start line stored stored' epoch opens₀ opens

/-- After it, if the crash is resumable, everything is found under the new DEK. -/
theorem AfterCommit.resumes (session : vault.InSession)
    (unseen : Pool.Unseen draws.newDek vault.pool.stored)
    (fresh : draws.newDek ≠ vault.pool.dek) (stored : vault.checkedEnvelope = .ok current)
    (issued : current.IssuedUnder vault.pool.dek) (opens₀ : current.openWith method₀ = .ok vault.pool.dek)
    (after : AfterCommit vault draws.newDek (Pool.databases order vault.pool)
      (Envelope.rotated current.body.generation draws.newDek prf draws.envSalt draws.code) c)
    (resumable : Resumable order draws.newDek vault c)
    (opens : (Envelope.rotated current.body.generation draws.newDek prf draws.envSalt draws.code).openWith
      method = .ok dek) : Resumes order draws.newDek vault c order₀ order' method₀ method := by
  obtain ⟨ref, refSt, refLive, staged, line, envelope, floor⟩ := after
  have start : Pool.OldLine vault.pool vault.pool.stored := by
    refine ⟨rfl, rfl, fun _ _ => rfl, ?_⟩
    intro region held
    rw [show vault.pool.stored.disk rotIntentName = none from session.disarmed] at held
    cases held
  have changed : c.envelope ≠ vault.envelope := by
    rw [envelope, (checkedEnvelope_ok.mp stored).1, Ne, Option.some.injEq]
    exact Envelope.rotated_ne issued fresh
  obtain ⟨noEpoch, whole, alone⟩ := resumable changed
  obtain rfl : dek = draws.newDek :=
    (Envelope.openWith_issued opens).unique Envelope.rotated_issued
  have stored' := checkedEnvelope_ok.mpr ⟨envelope, floor⟩
  have dbs := Pool.endsWith_databases order vault.pool
  have begins : ((sessionBegin order' draws.newDek
      (Envelope.rotated current.body.generation draws.newDek prf draws.envSalt draws.code) none) c).Meets
      (fun _ => True) _ _ :=
    meets_begin_new dbs (Pool.hasFilename_databases order vault.pool) session.wf refLive staged line
      whole fun _ _ _ => trivial
  obtain ⟨result, done⟩ : ∃ a, _ ∧ _ := begins.total
  obtain ⟨ok, st, rolled, _, live, _⟩ := done
  have same : (unlockWith order' method) c = _ := unlockWith_eq stored' opens
  rw [noEpoch] at same
  refine ⟨?_, Or.inr ⟨?_, ?_⟩, ?_⟩
  · rw [same, ok]
  · rw [same]
    exact live.dek_eq
  · intro db named
    obtain ⟨files, ok, _⟩ := staged.staged db named
    refine ⟨files, ok, ?_⟩
    intro name image member
    rw [same, live.content_eq]
    exact rolled.adopted name image ⟨db, named, files, ok, member⟩
  · intro freshUuid name image database serves
    have named := database.1
    obtain ⟨⟨uuid, payload⟩, reads⟩ := database.2
    unfold Serves at serves ⊢
    rw [unlockWith_eq stored opens₀] at serves
    obtain ⟨st₀, anchor₀, old₀, _, table, live₀⟩ := (meets_begin_old start).ok serves.1
    have readsOn : Pool.manifestOn vault.pool.dek ({ st₀ with anchor := anchor₀ } : Stored).disk
        (manifestName name) = .ok (uuid, payload) := by
      rw [Pool.manifestOn, old₀.live _ isStaging_manifestName]
      exact reads
    have before := (Pool.openMainDb_serves_iff live₀ readsOn).mp serves.2
    have onPool : Pool.ServesOn vault.pool.dek vault.pool.stored name image := by
      refine Pool.ServesOn.transfer ?_ ?_ ?_ ?_ before
      · exact (old₀.live _ (isStaging_of_db (dbs name named))).symm
      · exact (old₀.live _ isStaging_manifestName).symm
      · exact (old₀.live _ Pool.isStaging_journalName).symm
      · intro uuid gen passes
        exact epochTable_fresh table passes
    obtain ⟨files, sealedOk, _⟩ := staged.staged name named
    have after := rolled.serves dbs session.wf unseen named sealedOk (alone name named) onPool
    obtain ⟨data, uuid', payload', held, reads', rest⟩ := id after
    rw [same]
    exact ⟨ok, (Pool.openMainDb_serves_iff live reads').mpr after⟩

/-- Whatever crash cuts a rotation short, if it is resumable then the next unlock with
any method of the stored envelope succeeds and serves every database as before. -/
theorem rotateKey_resumes (session : vault.InSession)
    (unseen : Pool.Unseen draws.newDek vault.pool.stored) (fresh : draws.newDek ≠ vault.pool.dek)
    (usable : ((unlockWith order₀ method₀) vault).result = .ok ())
    (crashed : c ∈ ((rotateKey order draws prf) vault).crashes)
    (resumable : Resumable order draws.newDek vault c) {env : Envelope} (held : c.envelope = some env)
    (opens : env.openWith method = .ok dek) :
    Resumes order draws.newDek vault c order₀ order' method₀ method := by
  obtain ⟨current, dek₀, stored, opens₀⟩ := unlockWith_ok usable
  obtain ⟨env', envelope, issued⟩ := session.keyed
  rw [(checkedEnvelope_ok.mp stored).1, Option.some.injEq] at envelope
  subst envelope
  obtain rfl : dek₀ = vault.pool.dek := (Envelope.openWith_issued opens₀).unique issued
  have rotating := (meets_rotateKey session unseen fresh stored).crashes _ c crashed
  cases rotating with
  | inl before =>
      have same := before.2.1
      rw [held, (checkedEnvelope_ok.mp stored).1, Option.some.injEq] at same
      subst same
      exact before.resumes session stored issued opens₀ usable opens draws.newDek
  | inr after =>
      have ⟨_, _, _, _, _, same, _⟩ := after
      rw [held, Option.some.injEq] at same
      subst same
      exact after.resumes session unseen fresh stored issued opens₀ resumable opens

end Rotate

/-- The sample pool in session, its envelope opened by the passkey `[7]`. -/
def sampleVault : Vault where
  pool := Pool.samplePool
  unlocked := true
  envelope := some (Envelope.createEnvelope 5 1 [7])
  envFloor := some 1
  epoch := none
  deviceSecret := none
  trustSeed := none
  syncForks := []

def sampleDraws : Draws := ⟨2, 6, ['C']⟩

theorem sampleVault_inSession : sampleVault.InSession :=
  ⟨Pool.samplePool_wf, ⟨_, rfl, rfl⟩, by decide +kernel⟩

theorem sampleVault_unseen : Pool.Unseen 2 sampleVault.pool.stored :=
  Pool.Unseen.of_keys (by decide +kernel) (by decide +kernel)

theorem rotateKey_resumes_sample :
    Resumes Pool.keyOrder sampleDraws.newDek sampleVault
      ((rotateKey Pool.keyOrder sampleDraws [7]) sampleVault).state Pool.keyOrder Pool.keyOrder
      (.prf [7]) (.recovery ['C']) := by
  have shadowless : ∀ name ∈ Pool.samplePool.files.keys,
      ((rotateKey Pool.keyOrder sampleDraws [7]) sampleVault).state.pool.content (shadowName name) =
        none := by
    decide +kernel
  have journalless : ∀ db ∈ Pool.databases Pool.keyOrder Pool.samplePool,
      Pool.samplePool.content (journalName db) = none := by
    decide +kernel
  have ended : ((rotateKey Pool.keyOrder sampleDraws [7]) sampleVault).state.envelope =
      some (Envelope.rotated 1 2 [7] 6 ['C']) := by
    decide +kernel
  have opens : (Envelope.rotated 1 2 [7] 6 ['C']).openWith
      (.recovery ['C']) = .ok 2 := by
    decide +kernel
  have usable : ((unlockWith Pool.keyOrder (.prf [7])) sampleVault).result = .ok () := by
    decide +kernel
  have crashed : ((rotateKey Pool.keyOrder sampleDraws [7]) sampleVault).state ∈
      ((rotateKey Pool.keyOrder sampleDraws [7]) sampleVault).crashes :=
    List.mem_append_right _ (List.mem_singleton.mpr rfl)
  have resumable : Resumable Pool.keyOrder sampleDraws.newDek sampleVault
      ((rotateKey Pool.keyOrder sampleDraws [7]) sampleVault).state := by
    intro _
    refine ⟨by decide +kernel, ?_, ?_⟩
    · intro name image resealed emptied
      have listed := Std.ExtTreeMap.mem_keys.mpr (Std.ExtTreeMap.contains_iff_mem.mp resealed.present)
      rw [shadowless name listed] at emptied
      cases emptied
    · intro db named data uuid payload _ _ hot
      rw [Pool.hotOn, show sampleVault.pool.content (journalName db) = none from journalless db named]
        at hot
      exact Bool.noConfusion hot
  exact rotateKey_resumes sampleVault_inSession sampleVault_unseen (by decide) usable crashed
    resumable ended opens

/-- The same vault with an epoch token stored for its database. -/
def sampleWithEpoch : Vault :=
  { sampleVault with
    epoch := some (.sealed (.epochKey 1) .epoch
      ([7] ++ List.replicate 15 0 ++ ([1] ++ List.replicate 7 0) ++ ([1] ++ List.replicate 7 0))) }

/-- What a crash right after the commit leaves of it. -/
def sampleCommitted : Vault :=
  (((rotateKey Pool.keyOrder sampleDraws [7]) sampleWithEpoch).crashes.find? fun v =>
    v.envelope ≠ sampleWithEpoch.envelope).getD sampleWithEpoch

/-- The old token outlives the commit and no method unlocks the vault again. -/
theorem rotateKey_locks_out :
    ((unlockWith Pool.keyOrder (.prf [7])) sampleWithEpoch).result = .ok () ∧
      sampleCommitted ∈ ((rotateKey Pool.keyOrder sampleDraws [7]) sampleWithEpoch).crashes ∧
      (sampleCommitted.envelope.map fun env => env.openWith (.prf [7])) = some (.ok 2) ∧
      ((unlockWith Pool.keyOrder (.prf [7])) sampleCommitted).result ≠ .ok () := by
  refine ⟨by decide +kernel, ?_, by decide +kernel, by decide +kernel⟩
  have reached : (((rotateKey Pool.keyOrder sampleDraws [7]) sampleWithEpoch).crashes.find? fun v =>
      v.envelope ≠ sampleWithEpoch.envelope).isSome = true := by
    decide +kernel
  obtain ⟨v, found⟩ := Option.isSome_iff_exists.mp reached
  rw [sampleCommitted, found, Option.getD_some]
  exact List.mem_of_find?_eq_some found

end Vault

end Freehold
