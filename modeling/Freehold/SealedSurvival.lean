import Freehold.SealedRecords
import Freehold.VaultRotation

set_option autoImplicit false

namespace Freehold

open CrashLogic

namespace Pool

section Keys

variable {oldK newK : Key} {fid : FileId} {uuid : Uuid} {k : Nat}

theorem keys_resealBlocks {cells resealed : List Cell}
    (ok : resealBlocks oldK newK fid uuid k cells = .ok resealed) :
    ∀ cell ∈ resealed, cell.key? = some newK := by
  induction cells generalizing k resealed with
  | nil =>
      cases ok
      exact fun _ member => nomatch member
  | cons cell rest ih =>
      unfold resealBlocks at ok
      cases opened : cell.openWith oldK (.block fid uuid k) with
      | none => simp only [opened] at ok; cases ok
      | some plain =>
          simp only [opened] at ok
          obtain ⟨tail, okTail, shape⟩ := except_bind_ok.mp ok
          cases shape
          intro member' member
          cases List.mem_cons.mp member with
          | inl first => rw [first]; rfl
          | inr later => exact ih okTail member' later

theorem keys_resealSlots {slots : List (SealedBytes ManifestPayload)}
    (opens : ∀ entry ∈ slots.zipIdx k, entry.1.key? = none ∨
      (entry.1.openWith oldK (.block fid uuid entry.2)).isSome) :
    ∀ slot ∈ resealSlots oldK newK fid uuid k slots, ∀ key ∈ slot.key?, key = newK := by
  induction slots generalizing k with
  | nil => exact fun _ member => nomatch member
  | cons sealed rest ih =>
      have first := opens (sealed, k) List.mem_cons_self
      have later := ih fun entry member => opens entry (List.mem_cons_of_mem _ member)
      intro slot member key held
      rw [resealSlots] at member
      cases List.mem_cons.mp member with
      | inr rest => exact later slot rest key held
      | inl here =>
          subst here
          cases opened : sealed.openWith oldK (.block fid uuid k) with
          | some plain =>
              rw [opened] at held
              exact (Option.some.inj held).symm
          | none =>
              rw [opened] at held first
              rw [first.resolve_right (by simp)] at held
              cases held

end Keys

section Frame

variable {a : AnchorFile}

/-- The anchor holds these bytes. -/
def AnchorIs (a : AnchorFile) (pool : Pool) : Prop := pool.anchor = a

theorem keeps_deleteFile (name : FileName) : Keeps (AnchorIs a) (deleteFile name) := by
  unfold deleteFile
  apply keeps_get_bind
  intro pool _
  split
  · refine keeps_bind (keeps_effect ?_) fun _ => keeps_bind (keeps_effect ?_) fun _ => keeps_pure true
    · exact fun q kept => kept
    · exact fun q kept => unmapSlot_anchor.trans kept
  · exact keeps_pure false

theorem keeps_withNewFile (name : FileName) {body : PoolM Unit} (kept : Keeps (AnchorIs a) body) :
    Keeps (AnchorIs a) (withNewFile name body) := by
  have mapped : ∀ header q, AnchorIs a q → AnchorIs a (mapSlot name header q) :=
    fun _ _ holds => mapSlot_anchor.trans holds
  unfold withNewFile
  apply keeps_get_bind
  intro pool _
  dsimp only
  split_ifs
  · exact keeps_fail _
  · exact keeps_fail _
  · exact keeps_bind (keeps_modify (mapped none)) fun _ => keeps_fail _
  · exact keeps_bind (keeps_modify (mapped none)) fun _ => keeps_fail _
  · exact keeps_bind (keeps_effect (mapped _)) fun _ => kept

theorem keeps_importCiphertextFile (name : FileName) (ciphertext : Region) :
    Keeps (AnchorIs a) (importCiphertextFile name ciphertext) := by
  unfold importCiphertextFile
  apply keeps_bind (keeps_attempt (keeps_deleteFile name))
  intro _
  apply keeps_withNewFile
  refine keeps_bind (keeps_effect ?_) fun _ => keeps_effect ?_ <;> exact fun q kept => kept

theorem keeps_adoptShadow (name : FileName) : Keeps (AnchorIs a) (adoptShadow name) := by
  unfold adoptShadow
  apply keeps_get_bind
  intro pool _
  dsimp only
  split
  · apply keeps_bind (keeps_ofExcept _)
    intro bytes
    exact keeps_bind (keeps_importCiphertextFile _ _) fun _ => keeps_attempt (keeps_deleteFile _)
  · exact keeps_pure ()

/-- With no window to carry over, recovery leaves the anchor alone. -/
theorem meets_recoverRotation_anchor {order : IterOrder} {q : Pool} (held : AnchorIs a q)
    (bare : ∀ region plain, q.exportRaw rotIntentName = .ok region →
      region.openIntent (.rotateIntentKey q.dek) = some plain → plain.anchors.entries = []) :
    ((recoverRotation order) q).Meets (AnchorIs a) (fun _ => AnchorIs a) fun _ => AnchorIs a := by
  unfold recoverRotation
  apply meets_get_bind
  split
  · apply meets_ofExcept_bind
    · intro region exported
      cases opened : region.openIntent (.rotateIntentKey q.dek) with
      | some plain =>
          have adopts : Keeps (AnchorIs a) (Prog.forEach
              (fun db => Prog.forEach adoptShadow [db, manifestName db]) plain.dbNames) :=
            keeps_forEach (fun _ => keeps_forEach keeps_adoptShadow _) _
          have carries : Keeps (AnchorIs a) (Prog.forEach carryAnchor plain.anchors.entries) := by
            rw [bare region plain exported opened]
            exact keeps_pure ()
          have drops : Keeps (AnchorIs a) (Prog.attempt (deleteFile rotIntentName)) :=
            keeps_attempt (keeps_deleteFile _)
          exact keeps_bind adopts (fun _ => keeps_bind carries fun _ => keeps_bind drops fun _ =>
            keeps_pure _) q held
      | none =>
          have discards : Keeps (AnchorIs a) (discardRotationStaging order) := by
            unfold discardRotationStaging
            apply keeps_get_bind
            exact fun _ _ => keeps_forEach (fun name => keeps_attempt (keeps_deleteFile name)) _
          exact keeps_bind discards (fun _ => keeps_pure _) q held
    · exact fun _ _ => held
  · exact meets_pure held

end Frame

end Pool

namespace Vault

/-- A vault at rest: its pool is well formed under the DEK of the stored envelope, no
rotation is staged, and whatever it stores sealed opens under this DEK. -/
structure Settled (vault : Vault) : Prop where
  wf : vault.pool.Wf
  keyed : ∃ env, vault.envelope = some env ∧ env.IssuedUnder vault.pool.dek
  clean : ∀ name, isStaging name = true → vault.pool.content name = none
  current : vault.Current

/-- A call that leaves the DEK and the trust seed alone. -/
structure Follows (vault v : Vault) : Prop where
  settled : v.Settled
  dek : v.pool.dek = vault.pool.dek
  trustSeed : v.trustSeed = vault.trustSeed

section Session

variable {vault v : Vault} {order : IterOrder} {env : Envelope} {dek : Dek}

theorem Settled.live (settled : vault.Settled) : vault.pool.Live vault.pool.dek vault.pool.stored :=
  ⟨settled.wf, rfl, rfl⟩

theorem Settled.follows (settled : vault.Settled) : Follows vault vault := ⟨settled, rfl, rfl⟩

theorem Follows.trans {w : Vault} (first : Follows vault v) (second : Follows v w) : Follows vault w :=
  ⟨second.settled, second.dek.trans first.dek, second.trustSeed.trans first.trustSeed⟩

/-- The pool may be exchanged for one of the same DEK whose files and anchor open. -/
theorem Settled.replace (settled : vault.Settled) {q : Pool} {st : Stored}
    (live : q.Live vault.pool.dek st) (clean : ∀ name, isStaging name = true → st.disk name = none)
    (files : ∀ name data, st.disk name = some data → ∀ key ∈ data.keys, key.dek = vault.pool.dek)
    (anchor : AnchorReads vault.pool.dek st.anchor) (unlocked : Bool) :
    Follows vault { vault with pool := q, unlocked := unlocked } := by
  refine ⟨⟨live.wf, ?_, ?_, ?_⟩, live.dek_eq, rfl⟩
  · rw [live.dek_eq]
    exact settled.keyed
  · rw [live.content_eq]
    exact clean
  · refine ⟨?_, ?_, ?_, ?_, ?_⟩
    · rw [live.dek_eq]
      exact settled.current.trustSeed
    · rw [live.dek_eq]
      exact settled.current.forks
    · rw [live.dek_eq]
      exact settled.current.epoch
    · rw [live.dek_eq, live.content_eq]
      exact files
    · rw [live.dek_eq, live.anchor_eq]
      exact anchor

theorem anchorUpsert_entries_ne_nil {uuid : Uuid} {committed inFlight epochFloor : Option Nat}
    {table next : AnchorTable} (saved : anchorUpsert uuid committed inFlight epochFloor table = some next) :
    next.entries ≠ [] := by
  intro none_left
  have found := find_anchorUpsert saved uuid
  rw [AnchorTable.find, none_left, if_pos rfl] at found
  cases found

theorem epochTable_entries_ne_nil {token : SealedBytes (List UInt8)} {table next : AnchorTable}
    (accepted : epochTable env dek (some token) table = some next) : next.entries ≠ [] := by
  simp only [epochTable] at accepted
  split at accepted
  · cases accepted
  · split at accepted
    · cases accepted
    · split at accepted
      · cases accepted
      · next saved =>
          split at accepted
          · cases accepted
          · obtain rfl := Option.some.inj accepted
            exact anchorUpsert_entries_ne_nil saved

/-- With no rotation staged a session begins on the files as they are; a token only adds
a window. -/
theorem meets_sessionBegin_settled (epoch : Option (SealedBytes (List UInt8)))
    (disarmed : vault.pool.content rotIntentName = none) :
    ((sessionBegin order dek env epoch) vault).Meets (fun _ => True)
      (fun _ v => ∃ anchor, (anchor = vault.pool.anchor ∨ (anchorLoad dek anchor).2.entries ≠ []) ∧
        ∃ q : Pool, q.Live dek { vault.pool.stored with anchor := anchor } ∧
          v = { vault with pool := q, unlocked := true }) fun _ _ => True := by
  have live := Pool.live_reopen vault.pool dek
  have quiet : (Pool.recoverRotation order) (vault.pool.reopen dek) =
      ⟨[], vault.pool.reopen dek, .ok none⟩ :=
    Pool.recoverRotation_none (live.lacksFilename.mpr disarmed)
  unfold sessionBegin sessionLock
  apply meets_modify_bind
  apply meets_modify_bind
  apply meets_bind fun _ v => v = { vault with pool := vault.pool.reopen dek, unlocked := false }
  · apply meets_zoom
    dsimp only [withPool]
    rw [quiet]
    exact meets_pure rfl
  rintro _ _ rfl
  cases epoch with
  | none =>
      apply meets_bind fun _ v => v = { vault with pool := vault.pool.reopen dek, unlocked := false }
      · exact meets_pure rfl
      · rintro _ _ rfl
        exact meets_modify ⟨vault.pool.anchor, Or.inl rfl, _, live, rfl⟩
  | some token =>
      have checks : ((checkEpoch env (some token))
          { vault with pool := vault.pool.reopen dek, unlocked := false }).Meets (fun _ => True) _ _ :=
        meets_checkEpoch live fun _ _ => trivial
      apply meets_bind _ (checks.mono (fun _ left => left) (fun _ _ done => done) fun _ _ _ => trivial)
      rintro _ _ ⟨anchor, table, q, live', rfl⟩
      exact meets_modify ⟨anchor, Or.inr (epochTable_entries_ne_nil table), q, live', rfl⟩

/-- An unlock leaves what is stored as it is. -/
theorem unlockWith_follows {method : Method} (settled : vault.Settled)
    (ok : ((unlockWith order method) vault).result = .ok ()) :
    Follows vault ((unlockWith order method) vault).state := by
  obtain ⟨env, dek, stored, opens⟩ := unlockWith_ok ok
  obtain ⟨env', envelope, issued⟩ := settled.keyed
  rw [(checkedEnvelope_ok.mp stored).1, Option.some.injEq] at envelope
  subst envelope
  obtain rfl : dek = vault.pool.dek := (Envelope.openWith_issued opens).unique issued
  rw [unlockWith_eq stored opens] at ok ⊢
  have disarmed := settled.clean rotIntentName isStaging_rotIntentName
  obtain ⟨anchor, reads, q, live, same⟩ := (meets_sessionBegin_settled vault.epoch disarmed).ok ok
  rw [same]
  refine settled.replace live settled.clean settled.current.files ?_ true
  cases reads with
  | inl same => exact same ▸ settled.current.anchor
  | inr shows => exact Or.inl shows

end Session

section Records

variable {vault : Vault} {random : BitVec 256}

/-- The trust seed is unsealed, or a new one is sealed. -/
theorem Settled.trustSeed_ok (settled : vault.Settled) (random : BitVec 256) :
    ∃ seed, vault.pool.trustSeed vault.trustSeed random =
        .ok (seed, .sealed (.trustSealKey vault.pool.dek) .trustSeed seed) ∧
      ∀ blob, vault.trustSeed = some blob →
        blob = .sealed (.trustSealKey vault.pool.dek) .trustSeed seed := by
  cases stored : vault.trustSeed with
  | none => exact ⟨random, rfl, fun _ held => nomatch held⟩
  | some blob =>
      obtain ⟨seed, opened⟩ := settled.current.trustSeed blob stored
      obtain rfl := Aead.openWith_eq_some.mp opened
      refine ⟨seed, ?_, fun _ held => (Option.some.inj held).symm⟩
      simp only [Pool.trustSeed, Aead.openWith_sealed]

theorem Settled.issueDeviceCert (settled : vault.Settled) (unlocked : vault.unlocked = true)
    {devicePubkey : List UInt8} (whole : devicePubkey.length = 32) (random : BitVec 256) :
    ∃ seed, (Vault.issueDeviceCert devicePubkey random) vault =
        ⟨[vault], { vault with
          trustSeed := some (.sealed (.trustSealKey vault.pool.dek) .trustSeed seed) }, .ok ⟨seed⟩⟩ ∧
      ∀ blob, vault.trustSeed = some blob →
        blob = .sealed (.trustSealKey vault.pool.dek) .trustSeed seed := by
  obtain ⟨seed, ok, same⟩ := settled.trustSeed_ok random
  refine ⟨seed, ?_, same⟩
  simp only [Vault.issueDeviceCert, bind, Prog.bind, Prog.get, unlocked, whole, ok, if_true,
    Except.mapError, Prog.ofExcept, Prog.pure, Prog.effect, pure, List.nil_append, List.append_nil]

theorem Settled.withTrustSeed (settled : vault.Settled) (seed : BitVec 256) :
    Settled { vault with
      trustSeed := some (.sealed (.trustSealKey vault.pool.dek) .trustSeed seed) } := by
  refine ⟨settled.wf, settled.keyed, settled.clean, ?_⟩
  refine ⟨?_, settled.current.forks, settled.current.epoch, settled.current.files, settled.current.anchor⟩
  intro blob held
  obtain rfl := Option.some.inj held
  exact ⟨seed, Aead.openWith_sealed ..⟩

end Records

section Sync

variable {vault : Vault}

/-- A blob that an apply would write is sealed under the DEK of the pool. -/
def SealedUnder (dek : Dek) (image : BundleFiles) : Prop := ∀ file ∈ image, ∀ key ∈ file.2.keys, key.dek = dek

theorem meets_syncApply {image : BundleFiles} (settled : vault.Settled)
    (under : SealedUnder vault.pool.dek image) :
    ((syncApply image) vault).Meets (fun _ => True) (fun _ v => Follows vault v) fun _ _ => True := by
  unfold syncApply
  apply meets_get_bind
  split
  · apply meets_modify_bind
    apply meets_zoom
    have closed : Pool.Live { vault.pool with dbs := ∅ } vault.pool.dek vault.pool.stored :=
      ⟨⟨settled.wf.named, settled.wf.bound, settled.wf.cleared⟩, rfl, rfl⟩
    apply (Pool.meets_importFiles closed).mono (fun _ left => left) ?_ fun _ _ _ => trivial
    rintro _ q ⟨st, live, imported⟩
    refine settled.replace live ?_ ?_ ?_ vault.unlocked
    · intro name staging
      rw [imported.staging name staging]
      exact settled.clean name staging
    · intro name data present
      cases imported.files name data present with
      | inl old => exact settled.current.files name data old
      | inr new => exact under _ new
    · rw [imported.anchor]
      exact settled.current.anchor
  · exact meets_fail trivial

/-- The forks of a lineage open. -/
def LineOpens (dek : Dek) (line : Lineage) : Prop :=
  ∀ fork ∈ line.forks, ∃ blob, SyncBlob.openBlob dek fork.sealed = some blob

theorem LineOpens.stash {dek : Dek} {line : Lineage} (opens : LineOpens dek line) (seq : Nat)
    (incoming : VersionVector) {loser : SealedBytes (SyncBlob BundleFiles)}
    (kept : ∃ blob, SyncBlob.openBlob dek loser = some blob) : LineOpens dek (line.stash seq incoming loser) := by
  intro fork member
  cases List.mem_append.mp member with
  | inl old => exact opens fork old
  | inr new =>
      rw [List.mem_singleton.mp new]
      exact kept

theorem syncOpen_ok {sealed : SealedBytes (SyncBlob BundleFiles)} {blob : SyncBlob BundleFiles}
    (ok : vault.syncOpen sealed = .ok blob) : SyncBlob.openBlob vault.pool.dek sealed = some blob := by
  unfold syncOpen at ok
  split at ok
  · split at ok
    · next opened => rw [opened, Except.ok.inj ok]
    · cases ok
  · cases ok

theorem syncSeal_ok {dbUuid : Uuid} {vv : VersionVector} {sealed : SealedBytes (SyncBlob BundleFiles)}
    (ok : vault.syncSeal dbUuid vv = .ok sealed) :
    ∃ blob, SyncBlob.openBlob vault.pool.dek sealed = some blob := by
  unfold syncSeal at ok
  obtain ⟨image, _, shape⟩ := except_bind_ok.mp ok
  obtain rfl := Except.ok.inj shape
  exact ⟨_, SyncBlob.openBlob_sealBlob ..⟩

/-- What the pull loop keeps of the vault it started from. -/
def Pulled (vault : Vault) (line : Lineage) (v : Vault) : Prop :=
  Follows vault v ∧ LineOpens vault.pool.dek line

theorem meets_pullBlob {seq : Nat} {sealed : SealedBytes (SyncBlob BundleFiles)} {line : Lineage}
    (settled : vault.Settled) (opens : LineOpens vault.pool.dek line)
    (under : ∀ blob ∈ SyncBlob.openBlob vault.pool.dek sealed, SealedUnder vault.pool.dek blob.image) :
    ((pullBlob seq sealed line) vault).Meets (fun _ => True) (Pulled vault) fun _ _ => True := by
  unfold pullBlob
  apply meets_get_bind
  apply meets_ofExcept_bind
  case errors => exact fun _ _ => trivial
  intro incoming ok
  have opened := syncOpen_ok ok
  have applies := meets_syncApply settled (under incoming opened)
  cases reconcile line.vv incoming.vv with
  | stale => exact meets_pure ⟨settled.follows, opens⟩
  | fastForward =>
      apply meets_bind _ applies
      intro _ v follows
      exact meets_pure ⟨follows, opens⟩
  | fork winnerIsIncoming =>
      cases winnerIsIncoming with
      | false => exact meets_pure ⟨settled.follows, opens.stash seq _ ⟨incoming, opened⟩⟩
      | true =>
          apply meets_ofExcept_bind
          case errors => exact fun _ _ => trivial
          intro loser sealedOk
          apply meets_bind _ applies
          intro _ v follows
          exact meets_pure ⟨follows, opens.stash seq _ (syncSeal_ok sealedOk)⟩

theorem meets_pullBlobs {pulled : List (Option (SealedBytes (SyncBlob BundleFiles)))} {seq : Nat}
    {line : Lineage} (settled : vault.Settled) (opens : LineOpens vault.pool.dek line)
    (under : ∀ sealed ∈ pulled.reduceOption, ∀ blob ∈ SyncBlob.openBlob vault.pool.dek sealed,
      SealedUnder vault.pool.dek blob.image) :
    ((pullBlobs seq pulled line) vault).Meets (fun _ => True) (Pulled vault) fun _ _ => True := by
  induction pulled generalizing seq line vault with
  | nil => exact meets_pure ⟨settled.follows, opens⟩
  | cons reply rest ih =>
      cases reply with
      | none => exact ih settled opens under
      | some sealed =>
          rw [List.reduceOption_cons_of_some] at under
          apply meets_bind _ (meets_pullBlob settled opens (under sealed List.mem_cons_self))
          rintro next v ⟨follows, opens'⟩
          have later : ((pullBlobs (seq + 1) rest next) v).Meets (fun _ => True) (Pulled v)
              fun _ _ => True := by
            apply ih follows.settled
            · rw [follows.dek]
              exact opens'
            · rw [follows.dek]
              exact fun other member => under other (List.mem_cons_of_mem _ member)
          apply later.mono (fun _ left => left) ?_ fun _ _ _ => trivial
          rintro last w ⟨follows', opens''⟩
          rw [follows.dek] at opens''
          exact ⟨follows.trans follows', opens''⟩

end Sync

section Rotate

variable {vault : Vault} {order : IterOrder} {draws : Draws} {prf : List UInt8} {current : Envelope}

/-- The records that no rotation writes. -/
def Untouched (vault v : Vault) : Prop := v.trustSeed = vault.trustSeed ∧ v.syncForks = vault.syncForks

theorem keeps_onPool {α : Type} (context : String) (program : PoolM α) :
    Keeps (Untouched vault) (onPool context program) := by
  intro v holds
  apply meets_zoom
  refine ⟨fun _ _ => holds, ?_⟩
  split <;> exact holds

theorem keeps_sessionBegin (dek : Dek) (env : Envelope) (epoch : Option (SealedBytes (List UInt8))) :
    Keeps (Untouched vault) (sessionBegin order dek env epoch) := by
  have checks : Keeps (Untouched vault) (checkEpoch env epoch) := by
    cases epoch with
    | none => exact keeps_pure ()
    | some token =>
        apply keeps_bind (keeps_onPool _ _)
        intro attested
        dsimp only
        split
        · exact keeps_fail _
        · exact keeps_pure ()
  unfold sessionBegin sessionLock
  refine keeps_bind (keeps_modify ?_) fun _ => keeps_bind (keeps_modify ?_) fun _ =>
    keeps_bind (keeps_onPool _ _) fun _ => keeps_bind checks fun _ => keeps_modify ?_
  all_goals exact fun v holds => holds

theorem keeps_unlock (prf : List UInt8) : Keeps (Untouched vault) (unlock order prf) := by
  unfold unlock unlockWith
  apply keeps_get_bind
  intro v _
  apply keeps_get_bind
  intro w _
  exact keeps_bind (keeps_ofExcept _) fun env => keeps_bind (keeps_ofExcept _) fun dek =>
    keeps_sessionBegin dek env _

theorem keeps_rotateDek : Keeps (Untouched vault) (rotateDek order draws prf current) := by
  unfold rotateDek sessionLock
  apply keeps_get_bind
  intro v _
  split
  · exact keeps_fail _
  · dsimp only
    split
    · exact keeps_fail _
    · refine keeps_bind (keeps_onPool _ _) fun _ => keeps_bind (keeps_modify ?_) fun _ => keeps_pure _
      exact fun w holds => holds

theorem keeps_rotateKey : Keeps (Untouched vault) (rotateKey order draws prf) := by
  unfold rotateKey bumpFloor
  apply keeps_get_bind
  intro v _
  split
  · refine keeps_bind (keeps_ofExcept _) fun current => keeps_bind keeps_rotateDek fun next =>
      keeps_bind (keeps_effect ?_) fun _ => keeps_bind ?_ fun _ => keeps_bind (keeps_effect ?_) fun _ =>
      keeps_bind (keeps_unlock prf) fun _ => keeps_pure _
    · exact fun w holds => holds
    · apply keeps_get_bind
      intro w _
      split
      · exact keeps_effect fun w holds => holds
      · exact keeps_pure ()
    · exact fun w holds => holds
  · exact keeps_fail _

/-- What a rotation that returns has done: a session has begun, under the new DEK and
with no token, on the vault `w` that the staging left. -/
structure Rotated (order : IterOrder) (draws : Draws) (vault w v : Vault) (next : Envelope) : Prop where
  staged : ∃ refSt, w.pool.Live vault.pool.dek refSt ∧
    Pool.Staged vault.pool draws.newDek (Pool.databases order vault.pool) refSt
  envelope : w.envelope = some next
  issued : next.IssuedUnder draws.newDek
  epoch : w.epoch = none
  begun : ((sessionBegin order draws.newDek next none) w).result = .ok ()
  ended : v = ((sessionBegin order draws.newDek next none) w).state

theorem meets_rotateKey_ends (session : vault.InSession) (fresh : draws.newDek ≠ vault.pool.dek) :
    ((rotateKey order draws prf) vault).Meets (fun _ => True)
      (fun _ v => ∃ w next, Rotated order draws vault w v next) fun _ _ => True := by
  unfold rotateKey
  apply meets_get_bind
  split
  case isFalse => exact meets_fail trivial
  apply meets_ofExcept_bind
  case errors => exact fun _ _ => trivial
  intro current _
  have stages : ((rotateDek order draws prf current) vault).Meets (BeforeCommit vault) _ _ :=
    meets_rotateDek session fresh
  apply meets_bind _ (stages.mono (fun _ _ => trivial) (fun _ _ done => done) fun _ _ _ => trivial)
  rintro _ v ⟨_, rfl, refSt, live, staged⟩
  let next := Envelope.rotated current.body.generation draws.newDek prf draws.envSalt draws.code
  apply meets_effect_bind trivial
  apply meets_bind fun _ w => w.pool = v.pool ∧ w.envelope = some next
  · unfold bumpFloor
    apply meets_get_bind
    split
    · exact meets_effect trivial ⟨rfl, rfl⟩
    · exact meets_pure ⟨rfl, rfl⟩
  rintro _ w ⟨pool, envelope⟩
  apply meets_effect_bind trivial
  let w' : Vault := { w with epoch := none }
  apply meets_bind fun _ x => ((sessionBegin order draws.newDek next none) w').result = .ok () ∧
    x = ((sessionBegin order draws.newDek next none) w').state
  case ends =>
    rintro _ x ⟨begun, ended⟩
    exact meets_pure ⟨w', next, ⟨refSt, pool ▸ live, staged⟩, envelope, Envelope.rotated_issued, rfl,
      begun, ended⟩
  unfold unlock
  apply meets_get_bind
  unfold unlockWith
  apply meets_get_bind
  apply meets_ofExcept_bind
  case errors => exact fun _ _ => trivial
  intro env held
  have same := (checkedEnvelope_ok.mp held).1
  rw [envelope, Option.some.injEq] at same
  subst same
  apply meets_ofExcept_bind
  case errors => exact fun _ _ => trivial
  intro dek opened
  obtain rfl := (Envelope.openWith_issued (unwrap_ok.mp opened)).unique Envelope.rotated_issued
  exact meets_self _ _

/-- A re-sealed file is sealed under the new DEK throughout. -/
theorem keys_of_resealed {name : FileName} {image : Region} (settled : vault.Settled)
    (covered : Pool.Covered order vault.pool)
    (resealed : Pool.Resealed vault.pool draws.newDek (Pool.databases order vault.pool) name image) :
    ∀ key ∈ image.keys, key.dek = draws.newDek := by
  obtain ⟨db, named, files, ok, member⟩ := resealed
  obtain ⟨uuid, slots, exported, found⟩ := Pool.resealDbCiphertext_ok ok
  have manifest : ∀ key ∈ (Region.manifest ⟨uuid, Pool.resealSlots (.dbKey vault.pool.dek uuid)
      (.dbKey draws.newDek uuid) (fileIdFor (manifestName db)) uuid 0 slots⟩).keys,
      key.dek = draws.newDek := by
    have listed := Pool.hasFilename_of_exportRaw exported
    obtain ⟨data, held⟩ := settled.wf.hasFilename_iff.mp listed
    rw [settled.wf.exportRaw_eq held, Except.ok.injEq] at exported
    subst exported
    have opens : ∀ entry ∈ slots.zipIdx, entry.1.key? = none ∨
        (entry.1.openWith (.dbKey vault.pool.dek uuid)
          (.block (fileIdFor (manifestName db)) uuid entry.2)).isSome := by
      have listed' : manifestName db ∈ vault.pool.files.keys :=
        Std.ExtTreeMap.mem_keys.mpr (Std.ExtTreeMap.contains_iff_mem.mp listed)
      rcases covered _ listed' _ held with unsealed | main | ⟨_, slotsOpen⟩
      · intro entry member
        have blank := List.filterMap_eq_nil_iff.mp unsealed
        exact Or.inl (blank entry.1 (List.fst_mem_of_mem_zipIdx member))
      · have isDb := Pool.endsWith_databases order vault.pool _ main
        exact absurd rfl (manifestName_ne_db isDb)
      · exact slotsOpen
    intro key held
    obtain ⟨slot, inside, keyed⟩ := List.mem_filterMap.mp held
    rw [Pool.keys_resealSlots opens slot inside key keyed]
    rfl
  cases found with
  | inl alone =>
      rw [alone.2, List.mem_singleton, Prod.mk.injEq] at member
      rw [member.2]
      exact manifest
  | inr both =>
      obtain ⟨raw, blocks, _, _, okBlocks, rfl⟩ := both
      simp only [List.mem_cons, Prod.mk.injEq, List.not_mem_nil, or_false] at member
      cases member with
      | inr second =>
          rw [second.2]
          exact manifest
      | inl first =>
          rw [first.2]
          intro key held
          obtain ⟨cell, inside, keyed⟩ := List.mem_filterMap.mp held
          rw [Pool.keys_resealBlocks okBlocks cell inside, Option.some.injEq] at keyed
          rw [← keyed]
          rfl

/-- A session that begins on staged databases leaves an anchor without windows alone. -/
theorem Rotated.anchor {w v : Vault} {next : Envelope} (rotated : Rotated order draws vault w v next)
    (bare : (Pool.carriedTable vault.pool).entries = []) : v.pool.anchor = vault.pool.anchor := by
  obtain ⟨refSt, live, staged⟩ := rotated.staged
  obtain ⟨oldGen, newGen, intent⟩ := staged.intent
  have reopened : Pool.Live (w.pool.reopen draws.newDek) draws.newDek refSt := by
    rw [← live.stored_eq]
    exact Pool.live_reopen w.pool draws.newDek
  have empty : ∀ region plain, (w.pool.reopen draws.newDek).exportRaw rotIntentName = .ok region →
      region.openIntent (.rotateIntentKey (w.pool.reopen draws.newDek).dek) = some plain →
      plain.anchors.entries = [] := by
    intro region plain exported opened
    rw [reopened.exportRaw intent, Except.ok.injEq] at exported
    subst exported
    rw [reopened.dek_eq, Region.openIntent, Aead.openWith_sealed, Option.some.injEq] at opened
    rw [← opened]
    exact bare
  have recovers : ((Pool.recoverRotation order) (w.pool.reopen draws.newDek)).Meets _ _ _ :=
    Pool.meets_recoverRotation_anchor reopened.anchor_eq empty
  have begins : ((sessionBegin order draws.newDek next none) w).Meets (fun _ => True)
      (fun _ v => v.pool.anchor = refSt.anchor) fun _ _ => True := by
    unfold sessionBegin sessionLock
    apply meets_modify_bind
    apply meets_modify_bind
    apply meets_bind fun _ v => v.pool.anchor = refSt.anchor
    · apply meets_zoom
      exact recovers.mono (fun _ _ => trivial) (fun _ _ same => same) fun _ _ _ => trivial
    · intro _ x same
      apply meets_bind fun _ x => x.pool.anchor = refSt.anchor
      · exact meets_pure same
      · exact fun _ _ same => meets_modify same
  rw [rotated.ended, begins.ok rotated.begun, staged.old.anchor]

/-- A rotation of a vault with neither trust seed nor forks leaves nothing under the old DEK. -/
theorem rotateKey_settled (settled : vault.Settled) (noSeed : vault.trustSeed = none)
    (noForks : vault.syncForks = []) (covered : Pool.Covered order vault.pool)
    (fresh : draws.newDek ≠ vault.pool.dek) (unseen : anchorPick draws.newDek vault.pool.anchor = none)
    {code : List Char} (ok : ((rotateKey order draws prf) vault).result = .ok code) :
    ((rotateKey order draws prf) vault).state.Settled ∧
      ((rotateKey order draws prf) vault).state.trustSeed = none := by
  have disarmed := settled.clean rotIntentName isStaging_rotIntentName
  have session : vault.InSession := ⟨settled.wf, settled.keyed, disarmed⟩
  have untouched : Untouched vault ((rotateKey order draws prf) vault).state :=
    (keeps_rotateKey vault ⟨rfl, rfl⟩).ok ok
  obtain ⟨w, next, rotated⟩ := (meets_rotateKey_ends session fresh).ok ok
  obtain ⟨refSt, live, staged⟩ := rotated.staged
  have whole : Pool.ShadowsWhole vault.pool draws.newDek (Pool.databases order vault.pool)
      w.pool.content := by
    rw [live.content_eq]
    intro name image resealed emptied
    rw [staged.shadow resealed] at emptied
    exact Option.some.inj emptied
  have dbs := Pool.endsWith_databases order vault.pool
  have present := Pool.hasFilename_databases order vault.pool
  have line : Pool.NewLine vault.pool draws.newDek (Pool.databases order vault.pool) refSt
      w.pool.stored := by
    rw [live.stored_eq]
    exact Or.inl (staged.rolling unseen)
  have begins : ((sessionBegin order draws.newDek next none) w).Meets (fun _ => True) _ _ :=
    meets_begin_new dbs present session.wf live staged line whole fun _ _ _ => trivial
  obtain ⟨st, rolled, gone, live', same⟩ := begins.ok rotated.begun
  rw [← rotated.ended] at live' same
  generalize ((rotateKey order draws prf) vault).state = v at *
  refine ⟨⟨live'.wf, ?_, ?_, ?_⟩, untouched.1.trans noSeed⟩
  · refine ⟨next, ?_, ?_⟩
    · rw [same]
      exact rotated.envelope
    · rw [live'.dek_eq]
      exact rotated.issued
  · intro name staging
    rw [live'.content_eq]
    rcases isStaging_cases staging with ⟨other, rfl⟩ | rfl
    · by_contra held
      exact (rolled.strays other held).2 (settled.clean _ isStaging_shadowName)
    · exact gone
  · refine ⟨?_, ?_, ?_, ?_, ?_⟩
    · rw [untouched.1, noSeed]
      exact fun _ held => nomatch held
    · rw [untouched.2, noForks]
      exact fun _ member => nomatch member
    · rw [same]
      intro token held
      rw [show w.epoch = none from rotated.epoch] at held
      cases held
    · rw [live'.content_eq, live'.dek_eq]
      intro name data held
      by_cases resealed : ∃ image, Pool.Resealed vault.pool draws.newDek
          (Pool.databases order vault.pool) name image
      · obtain ⟨image, resealed⟩ := resealed
        rw [rolled.adopted name image resealed, Option.some.injEq] at held
        rw [← held]
        exact keys_of_resealed settled covered resealed
      · have unstaged : isStaging name = false := by
          rw [← Bool.not_eq_true]
          intro staging
          rcases isStaging_cases staging with ⟨other, rfl⟩ | rfl
          · have stray := (rolled.strays other (by rw [held]; exact Option.some_ne_none _)).2
            exact stray (settled.clean _ isStaging_shadowName)
          · rw [gone] at held
            cases held
        have kept := rolled.others name unstaged fun image is => resealed ⟨image, is⟩
        rw [held] at kept
        have listed : name ∈ vault.pool.files.keys := Std.ExtTreeMap.mem_keys.mpr
          (Std.ExtTreeMap.contains_iff_mem.mp (settled.wf.hasFilename_iff.mpr ⟨data, kept.symm⟩))
        rcases covered name listed data kept.symm with unsealed | main | ⟨⟨db, named, rfl⟩, _⟩
        · rw [unsealed]
          exact fun _ member => nomatch member
        · exact absurd (staged.target main (present name main) (Or.inl rfl)) resealed
        · exact absurd (staged.target named (present db named) (Or.inr rfl)) resealed
    · rw [live'.dek_eq, live'.anchor_eq]
      by_cases bare : (Pool.carriedTable vault.pool).entries = []
      · rw [← live'.anchor_eq, rotated.anchor bare]
        exact Or.inr (settled.current.anchor.resolve_left fun shows => shows bare)
      · left
        intro empty
        have carried := rolled.carried
        rw [empty] at carried
        exact bare (List.subset_nil.mp carried)

end Rotate

end Vault

namespace VaultHistory

/-- The certificates issued carry the stored trust seed. -/
structure Inv (h : VaultHistory) : Prop where
  settled : h.device.vault.Settled
  certs : ∀ key ∈ h.issued, h.device.vault.trustSeed =
    some (.sealed (.trustSealKey h.device.vault.pool.dek) .trustSeed key.seed)

section Steps

variable {h next : VaultHistory} {call : VaultCall}

theorem after_eq_some {α : Type} {program : VaultM α} {a : α} :
    h.after program = some (next, a) ↔ (program h.device.vault).result = .ok a ∧
      next = { h with device := h.device.withVault (program h.device.vault).state } := by
  unfold after
  cases (program h.device.vault).result with
  | ok b =>
      simp only [Option.some.injEq, Prod.mk.injEq, Except.ok.injEq]
      tauto
  | error e => simp

/-- Calls that leave the DEK and the trust seed alone. -/
theorem Inv.follows (inv : Inv h) (follows : Vault.Follows h.device.vault next.device.vault)
    (same : next.issued = h.issued) : Inv next := by
  refine ⟨follows.settled, ?_⟩
  rw [same, follows.dek, follows.trustSeed]
  exact inv.certs

theorem Inv.sync {push : Bool} {pulled : List (Option (SealedBytes (SyncBlob BundleFiles)))}
    {listed : Nat} (inv : Inv h) (permitted : h.allowed (.sync push pulled listed))
    (taken : h.step (.sync push pulled listed) = some next) : Inv next := by
  have loops : ((Vault.pullBlobs h.device.syncCursor pulled
      ⟨h.device.syncVv, h.device.vault.syncForks⟩) h.device.vault).Meets _ _ _ :=
    Vault.meets_pullBlobs inv.settled inv.settled.current.forks permitted
  have runs : ((SyncedVault.sync push pulled listed) h.device).Meets (fun _ => True)
      (fun _ w => Vault.Follows h.device.vault w.vault) fun _ _ => True := by
    unfold SyncedVault.sync
    apply meets_get_bind
    split
    · apply meets_bind fun line w => Vault.Pulled h.device.vault line w.vault
      · apply meets_zoom
        exact loops.mono (fun _ _ => trivial) (fun _ _ done => done) fun _ _ _ => trivial
      · rintro line w ⟨follows, opens⟩
        apply meets_bind fun _ w => Vault.Follows h.device.vault w.vault
        · unfold SyncedVault.publish
          apply meets_get_bind
          split
          · apply meets_ofExcept_bind
            · exact fun _ _ => meets_pure follows
            · exact fun _ _ => trivial
          · exact meets_pure follows
        · intro published x follows
          apply meets_effect_bind trivial
          apply meets_effect_bind trivial
          apply meets_effect_bind trivial
          have settled := follows.settled
          refine meets_pure ⟨⟨settled.wf, settled.keyed, settled.clean, ?_⟩, follows.dek, follows.trustSeed⟩
          refine ⟨settled.current.trustSeed, ?_, settled.current.epoch, settled.current.files,
            settled.current.anchor⟩
          rw [← follows.dek] at opens
          exact opens
    · exact meets_fail trivial
  simp only [VaultHistory.step] at taken
  split at taken
  · next ok =>
      obtain rfl := Option.some.inj taken
      exact inv.follows (runs.ok ok) rfl
  · cases taken

theorem Inv.step (inv : Inv h) (permitted : h.allowed call) (taken : h.step call = some next) :
    Inv next := by
  cases call with
  | sync push pulled listed => exact inv.sync permitted taken
  | issueDeviceCert devicePubkey random =>
      obtain ⟨⟨done, key⟩, ended, rfl⟩ := Option.map_eq_some_iff.mp taken
      obtain ⟨ok, rfl⟩ := after_eq_some.mp ended
      by_cases unlocked : h.device.vault.unlocked = true
      · by_cases whole : devicePubkey.length = 32
        · obtain ⟨seed, ran, same⟩ := inv.settled.issueDeviceCert unlocked whole random
          rw [ran, Except.ok.injEq] at ok
          subst ok
          refine ⟨?_, ?_⟩
          · dsimp only [SyncedVault.withVault]
            rw [ran]
            exact inv.settled.withTrustSeed seed
          · dsimp only [SyncedVault.withVault]
            rw [ran]
            intro key member
            cases List.mem_cons.mp member with
            | inl new => rw [new]
            | inr old => exact congrArg some (same _ (inv.certs key old)).symm
        · simp [Vault.issueDeviceCert, bind, Prog.bind, Prog.get, unlocked, whole, Prog.fail] at ok
      · simp [Vault.issueDeviceCert, bind, Prog.bind, Prog.get, unlocked, Prog.fail] at ok
  | rotateKey order draws prf =>
      obtain ⟨⟨done, code⟩, ended, rfl⟩ := Option.map_eq_some_iff.mp taken
      obtain ⟨ok, rfl⟩ := after_eq_some.mp ended
      obtain ⟨noSeed, noForks, covered, fresh, unseen⟩ := permitted
      obtain ⟨settled, gone⟩ :=
        Vault.rotateKey_settled inv.settled noSeed noForks covered fresh unseen ok
      refine ⟨settled, ?_⟩
      intro key member
      have stored := inv.certs key member
      rw [noSeed] at stored
      cases stored
  | lock =>
      have mapped : (h.after Vault.lock).map Prod.fst = some next := taken
      obtain ⟨⟨done, _⟩, ended, rfl⟩ := Option.map_eq_some_iff.mp mapped
      obtain ⟨_, rfl⟩ := after_eq_some.mp ended
      have settled := inv.settled
      exact inv.follows ⟨⟨settled.wf, settled.keyed, settled.clean, settled.current.trustSeed,
        settled.current.forks, settled.current.epoch, settled.current.files, settled.current.anchor⟩,
        rfl, rfl⟩ rfl
  | unlock order method =>
      obtain ⟨⟨done, _⟩, ended, rfl⟩ := Option.map_eq_some_iff.mp taken
      obtain ⟨ok, rfl⟩ := after_eq_some.mp ended
      exact inv.follows (Vault.unlockWith_follows inv.settled ok) rfl

theorem Inv.survives (inv : Inv h) : h.Survives := by
  refine ⟨inv.settled.keyed, inv.settled.current, ?_, ?_⟩
  · intro unlocked devicePubkey random whole
    obtain ⟨seed, ran, same⟩ := inv.settled.issueDeviceCert unlocked whole random
    refine ⟨⟨seed⟩, by rw [ran], ?_⟩
    intro before member
    have stored := same _ (inv.certs before member)
    rw [Aead.Sealed.sealed.injEq] at stored
    obtain ⟨_, _, rfl⟩ := stored
    rfl
  · intro unlocked id member
    obtain ⟨fork, kept, rfl⟩ := List.mem_map.mp member
    have found : (h.device.vault.syncForks.find? fun other => other.id = fork.id).isSome = true := by
      rw [List.find?_isSome]
      exact ⟨fork, kept, decide_eq_true rfl⟩
    obtain ⟨other, found⟩ := Option.isSome_iff_exists.mp found
    obtain ⟨blob, opened⟩ := inv.settled.current.forks other (List.mem_of_find?_eq_some found)
    refine ⟨blob, ?_⟩
    simp only [Vault.openFork, Vault.syncOpen, unlocked, if_true, found, opened]

end Steps

/-- Whatever is stored sealed survives every history of calls that meet the condition. -/
theorem sealed_records_survive {device : SyncedVault} (settled : device.vault.Settled)
    {h : VaultHistory} (reached : Runs.Reaches step allowed ⟨device, []⟩ h) : h.Survives := by
  have base : Inv ⟨device, []⟩ := ⟨settled, fun _ member => nomatch member⟩
  exact (reached.invariant Inv base fun _ _ _ inv permitted taken => inv.step permitted taken).survives

theorem sampleVault_settled : Vault.sampleVault.Settled := by
  refine ⟨Pool.samplePool_wf, ⟨_, rfl, rfl⟩,
    Pool.samplePool_wf.clean_content Pool.samplePool_clean, ?_⟩
  refine ⟨fun _ held => (nomatch held), fun _ member => (nomatch member), fun _ held => (nomatch held),
    ?_, ?_⟩
  · have listed : ∀ name ∈ Pool.samplePool.files.keys, ∀ data ∈ Pool.samplePool.content name,
        ∀ key ∈ data.keys, key.dek = Pool.samplePool.dek := by
      decide +kernel
    intro name data held
    refine listed name ?_ data held
    exact Std.ExtTreeMap.mem_keys.mpr (Std.ExtTreeMap.contains_iff_mem.mp
      (Pool.samplePool_wf.hasFilename_iff.mpr ⟨data, held⟩))
  · unfold AnchorReads
    decide +kernel

def sampleDevice : SyncedVault := ⟨Vault.sampleVault, 3, .new, 0⟩

/-- A blob of another device under the given DEK, concurrent to what device 3 pushes. -/
def sampleRival (dek : Dek) : SealedBytes (SyncBlob BundleFiles) :=
  SyncBlob.sealBlob dek ⟨syncDbUuid, VersionVector.new.increment 5, []⟩

def sampleCert : VaultCall := .issueDeviceCert (List.replicate 32 0) 8

/-- Two syncs of which the second one finds a fork. -/
def sampleForks (dek : Dek) : List VaultCall := [.sync true [] 1, .sync false [some (sampleRival dek)] 0]

def sampleRotation : VaultCall := .rotateKey Pool.keyOrder Vault.sampleDraws [7]

theorem sealed_records_survive_sample : ∃ h, Runs.run step ⟨sampleDevice, []⟩
      ([sampleRotation, sampleCert] ++ sampleForks 2 ++
        [.lock, .unlock Pool.keyOrder (.recovery ['C']), sampleCert]) = some h ∧
    (h.device.vault.unlocked = true ∧ h.issued.length = 2 ∧ h.device.vault.listForks.length = 1) ∧
      h.Survives := by
  have same : (Runs.runWhere step (fun h call => decide (h.allowed call)) ⟨sampleDevice, []⟩
      ([sampleRotation, sampleCert] ++ sampleForks 2 ++
        [.lock, .unlock Pool.keyOrder (.recovery ['C']), sampleCert])).any (fun h =>
      decide (h.device.vault.unlocked = true ∧ h.issued.length = 2 ∧
        h.device.vault.listForks.length = 1)) = true := by
    decide +kernel
  obtain ⟨h, ran, shape⟩ := (Option.any_eq_true _ _).mp same
  have reached := (Runs.reaches_of_runWhere ran).weaken fun _ _ passed => of_decide_eq_true passed
  exact ⟨h, Runs.run_of_runWhere ran, of_decide_eq_true shape,
    sealed_records_survive sampleVault_settled reached⟩

/-- A rotation leaves the trust seed and the forks under the old DEK: the next certificate
cannot be issued and the fork opens no more. -/
theorem rotation_strands_records :
    (∃ h, Runs.run step ⟨sampleDevice, []⟩ [sampleCert, sampleRotation] = some h ∧
      h.device.vault.unlocked = true ∧
      ((Vault.issueDeviceCert (List.replicate 32 0) 9) h.device.vault).result.toBool = false) ∧
    ∃ h, Runs.run step ⟨sampleDevice, []⟩ (sampleForks 1 ++ [sampleRotation]) = some h ∧
      h.device.vault.unlocked = true ∧
      ∃ id ∈ h.device.vault.listForks, (h.device.vault.openFork id).toBool = false := by
  refine ⟨Runs.exists_run ?_, Runs.exists_run ?_⟩ <;> decide +kernel

end VaultHistory

end Freehold
