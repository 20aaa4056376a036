import Freehold.Transactions

set_option autoImplicit false

/- Runs of transactions: creation, openings, closings, and what a vault serves at the quiescent points. -/
namespace Freehold

open CrashLogic

namespace Pool

/-- A vault without the database. -/
structure New (db : DbName) (q : Pool) : Prop where
  missing : ∀ other ∈ db.files, q.files[other]? = none
  shut : q.dbs[db.name]? = none

section New

variable {db : DbName} {uuid : Uuid} {q r : Pool} {table : AnchorTable}

theorem getElem?_mapSlot {name other : FileName} (apart : other ≠ name) (header : Option HeaderName) :
    (Pool.mapSlot name header q).files[other]? = q.files[other]? := by
  cases free : q.available with
  | nil => rw [Pool.mapSlot, free]
  | cons slot rest =>
      rw [mapSlot_of_cons free, Std.ExtTreeMap.getElem?_insert, if_neg (by simpa using Ne.symm apart)]

theorem lacks_of_missing {name : FileName} (missing : q.files[name]? = none) : q.hasFilename name = false := by
  rw [← Bool.not_eq_true, hasFilename_iff, missing]
  rintro ⟨file, found⟩
  cases found

theorem New.onDisk (fresh : q.New db) (wf : q.Wf) : q.OnDisk db := by
  refine ⟨fun other listed file found => ?_, fun file held => ?_, fun free listed => (wf.cleared free listed).2⟩
  · rw [fresh.missing other listed] at found
    cases found
  · obtain ⟨mfile, found, _⟩ := manifestFile_eq_some.mp held
    rw [fresh.missing (manifestName db.name) (by simp [DbName.files])] at found
    cases found

theorem New.reopen (fresh : q.New db) (dek : Dek) : (q.reopen dek).New db := by
  refine ⟨fun other listed => ?_, Std.ExtTreeMap.getElem?_empty⟩
  rw [getElem?_reopen, fresh.missing other listed]
  rfl

theorem getElem?_created {other : FileName} (apart : other ≠ manifestName db.name) :
    (created db uuid q).files[other]? = q.files[other]? := by
  rw [created, sealSlot, Pool.modifyFile, Std.ExtTreeMap.getElem?_modify,
    if_neg (by simpa using Ne.symm apart)]
  exact getElem?_headed apart

theorem Wf.created (wf : q.Wf) : (created db uuid q).Wf := by
  have mapped : (Pool.mapSlot (manifestName db.name) (some (headerOf db)) q).Wf := @Wf.mapSlot _ wf (headerOf db)
  exact Wf.modifyFile mapped.setData (fun _ => rfl) fun _ => rfl

/-- A new database as it is adopted: no page yet, and a manifest that says so. -/
theorem transacting_created (wf : q.Wf) {main : SyncAccessFile} (there : q.files[db.name]? = some main)
    (blank : main.data = .empty) (none_there : q.files[journalName db.name]? = none)
    (room : q.available ≠ []) (unknown : anchorEntry q.dek q.anchor uuid = none)
    (saved : anchorUpsert uuid (some 1) (some 1) none (anchorLoad q.dek q.anchor).2 = some table)
    (onDisk : (adoptCreated db q.dek uuid ((created db uuid q).savedOnce table)).OnDisk db) :
    Transacting db (firstState q.dek uuid) [] .sealed
      (adoptCreated db q.dek uuid ((created db uuid q).savedOnce table)) := by
  have dek : (created db uuid q).dek = q.dek := created_dek
  have anchor : (created db uuid q).anchor = q.anchor := created_anchor
  have apart := Ne.symm (manifestName_ne_self db.name)
  have recorded : SameDb db.name (created db uuid q) ((created db uuid q).savedOnce table) := ⟨rfl, rfl, rfl⟩
  have current : (adoptCreated db q.dek uuid ((created db uuid q).savedOnce table)).Current db.name
      (firstState q.dek uuid) := (current_created room recorded).bindMain uuid (.dbKey q.dek uuid) (some 0)
  have journal : (adoptCreated db q.dek uuid ((created db uuid q).savedOnce table)).files[
      journalName db.name]? = none := by
    rw [adoptCreated, Pool.bindMain, Pool.modifyFile, Std.ExtTreeMap.getElem?_modify,
      if_neg (by simpa using Ne.symm (journalName_ne_self db.name))]
    exact (getElem?_created (journalName_ne_manifestName db.name db.name)).trans none_there
  have missing : ∀ file, (adoptCreated db q.dek uuid ((created db uuid q).savedOnce table)).files[
      journalName db.name]? = some file →
        file.crypto = (firstState q.dek uuid).crypto ∧ file.keyDomain = (firstState q.dek uuid).uuid := by
    intro file found
    rw [journal] at found
    cases found
  have adopted : (adoptCreated db q.dek uuid ((created db uuid q).savedOnce table)).Wf := by
    have before : (created db uuid q).Wf := wf.created
    exact Wf.modifyFile ⟨before.named, before.bound, before.cleared⟩ (fun _ => rfl) fun _ => rfl
  have fresh : Fresh q.dek q.anchor uuid 1 := ⟨by rw [unknown]; rfl, by rw [saved]; exact Option.some_ne_none _⟩
  have loaded : (anchorLoad q.dek ((created db uuid q).savedOnce table).anchor).2 = table := by
    rw [← dek]
    exact congrArg Prod.snd (anchorLoad_savedOnce (created db uuid q) table)
  have found : (adoptCreated db q.dek uuid ((created db uuid q).savedOnce table)).files[db.name]? =
      some { main with
        crypto := .dbKey q.dek uuid, keyDomain := uuid, isMainDb := true, logicalSize := some 0 } := by
    rw [adoptCreated, Pool.bindMain, getElem?_modifyFile]
    exact congrArg (Option.map _) ((getElem?_created apart).trans there)
  refine ⟨⟨adopted, onDisk, current, ⟨_, found, rfl, rfl, rfl, ?_, ?_, fun _ => ?_⟩, missing, ?_, ?_⟩, ?_, ?_⟩
  · rw [SyncAccessFile.pages, blank]
    rfl
  · rfl
  · rw [blank]
    rfl
  · intro page first
    cases first
  · show Fresh (created db uuid q).dek ((created db uuid q).savedOnce table).anchor uuid 1
    rw [dek]
    exact fresh.raised (saved.trans (congrArg some loaded.symm)) (Nat.le_refl 1) fun c same => by
      obtain rfl := Option.some.inj same
      omega
  · rw [hot_eq current adopted missing, journal]
    rfl
  · intro _
    refine ⟨[], firstPayload db uuid, rfl, readManifest_created room, rfl, ?_, .inr ⟨rfl, rfl⟩⟩
    simp [ManifestPayload.lengthOf, firstPayload]

/-- A name that has no slot yet gets the next free one. -/
theorem Wf.mapped (wf : q.Wf) (room : q.available ≠ []) (name : FileName) (header : Option HeaderName) :
    ∃ main, (Pool.mapSlot name header q).files[name]? = some main ∧ main.data = .empty := by
  obtain ⟨slot, rest, free⟩ := List.exists_cons_of_ne_nil room
  have blank := (wf.cleared slot (by rw [free]; exact List.mem_cons_self)).2
  rw [mapSlot_of_cons free]
  exact ⟨_, Std.ExtTreeMap.getElem?_insert_self, blank⟩

/-- The first opening creates the database. -/
theorem New.opens (fresh : q.New db) (wf : q.Wf) (unknown : anchorEntry q.dek q.anchor uuid = none) :
    (Vfs.xOpen uuid .mainDb db.name true q).Meets (fun _ => True)
      (fun _ r => ∃ st, Transacting db st [] .sealed r) fun _ _ => True := by
  let header : HeaderName := ⟨db.name, db.fits_of_mem db.mem_files⟩
  let p := Pool.mapSlot db.name (some header) q
  have lacks : q.hasFilename db.name = false := lacks_of_missing (fresh.missing _ db.mem_files)
  have kept : Keeps (OnDisk db) (Vfs.xOpen uuid .mainDb db.name true) :=
    keeps_bind (OnDisk.keeps_xOpenImpl db.name true) fun _ =>
      keeps_asVfs _ (OnDisk.keeps_openMainDb uuid db.name)
  have opened : (Vfs.xOpen uuid .mainDb db.name true q).Meets (fun _ => True)
      (fun _ r => r.OnDisk db → ∃ st, Transacting db st [] .sealed r) fun _ _ => True := by
    apply meets_bind (fun _ r => r = p ∧ q.available ≠ [])
    · unfold Vfs.xOpenImpl
      apply meets_get_bind
      rw [lacks, if_neg Bool.false_ne_true, if_pos rfl]
      apply meets_zoom
      show (Pool.withNewFile header.name (Prog.pure ()) q).Meets _ (fun _ r => r = p ∧ q.available ≠ []) _
      by_cases room : q.available = []
      · rw [withNewFile_full _ _ lacks room]
        exact ⟨fun _ _ => trivial, trivial⟩
      · rw [withNewFile_run header _ lacks room]
        exact ⟨fun _ _ => trivial, rfl, room⟩
    · rintro _ r ⟨rfl, room⟩
      obtain ⟨main, there, blank⟩ := wf.mapped room db.name (some header)
      have mapped : p.Wf := @Wf.mapSlot _ wf header
      have others : ∀ other ∈ db.files, other ≠ db.name → p.files[other]? = none := fun other listed apart =>
        (getElem?_mapSlot apart _).trans (fresh.missing other listed)
      have no_journal := others (journalName db.name) (by simp [DbName.files]) (journalName_ne_self db.name)
      have no_manifest := others (manifestName db.name) (by simp [DbName.files]) (manifestName_ne_self db.name)
      have none_there : p.hasFilename (manifestName db.name) = false := lacks_of_missing no_manifest
      have unread : ∃ e, p.readManifest (manifestName db.name) = .error e := by
        unfold readManifest
        rw [no_manifest]
        exact ⟨_, rfl⟩
      obtain ⟨e, unread⟩ := unread
      have size : main.data.size = 0 := by
        rw [blank]
        rfl
      have same : p.dropped (manifestName db.name) = p := if_neg (by rw [none_there]; exact Bool.false_ne_true)
      apply meets_zoom
      show (Pool.openMainDb uuid db.name p).Meets _ _ _
      rw [openMainDb_unread there size unread, same]
      by_cases free : p.available = []
      · obtain ⟨e, full⟩ := @openCreated_full db p uuid none_there free
        rw [full]
        exact ⟨fun _ _ => trivial, trivial⟩
      · cases saved : anchorUpsert uuid (some 1) (some 1) none (anchorLoad p.dek p.anchor).2 with
        | none =>
            obtain ⟨e, refused⟩ := openCreated_refused none_there free saved
            rw [refused]
            exact ⟨fun _ _ => trivial, trivial⟩
        | some table =>
            rw [openCreated_room none_there free saved]
            refine ⟨fun _ _ => trivial, fun onDisk => ⟨_, transacting_created mapped there blank no_journal
              free ?_ saved onDisk⟩⟩
            have dek : p.dek = q.dek := mapSlot_dek
            have anchor : p.anchor = q.anchor := mapSlot_anchor
            rw [dek, anchor]
            exact unknown
  refine (opened.and (kept q (fresh.onDisk wf))).mono (fun _ _ => trivial) ?_ fun _ _ _ => trivial
  rintro _ r ⟨made, onDisk⟩
  exact made onDisk

end New

section Described

variable {db : DbName} {uuid : Uuid} {payload : ManifestPayload} {image : List Block} {q r : Pool}

/-- It stays described when the vault is closed. -/
theorem Described.reopen (described : q.Described db uuid payload image) (wf : q.Wf) (onDisk : q.OnDisk db) :
    (q.reopen q.dek).Described db uuid payload image := by
  have before : q.Live q.dek q.stored := ⟨wf, rfl, rfl⟩
  have after := live_reopen q q.dek
  obtain ⟨file, found, opens, blank⟩ := described.main
  refine ⟨?_, described.records, ⟨mounted q.dek db.name file, ?_, opens, blank⟩, described.headed,
    described.fresh, ?_⟩
  · rw [after.readManifest_eq, ← before.readManifest_eq]
    exact described.read
  · rw [getElem?_reopen_named onDisk db.mem_files, found]
    rfl
  · rw [after.hotJournal_eq]
    exact before.hotJournal_eq _ _ ▸ described.cold

/-- What goes on elsewhere in the pool, as far as the database is concerned. -/
structure Elsewhere (db : DbName) (p q : Pool) : Prop where
  wf : q.Wf
  dek : q.dek = p.dek
  dbs : q.dbs[db.name]? = p.dbs[db.name]?
  files : ∀ other ∈ db.files, q.files[other]? = p.files[other]?
  window : ∀ uuid payload, p.readManifest (manifestName db.name) = .ok (uuid, payload) →
    ∀ gen, Fresh p.dek p.anchor uuid gen → Fresh q.dek q.anchor uuid gen

theorem Elsewhere.sameDb (apart : Elsewhere db q r) : SameDb db.name q r :=
  ⟨apart.dek, apart.dbs, apart.files _ (by simp [DbName.files])⟩

theorem Elsewhere.onDisk (apart : Elsewhere db q r) (onDisk : q.OnDisk db) : r.OnDisk db := by
  refine ⟨fun other listed file found => ?_, fun file held => ?_,
    fun free listed => (apart.wf.cleared free listed).2⟩
  · rw [apart.files other listed] at found
    exact onDisk.named other listed file found
  · rw [apart.sameDb.manifestFile] at held
    rw [apart.dek]
    exact onDisk.paired file held

theorem Elsewhere.new (apart : Elsewhere db q r) (fresh : q.New db) : r.New db :=
  ⟨fun other listed => (apart.files other listed).trans (fresh.missing other listed),
    apart.dbs.trans fresh.shut⟩

theorem Described.elsewhere (described : q.Described db uuid payload image) (apart : Elsewhere db q r) :
    r.Described db uuid payload image := by
  refine ⟨apart.sameDb.readManifest.trans described.read, described.records, ?_, described.headed,
    apart.window _ _ described.read _ described.fresh, ?_⟩
  · rw [apart.files _ db.mem_files, apart.dek]
    exact described.main
  · rw [← described.cold, apart.dek, Pool.hotJournal, Pool.hotJournal,
      apart.files (journalName db.name) (by simp [DbName.files])]

theorem Transacting.elsewhere {st : DbState} {pages : List (Option Block)} {phase : PagerPhase}
    (within : Transacting db st pages phase q) (apart : Elsewhere db q r) :
    Transacting db st pages phase r := by
  have serving := within.serving
  have journal : ∀ file, r.files[journalName db.name]? = some file →
      file.crypto = st.crypto ∧ file.keyDomain = st.uuid := by
    rw [apart.files (journalName db.name) (by simp [DbName.files])]
    exact serving.journal
  obtain ⟨payload, read⟩ := serving.current.reads
  have current := apart.sameDb.current serving.current
  refine ⟨⟨apart.wf, apart.onDisk serving.onDisk, current, ?_, journal, serving.headed,
    apart.window _ _ read _ serving.fresh⟩, ?_, fun sealed => (within.settled sealed).ofSame apart.sameDb⟩
  · rw [apart.files _ db.mem_files]
    exact serving.main
  · rw [← within.hot, hot_eq current apart.wf journal, hot_eq serving.current serving.wf serving.journal,
      apart.files (journalName db.name) (by simp [DbName.files])]

end Described

end Pool

/-- A main file that is there is opened by `open_main_db`. -/
theorem Vfs.xOpen_there {name : FileName} {q : Pool} (freshUuid : Uuid) (there : q.hasFilename name = true)
    (create : Bool) :
    (Vfs.xOpen freshUuid .mainDb name create q).result =
        (Pool.openMainDb freshUuid name q).result.mapError (OpfsSAHError.vfsErr sqliteCantopen) ∧
      (Vfs.xOpen freshUuid .mainDb name create q).state = (Pool.openMainDb freshUuid name q).state := by
  have idle : Vfs.xOpenImpl name create q = ⟨[], q, .ok ()⟩ := by
    unfold Vfs.xOpenImpl
    rw [Prog.get_bind, if_pos there]
    rfl
  unfold Vfs.xOpen
  rw [Prog.bind_of_ok idle]
  exact ⟨rfl, rfl⟩

namespace Pool

section Described

variable {db : DbName} {uuid : Uuid} {payload : ManifestPayload} {image : List Block} {q r : Pool}

/-- SQLite opens a described database. -/
theorem Described.xOpen (described : q.Described db uuid payload image) (wf : q.Wf) (onDisk : q.OnDisk db)
    (freshUuid : Uuid) (create : Bool) : (Vfs.xOpen freshUuid .mainDb db.name create q).Meets
      (fun _ => True) (fun _ r => ∃ st, Transacting db st (image.map some) .sealed r) fun _ _ => False := by
  obtain ⟨file, found, _⟩ := described.main
  have there : q.hasFilename db.name = true := hasFilename_iff.mpr ⟨file, found⟩
  apply meets_bind (fun _ r => r = q)
  · unfold Vfs.xOpenImpl
    apply meets_get_bind
    rw [if_pos there]
    exact meets_pure rfl
  · rintro _ r rfl
    apply meets_zoom
    exact described.opens wf onDisk

end Described

end Pool

/-- A database of a vault and the pages its transactions have left. -/
structure DbSession where
  pool : Pool
  pages : List (Option Block)
  phase : PagerPhase

/-- What happens in a vault; each of it completes. -/
inductive DbEvent where
  | openDb (freshUuid : Uuid)
  | transaction (t : Transaction)
  | close
  | elsewhere (q : Pool)

namespace DbSession

/-- A step from one quiescent point to the next. -/
def step (db : DbName) (s : DbSession) : DbEvent → Option DbSession
  | .openDb freshUuid =>
      let ran := Vfs.xOpen freshUuid .mainDb db.name true s.pool
      if ran.result.isOk then some { s with pool := ran.state } else none
  | .transaction t =>
      let ran := t.run db.name s.pool
      if s.pool.dbs.contains db.name && ran.result.isOk then
        (t.turns s.phase).map fun phase => ⟨ran.state, t.pages s.pages, phase⟩
      else none
  | .close => some { s with pool := s.pool.reopen s.pool.dek }
  | .elsewhere q => some { s with pool := q }

/-- A database is opened and closed with its manifest sealed, a new one under an uuid that is new. -/
def Allowed (db : DbName) (s : DbSession) : DbEvent → Prop
  | .openDb freshUuid => s.phase = .sealed ∧
      (s.pool.hasFilename db.name = false → anchorEntry s.pool.dek s.pool.anchor freshUuid = none)
  | .transaction _ => True
  | .close => s.phase = .sealed
  | .elsewhere q => s.pool.Elsewhere db q

/-- A vault without the database, or with one that is shut and described by its manifest. -/
structure Shut (db : DbName) (s : DbSession) : Prop where
  wf : s.pool.Wf
  onDisk : s.pool.OnDisk db
  shut : s.pool.dbs[db.name]? = none
  phase : s.phase = .sealed
  image : (s.pool.New db ∧ s.pages = []) ∨ ∃ image uuid payload, s.pages = image.map some ∧
    s.pool.Described db uuid payload image

/-- The database is open, between two transactions. -/
structure Opened (db : DbName) (s : DbSession) : Prop where
  idle : s.phase ≠ .begun
  open_db : ∃ st, s.pool.Transacting db st s.pages s.phase

section Steps

variable {db : DbName} {s t : DbSession}

/-- With its manifest sealed, an open database is described by it. -/
theorem Opened.described (opened : s.Opened db) (sealed : s.phase = .sealed) :
    s.pool.Wf ∧ s.pool.OnDisk db ∧ ∃ image uuid payload, s.pages = image.map some ∧
      s.pool.Described db uuid payload image := by
  obtain ⟨st, within⟩ := opened.open_db
  rw [sealed] at within
  obtain ⟨image, payload, shape, described⟩ := within.described
  exact ⟨within.serving.wf, within.serving.onDisk, image, st.uuid, payload, shape, described⟩

theorem ok_of_isOk {α ε : Type} {result : Except ε α} (succeeded : result.isOk = true) :
    ∃ a, result = .ok a := by
  cases result with
  | ok a => exact ⟨a, rfl⟩
  | error e => cases succeeded

theorem step_openDb {freshUuid : Uuid} (kept : s.Shut db ∨ s.Opened db)
    (allowed : s.Allowed db (.openDb freshUuid)) (taken : step db s (.openDb freshUuid) = some t) :
    t.Opened db := by
  obtain ⟨sealed, unknown⟩ := allowed
  simp only [step, Option.ite_none_right_eq_some, Option.some.injEq] at taken
  obtain ⟨succeeded, rfl⟩ := taken
  obtain ⟨_, ended⟩ := ok_of_isOk succeeded
  have idle : s.phase ≠ .begun := by
    rw [sealed]
    decide
  refine ⟨idle, ?_⟩
  dsimp only
  rw [sealed]
  have reopened : ∀ image uuid payload, s.pages = image.map some → s.pool.Wf → s.pool.OnDisk db →
      s.pool.Described db uuid payload image →
      ∃ st, Pool.Transacting db st s.pages .sealed (Vfs.xOpen freshUuid .mainDb db.name true s.pool).state := by
    intro image uuid payload shape wf onDisk described
    rw [shape]
    exact (described.xOpen wf onDisk freshUuid true).ok ended
  rcases kept with shut | opened
  · rcases shut.image with ⟨fresh, blank⟩ | ⟨image, uuid, payload, shape, described⟩
    · have lacks := Pool.lacks_of_missing (fresh.missing _ db.mem_files)
      rw [blank]
      exact (fresh.opens shut.wf (unknown lacks)).ok ended
    · exact reopened image uuid payload shape shut.wf shut.onDisk described
  · obtain ⟨wf, onDisk, image, uuid, payload, shape, described⟩ := opened.described sealed
    exact reopened image uuid payload shape wf onDisk described

theorem step_transaction (plain : stripSuffix db.name journalSuffix = none) {change : Transaction}
    (kept : s.Shut db ∨ s.Opened db) (taken : step db s (.transaction change) = some t) :
    s.Opened db ∧ t.Opened db := by
  simp only [step, Option.ite_none_right_eq_some, Bool.and_eq_true, Option.map_eq_some_iff] at taken
  obtain ⟨⟨known, succeeded⟩, phase, turns, rfl⟩ := taken
  obtain ⟨_, ended⟩ := ok_of_isOk succeeded
  rcases kept with shut | opened
  · rw [Std.ExtTreeMap.contains_iff_mem, Std.ExtTreeMap.mem_iff_isSome_getElem?, shut.shut] at known
    cases known
  · obtain ⟨st, within⟩ := opened.open_db
    obtain ⟨idle, kept⟩ := (Pool.meets_transaction plain turns opened.idle within).ok ended
    exact ⟨opened, idle, kept⟩

theorem step_close (kept : s.Shut db ∨ s.Opened db) (sealed : s.phase = .sealed)
    (taken : step db s .close = some t) : t.Shut db := by
  obtain rfl := Option.some.inj taken
  rcases kept with shut | opened
  · refine ⟨Pool.Wf.reopen, shut.onDisk.reopen, Std.ExtTreeMap.getElem?_empty, sealed, ?_⟩
    rcases shut.image with ⟨fresh, blank⟩ | ⟨image, uuid, payload, shape, described⟩
    · exact .inl ⟨fresh.reopen _, blank⟩
    · exact .inr ⟨image, uuid, payload, shape, described.reopen shut.wf shut.onDisk⟩
  · obtain ⟨wf, onDisk, image, uuid, payload, shape, described⟩ := opened.described sealed
    exact ⟨Pool.Wf.reopen, onDisk.reopen, Std.ExtTreeMap.getElem?_empty, sealed,
      .inr ⟨image, uuid, payload, shape, described.reopen wf onDisk⟩⟩

theorem step_elsewhere {q : Pool} (kept : s.Shut db ∨ s.Opened db) (apart : s.pool.Elsewhere db q)
    (taken : step db s (.elsewhere q) = some t) : t.Shut db ∨ t.Opened db := by
  obtain rfl := Option.some.inj taken
  rcases kept with shut | opened
  · refine .inl ⟨apart.wf, apart.onDisk shut.onDisk, apart.dbs.trans shut.shut, shut.phase, ?_⟩
    rcases shut.image with ⟨fresh, blank⟩ | ⟨image, uuid, payload, shape, described⟩
    · exact .inl ⟨apart.new fresh, blank⟩
    · exact .inr ⟨image, uuid, payload, shape, described.elsewhere apart⟩
  · obtain ⟨st, within⟩ := opened.open_db
    exact .inr ⟨opened.idle, st, within.elsewhere apart⟩

/-- What every step keeps. -/
theorem step_kept (plain : stripSuffix db.name journalSuffix = none) {event : DbEvent}
    (kept : s.Shut db ∨ s.Opened db) (allowed : s.Allowed db event) (taken : step db s event = some t) :
    t.Shut db ∨ t.Opened db := by
  cases event with
  | openDb freshUuid => exact .inr (step_openDb kept allowed taken)
  | transaction change => exact .inr (step_transaction plain kept taken).2
  | close => exact .inl (step_close kept allowed taken)
  | elsewhere q => exact step_elsewhere kept allowed taken

theorem reached_kept (plain : stripSuffix db.name journalSuffix = none) {start : DbSession}
    (shut : start.Shut db) (reached : Runs.Reaches (step db) (Allowed db) start s) :
    s.Shut db ∨ s.Opened db :=
  reached.invariant (fun s => s.Shut db ∨ s.Opened db) (.inl shut)
    fun _ _ _ kept allowed taken => step_kept plain kept allowed taken

/-- A vault of which the database exists serves its image when it is opened again. -/
theorem serves_reopened (kept : s.Shut db ∨ s.Opened db) (sealed : s.phase = .sealed)
    (made : s.pool.hasFilename db.name = true) (next : Uuid) : ∃ image, s.pages = image.map some ∧
      (∃ uuid payload file, s.pool.readManifest (manifestName db.name) = .ok (uuid, payload) ∧
        payload.Records db.name image ∧ s.pool.files[db.name]? = some file ∧
        Pool.imageOf file.data db.name (.dbKey s.pool.dek uuid) uuid = some image) ∧
      (Vfs.xOpen next .mainDb db.name false (s.pool.reopen s.pool.dek)).result = .ok () ∧
      (Vfs.xOpen next .mainDb db.name false (s.pool.reopen s.pool.dek)).state.servedImage db.name =
        .ok image := by
  have held : s.pool.Wf ∧ s.pool.OnDisk db ∧ ∃ image uuid payload, s.pages = image.map some ∧
      s.pool.Described db uuid payload image := by
    rcases kept with shut | opened
    · rcases shut.image with ⟨fresh, _⟩ | described
      · obtain ⟨file, found⟩ := Pool.hasFilename_iff.mp made
        rw [fresh.missing _ db.mem_files] at found
        cases found
      · exact ⟨shut.wf, shut.onDisk, described⟩
    · exact opened.described sealed
  obtain ⟨wf, onDisk, image, uuid, payload, shape, described⟩ := held
  obtain ⟨opens, serves⟩ := described.reopens wf next
  obtain ⟨file, found, decrypts, _⟩ := described.main
  have there : (s.pool.reopen s.pool.dek).hasFilename db.name = true := by
    obtain ⟨again, found, _⟩ := (described.reopen wf onDisk).main
    exact Pool.hasFilename_iff.mpr ⟨again, found⟩
  have ran := Vfs.xOpen_there next there false
  exact ⟨image, shape, ⟨uuid, payload, file, described.read, described.records, found, decrypts⟩,
    ran.1.trans (congrArg _ opens), ran.2 ▸ serves⟩

/-- Calls with a journal never leave the main file unrecorded. -/
theorem turns_ne_stale {call : FileCall} {phase next : PagerPhase} (recorded : phase ≠ .stale)
    (turn : call.turns phase = some next) : next ≠ .stale := by
  have ended : phase.ended ≠ .stale := by cases phase <;> trivial
  cases call with
  | openJournal create =>
      simp only [FileCall.turns, Option.ite_none_left_eq_some, Option.some.injEq] at turn
      exact turn.2 ▸ recorded
  | writeJournal bytes offset =>
      simp only [FileCall.turns] at turn
      split at turn
      · split at turn
        · cases turn
          decide
        · rw [Option.ite_none_right_eq_some, Option.some.injEq] at turn
          exact turn.2 ▸ ended
      · rw [Option.ite_none_right_eq_some, Option.some.injEq] at turn
        exact turn.2 ▸ recorded
  | truncateJournal size =>
      simp only [FileCall.turns] at turn
      split at turn
      · exact Option.some.inj turn ▸ ended
      · rw [Option.ite_none_left_eq_some, Option.some.injEq] at turn
        exact turn.2 ▸ recorded
  | syncJournal => exact Option.some.inj turn ▸ recorded
  | deleteJournal => exact Option.some.inj turn ▸ ended
  | syncMain => exact Option.some.inj turn ▸ recorded
  | writeMain bytes offset =>
      simp only [FileCall.turns, Option.ite_none_right_eq_some, Option.some.injEq] at turn
      exact turn.2 ▸ by decide
  | truncateMain size =>
      simp only [FileCall.turns, Option.ite_none_right_eq_some, Option.some.injEq] at turn
      exact turn.2 ▸ by decide

/-- A transaction with a journal file that cuts nothing afterwards leaves the manifest sealed. -/
theorem turns_sealed {change : Transaction} {next : PagerPhase} (journaled : change.journaled = true)
    (uncut : change.shrink = none) (turns : change.turns .sealed = some next) : next = .sealed := by
  simp only [Transaction.turns, journaled, uncut, if_true, Option.isSome_none, Bool.false_eq_true, if_false,
    Option.bind_eq_some_iff, Option.ite_none_left_eq_some, Option.some.injEq] at turns
  obtain ⟨last, folded, idle, rfl⟩ := turns
  have recorded : ∀ (calls : List FileCall) (phase : PagerPhase), phase ≠ .stale →
      calls.foldlM FileCall.turns phase = some last → last ≠ .stale := by
    intro calls
    induction calls with
    | nil =>
        intro phase recorded folded
        exact Option.some.inj folded ▸ recorded
    | cons call rest ih =>
        intro phase recorded folded
        rw [List.foldlM_cons] at folded
        obtain ⟨next, turn, folded⟩ := Option.bind_eq_some_iff.mp folded
        exact ih next (turns_ne_stale recorded turn) folded
  have kept := recorded _ _ (by decide) folded
  cases last <;> trivial

theorem step_unjournaled (plain : stripSuffix db.name journalSuffix = none) {change : Transaction}
    (opened : s.Opened db) (unjournaled : change.journaled = false)
    (taken : step db s (.transaction change) = some t) :
    t.pool.readManifest (manifestName db.name) = s.pool.readManifest (manifestName db.name) := by
  simp only [step, Option.ite_none_right_eq_some, Bool.and_eq_true, Option.map_eq_some_iff] at taken
  obtain ⟨⟨_, succeeded⟩, phase, turns, rfl⟩ := taken
  obtain ⟨_, ended⟩ := ok_of_isOk succeeded
  obtain ⟨st, within⟩ := opened.open_db
  simp only [Transaction.turns, unjournaled, Bool.false_eq_true, if_false, Option.ite_none_right_eq_some,
    List.all_eq_true] at turns
  have ran := Pool.meets_unjournaled plain (Pool.pageCall_all turns.1) opened.idle within
  exact ((ran.ok ended).1.sameDb (Pool.manifestName_ne_self db.name)).readManifest

end Steps

end DbSession

open DbSession in
/-- In every run of transactions, openings and closings, a database whose main file has not been changed
without a journal since its manifest was sealed opens again with the pages its transactions have left. -/
theorem completed_commits_reopen {stem : FileName} (valid : validDbName stem = true) {start s : DbSession}
    (shut : start.Shut (sessionDb stem valid))
    (reached : Runs.Reaches (DbSession.step (sessionDb stem valid)) (DbSession.Allowed (sessionDb stem valid))
      start s) :
    let db := sessionDb stem valid
    (s.phase = .sealed → s.pool.hasFilename db.name = true → ∀ next, ∃ image, s.pages = image.map some ∧
      (∃ uuid payload file, s.pool.readManifest (manifestName db.name) = .ok (uuid, payload) ∧
        payload.Records db.name image ∧ s.pool.files[db.name]? = some file ∧
        Pool.imageOf file.data db.name (.dbKey s.pool.dek uuid) uuid = some image) ∧
      let reopened := Vfs.xOpen next .mainDb db.name false (s.pool.reopen s.pool.dek)
      reopened.result = .ok () ∧ reopened.state.servedImage db.name = .ok image) ∧
    ∀ (change : Transaction) (t : DbSession), DbSession.step db s (.transaction change) = some t →
      (change.journaled = true → change.shrink = none → s.phase = .sealed → t.phase = .sealed) ∧
      (change.journaled = false → t.pool.readManifest (manifestName db.name) =
        s.pool.readManifest (manifestName db.name)) := by
  intro db
  have plain : stripSuffix db.name journalSuffix = none := stripSuffix_sessionDb
  have kept := reached_kept plain shut reached
  refine ⟨fun sealed made next => serves_reopened kept sealed made next, fun change t taken => ⟨?_, ?_⟩⟩
  · intro journaled uncut sealed
    simp only [DbSession.step, Option.ite_none_right_eq_some, Option.map_eq_some_iff] at taken
    obtain ⟨_, phase, turns, rfl⟩ := taken
    exact turns_sealed journaled uncut (sealed ▸ turns)
  · intro unjournaled
    exact step_unjournaled plain (step_transaction plain kept taken).1 unjournaled taken

namespace ReopenSample

/-- The database `a.db`. -/
def db : DbName := sessionDb ['a'] (by decide)

def start : DbSession := ⟨OpenFiles.sampleDirectory.reopen 0, [], .sealed⟩

theorem start_shut : start.Shut db := by
  have missing : OpenFiles.sampleDirectory.New db := ⟨fun _ _ => Std.ExtTreeMap.getElem?_empty,
    Std.ExtTreeMap.getElem?_empty⟩
  exact ⟨Pool.Wf.reopen, (missing.reopen 0).onDisk Pool.Wf.reopen, Std.ExtTreeMap.getElem?_empty, rfl,
    .inl ⟨missing.reopen 0, rfl⟩⟩

def page : List UInt8 := TornSample.page.toList

/-- The first page is written with a journal. -/
def journaled : Transaction where
  journaled := true
  calls := [.openJournal true, .writeJournal BarrierSample.header.toList 0, .writeMain page 0, .syncMain,
    .deleteJournal]
  shrink := none

/-- The first page is written in a mode without a journal file. -/
def unjournaled : Transaction := ⟨false, [.writeMain page 0, .syncMain], none⟩

/-- The new database. -/
def opened : Pool := (Vfs.xOpen 5 .mainDb db.name true start.pool).state

/-- Its journal is opened. -/
def begun : Pool := ((FileCall.openJournal true).run db.name opened).state

def journal : SyncAccessFile where
  header := some ⟨journalName db.name, by decide⟩
  data := .empty
  crypto := .dbKey 0 5
  fileId := fileIdFor (journalName db.name)
  keyDomain := 5
  isMainDb := false
  logicalSize := some 0

/-- The header is in the journal. -/
def hot : Pool :=
  (begun.modifyFile (journalName db.name) fun file =>
    { file with data := file.data.writeCell 0 (file.sealCell 0 BarrierSample.header) }).modifyFile
      (journalName db.name) fun file => { file with logicalSize := some blockSize }

/-- A block that is written in one piece. -/
theorem writeBlocks_whole {name : FileName} {q : Pool} {file : SyncAccessFile} {block : Block}
    (found : q.files[name]? = some file) : Pool.writeBlocks name 0 block.toList q =
      ⟨[q], q.modifyFile name fun file =>
        { file with data := file.data.writeCell 0 (file.sealCell 0 block) }, .ok ()⟩ := by
  have whole : block.toList.length = blockSize := Vector.length_toList
  have more : block.toList ≠ [] := by
    intro blank
    rw [blank] at whole
    cases whole
  have same : overlay zeroBlock 0 block.toList = block := by
    apply Vector.ext
    intro i inside
    rw [getElem_overlay, if_pos (Nat.zero_le i), Nat.sub_zero, List.getD_eq_getElem _ _ (by omega),
      Vector.getElem_toList]
  have rest : Pool.writeBlocks name (0 + block.toList.length) [] = (Prog.pure () : VfsM Unit) := by
    rw [Pool.writeBlocks, dif_neg (not_not.mpr rfl)]
  rw [Pool.writeBlocks, dif_pos more]
  rw [Nat.zero_div, Nat.zero_mod, Nat.sub_zero, List.take_of_length_le (Nat.le_of_eq whole),
    List.drop_of_length_le (Nat.le_of_eq whole), rest, Pool.withFile, Prog.get_bind]
  simp only [found, SyncAccessFile.overlaid, if_pos whole, same, Prog.ofExcept_ok_bind]
  rfl

theorem header_written :
    (FileCall.writeJournal BarrierSample.header.toList 0).run db.name begun = ⟨[begun], hot, .ok ()⟩ := by
  have found : begun.files[journalName db.name]? = some journal := by decide +kernel
  have whole : BarrierSample.header.toList.length = blockSize := Vector.length_toList
  have more : BarrierSample.header.toList ≠ [] := by
    intro blank
    rw [blank] at whole
    cases whole
  have idle : ¬((0 : Int) = 0 ∧ 8 ≤ BarrierSample.header.toList.length ∧
      (!journalMagic.isPrefixOf BarrierSample.header.toList) = true) := by
    rintro ⟨_, _, unmarked⟩
    exact absurd unmarked (by decide +kernel)
  have wrote : Pool.write (journalName db.name) BarrierSample.header.toList 0 begun =
      ⟨[begun], hot, .ok ()⟩ := by
    unfold Pool.write Pool.withFile
    rw [Prog.get_bind]
    simp only [found, if_neg more, SyncAccessFile.pageSizeCheck, journal, Bool.false_eq_true, false_and,
      if_false, Prog.ofExcept_ok_bind]
    rw [Prog.bind_of_ok (writeBlocks_whole found), whole]
    rfl
  show Vfs.xWrite (journalName db.name) BarrierSample.header.toList 0 begun = _
  unfold Vfs.xWrite
  rw [if_neg (by decide), if_neg idle]
  exact wrote

theorem forEach_of_ok {σ ε β : Type} {body : β → Prog σ ε Unit} {item : β} {s t : σ} {passed : List σ}
    (ran : body item s = ⟨passed, t, .ok ()⟩) (rest : List β) : Prog.forEach body (item :: rest) s =
      ⟨passed ++ (Prog.forEach body rest t).passed, (Prog.forEach body rest t).state,
        (Prog.forEach body rest t).result⟩ := Prog.bind_of_ok ran

/-- The calls after it. -/
def rest : List FileCall := [.writeMain page 0, .syncMain, .deleteJournal]

theorem journaled_run : ∃ passed, journaled.run db.name opened =
    ⟨passed, (Prog.forEach (FileCall.run db.name) rest hot).state,
      (Prog.forEach (FileCall.run db.name) rest hot).result⟩ := by
  have ends : ((FileCall.openJournal true).run db.name opened).result.isOk = true := by decide +kernel
  obtain ⟨_, ended⟩ := DbSession.ok_of_isOk ends
  have began : (FileCall.openJournal true).run db.name opened =
      ⟨((FileCall.openJournal true).run db.name opened).passed, begun, .ok ()⟩ :=
    congrArg (Outcome.mk _ _) ended
  have all : journaled.all = .openJournal true :: .writeJournal BarrierSample.header.toList 0 :: rest := by
    simp only [Transaction.all, journaled, rest, Option.map_none, Option.toList_none, List.append_nil]
  have ran := forEach_of_ok began (.writeJournal BarrierSample.header.toList 0 :: rest)
  rw [forEach_of_ok header_written rest, ← all] at ran
  dsimp only at ran
  exact ⟨_, ran⟩

def created : DbSession := ⟨opened, [], .sealed⟩

theorem created_reached : Runs.Reaches (DbSession.step db) (DbSession.Allowed db) start created := by
  have done : (Vfs.xOpen 5 .mainDb db.name true start.pool).result.isOk = true := by decide +kernel
  have opens : DbSession.step db start (.openDb 5) = some created := by
    unfold DbSession.step
    exact if_pos done
  have allowed : start.Allowed db (.openDb 5) := ⟨rfl, fun _ => by decide +kernel⟩
  exact .next .start allowed opens

theorem created_open : created.pool.dbs.contains db.name = true := by decide +kernel

/-- The transaction with a journal completes. -/
theorem journaled_completes : ∃ s, Runs.Reaches (DbSession.step db) (DbSession.Allowed db) start s ∧
    s.phase = .sealed ∧ s.pool.hasFilename db.name = true ∧ s.pages = [some (pageOf page)] := by
  obtain ⟨passed, ran⟩ := journaled_run
  have turns : journaled.turns .sealed = some .sealed := by decide +kernel
  have done : (Prog.forEach (FileCall.run db.name) rest hot).result.isOk = true := by decide +kernel
  have commits : DbSession.step db created (.transaction journaled) =
      some ⟨(Prog.forEach (FileCall.run db.name) rest hot).state, journaled.pages [], .sealed⟩ := by
    have known := created_open
    simp only [DbSession.step, created] at known ⊢
    simp only [ran, known, done, Bool.and_self, if_true, turns, Option.map_some]
  have permitted : created.Allowed db (.transaction journaled) := trivial
  exact ⟨_, .next created_reached permitted commits, rfl, by decide +kernel, rfl⟩

end ReopenSample

open ReopenSample in
theorem committed_page_reopens : ∃ s image, Runs.Reaches (DbSession.step db) (DbSession.Allowed db) start s ∧
    s.pages = image.map some ∧ image.length = 1 ∧
    let reopened := Vfs.xOpen 9 .mainDb db.name false (s.pool.reopen s.pool.dek)
    reopened.result = .ok () ∧ reopened.state.servedImage db.name = .ok image := by
  obtain ⟨s, reached, sealed, made, written⟩ := journaled_completes
  obtain ⟨image, shape, _, serves⟩ :=
    (completed_commits_reopen (by decide) start_shut reached).1 sealed made 9
  refine ⟨s, image, reached, shape, ?_, serves⟩
  rw [← List.length_map some, ← shape, written]
  rfl

open ReopenSample in
/-- A page written in a mode without a journal file: the manifest still records an empty main file. -/
theorem unjournaled_page_lost : ∃ s, Runs.Reaches (DbSession.step db) (DbSession.Allowed db) start s ∧
    s.pages = [some (pageOf page)] ∧
    ∃ e, (Vfs.xOpen 9 .mainDb db.name false (s.pool.reopen s.pool.dek)).result = .error e := by
  have turns : unjournaled.turns .sealed = some .stale := by decide +kernel
  have done : (unjournaled.run db.name opened).result.isOk = true := by decide +kernel
  have writes : DbSession.step db created (.transaction unjournaled) =
      some ⟨(unjournaled.run db.name opened).state, unjournaled.pages [], .stale⟩ := by
    have known := created_open
    simp only [DbSession.step, created] at known ⊢
    simp only [known, done, Bool.and_self, if_true, turns, Option.map_some]
  have permitted : created.Allowed db (.transaction unjournaled) := trivial
  refine ⟨_, .next created_reached permitted writes, rfl, ?_⟩
  have refused : (Vfs.xOpen 9 .mainDb db.name false ((unjournaled.run db.name opened).state.reopen
      (unjournaled.run db.name opened).state.dek)).result.isOk = false := by decide +kernel
  dsimp only
  cases shape : (Vfs.xOpen 9 .mainDb db.name false ((unjournaled.run db.name opened).state.reopen
      (unjournaled.run db.name opened).state.dek)).result with
  | ok a =>
      rw [shape] at refused
      cases refused
  | error e => exact ⟨e, rfl⟩

end Freehold
