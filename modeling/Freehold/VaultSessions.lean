import Freehold.CommittedImages
import Freehold.EpochTokens

set_option autoImplicit false

/- Vaults of several databases: calls on one of them leave the others alone. -/
namespace Freehold

open CrashLogic

/-- The uuids of an anchor table. -/
def AnchorTable.uuids (table : AnchorTable) : Finset Uuid := (table.entries.map fun e => e.uuid).toFinset

theorem AnchorTable.card_uuids (table : AnchorTable) : table.uuids.card = table.entries.length := by
  rw [uuids, List.toFinset_card_of_nodup table.distinct, List.length_map]

theorem AnchorTable.mem_uuids {table : AnchorTable} {uuid : Uuid} :
    uuid ∈ table.uuids ↔ table.find uuid ≠ none := by
  rw [Option.ne_none_iff_exists', uuids, List.mem_toFinset, List.mem_map]
  simp only [Pool.find_eq_some]

/-- A saved window adds at most its own uuid. -/
theorem AnchorTable.uuids_subset {table next : AnchorTable} {uuid : Uuid}
    {committed inFlight epochFloor : Option Nat}
    (saved : anchorUpsert uuid committed inFlight epochFloor table = some next) :
    next.uuids ⊆ insert uuid table.uuids := by
  intro mine held
  by_cases same : mine = uuid
  · exact Finset.mem_insert.mpr (.inl same)
  · rw [mem_uuids, find_anchorUpsert saved, if_neg same, ← mem_uuids] at held
    exact Finset.mem_insert_of_mem held

namespace Pool

/-- The uuids that have a window. -/
def windowed (p : Pool) : Finset Uuid := (anchorLoad p.dek p.anchor).2.uuids

theorem mem_windowed {p : Pool} {uuid : Uuid} : uuid ∈ p.windowed ↔ p.window uuid ≠ none :=
  AnchorTable.mem_uuids

theorem card_windowed (p : Pool) : p.windowed.card ≤ anchorCap := by
  rw [windowed, AnchorTable.card_uuids]
  exact AnchorTable.fits _

/-- A window can be saved if it is there, or if the table is not full. -/
theorem recordable {p : Pool} {uuid : Uuid} {committed inFlight epochFloor : Option Nat}
    (room : (insert uuid p.windowed).card ≤ anchorCap) :
    anchorUpsert uuid committed inFlight epochFloor (anchorLoad p.dek p.anchor).2 ≠ none := by
  rw [anchorUpsert_ne_none]
  by_cases present : uuid ∈ (anchorLoad p.dek p.anchor).2.entries.map fun e => e.uuid
  · exact .inl present
  · right
    have absent : uuid ∉ p.windowed := by simpa [windowed, AnchorTable.uuids] using present
    rw [Finset.card_insert_of_notMem absent, windowed, AnchorTable.card_uuids] at room
    omega

/-- The files the calls on a database may touch. -/
def Owns (name other : FileName) : Prop :=
  other = name ∨ other = manifestName name ∨ satelliteParent other = some name

/-- Nothing else is touched, and no window but that of `uuid` is moved. -/
structure Beside (name : FileName) (uuid : Uuid) (p q : Pool) : Prop where
  dek : q.dek = p.dek
  files : ∀ other, ¬Owns name other → q.files[other]? = p.files[other]?
  dbs : ∀ other ≠ name, q.dbs[other]? = p.dbs[other]?
  own : ∀ st, q.dbs[name]? = some st → st.uuid = uuid
  windows : ∀ other ≠ uuid, q.window other = p.window other
  anchored : p.window uuid ≠ none → q.window uuid ≠ none

section Names

variable {name other : FileName}

theorem owns_self (name : FileName) : Owns name name := .inl rfl

theorem owns_manifest (name : FileName) : Owns name (manifestName name) := .inr (.inl rfl)

theorem satelliteParent_journalName (name : FileName) : satelliteParent (journalName name) = some name := by
  rw [satelliteParent, journalName, stripSuffix_append, Option.some_or]

theorem owns_journal (name : FileName) : Owns name (journalName name) :=
  .inr (.inr (satelliteParent_journalName name))

theorem satelliteParent_db (isDb : endsWith name dbSuffix = true) : satelliteParent name = none := by
  have apart (suffix : FileName) (listed : suffix = journalSuffix ∨ suffix = walSuffix) :
      endsWith name suffix = false := by
    rcases listed with rfl | rfl
    · exact not_endsWith_of_endsWith isDb (by decide)
    · exact not_endsWith_of_endsWith isDb (by decide)
  simp only [satelliteParent, stripSuffix, apart journalSuffix (by simp), apart walSuffix (by simp),
    Bool.false_eq_true, if_false, Option.none_or]

theorem db_ne_manifestName (isDb : endsWith name dbSuffix = true) : name ≠ manifestName other := by
  intro same
  have apart : endsWith name manifestSuffix = false := not_endsWith_of_endsWith isDb (by decide)
  rw [same, manifestName, endsWith_append] at apart
  cases apart

/-- Two databases share no file. -/
theorem not_owns {db : DbName} (apart : db.name ≠ name) (isDb : endsWith db.name dbSuffix = true)
    (named : endsWith name dbSuffix = true) : ∀ other ∈ db.files, ¬Owns name other := by
  intro other listed
  simp only [DbName.files, List.mem_cons, List.not_mem_nil, or_false] at listed
  rcases listed with rfl | rfl | rfl
  · rintro (same | same | parent)
    · exact apart same
    · exact db_ne_manifestName isDb same
    · rw [satelliteParent_db isDb] at parent
      cases parent
  · rintro (same | same | parent)
    · have none_of := satelliteParent_db named
      rw [← same, satelliteParent_journalName] at none_of
      cases none_of
    · exact journalName_ne_manifestName _ _ same
    · rw [satelliteParent_journalName] at parent
      exact apart (Option.some.inj parent)
  · rintro (same | same | parent)
    · exact db_ne_manifestName named same.symm
    · exact apart (manifestName_injective same)
    · rw [satelliteParent_manifestName] at parent
      cases parent

end Names

namespace Beside

variable {name other : FileName} {uuid : Uuid} {p q r : Pool}

theorem refl (own : ∀ st, p.dbs[name]? = some st → st.uuid = uuid) : Beside name uuid p p :=
  ⟨rfl, fun _ _ => rfl, fun _ _ => rfl, own, fun _ _ => rfl, id⟩

theorem trans (first : Beside name uuid p q) (second : Beside name uuid q r) : Beside name uuid p r :=
  ⟨second.dek.trans first.dek, fun other free => (second.files other free).trans (first.files other free),
    fun other apart => (second.dbs other apart).trans (first.dbs other apart), second.own,
    fun other apart => (second.windows other apart).trans (first.windows other apart),
    fun held => second.anchored (first.anchored held)⟩

/-- Other files in other slots. -/
theorem withFiles (beside : Beside name uuid p q) {files : Std.ExtTreeMap FileName SyncAccessFile}
    (available : List SyncAccessFile)
    (kept : ∀ other, ¬Owns name other → files[other]? = q.files[other]?) :
    Beside name uuid p { q with files := files, available := available } :=
  ⟨beside.dek, fun other free => (kept other free).trans (beside.files other free), beside.dbs, beside.own,
    beside.windows, beside.anchored⟩

theorem modifyFile (beside : Beside name uuid p q) (owned : Owns name other)
    (f : SyncAccessFile → SyncAccessFile) : Beside name uuid p (q.modifyFile other f) := by
  apply beside.withFiles
  intro another free
  have apart : other ≠ another := fun same => free (same ▸ owned)
  rw [Std.ExtTreeMap.getElem?_modify, if_neg (by simpa using apart)]

theorem unmapSlot (beside : Beside name uuid p q) (owned : Owns name other) :
    Beside name uuid p (Pool.unmapSlot other q) := by
  cases found : q.files[other]? with
  | none =>
      rw [Pool.unmapSlot, found]
      exact beside
  | some file =>
      rw [unmapSlot_of_some found]
      apply beside.withFiles
      intro another free
      have apart : other ≠ another := fun same => free (same ▸ owned)
      rw [Std.ExtTreeMap.getElem?_erase, if_neg (by simpa using apart)]

theorem mapSlot (beside : Beside name uuid p q) (owned : Owns name other) (header : Option HeaderName) :
    Beside name uuid p (Pool.mapSlot other header q) := by
  cases free : q.available with
  | nil =>
      rw [Pool.mapSlot, free]
      exact beside
  | cons slot rest =>
      rw [mapSlot_of_cons free]
      apply beside.withFiles
      intro another free
      have apart : other ≠ another := fun same => free (same ▸ owned)
      rw [Std.ExtTreeMap.getElem?_insert, if_neg (by simpa using apart)]

theorem bindSatellites (beside : Beside name uuid p q) (kdb : Key) (payload : ManifestPayload) :
    Beside name uuid p (Pool.bindSatellites name kdb uuid payload q) := by
  apply beside.withFiles
  intro another free
  rw [Std.ExtTreeMap.getElem?_map]
  cases q.files[another]? with
  | none => rfl
  | some file =>
      rw [Option.map_some, if_neg]
      exact fun parent => free (.inr (.inr parent))

/-- The database opened, or in another state. -/
theorem insertDb (beside : Beside name uuid p q) {st : DbState} (own : st.uuid = uuid) :
    Beside name uuid p { q with dbs := q.dbs.insert name st } := by
  refine ⟨beside.dek, beside.files, fun other apart => ?_, fun st' known => ?_, beside.windows,
    beside.anchored⟩
  · rw [Std.ExtTreeMap.getElem?_insert, if_neg (by simpa using Ne.symm apart)]
    exact beside.dbs other apart
  · rw [Std.ExtTreeMap.getElem?_insert_self, Option.some.injEq] at known
    rw [← known]
    exact own

theorem window_savedOnce {committed inFlight epochFloor : Option Nat} {table : AnchorTable}
    (saved : anchorUpsert uuid committed inFlight epochFloor (anchorLoad q.dek q.anchor).2 = some table)
    (other : Uuid) : (q.savedOnce table).window other = if other = uuid then
        some (((q.window uuid).getD ⟨uuid, 0, 0, 0⟩).raise committed inFlight epochFloor)
      else q.window other := by
  have found := find_anchorUpsert saved other
  have loaded : (q.savedOnce table).window other = table.find other := by
    show (anchorLoad q.dek (q.savedOnce table).anchor).2.find other = _
    rw [anchorLoad_savedOnce]
  rw [loaded, found]
  rfl

theorem savedOnce (beside : Beside name uuid p q) {committed inFlight : Option Nat} {table : AnchorTable}
    (saved : anchorUpsert uuid committed inFlight none (anchorLoad q.dek q.anchor).2 = some table) :
    Beside name uuid p (q.savedOnce table) ∧ (q.savedOnce table).window uuid ≠ none := by
  have there : (q.savedOnce table).window uuid ≠ none := by
    rw [window_savedOnce saved, if_pos rfl]
    exact Option.some_ne_none _
  refine ⟨⟨beside.dek, beside.files, beside.dbs, beside.own, fun other apart => ?_, fun _ => there⟩, there⟩
  rw [window_savedOnce saved, if_neg apart]
  exact beside.windows other apart

/-- A window that is recorded is there afterwards. -/
theorem meets_anchorRecord (beside : Beside name uuid p q) (committed inFlight : Option Nat) :
    (Pool.anchorRecord uuid committed inFlight q).Meets (Beside name uuid p)
      (fun _ r => Beside name uuid p r ∧ r.window uuid ≠ none) fun _ => Beside name uuid p := by
  cases saved : anchorUpsert uuid committed inFlight none (anchorLoad q.dek q.anchor).2 with
  | none =>
      have refused := anchorRecordFull_none saved
      rw [anchorRecord, refused]
      exact ⟨fun _ passed => absurd passed List.not_mem_nil, beside⟩
  | some table =>
      have recorded := anchorRecordFull_some saved
      rw [Option.isSome_none, if_neg Bool.false_ne_true] at recorded
      rw [anchorRecord, recorded]
      refine ⟨fun r passed => ?_, beside.savedOnce saved⟩
      rw [List.mem_singleton.mp passed]
      exact beside

theorem keptByWrites (owned : Owns name other) : KeptByWrites other (Beside name uuid p) :=
  fun f _ _ beside => beside.modifyFile owned f

theorem keeps_anchorRecord (committed inFlight : Option Nat) :
    Keeps (Beside name uuid p) (Pool.anchorRecord uuid committed inFlight) :=
  fun _ beside => (beside.meets_anchorRecord committed inFlight).mono (fun _ kept => kept)
    (fun _ _ both => both.1) fun _ _ kept => kept

theorem keeps_deleteFile (owned : Owns name other) : Keeps (Beside name uuid p) (Pool.deleteFile other) := by
  unfold Pool.deleteFile
  apply keeps_get_bind
  intro pool _
  split
  · apply keeps_bind (keeps_effect fun q beside => beside.modifyFile owned _)
    intro _
    apply keeps_bind (keeps_effect fun q beside => beside.unmapSlot owned)
    intro _
    exact keeps_pure true
  · exact keeps_pure false

theorem keeps_withNewFile (owned : Owns name other) {body : PoolM Unit}
    (kept : Keeps (Beside name uuid p) body) : Keeps (Beside name uuid p) (Pool.withNewFile other body) := by
  have mapped : ∀ header q, Beside name uuid p q → Beside name uuid p (Pool.mapSlot other header q) :=
    fun header q beside => beside.mapSlot owned header
  unfold Pool.withNewFile
  apply keeps_get_bind
  intro pool _
  split
  · exact keeps_fail _
  · split
    · exact keeps_fail _
    · split
      · exact keeps_bind (keeps_modify (mapped none)) fun _ => keeps_fail _
      · split
        · exact keeps_bind (keeps_modify (mapped none)) fun _ => keeps_fail _
        · exact keeps_bind (keeps_effect (mapped _)) fun _ => kept

theorem keeps_onMainSynced : Keeps (Beside name uuid p) (Pool.onMainSynced name) := by
  unfold Pool.onMainSynced
  apply keeps_get_bind
  intro pool beside
  split
  · exact keeps_pure ()
  · next st known =>
    obtain rfl := beside.own st known
    apply keeps_bind (keeps_anchorRecord _ _)
    intro _
    apply keeps_get_bind
    intro pool _
    apply keeps_bind (keeps_ofExcept _)
    intro merkleRoot
    split
    · apply keeps_bind (keeps_effect fun q beside => beside.modifyFile (owns_manifest name) _)
      intro _
      apply keeps_bind (keeps_anchorRecord _ _)
      intro _
      exact keeps_modify fun q beside => beside.insertDb rfl
    · exact keeps_fail _

theorem keeps_finalizes (owned : ∀ parent, stripSuffix other journalSuffix = some parent → parent = name) :
    Keeps (Beside name uuid p) (Pool.finalizes other) := by
  unfold Pool.finalizes
  split
  · next parent stripped =>
      obtain rfl := owned parent stripped
      unfold Pool.journalFinalizeBarrier
      apply keeps_get_bind
      intro pool _
      split
      · split
        · exact keeps_onMainSynced
        · exact keeps_pure ()
      · split
        · exact keeps_fail _
        · exact keeps_pure ()
      · exact keeps_pure ()
  · exact keeps_pure ()

theorem keeps_xOpenImpl (owned : Owns name other) (create : Bool) :
    Keeps (Beside name uuid p) (Vfs.xOpenImpl other create) := by
  unfold Vfs.xOpenImpl
  apply keeps_get_bind
  intro pool _
  split
  · exact keeps_pure ()
  · split
    · exact keeps_asVfs _ (keeps_withNewFile owned (keeps_pure ()))
    · exact keeps_fail _

theorem keeps_bindSatellite (owned : Owns name other) :
    Keeps (Beside name uuid p) (Pool.bindSatellite other) := by
  unfold Pool.bindSatellite
  apply keeps_get_bind
  intro pool _
  split
  · exact keeps_pure ()
  · split
    · exact keeps_pure ()
    · split
      · exact keeps_fail _
      · exact keeps_modify fun q beside => beside.modifyFile owned _

section Calls

variable (parents : ∀ parent, stripSuffix other journalSuffix = some parent → parent = name)

include parents

theorem keeps_xWrite (owned : Owns name other) (bytes : List UInt8) (offset : Int) :
    Keeps (Beside name uuid p) (Vfs.xWrite other bytes offset) := by
  unfold Vfs.xWrite
  split
  · exact keeps_fail _
  · split
    · exact keeps_bind (keeps_asVfs _ (keeps_finalizes parents)) fun _ =>
        keeps_write (keptByWrites owned) _ _
    · exact keeps_write (keptByWrites owned) _ _

theorem keeps_xTruncate (owned : Owns name other) (size : Int) :
    Keeps (Beside name uuid p) (Vfs.xTruncate other size) := by
  unfold Vfs.xTruncate
  split
  · exact keeps_fail _
  · split
    · exact keeps_bind (keeps_asVfs _ (keeps_finalizes parents)) fun _ =>
        keeps_truncate (keptByWrites owned) _
    · exact keeps_truncate (keptByWrites owned) _

end Calls

/-- The calls of a transaction. -/
theorem keeps_run (plain : stripSuffix name journalSuffix = none) (call : FileCall) :
    Keeps (Beside name uuid p) (call.run name) := by
  have main : ∀ parent, stripSuffix name journalSuffix = some parent → parent = name := by
    intro parent stripped
    rw [plain] at stripped
    cases stripped
  have journal : ∀ parent, stripSuffix (journalName name) journalSuffix = some parent → parent = name := by
    intro parent stripped
    rw [journalName, stripSuffix_append] at stripped
    exact (Option.some.inj stripped).symm
  have owned := owns_journal name
  cases call with
  | openJournal create =>
      exact keeps_bind (keeps_xOpenImpl owned create) fun _ => keeps_asVfs _ (keeps_bindSatellite owned)
  | writeJournal bytes offset => exact keeps_xWrite journal owned bytes offset
  | truncateJournal size => exact keeps_xTruncate journal owned size
  | syncJournal => exact keeps_withFile fun _ => keeps_pure ()
  | deleteJournal =>
      apply keeps_bind (keeps_asVfs _ (keeps_finalizes journal))
      intro _
      exact keeps_bind (keeps_asVfs _ (keeps_deleteFile owned)) fun _ => keeps_pure ()
  | writeMain bytes offset => exact keeps_xWrite main (owns_self name) bytes offset
  | truncateMain size => exact keeps_xTruncate main (owns_self name) size
  | syncMain => exact keeps_withFile fun _ => keeps_pure ()

theorem keeps_writeManifestSlot (kdb : Key) (payload : ManifestPayload) :
    Keeps (Beside name uuid p) (Pool.writeManifestSlot kdb (manifestName name) payload) :=
  keeps_effect fun _ beside => beside.modifyFile (owns_manifest name) _

theorem keeps_sealRootMigration : Keeps (Beside name uuid p) (Pool.sealRootMigration name) := by
  unfold Pool.sealRootMigration
  apply keeps_get_bind
  intro pool beside
  split
  · exact keeps_pure ()
  · next st known =>
    apply keeps_bind (keeps_ofExcept _)
    intro merkleRoot
    split
    · exact keeps_pure ()
    · dsimp only
      split
      · exact keeps_bind (keeps_writeManifestSlot _ _) fun _ =>
          keeps_modify fun q kept => kept.insertDb (beside.own st known)
      · exact keeps_fail _

theorem keeps_checkMain (kdb : Key) (payload : ManifestPayload) :
    Keeps (Beside name uuid p) (Pool.checkMain name kdb uuid payload) := by
  have bound : ∀ logical q, Beside name uuid p q →
      Beside name uuid p (Pool.bindMain name kdb uuid logical q) :=
    fun _ _ beside => beside.modifyFile (owns_self name) _
  unfold Pool.checkMain
  apply keeps_bind (keeps_modify (bound none))
  intro _
  apply keeps_get_bind
  intro pool _
  apply keeps_bind (keeps_ofExcept _)
  intro logical
  apply keeps_bind (keeps_modify (bound _))
  intro _
  apply keeps_bind (keeps_modify fun q beside => beside.bindSatellites kdb payload)
  intro _
  apply keeps_get_bind
  intro pool _
  apply keeps_bind (keeps_ofExcept _)
  intro _
  apply keeps_bind (keeps_modify fun q beside => beside.insertDb rfl)
  intro _
  split
  · exact keeps_sealRootMigration
  · exact keeps_pure ()

/-- A program after the window has been recorded. -/
theorem meets_after_record {α : Type} (committed inFlight : Option Nat) {next : Unit → PoolM α}
    (kept : ∀ q, Keeps (Beside name uuid q) (next ())) (own : ∀ st, p.dbs[name]? = some st → st.uuid = uuid) :
    ((Pool.anchorRecord uuid committed inFlight >>= next) p).Meets (fun _ => True)
      (fun _ r => Beside name uuid p r ∧ r.window uuid ≠ none) fun _ _ => True := by
  have recorded := (refl own : Beside name uuid p p).meets_anchorRecord committed inFlight
  apply meets_bind (fun _ r => Beside name uuid p r ∧ r.window uuid ≠ none)
  · exact recorded.mono (fun _ _ => trivial) (fun _ _ both => both) fun _ _ _ => trivial
  · rintro _ r ⟨beside, there⟩
    refine (kept r r (refl beside.own)).mono (fun _ _ => trivial) (fun _ s later => ?_) fun _ _ _ => trivial
    exact ⟨beside.trans later, later.anchored there⟩

theorem meets_openVerified (payload : ManifestPayload)
    (own : ∀ st, p.dbs[name]? = some st → st.uuid = uuid) :
    (Pool.openVerified name uuid payload p).Meets (fun _ => True)
      (fun _ r => Beside name uuid p r ∧ r.window uuid ≠ none) fun _ _ => True := by
  unfold Pool.openVerified
  apply meets_get_bind
  apply meets_ofExcept_bind
  · intro _ _
    exact meets_after_record _ _ (fun q => keeps_checkMain _ payload) own
  · exact fun _ _ => trivial

theorem meets_openCreated (shut : p.dbs[name]? = none) :
    (Pool.openCreated uuid name p).Meets (fun _ => True)
      (fun _ r => Beside name uuid p r ∧ r.window uuid ≠ none) fun _ _ => True := by
  have own : ∀ st, p.dbs[name]? = some st → st.uuid = uuid := by
    intro st known
    rw [shut] at known
    cases known
  let made (r : Pool) : Prop := Beside name uuid p r ∧ r.window uuid ≠ none
  unfold Pool.openCreated
  apply meets_bind (fun st r => made r ∧ st.uuid = uuid)
  · unfold Pool.createManifest
    apply meets_get_bind
    dsimp only
    apply meets_bind (fun _ r => Beside name uuid p r)
    · refine (keeps_withNewFile (owns_manifest name) ?_ p (refl own)).mono (fun _ _ => trivial)
        (fun _ _ kept => kept) fun _ _ _ => trivial
      apply keeps_bind (keeps_effect fun q beside => beside.modifyFile (owns_manifest name) _)
      exact fun _ => keeps_writeManifestSlot _ _
    · intro _ q beside
      apply meets_bind (fun _ r => made r)
      · exact (beside.meets_anchorRecord _ _).mono (fun _ _ => trivial) (fun _ _ both => both)
          fun _ _ _ => trivial
      · rintro _ r ⟨kept, there⟩
        apply meets_modify_bind
        exact meets_pure ⟨⟨kept.insertDb rfl, there⟩, rfl⟩
  · rintro st r ⟨⟨kept, there⟩, same⟩
    apply meets_modify
    exact ⟨kept.modifyFile (owns_self name) _, there⟩

/-- The uuid a database is opened under: that of its manifest, or a new one. -/
def openedAs (freshUuid : Uuid) (name : FileName) (p : Pool) : Uuid :=
  match p.readManifest (manifestName name) with
  | .ok (uuid, _) => uuid
  | .error _ => freshUuid

/-- A database that is open has its manifest. -/
def Backed (name : FileName) (p : Pool) : Prop :=
  ∀ st, p.dbs[name]? = some st → ∃ payload, p.readManifest (manifestName name) = .ok (st.uuid, payload)

theorem meets_openMainDb {db : DbName} (backed : Backed db.name p) (freshUuid : Uuid) :
    (Pool.openMainDb freshUuid db.name p).Meets (fun _ => True)
      (fun _ r => Beside db.name (openedAs freshUuid db.name p) p r ∧
        r.window (openedAs freshUuid db.name p) ≠ none) fun _ _ => True := by
  cases read : p.readManifest (manifestName db.name) with
  | error e =>
      have shut : p.dbs[db.name]? = none := by
        cases known : p.dbs[db.name]? with
        | none => rfl
        | some st =>
            obtain ⟨payload, found⟩ := backed st known
            rw [read] at found
            cases found
      have as_new : openedAs freshUuid db.name p = freshUuid := by rw [openedAs, read]
      rw [as_new]
      by_cases refused : ∀ main, p.files[db.name]? = some main → main.data.size ≠ 0
      · obtain ⟨e', ran⟩ := @openMainDb_refused db p freshUuid refused e read
        rw [ran]
        exact ⟨fun _ _ => trivial, trivial⟩
      · push Not at refused
        obtain ⟨main, there, blank⟩ := refused
        have dropped : Beside db.name freshUuid p (p.dropped (manifestName db.name)) := by
          have none_open : ∀ st, p.dbs[db.name]? = some st → st.uuid = freshUuid := by
            intro st known
            rw [shut] at known
            cases known
          rw [Pool.dropped]
          split
          · exact Beside.unmapSlot ((Beside.refl none_open).modifyFile (owns_manifest _) _) (owns_manifest _)
          · exact Beside.refl none_open
        have created := @meets_openCreated db.name freshUuid (p.dropped (manifestName db.name))
          (by rw [dropped_dbs, shut])
        rw [openMainDb_unread there blank read]
        refine ⟨fun _ _ => trivial, ?_⟩
        have joined := created.mono (fun _ _ => trivial)
          (fun _ _ made => And.intro (dropped.trans made.1) made.2) fun _ _ _ => trivial
        exact joined.2
  | ok found =>
      obtain ⟨uuid, payload⟩ := found
      have as_read : openedAs freshUuid db.name p = uuid := by rw [openedAs, read]
      rw [as_read]
      have own : ∀ st, p.dbs[db.name]? = some st → st.uuid = uuid := by
        intro st known
        obtain ⟨payload', again⟩ := backed st known
        rw [read] at again
        cases again
        rfl
      unfold Pool.openMainDb
      apply meets_get_bind
      cases there : p.files[db.name]? with
      | none => exact meets_fail trivial
      | some main =>
          obtain ⟨mfile, file, present, _, _⟩ := readManifest_file read
          have has : p.hasFilename (manifestName db.name) = true := hasFilename_iff.mpr ⟨mfile, present⟩
          simp only [has, if_true, read]
          exact meets_openVerified payload own

/-- The main file opened by SQLite, the file itself made when it is not there. -/
theorem meets_xOpen {db : DbName} (backed : Backed db.name p) (freshUuid : Uuid)
    (own : ∀ st, p.dbs[db.name]? = some st → st.uuid = openedAs freshUuid db.name p) :
    (Vfs.xOpen freshUuid .mainDb db.name true p).Meets (fun _ => True)
      (fun _ r => Beside db.name (openedAs freshUuid db.name p) p r ∧
        r.window (openedAs freshUuid db.name p) ≠ none) fun _ _ => True := by
  let uuid := openedAs freshUuid db.name p
  have apart : db.name ≠ manifestName db.name := Ne.symm (manifestName_ne_self db.name)
  have same : Keeps (SameDb db.name p) (Vfs.xOpenImpl db.name true) := by
    unfold Vfs.xOpenImpl
    apply keeps_get_bind
    intro pool _
    split
    · exact keeps_pure ()
    · rw [if_pos rfl]
      exact keeps_asVfs _ (SameDb.keeps_withNewFile apart)
  apply meets_bind (fun _ q => Beside db.name uuid p q ∧ SameDb db.name p q)
  · refine ((keeps_xOpenImpl (owns_self db.name) true p (Beside.refl own)).and
      (same p (SameDb.refl db.name p))).mono (fun _ _ => trivial) ?_ fun _ _ _ => trivial
    exact fun _ _ both => both
  · intro _ q both
    have read := SameDb.readManifest both.2
    have as_before : openedAs freshUuid db.name q = uuid := by rw [openedAs, read]; rfl
    have backed' : Backed db.name q := by
      intro st known
      rw [read]
      exact backed st (both.2.db ▸ known)
    apply meets_zoom
    refine (meets_openMainDb backed' freshUuid).mono (fun _ _ => trivial) ?_ fun _ _ _ => trivial
    intro _ r opened
    rw [as_before] at opened
    exact ⟨both.1.trans opened.1, opened.2⟩

theorem windowed_subset (beside : Beside name uuid p q) : q.windowed ⊆ insert uuid p.windowed := by
  intro mine held
  by_cases same : mine = uuid
  · exact Finset.mem_insert.mpr (.inl same)
  · rw [mem_windowed, beside.windows mine same, ← mem_windowed] at held
    exact Finset.mem_insert_of_mem held

/-- The databases that are left alone, if they have their windows or there is room for these. -/
theorem elsewhere {db other : DbName} (beside : Beside other.name uuid p q) (apart : db.name ≠ other.name)
    (isDb : endsWith db.name dbSuffix = true) (named : endsWith other.name dbSuffix = true) (wf : q.Wf)
    (room : ∀ mine payload, p.readManifest (manifestName db.name) = .ok (mine, payload) →
      mine ≠ uuid ∧ (mine ∈ p.windowed ∨ (insert mine (insert uuid p.windowed)).card ≤ anchorCap)) :
    Elsewhere db p q := by
  refine ⟨wf, beside.dek, beside.dbs _ apart,
    fun file listed => beside.files file (not_owns apart isDb named file listed), ?_⟩
  intro mine payload read gen fresh
  obtain ⟨others, room⟩ := room mine payload read
  have same := beside.windows mine others
  refine ⟨?_, recordable ?_⟩
  · show freshnessGate (q.window mine) gen = _
    rw [same]
    exact fresh.1
  · rcases room with held | few
    · rw [mem_windowed, ← same, ← mem_windowed] at held
      rw [Finset.insert_eq_self.mpr held]
      exact q.card_windowed
    · have inside := Finset.card_le_card (Finset.insert_subset_insert mine beside.windowed_subset)
      omega

end Beside

end Pool

/-- A name the API takes for a database. -/
abbrev Stem := { stem : FileName // validDbName stem = true }

namespace Stem

def db (stem : Stem) : DbName := sessionDb stem.1 stem.2

variable {stem other : Stem}

theorem plain : stripSuffix stem.db.name journalSuffix = none := stripSuffix_sessionDb

theorem isDb : endsWith stem.db.name dbSuffix = true := endsWith_append _ _

theorem name_ne (apart : stem ≠ other) : stem.db.name ≠ other.db.name :=
  fun same => apart (Subtype.ext (List.append_cancel_right same))

end Stem

/-- A vault, and for each database of it the pages its transactions have left. -/
structure VaultSession where
  pool : Pool
  pages : Stem → List (Option Block)
  phase : Stem → PagerPhase

/-- What happens in a vault with several databases; each of it completes. -/
inductive VaultAction where
  | openDb (stem : Stem) (freshUuid : Uuid)
  | transaction (stem : Stem) (t : Transaction)
  | close

namespace VaultSession

/-- The vault as one of its databases sees it. -/
def on (s : VaultSession) (stem : Stem) : DbSession := ⟨s.pool, s.pages stem, s.phase stem⟩

/-- The vault after a step of one of its databases. -/
def after (s : VaultSession) (stem : Stem) (t : DbSession) : VaultSession :=
  ⟨t.pool, Function.update s.pages stem t.pages, Function.update s.phase stem t.phase⟩

def step (s : VaultSession) : VaultAction → Option VaultSession
  | .openDb stem freshUuid => (DbSession.step stem.db (s.on stem) (.openDb freshUuid)).map (s.after stem)
  | .transaction stem t => (DbSession.step stem.db (s.on stem) (.transaction t)).map (s.after stem)
  | .close => some { s with pool := s.pool.reopen s.pool.dek }

/-- Databases are opened with their manifests sealed, new ones under uuids that are new, and the vault is
closed with all of them sealed. -/
def Allowed (s : VaultSession) : VaultAction → Prop
  | .openDb stem freshUuid => (s.on stem).Allowed stem.db (.openDb freshUuid)
  | .transaction _ _ => True
  | .close => ∀ stem, s.phase stem = .sealed

/-- The uuid in the manifest of a database. -/
def uuidOf (p : Pool) (stem : Stem) (uuid : Uuid) : Prop :=
  ∃ payload, p.readManifest (manifestName stem.db.name) = .ok (uuid, payload)

/-- Each manifest has a window of its own, or room for one among those that are pending. -/
structure Windowed (pending : Finset Uuid) (p : Pool) : Prop where
  anchored : ∀ stem uuid, uuidOf p stem uuid → uuid ∈ p.windowed ∪ pending
  apart : ∀ stem other uuid, uuidOf p stem uuid → uuidOf p other uuid → stem = other
  room : (p.windowed ∪ pending).card ≤ anchorCap

/-- What holds of every vault between two steps. -/
structure Kept (pending : Finset Uuid) (s : VaultSession) : Prop where
  each : ∀ stem : Stem, (s.on stem).Shut stem.db ∨ (s.on stem).Opened stem.db
  windows : Windowed pending s.pool

section Steps

variable {s t : VaultSession} {stem other : Stem} {uuid freshUuid : Uuid} {pending : Finset Uuid}

theorem uuidOf_unique {p : Pool} {first second : Uuid} (one : uuidOf p stem first)
    (two : uuidOf p stem second) : first = second := by
  obtain ⟨_, read⟩ := one
  obtain ⟨_, again⟩ := two
  rw [read] at again
  exact (Prod.mk.inj (Except.ok.inj again)).1

theorem on_after {d : DbSession} : (s.after stem d).on stem = d := by
  simp [on, after]

theorem on_after_other {d : DbSession} (apart : other ≠ stem) :
    (s.after stem d).on other = { s.on other with pool := d.pool } := by
  simp [on, after, apart]

theorem opened_state {d : DbSession} (opened : d.Opened stem.db) :
    ∃ st, d.pool.dbs[stem.db.name]? = some st ∧ uuidOf d.pool stem st.uuid ∧ d.pool.Wf := by
  obtain ⟨st, within⟩ := opened.open_db
  exact ⟨st, within.serving.current.db, within.serving.current.reads, within.serving.wf⟩

theorem backed (kept : (s.on stem).Shut stem.db ∨ (s.on stem).Opened stem.db) :
    Pool.Beside.Backed stem.db.name s.pool := by
  intro st known
  rcases kept with shut | opened
  · cases shut.shut.symm.trans known
  · obtain ⟨st', found, read, _⟩ := opened_state opened
    obtain rfl := Option.some.inj (found.symm.trans known)
    exact read

/-- A step of one database: the others are left alone, and its manifest has a window of its own. -/
structure Moved (pending : Finset Uuid) (s : VaultSession) (stem : Stem) (uuid : Uuid) (d : DbSession) :
    Prop where
  opened : d.Opened stem.db
  beside : Pool.Beside stem.db.name uuid s.pool d.pool
  window : uuid ∈ d.pool.windowed
  own : ∀ other ≠ stem, ¬uuidOf s.pool other uuid
  expected : pending = ∅ ∨ uuid ∈ s.pool.windowed ∪ pending

section Moved

variable {d : DbSession}

theorem Moved.manifest (moved : Moved pending s stem uuid d) : uuidOf d.pool stem uuid := by
  obtain ⟨st, known, read, _⟩ := opened_state moved.opened
  exact moved.beside.own st known ▸ read

theorem Moved.others (kept : s.Kept pending) (moved : Moved pending s stem uuid d) (apart : other ≠ stem) :
    Pool.Elsewhere other.db s.pool d.pool := by
  obtain ⟨_, _, _, wf⟩ := opened_state moved.opened
  apply moved.beside.elsewhere (Stem.name_ne apart) Stem.isDb Stem.isDb wf
  intro mine payload found
  refine ⟨fun same => moved.own other apart ⟨payload, same ▸ found⟩, ?_⟩
  rcases Finset.mem_union.mp (kept.windows.anchored other mine ⟨payload, found⟩) with held | waits
  · exact .inl held
  · right
    rcases moved.expected with none_left | expected
    · rw [none_left] at waits
      cases waits
    · have inside : insert mine (insert uuid s.pool.windowed) ⊆ s.pool.windowed ∪ pending :=
        Finset.insert_subset (Finset.mem_union_right _ waits)
          (Finset.insert_subset expected Finset.subset_union_left)
      exact (Finset.card_le_card inside).trans kept.windows.room

/-- The manifests of the others are those they had. -/
theorem Moved.uuidOf_other (kept : s.Kept pending) (moved : Moved pending s stem uuid d) (apart : other ≠ stem)
    {mine : Uuid} : uuidOf d.pool other mine ↔ uuidOf s.pool other mine := by
  unfold uuidOf
  rw [(moved.others kept apart).sameDb.readManifest]

theorem Moved.windows (kept : s.Kept pending) (moved : Moved pending s stem uuid d) :
    Windowed (pending.erase uuid) d.pool := by
  refine ⟨fun other mine found => ?_, fun first second mine one two => ?_, ?_⟩
  · by_cases apart : other = stem
    · subst apart
      rw [uuidOf_unique found moved.manifest]
      exact Finset.mem_union_left _ moved.window
    · have found := (moved.uuidOf_other kept apart).mp found
      have others : mine ≠ uuid := fun same => moved.own other apart (same ▸ found)
      have held := kept.windows.anchored other mine found
      rw [Finset.mem_union, Pool.mem_windowed] at held ⊢
      rw [moved.beside.windows mine others]
      exact held.imp_right fun waits => Finset.mem_erase.mpr ⟨others, waits⟩
  · by_cases left : first = stem
    · by_cases right : second = stem
      · rw [left, right]
      · subst left
        rw [uuidOf_unique one moved.manifest] at two
        exact absurd ((moved.uuidOf_other kept right).mp two) (moved.own second right)
    · by_cases right : second = stem
      · subst right
        rw [uuidOf_unique two moved.manifest] at one
        exact absurd ((moved.uuidOf_other kept left).mp one) (moved.own first left)
      · exact kept.windows.apart first second mine ((moved.uuidOf_other kept left).mp one)
          ((moved.uuidOf_other kept right).mp two)
  · rcases moved.expected with rfl | expected
    · rw [Finset.erase_empty, Finset.union_empty]
      exact d.pool.card_windowed
    · have inside : d.pool.windowed ∪ pending.erase uuid ⊆ s.pool.windowed ∪ pending := by
        apply Finset.union_subset
        · exact moved.beside.windowed_subset.trans (Finset.insert_subset expected Finset.subset_union_left)
        · exact (Finset.erase_subset _ _).trans Finset.subset_union_right
      exact (Finset.card_le_card inside).trans kept.windows.room

theorem Moved.kept_after (kept : s.Kept pending) (moved : Moved pending s stem uuid d) :
    (s.after stem d).Kept (pending.erase uuid) := by
  refine ⟨fun other => ?_, moved.windows kept⟩
  by_cases apart : other = stem
  · subst apart
    rw [on_after]
    exact .inr moved.opened
  · rw [on_after_other apart]
    exact DbSession.step_elsewhere (kept.each other) (moved.others kept apart) rfl

theorem moved_openDb (kept : s.Kept pending) (allowed : s.Allowed (.openDb stem freshUuid))
    (settled : pending = ∅ ∨ s.pool.hasFilename stem.db.name = true)
    (opens : DbSession.step stem.db (s.on stem) (.openDb freshUuid) = some d) :
    Moved pending s stem (Pool.Beside.openedAs freshUuid stem.db.name s.pool) d := by
  have opened := DbSession.step_openDb (kept.each stem) allowed opens
  have as_before : ∀ st, s.pool.dbs[stem.db.name]? = some st →
      st.uuid = Pool.Beside.openedAs freshUuid stem.db.name s.pool := by
    intro st known
    obtain ⟨payload, read⟩ := backed (kept.each stem) st known
    rw [Pool.Beside.openedAs, read]
  simp only [DbSession.step, Option.ite_none_right_eq_some, Option.some.injEq] at opens
  obtain ⟨succeeded, same⟩ := opens
  obtain ⟨_, ended⟩ := DbSession.ok_of_isOk succeeded
  have ran := (Pool.Beside.meets_xOpen (backed (kept.each stem)) freshUuid as_before).ok ended
  have state : d.pool = (Vfs.xOpen freshUuid .mainDb stem.db.name true s.pool).state := by rw [← same]; rfl
  rw [← state] at ran
  have window := Pool.mem_windowed.mpr ran.2
  cases read : s.pool.readManifest (manifestName stem.db.name) with
  | ok found =>
      have as_read : Pool.Beside.openedAs freshUuid stem.db.name s.pool = found.1 := by
        rw [Pool.Beside.openedAs, read]
      rw [as_read] at ran window ⊢
      refine ⟨opened, ran.1, window, fun other apart held => ?_, ?_⟩
      · exact apart (kept.windows.apart other stem _ held ⟨found.2, read⟩)
      · exact .inr (kept.windows.anchored stem found.1 ⟨found.2, read⟩)
  | error e =>
      have as_new : Pool.Beside.openedAs freshUuid stem.db.name s.pool = freshUuid := by
        rw [Pool.Beside.openedAs, read]
      rw [as_new] at ran window ⊢
      -- without a manifest the database is new, and its uuid has no window yet
      have missing : (s.on stem).pool.New stem.db := by
        rcases kept.each stem with shut | open_db
        · rcases shut.image with ⟨missing, _⟩ | ⟨_, _, _, _, described⟩
          · exact missing
          · cases read.symm.trans described.read
        · obtain ⟨st, _, ⟨payload, found⟩, _⟩ := opened_state open_db
          cases read.symm.trans found
      have lacks := Pool.lacks_of_missing (missing.missing _ stem.db.mem_files)
      have none_left : pending = ∅ := settled.resolve_right fun there => by cases lacks.symm.trans there
      refine ⟨opened, ran.1, window, fun other apart held => ?_, .inl none_left⟩
      have held := kept.windows.anchored other freshUuid held
      rw [none_left, Finset.union_empty, Pool.mem_windowed] at held
      exact held (allowed.2 lacks)

theorem moved_transaction {change : Transaction} (kept : s.Kept ∅)
    (steps : DbSession.step stem.db (s.on stem) (.transaction change) = some d) :
    ∃ uuid, Moved ∅ s stem uuid d := by
  obtain ⟨before, opened⟩ := DbSession.step_transaction Stem.plain (kept.each stem) steps
  obtain ⟨st, known, read, _⟩ := opened_state before
  simp only [DbSession.step, Option.ite_none_right_eq_some, Bool.and_eq_true, Option.map_eq_some_iff] at steps
  obtain ⟨⟨_, succeeded⟩, phase, _, same⟩ := steps
  obtain ⟨_, ended⟩ := DbSession.ok_of_isOk succeeded
  have own : ∀ st', s.pool.dbs[stem.db.name]? = some st' → st'.uuid = st.uuid := by
    intro st' found
    rw [Option.some.inj (found.symm.trans known)]
  have calls : Keeps (Pool.Beside stem.db.name st.uuid s.pool) (change.run stem.db.name) :=
    keeps_forEach (fun call => Pool.Beside.keeps_run Stem.plain call) change.all
  have beside := (calls s.pool (Pool.Beside.refl own)).ok ended
  have state : d.pool = (change.run stem.db.name s.pool).state := by rw [← same]; rfl
  rw [← state] at beside
  have held := kept.windows.anchored stem st.uuid read
  rw [Finset.union_empty, Pool.mem_windowed] at held
  refine ⟨st.uuid, opened, beside, Pool.mem_windowed.mpr (beside.anchored held), fun other apart there => ?_,
    .inl rfl⟩
  exact apart (kept.windows.apart other stem _ there read)

end Moved

theorem Kept.wf (kept : s.Kept pending) : s.pool.Wf := by
  rcases kept.each ⟨['a'], by decide⟩ with shut | opened
  · exact shut.wf
  · obtain ⟨st, within⟩ := opened.open_db
    exact within.serving.wf

theorem uuidOf_reopen (kept : s.Kept pending) :
    uuidOf (s.pool.reopen s.pool.dek) stem uuid ↔ uuidOf s.pool stem uuid := by
  have before : s.pool.Live s.pool.dek s.pool.stored := ⟨kept.wf, rfl, rfl⟩
  unfold uuidOf
  rw [(Pool.live_reopen s.pool s.pool.dek).readManifest_eq, before.readManifest_eq]

theorem step_close (kept : s.Kept pending) (sealed : ∀ stem, s.phase stem = .sealed)
    (taken : step s .close = some t) : t.Kept pending := by
  obtain rfl := Option.some.inj taken
  refine ⟨fun stem => .inl (DbSession.step_close (kept.each stem) (sealed stem) rfl), ?_, ?_, ?_⟩
  · intro stem uuid held
    exact kept.windows.anchored stem uuid ((uuidOf_reopen kept).mp held)
  · intro first second uuid one two
    exact kept.windows.apart first second uuid ((uuidOf_reopen kept).mp one) ((uuidOf_reopen kept).mp two)
  · exact kept.windows.room

/-- What every step keeps. -/
theorem step_kept {action : VaultAction} (kept : s.Kept ∅) (allowed : s.Allowed action)
    (taken : step s action = some t) : t.Kept ∅ := by
  cases action with
  | openDb stem freshUuid =>
      obtain ⟨d, opens, rfl⟩ := Option.map_eq_some_iff.mp taken
      exact (moved_openDb kept allowed (.inl rfl) opens).kept_after kept
  | transaction stem change =>
      obtain ⟨d, steps, rfl⟩ := Option.map_eq_some_iff.mp taken
      obtain ⟨uuid, moved⟩ := moved_transaction kept steps
      exact moved.kept_after kept
  | close => exact step_close kept allowed taken

end Steps

/-- A vault no database of which is open, with a window for every manifest. -/
structure AtRest (s : VaultSession) : Prop where
  each : ∀ stem : Stem, (s.on stem).Shut stem.db
  windows : Windowed ∅ s.pool

section Runs

variable {start s : VaultSession} {stem : Stem} {pending : Finset Uuid}

theorem reached_kept (rest : start.AtRest) (reached : Runs.Reaches step Allowed start s) : s.Kept ∅ :=
  reached.invariant (Kept ∅) ⟨fun stem => .inl (rest.each stem), rest.windows⟩
    fun _ _ _ kept allowed taken => step_kept kept allowed taken

/-- A database that exists and is sealed is described by its manifest, open or not. -/
theorem Kept.described (kept : s.Kept pending) (sealed : s.phase stem = .sealed)
    (made : s.pool.hasFilename stem.db.name = true) : s.pool.Wf ∧ s.pool.OnDisk stem.db ∧
      ∃ image uuid payload, s.pages stem = image.map some ∧
        s.pool.Described stem.db uuid payload image := by
  rcases kept.each stem with shut | opened
  · rcases shut.image with ⟨missing, _⟩ | described
    · cases (Pool.lacks_of_missing (missing.missing _ stem.db.mem_files)).symm.trans made
    · exact ⟨shut.wf, shut.onDisk, described⟩
  · exact opened.described sealed

/-- An open database that is sealed serves its pages. -/
theorem serves_opened {d : DbSession} {db : DbName} (opened : d.Opened db) (sealed : d.phase = .sealed) :
    ∃ image, d.pages = image.map some ∧ d.pool.servedImage db.name = .ok image := by
  obtain ⟨st, within⟩ := opened.open_db
  rw [sealed] at within
  obtain ⟨image, payload, shape, described⟩ := within.described
  have main := within.serving.mainImage.mpr shape
  obtain ⟨file, found, reads⟩ := Option.bind_eq_some_iff.mp main
  refine ⟨image, shape, ?_⟩
  simp only [Pool.servedImage, within.serving.current.db, found, Pool.playsBack_eq_false,
    Bool.false_eq_true, if_false]
  exact toOption_eq_some.mp reads

/-- A sealed database that is there opens. -/
theorem Kept.openDb (kept : s.Kept pending) (sealed : s.phase stem = .sealed)
    (made : s.pool.hasFilename stem.db.name = true) (next : Uuid) : ∃ pool, ∃ uuid,
      step s (.openDb stem next) = some { s with pool := pool } ∧
        Moved pending s stem uuid ⟨pool, s.pages stem, s.phase stem⟩ ∧ uuidOf s.pool stem uuid := by
  obtain ⟨wf, onDisk, image, uuid, payload, _, described⟩ := kept.described sealed made
  have opens := described.xOpen wf onDisk next true
  cases ended : (Vfs.xOpen next .mainDb stem.db.name true s.pool).result with
  | error e =>
      have refused := opens.2
      rw [ended] at refused
      exact refused.elim
  | ok done =>
      have taken : DbSession.step stem.db (s.on stem) (.openDb next) =
          some ⟨(Vfs.xOpen next .mainDb stem.db.name true s.pool).state, s.pages stem, s.phase stem⟩ := by
        simp only [DbSession.step, on, ended]
        rfl
      have allowed : s.Allowed (.openDb stem next) := by
        refine ⟨sealed, fun lacks => ?_⟩
        cases lacks.symm.trans made
      have moved := moved_openDb kept allowed (.inr made) taken
      have as_read : Pool.Beside.openedAs next stem.db.name s.pool = uuid := by
        rw [Pool.Beside.openedAs, described.read]
      rw [as_read] at moved
      refine ⟨_, _, ?_, moved, payload, described.read⟩
      simp only [step, taken, Option.map_some, after, Function.update_eq_self]

/-- The uuids of databases that are opened. -/
def Claims (p : Pool) (order : List (Stem × Uuid)) (uuid : Uuid) : Prop := ∃ o ∈ order, uuidOf p o.1 uuid

/-- Databases that are sealed can be opened one after another, in any order; then they have their windows. -/
theorem Kept.opens (kept : s.Kept pending) (order : List (Stem × Uuid))
    (sealed : ∀ o ∈ order, s.phase o.1 = .sealed)
    (made : ∀ o ∈ order, s.pool.hasFilename o.1.db.name = true) :
    ∃ t, Runs.run step s (order.map fun o => .openDb o.1 o.2) = some t ∧ t.pages = s.pages ∧
      t.phase = s.phase ∧
      (∀ stem, ((s.on stem).Opened stem.db ∨ stem ∈ order.map Prod.fst) → (t.on stem).Opened stem.db) ∧
      ∃ left ⊆ pending, (∀ uuid, Claims s.pool order uuid → uuid ∉ left) ∧ t.Kept left := by
  induction order generalizing s pending with
  | nil =>
      refine ⟨s, rfl, rfl, rfl, fun stem held => ?_, pending, subset_rfl, ?_, kept⟩
      · simpa using held
      · rintro uuid ⟨o, none_left, _⟩
        cases none_left
  | cons first rest ih =>
      obtain ⟨pool, uuid, taken, moved, read⟩ :=
        kept.openDb (sealed first (by simp)) (made first (by simp)) first.2
      have next : VaultSession.Kept (pending.erase uuid) { s with pool := pool } := by
        simpa only [after, Function.update_eq_self] using moved.kept_after kept
      have there : ∀ o ∈ rest, pool.hasFilename o.1.db.name = true := by
        intro o listed
        by_cases same : o.1 = first.1
        · obtain ⟨st, within⟩ := moved.opened.open_db
          obtain ⟨file, found, _⟩ := within.serving.main
          exact same ▸ Pool.hasFilename_iff.mpr ⟨file, found⟩
        · obtain ⟨file, found⟩ := Pool.hasFilename_iff.mp (made o (List.mem_cons_of_mem _ listed))
          have kept_file := (moved.others kept same).files _ o.1.db.mem_files
          exact Pool.hasFilename_iff.mpr ⟨file, kept_file.trans found⟩
      obtain ⟨t, ran, pages, phase, opened, left, fewer, claimed, last⟩ :=
        ih next (fun o listed => sealed o (List.mem_cons_of_mem _ listed)) there
      refine ⟨t, ?_, pages, phase, fun stem held => opened stem ?_, left,
        fewer.trans (Finset.erase_subset _ _), ?_, last⟩
      · rw [List.map_cons, Runs.run_cons, taken]
        exact ran
      · by_cases same : stem = first.1
        · exact .inl (same ▸ moved.opened)
        · rw [List.map_cons, List.mem_cons] at held
          rcases held with before | rfl | later
          · left
            obtain ⟨st, within⟩ := before.open_db
            have apart : Pool.Elsewhere stem.db s.pool pool := moved.others kept same
            exact ⟨before.idle, st, within.elsewhere apart⟩
          · exact absurd rfl same
          · exact .inr later
      · rintro mine ⟨o, listed, found⟩ waits
        by_cases same : o.1 = first.1
        · rw [same] at found
          rw [uuidOf_unique found read] at waits
          exact absurd rfl (Finset.mem_erase.mp (fewer waits)).1
        · have later : o ∈ rest := by
            rcases List.mem_cons.mp listed with rfl | later
            · exact absurd rfl same
            · exact later
          exact claimed mine ⟨o, later, (moved.uuidOf_other kept same).mpr found⟩ waits

theorem Kept.close (kept : s.Kept pending) (sealed : ∀ stem, s.phase stem = .sealed) :
    VaultSession.Kept pending { s with pool := s.pool.reopen s.pool.dek } := step_close kept sealed rfl

end Runs

end VaultSession

open VaultSession in
/-- Transactions on the databases of a vault, in any interleaving: the main file of each open database
holds the pages of its own transactions, and when the vault has been closed all of them open again in
any order and serve these pages. -/
theorem interleaved_databases_reopen {start s : VaultSession} (rest : start.AtRest)
    (reached : Runs.Reaches VaultSession.step Allowed start s) :
    (∀ stem : Stem, s.pool.dbs.contains stem.db.name = true →
      ∃ file, s.pool.files[stem.db.name]? = some file ∧ file.pages = s.pages stem) ∧
    ∀ order : List (Stem × Uuid), (∀ stem, s.phase stem = .sealed) →
      (∀ o ∈ order, s.pool.hasFilename o.1.db.name = true) →
      ∃ t, Runs.run VaultSession.step s (.close :: order.map fun o => .openDb o.1 o.2) = some t ∧
        t.pages = s.pages ∧
        ∀ o ∈ order, ∃ image, s.pages o.1 = image.map some ∧ t.pool.servedImage o.1.db.name = .ok image := by
  have kept := reached_kept rest reached
  refine ⟨fun stem known => ?_, fun order sealed made => ?_⟩
  · rcases kept.each stem with shut | opened
    · have none_open : s.pool.dbs[stem.db.name]? = none := shut.shut
      rw [Std.ExtTreeMap.contains_iff_mem, Std.ExtTreeMap.mem_iff_isSome_getElem?, none_open] at known
      cases known
    · obtain ⟨st, within⟩ := opened.open_db
      obtain ⟨file, found, _, _, _, pages, _⟩ := within.serving.main
      exact ⟨file, found, pages⟩
  · have there : ∀ o ∈ order, (s.pool.reopen s.pool.dek).hasFilename o.1.db.name = true := by
      intro o listed
      obtain ⟨wf, onDisk, _, _, _, _, described⟩ := kept.described (sealed o.1) (made o listed)
      obtain ⟨file, found, _⟩ := (described.reopen wf onDisk).main
      exact Pool.hasFilename_iff.mpr ⟨file, found⟩
    obtain ⟨t, ran, pages, phase, opened, _⟩ := (kept.close sealed).opens order (fun o _ => sealed o.1) there
    refine ⟨t, ran, pages, fun o listed => ?_⟩
    have now := opened o.1 (.inr (List.mem_map_of_mem listed))
    obtain ⟨image, shape, served⟩ := serves_opened now ((congrFun phase o.1).trans (sealed o.1))
    exact ⟨image, pages ▸ shape, served⟩

namespace TwoDatabases

theorem validDbName_a : validDbName ['a'] = true := by decide

theorem validDbName_b : validDbName ['b'] = true := by decide

def a : Stem := ⟨['a'], validDbName_a⟩

def b : Stem := ⟨['b'], validDbName_b⟩

def start : VaultSession := ⟨ReopenSample.start.pool, fun _ => [], fun _ => .sealed⟩

theorem start_rests : start.AtRest := by
  have missing : ∀ stem : Stem, OpenFiles.sampleDirectory.New stem.db := fun stem =>
    ⟨fun _ _ => Std.ExtTreeMap.getElem?_empty, Std.ExtTreeMap.getElem?_empty⟩
  have unread : ∀ (stem : Stem) (uuid : Uuid), ¬VaultSession.uuidOf start.pool stem uuid := by
    rintro stem uuid ⟨payload, read⟩
    obtain ⟨mfile, _, found, _⟩ := Pool.readManifest_file read
    cases ((missing stem).reopen 0).missing (manifestName stem.db.name) (by simp [DbName.files]) ▸ found
  refine ⟨fun stem => ⟨Pool.Wf.reopen, ((missing stem).reopen 0).onDisk Pool.Wf.reopen,
    Std.ExtTreeMap.getElem?_empty, rfl, .inl ⟨(missing stem).reopen 0, rfl⟩⟩, ?_, ?_, ?_⟩
  · exact fun stem uuid held => absurd held (unread stem uuid)
  · exact fun stem other uuid held _ => absurd held (unread stem uuid)
  · rw [Finset.union_empty]
    exact Pool.card_windowed _

/-- The first database has been created. -/
def created : VaultSession := start.after a ReopenSample.created

/-- A page has been committed to it. -/
def committed : VaultSession := created.after a
  ⟨(Prog.forEach (FileCall.run ReopenSample.db.name) ReopenSample.rest ReopenSample.hot).state,
    ReopenSample.journaled.pages [], .sealed⟩

/-- The second database has been created. -/
def both : VaultSession := committed.after b
  ⟨(Vfs.xOpen 6 .mainDb b.db.name true committed.pool).state, [], .sealed⟩

theorem created_step : VaultSession.step start (.openDb a 5) = some created := by
  have done : (Vfs.xOpen 5 .mainDb a.db.name true start.pool).result.isOk = true := by decide +kernel
  have opens : DbSession.step a.db (start.on a) (.openDb 5) = some ReopenSample.created := by
    unfold DbSession.step
    exact if_pos done
  simp only [VaultSession.step, opens, Option.map_some, created]

theorem committed_step : VaultSession.step created (.transaction a ReopenSample.journaled) = some committed := by
  obtain ⟨passed, ran⟩ := ReopenSample.journaled_run
  have turns : ReopenSample.journaled.turns .sealed = some .sealed := by decide +kernel
  have done : (Prog.forEach (FileCall.run ReopenSample.db.name) ReopenSample.rest
      ReopenSample.hot).result.isOk = true := by decide +kernel
  have commits : DbSession.step a.db (created.on a) (.transaction ReopenSample.journaled) =
      some ⟨(Prog.forEach (FileCall.run ReopenSample.db.name) ReopenSample.rest ReopenSample.hot).state,
        ReopenSample.journaled.pages [], .sealed⟩ := by
    have known := ReopenSample.created_open
    rw [created, VaultSession.on_after]
    show DbSession.step ReopenSample.db _ _ = _
    simp only [DbSession.step, ReopenSample.created] at known ⊢
    simp only [ran, known, done, Bool.and_self, if_true, turns, Option.map_some]
  simp only [VaultSession.step, commits, Option.map_some, committed]

theorem committed_on_b : committed.on b = ⟨committed.pool, [], .sealed⟩ := by
  have apart : b ≠ a := by decide
  have pages : committed.pages b = [] := by
    simp only [committed, created, VaultSession.after, start, Function.update_of_ne apart]
  have phase : committed.phase b = .sealed := by
    simp only [committed, created, VaultSession.after, start, Function.update_of_ne apart]
  rw [VaultSession.on, pages, phase]

theorem both_step : VaultSession.step committed (.openDb b 6) = some both := by
  have done : (Vfs.xOpen 6 .mainDb b.db.name true committed.pool).result.isOk = true := by decide +kernel
  have opens : DbSession.step b.db (committed.on b) (.openDb 6) =
      some ⟨(Vfs.xOpen 6 .mainDb b.db.name true committed.pool).state, [], .sealed⟩ := by
    rw [committed_on_b]
    simp only [DbSession.step, done, if_true]
  simp only [VaultSession.step, opens, Option.map_some, both]

theorem both_reached : Runs.Reaches VaultSession.step VaultSession.Allowed start both := by
  have first : start.Allowed (.openDb a 5) := ⟨rfl, fun _ => by decide +kernel⟩
  have second : created.Allowed (.transaction a ReopenSample.journaled) := trivial
  have sealed : (committed.on b).phase = .sealed := congrArg DbSession.phase committed_on_b
  have third : committed.Allowed (.openDb b 6) := ⟨sealed, fun _ => by decide +kernel⟩
  exact .next (.next (.next .start first created_step) second committed_step) third both_step

theorem both_sealed (stem : Stem) : both.phase stem = .sealed := by
  simp only [both, committed, created, start, VaultSession.after, Function.update_apply, ReopenSample.created,
    ite_self]

end TwoDatabases

open TwoDatabases in
/-- A page of `a.db`, committed before `b.db` was created; `b.db` is opened first. -/
theorem two_databases_reopen : ∃ t image,
    Runs.run VaultSession.step both [.close, .openDb b 8, .openDb a 9] = some t ∧
      [some (pageOf ReopenSample.page)] = image.map some ∧ t.pool.servedImage a.db.name = .ok image ∧
      t.pool.servedImage b.db.name = .ok [] := by
  have made : ∀ o ∈ ([(b, 8), (a, 9)] : List (Stem × Uuid)), both.pool.hasFilename o.1.db.name = true := by decide +kernel
  obtain ⟨t, ran, _, serves⟩ :=
    (interleaved_databases_reopen start_rests both_reached).2 [(b, 8), (a, 9)] both_sealed made
  obtain ⟨image, shape, served⟩ := serves (a, 9) (by simp)
  obtain ⟨blank, none_left, served_b⟩ := serves (b, 8) (by simp)
  obtain rfl : blank = [] := List.map_eq_nil_iff.mp none_left.symm
  exact ⟨t, image, ran, shape, served, served_b⟩

end Freehold
