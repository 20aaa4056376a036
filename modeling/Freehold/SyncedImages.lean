import Freehold.BundleImport
import Freehold.VaultSessions

set_option autoImplicit false

/- The image of a vault at rest, and what a vault it has been applied to opens and serves. -/
namespace Freehold

open CrashLogic

namespace Pool

section Export

variable {pool : Pool} {name : FileName} {data : Region}

/-- What a bundle has of a database. -/
def copies (pool : Pool) (name : FileName) : BundleFiles :=
  [name, manifestName name].filterMap fun file => (pool.content file).map fun data => (file, data)

theorem exportBundle_eq (wf : pool.Wf) (name : FileName) : pool.exportBundle name = .ok (pool.copies name) := by
  have one (file : FileName) : (if pool.hasFilename file then do
        let bytes ← pool.exportRaw file
        return some (file, bytes)
      else return none : Except OpfsSAHError (Option (FileName × Region))) =
        .ok ((pool.content file).map fun data => (file, data)) := by
    by_cases there : pool.hasFilename file = true
    · obtain ⟨entry, found⟩ := hasFilename_iff.mp there
      rw [if_pos there, exportRaw, wf.content_eq, found]
      rfl
    · rw [if_neg there, content_of_lacks (Bool.not_eq_true _ ▸ there)]
      rfl
  simp only [exportBundle, copies, List.filterMapM, List.filterMapM.loop, one, List.filterMap_cons,
    List.filterMap_nil]
  cases pool.content name <;> cases pool.content (manifestName name) <;> rfl

theorem mapM_ok {α β ε : Type} {f : α → Except ε β} {g : α → β} (here : ∀ a, f a = .ok (g a)) (items : List α) :
    items.mapM f = .ok (items.map g) := by
  induction items with
  | nil => rfl
  | cons item rest ih =>
      rw [List.mapM_cons, here, ih]
      rfl

/-- Exporting the databases of a vault gives the files of each of them. -/
theorem exportAll_eq (wf : pool.Wf) : pool.exportAll = .ok (pool.dbNames.flatMap pool.copies) := by
  have each (name : FileName) : (pool.exportBundle name).mapError (fun e =>
      let shown := String.ofList name
      let reason := e.debug
      s!"export {shown}: {reason}") = .ok (pool.copies name) := by
    rw [exportBundle_eq wf]
    rfl
  unfold exportAll
  rw [mapM_ok each, List.flatMap]
  rfl

theorem mem_exported : (name, data) ∈ pool.dbNames.flatMap pool.copies ↔
    (∃ db ∈ pool.dbNames, name = db ∨ name = manifestName db) ∧ pool.content name = some data := by
  simp only [copies, List.mem_flatMap, List.mem_filterMap, List.mem_cons, List.not_mem_nil, or_false,
    Option.map_eq_some_iff, Prod.mk.injEq]
  constructor
  · rintro ⟨db, listed, file, named, bytes, held, rfl, rfl⟩
    exact ⟨⟨db, listed, named⟩, held⟩
  · rintro ⟨⟨db, listed, named⟩, held⟩
    exact ⟨db, listed, name, named, data, held, rfl, rfl⟩

end Export

section Import

variable {pool : Pool} {dek : Dek} {st : Freehold.Stored} {files : BundleFiles} {name : FileName}
  {dbs : Std.ExtTreeMap FileName DbState}

/-- An import only maps slots, frees them and writes into them. -/
theorem keeps_importEach {inv : Pool → Prop} (written : ∀ name data q, inv q → inv (setData name data q))
    (unmapped : ∀ name q, inv q → inv (unmapSlot name q))
    (mapped : ∀ name header q, inv q → inv (mapSlot name header q)) : Keeps inv (importEach files) := by
  apply keeps_forEach
  intro file
  apply keeps_bind
  · apply keeps_attempt
    unfold deleteFile
    apply keeps_get_bind
    intro q _
    split
    · apply keeps_bind (keeps_effect (written _ _))
      intro _
      exact keeps_bind (keeps_effect (unmapped _)) fun _ => keeps_pure true
    · exact keeps_pure false
  · intro _
    unfold withNewFile
    apply keeps_get_bind
    intro q _
    split
    · exact keeps_fail _
    · split
      · exact keeps_fail _
      · split
        · exact keeps_bind (keeps_modify (mapped _ _)) fun _ => keeps_fail _
        · split
          · exact keeps_bind (keeps_modify (mapped _ _)) fun _ => keeps_fail _
          · apply keeps_bind (keeps_effect (mapped _ _))
            intro _
            exact keeps_bind (keeps_effect (written _ _)) fun _ => keeps_effect (written _ _)

/-- It opens and closes no database. -/
theorem keeps_dbs_importEach : Keeps (fun q : Pool => q.dbs = dbs) (importEach files) :=
  keeps_importEach (fun _ _ _ same => same) (fun name _ same => (unmapSlot_dbs name).trans same)
    fun name header _ same => (mapSlot_dbs name header).trans same

/-- An import of legal names that succeeds leaves the directory with the files in it. -/
theorem meets_importEach (live : pool.Live dek st) : (importEach files pool).Meets (fun _ => True)
    (fun _ q => ∃ st', q.Live dek st' ∧ st'.anchor = st.anchor ∧
      st'.disk = importedDisk files st.disk) fun _ _ => True := by
  let inv (rest : BundleFiles) (q : Pool) : Prop := ∃ st', q.Live dek st' ∧
    st'.anchor = st.anchor ∧ importedDisk rest st'.disk = importedDisk files st.disk
  have looped : (importEach files pool).Meets (fun _ => True) (fun _ => inv []) fun _ _ => True := by
    apply meets_forEach inv
    · intro file rest q before
      obtain ⟨st', live', anchor, disk⟩ := before
      let any : Freehold.Stored → Prop := fun _ => True
      have written : (importCiphertextFile file.1 file.2 q).Meets (fun r => any r.stored)
          (fun _ r => r.Live dek (st'.put file.1 (some file.2))) fun _ _ => True :=
        meets_importCiphertextFile live' trivial (fun _ _ => trivial) (fun _ _ _ _ => trivial) fun _ done => done
      apply written.mono (fun _ left => left) ?_ fun _ _ left => left
      intro _ r done
      exact ⟨_, done, anchor, disk⟩
    · exact ⟨st, live, rfl, rfl⟩
  exact looped.mono (fun _ left => left) (fun _ _ done => done) fun _ _ left => left

/-- Files that are all of one directory. -/
theorem importedDisk_of_held {source disk : Disk} (held : ∀ file ∈ files, source file.1 = some file.2) :
    importedDisk files disk name = if name ∈ files.map Prod.fst then source name else disk name := by
  induction files generalizing disk with
  | nil => simp [importedDisk]
  | cons file rest ih =>
      have later := @ih (Function.update disk file.1 (some file.2))
        fun other listed => held other (List.mem_cons_of_mem _ listed)
      show importedDisk rest _ name = _
      rw [later]
      by_cases named : name ∈ rest.map Prod.fst
      · simp [named]
      · by_cases same : name = file.1
        · subst same
          simp [named, held file List.mem_cons_self]
        · simp [named, same]

end Import

end Pool

/-- What the files of a database hold. -/
structure DbCopy where
  uuid : Uuid
  payload : ManifestPayload
  image : List Block

/-- Its files are in the directory, the manifest records the main file, and no journal is hot. -/
structure DbCopy.On (dek : Dek) (disk : Disk) (db : DbName) (c : DbCopy) : Prop where
  manifest : Pool.manifestOn dek disk (manifestName db.name) = .ok (c.uuid, c.payload)
  records : c.payload.Records db.name c.image
  main : ∃ data, disk db.name = some data ∧
    Pool.imageOf data db.name (.dbKey dek c.uuid) c.uuid = some c.image ∧ (c.image = [] → data.size = 0)
  headed : ∀ page, c.image[0]? = some page → checkHeader page = .ok ()
  cold : Pool.hotOn disk db.name (.dbKey dek c.uuid) c.uuid = false

/-- The manifest of a database is in slots of its parity. -/
def PairedOn (dek : Dek) (disk : Disk) (db : DbName) : Prop :=
  ∀ file, disk (manifestName db.name) = some (.manifest file) → file.Paired dek (manifestName db.name)

/-- A directory without the database, or with one whose pages these are. -/
def RestsOn (dek : Dek) (st : Freehold.Stored) (db : DbName) (pages : List (Option Block)) : Prop :=
  ((∀ other ∈ db.files, st.disk other = none) ∧ pages = []) ∨
    ∃ c : DbCopy, c.On dek st.disk db ∧ Pool.Fresh dek st.anchor c.uuid c.payload.dbGeneration ∧
      pages = c.image.map some

section Rests

variable {dek : Dek} {st : Freehold.Stored} {disk : Disk} {db : DbName} {c : DbCopy} {q : Pool}
  {pages : List (Option Block)}

theorem onDisk_of_live (live : q.Live dek st) (paired : PairedOn dek st.disk db) : q.OnDisk db := by
  refine ⟨fun other _ file found => live.wf.named other file found, fun file held => ?_,
    fun free listed => (live.wf.cleared free listed).2⟩
  obtain ⟨mfile, found, manifest⟩ := Pool.manifestFile_eq_some.mp held
  rw [live.dek_eq]
  apply paired
  rw [← live.content_eq, live.wf.content_eq, found, ← manifest]
  rfl

theorem DbCopy.On.described (on : c.On dek st.disk db) (live : q.Live dek st)
    (fresh : Pool.Fresh dek st.anchor c.uuid c.payload.dbGeneration) :
    q.Described db c.uuid c.payload c.image := by
  obtain ⟨data, held, opens, blank⟩ := on.main
  obtain ⟨file, found, same, _⟩ := live.found held
  refine ⟨?_, on.records, ⟨file, found, ?_, ?_⟩, on.headed, ?_, ?_⟩
  · rw [live.readManifest_eq]
    exact on.manifest
  · rw [same, live.dek_eq]
    exact opens
  · rw [same]
    exact blank
  · rw [live.dek_eq, live.anchor_eq]
    exact fresh
  · rw [live.hotJournal_eq, live.dek_eq]
    exact on.cold

theorem shut_of_rests (live : q.Live dek st) (shut : q.dbs[db.name]? = none) (paired : PairedOn dek st.disk db)
    (rests : RestsOn dek st db pages) : DbSession.Shut db ⟨q, pages, .sealed⟩ := by
  refine ⟨live.wf, onDisk_of_live live paired, shut, rfl, ?_⟩
  rcases rests with ⟨missing, blank⟩ | ⟨c, on, fresh, shape⟩
  · exact .inl ⟨⟨fun other listed => live.missing (missing other listed), shut⟩, blank⟩
  · exact .inr ⟨c.image, c.uuid, c.payload, shape, on.described live fresh⟩

theorem on_of_described {uuid : Uuid} {payload : ManifestPayload} {image : List Block} (live : q.Live dek st)
    (described : q.Described db uuid payload image) :
    DbCopy.On dek st.disk db ⟨uuid, payload, image⟩ ∧ Pool.Fresh dek st.anchor uuid payload.dbGeneration := by
  obtain ⟨file, found, opens, blank⟩ := described.main
  rw [live.dek_eq] at opens
  have held : st.disk db.name = some file.data := by
    rw [← live.content_eq, live.wf.content_eq, found]
    rfl
  refine ⟨⟨?_, described.records, ⟨file.data, held, opens, blank⟩, described.headed, ?_⟩, ?_⟩
  · rw [← live.readManifest_eq]
    exact described.read
  · rw [← live.hotJournal_eq, ← live.dek_eq]
    exact described.cold
  · rw [← live.dek_eq, ← live.anchor_eq]
    exact described.fresh

/-- Only the files of the database are looked at. -/
theorem DbCopy.On.of_same (on : c.On dek disk db) {other : Disk} (main : other db.name = disk db.name)
    (manifest : other (manifestName db.name) = disk (manifestName db.name))
    (cold : Pool.hotOn other db.name (.dbKey dek c.uuid) c.uuid = false) : c.On dek other db := by
  refine ⟨?_, on.records, ?_, on.headed, cold⟩
  · rw [← on.manifest, Pool.manifestOn, Pool.manifestOn, manifest]
  · rw [main]
    exact on.main

end Rests

namespace VaultSession

section Rests

variable {s : VaultSession} {stem : Stem} {pending : Finset Uuid}

theorem Kept.live (kept : s.Kept pending) : s.pool.Live s.pool.dek s.pool.stored := ⟨kept.wf, rfl, rfl⟩

theorem Kept.pairedOn (kept : s.Kept pending) (stem : Stem) : PairedOn s.pool.dek s.pool.stored.disk stem.db := by
  have onDisk : s.pool.OnDisk stem.db := by
    rcases kept.each stem with shut | opened
    · exact shut.onDisk
    · obtain ⟨st, within⟩ := opened.open_db
      exact within.serving.onDisk
  intro file held
  obtain ⟨mfile, found, same, _⟩ := kept.live.found held
  exact onDisk.paired file (Pool.manifestFile_eq_some.mpr ⟨mfile, found, same⟩)

theorem Kept.restsOn (kept : s.Kept pending) (sealed : s.phase stem = .sealed) :
    RestsOn s.pool.dek s.pool.stored stem.db (s.pages stem) := by
  have described : ∀ {image uuid payload}, s.pages stem = image.map some →
      s.pool.Described stem.db uuid payload image → RestsOn s.pool.dek s.pool.stored stem.db (s.pages stem) := by
    intro image uuid payload shape described
    obtain ⟨on, fresh⟩ := on_of_described kept.live described
    exact .inr ⟨_, on, fresh, shape⟩
  rcases kept.each stem with shut | opened
  · rcases shut.image with ⟨missing, blank⟩ | ⟨image, uuid, payload, shape, found⟩
    · refine .inl ⟨fun other listed => ?_, blank⟩
      show s.pool.content other = none
      have none_there : s.pool.files[other]? = none := missing.missing other listed
      rw [kept.wf.content_eq, none_there]
      rfl
    · exact described shape found
  · obtain ⟨_, _, image, uuid, payload, shape, found⟩ := opened.described sealed
    exact described shape found

theorem Kept.uuidOf_iff (kept : s.Kept pending) {uuid : Uuid} : uuidOf s.pool stem uuid ↔
    ∃ payload, Pool.manifestOn s.pool.dek s.pool.stored.disk (manifestName stem.db.name) = .ok (uuid, payload) := by
  unfold uuidOf
  rw [kept.live.readManifest_eq]

end Rests

/-- The receiver once the databases of the sender have replaced its own of the same names. -/
def joined (s r : VaultSession) (q : Pool) : VaultSession :=
  ⟨q, fun stem => if s.pool.hasFilename stem.db.name then s.pages stem else r.pages stem, fun _ => .sealed⟩

/-- What the receiver of an image has to provide: the key of the sender, windows that let its generations
through and room for those that are missing, no hot journal of its databases, and no uuid of its own under
another name. -/
structure Receives (s r : VaultSession) (pending : Finset Uuid) : Prop where
  dek : r.pool.dek = s.pool.dek
  passes : ∀ (stem : Stem) uuid payload, s.pool.readManifest (manifestName stem.db.name) = .ok (uuid, payload) →
    Pool.freshnessGate (r.pool.window uuid) payload.dbGeneration = .ok ()
  cold : ∀ stem uuid, uuidOf s.pool stem uuid →
    Pool.hotOn r.pool.content stem.db.name (.dbKey r.pool.dek uuid) uuid = false
  apart : ∀ stem other uuid, uuidOf s.pool stem uuid → uuidOf r.pool other uuid → stem = other
  listed : ∀ stem uuid, uuidOf s.pool stem uuid → uuid ∈ pending
  room : (r.pool.windowed ∪ pending).card ≤ anchorCap

section Joined

variable {s r : VaultSession} {q : Pool} {st : Freehold.Stored} {stem : Stem} {pending : Finset Uuid}
  {image : BundleFiles}

/-- The files of a database are replaced together, the journal excepted. -/
theorem importedDisk_image (kept : s.Kept ∅) (sealed : ∀ stem, s.phase stem = .sealed) (stem : Stem)
    (disk : Disk) :
    let files := s.pool.dbNames.flatMap s.pool.copies
    Pool.importedDisk files disk (journalName stem.db.name) = disk (journalName stem.db.name) ∧
      (∀ name ∈ [stem.db.name, manifestName stem.db.name], Pool.importedDisk files disk name =
        if s.pool.hasFilename stem.db.name then s.pool.content name else disk name) := by
  intro files
  have held : ∀ file ∈ files, s.pool.content file.1 = some file.2 := fun file listed =>
    (Pool.mem_exported.mp listed).2
  have named : ∀ name, name ∈ files.map Prod.fst ↔
      (∃ db ∈ s.pool.dbNames, name = db ∨ name = manifestName db) ∧ s.pool.content name ≠ none := by
    intro name
    rw [List.mem_map]
    constructor
    · rintro ⟨⟨_, data⟩, listed, rfl⟩
      obtain ⟨of_db, found⟩ := Pool.mem_exported.mp listed
      exact ⟨of_db, found ▸ Option.some_ne_none data⟩
    · rintro ⟨of_db, there⟩
      obtain ⟨data, found⟩ := Option.ne_none_iff_exists'.mp there
      exact ⟨(name, data), Pool.mem_exported.mpr ⟨of_db, found⟩, rfl⟩
  have isDb : ∀ db ∈ s.pool.dbNames, endsWith db dbSuffix = true := fun db listed =>
    (Pool.mem_dbNames.mp listed).2
  refine ⟨?_, fun name listed => ?_⟩
  · rw [Pool.importedDisk_of_held held, if_neg]
    rw [named]
    rintro ⟨⟨db, of_db, same | same⟩, _⟩
    · have none_of := Pool.satelliteParent_db (isDb db of_db)
      rw [← same, Pool.satelliteParent_journalName] at none_of
      cases none_of
    · exact journalName_ne_manifestName _ _ same
  · rw [Pool.importedDisk_of_held held]
    by_cases there : s.pool.hasFilename stem.db.name = true
    · rw [if_pos there, if_pos]
      rw [named]
      have of_db : stem.db.name ∈ s.pool.dbNames := Pool.mem_dbNames.mpr ⟨there, Stem.isDb⟩
      obtain ⟨_, _, image, uuid, payload, _, described⟩ := kept.described (sealed stem) there
      simp only [List.mem_cons, List.not_mem_nil, or_false] at listed
      refine ⟨⟨_, of_db, listed⟩, ?_⟩
      rw [kept.wf.content_eq]
      rcases listed with rfl | rfl
      · obtain ⟨file, found, _⟩ := described.main
        rw [found]
        exact Option.some_ne_none _
      · obtain ⟨mfile, _, found, _⟩ := Pool.readManifest_file described.read
        rw [found]
        exact Option.some_ne_none _
    · rw [if_neg there, if_neg]
      rw [named]
      simp only [List.mem_cons, List.not_mem_nil, or_false] at listed
      rintro ⟨⟨db, of_db, same | same⟩, _⟩
      · rcases listed with rfl | rfl
        · exact there (same ▸ (Pool.mem_dbNames.mp of_db).1)
        · exact Pool.db_ne_manifestName (isDb db of_db) same.symm
      · rcases listed with rfl | rfl
        · exact Pool.db_ne_manifestName Stem.isDb same
        · rw [manifestName_injective same] at there
          exact there (Pool.mem_dbNames.mp of_db).1

/-- A receiver with the files of the image in its directory, all its connections closed. -/
structure Applied (s r : VaultSession) (q : Pool) : Prop where
  dbs : q.dbs = ∅
  live : ∃ st, q.Live r.pool.dek st ∧ st.anchor = r.pool.anchor ∧
    st.disk = Pool.importedDisk (s.pool.dbNames.flatMap s.pool.copies) r.pool.content

theorem Applied.windowed (applied : Applied s r q) : q.windowed = r.pool.windowed := by
  obtain ⟨st, live, anchor, _⟩ := applied.live
  rw [Pool.windowed, live.dek_eq, live.anchor_eq, anchor, Pool.windowed]

/-- The databases of both are there. -/
theorem Applied.hasFilename (applied : Applied s r q) (sender : s.Kept ∅) (receiver : r.Kept ∅)
    (sealed : ∀ stem, s.phase stem = .sealed) : q.hasFilename stem.db.name = true ↔
      s.pool.hasFilename stem.db.name = true ∨ r.pool.hasFilename stem.db.name = true := by
  obtain ⟨st, live, _, disk⟩ := applied.live
  have main := (importedDisk_image sender sealed stem r.pool.content).2 stem.db.name (by simp)
  rw [← disk] at main
  rw [live.hasFilename, main]
  by_cases there : s.pool.hasFilename stem.db.name = true
  · have held := sender.live.hasFilename.mp there
    rw [if_pos there]
    exact ⟨fun _ => .inl there, fun _ => held⟩
  · rw [if_neg there, receiver.live.hasFilename]
    exact ⟨fun held => .inr held, fun either => either.resolve_left there⟩

/-- The manifest of a database is that of the sender, if it has the database. -/
theorem Applied.uuidOf_iff (applied : Applied s r q) (sender : s.Kept ∅) (receiver : r.Kept ∅)
    (sealed : ∀ stem, s.phase stem = .sealed) (dek : r.pool.dek = s.pool.dek) {uuid : Uuid} :
    uuidOf q stem uuid ↔
      if s.pool.hasFilename stem.db.name then uuidOf s.pool stem uuid else uuidOf r.pool stem uuid := by
  obtain ⟨st, live, _, disk⟩ := applied.live
  have files := (importedDisk_image sender sealed stem r.pool.content).2
  have manifest := files (manifestName stem.db.name) (by simp)
  rw [← disk] at manifest
  rw [sender.uuidOf_iff, receiver.uuidOf_iff]
  unfold uuidOf
  rw [live.readManifest_eq, Pool.manifestOn]
  by_cases there : s.pool.hasFilename stem.db.name = true
  · rw [if_pos there] at manifest ⊢
    rw [manifest, dek]
    rfl
  · rw [if_neg there] at manifest ⊢
    rw [manifest]
    rfl

theorem joined_restsOn (sender : s.Kept ∅) (receiver : r.Kept ∅)
    (sealed : ∀ stem, s.phase stem = .sealed) (sealed_r : ∀ stem, r.phase stem = .sealed)
    (fits : Receives s r pending) {st : Freehold.Stored} (anchor : st.anchor = r.pool.anchor)
    (disk : st.disk = Pool.importedDisk (s.pool.dbNames.flatMap s.pool.copies) r.pool.content) (stem : Stem) :
    PairedOn r.pool.dek st.disk stem.db ∧ RestsOn r.pool.dek st stem.db ((joined s r q).pages stem) := by
  obtain ⟨journal, files⟩ := importedDisk_image sender sealed stem r.pool.content
  have main := files stem.db.name (by simp)
  have manifest := files (manifestName stem.db.name) (by simp)
  rw [← disk] at main manifest journal
  have paired_s := sender.pairedOn stem
  have rests_s := sender.restsOn (sealed stem)
  rw [← fits.dek] at paired_s rests_s
  by_cases there : s.pool.hasFilename stem.db.name = true
  · rw [if_pos there] at main manifest
    refine ⟨fun file held => paired_s file (manifest.symm.trans held), ?_⟩
    show RestsOn r.pool.dek st stem.db (if s.pool.hasFilename stem.db.name then _ else _)
    rw [if_pos there]
    rcases rests_s with ⟨missing, _⟩ | ⟨c, on, _, shape⟩
    · obtain ⟨file, found⟩ := Pool.hasFilename_iff.mp there
      have none_there : s.pool.content stem.db.name = none := missing _ stem.db.mem_files
      rw [sender.wf.content_eq, found] at none_there
      cases none_there
    · have read : s.pool.readManifest (manifestName stem.db.name) = .ok (c.uuid, c.payload) := by
        rw [sender.live.readManifest_eq, ← fits.dek]
        exact on.manifest
      refine .inr ⟨c, on.of_same main manifest ?_, ⟨?_, ?_⟩, shape⟩
      · rw [← fits.cold stem c.uuid ⟨c.payload, read⟩, Pool.hotOn, Pool.hotOn, journal]
      · rw [anchor]
        exact fits.passes stem c.uuid c.payload read
      · rw [anchor]
        apply Pool.recordable
        have inside : insert c.uuid r.pool.windowed ⊆ r.pool.windowed ∪ pending :=
          Finset.insert_subset (Finset.mem_union_right _ (fits.listed stem c.uuid ⟨c.payload, read⟩))
            Finset.subset_union_left
        exact (Finset.card_le_card inside).trans fits.room
  · rw [if_neg there] at main manifest
    refine ⟨fun file held => receiver.pairedOn stem file (manifest.symm.trans held), ?_⟩
    show RestsOn r.pool.dek st stem.db (if s.pool.hasFilename stem.db.name then _ else _)
    rw [if_neg there]
    rcases receiver.restsOn (sealed_r stem) with ⟨missing, blank⟩ | ⟨c, on, fresh, shape⟩
    · refine .inl ⟨fun other listed => ?_, blank⟩
      simp only [DbName.files, List.mem_cons, List.not_mem_nil, or_false] at listed
      rcases listed with rfl | rfl | rfl
      · rw [main]
        exact missing _ (by simp [DbName.files])
      · rw [journal]
        exact missing _ (by simp [DbName.files])
      · rw [manifest]
        exact missing _ (by simp [DbName.files])
    · refine .inr ⟨c, on.of_same main manifest ?_, anchor ▸ fresh, shape⟩
      rw [← on.cold, Pool.hotOn, Pool.hotOn, journal]
      rfl

/-- The joined vault is one whose databases can be opened. -/
theorem Applied.kept (applied : Applied s r q) (sender : s.Kept ∅) (receiver : r.Kept ∅)
    (sealed : ∀ stem, s.phase stem = .sealed) (sealed_r : ∀ stem, r.phase stem = .sealed)
    (fits : Receives s r pending) : (joined s r q).Kept pending := by
  have manifests (stem : Stem) (uuid : Uuid) :=
    @Applied.uuidOf_iff s r q stem applied sender receiver sealed fits.dek uuid
  refine ⟨fun stem => .inl ?_, fun stem uuid found => ?_, fun first second uuid one two => ?_, ?_⟩
  · obtain ⟨st, live, anchor, disk⟩ := applied.live
    obtain ⟨paired, rests⟩ := @joined_restsOn s r q pending sender receiver sealed sealed_r fits st anchor disk stem
    have shut : q.dbs[stem.db.name]? = none := by
      rw [applied.dbs]
      exact Std.ExtTreeMap.getElem?_empty
    exact shut_of_rests live shut paired rests
  · show uuid ∈ q.windowed ∪ pending
    rw [applied.windowed]
    have found := (manifests stem uuid).mp found
    split at found
    · exact Finset.mem_union_right _ (fits.listed stem uuid found)
    · have held := receiver.windows.anchored stem uuid found
      rw [Finset.union_empty] at held
      exact Finset.mem_union_left _ held
  · have one := (manifests first uuid).mp one
    have two := (manifests second uuid).mp two
    split at one <;> split at two
    · exact sender.windows.apart first second uuid one two
    · exact fits.apart first second uuid one two
    · exact (fits.apart second first uuid two one).symm
    · exact receiver.windows.apart first second uuid one two
  · show (q.windowed ∪ pending).card ≤ anchorCap
    rw [applied.windowed]
    exact fits.room

/-- Only the uuids of databases of the sender need room. -/
theorem Receives.exact (fits : Receives s r pending) : ∃ exact ⊆ pending, Receives s r exact ∧
    ∀ uuid ∈ exact, ∃ stem, uuidOf s.pool stem uuid := by
  classical
  let exact := pending.filter fun uuid => ∃ stem, uuidOf s.pool stem uuid
  have fewer : exact ⊆ pending := Finset.filter_subset _ _
  refine ⟨exact, fewer, ⟨fits.dek, fits.passes, fits.cold, fits.apart, fun stem uuid found => ?_, ?_⟩, ?_⟩
  · exact Finset.mem_filter.mpr ⟨fits.listed stem uuid found, stem, found⟩
  · have inside := Finset.card_le_card (Finset.union_subset_union_right (s := r.pool.windowed) fewer)
    exact inside.trans fits.room
  · exact fun uuid listed => (Finset.mem_filter.mp listed).2

/-- With all of them opened once, the joined vault is a vault like any other. -/
theorem Applied.opens (applied : Applied s r q) (sender : s.Kept ∅) (receiver : r.Kept ∅)
    (sealed : ∀ stem, s.phase stem = .sealed) (sealed_r : ∀ stem, r.phase stem = .sealed)
    (fits : Receives s r pending) (order : List (Stem × Uuid)) (made : ∀ o ∈ order,
      s.pool.hasFilename o.1.db.name = true ∨ r.pool.hasFilename o.1.db.name = true) :
    ∃ t, Runs.run step (joined s r q) (order.map fun o => .openDb o.1 o.2) = some t ∧
      t.pages = (joined s r q).pages ∧
      (∀ o ∈ order, ∃ image, t.pages o.1 = image.map some ∧ t.pool.servedImage o.1.db.name = .ok image) ∧
      ((∀ stem, s.pool.hasFilename stem.db.name = true → stem ∈ order.map Prod.fst) →
        AtRest { t with pool := t.pool.reopen t.pool.dek }) := by
  obtain ⟨exact, _, fits, claimed⟩ := fits.exact
  have kept := applied.kept sender receiver sealed sealed_r fits
  have there : ∀ o ∈ order, q.hasFilename o.1.db.name = true := fun o listed =>
    (applied.hasFilename sender receiver sealed).mpr (made o listed)
  obtain ⟨t, ran, pages, phase, opened, left, fewer, none_of, last⟩ := kept.opens order (fun _ _ => rfl) there
  have sealed_t : ∀ stem, t.phase stem = .sealed := fun stem => congrFun phase stem
  refine ⟨t, ran, pages, fun o listed => ?_, fun all => ?_⟩
  · exact serves_opened (opened o.1 (.inr (List.mem_map_of_mem listed))) (sealed_t o.1)
  · have none_left : left = ∅ := by
      refine Finset.eq_empty_of_forall_notMem fun uuid waits => ?_
      obtain ⟨stem, found⟩ := claimed uuid (fewer waits)
      have there : s.pool.hasFilename stem.db.name = true := by
        by_contra lacks
        rcases sender.restsOn (sealed stem) with ⟨missing, _⟩ | ⟨c, on, _⟩
        · obtain ⟨_, read⟩ := sender.uuidOf_iff.mp found
          rw [Pool.manifestOn, missing _ (by simp [DbName.files])] at read
          cases read
        · obtain ⟨data, held, _⟩ := on.main
          obtain ⟨file, found, _⟩ := sender.live.found held
          exact lacks (Pool.hasFilename_iff.mpr ⟨file, found⟩)
      obtain ⟨o, listed, same⟩ := List.mem_map.mp (all stem there)
      refine none_of uuid ⟨o, listed, ?_⟩ waits
      show uuidOf q o.1 uuid
      rw [same, applied.uuidOf_iff sender receiver sealed fits.dek, if_pos there]
      exact found
    rw [none_left] at last
    exact ⟨fun stem => DbSession.step_close (last.each stem) (sealed_t stem) rfl, (last.close sealed_t).windows⟩

end Joined

end VaultSession

section Apply

variable {vault : Vault} {image : BundleFiles}

/-- The names of databases, and of their manifests, are legal. -/
theorem validPoolFilename_stem (stem : Stem) : validPoolFilename stem.db.name = true ∧
    validPoolFilename (manifestName stem.db.name) = true := by
  have plain : stripSuffix stem.db.name manifestSuffix = none := by
    have apart : endsWith stem.db.name manifestSuffix = false := not_endsWith_of_endsWith Stem.isDb (by decide)
    rw [stripSuffix, apart, if_neg Bool.false_ne_true]
  have base : stripSuffix stem.db.name dbSuffix = some stem.1 := stripSuffix_append _ _
  have valid := stem.2
  simp only [validDbName, Bool.and_eq_true, decide_eq_true_eq] at valid
  have named : stem.1.all isNameChar = true := valid.2
  have legal : (!stem.1.isEmpty && decide (byteLen stem.1 ≤ 32) && stem.1.all isNameChar) = true := by
    rw [named, decide_eq_true valid.1.2]
    simpa using valid.1.1
  constructor
  · unfold validPoolFilename
    rw [plain]
    simp only [Option.getD_none, base]
    exact legal
  · unfold validPoolFilename
    rw [manifestName, stripSuffix_append]
    simp only [Option.getD_some, base]
    exact legal

theorem syncApply_run (unlocked : vault.unlocked = true) (image : BundleFiles) :
    let ran := Pool.importFiles image { vault.pool with dbs := ∅ }
    (Vault.syncApply image vault).state.pool = ran.state ∧
      ((Vault.syncApply image vault).result = .ok () ↔ ran.result = .ok ()) := by
  have shape : Vault.syncApply image vault = Vault.onPool "import_files" (Pool.importFiles image)
      (vault.withPool { vault.pool with dbs := ∅ }) := by
    unfold Vault.syncApply
    rw [Prog.get_bind, if_pos unlocked]
    rfl
  rw [shape]
  refine ⟨rfl, ?_⟩
  show Except.mapError _ (Pool.importFiles image { vault.pool with dbs := ∅ }).result = .ok () ↔ _
  cases (Pool.importFiles image { vault.pool with dbs := ∅ }).result <;> simp [Except.mapError]

theorem sessionImage_eq (wf : vault.pool.Wf) (taken : vault.sessionImage = .ok image) :
    image = vault.pool.dbNames.flatMap vault.pool.copies := by
  unfold Vault.sessionImage at taken
  split at taken
  · rw [Pool.exportAll_eq wf] at taken
    split at taken
    · next found => cases found
    · cases taken
    · next found => rw [← Except.ok.inj taken, ← Except.ok.inj found]
  · cases taken

end Apply

namespace TwoDevices

open TwoDatabases

def deviceOf (pool : Pool) : Vault := ⟨pool, true, none, none, none, none, none, []⟩

theorem deviceOf_pool (pool : Pool) : (deviceOf pool).pool = pool := rfl

def image : BundleFiles := both.pool.dbNames.flatMap both.pool.copies

theorem unread (stem : Stem) (uuid : Uuid) : ¬VaultSession.uuidOf start.pool stem uuid := by
  rintro ⟨payload, read⟩
  have missing := (start_rests.each stem).image
  obtain ⟨mfile, _, found, _⟩ := Pool.readManifest_file read
  have none_there : start.pool.files[manifestName stem.db.name]? = none := by
    rw [start, ReopenSample.start, Pool.getElem?_reopen]
    rfl
  cases none_there.symm.trans found

theorem both_pages : both.pages a = [some (pageOf ReopenSample.page)] := by
  have apart : a ≠ b := by decide
  simp only [both, committed, VaultSession.after, Function.update_of_ne apart, Function.update_self]
  rfl

theorem both_named : ∀ name ∈ both.pool.dbNames, ∃ stem : Stem, name = stem.db.name := by
  have names : both.pool.dbNames = [a.db.name, b.db.name] := by decide +kernel
  intro name listed
  rw [names] at listed
  rcases List.mem_cons.mp listed with rfl | rest
  · exact ⟨a, rfl⟩
  · exact ⟨b, List.mem_singleton.mp rest⟩

theorem start_receives : VaultSession.Receives both start both.pool.windowed := by
  have none_windowed : start.pool.windowed = ∅ := by decide +kernel
  have sender := VaultSession.reached_kept start_rests both_reached
  refine ⟨by decide +kernel, fun stem uuid payload _ => ?_, fun stem uuid _ => ?_, fun stem other uuid _ held => ?_,
    fun stem uuid found => ?_, ?_⟩
  · have none_there : start.pool.window uuid = none := by
      by_contra there
      rw [← ne_eq, ← Pool.mem_windowed, none_windowed] at there
      cases there
    rw [none_there]
    rfl
  · have none_there : start.pool.content (journalName stem.db.name) = none := by
      rw [start, ReopenSample.start, Pool.content_reopen]
      rfl
    rw [Pool.hotOn, none_there]
  · exact absurd held (unread other uuid)
  · have held := sender.windows.anchored stem uuid found
    rwa [Finset.union_empty] at held
  · rw [none_windowed, Finset.empty_union]
    exact both.pool.card_windowed

theorem deviceOf_image {pool : Pool} (wf : pool.Wf)
    (some_file : (pool.dbNames.flatMap pool.copies).isEmpty = false) :
    (deviceOf pool).sessionImage = .ok (pool.dbNames.flatMap pool.copies) := by
  unfold Vault.sessionImage
  rw [deviceOf_pool, Pool.exportAll_eq wf]
  cases shape : pool.dbNames.flatMap pool.copies with
  | nil =>
      rw [shape] at some_file
      cases some_file
  | cons file rest => rfl

theorem image_taken : (deviceOf both.pool).sessionImage = .ok image :=
  deviceOf_image (VaultSession.reached_kept start_rests both_reached).wf (by decide +kernel)

/-- There is a slot for each of the files. -/
theorem image_fits : (start.pool.newNames image).card ≤ start.pool.available.length := by
  have few : image.length ≤ start.pool.available.length := by decide +kernel
  have fewer : (start.pool.newNames image).card ≤ (image.map Prod.fst).toFinset.card := Finset.card_filter_le _ _
  have names := (image.map Prod.fst).toFinset_card_le
  rw [List.length_map] at names
  omega

end TwoDevices

end Freehold
