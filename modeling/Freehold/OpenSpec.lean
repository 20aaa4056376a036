import Freehold.OpenMainDb
import Freehold.PoolWrites

set_option autoImplicit false

namespace Freehold

open CrashLogic

theorem except_bind_ok {ε α β : Type} {first : Except ε α} {next : α → Except ε β} {b : β} :
    (first >>= next) = .ok b ↔ ∃ a, first = .ok a ∧ next a = .ok b := by
  cases first with
  | error e => simp [bind, Except.bind]
  | ok a => simp [bind, Except.bind]

theorem toOption_eq_some {ε α : Type} {value : Except ε α} {a : α} :
    value.toOption = some a ↔ value = .ok a := by
  cases value with
  | error e => simp [Except.toOption]
  | ok found => simp [Except.toOption]

section Blocks

variable {file : SyncAccessFile} {kdb : Key} {uuid : Uuid} {fid : FileId}

theorem length_decryptCells {k : Nat} {cells : List Cell} {image : List Block}
    (ok : decryptCells kdb uuid fid k cells = .ok image) : image.length = cells.length := by
  induction cells generalizing k image with
  | nil => cases ok; rfl
  | cons cell rest ih =>
      rw [decryptCells] at ok
      split at ok
      · cases ok
      · obtain ⟨tail, decrypted, shape⟩ := except_bind_ok.mp ok
        cases shape
        rw [List.length_cons, List.length_cons, ih decrypted]

/-- Reading the blocks one by one and decrypting the cells in one pass agree. -/
theorem readBlocks_eq_ok (crypto : file.crypto = kdb) (domain : file.keyDomain = uuid)
    (bound : file.fileId = fid) {image : List Block} (rest : List Cell) (k : Nat)
    (suffix : file.data.cells.drop k = rest) :
    file.readBlocks k rest.length = .ok image ↔ decryptCells kdb uuid fid k rest = .ok image := by
  induction rest generalizing k image with
  | nil => rfl
  | cons cell rest ih =>
      have here : file.data.cells[k]? = some cell := by
        rw [← List.head?_drop, suffix]
        rfl
      have later : file.data.cells.drop (k + 1) = rest := by
        rw [← List.tail_drop, suffix]
        rfl
      simp only [List.length_cons, SyncAccessFile.readBlocks, decryptCells, here, crypto, domain, bound]
      cases cell.openWith kdb (.block fid uuid k) with
      | none => exact iff_of_false (fun ok => nomatch ok) fun ok => nomatch ok
      | some plain =>
          simp only [except_bind_ok]
          constructor
          · rintro ⟨tail, ok, shape⟩
            exact ⟨tail, (ih (k + 1) later).mp ok, shape⟩
          · rintro ⟨tail, ok, shape⟩
            exact ⟨tail, (ih (k + 1) later).mpr ok, shape⟩

/-- A file read at its whole physical length gives its decrypted blocks. -/
theorem readImage_eq_ok (crypto : file.crypto = kdb) (domain : file.keyDomain = uuid)
    (bound : file.fileId = fid) (whole : file.logicalSize = some (physLogical file.data))
    {image : List Block} :
    file.readImage = .ok image ↔ decryptWholeFile file.data kdb uuid fid = .ok image := by
  have positive : 0 < blockSize := by decide
  have count : file.ensureLogical / blockSize = file.data.cells.length := by
    rw [SyncAccessFile.ensureLogical, whole, Option.getD_some, physLogical,
      Nat.mul_div_cancel _ positive, Region.length_cells]
  rw [SyncAccessFile.readImage, count, decryptWholeFile]
  exact readBlocks_eq_ok crypto domain bound file.data.cells 0 rfl

end Blocks

namespace Pool

section InMemory

variable {pool : Pool} {dek : Dek} {st : Stored}

/-- Handle state that no header and no byte depends on. -/
theorem Live.mapFiles (live : pool.Live dek st) {g : FileName → SyncAccessFile → SyncAccessFile}
    (header : ∀ name file, (g name file).header = file.header)
    (data : ∀ name file, (g name file).data = file.data)
    (fileId : ∀ name file, (g name file).fileId = file.fileId) :
    ({ pool with files := pool.files.map g } : Pool).Live dek st := by
  have found : ∀ (name : FileName), (pool.files.map g)[name]? = (pool.files[name]?).map (g name) := by
    intro name
    exact Std.ExtTreeMap.getElem?_map
  have same : ∀ (name : FileName) (file : SyncAccessFile), named name (g name file) = named name file := by
    intro name file
    rw [named, header, ← named]
  refine ⟨⟨?_, ?_, live.wf.cleared⟩, live.dek_eq, ?_⟩
  · intro name file present
    simp only [found] at present
    obtain ⟨old, held, rfl⟩ := Option.map_eq_some_iff.mp present
    rw [same]
    exact live.wf.named name old held
  · intro name file present
    simp only [found] at present
    obtain ⟨old, held, rfl⟩ := Option.map_eq_some_iff.mp present
    rw [fileId]
    exact live.wf.bound name old held
  · rw [← live.stored_eq, stored, stored, Stored.mk.injEq]
    refine ⟨?_, rfl, ?_⟩
    · simp only [capacity, Std.ExtTreeMap.size_map]
    · funext name
      simp only [content, found]
      cases pool.files[name]? with
      | none => rfl
      | some file => simp only [Option.map_some, Option.bind_some, same, data]

theorem modifyFile_eq_map (name : FileName) (f : SyncAccessFile → SyncAccessFile) :
    (pool.modifyFile name f).files =
      pool.files.map fun other file => if other = name then f file else file := by
  apply Std.ExtTreeMap.ext_getElem?
  intro other
  simp only [modifyFile, Std.ExtTreeMap.getElem?_modify, Std.ExtTreeMap.getElem?_map',
    Std.LawfulEqCmp.compare_eq_iff_eq]
  by_cases same : name = other
  · subst same
    simp
  · simp [same, Ne.symm same]

theorem Live.modifyFile (live : pool.Live dek st) {name : FileName}
    {f : SyncAccessFile → SyncAccessFile} (header : ∀ file, (f file).header = file.header)
    (data : ∀ file, (f file).data = file.data) (fileId : ∀ file, (f file).fileId = file.fileId) :
    (pool.modifyFile name f).Live dek st := by
  have mapped := live.mapFiles (g := fun other file => if other = name then f file else file)
    (by intro other file; split <;> simp only [header])
    (by intro other file; split <;> simp only [data])
    (by intro other file; split <;> simp only [fileId])
  rw [← modifyFile_eq_map] at mapped
  exact mapped

theorem Live.withDbs (live : pool.Live dek st) (dbs : Std.ExtTreeMap FileName DbState) :
    ({ pool with dbs := dbs } : Pool).Live dek st :=
  ⟨⟨live.wf.named, live.wf.bound, live.wf.cleared⟩, live.dek_eq, live.stored_eq⟩

theorem getElem?_modifyFile {name : FileName} {f : SyncAccessFile → SyncAccessFile} :
    (pool.modifyFile name f).files[name]? = (pool.files[name]?).map f := by
  simp [Pool.modifyFile]

end InMemory

/-- `read_manifest` of what the disk holds. -/
def manifestOn (dek : Dek) (disk : Disk) (mname : FileName) :
    Except OpfsSAHError (Uuid × ManifestPayload) :=
  match disk mname with
  | none => .error (.generic "manifest file not in pool")
  | some (.manifest file) =>
      match manifestPick dek mname file with
      | some payload => .ok (file.uuid, payload)
      | none =>
          .error (.generic
            "manifest failed to authenticate in both slots (wrong key, or tampered/corrupt)")
  | some _ => .error (.generic "manifest header missing/invalid")

/-- Whether the disk holds a hot journal of the database. -/
def hotOn (disk : Disk) (name : FileName) (kdb : Key) (uuid : Uuid) : Bool :=
  match disk (journalName name) with
  | some journal => journalIsHot journal kdb uuid (journalName name)
  | none => false

/-- The image a playback of the journal on the disk gives. -/
def replayOn (disk : Disk) (name : FileName) (kdb : Key) (uuid : Uuid) (data : Region) :
    Option (List Block) :=
  match disk (journalName name) with
  | some journal => (replayData data journal name (journalName name) kdb uuid).toOption
  | none => none

/-- The blocks of a main file, if they all authenticate. -/
def imageOf (data : Region) (name : FileName) (kdb : Key) (uuid : Uuid) : Option (List Block) :=
  (decryptWholeFile data kdb uuid (fileIdFor name)).toOption

/-- The freshness gates pass and the anchor has room for the window. -/
def Fresh (dek : Dek) (anchor : AnchorFile) (uuid : Uuid) (gen : Nat) : Prop :=
  freshnessGate (anchorEntry dek anchor uuid) gen = .ok () ∧
    anchorUpsert uuid (some gen) (some gen) none (anchorLoad dek anchor).2 ≠ none

/-- The root check passes, where the manifest has a root to check against. -/
def RootAccepted (payload : ManifestPayload) (image : List Block) : Prop :=
  payload.merkleRoot ≠ .zero → payload.accepts (rootOf image) = true

theorem accepts_iff {payload : ManifestPayload} {image : List Block} : payload.accepts (rootOf image) = true ↔
    rootOf image = payload.merkleRoot ∨ rootOf image = payload.prevMerkleRoot := by
  have nonzero := rootOf_ne_zero image
  simp only [ManifestPayload.accepts, Bool.or_eq_true, Bool.and_eq_true, decide_eq_true_eq]
  constructor
  · exact Or.imp_right And.right
  · apply Or.imp_right
    intro previous
    exact ⟨fun zero => nonzero (previous.trans zero), previous⟩

/-- What the checks of the data amount to: an empty main file passes unseen, one with
a hot journal on the image of the playback, any other on its own blocks. -/
def Verified (dek : Dek) (disk : Disk) (name : FileName) (data : Region) (uuid : Uuid)
    (payload : ManifestPayload) : Prop :=
  0 < data.size →
    if hotOn disk name (.dbKey dek uuid) uuid then
      payload.merkleRoot ≠ .zero →
        ∃ image, replayOn disk name (.dbKey dek uuid) uuid data = some image ∧
          payload.accepts (rootOf image) = true
    else
      (checkLayout data name (.dbKey dek uuid) uuid payload false).isOk = true ∧
        ∃ image, imageOf data name (.dbKey dek uuid) uuid = some image ∧ RootAccepted payload image

section Lookups

variable {pool : Pool} {dek : Dek} {st : Stored} {name : FileName} {data : Region}

theorem Live.found (live : pool.Live dek st) (held : st.disk name = some data) :
    ∃ file, pool.files[name]? = some file ∧ file.data = data ∧ file.fileId = fileIdFor name := by
  rw [← live.content_eq, live.wf.content_eq] at held
  obtain ⟨file, present, rfl⟩ := Option.map_eq_some_iff.mp held
  exact ⟨file, present, rfl, live.wf.bound name file present⟩

theorem Live.missing (live : pool.Live dek st) (absent : st.disk name = none) :
    pool.files[name]? = none := by
  rw [← live.content_eq, live.wf.content_eq] at absent
  exact Option.map_eq_none_iff.mp absent

theorem Live.readManifest_eq (live : pool.Live dek st) (mname : FileName) :
    pool.readManifest mname = manifestOn dek st.disk mname := by
  unfold readManifest manifestOn
  cases held : st.disk mname with
  | none => rw [live.missing held]
  | some region =>
      obtain ⟨file, present, same, _⟩ := live.found held
      simp only [present, same, live.dek_eq]
      cases region <;> rfl

theorem Live.hotJournal_eq (live : pool.Live dek st) (kdb : Key) (uuid : Uuid) :
    pool.hotJournal name kdb uuid = hotOn st.disk name kdb uuid := by
  unfold hotJournal hotOn
  cases held : st.disk (journalName name) with
  | none => rw [live.missing held]
  | some region =>
      obtain ⟨file, present, rfl, _⟩ := live.found held
      rw [present]

theorem Live.replayedImage_eq_ok (live : pool.Live dek st) (held : st.disk name = some data)
    {kdb : Key} {uuid : Uuid} {image : List Block} :
    pool.replayedImage name (journalName name) kdb uuid = .ok image ↔
      replayOn st.disk name kdb uuid data = some image := by
  unfold replayedImage replayOn
  obtain ⟨main, present, rfl, _⟩ := live.found held
  cases journal : st.disk (journalName name) with
  | none =>
      rw [live.missing journal]
      exact iff_of_false (fun ok => nomatch ok) fun ok => nomatch ok
  | some region =>
      obtain ⟨jf, found, rfl, _⟩ := live.found journal
      simp only [found, present, toOption_eq_some]

/-- A file is no satellite of itself. -/
theorem satelliteParent_ne_self (name : FileName) : satelliteParent name ≠ some name := by
  have shorter : ∀ suffix : FileName, suffix ≠ [] → stripSuffix name suffix ≠ some name := by
    intro suffix nonempty same
    rw [stripSuffix] at same
    split at same
    · next ends =>
        rw [endsWith, List.isSuffixOf_iff_suffix] at ends
        have lengths := congrArg List.length (Option.some.inj same)
        have fits := ends.length_le
        have positive := List.length_pos_of_ne_nil nonempty
        rw [List.length_take] at lengths
        omega
    · cases same
  intro parent
  rw [satelliteParent, Option.or_eq_some_iff] at parent
  cases parent with
  | inl journal => exact shorter _ (by decide) journal
  | inr wal => exact shorter _ (by decide) wal.2

theorem Live.bindMain (live : pool.Live dek st) (name : FileName) (kdb : Key) (uuid : Uuid)
    (logical : Option Nat) :
    (Pool.bindMain name kdb uuid logical pool).Live dek st :=
  live.modifyFile (fun _ => rfl) (fun _ => rfl) fun _ => rfl

theorem Live.bindSatellites (live : pool.Live dek st) (name : FileName) (kdb : Key) (uuid : Uuid)
    (payload : ManifestPayload) :
    (Pool.bindSatellites name kdb uuid payload pool).Live dek st := by
  apply live.mapFiles
  · intro fname file
    split <;> rfl
  · intro fname file
    split <;> rfl
  · intro fname file
    split <;> rfl

/-- Binding the satellites leaves the main file as it is. -/
theorem getElem?_bindSatellites {kdb : Key} {uuid : Uuid} {payload : ManifestPayload} :
    (Pool.bindSatellites name kdb uuid payload pool).files[name]? = pool.files[name]? := by
  rw [Pool.bindSatellites, Std.ExtTreeMap.getElem?_map]
  cases pool.files[name]? with
  | none => rfl
  | some file => rw [Option.map_some, if_neg (satelliteParent_ne_self name)]

/-- Rewriting the data of a mapped file in terms of what it held. -/
theorem Live.rewriteData (live : pool.Live dek st) (held : st.disk name = some data)
    (g : Region → Region) :
    (pool.modifyFile name fun file => { file with data := g file.data }).Live dek
      (st.put name (some (g data))) := by
  have same : (pool.modifyFile name fun file => { file with data := g file.data }) =
      Pool.setData name (g data) pool := by
    obtain ⟨file, present, rfl, _⟩ := live.found held
    rw [Pool.modifyFile, Pool.setData, Pool.mk.injEq]
    refine ⟨rfl, ?_, rfl, rfl, rfl⟩
    apply Std.ExtTreeMap.ext_getElem?
    intro other
    simp only [Std.ExtTreeMap.getElem?_modify, Std.LawfulEqCmp.compare_eq_iff_eq]
    split
    · rw [present]
      rfl
    · rfl
  rw [same]
  exact live.setData name (g data) (held ▸ Option.some_ne_none _)

end Lookups

/-- The main file as `open_main_db` binds it. -/
structure MainBound (q : Pool) (name : FileName) (kdb : Key) (uuid : Uuid) (data : Region) : Prop where
  bound : ∃ file, q.files[name]? = some file ∧ file.crypto = kdb ∧ file.keyDomain = uuid ∧
    file.fileId = fileIdFor name ∧ file.data = data ∧ file.logicalSize = some (physLogical data)

/-- A database adopted by the pool, with its main file bound over its whole length. -/
structure Opened (q : Pool) (name : FileName) (st : DbState) (data : Region) : Prop where
  db : q.dbs[name]? = some st
  main : MainBound q name st.crypto st.uuid data

section Checks

variable {q : Pool} {dek : Dek} {st : Stored} {name : FileName} {data : Region} {kdb : Key}
  {uuid : Uuid} {payload : ManifestPayload}

theorem imageOf_eq_some {image : List Block} : imageOf data name kdb uuid = some image ↔
    decryptWholeFile data kdb uuid (fileIdFor name) = .ok image := by
  rw [imageOf, toOption_eq_some]

theorem MainBound.readImage (main : MainBound q name kdb uuid data) {image : List Block} :
    (∃ file, q.files[name]? = some file ∧ file.readImage = .ok image) ↔
      imageOf data name kdb uuid = some image := by
  obtain ⟨file, present, crypto, domain, bound, rfl, whole⟩ := main.bound
  rw [imageOf_eq_some, ← readImage_eq_ok crypto domain bound whole]
  simp [present]

theorem MainBound.fullStateRoot (main : MainBound q name kdb uuid data) {root : Root} :
    q.fullStateRoot name = .ok root ↔
      ∃ image, imageOf data name kdb uuid = some image ∧ rootOf image = root := by
  obtain ⟨file, present, crypto, domain, bound, rfl, whole⟩ := main.bound
  unfold Pool.fullStateRoot
  rw [present]
  simp only [except_bind_ok, readImage_eq_ok crypto domain bound whole, imageOf_eq_some]
  apply exists_congr
  intro image
  apply and_congr_right
  intro _
  exact ⟨fun same => Except.ok.inj same, fun same => congrArg Except.ok same⟩

theorem checkRoot_hot (live : q.Live dek st) (held : st.disk name = some data) :
    q.checkRoot name kdb uuid payload true = .ok () ↔
      ∃ image, replayOn st.disk name kdb uuid data = some image ∧
        payload.accepts (rootOf image) = true := by
  unfold checkRoot replayJournalRoot
  simp only [if_true, except_bind_ok, live.replayedImage_eq_ok held]
  constructor
  · rintro ⟨root, ⟨image, replayed, shape⟩, checked⟩
    cases shape
    split at checked
    · next accepted => exact ⟨image, replayed, accepted⟩
    · cases checked
  · rintro ⟨image, replayed, accepted⟩
    refine ⟨rootOf image, ⟨image, replayed, rfl⟩, ?_⟩
    rw [if_pos accepted]

theorem checkRoot_cold (main : MainBound q name kdb uuid data) :
    q.checkRoot name kdb uuid payload false = .ok () ↔
      ∃ image, imageOf data name kdb uuid = some image ∧
        payload.accepts (rootOf image) = true := by
  unfold checkRoot
  simp only [Bool.false_eq_true, if_false, except_bind_ok, main.fullStateRoot]
  constructor
  · rintro ⟨root, ⟨image, decrypted, rfl⟩, checked⟩
    split at checked
    · next accepted => exact ⟨image, decrypted, accepted⟩
    · cases checked
  · rintro ⟨image, decrypted, accepted⟩
    refine ⟨rootOf image, ⟨image, decrypted, rfl⟩, ?_⟩
    rw [if_pos accepted]

/-- Where it succeeds, the layout check gives the whole physical length. -/
theorem checkLayout_ok {hot : Bool} {logical : Nat}
    (ok : checkLayout data name kdb uuid payload hot = .ok logical) :
    logical = physLogical data := by
  unfold checkLayout at ok
  split at ok
  · cases ok; rfl
  · split at ok
    · simp only at ok
      split at ok
      · cases ok
      · split at ok
        · cases ok
        · split at ok
          · cases ok
          · obtain ⟨_, _, shape⟩ := except_bind_ok.mp ok
            cases shape
            rfl
    · next blank =>
        cases ok
        have zero : data.size = 0 := by omega
        rw [physLogical, zero]
        rfl

end Checks

/-- A database whose manifest has no root yet, open without a hot journal, gets one. -/
def Migrates (disk : Disk) (name : FileName) (data : Region) (kdb : Key) (uuid : Uuid)
    (payload : ManifestPayload) : Prop :=
  0 < data.size ∧ hotOn disk name kdb uuid = false ∧ payload.merkleRoot = .zero

/-- What a verified database leaves: adopted as it is or, after a migration, with its
manifest sealed again. -/
def Adopted (dek : Dek) (st : Stored) (name : FileName) (data : Region) (uuid : Uuid)
    (payload : ManifestPayload) (q : Pool) : Prop :=
  (¬ Migrates st.disk name data (.dbKey dek uuid) uuid payload ∧ q.Live dek st ∧
    Opened q name ⟨uuid, .dbKey dek uuid, payload.dbGeneration, payload.merkleRoot⟩ data) ∨
  (Migrates st.disk name data (.dbKey dek uuid) uuid payload ∧ ∃ image sealed,
    imageOf data name (.dbKey dek uuid) uuid = some image ∧
    q.Live dek (st.put (manifestName name) (some sealed)) ∧
    Opened q name ⟨uuid, .dbKey dek uuid, payload.dbGeneration, rootOf image⟩ data)

section Verify

variable {pool : Pool} {dek : Dek} {st : Stored} {name : FileName} {data : Region}
  {uuid : Uuid} {payload : ManifestPayload} {crash : Stored → Prop}

theorem manifestName_ne_self (name : FileName) : manifestName name ≠ name := by
  intro same
  have lengths := congrArg List.length same
  rw [manifestName, List.length_append] at lengths
  have positive : 0 < manifestSuffix.length := by decide
  omega

/-- The migration of a database just adopted: it succeeds where the image decrypts. -/
theorem meets_sealRootMigration (live : pool.Live dek st)
    {db : DbState} (adopted : pool.dbs[name]? = some db)
    (main : MainBound pool name db.crypto db.uuid data)
    {manifest : Region} (hasManifest : st.disk (manifestName name) = some manifest)
    (before : crash st) :
    ((sealRootMigration name) pool).Meets (fun q => crash q.stored)
      (fun _ q => ∃ image sealed, imageOf data name db.crypto db.uuid = some image ∧
        q.Live dek (st.put (manifestName name) (some sealed)) ∧
        Opened q name { db with committedRoot := rootOf image } data)
      (fun _ q => imageOf data name db.crypto db.uuid = none ∧ q.stored = st) := by
  unfold sealRootMigration
  apply meets_get_bind
  simp only [adopted]
  apply meets_bind (fun root q => q = pool ∧ ∃ image,
    imageOf data name db.crypto db.uuid = some image ∧ rootOf image = root)
  · apply meets_ofExcept
    · intro root ok
      exact ⟨rfl, main.fullStateRoot.mp ok⟩
    · intro e failed
      refine ⟨?_, live.stored_eq⟩
      rw [Option.eq_none_iff_forall_ne_some]
      intro image decrypted
      have ok := main.fullStateRoot.mpr ⟨image, decrypted, rfl⟩
      rw [failed] at ok
      cases ok
  · rintro root q ⟨rfl, image, decrypted, rfl⟩
    have has : q.hasFilename (manifestName name) = true := by
      rw [live.hasFilename, hasManifest]
      exact Option.some_ne_none _
    rw [if_neg (rootOf_ne_zero image), if_pos has]
    unfold writeManifestSlot
    have written := live.rewriteData hasManifest fun region => region.writeSlot (db.generation % 2)
      (.sealed db.crypto (.block (fileIdFor (manifestName name)) db.uuid (db.generation % 2))
        ⟨db.generation, db.uuid, rootOf image, .zero, q.lengthTable name⟩)
    apply meets_effect_bind (live.stored_eq ▸ before)
    apply meets_modify
    refine ⟨image, _, decrypted, written.withDbs _, ?_, ?_⟩
    · simp
    · obtain ⟨file, present, crypto, domain, bound, same, whole⟩ := main.bound
      refine ⟨file, ?_, crypto, domain, bound, same, whole⟩
      simp only [Pool.modifyFile, Std.ExtTreeMap.getElem?_modify, Std.LawfulEqCmp.compare_eq_iff_eq,
        if_neg (manifestName_ne_self name)]
      exact present

theorem meets_adoptDb (live : pool.Live dek st)
    (main : MainBound pool name (.dbKey dek uuid) uuid data)
    {manifest : Region} (hasManifest : st.disk (manifestName name) = some manifest)
    (before : crash st) :
    ((adoptDb name (.dbKey dek uuid) uuid payload data (hotOn st.disk name (.dbKey dek uuid) uuid))
        pool).Meets (fun q => crash q.stored)
      (fun _ q => Adopted dek st name data uuid payload q)
      (fun _ q => Migrates st.disk name data (.dbKey dek uuid) uuid payload ∧
        imageOf data name (.dbKey dek uuid) uuid = none ∧ q.stored = st) := by
  unfold adoptDb
  let db : DbState := ⟨uuid, .dbKey dek uuid, payload.dbGeneration, payload.merkleRoot⟩
  apply meets_modify_bind
  have open' := live.withDbs (pool.dbs.insert name db)
  have adopted : ({ pool with dbs := pool.dbs.insert name db } : Pool).dbs[name]? = some db := by simp
  have main' : MainBound { pool with dbs := pool.dbs.insert name db } name db.crypto db.uuid data :=
    ⟨main.bound⟩
  by_cases migrates : 0 < data.size ∧ hotOn st.disk name (.dbKey dek uuid) uuid = false ∧
      payload.merkleRoot = .zero
  · rw [if_pos migrates]
    apply (meets_sealRootMigration open' adopted main' hasManifest before).mono (fun _ kept => kept)
    · rintro _ q ⟨image, sealed, decrypted, live', opened⟩
      exact Or.inr ⟨migrates, image, sealed, decrypted, live', opened⟩
    · rintro _ q ⟨undecrypted, same⟩
      exact ⟨migrates, undecrypted, same⟩
  · rw [if_neg migrates]
    exact meets_pure (Or.inl ⟨migrates, open', adopted, main'⟩)

/-- The layout of an empty file or of one with a hot journal is not looked at. -/
theorem checkLayout_unseen {kdb : Key} {hot : Bool} (unseen : 0 < data.size → hot = true) :
    checkLayout data name kdb uuid payload hot = .ok (physLogical data) := by
  unfold checkLayout
  by_cases sized : 0 < data.size
  · rw [if_pos ⟨sized, unseen sized⟩]
  · have zero : data.size = 0 := by omega
    rw [if_neg (by tauto), if_neg sized, physLogical, zero]
    rfl

/-- What the root check alone asks for. -/
def RootChecked (dek : Dek) (disk : Disk) (name : FileName) (data : Region) (uuid : Uuid)
    (payload : ManifestPayload) : Prop :=
  0 < data.size → payload.merkleRoot ≠ .zero → ∃ image,
    (if hotOn disk name (.dbKey dek uuid) uuid then replayOn disk name (.dbKey dek uuid) uuid data
      else imageOf data name (.dbKey dek uuid) uuid) = some image ∧
    payload.accepts (rootOf image) = true

theorem checkedRoot_iff {q : Pool} (payload : ManifestPayload) (live : q.Live dek st) (held : st.disk name = some data)
    (main : MainBound q name (.dbKey dek uuid) uuid data) :
    (if 0 < data.size ∧ payload.merkleRoot ≠ .zero then
        q.checkRoot name (.dbKey dek uuid) uuid payload (hotOn st.disk name (.dbKey dek uuid) uuid)
      else .ok ()) = .ok () ↔ RootChecked dek st.disk name data uuid payload := by
  unfold RootChecked
  by_cases needed : 0 < data.size ∧ payload.merkleRoot ≠ .zero
  · rw [if_pos needed]
    cases hot : hotOn st.disk name (.dbKey dek uuid) uuid with
    | true =>
        rw [checkRoot_hot live held]
        simp only [if_true]
        exact ⟨fun checked _ _ => checked, fun checked => checked needed.1 needed.2⟩
    | false =>
        rw [checkRoot_cold main]
        simp only [Bool.false_eq_true, if_false]
        exact ⟨fun checked _ _ => checked, fun checked => checked needed.1 needed.2⟩
  · rw [if_neg needed]
    refine iff_of_true rfl ?_
    intro sized rooted
    exact absurd ⟨sized, rooted⟩ needed

theorem Verified.rootChecked (verified : Verified dek st.disk name data uuid payload) :
    RootChecked dek st.disk name data uuid payload := by
  intro sized rooted
  have checked := verified sized
  cases hot : hotOn st.disk name (.dbKey dek uuid) uuid with
  | true =>
      simp only [hot, if_true] at checked ⊢
      exact checked rooted
  | false =>
      simp only [hot, Bool.false_eq_true, if_false] at checked ⊢
      obtain ⟨_, image, decrypted, accepted⟩ := checked
      exact ⟨image, decrypted, accepted rooted⟩

theorem RootChecked.verified (checked : RootChecked dek st.disk name data uuid payload)
    (layout : (checkLayout data name (.dbKey dek uuid) uuid payload
      (hotOn st.disk name (.dbKey dek uuid) uuid)).isOk = true)
    (migrated : Migrates st.disk name data (.dbKey dek uuid) uuid payload →
      ∃ image, imageOf data name (.dbKey dek uuid) uuid = some image) :
    Verified dek st.disk name data uuid payload := by
  intro sized
  have rooted := checked sized
  cases hot : hotOn st.disk name (.dbKey dek uuid) uuid with
  | true =>
      simp only [hot, if_true] at rooted ⊢
      exact rooted
  | false =>
      simp only [hot, Bool.false_eq_true, if_false] at rooted layout ⊢
      refine ⟨layout, ?_⟩
      by_cases zero : payload.merkleRoot = .zero
      · obtain ⟨image, decrypted⟩ := migrated ⟨sized, hot, zero⟩
        exact ⟨image, decrypted, fun nonzero => absurd zero nonzero⟩
      · obtain ⟨image, decrypted, accepted⟩ := rooted zero
        exact ⟨image, decrypted, fun _ => accepted⟩

/-- The checks pass exactly on verified data. -/
theorem meets_checkMain (live : pool.Live dek st) (held : st.disk name = some data)
    {manifest : Region} (hasManifest : st.disk (manifestName name) = some manifest)
    (before : crash st) :
    ((checkMain name (.dbKey dek uuid) uuid payload) pool).Meets (fun q => crash q.stored)
      (fun _ q => Verified dek st.disk name data uuid payload ∧
        Adopted dek st name data uuid payload q)
      (fun _ q => ¬ Verified dek st.disk name data uuid payload ∧ q.stored = st) := by
  unfold checkMain
  apply meets_modify_bind
  apply meets_get_bind
  have bound := live.bindMain name (.dbKey dek uuid) uuid none
  obtain ⟨file, present, same, fileId⟩ := bound.found held
  simp only [bound.hotJournal_eq, present, Option.map_some, Option.getD_some, same]
  cases layout : checkLayout data name (.dbKey dek uuid) uuid payload
      (hotOn st.disk name (.dbKey dek uuid) uuid) with
  | error e =>
      apply meets_bind (fun _ _ => False) (meets_ofExcept (fun _ ok => ?_) fun _ _ => ?_)
        fun _ _ no => no.elim
      · cases ok
      · refine ⟨?_, bound.stored_eq⟩
        intro verified
        cases hot : hotOn st.disk name (.dbKey dek uuid) uuid with
        | true =>
            rw [hot, checkLayout_unseen fun _ => rfl] at layout
            cases layout
        | false =>
            by_cases sized : 0 < data.size
            · have checked := verified sized
              simp only [hot, Bool.false_eq_true, if_false] at checked
              rw [hot] at layout
              rw [layout] at checked
              exact Bool.noConfusion checked.1
            · rw [hot, checkLayout_unseen fun some_size => absurd some_size sized] at layout
              cases layout
  | ok logical =>
      have whole := checkLayout_ok layout
      apply meets_bind (fun l q => l = logical ∧
        q = Pool.bindMain name (.dbKey dek uuid) uuid none pool)
      · exact meets_pure ⟨rfl, rfl⟩
      rintro l q ⟨rfl, rfl⟩
      apply meets_modify_bind
      apply meets_modify_bind
      apply meets_get_bind
      have bound' := (bound.bindMain name (.dbKey dek uuid) uuid (some l)).bindSatellites name
        (.dbKey dek uuid) uuid payload
      have main : MainBound (Pool.bindSatellites name (.dbKey dek uuid) uuid payload
          (Pool.bindMain name (.dbKey dek uuid) uuid (some l)
            (Pool.bindMain name (.dbKey dek uuid) uuid none pool)))
          name (.dbKey dek uuid) uuid data := by
        refine ⟨{ file with
          crypto := .dbKey dek uuid, keyDomain := uuid, isMainDb := true, logicalSize := some l },
          ?_, rfl, rfl, fileId, same, congrArg some whole⟩
        rw [getElem?_bindSatellites, Pool.bindMain, getElem?_modifyFile, present]
        rfl
      have rooted := checkedRoot_iff payload bound' held main
      apply meets_bind (fun _ q => q = Pool.bindSatellites name (.dbKey dek uuid) uuid payload
        (Pool.bindMain name (.dbKey dek uuid) uuid (some l)
          (Pool.bindMain name (.dbKey dek uuid) uuid none pool)) ∧
        RootChecked dek st.disk name data uuid payload)
      · apply meets_ofExcept
        · rintro ⟨⟩ ok
          exact ⟨rfl, rooted.mp ok⟩
        · intro e failed
          refine ⟨?_, bound'.stored_eq⟩
          intro verified
          rw [rooted.mpr verified.rootChecked] at failed
          cases failed
      · rintro _ _ ⟨rfl, checked⟩
        apply (meets_adoptDb bound' main hasManifest before).mono (fun _ kept => kept)
        · intro _ q adopted
          refine ⟨checked.verified (by rw [layout]; rfl) ?_, adopted⟩
          intro migrates
          cases adopted with
          | inl stays => exact absurd migrates stays.1
          | inr moved =>
              obtain ⟨_, image, _, decrypted, _⟩ := moved
              exact ⟨image, decrypted⟩
        · rintro _ q ⟨migrates, undecrypted, left⟩
          refine ⟨?_, left⟩
          intro verified
          have cold := verified migrates.1
          simp only [migrates.2.1, Bool.false_eq_true, if_false] at cold
          obtain ⟨_, image, decrypted, _⟩ := cold
          rw [undecrypted] at decrypted
          cases decrypted

/-- What a successful open leaves: the window raised to the manifest's generation and
the database adopted. -/
structure OpenDone (dek : Dek) (st : Stored) (name : FileName) (data : Region) (uuid : Uuid)
    (payload : ManifestPayload) (q : Pool) : Prop where
  fresh : Fresh dek st.anchor uuid payload.dbGeneration
  verified : Verified dek st.disk name data uuid payload
  adopted : ∃ anchor, anchorUpsert uuid (some payload.dbGeneration) (some payload.dbGeneration)
      none (anchorLoad dek st.anchor).2 = some (anchorLoad dek anchor).2 ∧
    Adopted dek { st with anchor := anchor } name data uuid payload q

/-- What a refused open leaves: the same directory, with the anchor raised if the
gates passed. -/
def OpenRefused (dek : Dek) (st : Stored) (name : FileName) (data : Region) (uuid : Uuid)
    (payload : ManifestPayload) (q : Pool) : Prop :=
  ¬ (Fresh dek st.anchor uuid payload.dbGeneration ∧
    Verified dek st.disk name data uuid payload) ∧
  (q.stored = st ∨ ∃ anchor, anchorUpsert uuid (some payload.dbGeneration)
      (some payload.dbGeneration) none (anchorLoad dek st.anchor).2 =
        some (anchorLoad dek anchor).2 ∧ q.stored = { st with anchor := anchor })

theorem meets_openVerified (live : pool.Live dek st) (held : st.disk name = some data)
    {manifest : Region} (hasManifest : st.disk (manifestName name) = some manifest)
    (before : crash st)
    (during : ∀ anchor, anchorUpsert uuid (some payload.dbGeneration) (some payload.dbGeneration)
      none (anchorLoad dek st.anchor).2 = some (anchorLoad dek anchor).2 →
        crash { st with anchor := anchor }) :
    ((openVerified name uuid payload) pool).Meets (fun q => crash q.stored)
      (fun _ q => OpenDone dek st name data uuid payload q)
      (fun _ q => OpenRefused dek st name data uuid payload q) := by
  unfold openVerified
  apply meets_get_bind
  simp only [live.dek_eq, live.anchor_eq]
  apply meets_bind (fun _ q => q = pool ∧
    freshnessGate (anchorEntry dek st.anchor uuid) payload.dbGeneration = .ok ())
  · apply meets_ofExcept
    · rintro ⟨⟩ ok
      exact ⟨rfl, ok⟩
    · intro e failed
      refine ⟨?_, Or.inl live.stored_eq⟩
      rintro ⟨⟨passed, _⟩, _⟩
      rw [failed] at passed
      cases passed
  rintro _ q ⟨rfl, passed⟩
  cases room : anchorUpsert uuid (some payload.dbGeneration) (some payload.dbGeneration) none
      (anchorLoad dek st.anchor).2 with
  | none =>
      apply meets_bind (fun _ _ => False)
      · apply meets_anchorRecordFull_full _ live room
        intro e
        refine ⟨?_, Or.inl live.stored_eq⟩
        rintro ⟨⟨_, saved⟩, _⟩
        exact saved room
      · intro _ _ no
        exact no.elim
  | some table =>
      have fresh : Fresh dek st.anchor uuid payload.dbGeneration := by
        refine ⟨passed, ?_⟩
        rw [room]
        exact Option.some_ne_none _
      apply meets_bind (fun _ r => ∃ anchor, (anchorLoad dek anchor).2 = table ∧
        r.Live dek { st with anchor := anchor })
      · apply meets_anchorRecordFull _ live room before
        · intro anchor loaded
          exact during anchor (loaded ▸ room)
        · intro anchor r loaded live'
          exact ⟨anchor, loaded, live'⟩
      rintro _ r ⟨anchor, rfl, live'⟩
      apply (meets_checkMain live' held hasManifest (during anchor room)).mono (fun _ kept => kept)
      · rintro _ s ⟨verified, adopted⟩
        exact ⟨fresh, verified, anchor, room, adopted⟩
      · rintro _ s ⟨unverified, left⟩
        exact ⟨fun both => unverified both.2, Or.inr ⟨anchor, room, left⟩⟩

/-- Opening a database that has a manifest succeeds exactly where it is fresh and
verified. -/
theorem meets_openMainDb (freshUuid : Uuid) (crash : Stored → Prop) (live : pool.Live dek st)
    (held : st.disk name = some data)
    (manifest : manifestOn dek st.disk (manifestName name) = .ok (uuid, payload))
    (before : crash st)
    (during : ∀ anchor, anchorUpsert uuid (some payload.dbGeneration) (some payload.dbGeneration)
      none (anchorLoad dek st.anchor).2 = some (anchorLoad dek anchor).2 →
        crash { st with anchor := anchor }) :
    ((openMainDb freshUuid name) pool).Meets (fun q => crash q.stored)
      (fun _ q => OpenDone dek st name data uuid payload q)
      (fun _ q => OpenRefused dek st name data uuid payload q) := by
  obtain ⟨file, present, same, _⟩ := live.found held
  have hasManifest : ∃ region, st.disk (manifestName name) = some region := by
    unfold manifestOn at manifest
    cases found : st.disk (manifestName name) with
    | none => rw [found] at manifest; cases manifest
    | some region => exact ⟨region, rfl⟩
  obtain ⟨region, found⟩ := hasManifest
  have has : pool.hasFilename (manifestName name) = true := by
    rw [live.hasFilename, found]
    exact Option.some_ne_none _
  unfold openMainDb
  apply meets_get_bind
  simp only [present, has, if_true, live.readManifest_eq, manifest]
  exact meets_openVerified live held found before during

end Verify

section Served

variable {q : Pool} {name : FileName} {db : DbState} {data : Region}

/-- SQLite is told of a reserved lock on every file, so it plays no journal back. -/
theorem playsBack_eq_false (q : Pool) (name : FileName) : q.playsBack name = false := by
  unfold playsBack
  cases q.files[journalName name]? with
  | none => rfl
  | some journal => exact Bool.and_false _

/-- It serves the main file of an open database as it stands. -/
theorem Opened.servedImage (opened : Opened q name db data) {image : List Block} :
    q.servedImage name = .ok image ↔ imageOf data name db.crypto db.uuid = some image := by
  obtain ⟨file, present, crypto, domain, bound, same, whole⟩ := opened.main.bound
  subst same
  unfold Pool.servedImage
  simp only [opened.db, present, playsBack_eq_false, Bool.false_eq_true, if_false]
  rw [readImage_eq_ok crypto domain bound whole, imageOf_eq_some]

theorem imageOf_of_size_zero {kdb : Key} {uuid : Uuid} (blank : data.size = 0) :
    imageOf data name kdb uuid = some [] := by
  have none_left : data.cells = [] := by
    apply List.eq_nil_of_length_eq_zero
    rw [Region.length_cells, blank]
    rfl
  rw [imageOf_eq_some, decryptWholeFile, none_left]
  rfl

/-- So does it of a database just opened. -/
theorem OpenDone.servedImage {dek : Dek} {st : Stored} {uuid : Uuid} {payload : ManifestPayload}
    (done : OpenDone dek st name data uuid payload q) {image : List Block} :
    q.servedImage name = .ok image ↔ imageOf data name (.dbKey dek uuid) uuid = some image := by
  obtain ⟨anchor, _, adopted⟩ := done.adopted
  cases adopted with
  | inl stays => exact stays.2.2.servedImage
  | inr moved =>
      obtain ⟨_, _, _, _, _, opened⟩ := moved
      exact opened.servedImage

/-- The database serves `image` of the directory `st` under `dek`. -/
def ServesOn (dek : Dek) (st : Stored) (name : FileName) (image : List Block) : Prop :=
  ∃ data uuid payload, st.disk name = some data ∧
    manifestOn dek st.disk (manifestName name) = .ok (uuid, payload) ∧
    Fresh dek st.anchor uuid payload.dbGeneration ∧
    Verified dek st.disk name data uuid payload ∧
    imageOf data name (.dbKey dek uuid) uuid = some image

/-- Opening a database that has a manifest and reading it gives what the directory serves. -/
theorem openMainDb_serves_iff {pool : Pool} {dek : Dek} {st : Stored} {uuid : Uuid}
    {payload : ManifestPayload} {freshUuid : Uuid} {image : List Block} (live : pool.Live dek st)
    (manifest : manifestOn dek st.disk (manifestName name) = .ok (uuid, payload)) :
    (((openMainDb freshUuid name) pool).result = .ok () ∧
      ((openMainDb freshUuid name) pool).state.servedImage name = .ok image) ↔
      ServesOn dek st name image := by
  cases held : st.disk name with
  | none =>
      have missing : ((openMainDb freshUuid name) pool).result ≠ .ok () := by
        unfold openMainDb
        simp only [bind, Prog.bind, Prog.get, live.missing held]
        intro ok
        cases ok
      refine iff_of_false (fun both => missing both.1) ?_
      rintro ⟨data, _, _, present, _⟩
      rw [held] at present
      cases present
  | some data =>
      have met := meets_openMainDb freshUuid (fun _ => True) live held manifest
        trivial fun _ _ => trivial
      constructor
      · rintro ⟨opens, serves⟩
        have done := met.ok opens
        exact ⟨data, uuid, payload, held, manifest, done.fresh, done.verified,
          done.servedImage.mp serves⟩
      · rintro ⟨data', uuid', payload', present, manifest', fresh, verified, decrypted⟩
        rw [held, Option.some.injEq] at present
        rw [manifest, Except.ok.injEq, Prod.mk.injEq] at manifest'
        obtain ⟨rfl, rfl⟩ := manifest'
        subst present
        cases result : ((openMainDb freshUuid name) pool).result with
        | error e => exact absurd ⟨fresh, verified⟩ (met.error result).1
        | ok _ => exact ⟨rfl, (met.ok result).servedImage.mpr decrypted⟩

end Served

end Pool

end Freehold
