import Freehold.CommitBarrier
import Freehold.ImportAtomicity

set_option autoImplicit false

/- What a write of a manifest slot that lands as other bytes leaves of the database. -/
namespace Freehold

open CrashLogic

/-- The name of a database whose manifest fits the header of a slot; no other gets one. -/
structure DbName where
  name : FileName
  nonempty : name ≠ []
  fits : Fits (manifestName name)

/-- The main file, the journal and the manifest. -/
def DbName.files (db : DbName) : List FileName := [db.name, journalName db.name, manifestName db.name]

/-- Each slot that authenticates holds a generation of its own parity. -/
def ManifestFile.Paired (dek : Dek) (mname : FileName) (file : ManifestFile) : Prop :=
  ∀ slot < 2, ∀ payload, manifestSlot dek mname file slot = some payload →
    payload.dbGeneration % 2 = slot

namespace Pool

/-- The files of a database as the code keeps them: each in a slot with its name in the header, the
manifest in slots of its parity, and nothing in the slots that are free. -/
structure OnDisk (db : DbName) (pool : Pool) : Prop where
  named : ∀ other ∈ db.files, ∀ file, pool.files[other]? = some file → Pool.named other file = true
  paired : ∀ file, pool.manifestFile db.name = some file → file.Paired pool.dek (manifestName db.name)
  cleared : pool.Cleared

end Pool

section Names

variable {db : DbName} {other : FileName}

theorem DbName.mem_files (db : DbName) : db.name ∈ db.files := by
  simp [DbName.files]

theorem DbName.fits_of_mem (db : DbName) (listed : other ∈ db.files) : Fits other := by
  obtain ⟨nonempty, short⟩ := db.fits
  have manifest : byteLen manifestSuffix = 9 := by decide
  have journal : byteLen journalSuffix = 8 := by decide
  have limit : headerMaxFilenameSize = 512 := rfl
  rw [manifestName, byteLen_append] at short
  simp only [DbName.files, List.mem_cons, List.not_mem_nil, or_false] at listed
  rcases listed with rfl | rfl | rfl
  · exact ⟨db.nonempty, by omega⟩
  · refine ⟨by simp [journalName, journalSuffix], ?_⟩
    rw [journalName, byteLen_append]
    omega
  · exact db.fits

end Names

theorem writeSlot_eq_manifest {data : Region} {slot : Nat} {bytes : SealedBytes ManifestPayload}
    {written : ManifestFile} : data.writeSlot slot bytes = .manifest written ↔
      ∃ file, data = .manifest file ∧ written = file.write slot bytes := by
  cases data with
  | manifest file => simp [writeSlot_manifest, eq_comm]
  | blocks cells tail => simp [Region.writeSlot]
  | intent sealed => simp [Region.writeSlot]

section Paired

variable {dek : Dek} {mname : FileName} {file : ManifestFile} {payload : ManifestPayload}

theorem paired_nil (uuid : Uuid) : ManifestFile.Paired dek mname ⟨uuid, []⟩ :=
  fun _ _ _ opens => (nomatch opens)

/-- A block sealed for the slot of its generation keeps the pairing. -/
theorem ManifestFile.Paired.write (paired : file.Paired dek mname) (key : Key) (aad : Aad) :
    (file.write (payload.dbGeneration % 2) (.sealed key aad payload)).Paired dek mname := by
  intro slot inside found opens
  by_cases here : slot = payload.dbGeneration % 2
  · rw [here] at opens
    have sealed := Aead.openWith_eq_some.mp (manifestSlot_write_self.mp opens).1
    obtain ⟨_, _, rfl⟩ := Aead.Sealed.sealed.inj sealed
    exact here.symm
  · rw [manifestSlot_write_of_ne here] at opens
    exact paired slot inside found opens

/-- So do bytes that authenticate as nothing there. -/
theorem ManifestFile.Paired.torn {slot : Nat} {bytes : SealedBytes ManifestPayload}
    (paired : file.Paired dek mname)
    (torn : manifestSlot dek mname (file.write slot bytes) slot = none) :
    (file.write slot bytes).Paired dek mname := by
  intro other inside found opens
  by_cases here : other = slot
  · rw [here, torn] at opens
    cases opens
  · rw [manifestSlot_write_of_ne here] at opens
    exact paired other inside found opens

end Paired

namespace Pool

section OnDisk

variable {db : DbName} {q : Pool} {other : FileName}

theorem manifestFile_eq_some {name : FileName} {file : ManifestFile} :
    q.manifestFile name = some file ↔
      ∃ mfile, q.files[manifestName name]? = some mfile ∧ mfile.data = .manifest file := by
  unfold manifestFile
  cases q.files[manifestName name]? with
  | none => simp
  | some mfile => cases shape : mfile.data <;> simp [shape]

theorem OnDisk.modifyFile (onDisk : q.OnDisk db) {f : SyncAccessFile → SyncAccessFile}
    (header : ∀ file, (f file).header = file.header)
    (paired : other = manifestName db.name → ∀ old file, q.files[other]? = some old →
      (f old).data = .manifest file → file.Paired q.dek (manifestName db.name)) :
    (q.modifyFile other f).OnDisk db := by
  have found : ∀ name, (q.modifyFile other f).files[name]? =
      if other = name then (q.files[other]?).map f else q.files[name]? := by
    intro name
    simp only [Pool.modifyFile, Std.ExtTreeMap.getElem?_modify, Std.LawfulEqCmp.compare_eq_iff_eq]
  refine ⟨?_, ?_, onDisk.cleared⟩
  · intro name listed file held
    rw [found] at held
    split at held
    · next same =>
        obtain ⟨old, there, rfl⟩ := Option.map_eq_some_iff.mp held
        rw [Pool.named, header]
        exact onDisk.named name listed old (same ▸ there)
    · exact onDisk.named name listed file held
  · intro file held
    obtain ⟨mfile, there, shape⟩ := manifestFile_eq_some.mp held
    rw [found] at there
    split at there
    · next same =>
        obtain ⟨old, before, rfl⟩ := Option.map_eq_some_iff.mp there
        exact paired same old file before shape
    · exact onDisk.paired file (manifestFile_eq_some.mpr ⟨mfile, there, shape⟩)

/-- A change of what is in memory only. -/
theorem OnDisk.rebind (onDisk : q.OnDisk db) {f : SyncAccessFile → SyncAccessFile}
    (kept : ∀ file, (f file).header = file.header ∧ (f file).data = file.data) :
    (q.modifyFile other f).OnDisk db := by
  apply onDisk.modifyFile fun file => (kept file).1
  intro same old file there shape
  rw [(kept old).2] at shape
  exact onDisk.paired file (manifestFile_eq_some.mpr ⟨old, same ▸ there, shape⟩)

theorem OnDisk.writeSlot (onDisk : q.OnDisk db) (payload : ManifestPayload) (key : Key) (aad : Aad) :
    (q.modifyFile other fun mfile => { mfile with
      data := mfile.data.writeSlot (payload.dbGeneration % 2) (.sealed key aad payload) }).OnDisk db := by
  refine onDisk.modifyFile (fun _ => rfl) ?_
  intro same old file there shape
  obtain ⟨earlier, before, rfl⟩ := writeSlot_eq_manifest.mp shape
  exact (onDisk.paired earlier (manifestFile_eq_some.mpr ⟨old, same ▸ there, before⟩)).write key aad

theorem OnDisk.keptByWrites (apart : other ≠ manifestName db.name) :
    KeptByWrites other (OnDisk db) :=
  fun _ kept _ onDisk => onDisk.modifyFile (fun file => (kept file).2) fun same => absurd same apart

theorem OnDisk.setData (onDisk : q.OnDisk db) {data : Region}
    (paired : ∀ file, data = .manifest file → file.Paired q.dek (manifestName db.name)) :
    (Pool.setData other data q).OnDisk db :=
  onDisk.modifyFile (fun _ => rfl) fun _ _ file _ shape => paired file shape

theorem OnDisk.emptied (onDisk : q.OnDisk db) : (Pool.setData other .empty q).OnDisk db :=
  onDisk.setData fun _ none => (nomatch none)

theorem OnDisk.dropped (onDisk : q.OnDisk db) :
    (Pool.unmapSlot other (Pool.setData other .empty q)).OnDisk db := by
  have emptied := @OnDisk.emptied db q other onDisk
  refine ⟨?_, ?_, onDisk.cleared.dropped⟩
  · intro name listed file held
    rw [getElem?_unmapSlot] at held
    split at held
    · cases held
    · exact emptied.named name listed file held
  · intro file held
    obtain ⟨mfile, there, shape⟩ := manifestFile_eq_some.mp held
    rw [getElem?_unmapSlot] at there
    split at there
    · cases there
    · rw [unmapSlot_dek]
      exact emptied.paired file (manifestFile_eq_some.mpr ⟨mfile, there, shape⟩)

theorem OnDisk.mapSlot (onDisk : q.OnDisk db) {header : Option HeaderName}
    (carried : other ∈ db.files → header.map (fun h => h.name) = some other) :
    (Pool.mapSlot other header q).OnDisk db := by
  cases free : q.available with
  | nil =>
      rw [Pool.mapSlot, free]
      exact onDisk
  | cons slot rest =>
      have blank := onDisk.cleared slot (by rw [free]; exact List.mem_cons_self)
      have found : ∀ name, (Pool.mapSlot other header q).files[name]? = if other = name then
          some { slot with header := header, fileId := fileIdFor other, logicalSize := some 0 }
          else q.files[name]? := by
        intro name
        rw [mapSlot_of_cons free]
        simp only [Std.ExtTreeMap.getElem?_insert, Std.LawfulEqCmp.compare_eq_iff_eq]
      refine ⟨?_, ?_, onDisk.cleared.mapSlot⟩
      · intro name listed file held
        rw [found] at held
        split at held
        · next same =>
            cases held
            subst same
            exact decide_eq_true (carried listed)
        · exact onDisk.named name listed file held
      · intro file held
        obtain ⟨mfile, there, shape⟩ := manifestFile_eq_some.mp held
        rw [found] at there
        split at there
        · cases there
          rw [show slot.data = .manifest file from shape] at blank
          cases blank
        · rw [mapSlot_dek]
          exact onDisk.paired file (manifestFile_eq_some.mpr ⟨mfile, there, shape⟩)

theorem OnDisk.bindSatellites (onDisk : q.OnDisk db) (name : FileName) (kdb : Key) (uuid : Uuid)
    (payload : ManifestPayload) : (Pool.bindSatellites name kdb uuid payload q).OnDisk db := by
  have found : ∀ (other : FileName) (file : SyncAccessFile),
      (Pool.bindSatellites name kdb uuid payload q).files[other]? = some file →
      ∃ old, q.files[other]? = some old ∧ file.header = old.header ∧ file.data = old.data := by
    intro other file held
    rw [Pool.bindSatellites, Std.ExtTreeMap.getElem?_map] at held
    obtain ⟨old, there, rfl⟩ := Option.map_eq_some_iff.mp held
    refine ⟨old, there, ?_⟩
    split <;> exact ⟨rfl, rfl⟩
  refine ⟨?_, ?_, onDisk.cleared⟩
  · intro other listed file held
    obtain ⟨old, there, header, _⟩ := found other file held
    rw [Pool.named, header]
    exact onDisk.named other listed old there
  · intro file held
    obtain ⟨mfile, there, shape⟩ := manifestFile_eq_some.mp held
    obtain ⟨old, there, _, data⟩ := found _ mfile there
    exact onDisk.paired file (manifestFile_eq_some.mpr ⟨old, there, data ▸ shape⟩)

end OnDisk

namespace OnDisk

variable {db : DbName}

theorem keeps_anchorRecord (uuid : Uuid) (committed inFlight : Option Nat) :
    Keeps (OnDisk db) (Pool.anchorRecord uuid committed inFlight) := by
  unfold Pool.anchorRecord Pool.anchorRecordFull
  apply keeps_get_bind
  intro pool _
  dsimp only
  split
  · exact keeps_fail _
  · apply keeps_bind (keeps_effect fun q onDisk => ?_) fun _ => keeps_pure ()
    exact ⟨onDisk.named, onDisk.paired, onDisk.cleared⟩

theorem keeps_deleteFile (other : FileName) : Keeps (OnDisk db) (Pool.deleteFile other) := by
  intro q onDisk
  unfold Pool.deleteFile
  apply meets_get_bind
  split
  · apply meets_effect_bind onDisk
    apply meets_effect_bind onDisk.emptied
    exact meets_pure onDisk.dropped
  · exact meets_pure onDisk

theorem keeps_withNewFile (other : FileName) {body : PoolM Unit} (kept : Keeps (OnDisk db) body) :
    Keeps (OnDisk db) (Pool.withNewFile other body) := by
  unfold Pool.withNewFile
  apply keeps_get_bind
  intro pool _
  dsimp only
  split_ifs with present full blank long
  · exact keeps_fail _
  · exact keeps_fail _
  · refine keeps_bind (keeps_modify fun q onDisk => onDisk.mapSlot fun listed => ?_) fun _ => keeps_fail _
    exact absurd blank (db.fits_of_mem listed).1
  · refine keeps_bind (keeps_modify fun q onDisk => onDisk.mapSlot fun listed => ?_) fun _ => keeps_fail _
    exact absurd (db.fits_of_mem listed).2 (Nat.not_lt.mpr long)
  · exact keeps_bind (keeps_effect fun q onDisk => onDisk.mapSlot fun _ => rfl) fun _ => kept

theorem keeps_writeManifestSlot (key : Key) (mname : FileName) (payload : ManifestPayload) :
    Keeps (OnDisk db) (Pool.writeManifestSlot key mname payload) :=
  keeps_effect fun _ onDisk => onDisk.writeSlot payload key _

theorem insertDb {q : Pool} (onDisk : q.OnDisk db) (dbs : Std.ExtTreeMap FileName DbState) :
    ({ q with dbs := dbs } : Pool).OnDisk db :=
  ⟨onDisk.named, onDisk.paired, onDisk.cleared⟩

theorem keeps_onMainSynced (other : FileName) : Keeps (OnDisk db) (Pool.onMainSynced other) := by
  unfold Pool.onMainSynced
  apply keeps_get_bind
  intro pool _
  split
  · exact keeps_pure ()
  · apply keeps_bind (keeps_anchorRecord _ _ _)
    intro _
    apply keeps_get_bind
    intro pool _
    apply keeps_bind (keeps_ofExcept _)
    intro merkleRoot
    split
    · apply keeps_bind (keeps_writeManifestSlot _ _ _)
      intro _
      apply keeps_bind (keeps_anchorRecord _ _ _)
      intro _
      exact keeps_modify fun q onDisk => onDisk.insertDb _
    · exact keeps_fail _

theorem keeps_finalizes (other : FileName) : Keeps (OnDisk db) (Pool.finalizes other) := by
  unfold Pool.finalizes
  split
  · unfold Pool.journalFinalizeBarrier
    apply keeps_get_bind
    intro pool _
    split
    · split
      · exact keeps_onMainSynced _
      · exact keeps_pure ()
    · split
      · exact keeps_fail _
      · exact keeps_pure ()
    · exact keeps_pure ()
  · exact keeps_pure ()

theorem keeps_bindSatellite (other : FileName) : Keeps (OnDisk db) (Pool.bindSatellite other) := by
  unfold Pool.bindSatellite
  apply keeps_get_bind
  intro pool _
  split
  · exact keeps_pure ()
  · split
    · exact keeps_pure ()
    · split
      · exact keeps_fail _
      · exact keeps_modify fun q onDisk => onDisk.rebind fun _ => ⟨rfl, rfl⟩

theorem keeps_xOpenImpl (other : FileName) (create : Bool) :
    Keeps (OnDisk db) (Vfs.xOpenImpl other create) := by
  unfold Vfs.xOpenImpl
  apply keeps_get_bind
  intro pool _
  split
  · exact keeps_pure ()
  · split
    · exact keeps_asVfs _ (keeps_withNewFile other (keeps_pure ()))
    · exact keeps_fail _

section Calls

variable {other : FileName}

theorem keeps_xWrite (apart : other ≠ manifestName db.name) (bytes : List UInt8) (offset : Int) :
    Keeps (OnDisk db) (Vfs.xWrite other bytes offset) := by
  unfold Vfs.xWrite
  split
  · exact keeps_fail _
  · split
    · exact keeps_bind (keeps_asVfs _ (keeps_finalizes other)) fun _ =>
        keeps_write (OnDisk.keptByWrites apart) _ _
    · exact keeps_write (OnDisk.keptByWrites apart) _ _

theorem keeps_xTruncate (apart : other ≠ manifestName db.name) (size : Int) :
    Keeps (OnDisk db) (Vfs.xTruncate other size) := by
  unfold Vfs.xTruncate
  split
  · exact keeps_fail _
  · split
    · exact keeps_bind (keeps_asVfs _ (keeps_finalizes other)) fun _ =>
        keeps_truncate (OnDisk.keptByWrites apart) _
    · exact keeps_truncate (OnDisk.keptByWrites apart) _

/-- So does each call on the main file and the journal. -/
theorem keeps_run (call : FileCall) : Keeps (OnDisk db) (call.run db.name) := by
  have journal := journalName_ne_manifestName db.name db.name
  have main := Ne.symm (Pool.manifestName_ne_self db.name)
  cases call with
  | openJournal create =>
      exact keeps_bind (keeps_xOpenImpl _ create) fun _ => keeps_asVfs _ (keeps_bindSatellite _)
  | writeJournal bytes offset => exact keeps_xWrite journal bytes offset
  | truncateJournal size => exact keeps_xTruncate journal size
  | syncJournal => exact keeps_withFile fun _ => keeps_pure ()
  | deleteJournal =>
      exact keeps_bind (keeps_asVfs _ (keeps_finalizes _)) fun _ =>
        keeps_bind (keeps_asVfs _ (keeps_deleteFile _)) fun _ => keeps_pure ()
  | writeMain bytes offset => exact keeps_xWrite main bytes offset
  | truncateMain size => exact keeps_xTruncate main size
  | syncMain => exact keeps_withFile fun _ => keeps_pure ()

end Calls

section Opening

theorem keeps_createManifest (uuid : Uuid) (name mname : FileName) :
    Keeps (OnDisk db) (Pool.createManifest uuid name mname) := by
  unfold Pool.createManifest
  apply keeps_get_bind
  intro pool _
  apply keeps_bind
  · apply keeps_withNewFile
    apply keeps_bind
    · refine keeps_effect fun q onDisk => onDisk.setData fun file same => ?_
      rw [← Region.manifest.inj same]
      exact paired_nil uuid
    · exact fun _ => keeps_writeManifestSlot _ _ _
  · intro _
    apply keeps_bind (keeps_anchorRecord _ _ _)
    intro _
    exact keeps_bind (keeps_modify fun q onDisk => onDisk.insertDb _) fun _ => keeps_pure _

theorem keeps_openCreated (uuid : Uuid) (name : FileName) :
    Keeps (OnDisk db) (Pool.openCreated uuid name) := by
  unfold Pool.openCreated
  apply keeps_bind (keeps_createManifest _ _ _)
  intro st
  exact keeps_modify fun q onDisk => onDisk.rebind fun _ => ⟨rfl, rfl⟩

theorem keeps_sealRootMigration (name : FileName) :
    Keeps (OnDisk db) (Pool.sealRootMigration name) := by
  unfold Pool.sealRootMigration
  apply keeps_get_bind
  intro pool _
  split
  · exact keeps_pure ()
  · apply keeps_bind (keeps_ofExcept _)
    intro merkleRoot
    split
    · exact keeps_pure ()
    · dsimp only
      split
      · exact keeps_bind (keeps_writeManifestSlot _ _ _) fun _ =>
          keeps_modify fun q onDisk => onDisk.insertDb _
      · exact keeps_fail _

theorem keeps_checkMain (name : FileName) (kdb : Key) (uuid : Uuid) (payload : ManifestPayload) :
    Keeps (OnDisk db) (Pool.checkMain name kdb uuid payload) := by
  have bound : ∀ logical q, OnDisk db q → OnDisk db (Pool.bindMain name kdb uuid logical q) :=
    fun _ _ onDisk => onDisk.rebind fun _ => ⟨rfl, rfl⟩
  unfold Pool.checkMain
  apply keeps_bind (keeps_modify (bound none))
  intro _
  apply keeps_get_bind
  intro pool _
  apply keeps_bind (keeps_ofExcept _)
  intro logical
  apply keeps_bind (keeps_modify (bound _))
  intro _
  apply keeps_bind (keeps_modify fun q onDisk => onDisk.bindSatellites _ _ _ _)
  intro _
  apply keeps_get_bind
  intro pool _
  apply keeps_bind (keeps_ofExcept _)
  intro _
  apply keeps_bind (keeps_modify fun q onDisk => onDisk.insertDb _)
  intro _
  split
  · exact keeps_sealRootMigration name
  · exact keeps_pure ()

/-- And each opening. -/
theorem keeps_openMainDb (uuid : Uuid) (name : FileName) :
    Keeps (OnDisk db) (Pool.openMainDb uuid name) := by
  unfold Pool.openMainDb
  apply keeps_get_bind
  intro pool _
  dsimp only
  split
  · exact keeps_fail _
  · split
    · split
      · unfold Pool.openVerified
        apply keeps_get_bind
        intro pool _
        apply keeps_bind (keeps_ofExcept _)
        intro _
        exact keeps_bind (keeps_anchorRecord _ _ _) fun _ => keeps_checkMain _ _ _ _
      · split
        · exact keeps_fail _
        · exact keeps_bind (keeps_deleteFile _) fun _ => keeps_openCreated uuid name
    · split
      · exact keeps_fail _
      · exact keeps_openCreated uuid name

end Opening

end OnDisk

end Pool

section Picked

variable {dek : Dek} {mname : FileName} {file : ManifestFile} {payload : ManifestPayload}

theorem manifestPick_eq_none : manifestPick dek mname file = none ↔
    manifestSlot dek mname file 0 = none ∧ manifestSlot dek mname file 1 = none := by
  unfold manifestPick
  cases manifestSlot dek mname file 0 with
  | none => simp
  | some earlier =>
      cases manifestSlot dek mname file 1 with
      | none => simp
      | some later => dsimp only; split <;> simp

theorem manifestPick_cases (picked : manifestPick dek mname file = some payload) :
    ∃ slot < 2, manifestSlot dek mname file slot = some payload ∧
      ∀ other < 2, ∀ found, manifestSlot dek mname file other = some found →
        found.dbGeneration ≤ payload.dbGeneration := by
  have slots : ∀ other < 2, other = 0 ∨ other = 1 := by omega
  unfold manifestPick at picked
  cases first : manifestSlot dek mname file 0 with
  | none =>
      rw [first] at picked
      have second : manifestSlot dek mname file 1 = some payload := picked
      refine ⟨1, by omega, second, fun other inside found opens => ?_⟩
      rcases slots other inside with rfl | rfl
      · rw [first] at opens
        cases opens
      · rw [second, Option.some.injEq] at opens
        rw [opens]
  | some earlier =>
      cases second : manifestSlot dek mname file 1 with
      | none =>
          simp only [first, second, Option.some.injEq] at picked
          subst picked
          refine ⟨0, by omega, first, fun other inside found opens => ?_⟩
          rcases slots other inside with rfl | rfl
          · rw [first, Option.some.injEq] at opens
            rw [opens]
          · rw [second] at opens
            cases opens
      | some later =>
          simp only [first, second] at picked
          have generations : ∀ other < 2, ∀ found, manifestSlot dek mname file other = some found →
              found = earlier ∨ found = later := by
            intro other inside found opens
            rcases slots other inside with rfl | rfl
            · rw [first, Option.some.injEq] at opens
              exact .inl opens.symm
            · rw [second, Option.some.injEq] at opens
              exact .inr opens.symm
          split at picked
          · next newer =>
              obtain rfl := Option.some.inj picked
              refine ⟨1, by omega, second, fun other inside found opens => ?_⟩
              rcases generations other inside found opens with rfl | rfl <;> omega
          · next older =>
              obtain rfl := Option.some.inj picked
              refine ⟨0, by omega, first, fun other inside found opens => ?_⟩
              rcases generations other inside found opens with rfl | rfl <;> omega

/-- The manifest that is picked stands in the slot of its parity, over an older one. -/
theorem ManifestFile.Paired.picked (paired : file.Paired dek mname)
    (picked : manifestPick dek mname file = some payload) :
    manifestSlot dek mname file (payload.dbGeneration % 2) = some payload ∧
      ∀ found, manifestSlot dek mname file ((payload.dbGeneration + 1) % 2) = some found →
        found.dbGeneration < payload.dbGeneration := by
  obtain ⟨slot, inside, opens, newest⟩ := manifestPick_cases picked
  have own := paired slot inside payload opens
  subst own
  refine ⟨opens, fun found there => ?_⟩
  have bit : (payload.dbGeneration + 1) % 2 < 2 := Nat.mod_lt _ (by omega)
  have parity := paired _ bit found there
  have bound := newest _ bit found there
  omega

end Picked

namespace Pool

section Read

variable {q : Pool} {name : FileName} {uuid : Uuid} {payload : ManifestPayload} {st : DbState}

theorem readManifest_eq_ok : q.readManifest (manifestName name) = .ok (uuid, payload) ↔
    ∃ file, q.manifestFile name = some file ∧
      manifestPick q.dek (manifestName name) file = some payload ∧ file.uuid = uuid := by
  constructor
  · intro read
    obtain ⟨mfile, file, found, shape, same⟩ := readManifest_file read
    have held := manifestFile_eq_some.mpr ⟨mfile, found, shape⟩
    refine ⟨file, held, ?_, same⟩
    cases picked : manifestPick q.dek (manifestName name) file with
    | none =>
        unfold readManifest at read
        simp only [found, shape, picked] at read
        cases read
    | some other =>
        rw [readManifest_of_pick held picked, Except.ok.injEq, Prod.mk.injEq] at read
        rw [read.2]
  · rintro ⟨file, held, picked, rfl⟩
    exact readManifest_of_pick held picked

/-- The manifest of a database that is open reads. -/
theorem Current.reads (current : q.Current name st) :
    ∃ payload, q.readManifest (manifestName name) = .ok (st.uuid, payload) := by
  obtain ⟨file, held, stands⟩ := current.manifest
  obtain ⟨payload, found, _⟩ := stands.current
  cases picked : manifestPick q.dek (manifestName name) file with
  | none =>
      obtain ⟨first, second⟩ := manifestPick_eq_none.mp picked
      rcases Nat.mod_two_eq_zero_or_one st.generation with even | odd
      · rw [even, first] at found
        cases found
      · rw [odd, second] at found
        cases found
  | some newest => exact ⟨newest, readManifest_eq_ok.mpr ⟨file, held, picked, stands.uuid⟩⟩

/-- A database adopted from its manifest is current. -/
theorem current_of_read {db : DbName} (onDisk : q.OnDisk db)
    (read : q.readManifest (manifestName db.name) = .ok (uuid, payload))
    (known : q.dbs[db.name]? =
      some ⟨uuid, .dbKey q.dek uuid, payload.dbGeneration, payload.merkleRoot⟩) :
    q.Current db.name ⟨uuid, .dbKey q.dek uuid, payload.dbGeneration, payload.merkleRoot⟩ := by
  obtain ⟨file, held, picked, same⟩ := readManifest_eq_ok.mp read
  obtain ⟨opens, older⟩ := (onDisk.paired file held).picked picked
  refine ⟨known, rfl, file, held, same, ⟨payload, opens, rfl, rfl⟩, fun found there => ?_⟩
  have below := older found there
  dsimp only
  omega

end Read

/-- The header of the manifest's slot. -/
def headerOf (db : DbName) : HeaderName := ⟨manifestName db.name, db.fits⟩

/-- The payload of a new manifest. -/
def firstPayload (db : DbName) (uuid : Uuid) : ManifestPayload :=
  ⟨1, uuid, .zero, .zero, [(fileIdFor db.name, 0)]⟩

def firstState (dek : Dek) (uuid : Uuid) : DbState := ⟨uuid, .dbKey dek uuid, 1, .zero⟩

/-- A new manifest, mapped and with its header. -/
def headed (db : DbName) (uuid : Uuid) (q : Pool) : Pool :=
  Pool.setData (manifestName db.name) (.manifest ⟨uuid, []⟩)
    (Pool.mapSlot (manifestName db.name) (some (headerOf db)) q)

/-- A payload sealed into the slot of its generation. -/
def sealSlot (mname : FileName) (key : Key) (payload : ManifestPayload) (q : Pool) : Pool :=
  q.modifyFile mname fun mfile => { mfile with
    data := mfile.data.writeSlot (payload.dbGeneration % 2)
      (.sealed key (.block (fileIdFor mname) payload.dbUuid (payload.dbGeneration % 2)) payload) }

/-- The new manifest with its first slot. -/
def created (db : DbName) (uuid : Uuid) (q : Pool) : Pool :=
  sealSlot (manifestName db.name) (.dbKey q.dek uuid) (firstPayload db uuid) (headed db uuid q)

/-- The new database as it is adopted. -/
def adoptCreated (db : DbName) (dek : Dek) (uuid : Uuid) (q : Pool) : Pool :=
  bindMain db.name (.dbKey dek uuid) uuid (some 0)
    { q with dbs := q.dbs.insert db.name (firstState dek uuid) }

section Creation

variable {db : DbName} {q : Pool} {uuid : Uuid}

theorem withNewFile_run (header : HeaderName) (body : PoolM Unit)
    (lacks : q.hasFilename header.name = false) (room : q.available ≠ []) :
    Pool.withNewFile header.name body q =
      ⟨q :: (body (Pool.mapSlot header.name (some header) q)).passed,
        (body (Pool.mapSlot header.name (some header) q)).state,
        (body (Pool.mapSlot header.name (some header) q)).result⟩ := by
  have long : ¬headerMaxFilenameSize ≤ byteLen header.name + 1 := Nat.not_le_of_lt header.fits.2
  unfold Pool.withNewFile
  rw [Prog.get_bind, lacks, if_neg Bool.false_ne_true, if_neg room, dif_neg header.fits.1, dif_neg long]
  rfl

theorem withNewFile_full (name : FileName) (body : PoolM Unit) (lacks : q.hasFilename name = false)
    (full : q.available = []) :
    Pool.withNewFile name body q = ⟨[], q, .error (.generic "No files available in the pool")⟩ := by
  unfold Pool.withNewFile
  rw [Prog.get_bind, lacks, if_neg Bool.false_ne_true, if_pos full]
  rfl

theorem created_dek : (created db uuid q).dek = q.dek := mapSlot_dek
theorem created_anchor : (created db uuid q).anchor = q.anchor := mapSlot_anchor

/-- Creation up to the record in the anchor. -/
theorem createManifest_sealed (lacks : q.hasFilename (manifestName db.name) = false)
    (room : q.available ≠ []) :
    Pool.withNewFile (manifestName db.name) (do
        Prog.effect (Pool.setData (manifestName db.name) (.manifest ⟨uuid, []⟩))
        Pool.writeManifestSlot (.dbKey q.dek uuid) (manifestName db.name) (firstPayload db uuid)) q =
      ⟨[q, Pool.mapSlot (manifestName db.name) (some (headerOf db)) q, headed db uuid q],
        created db uuid q, .ok ()⟩ :=
  withNewFile_run (headerOf db) _ lacks room

theorem openCreated_refused (lacks : q.hasFilename (manifestName db.name) = false)
    (room : q.available ≠ [])
    (full : anchorUpsert uuid (some 1) (some 1) none (anchorLoad q.dek q.anchor).2 = none) :
    ∃ e, Pool.openCreated uuid db.name q =
      ⟨[q, Pool.mapSlot (manifestName db.name) (some (headerOf db)) q, headed db uuid q],
        created db uuid q, .error e⟩ := by
  obtain ⟨e, recorded⟩ : ∃ e, Pool.anchorRecordFull uuid (some 1) (some 1) none (created db uuid q) =
      ⟨[], created db uuid q, .error e⟩ :=
    ⟨_, anchorRecordFull_none (by rw [created_dek, created_anchor]; exact full)⟩
  have ran : Pool.createManifest uuid db.name (manifestName db.name) q =
      ⟨[q, Pool.mapSlot (manifestName db.name) (some (headerOf db)) q, headed db uuid q],
        created db uuid q, .error e⟩ := by
    unfold Pool.createManifest
    rw [Prog.get_bind]
    refine (Prog.bind_of_ok (@createManifest_sealed db q uuid lacks room)).trans ?_
    unfold Pool.anchorRecord
    rw [Prog.bind_of_error recorded]
    rfl
  exact ⟨_, Prog.bind_of_error ran⟩

theorem openCreated_room (lacks : q.hasFilename (manifestName db.name) = false)
    (room : q.available ≠ []) {table : AnchorTable}
    (saved : anchorUpsert uuid (some 1) (some 1) none (anchorLoad q.dek q.anchor).2 = some table) :
    Pool.openCreated uuid db.name q =
      ⟨[q, Pool.mapSlot (manifestName db.name) (some (headerOf db)) q, headed db uuid q,
          created db uuid q],
        adoptCreated db q.dek uuid ((created db uuid q).savedOnce table), .ok ()⟩ := by
  have recorded := @anchorRecordFull_some (created db uuid q) uuid (some 1) (some 1) none table
    (by rw [created_dek, created_anchor]; exact saved)
  rw [Option.isSome_none, if_neg Bool.false_ne_true] at recorded
  have ran : Pool.createManifest uuid db.name (manifestName db.name) q =
      ⟨[q, Pool.mapSlot (manifestName db.name) (some (headerOf db)) q, headed db uuid q,
          created db uuid q],
        { (created db uuid q).savedOnce table with
          dbs := ((created db uuid q).savedOnce table).dbs.insert db.name (firstState q.dek uuid) },
        .ok (firstState q.dek uuid)⟩ := by
    unfold Pool.createManifest
    rw [Prog.get_bind]
    refine (Prog.bind_of_ok (@createManifest_sealed db q uuid lacks room)).trans ?_
    unfold Pool.anchorRecord
    rw [Prog.bind_of_ok recorded]
    rfl
  unfold Pool.openCreated adoptCreated
  rw [Prog.bind_of_ok ran]
  rfl

theorem openCreated_full (lacks : q.hasFilename (manifestName db.name) = false)
    (full : q.available = []) :
    ∃ e, Pool.openCreated uuid db.name q = ⟨[], q, .error e⟩ := by
  have ran : Pool.createManifest uuid db.name (manifestName db.name) q =
      ⟨[], q, .error (.generic "No files available in the pool")⟩ := by
    unfold Pool.createManifest
    rw [Prog.get_bind, Prog.bind_of_error (withNewFile_full _ _ lacks full)]
  exact ⟨_, Prog.bind_of_error ran⟩

theorem deleteFile_run (name : FileName) :
    Pool.deleteFile name q = ⟨q.dropStates name, q.dropped name, .ok (q.hasFilename name)⟩ := by
  unfold Pool.deleteFile dropStates Pool.dropped
  rw [Prog.get_bind]
  by_cases there : q.hasFilename name = true
  · simp only [there, if_true]
    rfl
  · simp only [there]
    rfl

/-- An empty database whose manifest does not read gets a new one, in place of one that is there. -/
theorem openMainDb_unread {main : SyncAccessFile} (there : q.files[db.name]? = some main)
    (blank : main.data.size = 0) {e : OpfsSAHError}
    (unread : q.readManifest (manifestName db.name) = .error e) :
    Pool.openMainDb uuid db.name q =
      ⟨q.dropStates (manifestName db.name) ++
          (Pool.openCreated uuid db.name (q.dropped (manifestName db.name))).passed,
        (Pool.openCreated uuid db.name (q.dropped (manifestName db.name))).state,
        (Pool.openCreated uuid db.name (q.dropped (manifestName db.name))).result⟩ := by
  unfold Pool.openMainDb
  rw [Prog.get_bind]
  by_cases has : q.hasFilename (manifestName db.name) = true
  · simp only [there, has, if_true, unread, blank, ne_eq, not_true_eq_false, if_false]
    exact Prog.bind_of_ok (deleteFile_run _)
  · have same : q.dropped (manifestName db.name) = q := by rw [Pool.dropped, if_neg has]
    have none_passed : q.dropStates (manifestName db.name) = [] := by rw [dropStates, if_neg has]
    simp only [there, has, blank, ne_eq, not_true_eq_false, if_false, same, none_passed,
      List.nil_append]
    rfl

theorem openMainDb_refused (refused : ∀ main, q.files[db.name]? = some main → main.data.size ≠ 0)
    {e : OpfsSAHError} (unread : q.readManifest (manifestName db.name) = .error e) :
    ∃ e', Pool.openMainDb uuid db.name q = ⟨[], q, .error e'⟩ := by
  unfold Pool.openMainDb
  rw [Prog.get_bind]
  cases there : q.files[db.name]? with
  | none => exact ⟨_, rfl⟩
  | some main =>
      have sized := refused main there
      by_cases has : q.hasFilename (manifestName db.name) = true
      · simp only [has, if_true, unread, if_pos sized]
        exact ⟨_, rfl⟩
      · simp only [has, if_pos sized]
        exact ⟨_, rfl⟩

end Creation

/-- What holds of a database between any two writes. -/
structure Held (db : DbName) (q : Pool) : Prop where
  onDisk : q.OnDisk db
  opened : ∀ st, q.dbs[db.name]? = some st → q.Current db.name st

section Held

variable {db : DbName} {p q : Pool} {st : DbState} {uuid : Uuid} {payload : ManifestPayload}

/-- The second half of it. -/
def OpenCurrent (db : DbName) (q : Pool) : Prop := ∀ st, q.dbs[db.name]? = some st → q.Current db.name st

theorem Current.openCurrent (current : q.Current db.name st) : q.OpenCurrent db := by
  intro other known
  rw [current.db, Option.some.injEq] at known
  exact known ▸ current

theorem SameDb.openCurrent (same : SameDb db.name p q) (held : p.OpenCurrent db) : q.OpenCurrent db :=
  fun st known => same.current (held st (same.db.symm.trans known))

theorem held_of_meets {α ε : Type} {program : Prog Pool ε α} (held : p.Held db)
    (kept : Keeps (OnDisk db) program)
    (met : (program p).Meets (OpenCurrent db) (fun _ => OpenCurrent db) fun _ => OpenCurrent db) :
    (program p).Meets (Held db) (fun _ => Held db) fun _ => Held db :=
  ((kept p held.onDisk).and met).mono (fun _ both => ⟨both.1, both.2⟩)
    (fun _ _ both => ⟨both.1, both.2⟩) fun _ _ both => ⟨both.1, both.2⟩

/-- A journal finalized while its database is not open commits nothing. -/
theorem barrier_closed (closed : p.dbs[db.name]? = none) :
    (FileCall.barrier db.name p).passed = [] ∧ (FileCall.barrier db.name p).state = p := by
  have ran : (Pool.journalFinalizeBarrier (journalName db.name) db.name p).passed = [] ∧
      (Pool.journalFinalizeBarrier (journalName db.name) db.name p).state = p := by
    unfold Pool.journalFinalizeBarrier
    rw [Prog.get_bind]
    cases found : p.files[journalName db.name]? with
    | none => exact ⟨rfl, rfl⟩
    | some journal =>
        simp only [closed]
        by_cases sized : physBlock ≤ journal.data.size
        · simp only [sized, if_true]
          exact ⟨rfl, rfl⟩
        · simp only [sized]
          exact ⟨rfl, rfl⟩
  unfold FileCall.barrier asVfs Prog.zoom
  exact ⟨by simp only [id, ran.1, List.map_nil], ran.2⟩

theorem meets_barrier_held (held : p.Held db) : (FileCall.barrier db.name p).Meets (OpenCurrent db)
    (fun _ => OpenCurrent db) fun _ => OpenCurrent db := by
  cases known : p.dbs[db.name]? with
  | none =>
      obtain ⟨none_passed, same⟩ := barrier_closed known
      refine ⟨fun q passed => ?_, ?_⟩
      · rw [none_passed] at passed
        cases passed
      · rw [same]
        split <;> exact held.opened
  | some st =>
      have current := held.opened st known
      cases hot : p.hot db.name with
      | false =>
          rw [barrier_cold current hot]
          exact ⟨fun _ passed => (nomatch passed), held.opened⟩
      | true =>
          refine (meets_barrier current hot).mono (fun _ kept => kept.openCurrent) ?_
            fun _ _ kept => kept.openCurrent
          rintro _ q ⟨image, table, _, committed⟩
          exact committed.current.openCurrent

/-- Every call on the main file and the journal keeps it, at each of its writes. -/
theorem Held.run (held : p.Held db) (call : FileCall) :
    (call.run db.name p).Meets (Held db) (fun _ => Held db) fun _ => Held db := by
  apply held_of_meets held (OnDisk.keeps_run call)
  cases finalizing : call.finalizes with
  | false =>
      have kept := FileCall.keeps_run finalizing p (SameDb.refl db.name p)
      exact kept.mono (fun _ same => same.openCurrent held.opened)
        (fun _ _ same => same.openCurrent held.opened) fun _ _ same => same.openCurrent held.opened
  | true =>
      rw [FileCall.run_of_finalizes finalizing]
      apply meets_bind _ (meets_barrier_held held)
      intro _ q current
      have kept := FileCall.keeps_physical call q (.refl db.name q)
      exact kept.mono (fun _ same => same.openCurrent current)
        (fun _ _ same => same.openCurrent current) fun _ _ same => same.openCurrent current

/-- A manifest is no satellite. -/
theorem satelliteParent_manifestName (name : FileName) : satelliteParent (manifestName name) = none := by
  have apart : ∀ suffix ∈ [journalSuffix, walSuffix], endsWith (manifestName name) suffix = false := by
    intro suffix listed
    refine not_endsWith_of_endsWith (endsWith_append name manifestSuffix) ?_
    revert suffix
    decide
  simp only [satelliteParent, stripSuffix, apart journalSuffix (by simp), apart walSuffix (by simp),
    Bool.false_eq_true, if_false, Option.or_self]

theorem SameDb.bindSatellites (same : SameDb db.name p q) (kdb : Key) :
    SameDb db.name p (Pool.bindSatellites db.name kdb uuid payload q) := by
  refine ⟨same.dek, same.db, ?_⟩
  rw [← same.manifest, Pool.bindSatellites, Std.ExtTreeMap.getElem?_map]
  cases q.files[manifestName db.name]? with
  | none => rfl
  | some file =>
      rw [Option.map_some, if_neg]
      rw [satelliteParent_manifestName]
      exact (Option.some_ne_none db.name).symm

theorem SameDb.bindMain (same : SameDb db.name p q) (kdb : Key) (logical : Option Nat) :
    SameDb db.name p (Pool.bindMain db.name kdb uuid logical q) :=
  same.modifyFile (Ne.symm (manifestName_ne_self db.name)) _

theorem Current.bindMain (current : q.Current db.name st) (uuid : Uuid) (kdb : Key)
    (logical : Option Nat) : (Pool.bindMain db.name kdb uuid logical q).Current db.name st :=
  ((SameDb.refl db.name q).bindMain kdb logical).current current

/-- The manifest of the current generation may be sealed again with another root. -/
theorem Current.reseal (current : q.Current db.name st) (root : Root) (table : List (FileId × Nat)) :
    ({ sealSlot (manifestName db.name) st.crypto ⟨st.generation, st.uuid, root, .zero, table⟩ q with
        dbs := q.dbs.insert db.name { st with committedRoot := root } } : Pool).Current db.name
      { st with committedRoot := root } := by
  obtain ⟨file, held, stands⟩ := current.manifest
  let payload : ManifestPayload := ⟨st.generation, st.uuid, root, .zero, table⟩
  refine ⟨Std.ExtTreeMap.getElem?_insert_self, current.key, _, manifestFile_writeSlot held _ _,
    stands.uuid, ⟨payload, manifestSlot_write_self.mpr ⟨?_, stands.uuid.symm⟩, rfl, rfl⟩, ?_⟩
  · rw [stands.uuid]
    show Aead.Sealed.openWith (.dbKey q.dek st.uuid) _ (.sealed st.crypto _ _) = _
    rw [← current.key]
    exact Aead.openWith_sealed _ _ _
  · intro found opens
    rw [manifestSlot_write_of_ne (by dsimp only; omega)] at opens
    exact stands.other found opens

theorem meets_seal_held (current : q.Current db.name st) :
    (Pool.sealRootMigration db.name q).Meets (OpenCurrent db) (fun _ => OpenCurrent db)
      fun _ => OpenCurrent db := by
  unfold Pool.sealRootMigration
  apply meets_get_bind
  simp only [current.db]
  apply meets_ofExcept_bind
  · intro root _
    split
    · exact meets_pure current.openCurrent
    · split
      · apply meets_effect_bind current.openCurrent
        exact meets_modify (current.reseal root _).openCurrent
      · exact meets_fail current.openCurrent
  · exact fun _ _ => current.openCurrent

theorem meets_adopt_held (onDisk : q.OnDisk db)
    (read : q.readManifest (manifestName db.name) = .ok (uuid, payload)) {dek : Dek} (same : q.dek = dek)
    (data : Region) (hot : Bool) :
    (Pool.adoptDb db.name (.dbKey dek uuid) uuid payload data hot q).Meets (OpenCurrent db)
      (fun _ => OpenCurrent db) fun _ => OpenCurrent db := by
  subst same
  unfold Pool.adoptDb
  apply meets_modify_bind
  let st : DbState := ⟨uuid, .dbKey q.dek uuid, payload.dbGeneration, payload.merkleRoot⟩
  have current := current_of_read (q := { q with dbs := q.dbs.insert db.name st }) (onDisk.insertDb _)
    read Std.ExtTreeMap.getElem?_insert_self
  split
  · exact meets_seal_held current
  · exact meets_pure current.openCurrent

theorem meets_check_held (held : p.Held db)
    (read : p.readManifest (manifestName db.name) = .ok (uuid, payload)) :
    (Pool.checkMain db.name (.dbKey p.dek uuid) uuid payload p).Meets (OpenCurrent db)
      (fun _ => OpenCurrent db) fun _ => OpenCurrent db := by
  let begun (q : Pool) : Prop := q.OnDisk db ∧ SameDb db.name p q
  have bound : ∀ logical q, begun q → begun (Pool.bindMain db.name (.dbKey p.dek uuid) uuid logical q) :=
    fun logical q both => ⟨both.1.rebind fun _ => ⟨rfl, rfl⟩, both.2.bindMain _ logical⟩
  have first := bound none p ⟨held.onDisk, .refl db.name p⟩
  unfold Pool.checkMain
  apply meets_modify_bind
  apply meets_get_bind
  apply meets_ofExcept_bind
  · intro logical _
    apply meets_modify_bind
    apply meets_modify_bind
    have second := bound (some logical) _ first
    have third : begun _ := ⟨second.1.bindSatellites db.name (.dbKey p.dek uuid) uuid payload,
      second.2.bindSatellites (.dbKey p.dek uuid)⟩
    apply meets_get_bind
    apply meets_ofExcept_bind
    · intro _ _
      exact meets_adopt_held third.1 (third.2.readManifest.trans read) third.2.dek _ _
    · exact fun _ _ => third.2.openCurrent held.opened
  · exact fun _ _ => first.2.openCurrent held.opened

theorem openCurrent_of_none (closed : q.dbs[db.name]? = none) : q.OpenCurrent db := by
  intro st known
  rw [closed] at known
  cases known

theorem unmapSlot_dbs (name : FileName) : (Pool.unmapSlot name q).dbs = q.dbs := by
  unfold Pool.unmapSlot
  split <;> rfl

theorem dropped_dbs (name : FileName) : (q.dropped name).dbs = q.dbs := by
  unfold Pool.dropped
  split
  · exact unmapSlot_dbs name
  · rfl

theorem dropStates_dbs {name : FileName} (passed : p ∈ q.dropStates name) : p.dbs = q.dbs := by
  unfold dropStates at passed
  split at passed
  · simp only [List.mem_cons, List.not_mem_nil, or_false] at passed
    rcases passed with rfl | rfl <;> rfl
  · cases passed

theorem mapSlot_dbs (name : FileName) (header : Option HeaderName) :
    (Pool.mapSlot name header q).dbs = q.dbs := by
  unfold Pool.mapSlot
  split <;> rfl

/-- The manifest file of a new database. -/
theorem manifestFile_headed (room : q.available ≠ []) :
    (headed db uuid q).manifestFile db.name = some ⟨uuid, []⟩ := by
  obtain ⟨slot, rest, free⟩ := List.exists_cons_of_ne_nil room
  apply manifestFile_eq_some.mpr
  refine ⟨{ slot with
    header := some (headerOf db), data := .manifest ⟨uuid, []⟩
    fileId := fileIdFor (manifestName db.name), logicalSize := some 0 }, ?_, rfl⟩
  rw [headed, getElem?_setData, if_pos rfl, mapSlot_of_cons free]
  simp only [Std.ExtTreeMap.getElem?_insert_self, Option.map_some]

theorem manifestFile_created (room : q.available ≠ []) : (created db uuid q).manifestFile db.name =
    some (ManifestFile.write ⟨uuid, []⟩ 1 (.sealed (.dbKey q.dek uuid)
      (.block (fileIdFor (manifestName db.name)) uuid 1) (firstPayload db uuid))) :=
  manifestFile_writeSlot (manifestFile_headed room) _ _

/-- A new database is current. -/
theorem current_created (room : q.available ≠ []) {r : Pool} (same : SameDb db.name (created db uuid q) r) :
    ({ r with dbs := r.dbs.insert db.name (firstState q.dek uuid) } : Pool).Current db.name
      (firstState q.dek uuid) := by
  have dek : r.dek = q.dek := same.dek.trans created_dek
  refine ⟨Std.ExtTreeMap.getElem?_insert_self, by rw [dek]; rfl, _,
    same.manifestFile.trans (manifestFile_created room), rfl,
    ⟨firstPayload db uuid, manifestSlot_write_self.mpr ⟨?_, rfl⟩, rfl, rfl⟩, fun found opens => ?_⟩
  · rw [dek]
    exact Aead.openWith_sealed _ _ _
  · have blank : manifestSlot r.dek (manifestName db.name) ⟨uuid, []⟩ 0 = none := rfl
    rw [show ((firstState q.dek uuid).generation + 1) % 2 = 0 by simp [firstState]] at opens
    have before := (manifestSlot_write_of_ne (by decide)).symm.trans opens
    exact absurd (before.symm.trans blank) (Option.some_ne_none _)

theorem meets_created_held (closed : q.dbs[db.name]? = none)
    (lacks : q.hasFilename (manifestName db.name) = false) :
    (Pool.openCreated uuid db.name q).Meets (OpenCurrent db) (fun _ => OpenCurrent db)
      fun _ => OpenCurrent db := by
  have mapped : (Pool.mapSlot (manifestName db.name) (some (headerOf db)) q).dbs = q.dbs :=
    mapSlot_dbs _ _
  have blank : ∀ r ∈ [q, Pool.mapSlot (manifestName db.name) (some (headerOf db)) q, headed db uuid q,
      created db uuid q], r.OpenCurrent db := by
    intro r passed
    apply openCurrent_of_none
    simp only [List.mem_cons, List.not_mem_nil, or_false] at passed
    rcases passed with rfl | rfl | rfl | rfl
    · exact closed
    · rw [mapped, closed]
    · exact (congrArg (fun dbs : Std.ExtTreeMap FileName DbState => dbs[db.name]?) mapped).trans closed
    · exact (congrArg (fun dbs : Std.ExtTreeMap FileName DbState => dbs[db.name]?) mapped).trans closed
  by_cases room : q.available = []
  · obtain ⟨e, ran⟩ := @openCreated_full db q uuid lacks room
    rw [ran]
    exact ⟨fun _ passed => (nomatch passed), openCurrent_of_none closed⟩
  · cases saved : anchorUpsert uuid (some 1) (some 1) none (anchorLoad q.dek q.anchor).2 with
    | none =>
        obtain ⟨e, ran⟩ := openCreated_refused lacks room saved
        rw [ran]
        refine ⟨fun r passed => blank r ?_, blank _ (by simp)⟩
        simp only [List.mem_cons, List.not_mem_nil, or_false] at passed ⊢
        tauto
    | some table =>
        rw [openCreated_room lacks room saved]
        refine ⟨blank, ?_⟩
        have same : SameDb db.name (created db uuid q) ((created db uuid q).savedOnce table) := ⟨rfl, rfl, rfl⟩
        exact ((current_created room same).bindMain uuid (.dbKey q.dek uuid) (some 0)).openCurrent

/-- Every opening keeps it, at each of its writes. -/
theorem Held.openMainDb (held : p.Held db) (freshUuid : Uuid) :
    (Pool.openMainDb freshUuid db.name p).Meets (Held db) (fun _ => Held db) fun _ => Held db := by
  apply held_of_meets held (OnDisk.keeps_openMainDb freshUuid db.name)
  cases read : p.readManifest (manifestName db.name) with
  | error e =>
      have closed : p.dbs[db.name]? = none := by
        cases known : p.dbs[db.name]? with
        | none => rfl
        | some st =>
            obtain ⟨payload, reads⟩ := (held.opened st known).reads
            rw [read] at reads
            cases reads
      by_cases refused : ∀ main, p.files[db.name]? = some main → main.data.size ≠ 0
      · obtain ⟨e', ran⟩ := @openMainDb_refused db p freshUuid refused e read
        rw [ran]
        exact ⟨fun _ passed => (nomatch passed), held.opened⟩
      · push Not at refused
        obtain ⟨main, there, blank⟩ := refused
        have dbs := @dropped_dbs p (manifestName db.name)
        have created := @meets_created_held db _ freshUuid (by rw [dbs]; exact closed)
          (@lacks_dropped p (manifestName db.name))
        rw [openMainDb_unread there blank read]
        refine ⟨fun q passed => ?_, created.2⟩
        rcases List.mem_append.mp passed with dropping | creating
        · apply openCurrent_of_none
          rw [dropStates_dbs dropping]
          exact closed
        · exact created.passed creating
  | ok found =>
      obtain ⟨uuid, payload⟩ := found
      unfold Pool.openMainDb
      apply meets_get_bind
      cases there : p.files[db.name]? with
      | none => exact meets_fail held.opened
      | some main =>
          obtain ⟨mfile, file, present, _, _⟩ := readManifest_file read
          have has : p.hasFilename (manifestName db.name) = true := hasFilename_iff.mpr ⟨mfile, present⟩
          simp only [has, if_true, read]
          unfold Pool.openVerified
          apply meets_get_bind
          apply meets_ofExcept_bind
          · intro _ _
            have kept := (OnDisk.keeps_anchorRecord uuid (some payload.dbGeneration)
              (some payload.dbGeneration) p held.onDisk).and
                (SameDb.keeps_anchorRecord uuid (some payload.dbGeneration) (some payload.dbGeneration)
                  p (.refl db.name p))
            apply meets_bind (fun _ q => q.OnDisk db ∧ SameDb db.name p q)
            · exact kept.mono (fun _ both => both.2.openCurrent held.opened) (fun _ _ both => both)
                fun _ _ both => both.2.openCurrent held.opened
            · rintro _ q ⟨onDisk, same⟩
              rw [← same.dek]
              exact meets_check_held ⟨onDisk, same.openCurrent held.opened⟩
                (same.readManifest.trans read)
          · exact fun _ _ => held.opened

end Held

/-- The manifest with other bytes in one slot. -/
def tornSlot (db : DbName) (slot : Nat) (bytes : SealedBytes ManifestPayload) (q : Pool) : Pool :=
  q.modifyFile (manifestName db.name) fun mfile =>
    { mfile with data := mfile.data.writeSlot slot bytes }

/-- The bytes authenticate as no manifest in the slot. -/
def Torn (db : DbName) (q : Pool) (slot : Nat) (bytes : SealedBytes ManifestPayload) : Prop :=
  ∀ file, q.manifestFile db.name = some file →
    manifestSlot q.dek (manifestName db.name) (file.write slot bytes) slot = none

/-- Whatever lands in the slot of the manifest, the next opening succeeds: on the manifest that was
current, or on a new one if none was. -/
def Survives (db : DbName) (next : Uuid) (q : Pool) (slot : Nat) : Prop :=
  ∀ bytes, Torn db q slot bytes →
    let crashed := (tornSlot db slot bytes q).reopen q.dek
    let opened := Pool.openMainDb next db.name crashed
    opened.result = .ok () ∧
      match q.readManifest (manifestName db.name) with
      | .ok current => crashed.readManifest (manifestName db.name) = .ok current
      | .error _ => opened.state.readManifest (manifestName db.name) = .ok (next, firstPayload db next)

/-- A database that is not open, with its files as the code keeps them. -/
def Shut (db : DbName) (q : Pool) : Prop := q.dbs[db.name]? = none ∧ q.OnDisk db

end Pool

/-- What happens to one database of a vault. -/
inductive VaultEvent where
  | call (event : FileEvent)
  | addMain
  | openDb (freshUuid : Uuid) (failsAt : Option Nat)
  | elsewhere (q : Pool)

namespace VaultEvent

def step (db : DbName) (s : Pool) : VaultEvent → Option Pool
  | call event => (event.ends db.name s).map Prod.fst
  | addMain => some (Vfs.xOpenImpl db.name true s).state
  | openDb freshUuid failsAt =>
      let ran := Pool.openMainDb freshUuid db.name s
      match failsAt with
      | none => some ran.state
      | some i => ran.passed[i]?
  | elsewhere q => some q

/-- What goes on elsewhere has no business with the database, or finds it shut: a crash, an import or
a rotation of the vault. -/
def Allowed (db : DbName) (s : Pool) : VaultEvent → Prop
  | elsewhere q =>
      (q.dek = s.dek ∧ q.dbs[db.name]? = s.dbs[db.name]? ∧
        (∀ other ∈ db.files, q.files[other]? = s.files[other]?) ∧ q.Cleared) ∨ q.Shut db
  | _ => True

end VaultEvent

/-- An operation that may seal a slot of the manifest: a call that finalizes a hot journal, or an
opening that creates the manifest or migrates it. -/
inductive SealOp where
  | commit (call : FileCall)
  | opening (freshUuid : Uuid)

namespace SealOp

variable (db : DbName) (s : Pool)

/-- The states the operation passes, one for each of its writes. -/
def passed : SealOp → List Pool
  | commit call => (call.run db.name s).passed
  | opening freshUuid => (Pool.openMainDb freshUuid db.name s).passed

/-- The states a crash in it, or right after it, can leave behind. -/
def crashes : SealOp → List Pool
  | commit call => (call.run db.name s).crashes
  | opening freshUuid => (Pool.openMainDb freshUuid db.name s).crashes

/-- Which of the writes seals a slot, and which slot. A commit and a migration have recorded the
window in the anchor before; a new manifest has been mapped and has its header, and the old one is
gone. -/
def place : SealOp → Option (Nat × Nat)
  | commit call =>
      match s.dbs[db.name]? with
      | some st =>
          if call.finalizes && s.hot db.name then some (1, (st.generation + 1) % 2) else none
      | none => none
  | opening _ =>
      match s.readManifest (manifestName db.name) with
      | .ok (_, payload) => some (1, payload.dbGeneration % 2)
      | .error _ => some (if s.hasFilename (manifestName db.name) then 4 else 2, 1)

/-- The state the write of the slot finds, and the slot. -/
def write (op : SealOp) : Option (Pool × Nat) :=
  (op.place db s).bind fun at_ => ((op.passed db s)[at_.1]?).map fun q => (q, at_.2)

end SealOp

/-- The manifest of the current generation stands, passes the freshness gate and has the root of what
the hot journal restores. -/
structure Pool.Vouched (db : DbName) (s : Pool) (st : DbState) : Prop where
  fresh : freshnessGate (anchorEntry s.dek s.anchor st.uuid) st.generation = .ok ()
  manifest : ∃ payload, s.readManifest (manifestName db.name) = .ok (st.uuid, payload) ∧
    payload.dbGeneration = st.generation ∧
    ∀ main, s.files[db.name]? = some main → 0 < main.data.size → payload.merkleRoot ≠ .zero →
      ∃ image, s.replayedImage db.name (journalName db.name) st.crypto st.uuid = .ok image ∧
        payload.accepts (rootOf image) = true

/-- When a torn write of the slot does no harm. -/
def SealOp.Withstands (db : DbName) (next : Uuid) (s : Pool) : SealOp → Prop
  | commit _ => ∀ st, s.dbs[db.name]? = some st → s.Vouched db st
  | opening _ => (∃ e, s.readManifest (manifestName db.name) = .error e) ∧
      anchorUpsert next (some 1) (some 1) none (anchorLoad s.dek s.anchor).2 ≠ none

namespace Pool

section Crashed

variable {db : DbName} {q : Pool} {slot : Nat} {bytes : SealedBytes ManifestPayload}
  {file : ManifestFile}

theorem getElem?_reopen_named (onDisk : q.OnDisk db) {other : FileName} (listed : other ∈ db.files)
    (dek : Dek) : (q.reopen dek).files[other]? = (q.files[other]?).map (mounted dek other) := by
  rw [getElem?_reopen]
  cases found : q.files[other]? with
  | none => rfl
  | some there =>
      rw [Option.bind_some, if_pos (onDisk.named other listed there found)]
      rfl

theorem manifestFile_reopen (onDisk : q.OnDisk db) (dek : Dek) :
    (q.reopen dek).manifestFile db.name = q.manifestFile db.name := by
  unfold manifestFile
  rw [getElem?_reopen_named onDisk (by simp [DbName.files]) dek]
  cases q.files[manifestName db.name]? with
  | none => rfl
  | some mfile => rfl

theorem OnDisk.reopen (onDisk : q.OnDisk db) : (q.reopen q.dek).OnDisk db := by
  refine ⟨?_, ?_, ?_⟩
  · intro other listed there found
    exact Wf.reopen.named other there found
  · intro file held
    rw [manifestFile_reopen onDisk] at held
    exact onDisk.paired file held
  · intro free listed
    rw [List.eq_of_mem_replicate listed]
    rfl

/-- A vault that is acquired again after a crash is one the database is shut in. -/
theorem OnDisk.shut_reopen (onDisk : q.OnDisk db) : (q.reopen q.dek).Shut db :=
  ⟨Std.ExtTreeMap.getElem?_empty, onDisk.reopen⟩

theorem OnDisk.torn (onDisk : q.OnDisk db) (torn : Torn db q slot bytes) :
    (tornSlot db slot bytes q).OnDisk db := by
  refine onDisk.modifyFile (fun _ => rfl) ?_
  intro _ old file found shape
  obtain ⟨earlier, before, rfl⟩ := writeSlot_eq_manifest.mp shape
  have held := manifestFile_eq_some.mpr ⟨old, found, before⟩
  exact (onDisk.paired earlier held).torn (torn earlier held)

/-- The manifest after the crash. -/
theorem manifestFile_crashed (onDisk : q.OnDisk db) (torn : Torn db q slot bytes)
    (held : q.manifestFile db.name = some file) :
    ((tornSlot db slot bytes q).reopen q.dek).manifestFile db.name = some (file.write slot bytes) :=
  (manifestFile_reopen (onDisk.torn torn) q.dek).trans (manifestFile_writeSlot held slot bytes)

/-- The main file and the journal after it. -/
theorem content_crashed (onDisk : q.OnDisk db) (torn : Torn db q slot bytes) {other : FileName}
    (listed : other ∈ db.files) (apart : other ≠ manifestName db.name) :
    ((tornSlot db slot bytes q).reopen q.dek).content other =
      (q.files[other]?).map fun there => there.data := by
  have same : (tornSlot db slot bytes q).files[other]? = q.files[other]? := by
    rw [tornSlot, Pool.modifyFile, Std.ExtTreeMap.getElem?_modify, if_neg (by simpa using Ne.symm apart)]
  rw [Wf.reopen.content_eq, getElem?_reopen_named (onDisk.torn torn) listed, same, Option.map_map]
  rfl

/-- Bytes that authenticate nowhere land. -/
theorem torn_junk (db : DbName) (q : Pool) (slot : Nat) : Torn db q slot (.junk 0) := by
  intro file _
  rw [Option.eq_none_iff_forall_ne_some]
  intro payload opens
  exact nomatch (manifestSlot_write_self.mp opens).1

/-- The manifest of the generation that is written over is not the one that is read then. -/
theorem torn_own (onDisk : q.OnDisk db) {uuid : Uuid} {payload : ManifestPayload}
    (torn : Torn db q (payload.dbGeneration % 2) bytes) :
    ((tornSlot db (payload.dbGeneration % 2) bytes q).reopen q.dek).readManifest
      (manifestName db.name) ≠ .ok (uuid, payload) := by
  intro read
  obtain ⟨written, held, picked, _⟩ := readManifest_eq_ok.mp read
  have shut := (onDisk.torn torn).shut_reopen.2
  have opens := ((shut.paired written held).picked picked).1
  rw [manifestFile_reopen (onDisk.torn torn)] at held
  obtain ⟨mfile, found, shape⟩ := manifestFile_eq_some.mp held
  rw [tornSlot, getElem?_modifyFile] at found
  obtain ⟨old, before, rfl⟩ := Option.map_eq_some_iff.mp found
  obtain ⟨earlier, data, rfl⟩ := writeSlot_eq_manifest.mp shape
  have none_there := torn earlier (manifestFile_eq_some.mpr ⟨old, before, data⟩)
  exact absurd (opens.symm.trans none_there) (Option.some_ne_none _)

end Crashed

section Commit

variable {db : DbName} {s q : Pool} {st : DbState}

/-- The database in the state after the commit of an image. -/
def adoptCommit (name : FileName) (st : DbState) (image : List Block) (pool : Pool) : Pool :=
  { pool with dbs := pool.dbs.insert name (st.commit image) }

/-- What the barrier does: it fails before the second of its writes, which seals the next slot, or it
goes on to record the generation. -/
theorem onMainSynced_run {name : FileName} (current : s.Current name st) :
    (∃ e, (Pool.onMainSynced name s).passed.length ≤ 1 ∧ (Pool.onMainSynced name s).result = .error e) ∨
    ∃ table image, anchorUpsert st.uuid none (some (st.generation + 1)) none
        (anchorLoad s.dek s.anchor).2 = some table ∧ s.mainImage name = some image ∧
      ((∃ e, Pool.onMainSynced name s = ⟨[s, s.savedOnce table],
          (s.savedOnce table).sealNext name st image, .error e⟩) ∨
        ∃ next, anchorUpsert st.uuid (some (st.generation + 1)) (some (st.generation + 1)) none
            (anchorLoad s.dek (s.savedOnce table).anchor).2 = some next ∧
          Pool.onMainSynced name s = ⟨[s, s.savedOnce table, (s.savedOnce table).sealNext name st image],
            (((s.savedOnce table).sealNext name st image).savedOnce next).adoptCommit name st image,
            .ok ()⟩) := by
  unfold Pool.onMainSynced
  rw [Prog.get_bind]
  simp only [current.db]
  unfold Pool.anchorRecord
  cases saved : anchorUpsert st.uuid none (some (st.generation + 1)) none (anchorLoad s.dek s.anchor).2 with
  | none =>
      rw [Prog.bind_of_error (anchorRecordFull_none saved)]
      exact .inl ⟨_, Nat.zero_le _, rfl⟩
  | some table =>
      have recorded := anchorRecordFull_some saved
      rw [Option.isSome_none, if_neg Bool.false_ne_true] at recorded
      rw [Prog.bind_of_ok recorded, Prog.get_bind]
      have root : (s.savedOnce table).fullStateRoot name = s.fullStateRoot name := rfl
      rw [root]
      cases rooted : s.fullStateRoot name with
      | error e =>
          rw [Prog.ofExcept_error_bind]
          exact .inl ⟨e, Nat.le_refl 1, rfl⟩
      | ok merkleRoot =>
          obtain ⟨image, read, rfl⟩ := fullStateRoot_ok.mp rooted
          rw [Prog.ofExcept_ok_bind]
          by_cases has : (s.savedOnce table).hasFilename (manifestName name) = true
          · have sealing : Pool.writeManifestSlot st.crypto (manifestName name)
                ⟨st.generation + 1, st.uuid, rootOf image, st.committedRoot,
                  (s.savedOnce table).lengthTable name⟩ (s.savedOnce table) =
                ⟨[s.savedOnce table], (s.savedOnce table).sealNext name st image, .ok ()⟩ := rfl
            rw [if_pos has, Prog.bind_of_ok sealing]
            refine .inr ⟨table, image, rfl, read, ?_⟩
            cases again : anchorUpsert st.uuid (some (st.generation + 1)) (some (st.generation + 1)) none
                (anchorLoad ((s.savedOnce table).sealNext name st image).dek
                  ((s.savedOnce table).sealNext name st image).anchor).2 with
            | none =>
                rw [Prog.bind_of_error (anchorRecordFull_none again)]
                exact .inl ⟨_, rfl⟩
            | some next =>
                have recorded := anchorRecordFull_some again
                rw [Option.isSome_none, if_neg Bool.false_ne_true] at recorded
                rw [Prog.bind_of_ok recorded]
                exact .inr ⟨next, again, rfl⟩
          · rw [if_neg has]
            exact .inl ⟨_, Nat.le_refl 1, rfl⟩

/-- The barrier of a hot journal is the commit of its database. -/
theorem barrier_hot {name : FileName} (current : s.Current name st) (hot : s.hot name = true) :
    FileCall.barrier name s =
      ⟨(Pool.onMainSynced name s).passed, (Pool.onMainSynced name s).state,
        (Pool.onMainSynced name s).result.mapError (OpfsSAHError.vfsErr sqliteIoerr)⟩ := by
  have barrier : Pool.journalFinalizeBarrier (journalName name) name s = Pool.onMainSynced name s := by
    unfold Pool.journalFinalizeBarrier
    rw [Prog.get_bind]
    unfold Pool.hot Pool.hotJournal at hot
    simp only [current.db] at hot ⊢
    cases found : s.files[journalName name]? with
    | none => rw [found] at hot; cases hot
    | some journal =>
        rw [found] at hot
        dsimp only at hot ⊢
        rw [if_pos hot]
  unfold FileCall.barrier asVfs Prog.zoom
  simp only [id, barrier, List.map_id']

/-- The second write of a call that finalizes a hot journal is the one that seals. -/
theorem commit_seals (current : s.Current db.name st) {call : FileCall}
    (finalizing : call.finalizes = true) (hot : s.hot db.name = true)
    (second : (call.run db.name s).passed[1]? = some q) :
    ∃ table image, anchorUpsert st.uuid none (some (st.generation + 1)) none
        (anchorLoad s.dek s.anchor).2 = some table ∧ s.mainImage db.name = some image ∧
      q = s.savedOnce table ∧
        (call.run db.name s).crashes[2]? = some (q.sealNext db.name st image) := by
  have mapped := barrier_hot current hot
  rw [FileCall.run_of_finalizes finalizing] at second ⊢
  rcases onMainSynced_run current with ⟨e, short, failed⟩ | ⟨table, image, saved, read, failed | done⟩
  · rw [failed] at mapped
    rw [Prog.bind_of_error mapped] at second
    have none_there := List.getElem?_eq_none short
    exact absurd (second.symm.trans none_there) (Option.some_ne_none _)
  · obtain ⟨e, ran⟩ := failed
    rw [ran] at mapped
    rw [Prog.bind_of_error mapped] at second ⊢
    exact ⟨table, image, saved, read, (Option.some.inj second).symm, by
      rw [← Option.some.inj second]; rfl⟩
  · obtain ⟨_, _, ran⟩ := done
    rw [ran] at mapped
    rw [Prog.bind_of_ok mapped] at second ⊢
    exact ⟨table, image, saved, read, (Option.some.inj second).symm, by
      rw [← Option.some.inj second]; rfl⟩

/-- A record of what is in flight shuts nothing out and leaves room for the window. -/
theorem fresh_savedOnce {uuid : Uuid} {gen inFlight : Nat} {table : AnchorTable}
    (saved : anchorUpsert uuid none (some inFlight) none (anchorLoad s.dek s.anchor).2 = some table) :
    Fresh s.dek (s.savedOnce table).anchor uuid gen ↔
      freshnessGate (anchorEntry s.dek s.anchor uuid) gen = .ok () := by
  have loaded : (anchorLoad s.dek (s.savedOnce table).anchor).2 = table :=
    congrArg Prod.snd (anchorLoad_save (Nat.lt_succ_self _))
  have found := find_anchorUpsert saved uuid
  rw [if_pos rfl] at found
  have room : anchorUpsert uuid (some gen) (some gen) none table ≠ none := by
    apply anchorUpsert_ne_none.mpr
    refine .inl (List.mem_map.mpr ⟨_, List.mem_of_find?_eq_some found, ?_⟩)
    exact of_decide_eq_true (List.find?_some (p := fun e : AnchorEntry => decide (e.uuid = uuid)) found)
  unfold Fresh
  rw [loaded, anchorEntry, loaded, found, anchorEntry, freshnessGate_ok]
  cases (anchorLoad s.dek s.anchor).2.find uuid with
  | none =>
      refine iff_of_true ⟨⟨Nat.zero_le _, Nat.zero_le _⟩, room⟩ rfl
  | some e =>
      rw [Option.getD_some, freshnessGate_ok]
      exact and_iff_left room

theorem openMainDb_ok_iff {dek : Dek} {stored : Freehold.Stored} {name : FileName} {data : Region} {uuid : Uuid}
    {payload : ManifestPayload} (freshUuid : Uuid) (live : q.Live dek stored)
    (held : stored.disk name = some data)
    (manifest : manifestOn dek stored.disk (manifestName name) = .ok (uuid, payload)) :
    (Pool.openMainDb freshUuid name q).result = .ok () ↔
      Fresh dek stored.anchor uuid payload.dbGeneration ∧
        Verified dek stored.disk name data uuid payload := by
  have met := meets_openMainDb freshUuid (fun _ => True) live held manifest trivial fun _ _ => trivial
  constructor
  · intro opens
    have done := met.ok opens
    exact ⟨done.fresh, done.verified⟩
  · intro passes
    cases result : (Pool.openMainDb freshUuid name q).result with
    | ok _ => rfl
    | error e => exact absurd passes (met.error result).1

/-- A torn write of the next slot leaves the manifest of the current generation. -/
theorem readManifest_torn_next (current : q.Current db.name st) (onDisk : q.OnDisk db)
    {bytes : SealedBytes ManifestPayload} (torn : Torn db q ((st.generation + 1) % 2) bytes) :
    ∃ payload, ((tornSlot db ((st.generation + 1) % 2) bytes q).reopen q.dek).readManifest
        (manifestName db.name) = .ok (st.uuid, payload) ∧ payload.dbGeneration = st.generation ∧
      ∀ newest, q.readManifest (manifestName db.name) = .ok (st.uuid, newest) →
        newest.dbGeneration = st.generation → newest = payload := by
  obtain ⟨file, held, stands⟩ := current.manifest
  obtain ⟨payload, found, generation, _⟩ := stands.current
  have kept : manifestSlot q.dek (manifestName db.name)
      (file.write ((st.generation + 1) % 2) bytes) (st.generation % 2) = some payload := by
    rw [manifestSlot_write_of_ne (by omega)]
    exact found
  have picked := manifestPick_newest st.generation kept fun other opens => by
    rw [torn file held] at opens
    cases opens
  refine ⟨payload, ?_, generation, ?_⟩
  · exact readManifest_eq_ok.mpr ⟨_, manifestFile_crashed onDisk torn held, picked, stands.uuid⟩
  · intro newest read same
    obtain ⟨file', held', first, _⟩ := readManifest_eq_ok.mp read
    obtain rfl := Option.some.inj (held.symm.trans held')
    have opens := ((onDisk.paired file held).picked first).1
    rw [same, found, Option.some.injEq] at opens
    exact opens.symm

/-- What the checks of the next opening find of a database whose journal is hot. -/
theorem verified_torn (onDisk : q.OnDisk db) (current : q.Current db.name st) (hot : q.hot db.name = true)
    {slot : Nat} {bytes : SealedBytes ManifestPayload} (torn : Torn db q slot bytes)
    {main : SyncAccessFile} (there : q.files[db.name]? = some main) (payload : ManifestPayload) :
    Verified q.dek (tornSlot db slot bytes q).stored.disk db.name main.data st.uuid payload ↔
      (0 < main.data.size → payload.merkleRoot ≠ .zero →
        ∃ image, q.replayedImage db.name (journalName db.name) st.crypto st.uuid = .ok image ∧
          payload.accepts (rootOf image) = true) := by
  have disk : ∀ other ∈ db.files, other ≠ manifestName db.name →
      (tornSlot db slot bytes q).stored.disk other = (q.files[other]?).map fun file => file.data := by
    intro other listed apart
    rw [← content_crashed onDisk torn listed apart, content_reopen]
    rfl
  have journal := disk (journalName db.name) (by simp [DbName.files])
    (journalName_ne_manifestName db.name db.name)
  unfold Pool.hot Pool.hotJournal at hot
  simp only [current.db] at hot
  cases found : q.files[journalName db.name]? with
  | none => rw [found] at hot; cases hot
  | some jf =>
      rw [found] at hot journal
      dsimp only at hot
      rw [Option.map_some] at journal
      have heated : hotOn (tornSlot db slot bytes q).stored.disk db.name (.dbKey q.dek st.uuid) st.uuid =
          true := by
        rw [hotOn, journal, ← current.key]
        exact hot
      have replayed : ∀ image, replayOn (tornSlot db slot bytes q).stored.disk db.name
          (.dbKey q.dek st.uuid) st.uuid main.data = some image ↔
            q.replayedImage db.name (journalName db.name) st.crypto st.uuid = .ok image := by
        intro image
        rw [replayOn, journal, replayedImage, found, there, ← current.key]
        exact toOption_eq_some
      unfold Verified
      rw [heated]
      simp only [if_true, replayed]

/-- A commit survives the loss of its slot exactly where the manifest before it is vouched for. -/
theorem survives_commit (held : s.Held db) (known : s.dbs[db.name]? = some st)
    (hot : s.hot db.name = true) {table : AnchorTable} {image : List Block}
    (saved : anchorUpsert st.uuid none (some (st.generation + 1)) none (anchorLoad s.dek s.anchor).2 =
      some table) (read : s.mainImage db.name = some image) (next : Uuid) :
    (s.savedOnce table).Survives db next ((st.generation + 1) % 2) ↔ s.Vouched db st := by
  have same : SameDb db.name s (s.savedOnce table) := ⟨rfl, rfl, rfl⟩
  have current := same.current (held.opened st known)
  have onDisk : (s.savedOnce table).OnDisk db :=
    ⟨held.onDisk.named, held.onDisk.paired, held.onDisk.cleared⟩
  obtain ⟨main, there, _⟩ := Option.bind_eq_some_iff.mp read
  obtain ⟨newest, newestRead⟩ := current.reads
  have opens : ∀ bytes payload, (torn : Torn db (s.savedOnce table) ((st.generation + 1) % 2) bytes) →
      ((tornSlot db ((st.generation + 1) % 2) bytes (s.savedOnce table)).reopen s.dek).readManifest
        (manifestName db.name) = .ok (st.uuid, payload) → payload.dbGeneration = st.generation →
      ((Pool.openMainDb next db.name ((tornSlot db ((st.generation + 1) % 2) bytes
          (s.savedOnce table)).reopen s.dek)).result = .ok () ↔
        freshnessGate (anchorEntry s.dek s.anchor st.uuid) st.generation = .ok () ∧
        (0 < main.data.size → payload.merkleRoot ≠ .zero →
          ∃ image, s.replayedImage db.name (journalName db.name) st.crypto st.uuid = .ok image ∧
            payload.accepts (rootOf image) = true)) := by
    intro bytes payload torn reads generation
    have live := live_reopen (tornSlot db ((st.generation + 1) % 2) bytes (s.savedOnce table)) s.dek
    have mainHeld : (tornSlot db ((st.generation + 1) % 2) bytes (s.savedOnce table)).stored.disk db.name =
        some main.data := by
      have content := content_crashed onDisk torn db.mem_files
        (Ne.symm (manifestName_ne_self db.name))
      rw [content_reopen, show (s.savedOnce table).files[db.name]? = some main from there] at content
      exact content
    rw [openMainDb_ok_iff next live mainHeld (live.readManifest_eq _ ▸ reads)]
    have fresh := @fresh_savedOnce s st.uuid payload.dbGeneration (st.generation + 1) table saved
    have verified := verified_torn onDisk current hot torn there payload
    rw [generation] at fresh ⊢
    exact and_congr fresh verified
  constructor
  · intro survives
    have torn := torn_junk db (s.savedOnce table) ((st.generation + 1) % 2)
    obtain ⟨payload, reads, generation, _⟩ := readManifest_torn_next current onDisk torn
    obtain ⟨opened, kept⟩ := survives _ torn
    rw [newestRead] at kept
    obtain ⟨_, rfl⟩ := Prod.mk.inj (Except.ok.inj (reads.symm.trans kept))
    obtain ⟨fresh, restored⟩ := (opens _ payload torn reads generation).mp opened
    refine ⟨fresh, payload, newestRead, generation, fun other found => ?_⟩
    obtain rfl := Option.some.inj (there.symm.trans found)
    exact restored
  · rintro ⟨fresh, payload, vouching, generation, restored⟩ bytes torn
    obtain ⟨kept, reads, generation', unique⟩ := readManifest_torn_next current onDisk torn
    obtain rfl := unique payload vouching generation
    refine ⟨(opens bytes payload torn reads generation).mpr ⟨fresh, restored main there⟩, ?_⟩
    rw [show (s.savedOnce table).readManifest (manifestName db.name) = .ok (st.uuid, payload) from vouching]
    exact reads

end Commit

section Opening

variable {db : DbName} {p q s : Pool} {uuid freshUuid next : Uuid} {payload : ManifestPayload}

/-- The run from `p` writes nothing, or nothing but a payload of the generation into its slot of the
manifest. -/
def SealsOnly (db : DbName) (kdb : Key) (uuid : Uuid) (generation : Nat) (p : Pool)
    (ran : Outcome Pool OpfsSAHError Unit) : Prop :=
  ran.passed = [] ∨ ∃ q root table, ran.passed = [q] ∧ q.dek = p.dek ∧
    q.files[manifestName db.name]? = p.files[manifestName db.name]? ∧
    ran.state.files = (sealSlot (manifestName db.name) kdb ⟨generation, uuid, root, .zero, table⟩ q).files

theorem sealRootMigration_seals {st : DbState} (known : q.dbs[db.name]? = some st) (dek : q.dek = p.dek)
    (manifest : q.files[manifestName db.name]? = p.files[manifestName db.name]?) :
    SealsOnly db st.crypto st.uuid st.generation p (Pool.sealRootMigration db.name q) := by
  unfold Pool.sealRootMigration
  rw [Prog.get_bind]
  simp only [known]
  apply Prog.ofExcept_bind_cases
  · intro root _
    by_cases zero : root = .zero
    · rw [if_pos zero]
      exact .inl rfl
    · rw [if_neg zero]
      by_cases has : q.hasFilename (manifestName db.name) = true
      · rw [if_pos has]
        exact .inr ⟨q, root, _, rfl, dek, manifest, rfl⟩
      · rw [if_neg has]
        exact .inl rfl
  · exact fun _ _ => .inl rfl

theorem adoptDb_seals (same : SameDb db.name p q) (kdb : Key) (uuid : Uuid) (payload : ManifestPayload)
    (data : Region) (hot : Bool) :
    SealsOnly db kdb uuid payload.dbGeneration p (Pool.adoptDb db.name kdb uuid payload data hot q) := by
  let st : DbState := ⟨uuid, kdb, payload.dbGeneration, payload.merkleRoot⟩
  unfold Pool.adoptDb
  rw [Prog.modify_bind]
  by_cases migrates : 0 < data.size ∧ hot = false ∧ payload.merkleRoot = .zero
  · rw [if_pos migrates]
    exact @sealRootMigration_seals _ _ _ st Std.ExtTreeMap.getElem?_insert_self same.dek same.manifest
  · rw [if_neg migrates]
    exact .inl rfl

theorem checkMain_seals (p : Pool) (uuid : Uuid) (payload : ManifestPayload) :
    SealsOnly db (.dbKey p.dek uuid) uuid payload.dbGeneration p
      (Pool.checkMain db.name (.dbKey p.dek uuid) uuid payload p) := by
  have bound := @SameDb.bindMain _ _ _ uuid (SameDb.refl db.name p) (.dbKey p.dek uuid) none
  unfold Pool.checkMain
  rw [Prog.modify_bind, Prog.get_bind]
  apply Prog.ofExcept_bind_cases
  · intro logical _
    have sized := @SameDb.bindMain _ _ _ uuid bound (.dbKey p.dek uuid) (some logical)
    have satellites := @SameDb.bindSatellites _ _ _ uuid payload sized (.dbKey p.dek uuid)
    rw [Prog.modify_bind, Prog.modify_bind, Prog.get_bind]
    apply Prog.ofExcept_bind_cases
    · exact fun _ _ => adoptDb_seals satellites _ _ _ _ _
    · exact fun _ _ => .inl rfl
  · exact fun _ _ => .inl rfl

/-- The second write of an opening that reads the manifest is the one of the migration. -/
theorem migration_seals (read : s.readManifest (manifestName db.name) = .ok (uuid, payload))
    (second : (Pool.openMainDb freshUuid db.name s).passed[1]? = some q) :
    q.dek = s.dek ∧ q.files[manifestName db.name]? = s.files[manifestName db.name]? ∧
      ∃ root table last, (Pool.openMainDb freshUuid db.name s).crashes[2]? = some last ∧
        last.files = (sealSlot (manifestName db.name) (.dbKey s.dek uuid)
          ⟨payload.dbGeneration, uuid, root, .zero, table⟩ q).files := by
  obtain ⟨mfile, _, present, _, _⟩ := readManifest_file read
  have has : s.hasFilename (manifestName db.name) = true := hasFilename_iff.mpr ⟨mfile, present⟩
  unfold Pool.openMainDb at second ⊢
  rw [Prog.get_bind] at second ⊢
  cases there : s.files[db.name]? with
  | none =>
      simp only [there] at second
      cases second
  | some main =>
      simp only [there, has, if_true, read] at second ⊢
      unfold Pool.openVerified at second ⊢
      rw [Prog.get_bind] at second ⊢
      cases gate : freshnessGate (anchorEntry s.dek s.anchor uuid) payload.dbGeneration with
      | error e =>
          rw [gate, Prog.ofExcept_error_bind] at second
          cases second
      | ok _ =>
          rw [gate, Prog.ofExcept_ok_bind] at second
          rw [Prog.ofExcept_ok_bind]
          unfold Pool.anchorRecord at second ⊢
          cases saved : anchorUpsert uuid (some payload.dbGeneration) (some payload.dbGeneration) none
              (anchorLoad s.dek s.anchor).2 with
          | none =>
              rw [Prog.bind_of_error (anchorRecordFull_none saved)] at second
              cases second
          | some window =>
              have recorded := anchorRecordFull_some saved
              rw [Option.isSome_none, if_neg Bool.false_ne_true] at recorded
              rw [Prog.bind_of_ok recorded] at second ⊢
              rcases @checkMain_seals db (s.savedOnce window) uuid payload with
                none_passed | ⟨r, root, table, passed, dek, manifest, sealed⟩
              · have ran : (Pool.checkMain db.name (.dbKey s.dek uuid) uuid payload
                    (s.savedOnce window)).passed = [] := none_passed
                rw [ran] at second
                cases second
              · have ran : (Pool.checkMain db.name (.dbKey s.dek uuid) uuid payload
                    (s.savedOnce window)).passed = [r] := passed
                rw [ran] at second
                obtain rfl : r = q := Option.some.inj second
                refine ⟨dek, manifest, root, table, _, ?_, sealed⟩
                unfold Outcome.crashes
                dsimp only
                rw [ran]
                rfl

/-- The last write of the new manifest is the one of its first slot. -/
theorem creation_seals {e : OpfsSAHError} (unread : s.readManifest (manifestName db.name) = .error e)
    (written : (Pool.openMainDb freshUuid db.name s).passed[
      if s.hasFilename (manifestName db.name) then 4 else 2]? = some q) :
    (∃ main, s.files[db.name]? = some main ∧ main.data.size = 0) ∧
      (s.dropped (manifestName db.name)).available ≠ [] ∧
      q = headed db freshUuid (s.dropped (manifestName db.name)) ∧
      (Pool.openMainDb freshUuid db.name s).crashes[
        (if s.hasFilename (manifestName db.name) then 4 else 2) + 1]? =
          some (created db freshUuid (s.dropped (manifestName db.name))) := by
  by_cases refused : ∀ main, s.files[db.name]? = some main → main.data.size ≠ 0
  · obtain ⟨e', ran⟩ := @openMainDb_refused db s freshUuid refused e unread
    rw [ran] at written
    cases written
  · push Not at refused
    obtain ⟨main, there, blank⟩ := refused
    have ran := @openMainDb_unread db s freshUuid main there blank e unread
    have lacks := @lacks_dropped s (manifestName db.name)
    have begun : (s.dropStates (manifestName db.name)).length + 2 =
        if s.hasFilename (manifestName db.name) then 4 else 2 := by
      unfold dropStates
      split <;> rfl
    rw [← begun] at written ⊢
    rw [ran] at written ⊢
    unfold Outcome.crashes
    dsimp only at written ⊢
    rw [List.getElem?_append_right (Nat.le_add_right _ _), Nat.add_sub_cancel_left] at written
    rw [List.append_assoc, List.getElem?_append_right (by omega),
      show (s.dropStates (manifestName db.name)).length + 2 + 1 -
        (s.dropStates (manifestName db.name)).length = 3 by omega]
    refine ⟨⟨main, there, blank⟩, ?_⟩
    by_cases room : (s.dropped (manifestName db.name)).available = []
    · obtain ⟨e', full⟩ := @openCreated_full db _ freshUuid lacks room
      rw [full] at written
      cases written
    · cases saved : anchorUpsert freshUuid (some 1) (some 1) none
          (anchorLoad (s.dropped (manifestName db.name)).dek
            (s.dropped (manifestName db.name)).anchor).2 with
      | none =>
          obtain ⟨e', made⟩ := openCreated_refused lacks room saved
          rw [made] at written ⊢
          exact ⟨room, (Option.some.inj written).symm, rfl⟩
      | some table =>
          rw [openCreated_room lacks room saved] at written ⊢
          exact ⟨room, (Option.some.inj written).symm, rfl⟩

theorem readManifest_of_none {file : ManifestFile} (held : q.manifestFile db.name = some file)
    (none_opens : manifestPick q.dek (manifestName db.name) file = none) :
    ∃ e, q.readManifest (manifestName db.name) = .error e := by
  cases read : q.readManifest (manifestName db.name) with
  | error e => exact ⟨e, rfl⟩
  | ok found =>
      obtain ⟨file', held', picked, _⟩ := readManifest_eq_ok.mp read
      obtain rfl := Option.some.inj (held.symm.trans held')
      rw [none_opens] at picked
      cases picked

@[simp] theorem dropped_anchor (name : FileName) : (q.dropped name).anchor = q.anchor := by
  unfold Pool.dropped
  split
  · exact unmapSlot_anchor
  · rfl

@[simp] theorem dropped_dek (name : FileName) : (q.dropped name).dek = q.dek := by
  unfold Pool.dropped
  split
  · exact unmapSlot_dek
  · rfl

theorem getElem?_dropped {name other : FileName} (apart : other ≠ name) :
    (q.dropped name).files[other]? = q.files[other]? := by
  unfold Pool.dropped
  split
  · rw [getElem?_unmapSlot, if_neg apart, getElem?_setData, if_neg apart]
  · rfl

theorem getElem?_headed {other : FileName} (apart : other ≠ manifestName db.name) :
    (headed db uuid q).files[other]? = q.files[other]? := by
  rw [headed, getElem?_setData, if_neg apart]
  cases free : q.available with
  | nil => rw [Pool.mapSlot, free]
  | cons slot rest =>
      rw [mapSlot_of_cons free, Std.ExtTreeMap.getElem?_insert,
        if_neg (by simpa using Ne.symm apart)]

/-- The manifest of a new database. -/
theorem readManifest_created (room : q.available ≠ []) {table : AnchorTable} :
    (adoptCreated db q.dek uuid ((created db uuid q).savedOnce table)).readManifest
      (manifestName db.name) = .ok (uuid, firstPayload db uuid) := by
  have bound := @SameDb.bindMain _ _ _ uuid (SameDb.refl db.name { (created db uuid q).savedOnce table with
    dbs := ((created db uuid q).savedOnce table).dbs.insert db.name (firstState q.dek uuid) })
      (.dbKey q.dek uuid) (some 0)
  have dek : (created db uuid q).dek = q.dek := created_dek
  refine bound.readManifest.trans (readManifest_eq_ok.mpr ⟨_, manifestFile_created room, ?_, rfl⟩)
  apply manifestPick_newest 1
  · refine manifestSlot_write_self.mpr ⟨?_, rfl⟩
    show Aead.Sealed.openWith (Key.dbKey (created db uuid q).dek uuid) _ _ = _
    rw [dek]
    exact Aead.openWith_sealed _ _ _
  · intro found opens
    rw [manifestSlot_write_of_ne (by decide)] at opens
    exact nomatch opens

/-- A creation survives the loss of its slot exactly where the anchor has room for the next one. -/
theorem survives_creation (onDisk : (headed db freshUuid q).OnDisk db) (room : q.available ≠ [])
    {main : SyncAccessFile} (there : q.files[db.name]? = some main) (blank : main.data.size = 0)
    (next : Uuid) : (headed db freshUuid q).Survives db next 1 ↔
      anchorUpsert next (some 1) (some 1) none (anchorLoad q.dek q.anchor).2 ≠ none := by
  have held := @manifestFile_headed db q freshUuid room
  have anchor : (headed db freshUuid q).anchor = q.anchor := mapSlot_anchor
  have dek : (headed db freshUuid q).dek = q.dek := mapSlot_dek
  have unread : ∃ e, (headed db freshUuid q).readManifest (manifestName db.name) = .error e :=
    readManifest_of_none held rfl
  have opened : ∀ bytes, (torn : Torn db (headed db freshUuid q) 1 bytes) →
      ∃ d : Pool, d.available ≠ [] ∧ d.hasFilename (manifestName db.name) = false ∧
        d.dek = q.dek ∧ d.anchor = q.anchor ∧
        ∃ states, Pool.openMainDb next db.name
          ((tornSlot db 1 bytes (headed db freshUuid q)).reopen (headed db freshUuid q).dek) =
            ⟨states ++ (Pool.openCreated next db.name d).passed,
              (Pool.openCreated next db.name d).state, (Pool.openCreated next db.name d).result⟩ := by
    intro bytes torn
    have crashed := manifestFile_crashed onDisk torn held
    have none_opens : manifestPick (headed db freshUuid q).dek (manifestName db.name)
        (ManifestFile.write ⟨freshUuid, []⟩ 1 bytes) = none := by
      refine manifestPick_eq_none.mpr ⟨?_, torn _ held⟩
      rw [manifestSlot_write_of_ne (by decide)]
      rfl
    obtain ⟨e, still⟩ := readManifest_of_none crashed none_opens
    have mapped : ((tornSlot db 1 bytes (headed db freshUuid q)).reopen
        (headed db freshUuid q).dek).hasFilename (manifestName db.name) = true := by
      obtain ⟨mfile, found, _⟩ := manifestFile_eq_some.mp crashed
      exact hasFilename_iff.mpr ⟨mfile, found⟩
    have content := content_crashed onDisk torn db.mem_files
      (Ne.symm (manifestName_ne_self db.name))
    rw [getElem?_headed (Ne.symm (manifestName_ne_self db.name)), there, Wf.reopen.content_eq] at content
    obtain ⟨main', found, same⟩ := Option.map_eq_some_iff.mp content
    refine ⟨_, room_dropped (.inl mapped), lacks_dropped, (dropped_dek _).trans dek,
      (dropped_anchor _).trans anchor, _, openMainDb_unread found (same ▸ blank) still⟩
  obtain ⟨e, unread⟩ := unread
  unfold Survives
  simp only [unread]
  constructor
  · intro survives full
    obtain ⟨opens, _⟩ := survives _ (torn_junk db _ 1)
    obtain ⟨d, free, lacks, dek', anchor', states, ran⟩ := opened _ (torn_junk db _ 1)
    obtain ⟨e', refused⟩ := openCreated_refused lacks free (by rw [dek', anchor']; exact full)
    rw [ran, refused] at opens
    cases opens
  · intro saved bytes torn
    obtain ⟨table, saved⟩ := Option.ne_none_iff_exists'.mp saved
    obtain ⟨d, free, lacks, dek', anchor', states, ran⟩ := opened bytes torn
    rw [← dek', ← anchor'] at saved
    rw [ran, openCreated_room lacks free saved]
    exact ⟨rfl, readManifest_created free⟩

end Opening

end Pool

section Runs

variable {db : DbName} {s t q : Pool} {slot : Nat}

theorem Pool.held_of_shut (shut : s.Shut db) : s.Held db := ⟨shut.2, Pool.openCurrent_of_none shut.1⟩

/-- What one event keeps. -/
theorem step_held {event : VaultEvent} (held : s.Held db) (allowed : event.Allowed db s)
    (taken : event.step db s = some t) : t.Held db := by
  cases event with
  | call event =>
      have met := held.run event.call
      obtain ⟨ended, ran, rfl⟩ := Option.map_eq_some_iff.mp taken
      unfold FileEvent.ends at ran
      cases fails : event.failsAt with
      | none =>
          simp only [fails, Option.some.injEq] at ran
          rw [← ran]
          exact met.ended
      | some i =>
          simp only [fails, Option.map_eq_some_iff] at ran
          obtain ⟨left, passed, rfl⟩ := ran
          exact met.passed (List.mem_of_getElem? passed)
  | addMain =>
      obtain rfl := Option.some.inj taken
      have main := Ne.symm (Pool.manifestName_ne_self db.name)
      have same : Keeps (Pool.SameDb db.name s) (Vfs.xOpenImpl db.name true) := by
        unfold Vfs.xOpenImpl
        apply keeps_get_bind
        intro pool _
        split
        · exact keeps_pure ()
        · exact keeps_asVfs _ (Pool.SameDb.keeps_withNewFile main)
      have kept := (same s (.refl db.name s)).ended
      exact ⟨(Pool.OnDisk.keeps_xOpenImpl db.name true s held.onDisk).ended, kept.openCurrent held.opened⟩
  | openDb freshUuid failsAt =>
      have met := held.openMainDb freshUuid
      cases failsAt with
      | none =>
          obtain rfl := Option.some.inj taken
          exact met.ended
      | some i => exact met.passed (List.mem_of_getElem? taken)
  | elsewhere q =>
      obtain rfl := Option.some.inj taken
      rcases allowed with ⟨dek, known, files, cleared⟩ | shut
      · have manifest := files (manifestName db.name) (by simp [DbName.files])
        have same : Pool.SameDb db.name s q := ⟨dek, known, manifest⟩
        refine ⟨⟨fun other listed file found => ?_, fun file held' => ?_, cleared⟩,
          same.openCurrent held.opened⟩
        · rw [files other listed] at found
          exact held.onDisk.named other listed file found
        · rw [same.manifestFile] at held'
          rw [dek]
          exact held.onDisk.paired file held'
      · exact Pool.held_of_shut shut

theorem reached_held {start : Pool} (shut : start.Shut db)
    (reached : Runs.Reaches (VaultEvent.step db) (VaultEvent.Allowed db) start s) : s.Held db :=
  reached.invariant (Pool.Held db) (Pool.held_of_shut shut) fun _ _ _ => step_held

theorem SealOp.write_eq_some {op : SealOp} : op.write db s = some (q, slot) ↔
    ∃ i, op.place db s = some (i, slot) ∧ (op.passed db s)[i]? = some q := by
  unfold SealOp.write
  simp [Option.bind_eq_some_iff]

/-- The write of an operation is one, and it seals a payload into the slot of its generation. -/
theorem SealOp.write_seals {op : SealOp} (held : s.Held db) (written : op.write db s = some (q, slot)) :
    ∃ i last key payload, (op.passed db s)[i]? = some q ∧ (op.crashes db s)[i + 1]? = some last ∧
      payload.dbGeneration % 2 = slot ∧
      last.files = (Pool.sealSlot (manifestName db.name) key payload q).files := by
  obtain ⟨i, placed, passed⟩ := SealOp.write_eq_some.mp written
  cases op with
  | commit call =>
      unfold SealOp.place at placed
      cases known : s.dbs[db.name]? with
      | none => rw [known] at placed; cases placed
      | some st =>
          simp only [known, Option.ite_none_right_eq_some, Bool.and_eq_true, Option.some.injEq,
            Prod.mk.injEq] at placed
          obtain ⟨⟨finalizing, hot⟩, rfl, rfl⟩ := placed
          obtain ⟨_, image, _, _, _, sealed⟩ :=
            Pool.commit_seals (held.opened st known) finalizing hot passed
          exact ⟨1, _, st.crypto, ⟨st.generation + 1, st.uuid, rootOf image, st.committedRoot,
            q.lengthTable db.name⟩, passed, sealed, rfl, rfl⟩
  | opening freshUuid =>
      unfold SealOp.place at placed
      cases read : s.readManifest (manifestName db.name) with
      | ok found =>
          obtain ⟨uuid, payload⟩ := found
          simp only [read, Option.some.injEq, Prod.mk.injEq] at placed
          obtain ⟨rfl, rfl⟩ := placed
          obtain ⟨_, _, root, table, last, after, sealed⟩ := Pool.migration_seals read passed
          exact ⟨1, last, .dbKey s.dek uuid, ⟨payload.dbGeneration, uuid, root, .zero, table⟩, passed,
            after, rfl, sealed⟩
      | error e =>
          simp only [read, Option.some.injEq, Prod.mk.injEq] at placed
          obtain ⟨rfl, rfl⟩ := placed
          obtain ⟨_, _, rfl, sealed⟩ := Pool.creation_seals read passed
          exact ⟨_, _, .dbKey (s.dropped (manifestName db.name)).dek freshUuid,
            Pool.firstPayload db freshUuid, passed, sealed, rfl, rfl⟩

end Runs

namespace TornSample

def db : DbName := ⟨BarrierSample.db, by decide, by decide⟩

/-- The first page of a database. -/
def page : Block := ⟨(sqliteMagic ++ [0x10, 0x00] ++ List.replicate 4078 0).toArray, by
  rw [List.size_toArray, List.length_append, List.length_append, List.length_replicate]
  rfl⟩

/-- A block of the manifest without a root. -/
def rootless (slot generation length : Nat) : SealedBytes ManifestPayload :=
  .sealed (.dbKey 0 5) (.block (fileIdFor (manifestName db.name)) 5 slot)
    ⟨generation, 5, .zero, .zero, [(fileIdFor db.name, length)]⟩

/-- A database of one page from before the manifest had a root, at generation 2. -/
def legacy : Pool :=
  let main : SyncAccessFile := { Pool.pooled 0 with
    header := some ⟨db.name, db.fits_of_mem db.mem_files⟩
    data := .blocks [.sealed (.dbKey 0 5) (.block (fileIdFor db.name) 5 0) page] 0 }
  let mfile : SyncAccessFile := { Pool.pooled 0 with
    header := some ⟨manifestName db.name, db.fits⟩
    data := .manifest ⟨5, [rootless 0 2 blockSize, rootless 1 1 0]⟩ }
  let files : Std.ExtTreeMap FileName SyncAccessFile :=
    .ofList [(db.name, main), (manifestName db.name, mfile)]
  Pool.reopen ⟨0, files, [], .blank, ∅⟩ 0

/-- A pool that is acquired again holds a database as its code keeps it if the manifest is paired. -/
theorem shut_of_reopened {p : Pool} {dek : Dek}
    (paired : ((p.reopen dek).manifestFile db.name).all (fun file => (List.range 2).all fun slot =>
      (manifestSlot dek (manifestName db.name) file slot).all fun payload =>
        payload.dbGeneration % 2 = slot) = true) : (p.reopen dek).Shut db := by
  refine ⟨Std.ExtTreeMap.getElem?_empty, fun other _ file found => Pool.Wf.reopen.named other file found, ?_,
    fun free listed => (Pool.Wf.reopen.cleared free listed).2⟩
  intro file held slot low payload opens
  rw [held, Option.all_some, List.all_eq_true] at paired
  have checked := paired slot (List.mem_range.mpr low)
  rw [show manifestSlot dek (manifestName db.name) file slot = some payload from opens] at checked
  exact of_decide_eq_true checked

theorem legacy_shut : legacy.Shut db := shut_of_reopened (by decide +kernel)

/-- A vault that was left with a hot journal before the first commit. -/
def left : Pool := BarrierSample.opened.reopen 0

theorem left_shut : left.Shut db := shut_of_reopened (by decide +kernel)

end TornSample

end Freehold
