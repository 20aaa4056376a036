import Freehold.Bundle
import Freehold.SlotBindings

set_option autoImplicit false

/- The generations and roots that are sealed over the runs of SQLite's calls on one database. -/
namespace Freehold

open CrashLogic

/-- A call of SQLite on the main file of a database or on its journal. -/
inductive FileCall where
  | openJournal (create : Bool)
  | writeJournal (bytes : List UInt8) (offset : Int)
  | truncateJournal (size : Int)
  | syncJournal
  | deleteJournal
  | writeMain (bytes : List UInt8) (offset : Int)
  | truncateMain (size : Int)
  | syncMain

namespace FileCall

variable (name : FileName)

def run : FileCall → VfsM Unit
  | openJournal create => Vfs.xOpen noDomain .journal (journalName name) create
  | writeJournal bytes offset => Vfs.xWrite (journalName name) bytes offset
  | truncateJournal size => Vfs.xTruncate (journalName name) size
  | syncJournal => Vfs.xSync (journalName name)
  | deleteJournal => Vfs.xDelete (journalName name)
  | writeMain bytes offset => Vfs.xWrite name bytes offset
  | truncateMain size => Vfs.xTruncate name size
  | syncMain => Vfs.xSync name

/-- Whether the call finalizes the journal: zeroes its header, cuts it to nothing or deletes it. -/
def finalizes : FileCall → Bool
  | writeJournal bytes offset =>
      offset = 0 && decide (8 ≤ bytes.length) && !journalMagic.isPrefixOf bytes
  | truncateJournal size => size = 0
  | deleteJournal => true
  | _ => false

/-- What a call that finalizes the journal does to it once the barrier is through. -/
def physical : FileCall → VfsM Unit
  | writeJournal bytes offset => Pool.write (journalName name) bytes offset.toNat
  | truncateJournal size => Pool.truncate (journalName name) size.toNat
  | deleteJournal => do
      let _ ← asVfs sqliteIoerrDelete (Pool.deleteFile (journalName name))
      return ()
  | _ => Prog.pure ()

def barrier : VfsM Unit := asVfs sqliteIoerr (Pool.journalFinalizeBarrier (journalName name) name)

end FileCall

namespace Pool

/-- Whether the journal of an open database is hot. -/
def hot (pool : Pool) (name : FileName) : Bool :=
  match pool.dbs[name]? with
  | some st => pool.hotJournal name st.crypto st.uuid
  | none => false

/-- The image of a main file, if its blocks can be read. -/
def mainImage (pool : Pool) (name : FileName) : Option (List Block) :=
  (pool.files[name]?).bind fun file => file.readImage.toOption

/-- The manifest file of a database, once it has a header. -/
def manifestFile (pool : Pool) (name : FileName) : Option ManifestFile :=
  match pool.files[manifestName name]? with
  | some mfile =>
      match mfile.data with
      | .manifest file => some file
      | _ => none
  | none => none

end Pool

/-- A manifest file with other bytes in one slot. -/
def ManifestFile.write (file : ManifestFile) (slot : Nat) (bytes : SealedBytes ManifestPayload) :
    ManifestFile :=
  ⟨file.uuid, (file.slots ++ List.replicate (slot + 1 - file.slots.length) (Aead.Sealed.junk 0)).set
    slot bytes⟩

section Manifest

variable {dek : Dek} {mname : FileName} {file : ManifestFile} {slot other : Nat}
  {bytes : SealedBytes ManifestPayload} {payload : ManifestPayload}

theorem writeSlot_manifest (file : ManifestFile) (slot : Nat) (bytes : SealedBytes ManifestPayload) :
    (Region.manifest file).writeSlot slot bytes = .manifest (file.write slot bytes) := rfl

theorem getElem?_write_self : (file.write slot bytes).slots[slot]? = some bytes := by
  apply List.getElem?_set_self
  rw [List.length_append, List.length_replicate]
  omega

/-- What a slot that is written opens as. -/
theorem manifestSlot_write_self : manifestSlot dek mname (file.write slot bytes) slot = some payload ↔
    bytes.openWith (.dbKey dek file.uuid) (.block (fileIdFor mname) file.uuid slot) = some payload ∧
      payload.dbUuid = file.uuid := by
  have same_uuid : (file.write slot bytes).uuid = file.uuid := rfl
  unfold manifestSlot
  rw [getElem?_write_self, same_uuid]
  dsimp only
  cases bytes.openWith (.dbKey dek file.uuid) (.block (fileIdFor mname) file.uuid slot) with
  | none => simp
  | some sealed =>
      simp only [Option.ite_none_right_eq_some, Option.some.injEq]
      constructor
      · rintro ⟨named, rfl⟩
        exact ⟨rfl, named⟩
      · rintro ⟨rfl, named⟩
        exact ⟨named, rfl⟩

/-- A slot that is not written opens as before; blank bytes open as nothing. -/
theorem manifestSlot_write_of_ne (apart : other ≠ slot) :
    manifestSlot dek mname (file.write slot bytes) other = manifestSlot dek mname file other := by
  have same : (file.write slot bytes).slots[other]? =
      (file.slots ++ List.replicate (slot + 1 - file.slots.length) (Aead.Sealed.junk 0))[other]? :=
    List.getElem?_set_ne (Ne.symm apart)
  unfold manifestSlot
  rw [same]
  by_cases inside : other < file.slots.length
  · rw [List.getElem?_append_left inside]
    rfl
  · rw [List.getElem?_append_right (Nat.le_of_not_lt inside), List.getElem?_replicate,
      List.getElem?_eq_none (Nat.le_of_not_lt inside)]
    split
    · rfl
    · next blank =>
        obtain ⟨_, zeros⟩ := Option.ite_none_right_eq_some.mp blank
        cases zeros
        rfl

/-- The newest slot is picked. -/
theorem manifestPick_newest (generation : Nat)
    (held : manifestSlot dek mname file (generation % 2) = some payload)
    (older : ∀ q, manifestSlot dek mname file ((generation + 1) % 2) = some q →
      q.dbGeneration < payload.dbGeneration) : manifestPick dek mname file = some payload := by
  unfold manifestPick
  rcases Nat.mod_two_eq_zero_or_one generation with even | odd
  · have next : (generation + 1) % 2 = 1 := by omega
    rw [even] at held
    rw [next] at older
    rw [held]
    cases later : manifestSlot dek mname file 1 with
    | none => rfl
    | some q =>
        have below := older q later
        exact if_neg (by omega)
  · have next : (generation + 1) % 2 = 0 := by omega
    rw [odd] at held
    rw [next] at older
    rw [held]
    cases earlier : manifestSlot dek mname file 0 with
    | none => rfl
    | some q => exact if_pos (older q earlier)

end Manifest

/-- The manifest a database was opened with or last committed stands in the slot of its generation,
and the other slot holds nothing newer than the next one. -/
structure Stands (dek : Dek) (mname : FileName) (st : DbState) (file : ManifestFile) : Prop where
  uuid : file.uuid = st.uuid
  current : ∃ payload, manifestSlot dek mname file (st.generation % 2) = some payload ∧
    payload.dbGeneration = st.generation ∧ payload.merkleRoot = st.committedRoot
  other : ∀ payload, manifestSlot dek mname file ((st.generation + 1) % 2) = some payload →
    payload.dbGeneration ≤ st.generation + 1

namespace Pool

/-- The database is open in the state its manifest tells. -/
structure Current (pool : Pool) (name : FileName) (st : DbState) : Prop where
  db : pool.dbs[name]? = some st
  key : st.crypto = .dbKey pool.dek st.uuid
  manifest : ∃ file, pool.manifestFile name = some file ∧ Stands pool.dek (manifestName name) st file

/-- What a call leaves of a database it has no business with. -/
structure SameDb (name : FileName) (p q : Pool) : Prop where
  dek : q.dek = p.dek
  db : q.dbs[name]? = p.dbs[name]?
  manifest : q.files[manifestName name]? = p.files[manifestName name]?

end Pool

/-- The state a database is in after it has committed an image. -/
def DbState.commit (st : DbState) (image : List Block) : DbState :=
  { st with generation := st.generation + 1, committedRoot := rootOf image }

/-- The next manifest is sealed over the root of an image, and adopted. -/
structure Pool.Committed (pool : Pool) (name : FileName) (st : DbState) (image : List Block)
    (table : List (FileId × Nat)) : Prop where
  current : pool.Current name (st.commit image)
  manifest : pool.readManifest (manifestName name) = .ok (st.uuid,
    ⟨st.generation + 1, st.uuid, rootOf image, st.committedRoot, table⟩)

section Names

variable {name other : FileName}

@[simp] theorem stripSuffix_append (name suffix : FileName) :
    stripSuffix (name ++ suffix) suffix = some name := by
  rw [stripSuffix, if_pos (endsWith_append name suffix), List.length_append, Nat.add_sub_cancel,
    List.take_left]

theorem journalName_ne_manifestName (name other : FileName) : journalName name ≠ manifestName other := by
  intro same
  have ends := endsWith_append other manifestSuffix
  have journal := endsWith_append name journalSuffix
  rw [show other ++ manifestSuffix = journalName name from same.symm] at ends
  rw [show name ++ journalSuffix = journalName name from rfl,
    not_endsWith_of_endsWith ends (by decide)] at journal
  exact Bool.noConfusion journal

theorem ne_of_stripSuffix {parent : FileName} (stripped : stripSuffix name journalSuffix = some parent) :
    parent ≠ name := by
  rintro rfl
  exact Pool.satelliteParent_ne_self parent (by rw [satelliteParent, stripped, Option.some_or])

end Names

namespace Pool.SameDb

variable {name other : FileName} {p q : Pool}

theorem refl (name : FileName) (p : Pool) : SameDb name p p := ⟨rfl, rfl, rfl⟩

theorem withFiles (same : SameDb name p q) {files : Std.ExtTreeMap FileName SyncAccessFile}
    (available : List SyncAccessFile)
    (kept : files[manifestName name]? = q.files[manifestName name]?) :
    SameDb name p { q with files := files, available := available } :=
  ⟨same.dek, same.db, kept.trans same.manifest⟩

theorem modifyFile (same : SameDb name p q) (apart : other ≠ manifestName name)
    (f : SyncAccessFile → SyncAccessFile) : SameDb name p (q.modifyFile other f) := by
  apply same.withFiles
  rw [Std.ExtTreeMap.getElem?_modify, if_neg (by simpa using apart)]

theorem unmapSlot (same : SameDb name p q) (apart : other ≠ manifestName name) :
    SameDb name p (Pool.unmapSlot other q) := by
  cases found : q.files[other]? with
  | none =>
      rw [Pool.unmapSlot, found]
      exact same
  | some file =>
      rw [unmapSlot_of_some found]
      apply same.withFiles
      rw [Std.ExtTreeMap.getElem?_erase, if_neg (by simpa using apart)]

theorem mapSlot (same : SameDb name p q) (apart : other ≠ manifestName name)
    (header : Option HeaderName) : SameDb name p (Pool.mapSlot other header q) := by
  cases free : q.available with
  | nil =>
      rw [Pool.mapSlot, free]
      exact same
  | cons slot rest =>
      rw [mapSlot_of_cons free]
      apply same.withFiles
      rw [Std.ExtTreeMap.getElem?_insert, if_neg (by simpa using apart)]

theorem keptByWrites (apart : other ≠ manifestName name) : KeptByWrites other (SameDb name p) :=
  fun f _ _ same => same.modifyFile apart f

theorem keeps_deleteFile (apart : other ≠ manifestName name) :
    Keeps (SameDb name p) (Pool.deleteFile other) := by
  unfold Pool.deleteFile
  apply keeps_get_bind
  intro pool _
  split
  · apply keeps_bind (keeps_effect fun q same => same.modifyFile apart _)
    intro _
    apply keeps_bind (keeps_effect fun q same => same.unmapSlot apart)
    intro _
    exact keeps_pure true
  · exact keeps_pure false

theorem keeps_withNewFile (apart : other ≠ manifestName name) :
    Keeps (SameDb name p) (Pool.withNewFile other (Prog.pure ())) := by
  unfold Pool.withNewFile
  apply keeps_get_bind
  intro pool _
  have mapped : ∀ header q, SameDb name p q → SameDb name p (Pool.mapSlot other header q) :=
    fun header q same => same.mapSlot apart header
  split
  · exact keeps_fail _
  · split
    · exact keeps_fail _
    · split
      · exact keeps_bind (keeps_modify (mapped none)) fun _ => keeps_fail _
      · split
        · exact keeps_bind (keeps_modify (mapped none)) fun _ => keeps_fail _
        · exact keeps_bind (keeps_effect (mapped _)) fun _ => keeps_pure ()

theorem keeps_anchorRecord (uuid : Uuid) (committed inFlight : Option Nat) :
    Keeps (SameDb name p) (Pool.anchorRecord uuid committed inFlight) := by
  unfold Pool.anchorRecord Pool.anchorRecordFull
  apply keeps_get_bind
  intro pool _
  dsimp only
  split
  · exact keeps_fail _
  · apply keeps_bind (keeps_effect fun q same => ?_) fun _ => keeps_pure ()
    exact ⟨same.dek, same.db, same.manifest⟩

/-- The commit of one database leaves the others as they are. -/
theorem keeps_onMainSynced (apart : other ≠ name) :
    Keeps (SameDb name p) (Pool.onMainSynced other) := by
  have names : manifestName other ≠ manifestName name := fun same => apart (manifestName_injective same)
  unfold Pool.onMainSynced
  apply keeps_get_bind
  intro pool _
  split
  · exact keeps_pure ()
  · apply keeps_bind (keeps_anchorRecord _ _ _)
    intro _
    apply keeps_get_bind
    intro pool _
    apply keeps_bind (keeps_ofExcept _)
    intro merkleRoot
    split
    · apply keeps_bind (keeps_effect fun q same => same.modifyFile names _)
      intro _
      apply keeps_bind (keeps_anchorRecord _ _ _)
      intro _
      refine keeps_modify fun q same => ⟨same.dek, ?_, same.manifest⟩
      rw [Std.ExtTreeMap.getElem?_insert, if_neg (by simpa using apart)]
      exact same.db
    · exact keeps_fail _

theorem keeps_finalizes (owned : ∀ parent, stripSuffix other journalSuffix = some parent → parent ≠ name) :
    Keeps (SameDb name p) (Pool.finalizes other) := by
  unfold Pool.finalizes
  split
  · next parent stripped =>
      unfold Pool.journalFinalizeBarrier
      apply keeps_get_bind
      intro pool _
      split
      · split
        · exact keeps_onMainSynced (owned parent stripped)
        · exact keeps_pure ()
      · split
        · exact keeps_fail _
        · exact keeps_pure ()
      · exact keeps_pure ()
  · exact keeps_pure ()

theorem keeps_bindSatellite (apart : other ≠ manifestName name) :
    Keeps (SameDb name p) (Pool.bindSatellite other) := by
  unfold Pool.bindSatellite
  apply keeps_get_bind
  intro pool _
  split
  · exact keeps_pure ()
  · split
    · exact keeps_pure ()
    · split
      · exact keeps_fail _
      · exact keeps_modify fun q same => same.modifyFile apart _

end Pool.SameDb

namespace FileCall

variable {name : FileName}

/-- A call that finalizes the journal runs the barrier first. -/
theorem run_of_finalizes {call : FileCall} (finalizing : call.finalizes = true) :
    call.run name = (barrier name >>= fun _ => call.physical name) := by
  have parent : Pool.finalizes (journalName name) =
      Pool.journalFinalizeBarrier (journalName name) name := by
    rw [Pool.finalizes, journalName, stripSuffix_append]
  cases call with
  | writeJournal bytes offset =>
      simp only [finalizes, Bool.and_eq_true, decide_eq_true_eq] at finalizing
      obtain ⟨⟨rfl, long⟩, unmarked⟩ := finalizing
      show Vfs.xWrite (journalName name) bytes 0 = _
      rw [Vfs.xWrite, if_neg (by omega), if_pos ⟨rfl, long, unmarked⟩, parent]
      rfl
  | truncateJournal size =>
      obtain rfl := of_decide_eq_true finalizing
      show Vfs.xTruncate (journalName name) 0 = _
      rw [Vfs.xTruncate, if_neg (by omega), if_pos rfl, parent]
      rfl
  | deleteJournal =>
      show Vfs.xDelete (journalName name) = _
      rw [Vfs.xDelete, parent]
      rfl
  | openJournal => cases finalizing
  | syncJournal => cases finalizing
  | writeMain => cases finalizing
  | truncateMain => cases finalizing
  | syncMain => cases finalizing

/-- The physical end of a journal is no business of the manifest's. -/
theorem keeps_physical {p : Pool} (call : FileCall) :
    Keeps (Pool.SameDb name p) (call.physical name) := by
  have apart := journalName_ne_manifestName name name
  cases call with
  | writeJournal bytes offset => exact keeps_write (.keptByWrites apart) bytes offset.toNat
  | truncateJournal size => exact keeps_truncate (.keptByWrites apart) size.toNat
  | deleteJournal =>
      exact keeps_bind (keeps_asVfs _ (Pool.SameDb.keeps_deleteFile apart)) fun _ => keeps_pure ()
  | openJournal => exact keeps_pure ()
  | syncJournal => exact keeps_pure ()
  | writeMain => exact keeps_pure ()
  | truncateMain => exact keeps_pure ()
  | syncMain => exact keeps_pure ()

theorem keeps_sync {p : Pool} (other : FileName) : Keeps (Pool.SameDb name p) (Vfs.xSync other) :=
  keeps_withFile fun _ => keeps_pure ()

/-- Only a call that finalizes the journal may commit. -/
theorem keeps_run {p : Pool} {call : FileCall} (other : call.finalizes = false) :
    Keeps (Pool.SameDb name p) (call.run name) := by
  have apart := journalName_ne_manifestName name name
  have main := Ne.symm (Pool.manifestName_ne_self name)
  have finalizes : Keeps (Pool.SameDb name p) (Pool.finalizes name) :=
    Pool.SameDb.keeps_finalizes fun parent stripped => ne_of_stripSuffix stripped
  cases call with
  | openJournal create =>
      apply keeps_bind
      · unfold Vfs.xOpenImpl
        apply keeps_get_bind
        intro pool _
        split
        · exact keeps_pure ()
        · split
          · exact keeps_asVfs _ (Pool.SameDb.keeps_withNewFile apart)
          · exact keeps_fail _
      · exact fun _ => keeps_asVfs _ (Pool.SameDb.keeps_bindSatellite apart)
  | writeJournal bytes offset =>
      show Keeps _ (Vfs.xWrite (journalName name) bytes offset)
      unfold Vfs.xWrite
      split
      · exact keeps_fail _
      · rw [if_neg]
        · exact keeps_write (.keptByWrites apart) _ _
        · rintro ⟨start, long, unmarked⟩
          simp only [FileCall.finalizes, start, long, unmarked, decide_true, Bool.and_self] at other
          cases other
  | truncateJournal size =>
      show Keeps _ (Vfs.xTruncate (journalName name) size)
      unfold Vfs.xTruncate
      split
      · exact keeps_fail _
      · rw [if_neg (of_decide_eq_false other)]
        exact keeps_truncate (.keptByWrites apart) _
  | syncJournal => exact keeps_sync (journalName name)
  | deleteJournal => cases other
  | writeMain bytes offset =>
      show Keeps _ (Vfs.xWrite name bytes offset)
      unfold Vfs.xWrite
      split
      · exact keeps_fail _
      · split
        · exact keeps_bind (keeps_asVfs _ finalizes) fun _ => keeps_write (.keptByWrites main) _ _
        · exact keeps_write (.keptByWrites main) _ _
  | truncateMain size =>
      show Keeps _ (Vfs.xTruncate name size)
      unfold Vfs.xTruncate
      split
      · exact keeps_fail _
      · split
        · exact keeps_bind (keeps_asVfs _ finalizes) fun _ => keeps_truncate (.keptByWrites main) _
        · exact keeps_truncate (.keptByWrites main) _
  | syncMain => exact keeps_sync name

end FileCall

namespace Pool

variable {name : FileName} {p q : Pool} {st : DbState}

theorem SameDb.manifestFile (same : SameDb name p q) : q.manifestFile name = p.manifestFile name := by
  rw [Pool.manifestFile, same.manifest, Pool.manifestFile]

theorem SameDb.readManifest (same : SameDb name p q) :
    q.readManifest (manifestName name) = p.readManifest (manifestName name) := by
  rw [Pool.readManifest, same.manifest, same.dek, Pool.readManifest]

theorem SameDb.current (same : SameDb name p q) (current : p.Current name st) : q.Current name st :=
  ⟨same.db.trans current.db, by rw [same.dek]; exact current.key, by
    rw [same.manifestFile, same.dek]
    exact current.manifest⟩

theorem SameDb.committed {image : List Block} {table : List (FileId × Nat)} (same : SameDb name p q)
    (committed : p.Committed name st image table) : q.Committed name st image table :=
  ⟨same.current committed.current, same.readManifest.trans committed.manifest⟩

theorem fullStateRoot_ok {root : Root} : p.fullStateRoot name = .ok root ↔
    ∃ image, p.mainImage name = some image ∧ rootOf image = root := by
  unfold fullStateRoot mainImage
  cases p.files[name]? with
  | none => simp
  | some file =>
      simp only [except_bind_ok, Option.bind_some, toOption_eq_some]
      apply exists_congr
      intro image
      apply and_congr_right
      intro _
      exact ⟨fun same => Except.ok.inj same, fun same => congrArg Except.ok same⟩

theorem readManifest_of_pick {file : ManifestFile} {payload : ManifestPayload}
    (held : p.manifestFile name = some file)
    (picked : manifestPick p.dek (manifestName name) file = some payload) :
    p.readManifest (manifestName name) = .ok (file.uuid, payload) := by
  unfold manifestFile at held
  unfold readManifest
  cases found : p.files[manifestName name]? with
  | none => rw [found] at held; cases held
  | some mfile =>
      rw [found] at held
      dsimp only at held
      cases shape : mfile.data with
      | manifest other =>
          rw [shape] at held
          cases held
          simp only [shape, picked]
      | blocks cells tail => rw [shape] at held; cases held
      | intent sealed => rw [shape] at held; cases held

/-- A write into a slot of the manifest. -/
theorem manifestFile_writeSlot {file : ManifestFile} (held : p.manifestFile name = some file) (slot : Nat)
    (bytes : SealedBytes ManifestPayload) :
    (p.modifyFile (manifestName name) fun mfile =>
      { mfile with data := mfile.data.writeSlot slot bytes }).manifestFile name =
        some (file.write slot bytes) := by
  unfold manifestFile at held ⊢
  rw [getElem?_modifyFile]
  cases found : p.files[manifestName name]? with
  | none => rw [found] at held; cases held
  | some mfile =>
      rw [found] at held
      dsimp only at held
      cases shape : mfile.data with
      | manifest other =>
          rw [shape] at held
          cases held
          simp only [Option.map_some, shape, writeSlot_manifest]
      | blocks cells tail => rw [shape] at held; cases held
      | intent sealed => rw [shape] at held; cases held

/-- What a record of the anchor leaves alone. -/
structure AnchorOnly (p q : Pool) : Prop where
  dek : q.dek = p.dek
  dbs : q.dbs = p.dbs
  files : q.files = p.files

theorem keeps_anchorOnly (uuid : Uuid) (committed inFlight : Option Nat) :
    Keeps (AnchorOnly p) (Pool.anchorRecord uuid committed inFlight) := by
  unfold Pool.anchorRecord Pool.anchorRecordFull
  apply keeps_get_bind
  intro pool _
  dsimp only
  split
  · exact keeps_fail _
  · apply keeps_bind (keeps_effect fun q same => ?_) fun _ => keeps_pure ()
    exact ⟨same.dek, same.dbs, same.files⟩

theorem AnchorOnly.sameDb (same : AnchorOnly p q) : SameDb name p q :=
  ⟨same.dek, by rw [same.dbs], by rw [same.files]⟩

/-- The slot of the next generation may be written: the current manifest is in the other one. -/
theorem Current.writeSlot (current : p.Current name st) {bytes : SealedBytes ManifestPayload}
    (bounded : ∀ payload, bytes.openWith (.dbKey p.dek st.uuid)
      (.block (fileIdFor (manifestName name)) st.uuid ((st.generation + 1) % 2)) = some payload →
        payload.dbGeneration ≤ st.generation + 1) :
    (p.modifyFile (manifestName name) fun mfile =>
      { mfile with data := mfile.data.writeSlot ((st.generation + 1) % 2) bytes }).Current name st := by
  obtain ⟨file, held, stands⟩ := current.manifest
  refine ⟨current.db, current.key, _, manifestFile_writeSlot held _ _, stands.uuid, ?_, ?_⟩
  · obtain ⟨payload, found, facts⟩ := stands.current
    refine ⟨payload, ?_, facts⟩
    rw [← found]
    exact manifestSlot_write_of_ne (by omega)
  · intro payload found
    obtain ⟨opened, _⟩ := manifestSlot_write_self.mp found
    rw [stands.uuid] at opened
    exact bounded payload opened

/-- The next manifest in its slot. -/
def sealNext (name : FileName) (st : DbState) (image : List Block) (pool : Pool) : Pool :=
  pool.modifyFile (manifestName name) fun mfile =>
    { mfile with
      data := mfile.data.writeSlot ((st.generation + 1) % 2)
        (.sealed st.crypto (.block (fileIdFor (manifestName name)) st.uuid ((st.generation + 1) % 2))
          ⟨st.generation + 1, st.uuid, rootOf image, st.committedRoot, pool.lengthTable name⟩) }

theorem Current.sealNext (current : p.Current name st) (image : List Block) :
    (p.sealNext name st image).Current name st := by
  apply current.writeSlot
  intro payload opened
  rw [← current.key, Aead.openWith_sealed, Option.some.injEq] at opened
  exact opened ▸ Nat.le_refl _

/-- Once its slot is written, the next manifest is the one that is read. -/
theorem Current.committed (current : p.Current name st) (image : List Block)
    (same : AnchorOnly (p.sealNext name st image) q) :
    ({ q with dbs := q.dbs.insert name (st.commit image) } : Pool).Committed name st image
      (p.lengthTable name) := by
  obtain ⟨file, held, stands⟩ := current.manifest
  let next := (st.generation + 1) % 2
  let payload : ManifestPayload :=
    ⟨st.generation + 1, st.uuid, rootOf image, st.committedRoot, p.lengthTable name⟩
  let written := file.write next
    (.sealed st.crypto (.block (fileIdFor (manifestName name)) st.uuid next) payload)
  have dek : q.dek = p.dek := same.dek
  have there : q.manifestFile name = some written :=
    (SameDb.manifestFile same.sameDb).trans (manifestFile_writeSlot held _ _)
  have sealed : manifestSlot q.dek (manifestName name) written next = some payload := by
    apply manifestSlot_write_self.mpr
    rw [stands.uuid, dek, ← current.key]
    exact ⟨Aead.openWith_sealed _ _ _, rfl⟩
  have earlier : ∀ found, manifestSlot q.dek (manifestName name) written ((st.generation + 1 + 1) % 2) =
      some found → found.dbGeneration = st.generation := by
    intro found opened
    obtain ⟨old, standing, generation, _⟩ := stands.current
    rw [manifestSlot_write_of_ne (by omega), dek,
      show (st.generation + 1 + 1) % 2 = st.generation % 2 by omega, standing] at opened
    exact Option.some.inj opened ▸ generation
  have picked : manifestPick q.dek (manifestName name) written = some payload := by
    apply manifestPick_newest (st.generation + 1) sealed
    intro found opened
    rw [earlier found opened]
    exact Nat.lt_succ_self _
  refine ⟨⟨Std.ExtTreeMap.getElem?_insert_self, ?_, written, there, stands.uuid, ?_, ?_⟩, ?_⟩
  · show st.crypto = .dbKey q.dek st.uuid
    rw [dek]
    exact current.key
  · exact ⟨payload, sealed, rfl, rfl⟩
  · intro found opened
    rw [earlier found opened]
    exact Nat.le_add_right _ 2
  · have read := @readManifest_of_pick name { q with dbs := q.dbs.insert name (st.commit image) } _ _
      there picked
    rw [show written.uuid = st.uuid from stands.uuid] at read
    exact read

/-- The barrier seals the next generation over the current root, or leaves the database as it is. -/
theorem meets_onMainSynced (current : p.Current name st) :
    (Pool.onMainSynced name p).Meets (fun q => q.Current name st)
      (fun _ q => ∃ image table, p.mainImage name = some image ∧ q.Committed name st image table)
      (fun _ q => q.Current name st) := by
  have kept : ∀ q, AnchorOnly p q → q.Current name st := fun q same => same.sameDb.current current
  have first := keeps_anchorOnly st.uuid none (some (st.generation + 1)) p ⟨rfl, rfl, rfl⟩
  unfold Pool.onMainSynced
  apply meets_get_bind
  simp only [current.db]
  apply meets_bind (fun _ q => AnchorOnly p q) (first.mono kept (fun _ _ same => same) fun _ => kept)
  intro _ q same
  apply meets_get_bind
  have root : q.fullStateRoot name = p.fullStateRoot name := by
    rw [fullStateRoot, same.files, fullStateRoot]
  have before := kept q same
  rw [root]
  apply meets_ofExcept_bind
  · intro merkleRoot rooted
    obtain ⟨image, read, rfl⟩ := fullStateRoot_ok.mp rooted
    split
    · apply meets_bind (fun _ r => r = q.sealNext name st image)
      · exact ⟨fun r passed => List.mem_singleton.mp passed ▸ before, rfl⟩
      rintro _ r rfl
      have after := before.sealNext image
      have kept' : ∀ r, AnchorOnly (q.sealNext name st image) r → r.Current name st :=
        fun r later => later.sameDb.current after
      have second := keeps_anchorOnly st.uuid (some (st.generation + 1)) (some (st.generation + 1))
        (q.sealNext name st image) ⟨rfl, rfl, rfl⟩
      apply meets_bind (fun _ r => AnchorOnly (q.sealNext name st image) r)
        (second.mono kept' (fun _ _ later => later) fun _ => kept')
      intro _ r later
      exact meets_modify ⟨image, _, read, before.committed image later⟩
    · exact meets_fail before
  · intro _ _
    exact before

end Pool

/-- A call, and the write at which it fails if one of them does. -/
structure FileEvent where
  call : FileCall
  failsAt : Option Nat

/-- A journal that has been finalized: the main image when the call was made, and the state and the
manifest of the database after it. -/
structure FinalizedJournal where
  main : Option (List Block)
  db : Option DbState
  manifest : Except OpfsSAHError (Uuid × ManifestPayload)
  deriving DecidableEq

/-- The pool and the hot journals that were finalized since the database was opened. -/
structure JournalSession where
  pool : Pool
  journals : List FinalizedJournal

/-- What a call leaves, and whether it succeeds. -/
def FileEvent.ends (name : FileName) (event : FileEvent) (pool : Pool) : Option (Pool × Bool) :=
  let ran := event.call.run name pool
  match event.failsAt with
  | none => some (ran.state, ran.result.isOk)
  | some i => (ran.passed[i]?).map fun left => (left, false)

namespace JournalSession

def step (name : FileName) (s : JournalSession) (event : FileEvent) : Option JournalSession :=
  (event.ends name s.pool).map fun ended =>
    { pool := ended.1
      journals :=
        if ended.2 && event.call.finalizes && s.pool.hot name then
          s.journals ++ [⟨s.pool.mainImage name, ended.1.dbs[name]?,
            ended.1.readManifest (manifestName name)⟩]
        else s.journals }

/-- A call that finalizes a hot journal does not fail once its barrier is through. -/
def Finishes (name : FileName) (s : JournalSession) (event : FileEvent) : Prop :=
  event.call.finalizes = true → s.pool.hot name = true →
    let barrier := FileCall.barrier name s.pool
    barrier.result = .ok () →
      match event.failsAt with
      | some i => i < barrier.passed.length
      | none => (event.call.physical name barrier.state).result = .ok ()

end JournalSession

/-- Journal after journal, the generation rises by one and the manifest is sealed over the root of
the main image, with the root that was sealed before. -/
inductive SealedInTurn (start : DbState) : List FinalizedJournal → DbState → Prop
  | nil : SealedInTurn start [] start
  | snoc {journals : List FinalizedJournal} {st : DbState} (earlier : SealedInTurn start journals st)
      (image : List Block) (table : List (FileId × Nat)) :
      SealedInTurn start (journals ++ [⟨some image, some (st.commit image), .ok (st.uuid,
        ⟨st.generation + 1, st.uuid, rootOf image, st.committedRoot, table⟩)⟩]) (st.commit image)

theorem SealedInTurn.last {start st : DbState} {journals : List FinalizedJournal} {journal : FinalizedJournal}
    (sealed : SealedInTurn start (journals ++ [journal]) st) : journal.db = some st := by
  generalize same : journals ++ [journal] = all at sealed
  cases sealed with
  | nil => exact absurd same (List.append_ne_nil_of_right_ne_nil _ (List.cons_ne_nil _ _))
  | snoc earlier image table =>
      obtain ⟨_, alike⟩ := List.append_inj' same rfl
      rw [List.singleton_inj.mp alike]

theorem SealedInTurn.generation {start st : DbState} {journals : List FinalizedJournal}
    (sealed : SealedInTurn start journals st) : st.generation = start.generation + journals.length := by
  induction sealed with
  | nil => rfl
  | snoc earlier image table ih =>
      rw [List.length_append, List.length_singleton, ← Nat.add_assoc, ← ih]
      rfl

section Runs

variable {name : FileName} {p : Pool} {st : DbState} {s t : JournalSession} {event : FileEvent}

/-- Nothing is sealed for a journal that is not hot. -/
theorem barrier_cold (current : p.Current name st) (cold : p.hot name = false) :
    FileCall.barrier name p = ⟨[], p, .ok ()⟩ := by
  have ran : Pool.journalFinalizeBarrier (journalName name) name p = ⟨[], p, .ok ()⟩ := by
    unfold Pool.journalFinalizeBarrier
    rw [Prog.get_bind]
    unfold Pool.hot Pool.hotJournal at cold
    simp only [current.db] at cold ⊢
    cases found : p.files[journalName name]? with
    | none => rfl
    | some journal =>
        rw [found] at cold
        dsimp only at cold ⊢
        rw [cold]
        rfl
  unfold FileCall.barrier asVfs Prog.zoom
  rw [id, ran]
  rfl

theorem meets_barrier (current : p.Current name st) (hot : p.hot name = true) :
    (FileCall.barrier name p).Meets (fun q => q.Current name st)
      (fun _ q => ∃ image table, p.mainImage name = some image ∧ q.Committed name st image table)
      (fun _ q => q.Current name st) := by
  unfold FileCall.barrier asVfs
  apply meets_zoom
  unfold Pool.journalFinalizeBarrier
  apply meets_get_bind
  unfold Pool.hot Pool.hotJournal at hot
  simp only [id, current.db] at hot ⊢
  cases found : p.files[journalName name]? with
  | none => rw [found] at hot; cases hot
  | some journal =>
      rw [found] at hot
      dsimp only at hot ⊢
      rw [if_pos hot]
      exact Pool.meets_onMainSynced current

/-- A call that is no finalization of a hot journal leaves the manifest and the state alone. -/
theorem ends_current (current : p.Current name st)
    (idle : (event.call.finalizes && p.hot name) = false) {ended : Pool × Bool}
    (taken : event.ends name p = some ended) : ended.1.Current name st := by
  have met : (event.call.run name p).Meets (Pool.SameDb name p) (fun _ => Pool.SameDb name p)
      fun _ => Pool.SameDb name p := by
    cases finalizing : event.call.finalizes with
    | false => exact FileCall.keeps_run finalizing p (.refl name p)
    | true =>
        rw [finalizing, Bool.true_and] at idle
        rw [FileCall.run_of_finalizes finalizing, Prog.bind_of_ok (barrier_cold current idle)]
        exact FileCall.keeps_physical event.call p (.refl name p)
  have same : Pool.SameDb name p ended.1 := by
    unfold FileEvent.ends at taken
    cases fails : event.failsAt with
    | none =>
        simp only [fails, Option.some.injEq] at taken
        rw [← taken]
        exact met.ended
    | some i =>
        simp only [fails, Option.map_eq_some_iff] at taken
        obtain ⟨left, passed, rfl⟩ := taken
        exact met.passed (List.mem_of_getElem? passed)
  exact same.current current

/-- A call that finalizes a hot journal commits, or fails with the database as it was. -/
theorem ends_committed (current : s.pool.Current name st) (finalizing : event.call.finalizes = true)
    (hot : s.pool.hot name = true) (finishes : s.Finishes name event) {ended : Pool × Bool}
    (taken : event.ends name s.pool = some ended) :
    (ended.2 = false ∧ ended.1.Current name st) ∨ (ended.2 = true ∧ ∃ image table,
      s.pool.mainImage name = some image ∧ ended.1.Committed name st image table) := by
  have met := meets_barrier current hot
  have finished := finishes finalizing hot
  unfold FileEvent.ends at taken
  rw [FileCall.run_of_finalizes finalizing] at taken
  rcases ran : FileCall.barrier name s.pool with ⟨passed, q, result⟩
  rw [ran] at met finished
  cases result with
  | error e =>
      rw [Prog.bind_of_error ran] at taken
      cases fails : event.failsAt with
      | none =>
          simp only [fails, Option.some.injEq] at taken
          rw [← taken]
          exact .inl ⟨rfl, met.2⟩
      | some i =>
          simp only [fails, Option.map_eq_some_iff] at taken
          obtain ⟨left, there, rfl⟩ := taken
          exact .inl ⟨rfl, met.1 left (List.mem_of_getElem? there)⟩
  | ok done =>
      obtain ⟨image, table, read, committed⟩ := met.2
      have whole := finished rfl
      rw [Prog.bind_of_ok ran] at taken
      cases fails : event.failsAt with
      | none =>
          simp only [fails, Option.some.injEq] at taken whole
          rw [← taken]
          have kept := FileCall.keeps_physical event.call q (.refl name q)
          refine .inr ⟨by rw [whole]; rfl, image, table, read, ?_⟩
          exact kept.ended.committed committed
      | some i =>
          simp only [fails, Option.map_eq_some_iff] at taken whole
          obtain ⟨left, there, rfl⟩ := taken
          rw [List.getElem?_append_left whole] at there
          exact .inl ⟨rfl, met.1 left (List.mem_of_getElem? there)⟩

theorem step_sealedInTurn {start : DbState} (current : s.pool.Current name st)
    (sealed : SealedInTurn start s.journals st) (finishes : s.Finishes name event)
    (taken : s.step name event = some t) :
    ∃ now, t.pool.Current name now ∧ SealedInTurn start t.journals now := by
  obtain ⟨ended, left, rfl⟩ := Option.map_eq_some_iff.mp taken
  dsimp only
  cases idle : event.call.finalizes && s.pool.hot name with
  | false =>
      rw [Bool.and_assoc, idle, Bool.and_false]
      exact ⟨st, ends_current current idle left, sealed⟩
  | true =>
      rw [Bool.and_assoc, idle, Bool.and_true]
      rw [Bool.and_eq_true] at idle
      rcases ends_committed current idle.1 idle.2 finishes left with ⟨failed, kept⟩ | ⟨done, commit⟩
      · rw [failed]
        exact ⟨st, kept, sealed⟩
      · obtain ⟨image, table, read, committed⟩ := commit
        rw [done, read, committed.current.db, committed.manifest]
        exact ⟨st.commit image, committed.current, sealed.snoc image table⟩

end Runs

namespace BarrierSample

def db : FileName := ['a', '.', 'd', 'b']

/-- A journal header with nothing but its magic. -/
def header : Block := ⟨(journalMagic ++ List.replicate 4088 0).toArray, by
  rw [List.size_toArray, List.length_append, List.length_replicate]
  rfl⟩

/-- A new database that is open, with a hot journal. -/
def opened : Pool :=
  let begun : VfsM Unit := do
    Vfs.xOpen 5 .mainDb db true
    Vfs.xOpen noDomain .journal (journalName db) true
  (begun (OpenFiles.sampleDirectory.reopen 0)).state.modifyFile (journalName db) fun file =>
    { file with data := .blocks [file.sealCell 0 header] ⟨0, physBlock_pos⟩, logicalSize := some blockSize }

def state : DbState := ⟨5, .dbKey 0 5, 1, .zero⟩

def first : ManifestPayload := ⟨1, 5, .zero, .zero, [(fileIdFor db, 0)]⟩

def manifest : ManifestFile :=
  ⟨5, [.junk 0, .sealed (.dbKey 0 5) (.block (fileIdFor (manifestName db)) 5 1) first]⟩

theorem opened_current : opened.Current db state := by
  refine ⟨by decide +kernel, by decide +kernel, manifest, by decide +kernel, rfl,
    ⟨first, by decide +kernel, rfl, rfl⟩, ?_⟩
  intro payload opens
  have blank : manifestSlot opened.dek (manifestName db) manifest 0 = none := by decide +kernel
  exact absurd (opens.symm.trans blank) (Option.some_ne_none _)

/-- The barrier of a deletion seals, the deletion fails, and SQLite deletes the journal again. -/
def retried : List FileEvent := [⟨.deleteJournal, some 3⟩, ⟨.deleteJournal, none⟩]

end BarrierSample

end Freehold
