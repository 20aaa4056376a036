import Freehold.Lib.Runs
import Freehold.OpenSpec
import Freehold.Vfs

set_option autoImplicit false

namespace Freehold

open CrashLogic

/-- What a handle encrypts with: its key, its AAD domain and whether it is a main database's. -/
structure Binding where
  crypto : Key
  keyDomain : Uuid
  isMainDb : Bool
  deriving DecidableEq

namespace Binding

def pool (dek : Dek) : Binding := ⟨.poolKey dek, noDomain, false⟩

def main (dek : Dek) (uuid : Uuid) : Binding := ⟨.dbKey dek uuid, uuid, true⟩

def journal (dek : Dek) (uuid : Uuid) : Binding := ⟨.dbKey dek uuid, uuid, false⟩

end Binding

def SyncAccessFile.binding (file : SyncAccessFile) : Binding :=
  ⟨file.crypto, file.keyDomain, file.isMainDb⟩

/-- The binding a name calls for when SQLite opens it as `kind`; a journal whose database has no
state calls for one that nobody knows. -/
def Pool.calledFor (pool : Pool) (kind : FileKind) (name : FileName) : Option Binding :=
  match kind with
  | .mainDb => (pool.dbs[name]?).map fun st => Binding.main pool.dek st.uuid
  | .journal =>
      match satelliteParent name with
      | some parent => (pool.dbs[parent]?).map fun st => Binding.journal pool.dek st.uuid
      | none => some (Binding.pool pool.dek)
  | .temp => some (Binding.pool pool.dek)

/-- A file SQLite has open. -/
structure Handle where
  name : FileName
  kind : FileKind
  deriving DecidableEq

/-- The pool and the files SQLite has open. -/
structure OpenFiles where
  pool : Pool
  handles : List Handle

namespace OpenFiles

/-- A call of SQLite, or of the pool's owner. -/
inductive Op where
  | xOpen (freshUuid : Uuid) (kind : FileKind) (name : FileName) (create : Bool)
  | xClose (handle : Handle) (deleteOnClose : Bool)
  | xDelete (name : FileName)
  | xWrite (name : FileName) (bytes : List UInt8) (offset : Int)
  | xTruncate (name : FileName) (size : Int)
  | deleteFile (name : FileName)
  | importCiphertextFile (name : FileName) (ciphertext : Region)

/-- What a call leaves, whether it succeeds or not. A file whose opening fails is not open. -/
def step (s : OpenFiles) : Op → Option OpenFiles
  | .xOpen freshUuid kind name create =>
      let ran := Vfs.xOpen freshUuid kind name create s.pool
      match ran.result with
      | .ok () => some ⟨ran.state, ⟨name, kind⟩ :: s.handles⟩
      | .error _ => some ⟨ran.state, s.handles⟩
  | .xClose handle deleteOnClose =>
      some ⟨(Vfs.xClose handle.name deleteOnClose s.pool).state, s.handles.erase handle⟩
  | .xDelete name => some ⟨(Vfs.xDelete name s.pool).state, s.handles⟩
  | .xWrite name bytes offset => some ⟨(Vfs.xWrite name bytes offset s.pool).state, s.handles⟩
  | .xTruncate name size => some ⟨(Vfs.xTruncate name size s.pool).state, s.handles⟩
  | .deleteFile name => some ⟨(Pool.deleteFile name s.pool).state, s.handles⟩
  | .importCiphertextFile name ciphertext =>
      some ⟨(Pool.importCiphertextFile name ciphertext s.pool).state, s.handles⟩

/-- Every mapped file SQLite has open is bound as its name calls for. -/
def Bound (s : OpenFiles) : Prop :=
  ∀ handle ∈ s.handles, ∀ file : SyncAccessFile, s.pool.files[handle.name]? = some file →
    s.pool.calledFor handle.kind handle.name = some file.binding

/-- The slot a name is opened on: the mapped one, or else the next free one. -/
def slotFor (pool : Pool) (name : FileName) (create : Bool) : Option SyncAccessFile :=
  match pool.files[name]? with
  | some file => some file
  | none => if create then pool.available.head? else none

/-- What the slot that a name is opened on has to bring along: for a temporary file and a
super-journal all of the binding, for a journal that it was no main database's. -/
def Usable (pool : Pool) (kind : FileKind) (name : FileName) (slot : SyncAccessFile) : Prop :=
  match kind with
  | .mainDb => True
  | .journal =>
      match satelliteParent name with
      | some parent => pool.dbs[parent]? ≠ none ∧ slot.isMainDb = false
      | none => slot.binding = Binding.pool pool.dek
  | .temp => slot.binding = Binding.pool pool.dek

/-- A name that SQLite has open and that is mapped no more gets a slot with the binding it calls
for. -/
def Remapped (s : OpenFiles) (name : FileName) : Prop :=
  s.pool.files[name]? = none → ∀ handle ∈ s.handles, handle.name = name →
    ∀ slot, s.pool.available.head? = some slot →
      s.pool.calledFor handle.kind handle.name = some slot.binding

/-- No name is opened as two kinds of file, and a database is opened again while it or its journal
is open only with the manifest it was opened with. -/
def Agrees (s : OpenFiles) (kind : FileKind) (name : FileName) : Prop :=
  match kind with
  | .mainDb =>
      (∀ handle ∈ s.handles, handle.name ≠ manifestName name ∧
        (handle.name = name → handle.kind = .mainDb) ∧
        (satelliteParent handle.name = some name → handle.kind = .journal)) ∧
      ((∃ handle ∈ s.handles, handle.name = name ∨ satelliteParent handle.name = some name) →
        ∃ st payload, s.pool.dbs[name]? = some st ∧
          s.pool.readManifest (manifestName name) = .ok (st.uuid, payload))
  | .journal =>
      satelliteParent name ≠ none →
        ∀ handle ∈ s.handles, handle.name = name → handle.kind = .journal
  | .temp => True

/-- What a call may meet. -/
def Clean (s : OpenFiles) : Op → Prop
  | .xOpen _ kind name create =>
      (∀ slot, slotFor s.pool name create = some slot → Usable s.pool kind name slot) ∧
        (create = true → s.Remapped name) ∧ s.Agrees kind name
  | .importCiphertextFile name _ => s.Remapped name
  | _ => True

end OpenFiles

/-- Bounds on a pool: the bindings each mapped file may have, and the identities each database. -/
structure Limits where
  dek : Dek
  file : FileName → Binding → Prop
  db : FileName → Option (Uuid × Key) → Prop

def DbState.identity (st : DbState) : Uuid × Key := (st.uuid, st.crypto)

/-- A pool within the limits. -/
structure Within (limits : Limits) (pool : Pool) : Prop where
  dek : pool.dek = limits.dek
  file : ∀ name (file : SyncAccessFile), pool.files[name]? = some file → limits.file name file.binding
  db : ∀ name : FileName, limits.db name ((pool.dbs[name]?).map DbState.identity)

section Keeps

variable {limits : Limits} {pool : Pool} {name : FileName}

theorem Within.files (within : Within limits pool) {files : Std.ExtTreeMap FileName SyncAccessFile}
    {available : List SyncAccessFile}
    (kept : ∀ name (file : SyncAccessFile), files[name]? = some file → limits.file name file.binding) :
    Within limits { pool with files := files, available := available } :=
  ⟨within.dek, kept, within.db⟩

/-- A change that keeps the bindings of the file. -/
theorem Within.modifyFile (within : Within limits pool) {f : SyncAccessFile → SyncAccessFile}
    (kept : ∀ file, pool.files[name]? = some file → limits.file name file.binding →
      limits.file name (f file).binding) :
    Within limits (pool.modifyFile name f) := by
  refine ⟨within.dek, ?_, within.db⟩
  intro other file found
  simp only [Pool.modifyFile, Std.ExtTreeMap.getElem?_modify, Std.LawfulEqCmp.compare_eq_iff_eq] at found
  split at found
  · next same =>
      obtain ⟨old, held, rfl⟩ := Option.map_eq_some_iff.mp found
      subst same
      exact kept old held (within.file _ old held)
  · exact within.file other file found

theorem Within.anchor (within : Within limits pool) (anchor : AnchorFile) :
    Within limits { pool with anchor := anchor } :=
  ⟨within.dek, within.file, within.db⟩

theorem Within.insertDb (within : Within limits pool) {st : DbState}
    (admitted : limits.db name (some st.identity)) :
    Within limits { pool with dbs := pool.dbs.insert name st } := by
  refine ⟨within.dek, within.file, ?_⟩
  intro other
  simp only [Std.ExtTreeMap.getElem?_insert, Std.LawfulEqCmp.compare_eq_iff_eq]
  split
  · next same => exact same ▸ admitted
  · exact within.db other

theorem Within.unmapSlot (within : Within limits pool) (name : FileName) :
    Within limits (Pool.unmapSlot name pool) := by
  unfold Pool.unmapSlot
  split
  · apply within.files
    intro other file found
    rw [Std.ExtTreeMap.getElem?_erase] at found
    split at found
    · cases found
    · exact within.file other file found
  · exact within

theorem Within.mapSlot (within : Within limits pool) {header : Option HeaderName}
    (fits : ∀ slot, pool.available.head? = some slot → limits.file name slot.binding) :
    Within limits (Pool.mapSlot name header pool) := by
  cases free : pool.available with
  | nil =>
      simp only [Pool.mapSlot, free]
      exact within
  | cons slot rest =>
      rw [Pool.mapSlot_of_cons free]
      apply within.files
      intro other file found
      rw [Std.ExtTreeMap.getElem?_insert] at found
      split at found
      · next same =>
          cases found
          rw [Std.LawfulEqCmp.compare_eq_iff_eq] at same
          exact same ▸ fits slot (by rw [free]; rfl)
      · exact within.file other file found

theorem keeps_asVfs {α : Type} {inv : Pool → Prop} {program : PoolM α} (code : Nat)
    (kept : Keeps inv program) : Keeps inv (asVfs code program) :=
  fun s holds => meets_zoom (kept s holds)

theorem keeps_withFile {α : Type} {inv : Pool → Prop} {body : SyncAccessFile → VfsM α}
    (kept : ∀ file, Keeps inv (body file)) : Keeps inv (Pool.withFile name body) := by
  unfold Pool.withFile
  apply keeps_get_bind
  intro pool holds
  split
  · exact kept _
  · exact keeps_fail _

theorem keeps_anchorRecord (uuid : Uuid) (committed inFlight : Option Nat) :
    Keeps (Within limits) (Pool.anchorRecord uuid committed inFlight) := by
  unfold Pool.anchorRecord Pool.anchorRecordFull
  apply keeps_get_bind
  intro pool _
  dsimp only
  split
  · exact keeps_fail _
  · exact keeps_bind (keeps_effect fun q within => within.anchor _) fun _ => keeps_pure ()

theorem keeps_writeManifestSlot (kdb : Key) (mname : FileName) (payload : ManifestPayload) :
    Keeps (Within limits) (Pool.writeManifestSlot kdb mname payload) :=
  keeps_effect fun _ within => within.modifyFile fun _ _ fits => fits

theorem keeps_setData (name : FileName) (data : Region) :
    Keeps (Within limits) (Prog.effect (Pool.setData name data) : PoolM Unit) :=
  keeps_effect fun _ within => within.modifyFile fun _ _ fits => fits

theorem keeps_deleteFile (name : FileName) : Keeps (Within limits) (Pool.deleteFile name) := by
  unfold Pool.deleteFile
  apply keeps_get_bind
  intro pool _
  split
  · apply keeps_bind (keeps_setData name .empty)
    intro _
    apply keeps_bind (keeps_effect fun q within => within.unmapSlot name)
    intro _
    exact keeps_pure true
  · exact keeps_pure false

/-- A new file, if the slot it gets is within the limits of its name. -/
theorem within_withNewFile {body : PoolM Unit} (within : Within limits pool)
    (fits : ∀ slot, pool.available.head? = some slot → limits.file name slot.binding)
    (kept : Keeps (Within limits) body) :
    ((Pool.withNewFile name body) pool).Meets (Within limits) (fun _ => Within limits)
      fun _ => Within limits := by
  unfold Pool.withNewFile
  apply meets_get_bind
  have mapped : ∀ header, Within limits (Pool.mapSlot name header pool) :=
    fun header => within.mapSlot fits
  split
  · exact meets_fail within
  · split
    · exact meets_fail within
    · split
      · exact meets_modify_bind (meets_fail (mapped none))
      · split
        · exact meets_modify_bind (meets_fail (mapped none))
        · exact meets_effect_bind within (kept _ (mapped _))

/-- A file that is replaced keeps its slot; a new one gets the next free slot. -/
theorem within_importCiphertextFile {ciphertext : Region} (within : Within limits pool)
    (fits : pool.files[name]? = none →
      ∀ slot, pool.available.head? = some slot → limits.file name slot.binding) :
    ((Pool.importCiphertextFile name ciphertext) pool).Meets (Within limits)
      (fun _ => Within limits) fun _ => Within limits := by
  unfold Pool.importCiphertextFile
  apply meets_bind (fun _ q => Within limits q ∧
    ∀ slot, q.available.head? = some slot → limits.file name slot.binding)
  · apply meets_attempt
    unfold Pool.deleteFile
    apply meets_get_bind
    by_cases present : pool.hasFilename name = true
    · rw [if_pos present]
      have emptied : Within limits (Pool.setData name .empty pool) := within.modifyFile fun _ _ fits => fits
      apply meets_effect_bind within
      apply meets_effect_bind emptied
      apply meets_pure
      refine ⟨Within.unmapSlot emptied name, ?_⟩
      obtain ⟨file, found⟩ := Pool.hasFilename_iff.mp present
      have blank : (Pool.setData name .empty pool).files[name]? = some { file with data := .empty } := by
        rw [Pool.getElem?_setData, if_pos rfl, found]
        rfl
      rw [Pool.unmapSlot_of_some blank]
      rintro slot ⟨⟩
      exact within.file name file found
    · rw [if_neg present]
      apply meets_pure
      refine ⟨within, fits ?_⟩
      rw [Option.eq_none_iff_forall_ne_some]
      intro file found
      exact present (Pool.hasFilename_iff.mpr ⟨file, found⟩)
  · rintro _ q ⟨kept, room⟩
    exact within_withNewFile kept room
      (keeps_bind (keeps_setData _ _) fun _ => keeps_setData _ _)

theorem keeps_onMainSynced (name : FileName) : Keeps (Within limits) (Pool.onMainSynced name) := by
  unfold Pool.onMainSynced
  apply keeps_get_bind
  intro pool within
  split
  · exact keeps_pure ()
  · next st found =>
      have admitted : limits.db name (some st.identity) := by
        have known := within.db name
        rwa [found] at known
      apply keeps_bind (keeps_anchorRecord _ _ _)
      intro _
      apply keeps_get_bind
      intro pool _
      apply keeps_bind (keeps_ofExcept _)
      intro merkleRoot
      split
      · apply keeps_bind (keeps_writeManifestSlot _ _ _)
        intro _
        apply keeps_bind (keeps_anchorRecord _ _ _)
        intro _
        exact keeps_modify fun q kept => kept.insertDb admitted
      · exact keeps_fail _

theorem keeps_finalizes (name : FileName) : Keeps (Within limits) (Pool.finalizes name) := by
  unfold Pool.finalizes
  split
  · unfold Pool.journalFinalizeBarrier
    apply keeps_get_bind
    intro pool _
    split
    · split
      · exact keeps_onMainSynced _
      · exact keeps_pure ()
    · split
      · exact keeps_fail _
      · exact keeps_pure ()
    · exact keeps_pure ()
  · exact keeps_pure ()

section Writes

variable {inv : Pool → Prop}

/-- No write into the file takes the invariant away. -/
def KeptByWrites (name : FileName) (inv : Pool → Prop) : Prop :=
  ∀ f : SyncAccessFile → SyncAccessFile,
    (∀ file, (f file).binding = file.binding ∧ (f file).header = file.header) →
      ∀ pool, inv pool → inv (pool.modifyFile name f)

theorem keeps_writeBlocks (kept : KeptByWrites name inv) (offset : Nat) (bytes : List UInt8) :
    Keeps inv (Pool.writeBlocks name offset bytes) := by
  induction offset, bytes using Pool.writeBlocks.induct with
  | case1 offset bytes more lo chunk ih =>
      rw [Pool.writeBlocks, dif_pos more]
      apply keeps_withFile
      intro file
      apply keeps_bind (keeps_ofExcept _)
      intro plain
      refine keeps_bind (keeps_effect (kept _ ?_)) fun _ => ih
      exact fun _ => ⟨rfl, rfl⟩
  | case2 offset bytes done =>
      rw [Pool.writeBlocks, dif_neg done]
      exact keeps_pure ()

theorem keeps_write (kept : KeptByWrites name inv) (bytes : List UInt8) (offset : Nat) :
    Keeps inv (Pool.write name bytes offset) := by
  apply keeps_withFile
  intro file
  split
  · exact keeps_pure ()
  · apply keeps_bind (keeps_ofExcept _)
    intro _
    apply keeps_bind (keeps_writeBlocks kept _ _)
    intro _
    exact keeps_modify (kept _ fun _ => ⟨rfl, rfl⟩)

theorem keeps_resealTail (kept : KeptByWrites name inv) (size : Nat) :
    Keeps inv (Pool.resealTail name size) := by
  apply keeps_withFile
  intro file
  dsimp only
  split
  · exact keeps_pure ()
  · split
    · exact keeps_fail _
    · exact keeps_effect (kept _ fun _ => ⟨rfl, rfl⟩)

theorem keeps_truncate (kept : KeptByWrites name inv) (size : Nat) :
    Keeps inv (Pool.truncate name size) := by
  have cut : Keeps inv (Pool.withFile name fun _ => do
      Prog.effect (Pool.modifyFile name fun file =>
        { file with data := file.data.truncateCells ((size + blockSize - 1) / blockSize) })
      Prog.modify (Pool.modifyFile name fun file => { file with logicalSize := some size })) := by
    apply keeps_withFile
    intro _
    refine keeps_bind (keeps_effect (kept _ ?_)) fun _ => keeps_modify (kept _ fun _ => ⟨rfl, rfl⟩)
    exact fun _ => ⟨rfl, rfl⟩
  unfold Pool.truncate
  split
  · exact keeps_bind (keeps_resealTail kept size) fun _ => cut
  · exact cut

theorem Within.keptByWrites (limits : Limits) (name : FileName) : KeptByWrites name (Within limits) := by
  intro f same pool within
  apply within.modifyFile
  intro file _ fits
  rw [(same file).1]
  exact fits

end Writes

theorem keeps_xDelete (name : FileName) : Keeps (Within limits) (Vfs.xDelete name) := by
  unfold Vfs.xDelete
  apply keeps_bind (keeps_asVfs _ (keeps_finalizes name))
  intro _
  apply keeps_bind (keeps_asVfs _ (keeps_deleteFile name))
  intro _
  exact keeps_pure ()

theorem keeps_xClose (name : FileName) (deleteOnClose : Bool) :
    Keeps (Within limits) (Vfs.xClose name deleteOnClose) := by
  unfold Vfs.xClose
  split
  · exact keeps_xDelete name
  · exact keeps_pure ()

theorem keeps_xWrite (name : FileName) (bytes : List UInt8) (offset : Int) :
    Keeps (Within limits) (Vfs.xWrite name bytes offset) := by
  unfold Vfs.xWrite
  split
  · exact keeps_fail _
  · split
    · exact keeps_bind (keeps_asVfs _ (keeps_finalizes name)) fun _ =>
        keeps_write (.keptByWrites limits name) _ _
    · exact keeps_write (.keptByWrites limits name) _ _

theorem keeps_xTruncate (name : FileName) (size : Int) :
    Keeps (Within limits) (Vfs.xTruncate name size) := by
  unfold Vfs.xTruncate
  split
  · exact keeps_fail _
  · split
    · exact keeps_bind (keeps_asVfs _ (keeps_finalizes name)) fun _ =>
        keeps_truncate (.keptByWrites limits name) _
    · exact keeps_truncate (.keptByWrites limits name) _

theorem keeps_sealRootMigration (name : FileName) :
    Keeps (Within limits) (Pool.sealRootMigration name) := by
  unfold Pool.sealRootMigration
  apply keeps_get_bind
  intro pool within
  split
  · exact keeps_pure ()
  · next st found =>
      have admitted : limits.db name (some st.identity) := by
        have known := within.db name
        rwa [found] at known
      apply keeps_bind (keeps_ofExcept _)
      intro merkleRoot
      split
      · exact keeps_pure ()
      · dsimp only
        split
        · apply keeps_bind (keeps_writeManifestSlot _ _ _)
          intro _
          exact keeps_modify fun q kept => kept.insertDb admitted
        · exact keeps_fail _

end Keeps

namespace Limits

/-- What `open_main_db` may do to the files of a database that gets the identity `uuid`. -/
structure Admits (limits : Limits) (name : FileName) (uuid : Uuid) : Prop where
  main : ∀ b, limits.file name b → limits.file name (.main limits.dek uuid)
  satellite : ∀ other b, satelliteParent other = some name → limits.file other b →
    limits.file other ⟨.dbKey limits.dek uuid, uuid, b.isMainDb⟩
  manifest : ∀ b, limits.file (manifestName name) b
  db : limits.db name (some (uuid, .dbKey limits.dek uuid))

/-- The limits of a pool that has adopted a database. -/
def adopted (limits : Limits) (name : FileName) (uuid : Uuid) : Limits where
  dek := limits.dek
  file other b := limits.file other b ∧ (other = name → b = .main limits.dek uuid)
  db other identity := limits.db other identity ∧
    (other = name → identity = some (uuid, .dbKey limits.dek uuid))

end Limits

section Adopt

variable {limits : Limits} {pool : Pool} {name : FileName} {uuid : Uuid}

theorem Within.of_adopted (within : Within (limits.adopted name uuid) pool) : Within limits pool :=
  ⟨within.dek, fun other file found => (within.file other file found).1, fun other => (within.db other).1⟩

/-- The main file bound: only the state of the database is missing. -/
def MainLimited (limits : Limits) (name : FileName) (uuid : Uuid) : Limits :=
  { limits.adopted name uuid with db := limits.db }

theorem Within.bindMain (within : Within limits pool) (admits : limits.Admits name uuid)
    (logical : Option Nat) :
    Within (MainLimited limits name uuid)
      (Pool.bindMain name (.dbKey limits.dek uuid) uuid logical pool) := by
  refine ⟨within.dek, ?_, within.db⟩
  intro other file found
  simp only [Pool.bindMain, Pool.modifyFile, Std.ExtTreeMap.getElem?_modify,
    Std.LawfulEqCmp.compare_eq_iff_eq] at found
  split at found
  · next same =>
      obtain ⟨old, held, rfl⟩ := Option.map_eq_some_iff.mp found
      subst same
      exact ⟨admits.main _ (within.file _ old held), fun _ => rfl⟩
  · next differ =>
      exact ⟨within.file other file found, fun same => absurd same.symm differ⟩

theorem Within.of_mainLimited (within : Within (MainLimited limits name uuid) pool) :
    Within limits pool :=
  ⟨within.dek, fun other file found => (within.file other file found).1, within.db⟩

theorem Within.bindSatellites (within : Within (MainLimited limits name uuid) pool)
    (admits : limits.Admits name uuid) (payload : ManifestPayload) :
    Within (MainLimited limits name uuid)
      (Pool.bindSatellites name (.dbKey limits.dek uuid) uuid payload pool) := by
  refine ⟨within.dek, ?_, within.db⟩
  intro other file found
  rw [Pool.bindSatellites, Std.ExtTreeMap.getElem?_map] at found
  obtain ⟨old, held, rfl⟩ := Option.map_eq_some_iff.mp found
  obtain ⟨fits, main⟩ := within.file other old held
  by_cases satellite : satelliteParent other = some name
  · rw [if_pos satellite]
    refine ⟨admits.satellite other old.binding satellite fits, ?_⟩
    intro same
    rw [same] at satellite
    exact absurd satellite (Pool.satelliteParent_ne_self name)
  · rw [if_neg satellite]
    exact ⟨fits, main⟩

/-- The main file is bound and the state of the database has its identity. -/
theorem Within.adopt (within : Within (MainLimited limits name uuid) pool)
    (identity : (pool.dbs[name]?).map DbState.identity = some (uuid, .dbKey limits.dek uuid)) :
    Within (limits.adopted name uuid) pool := by
  refine ⟨within.dek, within.file, fun other => ⟨within.db other, ?_⟩⟩
  intro same
  rw [same]
  exact identity

/-- An opening that keeps the limits, and at its end has adopted the database. -/
def Adopting (limits : Limits) (name : FileName) (program : PoolM Unit) (pool : Pool) : Prop :=
  (program pool).Meets (Within limits)
    (fun _ q => ∃ uuid, Within (limits.adopted name uuid) q) fun _ => Within limits

theorem adopting_checkMain (within : Within limits pool) (admits : limits.Admits name uuid)
    (payload : ManifestPayload) :
    Adopting limits name (Pool.checkMain name (.dbKey limits.dek uuid) uuid payload) pool := by
  have bound := within.bindMain admits none
  unfold Adopting Pool.checkMain
  apply meets_modify_bind
  apply meets_get_bind
  apply meets_ofExcept_bind
  · intro logical _
    apply meets_modify_bind
    apply meets_modify_bind
    have satellites := (bound.of_mainLimited.bindMain admits (some logical)).bindSatellites admits payload
    apply meets_get_bind
    apply meets_ofExcept_bind
    · intro _ _
      unfold Pool.adoptDb
      apply meets_modify_bind
      have inserted := satellites.insertDb
        (show limits.db name (some (DbState.identity
          ⟨uuid, .dbKey limits.dek uuid, payload.dbGeneration, payload.merkleRoot⟩)) from admits.db)
      have adopted := inserted.adopt (by rw [Std.ExtTreeMap.getElem?_insert_self]; rfl)
      split
      · exact (keeps_sealRootMigration name _ adopted).mono (fun _ kept => kept.of_adopted)
          (fun _ _ kept => ⟨uuid, kept⟩) fun _ _ kept => kept.of_adopted
      · exact meets_pure ⟨uuid, adopted⟩
    · intro _ _
      exact satellites.of_mainLimited
  · intro _ _
    exact bound.of_mainLimited

theorem adopting_openVerified (within : Within limits pool) (admits : limits.Admits name uuid)
    (payload : ManifestPayload) :
    Adopting limits name (Pool.openVerified name uuid payload) pool := by
  unfold Adopting Pool.openVerified
  apply meets_get_bind
  apply meets_ofExcept_bind
  · intro _ _
    apply meets_bind (fun _ => Within limits) (keeps_anchorRecord _ _ _ _ within)
    intro _ q kept
    rw [within.dek]
    exact adopting_checkMain kept admits payload
  · intro _ _
    exact within

theorem meets_createManifest (within : Within limits pool) (admits : limits.Admits name uuid) :
    ((Pool.createManifest uuid name (manifestName name)) pool).Meets (Within limits)
      (fun st q => st.identity = (uuid, .dbKey limits.dek uuid) ∧ Within limits q ∧
        (q.dbs[name]?).map DbState.identity = some (uuid, .dbKey limits.dek uuid))
      fun _ => Within limits := by
  unfold Pool.createManifest
  apply meets_get_bind
  apply meets_bind (fun _ => Within limits)
  · apply within_withNewFile within fun slot _ => admits.manifest slot.binding
    exact keeps_bind (keeps_setData _ _) fun _ => keeps_writeManifestSlot _ _ _
  · intro _ q kept
    apply meets_bind (fun _ => Within limits) (keeps_anchorRecord _ _ _ _ kept)
    intro _ q kept
    apply meets_modify_bind
    apply meets_pure
    rw [within.dek]
    refine ⟨rfl, kept.insertDb admits.db, ?_⟩
    rw [Std.ExtTreeMap.getElem?_insert_self]
    rfl

theorem adopting_openCreated (within : Within limits pool) (admits : limits.Admits name uuid) :
    Adopting limits name (Pool.openCreated uuid name) pool := by
  unfold Adopting Pool.openCreated
  apply meets_bind _ (meets_createManifest within admits)
  rintro st q ⟨identity, kept, known⟩
  obtain ⟨rfl, crypto⟩ := Prod.mk.inj identity
  rw [show st.crypto = .dbKey limits.dek st.uuid from crypto]
  exact meets_modify ⟨st.uuid, (kept.bindMain admits (some 0)).adopt known⟩

/-- The identity `open_main_db` gives a database: the manifest's, or a new one if it reads none. -/
def Adopted (pool : Pool) (freshUuid : Uuid) (name : FileName) (uuid : Uuid) : Prop :=
  match pool.readManifest (manifestName name) with
  | .ok (found, _) => uuid = found
  | .error _ => uuid = freshUuid

theorem adopting_openMainDb (freshUuid : Uuid) (within : Within limits pool)
    (admits : ∀ uuid, Adopted pool freshUuid name uuid → limits.Admits name uuid) :
    Adopting limits name (Pool.openMainDb freshUuid name) pool := by
  unfold Adopting Pool.openMainDb
  apply meets_get_bind
  cases pool.files[name]? with
  | none => exact meets_fail within
  | some main =>
      by_cases present : pool.hasFilename (manifestName name) = true
      · simp only [present, if_true]
        cases read : pool.readManifest (manifestName name) with
        | ok found =>
            obtain ⟨uuid, payload⟩ := found
            have adopted : Adopted pool freshUuid name uuid := by
              unfold Adopted
              rw [read]
            exact adopting_openVerified within (admits uuid adopted) payload
        | error e =>
            have adopted : Adopted pool freshUuid name freshUuid := by
              unfold Adopted
              rw [read]
            by_cases blank : main.data.size ≠ 0
            · simp only [if_pos blank]
              exact meets_fail within
            · simp only [if_neg blank]
              apply meets_bind (fun _ => Within limits) (keeps_deleteFile _ _ within)
              intro _ q kept
              exact adopting_openCreated kept (admits freshUuid adopted)
      · have adopted : Adopted pool freshUuid name freshUuid := by
          have missing : pool.files[manifestName name]? = none := by
            rw [Option.eq_none_iff_forall_ne_some]
            intro file found
            exact present (Pool.hasFilename_iff.mpr ⟨file, found⟩)
          unfold Adopted Pool.readManifest
          rw [missing]
        simp only [if_neg present]
        by_cases blank : main.data.size ≠ 0
        · simp only [if_pos blank]
          exact meets_fail within
        · simp only [if_neg blank]
          exact adopting_openCreated within (admits freshUuid adopted)

end Adopt

namespace OpenFiles

/-- The key of every database state is derived from its uuid. -/
def Keyed (pool : Pool) : Prop :=
  ∀ (name : FileName) (st : DbState), pool.dbs[name]? = some st → st.crypto = .dbKey pool.dek st.uuid

/-- What the files that are open allow: each keeps the binding its name calls for. `stable` tells
the databases whose identity stays. -/
def limits (s : OpenFiles) (stable : FileName → Prop) : Limits where
  dek := s.pool.dek
  file name b := ∀ handle ∈ s.handles, handle.name = name →
    s.pool.calledFor handle.kind handle.name = some b
  db name identity := (∀ id, identity = some id → id.2 = .dbKey s.pool.dek id.1) ∧
    (stable name → identity = (s.pool.dbs[name]?).map DbState.identity)

section Bound

variable {s : OpenFiles} {q : Pool} {stable : FileName → Prop}

theorem within_limits (stable : FileName → Prop) (bound : s.Bound) (keyed : Keyed s.pool) : Within (s.limits stable) s.pool := by
  refine ⟨rfl, ?_, ?_⟩
  · intro name file found handle member same
    subst same
    exact bound handle member file found
  · intro name
    refine ⟨?_, fun _ => rfl⟩
    intro id known
    obtain ⟨st, found, rfl⟩ := Option.map_eq_some_iff.mp known
    exact keyed name st found

theorem keyed_of_within (within : Within (s.limits stable) q) : Keyed q := by
  intro name st found
  rw [within.dek]
  exact (within.db name).1 st.identity (by rw [found]; rfl)

theorem uuid_of_identity {pool : Pool} {name : FileName} {identity : Option (Uuid × Key)}
    (known : (pool.dbs[name]?).map DbState.identity = identity) :
    (pool.dbs[name]?).map DbState.uuid = identity.map Prod.fst := by
  rw [← known, Option.map_map]
  rfl

/-- What a name calls for depends on the identity of its database only. -/
theorem calledFor_congr {pool : Pool} {kind : FileKind} {name : FileName} (dek : q.dek = pool.dek)
    (main : kind = .mainDb → (q.dbs[name]?).map DbState.uuid = (pool.dbs[name]?).map DbState.uuid)
    (satellite : ∀ parent, satelliteParent name = some parent → kind = .journal →
      (q.dbs[parent]?).map DbState.uuid = (pool.dbs[parent]?).map DbState.uuid) :
    q.calledFor kind name = pool.calledFor kind name := by
  cases kind with
  | mainDb =>
      have same := congrArg (Option.map (Binding.main pool.dek)) (main rfl)
      rw [Option.map_map, Option.map_map] at same
      unfold Pool.calledFor
      rw [dek]
      exact same
  | journal =>
      unfold Pool.calledFor
      rw [dek]
      cases owner : satelliteParent name with
      | none => rfl
      | some parent =>
          have same := congrArg (Option.map (Binding.journal pool.dek)) (satellite parent owner rfl)
          rw [Option.map_map, Option.map_map] at same
          exact same
  | temp => exact congrArg (fun dek => some (Binding.pool dek)) dek

/-- The databases the open files belong to. -/
def Needed (s : OpenFiles) (name : FileName) : Prop :=
  ∃ handle ∈ s.handles, handle.name = name ∨ satelliteParent handle.name = some name

theorem calledFor_of_within (within : Within (s.limits stable) q) (held : ∀ name, s.Needed name → stable name)
    {handle : Handle} (member : handle ∈ s.handles) :
    q.calledFor handle.kind handle.name = s.pool.calledFor handle.kind handle.name := by
  apply calledFor_congr within.dek
  · intro _
    have same := (within.db handle.name).2 (held _ ⟨handle, member, Or.inl rfl⟩)
    exact (uuid_of_identity same).trans (uuid_of_identity rfl).symm
  · intro parent owner _
    have same := (within.db parent).2 (held _ ⟨handle, member, Or.inr owner⟩)
    exact (uuid_of_identity same).trans (uuid_of_identity rfl).symm

/-- The open files are bound right in every pool within their limits. -/
theorem bound_of_within (within : Within (s.limits stable) q) (held : ∀ name, s.Needed name → stable name) :
    Bound ⟨q, s.handles⟩ := by
  intro handle member file found
  show q.calledFor handle.kind handle.name = _
  rw [calledFor_of_within within held member]
  exact within.file handle.name file found handle member rfl

end Bound

section Opening

variable {s : OpenFiles} {q : Pool} {stable : FileName → Prop} {name : FileName} {kind : FileKind}
  {create : Bool}

/-- What `xOpenImpl` leaves. -/
def Created (pool : Pool) (name : FileName) (create : Bool) (q : Pool) : Prop :=
  q = pool ∨ (pool.files[name]? = none ∧ create = true ∧ ∃ header, q = Pool.mapSlot name header pool)

theorem meets_xOpenImpl (pool : Pool) (name : FileName) (create : Bool) :
    ((Vfs.xOpenImpl name create) pool).Meets (fun _ => True) (fun _ => Created pool name create)
      fun _ => Created pool name create := by
  unfold Vfs.xOpenImpl
  apply meets_get_bind
  by_cases present : pool.hasFilename name = true
  · rw [if_pos present]
    exact meets_pure (Or.inl rfl)
  · have missing : pool.files[name]? = none := by
      rw [Option.eq_none_iff_forall_ne_some]
      intro file found
      exact present (Pool.hasFilename_iff.mpr ⟨file, found⟩)
    rw [if_neg present]
    by_cases asked : create = true
    · have mapped : ∀ header, Created pool name create (Pool.mapSlot name header pool) :=
        fun header => Or.inr ⟨missing, asked, header, rfl⟩
      rw [if_pos asked]
      apply meets_zoom
      unfold Pool.withNewFile
      apply meets_get_bind
      split
      · exact meets_fail (Or.inl rfl)
      · split
        · exact meets_fail (Or.inl rfl)
        · split
          · exact meets_modify_bind (meets_fail (mapped none))
          · split
            · exact meets_modify_bind (meets_fail (mapped none))
            · exact meets_effect_bind trivial (meets_pure (mapped _))
    · rw [if_neg asked]
      exact meets_fail (Or.inl rfl)

/-- The limits with the binding of the slot that `name` is opened on. -/
def slotLimits (s : OpenFiles) (stable : FileName → Prop) (name : FileName) (create : Bool) : Limits :=
  { s.limits stable with
    file := fun other b => (s.limits stable).file other b ∧
      (other = name → ∃ slot, slotFor s.pool name create = some slot ∧ b = slot.binding) }

theorem within_created (stable : FileName → Prop) (bound : s.Bound) (keyed : Keyed s.pool)
    (remapped : create = true → s.Remapped name) (created : Created s.pool name create q) :
    Within (s.slotLimits stable name create) q := by
  have before : Within (s.slotLimits stable name create) s.pool := by
    have within := within_limits stable bound keyed
    refine ⟨within.dek, ?_, within.db⟩
    intro other file found
    refine ⟨within.file other file found, ?_⟩
    intro same
    refine ⟨file, ?_, rfl⟩
    rw [slotFor, ← same, found]
  cases created with
  | inl same => rw [same]; exact before
  | inr mapped =>
      obtain ⟨missing, asked, header, rfl⟩ := mapped
      apply before.mapSlot
      intro slot free
      refine ⟨fun handle member same => remapped asked missing handle member same slot free, ?_⟩
      intro _
      refine ⟨slot, ?_, rfl⟩
      simp only [slotFor, missing, asked, if_true]
      exact free

theorem readManifest_created (created : Created s.pool name create q) :
    q.readManifest (manifestName name) = s.pool.readManifest (manifestName name) := by
  cases created with
  | inl same => rw [same]
  | inr mapped =>
      obtain ⟨_, _, header, rfl⟩ := mapped
      cases free : s.pool.available with
      | nil => simp only [Pool.mapSlot, free]
      | cons slot rest =>
          have other : ¬name = manifestName name := (Pool.manifestName_ne_self name).symm
          rw [Pool.mapSlot_of_cons free]
          simp only [Pool.readManifest, Std.ExtTreeMap.getElem?_insert,
            Std.LawfulEqCmp.compare_eq_iff_eq, if_neg other]

theorem within_of_slotLimits (within : Within (s.slotLimits stable name create) q) :
    Within (s.limits stable) q :=
  ⟨within.dek, fun other file found => (within.file other file found).1, within.db⟩

/-- A handle beside those that were open. -/
theorem bound_cons (within : Within (s.limits stable) q) (held : ∀ name, s.Needed name → stable name)
    (called : ∀ file : SyncAccessFile, q.files[name]? = some file →
      q.calledFor kind name = some file.binding) :
    Bound ⟨q, ⟨name, kind⟩ :: s.handles⟩ := by
  intro handle member file found
  rcases List.mem_cons.mp member with new | old
  · subst new
    exact called file found
  · exact bound_of_within within held handle old file found

/-- What `open_main_db` may do, whether the database is open already or not. -/
theorem admits_openMainDb (keyed : Keyed s.pool) (agrees : s.Agrees .mainDb name) {uuid freshUuid : Uuid}
    (created : Created s.pool name create q) (adopted : Adopted q freshUuid name uuid) :
    (s.limits fun other => other = name → s.Needed name).Admits name uuid := by
  obtain ⟨apart, reopened⟩ := agrees
  have known : s.Needed name → ∃ st, s.pool.dbs[name]? = some st ∧ st.uuid = uuid := by
    intro needed
    obtain ⟨st, payload, found, read⟩ := reopened needed
    refine ⟨st, found, ?_⟩
    rw [Adopted, readManifest_created created, read] at adopted
    exact adopted.symm
  refine ⟨?_, ?_, ?_, ?_, ?_⟩
  · intro b fits handle member same
    obtain ⟨st, found, rfl⟩ := known ⟨handle, member, Or.inl same⟩
    rw [(apart handle member).2.1 same, same, Pool.calledFor, found]
    rfl
  · intro other b satellite fits handle member same
    subst same
    obtain ⟨st, found, rfl⟩ := known ⟨handle, member, Or.inr satellite⟩
    have called : s.pool.calledFor handle.kind handle.name = some (Binding.journal s.pool.dek st.uuid) := by
      rw [(apart handle member).2.2 satellite]
      simp only [Pool.calledFor, satellite, found, Option.map_some]
    have flagged := fits handle member rfl
    rw [called, Option.some.injEq] at flagged
    rw [called, ← flagged]
    rfl
  · intro b handle member same
    exact absurd same (apart handle member).1
  · rintro id ⟨⟩
    rfl
  · intro needed
    obtain ⟨st, found, rfl⟩ := known (needed rfl)
    rw [found, Option.map_some, DbState.identity, keyed name st found]
    rfl

/-- A journal gets the binding of its database, a super-journal keeps the one of its slot. -/
theorem meets_bindSatellite
    (usable : ∀ slot, slotFor s.pool name create = some slot → Usable s.pool .journal name slot)
    (agrees : s.Agrees .journal name) (within : Within (s.slotLimits (fun _ => True) name create) q) :
    ((Pool.bindSatellite name) q).Meets (fun _ => True)
      (fun _ q => Within (s.limits fun _ => True) q ∧ ∀ file : SyncAccessFile,
        q.files[name]? = some file → q.calledFor .journal name = some file.binding)
      fun _ => Within (s.limits fun _ => True) := by
  have dek : q.dek = s.pool.dek := within.dek
  have kept : Within (s.limits fun _ => True) q := within_of_slotLimits within
  unfold Pool.bindSatellite
  apply meets_get_bind
  cases owner : satelliteParent name with
  | none =>
      show ((Prog.pure () : PoolM Unit) q).Meets _ _ _
      refine meets_pure ⟨kept, fun file found => ?_⟩
      obtain ⟨slot, free, same⟩ := (within.file name file found).2 rfl
      have pooled := usable slot free
      simp only [Usable, owner] at pooled
      simp only [Pool.calledFor, owner, dek, same, pooled]
  | some parent =>
      dsimp only
      have known : (q.dbs[parent]?).map DbState.identity = (s.pool.dbs[parent]?).map DbState.identity :=
        (within.db parent).2 trivial
      cases loaded : q.dbs[parent]? with
      | none =>
          show ((Prog.pure () : PoolM Unit) q).Meets _ _ _
          refine meets_pure ⟨kept, fun file found => ?_⟩
          obtain ⟨slot, free, _⟩ := (within.file name file found).2 rfl
          have ready := usable slot free
          simp only [Usable, owner] at ready
          rw [loaded, Option.map_none, eq_comm, Option.map_eq_none_iff] at known
          exact absurd known ready.1
      | some st =>
          have crypto : st.crypto = .dbKey s.pool.dek st.uuid :=
            (within.db parent).1 st.identity (by rw [loaded]; rfl)
          have calls : q.calledFor .journal name = some (Binding.journal s.pool.dek st.uuid) := by
            simp only [Pool.calledFor, owner, loaded, dek, Option.map_some]
          dsimp only
          by_cases wal : endsWith name walSuffix = true
          · rw [if_pos wal]
            exact meets_fail kept
          · rw [if_neg wal]
            apply meets_modify
            have rebound : ∀ file : SyncAccessFile, q.files[name]? = some file →
                ({ file with crypto := st.crypto, keyDomain := st.uuid } : SyncAccessFile).binding =
                  Binding.journal s.pool.dek st.uuid := by
              intro file found
              obtain ⟨slot, free, same⟩ := (within.file name file found).2 rfl
              have ready := usable slot free
              simp only [Usable, owner] at ready
              have flag : file.isMainDb = slot.isMainDb := congrArg Binding.isMainDb same
              simp only [SyncAccessFile.binding, Binding.journal, crypto, flag, ready.2]
            constructor
            · apply kept.modifyFile
              intro file found _ handle member same
              have called := calledFor_of_within kept (fun _ _ => trivial) member
              rw [agrees (by rw [owner]; exact Option.some_ne_none _) handle member same, same, calls] at called
              rw [agrees (by rw [owner]; exact Option.some_ne_none _) handle member same, same, ← called,
                rebound file found]
            · intro file found
              rw [Pool.getElem?_modifyFile] at found
              obtain ⟨old, held, rfl⟩ := Option.map_eq_some_iff.mp found
              exact calls.trans (congrArg some (rebound old held).symm)

/-- A main database is bound with the identity of its state, whatever the slot was. -/
theorem meets_open_main (keyed : Keyed s.pool) (agrees : s.Agrees .mainDb name) (freshUuid : Uuid)
    (created : Created s.pool name create q) (within : Within (s.limits fun other => other = name → s.Needed name) q) :
    ((Pool.openMainDb freshUuid name) q).Meets (fun _ => True)
      (fun _ q => Within (s.limits fun other => other = name → s.Needed name) q ∧
        ∀ file : SyncAccessFile, q.files[name]? = some file → q.calledFor .mainDb name = some file.binding)
      fun _ => Within (s.limits fun other => other = name → s.Needed name) := by
  have opened := adopting_openMainDb freshUuid within fun uuid adopted =>
    admits_openMainDb keyed agrees created adopted
  refine opened.mono (fun _ _ => trivial) ?_ fun _ _ kept => kept
  rintro _ q ⟨uuid, adopted⟩
  refine ⟨adopted.of_adopted, fun file found => ?_⟩
  have bound := (adopted.file name file found).2 rfl
  have known := uuid_of_identity ((adopted.db name).2 rfl)
  obtain ⟨st, loaded, rfl⟩ := Option.map_eq_some_iff.mp known
  rw [Pool.calledFor, loaded, bound, adopted.dek]
  rfl

theorem meets_xOpen (bound : s.Bound) (keyed : Keyed s.pool) (freshUuid : Uuid)
    (usable : ∀ slot, slotFor s.pool name create = some slot → Usable s.pool kind name slot)
    (remapped : create = true → s.Remapped name) (agrees : s.Agrees kind name) :
    ((Vfs.xOpen freshUuid kind name create) s.pool).Meets (fun _ => True)
      (fun _ q => Bound ⟨q, ⟨name, kind⟩ :: s.handles⟩ ∧ Keyed q)
      fun _ q => Bound ⟨q, s.handles⟩ ∧ Keyed q := by
  have unopened {stable : FileName → Prop} {q : Pool} (held : ∀ name, s.Needed name → stable name)
      (within : Within (s.limits stable) q) : Bound ⟨q, s.handles⟩ ∧ Keyed q :=
    ⟨bound_of_within within held, keyed_of_within within⟩
  unfold Vfs.xOpen
  apply meets_bind (fun _ => Created s.pool name create)
  · refine (meets_xOpenImpl s.pool name create).mono (fun _ _ => trivial) (fun _ _ kept => kept) ?_
    intro _ q created
    have within := within_of_slotLimits (within_created (fun _ => True) bound keyed remapped created)
    exact unopened (fun _ _ => trivial) within
  · intro _ q created
    cases kind with
    | mainDb =>
        have held : ∀ other, s.Needed other → other = name → s.Needed name := by
          rintro other needed rfl
          exact needed
        have within := within_of_slotLimits (within_created
          (fun other => other = name → s.Needed name) bound keyed remapped created)
        apply meets_zoom
        refine (meets_open_main keyed agrees _ created within).mono (fun _ _ => trivial) ?_ ?_
        · rintro _ q ⟨kept, called⟩
          exact ⟨bound_cons kept held called, keyed_of_within kept⟩
        · intro _ q kept
          exact unopened held kept
    | journal =>
        have within := within_created (fun _ => True) bound keyed remapped created
        apply meets_zoom
        refine (meets_bindSatellite usable agrees within).mono (fun _ _ => trivial) ?_ ?_
        · rintro _ q ⟨kept, called⟩
          exact ⟨bound_cons kept (fun _ _ => trivial) called, keyed_of_within kept⟩
        · intro _ q kept
          exact unopened (fun _ _ => trivial) kept
    | temp =>
        have within := within_created (fun _ => True) bound keyed remapped created
        have kept := within_of_slotLimits within
        apply meets_pure
        refine ⟨bound_cons kept (fun _ _ => trivial) fun file found => ?_, keyed_of_within kept⟩
        obtain ⟨slot, free, same⟩ := (within.file name file found).2 rfl
        have pooled : slot.binding = Binding.pool s.pool.dek := usable slot free
        have dek : q.dek = s.pool.dek := within.dek
        rw [Pool.calledFor, dek, same, pooled]

end Opening

/-- A call that keeps every limit keeps the open files bound. -/
theorem bound_keeps {ε α : Type} {program : Prog Pool ε α} {s : OpenFiles} (bound : s.Bound)
    (keyed : Keyed s.pool) (kept : ∀ limits : Limits, Keeps (Within limits) program) :
    Bound ⟨(program s.pool).state, s.handles⟩ ∧ Keyed (program s.pool).state := by
  have within := (kept _ s.pool (within_limits (fun _ => True) bound keyed)).ended
  exact ⟨bound_of_within within fun _ _ => trivial, keyed_of_within within⟩

/-- What one clean call keeps. -/
theorem step_bound {s t : OpenFiles} {op : Op} (held : s.Bound ∧ Keyed s.pool) (clean : s.Clean op)
    (taken : s.step op = some t) : t.Bound ∧ Keyed t.pool := by
  obtain ⟨bound, keyed⟩ := held
  cases op with
  | xOpen freshUuid kind name create =>
      obtain ⟨usable, remapped, agrees⟩ := clean
      have met := meets_xOpen bound keyed freshUuid usable remapped agrees
      simp only [step] at taken
      split at taken
      · next ended =>
          cases taken
          exact met.ok ended
      · next e ended =>
          cases taken
          exact met.error ended
  | xClose handle deleteOnClose =>
      cases taken
      obtain ⟨kept, keyed⟩ := bound_keeps bound keyed fun _ => keeps_xClose handle.name deleteOnClose
      exact ⟨fun other member => kept other (List.mem_of_mem_erase member), keyed⟩
  | xDelete name =>
      cases taken
      exact bound_keeps bound keyed fun _ => keeps_xDelete name
  | xWrite name bytes offset =>
      cases taken
      exact bound_keeps bound keyed fun _ => keeps_xWrite name bytes offset
  | xTruncate name size =>
      cases taken
      exact bound_keeps bound keyed fun _ => keeps_xTruncate name size
  | deleteFile name =>
      cases taken
      exact bound_keeps bound keyed fun _ => keeps_deleteFile name
  | importCiphertextFile name ciphertext =>
      cases taken
      have within := within_limits (fun _ => True) bound keyed
      have kept := (@within_importCiphertextFile _ _ _ ciphertext within fun missing slot free handle member same =>
        clean missing handle member same slot free).ended
      exact ⟨bound_of_within kept fun _ _ => trivial, keyed_of_within kept⟩

end OpenFiles

/-- Slots that are used again. From a directory that has just been acquired, every run of openings,
closings, writes, deletions and imports leaves each open file with the binding its name calls for, if
every slot a journal or a temporary file is opened on brings the rest of its binding along. -/
theorem slots_bound (dek : Dek) (directory : Pool) (s : OpenFiles)
    (reached : Runs.Reaches OpenFiles.step OpenFiles.Clean ⟨directory.reopen dek, []⟩ s) : s.Bound := by
  have start : OpenFiles.Bound ⟨directory.reopen dek, []⟩ ∧ OpenFiles.Keyed (directory.reopen dek) := by
    refine ⟨fun handle none => (nomatch none), ?_⟩
    intro name st found
    have blank : (directory.reopen dek).dbs[name]? = none := Std.ExtTreeMap.getElem?_empty
    rw [blank] at found
    cases found
  have kept := reached.invariant (fun s => s.Bound ∧ OpenFiles.Keyed s.pool) start
    fun _ _ _ held clean taken => OpenFiles.step_bound held clean taken
  exact kept.1

namespace OpenFiles

/-- A directory of six free slots. -/
def sampleDirectory : Pool := ⟨0, ∅, List.replicate 6 (Pool.pooled 0), .blank, ∅⟩

def sampleDb : FileName := ['a', '.', 'd', 'b']

def sampleSuper : FileName := sampleDb ++ ['-', 'm', 'j', '0', '1']

/-- A database is opened, its journal comes and goes, and a super-journal is opened. -/
def sampleReuse : List Op :=
  [.xOpen 5 .mainDb sampleDb true,
    .xOpen 0 .journal (journalName sampleDb) true,
    .xClose ⟨journalName sampleDb, .journal⟩ false,
    .xDelete (journalName sampleDb),
    .xOpen 0 .journal sampleSuper true]

end OpenFiles

/-- The super-journal is written under the key of the journal that had its slot. -/
theorem superJournal_keeps_key :
    ∃ s, Runs.Reaches OpenFiles.step (fun _ _ => True)
        ⟨OpenFiles.sampleDirectory.reopen 0, []⟩ s ∧
      (s.pool.files[OpenFiles.sampleSuper]?).map SyncAccessFile.binding = some (Binding.journal 0 5) ∧
      ¬s.Bound := by
  obtain ⟨s, ran, opened, held⟩ := @Runs.exists_run _ _ OpenFiles.step
    ⟨OpenFiles.sampleDirectory.reopen 0, []⟩ OpenFiles.sampleReuse
    (fun s => ⟨OpenFiles.sampleSuper, .journal⟩ ∈ s.handles ∧ s.pool.dek = 0 ∧
      (s.pool.files[OpenFiles.sampleSuper]?).map SyncAccessFile.binding = some (Binding.journal 0 5))
    _ (by decide +kernel)
  refine ⟨s, Runs.reaches_of_run ran, held.2, ?_⟩
  intro bound
  obtain ⟨file, found, same⟩ := Option.map_eq_some_iff.mp held.2
  have called := bound _ opened file found
  have owner : satelliteParent OpenFiles.sampleSuper = none := by decide
  simp only [Pool.calledFor, owner, held.1, same, Option.some.injEq] at called
  exact absurd called (by decide)

/-- The database and its journal on fresh slots. -/
theorem slots_bound_sample :
    ∃ s, Runs.run OpenFiles.step ⟨OpenFiles.sampleDirectory.reopen 0, []⟩
        (OpenFiles.sampleReuse.take 2) = some s ∧ s.handles.length = 2 ∧ s.Bound := by
  obtain ⟨s, ran, opened⟩ := @Runs.exists_run _ _ OpenFiles.step
    ⟨OpenFiles.sampleDirectory.reopen 0, []⟩ (OpenFiles.sampleReuse.take 1)
    (fun s => s.handles = [⟨OpenFiles.sampleDb, .mainDb⟩] ∧
      (s.pool.dbs[OpenFiles.sampleDb]?).isSome ∧
      ((OpenFiles.slotFor s.pool (journalName OpenFiles.sampleDb) true).map SyncAccessFile.isMainDb) =
        some false) _ (by decide +kernel)
  obtain ⟨t, ran', both⟩ := @Runs.exists_run _ _ OpenFiles.step
    ⟨OpenFiles.sampleDirectory.reopen 0, []⟩ (OpenFiles.sampleReuse.take 2)
    (fun s => s.handles.length = 2) _ (by decide +kernel)
  refine ⟨t, ran', both, ?_⟩
  have first : OpenFiles.Clean ⟨OpenFiles.sampleDirectory.reopen 0, []⟩
      (.xOpen 5 .mainDb OpenFiles.sampleDb true) :=
    ⟨fun _ _ => trivial, fun _ _ _ none => (nomatch none),
      fun _ none => (nomatch none), fun ⟨_, member, _⟩ => (nomatch member)⟩
  have second : s.Clean (.xOpen 0 .journal (journalName OpenFiles.sampleDb) true) := by
    have owner : satelliteParent (journalName OpenFiles.sampleDb) = some OpenFiles.sampleDb := by decide
    have apart : ∀ handle ∈ s.handles, handle.name ≠ journalName OpenFiles.sampleDb := by
      rw [opened.1]
      decide
    refine ⟨?_, fun _ _ handle member same => absurd same (apart handle member),
      fun _ handle member same => absurd same (apart handle member)⟩
    intro slot free
    have flag := opened.2.2
    rw [free, Option.map_some, Option.some.injEq] at flag
    simp only [OpenFiles.Usable, owner]
    exact ⟨Option.isSome_iff_ne_none.mp opened.2.1, flag⟩
  have taken : OpenFiles.step ⟨OpenFiles.sampleDirectory.reopen 0, []⟩
      (.xOpen 5 .mainDb OpenFiles.sampleDb true) = some s := by
    obtain ⟨next, taken, ended⟩ := Option.bind_eq_some_iff.mp ran
    rw [taken, ← Option.some.inj ended]
  have taken' : s.step (.xOpen 0 .journal (journalName OpenFiles.sampleDb) true) = some t := by
    obtain ⟨next, taken'', rest⟩ := Option.bind_eq_some_iff.mp ran'
    obtain rfl := Option.some.inj (taken''.symm.trans taken)
    obtain ⟨last, ended, nothing⟩ := Option.bind_eq_some_iff.mp rest
    rw [ended, ← Option.some.inj nothing]
  exact slots_bound 0 OpenFiles.sampleDirectory t (.next (.next .start first taken) second taken')

end Freehold
