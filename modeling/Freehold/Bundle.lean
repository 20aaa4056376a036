import Freehold.RotationMeaning
import Freehold.Vault

set_option autoImplicit false

namespace Freehold

open CrashLogic

/-- The characters of a database name. -/
def isNameChar (c : Char) : Bool :=
  ('a' ≤ c && c ≤ 'z') || ('0' ≤ c && c ≤ '9') || c = '_' || c = '-'

/-- `valid_pool_filename`: the name of a database, or of the manifest of one. -/
def validPoolFilename (name : FileName) : Bool :=
  let core := (stripSuffix name manifestSuffix).getD name
  match stripSuffix core dbSuffix with
  | none => false
  | some base => !base.isEmpty && decide (byteLen base ≤ 32) && base.all isNameChar

namespace Pool

/-- `export_bundle`: the ciphertext of the main file and the manifest, as far as they exist. -/
def exportBundle (pool : Pool) (dbName : FileName) : Except OpfsSAHError BundleFiles :=
  [dbName, manifestName dbName].filterMapM fun name =>
    if pool.hasFilename name then do
      let bytes ← pool.exportRaw name
      return some (name, bytes)
    else
      return none

/-- `list()` without all but the databases, sorted; the keys of the map are in this order. -/
def dbNames (pool : Pool) : List FileName :=
  pool.files.keys.filter fun name => endsWith name dbSuffix

/-- The files of every database, one database after the other. -/
def exportAll (pool : Pool) : Except String BundleFiles := do
  let bundles ← pool.dbNames.mapM fun name =>
    (pool.exportBundle name).mapError fun e =>
      let shown := String.ofList name
      let reason := e.debug
      s!"export {shown}: {reason}"
  return bundles.flatten

/-- `import_files`: nothing is written unless every name is a legal one. -/
def importFiles (files : BundleFiles) : PoolM Unit :=
  match files.find? fun file => !validPoolFilename file.1 with
  | some file =>
      let shown := (String.ofList file.1).quote
      Prog.fail (.generic s!"bundle: illegal file name {shown}")
  | none => Prog.forEach (fun file => importCiphertextFile file.1 file.2) files

end Pool

namespace Vault

/-- `session_image`: the databases of the live session. -/
def sessionImage (vault : Vault) : Except String BundleFiles :=
  if vault.unlocked then
    match vault.pool.exportAll with
    | .error e => .error e
    | .ok [] => .error "nothing to sync — create a database first"
    | .ok files => .ok files
  else .error "no active session — call session_open first"

/-- `session_sync_seal`. -/
def syncSeal (vault : Vault) (dbUuid : Uuid) (vv : VersionVector) :
    Except String (SealedBytes (SyncBlob BundleFiles)) := do
  let image ← vault.sessionImage
  return SyncBlob.sealBlob vault.pool.dek ⟨dbUuid, vv, image⟩

/-- `session_sync_open`. -/
def syncOpen (vault : Vault) (sealed : SealedBytes (SyncBlob BundleFiles)) :
    Except String (SyncBlob BundleFiles) :=
  if vault.unlocked then
    match SyncBlob.openBlob vault.pool.dek sealed with
    | some blob => .ok blob
    | none => .error "sync blob: AEAD open failed (wrong key or tampered)"
  else .error "no active session — call session_open first"

/-- `session_sync_apply`: the connections are closed before the files are replaced. -/
def syncApply (image : BundleFiles) : VaultM Unit := do
  let vault ← Prog.get
  if vault.unlocked then
    Prog.modify fun vault => vault.withPool { vault.pool with dbs := ∅ }
    onPool "import_files" (Pool.importFiles image)
  else Prog.fail "no active session — call session_open first"

end Vault

section Names

variable {name suffix base : FileName}

theorem stripSuffix_eq_some (stripped : stripSuffix name suffix = some base) : name = base ++ suffix := by
  unfold stripSuffix at stripped
  split_ifs at stripped with ends
  obtain rfl := Option.some.inj stripped
  rw [endsWith, List.isSuffixOf_iff_suffix] at ends
  obtain ⟨front, rfl⟩ := ends
  simp

/-- A legal name is that of a database or of its manifest. -/
theorem validPoolFilename_cases (valid : validPoolFilename name = true) :
    endsWith name dbSuffix = true ∨ ∃ db, endsWith db dbSuffix = true ∧ name = manifestName db := by
  unfold validPoolFilename at valid
  cases based : stripSuffix ((stripSuffix name manifestSuffix).getD name) dbSuffix with
  | none => simp only [based, Bool.false_eq_true] at valid
  | some base =>
      have core := stripSuffix_eq_some based
      cases stripped : stripSuffix name manifestSuffix with
      | none =>
          rw [stripped, Option.getD_none] at core
          left
          rw [core]
          exact endsWith_append base dbSuffix
      | some db =>
          rw [stripped, Option.getD_some] at core
          right
          refine ⟨db, ?_, stripSuffix_eq_some stripped⟩
          rw [core]
          exact endsWith_append base dbSuffix

theorem isStaging_of_valid (valid : validPoolFilename name = true) : isStaging name = false := by
  rcases validPoolFilename_cases valid with isDb | ⟨db, _, rfl⟩
  · exact isStaging_of_db isDb
  · exact isStaging_manifestName

end Names

namespace Pool

variable {dek : Dek} {st : Stored} {pool : Pool} {files : BundleFiles}

/-- What importing these files makes of a directory: each file is one of them or was
there before, and the staging files and the anchor are as they were. -/
structure Imported (files : BundleFiles) (st st' : Stored) : Prop where
  anchor : st'.anchor = st.anchor
  staging : ∀ name, isStaging name = true → st'.disk name = st.disk name
  files : ∀ name data, st'.disk name = some data → st.disk name = some data ∨ (name, data) ∈ files

theorem Imported.put {st' : Stored} {name : FileName} {data : Region} (imported : Imported files st st')
    (live : isStaging name = false) (member : (name, data) ∈ files) :
    Imported files st (st'.put name (some data)) := by
  refine ⟨imported.anchor, ?_, ?_⟩
  · intro other staging
    rw [Stored.put_disk_of_ne]
    · exact imported.staging other staging
    · rintro rfl
      rw [live] at staging
      cases staging
  · intro other held present
    by_cases same : other = name
    · subst same
      rw [Stored.put_disk_self, Option.some.injEq] at present
      exact Or.inr (present ▸ member)
    · rw [Stored.put_disk_of_ne same] at present
      exact imported.files other held present

theorem meets_importFiles (live : pool.Live dek st) :
    ((importFiles files) pool).Meets (fun _ => True)
      (fun _ q => ∃ st', q.Live dek st' ∧ Imported files st st') fun _ _ => True := by
  unfold importFiles
  cases illegal : files.find? fun file => !validPoolFilename file.1 with
  | some file => exact meets_fail trivial
  | none =>
      have valid : ∀ file ∈ files, validPoolFilename file.1 = true := by
        simpa using illegal
      let inv (rest : BundleFiles) (q : Pool) : Prop :=
        rest ⊆ files ∧ ∃ st', q.Live dek st' ∧ Imported files st st'
      have looped : ((Prog.forEach (fun file => importCiphertextFile file.1 file.2) files) pool).Meets
          (fun _ => True) (fun _ => inv []) fun _ _ => True := by
        apply meets_forEach inv
        · rintro file rest q ⟨sub, st', live', imported⟩
          have member := sub List.mem_cons_self
          let any : Stored → Prop := fun _ => True
          have written : ((importCiphertextFile file.1 file.2) q).Meets (fun r => any r.stored)
              (fun _ r => r.Live dek (st'.put file.1 (some file.2))) fun _ _ => True :=
            meets_importCiphertextFile live' trivial (fun _ _ => trivial)
              (fun _ _ _ _ => trivial) fun _ done => done
          apply written.mono (fun _ left => left) ?_ fun _ _ left => left
          intro _ r done
          refine ⟨List.Subset.trans (List.subset_cons_self _ _) sub, _, done, ?_⟩
          exact imported.put (isStaging_of_valid (valid file member)) member
        · refine ⟨List.Subset.refl _, st, live, rfl, fun _ _ => rfl, ?_⟩
          exact fun name data present => Or.inl present
      exact looped.mono (fun _ left => left) (fun _ _ done => done.2) fun _ _ left => left

end Pool

end Freehold
