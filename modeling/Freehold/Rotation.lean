import Freehold.PoolWrites

set_option autoImplicit false

namespace Freehold

open CrashLogic

/-- `~rot`. -/
def rotShadowSuffix : FileName := ['~', 'r', 'o', 't']

/-- `__rotate_intent__`. -/
def rotIntentName : FileName :=
  ['_', '_', 'r', 'o', 't', 'a', 't', 'e', '_', 'i', 'n', 't', 'e', 'n', 't', '_', '_']

def shadowName (name : FileName) : FileName := name ++ rotShadowSuffix

/-- The files `discard_rotation_staging` drops. -/
def isStaging (name : FileName) : Bool :=
  endsWith name rotShadowSuffix || name = rotIntentName

/-- The order in which `get_filenames` lists the names of the hash map. -/
structure IterOrder where
  list : List FileName → List FileName
  perm : ∀ names, (list names).Perm names

/-- The intent, if the bytes of the region authenticate under `key`. -/
def Region.openIntent (region : Region) (key : Key) : Option RotationIntent :=
  match region with
  | .intent sealed => sealed.openWith key .rotateIntent
  | _ => none

/-- `encode_rotation_intent`, up to the bytes. -/
def encodeRotationIntent (oldGen newGen : Nat) (dbNames : List FileName) (anchors : AnchorTable) :
    Except OpfsSAHError RotationIntent :=
  if 65535 < dbNames.length ∨ anchorCap < anchors.entries.length then
    .error (.generic "rotate intent too large")
  else
    match dbNames.find? fun db => 255 < byteLen db with
    | some db =>
        let shown := (String.ofList db).quote
        .error (.generic s!"rotate: db name too long: {shown}")
    | none => .ok ⟨oldGen, newGen, dbNames, anchors⟩

namespace Pool

/-- The main file's blocks from index `k` on, opened under one key and sealed
again under the other in the same place. -/
def resealBlocks (oldK newK : Key) (fid : FileId) (uuid : Uuid) :
    Nat → List Cell → Except OpfsSAHError (List Cell)
  | _, [] => .ok []
  | k, cell :: rest =>
      match cell.openWith oldK (.block fid uuid k) with
      | none => .error (.generic s!"reseal main blk {k}: old-DEK auth failed")
      | some plain => do
          let resealed ← resealBlocks oldK newK fid uuid (k + 1) rest
          return .sealed newK (.block fid uuid k) plain :: resealed

/-- A manifest's slots; one that does not authenticate is copied verbatim. -/
def resealSlots (oldK newK : Key) (fid : FileId) (uuid : Uuid) :
    Nat → List (SealedBytes ManifestPayload) → List (SealedBytes ManifestPayload)
  | _, [] => []
  | slot, sealed :: rest =>
      (match sealed.openWith oldK (.block fid uuid slot) with
        | some plain => .sealed newK (.block fid uuid slot) plain
        | none => sealed) :: resealSlots oldK newK fid uuid (slot + 1) rest

/-- `reseal_db_ciphertext`: the database's main file and manifest under `newDek`. -/
def resealDbCiphertext (dbName : FileName) (newDek : Dek) (pool : Pool) :
    Except OpfsSAHError (List (FileName × Region)) := do
  let mname := manifestName dbName
  match ← pool.exportRaw mname with
  | .manifest ⟨uuid, slots⟩ =>
      let oldK := Key.dbKey pool.dek uuid
      let newK := Key.dbKey newDek uuid
      let manifest := (mname, .manifest ⟨uuid, resealSlots oldK newK (fileIdFor mname) uuid 0 slots⟩)
      if pool.hasFilename dbName then
        let raw ← pool.exportRaw dbName
        let resealed ← resealBlocks oldK newK (fileIdFor dbName) uuid 0 raw.cells
        return [(dbName, .blocks resealed 0), manifest]
      else
        return [manifest]
  | _ => .error (.generic "reseal: manifest header missing/invalid")

/-- Re-seals one database into shadow files. -/
def stageDb (newDek : Dek) (db : FileName) : PoolM Unit := do
  let pool ← Prog.get
  let files ← Prog.ofExcept (resealDbCiphertext db newDek pool)
  Prog.forEach (fun file => importCiphertextFile (shadowName file.1) file.2) files

/-- `stage_rotation`: the shadows of every database, then the intent. -/
def stageRotation (newDek : Dek) (dbNames : List FileName) (oldGen newGen : Nat) : PoolM Unit := do
  Prog.forEach (stageDb newDek) dbNames
  let pool ← Prog.get
  let plain ← Prog.ofExcept
    (encodeRotationIntent oldGen newGen dbNames (anchorLoad pool.dek pool.anchor).2)
  importCiphertextFile rotIntentName
    (.intent (.sealed (.rotateIntentKey newDek) .rotateIntent plain))

/-- One file's turn in the roll-forward. -/
def adoptShadow (name : FileName) : PoolM Unit := do
  let pool ← Prog.get
  let sname := shadowName name
  if pool.hasFilename sname then
    let bytes ← Prog.ofExcept (pool.exportRaw sname)
    importCiphertextFile name bytes
    Prog.attempt (deleteFile sname)
  else
    return ()

/-- Re-establishes one carried freshness window. -/
def carryAnchor (e : AnchorEntry) : PoolM Unit :=
  anchorRecordFull e.uuid (some e.committed) (some e.inFlight)
    (if e.epochFloor > 0 then some e.epochFloor else none)

/-- `discard_rotation_staging`. -/
def discardRotationStaging (order : IterOrder) : PoolM Unit := do
  let pool ← Prog.get
  let stale := (order.list pool.files.keys).filter fun name => isStaging name
  Prog.forEach (fun name => Prog.attempt (deleteFile name)) stale

/-- `recover_rotation`: rolls a staged rotation forward if the intent opens under
this pool's DEK, and back if it does not. -/
def recoverRotation (order : IterOrder) : PoolM (Option String) := do
  let pool ← Prog.get
  if pool.hasFilename rotIntentName then
    let sealed ← Prog.ofExcept (pool.exportRaw rotIntentName)
    match sealed.openIntent (.rotateIntentKey pool.dek) with
    | some plain => do
        Prog.forEach (fun db => Prog.forEach adoptShadow [db, manifestName db]) plain.dbNames
        Prog.forEach carryAnchor plain.anchors.entries
        Prog.attempt (deleteFile rotIntentName)
        let dbs := plain.dbNames.length
        let anchors := plain.anchors.entries.length
        return some s!"rotation rolled FORWARD ({dbs} db, {anchors} anchor)"
    | none => do
        discardRotationStaging order
        return some "rotation rolled BACK (pre-commit crash)"
  else
    return none

/-- The names `rotate_dek` hands to `stage_rotation`. -/
def databases (order : IterOrder) (pool : Pool) : List FileName :=
  (order.list pool.files.keys).filter fun name => endsWith name dbSuffix

end Pool

section Names

variable {name db db' suffix suffix' : FileName}

theorem endsWith_append (name suffix : FileName) : endsWith (name ++ suffix) suffix = true := by
  rw [endsWith, List.isSuffixOf_iff_suffix]
  exact List.suffix_append name suffix

/-- Two suffixes of one name are suffixes of each other. -/
theorem endsWith_or_endsWith (ends : endsWith name suffix = true)
    (ends' : endsWith name suffix' = true) :
    endsWith suffix' suffix = true ∨ endsWith suffix suffix' = true := by
  rw [endsWith, List.isSuffixOf_iff_suffix] at *
  rw [endsWith, List.isSuffixOf_iff_suffix]
  exact List.suffix_or_suffix_of_suffix ends ends'

theorem not_endsWith_of_endsWith (ends : endsWith name suffix = true)
    (apart : endsWith suffix' suffix = false ∧ endsWith suffix suffix' = false) :
    endsWith name suffix' = false := by
  rw [← Bool.not_eq_true]
  intro ends'
  cases endsWith_or_endsWith ends ends' with
  | inl first => rw [apart.1] at first; exact Bool.noConfusion first
  | inr second => rw [apart.2] at second; exact Bool.noConfusion second

theorem shadowName_injective (same : shadowName db = shadowName db') : db = db' :=
  List.append_cancel_right same

theorem manifestName_injective (same : manifestName db = manifestName db') : db = db' :=
  List.append_cancel_right same

@[simp] theorem isStaging_shadowName : isStaging (shadowName name) = true := by
  rw [isStaging, shadowName, endsWith_append]
  rfl

@[simp] theorem isStaging_rotIntentName : isStaging rotIntentName = true := by decide

theorem shadowName_ne_rotIntentName : shadowName name ≠ rotIntentName := by
  intro same
  have ends := endsWith_append name rotShadowSuffix
  rw [show name ++ rotShadowSuffix = rotIntentName from same] at ends
  exact absurd ends (by decide)

theorem isStaging_of_db (isDb : endsWith db dbSuffix = true) : isStaging db = false := by
  rw [isStaging, not_endsWith_of_endsWith isDb (by decide), Bool.false_or, decide_eq_false_iff_not]
  rintro rfl
  exact absurd isDb (by decide)

@[simp] theorem isStaging_manifestName : isStaging (manifestName db) = false := by
  have ends : endsWith (manifestName db) manifestSuffix = true := endsWith_append db manifestSuffix
  rw [isStaging, not_endsWith_of_endsWith ends (by decide), Bool.false_or, decide_eq_false_iff_not]
  intro same
  rw [same] at ends
  exact absurd ends (by decide)

theorem manifestName_ne_db (isDb : endsWith db dbSuffix = true) : manifestName db' ≠ db := by
  intro same
  have ends : endsWith (manifestName db') manifestSuffix = true := endsWith_append db' manifestSuffix
  rw [same, not_endsWith_of_endsWith isDb (by decide)] at ends
  exact Bool.noConfusion ends

theorem ne_shadowName_of_not_staging (live : isStaging name = false) (other : FileName) :
    name ≠ shadowName other := by
  rintro rfl
  rw [isStaging_shadowName] at live
  exact Bool.noConfusion live

theorem ne_rotIntentName_of_not_staging (live : isStaging name = false) : name ≠ rotIntentName := by
  rintro rfl
  rw [isStaging_rotIntentName] at live
  exact Bool.noConfusion live

/-- A staging file is the shadow of some file, or the intent. -/
theorem isStaging_cases (staging : isStaging name = true) :
    (∃ other, name = shadowName other) ∨ name = rotIntentName := by
  rw [isStaging, Bool.or_eq_true, decide_eq_true_eq, endsWith, List.isSuffixOf_iff_suffix] at staging
  apply staging.imp_left
  rintro ⟨other, rfl⟩
  exact ⟨other, rfl⟩

end Names

end Freehold
