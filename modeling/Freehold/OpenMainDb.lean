import Freehold.Journal

set_option autoImplicit false

namespace Freehold

open CrashLogic

/-- A sealed block written into slot `slot` of a manifest file, past blank bytes if
the file is shorter. -/
def Region.writeSlot (region : Region) (slot : Nat) (sealed : SealedBytes ManifestPayload) :
    Region :=
  match region with
  | .manifest ⟨uuid, slots⟩ =>
      .manifest ⟨uuid, (slots ++ List.replicate (slot + 1 - slots.length) (Aead.Sealed.junk 0)).set slot sealed⟩
  | other => other

/-- One slot of a manifest, if it authenticates and its sealed uuid is the header's. -/
def manifestSlot (dek : Dek) (mname : FileName) (file : ManifestFile) (slot : Nat) :
    Option ManifestPayload :=
  match file.slots[slot]? with
  | none => none
  | some sealed =>
      match sealed.openWith (.dbKey dek file.uuid) (.block (fileIdFor mname) file.uuid slot) with
      | some payload => if payload.dbUuid = file.uuid then some payload else none
      | none => none

/-- The slot with the highest generation, the first on a tie. -/
def manifestPick (dek : Dek) (mname : FileName) (file : ManifestFile) : Option ManifestPayload :=
  match manifestSlot dek mname file 0, manifestSlot dek mname file 1 with
  | none, later => later
  | some payload, none => some payload
  | some payload, some later =>
      if later.dbGeneration > payload.dbGeneration then some later else some payload

/-- The first bytes of an SQLite database: `SQLite format 3` and a zero. -/
def sqliteMagic : List UInt8 :=
  [0x53, 0x51, 0x4c, 0x69, 0x74, 0x65, 0x20, 0x66, 0x6f, 0x72, 0x6d, 0x61, 0x74, 0x20, 0x33, 0x00]

/-- The page size an SQLite header declares. -/
def headerPageSize (plain : Block) : Nat :=
  let declared := (plain.toList.getD 16 0).toNat * 256 + (plain.toList.getD 17 0).toNat
  if declared = 1 then 65536 else declared

/-- The §17.I check of a decrypted block 0. -/
def checkHeader (plain : Block) : Except OpfsSAHError Unit :=
  if sqliteMagic.isPrefixOf plain.toList then
    let ps := headerPageSize plain
    if ps = blockSize then .ok ()
    else .error (.generic s!"page_size {ps} != encryption block B={blockSize} — refusing (§17.I)")
  else .error (.generic "decrypted block 0 is not an SQLite header")

/-- The authenticated length a manifest records for a file. -/
def ManifestPayload.lengthOf (payload : ManifestPayload) (fid : FileId) : Option Nat :=
  (payload.files.find? fun entry => entry.1 = fid).map fun entry => entry.2

/-- The roots the open path accepts: the sealed one and the previous one. -/
def ManifestPayload.accepts (payload : ManifestPayload) (root : Root) : Bool :=
  root = payload.merkleRoot || (payload.prevMerkleRoot ≠ .zero && root = payload.prevMerkleRoot)

/-- The logical size a file starts from: whole blocks of its physical size. -/
def physLogical (data : Region) : Nat := data.size / physBlock * blockSize

namespace SyncAccessFile

/-- `ensure_logical`. -/
def ensureLogical (file : SyncAccessFile) : Nat := file.logicalSize.getD (physLogical file.data)

/-- Reads `count` whole blocks from index `k` on, as `full_state_root` does. -/
def readBlocks (file : SyncAccessFile) : (k count : Nat) → Except OpfsSAHError (List Block)
  | _, 0 => .ok []
  | k, count + 1 =>
      match file.data.cells[k]? with
      | none =>
          let n := file.data.size - k * physBlock
          .error (.generic
            s!"root: block {k} short/torn ({n}<{physBlock}) while computing full-state root")
      | some cell =>
          match cell.openWith file.crypto (.block file.fileId file.keyDomain k) with
          | none =>
              .error (.generic
                s!"root: block {k} failed AEAD authentication (tamper?) while computing full-state root")
          | some plain => do
              let image ← readBlocks file (k + 1) count
              return plain :: image

/-- The blocks of the logical image. -/
def readImage (file : SyncAccessFile) : Except OpfsSAHError (List Block) :=
  file.readBlocks 0 (file.ensureLogical / blockSize)

end SyncAccessFile

namespace Pool

def modifyFile (name : FileName) (f : SyncAccessFile → SyncAccessFile) (pool : Pool) : Pool :=
  { pool with files := pool.files.modify name f }

/-- `read_manifest`. -/
def readManifest (pool : Pool) (mname : FileName) : Except OpfsSAHError (Uuid × ManifestPayload) :=
  match pool.files[mname]? with
  | none => .error (.generic "manifest file not in pool")
  | some mfile =>
      match mfile.data with
      | .manifest file =>
          match manifestPick pool.dek mname file with
          | some payload => .ok (file.uuid, payload)
          | none =>
              .error (.generic
                "manifest failed to authenticate in both slots (wrong key, or tampered/corrupt)")
      | _ => .error (.generic "manifest header missing/invalid")

/-- `write_manifest_slot`: slot `db_generation % 2`. -/
def writeManifestSlot (kdb : Key) (mname : FileName) (payload : ManifestPayload) : PoolM Unit :=
  let slot := payload.dbGeneration % 2
  Prog.effect (modifyFile mname fun mfile =>
    { mfile with
      data := mfile.data.writeSlot slot
        (.sealed kdb (.block (fileIdFor mname) payload.dbUuid slot) payload) })

/-- `create_manifest` with the random `uuid`. -/
def createManifest (uuid : Uuid) (name mname : FileName) : PoolM DbState := do
  let pool ← Prog.get
  let kdb := Key.dbKey pool.dek uuid
  let payload : ManifestPayload := ⟨1, uuid, .zero, .zero, [(fileIdFor name, 0)]⟩
  withNewFile mname do
    Prog.effect (setData mname (.manifest ⟨uuid, []⟩))
    writeManifestSlot kdb mname payload
  anchorRecord uuid (some 1) (some 1)
  let st : DbState := ⟨uuid, kdb, 1, .zero⟩
  Prog.modify fun pool => { pool with dbs := pool.dbs.insert name st }
  return st

/-- The handle of a main database bound to its key and identity. -/
def bindMain (name : FileName) (kdb : Key) (uuid : Uuid) (logical : Option Nat) (pool : Pool) : Pool :=
  pool.modifyFile name fun main =>
    { main with
      crypto := kdb, keyDomain := uuid, isMainDb := true
      logicalSize := logical.or main.logicalSize }

/-- The satellites on disk bound likewise, with the recorded length where it agrees
with the physical layout. -/
def bindSatellites (name : FileName) (kdb : Key) (uuid : Uuid) (payload : ManifestPayload)
    (pool : Pool) : Pool :=
  { pool with
    files := pool.files.map fun fname file =>
      if satelliteParent fname = some name then
        { file with
          crypto := kdb, keyDomain := uuid
          logicalSize := match payload.lengthOf (fileIdFor fname) with
            | some l =>
                if (l + blockSize - 1) / blockSize = file.data.size / physBlock then some l
                else file.logicalSize
            | none => file.logicalSize }
      else file }

/-- Whether the database has a hot journal. -/
def hotJournal (pool : Pool) (name : FileName) (kdb : Key) (uuid : Uuid) : Bool :=
  match pool.files[journalName name]? with
  | some journal => journalIsHot journal.data kdb uuid (journalName name)
  | none => false

/-- The freshness gates against the anchor's window. -/
def freshnessGate (entry : Option AnchorEntry) (gen : Nat) : Except OpfsSAHError Unit :=
  match entry with
  | none => .ok ()
  | some e =>
      let trusted := e.committed
      let floor := e.epochFloor
      if gen + 1 < trusted then
        .error (.generic
          s!"ROLLBACK DETECTED: manifest db_generation {gen} is older than trusted generation {trusted} — refusing to open")
      else if 0 < floor ∧ gen < floor then
        .error (.generic
          s!"ROLLBACK DETECTED: manifest db_generation {gen} is below the peer-attested epoch floor {floor} — refusing to open")
      else .ok ()

/-- The length and block 0 checks of the main file; the logical size it gets. -/
def checkLayout (data : Region) (name : FileName) (kdb : Key) (uuid : Uuid)
    (payload : ManifestPayload) (hot : Bool) : Except OpfsSAHError Nat :=
  if 0 < data.size ∧ hot then .ok (physLogical data)
  else if 0 < data.size then
    let physLen := physLogical data
    let recorded := (payload.lengthOf (fileIdFor name)).getD physLen
    if recorded ≠ physLen then
      .error (.generic
        s!"main DB physical length {physLen} disagrees with authenticated manifest length {recorded} (truncation/tamper?)")
    else
      match data.cells[0]? with
      | none => .error (.generic "main DB block 0 torn/short")
      | some cell =>
          match cell.openWith kdb (.block (fileIdFor name) uuid 0) with
          | none =>
              .error (.generic "main DB block 0 failed AEAD authentication (wrong key or tamper)")
          | some plain => do
              checkHeader plain
              return physLen
  else .ok 0

/-- `full_state_root`. -/
def fullStateRoot (pool : Pool) (name : FileName) : Except OpfsSAHError Root :=
  match pool.files[name]? with
  | none =>
      let shown := String.ofList name
      .error (.generic s!"{shown} not in pool for root")
  | some file => do
      let image ← file.readImage
      return rootOf image

/-- The image `replay_journal_root` reconstructs of a main file and its journal. -/
def replayData (data journal : Region) (name jname : FileName) (kdb : Key) (uuid : Uuid) :
    Except OpfsSAHError (List Block) := do
  let jbytes ← decryptWholeFile journal kdb uuid (fileIdFor jname)
  let main ← decryptWholeFile data kdb uuid (fileIdFor name)
  replayJournal (bytesOf jbytes) main

def replayedImage (pool : Pool) (name jname : FileName) (kdb : Key) (uuid : Uuid) :
    Except OpfsSAHError (List Block) :=
  match pool.files[jname]? with
  | none =>
      let shown := String.ofList jname
      .error (.generic s!"{shown} vanished before replay")
  | some jf =>
      match pool.files[name]? with
      | none =>
          let shown := String.ofList name
          .error (.generic s!"{shown} vanished before replay")
      | some mf => replayData mf.data jf.data name jname kdb uuid

/-- `replay_journal_root`. -/
def replayJournalRoot (pool : Pool) (name jname : FileName) (kdb : Key) (uuid : Uuid) :
    Except OpfsSAHError Root := do
  let image ← pool.replayedImage name jname kdb uuid
  return rootOf image

/-- The full-state root check of a database that has durable blocks. -/
def checkRoot (pool : Pool) (name : FileName) (kdb : Key) (uuid : Uuid) (payload : ManifestPayload)
    (hot : Bool) : Except OpfsSAHError Unit := do
  let shown := String.ofList name
  if hot then
    let served ← pool.replayJournalRoot name (journalName name) kdb uuid
    if payload.accepts served then .ok ()
    else
      .error (.generic
        s!"PARTIAL ROLLBACK DETECTED: {shown} rollback-journal replay produces an image whose full-state root matches neither the sealed committed root nor the previous root (planted/re-planted rollback ≥2 commits deep) — refusing to open")
  else
    let actual ← pool.fullStateRoot name
    if payload.accepts actual then .ok ()
    else
      .error (.generic
        s!"PARTIAL ROLLBACK DETECTED: full-state Merkle root mismatch for {shown} (some blocks restored to an older generation) — refusing to open")

/-- The lengths of the main file and its satellites, as a manifest records them. -/
def lengthTable (pool : Pool) (name : FileName) : List (FileId × Nat) :=
  (pool.files.toList.filter fun entry =>
    entry.1 = name || satelliteParent entry.1 = some name).map
      fun entry => (fileIdFor entry.1, entry.2.ensureLogical)

/-- `seal_root_migration`. -/
def sealRootMigration (name : FileName) : PoolM Unit := do
  let pool ← Prog.get
  match pool.dbs[name]? with
  | none => return ()
  | some st =>
      let merkleRoot ← Prog.ofExcept (pool.fullStateRoot name)
      if merkleRoot = .zero then return ()
      else
        let mname := manifestName name
        if pool.hasFilename mname then
          writeManifestSlot st.crypto mname
            ⟨st.generation, st.uuid, merkleRoot, .zero, pool.lengthTable name⟩
          Prog.modify fun pool =>
            { pool with dbs := pool.dbs.insert name { st with committedRoot := merkleRoot } }
        else Prog.fail (.generic "manifest file missing at root migration")

/-- The part of `open_main_db` that adopts a new manifest for an empty database. -/
def openCreated (freshUuid : Uuid) (name : FileName) : PoolM Unit := do
  let st ← createManifest freshUuid name (manifestName name)
  Prog.modify (bindMain name st.crypto st.uuid (some 0))

/-- The end of `open_main_db`: the verified database becomes open, and one without a
root gets it sealed. -/
def adoptDb (name : FileName) (kdb : Key) (uuid : Uuid) (payload : ManifestPayload) (data : Region)
    (hot : Bool) : PoolM Unit := do
  Prog.modify fun pool =>
    { pool with dbs := pool.dbs.insert name ⟨uuid, kdb, payload.dbGeneration, payload.merkleRoot⟩ }
  if 0 < data.size ∧ hot = false ∧ payload.merkleRoot = .zero then
    sealRootMigration name

/-- The checks of `open_main_db` once the anchor has been raised. -/
def checkMain (name : FileName) (kdb : Key) (uuid : Uuid) (payload : ManifestPayload) :
    PoolM Unit := do
  Prog.modify (bindMain name kdb uuid none)
  let pool ← Prog.get
  let hot := pool.hotJournal name kdb uuid
  let data := ((pool.files[name]?).map fun main => main.data).getD .empty
  let logical ← Prog.ofExcept (checkLayout data name kdb uuid payload hot)
  Prog.modify (bindMain name kdb uuid (some logical))
  Prog.modify (bindSatellites name kdb uuid payload)
  let pool ← Prog.get
  Prog.ofExcept
    (if 0 < data.size ∧ payload.merkleRoot ≠ .zero then pool.checkRoot name kdb uuid payload hot
      else .ok ())
  adoptDb name kdb uuid payload data hot

/-- The part of `open_main_db` that verifies a database against its manifest. -/
def openVerified (name : FileName) (uuid : Uuid) (payload : ManifestPayload) : PoolM Unit := do
  let pool ← Prog.get
  let gen := payload.dbGeneration
  Prog.ofExcept (freshnessGate (anchorEntry pool.dek pool.anchor uuid) gen)
  anchorRecord uuid (some gen) (some gen)
  checkMain name (.dbKey pool.dek uuid) uuid payload

/-- `open_main_db`, run from `xOpen` before SQLite reads a byte; `freshUuid` is what
`random_uuid` gives a new database. -/
def openMainDb (freshUuid : Uuid) (name : FileName) : PoolM Unit := do
  let pool ← Prog.get
  let mname := manifestName name
  let shown := String.ofList name
  match pool.files[name]? with
  | none => Prog.fail (.generic s!"{shown} not in pool")
  | some main =>
      if pool.hasFilename mname then
        match pool.readManifest mname with
        | .ok (uuid, payload) => openVerified name uuid payload
        | .error e =>
            if main.data.size ≠ 0 then Prog.fail e
            else do
              let _ ← deleteFile mname
              openCreated freshUuid name
      else if main.data.size ≠ 0 then
        Prog.fail (.generic
          s!"{shown} has data but no manifest (pre-M2 image or foreign file) — refusing, fail closed")
      else openCreated freshUuid name

/-- What `xCheckReservedLock` reports of every file. -/
def xCheckReservedLock : Nat := 1

/-- Whether SQLite plays back the journal of a database on its first read. -/
def playsBack (pool : Pool) (name : FileName) : Bool :=
  match pool.files[journalName name]? with
  | some journal => 0 < journal.data.size && xCheckReservedLock = 0
  | none => false

/-- The image SQLite goes on to serve of an open database. -/
def servedImage (pool : Pool) (name : FileName) : Except OpfsSAHError (List Block) :=
  match pool.dbs[name]?, pool.files[name]? with
  | some st, some main =>
      if pool.playsBack name then pool.replayedImage name (journalName name) st.crypto st.uuid
      else main.readImage
  | _, _ => .error (.generic "not open")

end Pool

end Freehold
