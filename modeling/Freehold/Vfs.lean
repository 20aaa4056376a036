import Freehold.OpenMainDb

set_option autoImplicit false

namespace Freehold

open CrashLogic

/-- An SQLite result code and a message. -/
structure VfsError where
  code : Nat
  message : String
  deriving DecidableEq, Repr

def sqliteIoerr : Nat := 10
def sqliteCantopen : Nat := 14
def sqliteIoerrDelete : Nat := 10 + 10 * 256

def OpfsSAHError.vfsErr (code : Nat) : OpfsSAHError → VfsError
  | .generic text => ⟨code, text⟩

/-- A method of the VFS. -/
abbrev VfsM (α : Type) := Prog Pool VfsError α

/-- A program of the pool within a method; its errors become result codes. -/
def asVfs {α : Type} (code : Nat) (program : PoolM α) : VfsM α :=
  Prog.zoom id (fun pool _ => pool) (OpfsSAHError.vfsErr code) program

namespace Region

/-- Bytes past the last whole physical block. -/
def tail (region : Region) : Fin physBlock := ⟨region.size % physBlock, Nat.mod_lt _ (by decide)⟩

/-- A physical block written at index `k`; a gap before it reads as blank bytes. -/
def writeCell (region : Region) (k : Nat) (cell : Cell) : Region :=
  let cells := region.cells
  if k < cells.length then .blocks (cells.set k cell) region.tail
  else .blocks (cells ++ List.replicate (k - cells.length) (.junk 0) ++ [cell]) ⟨0, physBlock_pos⟩

/-- `phys_truncate` to a number of whole blocks. -/
def truncateCells (region : Region) (blocks : Nat) : Region :=
  .blocks (region.cells.take blocks ++ List.replicate (blocks - region.cells.length) (.junk 0))
    ⟨0, physBlock_pos⟩

end Region

/-- A block with `bytes` from position `lo` on. -/
def overlay (plain : Block) (lo : Nat) (bytes : List UInt8) : Block :=
  Vector.ofFn fun i => if lo ≤ i.val then bytes.getD (i.val - lo) plain[i] else plain[i]

namespace SyncAccessFile

/-- The plaintext of block `k`, in the domain of the file. -/
def openCell (file : SyncAccessFile) (k : Nat) (cell : Cell) : Option Block :=
  cell.openWith file.crypto (.block file.fileId file.keyDomain k)

/-- Block `k` sealed for the file. -/
def sealCell (file : SyncAccessFile) (k : Nat) (plain : Block) : Cell :=
  .sealed file.crypto (.block file.fileId file.keyDomain k) plain

/-- What `write` seals into block `k`: the chunk if it is a whole block, or else the block that is
there with the chunk over it. -/
def overlaid (file : SyncAccessFile) (k lo : Nat) (chunk : List UInt8) : Except VfsError Block :=
  if chunk.length = blockSize then .ok (overlay zeroBlock 0 chunk)
  else
    match file.data.cells[k]? with
    | none => .ok (overlay zeroBlock lo chunk)
    | some cell =>
        match file.openCell k cell with
        | none => .error ⟨sqliteIoerr, "AEAD auth failed on read-modify-write"⟩
        | some plain => .ok (overlay plain lo chunk)

/-- The §17.I check of `write`. -/
def pageSizeCheck (file : SyncAccessFile) (bytes : List UInt8) (offset : Nat) : Except VfsError Unit :=
  if file.isMainDb ∧ offset = 0 ∧ 18 ≤ bytes.length ∧ sqliteMagic.isPrefixOf bytes then
    let declared := (bytes.getD 16 0).toNat * 256 + (bytes.getD 17 0).toNat
    let ps := if declared = 1 then 65536 else declared
    if ps = blockSize then .ok ()
    else .error ⟨sqliteIoerr,
      s!"refusing main-DB write: page_size {ps} != encryption block B={blockSize} (§17.I)"⟩
  else .ok ()

end SyncAccessFile

namespace Pool

def notFound (name : FileName) : VfsError :=
  let shown := String.ofList name
  ⟨sqliteIoerr, s!"{shown} not found"⟩

/-- `with_file`. -/
def withFile {α : Type} (name : FileName) (body : SyncAccessFile → VfsM α) : VfsM α := do
  let pool ← Prog.get
  match pool.files[name]? with
  | some file => body file
  | none => Prog.fail (notFound name)

/-- The block loop of `write`. -/
def writeBlocks (name : FileName) (offset : Nat) (bytes : List UInt8) : VfsM Unit :=
  if _more : bytes ≠ [] then
    let k := offset / blockSize
    let lo := offset % blockSize
    let chunk := bytes.take (blockSize - lo)
    withFile name fun file => do
      let plain ← Prog.ofExcept (file.overlaid k lo chunk)
      Prog.effect (modifyFile name fun file =>
        { file with data := file.data.writeCell k (file.sealCell k plain) })
      writeBlocks name (offset + chunk.length) (bytes.drop (blockSize - lo))
  else Prog.pure ()
termination_by bytes.length
decreasing_by
  have room : offset % blockSize < blockSize := Nat.mod_lt _ (by decide)
  have some_left := List.length_pos_iff.mpr _more
  rw [List.length_drop]
  omega

/-- `SyncAccessFile::write`. -/
def write (name : FileName) (bytes : List UInt8) (offset : Nat) : VfsM Unit :=
  withFile name fun file =>
    if bytes = [] then Prog.pure ()
    else do
      Prog.ofExcept (file.pageSizeCheck bytes offset)
      writeBlocks name offset bytes
      Prog.modify (modifyFile name fun written =>
        { written with
          logicalSize := some (max (file.logicalSize.getD (physLogical file.data))
            (offset + bytes.length)) })

/-- The last block that is kept in part, sealed again without its end. -/
def resealTail (name : FileName) (size : Nat) : VfsM Unit :=
  withFile name fun file =>
    let k := size / blockSize
    match file.data.cells[k]? with
    | none => Prog.pure ()
    | some cell =>
        match file.openCell k cell with
        | none => Prog.fail ⟨sqliteIoerr, "AEAD auth failed on truncate reseal"⟩
        | some plain =>
            let kept := overlay plain (size % blockSize)
              (List.replicate (blockSize - size % blockSize) 0)
            Prog.effect (modifyFile name fun file =>
              { file with data := file.data.writeCell k (file.sealCell k kept) })

/-- `SyncAccessFile::truncate`. -/
def truncate (name : FileName) (size : Nat) : VfsM Unit := do
  if size % blockSize ≠ 0 then resealTail name size
  withFile name fun _ => do
    Prog.effect (modifyFile name fun file =>
      { file with data := file.data.truncateCells ((size + blockSize - 1) / blockSize) })
    Prog.modify (modifyFile name fun file => { file with logicalSize := some size })

/-- `on_main_synced`: the commit barrier. -/
def onMainSynced (name : FileName) : PoolM Unit := do
  let pool ← Prog.get
  match pool.dbs[name]? with
  | none => return ()
  | some st => do
      let newGen := st.generation + 1
      anchorRecord st.uuid none (some newGen)
      let pool ← Prog.get
      let merkleRoot ← Prog.ofExcept (pool.fullStateRoot name)
      if pool.hasFilename (manifestName name) then
        writeManifestSlot st.crypto (manifestName name)
          ⟨newGen, st.uuid, merkleRoot, st.committedRoot, pool.lengthTable name⟩
        anchorRecord st.uuid (some newGen) (some newGen)
        Prog.modify fun pool =>
          { pool with
            dbs := pool.dbs.insert name { st with generation := newGen, committedRoot := merkleRoot } }
      else Prog.fail (.generic "manifest file missing at commit")

/-- `journal_finalize_barrier`. -/
def journalFinalizeBarrier (jname parent : FileName) : PoolM Unit := do
  let pool ← Prog.get
  match pool.files[jname]?, pool.dbs[parent]? with
  | some journal, some st =>
      if journalIsHot journal.data st.crypto st.uuid jname then onMainSynced parent else return ()
  | some journal, none =>
      if physBlock ≤ journal.data.size then
        let shown := String.ofList jname
        Prog.fail (.generic
          s!"journal {shown} finalized while its DB is not open — cannot authenticate, refusing (fail closed)")
      else return ()
  | none, _ => return ()

/-- The barrier of a file that is a journal by its name. -/
def finalizes (name : FileName) : PoolM Unit :=
  match stripSuffix name journalSuffix with
  | some parent => journalFinalizeBarrier name parent
  | none => Prog.pure ()

/-- `bind_satellite`. -/
def bindSatellite (name : FileName) : PoolM Unit := do
  let pool ← Prog.get
  match satelliteParent name with
  | none => return ()
  | some parent =>
      match pool.dbs[parent]? with
      | none => return ()
      | some st =>
          if endsWith name walSuffix then
            let shown := String.ofList name
            Prog.fail (.generic
              s!"refusing WAL satellite {shown}: WAL frames are outside the full-state-root scope (freehold-vfs-merkle-root F3) — this VFS requires journal=DELETE")
          else
            Prog.modify (modifyFile name fun file =>
              { file with crypto := st.crypto, keyDomain := st.uuid })

end Pool

/-- What SQLite opens a file as, by the flags of `xOpen`: `journal` is each of main journal,
super-journal and WAL, `temp` any other flag. -/
inductive FileKind where
  | mainDb
  | journal
  | temp
  deriving DecidableEq, Repr

namespace Vfs

open Pool

/-- `xOpenImpl`, of the crate below: a file that does not exist is added if SQLite asks for it. -/
def xOpenImpl (name : FileName) (create : Bool) : VfsM Unit := do
  let pool ← Prog.get
  if pool.hasFilename name then return ()
  else if create then asVfs sqliteCantopen (withNewFile name (Prog.pure ()))
  else
    let shown := String.ofList name
    Prog.fail ⟨sqliteCantopen, s!"file not found: {shown}"⟩

/-- `xOpen`; `freshUuid` is what `random_uuid` gives a new database. -/
def xOpen (freshUuid : Uuid) (kind : FileKind) (name : FileName) (create : Bool) : VfsM Unit := do
  xOpenImpl name create
  match kind with
  | .mainDb => asVfs sqliteCantopen (openMainDb freshUuid name)
  | .journal => asVfs sqliteCantopen (bindSatellite name)
  | .temp => Prog.pure ()

/-- `xDelete`: the store's `delete_file`. -/
def xDelete (name : FileName) : VfsM Unit := do
  asVfs sqliteIoerr (finalizes name)
  let _ ← asVfs sqliteIoerrDelete (deleteFile name)
  return ()

/-- `xClose`; a file opened with `SQLITE_OPEN_DELETEONCLOSE` goes. -/
def xClose (name : FileName) (deleteOnClose : Bool) : VfsM Unit :=
  if deleteOnClose then xDelete name else Prog.pure ()

/-- `xWrite`; an offset or a length out of range is refused. -/
def xWrite (name : FileName) (bytes : List UInt8) (offset : Int) : VfsM Unit :=
  if offset < 0 ∨ 2 ^ 32 ≤ offset then Prog.fail ⟨sqliteIoerr, ""⟩
  else do
    if offset = 0 ∧ 8 ≤ bytes.length ∧ !journalMagic.isPrefixOf bytes then
      asVfs sqliteIoerr (finalizes name)
    write name bytes offset.toNat

/-- `xTruncate`. -/
def xTruncate (name : FileName) (size : Int) : VfsM Unit :=
  if size < 0 ∨ 2 ^ 32 ≤ size then Prog.fail ⟨sqliteIoerr, ""⟩
  else do
    if size = 0 then asVfs sqliteIoerr (finalizes name)
    truncate name size.toNat

/-- `xSync`: every write that has returned is durable here, so there is nothing left to flush. -/
def xSync (name : FileName) : VfsM Unit := withFile name fun _ => Prog.pure ()

end Vfs

end Freehold
