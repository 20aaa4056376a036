import Freehold.Manifest
import Freehold.Lib.CrashLogic
import Mathlib

set_option autoImplicit false

namespace Freehold

open CrashLogic

/-- Longest file name the header holds, with its terminator. -/
abbrev headerMaxFilenameSize : Nat := 512

/-- Length of the name in UTF-8. -/
def byteLen (name : FileName) : Nat := (name.map fun c => c.utf8Size).sum

/-- Whether a header can store the name. -/
def Fits (name : FileName) : Prop := name ≠ [] ∧ byteLen name + 1 < headerMaxFilenameSize

instance : DecidablePred Fits := fun _ => inferInstanceAs (Decidable (_ ∧ _))

/-- A name as a header stores it. -/
structure HeaderName where
  name : FileName
  fits : Fits name
  deriving DecidableEq

/-- The rotation intent before it is sealed. -/
structure RotationIntent where
  oldGen : Nat
  newGen : Nat
  dbNames : List FileName
  anchors : AnchorTable
  deriving DecidableEq

/-- A manifest file: the uuid of its plaintext header and its sealed slots. -/
structure ManifestFile where
  uuid : Uuid
  slots : List (SealedBytes ManifestPayload)
  deriving DecidableEq

/-- The data region of a pool file. `blocks` is the grid of physical blocks from
offset zero with the bytes left over after the last whole one. -/
inductive Region where
  | blocks (cells : List Cell) (tail : Fin physBlock)
  | manifest (file : ManifestFile)
  | intent (sealed : SealedBytes RotationIntent)
  deriving DecidableEq

namespace Region

def empty : Region := .blocks [] ⟨0, physBlock_pos⟩

/-- `len` blank bytes. -/
def zeros (len : Nat) : Region :=
  .blocks (List.replicate (len / physBlock) (.junk 0)) ⟨len % physBlock, Nat.mod_lt _ (by decide)⟩

/-- Bytes of an intent as its encoder lays them out. -/
def intentLen (plain : RotationIntent) : Nat :=
  4 + 16 + 2 + (plain.dbNames.map fun name => 1 + byteLen name).sum + 2 +
    40 * plain.anchors.entries.length

/-- `phys_size` of the data region. -/
def size : Region → Nat
  | .blocks cells tail => cells.length * physBlock + tail
  | .manifest file => manifestHdrLen + file.slots.length * physBlock
  | .intent (.sealed _ _ plain) => nonceLen + intentLen plain + tagLen
  | .intent (.junk bytes) => bytes

/-- The whole physical blocks a reader of a block file finds. Bytes laid out for
another kind of file authenticate at no block index. -/
def cells : Region → List Cell
  | .blocks cells _ => cells
  | region => List.replicate (region.size / physBlock) (.junk 0)

theorem length_cells (region : Region) : region.cells.length = region.size / physBlock := by
  cases region with
  | blocks cells tail =>
      have short := tail.isLt
      have positive : 0 < physBlock := by decide
      rw [Region.cells, Region.size, Nat.mul_comm, Nat.mul_add_div positive,
        Nat.div_eq_of_lt short, Nat.add_zero]
  | manifest file => exact List.length_replicate
  | intent blob => exact List.length_replicate

end Region

/-- One slot of the pool: the name in its on-disk header, its data region and the
handle state that lives only in memory. -/
structure SyncAccessFile where
  header : Option HeaderName
  data : Region
  crypto : Key
  fileId : FileId
  keyDomain : Uuid
  isMainDb : Bool
  logicalSize : Option Nat
  deriving DecidableEq

/-- State of an open main database. -/
structure DbState where
  uuid : Uuid
  crypto : Key
  generation : Nat
  committedRoot : Root
  deriving DecidableEq

inductive OpfsSAHError where
  | generic (text : String)
  deriving DecidableEq, Repr

structure Pool where
  dek : Dek
  files : Std.ExtTreeMap FileName SyncAccessFile
  available : List SyncAccessFile
  anchor : AnchorFile
  dbs : Std.ExtTreeMap FileName DbState

/-- A program over the pool; each of its effects is one write to the disk. -/
abbrev PoolM (α : Type) := Prog Pool OpfsSAHError α

/-- What the disk holds under each name. -/
abbrev Disk := FileName → Option Region

namespace Pool

/-- `make_file`: a pooled slot with no name. -/
def pooled (dek : Dek) : SyncAccessFile where
  header := none
  data := .empty
  crypto := .poolKey dek
  fileId := ⟨[]⟩
  keyDomain := noDomain
  isMainDb := false
  logicalSize := none

/-- A slot found under `name` when the pool is acquired. -/
def mounted (dek : Dek) (name : FileName) (file : SyncAccessFile) : SyncAccessFile :=
  { pooled dek with header := file.header, data := file.data, fileId := fileIdFor name }

/-- Whether the on-disk header of a mapped slot carries the name it is mapped to. -/
def named (name : FileName) (file : SyncAccessFile) : Bool :=
  (file.header.map fun header => header.name) = some name

/-- The slots `acquire_access_handles` maps: those whose header names a file. -/
def mountedFiles (pool : Pool) (dek : Dek) : Std.ExtTreeMap FileName SyncAccessFile :=
  pool.files.filterMap fun name file =>
    if named name file then some (mounted dek name file) else none

/-- A fresh pool over the same directory: what is in memory only is gone, the map
is rebuilt from the headers and every other slot is cleared and free. -/
def reopen (pool : Pool) (dek : Dek) : Pool where
  dek := dek
  files := pool.mountedFiles dek
  available := List.replicate
    (pool.files.size + pool.available.length - (pool.mountedFiles dek).size) (pooled dek)
  anchor := pool.anchor
  dbs := ∅

/-- The bytes the disk holds under `name`. -/
def content (pool : Pool) : Disk := fun name =>
  (pool.files[name]?).bind fun file => if named name file then some file.data else none

def hasFilename (pool : Pool) (name : FileName) : Bool := pool.files.contains name

/-- `export_raw`: the ciphertext of a mapped file. -/
def exportRaw (pool : Pool) (name : FileName) : Except OpfsSAHError Region :=
  match pool.files[name]? with
  | some file => .ok file.data
  | none =>
      let shown := String.ofList name
      .error (.generic s!"File not found: {shown}")

/-- A write into the data region of a mapped file. -/
def setData (name : FileName) (data : Region) (pool : Pool) : Pool :=
  { pool with files := pool.files.modify name fun file => { file with data := data } }

/-- The slot of `name` goes back to the free list with its header cleared. -/
def unmapSlot (name : FileName) (pool : Pool) : Pool :=
  match pool.files[name]? with
  | some file =>
      { pool with
        files := pool.files.erase name
        available := { file with header := none } :: pool.available }
  | none => pool

/-- The last free slot is taken for `name`, with its AAD domain bound. -/
def mapSlot (name : FileName) (header : Option HeaderName) (pool : Pool) : Pool :=
  match pool.available with
  | file :: rest =>
      { pool with
        files := pool.files.insert name
          { file with header := header, fileId := fileIdFor name, logicalSize := some 0 }
        available := rest }
  | [] => pool

/-- `delete_file`. Clearing the header first truncates the data region, which is
a write of its own; the map in memory follows the header. -/
def deleteFile (name : FileName) : PoolM Bool := do
  let pool ← Prog.get
  if pool.hasFilename name then
    Prog.effect (setData name .empty)
    Prog.effect (unmapSlot name)
    return true
  else
    return false

/-- `with_new_file`: maps a free slot to `name` and runs `body` on it. A name
that does not fit the header is mapped in memory only. -/
def withNewFile (name : FileName) (body : PoolM Unit) : PoolM Unit := do
  let pool ← Prog.get
  let shown := String.ofList name
  if pool.hasFilename name then
    Prog.fail (.generic s!"{shown} file already exists")
  else if pool.available = [] then
    Prog.fail (.generic "No files available in the pool")
  else if nonempty : name = [] then do
    Prog.modify (mapSlot name none)
    Prog.fail (.generic "Filename is empty")
  else if long : headerMaxFilenameSize ≤ byteLen name + 1 then do
    Prog.modify (mapSlot name none)
    Prog.fail (.generic s!"Filename too long: {shown}")
  else do
    Prog.effect (mapSlot name (some ⟨name, nonempty, Nat.lt_of_not_le long⟩))
    body

/-- `import_ciphertext_file`: replaces the file by the given ciphertext. -/
def importCiphertextFile (name : FileName) (ciphertext : Region) : PoolM Unit := do
  Prog.attempt (deleteFile name)
  withNewFile name do
    Prog.effect (setData name (.zeros ciphertext.size))
    Prog.effect (setData name ciphertext)

/-- `anchor_record_full`: upserts the window of `uuid`; a floor goes to both slots. -/
def anchorRecordFull (uuid : Uuid) (committed inFlight epochFloor : Option Nat) : PoolM Unit := do
  let pool ← Prog.get
  let loaded := anchorLoad pool.dek pool.anchor
  match anchorUpsert uuid committed inFlight epochFloor loaded.2 with
  | none =>
      Prog.fail (.generic
        s!"anchor full ({anchorCap} DBs); cannot track freshness for another DB in this pool")
  | some table => do
      let save (seq : Nat) : PoolM Unit :=
        Prog.effect fun pool => { pool with anchor := anchorSave pool.dek seq table pool.anchor }
      save (loaded.1 + 1)
      if epochFloor.isSome then
        save (loaded.1 + 2)

/-- `anchor_record`. -/
def anchorRecord (uuid : Uuid) (committed inFlight : Option Nat) : PoolM Unit :=
  anchorRecordFull uuid committed inFlight none

/-- The map agrees with the headers, each name binds its AAD domain and free slots
are cleared. -/
structure Wf (pool : Pool) : Prop where
  named : ∀ (name : FileName) (file : SyncAccessFile), pool.files[name]? = some file →
    Pool.named name file = true
  bound : ∀ (name : FileName) (file : SyncAccessFile), pool.files[name]? = some file →
    file.fileId = fileIdFor name
  cleared : ∀ file : SyncAccessFile, file ∈ pool.available → file.header = none ∧ file.data = .empty

/-- How many slots the pool has, mapped or free. -/
def capacity (pool : Pool) : Nat := pool.files.size + pool.available.length

theorem wf_iff {pool : Pool} : pool.Wf ↔
    (∀ entry ∈ pool.files.toList, named entry.1 entry.2 = true ∧ entry.2.fileId = fileIdFor entry.1) ∧
      ∀ file ∈ pool.available, file.header = none ∧ file.data = .empty := by
  constructor
  · intro wf
    refine ⟨fun entry listed => ?_, wf.cleared⟩
    have found := Std.ExtTreeMap.mem_toList_iff_getElem?_eq_some.mp listed
    exact ⟨wf.named _ _ found, wf.bound _ _ found⟩
  · rintro ⟨entries, cleared⟩
    have listed (name : FileName) (file : SyncAccessFile) (found : pool.files[name]? = some file) :=
      entries (name, file) (Std.ExtTreeMap.mem_toList_iff_getElem?_eq_some.mpr found)
    exact ⟨fun name file found => (listed name file found).1,
      fun name file found => (listed name file found).2, cleared⟩

instance : DecidablePred Wf := fun _ => decidable_of_iff _ wf_iff.symm

section Slots

variable {pool : Pool} {name other : FileName} {data : Region}

theorem hasFilename_iff : pool.hasFilename name = true ↔ ∃ file, pool.files[name]? = some file := by
  rw [hasFilename, Std.ExtTreeMap.contains_iff_mem, Std.ExtTreeMap.mem_iff_isSome_getElem?,
    Option.isSome_iff_exists]

theorem Wf.content_eq (wf : pool.Wf) (name : FileName) :
    pool.content name = (pool.files[name]?).map fun file => file.data := by
  unfold content
  cases found : pool.files[name]? with
  | none => rfl
  | some file => simp [wf.named name file found]

theorem Wf.hasFilename_iff (wf : pool.Wf) :
    pool.hasFilename name = true ↔ ∃ data, pool.content name = some data := by
  simp [Pool.hasFilename_iff, wf.content_eq]

theorem Wf.hasFilename_eq_false (wf : pool.Wf) :
    pool.hasFilename name = false ↔ pool.content name = none := by
  rw [← Bool.not_eq_true, wf.hasFilename_iff, Option.eq_none_iff_forall_ne_some]
  exact not_exists

theorem Wf.exportRaw_eq (wf : pool.Wf) (held : pool.content name = some data) :
    pool.exportRaw name = .ok data := by
  rw [wf.content_eq] at held
  obtain ⟨file, found, rfl⟩ := Option.map_eq_some_iff.mp held
  simp only [exportRaw, found]

theorem Wf.fits (wf : pool.Wf) (held : pool.content name = some data) :
    Fits name := by
  rw [wf.content_eq] at held
  obtain ⟨file, found, rfl⟩ := Option.map_eq_some_iff.mp held
  have carried := wf.named name file found
  rw [Pool.named, decide_eq_true_eq] at carried
  obtain ⟨header, _, rfl⟩ := Option.map_eq_some_iff.mp carried
  exact header.fits

theorem getElem?_setData (other : FileName) : (setData name data pool).files[other]? =
    if other = name then (pool.files[name]?).map fun file => { file with data := data }
    else pool.files[other]? := by
  simp only [setData, Std.ExtTreeMap.getElem?_modify, Std.LawfulEqCmp.compare_eq_iff_eq]
  by_cases same : name = other
  · subst same
    simp
  · simp [same, Ne.symm same]

@[simp] theorem setData_available : (setData name data pool).available = pool.available := rfl
@[simp] theorem setData_anchor : (setData name data pool).anchor = pool.anchor := rfl
@[simp] theorem setData_dek : (setData name data pool).dek = pool.dek := rfl

@[simp] theorem capacity_setData : (setData name data pool).capacity = pool.capacity := by
  simp only [capacity, setData, Std.ExtTreeMap.size_modify]

theorem Wf.setData (wf : pool.Wf) : (setData name data pool).Wf := by
  have kept : ∀ (name' : FileName) (file : SyncAccessFile),
      (Pool.setData name data pool).files[name']? = some file →
      ∃ old, pool.files[name']? = some old ∧ file.header = old.header ∧
        file.fileId = old.fileId := by
    intro name' file found
    rw [getElem?_setData] at found
    split at found
    · next same =>
        obtain ⟨old, present, rfl⟩ := Option.map_eq_some_iff.mp found
        exact ⟨old, same ▸ present, rfl, rfl⟩
    · exact ⟨file, found, rfl, rfl⟩
  refine ⟨?_, ?_, wf.cleared⟩
  · intro name' file found
    obtain ⟨old, present, header, _⟩ := kept name' file found
    have carried := wf.named name' old present
    rw [Pool.named] at carried ⊢
    rw [header]
    exact carried
  · intro name' file found
    obtain ⟨old, present, _, fileId⟩ := kept name' file found
    rw [fileId]
    exact wf.bound name' old present

theorem Wf.content_setData (wf : pool.Wf) {old : Region} (held : pool.content name = some old) :
    (Pool.setData name data pool).content = Function.update pool.content name (some data) := by
  funext other
  rw [wf.setData.content_eq, getElem?_setData]
  by_cases same : other = name
  · subst same
    rw [wf.content_eq] at held
    obtain ⟨file, found, _⟩ := Option.map_eq_some_iff.mp held
    simp [found]
  · rw [if_neg same, Function.update_of_ne same, wf.content_eq]

theorem unmapSlot_of_some {file : SyncAccessFile} (found : pool.files[name]? = some file) :
    unmapSlot name pool = { pool with
      files := pool.files.erase name
      available := { file with header := none } :: pool.available } := by
  simp only [unmapSlot, found]

theorem getElem?_unmapSlot (other : FileName) :
    (unmapSlot name pool).files[other]? = if other = name then none else pool.files[other]? := by
  cases found : pool.files[name]? with
  | none =>
      simp only [unmapSlot, found]
      by_cases same : other = name
      · rw [if_pos same, same, found]
      · rw [if_neg same]
  | some file =>
      rw [unmapSlot_of_some found]
      simp only [Std.ExtTreeMap.getElem?_erase, Std.LawfulEqCmp.compare_eq_iff_eq,
        eq_comm (a := name)]

@[simp] theorem unmapSlot_anchor : (unmapSlot name pool).anchor = pool.anchor := by
  unfold unmapSlot
  split <;> rfl

@[simp] theorem unmapSlot_dek : (unmapSlot name pool).dek = pool.dek := by
  unfold unmapSlot
  split <;> rfl

@[simp] theorem capacity_unmapSlot : (unmapSlot name pool).capacity = pool.capacity := by
  cases found : pool.files[name]? with
  | none => simp only [unmapSlot, found]
  | some file =>
      have present : pool.files.contains name = true := hasFilename_iff.mpr ⟨file, found⟩
      have positive : pool.files.size ≠ 0 := by
        intro zero
        rw [← Std.ExtTreeMap.eq_empty_iff_size_eq_zero] at zero
        rw [zero, Std.ExtTreeMap.contains_empty] at present
        exact Bool.noConfusion present
      rw [unmapSlot_of_some found]
      simp only [capacity, Std.ExtTreeMap.size_erase, present, if_true, List.length_cons]
      omega

theorem Wf.unmapSlot (wf : pool.Wf) (blank : pool.content name = some .empty) :
    (unmapSlot name pool).Wf := by
  refine ⟨?_, ?_, ?_⟩
  · intro other file found
    rw [getElem?_unmapSlot] at found
    split at found
    · cases found
    · exact wf.named other file found
  · intro other file found
    rw [getElem?_unmapSlot] at found
    split at found
    · cases found
    · exact wf.bound other file found
  · intro slot member
    rw [wf.content_eq] at blank
    obtain ⟨file, found, emptied⟩ := Option.map_eq_some_iff.mp blank
    rw [unmapSlot_of_some found] at member
    cases List.mem_cons.mp member with
    | inl fresh => exact fresh ▸ ⟨rfl, emptied⟩
    | inr old => exact wf.cleared slot old

theorem Wf.content_unmapSlot (wf : pool.Wf) (blank : pool.content name = some .empty) :
    (Pool.unmapSlot name pool).content = Function.update pool.content name none := by
  funext other
  rw [(wf.unmapSlot blank).content_eq, getElem?_unmapSlot]
  by_cases same : other = name
  · rw [if_pos same, same, Function.update_self]
    rfl
  · rw [if_neg same, Function.update_of_ne same, wf.content_eq]

theorem mapSlot_of_cons {file : SyncAccessFile} {rest : List SyncAccessFile}
    {header : Option HeaderName} (free : pool.available = file :: rest) :
    mapSlot name header pool = { pool with
      files := pool.files.insert name
        { file with header := header, fileId := fileIdFor name, logicalSize := some 0 }
      available := rest } := by
  simp only [mapSlot, free]

@[simp] theorem mapSlot_anchor {header : Option HeaderName} :
    (mapSlot name header pool).anchor = pool.anchor := by
  unfold mapSlot
  split <;> rfl

@[simp] theorem mapSlot_dek {header : Option HeaderName} :
    (mapSlot name header pool).dek = pool.dek := by
  unfold mapSlot
  split <;> rfl

theorem capacity_mapSlot {header : Option HeaderName} (absent : pool.hasFilename name = false) :
    (mapSlot name header pool).capacity = pool.capacity := by
  have missing : pool.files.contains name = false := absent
  cases free : pool.available with
  | nil => simp only [mapSlot, free]
  | cons file rest =>
      rw [mapSlot_of_cons free]
      simp only [capacity, Std.ExtTreeMap.size_insert, missing, Bool.false_eq_true, if_false, free,
        List.length_cons]
      omega

/-- A slot mapped without a header is on no disk. -/
theorem content_mapSlot_none (absent : pool.hasFilename name = false) :
    (mapSlot name none pool).content = pool.content := by
  cases free : pool.available with
  | nil => simp only [mapSlot, free]
  | cons file rest =>
      funext other
      rw [mapSlot_of_cons free]
      simp only [content, Std.ExtTreeMap.getElem?_insert, Std.LawfulEqCmp.compare_eq_iff_eq]
      by_cases same : name = other
      · subst same
        have missing : pool.files[name]? = none := by
          rw [Option.eq_none_iff_forall_ne_some]
          intro file found
          rw [hasFilename_iff.mpr ⟨file, found⟩] at absent
          exact Bool.noConfusion absent
        simp [Pool.named, missing]
      · simp [same]

theorem Wf.mapSlot (wf : pool.Wf) {header : HeaderName} :
    (mapSlot header.name (some header) pool).Wf := by
  cases free : pool.available with
  | nil =>
      simp only [Pool.mapSlot, free]
      exact wf
  | cons slot rest =>
      rw [mapSlot_of_cons free]
      have inserted : ∀ (other : FileName) (file : SyncAccessFile),
          (pool.files.insert header.name { slot with
            header := some header, fileId := fileIdFor header.name, logicalSize := some 0 })[other]?
            = some file →
          (file.header = some header ∧ file.fileId = fileIdFor other ∧ header.name = other) ∨
            pool.files[other]? = some file := by
        intro other file found
        simp only [Std.ExtTreeMap.getElem?_insert, Std.LawfulEqCmp.compare_eq_iff_eq] at found
        split at found
        · next same =>
            cases found
            exact Or.inl ⟨rfl, same ▸ rfl, same⟩
        · exact Or.inr found
      refine ⟨?_, ?_, ?_⟩
      · intro other file found
        cases inserted other file found with
        | inl fresh => simp [Pool.named, fresh.1, fresh.2.2]
        | inr old => exact wf.named other file old
      · intro other file found
        cases inserted other file found with
        | inl fresh => exact fresh.2.1
        | inr old => exact wf.bound other file old
      · intro other member
        apply wf.cleared other
        rw [free]
        exact List.mem_cons_of_mem slot member

theorem Wf.content_mapSlot (wf : pool.Wf) {header : HeaderName} (room : pool.available ≠ []) :
    (Pool.mapSlot header.name (some header) pool).content =
      Function.update pool.content header.name (some .empty) := by
  funext other
  rw [wf.mapSlot.content_eq]
  obtain ⟨slot, rest, free⟩ := List.exists_cons_of_ne_nil room
  have blank := wf.cleared slot (by rw [free]; exact List.mem_cons_self)
  rw [mapSlot_of_cons free]
  simp only [Std.ExtTreeMap.getElem?_insert, Std.LawfulEqCmp.compare_eq_iff_eq]
  by_cases same : header.name = other
  · subst same
    simp [blank.2]
  · rw [if_neg same, Function.update_of_ne (Ne.symm same), wf.content_eq]

end Slots

section Reopen

variable {pool : Pool} {dek : Dek}

@[simp] theorem reopen_dek : (pool.reopen dek).dek = dek := rfl
@[simp] theorem reopen_anchor : (pool.reopen dek).anchor = pool.anchor := rfl

theorem getElem?_reopen (name : FileName) : (pool.reopen dek).files[name]? =
    (pool.files[name]?).bind fun file =>
      if named name file then some (mounted dek name file) else none := by
  rw [reopen, mountedFiles, Std.ExtTreeMap.getElem?_filterMap']

theorem Wf.reopen : (pool.reopen dek).Wf := by
  refine ⟨?_, ?_, ?_⟩
  · intro name file found
    rw [getElem?_reopen] at found
    obtain ⟨old, _, kept⟩ := Option.bind_eq_some_iff.mp found
    split at kept
    · next carried => cases kept; exact carried
    · cases kept
  · intro name file found
    rw [getElem?_reopen] at found
    obtain ⟨old, _, kept⟩ := Option.bind_eq_some_iff.mp found
    split at kept
    · cases kept; rfl
    · cases kept
  · intro file member
    rw [List.eq_of_mem_replicate member]
    exact ⟨rfl, rfl⟩

/-- Acquiring the pool again changes no byte of a named file. -/
@[simp] theorem content_reopen : (pool.reopen dek).content = pool.content := by
  funext name
  rw [Wf.reopen.content_eq, getElem?_reopen, content]
  cases pool.files[name]? with
  | none => rfl
  | some file =>
      simp only [Option.bind_some]
      split <;> rfl

@[simp] theorem capacity_reopen : (pool.reopen dek).capacity = pool.capacity := by
  have mapped : (pool.mountedFiles dek).size ≤ pool.files.size := Std.ExtTreeMap.size_filterMap_le_size
  simp only [capacity, reopen, List.length_replicate]
  omega

end Reopen

end Pool

/-- `<db>#manifest`. -/
def manifestSuffix : FileName := ['#', 'm', 'a', 'n', 'i', 'f', 'e', 's', 't']

def manifestName (db : FileName) : FileName := db ++ manifestSuffix

def dbSuffix : FileName := ['.', 'd', 'b']

def endsWith (name suffix : FileName) : Bool := suffix.isSuffixOf name

end Freehold
