import Freehold.ExportRecovery
import Freehold.ImportAtomicity
import Freehold.JournalReplay

set_option autoImplicit false

/- The pool on the handles of its slots and the header bytes behind them. -/
namespace Freehold.PoolSlots

open CrashLogic Cursor
open DeviceCert (strBytes)

abbrev headerFlagsSize : Nat := 4
abbrev headerCorpusSize : Nat := headerMaxFilenameSize + headerFlagsSize
abbrev headerOffsetFlags : Nat := headerMaxFilenameSize

def sqliteOpenDeleteOnClose : UInt32 := 0x8
def sqliteOpenMainDb : UInt32 := 0x100
def sqliteOpenMainJournal : UInt32 := 0x800
def sqliteOpenSuperJournal : UInt32 := 0x4000
def sqliteOpenWal : UInt32 := 0x80000

def persistentFileTypes : UInt32 :=
  sqliteOpenMainDb ||| sqliteOpenMainJournal ||| sqliteOpenSuperJournal ||| sqliteOpenWal

/-- The opaque name of a slot's file in the directory. -/
abbrev Handle := Nat

/-- The bytes of a header. -/
abbrev Header := Vector UInt8 headerCorpusSize

/-- What the file of a slot holds. -/
structure SlotFile where
  header : Header
  data : Region

/-- A pool: the map and the free slots in memory, the last one pushed first, and the files of the
directory. -/
structure Slots where
  dek : Dek
  files : Std.ExtTreeMap FileName Handle
  available : List Handle
  handles : List Handle
  disk : Handle → SlotFile
  anchor : AnchorFile

abbrev SlotM (α : Type) := Prog Slots OpfsSAHError α

/-- The header buffer with a name, filled up with zeros, and the flags behind it. -/
def headerOf (name : List UInt8) (flags : UInt32) : Header :=
  let buffer := name.take headerMaxFilenameSize ++
    List.replicate (headerMaxFilenameSize - name.length) 0 ++ toBe32 flags.toNat
  Vector.ofFn fun i => buffer.getD i 0

def storedFlags (header : Header) : UInt32 := UInt32.ofNat (be32 header.toList headerOffsetFlags)

/-- Whether a file with these flags goes when the pool is closed. -/
def transient (flags : UInt32) : Bool :=
  flags &&& sqliteOpenDeleteOnClose != 0 || flags &&& persistentFileTypes == 0

/-- `get_associated_filename`; the slots it truncates are cleared by its caller. -/
def getAssociatedFilename (header : Header) : Option FileName :=
  if header[0] ≠ 0 ∧ transient (storedFlags header) then none
  else
    let nameLength := (header.toList.findIdx? fun byte => byte = 0).getD 0
    if nameLength = 0 then none
    else (fromUtf8 (header.toList.take nameLength)).map fun name => name.toList

namespace Slots

def writeHeader (h : Handle) (header : Header) (s : Slots) : Slots :=
  { s with disk := Function.update s.disk h { s.disk h with header := header } }

def setData (h : Handle) (data : Region) (s : Slots) : Slots :=
  { s with disk := Function.update s.disk h { s.disk h with data := data } }

/-- `set_associated_filename`. -/
def setAssociatedFilename (h : Handle) (filename : Option FileName) (flags : UInt32) : SlotM Unit :=
  match filename with
  | some name =>
      if name = [] then Prog.fail (.generic "Filename is empty")
      else if headerMaxFilenameSize ≤ byteLen name + 1 then
        let shown := String.ofList name
        Prog.fail (.generic s!"Filename too long: {shown}")
      else Prog.effect (writeHeader h (headerOf (strBytes name) flags))
  | none => do
      Prog.effect (setData h .empty)
      Prog.effect (writeHeader h (headerOf [] flags))

/-- `delete_file`. -/
def deleteFile (name : FileName) : SlotM Bool := do
  let s ← Prog.get
  match s.files[name]? with
  | some h => do
      Prog.modify fun s => { s with files := s.files.erase name, available := h :: s.available }
      setAssociatedFilename h none 0
      return true
  | none => return false

/-- `with_new_file`, where `fill` is what the closure makes of the data region. -/
def withNewFile (name : FileName) (flags : UInt32) (fill : Region → Region) : SlotM Unit := do
  let s ← Prog.get
  if s.files.contains name then
    let shown := String.ofList name
    Prog.fail (.generic s!"{shown} file already exists")
  else
    match s.available with
    | [] => Prog.fail (.generic "No files available in the pool")
    | h :: rest => do
        Prog.modify fun s => { s with files := s.files.insert name h, available := rest }
        setAssociatedFilename h (some name) flags
        Prog.effect fun s => setData h (fill (s.disk h).data) s

/-- `import_ciphertext_file`. -/
def importCiphertextFile (name : FileName) (ciphertext : Region) : SlotM Unit := do
  Prog.attempt (deleteFile name)
  withNewFile name sqliteOpenMainDb fun _ => ciphertext

/-- `import_files`. -/
def importFiles (files : BundleFiles) : SlotM Unit :=
  match files.find? fun file => !validPoolFilename file.1 with
  | some file =>
      let shown := (String.ofList file.1).quote
      Prog.fail (.generic s!"bundle: illegal file name {shown}")
  | none => Prog.forEach (fun file => importCiphertextFile file.1 file.2) files

/-- What reading the pool needs of it: a mapped slot as the file that is read. -/
def view (s : Slots) : Pool where
  dek := s.dek
  files := s.files.map fun name h =>
    { Pool.pooled s.dek with data := (s.disk h).data, fileId := fileIdFor name }
  available := []
  anchor := s.anchor
  dbs := ∅

/-- One database of `stage_rotation`. -/
def stageDb (newDek : Dek) (db : FileName) : SlotM Unit := do
  let s ← Prog.get
  let files ← Prog.ofExcept (Pool.resealDbCiphertext db newDek s.view)
  Prog.forEach (fun file => importCiphertextFile (shadowName file.1) file.2) files

/-- `stage_rotation`. -/
def stageRotation (newDek : Dek) (dbNames : List FileName) (oldGen newGen : Nat) : SlotM Unit := do
  Prog.forEach (stageDb newDek) dbNames
  let s ← Prog.get
  let plain ← Prog.ofExcept
    (encodeRotationIntent oldGen newGen dbNames (anchorLoad s.dek s.anchor).2)
  importCiphertextFile rotIntentName
    (.intent (.sealed (.rotateIntentKey newDek) .rotateIntent plain))

/-- One file of the roll-forward. -/
def adoptShadow (name : FileName) : SlotM Unit := do
  let s ← Prog.get
  let sname := shadowName name
  if s.files.contains sname then
    let bytes ← Prog.ofExcept (s.view.exportRaw sname)
    importCiphertextFile name bytes
    Prog.attempt (deleteFile sname)
  else
    return ()

/-- `anchor_record_full` of a carried window. -/
def carryAnchor (e : AnchorEntry) : SlotM Unit :=
  Prog.zoom view (fun pool s => { s with anchor := pool.anchor }) id (Pool.carryAnchor e)

/-- `discard_rotation_staging`. -/
def discardRotationStaging (order : IterOrder) : SlotM Unit := do
  let s ← Prog.get
  let stale := (order.list s.files.keys).filter fun name => isStaging name
  Prog.forEach (fun name => Prog.attempt (deleteFile name)) stale

/-- `recover_rotation`. -/
def recoverRotation (order : IterOrder) : SlotM (Option String) := do
  let s ← Prog.get
  if s.files.contains rotIntentName then
    let sealed ← Prog.ofExcept (s.view.exportRaw rotIntentName)
    match sealed.openIntent (.rotateIntentKey s.dek) with
    | some plain => do
        Prog.forEach (fun db => Prog.forEach adoptShadow [db, manifestName db]) plain.dbNames
        Prog.forEach carryAnchor plain.anchors.entries
        Prog.attempt (deleteFile rotIntentName)
        let dbs := plain.dbNames.length
        let anchors := plain.anchors.entries.length
        return some s!"rotation rolled FORWARD ({dbs} db, {anchors} anchor)"
    | none => do
        discardRotationStaging order
        return some "rotation rolled BACK (pre-commit crash)"
  else
    return none

/-- One entry of the directory in `acquire_access_handles`. -/
def acquireEntry (clearFiles : Bool) (s : Slots) (h : Handle) : Slots :=
  match if clearFiles then none else getAssociatedFilename (s.disk h).header with
  | some name => { s with files := s.files.insert name h }
  | none => { writeHeader h (headerOf [] 0) (setData h .empty s) with available := h :: s.available }

/-- `release_access_handles`, and `acquire_access_handles` on the entries as the directory lists
them. -/
def reacquire (dek : Dek) (entries : List Handle) (clearFiles : Bool) (s : Slots) : Slots :=
  entries.foldl (acquireEntry clearFiles) { s with dek := dek, files := ∅, available := [] }

/-- A new pool whose slots are all free. -/
def fresh (dek : Dek) (handles : List Handle) : Slots where
  dek := dek
  files := ∅
  available := handles
  handles := handles
  disk _ := ⟨headerOf [] 0, .empty⟩
  anchor := .blank

end Slots

section Headers

variable {name : FileName} {bytes : List UInt8} {flags : UInt32}

/-- A name that a header gives back: not empty, not too long, and without the terminator. -/
def Storable (name : FileName) : Prop := Fits name ∧ Char.ofNat 0 ∉ name

instance : DecidablePred Storable := fun _ => inferInstanceAs (Decidable (_ ∧ _))

/-- Only the character zero has a zero byte in UTF-8. -/
theorem zero_of_utf8EncodeChar {c : Char} (zero : 0 ∈ String.utf8EncodeChar c) : c = Char.ofNat 0 := by
  have small : ∀ n : Nat, (0 : UInt8) = UInt8.ofNat n → n % 256 = 0 := by
    intro n same
    have value := congrArg UInt8.toNat same
    rw [UInt8.toNat_ofNat'] at value
    exact value.symm
  have single : c.val.toNat ≤ 127 ∧ (0 : UInt8) = UInt8.ofNat c.val.toNat := by
    unfold String.utf8EncodeChar at zero
    dsimp only at zero
    split at zero
    · next ascii => exact ⟨ascii, List.mem_singleton.mp zero⟩
    · exfalso
      split at zero
      · simp only [List.mem_cons, List.not_mem_nil, or_false] at zero
        rcases zero with lead | tail
        · have value := small _ lead
          omega
        · have value := small _ tail
          omega
      · split at zero
        · simp only [List.mem_cons, List.not_mem_nil, or_false] at zero
          rcases zero with lead | tail | tail <;> have value := small _ ‹_› <;> omega
        · simp only [List.mem_cons, List.not_mem_nil, or_false] at zero
          rcases zero with lead | tail | tail | tail <;> have value := small _ ‹_› <;> omega
  have value := small _ single.2
  have code : c.val.toNat = 0 := by omega
  exact Char.ext (UInt32.toNat_inj.mp code)

theorem zero_notMem_strBytes (clean : Char.ofNat 0 ∉ name) : 0 ∉ strBytes name := by
  rw [strBytes, utf8Bytes_ofList, List.mem_flatMap]
  rintro ⟨c, member, zero⟩
  rw [zero_of_utf8EncodeChar zero] at member
  exact clean member

theorem toList_ofFn_getD {n : Nat} {l : List UInt8} (length : l.length = n) :
    (Vector.ofFn fun i : Fin n => l.getD i 0).toList = l := by
  subst length
  apply List.ext_getElem
  · exact Vector.length_toList
  · intro i _ inside
    rw [Vector.getElem_toList, Vector.getElem_ofFn, List.getD_eq_getElem _ _ inside]

theorem toList_headerOf (short : bytes.length ≤ headerMaxFilenameSize) (flags : UInt32) :
    (headerOf bytes flags).toList =
      bytes ++ List.replicate (headerMaxFilenameSize - bytes.length) 0 ++ toBe32 flags.toNat := by
  have bound : bytes.length ≤ 512 := short
  have length : (bytes ++ List.replicate (headerMaxFilenameSize - bytes.length) 0 ++
      toBe32 flags.toNat).length = headerCorpusSize := by
    rw [List.length_append, List.length_append, List.length_replicate, length_toBe32]
    show bytes.length + (512 - bytes.length) + 4 = 512 + 4
    omega
  rw [headerOf, List.take_of_length_le short]
  exact toList_ofFn_getD length

theorem storedFlags_headerOf (short : bytes.length ≤ headerMaxFilenameSize) :
    storedFlags (headerOf bytes flags) = flags := by
  have bound : bytes.length ≤ 512 := short
  have front : headerOffsetFlags =
      (bytes ++ List.replicate (headerMaxFilenameSize - bytes.length) 0).length := by
    rw [List.length_append, List.length_replicate]
    show 512 = bytes.length + (512 - bytes.length)
    omega
  have field := be32_middle (bytes ++ List.replicate (headerMaxFilenameSize - bytes.length) 0) []
    flags.toNat_lt front
  rw [List.append_nil] at field
  rw [storedFlags, toList_headerOf short, field, UInt32.ofNat_toNat]

/-- A header with a name gives it back, unless its flags say that the file does not stay. -/
theorem getAssociatedFilename_headerOf (storable : Storable name) (flags : UInt32) :
    getAssociatedFilename (headerOf (strBytes name) flags) =
      if transient flags then none else some name := by
  have length := length_strBytes name
  have short : byteLen name + 1 < 512 := storable.1.2
  have room : (strBytes name).length ≤ headerMaxFilenameSize := by
    show _ ≤ 512
    omega
  have clean := zero_notMem_strBytes storable.2
  -- The terminator is right behind the name.
  have stop : (headerOf (strBytes name) flags).toList.findIdx? (fun byte => byte = 0) =
      some (strBytes name).length := by
    rw [toList_headerOf room, List.append_assoc]
    obtain ⟨zeros, padded⟩ : ∃ zeros, headerMaxFilenameSize - (strBytes name).length = zeros + 1 :=
      ⟨511 - (strBytes name).length, by
        show 512 - _ = _
        omega⟩
    have none_before : (strBytes name).findIdx? (fun byte => byte = 0) = none := by
      rw [List.findIdx?_eq_none_iff]
      intro byte member
      simp only [decide_eq_false_iff_not]
      rintro rfl
      exact clean member
    rw [padded, List.replicate_succ, List.findIdx?_append, none_before, List.cons_append,
      List.findIdx?_cons]
    simp
  have positive : (strBytes name).length ≠ 0 := by
    obtain ⟨c, rest, rfl⟩ := List.exists_cons_of_ne_nil storable.1.1
    have wide := Char.utf8Size_pos c
    rw [length, byteLen, List.map_cons, List.sum_cons]
    omega
  have taken : (headerOf (strBytes name) flags).toList.take (strBytes name).length = strBytes name := by
    rw [toList_headerOf room, List.append_assoc, List.take_left]
  have first : (headerOf (strBytes name) flags)[0] ≠ 0 := by
    have inside : 0 < (strBytes name).length := Nat.pos_of_ne_zero positive
    have here : (headerOf (strBytes name) flags).toList[0]? = (strBytes name)[0]? := by
      rw [toList_headerOf room, List.append_assoc, List.getElem?_append_left inside]
    rw [List.getElem?_eq_getElem (by simp), List.getElem?_eq_getElem inside, Option.some.injEq,
      Vector.getElem_toList] at here
    rw [here]
    intro zero
    have member := List.getElem_mem inside
    rw [zero] at member
    exact clean member
  rw [getAssociatedFilename, storedFlags_headerOf room]
  dsimp only
  rw [stop, Option.getD_some, taken, if_neg positive]
  by_cases gone : transient flags = true
  · rw [if_pos ⟨first, gone⟩, if_pos gone]
  · rw [if_neg (fun both => gone both.2), if_neg gone, strBytes, fromUtf8_utf8Bytes]
    simp

/-- The header of a free slot names no file. -/
theorem getAssociatedFilename_blank : getAssociatedFilename (headerOf [] 0) = none := by
  decide +kernel

end Headers

/-- Every slot of the directory is free or stands for one name, and its header says which. -/
structure Slots.Conserved (s : Slots) : Prop where
  listed : s.handles.Nodup
  mapped : ∀ {name : FileName} {h : Handle}, s.files[name]? = some h → h ∈ s.handles
  free : ∀ {h : Handle}, h ∈ s.available → h ∈ s.handles
  covered : ∀ {h : Handle}, h ∈ s.handles → h ∈ s.available ∨ ∃ name : FileName, s.files[name]? = some h
  distinct : s.available.Nodup
  apart : ∀ {name : FileName} {h : Handle}, s.files[name]? = some h → h ∉ s.available
  single : ∀ {name other : FileName} {h : Handle}, s.files[name]? = some h → s.files[other]? = some h → name = other
  storable : ∀ {name : FileName} {h : Handle}, s.files[name]? = some h → Storable name
  named : ∀ {name : FileName} {h : Handle}, s.files[name]? = some h → ∃ flags,
    (s.disk h).header = headerOf (strBytes name) flags
  cleared : ∀ {h : Handle}, h ∈ s.available → (s.disk h).header = headerOf [] 0

namespace Slots

section Changes

variable {s : Slots} {name : FileName} {h : Handle} {rest : List Handle} {flags : UInt32}

/-- The slot of `name` cleared and free. -/
def freed (name : FileName) (h : Handle) (s : Slots) : Slots :=
  writeHeader h (headerOf [] 0)
    (setData h .empty { s with files := s.files.erase name, available := h :: s.available })

/-- The free slot `h` under `name`. -/
def taken (name : FileName) (flags : UInt32) (fill : Region → Region) (h : Handle) (rest : List Handle)
    (s : Slots) : Slots :=
  let mapped := writeHeader h (headerOf (strBytes name) flags)
    { s with files := s.files.insert name h, available := rest }
  setData h (fill (mapped.disk h).data) mapped

@[simp] theorem header_setData (other : Handle) (data : Region) :
    ((setData h data s).disk other).header = (s.disk other).header := by
  by_cases same : other = h
  · simp [setData, same]
  · simp [setData, same]

theorem header_writeHeader (other : Handle) (header : Header) :
    ((writeHeader h header s).disk other).header = if other = h then header else (s.disk other).header := by
  by_cases same : other = h
  · simp [writeHeader, same]
  · simp [writeHeader, same]

theorem header_freed (other : Handle) :
    ((freed name h s).disk other).header = if other = h then headerOf [] 0 else (s.disk other).header := by
  rw [freed, header_writeHeader, header_setData]

theorem header_taken {fill : Region → Region} (other : Handle) :
    ((taken name flags fill h rest s).disk other).header =
      if other = h then headerOf (strBytes name) flags else (s.disk other).header := by
  rw [taken, header_setData, header_writeHeader]

theorem getElem?_freed (other : FileName) :
    (freed name h s).files[other]? = if other = name then none else s.files[other]? := by
  show (s.files.erase name)[other]? = _
  simp only [Std.ExtTreeMap.getElem?_erase, Std.LawfulEqCmp.compare_eq_iff_eq, eq_comm (a := name)]

theorem getElem?_taken {fill : Region → Region} (other : FileName) :
    (taken name flags fill h rest s).files[other]? = if other = name then some h else s.files[other]? := by
  show (s.files.insert name h)[other]? = _
  simp only [Std.ExtTreeMap.getElem?_insert, Std.LawfulEqCmp.compare_eq_iff_eq, eq_comm (a := name)]

theorem Conserved.freed (conserved : s.Conserved) (found : s.files[name]? = some h) :
    (freed name h s).Conserved := by
  have kept : ∀ {other : FileName} {h' : Handle}, (Slots.freed name h s).files[other]? = some h' →
      s.files[other]? = some h' ∧ h' ≠ h := by
    intro other h' mapped
    rw [getElem?_freed] at mapped
    split at mapped
    · cases mapped
    · next different =>
        refine ⟨mapped, ?_⟩
        rintro rfl
        exact different (conserved.single mapped found)
  have back : ∀ {h' : Handle}, h' ∈ (Slots.freed name h s).available → h' = h ∨ h' ∈ s.available :=
    fun member => List.mem_cons.mp member
  constructor
  · exact conserved.listed
  · exact fun mapped => conserved.mapped (kept mapped).1
  · intro h' member
    rcases back member with rfl | old
    · exact conserved.mapped found
    · exact conserved.free old
  · intro h' listed
    rcases conserved.covered listed with free | ⟨other, mapped⟩
    · exact Or.inl (List.mem_cons_of_mem h free)
    · by_cases same : other = name
      · rw [same, found, Option.some.injEq] at mapped
        exact Or.inl (mapped ▸ List.mem_cons_self)
      · exact Or.inr ⟨other, by rw [getElem?_freed, if_neg same, mapped]⟩
  · exact List.nodup_cons.mpr ⟨conserved.apart found, conserved.distinct⟩
  · intro other h' mapped member
    exact (back member).elim (kept mapped).2 (conserved.apart (kept mapped).1)
  · exact fun first second => conserved.single (kept first).1 (kept second).1
  · exact fun mapped => conserved.storable (kept mapped).1
  · intro other h' mapped
    rw [header_freed, if_neg (kept mapped).2]
    exact conserved.named (kept mapped).1
  · intro h' member
    rw [header_freed]
    split
    · rfl
    · next different => exact conserved.cleared ((back member).resolve_left different)

theorem Conserved.taken {fill : Region → Region} (conserved : s.Conserved) (storable : Storable name)
    (absent : s.files[name]? = none) (room : s.available = h :: rest) :
    (taken name flags fill h rest s).Conserved := by
  have last : h ∈ s.available := by simp [room]
  have later : ∀ {h' : Handle}, h' ∈ rest → h' ∈ s.available ∧ h' ≠ h := by
    intro h' member
    have nodup := conserved.distinct
    rw [room, List.nodup_cons] at nodup
    refine ⟨by simp [room, member], ?_⟩
    rintro rfl
    exact nodup.1 member
  have cases_of : ∀ {other : FileName} {h' : Handle}, (Slots.taken name flags fill h rest s).files[other]? = some h' →
      other = name ∧ h' = h ∨ other ≠ name ∧ s.files[other]? = some h' ∧ h' ≠ h := by
    intro other h' mapped
    rw [getElem?_taken] at mapped
    split at mapped
    · next same =>
        cases mapped
        exact Or.inl ⟨same, rfl⟩
    · next different =>
        refine Or.inr ⟨different, mapped, ?_⟩
        rintro rfl
        exact conserved.apart mapped last
  constructor
  · exact conserved.listed
  · intro other h' mapped
    rcases cases_of mapped with ⟨_, rfl⟩ | ⟨_, old, _⟩
    · exact conserved.free last
    · exact conserved.mapped old
  · exact fun member => conserved.free (later member).1
  · intro h' listed
    rcases conserved.covered listed with free | ⟨other, mapped⟩
    · rw [room] at free
      rcases List.mem_cons.mp free with rfl | old
      · exact Or.inr ⟨name, by rw [getElem?_taken, if_pos rfl]⟩
      · exact Or.inl old
    · have different : other ≠ name := by
        rintro rfl
        rw [absent] at mapped
        cases mapped
      exact Or.inr ⟨other, by rw [getElem?_taken, if_neg different, mapped]⟩
  · have nodup := conserved.distinct
    rw [room] at nodup
    exact (List.nodup_cons.mp nodup).2
  · intro other h' mapped member
    rcases cases_of mapped with ⟨_, rfl⟩ | ⟨_, old, _⟩
    · exact (later member).2 rfl
    · exact conserved.apart old (later member).1
  · intro other other' h' first second
    rcases cases_of first with ⟨same, rfl⟩ | ⟨_, old, different⟩
    · rcases cases_of second with ⟨same', _⟩ | ⟨_, _, different⟩
      · rw [same, same']
      · exact absurd rfl different
    · rcases cases_of second with ⟨_, same⟩ | ⟨_, old', _⟩
      · exact absurd same different
      · exact conserved.single old old'
  · intro other h' mapped
    rcases cases_of mapped with ⟨rfl, _⟩ | ⟨_, old, _⟩
    · exact storable
    · exact conserved.storable old
  · intro other h' mapped
    rw [header_taken]
    rcases cases_of mapped with ⟨rfl, rfl⟩ | ⟨_, old, different⟩
    · exact ⟨flags, if_pos rfl⟩
    · rw [if_neg different]
      exact conserved.named old
  · intro h' member
    rw [header_taken, if_neg (later member).2]
    exact conserved.cleared (later member).1

end Changes

section Acquire

variable {s t : Slots} {dek : Dek} {clearFiles : Bool} {done : List Handle}

/-- The pool in the middle of being acquired, `done` being the entries that were seen. -/
structure Acquired (s : Slots) (clearFiles : Bool) (done : List Handle) (t : Slots) : Prop where
  handles : t.handles = s.handles
  files : ∀ (name : FileName) (h : Handle), t.files[name]? = some h ↔
    h ∈ done ∧ clearFiles = false ∧ getAssociatedFilename (s.disk h).header = some name
  available : ∀ h, h ∈ t.available ↔
    h ∈ done ∧ (clearFiles = true ∨ getAssociatedFilename (s.disk h).header = none)
  distinct : t.available.Nodup
  cleared : ∀ h ∈ t.available, (t.disk h).header = headerOf [] 0
  kept : ∀ h, h ∉ t.available → (t.disk h).header = (s.disk h).header

/-- No name stands in two headers. -/
def Unambiguous (s : Slots) : Prop := ∀ (h h' : Handle) (name : FileName), h ∈ s.handles → h' ∈ s.handles →
  getAssociatedFilename (s.disk h).header = some name →
  getAssociatedFilename (s.disk h').header = some name → h = h'

theorem Acquired.mapEntry {h : Handle} {name : FileName} (unambiguous : s.Unambiguous)
    (acquired : Acquired s false done t) (listed : h ∈ s.handles) (seen : ∀ h' ∈ done, h' ∈ s.handles)
    (named : getAssociatedFilename (s.disk h).header = some name) :
    Acquired s false (h :: done) { t with files := t.files.insert name h } := by
  have solid : ¬(false = true ∨ getAssociatedFilename (s.disk h).header = none) := by simp [named]
  constructor
  · exact acquired.handles
  · intro other h'
    have entry : (t.files.insert name h)[other]? = if name = other then some h else t.files[other]? := by
      simp only [Std.ExtTreeMap.getElem?_insert, Std.LawfulEqCmp.compare_eq_iff_eq]
    rw [entry, List.mem_cons]
    by_cases same : name = other
    · subst same
      rw [if_pos rfl, Option.some.injEq]
      constructor
      · rintro rfl
        exact ⟨Or.inl rfl, rfl, named⟩
      · rintro ⟨rfl | old, -, carried⟩
        · rfl
        · exact unambiguous h h' name listed (seen h' old) named carried
    · rw [if_neg same, acquired.files]
      constructor
      · rintro ⟨old, rest⟩
        exact ⟨Or.inr old, rest⟩
      · rintro ⟨rfl | old, clears, carried⟩
        · rw [named, Option.some.injEq] at carried
          exact absurd carried same
        · exact ⟨old, clears, carried⟩
  · intro h'
    show h' ∈ t.available ↔ _
    rw [acquired.available, List.mem_cons]
    constructor
    · rintro ⟨old, rest⟩
      exact ⟨Or.inr old, rest⟩
    · rintro ⟨rfl | old, rest⟩
      · exact absurd rest solid
      · exact ⟨old, rest⟩
  · exact acquired.distinct
  · exact acquired.cleared
  · exact acquired.kept

theorem Acquired.clearEntry {h : Handle} (acquired : Acquired s clearFiles done t) (fresh : h ∉ done)
    (free : clearFiles = true ∨ getAssociatedFilename (s.disk h).header = none) :
    Acquired s clearFiles (h :: done)
      { writeHeader h (headerOf [] 0) (setData h .empty t) with available := h :: t.available } := by
  have unseen : h ∉ t.available := fun member => fresh ((acquired.available h).mp member).1
  have headers : ∀ h', ((writeHeader h (headerOf [] 0) (setData h .empty t)).disk h').header =
      if h' = h then headerOf [] 0 else (t.disk h').header := by
    intro h'
    rw [header_writeHeader, header_setData]
  constructor
  · exact acquired.handles
  · intro name h'
    show t.files[name]? = some h' ↔ _
    rw [acquired.files, List.mem_cons]
    constructor
    · rintro ⟨old, rest⟩
      exact ⟨Or.inr old, rest⟩
    · rintro ⟨rfl | old, clears, carried⟩
      · simp [clears, carried] at free
      · exact ⟨old, clears, carried⟩
  · intro h'
    show h' ∈ h :: t.available ↔ _
    rw [List.mem_cons, acquired.available, List.mem_cons]
    constructor
    · rintro (rfl | ⟨old, rest⟩)
      · exact ⟨Or.inl rfl, free⟩
      · exact ⟨Or.inr old, rest⟩
    · rintro ⟨rfl | old, rest⟩
      · exact Or.inl rfl
      · exact Or.inr ⟨old, rest⟩
  · exact List.nodup_cons.mpr ⟨unseen, acquired.distinct⟩
  · intro h' member
    refine (headers h').trans ?_
    split
    · rfl
    · next different => exact acquired.cleared h' ((List.mem_cons.mp member).resolve_left different)
  · intro h' outside
    have apart := not_or.mp (mt List.mem_cons.mpr outside)
    refine (headers h').trans ?_
    rw [if_neg apart.1]
    exact acquired.kept h' apart.2

/-- One entry more. -/
theorem Acquired.entry {h : Handle} (unambiguous : s.Unambiguous) (acquired : Acquired s clearFiles done t)
    (listed : h ∈ s.handles) (seen : ∀ h' ∈ done, h' ∈ s.handles) (fresh : h ∉ done) :
    Acquired s clearFiles (h :: done) (acquireEntry clearFiles t h) := by
  have unseen : h ∉ t.available := fun member => fresh ((acquired.available h).mp member).1
  rw [acquireEntry, acquired.kept h unseen]
  cases clearFiles with
  | true => exact acquired.clearEntry fresh (Or.inl rfl)
  | false =>
      cases named : getAssociatedFilename (s.disk h).header with
      | some name => exact acquired.mapEntry unambiguous listed seen named
      | none => exact acquired.clearEntry fresh (Or.inr named)

theorem Acquired.entries (unambiguous : s.Unambiguous) {entries : List Handle}
    (acquired : Acquired s clearFiles done t) (nodup : entries.Nodup) (apart : ∀ h ∈ entries, h ∉ done)
    (listed : ∀ h ∈ entries, h ∈ s.handles) (seen : ∀ h ∈ done, h ∈ s.handles) :
    Acquired s clearFiles (entries.reverse ++ done) (entries.foldl (acquireEntry clearFiles) t) := by
  induction entries generalizing done t with
  | nil => exact acquired
  | cons h rest ih =>
      have here := acquired.entry unambiguous (listed h List.mem_cons_self) seen (apart h List.mem_cons_self)
      rw [List.nodup_cons] at nodup
      rw [List.reverse_cons, List.append_assoc]
      apply ih here nodup.2
      · intro h' member
        rw [List.mem_cons, not_or]
        refine ⟨?_, apart h' (List.mem_cons_of_mem h member)⟩
        rintro rfl
        exact nodup.1 member
      · exact fun h' member => listed h' (List.mem_cons_of_mem h member)
      · intro h' member
        rcases List.mem_cons.mp member with rfl | old
        · exact listed h' List.mem_cons_self
        · exact seen h' old

/-- Acquiring a directory maps the slots whose headers name a file and frees the others. -/
theorem acquired_reacquire (unambiguous : s.Unambiguous) {entries : List Handle}
    (order : entries.Perm s.handles) (nodup : s.handles.Nodup) :
    Acquired s clearFiles entries.reverse (reacquire dek entries clearFiles s) := by
  have start : Acquired s clearFiles [] { s with dek := dek, files := ∅, available := [] } := by
    constructor
    · rfl
    · simp
    · simp
    · exact List.nodup_nil
    · intro h member
      cases member
    · exact fun h _ => rfl
  have done := start.entries unambiguous (order.nodup_iff.mpr nodup) (fun h _ member => (nomatch member))
    (fun h member => order.mem_iff.mp member) (fun h member => (nomatch member))
  rwa [List.append_nil] at done

end Acquire

section Decoding

variable {s : Slots} {name : FileName} {h : Handle}

theorem length_of_storable (storable : Storable name) : (strBytes name).length ≤ headerMaxFilenameSize := by
  have length := length_strBytes name
  have fits : byteLen name + 1 < 512 := storable.1.2
  show _ ≤ 512
  omega

/-- A mapped slot is found again under its name, unless its flags say that it does not stay. -/
theorem Conserved.decode (conserved : s.Conserved) (mapped : s.files[name]? = some h) :
    getAssociatedFilename (s.disk h).header =
      if transient (storedFlags (s.disk h).header) then none else some name := by
  have storable := conserved.storable mapped
  obtain ⟨flags, header⟩ := conserved.named mapped
  rw [header, storedFlags_headerOf (length_of_storable storable), getAssociatedFilename_headerOf storable]

theorem Conserved.decode_free (conserved : s.Conserved) (free : h ∈ s.available) :
    getAssociatedFilename (s.disk h).header = none := by
  rw [conserved.cleared free, getAssociatedFilename_blank]

/-- A name in a header is the one its slot is mapped to. -/
theorem Conserved.decode_iff (conserved : s.Conserved) (listed : h ∈ s.handles) :
    getAssociatedFilename (s.disk h).header = some name ↔
      s.files[name]? = some h ∧ transient (storedFlags (s.disk h).header) = false := by
  constructor
  · intro carried
    rcases conserved.covered listed with free | ⟨other, mapped⟩
    · rw [conserved.decode_free free] at carried
      cases carried
    · rw [conserved.decode mapped] at carried
      split at carried
      · cases carried
      · next stays =>
          cases carried
          exact ⟨mapped, by simpa using stays⟩
  · rintro ⟨mapped, stays⟩
    rw [conserved.decode mapped, stays]
    rfl

theorem Conserved.unambiguous (conserved : s.Conserved) : s.Unambiguous := by
  intro h h' name listed listed' carried carried'
  have first := ((conserved.decode_iff listed).mp carried).1
  have second := ((conserved.decode_iff listed').mp carried').1
  rw [first, Option.some.injEq] at second
  exact second

variable {dek : Dek} {entries : List Handle} {clearFiles : Bool}

/-- In whatever order the directory lists them, the slots that stay are mapped as they were. -/
theorem Conserved.files_reacquire (conserved : s.Conserved) (order : entries.Perm s.handles)
    (name : FileName) : (reacquire dek entries false s).files[name]? =
      (s.files[name]?).filter fun h => !transient (storedFlags (s.disk h).header) := by
  have acquired : Acquired s false entries.reverse (reacquire dek entries false s) :=
    acquired_reacquire conserved.unambiguous order conserved.listed
  apply Option.ext
  intro h
  rw [acquired.files, List.mem_reverse, order.mem_iff, Option.filter_eq_some_iff, Bool.not_eq_true']
  constructor
  · rintro ⟨listed, -, carried⟩
    exact (conserved.decode_iff listed).mp carried
  · rintro ⟨mapped, stays⟩
    have listed := conserved.mapped mapped
    exact ⟨listed, rfl, (conserved.decode_iff listed).mpr ⟨mapped, stays⟩⟩

theorem Conserved.reacquire (conserved : s.Conserved) (order : entries.Perm s.handles) :
    (reacquire dek entries clearFiles s).Conserved := by
  have acquired : Acquired s clearFiles entries.reverse (Slots.reacquire dek entries clearFiles s) :=
    acquired_reacquire conserved.unambiguous order conserved.listed
  have listed : ∀ {h}, h ∈ entries.reverse ↔ h ∈ s.handles := by
    intro h
    rw [List.mem_reverse, order.mem_iff]
  have old : ∀ {name : FileName} {h : Handle},
      (Slots.reacquire dek entries clearFiles s).files[name]? = some h →
      h ∈ s.handles ∧ s.files[name]? = some h ∧ h ∉ (Slots.reacquire dek entries clearFiles s).available := by
    intro name h mapped
    obtain ⟨member, stays, carried⟩ := (acquired.files name h).mp mapped
    have present := listed.mp member
    refine ⟨present, ((conserved.decode_iff present).mp carried).1, ?_⟩
    intro free
    have cleared := ((acquired.available h).mp free).2
    simp [stays, carried] at cleared
  constructor
  · rw [acquired.handles]
    exact conserved.listed
  · intro name h mapped
    rw [acquired.handles]
    exact (old mapped).1
  · intro h free
    rw [acquired.handles]
    exact listed.mp ((acquired.available h).mp free).1
  · intro h present
    rw [acquired.handles] at present
    rw [acquired.available, listed]
    cases clearFiles with
    | true => exact Or.inl ⟨present, Or.inl rfl⟩
    | false =>
        cases carried : getAssociatedFilename (s.disk h).header with
        | none => exact Or.inl ⟨present, Or.inr rfl⟩
        | some name => exact Or.inr ⟨name, (acquired.files name h).mpr ⟨listed.mpr present, rfl, carried⟩⟩
  · exact acquired.distinct
  · exact fun mapped => (old mapped).2.2
  · exact fun first second => conserved.single (old first).2.1 (old second).2.1
  · exact fun mapped => conserved.storable (old mapped).2.1
  · intro name h mapped
    rw [acquired.kept h (old mapped).2.2]
    exact conserved.named (old mapped).2.1
  · exact fun free => acquired.cleared _ free

end Decoding

section Programs

variable {s : Slots} {name : FileName} {flags : UInt32} {fill : Region → Region}

/-- All that `delete_file` can do. -/
theorem deleteFile_cases (name : FileName) (s : Slots) :
    (s.files[name]? = none ∧ deleteFile name s = ⟨[], s, .ok false⟩) ∨
      ∃ h passed, s.files[name]? = some h ∧ deleteFile name s = ⟨passed, freed name h s, .ok true⟩ := by
  cases found : s.files[name]? with
  | none =>
      refine Or.inl ⟨rfl, ?_⟩
      rw [deleteFile, Prog.get_bind, found]
      rfl
  | some h =>
      refine Or.inr ⟨h, ?passed, rfl, ?_⟩
      rotate_left
      rw [deleteFile, Prog.get_bind, found]
      rfl

/-- All that `with_new_file` can do with a name that can be stored. -/
theorem withNewFile_cases (storable : s.files.contains name = true ∨ s.available = [] ∨ Storable name)
    (flags : UInt32) (fill : Region → Region) :
    (∃ e, (s.files.contains name = true ∨ s.available = []) ∧
        withNewFile name flags fill s = ⟨[], s, .error e⟩) ∨
      ∃ h rest passed, s.files[name]? = none ∧ s.available = h :: rest ∧ Storable name ∧
        withNewFile name flags fill s = ⟨passed, taken name flags fill h rest s, .ok ()⟩ := by
  by_cases present : s.files.contains name = true
  · left
    rw [withNewFile, Prog.get_bind, if_pos present]
    exact ⟨_, Or.inl present, rfl⟩
  · have absent : s.files[name]? = none := by
      rwa [Std.ExtTreeMap.contains_iff_mem, Std.ExtTreeMap.mem_iff_isSome_getElem?,
        Option.not_isSome_iff_eq_none] at present
    cases room : s.available with
    | nil =>
        left
        rw [withNewFile, Prog.get_bind, if_neg present, room]
        exact ⟨_, Or.inr rfl, rfl⟩
    | cons h rest =>
        right
        have stored := (storable.resolve_left present).resolve_left (by simp [room])
        refine ⟨h, rest, ?passed, absent, rfl, stored, ?_⟩
        rotate_left
        rw [withNewFile, Prog.get_bind, if_neg present, room]
        dsimp only
        rw [setAssociatedFilename]
        dsimp only
        rw [if_neg stored.1.1, if_neg (Nat.not_le_of_lt stored.1.2)]
        rfl

/-- A conserved pool with these slots. -/
def Over (handles : List Handle) (s : Slots) : Prop := s.Conserved ∧ s.handles = handles

/-- However it ends, the program leaves a conserved pool with the same slots. -/
def Ends {α : Type} (program : SlotM α) : Prop := ∀ handles s, Over handles s →
  (program s).Meets (fun _ => True) (fun _ => Over handles) fun _ => Over handles

theorem ends_deleteFile (name : FileName) : Ends (deleteFile name) := by
  intro handles s held
  rcases deleteFile_cases name s with ⟨_, ran⟩ | ⟨h, passed, found, ran⟩
  · rw [ran]
    exact ⟨fun _ _ => trivial, held⟩
  · rw [ran]
    exact ⟨fun _ _ => trivial, held.1.freed found, held.2⟩

/-- An error leaves the pool as it was. -/
theorem meets_withNewFile {handles : List Handle} (held : Over handles s)
    (storable : s.files.contains name = true ∨ s.available = [] ∨ Storable name) :
    (withNewFile name flags fill s).Meets (fun _ => True) (fun _ => Over handles) fun _ t => t = s := by
  rcases withNewFile_cases storable flags fill with ⟨e, _, ran⟩ | ⟨h, rest, passed, absent, room, stored, ran⟩
  · rw [ran]
    exact ⟨fun _ _ => trivial, rfl⟩
  · rw [ran]
    exact ⟨fun _ _ => trivial, held.1.taken stored absent room, held.2⟩

theorem meets_importCiphertextFile {handles : List Handle} {ciphertext : Region} (held : Over handles s)
    (storable : s.files.contains name = true ∨ s.available = [] ∨ Storable name) :
    (importCiphertextFile name ciphertext s).Meets (fun _ => True) (fun _ => Over handles) fun _ t => t = s := by
  rcases deleteFile_cases name s with ⟨_, ran⟩ | ⟨h, passed, found, ran⟩
  · have attempted : Prog.attempt (deleteFile name) s = ⟨[], s, .ok ()⟩ := by rw [Prog.attempt, ran]
    apply meets_bind (fun _ t => t = s)
    · rw [attempted]
      exact ⟨fun _ _ => trivial, rfl⟩
    · rintro _ t rfl
      exact meets_withNewFile held storable
  · -- The slot that was freed is there for the new file.
    have attempted : Prog.attempt (deleteFile name) s = ⟨passed, freed name h s, .ok ()⟩ := by
      rw [Prog.attempt, ran]
    have stored := held.1.storable found
    rcases withNewFile_cases (s := freed name h s) (Or.inr (Or.inr stored)) sqliteOpenMainDb
      (fun _ => ciphertext) with ⟨e, full, failed⟩ | ⟨h', rest, passed', absent, room, _, ran'⟩
    · have absent : (freed name h s).files[name]? = none := by rw [getElem?_freed, if_pos rfl]
      rcases full with present | empty
      · rw [Std.ExtTreeMap.contains_iff_mem, Std.ExtTreeMap.mem_iff_isSome_getElem?, absent] at present
        cases present
      · cases empty
    · rw [importCiphertextFile, Prog.bind_of_ok attempted, ran']
      have conserved : (taken name sqliteOpenMainDb (fun _ => ciphertext) h' rest (freed name h s)).Conserved :=
        (held.1.freed found).taken stored absent room
      exact ⟨fun _ _ => trivial, conserved, held.2⟩

theorem ends_importCiphertextFile {ciphertext : Region} (storable : Storable name) :
    Ends (importCiphertextFile name ciphertext) := by
  intro handles s held
  apply (meets_importCiphertextFile held (Or.inr (Or.inr storable))).mono (fun _ kept => kept)
    (fun _ _ kept => kept)
  rintro _ t rfl
  exact held

theorem ends_forEach {β : Type} {body : β → SlotM Unit} {items : List β}
    (each : ∀ item ∈ items, Ends (body item)) : Ends (Prog.forEach body items) := by
  induction items with
  | nil => exact fun handles s held => ⟨fun _ member => (nomatch member), held⟩
  | cons item rest ih =>
      intro handles s held
      apply meets_bind _ (each item List.mem_cons_self handles s held)
      intro _ t kept
      exact ih (fun other member => each other (List.mem_cons_of_mem _ member)) handles t kept

theorem ends_attempt {α : Type} {program : SlotM α} (ends : Ends program) : Ends (Prog.attempt program) :=
  fun handles s held => meets_attempt (ends handles s held)

/-- The names that are imported can be stored. -/
theorem storable_of_valid (valid : validPoolFilename name = true) : Storable name := by
  refine ⟨fits_of_valid valid, ?_⟩
  have ends : Char.ofNat 0 ∉ dbSuffix ∧ Char.ofNat 0 ∉ manifestSuffix := by decide
  unfold validPoolFilename at valid
  cases based : stripSuffix ((stripSuffix name manifestSuffix).getD name) dbSuffix with
  | none => simp only [based, Bool.false_eq_true] at valid
  | some base =>
      have core := stripSuffix_eq_some based
      simp only [based, Bool.and_eq_true, List.all_eq_true] at valid
      have clean : Char.ofNat 0 ∉ base := fun member => absurd (valid.2 _ member) (by decide)
      have inner : Char.ofNat 0 ∉ (stripSuffix name manifestSuffix).getD name := by
        rw [core, List.mem_append, not_or]
        exact ⟨clean, ends.1⟩
      cases stripped : stripSuffix name manifestSuffix with
      | none => rwa [stripped, Option.getD_none] at inner
      | some db =>
          rw [stripped, Option.getD_some] at inner
          rw [stripSuffix_eq_some stripped, List.mem_append, not_or]
          exact ⟨inner, ends.2⟩

theorem ends_importFiles (files : BundleFiles) : Ends (importFiles files) := by
  intro handles s held
  cases illegal : files.find? fun file => !validPoolFilename file.1 with
  | some file =>
      rw [importFiles, illegal]
      exact ⟨fun _ member => (nomatch member), held⟩
  | none =>
      rw [importFiles, illegal]
      apply ends_forEach _ handles s held
      intro file member
      apply ends_importCiphertextFile
      have legal := List.find?_eq_none.mp illegal file member
      rw [Bool.not_eq_true', Bool.not_eq_false] at legal
      exact storable_of_valid legal

/-- What stands in front of a suffix can be stored if the whole can, unless it is empty. -/
theorem storable_of_append {suffix : FileName} (storable : Storable (name ++ suffix)) (some_chars : name ≠ []) :
    Storable name := by
  have short : byteLen (name ++ suffix) + 1 < 512 := storable.1.2
  rw [byteLen_append] at short
  refine ⟨⟨some_chars, ?_⟩, fun member => storable.2 (List.mem_append_left _ member)⟩
  show byteLen name + 1 < 512
  omega

theorem storable_shadow {db : FileName} (storable : Storable (shadowName (manifestName db)))
    (named : name = db ∨ name = manifestName db) : Storable (shadowName name) := by
  rcases named with rfl | rfl
  · have short : byteLen (name ++ manifestSuffix ++ rotShadowSuffix) + 1 < 512 := storable.1.2
    have clean : Char.ofNat 0 ∉ name ++ manifestSuffix ++ rotShadowSuffix := storable.2
    rw [byteLen_append, byteLen_append] at short
    refine ⟨⟨by simp [shadowName, rotShadowSuffix], ?_⟩, ?_⟩
    · show byteLen (name ++ rotShadowSuffix) + 1 < 512
      rw [byteLen_append]
      omega
    · show Char.ofNat 0 ∉ name ++ rotShadowSuffix
      simp only [List.mem_append, not_or] at clean ⊢
      exact ⟨clean.1.1, clean.2⟩
  · exact storable

theorem ends_stageDb {newDek : Dek} {db : FileName} (storable : Storable (shadowName (manifestName db))) :
    Ends (stageDb newDek db) := by
  intro handles s held
  apply meets_get_bind
  apply meets_ofExcept_bind _ fun _ _ => held
  intro files resealed
  apply ends_forEach _ handles s held
  intro file member
  apply ends_importCiphertextFile
  exact storable_shadow storable (Pool.mem_resealDbCiphertext resealed member)

theorem ends_stageRotation {newDek : Dek} {dbNames : List FileName} {oldGen newGen : Nat}
    (storable : ∀ db ∈ dbNames, Storable (shadowName (manifestName db))) :
    Ends (stageRotation newDek dbNames oldGen newGen) := by
  intro handles s held
  apply meets_bind _ (ends_forEach (fun db member => ends_stageDb (storable db member)) handles s held)
  intro _ t kept
  apply meets_get_bind
  apply meets_ofExcept_bind _ fun _ _ => kept
  intro plain _
  have intent : Storable rotIntentName := by decide +kernel
  exact ends_importCiphertextFile intent handles t kept

theorem ends_adoptShadow (some_chars : name ≠ []) : Ends (adoptShadow name) := by
  intro handles s held
  by_cases present : s.files.contains (shadowName name) = true
  · rw [adoptShadow, Prog.get_bind]
    simp only [present, if_true]
    apply meets_ofExcept_bind _ fun _ _ => held
    intro bytes _
    obtain ⟨h, found⟩ := Option.isSome_iff_exists.mp
      (Std.ExtTreeMap.mem_iff_isSome_getElem?.mp (Std.ExtTreeMap.contains_iff_mem.mp present))
    have storable := storable_of_append (held.1.storable found) some_chars
    apply meets_bind _ (ends_importCiphertextFile storable handles s held)
    intro _ t kept
    exact ends_attempt (ends_deleteFile _) handles t kept
  · rw [adoptShadow, Prog.get_bind]
    simp only [present]
    exact meets_pure held

theorem ends_carryAnchor (e : AnchorEntry) : Ends (carryAnchor e) := by
  intro handles s held
  have any : ∀ anchor, Over handles { s with anchor := anchor } := fun anchor =>
    ⟨⟨held.1.listed, held.1.mapped, held.1.free, held.1.covered, held.1.distinct, held.1.apart,
      held.1.single, held.1.storable, held.1.named, held.1.cleared⟩, held.2⟩
  refine ⟨fun _ _ => trivial, ?_⟩
  split
  · exact any _
  · exact any _

theorem ends_discardRotationStaging (order : IterOrder) : Ends (discardRotationStaging order) := by
  intro handles s held
  apply meets_get_bind
  exact ends_forEach (fun name _ => ends_attempt (ends_deleteFile name)) handles s held

/-- The intent, if it opens in this pool, has no database without a name. -/
def IntentNamed (s : Slots) : Prop := ∀ bytes plain, s.view.exportRaw rotIntentName = .ok bytes →
  bytes.openIntent (.rotateIntentKey s.dek) = some plain → [] ∉ plain.dbNames

theorem meets_recoverRotation {order : IterOrder} (named : s.IntentNamed) {handles : List Handle}
    (held : Over handles s) :
    (recoverRotation order s).Meets (fun _ => True) (fun _ => Over handles) fun _ => Over handles := by
  by_cases present : s.files.contains rotIntentName = true
  · rw [recoverRotation, Prog.get_bind, if_pos present]
    apply meets_ofExcept_bind _ fun _ _ => held
    intro bytes read
    cases opened : bytes.openIntent (.rotateIntentKey s.dek) with
    | none =>
        apply meets_bind _ (ends_discardRotationStaging order handles s held)
        exact fun _ t kept => meets_pure kept
    | some plain =>
        have some_chars := named bytes plain read opened
        have adopts : ∀ db ∈ plain.dbNames, Ends (Prog.forEach adoptShadow [db, manifestName db]) := by
          intro db member
          apply ends_forEach
          intro name listed
          apply ends_adoptShadow
          simp only [List.mem_cons, List.not_mem_nil, or_false] at listed
          rcases listed with rfl | rfl
          · rintro rfl
            exact some_chars member
          · simp [manifestName, manifestSuffix]
        apply meets_bind _ (ends_forEach adopts handles s held)
        intro _ t kept
        apply meets_bind _ (ends_forEach (fun e _ => ends_carryAnchor e) handles t kept)
        intro _ t kept
        apply meets_bind _ (ends_attempt (ends_deleteFile rotIntentName) handles t kept)
        exact fun _ t kept => meets_pure kept
  · rw [recoverRotation, Prog.get_bind, if_neg present]
    exact meets_pure held

end Programs

section Runs

/-- What is done with a pool. -/
inductive Op
  | withNewFile (name : FileName) (flags : UInt32) (fill : Region → Region)
  | deleteFile (name : FileName)
  | importCiphertextFile (name : FileName) (ciphertext : Region)
  | importFiles (files : BundleFiles)
  | stageRotation (newDek : Dek) (dbNames : List FileName) (oldGen newGen : Nat)
  | recoverRotation (order : IterOrder)
  | reacquire (dek : Dek) (entries : List Handle) (clearFiles : Bool)

def Op.program : Op → SlotM Unit
  | .withNewFile name flags fill => Slots.withNewFile name flags fill
  | .deleteFile name => do
      let _ ← Slots.deleteFile name
      return ()
  | .importCiphertextFile name ciphertext => Slots.importCiphertextFile name ciphertext
  | .importFiles files => Slots.importFiles files
  | .stageRotation newDek dbNames oldGen newGen => Slots.stageRotation newDek dbNames oldGen newGen
  | .recoverRotation order => do
      let _ ← Slots.recoverRotation order
      return ()
  | .reacquire dek entries clearFiles => Prog.modify (Slots.reacquire dek entries clearFiles)

/-- The names that files are made under fit in a header, and a directory lists its entries. -/
def Op.Accepted (s : Slots) : Op → Prop
  | .withNewFile name _ _ => s.files.contains name = true ∨ s.available = [] ∨ Storable name
  | .deleteFile _ => True
  | .importCiphertextFile name _ => s.files.contains name = true ∨ s.available = [] ∨ Storable name
  | .importFiles _ => True
  | .stageRotation _ dbNames _ _ => ∀ db ∈ dbNames, Storable (shadowName (manifestName db))
  | .recoverRotation _ => s.IntentNamed
  | .reacquire _ entries _ => entries.Perm s.handles

/-- An operation that changes one file or the whole pool at once. -/
def Op.single : Op → Bool
  | .withNewFile .. => true
  | .deleteFile _ => true
  | .importCiphertextFile .. => true
  | .reacquire .. => true
  | _ => false

/-- The pools that operations lead to, whether they return `Ok` or `Err`. -/
inductive Reached (dek : Dek) (handles : List Handle) : Slots → Prop
  | fresh : Reached dek handles (Slots.fresh dek handles)
  | step {s : Slots} {op : Op} : Reached dek handles s → op.Accepted s →
      Reached dek handles (op.program s).state

variable {s : Slots} {op : Op} {dek : Dek} {handles : List Handle}

theorem conserved_fresh (dek : Dek) (distinct : handles.Nodup) : (Slots.fresh dek handles).Conserved := by
  have empty : ∀ {name : FileName} {h : Handle}, (Slots.fresh dek handles).files[name]? ≠ some h := by
    intro name h mapped
    simp [Slots.fresh] at mapped
  constructor
  · exact distinct
  · exact fun mapped => absurd mapped empty
  · exact fun free => free
  · exact fun listed => Or.inl listed
  · exact distinct
  · exact fun mapped => absurd mapped empty
  · exact fun mapped => absurd mapped empty
  · exact fun mapped => absurd mapped empty
  · exact fun mapped => absurd mapped empty
  · exact fun _ => rfl

/-- One operation: the pool stays conserved, also when the operation fails. -/
theorem meets_op (held : Over handles s) (accepted : op.Accepted s) :
    (op.program s).Meets (fun _ => True) (fun _ => Over handles) fun _ t =>
      Over handles t ∧ (op.single = true → t = s) := by
  have whole : ∀ {program : SlotM Unit}, op.single = false →
      (program s).Meets (fun _ => True) (fun _ => Over handles) (fun _ => Over handles) →
      (program s).Meets (fun _ => True) (fun _ => Over handles) fun _ t =>
        Over handles t ∧ (op.single = true → t = s) := by
    intro program several meets
    apply meets.mono (fun _ kept => kept) (fun _ _ kept => kept)
    intro _ t kept
    exact ⟨kept, fun single => absurd single (by simp [several])⟩
  have part : ∀ {program : SlotM Unit},
      (program s).Meets (fun _ => True) (fun _ => Over handles) (fun _ t => t = s) →
      (program s).Meets (fun _ => True) (fun _ => Over handles) fun _ t =>
        Over handles t ∧ (op.single = true → t = s) := by
    intro program meets
    apply meets.mono (fun _ kept => kept) (fun _ _ kept => kept)
    rintro _ t rfl
    exact ⟨held, fun _ => rfl⟩
  cases op with
  | withNewFile name flags fill => exact part (meets_withNewFile held accepted)
  | deleteFile name =>
      apply part
      rcases deleteFile_cases name s with ⟨_, ran⟩ | ⟨h, passed, found, ran⟩
      · rw [Op.program, Prog.bind_of_ok ran]
        exact ⟨fun _ _ => trivial, held⟩
      · rw [Op.program, Prog.bind_of_ok ran]
        exact ⟨fun _ _ => trivial, held.1.freed found, held.2⟩
  | importCiphertextFile name ciphertext => exact part (meets_importCiphertextFile held accepted)
  | importFiles files => exact whole rfl (ends_importFiles files handles s held)
  | stageRotation newDek dbNames oldGen newGen =>
      exact whole rfl (ends_stageRotation accepted handles s held)
  | recoverRotation order =>
      apply whole rfl
      apply meets_bind _ (meets_recoverRotation accepted held)
      exact fun _ t kept => meets_pure kept
  | reacquire dek entries clearFiles =>
      apply part
      apply meets_modify
      exact ⟨held.1.reacquire accepted, (acquired_reacquire held.1.unambiguous accepted held.1.listed).handles.trans held.2⟩

/-- Every run keeps the slots. -/
theorem Reached.over (distinct : handles.Nodup) (reached : Reached dek handles s) : Over handles s := by
  induction reached with
  | fresh => exact ⟨conserved_fresh dek distinct, rfl⟩
  | step _ accepted ih =>
      apply Outcome.Meets.ended
      exact (meets_op ih accepted).mono (fun _ kept => kept) (fun _ _ kept => kept) fun _ _ kept => kept.1

/-- A slot is free or stands for one name, and not both. -/
theorem Conserved.one_place (conserved : s.Conserved) {h : Handle} (listed : h ∈ s.handles) :
    h ∈ s.available ∧ (∀ name : FileName, s.files[name]? ≠ some h) ∨
      h ∉ s.available ∧ ∃! name : FileName, s.files[name]? = some h := by
  rcases conserved.covered listed with free | ⟨name, mapped⟩
  · exact Or.inl ⟨free, fun name mapped => conserved.apart mapped free⟩
  · exact Or.inr ⟨conserved.apart mapped, name, mapped, fun other same => conserved.single same mapped⟩

end Runs

end Slots

open Slots

end Freehold.PoolSlots
