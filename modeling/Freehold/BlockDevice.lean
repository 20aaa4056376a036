import Freehold.CryptoWire
import Freehold.JournalReplay
import Freehold.Lib.Splice
import Freehold.Vfs

set_option autoImplicit false

/- The encrypted block device, on the bytes of one pool file. -/
namespace Freehold

open Splice

/-- The first `n` bytes of a field at `off`. -/
def fieldOf (n : Nat) (bytes : List UInt8) (off : Nat) : Vector UInt8 n :=
  Vector.ofFn fun i => bytes.getD (off + i) 0

/-- `open_into`. -/
def Primitives.openInto (P : Primitives) (key : Key) (aad : Aad) (phys : List UInt8) : Option Block :=
  (P.decrypt (P.subkey key) (fieldOf nonceLen phys blockSize) (P.aad aad) (slice phys 0 blockSize)
    (fieldOf tagLen phys (blockSize + nonceLen))).map pageOf

namespace BlockDevice

/-- `usize` has 32 bits; plain sums and products wrap. -/
def usize (n : Nat) : Nat := n % 2 ^ 32

abbrev headerOffsetData : Nat := 4096

/-- An open pool file: the bytes behind its handle and what is kept with it. -/
structure OpenFile where
  bytes : List UInt8
  crypto : Key
  fileId : FileId
  keyDomain : Uuid
  isMainDb : Bool
  logicalSize : Option Nat

namespace OpenFile

/-- What `phys_read` finds, at most `len` bytes. -/
def physRead (f : OpenFile) (len pos : Nat) : List UInt8 :=
  window f.bytes (usize (headerOffsetData + pos)) len

/-- `phys_write`; a gap reads as zeros. -/
def physWrite (f : OpenFile) (buf : List UInt8) (pos : Nat) : OpenFile :=
  { f with bytes := put 0 f.bytes (usize (headerOffsetData + pos)) buf }

/-- `phys_size`. A number that is no `usize` becomes the largest one. -/
def physSize (f : OpenFile) : Nat := min f.bytes.length (2 ^ 32 - 1) - headerOffsetData

/-- `phys_truncate`. -/
def physTruncate (f : OpenFile) (size : Nat) : OpenFile :=
  let len := usize (headerOffsetData + size)
  { f with bytes := (f.bytes ++ List.replicate (len - f.bytes.length) 0).take len }

/-- `ensure_logical`. -/
def size (f : OpenFile) : Nat := f.logicalSize.getD (f.physSize / physBlock * blockSize)

variable (P : Primitives)

def openBlock (f : OpenFile) (k : Nat) (phys : List UInt8) : Option Block :=
  P.openInto f.crypto (.block f.fileId f.keyDomain k) phys

def sealBlock (f : OpenFile) (k : Nat) (nonce : Vector UInt8 24) (plain : Block) : List UInt8 :=
  P.sealInto f.crypto nonce (.block f.fileId f.keyDomain k) plain

/-- One block of `read`; `none` is a block past the end. -/
def readBlock (f : OpenFile) (k : Nat) : Except VfsError (Option Block) :=
  let place := k * physBlock
  if 2 ^ 32 ≤ place then .error ⟨sqliteIoerr, "physical offset overflow"⟩
  else if usize (place + physBlock) ≤ f.physSize then
    let found := f.physRead physBlock place
    if found.length < physBlock then .ok none
    else
      match f.openBlock P k found with
      | some plain => .ok (some plain)
      | none => .error ⟨sqliteIoerr, "AEAD authentication failed on read"⟩
  else .ok none

/-- The block loop of `read`: the bytes, and whether a block was short. -/
def readBlocks (f : OpenFile) (len offset : Nat) : Except VfsError (List UInt8 × Bool) :=
  if _more : len ≠ 0 then do
    let lo := offset % blockSize
    let n := min (blockSize - lo) len
    let blk ← f.readBlock P (offset / blockSize)
    let (rest, short) ← readBlocks f (len - n) (offset + n)
    return (((blk.getD zeroBlock).toList.drop lo).take n ++ rest, blk.isNone || short)
  else .ok ([], false)
termination_by len
decreasing_by
  have room : offset % blockSize < blockSize := Nat.mod_lt _ (by decide)
  omega

/-- `read` of `len` bytes; the flag tells a full read. -/
def read (f : OpenFile) (len offset : Nat) : Except VfsError (List UInt8 × Bool) :=
  if len = 0 then .ok ([], true)
  else if 2 ^ 32 ≤ offset + len then .error ⟨sqliteIoerr, "read offset+len overflow"⟩
  else do
    let (bytes, short) ← f.readBlocks P len offset
    return (bytes, !short)

/-- What `write` seals into block `k`; `phys` is the size from before the write. -/
def overlaid (f : OpenFile) (phys k lo : Nat) (chunk : List UInt8) : Except VfsError Block :=
  let place := k * physBlock
  if chunk.length = blockSize then .ok (overlay zeroBlock 0 chunk)
  else if usize (place + physBlock) ≤ phys then
    let found := f.physRead physBlock place
    if found.length < physBlock then
      .error ⟨sqliteIoerr, "short read of an in-range block (torn write) on read-modify-write"⟩
    else
      match f.openBlock P k found with
      | some plain => .ok (overlay plain lo chunk)
      | none => .error ⟨sqliteIoerr, "AEAD auth failed on read-modify-write"⟩
  else .ok (overlay zeroBlock lo chunk)

/-- One block of `write`, with the nonce it draws. -/
def writeBlock (f : OpenFile) (nonce : Vector UInt8 24) (phys k lo : Nat) (chunk : List UInt8) :
    Except VfsError OpenFile :=
  if 2 ^ 32 ≤ k * physBlock then .error ⟨sqliteIoerr, "physical offset overflow"⟩
  else do
    let plain ← f.overlaid P phys k lo chunk
    return f.physWrite (f.sealBlock P k nonce plain) (k * physBlock)

/-- The block loop of `write`; the blocks before one that fails stay written. -/
def writeBlocks (draw : Nat → Vector UInt8 24) (phys : Nat) (f : OpenFile) (bytes : List UInt8)
    (offset : Nat) : Except VfsError Unit × OpenFile :=
  if _more : bytes ≠ [] then
    let k := offset / blockSize
    let lo := offset % blockSize
    let chunk := bytes.take (blockSize - lo)
    match f.writeBlock P (draw k) phys k lo chunk with
    | .error e => (.error e, f)
    | .ok written =>
        writeBlocks draw phys written (bytes.drop (blockSize - lo)) (offset + chunk.length)
  else (.ok (), f)
termination_by bytes.length
decreasing_by
  have room : offset % blockSize < blockSize := Nat.mod_lt _ (by decide)
  have some_left := List.length_pos_iff.mpr _more
  rw [List.length_drop]
  omega

/-- The §17.I check of `write`. -/
def pageSizeCheck (f : OpenFile) (bytes : List UInt8) (offset : Nat) : Except VfsError Unit :=
  if f.isMainDb ∧ offset = 0 ∧ 18 ≤ bytes.length ∧ sqliteMagic.isPrefixOf bytes then
    let declared := (bytes.getD 16 0).toNat * 256 + (bytes.getD 17 0).toNat
    let ps := if declared = 1 then 65536 else declared
    if ps = blockSize then .ok ()
    else .error ⟨sqliteIoerr,
      s!"refusing main-DB write: page_size {ps} != encryption block B={blockSize} (§17.I)"⟩
  else .ok ()

/-- `write`; `draw` gives each block its nonce. -/
def write (draw : Nat → Vector UInt8 24) (f : OpenFile) (bytes : List UInt8) (offset : Nat) :
    Except VfsError Unit × OpenFile :=
  if bytes = [] then (.ok (), f)
  else
    match f.pageSizeCheck bytes offset with
    | .error e => (.error e, f)
    | .ok () =>
        if 2 ^ 32 ≤ offset + bytes.length then (.error ⟨sqliteIoerr, "write offset+len overflow"⟩, f)
        else
          match f.writeBlocks P draw f.physSize bytes offset with
          | (.error e, written) => (.error e, written)
          | (.ok (), written) =>
              (.ok (), { written with logicalSize := some (max f.size (offset + bytes.length)) })

/-- The last block that is kept in part, sealed again without its end. -/
def resealTail (nonce : Vector UInt8 24) (f : OpenFile) (size : Nat) : Except VfsError OpenFile :=
  let k := size / blockSize
  let tail := size % blockSize
  let place := usize (k * physBlock)
  if usize (place + physBlock) ≤ f.physSize ∧ physBlock ≤ (f.physRead physBlock place).length then
    match f.openBlock P k (f.physRead physBlock place) with
    | none => .error ⟨sqliteIoerr, "AEAD auth failed on truncate reseal"⟩
    | some plain =>
        let kept := overlay plain tail (List.replicate (blockSize - tail) 0)
        .ok (f.physWrite (f.sealBlock P k nonce kept) place)
  else .ok f

/-- `truncate`. -/
def truncate (nonce : Vector UInt8 24) (f : OpenFile) (size : Nat) : Except VfsError Unit × OpenFile :=
  match if size % blockSize ≠ 0 then f.resealTail P nonce size else .ok f with
  | .error e => (.error e, f)
  | .ok kept =>
      (.ok (), { kept.physTruncate (usize ((size + blockSize - 1) / blockSize * physBlock)) with
        logicalSize := some size })

/-- The bytes of block `k`, fewer if the file ends in it or before it. -/
def stored (f : OpenFile) (k : Nat) : List UInt8 := window f.bytes (headerOffsetData + k * physBlock) physBlock

/-- Block `k` is there as a whole. -/
def Present (f : OpenFile) (k : Nat) : Prop :=
  headerOffsetData + (k * physBlock + physBlock) ≤ f.bytes.length

instance (f : OpenFile) (k : Nat) : Decidable (f.Present k) := inferInstanceAs (Decidable (_ ≤ _))

end OpenFile

/-- Blocks from this index on do not fit: their ends are past what `phys_size` can tell, and from
the next one on their offsets wrap. -/
abbrev maxBlocks : Nat := 1038434

section Offsets

variable {f : OpenFile} {k : Nat}

theorem physBlock_eq : physBlock = 4136 := rfl

theorem headerOffsetData_eq : headerOffsetData = 4096 := rfl

theorem maxBlocks_eq : maxBlocks = 1038434 := rfl

theorem place_fits (low : k < maxBlocks) : headerOffsetData + (k * physBlock + physBlock) < 2 ^ 32 := by
  rw [maxBlocks_eq] at low
  rw [physBlock_eq, headerOffsetData_eq]
  omega

theorem usize_eq {n : Nat} (small : n < 2 ^ 32) : usize n = n := Nat.mod_eq_of_lt small

theorem usize_stop (low : k < maxBlocks) : usize (k * physBlock + physBlock) = k * physBlock + physBlock := by
  exact usize_eq (Nat.lt_of_le_of_lt (Nat.le_add_left _ _) (place_fits low))

theorem usize_start (low : k < maxBlocks) :
    usize (headerOffsetData + k * physBlock) = headerOffsetData + k * physBlock := by
  have less : headerOffsetData + k * physBlock ≤ headerOffsetData + (k * physBlock + physBlock) :=
    Nat.add_le_add_left (Nat.le_add_right _ _) _
  exact usize_eq (Nat.lt_of_le_of_lt less (place_fits low))

theorem place_lt (low : k < maxBlocks) : k * physBlock < 2 ^ 32 := by
  have less : k * physBlock ≤ headerOffsetData + (k * physBlock + physBlock) :=
    Nat.le_trans (Nat.le_add_right _ _) (Nat.le_add_left _ _)
  exact Nat.lt_of_le_of_lt less (place_fits low)

theorem usize_place (low : k < maxBlocks) : usize (k * physBlock) = k * physBlock :=
  usize_eq (place_lt low)

theorem le_physSize {len n : Nat} (positive : 0 < n) (low : n ≤ 4294963024) :
    n ≤ min len (2 ^ 32 - 1) - 4096 ↔ 4096 + n ≤ len := by
  omega

/-- `phys_size` tells whether a block is there. -/
theorem present_iff (low : k < maxBlocks) :
    usize (k * physBlock + physBlock) ≤ f.physSize ↔ f.Present k := by
  have bound : k < 1038434 := low
  have top : k * physBlock + physBlock ≤ 4294963024 := by
    rw [physBlock_eq]
    omega
  rw [usize_stop low]
  exact le_physSize (Nat.add_pos_right _ (by decide)) top

theorem physRead_eq (low : k < maxBlocks) : f.physRead physBlock (k * physBlock) = f.stored k := by
  rw [OpenFile.physRead, usize_start low, OpenFile.stored]

theorem length_stored (present : f.Present k) : (f.stored k).length = physBlock := by
  rw [OpenFile.Present] at present
  rw [OpenFile.stored, length_window]
  omega

variable {P : Primitives}

/-- One block of `read`, without the offsets. -/
theorem readBlock_eq (low : k < maxBlocks) : f.readBlock P k =
    if f.Present k then
      match f.openBlock P k (f.stored k) with
      | some plain => .ok (some plain)
      | none => .error ⟨sqliteIoerr, "AEAD authentication failed on read"⟩
    else .ok none := by
  rw [OpenFile.readBlock]
  simp only [present_iff low, physRead_eq low]
  rw [if_neg (Nat.not_le_of_lt (place_lt low))]
  split
  · next present => rw [length_stored present, if_neg (Nat.lt_irrefl _)]
  · rfl

/-- What `write` seals, without the offsets. -/
theorem overlaid_eq {start : OpenFile} {lo : Nat} {chunk : List UInt8} (low : k < maxBlocks)
    (inPart : chunk.length ≠ blockSize) (kept : start.Present k → f.Present k) :
    f.overlaid P start.physSize k lo chunk =
      if start.Present k then
        match f.openBlock P k (f.stored k) with
        | some plain => .ok (overlay plain lo chunk)
        | none => .error ⟨sqliteIoerr, "AEAD auth failed on read-modify-write"⟩
      else .ok (overlay zeroBlock lo chunk) := by
  rw [OpenFile.overlaid]
  simp only [present_iff low, physRead_eq low]
  rw [if_neg inPart]
  split
  · next present => rw [length_stored (kept present), if_neg (Nat.lt_irrefl _)]
  · rfl

theorem writeBlock_eq {nonce : Vector UInt8 24} {phys lo : Nat} {chunk : List UInt8}
    (low : k < maxBlocks) : f.writeBlock P nonce phys k lo chunk = do
      let plain ← f.overlaid P phys k lo chunk
      return { f with
        bytes := put 0 f.bytes (headerOffsetData + k * physBlock) (f.sealBlock P k nonce plain) } := by
  rw [OpenFile.writeBlock, if_neg (Nat.not_le_of_lt (place_lt low))]
  simp only [OpenFile.physWrite, usize_start low]

end Offsets

section Cipher

variable {P : Primitives}

theorem fieldOf_append {n : Nat} (before : List UInt8) (field : Vector UInt8 n) (after : List UInt8) :
    fieldOf n (before ++ field.toList ++ after) before.length = field := by
  apply Vector.ext
  intro i inside
  rw [fieldOf, Vector.getElem_ofFn, List.getD_eq_getElem?_getD, List.append_assoc,
    List.getElem?_append_right (Nat.le_add_right _ _), Nat.add_sub_cancel_left,
    List.getElem?_append_left (by rw [Vector.length_toList]; exact inside)]
  simp [inside]

theorem openInto_sealInto (lawful : P.Lawful) (key : Key) (nonce : Vector UInt8 24) (aad : Aad)
    (plain : Block) : P.openInto key aad (P.sealInto key nonce aad plain) = some plain := by
  let out := P.encrypt (P.subkey key) nonce (P.aad aad) plain.toList
  have length : out.1.length = blockSize := by
    rw [lawful.length_encrypt, Vector.length_toList]
  have whole : P.sealInto key nonce aad plain = out.1 ++ nonce.toList ++ out.2.toList := rfl
  have ct : slice (out.1 ++ nonce.toList ++ out.2.toList) 0 blockSize = out.1 := by
    have cut := slice_middle [] out.1 (nonce.toList ++ out.2.toList)
    rw [length] at cut
    simpa only [List.nil_append, List.append_assoc, List.length_nil] using cut
  have drawn : fieldOf nonceLen (out.1 ++ nonce.toList ++ out.2.toList) blockSize = nonce := by
    rw [← length]
    exact fieldOf_append _ _ _
  have tag : fieldOf tagLen (out.1 ++ nonce.toList ++ out.2.toList) (blockSize + nonceLen) = out.2 := by
    have front : (out.1 ++ nonce.toList).length = blockSize + nonceLen := by
      rw [List.length_append, length, Vector.length_toList]
    rw [← front]
    have cut := fieldOf_append (out.1 ++ nonce.toList) out.2 []
    rwa [List.append_nil] at cut
  rw [Primitives.openInto, whole, ct, drawn, tag, lawful.decrypt_encrypt]
  exact congrArg some (pageOf_toList plain)

variable {f : OpenFile} {k : Nat}

theorem openBlock_sealBlock (lawful : P.Lawful) (nonce : Vector UInt8 24) (plain : Block) :
    f.openBlock P k (f.sealBlock P k nonce plain) = some plain :=
  openInto_sealInto lawful _ _ _ _

theorem length_sealBlock (lawful : P.Lawful) (nonce : Vector UInt8 24) (plain : Block) :
    (f.sealBlock P k nonce plain).length = physBlock := length_sealInto lawful _ _ _ _

end Cipher

end BlockDevice

end Freehold
