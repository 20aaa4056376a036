import Freehold.Pool

set_option autoImplicit false

namespace Freehold

/-- `SECTOR_SIZE`, as `xSectorSize` reports it to SQLite. -/
abbrev sectorSize : Nat := 4096

/-- `JOURNAL_MAGIC`: the first bytes of a valid rollback-journal header. -/
def journalMagic : List UInt8 := [0xd9, 0xd5, 0x05, 0xf9, 0x20, 0xa1, 0x63, 0xd7]

def slice (bytes : List UInt8) (off len : Nat) : List UInt8 := (bytes.drop off).take len

/-- A field of a text, whatever stands around it. -/
theorem slice_middle (before field after : List UInt8) :
    slice (before ++ field ++ after) before.length field.length = field := by
  rw [slice, List.append_assoc, List.drop_left, List.take_left]

/-- Behind a prefix, positions count from its end. -/
theorem slice_append (before bytes : List UInt8) (off len : Nat) :
    slice (before ++ bytes) (before.length + off) len = slice bytes off len := by
  rw [slice, slice, List.drop_length_add_append]

/-- The big-endian number in four bytes. -/
def fromBe32 (bytes : List UInt8) : Nat := bytes.foldl (fun acc byte => acc * 256 + byte.toNat) 0

def be32 (bytes : List UInt8) (off : Nat) : Nat := fromBe32 (slice bytes off 4)

/-- The plaintext stream of a list of blocks. -/
def bytesOf (image : List Block) : List UInt8 := image.flatMap fun block => block.toList

def zeroBlock : Block := Vector.replicate blockSize 0

/-- A page from `blockSize` bytes. -/
def pageOf (data : List UInt8) : Block := Vector.ofFn fun i => data.getD i 0

def journalSuffix : FileName := ['-', 'j', 'o', 'u', 'r', 'n', 'a', 'l']

def walSuffix : FileName := ['-', 'w', 'a', 'l']

def journalName (db : FileName) : FileName := db ++ journalSuffix

/-- `strip_suffix`. -/
def stripSuffix (name suffix : FileName) : Option FileName :=
  if endsWith name suffix then some (name.take (name.length - suffix.length)) else none

/-- `satellite_parent`: the main database a journal or WAL file belongs to. -/
def satelliteParent (name : FileName) : Option FileName :=
  (stripSuffix name journalSuffix).or (stripSuffix name walSuffix)

/-- `journal_is_hot`: block 0 authenticates in the owner's domain and carries the magic. -/
def journalIsHot (journal : Region) (kdb : Key) (uuid : Uuid) (jname : FileName) : Bool :=
  match journal.cells[0]? with
  | none => false
  | some cell =>
      match cell.openWith kdb (.block (fileIdFor jname) uuid 0) with
      | none => false
      | some plain => journalMagic.isPrefixOf plain.toList

/-- The cells from block `k` on, each of which must authenticate. -/
def decryptCells (kdb : Key) (domain : Uuid) (fid : FileId) :
    Nat → List Cell → Except OpfsSAHError (List Block)
  | _, [] => .ok []
  | k, cell :: rest =>
      match cell.openWith kdb (.block fid domain k) with
      | none => .error (.generic s!"journal blk {k} failed AEAD auth (tamper?)")
      | some plain => do
          let image ← decryptCells kdb domain fid (k + 1) rest
          return plain :: image

/-- `decrypt_whole_file`. -/
def decryptWholeFile (data : Region) (kdb : Key) (domain : Uuid) (fid : FileId) :
    Except OpfsSAHError (List Block) :=
  decryptCells kdb domain fid 0 data.cells

/-- The fields of a journal header. -/
structure JournalHeader where
  nRec : Nat
  nonce : Nat
  initPages : Nat
  sector : Nat
  pageSize : Nat
  deriving DecidableEq, Repr

/-- The header at offset `off`, if the magic stands there. -/
def journalHeader (journal : List UInt8) (off : Nat) : Option JournalHeader :=
  if off + 28 ≤ journal.length ∧ slice journal off 8 = journalMagic then
    some {
      nRec := be32 journal (off + 8)
      nonce := be32 journal (off + 12)
      initPages := be32 journal (off + 16)
      sector := be32 journal (off + 20)
      pageSize := be32 journal (off + 24) }
  else none

/-- Every 200th byte of a page from index `i` down, added to `acc`. -/
def cksumFrom (data : List UInt8) (i : Nat) (acc : Nat) : Nat :=
  if 0 < i then cksumFrom data (i - 200) ((acc + (data.getD i 0).toNat) % 2 ^ 32) else acc
termination_by i
decreasing_by omega

/-- `pager_cksum`. -/
def pagerCksum (nonce : Nat) (data : List UInt8) : Nat := cksumFrom data (blockSize - 200) nonce

/-- A page record takes its number, the page and the checksum. -/
abbrev recSize : Nat := blockSize + 8

/-- Writes a page, growing the image with zero pages up to it. -/
def writePage (shadow : List Block) (index : Nat) (page : Block) : List Block :=
  (shadow ++ List.replicate (index + 1 - shadow.length) zeroBlock).set index page

/-- How the records of one segment end: at the next header, or for good. -/
inductive SegmentEnd where
  | next (off : Nat) (shadow : List Block)
  | stop (shadow : List Block)

/-- The record loop of one segment, from offset `off` with `applied` records done. -/
def applyRecords (journal : List UInt8) (nonce maxPages cap applied off : Nat)
    (shadow : List Block) : SegmentEnd :=
  if applied < cap ∧ off + recSize ≤ journal.length then
    let pgno := be32 journal off
    let data := slice journal (off + 4) blockSize
    let stored := be32 journal (off + 4 + blockSize)
    if pagerCksum nonce data ≠ stored then .stop shadow
    else if pgno = 0 ∨ maxPages < pgno then .stop shadow
    else applyRecords journal nonce maxPages cap (applied + 1) (off + recSize)
      (writePage shadow (pgno - 1) (pageOf data))
  else .next off shadow
termination_by journal.length - off
decreasing_by
  have positive : 0 < recSize := by decide
  apply Nat.sub_lt_sub_left ?_ (Nat.lt_add_of_pos_right positive)
  apply Nat.lt_of_lt_of_le (Nat.lt_add_of_pos_right positive)
  tauto

/-- The segment loop: each header shares the framing of the first. -/
def applySegments (journal : List UInt8) (pageSize sector maxPages segOff : Nat)
    (shadow : List Block) : List Block :=
  if segOff < journal.length then
    match journalHeader journal segOff with
    | none => shadow
    | some header =>
        if header.pageSize ≠ pageSize ∨ header.sector ≠ sector then shadow
        else
          let cap := if header.nRec = 0 ∨ header.nRec = 2 ^ 32 - 1 then 2 ^ 64 - 1 else header.nRec
          match applyRecords journal header.nonce maxPages cap 0 (segOff + sector) shadow with
          | .stop done => done
          | .next off done =>
              let next := (off + sector - 1) / sector * sector
              if next ≤ segOff then done
              else applySegments journal pageSize sector maxPages next done
  else shadow
termination_by journal.length - segOff

/-- The image SQLite would serve after playing this journal back over `main`, as
`replay_journal_root` computes it before it takes the root. -/
def replayJournal (journal : List UInt8) (main : List Block) : Except OpfsSAHError (List Block) :=
  match journalHeader journal 0 with
  | none => .error (.generic "hot journal has no valid header at replay time")
  | some first =>
      if first.pageSize ≠ blockSize then
        let pageSize := first.pageSize
        .error (.generic s!"hot journal page_size {pageSize} != B={blockSize} — refusing (§17.I)")
      else if first.sector = 0 ∨ first.sector % blockSize ≠ 0 then
        let sector := first.sector
        .error (.generic
          s!"hot journal sector size {sector} not a positive multiple of B={blockSize}")
      else
        let maxPages := max (max first.initPages main.length) (journal.length / recSize) + 8
        let shadow := applySegments journal first.pageSize first.sector maxPages 0 main
        if 0 < first.initPages ∧ first.initPages < shadow.length then
          .ok (shadow.take first.initPages)
        else .ok shadow

/-- A journal of one bare header gives back only the length of the file. -/
theorem replayJournal_bare {journal : List UInt8} {main : List Block} {first : JournalHeader}
    (header : journalHeader journal 0 = some first) (pageSize : first.pageSize = blockSize)
    (sector : first.sector = blockSize) (bare : journal.length = blockSize) :
    replayJournal journal main =
      .ok (if 0 < first.initPages ∧ first.initPages < main.length then main.take first.initPages
        else main) := by
  have nothing : ∀ nonce maxPages cap,
      applyRecords journal nonce maxPages cap 0 blockSize main = .next blockSize main := by
    intro nonce maxPages cap
    rw [applyRecords, if_neg]
    rintro ⟨_, room⟩
    rw [bare] at room
    exact absurd room (by decide)
  have ended : ∀ maxPages, applySegments journal blockSize blockSize maxPages blockSize main = main := by
    intro maxPages
    rw [applySegments, if_neg]
    rw [bare]
    exact Nat.lt_irrefl _
  have later : ¬ (blockSize + blockSize - 1) / blockSize * blockSize ≤ 0 := by decide
  have here : (blockSize + blockSize - 1) / blockSize * blockSize = blockSize := by decide
  have played : ∀ maxPages, applySegments journal blockSize blockSize maxPages 0 main = main := by
    intro maxPages
    rw [applySegments, if_pos (by rw [bare]; decide)]
    simp only [header, pageSize, sector, ne_eq, not_true, or_self, if_false, Nat.zero_add, nothing]
    rw [if_neg later, here]
    exact ended maxPages
  have framed : ¬ (blockSize = 0 ∨ blockSize % blockSize ≠ 0) := by decide
  unfold replayJournal
  simp only [header, pageSize, sector, ne_eq, not_true, if_false, played]
  rw [if_neg framed]
  split <;> rfl

end Freehold
