import Freehold.BlockDevice
import Freehold.Lib.Cursor

set_option autoImplicit false

/- Playing a journal back in the 32-bit numbers of the target. A sum or product that does not fit,
an index out of range and a vector of more than `isize::MAX` bytes are panics. -/
namespace Freehold.Replay

open Cursor Splice
open BlockDevice (OpenFile headerOffsetData)

abbrev Fallible (α : Type) := Outcome OpfsSAHError α

def isizeMax : Nat := 2 ^ 31 - 1

/-- A vector of so many pages has no more than `isize::MAX` bytes. -/
def Allocatable (pages : Nat) : Prop := pages * blockSize ≤ isizeMax

instance : DecidablePred Allocatable := fun pages => inferInstanceAs (Decidable (pages * blockSize ≤ isizeMax))

theorem Allocatable.of_le {few many : Nat} (held : Allocatable many) (fewer : few ≤ many) : Allocatable few :=
  Nat.le_trans (Nat.mul_le_mul_right blockSize fewer) held

def add (a b : Nat) : Fallible Nat := addUsize 32 a b

def mul (a b : Nat) : Fallible Nat := if a * b < 2 ^ 32 then .ok (a * b) else .panic

def sub (a b : Nat) : Fallible Nat := if b ≤ a then .ok (a - b) else .panic

def saturatingAdd (a b : Nat) : Nat := min (a + b) (2 ^ 32 - 1)

/-- `div_ceil`. -/
def divCeil (a b : Nat) : Nat := if 0 < a % b then a / b + 1 else a / b

/-- `data[i]`. -/
def index (data : List UInt8) (i : Nat) : Fallible UInt8 :=
  match data[i]? with
  | some byte => .ok byte
  | none => .panic

/-- `phys_read`. -/
def physRead (f : OpenFile) (len pos : Nat) : Fallible (List UInt8) := do
  let start ← add headerOffsetData pos
  return window f.bytes start len

/-- The blocks of a file from `k` on, decrypted into `out`. -/
def decryptFrom (P : Primitives) (f : OpenFile) (key : Key) (domain : Uuid) (fid : FileId) :
    Nat → Nat → List UInt8 → Fallible (List UInt8)
  | 0, _, out => return out
  | left + 1, k, out => do
      let place ← mul k physBlock
      let sealed ← physRead f physBlock place
      if sealed.length < physBlock then
        let len ← mul k blockSize
        return out.take len
      else
        let lo ← mul k blockSize
        let hi ← add lo blockSize
        if lo ≤ hi ∧ hi ≤ out.length then
          match P.openInto key (.block fid domain k) sealed with
          | none => .error (.generic s!"journal blk {k} failed AEAD auth (tamper?)")
          | some plain => decryptFrom P f key domain fid left (k + 1) (put 0 out lo plain.toList)
        else .panic

/-- `decrypt_whole_file`. -/
def decryptWholeFile (P : Primitives) (f : OpenFile) (key : Key) (domain : Uuid) (fid : FileId) :
    Fallible (List UInt8) := do
  let blocks := f.physSize / physBlock
  let len ← mul blocks blockSize
  if isizeMax < len then .panic
  else decryptFrom P f key domain fid blocks 0 (List.replicate len 0)

/-- `u32::from_be_bytes` of the four bytes at `off`. -/
def u32At (journal : Slice 32) (off : Nat) : Fallible Nat := do
  let a ← journal.index off
  let b ← journal.index (← add off 1)
  let c ← journal.index (← add off 2)
  let d ← journal.index (← add off 3)
  return fromBe32 [a, b, c, d]

/-- The checksum loop of a record, from index `i` down. -/
def cksumLoop (data : List UInt8) (i : Int) (cksum : Nat) : Fallible Nat :=
  if 0 < i then do
    let byte ← index data i.toNat
    cksumLoop data (i - 200) ((cksum + byte.toNat) % 2 ^ 32)
  else .ok cksum
termination_by i.toNat
decreasing_by omega

/-- A vector of pages and the pages it has room for. -/
structure PageVec where
  pages : List Block
  capacity : Nat

/-- `resize` to a greater length. `grow` is the room that a vector asks for when it has too little. -/
def PageVec.resize (grow : Nat → Nat → Nat) (len : Nat) (v : PageVec) : Fallible PageVec :=
  let pages := v.pages ++ List.replicate (len - v.pages.length) zeroBlock
  if len ≤ v.capacity then .ok ⟨pages, v.capacity⟩
  else
    let capacity := grow v.capacity len
    if Allocatable capacity then .ok ⟨pages, capacity⟩ else .panic

/-- `shadow[idx].copy_from_slice(data)`. -/
def PageVec.copyPage (idx : Nat) (data : List UInt8) (v : PageVec) : Fallible PageVec :=
  if idx < v.pages.length ∧ data.length = blockSize then
    .ok { v with pages := v.pages.set idx (pageOf data) }
  else .panic

/-- How the record loop of a segment ends. -/
inductive RecordsEnd where
  | next (off : Nat) (shadow : PageVec)
  | stop (shadow : PageVec)

/-- The page of a record, written into the shadow. -/
def applyPage (grow : Nat → Nat → Nat) (pgno : Nat) (data : List UInt8) (shadow : PageVec) :
    Fallible PageVec := do
  let idx ← sub pgno 1
  if shadow.pages.length ≤ idx then
    let len ← add idx 1
    let grown ← shadow.resize grow len
    grown.copyPage idx data
  else shadow.copyPage idx data

/-- The record loop. A loop that is out of fuel has not returned. -/
def records (grow : Nat → Nat → Nat) (journal : Slice 32) (nonce pageSize recSz maxPages cap : Nat) :
    Nat → Nat → Nat → PageVec → Fallible RecordsEnd
  | 0, _, _, _ => .panic
  | fuel + 1, applied, off, shadow =>
      if applied < cap then do
        let stop ← add off recSz
        if stop ≤ journal.bytes.length then
          let pgno ← u32At journal off
          let start ← add off 4
          let behind ← add start pageSize
          let data ← journal.range start behind
          let stored ← u32At journal behind
          let cksum ← cksumLoop data ((pageSize : Int) - 200) nonce
          if cksum ≠ stored then return .stop shadow
          else if pgno = 0 ∨ maxPages < pgno then return .stop shadow
          else
            let written ← applyPage grow pgno data shadow
            let done ← addUsize 64 applied 1
            let next ← add off recSz
            records grow journal nonce pageSize recSz maxPages cap fuel done next written
        else return .next off shadow
      else return .next off shadow

/-- The segment loop. -/
def segments (grow : Nat → Nat → Nat) (journal : Slice 32) (pageSize sector recSz maxPages total : Nat) :
    Nat → Nat → PageVec → Fallible PageVec
  | 0, _, _ => .panic
  | fuel + 1, segOff, shadow => do
      let stop ← add segOff 28
      if journal.bytes.length < stop then return shadow
      else
        let behind ← add segOff 8
        let magic ← journal.range segOff behind
        if magic ≠ journalMagic then return shadow
        else
          let nrecHdr ← u32At journal (← add segOff 8)
          let nonce ← u32At journal (← add segOff 12)
          let segSector ← u32At journal (← add segOff 20)
          let segPage ← u32At journal (← add segOff 24)
          if segPage ≠ pageSize ∨ segSector ≠ sector then return shadow
          else
            let cap := if nrecHdr = 0 ∨ nrecHdr = 2 ^ 32 - 1 then 2 ^ 64 - 1 else nrecHdr
            let off ← add segOff sector
            match ← records grow journal nonce pageSize recSz maxPages cap total 0 off shadow with
            | .stop done => return done
            | .next off done =>
                let next ← mul (divCeil off sector) sector
                if next ≤ segOff then return done
                else segments grow journal pageSize sector recSz maxPages total fuel next done

/-- `replay_journal_root` up to the image of which it takes the root. -/
def replayJournalRoot (grow : Nat → Nat → Nat) (fuel : Nat) (journal : Slice 32) (main : List Block) :
    Fallible (List Block) := do
  if journal.bytes.length < 28 then
    .error (.generic "hot journal has no valid header at replay time")
  else
    let front ← journal.range 0 8
    if front ≠ journalMagic then
      .error (.generic "hot journal has no valid header at replay time")
    else
      let pageSize ← u32At journal 24
      let sector ← u32At journal 20
      let initPages ← u32At journal 16
      if pageSize ≠ blockSize then
        .error (.generic s!"hot journal page_size {pageSize} != B={blockSize} — refusing (§17.I)")
      else if sector = 0 ∨ sector % blockSize ≠ 0 then
        .error (.generic
          s!"hot journal sector size {sector} not a positive multiple of B={blockSize}")
      else
        let recSz ← add pageSize 8
        let maxPages :=
          saturatingAdd (max (max initPages main.length) (journal.bytes.length / recSz)) 8
        let shadow ← segments grow journal pageSize sector recSz maxPages fuel fuel 0 ⟨main, main.length⟩
        if 0 < initPages ∧ initPages < shadow.pages.length then return shadow.pages.take initPages
        else return shadow.pages

section Format

/-- The page number of a record that is played back. -/
def recordAt (journal : List UInt8) (nonce maxPages off : Nat) : Option Nat :=
  let pgno := be32 journal off
  if pagerCksum nonce (slice journal (off + 4) blockSize) ≠ be32 journal (off + 4 + blockSize) then none
  else if pgno = 0 ∨ maxPages < pgno then none
  else some pgno

/-- The page numbers of up to `left` records from `off` on, and where they end if they do not end the
journal. -/
def recordPages (journal : List UInt8) (nonce maxPages : Nat) : Nat → Nat → List Nat × Option Nat
  | 0, off => ([], some off)
  | left + 1, off =>
      match recordAt journal nonce maxPages off with
      | none => ([], none)
      | some pgno =>
          let rest := recordPages journal nonce maxPages left (off + recSize)
          (pgno :: rest.1, rest.2)

/-- How many records of a segment there can be behind `off`. -/
def recordsLeft (journal : List UInt8) (cap off : Nat) : Nat := min cap ((journal.length - off) / recSize)

/-- The page numbers of the records of all segments from `segOff` on. -/
def segmentPages (journal : List UInt8) (pageSize sector maxPages segOff : Nat) : List Nat :=
  if segOff < journal.length then
    match journalHeader journal segOff with
    | none => []
    | some header =>
        if header.pageSize ≠ pageSize ∨ header.sector ≠ sector then []
        else
          let cap := if header.nRec = 0 ∨ header.nRec = 2 ^ 32 - 1 then 2 ^ 64 - 1 else header.nRec
          let off := segOff + sector
          match recordPages journal header.nonce maxPages (recordsLeft journal cap off) off with
          | (pages, none) => pages
          | (pages, some off) =>
              let next := (off + sector - 1) / sector * sector
              if next ≤ segOff then pages
              else pages ++ segmentPages journal pageSize sector maxPages next
  else []
termination_by journal.length - segOff

/-- The numbers of the pages that a journal holds for a main file of `pages` pages, in the order of its
records. -/
def journalPages (journal : List UInt8) (pages : Nat) : List Nat :=
  match journalHeader journal 0 with
  | none => []
  | some first =>
      segmentPages journal first.pageSize first.sector
        (max (max first.initPages pages) (journal.length / recSize) + 8) 0

/-- The room that a vector with room for `capacity` pages has when it holds page `pgno`. -/
def roomFor (grow : Nat → Nat → Nat) (capacity pgno : Nat) : Nat :=
  if pgno ≤ capacity then capacity else grow capacity pgno

def capacityAfter (grow : Nat → Nat → Nat) (capacity : Nat) (pages : List Nat) : Nat :=
  pages.foldl (roomFor grow) capacity

/-- A first header that is played back. -/
structure Framed (journal : List UInt8) (first : JournalHeader) : Prop where
  header : journalHeader journal 0 = some first
  pageSize : first.pageSize = blockSize
  sector : first.sector ≠ 0 ∧ first.sector % blockSize = 0

/-- The first record starts where one can end, and the pages fit into a vector. -/
def InRange (grow : Nat → Nat → Nat) (journal : List UInt8) (main : List Block) : Prop :=
  ∀ first, Framed journal first → first.sector ≠ 2 ^ 32 - blockSize ∧
    Allocatable (capacityAfter grow main.length (journalPages journal main.length))

end Format

section Words

variable {journal : Slice 32} {a b off len : Nat}

theorem add_eq (fits : a + b < 2 ^ 32) : add a b = .ok (a + b) := addUsize_eq fits

theorem add_panics (large : 2 ^ 32 ≤ a + b) : add a b = .panic := if_neg (Nat.not_lt_of_le large)

theorem mul_eq (fits : a * b < 2 ^ 32) : mul a b = .ok (a * b) := if_pos fits

theorem sub_eq (ordered : b ≤ a) : sub a b = .ok (a - b) := if_pos ordered

theorem range_eq (inside : off + len ≤ journal.bytes.length) :
    (journal.range off (off + len) : Fallible (List UInt8)) = .ok (slice journal.bytes off len) := by
  rw [Slice.range, if_pos ⟨by omega, inside⟩, List.drop_take, Nat.add_sub_cancel_left]
  rfl

theorem slice_four (bytes : List UInt8) (inside : off + 3 < bytes.length) :
    slice bytes off 4 = [bytes[off], bytes[off + 1], bytes[off + 2], bytes[off + 3]] := by
  apply List.ext_getElem
  · simp only [slice, List.length_take, List.length_drop, List.length_cons, List.length_nil]
    omega
  · intro i first second
    simp only [List.length_cons, List.length_nil] at second
    simp only [slice, List.getElem_take, List.getElem_drop]
    have four : i = 0 ∨ i = 1 ∨ i = 2 ∨ i = 3 := by omega
    rcases four with rfl | rfl | rfl | rfl <;> rfl

theorem u32At_eq (inside : off + 4 ≤ journal.bytes.length) :
    u32At journal off = .ok (be32 journal.bytes off) := by
  have fits := journal.fits
  rw [u32At, Slice.index_of_lt (by omega), Outcome.ok_bind, add_eq (by omega), Outcome.ok_bind,
    Slice.index_of_lt (by omega), Outcome.ok_bind, add_eq (by omega), Outcome.ok_bind,
    Slice.index_of_lt (by omega), Outcome.ok_bind, add_eq (by omega), Outcome.ok_bind,
    Slice.index_of_lt (by omega), Outcome.ok_bind, be32, slice_four _ (by omega)]
  rfl

theorem be32_lt (bytes : List UInt8) (inside : off + 4 ≤ bytes.length) : be32 bytes off < 2 ^ 32 := by
  rw [be32, slice_four _ (by omega)]
  have w := bytes[off].toNat_lt
  have x := bytes[off + 1].toNat_lt
  have y := bytes[off + 2].toNat_lt
  have z := bytes[off + 3].toNat_lt
  simp only [fromBe32, List.foldl_cons, List.foldl_nil]
  omega

/-- Every index of the checksum loop is in the page. -/
theorem cksumLoop_eq {data : List UInt8} (i : Int) (cksum : Nat) (inside : i < data.length) :
    cksumLoop data i cksum = .ok (cksumFrom data i.toNat cksum) := by
  induction i, cksum using cksumLoop.induct with
  | case1 i cksum positive ih =>
      have place : i.toNat < data.length := by omega
      have read : index data i.toNat = .ok (data.getD i.toNat 0) := by
        rw [index, List.getElem?_eq_getElem place, List.getD_eq_getElem _ _ place]
      have down : (i - 200).toNat = i.toNat - 200 := by omega
      rw [cksumLoop, if_pos positive, read, Outcome.ok_bind, ih _ (by omega), down, cksumFrom.eq_def _ i.toNat,
        if_pos (by omega)]
  | case2 i cksum done =>
      rw [cksumLoop, if_neg done, cksumFrom, if_neg (by omega)]

end Words

section Pages

variable {grow : Nat → Nat → Nat} {capacity pgno : Nat} {data : List UInt8} {shadow : List Block}

theorem le_roomFor (grows : ∀ capacity len, len ≤ grow capacity len) :
    capacity ≤ roomFor grow capacity pgno ∧ pgno ≤ roomFor grow capacity pgno := by
  rw [roomFor]
  split
  · next room => exact ⟨Nat.le_refl _, room⟩
  · next full =>
      have enough := grows capacity pgno
      omega

theorem le_capacityAfter (grows : ∀ capacity len, len ≤ grow capacity len) (capacity : Nat) (pages : List Nat) :
    capacity ≤ capacityAfter grow capacity pages := by
  induction pages generalizing capacity with
  | nil => exact Nat.le_refl _
  | cons pgno rest ih => exact Nat.le_trans (le_roomFor grows).1 (ih (roomFor grow capacity pgno))

theorem length_writePage (shadow : List Block) (idx : Nat) (page : Block) :
    (writePage shadow idx page).length = max shadow.length (idx + 1) := by
  simp only [writePage, List.length_set, List.length_append, List.length_replicate]
  omega

/-- A page is written unless the vector would have to grow too far for it. -/
theorem applyPage_eq (some_page : pgno ≠ 0) (small : pgno < 2 ^ 32) (whole : data.length = blockSize)
    (fits : shadow.length ≤ capacity) (held : Allocatable capacity) :
    applyPage grow pgno data ⟨shadow, capacity⟩ =
      if Allocatable (roomFor grow capacity pgno) then
        .ok ⟨writePage shadow (pgno - 1) (pageOf data), roomFor grow capacity pgno⟩
      else .panic := by
  have back : pgno - 1 + 1 = pgno := by omega
  rw [applyPage, sub_eq (by omega), Outcome.ok_bind]
  by_cases outside : shadow.length ≤ pgno - 1
  · rw [if_pos outside, add_eq (by omega), Outcome.ok_bind, back]
    have copied : ∀ room, PageVec.copyPage (pgno - 1) data
        ⟨shadow ++ List.replicate (pgno - shadow.length) zeroBlock, room⟩ =
          .ok ⟨writePage shadow (pgno - 1) (pageOf data), room⟩ := by
      intro room
      have inside : pgno - 1 < (shadow ++ List.replicate (pgno - shadow.length) zeroBlock).length := by
        rw [List.length_append, List.length_replicate]
        omega
      rw [PageVec.copyPage, if_pos ⟨inside, whole⟩, writePage, back]
    by_cases room : pgno ≤ capacity
    · rw [PageVec.resize, if_pos room, Outcome.ok_bind, copied, roomFor, if_pos room, if_pos held]
    · rw [PageVec.resize, if_neg room, roomFor, if_neg room]
      by_cases granted : Allocatable (grow capacity pgno)
      · rw [if_pos granted, if_pos granted, Outcome.ok_bind, copied]
      · rw [if_neg granted, if_neg granted, Outcome.panic_bind]
  · have inside : pgno - 1 < shadow.length := by omega
    have room : pgno ≤ capacity := by omega
    rw [if_neg outside, PageVec.copyPage, if_pos ⟨inside, whole⟩, roomFor, if_pos room, if_pos held,
      writePage_inside inside]

end Pages

section Records

variable {grow : Nat → Nat → Nat} {journal : Slice 32} {nonce maxPages bound cap applied off total : Nat}
  {shadow : List Block} {capacity : Nat}

/-- Where the records end, unless they end the journal, and the image they leave. -/
def endOff : SegmentEnd → Option Nat
  | .next off _ => some off
  | .stop _ => none

def endShadow : SegmentEnd → List Block
  | .next _ shadow => shadow
  | .stop shadow => shadow

/-- The same end with the room of the vector. -/
def ended (room : Nat) : SegmentEnd → RecordsEnd
  | .next off shadow => .next off ⟨shadow, room⟩
  | .stop shadow => .stop ⟨shadow, room⟩

/-- The largest page number in the target's own numbers. -/
def SameBound (maxPages bound : Nat) : Prop := ∀ n < 2 ^ 32, maxPages < n ↔ bound < n

theorem recordsLeft_succ (journal : List UInt8) (more : applied < cap) (room : off + recSize ≤ journal.length) :
    recordsLeft journal (cap - applied) off =
      recordsLeft journal (cap - (applied + 1)) (off + recSize) + 1 := by
  have divided : (journal.length - off) / recSize = (journal.length - off - recSize) / recSize + 1 :=
    Nat.div_eq_sub_div (by decide) (by omega)
  rw [recordsLeft, recordsLeft, divided, Nat.sub_sub]
  omega

theorem recordsLeft_zero (journal : List UInt8) (done : ¬(applied < cap ∧ off + recSize ≤ journal.length)) :
    recordsLeft journal (cap - applied) off = 0 := by
  rw [recordsLeft]
  by_cases more : applied < cap
  · have short : (journal.length - off) / recSize = 0 := by
      apply Nat.div_eq_of_lt
      have positive : 0 < recSize := by decide
      omega
    rw [short, Nat.min_zero]
  · rw [Nat.sub_eq_zero_of_le (by omega), Nat.zero_min]

/-- The format's own loop, a record at a time. -/
theorem applyRecords_step (journal : List UInt8) (more : applied < cap)
    (room : off + recSize ≤ journal.length) (shadow : List Block) :
    applyRecords journal nonce bound cap applied off shadow =
      match recordAt journal nonce bound off with
      | none => .stop shadow
      | some pgno => applyRecords journal nonce bound cap (applied + 1) (off + recSize)
          (writePage shadow (pgno - 1) (pageOf (slice journal (off + 4) blockSize))) := by
  rw [applyRecords, if_pos ⟨more, room⟩, recordAt]
  dsimp only
  split
  · rfl
  · split
    · rfl
    · rfl

/-- One turn of the loop. -/
theorem records_step (same : SameBound maxPages bound) (more : applied < cap) (counted : cap < 2 ^ 64)
    (room : off + recSize ≤ journal.bytes.length) (small : off + recSize < 2 ^ 32) (fuel : Nat)
    (v : PageVec) :
    records grow journal nonce blockSize recSize maxPages cap (fuel + 1) applied off v =
      match recordAt journal.bytes nonce bound off with
      | none => .ok (.stop v)
      | some pgno => applyPage grow pgno (slice journal.bytes (off + 4) blockSize) v >>= fun written =>
          records grow journal nonce blockSize recSize maxPages cap fuel (applied + 1) (off + recSize)
            written := by
  have record : recSize = blockSize + 8 := rfl
  have length : (slice journal.bytes (off + 4) blockSize).length = blockSize := by
    rw [slice, List.length_take, List.length_drop]
    omega
  have sum : cksumLoop (slice journal.bytes (off + 4) blockSize) ((blockSize : Int) - 200) nonce =
      .ok (pagerCksum nonce (slice journal.bytes (off + 4) blockSize)) := by
    rw [cksumLoop_eq _ _ (by omega)]
    rfl
  have bounds := same _ (be32_lt journal.bytes (by omega : off + 4 ≤ journal.bytes.length))
  rw [records, if_pos more, add_eq small, Outcome.ok_bind, if_pos room, u32At_eq (by omega), Outcome.ok_bind, add_eq (by omega), Outcome.ok_bind,
    add_eq (by omega), Outcome.ok_bind, range_eq (by omega), Outcome.ok_bind, u32At_eq (by omega),
    Outcome.ok_bind, sum, Outcome.ok_bind, recordAt]
  by_cases torn : pagerCksum nonce (slice journal.bytes (off + 4) blockSize) ≠
      be32 journal.bytes (off + 4 + blockSize)
  · rw [if_pos torn, if_pos torn]
    rfl
  · rw [if_neg torn, if_neg torn]
    by_cases out : be32 journal.bytes off = 0 ∨ bound < be32 journal.bytes off
    · rw [if_pos (out.imp_right bounds.mpr), if_pos out]
      rfl
    · rw [if_neg (mt (Or.imp_right bounds.mp) out), if_neg out]
      dsimp only
      rw [addUsize_eq (by omega)]
      rfl

theorem recordAt_some {journal : List UInt8} {pgno : Nat} (found : recordAt journal nonce bound off = some pgno)
    (room : off + recSize ≤ journal.length) : pgno ≠ 0 ∧ pgno < 2 ^ 32 := by
  have record : recSize = blockSize + 8 := rfl
  have small := be32_lt journal (by omega : off + 4 ≤ journal.length)
  rw [recordAt] at found
  split at found
  · cases found
  · split at found
    · cases found
    · next inside =>
        cases found
        exact ⟨fun zero => inside (Or.inl zero), small⟩

/-- Where no record is left the loop goes on to the next header. -/
theorem records_done (done : ¬(applied < cap ∧ off + recSize ≤ journal.bytes.length))
    (small : off + recSize < 2 ^ 32) (fuel : Nat) (v : PageVec) :
    records grow journal nonce blockSize recSize maxPages cap (fuel + 1) applied off v = .ok (.next off v) := by
  rw [records]
  by_cases more : applied < cap
  · rw [if_pos more, add_eq small, Outcome.ok_bind, if_neg (fun room => done ⟨more, room⟩)]
    rfl
  · rw [if_neg more]
    rfl

/-- Where the format's loop ends, and how long the image is there. -/
theorem applyRecords_ends (grows : ∀ capacity len, len ≤ grow capacity len) (journal : List UInt8) {left : Nat}
    (counted : recordsLeft journal (cap - applied) off = left) (fits : shadow.length ≤ capacity) :
    endOff (applyRecords journal nonce bound cap applied off shadow) =
        (recordPages journal nonce bound left off).2 ∧
      (endShadow (applyRecords journal nonce bound cap applied off shadow)).length ≤
        capacityAfter grow capacity (recordPages journal nonce bound left off).1 := by
  induction left generalizing applied off shadow capacity with
  | zero =>
      have done : ¬(applied < cap ∧ off + recSize ≤ journal.length) := by
        intro more
        rw [recordsLeft_succ journal more.1 more.2] at counted
        omega
      rw [applyRecords, if_neg done]
      exact ⟨rfl, fits⟩
  | succ left ih =>
      have more : applied < cap ∧ off + recSize ≤ journal.length := by
        by_contra done
        rw [recordsLeft_zero journal done] at counted
        omega
      rw [recordsLeft_succ journal more.1 more.2] at counted
      rw [applyRecords_step journal more.1 more.2, recordPages]
      cases found : recordAt journal nonce bound off with
      | none => exact ⟨rfl, fits⟩
      | some pgno =>
          have number := recordAt_some found more.2
          have grown := @le_roomFor grow capacity pgno grows
          have fits' : (writePage shadow (pgno - 1)
              (pageOf (slice journal (off + 4) blockSize))).length ≤ roomFor grow capacity pgno := by
            rw [length_writePage]
            omega
          exact ih (by omega) fits'

/-- The record loop returns what the format says, unless the vector would have to grow too far. -/
theorem records_eq (grows : ∀ capacity len, len ≤ grow capacity len) (same : SameBound maxPages bound)
    (counted : cap < 2 ^ 64) (length : journal.bytes.length ≤ isizeMax) {fuel : Nat}
    (enough : journal.bytes.length - off < fuel) (small : off + recSize < 2 ^ 32)
    (fits : shadow.length ≤ capacity) (held : Allocatable capacity) :
    let left := recordsLeft journal.bytes (cap - applied) off
    let room := capacityAfter grow capacity (recordPages journal.bytes nonce bound left off).1
    records grow journal nonce blockSize recSize maxPages cap fuel applied off ⟨shadow, capacity⟩ =
      if Allocatable room then
        .ok (ended room (applyRecords journal.bytes nonce bound cap applied off shadow))
      else .panic := by
  have record : recSize = blockSize + 8 := rfl
  have block : blockSize = 4096 := rfl
  have largest : isizeMax = 2147483647 := rfl
  induction fuel generalizing applied off shadow capacity with
  | zero => omega
  | succ fuel ih =>
      dsimp only
      by_cases more : applied < cap ∧ off + recSize ≤ journal.bytes.length
      · rw [records_step same more.1 counted more.2 small, applyRecords_step journal.bytes more.1 more.2,
          recordsLeft_succ journal.bytes more.1 more.2, recordPages]
        cases found : recordAt journal.bytes nonce bound off with
        | none =>
            show _ = if Allocatable capacity then _ else _
            rw [if_pos held]
            rfl
        | some pgno =>
            have number := recordAt_some found more.2
            have whole : (slice journal.bytes (off + 4) blockSize).length = blockSize := by
              rw [slice, List.length_take, List.length_drop]
              omega
            have grown := @le_roomFor grow capacity pgno grows
            have fits' : (writePage shadow (pgno - 1)
                (pageOf (slice journal.bytes (off + 4) blockSize))).length ≤ roomFor grow capacity pgno := by
              rw [length_writePage]
              omega
            dsimp only
            rw [applyPage_eq number.1 number.2 whole fits held]
            by_cases granted : Allocatable (roomFor grow capacity pgno)
            · rw [if_pos granted, Outcome.ok_bind]
              exact ih (by omega) (by omega) fits' granted
            · -- The room never gets less again.
              have later := le_capacityAfter grows (roomFor grow capacity pgno)
                (recordPages journal.bytes nonce bound
                  (recordsLeft journal.bytes (cap - (applied + 1)) (off + recSize)) (off + recSize)).1
              rw [if_neg granted, Outcome.panic_bind]
              show _ = if Allocatable (capacityAfter grow (roomFor grow capacity pgno) _) then _ else _
              rw [if_neg]
              exact fun kept => granted (kept.of_le later)
      · rw [records_done more small, recordsLeft_zero journal.bytes more, applyRecords, if_neg more]
        show _ = if Allocatable capacity then _ else _
        rw [if_pos held]
        rfl

end Records

section Segments

variable {grow : Nat → Nat → Nat} {journal : Slice 32} {sector maxPages bound segOff total capacity : Nat}
  {shadow : List Block}

/-- The counter that a segment's record loop runs to. -/
def recordCap (header : JournalHeader) : Nat :=
  if header.nRec = 0 ∨ header.nRec = 2 ^ 32 - 1 then 2 ^ 64 - 1 else header.nRec

/-- A sector that leaves room for a record behind it. -/
structure Sector (sector : Nat) : Prop where
  positive : 0 < sector
  whole : sector % blockSize = 0
  small : sector + 2 * blockSize ≤ 2 ^ 32

theorem divCeil_mul (positive : 0 < sector) (off : Nat) :
    divCeil off sector * sector = (off + sector - 1) / sector * sector := by
  have parts := Nat.div_add_mod off sector
  have short := Nat.mod_lt off positive
  rw [roundUp_eq positive, divCeil]
  by_cases rest : 0 < off % sector
  · rw [if_pos rest, Nat.mod_eq_of_lt (by omega : sector - off % sector < sector), Nat.add_mul, Nat.mul_comm]
    omega
  · have aligned : off % sector = 0 := by omega
    rw [if_neg rest, aligned, Nat.sub_zero, Nat.mod_self, Nat.mul_comm]
    omega

theorem whole_of_dvd (framed : Sector sector) (aligned : segOff % sector = 0) : segOff % blockSize = 0 :=
  Nat.mod_eq_zero_of_dvd (Nat.dvd_trans (Nat.dvd_of_mod_eq_zero framed.whole) (Nat.dvd_of_mod_eq_zero aligned))

/-- The records of a segment that is in the journal start below 2 ^ 32. -/
theorem records_small (framed : Sector sector) (aligned : segOff % sector = 0)
    (inside : segOff + 28 ≤ isizeMax) : segOff + sector + 2 * blockSize ≤ 2 ^ 32 := by
  have small := framed.small
  by_cases first : segOff = 0
  · omega
  · have below := Nat.le_of_dvd (Nat.pos_of_ne_zero first) (Nat.dvd_of_mod_eq_zero aligned)
    have whole := whole_of_dvd framed aligned
    have block : blockSize = 4096 := rfl
    have largest : isizeMax = 2147483647 := rfl
    rw [block] at whole small ⊢
    rw [largest] at inside
    omega

/-- So does the next header, and it is further on. -/
theorem next_small (framed : Sector sector) (aligned : segOff % sector = 0)
    (inside : segOff + 28 ≤ isizeMax) {off : Nat} (forward : segOff + sector ≤ off)
    (place : off = segOff + sector ∨ off ≤ isizeMax) :
    segOff < (off + sector - 1) / sector * sector ∧
      (off + sector - 1) / sector * sector + blockSize ≤ 2 ^ 32 ∧
      (off + sector - 1) / sector * sector % sector = 0 := by
  have next := roundUp_eq framed.positive off
  have multiple : (off + sector - 1) / sector * sector % sector = 0 := Nat.mul_mod_left _ _
  have whole := whole_of_dvd framed multiple
  have short := Nat.mod_lt (sector - off % sector) framed.positive
  have positive := framed.positive
  have start := records_small framed aligned inside
  refine ⟨by omega, ?_, multiple⟩
  rcases place with rfl | held
  · have even : (segOff + sector) % sector = 0 := by rw [Nat.add_mod_right, aligned]
    rw [even, Nat.sub_zero, Nat.mod_self] at next
    omega
  · have block : blockSize = 4096 := rfl
    have largest : isizeMax = 2147483647 := rfl
    rw [block] at whole ⊢
    rw [largest] at held
    omega

theorem segmentPages_end {bytes : List UInt8} {pageSize : Nat} (none_left : journalHeader bytes segOff = none) :
    segmentPages bytes pageSize sector bound segOff = [] := by
  rw [segmentPages, none_left]
  exact ite_self []

theorem inside_of_header {bytes : List UInt8} {header : JournalHeader}
    (found : journalHeader bytes segOff = some header) :
    segOff + 28 ≤ bytes.length ∧ slice bytes segOff 8 = journalMagic ∧ header =
      ⟨be32 bytes (segOff + 8), be32 bytes (segOff + 12), be32 bytes (segOff + 16),
        be32 bytes (segOff + 20), be32 bytes (segOff + 24)⟩ := by
  rw [journalHeader] at found
  split at found
  · next there =>
      cases found
      exact ⟨there.1, there.2, rfl⟩
  · cases found

/-- What follows the records of a segment. -/
def afterRecords (grow : Nat → Nat → Nat) (journal : Slice 32) (sector maxPages total fuel segOff : Nat) :
    RecordsEnd → Fallible PageVec
  | .stop done => .ok done
  | .next off done => mul (divCeil off sector) sector >>= fun next =>
      if next ≤ segOff then .ok done
      else segments grow journal blockSize sector recSize maxPages total fuel next done

/-- One turn of the segment loop. -/
theorem segments_step (small : segOff + blockSize ≤ 2 ^ 32) (fuel : Nat) (v : PageVec) :
    segments grow journal blockSize sector recSize maxPages total (fuel + 1) segOff v =
      match journalHeader journal.bytes segOff with
      | none => .ok v
      | some header =>
          if header.pageSize ≠ blockSize ∨ header.sector ≠ sector then .ok v
          else add segOff sector >>= fun off =>
            records grow journal header.nonce blockSize recSize maxPages (recordCap header) total 0 off v >>=
              afterRecords grow journal sector maxPages total fuel segOff := by
  have block : blockSize = 4096 := rfl
  rw [segments, add_eq (by omega), Outcome.ok_bind, journalHeader]
  by_cases inside : segOff + 28 ≤ journal.bytes.length
  · rw [if_neg (by omega), add_eq (by omega), Outcome.ok_bind, range_eq (by omega), Outcome.ok_bind]
    by_cases magic : slice journal.bytes segOff 8 = journalMagic
    · rw [if_neg (not_not_intro magic), if_pos ⟨inside, magic⟩, Outcome.ok_bind,
        u32At_eq (by omega), Outcome.ok_bind, add_eq (by omega), Outcome.ok_bind, u32At_eq (by omega),
        Outcome.ok_bind, add_eq (by omega), Outcome.ok_bind, u32At_eq (by omega), Outcome.ok_bind,
        add_eq (by omega), Outcome.ok_bind, u32At_eq (by omega), Outcome.ok_bind]
      dsimp only
      split
      · rfl
      · refine congrArg _ (funext fun off => congrArg _ (funext fun ends => ?_))
        cases ends with
        | stop done => rfl
        | next off done => rfl
    · rw [if_pos magic, if_neg (fun both => magic both.2)]
      rfl
  · rw [if_pos (by omega), if_neg (fun both => inside both.1)]
    rfl

/-- Normal ends of the records are the last record's end. -/
theorem recordPages_end {bytes : List UInt8} {nonce left off stop : Nat}
    (ends : (recordPages bytes nonce bound left off).2 = some stop) : stop = off + left * recSize := by
  induction left generalizing off with
  | zero =>
      cases ends
      omega
  | succ left ih =>
      rw [recordPages] at ends
      cases found : recordAt bytes nonce bound off with
      | none => simp [found] at ends
      | some pgno =>
          rw [found] at ends
          have later := ih ends
          rw [later, Nat.add_mul, Nat.one_mul]
          omega

theorem place_of_end {bytes : List UInt8} {nonce cap off stop : Nat} (length : bytes.length ≤ isizeMax)
    (ends : (recordPages bytes nonce bound (recordsLeft bytes cap off) off).2 = some stop) :
    off ≤ stop ∧ (stop = off ∨ stop ≤ isizeMax) := by
  have place := recordPages_end ends
  have fits : recordsLeft bytes cap off * recSize ≤ bytes.length - off :=
    Nat.le_trans (Nat.mul_le_mul_right recSize (Nat.min_le_right _ _)) (Nat.div_mul_le_self _ _)
  refine ⟨by omega, ?_⟩
  by_cases none_left : recordsLeft bytes cap off = 0
  · rw [none_left, Nat.zero_mul] at place
    exact Or.inl place
  · have some_left : 1 * recSize ≤ recordsLeft bytes cap off * recSize :=
      Nat.mul_le_mul_right recSize (Nat.pos_of_ne_zero none_left)
    have positive : 0 < recSize := by decide
    right
    omega

theorem recordCap_lt {header : JournalHeader} (small : header.nRec < 2 ^ 32) :
    0 < recordCap header ∧ recordCap header < 2 ^ 64 := by
  rw [recordCap]
  split
  · exact ⟨by omega, by omega⟩
  · exact ⟨by omega, by omega⟩

theorem capacityAfter_append (capacity : Nat) (pages later : List Nat) :
    capacityAfter grow capacity (pages ++ later) = capacityAfter grow (capacityAfter grow capacity pages) later :=
  List.foldl_append

/-- The pages of a segment, and those behind it. -/
theorem segmentPages_segment {bytes : List UInt8} {header : JournalHeader} {pages : List Nat} {next : Option Nat}
    (found : journalHeader bytes segOff = some header) (framing : header.pageSize = blockSize ∧ header.sector = sector)
    (read : recordPages bytes header.nonce bound (recordsLeft bytes (recordCap header) (segOff + sector))
      (segOff + sector) = (pages, next)) :
    segmentPages bytes blockSize sector bound segOff = pages ++ match next with
      | none => []
      | some off =>
          if (off + sector - 1) / sector * sector ≤ segOff then []
          else segmentPages bytes blockSize sector bound ((off + sector - 1) / sector * sector) := by
  have inside := (inside_of_header found).1
  have same : ¬(header.pageSize ≠ blockSize ∨ header.sector ≠ sector) := by simp [framing.1, framing.2]
  rw [recordCap] at read
  rw [segmentPages, if_pos (by omega), found]
  dsimp only
  rw [if_neg same, read]
  cases next with
  | none => exact (List.append_nil pages).symm
  | some off =>
      dsimp only
      split
      · exact (List.append_nil pages).symm
      · rfl

/-- The image after a segment, and what is behind it played over that. -/
theorem applySegments_segment {bytes : List UInt8} {header : JournalHeader}
    (found : journalHeader bytes segOff = some header) (framing : header.pageSize = blockSize ∧ header.sector = sector) :
    applySegments bytes blockSize sector bound segOff shadow =
      match applyRecords bytes header.nonce bound (recordCap header) 0 (segOff + sector) shadow with
      | .stop done => done
      | .next off done =>
          if (off + sector - 1) / sector * sector ≤ segOff then done
          else applySegments bytes blockSize sector bound ((off + sector - 1) / sector * sector) done := by
  have inside := (inside_of_header found).1
  have same : ¬(header.pageSize ≠ blockSize ∨ header.sector ≠ sector) := by simp [framing.1, framing.2]
  rw [applySegments, if_pos (by omega), found]
  exact if_neg same

/-- The machine's own turn over a segment. -/
theorem segments_segment {header : JournalHeader} (small : segOff + sector < 2 ^ 32)
    (low : segOff + blockSize ≤ 2 ^ 32) (found : journalHeader journal.bytes segOff = some header)
    (framing : header.pageSize = blockSize ∧ header.sector = sector) (fuel : Nat) (v : PageVec) :
    segments grow journal blockSize sector recSize maxPages total (fuel + 1) segOff v =
      records grow journal header.nonce blockSize recSize maxPages (recordCap header) total 0 (segOff + sector) v >>=
        afterRecords grow journal sector maxPages total fuel segOff := by
  have same : ¬(header.pageSize ≠ blockSize ∨ header.sector ≠ sector) := by simp [framing.1, framing.2]
  rw [segments_step low, found]
  dsimp only
  rw [if_neg same, add_eq small, Outcome.ok_bind]

/-- The segment loop returns what the format says, unless the vector would have to grow too far. -/
theorem segments_eq (grows : ∀ capacity len, len ≤ grow capacity len) (same : SameBound maxPages bound)
    (framed : Sector sector) (length : journal.bytes.length ≤ isizeMax)
    (whole : journal.bytes.length < total) {fuel : Nat} (enough : journal.bytes.length - segOff < fuel)
    (aligned : segOff % sector = 0) (small : segOff + blockSize ≤ 2 ^ 32)
    (fits : shadow.length ≤ capacity) (held : Allocatable capacity) :
    let room := capacityAfter grow capacity (segmentPages journal.bytes blockSize sector bound segOff)
    segments grow journal blockSize sector recSize maxPages total fuel segOff ⟨shadow, capacity⟩ =
      if Allocatable room then
        .ok ⟨applySegments journal.bytes blockSize sector bound segOff shadow, room⟩
      else .panic := by
  induction fuel generalizing segOff shadow capacity with
  | zero => omega
  | succ fuel ih =>
      dsimp only
      cases found : journalHeader journal.bytes segOff with
      | none =>
          rw [segments_step small, found, segmentPages_end found, applySegments_end found]
          exact (if_pos held).symm
      | some header =>
          obtain ⟨inside, _, fields⟩ := inside_of_header found
          have within : segOff < journal.bytes.length := by omega
          by_cases framing : header.pageSize = blockSize ∧ header.sector = sector
          · have room := records_small framed aligned (Nat.le_trans inside length)
            have record : recSize + 4088 = 2 * blockSize := rfl
            have small_count : header.nRec < 2 ^ 32 := by
              rw [fields]
              exact be32_lt _ (by omega)
            have counted := recordCap_lt small_count
            have fuelled : journal.bytes.length - (segOff + sector) < total := by omega
            have place : segOff + sector + recSize < 2 ^ 32 := by omega
            obtain ⟨pages, next, read⟩ : ∃ pages next, recordPages journal.bytes header.nonce bound
                (recordsLeft journal.bytes (recordCap header) (segOff + sector)) (segOff + sector) =
                  (pages, next) := ⟨_, _, rfl⟩
            have ran := @records_eq grow journal header.nonce maxPages bound (recordCap header) 0
              (segOff + sector) shadow capacity grows same counted.2 length total fuelled place fits held
            have stops := @applyRecords_ends grow header.nonce bound (recordCap header) 0 (segOff + sector)
              shadow capacity grows journal.bytes _ rfl fits
            dsimp only at ran
            rw [Nat.sub_zero, read] at ran stops
            have held_pages := segmentPages_segment found framing read
            have played := @applySegments_segment sector bound segOff shadow journal.bytes header found framing
            rw [segments_segment (by omega) small found framing]
            by_cases granted : Allocatable (capacityAfter grow capacity pages)
            · rw [ran.trans (if_pos granted), Outcome.ok_bind]
              cases ends : applyRecords journal.bytes header.nonce bound (recordCap header) 0 (segOff + sector)
                  shadow with
              | stop done =>
                  rw [ends] at stops played
                  obtain rfl : next = none := stops.1.symm
                  rw [held_pages.trans (List.append_nil pages), played]
                  exact (if_pos granted).symm
              | next off done =>
                  rw [ends] at stops played
                  obtain rfl : next = some off := stops.1.symm
                  have ended_at := place_of_end length (congrArg Prod.snd read)
                  obtain ⟨further, low, even⟩ := next_small framed aligned (Nat.le_trans inside length)
                    ended_at.1 ended_at.2
                  have forward : ¬(off + sector - 1) / sector * sector ≤ segOff := by omega
                  have positive : 0 < blockSize := by decide
                  have product : mul (divCeil off sector) sector = .ok ((off + sector - 1) / sector * sector) := by
                    rw [← divCeil_mul framed.positive]
                    apply mul_eq
                    rw [divCeil_mul framed.positive]
                    omega
                  have turned : afterRecords grow journal sector maxPages total fuel segOff
                      (ended (capacityAfter grow capacity pages) (.next off done)) =
                    segments grow journal blockSize sector recSize maxPages total fuel
                      ((off + sector - 1) / sector * sector) ⟨done, capacityAfter grow capacity pages⟩ := by
                    show mul (divCeil off sector) sector >>= _ = _
                    rw [product, Outcome.ok_bind]
                    exact if_neg forward
                  rw [turned, held_pages.trans (congrArg (pages ++ ·) (if_neg forward)),
                    played.trans (if_neg forward), capacityAfter_append]
                  exact ih (by omega) even low stops.2 granted
            · rw [ran.trans (if_neg granted), Outcome.panic_bind, held_pages, capacityAfter_append]
              -- What did not fit here does not fit later.
              exact (if_neg fun kept => granted (kept.of_le (le_capacityAfter grows _ _))).symm
          · have no_pages : segmentPages journal.bytes blockSize sector bound segOff = [] := by
              rw [segmentPages, if_pos within, found]
              exact if_pos (not_and_or.mp framing)
            have unchanged : applySegments journal.bytes blockSize sector bound segOff shadow = shadow := by
              rw [applySegments, if_pos within, found]
              exact if_pos (not_and_or.mp framing)
            rw [segments_step small, found, no_pages, unchanged]
            exact (if_pos (not_and_or.mp framing)).trans (if_pos held).symm

end Segments

section Replay

variable {grow : Nat → Nat → Nat} {journal : Slice 32} {main : List Block} {first : JournalHeader} {fuel : Nat}

def ofExcept {α : Type} : Except OpfsSAHError α → Fallible α
  | .ok a => .ok a
  | .error e => .error e

/-- The cut to the length that the journal restores. -/
def cutTo (initPages : Nat) (shadow : List Block) : List Block :=
  if 0 < initPages ∧ initPages < shadow.length then shadow.take initPages else shadow

/-- The largest page number that a journal may hold. -/
def pageBound (journal : List UInt8) (first : JournalHeader) (pages : Nat) : Nat :=
  max (max first.initPages pages) (journal.length / recSize) + 8

theorem sameBound_pageBound (n : Nat) : SameBound (saturatingAdd n 8) (n + 8) := by
  intro k small
  rw [saturatingAdd]
  omega

theorem sector_lt (found : journalHeader journal.bytes 0 = some first) : first.sector < 2 ^ 32 := by
  obtain ⟨inside, _, fields⟩ := inside_of_header found
  rw [fields]
  exact be32_lt _ (by omega)

/-- The function up to its segment loop. -/
theorem replayJournalRoot_framed (framed : Framed journal.bytes first) :
    replayJournalRoot grow fuel journal main =
      segments grow journal blockSize first.sector recSize
          (saturatingAdd (max (max first.initPages main.length) (journal.bytes.length / recSize)) 8) fuel fuel 0
          ⟨main, main.length⟩ >>= fun shadow => .ok (cutTo first.initPages shadow.pages) := by
  obtain ⟨inside, magic, fields⟩ := inside_of_header framed.header
  have pageSize : be32 journal.bytes 24 = blockSize := by
    rw [← framed.pageSize, fields]
  have sector : be32 journal.bytes 20 = first.sector := by rw [fields]
  have initPages : be32 journal.bytes 16 = first.initPages := by rw [fields]
  have whole : ¬(first.sector = 0 ∨ first.sector % blockSize ≠ 0) := by
    rw [not_or, not_not]
    exact framed.sector
  have front : (journal.range 0 8 : Fallible (List UInt8)) = .ok journalMagic := by
    rw [← magic]
    exact @range_eq journal 0 8 (by omega)
  rw [replayJournalRoot, if_neg (by omega), front, Outcome.ok_bind, if_neg (not_not_intro rfl),
    u32At_eq (by omega), Outcome.ok_bind, u32At_eq (by omega), Outcome.ok_bind, u32At_eq (by omega),
    Outcome.ok_bind, pageSize, sector, initPages, if_neg (not_not_intro rfl), if_neg whole,
    add_eq (by decide), Outcome.ok_bind]
  dsimp only
  congr 1
  funext shadow
  rw [cutTo]
  split
  · rfl
  · rfl

/-- What the format says of the same journal. -/
theorem replayJournal_framed (framed : Framed journal.bytes first) :
    replayJournal journal.bytes main = .ok (cutTo first.initPages
      (applySegments journal.bytes blockSize first.sector (pageBound journal.bytes first main.length) 0 main)) := by
  have whole : ¬(first.sector = 0 ∨ first.sector % blockSize ≠ 0) := by
    rw [not_or, not_not]
    exact framed.sector
  rw [replayJournal, framed.header]
  dsimp only
  rw [framed.pageSize, if_neg (not_not_intro rfl), if_neg whole, cutTo, pageBound]
  split
  · rfl
  · rfl

/-- A journal without a first header that is played back is refused. -/
theorem replay_unframed (unframed : ∀ first, ¬Framed journal.bytes first) :
    replayJournalRoot grow fuel journal main = ofExcept (replayJournal journal.bytes main) := by
  rw [replayJournal]
  cases found : journalHeader journal.bytes 0 with
  | none =>
      rw [replayJournalRoot]
      by_cases short : journal.bytes.length < 28
      · rw [if_pos short]
        rfl
      · have front := @range_eq journal 0 8 (by omega)
        have wrong : slice journal.bytes 0 8 ≠ journalMagic := by
          intro magic
          rw [journalHeader, if_pos ⟨by omega, magic⟩] at found
          cases found
        rw [if_neg short, front, Outcome.ok_bind, if_pos wrong]
        rfl
  | some first =>
      obtain ⟨inside, magic, fields⟩ := inside_of_header found
      have pageSize : be32 journal.bytes 24 = first.pageSize := by rw [fields]
      have sector : be32 journal.bytes 20 = first.sector := by rw [fields]
      have front : (journal.range 0 8 : Fallible (List UInt8)) = .ok journalMagic := by
        rw [← magic]
        exact @range_eq journal 0 8 (by omega)
      rw [replayJournalRoot, if_neg (by omega), front, Outcome.ok_bind, if_neg (not_not_intro rfl),
        u32At_eq (by omega), Outcome.ok_bind, u32At_eq (by omega), Outcome.ok_bind, u32At_eq (by omega),
        Outcome.ok_bind, pageSize, sector]
      dsimp only
      by_cases same : first.pageSize = blockSize
      · rw [if_neg (not_not_intro same), if_neg (not_not_intro same)]
        by_cases bad : first.sector = 0 ∨ first.sector % blockSize ≠ 0
        · rw [if_pos bad, if_pos bad]
          rfl
        · rw [not_or, not_not] at bad
          exact absurd ⟨found, same, bad⟩ (unframed first)
      · rw [if_pos same, if_pos same]
        rfl

/-- The segment loop over a sector that leaves no room behind it. -/
theorem segments_overflow {maxPages : Nat} (framed : Framed journal.bytes first)
    (last : first.sector = 2 ^ 32 - blockSize) (v : PageVec) :
    segments grow journal blockSize first.sector recSize maxPages (fuel + 1) (fuel + 1) 0 v = .panic := by
  obtain ⟨inside, _, fields⟩ := inside_of_header framed.header
  have small : first.nRec < 2 ^ 32 := by
    rw [fields]
    exact be32_lt _ (by omega)
  have counted := recordCap_lt small
  have record : recSize = blockSize + 8 := rfl
  have block : blockSize = 4096 := rfl
  rw [segments_segment (by omega) (by omega) framed.header ⟨framed.pageSize, rfl⟩, records,
    if_pos counted.1, add_panics (by omega), Outcome.panic_bind, Outcome.panic_bind]

/-- In range the function is the format's own replay, and out of range it panics. -/
theorem replayJournalRoot_eq (grows : ∀ capacity len, len ≤ grow capacity len)
    (length : journal.bytes.length ≤ isizeMax) (held : Allocatable main.length)
    (enough : journal.bytes.length < fuel) :
    (InRange grow journal.bytes main →
        replayJournalRoot grow fuel journal main = ofExcept (replayJournal journal.bytes main)) ∧
      (¬InRange grow journal.bytes main → replayJournalRoot grow fuel journal main = .panic) := by
  by_cases framing : ∃ first, Framed journal.bytes first
  · obtain ⟨first, framed⟩ := framing
    have unique : ∀ other, Framed journal.bytes other → other = first := by
      intro other same
      have header := same.header
      rw [framed.header, Option.some.injEq] at header
      exact header.symm
    have pages : journalPages journal.bytes main.length =
        segmentPages journal.bytes blockSize first.sector (pageBound journal.bytes first main.length) 0 := by
      rw [journalPages, framed.header]
      dsimp only
      rw [framed.pageSize]
      rfl
    have ranged : InRange grow journal.bytes main ↔ first.sector ≠ 2 ^ 32 - blockSize ∧
        Allocatable (capacityAfter grow main.length (journalPages journal.bytes main.length)) := by
      constructor
      · exact fun all => all first framed
      · rintro both other same
        rw [unique other same]
        exact both
    rw [ranged, pages, replayJournalRoot_framed framed]
    by_cases last : first.sector = 2 ^ 32 - blockSize
    · obtain ⟨more, rfl⟩ := Nat.exists_eq_add_of_lt (Nat.lt_of_le_of_lt (Nat.zero_le _) enough)
      rw [Nat.zero_add, segments_overflow framed last]
      exact ⟨fun both => absurd last both.1, fun _ => rfl⟩
    · have roomy : Sector first.sector := by
        have small := sector_lt framed.header
        have whole := framed.sector.2
        have block : blockSize = 4096 := rfl
        refine ⟨Nat.pos_of_ne_zero framed.sector.1, framed.sector.2, ?_⟩
        rw [block] at whole last ⊢
        omega
      let room := capacityAfter grow main.length
        (segmentPages journal.bytes blockSize first.sector (pageBound journal.bytes first main.length) 0)
      have ran : segments grow journal blockSize first.sector recSize
          (saturatingAdd (max (max first.initPages main.length) (journal.bytes.length / recSize)) 8) fuel fuel 0
          ⟨main, main.length⟩ =
        if Allocatable room then
          .ok ⟨applySegments journal.bytes blockSize first.sector (pageBound journal.bytes first main.length) 0
            main, room⟩
        else .panic :=
        segments_eq grows (sameBound_pageBound _) roomy length enough (by omega) (Nat.zero_mod _) (by decide)
          (Nat.le_refl _) held
      rw [ran]
      constructor
      · rintro ⟨_, granted⟩
        rw [if_pos granted, Outcome.ok_bind, replayJournal_framed framed]
        rfl
      · intro out
        rw [if_neg (fun granted => out ⟨last, granted⟩), Outcome.panic_bind]
  · rw [not_exists] at framing
    constructor
    · exact fun _ => replay_unframed framing
    · intro out
      exact absurd (fun first framed => absurd framed (framing first)) out

end Replay

section Decrypting

variable {P : Primitives} {f : OpenFile} {key : Key} {domain : Uuid} {fid : FileId}

/-- The places of a block in a file and in its plaintext are in range. -/
theorem places_small {k left size : Nat} (blocks : (k + (left + 1)) * 4136 ≤ size) (small : size + 4096 < 2 ^ 32) :
    k * 4136 < 2 ^ 32 ∧ 4096 + k * 4136 < 2 ^ 32 ∧ k * 4096 < 2 ^ 32 ∧ k * 4096 + 4096 < 2 ^ 32 := by
  omega

theorem physSize_lt (f : OpenFile) : f.physSize = 0 ∨ f.physSize + 4096 < 2 ^ 32 := by
  have size : f.physSize = min f.bytes.length (2 ^ 32 - 1) - 4096 := rfl
  omega

/-- Every block of the file is in range of the file and of the buffer. -/
theorem decryptFrom_returns {left k : Nat} {out : List UInt8} (blocks : (k + left) * physBlock ≤ f.physSize)
    (length : out.length = (k + left) * blockSize) : decryptFrom P f key domain fid left k out ≠ .panic := by
  induction left generalizing k out with
  | zero => simp [decryptFrom]
  | succ left ih =>
      have some_blocks : f.physSize ≠ 0 := by
        have one : 1 * physBlock ≤ (k + (left + 1)) * physBlock := Nat.mul_le_mul_right physBlock (by omega)
        have positive : 0 < physBlock := by decide
        omega
      have places : k * physBlock < 2 ^ 32 ∧ headerOffsetData + k * physBlock < 2 ^ 32 ∧
          k * blockSize < 2 ^ 32 ∧ k * blockSize + blockSize < 2 ^ 32 :=
        places_small blocks ((physSize_lt f).resolve_left some_blocks)
      obtain ⟨place, start, lo, hi⟩ := places
      have inside : k * blockSize + blockSize ≤ out.length := by
        rw [length, ← Nat.succ_mul]
        exact Nat.mul_le_mul_right blockSize (by omega)
      rw [decryptFrom, mul_eq place, Outcome.ok_bind, physRead, add_eq start, Outcome.ok_bind,
        Outcome.pure_eq, Outcome.ok_bind]
      split
      · rw [mul_eq lo, Outcome.ok_bind]
        simp
      · rw [mul_eq lo, Outcome.ok_bind, add_eq hi, Outcome.ok_bind, if_pos ⟨Nat.le_add_right _ _, inside⟩]
        split
        · simp
        · next plain _ =>
            have next : k + 1 + left = k + (left + 1) := by omega
            have blocks' : (k + 1 + left) * physBlock ≤ f.physSize :=
              Nat.le_trans (Nat.le_of_eq (congrArg (· * physBlock) next)) blocks
            have length' : (put 0 out (k * blockSize) plain.toList).length = (k + 1 + left) * blockSize := by
              rw [length_put, Vector.length_toList, Nat.max_eq_left inside, next, length]
            exact ih blocks' length'

/-- A file is decrypted, or refused, when its plaintext fits into a vector. -/
theorem decryptWholeFile_returns_iff :
    decryptWholeFile P f key domain fid ≠ .panic ↔ Allocatable (f.physSize / physBlock) := by
  have whole : f.physSize / physBlock * physBlock ≤ f.physSize := Nat.div_mul_le_self f.physSize physBlock
  have smaller : f.physSize / physBlock * blockSize ≤ f.physSize / physBlock * physBlock :=
    Nat.mul_le_mul_left _ (by decide)
  have small : f.physSize < 2 ^ 32 := by
    have sized := physSize_lt f
    omega
  rw [decryptWholeFile, mul_eq (Nat.lt_of_le_of_lt (Nat.le_trans smaller whole) small), Outcome.ok_bind]
  by_cases held : Allocatable (f.physSize / physBlock)
  · have returns : decryptFrom P f key domain fid (f.physSize / physBlock) 0
        (List.replicate (f.physSize / physBlock * blockSize) 0) ≠ .panic := by
      have blocks : (0 + f.physSize / physBlock) * physBlock ≤ f.physSize :=
        Nat.le_trans (Nat.le_of_eq (congrArg (· * physBlock) (Nat.zero_add _))) whole
      have length : (List.replicate (f.physSize / physBlock * blockSize) (0 : UInt8)).length =
          (0 + f.physSize / physBlock) * blockSize := by rw [List.length_replicate, Nat.zero_add]
      exact decryptFrom_returns blocks length
    rw [if_neg (Nat.not_lt_of_le held)]
    exact iff_of_true returns held
  · rw [if_pos (Nat.lt_of_not_le held)]
    exact iff_of_false (fun returned => returned rfl) held

end Decrypting

/-- A file decrypts without a panic when its plaintext fits into a vector; and a journal is played back
without a panic, and in no more turns of each loop than it has bytes, unless its sectors are the largest
there are or its page numbers ask for too long a vector. -/
theorem replay_returns {grow : Nat → Nat → Nat} (grows : ∀ capacity len, len ≤ grow capacity len) :
    (∀ (P : Primitives) (f : OpenFile) (key : Key) (domain : Uuid) (fid : FileId),
      decryptWholeFile P f key domain fid ≠ .panic ↔ Allocatable (f.physSize / physBlock)) ∧
    ∀ (journal : Slice 32) (main : List Block), journal.bytes.length ≤ isizeMax → Allocatable main.length →
      ∀ fuel, journal.bytes.length < fuel →
        (replayJournalRoot grow fuel journal main ≠ .panic ↔ InRange grow journal.bytes main) := by
  refine ⟨fun P f key domain fid => decryptWholeFile_returns_iff, ?_⟩
  intro journal main length held fuel enough
  obtain ⟨returns, panics⟩ := replayJournalRoot_eq grows length held enough
  constructor
  · intro returned
    by_contra out
    exact returned (panics out)
  · intro ranged
    rw [returns ranged]
    cases replayJournal journal.bytes main with
    | ok image => simp [ofExcept]
    | error e => simp [ofExcept]

/-- How a vector grows that is twice as long each time. -/
def doubling (capacity len : Nat) : Nat := max (2 * capacity) len

/-- A journal of one header. -/
def bareJournal (sector : Nat) : Slice 32 :=
  ⟨headerBytes sector 1 1 0 ++ List.replicate 4068 0, by
    rw [List.length_append, length_headerBytes, List.length_replicate]
    omega⟩

theorem length_bareJournal (sector : Nat) : (bareJournal sector).bytes.length = 4096 := by
  rw [bareJournal, List.length_append, length_headerBytes, List.length_replicate]

theorem header_bareJournal {sector : Nat} (small : sector < 2 ^ 32) :
    journalHeader (bareJournal sector).bytes 0 = some ⟨1, 0, 1, sector, blockSize⟩ :=
  journalHeader_headerBytes _ small (by decide) (by decide) (by decide)

theorem framed_bareJournal {sector : Nat} (small : sector < 2 ^ 32) (whole : sector ≠ 0 ∧ sector % blockSize = 0) :
    Framed (bareJournal sector).bytes ⟨1, 0, 1, sector, blockSize⟩ :=
  ⟨header_bareJournal small, rfl, whole⟩

/-- A header without a record holds no page. -/
theorem journalPages_bareJournal : journalPages (bareJournal 4096).bytes 0 = [] := by
  have length := length_bareJournal 4096
  have header := header_bareJournal (by decide : 4096 < 2 ^ 32)
  have empty : recordsLeft (bareJournal 4096).bytes (recordCap ⟨1, 0, 1, 4096, blockSize⟩) (0 + 4096) = 0 := by
    rw [recordsLeft, length]
    decide
  have behind : journalHeader (bareJournal 4096).bytes 4096 = none := by
    rw [journalHeader, if_neg]
    omega
  rw [journalPages, header]
  dsimp only
  rw [segmentPages_segment header ⟨rfl, rfl⟩ (by rw [empty])]
  exact segmentPages_end behind

theorem replay_returns_bare : replayJournalRoot doubling 4097 (bareJournal 4096) [] ≠ .panic := by
  have returns := replay_returns (fun capacity len => Nat.le_max_right (2 * capacity) len)
  have length := length_bareJournal 4096
  have short : (bareJournal 4096).bytes.length ≤ isizeMax := by
    rw [length]
    decide
  have enough : (bareJournal 4096).bytes.length < 4097 := by omega
  apply (returns.2 (bareJournal 4096) [] short (by decide) 4097 enough).mpr
  intro first framed
  have header := header_bareJournal (by decide : 4096 < 2 ^ 32)
  obtain rfl := Option.some.inj (framed.header.symm.trans header)
  refine ⟨by decide, ?_⟩
  rw [List.length_nil, journalPages_bareJournal]
  decide

/-- The header of a file of 2 ^ 19 pages, and a record of the last of them. -/
def farJournal : Slice 32 :=
  ⟨headerBytes 4096 0x80000 1 0 ++ List.replicate 4068 0 ++
      (recordBytes 0 0x80000 zeroBlock ++ List.replicate 4088 0), by
    rw [List.length_append, List.length_append, List.length_append, length_headerBytes, length_recordBytes,
      List.length_replicate, List.length_replicate]
    decide⟩

theorem length_farJournal : farJournal.bytes.length = 12288 := by
  rw [farJournal, List.length_append, List.length_append, List.length_append, length_headerBytes,
    length_recordBytes, List.length_replicate, List.length_replicate]
  rfl

theorem recordAt_farJournal : recordAt farJournal.bytes 0 (0x80000 + 8) 4096 = some 0x80000 := by
  let front := headerBytes 4096 0x80000 1 0 ++ List.replicate 4068 0
  have length : front.length = 4096 := by
    rw [List.length_append, length_headerBytes, List.length_replicate]
  have number := @record_number 0 front (List.replicate 4088 0) 0x80000 zeroBlock (by decide)
  have data := @record_data 0 front (List.replicate 4088 0) 0x80000 zeroBlock
  have stored := @record_cksum 0 front (List.replicate 4088 0) 0x80000 zeroBlock (by decide)
  rw [length] at number data stored
  rw [recordAt, show farJournal.bytes = front ++ (recordBytes 0 0x80000 zeroBlock ++ List.replicate 4088 0) from rfl,
    number, data, stored, if_neg (not_not_intro rfl)]
  rfl

theorem header_farJournal : journalHeader farJournal.bytes 0 = some ⟨1, 0, 0x80000, 4096, blockSize⟩ := by
  show journalHeader (headerBytes 4096 0x80000 1 0 ++ List.replicate 4068 0 ++
    (recordBytes 0 0x80000 zeroBlock ++ List.replicate 4088 0)) 0 = _
  rw [List.append_assoc]
  exact journalHeader_headerBytes _ (by decide) (by decide) (by decide) (by decide)

theorem farJournal_out_of_range : ¬InRange doubling farJournal.bytes [] := by
  intro ranged
  have held := (ranged _ ⟨header_farJournal, rfl, by decide⟩).2
  have one : recordsLeft farJournal.bytes (recordCap ⟨1, 0, 0x80000, 4096, blockSize⟩) (0 + 4096) = 1 := by
    rw [recordsLeft, length_farJournal]
    decide
  have bound : max (max 0x80000 0) (12288 / recSize) + 8 = 0x80000 + 8 := by decide
  have first : recordPages farJournal.bytes 0 (0x80000 + 8) 1 (0 + 4096) = ([0x80000], some (0 + 4096 + recSize)) := by
    rw [recordPages, Nat.zero_add, recordAt_farJournal]
    rfl
  rw [List.length_nil, journalPages, header_farJournal] at held
  dsimp only at held
  rw [length_farJournal, bound, segmentPages_segment header_farJournal ⟨rfl, rfl⟩ (by rw [one, first]),
    capacityAfter_append] at held
  have least := held.of_le (le_capacityAfter (fun capacity len => Nat.le_max_right (2 * capacity) len) _ _)
  exact absurd least (by decide)

/-- A first header with the largest sector: the end of the first record is past `usize::MAX`. And a page
number whose page would be the last of 2 GiB: the vector cannot be that long. -/
theorem last_sector_panics : replayJournalRoot doubling 4097 (bareJournal 0xFFFFF000) [] = .panic ∧
    replayJournalRoot doubling 12289 farJournal [] = .panic := by
  constructor
  · have framed := framed_bareJournal (by decide : 0xFFFFF000 < 2 ^ 32) (by decide)
    rw [replayJournalRoot_framed framed, segments_overflow framed (by decide), Outcome.panic_bind]
  · have short : farJournal.bytes.length ≤ isizeMax := by
      rw [length_farJournal]
      decide
    have enough : farJournal.bytes.length < 12289 := by
      rw [length_farJournal]
      decide
    have held : Allocatable ([] : List Block).length := by decide
    exact (replayJournalRoot_eq (fun capacity len => Nat.le_max_right (2 * capacity) len) short held enough).2
      farJournal_out_of_range

end Freehold.Replay
