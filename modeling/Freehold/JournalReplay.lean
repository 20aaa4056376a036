import Freehold.RotationMeaning

set_option autoImplicit false

namespace Freehold

open CrashLogic

/-- The four bytes of a number, the highest first. -/
def toBe32 (n : Nat) : List UInt8 :=
  [UInt8.ofNat (n / 2 ^ 24), UInt8.ofNat (n / 2 ^ 16), UInt8.ofNat (n / 2 ^ 8), UInt8.ofNat n]

/-- The fields of a journal header in the file. -/
def headerBytes (sector initPages count nonce : Nat) : List UInt8 :=
  journalMagic ++ toBe32 count ++ toBe32 nonce ++ toBe32 initPages ++ toBe32 sector ++ toBe32 blockSize

/-- The record of a page. -/
def recordBytes (nonce pgno : Nat) (page : Block) : List UInt8 :=
  toBe32 pgno ++ page.toList ++ toBe32 (pagerCksum nonce page.toList)

/-- The pages between two headers, in the order they were recorded, and what fills up the sector of
the header. -/
structure JournalSegment (pages : Nat) where
  nonce : UInt32
  records : List (Fin pages)
  filler : List UInt8

namespace JournalSegment

variable (before : List Block) (sector count : Nat) (segment : JournalSegment before.length)

def recordsBytes : List UInt8 :=
  segment.records.flatMap fun k => recordBytes segment.nonce.toNat (k.val + 1) before[k.val]

def bytes : List UInt8 :=
  headerBytes sector before.length count segment.nonce.toNat ++ segment.filler ++
    segment.recordsBytes before

/-- The next sector behind the records. -/
def gap {pages : Nat} (sector : Nat) (segment : JournalSegment pages) : Nat :=
  (sector - segment.records.length * recSize % sector) % sector

end JournalSegment

/-- Nothing behind the records of the last segment is read as another one: there are too few bytes
for it, or its checksum is wrong, or it has no page number. -/
def Spent (nonce : Nat) (rest : List UInt8) : Prop :=
  rest.length < recSize ∨ pagerCksum nonce (slice rest 4 blockSize) ≠ be32 rest (4 + blockSize) ∨
    be32 rest 0 = 0

/-- A rollback journal of a transaction on the image `before`. Each header but the last states how
many records follow; the last one may leave it to the size of the file. -/
structure RollbackJournal (before : List Block) where
  sector : Nat
  closed : List (JournalSegment before.length × List UInt8)
  last : JournalSegment before.length
  count : UInt32
  rest : List UInt8
  aligned : 0 < sector ∧ sector % blockSize = 0 ∧ sector < 2 ^ 32
  fits : before.length < 2 ^ 32
  framed : ∀ s ∈ closed, s.1.filler.length = sector - 28 ∧ s.2.length = s.1.gap sector
  stated : ∀ s ∈ closed, s.1.records ≠ [] ∧ s.1.records.length < 2 ^ 32 - 1
  lastFramed : last.filler.length = sector - 28
  short : last.records.length < 2 ^ 32 - 1
  ends : journalHeader rest (last.gap sector) = none ∧
    (last.records ≠ [] ∧ count.toNat = last.records.length ∨
      (count.toNat = 0 ∨ count.toNat = 2 ^ 32 - 1) ∧ Spent last.nonce.toNat rest)

namespace RollbackJournal

variable {before : List Block} (journal : RollbackJournal before)

/-- The pages whose pre-images are in the journal. -/
def recorded : List (Fin before.length) :=
  (journal.closed.flatMap fun s => s.1.records) ++ journal.last.records

def bytes : List UInt8 :=
  (journal.closed.flatMap fun s => s.1.bytes before journal.sector s.1.records.length ++ s.2) ++
    (journal.last.bytes before journal.sector journal.count.toNat ++ journal.rest)

end RollbackJournal

section Reading

theorem length_toBe32 (n : Nat) : (toBe32 n).length = 4 := rfl

theorem fromBe32_toBe32 {n : Nat} (small : n < 2 ^ 32) : fromBe32 (toBe32 n) = n := by
  simp only [fromBe32, toBe32, List.foldl_cons, List.foldl_nil, UInt8.toNat_ofNat']
  omega

theorem be32_append (front bytes : List UInt8) (off : Nat) :
    be32 (front ++ bytes) (front.length + off) = be32 bytes off := by
  rw [be32, be32, slice_append]

theorem be32_middle (front back : List UInt8) {n off : Nat} (small : n < 2 ^ 32)
    (place : off = front.length) : be32 (front ++ toBe32 n ++ back) off = n := by
  have cut := slice_middle front (toBe32 n) back
  rw [length_toBe32] at cut
  rw [be32, place, cut, fromBe32_toBe32 small]

theorem journalHeader_append (front bytes : List UInt8) (off : Nat) :
    journalHeader (front ++ bytes) (front.length + off) = journalHeader bytes off := by
  simp only [journalHeader, Nat.add_assoc, List.length_append, slice_append, be32_append,
    Nat.add_le_add_iff_left]

theorem length_headerBytes (sector initPages count nonce : Nat) :
    (headerBytes sector initPages count nonce).length = 28 := rfl

theorem journalHeader_headerBytes {sector initPages count nonce : Nat} (back : List UInt8)
    (sectorSmall : sector < 2 ^ 32) (pagesSmall : initPages < 2 ^ 32) (countSmall : count < 2 ^ 32)
    (nonceSmall : nonce < 2 ^ 32) :
    journalHeader (headerBytes sector initPages count nonce ++ back) 0 =
      some ⟨count, nonce, initPages, sector, blockSize⟩ := by
  have c := be32_middle journalMagic
    (toBe32 nonce ++ toBe32 initPages ++ toBe32 sector ++ toBe32 blockSize ++ back) countSmall rfl
  have n := be32_middle (journalMagic ++ toBe32 count)
    (toBe32 initPages ++ toBe32 sector ++ toBe32 blockSize ++ back) nonceSmall rfl
  have p := be32_middle (journalMagic ++ toBe32 count ++ toBe32 nonce)
    (toBe32 sector ++ toBe32 blockSize ++ back) pagesSmall rfl
  have s := be32_middle (journalMagic ++ toBe32 count ++ toBe32 nonce ++ toBe32 initPages)
    (toBe32 blockSize ++ back) sectorSmall rfl
  have b := be32_middle (n := blockSize)
    (journalMagic ++ toBe32 count ++ toBe32 nonce ++ toBe32 initPages ++ toBe32 sector) back
    (by decide) rfl
  have magic := slice_middle [] journalMagic (toBe32 count ++ toBe32 nonce ++ toBe32 initPages ++
    toBe32 sector ++ toBe32 blockSize ++ back)
  simp only [List.append_assoc, List.nil_append] at c n p s b magic
  simp only [headerBytes, journalHeader, List.append_assoc]
  rw [if_pos]
  · simp only [Option.some.injEq, JournalHeader.mk.injEq]
    exact ⟨c, n, p, s, b⟩
  · refine ⟨?_, magic⟩
    simp only [List.length_append, length_toBe32]
    show 0 + 28 ≤ 8 + _
    omega

theorem cksumFrom_lt (data : List UInt8) (i acc : Nat) (small : acc < 2 ^ 32) :
    cksumFrom data i acc < 2 ^ 32 := by
  induction i, acc using cksumFrom.induct data with
  | case1 i acc more ih =>
      rw [cksumFrom, if_pos more]
      exact ih (Nat.mod_lt _ (by decide))
  | case2 i acc done =>
      rw [cksumFrom, if_neg done]
      exact small

theorem pagerCksum_lt {nonce : Nat} (data : List UInt8) (small : nonce < 2 ^ 32) :
    pagerCksum nonce data < 2 ^ 32 := cksumFrom_lt data _ nonce small

theorem length_recordBytes (nonce pgno : Nat) (page : Block) :
    (recordBytes nonce pgno page).length = recSize := by
  simp only [recordBytes, List.length_append, length_toBe32, Vector.length_toList]
  rfl

theorem pageOf_toList (page : Block) : pageOf page.toList = page := by
  apply Vector.ext
  intro i inside
  rw [pageOf, Vector.getElem_ofFn]
  simp [List.getD, inside]

end Reading

section Records

variable {nonce maxPages cap applied : Nat}

theorem record_number (front back : List UInt8) {pgno : Nat} (page : Block) (small : pgno < 2 ^ 32) :
    be32 (front ++ (recordBytes nonce pgno page ++ back)) front.length = pgno := by
  have at_start := be32_append front (recordBytes nonce pgno page ++ back) 0
  rw [Nat.add_zero] at at_start
  rw [at_start]
  have field := be32_middle [] (page.toList ++ toBe32 (pagerCksum nonce page.toList) ++ back) small rfl
  simpa only [recordBytes, List.append_assoc, List.nil_append, List.length_nil] using field

theorem record_data (front back : List UInt8) (pgno : Nat) (page : Block) :
    slice (front ++ (recordBytes nonce pgno page ++ back)) (front.length + 4) blockSize = page.toList := by
  rw [slice_append]
  have field := slice_middle (toBe32 pgno) page.toList (toBe32 (pagerCksum nonce page.toList) ++ back)
  rw [length_toBe32, Vector.length_toList] at field
  simpa only [recordBytes, List.append_assoc] using field

theorem record_cksum (front back : List UInt8) (pgno : Nat) (page : Block) (small : nonce < 2 ^ 32) :
    be32 (front ++ (recordBytes nonce pgno page ++ back)) (front.length + 4 + blockSize) =
      pagerCksum nonce page.toList := by
  rw [Nat.add_assoc, be32_append]
  have place : 4 + blockSize = (toBe32 pgno ++ page.toList).length := by
    rw [List.length_append, length_toBe32, Vector.length_toList]
  have field := be32_middle (toBe32 pgno ++ page.toList) back (pagerCksum_lt page.toList small) place
  simpa only [recordBytes, List.append_assoc] using field

/-- A record that is there is applied, and the loop goes on behind it. -/
theorem applyRecords_record (front back : List UInt8) {pgno : Nat} (page : Block) (shadow : List Block)
    (nonceSmall : nonce < 2 ^ 32) (more : applied < cap) (some_page : 0 < pgno)
    (bounded : pgno ≤ maxPages) (pgnoSmall : pgno < 2 ^ 32) :
    applyRecords (front ++ (recordBytes nonce pgno page ++ back)) nonce maxPages cap applied front.length
        shadow =
      applyRecords (front ++ (recordBytes nonce pgno page ++ back)) nonce maxPages cap (applied + 1)
        (front.length + recSize) (writePage shadow (pgno - 1) page) := by
  have number := @record_number nonce front back pgno page pgnoSmall
  have data := @record_data nonce front back pgno page
  have stored := @record_cksum nonce front back pgno page nonceSmall
  have room : front.length + recSize ≤ (front ++ (recordBytes nonce pgno page ++ back)).length := by
    rw [List.length_append, List.length_append, length_recordBytes]
    omega
  rw [applyRecords, if_pos ⟨more, room⟩]
  simp only [number, data, stored, pageOf_toList]
  rw [if_neg (not_not_intro rfl), if_neg (by omega)]

/-- The records of a segment are written one after another. -/
theorem applyRecords_records {before : List Block} (fits : before.length < 2 ^ 32)
    (bounded : before.length ≤ maxPages) (nonceSmall : nonce < 2 ^ 32) (records : List (Fin before.length))
    (front back : List UInt8) (shadow : List Block) (enough : applied + records.length ≤ cap) :
    let recordsBytes := records.flatMap fun k => recordBytes nonce (k.val + 1) before[k.val]
    applyRecords (front ++ (recordsBytes ++ back)) nonce maxPages cap applied front.length shadow =
      applyRecords (front ++ (recordsBytes ++ back)) nonce maxPages cap (applied + records.length)
        (front.length + records.length * recSize)
        (records.foldl (fun shadow k => writePage shadow k.val before[k.val]) shadow) := by
  induction records generalizing front shadow applied with
  | nil => simp
  | cons k records ih =>
      intro recordsBytes
      rw [List.length_cons] at enough
      have inside := k.isLt
      have whole : front ++ (recordsBytes ++ back) =
          (front ++ recordBytes nonce (k.val + 1) before[k.val]) ++
            ((records.flatMap fun k => recordBytes nonce (k.val + 1) before[k.val]) ++ back) := by
        simp only [recordsBytes, List.flatMap_cons, List.append_assoc]
      have left : applied + 1 + records.length ≤ cap := by omega
      have later := ih (front ++ recordBytes nonce (k.val + 1) before[k.val])
        (writePage shadow k.val before[k.val]) left
      dsimp only at later
      rw [List.length_append, length_recordBytes] at later
      have first := applyRecords_record front
        ((records.flatMap fun k => recordBytes nonce (k.val + 1) before[k.val]) ++ back) before[k.val] shadow
        nonceSmall (by omega : applied < cap) (by omega : 0 < k.val + 1) (by omega : k.val + 1 ≤ maxPages) (by omega)
      have counted : applied + 1 + records.length = applied + (records.length + 1) := by omega
      have place : front.length + recSize + records.length * recSize =
          front.length + (records.length + 1) * recSize := by
        rw [Nat.add_mul]
        omega
      rw [whole, List.append_assoc, first, Nat.add_sub_cancel, ← List.append_assoc, later, List.foldl_cons,
        List.length_cons, counted, place]

end Records

/-- Rounding up to a sector. -/
theorem roundUp_eq {sector : Nat} (positive : 0 < sector) (off : Nat) :
    (off + sector - 1) / sector * sector = off + (sector - off % sector) % sector := by
  have parts := Nat.div_add_mod off sector
  have short := Nat.mod_lt off positive
  by_cases aligned : off % sector = 0
  · have quotient : (off + sector - 1) / sector = off / sector := by
      apply Nat.div_eq_of_lt_le
      · rw [Nat.mul_comm]
        omega
      · rw [Nat.add_mul, Nat.mul_comm]
        omega
    rw [quotient, aligned, Nat.sub_zero, Nat.mod_self, Nat.mul_comm]
    omega
  · have quotient : (off + sector - 1) / sector = off / sector + 1 := by
      apply Nat.div_eq_of_lt_le
      · rw [Nat.add_mul, Nat.mul_comm]
        omega
      · rw [Nat.add_mul, Nat.add_mul, Nat.mul_comm]
        omega
    rw [quotient, Nat.mod_eq_of_lt (by omega : sector - off % sector < sector), Nat.add_mul, Nat.mul_comm]
    omega

section Segments

variable {before : List Block} {journal : RollbackJournal before} {maxPages : Nat}

/-- The image with the recorded pages written back. -/
def restore (records : List (Fin before.length)) (shadow : List Block) : List Block :=
  records.foldl (fun shadow k => writePage shadow k.val before[k.val]) shadow

/-- Where no header stands, nothing more is read. -/
theorem applySegments_end {bytes : List UInt8} {pageSize sector off : Nat} {shadow : List Block}
    (none_left : journalHeader bytes off = none) :
    applySegments bytes pageSize sector maxPages off shadow = shadow := by
  rw [applySegments, none_left]
  exact ite_self shadow

/-- The parts of a journal around one segment. -/
structure Around (before : List Block) (sector count : Nat) (segment : JournalSegment before.length)
    (front back bytes : List UInt8) : Prop where
  bytes_eq : bytes = front ++ (segment.bytes before sector count ++ back)
  aligned : sector ∣ front.length
  filler : segment.filler.length = sector - 28
  large : blockSize ≤ sector
  sectorSmall : sector < 2 ^ 32
  pagesSmall : before.length < 2 ^ 32
  countSmall : count < 2 ^ 32

namespace Around

variable {sector count : Nat} {segment : JournalSegment before.length} {front back bytes : List UInt8}

theorem header (around : Around before sector count segment front back bytes) :
    journalHeader bytes front.length =
      some ⟨count, segment.nonce.toNat, before.length, sector, blockSize⟩ := by
  have at_start := journalHeader_append front (segment.bytes before sector count ++ back) 0
  rw [Nat.add_zero] at at_start
  rw [around.bytes_eq, at_start]
  simp only [JournalSegment.bytes, List.append_assoc]
  exact journalHeader_headerBytes _ around.sectorSmall around.pagesSmall around.countSmall
    segment.nonce.toNat_lt

/-- The first record stands at the next sector. -/
theorem records (around : Around before sector count segment front back bytes)
    (bounded : before.length ≤ maxPages) {cap : Nat} (enough : segment.records.length ≤ cap)
    (shadow : List Block) :
    applyRecords bytes segment.nonce.toNat maxPages cap 0 (front.length + sector) shadow =
      applyRecords bytes segment.nonce.toNat maxPages cap segment.records.length
        (front.length + sector + segment.records.length * recSize)
        (restore segment.records shadow) := by
  let head := headerBytes sector before.length count segment.nonce.toNat ++ segment.filler
  have filler := around.filler
  have large := around.large
  have base : blockSize = 4096 := rfl
  have place : front.length + sector = (front ++ head).length := by
    rw [List.length_append, List.length_append, length_headerBytes]
    omega
  have whole : bytes = (front ++ head) ++ (segment.recordsBytes before ++ back) := by
    rw [around.bytes_eq, JournalSegment.bytes]
    simp only [head, List.append_assoc]
  have run := applyRecords_records around.pagesSmall bounded segment.nonce.toNat_lt segment.records
    (front ++ head) back shadow (by omega : 0 + segment.records.length ≤ cap)
  rw [place, whole]
  rw [Nat.zero_add] at run
  exact run

/-- Where the next header is looked for. -/
theorem next_place (around : Around before sector count segment front back bytes) :
    (front.length + sector + segment.records.length * recSize + sector - 1) / sector * sector =
      front.length + sector + segment.records.length * recSize + segment.gap sector := by
  have positive : 0 < sector := Nat.lt_of_lt_of_le (by decide) around.large
  obtain ⟨turns, place⟩ := around.aligned
  have leftover : (front.length + sector + segment.records.length * recSize) % sector =
      segment.records.length * recSize % sector := by
    rw [place, Nat.add_assoc, Nat.mul_add_mod, Nat.add_mod_left]
  rw [roundUp_eq positive, leftover, JournalSegment.gap]

theorem length_bytes (around : Around before sector count segment front back bytes) :
    (segment.bytes before sector count).length = sector + segment.records.length * recSize := by
  have counted : (segment.recordsBytes before).length = segment.records.length * recSize := by
    rw [JournalSegment.recordsBytes, List.length_flatMap]
    simp only [length_recordBytes, List.map_const', List.sum_replicate, smul_eq_mul]
  have filler := around.filler
  have large := around.large
  have base : blockSize = 4096 := rfl
  rw [JournalSegment.bytes, List.length_append, List.length_append, length_headerBytes, counted]
  omega

theorem inside (around : Around before sector count segment front back bytes) :
    front.length < bytes.length := by
  have length := around.length_bytes
  have positive : 0 < sector := Nat.lt_of_lt_of_le (by decide) around.large
  rw [around.bytes_eq, List.length_append, List.length_append]
  omega

/-- A segment that states its records is played, and then the next header is read. -/
theorem play_stated (around : Around before sector count segment front back bytes)
    (bounded : before.length ≤ maxPages) (some_records : segment.records ≠ [])
    (stated : count = segment.records.length) (short : segment.records.length < 2 ^ 32 - 1)
    (shadow : List Block) :
    applySegments bytes blockSize sector maxPages front.length shadow =
      applySegments bytes blockSize sector maxPages
        (front.length + sector + segment.records.length * recSize + segment.gap sector)
        (restore segment.records shadow) := by
  have positive := List.length_pos_iff.mpr some_records
  have large : 0 < sector := Nat.lt_of_lt_of_le (by decide) around.large
  have done : applyRecords bytes segment.nonce.toNat maxPages segment.records.length
      segment.records.length (front.length + sector + segment.records.length * recSize)
      (restore segment.records shadow) =
      .next (front.length + sector + segment.records.length * recSize) (restore segment.records shadow) := by
    rw [applyRecords, if_neg]
    exact fun more => Nat.lt_irrefl _ more.1
  rw [applySegments, if_pos around.inside, around.header]
  dsimp only
  rw [if_neg (by simp), if_neg (by omega), stated, around.records bounded (Nat.le_refl _), done]
  dsimp only
  rw [if_neg (by rw [around.next_place]; omega), around.next_place]

/-- A last segment that leaves its records to the size of the file is played to its end. -/
theorem play_derived (around : Around before sector count segment front back bytes)
    (bounded : before.length ≤ maxPages) (derived : count = 0 ∨ count = 2 ^ 32 - 1)
    (short : segment.records.length < 2 ^ 32 - 1) (spent : Spent segment.nonce.toNat back)
    (ended : journalHeader back (segment.gap sector) = none) (shadow : List Block) :
    applySegments bytes blockSize sector maxPages front.length shadow =
      restore segment.records shadow := by
  let played := front ++ segment.bytes before sector count
  have whole : bytes = played ++ back := by rw [around.bytes_eq, List.append_assoc]
  have place : front.length + sector + segment.records.length * recSize = played.length := by
    rw [List.length_append, around.length_bytes, Nat.add_assoc]
  have total : bytes.length = played.length + back.length := by rw [whole]; exact List.length_append
  have large : 0 < sector := Nat.lt_of_lt_of_le (by decide) around.large
  have stop : applyRecords bytes segment.nonce.toNat maxPages (2 ^ 64 - 1) segment.records.length
      played.length (restore segment.records shadow) = .stop (restore segment.records shadow) ∨
      applyRecords bytes segment.nonce.toNat maxPages (2 ^ 64 - 1) segment.records.length
        played.length (restore segment.records shadow) =
          .next played.length (restore segment.records shadow) := by
    by_cases room : recSize ≤ back.length
    · left
      have number : be32 bytes played.length = be32 back 0 := by
        rw [whole, ← be32_append played back 0, Nat.add_zero]
      have data : slice bytes (played.length + 4) blockSize = slice back 4 blockSize := by
        rw [whole, slice_append]
      have stored : be32 bytes (played.length + 4 + blockSize) = be32 back (4 + blockSize) := by
        rw [whole, Nat.add_assoc, be32_append]
      have fits : played.length + recSize ≤ bytes.length := by omega
      rw [applyRecords, if_pos ⟨by omega, fits⟩]
      simp only [number, data, stored]
      rcases spent with few | wrong | zero
      · exact absurd room (Nat.not_le_of_lt few)
      · rw [if_pos wrong]
      · by_cases wrong : pagerCksum segment.nonce.toNat (slice back 4 blockSize) ≠ be32 back (4 + blockSize)
        · rw [if_pos wrong]
        · rw [if_neg wrong, if_pos (.inl zero)]
    · right
      rw [applyRecords, if_neg]
      intro more
      have fits := more.2
      omega
  rw [applySegments, if_pos around.inside, around.header]
  dsimp only
  rw [if_neg (by simp), if_pos derived, around.records bounded (by omega), place]
  rcases stop with stopped | finished
  · rw [stopped]
  · rw [finished]
    dsimp only
    rw [← place, around.next_place, if_neg (by omega), place]
    apply applySegments_end
    rw [whole, journalHeader_append, ended]

end Around

/-- The segments before the last one are played in turn. -/
theorem play_closed (closed : List (JournalSegment before.length × List UInt8)) {sector : Nat}
    (aligned : 0 < sector ∧ sector % blockSize = 0 ∧ sector < 2 ^ 32) (fits : before.length < 2 ^ 32)
    (bounded : before.length ≤ maxPages)
    (framed : ∀ s ∈ closed, s.1.filler.length = sector - 28 ∧ s.2.length = s.1.gap sector)
    (stated : ∀ s ∈ closed, s.1.records ≠ [] ∧ s.1.records.length < 2 ^ 32 - 1)
    (front back : List UInt8) (placed : sector ∣ front.length) (shadow : List Block) :
    let text := closed.flatMap fun s => s.1.bytes before sector s.1.records.length ++ s.2
    sector ∣ (front ++ text).length ∧
      applySegments (front ++ (text ++ back)) blockSize sector maxPages front.length shadow =
        applySegments (front ++ (text ++ back)) blockSize sector maxPages (front ++ text).length
          (restore (closed.flatMap fun s => s.1.records) shadow) := by
  induction closed generalizing front shadow with
  | nil => simp [restore, placed]
  | cons s closed ih =>
      intro text
      have here := framed s List.mem_cons_self
      have counts := stated s List.mem_cons_self
      have large : blockSize ≤ sector := Nat.le_of_dvd aligned.1 (Nat.dvd_of_mod_eq_zero aligned.2.1)
      let later := closed.flatMap fun s => s.1.bytes before sector s.1.records.length ++ s.2
      have text_eq : text = s.1.bytes before sector s.1.records.length ++ (s.2 ++ later) := by
        simp only [text, later, List.flatMap_cons, List.append_assoc]
      have around : Around before sector s.1.records.length s.1 front (s.2 ++ (later ++ back))
          (front ++ (text ++ back)) := by
        refine ⟨?_, placed, here.1, large, aligned.2.2, fits, by omega⟩
        rw [text_eq]
        simp only [List.append_assoc]
      have first := around.play_stated bounded counts.1 rfl counts.2 shadow
      let played := front ++ (s.1.bytes before sector s.1.records.length ++ s.2)
      have place : front.length + sector + s.1.records.length * recSize + s.1.gap sector =
          played.length := by
        simp only [played, List.length_append, around.length_bytes, here.2]
        omega
      have next : sector ∣ played.length := by
        rw [← place, ← around.next_place]
        exact Nat.dvd_mul_left _ _
      have rest := ih (fun s member => framed s (List.mem_cons_of_mem _ member))
        (fun s member => stated s (List.mem_cons_of_mem _ member)) played next (restore s.1.records shadow)
      have whole : front ++ (text ++ back) = played ++ (later ++ back) := by
        rw [text_eq]
        simp only [played, List.append_assoc]
      have front_eq : front ++ text = played ++ later := by
        rw [text_eq]
        simp only [played, List.append_assoc]
      rw [first, place, whole, front_eq, List.flatMap_cons]
      refine ⟨rest.1, rest.2.trans ?_⟩
      simp only [restore, List.foldl_append, later]

/-- Everything that is recorded is written back. -/
theorem applySegments_bytes (bounded : before.length ≤ maxPages) (shadow : List Block) :
    applySegments journal.bytes blockSize journal.sector maxPages 0 shadow =
      restore journal.recorded shadow := by
  let front := journal.closed.flatMap fun s => s.1.bytes before journal.sector s.1.records.length ++ s.2
  have large : blockSize ≤ journal.sector :=
    Nat.le_of_dvd journal.aligned.1 (Nat.dvd_of_mod_eq_zero journal.aligned.2.1)
  have closed := play_closed journal.closed journal.aligned journal.fits bounded journal.framed
    journal.stated [] (journal.last.bytes before journal.sector journal.count.toNat ++ journal.rest)
    (Nat.dvd_zero _) shadow
  have around : Around before journal.sector journal.count.toNat journal.last front journal.rest
      journal.bytes :=
    ⟨rfl, closed.1, journal.lastFramed, large, journal.aligned.2.2, journal.fits, journal.count.toNat_lt⟩
  have start : applySegments journal.bytes blockSize journal.sector maxPages 0 shadow =
      applySegments journal.bytes blockSize journal.sector maxPages front.length
        (restore (journal.closed.flatMap fun s => s.1.records) shadow) := closed.2
  have finish : ∀ shadow, applySegments journal.bytes blockSize journal.sector maxPages front.length
      shadow = restore journal.last.records shadow := by
    intro shadow
    rcases journal.ends.2 with ⟨some_records, stated⟩ | ⟨derived, spent⟩
    · rw [around.play_stated bounded some_records stated journal.short]
      apply applySegments_end
      have place : front.length + journal.sector + journal.last.records.length * recSize =
          (front ++ journal.last.bytes before journal.sector journal.count.toNat).length := by
        rw [List.length_append, around.length_bytes, Nat.add_assoc]
      have whole : journal.bytes =
          (front ++ journal.last.bytes before journal.sector journal.count.toNat) ++ journal.rest := by
        rw [around.bytes_eq, List.append_assoc]
      rw [place, whole, journalHeader_append, journal.ends.1]
    · exact around.play_derived bounded derived journal.short spent journal.ends.1 shadow
  rw [start, finish, restore, restore, restore, RollbackJournal.recorded, List.foldl_append]

theorem writePage_inside {shadow : List Block} {index : Nat} (inside : index < shadow.length)
    (page : Block) : writePage shadow index page = shadow.set index page := by
  rw [writePage, show index + 1 - shadow.length = 0 by omega, List.replicate_zero, List.append_nil]

theorem length_restore (records : List (Fin before.length)) {shadow : List Block}
    (grown : before.length ≤ shadow.length) : (restore records shadow).length = shadow.length := by
  induction records generalizing shadow with
  | nil => rfl
  | cons k records ih =>
      have inside := k.isLt
      have same := writePage_inside (by omega : k.val < shadow.length) before[k.val]
      rw [restore, List.foldl_cons, ← restore, same, ih (by rw [List.length_set]; exact grown),
        List.length_set]

/-- A recorded page is as it was before the transaction, the others are left alone. -/
theorem getElem_restore (records : List (Fin before.length)) {shadow : List Block}
    (grown : before.length ≤ shadow.length) (k : Fin before.length) :
    (restore records shadow)[k.val]? =
      if k ∈ records then some before[k.val] else shadow[k.val]? := by
  induction records generalizing shadow with
  | nil => simp [restore]
  | cons j records ih =>
      have inside := j.isLt
      have same := writePage_inside (by omega : j.val < shadow.length) before[j.val]
      rw [restore, List.foldl_cons, ← restore, same, ih (by rw [List.length_set]; exact grown),
        List.getElem?_set]
      by_cases later : k ∈ records
      · simp [later]
      · by_cases here : j = k
        · subst here
          rw [if_neg later, if_pos rfl, if_pos List.mem_cons_self, if_pos (by omega)]
        · have other : j.val ≠ k.val := fun equal => here (Fin.ext equal)
          rw [if_neg later, if_neg other, if_neg]
          simp only [List.mem_cons, not_or]
          exact ⟨fun equal => here equal.symm, later⟩

/-- The framing of the first header is that of the journal. -/
theorem journalHeader_bytes (journal : RollbackJournal before) :
    ∃ count nonce, journalHeader journal.bytes 0 =
      some ⟨count, nonce, before.length, journal.sector, blockSize⟩ := by
  have large : blockSize ≤ journal.sector :=
    Nat.le_of_dvd journal.aligned.1 (Nat.dvd_of_mod_eq_zero journal.aligned.2.1)
  cases parts : journal.closed with
  | nil =>
      have around : Around before journal.sector journal.count.toNat journal.last [] journal.rest
          journal.bytes := by
        refine ⟨?_, Nat.dvd_zero _, journal.lastFramed, large, journal.aligned.2.2, journal.fits,
          journal.count.toNat_lt⟩
        rw [RollbackJournal.bytes, parts]
        rfl
      exact ⟨_, _, around.header⟩
  | cons s closed =>
      have member : s ∈ journal.closed := by
        rw [parts]
        exact List.mem_cons_self
      have counts := journal.stated s member
      let later := (closed.flatMap fun s => s.1.bytes before journal.sector s.1.records.length ++ s.2) ++
        (journal.last.bytes before journal.sector journal.count.toNat ++ journal.rest)
      have around : Around before journal.sector s.1.records.length s.1 [] (s.2 ++ later)
          journal.bytes := by
        refine ⟨?_, Nat.dvd_zero _, (journal.framed s member).1, large, journal.aligned.2.2, journal.fits,
          by omega⟩
        rw [RollbackJournal.bytes, parts, List.flatMap_cons]
        simp only [later, List.append_assoc, List.nil_append]
      exact ⟨_, _, around.header⟩

/-- Only an image that had a page has its length restored. -/
theorem replayJournal_bytes (journal : RollbackJournal before) {main : List Block}
    (grown : before.length ≤ main.length) :
    replayJournal journal.bytes main = .ok (if before = [] then main
      else (restore journal.recorded main).take before.length) := by
  obtain ⟨count, nonce, header⟩ := journalHeader_bytes journal
  have framed : ¬(journal.sector = 0 ∨ journal.sector % blockSize ≠ 0) := by
    have aligned := journal.aligned
    omega
  have bounded : before.length ≤
      max (max before.length main.length) (journal.bytes.length / recSize) + 8 := by omega
  have length := length_restore journal.recorded grown
  unfold replayJournal
  simp only [header]
  rw [if_neg (not_not_intro rfl), if_neg framed, applySegments_bytes bounded]
  by_cases empty : before = []
  · subst empty
    have unrecorded : journal.recorded = [] := List.eq_nil_iff_forall_not_mem.mpr fun k _ => k.elim0
    rw [if_neg (by simp), if_pos rfl, unrecorded]
    rfl
  · have positive := List.length_pos_iff.mpr empty
    rw [if_neg empty]
    by_cases longer : before.length < (restore journal.recorded main).length
    · rw [if_pos ⟨positive, longer⟩]
    · rw [if_neg (fun both => longer both.2), List.take_of_length_le (by omega)]

theorem replayJournal_eq_iff (journal : RollbackJournal before) {main : List Block}
    (grown : before.length ≤ main.length) :
    replayJournal journal.bytes main = .ok before ↔ (before ≠ [] ∨ main = []) ∧
      ∀ k : Fin before.length, k ∉ journal.recorded → main[k.val]? = some before[k.val] := by
  rw [replayJournal_bytes journal grown, Except.ok.injEq]
  by_cases empty : before = []
  · subst empty
    simp
  · have restored := getElem_restore journal.recorded grown
    rw [if_neg empty]
    constructor
    · intro same
      refine ⟨.inl empty, fun k unrecorded => ?_⟩
      have page := restored k
      rw [if_neg unrecorded] at page
      rw [← page, ← List.getElem?_take_of_lt k.isLt, same, List.getElem?_eq_getElem k.isLt]
    · rintro ⟨_, kept⟩
      apply List.ext_getElem?
      intro i
      by_cases inside : i < before.length
      · have page := restored ⟨i, inside⟩
        rw [List.getElem?_take_of_lt inside, List.getElem?_eq_getElem inside, page]
        split
        · rfl
        · next unrecorded => exact kept ⟨i, inside⟩ unrecorded
      · rw [List.getElem?_take_eq_none (by omega), List.getElem?_eq_none (by omega)]

end Segments

/-- A database in the middle of a transaction on the image `before`: its journal is on disk, and its
main file has whatever page writes have landed. They never shrink it. -/
structure MidTransaction (pool : Pool) (name jname : FileName) (kdb : Key) (uuid : Uuid)
    {before : List Block} (journal : RollbackJournal before) (main : List Block) : Prop where
  main_file : ∃ file, pool.files[name]? = some file ∧
    decryptWholeFile file.data kdb uuid (fileIdFor name) = .ok main
  journal_file : ∃ file blocks, pool.files[jname]? = some file ∧
    decryptWholeFile file.data kdb uuid (fileIdFor jname) = .ok blocks ∧ bytesOf blocks = journal.bytes
  grown : before.length ≤ main.length

/-- A file of a pool, its blocks sealed in their places. -/
def sampleFile (name : FileName) (fits : Fits name) (image : List Block) : SyncAccessFile :=
  { Pool.pooled 1 with header := some ⟨name, fits⟩, data := Pool.sampleBlocks name image }

theorem fits_sampleDb : Fits ['a', '.', 'd', 'b'] := by decide

theorem fits_sampleJournal : Fits (journalName ['a', '.', 'd', 'b']) := by decide

/-- A pool with a database and its journal. -/
def crashed (main journal : List Block) : Pool :=
  let db : FileName := ['a', '.', 'd', 'b']
  { dek := 1
    files := ((∅ : Std.ExtTreeMap FileName SyncAccessFile).insert db
      (sampleFile db fits_sampleDb main)).insert (journalName db)
        (sampleFile (journalName db) fits_sampleJournal journal)
    available := []
    anchor := .blank
    dbs := ∅ }

/-- A text cut into blocks. -/
def blocksOf : (count : Nat) → List UInt8 → List Block
  | 0, _ => []
  | count + 1, bytes => pageOf bytes :: blocksOf count (bytes.drop blockSize)

theorem toList_pageOf {bytes : List UInt8} (long : blockSize ≤ bytes.length) :
    (pageOf bytes).toList = bytes.take blockSize := by
  apply List.ext_getElem
  · rw [Vector.length_toList, List.length_take, Nat.min_eq_left long]
  · intro i inside _
    rw [Vector.length_toList] at inside
    simp [pageOf, List.getD, List.getElem?_eq_getElem (Nat.lt_of_lt_of_le inside long)]

theorem bytesOf_blocksOf (count : Nat) {bytes : List UInt8} (length : bytes.length = blockSize * count) :
    bytesOf (blocksOf count bytes) = bytes := by
  induction count generalizing bytes with
  | zero =>
      rw [Nat.mul_zero, List.length_eq_zero_iff] at length
      rw [length]
      rfl
  | succ count ih =>
      rw [Nat.mul_add_one] at length
      have rest := @ih (bytes.drop blockSize) (by rw [List.length_drop, length, Nat.add_sub_cancel])
      rw [bytesOf] at rest ⊢
      rw [blocksOf, List.flatMap_cons, rest, toList_pageOf (by omega), List.take_append_drop]

theorem crashed_mid {before main : List Block} (journal : RollbackJournal before)
    (whole : blockSize ∣ journal.bytes.length) (grown : before.length ≤ main.length) :
    MidTransaction (crashed main (blocksOf (journal.bytes.length / blockSize) journal.bytes))
      ['a', '.', 'd', 'b'] (journalName ['a', '.', 'd', 'b']) (.dbKey 1 7) 7 journal main := by
  have opens (name : FileName) (image : List Block) : decryptWholeFile (Pool.sampleBlocks name image)
      (.dbKey 1 7) 7 (fileIdFor name) = .ok image :=
    Pool.imageOf_eq_some.mp (Pool.imageOf_sampleBlocks name image)
  have apart : compare (journalName ['a', '.', 'd', 'b']) ['a', '.', 'd', 'b'] ≠ .eq := by decide
  have text := bytesOf_blocksOf _ (Nat.mul_div_cancel' whole).symm
  refine ⟨⟨sampleFile _ (by decide) main, ?_, opens _ main⟩, ⟨sampleFile _ (by decide) _, _,
    Std.ExtTreeMap.getElem?_insert_self, opens _ _, text⟩, grown⟩
  rw [crashed, Std.ExtTreeMap.getElem?_insert, if_neg apart, Std.ExtTreeMap.getElem?_insert_self]

/-- A journal of one segment, padded to whole sectors. -/
def sampleJournal (before : List Block) (fits : before.length < 2 ^ 32)
    (records : List (Fin before.length)) (short : records.length < 2 ^ 32 - 1) :
    RollbackJournal before where
  sector := sectorSize
  closed := []
  last := ⟨0, records, List.replicate (sectorSize - 28) 0⟩
  count := 0
  rest := List.replicate ((sectorSize - records.length * recSize % sectorSize) % sectorSize) 0
  aligned := by decide
  fits := fits
  framed := by simp
  stated := by simp
  lastFramed := List.length_replicate
  short := short
  ends := by
    have few : (sectorSize - records.length * recSize % sectorSize) % sectorSize < sectorSize :=
      Nat.mod_lt _ (by decide)
    constructor
    · rw [journalHeader, if_neg]
      rw [List.length_replicate]
      exact fun fits => absurd fits.1 (by simp [JournalSegment.gap])
    · right
      refine ⟨.inl rfl, .inl ?_⟩
      rw [List.length_replicate]
      exact Nat.lt_trans few (by decide)

theorem length_sampleJournal (before : List Block) (fits : before.length < 2 ^ 32)
    (records : List (Fin before.length)) (short : records.length < 2 ^ 32 - 1) :
    (sampleJournal before fits records short).bytes.length = sectorSize + records.length * recSize +
      (sectorSize - records.length * recSize % sectorSize) % sectorSize := by
  have around : Around before sectorSize 0 (sampleJournal before fits records short).last []
      (sampleJournal before fits records short).rest (sampleJournal before fits records short).bytes :=
    ⟨rfl, Nat.dvd_zero _, List.length_replicate, Nat.le_refl _, by decide, fits, by decide⟩
  rw [around.bytes_eq, List.nil_append, List.length_append, around.length_bytes, sampleJournal,
    List.length_replicate]

end Freehold
