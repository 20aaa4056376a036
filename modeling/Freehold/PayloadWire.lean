import Freehold.Lib.Fields
import Freehold.Lib.Runs
import Freehold.Manifest

set_option autoImplicit false

/- The bytes that are sealed into a slot of a manifest or of the anchor. -/
namespace Freehold.PayloadWire

open Cursor

abbrev manifestVersion : Nat := 2
abbrev cipherId : UInt8 := 1
abbrev fileIdLen : Nat := 16
/-- b"ENCANCH2". -/
def anchorMagic : List UInt8 := [0x45, 0x4e, 0x43, 0x41, 0x4e, 0x43, 0x48, 0x32]

/-- `PREV_ROOT_OFFSET`: the previous root stands at the end of the block. -/
abbrev prevRootOffset : Nat := blockSize - 32

abbrev stride : Nat := fileIdLen + 8
abbrev anchorEntrySize : Nat := 40

/-- A file and its authenticated length. -/
abbrev FileLength := Vector UInt8 fileIdLen × UInt64

structure ManifestPayload where
  dbGeneration : UInt64
  dbUuid : Vector UInt8 16
  merkleRoot : Vector UInt8 32
  prevMerkleRoot : Vector UInt8 32
  files : List FileLength
  deriving DecidableEq

structure AnchorEntry where
  uuid : Vector UInt8 16
  committed : UInt64
  inFlight : UInt64
  epochFloor : UInt64
  deriving DecidableEq

def le8 (value : UInt64) : List UInt8 := toLe 8 value.toNat

/-- `u64::from_le_bytes(b.try_into().unwrap())`. -/
def ofLe8 {ε : Type} (bytes : List UInt8) : Outcome ε UInt64 := do
  let value ← fromLe 8 bytes
  return UInt64.ofNat value

-- irreducible, so that no unification fills a block
@[irreducible] def zeros : List UInt8 := List.replicate blockSize 0

@[simp] theorem length_zeros : zeros.length = blockSize := by rw [zeros, List.length_replicate]

namespace ManifestPayload

def fileFields (file : FileLength) : List (List UInt8) := [file.1.toList, le8 file.2]

def encode (payload : ManifestPayload) : Outcome Empty (List UInt8) := do
  let b ← copyInto zeros 0 2 (toLe 2 manifestVersion)
  let b ← copyInto b 2 3 [cipherId]
  let b ← copyInto b 4 8 (toLe 4 blockSize)
  let b ← copyInto b 8 16 (le8 payload.dbGeneration)
  let b ← copyInto b 16 32 payload.dbUuid.toList
  let b ← copyInto b 32 64 payload.merkleRoot.toList
  let b ← copyInto b prevRootOffset (prevRootOffset + 32) payload.prevMerkleRoot.toList
  let b ← copyInto b 64 68 (toLe 4 payload.files.length)
  copyFields (payload.files.flatMap fileFields) 68 b

/-- How many files the table has room for. -/
abbrev maxEntries : Nat := (prevRootOffset - 68) / stride

/-- One entry of the table. -/
def decodeFile (b : Slice 31) (pos : Nat) : Outcome String FileLength := do
  let middle ← addUsize 32 pos fileIdLen
  let stop ← addUsize 32 pos stride
  let fid ← copyArray fileIdLen (← b.range pos middle)
  let len ← ofLe8 (← b.range middle stop)
  return (fid, len)

def decode (b : Slice 31) : Outcome String ManifestPayload := do
  if b.bytes.length ≠ blockSize then .error "manifest payload has wrong size"
  else
    let version ← fromLe 2 (← b.indices 0 2)
    if version ≠ manifestVersion then
      .error s!"manifest format_version {version} != {manifestVersion}"
    else
      let cipher ← b.index 2
      if cipher ≠ cipherId then
        .error s!"manifest cipher_id {cipher} != compiled cipher {cipherId} (§17.L)"
      else
        let bs ← fromLe 4 (← b.indices 4 4)
        if bs ≠ blockSize then .error s!"manifest block_size {bs} != B={blockSize} (§17.I)"
        else
          let dbGeneration ← ofLe8 (← b.range 8 16)
          let dbUuid ← copyArray 16 (← b.range 16 32)
          let merkleRoot ← copyArray 32 (← b.range 32 64)
          let prevMerkleRoot ← copyArray 32 (← b.range prevRootOffset (prevRootOffset + 32))
          let n ← fromLe 4 (← b.indices 64 4)
          if n > maxEntries then
            .error "manifest file count exceeds table capacity (corrupt/hostile)"
          else
            let table ← mulUsize 32 n stride
            let finish ← addUsize 32 68 table
            if finish > prevRootOffset then
              .error "manifest file table overruns the block / prev-root region"
            else
              let files ← records 32 (decodeFile b) 68 stride 0 n
              return ⟨dbGeneration, dbUuid, merkleRoot, prevMerkleRoot, files⟩

end ManifestPayload

def entryFields (e : AnchorEntry) : List (List UInt8) :=
  [e.uuid.toList, le8 e.committed, le8 e.inFlight, le8 e.epochFloor]

/-- `encode_anchor`: entries past the capacity are cut off. -/
def encodeAnchor (seq : UInt64) (entries : List AnchorEntry) : Outcome Empty (List UInt8) := do
  let b ← copyInto zeros 0 8 anchorMagic
  let b ← copyInto b 8 16 (le8 seq)
  let n := min entries.length anchorCap
  let b ← copyInto b 16 20 (toLe 4 n)
  copyFields ((entries.take n).flatMap entryFields) 20 b

def decodeEntry {ε : Type} (b : Slice 31) (pos : Nat) : Outcome ε AnchorEntry := do
  let first ← addUsize 32 pos 16
  let second ← addUsize 32 pos 24
  let third ← addUsize 32 pos 32
  let stop ← addUsize 32 pos 40
  let uuid ← copyArray 16 (← b.range pos first)
  let committed ← ofLe8 (← b.range first second)
  let inFlight ← ofLe8 (← b.range second third)
  let epochFloor ← ofLe8 (← b.range third stop)
  return ⟨uuid, committed, inFlight, epochFloor⟩

/-- `decode_anchor`; its `None` is an error here. -/
def decodeAnchor (b : Slice 31) : Outcome Unit (UInt64 × List AnchorEntry) := do
  if b.bytes.length ≠ blockSize then .error ()
  else
    let magic ← b.range 0 8
    if magic ≠ anchorMagic then .error ()
    else
      let seq ← ofLe8 (← b.range 8 16)
      let count ← fromLe 4 (← b.indices 16 4)
      let entries ← records 32 (decodeEntry b) 20 anchorEntrySize 0 (min count anchorCap)
      return (seq, entries)

section Numbers

variable {ε : Type}

@[simp] theorem length_le8 (value : UInt64) : (le8 value).length = 8 := length_toLe 8 _

theorem ofLe8_le8 (value : UInt64) : (ofLe8 (le8 value) : Outcome ε UInt64) = .ok value := by
  have small : value.toNat < 256 ^ 8 := value.toNat_lt
  rw [ofLe8, le8, fromLe_eq (length_toLe 8 _), Outcome.ok_bind, ofLe_toLe small, UInt64.ofNat_toNat,
    Outcome.pure_eq]

theorem ofLe8_meets {bytes : List UInt8} (length : bytes.length = 8) :
    (ofLe8 bytes : Outcome ε UInt64).Meets fun _ => True := by
  rw [ofLe8, fromLe_eq length]
  trivial

/-- A number in a field of `n` bytes. -/
theorem fromLe_toLe {n value : Nat} (small : value < 256 ^ n) :
    (fromLe n (toLe n value) : Outcome ε Nat) = .ok value := by
  rw [fromLe_eq (length_toLe n value), ofLe_toLe small]

end Numbers

section Reading

variable {ε : Type} {b : Slice 31} {pos : Nat}

theorem length_range {stop : Nat} (ordered : pos ≤ stop)
    (inside : stop ≤ b.bytes.length) :
    (b.range pos stop : Outcome ε (List UInt8)).Meets fun bytes => bytes.length = stop - pos := by
  obtain ⟨len, rfl⟩ := Nat.exists_eq_add_of_le ordered
  rw [Slice.range_window inside, Outcome.meets_ok, Splice.length_window]
  omega

end Reading

namespace ManifestPayload

variable {payload : ManifestPayload}

/-- The file table. -/
def table (payload : ManifestPayload) : List UInt8 := payload.files.flatMap fun file => (fileFields file).flatten

/-- The fields of the block, where they stand. -/
def writes (payload : ManifestPayload) : List (Nat × List UInt8) :=
  [(0, toLe 2 manifestVersion), (2, [cipherId]), (4, toLe 4 blockSize), (8, le8 payload.dbGeneration),
    (16, payload.dbUuid.toList), (32, payload.merkleRoot.toList),
    (prevRootOffset, payload.prevMerkleRoot.toList), (64, toLe 4 payload.files.length),
    (68, payload.table)]

theorem length_fileFields (file : FileLength) : (fileFields file).flatten.length = stride := by
  simp [fileFields]

@[simp] theorem length_table : payload.table.length = payload.files.length * stride := by
  unfold table
  rw [List.length_flatMap]
  simp only [length_fileFields, List.map_const', List.sum_replicate_nat]

/-- A full table ends before the region of the previous root. -/
theorem table_ends (fits : payload.files.length ≤ maxEntries) :
    68 + payload.files.length * stride ≤ prevRootOffset := by
  simp only [maxEntries, prevRootOffset, stride, fileIdLen, blockSize] at fits ⊢
  omega

theorem apart_writes (fits : payload.files.length ≤ maxEntries) :
    payload.writes.Pairwise Splice.Apart := by
  have ends := table_ends fits
  simp only [prevRootOffset, blockSize] at ends
  simp only [writes, List.pairwise_cons, List.mem_cons, List.not_mem_nil, or_false, forall_eq_or_imp,
    forall_eq, Splice.Apart, length_toLe, List.length_singleton, length_le8, Vector.length_toList,
    length_table, prevRootOffset, blockSize, List.Pairwise.nil, IsEmpty.forall_iff, implies_true, and_true]
  omega

theorem inside_writes (fits : payload.files.length ≤ maxEntries) :
    ∀ write ∈ payload.writes, write.1 + write.2.length ≤ zeros.length := by
  have ends := table_ends fits
  simp only [prevRootOffset, blockSize] at ends
  simp only [writes, List.mem_cons, List.not_mem_nil, or_false, forall_eq_or_imp, forall_eq, length_toLe,
    List.length_singleton, length_le8, Vector.length_toList, length_table, prevRootOffset, blockSize,
    length_zeros]
  omega

/-- The encoder fills a block with its fields and does not panic. -/
theorem encode_eq (fits : payload.files.length ≤ maxEntries) :
    encode payload = .ok (Splice.puts 0 zeros payload.writes) := by
  have ends := table_ends fits
  have flat : (payload.files.flatMap fileFields).flatten = payload.table := by
    rw [table, List.flatMap, List.flatMap, List.flatten_flatten, List.map_map]
    rfl
  have tableLength : payload.table.length = payload.files.length * stride := length_table
  simp only [prevRootOffset, blockSize] at ends
  unfold encode
  repeat rw [copyInto_eq (by simp) (by simp [length_zeros, prevRootOffset, blockSize]), Outcome.ok_bind]
  rw [copyFields_eq, flat]
  · rfl
  · rw [flat, tableLength]
    simp only [Splice.length_put, length_zeros, prevRootOffset, blockSize]
    omega

theorem decodeFile_eq {b : Slice 31} {pos : Nat} {file : FileLength}
    (laid : b.Between pos (fileFields file).flatten (pos + stride)) : decodeFile b pos = .ok file := by
  have short := b.fits
  have inside := laid.stop_le
  have spans : stride = fileIdLen + 8 := rfl
  have flat : (fileFields file).flatten = file.1.toList ++ le8 file.2 := by
    simp only [fileFields, List.flatten_cons, List.flatten_nil, List.append_nil]
  rw [flat] at laid
  obtain ⟨fid, len⟩ := laid.split
  rw [Vector.length_toList] at fid len
  rw [decodeFile, addUsize_eq (by omega), Outcome.ok_bind, addUsize_eq (by omega), Outcome.ok_bind,
    fid.range_eq, Outcome.ok_bind, copyArray_toList, Outcome.ok_bind, len.range_eq, Outcome.ok_bind, ofLe8_le8]
  rfl

/-- What the encoder writes is read back as it was. -/
theorem decode_encoded (fits : payload.files.length ≤ maxEntries) {b : Slice 31}
    (block : b.bytes = Splice.puts 0 zeros payload.writes) : decode b = .ok payload := by
  have short := b.fits
  have ends := table_ends fits
  have length : b.bytes.length = blockSize := by
    rw [block, Splice.length_puts (inside_writes fits), length_zeros]
  have field {off stop : Nat} {bytes : List UInt8} (listed : (off, bytes) ∈ payload.writes)
      (spans : off + bytes.length = stop) : b.Between off bytes stop :=
    Slice.between_puts (apart_writes fits) (inside_writes fits) block listed spans
  have version : b.Between 0 (toLe 2 manifestVersion) 2 := field (by simp [writes]) (by simp)
  have cipher : b.Between 2 [cipherId] 3 := field (by simp [writes]) (by simp)
  have size : b.Between 4 (toLe 4 blockSize) 8 := field (by simp [writes]) (by simp)
  have generation : b.Between 8 (le8 payload.dbGeneration) 16 := field (by simp [writes]) (by simp)
  have uuid : b.Between 16 payload.dbUuid.toList 32 := field (by simp [writes]) (by simp)
  have root : b.Between 32 payload.merkleRoot.toList 64 := field (by simp [writes]) (by simp)
  have previous : b.Between prevRootOffset payload.prevMerkleRoot.toList (prevRootOffset + 32) :=
    field (by simp [writes]) (by simp)
  have count : b.Between 64 (toLe 4 payload.files.length) 68 := field (by simp [writes]) (by simp)
  have files : b.Between (68 + 0 * stride) payload.table (68 + payload.table.length) :=
    field (by simp [writes]) (by simp)
  have readVersion : (b.indices 0 2 : Outcome String _) = .ok (toLe 2 manifestVersion) :=
    version.indices_eq (length_toLe 2 _)
  have readSize : (b.indices 4 4 : Outcome String _) = .ok (toLe 4 blockSize) :=
    size.indices_eq (length_toLe 4 _)
  have readCount : (b.indices 64 4 : Outcome String _) = .ok (toLe 4 payload.files.length) :=
    count.indices_eq (length_toLe 4 _)
  have readFiles : records 32 (decodeFile b) 68 stride 0 payload.files.length = .ok payload.files :=
    records_eq _ length_fileFields (fun pos file laid => decodeFile_eq laid) (by omega) files
  have region : prevRootOffset = 4064 := rfl
  have fewer : payload.files.length ≤ payload.files.length * stride := Nat.le_mul_of_pos_right _ (by decide)
  unfold decode
  rw [if_neg (by rw [length]; exact not_not_intro rfl), readVersion, Outcome.ok_bind,
    fromLe_toLe (by decide), Outcome.ok_bind, if_neg (not_not_intro rfl), cipher.index_eq, Outcome.ok_bind,
    if_neg (not_not_intro rfl), readSize, Outcome.ok_bind, fromLe_toLe (by decide), Outcome.ok_bind,
    if_neg (not_not_intro rfl), generation.range_eq, Outcome.ok_bind, ofLe8_le8, Outcome.ok_bind,
    uuid.range_eq, Outcome.ok_bind, copyArray_toList, Outcome.ok_bind, root.range_eq, Outcome.ok_bind,
    copyArray_toList, Outcome.ok_bind, previous.range_eq, Outcome.ok_bind, copyArray_toList, Outcome.ok_bind,
    readCount, Outcome.ok_bind, fromLe_toLe (by omega), Outcome.ok_bind,
    if_neg (by omega), mulUsize_eq (by omega), Outcome.ok_bind, addUsize_eq (by omega), Outcome.ok_bind,
    if_neg (by omega), readFiles, Outcome.ok_bind]
  rfl

theorem decodeFile_meets {b : Slice 31} {pos : Nat} (inside : pos + stride ≤ b.bytes.length) :
    (decodeFile b pos).Meets fun _ => True := by
  have short := b.fits
  have spans : stride = fileIdLen + 8 := rfl
  rw [decodeFile, addUsize_eq (by omega), Outcome.ok_bind, addUsize_eq (by omega), Outcome.ok_bind]
  apply (length_range (by omega) (by omega)).bind
  intro fid fidLength
  apply (copyArray_meets (by omega)).bind
  intro array _
  apply (length_range (by omega) inside).bind
  intro len lenLength
  apply (ofLe8_meets (by omega)).bind
  intro value _
  trivial

/-- No bytes make the decoder panic, and the table it returns has room in a block. -/
theorem decode_meets (b : Slice 31) :
    (decode b).Meets fun payload => payload.files.length ≤ maxEntries := by
  have short := b.fits
  have region : prevRootOffset = 4064 := rfl
  unfold decode
  split
  · trivial
  · next size =>
      have length : b.bytes.length = 4096 := not_not.mp size
      rw [Slice.indices_window (by omega), Outcome.ok_bind, fromLe_eq (by simp [length]), Outcome.ok_bind]
      split
      · trivial
      · rw [Slice.index_of_lt (by omega), Outcome.ok_bind]
        split
        · trivial
        · rw [Slice.indices_window (by omega), Outcome.ok_bind, fromLe_eq (by simp [length]), Outcome.ok_bind]
          split
          · trivial
          · apply (length_range (by omega) (by omega)).bind
            intro generation generationLength
            apply (ofLe8_meets (by omega)).bind
            intro dbGeneration _
            apply (length_range (by omega) (by omega)).bind
            intro uuid uuidLength
            apply (copyArray_meets (by omega)).bind
            intro dbUuid _
            apply (length_range (by omega) (by omega)).bind
            intro root rootLength
            apply (copyArray_meets (by omega)).bind
            intro merkleRoot _
            apply (length_range (by omega) (by omega)).bind
            intro previous previousLength
            apply (copyArray_meets (by omega)).bind
            intro prevMerkleRoot _
            rw [Slice.indices_window (by omega), Outcome.ok_bind, fromLe_eq (by simp [length]), Outcome.ok_bind]
            split
            · trivial
            · next within =>
                have small := Nat.le_of_not_gt within
                have room : ofLe (Splice.window b.bytes 64 4) * stride ≤ 166 * 24 :=
                  Nat.mul_le_mul_right stride small
                rw [mulUsize_eq (by omega), Outcome.ok_bind, addUsize_eq (by omega), Outcome.ok_bind]
                split
                · trivial
                · have reads (pos : Nat) (inside : pos + stride ≤ 4096) :
                      (decodeFile b pos).Meets fun _ => True := decodeFile_meets (by omega)
                  have inside : 68 + (0 + ofLe (Splice.window b.bytes 64 4)) * stride ≤ 4096 := by
                    rw [Nat.zero_add]
                    omega
                  apply (records_meets (by decide) reads inside).bind
                  intro files count
                  rw [Outcome.pure_eq, Outcome.meets_ok]
                  exact count.trans_le small

end ManifestPayload

section Anchor

variable {seq : UInt64} {entries : List AnchorEntry} {b : Slice 31} {ε : Type}

/-- The fields of an anchor block, where they stand. -/
def anchorWrites (seq : UInt64) (entries : List AnchorEntry) : List (Nat × List UInt8) :=
  [(0, anchorMagic), (8, le8 seq), (16, toLe 4 entries.length),
    (20, entries.flatMap fun e => (entryFields e).flatten)]

theorem length_entryFields (e : AnchorEntry) : (entryFields e).flatten.length = anchorEntrySize := by
  simp [entryFields]

theorem length_entries :
    (entries.flatMap fun e => (entryFields e).flatten).length = entries.length * anchorEntrySize := by
  rw [List.length_flatMap]
  simp only [length_entryFields, List.map_const', List.sum_replicate_nat]

/-- As many entries as fit end inside the block. -/
theorem entries_end {n : Nat} (fits : n ≤ anchorCap) : 20 + n * anchorEntrySize ≤ 4096 := by
  simp only [anchorCap, blockSize] at fits
  simp only [anchorEntrySize]
  omega

theorem apart_anchorWrites : (anchorWrites seq entries).Pairwise Splice.Apart := by
  have magic : anchorMagic.length = 8 := rfl
  simp only [anchorWrites, List.pairwise_cons, List.mem_cons, List.not_mem_nil, or_false, forall_eq_or_imp,
    forall_eq, Splice.Apart, magic, length_toLe, length_le8, List.Pairwise.nil, IsEmpty.forall_iff, implies_true,
    and_true]
  omega

theorem inside_anchorWrites (fits : entries.length ≤ anchorCap) :
    ∀ write ∈ anchorWrites seq entries, write.1 + write.2.length ≤ zeros.length := by
  have ends := entries_end fits
  have magic : anchorMagic.length = 8 := rfl
  simp only [anchorWrites, List.mem_cons, List.not_mem_nil, or_false, forall_eq_or_imp, forall_eq, length_toLe,
    length_le8, length_entries, magic, length_zeros, blockSize]
  omega

theorem encodeAnchor_eq (fits : entries.length ≤ anchorCap) :
    encodeAnchor seq entries = .ok (Splice.puts 0 zeros (anchorWrites seq entries)) := by
  have ends := entries_end fits
  have flat : (entries.flatMap entryFields).flatten = entries.flatMap fun e => (entryFields e).flatten := by
    rw [List.flatMap, List.flatMap, List.flatten_flatten, List.map_map]
    rfl
  have length : (entries.flatMap fun e => (entryFields e).flatten).length = entries.length * anchorEntrySize :=
    length_entries
  have magic : anchorMagic.length = 8 := rfl
  unfold encodeAnchor
  dsimp only
  rw [Nat.min_eq_left fits, List.take_length]
  repeat rw [copyInto_eq (by simp [magic]) (by simp [length_zeros, blockSize]), Outcome.ok_bind]
  rw [copyFields_eq, flat]
  · rfl
  · rw [flat, length]
    simp only [Splice.length_put, length_zeros, blockSize]
    omega

theorem decodeEntry_eq {pos : Nat} {e : AnchorEntry}
    (laid : b.Between pos (entryFields e).flatten (pos + anchorEntrySize)) :
    (decodeEntry b pos : Outcome ε AnchorEntry) = .ok e := by
  have short := b.fits
  have inside := laid.stop_le
  have spans : anchorEntrySize = 40 := rfl
  have flat : (entryFields e).flatten =
      e.uuid.toList ++ (le8 e.committed ++ (le8 e.inFlight ++ le8 e.epochFloor)) := by
    simp only [entryFields, List.flatten_cons, List.flatten_nil, List.append_nil]
  rw [flat] at laid
  obtain ⟨uuid, rest⟩ := laid.split
  obtain ⟨committed, rest⟩ := rest.split
  obtain ⟨inFlight, epochFloor⟩ := rest.split
  rw [Vector.length_toList] at uuid
  rw [Vector.length_toList, length_le8] at committed
  rw [Vector.length_toList, length_le8, length_le8] at inFlight
  rw [Vector.length_toList, length_le8, length_le8] at epochFloor
  rw [decodeEntry, addUsize_eq (by omega), Outcome.ok_bind, addUsize_eq (by omega), Outcome.ok_bind,
    addUsize_eq (by omega), Outcome.ok_bind, addUsize_eq (by omega), Outcome.ok_bind, uuid.range_eq,
    Outcome.ok_bind, copyArray_toList, Outcome.ok_bind, committed.range_eq, Outcome.ok_bind, ofLe8_le8,
    Outcome.ok_bind, inFlight.range_eq, Outcome.ok_bind, ofLe8_le8, Outcome.ok_bind, epochFloor.range_eq,
    Outcome.ok_bind, ofLe8_le8]
  rfl

/-- A table that fits is read back with its sequence number. -/
theorem decodeAnchor_encoded (fits : entries.length ≤ anchorCap)
    (block : b.bytes = Splice.puts 0 zeros (anchorWrites seq entries)) :
    decodeAnchor b = .ok (seq, entries) := by
  have short := b.fits
  have most : anchorCap = 101 := rfl
  have length : b.bytes.length = blockSize := by
    rw [block, Splice.length_puts (inside_anchorWrites fits), length_zeros]
  have field {off stop : Nat} {bytes : List UInt8} (listed : (off, bytes) ∈ anchorWrites seq entries)
      (spans : off + bytes.length = stop) : b.Between off bytes stop :=
    Slice.between_puts apart_anchorWrites (inside_anchorWrites fits) block listed spans
  have magic : b.Between 0 anchorMagic 8 := field (by simp [anchorWrites]) rfl
  have number : b.Between 8 (le8 seq) 16 := field (by simp [anchorWrites]) (by simp)
  have count : b.Between 16 (toLe 4 entries.length) 20 := field (by simp [anchorWrites]) (by simp)
  have table : b.Between (20 + 0 * anchorEntrySize) (entries.flatMap fun e => (entryFields e).flatten)
      (20 + entries.length * anchorEntrySize) := field (by simp [anchorWrites]) (by rw [length_entries, Nat.zero_mul])
  have readCount : (b.indices 16 4 : Outcome Unit _) = .ok (toLe 4 entries.length) :=
    count.indices_eq (length_toLe 4 _)
  have readEntries : (records 32 (decodeEntry b) 20 anchorEntrySize 0 entries.length : Outcome Unit _) =
      .ok entries :=
    records_eq _ length_entryFields (fun pos e laid => decodeEntry_eq laid) (by omega) table
  unfold decodeAnchor
  rw [if_neg (by rw [length]; exact not_not_intro rfl), magic.range_eq, Outcome.ok_bind,
    if_neg (not_not_intro rfl), number.range_eq, Outcome.ok_bind, ofLe8_le8, Outcome.ok_bind, readCount,
    Outcome.ok_bind, fromLe_toLe (by omega), Outcome.ok_bind, Nat.min_eq_left fits, readEntries, Outcome.ok_bind]
  rfl

theorem decodeEntry_meets {pos : Nat} (inside : pos + anchorEntrySize ≤ b.bytes.length) :
    (decodeEntry b pos : Outcome ε AnchorEntry).Meets fun _ => True := by
  have short := b.fits
  have spans : anchorEntrySize = 40 := rfl
  rw [decodeEntry, addUsize_eq (by omega), Outcome.ok_bind, addUsize_eq (by omega), Outcome.ok_bind,
    addUsize_eq (by omega), Outcome.ok_bind, addUsize_eq (by omega), Outcome.ok_bind]
  apply (length_range (by omega) (by omega)).bind
  intro uuid uuidLength
  apply (copyArray_meets (by omega)).bind
  intro array _
  apply (length_range (by omega) (by omega)).bind
  intro committed committedLength
  apply (ofLe8_meets (by omega)).bind
  intro first _
  apply (length_range (by omega) (by omega)).bind
  intro inFlight inFlightLength
  apply (ofLe8_meets (by omega)).bind
  intro second _
  apply (length_range (by omega) (by omega)).bind
  intro epochFloor epochFloorLength
  apply (ofLe8_meets (by omega)).bind
  intro third _
  trivial

/-- No bytes make the decoder panic, and the table it returns has room in a block. -/
theorem decodeAnchor_meets (b : Slice 31) :
    (decodeAnchor b).Meets fun found => found.2.length ≤ anchorCap := by
  unfold decodeAnchor
  split
  · trivial
  · next size =>
      have length : b.bytes.length = 4096 := not_not.mp size
      apply (length_range (by omega) (by omega)).bind
      intro magic _
      split
      · trivial
      · apply (length_range (by omega) (by omega)).bind
        intro number numberLength
        apply (ofLe8_meets (by omega)).bind
        intro seq _
        rw [Slice.indices_window (by omega), Outcome.ok_bind, fromLe_eq (by simp [length]), Outcome.ok_bind]
        have cut : min (ofLe (Splice.window b.bytes 16 4)) anchorCap ≤ anchorCap := Nat.min_le_right _ _
        have inside := entries_end cut
        rw [← Nat.zero_add (min _ anchorCap)] at inside
        have reads (pos : Nat) (inside : pos + anchorEntrySize ≤ 4096) :
            (decodeEntry b pos : Outcome Unit AnchorEntry).Meets fun _ => True := decodeEntry_meets (by omega)
        apply (records_meets (by decide) reads inside).bind
        intro entries count
        rw [Outcome.pure_eq, Outcome.meets_ok]
        exact count.trans_le cut

end Anchor

/-- Moves the given fields of an entry forward. -/
def AnchorEntry.raise (e : AnchorEntry) (committed inFlight epochFloor : Option UInt64) : AnchorEntry :=
  { e with
    committed := match committed with | some c => max e.committed c | none => e.committed
    inFlight := match inFlight with | some f => max e.inFlight f | none => e.inFlight
    epochFloor := match epochFloor with | some ef => max e.epochFloor ef | none => e.epochFloor }

/-- The table that `anchor_record_full` saves. -/
def upsert (uuid : Vector UInt8 16) (committed inFlight epochFloor : Option UInt64)
    (entries : List AnchorEntry) : Except String (List AnchorEntry) :=
  match entries.findIdx? fun e => e.uuid = uuid with
  | some i => .ok (entries.modify i (·.raise committed inFlight epochFloor))
  | none =>
      if entries.length ≥ anchorCap then
        .error s!"anchor full ({anchorCap} DBs); cannot track freshness for another DB in this pool"
      else .ok (entries ++ [⟨uuid, committed.getD 0, inFlight.getD 0, epochFloor.getD 0⟩])

/-- The plaintext that each slot of `anchor.bin` opens to. -/
abbrev Slots := Option (Slice 31) × Option (Slice 31)

/-- How a write to the anchor ends; one that fails leaves anything there. -/
inductive SlotWrite where
  | done
  | failed (left : Slots)

/-- The anchor, how the coming writes end, and every table that was handed to `encode_anchor`. -/
structure AnchorStore where
  slots : Slots
  writes : List SlotWrite
  encoded : List (UInt64 × List AnchorEntry)

namespace AnchorStore

/-- One pass of the loop of `anchor_load`. -/
def loadSlot (best : Option (UInt64 × List AnchorEntry)) :
    Option (Slice 31) → Outcome Empty (Option (UInt64 × List AnchorEntry))
  | none => .ok best
  | some plain =>
      match decodeAnchor plain with
      | .ok found => .ok (if best.all fun earlier => found.1 > earlier.1 then some found else best)
      | .error _ => .ok best
      | .panic => .panic

def anchorLoad (slots : Slots) : Outcome Empty (UInt64 × List AnchorEntry) := do
  let best ← loadSlot none slots.1
  let best ← loadSlot best slots.2
  return best.getD (0, [])

/-- A block as it opens again. -/
def opened (plain : List UInt8) : Option (Slice 31) :=
  if fits : plain.length < 2 ^ 31 then some ⟨plain, fits⟩ else none

/-- `anchor_save`, and whether it returned without an error. -/
def anchorSave (seq : UInt64) (entries : List AnchorEntry) (s : AnchorStore) :
    Outcome Empty (AnchorStore × Bool) := do
  let plain ← encodeAnchor seq entries
  let encoded := s.encoded ++ [(seq, entries)]
  match s.writes with
  | .failed left :: rest => return (⟨left, rest, encoded⟩, false)
  | _ =>
      let slots := if seq % 2 = 0 then (opened plain, s.slots.2) else (s.slots.1, opened plain)
      return (⟨slots, s.writes.tail, encoded⟩, true)

/-- `anchor_record_full`, and whether it returned without an error. -/
def anchorRecordFull (uuid : Vector UInt8 16) (committed inFlight epochFloor : Option UInt64)
    (s : AnchorStore) : Outcome Empty (AnchorStore × Bool) := do
  let (seq, entries) ← anchorLoad s.slots
  match upsert uuid committed inFlight epochFloor entries with
  | .error _ => return (s, false)
  | .ok entries =>
      let (s, saved) ← anchorSave (seq + 1) entries s
      -- a floor is written to both slots
      if saved ∧ epochFloor.isSome then anchorSave (seq + 2) entries s else return (s, saved)

/-- The anchors that a rotation's roll-forward brings along. -/
def carryOver : List AnchorEntry → AnchorStore → Outcome Empty (AnchorStore × Bool)
  | [], s => .ok (s, true)
  | e :: rest, s => do
      let (s, saved) ← anchorRecordFull e.uuid (some e.committed) (some e.inFlight)
        (if e.epochFloor > 0 then some e.epochFloor else none) s
      if saved then carryOver rest s else return (s, false)

inductive Event where
  | record (uuid : Vector UInt8 16) (committed inFlight epochFloor : Option UInt64)
  | rollForward (anchors : List AnchorEntry)
  /-- A crash, a torn write, another pool's file: anything else that happens to the anchor. -/
  | becomes (slots : Slots)

def step (s : AnchorStore) : Event → Outcome Empty AnchorStore
  | .record uuid committed inFlight epochFloor => do
      let (s, _) ← anchorRecordFull uuid committed inFlight epochFloor s
      return s
  | .rollForward anchors => do
      let (s, _) ← carryOver anchors s
      return s
  | .becomes slots => .ok { s with slots }

def run : AnchorStore → List Event → Outcome Empty AnchorStore
  | s, [] => .ok s
  | s, event :: rest => do
      let s ← step s event
      run s rest

/-- Nothing was cut from any table that was encoded. -/
def Whole (s : AnchorStore) : Prop := ∀ call ∈ s.encoded, call.2.length ≤ anchorCap

variable {s : AnchorStore} {entries next : List AnchorEntry} {committed inFlight epochFloor : Option UInt64}

theorem loadSlot_meets {best : Option (UInt64 × List AnchorEntry)} (slot : Option (Slice 31))
    (fits : ∀ found ∈ best, found.2.length ≤ anchorCap) :
    (loadSlot best slot).Meets fun best => ∀ found ∈ best, found.2.length ≤ anchorCap := by
  cases slot with
  | none => exact fits
  | some plain =>
      have met := decodeAnchor_meets plain
      rw [loadSlot]
      cases decoded : decodeAnchor plain with
      | ok found =>
          rw [decoded, Outcome.meets_ok] at met
          rw [Outcome.meets_ok]
          split
          · intro other same
            rw [← Option.some.inj same]
            exact met
          · exact fits
      | error reason => exact fits
      | panic =>
          rw [decoded] at met
          exact met

/-- Whatever the slots open to, the table that is loaded has room in a block. -/
theorem anchorLoad_meets (slots : Slots) :
    (anchorLoad slots).Meets fun found => found.2.length ≤ anchorCap := by
  unfold anchorLoad
  apply (loadSlot_meets slots.1 (by simp)).bind
  intro first fits
  apply (loadSlot_meets slots.2 fits).bind
  intro best fits
  cases best with
  | none => exact Nat.zero_le _
  | some found => exact fits found rfl

theorem upsert_length {uuid : Vector UInt8 16} (fits : entries.length ≤ anchorCap)
    (raised : upsert uuid committed inFlight epochFloor entries = .ok next) : next.length ≤ anchorCap := by
  unfold upsert at raised
  split at raised
  · rw [← Except.ok.inj raised, List.length_modify]
    exact fits
  · split at raised
    · cases raised
    · next room =>
        rw [← Except.ok.inj raised, List.length_append, List.length_singleton]
        omega

theorem anchorSave_meets (seq : UInt64) (fits : entries.length ≤ anchorCap) (whole : s.Whole) :
    (anchorSave seq entries s).Meets fun out => out.1.Whole := by
  have longer : ∀ call ∈ s.encoded ++ [(seq, entries)], call.2.length ≤ anchorCap := by
    rw [List.forall_mem_append]
    exact ⟨whole, List.forall_mem_singleton.mpr fits⟩
  rw [anchorSave, encodeAnchor_eq fits, Outcome.ok_bind]
  split
  · exact longer
  · exact longer

theorem anchorRecordFull_meets (uuid : Vector UInt8 16) (committed inFlight epochFloor : Option UInt64)
    (whole : s.Whole) : (anchorRecordFull uuid committed inFlight epochFloor s).Meets fun out => out.1.Whole := by
  unfold anchorRecordFull
  apply (anchorLoad_meets s.slots).bind
  intro ⟨seq, loaded⟩ fits
  dsimp only
  cases raised : upsert uuid committed inFlight epochFloor loaded with
  | error reason => exact whole
  | ok entries =>
      have room := upsert_length fits raised
      dsimp only
      apply (anchorSave_meets (seq + 1) room whole).bind
      intro ⟨t, saved⟩ whole
      dsimp only
      split
      · exact anchorSave_meets (seq + 2) room whole
      · exact whole

theorem carryOver_meets (anchors : List AnchorEntry) (whole : s.Whole) :
    (carryOver anchors s).Meets fun out => out.1.Whole := by
  induction anchors generalizing s with
  | nil => exact whole
  | cons e rest ih =>
      rw [carryOver]
      apply (anchorRecordFull_meets e.uuid (some e.committed) (some e.inFlight) _ whole).bind
      intro out whole
      dsimp only
      split
      · exact ih whole
      · exact whole

theorem step_meets (event : Event) (whole : s.Whole) : (step s event).Meets Whole := by
  cases event with
  | record uuid committed inFlight epochFloor =>
      apply (anchorRecordFull_meets uuid committed inFlight epochFloor whole).bind
      intro out whole
      exact whole
  | rollForward anchors =>
      apply (carryOver_meets anchors whole).bind
      intro out whole
      exact whole
  | becomes slots =>
      rw [step, Outcome.meets_ok]
      exact whole

theorem run_meets (events : List Event) (whole : s.Whole) : (run s events).Meets Whole := by
  induction events generalizing s with
  | nil => exact whole
  | cons event rest ih =>
      rw [run]
      apply (step_meets event whole).bind
      intro t whole
      exact ih whole

end AnchorStore

section Window

variable {uuid other : Vector UInt8 16} {committed inFlight epochFloor : Option UInt64}
  {entries : List AnchorEntry}

/-- The database that sixteen bytes name. -/
def uuidOf (bytes : Vector UInt8 16) : Uuid := BitVec.ofNat 128 (ofLe bytes.toList)

/-- The freshness window that an entry records. -/
def AnchorEntry.window (e : AnchorEntry) : Freehold.AnchorEntry :=
  ⟨uuidOf e.uuid, e.committed.toNat, e.inFlight.toNat, e.epochFloor.toNat⟩

theorem uuidOf_inj : uuidOf uuid = uuidOf other ↔ uuid = other := by
  constructor
  · intro same
    have small := ofLe_lt uuid.toList
    have small' := ofLe_lt other.toList
    have numbers := congrArg BitVec.toNat same
    rw [Vector.length_toList] at small small'
    simp only [uuidOf, BitVec.toNat_ofNat] at numbers
    rw [Nat.mod_eq_of_lt (by omega), Nat.mod_eq_of_lt (by omega)] at numbers
    have bytes := congrArg (toLe 16) numbers
    have back := toLe_ofLe uuid.toList
    have back' := toLe_ofLe other.toList
    rw [Vector.length_toList] at back back'
    rw [back, back'] at bytes
    exact Vector.toList_inj.mp bytes
  · exact congrArg uuidOf

theorem window_raise (e : AnchorEntry) :
    (e.raise committed inFlight epochFloor).window =
      e.window.raise (committed.map UInt64.toNat) (inFlight.map UInt64.toNat) (epochFloor.map UInt64.toNat) := by
  have larger (a b : UInt64) : (max a b).toNat = max a.toNat b.toNat := by
    rw [UInt64.max_def, Nat.max_def]
    split <;> split <;> simp_all [UInt64.le_iff_toNat_le]
  cases committed <;> cases inFlight <;> cases epochFloor <;>
    simp [AnchorEntry.raise, AnchorEntry.window, Freehold.AnchorEntry.raise, larger]

/-- The position that is found is the one that the model raises. -/
theorem map_window_modify {i : Nat} (found : entries.findIdx? (fun e => e.uuid = uuid) = some i) :
    (entries.modify i (·.raise committed inFlight epochFloor)).map AnchorEntry.window =
      raiseFirst (uuidOf uuid) (·.raise (committed.map UInt64.toNat) (inFlight.map UInt64.toNat)
        (epochFloor.map UInt64.toNat)) (entries.map AnchorEntry.window) := by
  induction entries generalizing i with
  | nil => simp at found
  | cons e rest ih =>
      rw [List.map_cons, raiseFirst]
      rw [List.findIdx?_cons] at found
      by_cases here : e.uuid = uuid
      · rw [if_pos (decide_eq_true here), Option.some.injEq] at found
        subst found
        have carried : e.window.uuid = uuidOf uuid := uuidOf_inj.mpr here
        rw [if_pos carried, List.modify_zero_cons, List.map_cons, window_raise]
      · rw [if_neg (by simpa using here), Option.map_eq_some_iff] at found
        obtain ⟨k, found, rfl⟩ := found
        have apart : ¬ e.window.uuid = uuidOf uuid := fun same => here (uuidOf_inj.mp same)
        rw [if_neg apart, List.modify_succ_cons, List.map_cons, ih found]

/-- On the bytes a window is saved as the freshness table of the model has it. -/
theorem upsert_refines {table : AnchorTable} (same : entries.map AnchorEntry.window = table.entries) :
    (upsert uuid committed inFlight epochFloor entries).toOption.map (List.map AnchorEntry.window) =
      (anchorUpsert (uuidOf uuid) (committed.map UInt64.toNat) (inFlight.map UInt64.toNat)
        (epochFloor.map UInt64.toNat) table).map AnchorTable.entries := by
  have count : table.entries.length = entries.length := by rw [← same, List.length_map]
  have listed : uuidOf uuid ∈ table.entries.map (fun e => e.uuid) ↔ ∃ e ∈ entries, e.uuid = uuid := by
    rw [← same, List.map_map, List.mem_map]
    constructor
    · intro ⟨e, member, equal⟩
      exact ⟨e, member, uuidOf_inj.mp equal⟩
    · intro ⟨e, member, equal⟩
      exact ⟨e, member, uuidOf_inj.mpr equal⟩
  unfold upsert
  cases found : entries.findIdx? fun e => e.uuid = uuid with
  | some i =>
      have present : uuidOf uuid ∈ table.entries.map fun e => e.uuid := by
        have carried : (entries.findIdx? fun e => e.uuid = uuid).isSome =
            entries.any fun e => e.uuid = uuid := List.findIdx?_isSome
        rw [found] at carried
        obtain ⟨e, member, equal⟩ := List.any_eq_true.mp carried.symm
        exact listed.mpr ⟨e, member, of_decide_eq_true equal⟩
      obtain ⟨next, saved, raised⟩ := anchorUpsert_of_mem (committed.map UInt64.toNat)
        (inFlight.map UInt64.toNat) (epochFloor.map UInt64.toNat) present
      rw [saved, Option.map_some, raised, ← same, ← map_window_modify found]
      rfl
  | none =>
      have absent : uuidOf uuid ∉ table.entries.map fun e => e.uuid := by
        intro present
        obtain ⟨e, member, equal⟩ := listed.mp present
        have no := List.findIdx?_eq_none_iff.mp found e member
        exact of_decide_eq_false no equal
      dsimp only
      by_cases full : entries.length ≥ anchorCap
      · have refused : anchorUpsert (uuidOf uuid) (committed.map UInt64.toNat) (inFlight.map UInt64.toNat)
            (epochFloor.map UInt64.toNat) table = none := by
          by_contra allowed
          have room := (anchorUpsert_ne_none.mp allowed).resolve_left absent
          omega
        rw [if_pos full, refused]
        rfl
      · obtain ⟨next, saved, appended⟩ := anchorUpsert_of_not_mem (committed.map UInt64.toNat)
          (inFlight.map UInt64.toNat) (epochFloor.map UInt64.toNat) absent (by omega)
        rw [if_neg full, saved, Option.map_some, appended, ← same]
        cases committed <;> cases inFlight <;> cases epochFloor <;> simp [AnchorEntry.window, Except.toOption]

end Window

/-- A payload whose table fits is read back, and its table and its previous root stand apart. -/
theorem ManifestPayload.round_trip {payload : ManifestPayload} (fits : payload.files.length ≤ maxEntries) :
    ∃ b : Slice 31, payload.encode = .ok b.bytes ∧ decode b = .ok payload ∧
      68 + payload.table.length ≤ prevRootOffset ∧
      Splice.window b.bytes 68 payload.table.length = payload.table ∧
      Splice.window b.bytes prevRootOffset 32 = payload.prevMerkleRoot.toList := by
  have length : (Splice.puts 0 zeros payload.writes).length = blockSize := by
    rw [Splice.length_puts (inside_writes fits), length_zeros]
  have short : (Splice.puts 0 zeros payload.writes).length < 2 ^ 31 := by
    rw [length]
    decide
  have held {write : Nat × List UInt8} (listed : write ∈ payload.writes) :
      Splice.window (Splice.puts 0 zeros payload.writes) write.1 write.2.length = write.2 :=
    Splice.window_puts (apart_writes fits) (inside_writes fits) listed
  have root := @held (prevRootOffset, payload.prevMerkleRoot.toList) (by simp [writes])
  rw [Vector.length_toList] at root
  refine ⟨⟨_, short⟩, encode_eq fits, decode_encoded fits rfl, ?_, ?_, root⟩
  · rw [length_table]
    exact table_ends fits
  · exact @held (68, payload.table) (by simp [writes])

theorem anchor_round_trip {seq : UInt64} {entries : List AnchorEntry} (fits : entries.length ≤ anchorCap) :
    ∃ b : Slice 31, encodeAnchor seq entries = .ok b.bytes ∧ decodeAnchor b = .ok (seq, entries) := by
  have length : (Splice.puts 0 zeros (anchorWrites seq entries)).length = blockSize := by
    rw [Splice.length_puts (inside_anchorWrites fits), length_zeros]
  have short : (Splice.puts 0 zeros (anchorWrites seq entries)).length < 2 ^ 31 := by
    rw [length]
    decide
  exact ⟨⟨_, short⟩, encodeAnchor_eq fits, decodeAnchor_encoded fits rfl⟩

/-- Both codecs are exact as far as a table fits its block, no bytes make a decoder panic or return
more, and in no run of the anchor does its encoder get a table that it would cut. -/
theorem payload_codecs_exact :
    (∀ payload : ManifestPayload, payload.files.length ≤ ManifestPayload.maxEntries →
      ∃ b : Slice 31, payload.encode = .ok b.bytes ∧ ManifestPayload.decode b = .ok payload ∧
        68 + payload.table.length ≤ prevRootOffset ∧
        Splice.window b.bytes 68 payload.table.length = payload.table ∧
        Splice.window b.bytes prevRootOffset 32 = payload.prevMerkleRoot.toList) ∧
    (∀ (seq : UInt64) (entries : List AnchorEntry), entries.length ≤ anchorCap →
      ∃ b : Slice 31, encodeAnchor seq entries = .ok b.bytes ∧ decodeAnchor b = .ok (seq, entries)) ∧
    (∀ b : Slice 31,
      ((ManifestPayload.decode b).Meets fun payload =>
        68 + payload.files.length * stride ≤ prevRootOffset) ∧
      (decodeAnchor b).Meets fun found => found.2.length ≤ anchorCap) ∧
    ∀ (slots : Slots) (writes : List SlotWrite) (events : List AnchorStore.Event),
      (AnchorStore.run ⟨slots, writes, []⟩ events).Meets AnchorStore.Whole := by
  refine ⟨?_, ?_, ?_, ?_⟩
  · intro payload fits
    exact ManifestPayload.round_trip fits
  · intro seq entries fits
    exact anchor_round_trip fits
  · intro b
    exact ⟨(ManifestPayload.decode_meets b).imp fun payload fits => ManifestPayload.table_ends fits,
      decodeAnchor_meets b⟩
  · intro slots writes events
    exact AnchorStore.run_meets events (by simp [AnchorStore.Whole])

namespace PayloadSample

/-- A table in which every place is taken. -/
def full : ManifestPayload where
  dbGeneration := 7
  dbUuid := Vector.replicate 16 1
  merkleRoot := Vector.replicate 32 2
  prevMerkleRoot := Vector.replicate 32 3
  files := (List.range 166).map fun i => (Vector.replicate 16 (UInt8.ofNat i), 4096)

def fullAnchor : List AnchorEntry := (List.range 101).map fun i => ⟨Vector.replicate 16 (UInt8.ofNat i), 7, 7, 0⟩

end PayloadSample

open PayloadSample in
/-- A full block, a full anchor, and one more database than the anchor can track. -/
theorem payload_codecs_exact_full :
    (∃ b : Slice 31, full.encode = .ok b.bytes ∧ ManifestPayload.decode b = .ok full) ∧
    (∃ b : Slice 31, encodeAnchor 9 fullAnchor = .ok b.bytes ∧ decodeAnchor b = .ok (9, fullAnchor)) ∧
    (AnchorStore.run ⟨(none, none), [], []⟩
      [.rollForward fullAnchor, .record (Vector.replicate 16 200) (some 1) (some 1) none]).Meets
        AnchorStore.Whole := by
  have files : full.files.length = 166 := by simp [full]
  have entries : fullAnchor.length = 101 := by simp [fullAnchor]
  obtain ⟨manifests, anchors, _, runs⟩ := payload_codecs_exact
  obtain ⟨b, encoded, decoded, _⟩ := manifests full files.le
  exact ⟨⟨b, encoded, decoded⟩, anchors 9 fullAnchor entries.le, runs _ _ _⟩

end Freehold.PayloadWire
