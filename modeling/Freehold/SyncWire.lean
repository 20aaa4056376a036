import Freehold.Lib.Cursor
import Freehold.Sync
import Freehold.VectorOrder

set_option autoImplicit false

namespace Freehold

open Cursor

/-- What the crate is built for. -/
inductive Target where
  | wasm32
  | host64
  deriving DecidableEq, Repr

def Target.usizeBits : Target → Nat
  | .wasm32 => 32
  | .host64 => 64

theorem Target.le_usizeBits (t : Target) : 32 ≤ t.usizeBits := by
  cases t <;> decide

theorem leBytes_eq (width n : Nat) : leBytes width n = toLe width n := by
  induction width generalizing n with
  | zero => rfl
  | succ width ih => rw [leBytes, toLe, ih]

/-- `id.copy_from_slice(s)` into a `[u8; 16]`. -/
def array16 (bytes : List UInt8) : Outcome String DeviceId :=
  if bytes.length = 16 then .ok (BitVec.ofNat 128 (ofLe bytes.reverse)) else .panic

@[simp] theorem DeviceId.length_bytes (id : DeviceId) : id.bytes.length = 16 := by
  rw [DeviceId.bytes, leBytes_eq, List.length_reverse, length_toLe]

theorem array16_bytes (id : DeviceId) : array16 id.bytes = .ok id := by
  have small : id.toNat < 256 ^ 16 := Nat.lt_of_lt_of_le id.isLt (by decide)
  rw [array16, if_pos id.length_bytes, DeviceId.bytes, List.reverse_reverse, leBytes_eq,
    ofLe_toLe small, BitVec.ofNat_toNat, BitVec.setWidth_eq]

theorem bytes_of_array16 {bytes : List UInt8} (length : bytes.length = 16) :
    DeviceId.bytes (BitVec.ofNat 128 (ofLe bytes.reverse)) = bytes := by
  have reversed : bytes.reverse.length = 16 := by rw [List.length_reverse, length]
  have small := ofLe_lt bytes.reverse
  rw [reversed] at small
  have value : (BitVec.ofNat 128 (ofLe bytes.reverse)).toNat = ofLe bytes.reverse := by
    rw [BitVec.toNat_ofNat]
    exact Nat.mod_eq_of_lt (Nat.lt_of_lt_of_le small (by decide))
  have digits : toLe 16 (ofLe bytes.reverse) = bytes.reverse := by
    rw [← reversed, toLe_ofLe]
  rw [DeviceId.bytes, leBytes_eq, value, digits, List.reverse_reverse]

namespace SyncWire

variable {width : Nat}

def take (n : Nat) : Read width String (List UInt8) :=
  Read.take "sync: length overflow" "sync: truncated section" n

def takeU32 : Read width String Nat :=
  Read.word "sync: length overflow" "sync: truncated section" 4

theorem reads_take (read : List UInt8) : Read.Reads (take read.length : Read width String _) read read :=
  Read.reads_take _ _ read

theorem accepts_take (n : Nat) : Read.Accepts (take n : Read width String _)
    fun read value => value = read ∧ read.length = n := Read.accepts_take _ _ n

/-- A cursor past the end reads nothing. -/
theorem take_past_end {b : Slice width} {pos n : Nat} (past : b.bytes.length < pos) :
    ∃ reason, (take n : Read width String _).run b pos = .error reason := by
  simp only [take, Read.take, checkedAdd]
  split
  · exact ⟨"sync: truncated section", if_pos (by omega)⟩
  · exact ⟨"sync: length overflow", rfl⟩

theorem reads_takeU32 (wide : 32 ≤ width) {n : Nat} (small : n < 2 ^ 32) :
    Read.Reads (takeU32 : Read width String Nat) (toLe 4 n) n :=
  Read.reads_word _ _ (Nat.pow_le_pow_right Nat.two_pos wide : 2 ^ 32 ≤ 2 ^ width) small

theorem accepts_takeU32 (wide : 32 ≤ width) : Read.Accepts (takeU32 : Read width String Nat)
    fun read n => read = toLe 4 n ∧ n < 2 ^ 32 :=
  Read.accepts_word _ _ (Nat.pow_le_pow_right Nat.two_pos wide : 2 ^ 32 ≤ 2 ^ width)

end SyncWire

namespace VersionVector

open SyncWire

variable {width : Nat}

/-- No component is stored as an explicit zero. -/
def NoZeros (v : VersionVector) : Prop := ∀ entry ∈ v.counts.toList, entry.2 ≠ 0

instance (v : VersionVector) : Decidable v.NoZeros :=
  inferInstanceAs (Decidable (∀ entry ∈ v.counts.toList, entry.2 ≠ 0))

def encodeEntry (entry : DeviceId × UInt64) : List UInt8 :=
  entry.1.bytes ++ leBytes 8 entry.2.toNat

/-- The variables of the loop of `decode`. -/
structure Decoding where
  counts : Std.ExtTreeMap DeviceId UInt64
  prev : Option DeviceId

/-- One iteration: the ids ascend strictly and no count is zero. -/
def decodeEntry (loop : Decoding) : Read width String Decoding := do
  let id ← Read.lift (array16 (← take 16))
  if loop.prev.any fun p => decide (id ≤ p) then
    Read.fail "vv: entries not strictly ascending by device_id"
  else
    let count ← Read.lift (Cursor.fromLe 8 (← take 8))
    if count = 0 then Read.fail "vv: zero component must be omitted"
    else return ⟨loop.counts.insert id (UInt64.ofNat count), some id⟩

/-- The entries a count of `n` claims have to be there. -/
def checkEntries (n : Nat) : Read width String Unit := ⟨fun b pos => do
  let need ← okOr "vv: length overflow" (checkedMul width n 24)
  let stop ← okOr "vv: length overflow" (checkedAdd width pos need)
  if stop > b.bytes.length then .error "vv: truncated entries"
  else return ((), pos)⟩

def decode : Read width String VersionVector := do
  let n ← takeU32
  checkEntries n
  let loop ← Read.times decodeEntry n ⟨∅, none⟩
  return ⟨loop.counts⟩

theorem entries_of_noZeros {v : VersionVector} (noZeros : v.NoZeros) : v.entries = v.counts.toList := by
  rw [entries, List.filter_eq_self]
  intro entry member
  rw [decide_eq_true_eq]
  exact UInt64.pos_iff_ne_zero.mpr (noZeros entry member)

@[simp] theorem length_encodeEntry (entry : DeviceId × UInt64) : (encodeEntry entry).length = 24 := by
  rw [encodeEntry, List.length_append, DeviceId.length_bytes, leBytes_eq, length_toLe]

theorem encode_of_noZeros {v : VersionVector} (noZeros : v.NoZeros) :
    v.encode = toLe 4 v.counts.toList.length ++ (v.counts.toList.map encodeEntry).flatten := by
  rw [encode_eq, entries_of_noZeros noZeros, leBytes_eq, List.flatMap_def]
  rfl

/-- A key above all others goes to the end of the list. -/
theorem toList_insert_last {counts : Std.ExtTreeMap DeviceId UInt64} {id : DeviceId} (count : UInt64)
    (above : ∀ entry ∈ counts.toList, entry.1 < id) :
    (counts.insert id count).toList = counts.toList ++ [(id, count)] := by
  have absent : ∀ entry ∈ counts.toList, entry.1 ≠ id := fun entry member same =>
    absurd (above entry member) (by simp [same])
  have sorted : (counts.toList ++ [(id, count)]).Pairwise fun e f => compare e.1 f.1 = .lt := by
    rw [List.pairwise_append]
    refine ⟨Std.ExtTreeMap.ordered_keys_toList, List.pairwise_singleton _ _, ?_⟩
    intro entry member last final
    rw [List.mem_singleton] at final
    rw [final]
    exact compareOfLessAndEq_eq_lt.mpr (above entry member)
  have nodup : ∀ es : List (DeviceId × UInt64),
      es.Pairwise (fun e f => compare e.1 f.1 = .lt) → es.Nodup := by
    intro es ordered
    apply ordered.imp
    rintro e f less rfl
    simp at less
  apply List.Perm.eq_of_pairwise ?_ Std.ExtTreeMap.ordered_keys_toList sorted
  · rw [List.perm_ext_iff_of_nodup (nodup _ Std.ExtTreeMap.ordered_keys_toList) (nodup _ sorted)]
    rintro ⟨k, c⟩
    rw [Std.ExtTreeMap.mem_toList_iff_getElem?_eq_some, List.mem_append, List.mem_singleton,
      Std.ExtTreeMap.getElem?_insert, Prod.mk.injEq]
    by_cases same : id = k
    · subst same
      have missing : (id, c) ∉ counts.toList := fun member => absent _ member rfl
      simp [missing, eq_comm]
    · have distinct : ¬k = id := fun equal => same equal.symm
      simp [same, distinct, Std.ExtTreeMap.mem_toList_iff_getElem?_eq_some]
  · intro e f _ _ less more
    exact absurd more (Std.OrientedCmp.not_lt_of_lt less)

/-- All ids so far are at most the last one read. -/
def Decoding.Bounded (loop : Decoding) : Prop :=
  ∀ entry ∈ loop.counts.toList, ∃ p, loop.prev = some p ∧ entry.1 ≤ p

/-- What one iteration did: `entry` comes after all others and is no zero. -/
structure Decoding.Extends (loop : Decoding) (entry : DeviceId × UInt64) (next : Decoding) : Prop where
  above : ∀ p, loop.prev = some p → p < entry.1
  nonzero : entry.2 ≠ 0
  next_eq : next = ⟨loop.counts.insert entry.1 entry.2, some entry.1⟩

namespace Decoding.Extends

variable {loop next : Decoding} {entry : DeviceId × UInt64}

theorem toList_eq (extend : loop.Extends entry next) (bounded : loop.Bounded) :
    next.counts.toList = loop.counts.toList ++ [entry] := by
  rw [extend.next_eq]
  apply toList_insert_last
  intro earlier member
  obtain ⟨p, last, le⟩ := bounded earlier member
  exact Nat.lt_of_le_of_lt le (extend.above p last)

theorem bounded (extend : loop.Extends entry next) (bounded : loop.Bounded) : next.Bounded := by
  intro other member
  rw [extend.toList_eq bounded, List.mem_append, List.mem_singleton] at member
  refine ⟨entry.1, by rw [extend.next_eq], ?_⟩
  cases member with
  | inl earlier =>
      obtain ⟨p, last, le⟩ := bounded other earlier
      exact Nat.le_of_lt (Nat.lt_of_le_of_lt le (extend.above p last))
  | inr same =>
      rw [same]
      exact BitVec.le_refl _

end Decoding.Extends

theorem accepts_decodeEntry (loop : Decoding) :
    Read.Accepts (decodeEntry loop : Read width String Decoding)
      fun read next => ∃ entry, read = encodeEntry entry ∧ loop.Extends entry next := by
  apply (accepts_take 16).bind
  rintro _ idBytes ⟨rfl, length⟩
  have id_met : (array16 idBytes).Meets fun id => DeviceId.bytes id = idBytes := by
    rw [array16, if_pos length]
    exact bytes_of_array16 length
  apply (Read.Accepts.lift id_met).bind
  rintro _ id ⟨rfl, rfl⟩
  split
  · exact Read.Accepts.fail _
  · next ascending =>
      apply (accepts_take 8).bind
      rintro _ countBytes ⟨rfl, length⟩
      rw [Cursor.fromLe_eq length]
      have number : (Outcome.ok (ofLe countBytes) : Outcome String Nat).Meets
          fun count => count = ofLe countBytes := rfl
      apply (Read.Accepts.lift number).bind
      rintro _ _ ⟨rfl, rfl⟩
      split
      · exact Read.Accepts.fail _
      · next nonzero =>
          have small := ofLe_lt countBytes
          rw [length] at small
          have value : (UInt64.ofNat (ofLe countBytes)).toNat = ofLe countBytes :=
            UInt64.toNat_ofNat_of_lt' (Nat.lt_of_lt_of_le small (by decide))
          apply (Read.Accepts.pure _).imp
          rintro _ _ ⟨rfl, rfl⟩
          refine ⟨(id, UInt64.ofNat (ofLe countBytes)), ?_, ⟨?_, ?_, rfl⟩⟩
          · rw [encodeEntry, leBytes_eq, value, ← length, toLe_ofLe]
            simp only [List.append_nil, List.nil_append]
          · intro p last
            rw [last] at ascending
            simpa using ascending
          · intro zero
            rw [← UInt64.toNat_inj, value] at zero
            exact nonzero zero

theorem reads_decodeEntry {loop : Decoding} {entry : DeviceId × UInt64} {next : Decoding}
    (extend : loop.Extends entry next) :
    Read.Reads (decodeEntry loop : Read width String Decoding) (encodeEntry entry) next := by
  have small : entry.2.toNat < 256 ^ 8 := Nat.lt_of_lt_of_le entry.2.toNat_lt (by decide)
  have id_read : Read.Reads (take 16 : Read width String _) entry.1.bytes entry.1.bytes := by
    rw [← entry.1.length_bytes]
    exact SyncWire.reads_take _
  have count_read : Read.Reads (take 8 : Read width String _) (toLe 8 entry.2.toNat)
      (toLe 8 entry.2.toNat) := by
    have eight := length_toLe 8 entry.2.toNat
    have read : Read.Reads (take (toLe 8 entry.2.toNat).length : Read width String _) _ _ :=
      SyncWire.reads_take _
    rwa [eight] at read
  have number : (Cursor.fromLe 8 (toLe 8 entry.2.toNat) : Outcome String Nat) = .ok entry.2.toNat := by
    rw [Cursor.fromLe_eq (length_toLe ..), ofLe_toLe small]
  have ascending : ¬(loop.prev.any fun p => decide (entry.1 ≤ p)) = true := by
    cases last : loop.prev with
    | none => simp
    | some p => simpa [last] using extend.above p last
  have nonzero : entry.2.toNat ≠ 0 := fun zero => extend.nonzero (UInt64.toNat_inj.mp zero)
  have split_bytes : encodeEntry entry =
      entry.1.bytes ++ ([] ++ (toLe 8 entry.2.toNat ++ ([] ++ []))) := by
    rw [encodeEntry, leBytes_eq]
    simp only [List.append_nil, List.nil_append]
  rw [split_bytes]
  apply id_read.bind
  apply (Read.reads_lift (array16_bytes entry.1)).bind
  rw [if_neg ascending]
  apply count_read.bind
  apply (Read.reads_lift number).bind
  rw [if_neg nonzero, UInt64.ofNat_toNat, extend.next_eq]
  exact Read.Reads.pure _

/-- The loop reads entries and appends them to the map in the order of their bytes. -/
theorem entries_of_chain {loop last : Decoding} {reads : List (List UInt8)}
    (chain : Read.Chain (fun loop read next =>
      ∃ entry, read = encodeEntry entry ∧ Decoding.Extends loop entry next) loop reads last)
    (bounded : loop.Bounded) :
    ∃ entries, reads = entries.map encodeEntry ∧ (∀ entry ∈ entries, entry.2 ≠ 0) ∧
      last.counts.toList = loop.counts.toList ++ entries := by
  induction chain with
  | nil loop => exact ⟨[], rfl, by simp, by simp⟩
  | cons head tail ih =>
      obtain ⟨entry, rfl, extend⟩ := head
      obtain ⟨entries, rfl, nonzero, appended⟩ := ih (extend.bounded bounded)
      refine ⟨entry :: entries, rfl, ?_, ?_⟩
      · rw [List.forall_mem_cons]
        exact ⟨extend.nonzero, nonzero⟩
      · rw [appended, extend.toList_eq bounded, List.append_assoc]
        rfl

/-- Entries in strictly ascending order are read one after the other. -/
theorem chain_of_entries {loop : Decoding} {entries : List (DeviceId × UInt64)}
    (sorted : entries.Pairwise fun e f => compare e.1 f.1 = .lt)
    (nonzero : ∀ entry ∈ entries, entry.2 ≠ 0) (bounded : loop.Bounded)
    (above : ∀ entry ∈ entries, ∀ p, loop.prev = some p → p < entry.1) :
    ∃ last : Decoding, last.counts.toList = loop.counts.toList ++ entries ∧
      Read.Chain (fun loop read next => Read.Reads (decodeEntry loop : Read width String _) read next)
        loop (entries.map encodeEntry) last := by
  induction entries generalizing loop with
  | nil => exact ⟨loop, by simp, .nil loop⟩
  | cons entry entries ih =>
      rw [List.pairwise_cons] at sorted
      rw [List.forall_mem_cons] at nonzero above
      have extend : loop.Extends entry ⟨loop.counts.insert entry.1 entry.2, some entry.1⟩ :=
        ⟨above.1, nonzero.1, rfl⟩
      have higher : ∀ later ∈ entries, ∀ p, some entry.1 = some p → p < later.1 := by
        rintro later member _ ⟨⟩
        exact compareOfLessAndEq_eq_lt.mp (sorted.1 later member)
      obtain ⟨last, appended, chain⟩ := ih sorted.2 nonzero.2 (extend.bounded bounded) higher
      refine ⟨last, ?_, .cons (reads_decodeEntry extend) chain⟩
      rw [appended, extend.toList_eq bounded, List.append_assoc]
      rfl

theorem bounded_start : Decoding.Bounded ⟨∅, none⟩ := by
  intro entry member
  have empty : (∅ : Std.ExtTreeMap DeviceId UInt64).toList = [] := rfl
  rw [empty] at member
  cases member

/-- What stands from the cursor on covers the entries that are claimed. -/
theorem checkEntries_eq {b : Slice width} {pos stop n : Nat} {read : List UInt8}
    (between : b.Between pos read stop) (length : read.length = n * 24) :
    (checkEntries n : Read width String Unit).run b pos = .ok ((), pos) := by
  have fits := between.stop_lt
  have inside := between.stop_le
  have spans := between.stop_eq
  rw [spans, length] at fits inside
  have product : n * 24 < 2 ^ width := by omega
  simp only [checkEntries, checkedMul_eq product, checkedAdd_eq fits, okOr, Outcome.ok_bind]
  rw [if_neg (by omega)]
  rfl

theorem accepts_checkEntries (n : Nat) :
    Read.Accepts (checkEntries n : Read width String Unit) fun read _ => read = [] := by
  intro b pos inside
  unfold checkEntries checkedMul
  dsimp only
  split
  · rw [okOr, Outcome.ok_bind]
    unfold checkedAdd
    split
    · rw [okOr, Outcome.ok_bind]
      split
      · trivial
      · exact ⟨[], Slice.between_nil inside, rfl⟩
    · trivial
  · trivial

/-- An encoded vector decodes to itself wherever it stands. -/
theorem reads_decode (wide : 32 ≤ width) {v : VersionVector} (noZeros : v.NoZeros)
    (few : v.counts.toList.length < 2 ^ 32) :
    Read.Reads (decode : Read width String VersionVector) v.encode v := by
  obtain ⟨last, appended, chain⟩ : ∃ last : Decoding, _ ∧ Read.Chain
      (fun loop read next => Read.Reads (decodeEntry loop : Read width String _) read next) _ _ last :=
    chain_of_entries Std.ExtTreeMap.ordered_keys_toList noZeros bounded_start
      (fun _ _ _ none => nomatch none)
  have loop := Read.reads_times chain
  rw [List.length_map] at loop
  have same : last.counts = v.counts := Std.ExtTreeMap.toList_inj.mp appended
  rw [encode_of_noZeros noZeros]
  intro b pos stop between
  obtain ⟨front, entries⟩ := between.split
  have length : ((v.counts.toList.map encodeEntry).flatten).length = v.counts.toList.length * 24 := by
    have each : (v.counts.toList.map encodeEntry).map List.length =
        List.replicate v.counts.toList.length 24 := by
      rw [List.map_map, List.eq_replicate_iff, List.length_map]
      refine ⟨rfl, ?_⟩
      intro n member
      obtain ⟨entry, _, rfl⟩ := List.mem_map.mp member
      exact length_encodeEntry entry
    rw [List.length_flatten, each, List.sum_replicate, smul_eq_mul]
  show (takeU32 >>= fun n => checkEntries n >>= fun _ => Read.times decodeEntry n ⟨∅, none⟩ >>=
    fun loop => (pure ⟨loop.counts⟩ : Read width String VersionVector)).run b pos = _
  rw [Read.run_bind, reads_takeU32 wide few b pos _ front, Outcome.ok_bind, Read.run_bind,
    checkEntries_eq entries length, Outcome.ok_bind, Read.run_bind, loop b _ _ entries,
    Outcome.ok_bind, same]
  rfl

/-- What is decoded encodes to exactly the bytes that were read. -/
theorem accepts_decode (wide : 32 ≤ width) : Read.Accepts (decode : Read width String VersionVector)
    fun read v => v.NoZeros ∧ v.counts.toList.length < 2 ^ 32 ∧ v.encode = read := by
  apply (accepts_takeU32 wide).bind
  rintro _ n ⟨rfl, small⟩
  apply (accepts_checkEntries n).bind
  rintro _ _ rfl
  apply (Read.accepts_times accepts_decodeEntry n ⟨∅, none⟩).bind
  rintro _ last ⟨reads, rfl, count, chain⟩
  obtain ⟨entries, rfl, nonzero, appended⟩ := entries_of_chain chain bounded_start
  apply (Read.Accepts.pure _).imp
  rintro _ _ ⟨rfl, rfl⟩
  have list : (⟨last.counts⟩ : VersionVector).counts.toList = entries := appended
  have noZeros : (⟨last.counts⟩ : VersionVector).NoZeros := by
    unfold NoZeros
    rw [list]
    exact nonzero
  rw [List.length_map] at count
  refine ⟨noZeros, by rw [list, count]; exact small, ?_⟩
  rw [encode_of_noZeros noZeros, list, count]
  simp only [List.append_nil, List.nil_append]

theorem decode_past_end {b : Slice width} {pos : Nat} (past : b.bytes.length < pos) :
    ∃ reason, (decode : Read width String VersionVector).run b pos = .error reason := by
  obtain ⟨reason, failed⟩ := take_past_end (n := 4) past
  exact ⟨reason, Read.run_bind_error (Read.run_bind_error (Read.run_bind_error failed))⟩

end VersionVector

namespace SyncBlob

open SyncWire VersionVector

variable {width : Nat}

def encodeInner (blob : SyncBlob (List UInt8)) : List UInt8 :=
  DeviceId.bytes blob.dbUuid ++ blob.vv.encode ++ leBytes 4 blob.image.length ++ blob.image

/-- `seal` of the bytes; a vector cannot outgrow the address space. -/
def sealWire (width : Nat) (dek : Dek) (blob : SyncBlob (List UInt8)) :
    Outcome String (SealedBytes (Slice width)) :=
  if fits : blob.encodeInner.length < 2 ^ width then
    .ok (.sealed (.syncKey dek) .syncBlob ⟨blob.encodeInner, fits⟩)
  else .panic

def readInner : Read width String (SyncBlob (List UInt8)) := do
  let dbUuid ← Read.lift (array16 (← take 16))
  let vv ← VersionVector.decode
  let ilen ← takeU32
  let image ← take ilen
  return ⟨dbUuid, vv, image⟩

def openInner (inner : Slice width) : Outcome String (SyncBlob (List UInt8)) := do
  let (blob, pos) ← readInner.run inner 0
  if pos ≠ inner.bytes.length then .error "sync blob: trailing bytes" else return blob

/-- `open` of the bytes. -/
def openWire (dek : Dek) (sealed : SealedBytes (Slice width)) :
    Outcome String (SyncBlob (List UInt8)) := do
  let inner ← okOr "sync blob: AEAD open failed (wrong key or tampered)"
    (sealed.openWith (.syncKey dek) .syncBlob)
  openInner inner

/-- A blob as it is: no explicit zeros, and lengths that fit their fields. -/
structure Canonical (blob : SyncBlob (List UInt8)) : Prop where
  noZeros : blob.vv.NoZeros
  few : blob.vv.counts.toList.length < 2 ^ 32
  short : blob.image.length < 2 ^ 32

theorem reads_readInner (wide : 32 ≤ width) {blob : SyncBlob (List UInt8)} (canonical : blob.Canonical) :
    Read.Reads (readInner : Read width String _) blob.encodeInner blob := by
  have uuid_read : Read.Reads (take 16 : Read width String _) (DeviceId.bytes blob.dbUuid)
      (DeviceId.bytes blob.dbUuid) := by
    rw [← DeviceId.length_bytes blob.dbUuid]
    exact SyncWire.reads_take _
  have pieces : blob.encodeInner = DeviceId.bytes blob.dbUuid ++ ([] ++ (blob.vv.encode ++
      (toLe 4 blob.image.length ++ (blob.image ++ [])))) := by
    rw [encodeInner, leBytes_eq]
    simp only [List.append_assoc, List.append_nil, List.nil_append]
  rw [pieces]
  apply uuid_read.bind
  apply (Read.reads_lift (array16_bytes blob.dbUuid)).bind
  apply (VersionVector.reads_decode wide canonical.noZeros canonical.few).bind
  apply (reads_takeU32 wide canonical.short).bind
  apply (SyncWire.reads_take blob.image).bind
  exact Read.Reads.pure _

theorem accepts_readInner (wide : 32 ≤ width) : Read.Accepts (readInner : Read width String _)
    fun read blob => blob.Canonical ∧ blob.encodeInner = read := by
  apply (accepts_take 16).bind
  rintro _ idBytes ⟨rfl, length⟩
  have id_met : (array16 idBytes).Meets fun id => DeviceId.bytes id = idBytes := by
    rw [array16, if_pos length]
    exact bytes_of_array16 length
  apply (Read.Accepts.lift id_met).bind
  rintro _ id ⟨rfl, rfl⟩
  apply (VersionVector.accepts_decode wide).bind
  rintro _ vv ⟨noZeros, few, rfl⟩
  apply (accepts_takeU32 wide).bind
  rintro _ ilen ⟨rfl, small⟩
  apply (accepts_take ilen).bind
  rintro _ image ⟨rfl, rfl⟩
  apply (Read.Accepts.pure _).imp
  rintro _ _ ⟨rfl, rfl⟩
  refine ⟨⟨noZeros, few, small⟩, ?_⟩
  simp only [encodeInner, leBytes_eq, List.append_nil, List.nil_append, List.append_assoc]

/-- The bytes of a canonical blob open to it, and nothing else opens. -/
theorem openInner_eq_ok (wide : 32 ≤ width) {inner : Slice width} {blob : SyncBlob (List UInt8)} :
    openInner inner = .ok blob ↔ blob.Canonical ∧ blob.encodeInner = inner.bytes := by
  constructor
  · intro opened
    obtain ⟨⟨found, stop⟩, readOk, checked⟩ := Outcome.bind_eq_ok.mp opened
    obtain ⟨read, between, canonical, encoded⟩ :=
      (accepts_readInner wide inner 0 (Nat.zero_le _)).of_ok readOk
    dsimp only at checked
    split at checked
    · cases checked
    · next finished =>
        cases checked
        rw [Decidable.not_not.mp finished] at between
        exact ⟨canonical, encoded.trans (between.unique inner.between_all)⟩
  · rintro ⟨canonical, encoded⟩
    have whole := inner.between_all
    rw [← encoded] at whole
    rw [openInner, reads_readInner wide canonical inner 0 _ whole, Outcome.ok_bind, encoded]
    exact if_neg (not_not_intro rfl)

theorem openInner_ne_panic (wide : 32 ≤ width) (inner : Slice width) : openInner inner ≠ .panic := by
  apply Outcome.Meets.ne_panic (P := fun _ => True)
  apply (accepts_readInner wide inner 0 (Nat.zero_le _)).bind
  intro out _
  dsimp only
  split
  · trivial
  · trivial

/-- The blob opens exactly when it was sealed under the same key from canonical bytes. -/
theorem openWire_meets (wide : 32 ≤ width) (dek : Dek) (sealed : SealedBytes (Slice width)) :
    (openWire dek sealed).Meets fun blob => ∃ inner, sealed = .sealed (.syncKey dek) .syncBlob inner ∧
      blob.encodeInner = inner.bytes := by
  rw [Outcome.meets_iff]
  cases opened : sealed.openWith (.syncKey dek) .syncBlob with
  | none =>
      constructor
      · rw [openWire, opened]
        simp [okOr]
      · intro blob returned
        rw [openWire, opened] at returned
        cases returned
  | some inner =>
      constructor
      · rw [openWire, opened]
        exact openInner_ne_panic wide inner
      · intro blob returned
        rw [openWire, opened] at returned
        exact ⟨inner, Aead.openWith_eq_some.mp opened, ((openInner_eq_ok wide).mp returned).2⟩

theorem openWire_sealWire (wide : 32 ≤ width) {dek : Dek} {blob : SyncBlob (List UInt8)}
    {sealed : SealedBytes (Slice width)} (canonical : blob.Canonical)
    (allocated : sealWire width dek blob = .ok sealed) : openWire dek sealed = .ok blob := by
  unfold sealWire at allocated
  split at allocated
  · cases allocated
    rw [openWire, Aead.openWith_sealed]
    exact (openInner_eq_ok wide).mpr ⟨canonical, rfl⟩
  · cases allocated

end SyncBlob

/-- The sync wire format, both ways: what is encoded decodes to itself wherever it stands, what is
decoded encodes to the bytes it was read from, and no bytes at no position panic. -/
theorem syncWire_exact (t : Target) :
    (∀ v : VersionVector, v.NoZeros → v.counts.toList.length < 2 ^ 32 →
      ∀ (b : Slice t.usizeBits) (pos stop : Nat), b.Between pos v.encode stop →
        VersionVector.decode.run b pos = .ok (v, pos + v.encode.length)) ∧
    (∀ (b : Slice t.usizeBits) (pos : Nat), (VersionVector.decode.run b pos).Meets fun out =>
      out.1.NoZeros ∧ b.Between pos out.1.encode out.2) ∧
    (∀ (dek : Dek) (blob : SyncBlob (List UInt8)) (sealed : SealedBytes (Slice t.usizeBits)),
      blob.Canonical → blob.sealWire t.usizeBits dek = .ok sealed →
        SyncBlob.openWire dek sealed = .ok blob) ∧
    ∀ (dek : Dek) (sealed : SealedBytes (Slice t.usizeBits)),
      (SyncBlob.openWire dek sealed).Meets fun blob =>
        ∃ inner, sealed = .sealed (.syncKey dek) .syncBlob inner ∧ blob.encodeInner = inner.bytes := by
  have wide := t.le_usizeBits
  refine ⟨?_, ?_, ?_, ?_⟩
  · intro v noZeros few b pos stop between
    rw [VersionVector.reads_decode wide noZeros few b pos stop between, between.stop_eq]
  · intro b pos
    by_cases inside : pos ≤ b.bytes.length
    · apply (VersionVector.accepts_decode wide b pos inside).imp
      rintro ⟨v, stop⟩ ⟨_, between, noZeros, _, rfl⟩
      exact ⟨noZeros, between⟩
    · obtain ⟨reason, failed⟩ := VersionVector.decode_past_end (by omega : b.bytes.length < pos)
      rw [failed]
      trivial
  · intro dek blob sealed canonical allocated
    exact SyncBlob.openWire_sealWire wide canonical allocated
  · intro dek sealed
    exact SyncBlob.openWire_meets wide dek sealed

theorem syncWire_exact_small :
    SyncBlob.openWire 0 (.sealed (.syncKey 0) .syncBlob (⟨SyncBlob.encodeInner
      ⟨9, ⟨(∅ : Std.ExtTreeMap DeviceId UInt64).insert 5 7⟩, [1, 2, 3]⟩, by decide⟩ :
        Slice Target.wasm32.usizeBits)) =
      .ok ⟨9, ⟨(∅ : Std.ExtTreeMap DeviceId UInt64).insert 5 7⟩, [1, 2, 3]⟩ := by
  have list : ((∅ : Std.ExtTreeMap DeviceId UInt64).insert 5 7).toList = [(5, 7)] := by decide
  apply (syncWire_exact .wasm32).2.2.1
  · refine ⟨?_, by decide, by decide⟩
    unfold VersionVector.NoZeros
    rw [list]
    simp
  · exact dif_pos (by decide)

end Freehold
