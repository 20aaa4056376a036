import Freehold.Lib.Cursor
import Freehold.Lib.Splice

set_option autoImplicit false

/- Blocks of bytes with fields at fixed offsets: how they are filled, and how they are read on a
machine where a byte slice is at most half as long as the largest `usize`. -/
namespace Cursor

variable {ε α : Type} {width : Nat}

/-- `a * b`, which overflows past `usize::MAX`. -/
def mulUsize (width a b : Nat) : Outcome ε Nat :=
  if a * b < 2 ^ width then .ok (a * b) else .panic

theorem mulUsize_eq {a b : Nat} (fits : a * b < 2 ^ width) :
    (mulUsize width a b : Outcome ε Nat) = .ok (a * b) := if_pos fits

/-- `copy_from_slice` into an array of `n` bytes. -/
def copyArray (n : Nat) (bytes : List UInt8) : Outcome ε (Vector UInt8 n) :=
  if length : bytes.length = n then .ok ⟨bytes.toArray, length⟩ else .panic

theorem copyArray_toList {n : Nat} (array : Vector UInt8 n) :
    (copyArray n array.toList : Outcome ε (Vector UInt8 n)) = .ok array := by
  rw [copyArray, dif_pos array.length_toList]
  exact congrArg Outcome.ok (Vector.toList_inj.mp rfl)

theorem copyArray_meets {n : Nat} {bytes : List UInt8} (length : bytes.length = n) :
    (copyArray n bytes : Outcome ε (Vector UInt8 n)).Meets fun array => array.toList = bytes := by
  rw [copyArray, dif_pos length]
  rfl

namespace Slice

variable {b : Slice width} {pos len : Nat}

/-- `[b[pos], b[pos + 1], ..]`, `n` bytes. -/
def indices (b : Slice width) : (pos n : Nat) → Outcome ε (List UInt8)
  | _, 0 => .ok []
  | pos, n + 1 => do
      let byte ← b.index pos
      let rest ← indices b (pos + 1) n
      return byte :: rest

theorem range_window (inside : pos + len ≤ b.bytes.length) :
    (b.range pos (pos + len) : Outcome ε (List UInt8)) = .ok (Splice.window b.bytes pos len) := by
  rw [range, if_pos ⟨Nat.le_add_right pos len, inside⟩, List.drop_take, Nat.add_sub_cancel_left,
    Splice.window]

theorem indices_window (inside : pos + len ≤ b.bytes.length) :
    (b.indices pos len : Outcome ε (List UInt8)) = .ok (Splice.window b.bytes pos len) := by
  induction len generalizing pos with
  | zero => simp [indices, Splice.window]
  | succ n ih =>
      have here : pos < b.bytes.length := by omega
      rw [indices, index_of_lt here, Outcome.ok_bind, ih (by omega), Outcome.ok_bind, Splice.window,
        Splice.window, List.drop_eq_getElem_cons here, List.take_succ_cons]
      rfl

theorem between_window {field : List UInt8} (inside : pos + field.length ≤ b.bytes.length)
    (held : Splice.window b.bytes pos field.length = field) : b.Between pos field (pos + field.length) := by
  have between := between_of_le (Nat.le_add_right pos field.length) inside
  rwa [List.drop_take, Nat.add_sub_cancel_left, ← Splice.window, held] at between

theorem Between.indices_eq {read : List UInt8} {stop : Nat} (between : b.Between pos read stop)
    (length : read.length = len) : (b.indices pos len : Outcome ε (List UInt8)) = .ok read := by
  have inside := between.stop_le
  have cut : (b.range pos stop : Outcome ε (List UInt8)) = .ok read := between.range_eq
  rw [between.stop_eq, length] at inside cut
  rw [indices_window inside, ← range_window inside, cut]

end Slice

/-- `b[lo..hi].copy_from_slice(bytes)`. -/
def copyInto (b : List UInt8) (lo hi : Nat) (bytes : List UInt8) : Outcome ε (List UInt8) :=
  if lo ≤ hi ∧ hi ≤ b.length ∧ bytes.length = hi - lo then .ok (Splice.put 0 b lo bytes) else .panic

theorem copyInto_eq {b bytes : List UInt8} {lo hi : Nat} (length : lo + bytes.length = hi)
    (inside : hi ≤ b.length) :
    (copyInto b lo hi bytes : Outcome ε (List UInt8)) = .ok (Splice.put 0 b lo bytes) :=
  if_pos (by omega)

/-- Field after field, each where the one before it ends. -/
def copyFields : List (List UInt8) → Nat → List UInt8 → Outcome ε (List UInt8)
  | [], _, b => .ok b
  | field :: rest, pos, b => do
      let b ← copyInto b pos (pos + field.length) field
      copyFields rest (pos + field.length) b

theorem copyFields_eq {fields : List (List UInt8)} {pos : Nat} {b : List UInt8}
    (inside : pos + fields.flatten.length ≤ b.length) :
    (copyFields fields pos b : Outcome ε (List UInt8)) = .ok (Splice.put 0 b pos fields.flatten) := by
  induction fields generalizing pos b with
  | nil => exact congrArg Outcome.ok (Splice.put_nil (by omega)).symm
  | cons field rest ih =>
      rw [List.flatten_cons, List.length_append] at inside
      rw [copyFields, copyInto_eq rfl (by omega), Outcome.ok_bind,
        ih (by rw [Splice.length_put]; omega), Splice.put_put (by omega), List.flatten_cons]

/-- `for i in 0..count`, a record of `stride` bytes after another from `base` on. -/
def records (width : Nat) (read : Nat → Outcome ε α) (base stride : Nat) :
    (i count : Nat) → Outcome ε (List α)
  | _, 0 => .ok []
  | i, count + 1 => do
      let pos ← addUsize width base (← mulUsize width i stride)
      let record ← read pos
      let rest ← records width read base stride (i + 1) count
      return record :: rest

section Records

variable {read : Nat → Outcome ε α} {base stride i count : Nat}

theorem records_cons (fits : base + i * stride < 2 ^ width) :
    records width read base stride i (count + 1) = (do
      let record ← read (base + i * stride)
      let rest ← records width read base stride (i + 1) count
      return record :: rest) := by
  have small : i * stride < 2 ^ width := Nat.lt_of_le_of_lt (Nat.le_add_left _ _) fits
  rw [records, mulUsize_eq small, Outcome.ok_bind, addUsize_eq fits, Outcome.ok_bind]

/-- The records that were laid out one after the other are read back. -/
theorem records_eq {w : Nat} {b : Slice w} (bytes : α → List UInt8)
    (length : ∀ value, (bytes value).length = stride)
    (reads : ∀ pos value, b.Between pos (bytes value) (pos + stride) → read pos = .ok value)
    {values : List α} {stop : Nat} (fits : b.bytes.length < 2 ^ width)
    (laid : b.Between (base + i * stride) (values.flatMap bytes) stop) :
    records width read base stride i values.length = .ok values := by
  induction values generalizing i with
  | nil => rfl
  | cons value rest ih =>
      have next : base + (i + 1) * stride = base + i * stride + stride := by
        rw [Nat.add_mul, Nat.one_mul, Nat.add_assoc]
      rw [List.flatMap_cons] at laid
      obtain ⟨first, others⟩ := laid.split
      rw [length value] at first others
      rw [← next] at others
      have inside := first.stop_le
      rw [List.length_cons, records_cons (by omega), reads _ value first, Outcome.ok_bind, ih others,
        Outcome.ok_bind]
      rfl

/-- A record that is inside the block is read without a panic, and so are all of them. -/
theorem records_meets {limit : Nat} (fits : limit < 2 ^ width)
    (reads : ∀ pos, pos + stride ≤ limit → (read pos).Meets fun _ => True)
    (inside : base + (i + count) * stride ≤ limit) :
    (records width read base stride i count).Meets fun values => values.length = count := by
  induction count generalizing i with
  | zero => rfl
  | succ count ih =>
      have total : (i + (count + 1)) * stride = i * stride + stride + count * stride := by
        rw [Nat.add_mul, Nat.add_mul, Nat.one_mul]
        omega
      rw [records_cons (by omega)]
      apply (reads _ (by omega)).bind
      intro record _
      apply (ih (i := i + 1) (by rw [show i + 1 + count = i + (count + 1) by omega]; exact inside)).bind
      intro rest length
      exact congrArg (· + 1) length

end Records

end Cursor

namespace Splice

variable {α : Type} {fill : α} {file : List α}

/-- Several writes, in turn. -/
def puts (fill : α) (file : List α) (writes : List (Nat × List α)) : List α :=
  writes.foldl (fun file write => put fill file write.1 write.2) file

/-- Two writes that touch no common place. -/
def Apart (write other : Nat × List α) : Prop :=
  write.1 + write.2.length ≤ other.1 ∨ other.1 + other.2.length ≤ write.1

theorem length_puts {writes : List (Nat × List α)}
    (inside : ∀ write ∈ writes, write.1 + write.2.length ≤ file.length) :
    (puts fill file writes).length = file.length := by
  induction writes generalizing file with
  | nil => rfl
  | cons write rest ih =>
      rw [List.forall_mem_cons] at inside
      have same : (put fill file write.1 write.2).length = file.length := by
        rw [length_put]
        omega
      have later : ∀ other ∈ rest, other.1 + other.2.length ≤ (put fill file write.1 write.2).length := by
        rw [same]
        exact inside.2
      have kept := ih later
      rw [same] at kept
      exact kept

/-- What no write touches stays. -/
theorem window_puts_apart {writes : List (Nat × List α)} {off len : Nat} (full : off + len ≤ file.length)
    (apart : ∀ write ∈ writes, write.1 + write.2.length ≤ off ∨ off + len ≤ write.1) :
    window (puts fill file writes) off len = window file off len := by
  induction writes generalizing file with
  | nil => rfl
  | cons write rest ih =>
      rw [List.forall_mem_cons] at apart
      have longer : off + len ≤ (put fill file write.1 write.2).length := by
        rw [length_put]
        omega
      have kept := ih longer apart.2
      rw [window_put_apart (by omega)] at kept
      exact kept

/-- Each of the writes is found in the end, where they touch no common place. -/
theorem window_puts {writes : List (Nat × List α)} (apart : writes.Pairwise Apart)
    (inside : ∀ write ∈ writes, write.1 + write.2.length ≤ file.length) {write : Nat × List α}
    (listed : write ∈ writes) : window (puts fill file writes) write.1 write.2.length = write.2 := by
  induction writes generalizing file with
  | nil => cases listed
  | cons first rest ih =>
      rw [List.pairwise_cons] at apart
      rw [List.forall_mem_cons] at inside
      have same : (put fill file first.1 first.2).length = file.length := by
        rw [length_put]
        omega
      have later : ∀ other ∈ rest, other.1 + other.2.length ≤ (put fill file first.1 first.2).length := by
        rw [same]
        exact inside.2
      rcases List.mem_cons.mp listed with rfl | listedLater
      · have kept : window (puts fill (put fill file write.1 write.2) rest) write.1 write.2.length =
            window (put fill file write.1 write.2) write.1 write.2.length := by
          apply window_puts_apart (by rw [same]; exact inside.1)
          intro other member
          exact (apart.1 other member).symm
        rw [window_put_same] at kept
        exact kept
      · exact ih apart.2 later listedLater

end Splice

namespace Cursor.Slice

variable {w : Nat} {b : Slice w} {file : List UInt8} {fill : UInt8} {writes : List (Nat × List UInt8)}

/-- In a block that was filled by writes with no common place, each stands where it was written. -/
theorem between_puts (apart : writes.Pairwise Splice.Apart)
    (inside : ∀ write ∈ writes, write.1 + write.2.length ≤ file.length)
    (block : b.bytes = Splice.puts fill file writes) {off stop : Nat} {field : List UInt8}
    (listed : (off, field) ∈ writes) (spans : off + field.length = stop) : b.Between off field stop := by
  have fits := inside (off, field) listed
  have held : Splice.window (Splice.puts fill file writes) off field.length = field :=
    Splice.window_puts apart inside listed
  have whole : (Splice.puts fill file writes).length = file.length := Splice.length_puts inside
  rw [← block] at held whole
  rw [← whole] at fits
  rw [← spans]
  exact between_window fits held

end Cursor.Slice

namespace Cursor.Read

variable {w wide n : Nat} {ε α : Type} {reason : ε} {f : Slice w → Nat → Outcome ε α}

/-- Code that errs where `n` more bytes would overrun the slice, and else reads them and moves on. -/
def bounded (wide : Nat) (reason : ε) (n : Nat) (f : Slice w → Nat → Outcome ε α) : Read w ε α := ⟨fun b pos => do
  let stop ← addUsize wide pos n
  if stop > b.bytes.length then .error reason
  else
    let value ← f b pos
    return (value, stop)⟩

theorem reads_bounded (wider : w ≤ wide) {read : List UInt8} (length : read.length = n) {value : α}
    (reads : ∀ (b : Slice w) pos, b.Between pos read (pos + n) → f b pos = .ok value) :
    Reads (bounded wide reason n f) read value := by
  subst length
  intro b pos stop between
  have inside := between.stop_le
  have fits : stop < 2 ^ wide := Nat.lt_of_lt_of_le between.stop_lt (Nat.pow_le_pow_right (by decide) wider)
  have spans := between.stop_eq
  subst spans
  simp only [bounded, addUsize_eq fits, Outcome.ok_bind, reads b pos between]
  rw [if_neg (by omega)]
  rfl

theorem accepts_bounded (fits : 2 ^ w + n ≤ 2 ^ wide) {P : List UInt8 → α → Prop}
    (met : ∀ (b : Slice w) pos read, b.Between pos read (pos + n) → (f b pos).Meets (P read)) :
    Accepts (bounded wide reason n f) fun read value => read.length = n ∧ P read value := by
  intro b pos inside
  have short := b.fits
  simp only [bounded, addUsize_eq (show pos + n < 2 ^ wide by omega), Outcome.ok_bind]
  split
  · trivial
  · have between := Slice.between_of_le (Nat.le_add_right pos n) (by omega : pos + n ≤ b.bytes.length)
    have spans := between.stop_eq
    apply (met b pos _ between).bind
    intro value held
    exact ⟨_, between, by omega, held⟩

section Collect

variable {body : List α → Read w ε (List α)}

/-- A counted list: each turn of the loop reads one value and puts it behind the others. -/
theorem reads_collect {bytes : α → List UInt8} {values : List α}
    (step : ∀ found, ∀ value ∈ values, Reads (body found) (bytes value) (found ++ [value])) (found : List α) :
    Reads (times body values.length found) (values.flatMap bytes) (found ++ values) := by
  induction values generalizing found with
  | nil =>
      rw [List.append_nil]
      exact Reads.pure found
  | cons value rest ih =>
      have first := step found value (List.mem_cons_self)
      have others := ih (fun found value listed => step found value (List.mem_cons_of_mem _ listed))
        (found ++ [value])
      rw [List.append_assoc, List.singleton_append] at others
      rw [List.flatMap_cons]
      exact first.bind others

theorem accepts_collect {P : α → Prop}
    (step : ∀ found, Accepts (body found) fun _ next => ∃ value, P value ∧ next = found ++ [value])
    (count : Nat) (found : List α) :
    Accepts (times body count found) fun _ out =>
      ∃ values, values.length = count ∧ (∀ value ∈ values, P value) ∧ out = found ++ values := by
  induction count generalizing found with
  | zero =>
      apply (Accepts.pure found).imp
      intro read out same
      exact ⟨[], rfl, by simp, by rw [same.2, List.append_nil]⟩
  | succ count ih =>
      apply (step found).bind
      intro read next ⟨value, held, same⟩
      apply (ih next).imp
      intro more out ⟨values, length, all, last⟩
      refine ⟨value :: values, by rw [List.length_cons, length], List.forall_mem_cons.mpr ⟨held, all⟩, ?_⟩
      rw [last, same, List.append_assoc, List.singleton_append]

end Collect

end Cursor.Read
