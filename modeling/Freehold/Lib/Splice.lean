import Mathlib.Data.List.Basic
import Mathlib.Tactic.Common

set_option autoImplicit false

/- Overwriting a part of a list, as a write does to a file. -/
namespace Splice

variable {α : Type}

/-- `bytes` over `file` from position `off` on; a gap before them is filled up. -/
def put (fill : α) (file : List α) (off : Nat) (bytes : List α) : List α :=
  (file ++ List.replicate (off - file.length) fill).take off ++ bytes ++ file.drop (off + bytes.length)

/-- The part of a file from `off` on that is at most `len` long. -/
def window (file : List α) (off len : Nat) : List α := (file.drop off).take len

variable {fill : α} {file bytes : List α} {off o len i : Nat}

@[simp] theorem length_put : (put fill file off bytes).length = max file.length (off + bytes.length) := by
  simp only [put, List.length_append, List.length_take, List.length_replicate, List.length_drop]
  omega

@[simp] theorem length_window : (window file off len).length = min len (file.length - off) := by
  simp only [window, List.length_take, List.length_drop]

theorem getElem?_window : (window file off len)[i]? = if i < len then file[off + i]? else none := by
  rw [window, List.getElem?_take, List.getElem?_drop]

/-- Windows agree when the files agree in them. -/
theorem window_congr {other : List α} (same : ∀ i < len, file[off + i]? = other[off + i]?) :
    window file off len = window other off len := by
  apply List.ext_getElem?
  intro i
  rw [getElem?_window, getElem?_window]
  split
  · next inside => exact same i inside
  · rfl

theorem getElem?_put_of_le (inside : off ≤ i) (below : i < off + bytes.length) :
    (put fill file off bytes)[i]? = bytes[i - off]? := by
  have front : ((file ++ List.replicate (off - file.length) fill).take off).length = off := by
    simp only [List.length_take, List.length_append, List.length_replicate]
    omega
  rw [put, List.append_assoc, List.getElem?_append_right (by omega), front,
    List.getElem?_append_left (by omega)]

theorem getElem?_put_of_ge (behind : off + bytes.length ≤ i) :
    (put fill file off bytes)[i]? = file[i]? := by
  have front : ((file ++ List.replicate (off - file.length) fill).take off ++ bytes).length =
      off + bytes.length := by
    simp only [List.length_append, List.length_take, List.length_replicate]
    omega
  rw [put, List.getElem?_append_right (by omega), front, List.getElem?_drop]
  congr 1
  omega

theorem getElem?_put_of_lt (before : i < off) (present : i < file.length) :
    (put fill file off bytes)[i]? = file[i]? := by
  have front : ((file ++ List.replicate (off - file.length) fill).take off).length = off := by
    simp only [List.length_take, List.length_append, List.length_replicate]
    omega
  rw [put, List.append_assoc, List.getElem?_append_left (by omega), List.getElem?_take, if_pos before,
    List.getElem?_append_left present]

theorem getElem?_put_gap (before : i < off) (absent : file.length ≤ i) :
    (put fill file off bytes)[i]? = some fill := by
  have front : ((file ++ List.replicate (off - file.length) fill).take off).length = off := by
    simp only [List.length_take, List.length_append, List.length_replicate]
    omega
  rw [put, List.append_assoc, List.getElem?_append_left (by omega), List.getElem?_take, if_pos before,
    List.getElem?_append_right absent, List.getElem?_replicate, if_pos (by omega)]

/-- Read with the filling as default, a file with a gap is as one without. -/
theorem getD_put : (put fill file off bytes).getD i fill =
    if off ≤ i ∧ i < off + bytes.length then bytes.getD (i - off) fill else file.getD i fill := by
  simp only [List.getD_eq_getElem?_getD]
  by_cases before : i < off
  · rw [if_neg (by omega)]
    by_cases present : i < file.length
    · rw [getElem?_put_of_lt before present]
    · rw [getElem?_put_gap before (by omega), List.getElem?_eq_none (by omega)]
      rfl
  · by_cases behind : off + bytes.length ≤ i
    · rw [if_neg (by omega), getElem?_put_of_ge behind]
    · rw [if_pos (by omega), getElem?_put_of_le (by omega) (by omega)]

/-- What was put is found again. -/
theorem window_put_same : window (put fill file off bytes) off bytes.length = bytes := by
  apply List.ext_getElem?
  intro i
  rw [getElem?_window]
  split
  · next inside =>
      rw [getElem?_put_of_le (by omega) (by omega)]
      congr 1
      omega
  · next outside => rw [List.getElem?_eq_none (by omega)]

/-- A window apart from what is put stays as it is; one before it has to be full. -/
theorem window_put_apart (apart : off + bytes.length ≤ o ∨ o + len ≤ off ∧ o + len ≤ file.length) :
    window (put fill file off bytes) o len = window file o len := by
  apply window_congr
  intro i inside
  rcases apart with behind | ⟨before, full⟩
  · exact getElem?_put_of_ge (by omega)
  · exact getElem?_put_of_lt (by omega) (by omega)

/-- Two adjoining writes are one. -/
theorem put_put {more : List α} (inside : off ≤ file.length) :
    put fill (put fill file off bytes) (off + bytes.length) more = put fill file off (bytes ++ more) := by
  apply List.ext_getElem?
  intro i
  have whole : (bytes ++ more).length = bytes.length + more.length := List.length_append
  by_cases first : i < off + bytes.length
  · have present : i < (put fill file off bytes).length := by
      rw [length_put]
      omega
    rw [getElem?_put_of_lt first present]
    by_cases before : i < off
    · rw [getElem?_put_of_lt before (by omega), getElem?_put_of_lt before (by omega)]
    · rw [getElem?_put_of_le (by omega) first, getElem?_put_of_le (by omega) (by omega),
        List.getElem?_append_left (by omega)]
  · by_cases second : i < off + bytes.length + more.length
    · rw [getElem?_put_of_le (by omega) second, getElem?_put_of_le (by omega) (by omega),
        List.getElem?_append_right (by omega)]
      congr 1
      omega
    · rw [getElem?_put_of_ge (by omega), getElem?_put_of_ge (by omega), getElem?_put_of_ge (by omega)]

/-- A window of what is kept of a file is one of the file. -/
theorem window_take {count : Nat} (kept : o + len ≤ count) :
    window (file.take count) o len = window file o len := by
  apply window_congr
  intro i inside
  rw [List.getElem?_take, if_pos (by omega)]

theorem put_nil (inside : off ≤ file.length) : put fill file off [] = file := by
  rw [put, Nat.sub_eq_zero_of_le inside, List.replicate_zero, List.append_nil, List.append_nil,
    List.length_nil, Nat.add_zero, List.take_append_drop]

end Splice
