import Mathlib.Data.List.Basic
import Mathlib.Data.UInt

set_option autoImplicit false

/- Strings of characters as strings of 16-bit code units, and back. -/
namespace Utf16

/-- A character past the first 65536 is written as two surrogates. -/
def encodeChar (c : Char) : List UInt16 :=
  if c.toNat < 0x10000 then [UInt16.ofNat c.toNat]
  else [UInt16.ofNat (0xd800 + (c.toNat - 0x10000) / 0x400),
    UInt16.ofNat (0xdc00 + (c.toNat - 0x10000) % 0x400)]

def encode (s : List Char) : List UInt16 := s.flatMap encodeChar

def isHigh (u : UInt16) : Bool := 0xd800 ≤ u.toNat && u.toNat < 0xdc00

def isLow (u : UInt16) : Bool := 0xdc00 ≤ u.toNat && u.toNat < 0xe000

/-- A unit that is no half of a pair; a lone surrogate is U+FFFD. -/
def single (u : UInt16) : Char :=
  if isHigh u || isLow u then Char.ofNat 0xfffd else Char.ofNat u.toNat

def paired (high low : UInt16) : Char :=
  Char.ofNat (0x10000 + (high.toNat - 0xd800) * 0x400 + (low.toNat - 0xdc00))

def decode : List UInt16 → List Char
  | [] => []
  | [u] => [single u]
  | u :: v :: rest => if isHigh u && isLow v then paired u v :: decode rest else single u :: decode (v :: rest)

/-- The unit of an ASCII character. -/
def mark (c : Char) : UInt16 := UInt16.ofNat c.toNat

section Encode

variable {c : Char} {s t : List Char}

@[simp] theorem encode_nil : encode [] = [] := rfl

theorem encode_cons (c : Char) (s : List Char) : encode (c :: s) = encodeChar c ++ encode s := rfl

theorem encode_append (s t : List Char) : encode (s ++ t) = encode s ++ encode t := List.flatMap_append

theorem toNat_bounds (c : Char) : c.toNat < 0xd800 ∨ 0xdfff < c.toNat ∧ c.toNat < 0x110000 := by
  have valid := c.valid
  simp only [UInt32.isValidChar, Nat.isValidChar] at valid
  exact valid

theorem encodeChar_small (small : c.toNat < 0x10000) : encodeChar c = [UInt16.ofNat c.toNat] := if_pos small

theorem toNat_small (small : c.toNat < 0x10000) : (UInt16.ofNat c.toNat).toNat = c.toNat := by
  rw [UInt16.toNat_ofNat']
  omega

/-- ASCII text is one unit for each character. -/
theorem encode_ascii (ascii : ∀ c ∈ s, c.toNat < 128) : encode s = s.map mark := by
  induction s with
  | nil => rfl
  | cons c s ih =>
      have small := ascii c List.mem_cons_self
      rw [encode_cons, encodeChar_small (by omega), ih fun d member => ascii d (List.mem_cons_of_mem _ member)]
      rfl

theorem decode_single {u : UInt16} (alone : isHigh u = false) (rest : List UInt16) :
    decode (u :: rest) = single u :: decode rest := by
  cases rest with
  | nil => rfl
  | cons v rest => rw [decode, alone, Bool.false_and, if_neg Bool.false_ne_true]

theorem decode_encodeChar (c : Char) (rest : List UInt16) :
    decode (encodeChar c ++ rest) = c :: decode rest := by
  have bounds := toNat_bounds c
  by_cases small : c.toNat < 0x10000
  · have value := toNat_small small
    have high : isHigh (UInt16.ofNat c.toNat) = false := by
      rw [isHigh, value]
      simp only [Bool.and_eq_false_iff, decide_eq_false_iff_not]
      omega
    have low : isLow (UInt16.ofNat c.toNat) = false := by
      rw [isLow, value]
      simp only [Bool.and_eq_false_iff, decide_eq_false_iff_not]
      omega
    rw [encodeChar_small small, List.singleton_append, decode_single high, single, high, low, value,
      Bool.or_false, if_neg Bool.false_ne_true, Char.ofNat_toNat]
  · have highValue : (UInt16.ofNat (0xd800 + (c.toNat - 0x10000) / 0x400)).toNat =
        0xd800 + (c.toNat - 0x10000) / 0x400 := by
      rw [UInt16.toNat_ofNat']
      omega
    have lowValue : (UInt16.ofNat (0xdc00 + (c.toNat - 0x10000) % 0x400)).toNat =
        0xdc00 + (c.toNat - 0x10000) % 0x400 := by
      rw [UInt16.toNat_ofNat']
      omega
    have pair : isHigh (UInt16.ofNat (0xd800 + (c.toNat - 0x10000) / 0x400)) = true ∧
        isLow (UInt16.ofNat (0xdc00 + (c.toNat - 0x10000) % 0x400)) = true := by
      rw [isHigh, isLow, highValue, lowValue]
      simp only [Bool.and_eq_true, decide_eq_true_eq]
      omega
    rw [encodeChar, if_neg small, List.cons_append, List.singleton_append, decode, pair.1, pair.2,
      Bool.true_and, if_pos rfl, paired, highValue, lowValue]
    have whole : 0x10000 + (0xd800 + (c.toNat - 0x10000) / 0x400 - 0xd800) * 0x400 +
        (0xdc00 + (c.toNat - 0x10000) % 0x400 - 0xdc00) = c.toNat := by omega
    rw [whole, Char.ofNat_toNat]

/-- No character is lost on the way. -/
theorem decode_encode (s : List Char) : decode (encode s) = s := by
  induction s with
  | nil => rfl
  | cons c s ih => rw [encode_cons, decode_encodeChar, ih]

theorem encode_injective (same : encode s = encode t) : s = t := by
  rw [← decode_encode s, same, decode_encode]

end Encode

/-- No surrogate stands alone. -/
def WellFormed (units : List UInt16) : Prop := ∃ s, encode s = units

section WellFormed

variable {u v : UInt16} {units more : List UInt16}

theorem WellFormed.nil : WellFormed [] := ⟨[], rfl⟩

theorem WellFormed.append (front : WellFormed units) (back : WellFormed more) : WellFormed (units ++ more) := by
  obtain ⟨s, rfl⟩ := front
  obtain ⟨t, rfl⟩ := back
  exact ⟨s ++ t, encode_append s t⟩

theorem WellFormed.encode_decode (whole : WellFormed units) : encode (decode units) = units := by
  obtain ⟨s, rfl⟩ := whole
  rw [decode_encode]

theorem toNat_ofNat {n : Nat} (valid : n < 0xd800 ∨ 0xdfff < n ∧ n < 0x110000) : (Char.ofNat n).toNat = n := by
  have isValid : n.isValidChar := valid
  rw [Char.ofNat, dif_pos isValid]
  rfl

theorem wellFormed_unit (alone : isHigh u = false) (alone' : isLow u = false) : WellFormed [u] := by
  have bound := u.toNat_lt
  rw [isHigh, Bool.and_eq_false_iff, decide_eq_false_iff_not, decide_eq_false_iff_not] at alone
  rw [isLow, Bool.and_eq_false_iff, decide_eq_false_iff_not, decide_eq_false_iff_not] at alone'
  have value := @toNat_ofNat u.toNat (by omega)
  refine ⟨[Char.ofNat u.toNat], ?_⟩
  rw [encode_cons, encodeChar_small (by omega), value, UInt16.ofNat_toNat]
  rfl

theorem wellFormed_mark {c : Char} (small : c.toNat < 0x10000) : WellFormed [mark c] :=
  ⟨[c], by rw [encode_cons, encodeChar_small small]; rfl⟩

theorem wellFormed_pair (high : isHigh u = true) (low : isLow v = true) : WellFormed [u, v] := by
  rw [isHigh, Bool.and_eq_true, decide_eq_true_eq, decide_eq_true_eq] at high
  rw [isLow, Bool.and_eq_true, decide_eq_true_eq, decide_eq_true_eq] at low
  have value := @toNat_ofNat (0x10000 + (u.toNat - 0xd800) * 0x400 + (v.toNat - 0xdc00)) (by omega)
  refine ⟨[paired u v], ?_⟩
  have front : 0xd800 + (0x10000 + (u.toNat - 0xd800) * 0x400 + (v.toNat - 0xdc00) - 0x10000) / 0x400 =
      u.toNat := by omega
  have back : 0xdc00 + (0x10000 + (u.toNat - 0xd800) * 0x400 + (v.toNat - 0xdc00) - 0x10000) % 0x400 =
      v.toNat := by omega
  rw [encode_cons, encodeChar, paired, value, if_neg (by omega), front, back, UInt16.ofNat_toNat,
    UInt16.ofNat_toNat]
  rfl

end WellFormed

end Utf16
