import Mathlib.Data.List.Basic
import Mathlib.Data.UInt

set_option autoImplicit false

/- Bytes read as UTF-8 where every fault becomes U+FFFD: one for each longest run of bytes that
begins a character. -/
namespace Utf8

def replacement : Char := Char.ofNat 0xfffd

def continues (b : UInt8) : Bool := 0x80 ≤ b.toNat && b.toNat < 0xc0

/-- The bytes that may come second in a character of three or four. -/
def second (lead b : UInt8) : Bool :=
  if lead.toNat = 0xe0 then 0xa0 ≤ b.toNat && b.toNat < 0xc0
  else if lead.toNat = 0xed then 0x80 ≤ b.toNat && b.toNat < 0xa0
  else if lead.toNat = 0xf0 then 0x90 ≤ b.toNat && b.toNat < 0xc0
  else if lead.toNat = 0xf4 then 0x80 ≤ b.toNat && b.toNat < 0x90
  else continues b

/-- The bits a byte after the first has. -/
def bits (b : UInt8) : Nat := b.toNat - 0x80

def two (lead : UInt8) : List UInt8 → Char × List UInt8
  | [] => (replacement, [])
  | b :: rest =>
      if continues b then (Char.ofNat ((lead.toNat - 0xc0) * 64 + bits b), rest) else (replacement, b :: rest)

def three (lead : UInt8) : List UInt8 → Char × List UInt8
  | [] => (replacement, [])
  | [b] => (replacement, if second lead b then [] else [b])
  | b :: c :: rest =>
      if !second lead b then (replacement, b :: c :: rest)
      else if !continues c then (replacement, c :: rest)
      else (Char.ofNat ((lead.toNat - 0xe0) * 4096 + bits b * 64 + bits c), rest)

def four (lead : UInt8) : List UInt8 → Char × List UInt8
  | [] => (replacement, [])
  | [b] => (replacement, if second lead b then [] else [b])
  | [b, c] => (replacement, if !second lead b then [b, c] else if continues c then [] else [c])
  | b :: c :: d :: rest =>
      if !second lead b then (replacement, b :: c :: d :: rest)
      else if !continues c then (replacement, c :: d :: rest)
      else if !continues d then (replacement, d :: rest)
      else (Char.ofNat ((lead.toNat - 0xf0) * 262144 + bits b * 4096 + bits c * 64 + bits d), rest)

/-- The first character and the bytes behind it. -/
def first (lead : UInt8) (rest : List UInt8) : Char × List UInt8 :=
  if lead.toNat < 0x80 then (Char.ofNat lead.toNat, rest)
  else if 0xc2 ≤ lead.toNat ∧ lead.toNat < 0xe0 then two lead rest
  else if 0xe0 ≤ lead.toNat ∧ lead.toNat < 0xf0 then three lead rest
  else if 0xf0 ≤ lead.toNat ∧ lead.toNat < 0xf5 then four lead rest
  else (replacement, rest)

def lossy : Nat → List UInt8 → List Char
  | 0, _ => []
  | _ + 1, [] => []
  | fuel + 1, lead :: rest =>
      let (c, rest) := first lead rest
      c :: lossy fuel rest

/-- Each character takes a byte at least. -/
def fromUtf8Lossy (bytes : List UInt8) : List Char := lossy bytes.length bytes

section Encoded

variable {c : Char}

theorem scalar (c : Char) : c.val.toNat < 0xd800 ∨ 0xdfff < c.val.toNat ∧ c.val.toNat < 0x110000 := by
  have valid := c.valid
  simp only [UInt32.isValidChar, Nat.isValidChar] at valid
  exact valid

theorem ofNat_val (c : Char) : Char.ofNat c.val.toNat = c := Char.ofNat_toNat c

theorem toNat_byte {n : Nat} (small : n < 256) : (UInt8.ofNat n).toNat = n := by
  rw [UInt8.toNat_ofNat']
  omega

theorem continues_tail (n : Nat) :
    continues (UInt8.ofNat (n % 0x40 + 0x80)) = true ∧ bits (UInt8.ofNat (n % 0x40 + 0x80)) = n % 0x40 := by
  have value : (UInt8.ofNat (n % 0x40 + 0x80)).toNat = n % 0x40 + 0x80 := toNat_byte (by omega)
  constructor
  · rw [continues, value]
    simp only [Bool.and_eq_true, decide_eq_true_eq]
    omega
  · show (UInt8.ofNat (n % 0x40 + 0x80)).toNat - 0x80 = n % 0x40
    omega

/-- The second byte of a character is one that may come second. -/
theorem second_tail {lead : UInt8} {n : Nat} (low : lead.toNat = 0xe0 → 0x20 ≤ n % 0x40)
    (surrogate : lead.toNat = 0xed → n % 0x40 < 0x20) (plane : lead.toNat = 0xf0 → 0x10 ≤ n % 0x40)
    (last : lead.toNat = 0xf4 → n % 0x40 < 0x10) :
    second lead (UInt8.ofNat (n % 0x40 + 0x80)) = true := by
  rw [second, continues, toNat_byte (by omega)]
  split
  · simp only [Bool.and_eq_true, decide_eq_true_eq]
    omega
  · split
    · simp only [Bool.and_eq_true, decide_eq_true_eq]
      omega
    · split
      · simp only [Bool.and_eq_true, decide_eq_true_eq]
        omega
      · split
        · simp only [Bool.and_eq_true, decide_eq_true_eq]
          omega
        · simp only [Bool.and_eq_true, decide_eq_true_eq]
          omega

theorem first_encoded (c : Char) (rest : List UInt8) :
    ∃ lead tail, String.utf8EncodeChar c ++ rest = lead :: tail ∧ first lead tail = (c, rest) := by
  have bounds := scalar c
  unfold String.utf8EncodeChar
  dsimp only
  split
  · next one =>
    refine ⟨_, rest, rfl, ?_⟩
    rw [first, toNat_byte (by omega), if_pos (by omega), ofNat_val]
  · split
    · next small =>
      refine ⟨_, _ :: rest, rfl, ?_⟩
      have lead : (UInt8.ofNat (c.val.toNat / 64 % 0x20 + 0xc0)).toNat = c.val.toNat / 64 + 0xc0 := by
        rw [toNat_byte (by omega)]
        omega
      obtain ⟨follows, low⟩ := continues_tail c.val.toNat
      have whole : (c.val.toNat / 64 + 0xc0 - 0xc0) * 64 + c.val.toNat % 0x40 = c.val.toNat := by omega
      rw [first, lead, if_neg (by omega), if_pos (by omega), two, if_pos follows, lead, low, whole, ofNat_val]
    · split
      · next small =>
        refine ⟨_, _ :: _ :: rest, rfl, ?_⟩
        have lead : (UInt8.ofNat (c.val.toNat / 4096 % 0x10 + 0xe0)).toNat = c.val.toNat / 4096 + 0xe0 := by
          rw [toNat_byte (by omega)]
          omega
        have begins := @second_tail (UInt8.ofNat (c.val.toNat / 4096 % 0x10 + 0xe0)) (c.val.toNat / 64)
          (by rw [lead]; omega) (by rw [lead]; omega) (by rw [lead]; omega) (by rw [lead]; omega)
        obtain ⟨_, high⟩ := continues_tail (c.val.toNat / 64)
        obtain ⟨follows, low⟩ := continues_tail c.val.toNat
        have whole : (c.val.toNat / 4096 + 0xe0 - 0xe0) * 4096 + c.val.toNat / 64 % 0x40 * 64 +
            c.val.toNat % 0x40 = c.val.toNat := by omega
        rw [first, lead, if_neg (by omega), if_neg (by omega), if_pos (by omega), three, begins, follows,
          lead, high, low, whole, ofNat_val]
        rfl
      · refine ⟨_, _ :: _ :: _ :: rest, rfl, ?_⟩
        have lead : (UInt8.ofNat (c.val.toNat / 262144 % 0x08 + 0xf0)).toNat =
            c.val.toNat / 262144 + 0xf0 := by
          rw [toNat_byte (by omega)]
          omega
        have begins := @second_tail (UInt8.ofNat (c.val.toNat / 262144 % 0x08 + 0xf0)) (c.val.toNat / 4096)
          (by rw [lead]; omega) (by rw [lead]; omega) (by rw [lead]; omega) (by rw [lead]; omega)
        obtain ⟨_, high⟩ := continues_tail (c.val.toNat / 4096)
        obtain ⟨follows', middle⟩ := continues_tail (c.val.toNat / 64)
        obtain ⟨follows, low⟩ := continues_tail c.val.toNat
        have whole : (c.val.toNat / 262144 + 0xf0 - 0xf0) * 262144 + c.val.toNat / 4096 % 0x40 * 4096 +
            c.val.toNat / 64 % 0x40 * 64 + c.val.toNat % 0x40 = c.val.toNat := by omega
        rw [first, lead, if_neg (by omega), if_neg (by omega), if_neg (by omega), if_pos (by omega),
          four, begins, follows', follows, lead, high, middle, low, whole, ofNat_val]
        rfl

theorem lossy_encoded (s : List Char) {fuel : Nat}
    (enough : (s.flatMap String.utf8EncodeChar).length ≤ fuel) :
    lossy fuel (s.flatMap String.utf8EncodeChar) = s := by
  induction s generalizing fuel with
  | nil => cases fuel <;> rfl
  | cons c s ih =>
      obtain ⟨lead, tail, shape, read⟩ := first_encoded c (s.flatMap String.utf8EncodeChar)
      have size : 0 < (String.utf8EncodeChar c).length := by
        rw [String.length_utf8EncodeChar]
        exact Char.utf8Size_pos c
      rw [List.flatMap_cons, List.length_append] at enough
      obtain ⟨fuel, rfl⟩ := Nat.exists_eq_succ_of_ne_zero (n := fuel) (by omega)
      rw [List.flatMap_cons, shape, lossy, read]
      dsimp only
      rw [ih (by omega)]

/-- Encoded text comes back as it was. -/
theorem fromUtf8Lossy_encoded (s : List Char) : fromUtf8Lossy (s.flatMap String.utf8EncodeChar) = s :=
  lossy_encoded s (Nat.le_refl _)

end Encoded

end Utf8
