import Freehold.EnvelopeBytes
import Freehold.ExportRecovery

set_option autoImplicit false

namespace Freehold.Decrypt

open Cursor DeviceCert
open RecoveryCode (recoveryAlphabet recoveryPayloadLen recoveryCheckLen recoveryChecksum)

/-- `verify_recovery_checksum`, which the decryptor has a copy of. -/
def verifyRecoveryChecksum {ε : Type} (P : Primitives) (code : List Char) : Outcome ε Bool :=
  let canon := strBytes ((code.filter fun c => !isWhitespace c && c != '-').flatMap P.upper)
  if canon.length ≠ recoveryPayloadLen + recoveryCheckLen ∨
      ¬canon.all fun b => recoveryAlphabet.contains b then
    .ok false
  else do
    let check ← recoveryChecksum P (canon.take recoveryPayloadLen)
    return check == canon.drop recoveryPayloadLen

theorem verifyRecoveryChecksum_eq {ε : Type} (P : Primitives) (code : List Char) :
    (verifyRecoveryChecksum P code : Outcome ε Bool) = RecoveryCode.verifyRecoveryChecksum P code := rfl

end Freehold.Decrypt

/- An envelope that holds the DEK under a recovery code opens with every text that gives the
key of the code. -/
namespace Freehold.EnvelopeBytes

open Cursor
open EnvelopeWire (magic version genOff genLen headerLen slotLen macLen slotAad computeMac)

variable {t : Target} {P : Primitives} {blob env slot : List UInt8} {n i : Nat} {dek kek : Vector UInt8 32}
  {code typed : List Char}

/-- Some slot holds the DEK under the key of the code, no slot before it opens under that key, and
the MAC is the one of the DEK. -/
def EnrolledWith (P : Primitives) (blob : List UInt8) (dek : Vector UInt8 32) (code : List Char) : Prop :=
  ∃ n i kek, EnvelopeWire.parse blob = .ok n ∧ i < n ∧
    P.argon2id 19456 2 1 (DeviceCert.strBytes (Decrypt.normalize P code)) (slice blob 12 16) = some kek ∧
    unwrap P kek blob i = some dek.toList ∧ (∀ j < i, unwrap P kek blob j = none) ∧
    Authentic P blob n dek.toList

theorem findSome?_range' {α : Type} {f : Nat → Option α} {a : α} (inside : i < n) (here : f i = some a)
    (before : ∀ j < i, f j = none) : (List.range' 0 n).findSome? f = some a := by
  rw [List.findSome?_eq_some_iff]
  refine ⟨List.range' 0 i, i, List.range' (i + 1) (n - i - 1), ?_, here, ?_⟩
  · rw [← List.range'_succ, show n - i - 1 + 1 = n - i by omega]
    have whole : List.range' 0 i ++ List.range' i (n - i) = List.range' 0 n := by
      have joined := @List.range'_append_1 0 i (n - i)
      rwa [Nat.zero_add, show i + (n - i) = n by omega] at joined
    exact whole.symm
  · intro j member
    rw [List.mem_range'_1] at member
    exact before j (by omega)

/-- The key is derived from the normal form, so that is all a text is asked for. -/
theorem openWithRecovery_congr (t : Target) (blob : List UInt8)
    (same : Decrypt.normalize P typed = Decrypt.normalize P code) :
    openWithRecovery t P blob typed = openWithRecovery t P blob code := by
  have derives : ∀ text salt, kekFromRecovery P text salt =
      okOr .kdf (P.argon2id 19456 2 1 (DeviceCert.strBytes (Decrypt.normalize P text)) salt) :=
    fun _ _ => rfl
  simp only [openWithRecovery, derives, same]

theorem EnrolledWith.opens (enrolled : EnrolledWith P blob dek code) :
    openWithRecovery t P blob code = .ok dek.toList := by
  obtain ⟨n, i, kek, parsed, inside, derived, here, before, authentic⟩ := enrolled
  have parses := parse_eq t blob
  rw [parsed] at parses
  have framed := (parse_meets t blob).of_ok parses
  have derives : kekFromRecovery P code (slice blob saltOff EnvelopeWire.saltLen) = .ok kek := by
    show okOr Error.kdf (P.argon2id 19456 2 1 _ (slice blob 12 16)) = _
    rw [show (Decrypt.splitWhitespace code).flatten.flatMap P.upper = Decrypt.normalize P code from rfl,
      derived]
    rfl
  rw [openWithRecovery, parses, Outcome.ok_bind, salt_ok framed, Outcome.ok_bind, derives,
    Outcome.ok_bind, openWithKek_eq framed parses, findSome?_range' inside here before]
  exact if_pos authentic

section Enroll

theorem slice_congr {bytes other : List UInt8} {pos off len : Nat}
    (same : ∀ q < len, bytes[pos + q]? = other[off + q]?) : slice bytes pos len = slice other off len := by
  apply List.ext_getElem?
  intro q
  rw [slice, slice, List.getElem?_take, List.getElem?_take, List.getElem?_drop, List.getElem?_drop]
  split
  · next inside => exact same q inside
  · rfl

/-- A slot is read from its own bytes. -/
theorem unwrap_congr (same : ∀ q < 74, env[36 + i * 74 + q]? = blob[36 + i * 74 + q]?) :
    unwrap P kek env i = unwrap P kek blob i := by
  have part : ∀ off len, off + len ≤ 74 →
      slice env (36 + i * 74 + off) len = slice blob (36 + i * 74 + off) len := by
    intro off len inside
    apply slice_congr
    intro q small
    rw [Nat.add_assoc _ off q]
    exact same (off + q) (by omega)
  have byte : ∀ off < 74, env.getD (36 + i * 74 + off) 0 = blob.getD (36 + i * 74 + off) 0 := by
    intro off small
    rw [List.getD_eq_getElem?_getD, List.getD_eq_getElem?_getD, same off small]
  have first : env.getD (36 + i * 74) 0 = blob.getD (36 + i * 74) 0 := byte 0 (by omega)
  simp only [unwrap]
  rw [part 2 24 (by omega), part 58 16 (by omega), part 26 32 (by omega), byte 1 (by omega), first]

/-- The header `rebuild_gen` writes. -/
def newHeader (blob : List UInt8) (count : Nat) (gen : UInt64) : List UInt8 :=
  ((slice blob 0 36).set 9 (UInt8.ofNat count)).take 28 ++ toLe 8 gen.toNat ++
    ((slice blob 0 36).set 9 (UInt8.ofNat count)).drop 36

theorem length_newHeader (long : 36 ≤ blob.length) (count : Nat) (gen : UInt64) :
    (newHeader blob count gen).length = 36 := by
  have header := length_slice (show 0 + 36 ≤ blob.length by omega)
  simp only [newHeader, List.length_append, List.length_take, List.length_drop, List.length_set,
    length_toLe, header]
  decide

theorem getElem?_newHeader (long : 36 ≤ blob.length) (count : Nat) (gen : UInt64) {p : Nat}
    (small : p < 28) :
    (newHeader blob count gen)[p]? = if p = 9 then some (UInt8.ofNat count) else blob[p]? := by
  have header := length_slice (show 0 + 36 ≤ blob.length by omega)
  have front : p < (((slice blob 0 36).set 9 (UInt8.ofNat count)).take 28 ++ toLe 8 gen.toNat).length := by
    simp only [List.length_append, List.length_take, List.length_set, header, length_toLe]
    omega
  have front' : p < (((slice blob 0 36).set 9 (UInt8.ofNat count)).take 28).length := by
    simp only [List.length_take, List.length_set, header]
    omega
  rw [newHeader, List.getElem?_append_left front, List.getElem?_append_left front',
    List.getElem?_take_of_lt small, List.getElem?_set]
  by_cases ninth : p = 9
  · rw [if_pos ninth, if_pos ninth.symm, if_pos (by omega)]
  · rw [if_neg ninth, if_neg (fun same => ninth same.symm), slice, List.getElem?_take_of_lt (by omega),
      List.drop_zero]

/-- What `appendSlot` builds: a header that counts one more, the slots, the new one and the MAC. -/
theorem appendSlot_eq (framed : Framed blob n) (slot : List UInt8) : ∃ gen,
    appendSlot t P blob dek n slot =
      .ok (finalize P (newHeader blob (n + 1) gen ++ (slice blob 36 (n * 74) ++ slot)) dek) := by
  have body := framed.body
  have few := framed.few
  refine ⟨UInt64.ofNat (ofLe (slice blob genOff genLen)) + 1, ?_⟩
  have header := length_slice (show 0 + 36 ≤ blob.length by omega)
  have keep : range blob headerLen (36 + n * 74) = .ok (slice blob 36 (n * 74)) := by
    rw [range_ok (show 36 ≤ _ by omega) (by omega)]
    congr 2
    show 36 + n * 74 - 36 = _
    omega
  have digits : ∀ gen : UInt64, (toLe genLen gen.toNat).length = genOff + genLen - genOff := by
    intro gen
    rw [length_toLe]
    rfl
  have inside : genOff + genLen ≤ ((slice blob 0 (headerLen - 0)).set 9 (UInt8.ofNat (n + 1))).length := by
    rw [List.length_set]
    exact Nat.le_of_eq header.symm
  rw [appendSlot, bodyLen_ok (by omega), Outcome.ok_bind, keep, Outcome.ok_bind, add_ok (by omega),
    Outcome.ok_bind, rebuild, readGeneration_ok (by omega), Outcome.ok_bind, rebuildGen,
    range_ok (Nat.zero_le _) (show 36 ≤ _ by omega), Outcome.ok_bind]
  dsimp only
  rw [add_ok (by decide), Outcome.ok_bind, copyInto_ok (by decide) inside (digits _), Outcome.ok_bind]
  rfl

/-- What one more slot makes of a blob with `n` slots. -/
structure Appended (blob env slot : List UInt8) (n : Nat) : Prop where
  length : env.length = 36 + (n + 1) * 74 + 32
  header : ∀ p < 28, env[p]? = if p = 9 then some (UInt8.ofNat (n + 1)) else blob[p]?
  slots : ∀ p, 36 ≤ p → p < 36 + n * 74 → env[p]? = blob[p]?
  last : ∀ q < 74, env[36 + n * 74 + q]? = slot[q]?

theorem appended_finalize (framed : Framed blob n) {slot : List UInt8} (length : slot.length = 74)
    (gen : UInt64) :
    Appended blob (finalize P (newHeader blob (n + 1) gen ++ (slice blob 36 (n * 74) ++ slot)) dek) slot n := by
  have body := framed.body
  have header := length_newHeader (by omega : 36 ≤ blob.length) (n + 1) gen
  have slots := length_slice (show 36 + n * 74 ≤ blob.length by omega)
  constructor
  · simp only [finalize, List.length_append, header, slots, length, Vector.length_toList]
    omega
  · intro p small
    rw [finalize, List.append_assoc, List.getElem?_append_left (by omega),
      getElem?_newHeader (by omega) _ _ small]
  · intro p from_slots inside
    rw [finalize, List.append_assoc, List.getElem?_append_right (by omega), header, List.append_assoc,
      List.getElem?_append_left (by omega), slice, List.getElem?_take_of_lt (by omega),
      List.getElem?_drop, show 36 + (p - 36) = p by omega]
  · intro q small
    rw [finalize, List.append_assoc, List.getElem?_append_right (by omega), header, List.append_assoc,
      List.getElem?_append_right (by omega), slots, List.getElem?_append_left (by omega)]
    congr 1
    omega

theorem Appended.getD (appended : Appended blob env slot n) {p : Nat} (small : p < 28) (other : p ≠ 9) :
    env.getD p 0 = blob.getD p 0 := by
  rw [List.getD_eq_getElem?_getD, List.getD_eq_getElem?_getD, appended.header p small, if_neg other]

theorem Appended.slice_header (appended : Appended blob env slot n) {pos len : Nat}
    (inside : pos + len ≤ 9 ∨ 10 ≤ pos ∧ pos + len ≤ 28) : slice env pos len = slice blob pos len := by
  apply slice_congr
  intro q small
  rw [appended.header _ (by omega), if_neg (by omega)]

theorem Appended.parse (appended : Appended blob env slot n) (few : n ≤ 254)
    (parsed : EnvelopeWire.parse blob = .ok n) : EnvelopeWire.parse env = .ok (n + 1) := by
  have front : env.take 8 = blob.take 8 := 
    @Appended.slice_header _ _ _ _ appended 0 8 (by omega)
  have ninth : env.getD 9 0 = UInt8.ofNat (n + 1) := by
    rw [List.getD_eq_getElem?_getD, appended.header 9 (by decide)]
    rfl
  have count : (env.getD 9 0).toNat = n + 1 := by
    rw [ninth, UInt8.toNat_ofNat']
    omega
  have long : ¬env.length < headerLen + macLen := by
    rw [appended.length]
    show ¬_ < 36 + 32
    omega
  rw [EnvelopeWire.parse] at parsed ⊢
  split at parsed
  · cases parsed
  · next framed =>
      rw [not_or, not_or] at framed
      rw [front, appended.getD (by decide) (by decide), if_neg (not_or.mpr ⟨long, not_or.mpr framed.2⟩), count]
      exact if_neg (by rw [not_not]; exact appended.length)

theorem Appended.slice_slot (appended : Appended blob env slot n) {off len : Nat}
    (inside : off + len ≤ 74) : slice env (36 + n * 74 + off) len = slice slot off len := by
  apply slice_congr
  intro q small
  rw [Nat.add_assoc _ off q, appended.last _ (by omega)]

/-- What `wrap_slot` writes, by its parts. -/
theorem slice_wrapped {kekId kind : UInt8} {nonce ct tag : List UInt8} (nonceLen : nonce.length = 24)
    (ctLen : ct.length = 32) (tagLen : tag.length = 16) :
    slice ([kekId, kind] ++ nonce ++ ct ++ tag) 2 24 = nonce ∧
      slice ([kekId, kind] ++ nonce ++ ct ++ tag) 26 32 = ct ∧
      slice ([kekId, kind] ++ nonce ++ ct ++ tag) 58 16 = tag := by
  refine ⟨?_, ?_, ?_⟩
  · rw [slice, List.append_assoc, List.append_assoc, List.drop_left' (by rfl),
      List.take_left' nonceLen]
  · rw [slice, List.append_assoc, List.drop_left' (by simp [nonceLen]), List.take_left' ctLen]
  · rw [slice, List.drop_left' (by simp [nonceLen, ctLen]), ← tagLen, List.take_length]

/-- The slot of a DEK wrapped under a key opens with it. -/
theorem Appended.unwrap_last (lawful : P.Lawful) {kekId kind : UInt8} {nonce : Vector UInt8 24}
    (appended : Appended blob env ([kekId, kind] ++ nonce.toList ++
      (P.encrypt kek nonce (slotAad kekId kind) dek.toList).1 ++
      (P.encrypt kek nonce (slotAad kekId kind) dek.toList).2.toList) n) :
    unwrap P kek env n = some dek.toList := by
  obtain ⟨nonceBytes, ctBytes, tagBytes⟩ := @slice_wrapped kekId kind nonce.toList
    (P.encrypt kek nonce (slotAad kekId kind) dek.toList).1
    (P.encrypt kek nonce (slotAad kekId kind) dek.toList).2.toList (by simp)
    (by rw [lawful.length_encrypt, Vector.length_toList]) (by simp)
  have first : env.getD (36 + n * 74) 0 = kekId := by
    rw [List.getD_eq_getElem?_getD, ← Nat.add_zero (36 + n * 74), appended.last 0 (by decide)]
    rfl
  have second : env.getD (36 + n * 74 + 1) 0 = kind := by
    rw [List.getD_eq_getElem?_getD, appended.last 1 (by decide)]
    rfl
  simp only [unwrap]
  rw [appended.slice_slot (by omega), appended.slice_slot (by omega), appended.slice_slot (by omega),
    nonceBytes, ctBytes, tagBytes, first, second, DeviceCert.byteArray_toList, DeviceCert.byteArray_toList]
  exact lawful.decrypt_encrypt kek nonce _ dek.toList

theorem Appended.unwrap_old (appended : Appended blob env slot n) (inside : i < n) :
    unwrap P kek env i = unwrap P kek blob i := by
  have whole : (i + 1) * 74 ≤ n * 74 := Nat.mul_le_mul_right 74 inside
  apply unwrap_congr
  intro q small
  exact appended.slots _ (by omega) (by omega)

/-- The MAC `finalize` appends is the one of the DEK. -/
theorem authentic_finalize {body : List UInt8} (length : body.length = 36 + n * 74) :
    Authentic P (finalize P body dek) n dek.toList := by
  have mac : (computeMac P body dek.toList).toList.length = 32 := Vector.length_toList
  rw [Authentic, finalize, List.take_left' length, slice, List.drop_left' length,
    List.take_of_length_le (Nat.le_of_eq mac)]

/-- `add_recovery_slot` enrolls the code, where its key opens no slot that is already there. -/
theorem addRecoverySlot_enrolls (lawful : P.Lawful) (parsed : EnvelopeWire.parse blob = .ok n)
    (few : n ≤ 254) {nonce : Option (Vector UInt8 24)}
    (derived : P.argon2id 19456 2 1 (DeviceCert.strBytes (Decrypt.normalize P code)) (slice blob 12 16) =
      some kek)
    (shut : ∀ i < n, unwrap P kek blob i = none)
    (added : addRecoverySlot t P blob dek code nonce = .ok env) : EnrolledWith P env dek code := by
  have parses := parse_eq t blob
  rw [parsed] at parses
  have framed := (parse_meets t blob).of_ok parses
  have body := framed.body
  have derives : kekFromRecovery P code (slice blob saltOff EnvelopeWire.saltLen) = .ok kek := by
    show okOr Error.kdf (P.argon2id 19456 2 1 _ (slice blob 12 16)) = _
    rw [show (Decrypt.splitWhitespace code).flatten.flatMap P.upper = Decrypt.normalize P code from rfl,
      derived]
    rfl
  rw [addRecoverySlot, parses, Outcome.ok_bind, salt_ok framed, Outcome.ok_bind, derives,
    Outcome.ok_bind] at added
  obtain ⟨kekId, _, added⟩ := Outcome.bind_eq_ok.mp added
  obtain ⟨slot, wrapped, added⟩ := Outcome.bind_eq_ok.mp added
  rw [wrapSlot] at wrapped
  obtain ⟨nonce, _, wrapped⟩ := Outcome.bind_eq_ok.mp wrapped
  split at wrapped
  · cases wrapped
  · cases wrapped
    obtain ⟨gen, appends⟩ := @appendSlot_eq t P blob n dek framed ([kekId, kindRecovery] ++ nonce.toList ++
      (P.encrypt kek nonce (slotAad kekId kindRecovery) dek.toList).1 ++
      (P.encrypt kek nonce (slotAad kekId kindRecovery) dek.toList).2.toList)
    rw [appends] at added
    cases added
    have slotLength : ([kekId, kindRecovery] ++ nonce.toList ++
        (P.encrypt kek nonce (slotAad kekId kindRecovery) dek.toList).1 ++
        (P.encrypt kek nonce (slotAad kekId kindRecovery) dek.toList).2.toList).length = 74 := by
      simp [lawful.length_encrypt]
    have appended := @appended_finalize P blob n dek framed _ slotLength gen
    have header := length_newHeader (by omega : 36 ≤ blob.length) (n + 1) gen
    have slots := length_slice (show 36 + n * 74 ≤ blob.length by omega)
    refine ⟨n + 1, n, kek, appended.parse few parsed, Nat.lt_succ_self n, ?_, appended.unwrap_last lawful,
      ?_, authentic_finalize ?_⟩
    · rw [appended.slice_header (by omega)]
      exact derived
    · intro j before
      rw [appended.unwrap_old before]
      exact shut j before
    · rw [List.length_append, List.length_append, header, slots, slotLength]
      omega

end Enroll

section Generated

/-- Both programs find the text's checksum right. -/
def Passes (P : Primitives) (typed : List Char) : Prop :=
  (RecoveryCode.verifyRecoveryChecksum P typed : Outcome Error Bool) = .ok true ∧
    (Decrypt.verifyRecoveryChecksum P typed : Outcome Error Bool) = .ok true

instance (P : Primitives) (typed : List Char) : Decidable (Passes P typed) :=
  inferInstanceAs (Decidable (_ ∧ _))

theorem passes_of_canon (upper : RecoveryCode.UpperCase P) {run : List UInt8}
    (generated : RecoveryCode.Run Error P run)
    (same : RecoveryCode.recoveryCanon P typed = RecoveryCode.recoveryCanon P (RecoveryCode.grouped run)) :
    Passes P typed := by
  have verified := RecoveryCode.verify_of_canon upper generated same
  exact ⟨verified, (Decrypt.verifyRecoveryChecksum_eq P typed).trans verified⟩

/-- The calls of `ExportSample` with those for a text without hyphens. -/
def typedCalls : CallTable :=
  { ExportSample.calls with
    argon2id := ExportSample.calls.argon2id ++
      [((DeviceCert.strBytes "000G40R40M30E209185GR38E1WV308".toList, toLe 16 5),
        ExportSample.le 32 0xc220e0a0aba6bc8aba57aa63938b3024b4a14196ff514c0901a70fdfb18d1f3a)] }

def typedPrimitives : Primitives :=
  { typedCalls.primitives with
    sha256 message :=
      if message = utf8Bytes "000G40R40M30E209185GR38E1W" then
        ExportSample.le 32 0x4965e3ae818d4f15f0ccf930ec1f8838d6f65bf56d4cc72e7ed5688da28ec0d8
      else Vector.replicate 32 0 }

theorem upperCase_typed : RecoveryCode.UpperCase typedPrimitives where
  symbols := by decide +kernel
  hyphen := by decide +kernel
  others := by
    intro c other member
    have upper : '-' = c.toUpper := List.mem_singleton.mp member
    rw [Char.toUpper] at upper
    split at upper
    · next lower =>
        have first : 97 ≤ c.val.toNat := UInt32.le_iff_toNat_le.mp lower.1
        have last : c.val.toNat ≤ 122 := UInt32.le_iff_toNat_le.mp lower.2
        have moved := congrArg (fun d : Char => d.val.toNat) upper
        have shift : ('A'.val - 'a'.val).toNat = 4294967264 := by decide
        have hyphen : '-'.val.toNat = 45 := by decide
        simp only [UInt32.toNat_add, shift, hyphen] at moved
        omega
    · exact other upper.symm

def entropy : Vector UInt8 16 := Vector.ofFn fun i => UInt8.ofNat i

theorem enrolled_typed : EnrolledWith typedPrimitives ExportSample.wire.bytes (ExportSample.le 32 7)
    ExportSample.code := by
  refine ⟨2, 1, ExportSample.recoveryKek, by decide +kernel, by decide, by decide +kernel,
    by decide +kernel, ?_, by decide +kernel⟩
  intro j first
  obtain rfl : j = 0 := by omega
  decide +kernel

/-- Whatever the entropy, the generated code passes the check, and so does every text with its
canonical form. Such a text has the code's normal form exactly when it has the code's hyphens; it
then opens every envelope that holds the DEK under the code. -/
theorem generated_code_unlocks (t : Target) (P : Primitives) (upper : RecoveryCode.UpperCase P)
    (ent : Vector UInt8 16) : ∃ code,
    RecoveryCode.generateRecoveryCode P Error.rng (some ent) = .ok code ∧ Passes P code ∧
      ∀ typed, RecoveryCode.recoveryCanon P typed = RecoveryCode.recoveryCanon P code →
        Passes P typed ∧
        (Decrypt.normalize P typed = code ↔ RecoveryCode.HyphensAs P typed code) ∧
        (RecoveryCode.HyphensAs P typed code → ∀ env dek, EnrolledWith P env dek code →
          openWithRecovery t P env typed = .ok dek.toList) := by
  obtain ⟨run, generated, made⟩ := RecoveryCode.generateRecoveryCode_ok P Error.rng ent
  refine ⟨RecoveryCode.grouped run, made, passes_of_canon upper generated rfl, ?_⟩
  intro typed same
  have normal := RecoveryCode.normalize_eq_iff upper generated.symbols same
  refine ⟨passes_of_canon upper generated same, normal, ?_⟩
  intro places env dek enrolled
  have code := RecoveryCode.normalize_grouped upper generated.symbols
  rw [openWithRecovery_congr t env ((normal.mpr places).trans code.symm)]
  exact enrolled.opens

/-- Lower case and white space do no harm. -/
theorem generated_code_unlocks_lower : openWithRecovery .wasm32 typedPrimitives ExportSample.wire.bytes
    "000g4-0r40m-30e20 - 9185g-r38e1-wv308\n".toList = .ok (ExportSample.le 32 7).toList := by
  obtain ⟨code, made, _, typed⟩ := generated_code_unlocks .wasm32 typedPrimitives upperCase_typed entropy
  have generated : RecoveryCode.generateRecoveryCode typedPrimitives Error.rng (some entropy) =
      .ok ExportSample.code := by decide +kernel
  rw [generated] at made
  cases made
  have text := typed "000g4-0r40m-30e20 - 9185g-r38e1-wv308\n".toList (by decide +kernel)
  exact text.2.2 (by decide +kernel) _ _ enrolled_typed

/-- Without its hyphens, a code that passes the check does not unlock. -/
theorem bare_code_locked :
    RecoveryCode.generateRecoveryCode typedPrimitives Error.rng (some entropy) = .ok ExportSample.code ∧
    EnrolledWith typedPrimitives ExportSample.wire.bytes (ExportSample.le 32 7) ExportSample.code ∧
    RecoveryCode.recoveryCanon typedPrimitives "000G40R40M30E209185GR38E1WV308".toList =
      RecoveryCode.recoveryCanon typedPrimitives ExportSample.code ∧
    Passes typedPrimitives "000G40R40M30E209185GR38E1WV308".toList ∧
    openWithRecovery .wasm32 typedPrimitives ExportSample.wire.bytes
      "000G40R40M30E209185GR38E1WV308".toList = .error .unlock := by
  refine ⟨?_, enrolled_typed, ?_, ?_, ?_⟩ <;> decide +kernel

end Generated

end Freehold.EnvelopeBytes
