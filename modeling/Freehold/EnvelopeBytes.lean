import Freehold.EnvelopeWire
import Freehold.RecoveryCode

set_option autoImplicit false

/- The envelope module on the bytes it is given: every index, slice and sum that could fail
to be in range is an outcome of its own. -/
namespace Freehold.EnvelopeBytes

open Cursor
open EnvelopeWire (magic version saltLen genOff genLen headerLen slotLen macLen kekInfo slotAad computeMac)

/-- `EnvelopeError`; the primitives do not fail to seal. -/
inductive Error where
  | rng
  | format
  | unlock
  | tamper
  | rollback
  | kdf
  deriving DecidableEq, Repr

abbrev saltOff : Nat := 12
abbrev dekLen : Nat := 32
abbrev nonceLen : Nat := 24
abbrev tagLen : Nat := 16

/-- `a * b`, which overflows past `usize::MAX`. -/
def mulUsize (width a b : Nat) : Outcome Error Nat :=
  if a * b < 2 ^ width then .ok (a * b) else .panic

/-- `bytes[pos]`. -/
def index (bytes : List UInt8) (pos : Nat) : Outcome Error UInt8 :=
  match bytes[pos]? with
  | some byte => .ok byte
  | none => .panic

/-- `&bytes[lo..hi]`. -/
def range (bytes : List UInt8) (lo hi : Nat) : Outcome Error (List UInt8) :=
  if lo ≤ hi ∧ hi ≤ bytes.length then .ok ((bytes.take hi).drop lo) else .panic

/-- `bytes[lo..hi].copy_from_slice(src)`. -/
def copyInto (bytes : List UInt8) (lo hi : Nat) (src : List UInt8) : Outcome Error (List UInt8) :=
  if lo ≤ hi ∧ hi ≤ bytes.length ∧ src.length = hi - lo then
    .ok (bytes.take lo ++ src ++ bytes.drop hi)
  else .panic

/-- `from_slice` of an array of `n` bytes. -/
def array (n : Nat) (bytes : List UInt8) : Outcome Error (Vector UInt8 n) :=
  match byteArray n bytes with
  | some v => .ok v
  | none => .panic

variable (t : Target)

def add (a b : Nat) : Outcome Error Nat := addUsize t.usizeBits a b

/-- `&bytes[pos..pos + len]`. -/
def rangeFrom (bytes : List UInt8) (pos len : Nat) : Outcome Error (List UInt8) := do
  let hi ← add t pos len
  range bytes pos hi

/-- `body_len`, which is also where the slot of that index begins. -/
def bodyLen (slotCount : Nat) : Outcome Error Nat := do
  let slots ← mulUsize t.usizeBits slotCount slotLen
  add t headerLen slots

/-- `parse`. -/
def parse (blob : List UInt8) : Outcome Error Nat := do
  if blob.length < headerLen + macLen then .error .format
  else
    let front ← range blob 0 8
    if front ≠ magic then .error .format
    else
      let v ← index blob 8
      if v ≠ version then .error .format
      else
        let slotCount ← index blob 9
        let body ← bodyLen t slotCount.toNat
        let total ← add t body macLen
        if blob.length ≠ total then .error .format else return slotCount.toNat

/-- `read_generation`. -/
def readGeneration (blob : List UInt8) : Outcome Error UInt64 := do
  let g ← rangeFrom t blob genOff genLen
  return UInt64.ofNat (ofLe g)

/-- `envelope_generation`. -/
def envelopeGeneration (blob : List UInt8) : Outcome Error UInt64 :=
  match parse t blob with
  | .ok _ => readGeneration t blob
  | .error _ => .ok 0
  | .panic => .panic

/-- `check_fresh`. -/
def checkFresh (blob : List UInt8) (floor : UInt64) : Outcome Error Unit := do
  let _ ← parse t blob
  let generation ← readGeneration t blob
  if generation < floor then .error .rollback else return ()

/-- The loop of `next_kek_id`, from slot `i` on. -/
def maxKekId (blob : List UInt8) : (i count : Nat) → Option UInt8 → Outcome Error (Option UInt8)
  | _, 0, max => .ok max
  | i, count + 1, max => do
      let pos ← bodyLen t i
      let id ← index blob pos
      maxKekId blob (i + 1) count (some ((max.map fun m => if m < id then id else m).getD id))

/-- `next_kek_id`. -/
def nextKekId (blob : List UInt8) (slotCount : Nat) : Outcome Error UInt8 := do
  let max ← maxKekId t blob 0 slotCount none
  return (max.map fun m => m + 1).getD 0

variable (P : Primitives)

/-- `kek_from_prf`. -/
def kekFromPrf (prfOutput : List UInt8) : Vector UInt8 32 := P.hkdf prfOutput kekInfo

/-- `kek_from_recovery`. -/
def kekFromRecovery (code : List Char) (salt : List UInt8) : Outcome Error (Vector UInt8 32) :=
  let norm := (Decrypt.splitWhitespace code).flatten.flatMap P.upper
  okOr .kdf (P.argon2id 19456 2 1 (DeviceCert.strBytes norm) salt)

/-- `wrap_slot` with the nonce it draws, if it gets one. -/
def wrapSlot (dek kek : Vector UInt8 32) (kekId kind : UInt8) (nonce : Option (Vector UInt8 24)) :
    Outcome Error (List UInt8) := do
  let nonce ← okOr .rng nonce
  if nonce.toList.all (· = 0) then .error .rng
  else
    let sealed := P.encrypt kek nonce (slotAad kekId kind) dek.toList
    return [kekId, kind] ++ nonce.toList ++ sealed.1 ++ sealed.2.toList

/-- `finalize`. -/
def finalize (body : List UInt8) (dek : Vector UInt8 32) : List UInt8 :=
  body ++ (computeMac P body dek.toList).toList

/-- `create_envelope`, of a passkey, with the salt and the nonce it draws. -/
def createEnvelope (dek : Vector UInt8 32) (prfOutput : List UInt8) (salt : Option (Vector UInt8 16))
    (nonce : Option (Vector UInt8 24)) : Outcome Error (List UInt8) := do
  let salt ← okOr .rng salt
  let header := magic ++ [version, 1, 0, 0] ++ salt.toList ++ toLe genLen 1
  let slot ← wrapSlot P dek (kekFromPrf P prfOutput) 0 kindPasskey nonce
  return finalize P (header ++ slot) dek

/-- `rebuild_gen`. -/
def rebuildGen (blob : List UInt8) (dek : Vector UInt8 32) (keep : List UInt8) (count : Nat)
    (gen : UInt64) : Outcome Error (List UInt8) := do
  let header ← range blob 0 headerLen
  let counted := header.set 9 (UInt8.ofNat count)
  let stop ← add t genOff genLen
  let body ← copyInto counted genOff stop (toLe genLen gen.toNat)
  return finalize P (body ++ keep) dek

/-- `rebuild`. -/
def rebuild (blob : List UInt8) (dek : Vector UInt8 32) (keep : List UInt8) (count : Nat) :
    Outcome Error (List UInt8) := do
  let generation ← readGeneration t blob
  rebuildGen t P blob dek keep count (generation + 1)

/-- The loops of `strip_kind` and `remove_slot`: the slots, and how many, whose byte at `field` is
not `value`. -/
def keepSlots (blob : List UInt8) (field : Nat) (value : UInt8) :
    (i count : Nat) → Outcome Error (List UInt8 × Nat)
  | _, 0 => .ok ([], 0)
  | i, count + 1 => do
      let pos ← bodyLen t i
      let fieldAt ← add t pos field
      let byte ← index blob fieldAt
      if byte ≠ value then
        let slot ← rangeFrom t blob pos slotLen
        let (keep, kept) ← keepSlots blob field value (i + 1) count
        return (slot ++ keep, kept + 1)
      else keepSlots blob field value (i + 1) count

/-- `strip_kind`. -/
def stripKind (blob : List UInt8) (dek : Vector UInt8 32) (kind : UInt8) : Outcome Error (List UInt8) := do
  let n ← parse t blob
  let (keep, kept) ← keepSlots t blob 1 kind 0 n
  if kept = 0 then .error .format
  else if kept = n then return blob
  else
    let generation ← readGeneration t blob
    rebuildGen t P blob dek keep kept generation

/-- The slots of a blob with one more behind them. -/
def appendSlot (blob : List UInt8) (dek : Vector UInt8 32) (n : Nat) (slot : List UInt8) :
    Outcome Error (List UInt8) := do
  let stop ← bodyLen t n
  let keep ← range blob headerLen stop
  let count ← add t n 1
  rebuild t P blob dek (keep ++ slot) count

/-- `add_passkey_slot`. -/
def addPasskeySlot (blob : List UInt8) (dek : Vector UInt8 32) (prfOutput : List UInt8)
    (nonce : Option (Vector UInt8 24)) : Outcome Error (List UInt8) := do
  let n ← parse t blob
  let kekId ← nextKekId t blob n
  let slot ← wrapSlot P dek (kekFromPrf P prfOutput) kekId kindPasskey nonce
  appendSlot t P blob dek n slot

/-- `add_recovery_slot`. -/
def addRecoverySlot (blob : List UInt8) (dek : Vector UInt8 32) (recoveryCode : List Char)
    (nonce : Option (Vector UInt8 24)) : Outcome Error (List UInt8) := do
  let n ← parse t blob
  let salt ← rangeFrom t blob saltOff saltLen
  let kek ← kekFromRecovery P recoveryCode salt
  let kekId ← nextKekId t blob n
  let slot ← wrapSlot P dek kek kekId kindRecovery nonce
  appendSlot t P blob dek n slot

/-- `remove_slot`. -/
def removeSlot (blob : List UInt8) (dek : Vector UInt8 32) (kekId : UInt8) : Outcome Error (List UInt8) := do
  let n ← parse t blob
  if n ≤ 1 then .error .format
  else
    let (keep, kept) ← keepSlots t blob 0 kekId 0 n
    if kept = n then .error .format else rebuild t P blob dek keep kept

/-- `set_generation`. -/
def setGeneration (blob : List UInt8) (gen : UInt64) (dek : Vector UInt8 32) : Outcome Error (List UInt8) := do
  let n ← parse t blob
  let stop ← add t genOff genLen
  let blob ← copyInto blob genOff stop (toLe genLen gen.toNat)
  let bodyEnd ← bodyLen t n
  let body ← range blob 0 bodyEnd
  let mac := computeMac P body dek.toList
  let macEnd ← add t bodyEnd macLen
  copyInto blob bodyEnd macEnd mac.toList

/-- What `rotate_envelope` draws. -/
structure RotateDraws where
  salt : Option (Vector UInt8 16)
  nonce : Option (Vector UInt8 24)
  entropy : Option (Vector UInt8 16)
  recoveryNonce : Option (Vector UInt8 24)

/-- `rotate_envelope`. The generation is read before the framing is checked. -/
def rotateEnvelope (oldBlob : List UInt8) (newDek : Vector UInt8 32) (survivingPrf : List UInt8)
    (draws : RotateDraws) : Outcome Error (List UInt8 × List Char) := do
  let oldGen ← readGeneration t oldBlob
  let _ ← parse t oldBlob
  let env ← createEnvelope P newDek survivingPrf draws.salt draws.nonce
  let code ← RecoveryCode.generateRecoveryCode P .rng draws.entropy
  let env ← addRecoverySlot t P env newDek code draws.recoveryNonce
  let env ← setGeneration t P env (oldGen + 1) newDek
  return (env, code)

/-- The slots of `slot_infos`, from index `i` on. -/
def infosFrom (blob : List UInt8) : (i count : Nat) → Outcome Error (List (UInt8 × UInt8))
  | _, 0 => .ok []
  | i, count + 1 => do
      let pos ← bodyLen t i
      let kekId ← index blob pos
      let kind ← index blob (← add t pos 1)
      let rest ← infosFrom blob (i + 1) count
      return (kekId, kind) :: rest

/-- `slot_infos`. -/
def slotInfos (blob : List UInt8) : Outcome Error (List (UInt8 × UInt8)) :=
  match parse t blob with
  | .ok n => infosFrom t blob 0 n
  | .error _ => .ok []
  | .panic => .panic

/-- `mac_ok`. -/
def macOk (blob : List UInt8) (n : Nat) (dek : List UInt8) : Outcome Error Bool := do
  let bodyEnd ← bodyLen t n
  let body ← range blob 0 bodyEnd
  let mac ← rangeFrom t blob bodyEnd macLen
  return (computeMac P body dek).toList == mac

/-- The loop of `open_with_kek`, from slot `i` on. -/
def openSlots (kek : Vector UInt8 32) (blob : List UInt8) (n : Nat) :
    (i count : Nat) → Outcome Error (List UInt8)
  | _, 0 => .error .unlock
  | i, count + 1 => do
      let pos ← bodyLen t i
      let kekId ← index blob pos
      let kind ← index blob (← add t pos 1)
      let nonceAt ← add t pos 2
      let nonce ← rangeFrom t blob nonceAt nonceLen
      let ctAt ← add t nonceAt nonceLen
      let ct ← rangeFrom t blob ctAt dekLen
      let tagAt ← add t ctAt dekLen
      let stop ← add t pos slotLen
      let tag ← range blob tagAt stop
      let nonce ← array nonceLen nonce
      let tag ← array tagLen tag
      match P.decrypt kek nonce (slotAad kekId kind) ct tag with
      | some dek => do
          let authentic ← macOk t P blob n dek
          if authentic then return dek else .error .tamper
      | none => openSlots kek blob n (i + 1) count

/-- `open_with_kek`. -/
def openWithKek (blob : List UInt8) (kek : Vector UInt8 32) : Outcome Error (List UInt8) := do
  let n ← parse t blob
  openSlots t P kek blob n 0 n

/-- `open_with_prf`. -/
def openWithPrf (blob prfOutput : List UInt8) : Outcome Error (List UInt8) :=
  openWithKek t P blob (kekFromPrf P prfOutput)

/-- `open_with_recovery`. -/
def openWithRecovery (blob : List UInt8) (recoveryCode : List Char) : Outcome Error (List UInt8) := do
  let _ ← parse t blob
  let salt ← rangeFrom t blob saltOff saltLen
  let kek ← kekFromRecovery P recoveryCode salt
  openWithKek t P blob kek

section InRange

variable {t} {P} {bytes blob : List UInt8} {pos len n i count : Nat}

theorem add_ok {a b : Nat} (small : a + b < 2 ^ 32) : add t a b = .ok (a + b) :=
  addUsize_eq (Nat.lt_of_lt_of_le small (Nat.pow_le_pow_right Nat.two_pos t.le_usizeBits))

theorem bodyLen_ok (few : n ≤ 256) : bodyLen t n = .ok (36 + n * 74) := by
  have wide : 2 ^ 32 ≤ 2 ^ t.usizeBits := Nat.pow_le_pow_right Nat.two_pos t.le_usizeBits
  have small : n * slotLen < 2 ^ t.usizeBits := by
    show n * 74 < _
    omega
  rw [bodyLen, mulUsize, if_pos small, Outcome.ok_bind]
  apply add_ok
  show 36 + n * 74 < _
  omega

theorem index_ok (inside : pos < bytes.length) : index bytes pos = .ok (bytes.getD pos 0) := by
  rw [index, List.getElem?_eq_getElem inside, List.getD_eq_getElem _ _ inside]

theorem range_ok {lo hi : Nat} (ordered : lo ≤ hi) (inside : hi ≤ bytes.length) :
    range bytes lo hi = .ok (slice bytes lo (hi - lo)) := by
  rw [range, if_pos ⟨ordered, inside⟩, List.drop_take]
  rfl

theorem rangeFrom_ok (inside : pos + len ≤ bytes.length) (small : pos + len < 2 ^ 32) :
    rangeFrom t bytes pos len = .ok (slice bytes pos len) := by
  rw [rangeFrom, add_ok small, Outcome.ok_bind, range_ok (Nat.le_add_right _ _) inside,
    Nat.add_sub_cancel_left]

theorem copyInto_ok {lo hi : Nat} {src : List UInt8} (ordered : lo ≤ hi) (inside : hi ≤ bytes.length)
    (same : src.length = hi - lo) :
    copyInto bytes lo hi src = .ok (bytes.take lo ++ src ++ bytes.drop hi) :=
  if_pos ⟨ordered, inside, same⟩

theorem array_ok (length : bytes.length = n) : ∃ v : Vector UInt8 n, v.toList = bytes ∧
    array n bytes = .ok v := by
  refine ⟨⟨bytes.toArray, length⟩, rfl, ?_⟩
  rw [array, byteArray, dif_pos length]

theorem length_slice (inside : pos + len ≤ bytes.length) : (slice bytes pos len).length = len := by
  rw [slice, List.length_take, List.length_drop]
  omega

/-- What the framing check leaves of a blob with `n` slots. -/
structure Framed (blob : List UInt8) (n : Nat) : Prop where
  length : blob.length = 36 + n * 74 + 32
  few : n ≤ 255

/-- The check itself reads nothing that is not there. -/
theorem parse_eq (t : Target) (blob : List UInt8) : parse t blob =
    match EnvelopeWire.parse blob with
    | .ok n => .ok n
    | .error _ => .error .format := by
  unfold parse EnvelopeWire.parse
  by_cases short : blob.length < headerLen + macLen
  · rw [if_pos short, if_pos (Or.inl short)]
  · have long : 68 ≤ blob.length := Nat.le_of_not_lt short
    have front : slice blob 0 (8 - 0) = blob.take 8 := rfl
    rw [if_neg short, range_ok (Nat.zero_le 8) (by omega), Outcome.ok_bind, front]
    by_cases isMagic : blob.take 8 ≠ magic
    · rw [if_pos isMagic, if_pos (Or.inr (Or.inl isMagic))]
    · rw [if_neg isMagic, index_ok (by omega), Outcome.ok_bind]
      by_cases isVersion : blob.getD 8 0 ≠ version
      · rw [if_pos isVersion, if_pos (Or.inr (Or.inr isVersion))]
      · have count := (blob.getD 9 0).toNat_lt
        have total : (36 + (blob.getD 9 0).toNat * 74) + macLen < 2 ^ 32 := by
          show (36 + (blob.getD 9 0).toNat * 74) + 32 < _
          omega
        have framed : ¬(blob.length < headerLen + macLen ∨ blob.take 8 ≠ magic ∨ blob.getD 8 0 ≠ version) := by
          intro wrong
          exact wrong.elim short fun wrong => wrong.elim isMagic isVersion
        rw [if_neg isVersion, index_ok (by omega), Outcome.ok_bind, bodyLen_ok (by omega),
          Outcome.ok_bind, add_ok total, Outcome.ok_bind, if_neg framed]
        by_cases length : blob.length ≠ EnvelopeWire.bodyLen (blob.getD 9 0).toNat + macLen
        · simp only [if_pos length]
          exact if_pos length
        · simp only [if_neg length]
          exact if_neg length

theorem parse_meets (t : Target) (blob : List UInt8) : (parse t blob).Meets (Framed blob) := by
  rw [parse_eq, EnvelopeWire.parse]
  have count := (blob.getD 9 0).toNat_lt
  split
  · next n ok =>
      split at ok
      · cases ok
      · dsimp only at ok
        split at ok
        · cases ok
        · next length =>
            cases ok
            rw [not_not] at length
            exact ⟨length, by omega⟩
  · trivial

theorem readGeneration_ok (long : 36 ≤ blob.length) :
    readGeneration t blob = .ok (UInt64.ofNat (ofLe (slice blob genOff genLen))) := by
  rw [readGeneration, rangeFrom_ok (show 28 + 8 ≤ _ from long) (by decide), Outcome.ok_bind]
  rfl

/-- A blob shorter than a header has no generation to read. -/
theorem readGeneration_panic (short : blob.length < 36) : readGeneration t blob = .panic := by
  have outside : ¬(genOff ≤ genOff + genLen ∧ genOff + genLen ≤ blob.length) := by
    show ¬(28 ≤ 36 ∧ 36 ≤ blob.length)
    omega
  rw [readGeneration, rangeFrom, add_ok (by decide), Outcome.ok_bind, range, if_neg outside]
  rfl

end InRange

section Returns

variable {t} {P} {blob : List UInt8} {n i count : Nat} {dek kek : Vector UInt8 32}

/-- The code returns, with a value or an error. -/
abbrev Returns {α : Type} (x : Outcome Error α) : Prop := x.Meets fun _ => True

theorem Returns.bind {α β : Type} {x : Outcome Error α} {f : α → Outcome Error β} (first : Returns x)
    (second : ∀ value, Returns (f value)) : Returns (x >>= f) :=
  Outcome.Meets.bind first fun value _ => second value

theorem returns_okOr {α : Type} (reason : Error) (value : Option α) : Returns (okOr reason value) := by
  cases value <;> trivial

/-- Slot `i` of a framed blob lies in it, its bytes and sums too. -/
theorem Framed.slot (framed : Framed blob n) (inside : i < n) :
    36 + i * 74 + 74 ≤ blob.length ∧ 36 + i * 74 + 74 < 2 ^ 32 := by
  have length := framed.length
  have few := framed.few
  have whole : (i + 1) * 74 ≤ n * 74 := Nat.mul_le_mul_right 74 inside
  omega

theorem Framed.body (framed : Framed blob n) : 36 + n * 74 + 32 = blob.length ∧ blob.length < 2 ^ 32 := by
  have length := framed.length
  have few := framed.few
  omega

theorem maxKekId_returns (framed : Framed blob n) (inside : i + count ≤ n) (max : Option UInt8) :
    Returns (maxKekId t blob i count max) := by
  induction count generalizing i max with
  | zero => trivial
  | succ count ih =>
      have slot := framed.slot (by omega : i < n)
      have few := framed.few
      rw [maxKekId, bodyLen_ok (by omega), Outcome.ok_bind, index_ok (by omega), Outcome.ok_bind]
      exact ih (by omega) _

theorem nextKekId_returns (framed : Framed blob n) : Returns (nextKekId t blob n) :=
  Returns.bind (maxKekId_returns framed (by omega) none) fun _ => trivial

theorem wrapSlot_returns (P : Primitives) (dek kek : Vector UInt8 32) (kekId kind : UInt8)
    (nonce : Option (Vector UInt8 24)) : Returns (wrapSlot P dek kek kekId kind nonce) := by
  apply (returns_okOr _ nonce).bind
  intro nonce
  split <;> trivial

theorem kekFromRecovery_returns (P : Primitives) (code : List Char) (salt : List UInt8) :
    Returns (kekFromRecovery P code salt) := returns_okOr _ _

theorem rebuildGen_returns (long : 36 ≤ blob.length) (keep : List UInt8) (gen : UInt64) :
    Returns (rebuildGen t P blob dek keep count gen) := by
  have header := length_slice (show 0 + 36 ≤ blob.length by omega)
  rw [rebuildGen, range_ok (Nat.zero_le _) long, Outcome.ok_bind]
  dsimp only
  rw [add_ok (by decide), Outcome.ok_bind, copyInto_ok (by decide) _ _]
  · trivial
  · rw [List.length_set]
    exact Nat.le_of_eq header.symm
  · rw [length_toLe]
    rfl

theorem rebuild_returns (long : 36 ≤ blob.length) (keep : List UInt8) :
    Returns (rebuild t P blob dek keep count) := by
  rw [rebuild, readGeneration_ok long, Outcome.ok_bind]
  exact rebuildGen_returns long keep _

theorem keepSlots_returns (framed : Framed blob n) {field : Nat} (small : field < 74) (value : UInt8)
    (inside : i + count ≤ n) : Returns (keepSlots t blob field value i count) := by
  induction count generalizing i with
  | zero => trivial
  | succ count ih =>
      have slot := framed.slot (by omega : i < n)
      have few := framed.few
      have later : Returns (keepSlots t blob field value (i + 1) count) := ih (by omega)
      rw [keepSlots, bodyLen_ok (by omega), Outcome.ok_bind, add_ok (by omega), Outcome.ok_bind,
        index_ok (by omega), Outcome.ok_bind]
      split
      · rw [rangeFrom_ok slot.1 slot.2, Outcome.ok_bind]
        exact later.bind fun _ => trivial
      · exact later

theorem appendSlot_returns (framed : Framed blob n) (slot : List UInt8) :
    Returns (appendSlot t P blob dek n slot) := by
  have body := framed.body
  have few := framed.few
  rw [appendSlot, bodyLen_ok (by omega), Outcome.ok_bind,
    range_ok (show 36 ≤ _ by omega) (by omega), Outcome.ok_bind, add_ok (by omega), Outcome.ok_bind]
  exact rebuild_returns (by omega) _

theorem createEnvelope_returns (P : Primitives) (dek : Vector UInt8 32) (prf : List UInt8)
    (salt : Option (Vector UInt8 16)) (nonce : Option (Vector UInt8 24)) :
    Returns (createEnvelope P dek prf salt nonce) := by
  apply (returns_okOr _ salt).bind
  intro salt
  exact (wrapSlot_returns P dek _ 0 _ nonce).bind fun _ => trivial

theorem salt_ok (framed : Framed blob n) :
    rangeFrom t blob saltOff saltLen = .ok (slice blob saltOff saltLen) := by
  have body := framed.body
  apply rangeFrom_ok
  · show 12 + 16 ≤ _
    omega
  · decide

theorem addRecoverySlot_returns (t : Target) (P : Primitives) (blob : List UInt8)
    (dek : Vector UInt8 32) (code : List Char) (nonce : Option (Vector UInt8 24)) :
    Returns (addRecoverySlot t P blob dek code nonce) := by
  apply (parse_meets t blob).bind
  intro n framed
  rw [salt_ok framed, Outcome.ok_bind]
  apply (kekFromRecovery_returns P code _).bind
  intro kek
  apply (nextKekId_returns framed).bind
  intro kekId
  apply (wrapSlot_returns P dek kek kekId _ nonce).bind
  exact appendSlot_returns framed

theorem setGeneration_returns (t : Target) (P : Primitives) (blob : List UInt8) (gen : UInt64)
    (dek : Vector UInt8 32) : Returns (setGeneration t P blob gen dek) := by
  apply (parse_meets t blob).bind
  intro n framed
  have body := framed.body
  have few := framed.few
  have long : genOff + genLen ≤ blob.length := by
    show 36 ≤ _
    omega
  have digits : (toLe genLen gen.toNat).length = genOff + genLen - genOff := by rw [length_toLe]; rfl
  have same : (blob.take genOff ++ toLe genLen gen.toNat ++ blob.drop (genOff + genLen)).length =
      blob.length := by
    rw [List.length_append, List.length_append, List.length_take, List.length_drop, length_toLe]
    show min 28 _ + 8 + (_ - 36) = _
    change 36 ≤ _ at long
    omega
  rw [add_ok (by decide), Outcome.ok_bind, copyInto_ok (by decide) long digits, Outcome.ok_bind,
    bodyLen_ok (by omega), Outcome.ok_bind, range_ok (Nat.zero_le _) (by rw [same]; omega),
    Outcome.ok_bind]
  dsimp only
  rw [add_ok (by show _ + 32 < _; omega), Outcome.ok_bind,
    copyInto_ok (Nat.le_add_right _ _) (by rw [same]; show _ + 32 ≤ _; omega) (by simp)]
  trivial

theorem infosFrom_returns (framed : Framed blob n) (inside : i + count ≤ n) :
    Returns (infosFrom t blob i count) := by
  induction count generalizing i with
  | zero => trivial
  | succ count ih =>
      have slot := framed.slot (by omega : i < n)
      have few := framed.few
      have later : Returns (infosFrom t blob (i + 1) count) := ih (by omega)
      rw [infosFrom, bodyLen_ok (by omega), Outcome.ok_bind, index_ok (by omega), Outcome.ok_bind,
        add_ok (by omega), Outcome.ok_bind, index_ok (by omega), Outcome.ok_bind]
      exact later.bind fun _ => trivial

end Returns

section Open

variable {t} {blob : List UInt8} {n i count : Nat} {kek : Vector UInt8 32}

/-- What slot `i` decrypts to. -/
def unwrap (kek : Vector UInt8 32) (blob : List UInt8) (i : Nat) : Option (List UInt8) := do
  let pos := 36 + i * 74
  let nonce ← byteArray 24 (slice blob (pos + 2) 24)
  let tag ← byteArray 16 (slice blob (pos + 58) 16)
  P.decrypt kek nonce (slotAad (blob.getD pos 0) (blob.getD (pos + 1) 0)) (slice blob (pos + 26) 32) tag

/-- The MAC of a blob with `n` slots is the one `dek` gives. -/
def Authentic (blob : List UInt8) (n : Nat) (dek : List UInt8) : Prop :=
  (computeMac P (blob.take (36 + n * 74)) dek).toList = slice blob (36 + n * 74) 32

instance (blob : List UInt8) (n : Nat) (dek : List UInt8) : Decidable (Authentic P blob n dek) :=
  inferInstanceAs (Decidable (_ = _))

variable {P}

theorem macOk_ok (framed : Framed blob n) (dek : List UInt8) :
    macOk t P blob n dek = .ok (decide (Authentic P blob n dek)) := by
  have body := framed.body
  have few := framed.few
  have mac : rangeFrom t blob (36 + n * 74) macLen = .ok (slice blob (36 + n * 74) 32) :=
    rangeFrom_ok (show _ + 32 ≤ _ by omega) (show _ + 32 < _ by omega)
  rw [macOk, bodyLen_ok (by omega), Outcome.ok_bind, range_ok (Nat.zero_le _) (by omega),
    Outcome.ok_bind, mac, Outcome.ok_bind, Outcome.pure_eq, Outcome.ok.injEq, Bool.eq_iff_iff,
    beq_iff_eq, decide_eq_true_eq]
  rfl

/-- The loop takes the first slot that opens, and then asks the MAC. -/
theorem openSlots_eq (framed : Framed blob n) (inside : i + count ≤ n) :
    openSlots t P kek blob n i count =
      match (List.range' i count).findSome? (unwrap P kek blob) with
      | some dek => if Authentic P blob n dek then .ok dek else .error .tamper
      | none => .error .unlock := by
  induction count generalizing i with
  | zero => rfl
  | succ count ih =>
      have slot := framed.slot (by omega : i < n)
      have few := framed.few
      have nonce : rangeFrom t blob (36 + i * 74 + 2) nonceLen = .ok (slice blob (36 + i * 74 + 2) 24) :=
        rangeFrom_ok (show _ + 24 ≤ _ by omega) (show _ + 24 < _ by omega)
      have ct : rangeFrom t blob (36 + i * 74 + 26) dekLen = .ok (slice blob (36 + i * 74 + 26) 32) :=
        rangeFrom_ok (show _ + 32 ≤ _ by omega) (show _ + 32 < _ by omega)
      have tag : range blob (36 + i * 74 + 58) (36 + i * 74 + 74) =
          .ok (slice blob (36 + i * 74 + 58) 16) := by
        rw [range_ok (by omega) slot.1]
        congr 2
        omega
      have one : add t (36 + i * 74) 1 = .ok (36 + i * 74 + 1) := add_ok (by omega)
      have two : add t (36 + i * 74) 2 = .ok (36 + i * 74 + 2) := add_ok (by omega)
      have ctAt : add t (36 + i * 74 + 2) nonceLen = .ok (36 + i * 74 + 26) :=
        add_ok (show _ + 24 < _ by omega)
      have tagAt : add t (36 + i * 74 + 26) dekLen = .ok (36 + i * 74 + 58) :=
        add_ok (show _ + 32 < _ by omega)
      have stop : add t (36 + i * 74) slotLen = .ok (36 + i * 74 + 74) :=
        add_ok (show _ + 74 < _ by omega)
      have nonceLength := length_slice (by omega : 36 + i * 74 + 2 + 24 ≤ blob.length)
      have tagLength := length_slice (by omega : 36 + i * 74 + 58 + 16 ≤ blob.length)
      have nonceArray : array nonceLen (slice blob (36 + i * 74 + 2) 24) =
          .ok ⟨(slice blob (36 + i * 74 + 2) 24).toArray, nonceLength⟩ := by
        rw [array, byteArray, dif_pos nonceLength]
      have tagArray : array tagLen (slice blob (36 + i * 74 + 58) 16) =
          .ok ⟨(slice blob (36 + i * 74 + 58) 16).toArray, tagLength⟩ := by
        rw [array, byteArray, dif_pos tagLength]
      have opened : unwrap P kek blob i = P.decrypt kek
          ⟨(slice blob (36 + i * 74 + 2) 24).toArray, nonceLength⟩
          (slotAad (blob.getD (36 + i * 74) 0) (blob.getD (36 + i * 74 + 1) 0))
          (slice blob (36 + i * 74 + 26) 32)
          ⟨(slice blob (36 + i * 74 + 58) 16).toArray, tagLength⟩ := by
        simp only [unwrap, byteArray, dif_pos nonceLength, dif_pos tagLength]
        rfl
      rw [openSlots, bodyLen_ok (by omega), Outcome.ok_bind, index_ok (by omega), Outcome.ok_bind,
        one, Outcome.ok_bind, index_ok (by omega), Outcome.ok_bind]
      simp only [two, nonce, ctAt, ct, tagAt, stop, tag, nonceArray, tagArray, Outcome.ok_bind]
      rw [List.range'_succ, List.findSome?_cons, ← opened]
      cases unwrap P kek blob i with
      | none => exact ih (by omega)
      | some dek =>
          dsimp only
          rw [macOk_ok framed, Outcome.ok_bind]
          by_cases authentic : Authentic P blob n dek
          · simp [authentic]
          · simp [authentic]

theorem openWithKek_eq (framed : Framed blob n) (parsed : parse t blob = .ok n) :
    openWithKek t P blob kek =
      match (List.range' 0 n).findSome? (unwrap P kek blob) with
      | some dek => if Authentic P blob n dek then .ok dek else .error .tamper
      | none => .error .unlock := by
  rw [openWithKek, parsed, Outcome.ok_bind]
  exact openSlots_eq framed (by omega)

theorem openWithKek_returns (t : Target) (P : Primitives) (blob : List UInt8) (kek : Vector UInt8 32) :
    Returns (openWithKek t P blob kek) := by
  apply (parse_meets t blob).bind
  intro n framed
  rw [openSlots_eq framed (by omega)]
  split
  · split <;> trivial
  · trivial

theorem openWithRecovery_returns (t : Target) (P : Primitives) (blob : List UInt8) (code : List Char) :
    Returns (openWithRecovery t P blob code) := by
  apply (parse_meets t blob).bind
  intro n framed
  rw [salt_ok framed, Outcome.ok_bind]
  apply (kekFromRecovery_returns P code _).bind
  exact openWithKek_returns t P blob

end Open

/-- A call of a public function that takes an envelope, with its other arguments and what the
call draws. -/
inductive Call where
  | envelopeGeneration
  | checkFresh (floor : UInt64)
  | slotInfos
  | addPasskeySlot (dek : Vector UInt8 32) (prfOutput : List UInt8) (nonce : Option (Vector UInt8 24))
  | addRecoverySlot (dek : Vector UInt8 32) (recoveryCode : List Char) (nonce : Option (Vector UInt8 24))
  | removeSlot (dek : Vector UInt8 32) (kekId : UInt8)
  | stripKind (dek : Vector UInt8 32) (kind : UInt8)
  | rotateEnvelope (newDek : Vector UInt8 32) (survivingPrf : List UInt8) (draws : RotateDraws)
  | openWithPrf (prfOutput : List UInt8)
  | openWithRecovery (recoveryCode : List Char)

namespace Call

/-- The call on a blob; what it returns is left out. -/
def run (call : Call) (blob : List UInt8) : Outcome Error Unit :=
  match call with
  | envelopeGeneration => do let _ ← EnvelopeBytes.envelopeGeneration t blob
  | checkFresh floor => EnvelopeBytes.checkFresh t blob floor
  | slotInfos => do let _ ← EnvelopeBytes.slotInfos t blob
  | addPasskeySlot dek prfOutput nonce => do
      let _ ← EnvelopeBytes.addPasskeySlot t P blob dek prfOutput nonce
  | addRecoverySlot dek recoveryCode nonce => do
      let _ ← EnvelopeBytes.addRecoverySlot t P blob dek recoveryCode nonce
  | removeSlot dek kekId => do let _ ← EnvelopeBytes.removeSlot t P blob dek kekId
  | stripKind dek kind => do let _ ← EnvelopeBytes.stripKind t P blob dek kind
  | rotateEnvelope newDek survivingPrf draws => do
      let _ ← EnvelopeBytes.rotateEnvelope t P blob newDek survivingPrf draws
  | openWithPrf prfOutput => do let _ ← EnvelopeBytes.openWithPrf t P blob prfOutput
  | openWithRecovery recoveryCode => do let _ ← EnvelopeBytes.openWithRecovery t P blob recoveryCode

def isRotation : Call → Bool
  | rotateEnvelope .. => true
  | _ => false

variable {t} {P} {blob : List UInt8}

/-- A rotation returns when there is a header to read. -/
theorem rotateEnvelope_returns (long : 36 ≤ blob.length) (newDek : Vector UInt8 32)
    (survivingPrf : List UInt8) (draws : RotateDraws) :
    Returns (EnvelopeBytes.rotateEnvelope t P blob newDek survivingPrf draws) := by
  rw [EnvelopeBytes.rotateEnvelope, readGeneration_ok long, Outcome.ok_bind]
  apply Returns.bind ((parse_meets t blob).imp fun _ _ => trivial)
  intro _
  apply (createEnvelope_returns P newDek survivingPrf draws.salt draws.nonce).bind
  intro env
  have generated : Returns (RecoveryCode.generateRecoveryCode P Error.rng draws.entropy) := by
    cases draws.entropy with
    | none => trivial
    | some ent =>
        obtain ⟨run, _, made⟩ := RecoveryCode.generateRecoveryCode_ok P Error.rng ent
        rw [made]
        trivial
  apply generated.bind
  intro code
  apply (addRecoverySlot_returns t P env newDek code draws.recoveryNonce).bind
  intro env
  exact (setGeneration_returns t P env _ newDek).bind fun _ => trivial

theorem run_returns (call : Call) (long : call.isRotation = true → 36 ≤ blob.length) :
    Returns (call.run t P blob) := by
  have framed := parse_meets t blob
  cases call with
  | envelopeGeneration =>
      refine Returns.bind ?_ fun _ => trivial
      rw [EnvelopeBytes.envelopeGeneration]
      cases parsed : parse t blob with
      | ok n =>
          have body := (framed.of_ok parsed).body
          dsimp only
          rw [readGeneration_ok (by omega)]
          trivial
      | error reason => trivial
      | panic => exact absurd parsed framed.ne_panic
  | checkFresh floor =>
      apply framed.bind
      intro n framed
      have body := framed.body
      rw [readGeneration_ok (by omega), Outcome.ok_bind]
      split <;> trivial
  | slotInfos =>
      refine Returns.bind ?_ fun _ => trivial
      rw [EnvelopeBytes.slotInfos]
      cases parsed : parse t blob with
      | ok n => exact infosFrom_returns (framed.of_ok parsed) (by omega)
      | error reason => trivial
      | panic => exact absurd parsed framed.ne_panic
  | addPasskeySlot dek prfOutput nonce =>
      refine Returns.bind ?_ fun _ => trivial
      apply framed.bind
      intro n framed
      apply (nextKekId_returns framed).bind
      intro kekId
      apply (wrapSlot_returns P dek _ kekId _ nonce).bind
      exact appendSlot_returns framed
  | addRecoverySlot dek recoveryCode nonce =>
      exact (addRecoverySlot_returns t P blob dek recoveryCode nonce).bind fun _ => trivial
  | removeSlot dek kekId =>
      refine Returns.bind ?_ fun _ => trivial
      apply framed.bind
      intro n framed
      have body := framed.body
      split
      · trivial
      · apply (keepSlots_returns framed (by decide) kekId (by omega)).bind
        intro kept
        dsimp only
        split
        · trivial
        · exact rebuild_returns (by omega) _
  | stripKind dek kind =>
      refine Returns.bind ?_ fun _ => trivial
      apply framed.bind
      intro n framed
      have body := framed.body
      apply (keepSlots_returns framed (by decide) kind (by omega)).bind
      intro kept
      dsimp only
      split
      · trivial
      · split
        · trivial
        · rw [readGeneration_ok (by omega), Outcome.ok_bind]
          exact rebuildGen_returns (by omega) _ _
  | rotateEnvelope newDek survivingPrf draws =>
      exact (rotateEnvelope_returns (long rfl) newDek survivingPrf draws).bind fun _ => trivial
  | openWithPrf prfOutput => exact (openWithKek_returns t P blob _).bind fun _ => trivial
  | openWithRecovery recoveryCode =>
      exact (openWithRecovery_returns t P blob recoveryCode).bind fun _ => trivial

end Call

/-- A function of the module returns on a blob if and only if it is no rotation or the blob is as
long as a header. -/
theorem envelope_call_returns (t : Target) (P : Primitives) (call : Call) (blob : List UInt8) :
    call.run t P blob ≠ .panic ↔ (call.isRotation = true → headerLen ≤ blob.length) := by
  constructor
  · intro returned rotates
    by_contra short
    apply returned
    cases call with
    | rotateEnvelope newDek survivingPrf draws =>
        rw [Call.run, rotateEnvelope, readGeneration_panic (Nat.lt_of_not_le short), Outcome.panic_bind]
        rfl
    | _ => cases rotates
  · intro long
    exact (Call.run_returns call long).ne_panic

/-- A cipher that hides nothing. -/
def plainPrimitives : Primitives where
  sha256 _ := Vector.replicate 32 0
  hkdf _ _ := Vector.replicate 32 0
  hmac _ _ := Vector.replicate 32 0
  argon2id _ _ _ _ _ := some (Vector.replicate 32 0)
  encrypt _ _ _ buffer := (buffer, Vector.replicate 16 0)
  decrypt _ _ _ buffer _ := some buffer
  upper c := [c]

/-- Rotating an empty envelope panics. -/
theorem rotate_empty_panics :
    (Call.rotateEnvelope (Vector.replicate 32 0) [1] ⟨none, none, none, none⟩).run .wasm32 plainPrimitives [] =
      .panic := by
  rw [Call.run, rotateEnvelope, readGeneration_panic (by decide), Outcome.panic_bind]
  rfl

end Freehold.EnvelopeBytes
