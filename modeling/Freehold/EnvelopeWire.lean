import Freehold.CryptoWire
import Freehold.EnvelopeHistory

set_option autoImplicit false

namespace Freehold

open Cursor

namespace EnvelopeWire

/-- b"FREEHENV". -/
def magic : List UInt8 := utf8Bytes "FREEHENV"

def version : UInt8 := 3

abbrev saltLen : Nat := 16
abbrev genOff : Nat := 28
abbrev genLen : Nat := 8
/-- Magic, version, slot count, two reserved bytes, salt and generation. -/
abbrev headerLen : Nat := 36
/-- Id, kind, nonce, wrapped DEK and tag. -/
abbrev slotLen : Nat := 74
abbrev macLen : Nat := 32

def kekInfo : List UInt8 := utf8Bytes "freehold-kek-v1"
def macInfo : List UInt8 := utf8Bytes "freehold-envelope-mac-v1"

def slotAad (kekId kind : UInt8) : List UInt8 := utf8Bytes "freehold-envelope-v3" ++ [kekId, kind]

def bodyLen (slotCount : Nat) : Nat := headerLen + slotCount * slotLen

/-- `parse`. -/
def parse (blob : List UInt8) : Except EnvelopeError Nat :=
  if blob.length < headerLen + macLen ∨ blob.take 8 ≠ magic ∨ blob.getD 8 0 ≠ version then
    .error .format
  else
    let slotCount := (blob.getD 9 0).toNat
    if blob.length ≠ bodyLen slotCount + macLen then .error .format else .ok slotCount

def readGeneration (blob : List UInt8) : Nat := ofLe (slice blob genOff genLen)

def envelopeGeneration (blob : List UInt8) : Nat :=
  match parse blob with
  | .ok _ => readGeneration blob
  | .error _ => 0

variable (P : Primitives)

/-- `kek_from_prf` and `kek_from_recovery`, of a code that is normalized. -/
def kek : Kek → Option (Vector UInt8 32)
  | .prf output => some (P.hkdf output kekInfo)
  | .recovery code salt =>
      P.argon2id 19456 2 1 (DeviceCert.strBytes code) (toLe saltLen salt.toNat)

def computeMac (body dek : List UInt8) : Vector UInt8 32 := P.hmac (P.hkdf dek macInfo).toList body

def finalize (body dek : List UInt8) : List UInt8 := body ++ (computeMac P body dek).toList

/-- `rebuild_gen`. -/
def rebuildGen (blob dek keep : List UInt8) (count gen : Nat) : List UInt8 :=
  let header := (blob.take headerLen).set 9 (UInt8.ofNat count)
  finalize P (header.take genOff ++ toLe genLen gen ++ header.drop (genOff + genLen) ++ keep) dek

/-- The loop of `strip_kind`: the slots it keeps, from index `i` on. -/
def keepSlots (blob : List UInt8) (kind : UInt8) : (i count : Nat) → List (List UInt8)
  | _, 0 => []
  | i, count + 1 =>
      let slot := slice blob (headerLen + i * slotLen) slotLen
      if slot.getD 1 0 ≠ kind then slot :: keepSlots blob kind (i + 1) count
      else keepSlots blob kind (i + 1) count

/-- `strip_kind`. -/
def stripKind (blob dek : List UInt8) (kind : UInt8) : Except EnvelopeError (List UInt8) := do
  let n ← parse blob
  let keep := keepSlots blob kind 0 n
  if keep.length = 0 then .error .format
  else if keep.length = n then return blob
  else return rebuildGen P blob dek keep.flatten keep.length (readGeneration blob)

/-- The fields of a stored slot. -/
structure WireSlot where
  kekId : UInt8
  kind : UInt8
  nonce : Vector UInt8 24
  ct : Vector UInt8 32
  tag : Vector UInt8 16
  deriving DecidableEq

namespace WireSlot

def bytes (slot : WireSlot) : List UInt8 :=
  [slot.kekId, slot.kind] ++ slot.nonce.toList ++ slot.ct.toList ++ slot.tag.toList

@[simp] theorem length_bytes (slot : WireSlot) : slot.bytes.length = slotLen := by
  simp only [bytes, List.length_append, Vector.length_toList]
  rfl

@[simp] theorem getD_bytes (slot : WireSlot) : slot.bytes.getD 1 0 = slot.kind := rfl

end WireSlot

/-- The fields of a stored envelope. -/
structure Wire where
  reserved : Vector UInt8 2
  salt : Vector UInt8 16
  generation : Vector UInt8 8
  slots : List WireSlot
  mac : Vector UInt8 32

namespace Wire

def header (w : Wire) : List UInt8 :=
  magic ++ [version, UInt8.ofNat w.slots.length] ++ w.reserved.toList ++ w.salt.toList ++
    w.generation.toList

def slotBytes (w : Wire) : List UInt8 := w.slots.flatMap WireSlot.bytes

def body (w : Wire) : List UInt8 := w.header ++ w.slotBytes

def bytes (w : Wire) : List UInt8 := w.body ++ w.mac.toList

/-- The envelope with other slots and a MAC to go with them. -/
def withSlots (w : Wire) (slots : List WireSlot) (dek : List UInt8) : Wire :=
  let next := { w with slots := slots }
  { next with mac := computeMac P next.body dek }

variable {w : Wire}

theorem length_magic : magic.length = 8 := by decide +kernel

@[simp] theorem length_header (w : Wire) : w.header.length = headerLen := by
  simp only [header, List.length_append, length_magic, Vector.length_toList]
  rfl

theorem length_flatMap_bytes (slots : List WireSlot) :
    (slots.flatMap WireSlot.bytes).length = slots.length * slotLen := by
  induction slots with
  | nil => rfl
  | cons slot slots ih =>
      rw [List.flatMap_cons, List.length_append, ih, WireSlot.length_bytes, List.length_cons,
        Nat.succ_mul, Nat.add_comm]

@[simp] theorem length_body (w : Wire) : w.body.length = bodyLen w.slots.length := by
  rw [body, List.length_append, length_header, slotBytes, length_flatMap_bytes, bodyLen]

theorem length_bytes (w : Wire) : w.bytes.length = bodyLen w.slots.length + macLen := by
  rw [bytes, List.length_append, length_body, Vector.length_toList]

theorem take_header (w : Wire) : w.bytes.take headerLen = w.header := by
  rw [bytes, body, List.append_assoc, ← w.length_header, List.take_left]

/-- The header is read field by field, whatever follows it. -/
theorem parse_append (w : Wire) (rest : List UInt8) (short : w.slots.length ≤ 255)
    (length : rest.length = w.slots.length * slotLen + macLen) :
    parse (w.header ++ rest) = .ok w.slots.length := by
  have count : (UInt8.ofNat w.slots.length).toNat = w.slots.length := by
    rw [UInt8.toNat_ofNat']
    omega
  have total : (w.header ++ rest).length = bodyLen w.slots.length + macLen := by
    rw [List.length_append, length_header, length, bodyLen, Nat.add_assoc]
  have isMagic : (w.header ++ rest).take 8 = magic := by
    simp only [header, List.append_assoc]
    exact List.take_left' length_magic
  have ninth : (w.header ++ rest).getD 8 0 = version := rfl
  have tenth : ((w.header ++ rest).getD 9 0).toNat = w.slots.length := count
  rw [parse, if_neg, tenth, if_neg (not_not_intro total)]
  rw [isMagic, ninth, total, bodyLen]
  simp

theorem parse_bytes (w : Wire) (short : w.slots.length ≤ 255) : parse w.bytes = .ok w.slots.length := by
  have rest : (w.slotBytes ++ w.mac.toList).length = w.slots.length * slotLen + macLen := by
    rw [List.length_append, slotBytes, length_flatMap_bytes, Vector.length_toList]
  have parsed := parse_append w _ short rest
  rwa [← List.append_assoc] at parsed

theorem readGeneration_bytes (w : Wire) : readGeneration w.bytes = ofLe w.generation.toList := by
  have front : (magic ++ [version, UInt8.ofNat w.slots.length] ++ w.reserved.toList ++
      w.salt.toList).length = genOff := by
    simp only [List.length_append, length_magic, Vector.length_toList]
    rfl
  have cut := slice_middle (magic ++ [version, UInt8.ofNat w.slots.length] ++ w.reserved.toList ++
    w.salt.toList) w.generation.toList (w.slotBytes ++ w.mac.toList)
  rw [front, Vector.length_toList] at cut
  rw [readGeneration, bytes, body, List.append_assoc]
  exact congrArg ofLe cut

/-- The loop keeps the slots of the other kinds. -/
theorem keepSlots_eq (kind : UInt8) (slots : List WireSlot) (before after : List UInt8) (i : Nat)
    (reached : before.length = headerLen + i * slotLen) :
    keepSlots (before ++ slots.flatMap WireSlot.bytes ++ after) kind i slots.length =
      (slots.filter fun slot => slot.kind ≠ kind).map WireSlot.bytes := by
  induction slots generalizing before i with
  | nil => rfl
  | cons slot slots ih =>
      have here : slice (before ++ (slot :: slots).flatMap WireSlot.bytes ++ after)
          (headerLen + i * slotLen) slotLen = slot.bytes := by
        have cut := slice_middle before slot.bytes (slots.flatMap WireSlot.bytes ++ after)
        rw [reached, WireSlot.length_bytes] at cut
        rw [List.flatMap_cons, List.append_assoc, List.append_assoc, ← List.append_assoc before]
        exact cut
      have later := ih (before ++ slot.bytes) (i + 1) (by
        rw [List.length_append, WireSlot.length_bytes, reached, Nat.succ_mul, Nat.add_assoc])
      rw [List.append_assoc before, ← List.flatMap_cons] at later
      rw [List.length_cons, keepSlots, here, WireSlot.getD_bytes, later, List.filter_cons]
      by_cases same : slot.kind = kind
      · simp [same]
      · simp [same]

/-- Rebuilding changes the slots, their number and the MAC. -/
theorem rebuildGen_bytes (w : Wire) (slots : List WireSlot) (dek : List UInt8) :
    rebuildGen P w.bytes dek (slots.map WireSlot.bytes).flatten slots.length
      (readGeneration w.bytes) = (w.withSlots P slots dek).bytes := by
  have counted : w.header.set 9 (UInt8.ofNat slots.length) =
      (magic ++ [version, UInt8.ofNat slots.length] ++ w.reserved.toList ++ w.salt.toList) ++
        w.generation.toList := rfl
  have front : (magic ++ [version, UInt8.ofNat slots.length] ++ w.reserved.toList ++
      w.salt.toList).length = genOff := by
    simp only [List.length_append, length_magic, Vector.length_toList]
    rfl
  have whole : ((magic ++ [version, UInt8.ofNat slots.length] ++ w.reserved.toList ++
      w.salt.toList) ++ w.generation.toList).length = genOff + genLen := by
    rw [List.length_append, front, Vector.length_toList]
  have digits : toLe genLen (ofLe w.generation.toList) = w.generation.toList := by
    have again := toLe_ofLe w.generation.toList
    rwa [Vector.length_toList] at again
  rw [rebuildGen, take_header, counted, readGeneration_bytes, digits, List.take_left' front,
    ← whole, List.drop_length, List.append_nil, ← List.flatMap_def]
  rfl

theorem stripKind_bytes (w : Wire) (short : w.slots.length ≤ 255) (dek : List UInt8) (kind : UInt8) :
    stripKind P w.bytes dek kind =
      let keep := w.slots.filter fun slot => slot.kind ≠ kind
      if keep = [] then .error .format
      else if keep = w.slots then .ok w.bytes
      else .ok (w.withSlots P keep dek).bytes := by
  have kept := keepSlots_eq kind w.slots w.header w.mac.toList 0 (by rw [length_header]; omega)
  have all : (w.slots.filter fun slot => slot.kind ≠ kind).length = w.slots.length ↔
      (w.slots.filter fun slot => slot.kind ≠ kind) = w.slots := by
    rw [List.filter_eq_self, List.length_filter_eq_length_iff]
  have whole : w.header ++ w.slots.flatMap WireSlot.bytes ++ w.mac.toList = w.bytes := rfl
  rw [whole] at kept
  unfold stripKind
  rw [parse_bytes w short]
  simp only [bind, Except.bind, kept, List.length_map, List.length_eq_zero_iff, all]
  rw [rebuildGen_bytes]
  rfl

end Wire

/-- `wire` is what is stored of a slot. The AEAD is taken as ideal on it: the key `k` derives does
not open it if it is a recovery slot of another key. -/
structure WireSlot.Stores (k : Kek) (slot : Slot) (wire : WireSlot) : Prop where
  kekId : wire.kekId = slot.kekId
  kind : wire.kind = slot.kind
  wrapped : ∀ key ids dek, slot.wrapped = .sealed key ids dek → ∃ kekBytes, kek P key = some kekBytes ∧
    P.encrypt kekBytes wire.nonce (slotAad ids.1 ids.2) (dekBytes dek) = (wire.ct.toList, wire.tag)
  apart : slot.kind = kindRecovery → slot.wrapped.key? ≠ some k → ∀ kekBytes, kek P k = some kekBytes →
    P.decrypt kekBytes wire.nonce (slotAad wire.kekId wire.kind) wire.ct.toList wire.tag = none

/-- `w` is what is stored of an envelope. -/
structure Wire.Stores (k : Kek) (env : Envelope) (w : Wire) : Prop where
  slots : List.Forall₂ (WireSlot.Stores P k) env.body.slots w.slots
  salt : w.salt.toList = toLe saltLen env.body.envSalt.toNat
  generation : w.generation.toList = toLe genLen env.body.generation
  mac : ∀ dek, env.IssuedUnder dek → w.mac = computeMac P w.body (dekBytes dek)

namespace Wire

variable {P} {k : Kek} {env next : Envelope} {w : Wire} {dek : Dek} {kind : UInt8}

theorem Stores.length (stores : w.Stores P k env) : w.slots.length = env.body.slots.length :=
  stores.slots.length_eq.symm

theorem Stores.filter (stores : w.Stores P k env) (kind : UInt8) :
    List.Forall₂ (WireSlot.Stores P k) (env.body.slots.filter fun slot => slot.kind ≠ kind)
      (w.slots.filter fun slot => slot.kind ≠ kind) := by
  refine List.rel_filter (fun slot wire stored => ?_) stores.slots
  show decide (slot.kind ≠ kind) = true ↔ decide (wire.kind ≠ kind) = true
  rw [stored.kind]

/-- Stripping the bytes gives the bytes of the stripped envelope. -/
theorem Stores.stripKind (stores : w.Stores P k env) (issued : env.IssuedUnder dek)
    (stripped : env.stripKind dek kind = .ok next) :
    ∃ w' : Wire, EnvelopeWire.stripKind P w.bytes (dekBytes dek) kind = .ok w'.bytes ∧
      w'.Stores P k next := by
  obtain ⟨short, some_left, rfl⟩ := Envelope.stripKind_ok.mp stripped
  have kept := stores.filter kind
  have counts := kept.length_eq
  have length := stores.length
  have nonempty : (w.slots.filter fun slot => slot.kind ≠ kind) ≠ [] := by
    intro empty
    rw [empty, List.length_nil, List.length_eq_zero_iff] at counts
    exact some_left counts
  have all : (w.slots.filter fun slot => slot.kind ≠ kind) = w.slots ↔
      (env.body.slots.filter fun slot => slot.kind ≠ kind) = env.body.slots := by
    rw [List.filter_eq_self, List.filter_eq_self, ← List.length_filter_eq_length_iff,
      ← List.length_filter_eq_length_iff, ← counts, length]
  rw [stripKind_bytes P w (by omega)]
  simp only [nonempty, if_false, all]
  split
  · exact ⟨w, rfl, stores⟩
  · refine ⟨_, rfl, kept, stores.salt, stores.generation, ?_⟩
    intro dek' issued'
    have same : dek' = dek := issued'.unique rfl
    subst same
    rfl

end Wire

end EnvelopeWire

end Freehold
