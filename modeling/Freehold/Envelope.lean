import Freehold.Crypto

set_option autoImplicit false

namespace Freehold

/-- What an unlock method presents: 32 secret bytes, or a recovery code as
`kek_from_recovery` normalizes it. -/
inductive Method where
  | prf (output : List UInt8)
  | recovery (code : List Char)
  deriving DecidableEq

/-- A key-encryption key, by what it is derived from. -/
inductive Kek where
  | prf (output : List UInt8)
  | recovery (code : List Char) (salt : BitVec 128)
  deriving DecidableEq

def kindPasskey : UInt8 := 0
def kindRecovery : UInt8 := 1
def kindDevice : UInt8 := 2

/-- One slot: the DEK wrapped under a method's KEK; the associated data binds both bytes. -/
structure Slot where
  kekId : UInt8
  kind : UInt8
  wrapped : Aead.Sealed Kek (UInt8 × UInt8) Dek
  deriving DecidableEq

/-- The header and the slots, which the MAC covers. -/
structure EnvelopeBody where
  envSalt : BitVec 128
  generation : Nat
  slots : List Slot
  deriving DecidableEq

/-- The blob: header, slots and MAC. The MAC is taken as ideal, so it is what it was
computed from, or bytes that verify under no DEK. -/
structure Envelope where
  body : EnvelopeBody
  mac : Option (Dek × EnvelopeBody)
  deriving DecidableEq

inductive EnvelopeError where
  | format
  | unlock
  | tamper
  deriving DecidableEq, Repr

def EnvelopeError.debug : EnvelopeError → String
  | .format => "Format"
  | .unlock => "Unlock"
  | .tamper => "Tamper"

/-- The count byte of the header: `count as u8`. -/
def EnvelopeBody.slotCount (body : EnvelopeBody) : UInt8 := UInt8.ofNat body.slots.length

namespace Envelope

/-- `parse`: the blob must be as long as the count byte says. -/
def parse (env : Envelope) : Except EnvelopeError Nat :=
  let slotCount := env.body.slotCount.toNat
  if env.body.slots.length = slotCount then .ok slotCount else .error .format

/-- `envelope_generation`: 0 on a malformed blob. -/
def generation (env : Envelope) : Nat :=
  match env.parse with
  | .ok _ => env.body.generation
  | .error _ => 0

def wrapSlot (dek : Dek) (kek : Kek) (kekId kind : UInt8) : Slot :=
  ⟨kekId, kind, .sealed kek (kekId, kind) dek⟩

/-- Appends the MAC under `dek`. -/
def finalize (body : EnvelopeBody) (dek : Dek) : Envelope := ⟨body, some (dek, body)⟩

/-- `next_kek_id`: one past the largest id, wrapping. -/
def nextKekId (slots : List Slot) : UInt8 :=
  match (slots.map fun slot => slot.kekId).max? with
  | some largest => largest + 1
  | none => 0

/-- `create_envelope_kind` with the random salt `envSalt`. -/
def createEnvelopeKind (envSalt : BitVec 128) (dek : Dek) (secret : List UInt8) (kind : UInt8) : Envelope :=
  finalize ⟨envSalt, 1, [wrapSlot dek (.prf secret) 0 kind]⟩ dek

/-- `create_envelope`. -/
def createEnvelope (envSalt : BitVec 128) (dek : Dek) (prfOutput : List UInt8) : Envelope :=
  createEnvelopeKind envSalt dek prfOutput kindPasskey

/-- `create_device_envelope`. -/
def createDeviceEnvelope (envSalt : BitVec 128) (dek : Dek) (secret : List UInt8) : Envelope :=
  createEnvelopeKind envSalt dek secret kindDevice

/-- `rebuild_gen`. -/
def rebuildGen (env : Envelope) (dek : Dek) (keep : List Slot) (gen : Nat) : Envelope :=
  finalize { env.body with slots := keep, generation := gen } dek

/-- `rebuild`: the generation is bumped. -/
def rebuild (env : Envelope) (dek : Dek) (keep : List Slot) : Envelope :=
  rebuildGen env dek keep (env.body.generation + 1)

/-- `strip_kind`: the generation stays. -/
def stripKind (env : Envelope) (dek : Dek) (kind : UInt8) : Except EnvelopeError Envelope := do
  let n ← env.parse
  let keep := env.body.slots.filter fun slot => slot.kind ≠ kind
  if keep.length = 0 then .error .format
  else if keep.length = n then return env
  else return rebuildGen env dek keep env.body.generation

/-- `add_passkey_slot`. -/
def addPasskeySlot (env : Envelope) (dek : Dek) (prfOutput : List UInt8) :
    Except EnvelopeError Envelope := do
  let _ ← env.parse
  let slot := wrapSlot dek (.prf prfOutput) (nextKekId env.body.slots) kindPasskey
  return rebuild env dek (env.body.slots ++ [slot])

/-- `add_recovery_slot`. -/
def addRecoverySlot (env : Envelope) (dek : Dek) (code : List Char) :
    Except EnvelopeError Envelope := do
  let _ ← env.parse
  let kek := Kek.recovery code env.body.envSalt
  let slot := wrapSlot dek kek (nextKekId env.body.slots) kindRecovery
  return rebuild env dek (env.body.slots ++ [slot])

/-- `remove_slot`. -/
def removeSlot (env : Envelope) (dek : Dek) (kekId : UInt8) : Except EnvelopeError Envelope := do
  let n ← env.parse
  if n ≤ 1 then .error .format
  else
    let keep := env.body.slots.filter fun slot => slot.kekId ≠ kekId
    if keep.length = n then .error .format else return rebuild env dek keep

/-- `set_generation`. -/
def setGeneration (env : Envelope) (gen : Nat) (dek : Dek) : Except EnvelopeError Envelope := do
  let _ ← env.parse
  return finalize { env.body with generation := gen } dek

/-- `rotate_envelope` with the random salt and recovery code it draws. -/
def rotateEnvelope (oldEnv : Envelope) (newDek : Dek) (survivingPrf : List UInt8)
    (envSalt : BitVec 128) (code : List Char) : Except EnvelopeError Envelope := do
  let _ ← oldEnv.parse
  let env ← addRecoverySlot (createEnvelope envSalt newDek survivingPrf) newDek code
  setGeneration env (oldEnv.body.generation + 1) newDek

/-- `mac_ok`. -/
def macOk (env : Envelope) (dek : Dek) : Bool := env.mac = some (dek, env.body)

/-- `open_with_kek`: the first slot that authenticates decides. -/
def openWithKek (env : Envelope) (kek : Kek) : Except EnvelopeError Dek := do
  let _ ← env.parse
  match env.body.slots.findSome? fun slot => slot.wrapped.openWith kek (slot.kekId, slot.kind) with
  | some dek => if env.macOk dek then .ok dek else .error .tamper
  | none => .error .unlock

/-- The key a method derives for this envelope. -/
def kekOf (envSalt : BitVec 128) : Method → Kek
  | .prf output => .prf output
  | .recovery code => .recovery code envSalt

/-- `open_with_prf` or `open_with_recovery`, by the method. -/
def openWith (env : Envelope) (method : Method) : Except EnvelopeError Dek :=
  env.openWithKek (kekOf env.body.envSalt method)

/-- The envelope is one issued under `dek`. -/
def IssuedUnder (env : Envelope) (dek : Dek) : Prop := env.mac = some (dek, env.body)

theorem parse_ok {env : Envelope} {n : Nat} :
    env.parse = .ok n ↔ n = env.body.slots.length ∧ env.body.slots.length ≤ 255 := by
  unfold parse EnvelopeBody.slotCount
  simp only [UInt8.toNat_ofNat']
  split
  · next exactly =>
      rw [Except.ok.injEq]
      omega
  · next differs =>
      refine iff_of_false (fun ok => by cases ok) ?_
      omega

theorem parse_bind_ok {α : Type} {env : Envelope} {next : Nat → Except EnvelopeError α} {a : α} :
    (env.parse >>= next) = .ok a ↔ env.body.slots.length ≤ 255 ∧ next env.body.slots.length = .ok a := by
  cases parsed : env.parse with
  | ok n =>
      obtain ⟨rfl, short⟩ := parse_ok.mp parsed
      exact ⟨fun ok => ⟨short, ok⟩, fun both => both.2⟩
  | error e =>
      refine iff_of_false (fun ok => by cases ok) ?_
      rintro ⟨short, _⟩
      rw [parse_ok.mpr ⟨rfl, short⟩] at parsed
      cases parsed

theorem generation_of_short {env : Envelope} (short : env.body.slots.length ≤ 255) :
    env.generation = env.body.generation := by
  rw [generation, parse_ok.mpr ⟨rfl, short⟩]

theorem generation_le (env : Envelope) : env.generation ≤ env.body.generation := by
  unfold generation
  cases env.parse with
  | ok n => exact Nat.le_refl _
  | error e => exact Nat.zero_le _

section Mutations

variable {env next : Envelope} {dek : Dek}

theorem addPasskeySlot_ok {prfOutput : List UInt8} : env.addPasskeySlot dek prfOutput = .ok next ↔
    env.body.slots.length ≤ 255 ∧ next = rebuild env dek (env.body.slots ++
      [wrapSlot dek (.prf prfOutput) (nextKekId env.body.slots) kindPasskey]) := by
  rw [addPasskeySlot, parse_bind_ok]
  apply and_congr_right
  exact fun _ => ⟨fun ok => (Except.ok.inj ok).symm, fun same => congrArg Except.ok same.symm⟩

theorem addRecoverySlot_ok {code : List Char} : env.addRecoverySlot dek code = .ok next ↔
    env.body.slots.length ≤ 255 ∧ next = rebuild env dek (env.body.slots ++
      [wrapSlot dek (.recovery code env.body.envSalt) (nextKekId env.body.slots) kindRecovery]) := by
  rw [addRecoverySlot, parse_bind_ok]
  apply and_congr_right
  exact fun _ => ⟨fun ok => (Except.ok.inj ok).symm, fun same => congrArg Except.ok same.symm⟩

theorem removeSlot_ok {kekId : UInt8} : env.removeSlot dek kekId = .ok next ↔
    env.body.slots.length ≤ 255 ∧ 1 < env.body.slots.length ∧
      (env.body.slots.filter fun slot => slot.kekId ≠ kekId).length ≠ env.body.slots.length ∧
      next = rebuild env dek (env.body.slots.filter fun slot => slot.kekId ≠ kekId) := by
  rw [removeSlot, parse_bind_ok]
  apply and_congr_right
  intro _
  simp only
  split
  · exact iff_of_false (fun ok => by cases ok) (by omega)
  · next several =>
      split
      · next none_gone =>
          refine iff_of_false (fun ok => by cases ok) ?_
          exact fun held => held.2.1 none_gone
      · next gone =>
          rw [eq_comm (a := next)]
          exact ⟨fun ok => ⟨by omega, gone, Except.ok.inj ok⟩, fun held => congrArg _ held.2.2⟩

/-- Stripping a kind that is not there gives the envelope back. -/
theorem stripKind_ok {kind : UInt8} : env.stripKind dek kind = .ok next ↔
    env.body.slots.length ≤ 255 ∧ (env.body.slots.filter fun slot => slot.kind ≠ kind) ≠ [] ∧
      next = if (env.body.slots.filter fun slot => slot.kind ≠ kind) = env.body.slots then env
        else rebuildGen env dek (env.body.slots.filter fun slot => slot.kind ≠ kind)
          env.body.generation := by
  rw [stripKind, parse_bind_ok]
  apply and_congr_right
  intro _
  simp only [List.length_eq_zero_iff]
  split
  · next orphaned => exact iff_of_false (fun ok => by cases ok) fun held => held.1 orphaned
  · next some_left =>
      have all : (env.body.slots.filter fun slot => slot.kind ≠ kind).length = env.body.slots.length ↔
          (env.body.slots.filter fun slot => slot.kind ≠ kind) = env.body.slots := by
        rw [List.filter_eq_self, List.length_filter_eq_length_iff]
      rw [eq_comm (a := next)]
      simp only [all]
      split
      · exact ⟨fun ok => ⟨some_left, Except.ok.inj ok⟩, fun held => congrArg _ held.2⟩
      · exact ⟨fun ok => ⟨some_left, Except.ok.inj ok⟩, fun held => congrArg _ held.2⟩

end Mutations

/-- What opens a parsed envelope: a slot authenticates and the MAC holds under its DEK. -/
theorem openWithKek_ok {env : Envelope} {kek : Kek} {dek : Dek} : env.openWithKek kek = .ok dek ↔
    env.body.slots.length ≤ 255 ∧ env.IssuedUnder dek ∧ (env.body.slots.findSome? fun slot =>
      slot.wrapped.openWith kek (slot.kekId, slot.kind)) = some dek := by
  rw [openWithKek, parse_bind_ok]
  apply and_congr_right
  intro _
  cases env.body.slots.findSome? fun slot => slot.wrapped.openWith kek (slot.kekId, slot.kind) with
  | none => exact iff_of_false (fun ok => by cases ok) fun both => by cases both.2
  | some found =>
      simp only [macOk, IssuedUnder, decide_eq_true_eq, Option.some.injEq]
      split
      · next verified =>
          rw [Except.ok.injEq]
          constructor
          · rintro rfl
            exact ⟨verified, rfl⟩
          · exact fun both => both.2
      · next forged =>
          refine iff_of_false (fun ok => by cases ok) ?_
          rintro ⟨issued, rfl⟩
          exact forged issued

/-- A method opens an envelope only to the DEK it was issued under. -/
theorem openWith_issued {env : Envelope} {method : Method} {dek : Dek}
    (ok : env.openWith method = .ok dek) : env.IssuedUnder dek :=
  (openWithKek_ok.mp ok).2.1

theorem openWith_short {env : Envelope} {method : Method} {dek : Dek}
    (ok : env.openWith method = .ok dek) : env.body.slots.length ≤ 255 :=
  (openWithKek_ok.mp ok).1

theorem IssuedUnder.unique {env : Envelope} {dek dek' : Dek} (issued : env.IssuedUnder dek)
    (issued' : env.IssuedUnder dek') : dek = dek' := by
  rw [IssuedUnder, issued, Option.some.injEq, Prod.mk.injEq] at issued'
  exact issued'.1

/-- What `rotate_envelope` makes of an envelope of generation `oldGen`. -/
def rotated (oldGen : Nat) (newDek : Dek) (survivingPrf : List UInt8) (envSalt : BitVec 128)
    (code : List Char) : Envelope :=
  finalize ⟨envSalt, oldGen + 1, [wrapSlot newDek (.prf survivingPrf) 0 kindPasskey,
    wrapSlot newDek (.recovery code envSalt) 1 kindRecovery]⟩ newDek

variable {oldEnv : Envelope} {newDek : Dek} {survivingPrf : List UInt8} {envSalt : BitVec 128}
  {code : List Char} {oldGen : Nat}

theorem rotateEnvelope_ok {env : Envelope} :
    rotateEnvelope oldEnv newDek survivingPrf envSalt code = .ok env ↔
      oldEnv.body.slots.length ≤ 255 ∧
        env = rotated oldEnv.body.generation newDek survivingPrf envSalt code := by
  have made : ((createEnvelope envSalt newDek survivingPrf).addRecoverySlot newDek code >>= fun env =>
      env.setGeneration (oldEnv.body.generation + 1) newDek) =
        .ok (rotated oldEnv.body.generation newDek survivingPrf envSalt code) := rfl
  rw [rotateEnvelope, parse_bind_ok, made, Except.ok.injEq, eq_comm (a := env)]

@[simp] theorem rotated_generation :
    (rotated oldGen newDek survivingPrf envSalt code).generation = oldGen + 1 := rfl

theorem rotated_issued : (rotated oldGen newDek survivingPrf envSalt code).IssuedUnder newDek := rfl

/-- The surviving passkey opens the rotated envelope. -/
theorem rotated_opens :
    (rotated oldGen newDek survivingPrf envSalt code).openWith (.prf survivingPrf) = .ok newDek := by
  rw [openWith, openWithKek_ok]
  refine ⟨?_, rotated_issued, ?_⟩
  · change 2 ≤ 255
    decide
  · simp [rotated, finalize, wrapSlot, kekOf]

/-- Rotation leaves no envelope of an other DEK behind. -/
theorem rotated_ne {dek : Dek} (issued : oldEnv.IssuedUnder dek) (fresh : newDek ≠ dek) :
    rotated oldGen newDek survivingPrf envSalt code ≠ oldEnv := by
  intro same
  have issued' : (rotated oldGen newDek survivingPrf envSalt code).IssuedUnder newDek := rotated_issued
  rw [same] at issued'
  exact fresh (issued'.unique issued)

end Envelope

end Freehold
