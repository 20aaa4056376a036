import Freehold.DeviceCert
import Freehold.Relay

set_option autoImplicit false

namespace Freehold

open Cursor

namespace RelayAuth

def authInfoPrefix : List UInt8 := utf8Bytes "freehold-sync-relay-auth-v1"
def syncIdLabel : List UInt8 := utf8Bytes "freehold-sync-id-v1"
def msgDomain : List UInt8 := utf8Bytes "freehold-relay-auth-v1"

def methodPush : UInt8 := 1
def methodList : UInt8 := 2
def methodGet : UInt8 := 3
def methodSubscribe : UInt8 := 4

variable (ed : Ed25519) (hkdf : Vector UInt8 32 → List UInt8 → Seed)
  (sha256 : List UInt8 → Vector UInt8 32)

def signingSeed (dek : Vector UInt8 32) (dbUuid : Vector UInt8 16) : Seed :=
  hkdf dek (authInfoPrefix ++ dbUuid.toList)

def publicKey (dek : Vector UInt8 32) (dbUuid : Vector UInt8 16) : PublicKey :=
  ed.publicKey (signingSeed hkdf dek dbUuid)

def syncIdFromPubkey (pubkey : PublicKey) : Vector UInt8 16 :=
  (sha256 (syncIdLabel ++ pubkey.toList)).take 16

/-- The bytes that are signed. A length of four gigabytes or more is cut to 32 bits. -/
def canonicalMessage (method : UInt8) (syncId : Vector UInt8 16) (arg : List UInt8) : List UInt8 :=
  msgDomain ++ [method] ++ syncId.toList ++ toLe 4 (arg.length % 2 ^ 32) ++ arg

def sign (dek : Vector UInt8 32) (dbUuid : Vector UInt8 16) (method : UInt8) (arg : List UInt8) :
    PublicKey × Signature :=
  let seed := signingSeed hkdf dek dbUuid
  let pubkey := ed.publicKey seed
  let sid := syncIdFromPubkey sha256 pubkey
  let msg := canonicalMessage method sid arg
  (pubkey, ed.sign seed msg)

def verify (pubkey : PublicKey) (method : UInt8) (arg : List UInt8) (sig : Signature) : Bool :=
  if ed.decodes pubkey then
    let sid := syncIdFromPubkey sha256 pubkey
    let msg := canonicalMessage method sid arg
    ed.verifyStrict pubkey msg sig
  else false

/-- The operation a method of the server is signed as. -/
def code : Relay.Method → UInt8
  | .pushBlob => methodPush
  | .listBlobs => methodList
  | .getBlob => methodGet
  | .subscribe => methodSubscribe

theorem toLe_mod (n : Nat) : toLe 4 (n % 2 ^ 32) = toLe 4 n := by
  apply ofLe_injective
  · simp
  · have small : n % 2 ^ 32 < 256 ^ 4 := Nat.mod_lt n (by decide)
    rw [ofLe_toLe small]
    simp only [toLe, ofLe, UInt8.toNat_ofNat']
    omega

/-- The server writes the same bytes. -/
theorem canonicalMessage_eq (method : Relay.Method) (syncId : Vector UInt8 16) (arg : List UInt8) :
    Relay.canonicalMessage method syncId.toList arg = canonicalMessage (code method) syncId arg := by
  rw [Relay.canonicalMessage, canonicalMessage, toLe_mod]
  cases method <;> rfl

/-- The argument comes last, behind a fixed number of bytes. -/
theorem canonicalMessage_inj {method method' : UInt8} {syncId syncId' : Vector UInt8 16}
    {arg arg' : List UInt8} (same : canonicalMessage method syncId arg = canonicalMessage method' syncId' arg') :
    method = method' ∧ syncId = syncId' ∧ arg = arg' := by
  simp only [canonicalMessage, List.append_assoc, List.append_cancel_left_eq, List.cons_append,
    List.nil_append, List.cons.injEq] at same
  obtain ⟨methods, rest⟩ := same
  obtain ⟨ids, rest⟩ := List.append_inj rest (by simp)
  obtain ⟨_, args⟩ := List.append_inj rest (by simp)
  exact ⟨methods, Vector.toList_inj.mp ids, args⟩

end RelayAuth

namespace Attest

/-- b"freehold-vault-identity-v1". -/
def identityInfo : List UInt8 := utf8Bytes "freehold-vault-identity-v1"

def vaultIdentitySeed (hkdf : Vector UInt8 32 → List UInt8 → Seed) (dek : Vector UInt8 32) : Seed :=
  hkdf dek identityInfo

def attest (ed : Ed25519) (hkdf : Vector UInt8 32 → List UInt8 → Seed) (dek : Vector UInt8 32)
    (claim audience : List UInt8) (issuedAt expiry : UInt64) : Outcome Unit Signature :=
  attestWithSeed ed (vaultIdentitySeed hkdf dek) claim audience issuedAt expiry

theorem canonicalMessage_eq {claim audience msg : List UInt8} {issuedAt expiry : UInt64}
    (made : canonicalMessage claim audience issuedAt expiry = .ok msg) :
    claim.length < 256 ^ 2 ∧ audience.length < 256 ^ 2 ∧
      msg = attestDomain ++ (toLe 2 claim.length ++ (claim ++ (toLe 2 audience.length ++ (audience ++
        (toLe 8 issuedAt.toNat ++ toLe 8 expiry.toNat))))) := by
  by_cases short : claim.length ≤ 65535 ∧ audience.length ≤ 65535
  · rw [canonicalMessage, u16Len, if_pos short.1, Outcome.ok_bind, u16Len, if_pos short.2,
      Outcome.ok_bind, Outcome.pure_eq, Outcome.ok.injEq] at made
    refine ⟨by omega, by omega, ?_⟩
    rw [← made]
    simp only [List.append_assoc]
  · rw [canonicalMessage_panic issuedAt expiry short] at made
    cases made

/-- A prefix of two bytes tells where a field ends. -/
theorem field_inj {field field' rest rest' : List UInt8} (small : field.length < 256 ^ 2)
    (small' : field'.length < 256 ^ 2)
    (same : toLe 2 field.length ++ (field ++ rest) = toLe 2 field'.length ++ (field' ++ rest')) :
    field = field' ∧ rest = rest' := by
  obtain ⟨prefixes, fields⟩ := List.append_inj same (by simp)
  have lengths : field.length = field'.length := by
    rw [← ofLe_toLe small, prefixes, ofLe_toLe small']
  exact List.append_inj fields lengths

theorem canonicalMessage_inj {claim audience claim' audience' msg : List UInt8}
    {issuedAt expiry issuedAt' expiry' : UInt64}
    (made : canonicalMessage claim audience issuedAt expiry = .ok msg)
    (made' : canonicalMessage claim' audience' issuedAt' expiry' = .ok msg) :
    claim = claim' ∧ audience = audience' ∧ issuedAt = issuedAt' ∧ expiry = expiry' := by
  obtain ⟨claimShort, audienceShort, is⟩ := canonicalMessage_eq made
  obtain ⟨claimShort', audienceShort', is'⟩ := canonicalMessage_eq made'
  have wide : ∀ t : UInt64, t.toNat < 256 ^ 8 := fun t => Nat.lt_of_lt_of_le t.toNat_lt (by decide)
  have same := List.append_cancel_left (is.symm.trans is')
  obtain ⟨claims, same⟩ := field_inj claimShort claimShort' same
  obtain ⟨audiences, same⟩ := field_inj audienceShort audienceShort' same
  obtain ⟨issued, expires⟩ := List.append_inj same (by simp)
  have issued := congrArg ofLe issued
  have expires := congrArg ofLe expires
  rw [ofLe_toLe (wide _), ofLe_toLe (wide _), UInt64.toNat_inj] at issued expires
  exact ⟨claims, audiences, issued, expires⟩

end Attest

/-- No attestation begins like an operation of the relay. -/
theorem domains_apart {rest rest' : List UInt8} :
    Attest.attestDomain ++ rest ≠ RelayAuth.msgDomain ++ rest' := by
  intro same
  have front : ∀ {domain : List UInt8} (rest : List UInt8), 22 ≤ domain.length →
      (domain ++ rest).take 22 = domain.take 22 := by
    intro domain rest long
    rw [List.take_append_of_le_length long]
  have heads := congrArg (List.take 22) same
  rw [front rest (by decide +kernel), front rest' (by decide +kernel)] at heads
  revert heads
  decide +kernel

/-- A request that passes carries a signature for the message the server writes. -/
theorem Relay.verified_of_checks {sha256 : List UInt8 → Vector UInt8 32}
    {ed25519Verify : List UInt8 → List UInt8 → List UInt8 → Bool} {method : Relay.Method}
    {msg : Relay.Msg} {syncText pubText : Relay.Text}
    (passed : Relay.checks sha256 ed25519Verify method msg = .ok (syncText, pubText)) :
    ∃ sigText, msg.sig = some sigText ∧ ed25519Verify (Relay.bufferFrom pubText)
      (Relay.canonicalMessage method (Relay.bufferFrom syncText) (Relay.signedArg method msg))
      (Relay.bufferFrom sigText) = true := by
  unfold Relay.checks at passed
  split at passed
  · cases passed
  · split at passed
    · next syncText' _ _ _ pubText' sigText _ carried =>
        simp only at passed
        split at passed
        · cases passed
        · split at passed
          · cases passed
          · split at passed
            · cases passed
            · next verified =>
                cases passed
                refine ⟨sigText, (Option.filter_eq_some_iff.mp carried).1, ?_⟩
                simpa using verified
    · cases passed

/-- What a signature of the vault can be for. Device certificates are attestations. -/
inductive Statement where
  | attestation (claim audience : List UInt8) (issuedAt expiry : UInt64)
  | operation (method : UInt8) (syncId : Vector UInt8 16) (arg : List UInt8)
  deriving DecidableEq

namespace Statement

/-- The bytes that are signed. -/
def message : Statement → Outcome Unit (List UInt8)
  | attestation claim audience issuedAt expiry => Attest.canonicalMessage claim audience issuedAt expiry
  | operation method syncId arg => .ok (RelayAuth.canonicalMessage method syncId arg)

theorem attestation_ne_operation {claim audience arg msg : List UInt8} {issuedAt expiry : UInt64}
    {method : UInt8} {syncId : Vector UInt8 16}
    (made : Attest.canonicalMessage claim audience issuedAt expiry = .ok msg) :
    msg ≠ RelayAuth.canonicalMessage method syncId arg := by
  obtain ⟨_, _, is⟩ := Attest.canonicalMessage_eq made
  rw [is, RelayAuth.canonicalMessage]
  simp only [List.append_assoc]
  exact domains_apart

theorem message_inj {s s' : Statement} {msg : List UInt8} (made : s.message = .ok msg)
    (made' : s'.message = .ok msg) : s = s' := by
  cases s with
  | attestation claim audience issuedAt expiry =>
      cases s' with
      | attestation claim' audience' issuedAt' expiry' =>
          obtain ⟨rfl, rfl, rfl, rfl⟩ := Attest.canonicalMessage_inj made made'
          rfl
      | operation method syncId arg =>
          exact absurd (Outcome.ok.inj made').symm (attestation_ne_operation made)
  | operation method syncId arg =>
      cases s' with
      | attestation claim audience issuedAt expiry =>
          exact absurd (Outcome.ok.inj made).symm (attestation_ne_operation made')
      | operation method' syncId' arg' =>
          obtain ⟨rfl, rfl, rfl⟩ := RelayAuth.canonicalMessage_inj
            ((Outcome.ok.inj made).trans (Outcome.ok.inj made').symm)
          rfl

section Signatures

variable (ed : Ed25519) (hkdf : Vector UInt8 32 → List UInt8 → Seed)
  (sha256 : List UInt8 → Vector UInt8 32) (ed25519Verify : List UInt8 → List UInt8 → List UInt8 → Bool)

/-- The two places of the crate that sign. The seed of an attestation is the one of the vault
or, for a device certificate, the trust key. -/
inductive Signed : Statement → Signature → Prop where
  | attestation {seed : Seed} {claim audience : List UInt8} {issuedAt expiry : UInt64} {sig : Signature}
      (made : Attest.attestWithSeed ed seed claim audience issuedAt expiry = .ok sig) :
      Signed (.attestation claim audience issuedAt expiry) sig
  | operation {dek : Vector UInt8 32} {dbUuid : Vector UInt8 16} {method : UInt8} {arg : List UInt8}
      {pubkey : PublicKey} {sig : Signature}
      (made : RelayAuth.sign ed hkdf sha256 dek dbUuid method arg = (pubkey, sig)) :
      Signed (.operation method (RelayAuth.syncIdFromPubkey sha256 pubkey) arg) sig

/-- The three places that take a signature for a statement, under whatever public key. -/
inductive Verifies : Statement → Signature → Prop where
  | attestation {pubkey : PublicKey} {claim audience : List UInt8} {issuedAt expiry : UInt64}
      {sig : Signature} (accepted : Attest.verify ed pubkey claim audience issuedAt expiry sig = .ok true) :
      Verifies (.attestation claim audience issuedAt expiry) sig
  | operation {pubkey : PublicKey} {method : UInt8} {arg : List UInt8} {sig : Signature}
      (accepted : RelayAuth.verify ed sha256 pubkey method arg sig = true) :
      Verifies (.operation method (RelayAuth.syncIdFromPubkey sha256 pubkey) arg) sig
  | request {method : Relay.Method} {msg : Relay.Msg} {syncText pubText sigText : Relay.Text}
      {syncId : Vector UInt8 16} {sig : Signature}
      (accepted : Relay.checks sha256 ed25519Verify method msg = .ok (syncText, pubText))
      (named : Relay.bufferFrom syncText = syncId.toList) (carried : msg.sig = some sigText)
      (decoded : Relay.bufferFrom sigText = sig.toList) :
      Verifies (.operation (RelayAuth.code method) syncId (Relay.signedArg method msg)) sig

/-- Neither library verifies the signature for other bytes than these. -/
structure Binds (sig : Signature) (msg : List UInt8) : Prop where
  strict : ∀ pubkey other, ed.verifyStrict pubkey other sig = true → other = msg
  node : ∀ pubkey other, ed25519Verify pubkey other sig.toList = true → other = msg

variable {ed hkdf sha256 ed25519Verify} {s : Statement} {sig : Signature} {msg : List UInt8}

/-- What has been signed is the message of the statement. -/
theorem Signed.message_ok (signed : Signed ed hkdf sha256 s sig) : ∃ msg, s.message = .ok msg := by
  cases signed with
  | attestation made =>
      obtain ⟨msg, written, _⟩ := Outcome.bind_eq_ok.mp made
      exact ⟨msg, written⟩
  | operation made => exact ⟨_, rfl⟩

/-- A verifier that accepts has recomputed the message of the statement. -/
theorem Verifies.message_eq (verifies : Verifies ed sha256 ed25519Verify s sig)
    (binds : Binds ed ed25519Verify sig msg) : s.message = .ok msg := by
  cases verifies with
  | attestation accepted =>
      rw [Attest.verify] at accepted
      split at accepted
      · obtain ⟨other, written, result⟩ := Outcome.bind_eq_ok.mp accepted
        rw [message, written, binds.strict _ other (Outcome.ok.inj result)]
      · cases accepted
  | operation accepted =>
      rw [RelayAuth.verify] at accepted
      split at accepted
      · rw [message, binds.strict _ _ accepted]
      · cases accepted
  | request accepted named carried decoded =>
      obtain ⟨sigText, has, verified⟩ := Relay.verified_of_checks accepted
      rw [carried, Option.some.injEq] at has
      rw [← has, decoded, named, RelayAuth.canonicalMessage_eq] at verified
      rw [message, binds.node _ _ verified]

end Signatures

end Statement

section Sample

def sampleSeal : Signature := Vector.replicate 64 1

/-- One set of bytes has a signature of its own. -/
def singleScheme (signed : List UInt8) : Ed25519 where
  publicKey seed := seed
  sign _ msg := if msg = signed then sampleSeal else Vector.replicate 64 0
  decodes _ := true
  verifyStrict _ msg sig := decide (sig = sampleSeal → msg = signed)
  decodes_publicKey _ := rfl
  verifyStrict_sign _ msg := by
    apply decide_eq_true
    intro sealed
    by_cases same : msg = signed
    · exact same
    · rw [if_neg same] at sealed
      exact absurd sealed (by decide +kernel)

/-- A push of the byte 42 to the bucket that all keys have here. -/
def samplePushed : List UInt8 :=
  RelayAuth.canonicalMessage RelayAuth.methodPush (Vector.replicate 16 0) [42]

end Sample

end Freehold
