import Freehold.Lib.Words
import Freehold.SyncWire

set_option autoImplicit false

namespace Freehold

open Cursor

abbrev PublicKey := Vector UInt8 32
abbrev Signature := Vector UInt8 64
abbrev Seed := Vector UInt8 32

/-- The signature scheme the crate takes from a library. -/
structure Ed25519 where
  publicKey : Seed → PublicKey
  sign : Seed → List UInt8 → Signature
  /-- `VerifyingKey::from_bytes` returns a key. -/
  decodes : PublicKey → Bool
  verifyStrict : PublicKey → List UInt8 → Signature → Bool
  decodes_publicKey : ∀ seed, decodes (publicKey seed) = true
  verifyStrict_sign : ∀ seed msg, verifyStrict (publicKey seed) msg (sign seed msg) = true

/-- The length prefix of a field; `u16::try_from(len).expect(..)`. -/
def u16Len (n : Nat) : Outcome Unit (List UInt8) := if n ≤ 65535 then .ok (toLe 2 n) else .panic

namespace Attest

/-- b"freehold-attestation-v1". -/
def attestDomain : List UInt8 := utf8Bytes "freehold-attestation-v1"

/-- The bytes that are signed; a longer claim or audience does not get past the prefix. -/
def canonicalMessage (claim audience : List UInt8) (issuedAt expiry : UInt64) :
    Outcome Unit (List UInt8) := do
  let claimLen ← u16Len claim.length
  let audienceLen ← u16Len audience.length
  return attestDomain ++ claimLen ++ claim ++ audienceLen ++ audience ++
    toLe 8 issuedAt.toNat ++ toLe 8 expiry.toNat

def attestWithSeed (ed : Ed25519) (seed : Seed) (claim audience : List UInt8)
    (issuedAt expiry : UInt64) : Outcome Unit Signature := do
  let msg ← canonicalMessage claim audience issuedAt expiry
  return ed.sign seed msg

def verify (ed : Ed25519) (pubkey : PublicKey) (claim audience : List UInt8)
    (issuedAt expiry : UInt64) (sig : Signature) : Outcome Unit Bool :=
  if ed.decodes pubkey then do
    let msg ← canonicalMessage claim audience issuedAt expiry
    return ed.verifyStrict pubkey msg sig
  else .ok false

end Attest

/-- `<[u8; n]>::try_from(bytes)`. -/
def byteArray (n : Nat) (bytes : List UInt8) : Option (Vector UInt8 n) :=
  if length : bytes.length = n then some ⟨bytes.toArray, length⟩ else none

/-- `verify_attestation` as the page calls it. -/
def verifyAttestation (ed : Ed25519) (pubkey claim audience : List UInt8)
    (issuedAt expiry : UInt64) (sig : List UInt8) : Outcome Unit Bool :=
  match byteArray 32 pubkey, byteArray 64 sig with
  | some pk, some s => Attest.verify ed pk claim audience issuedAt expiry s
  | _, _ => .ok false

namespace DeviceCert

/-- The alphabet, in the order of the values. -/
def b64url : List UInt8 :=
  utf8Bytes "ABCDEFGHIJKLMNOPQRSTUVWXYZabcdefghijklmnopqrstuvwxyz0123456789-_"

/-- `B64URL[n]`. -/
def symbol (n : Nat) : Outcome Unit UInt8 :=
  match b64url[n]? with
  | some c => .ok c
  | none => .panic

/-- The 24 bits of a chunk; missing bytes are zero. -/
def chunkBits (chunk : List UInt8) : Nat :=
  (chunk.getD 0 0).toNat <<< 16 ||| (chunk.getD 1 0).toNat <<< 8 ||| (chunk.getD 2 0).toNat

/-- Three bytes or fewer. -/
def encodeChunk (chunk : List UInt8) : Outcome Unit (List UInt8) := do
  let n := chunkBits chunk
  let c0 ← symbol ((n >>> 18) &&& 0x3f)
  let c1 ← symbol ((n >>> 12) &&& 0x3f)
  let c2 ← if chunk.length > 1 then do pure [← symbol ((n >>> 6) &&& 0x3f)] else pure []
  let c3 ← if chunk.length > 2 then do pure [← symbol (n &&& 0x3f)] else pure []
  return [c0, c1] ++ c2 ++ c3

def base64urlEncode : List UInt8 → Outcome Unit (List UInt8)
  | b0 :: b1 :: b2 :: rest => do
      let head ← encodeChunk [b0, b1, b2]
      return head ++ (← base64urlEncode rest)
  | [] => .ok []
  | chunk => encodeChunk chunk

def symbolValue (c : UInt8) : Option Nat :=
  if 0x41 ≤ c ∧ c ≤ 0x5a then some (c.toNat - 0x41)
  else if 0x61 ≤ c ∧ c ≤ 0x7a then some (c.toNat - 0x61 + 26)
  else if 0x30 ≤ c ∧ c ≤ 0x39 then some (c.toNat - 0x30 + 52)
  else if c = 0x2d then some 62
  else if c = 0x5f then some 63
  else none

/-- Four symbols or fewer; a single one encodes no byte. -/
def decodeChunk (chunk : List UInt8) : Option (List UInt8) :=
  if chunk.length = 1 then none
  else do
    let acc ← chunk.foldlM (fun acc c => do return acc <<< 6 ||| (← symbolValue c)) 0
    let acc := acc <<< (6 * (4 - chunk.length))
    return [UInt8.ofNat (acc >>> 16)] ++
      (if chunk.length ≥ 3 then [UInt8.ofNat (acc >>> 8)] else []) ++
      (if chunk.length ≥ 4 then [UInt8.ofNat acc] else [])

def base64urlDecode : List UInt8 → Option (List UInt8)
  | c0 :: c1 :: c2 :: c3 :: rest => do
      let head ← decodeChunk [c0, c1, c2, c3]
      return head ++ (← base64urlDecode rest)
  | [] => some []
  | chunk => decodeChunk chunk

/-- The bytes of a string. -/
def strBytes (s : List Char) : List UInt8 := utf8Bytes (String.ofList s)

/-- `char::is_whitespace`. -/
def isWhitespace (c : Char) : Bool :=
  (0x9 ≤ c.toNat && c.toNat ≤ 0xd) || c.toNat = 0x20 || c.toNat = 0x85 || c.toNat = 0xa0 ||
    c.toNat = 0x1680 || (0x2000 ≤ c.toNat && c.toNat ≤ 0x200a) || c.toNat = 0x2028 ||
    c.toNat = 0x2029 || c.toNat = 0x202f || c.toNat = 0x205f || c.toNat = 0x3000

def trim (s : List Char) : List Char := Words.trim isWhitespace s

/-- Strings are ordered by their bytes. -/
def byteKey (s : List Char) : List Nat := (strBytes s).map UInt8.toNat

/-- The scopes of a list, each trimmed, sorted and once. -/
def canonicalScopes (caps : List (List Char)) : List (List Char) :=
  Words.dedup (Words.sortBy byteKey ((caps.map trim).filter fun s => !s.isEmpty))

def canonicalizeCaps (caps : List (List Char)) : List Char :=
  ['\n'].intercalate (canonicalScopes caps)

def capsWellFormed (capsCanon : List Char) : Bool :=
  if capsCanon.isEmpty then true
  else
    let scopes := capsCanon.splitOn '\n'
    if scopes.any fun s => s.isEmpty || trim s ≠ s then false
    else canonicalizeCaps scopes = capsCanon

structure CertFields where
  vaultTrustPubkey : PublicKey
  deviceId : List Char
  devicePubkey : PublicKey
  capsCanon : List Char
  issuedAt : UInt64
  expiry : UInt64
  deriving DecidableEq

def certDomain : List UInt8 := utf8Bytes "freehold-device-cert-v1"

def pushField (m bytes : List UInt8) : Outcome Unit (List UInt8) := do
  let len ← u16Len bytes.length
  return m ++ len ++ bytes

def canonicalClaimBytes (f : CertFields) : Outcome Unit (List UInt8) := do
  let m ← pushField certDomain f.vaultTrustPubkey.toList
  let m ← pushField m (strBytes f.deviceId)
  let m ← pushField m f.devicePubkey.toList
  let m ← pushField m (strBytes f.capsCanon)
  let m ← pushField m (toLe 8 f.issuedAt.toNat)
  pushField m (toLe 8 f.expiry.toNat)

variable {width : Nat}

/-- One field of a claim. The sums are plain ones. -/
def take : Read width Unit (List UInt8) := ⟨fun raw p => do
  let afterLen ← addUsize width p 2
  if afterLen > raw.bytes.length then .error ()
  else
    let b0 ← raw.index p
    let b1 ← raw.index (← addUsize width p 1)
    let len := ofLe [b0, b1]
    let p ← addUsize width p 2
    let stop ← addUsize width p len
    if stop > raw.bytes.length then .error ()
    else return (← raw.range p stop, stop)⟩

def takeKey : Read width Unit PublicKey := do
  let f ← take
  Read.lift (okOr () (byteArray 32 f))

def takeU64 : Read width Unit UInt64 := do
  let f ← take
  let bytes ← Read.lift (okOr () (byteArray 8 f))
  return UInt64.ofNat (ofLe bytes.toList)

/-- A field that has to be UTF-8. -/
def takeStr : Read width Unit (List Char) := do
  let f ← take
  let text ← Read.lift (okOr () (fromUtf8 f))
  return text.toList

def takeFields : Read width Unit CertFields := do
  let vaultTrustPubkey ← takeKey
  let deviceId ← takeStr
  let devicePubkey ← takeKey
  let capsCanon ← takeStr
  let issuedAt ← takeU64
  let expiry ← takeU64
  return ⟨vaultTrustPubkey, deviceId, devicePubkey, capsCanon, issuedAt, expiry⟩

/-- A vector of bytes; it cannot outgrow the address space. -/
def vec (width : Nat) (bytes : List UInt8) : Outcome Unit (Slice width) :=
  if fits : bytes.length < 2 ^ width then .ok ⟨bytes, fits⟩ else .panic

/-- No value is an error here. -/
def parseDeviceCertClaim (claim : Slice width) : Outcome Unit CertFields := do
  let decoded ← okOr () (base64urlDecode claim.bytes)
  let raw ← vec width decoded
  if raw.bytes.length < certDomain.length then .error ()
  else
    let domain ← raw.range 0 certDomain.length
    if domain ≠ certDomain then .error ()
    else
      let (fields, p) ← takeFields.run raw certDomain.length
      if p ≠ raw.bytes.length then .error () else return fields

def deviceIdLabel : List UInt8 := utf8Bytes "freehold-device-id-v1"

/-- `byte as char`, for the symbols of the alphabet. -/
def asChars (symbols : List UInt8) : List Char := symbols.map fun byte => Char.ofNat byte.toNat

/-- "dev_" and the first twelve bytes of the hash. -/
def deviceIdFromPubkey (sha256 : List UInt8 → Vector UInt8 32) (devicePubkey : PublicKey) :
    Outcome Unit (List Char) := do
  let d := sha256 (deviceIdLabel ++ devicePubkey.toList)
  return "dev_".toList ++ asChars (← base64urlEncode (d.toList.take 12))

/-- `base64url_encode(&canonical_claim_bytes(&fields))`. -/
def claimText (fields : CertFields) : Outcome Unit (List UInt8) := do
  base64urlEncode (← canonicalClaimBytes fields)

variable (ed : Ed25519) (sha256 : List UInt8 → Vector UInt8 32)

/-- `verify_device_cert`, check after check. -/
def verifyFields (vaultTrustPubkey : PublicKey) (certClaim : Slice width) (devicePubkey : PublicKey)
    (sig : Signature) (now : UInt64) (fields : CertFields) : Outcome Unit Bool :=
  if fields.vaultTrustPubkey ≠ vaultTrustPubkey ∨ fields.devicePubkey ≠ devicePubkey then .ok false
  else do
    let recomputed ← claimText fields
    if recomputed ≠ certClaim.bytes then return false
    else
      let deviceId ← deviceIdFromPubkey sha256 devicePubkey
      if fields.deviceId ≠ deviceId then return false
      else if !capsWellFormed fields.capsCanon then return false
      else
        let signed ← Attest.verify ed vaultTrustPubkey certClaim.bytes (strBytes fields.deviceId)
          fields.issuedAt fields.expiry sig
        if !signed then return false
        else return decide (fields.issuedAt ≤ now ∧ now ≤ fields.expiry)

def verify (vaultTrustPubkey : PublicKey) (certClaim : Slice width) (devicePubkey : PublicKey)
    (sig : Signature) (now : UInt64) : Outcome Unit Bool :=
  match parseDeviceCertClaim certClaim with
  | .ok fields => verifyFields ed sha256 vaultTrustPubkey certClaim devicePubkey sig now fields
  | .error _ => .ok false
  | .panic => .panic

/-- `verify_device_cert` as the page calls it. -/
def verifyDeviceCert (vaultTrustPubkey : List UInt8) (certClaim : Slice width)
    (devicePubkey sig : List UInt8) (now : UInt64) : Outcome Unit Bool :=
  match byteArray 32 vaultTrustPubkey, byteArray 32 devicePubkey, byteArray 64 sig with
  | some tk, some dk, some s => verify ed sha256 tk certClaim dk s now
  | _, _, _ => .ok false

def buildDeviceCertClaim (vaultTrustPubkey : PublicKey) (deviceId : List Char)
    (devicePubkey : PublicKey) (caps : List (List Char)) (issuedAt expiry : UInt64) :
    Outcome Unit (List UInt8) :=
  claimText ⟨vaultTrustPubkey, deviceId, devicePubkey, canonicalizeCaps caps, issuedAt, expiry⟩

/-- `issue_device_cert`: the claim and its signature under the trust seed. -/
def issue (trustSeed : Seed) (devicePubkey : PublicKey) (caps : List (List Char))
    (issuedAt expiry : UInt64) : Outcome Unit (List UInt8 × Signature) := do
  let trustPk := ed.publicKey trustSeed
  let deviceId ← deviceIdFromPubkey sha256 devicePubkey
  let claim ← buildDeviceCertClaim trustPk deviceId devicePubkey caps issuedAt expiry
  let sig ← Attest.attestWithSeed ed trustSeed claim (strBytes deviceId) issuedAt expiry
  return (claim, sig)

section Base64

theorem symbol_spec {n : Nat} (small : n < 64) :
    ∃ c, symbol n = .ok c ∧ symbolValue c = some n ∧ c < 128 := by
  have table : ∀ n : Fin 64, (match symbol n with
      | .ok c => decide (symbolValue c = some n.val ∧ c < 128)
      | _ => false) = true := by
    decide +kernel
  have entry := table ⟨n, small⟩
  cases found : symbol n with
  | ok c =>
      rw [found] at entry
      exact ⟨c, rfl, of_decide_eq_true entry⟩
  | error reason =>
      rw [found] at entry
      cases entry
  | panic =>
      rw [found] at entry
      cases entry

theorem sextet (n k : Nat) : (n >>> k) &&& 0x3f = n / 2 ^ k % 64 := by
  rw [Nat.shiftRight_eq_div_pow]
  exact Nat.and_two_pow_sub_one_eq_mod _ 6

theorem shift_or {a b k : Nat} (small : b < 2 ^ k) : a <<< k ||| b = a * 2 ^ k + b := by
  rw [← Nat.shiftLeft_add_eq_or_of_lt small, Nat.shiftLeft_eq]

theorem chunkBits_eq (chunk : List UInt8) :
    chunkBits chunk = (chunk.getD 0 0).toNat * 65536 + (chunk.getD 1 0).toNat * 256 +
      (chunk.getD 2 0).toNat := by
  have one := (chunk.getD 1 0).toNat_lt
  have two := (chunk.getD 2 0).toNat_lt
  rw [chunkBits, Nat.or_assoc, shift_or (by omega : (chunk.getD 2 0).toNat < 2 ^ 8),
    shift_or (by omega : (chunk.getD 1 0).toNat * 2 ^ 8 + (chunk.getD 2 0).toNat < 2 ^ 16)]
  omega

theorem ofNat_eq {n : Nat} {byte : UInt8} (same : n % 256 = byte.toNat) : UInt8.ofNat n = byte := by
  apply UInt8.toNat_inj.mp
  rw [UInt8.toNat_ofNat']
  exact same

theorem accumulate {chunk : List UInt8} {values : List Nat}
    (known : List.Forall₂ (fun c v => symbolValue c = some v ∧ v < 64) chunk values) (acc : Nat) :
    chunk.foldlM (fun acc c => do return acc <<< 6 ||| (← symbolValue c)) acc =
      some (values.foldl (fun acc v => acc * 64 + v) acc) := by
  induction known generalizing acc with
  | nil => rfl
  | @cons c v chunk values head _ ih =>
      rw [List.foldlM_cons, List.foldl_cons, head.1]
      show chunk.foldlM _ (acc <<< 6 ||| v) = _
      rw [shift_or (by have small := head.2; omega : v < 2 ^ 6)]
      exact ih _

/-- A symbol for six of the bits of a chunk. -/
theorem symbol_bits (n k : Nat) : ∃ c, symbol ((n >>> k) &&& 0x3f) = .ok c ∧
    (symbolValue c = some (n / 2 ^ k % 64) ∧ n / 2 ^ k % 64 < 64) ∧ c < 128 := by
  have small := Nat.mod_lt (n / 2 ^ k) (by omega : 64 > 0)
  obtain ⟨c, found, value, ascii⟩ := symbol_spec small
  exact ⟨c, by rw [sextet, found], ⟨value, small⟩, ascii⟩

/-- Symbols of a chunk, from which it can be read again. -/
structure ChunkEncodes (chunk symbols : List UInt8) : Prop where
  encode_eq : encodeChunk chunk = .ok symbols
  decode_eq : decodeChunk symbols = some chunk
  length_eq : symbols.length = chunk.length + 1
  ascii : ∀ c ∈ symbols, c < 128

theorem decodeChunk_eq {chunk : List UInt8} {values : List Nat} (several : chunk.length ≠ 1)
    (known : List.Forall₂ (fun c v => symbolValue c = some v ∧ v < 64) chunk values) {n : Nat}
    (number : values.foldl (fun acc v => acc * 64 + v) 0 * 2 ^ (6 * (4 - chunk.length)) = n) :
    decodeChunk chunk = some ([UInt8.ofNat (n / 65536)] ++
      (if chunk.length ≥ 3 then [UInt8.ofNat (n / 256)] else []) ++
      (if chunk.length ≥ 4 then [UInt8.ofNat n] else [])) := by
  unfold decodeChunk
  rw [if_neg several, accumulate known, ← number]
  simp only [Option.bind_eq_bind, Option.bind_some, Nat.shiftLeft_eq, Nat.shiftRight_eq_div_pow]
  rfl

theorem chunk_one (b0 : UInt8) : ∃ symbols, ChunkEncodes [b0] symbols := by
  have bits := chunkBits_eq [b0]
  have low := b0.toNat_lt
  have zero : ([b0].getD 1 0).toNat = 0 ∧ ([b0].getD 2 0).toNat = 0 ∧ [b0].getD 0 0 = b0 := ⟨rfl, rfl, rfl⟩
  rw [zero.1, zero.2.1, zero.2.2] at bits
  obtain ⟨c0, s0, v0, a0⟩ := symbol_bits (chunkBits [b0]) 18
  obtain ⟨c1, s1, v1, a1⟩ := symbol_bits (chunkBits [b0]) 12
  refine ⟨[c0, c1], ⟨?_, ?_, rfl, by simp [a0, a1]⟩⟩
  · show (symbol _ >>= fun c0 => symbol _ >>= fun c1 => Outcome.ok [c0, c1]) = _
    rw [s0, Outcome.ok_bind, s1, Outcome.ok_bind]
  · rw [decodeChunk_eq (by simp) (.cons v0 (.cons v1 .nil)) rfl]
    show some [UInt8.ofNat _] = _
    congr 2
    apply ofNat_eq
    simp only [List.foldl_cons, List.foldl_nil, List.length_cons, List.length_nil]
    omega

theorem chunk_two (b0 b1 : UInt8) : ∃ symbols, ChunkEncodes [b0, b1] symbols := by
  have bits := chunkBits_eq [b0, b1]
  have low := b0.toNat_lt
  have mid := b1.toNat_lt
  have read : ([b0, b1].getD 2 0).toNat = 0 ∧ [b0, b1].getD 1 0 = b1 ∧ [b0, b1].getD 0 0 = b0 :=
    ⟨rfl, rfl, rfl⟩
  rw [read.1, read.2.1, read.2.2] at bits
  obtain ⟨c0, s0, v0, a0⟩ := symbol_bits (chunkBits [b0, b1]) 18
  obtain ⟨c1, s1, v1, a1⟩ := symbol_bits (chunkBits [b0, b1]) 12
  obtain ⟨c2, s2, v2, a2⟩ := symbol_bits (chunkBits [b0, b1]) 6
  refine ⟨[c0, c1, c2], ⟨?_, ?_, rfl, by simp [a0, a1, a2]⟩⟩
  · simp [encodeChunk, s0, s1, s2]
  · rw [decodeChunk_eq (by simp) (.cons v0 (.cons v1 (.cons v2 .nil))) rfl]
    show some [UInt8.ofNat _, UInt8.ofNat _] = _
    congr 2
    · apply ofNat_eq
      simp only [List.foldl_cons, List.foldl_nil, List.length_cons, List.length_nil]
      omega
    · congr 1
      apply ofNat_eq
      simp only [List.foldl_cons, List.foldl_nil, List.length_cons, List.length_nil]
      omega

theorem chunk_three (b0 b1 b2 : UInt8) : ∃ symbols, ChunkEncodes [b0, b1, b2] symbols := by
  have bits := chunkBits_eq [b0, b1, b2]
  have low := b0.toNat_lt
  have mid := b1.toNat_lt
  have high := b2.toNat_lt
  have read : [b0, b1, b2].getD 2 0 = b2 ∧ [b0, b1, b2].getD 1 0 = b1 ∧ [b0, b1, b2].getD 0 0 = b0 :=
    ⟨rfl, rfl, rfl⟩
  rw [read.1, read.2.1, read.2.2] at bits
  obtain ⟨c0, s0, v0, a0⟩ := symbol_bits (chunkBits [b0, b1, b2]) 18
  obtain ⟨c1, s1, v1, a1⟩ := symbol_bits (chunkBits [b0, b1, b2]) 12
  obtain ⟨c2, s2, v2, a2⟩ := symbol_bits (chunkBits [b0, b1, b2]) 6
  obtain ⟨c3, s3, v3, a3⟩ := symbol_bits (chunkBits [b0, b1, b2]) 0
  rw [Nat.shiftRight_zero] at s3
  refine ⟨[c0, c1, c2, c3], ⟨?_, ?_, rfl, by simp [a0, a1, a2, a3]⟩⟩
  · simp [encodeChunk, s0, s1, s2, s3]
  · rw [decodeChunk_eq (by simp) (.cons v0 (.cons v1 (.cons v2 (.cons v3 .nil)))) rfl]
    show some [UInt8.ofNat _, UInt8.ofNat _, UInt8.ofNat _] = _
    congr 2
    · apply ofNat_eq
      simp only [List.foldl_cons, List.foldl_nil, List.length_cons, List.length_nil]
      omega
    · congr 1
      · apply ofNat_eq
        simp only [List.foldl_cons, List.foldl_nil, List.length_cons, List.length_nil]
        omega
      · congr 1
        apply ofNat_eq
        simp only [List.foldl_cons, List.foldl_nil, List.length_cons, List.length_nil]
        omega

/-- Every byte string has a text, and the text has these bytes. -/
theorem encode_round_trip (data : List UInt8) : ∃ text, base64urlEncode data = .ok text ∧
    base64urlDecode text = some data ∧ ∀ c ∈ text, c < 128 := by
  match data with
  | [] => exact ⟨[], rfl, rfl, by simp⟩
  | [b0] =>
      obtain ⟨symbols, chunk⟩ := chunk_one b0
      obtain ⟨c0, c1, rfl⟩ := List.length_eq_two.mp chunk.length_eq
      exact ⟨[c0, c1], chunk.encode_eq, chunk.decode_eq, chunk.ascii⟩
  | [b0, b1] =>
      obtain ⟨symbols, chunk⟩ := chunk_two b0 b1
      obtain ⟨c0, c1, c2, rfl⟩ := List.length_eq_three.mp chunk.length_eq
      exact ⟨[c0, c1, c2], chunk.encode_eq, chunk.decode_eq, chunk.ascii⟩
  | b0 :: b1 :: b2 :: rest =>
      obtain ⟨symbols, chunk⟩ := chunk_three b0 b1 b2
      obtain ⟨text, encoded, decoded, ascii⟩ := encode_round_trip rest
      match symbols, chunk.length_eq with
      | [c0, c1, c2, c3], _ =>
          refine ⟨c0 :: c1 :: c2 :: c3 :: text, ?_, ?_, ?_⟩
          · rw [base64urlEncode, chunk.encode_eq, Outcome.ok_bind, encoded]
            rfl
          · rw [base64urlDecode, chunk.decode_eq, decoded]
            rfl
          · intro c member
            have parts : c ∈ [c0, c1, c2, c3] ++ text := member
            rw [List.mem_append] at parts
            cases parts with
            | inl head => exact chunk.ascii c head
            | inr tail => exact ascii c tail

/-- Decoding makes four symbols three bytes. -/
theorem length_decodeChunk {chunk data : List UInt8} (decoded : decodeChunk chunk = some data)
    (few : chunk.length ≤ 4) (some_symbols : chunk ≠ []) : 4 * data.length ≤ 3 * chunk.length := by
  have positive := List.length_pos_iff.mpr some_symbols
  unfold decodeChunk at decoded
  split at decoded
  · cases decoded
  · next several =>
      obtain ⟨acc, _, returned⟩ := Option.bind_eq_some_iff.mp decoded
      cases returned
      simp only [List.length_append, List.length_cons, List.length_nil]
      split <;> split <;> simp only [List.length_cons, List.length_nil] <;> omega

theorem length_base64urlDecode {text data : List UInt8} (decoded : base64urlDecode text = some data) :
    4 * data.length ≤ 3 * text.length := by
  induction text using base64urlDecode.induct generalizing data with
  | case1 c0 c1 c2 c3 rest ih =>
      rw [base64urlDecode] at decoded
      obtain ⟨head, headDecoded, rest_eq⟩ := Option.bind_eq_some_iff.mp decoded
      obtain ⟨tail, tailDecoded, whole⟩ := Option.bind_eq_some_iff.mp rest_eq
      cases whole
      have first := length_decodeChunk headDecoded (by simp) (by simp)
      have second := ih tailDecoded
      simp only [List.length_append, List.length_cons, List.length_nil] at first ⊢
      omega
  | case2 =>
      cases decoded
      exact Nat.le_refl _
  | case3 chunk longer nonempty =>
      have short : chunk.length ≤ 4 := by
        match chunk, longer with
        | [], _ => simp
        | [_], _ => simp
        | [_, _], _ => simp
        | [_, _, _], _ => simp
        | c0 :: c1 :: c2 :: c3 :: rest, longer => exact absurd rfl (longer c0 c1 c2 c3 rest)
      have single : base64urlDecode chunk = decodeChunk chunk := by
        rw [base64urlDecode.eq_3 chunk longer nonempty]
      rw [single] at decoded
      exact length_decodeChunk decoded short nonempty

end Base64

section Claims

/-- One field as it is pushed. -/
def field (bytes : List UInt8) : List UInt8 := toLe 2 bytes.length ++ bytes

theorem pushField_eq {m bytes : List UInt8} (short : bytes.length ≤ 65535) :
    pushField m bytes = .ok (m ++ field bytes) := by
  rw [pushField, u16Len, if_pos short, Outcome.ok_bind, field, List.append_assoc]
  rfl

/-- Both strings are short enough for their prefix. -/
structure CertFields.Short (f : CertFields) : Prop where
  deviceId : (strBytes f.deviceId).length ≤ 65535
  capsCanon : (strBytes f.capsCanon).length ≤ 65535

def CertFields.body (f : CertFields) : List UInt8 :=
  field f.vaultTrustPubkey.toList ++ (field (strBytes f.deviceId) ++ (field f.devicePubkey.toList ++
    (field (strBytes f.capsCanon) ++ (field (toLe 8 f.issuedAt.toNat) ++
      field (toLe 8 f.expiry.toNat)))))

theorem canonicalClaimBytes_eq {f : CertFields} (short : f.Short) :
    canonicalClaimBytes f = .ok (certDomain ++ f.body) := by
  have key (pk : PublicKey) : pk.toList.length ≤ 65535 := by simp
  have time (t : UInt64) : (toLe 8 t.toNat).length ≤ 65535 := by simp
  rw [canonicalClaimBytes, pushField_eq (key _), Outcome.ok_bind, pushField_eq short.deviceId,
    Outcome.ok_bind, pushField_eq (key _), Outcome.ok_bind, pushField_eq short.capsCanon,
    Outcome.ok_bind, pushField_eq (time _), Outcome.ok_bind, pushField_eq (time _), CertFields.body]
  simp only [List.append_assoc]

theorem claimText_eq {f : CertFields} (short : f.Short) : ∃ text, claimText f = .ok text ∧
    base64urlDecode text = some (certDomain ++ f.body) ∧ ∀ c ∈ text, c < 128 := by
  obtain ⟨text, encoded, decoded, ascii⟩ := encode_round_trip (certDomain ++ f.body)
  exact ⟨text, by rw [claimText, canonicalClaimBytes_eq short, Outcome.ok_bind, encoded], decoded, ascii⟩

theorem length_toLe_two (n : Nat) : ∃ x y, toLe 2 n = [x, y] := ⟨_, _, rfl⟩

theorem reads_take {bytes : List UInt8} (short : bytes.length ≤ 65535) :
    Read.Reads (take : Read width Unit _) (field bytes) bytes := by
  intro raw p stop between
  obtain ⟨x, y, digits⟩ := length_toLe_two bytes.length
  have number : ofLe [x, y] = bytes.length := by
    rw [← digits]
    exact ofLe_toLe (by omega)
  have fits := between.stop_lt
  have spans := between.stop_eq
  have inside := between.stop_le
  have whole : field bytes = x :: y :: bytes := by
    rw [field, digits]
    rfl
  rw [whole] at between
  rw [whole, List.length_cons, List.length_cons] at spans
  have first : (raw.index p : Outcome Unit UInt8) = .ok x := between.index_eq
  have front : raw.Between p ([x] ++ (y :: bytes)) stop := between
  have rest : raw.Between (p + 1) ([y] ++ bytes) stop := front.split.2
  have second : (raw.index (p + 1) : Outcome Unit UInt8) = .ok y := rest.index_eq
  have content : raw.Between (p + 2) bytes stop := rest.split.2
  have cut : (raw.range (p + 2) stop : Outcome Unit _) = .ok bytes := content.range_eq
  have landing : p + 2 + bytes.length = stop := by omega
  simp only [take]
  rw [addUsize_eq (by omega), Outcome.ok_bind, if_neg (by omega), first, Outcome.ok_bind,
    addUsize_eq (by omega), Outcome.ok_bind, second, Outcome.ok_bind, number,
    Outcome.ok_bind, addUsize_eq (by omega), Outcome.ok_bind, landing, if_neg (by omega), cut]
  rfl

/-- With room for a length behind the end, taking a field does not overflow. -/
theorem take_meets {raw : Slice width} {p : Nat} (inside : p ≤ raw.bytes.length)
    (room : raw.bytes.length + 65538 < 2 ^ width) :
    ((take : Read width Unit _).run raw p).Meets fun out =>
      out.2 ≤ raw.bytes.length ∧ out.1.length ≤ 65535 := by
  simp only [take]
  rw [addUsize_eq (by omega), Outcome.ok_bind]
  split
  · trivial
  · next long =>
      rw [Slice.index_of_lt (by omega), Outcome.ok_bind, addUsize_eq (by omega), Outcome.ok_bind,
        Slice.index_of_lt (by omega), Outcome.ok_bind, Outcome.ok_bind]
      have small := ofLe_lt [raw.bytes[p], raw.bytes[p + 1]]
      simp only [List.length_cons, List.length_nil] at small
      rw [addUsize_eq (by omega), Outcome.ok_bind]
      split
      · trivial
      · next inside' =>
          have between := Slice.between_of_le (b := raw) (Nat.le_add_right (p + 2) _) (Nat.le_of_not_gt inside')
          have spans := between.stop_eq
          rw [between.range_eq]
          refine ⟨between.stop_le, ?_⟩
          dsimp only
          omega

/-- `.ok()?` never panics. -/
theorem okOr_meets {α : Type} (x : Option α) (P : α → Prop) (held : ∀ a, x = some a → P a) :
    (okOr () x).Meets P := by
  cases x with
  | none => trivial
  | some a => exact held a rfl

theorem takeKey_meets {raw : Slice width} {p : Nat} (inside : p ≤ raw.bytes.length)
    (room : raw.bytes.length + 65538 < 2 ^ width) :
    ((takeKey : Read width Unit _).run raw p).Meets fun out => out.2 ≤ raw.bytes.length := by
  rw [takeKey, Read.run_bind]
  apply (take_meets inside room).bind
  rintro ⟨f, stop⟩ ⟨within, _⟩
  apply (okOr_meets (byteArray 32 f) (fun _ => True) (fun _ _ => trivial)).bind
  intro _ _
  exact within

theorem takeU64_meets {raw : Slice width} {p : Nat} (inside : p ≤ raw.bytes.length)
    (room : raw.bytes.length + 65538 < 2 ^ width) :
    ((takeU64 : Read width Unit _).run raw p).Meets fun out => out.2 ≤ raw.bytes.length := by
  rw [takeU64, Read.run_bind]
  apply (take_meets inside room).bind
  rintro ⟨f, stop⟩ ⟨within, _⟩
  rw [Read.run_bind]
  apply Outcome.Meets.bind (P := fun out => out.2 = stop)
  · apply (okOr_meets (byteArray 8 f) (fun _ => True) (fun _ _ => trivial)).bind
    intro _ _
    rfl
  · rintro ⟨bytes, _⟩ rfl
    exact within

theorem takeStr_meets {raw : Slice width} {p : Nat} (inside : p ≤ raw.bytes.length)
    (room : raw.bytes.length + 65538 < 2 ^ width) :
    ((takeStr : Read width Unit _).run raw p).Meets fun out =>
      out.2 ≤ raw.bytes.length ∧ (strBytes out.1).length ≤ 65535 := by
  rw [takeStr, Read.run_bind]
  apply (take_meets inside room).bind
  rintro ⟨f, stop⟩ ⟨within, short⟩
  rw [Read.run_bind]
  apply Outcome.Meets.bind (P := fun out => out.2 = stop ∧ utf8Bytes out.1 = f)
  · apply (okOr_meets (fromUtf8 f) _ (fun text decoded => utf8Bytes_of_fromUtf8 decoded)).bind
    intro text same
    exact ⟨rfl, same⟩
  · rintro ⟨text, _⟩ ⟨rfl, rfl⟩
    refine ⟨within, ?_⟩
    rw [strBytes, String.ofList_toList]
    exact short

theorem takeFields_meets {raw : Slice width} {p : Nat} (inside : p ≤ raw.bytes.length)
    (room : raw.bytes.length + 65538 < 2 ^ width) :
    ((takeFields : Read width Unit _).run raw p).Meets fun out => out.1.Short := by
  simp only [takeFields, Read.run_bind]
  apply (takeKey_meets inside room).bind
  rintro ⟨tk, _⟩ inside
  apply (takeStr_meets inside room).bind
  rintro ⟨deviceId, _⟩ ⟨inside, idShort⟩
  apply (takeKey_meets inside room).bind
  rintro ⟨dk, _⟩ inside
  apply (takeStr_meets inside room).bind
  rintro ⟨caps, _⟩ ⟨inside, capsShort⟩
  apply (takeU64_meets inside room).bind
  rintro ⟨issuedAt, _⟩ inside
  apply (takeU64_meets inside room).bind
  rintro ⟨expiry, _⟩ _
  exact ⟨idShort, capsShort⟩

/-- Parsing any text of a claim does not panic. -/
theorem parse_meets (wide : 32 ≤ width) (claim : Slice width) :
    (parseDeviceCertClaim claim).Meets CertFields.Short := by
  have claimFits := claim.fits
  have big : 2 ^ 32 ≤ 2 ^ width := Nat.pow_le_pow_right Nat.two_pos wide
  apply (okOr_meets (base64urlDecode claim.bytes) _ (fun data decoded => length_base64urlDecode decoded)).bind
  intro data shorter
  rw [vec, dif_pos (by omega), Outcome.ok_bind]
  split
  · trivial
  · next long =>
      have front := Slice.between_of_le (b := ⟨data, by omega⟩) (Nat.zero_le _) (Nat.le_of_not_lt long)
      rw [front.range_eq, Outcome.ok_bind]
      split
      · trivial
      · apply (takeFields_meets front.stop_le (by dsimp only; omega)).bind
        rintro ⟨fields, p⟩ short
        dsimp only
        split
        · trivial
        · exact short

theorem byteArray_eq {n : Nat} {bytes : List UInt8} (length : bytes.length = n) :
    ∃ array, okOr () (byteArray n bytes) = .ok array ∧ array.toList = bytes := by
  refine ⟨⟨bytes.toArray, length⟩, ?_, rfl⟩
  rw [byteArray, dif_pos length, okOr]

theorem byteArray_toList {n : Nat} (array : Vector UInt8 n) : byteArray n array.toList = some array := by
  rw [byteArray, dif_pos array.length_toList]
  exact congrArg some (Vector.toList_inj.mp rfl)

theorem toList_of_byteArray {n : Nat} {bytes : List UInt8} {array : Vector UInt8 n}
    (made : byteArray n bytes = some array) : array.toList = bytes := by
  unfold byteArray at made
  split at made
  · cases made
    rfl
  · cases made

theorem reads_takeKey (key : PublicKey) :
    Read.Reads (takeKey : Read width Unit _) (field key.toList) key := by
  obtain ⟨array, made, list⟩ := byteArray_eq (by simp : key.toList.length = 32)
  have same : array = key := Vector.toList_inj.mp list
  have short : key.toList.length ≤ 65535 := by simp
  have pieces : field key.toList = field key.toList ++ [] := by rw [List.append_nil]
  rw [pieces]
  apply (reads_take short).bind
  rw [same] at made
  exact Read.reads_lift made

theorem reads_takeU64 (time : UInt64) :
    Read.Reads (takeU64 : Read width Unit _) (field (toLe 8 time.toNat)) time := by
  obtain ⟨array, made, list⟩ := byteArray_eq (length_toLe 8 time.toNat)
  have short : (toLe 8 time.toNat).length ≤ 65535 := by simp
  have value : UInt64.ofNat (ofLe array.toList) = time := by
    rw [list, ofLe_toLe (Nat.lt_of_lt_of_le time.toNat_lt (by decide)), UInt64.ofNat_toNat]
  have pieces : field (toLe 8 time.toNat) = field (toLe 8 time.toNat) ++ ([] ++ []) := by
    simp only [List.append_nil]
  rw [pieces]
  apply (reads_take short).bind
  apply (Read.reads_lift made).bind
  rw [value]
  exact Read.Reads.pure time

theorem reads_takeStr {s : List Char} (short : (strBytes s).length ≤ 65535) :
    Read.Reads (takeStr : Read width Unit _) (field (strBytes s)) s := by
  have text : okOr () (fromUtf8 (strBytes s)) = .ok (String.ofList s) := by
    rw [strBytes, fromUtf8_utf8Bytes]
    rfl
  have pieces : field (strBytes s) = field (strBytes s) ++ ([] ++ []) := by
    simp only [List.append_nil]
  rw [pieces]
  apply (reads_take short).bind
  apply (Read.reads_lift text).bind
  rw [String.toList_ofList]
  exact Read.Reads.pure s

theorem reads_takeFields {f : CertFields} (short : f.Short) :
    Read.Reads (takeFields : Read width Unit _) f.body f := by
  have pieces : f.body = field f.vaultTrustPubkey.toList ++ (field (strBytes f.deviceId) ++
      (field f.devicePubkey.toList ++ (field (strBytes f.capsCanon) ++
        (field (toLe 8 f.issuedAt.toNat) ++ (field (toLe 8 f.expiry.toNat) ++ []))))) := by
    rw [CertFields.body, List.append_nil]
  rw [pieces]
  apply (reads_takeKey f.vaultTrustPubkey).bind
  apply (reads_takeStr short.deviceId).bind
  apply (reads_takeKey f.devicePubkey).bind
  apply (reads_takeStr short.capsCanon).bind
  apply (reads_takeU64 f.issuedAt).bind
  apply (reads_takeU64 f.expiry).bind
  exact Read.Reads.pure f

/-- The text of a claim parses to its fields. -/
theorem parse_claimText {f : CertFields} (short : f.Short) {claim : Slice width}
    (written : claimText f = .ok claim.bytes) : parseDeviceCertClaim claim = .ok f := by
  obtain ⟨text, made, decoded, _⟩ := claimText_eq short
  rw [made, Outcome.ok.injEq] at written
  subst written
  have lengths := length_base64urlDecode decoded
  have claimFits := claim.fits
  have fits : (certDomain ++ f.body).length < 2 ^ width := by omega
  have halves := (Slice.between_all (⟨certDomain ++ f.body, fits⟩ : Slice width)).split
  rw [Nat.zero_add] at halves
  have domain : ((⟨certDomain ++ f.body, fits⟩ : Slice width).range 0 certDomain.length :
      Outcome Unit _) = .ok certDomain := halves.1.range_eq
  have fields := reads_takeFields short _ _ _ halves.2
  unfold parseDeviceCertClaim
  rw [decoded, okOr, Outcome.ok_bind, vec, dif_pos fits, Outcome.ok_bind]
  rw [if_neg (by rw [List.length_append]; omega), domain, Outcome.ok_bind, if_neg (not_not_intro rfl),
    fields]
  exact if_neg (not_not_intro rfl)

theorem utf8Encode_ascii (bytes : List UInt8) (ascii : ∀ b ∈ bytes, b < 128) :
    (bytes.map fun b => Char.ofNat b.toNat).flatMap String.utf8EncodeChar = bytes := by
  induction bytes with
  | nil => rfl
  | cons b bytes ih =>
      have small : b.toNat < 128 := ascii b List.mem_cons_self
      have valid : Nat.isValidChar b.toNat := Or.inl (by omega)
      have value : (Char.ofNat b.toNat).val.toNat = b.toNat := by
        rw [Char.ofNat, dif_pos valid]
        rfl
      have one : String.utf8EncodeChar (Char.ofNat b.toNat) = [b] := by
        rw [String.utf8EncodeChar]
        simp only [value]
        rw [if_pos (by omega)]
        simp
      rw [List.map_cons, List.flatMap_cons, one, ih fun c member => ascii c (List.mem_cons_of_mem _ member)]
      rfl

theorem strBytes_asChars {symbols : List UInt8} (ascii : ∀ b ∈ symbols, b < 128) :
    strBytes (asChars symbols) = symbols := by
  rw [strBytes, utf8Bytes, String.toByteArray_ofList, List.utf8Encode, asChars, utf8Encode_ascii _ ascii]
  simp

theorem pushField_ok {m bytes out : List UInt8} (pushed : pushField m bytes = .ok out) :
    bytes.length ≤ 65535 := by
  obtain ⟨len, prefixed, _⟩ := Outcome.bind_eq_ok.mp pushed
  rw [u16Len] at prefixed
  split at prefixed
  · next short => exact short
  · cases prefixed

/-- Only short strings have a claim. -/
theorem short_of_claimText {f : CertFields} {text : List UInt8} (written : claimText f = .ok text) :
    f.Short := by
  obtain ⟨bytes, made, _⟩ := Outcome.bind_eq_ok.mp written
  obtain ⟨_, _, made⟩ := Outcome.bind_eq_ok.mp made
  obtain ⟨_, deviceId, made⟩ := Outcome.bind_eq_ok.mp made
  obtain ⟨_, _, made⟩ := Outcome.bind_eq_ok.mp made
  obtain ⟨_, capsCanon, _⟩ := Outcome.bind_eq_ok.mp made
  exact ⟨pushField_ok deviceId, pushField_ok capsCanon⟩

theorem ascii_of_claimText {f : CertFields} {text : List UInt8} (written : claimText f = .ok text) :
    ∀ c ∈ text, c < 128 := by
  obtain ⟨other, made, _, ascii⟩ := claimText_eq (short_of_claimText written)
  rw [written, Outcome.ok.injEq] at made
  rw [made]
  exact ascii

end Claims

end DeviceCert

theorem Attest.canonicalMessage_ok {claim audience : List UInt8} (issuedAt expiry : UInt64)
    (short : claim.length ≤ 65535 ∧ audience.length ≤ 65535) :
    ∃ msg, Attest.canonicalMessage claim audience issuedAt expiry = .ok msg := by
  rw [Attest.canonicalMessage, u16Len, if_pos short.1, Outcome.ok_bind, u16Len, if_pos short.2,
    Outcome.ok_bind]
  exact ⟨_, rfl⟩

theorem Attest.canonicalMessage_panic {claim audience : List UInt8} (issuedAt expiry : UInt64)
    (long : ¬(claim.length ≤ 65535 ∧ audience.length ≤ 65535)) :
    Attest.canonicalMessage claim audience issuedAt expiry = .panic := by
  rw [Attest.canonicalMessage, u16Len]
  split
  · next short =>
      rw [Outcome.ok_bind, u16Len, if_neg (fun second => long ⟨short, second⟩)]
      rfl
  · rfl

theorem Attest.short_of_canonicalMessage {claim audience msg : List UInt8} {issuedAt expiry : UInt64}
    (made : Attest.canonicalMessage claim audience issuedAt expiry = .ok msg) :
    claim.length ≤ 65535 := by
  apply Decidable.byContradiction
  intro long
  rw [Attest.canonicalMessage_panic issuedAt expiry fun short => long short.1] at made
  cases made

variable (ed : Ed25519) (sha256 : List UInt8 → Vector UInt8 32)

/-- A valid key and an oversized claim or audience are what it takes to panic. -/
theorem Attest.verify_returns (pubkey : PublicKey) (claim audience : List UInt8)
    (issuedAt expiry : UInt64) (sig : Signature) :
    (∃ r, Attest.verify ed pubkey claim audience issuedAt expiry sig = .ok r) ↔
      (ed.decodes pubkey = true → claim.length ≤ 65535 ∧ audience.length ≤ 65535) := by
  unfold Attest.verify
  split
  · next decodes =>
      constructor
      · rintro ⟨r, returned⟩ _
        apply Decidable.byContradiction
        intro long
        rw [Attest.canonicalMessage_panic issuedAt expiry long] at returned
        cases returned
      · intro short
        obtain ⟨msg, made⟩ := Attest.canonicalMessage_ok issuedAt expiry (short decodes)
        exact ⟨ed.verifyStrict pubkey msg sig, by rw [made]; rfl⟩
  · next malformed => exact ⟨fun _ decodes => absurd decodes malformed, fun _ => ⟨false, rfl⟩⟩

namespace DeviceCert

variable {width : Nat}

theorem deviceIdFromPubkey_ok (devicePubkey : PublicKey) :
    ∃ id, deviceIdFromPubkey sha256 devicePubkey = .ok id := by
  obtain ⟨text, encoded, _⟩ := encode_round_trip
    ((sha256 (deviceIdLabel ++ devicePubkey.toList)).toList.take 12)
  exact ⟨"dev_".toList ++ asChars text, by rw [deviceIdFromPubkey, encoded]; rfl⟩

/-- A claim that passes every check before the one of the signature, under a key that decodes. -/
structure Checked (vaultTrustPubkey : PublicKey) (claim : Slice width) (devicePubkey : PublicKey)
    (fields : CertFields) : Prop where
  parsed : parseDeviceCertClaim claim = .ok fields
  trust : fields.vaultTrustPubkey = vaultTrustPubkey
  device : fields.devicePubkey = devicePubkey
  canonical : claimText fields = .ok claim.bytes
  deviceId : deviceIdFromPubkey sha256 devicePubkey = .ok fields.deviceId
  caps : capsWellFormed fields.capsCanon = true
  decodes : ed.decodes vaultTrustPubkey = true

/-- The checks of the fields: either one of them rejects, or the signature decides. -/
theorem verifyFields_cases (vaultTrustPubkey devicePubkey : PublicKey) (claim : Slice width)
    (sig : Signature) (now : UInt64) {fields : CertFields} (short : fields.Short) :
    (verifyFields ed sha256 vaultTrustPubkey claim devicePubkey sig now fields = .ok false ∧
      ¬(fields.vaultTrustPubkey = vaultTrustPubkey ∧ fields.devicePubkey = devicePubkey ∧
        claimText fields = .ok claim.bytes ∧ deviceIdFromPubkey sha256 devicePubkey = .ok fields.deviceId ∧
        capsWellFormed fields.capsCanon = true)) ∨
    ((fields.vaultTrustPubkey = vaultTrustPubkey ∧ fields.devicePubkey = devicePubkey ∧
        claimText fields = .ok claim.bytes ∧ deviceIdFromPubkey sha256 devicePubkey = .ok fields.deviceId ∧
        capsWellFormed fields.capsCanon = true) ∧
      verifyFields ed sha256 vaultTrustPubkey claim devicePubkey sig now fields =
        (Attest.verify ed vaultTrustPubkey claim.bytes (strBytes fields.deviceId) fields.issuedAt
          fields.expiry sig >>= fun signed =>
            if !signed then return false
            else return decide (fields.issuedAt ≤ now ∧ now ≤ fields.expiry))) := by
  obtain ⟨text, made, _⟩ := claimText_eq short
  obtain ⟨id, hashed⟩ := deviceIdFromPubkey_ok sha256 devicePubkey
  unfold verifyFields
  rw [made, hashed]
  simp only [Outcome.ok_bind, Outcome.ok.injEq]
  split
  · next mismatch =>
      refine .inl ⟨rfl, ?_⟩
      rintro ⟨trust, device, _⟩
      exact mismatch.elim (fun other => other trust) (fun other => other device)
  · next keys =>
      rw [not_or, Decidable.not_not, Decidable.not_not] at keys
      split
      · next tampered => exact .inl ⟨rfl, fun checks => tampered checks.2.2.1⟩
      · next canonical =>
          split
          · next swapped => exact .inl ⟨rfl, fun checks => swapped checks.2.2.2.1.symm⟩
          · next same =>
              split
              · next malformed =>
                  refine .inl ⟨rfl, fun checks => ?_⟩
                  rw [checks.2.2.2.2] at malformed
                  cases malformed
              · next wellFormed =>
                  rw [Bool.not_eq_true, Bool.not_eq_false'] at wellFormed
                  exact .inr ⟨⟨keys.1, keys.2, Decidable.not_not.mp canonical,
                    (Decidable.not_not.mp same).symm, wellFormed⟩, rfl⟩

theorem verify_returns (wide : 32 ≤ width) (vaultTrustPubkey devicePubkey : PublicKey)
    (claim : Slice width) (sig : Signature) (now : UInt64) :
    (∃ r, verify ed sha256 vaultTrustPubkey claim devicePubkey sig now = .ok r) ↔
      ∀ fields, Checked ed sha256 vaultTrustPubkey claim devicePubkey fields →
        claim.bytes.length ≤ 65535 := by
  have safe := parse_meets wide claim
  unfold verify
  cases parsed : parseDeviceCertClaim claim with
  | panic => exact absurd parsed safe.ne_panic
  | error reason =>
      refine ⟨fun _ fields checked => ?_, fun _ => ⟨false, rfl⟩⟩
      have other := checked.parsed
      rw [parsed] at other
      cases other
  | ok fields =>
      have short : fields.Short := safe.of_ok parsed
      have only : ∀ other, Checked ed sha256 vaultTrustPubkey claim devicePubkey other → other = fields := by
        intro other checked
        have same := checked.parsed
        rw [parsed, Outcome.ok.injEq] at same
        exact same.symm
      rcases verifyFields_cases ed sha256 vaultTrustPubkey devicePubkey claim sig now short with
        ⟨rejected, fails⟩ | ⟨passed, decided⟩
      · refine ⟨fun _ other checked => ?_, fun _ => ⟨false, rejected⟩⟩
        cases only other checked
        exact absurd ⟨checked.trust, checked.device, checked.canonical, checked.deviceId, checked.caps⟩ fails
      · dsimp only
        rw [decided]
        have signature := Attest.verify_returns ed vaultTrustPubkey claim.bytes (strBytes fields.deviceId)
          fields.issuedAt fields.expiry sig
        constructor
        · rintro ⟨r, returned⟩ other checked
          cases only other checked
          obtain ⟨signed, ok, _⟩ := Outcome.bind_eq_ok.mp returned
          exact (signature.mp ⟨signed, ok⟩ checked.decodes).1
        · intro bound
          have ready : ed.decodes vaultTrustPubkey = true →
              claim.bytes.length ≤ 65535 ∧ (strBytes fields.deviceId).length ≤ 65535 := fun decodes =>
            ⟨bound fields ⟨parsed, passed.1, passed.2.1, passed.2.2.1, passed.2.2.2.1, passed.2.2.2.2,
              decodes⟩, short.deviceId⟩
          obtain ⟨signed, ok⟩ := signature.mpr ready
          rw [ok, Outcome.ok_bind]
          split
          · exact ⟨false, rfl⟩
          · exact ⟨_, rfl⟩

end DeviceCert

/-- When the two verifiers of the page return: a key that decodes, and a claim or an audience too
long for its prefix, is what makes them panic, and nothing else. -/
theorem verifiers_return (t : Target) (ed : Ed25519) (sha256 : List UInt8 → Vector UInt8 32) :
    (∀ (pubkey claim audience : List UInt8) (issuedAt expiry : UInt64) (sig : List UInt8),
      (∃ r, verifyAttestation ed pubkey claim audience issuedAt expiry sig = .ok r) ↔
        ∀ pk s, byteArray 32 pubkey = some pk → byteArray 64 sig = some s → ed.decodes pk = true →
          claim.length ≤ 65535 ∧ audience.length ≤ 65535) ∧
    ∀ (vaultTrustPubkey : List UInt8) (claim : Slice t.usizeBits) (devicePubkey sig : List UInt8)
      (now : UInt64),
      (∃ r, DeviceCert.verifyDeviceCert ed sha256 vaultTrustPubkey claim devicePubkey sig now = .ok r) ↔
        ∀ tk dk s fields, byteArray 32 vaultTrustPubkey = some tk → byteArray 32 devicePubkey = some dk →
          byteArray 64 sig = some s → DeviceCert.Checked ed sha256 tk claim dk fields →
            claim.bytes.length ≤ 65535 := by
  constructor
  · intro pubkey claim audience issuedAt expiry sig
    unfold verifyAttestation
    cases byteArray 32 pubkey with
    | none => exact ⟨fun _ _ _ missing => (nomatch missing), fun _ => ⟨false, rfl⟩⟩
    | some pk =>
        cases byteArray 64 sig with
        | none => exact ⟨fun _ _ _ _ missing => (nomatch missing), fun _ => ⟨false, rfl⟩⟩
        | some s =>
            have signature := Attest.verify_returns ed pk claim audience issuedAt expiry s
            constructor
            · rintro returned _ _ ⟨⟩ ⟨⟩
              exact signature.mp returned
            · intro bound
              exact signature.mpr (bound pk s rfl rfl)
  · intro vaultTrustPubkey claim devicePubkey sig now
    unfold DeviceCert.verifyDeviceCert
    cases byteArray 32 vaultTrustPubkey with
    | none => exact ⟨fun _ _ _ _ _ missing => (nomatch missing), fun _ => ⟨false, rfl⟩⟩
    | some tk =>
        cases byteArray 32 devicePubkey with
        | none => exact ⟨fun _ _ _ _ _ _ missing => (nomatch missing), fun _ => ⟨false, rfl⟩⟩
        | some dk =>
            cases byteArray 64 sig with
            | none => exact ⟨fun _ _ _ _ _ _ _ missing => (nomatch missing), fun _ => ⟨false, rfl⟩⟩
            | some s =>
                have returns := DeviceCert.verify_returns ed sha256 t.le_usizeBits tk dk claim s now
                constructor
                · rintro returned _ _ _ fields ⟨⟩ ⟨⟩ ⟨⟩
                  exact returns.mp returned fields
                · intro bound
                  exact returns.mpr fun fields => bound tk dk s fields rfl rfl rfl

/-- A scheme in which a signature is the key and the first half of what it signs. -/
def sampleScheme : Ed25519 where
  publicKey seed := seed
  sign seed msg := seed ++ Vector.ofFn fun i : Fin 32 => msg.getD i.val 0
  decodes _ := true
  verifyStrict pk msg s := decide (s = pk ++ Vector.ofFn fun i : Fin 32 => msg.getD i.val 0)
  decodes_publicKey _ := rfl
  verifyStrict_sign _ _ := decide_eq_true rfl

/-- The base point of the curve as a public key. -/
def basePoint : List UInt8 := 0x58 :: List.replicate 31 0x66

theorem verifyAttestation_panics :
    ¬∃ r, verifyAttestation sampleScheme basePoint (List.replicate 65536 0x61) [] 0 0
      (List.replicate 64 0) = .ok r := by
  have long : ¬((List.replicate 65536 (0x61 : UInt8)).length ≤ 65535 ∧ ([] : List UInt8).length ≤ 65535) := by
    rw [List.length_replicate]
    omega
  have key : ∃ pk, byteArray 32 basePoint = some pk := ⟨_, dif_pos (by simp [basePoint])⟩
  have signature : ∃ s, byteArray 64 (List.replicate 64 0) = some s := ⟨_, dif_pos (by simp)⟩
  obtain ⟨pk, key⟩ := key
  obtain ⟨s, signature⟩ := signature
  rintro ⟨r, returned⟩
  rw [verifyAttestation, key, signature] at returned
  exact long ((Attest.verify_returns sampleScheme pk _ _ 0 0 s).mp ⟨r, returned⟩ rfl)

end Freehold
