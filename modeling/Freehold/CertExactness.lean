import Freehold.SdkDeviceCert

set_option autoImplicit false

namespace Freehold

open Cursor

namespace DeviceCert

variable {width : Nat}

/-- The scopes a canonical text lists. -/
def listedScopes (capsCanon : List Char) : List (List Char) :=
  if capsCanon.isEmpty then [] else capsCanon.splitOn '\n'

/-- `scopes` are those a list asks for: trimmed, not empty, in the order of their bytes, once each. -/
structure Requested (caps scopes : List (List Char)) : Prop where
  ascending : Words.Ascending byteKey scopes
  exactly : ∀ s, s ∈ scopes ↔ s ≠ [] ∧ ∃ cap ∈ caps, trim cap = s

/-- A scope that can stand in a claim: one line, with no margin, not empty. -/
def Clean (s : List Char) : Prop := '\n' ∉ s ∧ trim s = s ∧ s ≠ []

section Scopes

variable {caps scopes : List (List Char)} {capsCanon : List Char}

theorem mem_canonicalScopes {s : List Char} :
    s ∈ canonicalScopes caps ↔ s ≠ [] ∧ ∃ cap ∈ caps, trim cap = s := by
  rw [canonicalScopes, Words.mem_canonical, List.mem_filter, List.mem_map]
  simp only [Bool.not_eq_true', List.isEmpty_eq_false_iff]
  exact and_comm

theorem ascending_canonicalScopes (caps : List (List Char)) :
    Words.Ascending byteKey (canonicalScopes caps) := Words.ascending_canonical Sdk.byteKey_injective

theorem requested_iff : Requested caps scopes ↔ scopes = canonicalScopes caps := by
  constructor
  · intro requested
    apply requested.ascending.unique (ascending_canonicalScopes caps)
    intro s
    rw [requested.exactly, mem_canonicalScopes]
  · intro same
    rw [same]
    exact ⟨ascending_canonicalScopes caps, fun s => mem_canonicalScopes⟩

/-- The text of scopes that are single lines lists them. -/
theorem listedScopes_intercalate (clean : ∀ s ∈ scopes, Clean s) :
    listedScopes (['\n'].intercalate scopes) = scopes := by
  cases scopes with
  | nil => rfl
  | cons first rest =>
      have lines : (['\n'].intercalate (first :: rest)).splitOn '\n' = first :: rest :=
        List.splitOn_intercalate _ (fun s member => (clean s member).1) (List.cons_ne_nil _ _)
      have nonempty : (['\n'].intercalate (first :: rest)).isEmpty = false := by
        rw [List.isEmpty_eq_false_iff]
        intro empty
        rw [empty, List.splitOn_nil, List.cons.injEq] at lines
        exact (clean first List.mem_cons_self).2.2 lines.1.symm
      rw [listedScopes, nonempty, lines]
      rfl

/-- What is listed is single lines. -/
theorem notMem_of_mem_listedScopes {s : List Char} (member : s ∈ listedScopes capsCanon) : '\n' ∉ s := by
  unfold listedScopes at member
  split at member
  · cases member
  · exact Words.notMem_of_mem_splitOn member

theorem clean_canonicalScopes (plain : ∀ cap ∈ caps, '\n' ∉ trim cap) :
    ∀ s ∈ canonicalScopes caps, Clean s := by
  intro s member
  obtain ⟨some_left, cap, inCaps, rfl⟩ := mem_canonicalScopes.mp member
  exact ⟨plain cap inCaps, Words.trim_idem, some_left⟩

/-- A well-formed text is that of scopes in canonical form. -/
theorem capsWellFormed_iff : capsWellFormed capsCanon = true ↔
    ∃ scopes, Words.Ascending byteKey scopes ∧ (∀ s ∈ scopes, Clean s) ∧
      capsCanon = ['\n'].intercalate scopes := by
  constructor
  · intro wellFormed
    unfold capsWellFormed at wellFormed
    split at wellFormed
    · next empty =>
        rw [List.isEmpty_iff] at empty
        exact ⟨[], List.Pairwise.nil, by simp, empty⟩
    · dsimp only at wellFormed
      split at wellFormed
      · cases wellFormed
      · next trimmed =>
          rw [decide_eq_true_eq] at wellFormed
          refine ⟨canonicalScopes (capsCanon.splitOn '\n'), ascending_canonicalScopes _, ?_,
            wellFormed.symm⟩
          rw [Bool.not_eq_true, List.any_eq_false] at trimmed
          apply clean_canonicalScopes
          intro line inLines
          have same : trim line = line := by
            have facts := trimmed line inLines
            simp only [Bool.or_eq_true, decide_eq_true_eq, not_or, Decidable.not_not] at facts
            exact facts.2
          rw [same]
          exact Words.notMem_of_mem_splitOn inLines
  · intro ⟨scopes, ascending, clean, text⟩
    rw [text]
    exact (Sdk.canonical_text ascending clean).1

end Scopes

section Lengths

/-- Encoding makes three bytes four symbols. -/
theorem length_base64urlEncode {data text : List UInt8} (encoded : base64urlEncode data = .ok text) :
    3 * text.length ≤ 4 * data.length + 2 := by
  match data with
  | [] =>
      cases encoded
      decide
  | [b0] =>
      obtain ⟨symbols, chunk⟩ := chunk_one b0
      have same : symbols = text := Outcome.ok.inj (chunk.encode_eq.symm.trans encoded)
      have length := chunk.length_eq
      simp only [same, List.length_cons, List.length_nil] at length ⊢
      omega
  | [b0, b1] =>
      obtain ⟨symbols, chunk⟩ := chunk_two b0 b1
      have same : symbols = text := Outcome.ok.inj (chunk.encode_eq.symm.trans encoded)
      have length := chunk.length_eq
      simp only [same, List.length_cons, List.length_nil] at length ⊢
      omega
  | b0 :: b1 :: b2 :: rest =>
      obtain ⟨symbols, chunk⟩ := chunk_three b0 b1 b2
      have length := chunk.length_eq
      rw [base64urlEncode, chunk.encode_eq, Outcome.ok_bind] at encoded
      obtain ⟨tail, tailEncoded, same⟩ := Outcome.bind_eq_ok.mp encoded
      cases same
      have later := length_base64urlEncode tailEncoded
      simp only [List.length_append, List.length_cons, List.length_nil] at length ⊢
      omega

/-- An id is twenty characters. -/
theorem length_deviceId {sha256 : List UInt8 → Vector UInt8 32} {devicePubkey : PublicKey}
    {deviceId : List Char} (hashed : deviceIdFromPubkey sha256 devicePubkey = .ok deviceId) :
    (strBytes deviceId).length = 20 := by
  obtain ⟨text, encoded, decoded, ascii⟩ := encode_round_trip
    ((sha256 (deviceIdLabel ++ devicePubkey.toList)).toList.take 12)
  have long := length_base64urlDecode decoded
  have short := length_base64urlEncode encoded
  rw [List.length_take, Vector.length_toList] at long short
  rw [deviceIdFromPubkey, encoded, Outcome.ok_bind] at hashed
  cases hashed
  have apart : strBytes ("dev_".toList ++ asChars text) = utf8Bytes "dev_" ++ text := by
    have dev : "dev_".toList = asChars (utf8Bytes "dev_") := by decide +kernel
    have devAscii : ∀ b ∈ utf8Bytes "dev_", b < 128 := by decide +kernel
    have joined : asChars (utf8Bytes "dev_") ++ asChars text = asChars (utf8Bytes "dev_" ++ text) := by
      simp [asChars]
    rw [dev, joined]
    apply strBytes_asChars
    intro b member
    rcases List.mem_append.mp member with front | back
    · exact devAscii b front
    · exact ascii b back
  have four : (utf8Bytes "dev_").length = 4 := by decide +kernel
  rw [apart, List.length_append, four]
  omega

/-- How long a claim is before it is encoded. -/
theorem length_body (f : CertFields) : (certDomain ++ f.body).length =
    115 + (strBytes f.deviceId).length + (strBytes f.capsCanon).length := by
  have domain : certDomain.length = 23 := by decide +kernel
  simp only [CertFields.body, field, List.length_append, length_toLe, Vector.length_toList, domain]
  omega

/-- Every symbol of a text is of the alphabet; there is no padding. -/
theorem mem_b64url_of_symbol {n : Nat} {c : UInt8} (found : symbol n = .ok c) : c ∈ b64url := by
  unfold symbol at found
  split at found
  · next entry =>
      cases found
      exact List.mem_of_getElem? entry
  · cases found

theorem mem_b64url_of_encodeChunk {chunk text : List UInt8} (encoded : encodeChunk chunk = .ok text) :
    ∀ c ∈ text, c ∈ b64url := by
  obtain ⟨c0, first, encoded⟩ := Outcome.bind_eq_ok.mp encoded
  obtain ⟨c1, second, encoded⟩ := Outcome.bind_eq_ok.mp encoded
  have front : c0 ∈ b64url ∧ c1 ∈ b64url := ⟨mem_b64url_of_symbol first, mem_b64url_of_symbol second⟩
  dsimp only at encoded
  split at encoded
  · obtain ⟨c2, third, encoded⟩ := Outcome.bind_eq_ok.mp encoded
    dsimp only [Outcome.ok_bind, pure] at encoded
    split at encoded
    · obtain ⟨c3, fourth, encoded⟩ := Outcome.bind_eq_ok.mp encoded
      cases encoded
      simp [front, mem_b64url_of_symbol third, mem_b64url_of_symbol fourth]
    · cases encoded
      simp [front, mem_b64url_of_symbol third]
  · dsimp only [Outcome.ok_bind, pure] at encoded
    split at encoded
    · obtain ⟨c3, fourth, encoded⟩ := Outcome.bind_eq_ok.mp encoded
      cases encoded
      simp [front, mem_b64url_of_symbol fourth]
    · cases encoded
      simp [front]

theorem mem_b64url_of_encode {data text : List UInt8} (encoded : base64urlEncode data = .ok text) :
    ∀ c ∈ text, c ∈ b64url := by
  induction data using base64urlEncode.induct generalizing text with
  | case1 b0 b1 b2 rest ih =>
      rw [base64urlEncode] at encoded
      obtain ⟨head, headEncoded, encoded⟩ := Outcome.bind_eq_ok.mp encoded
      obtain ⟨tail, tailEncoded, same⟩ := Outcome.bind_eq_ok.mp encoded
      cases same
      intro c member
      rcases List.mem_append.mp member with inHead | inTail
      · exact mem_b64url_of_encodeChunk headEncoded c inHead
      · exact ih tailEncoded c inTail
  | case2 =>
      cases encoded
      simp
  | case3 chunk longer nonempty =>
      rw [base64urlEncode.eq_3 chunk longer nonempty] at encoded
      exact mem_b64url_of_encodeChunk encoded

end Lengths

section Issue

variable {ed : Ed25519} {sha256 : List UInt8 → Vector UInt8 32} {trustSeed : Seed}
  {devicePubkey : PublicKey} {caps : List (List Char)} {issuedAt expiry : UInt64}
  {claim : List UInt8} {sig : Signature}

/-- The fields that are signed. -/
def requestedFields (ed : Ed25519) (trustSeed : Seed) (devicePubkey : PublicKey) (deviceId : List Char)
    (caps : List (List Char)) (issuedAt expiry : UInt64) : CertFields :=
  ⟨ed.publicKey trustSeed, deviceId, devicePubkey, canonicalizeCaps caps, issuedAt, expiry⟩

/-- A claim as it is built, and the message its signature is for. -/
structure Signs (ed : Ed25519) (sha256 : List UInt8 → Vector UInt8 32) (trustSeed : Seed)
    (devicePubkey : PublicKey) (caps : List (List Char)) (issuedAt expiry : UInt64)
    (deviceId : List Char) (claim msg : List UInt8) : Prop where
  hashed : deviceIdFromPubkey sha256 devicePubkey = .ok deviceId
  written : claimText (requestedFields ed trustSeed devicePubkey deviceId caps issuedAt expiry) = .ok claim
  message : Attest.canonicalMessage claim (strBytes deviceId) issuedAt expiry = .ok msg

theorem issue_ok : issue ed sha256 trustSeed devicePubkey caps issuedAt expiry = .ok (claim, sig) ↔
    ∃ deviceId msg, Signs ed sha256 trustSeed devicePubkey caps issuedAt expiry deviceId claim msg ∧
      sig = ed.sign trustSeed msg := by
  constructor
  · intro issued
    obtain ⟨deviceId, hashed, issued⟩ := Outcome.bind_eq_ok.mp issued
    obtain ⟨text, written, issued⟩ := Outcome.bind_eq_ok.mp issued
    obtain ⟨signature, attested, same⟩ := Outcome.bind_eq_ok.mp issued
    cases same
    obtain ⟨msg, message, same⟩ := Outcome.bind_eq_ok.mp attested
    cases same
    exact ⟨deviceId, msg, ⟨hashed, written, message⟩, rfl⟩
  · intro ⟨deviceId, msg, signs, same⟩
    have built : buildDeviceCertClaim (ed.publicKey trustSeed) deviceId devicePubkey caps issuedAt expiry =
        .ok claim := signs.written
    rw [issue, signs.hashed, Outcome.ok_bind, built, Outcome.ok_bind, Attest.attestWithSeed,
      signs.message, same]
    rfl

/-- The fields are short enough for a claim that can be signed up to this length of the scopes. -/
theorem length_claim {deviceId : List Char} {f : CertFields}
    (hashed : deviceIdFromPubkey sha256 devicePubkey = .ok deviceId) (named : f.deviceId = deviceId)
    (written : claimText f = .ok claim) :
    claim.length ≤ 65535 ↔ (strBytes f.capsCanon).length ≤ 49016 := by
  obtain ⟨text, made, decoded, _⟩ := claimText_eq (short_of_claimText written)
  rw [written, Outcome.ok.injEq] at made
  subst made
  have encoded : base64urlEncode (certDomain ++ f.body) = .ok claim := by
    rw [claimText, canonicalClaimBytes_eq (short_of_claimText written)] at written
    exact written
  have least := length_base64urlDecode decoded
  have most := length_base64urlEncode encoded
  have body := length_body f
  rw [named, length_deviceId hashed] at body
  omega

/-- Issuing succeeds for scopes up to this length, and panics beyond it. -/
theorem issue_returns : (∃ claim sig,
    issue ed sha256 trustSeed devicePubkey caps issuedAt expiry = .ok (claim, sig)) ↔
      (strBytes (canonicalizeCaps caps)).length ≤ 49016 := by
  constructor
  · intro ⟨claim, sig, issued⟩
    obtain ⟨deviceId, msg, signs, _⟩ := issue_ok.mp issued
    exact (length_claim signs.hashed rfl signs.written).mp (Attest.short_of_canonicalMessage signs.message)
  · intro small
    obtain ⟨deviceId, hashed⟩ := deviceIdFromPubkey_ok sha256 devicePubkey
    have idLength := length_deviceId hashed
    have short : (requestedFields ed trustSeed devicePubkey deviceId caps issuedAt expiry).Short := by
      constructor
      · show (strBytes deviceId).length ≤ 65535
        omega
      · show (strBytes (canonicalizeCaps caps)).length ≤ 65535
        omega
    obtain ⟨claim, written, _⟩ := claimText_eq short
    have fits : claim.length ≤ 65535 := (length_claim hashed rfl written).mpr small
    have sizes : claim.length ≤ 65535 ∧ (strBytes deviceId).length ≤ 65535 := ⟨fits, by omega⟩
    obtain ⟨msg, message⟩ := Attest.canonicalMessage_ok issuedAt expiry sizes
    exact ⟨claim, ed.sign trustSeed msg, issue_ok.mpr ⟨deviceId, msg, ⟨hashed, written, message⟩, rfl⟩⟩

/-- Scopes of one line are signed in a form that the verifier takes. -/
theorem capsWellFormed_canonicalizeCaps (plain : ∀ cap ∈ caps, '\n' ∉ trim cap) :
    capsWellFormed (canonicalizeCaps caps) = true :=
  capsWellFormed_iff.mpr ⟨canonicalScopes caps, ascending_canonicalScopes caps,
    clean_canonicalScopes plain, rfl⟩

/-- What is signed is accepted throughout its window. -/
theorem Signs.accepted {deviceId : List Char} {msg : List UInt8} {presented : Slice width}
    (signs : Signs ed sha256 trustSeed devicePubkey caps issuedAt expiry deviceId presented.bytes msg)
    (plain : ∀ cap ∈ caps, '\n' ∉ trim cap) {now : UInt64} (since : issuedAt ≤ now) (before : now ≤ expiry) :
    verify ed sha256 (ed.publicKey trustSeed) presented devicePubkey (ed.sign trustSeed msg) now =
      .ok true := by
  have short := short_of_claimText signs.written
  have signed : Attest.verify ed (ed.publicKey trustSeed) presented.bytes (strBytes deviceId) issuedAt
      expiry (ed.sign trustSeed msg) = .ok true := by
    rw [Attest.verify, if_pos (ed.decodes_publicKey trustSeed), signs.message, Outcome.ok_bind,
      ed.verifyStrict_sign]
    rfl
  rw [verify, parse_claimText short signs.written]
  rcases verifyFields_cases ed sha256 (ed.publicKey trustSeed) devicePubkey presented
    (ed.sign trustSeed msg) now short with ⟨_, fails⟩ | ⟨_, decided⟩
  · exact absurd ⟨rfl, rfl, signs.written, signs.hashed, capsWellFormed_canonicalizeCaps plain⟩ fails
  · dsimp only
    rw [decided]
    show (Attest.verify ed (ed.publicKey trustSeed) presented.bytes (strBytes deviceId) issuedAt expiry
      (ed.sign trustSeed msg) >>= _) = _
    rw [signed]
    show Outcome.ok (decide (issuedAt ≤ now ∧ now ≤ expiry)) = _
    rw [decide_eq_true ⟨since, before⟩]

end Issue

section Accepted

variable {ed : Ed25519} {sha256 : List UInt8 → Vector UInt8 32} {vaultTrustPubkey devicePubkey : PublicKey}
  {claim : Slice width} {sig : Signature} {now : UInt64}

/-- What an accepted claim is known to be. -/
structure Exact (sha256 : List UInt8 → Vector UInt8 32) (vaultTrustPubkey : PublicKey)
    (claim : Slice width) (devicePubkey : PublicKey) (now : UInt64) (fields : CertFields) : Prop where
  parsed : parseDeviceCertClaim claim = .ok fields
  canonical : claimText fields = .ok claim.bytes
  decoded : base64urlDecode claim.bytes = some (certDomain ++ fields.body)
  alphabet : ∀ c ∈ claim.bytes, c ∈ b64url
  trust : fields.vaultTrustPubkey = vaultTrustPubkey
  device : fields.devicePubkey = devicePubkey
  deviceId : deviceIdFromPubkey sha256 devicePubkey = .ok fields.deviceId
  caps : ∃ scopes, Words.Ascending byteKey scopes ∧ (∀ s ∈ scopes, Clean s) ∧
    fields.capsCanon = ['\n'].intercalate scopes
  window : fields.issuedAt ≤ now ∧ now ≤ fields.expiry

theorem exact_of_verify (wide : 32 ≤ width)
    (accepted : verify ed sha256 vaultTrustPubkey claim devicePubkey sig now = .ok true) :
    ∃ fields, Exact sha256 vaultTrustPubkey claim devicePubkey now fields := by
  unfold verify at accepted
  split at accepted
  · next fields parsed =>
      have short : fields.Short := (parse_meets wide claim).of_ok parsed
      rcases verifyFields_cases ed sha256 vaultTrustPubkey devicePubkey claim sig now short with
        ⟨rejected, _⟩ | ⟨⟨trust, device, canonical, deviceId, caps⟩, decided⟩
      · rw [rejected] at accepted
        cases accepted
      · rw [decided] at accepted
        obtain ⟨signed, _, accepted⟩ := Outcome.bind_eq_ok.mp accepted
        obtain ⟨text, made, decoded, _⟩ := claimText_eq short
        have encoded := canonical
        rw [claimText, canonicalClaimBytes_eq short, Outcome.ok_bind] at encoded
        rw [canonical, Outcome.ok.injEq] at made
        subst made
        cases signed with
        | false => cases accepted
        | true =>
            have inside : decide (fields.issuedAt ≤ now ∧ now ≤ fields.expiry) = true :=
              Outcome.ok.inj accepted
            exact ⟨fields, parsed, canonical, decoded, mem_b64url_of_encode encoded, trust, device, deviceId,
              capsWellFormed_iff.mp caps, of_decide_eq_true inside⟩
  · cases accepted
  · cases accepted

/-- Claims that decode alike parse alike. -/
theorem parse_congr {other : Slice width}
    (same : base64urlDecode claim.bytes = base64urlDecode other.bytes) :
    parseDeviceCertClaim claim = parseDeviceCertClaim other := by
  rw [parseDeviceCertClaim, parseDeviceCertClaim, same]

theorem Exact.unique {otherTrust otherDevice : PublicKey} {other : Slice width} {later : UInt64}
    {fields otherFields : CertFields}
    (first : Exact sha256 vaultTrustPubkey claim devicePubkey now fields)
    (second : Exact sha256 otherTrust other otherDevice later otherFields)
    (same : parseDeviceCertClaim claim = parseDeviceCertClaim other) : claim.bytes = other.bytes := by
  rw [first.parsed, second.parsed, Outcome.ok.injEq] at same
  have canonical := first.canonical
  rw [same, second.canonical, Outcome.ok.injEq] at canonical
  exact canonical.symm

end Accepted

end DeviceCert

open DeviceCert

/-- Issuing makes a certificate that is accepted at every time of its window and lists the scopes
asked for, each once and in order, exactly when every scope is one line and their text leaves the
claim short enough to be signed. -/
theorem issued_verifies (t : Target) (ed : Ed25519) (sha256 : List UInt8 → Vector UInt8 32)
    (trustSeed : Seed) (devicePubkey : PublicKey) (caps : List (List Char)) (issuedAt expiry : UInt64) :
    (∃ claim sig, issue ed sha256 trustSeed devicePubkey caps issuedAt expiry = .ok (claim, sig) ∧
      ∃ presented : Slice t.usizeBits, presented.bytes = claim ∧
        (∀ now, issuedAt ≤ now → now ≤ expiry →
          verify ed sha256 (ed.publicKey trustSeed) presented devicePubkey sig now = .ok true) ∧
        ∃ fields, parseDeviceCertClaim presented = .ok fields ∧
          Requested caps (listedScopes fields.capsCanon)) ↔
      (∀ cap ∈ caps, '\n' ∉ trim cap) ∧ (strBytes (canonicalizeCaps caps)).length ≤ 49016 := by
  constructor
  · intro ⟨claim, sig, issued, presented, bytes, _, fields, parsed, requested⟩
    refine ⟨?_, issue_returns.mp ⟨claim, sig, issued⟩⟩
    obtain ⟨deviceId, msg, signs, _⟩ := issue_ok.mp issued
    subst bytes
    rw [parse_claimText (short_of_claimText signs.written) signs.written, Outcome.ok.injEq] at parsed
    subst parsed
    intro cap inCaps
    by_cases blank : trim cap = []
    · simp [blank]
    · have listed : trim cap ∈ listedScopes (canonicalizeCaps caps) :=
        (requested.exactly _).mpr ⟨blank, cap, inCaps, rfl⟩
      exact notMem_of_mem_listedScopes listed
  · intro ⟨plain, small⟩
    have returned : ∃ claim sig,
        issue ed sha256 trustSeed devicePubkey caps issuedAt expiry = .ok (claim, sig) :=
      issue_returns.mpr small
    obtain ⟨claim, sig, issued⟩ := returned
    obtain ⟨deviceId, msg, signs, same⟩ := issue_ok.mp issued
    subst same
    have wide := t.le_usizeBits
    have big : 2 ^ 32 ≤ 2 ^ t.usizeBits := Nat.pow_le_pow_right Nat.two_pos wide
    have length := Attest.short_of_canonicalMessage signs.message
    let presented : Slice t.usizeBits := ⟨claim, by omega⟩
    have signed : Signs ed sha256 trustSeed devicePubkey caps issuedAt expiry deviceId presented.bytes msg :=
      signs
    refine ⟨claim, _, issued, presented, rfl, fun now since before => signed.accepted plain since before,
      _, parse_claimText (short_of_claimText signed.written) signed.written, ?_⟩
    rw [requested_iff]
    exact listedScopes_intercalate (clean_canonicalScopes plain)

/-- A scope of two lines is issued in an order the verifier does not take. -/
theorem broken_scope_rejected : ∃ claim sig,
    issue sampleScheme Sdk.sampleHash (Vector.replicate 32 7) (Vector.replicate 32 1)
      ["b\na".toList] 1700000000 1700003600 = .ok (claim, sig) ∧
    ∀ presented : Slice 32, presented.bytes = claim →
      verify sampleScheme Sdk.sampleHash (Vector.replicate 32 7) presented (Vector.replicate 32 1) sig
        1700000000 ≠ .ok true := by
  have small : (strBytes (canonicalizeCaps ["b\na".toList])).length ≤ 49016 := by decide +kernel
  have malformed : capsWellFormed (canonicalizeCaps ["b\na".toList]) = false := by decide +kernel
  have returned : ∃ claim sig, issue sampleScheme Sdk.sampleHash (Vector.replicate 32 7)
      (Vector.replicate 32 1) ["b\na".toList] 1700000000 1700003600 = .ok (claim, sig) :=
    issue_returns.mpr small
  obtain ⟨claim, sig, issued⟩ := returned
  refine ⟨claim, sig, issued, ?_⟩
  intro presented bytes accepted
  obtain ⟨deviceId, msg, signs, _⟩ := issue_ok.mp issued
  obtain ⟨fields, known⟩ := exact_of_verify (Nat.le_refl 32) accepted
  subst bytes
  have parsed := known.parsed
  rw [parse_claimText (short_of_claimText signs.written) signs.written, Outcome.ok.injEq] at parsed
  subst parsed
  have wellFormed : capsWellFormed (canonicalizeCaps ["b\na".toList]) = true :=
    capsWellFormed_iff.mpr known.caps
  rw [malformed] at wellFormed
  cases wellFormed

/-- Encoding and building are undone by decoding and parsing. An accepted claim is the encoding of
its fields, which are the right keys, the hash of the device key, scopes in canonical form and a
window around the time; there is one accepted text for what a claim decodes or parses to. -/
theorem claims_exact (t : Target) (ed : Ed25519) (sha256 : List UInt8 → Vector UInt8 32) :
    (∀ data, ∃ text, base64urlEncode data = .ok text ∧ base64urlDecode text = some data) ∧
    (∀ fields : CertFields, fields.Short → ∃ text, claimText fields = .ok text ∧
      ∀ claim : Slice t.usizeBits, claim.bytes = text → parseDeviceCertClaim claim = .ok fields) ∧
    (∀ vaultTrustPubkey (claim : Slice t.usizeBits) devicePubkey sig now,
      verify ed sha256 vaultTrustPubkey claim devicePubkey sig now = .ok true →
        ∃ fields, Exact sha256 vaultTrustPubkey claim devicePubkey now fields) ∧
    ∀ vaultTrustPubkey (claim : Slice t.usizeBits) devicePubkey sig now,
      verify ed sha256 vaultTrustPubkey claim devicePubkey sig now = .ok true →
      ∀ otherTrust (other : Slice t.usizeBits) otherDevice otherSig later,
        verify ed sha256 otherTrust other otherDevice otherSig later = .ok true →
          (parseDeviceCertClaim claim = parseDeviceCertClaim other ∨
            base64urlDecode claim.bytes = base64urlDecode other.bytes) →
          claim.bytes = other.bytes := by
  refine ⟨?_, ?_, ?_, ?_⟩
  · intro data
    obtain ⟨text, encoded, decoded, _⟩ := encode_round_trip data
    exact ⟨text, encoded, decoded⟩
  · intro fields short
    obtain ⟨text, made, _⟩ := claimText_eq short
    refine ⟨text, made, fun claim bytes => parse_claimText short ?_⟩
    rw [bytes, made]
  · intro vaultTrustPubkey claim devicePubkey sig now accepted
    exact exact_of_verify t.le_usizeBits accepted
  · intro vaultTrustPubkey claim devicePubkey sig now accepted otherTrust other otherDevice otherSig later
      acceptedToo alike
    obtain ⟨fields, first⟩ := exact_of_verify t.le_usizeBits accepted
    obtain ⟨otherFields, second⟩ := exact_of_verify t.le_usizeBits acceptedToo
    exact first.unique second (alike.elim id parse_congr)

end Freehold
