import Freehold.Lib.Json
import Freehold.RelayAuth
import Freehold.SdkDeviceCert

set_option autoImplicit false

/- Attestations as the page makes and checks them, and the grant tokens that ride on them. -/
namespace Freehold

open Cursor DeviceCert

namespace Sdk

/-- The object `attest` resolves to. Times are whole seconds. -/
structure Attestation where
  v : Int
  claim : Json.Text
  audience : List UInt8
  issuedAt : Int
  expiry : Int
  publicKey : List UInt8
  signature : List UInt8

/-- `new TextEncoder().encode(s)`. -/
def textBytes (s : Json.Text) : List UInt8 := strBytes (Utf16.decode s)

variable (ed : Ed25519) (hkdf : Vector UInt8 32 → List UInt8 → Seed)

def vaultPublicKey (dek : Vector UInt8 32) : PublicKey := ed.publicKey (Attest.vaultIdentitySeed hkdf dek)

/-- `attest` in an open session at a time in milliseconds. -/
def attest (dek : Vector UInt8 32) (claim : Json.Text) (audience : List UInt8) (ttlSeconds : Int) (now : Int) :
    Outcome Unit Attestation :=
  if claim = [] then .error ()
  else do
    let issuedAt := now / 1000
    let expiry := issuedAt + max 1 ttlSeconds
    let signature ← Attest.attest ed hkdf dek (textBytes claim) audience (asU64 issuedAt) (asU64 expiry)
    return {
      v := 1
      claim := claim
      audience := audience
      issuedAt := issuedAt
      expiry := expiry
      publicKey := (vaultPublicKey ed hkdf dek).toList
      signature := signature.toList
    }

/-- `verifyAttestation`; the result is the reason of a refusal. -/
def verifyAttestation (att : Attestation) (claim : Json.Text) (audience publicKey : List UInt8) (now : Int) :
    Outcome Unit (Option String) :=
  if att.v ≠ 1 then .ok (some "not a v1 attestation")
  else if att.expiry ≤ now / 1000 then .ok (some "expired")
  else if claim ≠ att.claim then .ok (some "claim mismatch")
  else if audience ≠ att.audience then .ok (some "audience mismatch")
  else if publicKey ≠ att.publicKey then .ok (some "public key mismatch")
  else do
    let ok ← Freehold.verifyAttestation ed att.publicKey (textBytes att.claim) att.audience (asU64 att.issuedAt)
      (asU64 att.expiry) att.signature
    return if ok then none else some "signature invalid"

end Sdk

namespace GrantToken

open Utf16 (mark)

/-- The fields of a grant. -/
structure Grant where
  grantId : Json.Text
  appId : Json.Text
  tier : Int
  scopes : List Json.Text
  purpose : Json.Text
  issuedAt : Int
  expiry : Int

structure Token extends Grant where
  v : Int
  attestation : Sdk.Attestation

/-- `n | 0`. -/
def toInt32 (n : Int) : Int := n.bmod (2 ^ 32)

/-- A whole number as JSON writes it. -/
def lexeme (n : Int) : Json.Text :=
  let digits := Utf16.encode (Nat.toDigits 10 n.natAbs)
  if n < 0 then mark '-' :: digits else digits

/-- `.slice().sort()`: by code units. -/
def sorted (scopes : List Json.Text) : List Json.Text := Words.sortBy (fun s => s.map UInt16.toNat) scopes

def text (s : Json.Text) : Json.Value := .string s

def number (n : Int) : Json.Value := .number (lexeme (toInt32 n))

/-- The object that is written out, its keys in this order. -/
def claimValue (g : Grant) : Json.Value :=
  .object [(Utf16.encode "v".toList, text (Utf16.encode "freehold-grant-v1".toList)),
    (Utf16.encode "grantId".toList, text g.grantId), (Utf16.encode "appId".toList, text g.appId),
    (Utf16.encode "tier".toList, number g.tier),
    (Utf16.encode "scopes".toList, .array ((sorted g.scopes).map text)),
    (Utf16.encode "purpose".toList, text g.purpose), (Utf16.encode "issuedAt".toList, number g.issuedAt),
    (Utf16.encode "expiry".toList, number g.expiry)]

def canonicalGrantClaim (g : Grant) : Json.Text := Json.print Json.stringify (claimValue g)

/-- What the broker asks a token for. -/
structure Request where
  grantId : Json.Text
  appId : Json.Text
  tier : Int
  scopes : List Json.Text
  purpose : Json.Text

variable (ed : Ed25519) (hkdf : Vector UInt8 32 → List UInt8 → Seed)

/-- The grant of a request at a time in milliseconds. -/
def grantAt (r : Request) (ttlSeconds now : Int) : Grant where
  grantId := r.grantId
  appId := r.appId
  tier := toInt32 r.tier
  scopes := r.scopes
  purpose := r.purpose
  issuedAt := now / 1000
  expiry := now / 1000 + max 1 ttlSeconds

/-- `issueGrantToken`; `attest` reads the clock again, later. -/
def issueGrantToken (dek : Vector UInt8 32) (r : Request) (ttlSeconds now later : Int) : Outcome Unit Token := do
  let grant := grantAt r ttlSeconds now
  let attestation ← Sdk.attest ed hkdf dek (canonicalGrantClaim grant) (Sdk.textBytes r.appId) ttlSeconds later
  return { grant with v := 1, attestation }

/-- `verifyGrantToken`; the result is the reason of a refusal. -/
def verifyGrantToken (vaultPublicKey : List UInt8) (token : Token) (scope : Option Json.Text) (now : Int) :
    Outcome Unit (Option String) :=
  if token.v ≠ 1 then .ok (some "not a v1 grant token")
  else
    let claim := canonicalGrantClaim token.toGrant
    if token.attestation.claim ≠ claim then .ok (some "claim does not match token fields (tampered)")
    else if scope.any fun s => !token.scopes.contains s then .ok (some "requested scope not in grant")
    else Sdk.verifyAttestation ed token.attestation claim (Sdk.textBytes token.appId) vaultPublicKey now

/-- The same grant, up to the order of the scopes and to what `| 0` keeps of the numbers. -/
structure Same (g h : Grant) : Prop where
  grantId : g.grantId = h.grantId
  appId : g.appId = h.appId
  tier : toInt32 g.tier = toInt32 h.tier
  scopes : g.scopes.Perm h.scopes
  purpose : g.purpose = h.purpose
  issuedAt : toInt32 g.issuedAt = toInt32 h.issuedAt
  expiry : toInt32 g.expiry = toInt32 h.expiry

section Numbers

variable {n m : Nat}

theorem digits_head (positive : 0 < n) : ∃ c rest, Nat.toDigits 10 n = c :: rest ∧ c ≠ '0' := by
  induction n using Nat.strongRecOn with
  | ind n ih =>
      by_cases small : n < 10
      · have all : ∀ k < 10, 0 < k → k.digitChar ≠ '0' := by decide
        exact ⟨n.digitChar, [], Nat.toDigits_of_lt_base small, all n small positive⟩
      · have split := Nat.toDigits_of_base_le (b := 10) (n := n) (by decide) (by omega)
        obtain ⟨c, rest, shape, other⟩ := ih (n / 10) (by omega) (by omega)
        rw [split, shape]
        exact ⟨c, _, rfl, other⟩

theorem isDigit_mark {c : Char} (digit : c.isDigit = true) :
    Json.isDigit (mark c) = true ∧ mark c ≠ mark '-' ∧ (c ≠ '0' → mark c ≠ mark '0') ∧ c.toNat < 128 := by
  have all : ∀ n < 128, (Char.ofNat n).isDigit = true → Json.isDigit (mark (Char.ofNat n)) = true ∧
      mark (Char.ofNat n) ≠ mark '-' ∧ (Char.ofNat n ≠ '0' → mark (Char.ofNat n) ≠ mark '0') ∧
      (Char.ofNat n).toNat < 128 := by decide +kernel
  have small : c.toNat < 128 := by
    simp only [Char.isDigit, Bool.and_eq_true, decide_eq_true_eq] at digit
    have top : c.toNat ≤ '9'.toNat := digit.2
    have nine : '9'.toNat = 57 := rfl
    omega
  rw [← Char.ofNat_toNat c] at digit ⊢
  exact all c.toNat small digit

theorem encode_digits (n : Nat) : Utf16.encode (Nat.toDigits 10 n) = (Nat.toDigits 10 n).map mark :=
  Utf16.encode_ascii fun _ member =>
    (isDigit_mark (Nat.isDigit_of_mem_toDigits (by decide) (by decide) member)).2.2.2

theorem unsigned_digits (n : Nat) : Json.unsigned (Utf16.encode (Nat.toDigits 10 n)) = true := by
  have digit : ∀ c ∈ Nat.toDigits 10 n, c.isDigit = true := fun c member =>
    Nat.isDigit_of_mem_toDigits (by decide) (by decide) member
  rw [encode_digits]
  cases Nat.eq_zero_or_pos n with
  | inl zero =>
      rw [zero]
      decide +kernel
  | inr positive =>
      obtain ⟨c, rest, shape, other⟩ := digits_head positive
      rw [shape] at digit ⊢
      have first := isDigit_mark (digit c List.mem_cons_self)
      have later : (rest.map mark).dropWhile Json.isDigit = [] := by
        rw [List.dropWhile_eq_nil_iff]
        intro u member
        obtain ⟨d, listed, rfl⟩ := List.mem_map.mp member
        exact (isDigit_mark (digit d (List.mem_cons_of_mem _ listed))).1
      rw [List.map_cons, Json.unsigned, if_neg (first.2.2.1 other), first.1, later]
      rfl

theorem isNumber_lexeme (n : Int) : Json.isNumber (lexeme n) = true := by
  have whole := unsigned_digits n.natAbs
  unfold lexeme
  dsimp only
  split
  · rw [Json.isNumber, if_pos rfl]
    exact whole
  · rw [encode_digits] at whole ⊢
    cases shape : Nat.toDigits 10 n.natAbs with
    | nil => exact absurd shape Nat.toDigits_ne_nil
    | cons c rest =>
        have digit := Nat.isDigit_of_mem_toDigits (b := 10) (n := n.natAbs) (c := c) (by decide) (by decide)
          (by rw [shape]; exact List.mem_cons_self)
        rw [shape, List.map_cons] at whole
        rw [List.map_cons, Json.isNumber, if_neg (isDigit_mark digit).2.1]
        exact whole

theorem encode_digits_injective (same : Utf16.encode (Nat.toDigits 10 n) = Utf16.encode (Nat.toDigits 10 m)) :
    n = m := by
  rw [← Nat.ofDigitChars_ten_toDigits (n := n), Utf16.encode_injective same, Nat.ofDigitChars_ten_toDigits]

theorem digits_ne_minus (n m : Nat) :
    mark '-' :: Utf16.encode (Nat.toDigits 10 n) ≠ Utf16.encode (Nat.toDigits 10 m) := by
  intro same
  rw [encode_digits m] at same
  cases shape : Nat.toDigits 10 m with
  | nil => exact absurd shape Nat.toDigits_ne_nil
  | cons c rest =>
      have digit := Nat.isDigit_of_mem_toDigits (b := 10) (n := m) (c := c) (by decide) (by decide)
        (by rw [shape]; exact List.mem_cons_self)
      rw [shape, List.map_cons, List.cons.injEq] at same
      exact (isDigit_mark digit).2.1 same.1.symm

theorem lexeme_injective {i j : Int} (same : lexeme i = lexeme j) : i = j := by
  unfold lexeme at same
  dsimp only at same
  by_cases negative : i < 0
  · by_cases negative' : j < 0
    · rw [if_pos negative, if_pos negative', List.cons.injEq] at same
      have values := encode_digits_injective same.2
      omega
    · rw [if_pos negative, if_neg negative'] at same
      exact absurd same (digits_ne_minus _ _)
  · by_cases negative' : j < 0
    · rw [if_neg negative, if_pos negative'] at same
      exact absurd same.symm (digits_ne_minus _ _)
    · rw [if_neg negative, if_neg negative'] at same
      have values := encode_digits_injective same
      omega

end Numbers

section Claim

variable {g h : Grant}

theorem itemsWf_text (scopes : List Json.Text) : Json.ItemsWf (scopes.map text) := by
  induction scopes with
  | nil => trivial
  | cons s scopes ih => exact ⟨trivial, ih⟩

theorem wf_claimValue (g : Grant) : (claimValue g).Wf :=
  ⟨trivial, trivial, trivial, isNumber_lexeme _, itemsWf_text _, trivial, isNumber_lexeme _, isNumber_lexeme _,
    trivial⟩

theorem wellFormed_claim (g : Grant) : Utf16.WellFormed (canonicalGrantClaim g) :=
  Json.print_wellFormed Json.wellFormed_stringify (claimValue g) (wf_claimValue g)

theorem sorted_perm (scopes : List Json.Text) : (sorted scopes).Perm scopes := List.perm_insertionSort _ _

theorem sorted_congr {scopes other : List Json.Text} (same : scopes.Perm other) : sorted scopes = sorted other := by
  have each : (sorted scopes).Perm (sorted other) := ((sorted_perm scopes).trans same).trans (sorted_perm other).symm
  apply List.Perm.eq_of_pairwise _ Words.pairwise_sortBy Words.pairwise_sortBy each
  intro s t _ _ first second
  have units : s.map UInt16.toNat = t.map UInt16.toNat := le_antisymm first second
  exact List.map_injective_iff.mpr (fun _ _ => UInt16.toNat.inj) units

/-- Two grants have one claim when they are the same. -/
theorem claim_iff : canonicalGrantClaim g = canonicalGrantClaim h ↔ Same g h := by
  constructor
  · intro printed
    have same := Json.print_injective Json.quotes_stringify (wf_claimValue g) (wf_claimValue h) printed
    simp only [claimValue, Json.Value.object.injEq, List.cons.injEq, Prod.mk.injEq, true_and, and_true, number,
      text, Json.Value.string.injEq, Json.Value.number.injEq, Json.Value.array.injEq] at same
    obtain ⟨grantId, appId, tier, scopes, purpose, issuedAt, expiry⟩ := same
    have listed : sorted g.scopes = sorted h.scopes :=
      List.map_injective_iff.mpr (fun _ _ => Json.Value.string.inj) scopes
    refine ⟨grantId, appId, lexeme_injective tier, ?_, purpose, lexeme_injective issuedAt, lexeme_injective expiry⟩
    have middle := sorted_perm g.scopes
    rw [listed] at middle
    exact middle.symm.trans (sorted_perm h.scopes)
  · intro same
    have value : claimValue g = claimValue h := by
      simp only [claimValue, number, same.grantId, same.appId, same.tier, sorted_congr same.scopes, same.purpose,
        same.issuedAt, same.expiry]
    rw [canonicalGrantClaim, canonicalGrantClaim, value]

/-- What is signed of a claim tells the claim. -/
theorem textBytes_claim (signed : Sdk.textBytes (canonicalGrantClaim g) = Sdk.textBytes (canonicalGrantClaim h)) :
    canonicalGrantClaim g = canonicalGrantClaim h := by
  have decoded : Utf16.decode (canonicalGrantClaim g) = Utf16.decode (canonicalGrantClaim h) :=
    String.ofList_injective (utf8Bytes_injective signed)
  rw [← (wellFormed_claim g).encode_decode, decoded, (wellFormed_claim h).encode_decode]

end Claim

/-- What two attestations have in common that carry one signature and are both taken. -/
structure Agrees (a b : Sdk.Attestation) : Prop where
  claim : a.claim = b.claim
  audience : a.audience = b.audience
  publicKey : a.publicKey = b.publicKey
  issuedAt : Sdk.asU64 a.issuedAt = Sdk.asU64 b.issuedAt
  expiry : Sdk.asU64 a.expiry = Sdk.asU64 b.expiry

/-- The message an attestation is signed for. -/
def messageOf (a : Sdk.Attestation) : Outcome Unit (List UInt8) :=
  Attest.canonicalMessage (Sdk.textBytes a.claim) a.audience (Sdk.asU64 a.issuedAt) (Sdk.asU64 a.expiry)

section Issue

variable {ed : Ed25519} {hkdf : Vector UInt8 32 → List UInt8 → Seed} {dek : Vector UInt8 32}

/-- What the vault has signed for a token. -/
structure Issued (ed : Ed25519) (hkdf : Vector UInt8 32 → List UInt8 → Seed) (dek : Vector UInt8 32)
    (t : Token) : Prop where
  v : t.v = 1
  attested : t.attestation.v = 1
  claim : t.attestation.claim = canonicalGrantClaim t.toGrant
  audience : t.attestation.audience = Sdk.textBytes t.appId
  publicKey : t.attestation.publicKey = (Sdk.vaultPublicKey ed hkdf dek).toList
  signed : ∃ msg, messageOf t.attestation = .ok msg ∧
    t.attestation.signature = (ed.sign (Attest.vaultIdentitySeed hkdf dek) msg).toList

theorem issued_of_issue {r : Request} {ttlSeconds now later : Int} {t : Token}
    (made : issueGrantToken ed hkdf dek r ttlSeconds now later = .ok t) : Issued ed hkdf dek t := by
  obtain ⟨attestation, attested, same⟩ := Outcome.bind_eq_ok.mp made
  cases same
  unfold Sdk.attest at attested
  split at attested
  · cases attested
  · obtain ⟨signature, signed, same⟩ := Outcome.bind_eq_ok.mp attested
    cases same
    obtain ⟨msg, message, same⟩ := Outcome.bind_eq_ok.mp signed
    cases same
    exact ⟨rfl, rfl, rfl, rfl, rfl, msg, message, rfl⟩

/-- What an accepted attestation has been through. -/
theorem verifyAttestation_ok {att : Sdk.Attestation} {claim : Json.Text} {audience publicKey : List UInt8} {now : Int} :
    Sdk.verifyAttestation ed att claim audience publicKey now = .ok none ↔
      att.v = 1 ∧ now / 1000 < att.expiry ∧ claim = att.claim ∧ audience = att.audience ∧
        publicKey = att.publicKey ∧ ∃ pk sig msg, pk.toList = att.publicKey ∧ sig.toList = att.signature ∧
          ed.decodes pk = true ∧ messageOf att = .ok msg ∧ ed.verifyStrict pk msg sig = true := by
  constructor
  · intro accepted
    unfold Sdk.verifyAttestation at accepted
    split at accepted
    · cases accepted
    split at accepted
    · cases accepted
    split at accepted
    · cases accepted
    split at accepted
    · cases accepted
    split at accepted
    · cases accepted
    · next v time claims audiences keys =>
        obtain ⟨ok, verified, same⟩ := Outcome.bind_eq_ok.mp accepted
        cases ok with
        | false => cases same
        | true =>
            unfold Freehold.verifyAttestation at verified
            split at verified
            · next pk sig key signature =>
                unfold Attest.verify at verified
                split at verified
                · next decodes =>
                    obtain ⟨msg, message, strict⟩ := Outcome.bind_eq_ok.mp verified
                    exact ⟨Decidable.not_not.mp v, by omega, Decidable.not_not.mp claims,
                      Decidable.not_not.mp audiences, Decidable.not_not.mp keys, pk, sig, msg, toList_of_byteArray key,
                      toList_of_byteArray signature, decodes, message, Outcome.ok.inj strict⟩
                · cases verified
            · cases verified
  · intro ⟨v, time, claims, audiences, keys, pk, sig, msg, key, signature, decodes, message, strict⟩
    have read : Freehold.verifyAttestation ed att.publicKey (Sdk.textBytes att.claim) att.audience
        (Sdk.asU64 att.issuedAt) (Sdk.asU64 att.expiry) att.signature = .ok true := by
      have written : Attest.canonicalMessage (Sdk.textBytes att.claim) att.audience (Sdk.asU64 att.issuedAt)
          (Sdk.asU64 att.expiry) = .ok msg := message
      rw [Freehold.verifyAttestation, ← key, ← signature, byteArray_toList, byteArray_toList]
      dsimp only
      rw [Attest.verify, if_pos decodes, written, Outcome.ok_bind, strict]
      rfl
    rw [Sdk.verifyAttestation, if_neg (not_not.mpr v), if_neg (by omega), if_neg (not_not.mpr claims),
      if_neg (not_not.mpr audiences), if_neg (not_not.mpr keys), read]
    rfl

end Issue

end GrantToken

namespace GrantSample

open GrantToken

def request : Request where
  grantId := Utf16.encode "g_1".toList
  appId := Utf16.encode "app_1".toList
  tier := 3
  scopes := [Utf16.encode "tasks.list".toList, Utf16.encode "profile.read".toList]
  purpose := []

def dek : Vector UInt8 32 := Vector.replicate 32 4

def hkdf (_ : Vector UInt8 32) (_ : List UInt8) : Seed := Vector.replicate 32 5

def grant : Grant := grantAt request 3600 0

def signedBytes : Outcome Unit (List UInt8) :=
  Attest.canonicalMessage (Sdk.textBytes (canonicalGrantClaim grant)) (Sdk.textBytes request.appId) (Sdk.asU64 0)
    (Sdk.asU64 3600)

def okMessage : Outcome Unit (List UInt8) → List UInt8
  | .ok msg => msg
  | .error _ => []
  | .panic => []

theorem okMessage_eq {o : Outcome Unit (List UInt8)} {msg : List UInt8} (made : o = .ok msg) :
    o = .ok (okMessage o) := by
  rw [made, okMessage]

/-- What is signed for the grant, an hour from the beginning of time. -/
def message : List UInt8 := okMessage signedBytes

theorem signedBytes_eq : signedBytes = .ok message := by
  have claim : (Sdk.textBytes (canonicalGrantClaim grant)).length.ble 1000 = true := by decide +kernel
  have audience : (Sdk.textBytes request.appId).length.ble 1000 = true := by decide +kernel
  have claimShort := Nat.le_of_ble_eq_true claim
  have audienceShort := Nat.le_of_ble_eq_true audience
  have short : (Sdk.textBytes (canonicalGrantClaim grant)).length ≤ 65535 ∧
      (Sdk.textBytes request.appId).length ≤ 65535 := ⟨by omega, by omega⟩
  have made := Attest.canonicalMessage_ok (Sdk.asU64 0) (Sdk.asU64 3600) short
  exact made.elim fun _ made => okMessage_eq made

def token : Token where
  toGrant := grant
  v := 1
  attestation := {
    v := 1
    claim := canonicalGrantClaim grant
    audience := Sdk.textBytes request.appId
    issuedAt := 0
    expiry := 3600
    publicKey := (Sdk.vaultPublicKey (singleScheme message) hkdf dek).toList
    signature := sampleSeal.toList
  }

theorem sign_signed (seed : Seed) (signed : List UInt8) : (singleScheme signed).sign seed signed = sampleSeal :=
  if_pos rfl

theorem issued : issueGrantToken (singleScheme message) hkdf dek request 3600 0 0 = .ok token := by
  have nonempty : canonicalGrantClaim grant ≠ [] := by
    have first : (canonicalGrantClaim grant).isEmpty = false := by decide +kernel
    exact List.isEmpty_eq_false_iff.mp first
  have signed : Attest.attest (singleScheme message) hkdf dek (Sdk.textBytes (canonicalGrantClaim grant))
      (Sdk.textBytes request.appId) (Sdk.asU64 0) (Sdk.asU64 3600) = .ok sampleSeal := by
    have bytes := signedBytes_eq
    rw [signedBytes] at bytes
    rw [Attest.attest, Attest.attestWithSeed, bytes, Outcome.ok_bind, sign_signed]
    rfl
  have ttl : max (1 : Int) 3600 = 3600 := by omega
  have attested : Sdk.attest (singleScheme message) hkdf dek (canonicalGrantClaim grant)
      (Sdk.textBytes request.appId) 3600 0 = .ok token.attestation := by
    simp only [Sdk.attest, nonempty, if_false, Int.zero_ediv, zero_add, ttl, signed, Outcome.ok_bind]
    rfl
  rw [issueGrantToken]
  exact congrArg (fun o => Outcome.bind o _) attested

/-- The token with one scope more. -/
def widened : Token := { token with scopes := Utf16.encode "profile.borrow".toList :: token.scopes }

end GrantSample

end Freehold
