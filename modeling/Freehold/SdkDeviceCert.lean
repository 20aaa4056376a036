import Freehold.DeviceCert

set_option autoImplicit false

namespace Freehold

open Cursor DeviceCert

/-- A code point of a JavaScript string, which may be a lone surrogate. -/
abbrev CodePoint := Fin 0x110000

abbrev JsString := List CodePoint

namespace Sdk

def ofChar (c : Char) : CodePoint := ⟨c.toNat, by
  have valid := c.valid
  simp only [UInt32.isValidChar, Nat.isValidChar] at valid
  show c.val.toNat < 0x110000
  omega⟩

def isSurrogate (p : CodePoint) : Bool := 0xd800 ≤ p.val && p.val ≤ 0xdfff

/-- `TextEncoder` puts U+FFFD for a lone surrogate. -/
def toChar (p : CodePoint) : Char := if isSurrogate p then Char.ofNat 0xfffd else Char.ofNat p.val

def chars (s : JsString) : List Char := s.map toChar

/-- The order of `.sort()`: by UTF-16 code units. -/
def codeUnits (s : JsString) : List Nat :=
  s.flatMap fun p =>
    if p.val < 0x10000 then [p.val]
    else [0xd800 + (p.val - 0x10000) / 0x400, 0xdc00 + (p.val - 0x10000) % 0x400]

/-- What `.trim()` takes away: white space and line ends. -/
def isJsWhite (p : CodePoint) : Bool :=
  (0x9 ≤ p.val && p.val ≤ 0xd) || p.val = 0x20 || p.val = 0xa0 || p.val = 0xfeff ||
    p.val = 0x1680 || (0x2000 ≤ p.val && p.val ≤ 0x200a) || p.val = 0x2028 || p.val = 0x2029 ||
    p.val = 0x202f || p.val = 0x205f || p.val = 0x3000

def newline : CodePoint := 0xa

/-- `caps.map((s) => String(s).trim()).filter(Boolean).sort()`. -/
def displayed (caps : List JsString) : List JsString :=
  Words.sortBy codeUnits ((caps.map (Words.trim isJsWhite)).filter fun s => !s.isEmpty)

/-- The fields of a certificate object. Times are whole seconds. -/
structure Cert where
  v : Int
  claim : JsString
  devicePubkey : List UInt8
  trustPublicKey : List UInt8
  sig : List UInt8
  issuedAt : Int
  expiry : Int
  caps : List JsString

/-- A number as it crosses to a `u64`. -/
def asU64 (n : Int) : UInt64 :=
  if n < 0 then 0 else if n < 2 ^ 64 then UInt64.ofNat n.toNat else UInt64.ofNat (2 ^ 64 - 1)

variable {width : Nat} (ed : Ed25519) (sha256 : List UInt8 → Vector UInt8 32)

/-- `session_issue_device_cert`, once the trust seed is there. -/
def sessionIssueDeviceCert (trustSeed : Seed) (devicePubkey caps : List UInt8)
    (issuedAt expiry : Int) : Outcome Unit (List UInt8 × Signature × PublicKey) := do
  let pk ← okOr () (byteArray 32 devicePubkey)
  let capsStr ← okOr () (fromUtf8 caps)
  let capList := (capsStr.toList.splitOn '\n').filter fun s => !(DeviceCert.trim s).isEmpty
  let (claim, sig) ← DeviceCert.issue ed sha256 trustSeed pk capList (asU64 issuedAt) (asU64 expiry)
  return (claim, sig, ed.publicKey trustSeed)

/-- The text of a claim, which is ASCII, as a string of the page. -/
def asciiString (text : List UInt8) : JsString :=
  text.map fun byte => ⟨byte.toNat, Nat.lt_trans byte.toNat_lt (by decide)⟩

def issueDeviceCert (trustSeed : Seed) (devicePubkey : List UInt8) (caps : List JsString)
    (issuedAt ttlSeconds : Int) : Outcome Unit Cert := do
  if devicePubkey.length ≠ 32 then .error ()
  else
    let capsBytes := strBytes (chars ([newline].intercalate caps))
    let expiry := issuedAt + max 1 ttlSeconds
    let (claim, sig, trustPublicKey) ←
      sessionIssueDeviceCert ed sha256 trustSeed devicePubkey capsBytes issuedAt expiry
    return {
      v := 1
      claim := asciiString claim
      devicePubkey := devicePubkey
      trustPublicKey := trustPublicKey.toList
      sig := sig.toList
      issuedAt := issuedAt
      expiry := expiry
      caps := displayed caps
    }

/-- The claim string as the crate gets it. -/
def claimBytes (width : Nat) (cert : Cert) : Outcome Unit (Slice width) :=
  vec width (strBytes (chars cert.claim))

/-- `verifyDeviceCert`; the result is the reason of a refusal. -/
def verifyDeviceCert (width : Nat) (cert : Cert) (expectTrust : Option (List UInt8)) (nowSec : Int) :
    Outcome Unit (Option String) :=
  if cert.v ≠ 1 then .ok (some "not a v1 device cert")
  else
    let trustPk := expectTrust.getD cert.trustPublicKey
    if trustPk ≠ cert.trustPublicKey then .ok (some "trust key mismatch")
    else do
      let claim ← claimBytes width cert
      let ok ← DeviceCert.verifyDeviceCert ed sha256 trustPk claim cert.devicePubkey cert.sig (asU64 nowSec)
      return if ok then none else some "invalid (signature / device_id / window / tamper)"

/-- The capabilities a claim lists. -/
def claimedCaps (capsCanon : List Char) : List JsString :=
  if capsCanon.isEmpty then [] else (capsCanon.splitOn '\n').map fun s => s.map ofChar

/-- What a caller reads off the object is what the signed claim says. -/
structure Binds (width : Nat) (cert : Cert) : Prop where
  fields : ∃ claim : Slice width, claimBytes width cert = .ok claim ∧
    ∃ signed, parseDeviceCertClaim claim = .ok signed ∧
      cert.devicePubkey = signed.devicePubkey.toList ∧ cert.caps = claimedCaps signed.capsCanon ∧
      cert.issuedAt = signed.issuedAt.toNat ∧ cert.expiry = signed.expiry.toNat

section Text

theorem ofChar_val (c : Char) : (ofChar c).val = c.toNat := rfl

theorem not_isSurrogate_ofChar (c : Char) : isSurrogate (ofChar c) = false := by
  have valid := c.valid
  simp only [UInt32.isValidChar, Nat.isValidChar] at valid
  have value : (ofChar c).val = c.val.toNat := rfl
  simp only [isSurrogate, value, Bool.and_eq_false_iff, decide_eq_false_iff_not]
  omega

theorem toChar_ofChar (c : Char) : toChar (ofChar c) = c := by
  rw [toChar, not_isSurrogate_ofChar, ofChar_val]
  exact Char.ofNat_toNat c

theorem toNat_toChar {p : CodePoint} (scalar : isSurrogate p = false) : (toChar p).toNat = p.val := by
  rw [toChar, scalar]
  simp only [isSurrogate, Bool.and_eq_false_iff, decide_eq_false_iff_not] at scalar
  have bound := p.isLt
  have valid : Nat.isValidChar p.val := by
    simp only [Nat.isValidChar]
    omega
  show (Char.ofNat p.val).toNat = p.val
  rw [Char.ofNat, dif_pos valid]
  rfl

theorem ofChar_toChar {p : CodePoint} (scalar : isSurrogate p = false) : ofChar (toChar p) = p :=
  Fin.ext (toNat_toChar scalar)

theorem toChar_eq_newline {p : CodePoint} : toChar p = '\n' ↔ p = newline := by
  constructor
  · intro same
    cases scalar : isSurrogate p with
    | false =>
        rw [← ofChar_toChar scalar, same]
        rfl
    | true =>
        rw [toChar, scalar, if_pos rfl] at same
        exact absurd same (by decide)
  · rintro rfl
    decide

/-- U+FEFF is white space for the page only. -/
def byteOrderMark : CodePoint := 0xfeff

theorem scalar_of_white {p : CodePoint} (isWhite : isJsWhite p = true) : isSurrogate p = false := by
  simp only [isJsWhite, Bool.or_eq_true, Bool.and_eq_true, decide_eq_true_eq] at isWhite
  simp only [isSurrogate, Bool.and_eq_false_iff, decide_eq_false_iff_not]
  omega

theorem isWhitespace_toChar {p : CodePoint} (isWhite : isJsWhite p = true) (other : p ≠ byteOrderMark) :
    isWhitespace (toChar p) = true := by
  have value := toNat_toChar (scalar_of_white isWhite)
  have distinct : p.val ≠ 0xfeff := fun same => other (Fin.ext same)
  simp only [isJsWhite, Bool.or_eq_true, Bool.and_eq_true, decide_eq_true_eq] at isWhite
  simp only [isWhitespace, value, Bool.or_eq_true, Bool.and_eq_true, decide_eq_true_eq]
  omega

theorem chars_intercalate (caps : List JsString) :
    chars ([newline].intercalate caps) = ['\n'].intercalate (caps.map chars) := by
  induction caps with
  | nil => rfl
  | cons cap caps ih =>
      cases caps with
      | nil => simp
      | cons next caps =>
          have mark : chars [newline] = ['\n'] := by decide
          rw [List.intercalate_cons_cons, List.map_cons, List.map_cons, List.intercalate_cons_cons,
            ← List.map_cons, ← ih]
          simp only [chars, List.map_append] at mark ⊢
          rw [mark]

theorem byteKey_injective : Function.Injective byteKey := by
  intro s t same
  have bytes : strBytes s = strBytes t :=
    List.map_injective_iff.mpr (fun a b equal => UInt8.toNat_inj.mp equal) same
  have texts := utf8Bytes_injective bytes
  exact String.ofList_injective texts

end Text

/-- The scopes a list of capability strings is cut into. -/
def scopesOf (caps : List JsString) : List (List Char) :=
  (caps.map chars).flatMap (Words.pieces '\n' isWhitespace)

/-- The scopes of the claim: those of the list, in the order of their bytes and once each. -/
def claimedScopes (caps : List JsString) : List (List Char) :=
  Words.dedup (Words.sortBy byteKey (scopesOf caps))

theorem ascending_claimedScopes (caps : List JsString) :
    Words.Ascending byteKey (claimedScopes caps) := Words.ascending_canonical byteKey_injective

theorem mem_claimedScopes {caps : List JsString} {s : List Char} : s ∈ claimedScopes caps ↔
    ∃ cap ∈ caps, s ∈ Words.pieces '\n' isWhitespace (chars cap) := by
  rw [claimedScopes, Words.mem_canonical, scopesOf, List.mem_flatMap]
  simp only [List.mem_map, exists_exists_and_eq_and]

theorem of_mem_claimedScopes {caps : List JsString} {s : List Char} (member : s ∈ claimedScopes caps) :
    '\n' ∉ s ∧ DeviceCert.trim s = s ∧ s ≠ [] := by
  obtain ⟨cap, _, inPieces⟩ := mem_claimedScopes.mp member
  exact Words.of_mem_pieces inPieces

/-- What the crate makes of the joined text. -/
theorem canonicalScopes_eq (caps : List JsString) :
    canonicalScopes (((chars ([newline].intercalate caps)).splitOn '\n').filter
      fun s => !(DeviceCert.trim s).isEmpty) = claimedScopes caps := by
  have text : Words.pieces '\n' isWhitespace (chars ([newline].intercalate caps)) = scopesOf caps := by
    rw [chars_intercalate, Words.pieces_intercalate]
    rfl
  have twice (lines : List (List Char)) :
      ((lines.filter fun s => !(DeviceCert.trim s).isEmpty).map DeviceCert.trim).filter
        (fun s => !s.isEmpty) = (lines.map DeviceCert.trim).filter fun s => !s.isEmpty := by
    rw [List.filter_map, List.filter_map, List.filter_filter]
    congr 1
    apply List.filter_congr
    intro s _
    simp only [Function.comp, Bool.and_self]
  rw [canonicalScopes, twice, claimedScopes, ← text]
  rfl

/-- A canonical list of scopes is well formed, and its text lists them. -/
theorem canonical_text {scopes : List (List Char)} (ascending : Words.Ascending byteKey scopes)
    (clean : ∀ s ∈ scopes, '\n' ∉ s ∧ DeviceCert.trim s = s ∧ s ≠ []) :
    capsWellFormed (['\n'].intercalate scopes) = true ∧
      claimedCaps (['\n'].intercalate scopes) = scopes.map fun s => s.map ofChar := by
  cases scopes with
  | nil => exact ⟨rfl, rfl⟩
  | cons first rest =>
      have lines : (['\n'].intercalate (first :: rest)).splitOn '\n' = first :: rest :=
        List.splitOn_intercalate _ (fun s member => (clean s member).1) (List.cons_ne_nil _ _)
      have nonempty : (['\n'].intercalate (first :: rest)).isEmpty = false := by
        rw [List.isEmpty_eq_false_iff]
        intro empty
        rw [empty, List.splitOn_nil, List.cons.injEq] at lines
        exact (clean first List.mem_cons_self).2.2 lines.1.symm
      have none : ((first :: rest).any fun s => s.isEmpty || DeviceCert.trim s ≠ s) = false := by
        rw [List.any_eq_false]
        intro s member
        have facts := clean s member
        simp [facts.2.1, facts.2.2]
      have trimmed : (((first :: rest).map DeviceCert.trim).filter fun s => !s.isEmpty) = first :: rest := by
        have same : (first :: rest).map DeviceCert.trim = first :: rest := by
          rw [List.map_congr_left (fun s member => (clean s member).2.1), List.map_id']
        rw [same, List.filter_eq_self]
        intro s member
        simp [(clean s member).2.2]
      have again : canonicalScopes (first :: rest) = first :: rest := by
        rw [canonicalScopes, trimmed]
        exact (Words.ascending_canonical byteKey_injective).unique ascending fun s => Words.mem_canonical
      constructor
      · rw [capsWellFormed, nonempty, lines]
        simp only [none, Bool.false_eq_true, if_false, canonicalizeCaps, again, decide_true]
      · rw [claimedCaps, nonempty, lines]
        rfl

/-- The white space in front of and behind a capability string. -/
def frontMargin (cap : JsString) : JsString := cap.takeWhile isJsWhite
def backMargin (cap : JsString) : JsString := (cap.dropWhile isJsWhite).rtakeWhile isJsWhite

/-- The strings that are left of a list: without margins and not empty. -/
def solid (caps : List JsString) : List JsString :=
  (caps.map (Words.trim isJsWhite)).filter fun s => !s.isEmpty

/-- Capability strings that both sides read alike: one line each, with no lone surrogate and no
margin that only one side takes away, no two the same, and in one order for both. -/
structure Plain (caps : List JsString) : Prop where
  margins : ∀ cap ∈ caps, byteOrderMark ∉ frontMargin cap ∧ byteOrderMark ∉ backMargin cap
  scopes : ∀ s ∈ solid caps,
    (∀ p ∈ s, isSurrogate p = false) ∧ newline ∉ s ∧ DeviceCert.trim (chars s) = chars s
  once : (solid caps).Nodup
  ordered : ∀ s ∈ solid caps, ∀ t ∈ solid caps,
    codeUnits s < codeUnits t → byteKey (chars s) < byteKey (chars t)

theorem mem_solid {caps : List JsString} {s : JsString} :
    s ∈ solid caps ↔ s ≠ [] ∧ ∃ cap ∈ caps, Words.trim isJsWhite cap = s := by
  rw [solid, List.mem_filter, List.mem_map]
  simp only [Bool.not_eq_true', List.isEmpty_eq_false_iff]
  exact and_comm

theorem displayed_perm (caps : List JsString) : (displayed caps).Perm (solid caps) :=
  List.perm_insertionSort _ _

theorem mem_displayed {caps : List JsString} {s : JsString} : s ∈ displayed caps ↔ s ∈ solid caps :=
  Words.mem_sortBy

/-- Without surrogates, the code units of a string are those of no other. -/
theorem codeUnits_injective {s t : JsString} (scalars : ∀ p ∈ s, isSurrogate p = false)
    (scalars' : ∀ p ∈ t, isSurrogate p = false) (same : codeUnits s = codeUnits t) : s = t := by
  induction s generalizing t with
  | nil =>
      cases t with
      | nil => rfl
      | cons q t =>
          rw [codeUnits, codeUnits, List.flatMap_cons] at same
          split at same <;> cases same
  | cons p s ih =>
      cases t with
      | nil =>
          rw [codeUnits, codeUnits, List.flatMap_cons] at same
          split at same <;> cases same
      | cons q t =>
          have first := scalars p List.mem_cons_self
          have first' := scalars' q List.mem_cons_self
          simp only [isSurrogate, Bool.and_eq_false_iff, decide_eq_false_iff_not] at first first'
          have bound := p.isLt
          have bound' := q.isLt
          have heads : p.val = q.val ∧ codeUnits s = codeUnits t := by
            rw [codeUnits, codeUnits, List.flatMap_cons, List.flatMap_cons] at same
            split at same <;> split at same <;>
              simp only [List.cons_append, List.nil_append, List.cons.injEq] at same
            · exact same
            · omega
            · omega
            · exact ⟨by omega, same.2.2⟩
          rw [Fin.ext heads.1, ih (fun r member => scalars r (List.mem_cons_of_mem _ member))
            (fun r member => scalars' r (List.mem_cons_of_mem _ member)) heads.2]

theorem map_ofChar_chars {s : JsString} (scalars : ∀ p ∈ s, isSurrogate p = false) :
    (chars s).map ofChar = s := by
  rw [chars, List.map_map]
  conv_rhs => rw [← List.map_id' s]
  exact List.map_congr_left fun p member => ofChar_toChar (scalars p member)

theorem chars_map_ofChar (s : List Char) : chars (s.map ofChar) = s := by
  rw [chars, List.map_map]
  conv_rhs => rw [← List.map_id' s]
  exact List.map_congr_left fun c _ => toChar_ofChar c

theorem white_margin {margin : JsString} (white : ∀ p ∈ margin, isJsWhite p = true)
    (noMark : byteOrderMark ∉ margin) : ∀ c ∈ chars margin, isWhitespace c = true := by
  intro c member
  obtain ⟨p, inMargin, rfl⟩ := List.mem_map.mp member
  exact isWhitespace_toChar (white p inMargin) fun same => noMark (same ▸ inMargin)

theorem white_frontMargin {cap : JsString} : ∀ p ∈ frontMargin cap, isJsWhite p = true :=
  fun _ member => List.mem_takeWhile_imp member

theorem white_backMargin {cap : JsString} : ∀ p ∈ backMargin cap, isJsWhite p = true :=
  fun _ member => List.mem_rtakeWhile_imp member

theorem chars_margins (cap : JsString) : chars cap =
    chars (frontMargin cap) ++ (chars (Words.trim isJsWhite cap) ++ chars (backMargin cap)) := by
  have whole := congrArg chars (Words.margins isJsWhite cap)
  simp only [chars, List.map_append] at whole ⊢
  exact whole

/-- The two orders agree on the displayed strings when no string stands there twice. -/
theorem ascending_displayed_iff {caps : List JsString}
    (scalars : ∀ s ∈ solid caps, ∀ p ∈ s, isSurrogate p = false) :
    Words.Ascending byteKey ((displayed caps).map chars) ↔ (solid caps).Nodup ∧
      ∀ s ∈ solid caps, ∀ t ∈ solid caps, codeUnits s < codeUnits t →
        byteKey (chars s) < byteKey (chars t) := by
  rw [Words.Ascending, List.pairwise_map]
  constructor
  · intro ascending
    have nodup : (displayed caps).Nodup :=
      ascending.imp fun {s t} less same => by
        rw [same] at less
        exact lt_irrefl _ less
    refine ⟨(displayed_perm caps).nodup_iff.mp nodup, ?_⟩
    have sorted : (displayed caps).Pairwise fun s t => codeUnits s ≤ codeUnits t := Words.pairwise_sortBy
    -- either of two strings is the first one in the list
    have both : ∀ s ∈ displayed caps, ∀ t ∈ displayed caps,
        (codeUnits s < codeUnits t → byteKey (chars s) < byteKey (chars t)) ∧
          (codeUnits t < codeUnits s → byteKey (chars t) < byteKey (chars s)) := by
      have symm : Std.Symm fun s t : JsString =>
          (codeUnits s < codeUnits t → byteKey (chars s) < byteKey (chars t)) ∧
            (codeUnits t < codeUnits s → byteKey (chars t) < byteKey (chars s)) := ⟨fun _ _ => And.symm⟩
      intro s member t member'
      apply List.Pairwise.forall_of_forall (fun s _ => ?_)
        ((sorted.and ascending).imp fun {s t} facts => ?_) member member'
      · exact ⟨fun less => absurd less (lt_irrefl _), fun less => absurd less (lt_irrefl _)⟩
      · exact ⟨fun _ => facts.2, fun less => absurd less (not_lt_of_ge facts.1)⟩
    intro s member t member'
    exact (both s (mem_displayed.mpr member) t (mem_displayed.mpr member')).1
  · rintro ⟨once, ordered⟩
    have nodup := (displayed_perm caps).nodup_iff.mpr once
    have sorted : (displayed caps).Pairwise fun s t => codeUnits s ≤ codeUnits t := Words.pairwise_sortBy
    apply (sorted.and nodup).imp_of_mem
    rintro s t member member' ⟨least, distinct⟩
    have inSolid := mem_displayed.mp member
    have inSolid' := mem_displayed.mp member'
    apply ordered s inSolid t inSolid' (lt_of_le_of_ne least _)
    intro same
    exact distinct (codeUnits_injective (scalars s inSolid) (scalars t inSolid') same)

/-- A plain capability string is one scope, or none at all. -/
theorem pieces_of_plain {caps : List JsString} (plain : Plain caps) {cap : JsString}
    (member : cap ∈ caps) {s : List Char} : s ∈ Words.pieces '\n' isWhitespace (chars cap) ↔
      Words.trim isJsWhite cap ≠ [] ∧ s = chars (Words.trim isJsWhite cap) := by
  have front := white_margin white_frontMargin (plain.margins cap member).1
  have back := white_margin white_backMargin (plain.margins cap member).2
  rw [chars_margins, Words.pieces_white_append front, Words.pieces_append_white back]
  by_cases empty : Words.trim isJsWhite cap = []
  · rw [empty]
    simp [chars]
  · obtain ⟨_, oneLine, trimmed⟩ := plain.scopes _ (mem_solid.mpr ⟨empty, cap, member, rfl⟩)
    have noBreak : '\n' ∉ chars (Words.trim isJsWhite cap) := by
      intro inChars
      obtain ⟨p, inScope, same⟩ := List.mem_map.mp inChars
      rw [toChar_eq_newline.mp same] at inScope
      exact oneLine inScope
    have whole : Words.trim isWhitespace (chars (Words.trim isJsWhite cap)) =
        chars (Words.trim isJsWhite cap) := trimmed
    have shown : (chars (Words.trim isJsWhite cap)).isEmpty = false := by
      rw [List.isEmpty_eq_false_iff]
      exact fun none => empty (List.map_eq_nil_iff.mp none)
    rw [Words.pieces_of_notMem noBreak, whole, shown]
    simp [empty]

/-- A byte order mark beside a capability string gets into the claim. -/
theorem exists_marked_piece {cap : JsString}
    (marked : byteOrderMark ∈ frontMargin cap ∨ byteOrderMark ∈ backMargin cap) :
    ∃ s ∈ Words.pieces '\n' isWhitespace (chars cap),
      s.head? = some (toChar byteOrderMark) ∨ s.getLast? = some (toChar byteOrderMark) := by
  have solid : ¬isWhitespace (toChar byteOrderMark) = true := by decide
  have letter : toChar byteOrderMark ≠ '\n' := by decide
  rcases marked with inFront | inBack
  · obtain ⟨a, b, split, none⟩ := List.eq_append_cons_of_mem inFront
    have white : ∀ c ∈ chars a, isWhitespace c = true := by
      apply white_margin _ none
      intro p member
      rw [frontMargin] at split
      have whole : p ∈ cap.takeWhile isJsWhite := by
        rw [split]
        exact List.mem_append_left _ member
      exact List.mem_takeWhile_imp whole
    obtain ⟨s, inPieces, first⟩ := Words.exists_piece_head
      (l := chars b ++ (chars (Words.trim isJsWhite cap) ++ chars (backMargin cap))) solid letter
    refine ⟨s, ?_, .inl first⟩
    have whole : chars cap = chars a ++ (toChar byteOrderMark ::
        (chars b ++ (chars (Words.trim isJsWhite cap) ++ chars (backMargin cap)))) := by
      rw [chars_margins, split]
      simp [chars]
    rw [whole, Words.pieces_white_append white]
    exact inPieces
  · obtain ⟨a, b, split, none⟩ := Words.split_last inBack
    have white : ∀ c ∈ chars b, isWhitespace c = true := by
      apply white_margin _ none
      intro p member
      rw [backMargin] at split
      have whole : p ∈ (cap.dropWhile isJsWhite).rtakeWhile isJsWhite := by
        rw [split]
        exact List.mem_append_right _ (List.mem_cons_of_mem _ member)
      exact List.mem_rtakeWhile_imp whole
    obtain ⟨s, inPieces, last⟩ := Words.exists_piece_last
      (l := chars (frontMargin cap) ++ (chars (Words.trim isJsWhite cap) ++ chars a)) solid letter
    refine ⟨s, ?_, .inr last⟩
    have whole : chars cap = (chars (frontMargin cap) ++ (chars (Words.trim isJsWhite cap) ++ chars a) ++
        [toChar byteOrderMark]) ++ chars b := by
      rw [chars_margins, split]
      simp [chars]
    rw [whole, Words.pieces_append_white white]
    exact inPieces

/-- The object lists the scopes of its claim exactly when the strings are plain. -/
theorem displayed_eq_iff (caps : List JsString) :
    displayed caps = (claimedScopes caps).map (fun s => s.map ofChar) ↔ Plain caps := by
  constructor
  · intro same
    have listed : (displayed caps).map chars = claimedScopes caps := by
      rw [same, List.map_map]
      conv_rhs => rw [← List.map_id' (claimedScopes caps)]
      exact List.map_congr_left fun s _ => chars_map_ofChar s
    have clean : ∀ s ∈ solid caps,
        (∀ p ∈ s, isSurrogate p = false) ∧ newline ∉ s ∧ DeviceCert.trim (chars s) = chars s := by
      intro s member
      rw [← mem_displayed, same] at member
      obtain ⟨scope, inClaim, rfl⟩ := List.mem_map.mp member
      obtain ⟨oneLine, trimmed, _⟩ := of_mem_claimedScopes inClaim
      refine ⟨?_, ?_, by rw [chars_map_ofChar, trimmed]⟩
      · intro p inScope
        obtain ⟨c, _, rfl⟩ := List.mem_map.mp inScope
        exact not_isSurrogate_ofChar c
      · intro inScope
        obtain ⟨c, inChars, isBreak⟩ := List.mem_map.mp inScope
        rw [← toChar_eq_newline, toChar_ofChar] at isBreak
        rw [isBreak] at inChars
        exact oneLine inChars
    have ascending : Words.Ascending byteKey ((displayed caps).map chars) := by
      rw [listed]
      exact ascending_claimedScopes caps
    obtain ⟨once, ordered⟩ := (ascending_displayed_iff fun s member => (clean s member).1).mp ascending
    refine ⟨?_, clean, once, ordered⟩
    intro cap member
    rw [← not_or]
    intro marked
    obtain ⟨s, inPieces, atEnd⟩ := exists_marked_piece marked
    have inClaim : s ∈ claimedScopes caps := mem_claimedScopes.mpr ⟨cap, member, inPieces⟩
    have inDisplay : s.map ofChar ∈ displayed caps := by
      rw [same]
      exact List.mem_map_of_mem inClaim
    obtain ⟨_, other, _, trimmed⟩ := mem_solid.mp (mem_displayed.mp inDisplay)
    have mark : ofChar (toChar byteOrderMark) = byteOrderMark := ofChar_toChar (by decide)
    have isWhite : isJsWhite byteOrderMark = true := by decide
    rcases atEnd with first | last
    · have atMark : (Words.trim isJsWhite other).head? = some byteOrderMark := by
        rw [trimmed, List.head?_map, first, Option.map_some, mark]
      exact Words.head?_trim atMark isWhite
    · have atMark : (Words.trim isJsWhite other).getLast? = some byteOrderMark := by
        rw [trimmed, List.getLast?_map, last, Option.map_some, mark]
      exact Words.getLast?_trim atMark isWhite
  · intro plain
    have ascending : Words.Ascending byteKey ((displayed caps).map chars) :=
      (ascending_displayed_iff fun s member => (plain.scopes s member).1).mpr ⟨plain.once, plain.ordered⟩
    have scopes : (displayed caps).map chars = claimedScopes caps := by
      apply ascending.unique (ascending_claimedScopes caps)
      intro s
      rw [mem_claimedScopes, List.mem_map]
      constructor
      · rintro ⟨shown, inDisplay, rfl⟩
        obtain ⟨some_left, cap, member, rfl⟩ := mem_solid.mp (mem_displayed.mp inDisplay)
        exact ⟨cap, member, (pieces_of_plain plain member).mpr ⟨some_left, rfl⟩⟩
      · rintro ⟨cap, member, inPieces⟩
        obtain ⟨some_left, rfl⟩ := (pieces_of_plain plain member).mp inPieces
        exact ⟨_, mem_displayed.mpr (mem_solid.mpr ⟨some_left, cap, member, rfl⟩), rfl⟩
    rw [← scopes, List.map_map]
    conv_lhs => rw [← List.map_id' (displayed caps)]
    exact List.map_congr_left fun s member =>
      (map_ofChar_chars (plain.scopes s (mem_displayed.mp member)).1).symm

theorem chars_asciiString {text : List UInt8} (ascii : ∀ b ∈ text, b < 128) :
    chars (asciiString text) = asChars text := by
  rw [chars, asciiString, asChars, List.map_map]
  apply List.map_congr_left
  intro b member
  have small : b.toNat < 128 := ascii b member
  have scalar : isSurrogate (⟨b.toNat, Nat.lt_trans b.toNat_lt (by decide)⟩ : CodePoint) = false := by
    simp only [isSurrogate, Bool.and_eq_false_iff, decide_eq_false_iff_not]
    omega
  show toChar _ = _
  rw [toChar, scalar]
  rfl

theorem fromUtf8_strBytes (s : List Char) : fromUtf8 (strBytes s) = some (String.ofList s) :=
  fromUtf8_utf8Bytes _

variable (ed : Ed25519) (sha256 : List UInt8 → Vector UInt8 32)

/-- What the crate signs for the page. -/
def issuedFields (trustSeed : Seed) (devicePubkey : PublicKey) (deviceId : List Char)
    (caps : List JsString) (issuedAt expiry : Int) : CertFields :=
  ⟨ed.publicKey trustSeed, deviceId, devicePubkey, ['\n'].intercalate (claimedScopes caps),
    asU64 issuedAt, asU64 expiry⟩

/-- A certificate as it is issued. -/
structure Issued (trustSeed : Seed) (caps : List JsString) (issuedAt expiry : Int) (cert : Cert)
    (devicePubkey : PublicKey) (deviceId : List Char) (text msg : List UInt8) : Prop where
  hashed : deviceIdFromPubkey sha256 devicePubkey = .ok deviceId
  written : claimText (issuedFields ed trustSeed devicePubkey deviceId caps issuedAt expiry) = .ok text
  message : Attest.canonicalMessage text (strBytes deviceId) (asU64 issuedAt) (asU64 expiry) = .ok msg
  cert_eq : cert = {
    v := 1
    claim := asciiString text
    devicePubkey := devicePubkey.toList
    trustPublicKey := (ed.publicKey trustSeed).toList
    sig := (ed.sign trustSeed msg).toList
    issuedAt := issuedAt
    expiry := expiry
    caps := displayed caps
  }

theorem issueDeviceCert_spec {trustSeed : Seed} {devicePubkey : List UInt8} {caps : List JsString}
    {issuedAt ttlSeconds : Int} {cert : Cert}
    (issued : issueDeviceCert ed sha256 trustSeed devicePubkey caps issuedAt ttlSeconds = .ok cert) :
    ∃ pk deviceId text msg, Issued ed sha256 trustSeed caps issuedAt (issuedAt + max 1 ttlSeconds) cert
      pk deviceId text msg := by
  unfold issueDeviceCert at issued
  split at issued
  · cases issued
  · next length =>
      obtain ⟨pk, made, list⟩ := byteArray_eq (Decidable.not_not.mp length)
      obtain ⟨⟨_, _, _⟩, session, returned⟩ := Outcome.bind_eq_ok.mp issued
      have text : okOr () (fromUtf8 (strBytes (chars ([newline].intercalate caps)))) =
          .ok (String.ofList (chars ([newline].intercalate caps))) := by
        rw [fromUtf8_strBytes]
        rfl
      rw [sessionIssueDeviceCert, made, Outcome.ok_bind, text, Outcome.ok_bind] at session
      simp only [String.toList_ofList] at session
      obtain ⟨⟨_, _⟩, signed, same⟩ := Outcome.bind_eq_ok.mp session
      cases same
      obtain ⟨deviceId, hashed, rest⟩ := Outcome.bind_eq_ok.mp signed
      obtain ⟨_, written, rest⟩ := Outcome.bind_eq_ok.mp rest
      obtain ⟨_, attested, same⟩ := Outcome.bind_eq_ok.mp rest
      cases same
      obtain ⟨msg, message, same⟩ := Outcome.bind_eq_ok.mp attested
      cases same
      rw [buildDeviceCertClaim, canonicalizeCaps, canonicalScopes_eq] at written
      cases returned
      rw [← list]
      exact ⟨pk, deviceId, _, msg, hashed, written, message, rfl⟩

variable {width : Nat} {ed sha256}

/-- The page hands the crate the text it was given. -/
theorem Issued.claimBytes_eq {trustSeed : Seed} {caps : List JsString} {issuedAt expiry : Int}
    {cert : Cert} {pk : PublicKey} {deviceId : List Char} {text msg : List UInt8} (wide : 32 ≤ width)
    (issued : Issued ed sha256 trustSeed caps issuedAt expiry cert pk deviceId text msg) :
    ∃ claim : Slice width, claim.bytes = text ∧ claimBytes width cert = .ok claim ∧
      parseDeviceCertClaim claim = .ok (issuedFields ed trustSeed pk deviceId caps issuedAt expiry) := by
  have ascii := ascii_of_claimText issued.written
  have short := Attest.short_of_canonicalMessage issued.message
  have big : 2 ^ 32 ≤ 2 ^ width := Nat.pow_le_pow_right Nat.two_pos wide
  have fits : text.length < 2 ^ width := by omega
  refine ⟨⟨text, fits⟩, rfl, ?_, parse_claimText (short_of_claimText issued.written) issued.written⟩
  rw [issued.cert_eq]
  show vec width (strBytes (chars (asciiString text))) = _
  rw [chars_asciiString ascii, strBytes_asChars ascii, vec, dif_pos fits]

theorem toNat_asU64 (n : Int) : (asU64 n).toNat = min n.toNat (2 ^ 64 - 1) := by
  have literal : ((2 : Int) ^ 64) = 18446744073709551616 := by decide
  unfold asU64
  split
  · show 0 = _
    omega
  · split
    · next small =>
        have bound : n.toNat < 2 ^ 64 := by omega
        rw [UInt64.toNat_ofNat_of_lt' bound]
        omega
    · show 2 ^ 64 - 1 = _
      omega

theorem asU64_mono {m n : Int} (ordered : m ≤ n) : asU64 m ≤ asU64 n := by
  rw [UInt64.le_iff_toNat_le, toNat_asU64, toNat_asU64]
  omega

/-- The numbers that cross unchanged. -/
theorem asU64_exact (n : Int) : n = (asU64 n).toNat ↔ 0 ≤ n ∧ n < 2 ^ 64 := by
  have literal : ((2 : Int) ^ 64) = 18446744073709551616 := by decide
  rw [toNat_asU64]
  omega

/-- An issued certificate is accepted at the time of its issue. -/
theorem Issued.accepted {trustSeed : Seed} {caps : List JsString} {issuedAt expiry : Int}
    {cert : Cert} {pk : PublicKey} {deviceId : List Char} {text msg : List UInt8} (wide : 32 ≤ width)
    (issued : Issued ed sha256 trustSeed caps issuedAt expiry cert pk deviceId text msg)
    (ordered : issuedAt ≤ expiry) :
    verifyDeviceCert ed sha256 width cert none issuedAt = .ok none := by
  obtain ⟨claim, bytes, given, parsed⟩ := issued.claimBytes_eq wide
  have wellFormed : capsWellFormed (['\n'].intercalate (claimedScopes caps)) = true :=
    (canonical_text (ascending_claimedScopes caps) fun s member => of_mem_claimedScopes member).1
  have passed : DeviceCert.verify ed sha256 (ed.publicKey trustSeed) claim pk (ed.sign trustSeed msg)
      (asU64 issuedAt) = .ok true := by
    have short := short_of_claimText issued.written
    rw [DeviceCert.verify, parsed]
    rcases verifyFields_cases ed sha256 (ed.publicKey trustSeed) pk claim (ed.sign trustSeed msg)
      (asU64 issuedAt) short with ⟨_, fails⟩ | ⟨_, decided⟩
    · exact absurd ⟨rfl, rfl, by rw [bytes, issued.written], issued.hashed, wellFormed⟩ fails
    · dsimp only
      rw [decided]
      have signed : Attest.verify ed (ed.publicKey trustSeed) claim.bytes (strBytes deviceId)
          (asU64 issuedAt) (asU64 expiry) (ed.sign trustSeed msg) = .ok true := by
        rw [Attest.verify, if_pos (ed.decodes_publicKey trustSeed), bytes, issued.message, Outcome.ok_bind,
          ed.verifyStrict_sign]
        rfl
      show (Attest.verify ed (ed.publicKey trustSeed) claim.bytes (strBytes deviceId)
        (asU64 issuedAt) (asU64 expiry) (ed.sign trustSeed msg) >>= _) = _
      rw [signed]
      show Outcome.ok (decide (asU64 issuedAt ≤ asU64 issuedAt ∧ asU64 issuedAt ≤ asU64 expiry)) = _
      rw [decide_eq_true ⟨UInt64.le_refl _, asU64_mono ordered⟩]
  rw [issued.cert_eq] at given ⊢
  unfold verifyDeviceCert
  rw [if_neg (not_not_intro rfl)]
  dsimp only [Option.getD_none]
  rw [if_neg (not_not_intro rfl), given, Outcome.ok_bind]
  show (DeviceCert.verifyDeviceCert ed sha256 (ed.publicKey trustSeed).toList claim pk.toList
    (ed.sign trustSeed msg).toList (asU64 issuedAt) >>= _) = _
  rw [DeviceCert.verifyDeviceCert, byteArray_toList, byteArray_toList, byteArray_toList]
  dsimp only
  rw [passed]
  rfl

/-- An issued certificate is bound when its strings are plain and its times fit. -/
theorem Issued.binds_iff {trustSeed : Seed} {caps : List JsString} {issuedAt expiry : Int}
    {cert : Cert} {pk : PublicKey} {deviceId : List Char} {text msg : List UInt8} (wide : 32 ≤ width)
    (issued : Issued ed sha256 trustSeed caps issuedAt expiry cert pk deviceId text msg) :
    Binds width cert ↔ Plain caps ∧ (0 ≤ issuedAt ∧ issuedAt < 2 ^ 64) ∧ 0 ≤ expiry ∧ expiry < 2 ^ 64 := by
  obtain ⟨claim, _, given, parsed⟩ := issued.claimBytes_eq wide
  have listed : claimedCaps (['\n'].intercalate (claimedScopes caps)) =
      (claimedScopes caps).map fun s => s.map ofChar :=
    (canonical_text (ascending_claimedScopes caps) fun s member => of_mem_claimedScopes member).2
  rw [← displayed_eq_iff, ← asU64_exact, ← asU64_exact, ← listed]
  constructor
  · rintro ⟨other, givenToo, signed, parsedToo, _, caps_eq, issued_eq, expiry_eq⟩
    rw [given, Outcome.ok.injEq] at givenToo
    rw [← givenToo, parsed, Outcome.ok.injEq] at parsedToo
    subst parsedToo
    rw [issued.cert_eq] at caps_eq issued_eq expiry_eq
    exact ⟨caps_eq, issued_eq, expiry_eq⟩
  · rintro ⟨caps_eq, issued_eq, expiry_eq⟩
    refine ⟨claim, given, _, parsed, ?_⟩
    rw [issued.cert_eq]
    exact ⟨rfl, caps_eq, issued_eq, expiry_eq⟩

/-- The device key of an accepted object is the one of its claim. -/
theorem devicePubkey_of_accepted {cert : Cert} {expectTrust : Option (List UInt8)} {nowSec : Int}
    (accepted : verifyDeviceCert ed sha256 width cert expectTrust nowSec = .ok none) :
    ∃ claim : Slice width, claimBytes width cert = .ok claim ∧
      ∃ signed, parseDeviceCertClaim claim = .ok signed ∧
        cert.devicePubkey = signed.devicePubkey.toList := by
  unfold verifyDeviceCert at accepted
  split at accepted
  · cases accepted
  · dsimp only at accepted
    split at accepted
    · cases accepted
    · obtain ⟨claim, given, accepted⟩ := Outcome.bind_eq_ok.mp accepted
      obtain ⟨passed, checked, same⟩ := Outcome.bind_eq_ok.mp accepted
      cases passed with
      | false => cases same
      | true =>
          refine ⟨claim, given, ?_⟩
          unfold DeviceCert.verifyDeviceCert at checked
          split at checked
          · next tk dk s _ device _ =>
              unfold DeviceCert.verify at checked
              split at checked
              · next fields parsed =>
                  refine ⟨fields, parsed, ?_⟩
                  unfold verifyFields at checked
                  split at checked
                  · cases checked
                  · next keys =>
                      rw [not_or, Decidable.not_not, Decidable.not_not] at keys
                      rw [keys.2, toList_of_byteArray device]
              · cases checked
              · cases checked
          · cases checked

/-- The page does not look at the displayed fields. -/
theorem verifyDeviceCert_displayed (cert : Cert) (expectTrust : Option (List UInt8)) (nowSec : Int)
    (caps : List JsString) (issuedAt expiry : Int) :
    verifyDeviceCert ed sha256 width { cert with caps := caps, issuedAt := issuedAt, expiry := expiry }
      expectTrust nowSec = verifyDeviceCert ed sha256 width cert expectTrust nowSec := rfl

/-- No claim was issued before the epoch. -/
theorem not_binds_altered (cert : Cert) : ¬Binds width { cert with issuedAt := -1 } := by
  rintro ⟨_, _, signed, _, _, _, issued_eq, _⟩
  have negative : (-1 : Int) = signed.issuedAt.toNat := issued_eq
  omega

end Sdk

/-- When the displayed fields are the signed ones. The device key always is. The other fields are
never looked at, so every accepted claim has objects that display something else. An object just
as it was issued displays what was signed when its capability strings are plain and its times fit. -/
theorem displays_signed (t : Target) (ed : Ed25519) (sha256 : List UInt8 → Vector UInt8 32) :
    (∀ (cert : Sdk.Cert) (expectTrust : Option (List UInt8)) (nowSec : Int),
      (Sdk.verifyDeviceCert ed sha256 t.usizeBits cert expectTrust nowSec = .ok none →
        ∃ claim : Slice t.usizeBits, Sdk.claimBytes t.usizeBits cert = .ok claim ∧
          ∃ signed, parseDeviceCertClaim claim = .ok signed ∧
            cert.devicePubkey = signed.devicePubkey.toList) ∧
      ((∀ caps issuedAt expiry,
        let shown := { cert with caps := caps, issuedAt := issuedAt, expiry := expiry }
        Sdk.verifyDeviceCert ed sha256 t.usizeBits shown expectTrust nowSec = .ok none →
          Sdk.Binds t.usizeBits shown) ↔
        Sdk.verifyDeviceCert ed sha256 t.usizeBits cert expectTrust nowSec ≠ .ok none)) ∧
    ∀ (trustSeed : Seed) (devicePubkey : List UInt8) (caps : List JsString) (issuedAt ttlSeconds : Int)
      (cert : Sdk.Cert),
      Sdk.issueDeviceCert ed sha256 trustSeed devicePubkey caps issuedAt ttlSeconds = .ok cert →
      ((∀ expectTrust nowSec,
        Sdk.verifyDeviceCert ed sha256 t.usizeBits cert expectTrust nowSec = .ok none →
          Sdk.Binds t.usizeBits cert) ↔
        Sdk.Plain caps ∧ 0 ≤ issuedAt ∧ issuedAt + max 1 ttlSeconds < 2 ^ 64) := by
  constructor
  · intro cert expectTrust nowSec
    refine ⟨Sdk.devicePubkey_of_accepted, ?_⟩
    constructor
    · intro bound accepted
      exact Sdk.not_binds_altered _ (bound cert.caps (-1) cert.expiry accepted)
    · intro rejected caps issuedAt expiry _ accepted
      exact absurd accepted rejected
  · intro trustSeed devicePubkey caps issuedAt ttlSeconds cert issued
    obtain ⟨pk, deviceId, text, msg, issued⟩ := Sdk.issueDeviceCert_spec ed sha256 issued
    have binds := issued.binds_iff t.le_usizeBits
    have literal : ((2 : Int) ^ 64) = 18446744073709551616 := by decide
    have times : (0 ≤ issuedAt ∧ issuedAt < 2 ^ 64) ∧ 0 ≤ issuedAt + max 1 ttlSeconds ∧
        issuedAt + max 1 ttlSeconds < 2 ^ 64 ↔ 0 ≤ issuedAt ∧ issuedAt + max 1 ttlSeconds < 2 ^ 64 := by
      omega
    rw [times] at binds
    rw [← binds]
    constructor
    · intro bound
      exact bound none issuedAt (issued.accepted t.le_usizeBits (by omega))
    · intro bound _ _ _
      exact bound

namespace Sdk

def read : JsString := [0x72, 0x65, 0x61, 0x64]

/-- A hash for the concrete runs. -/
def sampleHash (_ : List UInt8) : Vector UInt8 32 := Vector.replicate 32 0

/-- A scope given twice is displayed twice and signed once. -/
theorem repeated_scope_displayed : ∃ cert,
    issueDeviceCert sampleScheme sampleHash (Vector.replicate 32 7) basePoint [read, read]
      1700000000 3600 = .ok cert ∧
    verifyDeviceCert sampleScheme sampleHash 32 cert none 1700000000 = .ok none ∧ ¬Binds 32 cert ∧
    verifyDeviceCert sampleScheme sampleHash 32 { cert with caps := [], expiry := 9999999999 } none
      1700000000 = .ok none ∧
    ¬Binds 32 { cert with caps := [], expiry := 9999999999 } := by
  have returned : (match issueDeviceCert sampleScheme sampleHash (Vector.replicate 32 7) basePoint
      [read, read] 1700000000 3600 with
      | .ok _ => true
      | _ => false) = true := by
    decide +kernel
  split at returned
  · next cert found =>
      obtain ⟨pk, deviceId, text, msg, issued⟩ := issueDeviceCert_spec _ _ found
      have accepted := issued.accepted (Nat.le_refl 32) (by decide)
      have binds := issued.binds_iff (Nat.le_refl 32)
      have notPlain : ¬Plain [read, read] := by
        intro plain
        have given : solid [read, read] = [read, read] := by decide +kernel
        have once := plain.once
        rw [given] at once
        exact absurd once (by decide +kernel)
      refine ⟨cert, found, accepted, ?_, accepted, ?_⟩
      · rw [binds]
        exact fun plain => notPlain plain.1
      · rintro ⟨claim, given, signed, parsed, _, _, _, expiry_eq⟩
        obtain ⟨other, _, givenToo, parsedToo⟩ := issued.claimBytes_eq (Nat.le_refl 32)
        have same : claimBytes 32 cert = .ok claim := given
        rw [givenToo, Outcome.ok.injEq] at same
        rw [← same, parsedToo, Outcome.ok.injEq] at parsed
        rw [← parsed] at expiry_eq
        have times : (9999999999 : Int) = (asU64 1700003600).toNat := expiry_eq
        exact absurd times (by decide)
  · cases returned

end Sdk

end Freehold
