import Freehold.EnvelopeBytes
import Freehold.ExportRecovery

set_option autoImplicit false

/- Two crates read the same formats with code of their own. What one of them accepts, the
other accepts, and they find the same in it. -/
namespace Freehold.Decrypt

open Cursor

variable {width width' : Nat}

section Bundles

theorem accepts_leU16 (wide : 32 ≤ width) : Read.Accepts (leU16 : Read width Error Nat)
    fun read n => read = toLe 2 n ∧ n < 2 ^ 16 :=
  Read.accepts_word _ _ (Nat.pow_le_pow_right Nat.two_pos (by omega) : 2 ^ 16 ≤ 2 ^ width)

theorem accepts_leU32 (wide : 32 ≤ width) : Read.Accepts (leU32 : Read width Error Nat)
    fun read n => read = toLe 4 n ∧ n < 2 ^ 32 :=
  Read.accepts_word _ _ (Nat.pow_le_pow_right Nat.two_pos wide : 2 ^ 32 ≤ 2 ^ width)

theorem accepts_take (n : Nat) : Read.Accepts (take n : Read width Error _)
    fun read value => value = read ∧ read.length = n := Read.accepts_take _ _ n

theorem accepts_bytes (wide : 32 ≤ width) (assign : List UInt8 → Bundle) :
    Read.Accepts (do let n ← leU32; let read ← take n; return assign read : Read width Error Bundle)
      fun read next => ∃ bytes, bytes.length < 2 ^ 32 ∧ read = toLe 4 bytes.length ++ bytes ∧
        next = assign bytes := by
  apply (accepts_leU32 wide).bind
  intro _ n sized
  apply (accepts_take n).bind
  intro _ bytes taken
  apply (Read.Accepts.pure _).imp
  intro _ _ finished
  obtain ⟨rfl, small⟩ := sized
  obtain ⟨rfl, rfl⟩ := taken
  obtain ⟨rfl, rfl⟩ := finished
  exact ⟨bytes, small, by rw [List.append_nil], rfl⟩

/-- What the branches of the match accept is a section of the format. -/
theorem accepts_parsePayload (wide : 32 ≤ width) (tag : UInt8) (bundle : Bundle) :
    Read.Accepts (parsePayload tag bundle : Read width Error Bundle)
      fun read next => ∃ part : BundleWire.Part, part.Fits ∧ tag :: read = part.encode ∧
        next = applyPart bundle part := by
  unfold parsePayload
  split
  · next envelope =>
      apply (accepts_bytes wide _).imp
      rintro _ _ ⟨bytes, small, rfl, rfl⟩
      exact ⟨.envelope bytes, small, by rw [envelope]; rfl, rfl⟩
  split
  · next credId =>
      apply (accepts_bytes wide fun _ => bundle).imp
      rintro _ _ ⟨bytes, small, rfl, rfl⟩
      exact ⟨.credId bytes, small, by rw [credId]; rfl, rfl⟩
  split
  · next file =>
      apply (accepts_leU16 wide).bind
      intro _ nlen nameSized
      apply (accepts_take nlen).bind
      intro _ text nameTaken
      have utf8 : (okOr (.bundle "file name not UTF-8") (fromUtf8 text) : Outcome Error String).Meets
          fun name => utf8Bytes name = text := by
        cases decoded : fromUtf8 text with
        | none => trivial
        | some name => exact utf8Bytes_of_fromUtf8 decoded
      apply (Read.Accepts.lift utf8).bind
      intro _ name named
      apply (accepts_leU32 wide).bind
      intro _ dlen dataSized
      apply (accepts_take dlen).bind
      intro _ data dataTaken
      apply (Read.Accepts.pure _).imp
      intro _ _ finished
      obtain ⟨rfl, nameSmall⟩ := nameSized
      obtain ⟨rfl, rfl⟩ := nameTaken
      obtain ⟨rfl, rfl⟩ := named
      obtain ⟨rfl, dataSmall⟩ := dataSized
      obtain ⟨rfl, rfl⟩ := dataTaken
      obtain ⟨rfl, rfl⟩ := finished
      refine ⟨.file name data, ⟨nameSmall, dataSmall⟩, ?_, rfl⟩
      simp only [BundleWire.Part.encode, BundleWire.encodeFile, file, tagFile, BundleWire.tagFile,
        List.append_assoc, List.cons_append, List.nil_append, List.append_nil]
  split
  · next epoch =>
      apply (accepts_bytes wide fun _ => bundle).imp
      rintro _ _ ⟨bytes, small, rfl, rfl⟩
      exact ⟨.epoch bytes, small, by rw [epoch]; rfl, rfl⟩
  · exact Read.Accepts.fail _

/-- `read` is one section, and `next` is the bundle after it. -/
def Bundle.Steps (bundle : Bundle) (read : List UInt8) (next : Bundle) : Prop :=
  ∃ part : BundleWire.Part, part.Fits ∧ read = part.encode ∧ next = applyPart bundle part

theorem parseSection_meets (wide : 32 ≤ width) {b : Slice width} (bundle : Bundle) {pos : Nat}
    (more : pos < b.bytes.length) :
    ((parseSection bundle : Read width Error Bundle).run b pos).Meets fun out =>
      ∃ read, b.Between pos read out.2 ∧ read ≠ [] ∧ bundle.Steps read out.1 := by
  apply (Read.byte_meets more).bind
  intro tagged first
  apply (accepts_parsePayload wide tagged.1 bundle b tagged.2 first.stop_le).imp
  intro next accepted
  obtain ⟨read, rest, part, fits, same, applied⟩ := accepted
  exact ⟨tagged.1 :: read, first.append rest, List.cons_ne_nil _ _, part, fits, same, applied⟩

theorem parts_of_chain {bundle last : Bundle} {reads : List (List UInt8)}
    (chain : Read.Chain Bundle.Steps bundle reads last) :
    ∃ parts : List BundleWire.Part, (∀ part ∈ parts, part.Fits) ∧
      reads = parts.map BundleWire.Part.encode ∧ last = parts.foldl applyPart bundle := by
  induction chain with
  | nil bundle => exact ⟨[], by simp, rfl, rfl⟩
  | cons head tail ih =>
      obtain ⟨part, fits, rfl, rfl⟩ := head
      obtain ⟨parts, rest, rfl, rfl⟩ := ih
      exact ⟨part :: parts, List.forall_mem_cons.mpr ⟨fits, rest⟩, rfl, rfl⟩

theorem parseBundle_meets (wide : 32 ≤ width) (b : Slice width) :
    (parseBundle b).Meets (Parsed b.bytes) := by
  unfold parseBundle
  split
  · trivial
  · next long =>
      have front : b.Between 0 ((b.bytes.take 8).drop 0) 8 :=
        Slice.between_of_le (by omega) (by omega)
      have ninth := Slice.between_index (by omega : 8 < b.bytes.length)
      rw [front.range_eq, Outcome.ok_bind]
      split
      · trivial
      · next isMagic =>
          rw [ninth.index_eq, Outcome.ok_bind]
          split
          · trivial
          · next isVersion =>
              have head := front.append ninth
              rw [Decidable.not_not.mp isMagic, Decidable.not_not.mp isVersion, bundleMagic_eq] at head
              have loop := Read.untilEnd_meets (fun bundle pos more => parseSection_meets wide bundle more)
                (by omega : 9 ≤ b.bytes.length) (by omega : _ < b.bytes.length + 1) ⟨[], []⟩
              apply loop.bind
              intro out reached
              obtain ⟨_, reads, tail, chain⟩ := reached
              dsimp only
              split
              · trivial
              · next enveloped =>
                  obtain ⟨parts, fits, rfl, final⟩ := parts_of_chain chain
                  refine ⟨parts, fits, b.between_all.unique (head.append tail), final.symm, ?_⟩
                  simpa using enveloped

theorem parseBundle_eq_ok (wide : 32 ≤ width) {b : Slice width} {bundle : Bundle} :
    parseBundle b = .ok bundle ↔ Parsed b.bytes bundle :=
  ⟨fun parsed => (parseBundle_meets wide b).of_ok parsed, parseBundle_of_parsed wide⟩

/-- Both loops hold the same envelope and files, and one has seen a section if there are bytes. -/
structure Alike (bundle : Bundle) (loop : BundleWire.Decoding) : Prop where
  envelope : loop.bundle.envelope = bundle.envelope
  files : loop.bundle.files = bundle.files
  seen : bundle.envelope ≠ [] → loop.haveEnvelope = true

theorem Alike.apply {bundle : Bundle} {loop : BundleWire.Decoding} (alike : Alike bundle loop)
    (part : BundleWire.Part) : Alike (applyPart bundle part) (part.apply loop) := by
  cases part with
  | envelope bytes => exact ⟨rfl, alike.files, fun _ => rfl⟩
  | credId bytes => exact ⟨alike.envelope, alike.files, alike.seen⟩
  | file name data =>
      refine ⟨alike.envelope, ?_, alike.seen⟩
      simp only [BundleWire.Part.apply, applyPart, alike.files]
  | epoch bytes => exact ⟨alike.envelope, alike.files, alike.seen⟩

theorem Alike.foldl {bundle : Bundle} {loop : BundleWire.Decoding} (alike : Alike bundle loop)
    (parts : List BundleWire.Part) :
    Alike (parts.foldl applyPart bundle) (parts.foldl BundleWire.Part.apply loop) := by
  induction parts generalizing bundle loop with
  | nil => exact alike
  | cons part parts ih => exact ih (alike.apply part)

theorem alike_start : Alike ⟨[], []⟩ BundleWire.start :=
  ⟨rfl, rfl, fun some_bytes => absurd rfl some_bytes⟩

theorem parsed_iff {bytes : List UInt8} {envelope : List UInt8} {files : List (String × List UInt8)} :
    Parsed bytes ⟨envelope, files⟩ ↔ envelope ≠ [] ∧ ∃ credId epoch,
      BundleWire.Parsed bytes ⟨envelope, credId, files, epoch⟩ := by
  constructor
  · intro parsed
    obtain ⟨parts, fits, whole, final, some_bytes⟩ := parsed
    have alike := alike_start.foldl parts
    rw [final] at alike
    generalize made : parts.foldl BundleWire.Part.apply BundleWire.start = loop at alike
    have sameEnvelope : loop.bundle.envelope = envelope := alike.envelope
    have sameFiles : loop.bundle.files = files := alike.files
    refine ⟨some_bytes, loop.bundle.credId, loop.bundle.epoch, parts, fits, whole, ?_⟩
    rw [made, ← sameEnvelope, ← sameFiles, ← alike.seen some_bytes]
  · intro parsed
    obtain ⟨some_bytes, credId, epoch, parts, fits, whole, final⟩ := parsed
    have alike := alike_start.foldl parts
    rw [final] at alike
    refine ⟨parts, fits, whole, ?_, some_bytes⟩
    have first : (parts.foldl applyPart ⟨[], []⟩).envelope = envelope := alike.envelope.symm
    have second : (parts.foldl applyPart ⟨[], []⟩).files = files := alike.files.symm
    rw [← first, ← second]

/-- The decryptor parses a byte string exactly where the other crate decodes it to a bundle with
bytes in its envelope, and it finds that envelope and those files. -/
theorem bundle_parsers_agree (t t' : Target) (b : Slice t.usizeBits) (b' : Slice t'.usizeBits)
    (same : b.bytes = b'.bytes) (envelope : List UInt8) (files : List (String × List UInt8)) :
    parseBundle b = .ok ⟨envelope, files⟩ ↔ envelope ≠ [] ∧ ∃ credId epoch,
      BundleWire.decode b' = .ok ⟨envelope, credId, files, epoch⟩ := by
  rw [parseBundle_eq_ok t.le_usizeBits, same, parsed_iff]
  simp only [BundleWire.decode_eq_ok t'.le_usizeBits]

/-- A bundle with an envelope of one byte, and another one in its place. -/
def twoEnvelopes : List UInt8 :=
  BundleWire.header ++ BundleWire.encodeBytes 1 [7] ++ BundleWire.encodeBytes 1 [8, 9]

theorem bundle_parsers_agree_twice :
    parseBundle (⟨twoEnvelopes, by decide⟩ : Slice Target.host64.usizeBits) = .ok ⟨[8, 9], []⟩ ↔
      [8, 9] ≠ ([] : List UInt8) ∧ ∃ credId epoch, BundleWire.decode
        (⟨twoEnvelopes, by decide⟩ : Slice Target.wasm32.usizeBits) = .ok ⟨[8, 9], credId, [], epoch⟩ :=
  bundle_parsers_agree .host64 .wasm32 _ _ rfl _ _

end Bundles

section Envelopes

open EnvelopeBytes (unwrap Authentic Framed)

variable {P : Primitives} {envelope : List UInt8} {n i count : Nat} {kek : Vector UInt8 32}

/-- What slot `i` decrypts to, if it is a recovery slot. -/
def unwrapRecovery (P : Primitives) (kek : Vector UInt8 32) (envelope : List UInt8) (i : Nat) :
    Option (List UInt8) :=
  if envelope.getD (36 + i * 74 + 1) 0 = kindRecovery then unwrap P kek envelope i else none

theorem index_ok {bytes : List UInt8} {pos : Nat} (inside : pos < bytes.length) :
    index bytes pos = .ok (bytes.getD pos 0) := by
  rw [index, List.getElem?_eq_getElem inside, List.getD_eq_getElem _ _ inside]

theorem array_slice {bytes : List UInt8} {pos len : Nat} (inside : pos + len ≤ bytes.length) :
    array len (slice bytes pos len) =
      .ok ⟨(slice bytes pos len).toArray, EnvelopeBytes.length_slice inside⟩ := by
  rw [array, byteArray, dif_pos (EnvelopeBytes.length_slice inside)]

/-- The loop takes the first recovery slot that opens, and then asks the MAC. -/
theorem openSlots_eq (framed : Framed envelope n) (inside : i + count ≤ n) :
    openSlots P kek envelope (36 + n * 74) i count =
      match (List.range' i count).findSome? (unwrapRecovery P kek envelope) with
      | some plain => do
          let dek ← array dekLen plain
          if Authentic P envelope n dek.toList then .ok dek else .error .tamper
      | none => .error .unlock := by
  induction count generalizing i with
  | zero => rfl
  | succ count ih =>
      have slot := framed.slot (by omega : i < n)
      have nonceLength := EnvelopeBytes.length_slice (by omega : 36 + i * 74 + 2 + 24 ≤ envelope.length)
      have ctLength := EnvelopeBytes.length_slice (by omega : 36 + i * 74 + 26 + 32 ≤ envelope.length)
      have tagLength := EnvelopeBytes.length_slice (by omega : 36 + i * 74 + 58 + 16 ≤ envelope.length)
      have kekId : index envelope (36 + i * 74) = .ok (envelope.getD (36 + i * 74) 0) :=
        index_ok (by omega)
      have kind : index envelope (36 + i * 74 + 1) = .ok (envelope.getD (36 + i * 74 + 1) 0) :=
        index_ok (by omega)
      have nonce : array nonceLen (slice envelope (36 + i * 74 + 2) nonceLen) =
          .ok ⟨(slice envelope (36 + i * 74 + 2) 24).toArray, nonceLength⟩ :=
        array_slice (show 36 + i * 74 + 2 + 24 ≤ _ by omega)
      have ct : array dekLen (slice envelope (36 + i * 74 + 2 + nonceLen) dekLen) =
          .ok ⟨(slice envelope (36 + i * 74 + 26) 32).toArray, ctLength⟩ :=
        array_slice (show 36 + i * 74 + 26 + 32 ≤ _ by omega)
      have tag : array tagLen (slice envelope (36 + i * 74 + 2 + nonceLen + dekLen) tagLen) =
          .ok ⟨(slice envelope (36 + i * 74 + 58) 16).toArray, tagLength⟩ :=
        array_slice (show 36 + i * 74 + 58 + 16 ≤ _ by omega)
      have opened : unwrap P kek envelope i = P.decrypt kek
          ⟨(slice envelope (36 + i * 74 + 2) 24).toArray, nonceLength⟩
          (wrapAadPrefix ++ [envelope.getD (36 + i * 74) 0, envelope.getD (36 + i * 74 + 1) 0])
          (slice envelope (36 + i * 74 + 26) 32)
          ⟨(slice envelope (36 + i * 74 + 58) 16).toArray, tagLength⟩ := by
        simp only [unwrap, byteArray, dif_pos nonceLength, dif_pos tagLength]
        rfl
      rw [openSlots, List.range'_succ, List.findSome?_cons, unwrapRecovery]
      simp only [kekId, kind, nonce, ct, tag, Outcome.ok_bind]
      by_cases recovery : envelope.getD (36 + i * 74 + 1) 0 = kindRecovery
      · rw [if_neg (not_not_intro recovery), if_pos recovery]
        have plain : (⟨(slice envelope (36 + i * 74 + 26) 32).toArray, ctLength⟩ : Vector UInt8 32).toList =
            slice envelope (36 + i * 74 + 26) 32 := rfl
        rw [plain, ← opened]
        cases unwrap P kek envelope i with
        | none => exact ih (by omega)
        | some plain =>
            dsimp only
            cases array dekLen plain with
            | error reason => rfl
            | panic => rfl
            | ok dek =>
                rw [Outcome.ok_bind, Outcome.ok_bind]
                by_cases authentic : Authentic P envelope n dek.toList
                · rw [if_pos authentic]
                  exact if_neg (not_not_intro authentic.symm)
                · rw [if_neg authentic]
                  exact if_pos fun same => authentic same.symm
      · rw [if_pos recovery, if_neg recovery]
        exact ih (by omega)

/-- `decrypt_in_place_detached` leaves the buffer as long as it was. -/
def InPlace (P : Primitives) : Prop := ∀ key nonce aad buffer tag plain,
  P.decrypt key nonce aad buffer tag = some plain → plain.length = buffer.length

/-- No slot of another kind authenticates under the key of the code. -/
def OthersShut (P : Primitives) (envelope : List UInt8) (code : List Char) : Prop :=
  ∀ kek, P.argon2id 19456 2 1 (DeviceCert.strBytes (normalize P code)) (slice envelope 12 16) = some kek →
    ∀ i < (envelope.getD 9 0).toNat, envelope.getD (36 + i * 74 + 1) 0 ≠ kindRecovery →
      unwrap P kek envelope i = none

theorem openEnvelope_eq (P : Primitives) (envelope : List UInt8) (code : List Char) :
    (∃ text, EnvelopeWire.parse envelope = .error .format ∧
      openEnvelope P envelope code = .error (.envelope text)) ∨
    EnvelopeWire.parse envelope = .ok (envelope.getD 9 0).toNat ∧
      openEnvelope P envelope code = (do
        let kek ← okOr .kdf (P.argon2id 19456 2 1 (DeviceCert.strBytes (normalize P code))
          (slice envelope 12 16))
        openSlots P kek envelope (36 + (envelope.getD 9 0).toNat * 74) 0 (envelope.getD 9 0).toNat) := by
  unfold openEnvelope EnvelopeWire.parse
  by_cases framing : envelope.length < envHeaderLen + envMacLen ∨ envelope.take 8 ≠ envMagic ∨
      envelope.getD 8 0 ≠ envVersion
  · rw [if_pos framing]
    exact Or.inl ⟨_, if_pos framing, rfl⟩
  · rw [if_neg framing]
    by_cases length : envelope.length ≠ envHeaderLen + (envelope.getD 9 0).toNat * envSlotLen + envMacLen
    · refine Or.inl ⟨"length mismatch", ?_, if_pos length⟩
      exact (if_neg framing).trans (if_pos length)
    · refine Or.inr ⟨?_, if_neg length⟩
      exact (if_neg framing).trans (if_neg length)

/-- The ends of the two openers that say the same. -/
inductive Agree : Outcome Error (Vector UInt8 32) → Outcome EnvelopeBytes.Error (List UInt8) → Prop where
  | opened (dek : Vector UInt8 32) : Agree (.ok dek) (.ok dek.toList)
  | framing (text : String) : Agree (.error (.envelope text)) (.error .format)
  | unlock : Agree (.error .unlock) (.error .unlock)
  | tamper : Agree (.error .tamper) (.error .tamper)
  | kdf : Agree (.error .kdf) (.error .kdf)

/-- The first slot that opens is a recovery slot, so the filter on one side changes nothing. -/
theorem findSome?_unwrapRecovery (shut : ∀ i < n, envelope.getD (36 + i * 74 + 1) 0 ≠ kindRecovery →
    unwrap P kek envelope i = none) :
    (List.range' 0 n).findSome? (unwrapRecovery P kek envelope) =
      (List.range' 0 n).findSome? (unwrap P kek envelope) := by
  have alike : ∀ i ∈ List.range' 0 n, unwrapRecovery P kek envelope i = unwrap P kek envelope i := by
    intro i member
    rw [List.mem_range'_1] at member
    unfold unwrapRecovery
    split
    · rfl
    · next other => exact (shut i (by omega) other).symm
  generalize List.range' 0 n = indices at alike ⊢
  induction indices with
  | nil => rfl
  | cons i rest ih =>
      rw [List.findSome?_cons, List.findSome?_cons, alike i List.mem_cons_self,
        ih fun j member => alike j (List.mem_cons_of_mem _ member)]

/-- What opens has the length of a key. -/
theorem length_of_unwrap (inPlace : InPlace P) (framed : Framed envelope n) (inside : i < n)
    {plain : List UInt8} (opened : unwrap P kek envelope i = some plain) : plain.length = 32 := by
  have slot := framed.slot inside
  have ctLength := EnvelopeBytes.length_slice (by omega : 36 + i * 74 + 26 + 32 ≤ envelope.length)
  simp only [unwrap, Option.bind_eq_bind, Option.bind_eq_some_iff] at opened
  obtain ⟨nonce, _, tag, _, decrypted⟩ := opened
  rw [inPlace _ _ _ _ _ _ decrypted, ctLength]

theorem openers_agree (t : Target) (inPlace : InPlace P) {code : List Char}
    (shut : OthersShut P envelope code) :
    Agree (openEnvelope P envelope code) (EnvelopeBytes.openWithRecovery t P envelope code) := by
  have parses := EnvelopeBytes.parse_eq t envelope
  obtain ⟨text, failed, is⟩ | ⟨parsed, is⟩ := openEnvelope_eq P envelope code
  · rw [failed] at parses
    rw [is, EnvelopeBytes.openWithRecovery, parses]
    exact .framing text
  · rw [parsed] at parses
    have framed : Framed envelope (envelope.getD 9 0).toNat :=
      (EnvelopeBytes.parse_meets t envelope).of_ok parses
    rw [is, EnvelopeBytes.openWithRecovery, parses, Outcome.ok_bind, EnvelopeBytes.salt_ok framed,
      Outcome.ok_bind]
    have derives : EnvelopeBytes.kekFromRecovery P code (slice envelope 12 16) =
        okOr .kdf (P.argon2id 19456 2 1 (DeviceCert.strBytes (normalize P code)) (slice envelope 12 16)) :=
      rfl
    rw [show slice envelope EnvelopeBytes.saltOff EnvelopeWire.saltLen = slice envelope 12 16 from rfl, derives]
    cases derived : P.argon2id 19456 2 1 (DeviceCert.strBytes (normalize P code)) (slice envelope 12 16) with
    | none => exact .kdf
    | some kek =>
        simp only [okOr, Outcome.ok_bind]
        rw [EnvelopeBytes.openWithKek_eq framed parses, openSlots_eq framed (by omega),
          findSome?_unwrapRecovery (shut kek derived)]
        cases found : (List.range' 0 (envelope.getD 9 0).toNat).findSome? (unwrap P kek envelope) with
        | none => exact .unlock
        | some plain =>
            obtain ⟨i, member, opened⟩ := List.exists_of_findSome?_eq_some found
            rw [List.mem_range'_1] at member
            have length := length_of_unwrap inPlace framed (by omega : i < _) opened
            obtain ⟨dek, bytes, converted⟩ := array_of_length length
            dsimp only
            rw [show array dekLen plain = .ok dek from converted, Outcome.ok_bind, bytes]
            split
            · rw [← bytes]
              exact .opened dek
            · exact .tamper

/-- The two crates open the same envelopes with the same codes to the same keys, and fail alike. -/
theorem envelope_openers_agree (t : Target) (P : Primitives) (inPlace : InPlace P)
    (envelope : List UInt8) (code : List Char) (shut : OthersShut P envelope code) :
    (∀ plain, EnvelopeBytes.openWithRecovery t P envelope code = .ok plain ↔
      ∃ dek, openEnvelope P envelope code = .ok dek ∧ dek.toList = plain) ∧
    ((∃ text, openEnvelope P envelope code = .error (.envelope text)) ↔
      EnvelopeBytes.openWithRecovery t P envelope code = .error .format) ∧
    (openEnvelope P envelope code = .error .unlock ↔
      EnvelopeBytes.openWithRecovery t P envelope code = .error .unlock) ∧
    (openEnvelope P envelope code = .error .tamper ↔
      EnvelopeBytes.openWithRecovery t P envelope code = .error .tamper) ∧
    (openEnvelope P envelope code = .error .kdf ↔
      EnvelopeBytes.openWithRecovery t P envelope code = .error .kdf) := by
  have agree := openers_agree t inPlace shut
  generalize openEnvelope P envelope code = ours at agree ⊢
  generalize EnvelopeBytes.openWithRecovery t P envelope code = theirs at agree ⊢
  cases agree with
  | opened dek => simp
  | framing text => simp
  | unlock => simp
  | tamper => simp
  | kdf => simp

theorem inPlace_of_consistent {calls : CallTable} (consistent : calls.Consistent) :
    InPlace calls.primitives := by
  intro key nonce aad buffer tag plain opened
  have decrypted : calls.decrypt key nonce aad buffer tag = some plain := opened
  unfold CallTable.decrypt at decrypted
  split at decrypted
  · next e found =>
      have same := List.find?_some found
      simp only [decide_eq_true_eq] at same
      rw [Option.some.injEq] at decrypted
      rw [← decrypted, ← (consistent e (List.mem_of_find?_eq_some found)).1, same.2.2.2.1]
  · split at decrypted
    · rw [Option.some.injEq] at decrypted
      rw [decrypted]
    · cases decrypted

/-- An envelope of a device that has a recovery code: the device's slot is passed over by one opener
and shut to the other. -/
theorem envelope_openers_agree_enrolled :
    EnvelopeBytes.openWithRecovery .wasm32 ExportSample.calls.primitives ExportSample.wire.bytes
      ExportSample.code = .ok (ExportSample.le 32 7).toList ↔
    ∃ dek, openEnvelope ExportSample.calls.primitives ExportSample.wire.bytes ExportSample.code = .ok dek ∧
      dek.toList = (ExportSample.le 32 7).toList := by
  have shut : OthersShut ExportSample.calls.primitives ExportSample.wire.bytes ExportSample.code := by
    intro kek derived i inside other
    have known : ExportSample.calls.primitives.argon2id 19456 2 1
        (DeviceCert.strBytes (normalize ExportSample.calls.primitives ExportSample.code))
        (slice ExportSample.wire.bytes 12 16) = some ExportSample.recoveryKek := by decide +kernel
    rw [known, Option.some.injEq] at derived
    subst derived
    have two : (ExportSample.wire.bytes.getD 9 0).toNat = 2 := by decide +kernel
    rw [two] at inside
    obtain rfl | rfl : i = 0 ∨ i = 1 := by omega
    · decide +kernel
    · exact absurd (by decide +kernel) other
  exact (envelope_openers_agree _ _ (inPlace_of_consistent (by decide +kernel)) _ _ shut).1 _

end Envelopes

end Freehold.Decrypt
