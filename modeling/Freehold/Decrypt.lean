import Freehold.SessionExport

set_option autoImplicit false

/- The standalone decryptor, which shares no code with the other crate. -/
namespace Freehold.Decrypt

open Cursor

inductive Error where
  | bundle (text : String)
  | envelope (text : String)
  | unlock
  | tamper
  | block (text : String)
  | kdf
  deriving DecidableEq, Repr

def bundleMagic : List UInt8 := utf8Bytes "FREEHOLD"
def bundleVersion : UInt8 := 1
def tagEnvelope : UInt8 := 1
def tagCredId : UInt8 := 2
def tagFile : UInt8 := 3
def tagEpoch : UInt8 := 4

def envMagic : List UInt8 := utf8Bytes "FREEHENV"
def envVersion : UInt8 := 3
abbrev envHeaderLen : Nat := 36
abbrev envSlotLen : Nat := 74
abbrev envMacLen : Nat := 32
abbrev envSaltOff : Nat := 12
abbrev envSaltLen : Nat := 16
abbrev dekLen : Nat := 32
abbrev nonceLen : Nat := 24
abbrev tagLen : Nat := 16
def kindRecovery : UInt8 := 1
def wrapAadPrefix : List UInt8 := utf8Bytes "freehold-envelope-v3"
def macInfo : List UInt8 := utf8Bytes "freehold-envelope-mac-v1"

abbrev blockSize : Nat := 4096
abbrev physBlock : Nat := blockSize + nonceLen + tagLen
def cipherId : UInt8 := 1
abbrev fileIdLen : Nat := 16
/-- b"freehold/vfs-db-v1\0". -/
def dbKeyLabel : List UInt8 := utf8Bytes "freehold/vfs-db-v1" ++ [0]
def manifestSuffix : List Char := "#manifest".toList
abbrev manifestMagicLen : Nat := 8

structure RecoveredDb where
  name : String
  sqlite : List UInt8
  deriving DecidableEq

structure Bundle where
  envelope : List UInt8
  files : List (String × List UInt8)
  deriving DecidableEq

variable {width : Nat}

def take (n : Nat) : Read width Error (List UInt8) :=
  Read.take (.bundle "length overflow") (.bundle "truncated section") n

/-- `le_u16` of the next two bytes. -/
def leU16 : Read width Error Nat :=
  Read.word (.bundle "length overflow") (.bundle "truncated section") 2

/-- `le_u32` of the next four bytes. -/
def leU32 : Read width Error Nat :=
  Read.word (.bundle "length overflow") (.bundle "truncated section") 4

/-- The branches of the match on the tag. -/
def parsePayload (tag : UInt8) (bundle : Bundle) : Read width Error Bundle :=
  if tag = tagEnvelope then do
    let n ← leU32
    let envelope ← take n
    return { bundle with envelope := envelope }
  else if tag = tagCredId then do
    let n ← leU32
    let _ ← take n
    return bundle
  else if tag = tagFile then do
    let nlen ← leU16
    let text ← take nlen
    let name ← Read.lift (okOr (.bundle "file name not UTF-8") (fromUtf8 text))
    let dlen ← leU32
    let data ← take dlen
    return { bundle with files := bundle.files ++ [(name, data)] }
  else if tag = tagEpoch then do
    let n ← leU32
    let _ ← take n
    return bundle
  else Read.fail (.bundle "unknown section tag")

def parseSection (bundle : Bundle) : Read width Error Bundle := do
  let tag ← Read.byte
  parsePayload tag bundle

def parseBundle (b : Slice width) : Outcome Error Bundle := do
  if b.bytes.length < 9 then .error (.bundle "bad magic — not a .freehold bundle")
  else
    let magic ← b.range 0 8
    if magic ≠ bundleMagic then .error (.bundle "bad magic — not a .freehold bundle")
    else
      let version ← b.index 8
      if version ≠ bundleVersion then .error (.bundle "unsupported bundle version")
      else
        let (bundle, _) ← (Read.untilEnd parseSection (b.bytes.length + 1) ⟨[], []⟩).run b 9
        if bundle.envelope.isEmpty then .error (.bundle "no envelope section") else return bundle

/-- `split_whitespace`. -/
def splitWhitespace (text : List Char) : List (List Char) :=
  (text.splitOnP DeviceCert.isWhitespace).filter fun word => !word.isEmpty

/-- `from_slice` of an array of `n` bytes. -/
def array (n : Nat) (bytes : List UInt8) : Outcome Error (Vector UInt8 n) :=
  match byteArray n bytes with
  | some v => .ok v
  | none => .panic

/-- `bytes[at]`. -/
def index (bytes : List UInt8) (pos : Nat) : Outcome Error UInt8 :=
  match bytes[pos]? with
  | some byte => .ok byte
  | none => .panic

variable (P : Primitives)

/-- The code without white space and in upper case. -/
def normalize (code : List Char) : List Char := (splitWhitespace code).flatten.flatMap P.upper

/-- The loop over the slots, from slot `i` on. -/
def openSlots (kek : Vector UInt8 32) (envelope : List UInt8) (bodyLen : Nat) :
    (i count : Nat) → Outcome Error (Vector UInt8 32)
  | _, 0 => .error .unlock
  | i, count + 1 => do
      let pos := envHeaderLen + i * envSlotLen
      let kekId ← index envelope pos
      let kind ← index envelope (pos + 1)
      if kind ≠ kindRecovery then openSlots kek envelope bodyLen (i + 1) count
      else
        let nonce ← array nonceLen (slice envelope (pos + 2) nonceLen)
        let ct ← array dekLen (slice envelope (pos + 2 + nonceLen) dekLen)
        let tag ← array tagLen (slice envelope (pos + 2 + nonceLen + dekLen) tagLen)
        match P.decrypt kek nonce (wrapAadPrefix ++ [kekId, kind]) ct.toList tag with
        | some plain => do
            let dek ← array dekLen plain
            let macKey := P.hkdf dek.toList macInfo
            let mac := P.hmac macKey.toList (envelope.take bodyLen)
            if slice envelope bodyLen envMacLen ≠ mac.toList then .error .tamper else return dek
        | none => openSlots kek envelope bodyLen (i + 1) count

/-- `open_envelope`. -/
def openEnvelope (envelope : List UInt8) (recoveryCode : List Char) :
    Outcome Error (Vector UInt8 32) := do
  if envelope.length < envHeaderLen + envMacLen ∨ envelope.take 8 ≠ envMagic ∨
      envelope.getD 8 0 ≠ envVersion then
    .error (.envelope "bad magic/version")
  else
    let slotCount := (envelope.getD 9 0).toNat
    let bodyLen := envHeaderLen + slotCount * envSlotLen
    if envelope.length ≠ bodyLen + envMacLen then .error (.envelope "length mismatch")
    else
      let salt := slice envelope envSaltOff envSaltLen
      let norm := normalize P recoveryCode
      let kek ← okOr .kdf (P.argon2id 19456 2 1 (DeviceCert.strBytes norm) salt)
      openSlots P kek envelope bodyLen 0 slotCount

/-- `file_id_for`. -/
def fileIdFor (name : String) : List UInt8 := (P.sha256 (utf8Bytes name)).toList.take fileIdLen

/-- The key of `db_cipher`. -/
def dbCipher (dek : Vector UInt8 32) (dbUuid : Vector UInt8 16) : Vector UInt8 32 :=
  P.hkdf dek.toList (dbKeyLabel ++ dbUuid.toList)

def blockAad (fileId : List UInt8) (dbUuid : Vector UInt8 16) (blockIndex : Nat) : List UInt8 :=
  fileId ++ dbUuid.toList ++ toLe 8 blockIndex ++ toLe 4 blockSize ++ [cipherId]

/-- The loop over the blocks, from block `k` on. -/
def decryptBlocks (name : String) (cipher : Vector UInt8 32) (dbUuid : Vector UInt8 16)
    (ciphertext : List UInt8) : (k count : Nat) → Outcome Error (List UInt8)
  | _, 0 => .ok []
  | k, count + 1 => do
      let phys := slice ciphertext (k * physBlock) physBlock
      let nonce ← array nonceLen (slice phys blockSize nonceLen)
      let tag ← array tagLen (phys.drop (blockSize + nonceLen))
      match P.decrypt cipher nonce (blockAad (fileIdFor P name) dbUuid k) (phys.take blockSize) tag with
      | some plain => do
          let rest ← decryptBlocks name cipher dbUuid ciphertext (k + 1) count
          return plain ++ rest
      | none => .error (.block s!"{name} block {k}")

/-- `decrypt_db_file`. -/
def decryptDbFile (name : String) (ciphertext : List UInt8) (dek : Vector UInt8 32)
    (dbUuid : Vector UInt8 16) : Outcome Error (List UInt8) :=
  if ciphertext.length % physBlock ≠ 0 then
    .error (.block s!"{name}: not a whole number of {physBlock}-byte blocks")
  else
    decryptBlocks P name (dbCipher P dek dbUuid) dbUuid ciphertext 0 (ciphertext.length / physBlock)

/-- One iteration of the loop of `recover` over a file that is a database. -/
def recoverFile (files : List (String × List UInt8)) (dek : Vector UInt8 32) (name : String)
    (data : List UInt8) : Outcome Error RecoveredDb := do
  let mname := String.ofList (name.toList ++ manifestSuffix)
  let manifest ← okOr (.envelope "missing manifest for a DB file") (files.find? fun file => file.1 = mname)
  if manifest.2.length < manifestMagicLen + 16 then
    .error (.envelope "manifest too short for a db_uuid")
  else
    let dbUuid ← array 16 (slice manifest.2 manifestMagicLen 16)
    let sqlite ← decryptDbFile P name data dek dbUuid
    return ⟨name, sqlite⟩

/-- The loop of `recover`; a file that is no database is passed over. -/
def recoverFiles (all : List (String × List UInt8)) (dek : Vector UInt8 32) :
    List (String × List UInt8) → Outcome Error (List RecoveredDb)
  | [] => .ok []
  | file :: rest => do
      if endsWith file.1.toList dbSuffix then
        let here ← recoverFile P all dek file.1 file.2
        let later ← recoverFiles all dek rest
        return here :: later
      else recoverFiles all dek rest

/-- `recover`. -/
def recover (b : Slice width) (recoveryCode : List Char) : Outcome Error (List RecoveredDb) := do
  let bundle ← parseBundle b
  let dek ← openEnvelope P bundle.envelope recoveryCode
  let out ← recoverFiles P bundle.files dek bundle.files
  if out.isEmpty then .error (.bundle "no database files in bundle") else return out

section Parse

theorem reads_leU16 (wide : 32 ≤ width) {n : Nat} (small : n < 2 ^ 16) :
    Read.Reads (leU16 : Read width Error Nat) (toLe 2 n) n :=
  Read.reads_word _ _ (Nat.pow_le_pow_right Nat.two_pos (by omega) : 2 ^ 16 ≤ 2 ^ width) small

theorem reads_leU32 (wide : 32 ≤ width) {n : Nat} (small : n < 2 ^ 32) :
    Read.Reads (leU32 : Read width Error Nat) (toLe 4 n) n :=
  Read.reads_word _ _ (Nat.pow_le_pow_right Nat.two_pos wide : 2 ^ 32 ≤ 2 ^ width) small

theorem reads_take (read : List UInt8) : Read.Reads (take read.length : Read width Error _) read read :=
  Read.reads_take _ _ read

/-- What a section does to the bundle so far. -/
def applyPart (bundle : Bundle) : BundleWire.Part → Bundle
  | .envelope bytes => { bundle with envelope := bytes }
  | .credId _ => bundle
  | .file name data => { bundle with files := bundle.files ++ [(name, data)] }
  | .epoch _ => bundle

theorem reads_bytes (wide : 32 ≤ width) {bytes : List UInt8} (short : bytes.length < 2 ^ 32)
    (assign : List UInt8 → Bundle) :
    Read.Reads (do let n ← leU32; let read ← take n; return assign read : Read width Error Bundle)
      (toLe 4 bytes.length ++ bytes) (assign bytes) := by
  have pieces : toLe 4 bytes.length ++ bytes = toLe 4 bytes.length ++ (bytes ++ []) := by
    rw [List.append_nil]
  rw [pieces]
  apply (reads_leU32 wide short).bind
  apply (reads_take bytes).bind
  exact Read.Reads.pure _

/-- Every section the other crate writes is read in full. -/
theorem reads_parseSection (wide : 32 ≤ width) (bundle : Bundle) {part : BundleWire.Part}
    (fits : part.Fits) :
    Read.Reads (parseSection bundle : Read width Error Bundle) part.encode (applyPart bundle part) := by
  cases part with
  | envelope bytes => exact (Read.reads_byte tagEnvelope).bind (reads_bytes wide fits _)
  | credId bytes => exact (Read.reads_byte tagCredId).bind (reads_bytes wide fits fun _ => bundle)
  | epoch bytes => exact (Read.reads_byte tagEpoch).bind (reads_bytes wide fits fun _ => bundle)
  | file name data =>
      have utf8 : (okOr (.bundle "file name not UTF-8") (fromUtf8 (utf8Bytes name)) :
          Outcome Error String) = .ok name := by
        rw [fromUtf8_utf8Bytes]
        rfl
      have pieces : (BundleWire.Part.file name data).encode =
          [tagFile] ++ (toLe 2 (utf8Bytes name).length ++
            (utf8Bytes name ++ ([] ++ (toLe 4 data.length ++ (data ++ []))))) := by
        simp only [BundleWire.Part.encode, BundleWire.encodeFile, tagFile, BundleWire.tagFile,
          List.append_assoc, List.cons_append, List.nil_append, List.append_nil]
      rw [pieces]
      apply (Read.reads_byte tagFile).bind
      apply (reads_leU16 wide fits.1).bind
      apply (reads_take (utf8Bytes name)).bind
      apply (Read.reads_lift utf8).bind
      apply (reads_leU32 wide fits.2).bind
      apply (reads_take data).bind
      exact Read.Reads.pure _

theorem chain_of_parts (wide : 32 ≤ width) {parts : List BundleWire.Part}
    (fits : ∀ part ∈ parts, part.Fits) (bundle : Bundle) :
    Read.Chain (fun loop read next =>
        Read.Reads (parseSection loop : Read width Error _) read next ∧ read ≠ [])
      bundle (parts.map BundleWire.Part.encode) (parts.foldl applyPart bundle) := by
  induction parts generalizing bundle with
  | nil => exact .nil bundle
  | cons part parts ih =>
      rw [List.forall_mem_cons] at fits
      exact .cons ⟨reads_parseSection wide bundle fits.1, part.encode_ne_nil⟩ (ih fits.2 _)

theorem foldl_files (files : List (String × List UInt8)) (bundle : Bundle) :
    (files.map fun file => BundleWire.Part.file file.1 file.2).foldl applyPart bundle =
      { bundle with files := bundle.files ++ files } := by
  induction files generalizing bundle with
  | nil => simp
  | cons file files ih =>
      rw [List.map_cons, List.foldl_cons, ih]
      simp [applyPart]

theorem foldl_partsOf (bundle : BundleWire.Bundle) :
    (BundleWire.partsOf bundle).foldl applyPart ⟨[], []⟩ = ⟨bundle.envelope, bundle.files⟩ := by
  have skipped (bytes : List UInt8) (part : BundleWire.Part) (kept : ∀ loop, applyPart loop part = loop)
      (loop : Bundle) : (if bytes.isEmpty then [] else [part]).foldl applyPart loop = loop := by
    split
    · rfl
    · exact kept loop
  rw [BundleWire.partsOf, List.foldl_append, List.foldl_append, List.foldl_cons,
    skipped _ (.credId bundle.credId) fun _ => rfl, foldl_files,
    skipped _ (.epoch bundle.epoch) fun _ => rfl]
  rfl

/-- The sections a bundle was parsed from. -/
def Parsed (bytes : List UInt8) (bundle : Bundle) : Prop :=
  ∃ parts : List BundleWire.Part, (∀ part ∈ parts, part.Fits) ∧
    bytes = BundleWire.header ++ BundleWire.encodeParts parts ∧
    parts.foldl applyPart ⟨[], []⟩ = bundle ∧ bundle.envelope ≠ []

theorem bundleMagic_eq : bundleMagic = BundleWire.magic := by decide +kernel

/-- Whole sections behind the header, and bytes in the last envelope, are all it takes. -/
theorem parseBundle_of_parsed (wide : 32 ≤ width) {b : Slice width} {bundle : Bundle}
    (parsed : Parsed b.bytes bundle) : parseBundle b = .ok bundle := by
  obtain ⟨parts, fits, whole, final, enveloped⟩ := parsed
  have cuts := b.between_all
  rw [whole] at cuts
  obtain ⟨head, tail⟩ := cuts.split
  obtain ⟨front, ninth⟩ := head.split
  have isMagic : (b.range 0 8 : Outcome Error _) = .ok bundleMagic := by
    rw [bundleMagic_eq]
    exact front.range_eq
  have isVersion : (b.index 8 : Outcome Error _) = .ok bundleVersion := ninth.index_eq
  have long : ¬b.bytes.length < 9 := by
    have inside := head.stop_le
    have nine : BundleWire.header.length = 9 := rfl
    omega
  have loop := Read.reads_untilEnd (chain_of_parts wide fits ⟨[], []⟩)
    (by rw [whole]; exact tail : b.Between 9 _ b.bytes.length) (by omega : _ < b.bytes.length + 1)
  have some_bytes : ¬bundle.envelope.isEmpty = true := by simpa using enveloped
  rw [final] at loop
  unfold parseBundle
  rw [if_neg long, isMagic, Outcome.ok_bind, if_neg (not_not_intro rfl), isVersion, Outcome.ok_bind,
    if_neg (not_not_intro rfl), loop, Outcome.ok_bind]
  simp only [some_bytes]
  rfl

/-- The sections another crate's encoder writes are the ones the decryptor finds. -/
theorem parseBundle_encode (wide : 32 ≤ width) {b : Slice width} {bundle : BundleWire.Bundle}
    (fits : bundle.Fits) (enveloped : bundle.envelope ≠ [])
    (encoded : b.bytes = BundleWire.encode bundle.envelope bundle.credId bundle.files bundle.epoch) :
    parseBundle b = .ok ⟨bundle.envelope, bundle.files⟩ := by
  rw [BundleWire.encode_eq] at encoded
  exact parseBundle_of_parsed wide
    ⟨BundleWire.partsOf bundle, BundleWire.fits_partsOf fits, encoded, foldl_partsOf bundle, enveloped⟩

end Parse

section Open

open EnvelopeWire

@[simp] theorem array_toList {n : Nat} (v : Vector UInt8 n) : array n v.toList = .ok v := by
  have same : byteArray n v.toList = some v := by
    rw [byteArray, dif_pos v.length_toList]
    rfl
  rw [array, same]

theorem array_of_length {n : Nat} {bytes : List UInt8} (length : bytes.length = n) :
    ∃ v, v.toList = bytes ∧ array n bytes = .ok v := by
  refine ⟨⟨bytes.toArray, length⟩, rfl, ?_⟩
  rw [array, byteArray, dif_pos length]

/-- The five fields of a slot, where it begins. -/
theorem fields_of_slot (before after : List UInt8) (wire : WireSlot) :
    let blob := before ++ wire.bytes ++ after
    index blob before.length = .ok wire.kekId ∧ index blob (before.length + 1) = .ok wire.kind ∧
      slice blob (before.length + 2) nonceLen = wire.nonce.toList ∧
      slice blob (before.length + 2 + nonceLen) dekLen = wire.ct.toList ∧
      slice blob (before.length + 2 + nonceLen + dekLen) tagLen = wire.tag.toList := by
  have two : (before ++ [wire.kekId, wire.kind]).length = before.length + 2 := by simp
  have ct : (before ++ [wire.kekId, wire.kind] ++ wire.nonce.toList).length =
      before.length + 2 + nonceLen := by rw [List.length_append, two, Vector.length_toList]
  have tag : (before ++ [wire.kekId, wire.kind] ++ wire.nonce.toList ++ wire.ct.toList).length =
      before.length + 2 + nonceLen + dekLen := by rw [List.length_append, ct, Vector.length_toList]
  refine ⟨?_, ?_, ?_, ?_, ?_⟩
  · simp [index, WireSlot.bytes]
  · simp [index, WireSlot.bytes]
  · have cut := slice_middle (before ++ [wire.kekId, wire.kind]) wire.nonce.toList
      (wire.ct.toList ++ wire.tag.toList ++ after)
    rw [two, Vector.length_toList] at cut
    simpa [WireSlot.bytes] using cut
  · have cut := slice_middle (before ++ [wire.kekId, wire.kind] ++ wire.nonce.toList) wire.ct.toList
      (wire.tag.toList ++ after)
    rw [ct, Vector.length_toList] at cut
    simpa [WireSlot.bytes] using cut
  · have cut := slice_middle
      (before ++ [wire.kekId, wire.kind] ++ wire.nonce.toList ++ wire.ct.toList) wire.tag.toList after
    rw [tag, Vector.length_toList] at cut
    simpa [WireSlot.bytes] using cut

variable {P} {k : Kek} {envSalt : BitVec 128} {dek : Dek}

/-- A recovery slot of the code opens, and to the DEK. -/
theorem decrypt_own (lawful : P.Lawful) {e : Enrollment} {wire : WireSlot}
    (stored : wire.Stores P k (Enrolled.slotOf dek envSalt e)) {kekBytes : Vector UInt8 32}
    (own : Envelope.kekOf envSalt e.method = k) (key : kek P k = some kekBytes) :
    P.decrypt kekBytes wire.nonce (wrapAadPrefix ++ [wire.kekId, wire.kind]) wire.ct.toList wire.tag =
      some (dekBytes dek) := by
  obtain ⟨other, same, sealed⟩ := stored.wrapped _ _ _ rfl
  rw [own, key, Option.some.injEq] at same
  subst same
  have opened := lawful.decrypt_encrypt kekBytes wire.nonce (slotAad e.kekId e.kind) (dekBytes dek)
  rw [sealed] at opened
  have kekId : wire.kekId = e.kekId := stored.kekId
  have kind : wire.kind = e.kind := stored.kind
  rw [kekId, kind]
  exact opened

/-- The first recovery slot that opens gives the DEK, which the MAC confirms. -/
theorem openSlots_stores (lawful : P.Lawful) {methods : List Enrollment} {wires : List WireSlot}
    (stored : List.Forall₂ (WireSlot.Stores P k) (methods.map (Enrolled.slotOf dek envSalt)) wires)
    {kekBytes : Vector UInt8 32} (key : kek P k = some kekBytes)
    (enrolled : ∃ e ∈ methods, e.kind = Freehold.kindRecovery ∧ Envelope.kekOf envSalt e.method = k)
    (before after : List UInt8) (i bodyLen : Nat) (reached : before.length = envHeaderLen + i * envSlotLen)
    (mac : slice (before ++ wires.flatMap WireSlot.bytes ++ after) bodyLen envMacLen =
      (computeMac P ((before ++ wires.flatMap WireSlot.bytes ++ after).take bodyLen)
        (dekBytes dek)).toList) :
    ∃ v : Vector UInt8 32, v.toList = dekBytes dek ∧
      openSlots P kekBytes (before ++ wires.flatMap WireSlot.bytes ++ after) bodyLen i wires.length =
        .ok v := by
  induction methods generalizing wires before i with
  | nil =>
      obtain ⟨e, member, _⟩ := enrolled
      cases member
  | cons e methods ih =>
      rw [List.map_cons] at stored
      cases stored with
      | @cons _ wire _ wires head tail =>
          have whole : before ++ (wire :: wires).flatMap WireSlot.bytes ++ after =
              before ++ wire.bytes ++ (wires.flatMap WireSlot.bytes ++ after) := by
            simp only [List.flatMap_cons, List.append_assoc]
          have shifted : before ++ wire.bytes ++ (wires.flatMap WireSlot.bytes ++ after) =
              (before ++ wire.bytes) ++ wires.flatMap WireSlot.bytes ++ after := by
            simp only [List.append_assoc]
          have fields := fields_of_slot before (wires.flatMap WireSlot.bytes ++ after) wire
          rw [reached] at fields
          obtain ⟨kekId, kind, nonce, ct, tag⟩ := fields
          have later : (∃ e ∈ methods, e.kind = Freehold.kindRecovery ∧
              Envelope.kekOf envSalt e.method = k) → ∃ v : Vector UInt8 32, v.toList = dekBytes dek ∧
                openSlots P kekBytes (before ++ wire.bytes ++ (wires.flatMap WireSlot.bytes ++ after))
                  bodyLen (i + 1) wires.length = .ok v := by
            intro others
            rw [whole, shifted] at mac
            have next := ih tail others (before ++ wire.bytes) (i + 1) (by
              rw [List.length_append, WireSlot.length_bytes, reached, Nat.succ_mul, Nat.add_assoc]) mac
            rwa [← shifted] at next
          rw [whole] at mac ⊢
          rw [List.length_cons, openSlots]
          simp only [kekId, kind, nonce, ct, tag, Outcome.ok_bind, array_toList]
          have sameKind : wire.kind = e.kind := head.kind
          by_cases recovery : wire.kind = kindRecovery
          · rw [if_neg (not_not_intro recovery)]
            by_cases own : Envelope.kekOf envSalt e.method = k
            · rw [decrypt_own lawful head own key]
              obtain ⟨v, bytes, asArray⟩ := array_of_length (length_dekBytes dek)
              refine ⟨v, bytes, ?_⟩
              simp only [asArray, Outcome.ok_bind]
              rw [mac, bytes]
              exact if_neg (not_not_intro rfl)
            · have shut := head.apart (sameKind.symm.trans recovery)
                (fun same => own (Option.some.inj same)) kekBytes key
              have shut' : P.decrypt kekBytes wire.nonce (wrapAadPrefix ++ [wire.kekId, wire.kind])
                  wire.ct.toList wire.tag = none := shut
              rw [shut']
              apply later
              obtain ⟨e', member, found⟩ := enrolled
              rcases List.mem_cons.mp member with rfl | member
              · exact absurd found.2 own
              · exact ⟨e', member, found⟩
          · rw [if_pos recovery]
            apply later
            obtain ⟨e', member, found⟩ := enrolled
            rcases List.mem_cons.mp member with rfl | member
            · exact absurd (sameKind.trans found.1) recovery
            · exact ⟨e', member, found⟩

theorem exists_of_forall₂ {α β : Type} {R : α → β → Prop} {l : List α} {m : List β}
    (related : List.Forall₂ R l m) {a : α} (member : a ∈ l) : ∃ b, R a b := by
  induction related with
  | nil => cases member
  | cons head _ ih =>
      rcases List.mem_cons.mp member with rfl | later
      · exact ⟨_, head⟩
      · exact ih later

/-- The recovery code of the vault opens the bytes of its envelope to the DEK. -/
theorem openEnvelope_stores (lawful : P.Lawful) {env : Envelope} {methods : List Enrollment} {w : Wire}
    {code : List Char} (stores : w.Stores P (.recovery (normalize P code) env.body.envSalt) env)
    (issued : env.IssuedUnder dek) (short : env.body.slots.length ≤ 255)
    (slots : env.body.slots = methods.map (Enrolled.slotOf dek env.body.envSalt))
    (enrolled : ∃ e ∈ methods, e.kind = Freehold.kindRecovery ∧
      e.method = .recovery (normalize P code)) :
    ∃ v : Vector UInt8 32, v.toList = dekBytes dek ∧ openEnvelope P w.bytes code = .ok v := by
  have stored := stores.slots
  have length := stores.length
  rw [slots] at stored
  obtain ⟨e, member, kind, method⟩ := enrolled
  have derives : ∃ kekBytes, kek P (.recovery (normalize P code) env.body.envSalt) = some kekBytes := by
    have isSlot : Enrolled.slotOf dek env.body.envSalt e ∈
        methods.map (Enrolled.slotOf dek env.body.envSalt) := List.mem_map_of_mem member
    obtain ⟨wire, head⟩ := exists_of_forall₂ stored isSlot
    obtain ⟨kekBytes, key, _⟩ := head.wrapped _ _ _ rfl
    rw [method] at key
    exact ⟨kekBytes, key⟩
  obtain ⟨kekBytes, key⟩ := derives
  have salt : slice w.bytes envSaltOff envSaltLen = toLe saltLen env.body.envSalt.toNat := by
    have cut := slice_middle (magic ++ [version, UInt8.ofNat w.slots.length] ++ w.reserved.toList)
      w.salt.toList (w.generation.toList ++ w.slotBytes ++ w.mac.toList)
    have front : (magic ++ [version, UInt8.ofNat w.slots.length] ++ w.reserved.toList).length =
        envSaltOff := by
      simp only [List.length_append, Wire.length_magic, Vector.length_toList]
      rfl
    rw [front, Vector.length_toList] at cut
    rw [← stores.salt, ← cut]
    simp only [Wire.bytes, Wire.body, Wire.header, List.append_assoc]
  have parsed := Wire.parse_bytes w (by omega)
  have total : w.bytes.length = envHeaderLen + w.slots.length * envSlotLen + envMacLen := Wire.length_bytes w
  have count : (w.bytes.getD 9 0).toNat = w.slots.length := by
    show (UInt8.ofNat w.slots.length).toNat = w.slots.length
    rw [UInt8.toNat_ofNat']
    omega
  have mac : slice w.bytes (envHeaderLen + w.slots.length * envSlotLen) envMacLen =
      (computeMac P (w.bytes.take (envHeaderLen + w.slots.length * envSlotLen)) (dekBytes dek)).toList := by
    have body : w.body.length = envHeaderLen + w.slots.length * envSlotLen := Wire.length_body w
    have cut := slice_middle w.body w.mac.toList []
    rw [body, Vector.length_toList, List.append_nil] at cut
    have front : w.bytes.take (envHeaderLen + w.slots.length * envSlotLen) = w.body :=
      List.take_left' body
    rw [front, ← stores.mac dek issued]
    exact cut
  obtain ⟨v, bytes, opened⟩ := openSlots_stores lawful stored key
    ⟨e, member, kind, by rw [method]; rfl⟩ w.header w.mac.toList 0
    (envHeaderLen + w.slots.length * envSlotLen) (by rw [Wire.length_header, Nat.zero_mul]) mac
  refine ⟨v, bytes, ?_⟩
  have framed : ¬(w.bytes.length < envHeaderLen + envMacLen ∨ w.bytes.take 8 ≠ envMagic ∨
      w.bytes.getD 8 0 ≠ envVersion) := by
    rintro (short | wrong | wrong)
    · omega
    · apply wrong
      simp only [Wire.bytes, Wire.body, Wire.header, List.append_assoc]
      exact List.take_left' Wire.length_magic
    · exact wrong rfl
  have derived : P.argon2id 19456 2 1 (DeviceCert.strBytes (normalize P code))
      (toLe saltLen env.body.envSalt.toNat) = some kekBytes := key
  unfold openEnvelope
  rw [if_neg framed]
  simp only [count, total, salt, derived, okOr, Outcome.ok_bind]
  rw [if_neg (not_not_intro rfl)]
  exact opened

end Open

section Blocks

variable {P} {dek : Dek} {uuid : Uuid} {name : FileName} {v : Vector UInt8 32} {dbUuid : Vector UInt8 16}

/-- Both crates derive the key of a database alike. -/
theorem dbCipher_eq (isDek : v.toList = dekBytes dek) (isUuid : dbUuid.toList = uuidBytes uuid) :
    dbCipher P v dbUuid = P.subkey (.dbKey dek uuid) := by
  rw [dbCipher, isDek, isUuid]
  rfl

/-- Both crates bind a block to the same place. -/
theorem blockAad_eq (isUuid : dbUuid.toList = uuidBytes uuid) (k : Nat) :
    blockAad (fileIdFor P (String.ofList name)) dbUuid k =
      P.aad (.block (Freehold.fileIdFor name) uuid k) := by
  rw [blockAad, isUuid]
  rfl

theorem fields_of_block (ct : List UInt8) (nonce : Vector UInt8 24) (tag : Vector UInt8 16)
    (length : ct.length = blockSize) :
    (ct ++ nonce.toList ++ tag.toList).take blockSize = ct ∧
      slice (ct ++ nonce.toList ++ tag.toList) blockSize nonceLen = nonce.toList ∧
      (ct ++ nonce.toList ++ tag.toList).drop (blockSize + nonceLen) = tag.toList := by
  have cut := slice_middle ct nonce.toList tag.toList
  rw [length, Vector.length_toList] at cut
  refine ⟨?_, cut, ?_⟩
  · rw [List.append_assoc]
    exact List.take_left' length
  · apply List.drop_left'
    rw [List.length_append, length, Vector.length_toList]

/-- The loop decrypts what the other crate sealed, block by block. -/
theorem decryptBlocks_stored (lawful : P.Lawful) (isDek : v.toList = dekBytes dek)
    (isUuid : dbUuid.toList = uuidBytes uuid) {cells : List Cell} {whole : List (List UInt8)}
    (stored : List.Forall₂ P.CellBytes cells whole) (before : List UInt8) (k : Nat) {image : List Block}
    (reached : before.length = k * physBlock)
    (ok : decryptCells (.dbKey dek uuid) uuid (Freehold.fileIdFor name) k cells = .ok image) :
    decryptBlocks P (String.ofList name) (dbCipher P v dbUuid) dbUuid (before ++ whole.flatten) k
      whole.length = .ok (bytesOf image) := by
  induction stored generalizing before k image with
  | nil =>
      cases ok
      rfl
  | @cons cell bytes cells whole head tail ih =>
      rw [decryptCells] at ok
      split at ok
      · cases ok
      · next plain opened =>
          obtain ⟨rest, decrypted, shape⟩ := except_bind_ok.mp ok
          cases shape
          rw [Aead.openWith_eq_some] at opened
          subst opened
          obtain ⟨nonce, rfl⟩ := head
          have length : (P.sealInto (.dbKey dek uuid) nonce (.block (Freehold.fileIdFor name) uuid k)
              plain).length = physBlock := length_sealInto lawful _ _ _ _
          have here := slice_middle before (P.sealInto (.dbKey dek uuid) nonce
            (.block (Freehold.fileIdFor name) uuid k) plain) whole.flatten
          rw [reached, length, List.append_assoc] at here
          have later := ih (before ++ P.sealInto (.dbKey dek uuid) nonce
            (.block (Freehold.fileIdFor name) uuid k) plain) (k + 1) (by
              rw [List.length_append, reached, length, Nat.succ_mul]) decrypted
          let key := P.subkey (.dbKey dek uuid)
          let place := P.aad (.block (Freehold.fileIdFor name) uuid k)
          have size := (lawful.length_encrypt key nonce place plain.toList).trans plain.length_toList
          have fields := fields_of_block (P.encrypt key nonce place plain.toList).1 nonce
            (P.encrypt key nonce place plain.toList).2 size
          have opens := lawful.decrypt_encrypt key nonce place plain.toList
          rw [List.append_assoc] at later
          rw [List.length_cons, decryptBlocks, List.flatten_cons, here, blockAad_eq isUuid]
          rw [Primitives.sealInto, fields.1, fields.2.1, fields.2.2]
          simp only [array_toList, Outcome.ok_bind]
          rw [dbCipher_eq isDek isUuid] at later ⊢
          rw [opens]
          simp only
          rw [Primitives.sealInto] at later
          rw [later]
          rfl

/-- A file that holds the blocks of an image decrypts to the bytes of the image. -/
theorem decryptDbFile_stored (lawful : P.Lawful) (isDek : v.toList = dekBytes dek)
    (isUuid : dbUuid.toList = uuidBytes uuid) {data : Region} {bytes : List UInt8} {image : List Block}
    (stored : data.Bytes P bytes) (aligned : data.size % physBlock = 0)
    (held : Pool.imageOf data name (.dbKey dek uuid) uuid = some image) :
    decryptDbFile P (String.ofList name) bytes v dbUuid = .ok (bytesOf image) := by
  have length := stored.length lawful
  have decrypted := Pool.imageOf_eq_some.mp held
  have blocks : data.cells.length = bytes.length / physBlock := by rw [Region.length_cells, length]
  rw [decryptDbFile, length, if_neg (not_not_intro aligned), ← length, ← blocks]
  rw [decryptWholeFile] at decrypted
  have blank (region : Region) (same : region.cells = List.replicate (region.size / physBlock) (.junk 0))
      (image : List Block) (ok : decryptCells (.dbKey dek uuid) uuid (Freehold.fileIdFor name) 0
        region.cells = .ok image) : region.cells = [] := by
    cases count : region.size / physBlock with
    | zero => rw [same, count]; rfl
    | succ n =>
        rw [same, count, List.replicate_succ, decryptCells, Aead.openWith_junk] at ok
        cases ok
  cases stored with
  | @blocks cells tail whole rest stored short =>
      have none : rest = [] := by
        rw [← List.length_eq_zero_iff, short]
        have small : tail.val < 4136 := tail.isLt
        have whole : (cells.length * 4136 + tail.val) % 4136 = 0 := aligned
        omega
      have count : (Region.blocks cells tail).cells.length = whole.length := stored.length_eq
      have ran := decryptBlocks_stored lawful isDek isUuid stored [] 0 (Nat.zero_mul _).symm decrypted
      rw [List.nil_append] at ran
      rw [count, none, List.append_nil]
      exact ran
  | manifest _ =>
      have empty := blank _ rfl _ decrypted
      rw [empty] at decrypted ⊢
      cases decrypted
      rfl
  | intent _ =>
      have empty := blank _ rfl _ decrypted
      rw [empty] at decrypted ⊢
      cases decrypted
      rfl

end Blocks

end Freehold.Decrypt
