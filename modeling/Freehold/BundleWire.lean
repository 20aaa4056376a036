import Freehold.SyncWire

set_option autoImplicit false

namespace Freehold.BundleWire

open Cursor

variable {width : Nat}

/-- b"FREEHOLD". -/
def magic : List UInt8 := [0x46, 0x52, 0x45, 0x45, 0x48, 0x4f, 0x4c, 0x44]

def version : UInt8 := 1

def tagEnvelope : UInt8 := 1
def tagCredId : UInt8 := 2
def tagFile : UInt8 := 3
def tagEpoch : UInt8 := 4

/-- An empty `credId` or `epoch` is an absent section. -/
structure Bundle where
  envelope : List UInt8
  credId : List UInt8
  files : List (String × List UInt8)
  epoch : List UInt8
  deriving DecidableEq

/-- A tag, a length of four bytes, and the bytes. -/
def encodeBytes (tag : UInt8) (bytes : List UInt8) : List UInt8 :=
  tag :: toLe 4 bytes.length ++ bytes

def encodeFile (file : String × List UInt8) : List UInt8 :=
  tagFile :: toLe 2 (utf8Bytes file.1).length ++ utf8Bytes file.1 ++ toLe 4 file.2.length ++ file.2

/-- Sections in the order of their tags. -/
def encode (envelope credId : List UInt8) (files : List (String × List UInt8)) (epoch : List UInt8) :
    List UInt8 :=
  magic ++ [version] ++ encodeBytes tagEnvelope envelope ++
    (if credId.isEmpty then [] else encodeBytes tagCredId credId) ++
    files.flatMap encodeFile ++
    (if epoch.isEmpty then [] else encodeBytes tagEpoch epoch)

def take (n : Nat) : Read width String (List UInt8) :=
  Read.take "bundle: length overflow" "bundle: truncated section" n

def takeU16 : Read width String Nat := Read.word "bundle: length overflow" "bundle: truncated section" 2

def takeU32 : Read width String Nat := Read.word "bundle: length overflow" "bundle: truncated section" 4

/-- The variables of the loop of `decode`. -/
structure Decoding where
  bundle : Bundle
  haveEnvelope : Bool

def start : Decoding := ⟨⟨[], [], [], []⟩, false⟩

/-- The branches of the match on the tag. -/
def decodePayload (tag : UInt8) (loop : Decoding) : Read width String Decoding :=
  if tag = tagEnvelope then do
    let n ← takeU32
    let envelope ← take n
    return ⟨{ loop.bundle with envelope := envelope }, true⟩
  else if tag = tagCredId then do
    let n ← takeU32
    let credId ← take n
    return { loop with bundle := { loop.bundle with credId := credId } }
  else if tag = tagFile then do
    let nlen ← takeU16
    let nameText ← take nlen
    let name ← Read.lift (okOr "bundle: file name is not UTF-8" (fromUtf8 nameText))
    let dlen ← takeU32
    let data ← take dlen
    return { loop with bundle := { loop.bundle with files := loop.bundle.files ++ [(name, data)] } }
  else if tag = tagEpoch then do
    let n ← takeU32
    let epoch ← take n
    return { loop with bundle := { loop.bundle with epoch := epoch } }
  else
    let shown := toString tag
    Read.fail s!"bundle: unknown section tag {shown} — newer format? (version bump territory)"

def decodeSection (loop : Decoding) : Read width String Decoding := do
  let tag ← Read.byte
  decodePayload tag loop

def decode (b : Slice width) : Outcome String Bundle := do
  if b.bytes.length < 9 then .error "bundle: bad magic — not a freehold bundle"
  else
    let found ← b.range 0 8
    if found ≠ magic then .error "bundle: bad magic — not a freehold bundle"
    else
      let v ← b.index 8
      if v ≠ version then
        let shown := toString v
        let expected := toString version
        .error s!"bundle: unsupported version {shown} (expected {expected})"
      else
        let (loop, _) ← (Read.untilEnd decodeSection (b.bytes.length + 1) start).run b 9
        if loop.haveEnvelope then return loop.bundle else .error "bundle: no envelope section"

/-- A section of the container. -/
inductive Part where
  | envelope (bytes : List UInt8)
  | credId (bytes : List UInt8)
  | file (name : String) (data : List UInt8)
  | epoch (bytes : List UInt8)

namespace Part

def encode : Part → List UInt8
  | envelope bytes => encodeBytes tagEnvelope bytes
  | credId bytes => encodeBytes tagCredId bytes
  | file name data => encodeFile (name, data)
  | epoch bytes => encodeBytes tagEpoch bytes

/-- What reading a section does to the bundle so far. -/
def apply (loop : Decoding) : Part → Decoding
  | envelope bytes => ⟨{ loop.bundle with envelope := bytes }, true⟩
  | credId bytes => { loop with bundle := { loop.bundle with credId := bytes } }
  | file name data =>
      { loop with bundle := { loop.bundle with files := loop.bundle.files ++ [(name, data)] } }
  | epoch bytes => { loop with bundle := { loop.bundle with epoch := bytes } }

/-- The lengths fit their fields. -/
def Fits : Part → Prop
  | envelope bytes | credId bytes | epoch bytes => bytes.length < 2 ^ 32
  | file name data => (utf8Bytes name).length < 2 ^ 16 ∧ data.length < 2 ^ 32

theorem encode_ne_nil (part : Part) : part.encode ≠ [] := by
  cases part <;> exact List.cons_ne_nil _ _

end Part

theorem reads_takeU16 (wide : 32 ≤ width) {n : Nat} (small : n < 2 ^ 16) :
    Read.Reads (takeU16 : Read width String Nat) (toLe 2 n) n :=
  Read.reads_word _ _ (Nat.pow_le_pow_right Nat.two_pos (by omega) : 2 ^ 16 ≤ 2 ^ width) small

theorem accepts_takeU16 (wide : 32 ≤ width) : Read.Accepts (takeU16 : Read width String Nat)
    fun read n => read = toLe 2 n ∧ n < 2 ^ 16 :=
  Read.accepts_word _ _ (Nat.pow_le_pow_right Nat.two_pos (by omega) : 2 ^ 16 ≤ 2 ^ width)

theorem reads_takeU32 (wide : 32 ≤ width) {n : Nat} (small : n < 2 ^ 32) :
    Read.Reads (takeU32 : Read width String Nat) (toLe 4 n) n :=
  Read.reads_word _ _ (Nat.pow_le_pow_right Nat.two_pos wide : 2 ^ 32 ≤ 2 ^ width) small

theorem accepts_takeU32 (wide : 32 ≤ width) : Read.Accepts (takeU32 : Read width String Nat)
    fun read n => read = toLe 4 n ∧ n < 2 ^ 32 :=
  Read.accepts_word _ _ (Nat.pow_le_pow_right Nat.two_pos wide : 2 ^ 32 ≤ 2 ^ width)

theorem reads_take (read : List UInt8) : Read.Reads (take read.length : Read width String _) read read :=
  Read.reads_take _ _ read

theorem accepts_take (n : Nat) : Read.Accepts (take n : Read width String _)
    fun read value => value = read ∧ read.length = n := Read.accepts_take _ _ n

/-- A length of four bytes and as many bytes, as three of the four sections have them. -/
theorem reads_bytes (wide : 32 ≤ width) {bytes : List UInt8} (short : bytes.length < 2 ^ 32)
    (assign : List UInt8 → Decoding) :
    Read.Reads (do let n ← takeU32; let read ← take n; return assign read : Read width String Decoding)
      (toLe 4 bytes.length ++ bytes) (assign bytes) := by
  have pieces : toLe 4 bytes.length ++ bytes = toLe 4 bytes.length ++ (bytes ++ []) := by
    rw [List.append_nil]
  rw [pieces]
  apply (reads_takeU32 wide short).bind
  apply (reads_take bytes).bind
  exact Read.Reads.pure _

theorem accepts_bytes (wide : 32 ≤ width) (assign : List UInt8 → Decoding) :
    Read.Accepts (do let n ← takeU32; let read ← take n; return assign read : Read width String Decoding)
      fun read loop => ∃ bytes, bytes.length < 2 ^ 32 ∧ read = toLe 4 bytes.length ++ bytes ∧
        loop = assign bytes := by
  apply (accepts_takeU32 wide).bind
  rintro _ n ⟨rfl, small⟩
  apply (accepts_take n).bind
  rintro _ bytes ⟨rfl, rfl⟩
  apply (Read.Accepts.pure _).imp
  rintro _ _ ⟨rfl, rfl⟩
  exact ⟨bytes, small, by rw [List.append_nil], rfl⟩

/-- A section is read in full wherever it stands. -/
theorem reads_decodeSection (wide : 32 ≤ width) (loop : Decoding) {part : Part} (fits : part.Fits) :
    Read.Reads (decodeSection loop : Read width String Decoding) part.encode (part.apply loop) := by
  cases part with
  | envelope bytes => exact (Read.reads_byte tagEnvelope).bind (reads_bytes wide fits _)
  | credId bytes => exact (Read.reads_byte tagCredId).bind (reads_bytes wide fits _)
  | epoch bytes => exact (Read.reads_byte tagEpoch).bind (reads_bytes wide fits _)
  | file name data =>
      have utf8 : (okOr "bundle: file name is not UTF-8" (fromUtf8 (utf8Bytes name)) :
          Outcome String String) = .ok name := by
        rw [fromUtf8_utf8Bytes]
        rfl
      have pieces : (Part.file name data).encode = [tagFile] ++ (toLe 2 (utf8Bytes name).length ++
          (utf8Bytes name ++ ([] ++ (toLe 4 data.length ++ (data ++ []))))) := by
        simp only [Part.encode, encodeFile, List.append_assoc, List.cons_append, List.nil_append,
          List.append_nil]
      rw [pieces]
      apply (Read.reads_byte tagFile).bind
      apply (reads_takeU16 wide fits.1).bind
      apply (reads_take (utf8Bytes name)).bind
      apply (Read.reads_lift utf8).bind
      apply (reads_takeU32 wide fits.2).bind
      apply (reads_take data).bind
      exact Read.Reads.pure _

theorem accepts_decodePayload (wide : 32 ≤ width) (tag : UInt8) (loop : Decoding) :
    Read.Accepts (decodePayload tag loop : Read width String Decoding)
      fun read next => ∃ part : Part, part.Fits ∧ tag :: read = part.encode ∧ next = part.apply loop := by
  unfold decodePayload
  split
  · next envelope =>
      apply (accepts_bytes wide _).imp
      rintro _ _ ⟨bytes, small, rfl, rfl⟩
      exact ⟨.envelope bytes, small, by rw [envelope]; rfl, rfl⟩
  split
  · next credId =>
      apply (accepts_bytes wide _).imp
      rintro _ _ ⟨bytes, small, rfl, rfl⟩
      exact ⟨.credId bytes, small, by rw [credId]; rfl, rfl⟩
  split
  · next file =>
      apply (accepts_takeU16 wide).bind
      rintro _ nlen ⟨rfl, nameSmall⟩
      apply (accepts_take nlen).bind
      rintro _ nameText ⟨rfl, rfl⟩
      have utf8 : (okOr "bundle: file name is not UTF-8" (fromUtf8 nameText)).Meets
          fun name => utf8Bytes name = nameText := by
        cases decoded : fromUtf8 nameText with
        | none => trivial
        | some name => exact utf8Bytes_of_fromUtf8 decoded
      apply (Read.Accepts.lift utf8).bind
      rintro _ name ⟨rfl, rfl⟩
      apply (accepts_takeU32 wide).bind
      rintro _ dlen ⟨rfl, dataSmall⟩
      apply (accepts_take dlen).bind
      rintro _ data ⟨rfl, rfl⟩
      apply (Read.Accepts.pure _).imp
      rintro _ _ ⟨rfl, rfl⟩
      refine ⟨.file name data, ⟨nameSmall, dataSmall⟩, ?_, rfl⟩
      simp only [Part.encode, encodeFile, file, List.append_assoc, List.cons_append, List.nil_append,
        List.append_nil]
  split
  · next epoch =>
      apply (accepts_bytes wide _).imp
      rintro _ _ ⟨bytes, small, rfl, rfl⟩
      exact ⟨.epoch bytes, small, by rw [epoch]; rfl, rfl⟩
  · exact Read.Accepts.fail _

/-- `read` is one section, and `next` is the loop after it. -/
def Decoding.Steps (loop : Decoding) (read : List UInt8) (next : Decoding) : Prop :=
  ∃ part : Part, part.Fits ∧ read = part.encode ∧ next = part.apply loop

/-- One iteration reads one whole section, as long as there is a byte left. -/
theorem decodeSection_meets (wide : 32 ≤ width) {b : Slice width} (loop : Decoding) {pos : Nat}
    (more : pos < b.bytes.length) :
    ((decodeSection loop : Read width String Decoding).run b pos).Meets fun out =>
      ∃ read, b.Between pos read out.2 ∧ read ≠ [] ∧ loop.Steps read out.1 := by
  apply (Read.byte_meets more).bind
  rintro ⟨tag, mid⟩ first
  apply (accepts_decodePayload wide tag loop b mid first.stop_le).imp
  rintro ⟨next, stop⟩ ⟨read, rest, part, fits, same, applied⟩
  exact ⟨tag :: read, first.append rest, List.cons_ne_nil _ _, part, fits, same, applied⟩

def header : List UInt8 := magic ++ [version]

/-- The sections of a sequence, one after the other. -/
def encodeParts (parts : List Part) : List UInt8 := (parts.map Part.encode).flatten

theorem parts_of_chain {loop last : Decoding} {reads : List (List UInt8)}
    (chain : Read.Chain Decoding.Steps loop reads last) :
    ∃ parts : List Part, (∀ part ∈ parts, part.Fits) ∧ reads = parts.map Part.encode ∧
      last = parts.foldl Part.apply loop := by
  induction chain with
  | nil loop => exact ⟨[], by simp, rfl, rfl⟩
  | cons head tail ih =>
      obtain ⟨part, fits, rfl, rfl⟩ := head
      obtain ⟨parts, rest, rfl, rfl⟩ := ih
      exact ⟨part :: parts, List.forall_mem_cons.mpr ⟨fits, rest⟩, rfl, rfl⟩

theorem chain_of_parts (wide : 32 ≤ width) {parts : List Part} (fits : ∀ part ∈ parts, part.Fits)
    (loop : Decoding) :
    Read.Chain (fun loop read next =>
        Read.Reads (decodeSection loop : Read width String _) read next ∧ read ≠ [])
      loop (parts.map Part.encode) (parts.foldl Part.apply loop) := by
  induction parts generalizing loop with
  | nil => exact .nil loop
  | cons part parts ih =>
      rw [List.forall_mem_cons] at fits
      exact .cons ⟨reads_decodeSection wide loop fits.1, part.encode_ne_nil⟩ (ih fits.2 _)

/-- The sections a bundle was decoded from. -/
def Parsed (bytes : List UInt8) (bundle : Bundle) : Prop :=
  ∃ parts : List Part, (∀ part ∈ parts, part.Fits) ∧ bytes = header ++ encodeParts parts ∧
    parts.foldl Part.apply start = ⟨bundle, true⟩

/-- No bytes panic, and what is accepted is the header and whole sections. -/
theorem decode_meets (wide : 32 ≤ width) (b : Slice width) : (decode b).Meets (Parsed b.bytes) := by
  unfold decode
  split
  · trivial
  · next long =>
      have front : b.Between 0 ((b.bytes.take 8).drop 0) 8 :=
        Slice.between_of_le (by omega) (by omega)
      have ninth := Slice.between_index (by omega : 8 < b.bytes.length)
      rw [front.range_eq, Outcome.ok_bind]
      split
      · trivial
      · next isMagic =>
          rw [ninth.index_eq, Outcome.ok_bind]
          split
          · trivial
          · next isVersion =>
              have head := front.append ninth
              rw [Decidable.not_not.mp isMagic, Decidable.not_not.mp isVersion] at head
              have loop := Read.untilEnd_meets (fun loop pos more => decodeSection_meets wide loop more)
                (by omega : 9 ≤ b.bytes.length) (by omega : _ < b.bytes.length + 1) start
              apply loop.bind
              rintro ⟨last, stop⟩ ⟨_, reads, tail, chain⟩
              dsimp only
              split
              · next have_envelope =>
                  obtain ⟨parts, fits, rfl, final⟩ := parts_of_chain chain
                  refine ⟨parts, fits, b.between_all.unique (head.append tail), ?_⟩
                  rw [← final, ← have_envelope]
              · trivial

theorem decode_of_parsed (wide : 32 ≤ width) {b : Slice width} {bundle : Bundle}
    (parsed : Parsed b.bytes bundle) : decode b = .ok bundle := by
  obtain ⟨parts, fits, whole, final⟩ := parsed
  have cuts := b.between_all
  rw [whole] at cuts
  obtain ⟨head, tail⟩ := cuts.split
  obtain ⟨front, ninth⟩ := head.split
  have isMagic : (b.range 0 8 : Outcome String _) = .ok magic := front.range_eq
  have isVersion : (b.index 8 : Outcome String _) = .ok version := ninth.index_eq
  have long : ¬b.bytes.length < 9 := by
    have inside := head.stop_le
    have nine : (header : List UInt8).length = 9 := rfl
    omega
  have loop := Read.reads_untilEnd (chain_of_parts wide fits start)
    (by rw [whole]; exact tail : b.Between 9 _ b.bytes.length) (by omega : _ < b.bytes.length + 1)
  rw [final] at loop
  unfold decode
  rw [if_neg long, isMagic, Outcome.ok_bind, if_neg (not_not_intro rfl), isVersion, Outcome.ok_bind,
    if_neg (not_not_intro rfl), loop]
  rfl

theorem decode_eq_ok (wide : 32 ≤ width) {b : Slice width} {bundle : Bundle} :
    decode b = .ok bundle ↔ Parsed b.bytes bundle :=
  ⟨fun decoded => (decode_meets wide b).of_ok decoded, decode_of_parsed wide⟩

/-- The sections `encode` writes. -/
def partsOf (bundle : Bundle) : List Part :=
  .envelope bundle.envelope :: (if bundle.credId.isEmpty then [] else [.credId bundle.credId]) ++
    bundle.files.map (fun file => .file file.1 file.2) ++
    (if bundle.epoch.isEmpty then [] else [.epoch bundle.epoch])

/-- The lengths fit their fields. -/
structure Bundle.Fits (bundle : Bundle) : Prop where
  envelope : bundle.envelope.length < 2 ^ 32
  credId : bundle.credId.length < 2 ^ 32
  files : ∀ file ∈ bundle.files, (utf8Bytes file.1).length ≤ 65535 ∧ file.2.length < 2 ^ 32
  epoch : bundle.epoch.length < 2 ^ 32

theorem encodeParts_append (parts others : List Part) :
    encodeParts (parts ++ others) = encodeParts parts ++ encodeParts others := by
  rw [encodeParts, List.map_append, List.flatten_append]
  rfl

theorem encode_eq (bundle : Bundle) :
    encode bundle.envelope bundle.credId bundle.files bundle.epoch =
      header ++ encodeParts (partsOf bundle) := by
  have files : encodeParts (bundle.files.map fun file => .file file.1 file.2) =
      bundle.files.flatMap encodeFile := by
    rw [encodeParts, List.map_map, List.flatMap_def]
    rfl
  have optional (bytes : List UInt8) (part : Part) :
      encodeParts (if bytes.isEmpty then [] else [part]) =
        if bytes.isEmpty then [] else part.encode := by
    split
    · rfl
    · exact List.append_nil _
  rw [partsOf, encodeParts_append, encodeParts_append, files, optional, ← List.singleton_append,
    encodeParts_append, optional]
  simp only [encode, header, encodeParts, Part.encode, List.map_cons, List.map_nil,
    List.flatten_cons, List.flatten_nil, List.append_nil, List.append_assoc]

theorem fits_partsOf {bundle : Bundle} (fits : bundle.Fits) : ∀ part ∈ partsOf bundle, part.Fits := by
  intro part member
  simp only [partsOf, List.mem_append, List.mem_cons, List.mem_map] at member
  rcases member with ((rfl | credId) | ⟨file, inFiles, rfl⟩) | epoch
  · exact fits.envelope
  · split at credId
    · cases credId
    · cases List.mem_singleton.mp credId
      exact fits.credId
  · have bounds := fits.files file inFiles
    exact ⟨by omega, bounds.2⟩
  · split at epoch
    · cases epoch
    · cases List.mem_singleton.mp epoch
      exact fits.epoch

theorem foldl_files (files : List (String × List UInt8)) (loop : Decoding) :
    (files.map fun file => Part.file file.1 file.2).foldl Part.apply loop =
      { loop with bundle := { loop.bundle with files := loop.bundle.files ++ files } } := by
  induction files generalizing loop with
  | nil => simp
  | cons file files ih =>
      rw [List.map_cons, List.foldl_cons, ih]
      simp [Part.apply]

theorem foldl_partsOf (bundle : Bundle) : (partsOf bundle).foldl Part.apply start = ⟨bundle, true⟩ := by
  have credId : (if bundle.credId.isEmpty then [] else [Part.credId bundle.credId]).foldl Part.apply
      ⟨⟨bundle.envelope, [], [], []⟩, true⟩ = ⟨⟨bundle.envelope, bundle.credId, [], []⟩, true⟩ := by
    split
    · next absent => rw [List.isEmpty_iff.mp absent]; rfl
    · rfl
  have epoch : (if bundle.epoch.isEmpty then [] else [Part.epoch bundle.epoch]).foldl Part.apply
      ⟨⟨bundle.envelope, bundle.credId, bundle.files, []⟩, true⟩ = ⟨bundle, true⟩ := by
    split
    · next absent =>
        have none : bundle.epoch = [] := List.isEmpty_iff.mp absent
        rw [List.foldl_nil, ← none]
    · rfl
  rw [partsOf, List.foldl_append, List.foldl_append, List.foldl_cons]
  have opened : Part.apply start (.envelope bundle.envelope) = ⟨⟨bundle.envelope, [], [], []⟩, true⟩ := rfl
  rw [opened, credId, foldl_files]
  exact epoch

theorem parsed_encode {bundle : Bundle} (fits : bundle.Fits) :
    Parsed (encode bundle.envelope bundle.credId bundle.files bundle.epoch) bundle :=
  ⟨partsOf bundle, fits_partsOf fits, encode_eq bundle, foldl_partsOf bundle⟩

theorem Part.fits_apply {loop : Decoding} {part : Part} (fits : loop.bundle.Fits) (part_fits : part.Fits) :
    (part.apply loop).bundle.Fits := by
  cases part with
  | envelope bytes => exact ⟨part_fits, fits.credId, fits.files, fits.epoch⟩
  | credId bytes => exact ⟨fits.envelope, part_fits, fits.files, fits.epoch⟩
  | epoch bytes => exact ⟨fits.envelope, fits.credId, fits.files, part_fits⟩
  | file name data =>
      refine ⟨fits.envelope, fits.credId, ?_, fits.epoch⟩
      intro file member
      rcases List.mem_append.mp member with earlier | added
      · exact fits.files file earlier
      · cases List.mem_singleton.mp added
        exact ⟨Nat.le_of_lt_succ part_fits.1, part_fits.2⟩

/-- The length of an optional section. -/
def optionalLength (bytes : List UInt8) : Nat := if bytes.isEmpty then 0 else 5 + bytes.length

theorem optionalLength_le (bytes : List UInt8) : optionalLength bytes ≤ 5 + bytes.length := by
  unfold optionalLength
  split <;> omega

/-- How many bytes the sections of the bundle so far take, written once each. -/
def Decoding.weight (loop : Decoding) : Nat :=
  (bif loop.haveEnvelope then 5 + loop.bundle.envelope.length else 0) +
    optionalLength loop.bundle.credId + (loop.bundle.files.flatMap encodeFile).length +
    optionalLength loop.bundle.epoch

theorem length_encodeBytes (tag : UInt8) (bytes : List UInt8) :
    (encodeBytes tag bytes).length = 5 + bytes.length := by
  rw [encodeBytes, List.cons_append, List.length_cons, List.length_append, length_toLe]
  omega

theorem Part.weight_apply (loop : Decoding) (part : Part) :
    (part.apply loop).weight ≤ loop.weight + part.encode.length := by
  cases part with
  | envelope bytes =>
      simp only [Decoding.weight, Part.apply, Part.encode, length_encodeBytes, cond_true]
      omega
  | credId bytes =>
      have bound := optionalLength_le bytes
      simp only [Decoding.weight, Part.apply, Part.encode, length_encodeBytes]
      omega
  | epoch bytes =>
      have bound := optionalLength_le bytes
      simp only [Decoding.weight, Part.apply, Part.encode, length_encodeBytes]
      omega
  | file name data =>
      simp only [Decoding.weight, Part.apply, Part.encode, List.flatMap_append, List.length_append,
        List.flatMap_cons, List.flatMap_nil, List.append_nil]
      omega

/-- Sections only ever replace or add to what was read, so that encoding again takes no more room. -/
theorem foldl_apply_bounds {parts : List Part} (fits : ∀ part ∈ parts, part.Fits) (loop : Decoding)
    (loop_fits : loop.bundle.Fits) :
    (parts.foldl Part.apply loop).bundle.Fits ∧
      (parts.foldl Part.apply loop).weight ≤ loop.weight + (encodeParts parts).length := by
  induction parts generalizing loop with
  | nil => exact ⟨loop_fits, Nat.le_add_right _ _⟩
  | cons part parts ih =>
      rw [List.forall_mem_cons] at fits
      have rest := ih fits.2 (part.apply loop) (Part.fits_apply loop_fits fits.1)
      have step := part.weight_apply loop
      have grows : (encodeParts (part :: parts)).length =
          part.encode.length + (encodeParts parts).length := by
        rw [encodeParts, List.map_cons, List.flatten_cons, List.length_append]
        rfl
      refine ⟨rest.1, ?_⟩
      have total := rest.2
      rw [List.foldl_cons]
      omega

theorem length_encode (bundle : Bundle) :
    (encode bundle.envelope bundle.credId bundle.files bundle.epoch).length =
      9 + Decoding.weight ⟨bundle, true⟩ := by
  have optional (tag : UInt8) (bytes : List UInt8) :
      (if bytes.isEmpty then [] else encodeBytes tag bytes).length = optionalLength bytes := by
    unfold optionalLength
    split
    · rfl
    · exact length_encodeBytes tag bytes
  have nine : (magic ++ [version]).length = 9 := rfl
  simp only [encode, List.length_append, optional, length_encodeBytes, Decoding.weight, cond_true]
  rw [List.length_append] at nine
  omega

/-- What was decoded can be written again in the room it came from. -/
theorem Parsed.again {bytes : List UInt8} {bundle : Bundle} (parsed : Parsed bytes bundle) :
    bundle.Fits ∧
      (encode bundle.envelope bundle.credId bundle.files bundle.epoch).length ≤ bytes.length := by
  obtain ⟨parts, fits, rfl, final⟩ := parsed
  have bounds := foldl_apply_bounds fits start ⟨by decide, by decide, by simp [start], by decide⟩
  rw [final] at bounds
  have nine : header.length = 9 := rfl
  have none : start.weight = 0 := rfl
  refine ⟨bounds.1, ?_⟩
  rw [length_encode, List.length_append]
  omega

/-- The words of the container. -/
theorem prefixFree_parts : PrefixFree fun word => ∃ part : Part, part.Fits ∧ word = part.encode := by
  apply prefixFree_of_reads 32 fun width => (decodeSection start : Read width String Decoding)
  rintro width wide _ ⟨part, fits, rfl⟩
  exact ⟨_, reads_decodeSection wide start fits⟩

/-- A part of an encoding that is accepted ends where a section does. -/
theorem Parsed.boundary {bytes : List UInt8} {bundle whole : Bundle} (parsed : Parsed bytes bundle)
    (fits : whole.Fits)
    (begins : bytes <+: encode whole.envelope whole.credId whole.files whole.epoch) :
    ∃ k, bytes = header ++ encodeParts ((partsOf whole).take k) := by
  obtain ⟨parts, parts_fit, rfl, _⟩ := parsed
  rw [encode_eq, List.prefix_append_right_inj] at begins
  have read : ∀ word ∈ parts.map Part.encode,
      (∃ part : Part, part.Fits ∧ word = part.encode) ∧ word ≠ [] := by
    intro word member
    obtain ⟨part, inParts, rfl⟩ := List.mem_map.mp member
    exact ⟨⟨part, parts_fit part inParts, rfl⟩, part.encode_ne_nil⟩
  have written : ∀ word ∈ (partsOf whole).map Part.encode,
      ∃ part : Part, part.Fits ∧ word = part.encode := by
    intro word member
    obtain ⟨part, inParts, rfl⟩ := List.mem_map.mp member
    exact ⟨part, fits_partsOf fits part inParts, rfl⟩
  have words := prefixFree_parts.prefix_of_flatten read written begins
  refine ⟨parts.length, ?_⟩
  have taken := List.prefix_iff_eq_take.mp words
  rw [List.length_map, ← List.map_take] at taken
  rw [encodeParts, encodeParts, taken]

/-- The bundle format: what is encoded decodes to itself, no bytes panic, what is cut off inside a
section is rejected, and what is accepted can be encoded again. -/
theorem bundle_exact (t : Target) :
    (∀ bundle : Bundle, bundle.Fits → ∀ b : Slice t.usizeBits,
      b.bytes = encode bundle.envelope bundle.credId bundle.files bundle.epoch →
        decode b = .ok bundle) ∧
    (∀ b : Slice t.usizeBits, decode b ≠ .panic) ∧
    (∀ whole : Bundle, whole.Fits → ∀ b : Slice t.usizeBits,
      b.bytes <+: encode whole.envelope whole.credId whole.files whole.epoch →
      (∀ k, b.bytes ≠ header ++ encodeParts ((partsOf whole).take k)) →
        ∃ reason, decode b = .error reason) ∧
    ∀ (b : Slice t.usizeBits) (bundle : Bundle), decode b = .ok bundle →
      ∃ again : Slice t.usizeBits,
        again.bytes = encode bundle.envelope bundle.credId bundle.files bundle.epoch ∧
          decode again = .ok bundle := by
  have wide := t.le_usizeBits
  refine ⟨?_, ?_, ?_, ?_⟩
  · intro bundle fits b encoded
    apply decode_of_parsed wide
    rw [encoded]
    exact parsed_encode fits
  · intro b
    exact (decode_meets wide b).ne_panic
  · intro whole fits b begins inside
    cases decoded : decode b with
    | ok bundle =>
        obtain ⟨k, boundary⟩ := ((decode_eq_ok wide).mp decoded).boundary fits begins
        exact absurd boundary (inside k)
    | error reason => exact ⟨reason, rfl⟩
    | panic => exact absurd decoded (decode_meets wide b).ne_panic
  · intro b bundle decoded
    obtain ⟨fits, room⟩ := ((decode_eq_ok wide).mp decoded).again
    refine ⟨⟨encode bundle.envelope bundle.credId bundle.files bundle.epoch,
      Nat.lt_of_le_of_lt room b.fits⟩, rfl, ?_⟩
    exact decode_of_parsed wide (parsed_encode fits)

theorem bundle_exact_small :
    decode (⟨encode [7] [] [("a", [1, 2])] [9], by decide⟩ : Slice Target.wasm32.usizeBits) =
      .ok ⟨[7], [], [("a", [1, 2])], [9]⟩ := by
  apply (bundle_exact .wasm32).1 ⟨[7], [], [("a", [1, 2])], [9]⟩
  · refine ⟨by decide, by decide, ?_, by decide⟩
    intro file member
    cases List.mem_singleton.mp member
    exact ⟨by decide, by decide⟩
  · rfl

end Freehold.BundleWire
