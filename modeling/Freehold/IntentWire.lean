import Freehold.PayloadWire
import Freehold.Rotation

set_option autoImplicit false

/- The bytes of a rotation intent: two counted lists, the database names with a length of one byte
each and the anchor entries. -/
namespace Freehold.IntentWire

open Cursor PayloadWire

/-- b"FRI2". -/
def rotIntentMagic : List UInt8 := [0x46, 0x52, 0x49, 0x32]

def encodeName (db : String) : List UInt8 := UInt8.ofNat (utf8Bytes db).length :: utf8Bytes db

def encodeNames : List String → Except String (List UInt8)
  | [] => .ok []
  | db :: rest =>
      if (utf8Bytes db).length > 255 then
        let shown := db.quote
        .error s!"rotate: db name too long: {shown}"
      else do
        let names ← encodeNames rest
        return encodeName db ++ names

def encodeAnchors (anchors : List PayloadWire.AnchorEntry) : List UInt8 :=
  anchors.flatMap fun e => (entryFields e).flatten

def encodeRotationIntent (oldGen newGen : UInt64) (dbNames : List String)
    (anchors : List PayloadWire.AnchorEntry) : Except String (List UInt8) :=
  if dbNames.length > 65535 ∨ anchors.length > anchorCap then .error "rotate intent too large"
  else do
    let names ← encodeNames dbNames
    return rotIntentMagic ++ (le8 oldGen ++ le8 newGen) ++ toLe 2 dbNames.length ++ names ++
      toLe 2 anchors.length ++ encodeAnchors anchors

def badMagic : String := "rotate intent bad magic/version"
def truncated : String := "rotate intent truncated"

/-- `take_u16`. -/
def takeU16 : Read 31 String Nat := Read.bounded 32 truncated 2 fun b pos => do
  let bytes ← b.indices pos 2
  fromLe 2 bytes

/-- `let len = plain[at] as usize; at += 1;`, where there is a byte left. -/
def nameLen : Read 31 String Nat := ⟨fun b pos => do
  if pos ≥ b.bytes.length then .error truncated
  else
    let len ← b.index pos
    return (len.toNat, ← addUsize 32 pos 1)⟩

def nameText (len : Nat) : Read 31 String (List UInt8) :=
  Read.bounded 32 "rotate intent name overruns record" len fun b pos => do
    let stop ← addUsize 32 pos len
    b.range pos stop

def parseName (names : List String) : Read 31 String (List String) := do
  let len ← nameLen
  let text ← nameText len
  let name ← Read.lift (okOr "rotate intent name not utf8" (fromUtf8 text))
  return names ++ [name]

def parseAnchor (anchors : List PayloadWire.AnchorEntry) : Read 31 String (List PayloadWire.AnchorEntry) := do
  let e ← Read.bounded 32 truncated anchorEntrySize decodeEntry
  return anchors ++ [e]

/-- The generations are advisory. -/
def skipGenerations : Read 31 String Unit := Read.bounded 32 truncated 16 fun _ _ => .ok ()

def parseLists : Read 31 String (List String × List PayloadWire.AnchorEntry) := do
  skipGenerations
  let nNames ← takeU16
  let names ← Read.times parseName nNames []
  let nAnchors ← takeU16
  if nAnchors > anchorCap then Read.fail "rotate intent anchor count too large"
  else do
    let anchors ← Read.times parseAnchor nAnchors []
    return (names, anchors)

def parseRotationIntent (plain : Slice 31) : Outcome String (List String × List PayloadWire.AnchorEntry) := do
  if plain.bytes.length < 4 then .error badMagic
  else
    let magic ← plain.range 0 4
    if magic ≠ rotIntentMagic then .error badMagic
    else
      let (lists, _) ← parseLists.run plain 4
      return lists

/-- What an intent has room for. -/
structure FitsIntent (dbNames : List String) (anchors : List PayloadWire.AnchorEntry) : Prop where
  count : dbNames.length ≤ 65535
  names : ∀ db ∈ dbNames, (utf8Bytes db).length ≤ 255
  anchors : anchors.length ≤ anchorCap

section Encode

variable {oldGen newGen : UInt64} {dbNames : List String} {anchors : List PayloadWire.AnchorEntry}

/-- The first name that is too long, if there is one, ends the encoding. -/
theorem encodeNames_find : encodeNames dbNames =
    match dbNames.find? fun db => 255 < (utf8Bytes db).length with
    | some db =>
        let shown := db.quote
        .error s!"rotate: db name too long: {shown}"
    | none => .ok (dbNames.flatMap encodeName) := by
  induction dbNames with
  | nil => rfl
  | cons db rest ih =>
      rw [encodeNames]
      by_cases long : (utf8Bytes db).length > 255
      · have found : (db :: rest).find? (fun db => 255 < (utf8Bytes db).length) = some db :=
          List.find?_cons_of_pos (by simpa using long)
        rw [if_pos long, found]
      · rw [if_neg long, ih, List.find?_cons_of_neg (by simpa using long)]
        cases rest.find? fun db => 255 < (utf8Bytes db).length with
        | none => rfl
        | some other => rfl

/-- The bytes of an intent that fits. -/
def intentBytes (oldGen newGen : UInt64) (dbNames : List String) (anchors : List PayloadWire.AnchorEntry) :
    List UInt8 :=
  rotIntentMagic ++ ((le8 oldGen ++ le8 newGen) ++ (toLe 2 dbNames.length ++ (dbNames.flatMap encodeName ++
    (toLe 2 anchors.length ++ (encodeAnchors anchors ++ [])))))

theorem encode_eq (fits : FitsIntent dbNames anchors) :
    encodeRotationIntent oldGen newGen dbNames anchors = .ok (intentBytes oldGen newGen dbNames anchors) := by
  have count := fits.count
  have few := fits.anchors
  have short : (dbNames.find? fun db => 255 < (utf8Bytes db).length) = none := by
    rw [List.find?_eq_none]
    intro db listed
    simpa using fits.names db listed
  rw [encodeRotationIntent, if_neg (by omega), encodeNames_find, short]
  simp only [intentBytes, List.append_assoc, List.append_nil]
  rfl

/-- Nothing larger is cut to fit. -/
theorem encode_error (large : ¬ FitsIntent dbNames anchors) :
    ∃ reason, encodeRotationIntent oldGen newGen dbNames anchors = .error reason := by
  unfold encodeRotationIntent
  split
  · exact ⟨_, rfl⟩
  · next counts =>
      rw [encodeNames_find]
      cases first : dbNames.find? fun db => 255 < (utf8Bytes db).length with
      | some db => exact ⟨_, rfl⟩
      | none =>
          rw [List.find?_eq_none] at first
          exact absurd ⟨by omega, fun db listed => by simpa using first db listed, by omega⟩ large

theorem length_names (short : ∀ db ∈ dbNames, (utf8Bytes db).length ≤ 255) :
    (dbNames.flatMap encodeName).length ≤ dbNames.length * 256 := by
  induction dbNames with
  | nil => simp
  | cons db rest ih =>
      rw [List.forall_mem_cons] at short
      have others := ih short.2
      rw [List.flatMap_cons, List.length_append, encodeName, List.length_cons, List.length_cons]
      omega

/-- The longest intent is far from the largest slice. -/
theorem length_intentBytes (fits : FitsIntent dbNames anchors) :
    (intentBytes oldGen newGen dbNames anchors).length < 2 ^ 31 := by
  have count := fits.count
  have names := length_names fits.names
  have entries := entries_end fits.anchors
  have length : (encodeAnchors anchors).length = anchors.length * anchorEntrySize := length_entries
  have magic : rotIntentMagic.length = 4 := rfl
  simp only [intentBytes, List.length_append, List.length_nil, magic, length_le8, length_toLe, length]
  omega

end Encode

section Parse

variable {oldGen newGen : UInt64} {dbNames : List String} {anchors : List PayloadWire.AnchorEntry}

theorem reads_takeU16 {value : Nat} (small : value < 65536) : Read.Reads takeU16 (toLe 2 value) value := by
  apply Read.reads_bounded (by decide) (length_toLe 2 value)
  intro b pos between
  rw [between.indices_eq (length_toLe 2 value), Outcome.ok_bind, fromLe_toLe small]

theorem accepts_takeU16 : Read.Accepts takeU16 fun _ value => value < 65536 := by
  have read : Read.Accepts takeU16 fun read value => read.length = 2 ∧ value < 65536 := by
    apply Read.accepts_bounded (by decide)
    intro b pos read between
    have inside := between.stop_le
    have small := ofLe_lt (Splice.window b.bytes pos 2)
    have length : (Splice.window b.bytes pos 2).length = 2 := by
      rw [Splice.length_window]
      omega
    rw [Slice.indices_window inside, Outcome.ok_bind, fromLe_eq length]
    rw [length] at small
    exact small
  exact read.imp fun _ _ both => both.2

/-- A name's length and its text stand in one byte and the bytes after it. -/
theorem reads_parseName (names : List String) {db : String} (short : (utf8Bytes db).length ≤ 255) :
    Read.Reads (parseName names) (encodeName db) (names ++ [db]) := by
  have length : Read.Reads nameLen [UInt8.ofNat (utf8Bytes db).length] (utf8Bytes db).length := by
    intro b pos stop between
    have inside := between.stop_le
    have fits := between.stop_lt
    have spans : stop = pos + 1 := between.stop_eq
    have found : (b.index pos : Outcome String UInt8) = .ok (UInt8.ofNat (utf8Bytes db).length) :=
      between.index_eq
    have value : (UInt8.ofNat (utf8Bytes db).length).toNat = (utf8Bytes db).length :=
      UInt8.toNat_ofNat_of_lt' (show _ < 256 by omega)
    subst spans
    simp only [nameLen, found, Outcome.ok_bind, addUsize_eq (show pos + 1 < 2 ^ 32 by omega), value]
    rw [if_neg (by omega)]
    rfl
  have text : Read.Reads (nameText (utf8Bytes db).length) (utf8Bytes db) (utf8Bytes db) := by
    apply Read.reads_bounded (by decide) rfl
    intro b pos between
    have fits := between.stop_lt
    rw [addUsize_eq (by omega), Outcome.ok_bind, between.range_eq]
  have utf8 : (okOr "rotate intent name not utf8" (fromUtf8 (utf8Bytes db)) : Outcome String String) = .ok db := by
    rw [fromUtf8_utf8Bytes]
    rfl
  have pieces : encodeName db = [UInt8.ofNat (utf8Bytes db).length] ++ (utf8Bytes db ++ ([] ++ [])) := by
    simp only [encodeName, List.append_nil, List.singleton_append]
  rw [pieces]
  apply length.bind
  apply text.bind
  apply (Read.reads_lift utf8).bind
  exact Read.Reads.pure _

theorem accepts_parseName (names : List String) :
    Read.Accepts (parseName names) fun _ next =>
      ∃ db, (utf8Bytes db).length ≤ 255 ∧ next = names ++ [db] := by
  have length : Read.Accepts nameLen fun _ len => len ≤ 255 := by
    intro b pos inside
    have short := b.fits
    unfold nameLen
    dsimp only
    split
    · trivial
    · have more : pos < b.bytes.length := by omega
      rw [Slice.index_of_lt more, Outcome.ok_bind, addUsize_eq (by omega)]
      have small := b.bytes[pos].toNat_lt
      exact ⟨[b.bytes[pos]], Slice.between_index more, by omega⟩
  have text {len : Nat} (small : len ≤ 255) : Read.Accepts (nameText len) fun _ text => text.length = len := by
    have read : Read.Accepts (nameText len) fun read text => read.length = len ∧ text.length = len := by
      apply Read.accepts_bounded (by omega)
      intro b pos read between
      have inside := between.stop_le
      have fits := between.stop_lt
      rw [addUsize_eq (by omega), Outcome.ok_bind]
      apply (length_range (Nat.le_add_right pos len) inside).imp
      intro bytes exact
      omega
    exact read.imp fun _ _ both => both.2
  apply length.bind
  intro _ len small
  apply (text small).bind
  intro _ bytes exact
  have utf8 : (okOr "rotate intent name not utf8" (fromUtf8 bytes)).Meets fun name => utf8Bytes name = bytes := by
    cases decoded : fromUtf8 bytes with
    | none => trivial
    | some name => exact utf8Bytes_of_fromUtf8 decoded
  apply (Read.Accepts.lift utf8).bind
  intro _ name same
  apply (Read.Accepts.pure _).imp
  intro _ next last
  exact ⟨name, by rw [same.2]; omega, last.2⟩

theorem reads_parseAnchor (anchors : List PayloadWire.AnchorEntry) (e : PayloadWire.AnchorEntry) :
    Read.Reads (parseAnchor anchors) (entryFields e).flatten (anchors ++ [e]) := by
  have entry : Read.Reads (Read.bounded 32 truncated anchorEntrySize decodeEntry) (entryFields e).flatten e := by
    apply Read.reads_bounded (by decide) (length_entryFields e)
    intro b pos between
    exact decodeEntry_eq between
  rw [← List.append_nil (entryFields e).flatten]
  exact entry.bind (Read.Reads.pure _)

theorem accepts_parseAnchor (anchors : List PayloadWire.AnchorEntry) :
    Read.Accepts (parseAnchor anchors) fun _ next => ∃ e, True ∧ next = anchors ++ [e] := by
  have entry : Read.Accepts (Read.bounded 32 truncated anchorEntrySize decodeEntry) fun read _ =>
      read.length = anchorEntrySize ∧ True := by
    apply Read.accepts_bounded (by decide)
    intro b pos read between
    exact decodeEntry_meets between.stop_le
  apply entry.bind
  intro _ e _
  apply (Read.Accepts.pure _).imp
  intro _ next same
  exact ⟨e, trivial, same.2⟩

/-- What was laid out is read back, the generations aside. -/
theorem reads_parseLists (fits : FitsIntent dbNames anchors) :
    Read.Reads parseLists ((le8 oldGen ++ le8 newGen) ++ (toLe 2 dbNames.length ++
      (dbNames.flatMap encodeName ++ (toLe 2 anchors.length ++ (encodeAnchors anchors ++ []))))) (dbNames, anchors) := by
  have few := fits.anchors
  have most : anchorCap = 101 := rfl
  have generations : Read.Reads skipGenerations (le8 oldGen ++ le8 newGen) () := by
    apply Read.reads_bounded (by decide) (by simp)
    intro b pos between
    rfl
  have names : Read.Reads (Read.times parseName dbNames.length []) (dbNames.flatMap encodeName) ([] ++ dbNames) :=
    Read.reads_collect (fun found db listed => reads_parseName found (fits.names db listed)) []
  have entries : Read.Reads (Read.times parseAnchor anchors.length []) (encodeAnchors anchors) ([] ++ anchors) :=
    Read.reads_collect (fun found e _ => reads_parseAnchor found e) []
  apply generations.bind
  apply (reads_takeU16 (Nat.lt_succ_of_le fits.count)).bind
  apply names.bind
  apply (reads_takeU16 (by omega)).bind
  rw [if_neg (by omega)]
  apply entries.bind
  exact Read.Reads.pure _

/-- No bytes panic, and what is returned would fit an intent. -/
theorem accepts_parseLists : Read.Accepts parseLists fun _ lists => FitsIntent lists.1 lists.2 := by
  have generations : Read.Accepts skipGenerations fun read _ => read.length = 16 ∧ True := by
    apply Read.accepts_bounded (by decide)
    intro b pos read between
    trivial
  apply generations.bind
  intro _ _ _
  apply accepts_takeU16.bind
  intro _ nNames count
  apply (Read.accepts_collect accepts_parseName nNames []).bind
  intro _ names ⟨values, length, short, same⟩
  apply accepts_takeU16.bind
  intro _ nAnchors _
  split
  · exact Read.Accepts.fail _
  · next few =>
      apply (Read.accepts_collect accepts_parseAnchor nAnchors []).bind
      intro _ anchors ⟨entries, total, _, all⟩
      apply (Read.Accepts.pure _).imp
      intro _ lists last
      rw [List.nil_append] at same all
      rw [last.2, same, all]
      have bound : entries.length ≤ anchorCap := by omega
      exact ⟨show values.length ≤ 65535 by omega, short, bound⟩

theorem parse_encoded (fits : FitsIntent dbNames anchors) {b : Slice 31}
    (bytes : b.bytes = intentBytes oldGen newGen dbNames anchors) :
    parseRotationIntent b = .ok (dbNames, anchors) := by
  have magic : rotIntentMagic.length = 4 := rfl
  have whole := b.between_all
  rw [bytes, intentBytes] at whole
  obtain ⟨front, lists⟩ := whole.split
  have enough := front.stop_le
  rw [magic] at front lists enough
  have read := reads_parseLists fits b 4 _ lists
  unfold parseRotationIntent
  rw [if_neg (by omega), front.range_eq, Outcome.ok_bind, if_neg (not_not_intro rfl), read]
  rfl

theorem parse_meets (b : Slice 31) : (parseRotationIntent b).Meets fun lists => FitsIntent lists.1 lists.2 := by
  unfold parseRotationIntent
  split
  · trivial
  · apply (length_range (by omega) (by omega)).bind
    intro magic _
    split
    · trivial
    · apply (accepts_parseLists b 4 (by omega)).bind
      intro ⟨lists, stop⟩ ⟨_, _, fits⟩
      exact fits

end Parse

section Refines

variable {oldGen newGen : UInt64} {dbNames : List String} {anchors : List PayloadWire.AnchorEntry}

theorem byteLen_toList (db : String) : byteLen db.toList = (utf8Bytes db).length := by
  have length := length_utf8Bytes_ofList db.toList
  rw [String.ofList_toList] at length
  exact length.symm

/-- On the bytes an intent is accepted or refused as the model has it, and is as long. -/
theorem encode_refines {table : AnchorTable} (same : anchors.map PayloadWire.AnchorEntry.window = table.entries) :
    Freehold.encodeRotationIntent oldGen.toNat newGen.toNat (dbNames.map String.toList) table =
      match encodeRotationIntent oldGen newGen dbNames anchors with
      | .ok _ => .ok ⟨oldGen.toNat, newGen.toNat, dbNames.map String.toList, table⟩
      | .error reason => .error (.generic reason) := by
  have entries : table.entries.length = anchors.length := by rw [← same, List.length_map]
  have first : (dbNames.map String.toList).find? (fun db => 255 < byteLen db) =
      (dbNames.find? fun db => 255 < (utf8Bytes db).length).map String.toList := by
    rw [List.find?_map]
    simp only [Function.comp_def, byteLen_toList]
  unfold Freehold.encodeRotationIntent encodeRotationIntent
  rw [List.length_map, entries, first, encodeNames_find]
  by_cases large : dbNames.length > 65535 ∨ anchors.length > anchorCap
  · rw [if_pos large, if_pos large]
  · rw [if_neg large, if_neg large]
    cases dbNames.find? fun db => 255 < (utf8Bytes db).length with
    | none => rfl
    | some db => simp only [Option.map_some, String.ofList_toList]; rfl

theorem length_refines {table : AnchorTable} {bytes : List UInt8}
    (same : anchors.map PayloadWire.AnchorEntry.window = table.entries)
    (encoded : encodeRotationIntent oldGen newGen dbNames anchors = .ok bytes) :
    bytes.length = Region.intentLen ⟨oldGen.toNat, newGen.toNat, dbNames.map String.toList, table⟩ := by
  have entries : table.entries.length = anchors.length := by rw [← same, List.length_map]
  have fits : FitsIntent dbNames anchors := by
    by_contra large
    obtain ⟨reason, refused⟩ := @encode_error oldGen newGen _ _ large
    rw [refused] at encoded
    cases encoded
  have names : (dbNames.flatMap encodeName).length =
      ((dbNames.map String.toList).map fun name => 1 + byteLen name).sum := by
    rw [List.length_flatMap, List.map_map]
    congr 1
    apply List.map_congr_left
    intro db _
    simp only [Function.comp_apply, encodeName, List.length_cons, byteLen_toList]
    omega
  have table : (encodeAnchors anchors).length = anchors.length * anchorEntrySize := length_entries
  have magic : rotIntentMagic.length = 4 := rfl
  rw [encode_eq fits] at encoded
  rw [← Except.ok.inj encoded]
  simp only [intentBytes, Region.intentLen, List.length_append, List.length_nil, magic, length_le8, length_toLe, table,
    names, entries, anchorEntrySize]
  omega

end Refines

/-- An intent that fits is read back, a larger one is refused, and no bytes make the parser panic. -/
theorem rotation_intent_exact :
    (∀ (oldGen newGen : UInt64) (dbNames : List String) (anchors : List PayloadWire.AnchorEntry),
      dbNames.length ≤ 65535 → (∀ db ∈ dbNames, (utf8Bytes db).length ≤ 255) → anchors.length ≤ anchorCap →
      ∃ b : Slice 31, encodeRotationIntent oldGen newGen dbNames anchors = .ok b.bytes ∧
        parseRotationIntent b = .ok (dbNames, anchors)) ∧
    (∀ (oldGen newGen : UInt64) (dbNames : List String) (anchors : List PayloadWire.AnchorEntry),
      dbNames.length > 65535 ∨ (∃ db ∈ dbNames, (utf8Bytes db).length > 255) ∨ anchors.length > anchorCap →
      ∃ reason, encodeRotationIntent oldGen newGen dbNames anchors = .error reason) ∧
    ∀ b : Slice 31, (parseRotationIntent b).Meets fun lists => FitsIntent lists.1 lists.2 := by
  refine ⟨?_, ?_, parse_meets⟩
  · intro oldGen newGen dbNames anchors count names few
    have fits : FitsIntent dbNames anchors := ⟨count, names, few⟩
    exact ⟨⟨_, length_intentBytes fits⟩, encode_eq fits, parse_encoded fits rfl⟩
  · intro oldGen newGen dbNames anchors large
    apply encode_error
    intro fits
    rcases large with many | ⟨db, listed, long⟩ | full
    · exact absurd fits.count (by omega)
    · exact absurd (fits.names db listed) (by omega)
    · exact absurd fits.anchors (by omega)

/-- One database with its window, and a name that is one byte too long. -/
theorem rotation_intent_exact_one :
    (∃ b : Slice 31, encodeRotationIntent 3 4 ["notes.db"] [⟨Vector.replicate 16 1, 7, 8, 0⟩] = .ok b.bytes ∧
      parseRotationIntent b = .ok (["notes.db"], [⟨Vector.replicate 16 1, 7, 8, 0⟩])) ∧
    ∃ reason, encodeRotationIntent 3 4 [String.ofList (List.replicate 256 'a')] [] = .error reason := by
  obtain ⟨exact, refused, _⟩ := rotation_intent_exact
  refine ⟨exact 3 4 _ _ (by decide) (by decide +kernel) (by decide), refused 3 4 _ [] (Or.inr (Or.inl ?_))⟩
  exact ⟨_, List.mem_singleton_self _, by decide +kernel⟩

end Freehold.IntentWire
