import Freehold.Bundle
import Freehold.BundleWire
import Freehold.EnvelopeWire

set_option autoImplicit false

namespace Freehold

open Cursor

namespace HexText

/-- A digit of `{:02x}`. -/
def digit (n : Nat) : Char := if n < 10 then Char.ofNat (48 + n) else Char.ofNat (87 + n)

def hexOf (bytes : List UInt8) : List Char :=
  bytes.flatMap fun byte => [digit (byte.toNat / 16), digit (byte.toNat % 16)]

/-- `name|hex`. -/
def line (name : FileName) (bytes : List UInt8) : List Char := name ++ '|' :: hexOf bytes

/-- The value of a hexadecimal digit of either case. -/
def digitValue (c : Char) : Option Nat :=
  if '0' ≤ c ∧ c ≤ '9' then some (c.toNat - 48)
  else if 'a' ≤ c ∧ c ≤ 'f' then some (c.toNat - 87)
  else if 'A' ≤ c ∧ c ≤ 'F' then some (c.toNat - 55)
  else none

/-- `u8::from_str_radix(_, 16)` of two characters, the first of which may be a plus sign. -/
def fromStrRadix (c d : Char) : Option UInt8 :=
  if c = '+' then (digitValue d).map UInt8.ofNat
  else
    match digitValue c, digitValue d with
    | some x, some y => some (UInt8.ofNat (16 * x + y))
    | _, _ => none

/-- The steps of two bytes of `hex_to_bytes`; a step that ends inside a character panics. -/
def hexPairs : List Char → Outcome String (List UInt8)
  | [] => .ok []
  | c :: rest =>
      if c.utf8Size = 1 then
        match rest with
        | [] => .panic
        | d :: rest =>
            if d.utf8Size = 1 then
              match fromStrRadix c d with
              | some byte => do return byte :: (← hexPairs rest)
              | none => .error "bad blob hex"
            else .panic
      else if c.utf8Size = 2 then .error "bad blob hex"
      else .panic

/-- `hex_to_bytes`. -/
def hexToBytes (text : List Char) : Outcome String (List UInt8) :=
  if byteLen text % 2 ≠ 0 then .error "odd-length blob hex" else hexPairs text

/-- Without a carriage return at the end. -/
def chomp (line : List Char) : List Char := if line.getLast? = some '\r' then line.dropLast else line

/-- `str::lines`. -/
def lines (text : List Char) : List (List Char) :=
  let pieces := text.splitOn '\n'
  let ended := pieces.dropLast.map chomp
  match pieces.getLast? with
  | some last => if last.isEmpty then ended else ended ++ [last]
  | none => ended

/-- `split_once`. -/
def splitOnce (sep : Char) (line : List Char) : Option (List Char × List Char) :=
  match line.dropWhile (· ≠ sep) with
  | [] => none
  | _ :: rest => some (line.takeWhile (· ≠ sep), rest)

/-- A line without a bar is skipped. -/
def decodeLine (line : List Char) : Outcome String (List (FileName × List UInt8)) :=
  match splitOnce '|' line with
  | none => .ok []
  | some (name, hex) => do return [(name, ← hexToBytes hex)]

def decodeLines : List (List Char) → Outcome String (List (FileName × List UInt8))
  | [] => .ok []
  | line :: rest => do
      let here ← decodeLine line
      let later ← decodeLines rest
      return here ++ later

section Digits

theorem digitValue_digit {n : Nat} (small : n < 16) : digitValue (digit n) = some n := by
  have all : ∀ n < 16, digitValue (digit n) = some n := by decide
  exact all n small

theorem digit_plain {n : Nat} (small : n < 16) : (digit n).utf8Size = 1 ∧ digit n ≠ '+' ∧
    digit n ≠ '|' ∧ digit n ≠ '\n' ∧ digit n ≠ '\r' := by
  have all : ∀ n < 16, (digit n).utf8Size = 1 ∧ digit n ≠ '+' ∧ digit n ≠ '|' ∧ digit n ≠ '\n' ∧
      digit n ≠ '\r' := by decide
  exact all n small

theorem hexOf_cons (byte : UInt8) (bytes : List UInt8) : hexOf (byte :: bytes) =
    digit (byte.toNat / 16) :: digit (byte.toNat % 16) :: hexOf bytes := rfl

theorem fromStrRadix_digits (byte : UInt8) :
    fromStrRadix (digit (byte.toNat / 16)) (digit (byte.toNat % 16)) = some byte := by
  have bits := byte.toNat_lt
  have high : byte.toNat / 16 < 16 := by omega
  have low : byte.toNat % 16 < 16 := by omega
  have whole : 16 * (byte.toNat / 16) + byte.toNat % 16 = byte.toNat := by omega
  rw [fromStrRadix, if_neg (digit_plain high).2.1, digitValue_digit high, digitValue_digit low]
  simp only [whole, UInt8.ofNat_toNat]

theorem hexPairs_hexOf (bytes : List UInt8) : hexPairs (hexOf bytes) = .ok bytes := by
  induction bytes with
  | nil => rfl
  | cons byte bytes ih =>
      have bits := byte.toNat_lt
      have high := digit_plain (by omega : byte.toNat / 16 < 16)
      have low := digit_plain (by omega : byte.toNat % 16 < 16)
      rw [hexOf_cons, hexPairs, if_pos high.1]
      simp only [if_pos low.1, fromStrRadix_digits, ih, Outcome.ok_bind]
      rfl

theorem byteLen_hexOf (bytes : List UInt8) : byteLen (hexOf bytes) = 2 * bytes.length := by
  induction bytes with
  | nil => rfl
  | cons byte bytes ih =>
      have bits := byte.toNat_lt
      have high := digit_plain (by omega : byte.toNat / 16 < 16)
      have low := digit_plain (by omega : byte.toNat % 16 < 16)
      simp only [byteLen] at ih
      simp only [byteLen, hexOf_cons, List.map_cons, List.sum_cons, high.1, low.1, ih, List.length_cons]
      omega

theorem hexToBytes_hexOf (bytes : List UInt8) : hexToBytes (hexOf bytes) = .ok bytes := by
  rw [hexToBytes, byteLen_hexOf, if_neg (by omega), hexPairs_hexOf]

theorem mem_hexOf {c : Char} {bytes : List UInt8} (member : c ∈ hexOf bytes) :
    c ≠ '|' ∧ c ≠ '\n' ∧ c ≠ '\r' := by
  obtain ⟨byte, _, digits⟩ := List.mem_flatMap.mp member
  have bits := byte.toNat_lt
  simp only [List.mem_cons, List.not_mem_nil, or_false] at digits
  cases digits with
  | inl high => exact high ▸ (digit_plain (by omega)).2.2
  | inr low => exact low ▸ (digit_plain (by omega)).2.2

/-- What reads as hexadecimal has no bar in it. -/
theorem notMem_of_hexPairs {text : List Char} {bytes : List UInt8} (read : hexPairs text = .ok bytes) :
    '|' ∉ text := by
  induction text using hexPairs.induct generalizing bytes with
  | case1 => exact List.not_mem_nil
  | case2 c one => simp [hexPairs, one] at read
  | case3 c one d rest single byte value ih =>
      simp only [hexPairs, one, single, if_true, value] at read
      obtain ⟨later, decoded, _⟩ := Outcome.bind_eq_ok.mp read
      have bar : c ≠ '|' ∧ d ≠ '|' := by
        constructor
        · rintro rfl
          cases value
        · rintro rfl
          simp [fromStrRadix, digitValue] at value
      simp only [List.mem_cons, not_or]
      exact ⟨bar.1.symm, bar.2.symm, ih decoded⟩
  | case4 c one d rest single value => simp [hexPairs, one, single, value] at read
  | case5 c one d rest single => simp [hexPairs, one, single] at read
  | case6 c rest one two =>
      rw [hexPairs.eq_def] at read
      simp only [if_neg one, if_pos two] at read
      cases read
  | case7 c rest one two =>
      rw [hexPairs.eq_def] at read
      simp only [if_neg one, if_neg two] at read
      cases read

end Digits

section Lines

variable {name text rest : List Char} {bytes : List UInt8}

theorem lines_flatMap (records : List (List Char)) :
    lines (records.flatMap fun record => record ++ ['\n']) =
      records.flatMap fun record => (record.splitOn '\n').map chomp := by
  have pieces : (records.flatMap fun record => record ++ ['\n']).splitOn '\n' =
      (records.flatMap fun record => record.splitOn '\n') ++ [[]] := by
    induction records with
    | nil => rfl
    | cons record records ih =>
        rw [List.flatMap_cons, List.append_assoc, List.singleton_append,
          List.splitOn_append_cons_self, ih, List.flatMap_cons, List.append_assoc]
  unfold lines
  simp only [pieces, List.dropLast_concat, List.getLast?_concat, List.isEmpty_nil, if_true]
  rw [List.map_flatMap]

theorem splitOnce_eq_some {sep : Char} : splitOnce sep text = some (name, rest) ↔
    text = name ++ sep :: rest ∧ sep ∉ name := by
  unfold splitOnce
  constructor
  · intro cut
    split at cut
    · cases cut
    · next c after found =>
        cases cut
        have first : c = sep := by
          have head := List.head?_dropWhile_not (· ≠ sep) text
          rw [found] at head
          simpa using head
        have whole := List.takeWhile_append_dropWhile (p := fun c => decide (c ≠ sep)) (l := text)
        rw [found, first] at whole
        refine ⟨whole.symm, ?_⟩
        intro member
        have other := List.mem_takeWhile_imp member
        simp at other
  · rintro ⟨rfl, absent⟩
    have none : ∀ c ∈ name, decide (c ≠ sep) = true := by
      intro c member
      rw [decide_eq_true_eq]
      rintro rfl
      exact absent member
    rw [List.dropWhile_append_of_pos none, List.takeWhile_append_of_pos none]
    simp

theorem chomp_line (name : FileName) (bytes : List UInt8) : chomp (line name bytes) = line name bytes := by
  have last : (line name bytes).getLast? ≠ some '\r' := by
    intro ends
    rw [line, List.getLast?_append_cons] at ends
    cases bytes with
    | nil => cases ends
    | cons byte bytes =>
        have member := List.mem_of_getLast? ends
        rw [List.mem_cons] at member
        cases member with
        | inl bar => cases bar
        | inr hex => exact (mem_hexOf hex).2.2 rfl
  rw [chomp, if_neg last]

theorem notMem_line (noBreak : '\n' ∉ name) : '\n' ∉ line name bytes := by
  simp only [line, List.mem_append, List.mem_cons, not_or]
  exact ⟨noBreak, by decide, fun member => (mem_hexOf member).2.1 rfl⟩

theorem line_append_break (before after : FileName) (bytes : List UInt8) :
    line (before ++ '\n' :: after) bytes = before ++ '\n' :: line after bytes := by
  rw [line, List.append_assoc, List.cons_append, line]

theorem decodeLine_line (noBar : '|' ∉ name) : decodeLine (line name bytes) = .ok [(name, bytes)] := by
  have cut : splitOnce '|' (line name bytes) = some (name, hexOf bytes) :=
    splitOnce_eq_some.mpr ⟨rfl, noBar⟩
  rw [decodeLine, cut]
  simp only [hexToBytes_hexOf, Outcome.ok_bind]
  rfl

theorem decodeLines_append (before after : List (List Char)) :
    decodeLines (before ++ after) = (do
      let here ← decodeLines before
      let later ← decodeLines after
      return here ++ later) := by
  induction before with
  | nil =>
      rw [List.nil_append, decodeLines, Outcome.ok_bind]
      cases decodeLines after <;> rfl
  | cons first before ih =>
      rw [List.cons_append, decodeLines, decodeLines, ih]
      cases decodeLine first with
      | error reason => rfl
      | panic => rfl
      | ok here =>
          cases decodeLines before with
          | error reason => rfl
          | panic => rfl
          | ok between =>
              cases decodeLines after with
              | error reason => rfl
              | panic => rfl
              | ok later =>
                  show Outcome.ok (here ++ (between ++ later)) = Outcome.ok (here ++ between ++ later)
                  rw [List.append_assoc]

/-- A file whose name has neither a line break nor a bar reads back as itself. -/
theorem decodeLines_line (noBreak : '\n' ∉ name) (noBar : '|' ∉ name) :
    decodeLines (((line name bytes).splitOn '\n').map chomp) = .ok [(name, bytes)] := by
  rw [List.splitOn_eq_singleton (notMem_line noBreak), List.map_singleton, chomp_line, decodeLines,
    decodeLine_line noBar]
  rfl

/-- The name of an entry is a part of a name that stands between line breaks and before a bar. -/
theorem decodeLine_entry {entries : List (FileName × List UInt8)} {margin : List Char}
    (read : decodeLine (name ++ margin) = .ok entries) (noBreak : '\n' ∉ name)
    (bar : margin = [] ∨ margin.head? = some '|') :
    ∀ entry ∈ entries, '|' ∉ entry.1 ∧ '\n' ∉ entry.1 ∧ entry.1.Sublist name := by
  intro entry member
  unfold decodeLine at read
  split at read
  · cases read
    cases member
  · next found hex cut =>
      obtain ⟨decoded, _, same⟩ := Outcome.bind_eq_ok.mp read
      cases same
      rw [List.mem_singleton.mp member]
      obtain ⟨whole, noBar⟩ := splitOnce_eq_some.mp cut
      have begins : found <+: name := by
        apply List.prefix_of_prefix_length_le ⟨_, whole.symm⟩ (List.prefix_append name margin)
        by_contra long
        rcases bar with rfl | bar
        · have lengths := congrArg List.length whole
          simp at lengths
          omega
        · obtain ⟨after, rfl⟩ : ∃ after, margin = '|' :: after := by
            cases margin with
            | nil => cases bar
            | cons c after => cases bar; exact ⟨after, rfl⟩
          have inside : (name ++ '|' :: after)[name.length]? = some '|' := by simp
          rw [whole, List.getElem?_append_left (by omega)] at inside
          exact noBar (List.mem_of_getElem? inside)
      exact ⟨noBar, fun broken => noBreak (begins.subset broken), begins.sublist⟩

theorem chomp_prefix (text : List Char) : chomp text <+: text := by
  unfold chomp
  split
  · exact List.dropLast_prefix text
  · exact List.prefix_refl text

/-- What the lines of one file read back as: names without breaks and bars out of its name, and the
bytes under what follows the last break of the name. -/
theorem decodeLines_entries {entries : List (FileName × List UInt8)}
    (read : decodeLines (((line name bytes).splitOn '\n').map chomp) = .ok entries) :
    (∀ entry ∈ entries, '|' ∉ entry.1 ∧ '\n' ∉ entry.1 ∧ entry.1.Sublist name) ∧
      ∃ before last, name = before ++ last ∧ '\n' ∉ last ∧ (last, bytes) ∈ entries ∧
        (before = [] ∨ before.getLast? = some '\n') := by
  induction size : name.length using Nat.strong_induction_on generalizing name entries with
  | _ n ih =>
  by_cases broken : '\n' ∈ name
  · obtain ⟨first, rest, rfl, noBreak⟩ := List.eq_append_cons_of_mem broken
    rw [line_append_break, List.splitOn_append_cons_self_of_not_mem noBreak, List.map_cons,
      decodeLines] at read
    obtain ⟨here, readHere, more⟩ := Outcome.bind_eq_ok.mp read
    obtain ⟨later, readLater, same⟩ := Outcome.bind_eq_ok.mp more
    cases same
    have shorter : rest.length < n := by
      rw [← size, List.length_append, List.length_cons]
      omega
    obtain ⟨plain, before, last, rfl, lastPlain, held, ends⟩ := ih _ shorter readLater rfl
    have chomped := chomp_prefix first
    have front := @decodeLine_entry _ here [] (by rwa [List.append_nil])
      (fun member => noBreak (chomped.subset member)) (Or.inl rfl)
    refine ⟨?_, first ++ '\n' :: before, last, by simp, lastPlain, List.mem_append_right _ held, ?_⟩
    · intro entry member
      rcases List.mem_append.mp member with inHere | inLater
      · obtain ⟨noBar, plainName, inside⟩ := front entry inHere
        exact ⟨noBar, plainName, (inside.trans chomped.sublist).trans (List.sublist_append_left _ _)⟩
      · obtain ⟨noBar, plainName, inside⟩ := plain entry inLater
        refine ⟨noBar, plainName, inside.trans ?_⟩
        exact (List.sublist_cons_self _ _).trans (List.sublist_append_right _ _)
    · right
      rcases ends with rfl | ends
      · exact List.getLast?_concat
      · rw [List.getLast?_append_cons, List.getLast?_cons, ends]
        rfl
  · rw [List.splitOn_eq_singleton (notMem_line broken), List.map_singleton, chomp_line,
      decodeLines] at read
    obtain ⟨here, readHere, more⟩ := Outcome.bind_eq_ok.mp read
    obtain ⟨later, readLater, same⟩ := Outcome.bind_eq_ok.mp more
    cases readLater
    cases same
    rw [List.append_nil]
    refine ⟨decodeLine_entry readHere broken (Or.inr rfl), [], name, rfl, broken, ?_, Or.inl rfl⟩
    by_cases bar : '|' ∈ name
    · obtain ⟨first, rest, rfl, noBar⟩ := List.eq_append_cons_of_mem bar
      have cut : splitOnce '|' (line (first ++ '|' :: rest) bytes) =
          some (first, rest ++ '|' :: hexOf bytes) := by
        rw [splitOnce_eq_some, line]
        simp [noBar]
      rw [decodeLine, cut] at readHere
      obtain ⟨decoded, hex, _⟩ := Outcome.bind_eq_ok.mp readHere
      rw [hexToBytes] at hex
      split at hex
      · cases hex
      · exact absurd (by simp) (notMem_of_hexPairs hex)
    · rw [decodeLine_line bar] at readHere
      cases readHere
      exact List.mem_singleton_self _

end Lines

end HexText

namespace Pool

variable (pool : Pool) (raw : FileName → List UInt8)

/-- `raw` is what is stored of each mapped file. -/
def Stored (P : Primitives) : Prop :=
  ∀ name (file : SyncAccessFile), pool.files[name]? = some file → file.data.Bytes P (raw name)

/-- The bytes of the files where each nonce drawn is `nonce`. -/
def rawWith (P : Primitives) (nonce : Vector UInt8 24) (name : FileName) : List UInt8 :=
  (pool.files[name]?).elim [] fun file => file.data.bytesWith P nonce

theorem stored_rawWith (P : Primitives) (nonce : Vector UInt8 24) :
    pool.Stored (pool.rawWith P nonce) P := by
  intro name file found
  rw [rawWith, found]
  exact file.data.bytes_bytesWith P nonce

/-- `export_bundle`: the text of the main file and the manifest, as far as they exist. -/
def exportText (dbName : FileName) : List Char :=
  [dbName, manifestName dbName].flatMap fun name =>
    if pool.hasFilename name then HexText.line name (raw name) ++ ['\n'] else []

/-- The loop of `session_export_inner`. -/
def exportFiles : List FileName → Outcome String (List (FileName × List UInt8))
  | [] => .ok []
  | name :: rest => do
      let here ← HexText.decodeLines (HexText.lines (pool.exportText raw name))
      let later ← exportFiles rest
      return here ++ later

end Pool

/-- `app.db`. -/
def appDb : FileName := ['a', 'p', 'p'] ++ dbSuffix

/-- The database an epoch token is minted for: `app.db`, or else the first one. -/
def epochDb (dbNames : List FileName) : Outcome String FileName :=
  if appDb ∈ dbNames then .ok appDb
  else
    match dbNames with
    | first :: _ => .ok first
    | [] => .panic

/-- `strip_export_envelope`, its error as the session shows it. -/
def stripExportEnvelope (P : Primitives) (dek : Dek) (envelope : List UInt8) :
    Outcome String (List UInt8) :=
  match EnvelopeWire.stripKind P envelope (dekBytes dek) kindDevice with
  | .ok env => .ok env
  | .error e =>
      let kind := e.debug
      let reason := (OpfsSAHError.generic s!"strip device slot: {kind}").debug
      .error s!"strip device slot for export: {reason}"

/-- What is stored of a sealed payload, with the nonce drawn for it. -/
def tokenBytes (P : Primitives) (nonce : Vector UInt8 24) : SealedBytes (List UInt8) → List UInt8
  | .sealed key aad plain => P.sealBytes key nonce aad plain
  | .junk n => List.replicate n 0

/-- What a session has at hand for an export: the bytes of the files, the identity of the device, the
nonce it draws, and what the page hands it. -/
structure Exporter where
  raw : FileName → List UInt8
  deviceId : Vector UInt8 16
  nonce : Vector UInt8 24
  credId : List UInt8
  envelope : List UInt8

/-- The rest of `session_export_inner`, from the files on. -/
def Vault.sealExport (P : Primitives) (vault : Vault) (s : Exporter)
    (files : List (FileName × List UInt8)) : Outcome String (List UInt8) := do
  let db ← epochDb vault.pool.dbNames
  let exportEnv ← stripExportEnvelope P vault.pool.dek s.envelope
  let envGen := EnvelopeWire.envelopeGeneration exportEnv
  match vault.pool.exportEpoch s.deviceId db (UInt64.ofNat envGen) with
  | .ok token =>
      .ok (BundleWire.encode exportEnv s.credId
        (files.map fun file => (String.ofList file.1, file.2)) (tokenBytes P s.nonce token))
  | .error e =>
      let shown := String.ofList db
      let reason := e.debug
      .error s!"export_epoch {shown}: {reason}"

def nothingToExport : String := "nothing to export — run some SQL to create a database first"

/-- `session_export_inner`. -/
def Vault.sessionExport (P : Primitives) (vault : Vault) (s : Exporter) :
    Outcome String (List UInt8) :=
  if vault.unlocked then do
    let files ← vault.pool.exportFiles s.raw vault.pool.dbNames
    if files.isEmpty then .error nothingToExport else vault.sealExport P s files
  else .error "no active session — call session_open first"

namespace Pool

open HexText

variable {pool : Pool} {raw : FileName → List UInt8} {name : FileName} {names : List FileName}
  {entries files : List (FileName × List UInt8)}

/-- The lines one file of the pool takes. -/
def fileLines (pool : Pool) (raw : FileName → List UInt8) (name : FileName) : List (List Char) :=
  if pool.hasFilename name then ((line name (raw name)).splitOn '\n').map chomp else []

theorem lines_exportText (name : FileName) : lines (pool.exportText raw name) =
    pool.fileLines raw name ++ pool.fileLines raw (manifestName name) := by
  have text : pool.exportText raw name =
      ([name, manifestName name].flatMap fun file =>
        if pool.hasFilename file then [line file (raw file)] else []).flatMap
          fun record => record ++ ['\n'] := by
    rw [exportText, List.flatMap_assoc]
    congr 1
    funext file
    split <;> simp
  rw [text, lines_flatMap, List.flatMap_assoc]
  simp only [List.flatMap_cons, List.flatMap_nil, List.append_nil, fileLines]
  congr 1 <;> split <;> simp

theorem exportFiles_eq_ok : pool.exportFiles raw names = .ok files ↔
    ∃ entriesOf : FileName → List (FileName × List UInt8), files = names.flatMap entriesOf ∧
      ∀ name ∈ names, decodeLines (lines (pool.exportText raw name)) = .ok (entriesOf name) := by
  have fold (entriesOf : FileName → List (FileName × List UInt8)) (names : List FileName)
      (read : ∀ name ∈ names, decodeLines (lines (pool.exportText raw name)) = .ok (entriesOf name)) :
      pool.exportFiles raw names = .ok (names.flatMap entriesOf) := by
    induction names with
    | nil => rfl
    | cons name names ih =>
        rw [List.forall_mem_cons] at read
        rw [exportFiles, read.1, Outcome.ok_bind, ih read.2, Outcome.ok_bind]
        rfl
  constructor
  · intro exported
    let entriesOf (name : FileName) : List (FileName × List UInt8) :=
      match decodeLines (lines (pool.exportText raw name)) with
      | .ok entries => entries
      | _ => []
    have read : ∀ name ∈ names, decodeLines (lines (pool.exportText raw name)) = .ok (entriesOf name) := by
      induction names generalizing files with
      | nil => simp
      | cons name names ih =>
          rw [exportFiles] at exported
          obtain ⟨here, readHere, more⟩ := Outcome.bind_eq_ok.mp exported
          obtain ⟨later, readLater, _⟩ := Outcome.bind_eq_ok.mp more
          rw [List.forall_mem_cons]
          refine ⟨?_, ih readLater⟩
          simp only [entriesOf, readHere]
    refine ⟨entriesOf, ?_, read⟩
    rw [fold entriesOf names read] at exported
    exact (Outcome.ok.inj exported).symm
  · rintro ⟨entriesOf, rfl, read⟩
    exact fold entriesOf names read

/-- What the text of one database reads back as. -/
theorem exportText_entries (held : pool.hasFilename name = true)
    (read : decodeLines (lines (pool.exportText raw name)) = .ok entries) :
    (∀ entry ∈ entries, '|' ∉ entry.1 ∧ '\n' ∉ entry.1 ∧
      (entry.1.Sublist name ∨ entry.1.Sublist (manifestName name))) ∧
      ∃ before last, name = before ++ last ∧ '\n' ∉ last ∧ (last, raw name) ∈ entries ∧
        (before = [] ∨ before.getLast? = some '\n') := by
  rw [lines_exportText, decodeLines_append] at read
  obtain ⟨main, readMain, more⟩ := Outcome.bind_eq_ok.mp read
  obtain ⟨manifest, readManifest, same⟩ := Outcome.bind_eq_ok.mp more
  cases same
  rw [fileLines, if_pos held] at readMain
  obtain ⟨plain, before, last, whole, lastPlain, member, ends⟩ := decodeLines_entries readMain
  refine ⟨?_, before, last, whole, lastPlain, List.mem_append_left _ member, ends⟩
  intro entry inEntries
  rcases List.mem_append.mp inEntries with inMain | inManifest
  · obtain ⟨noBar, noBreak, inside⟩ := plain entry inMain
    exact ⟨noBar, noBreak, Or.inl inside⟩
  · rw [fileLines] at readManifest
    split at readManifest
    · obtain ⟨noBar, noBreak, inside⟩ := (decodeLines_entries readManifest).1 entry inManifest
      exact ⟨noBar, noBreak, Or.inr inside⟩
    · cases readManifest
      cases inManifest

/-- The two files of a database, as far as they exist. -/
def presentFiles (pool : Pool) (raw : FileName → List UInt8) (name : FileName) :
    List (FileName × List UInt8) :=
  ([name, manifestName name].filter pool.hasFilename).map fun file => (file, raw file)

/-- A database with a plain name reads back as its files. -/
theorem decodeLines_exportText (noBreak : '\n' ∉ name) (noBar : '|' ∉ name) :
    decodeLines (lines (pool.exportText raw name)) = .ok (pool.presentFiles raw name) := by
  have noBreak' : '\n' ∉ manifestName name := by
    simp only [manifestName, List.mem_append, not_or]
    exact ⟨noBreak, by decide⟩
  have noBar' : '|' ∉ manifestName name := by
    simp only [manifestName, List.mem_append, not_or]
    exact ⟨noBar, by decide⟩
  have one (file : FileName) (noBreak : '\n' ∉ file) (noBar : '|' ∉ file) :
      decodeLines (pool.fileLines raw file) =
        .ok (([file].filter pool.hasFilename).map fun file => (file, raw file)) := by
    by_cases held : pool.hasFilename file = true
    · rw [fileLines, if_pos held, decodeLines_line noBreak noBar, List.filter_cons, if_pos held]
      rfl
    · rw [fileLines, if_neg held, List.filter_cons, if_neg held]
      rfl
  have split : pool.presentFiles raw name =
      ([name].filter pool.hasFilename).map (fun file => (file, raw file)) ++
        ([manifestName name].filter pool.hasFilename).map fun file => (file, raw file) := by
    rw [← List.map_append, ← List.filter_append]
    rfl
  rw [lines_exportText, decodeLines_append, one name noBreak noBar, one _ noBreak' noBar', split]
  rfl

/-- Databases with plain names are exported file by file. -/
theorem exportFiles_plain (plain : ∀ name ∈ names, '|' ∉ name ∧ '\n' ∉ name) :
    pool.exportFiles raw names = .ok (names.flatMap (pool.presentFiles raw)) :=
  exportFiles_eq_ok.mpr ⟨_, rfl, fun name listed =>
    decodeLines_exportText (plain name listed).2 (plain name listed).1⟩

end Pool

end Freehold
