import Freehold.Lib.Frames
import Freehold.HttpRelay

set_option autoImplicit false

/- The stream of a subscription: the server writes an event for each index, the client cuts the events
out of the chunks that come and calls `onSeq` for each. -/
namespace Freehold

namespace RelayStream

open Utf16 (mark)

/-- What `emit` writes: the text is ASCII, a byte for each unit. -/
def emit (seq : Nat) : List UInt8 :=
  ("data: ".toList.map mark ++ Json.print Json.stringify (.object (HttpRelay.member "seq" (some (Nat.toDigits 10 seq)))) ++
    [mark '\n', mark '\n']).map UInt16.toUInt8

/-- `dec.decode` of bytes that are ASCII. -/
def decode (value : List UInt8) : Json.Text := value.map UInt8.toUInt16

/-- `buf` before and after the first empty line. -/
def splitFrame : Json.Text → Option (Json.Text × Json.Text)
  | u :: v :: rest =>
      if u = mark '\n' ∧ v = mark '\n' then some ([], rest)
      else (splitFrame (v :: rest)).map fun cut => (u :: cut.1, cut.2)
  | _ => none

/-- What `trim` removes. -/
def isWhite (u : UInt16) : Bool :=
  (9 ≤ u && u ≤ 13) || u = 0x20 || u = 0xa0 || u = 0x1680 || (0x2000 ≤ u && u ≤ 0x200a) || u = 0x2028 ||
    u = 0x2029 || u = 0x202f || u = 0x205f || u = 0x3000 || u = 0xfeff

def trim (text : Json.Text) : Json.Text := ((text.dropWhile isWhite).reverse.dropWhile isWhite).reverse

/-- The value of a text of decimal digits; of an empty one it is zero. -/
def natural (text : Json.Text) : Option Nat :=
  if text.all Json.isDigit then some (Nat.ofDigitChars 10 (Utf16.decode text) 0) else none

/-- `Number(seq)`, where it is a natural number written in digits; `none` is what else it can be. -/
def number : Option Json.Value → Option Nat
  | some .null => some 0
  | some (.bool b) => some b.toNat
  | some (.number lexeme) => natural lexeme
  | some (.string s) => natural (trim s)
  | _ => none

def label : Json.Text := "data:".toList.map mark

/-- The call of `onSeq` that a frame leads to. A frame without data, or with data that is no JSON text or
`null`, is skipped. -/
def onSeq (frame : Json.Text) : Option (Option Nat) :=
  match (frame.splitOn (mark '\n')).find? fun line => label.isPrefixOf line with
  | none => none
  | some line =>
      match Json.parse (trim (line.drop 5)) with
      | none => none
      | some .null => none
      | some v => some (number (v.get (Utf16.encode "seq".toList)))

section Cut

variable {input frame rest : Json.Text}

theorem splitFrame_shorter (found : splitFrame input = some (frame, rest)) : rest.length < input.length := by
  induction input using splitFrame.induct generalizing frame with
  | case1 u v more ends =>
      rw [splitFrame, if_pos ends] at found
      cases found
      simp only [List.length_cons]
      omega
  | case2 u v more inner ih =>
      rw [splitFrame, if_neg inner] at found
      obtain ⟨cut, here, same⟩ := Option.map_eq_some_iff.mp found
      cases same
      have short := ih here
      simp only [List.length_cons] at short ⊢
      omega
  | case3 input few =>
      rw [splitFrame] at found
      · cases found
      · exact few

theorem splitFrame_append (later : Json.Text) (found : splitFrame input = some (frame, rest)) :
    splitFrame (input ++ later) = some (frame, rest ++ later) := by
  induction input using splitFrame.induct generalizing frame with
  | case1 u v more ends =>
      rw [splitFrame, if_pos ends] at found
      cases found
      exact if_pos ends
  | case2 u v more inner ih =>
      rw [splitFrame, if_neg inner] at found
      obtain ⟨cut, here, same⟩ := Option.map_eq_some_iff.mp found
      cases same
      have longer := ih here
      rw [List.cons_append] at longer
      rw [List.cons_append, List.cons_append, splitFrame, if_neg inner, longer]
      rfl
  | case3 input few =>
      rw [splitFrame] at found
      · cases found
      · exact few

/-- A text without a line break ends at the first empty line. -/
theorem splitFrame_line (flat : mark '\n' ∉ frame) :
    splitFrame (frame ++ [mark '\n', mark '\n']) = some (frame, []) := by
  induction frame with
  | nil => rfl
  | cons u frame ih =>
      obtain ⟨other, flat⟩ := not_or.mp (mt List.mem_cons.mpr flat)
      have rest := ih flat
      cases frame with
      | nil => 
          rw [List.nil_append] at rest
          rw [List.cons_append, List.nil_append, splitFrame, if_neg (fun both => other both.1.symm), rest]
          rfl
      | cons v frame =>
          rw [List.cons_append] at rest
          rw [List.cons_append, List.cons_append, splitFrame, if_neg (fun both => other both.1.symm), rest]
          rfl

def frameCutter : Frames.Cutter UInt16 where
  cut := splitFrame
  shorter _ _ _ := splitFrame_shorter
  stable _ _ _ later := splitFrame_append later

end Cut

/-- The calls of `onSeq` that the chunks of a response lead to, with their numbers. -/
def heard (chunks : List (List UInt8)) : List (Option Nat) :=
  (Frames.read frameCutter (chunks.map decode) []).1.filterMap onSeq

section Emit

def front : List Char := "data: \x7b\"seq\":\"".toList

def back : List Char := "\"\x7d".toList

/-- The line of an event. -/
def line (seq : Nat) : List Char := front ++ (Nat.toDigits 10 seq ++ back)

/-- The characters a line is made of. -/
def isLine (c : Char) : Bool := HttpRelay.isPlain c || c = ':' || c = ' ' || c = '\x7b' || c = '"' || c = '\x7d'

theorem isLine_line (seq : Nat) : ∀ c ∈ line seq, isLine c = true := by
  intro c member
  have inFront : front.all isLine = true := by decide +kernel
  have inBack : back.all isLine = true := by decide +kernel
  rw [line, List.mem_append, List.mem_append] at member
  rcases member with first | digit | last
  · exact List.all_eq_true.mp inFront c first
  · rw [isLine, HttpRelay.plain_digits seq c digit]
    rfl
  · exact List.all_eq_true.mp inBack c last

theorem small_of_isLine {c : Char} (inLine : isLine c = true) : c.toNat < 128 ∧ c ≠ '\n' := by
  simp only [isLine, Bool.or_eq_true, decide_eq_true_eq] at inLine
  rcases inLine with ((((plain | rfl) | rfl) | rfl) | rfl) | rfl
  · refine ⟨HttpRelay.small_of_isPlain plain, ?_⟩
    intro same
    rw [same] at plain
    exact absurd plain (by decide)
  all_goals decide

theorem print_notice (seq : Nat) : "data: ".toList.map mark ++
    Json.print Json.stringify (.object (HttpRelay.member "seq" (some (Nat.toDigits 10 seq)))) =
      (line seq).map mark := by
  have key : Json.stringify (Utf16.encode "seq".toList) = "\"seq\"".toList.map mark :=
    eq_of_beq (by decide +kernel)
  have plain := HttpRelay.plain_digits seq
  have digits : Json.stringify (Utf16.encode (Nat.toDigits 10 seq)) =
      mark '"' :: ((Nat.toDigits 10 seq).map mark ++ [mark '"']) := by
    rw [Utf16.encode_ascii fun c member => HttpRelay.small_of_isPlain (plain c member), Json.stringify_plain]
    intro u member
    obtain ⟨c, listed, rfl⟩ := List.mem_map.mp member
    exact HttpRelay.written_of_isPlain (plain c listed)
  have opened : "data: ".toList.map mark ++ mark '\x7b' :: ("\"seq\"".toList.map mark ++ [mark ':', mark '"']) =
      front.map mark := eq_of_beq (by decide +kernel)
  have closed : back.map mark = [mark '"', mark '\x7d'] := eq_of_beq (by decide +kernel)
  rw [line, List.map_append, List.map_append, ← opened, closed, HttpRelay.member, Option.toList_some, List.map_cons,
    List.map_nil, Json.print, key, Json.print, digits, Json.printMembers]
  simp only [List.append_assoc, List.cons_append, List.nil_append]

theorem emit_eq (seq : Nat) : emit seq = ((line seq).map mark ++ [mark '\n', mark '\n']).map UInt16.toUInt8 :=
  congrArg (fun text => (text ++ [mark '\n', mark '\n']).map UInt16.toUInt8) (print_notice seq)

theorem toUInt16_mark {c : Char} (small : c.toNat < 128) : (mark c).toUInt8.toUInt16 = mark c := by
  apply UInt16.toNat.inj
  simp only [mark, UInt8.toNat_toUInt16, UInt16.toNat_toUInt8, UInt16.toNat_ofNat']
  omega

/-- The client decodes what was written. -/
theorem decode_emit (seq : Nat) : decode (emit seq) = (line seq).map mark ++ [mark '\n', mark '\n'] := by
  have all : ∀ u ∈ (line seq).map mark ++ [mark '\n', mark '\n'], (UInt8.toUInt16 ∘ UInt16.toUInt8) u = u := by
    intro u member
    rcases List.mem_append.mp member with inLine | ends
    · obtain ⟨c, listed, rfl⟩ := List.mem_map.mp inLine
      exact toUInt16_mark (small_of_isLine (isLine_line seq c listed)).1
    · simp only [List.mem_cons, List.not_mem_nil, or_false, or_self] at ends
      rw [ends]
      decide
  rw [emit_eq, decode, List.map_map, List.map_congr_left all, List.map_id']

theorem mark_injective {c d : Char} (small : c.toNat < 128) (small' : d.toNat < 128) (same : mark c = mark d) :
    c = d := by
  have values := congrArg UInt16.toNat same
  simp only [mark, UInt16.toNat_ofNat'] at values
  apply Char.toNat_inj.mp
  omega

theorem flat_line (seq : Nat) : mark '\n' ∉ (line seq).map mark := by
  intro member
  obtain ⟨c, listed, same⟩ := List.mem_map.mp member
  obtain ⟨small, other⟩ := small_of_isLine (isLine_line seq c listed)
  exact other (mark_injective small (by decide) same)

theorem splitFrame_emit (seq : Nat) : splitFrame (decode (emit seq)) = some ((line seq).map mark, []) := by
  rw [decode_emit, splitFrame_line (flat_line seq)]

end Emit

section Hear

theorem trim_solid {text : Json.Text} (first : ∀ u, text.head? = some u → isWhite u = false)
    (last : ∀ u, text.getLast? = some u → isWhite u = false) : trim text = text := by
  have front : text.dropWhile isWhite = text := by
    cases text with
    | nil => rfl
    | cons u text => exact List.dropWhile_cons_of_neg (by rw [first u rfl]; exact Bool.false_ne_true)
  have back : text.reverse.dropWhile isWhite = text.reverse := by
    cases shape : text.reverse with
    | nil => rfl
    | cons u rest =>
        apply List.dropWhile_cons_of_neg
        rw [last u]
        · exact Bool.false_ne_true
        · rw [← List.head?_reverse, shape]
          rfl
  rw [trim, front, back, List.reverse_reverse]

theorem digit_facts : ∀ n < 128, (Char.ofNat n).isDigit = true →
    Json.isDigit (mark (Char.ofNat n)) = true ∧ isWhite (mark (Char.ofNat n)) = false := by
  decide +kernel

theorem digits_facts (seq : Nat) : ∀ u ∈ (Nat.toDigits 10 seq).map mark, Json.isDigit u = true ∧ isWhite u = false := by
  intro u member
  obtain ⟨c, listed, rfl⟩ := List.mem_map.mp member
  have digit := Nat.isDigit_of_mem_toDigits (by decide) (by decide) listed
  have small := HttpRelay.small_of_isPlain (HttpRelay.plain_digits seq c listed)
  rw [← Char.ofNat_toNat c] at digit ⊢
  exact digit_facts c.toNat small digit

/-- A number is read as it was written. -/
theorem number_digits (seq : Nat) :
    number (some (.string (Utf16.encode (Nat.toDigits 10 seq)))) = some seq := by
  have ascii : Utf16.encode (Nat.toDigits 10 seq) = (Nat.toDigits 10 seq).map mark :=
    Utf16.encode_ascii fun c member => HttpRelay.small_of_isPlain (HttpRelay.plain_digits seq c member)
  have facts := digits_facts seq
  have solid : trim ((Nat.toDigits 10 seq).map mark) = (Nat.toDigits 10 seq).map mark := by
    apply trim_solid
    · intro u is
      exact (facts u (List.mem_of_head? is)).2
    · intro u is
      exact (facts u (List.mem_of_getLast? is)).2
  have all : ((Nat.toDigits 10 seq).map mark).all Json.isDigit = true :=
    List.all_eq_true.mpr fun u member => (facts u member).1
  rw [number, ascii, solid, natural, if_pos all, ← ascii, Utf16.decode_encode, Nat.ofDigitChars_ten_toDigits]

/-- The object of an event. -/
def notice (seq : Nat) : Json.Value := .object (HttpRelay.member "seq" (some (Nat.toDigits 10 seq)))

theorem line_split (seq : Nat) :
    (line seq).map mark = label ++ mark ' ' :: Json.print Json.stringify (notice seq) := by
  have opened : "data: ".toList.map mark = label ++ [mark ' '] := eq_of_beq (by decide +kernel)
  have written := print_notice seq
  rw [opened, List.append_assoc] at written
  exact written.symm

theorem length_label : label.length = 5 := by decide +kernel

theorem trim_notice (seq : Nat) : trim (mark ' ' :: Json.print Json.stringify (notice seq)) =
    Json.print Json.stringify (notice seq) := by
  have white : isWhite (mark ' ') = true := by decide
  have shape : ∃ inner, Json.print Json.stringify (notice seq) = mark '\x7b' :: (inner ++ [mark '\x7d']) := by
    refine ⟨Json.stringify (Utf16.encode "seq".toList) ++
      mark ':' :: Json.stringify (Utf16.encode (Nat.toDigits 10 seq)), ?_⟩
    rw [notice, HttpRelay.member, Option.toList_some, List.map_cons, List.map_nil, Json.print, Json.print,
      Json.printMembers, List.append_assoc, List.cons_append]
  have solid : trim (Json.print Json.stringify (notice seq)) = Json.print Json.stringify (notice seq) := by
    obtain ⟨inner, shape⟩ := shape
    rw [shape]
    apply trim_solid
    · intro u is
      cases is
      decide
    · intro u is
      rw [← List.cons_append, List.getLast?_concat] at is
      cases is
      decide
  calc trim (mark ' ' :: Json.print Json.stringify (notice seq))
      = trim (Json.print Json.stringify (notice seq)) := by
        rw [trim, List.dropWhile_cons_of_pos white, ← trim]
    _ = Json.print Json.stringify (notice seq) := solid

/-- The client reads the index that was written. -/
theorem onSeq_line (seq : Nat) : onSeq ((line seq).map mark) = some (some seq) := by
  have wf : (notice seq).Wf := ⟨trivial, trivial⟩
  have parsed : Json.parse (Json.print Json.stringify (notice seq)) = some (notice seq) :=
    Json.parse_print Json.quotes_stringify wf
  have found : ([(line seq).map mark].find? fun line => label.isPrefixOf line) = some ((line seq).map mark) := by
    apply List.find?_cons_of_pos
    rw [line_split, List.isPrefixOf_iff_prefix]
    exact List.prefix_append _ _
  have dropped : ((line seq).map mark).drop 5 = mark ' ' :: Json.print Json.stringify (notice seq) := by
    rw [line_split, ← length_label, List.drop_left]
  have held : (notice seq).get (Utf16.encode "seq".toList) = some (.string (Utf16.encode (Nat.toDigits 10 seq))) :=
    Json.Value.get_single _ _
  rw [onSeq, List.splitOn_eq_singleton (flat_line seq), found]
  dsimp only
  rw [dropped, trim_notice, parsed]
  change some (number ((notice seq).get (Utf16.encode "seq".toList))) = _
  rw [held, number_digits]

theorem heard_pieces (chunks : List (List UInt8)) :
    heard chunks = (Frames.frames frameCutter (decode chunks.flatten)).1.filterMap onSeq := by
  rw [heard, Frames.read_pieces, decode, List.map_flatten]
  rfl

theorem decode_flatMap (sent : List Nat) :
    decode (sent.flatMap emit) = sent.flatMap fun seq => decode (emit seq) := List.map_flatMap

/-- All that was written, in whatever chunks, comes to its indices. -/
theorem heard_all {chunks : List (List UInt8)} {sent : List Nat} (whole : chunks.flatten = sent.flatMap emit) :
    heard chunks = sent.map some := by
  have cuts := @Frames.frames_flatMap UInt16 frameCutter Nat (fun seq => decode (emit seq))
    (fun seq => (line seq).map mark) splitFrame_emit sent
  have lines : (onSeq ∘ fun seq => (line seq).map mark) = some ∘ some := funext onSeq_line
  rw [heard_pieces, whole, decode_flatMap, cuts, List.filterMap_map, lines, List.filterMap_eq_map]

/-- What has come of it so far comes to the first of them. -/
theorem heard_part {chunks : List (List UInt8)} {sent : List Nat} (part : chunks.flatten <+: sent.flatMap emit) :
    heard chunks <+: sent.map some := by
  obtain ⟨rest, whole⟩ := part
  have bytes : decode chunks.flatten <+: decode (sent.flatMap emit) := List.IsPrefix.map _ ⟨rest, whole⟩
  have first := @Frames.frames_prefix UInt16 frameCutter _ _ bytes
  have all := @heard_all [sent.flatMap emit] sent (by rw [List.flatten_singleton])
  rw [← all, heard_pieces, heard_pieces, List.flatten_singleton]
  exact first.filterMap onSeq

end Hear

section Run

open Relay (Event Serving)

variable {sha256 : List UInt8 → Vector UInt8 32} {ed25519Verify : List UInt8 → List UInt8 → List UInt8 → Bool}

/-- A subscription that was answered is open until its connection is closed. -/
theorem serving_open {events : List Event} {n own : Nat} {now : Rat} {method : Relay.Method} {msg : Relay.Msg}
    {indices : List Nat} {key : Relay.Text} {since m : Nat}
    (found : (Relay.trace sha256 ed25519Verify id events)[n]? =
      some (.request now own method msg, some (.stream indices)))
    (bucket : msg.syncId = some key) (asked : msg.since = some since) (later : n < m)
    (open_ : ∀ k, n < k → k < m → events[k]? ≠ some (.closed n)) :
    Serving (Relay.after sha256 ed25519Verify id (events.take m)) n key since := by
  obtain ⟨event, isEvent, same⟩ := Relay.getElem?_trace found
  obtain ⟨request, answered⟩ := Prod.mk.inj same
  have inside := (List.getElem?_eq_some_iff.mp isEvent).1
  have ownStream : own = n := by
    cases event with
    | closed ended => cases request
    | request now' own' method' msg' =>
        simp only [Relay.Event.on, Relay.Event.request.injEq] at request
        exact request.2.1
  subst ownStream
  induction m, later using Nat.le_induction with
  | base =>
      rw [List.take_succ_eq_append_getElem inside, Relay.after_concat, List.length_take,
        Nat.min_eq_left (Nat.le_of_lt inside), (List.getElem?_eq_some_iff.mp isEvent).2, ← request]
      rw [← request] at answered
      exact Relay.serving_subscribed bucket asked answered.symm
  | succ m later ih =>
      have before := ih fun k after_ early => open_ k after_ (by omega)
      by_cases more : m < events.length
      · rw [List.take_succ_eq_append_getElem more, Relay.after_concat]
        apply Relay.serving_step before
        intro closes
        apply open_ m later (Nat.lt_succ_self m)
        rw [List.getElem?_eq_getElem more]
        cases ended : events[m] with
        | closed stream =>
            rw [ended] at closes
            rw [← closes]
            rfl
        | request now' own' method' msg' =>
            rw [ended] at closes
            cases closes
      · rw [List.take_of_length_le (by omega)]
        rwa [List.take_of_length_le (by omega)] at before

end Run

end RelayStream

/-- A subscription hears of the blobs. In every run of the relay, at each point at which the subscription
is open, and however the network has cut what the server wrote to it into chunks: the calls of `onSeq` so
far are the first of the indices from the one asked for below the length of the log, each once and in
order, and all of them where everything has come. -/
theorem subscription_hears (sha256 : List UInt8 → Vector UInt8 32)
    (ed25519Verify : List UInt8 → List UInt8 → List UInt8 → Bool) (events : List Relay.Event)
    (key : Relay.Text) (n own : Nat) (now : Rat) (method : Relay.Method) (msg : Relay.Msg) (indices : List Nat)
    (since m : Nat) (chunks : List (List UInt8))
    (found : (Relay.trace sha256 ed25519Verify id events)[n]? =
      some (.request now own method msg, some (.stream indices)))
    (bucket : msg.syncId = some key) (asked : msg.since = some since) (later : n < m)
    (open_ : ∀ k, n < k → k < m → events[k]? ≠ some (.closed n)) :
    let ran := (Relay.trace sha256 ed25519Verify id events).take m
    let written := (Relay.emitted n ran).flatMap RelayStream.emit
    let told := (Relay.indicesFrom since (ran.filterMap (Relay.put? key)).length).map some
    (chunks.flatten <+: written → RelayStream.heard chunks <+: told) ∧
    (chunks.flatten = written → RelayStream.heard chunks = told) := by
  intro ran written told
  have serving := RelayStream.serving_open found bucket asked later open_
  have inv := @Relay.delivering sha256 ed25519Verify (events.take m)
  have sent := (inv.served n key since serving).2
  rw [inv.ledger key, Relay.trace_take] at sent
  have same : told = (Relay.emitted n ran).map some := congrArg (List.map some) sent.symm
  rw [same]
  exact ⟨RelayStream.heard_part, RelayStream.heard_all⟩

namespace RelayStreamSample

open HttpRelaySample HttpRelay

/-- The subscription of a vault from its index 1 on. -/
def subscribe : Relay.Msg :=
  let (pubkey, sig) := RelayAuth.sign sampleScheme hkdf sha256 signer.dek signer.dbUuid
    (RelayAuth.code .subscribe) []
  { syncId := some (b64enc (signer.syncId sampleScheme hkdf sha256))
    pubkey := some (b64enc pubkey.toList)
    sig := some (b64enc sig.toList)
    blob := none
    since := some 1
    seq := none }

def put (sealed : List UInt8) : Relay.Msg := signer.request sampleScheme hkdf sha256 (.put sealed)

/-- A blob that is there, the subscription, and two blobs after it. -/
def reached : List Relay.Event :=
  [.request 0 0 .pushBlob (put [7]), .request 1 0 .subscribe subscribe, .request 2 0 .pushBlob (put [8]),
    .request 3 0 .pushBlob (put [9])]

def key : Relay.Text := b64enc (signer.syncId sampleScheme hkdf sha256)

/-- What was written, cut within the first event. -/
def chunks : List (List UInt8) :=
  [(RelayStream.emit 1).take 7, (RelayStream.emit 1).drop 7 ++ RelayStream.emit 2]

end RelayStreamSample

open HttpRelaySample RelayStreamSample in
theorem subscription_hears_two : RelayStream.heard chunks = [some 1, some 2] := by
  have answered : (Relay.run sha256 verify id (Relay.numbered reached) (.new Relay.Text)).1[1]? =
      some (some (.stream [])) := by decide +kernel
  have found : (Relay.trace sha256 verify id reached)[1]? =
      some (.request 1 1 .subscribe subscribe, some (.stream [])) :=
    List.getElem?_zip_eq_some.mpr ⟨rfl, answered⟩
  have never : ∀ k, 1 < k → k < 4 → reached[k]? ≠ some (.closed 1) := by
    intro k after_ before same
    have between : k = 2 ∨ k = 3 := by omega
    rcases between with rfl | rfl
    · cases same
    · cases same
  have sent : Relay.emitted 1 ((Relay.trace sha256 verify id reached).take 4) = [1, 2] := by decide +kernel
  have log : (((Relay.trace sha256 verify id reached).take 4).filterMap (Relay.put? key)).length = 3 := by
    decide +kernel
  have told := (subscription_hears sha256 verify reached key 1 1 1 .subscribe subscribe [] 1 4 chunks found rfl rfl
    (by decide) never).2
  rw [sent, log] at told
  apply told
  simp only [chunks, List.flatten_cons, List.flatten_nil, List.append_nil, List.flatMap_cons, List.flatMap_nil,
    ← List.append_assoc, List.take_append_drop]

end Freehold
