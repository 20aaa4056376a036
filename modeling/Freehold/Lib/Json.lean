import Freehold.Lib.Utf16

set_option autoImplicit false

/- JSON texts as strings of 16-bit code units: a parser of the whole grammar, a printer, and that
what is printed is read back, however its strings are escaped. -/
namespace Json

open Utf16

abbrev Text := List UInt16

/-- A number is kept as it is written. -/
inductive Value where
  | null
  | bool (b : Bool)
  | number (lexeme : Text)
  | string (s : Text)
  | array (items : List Value)
  | object (members : List (Text × Value))

def isSpace (u : UInt16) : Bool :=
  u = mark ' ' || u = mark '\t' || u = mark '\n' || u = mark '\r'

def skipSpace (text : Text) : Text := text.dropWhile isSpace

section Numbers

def isDigit (u : UInt16) : Bool := mark '0' ≤ u && u ≤ mark '9'

/-- The units a number is made of. -/
def isNumberUnit (u : UInt16) : Bool :=
  isDigit u || u = mark '-' || u = mark '+' || u = mark '.' || u = mark 'e' || u = mark 'E'

def digits (text : Text) : Bool := !text.isEmpty && text.all isDigit

def exponent : Text → Bool
  | [] => true
  | u :: rest =>
      (u = mark 'e' || u = mark 'E') &&
        match rest with
        | [] => false
        | sign :: more => if sign = mark '+' || sign = mark '-' then digits more else digits rest

def fraction : Text → Bool
  | [] => true
  | u :: rest =>
      if u = mark '.' then !(rest.takeWhile isDigit).isEmpty && exponent (rest.dropWhile isDigit)
      else exponent (u :: rest)

def unsigned : Text → Bool
  | [] => false
  | u :: rest =>
      if u = mark '0' then fraction rest else isDigit u && fraction (rest.dropWhile isDigit)

def isNumber : Text → Bool
  | [] => false
  | u :: rest => if u = mark '-' then unsigned rest else unsigned (u :: rest)

end Numbers

section Strings

def hexValue (u : UInt16) : Option Nat :=
  if isDigit u then some (u.toNat - (mark '0').toNat)
  else if mark 'a' ≤ u ∧ u ≤ mark 'f' then some (u.toNat - (mark 'a').toNat + 10)
  else if mark 'A' ≤ u ∧ u ≤ mark 'F' then some (u.toNat - (mark 'A').toNat + 10)
  else none

/-- The unit a letter after a reverse solidus stands for. -/
def simpleEscape (u : UInt16) : Option UInt16 :=
  if u = mark '"' ∨ u = mark '\\' ∨ u = mark '/' then some u
  else if u = mark 'b' then some 8
  else if u = mark 'f' then some 12
  else if u = mark 'n' then some 10
  else if u = mark 'r' then some 13
  else if u = mark 't' then some 9
  else none

def escape : Text → Option (UInt16 × Text)
  | [] => none
  | u :: rest =>
      if u = mark 'u' then
        match rest with
        | a :: b :: c :: d :: rest => do
            let a ← hexValue a
            let b ← hexValue b
            let c ← hexValue c
            let d ← hexValue d
            return (UInt16.ofNat (a * 4096 + b * 256 + c * 16 + d), rest)
        | _ => none
      else (simpleEscape u).map fun unit => (unit, rest)

/-- The first unit of a string and what follows it. -/
def piece : Text → Option (UInt16 × Text)
  | [] => none
  | u :: rest =>
      if u = mark '\\' then escape rest
      else if u = mark '"' ∨ u < 0x20 then none
      else some (u, rest)

/-- The rest of a string, after its first quotation mark. -/
def literal : Nat → Text → Option (Text × Text)
  | 0, _ => none
  | fuel + 1, text =>
      if text.head? = some (mark '"') then some ([], text.tail)
      else do
        let (unit, rest) ← piece text
        let (s, rest) ← literal fuel rest
        return (unit :: s, rest)

def string : Text → Option (Text × Text)
  | [] => none
  | u :: rest => if u = mark '"' then literal (rest.length + 1) rest else none

end Strings

def word (letters : List Char) (v : Value) (text : Text) : Option (Value × Text) :=
  if letters.map mark <+: text then some (v, text.drop letters.length) else none

mutual

def value : Nat → Text → Option (Value × Text)
  | 0, _ => none
  | _ + 1, [] => none
  | fuel + 1, u :: rest =>
      if u = mark '"' then (string (u :: rest)).map fun (s, rest) => (.string s, rest)
      else if u = mark '[' then
        match skipSpace rest with
        | [] => none
        | v :: more =>
            if v = mark ']' then some (.array [], more)
            else (items fuel (v :: more)).map fun (items, rest) => (.array items, rest)
      else if u = mark '\x7b' then
        match skipSpace rest with
        | [] => none
        | v :: more =>
            if v = mark '\x7d' then some (.object [], more)
            else (members fuel (v :: more)).map fun (members, rest) => (.object members, rest)
      else if u = mark 'n' then word "null".toList .null (u :: rest)
      else if u = mark 't' then word "true".toList (.bool true) (u :: rest)
      else if u = mark 'f' then word "false".toList (.bool false) (u :: rest)
      else
        let lexeme := (u :: rest).takeWhile isNumberUnit
        if isNumber lexeme then some (.number lexeme, (u :: rest).dropWhile isNumberUnit) else none

/-- The items of an array up to its end. -/
def items : Nat → Text → Option (List Value × Text)
  | 0, _ => none
  | fuel + 1, text => do
      let (v, rest) ← value fuel text
      match skipSpace rest with
      | [] => none
      | u :: rest =>
          if u = mark ']' then some ([v], rest)
          else if u = mark ',' then do
            let (more, rest) ← items fuel (skipSpace rest)
            return (v :: more, rest)
          else none

/-- The members of an object up to its end. -/
def members : Nat → Text → Option (List (Text × Value) × Text)
  | 0, _ => none
  | fuel + 1, text => do
      let (key, rest) ← string text
      match skipSpace rest with
      | [] => none
      | u :: rest =>
          if u = mark ':' then do
            let (v, rest) ← value fuel (skipSpace rest)
            match skipSpace rest with
            | [] => none
            | u :: rest =>
                if u = mark '\x7d' then some ([(key, v)], rest)
                else if u = mark ',' then do
                  let (more, rest) ← members fuel (skipSpace rest)
                  return ((key, v) :: more, rest)
                else none
          else none

end

/-- A text that is one value and nothing else. -/
def parse (text : Text) : Option Value := do
  let (v, rest) ← value (text.length + 1) (skipSpace text)
  if skipSpace rest = [] then some v else none

/-- The member of an object under a key; the last one counts. -/
def Value.get (key : Text) : Value → Option Value
  | .object members => (members.reverse.find? fun member => member.1 = key).map Prod.snd
  | _ => none

theorem Value.get_single (key : Text) (v : Value) : (Value.object [(key, v)]).get key = some v := by
  simp [Value.get]

section Print

variable (quote : Text → Text)

mutual

def print : Value → Text
  | .null => "null".toList.map mark
  | .bool true => "true".toList.map mark
  | .bool false => "false".toList.map mark
  | .number lexeme => lexeme
  | .string s => quote s
  | .array [] => [mark '[', mark ']']
  | .array (v :: rest) => mark '[' :: (print v ++ printItems rest)
  | .object [] => [mark '\x7b', mark '\x7d']
  | .object ((key, v) :: rest) => mark '\x7b' :: (quote key ++ mark ':' :: (print v ++ printMembers rest))

/-- The items after the first. -/
def printItems : List Value → Text
  | [] => [mark ']']
  | v :: rest => mark ',' :: (print v ++ printItems rest)

def printMembers : List (Text × Value) → Text
  | [] => [mark '\x7d']
  | (key, v) :: rest => mark ',' :: (quote key ++ mark ':' :: (print v ++ printMembers rest))

end

end Print

section Spelling

variable {written : Text} {unit u : UInt16}

/-- What is read as one unit of a string. -/
def Spells (written : Text) (unit : UInt16) : Prop :=
  written.head? ≠ some (mark '"') ∧ ∀ rest, piece (written ++ rest) = some (unit, rest)

theorem spells_self (plain : u ≠ mark '\\') (inner : u ≠ mark '"') (printed : 0x20 ≤ u) : Spells [u] u := by
  constructor
  · simpa using inner
  · intro rest
    rw [List.singleton_append, piece, if_neg plain, if_neg]
    rintro (same | control)
    · exact inner same
    · exact absurd control (UInt16.not_lt.mpr printed)

theorem solidus_inner : some (mark '\\') ≠ some (mark '"') := by decide

theorem spells_simple (letter : u ≠ mark 'u') (stands : simpleEscape u = some unit) :
    Spells [mark '\\', u] unit := by
  constructor
  · exact solidus_inner
  · intro rest
    show piece (mark '\\' :: u :: rest) = some (unit, rest)
    rw [piece, if_pos rfl]
    unfold escape
    dsimp only
    rw [if_neg letter, stands, Option.map_some]

def hexDigit (n : Nat) : UInt16 :=
  if n < 10 then mark '0' + UInt16.ofNat n else mark 'a' + UInt16.ofNat (n - 10)

theorem hexValue_hexDigit {n : Nat} (small : n < 16) : hexValue (hexDigit n) = some n := by
  revert n
  decide

/-- The four digits of a unit. -/
def hexDigits (unit : UInt16) : Text :=
  [hexDigit (unit.toNat / 4096), hexDigit (unit.toNat / 256 % 16), hexDigit (unit.toNat / 16 % 16),
    hexDigit (unit.toNat % 16)]

theorem spells_hex (unit : UInt16) : Spells (mark '\\' :: mark 'u' :: hexDigits unit) unit := by
  have bound := unit.toNat_lt
  constructor
  · exact solidus_inner
  · intro rest
    have whole : unit.toNat / 4096 * 4096 + unit.toNat / 256 % 16 * 256 + unit.toNat / 16 % 16 * 16 +
        unit.toNat % 16 = unit.toNat := by omega
    show piece (mark '\\' :: mark 'u' :: hexDigit _ :: hexDigit _ :: hexDigit _ :: hexDigit _ :: rest) = _
    rw [piece, if_pos rfl, escape, if_pos rfl]
    simp only [hexValue_hexDigit (show unit.toNat / 4096 < 16 by omega),
      hexValue_hexDigit (show unit.toNat / 256 % 16 < 16 by omega),
      hexValue_hexDigit (show unit.toNat / 16 % 16 < 16 by omega),
      hexValue_hexDigit (show unit.toNat % 16 < 16 by omega), Option.bind_eq_bind, Option.bind_some, whole,
      UInt16.ofNat_toNat]
    rfl

/-- A string, each of its units written in some way. -/
def quoted (pieces : List (Text × UInt16)) : Text :=
  mark '"' :: (pieces.flatMap Prod.fst ++ [mark '"'])

theorem literal_spelled {pieces : List (Text × UInt16)} (spelled : ∀ p ∈ pieces, Spells p.1 p.2)
    (rest : Text) {fuel : Nat} (enough : pieces.length < fuel) :
    literal fuel (pieces.flatMap Prod.fst ++ mark '"' :: rest) = some (pieces.map Prod.snd, rest) := by
  induction pieces generalizing fuel with
  | nil =>
      obtain ⟨fuel, rfl⟩ := Nat.exists_eq_succ_of_ne_zero (Nat.ne_of_gt enough)
      rfl
  | cons p pieces ih =>
      obtain ⟨fuel, rfl⟩ := Nat.exists_eq_succ_of_ne_zero (Nat.ne_of_gt (Nat.zero_lt_of_lt enough))
      obtain ⟨inner, reads⟩ := spelled p List.mem_cons_self
      have shown : ∃ u more, p.1 = u :: more := by
        cases whole : p.1 with
        | nil =>
            have none_read := reads []
            rw [whole] at none_read
            cases none_read
        | cons u more => exact ⟨u, more, rfl⟩
      obtain ⟨u, more, shape⟩ := shown
      rw [List.flatMap_cons, List.append_assoc, literal, if_neg, reads]
      · simp only [Option.bind_eq_bind, Option.bind_some]
        rw [ih (fun q member => spelled q (List.mem_cons_of_mem _ member))
          (by rw [List.length_cons] at enough; omega)]
        rfl
      · rw [shape] at inner ⊢
        exact inner

theorem length_pieces {pieces : List (Text × UInt16)} (spelled : ∀ p ∈ pieces, Spells p.1 p.2) :
    pieces.length ≤ (pieces.flatMap Prod.fst).length := by
  induction pieces with
  | nil => exact Nat.le_refl 0
  | cons p pieces ih =>
      have rest := ih fun q member => spelled q (List.mem_cons_of_mem _ member)
      have shown : 0 < p.1.length := by
        cases whole : p.1 with
        | nil =>
            have none_read := (spelled p List.mem_cons_self).2 []
            rw [whole] at none_read
            cases none_read
        | cons u more => exact Nat.succ_pos _
      rw [List.flatMap_cons, List.length_append, List.length_cons]
      omega

theorem string_quoted {pieces : List (Text × UInt16)} (spelled : ∀ p ∈ pieces, Spells p.1 p.2)
    (rest : Text) : string (quoted pieces ++ rest) = some (pieces.map Prod.snd, rest) := by
  have few := length_pieces spelled
  rw [quoted, List.cons_append, List.append_assoc, List.singleton_append, string, if_pos rfl]
  apply literal_spelled spelled
  rw [List.length_append]
  omega

end Spelling

section Numbers

theorem isNumberUnit_of_isDigit {u : UInt16} (digit : isDigit u = true) : isNumberUnit u = true := by
  simp only [isNumberUnit, digit, Bool.true_or]

theorem all_of_digits {text : Text} (whole : digits text = true) : text.all isNumberUnit = true := by
  rw [digits, Bool.and_eq_true] at whole
  rw [List.all_eq_true] at whole ⊢
  exact fun u member => isNumberUnit_of_isDigit (whole.2 u member)

theorem all_of_exponent {text : Text} (whole : exponent text = true) : text.all isNumberUnit = true := by
  cases text with
  | nil => rfl
  | cons u rest =>
      cases rest with
      | nil => simp [exponent] at whole
      | cons sign more =>
          simp only [exponent, Bool.and_eq_true, Bool.or_eq_true, decide_eq_true_eq] at whole
          obtain ⟨letter, rest⟩ := whole
          have front : isNumberUnit u = true := by
            rcases letter with rfl | rfl
            · decide
            · decide
          split at rest
          · next signed =>
            have sign_unit : isNumberUnit sign = true := by
              rcases signed with rfl | rfl
              · decide
              · decide
            simp [front, sign_unit, all_of_digits rest]
          · rw [List.all_cons, front, all_of_digits rest]
            rfl

theorem all_of_split {text : Text} (digitsFirst : (text.dropWhile isDigit).all isNumberUnit = true) :
    text.all isNumberUnit = true := by
  rw [← List.takeWhile_append_dropWhile (p := isDigit) (l := text), List.all_append, digitsFirst,
    Bool.and_true, List.all_eq_true]
  exact fun u member => isNumberUnit_of_isDigit (List.all_eq_true.mp List.all_takeWhile u member)

theorem all_of_fraction {text : Text} (whole : fraction text = true) : text.all isNumberUnit = true := by
  cases text with
  | nil => rfl
  | cons u rest =>
      rw [fraction] at whole
      split at whole
      · next point =>
        rw [Bool.and_eq_true] at whole
        rw [List.all_cons, all_of_split (all_of_exponent whole.2), point]
        rfl
      · exact all_of_exponent whole

theorem all_of_unsigned {text : Text} (whole : unsigned text = true) : text.all isNumberUnit = true := by
  cases text with
  | nil => rfl
  | cons u rest =>
      rw [unsigned] at whole
      split at whole
      · next zero =>
        rw [List.all_cons, all_of_fraction whole, zero]
        rfl
      · rw [Bool.and_eq_true] at whole
        rw [List.all_cons, isNumberUnit_of_isDigit whole.1, all_of_split (all_of_fraction whole.2)]
        rfl

theorem all_of_isNumber {text : Text} (whole : isNumber text = true) : text.all isNumberUnit = true := by
  cases text with
  | nil => rfl
  | cons u rest =>
      rw [isNumber] at whole
      split at whole
      · next minus =>
        rw [List.all_cons, all_of_unsigned whole, minus]
        rfl
      · exact all_of_unsigned whole

end Numbers

section Print

variable {quote : Text → Text} {rest : Text}

/-- What the strings are printed as is read back. -/
def Quotes (quote : Text → Text) : Prop := ∀ s rest, string (quote s ++ rest) = some (s, rest)

mutual

/-- The numbers are numbers. -/
def Value.Wf : Value → Prop
  | .null => True
  | .bool _ => True
  | .number lexeme => isNumber lexeme = true
  | .string _ => True
  | .array items => ItemsWf items
  | .object members => MembersWf members

def ItemsWf : List Value → Prop
  | [] => True
  | v :: rest => v.Wf ∧ ItemsWf rest

def MembersWf : List (Text × Value) → Prop
  | [] => True
  | (_, v) :: rest => v.Wf ∧ MembersWf rest

end

/-- What may follow a value. -/
def Follows (rest : Text) : Prop := ∀ u, rest.head? = some u → isNumberUnit u = false

theorem Quotes.head (reads : Quotes quote) (s : Text) : ∃ more, quote s = mark '"' :: more := by
  have read := reads s []
  rw [List.append_nil] at read
  cases text : quote s with
  | nil =>
      rw [text] at read
      cases read
  | cons u more =>
      rw [text, string] at read
      split at read
      · next opens => exact ⟨more, by rw [opens]⟩
      · cases read

theorem skipSpace_of_head {u : UInt16} (solid : isSpace u = false) (more : Text) :
    skipSpace (u :: more) = u :: more := by
  rw [skipSpace, List.dropWhile_cons, solid, if_neg Bool.false_ne_true]

/-- A printed value begins with a unit that is no white space and ends no array or object. -/
theorem print_head (reads : Quotes quote) {v : Value} (wf : v.Wf) :
    ∃ u more, print quote v = u :: more ∧ isSpace u = false ∧ u ≠ mark ']' ∧ u ≠ mark '\x7d' := by
  cases v with
  | null => exact ⟨mark 'n', _, rfl, by decide⟩
  | bool b =>
      cases b with
      | true => exact ⟨mark 't', _, rfl, by decide⟩
      | false => exact ⟨mark 'f', _, rfl, by decide⟩
  | number lexeme =>
      cases lexeme with
      | nil => cases wf
      | cons u more =>
          have front := all_of_isNumber wf
          rw [List.all_cons, Bool.and_eq_true] at front
          refine ⟨u, more, by rw [print], ?_, ?_, ?_⟩
          · by_contra space
            rw [Bool.not_eq_false, isSpace] at space
            simp only [Bool.or_eq_true, decide_eq_true_eq] at space
            rcases space with ((rfl | rfl) | rfl) | rfl
            · exact absurd front.1 (by decide)
            · exact absurd front.1 (by decide)
            · exact absurd front.1 (by decide)
            · exact absurd front.1 (by decide)
          · rintro rfl
            exact absurd front.1 (by decide)
          · rintro rfl
            exact absurd front.1 (by decide)
  | string s =>
      obtain ⟨more, text⟩ := reads.head s
      exact ⟨mark '"', more, by rw [print, text], by decide⟩
  | array items =>
      cases items with
      | nil => exact ⟨mark '[', _, by rw [print], by decide⟩
      | cons v items => exact ⟨mark '[', _, by rw [print], by decide⟩
  | object members =>
      cases members with
      | nil => exact ⟨mark '\x7b', _, by rw [print], by decide⟩
      | cons member members =>
          obtain ⟨key, v⟩ := member
          exact ⟨mark '\x7b', _, by rw [print], by decide⟩

theorem word_print {letters : List Char} {v : Value} (rest : Text) :
    word letters v (letters.map mark ++ rest) = some (v, rest) := by
  rw [word, if_pos (List.prefix_append ..), List.drop_left' (List.length_map ..)]

theorem value_null (fuel : Nat) (rest : Text) :
    value (fuel + 1) ("null".toList.map mark ++ rest) = some (.null, rest) := by
  have read := @word_print "null".toList .null rest
  have shape : "null".toList.map mark ++ rest = mark 'n' :: ("ull".toList.map mark ++ rest) := rfl
  rw [shape] at read ⊢
  rw [value, if_neg (by decide), if_neg (by decide), if_neg (by decide), if_pos rfl, read]

theorem value_true (fuel : Nat) (rest : Text) :
    value (fuel + 1) ("true".toList.map mark ++ rest) = some (.bool true, rest) := by
  have read := @word_print "true".toList (.bool true) rest
  have shape : "true".toList.map mark ++ rest = mark 't' :: ("rue".toList.map mark ++ rest) := rfl
  rw [shape] at read ⊢
  rw [value, if_neg (by decide), if_neg (by decide), if_neg (by decide), if_neg (by decide), if_pos rfl, read]

theorem value_false (fuel : Nat) (rest : Text) :
    value (fuel + 1) ("false".toList.map mark ++ rest) = some (.bool false, rest) := by
  have read := @word_print "false".toList (.bool false) rest
  have shape : "false".toList.map mark ++ rest = mark 'f' :: ("alse".toList.map mark ++ rest) := rfl
  rw [shape] at read ⊢
  rw [value, if_neg (by decide), if_neg (by decide), if_neg (by decide), if_neg (by decide),
    if_neg (by decide), if_pos rfl, read]

theorem value_string (reads : Quotes quote) (fuel : Nat) (s : Text) :
    value (fuel + 1) (quote s ++ rest) = some (.string s, rest) := by
  have read := reads s rest
  obtain ⟨more, text⟩ := reads.head s
  rw [text, List.cons_append] at read ⊢
  rw [value, if_pos rfl, read, Option.map_some]

theorem value_number {lexeme : Text} (wf : isNumber lexeme = true) (follows : Follows rest) (fuel : Nat) :
    value (fuel + 1) (lexeme ++ rest) = some (.number lexeme, rest) := by
  have units := all_of_isNumber wf
  cases lexeme with
  | nil => cases wf
  | cons u more =>
      have front := List.all_eq_true.mp units u List.mem_cons_self
      have apart {c : UInt16} (other : isNumberUnit c = false) : u ≠ c := by
        rintro rfl
        rw [other] at front
        cases front
      have stop : rest.takeWhile isNumberUnit = [] ∧ rest.dropWhile isNumberUnit = rest := by
        cases rest with
        | nil => exact ⟨rfl, rfl⟩
        | cons v rest =>
            have stops := follows v rfl
            simp [stops]
      have taken : ((u :: more) ++ rest).takeWhile isNumberUnit = u :: more := by
        rw [List.takeWhile_append_of_pos (List.all_eq_true.mp units), stop.1, List.append_nil]
      have left : ((u :: more) ++ rest).dropWhile isNumberUnit = rest := by
        rw [List.dropWhile_append_of_pos (List.all_eq_true.mp units), stop.2]
      rw [List.cons_append] at taken left ⊢
      rw [value, if_neg (apart (by decide)), if_neg (apart (by decide)), if_neg (apart (by decide)),
        if_neg (apart (by decide)), if_neg (apart (by decide)), if_neg (apart (by decide))]
      dsimp only
      rw [taken, left, if_pos wf]

theorem follows_comma (text : Text) : Follows (mark ',' :: text) := by
  intro u is
  rw [List.head?_cons, Option.some.injEq] at is
  subst is
  decide

theorem follows_bracket (text : Text) : Follows (mark ']' :: text) := by
  intro u is
  rw [List.head?_cons, Option.some.injEq] at is
  subst is
  decide

theorem follows_brace (text : Text) : Follows (mark '\x7d' :: text) := by
  intro u is
  rw [List.head?_cons, Option.some.injEq] at is
  subst is
  decide

theorem printItems_follows (items : List Value) (rest : Text) :
    Follows (printItems quote items ++ rest) := by
  cases items with
  | nil =>
      rw [printItems]
      exact follows_bracket _
  | cons v items =>
      rw [printItems]
      exact follows_comma _

theorem printMembers_follows (members : List (Text × Value)) (rest : Text) :
    Follows (printMembers quote members ++ rest) := by
  cases members with
  | nil =>
      rw [printMembers]
      exact follows_brace _
  | cons member members =>
      obtain ⟨key, v⟩ := member
      rw [printMembers]
      exact follows_comma _

mutual

/-- A printed value is read back, with fuel for its length. -/
theorem value_print (reads : Quotes quote) : (v : Value) → (wf : v.Wf) → (rest : Text) →
    (follows : Follows rest) → (fuel : Nat) → (enough : (print quote v).length ≤ fuel) →
    value fuel (print quote v ++ rest) = some (v, rest)
  | .null, _, rest, _, fuel, enough => by
      rw [print] at enough ⊢
      cases fuel with
      | zero => cases enough
      | succ fuel => exact value_null fuel rest
  | .bool true, _, rest, _, fuel, enough => by
      rw [print] at enough ⊢
      cases fuel with
      | zero => cases enough
      | succ fuel => exact value_true fuel rest
  | .bool false, _, rest, _, fuel, enough => by
      rw [print] at enough ⊢
      cases fuel with
      | zero => cases enough
      | succ fuel => exact value_false fuel rest
  | .number lexeme, wf, rest, follows, fuel, enough => by
      rw [print] at enough ⊢
      cases fuel with
      | zero =>
          rw [Nat.le_zero, List.length_eq_zero_iff] at enough
          rw [Value.Wf, enough] at wf
          cases wf
      | succ fuel => exact value_number wf follows fuel
  | .string s, _, rest, _, fuel, enough => by
      rw [print] at enough ⊢
      cases fuel with
      | zero =>
          obtain ⟨more, text⟩ := reads.head s
          rw [text] at enough
          cases enough
      | succ fuel => exact value_string reads fuel s
  | .array [], _, rest, _, fuel, enough => by
      rw [print] at enough ⊢
      cases fuel with
      | zero => cases enough
      | succ fuel =>
          show value (fuel + 1) (mark '[' :: mark ']' :: rest) = _
          rw [value, if_neg (by decide), if_pos rfl, skipSpace_of_head (by decide)]
          exact if_pos rfl
  | .array (v :: more), wf, rest, _, fuel, enough => by
      rw [print] at enough ⊢
      rw [List.length_cons, List.length_append] at enough
      obtain ⟨fuel, rfl⟩ := Nat.exists_eq_succ_of_ne_zero (n := fuel) (by omega)
      have inner := items_print reads v more wf.1 wf.2 rest fuel (by omega)
      obtain ⟨u, text, head, solid, open_, _⟩ := print_head reads wf.1
      rw [List.cons_append, value, if_neg (by decide), if_pos rfl]
      rw [List.append_assoc, head, List.cons_append] at inner ⊢
      rw [skipSpace_of_head solid]
      dsimp only
      rw [if_neg open_, inner, Option.map_some]
  | .object [], _, rest, _, fuel, enough => by
      rw [print] at enough ⊢
      cases fuel with
      | zero => cases enough
      | succ fuel =>
          show value (fuel + 1) (mark '\x7b' :: mark '\x7d' :: rest) = _
          rw [value, if_neg (by decide), if_neg (by decide), if_pos rfl, skipSpace_of_head (by decide)]
          exact if_pos rfl
  | .object ((key, v) :: more), wf, rest, _, fuel, enough => by
      rw [print] at enough ⊢
      rw [List.length_cons, List.length_append, List.length_cons, List.length_append] at enough
      obtain ⟨fuel, rfl⟩ := Nat.exists_eq_succ_of_ne_zero (n := fuel) (by omega)
      have inner := members_print reads key v more wf.1 wf.2 rest fuel (by omega)
      obtain ⟨text, head⟩ := reads.head key
      rw [List.cons_append, value, if_neg (by decide), if_neg (by decide), if_pos rfl]
      rw [List.append_assoc, head, List.cons_append] at inner ⊢
      rw [skipSpace_of_head (by decide)]
      dsimp only
      rw [if_neg (by decide), inner, Option.map_some]
termination_by _ _ _ _ fuel => fuel

theorem items_print (reads : Quotes quote) : (v : Value) → (more : List Value) → (wf : v.Wf) →
    (rest_wf : ItemsWf more) → (rest : Text) → (fuel : Nat) →
    (enough : (print quote v).length + (printItems quote more).length ≤ fuel) →
    items fuel (print quote v ++ printItems quote more ++ rest) = some (v :: more, rest)
  | v, more, wf, rest_wf, rest, 0, enough => by
      obtain ⟨u, text, head, _⟩ := print_head reads wf
      rw [head] at enough
      simp at enough
  | v, [], wf, _, rest, fuel + 1, enough => by
      rw [printItems] at enough ⊢
      rw [List.append_assoc, List.singleton_append, items,
        value_print reads v wf _ (follows_bracket rest) fuel (by
          simp only [List.length_singleton] at enough
          omega)]
      simp only [Option.bind_eq_bind, Option.bind_some]
      rw [skipSpace_of_head (by decide)]
      exact if_pos rfl
  | v, w :: more, wf, rest_wf, rest, fuel + 1, enough => by
      rw [printItems] at enough ⊢
      rw [List.length_cons, List.length_append] at enough
      have shown : 0 < (print quote v).length := by
        obtain ⟨u, text, head, _⟩ := print_head reads wf
        rw [head]
        exact Nat.succ_pos _
      have inner := items_print reads w more rest_wf.1 rest_wf.2 rest fuel (by omega)
      obtain ⟨u, text, head, solid, _⟩ := print_head reads rest_wf.1
      rw [List.append_assoc, List.cons_append, items,
        value_print reads v wf _ (follows_comma _) fuel (by omega)]
      simp only [Option.bind_eq_bind, Option.bind_some]
      rw [skipSpace_of_head (by decide)]
      dsimp only
      rw [if_neg (by decide), if_pos rfl]
      rw [List.append_assoc, head, List.cons_append] at inner ⊢
      rw [skipSpace_of_head solid, inner]
      rfl
termination_by _ _ _ _ _ fuel => fuel

theorem members_print (reads : Quotes quote) : (key : Text) → (v : Value) →
    (more : List (Text × Value)) → (wf : v.Wf) → (rest_wf : MembersWf more) → (rest : Text) →
    (fuel : Nat) → (enough : (print quote v).length + (printMembers quote more).length ≤ fuel) →
    members fuel (quote key ++ mark ':' :: (print quote v ++ printMembers quote more) ++ rest) =
      some ((key, v) :: more, rest)
  | key, v, more, wf, rest_wf, rest, 0, enough => by
      obtain ⟨u, text, head, _⟩ := print_head reads wf
      rw [head] at enough
      simp at enough
  | key, v, [], wf, _, rest, fuel + 1, enough => by
      rw [printMembers] at enough ⊢
      obtain ⟨u, text, head, solid, _⟩ := print_head reads wf
      rw [List.append_assoc, members, reads key]
      simp only [Option.bind_eq_bind, Option.bind_some, List.cons_append]
      rw [skipSpace_of_head (by decide)]
      dsimp only
      have inner := value_print reads v wf _ (follows_brace rest) fuel (by
        simp only [List.length_singleton] at enough
        omega)
      rw [if_pos rfl, List.append_assoc]
      rw [List.singleton_append]
      rw [head, List.cons_append] at inner ⊢
      rw [skipSpace_of_head solid, inner]
      simp only [Option.bind_some]
      rw [skipSpace_of_head (by decide)]
      exact if_pos rfl
  | key, v, (key', w) :: more, wf, rest_wf, rest, fuel + 1, enough => by
      rw [printMembers] at enough ⊢
      rw [List.length_cons, List.length_append, List.length_cons, List.length_append] at enough
      obtain ⟨u, text, head, solid, _⟩ := print_head reads wf
      have inner := members_print reads key' w more rest_wf.1 rest_wf.2 rest fuel (by
        rw [head, List.length_cons] at enough
        omega)
      have here := value_print reads v wf _ (follows_comma
        (quote key' ++ mark ':' :: (print quote w ++ printMembers quote more) ++ rest)) fuel (by omega)
      obtain ⟨text', head'⟩ := reads.head key'
      rw [List.append_assoc, members, reads key]
      simp only [Option.bind_eq_bind, Option.bind_some, List.cons_append]
      rw [skipSpace_of_head (by decide)]
      dsimp only
      rw [if_pos rfl, List.append_assoc, List.cons_append]
      rw [head, List.cons_append] at here ⊢
      rw [skipSpace_of_head solid, here]
      simp only [Option.bind_some]
      rw [skipSpace_of_head (by decide)]
      dsimp only
      rw [if_neg (by decide), if_pos rfl]
      rw [head', List.cons_append, List.cons_append] at inner ⊢
      rw [skipSpace_of_head (by decide), inner]
      rfl
termination_by _ _ _ _ _ _ fuel => fuel

end

/-- What is printed is read back. -/
theorem parse_print (reads : Quotes quote) {v : Value} (wf : v.Wf) : parse (print quote v) = some v := by
  obtain ⟨u, more, head, solid, _⟩ := print_head reads wf
  have read := value_print reads v wf [] (by
    intro u none
    cases none) ((print quote v).length + 1) (by omega)
  rw [List.append_nil] at read
  have front : skipSpace (print quote v) = print quote v := by
    rw [head]
    exact skipSpace_of_head solid more
  rw [parse, front, read]
  rfl

theorem print_injective (reads : Quotes quote) {v w : Value} (wf : v.Wf) (wf' : w.Wf)
    (same : print quote v = print quote w) : v = w := by
  have read := parse_print reads wf
  rw [same, parse_print reads wf', Option.some.injEq] at read
  exact read.symm

/-- A text whose strings leave no surrogate alone is printed without one. -/
theorem wellFormed_number {lexeme : Text} (wf : isNumber lexeme = true) : WellFormed lexeme := by
  have units := List.all_eq_true.mp (all_of_isNumber wf)
  clear wf
  induction lexeme with
  | nil => exact .nil
  | cons u lexeme ih =>
      have front := units u List.mem_cons_self
      have low : u.toNat < 128 := by
        simp only [isNumberUnit, isDigit, Bool.or_eq_true, Bool.and_eq_true, decide_eq_true_eq] at front
        rcases front with ((((⟨_, small⟩ | rfl) | rfl) | rfl) | rfl) | rfl
        · have last : u.toNat ≤ 57 := UInt16.le_iff_toNat_le.mp small
          omega
        · decide
        · decide
        · decide
        · decide
        · decide
      have rest := ih fun v member => units v (List.mem_cons_of_mem _ member)
      have here : WellFormed [u] := by
        apply wellFormed_unit
        · rw [isHigh, Bool.and_eq_false_iff, decide_eq_false_iff_not]
          omega
        · rw [isLow, Bool.and_eq_false_iff, decide_eq_false_iff_not]
          omega
      exact here.append rest

theorem wellFormed_cons {c : Char} (small : c.toNat < 0x10000) {text : Text} (whole : WellFormed text) :
    WellFormed (mark c :: text) :=
  (wellFormed_mark small).append whole

mutual

theorem print_wellFormed (clean : ∀ s, WellFormed (quote s)) : (v : Value) → v.Wf →
    WellFormed (print quote v)
  | .null, _ => ⟨"null".toList, rfl⟩
  | .bool true, _ => ⟨"true".toList, rfl⟩
  | .bool false, _ => ⟨"false".toList, rfl⟩
  | .number _, wf => wellFormed_number wf
  | .string s, _ => clean s
  | .array [], _ => ⟨"[]".toList, rfl⟩
  | .array (v :: rest), wf => by
      rw [print]
      exact wellFormed_cons (by decide) ((print_wellFormed clean v wf.1).append
        (printItems_wellFormed clean rest wf.2))
  | .object [], _ => ⟨['\x7b', '\x7d'], rfl⟩
  | .object ((key, v) :: rest), wf => by
      rw [print]
      exact wellFormed_cons (by decide) ((clean key).append (wellFormed_cons (by decide)
        ((print_wellFormed clean v wf.1).append (printMembers_wellFormed clean rest wf.2))))

theorem printItems_wellFormed (clean : ∀ s, WellFormed (quote s)) : (items : List Value) → ItemsWf items →
    WellFormed (printItems quote items)
  | [], _ => ⟨"]".toList, rfl⟩
  | v :: rest, wf => by
      rw [printItems]
      exact wellFormed_cons (by decide) ((print_wellFormed clean v wf.1).append
        (printItems_wellFormed clean rest wf.2))

theorem printMembers_wellFormed (clean : ∀ s, WellFormed (quote s)) : (members : List (Text × Value)) →
    MembersWf members → WellFormed (printMembers quote members)
  | [], _ => ⟨['\x7d'], rfl⟩
  | (key, v) :: rest, wf => by
      rw [printMembers]
      exact wellFormed_cons (by decide) ((clean key).append (wellFormed_cons (by decide)
        ((print_wellFormed clean v wf.1).append (printMembers_wellFormed clean rest wf.2))))

end

theorem printItems_split (clean : ∀ s, WellFormed (quote s)) {items : List Value} (wf : ItemsWf items) :
    ∃ inner, WellFormed inner ∧ printItems quote items = inner ++ [mark ']'] := by
  induction items with
  | nil => exact ⟨[], .nil, rfl⟩
  | cons v rest ih =>
      obtain ⟨inner, whole, is⟩ := ih wf.2
      refine ⟨mark ',' :: (print quote v ++ inner), ?_, ?_⟩
      · exact wellFormed_cons (by decide) ((print_wellFormed clean v wf.1).append whole)
      · rw [printItems, is, List.cons_append, List.append_assoc]

/-- The text of an array between its brackets. -/
theorem print_array (reads : Quotes quote) (clean : ∀ s, WellFormed (quote s)) {items : List Value}
    (wf : ItemsWf items) : ∃ inner, WellFormed inner ∧ (inner = [] ↔ items = []) ∧
      print quote (.array items) = mark '[' :: (inner ++ [mark ']']) := by
  cases items with
  | nil => exact ⟨[], .nil, Iff.rfl.trans (by simp), by rw [print]; rfl⟩
  | cons v rest =>
      obtain ⟨inner, whole, is⟩ := printItems_split clean wf.2
      obtain ⟨u, more, head, _⟩ := print_head reads wf.1
      refine ⟨print quote v ++ inner, (print_wellFormed clean v wf.1).append whole, ?_, ?_⟩
      · rw [head]
        simp
      · rw [print, is, List.append_assoc]

end Print

section Stringify

variable {u : UInt16} {s : Text}

/-- How `JSON.stringify` writes a unit that is no half of a pair. -/
def written (u : UInt16) : Text :=
  if u = mark '"' ∨ u = mark '\\' then [mark '\\', u]
  else if u = 8 then [mark '\\', mark 'b']
  else if u = 9 then [mark '\\', mark 't']
  else if u = 10 then [mark '\\', mark 'n']
  else if u = 12 then [mark '\\', mark 'f']
  else if u = 13 then [mark '\\', mark 'r']
  else if u < 0x20 ∨ isHigh u = true ∨ isLow u = true then mark '\\' :: mark 'u' :: hexDigits u
  else [u]

/-- The halves of a pair are written as they are. -/
def stringPieces : Text → List (Text × UInt16)
  | [] => []
  | [u] => [(written u, u)]
  | u :: v :: rest =>
      if isHigh u && isLow v then ([u], u) :: ([v], v) :: stringPieces rest
      else (written u, u) :: stringPieces (v :: rest)

def stringify (s : Text) : Text := quoted (stringPieces s)

theorem spells_written (u : UInt16) : Spells (written u) u := by
  unfold written
  split
  · next marks =>
    apply spells_simple
    · rcases marks with rfl | rfl
      · decide
      · decide
    · rcases marks with rfl | rfl
      · rfl
      · rfl
  · next marks =>
    rw [not_or] at marks
    split
    · next is => exact is ▸ spells_simple (by decide) rfl
    · split
      · next is => exact is ▸ spells_simple (by decide) rfl
      · split
        · next is => exact is ▸ spells_simple (by decide) rfl
        · split
          · next is => exact is ▸ spells_simple (by decide) rfl
          · split
            · next is => exact is ▸ spells_simple (by decide) rfl
            · split
              · exact spells_hex u
              · next plain =>
                rw [not_or] at plain
                exact spells_self marks.2 marks.1 (UInt16.not_lt.mp plain.1)

theorem spells_surrogate (half : isHigh u = true ∨ isLow u = true) : Spells [u] u := by
  have large : 0xd800 ≤ u.toNat := by
    simp only [isHigh, isLow, Bool.and_eq_true, decide_eq_true_eq] at half
    omega
  have apart (v : UInt16) (small : v.toNat < 0xd800) : u ≠ v := by
    rintro rfl
    omega
  exact spells_self (apart _ (by decide)) (apart _ (by decide))
    (UInt16.le_iff_toNat_le.mpr (Nat.le_trans (by decide) large))

theorem map_stringPieces (s : Text) : (stringPieces s).map Prod.snd = s := by
  induction s using stringPieces.induct with
  | case1 => rfl
  | case2 u => rfl
  | case3 u v rest pair ih => rw [stringPieces, if_pos pair, List.map_cons, List.map_cons, ih]
  | case4 u v rest apart ih => rw [stringPieces, if_neg apart, List.map_cons, ih]

theorem spelled_stringPieces (s : Text) : ∀ p ∈ stringPieces s, Spells p.1 p.2 := by
  induction s using stringPieces.induct with
  | case1 => simp [stringPieces]
  | case2 u => simpa [stringPieces] using spells_written u
  | case3 u v rest pair ih =>
      have halves := pair
      rw [Bool.and_eq_true] at halves
      rw [stringPieces, if_pos pair]
      simp only [List.forall_mem_cons]
      exact ⟨spells_surrogate (.inl halves.1), spells_surrogate (.inr halves.2), ih⟩
  | case4 u v rest apart ih =>
      rw [stringPieces, if_neg apart]
      simp only [List.forall_mem_cons]
      exact ⟨spells_written u, ih⟩

theorem wellFormed_hexDigit {n : Nat} (small : n < 16) : WellFormed [hexDigit n] := by
  apply wellFormed_unit
  · revert n
    decide
  · revert n
    decide

theorem wellFormed_hexDigits (u : UInt16) : WellFormed (hexDigits u) := by
  have bound := u.toNat_lt
  have digit (n : Nat) (small : n < 16) := wellFormed_hexDigit small
  exact (((digit (u.toNat / 4096) (by omega)).append (digit (u.toNat / 256 % 16) (by omega))).append
    (digit (u.toNat / 16 % 16) (by omega))).append (digit (u.toNat % 16) (by omega))

theorem wellFormed_written (u : UInt16) : WellFormed (written u) := by
  unfold written
  split
  · next marks =>
    rcases marks with rfl | rfl
    · exact ⟨['\\', '"'], rfl⟩
    · exact ⟨['\\', '\\'], rfl⟩
  · split
    · exact ⟨['\\', 'b'], rfl⟩
    · split
      · exact ⟨['\\', 't'], rfl⟩
      · split
        · exact ⟨['\\', 'n'], rfl⟩
        · split
          · exact ⟨['\\', 'f'], rfl⟩
          · split
            · exact ⟨['\\', 'r'], rfl⟩
            · split
              · exact wellFormed_cons (by decide) (wellFormed_cons (by decide) (wellFormed_hexDigits u))
              · next plain =>
                rw [not_or, not_or, Bool.not_eq_true, Bool.not_eq_true] at plain
                exact wellFormed_unit plain.2.1 plain.2.2

theorem wellFormed_pieces (s : Text) : WellFormed ((stringPieces s).flatMap Prod.fst) := by
  induction s using stringPieces.induct with
  | case1 => exact .nil
  | case2 u =>
      rw [stringPieces, List.flatMap_cons]
      exact (wellFormed_written u).append .nil
  | case3 u v rest pair ih =>
      rw [stringPieces, if_pos pair, List.flatMap_cons, List.flatMap_cons, ← List.append_assoc]
      rw [Bool.and_eq_true] at pair
      exact (wellFormed_pair pair.1 pair.2).append ih
  | case4 u v rest apart ih =>
      rw [stringPieces, if_neg apart, List.flatMap_cons]
      exact (wellFormed_written u).append ih

/-- What `JSON.stringify` writes has no lone surrogate, whatever it is given. -/
theorem wellFormed_stringify (s : Text) : WellFormed (stringify s) :=
  wellFormed_cons (by decide) ((wellFormed_pieces s).append (wellFormed_mark (by decide)))

theorem quotes_stringify : Quotes stringify := by
  intro s rest
  rw [stringify, string_quoted (spelled_stringPieces s), map_stringPieces]

theorem stringPieces_plain (plain : ∀ u ∈ s, written u = [u]) : (stringPieces s).flatMap Prod.fst = s := by
  induction s using stringPieces.induct with
  | case1 => rfl
  | case2 u => rw [stringPieces, List.flatMap_singleton, plain u List.mem_cons_self]
  | case3 u v rest pair ih =>
      simp only [List.forall_mem_cons] at plain
      rw [stringPieces, if_pos pair, List.flatMap_cons, List.flatMap_cons, ih plain.2.2]
      rfl
  | case4 u v rest apart ih =>
      rw [stringPieces, if_neg apart, List.flatMap_cons, plain u List.mem_cons_self,
        ih fun w member => plain w (List.mem_cons_of_mem _ member)]
      rfl

/-- A string with nothing to escape stands between its quotation marks as it is. -/
theorem stringify_plain (plain : ∀ u ∈ s, written u = [u]) : stringify s = mark '"' :: (s ++ [mark '"']) := by
  rw [stringify, quoted, stringPieces_plain plain]

end Stringify

end Json
