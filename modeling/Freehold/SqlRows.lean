import Freehold.Lib.Json
import Freehold.Lib.Utf8
import Freehold.PoolSlots
import Freehold.Transactions

set_option autoImplicit false

/- Queries of a session: what goes to the engine, and how its rows come back as JSON. -/
namespace Freehold

open Utf16

namespace Sql

/-- A column of a row: what `sqlite3_column_type` tells, and what `sqlite3_column_text` points to. -/
inductive Column where
  | null
  | text (bytes : Option (List UInt8))
  deriving DecidableEq, Repr

abbrev Row := List Column

/-- What `CStr::from_ptr(t).to_string_lossy()` makes of a text, which ends at its first zero. -/
def cString (bytes : List UInt8) : List Char := Utf8.fromUtf8Lossy (bytes.takeWhile (· ≠ 0))

/-- What a column is for the caller. -/
def Column.value : Column → Option (List Char)
  | .null => none
  | .text none => some []
  | .text (some bytes) => some (cString bytes)

section Json

/-- Four digits in lower case. -/
def hex4 (n : Nat) : List Char :=
  [n / 4096, n / 256 % 16, n / 16 % 16, n % 16].map Nat.digitChar

def escapeChar (c : Char) : List Char :=
  if c = '"' then ['\\', '"']
  else if c = '\\' then ['\\', '\\']
  else if c = '\n' then ['\\', 'n']
  else if c = '\r' then ['\\', 'r']
  else if c = '\t' then ['\\', 't']
  else if c.toNat < 0x20 then '\\' :: 'u' :: hex4 c.toNat
  else [c]

/-- What `json_escape_into` adds. -/
def jsonEscape (s : List Char) : List Char := '"' :: (s.flatMap escapeChar ++ ['"'])

/-- What is written, and whether the next row is the first. -/
structure Output where
  text : List Char
  firstRow : Bool

def columnJson (column : Column) : List Char :=
  match column.value with
  | none => "null".toList
  | some s => jsonEscape s

/-- The columns, with a comma before all but the first. -/
def columnsJson : (first : Bool) → Row → List Char
  | _, [] => []
  | first, column :: rest => (if first then [] else [',']) ++ columnJson column ++ columnsJson false rest

def pushRowJson (row : Row) (out : Output) : Output where
  text := out.text ++ (if out.firstRow then [] else [',']) ++ '[' :: (columnsJson true row ++ [']'])
  firstRow := false

end Json

/-- A return code and the message of the connection. -/
structure Fault where
  rc : Int
  msg : List UInt8

def Fault.report (action : String) (fault : Fault) : List Char :=
  (action ++ " rc=").toList ++ (toString fault.rc).toList ++ ": ".toList ++ cString fault.msg

inductive Stepped where
  | row (columns : Row)
  | done
  | failed (fault : Fault)

/-- A value bound to a parameter. -/
inductive Bound (ν : Type) where
  | null
  | int64 (n : Int)
  | double (x : ν)
  | text (bytes : List UInt8)

/-- The calls to the engine on a connection. Each may change the state `σ` it works on. -/
structure Sqlite (σ stmt ν : Type) where
  /-- The statement, if there is any, and the text behind it. -/
  prepare : List UInt8 → σ → Except Fault (Option stmt × List UInt8) × σ
  parameterCount : stmt → Nat
  bind : stmt → (index : Nat) → Bound ν → σ → Except Fault Unit × σ
  step : stmt → σ → Stepped × σ
  finalize : stmt → σ → σ

variable {σ stmt ν : Type} (db : Sqlite σ stmt ν)

/-- The rows of a statement up to its end. `none` while it still runs. -/
def stepRows (stmt : stmt) : Nat → Output → σ → Option (Except (List Char) Output × σ)
  | 0, _, _ => none
  | fuel + 1, out, s =>
      match db.step stmt s with
      | (.row row, s) => stepRows stmt fuel (pushRowJson row out) s
      | (.done, s) => some (.ok out, db.finalize stmt s)
      | (.failed fault, s) => some (.error (fault.report "step"), db.finalize stmt s)

/-- The statements of a script, one after the other. -/
def script : Nat → List UInt8 → Output → σ → Option (Except (List Char) Output × σ)
  | 0, _, _, _ => none
  | fuel + 1, sql, out, s =>
      match db.prepare sql s with
      | (.error fault, s) => some (.error (fault.report "prepare"), s)
      | (.ok (none, tail), s) => if tail = [] then some (.ok out, s) else script fuel tail out s
      | (.ok (some stmt, tail), s) =>
          match stepRows db stmt fuel out s with
          | none => none
          | some (.error reason, s) => some (.error reason, s)
          | some (.ok out, s) => if tail = [] then some (.ok out, s) else script fuel tail out s

def closed (result : Except (List Char) Output) : Except (List Char) (List Char) :=
  result.map fun out => out.text ++ [']']

def queryJson (fuel : Nat) (sql : List Char) (s : σ) : Option (Except (List Char) (List Char) × σ) :=
  if 0 ∈ DeviceCert.strBytes sql then some (.error "SQL contains a NUL byte".toList, s)
  else (script db fuel (DeviceCert.strBytes sql) ⟨['['], true⟩ s).map fun (result, s) => (closed result, s)

/-- The doubles of the caller: how `JSON.stringify` writes one if it is finite, how `JSON.parse` reads one,
and the whole number it is if its magnitude is at most 2^53. -/
structure Doubles (ν : Type) where
  lexeme : ν → Option Json.Text
  ofLexeme : Json.Text → ν
  whole : ν → Option Int
  isNumber_lexeme : ∀ x lexeme', lexeme x = some lexeme' → Json.isNumber lexeme' = true

variable (doubles : Doubles ν)

def number (x : ν) : Bound ν :=
  match doubles.whole x with
  | some n => .int64 n
  | none => .double x

/-- A string is bound with its length as an `i32`. -/
def textBound (i : Nat) (s : List Char) : Except (List Char) (Bound ν) :=
  let bytes := DeviceCert.strBytes s
  if 2 ^ 31 - 1 < bytes.length then
    .error ("param ".toList ++ (toString i).toList ++ " text is too large to bind (".toList ++
      (toString bytes.length).toList ++ " bytes)".toList)
  else if 0 ∈ bytes then .error ("param ".toList ++ (toString i).toList ++ " contains a NUL byte".toList)
  else .ok (.text bytes)

def unsupported (i : Nat) : List Char :=
  "param ".toList ++ (toString i).toList ++
    ": unsupported type (allowed: null, boolean, number, string; blobs deferred)".toList

/-- The value that is bound for an item of `params_json`. -/
def bound (i : Nat) : Json.Value → Except (List Char) (Bound ν)
  | .null => .ok .null
  | .bool b => .ok (.int64 (if b then 1 else 0))
  | .number lexeme => .ok (number doubles (doubles.ofLexeme lexeme))
  | .string s => textBound i (decode s)
  | .array _ => .error (unsupported i)
  | .object _ => .error (unsupported i)

/-- A value of the caller, as `JSON.stringify` sees it among the items of an array. -/
inductive Param (ν : Type) where
  | null
  | bool (b : Bool)
  | number (x : ν)
  | string (s : Json.Text)
  | array (items : List Json.Value)
  | object (members : List (Json.Text × Json.Value))

/-- What is bound for it. -/
def Param.bound (i : Nat) : Param ν → Except (List Char) (Bound ν)
  | .null => .ok .null
  | .bool b => .ok (.int64 (if b then 1 else 0))
  | .number x => .ok ((doubles.lexeme x).elim .null fun lexeme => Sql.number doubles (doubles.ofLexeme lexeme))
  | .string s => textBound i (decode s)
  | .array _ => .error (unsupported i)
  | .object _ => .error (unsupported i)

section Params

variable {α : Type} (boundOf : Nat → α → Except (List Char) (Bound ν))

/-- Binds the values from the `i`-th on. -/
def bindParams (stmt : stmt) : Nat → List α → σ → Except (List Char) Unit × σ
  | _, [], s => (.ok (), s)
  | i, v :: rest, s =>
      match boundOf i v with
      | .error reason => (.error reason, db.finalize stmt s)
      | .ok value =>
          match db.bind stmt (i + 1) value s with
          | (.error fault, s) =>
              (.error (fault.report ("bind param " ++ toString i)), db.finalize stmt s)
          | (.ok (), s) => bindParams stmt (i + 1) rest s

/-- The statement of a query with its parameters bound. -/
def boundStatement (sql : List Char) (params : List α) (s : σ) : Except (List Char) stmt × σ :=
  if 0 ∈ DeviceCert.strBytes sql then (.error "SQL contains a NUL byte".toList, s)
  else
    match db.prepare (DeviceCert.strBytes sql) s with
    | (.error fault, s) => (.error (fault.report "prepare"), s)
    | (.ok (none, _), s) => (.error "no statement in SQL".toList, s)
    | (.ok (some stmt, tail), s) =>
        if DeviceCert.trim (cString tail) ≠ [] then
          (.error "params require a single statement".toList, db.finalize stmt s)
        else if db.parameterCount stmt ≠ params.length then
          (.error ("SQL has ".toList ++ (toString (db.parameterCount stmt)).toList ++
            " parameter(s) but ".toList ++ (toString params.length).toList ++ " were supplied".toList),
            db.finalize stmt s)
        else
          match bindParams db boundOf stmt 0 params s with
          | (.error reason, s) => (.error reason, s)
          | (.ok (), s) => (.ok stmt, s)

end Params

def queryJsonParams (fuel : Nat) (sql : List Char) (params : List Json.Value) (s : σ) :
    Option (Except (List Char) (List Char) × σ) :=
  match boundStatement db (bound doubles) sql params s with
  | (.error reason, s) => some (.error reason, s)
  | (.ok stmt, s) => (stepRows db stmt fuel ⟨['['], true⟩ s).map fun (result, s) => (closed result, s)

/-- What the worker has from the engine. -/
structure Engine (σ conn stmt ν : Type) where
  openDefault : FileName → σ → Except (List Char) conn × σ
  setPragmas : conn → σ → Except (List Char) Unit × σ
  close : conn → σ → σ
  on : conn → Sqlite σ stmt ν
  doubles : Doubles ν
  /-- How `{:?}` writes a string. -/
  debug : List Char → List Char

/-- The connections of the session by file name, if there is a session, and the state of the engine. -/
structure State (σ conn : Type) where
  session : Option (List (FileName × conn))
  engine : σ

variable {conn : Type} (engine : Engine σ conn stmt ν)

/-- The connection of a database, opened at its first use. -/
def handle (file : FileName) (w : State σ conn) : Except (List Char) conn × State σ conn :=
  match w.session with
  | none => (.error "no active session — call session_open first".toList, w)
  | some handles =>
      match handles.lookup file with
      | some h => (.ok h, w)
      | none =>
          match engine.openDefault file w.engine with
          | (.error reason, s) =>
              (.error ("open rejected (rollback below a peer epoch, or wrong key): ".toList ++ reason),
                { w with engine := s })
          | (.ok h, s) =>
              match engine.setPragmas h s with
              | (.error reason, s) => (.error reason, { w with engine := engine.close h s })
              | (.ok (), s) => (.ok h, ⟨some ((file, h) :: handles), s⟩)

def invalidDbName (db : List Char) : List Char :=
  "invalid db name ".toList ++ engine.debug db ++ " — must match [a-z0-9_-]\x7b1,32\x7d".toList

/-- The items of `params_json`, if there are any. -/
def parseParams (paramsJson : List Char) : Except (List Char) (Option (List Json.Value)) :=
  let s := DeviceCert.trim paramsJson
  if s = [] ∨ s = ['[', ']'] then .ok none
  else
    match Json.parse (encode s) with
    | none => .error "params_json is not valid JSON".toList
    | some (.array items) => .ok (some items)
    | some _ => .error "params_json must be a JSON array".toList

def sessionSql (fuel : Nat) (db sql paramsJson : List Char) (w : State σ conn) :
    Option (Except (List Char) (List Char) × State σ conn) :=
  if validDbName db = false then some (.error (invalidDbName engine db), w)
  else
    match parseParams paramsJson with
    | .error reason => some (.error reason, w)
    | .ok params =>
        match handle engine (db ++ dbSuffix) w with
        | (.error reason, w) => some (.error reason, w)
        | (.ok h, w) =>
            let ran :=
              match params with
              | some items => queryJsonParams (engine.on h) engine.doubles fuel sql items w.engine
              | none => queryJson (engine.on h) fuel sql w.engine
            ran.map fun (result, s) => (result, { w with engine := s })

/-- The item of the array that `JSON.stringify` writes for a value. -/
def Param.toJson : Param ν → Json.Value
  | .null => .null
  | .bool b => .bool b
  | .number x => (doubles.lexeme x).elim .null .number
  | .string s => .string s
  | .array items => .array items
  | .object members => .object members

/-- What `sql` throws. -/
inductive Thrown where
  /-- The error of the worker. -/
  | worker (message : Json.Text)
  | syntaxError

/-- `sql` of the SDK: strings cross to the worker as UTF-8. -/
def sql (fuel : Nat) (query : Json.Text) (params : List (Param ν)) (db : Json.Text) (w : State σ conn) :
    Option (Except Thrown Json.Value × State σ conn) :=
  let paramsJson := Json.print Json.stringify (.array (params.map (Param.toJson engine.doubles)))
  (sessionSql engine fuel (decode db) (decode query) (decode paramsJson) w).map fun (result, w) =>
    match result with
    | .error message => (.error (.worker (encode message)), w)
    | .ok text =>
        match Json.parse (encode text) with
        | none => (.error .syntaxError, w)
        | some v => (.ok v, w)

/-- A statement that comes to an end: its rows, how it ends, and the state it leaves. -/
inductive Stepping (stmt : stmt) : σ → List Row → Except (List Char) Unit → σ → Prop where
  | row {s s' t : σ} {row : Row} {rows : List Row} {ending : Except (List Char) Unit}
      (stepped : db.step stmt s = (.row row, s')) (rest : Stepping stmt s' rows ending t) :
      Stepping stmt s (row :: rows) ending t
  | done {s s' : σ} (stepped : db.step stmt s = (.done, s')) :
      Stepping stmt s [] (.ok ()) (db.finalize stmt s')
  | failed {s s' : σ} {fault : Fault} (stepped : db.step stmt s = (.failed fault, s')) :
      Stepping stmt s [] (.error (fault.report "step")) (db.finalize stmt s')

/-- A script that comes to an end. -/
inductive Scripted : List UInt8 → σ → List Row → Except (List Char) Unit → σ → Prop where
  | failed {text : List UInt8} {s s' : σ} {fault : Fault}
      (prepared : db.prepare text s = (.error fault, s')) :
      Scripted text s [] (.error (fault.report "prepare")) s'
  | blank {text : List UInt8} {s s' : σ} (prepared : db.prepare text s = (.ok (none, []), s')) :
      Scripted text s [] (.ok ()) s'
  | skipped {text tail : List UInt8} {s s' t : σ} {rows : List Row} {ending : Except (List Char) Unit}
      (prepared : db.prepare text s = (.ok (none, tail), s')) (more : tail ≠ [])
      (rest : Scripted tail s' rows ending t) : Scripted text s rows ending t
  | stopped {text tail : List UInt8} {s s' t : σ} {stmt : stmt} {rows : List Row} {reason : List Char}
      (prepared : db.prepare text s = (.ok (some stmt, tail), s'))
      (ran : Stepping db stmt s' rows (.error reason) t) : Scripted text s rows (.error reason) t
  | last {text : List UInt8} {s s' t : σ} {stmt : stmt} {rows : List Row}
      (prepared : db.prepare text s = (.ok (some stmt, []), s'))
      (ran : Stepping db stmt s' rows (.ok ()) t) : Scripted text s rows (.ok ()) t
  | next {text tail : List UInt8} {s s' t u : σ} {stmt : stmt} {rows more : List Row}
      {ending : Except (List Char) Unit} (prepared : db.prepare text s = (.ok (some stmt, tail), s'))
      (nonempty : tail ≠ []) (ran : Stepping db stmt s' rows (.ok ()) t) (rest : Scripted tail t more ending u) :
      Scripted text s (rows ++ more) ending u

/-- A query that comes to an end: with parameters it is one statement, without it is a script. -/
inductive Queried (query : List Char) : List (Param ν) → σ → Except (List Char) (List Row) → σ → Prop where
  | zero {s : σ} (nul : 0 ∈ DeviceCert.strBytes query) :
      Queried query [] s (.error "SQL contains a NUL byte".toList) s
  | script {s t : σ} {rows : List Row} {ending : Except (List Char) Unit}
      (clean : 0 ∉ DeviceCert.strBytes query)
      (ran : Scripted db (DeviceCert.strBytes query) s rows ending t) :
      Queried query [] s (ending.map fun _ => rows) t
  | refused {params : List (Param ν)} {s t : σ} {reason : List Char} (some_given : params ≠ [])
      (began : boundStatement db (Param.bound doubles) query params s = (.error reason, t)) :
      Queried query params s (.error reason) t
  | statement {params : List (Param ν)} {s s' t : σ} {stmt : stmt} {rows : List Row}
      {ending : Except (List Char) Unit} (some_given : params ≠ [])
      (began : boundStatement db (Param.bound doubles) query params s = (.ok stmt, s'))
      (ran : Stepping db stmt s' rows ending t) : Queried query params s (ending.map fun _ => rows) t

/-- A call of `sql` that comes to an end. -/
inductive Asked (query : Json.Text) (params : List (Param ν)) (db : Json.Text) :
    State σ conn → Except (List Char) (List Row) → State σ conn → Prop where
  | unnamed {w : State σ conn} (illegal : validDbName (decode db) = false) :
      Asked query params db w (.error (invalidDbName engine (decode db))) w
  | unopened {w w' : State σ conn} {reason : List Char} (legal : validDbName (decode db) = true)
      (opened : handle engine (decode db ++ dbSuffix) w = (.error reason, w')) :
      Asked query params db w (.error reason) w'
  | queried {w w' : State σ conn} {h : conn} {t : σ} {answer : Except (List Char) (List Row)}
      (legal : validDbName (decode db) = true)
      (opened : handle engine (decode db ++ dbSuffix) w = (.ok h, w'))
      (ran : Queried (engine.on h) engine.doubles (decode query) params w'.engine answer t) :
      Asked query params db w answer { w' with engine := t }

section Loops

variable {db} {sql : List UInt8} {out : Output} {s t : σ} {fuel : Nat}
  {result : Except (List Char) Output}

/-- Rows on top of what is written. -/
def pushRows (rows : List Row) (out : Output) : Output := rows.foldl (fun out row => pushRowJson row out) out

theorem pushRows_append (rows more : List Row) (out : Output) :
    pushRows (rows ++ more) out = pushRows more (pushRows rows out) := List.foldl_append

theorem stepping_of_stepRows {stmt : stmt} (ran : stepRows db stmt fuel out s = some (result, t)) :
    ∃ rows ending, Stepping db stmt s rows ending t ∧ result = ending.map fun _ => pushRows rows out := by
  induction fuel generalizing out s with
  | zero => cases ran
  | succ fuel ih =>
      rw [stepRows] at ran
      split at ran
      · next row s' stepped =>
        obtain ⟨rows, ending, rest, is⟩ := ih ran
        exact ⟨row :: rows, ending, .row stepped rest, is⟩
      · next s' stepped =>
        cases ran
        exact ⟨[], .ok (), .done stepped, rfl⟩
      · next fault s' stepped =>
        cases ran
        exact ⟨[], _, .failed stepped, rfl⟩

theorem stepRows_of_stepping {stmt : stmt} {rows : List Row} {ending : Except (List Char) Unit}
    (ran : Stepping db stmt s rows ending t) (out : Output) : ∃ fuel, ∀ more,
      stepRows db stmt (fuel + more) out s = some (ending.map fun _ => pushRows rows out, t) := by
  induction ran generalizing out with
  | row stepped rest ih =>
      obtain ⟨fuel, runs⟩ := ih (pushRowJson _ out)
      refine ⟨fuel + 1, fun more => ?_⟩
      rw [show fuel + 1 + more = fuel + more + 1 by omega, stepRows, stepped]
      exact runs more
  | done stepped =>
      refine ⟨1, fun more => ?_⟩
      rw [show 1 + more = more + 1 by omega, stepRows, stepped]
      rfl
  | failed stepped =>
      refine ⟨1, fun more => ?_⟩
      rw [show 1 + more = more + 1 by omega, stepRows, stepped]
      rfl

theorem scripted_of_script (ran : script db fuel sql out s = some (result, t)) :
    ∃ rows ending, Scripted db sql s rows ending t ∧ result = ending.map fun _ => pushRows rows out := by
  induction fuel generalizing sql out s with
  | zero => cases ran
  | succ fuel ih =>
      rw [script] at ran
      split at ran
      · next fault s' prepared =>
        cases ran
        exact ⟨[], _, .failed prepared, rfl⟩
      · next tail s' prepared =>
        split at ran
        · next ends =>
          cases ran
          subst ends
          exact ⟨[], _, .blank prepared, rfl⟩
        · next more =>
          obtain ⟨rows, ending, rest, is⟩ := ih ran
          exact ⟨rows, ending, .skipped prepared more rest, is⟩
      · next stmt tail s' prepared =>
        split at ran
        · cases ran
        · next reason s'' stepped =>
          cases ran
          obtain ⟨rows, ending, stepping, is⟩ := stepping_of_stepRows stepped
          cases ending with
          | error reason' =>
              cases is
              exact ⟨rows, _, .stopped prepared stepping, rfl⟩
          | ok _ => cases is
        · next out' s'' stepped =>
          obtain ⟨rows, ending, stepping, is⟩ := stepping_of_stepRows stepped
          cases ending with
          | error reason' => cases is
          | ok _ =>
              cases is
              split at ran
              · next ends =>
                cases ran
                subst ends
                exact ⟨rows, _, .last prepared stepping, rfl⟩
              · next more =>
                obtain ⟨later, ending, rest, is⟩ := ih ran
                exact ⟨rows ++ later, ending, .next prepared more stepping rest, by rw [is, pushRows_append]⟩

theorem script_of_scripted {rows : List Row} {ending : Except (List Char) Unit}
    (ran : Scripted db sql s rows ending t) (out : Output) : ∃ fuel, ∀ more,
      script db (fuel + more) sql out s = some (ending.map fun _ => pushRows rows out, t) := by
  induction ran generalizing out with
  | failed prepared =>
      refine ⟨1, fun more => ?_⟩
      rw [show 1 + more = more + 1 by omega, script, prepared]
      rfl
  | blank prepared =>
      refine ⟨1, fun more => ?_⟩
      rw [show 1 + more = more + 1 by omega, script, prepared]
      exact if_pos rfl
  | skipped prepared nonempty rest ih =>
      obtain ⟨fuel, runs⟩ := ih out
      refine ⟨fuel + 1, fun more => ?_⟩
      rw [show fuel + 1 + more = fuel + more + 1 by omega, script, prepared]
      exact (if_neg nonempty).trans (runs more)
  | stopped prepared stepping =>
      obtain ⟨fuel, runs⟩ := stepRows_of_stepping stepping out
      refine ⟨fuel + 1, fun more => ?_⟩
      rw [show fuel + 1 + more = fuel + more + 1 by omega, script, prepared]
      dsimp only
      rw [runs more]
      rfl
  | last prepared stepping =>
      obtain ⟨fuel, runs⟩ := stepRows_of_stepping stepping out
      refine ⟨fuel + 1, fun more => ?_⟩
      rw [show fuel + 1 + more = fuel + more + 1 by omega, script, prepared]
      dsimp only
      rw [runs more]
      exact if_pos rfl
  | next prepared nonempty stepping rest ih =>
      obtain ⟨fuel, runs⟩ := stepRows_of_stepping stepping out
      obtain ⟨fuel', runs'⟩ := ih (pushRows _ out)
      refine ⟨fuel + fuel' + 1, fun more => ?_⟩
      rw [show fuel + fuel' + 1 + more = fuel + (fuel' + more) + 1 by omega, script, prepared]
      dsimp only
      rw [runs (fuel' + more)]
      refine (if_neg nonempty).trans ?_
      rw [show fuel + (fuel' + more) = fuel' + (fuel + more) by omega, runs' (fuel + more), pushRows_append]

end Loops

section Json

open Json (Spells quoted)

/-- How `json_escape_into` writes a code unit. -/
def unitWritten (u : UInt16) : Json.Text :=
  if u = mark '"' ∨ u = mark '\\' then [mark '\\', u]
  else if u = 10 then [mark '\\', mark 'n']
  else if u = 13 then [mark '\\', mark 'r']
  else if u = 9 then [mark '\\', mark 't']
  else if u < 0x20 then mark '\\' :: mark 'u' :: Json.hexDigits u
  else [u]

def quote (s : Json.Text) : Json.Text := quoted (s.map fun u => (unitWritten u, u))

theorem spells_unitWritten (u : UInt16) : Spells (unitWritten u) u := by
  unfold unitWritten
  split
  · next marks =>
    apply Json.spells_simple
    · rcases marks with rfl | rfl
      · decide
      · decide
    · rcases marks with rfl | rfl
      · rfl
      · rfl
  · next marks =>
    rw [not_or] at marks
    split
    · next is => exact is ▸ Json.spells_simple (by decide) rfl
    · split
      · next is => exact is ▸ Json.spells_simple (by decide) rfl
      · split
        · next is => exact is ▸ Json.spells_simple (by decide) rfl
        · split
          · exact Json.spells_hex u
          · next printed => exact Json.spells_self marks.2 marks.1 (UInt16.not_lt.mp printed)

theorem quotes_quote : Json.Quotes quote := by
  intro s rest
  have spelled : ∀ p ∈ s.map fun u => (unitWritten u, u), Spells p.1 p.2 := by
    simpa using fun u _ => spells_unitWritten u
  have units : (s.map fun u => (unitWritten u, u)).map Prod.snd = s := by
    rw [List.map_map]
    exact List.map_id s
  rw [quote, Json.string_quoted spelled, units]

theorem encode_hex4 {n : Nat} (small : n < 65536) : encode (hex4 n) = Json.hexDigits (UInt16.ofNat n) := by
  have digit : ∀ d : Nat, d < 16 → encodeChar (Nat.digitChar d) = [Json.hexDigit d] := by decide
  have value : (UInt16.ofNat n).toNat = n := by
    rw [UInt16.toNat_ofNat']
    omega
  rw [Json.hexDigits, value]
  simp only [hex4, List.map_cons, List.map_nil, encode_cons, encode_nil, digit (n / 4096) (by omega),
    digit (n / 256 % 16) (by omega), digit (n / 16 % 16) (by omega), digit (n % 16) (by omega)]
  rfl

theorem ofNat_eq_iff {c d : Char} (small : c.toNat < 65536) (small' : d.toNat < 65536) :
    UInt16.ofNat c.toNat = mark d ↔ c = d := by
  constructor
  · intro same
    have values := congrArg UInt16.toNat same
    rw [mark, toNat_small small, toNat_small small'] at values
    exact Char.toNat_inj.mp values
  · rintro rfl
    rfl

theorem unitWritten_plain {u : UInt16} (printed : 0x20 ≤ u.toNat) (plain : u ≠ mark '"') (plain' : u ≠ mark '\\') :
    unitWritten u = [u] := by
  have apart (v : UInt16) (control : v.toNat < 0x20) : u ≠ v := by
    rintro rfl
    omega
  rw [unitWritten, if_neg (not_or.mpr ⟨plain, plain'⟩), if_neg (apart _ (by decide)),
    if_neg (apart _ (by decide)), if_neg (apart _ (by decide)), if_neg]
  rw [UInt16.lt_iff_toNat_lt]
  exact Nat.not_lt.mpr printed

theorem encodeChar_plain {c : Char} (printed : 0x20 ≤ c.toNat) (plain : c ≠ '"') (plain' : c ≠ '\\') :
    (encodeChar c).flatMap unitWritten = encodeChar c := by
  have bounds := toNat_bounds c
  by_cases small : c.toNat < 0x10000
  · have value := toNat_small small
    rw [encodeChar_small small, List.flatMap_singleton]
    apply unitWritten_plain
    · omega
    · exact fun same => plain ((ofNat_eq_iff small (by decide)).mp same)
    · exact fun same => plain' ((ofNat_eq_iff small (by decide)).mp same)
  · have half {n : Nat} (large : 0xd800 ≤ n) (bound : n < 65536) : unitWritten (UInt16.ofNat n) = [UInt16.ofNat n] := by
      have value : (UInt16.ofNat n).toNat = n := by
        rw [UInt16.toNat_ofNat']
        omega
      have apart (v : UInt16) (low : v.toNat < 0xd800) : UInt16.ofNat n ≠ v := by
        rintro rfl
        omega
      exact unitWritten_plain (by omega) (apart _ (by decide)) (apart _ (by decide))
    rw [encodeChar, if_neg small, List.flatMap_cons, List.flatMap_singleton, half (by omega) (by omega),
      half (by omega) (by omega)]
    rfl

theorem encode_escapeChar (c : Char) : encode (escapeChar c) = (encodeChar c).flatMap unitWritten := by
  by_cases quotes : c = '"'
  · subst quotes
    decide
  by_cases solidus : c = '\\'
  · subst solidus
    decide
  by_cases newline : c = '\n'
  · subst newline
    decide
  by_cases carriage : c = '\r'
  · subst carriage
    decide
  by_cases tab : c = '\t'
  · subst tab
    decide
  rw [escapeChar, if_neg quotes, if_neg solidus, if_neg newline, if_neg carriage, if_neg tab]
  split
  · next control =>
    have small : c.toNat < 65536 := by omega
    have apart {d : Char} (other : c ≠ d) (tiny : d.toNat < 65536) : UInt16.ofNat c.toNat ≠ mark d :=
      fun same => other ((ofNat_eq_iff small tiny).mp same)
    have below : UInt16.ofNat c.toNat < 0x20 := by
      rw [UInt16.lt_iff_toNat_lt, toNat_small small]
      exact control
    rw [encodeChar_small small, List.flatMap_singleton, unitWritten,
      if_neg (not_or.mpr ⟨apart quotes (by decide), apart solidus (by decide)⟩),
      if_neg (show _ ≠ (10 : UInt16) from apart newline (by decide)),
      if_neg (show _ ≠ (13 : UInt16) from apart carriage (by decide)),
      if_neg (show _ ≠ (9 : UInt16) from apart tab (by decide)), if_pos below, ← encode_hex4 small]
    rfl
  · next printed =>
    rw [encodeChar_plain (by omega) quotes solidus, encode_cons, encode_nil, List.append_nil]

theorem encode_jsonEscape (s : List Char) : encode (jsonEscape s) = quote (encode s) := by
  have inner : encode (s.flatMap escapeChar) =
      ((encode s).map fun u => (unitWritten u, u)).flatMap Prod.fst := by
    rw [List.flatMap_map]
    induction s with
    | nil => rfl
    | cons c s ih => rw [List.flatMap_cons, encode_append, encode_escapeChar, encode_cons, List.flatMap_append, ih]
  rw [jsonEscape, quote, quoted, encode_cons, encode_append, inner]
  rfl

/-- What a row is for the caller. -/
def columnValue (column : Column) : Json.Value := column.value.elim .null fun s => .string (encode s)

def rowValue (row : Row) : Json.Value := .array (row.map columnValue)

def rowsValue (rows : List Row) : Json.Value := .array (rows.map rowValue)

def rowJson (row : Row) : List Char := '[' :: (columnsJson true row ++ [']'])

theorem encode_columnJson (column : Column) : encode (columnJson column) = Json.print quote (columnValue column) := by
  unfold columnJson columnValue
  cases column.value with
  | none => rfl
  | some s =>
      rw [Option.elim_some, Json.print]
      exact encode_jsonEscape s

theorem encode_columnsJson (row : Row) :
    encode (columnsJson false row ++ [']']) = Json.printItems quote (row.map columnValue) := by
  induction row with
  | nil => rfl
  | cons column row ih =>
      rw [columnsJson, if_neg Bool.false_ne_true, List.map_cons, Json.printItems, List.append_assoc,
        List.append_assoc, encode_append, encode_append, ih, encode_columnJson]
      rfl

theorem encode_rowJson (row : Row) : encode (rowJson row) = Json.print quote (rowValue row) := by
  rw [rowJson, rowValue]
  cases row with
  | nil => rfl
  | cons column row =>
      rw [columnsJson, if_pos rfl, List.map_cons, Json.print, List.nil_append, List.append_assoc, encode_cons,
        encode_append, encode_columnsJson, encode_columnJson]
      rfl

theorem pushRowJson_next (row : Row) (text : List Char) :
    pushRowJson row ⟨text, false⟩ = ⟨text ++ ',' :: rowJson row, false⟩ := by
  simp [pushRowJson, rowJson]

theorem pushRows_next (rows : List Row) (text : List Char) :
    pushRows rows ⟨text, false⟩ = ⟨text ++ rows.flatMap fun row => ',' :: rowJson row, false⟩ := by
  induction rows generalizing text with
  | nil => simp [pushRows]
  | cons row rows ih =>
      have rest := ih (text ++ ',' :: rowJson row)
      rw [pushRows, List.foldl_cons, pushRowJson_next, ← pushRows, rest, List.flatMap_cons, List.append_assoc]

theorem encode_next (rows : List Row) :
    encode ((rows.flatMap fun row => ',' :: rowJson row) ++ [']']) =
      Json.printItems quote (rows.map rowValue) := by
  induction rows with
  | nil => rfl
  | cons row rows ih =>
      rw [List.flatMap_cons, List.map_cons, Json.printItems, List.append_assoc, encode_append, ih,
        encode_cons, encode_rowJson]
      rfl

/-- The text of the rows is their JSON. -/
theorem encode_rows (rows : List Row) :
    encode ((pushRows rows ⟨['['], true⟩).text ++ [']']) = Json.print quote (rowsValue rows) := by
  rw [rowsValue]
  cases rows with
  | nil => rfl
  | cons row rows =>
      have first : pushRowJson row ⟨['['], true⟩ = ⟨'[' :: rowJson row, false⟩ := by simp [pushRowJson, rowJson]
      rw [pushRows, List.foldl_cons, first, ← pushRows, pushRows_next, List.map_cons, Json.print,
        List.append_assoc, List.cons_append, encode_cons, encode_append, encode_rowJson, encode_next]
      rfl

theorem itemsWf_of_forall {items : List Json.Value} (wf : ∀ v ∈ items, v.Wf) : Json.ItemsWf items := by
  induction items with
  | nil => trivial
  | cons v items ih =>
      exact ⟨wf v List.mem_cons_self, ih fun w member => wf w (List.mem_cons_of_mem _ member)⟩

theorem wf_rowsValue (rows : List Row) : (rowsValue rows).Wf := by
  apply itemsWf_of_forall
  intro v member
  obtain ⟨row, _, rfl⟩ := List.mem_map.mp member
  apply itemsWf_of_forall
  intro v member
  obtain ⟨column, _, rfl⟩ := List.mem_map.mp member
  unfold columnValue
  cases column.value with
  | none => trivial
  | some s => trivial

theorem parse_rows (rows : List Row) :
    Json.parse (encode ((pushRows rows ⟨['['], true⟩).text ++ [']'])) = some (rowsValue rows) := by
  rw [encode_rows, Json.parse_print quotes_quote (wf_rowsValue rows)]

end Json

section Params

variable {db} {doubles}

theorem bound_toJson (i : Nat) (p : Param ν) : bound doubles i (p.toJson doubles) = p.bound doubles i := by
  cases p with
  | number x =>
      rw [Param.toJson, Param.bound]
      cases doubles.lexeme x <;> rfl
  | null => rfl
  | bool b => rfl
  | string s => rfl
  | array items => rfl
  | object members => rfl

theorem bindParams_map (stmt : stmt) (params : List (Param ν)) (i : Nat) (s : σ) :
    bindParams db (bound doubles) stmt i (params.map (Param.toJson doubles)) s =
      bindParams db (Param.bound doubles) stmt i params s := by
  induction params generalizing i s with
  | nil => rfl
  | cons p params ih =>
      rw [List.map_cons, bindParams, bindParams, bound_toJson]
      simp only [ih]

theorem boundStatement_map (sql : List Char) (params : List (Param ν)) (s : σ) :
    boundStatement db (bound doubles) sql (params.map (Param.toJson doubles)) s =
      boundStatement db (Param.bound doubles) sql params s := by
  simp only [boundStatement, bindParams_map, List.length_map]

/-- Arrays and objects among the parameters hold what `JSON.stringify` has made of them. -/
def Param.Wf : Param ν → Prop
  | .array items => Json.ItemsWf items
  | .object members => Json.MembersWf members
  | _ => True

theorem wf_toJson {p : Param ν} (wf : p.Wf) : (p.toJson doubles).Wf := by
  cases p with
  | number x =>
      rw [Param.toJson]
      cases lexeme : doubles.lexeme x with
      | none => trivial
      | some text => exact doubles.isNumber_lexeme x text lexeme
  | null => trivial
  | bool b => trivial
  | string s => trivial
  | array items => exact wf
  | object members => exact wf

/-- The text of the parameters is read back, but for none at all. -/
theorem parseParams_params {params : List (Param ν)} (wf : ∀ p ∈ params, p.Wf) :
    parseParams (decode (Json.print Json.stringify (.array (params.map (Param.toJson doubles))))) =
      .ok (if params = [] then none else some (params.map (Param.toJson doubles))) := by
  have items : Json.ItemsWf (params.map (Param.toJson doubles)) := by
    apply itemsWf_of_forall
    intro v member
    obtain ⟨p, given, rfl⟩ := List.mem_map.mp member
    exact wf_toJson (wf p given)
  obtain ⟨_, ⟨inner, rfl⟩, empty, text⟩ := Json.print_array Json.quotes_stringify Json.wellFormed_stringify items
  have chars : Json.print Json.stringify (.array (params.map (Param.toJson doubles))) =
      encode ('[' :: (inner ++ [']'])) := by
    rw [text, encode_cons, encode_append]
    rfl
  have none_left : inner = [] ↔ params = [] := by
    rw [List.map_eq_nil_iff] at empty
    rw [← empty]
    constructor
    · rintro rfl
      rfl
    · intro none_written
      rw [← decode_encode inner, none_written]
      rfl
  have trimmed : DeviceCert.trim ('[' :: (inner ++ [']'])) = '[' :: (inner ++ [']']) := by
    have open_ : ¬DeviceCert.isWhitespace '[' = true := by decide
    have close_ : ¬DeviceCert.isWhitespace ']' = true := by decide
    rw [DeviceCert.trim, Words.trim, List.dropWhile_cons_of_neg open_, ← List.cons_append,
      List.rdropWhile_concat_neg _ _ _ close_]
  have parsed := Json.parse_print Json.quotes_stringify (v := .array (params.map (Param.toJson doubles))) items
  rw [chars] at parsed ⊢
  rw [decode_encode, parseParams, trimmed]
  by_cases none_given : params = []
  · rw [if_pos none_given, none_left.mpr none_given]
    exact if_pos (.inr rfl)
  · have some_written : inner ≠ [] := fun none_written => none_given (none_left.mp none_written)
    have long : ¬('[' :: (inner ++ [']']) = [] ∨ '[' :: (inner ++ [']']) = ['[', ']']) := by
      rintro (none_left | bare)
      · cases none_left
      · exact some_written (by simpa using bare)
    rw [if_neg long, parsed, if_neg none_given]

end Params

section Queries

variable {db} {doubles} {query : List Char} {s t : σ} {answer : Except (List Char) (List Row)}

/-- What is written for the rows of a query. -/
def written (answer : Except (List Char) (List Row)) : Except (List Char) (List Char) :=
  answer.map fun rows => (pushRows rows ⟨['['], true⟩).text ++ [']']

theorem closed_written (rows : List Row) (ending : Except (List Char) Unit) :
    closed (ending.map fun _ => pushRows rows ⟨['['], true⟩) = written (ending.map fun _ => rows) := by
  cases ending <;> rfl

theorem queryJson_iff {result : Except (List Char) (List Char)} :
    (∃ fuel, queryJson db fuel query s = some (result, t)) ↔
      ∃ answer, Queried db doubles query [] s answer t ∧ result = written answer := by
  unfold queryJson
  by_cases zero : 0 ∈ DeviceCert.strBytes query
  · simp only [if_pos zero, exists_const]
    constructor
    · intro returned
      cases returned
      exact ⟨_, .zero zero, rfl⟩
    · rintro ⟨answer, queried, rfl⟩
      cases queried with
      | zero _ => rfl
      | script clean _ => exact absurd zero clean
      | refused given _ => exact absurd rfl given
      | statement given _ _ => exact absurd rfl given
  · simp only [if_neg zero]
    constructor
    · rintro ⟨fuel, returned⟩
      obtain ⟨⟨ended, left⟩, ran, is⟩ := Option.map_eq_some_iff.mp returned
      cases is
      obtain ⟨rows, ending, scripted, rfl⟩ := scripted_of_script ran
      exact ⟨_, .script zero scripted, closed_written rows ending⟩
    · rintro ⟨answer, queried, rfl⟩
      cases queried with
      | zero nul => exact absurd nul zero
      | script _ scripted =>
          obtain ⟨fuel, runs⟩ := script_of_scripted scripted ⟨['['], true⟩
          refine ⟨fuel, ?_⟩
          have ran := runs 0
          rw [Nat.add_zero] at ran
          rw [ran, Option.map_some, closed_written]
      | refused given _ => exact absurd rfl given
      | statement given _ _ => exact absurd rfl given

theorem queryJsonParams_iff {params : List (Param ν)} (given : params ≠ [])
    {result : Except (List Char) (List Char)} :
    (∃ fuel, queryJsonParams db doubles fuel query (params.map (Param.toJson doubles)) s = some (result, t)) ↔
      ∃ answer, Queried db doubles query params s answer t ∧ result = written answer := by
  unfold queryJsonParams
  rw [boundStatement_map]
  constructor
  · rintro ⟨fuel, returned⟩
    split at returned
    · next reason s' began =>
      cases returned
      exact ⟨_, .refused given began, rfl⟩
    · next stmt s' began =>
      obtain ⟨⟨ended, left⟩, ran, is⟩ := Option.map_eq_some_iff.mp returned
      cases is
      obtain ⟨rows, ending, stepping, rfl⟩ := stepping_of_stepRows ran
      exact ⟨_, .statement given began stepping, closed_written rows ending⟩
  · rintro ⟨answer, queried, rfl⟩
    cases queried with
    | zero _ => exact absurd rfl given
    | script _ _ => exact absurd rfl given
    | refused _ began => exact ⟨0, by rw [began]; rfl⟩
    | statement _ began stepping =>
        obtain ⟨fuel, runs⟩ := stepRows_of_stepping stepping ⟨['['], true⟩
        refine ⟨fuel, ?_⟩
        have ran := runs 0
        rw [Nat.add_zero] at ran
        rw [began]
        dsimp only
        rw [ran, Option.map_some, closed_written]

theorem queried_iff {params : List (Param ν)} {result : Except (List Char) (List Char)} :
    (∃ fuel, (match (if params = [] then none else some (params.map (Param.toJson doubles))) with
      | some items => queryJsonParams db doubles fuel query items s
      | none => queryJson db fuel query s) = some (result, t)) ↔
      ∃ answer, Queried db doubles query params s answer t ∧ result = written answer := by
  by_cases given : params = []
  · subst given
    rw [if_pos rfl]
    exact queryJson_iff
  · rw [if_neg given]
    exact queryJsonParams_iff given

end Queries

section Calls

variable {engine} {query : Json.Text} {params : List (Param ν)} {db : Json.Text} {w w' : State σ conn}

theorem sessionSql_iff (wf : ∀ p ∈ params, p.Wf) {result : Except (List Char) (List Char)} :
    (∃ fuel, sessionSql engine fuel (decode db) (decode query) (decode (Json.print Json.stringify
        (.array (params.map (Param.toJson engine.doubles))))) w = some (result, w')) ↔
      ∃ answer, Asked engine query params db w answer w' ∧ result = written answer := by
  unfold sessionSql
  rw [parseParams_params wf]
  by_cases illegal : validDbName (decode db) = false
  · simp only [if_pos illegal, exists_const]
    constructor
    · intro returned
      cases returned
      exact ⟨_, .unnamed illegal, rfl⟩
    · rintro ⟨answer, asked, rfl⟩
      cases asked with
      | unnamed _ => rfl
      | unopened legal _ =>
          rw [illegal] at legal
          cases legal
      | queried legal _ _ =>
          rw [illegal] at legal
          cases legal
  · have legal := illegal
    rw [Bool.not_eq_false] at legal
    simp only [if_neg illegal]
    cases opening : handle engine (decode db ++ dbSuffix) w with
    | mk opened w₁ =>
        cases opened with
        | error reason =>
            simp only [exists_const]
            constructor
            · intro returned
              cases returned
              exact ⟨_, .unopened legal opening, rfl⟩
            · rintro ⟨answer, asked, rfl⟩
              cases asked with
              | unnamed never => exact absurd never illegal
              | unopened _ opened =>
                  rw [opening] at opened
                  cases opened
                  rfl
              | queried _ opened _ =>
                  rw [opening] at opened
                  cases opened
        | ok h =>
            constructor
            · rintro ⟨fuel, returned⟩
              obtain ⟨⟨ended, left⟩, ran, is⟩ := Option.map_eq_some_iff.mp returned
              cases is
              obtain ⟨answer, queried, is⟩ := queried_iff.mp ⟨fuel, ran⟩
              exact ⟨answer, .queried legal opening queried, is⟩
            · rintro ⟨answer, asked, rfl⟩
              cases asked with
              | unnamed never => exact absurd never illegal
              | unopened _ opened =>
                  rw [opening] at opened
                  cases opened
              | queried _ opened queried =>
                  rw [opening] at opened
                  cases opened
                  obtain ⟨fuel, ran⟩ := queried_iff.mpr ⟨answer, queried, rfl⟩
                  exact ⟨fuel, by rw [Option.map_eq_some_iff]; exact ⟨_, ran, rfl⟩⟩

/-- What the caller of `sql` gets. -/
def answered (answer : Except (List Char) (List Row)) : Except Thrown Json.Value :=
  match answer with
  | .ok rows => .ok (rowsValue rows)
  | .error reason => .error (.worker (encode reason))

theorem sql_of_written (answer : Except (List Char) (List Row)) (w : State σ conn) :
    (match written answer with
      | .error message => (.error (.worker (encode message)), w)
      | .ok text =>
          match Json.parse (encode text) with
          | none => (.error .syntaxError, w)
          | some v => (.ok v, w) : Except Thrown Json.Value × State σ conn) = (answered answer, w) := by
  cases answer with
  | error reason => rfl
  | ok rows =>
      simp only [written, Except.map, parse_rows]
      rfl

end Calls

end Sql

open Sql

/-- A call of `sql` returns or throws just what the engine comes to: the rows of the statements in order,
each a list of texts and nulls, for the parameters as they were given. A text is what was stored up to its
first zero, read as UTF-8, so a string without one comes back as it was bound. -/
theorem sql_answers {σ conn stmt ν : Type} (engine : Engine σ conn stmt ν) (query : Json.Text)
    (params : List (Param ν)) (wf : ∀ p ∈ params, p.Wf) (db : Json.Text) (w w' : State σ conn)
    (result : Except Thrown Json.Value) :
    ((∃ fuel, sql engine fuel query params db w = some (result, w')) ↔
      ∃ answer, Asked engine query params db w answer w' ∧ result = answered answer) ∧
    ∀ s : List Char, Char.ofNat 0 ∉ s → columnValue (.text (some (DeviceCert.strBytes s))) = .string (encode s) := by
  refine ⟨⟨?_, ?_⟩, ?_⟩
  · rintro ⟨fuel, returned⟩
    obtain ⟨⟨ended, left⟩, ran, is⟩ := Option.map_eq_some_iff.mp returned
    obtain ⟨answer, asked, rfl⟩ := (sessionSql_iff wf).mp ⟨fuel, ran⟩
    have both := (sql_of_written answer left).symm.trans is
    cases both
    exact ⟨answer, asked, rfl⟩
  · rintro ⟨answer, asked, rfl⟩
    obtain ⟨fuel, ran⟩ := (sessionSql_iff wf).mpr ⟨answer, asked, rfl⟩
    exact ⟨fuel, Option.map_eq_some_iff.mpr ⟨_, ran, sql_of_written answer w'⟩⟩
  · intro s clean
    have kept : (DeviceCert.strBytes s).takeWhile (· ≠ 0) = DeviceCert.strBytes s := by
      rw [List.takeWhile_eq_self_iff]
      intro b member
      simpa using fun zero : b = 0 => PoolSlots.zero_notMem_strBytes clean (zero ▸ member)
    rw [columnValue, Column.value, cString, kept, DeviceCert.strBytes, Cursor.utf8Bytes_ofList,
      Utf8.fromUtf8Lossy_encoded]
    rfl

namespace SqlSample

/-- An engine for `SELECT ?`: what is bound, and whether its row is still to come. -/
def select : Sqlite (Row × Bool) Unit Int where
  prepare _ _ := (.ok (some (), []), ([], true))
  parameterCount _ := 1
  bind _ _ value s :=
    match value with
    | .text bytes => (.ok (), (s.1 ++ [.text (some bytes)], s.2))
    | _ => (.ok (), (s.1 ++ [.null], s.2))
  step _ s := if s.2 then (.row s.1, (s.1, false)) else (.done, s)
  finalize _ s := s

theorem no_lexeme (x : Int) (lexeme : Json.Text) (written : (fun _ : Int => (none : Option Json.Text)) x = some lexeme) :
    Json.isNumber lexeme = true := by
  cases written

def doubles : Doubles Int where
  lexeme _ := none
  ofLexeme _ := 0
  whole := some
  isNumber_lexeme := no_lexeme

def engine : Engine (Row × Bool) Unit Unit Int where
  openDefault _ s := (.ok (), s)
  setPragmas _ s := (.ok (), s)
  close _ s := s
  on _ := select
  doubles := doubles
  debug s := s

/-- A quotation mark, a line end and a letter of two bytes. -/
def text : List Char := ['"', '\n', 'é']

def open_ : State (Row × Bool) Unit := ⟨some [], ([], false)⟩

def row : Row := [.text (some (DeviceCert.strBytes text))]

def left : State (Row × Bool) Unit := ⟨some [("app.db".toList, ())], (row, false)⟩

theorem asked : Asked engine (encode "SELECT ?".toList) [.string (encode text)] (encode "app".toList) open_
    (.ok [row]) left := by
  have legal : validDbName (decode (encode "app".toList)) = true := by
    rw [decode_encode]
    decide
  have opened : handle engine (decode (encode "app".toList) ++ dbSuffix) open_ =
      (.ok (), ⟨some [("app.db".toList, ())], ([], false)⟩) := by
    rw [decode_encode]
    rfl
  have value : Param.bound doubles 0 (.string (encode text)) = .ok (.text (DeviceCert.strBytes text)) := by
    rw [Param.bound, decode_encode, textBound, if_neg (by decide +kernel), if_neg (by decide +kernel)]
  have given : bindParams select (Param.bound doubles) () 0 [.string (encode text)] ([], true) =
      (.ok (), (row, true)) := by
    rw [bindParams, value]
    rfl
  have began : boundStatement select (Param.bound doubles) (decode (encode "SELECT ?".toList))
      [.string (encode text)] ([], false) = (.ok (), (row, true)) := by
    have prepared : select.prepare (DeviceCert.strBytes "SELECT ?".toList) ([], false) =
      (.ok (some (), []), ([], true)) := rfl
    rw [decode_encode, boundStatement, if_neg (by decide +kernel), prepared]
    dsimp only
    rw [if_neg (by decide +kernel), if_neg fun other => other rfl, given]
  have ran : Queried select doubles (decode (encode "SELECT ?".toList)) [.string (encode text)] ([], false)
      (.ok [row]) (row, false) :=
    .statement (List.cons_ne_nil _ _) began (.row rfl (.done rfl))
  exact .queried legal opened ran

end SqlSample

open SqlSample in
theorem sql_answers_select : ∃ fuel,
    sql engine fuel (encode "SELECT ?".toList) [.string (encode text)] (encode "app".toList) open_ =
      some (.ok (.array [.array [.string (encode text)]]), left) := by
  have wf : ∀ p ∈ [(.string (encode text) : Param Int)], p.Wf := by
    intro p member
    rw [List.mem_singleton.mp member]
    trivial
  have back := (sql_answers engine (encode "SELECT ?".toList) [.string (encode text)] wf (encode "app".toList)
    open_ left (.ok (.array [.array [.string (encode text)]]))).2 text (by decide)
  refine (sql_answers engine (encode "SELECT ?".toList) [.string (encode text)] wf (encode "app".toList)
    open_ left (.ok (.array [.array [.string (encode text)]]))).1.mpr ⟨.ok [row], asked, ?_⟩
  rw [answered, rowsValue, List.map_singleton, rowValue, row, List.map_singleton, back]

end Freehold
