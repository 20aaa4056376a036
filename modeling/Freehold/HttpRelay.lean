import Freehold.Lib.Json
import Freehold.Lib.Simulation
import Freehold.RelayAuth
import Freehold.RelayDelivery
import Freehold.SessionExport

set_option autoImplicit false

/- The relay adapter that calls the server over HTTP, beside the one that keeps its logs in memory. -/
namespace Freehold

namespace HttpRelay

open Relay (Text)

section Base64

/-- The alphabet of `btoa`. -/
def symbolOf (n : Nat) : Char :=
  if n < 26 then Char.ofNat (65 + n)
  else if n < 52 then Char.ofNat (71 + n)
  else if n < 62 then Char.ofNat (n - 4)
  else if n = 62 then '+'
  else '/'

def sextets : List UInt8 → List Nat
  | a :: b :: c :: rest =>
      a.toNat / 4 :: (a.toNat % 4 * 16 + b.toNat / 16) :: (b.toNat % 16 * 4 + c.toNat / 64) ::
        c.toNat % 64 :: sextets rest
  | [a, b] => [a.toNat / 4, a.toNat % 4 * 16 + b.toNat / 16, b.toNat % 16 * 4]
  | [a] => [a.toNat / 4, a.toNat % 4 * 16]
  | [] => []

/-- `btoa` of the bytes as characters. -/
def b64enc (bytes : List UInt8) : Text :=
  (sextets bytes).map symbolOf ++ List.replicate ((3 - bytes.length % 3) % 3) '='

def isAsciiSpace (c : Char) : Bool :=
  c = ' ' || c = '\t' || c = '\n' || c = '\r' || c = Char.ofNat 12

/-- Without one or two equals signs at its end. -/
def unpadded (s : Text) : Text :=
  match s.reverse with
  | '=' :: '=' :: rest => rest.reverse
  | '=' :: rest => rest.reverse
  | _ => s

/-- `atob`, which throws where this is `none`. -/
def b64dec (s : Text) : Option (List UInt8) :=
  let data := s.filter fun c => !isAsciiSpace c
  let data := if data.length % 4 = 0 then unpadded data else data
  if data.length % 4 = 1 || !data.all Relay.isSymbol then none
  else some (Relay.pack (data.filterMap Relay.symbolValue))

variable {bytes other : List UInt8}

theorem symbolOf_value {n : Nat} (small : n < 64) :
    Relay.isSymbol (symbolOf n) = true ∧ Relay.symbolValue (symbolOf n) = some n ∧ symbolOf n ≠ '=' ∧
      isAsciiSpace (symbolOf n) = false := by
  revert n
  decide +kernel

theorem sextets_lt : ∀ n ∈ sextets bytes, n < 64 := by
  induction bytes using sextets.induct with
  | case1 a b c rest ih =>
      have ha := a.toNat_lt
      have hb := b.toNat_lt
      have hc := c.toNat_lt
      simp only [sextets, List.forall_mem_cons]
      exact ⟨by omega, by omega, by omega, by omega, ih⟩
  | case2 a b =>
      have ha := a.toNat_lt
      have hb := b.toNat_lt
      intro n member
      simp only [sextets, List.mem_cons, List.not_mem_nil, or_false] at member
      omega
  | case3 a =>
      have ha := a.toNat_lt
      intro n member
      simp only [sextets, List.mem_cons, List.not_mem_nil, or_false] at member
      omega
  | case4 => simp [sextets]

/-- The values of the symbols are the bytes again. -/
theorem pack_sextets (bytes : List UInt8) : Relay.pack (sextets bytes) = bytes := by
  have byte {n : Nat} {b : UInt8} (same : n = b.toNat) : UInt8.ofNat n = b := by
    rw [same, UInt8.ofNat_toNat]
  induction bytes using sextets.induct with
  | case1 a b c rest ih =>
      have ha := a.toNat_lt
      have hb := b.toNat_lt
      have hc := c.toNat_lt
      have first : a.toNat / 4 * 4 + (a.toNat % 4 * 16 + b.toNat / 16) / 16 = a.toNat := by omega
      have next : (a.toNat % 4 * 16 + b.toNat / 16) % 16 * 16 + (b.toNat % 16 * 4 + c.toNat / 64) / 4 =
          b.toNat := by omega
      have last : (b.toNat % 16 * 4 + c.toNat / 64) % 4 * 64 + c.toNat % 64 = c.toNat := by omega
      rw [sextets, Relay.pack, ih, byte first, byte next, byte last]
  | case2 a b =>
      have ha := a.toNat_lt
      have hb := b.toNat_lt
      have first : a.toNat / 4 * 4 + (a.toNat % 4 * 16 + b.toNat / 16) / 16 = a.toNat := by omega
      have next : (a.toNat % 4 * 16 + b.toNat / 16) % 16 * 16 + b.toNat % 16 * 4 / 4 = b.toNat := by omega
      rw [sextets, Relay.pack, byte first, byte next]
  | case3 a =>
      have first : a.toNat / 4 * 4 + a.toNat % 4 * 16 / 16 = a.toNat := by omega
      rw [sextets, Relay.pack, byte first]
  | case4 => rfl

theorem length_sextets (bytes : List UInt8) :
    (sextets bytes).length + (3 - bytes.length % 3) % 3 = 4 * ((bytes.length + 2) / 3) := by
  induction bytes using sextets.induct with
  | case1 a b c rest ih =>
      simp only [sextets, List.length_cons]
      omega
  | case2 a b => simp [sextets]
  | case3 a => simp [sextets]
  | case4 => rfl

theorem length_b64enc (bytes : List UInt8) : (b64enc bytes).length = 4 * ((bytes.length + 2) / 3) := by
  rw [b64enc, List.length_append, List.length_map, List.length_replicate, length_sextets]

theorem symbols_sextets (bytes : List UInt8) :
    ∀ c ∈ (sextets bytes).map symbolOf, Relay.isSymbol c = true ∧ c ≠ '=' ∧ isAsciiSpace c = false := by
  intro c member
  obtain ⟨n, listed, rfl⟩ := List.mem_map.mp member
  obtain ⟨symbol, _, other, solid⟩ := symbolOf_value (sextets_lt n listed)
  exact ⟨symbol, other, solid⟩

theorem values_sextets (bytes : List UInt8) :
    ((sextets bytes).map symbolOf).filterMap Relay.symbolValue = sextets bytes := by
  have small := @sextets_lt bytes
  generalize sextets bytes = values at small
  induction values with
  | nil => rfl
  | cons n values ih =>
      have here := (symbolOf_value (small n List.mem_cons_self)).2.1
      rw [List.map_cons, List.filterMap_cons, here, ih fun m member => small m (List.mem_cons_of_mem _ member)]

/-- The server reads the bytes that were written. -/
theorem bufferFrom_b64enc (bytes : List UInt8) : Relay.bufferFrom (b64enc bytes) = bytes := by
  have front : (b64enc bytes).takeWhile (· ≠ '=') = (sextets bytes).map symbolOf := by
    rw [b64enc, List.takeWhile_append_of_pos]
    · cases pad : (3 - bytes.length % 3) % 3 with
      | zero => simp
      | succ n => simp [List.replicate_succ]
    · intro c member
      simpa using (symbols_sextets bytes c member).2.1
  rw [Relay.bufferFrom, front, values_sextets, pack_sextets]

theorem b64enc_injective (same : b64enc bytes = b64enc other) : bytes = other := by
  rw [← bufferFrom_b64enc bytes, same, bufferFrom_b64enc]

theorem isB64_b64enc (short : (b64enc bytes).length ≤ Relay.maxBody) : Relay.isB64 (b64enc bytes) = true := by
  have back : (b64enc bytes).dropWhile Relay.isSymbol = List.replicate ((3 - bytes.length % 3) % 3) '=' := by
    rw [b64enc, List.dropWhile_append_of_pos fun c member => (symbols_sextets bytes c member).1]
    cases pad : (3 - bytes.length % 3) % 3 with
    | zero => rfl
    | succ n =>
        have symbol : Relay.isSymbol '=' = false := by decide
        rw [List.replicate_succ, List.dropWhile_cons, symbol, if_neg Bool.false_ne_true]
  rw [Relay.isB64, back]
  simp only [List.length_replicate, List.all_replicate, Bool.and_eq_true, decide_eq_true_eq, short, and_true]
  constructor
  · split <;> rfl
  · omega

/-- The client reads the bytes that were written. -/
theorem b64dec_b64enc (bytes : List UInt8) : b64dec (b64enc bytes) = some bytes := by
  have solid : (b64enc bytes).filter (fun c => !isAsciiSpace c) = b64enc bytes := by
    rw [List.filter_eq_self]
    intro c member
    rw [b64enc, List.mem_append] at member
    rcases member with symbol | pad
    · rw [(symbols_sextets bytes c symbol).2.2]
      rfl
    · rw [List.eq_of_mem_replicate pad]
      decide
  have whole : (b64enc bytes).length % 4 = 0 := by
    rw [length_b64enc]
    omega
  have bare : unpadded (b64enc bytes) = (sextets bytes).map symbolOf := by
    have last : ∀ c, ((sextets bytes).map symbolOf).reverse.head? = some c → c ≠ '=' := by
      intro c is
      exact (symbols_sextets bytes c (List.mem_reverse.mp (List.mem_of_head? is))).2.1
    have pads : (3 - bytes.length % 3) % 3 = 0 ∨ (3 - bytes.length % 3) % 3 = 1 ∨
        (3 - bytes.length % 3) % 3 = 2 := by omega
    have back : ((sextets bytes).map symbolOf).reverse.reverse = (sextets bytes).map symbolOf :=
      List.reverse_reverse _
    rw [unpadded, b64enc, List.reverse_append, List.reverse_replicate]
    generalize ((sextets bytes).map symbolOf).reverse = symbols at last back
    rcases pads with pad | pad | pad
    · rw [pad]
      cases symbols with
      | nil => simp [← back]
      | cons c rest =>
          have other := last c rfl
          simp [other]
    · rw [pad]
      cases symbols with
      | nil => simp [← back]
      | cons c rest =>
          have other := last c rfl
          simp [other, ← back]
    · rw [pad]
      simp [← back]
  have symbols : ((sextets bytes).map symbolOf).all Relay.isSymbol = true :=
    List.all_eq_true.mpr fun c member => (symbols_sextets bytes c member).1
  have count : ((sextets bytes).map symbolOf).length % 4 ≠ 1 := by
    have length := length_sextets bytes
    rw [List.length_map]
    omega
  rw [b64dec, solid, if_pos whole, bare, symbols, values_sextets, pack_sextets, decide_eq_false count]
  rfl

end Base64

/-- A call of the adapter. -/
inductive Op where
  | put (sealed : List UInt8)
  | list (since : Nat)
  | get (seq : Nat)

namespace Op

def method : Op → Relay.Method
  | put _ => .pushBlob
  | list _ => .listBlobs
  | get _ => .getBlob

/-- What is signed for it beside the bucket. -/
def arg : Op → List UInt8
  | put sealed => sealed
  | list _ => []
  | get _ => []

def message (op : Op) (syncId pubkey sig : List UInt8) : Relay.Msg where
  syncId := some (b64enc syncId)
  pubkey := some (b64enc pubkey)
  sig := some (b64enc sig)
  blob := match op with | put sealed => some (b64enc sealed) | _ => none
  since := match op with | list since => some since | _ => none
  seq := match op with | get seq => some seq | _ => none

end Op

/-- What a call resolves to. -/
inductive Value where
  | seq (n : Nat)
  | count (n : Nat)
  | blob (bytes : Option (List UInt8))
  deriving DecidableEq, Repr

/-- What a call throws. -/
inductive Failure where
  | network
  | refused (err : Relay.Err)
  | invalidCharacter
  deriving DecidableEq, Repr

/-- How a call reads the answer. -/
def Op.read : Op → Relay.Answer → Except Failure Value
  | _, .denied err => .error (.refused err)
  | .put _, .pushed seq _ => .ok (.seq seq)
  | .put _, _ => .ok (.seq 0)
  | .list _, .count n => .ok (.count n)
  | .list _, _ => .ok (.count 0)
  | .get _, .blob (some text) =>
      if text = [] then .ok (.blob none)
      else
        match b64dec text with
        | some bytes => .ok (.blob (some bytes))
        | none => .error .invalidCharacter
  | .get _, _ => .ok (.blob none)

section Body

def member (name : String) (text : Option Text) : List (Json.Text × Json.Value) :=
  text.toList.map fun text => (Utf16.encode name.toList, .string (Utf16.encode text))

/-- The text of the request: `JSON.stringify` of its fields. -/
def body (msg : Relay.Msg) : Json.Text :=
  Json.print Json.stringify (.object (member "syncId" msg.syncId ++ member "blob" msg.blob ++
    member "since" (msg.since.map (Nat.toDigits 10)) ++ member "seq" (msg.seq.map (Nat.toDigits 10)) ++
    member "pubkey" msg.pubkey ++ member "sig" msg.sig))

/-- The server reads no more of a body, and destroys the connection. -/
def Fits (msg : Relay.Msg) : Prop := (body msg).length ≤ Relay.maxBody

instance (msg : Relay.Msg) : Decidable (Fits msg) := inferInstanceAs (Decidable (_ ≤ _))

end Body

/-- What becomes of a request on the way. -/
inductive Fate where
  | answered
  | lost
  | unanswered
  deriving DecidableEq, Repr

/-- The key of a bucket: the `dek` of a vault and the `dbUuid`. -/
structure Signer where
  dek : Vector UInt8 32
  dbUuid : Vector UInt8 16

section Calls

variable (ed : Ed25519) (hkdf : Vector UInt8 32 → List UInt8 → Seed) (sha256 : List UInt8 → Vector UInt8 32)
  (ed25519Verify : List UInt8 → List UInt8 → List UInt8 → Bool)

def Signer.pubkey (signer : Signer) : PublicKey := RelayAuth.publicKey ed hkdf signer.dek signer.dbUuid

def Signer.syncId (signer : Signer) : List UInt8 :=
  (RelayAuth.syncIdFromPubkey sha256 (signer.pubkey ed hkdf)).toList

/-- The request of a call with the credential the vault signs for it. -/
def Signer.request (signer : Signer) (op : Op) : Relay.Msg :=
  let (pubkey, sig) := RelayAuth.sign ed hkdf sha256 signer.dek signer.dbUuid (RelayAuth.code op.method) op.arg
  op.message (signer.syncId ed hkdf sha256) pubkey.toList sig.toList

/-- A call: what it returns or throws, and the server after it. -/
def call (signer : Signer) (op : Op) (now : Rat) (stream : Nat) (fate : Fate) (s : Relay.State Text) :
    Except Failure Value × Relay.State Text :=
  let msg := signer.request ed hkdf sha256 op
  if fate = .lost ∨ ¬Fits msg then (.error .network, s)
  else
    match Relay.step sha256 ed25519Verify id (.request now stream op.method msg) s with
    | (some answer, s) => (if fate = .unanswered then .error .network else op.read answer, s)
    | (none, s) => (.error .network, s)

/-- A call, or anything else that reaches the server. -/
inductive NetEvent where
  | call (signer : Signer) (op : Op) (now : Rat) (stream : Nat) (fate : Fate)
  | other (event : Relay.Event)

inductive Outcome where
  | call (result : Except Failure Value)
  | other (answer : Option Relay.Answer)
  deriving DecidableEq

def netStep (event : NetEvent) (s : Relay.State Text) : Outcome × Relay.State Text :=
  match event with
  | .call signer op now stream fate =>
      let (result, s) := call ed hkdf sha256 ed25519Verify signer op now stream fate s
      (.call result, s)
  | .other event =>
      let (answer, s) := Relay.step sha256 ed25519Verify id event s
      (.other answer, s)

end Calls

end HttpRelay

/-- The logs of the relay in memory, by the sync id in hexadecimal. -/
structure InMemoryRelay where
  logs : List Char → Option (List (List UInt8))

namespace InMemoryRelay

open HttpRelay (Op Value)

def new : InMemoryRelay := ⟨fun _ => none⟩

/-- `#log`, which begins a log where there is none. -/
def log (syncId : List UInt8) (r : InMemoryRelay) : List (List UInt8) × InMemoryRelay :=
  match r.logs (HexText.hexOf syncId) with
  | some l => (l, r)
  | none => ([], ⟨Function.update r.logs (HexText.hexOf syncId) (some [])⟩)

def put (syncId sealed : List UInt8) (r : InMemoryRelay) : Nat × InMemoryRelay :=
  let (l, r) := r.log syncId
  (l.length, ⟨Function.update r.logs (HexText.hexOf syncId) (some (l ++ [sealed]))⟩)

def list (syncId : List UInt8) (since : Nat) (r : InMemoryRelay) : Nat × InMemoryRelay :=
  let (l, r) := r.log syncId
  (l.length - since, r)

def get (syncId : List UInt8) (seq : Nat) (r : InMemoryRelay) : Option (List UInt8) × InMemoryRelay :=
  let (l, r) := r.log syncId
  (l[seq]?, r)

def apply (syncId : List UInt8) (op : Op) (r : InMemoryRelay) : Value × InMemoryRelay :=
  match op with
  | .put sealed => (.seq (r.put syncId sealed).1, (r.put syncId sealed).2)
  | .list since => (.count (r.list syncId since).1, (r.list syncId since).2)
  | .get seq => (.blob (r.get syncId seq).1, (r.get syncId seq).2)

/-- The log of a sync id. -/
def held (r : InMemoryRelay) (syncId : List UInt8) : List (List UInt8) :=
  (r.logs (HexText.hexOf syncId)).getD []

section Held

variable {syncId other sealed : List UInt8} {r : InMemoryRelay}

theorem hexOf_injective (same : HexText.hexOf syncId = HexText.hexOf other) : syncId = other := by
  have read := HexText.hexToBytes_hexOf syncId
  rw [same, HexText.hexToBytes_hexOf, Cursor.Outcome.ok.injEq] at read
  exact read.symm

theorem log_fst (syncId : List UInt8) (r : InMemoryRelay) : (r.log syncId).1 = r.held syncId := by
  unfold log held
  cases r.logs (HexText.hexOf syncId) <;> rfl

theorem put_fst (syncId sealed : List UInt8) (r : InMemoryRelay) :
    (r.put syncId sealed).1 = (r.held syncId).length := congrArg List.length (log_fst syncId r)

theorem list_fst (syncId : List UInt8) (since : Nat) (r : InMemoryRelay) :
    (r.list syncId since).1 = (r.held syncId).length - since :=
  congrArg (fun l : List (List UInt8) => l.length - since) (log_fst syncId r)

theorem get_fst (syncId : List UInt8) (seq : Nat) (r : InMemoryRelay) :
    (r.get syncId seq).1 = (r.held syncId)[seq]? :=
  congrArg (fun l : List (List UInt8) => l[seq]?) (log_fst syncId r)

theorem held_log (syncId other : List UInt8) (r : InMemoryRelay) : (r.log syncId).2.held other = r.held other := by
  unfold log held
  cases found : r.logs (HexText.hexOf syncId) with
  | some l => rfl
  | none =>
      by_cases same : HexText.hexOf other = HexText.hexOf syncId
      · simp [same, found]
      · simp [same]

theorem held_put (syncId other sealed : List UInt8) (r : InMemoryRelay) : (r.put syncId sealed).2.held other =
    if other = syncId then r.held other ++ [sealed] else r.held other := by
  have before := held_log syncId other r
  unfold put held at *
  dsimp only
  by_cases same : other = syncId
  · subst same
    rw [log_fst]
    simp [held]
  · have apart : HexText.hexOf other ≠ HexText.hexOf syncId := fun equal => same (hexOf_injective equal)
    simp [same, apart, before]

end Held

end InMemoryRelay

namespace HttpRelay

open InMemoryRelay
open Relay (Text)

section Specification

variable (ed : Ed25519) (hkdf : Vector UInt8 32 → List UInt8 → Seed) (sha256 : List UInt8 → Vector UInt8 32)

/-- The longest blob whose request is read. -/
def maxSealed : Nat := 9437034

/-- A cursor is an integer that a number holds exactly. -/
def Op.Safe : Op → Prop
  | put sealed => sealed.length ≤ maxSealed
  | list since => since < 2 ^ 53
  | get seq => seq < 2 ^ 53

def rateLimited : Failure := .refused ⟨"resource_exhausted", "rate limit exceeded", 429⟩

/-- The same over HTTP, where an empty blob is no blob. -/
def overHttp : Value → Value
  | .blob bytes => .blob (bytes.filter (· ≠ []))
  | value => value

/-- What the relay in memory allows for each event: a call does what it does there and returns what it
returns there, or is refused for its rate and does nothing, or fails on the way. -/
inductive Serves : InMemoryRelay → NetEvent → Outcome → InMemoryRelay → Prop where
  | done {r : InMemoryRelay} {signer : Signer} {op : Op} {now : Rat} {stream : Nat} (safe : op.Safe) :
      Serves r (.call signer op now stream .answered)
        (.call (.ok (overHttp (r.apply (signer.syncId ed hkdf sha256) op).1)))
        (r.apply (signer.syncId ed hkdf sha256) op).2
  | limited {r : InMemoryRelay} {signer : Signer} {op : Op} {now : Rat} {stream : Nat} :
      Serves r (.call signer op now stream .answered) (.call (.error rateLimited)) r
  | tooLong {r : InMemoryRelay} {signer : Signer} {op : Op} {now : Rat} {stream : Nat} {fate : Fate}
      (long : ¬op.Safe) : Serves r (.call signer op now stream fate) (.call (.error .network)) r
  | lost {r : InMemoryRelay} {signer : Signer} {op : Op} {now : Rat} {stream : Nat} :
      Serves r (.call signer op now stream .lost) (.call (.error .network)) r
  | unanswered {r r' : InMemoryRelay} {signer : Signer} {op : Op} {now : Rat} {stream : Nat}
      (done : r' = r ∨ r' = (r.apply (signer.syncId ed hkdf sha256) op).2) :
      Serves r (.call signer op now stream .unanswered) (.call (.error .network)) r'
  | posted {r : InMemoryRelay} {now : Rat} {stream seq : Nat} {told : List Nat} {msg : Relay.Msg}
      {syncId sealed : List UInt8} (bucket : msg.syncId = some (b64enc syncId))
      (sent : msg.blob = some (b64enc sealed)) (index : seq = (r.held syncId).length) :
      Serves r (.other (.request now stream .pushBlob msg)) (.other (some (.pushed seq told)))
        (r.put syncId sealed).2
  | elsewhere {r : InMemoryRelay} {event : Relay.Event} {answer : Option Relay.Answer}
      (apart : ∀ syncId, Relay.put? (b64enc syncId) (event, answer) = none) :
      Serves r (.other event) (.other answer) r

/-- Blobs are written as `btoa` writes them. -/
def Spelled : NetEvent → Prop
  | .call _ op _ _ _ =>
      match op with
      | .list since => since < 2 ^ 53
      | .get seq => seq < 2 ^ 53
      | .put _ => True
  | .other (.request _ _ _ msg) => ∀ blob, msg.blob = some blob → ∃ sealed, blob = b64enc sealed
  | .other (.closed _) => True

/-- The logs of the server are the logs in memory. -/
def Mirrors (s : Relay.State Text) (r : InMemoryRelay) : Prop :=
  ∀ syncId, s.log (b64enc syncId) = (r.held syncId).map b64enc

end Specification

section Bodies

variable {text : Text}

/-- A character that needs no escape. -/
def isPlain (c : Char) : Bool := Relay.isSymbol c || c = '='

theorem small_of_isPlain {c : Char} (plain : isPlain c = true) : c.toNat < 128 := by
  simp only [isPlain, Relay.isSymbol, Bool.or_eq_true, Bool.and_eq_true, decide_eq_true_eq] at plain
  have le {d : Char} (below : c ≤ d) : c.toNat ≤ d.toNat := below
  rcases plain with ((((⟨_, top⟩ | ⟨_, top⟩) | ⟨_, top⟩) | rfl) | rfl) | rfl
  · have bound := le top
    have last : 'Z'.toNat = 90 := rfl
    omega
  · have bound := le top
    have last : 'z'.toNat = 122 := rfl
    omega
  · have bound := le top
    have last : '9'.toNat = 57 := rfl
    omega
  · decide
  · decide
  · decide

theorem written_of_isPlain {c : Char} (plain : isPlain c = true) :
    Json.written (Utf16.mark c) = [Utf16.mark c] := by
  have small := small_of_isPlain plain
  have all : ∀ n < 128, isPlain (Char.ofNat n) = true →
      Json.written (Utf16.mark (Char.ofNat n)) = [Utf16.mark (Char.ofNat n)] := by decide +kernel
  rw [← Char.ofNat_toNat c] at plain ⊢
  exact all c.toNat small plain

theorem length_stringify (plain : ∀ c ∈ text, isPlain c = true) :
    (Json.stringify (Utf16.encode text)).length = text.length + 2 := by
  rw [Utf16.encode_ascii fun c member => small_of_isPlain (plain c member), Json.stringify_plain]
  · simp
  · intro u member
    obtain ⟨c, listed, rfl⟩ := List.mem_map.mp member
    exact written_of_isPlain (plain c listed)

theorem plain_b64enc (bytes : List UInt8) : ∀ c ∈ b64enc bytes, isPlain c = true := by
  intro c member
  rw [b64enc, List.mem_append] at member
  rcases member with symbol | pad
  · rw [isPlain, (symbols_sextets bytes c symbol).1]
    rfl
  · rw [List.eq_of_mem_replicate pad]
    decide

theorem length_quoted (bytes : List UInt8) :
    (Json.stringify (Utf16.encode (b64enc bytes))).length = 4 * ((bytes.length + 2) / 3) + 2 := by
  rw [length_stringify (plain_b64enc bytes), length_b64enc]

theorem plain_digits (n : Nat) : ∀ c ∈ Nat.toDigits 10 n, isPlain c = true := by
  intro c member
  have digit := Nat.isDigit_of_mem_toDigits (by decide) (by decide) member
  simp only [Char.isDigit, Bool.and_eq_true, decide_eq_true_eq] at digit
  have low : '0' ≤ c := digit.1
  have high : c ≤ '9' := digit.2
  simp [isPlain, Relay.isSymbol, low, high]

theorem length_digits {n : Nat} (safe : n < 2 ^ 53) :
    (Json.stringify (Utf16.encode (Nat.toDigits 10 n))).length ≤ 18 := by
  have short := Nat.toDigits_length 10 n 16 (by decide) (by omega)
  rw [length_stringify (plain_digits n)]
  omega

variable {syncId pubkey sig : List UInt8}

/-- The request of a put is 200 characters around its blob. -/
theorem length_body_put (lengths : syncId.length = 16 ∧ pubkey.length = 32 ∧ sig.length = 64)
    (sealed : List UInt8) : (body (Op.message (.put sealed) syncId pubkey sig)).length =
      200 + 4 * ((sealed.length + 2) / 3) := by
  obtain ⟨idLength, pubLength, sigLength⟩ := lengths
  have names : (Json.stringify (Utf16.encode "syncId".toList)).length = 8 ∧
      (Json.stringify (Utf16.encode "blob".toList)).length = 6 ∧
      (Json.stringify (Utf16.encode "pubkey".toList)).length = 8 ∧
      (Json.stringify (Utf16.encode "sig".toList)).length = 5 := by decide +kernel
  simp only [body, member, Op.message, Option.toList_some, Option.map_none, Option.toList_none,
    List.map_cons, List.map_nil, List.append_nil, List.cons_append, List.nil_append, Json.print,
    Json.printMembers, List.length_cons, List.length_append, List.length_nil, names, length_quoted, idLength,
    pubLength, sigLength]
  omega

theorem length_body_list (lengths : syncId.length = 16 ∧ pubkey.length = 32 ∧ sig.length = 64) {since : Nat}
    (safe : since < 2 ^ 53) : (body (Op.message (.list since) syncId pubkey sig)).length ≤ 217 := by
  obtain ⟨idLength, pubLength, sigLength⟩ := lengths
  have names : (Json.stringify (Utf16.encode "syncId".toList)).length = 8 ∧
      (Json.stringify (Utf16.encode "since".toList)).length = 7 ∧
      (Json.stringify (Utf16.encode "pubkey".toList)).length = 8 ∧
      (Json.stringify (Utf16.encode "sig".toList)).length = 5 := by decide +kernel
  have cursor := length_digits safe
  simp only [body, member, Op.message, Option.toList_some, Option.map_none, Option.map_some,
    Option.toList_none, List.map_cons, List.map_nil, List.append_nil, List.cons_append, List.nil_append,
    Json.print, Json.printMembers, List.length_cons, List.length_append, List.length_nil, names, length_quoted,
    idLength, pubLength, sigLength]
  omega

theorem length_body_get (lengths : syncId.length = 16 ∧ pubkey.length = 32 ∧ sig.length = 64) {seq : Nat}
    (safe : seq < 2 ^ 53) : (body (Op.message (.get seq) syncId pubkey sig)).length ≤ 217 := by
  obtain ⟨idLength, pubLength, sigLength⟩ := lengths
  have names : (Json.stringify (Utf16.encode "syncId".toList)).length = 8 ∧
      (Json.stringify (Utf16.encode "seq".toList)).length = 5 ∧
      (Json.stringify (Utf16.encode "pubkey".toList)).length = 8 ∧
      (Json.stringify (Utf16.encode "sig".toList)).length = 5 := by decide +kernel
  have cursor := length_digits safe
  simp only [body, member, Op.message, Option.toList_some, Option.map_none, Option.map_some,
    Option.toList_none, List.map_cons, List.map_nil, List.append_nil, List.cons_append, List.nil_append,
    Json.print, Json.printMembers, List.length_cons, List.length_append, List.length_nil, names, length_quoted,
    idLength, pubLength, sigLength]
  omega

/-- A request is read if its blob is not too long. -/
theorem fits_iff (lengths : syncId.length = 16 ∧ pubkey.length = 32 ∧ sig.length = 64) {op : Op}
    (exact_ : ∀ n, op = .list n ∨ op = .get n → n < 2 ^ 53) :
    Fits (op.message syncId pubkey sig) ↔ op.Safe := by
  cases op with
  | put sealed =>
      rw [Fits, length_body_put lengths, Op.Safe, maxSealed, Relay.maxBody]
      omega
  | list since =>
      have safe := exact_ since (.inl rfl)
      have length := length_body_list lengths safe
      rw [Fits, Op.Safe, Relay.maxBody]
      omega
  | get seq =>
      have safe := exact_ seq (.inr rfl)
      have length := length_body_get lengths safe
      rw [Fits, Op.Safe, Relay.maxBody]
      omega

end Bodies

section Steps

variable {ed : Ed25519} {hkdf : Vector UInt8 32 → List UInt8 → Seed} {sha256 : List UInt8 → Vector UInt8 32}
  {ed25519Verify : List UInt8 → List UInt8 → List UInt8 → Bool} {signer : Signer} {op : Op}

/-- The server's library takes the signatures of the crate. -/
def Accepts (ed : Ed25519) (ed25519Verify : List UInt8 → List UInt8 → List UInt8 → Bool) : Prop :=
  ∀ seed msg, ed25519Verify (ed.publicKey seed).toList msg (ed.sign seed msg).toList = true

theorem short_of_safe (safe : op.Safe) : (b64enc op.arg).length ≤ Relay.maxBody := by
  rw [length_b64enc]
  cases op with
  | put sealed =>
      rw [Op.Safe, maxSealed] at safe
      rw [Op.arg, Relay.maxBody]
      omega
  | list since => simp [Op.arg]
  | get seq => simp [Op.arg]

theorem length_syncId (signer : Signer) : (signer.syncId ed hkdf sha256).length = 16 := Vector.length_toList

theorem field_b64enc {bytes : List UInt8} (short : (b64enc bytes).length ≤ Relay.maxBody) :
    Relay.field (some (b64enc bytes)) = some (b64enc bytes) := by
  rw [Relay.field, Option.filter_some, if_pos (isB64_b64enc short)]

/-- What the vault signs passes the checks of the server. -/
theorem checks_request (accepts : Accepts ed ed25519Verify) (safe : op.Safe) :
    Relay.checks sha256 ed25519Verify op.method (signer.request ed hkdf sha256 op) =
      .ok (b64enc (signer.syncId ed hkdf sha256), b64enc (signer.pubkey ed hkdf).toList) := by
  have short {n : Nat} (bytes : Vector UInt8 n) (few : n ≤ 64) :
      Relay.field (some (b64enc bytes.toList)) = some (b64enc bytes.toList) := by
    apply field_b64enc
    rw [length_b64enc, Vector.length_toList, Relay.maxBody]
    omega
  have signed : Relay.signedArg op.method (signer.request ed hkdf sha256 op) = op.arg := by
    cases op with
    | put sealed =>
        have blob := field_b64enc (short_of_safe safe)
        simp only [Relay.signedArg, Signer.request, Op.message, Op.method, Op.arg] at blob ⊢
        rw [blob]
        exact bufferFrom_b64enc sealed
    | list since => rfl
    | get seq => rfl
  have bucket : Relay.bucketIdFor sha256 (signer.pubkey ed hkdf).toList = signer.syncId ed hkdf sha256 := by
    rw [Relay.bucketIdFor, Signer.syncId, RelayAuth.syncIdFromPubkey]
    simp only [Vector.toList_take]
    rfl
  let sig := (RelayAuth.sign ed hkdf sha256 signer.dek signer.dbUuid (RelayAuth.code op.method) op.arg).2
  have id_field : Relay.field (signer.request ed hkdf sha256 op).syncId =
      some (b64enc (signer.syncId ed hkdf sha256)) := short _ (by decide)
  have pub_field : Relay.field (signer.request ed hkdf sha256 op).pubkey =
      some (b64enc (signer.pubkey ed hkdf).toList) := short _ (by decide)
  have sig_field : Relay.field (signer.request ed hkdf sha256 op).sig = some (b64enc sig.toList) :=
    short _ (by decide)
  have verified : ed25519Verify (signer.pubkey ed hkdf).toList
      (Relay.canonicalMessage op.method (signer.syncId ed hkdf sha256) op.arg) sig.toList = true := by
    rw [Signer.syncId, RelayAuth.canonicalMessage_eq]
    exact accepts _ _
  have lengths : ¬((signer.syncId ed hkdf sha256).length ≠ 16 ∨ (signer.pubkey ed hkdf).toList.length ≠ 32 ∨
      sig.toList.length ≠ 64) := by
    simp only [length_syncId, Vector.length_toList, ne_eq, not_true_eq_false, or_self, not_false_eq_true]
  rw [Relay.checks, signed, id_field, pub_field, sig_field]
  dsimp only
  rw [bufferFrom_b64enc, bufferFrom_b64enc, bufferFrom_b64enc, if_neg lengths, if_neg fun other => other bucket,
    verified]
  rfl

variable {s : Relay.State Text} {r : InMemoryRelay}

theorem Mirrors.of_buckets {s' : Relay.State Text} (mirrors : Mirrors s r) (same : s'.buckets = s.buckets) :
    Mirrors s' r := by
  intro syncId
  rw [Relay.State.log, same]
  exact mirrors syncId

theorem Mirrors.of_held {r' : InMemoryRelay} (mirrors : Mirrors s r)
    (same : ∀ syncId, r'.held syncId = r.held syncId) : Mirrors s r' := by
  intro syncId
  rw [same]
  exact mirrors syncId

/-- A blob at the end of a log. -/
theorem Mirrors.put (mirrors : Mirrors s r) (syncId sealed : List UInt8) {b : Relay.Bucket}
    (log : b.log = s.log (b64enc syncId) ++ [b64enc sealed]) :
    Mirrors (Relay.setBucket id (b64enc syncId) b s) (r.put syncId sealed).2 := by
  intro other
  rw [Relay.log_setBucket, held_put]
  by_cases same : other = syncId
  · rw [same, if_pos rfl, if_pos rfl, log, mirrors, List.map_append]
    rfl
  · rw [if_neg fun equal => same (b64enc_injective equal), if_neg same, mirrors]

theorem read_blob (seq : Nat) (blob : Option (List UInt8)) :
    Op.read (.get seq) (.blob (blob.map b64enc)) = .ok (overHttp (.blob blob)) := by
  cases blob with
  | none => rfl
  | some bytes =>
      rw [Option.map_some, Op.read, overHttp, Option.filter_some]
      by_cases empty : bytes = []
      · subst empty
        rfl
      · have shown : b64enc bytes ≠ [] := fun none_written => empty (b64enc_injective none_written)
        rw [if_neg shown, b64dec_b64enc]
        simp [empty]

/-- The handlers do what the relay in memory does. -/
theorem handle_request (mirrors : Mirrors s r) (safe : op.Safe) (stream : Nat) :
    let handled := Relay.handle id stream op.method (signer.request ed hkdf sha256 op)
      (b64enc (signer.syncId ed hkdf sha256)) s
    op.read handled.1 = .ok (overHttp (r.apply (signer.syncId ed hkdf sha256) op).1) ∧
      Mirrors handled.2 (r.apply (signer.syncId ed hkdf sha256) op).2 := by
  have length := congrArg List.length (mirrors (signer.syncId ed hkdf sha256))
  rw [List.length_map] at length
  cases op with
  | put sealed =>
      have blob : Relay.field (signer.request ed hkdf sha256 (.put sealed)).blob = some (b64enc sealed) :=
        field_b64enc (short_of_safe safe)
      simp only [Op.method, Relay.handle, blob]
      constructor
      · show Except.ok (Value.seq (s.log (b64enc (signer.syncId ed hkdf sha256))).length) = _
        rw [length, ← put_fst _ sealed]
        rfl
      · exact mirrors.put _ sealed rfl
  | list since =>
      constructor
      · show Except.ok (Value.count ((s.log (b64enc (signer.syncId ed hkdf sha256))).length - since)) = _
        rw [length, ← list_fst]
        rfl
      · exact mirrors.of_held fun other => held_log _ other r
  | get seq =>
      constructor
      · show Op.read (.get seq) (.blob (s.log (b64enc (signer.syncId ed hkdf sha256)))[seq]?) = _
        rw [mirrors, List.getElem?_map, read_blob, apply, get_fst]
      · exact mirrors.of_held fun other => held_log _ other r

theorem serves_call (accepts : Accepts ed ed25519Verify) (mirrors : Mirrors s r) {now : Rat} {stream : Nat}
    {fate : Fate} (exact_ : ∀ n, op = .list n ∨ op = .get n → n < 2 ^ 53) :
    ∃ r', Serves ed hkdf sha256 r (.call signer op now stream fate)
        (netStep ed hkdf sha256 ed25519Verify (.call signer op now stream fate) s).1 r' ∧
      Mirrors (netStep ed hkdf sha256 ed25519Verify (.call signer op now stream fate) s).2 r' := by
  have fits : Fits (signer.request ed hkdf sha256 op) ↔ op.Safe :=
    fits_iff ⟨length_syncId signer, Vector.length_toList, Vector.length_toList⟩ exact_
  by_cases safe : op.Safe
  · by_cases lost : fate = .lost
    · subst lost
      have off : netStep ed hkdf sha256 ed25519Verify (.call signer op now stream .lost) s =
          (.call (.error .network), s) := by
        rw [netStep, call, if_pos (.inl rfl)]
      rw [off]
      exact ⟨r, .lost, mirrors⟩
    · have sent : ¬(fate = .lost ∨ ¬Fits (signer.request ed hkdf sha256 op)) := by
        rintro (off | long)
        · exact lost off
        · exact long (fits.mpr safe)
      have passed := @checks_request ed hkdf sha256 ed25519Verify signer op accepts safe
      have answered : fate = .answered ∨ fate = .unanswered := by
        cases fate with
        | answered => exact .inl rfl
        | lost => exact absurd rfl lost
        | unanswered => exact .inr rfl
      rw [netStep, call]
      dsimp only
      rw [if_neg sent]
      cases token : (Relay.rateOk id now (b64enc (signer.pubkey ed hkdf).toList) s).1 with
      | false =>
          rw [Relay.step_limited passed token]
          have kept : Mirrors (Relay.rateOk id now (b64enc (signer.pubkey ed hkdf).toList) s).2 r :=
            mirrors.of_buckets rfl
          rcases answered with rfl | rfl
          · refine ⟨r, ?_, kept⟩
            cases op <;> exact .limited
          · exact ⟨r, .unanswered (.inl rfl), kept⟩
      | true =>
          rw [Relay.step_granted passed token]
          have drawn : Mirrors (Relay.rateOk id now (b64enc (signer.pubkey ed hkdf).toList) s).2 r :=
            mirrors.of_buckets rfl
          obtain ⟨read, kept⟩ := @handle_request ed hkdf sha256 signer op _ _ drawn safe stream
          refine ⟨_, ?_, kept⟩
          rcases answered with rfl | rfl
          · dsimp only
            rw [if_neg (by decide), read]
            exact .done safe
          · exact .unanswered (.inr rfl)
  · have off : netStep ed hkdf sha256 ed25519Verify (.call signer op now stream fate) s =
        (.call (.error .network), s) := by
      rw [netStep, call, if_pos (.inr fun fit => safe (fits.mp fit))]
    rw [off]
    exact ⟨r, .tooLong safe, mirrors⟩

/-- The same logs under other waiters. -/
theorem Mirrors.of_logs {s' : Relay.State Text} (mirrors : Mirrors s r) (same : ∀ key, s'.log key = s.log key) :
    Mirrors s' r := by
  intro syncId
  rw [same]
  exact mirrors syncId

/-- An event of another party that puts nothing. -/
theorem serves_elsewhere {event : Relay.Event} {answer : Option Relay.Answer} {s' : Relay.State Text}
    (mirrors : Mirrors s r) (noPut : ∀ key, Relay.put? key (event, answer) = none)
    (same : ∀ key, s'.log key = s.log key) :
    ∃ r', Serves ed hkdf sha256 r (.other event) (.other answer) r' ∧ Mirrors s' r' :=
  ⟨r, .elsewhere fun _ => noPut _, mirrors.of_logs same⟩

/-- What another party puts is in the log in memory too, if the bucket is spelled as the vault spells it. -/
theorem serves_pushed {now : Rat} {stream : Nat} {msg : Relay.Msg} {syncText : Text} {sealed : List UInt8}
    {told : List Nat} {b : Relay.Bucket} (mirrors : Mirrors s r) (bucket : msg.syncId = some syncText)
    (sent : msg.blob = some (b64enc sealed)) (log : b.log = s.log syncText ++ [b64enc sealed]) :
    ∃ r', Serves ed hkdf sha256 r (.other (.request now stream .pushBlob msg))
        (.other (some (.pushed (s.log syncText).length told))) r' ∧
      Mirrors (Relay.setBucket id syncText b s) r' := by
  by_cases own : ∃ syncId, syncText = b64enc syncId
  · obtain ⟨syncId, rfl⟩ := own
    have length := congrArg List.length (mirrors syncId)
    rw [List.length_map] at length
    exact ⟨_, .posted bucket sent length, mirrors.put syncId sealed log⟩
  · refine ⟨r, .elsewhere ?_, ?_⟩
    · intro syncId
      rw [Relay.put?, bucket, if_neg]
      rw [Option.some.injEq]
      exact fun same => own ⟨syncId, same⟩
    · intro syncId
      rw [Relay.log_setBucket, if_neg fun same => own ⟨syncId, same.symm⟩]
      exact mirrors syncId

theorem serves_handle {now : Rat} {stream : Nat} {method : Relay.Method} {msg : Relay.Msg} {syncText : Text}
    (mirrors : Mirrors s r) (bucket : msg.syncId = some syncText)
    (spelled : Spelled (.other (.request now stream method msg))) :
    ∃ r', Serves ed hkdf sha256 r (.other (.request now stream method msg))
        (.other (some (Relay.handle id stream method msg syncText s).1)) r' ∧
      Mirrors (Relay.handle id stream method msg syncText s).2 r' := by
  unfold Relay.handle
  cases method with
  | pushBlob =>
      cases sent : Relay.field msg.blob with
      | none => exact serves_elsewhere mirrors (fun _ => rfl) fun _ => rfl
      | some blob =>
          have carried := Relay.field_eq_some sent
          obtain ⟨sealed, rfl⟩ := spelled blob carried
          exact serves_pushed mirrors bucket carried rfl
  | listBlobs =>
      cases msg.since with
      | none => exact serves_elsewhere mirrors (fun _ => rfl) fun _ => rfl
      | some since => exact serves_elsewhere mirrors (fun _ => rfl) fun _ => rfl
  | getBlob =>
      cases msg.seq with
      | none => exact serves_elsewhere mirrors (fun _ => rfl) fun _ => rfl
      | some seq => exact serves_elsewhere mirrors (fun _ => rfl) fun _ => rfl
  | subscribe =>
      cases msg.since with
      | none => exact serves_elsewhere mirrors (fun _ => rfl) fun _ => rfl
      | some since =>
          apply serves_elsewhere mirrors fun _ => rfl
          intro key
          rw [Relay.log_setBucket]
          split
          · next same =>
            rw [same]
            rfl
          · rfl

theorem serves_other {event : Relay.Event} (mirrors : Mirrors s r) (spelled : Spelled (.other event)) :
    ∃ r', Serves ed hkdf sha256 r (.other event) (netStep ed hkdf sha256 ed25519Verify (.other event) s).1 r' ∧
      Mirrors (netStep ed hkdf sha256 ed25519Verify (.other event) s).2 r' := by
  rw [netStep]
  cases event with
  | closed stream =>
      apply serves_elsewhere mirrors fun _ => rfl
      intro key
      simp only [Relay.step, Relay.closeStream, Relay.State.log]
      cases s.buckets key <;> rfl
  | request now stream method msg =>
      cases passed : Relay.checks sha256 ed25519Verify method msg with
      | error err =>
          rw [Relay.step_refused passed]
          exact serves_elsewhere mirrors (fun _ => rfl) fun _ => rfl
      | ok texts =>
          obtain ⟨syncText, pubText⟩ := texts
          cases token : (Relay.rateOk id now pubText s).1 with
          | false =>
              rw [Relay.step_limited passed token]
              exact serves_elsewhere mirrors (fun _ => rfl) fun _ => rfl
          | true =>
              rw [Relay.step_granted passed token]
              exact serves_handle (mirrors.of_buckets rfl) (Relay.syncId_of_checks passed) spelled

end Steps

end HttpRelay

namespace HttpRelaySample

open HttpRelay

def verify (pubkey msg sig : List UInt8) : Bool :=
  decide (sig = pubkey ++ (Vector.ofFn fun i : Fin 32 => msg.getD i.val 0).toList)

theorem verify_accepts : Accepts sampleScheme verify := by
  intro seed msg
  apply decide_eq_true
  exact Vector.toList_append

def hkdf (dek : Vector UInt8 32) (_ : List UInt8) : Seed := dek

def sha256 (_ : List UInt8) : Vector UInt8 32 := Relay.sampleDigest

def signer : Signer := ⟨Vector.replicate 32 5, Vector.replicate 16 6⟩

/-- A blob of two bytes, put and fetched, and a put that is not answered. -/
def events : List NetEvent :=
  [.call signer (.put [7, 8]) 0 0 .answered, .call signer (.put [9]) 1 0 .unanswered,
    .call signer (.get 0) 2 0 .answered, .call signer (.list 0) 3 0 .answered]

def ran : List (NetEvent × Outcome) × Relay.State Relay.Text :=
  Simulation.trace (netStep sampleScheme hkdf sha256 verify) events (.new Relay.Text)

end HttpRelaySample

end Freehold
