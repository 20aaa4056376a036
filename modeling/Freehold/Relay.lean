import Freehold.Lib.Cursor
import Freehold.Lib.TokenBucket
import Mathlib.Data.Rat.Cast.Order
import Mathlib.Algebra.Order.Ring.Rat

set_option autoImplicit false

namespace Freehold

namespace Relay

/-- A string of a request. -/
abbrev Text := List Char

def maxBody : Nat := 12 * 1024 * 1024

def isSymbol (c : Char) : Bool :=
  ('A' ≤ c && c ≤ 'Z') || ('a' ≤ c && c ≤ 'z') || ('0' ≤ c && c ≤ '9') || c = '+' || c = '/'

/-- `/^[A-Za-z0-9+/]*={0,2}$/` and the length. -/
def isB64 (s : Text) : Bool :=
  let padding := s.dropWhile isSymbol
  padding.all (· = '=') && padding.length ≤ 2 && s.length ≤ maxBody

def symbolValue (c : Char) : Option Nat :=
  if 'A' ≤ c ∧ c ≤ 'Z' then some (c.toNat - 'A'.toNat)
  else if 'a' ≤ c ∧ c ≤ 'z' then some (c.toNat - 'a'.toNat + 26)
  else if '0' ≤ c ∧ c ≤ '9' then some (c.toNat - '0'.toNat + 52)
  else if c = '+' ∨ c = '-' then some 62
  else if c = '/' ∨ c = '_' then some 63
  else none

/-- Four values are three bytes; bits that fill no byte are dropped. -/
def pack : List Nat → List UInt8
  | a :: b :: c :: d :: rest =>
      UInt8.ofNat (a * 4 + b / 16) :: UInt8.ofNat (b % 16 * 16 + c / 4) ::
        UInt8.ofNat (c % 4 * 64 + d) :: pack rest
  | [a, b, c] => [UInt8.ofNat (a * 4 + b / 16), UInt8.ofNat (b % 16 * 16 + c / 4)]
  | [a, b] => [UInt8.ofNat (a * 4 + b / 16)]
  | _ => []

/-- `Buffer.from(s, 'base64')`, which ends at the padding. -/
def bufferFrom (s : Text) : List UInt8 := pack ((s.takeWhile (· ≠ '=')).filterMap symbolValue)

inductive Method where
  | pushBlob
  | listBlobs
  | getBlob
  | subscribe
  deriving DecidableEq, Repr

def Method.code : Method → UInt8
  | .pushBlob => 1
  | .listBlobs => 2
  | .getBlob => 3
  | .subscribe => 4

/-- The JSON body. A field that is no string is `none`; `since` and `seq` are what `toU64` makes of
them. -/
structure Msg where
  syncId : Option Text
  pubkey : Option Text
  sig : Option Text
  blob : Option Text
  since : Option Nat
  seq : Option Nat

/-- A code and a message. -/
structure Err where
  code : String
  message : String
  status : Nat
  deriving DecidableEq, Repr

inductive Answer where
  | denied (err : Err)
  /-- The index of the blob, and the streams that are told of it. -/
  | pushed (seq : Nat) (told : List Nat)
  | count (n : Nat)
  | blob (blob : Option Text)
  /-- The indices a new stream begins with. -/
  | stream (indices : List Nat)
  deriving DecidableEq, Repr

/-- The log of a bucket and its waiters: a stream and the index it asked for. -/
structure Bucket where
  log : List Text
  waiters : List (Nat × Nat)
  deriving DecidableEq

def Bucket.empty : Bucket := ⟨[], []⟩

/-- The state. The maps are keyed by what `name` makes of a text. -/
structure State (κ : Type) where
  buckets : κ → Option Bucket
  limiters : κ → Option (TokenBucket.Bucket Rat)

def State.new (κ : Type) : State κ := ⟨fun _ => none, fun _ => none⟩

def syncIdLabel : List UInt8 := Cursor.utf8Bytes "freehold-sync-id-v1"
def msgDomain : List UInt8 := Cursor.utf8Bytes "freehold-relay-auth-v1"

/-- A token for each hundredth of a second; times are in milliseconds. -/
def refillPerMs : Rat := 100 / 1000
def burst : Rat := 500

variable {κ γ : Type} (sha256 : List UInt8 → Vector UInt8 32)
  (ed25519Verify : List UInt8 → List UInt8 → List UInt8 → Bool)

def bucketIdFor (pubkey : List UInt8) : List UInt8 := (sha256 (syncIdLabel ++ pubkey)).toList.take 16

def canonicalMessage (method : Method) (syncId arg : List UInt8) : List UInt8 :=
  msgDomain ++ [method.code] ++ syncId ++ Cursor.toLe 4 arg.length ++ arg

/-- A field that is a base64 string. -/
def field (s : Option Text) : Option Text := s.filter isB64

/-- What a request signs beside its bucket: the blob of a push, nothing for a read. -/
def signedArg (method : Method) (msg : Msg) : List UInt8 :=
  match method, field msg.blob with
  | .pushBlob, some blob => bufferFrom blob
  | _, _ => []

/-- The checks of `authorize` before the rate: the sync id and the public key of a request that
passes, as it spells them. -/
def checks (method : Method) (msg : Msg) : Except Err (Text × Text) :=
  match field msg.syncId with
  | none => .error ⟨"invalid_argument", "syncId must be base64", 400⟩
  | some syncText =>
      match field msg.pubkey, field msg.sig with
      | some pubText, some sigText =>
          let syncId := bufferFrom syncText
          let pubkey := bufferFrom pubText
          let sig := bufferFrom sigText
          if syncId.length ≠ 16 ∨ pubkey.length ≠ 32 ∨ sig.length ≠ 64 then
            .error ⟨"unauthenticated", "bad relay-auth field length", 401⟩
          else if bucketIdFor sha256 pubkey ≠ syncId then
            .error ⟨"permission_denied", "sync_id is not the bucket for this key", 403⟩
          else if !ed25519Verify pubkey (canonicalMessage method syncId (signedArg method msg)) sig then
            .error ⟨"unauthenticated", "relay-auth signature invalid", 401⟩
          else .ok (syncText, pubText)
      | _, _ => .error ⟨"unauthenticated", "missing relay-auth pubkey/sig", 401⟩

variable [DecidableEq κ] (name : Text → κ)

/-- `rateOk`. -/
def rateOk (now : Rat) (pubText : Text) (s : State κ) : Bool × State κ :=
  let drawn := TokenBucket.draw burst refillPerMs now (s.limiters (name pubText))
  (drawn.1, { s with limiters := Function.update s.limiters (name pubText) (some drawn.2) })

/-- `authorize`: the sync id of a request that may go on. -/
def authorize (now : Rat) (method : Method) (msg : Msg) (s : State κ) : Except Err Text × State κ :=
  match checks sha256 ed25519Verify method msg with
  | .error err => (.error err, s)
  | .ok (syncText, pubText) =>
      let (ok, s) := rateOk name now pubText s
      if ok then (.ok syncText, s) else (.error ⟨"resource_exhausted", "rate limit exceeded", 429⟩, s)

/-- `bucket(syncId)`, with the change that is made to it. -/
def setBucket (syncText : Text) (bucket : Bucket) (s : State κ) : State κ :=
  { s with buckets := Function.update s.buckets (name syncText) (some bucket) }

/-- The handlers; `stream` names the connection of a subscription. -/
def handle (stream : Nat) (method : Method) (msg : Msg) (syncText : Text) (s : State κ) :
    Answer × State κ :=
  let held := s.buckets (name syncText)
  let b := held.getD .empty
  match method with
  | .pushBlob =>
      match field msg.blob with
      | none => (.denied ⟨"invalid_argument", "blob must be base64", 400⟩, s)
      | some blob =>
          let seq := b.log.length
          let told := (b.waiters.filter fun waiter => waiter.2 ≤ seq).map Prod.fst
          (.pushed seq told, setBucket name syncText { b with log := b.log ++ [blob] } s)
  | .listBlobs =>
      match msg.since with
      | none => (.denied ⟨"invalid_argument", "since must be a non-negative integer", 400⟩, s)
      | some since => (.count (b.log.length - since), s)
  | .getBlob =>
      match msg.seq with
      | none => (.denied ⟨"invalid_argument", "seq must be a non-negative integer", 400⟩, s)
      | some seq => (.blob b.log[seq]?, s)
  | .subscribe =>
      match msg.since with
      | none => (.denied ⟨"invalid_argument", "since must be a non-negative integer", 400⟩, s)
      | some since =>
          (.stream ((List.range b.log.length).filter fun i => since ≤ i),
            setBucket name syncText { b with waiters := b.waiters ++ [(stream, since)] } s)

/-- A request with the time on the clock, or the end of a stream. -/
inductive Event where
  | request (now : Rat) (stream : Nat) (method : Method) (msg : Msg)
  | closed (stream : Nat)

def closeStream (stream : Nat) (s : State κ) : State κ :=
  { s with
    buckets := fun key => (s.buckets key).map fun b =>
      { b with waiters := b.waiters.filter fun waiter => waiter.1 ≠ stream } }

/-- One event: whether a request got past `authorize`, the answer and the state. -/
def step (event : Event) (s : State κ) : Option Answer × State κ :=
  match event with
  | .closed stream => (none, closeStream stream s)
  | .request now stream method msg =>
      match authorize sha256 ed25519Verify name now method msg s with
      | (.error err, s) => (some (.denied err), s)
      | (.ok syncText, s) =>
          let (answer, s) := handle name stream method msg syncText s
          (some answer, s)

/-- The answers of a run. -/
def run : List Event → State κ → List (Option Answer) × State κ
  | [], s => ([], s)
  | event :: events, s =>
      let (answer, s) := step sha256 ed25519Verify name event s
      let (answers, s) := run events s
      (answer :: answers, s)

/-- The times at which requests of a key are accepted, where `classify` tells the key of a text. -/
def accepted [DecidableEq γ] (classify : Text → γ) (key : γ) : List Event → State κ → List Rat
  | [], _ => []
  | event :: events, s =>
      let rest := accepted classify key events (step sha256 ed25519Verify name event s).2
      match event with
      | .closed _ => rest
      | .request now _ method msg =>
          match checks sha256 ed25519Verify method msg with
          | .ok (_, pubText) =>
              if classify pubText = key ∧ (rateOk name now pubText s).1 then now :: rest else rest
          | .error _ => rest

/-- The clock at the requests. -/
def times (events : List Event) : List Rat :=
  events.filterMap fun event =>
    match event with
    | .request now _ _ _ => some now
    | .closed _ => none

section Rate

variable {sha256 ed25519Verify name} {s : State κ}

theorem last_draw (now : Rat) (held : Option (TokenBucket.Bucket Rat)) :
    (TokenBucket.draw burst refillPerMs now held).2.last = now := by
  unfold TokenBucket.draw
  dsimp only
  split <;> rfl

theorem handle_limiters (stream : Nat) (method : Method) (msg : Msg) (syncText : Text) (s : State κ) :
    (handle name stream method msg syncText s).2.limiters = s.limiters := by
  unfold handle
  cases method with
  | pushBlob => cases field msg.blob <;> rfl
  | listBlobs => cases msg.since <;> rfl
  | getBlob => cases msg.seq <;> rfl
  | subscribe => cases msg.since <;> rfl

section Step

variable {now : Rat} {stream : Nat} {method : Method} {msg : Msg} {syncText pubText : Text} {err : Err}

theorem step_refused (refused : checks sha256 ed25519Verify method msg = .error err) :
    step sha256 ed25519Verify name (.request now stream method msg) s = (some (.denied err), s) := by
  simp only [step, authorize, refused]

theorem step_limited (passed : checks sha256 ed25519Verify method msg = .ok (syncText, pubText))
    (empty : (rateOk name now pubText s).1 = false) :
    step sha256 ed25519Verify name (.request now stream method msg) s =
      (some (.denied ⟨"resource_exhausted", "rate limit exceeded", 429⟩),
        (rateOk name now pubText s).2) := by
  simp only [step, authorize, passed, empty, Bool.false_eq_true, if_false]

theorem step_granted (passed : checks sha256 ed25519Verify method msg = .ok (syncText, pubText))
    (token : (rateOk name now pubText s).1 = true) :
    step sha256 ed25519Verify name (.request now stream method msg) s =
      (some (handle name stream method msg syncText (rateOk name now pubText s).2).1,
        (handle name stream method msg syncText (rateOk name now pubText s).2).2) := by
  simp only [step, authorize, passed, token, if_true]

/-- A request that passes the checks draws from the limiter of its key. -/
theorem step_limiters (passed : checks sha256 ed25519Verify method msg = .ok (syncText, pubText)) :
    (step sha256 ed25519Verify name (.request now stream method msg) s).2.limiters =
      (rateOk name now pubText s).2.limiters := by
  cases token : (rateOk name now pubText s).1 with
  | false => rw [step_limited passed token]
  | true =>
      rw [step_granted passed token]
      exact handle_limiters ..

theorem accepted_refused [DecidableEq γ] {classify : Text → γ} {key : γ} {events : List Event}
    (refused : checks sha256 ed25519Verify method msg = .error err) :
    accepted sha256 ed25519Verify name classify key (.request now stream method msg :: events) s =
      accepted sha256 ed25519Verify name classify key events s := by
  simp only [accepted, refused, step_refused refused]

theorem accepted_passed [DecidableEq γ] {classify : Text → γ} {key : γ} {events : List Event}
    (passed : checks sha256 ed25519Verify method msg = .ok (syncText, pubText)) :
    accepted sha256 ed25519Verify name classify key (.request now stream method msg :: events) s =
      if classify pubText = key ∧ (rateOk name now pubText s).1 = true then
        now :: accepted sha256 ed25519Verify name classify key events
          (step sha256 ed25519Verify name (.request now stream method msg) s).2
      else accepted sha256 ed25519Verify name classify key events
        (step sha256 ed25519Verify name (.request now stream method msg) s).2 := by
  simp only [accepted, passed]

end Step

/-- Whatever the keys are, a key gets no more through than its bucket allows. -/
theorem sound_accepted {events : List Event} (clock : (times events).Pairwise (· ≤ ·)) (key : κ)
    {taken : List Rat} (sound : TokenBucket.Sound burst refillPerMs (s.limiters key) taken)
    (past : ∀ b, s.limiters key = some b → ∀ t ∈ times events, b.last ≤ t) :
    ∃ held, TokenBucket.Sound burst refillPerMs held
      (taken ++ accepted sha256 ed25519Verify name name key events s) := by
  have full : (0 : Rat) ≤ burst := by decide +kernel
  have refills : (0 : Rat) ≤ refillPerMs := by decide +kernel
  induction events generalizing s taken with
  | nil => exact ⟨_, by rw [accepted, List.append_nil]; exact sound⟩
  | cons event events ih =>
      cases event with
      | closed stream => exact ih clock sound past
      | request now stream method msg =>
          obtain ⟨first, clock⟩ := List.pairwise_cons.mp clock
          have later : ∀ b, s.limiters key = some b → ∀ t ∈ times events, b.last ≤ t :=
            fun b found t member => past b found t (List.mem_cons_of_mem _ member)
          cases passed : checks sha256 ed25519Verify method msg with
          | error err =>
              rw [accepted_refused passed]
              exact ih clock sound later
          | ok texts =>
              obtain ⟨syncText, pubText⟩ := texts
              have limiters := @step_limiters _ sha256 ed25519Verify _ name s now stream _ _ _ _ passed
              rw [accepted_passed passed]
              by_cases own : name pubText = key
              · subst own
                have drawn := sound.draw full refills fun b found => past b found now List.mem_cons_self
                have limiter : (step sha256 ed25519Verify name (.request now stream method msg) s).2.limiters
                    (name pubText) =
                      some (TokenBucket.draw burst refillPerMs now (s.limiters (name pubText))).2 := by
                  rw [limiters]
                  exact Function.update_self ..
                rw [← limiter] at drawn
                obtain ⟨held, rest⟩ := ih clock drawn (by
                  intro b found t member
                  rw [limiter, Option.some.injEq] at found
                  rw [← found, last_draw]
                  exact first t member)
                refine ⟨held, ?_⟩
                have decided : (rateOk name now pubText s).1 =
                  (TokenBucket.draw burst refillPerMs now (s.limiters (name pubText))).1 := rfl
                rw [decided]
                cases token : (TokenBucket.draw burst refillPerMs now (s.limiters (name pubText))).1 with
                | true => simpa [token] using rest
                | false => simpa [token] using rest
              · have limiter : (step sha256 ed25519Verify name (.request now stream method msg) s).2.limiters
                    key = s.limiters key := by
                  rw [limiters]
                  exact Function.update_of_ne (Ne.symm own) ..
                rw [if_neg fun both => own both.1]
                exact ih clock (limiter ▸ sound) (limiter ▸ later)

end Rate

/-- A map by texts beside the map by what `name` makes of them: each key has one spelling. -/
structure Rekeyed {β : Type} (texts : Text → Option β) (keys : κ → Option β) : Prop where
  found : ∀ text b, texts text = some b → keys (name text) = some b
  spelled : ∀ key b, keys key = some b → ∃ text, name text = key ∧ texts text = some b

/-- A text is spelled as the one the map has for its key, if it has one. -/
def Alike {β : Type} (texts : Text → Option β) (text : Text) : Prop :=
  ∀ other, texts other ≠ none → name other = name text → other = text

section Rekeyed

variable {β : Type} {name} {texts : Text → Option β} {keys : κ → Option β} {text : Text}

omit [DecidableEq κ] in
theorem Rekeyed.get (rekeyed : Rekeyed name texts keys) (alike : Alike name texts text) :
    texts text = keys (name text) := by
  cases held : texts text with
  | some b => exact (rekeyed.found text b held).symm
  | none =>
      cases kept : keys (name text) with
      | none => rfl
      | some b =>
          obtain ⟨other, same, present⟩ := rekeyed.spelled _ b kept
          rw [alike other (present ▸ Option.some_ne_none b) same, held] at present
          exact present

theorem Rekeyed.update (rekeyed : Rekeyed name texts keys) (alike : Alike name texts text) (b : β) :
    Rekeyed name (Function.update texts text (some b)) (Function.update keys (name text) (some b)) := by
  constructor
  · intro other b' present
    by_cases same : other = text
    · rw [same, Function.update_self] at present ⊢
      exact present
    · rw [Function.update_of_ne same] at present
      have apart : name other ≠ name text :=
        fun equal => same (alike other (present ▸ Option.some_ne_none b') equal)
      rw [Function.update_of_ne apart]
      exact rekeyed.found other b' present
  · intro key b' kept
    by_cases same : key = name text
    · rw [same, Function.update_self] at kept
      exact ⟨text, same.symm, by rw [Function.update_self, kept]⟩
    · rw [Function.update_of_ne same] at kept
      obtain ⟨other, spelling, present⟩ := rekeyed.spelled key b' kept
      have apart : other ≠ text := fun equal => same (by rw [← spelling, equal])
      exact ⟨other, spelling, by rw [Function.update_of_ne apart, present]⟩

omit [DecidableEq κ] in
theorem Rekeyed.map (rekeyed : Rekeyed name texts keys) (f : β → β) :
    Rekeyed name (fun text => (texts text).map f) fun key => (keys key).map f := by
  constructor
  · intro other b present
    obtain ⟨b', held, rfl⟩ := Option.map_eq_some_iff.mp present
    rw [rekeyed.found other b' held]
    rfl
  · intro key b kept
    obtain ⟨b', held, rfl⟩ := Option.map_eq_some_iff.mp kept
    obtain ⟨other, spelling, present⟩ := rekeyed.spelled key b' held
    exact ⟨other, spelling, by rw [present]; rfl⟩

end Rekeyed

/-- A relay keyed by texts beside one keyed by what `name` makes of them. -/
structure Simulates (s : State Text) (abstract : State κ) : Prop where
  buckets : Rekeyed name s.buckets abstract.buckets
  limiters : Rekeyed name s.limiters abstract.limiters

/-- A request spells its sync id and its public key as the relay has them. -/
def SpelledAlike (event : Event) (s : State Text) : Prop :=
  match event with
  | .closed _ => True
  | .request _ _ method msg =>
      ∀ syncText pubText, checks sha256 ed25519Verify method msg = .ok (syncText, pubText) →
        Alike name s.buckets syncText ∧ Alike name s.limiters pubText

/-- Every request of a run does. -/
def AllAlike : List Event → State Text → Prop
  | [], _ => True
  | event :: events, s => SpelledAlike sha256 ed25519Verify name event s ∧
      AllAlike events (step sha256 ed25519Verify id event s).2

section Simulation

variable {sha256 ed25519Verify name} {s : State Text} {abstract : State κ}

theorem Simulates.rateOk (sim : Simulates name s abstract) {pubText : Text}
    (alike : Alike name s.limiters pubText) (now : Rat) :
    (rateOk id now pubText s).1 = (rateOk name now pubText abstract).1 ∧
      Simulates name (rateOk id now pubText s).2 (rateOk name now pubText abstract).2 := by
  have same : s.limiters pubText = abstract.limiters (name pubText) := sim.limiters.get alike
  unfold Relay.rateOk
  dsimp only [id]
  rw [same]
  exact ⟨rfl, sim.buckets, sim.limiters.update alike _⟩

theorem Simulates.setBucket (sim : Simulates name s abstract) {syncText : Text}
    (alike : Alike name s.buckets syncText) (b : Bucket) :
    Simulates name (setBucket id syncText b s) (setBucket name syncText b abstract) :=
  ⟨sim.buckets.update alike b, sim.limiters⟩

theorem Simulates.handle (sim : Simulates name s abstract) {syncText : Text}
    (alike : Alike name s.buckets syncText) (stream : Nat) (method : Method) (msg : Msg) :
    (handle id stream method msg syncText s).1 = (handle name stream method msg syncText abstract).1 ∧
      Simulates name (handle id stream method msg syncText s).2
        (handle name stream method msg syncText abstract).2 := by
  have same : s.buckets (id syncText) = abstract.buckets (name syncText) := sim.buckets.get alike
  unfold Relay.handle
  rw [same]
  cases method with
  | pushBlob =>
      cases field msg.blob with
      | none => exact ⟨rfl, sim⟩
      | some blob => exact ⟨rfl, sim.setBucket alike _⟩
  | listBlobs => cases msg.since <;> exact ⟨rfl, sim⟩
  | getBlob => cases msg.seq <;> exact ⟨rfl, sim⟩
  | subscribe =>
      cases msg.since with
      | none => exact ⟨rfl, sim⟩
      | some since => exact ⟨rfl, sim.setBucket alike _⟩

theorem Simulates.step (sim : Simulates name s abstract) {event : Event}
    (alike : SpelledAlike sha256 ed25519Verify name event s) :
    (step sha256 ed25519Verify id event s).1 = (step sha256 ed25519Verify name event abstract).1 ∧
      Simulates name (step sha256 ed25519Verify id event s).2
        (step sha256 ed25519Verify name event abstract).2 := by
  cases event with
  | closed stream => exact ⟨rfl, sim.buckets.map _, sim.limiters⟩
  | request now stream method msg =>
      cases passed : checks sha256 ed25519Verify method msg with
      | error err =>
          rw [step_refused passed, step_refused passed]
          exact ⟨rfl, sim⟩
      | ok texts =>
          obtain ⟨syncText, pubText⟩ := texts
          obtain ⟨alikeSync, alikePub⟩ := alike syncText pubText passed
          obtain ⟨decided, drawn⟩ := sim.rateOk alikePub now
          cases token : (Relay.rateOk id now pubText s).1 with
          | false =>
              rw [step_limited passed token, step_limited passed (decided ▸ token)]
              exact ⟨rfl, drawn⟩
          | true =>
              rw [step_granted passed token, step_granted passed (decided ▸ token)]
              have alike' : Alike name (Relay.rateOk id now pubText s).2.buckets syncText := alikeSync
              obtain ⟨answers, handled⟩ := drawn.handle alike' stream method msg
              exact ⟨congrArg some answers, handled⟩

/-- In a run of such requests both relays give the same answers and accept the same requests. -/
theorem Simulates.run {events : List Event} (sim : Simulates name s abstract)
    (alike : AllAlike sha256 ed25519Verify name events s) :
    (run sha256 ed25519Verify id events s).1 = (run sha256 ed25519Verify name events abstract).1 ∧
      ∀ key, accepted sha256 ed25519Verify id name key events s =
        accepted sha256 ed25519Verify name name key events abstract := by
  induction events generalizing s abstract with
  | nil => exact ⟨rfl, fun _ => rfl⟩
  | cons event events ih =>
      obtain ⟨now, later⟩ := alike
      obtain ⟨same, sim'⟩ := sim.step now
      obtain ⟨answers, times⟩ := ih sim' later
      refine ⟨?_, fun key => ?_⟩
      · exact congrArg₂ List.cons same answers
      · cases event with
        | closed stream => exact times key
        | request clock stream method msg =>
            cases passed : checks sha256 ed25519Verify method msg with
            | error err =>
                have rest := times key
                rw [step_refused passed, step_refused passed] at rest
                rw [accepted_refused passed, accepted_refused passed, rest]
            | ok texts =>
                obtain ⟨syncText, pubText⟩ := texts
                rw [accepted_passed passed, accepted_passed passed, times key,
                  (sim.rateOk (now syncText pubText passed).2 clock).1]

end Simulation

end Relay

/-- The relay's state against identity. With a clock that does not go back, each spelling of a public
key gets no more through than its token bucket allows. In every run whose requests spell their sync id
and their public key as the relay already has them, the relay answers as one whose logs and limiters
are keyed by the decoded bytes, and each public key gets no more through than one token bucket. -/
theorem relay_keyed (sha256 : List UInt8 → Vector UInt8 32)
    (ed25519Verify : List UInt8 → List UInt8 → List UInt8 → Bool) (events : List Relay.Event)
    (clock : (Relay.times events).Pairwise (· ≤ ·)) :
    (∀ pubText a c, a ≤ c →
      (TokenBucket.within a c
        (Relay.accepted sha256 ed25519Verify id id pubText events (.new Relay.Text)) : Rat) ≤
          Relay.burst + (c - a) * Relay.refillPerMs) ∧
    (Relay.AllAlike sha256 ed25519Verify Relay.bufferFrom events (.new Relay.Text) →
      (Relay.run sha256 ed25519Verify id events (.new Relay.Text)).1 =
        (Relay.run sha256 ed25519Verify Relay.bufferFrom events (.new (List UInt8))).1 ∧
      ∀ pubkey a c, a ≤ c →
        (TokenBucket.within a c
          (Relay.accepted sha256 ed25519Verify id Relay.bufferFrom pubkey events (.new Relay.Text)) : Rat) ≤
            Relay.burst + (c - a) * Relay.refillPerMs) := by
  have bound {κ : Type} [DecidableEq κ] (name : Relay.Text → κ) (key : κ) (a c : Rat) (ordered : a ≤ c) :
      (TokenBucket.within a c
        (Relay.accepted sha256 ed25519Verify name name key events (.new κ)) : Rat) ≤
          Relay.burst + (c - a) * Relay.refillPerMs := by
    have none_yet : TokenBucket.Sound Relay.burst Relay.refillPerMs ((Relay.State.new κ).limiters key) [] :=
      TokenBucket.sound_none (by decide +kernel) (by decide +kernel)
    obtain ⟨held, sound⟩ := Relay.sound_accepted clock key none_yet fun b none => (nomatch none)
    exact sound.bounded a c ordered
  refine ⟨fun pubText a c ordered => bound id pubText a c ordered, fun alike => ?_⟩
  have blank : Relay.Simulates Relay.bufferFrom (.new Relay.Text) (.new (List UInt8)) :=
    ⟨⟨fun _ _ none => (nomatch none), fun _ _ none => (nomatch none)⟩,
      ⟨fun _ _ none => (nomatch none), fun _ _ none => (nomatch none)⟩⟩
  obtain ⟨answers, same⟩ := blank.run alike
  refine ⟨answers, fun pubkey a c ordered => ?_⟩
  rw [same]
  exact bound Relay.bufferFrom pubkey a c ordered

namespace Relay

def sampleDigest : Vector UInt8 32 :=
  #v[78, 228, 217, 214, 42, 255, 177, 76, 142, 17, 200, 210, 95, 253, 158, 145,
    203, 52, 97, 108, 26, 155, 181, 177, 46, 26, 75, 150, 169, 168, 43, 134]

/-- The push of an empty blob. -/
def sampleMsg (syncId pubkey : String) : Msg :=
  { syncId := some syncId.toList
    pubkey := some pubkey.toList
    sig := some ("omQ18C7bFb+zTInri1wH1G5A+dSHqCELTdbtbQ5VllEE" ++
      "O4VgV03o9Dm3JLNAcF+9v208XFiJ3/PVTKF3K23xBw==").toList
    blob := some []
    since := none
    seq := none }

def samplePush (syncId pubkey : String) : Event := .request 0 0 .pushBlob (sampleMsg syncId pubkey)

def paddedPush : Event :=
  samplePush "TuTZ1ir/sUyOEcjSX/2ekQ==" "6kpsY+KcUgq+9VB7Ey7F+ZVHdq6+vnuSQh7qaRRG0iw="

def barePush : Event :=
  samplePush "TuTZ1ir/sUyOEcjSX/2ekQ" "6kpsY+KcUgq+9VB7Ey7F+ZVHdq6+vnuSQh7qaRRG0iw"

end Relay

/-- The same push with and without padding: each begins a log and a bucket of tokens of its own. -/
theorem spellings_apart :
    Relay.bufferFrom "TuTZ1ir/sUyOEcjSX/2ekQ==".toList =
      Relay.bufferFrom "TuTZ1ir/sUyOEcjSX/2ekQ".toList ∧
    Relay.bufferFrom "6kpsY+KcUgq+9VB7Ey7F+ZVHdq6+vnuSQh7qaRRG0iw=".toList =
      Relay.bufferFrom "6kpsY+KcUgq+9VB7Ey7F+ZVHdq6+vnuSQh7qaRRG0iw".toList ∧
    (let (answers, s) := Relay.run (fun _ => Relay.sampleDigest) (fun _ _ _ => true) id
      [Relay.paddedPush, Relay.barePush] (.new Relay.Text)
    answers = [some (.pushed 0 []), some (.pushed 0 [])] ∧
      s.limiters "6kpsY+KcUgq+9VB7Ey7F+ZVHdq6+vnuSQh7qaRRG0iw=".toList = some ⟨499, 0⟩ ∧
      s.limiters "6kpsY+KcUgq+9VB7Ey7F+ZVHdq6+vnuSQh7qaRRG0iw".toList = some ⟨499, 0⟩) ∧
    (Relay.run (fun _ => Relay.sampleDigest) (fun _ _ _ => true) Relay.bufferFrom
      [Relay.paddedPush, Relay.barePush] (.new (List UInt8))).1 =
        [some (.pushed 0 []), some (.pushed 1 [])] := by
  decide +kernel

theorem relay_keyed_sample :
    (Relay.run (fun _ => Relay.sampleDigest) (fun _ _ _ => true) id
      [Relay.paddedPush, Relay.paddedPush] (.new Relay.Text)).1 =
    (Relay.run (fun _ => Relay.sampleDigest) (fun _ _ _ => true) Relay.bufferFrom
      [Relay.paddedPush, Relay.paddedPush] (.new (List UInt8))).1 := by
  have passed : Relay.checks (fun _ => Relay.sampleDigest) (fun _ _ _ => true) .pushBlob
      (Relay.sampleMsg "TuTZ1ir/sUyOEcjSX/2ekQ==" "6kpsY+KcUgq+9VB7Ey7F+ZVHdq6+vnuSQh7qaRRG0iw=") =
      .ok ("TuTZ1ir/sUyOEcjSX/2ekQ==".toList, "6kpsY+KcUgq+9VB7Ey7F+ZVHdq6+vnuSQh7qaRRG0iw=".toList) := by
    decide +kernel
  have clock : (Relay.times [Relay.paddedPush, Relay.paddedPush]).Pairwise (· ≤ ·) := by decide +kernel
  refine ((relay_keyed (fun _ => Relay.sampleDigest) (fun _ _ _ => true) _ clock).2 ?_).1
  refine ⟨?_, ?_, trivial⟩
  · intro syncText pubText checked
    exact ⟨fun other held => (held rfl).elim, fun other held => (held rfl).elim⟩
  · intro syncText pubText checked
    rw [passed] at checked
    cases checked
    have token : (Relay.rateOk id 0 "6kpsY+KcUgq+9VB7Ey7F+ZVHdq6+vnuSQh7qaRRG0iw=".toList
      (.new Relay.Text)).1 = true := by decide +kernel
    rw [Relay.paddedPush, Relay.samplePush, Relay.step_granted passed token]
    constructor
    · intro other held _
      by_contra apart
      exact held (Function.update_of_ne apart ..)
    · intro other held _
      by_contra apart
      exact held (Function.update_of_ne apart ..)

end Freehold
