import Mathlib.Data.List.Basic
import Mathlib.Data.UInt

set_option autoImplicit false

/- Reading a byte slice through a cursor, on a machine whose `usize` is bounded. Every
way the code can fail to return is an outcome of its own, so that it can be ruled out. -/
namespace Cursor

variable {ε α β σ : Type} {width : Nat}

/-- What a piece of code comes to. -/
inductive Outcome (ε α : Type) where
  | ok (value : α)
  | error (reason : ε)
  | panic
  deriving DecidableEq, Repr

namespace Outcome

protected def bind (x : Outcome ε α) (f : α → Outcome ε β) : Outcome ε β :=
  match x with
  | .ok value => f value
  | .error reason => .error reason
  | .panic => .panic

instance : Monad (Outcome ε) where
  pure := .ok
  bind := Outcome.bind

@[simp] theorem pure_eq (value : α) : (pure value : Outcome ε α) = .ok value := rfl

@[simp] theorem ok_bind (value : α) (f : α → Outcome ε β) : (Outcome.ok value >>= f) = f value := rfl

@[simp] theorem error_bind (reason : ε) (f : α → Outcome ε β) :
    (Outcome.error reason >>= f) = .error reason := rfl

@[simp] theorem panic_bind (f : α → Outcome ε β) : ((.panic : Outcome ε α) >>= f) = .panic := rfl

theorem bind_eq_ok {x : Outcome ε α} {f : α → Outcome ε β} {result : β} :
    (x >>= f) = .ok result ↔ ∃ value, x = .ok value ∧ f value = .ok result := by
  cases x with
  | ok value => simp
  | error reason => simp
  | panic => simp

/-- No panic, and what is returned meets `P`. -/
def Meets (x : Outcome ε α) (P : α → Prop) : Prop :=
  match x with
  | .ok value => P value
  | .error _ => True
  | .panic => False

@[simp] theorem meets_ok (value : α) (P : α → Prop) : (Outcome.ok value : Outcome ε α).Meets P ↔ P value :=
  Iff.rfl

@[simp] theorem meets_error (reason : ε) (P : α → Prop) : (Outcome.error reason).Meets P := trivial

theorem Meets.ne_panic {x : Outcome ε α} {P : α → Prop} (met : x.Meets P) : x ≠ .panic := by
  rintro rfl
  exact met

theorem meets_iff {x : Outcome ε α} {P : α → Prop} :
    x.Meets P ↔ x ≠ .panic ∧ ∀ value, x = .ok value → P value := by
  cases x with
  | ok value => simp
  | error reason => simp
  | panic => simp [Meets]

theorem Meets.of_ok {x : Outcome ε α} {P : α → Prop} {value : α} (met : x.Meets P)
    (returned : x = .ok value) : P value := by
  subst returned
  exact met

theorem Meets.imp {x : Outcome ε α} {P Q : α → Prop} (met : x.Meets P)
    (implies : ∀ value, P value → Q value) : x.Meets Q := by
  cases x with
  | ok value => exact implies value met
  | error reason => trivial
  | panic => exact met

theorem Meets.bind {x : Outcome ε α} {f : α → Outcome ε β} {P : α → Prop} {Q : β → Prop}
    (first : x.Meets P) (second : ∀ value, P value → (f value).Meets Q) : (x >>= f).Meets Q := by
  cases x with
  | ok value => exact second value first
  | error reason => trivial
  | panic => exact first

end Outcome

/-- A byte slice; its length is a `usize`. -/
structure Slice (width : Nat) where
  bytes : List UInt8
  fits : bytes.length < 2 ^ width

/-- `a + b`, which overflows past `usize::MAX`. -/
def addUsize (width a b : Nat) : Outcome ε Nat :=
  if a + b < 2 ^ width then .ok (a + b) else .panic

/-- `a.checked_add(b)`. -/
def checkedAdd (width a b : Nat) : Option Nat := if a + b < 2 ^ width then some (a + b) else none

/-- `a.checked_mul(b)`. -/
def checkedMul (width a b : Nat) : Option Nat := if a * b < 2 ^ width then some (a * b) else none

theorem addUsize_eq {a b : Nat} (fits : a + b < 2 ^ width) :
    (addUsize width a b : Outcome ε Nat) = .ok (a + b) := if_pos fits

theorem checkedAdd_eq {a b : Nat} (fits : a + b < 2 ^ width) :
    checkedAdd width a b = some (a + b) := if_pos fits

theorem checkedMul_eq {a b : Nat} (fits : a * b < 2 ^ width) :
    checkedMul width a b = some (a * b) := if_pos fits

/-- `.ok_or(reason)?`. -/
def okOr (reason : ε) : Option α → Outcome ε α
  | some value => .ok value
  | none => .error reason

namespace Slice

/-- `&b[lo..hi]`. -/
def range (b : Slice width) (lo hi : Nat) : Outcome ε (List UInt8) :=
  if lo ≤ hi ∧ hi ≤ b.bytes.length then .ok ((b.bytes.take hi).drop lo) else .panic

/-- `b[pos]`. -/
def index (b : Slice width) (pos : Nat) : Outcome ε UInt8 :=
  match b.bytes[pos]? with
  | some byte => .ok byte
  | none => .panic

/-- `read` is what stands from `pos` to `stop`. -/
def Between (b : Slice width) (pos : Nat) (read : List UInt8) (stop : Nat) : Prop :=
  ∃ before after, b.bytes = before ++ read ++ after ∧ before.length = pos ∧
    before.length + read.length = stop

variable {b : Slice width} {pos mid stop : Nat} {read first second : List UInt8}

theorem between_nil (inside : pos ≤ b.bytes.length) : b.Between pos [] pos := by
  refine ⟨b.bytes.take pos, b.bytes.drop pos, ?_, ?_, ?_⟩
  · simp
  · simp [inside]
  · simp [inside]

theorem between_all (b : Slice width) : b.Between 0 b.bytes b.bytes.length :=
  ⟨[], [], by simp, rfl, by simp⟩

theorem Between.stop_eq (between : b.Between pos read stop) : stop = pos + read.length := by
  obtain ⟨before, after, _, start, finish⟩ := between
  omega

theorem Between.stop_le (between : b.Between pos read stop) : stop ≤ b.bytes.length := by
  obtain ⟨before, after, whole, _, finish⟩ := between
  rw [whole, List.length_append, List.length_append]
  omega

theorem Between.stop_lt (between : b.Between pos read stop) : stop < 2 ^ width :=
  Nat.lt_of_le_of_lt between.stop_le b.fits

theorem Between.append (left : b.Between pos first mid) (right : b.Between mid second stop) :
    b.Between pos (first ++ second) stop := by
  obtain ⟨before, after, whole, start, finish⟩ := left
  obtain ⟨before', after', whole', start', finish'⟩ := right
  have lengths : (before ++ first).length = before'.length := by
    rw [List.length_append]
    omega
  have same : before ++ first ++ after = before' ++ (second ++ after') := by
    rw [← whole, whole', List.append_assoc]
  obtain ⟨_, rest⟩ := List.append_inj same lengths
  refine ⟨before, after', ?_, start, ?_⟩
  · rw [whole, rest]
    simp only [List.append_assoc]
  · rw [List.length_append] at lengths ⊢
    omega

theorem Between.split (between : b.Between pos (first ++ second) stop) :
    b.Between pos first (pos + first.length) ∧ b.Between (pos + first.length) second stop := by
  obtain ⟨before, after, whole, start, finish⟩ := between
  rw [List.length_append] at finish
  refine ⟨⟨before, second ++ after, ?_, start, by omega⟩, before ++ first, after, ?_, ?_, ?_⟩
  · rw [whole]
    simp only [List.append_assoc]
  · rw [whole]
    simp only [List.append_assoc]
  · rw [List.length_append, start]
  · rw [List.length_append]
    omega

theorem Between.range_eq (between : b.Between pos read stop) :
    (b.range pos stop : Outcome ε (List UInt8)) = .ok read := by
  have inside := between.stop_le
  have spans := between.stop_eq
  obtain ⟨before, after, whole, start, finish⟩ := between
  rw [range, if_pos ⟨by omega, inside⟩, whole]
  have cut : (before ++ read).length = stop := by rw [List.length_append, finish]
  rw [← cut, List.take_left, ← start, List.drop_left]

/-- What stands between two positions inside the slice. -/
theorem between_of_le (ordered : pos ≤ stop) (inside : stop ≤ b.bytes.length) :
    b.Between pos ((b.bytes.take stop).drop pos) stop := by
  refine ⟨b.bytes.take pos, b.bytes.drop stop, ?_, ?_, ?_⟩
  · have front : (b.bytes.take stop).take pos = b.bytes.take pos := by
      rw [List.take_take, Nat.min_eq_left ordered]
    rw [← front, List.take_append_drop, List.take_append_drop]
  · rw [List.length_take]
    omega
  · rw [List.length_take, List.length_drop, List.length_take]
    omega

theorem between_index (inside : pos < b.bytes.length) : b.Between pos [b.bytes[pos]] (pos + 1) := by
  have spans := between_of_le (b := b) (Nat.le_succ pos) inside
  have cut : (b.bytes.take (pos + 1)).drop pos = [b.bytes[pos]] := by
    rw [List.drop_take, Nat.add_sub_cancel_left, List.take_one_drop_eq_of_lt_length inside,
      List.get_eq_getElem]
  rwa [cut] at spans

theorem Between.index_eq {byte : UInt8} {rest : List UInt8}
    (between : b.Between pos (byte :: rest) stop) : (b.index pos : Outcome ε UInt8) = .ok byte := by
  obtain ⟨before, after, whole, start, _⟩ := between
  have found : b.bytes[pos]? = some byte := by
    rw [whole, List.append_assoc, List.getElem?_append_right (by omega), start, Nat.sub_self]
    rfl
  rw [index, found]

theorem index_of_lt (inside : pos < b.bytes.length) :
    (b.index pos : Outcome ε UInt8) = .ok b.bytes[pos] := (between_index inside).index_eq

/-- Two readings that begin at one place agree as far as the shorter one goes. -/
theorem Between.unique {other : List UInt8} (left : b.Between pos read stop)
    (right : b.Between pos other stop) : read = other := by
  have cut : (b.range pos stop : Outcome Unit (List UInt8)) = .ok read := left.range_eq
  rw [right.range_eq] at cut
  exact (Outcome.ok.inj cut).symm

end Slice

/-- Code that reads at a cursor and moves it. -/
structure Read (width : Nat) (ε α : Type) where
  run : Slice width → Nat → Outcome ε (α × Nat)

namespace Read

instance : Monad (Read width ε) where
  pure value := ⟨fun _ pos => .ok (value, pos)⟩
  bind r f := ⟨fun b pos => do
    let (value, stop) ← r.run b pos
    (f value).run b stop⟩

/-- Code that does not look at the cursor. -/
def lift (x : Outcome ε α) : Read width ε α := ⟨fun _ pos => do return (← x, pos)⟩

def fail (reason : ε) : Read width ε α := lift (.error reason)

/-- The next `n` bytes. -/
def take (overflow truncated : ε) (n : Nat) : Read width ε (List UInt8) := ⟨fun b pos => do
  let stop ← okOr overflow (checkedAdd width pos n)
  if stop > b.bytes.length then .error truncated
  else return (← b.range pos stop, stop)⟩

/-- `let byte = b[pos]; pos += 1;`. -/
def byte : Read width ε UInt8 := ⟨fun b pos => do
  let value ← b.index pos
  return (value, ← addUsize width pos 1)⟩

/-- `for _ in 0..n`, where the body assigns the variables of a state. -/
def times (body : σ → Read width ε σ) : Nat → σ → Read width ε σ
  | 0, state => pure state
  | n + 1, state => do times body n (← body state)

/-- `while pos < b.len()`. A loop that is out of fuel has not returned. -/
def untilEnd (body : σ → Read width ε σ) : Nat → σ → Read width ε σ
  | 0, _ => lift .panic
  | fuel + 1, state => ⟨fun b pos =>
      if pos < b.bytes.length then (body state >>= untilEnd body fuel).run b pos
      else .ok (state, pos)⟩

/-- Wherever `read` stands, it is read in full and gives `value`. -/
def Reads (r : Read width ε α) (read : List UInt8) (value : α) : Prop :=
  ∀ b pos stop, b.Between pos read stop → r.run b pos = .ok (value, stop)

/-- On no bytes at all does `r` panic, and `P` holds of what it read and what it returned. -/
def Accepts (r : Read width ε α) (P : List UInt8 → α → Prop) : Prop :=
  ∀ b pos, pos ≤ b.bytes.length →
    (r.run b pos).Meets fun out => ∃ read, b.Between pos read out.2 ∧ P read out.1

variable {r : Read width ε α} {f : α → Read width ε β} {P Q : List UInt8 → α → Prop}
  {first second read : List UInt8} {value : α} {result : β}

theorem run_bind (r : Read width ε α) (f : α → Read width ε β) (b : Slice width) (pos : Nat) :
    (r >>= f).run b pos = (r.run b pos >>= fun out => (f out.1).run b out.2) := rfl

theorem run_bind_error {b : Slice width} {pos : Nat} {reason : ε}
    (failed : r.run b pos = .error reason) : (r >>= f).run b pos = .error reason := by
  rw [run_bind, failed, Outcome.error_bind]

theorem Reads.pure (value : α) : Reads (pure value : Read width ε α) [] value := by
  intro b pos stop between
  rw [between.stop_eq]
  rfl

theorem Reads.bind (left : Reads r first value) (right : Reads (f value) second result) :
    Reads (r >>= f) (first ++ second) result := by
  intro b pos stop between
  obtain ⟨head, tail⟩ := between.split
  rw [run_bind, left b pos _ head]
  exact right b _ stop tail

/-- The bytes of a value end where its reading ends: no code word begins another one. -/
theorem Reads.prefix_free {other : List UInt8} {value' : α} {rest rest' : List UInt8}
    (left : Reads r read value) (right : Reads r other value')
    (same : read ++ rest = other ++ rest') (fits : (read ++ rest).length < 2 ^ width) :
    read = other ∧ rest = rest' ∧ value = value' := by
  let b : Slice width := ⟨read ++ rest, fits⟩
  have one := left b 0 read.length ⟨[], rest, rfl, rfl, by simp⟩
  have two := right b 0 other.length ⟨[], rest', same, rfl, by simp⟩
  rw [one] at two
  obtain ⟨values, lengths⟩ := Prod.mk.inj (Outcome.ok.inj two)
  obtain ⟨reads, rests⟩ := List.append_inj same lengths
  exact ⟨reads, rests, values⟩

theorem Accepts.imp (accepts : Accepts r P) (implies : ∀ read value, P read value → Q read value) :
    Accepts r Q := by
  intro b pos inside
  apply (accepts b pos inside).imp
  rintro ⟨value, stop⟩ ⟨read, between, held⟩
  exact ⟨read, between, implies read value held⟩

theorem Accepts.pure (value : α) :
    Accepts (pure value : Read width ε α) fun read out => read = [] ∧ out = value := by
  intro b pos inside
  exact ⟨[], Slice.between_nil inside, rfl, rfl⟩

theorem Accepts.bind {R : List UInt8 → β → Prop} (accepts : Accepts r P)
    (next : ∀ read value, P read value → Accepts (f value) fun more result => R (read ++ more) result) :
    Accepts (r >>= f) R := by
  intro b pos inside
  rw [run_bind]
  apply (accepts b pos inside).bind
  rintro ⟨value, mid⟩ ⟨read, between, held⟩
  apply (next read value held b mid between.stop_le).imp
  rintro ⟨result, stop⟩ ⟨more, between', held'⟩
  exact ⟨read ++ more, between.append between', held'⟩

theorem Accepts.lift {x : Outcome ε α} {R : α → Prop} (met : x.Meets R) :
    Accepts (lift x : Read width ε α) fun read value => read = [] ∧ R value := by
  intro b pos inside
  apply met.bind
  intro value held
  exact ⟨[], Slice.between_nil inside, rfl, held⟩

theorem Accepts.fail (reason : ε) : Accepts (fail reason : Read width ε α) P := fun _ _ _ => trivial

theorem reads_lift {x : Outcome ε α} (returned : x = .ok value) :
    Reads (lift x : Read width ε α) [] value := by
  subst returned
  exact Reads.pure value

theorem reads_take (overflow truncated : ε) (read : List UInt8) :
    Reads (take overflow truncated read.length : Read width ε (List UInt8)) read read := by
  intro b pos stop between
  have fits := between.stop_lt
  have inside := between.stop_le
  have cut : (b.range pos stop : Outcome ε (List UInt8)) = .ok read := between.range_eq
  rw [between.stop_eq] at fits inside cut ⊢
  simp only [take, checkedAdd_eq fits, okOr, Outcome.ok_bind, cut]
  rw [if_neg (by omega)]
  rfl

theorem accepts_take (overflow truncated : ε) (n : Nat) :
    Accepts (take overflow truncated n : Read width ε (List UInt8))
      fun read value => value = read ∧ read.length = n := by
  intro b pos inside
  unfold take checkedAdd
  dsimp only
  split
  · simp only [okOr, Outcome.ok_bind]
    split
    · trivial
    · next short =>
        have between := Slice.between_of_le (Nat.le_add_right pos n) (Nat.le_of_not_gt short)
        rw [between.range_eq]
        refine ⟨_, between, rfl, ?_⟩
        have spans := between.stop_eq
        omega
  · trivial

theorem reads_byte (value : UInt8) : Reads (byte : Read width ε UInt8) [value] value := by
  intro b pos stop between
  have fits := between.stop_lt
  have spans : stop = pos + 1 := between.stop_eq
  have found : (b.index pos : Outcome ε UInt8) = .ok value := between.index_eq
  subst spans
  simp only [byte, found, Outcome.ok_bind, addUsize_eq fits]
  rfl

/-- One byte can be read as long as the cursor is not at the end. -/
theorem byte_meets {b : Slice width} {pos : Nat} (inside : pos < b.bytes.length) :
    ((byte : Read width ε UInt8).run b pos).Meets fun out => b.Between pos [out.1] out.2 := by
  rw [reads_byte _ b pos (pos + 1) (Slice.between_index inside)]
  exact Slice.between_index inside

/-- States of a loop and the bytes each iteration reads. -/
inductive Chain (P : σ → List UInt8 → σ → Prop) : σ → List (List UInt8) → σ → Prop where
  | nil (state : σ) : Chain P state [] state
  | cons {state next last : σ} {read : List UInt8} {reads : List (List UInt8)}
      (head : P state read next) (tail : Chain P next reads last) :
      Chain P state (read :: reads) last

theorem Chain.imp {P Q : σ → List UInt8 → σ → Prop} {state last : σ} {reads : List (List UInt8)}
    (chain : Chain P state reads last)
    (implies : ∀ state read next, P state read next → Q state read next) :
    Chain Q state reads last := by
  induction chain with
  | nil state => exact .nil state
  | cons head _ ih => exact .cons (implies _ _ _ head) ih

section Loops

variable {body : σ → Read width ε σ} {P : σ → List UInt8 → σ → Prop} {state last : σ}
  {reads : List (List UInt8)}

theorem reads_times (chain : Chain (fun s x t => Reads (body s) x t) state reads last) :
    Reads (times body reads.length state) reads.flatten last := by
  induction chain with
  | nil state => exact Reads.pure state
  | cons head _ ih => exact head.bind ih

theorem accepts_times (step : ∀ state, Accepts (body state) (P state)) (n : Nat) (state : σ) :
    Accepts (times body n state) fun read last =>
      ∃ reads, reads.flatten = read ∧ reads.length = n ∧ Chain P state reads last := by
  induction n generalizing state with
  | zero =>
      apply (Accepts.pure state).imp
      rintro _ _ ⟨rfl, rfl⟩
      exact ⟨[], rfl, rfl, .nil _⟩
  | succ n ih =>
      apply (step state).bind
      intro read next head
      apply (ih next).imp
      rintro more last ⟨reads, rfl, rfl, tail⟩
      exact ⟨read :: reads, rfl, rfl, .cons head tail⟩

theorem reads_untilEnd {b : Slice width} {pos fuel : Nat}
    (chain : Chain (fun s x t => Reads (body s) x t ∧ x ≠ []) state reads last)
    (between : b.Between pos reads.flatten b.bytes.length) (enough : b.bytes.length - pos < fuel) :
    (untilEnd body fuel state).run b pos = .ok (last, b.bytes.length) := by
  induction chain generalizing pos fuel with
  | nil state =>
      have finished : b.bytes.length = pos := between.stop_eq
      obtain ⟨fuel, rfl⟩ := Nat.exists_eq_add_one_of_ne_zero (Nat.ne_of_gt (Nat.zero_lt_of_lt enough))
      simp only [untilEnd, finished, Nat.lt_irrefl, if_false]
  | @cons state next last read reads head tail ih =>
      rw [List.flatten_cons] at between
      have spans := between.stop_eq
      have positive := List.length_pos_iff.mpr head.2
      rw [List.length_append] at spans
      obtain ⟨fuel, rfl⟩ := Nat.exists_eq_add_one_of_ne_zero (Nat.ne_of_gt (Nat.zero_lt_of_lt enough))
      have more : pos < b.bytes.length := by omega
      simp only [untilEnd, more, if_true]
      rw [run_bind, head.1 b pos _ between.split.1]
      exact ih between.split.2 (by omega)

theorem untilEnd_meets {b : Slice width} {pos fuel : Nat}
    (step : ∀ state pos, pos < b.bytes.length → ((body state).run b pos).Meets fun out =>
      ∃ read, b.Between pos read out.2 ∧ read ≠ [] ∧ P state read out.1)
    (inside : pos ≤ b.bytes.length) (enough : b.bytes.length - pos < fuel) (state : σ) :
    ((untilEnd body fuel state).run b pos).Meets fun out => out.2 = b.bytes.length ∧
      ∃ reads, b.Between pos reads.flatten b.bytes.length ∧ Chain P state reads out.1 := by
  induction fuel generalizing pos state with
  | zero => omega
  | succ fuel ih =>
      unfold untilEnd
      dsimp only
      split
      · next more =>
          rw [run_bind]
          apply (step state pos more).bind
          rintro ⟨next, mid⟩ ⟨read, between, some_read, head⟩
          have spans := between.stop_eq
          have positive := List.length_pos_iff.mpr some_read
          apply (ih between.stop_le (by omega) next).imp
          rintro ⟨last, stop⟩ ⟨finished, reads, rest, tail⟩
          exact ⟨finished, read :: reads, between.append rest, .cons head tail⟩
      · next done =>
          have finished : pos = b.bytes.length := by omega
          refine ⟨finished, [], ?_, .nil state⟩
          rw [← finished]
          exact Slice.between_nil inside

end Loops

end Read

/-- The little-endian bytes of a number. -/
def toLe : Nat → Nat → List UInt8
  | 0, _ => []
  | n + 1, value => UInt8.ofNat (value % 256) :: toLe n (value / 256)

def ofLe : List UInt8 → Nat
  | [] => 0
  | byte :: rest => byte.toNat + 256 * ofLe rest

@[simp] theorem length_toLe (n value : Nat) : (toLe n value).length = n := by
  induction n generalizing value with
  | zero => rfl
  | succ n ih => rw [toLe, List.length_cons, ih]

theorem ofLe_lt (bytes : List UInt8) : ofLe bytes < 256 ^ bytes.length := by
  induction bytes with
  | nil => decide
  | cons byte rest ih =>
      have small := byte.toNat_lt
      rw [ofLe, List.length_cons, Nat.pow_succ]
      omega

theorem ofLe_toLe {n value : Nat} (small : value < 256 ^ n) : ofLe (toLe n value) = value := by
  induction n generalizing value with
  | zero =>
      rw [Nat.pow_zero] at small
      rw [toLe, ofLe]
      omega
  | succ n ih =>
      rw [Nat.pow_succ] at small
      have digit : (UInt8.ofNat (value % 256)).toNat = value % 256 := by
        rw [UInt8.toNat_ofNat']
        omega
      rw [toLe, ofLe, digit, ih (by omega)]
      omega

theorem toLe_ofLe (bytes : List UInt8) : toLe bytes.length (ofLe bytes) = bytes := by
  induction bytes with
  | nil => rfl
  | cons byte rest ih =>
      have small := byte.toNat_lt
      have digit : (byte.toNat + 256 * ofLe rest) % 256 = byte.toNat := by omega
      have higher : (byte.toNat + 256 * ofLe rest) / 256 = ofLe rest := by omega
      rw [List.length_cons, toLe, ofLe, digit, higher, ih, UInt8.ofNat_toNat]

theorem ofLe_injective {bytes other : List UInt8} (lengths : bytes.length = other.length)
    (same : ofLe bytes = ofLe other) : bytes = other := by
  rw [← toLe_ofLe bytes, same, lengths, toLe_ofLe]

/-- `from_le_bytes` of an array that is taken out of a slice. -/
def fromLe (n : Nat) (bytes : List UInt8) : Outcome ε Nat :=
  if bytes.length = n then .ok (ofLe bytes) else .panic

theorem fromLe_eq {n : Nat} {bytes : List UInt8} (length : bytes.length = n) :
    (fromLe n bytes : Outcome ε Nat) = .ok (ofLe bytes) := if_pos length

namespace Read

/-- An unsigned integer of `n` bytes. -/
def uint (overflow truncated : ε) (n : Nat) : Read width ε Nat := do
  let bytes ← take overflow truncated n
  lift (fromLe n bytes)

theorem reads_uint (overflow truncated : ε) {n value : Nat} (small : value < 256 ^ n) :
    Reads (uint overflow truncated n : Read width ε Nat) (toLe n value) value := by
  have front : Reads (take overflow truncated (toLe n value).length : Read width ε _)
      (toLe n value) (toLe n value) := reads_take overflow truncated _
  rw [length_toLe] at front
  have number : (fromLe n (toLe n value) : Outcome ε Nat) = .ok value := by
    rw [fromLe_eq (length_toLe n value), ofLe_toLe small]
  have whole := front.bind (f := fun bytes => lift (fromLe n bytes)) (reads_lift number)
  rwa [List.append_nil] at whole

theorem accepts_uint (overflow truncated : ε) (n : Nat) :
    Accepts (uint overflow truncated n : Read width ε Nat)
      fun read value => read = toLe n value ∧ value < 256 ^ n := by
  apply (accepts_take overflow truncated n).bind
  rintro read bytes ⟨rfl, length⟩
  rw [fromLe_eq length]
  have number : (Outcome.ok (ofLe bytes) : Outcome ε Nat).Meets fun value => value = ofLe bytes := rfl
  apply (Accepts.lift number).imp
  rintro _ _ ⟨rfl, rfl⟩
  rw [List.append_nil, ← length]
  exact ⟨(toLe_ofLe bytes).symm, ofLe_lt bytes⟩

/-- An unsigned integer of `n` bytes, `as usize`. -/
def word (overflow truncated : ε) (n : Nat) : Read width ε Nat := do
  let value ← uint overflow truncated n
  return value % 2 ^ width

theorem reads_word (overflow truncated : ε) {n value : Nat} (wide : 256 ^ n ≤ 2 ^ width)
    (small : value < 256 ^ n) :
    Reads (word overflow truncated n : Read width ε Nat) (toLe n value) value := by
  have fits : value % 2 ^ width = value := Nat.mod_eq_of_lt (Nat.lt_of_lt_of_le small wide)
  have whole := (reads_uint overflow truncated small : Reads (uint overflow truncated n : Read width ε Nat) _ _).bind
    (f := fun value => (pure (value % 2 ^ width) : Read width ε Nat)) (Reads.pure _)
  rw [List.append_nil, fits] at whole
  exact whole

theorem accepts_word (overflow truncated : ε) {n : Nat} (wide : 256 ^ n ≤ 2 ^ width) :
    Accepts (word overflow truncated n : Read width ε Nat)
      fun read value => read = toLe n value ∧ value < 256 ^ n := by
  apply (accepts_uint overflow truncated n).bind
  rintro _ value ⟨rfl, small⟩
  have fits : value % 2 ^ width = value := Nat.mod_eq_of_lt (Nat.lt_of_lt_of_le small wide)
  apply (Accepts.pure _).imp
  rintro _ _ ⟨rfl, rfl⟩
  rw [List.append_nil, fits]
  exact ⟨rfl, small⟩

end Read

/-- `text.as_bytes()`. -/
def utf8Bytes (text : String) : List UInt8 := text.toByteArray.data.toList

/-- `String::from_utf8`. -/
def fromUtf8 (bytes : List UInt8) : Option String :=
  if valid : ByteArray.IsValidUTF8 ⟨bytes.toArray⟩ then some ⟨⟨bytes.toArray⟩, valid⟩ else none

theorem fromUtf8_utf8Bytes (text : String) : fromUtf8 (utf8Bytes text) = some text := by
  have whole : (⟨(utf8Bytes text).toArray⟩ : ByteArray) = text.toByteArray := rfl
  unfold fromUtf8
  rw [dif_pos (by rw [whole]; exact text.isValidUTF8)]
  rfl

theorem utf8Bytes_of_fromUtf8 {bytes : List UInt8} {text : String}
    (decoded : fromUtf8 bytes = some text) : utf8Bytes text = bytes := by
  unfold fromUtf8 at decoded
  split at decoded
  · cases decoded
    exact List.toList_toArray
  · cases decoded

theorem utf8Bytes_injective : Function.Injective utf8Bytes := by
  intro text other same
  have decoded := fromUtf8_utf8Bytes text
  rw [same, fromUtf8_utf8Bytes] at decoded
  exact (Option.some.inj decoded).symm

theorem utf8Bytes_ofList (text : List Char) :
    utf8Bytes (String.ofList text) = text.flatMap String.utf8EncodeChar := by
  rw [utf8Bytes, String.toByteArray_ofList]
  exact List.toList_data_toByteArray

theorem length_utf8Bytes_ofList (text : List Char) :
    (utf8Bytes (String.ofList text)).length = (text.map fun c => c.utf8Size).sum := by
  rw [utf8Bytes_ofList, List.length_flatMap]
  simp

/-- No word of `W` begins another one. -/
def PrefixFree (W : List UInt8 → Prop) : Prop :=
  ∀ ⦃x y rest rest' : List UInt8⦄, W x → W y → x ++ rest = y ++ rest' → x = y

/-- The words one reader reads in full, on machines that are wide enough. -/
theorem prefixFree_of_reads {W : List UInt8 → Prop} (enough : Nat)
    (r : ∀ width, Read width ε α)
    (reads : ∀ width, enough ≤ width → ∀ x, W x → ∃ value, (r width).Reads x value) :
    PrefixFree W := by
  intro x y rest rest' inX inY same
  let width := enough + (x ++ rest).length
  have wide : enough ≤ width := Nat.le_add_right _ _
  have fits : (x ++ rest).length < 2 ^ width :=
    Nat.lt_of_le_of_lt (Nat.le_add_left _ _) Nat.lt_two_pow_self
  obtain ⟨_, readX⟩ := reads width wide x inX
  obtain ⟨_, readY⟩ := reads width wide y inY
  exact (readX.prefix_free readY same fits).1

/-- A sequence of code words that stops inside another one stops at the end of a word. -/
theorem PrefixFree.prefix_of_flatten {W : List UInt8 → Prop} (free : PrefixFree W)
    {words others : List (List UInt8)} (inWords : ∀ x ∈ words, W x ∧ x ≠ [])
    (inOthers : ∀ x ∈ others, W x) (begins : words.flatten <+: others.flatten) : words <+: others := by
  induction words generalizing others with
  | nil => exact List.nil_prefix
  | cons x words ih =>
      rw [List.forall_mem_cons] at inWords
      obtain ⟨rest, same⟩ := begins
      rw [List.flatten_cons, List.append_assoc] at same
      cases others with
      | nil =>
          rw [List.flatten_nil, List.append_eq_nil_iff] at same
          exact absurd same.1 inWords.1.2
      | cons y others =>
          rw [List.forall_mem_cons] at inOthers
          rw [List.flatten_cons] at same
          have head : x = y := free inWords.1.1 inOthers.1 same
          subst head
          rw [List.prefix_cons_inj]
          exact ih inWords.2 inOthers.2 ⟨rest, List.append_cancel_left same⟩

end Cursor
