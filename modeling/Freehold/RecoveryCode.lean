import Freehold.Decrypt

set_option autoImplicit false

/- Recovery codes: how one is made from random bytes, and the check of what a user types. -/
namespace Freehold.RecoveryCode

open Cursor DeviceCert

/-- Crockford (no I,L,O,U). -/
def recoveryAlphabet : List UInt8 := utf8Bytes "0123456789ABCDEFGHJKMNPQRSTVWXYZ"

abbrev recoveryPayloadLen : Nat := 26
abbrev recoveryCheckLen : Nat := 4

variable {ε : Type}

/-- `RECOVERY_ALPHABET[(n & 0x1f) as usize]`. -/
def symbol (n : UInt32) : Outcome ε UInt8 :=
  match recoveryAlphabet[(n &&& 0x1f).toNat]? with
  | some c => .ok c
  | none => .panic

/-- The variables of a loop that turns bytes into symbols of five bits. -/
structure Packing where
  acc : UInt32
  bits : Nat
  out : List UInt8

/-- The inner `while`, where `more` stands for a second condition on the symbols so far. Each
iteration takes five bits, so their number is fuel enough. -/
def drain (more : List UInt8 → Bool) : (fuel : Nat) → Packing → Outcome ε Packing
  | 0, s => .ok s
  | fuel + 1, s =>
      if 5 ≤ s.bits ∧ more s.out then do
        let bits := s.bits - 5
        let c ← symbol (s.acc >>> UInt32.ofNat bits)
        drain more fuel ⟨s.acc, bits, s.out ++ [c]⟩
      else .ok s

def pushByte (more : List UInt8 → Bool) (s : Packing) (b : UInt8) : Outcome ε Packing :=
  let bits := s.bits + 8
  drain more bits ⟨s.acc <<< 8 ||| b.toUInt32, bits, s.out⟩

/-- The check wants no more symbols than these. -/
def checkRoom (out : List UInt8) : Bool := decide (out.length < recoveryCheckLen)

variable (P : Primitives)

/-- `recovery_checksum`. The loop is left when there are symbols enough. -/
def recoveryChecksum (payload : List UInt8) : Outcome ε (List UInt8) := do
  let h := P.sha256 payload
  let s ← h.toList.foldlM
    (fun s b => if s.out.length = recoveryCheckLen then .ok s else pushByte checkRoom s b) ⟨0, 0, []⟩
  return s.out

/-- `recovery_canon`. -/
def recoveryCanon (code : List Char) : List Char :=
  (code.filter fun c => !isWhitespace c && c != '-').flatMap P.upper

def verifyRecoveryChecksum (code : List Char) : Outcome ε Bool :=
  let canon := strBytes (recoveryCanon P code)
  if canon.length ≠ recoveryPayloadLen + recoveryCheckLen ∨
      ¬canon.all fun b => recoveryAlphabet.contains b then
    .ok false
  else do
    let check ← recoveryChecksum P (canon.take recoveryPayloadLen)
    return check == canon.drop recoveryPayloadLen

/-- `chunks(5)`. -/
def chunks : List UInt8 → List (List UInt8)
  | a :: b :: c :: d :: e :: rest => [a, b, c, d, e] :: chunks rest
  | [] => []
  | rest => [rest]

/-- `generate_recovery_code` with the bytes it draws, if it gets any. -/
def generateRecoveryCode (rng : ε) (ent : Option (Vector UInt8 16)) : Outcome ε (List Char) := do
  let ent ← okOr rng ent
  let s ← ent.toList.foldlM (pushByte fun _ => true) ⟨0, 0, []⟩
  let chars ←
    if s.bits > 0 then do
      let c ← symbol (s.acc <<< UInt32.ofNat (5 - s.bits))
      pure (s.out ++ [c])
    else pure s.out
  let check ← recoveryChecksum P chars
  return asChars ([0x2d].intercalate (chunks (chars ++ check)))

/-- Runs of symbols. -/
def Symbols (out : List UInt8) : Prop := ∀ b ∈ out, b ∈ recoveryAlphabet

theorem Symbols.append {out other : List UInt8} (first : Symbols out) (second : Symbols other) :
    Symbols (out ++ other) := by
  intro b member
  rcases List.mem_append.mp member with here | there
  · exact first b here
  · exact second b there

theorem symbol_ok (n : UInt32) : ∃ c, (symbol n : Outcome ε UInt8) = .ok c ∧ Symbols [c] := by
  have small : (n &&& 0x1f).toNat < recoveryAlphabet.length := by
    have length : recoveryAlphabet.length = 32 := by decide +kernel
    rw [length, UInt32.toNat_and]
    exact Nat.lt_of_le_of_lt Nat.and_le_right (by decide)
  refine ⟨recoveryAlphabet[(n &&& 0x1f).toNat], by rw [symbol, List.getElem?_eq_getElem small], ?_⟩
  intro b member
  rw [List.mem_singleton] at member
  rw [member]
  exact List.getElem_mem small

/-- No bit is lost on the way, and the loop ends for one of its two reasons. A bound that the
condition checks is kept. -/
theorem drain_ok {more : List UInt8 → Bool} {fuel : Nat} {s : Packing} (enough : s.bits ≤ fuel)
    (symbols : Symbols s.out) : ∃ next, (drain more fuel s : Outcome ε Packing) = .ok next ∧
      Symbols next.out ∧ next.out.length * 5 + next.bits = s.out.length * 5 + s.bits ∧
      (next.bits < 5 ∨ more next.out = false) ∧
      ∀ limit, (∀ out, more out = true → out.length < limit) → s.out.length ≤ limit →
        next.out.length ≤ limit := by
  induction fuel generalizing s with
  | zero => exact ⟨s, rfl, symbols, rfl, Or.inl (by omega), fun _ _ short => short⟩
  | succ fuel ih =>
      rw [drain]
      split
      · next goes =>
          obtain ⟨c, found, isSymbol⟩ := @symbol_ok ε (s.acc >>> UInt32.ofNat (s.bits - 5))
          have fewer : (⟨s.acc, s.bits - 5, s.out ++ [c]⟩ : Packing).bits ≤ fuel := by
            show s.bits - 5 ≤ fuel
            omega
          obtain ⟨next, drained, symbols', bits, stopped, bounded⟩ := ih fewer (symbols.append isSymbol)
          dsimp only at bits bounded
          rw [List.length_append, List.length_singleton] at bits bounded
          refine ⟨next, ?_, symbols', by omega, stopped, ?_⟩
          · simp only [found, Outcome.ok_bind, drained]
          · intro limit room _
            exact bounded limit room (room s.out goes.2)
      · next stops =>
          rw [not_and_or, Bool.not_eq_true] at stops
          exact ⟨s, rfl, symbols, rfl, stops.imp_left (by omega), fun _ _ short => short⟩

theorem pushByte_ok (more : List UInt8 → Bool) {s : Packing} (symbols : Symbols s.out) (b : UInt8) :
    ∃ next, (pushByte more s b : Outcome ε Packing) = .ok next ∧ Symbols next.out ∧
      next.out.length * 5 + next.bits = s.out.length * 5 + s.bits + 8 ∧
      (next.bits < 5 ∨ more next.out = false) ∧
      ∀ limit, (∀ out, more out = true → out.length < limit) → s.out.length ≤ limit →
        next.out.length ≤ limit := by
  obtain ⟨next, drained, symbols', bits, rest⟩ := @drain_ok ε more (s.bits + 8)
    ⟨s.acc <<< 8 ||| b.toUInt32, s.bits + 8, s.out⟩ (Nat.le_refl _) symbols
  dsimp only at bits
  exact ⟨next, drained, symbols', by omega, rest⟩

/-- A loop over bytes returns and keeps what each iteration keeps. -/
theorem foldlM_ok {σ : Type} {step : σ → UInt8 → Outcome ε σ} {inv : Nat → σ → Prop}
    (keeps : ∀ k s b, inv k s → ∃ next, step s b = .ok next ∧ inv (k + 1) next) (bytes : List UInt8)
    {k : Nat} {s : σ} (start : inv k s) :
    ∃ last, bytes.foldlM step s = .ok last ∧ inv (k + bytes.length) last := by
  induction bytes generalizing k s with
  | nil => exact ⟨s, rfl, start⟩
  | cons b rest ih =>
      obtain ⟨next, stepped, held⟩ := keeps k s b start
      obtain ⟨last, folded, finished⟩ := ih held
      refine ⟨last, by rw [List.foldlM_cons, stepped, Outcome.ok_bind, folded], ?_⟩
      rwa [List.length_cons, ← Nat.add_assoc, Nat.add_right_comm]

/-- After `k` bytes, where nothing but the number of bits ends the inner loop. -/
structure Packed (k : Nat) (s : Packing) : Prop where
  symbols : Symbols s.out
  count : s.out.length * 5 + s.bits = 8 * k
  few : s.bits < 5

theorem symbols_nil : Symbols [] := fun b member => by cases member

/-- Sixteen bytes are twenty-five symbols and three bits. -/
theorem payload_ok (ent : Vector UInt8 16) : ∃ s : Packing,
    (ent.toList.foldlM (pushByte fun _ => true) ⟨0, 0, []⟩ : Outcome ε Packing) = .ok s ∧
      Symbols s.out ∧ s.out.length = 25 ∧ s.bits = 3 := by
  have step : ∀ k s b, Packed k s →
      ∃ next, (pushByte (fun _ => true) s b : Outcome ε Packing) = .ok next ∧ Packed (k + 1) next := by
    intro k s b packed
    have count := packed.count
    obtain ⟨next, pushed, symbols, bits, stopped, _⟩ :=
      @pushByte_ok ε (fun _ => true) _ packed.symbols b
    exact ⟨next, pushed, symbols, by omega, by simpa using stopped⟩
  have start : Packed 0 ⟨0, 0, []⟩ := ⟨symbols_nil, rfl, by decide⟩
  obtain ⟨s, folded, packed⟩ := foldlM_ok step ent.toList start
  have count := packed.count
  have few := packed.few
  rw [Vector.length_toList] at count
  exact ⟨s, folded, packed.symbols, by omega, by omega⟩

/-- After `k` bytes of the hash: the checksum is complete, or the bits are in the symbols. -/
structure Checked (k : Nat) (s : Packing) : Prop where
  symbols : Symbols s.out
  count : s.out.length = 4 ∨ s.out.length < 4 ∧ s.out.length * 5 + s.bits = 8 * k ∧ s.bits < 5

theorem checked_step (k : Nat) (s : Packing) (b : UInt8) (checked : Checked k s) :
    ∃ next, (if s.out.length = recoveryCheckLen then .ok s else pushByte checkRoom s b :
      Outcome ε Packing) = .ok next ∧ Checked (k + 1) next := by
  split
  · next full => exact ⟨s, rfl, checked.symbols, Or.inl full⟩
  · next room =>
      have count := checked.count
      have four : recoveryCheckLen = 4 := rfl
      obtain ⟨next, pushed, symbols, bits, stopped, bounded⟩ :=
        @pushByte_ok ε checkRoom _ checked.symbols b
      have bound := bounded recoveryCheckLen (fun out room => of_decide_eq_true room) (by omega)
      rw [checkRoom, decide_eq_false_iff_not] at stopped
      exact ⟨next, pushed, symbols, by omega⟩

/-- A checksum is four symbols. -/
theorem recoveryChecksum_ok (P : Primitives) (payload : List UInt8) :
    ∃ check, (recoveryChecksum P payload : Outcome ε (List UInt8)) = .ok check ∧ Symbols check ∧
      check.length = recoveryCheckLen := by
  have start : Checked 0 ⟨0, 0, []⟩ := ⟨symbols_nil, Or.inr ⟨by decide, rfl, by decide⟩⟩
  obtain ⟨s, folded, checked⟩ := @foldlM_ok ε _ _ _ checked_step (P.sha256 payload).toList _ _ start
  have count := checked.count
  rw [Vector.length_toList] at count
  refine ⟨s.out, ?_, checked.symbols, ?_⟩
  · rw [recoveryChecksum, folded]
    rfl
  · show s.out.length = 4
    omega

/-- A code with its checksum, before it is grouped. -/
structure Run (ε : Type) (P : Primitives) (run : List UInt8) : Prop where
  symbols : Symbols run
  length : run.length = recoveryPayloadLen + recoveryCheckLen
  check : (recoveryChecksum P (run.take recoveryPayloadLen) : Outcome ε (List UInt8)) =
    .ok (run.drop recoveryPayloadLen)

/-- The text of a run. -/
def grouped (run : List UInt8) : List Char := asChars ([0x2d].intercalate (chunks run))

/-- Whatever is drawn, the code is a run in groups. -/
theorem generateRecoveryCode_ok (P : Primitives) (rng : ε) (ent : Vector UInt8 16) :
    ∃ run, Run ε P run ∧ generateRecoveryCode P rng (some ent) = .ok (grouped run) := by
  obtain ⟨s, folded, symbols, length, bits⟩ := @payload_ok ε ent
  obtain ⟨c, last, isSymbol⟩ := @symbol_ok ε (s.acc <<< UInt32.ofNat (5 - s.bits))
  obtain ⟨check, checked, checkSymbols, checkLength⟩ := @recoveryChecksum_ok ε P (s.out ++ [c])
  have payload : (s.out ++ [c]).length = recoveryPayloadLen := by
    rw [List.length_append, length, List.length_singleton]
  refine ⟨s.out ++ [c] ++ check, ⟨(symbols.append isSymbol).append checkSymbols, ?_, ?_⟩, ?_⟩
  · rw [List.length_append, payload, checkLength]
  · rw [List.take_left' payload, List.drop_left' payload, checked]
  · have some_bits : s.bits > 0 := by omega
    simp only [generateRecoveryCode, okOr, Outcome.ok_bind, folded, some_bits, if_true, last,
      Outcome.pure_eq, checked, grouped]

/-- What the library's upper case does to the characters a code is made of. -/
structure UpperCase (P : Primitives) : Prop where
  symbols : ∀ b ∈ recoveryAlphabet, P.upper (Char.ofNat b.toNat) = [Char.ofNat b.toNat]
  hyphen : P.upper '-' = ['-']
  others : ∀ c, c ≠ '-' → '-' ∉ P.upper c

theorem flatten_chunks (l : List UInt8) : (chunks l).flatten = l := by
  induction l using chunks.induct with
  | case1 a b c d e rest ih => rw [chunks, List.flatten_cons, ih]; rfl
  | case2 => rfl
  | case3 rest short nonempty => rw [chunks, List.flatten_singleton] <;> assumption

/-- Grouping only adds separators. -/
theorem filter_intercalate {p : UInt8 → Bool} {sep : UInt8} (dropped : p sep = false)
    {groups : List (List UInt8)} (kept : ∀ b ∈ groups.flatten, p b = true) :
    ([sep].intercalate groups).filter p = groups.flatten := by
  induction groups with
  | nil => rfl
  | cons group rest ih =>
      have here : ∀ b ∈ group, p b = true := fun b member =>
        kept b (List.mem_append_left _ member)
      have later := ih fun b member => kept b (List.mem_append_right _ member)
      cases rest with
      | nil => simpa [List.intercalate] using here
      | cons next rest =>
          rw [List.intercalate_cons_cons, List.filter_append, List.filter_append, later,
            List.filter_eq_self.mpr here, List.filter_cons_of_neg (by simp [dropped])]
          simp

/-- Symbols are ASCII, no white space and no hyphen. -/
theorem symbol_char : ∀ b ∈ recoveryAlphabet, b < 128 ∧
    isWhitespace (Char.ofNat b.toNat) = false ∧ Char.ofNat b.toNat ≠ '-' := by decide +kernel

variable {P : Primitives} {run : List UInt8} {typed : List Char}

/-- What stays of a code without white space and hyphens. -/
def isLetter (c : Char) : Bool := !isWhitespace c && c != '-'

theorem filter_grouped (symbols : Symbols run) : (grouped run).filter isLetter = asChars run := by
  have dropped : (isLetter ∘ fun b : UInt8 => Char.ofNat b.toNat) 0x2d = false := by decide
  have kept : ∀ b ∈ (chunks run).flatten, (isLetter ∘ fun b : UInt8 => Char.ofNat b.toNat) b = true := by
    intro b member
    rw [flatten_chunks] at member
    obtain ⟨_, solid, letter⟩ := symbol_char b (symbols b member)
    simp [isLetter, solid, letter]
  rw [grouped, asChars, List.filter_map, filter_intercalate dropped kept, flatten_chunks]
  rfl

theorem upper_self {text : List Char} (fixed : ∀ c ∈ text, P.upper c = [c]) :
    text.flatMap P.upper = text := by
  induction text with
  | nil => rfl
  | cons c rest ih =>
      rw [List.flatMap_cons, fixed c List.mem_cons_self, ih fun d member => fixed d (List.mem_cons_of_mem _ member)]
      rfl

theorem upper_asChars (upper : UpperCase P) (symbols : Symbols run) :
    (asChars run).flatMap P.upper = asChars run := by
  apply upper_self
  intro c member
  obtain ⟨b, inside, rfl⟩ := List.mem_map.mp member
  exact upper.symbols b (symbols b inside)

/-- The canonical form of a generated code is its run. -/
theorem recoveryCanon_grouped (upper : UpperCase P) (symbols : Symbols run) :
    recoveryCanon P (grouped run) = asChars run := by
  have letters : (grouped run).filter (fun c => !isWhitespace c && c != '-') = asChars run :=
    filter_grouped symbols
  rw [recoveryCanon, letters, upper_asChars upper symbols]

/-- Whatever has the canonical form of a generated code passes the check. -/
theorem verify_of_canon {ε : Type} (upper : UpperCase P) (generated : Run ε P run)
    (same : recoveryCanon P typed = recoveryCanon P (grouped run)) :
    (verifyRecoveryChecksum P typed : Outcome ε Bool) = .ok true := by
  have ascii : ∀ b ∈ run, b < 128 := fun b member => (symbol_char b (generated.symbols b member)).1
  have all : run.all (fun b => recoveryAlphabet.contains b) = true := by
    rw [List.all_eq_true]
    intro b member
    rw [List.contains_iff_mem]
    exact generated.symbols b member
  have formed : ¬(run.length ≠ recoveryPayloadLen + recoveryCheckLen ∨
      ¬run.all fun b => recoveryAlphabet.contains b) := by
    rw [generated.length, all]
    simp
  rw [verifyRecoveryChecksum, same, recoveryCanon_grouped upper generated.symbols,
    strBytes_asChars ascii]
  simp only [if_neg formed, generated.check, Outcome.ok_bind, BEq.rfl, Outcome.pure_eq]

section Normal

theorem flatten_splitOnP (p : Char → Bool) (text : List Char) :
    (text.splitOnP p).flatten = text.filter fun c => !p c := by
  induction text with
  | nil => rfl
  | cons c rest ih =>
      rw [List.splitOnP_cons_eq_if_modifyHead]
      by_cases separates : p c = true
      · simp [separates, ih]
      · obtain ⟨head, tail, pieces⟩ := List.exists_cons_of_ne_nil (List.splitOnP_ne_nil p rest)
        rw [pieces, List.flatten_cons] at ih
        simp [separates, pieces, ih]

theorem flatten_splitWhitespace (text : List Char) :
    (Decrypt.splitWhitespace text).flatten = text.filter fun c => !isWhitespace c := by
  rw [Decrypt.splitWhitespace, List.flatten_filter_not_isEmpty, flatten_splitOnP]

/-- The form the key is derived from keeps the hyphens. -/
theorem normalize_eq (code : List Char) :
    Decrypt.normalize P code = (code.filter fun c => !isWhitespace c).flatMap P.upper := by
  rw [Decrypt.normalize, flatten_splitWhitespace]

theorem filter_flatMap_upper (upper : UpperCase P) (text : List Char) :
    (text.flatMap P.upper).filter (· != '-') = (text.filter (· != '-')).flatMap P.upper := by
  induction text with
  | nil => rfl
  | cons c rest ih =>
      rw [List.flatMap_cons, List.filter_append, ih]
      by_cases hyphen : c = '-'
      · simp [hyphen, upper.hyphen]
      · have clean : (P.upper c).filter (· != '-') = P.upper c := by
          rw [List.filter_eq_self]
          intro d member
          simp only [bne_iff_ne, ne_eq]
          rintro rfl
          exact upper.others c hyphen member
        rw [clean, List.filter_cons_of_pos (by simpa using hyphen), List.flatMap_cons]

/-- The two normal forms differ in the hyphens. -/
theorem recoveryCanon_eq (upper : UpperCase P) (code : List Char) :
    recoveryCanon P code = (Decrypt.normalize P code).filter (· != '-') := by
  rw [normalize_eq, filter_flatMap_upper upper, List.filter_filter, recoveryCanon]
  congr 1
  apply List.filter_congr
  intro c _
  rw [Bool.and_comm]

theorem mem_intercalate {sep b : UInt8} {groups : List (List UInt8)}
    (member : b ∈ [sep].intercalate groups) : b = sep ∨ b ∈ groups.flatten := by
  induction groups with
  | nil => cases member
  | cons group rest ih =>
      cases rest with
      | nil => exact Or.inr (by simpa [List.intercalate] using member)
      | cons next rest =>
          rw [List.intercalate_cons_cons, List.mem_append, List.mem_append, List.mem_singleton] at member
          rw [List.flatten_cons, List.mem_append]
          rcases member with (here | separator) | later
          · exact Or.inr (Or.inl here)
          · exact Or.inl separator
          · exact (ih later).imp_right Or.inr

theorem mem_grouped {c : Char} (member : c ∈ grouped run) :
    c = '-' ∨ ∃ b ∈ run, c = Char.ofNat b.toNat := by
  obtain ⟨b, inside, rfl⟩ := List.mem_map.mp member
  rcases mem_intercalate inside with rfl | symbol
  · exact Or.inl rfl
  · rw [flatten_chunks] at symbol
    exact Or.inr ⟨b, symbol, rfl⟩

/-- A generated code is in normal form. -/
theorem normalize_grouped (upper : UpperCase P) (symbols : Symbols run) :
    Decrypt.normalize P (grouped run) = grouped run := by
  have solid : (grouped run).filter (fun c => !isWhitespace c) = grouped run := by
    rw [List.filter_eq_self]
    intro c member
    obtain rfl | ⟨b, inside, rfl⟩ := mem_grouped member
    · decide
    · rw [(symbol_char b (symbols b inside)).2.1]
      rfl
  rw [normalize_eq, solid]
  apply upper_self
  intro c member
  obtain rfl | ⟨b, inside, rfl⟩ := mem_grouped member
  · exact upper.hyphen
  · exact upper.symbols b (symbols b inside)

/-- Texts with the same letters and the hyphens at the same places are the same. -/
theorem eq_of_hyphens {text other : List Char} (letters : text.filter (· != '-') = other.filter (· != '-'))
    (places : text.map (· == '-') = other.map (· == '-')) : text = other := by
  induction text generalizing other with
  | nil =>
      cases other with
      | nil => rfl
      | cons d rest => cases places
  | cons c rest ih =>
      cases other with
      | nil => cases places
      | cons d rest' =>
          simp only [List.map_cons, List.cons.injEq] at places
          obtain ⟨here, later⟩ := places
          by_cases hyphen : c = '-'
          · subst hyphen
            have same : d = '-' := by simpa using here.symm
            subst same
            rw [ih (by simpa using letters) later]
          · have letter : d ≠ '-' := by
              intro same
              rw [same] at here
              exact hyphen (by simpa using here)
            rw [List.filter_cons_of_pos (by simpa using hyphen),
              List.filter_cons_of_pos (by simpa using letter), List.cons.injEq] at letters
            rw [letters.1, ih letters.2 later]

/-- Without white space and in upper case, `typed` has its hyphens where `code` has them. -/
def HyphensAs (P : Primitives) (typed code : List Char) : Prop :=
  (Decrypt.normalize P typed).map (· == '-') = code.map (· == '-')

instance (P : Primitives) (typed code : List Char) : Decidable (HyphensAs P typed code) :=
  inferInstanceAs (Decidable (_ = _))

/-- Among the texts with the canonical form of a generated code, those give its key that have
its hyphens. -/
theorem normalize_eq_iff (upper : UpperCase P) (symbols : Symbols run)
    (same : recoveryCanon P typed = recoveryCanon P (grouped run)) :
    Decrypt.normalize P typed = grouped run ↔ HyphensAs P typed (grouped run) := by
  rw [HyphensAs]
  constructor
  · intro normal
    rw [normal]
  · intro places
    apply eq_of_hyphens _ places
    rw [recoveryCanon_eq upper, recoveryCanon_eq upper, normalize_grouped upper symbols] at same
    exact same

end Normal

end Freehold.RecoveryCode
