import Mathlib.Algebra.Order.Field.Basic
import Mathlib.Tactic.Linarith

set_option autoImplicit false

/- A token bucket: how much it lets through in any interval of time. -/
namespace TokenBucket

section Intervals

variable {K : Type} [LinearOrder K] {taken : List K} {a c : K}

/-- How many of the times lie in an interval. -/
def within (a c : K) (times : List K) : Nat := times.countP fun x => decide (a ≤ x ∧ x ≤ c)

theorem within_append (a c : K) (first second : List K) :
    within a c (first ++ second) = within a c first + within a c second := List.countP_append

theorem within_congr {c' : K} (below : ∀ x ∈ taken, x ≤ c) (ordered : c ≤ c') :
    within a c' taken = within a c taken := by
  apply List.countP_congr
  intro x member
  simp [below x member, (below x member).trans ordered]

theorem within_eq_zero {last : K} (below : ∀ x ∈ taken, x ≤ last) (later : last < a) :
    within a c taken = 0 := by
  rw [within, List.countP_eq_zero]
  intro x member
  have early := (below x member).trans_lt later
  simp [not_le_of_gt early]

end Intervals

variable {K : Type} [Field K] [LinearOrder K] [IsStrictOrderedRing K]

structure Bucket (K : Type) where
  tokens : K
  last : K
  deriving DecidableEq

variable (burst rate : K)

/-- The bucket at time `now`; one that does not exist yet is full. -/
def refill (now : K) (held : Option (Bucket K)) : Bucket K :=
  let b := held.getD ⟨burst, now⟩
  ⟨min burst (b.tokens + (now - b.last) * rate), now⟩

/-- Takes a token, if there is one. -/
def draw (now : K) (held : Option (Bucket K)) : Bool × Bucket K :=
  let b := refill burst rate now held
  if b.tokens < 1 then (false, b) else (true, { b with tokens := b.tokens - 1 })

/-- A bucket beside the times at which it gave a token. -/
structure Sound (held : Option (Bucket K)) (taken : List K) : Prop where
  past : ∀ x ∈ taken, ∃ b, held = some b ∧ x ≤ b.last
  range : ∀ b, held = some b → 0 ≤ b.tokens ∧ b.tokens ≤ burst
  spent : ∀ b, held = some b → ∀ a, a ≤ b.last →
    (within a b.last taken : K) + b.tokens ≤ burst + (b.last - a) * rate
  bounded : ∀ a c, a ≤ c → (within a c taken : K) ≤ burst + (c - a) * rate

variable {burst rate} {held : Option (Bucket K)} {taken : List K} {now a c : K}

theorem sound_none (full : 0 ≤ burst) (refills : 0 ≤ rate) : Sound burst rate none [] := by
  refine ⟨fun x member => (nomatch member), fun b none => (nomatch none), fun b none => (nomatch none), ?_⟩
  intro a c ordered
  have gained := mul_nonneg (sub_nonneg.mpr ordered) refills
  simp only [within, List.countP_nil, Nat.cast_zero]
  linarith

/-- Time passes: what has been given and what is left stays within the bound. -/
theorem Sound.refill (sound : Sound burst rate held taken) (full : 0 ≤ burst) (refills : 0 ≤ rate)
    (forward : ∀ b, held = some b → b.last ≤ now) :
    Sound burst rate (some (refill burst rate now held)) taken := by
  have before : ∀ x ∈ taken, x ≤ now := by
    intro x member
    obtain ⟨b, found, early⟩ := sound.past x member
    exact early.trans (forward b found)
  refine ⟨fun x member => ⟨_, rfl, before x member⟩, ?_, ?_, sound.bounded⟩
  · rintro b ⟨⟩
    refine ⟨le_min full ?_, min_le_left _ _⟩
    cases held with
    | none => simpa using full
    | some b =>
        have gained := mul_nonneg (sub_nonneg.mpr (forward b rfl)) refills
        have some_left := (sound.range b rfl).1
        show 0 ≤ b.tokens + (now - b.last) * rate
        linarith
  · rintro b ⟨⟩ a early
    show (within a now taken : K) + min burst _ ≤ burst + (now - a) * rate
    have capped := min_le_left burst ((held.getD ⟨burst, now⟩).tokens +
      (now - (held.getD ⟨burst, now⟩).last) * rate)
    have later : 0 ≤ (now - a) * rate := mul_nonneg (sub_nonneg.mpr early) refills
    cases held with
    | none =>
        have none_taken : taken = [] := by
          apply List.eq_nil_iff_forall_not_mem.mpr
          intro x member
          obtain ⟨b, none, _⟩ := sound.past x member
          cases none
        rw [none_taken, within, List.countP_nil, Nat.cast_zero]
        linarith
    | some b =>
        have below : ∀ x ∈ taken, x ≤ b.last := by
          intro x member
          obtain ⟨b', found, past⟩ := sound.past x member
          cases found
          exact past
        by_cases old : a ≤ b.last
        · have spent := sound.spent b rfl a old
          have grown := min_le_right burst (b.tokens + (now - b.last) * rate)
          rw [within_congr below (forward b rfl)]
          show (within a b.last taken : K) + min burst (b.tokens + (now - b.last) * rate) ≤ _
          linarith
        · rw [within_eq_zero below (lt_of_not_ge old), Nat.cast_zero]
          linarith

/-- A request at `now` leaves a sound bucket, whether it gets a token or not. -/
theorem Sound.draw (sound : Sound burst rate held taken) (full : 0 ≤ burst) (refills : 0 ≤ rate)
    (forward : ∀ b, held = some b → b.last ≤ now) :
    Sound burst rate (some (draw burst rate now held).2)
      (if (draw burst rate now held).1 then taken ++ [now] else taken) := by
  have refilled := sound.refill full refills forward
  unfold TokenBucket.draw
  by_cases empty : (TokenBucket.refill burst rate now held).tokens < 1
  · simp only [empty, if_true, Bool.false_eq_true, if_false]
    exact refilled
  · simp only [empty, if_false, if_true]
    have range := refilled.range _ rfl
    have token := le_of_not_gt empty
    have before : ∀ x ∈ taken, x ≤ now := by
      intro x member
      obtain ⟨b, found, past⟩ := refilled.past x member
      cases found
      exact past
    refine ⟨?_, ?_, ?_, ?_⟩
    · intro x member
      refine ⟨_, rfl, ?_⟩
      rcases List.mem_append.mp member with old | new
      · exact before x old
      · exact le_of_eq (List.mem_singleton.mp new)
    · rintro b ⟨⟩
      exact ⟨by dsimp only; linarith, by dsimp only; linarith⟩
    · rintro b ⟨⟩ a early
      have spent := refilled.spent _ rfl a early
      have last : within a now [now] = 1 := by
        have early' : a ≤ now := early
        simp [within, early']
      show (within a now (taken ++ [now]) : K) + (_ - 1) ≤ burst + (now - a) * rate
      rw [within_append, last, Nat.cast_add, Nat.cast_one]
      have same : (within a now taken : K) + (TokenBucket.refill burst rate now held).tokens ≤
        burst + (now - a) * rate := spent
      linarith
    · intro a c ordered
      have old := sound.bounded a c ordered
      rw [within_append, Nat.cast_add]
      by_cases inside : a ≤ now ∧ now ≤ c
      · have last : within a c [now] = 1 := by simp [within, inside]
        have spent : (within a now taken : K) + (TokenBucket.refill burst rate now held).tokens ≤
          burst + (now - a) * rate := refilled.spent _ rfl a inside.1
        have rest := mul_nonneg (sub_nonneg.mpr inside.2) refills
        rw [last, within_congr before inside.2, Nat.cast_one]
        linarith
      · have last : within a c [now] = 0 := by simpa [within] using inside
        rw [last, Nat.cast_zero]
        linarith

end TokenBucket
