import Mathlib.Data.List.Basic

set_option autoImplicit false

/- A reader of frames that gets its input in pieces and keeps what is not yet a whole frame. Where the
input is cut makes no difference to the frames. -/
namespace Frames

/-- How the first whole frame is cut off an input. What comes later does not change the cut. -/
structure Cutter (α : Type) where
  cut : List α → Option (List α × List α)
  shorter : ∀ input frame rest, cut input = some (frame, rest) → rest.length < input.length
  stable : ∀ input frame rest later, cut input = some (frame, rest) →
    cut (input ++ later) = some (frame, rest ++ later)

variable {α : Type} (cutter : Cutter α)

/-- The whole frames of an input and what is left of it. -/
def drain : Nat → List α → List (List α) × List α
  | 0, input => ([], input)
  | fuel + 1, input =>
      match cutter.cut input with
      | none => ([], input)
      | some (frame, rest) =>
          let (frames, left) := drain fuel rest
          (frame :: frames, left)

def frames (input : List α) : List (List α) × List α := drain cutter input.length input

/-- The frames that come with the pieces, and what is kept after them. -/
def read : List (List α) → List α → List (List α) × List α
  | [], kept => ([], kept)
  | piece :: pieces, kept =>
      let (now, kept) := frames cutter (kept ++ piece)
      let (later, kept) := read pieces kept
      (now ++ later, kept)

section Drain

variable {cutter} {input later rest frame : List α} {fuel more : Nat}

theorem cut_nil : cutter.cut [] = none := by
  cases found : cutter.cut [] with
  | none => rfl
  | some pair =>
      have short := cutter.shorter _ pair.1 pair.2 found
      rw [List.length_nil] at short
      omega

theorem drain_nil (fuel : Nat) : drain cutter fuel [] = ([], []) := by
  cases fuel with
  | zero => rfl
  | succ fuel => rw [drain, cut_nil]

theorem drain_fuel (enough : input.length ≤ fuel) (enough' : input.length ≤ more) :
    drain cutter fuel input = drain cutter more input := by
  induction fuel generalizing input more with
  | zero =>
      have empty := List.length_eq_zero_iff.mp (Nat.le_zero.mp enough)
      rw [empty, drain_nil, drain_nil]
  | succ fuel ih =>
      cases more with
      | zero =>
          have empty := List.length_eq_zero_iff.mp (Nat.le_zero.mp enough')
          rw [empty, drain_nil, drain_nil]
      | succ more =>
          cases found : cutter.cut input with
          | none => rw [drain, drain, found]
          | some pair =>
              have short := cutter.shorter _ pair.1 pair.2 found
              have same := @ih pair.2 more (by omega) (by omega)
              rw [drain, drain, found]
              dsimp only
              rw [same]

theorem frames_none (whole : cutter.cut input = none) : frames cutter input = ([], input) := by
  rw [frames]
  cases input.length with
  | zero => rfl
  | succ n => rw [drain, whole]

theorem frames_some (found : cutter.cut input = some (frame, rest)) :
    frames cutter input = (frame :: (frames cutter rest).1, (frames cutter rest).2) := by
  have short := cutter.shorter _ _ _ found
  have enough : drain cutter (input.length - 1) rest = frames cutter rest :=
    drain_fuel (by omega) (Nat.le_refl _)
  have count : input.length = input.length - 1 + 1 := by omega
  rw [frames, count, drain, found]
  dsimp only
  rw [enough]

/-- What comes later adds its frames to those that were whole before. -/
theorem frames_append (input later : List α) : frames cutter (input ++ later) =
    ((frames cutter input).1 ++ (frames cutter ((frames cutter input).2 ++ later)).1,
      (frames cutter ((frames cutter input).2 ++ later)).2) := by
  induction bound : input.length using Nat.strongRecOn generalizing input with
  | ind n ih =>
      cases found : cutter.cut input with
      | none =>
          rw [frames_none found]
          rfl
      | some pair =>
          have short := cutter.shorter _ pair.1 pair.2 found
          have longer := cutter.stable _ pair.1 pair.2 later found
          have rest := ih pair.2.length (by omega) pair.2 rfl
          rw [frames_some found, frames_some longer, rest]
          rfl

theorem frames_left (input : List α) : frames cutter (frames cutter input).2 = ([], (frames cutter input).2) := by
  induction bound : input.length using Nat.strongRecOn generalizing input with
  | ind n ih =>
      cases found : cutter.cut input with
      | none =>
          rw [frames_none found]
          exact frames_none found
      | some pair =>
          have short := cutter.shorter _ pair.1 pair.2 found
          rw [frames_some found]
          exact ih pair.2.length (by omega) pair.2 rfl

theorem read_kept (pieces : List (List α)) {kept : List α} (waits : frames cutter kept = ([], kept)) :
    read cutter pieces kept = frames cutter (kept ++ pieces.flatten) := by
  induction pieces generalizing kept with
  | nil => rw [read, List.flatten_nil, List.append_nil, waits]
  | cons piece pieces ih =>
      have rest := ih (frames_left (kept ++ piece))
      rw [read, List.flatten_cons, ← List.append_assoc, frames_append (kept ++ piece)]
      dsimp only
      rw [rest]

/-- The pieces come to what their input comes to at once. -/
theorem read_pieces (pieces : List (List α)) : read cutter pieces [] = frames cutter pieces.flatten :=
  read_kept pieces (drain_nil _)

/-- The frames of a part of the input are the first ones of the whole. -/
theorem frames_prefix (part : input <+: later) : (frames cutter input).1 <+: (frames cutter later).1 := by
  obtain ⟨more, rfl⟩ := part
  rw [frames_append]
  exact List.prefix_append _ _

/-- An input made of whole frames. -/
theorem frames_flatMap {β : Type} {written : β → List α} {inner : β → List α}
    (cuts : ∀ b, cutter.cut (written b) = some (inner b, [])) (sent : List β) :
    frames cutter (sent.flatMap written) = (sent.map inner, []) := by
  induction sent with
  | nil => exact drain_nil _
  | cons b sent ih =>
      have found := cutter.stable _ _ _ (sent.flatMap written) (cuts b)
      rw [List.flatMap_cons, frames_some found, List.nil_append, ih, List.map_cons]

end Drain

end Frames
