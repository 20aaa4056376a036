import Mathlib.Data.List.DropRight
import Mathlib.Data.List.TakeWhile
import Mathlib.Data.List.Lex
import Mathlib.Data.List.Sort
import Mathlib.Order.Lex

set_option autoImplicit false

/- Lists of words: a text is cut at a separator into trimmed pieces, and words are
put into a sorted list that holds each of them once. -/
namespace Words

section Trim

variable {α : Type} (white : α → Bool)

/-- Without the white letters at both ends. -/
def trim (l : List α) : List α := (l.dropWhile white).rdropWhile white

variable {white} {l : List α} {c : α}

@[simp] theorem trim_nil : trim white [] = [] := rfl

theorem trim_cons_white (isWhite : white c = true) : trim white (c :: l) = trim white l := by
  rw [trim, List.dropWhile_cons_of_pos isWhite, trim]

theorem trim_concat_white (isWhite : white c = true) : trim white (l ++ [c]) = trim white l := by
  unfold trim
  rw [List.dropWhile_append]
  split
  · next all_white =>
      rw [List.isEmpty_iff.mp all_white, List.dropWhile_cons_of_pos isWhite]
      rfl
  · rw [List.rdropWhile_concat_pos _ _ _ isWhite]

/-- A letter at the beginning that is not white stays there. -/
theorem head?_trim_cons (solid : ¬white c = true) : (trim white (c :: l)).head? = some c := by
  rw [trim, List.dropWhile_cons_of_neg solid]
  obtain ⟨rest, kept⟩ : ∃ rest, (c :: l).rdropWhile white = c :: rest := by
    induction l using List.reverseRecOn with
    | nil => exact ⟨[], by rw [List.rdropWhile_singleton, if_neg solid]⟩
    | append_singleton init x ih =>
        rw [← List.cons_append, List.rdropWhile_concat]
        split
        · exact ih
        · exact ⟨init ++ [x], rfl⟩
  rw [kept, List.head?_cons]

theorem getLast?_trim_concat (solid : ¬white c = true) :
    (trim white (l ++ [c])).getLast? = some c := by
  unfold trim
  rw [List.dropWhile_append]
  split
  · rw [List.dropWhile_cons_of_neg solid, List.rdropWhile_singleton, if_neg solid]
    rfl
  · rw [List.rdropWhile_concat_neg _ _ _ solid, List.getLast?_concat]

theorem head?_trim (first : (trim white l).head? = some c) : ¬white c = true := by
  induction l with
  | nil => cases first
  | cons x l ih =>
      by_cases isWhite : white x = true
      · rw [trim_cons_white isWhite] at first
        exact ih first
      · rw [head?_trim_cons isWhite] at first
        cases first
        exact isWhite

theorem getLast?_trim (last : (trim white l).getLast? = some c) : ¬white c = true := by
  induction l using List.reverseRecOn with
  | nil => cases last
  | append_singleton init x ih =>
      by_cases isWhite : white x = true
      · rw [trim_concat_white isWhite] at last
        exact ih last
      · rw [getLast?_trim_concat isWhite] at last
        cases last
        exact isWhite

theorem trim_idem : trim white (trim white l) = trim white l := by
  have front : (trim white l).dropWhile white = trim white l := by
    cases whole : trim white l with
    | nil => rfl
    | cons x rest =>
        apply List.dropWhile_cons_of_neg
        exact head?_trim (by rw [whole, List.head?_cons])
  rw [trim, front, List.rdropWhile_eq_self_iff]
  intro some_left
  exact getLast?_trim (List.getLast?_eq_getLast_of_ne_nil some_left)

/-- The margins that trimming takes away. -/
theorem margins (white : α → Bool) (l : List α) :
    l = l.takeWhile white ++ (trim white l ++ (l.dropWhile white).rtakeWhile white) := by
  rw [trim, List.rdropWhile_append_rtakeWhile, List.takeWhile_append_dropWhile]

theorem trim_eq_nil (all_white : ∀ x ∈ l, white x = true) : trim white l = [] := by
  rw [trim, List.dropWhile_eq_nil_iff.mpr all_white]
  rfl

end Trim

section Pieces

variable {α : Type}

/-- The text before the last separator, and after it. -/
theorem split_last {sep : α} {l : List α} (some_sep : sep ∈ l) : ∃ a b, l = a ++ sep :: b ∧ sep ∉ b := by
  obtain ⟨b, a, reversed, none⟩ := List.eq_append_cons_of_mem (List.mem_reverse.mpr some_sep)
  refine ⟨a.reverse, b.reverse, ?_, by simpa using none⟩
  rw [← List.reverse_inj, reversed]
  simp

variable [DecidableEq α] (sep : α) (white : α → Bool)

/-- The trimmed pieces between separators, as far as there is something in them. -/
def pieces (l : List α) : List (List α) :=
  ((l.splitOn sep).map (trim white)).filter fun piece => !piece.isEmpty

variable {sep white} {l r piece : List α} {c : α}

theorem pieces_append_sep : pieces sep white (l ++ sep :: r) = pieces sep white l ++ pieces sep white r := by
  rw [pieces, List.splitOn_append_cons_self, List.map_append, List.filter_append]
  rfl

/-- A text without separators is one piece. -/
theorem pieces_of_notMem (one : sep ∉ l) : pieces sep white l =
    if (trim white l).isEmpty then [] else [trim white l] := by
  rw [pieces, List.splitOn_eq_singleton one, List.map_singleton, List.filter_singleton]
  cases (trim white l).isEmpty <;> rfl

@[simp] theorem pieces_nil : pieces sep white [] = [] := by
  rw [pieces_of_notMem List.not_mem_nil]
  rfl

theorem pieces_intercalate (texts : List (List α)) :
    pieces sep white ([sep].intercalate texts) = texts.flatMap (pieces sep white) := by
  induction texts with
  | nil => exact pieces_nil
  | cons text texts ih =>
      cases texts with
      | nil => simp
      | cons next texts =>
          rw [List.intercalate_cons_cons, List.append_assoc, List.singleton_append, pieces_append_sep,
            ih]
          rfl

theorem pieces_cons_white (isWhite : white c = true) :
    pieces sep white (c :: l) = pieces sep white l := by
  by_cases same : c = sep
  · subst same
    rw [← List.nil_append (c :: l), pieces_append_sep, pieces_nil, List.nil_append]
  by_cases some_sep : sep ∈ l
  · obtain ⟨a, b, rfl, none⟩ := List.eq_append_cons_of_mem some_sep
    have one : sep ∉ c :: a := by simp [none, Ne.symm same]
    rw [← List.cons_append, pieces_append_sep, pieces_append_sep, pieces_of_notMem one,
      pieces_of_notMem none, trim_cons_white isWhite]
  · have one : sep ∉ c :: l := by simp [some_sep, Ne.symm same]
    rw [pieces_of_notMem one, pieces_of_notMem some_sep, trim_cons_white isWhite]

theorem pieces_concat_white (isWhite : white c = true) :
    pieces sep white (l ++ [c]) = pieces sep white l := by
  by_cases same : c = sep
  · subst same
    rw [pieces_append_sep, pieces_nil, List.append_nil]
  by_cases some_sep : sep ∈ l
  · obtain ⟨a, b, rfl, none⟩ := split_last some_sep
    have one : sep ∉ b ++ [c] := by simp [none, Ne.symm same]
    rw [List.append_assoc, List.cons_append, pieces_append_sep, pieces_append_sep,
      pieces_of_notMem one, pieces_of_notMem none, trim_concat_white isWhite]
  · have one : sep ∉ l ++ [c] := by simp [some_sep, Ne.symm same]
    rw [pieces_of_notMem one, pieces_of_notMem some_sep, trim_concat_white isWhite]

theorem pieces_white_append (all_white : ∀ x ∈ l, white x = true) :
    pieces sep white (l ++ r) = pieces sep white r := by
  induction l with
  | nil => rfl
  | cons x l ih =>
      rw [List.forall_mem_cons] at all_white
      rw [List.cons_append, pieces_cons_white all_white.1, ih all_white.2]

theorem pieces_append_white (all_white : ∀ x ∈ r, white x = true) :
    pieces sep white (l ++ r) = pieces sep white l := by
  induction r using List.reverseRecOn with
  | nil => rw [List.append_nil]
  | append_singleton init x ih =>
      rw [List.forall_mem_append] at all_white
      rw [← List.append_assoc, pieces_concat_white (all_white.2 x (List.mem_singleton_self x)),
        ih all_white.1]

/-- A line has no separator in it. -/
theorem notMem_of_mem_splitOn {line : List α} (inLines : line ∈ l.splitOn sep) : sep ∉ line := by
  have lines : ∀ (n : Nat) (l : List α), l.length ≤ n → ∀ line ∈ l.splitOn sep, sep ∉ line := by
    intro n
    induction n with
    | zero =>
        intro l short line inLines
        rw [List.length_eq_zero_iff.mp (Nat.le_zero.mp short), List.splitOn_nil,
          List.mem_singleton] at inLines
        rw [inLines]
        exact List.not_mem_nil
    | succ n ih =>
        intro l short line inLines
        by_cases some_sep : sep ∈ l
        · obtain ⟨a, b, rfl, none⟩ := List.eq_append_cons_of_mem some_sep
          rw [List.splitOn_append_cons_self_of_not_mem none, List.mem_cons] at inLines
          rw [List.length_append, List.length_cons] at short
          cases inLines with
          | inl first =>
              rw [first]
              exact none
          | inr later => exact ih b (by omega) line later
        · rw [List.splitOn_eq_singleton some_sep, List.mem_singleton] at inLines
          rw [inLines]
          exact some_sep
  exact lines _ l (Nat.le_refl _) line inLines

/-- A piece has no separator in it, nothing to trim, and something to show. -/
theorem of_mem_pieces (member : piece ∈ pieces sep white l) :
    sep ∉ piece ∧ trim white piece = piece ∧ piece ≠ [] := by
  obtain ⟨inMap, some_left⟩ := List.mem_filter.mp member
  obtain ⟨line, inLines, rfl⟩ := List.mem_map.mp inMap
  refine ⟨?_, trim_idem, by simpa using some_left⟩
  intro inTrim
  have inLine : sep ∈ line := by
    rw [margins white line]
    exact List.mem_append_right _ (List.mem_append_left _ inTrim)
  exact notMem_of_mem_splitOn inLines inLine

/-- A solid letter at the beginning begins a piece. -/
theorem exists_piece_head (solid : ¬white c = true) (letter : c ≠ sep) :
    ∃ piece ∈ pieces sep white (c :: l), piece.head? = some c := by
  have begins {rest : List α} (one : sep ∉ c :: rest) :
      trim white (c :: rest) ∈ pieces sep white (c :: rest) := by
    rw [pieces_of_notMem one]
    cases whole : trim white (c :: rest) with
    | nil =>
        have first := head?_trim_cons (l := rest) solid
        rw [whole] at first
        cases first
    | cons x others => simp
  by_cases some_sep : sep ∈ l
  · obtain ⟨a, b, rfl, none⟩ := List.eq_append_cons_of_mem some_sep
    refine ⟨trim white (c :: a), ?_, head?_trim_cons solid⟩
    rw [← List.cons_append, pieces_append_sep]
    exact List.mem_append_left _ (begins (by simp [none, Ne.symm letter]))
  · exact ⟨_, begins (by simp [some_sep, Ne.symm letter]), head?_trim_cons solid⟩

theorem exists_piece_last (solid : ¬white c = true) (letter : c ≠ sep) :
    ∃ piece ∈ pieces sep white (l ++ [c]), piece.getLast? = some c := by
  have ends {rest : List α} (one : sep ∉ rest ++ [c]) :
      trim white (rest ++ [c]) ∈ pieces sep white (rest ++ [c]) := by
    rw [pieces_of_notMem one]
    cases whole : trim white (rest ++ [c]) with
    | nil =>
        have last := getLast?_trim_concat (l := rest) solid
        rw [whole] at last
        cases last
    | cons x others => simp
  by_cases some_sep : sep ∈ l
  · obtain ⟨a, b, rfl, none⟩ := split_last some_sep
    refine ⟨trim white (b ++ [c]), ?_, getLast?_trim_concat solid⟩
    rw [List.append_assoc, List.cons_append, pieces_append_sep]
    exact List.mem_append_right _ (ends (by simp [none, Ne.symm letter]))
  · exact ⟨_, ends (by simp [some_sep, Ne.symm letter]), getLast?_trim_concat solid⟩

end Pieces

section Sorted

variable {α β : Type} [LinearOrder β] (key : α → β)

def sortBy (l : List α) : List α := l.insertionSort fun s t => key s ≤ key t

/-- Strictly ascending. -/
def Ascending (l : List α) : Prop := l.Pairwise fun s t => key s < key t

variable {key} {l r : List α}

@[simp] theorem mem_sortBy {s : α} : s ∈ sortBy key l ↔ s ∈ l := List.mem_insertionSort _

theorem pairwise_sortBy : (sortBy key l).Pairwise fun s t => key s ≤ key t := by
  have total : Std.Total fun s t : α => key s ≤ key t := ⟨fun s t => le_total (key s) (key t)⟩
  have trans : IsTrans α fun s t => key s ≤ key t := ⟨fun _ _ _ first second => first.trans second⟩
  exact List.pairwise_insertionSort _ l

/-- Ascending lists of the same words are equal. -/
theorem Ascending.unique (left : Ascending key l) (right : Ascending key r)
    (same : ∀ s, s ∈ l ↔ s ∈ r) : l = r := by
  have nodup {words : List α} (ascending : Ascending key words) : words.Nodup :=
    ascending.imp fun less equal => absurd (congrArg key equal) (ne_of_lt less)
  apply List.Perm.eq_of_pairwise ?_ left right
  · exact (List.perm_ext_iff_of_nodup (nodup left) (nodup right)).mpr same
  · intro s t _ _ less more
    exact absurd more (not_lt_of_gt less)

variable [DecidableEq α]

/-- Drops an element that equals the one before it. -/
def dedup : List α → List α
  | s :: t :: rest => if s = t then dedup (t :: rest) else s :: dedup (t :: rest)
  | l => l

theorem mem_dedup {s : α} : s ∈ dedup l ↔ s ∈ l := by
  induction l using dedup.induct with
  | case1 t rest ih =>
      rw [dedup, if_pos rfl, ih]
      simp
  | case2 u t rest distinct ih =>
      rw [dedup, if_neg distinct, List.mem_cons, ih]
      simp
  | case3 l short =>
      match l, short with
      | [], _ => rfl
      | [_], _ => rfl
      | u :: t :: rest, short => exact absurd rfl (short u t rest)

theorem ascending_dedup (injective : Function.Injective key)
    (sorted : l.Pairwise fun s t => key s ≤ key t) : Ascending key (dedup l) := by
  induction l using dedup.induct with
  | case1 t rest ih =>
      rw [dedup, if_pos rfl]
      exact ih (List.pairwise_cons.mp sorted).2
  | case2 u t rest distinct ih =>
      rw [List.pairwise_cons] at sorted
      rw [dedup, if_neg distinct, Ascending, List.pairwise_cons]
      refine ⟨?_, ih sorted.2⟩
      intro s member
      rw [mem_dedup] at member
      have next : key u < key t :=
        lt_of_le_of_ne (sorted.1 t List.mem_cons_self) (fun same => distinct (injective same))
      rcases List.mem_cons.mp member with rfl | later
      · exact next
      · exact lt_of_lt_of_le next ((List.pairwise_cons.mp sorted.2).1 s later)
  | case3 l short =>
      match l, short with
      | [], _ => exact List.Pairwise.nil
      | [t], _ => exact List.pairwise_singleton _ t
      | u :: t :: rest, short => exact absurd rfl (short u t rest)

theorem ascending_canonical (injective : Function.Injective key) :
    Ascending key (dedup (sortBy key l)) := ascending_dedup injective pairwise_sortBy

theorem mem_canonical {s : α} : s ∈ dedup (sortBy key l) ↔ s ∈ l := by
  rw [mem_dedup, mem_sortBy]

end Sorted

end Words
