import Mathlib.Data.List.Induction
import Mathlib.Data.List.MinMax
import Mathlib.Order.Monotone.Defs

set_option autoImplicit false

/- A replica that merges what it receives and takes over the payload of an item that
outranks everything merged so far. Which payloads some order of delivery can end with. -/
namespace Takeover

variable {V R P : Type} [LinearOrder R]

/-- Merging gives a least upper bound and ranks follow inclusion. -/
structure Ranked [Preorder V] (merge : V → V → V) (rank : V → R) : Prop where
  le_left : ∀ a b, a ≤ merge a b
  le_right : ∀ a b, b ≤ merge a b
  least : ∀ a b c, a ≤ c → b ≤ c → merge a b ≤ c
  mono : Monotone rank

variable (merge : V → V → V) (rank : V → R)

/-- Receives one item. -/
def takeIn (s b : V × P) : V × P := (merge s.1 b.1, if rank s.1 < rank b.1 then b.2 else s.2)

/-- Everything in `v` and the items. -/
def joined (v : V) (items : List (V × P)) : V := items.foldl (fun v b => merge v b.1) v

/-- The items that `r` outranks. -/
def below (r : V × P) (items : List (V × P)) : List (V × P) :=
  items.filter fun b => rank b.1 < rank r.1

/-- `r` outranks the start and all the items below it taken together. -/
def Unanswered (v : V) (items : List (V × P)) (r : V × P) : Prop :=
  rank (joined merge v (below rank r items)) < rank r.1

/-- The start, or an item that outranks it, above which nothing is unanswered. -/
structure Contender (s : V × P) (items : List (V × P)) (b : V × P) : Prop where
  leads : b = s ∨ b ∈ items ∧ rank s.1 < rank b.1
  unbeaten : ∀ r ∈ items, rank b.1 < rank r.1 → ¬ Unanswered merge rank s.1 items r

section Joined

variable {merge rank} {v w : V} {items more : List (V × P)} {b r : V × P}

@[simp] theorem joined_nil : joined merge v ([] : List (V × P)) = v := rfl

@[simp] theorem joined_cons : joined merge v (b :: items) = joined merge (merge v b.1) items := rfl

theorem joined_append : joined merge v (items ++ more) = joined merge (joined merge v items) more :=
  List.foldl_append

theorem foldl_takeIn_fst (s : V × P) (items : List (V × P)) :
    (items.foldl (takeIn merge rank) s).1 = joined merge s.1 items := by
  induction items generalizing s with
  | nil => rfl
  | cons b rest ih => exact ih _

theorem mem_below : b ∈ below rank r items ↔ b ∈ items ∧ rank b.1 < rank r.1 := by
  rw [below, List.mem_filter, decide_eq_true_eq]

variable [Preorder V] (ranked : Ranked merge rank)
include ranked

theorem le_joined (v : V) (items : List (V × P)) : v ≤ joined merge v items := by
  induction items generalizing v with
  | nil => exact le_refl v
  | cons b rest ih => exact le_trans (ranked.le_left v b.1) (ih _)

theorem mem_le_joined (member : b ∈ items) : b.1 ≤ joined merge v items := by
  induction items generalizing v with
  | nil => cases member
  | cons c rest ih =>
      cases List.mem_cons.mp member with
      | inl same => exact same ▸ le_trans (ranked.le_right v b.1) (le_joined ranked _ rest)
      | inr later => exact ih later

theorem joined_le (start : v ≤ w) (each : ∀ b ∈ items, b.1 ≤ w) : joined merge v items ≤ w := by
  induction items generalizing v with
  | nil => exact start
  | cons b rest ih =>
      apply ih
      · exact ranked.least v b.1 w start (each b List.mem_cons_self)
      · exact fun c member => each c (List.mem_cons_of_mem b member)

theorem joined_subset (sub : items ⊆ more) : joined merge v items ≤ joined merge v more :=
  joined_le ranked (le_joined ranked v more) fun _ member => mem_le_joined ranked (sub member)

/-- What more items are there to be merged, the fewer stay unanswered. -/
theorem Unanswered.of_subset (sub : items ⊆ more) (held : Unanswered merge rank v more r) :
    Unanswered merge rank v items r := by
  apply lt_of_le_of_lt (ranked.mono (joined_subset ranked ?_)) held
  intro b member
  obtain ⟨listed, lower⟩ := mem_below.mp member
  exact mem_below.mpr ⟨sub listed, lower⟩

end Joined

section Orders

variable {merge rank} {s b : V × P} {items order : List (V × P)}

/-- Where each item is outranked by what precedes it, the first payload stays. -/
theorem foldl_takeIn_keeps {s : V × P} {order : List (V × P)}
    (outranked : ∀ before r after, order = before ++ r :: after →
      rank r.1 ≤ rank (joined merge s.1 before)) :
    (order.foldl (takeIn merge rank) s).2 = s.2 := by
  induction order using List.reverseRecOn with
  | nil => rfl
  | append_singleton earlier x ih =>
      rw [List.foldl_append, List.foldl_cons, List.foldl_nil, takeIn, foldl_takeIn_fst]
      rw [if_neg (not_lt_of_ge (outranked earlier x [] rfl))]
      apply ih
      rintro before r after rfl
      apply outranked before r (after ++ [x])
      simp

variable [Preorder V]

theorem Contender.of_same (ranked : Ranked merge rank) (sub : ∀ c, c ∈ items ↔ c ∈ order)
    (contender : Contender merge rank s items b) : Contender merge rank s order b := by
  refine ⟨contender.leads.imp_right (And.imp_left (sub b).mp), ?_⟩
  intro r member above unanswered
  exact contender.unbeaten r ((sub r).mpr member) above
    (unanswered.of_subset ranked fun c listed => (sub c).mp listed)

variable (ranked : Ranked merge rank)
include ranked

/-- What a delivery ends with is the payload of a contender. -/
theorem exists_contender (s : V × P) (order : List (V × P)) :
    ∃ b, Contender merge rank s order b ∧ (order.foldl (takeIn merge rank) s).2 = b.2 := by
  induction order using List.reverseRecOn with
  | nil => exact ⟨s, ⟨Or.inl rfl, fun _ member => nomatch member⟩, rfl⟩
  | append_singleton earlier x ih =>
      obtain ⟨b, contender, ends⟩ := ih
      rw [List.foldl_append, List.foldl_cons, List.foldl_nil, takeIn, foldl_takeIn_fst]
      have bounded : ∀ r ∈ earlier, rank r.1 ≤ rank (joined merge s.1 earlier) :=
        fun r member => ranked.mono (mem_le_joined ranked member)
      by_cases taken : rank (joined merge s.1 earlier) < rank x.1
      · -- the newcomer outranks all the others
        refine ⟨x, ⟨Or.inr ⟨?_, ?_⟩, ?_⟩, if_pos taken⟩
        · exact List.mem_append_right _ List.mem_cons_self
        · exact lt_of_le_of_lt (ranked.mono (le_joined ranked s.1 earlier)) taken
        · intro r member above
          cases List.mem_append.mp member with
          | inl old => exact absurd (lt_trans above (lt_of_le_of_lt (bounded r old) taken)) (lt_irrefl _)
          | inr new => exact absurd (List.mem_singleton.mp new ▸ above) (lt_irrefl _)
      · refine ⟨b, ⟨contender.leads.imp_right (And.imp_left (List.mem_append_left [x])), ?_⟩, ?_⟩
        · intro r member above unanswered
          have before := unanswered.of_subset ranked (List.subset_append_left earlier [x])
          cases List.mem_append.mp member with
          | inl old => exact contender.unbeaten r old above before
          | inr new =>
              obtain rfl := List.mem_singleton.mp new
              -- the lowest of the earlier items not below the newcomer is unanswered too
              have some_above : (earlier.filter fun c => rank r.1 ≤ rank c.1) ≠ [] := by
                intro none_above
                apply taken
                apply lt_of_le_of_lt (ranked.mono (joined_subset ranked ?_)) before
                intro c listed
                refine mem_below.mpr ⟨listed, lt_of_not_ge fun higher => ?_⟩
                have kept : c ∈ earlier.filter fun c => rank r.1 ≤ rank c.1 :=
                  List.mem_filter.mpr ⟨listed, decide_eq_true higher⟩
                rw [none_above] at kept
                cases kept
              obtain ⟨lowest, found⟩ := Option.ne_none_iff_exists'.mp
                (mt (List.argmin_eq_none (f := fun c : V × P => rank c.1)).mp some_above)
              obtain ⟨listed, higher⟩ := List.mem_filter.mp (List.argmin_mem found)
              have higher' : rank r.1 ≤ rank lowest.1 := of_decide_eq_true higher
              apply contender.unbeaten lowest listed (lt_of_lt_of_le above higher')
              apply lt_of_le_of_lt (ranked.mono (joined_subset ranked ?_))
                (lt_of_lt_of_le before higher')
              intro c member
              obtain ⟨inside, lower⟩ := mem_below.mp member
              refine mem_below.mpr ⟨inside, lt_of_not_ge fun reaches => ?_⟩
              have kept : c ∈ earlier.filter fun c => rank r.1 ≤ rank c.1 :=
                List.mem_filter.mpr ⟨inside, decide_eq_true reaches⟩
              have least := List.le_of_mem_argmin (f := fun c : V × P => rank c.1) kept found
              exact absurd lower (not_lt_of_ge least)
        · rw [if_neg taken]
          exact ends

/-- Every contender is what some order of delivery ends with: itself first, then the
others from the lowest rank up. -/
theorem Contender.exists_order (contender : Contender merge rank s items b) :
    ∃ order : List (V × P), order.Perm items ∧ (order.foldl (takeIn merge rank) s).2 = b.2 := by
  let ascending (rest : List (V × P)) := rest.mergeSort fun c d => rank c.1 ≤ rank d.1
  have sorted : ∀ rest, (ascending rest).Pairwise fun c d => rank c.1 ≤ rank d.1 := by
    intro rest
    have pairs : (ascending rest).Pairwise fun c d => decide (rank c.1 ≤ rank d.1) = true := by
      apply List.pairwise_mergeSort
      · intro c d e
        simpa using le_trans
      · intro c d
        simpa using le_total (rank c.1) (rank d.1)
    exact pairs.imp fun held => of_decide_eq_true held
  have keeps : ∀ t rest, s.1 ≤ t → b.1 ≤ t → (∀ c ∈ items, c = b ∨ c ∈ rest) → rest ⊆ items →
      ((ascending rest).foldl (takeIn merge rank) (t, b.2)).2 = b.2 := by
    intro t rest start own complete sub
    apply foldl_takeIn_keeps
    intro before r after split
    have grown := le_joined ranked t before
    have listed : r ∈ items := by
      apply sub
      rw [← (List.mergeSort_perm rest _).mem_iff]
      exact split ▸ List.mem_append_right before List.mem_cons_self
    apply le_of_not_gt
    intro taken
    have above := lt_of_le_of_lt (ranked.mono (le_trans own grown)) taken
    apply contender.unbeaten r listed above
    apply lt_of_le_of_lt (ranked.mono (joined_le ranked (le_trans start grown) ?_)) taken
    intro c member
    obtain ⟨inside, lower⟩ := mem_below.mp member
    cases complete c inside with
    | inl same => exact same ▸ le_trans own grown
    | inr other =>
        rw [← (List.mergeSort_perm rest fun c d => rank c.1 ≤ rank d.1).mem_iff] at other
        rw [show rest.mergeSort _ = before ++ r :: after from split] at other
        have ordered := sorted rest
        rw [split, List.pairwise_append] at ordered
        have tail := (List.pairwise_cons.mp ordered.2.1).1
        cases List.mem_append.mp other with
        | inl first => exact mem_le_joined ranked first
        | inr later =>
            cases List.mem_cons.mp later with
            | inl same => exact absurd (same ▸ lower) (lt_irrefl _)
            | inr beyond => exact absurd lower (not_lt_of_ge (tail c beyond))
  rcases contender.leads with rfl | ⟨member, leading⟩
  · refine ⟨ascending items, List.mergeSort_perm items _, ?_⟩
    exact keeps b.1 items le_rfl le_rfl (fun c member => Or.inr member) (fun _ member => member)
  · obtain ⟨first, last, rfl⟩ := List.append_of_mem member
    have perm : (b :: (first ++ last)).Perm (first ++ b :: last) := List.perm_middle.symm
    refine ⟨b :: ascending (first ++ last), ((List.mergeSort_perm _ _).cons b).trans perm, ?_⟩
    rw [List.foldl_cons, takeIn, if_pos leading]
    apply keeps
    · exact ranked.le_left s.1 b.1
    · exact ranked.le_right s.1 b.1
    · intro c listed
      exact List.mem_cons.mp (perm.mem_iff.mpr listed)
    · intro c listed
      exact perm.mem_iff.mp (List.mem_cons_of_mem b listed)

/-- All orders of delivery end with one payload exactly where all contenders hold it. -/
theorem orders_agree_iff (s : V × P) (items : List (V × P)) :
    (∀ order order' : List (V × P), order.Perm items → order'.Perm items →
      (order.foldl (takeIn merge rank) s).2 = (order'.foldl (takeIn merge rank) s).2) ↔
      ∀ b b', Contender merge rank s items b → Contender merge rank s items b' → b.2 = b'.2 := by
  constructor
  · intro agree b b' contender contender'
    obtain ⟨order, perm, ends⟩ := contender.exists_order ranked
    obtain ⟨order', perm', ends'⟩ := contender'.exists_order ranked
    rw [← ends, ← ends']
    exact agree order order' perm perm'
  · intro same order order' perm perm'
    obtain ⟨b, contender, ends⟩ := exists_contender ranked s order
    obtain ⟨b', contender', ends'⟩ := exists_contender ranked s order'
    rw [ends, ends']
    exact same b b' (contender.of_same ranked fun _ => perm.mem_iff)
      (contender'.of_same ranked fun _ => perm'.mem_iff)

end Orders

end Takeover
