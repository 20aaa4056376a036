import Mathlib.Data.Set.Insert
import Mathlib.Order.BoundedOrder.Basic
import Mathlib.Order.Lattice

set_option autoImplicit false

/- Updates that authors publish under numbers of their own, each with a vector of the numbers
it builds on. A vector claims, of every author, the updates up to its component. -/
namespace Ledger

structure Update (κ ν Item : Type) where
  author : κ
  vector : κ → ν
  items : Set Item

variable {κ ν Item : Type}

def Update.number (u : Update κ ν Item) : ν := u.vector u.author

variable [LinearOrder ν] [OrderBot ν]

/-- Each component of `v` has been published. -/
def Seen (ledger : Set (Update κ ν Item)) (v : κ → ν) : Prop :=
  ∀ id, v id = ⊥ ∨ ∃ u ∈ ledger, v id ≤ u.vector id

omit [OrderBot ν] in
/-- `held` contains the items of every update that `v` claims. -/
def Covers (ledger : Set (Update κ ν Item)) (v : κ → ν) (held : Set Item) : Prop :=
  ∀ u ∈ ledger, u.number ≤ v u.author → u.items ⊆ held

/-- The number of `u` is larger than whatever has been published of its author. -/
structure Fresh (ledger : Set (Update κ ν Item)) (u : Update κ ν Item) : Prop where
  positive : ⊥ < u.number
  unseen : ∀ e ∈ ledger, e.vector u.author < u.number

/-- A vector with published components whose claims are held. -/
structure Vouched (ledger : Set (Update κ ν Item)) (v : κ → ν) (held : Set Item) : Prop where
  seen : Seen ledger v
  covers : Covers ledger v held

variable {ledger later : Set (Update κ ν Item)} {u : Update κ ν Item} {v w : κ → ν}
  {held more : Set Item}

theorem Seen.mono (seen : Seen ledger v) (grown : ledger ⊆ later) : Seen later v := by
  intro id
  rcases seen id with zero | ⟨e, published, least⟩
  · exact Or.inl zero
  · exact Or.inr ⟨e, grown published, least⟩

theorem Seen.of_mem (published : u ∈ ledger) : Seen ledger u.vector :=
  fun _ => Or.inr ⟨u, published, le_refl _⟩

theorem Seen.sup (left : Seen ledger v) (right : Seen ledger w) : Seen ledger (v ⊔ w) := by
  intro id
  rcases le_total (v id) (w id) with less | less
  · rw [Pi.sup_apply, sup_eq_right.mpr less]
    exact right id
  · rw [Pi.sup_apply, sup_eq_left.mpr less]
    exact left id

/-- A published vector does not know a fresh number. -/
theorem Seen.lt_of_fresh (seen : Seen ledger v) (fresh : Fresh ledger u) : v u.author < u.number := by
  rcases seen u.author with zero | ⟨e, published, least⟩
  · rw [zero]
    exact fresh.positive
  · exact lt_of_le_of_lt least (fresh.unseen e published)

omit [OrderBot ν] in
theorem Covers.mono (covers : Covers ledger v held) (grown : held ⊆ more) : Covers ledger v more :=
  fun e published claimed => (covers e published claimed).trans grown

omit [OrderBot ν] in
theorem Covers.of_le (covers : Covers ledger w held) (le : v ≤ w) : Covers ledger v held :=
  fun e published claimed => covers e published (claimed.trans (le e.author))

omit [OrderBot ν] in
theorem Covers.sup (left : Covers ledger v held) (right : Covers ledger w held) :
    Covers ledger (v ⊔ w) held := by
  intro e published claimed
  rcases le_sup_iff.mp (show e.number ≤ v e.author ⊔ w e.author from claimed) with here | there
  · exact left e published here
  · exact right e published there

namespace Vouched

theorem mono (vouched : Vouched ledger v held) (grown : held ⊆ more) : Vouched ledger v more :=
  ⟨vouched.seen, vouched.covers.mono grown⟩

theorem sup (left : Vouched ledger v held) (right : Vouched ledger w held) :
    Vouched ledger (v ⊔ w) held :=
  ⟨left.seen.sup right.seen, left.covers.sup right.covers⟩

theorem bot (positive : ∀ u ∈ ledger, ⊥ < u.number) : Vouched ledger (fun _ => ⊥) held :=
  ⟨fun _ => Or.inl rfl, fun u published claimed => absurd (positive u published) (not_lt_of_ge claimed)⟩

/-- A fresh update makes no other vector claim more than it did. -/
theorem insert (vouched : Vouched ledger v held) (fresh : Fresh ledger u) :
    Vouched (insert u ledger) v held := by
  refine ⟨vouched.seen.mono (Set.subset_insert _ _), ?_⟩
  rintro e (rfl | published) claimed
  · exact absurd (vouched.seen.lt_of_fresh fresh) (not_lt_of_ge claimed)
  · exact vouched.covers e published claimed

/-- The vector of an update that builds on `v` and takes the next number of its author. -/
theorem publish (vouched : Vouched ledger v held) (fresh : Fresh ledger u)
    (others : ∀ id, id ≠ u.author → u.vector id = v id) (next : ∀ n, n < u.number → n ≤ v u.author)
    (own : u.items ⊆ held) : Vouched (Insert.insert u ledger) u.vector held := by
  refine ⟨Seen.of_mem (Set.mem_insert _ _), ?_⟩
  rintro e (rfl | published) claimed
  · exact own
  · apply vouched.covers e published
    by_cases same : e.author = u.author
    · have below : e.number < u.number := by
        rw [Update.number, same]
        exact fresh.unseen e published
      rw [same]
      exact next _ below
    · rw [← others _ same]
      exact claimed

end Vouched

end Ledger
