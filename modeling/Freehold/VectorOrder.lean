import Freehold.VersionVector

set_option autoImplicit false

namespace Freehold

namespace VersionVector

variable {v w u : VersionVector} {id : DeviceId}

/-- Componentwise; an absent component counts as zero. -/
instance : Preorder VersionVector where
  le v w := ∀ id, v.get id ≤ w.get id
  le_refl _ _ := UInt64.le_refl _
  le_trans _ _ _ first second id := UInt64.le_trans (first id) (second id)

theorem le_def : v ≤ w ↔ ∀ id, v.get id ≤ w.get id := Iff.rfl

theorem get_of_absent (absent : v.counts[id]? = none) : v.get id = 0 := by
  rw [get, Std.ExtTreeMap.getD_eq_getD_getElem?, absent]
  rfl

/-- The components that are stored and not zero, in the order of their ids. -/
def entries (v : VersionVector) : List (DeviceId × UInt64) :=
  v.counts.toList.filter fun entry => entry.2 > 0

theorem deviceIdSet_eq (v : VersionVector) : v.deviceIdSet = v.entries.map Prod.fst := rfl

theorem encode_eq (v : VersionVector) : v.encode = leBytes 4 v.entries.length ++
    v.entries.flatMap fun entry => entry.1.bytes ++ leBytes 8 entry.2.toNat := rfl

theorem mem_toList {entry : DeviceId × UInt64} (member : entry ∈ v.counts.toList) :
    v.get entry.1 = entry.2 := by
  rw [Std.ExtTreeMap.mem_toList_iff_getElem?_eq_some] at member
  rw [get, Std.ExtTreeMap.getD_eq_getD_getElem?, member, Option.getD_some]

theorem mem_entries {entry : DeviceId × UInt64} :
    entry ∈ v.entries ↔ v.get entry.1 = entry.2 ∧ 0 < entry.2 := by
  rw [entries, List.mem_filter, decide_eq_true_eq]
  constructor
  · exact fun held => ⟨mem_toList held.1, held.2⟩
  · rintro ⟨same, positive⟩
    refine ⟨?_, positive⟩
    rw [Std.ExtTreeMap.mem_toList_iff_getElem?_eq_some]
    cases found : v.counts[entry.1]? with
    | none =>
        rw [← same, get_of_absent found] at positive
        exact absurd positive (by decide)
    | some c =>
        rw [get, Std.ExtTreeMap.getD_eq_getD_getElem?, found, Option.getD_some] at same
        rw [same]

theorem pairwise_entries (v : VersionVector) :
    v.entries.Pairwise fun e f => compare e.1 f.1 = .lt :=
  Std.ExtTreeMap.ordered_keys_toList.filter _

theorem nodup_keys (v : VersionVector) : (v.counts.toList.map Prod.fst).Nodup := by
  rw [List.Nodup, List.pairwise_map]
  apply Std.ExtTreeMap.ordered_keys_toList.imp
  intro e f less same
  rw [same] at less
  simp at less

/-- Vectors with the same components have the same entries. -/
theorem entries_congr (same : ∀ id, v.get id = w.get id) : v.entries = w.entries := by
  have members : ∀ entry, entry ∈ v.entries ↔ entry ∈ w.entries := by
    intro entry
    rw [mem_entries, mem_entries, same]
  have nodup : ∀ u : VersionVector, u.entries.Nodup := by
    intro u
    apply u.pairwise_entries.imp
    rintro e f less rfl
    simp at less
  apply List.Perm.eq_of_pairwise ?_ v.pairwise_entries w.pairwise_entries
  · exact (List.perm_ext_iff_of_nodup (nodup v) (nodup w)).mpr members
  · intro e f _ _ less more
    exact absurd more (Std.OrientedCmp.not_lt_of_lt less)

theorem deviceIdSet_congr (same : ∀ id, v.get id = w.get id) : v.deviceIdSet = w.deviceIdSet := by
  rw [deviceIdSet_eq, deviceIdSet_eq, entries_congr same]

theorem encode_congr (same : ∀ id, v.get id = w.get id) : v.encode = w.encode := by
  rw [encode_eq, encode_eq, entries_congr same]

theorem get_eq_of_le_of_le (le : v ≤ w) (ge : w ≤ v) (id : DeviceId) : v.get id = w.get id :=
  UInt64.le_antisymm (le id) (ge id)

section Merge

/-- The component of a merge in progress, with the entries `l` still to come. -/
theorem get_foldl_modify_of_not_mem {l : List (DeviceId × UInt64)} (absent : id ∉ l.map Prod.fst) :
    (l.foldl (fun merged entry => merged.modify entry.1 fun e => if entry.2 > e then entry.2 else e)
      v).get id = v.get id := by
  induction l generalizing v with
  | nil => rfl
  | cons entry rest ih =>
      rw [List.map_cons, List.mem_cons, not_or] at absent
      rw [List.foldl_cons, ih absent.2, get_modify_of_ne _ _ (Ne.symm absent.1)]

theorem get_foldl_modify_of_mem {l : List (DeviceId × UInt64)} {c : UInt64}
    (distinct : (l.map Prod.fst).Nodup) (member : (id, c) ∈ l) :
    (l.foldl (fun merged entry => merged.modify entry.1 fun e => if entry.2 > e then entry.2 else e)
      v).get id = if c > v.get id then c else v.get id := by
  induction l generalizing v with
  | nil => cases member
  | cons entry rest ih =>
      obtain ⟨fresh, distinct'⟩ := List.nodup_cons.mp distinct
      rw [List.foldl_cons]
      cases List.mem_cons.mp member with
      | inl here =>
          subst here
          rw [get_foldl_modify_of_not_mem fresh, get_modify_self]
      | inr later =>
          have apart : entry.1 ≠ id := by
            rintro rfl
            exact fresh (List.mem_map.mpr ⟨_, later, rfl⟩)
          rw [ih distinct' later, get_modify_of_ne _ _ apart]

theorem get_mergeMax (v w : VersionVector) (id : DeviceId) :
    (v.mergeMax w).get id = if w.get id > v.get id then w.get id else v.get id := by
  rw [mergeMax, Std.ExtTreeMap.foldl_eq_foldl_toList]
  by_cases stored : id ∈ w.counts.toList.map Prod.fst
  · obtain ⟨entry, member, rfl⟩ := List.mem_map.mp stored
    rw [mem_toList member]
    exact get_foldl_modify_of_mem w.nodup_keys member
  · have zero : w.get id = 0 := by
      cases held : w.counts[id]? with
      | none => exact get_of_absent held
      | some c =>
          have member := Std.ExtTreeMap.mem_toList_iff_getElem?_eq_some.mpr held
          exact absurd (List.mem_map.mpr ⟨_, member, rfl⟩) stored
    have least : ¬ (0 : UInt64) > v.get id := by
      rw [gt_iff_lt, UInt64.lt_iff_toNat_lt]
      exact Nat.not_lt_zero _
    rw [zero, if_neg least]
    exact get_foldl_modify_of_not_mem stored

theorem le_mergeMax_left (v w : VersionVector) : v ≤ v.mergeMax w := by
  intro id
  rw [get_mergeMax]
  split
  · next less => exact UInt64.le_of_lt less
  · exact UInt64.le_refl _

theorem le_mergeMax_right (v w : VersionVector) : w ≤ v.mergeMax w := by
  intro id
  rw [get_mergeMax]
  split
  · exact UInt64.le_refl _
  · next least => exact UInt64.not_lt.mp least

theorem mergeMax_le (left : v ≤ u) (right : w ≤ u) : v.mergeMax w ≤ u := by
  intro id
  rw [get_mergeMax]
  split
  · exact right id
  · exact left id

end Merge

section Order

/-- Some id stored in either vector has a larger component in the first. -/
theorem any_gt_iff (v w : VersionVector) (ids : List DeviceId) (listed : v.counts.keys ⊆ ids) :
    (ids.any fun id => v.get id > w.get id) = true ↔ ¬ v ≤ w := by
  rw [List.any_eq_true]
  constructor
  · rintro ⟨id, _, greater⟩ le
    exact UInt64.not_lt.mpr (le id) (of_decide_eq_true greater)
  · intro apart
    rw [le_def, not_forall] at apart
    obtain ⟨id, greater⟩ := apart
    rw [UInt64.not_le] at greater
    refine ⟨id, listed ?_, decide_eq_true greater⟩
    rw [Std.ExtTreeMap.mem_keys, ← Std.ExtTreeMap.isSome_getElem?_iff_mem, Option.isSome_iff_exists]
    cases found : v.counts[id]? with
    | some c => exact ⟨c, rfl⟩
    | none =>
        rw [get_of_absent found, UInt64.lt_iff_toNat_lt] at greater
        exact absurd greater (Nat.not_lt_zero _)

/-- `relation` by the two componentwise comparisons. -/
theorem relation_eq (v w : VersionVector) :
    (w ≤ v → v ≤ w → v.relation w = .equal) ∧ (w ≤ v → ¬ v ≤ w → v.relation w = .dominates) ∧
      (¬ w ≤ v → v ≤ w → v.relation w = .dominatedBy) ∧
      (¬ w ≤ v → ¬ v ≤ w → v.relation w = .concurrent) := by
  have self := any_gt_iff v w (v.counts.keys ++ w.counts.keys) (List.subset_append_left _ _)
  have other := any_gt_iff w v (v.counts.keys ++ w.counts.keys) (List.subset_append_right _ _)
  unfold relation
  refine ⟨?_, ?_, ?_, ?_⟩
  all_goals
    intro right left
    simp only [right, left, not_true, not_false_eq_true, iff_true, iff_false, Bool.not_eq_true] at self other
    simp only [self, other]

end Order

end VersionVector

theorem map_lt_map_iff {α : Type} [LT α] {f : α → Nat} (strict : ∀ a b, a < b ↔ f a < f b)
    (inj : Function.Injective f) {l l' : List α} : l.map f < l'.map f ↔ l < l' := by
  induction l generalizing l' with
  | nil => cases l' <;> simp
  | cons a rest ih =>
      cases l' with
      | nil => simp
      | cons b rest' =>
          rw [List.map_cons, List.map_cons, List.cons_lt_cons_iff, List.cons_lt_cons_iff, ih,
            strict a b, inj.eq_iff]

namespace VersionVector

/-- All the updates a vector counts. -/
noncomputable def count (v : VersionVector) : Nat := ∑ id, (v.get id).toNat

theorem sum_toList (v : VersionVector) :
    (v.counts.toList.map fun entry => entry.2.toNat).sum = v.count := by
  have stored : (v.counts.toList.map fun entry => entry.2.toNat) =
      (v.counts.toList.map Prod.fst).map fun id => (v.get id).toNat := by
    rw [List.map_map]
    apply List.map_congr_left
    intro entry member
    rw [Function.comp_apply, mem_toList member]
  rw [stored, ← List.sum_toFinset _ v.nodup_keys, count]
  apply Finset.sum_subset (Finset.subset_univ _)
  intro id _ absent
  have none_stored : v.counts[id]? = none := by
    rw [Option.eq_none_iff_forall_ne_some]
    intro c held
    have member := Std.ExtTreeMap.mem_toList_iff_getElem?_eq_some.mpr held
    exact absent (List.mem_toFinset.mpr (List.mem_map.mpr ⟨_, member, rfl⟩))
  rw [get_of_absent none_stored]
  rfl

theorem foldl_saturatingAdd (l : List (DeviceId × UInt64)) (total : UInt64) :
    (l.foldl (fun total entry => saturatingAdd total entry.2) total).toNat =
      min (total.toNat + (l.map fun entry => entry.2.toNat).sum) (2 ^ 64 - 1) := by
  induction l generalizing total with
  | nil =>
      have bound := total.toNat_lt
      simp only [List.foldl_nil, List.map_nil, List.sum_nil]
      omega
  | cons entry rest ih =>
      rw [List.foldl_cons, ih, saturatingAdd_toNat, List.map_cons, List.sum_cons]
      omega

theorem totalCount_toNat (v : VersionVector) : v.totalCount.toNat = min v.count (2 ^ 64 - 1) := by
  rw [totalCount, Std.ExtTreeMap.foldl_eq_foldl_toList, foldl_saturatingAdd, sum_toList]
  simp

/-- A total that is not saturated counts every update. -/
theorem count_lt_of_totalCount {v : VersionVector} (below : v.totalCount < 0xFFFFFFFFFFFFFFFF) : v.count < 2 ^ 64 := by
  have total := totalCount_toNat v
  rw [UInt64.lt_iff_toNat_lt] at below
  change v.totalCount.toNat < 2 ^ 64 - 1 at below
  omega

theorem count_mono {v w : VersionVector} (le : v ≤ w) : v.count ≤ w.count := by
  apply Finset.sum_le_sum
  exact fun id _ => UInt64.le_iff_toNat_le.mp (le id)

/-- A vector that includes another and counts no more has the same components. -/
theorem ge_of_count {v w : VersionVector} (le : v ≤ w) (same : w.count ≤ v.count) : w ≤ v := by
  by_contra apart
  rw [le_def, not_forall] at apart
  obtain ⟨id, greater⟩ := apart
  have less : v.count < w.count := by
    apply Finset.sum_lt_sum fun other _ => UInt64.le_iff_toNat_le.mp (le other)
    exact ⟨id, Finset.mem_univ id, UInt64.lt_iff_toNat_lt.mp (UInt64.not_le.mp greater)⟩
  omega

attribute [irreducible] count

/-- The order of `incomingWins`: more updates first, then the smaller set of ids, then
the smaller encoding. -/
noncomputable def rank (v : VersionVector) : ℕ ×ₗ (List ℕ)ᵒᵈ ×ₗ (List ℕ)ᵒᵈ :=
  toLex (v.count, toLex (OrderDual.toDual (v.deviceIdSet.map fun id => id.toNat),
    OrderDual.toDual (v.encode.map fun byte => byte.toNat)))

theorem rank_mono : Monotone rank := by
  intro v w le
  rw [rank, rank, Prod.Lex.toLex_le_toLex]
  rcases Nat.lt_or_eq_of_le (count_mono le) with less | same
  · exact Or.inl less
  · have components := get_eq_of_le_of_le le (ge_of_count le (Nat.le_of_eq same.symm))
    right
    rw [deviceIdSet_congr components, encode_congr components]
    exact ⟨same, le_rfl⟩

/-- The same order with the total as the source has it, which saturates. -/
def standing (v : VersionVector) : ℕ ×ₗ (List ℕ)ᵒᵈ ×ₗ (List ℕ)ᵒᵈ :=
  toLex (v.totalCount.toNat, toLex (OrderDual.toDual (v.deviceIdSet.map fun id => id.toNat),
    OrderDual.toDual (v.encode.map fun byte => byte.toNat)))

theorem map_toNat_ids (v w : VersionVector) :
    v.deviceIdSet.map (fun id => id.toNat) = w.deviceIdSet.map (fun id => id.toNat) ↔
      w.deviceIdSet = v.deviceIdSet := by
  have inj : Function.Injective fun id : DeviceId => id.toNat := fun _ _ same => BitVec.eq_of_toNat_eq same
  rw [(List.map_injective_iff.mpr inj).eq_iff, eq_comm]

/-- `incomingWins` compares standings. -/
theorem incomingWins_iff_standing (v w : VersionVector) :
    incomingWins v w = true ↔ v.standing < w.standing := by
  have ids : w.deviceIdSet.map (fun id => id.toNat) < v.deviceIdSet.map (fun id => id.toNat) ↔
      w.deviceIdSet < v.deviceIdSet :=
    map_lt_map_iff (f := fun id : DeviceId => id.toNat) (fun _ _ => Iff.rfl)
      fun _ _ same => BitVec.eq_of_toNat_eq same
  have bytes : w.encode.map (fun byte => byte.toNat) < v.encode.map (fun byte => byte.toNat) ↔
      w.encode < v.encode :=
    map_lt_map_iff (f := fun byte : UInt8 => byte.toNat) (fun _ _ => UInt8.lt_iff_toNat_lt)
      fun _ _ same => UInt8.toNat.inj same
  have totals : v.totalCount.toNat = w.totalCount.toNat ↔ w.totalCount = v.totalCount := by
    rw [UInt64.toNat_inj, eq_comm]
  rw [standing, standing, Prod.Lex.toLex_lt_toLex, Prod.Lex.toLex_lt_toLex, OrderDual.toDual_lt_toDual,
    OrderDual.toDual_lt_toDual, OrderDual.toDual_inj, ids, bytes, map_toNat_ids, totals]
  unfold incomingWins
  by_cases same : w.totalCount = v.totalCount
  · simp only [same, ne_eq, not_true, if_false, lt_irrefl, true_and, false_or]
    by_cases sameSet : w.deviceIdSet = v.deviceIdSet
    · simp [sameSet]
    · simp [sameSet]
  · simp only [ne_eq, same, not_false_eq_true, if_true, decide_eq_true_eq, gt_iff_lt,
      UInt64.lt_iff_toNat_lt, false_and, or_false]

theorem standing_eq_rank {v : VersionVector} (bound : v.count < 2 ^ 64) : v.standing = v.rank := by
  have total : v.totalCount.toNat = v.count := by rw [totalCount_toNat]; omega
  rw [standing, rank, total]

/-- As long as no total saturates, `incomingWins` compares ranks. -/
theorem incomingWins_iff {v w : VersionVector} (bound : v.count < 2 ^ 64) (bound' : w.count < 2 ^ 64) :
    incomingWins v w = true ↔ v.rank < w.rank := by
  rw [incomingWins_iff_standing, standing_eq_rank bound, standing_eq_rank bound']

end VersionVector

section Reconcile

variable {v w : VersionVector}

/-- The outcome by the two comparisons: `v` is the local vector. -/
theorem reconcile_cases (v w : VersionVector) :
    (w ≤ v ∧ reconcile v w = .stale) ∨ (¬ w ≤ v ∧ v ≤ w ∧ reconcile v w = .fastForward) ∨
      (¬ w ≤ v ∧ ¬ v ≤ w ∧ reconcile v w = .fork (incomingWins v w)) := by
  obtain ⟨equal, dominates, dominatedBy, concurrent⟩ := w.relation_eq v
  unfold reconcile
  by_cases older : w ≤ v
  · left
    refine ⟨older, ?_⟩
    by_cases newer : v ≤ w
    · rw [equal newer older]
    · rw [dominatedBy newer older]
  · right
    by_cases newer : v ≤ w
    · left
      exact ⟨older, newer, by rw [dominates newer older]⟩
    · right
      exact ⟨older, newer, by rw [concurrent newer older]⟩

theorem reconcile_eq_stale : reconcile v w = .stale ↔ w ≤ v := by
  rcases reconcile_cases v w with ⟨older, is⟩ | ⟨older, _, is⟩ | ⟨older, _, is⟩
  · simp [is, older]
  · simp [is, older]
  · simp [is, older]

/-- Whether the incoming image becomes the live one. -/
def takesOver (localVv incomingVv : VersionVector) : Bool :=
  match reconcile localVv incomingVv with
  | .fastForward => true
  | .stale => false
  | .fork wins => wins

/-- As long as no total saturates, it does exactly when its vector ranks higher. -/
theorem takesOver_iff (bound : v.count < 2 ^ 64) (bound' : w.count < 2 ^ 64) :
    takesOver v w = true ↔ v.rank < w.rank := by
  unfold takesOver
  rcases reconcile_cases v w with ⟨older, is⟩ | ⟨older, newer, is⟩ | ⟨_, _, is⟩
  · rw [is]
    exact iff_of_false Bool.noConfusion (not_lt_of_ge (VersionVector.rank_mono older))
  · rw [is]
    have more : v.count < w.count := by
      by_contra least
      exact older (VersionVector.ge_of_count newer (Nat.le_of_not_lt least))
    refine iff_of_true rfl ?_
    rw [VersionVector.rank, VersionVector.rank, Prod.Lex.toLex_lt_toLex]
    exact Or.inl more
  · rw [is]
    exact VersionVector.incomingWins_iff bound bound'

end Reconcile

end Freehold
