import Freehold.SyncWire

set_option autoImplicit false

namespace Freehold

namespace VersionVector

variable {v w u : VersionVector} {id : DeviceId}

/-- What a vector says about every device. The functions into the numbers are a lattice
already; this map carries it over to the vectors, up to components stored as zero. -/
def components (v : VersionVector) : DeviceId → ℕ := fun id => (v.get id).toNat

theorem le_iff_components : v ≤ w ↔ v.components ≤ w.components := by
  rw [le_def, Pi.le_def]
  constructor
  · intro le id
    exact UInt64.le_iff_toNat_le.mp (le id)
  · intro le id
    exact UInt64.le_iff_toNat_le.mpr (le id)

theorem components_inj : v.components = w.components ↔ ∀ id, v.get id = w.get id := by
  constructor
  · intro same id
    apply UInt64.toNat_inj.mp
    exact congrFun same id
  · intro same
    funext id
    simp only [components, same id]

@[simp] theorem components_mergeMax (v w : VersionVector) :
    (v.mergeMax w).components = v.components ⊔ w.components := by
  funext id
  simp only [components, Pi.sup_apply, get_mergeMax]
  split
  · next greater =>
      rw [gt_iff_lt, UInt64.lt_iff_toNat_lt] at greater
      omega
  · next least =>
      rw [gt_iff_lt, UInt64.lt_iff_toNat_lt] at least
      omega

theorem components_increment_self (below : v.get id < 0xFFFFFFFFFFFFFFFF) :
    (v.increment id).components id = v.components id + 1 := by
  rw [UInt64.lt_iff_toNat_lt] at below
  change (v.get id).toNat < 2 ^ 64 - 1 at below
  simp only [components, get_increment_self, saturatingAdd_toNat]
  change min ((v.get id).toNat + 1) (2 ^ 64 - 1) = _
  omega

/-- A count that is not at its end makes the vector strictly larger. -/
theorem components_lt_increment (below : v.get id < 0xFFFFFFFFFFFFFFFF) :
    v.components < (v.increment id).components := by
  have here := components_increment_self below
  rw [Pi.lt_def]
  constructor
  · intro other
    by_cases same : id = other
    · subst same
      show v.components id ≤ (v.increment id).components id
      omega
    · simp only [components, get_increment_of_ne v same, le_refl]
  · exact ⟨id, by omega⟩

section Relation

/-- The four cases of `relation` by the two comparisons. -/
theorem relation_cases (v w : VersionVector) :
    (w.components ≤ v.components ∧ v.components ≤ w.components ∧ v.relation w = .equal) ∨
      (w.components ≤ v.components ∧ ¬v.components ≤ w.components ∧ v.relation w = .dominates) ∨
      (¬w.components ≤ v.components ∧ v.components ≤ w.components ∧ v.relation w = .dominatedBy) ∨
      (¬w.components ≤ v.components ∧ ¬v.components ≤ w.components ∧ v.relation w = .concurrent) := by
  obtain ⟨equal, dominates, dominatedBy, concurrent⟩ := v.relation_eq w
  rw [← le_iff_components, ← le_iff_components]
  by_cases older : w ≤ v
  · by_cases newer : v ≤ w
    · exact Or.inl ⟨older, newer, equal older newer⟩
    · exact Or.inr (Or.inl ⟨older, newer, dominates older newer⟩)
  · by_cases newer : v ≤ w
    · exact Or.inr (Or.inr (Or.inl ⟨older, newer, dominatedBy older newer⟩))
    · exact Or.inr (Or.inr (Or.inr ⟨older, newer, concurrent older newer⟩))

theorem relation_eq_equal : v.relation w = .equal ↔ v.components = w.components := by
  rw [le_antisymm_iff (a := v.components)]
  obtain ⟨older, newer, is⟩ | ⟨older, newer, is⟩ | ⟨older, newer, is⟩ | ⟨older, newer, is⟩ :=
    relation_cases v w
  all_goals simp [is, older, newer]

theorem relation_eq_dominates : v.relation w = .dominates ↔ w.components < v.components := by
  rw [lt_iff_le_not_ge]
  obtain ⟨older, newer, is⟩ | ⟨older, newer, is⟩ | ⟨older, newer, is⟩ | ⟨older, newer, is⟩ :=
    relation_cases v w
  all_goals simp [is, older, newer]

theorem relation_eq_dominatedBy : v.relation w = .dominatedBy ↔ v.components < w.components := by
  rw [lt_iff_le_not_ge]
  obtain ⟨older, newer, is⟩ | ⟨older, newer, is⟩ | ⟨older, newer, is⟩ | ⟨older, newer, is⟩ :=
    relation_cases v w
  all_goals simp [is, older, newer]

theorem relation_eq_concurrent : v.relation w = .concurrent ↔
    ¬v.components ≤ w.components ∧ ¬w.components ≤ v.components := by
  obtain ⟨older, newer, is⟩ | ⟨older, newer, is⟩ | ⟨older, newer, is⟩ | ⟨older, newer, is⟩ :=
    relation_cases v w
  all_goals simp [is, older, newer]

/-- `relation` says equal or dominated. -/
def AtMost (v w : VersionVector) : Prop := v.relation w = .equal ∨ v.relation w = .dominatedBy

instance (v w : VersionVector) : Decidable (v.AtMost w) :=
  inferInstanceAs (Decidable (_ ∨ _))

theorem atMost_iff : v.AtMost w ↔ v.components ≤ w.components := by
  rw [AtMost, relation_eq_equal, relation_eq_dominatedBy, or_comm, le_iff_lt_or_eq]

end Relation

section Encoding

theorem bytes_injective : Function.Injective DeviceId.bytes := by
  intro id other same
  have first := array16_bytes id
  rw [same, array16_bytes other] at first
  exact (Cursor.Outcome.ok.inj first).symm

theorem encodeEntry_injective : Function.Injective encodeEntry := by
  intro entry other same
  have counts : ∀ c : UInt64, Cursor.ofLe (leBytes 8 c.toNat) = c.toNat := by
    intro c
    rw [leBytes_eq, Cursor.ofLe_toLe (Nat.lt_of_lt_of_le c.toNat_lt (by decide))]
  have lengths : entry.1.bytes.length = other.1.bytes.length := by simp
  obtain ⟨ids, bytes⟩ := List.append_inj same lengths
  have value := congrArg Cursor.ofLe bytes
  rw [counts, counts, UInt64.toNat_inj] at value
  exact Prod.ext (bytes_injective ids) value

/-- Words of one length are found again in their concatenation. -/
theorem flatMap_inj_of_length {α β : Type} {f : α → List β} {size : ℕ}
    (length : ∀ a, (f a).length = size) (inj : Function.Injective f) {l l' : List α}
    (lengths : l.length = l'.length) (same : l.flatMap f = l'.flatMap f) : l = l' := by
  induction l generalizing l' with
  | nil => exact (List.length_eq_zero_iff.mp lengths.symm).symm
  | cons a rest ih =>
      cases l' with
      | nil => cases lengths
      | cons b rest' =>
          rw [List.flatMap_cons, List.flatMap_cons] at same
          obtain ⟨heads, tails⟩ := List.append_inj same (by rw [length, length])
          rw [inj heads, ih (Nat.succ.inj lengths) tails]

theorem length_encode (v : VersionVector) : v.encode.length = 4 + 24 * v.entries.length := by
  have each : ∀ l : List (DeviceId × UInt64), (l.flatMap encodeEntry).length = 24 * l.length := by
    intro l
    induction l with
    | nil => rfl
    | cons entry rest ih =>
        rw [List.flatMap_cons, List.length_append, length_encodeEntry, ih, List.length_cons]
        omega
  rw [encode_eq, List.length_append, leBytes_eq, Cursor.length_toLe]
  exact congrArg (4 + ·) (each v.entries)

/-- The number of entries is known from the length, also where the stored count has wrapped. -/
theorem entries_of_encode (same : v.encode = w.encode) : v.entries = w.entries := by
  have counts : v.entries.length = w.entries.length := by
    have lengths := congrArg List.length same
    rw [length_encode, length_encode] at lengths
    omega
  rw [encode_eq, encode_eq, counts] at same
  exact flatMap_inj_of_length length_encodeEntry encodeEntry_injective counts
    (List.append_cancel_left same)

theorem get_of_entries (same : v.entries = w.entries) : ∀ id, v.get id = w.get id := by
  have upward : ∀ {v w : VersionVector}, v.entries = w.entries → ∀ id, 0 < v.get id → v.get id = w.get id := by
    intro v w same id positive
    have stored : (id, v.get id) ∈ v.entries := mem_entries.mpr ⟨rfl, positive⟩
    rw [same, mem_entries] at stored
    exact stored.1.symm
  intro id
  by_cases positive : 0 < v.get id
  · exact upward same id positive
  · by_cases positive' : 0 < w.get id
    · exact (upward same.symm id positive').symm
    · rw [UInt64.lt_iff_toNat_lt] at positive positive'
      apply UInt64.toNat_inj.mp
      change ¬0 < _ at positive
      change ¬0 < _ at positive'
      omega

theorem encode_inj : v.encode = w.encode ↔ v.components = w.components := by
  rw [components_inj]
  constructor
  · intro same
    exact get_of_entries (entries_of_encode same)
  · exact encode_congr

end Encoding

/-- Some id where the first has more. -/
theorem not_components_le : ¬v.components ≤ w.components ↔ ∃ id, w.get id < v.get id := by
  rw [Pi.le_def, not_forall]
  apply exists_congr
  intro id
  rw [not_le, UInt64.lt_iff_toNat_lt]
  rfl

theorem components_lt : v.components < w.components ↔
    (∀ id, v.get id ≤ w.get id) ∧ ∃ id, v.get id < w.get id := by
  rw [lt_iff_le_not_ge, not_components_le, ← le_iff_components, le_def]

/-- The pointwise order is what `relation` reports, it is a partial order with `mergeMax` as
its join, an increment goes strictly up, and the encoding is equal where the order says so. -/
theorem join_semilattice (v w u : VersionVector) (id : DeviceId) :
    ((v.relation w = .equal ↔ ∀ id, v.get id = w.get id) ∧
      (v.relation w = .dominates ↔ (∀ id, w.get id ≤ v.get id) ∧ ∃ id, w.get id < v.get id) ∧
      (v.relation w = .dominatedBy ↔ (∀ id, v.get id ≤ w.get id) ∧ ∃ id, v.get id < w.get id) ∧
      (v.relation w = .concurrent ↔ (∃ id, w.get id < v.get id) ∧ ∃ id, v.get id < w.get id)) ∧
    (v.AtMost v ∧ (v.relation w = .equal ↔ v.AtMost w ∧ w.AtMost v) ∧
      (v.AtMost w → w.AtMost u → v.AtMost u)) ∧
    ((v.mergeMax w).relation (w.mergeMax v) = .equal ∧
      ((v.mergeMax w).mergeMax u).relation (v.mergeMax (w.mergeMax u)) = .equal ∧
      (v.mergeMax v).relation v = .equal) ∧
    (v.AtMost (v.mergeMax w) ∧ w.AtMost (v.mergeMax w) ∧
      (v.AtMost u → w.AtMost u → (v.mergeMax w).AtMost u)) ∧
    (v.get id < 0xFFFFFFFFFFFFFFFF → (v.increment id).relation v = .dominates ∧
      (v.relation u = .dominates → (v.increment id).relation u = .dominates)) ∧
    (v.relation w = .equal ↔ v.encode = w.encode) := by
  refine ⟨⟨?_, ?_, ?_, ?_⟩, ⟨?_, ?_, ?_⟩, ⟨?_, ?_, ?_⟩, ⟨?_, ?_, ?_⟩, ?_, ?_⟩
  · rw [relation_eq_equal, components_inj]
  · rw [relation_eq_dominates, components_lt]
  · rw [relation_eq_dominatedBy, components_lt]
  · rw [relation_eq_concurrent, not_components_le, not_components_le]
  · exact atMost_iff.mpr le_rfl
  · rw [relation_eq_equal, atMost_iff, atMost_iff, le_antisymm_iff]
  · simp only [atMost_iff]
    exact le_trans
  · rw [relation_eq_equal, components_mergeMax, components_mergeMax, sup_comm]
  · simp only [relation_eq_equal, components_mergeMax, sup_assoc]
  · rw [relation_eq_equal, components_mergeMax, sup_idem]
  · rw [atMost_iff, components_mergeMax]
    exact le_sup_left
  · rw [atMost_iff, components_mergeMax]
    exact le_sup_right
  · simp only [atMost_iff, components_mergeMax]
    exact sup_le
  · intro below
    have up := components_lt_increment below
    rw [relation_eq_dominates, relation_eq_dominates, relation_eq_dominates]
    exact ⟨up, fun older => older.trans up⟩
  · rw [relation_eq_equal, encode_inj]

/-- The standing tells all vectors apart that do not count the same. -/
theorem standing_inj : v.standing = w.standing ↔ v.components = w.components := by
  constructor
  · intro same
    apply encode_inj.mp
    have bytes := congrArg (fun s => OrderDual.ofDual (ofLex (ofLex s).2).2) same
    exact List.map_injective_iff.mpr (fun _ _ equal => UInt8.toNat.inj equal) bytes
  · intro same
    have gets := components_inj.mp same
    have total : v.totalCount.toNat = w.totalCount.toNat := by
      have le := count_mono (le_iff_components.mpr (le_of_eq same))
      have ge := count_mono (le_iff_components.mpr (ge_of_eq same))
      rw [totalCount_toNat, totalCount_toNat]
      omega
    rw [standing, standing, total, deviceIdSet_congr gets, encode_congr gets]

end VersionVector

/-- The outcome at the receiver of the local vector by what `relation` says about the two. -/
theorem reconcile_relation (v w : VersionVector) : reconcile v w = match v.relation w with
    | .equal | .dominates => .stale
    | .dominatedBy => .fastForward
    | .concurrent => .fork (incomingWins v w) := by
  obtain ⟨older, newer, is⟩ | ⟨older, newer, is⟩ | ⟨older, newer, is⟩ | ⟨older, newer, is⟩ :=
    VersionVector.relation_cases v w
  all_goals
    rw [← VersionVector.le_iff_components] at older newer
    obtain ⟨has, outcome⟩ | ⟨has, has', outcome⟩ | ⟨has, has', outcome⟩ := reconcile_cases v w
  all_goals first
    | exact absurd has older
    | exact absurd older has
    | exact absurd newer has'
    | exact absurd has' newer
    | rw [is, outcome]

/-- Of two vectors that do not count the same, one wins. -/
theorem incomingWins_swap {v w : VersionVector} (apart : v.components ≠ w.components) :
    incomingWins w v = !incomingWins v w := by
  have distinct : v.standing ≠ w.standing := fun same => apart (VersionVector.standing_inj.mp same)
  rw [Bool.eq_iff_iff, Bool.not_eq_true', ← Bool.not_eq_true, VersionVector.incomingWins_iff_standing,
    VersionVector.incomingWins_iff_standing, not_lt, le_iff_lt_or_eq]
  simp [distinct.symm]

theorem incomingWins_congr {v w v' w' : VersionVector} (first : v.components = v'.components)
    (second : w.components = w'.components) : incomingWins v w = incomingWins v' w' := by
  rw [Bool.eq_iff_iff, VersionVector.incomingWins_iff_standing, VersionVector.incomingWins_iff_standing,
    VersionVector.standing_inj.mpr first, VersionVector.standing_inj.mpr second]

theorem reconcile_eq_fork {v w : VersionVector} {wins : Bool} : reconcile v w = .fork wins ↔
    v.relation w = .concurrent ∧ incomingWins v w = wins := by
  rw [reconcile_relation]
  cases v.relation w <;> simp

theorem relation_swap (v w : VersionVector) : w.relation v = match v.relation w with
    | .equal => .equal
    | .dominates => .dominatedBy
    | .dominatedBy => .dominates
    | .concurrent => .concurrent := by
  obtain ⟨older, newer, is⟩ | ⟨older, newer, is⟩ | ⟨older, newer, is⟩ | ⟨older, newer, is⟩ :=
    VersionVector.relation_cases v w
  · rw [is, VersionVector.relation_eq_equal]
    exact le_antisymm older newer
  · rw [is, VersionVector.relation_eq_dominatedBy]
    exact lt_of_le_not_ge older newer
  · rw [is, VersionVector.relation_eq_dominates]
    exact lt_of_le_not_ge newer older
  · rw [is, VersionVector.relation_eq_concurrent]
    exact ⟨older, newer⟩

/-- An exchange of the arguments exchanges the roles and keeps the winner; the order that
picks the winner is a strict total order of the vectors up to `Relation::Equal`. -/
theorem reconcile_symmetric (v w u v' w' : VersionVector) :
    ((reconcile v w = .fastForward → reconcile w v = .stale) ∧
      (w.relation v = .dominatedBy → reconcile v w = .stale ∧ reconcile w v = .fastForward) ∧
      (v.relation w = .equal → reconcile v w = .stale ∧ reconcile w v = .stale) ∧
      (∀ wins, reconcile v w = .fork wins → reconcile w v = .fork !wins)) ∧
    ((v.relation w = .equal → incomingWins v w = false) ∧
      (incomingWins v w = true → incomingWins w u = true → incomingWins v u = true) ∧
      (v.relation w ≠ .equal → incomingWins w v = !incomingWins v w)) ∧
    (v.relation v' = .equal → w.relation w' = .equal → incomingWins v w = incomingWins v' w') := by
  refine ⟨⟨?_, ?_, ?_, ?_⟩, ⟨?_, ?_, ?_⟩, ?_⟩
  · intro forward
    rw [reconcile_relation] at forward ⊢
    rw [relation_swap v w]
    cases is : v.relation w <;> simp [is] at forward ⊢
  · intro older
    have newer := relation_swap w v
    rw [older] at newer
    rw [reconcile_relation, reconcile_relation, older, newer]
    exact ⟨rfl, rfl⟩
  · intro same
    have swapped := relation_swap v w
    rw [same] at swapped
    rw [reconcile_relation, reconcile_relation, same, swapped]
    exact ⟨rfl, rfl⟩
  · intro wins forked
    obtain ⟨apart, chosen⟩ := reconcile_eq_fork.mp forked
    have swapped := relation_swap v w
    rw [apart] at swapped
    have differ : v.components ≠ w.components := by
      intro same
      rw [VersionVector.relation_eq_equal.mpr same] at apart
      cases apart
    rw [reconcile_eq_fork, incomingWins_swap differ, chosen]
    exact ⟨swapped, rfl⟩
  · intro same
    rw [← Bool.not_eq_true, VersionVector.incomingWins_iff_standing,
      VersionVector.standing_inj.mpr (VersionVector.relation_eq_equal.mp same)]
    exact lt_irrefl _
  · simp only [VersionVector.incomingWins_iff_standing]
    exact lt_trans
  · intro apart
    apply incomingWins_swap
    intro same
    exact apart (VersionVector.relation_eq_equal.mpr same)
  · intro first second
    exact incomingWins_congr (VersionVector.relation_eq_equal.mp first)
      (VersionVector.relation_eq_equal.mp second)

end Freehold
