import Freehold.Pool

set_option autoImplicit false

namespace Freehold

open CrashLogic

/-- What the pool's directory holds: how many slot files, the anchor and the data
under each name. -/
structure Stored where
  capacity : Nat
  anchor : AnchorFile
  disk : Disk

namespace Stored

/-- One name given other contents, or none. -/
def put (stored : Stored) (name : FileName) (data : Option Region) : Stored :=
  { stored with disk := Function.update stored.disk name data }

variable {stored : Stored} {name other : FileName} {data again : Option Region}

@[simp] theorem put_capacity : (stored.put name data).capacity = stored.capacity := rfl
@[simp] theorem put_anchor : (stored.put name data).anchor = stored.anchor := rfl

@[simp] theorem put_disk_self : (stored.put name data).disk name = data := by
  simp [put]

theorem put_disk_of_ne (differ : other ≠ name) :
    (stored.put name data).disk other = stored.disk other := by
  simp [put, differ]

@[simp] theorem put_put : (stored.put name data).put name again = stored.put name again := by
  simp [put]

theorem put_same (held : stored.disk name = data) : stored.put name data = stored := by
  rw [put, ← held, Function.update_eq_self]

end Stored

namespace Pool

def stored (pool : Pool) : Stored := ⟨pool.capacity, pool.anchor, pool.content⟩

@[simp] theorem stored_reopen {pool : Pool} {dek : Dek} : (pool.reopen dek).stored = pool.stored := by
  simp [stored]

/-- A pool in use: well formed, under `dek`, over a directory that holds `st`. -/
structure Live (pool : Pool) (dek : Dek) (st : Stored) : Prop where
  wf : pool.Wf
  dek_eq : pool.dek = dek
  stored_eq : pool.stored = st

theorem live_reopen (pool : Pool) (dek : Dek) : (pool.reopen dek).Live dek pool.stored :=
  ⟨Wf.reopen, rfl, stored_reopen⟩

section Live

variable {pool : Pool} {dek : Dek} {st : Stored} {name : FileName} {data : Region}

theorem Live.content_eq (live : pool.Live dek st) : pool.content = st.disk := by
  rw [← live.stored_eq]
  rfl

theorem Live.capacity_eq (live : pool.Live dek st) : pool.capacity = st.capacity := by
  rw [← live.stored_eq]
  rfl

theorem Live.anchor_eq (live : pool.Live dek st) : pool.anchor = st.anchor := by
  rw [← live.stored_eq]
  rfl

theorem Live.hasFilename (live : pool.Live dek st) :
    pool.hasFilename name = true ↔ st.disk name ≠ none := by
  rw [live.wf.hasFilename_iff, live.content_eq, Option.ne_none_iff_exists']

theorem Live.lacksFilename (live : pool.Live dek st) :
    pool.hasFilename name = false ↔ st.disk name = none := by
  rw [live.wf.hasFilename_eq_false, live.content_eq]

theorem Live.exportRaw (live : pool.Live dek st) (held : st.disk name = some data) :
    pool.exportRaw name = .ok data :=
  live.wf.exportRaw_eq (live.content_eq ▸ held)

theorem Live.setData (live : pool.Live dek st) (name : FileName) (data : Region)
    (held : st.disk name ≠ none) :
    (Pool.setData name data pool).Live dek (st.put name (some data)) := by
  obtain ⟨old, present⟩ := Option.ne_none_iff_exists'.mp held
  rw [← live.content_eq] at present
  refine ⟨live.wf.setData, live.dek_eq, ?_⟩
  rw [stored, capacity_setData, setData_anchor, live.wf.content_setData present, live.content_eq,
    live.capacity_eq, live.anchor_eq]
  rfl

theorem Live.unmapSlot (live : pool.Live dek st) (blank : st.disk name = some .empty) :
    (Pool.unmapSlot name pool).Live dek (st.put name none) := by
  rw [← live.content_eq] at blank
  refine ⟨live.wf.unmapSlot blank, unmapSlot_dek.trans live.dek_eq, ?_⟩
  rw [stored, capacity_unmapSlot, unmapSlot_anchor, live.wf.content_unmapSlot blank,
    live.content_eq, live.capacity_eq, live.anchor_eq]
  rfl

theorem Live.mapSlot (live : pool.Live dek st) (header : HeaderName)
    (absent : st.disk header.name = none) (room : pool.available ≠ []) :
    (Pool.mapSlot header.name (some header) pool).Live dek (st.put header.name (some .empty)) := by
  refine ⟨live.wf.mapSlot, mapSlot_dek.trans live.dek_eq, ?_⟩
  rw [stored, capacity_mapSlot (live.lacksFilename.mpr absent), mapSlot_anchor,
    live.wf.content_mapSlot room, live.content_eq, live.capacity_eq, live.anchor_eq]
  rfl

/-- A name mapped without a header changes nothing a crash leaves behind. -/
theorem Live.stored_mapSlot_none (live : pool.Live dek st) (absent : st.disk name = none) :
    (Pool.mapSlot name none pool).stored = st := by
  have missing := live.lacksFilename.mpr absent
  rw [stored, capacity_mapSlot missing, mapSlot_anchor, content_mapSlot_none missing]
  exact live.stored_eq

/-- Freeing a slot leaves room for the next name. -/
theorem Live.room_unmapSlot (live : pool.Live dek st) (held : st.disk name ≠ none) :
    (Pool.unmapSlot name pool).available ≠ [] := by
  obtain ⟨file, found⟩ := hasFilename_iff.mp (live.hasFilename.mpr held)
  rw [unmapSlot_of_some found]
  exact List.cons_ne_nil _ _

end Live

section Rules

variable {α : Type} {pool : Pool} {dek : Dek} {st : Stored} {name : FileName}
  {crash : Stored → Prop}

theorem meets_deleteFile {post : Bool → Pool → Prop} {fail : OpfsSAHError → Pool → Prop}
    (live : pool.Live dek st) (before : crash st)
    (emptied : st.disk name ≠ none → crash (st.put name (some .empty)))
    (after : ∀ b (q : Pool), q.Live dek (st.put name none) →
      (st.disk name ≠ none → q.available ≠ []) →
      (st.disk name = none → q = pool) → post b q) :
    ((deleteFile name) pool).Meets (fun q => crash q.stored) post fail := by
  unfold deleteFile
  apply meets_get_bind
  by_cases present : pool.hasFilename name = true
  · have held := live.hasFilename.mp present
    have blanked := live.setData name .empty held
    have freed := blanked.unmapSlot Stored.put_disk_self
    rw [Stored.put_put] at freed
    rw [if_pos present]
    apply meets_effect_bind (live.stored_eq ▸ before)
    apply meets_effect_bind (blanked.stored_eq ▸ emptied held)
    apply meets_pure
    apply after true _ freed
    · intro _
      apply blanked.room_unmapSlot
      rw [Stored.put_disk_self]
      exact Option.some_ne_none _
    · intro absent
      exact absurd absent held
  · have absent := live.lacksFilename.mp (Bool.not_eq_true _ ▸ present)
    rw [if_neg present]
    apply meets_pure
    apply after false pool
    · rw [Stored.put_same absent]
      exact live
    · intro held
      exact absurd absent held
    · intro _
      rfl

theorem meets_withNewFile {body : PoolM Unit} {post : Unit → Pool → Prop}
    {fail : OpfsSAHError → Pool → Prop}
    (live : pool.Live dek st) (absent : st.disk name = none) (before : crash st)
    (stuck : ¬ Fits name ∨ pool.available = [] → ∀ e (q : Pool), q.stored = st → fail e q)
    (ran : ∀ q : Pool, q.Live dek (st.put name (some .empty)) →
      (body q).Meets (fun q => crash q.stored) post fail) :
    ((withNewFile name body) pool).Meets (fun q => crash q.stored) post fail := by
  unfold withNewFile
  apply meets_get_bind
  have missing := live.lacksFilename.mpr absent
  simp only [missing, Bool.false_eq_true, if_false]
  by_cases full : pool.available = []
  · rw [if_pos full]
    exact meets_fail (stuck (Or.inr full) _ pool live.stored_eq)
  · rw [if_neg full]
    split
    · next blank =>
        apply meets_modify_bind
        apply meets_fail
        exact stuck (Or.inl fun fits => fits.1 blank) _ _ (live.stored_mapSlot_none absent)
    · next nonempty =>
        split
        · next long =>
            apply meets_modify_bind
            apply meets_fail
            apply stuck (Or.inl fun fits => ?_) _ _ (live.stored_mapSlot_none absent)
            exact absurd fits.2 (by omega)
        · next short =>
            have mapped := live.mapSlot ⟨name, nonempty, Nat.lt_of_not_le short⟩ absent full
            apply meets_effect_bind (live.stored_eq ▸ before)
            exact ran _ mapped

/-- The file is replaced through the states with no such file, an empty one and a
blank one. -/
theorem meets_importCiphertextFile {ciphertext : Region} {post : Unit → Pool → Prop}
    {fail : OpfsSAHError → Pool → Prop} (live : pool.Live dek st) (before : crash st)
    (during : ∀ data ∈ [none, some .empty, some (.zeros ciphertext.size)], crash (st.put name data))
    (stuck : ¬ Fits name ∨ (st.disk name = none ∧ pool.available = []) →
      ∀ e (q : Pool), q.stored = st.put name none → fail e q)
    (after : ∀ q : Pool, q.Live dek (st.put name (some ciphertext)) → post () q) :
    ((importCiphertextFile name ciphertext) pool).Meets (fun q => crash q.stored) post fail := by
  unfold importCiphertextFile
  apply meets_bind (fun _ q => q.Live dek (st.put name none) ∧
    (st.disk name ≠ none → q.available ≠ []) ∧ (st.disk name = none → q = pool))
  · apply meets_attempt
    have deleted : ((deleteFile name) pool).Meets (fun q => crash q.stored)
        (fun _ q => q.Live dek (st.put name none) ∧ (st.disk name ≠ none → q.available ≠ []) ∧
          (st.disk name = none → q = pool)) fun _ _ => False := by
      apply meets_deleteFile live before
      · intro _
        exact during _ (by simp)
      · intro _ q gone room kept
        exact ⟨gone, room, kept⟩
    exact deleted.mono (fun _ left => left) (fun _ _ done => done) fun _ _ no => no.elim
  · rintro _ q ⟨gone, room, kept⟩
    apply meets_withNewFile gone Stored.put_disk_self (during _ (by simp))
    · intro cause e r left
      apply stuck ?_ e r left
      apply cause.imp_right
      intro full
      have absent : st.disk name = none := by
        by_contra held
        exact room held full
      exact ⟨absent, kept absent ▸ full⟩
    · intro r mapped
      rw [Stored.put_put] at mapped
      have sized := mapped.setData name (.zeros ciphertext.size) (by simp)
      rw [Stored.put_put] at sized
      have written := sized.setData name ciphertext (by simp)
      rw [Stored.put_put] at written
      apply meets_effect_bind (mapped.stored_eq ▸ during _ (by simp))
      exact meets_effect (sized.stored_eq ▸ during _ (by simp)) (after _ written)

/-- The anchor is saved with the new table once, and a second time for a floor. -/
theorem meets_anchorRecordFull {uuid : Uuid} {committed inFlight epochFloor : Option Nat}
    {table : AnchorTable} {post : Unit → Pool → Prop} {fail : OpfsSAHError → Pool → Prop}
    (crash : Stored → Prop) (live : pool.Live dek st)
    (room : anchorUpsert uuid committed inFlight epochFloor (anchorLoad dek st.anchor).2 = some table)
    (before : crash st)
    (during : ∀ anchor, (anchorLoad dek anchor).2 = table → crash { st with anchor := anchor })
    (after : ∀ anchor (q : Pool), (anchorLoad dek anchor).2 = table →
      q.Live dek { st with anchor := anchor } → post () q) :
    ((anchorRecordFull uuid committed inFlight epochFloor) pool).Meets
      (fun q => crash q.stored) post fail := by
  unfold anchorRecordFull
  apply meets_get_bind
  rw [live.dek_eq, live.anchor_eq]
  simp only [room]
  let first := anchorSave dek ((anchorLoad dek st.anchor).1 + 1) table st.anchor
  have loaded : anchorLoad dek first = ((anchorLoad dek st.anchor).1 + 1, table) :=
    anchorLoad_save (Nat.lt_succ_self _)
  have saved : ∀ (r : Pool) (anchor : AnchorFile) (seq : Nat),
      r.Live dek { st with anchor := anchor } →
      ({ r with anchor := anchorSave r.dek seq table r.anchor } : Pool).Live dek
        { st with anchor := anchorSave dek seq table anchor } := by
    intro r anchor seq kept
    refine ⟨⟨kept.wf.named, kept.wf.bound, kept.wf.cleared⟩, kept.dek_eq, ?_⟩
    rw [kept.dek_eq, kept.anchor_eq]
    have same := kept.stored_eq
    rw [stored, Stored.mk.injEq] at same ⊢
    exact ⟨same.1, rfl, same.2.2⟩
  have once := saved pool st.anchor ((anchorLoad dek st.anchor).1 + 1) live
  apply meets_effect_bind (live.stored_eq ▸ before)
  by_cases floor : epochFloor.isSome = true
  · rw [if_pos floor]
    have newer : (anchorLoad dek first).1 < (anchorLoad dek st.anchor).1 + 2 := by
      rw [loaded]
      exact Nat.lt_succ_self _
    apply meets_effect
    · rw [once.stored_eq]
      exact during first (congrArg Prod.snd loaded)
    · exact after _ _ (congrArg Prod.snd (anchorLoad_save newer)) (saved _ first _ once)
  · rw [if_neg floor]
    exact meets_pure (after first _ (congrArg Prod.snd loaded) once)

/-- With no room for the window nothing is written. -/
theorem meets_anchorRecordFull_full {uuid : Uuid} {committed inFlight epochFloor : Option Nat}
    {post : Unit → Pool → Prop} {fail : OpfsSAHError → Pool → Prop} (crash : Stored → Prop)
    (live : pool.Live dek st)
    (full : anchorUpsert uuid committed inFlight epochFloor (anchorLoad dek st.anchor).2 = none)
    (failed : ∀ e, fail e pool) :
    ((anchorRecordFull uuid committed inFlight epochFloor) pool).Meets
      (fun q => crash q.stored) post fail := by
  unfold anchorRecordFull
  apply meets_get_bind
  rw [live.dek_eq, live.anchor_eq]
  simp only [full]
  exact meets_fail (failed _)

end Rules

section Record

variable {pool : Pool} {uuid : Uuid} {committed inFlight epochFloor : Option Nat}

/-- With no room for the window, a record changes nothing. -/
theorem anchorRecordFull_none
    (full : anchorUpsert uuid committed inFlight epochFloor (anchorLoad pool.dek pool.anchor).2 = none) :
    anchorRecordFull uuid committed inFlight epochFloor pool = ⟨[], pool, .error (.generic
      s!"anchor full ({anchorCap} DBs); cannot track freshness for another DB in this pool")⟩ := by
  unfold anchorRecordFull
  show Prog.bind Prog.get _ pool = _
  simp only [Prog.bind, Prog.get, full, List.nil_append]
  rfl

/-- The anchor after the first save of a record. -/
def savedOnce (pool : Pool) (table : AnchorTable) : Pool :=
  { pool with anchor := anchorSave pool.dek ((anchorLoad pool.dek pool.anchor).1 + 1) table pool.anchor }

/-- The anchor after the second one. -/
def savedTwice (pool : Pool) (table : AnchorTable) : Pool :=
  { pool with
    anchor := anchorSave pool.dek ((anchorLoad pool.dek pool.anchor).1 + 2) table
      (pool.savedOnce table).anchor }

theorem anchorRecordFull_some {table : AnchorTable}
    (room : anchorUpsert uuid committed inFlight epochFloor (anchorLoad pool.dek pool.anchor).2 =
      some table) :
    anchorRecordFull uuid committed inFlight epochFloor pool =
      if epochFloor.isSome then ⟨[pool, pool.savedOnce table], pool.savedTwice table, .ok ()⟩
      else ⟨[pool], pool.savedOnce table, .ok ()⟩ := by
  unfold anchorRecordFull
  show Prog.bind Prog.get _ pool = _
  simp only [Prog.bind, Prog.get, room, List.nil_append]
  cases epochFloor with
  | none => rfl
  | some floor => rfl

end Record

section Room

variable {pool other : Pool}

theorem size_le_of_hasFilename
    (sub : ∀ name, pool.hasFilename name = true → other.hasFilename name = true) :
    pool.files.size ≤ other.files.size := by
  rw [← Std.ExtTreeMap.length_keys, ← Std.ExtTreeMap.length_keys]
  apply List.Subperm.length_le
  apply List.Nodup.subperm Std.ExtTreeMap.nodup_keys
  intro name member
  rw [Std.ExtTreeMap.mem_keys] at member ⊢
  exact Std.ExtTreeMap.contains_iff_mem.mp (sub name (Std.ExtTreeMap.contains_iff_mem.mpr member))

/-- Pools of one capacity that hold the same names have equally many free slots. -/
theorem available_length_eq (same : pool.capacity = other.capacity)
    (names : ∀ name, pool.hasFilename name = true ↔ other.hasFilename name = true) :
    pool.available.length = other.available.length := by
  have lower := size_le_of_hasFilename fun name => (names name).mp
  have upper := size_le_of_hasFilename fun name => (names name).mpr
  unfold capacity at same
  omega

/-- A pool that lacks a name another one of the same capacity holds, and holds no
name beyond it, has a free slot. -/
theorem room_of_missing {name : FileName} (same : pool.capacity = other.capacity)
    (sub : ∀ name, pool.hasFilename name = true → other.hasFilename name = true)
    (held : other.hasFilename name = true) (missing : pool.hasFilename name = false) :
    pool.available ≠ [] := by
  intro full
  let filled : Pool := { pool with files := pool.files.insert name (pooled pool.dek) }
  have grown : filled.files.size ≤ other.files.size := by
    apply size_le_of_hasFilename
    intro name' present
    simp only [filled, hasFilename, Std.ExtTreeMap.contains_insert, Bool.or_eq_true,
      Std.LawfulEqCmp.compare_eq_iff_eq, beq_iff_eq] at present
    cases present with
    | inl fresh => exact fresh ▸ held
    | inr old => exact sub name' old
  have absent : pool.files.contains name = false := missing
  simp only [filled, Std.ExtTreeMap.size_insert, absent, Bool.false_eq_true, if_false] at grown
  unfold capacity at same
  rw [full, List.length_nil] at same
  omega

end Room

end Pool

end Freehold
