import Freehold.RotationStaging

set_option autoImplicit false

namespace Freehold

open CrashLogic

namespace Pool

section Discard

variable {q : Pool} {dek : Dek} {st : Stored} {order : IterOrder}

/-- The roll-back keeps what deleting a staging file keeps, and leaves none of them. -/
theorem meets_discardRotationStaging {P : Stored → Prop} (live : q.Live dek st) (holds : P st)
    (closed : ∀ st name, P st → isStaging name = true → st.disk name ≠ none →
      P (st.put name (some .empty)) ∧ P (st.put name none)) :
    ((discardRotationStaging order) q).Meets (fun q => P q.stored)
      (fun _ q => ∃ st, q.Live dek st ∧ P st ∧ ∀ name, isStaging name = true → st.disk name = none)
      fun _ _ => False := by
  unfold discardRotationStaging
  apply meets_get_bind
  let stale := (order.list q.files.keys).filter fun name => isStaging name
  -- a staging file still on disk is still on the list
  let inv (rest : List FileName) (q : Pool) : Prop :=
    (∀ name ∈ rest, isStaging name = true) ∧ ∃ st, q.Live dek st ∧ P st ∧
      ∀ name, isStaging name = true → name ∈ rest ∨ st.disk name = none
  have start : inv stale q := by
    refine ⟨fun name member => (List.mem_filter.mp member).2, st, live, holds, ?_⟩
    intro name staging
    by_cases held : st.disk name = none
    · exact Or.inr held
    · left
      apply List.mem_filter.mpr ⟨?_, staging⟩
      rw [(order.perm _).mem_iff, Std.ExtTreeMap.mem_keys]
      exact Std.ExtTreeMap.contains_iff_mem.mp (live.hasFilename.mpr held)
  have looped : ((Prog.forEach (fun name => Prog.attempt (deleteFile name)) stale) q).Meets
      (fun q => P q.stored) (fun _ => inv []) fun _ _ => False := by
    apply meets_forEach inv ?_ start
    rintro name rest r ⟨named, st', live', holds', left⟩
    have staging := named name List.mem_cons_self
    apply meets_attempt
    have deleted : ((deleteFile name) r).Meets (fun q => P q.stored) (fun _ => inv rest)
        fun _ _ => False := by
      apply meets_deleteFile live' holds' (fun held => (closed st' name holds' staging held).1)
      intro _ r' gone _ _
      refine ⟨fun other member => named other (List.mem_cons_of_mem _ member), _, gone, ?_, ?_⟩
      · by_cases held : st'.disk name = none
        · rw [Stored.put_same held]
          exact holds'
        · exact (closed st' name holds' staging held).2
      · intro other staging'
        by_cases same : other = name
        · rw [same]
          exact Or.inr Stored.put_disk_self
        · rw [Stored.put_disk_of_ne same]
          apply (left other staging').imp_left
          intro member
          exact (List.mem_cons.mp member).resolve_left same
    exact deleted.mono (fun _ kept => kept) (fun _ _ done => done) fun _ _ no => no.elim
  apply looped.mono (fun _ kept => kept) ?_ fun _ _ no => no
  rintro _ r ⟨_, st', live', holds', left⟩
  exact ⟨st', live', holds', fun name staging => (left name staging).resolve_left List.not_mem_nil⟩

/-- With no intent file there is nothing to recover. -/
theorem recoverRotation_none (absent : q.hasFilename rotIntentName = false) :
    (recoverRotation order) q = ⟨[], q, .ok none⟩ := by
  unfold recoverRotation
  simp only [bind, Prog.bind, Prog.get, absent]
  rfl

/-- An intent that does not open rolls the staging back. -/
theorem meets_recoverRotation_back {P : Stored → Prop} {region : Region} (live : q.Live dek st)
    (present : st.disk rotIntentName = some region)
    (sealedTo : region.openIntent (.rotateIntentKey dek) = none) (holds : P st)
    (closed : ∀ st name, P st → isStaging name = true → st.disk name ≠ none →
      P (st.put name (some .empty)) ∧ P (st.put name none)) :
    ((recoverRotation order) q).Meets (fun q => P q.stored)
      (fun _ q => ∃ st, q.Live dek st ∧ P st ∧ ∀ name, isStaging name = true → st.disk name = none)
      fun _ _ => False := by
  unfold recoverRotation
  apply meets_get_bind
  have has : q.hasFilename rotIntentName = true := by
    rw [live.hasFilename, present]
    exact Option.some_ne_none _
  rw [if_pos has, live.exportRaw present, live.dek_eq]
  apply meets_bind (fun sealed r => sealed = region ∧ r = q)
  · exact meets_pure ⟨rfl, rfl⟩
  · rintro _ _ ⟨rfl, rfl⟩
    rw [sealedTo]
    apply meets_bind _ (meets_discardRotationStaging live holds closed)
    intro _ r done
    exact meets_pure done

end Discard

section Back

variable {pool q : Pool} {st : Stored} {order : IterOrder}

theorem OldLine.closed : ∀ st name, OldLine pool st → isStaging name = true → st.disk name ≠ none →
    OldLine pool (st.put name (some .empty)) ∧ OldLine pool (st.put name none) := by
  intro st name old staging _
  constructor
  · apply old.put staging
    rintro region ⟨⟩
    rfl
  · apply old.put staging
    intro region absent
    cases absent

/-- A shadow on the disk comes with an intent file. -/
def ShadowsArmed (disk : Disk) : Prop :=
  disk rotIntentName = none → ∀ name, disk (shadowName name) = none

/-- Recovery under the old DEK stays on the old line and drops the intent; it drops
the shadows too, unless they came with no intent. -/
theorem meets_recoverRotation_old (order : IterOrder) (live : q.Live pool.dek st) (old : OldLine pool st) :
    ((recoverRotation order) q).Meets (fun q => OldLine pool q.stored)
      (fun _ q => ∃ st', q.Live pool.dek st' ∧ OldLine pool st' ∧ st'.disk rotIntentName = none ∧
        (ShadowsArmed st.disk → ∀ name, isStaging name = true → st'.disk name = none))
      fun _ _ => False := by
  cases intent : st.disk rotIntentName with
  | some region =>
      apply (meets_recoverRotation_back live intent (old.intent region intent) old
        OldLine.closed).mono (fun _ kept => kept) ?_ fun _ _ no => no
      rintro _ r ⟨st', live', old', gone⟩
      exact ⟨st', live', old', gone _ isStaging_rotIntentName, fun _ => gone⟩
  | none =>
      rw [recoverRotation_none (live.lacksFilename.mpr intent)]
      refine ⟨fun _ member => (nomatch member), st, live, old, intent, ?_⟩
      intro armed name staging
      cases isStaging_cases staging with
      | inr same => rw [same, intent]
      | inl shadow =>
          obtain ⟨other, rfl⟩ := shadow
          exact armed intent other

end Back

section Carry

variable {table carried : AnchorTable} {e : AnchorEntry}

theorem AnchorTable.eq_of_uuid_eq {e' : AnchorEntry} (member : e ∈ table.entries)
    (member' : e' ∈ table.entries) (same : e.uuid = e'.uuid) : e = e' :=
  List.inj_on_of_nodup_map table.distinct member member' same

/-- Raising an entry by its own values changes nothing. -/
theorem raise_self (e : AnchorEntry) :
    e.raise (some e.committed) (some e.inFlight)
      (if e.epochFloor > 0 then some e.epochFloor else none) = e := by
  unfold AnchorEntry.raise
  by_cases floor : e.epochFloor > 0
  · rw [if_pos floor]
    simp
  · rw [if_neg floor]
    simp

theorem raiseFirst_eq_self {uuid : Uuid} {f : AnchorEntry → AnchorEntry} {entries : List AnchorEntry}
    (fixed : ∀ e ∈ entries, e.uuid = uuid → f e = e) : raiseFirst uuid f entries = entries := by
  induction entries with
  | nil => rfl
  | cons e rest ih =>
      rw [raiseFirst]
      split
      · next same => rw [fixed e List.mem_cons_self same]
      · rw [ih fun other member => fixed other (List.mem_cons_of_mem _ member)]

/-- Replaying a carried window into a table of carried windows finds room, keeps
them all and adds this one. -/
theorem anchorUpsert_carry (sub : table.entries ⊆ carried.entries) (member : e ∈ carried.entries) :
    ∃ next, anchorUpsert e.uuid (some e.committed) (some e.inFlight)
        (if e.epochFloor > 0 then some e.epochFloor else none) table = some next ∧
      next.entries ⊆ carried.entries ∧ table.entries ⊆ next.entries ∧ e ∈ next.entries := by
  by_cases present : e.uuid ∈ table.entries.map fun e => e.uuid
  · obtain ⟨e', held, same⟩ := List.mem_map.mp present
    have found : e' = e := AnchorTable.eq_of_uuid_eq (sub held) member same
    have kept : raiseFirst e.uuid (·.raise (some e.committed) (some e.inFlight)
        (if e.epochFloor > 0 then some e.epochFloor else none)) table.entries = table.entries := by
      apply raiseFirst_eq_self
      intro other member' same'
      rw [AnchorTable.eq_of_uuid_eq (sub member') member same']
      exact raise_self e
    obtain ⟨next, saved, entries⟩ := anchorUpsert_of_mem _ _ _ present
    refine ⟨next, saved, ?_⟩
    rw [entries, kept]
    exact ⟨sub, List.Subset.refl _, found ▸ held⟩
  · have outside : e ∉ table.entries := fun held => present (List.mem_map_of_mem held)
    have within : table.entries ++ [e] ⊆ carried.entries := by
      intro other held
      cases List.mem_append.mp held with
      | inl old => exact sub old
      | inr new => rw [List.mem_singleton.mp new]; exact member
    have shorter : (table.entries ++ [e]).length ≤ carried.entries.length := by
      apply List.Subperm.length_le
      apply List.Nodup.subperm ?_ within
      rw [← List.concat_eq_append]
      exact (List.Nodup.of_map _ table.distinct).concat outside
    have room : table.entries.length < anchorCap := by
      have fits := carried.fits
      rw [List.length_append, List.length_singleton] at shorter
      omega
    have entry : (⟨e.uuid, (some e.committed).getD 0, (some e.inFlight).getD 0,
        (if e.epochFloor > 0 then some e.epochFloor else none).getD 0⟩ : AnchorEntry) = e := by
      by_cases floor : e.epochFloor > 0
      · rw [if_pos floor]
        rfl
      · have zero : e.epochFloor = 0 := by omega
        rw [if_neg floor, Option.getD_none, ← zero]
        rfl
    obtain ⟨next, saved, entries⟩ := anchorUpsert_of_not_mem _ _ _ present room
    refine ⟨next, saved, ?_⟩
    rw [entries, entry]
    exact ⟨within, List.subset_append_left _ _, List.mem_append_right _ List.mem_cons_self⟩

end Carry

section Forward

variable {pool ref q : Pool} {newDek : Dek} {dbNames : List FileName} {refSt st : Stored}
  {order : IterOrder}

/-- The windows the intent carries over. -/
def carriedTable (pool : Pool) : AnchorTable := (anchorLoad pool.dek pool.anchor).2

/-- A roll-forward under way: each re-sealed file still has its whole shadow, or is
in place already. `refSt` is what the finished staging left. -/
structure Rolling (pool : Pool) (newDek : Dek) (dbNames : List FileName) (refSt st : Stored) :
    Prop where
  capacity : st.capacity = pool.capacity
  within : ∀ name, st.disk name ≠ none → refSt.disk name ≠ none
  others : ∀ name, isStaging name = false → (∀ image, ¬ Resealed pool newDek dbNames name image) →
    st.disk name = pool.content name
  intent : st.disk rotIntentName = refSt.disk rotIntentName
  adopted : ∀ name image, Resealed pool newDek dbNames name image →
    st.disk (shadowName name) = some image ∨
      (st.disk name = some image ∧
        (st.disk (shadowName name) = none ∨ st.disk (shadowName name) = some .empty))
  anchor : (anchorLoad newDek st.anchor).2.entries ⊆ (carriedTable pool).entries

/-- A roll-forward that has only its intent file left to drop, and shadows that
were there before the staging. -/
structure Rolled (pool : Pool) (newDek : Dek) (dbNames : List FileName) (st : Stored) : Prop where
  capacity : st.capacity = pool.capacity
  others : ∀ name, isStaging name = false → (∀ image, ¬ Resealed pool newDek dbNames name image) →
    st.disk name = pool.content name
  intent : st.disk rotIntentName = none ∨ st.disk rotIntentName = some .empty
  strays : ∀ name, st.disk (shadowName name) ≠ none →
    (∀ image, ¬ Resealed pool newDek dbNames name image) ∧ pool.content (shadowName name) ≠ none
  adopted : ∀ name image, Resealed pool newDek dbNames name image → st.disk name = some image
  anchor : (anchorLoad newDek st.anchor).2.entries ⊆ (carriedTable pool).entries
  carried : (carriedTable pool).entries ⊆ (anchorLoad newDek st.anchor).2.entries

/-- The post-rotation line. -/
def NewLine (pool : Pool) (newDek : Dek) (dbNames : List FileName) (refSt st : Stored) : Prop :=
  Rolling pool newDek dbNames refSt st ∨ Rolled pool newDek dbNames st

theorem Rolled.closed (dbs : ∀ db ∈ dbNames, endsWith db dbSuffix = true) :
    ∀ st name, Rolled pool newDek dbNames st → isStaging name = true → st.disk name ≠ none →
    Rolled pool newDek dbNames (st.put name (some .empty)) ∧
      Rolled pool newDek dbNames (st.put name none) := by
  intro st name rolled staging held
  have put : ∀ data, data = none ∨ data = some .empty →
      Rolled pool newDek dbNames (st.put name data) := by
    intro data shape
    have kept : ∀ other, isStaging other = false → (st.put name data).disk other = st.disk other := by
      intro other live
      apply Stored.put_disk_of_ne
      rintro rfl
      rw [staging] at live
      exact Bool.noConfusion live
    refine ⟨rolled.capacity, ?_, ?_, ?_, ?_, rolled.anchor, rolled.carried⟩
    · intro other live unsealed
      rw [kept other live]
      exact rolled.others other live unsealed
    · by_cases same : rotIntentName = name
      · rw [same, Stored.put_disk_self]
        exact shape
      · rw [Stored.put_disk_of_ne same]
        exact rolled.intent
    · intro other held'
      apply rolled.strays other
      by_cases same : shadowName other = name
      · rw [same]
        exact held
      · rw [Stored.put_disk_of_ne same] at held'
        exact held'
    · intro other image resealed
      rw [kept other (resealed.not_staging dbs)]
      exact rolled.adopted other image resealed
  exact ⟨put _ (Or.inr rfl), put _ (Or.inl rfl)⟩

theorem Staged.shadow (staged : Staged pool newDek dbNames refSt) {name : FileName} {image : Region}
    (resealed : Resealed pool newDek dbNames name image) :
    refSt.disk (shadowName name) = some image := by
  obtain ⟨db, named, files, ok, member⟩ := resealed
  obtain ⟨files', ok', complete⟩ := staged.staged db named
  rw [ok, Except.ok.injEq] at ok'
  exact complete name image (ok' ▸ member)

/-- A finished staging is where the roll-forward starts. -/
theorem Staged.rolling (staged : Staged pool newDek dbNames refSt) 
    (unseen : anchorPick newDek pool.anchor = none) : Rolling pool newDek dbNames refSt refSt := by
  refine ⟨staged.old.capacity, fun _ held => held, ?_, rfl, ?_, ?_⟩
  · intro name live _
    exact staged.old.live name live
  · intro name image resealed
    exact Or.inl (staged.shadow resealed)
  · rw [staged.old.anchor, anchorLoad, unseen]
    exact List.nil_subset _

/-- Whatever the live file of a pending re-sealed file becomes, it is still rolling. -/
theorem Rolling.put_live (dbs : ∀ db ∈ dbNames, endsWith db dbSuffix = true)
    (wf : pool.Wf) (staged : Staged pool newDek dbNames refSt)
    (rolling : Rolling pool newDek dbNames refSt st) {name : FileName} {image : Region}
    (resealed : Resealed pool newDek dbNames name image)
    (pending : st.disk (shadowName name) = some image) (data : Option Region) :
    Rolling pool newDek dbNames refSt (st.put name data) := by
  have live := resealed.not_staging dbs
  have shadowed : ∀ other, (st.put name data).disk (shadowName other) = st.disk (shadowName other) := by
    intro other
    exact Stored.put_disk_of_ne (Ne.symm (ne_shadowName_of_not_staging live other))
  refine ⟨rolling.capacity, ?_, ?_, ?_, ?_, rolling.anchor⟩
  · intro other held
    by_cases same : other = name
    · rw [same, staged.old.live name live]
      exact Option.ne_none_iff_exists'.mpr (wf.hasFilename_iff.mp resealed.present)
    · rw [Stored.put_disk_of_ne same] at held
      exact rolling.within other held
  · intro other live' unsealed
    have apart : other ≠ name := by
      rintro rfl
      exact unsealed image resealed
    rw [Stored.put_disk_of_ne apart]
    exact rolling.others other live' unsealed
  · rw [Stored.put_disk_of_ne (Ne.symm (ne_rotIntentName_of_not_staging live))]
    exact rolling.intent
  · intro other image' resealed'
    rw [shadowed]
    by_cases same : other = name
    · subst same
      rw [resealed'.unique dbs resealed]
      exact Or.inl pending
    · rw [Stored.put_disk_of_ne same]
      exact rolling.adopted other image' resealed'

/-- A shadow whose file is in place may be emptied and dropped. -/
theorem Rolling.put_shadow (dbs : ∀ db ∈ dbNames, endsWith db dbSuffix = true)
    (rolling : Rolling pool newDek dbNames refSt st) {name : FileName} {image : Region}
    (resealed : Resealed pool newDek dbNames name image) (placed : st.disk name = some image)
    (held : st.disk (shadowName name) ≠ none) (data : Option Region)
    (shape : data = none ∨ data = some .empty) :
    Rolling pool newDek dbNames refSt (st.put (shadowName name) data) := by
  refine ⟨rolling.capacity, ?_, ?_, ?_, ?_, rolling.anchor⟩
  · intro other held'
    by_cases same : other = shadowName name
    · exact same ▸ rolling.within _ held
    · rw [Stored.put_disk_of_ne same] at held'
      exact rolling.within other held'
  · intro other live unsealed
    rw [Stored.put_disk_of_ne (ne_shadowName_of_not_staging live name)]
    exact rolling.others other live unsealed
  · rw [Stored.put_disk_of_ne (Ne.symm shadowName_ne_rotIntentName)]
    exact rolling.intent
  · intro other image' resealed'
    rw [Stored.put_disk_of_ne (ne_shadowName_of_not_staging (resealed'.not_staging dbs) name)]
    by_cases same : other = name
    · subst same
      rw [Stored.put_disk_self, resealed'.unique dbs resealed]
      exact Or.inr ⟨placed, shape⟩
    · rw [Stored.put_disk_of_ne fun shadow => same (shadowName_injective shadow)]
      exact rolling.adopted other image' resealed'

/-- No shadow has lost its contents while it was being dropped. -/
def ShadowsWhole (pool : Pool) (newDek : Dek) (dbNames : List FileName) (disk : Disk) : Prop :=
  ∀ name image, Resealed pool newDek dbNames name image →
    disk (shadowName name) = some .empty → image = .empty

/-- The roll-forward with the files `todo` still to come: the others are in place
and their shadows gone. -/
structure Adopting (pool : Pool) (newDek : Dek) (dbNames : List FileName) (refSt : Stored)
    (todo : List FileName) (st : Stored) : Prop where
  rolling : Rolling pool newDek dbNames refSt st
  turn : ∀ name image, Resealed pool newDek dbNames name image →
    (name ∈ todo ∧ st.disk (shadowName name) = some image) ∨
      (st.disk name = some image ∧ st.disk (shadowName name) = none)

theorem meets_adoptShadow (dbs : ∀ db ∈ dbNames, endsWith db dbSuffix = true) (wf : pool.Wf)
    (refLive : ref.Live pool.dek refSt) (staged : Staged pool newDek dbNames refSt)
    {name : FileName} (target : ∃ image, Resealed pool newDek dbNames name image)
    {todo : List FileName} (live : q.Live newDek st)
    (adopting : Adopting pool newDek dbNames refSt (name :: todo) st) :
    ((adoptShadow name) q).Meets (fun q => NewLine pool newDek dbNames refSt q.stored)
      (fun _ q => ∃ st, q.Live newDek st ∧ Adopting pool newDek dbNames refSt todo st)
      fun _ _ => False := by
  have rolling := adopting.rolling
  unfold adoptShadow
  apply meets_get_bind
  by_cases shadow : st.disk (shadowName name) = none
  · have absent : q.hasFilename (shadowName name) = false := live.lacksFilename.mpr shadow
    simp only [absent, Bool.false_eq_true, if_false]
    refine meets_pure ⟨st, live, rolling, ?_⟩
    intro other image resealed
    cases adopting.turn other image resealed with
    | inr placed => exact Or.inr placed
    | inl waiting =>
        cases List.mem_cons.mp waiting.1 with
        | inr later => exact Or.inl ⟨later, waiting.2⟩
        | inl now =>
            rw [now, shadow] at waiting
            cases waiting.2
  · have present : q.hasFilename (shadowName name) = true := live.hasFilename.mpr shadow
    obtain ⟨image, resealed⟩ := target
    have pending : st.disk (shadowName name) = some image := by
      cases adopting.turn name image resealed with
      | inl waiting => exact waiting.2
      | inr placed => exact absurd placed.2 shadow
    have liveName := resealed.not_staging dbs
    simp only [present, if_true]
    rw [live.exportRaw pending]
    apply meets_bind (fun bytes r => bytes = image ∧ r = q)
    · exact meets_pure ⟨rfl, rfl⟩
    · intro bytes r read
      rw [read.1, read.2]
      apply meets_bind (fun _ r => r.Live newDek (st.put name (some image)))
      · apply meets_importCiphertextFile live (Or.inl rolling)
        · intro data _
          exact Or.inl (rolling.put_live dbs wf staged resealed pending data)
        · rintro (long | full) e r _
          · obtain ⟨data, held⟩ := wf.hasFilename_iff.mp resealed.present
            exact absurd (wf.fits held) long
          · have held : ref.hasFilename name = true := by
              rw [refLive.hasFilename, staged.old.live name liveName]
              exact Option.ne_none_iff_exists'.mpr (wf.hasFilename_iff.mp resealed.present)
            apply absurd full.2
            apply room_of_missing ?_ ?_ held (live.lacksFilename.mpr full.1)
            · rw [live.capacity_eq, refLive.capacity_eq, rolling.capacity, staged.old.capacity]
            · intro other has
              rw [refLive.hasFilename]
              exact rolling.within other (live.hasFilename.mp has)
        · intro r written
          exact written
      · intro _ r written
        have rolling' := rolling.put_live dbs wf staged resealed pending (some image)
        have pending' : (st.put name (some image)).disk (shadowName name) ≠ none := by
          rw [Stored.put_disk_of_ne (Ne.symm (ne_shadowName_of_not_staging liveName name))]
          exact shadow
        have dropped := rolling'.put_shadow dbs resealed Stored.put_disk_self pending'
        apply meets_attempt
        apply meets_deleteFile written (Or.inl rolling') (fun _ => Or.inl (dropped _ (Or.inr rfl)))
        intro _ s gone _ _
        refine ⟨_, gone, dropped _ (Or.inl rfl), ?_⟩
        intro other image' resealed'
        have live' := resealed'.not_staging dbs
        by_cases same : other = name
        · subst same
          right
          rw [Stored.put_disk_self, Stored.put_disk_of_ne (ne_shadowName_of_not_staging live' _),
            Stored.put_disk_self, resealed'.unique dbs resealed]
          exact ⟨rfl, rfl⟩
        · rw [Stored.put_disk_of_ne fun shadow => same (shadowName_injective shadow),
            Stored.put_disk_of_ne (Ne.symm (ne_shadowName_of_not_staging liveName other)),
            Stored.put_disk_of_ne (ne_shadowName_of_not_staging live' _),
            Stored.put_disk_of_ne same]
          apply (adopting.turn other image' resealed').imp_left
          rintro ⟨waiting, kept⟩
          exact ⟨(List.mem_cons.mp waiting).resolve_left same, kept⟩

/-- The windows `todo` are still to be carried over. -/
structure Carrying (pool : Pool) (newDek : Dek) (dbNames : List FileName) (refSt : Stored)
    (todo : List AnchorEntry) (st : Stored) : Prop where
  adopting : Adopting pool newDek dbNames refSt [] st
  turn : ∀ e ∈ (carriedTable pool).entries, e ∈ todo ∨ e ∈ (anchorLoad newDek st.anchor).2.entries

theorem meets_carryAnchor {e : AnchorEntry} {todo : List AnchorEntry} (live : q.Live newDek st)
    (member : e ∈ (carriedTable pool).entries)
    (carrying : Carrying pool newDek dbNames refSt (e :: todo) st) :
    ((carryAnchor e) q).Meets (fun q => NewLine pool newDek dbNames refSt q.stored)
      (fun _ q => ∃ st, q.Live newDek st ∧ Carrying pool newDek dbNames refSt todo st)
      fun _ _ => False := by
  have rolling := carrying.adopting.rolling
  obtain ⟨next, saved, within, grown, added⟩ := anchorUpsert_carry rolling.anchor member
  have moved : ∀ anchor, (anchorLoad newDek anchor).2 = next →
      Adopting pool newDek dbNames refSt [] { st with anchor := anchor } := by
    intro anchor loaded
    refine ⟨⟨rolling.capacity, rolling.within, rolling.others, rolling.intent, rolling.adopted, ?_⟩,
      carrying.adopting.turn⟩
    simp only [loaded]
    exact within
  unfold carryAnchor
  apply meets_anchorRecordFull _ live saved (Or.inl rolling)
  · intro anchor loaded
    exact Or.inl (moved anchor loaded).rolling
  · intro anchor r loaded live'
    refine ⟨_, live', moved anchor loaded, ?_⟩
    intro other carried
    simp only [loaded]
    cases carrying.turn other carried with
    | inr kept => exact Or.inr (grown kept)
    | inl waiting =>
        cases List.mem_cons.mp waiting with
        | inl now => exact Or.inr (now ▸ added)
        | inr later => exact Or.inl later

/-- With every file in place and every window carried, only the intent is left. -/
theorem Carrying.rolled (dbs : ∀ db ∈ dbNames, endsWith db dbSuffix = true)
    (staged : Staged pool newDek dbNames refSt)
    (carrying : Carrying pool newDek dbNames refSt [] st) (data : Option Region)
    (shape : data = none ∨ data = some .empty) :
    Rolled pool newDek dbNames (st.put rotIntentName data) := by
  have rolling := carrying.adopting.rolling
  have placed : ∀ name image, Resealed pool newDek dbNames name image →
      st.disk name = some image ∧ st.disk (shadowName name) = none := by
    intro name image resealed
    exact (carrying.adopting.turn name image resealed).resolve_left
      fun waiting => List.not_mem_nil waiting.1
  refine ⟨rolling.capacity, ?_, ?_, ?_, ?_, rolling.anchor, ?_⟩
  · intro name live unsealed
    rw [Stored.put_disk_of_ne (ne_rotIntentName_of_not_staging live)]
    exact rolling.others name live unsealed
  · rw [Stored.put_disk_self]
    exact shape
  · intro name
    rw [Stored.put_disk_of_ne shadowName_ne_rotIntentName]
    intro held
    have unsealed : ∀ image, ¬ Resealed pool newDek dbNames name image :=
      fun image resealed => held (placed name image resealed).2
    refine ⟨unsealed, ?_⟩
    apply (staged.shadows name (rolling.within _ held)).resolve_left
    rintro ⟨image, resealed⟩
    exact unsealed image resealed
  · intro name image resealed
    rw [Stored.put_disk_of_ne (ne_rotIntentName_of_not_staging (resealed.not_staging dbs))]
    exact (placed name image resealed).1
  · intro e member
    exact (carrying.turn e member).resolve_left List.not_mem_nil

/-- The files of a staged database are re-sealed. -/
theorem Staged.target (staged : Staged pool newDek dbNames refSt) {db name : FileName}
    (named : db ∈ dbNames) (present : pool.hasFilename db = true)
    (file : name = db ∨ name = manifestName db) : ∃ image, Resealed pool newDek dbNames name image := by
  obtain ⟨files, ok, _⟩ := staged.staged db named
  obtain ⟨uuid, slots, _, found⟩ := resealDbCiphertext_ok ok
  cases found with
  | inl alone =>
      rw [present] at alone
      exact Bool.noConfusion alone.1
  | inr both =>
      obtain ⟨raw, resealed, _, _, _, rfl⟩ := both
      cases file with
      | inl main =>
          rw [main]
          exact ⟨_, db, named, _, ok, List.mem_cons_self⟩
      | inr manifest =>
          rw [manifest]
          exact ⟨_, db, named, _, ok, List.mem_cons_of_mem _ List.mem_cons_self⟩

/-- Recovery under the new DEK ends on the new line, without its intent, from each of
its states whose shadows are whole. -/
theorem meets_recoverRotation_new (order : IterOrder) (dbs : ∀ db ∈ dbNames, endsWith db dbSuffix = true)
    (present : ∀ db ∈ dbNames, pool.hasFilename db = true) (wf : pool.Wf) (refLive : ref.Live pool.dek refSt) (staged : Staged pool newDek dbNames refSt)
    (live : q.Live newDek st) (line : NewLine pool newDek dbNames refSt st)
    (whole : ShadowsWhole pool newDek dbNames st.disk) :
    ((recoverRotation order) q).Meets (fun q => NewLine pool newDek dbNames refSt q.stored)
      (fun _ q => ∃ st, q.Live newDek st ∧ Rolled pool newDek dbNames st ∧
        st.disk rotIntentName = none)
      fun _ _ => False := by
  cases line with
  | inr rolled =>
      cases rolled.intent with
      | inr emptied =>
          apply (meets_recoverRotation_back live emptied rfl rolled (Rolled.closed dbs)).mono
            (fun _ kept => Or.inr kept) ?_ fun _ _ no => no
          rintro _ r ⟨st', live', rolled', gone⟩
          exact ⟨st', live', rolled', gone _ isStaging_rotIntentName⟩
      | inl absent =>
          rw [recoverRotation_none (live.lacksFilename.mpr absent)]
          exact ⟨fun _ member => (nomatch member), st, live, rolled, absent⟩
  | inl rolling =>
      obtain ⟨oldGen, newGen, intent⟩ := staged.intent
      rw [← rolling.intent] at intent
      have has : q.hasFilename rotIntentName = true := by
        rw [live.hasFilename, intent]
        exact Option.some_ne_none _
      unfold recoverRotation
      apply meets_get_bind
      rw [if_pos has, live.exportRaw intent, live.dek_eq]
      apply meets_bind (fun sealed r => sealed = .intent
        (.sealed (.rotateIntentKey newDek) .rotateIntent
          ⟨oldGen, newGen, dbNames, carriedTable pool⟩) ∧ r = q)
      · exact meets_pure ⟨rfl, rfl⟩
      · rintro _ _ ⟨rfl, rfl⟩
        simp only [Region.openIntent, Aead.openWith_sealed]
        -- the files: whole shadows first, each database in turn
        have start : Adopting pool newDek dbNames refSt
            (dbNames.flatMap fun db => [db, manifestName db]) st := by
          refine ⟨rolling, ?_⟩
          intro name image resealed
          have target : name ∈ dbNames.flatMap fun db => [db, manifestName db] := by
            obtain ⟨db, named, files, ok, member⟩ := resealed
            rw [List.mem_flatMap]
            refine ⟨db, named, ?_⟩
            simpa using mem_resealDbCiphertext ok member
          cases rolling.adopted name image resealed with
          | inl pending => exact Or.inl ⟨target, pending⟩
          | inr placed =>
              cases placed.2 with
              | inl gone => exact Or.inr ⟨placed.1, gone⟩
              | inr emptied =>
                  have blank := whole name image resealed emptied
                  exact Or.inl ⟨target, blank ▸ emptied⟩
        let files (rest : List FileName) (q : Pool) : Prop :=
          (∀ db ∈ rest, db ∈ dbNames) ∧ ∃ st, q.Live newDek st ∧
            Adopting pool newDek dbNames refSt (rest.flatMap fun db => [db, manifestName db]) st
        apply meets_bind (fun _ => files [])
        · apply meets_forEach files
          · rintro db rest r ⟨sub, held⟩
            let inner (todo : List FileName) (q : Pool) : Prop :=
              (∀ name ∈ todo, name = db ∨ name = manifestName db) ∧ ∃ st, q.Live newDek st ∧
                Adopting pool newDek dbNames refSt
                  (todo ++ rest.flatMap fun db => [db, manifestName db]) st
            have looped : ((Prog.forEach adoptShadow [db, manifestName db]) r).Meets
                (fun q => NewLine pool newDek dbNames refSt q.stored) (fun _ => inner [])
                fun _ _ => False := by
              apply meets_forEach inner
              · rintro name todo s ⟨own, st', live', adopting⟩
                have named := sub db List.mem_cons_self
                have target := staged.target named (present db named)
                  (own name List.mem_cons_self)
                apply (meets_adoptShadow dbs wf refLive staged target live' adopting).mono
                  (fun _ kept => kept) ?_ fun _ _ no => no
                intro _ t done
                exact ⟨fun other member => own other (List.mem_cons_of_mem _ member), done⟩
              · exact ⟨by simp, held⟩
            apply looped.mono (fun _ kept => kept) ?_ fun _ _ no => no
            intro _ s done
            exact ⟨fun other member => sub other (List.mem_cons_of_mem _ member), done.2⟩
          · exact ⟨fun _ member => member, st, live, start⟩
        · rintro _ r ⟨_, st', live', adopting⟩
          let windows (rest : List AnchorEntry) (q : Pool) : Prop :=
            (∀ e ∈ rest, e ∈ (carriedTable pool).entries) ∧ ∃ st, q.Live newDek st ∧
              Carrying pool newDek dbNames refSt rest st
          apply meets_bind (fun _ => windows [])
          · apply meets_forEach windows
            · rintro e rest s ⟨sub, st'', live'', carrying⟩
              apply (meets_carryAnchor live'' (sub e List.mem_cons_self) carrying).mono
                (fun _ kept => kept) ?_ fun _ _ no => no
              intro _ t done
              exact ⟨fun other member => sub other (List.mem_cons_of_mem _ member), done⟩
            · exact ⟨fun _ member => member, st', live', adopting, fun _ member => Or.inl member⟩
          · rintro _ s ⟨_, st'', live'', carrying⟩
            apply meets_bind (fun _ t => t.Live newDek (st''.put rotIntentName none))
            · apply meets_attempt
              apply meets_deleteFile live'' (Or.inl carrying.adopting.rolling)
                (fun _ => Or.inr (carrying.rolled dbs staged _ (Or.inr rfl)))
              intro _ t gone _ _
              exact gone
            · intro _ t gone
              apply meets_pure
              have rolled := carrying.rolled dbs staged none (Or.inl rfl)
              exact ⟨_, gone, rolled, Stored.put_disk_self⟩

end Forward

/-- A pool a crash may leave: under the old DEK no shadow is without an intent, and
under the new one no shadow is left emptied. -/
def Recoverable (pool : Pool) (newDek : Dek) (dbNames : List FileName) (dek : Dek) (q : Pool) :
    Prop :=
  (dek = pool.dek → ShadowsArmed q.content) ∧
    (dek = newDek → ShadowsWhole pool newDek dbNames q.content)

/-- A recovery of the pool `q` under `dek` that was cut short at `r`, or ended there. -/
def Interrupted (dek : Dek) (allowed : Pool → Prop) (q r : Pool) : Prop :=
  allowed r ∧ ∃ order, r ∈ ((recoverRotation order) (q.reopen dek)).crashes

/-- Pools the staging of `pool` leaves for a vault that unlocks with `dek`: any crash
or failure under the old DEK, its success under the new one. -/
def LeftByStaging (pool : Pool) (newDek : Dek) (dbNames : List FileName) (oldGen newGen : Nat)
    (dek : Dek) (q : Pool) : Prop :=
  let staging := (stageRotation newDek dbNames oldGen newGen) pool
  (dek = pool.dek ∧ q ∈ staging.crashes) ∨
    (dek = newDek ∧ q = staging.state ∧ staging.result = .ok ())

/-- The pool is wholly on the line of `dek`, with nothing left of the rotation. -/
structure Recovered (pool : Pool) (newDek : Dek) (dbNames : List FileName) (dek : Dek)
    (done : Pool) : Prop where
  noStaging : ∀ name, isStaging name = true → done.hasFilename name = false
  old : dek = pool.dek → ∀ name, isStaging name = false → done.content name = pool.content name
  new : dek = newDek → ∀ db ∈ dbNames, ∃ files, resealDbCiphertext db newDek pool = .ok files ∧
    ∀ name image, (name, image) ∈ files → done.content name = some image
  others : ∀ name, isStaging name = false →
    (∀ image, ¬ Resealed pool newDek dbNames name image) → done.content name = pool.content name
  free : done.available.length = pool.available.length
  stable : ∀ order, (recoverRotation order) done = ⟨[], done, .ok none⟩

section Recovery

variable {pool q : Pool} {newDek dek : Dek} {dbNames : List FileName} {oldGen newGen : Nat}
  {st : Stored}

theorem endsWith_databases (order : IterOrder) (pool : Pool) : ∀ db ∈ databases order pool,
    endsWith db dbSuffix = true := by
  intro db member
  exact (List.mem_filter.mp member).2

theorem hasFilename_databases (order : IterOrder) (pool : Pool) : ∀ db ∈ databases order pool,
    pool.hasFilename db = true := by
  intro db member
  have listed := (List.mem_filter.mp member).1
  rw [(order.perm _).mem_iff, Std.ExtTreeMap.mem_keys] at listed
  exact Std.ExtTreeMap.contains_iff_mem.mpr listed

theorem Wf.clean_content (wf : pool.Wf) (clean : ∀ name ∈ pool.files.keys, isStaging name = false) :
    ∀ name, isStaging name = true → pool.content name = none := by
  intro name staging
  rw [← wf.hasFilename_eq_false, ← Bool.not_eq_true]
  intro held
  have member : name ∈ pool.files.keys :=
    Std.ExtTreeMap.mem_keys.mpr (Std.ExtTreeMap.contains_iff_mem.mp held)
  rw [clean name member] at staging
  exact Bool.noConfusion staging

/-- A pool with the contents of the old line and no staging file is recovered. -/
theorem OldLine.recovered (wf : pool.Wf)
    (clean : ∀ name, isStaging name = true → pool.content name = none) (fresh : newDek ≠ pool.dek)
    (live : q.Live pool.dek st) (old : OldLine pool st)
    (none_left : ∀ name, isStaging name = true → st.disk name = none) :
    Recovered pool newDek dbNames pool.dek q := by
  have same : ∀ name, q.content name = pool.content name := by
    intro name
    rw [live.content_eq]
    by_cases staging : isStaging name = true
    · rw [none_left name staging, clean name staging]
    · exact old.live name (Bool.not_eq_true _ ▸ staging)
  refine ⟨?_, fun _ name _ => same name, fun line => absurd line.symm fresh,
    fun name _ _ => same name, ?_, ?_⟩
  · intro name staging
    rw [live.lacksFilename, none_left name staging]
  · apply available_length_eq
    · rw [live.capacity_eq, old.capacity]
    · intro name
      rw [live.wf.hasFilename_iff, wf.hasFilename_iff, same]
  · intro order
    exact recoverRotation_none (live.lacksFilename.mpr (none_left _ isStaging_rotIntentName))

/-- So is one with the contents of the new line. -/
theorem Rolled.recovered (wf : pool.Wf)
    (clean : ∀ name, isStaging name = true → pool.content name = none) (fresh : newDek ≠ pool.dek)
    (sealable : ∀ db ∈ dbNames, ∃ files, resealDbCiphertext db newDek pool = .ok files)
    (live : q.Live newDek st) (rolled : Rolled pool newDek dbNames st)
    (disarmed : st.disk rotIntentName = none) : Recovered pool newDek dbNames newDek q := by
  have none_left : ∀ name, isStaging name = true → st.disk name = none := by
    intro name staging
    cases isStaging_cases staging with
    | inr same => rw [same, disarmed]
    | inl shadow =>
        obtain ⟨other, rfl⟩ := shadow
        by_contra held
        exact (rolled.strays other held).2 (clean _ isStaging_shadowName)
  refine ⟨?_, fun line => absurd line fresh, ?_, ?_, ?_, ?_⟩
  · intro name staging
    rw [live.lacksFilename, none_left name staging]
  · intro _ db named
    obtain ⟨files, ok⟩ := sealable db named
    refine ⟨files, ok, ?_⟩
    intro name image member
    rw [live.content_eq]
    exact rolled.adopted name image ⟨db, named, files, ok, member⟩
  · intro name staging unsealed
    rw [live.content_eq]
    exact rolled.others name staging unsealed
  · apply available_length_eq
    · rw [live.capacity_eq, rolled.capacity]
    · intro name
      rw [live.wf.hasFilename_iff, wf.hasFilename_iff, live.content_eq]
      by_cases staging : isStaging name = true
      · rw [none_left name staging, clean name staging]
      · by_cases resealed : ∃ image, Resealed pool newDek dbNames name image
        · obtain ⟨image, resealed⟩ := resealed
          rw [rolled.adopted name image resealed]
          exact iff_of_true ⟨image, rfl⟩ (wf.hasFilename_iff.mp resealed.present)
        · rw [rolled.others name (Bool.not_eq_true _ ▸ staging) (not_exists.mp resealed)]
  · intro order
    exact recoverRotation_none (live.lacksFilename.mpr (none_left _ isStaging_rotIntentName))

/-- Crashed recoveries under the old DEK never leave the old line. -/
theorem oldLine_of_interrupted (start : OldLine pool q.stored) (armed : ShadowsArmed q.content)
    {last : Pool} (crashes : Relation.ReflTransGen
      (Interrupted pool.dek (Recoverable pool newDek dbNames pool.dek)) q last) :
    OldLine pool last.stored ∧ ShadowsArmed last.content := by
  induction crashes with
  | refl => exact ⟨start, armed⟩
  | tail _ next ih =>
      obtain ⟨sound, order, member⟩ := next
      have met := meets_recoverRotation_old order (live_reopen _ pool.dek) ih.1
      refine ⟨?_, sound.1 rfl⟩
      apply Outcome.Meets.crashes (fun q => OldLine pool q.stored) ?_ _ member
      apply met.mono (fun _ kept => kept) ?_ fun _ _ no => no.elim
      rintro _ r ⟨st, live, old, _⟩
      rw [live.stored_eq]
      exact old

/-- Nor do those under the new DEK leave the new line. -/
theorem newLine_of_interrupted (dbs : ∀ db ∈ dbNames, endsWith db dbSuffix = true)
    (present : ∀ db ∈ dbNames, pool.hasFilename db = true) (wf : pool.Wf)
    {ref : Pool} {refSt : Stored} (refLive : ref.Live pool.dek refSt)
    (staged : Staged pool newDek dbNames refSt) (start : NewLine pool newDek dbNames refSt q.stored)
    (whole : ShadowsWhole pool newDek dbNames q.content) {last : Pool}
    (crashes : Relation.ReflTransGen
      (Interrupted newDek (Recoverable pool newDek dbNames newDek)) q last) :
    NewLine pool newDek dbNames refSt last.stored ∧
      ShadowsWhole pool newDek dbNames last.content := by
  induction crashes with
  | refl => exact ⟨start, whole⟩
  | tail _ next ih =>
      obtain ⟨sound, order, member⟩ := next
      have met := meets_recoverRotation_new order dbs present wf refLive staged
        (live_reopen _ newDek) ih.1 ih.2
      refine ⟨?_, sound.2 rfl⟩
      apply Outcome.Meets.crashes (fun q => NewLine pool newDek dbNames refSt q.stored) ?_ _
        member
      apply met.mono (fun _ kept => kept) ?_ fun _ _ no => no.elim
      rintro _ r ⟨st, live, rolled, _⟩
      rw [live.stored_eq]
      exact Or.inr rolled

/-- However often the staging or its recovery is cut short in a recoverable state,
the next whole recovery succeeds and leaves one line, complete and alone. -/
theorem recoverRotation_recovers {order : IterOrder} (wf : pool.Wf)
    (clean : ∀ name ∈ pool.files.keys, isStaging name = false) (fresh : newDek ≠ pool.dek)
    (unseen : anchorPick newDek pool.anchor = none) {start last : Pool}
    (staging : LeftByStaging pool newDek (databases order pool) oldGen newGen dek start)
    (sound : Recoverable pool newDek (databases order pool) dek start)
    (crashes : Relation.ReflTransGen
      (Interrupted dek (Recoverable pool newDek (databases order pool) dek)) start last)
    (order' : IterOrder) :
    ∃ note, ((recoverRotation order') (last.reopen dek)).result = .ok note ∧
      Recovered pool newDek (databases order pool) dek
        ((recoverRotation order') (last.reopen dek)).state := by
  have gone := wf.clean_content clean
  have dbs := endsWith_databases order pool
  have present := hasFilename_databases order pool
  have met := meets_stageRotation oldGen newGen wf
    (gone _ isStaging_rotIntentName) dbs fresh
  cases staging with
  | inl old =>
      obtain ⟨rfl, member⟩ := old
      have onLine : OldLine pool start.stored := by
        apply Outcome.Meets.crashes (fun q => OldLine pool q.stored) ?_ _ member
        apply met.mono (fun _ kept => kept) ?_ fun _ _ kept => kept
        rintro _ r ⟨st, live, staged⟩
        rw [live.stored_eq]
        exact staged.old
      obtain ⟨line, armed⟩ := oldLine_of_interrupted onLine (sound.1 rfl) crashes
      obtain ⟨note, ok, st, live, old, _, left⟩ :=
        (meets_recoverRotation_old order' (live_reopen last pool.dek) line).total
      exact ⟨note, ok, old.recovered wf gone fresh live (left armed)⟩
  | inr new =>
      obtain ⟨rfl, rfl, ok⟩ := new
      obtain ⟨refSt, refLive, staged⟩ := met.ok ok
      have rolling : NewLine pool dek (databases order pool) refSt
          ((stageRotation dek (databases order pool) oldGen newGen) pool).state.stored := by
        rw [refLive.stored_eq]
        exact Or.inl (staged.rolling unseen)
      obtain ⟨line, whole⟩ := newLine_of_interrupted dbs present wf refLive staged rolling
        (sound.2 rfl) crashes
      obtain ⟨note, ok, st, live, rolled, left⟩ :=
        (meets_recoverRotation_new order' dbs present wf refLive staged
          (live_reopen last dek) line whole).total
      refine ⟨note, ok, rolled.recovered wf gone fresh ?_ live left⟩
      intro db named
      obtain ⟨files, ok, _⟩ := staged.staged db named
      exact ⟨files, ok⟩

/-- A finished staging is recoverable on both lines. -/
theorem Staged.recoverable (live : q.Live pool.dek st) (staged : Staged pool newDek dbNames st) :
    Recoverable pool newDek dbNames dek q := by
  refine ⟨?_, ?_⟩
  · intro _ absent
    obtain ⟨oldGen, newGen, intent⟩ := staged.intent
    rw [live.content_eq, intent] at absent
    cases absent
  · intro _ name image resealed emptied
    rw [live.content_eq, staged.shadow resealed] at emptied
    exact Option.some.inj emptied

end Recovery

/-- A pool under the DEK 1 with one database of one page and three free slots. -/
def samplePool : Pool :=
  let db : FileName := ['a', '.', 'd', 'b']
  let uuid : Uuid := 7
  let image : List Block := [Vector.replicate blockSize 1]
  let key : Key := .dbKey 1 uuid
  let slot (name : FileName) (fits : Fits name) (data : Region) : SyncAccessFile :=
    { pooled 1 with header := some ⟨name, fits⟩, data := data }
  let main : Region := .blocks
    (image.zipIdx.map fun entry => .sealed key (.block (fileIdFor db) uuid entry.2) entry.1) 0
  let manifest : Region := .manifest ⟨uuid, [.junk physBlock,
    .sealed key (.block (fileIdFor (manifestName db)) uuid 1) ⟨1, uuid, rootOf image, .zero, []⟩]⟩
  let raw : Pool := {
    dek := 1
    files := (∅ : Std.ExtTreeMap FileName SyncAccessFile)
      |>.insert db (slot db (by decide) main)
      |>.insert (manifestName db) (slot (manifestName db) (by decide) manifest)
    available := List.replicate 3 (pooled 1)
    anchor := .blank
    dbs := ∅ }
  raw.reopen 1

/-- The order of the keys. -/
def keyOrder : IterOrder := ⟨id, fun _ => List.Perm.refl _⟩

theorem samplePool_wf : samplePool.Wf := Wf.reopen

theorem samplePool_clean : ∀ name ∈ samplePool.files.keys, isStaging name = false := by
  decide +kernel

theorem recoverRotation_recovers_sample :
    let staged := (stageRotation 2 (databases keyOrder samplePool) 1 2) samplePool
    ∃ note, ((recoverRotation keyOrder) (staged.state.reopen 2)).result = .ok note ∧
      Recovered samplePool 2 (databases keyOrder samplePool) 2
        ((recoverRotation keyOrder) (staged.state.reopen 2)).state := by
  intro staged
  have fresh : (2 : Dek) ≠ samplePool.dek := by decide
  have ok : staged.result = .ok () := by decide +kernel
  have met := meets_stageRotation 1 2 samplePool_wf
    (samplePool_wf.clean_content samplePool_clean _ isStaging_rotIntentName)
    (endsWith_databases keyOrder samplePool) fresh
  obtain ⟨st, live, complete⟩ := met.ok ok
  exact recoverRotation_recovers samplePool_wf samplePool_clean fresh rfl
    (Or.inr ⟨rfl, rfl, ok⟩) (complete.recoverable live) Relation.ReflTransGen.refl keyOrder

/-- The sample pool after a crash that lets only the name of the first shadow land. -/
def sampleOrphan : Pool :=
  ((stageRotation 2 (databases keyOrder samplePool) 1 2) samplePool).crashes.getD 1 samplePool

/-- With no intent yet recovery never looks at the shadow, and its slot stays taken. -/
theorem recoverRotation_leaves_orphan :
    sampleOrphan ∈ ((stageRotation 2 (databases keyOrder samplePool) 1 2) samplePool).crashes ∧
      ∀ order, ∃ shadow,
        (recoverRotation order) (sampleOrphan.reopen samplePool.dek) =
          ⟨[], sampleOrphan.reopen samplePool.dek, .ok none⟩ ∧
        isStaging shadow = true ∧
        (sampleOrphan.reopen samplePool.dek).hasFilename shadow = true ∧
        (sampleOrphan.reopen samplePool.dek).available.length ≠ samplePool.available.length := by
  have early : 1 < ((stageRotation 2 (databases keyOrder samplePool) 1 2) samplePool).crashes.length := by
    decide +kernel
  have left : sampleOrphan ∈
      ((stageRotation 2 (databases keyOrder samplePool) 1 2) samplePool).crashes := by
    rw [sampleOrphan, List.getD_eq_getElem _ samplePool early]
    exact List.getElem_mem early
  refine ⟨left, ?_⟩
  intro order
  refine ⟨shadowName ['a', '.', 'd', 'b'], recoverRotation_none ?_, isStaging_shadowName, ?_, ?_⟩
  · decide +kernel
  · decide +kernel
  · decide +kernel

end Pool

end Freehold
