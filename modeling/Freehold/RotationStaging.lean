import Freehold.Rotation

set_option autoImplicit false

namespace Freehold

open CrashLogic

namespace Pool

section Reseal

variable {pool other : Pool} {newDek : Dek} {db name : FileName} {dbNames : List FileName}
  {files : List (FileName × Region)} {image image' : Region}

theorem Wf.exportRaw_congr (wf : pool.Wf) (wf' : other.Wf)
    (same : pool.content name = other.content name) : pool.exportRaw name = other.exportRaw name := by
  rw [wf.content_eq, wf'.content_eq] at same
  unfold exportRaw
  cases found : pool.files[name]? with
  | none =>
      rw [found, Option.map_none, eq_comm, Option.map_eq_none_iff] at same
      rw [same]
  | some file =>
      rw [found, Option.map_some, eq_comm, Option.map_eq_some_iff] at same
      obtain ⟨file', found', data⟩ := same
      simp only [found', data]

theorem Wf.hasFilename_congr (wf : pool.Wf) (wf' : other.Wf)
    (same : pool.content name = other.content name) :
    pool.hasFilename name = other.hasFilename name := by
  rw [Bool.eq_iff_iff, wf.hasFilename_iff, wf'.hasFilename_iff, same]

/-- Re-sealing reads the main file and the manifest, and nothing else. -/
theorem resealDbCiphertext_congr (wf : pool.Wf) (wf' : other.Wf) (dek : pool.dek = other.dek)
    (main : pool.content db = other.content db)
    (manifest : pool.content (manifestName db) = other.content (manifestName db)) :
    resealDbCiphertext db newDek pool = resealDbCiphertext db newDek other := by
  simp only [resealDbCiphertext, wf.exportRaw_congr wf' main, wf.exportRaw_congr wf' manifest,
    wf.hasFilename_congr wf' main, dek]

/-- What re-sealing returns when it does. -/
theorem resealDbCiphertext_ok (ok : resealDbCiphertext db newDek pool = .ok files) :
    ∃ uuid slots, pool.exportRaw (manifestName db) = .ok (.manifest ⟨uuid, slots⟩) ∧
      let oldK := Key.dbKey pool.dek uuid
      let newK := Key.dbKey newDek uuid
      let manifest := (manifestName db, Region.manifest
        ⟨uuid, resealSlots oldK newK (fileIdFor (manifestName db)) uuid 0 slots⟩)
      (pool.hasFilename db = false ∧ files = [manifest]) ∨
      ∃ raw resealed, pool.hasFilename db = true ∧ pool.exportRaw db = .ok raw ∧
        resealBlocks oldK newK (fileIdFor db) uuid 0 raw.cells = .ok resealed ∧
        files = [(db, .blocks resealed 0), manifest] := by
  unfold resealDbCiphertext at ok
  cases header : pool.exportRaw (manifestName db) with
  | error e => simp only [header] at ok; cases ok
  | ok region =>
      simp only [header] at ok
      cases region with
      | blocks cells tail => cases ok
      | intent blob => cases ok
      | manifest file =>
          refine ⟨file.uuid, file.slots, rfl, ?_⟩
          by_cases present : pool.hasFilename db = true
          · right
            cases main : pool.exportRaw db with
            | error e =>
                simp only [present, main, bind, Except.bind] at ok
                cases ok
            | ok raw =>
                cases blocks : resealBlocks (.dbKey pool.dek file.uuid) (.dbKey newDek file.uuid)
                    (fileIdFor db) file.uuid 0 raw.cells with
                | error e =>
                    simp only [present, main, blocks, bind, Except.bind] at ok
                    cases ok
                | ok resealed =>
                    simp only [present, main, blocks, bind, Except.bind] at ok
                    cases ok
                    exact ⟨raw, resealed, present, rfl, blocks, rfl⟩
          · left
            simp only [present, bind, Except.bind] at ok
            cases ok
            exact ⟨Bool.not_eq_true _ ▸ present, rfl⟩

/-- `name` is one of the files of the named databases, and `image` what it becomes
under the new DEK. -/
def Resealed (pool : Pool) (newDek : Dek) (dbNames : List FileName) (name : FileName)
    (image : Region) : Prop :=
  ∃ db ∈ dbNames, ∃ files, resealDbCiphertext db newDek pool = .ok files ∧ (name, image) ∈ files

theorem mem_resealDbCiphertext (ok : resealDbCiphertext db newDek pool = .ok files)
    (member : (name, image) ∈ files) : name = db ∨ name = manifestName db := by
  obtain ⟨uuid, slots, _, found⟩ := resealDbCiphertext_ok ok
  cases found with
  | inl alone =>
      rw [alone.2, List.mem_singleton, Prod.mk.injEq] at member
      exact Or.inr member.1
  | inr both =>
      obtain ⟨raw, resealed, _, _, _, rfl⟩ := both
      simp only [List.mem_cons, Prod.mk.injEq, List.not_mem_nil, or_false] at member
      exact member.imp And.left And.left

theorem hasFilename_of_exportRaw (ok : pool.exportRaw name = .ok image) :
    pool.hasFilename name = true := by
  unfold exportRaw at ok
  split at ok
  · next file found => exact hasFilename_iff.mpr ⟨file, found⟩
  · cases ok

/-- A re-sealed file was in the pool. -/
theorem Resealed.present (resealed : Resealed pool newDek dbNames name image) :
    pool.hasFilename name = true := by
  obtain ⟨db, _, files, ok, member⟩ := resealed
  obtain ⟨uuid, slots, manifest, found⟩ := resealDbCiphertext_ok ok
  cases found with
  | inl alone =>
      rw [alone.2, List.mem_singleton, Prod.mk.injEq] at member
      rw [member.1]
      exact hasFilename_of_exportRaw manifest
  | inr both =>
      obtain ⟨raw, resealed, main, _, _, rfl⟩ := both
      simp only [List.mem_cons, Prod.mk.injEq, List.not_mem_nil, or_false] at member
      cases member with
      | inl first => rw [first.1]; exact main
      | inr second => rw [second.1]; exact hasFilename_of_exportRaw manifest

theorem Resealed.not_staging (dbs : ∀ db ∈ dbNames, endsWith db dbSuffix = true)
    (resealed : Resealed pool newDek dbNames name image) : isStaging name = false := by
  obtain ⟨db, named, files, ok, member⟩ := resealed
  cases mem_resealDbCiphertext ok member with
  | inl main => rw [main]; exact isStaging_of_db (dbs db named)
  | inr manifest => rw [manifest]; exact isStaging_manifestName

/-- Each file becomes one image. -/
theorem Resealed.unique (dbs : ∀ db ∈ dbNames, endsWith db dbSuffix = true)
    (resealed : Resealed pool newDek dbNames name image)
    (again : Resealed pool newDek dbNames name image') : image = image' := by
  obtain ⟨db, named, files, ok, member⟩ := resealed
  obtain ⟨db', named', files', ok', member'⟩ := again
  have same : db = db' := by
    cases mem_resealDbCiphertext ok member with
    | inl main =>
        cases mem_resealDbCiphertext ok' member' with
        | inl main' => exact main.symm.trans main'
        | inr manifest' =>
            exact absurd (manifest'.symm.trans main) (manifestName_ne_db (dbs db named))
    | inr manifest =>
        cases mem_resealDbCiphertext ok' member' with
        | inl main' =>
            exact absurd (manifest.symm.trans main') (manifestName_ne_db (dbs db' named'))
        | inr manifest' => exact manifestName_injective (manifest.symm.trans manifest')
  subst same
  rw [ok, Except.ok.injEq] at ok'
  subst ok'
  obtain ⟨uuid, slots, _, found⟩ := resealDbCiphertext_ok ok
  cases found with
  | inl alone =>
      rw [alone.2, List.mem_singleton, Prod.mk.injEq] at member member'
      rw [member.2, member'.2]
  | inr both =>
      obtain ⟨raw, resealed, _, _, _, rfl⟩ := both
      have apart : manifestName db ≠ db := manifestName_ne_db (dbs db named)
      simp only [List.mem_cons, Prod.mk.injEq, List.not_mem_nil, or_false] at member member'
      cases member with
      | inl first =>
          cases member' with
          | inl first' => rw [first.2, first'.2]
          | inr second' => exact absurd (second'.1.symm.trans first.1) apart
      | inr second =>
          cases member' with
          | inl first' => exact absurd (second.1.symm.trans first'.1) apart
          | inr second' => rw [second.2, second'.2]

end Reseal

/-- The pre-rotation line: live files and anchor as they were, and no intent that
opens under the old DEK. -/
structure OldLine (pool : Pool) (st : Stored) : Prop where
  capacity : st.capacity = pool.capacity
  anchor : st.anchor = pool.anchor
  live : ∀ name, isStaging name = false → st.disk name = pool.content name
  intent : ∀ region, st.disk rotIntentName = some region →
    region.openIntent (.rotateIntentKey pool.dek) = none

theorem OldLine.put {pool : Pool} {st : Stored} {name : FileName} {data : Option Region}
    (old : OldLine pool st) (staging : isStaging name = true)
    (unopened : ∀ region, data = some region →
      region.openIntent (.rotateIntentKey pool.dek) = none) : OldLine pool (st.put name data) := by
  refine ⟨old.capacity, old.anchor, ?_, ?_⟩
  · intro other live
    have differ : other ≠ name := by
      rintro rfl
      rw [staging] at live
      exact Bool.noConfusion live
    rw [Stored.put_disk_of_ne differ]
    exact old.live other live
  · intro region held
    by_cases same : rotIntentName = name
    · rw [same, Stored.put_disk_self] at held
      exact unopened region held
    · rw [Stored.put_disk_of_ne same] at held
      exact old.intent region held

theorem OldLine.put_shadow {pool : Pool} {st : Stored} {name : FileName} {data : Option Region}
    (old : OldLine pool st) : OldLine pool (st.put (shadowName name) data) := by
  refine ⟨old.capacity, old.anchor, ?_, ?_⟩
  · intro other live
    rw [Stored.put_disk_of_ne (ne_shadowName_of_not_staging live name)]
    exact old.live other live
  · intro region held
    rw [Stored.put_disk_of_ne (Ne.symm shadowName_ne_rotIntentName)] at held
    exact old.intent region held

section Staging

variable {pool : Pool} {newDek : Dek} {dbNames : List FileName} {oldGen newGen : Nat}

/-- The shadows of one database are complete. -/
def DbStaged (pool : Pool) (newDek : Dek) (st : Stored) (db : FileName) : Prop :=
  ∃ files, resealDbCiphertext db newDek pool = .ok files ∧
    ∀ name image, (name, image) ∈ files → st.disk (shadowName name) = some image

/-- Staging in progress, with the databases `todo` still to come. -/
structure Staging (pool : Pool) (newDek : Dek) (dbNames todo : List FileName) (st : Stored) :
    Prop where
  old : OldLine pool st
  noIntent : st.disk rotIntentName = none
  shadows : ∀ name, st.disk (shadowName name) ≠ none →
    (∃ image, Resealed pool newDek dbNames name image) ∨ pool.content (shadowName name) ≠ none
  staged : ∀ db ∈ dbNames, db ∈ todo ∨ DbStaged pool newDek st db

/-- A finished staging. -/
structure Staged (pool : Pool) (newDek : Dek) (dbNames : List FileName) (st : Stored) : Prop where
  old : OldLine pool st
  intent : ∃ oldGen newGen, st.disk rotIntentName = some (.intent
    (.sealed (.rotateIntentKey newDek) .rotateIntent
      ⟨oldGen, newGen, dbNames, (anchorLoad pool.dek pool.anchor).2⟩))
  shadows : ∀ name, st.disk (shadowName name) ≠ none →
    (∃ image, Resealed pool newDek dbNames name image) ∨ pool.content (shadowName name) ≠ none
  staged : ∀ db ∈ dbNames, DbStaged pool newDek st db

/-- Writing one more shadow keeps the finished ones. -/
theorem Staging.put (dbs : ∀ db ∈ dbNames, endsWith db dbSuffix = true) {todo : List FileName}
    {st : Stored} (staging : Staging pool newDek dbNames todo st) {name : FileName} {image : Region}
    (resealed : Resealed pool newDek dbNames name image) :
    Staging pool newDek dbNames todo (st.put (shadowName name) (some image)) := by
  refine ⟨staging.old.put_shadow, ?_, ?_, ?_⟩
  · rw [Stored.put_disk_of_ne (Ne.symm shadowName_ne_rotIntentName)]
    exact staging.noIntent
  · intro other held
    by_cases same : other = name
    · exact Or.inl ⟨image, same ▸ resealed⟩
    · rw [Stored.put_disk_of_ne fun shadow => same (shadowName_injective shadow)] at held
      exact staging.shadows other held
  · intro db named
    apply (staging.staged db named).imp_right
    rintro ⟨files, ok, complete⟩
    refine ⟨files, ok, ?_⟩
    intro other image' member
    by_cases same : other = name
    · subst same
      rw [Stored.put_disk_self]
      have again : Resealed pool newDek dbNames other image' := ⟨db, named, files, ok, member⟩
      rw [resealed.unique dbs again]
    · rw [Stored.put_disk_of_ne fun shadow => same (shadowName_injective shadow)]
      exact complete other image' member

theorem meets_stageDb (wf : pool.Wf) (dbs : ∀ db ∈ dbNames, endsWith db dbSuffix = true)
    {db : FileName} (named : db ∈ dbNames) {todo : List FileName} {q : Pool} {st : Stored}
    (live : q.Live pool.dek st) (staging : Staging pool newDek dbNames (db :: todo) st) :
    ((stageDb newDek db) q).Meets (fun q => OldLine pool q.stored)
      (fun _ q => ∃ st, q.Live pool.dek st ∧ Staging pool newDek dbNames todo st)
      fun _ q => OldLine pool q.stored := by
  unfold stageDb
  apply meets_get_bind
  have same : resealDbCiphertext db newDek q = resealDbCiphertext db newDek pool := by
    apply resealDbCiphertext_congr live.wf wf live.dek_eq
    · rw [live.content_eq]
      exact staging.old.live db (isStaging_of_db (dbs db named))
    · rw [live.content_eq]
      exact staging.old.live _ isStaging_manifestName
  rw [same]
  apply meets_bind (fun files r => r = q ∧ resealDbCiphertext db newDek pool = .ok files)
  · apply meets_ofExcept
    · intro files ok
      exact ⟨rfl, ok⟩
    · intro e _
      rw [live.stored_eq]
      exact staging.old
  · rintro files r ⟨rfl, ok⟩
    -- the loop over the files of the database: those not to come are in place
    let inv (rest : List (FileName × Region)) (q : Pool) : Prop :=
      (∀ file ∈ rest, file ∈ files) ∧ ∃ st, q.Live pool.dek st ∧
        Staging pool newDek dbNames (db :: todo) st ∧
        ∀ name image, (name, image) ∈ files → (name, image) ∈ rest ∨
          st.disk (shadowName name) = some image
    have looped : ((Prog.forEach (fun file : FileName × Region =>
        importCiphertextFile (shadowName file.1) file.2) files) r).Meets
        (fun q => OldLine pool q.stored) (fun _ => inv []) fun _ q => OldLine pool q.stored := by
      apply meets_forEach inv
      · rintro ⟨name, image⟩ rest s ⟨sub, st', live', staging', placed⟩
        have resealed : Resealed pool newDek dbNames name image :=
          ⟨db, named, files, ok, sub _ List.mem_cons_self⟩
        apply meets_importCiphertextFile live' staging'.old
        · intro data _
          exact staging'.old.put_shadow
        · intro _ e t left
          rw [left]
          exact staging'.old.put_shadow
        · intro t written
          refine ⟨fun file member => sub file (List.mem_cons_of_mem _ member), _, written,
            staging'.put dbs resealed, ?_⟩
          intro other image' member
          by_cases same : other = name
          · subst same
            right
            rw [Stored.put_disk_self]
            have again : Resealed pool newDek dbNames other image' := ⟨db, named, files, ok, member⟩
            rw [resealed.unique dbs again]
          · rw [Stored.put_disk_of_ne fun shadow => same (shadowName_injective shadow)]
            apply (placed other image' member).imp_left
            intro later
            cases List.mem_cons.mp later with
            | inl head => cases head; exact absurd rfl same
            | inr tail => exact tail
      · exact ⟨fun _ member => member, st, live, staging, fun _ _ member => Or.inl member⟩
    apply looped.mono (fun _ left => left) ?_ fun _ _ left => left
    rintro _ s ⟨_, st', live', staging', placed⟩
    refine ⟨st', live', ⟨staging'.old, staging'.noIntent, staging'.shadows, ?_⟩⟩
    intro db' named'
    cases staging'.staged db' named' with
    | inr complete => exact Or.inr complete
    | inl waiting =>
        cases List.mem_cons.mp waiting with
        | inr later => exact Or.inl later
        | inl now =>
            subst now
            refine Or.inr ⟨files, ok, ?_⟩
            intro name image member
            exact (placed name image member).resolve_left List.not_mem_nil

/-- Every crash and every failure of the staging leaves the old line; a success
leaves all shadows and the intent. -/
theorem meets_stageRotation (oldGen newGen : Nat) (wf : pool.Wf)
    (noIntent : pool.content rotIntentName = none)
    (dbs : ∀ db ∈ dbNames, endsWith db dbSuffix = true) (fresh : newDek ≠ pool.dek) :
    ((stageRotation newDek dbNames oldGen newGen) pool).Meets (fun q => OldLine pool q.stored)
      (fun _ q => ∃ st, q.Live pool.dek st ∧ Staged pool newDek dbNames st)
      fun _ q => OldLine pool q.stored := by
  have start : OldLine pool pool.stored := by
    refine ⟨rfl, rfl, fun _ _ => rfl, ?_⟩
    intro region held
    rw [show pool.stored.disk rotIntentName = none from noIntent] at held
    cases held
  unfold stageRotation
  let inv (todo : List FileName) (q : Pool) : Prop :=
    (∀ db ∈ todo, db ∈ dbNames) ∧
      ∃ st, q.Live pool.dek st ∧ Staging pool newDek dbNames todo st
  apply meets_bind (fun _ => inv [])
  · apply meets_forEach inv
    · rintro db todo q ⟨sub, st, live, staging⟩
      apply (meets_stageDb wf dbs (sub db List.mem_cons_self) live staging).mono
        (fun _ left => left) ?_ fun _ _ left => left
      intro _ r done
      exact ⟨fun db' member => sub db' (List.mem_cons_of_mem _ member), done⟩
    · refine ⟨fun _ member => member, pool.stored, ⟨wf, rfl, rfl⟩, start, noIntent, ?_, ?_⟩
      · intro name held
        exact Or.inr held
      · intro db named
        exact Or.inl named
  · rintro _ q ⟨_, st, live, staging⟩
    apply meets_get_bind
    apply meets_bind (fun plain r => r = q ∧ plain =
      ⟨oldGen, newGen, dbNames, (anchorLoad pool.dek pool.anchor).2⟩)
    · apply meets_ofExcept
      · intro plain ok
        rw [encodeRotationIntent] at ok
        split at ok
        · cases ok
        · split at ok
          · cases ok
          · cases ok
            rw [live.dek_eq, live.anchor_eq, staging.old.anchor]
            exact ⟨rfl, rfl⟩
      · intro e _
        rw [live.stored_eq]
        exact staging.old
    · rintro plain r ⟨rfl, rfl⟩
      have unopened : ∀ region ∈ [none, some Region.empty, some (.zeros (Region.size (.intent
          (.sealed (.rotateIntentKey newDek) .rotateIntent
            ⟨oldGen, newGen, dbNames, (anchorLoad pool.dek pool.anchor).2⟩))))],
          OldLine pool (st.put rotIntentName region) := by
        intro data shape
        apply staging.old.put isStaging_rotIntentName
        rintro region rfl
        simp only [List.mem_cons, Option.some.injEq, List.not_mem_nil, or_false, reduceCtorEq,
          false_or] at shape
        cases shape with
        | inl blank => rw [blank]; rfl
        | inr zeroed => rw [zeroed]; rfl
      apply meets_importCiphertextFile live staging.old unopened
      · intro _ e t left
        rw [left]
        exact unopened none (by simp)
      · intro t written
        refine ⟨_, written, ?_, ⟨oldGen, newGen, Stored.put_disk_self⟩, ?_, ?_⟩
        · apply staging.old.put isStaging_rotIntentName
          rintro region ⟨⟩
          apply Aead.openWith_other_key
          intro same
          exact fresh (Key.rotateIntentKey.inj same)
        · intro name held
          rw [Stored.put_disk_of_ne shadowName_ne_rotIntentName] at held
          exact staging.shadows name held
        · intro db named
          obtain ⟨files, ok, complete⟩ := (staging.staged db named).resolve_left List.not_mem_nil
          refine ⟨files, ok, ?_⟩
          intro name image member
          rw [Stored.put_disk_of_ne shadowName_ne_rotIntentName]
          exact complete name image member

end Staging

end Pool

end Freehold
