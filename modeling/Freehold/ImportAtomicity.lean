import Freehold.ExportRecovery

set_option autoImplicit false

/- What a sync apply leaves behind when it fails on the way. -/
namespace Freehold

open CrashLogic

theorem byteLen_append (name other : FileName) : byteLen (name ++ other) = byteLen name + byteLen other := by
  simp only [byteLen, List.map_append, List.sum_append]

/-- A legal name fits the header. -/
theorem fits_of_valid {name : FileName} (valid : validPoolFilename name = true) : Fits name := by
  have ends : byteLen dbSuffix = 3 := by decide
  have named : byteLen manifestSuffix = 9 := by decide
  unfold validPoolFilename at valid
  cases based : stripSuffix ((stripSuffix name manifestSuffix).getD name) dbSuffix with
  | none => simp only [based, Bool.false_eq_true] at valid
  | some base =>
      have core := stripSuffix_eq_some based
      simp only [based, Bool.and_eq_true, decide_eq_true_eq] at valid
      have short := valid.1.2
      cases stripped : stripSuffix name manifestSuffix with
      | none =>
          rw [stripped, Option.getD_none] at core
          refine ⟨by rw [core]; simp [dbSuffix], ?_⟩
          rw [core, byteLen_append, ends]
          show byteLen base + 3 + 1 < 512
          omega
      | some db =>
          rw [stripped, Option.getD_some] at core
          have whole := stripSuffix_eq_some stripped
          rw [whole]
          refine ⟨by simp [manifestSuffix], ?_⟩
          rw [core, byteLen_append, byteLen_append, ends, named]
          show byteLen base + 3 + 9 + 1 < 512
          omega

namespace Pool

/-- The slots nothing is mapped to hold no data. -/
def Cleared (pool : Pool) : Prop := ∀ slot ∈ pool.available, slot.data = .empty

/-- The directory with all files of a list in it, the last one under each name. -/
def importedDisk (files : BundleFiles) (disk : Disk) : Disk :=
  files.foldl (fun disk file => Function.update disk file.1 (some file.2)) disk

/-- Wherever a run stops, the directory is as it was or has all the files. -/
def AllOrNothing (files : BundleFiles) (pool : Pool) (ran : Outcome Pool OpfsSAHError Unit) : Prop :=
  ∀ q ∈ ran.crashes, q.content = pool.content ∨ q.content = importedDisk files pool.content

/-- The import fails before its first write, or makes one new file without a byte. -/
def Harmless (pool : Pool) (files : BundleFiles) : Prop :=
  (∃ file ∈ files, validPoolFilename file.1 = false) ∨ files = [] ∨
    (∃ file rest, files = file :: rest ∧ pool.hasFilename file.1 = false ∧ pool.available = []) ∨
    ∃ name, pool.content name = none ∧ ∀ file ∈ files, file = (name, .empty)

section Steps

variable {pool : Pool} {name other : FileName} {data : Region}

/-- What is on the disk under a name other bytes are written to. -/
theorem content_setData : (setData name data pool).content =
    Function.update pool.content name ((pool.content name).map fun _ => data) := by
  funext other
  rw [content, getElem?_setData]
  by_cases same : other = name
  · subst same
    rw [if_pos rfl, Function.update_self, content]
    cases pool.files[other]? with
    | none => rfl
    | some file =>
        show (if named other file then some data else none) =
          Option.map (fun _ => data) (if named other file then some file.data else none)
        by_cases carried : named other file = true
        · rw [if_pos carried, if_pos carried, Option.map_some]
        · rw [if_neg carried, if_neg carried, Option.map_none]
  · rw [if_neg same, Function.update_of_ne same]
    rfl

theorem content_unmapSlot : (unmapSlot name pool).content = Function.update pool.content name none := by
  funext other
  rw [content, getElem?_unmapSlot]
  by_cases same : other = name
  · subst same
    rw [if_pos rfl, Function.update_self]
    rfl
  · rw [if_neg same, Function.update_of_ne same]
    rfl

theorem content_mapSlot (cleared : pool.Cleared) (room : pool.available ≠ []) (header : HeaderName) :
    (mapSlot header.name (some header) pool).content =
      Function.update pool.content header.name (some .empty) := by
  obtain ⟨slot, rest, free⟩ := List.exists_cons_of_ne_nil room
  have blank := cleared slot (by rw [free]; exact List.mem_cons_self)
  funext other
  rw [mapSlot_of_cons free, content]
  simp only [Std.ExtTreeMap.getElem?_insert, Std.LawfulEqCmp.compare_eq_iff_eq]
  by_cases same : header.name = other
  · subst same
    simp [named, blank]
  · rw [if_neg same, Function.update_of_ne (Ne.symm same)]
    rfl

theorem Cleared.setData (cleared : pool.Cleared) : (setData name data pool).Cleared := cleared

theorem Cleared.mapSlot {header : Option HeaderName} (cleared : pool.Cleared) :
    (mapSlot name header pool).Cleared := by
  intro slot free
  cases shape : pool.available with
  | nil =>
      simp only [Pool.mapSlot, shape] at free
      cases free
  | cons first rest =>
      rw [mapSlot_of_cons shape] at free
      exact cleared slot (by rw [shape]; exact List.mem_cons_of_mem first free)

/-- `delete_file` truncates before it frees the slot. -/
theorem Cleared.dropped (cleared : pool.Cleared) :
    (unmapSlot name (Pool.setData name .empty pool)).Cleared := by
  intro slot free
  cases found : (Pool.setData name .empty pool).files[name]? with
  | none =>
      simp only [unmapSlot, found] at free
      exact cleared slot free
  | some file =>
      rw [unmapSlot_of_some found] at free
      rw [getElem?_setData, if_pos rfl] at found
      obtain ⟨old, _, rfl⟩ := Option.map_eq_some_iff.mp found
      rcases List.mem_cons.mp free with rfl | there
      · rfl
      · exact cleared slot there

/-- The pool without the file. -/
def dropped (name : FileName) (pool : Pool) : Pool :=
  if pool.hasFilename name then unmapSlot name (setData name .empty pool) else pool

theorem content_of_lacks (lacks : pool.hasFilename name = false) : pool.content name = none := by
  cases found : pool.files[name]? with
  | none => rw [content, found, Option.bind_none]
  | some file =>
      rw [hasFilename_iff.mpr ⟨file, found⟩] at lacks
      cases lacks

theorem dropped_content : (pool.dropped name).content = Function.update pool.content name none := by
  rw [dropped]
  by_cases there : pool.hasFilename name = true
  · rw [if_pos there, content_unmapSlot, content_setData, Function.update_idem]
  · rw [if_neg there, ← content_of_lacks (Bool.not_eq_true _ ▸ there), Function.update_eq_self]

theorem lacks_dropped : (pool.dropped name).hasFilename name = false := by
  rw [dropped]
  by_cases there : pool.hasFilename name = true
  · rw [if_pos there, ← Bool.not_eq_true, hasFilename_iff, getElem?_unmapSlot, if_pos rfl]
    exact fun some_file => (nomatch some_file.choose_spec)
  · rw [if_neg there]
    exact Bool.not_eq_true _ ▸ there

/-- A slot is free if there was one, or if the file is one that is replaced. -/
theorem room_dropped (room : pool.hasFilename name = true ∨ pool.available ≠ []) :
    (pool.dropped name).available ≠ [] := by
  rw [dropped]
  by_cases there : pool.hasFilename name = true
  · rw [if_pos there]
    obtain ⟨file, found⟩ := hasFilename_iff.mp there
    have kept : (setData name .empty pool).files[name]? = some { file with data := .empty } := by
      rw [getElem?_setData, if_pos rfl, found]
      rfl
    rw [unmapSlot_of_some kept]
    exact List.cons_ne_nil _ _
  · rw [if_neg there]
    exact room.resolve_left there

end Steps

section Runs

variable {pool : Pool} {name : FileName} {data : Region}

/-- The states `delete_file` passes. -/
def dropStates (name : FileName) (pool : Pool) : List Pool :=
  if pool.hasFilename name then [pool, setData name .empty pool] else []

theorem attempt_deleteFile : Prog.attempt (deleteFile name) pool =
    ⟨pool.dropStates name, pool.dropped name, .ok ()⟩ := by
  unfold Prog.attempt deleteFile
  rw [Prog.get_bind]
  by_cases there : pool.hasFilename name = true
  · simp only [there, if_true, dropStates, dropped]
    rfl
  · simp only [there, dropStates, dropped]
    rfl

/-- The pool with the file in it, before its bytes are written. -/
def made (header : HeaderName) (pool : Pool) : Pool := mapSlot header.name (some header) (pool.dropped header.name)

theorem importCiphertextFile_run (header : HeaderName)
    (room : pool.hasFilename header.name = true ∨ pool.available ≠ []) :
    importCiphertextFile header.name data pool =
      ⟨pool.dropStates header.name ++ [pool.dropped header.name, pool.made header,
          setData header.name (.zeros data.size) (pool.made header)],
        setData header.name data (setData header.name (.zeros data.size) (pool.made header)), .ok ()⟩ := by
  unfold importCiphertextFile
  rw [Prog.bind_of_ok attempt_deleteFile]
  have free := room_dropped room
  have lacks : (pool.dropped header.name).hasFilename header.name = false := lacks_dropped
  have long : ¬headerMaxFilenameSize ≤ byteLen header.name + 1 := Nat.not_le_of_lt header.fits.2
  unfold withNewFile
  rw [Prog.get_bind, lacks, if_neg Bool.false_ne_true, if_neg free, dif_neg header.fits.1, dif_neg long]
  rfl

theorem importCiphertextFile_full (header : HeaderName) (lacks : pool.hasFilename header.name = false)
    (full : pool.available = []) : importCiphertextFile header.name data pool =
      ⟨[], pool, .error (.generic "No files available in the pool")⟩ := by
  have same : pool.dropped header.name = pool := by rw [dropped, lacks, if_neg Bool.false_ne_true]
  have none_passed : pool.dropStates header.name = [] := by
    rw [dropStates, lacks, if_neg Bool.false_ne_true]
  unfold importCiphertextFile
  rw [Prog.bind_of_ok attempt_deleteFile, same, none_passed]
  unfold withNewFile
  rw [Prog.get_bind, lacks, if_neg Bool.false_ne_true, if_pos full]
  rfl

theorem Cleared.of_dropped (cleared : pool.Cleared) : (pool.dropped name).Cleared := by
  rw [Pool.dropped]
  split
  · exact cleared.dropped
  · exact cleared

theorem Cleared.made {header : HeaderName} (cleared : pool.Cleared) : (pool.made header).Cleared :=
  cleared.of_dropped.mapSlot

theorem made_content (cleared : pool.Cleared) (header : HeaderName)
    (room : pool.hasFilename header.name = true ∨ pool.available ≠ []) :
    (pool.made header).content = Function.update pool.content header.name (some .empty) := by
  rw [Pool.made, content_mapSlot cleared.of_dropped (room_dropped room), dropped_content, Function.update_idem]

theorem setData_made_content (cleared : pool.Cleared) (header : HeaderName)
    (room : pool.hasFilename header.name = true ∨ pool.available ≠ []) :
    (setData header.name data (pool.made header)).content =
      Function.update pool.content header.name (some data) := by
  rw [content_setData, made_content cleared header room, Function.update_self, Function.update_idem,
    Option.map_some]

/-- A list is imported name by name. -/
def importEach (files : BundleFiles) : PoolM Unit :=
  Prog.forEach (fun file => importCiphertextFile file.1 file.2) files

theorem importFiles_illegal {files : BundleFiles} {file : FileName × Region} (listed : file ∈ files)
    (illegal : validPoolFilename file.1 = false) : ∃ e, importFiles files pool = ⟨[], pool, .error e⟩ := by
  unfold importFiles
  cases found : files.find? fun file => !validPoolFilename file.1 with
  | some other => exact ⟨_, rfl⟩
  | none =>
      rw [List.find?_eq_none] at found
      exact absurd (by rw [illegal]; rfl) (found file listed)

theorem importFiles_legal {files : BundleFiles}
    (legal : ∀ file ∈ files, validPoolFilename file.1 = true) : importFiles files = importEach files := by
  unfold importFiles
  have found : (files.find? fun file => !validPoolFilename file.1) = none := by
    rw [List.find?_eq_none]
    intro file listed
    rw [legal file listed]
    exact Bool.false_ne_true
  rw [found]
  rfl

theorem importEach_cons (file : FileName × Region) (rest : BundleFiles) :
    importEach (file :: rest) = importCiphertextFile file.1 file.2 >>= fun _ => importEach rest := rfl

/-- Every run passes its first state. -/
theorem mem_crashes_importEach {files : BundleFiles} (legal : ∀ file ∈ files, validPoolFilename file.1 = true) :
    pool ∈ (importEach files pool).crashes := by
  cases files with
  | nil => exact List.mem_cons_self
  | cons file rest =>
      let header : HeaderName := ⟨file.1, fits_of_valid (legal file List.mem_cons_self)⟩
      rw [importEach_cons]
      by_cases room : pool.hasFilename header.name = true ∨ pool.available ≠ []
      · rw [Prog.bind_of_ok (importCiphertextFile_run header room)]
        apply List.mem_append_left
        apply List.mem_append_left
        by_cases there : pool.hasFilename header.name = true
        · rw [dropStates, if_pos there]
          exact List.mem_cons_self
        · rw [dropped, if_neg there]
          exact List.mem_append_right _ List.mem_cons_self
      · rw [not_or, Bool.not_eq_true, not_not] at room
        rw [Prog.bind_of_error (importCiphertextFile_full header room.1 room.2)]
        exact List.mem_cons_self

/-- The pool with the file and its bytes in it. -/
def put (header : HeaderName) (data : Region) (pool : Pool) : Pool :=
  setData header.name data (setData header.name (.zeros data.size) (pool.made header))

theorem Cleared.put {header : HeaderName} (cleared : pool.Cleared) : (pool.put header data).Cleared :=
  cleared.made

theorem put_content (cleared : pool.Cleared) (header : HeaderName)
    (room : pool.hasFilename header.name = true ∨ pool.available ≠ []) :
    (pool.put header data).content = Function.update pool.content header.name (some data) := by
  rw [Pool.put, content_setData, setData_made_content cleared header room, Function.update_self,
    Function.update_idem, Option.map_some]

/-- Where importing a list that begins with a file there is room for can stop. -/
theorem crashes_importEach (header : HeaderName) (rest : BundleFiles)
    (room : pool.hasFilename header.name = true ∨ pool.available ≠ []) :
    (importEach ((header.name, data) :: rest) pool).crashes =
      pool.dropStates header.name ++ [pool.dropped header.name, pool.made header,
        setData header.name (.zeros data.size) (pool.made header)] ++
          (importEach rest (pool.put header data)).crashes := by
  rw [importEach_cons, Prog.bind_of_ok (importCiphertextFile_run header room), Outcome.crashes, Outcome.crashes,
    List.append_assoc]
  rfl

/-- What is imported is there afterwards. -/
theorem importedDisk_none {files : BundleFiles} {disk : Disk} (absent : importedDisk files disk name = none) :
    disk name = none ∧ ∀ file ∈ files, file.1 ≠ name := by
  induction files generalizing disk with
  | nil => exact ⟨absent, fun file none_listed => (nomatch none_listed)⟩
  | cons file rest ih =>
      obtain ⟨before, later⟩ := @ih (Function.update disk file.1 (some file.2)) absent
      have apart : file.1 ≠ name := by
        rintro rfl
        rw [Function.update_self] at before
        cases before
      rw [Function.update_of_ne (Ne.symm apart)] at before
      refine ⟨before, fun other listed => ?_⟩
      rcases List.mem_cons.mp listed with rfl | member
      · exact apart
      · exact later other member

end Runs

section Condition

variable {pool : Pool} {files : BundleFiles} {name : FileName} {disk : Disk}

/-- Once the new file without a byte is all there may be, a list can only name it again. -/
theorem same_of_stops {q : Pool} {rest : BundleFiles} (cleared : q.Cleared) (new : disk name = none)
    (made : q.content = Function.update disk name (some .empty))
    (target : importedDisk files disk = Function.update disk name (some .empty))
    (legal : ∀ file ∈ rest, validPoolFilename file.1 = true) (inside : rest ⊆ files)
    (stops : ∀ r ∈ (importEach rest q).crashes,
      r.content = disk ∨ r.content = importedDisk files disk) :
    ∀ file ∈ rest, file = (name, .empty) := by
  induction rest generalizing q with
  | nil => exact fun file none_listed => (nomatch none_listed)
  | cons file rest ih =>
      let header : HeaderName := ⟨file.1, fits_of_valid (legal file List.mem_cons_self)⟩
      have listed : importedDisk files disk header.name ≠ none :=
        fun absent => (importedDisk_none absent).2 file (inside List.mem_cons_self) rfl
      have held : q.content header.name ≠ none := by
        rw [made, ← target]
        exact listed
      have there : q.hasFilename header.name = true := by
        by_contra lacks
        exact held (content_of_lacks (Bool.not_eq_true _ ▸ lacks))
      have states := @crashes_importEach q file.2 header rest (Or.inl there)
      -- the file is gone for a moment: it was not there before the import
      have before : disk header.name = none := by
        have gone := stops (q.dropped header.name) (by rw [states]; simp)
        rw [dropped_content] at gone
        rcases gone with as_before | as_after
        · rw [← as_before, Function.update_self]
        · exact absurd (by rw [← as_after, Function.update_self]) listed
      have same : file.1 = name := by
        by_contra apart
        rw [made, Function.update_of_ne apart] at held
        exact held before
      have next := stops (q.put header file.2) (by
        rw [states]
        exact List.mem_append_right _ (mem_crashes_importEach fun other member =>
          legal other (List.mem_cons_of_mem _ member)))
      rw [put_content cleared header (Or.inl there), made] at next
      have empty : file.2 = .empty := by
        have value := next.imp (congrFun · name) (congrFun · name)
        have self : header.name = name := same
        rw [target, self, Function.update_idem, Function.update_self, Function.update_self, new] at value
        rcases value with none_there | there
        · cases none_there
        · exact Option.some.inj there
      intro other member
      rcases List.mem_cons.mp member with rfl | later
      · exact Prod.ext same empty
      · refine ih (@Cleared.put q file.2 header cleared) ?_
          (fun other member => legal other (List.mem_cons_of_mem _ member))
          (fun other member => inside (List.mem_cons_of_mem _ member)) (fun r stop => ?_) other later
        · rw [put_content cleared header (Or.inl there), made, show header.name = name from same, empty,
            Function.update_idem]
        · apply stops
          rw [states]
          exact List.mem_append_right _ stop

theorem harmless_of_allOrNothing (cleared : pool.Cleared)
    (atomic : AllOrNothing files pool (importFiles files pool)) : Harmless pool files := by
  by_cases legal : ∀ file ∈ files, validPoolFilename file.1 = true
  · rw [importFiles_legal legal] at atomic
    cases files with
    | nil => exact .inr (.inl rfl)
    | cons file rest =>
        let header : HeaderName := ⟨file.1, fits_of_valid (legal file List.mem_cons_self)⟩
        by_cases room : pool.hasFilename header.name = true ∨ pool.available ≠ []
        · have states := @crashes_importEach pool file.2 header rest room
          have listed : importedDisk (file :: rest) pool.content header.name ≠ none :=
            fun absent => (importedDisk_none absent).2 file List.mem_cons_self rfl
          have new : pool.content header.name = none := by
            have gone := atomic (pool.dropped header.name) (by rw [states]; simp)
            rw [dropped_content] at gone
            rcases gone with as_before | as_after
            · rw [← as_before, Function.update_self]
            · exact absurd (by rw [← as_after, Function.update_self]) listed
          have target : importedDisk (file :: rest) pool.content =
              Function.update pool.content header.name (some .empty) := by
            have created := atomic (pool.made header) (by rw [states]; simp)
            rw [made_content cleared header room] at created
            rcases created with as_before | as_after
            · have value := congrFun as_before header.name
              rw [Function.update_self, new] at value
              cases value
            · exact as_after.symm
          have legal_rest : ∀ other ∈ rest, validPoolFilename other.1 = true :=
            fun other member => legal other (List.mem_cons_of_mem _ member)
          have empty : file.2 = .empty := by
            have next := atomic (pool.put header file.2) (by
              rw [states]
              exact List.mem_append_right _ (mem_crashes_importEach legal_rest))
            rw [put_content cleared header room, target] at next
            have value := next.imp (congrFun · header.name) (congrFun · header.name)
            rw [Function.update_self, Function.update_self, new] at value
            rcases value with none_there | there
            · cases none_there
            · exact Option.some.inj there
          refine .inr (.inr (.inr ⟨header.name, new, fun other member => ?_⟩))
          rcases List.mem_cons.mp member with rfl | later
          · exact Prod.ext rfl empty
          · refine same_of_stops (@Cleared.put pool file.2 header cleared) new ?_ target legal_rest
              (List.subset_cons_self _ _) (fun r stop => ?_) other later
            · rw [put_content cleared header room, empty]
            · apply atomic
              rw [states]
              exact List.mem_append_right _ stop
        · rw [not_or, Bool.not_eq_true, not_not] at room
          exact .inr (.inr (.inl ⟨file, rest, rfl, room⟩))
  · simp only [not_forall, exists_prop, Bool.not_eq_true] at legal
    exact .inl legal

/-- Files without a byte, all of one new name, are only there or not. -/
theorem stops_of_same {q : Pool} {rest : BundleFiles} (cleared : q.Cleared) (new : disk name = none)
    (now : q.content = disk ∨ q.content = Function.update disk name (some .empty))
    (legal : ∀ file ∈ rest, validPoolFilename file.1 = true)
    (same : ∀ file ∈ rest, file = (name, .empty)) : ∀ r ∈ (importEach rest q).crashes,
      r.content = disk ∨ r.content = Function.update disk name (some .empty) := by
  induction rest generalizing q with
  | nil =>
      intro r stop
      rw [List.mem_singleton.mp stop]
      exact now
  | cons file rest ih =>
      obtain rfl := same file List.mem_cons_self
      let header : HeaderName := ⟨name, fits_of_valid (legal _ List.mem_cons_self)⟩
      have updated : ∀ data, Function.update q.content name data = Function.update disk name data := by
        intro data
        rcases now with as_before | created
        · rw [as_before]
        · rw [created, Function.update_idem]
      have back : Function.update disk name none = disk := Function.update_eq_self_iff.mpr new.symm
      by_cases room : q.hasFilename header.name = true ∨ q.available ≠ []
      · intro r stop
        rw [show ((name, Region.empty) :: rest) = ((header.name, Region.empty) :: rest) from rfl,
          crashes_importEach header rest room] at stop
        rcases List.mem_append.mp stop with first | later
        · rcases List.mem_append.mp first with dropping | making
          · rw [dropStates] at dropping
            split at dropping
            · rcases List.mem_cons.mp dropping with rfl | emptied
              · exact now
              · rw [List.mem_singleton.mp emptied, content_setData]
                show Function.update q.content name _ = _ ∨ _
                rw [updated]
                cases q.content name with
                | none => exact .inl back
                | some _ => exact .inr rfl
            · cases dropping
          · simp only [List.mem_cons, List.not_mem_nil, or_false] at making
            rcases making with rfl | rfl | rfl
            · left
              rw [dropped_content]
              exact (updated none).trans back
            · right
              rw [made_content cleared header room]
              exact updated _
            · right
              rw [setData_made_content cleared header room]
              exact updated _
        · refine ih (@Cleared.put q .empty header cleared) (.inr ?_)
            (fun other member => legal other (List.mem_cons_of_mem _ member))
            (fun other member => same other (List.mem_cons_of_mem _ member)) r later
          rw [put_content cleared header room]
          exact updated _
      · rw [not_or, Bool.not_eq_true, not_not] at room
        intro r stop
        rw [importEach_cons, Prog.bind_of_error (importCiphertextFile_full header room.1 room.2)] at stop
        rw [List.mem_singleton.mp stop]
        exact now

theorem importedDisk_same (same : ∀ file ∈ files, file = (name, .empty)) (some_files : files ≠ []) :
    importedDisk files disk = Function.update disk name (some .empty) := by
  induction files generalizing disk with
  | nil => exact absurd rfl some_files
  | cons file rest ih =>
      obtain rfl := same file List.mem_cons_self
      by_cases last : rest = []
      · rw [last]
        rfl
      · have later := @ih (Function.update disk name (some .empty))
          (fun other member => same other (List.mem_cons_of_mem _ member)) last
        rw [Function.update_idem] at later
        exact later

theorem allOrNothing_of_harmless (cleared : pool.Cleared) (harmless : Harmless pool files) :
    AllOrNothing files pool (importFiles files pool) := by
  have unchanged : ∀ e, (importFiles files pool = ⟨[], pool, e⟩) →
      AllOrNothing files pool (importFiles files pool) := by
    intro e ran q stop
    rw [ran] at stop
    rw [List.mem_singleton.mp stop]
    exact .inl rfl
  by_cases legal : ∀ file ∈ files, validPoolFilename file.1 = true
  · rcases harmless with ⟨file, listed, illegal⟩ | rfl | ⟨file, rest, rfl, lacks, full⟩ | ⟨name, new, same⟩
    · rw [legal file listed] at illegal
      cases illegal
    · exact unchanged _ rfl
    · apply unchanged
      let header : HeaderName := ⟨file.1, fits_of_valid (legal file List.mem_cons_self)⟩
      rw [importFiles_legal legal, importEach_cons,
        Prog.bind_of_error (importCiphertextFile_full header lacks full)]
    · by_cases none_listed : files = []
      · subst none_listed
        exact unchanged _ rfl
      · rw [AllOrNothing, importedDisk_same same none_listed, importFiles_legal legal]
        exact stops_of_same cleared new (.inl rfl) legal same
  · simp only [not_forall, exists_prop, Bool.not_eq_true] at legal
    obtain ⟨file, listed, illegal⟩ := legal
    obtain ⟨e, ran⟩ := @importFiles_illegal pool _ _ listed illegal
    exact unchanged _ ran

end Condition

end Pool

namespace Vault

/-- The databases after an apply that stops anywhere are those before it, or those of the image with
the others as they were. -/
def AppliesAtomically (vault : Vault) (image : BundleFiles) : Prop :=
  ∀ v ∈ (syncApply image vault).crashes,
    v.pool.content = vault.pool.content ∨ v.pool.content = Pool.importedDisk image vault.pool.content

theorem syncApply_unlocked {vault : Vault} (image : BundleFiles) (unlocked : vault.unlocked = true) :
    (syncApply image vault).crashes =
      (Pool.importFiles image { vault.pool with dbs := ∅ }).crashes.map fun q => vault.withPool q := by
  have ran : syncApply image vault = onPool "import_files" (Pool.importFiles image)
      (vault.withPool { vault.pool with dbs := ∅ }) := by
    unfold syncApply
    rw [Prog.get_bind, if_pos unlocked]
    rfl
  rw [ran, Outcome.crashes, Outcome.crashes, List.map_append]
  rfl

/-- An apply is all-or-nothing exactly where it writes nothing, or only makes an empty file. -/
theorem appliesAtomically_iff (vault : Vault) (image : BundleFiles) (cleared : vault.pool.Cleared) :
    vault.AppliesAtomically image ↔ vault.unlocked = false ∨ Pool.Harmless vault.pool image := by
  cases unlocked : vault.unlocked with
  | false =>
      refine ⟨fun _ => .inl rfl, fun _ v stop => ?_⟩
      have ran : syncApply image vault =
          ⟨[], vault, .error "no active session — call session_open first"⟩ := by
        unfold syncApply
        rw [Prog.get_bind, unlocked, if_neg Bool.false_ne_true]
        rfl
      rw [ran] at stop
      rw [List.mem_singleton.mp stop]
      exact .inl rfl
  | true =>
      have same : vault.AppliesAtomically image ↔ Pool.AllOrNothing image { vault.pool with dbs := ∅ }
          (Pool.importFiles image { vault.pool with dbs := ∅ }) := by
        rw [AppliesAtomically, syncApply_unlocked image unlocked]
        exact List.forall_mem_map
      rw [same]
      constructor
      · intro atomic
        right
        exact @Pool.harmless_of_allOrNothing { vault.pool with dbs := ∅ } image cleared atomic
      · rintro (locked | harmless)
        · cases locked
        · exact @Pool.allOrNothing_of_harmless { vault.pool with dbs := ∅ } image cleared harmless

end Vault

namespace ImportSample

open ExportSample

/-- A vault with one database, a manifest beside its main file. -/
def holding : Vault := vault (Pool.put ⟨dbA, by decide⟩ (.blocks [.junk 1] 0)
  (Pool.put ⟨manifestName dbA, by decide⟩ (.blocks [.junk 2] 0) directory))

/-- Another image of the database. -/
def image : BundleFiles := [(dbA, .blocks [.junk 3] 0), (manifestName dbA, .blocks [.junk 4] 0)]

theorem cleared_directory : directory.Cleared := by
  intro slot free
  rw [List.eq_of_mem_replicate free]
  rfl

theorem cleared_holding : holding.pool.Cleared := cleared_directory.put.put

theorem applies_nothing : holding.AppliesAtomically [(['a'], .empty)] :=
  (Vault.appliesAtomically_iff holding _ cleared_holding).mpr
    (.inr (.inl ⟨(['a'], .empty), List.mem_cons_self, by decide⟩))

theorem holding_content : holding.pool.content dbA = some (.blocks [.junk 1] 0) ∧
    holding.pool.content (manifestName dbA) = some (.blocks [.junk 2] 0) := by
  have first : ∀ header data, (directory.put header data).content =
      Function.update directory.content header.name (some data) :=
    fun header data => Pool.put_content cleared_directory header (.inr (by decide))
  have second : holding.pool.content = _ :=
    Pool.put_content cleared_directory.put ⟨dbA, by decide⟩ (.inr (by decide +kernel))
  rw [second, first]
  exact ⟨Function.update_self _ _ _, (Function.update_of_ne (by decide) _ _).trans (Function.update_self _ _ _)⟩

/-- A crash between the two files of the database: the main file is the new one, the manifest the old. -/
theorem apply_torn : (∃ v ∈ (Vault.syncApply image holding).crashes,
      v.pool.content dbA = some (.blocks [.junk 3] 0) ∧
      v.pool.content (manifestName dbA) = some (.blocks [.junk 2] 0)) ∧
    ¬holding.AppliesAtomically image := by
  let header : HeaderName := ⟨dbA, by decide⟩
  let pool : Pool := { holding.pool with dbs := ∅ }
  have held := holding_content
  have there : pool.hasFilename header.name = true := by
    by_contra lacks
    have absent := Pool.content_of_lacks (Bool.not_eq_true _ ▸ lacks)
    exact Option.some_ne_none _ (held.1.symm.trans absent)
  have legal : ∀ file ∈ image, validPoolFilename file.1 = true := by decide
  have now := @Pool.put_content pool (.blocks [.junk 3] 0) cleared_holding header (.inl there)
  have torn : (∃ v ∈ (Vault.syncApply image holding).crashes,
      v.pool.content dbA = some (.blocks [.junk 3] 0) ∧
      v.pool.content (manifestName dbA) = some (.blocks [.junk 2] 0)) := by
    refine ⟨holding.withPool (pool.put header (.blocks [.junk 3] 0)), ?_, ?_, ?_⟩
    · rw [Vault.syncApply_unlocked image rfl, Pool.importFiles_legal legal]
      apply List.mem_map_of_mem
      rw [image, Pool.crashes_importEach header _ (.inl there)]
      exact List.mem_append_right _ (Pool.mem_crashes_importEach fun file member =>
        legal file (List.mem_cons_of_mem _ member))
    · exact (congrFun now dbA).trans (Function.update_self _ _ _)
    · refine (congrFun now (manifestName dbA)).trans ?_
      exact (Function.update_of_ne (by decide) _ _).trans held.2
  refine ⟨torn, fun atomic => ?_⟩
  obtain ⟨v, stop, main, manifest⟩ := torn
  rcases atomic v stop with as_before | as_after
  · have same := congrFun as_before dbA
    rw [main, held.1] at same
    exact absurd same (by decide)
  · have same := congrFun as_after (manifestName dbA)
    have after : Pool.importedDisk image holding.pool.content (manifestName dbA) =
        some (.blocks [.junk 4] 0) := by
      rw [Pool.importedDisk, image, List.foldl_cons, List.foldl_cons, List.foldl_nil]
      exact Function.update_self _ _ _
    rw [manifest, after] at same
    exact absurd same (by decide)

end ImportSample

end Freehold
