import Freehold.ImportAtomicity

set_option autoImplicit false

/- Importing a bundle into the directory of an existing vault. -/
namespace Freehold

open CrashLogic
open Cursor (Slice)

/-- `DUMMY_DEK`. -/
def dummyDek : Dek := 0

/-- `initial_capacity` of `demo_cfg`. -/
abbrev initialCapacity : Nat := 6

/-- The vault, and whether the pool of an import is registered or holds file handles. -/
structure ImportHost where
  vault : Vault
  importPool : Bool

/-- A program of the worker; each of its effects is one durable write. -/
abbrev HostM (α : Type) := Prog ImportHost String α

namespace Pool

/-- The writes of `acquire_access_handles` with `clear_files`, which empties each slot file and then
its header, and of `reserve_minimum_capacity`. -/
def installWrites (order : IterOrder) (pool : Pool) : List (Pool → Pool) :=
  (order.list pool.files.keys).flatMap (fun name => [setData name .empty, unmapSlot name]) ++
    pool.available.flatMap (fun _ => [id, id]) ++
      (List.range (initialCapacity - pool.capacity)).flatMap fun _ =>
        [id, fun pool => { pool with available := pooled pool.dek :: pool.available }]

end Pool

namespace ImportHost

def withPool (pool : Pool) (host : ImportHost) : ImportHost :=
  { host with vault := host.vault.withPool pool }

def onPool {α : Type} (context : String) (program : PoolM α) : HostM α :=
  Prog.zoom (fun host => host.vault.pool) withPool (fun e =>
    let shown := e.debug
    s!"{context}: {shown}") program

/-- `install` of the pool `pk-import`, on the directory of the vault. A pool that is registered already
is returned as it is, and the handles of an open session are in the way of a new one. -/
def install (order : IterOrder) : HostM Unit := do
  let host ← Prog.get
  if host.importPool then return ()
  else if host.vault.unlocked then Prog.fail "install: CreateSyncAccessHandle"
  else
    let found := host.vault.pool.reopen dummyDek
    Prog.modify fun host => { host.withPool found with importPool := true }
    onPool "install" (Prog.forEach Prog.effect (found.installWrites order))

/-- `pause_vfs`; no file of the pool is open. -/
def pauseVfs : HostM Unit := Prog.modify fun host => { host with importPool := false }

/-- The files of a bundle with their bytes as the pool holds them. -/
def filesOf (region : List UInt8 → Region) (bundle : BundleWire.Bundle) : BundleFiles :=
  bundle.files.map fun file => (file.1.toList, region file.2)

/-- `import_bundle`. -/
def importBundle {width : Nat} (order : IterOrder) (region : List UInt8 → Region) (bytes : Slice width) :
    HostM Unit :=
  match BundleWire.decode bytes with
  | .error e => Prog.fail e
  | .panic => Prog.fail "panic"
  | .ok bundle => do
      install order
      onPool "import" (Pool.importFiles (filesOf region bundle))
      pauseVfs

/-- `unlock()` with the stored envelope; the session's pool needs the handles. -/
def unlockWith (order : IterOrder) (method : Method) : HostM Unit := do
  let host ← Prog.get
  if host.importPool then Prog.fail "install: CreateSyncAccessHandle"
  else
    Prog.zoom ImportHost.vault (fun vault host => { host with vault := vault }) id
      (Vault.unlockWith order method)

end ImportHost

namespace ImportHost

/-- What a failed import may leave: the files as they were, no pool of the import and no handle of
it, and a vault that unlocks as before. -/
structure LeftAlone (before after : ImportHost) : Prop where
  files : after.vault.pool.content = before.vault.pool.content
  released : after.importPool = false
  unlocks : ∀ order method, (unlockWith order method after).result = (unlockWith order method before).result

end ImportHost

section Installing

variable {order : IterOrder} {pool : Pool} {name : FileName}

theorem forEach_effect (writes : List (Pool → Pool)) (pool : Pool) :
    (Prog.forEach Prog.effect writes : PoolM Unit) pool =
      ⟨(List.range writes.length).map fun i => (writes.take i).foldl (fun q write => write q) pool,
        writes.foldl (fun q write => write q) pool, .ok ()⟩ := by
  induction writes generalizing pool with
  | nil => rfl
  | cons write rest ih =>
      show Prog.bind (Prog.effect write) (fun _ => Prog.forEach Prog.effect rest) pool = _
      simp only [Prog.bind, Prog.effect, ih, List.length_cons, List.range_succ_eq_map, List.map_cons,
        List.map_map, List.take_zero, List.foldl_nil, List.foldl_cons, List.singleton_append]
      rfl

theorem foldl_flatMap_pair {σ β : Type} (first second : β → σ → σ) (items : List β) (s : σ) :
    (items.flatMap fun item => [first item, second item]).foldl (fun t write => write t) s =
      items.foldl (fun t item => second item (first item t)) s := by
  induction items generalizing s with
  | nil => rfl
  | cons item rest ih =>
      rw [List.flatMap_cons, List.foldl_append, ih]
      rfl

/-- Emptying and freeing the slots of some names. -/
def Pool.freed (names : List FileName) (pool : Pool) : Pool :=
  names.foldl (fun q name => Pool.unmapSlot name (Pool.setData name .empty q)) pool

theorem Pool.Cleared.freed (cleared : pool.Cleared) (names : List FileName) : (pool.freed names).Cleared := by
  induction names generalizing pool with
  | nil => exact cleared
  | cons name rest ih => exact ih cleared.dropped

@[simp] theorem Pool.capacity_freed (names : List FileName) : (pool.freed names).capacity = pool.capacity := by
  induction names generalizing pool with
  | nil => rfl
  | cons name rest ih =>
      have first := @ih (Pool.unmapSlot name (Pool.setData name .empty pool))
      rw [Pool.capacity_unmapSlot, Pool.capacity_setData] at first
      exact first

theorem Pool.hasFilename_freed (names : List FileName)
    (kept : (pool.freed names).hasFilename name = true) : pool.hasFilename name = true ∧ name ∉ names := by
  induction names generalizing pool with
  | nil => exact ⟨kept, List.not_mem_nil⟩
  | cons first rest ih =>
      obtain ⟨before, later⟩ := ih kept
      rw [Pool.hasFilename_iff, Pool.getElem?_unmapSlot] at before
      by_cases same : name = first
      · rw [if_pos same] at before
        exact (nomatch before.choose_spec)
      · rw [if_neg same, Pool.getElem?_setData, if_neg same] at before
        exact ⟨Pool.hasFilename_iff.mpr before, fun listed => (List.mem_cons.mp listed).elim same later⟩

/-- A pool that was cleared on its installation. -/
structure Pool.Blank (pool : Pool) (slots : Nat) : Prop where
  cleared : pool.Cleared
  empty : ∀ name, pool.hasFilename name = false
  free : pool.available.length = slots

theorem Pool.size_of_empty (empty : ∀ name, pool.hasFilename name = false) : pool.files.size = 0 := by
  have none_less := @Pool.size_le_of_hasFilename pool { pool with files := ∅ } fun name held => by
    rw [empty name] at held
    cases held
  exact Nat.le_zero.mp none_less

/-- More free slots. -/
def Pool.grown (count : Nat) (pool : Pool) : Pool :=
  { pool with available := List.replicate count (Pool.pooled pool.dek) ++ pool.available }

theorem Pool.foldl_grown (count : Nat) (pool : Pool) :
    (List.range count).foldl (fun q _ => { id q with available := Pool.pooled (id q).dek :: (id q).available })
      pool = pool.grown count := by
  induction count with
  | zero => rfl
  | succ count ih =>
      rw [List.range_succ, List.foldl_append, ih]
      rfl

theorem foldl_id {σ β : Type} (items : List β) (s : σ) : items.foldl (fun t _ => id (id t)) s = s := by
  induction items with
  | nil => rfl
  | cons item rest ih => exact ih

theorem Pool.foldl_installWrites (order : IterOrder) (pool : Pool) :
    (pool.installWrites order).foldl (fun q write => write q) pool =
      (pool.freed (order.list pool.files.keys)).grown (initialCapacity - pool.capacity) := by
  rw [Pool.installWrites, List.foldl_append, List.foldl_append, foldl_flatMap_pair, foldl_flatMap_pair,
    foldl_flatMap_pair, foldl_id, ← Pool.foldl_grown]
  rfl

/-- After its installation the pool has no file and at least the initial number of free slots. -/
theorem Pool.blank_installed (cleared : pool.Cleared) : ((pool.installWrites order).foldl
    (fun q write => write q) pool).Blank (max pool.capacity initialCapacity) := by
  rw [Pool.foldl_installWrites]
  let names := order.list pool.files.keys
  have empty : ∀ name, (pool.freed names).hasFilename name = false := by
    intro name
    rw [← Bool.not_eq_true]
    intro kept
    obtain ⟨held, absent⟩ := Pool.hasFilename_freed names kept
    apply absent
    rw [(order.perm _).mem_iff, Std.ExtTreeMap.mem_keys]
    exact Std.ExtTreeMap.contains_iff_mem.mp held
  have free : (pool.freed names).available.length = pool.capacity := by
    have total := @Pool.capacity_freed pool names
    rw [Pool.capacity, Pool.size_of_empty empty, Nat.zero_add] at total
    exact total
  refine ⟨?_, empty, ?_⟩
  · intro slot listed
    rcases List.mem_append.mp listed with new | old
    · rw [List.eq_of_mem_replicate new]
      rfl
    · exact cleared.freed names slot old
  · show (List.replicate _ _ ++ (pool.freed names).available).length = _
    rw [List.length_append, List.length_replicate, free]
    omega

theorem Pool.installWrites_ne_nil : pool.installWrites order ≠ [] := by
  intro none_written
  rw [Pool.installWrites, List.append_eq_nil_iff, List.append_eq_nil_iff] at none_written
  obtain ⟨⟨no_files, no_slots⟩, no_growth⟩ := none_written
  simp only [List.flatMap_eq_nil_iff, List.cons_ne_nil, imp_false] at no_files no_slots no_growth
  have no_names := List.eq_nil_iff_forall_not_mem.mpr no_files
  have keys : pool.files.keys = [] := by
    have same := (order.perm pool.files.keys).length_eq
    rw [no_names] at same
    exact List.length_eq_zero_iff.mp same.symm
  have size : pool.files.size = 0 := by rw [← Std.ExtTreeMap.length_keys, keys, List.length_nil]
  have slots : pool.available = [] := List.eq_nil_iff_forall_not_mem.mpr no_slots
  have none_missing := List.eq_nil_iff_forall_not_mem.mpr no_growth
  have capacity : pool.capacity = 0 := by rw [Pool.capacity, size, slots, List.length_nil]
  rw [capacity] at none_missing
  exact absurd none_missing (by decide)

end Installing

section Importing

variable {pool : Pool} {files : BundleFiles}

/-- The names of a list that the pool has no file of. -/
def Pool.newNames (pool : Pool) (files : BundleFiles) : Finset FileName :=
  (files.map Prod.fst).toFinset.filter fun name => pool.hasFilename name = false

theorem Pool.hasFilename_setData {name other : FileName} {data : Region} :
    (Pool.setData name data pool).hasFilename other = pool.hasFilename other := by
  rw [Bool.eq_iff_iff, Pool.hasFilename_iff, Pool.hasFilename_iff, Pool.getElem?_setData]
  by_cases same : other = name
  · subst same
    rw [if_pos rfl]
    cases pool.files[other]? <;> simp
  · rw [if_neg same]

theorem Pool.hasFilename_dropped {name other : FileName} :
    (pool.dropped name).hasFilename other = true ↔ other ≠ name ∧ pool.hasFilename other = true := by
  rw [Pool.dropped]
  by_cases there : pool.hasFilename name = true
  · rw [if_pos there, Pool.hasFilename_iff, Pool.getElem?_unmapSlot]
    by_cases same : other = name
    · rw [if_pos same]
      exact ⟨fun found => (by cases found.choose_spec), fun kept => absurd same kept.1⟩
    · rw [if_neg same, ← Pool.hasFilename_iff, Pool.hasFilename_setData]
      exact ⟨fun held => ⟨same, held⟩, fun kept => kept.2⟩
  · rw [if_neg there]
    refine ⟨fun held => ⟨?_, held⟩, fun kept => kept.2⟩
    rintro rfl
    exact there held

theorem Pool.length_available_dropped (name : FileName) : (pool.dropped name).available.length =
    if pool.hasFilename name then pool.available.length + 1 else pool.available.length := by
  rw [Pool.dropped]
  by_cases there : pool.hasFilename name = true
  · obtain ⟨file, found⟩ := Pool.hasFilename_iff.mp ((@Pool.hasFilename_setData pool name name .empty).trans there)
    rw [if_pos there, if_pos there, Pool.unmapSlot_of_some found, List.length_cons]
    rfl
  · rw [if_neg there, if_neg there]

/-- A file that is put takes a slot, unless it replaces one. -/
theorem Pool.hasFilename_put (header : HeaderName) (data : Region)
    (room : pool.hasFilename header.name = true ∨ pool.available ≠ []) (name : FileName) :
    (pool.put header data).hasFilename name = true ↔ name = header.name ∨ pool.hasFilename name = true := by
  obtain ⟨slot, rest, free⟩ := List.exists_cons_of_ne_nil (Pool.room_dropped room)
  rw [Pool.put, Pool.hasFilename_setData, Pool.hasFilename_setData, Pool.made, Pool.mapSlot_of_cons free,
    Pool.hasFilename, Std.ExtTreeMap.contains_insert, Bool.or_eq_true, beq_iff_eq,
    Std.LawfulEqCmp.compare_eq_iff_eq]
  show header.name = name ∨ (pool.dropped header.name).hasFilename name = true ↔ _
  rw [Pool.hasFilename_dropped, eq_comm]
  by_cases same : name = header.name
  · exact ⟨fun _ => .inl same, fun _ => .inl same⟩
  · exact ⟨fun kept => kept.imp_right And.right, fun kept => kept.imp_right fun held => ⟨same, held⟩⟩

theorem Pool.length_available_put (header : HeaderName) (data : Region)
    (room : pool.hasFilename header.name = true ∨ pool.available ≠ []) :
    (pool.put header data).available.length =
      if pool.hasFilename header.name then pool.available.length else pool.available.length - 1 := by
  obtain ⟨slot, rest, free⟩ := List.exists_cons_of_ne_nil (Pool.room_dropped room)
  have total := @Pool.length_available_dropped pool header.name
  have taken : (pool.put header data).available = rest := by
    rw [Pool.put, Pool.setData_available, Pool.setData_available, Pool.made, Pool.mapSlot_of_cons free]
  rw [free, List.length_cons] at total
  rw [taken]
  split at total
  · next there =>
      rw [if_pos there]
      omega
  · next lacks =>
      rw [if_neg lacks]
      omega

theorem Pool.newNames_put (header : HeaderName) (data : Region)
    (room : pool.hasFilename header.name = true ∨ pool.available ≠ []) :
    (pool.put header data).newNames files = (pool.newNames files).erase header.name := by
  ext name
  rw [Pool.newNames, Finset.mem_filter, Finset.mem_erase, Pool.newNames, Finset.mem_filter, ← Bool.not_eq_true,
    ← Bool.not_eq_true, Pool.hasFilename_put header data room]
  tauto

theorem Pool.newNames_cons (file : FileName × Region) : pool.newNames (file :: files) =
    if pool.hasFilename file.1 then pool.newNames files else insert file.1 (pool.newNames files) := by
  rw [Pool.newNames, List.map_cons, List.toFinset_cons, Finset.filter_insert]
  cases held : pool.hasFilename file.1 with
  | true => rw [if_neg (by decide), if_pos rfl, Pool.newNames]
  | false => rw [if_pos rfl, if_neg (by decide), Pool.newNames]

/-- An import of legal names succeeds exactly if there is a free slot for every new one. -/
theorem Pool.importEach_ok_iff (legal : ∀ file ∈ files, validPoolFilename file.1 = true) :
    (Pool.importEach files pool).result = .ok () ↔ (pool.newNames files).card ≤ pool.available.length := by
  induction files generalizing pool with
  | nil => exact ⟨fun _ => Nat.zero_le _, fun _ => rfl⟩
  | cons file rest ih =>
      let header : HeaderName := ⟨file.1, fits_of_valid (legal file List.mem_cons_self)⟩
      have legal_rest : ∀ other ∈ rest, validPoolFilename other.1 = true :=
        fun other member => legal other (List.mem_cons_of_mem _ member)
      by_cases room : pool.hasFilename header.name = true ∨ pool.available ≠ []
      · have run : (Pool.importEach (file :: rest) pool).result =
            (Pool.importEach rest (pool.put header file.2)).result := by
          rw [Pool.importEach_cons, Prog.bind_of_ok (Pool.importCiphertextFile_run header room)]
          rfl
        rw [run, ih legal_rest, Pool.length_available_put header file.2 room, Pool.newNames_put header file.2 room,
          Pool.newNames_cons]
        by_cases there : pool.hasFilename file.1 = true
        · have apart : header.name ∉ pool.newNames rest := by
            rw [Pool.newNames, Finset.mem_filter]
            rintro ⟨_, lacks⟩
            rw [show pool.hasFilename header.name = true from there] at lacks
            cases lacks
          rw [if_pos there, if_pos there, Finset.erase_eq_of_notMem apart]
        · have slots : 0 < pool.available.length := List.length_pos_iff.mpr (room.resolve_left there)
          have one_more := Finset.card_erase_add_one (Finset.mem_insert_self file.1 (pool.newNames rest))
          rw [Finset.erase_insert_eq_erase] at one_more
          rw [if_neg there, if_neg there]
          show ((pool.newNames rest).erase file.1).card ≤ _ ↔ _
          omega
      · rw [not_or, Bool.not_eq_true, not_not] at room
        rw [Pool.importEach_cons, Prog.bind_of_error (Pool.importCiphertextFile_full header room.1 room.2), room.2]
        refine ⟨fun failed => (nomatch failed), fun few => ?_⟩
        have lacks : ¬pool.hasFilename file.1 = true := Bool.not_eq_true _ ▸ room.1
        rw [Pool.newNames_cons, if_neg lacks, List.length_nil, Nat.le_zero, Finset.card_eq_zero] at few
        exact absurd few (Finset.insert_ne_empty _ _)

/-- All names of a list are legal, and there is a slot for each of them. -/
def Pool.Accepts (pool : Pool) (files : BundleFiles) : Prop :=
  (∀ file ∈ files, validPoolFilename file.1 = true) ∧
    (files.map Prod.fst).toFinset.card ≤ max pool.capacity initialCapacity

theorem Pool.importFiles_ok_iff {slots : Nat} (blank : pool.Blank slots) :
    (Pool.importFiles files pool).result = .ok () ↔
      (∀ file ∈ files, validPoolFilename file.1 = true) ∧ (files.map Prod.fst).toFinset.card ≤ slots := by
  by_cases legal : ∀ file ∈ files, validPoolFilename file.1 = true
  · have new : pool.newNames files = (files.map Prod.fst).toFinset :=
      Finset.filter_true_of_mem fun name _ => blank.empty name
    rw [Pool.importFiles_legal legal, Pool.importEach_ok_iff legal, new, blank.free]
    exact ⟨fun few => ⟨legal, few⟩, fun accepted => accepted.2⟩
  · refine ⟨fun imported => ?_, fun accepted => absurd accepted.1 legal⟩
    simp only [not_forall, exists_prop, Bool.not_eq_true] at legal
    obtain ⟨file, listed, illegal⟩ := legal
    obtain ⟨e, ran⟩ := @Pool.importFiles_illegal pool _ _ listed illegal
    rw [ran] at imported
    cases imported

end Importing

namespace ImportHost

variable {order : IterOrder} {vault : Vault} {region : List UInt8 → Region} {width : Nat} {bytes : Slice width}

/-- The directory once it has been installed for an import. -/
def cleared (order : IterOrder) (vault : Vault) : Pool :=
  ((vault.pool.reopen dummyDek).installWrites order).foldl (fun q write => write q) (vault.pool.reopen dummyDek)

theorem blank_cleared : (cleared order vault).Blank (max vault.pool.capacity initialCapacity) := by
  have reopened : (vault.pool.reopen dummyDek).Cleared := by
    intro slot free
    rw [List.eq_of_mem_replicate free]
    rfl
  have blank := @Pool.blank_installed order _ reopened
  rw [Pool.capacity_reopen] at blank
  exact blank

theorem onPool_of_run {context : String} {program : PoolM Unit} {host : ImportHost} {passed : List Pool}
    {q : Pool} {result : Except OpfsSAHError Unit} (ran : program host.vault.pool = ⟨passed, q, result⟩) :
    onPool context program host = ⟨passed.map fun q => withPool q host, withPool q host,
      result.mapError fun e =>
        let shown := e.debug
        s!"{context}: {shown}"⟩ := by
  unfold onPool Prog.zoom
  rw [ran]

theorem install_locked (locked : vault.unlocked = false) : ∃ passed,
    install order ⟨vault, false⟩ = ⟨passed, ⟨vault.withPool (cleared order vault), true⟩, .ok ()⟩ ∧
      passed ≠ [] ∧ ∀ host ∈ passed, host.importPool = true := by
  let found := vault.pool.reopen dummyDek
  let entered : ImportHost := ⟨vault.withPool found, true⟩
  have ran : install order ⟨vault, false⟩ =
      onPool "install" (Prog.forEach Prog.effect (found.installWrites order)) entered := by
    unfold install
    rw [Prog.get_bind]
    dsimp only
    rw [if_neg Bool.false_ne_true, locked, if_neg Bool.false_ne_true]
    rfl
  have written := forEach_effect (found.installWrites order) found
  have run := @onPool_of_run "install" _ entered _ _ _ written
  have some_written := List.length_pos_iff.mpr (@Pool.installWrites_ne_nil order found)
  refine ⟨_, ran.trans run, ?_, ?_⟩
  · intro none_passed
    rw [List.map_eq_nil_iff, List.map_eq_nil_iff, List.range_eq_nil] at none_passed
    omega
  · intro host passed
    obtain ⟨q, _, rfl⟩ := List.mem_map.mp passed
    rfl

theorem LeftAlone.refl (host : ImportHost) (released : host.importPool = false) : LeftAlone host host :=
  ⟨rfl, released, fun _ _ => rfl⟩

/-- The import of a bundle that decodes: the pool is in the way until all has gone well. -/
theorem importBundle_locked {bundle : BundleWire.Bundle} (locked : vault.unlocked = false)
    (decoded : BundleWire.decode bytes = .ok bundle) :
    ∃ passed state result, importBundle order region bytes ⟨vault, false⟩ = ⟨passed, state, result⟩ ∧
      passed ≠ [] ∧ (∀ host ∈ passed, host.importPool = true) ∧
      (vault.pool.Accepts (filesOf region bundle) → result = .ok ()) ∧
      (¬vault.pool.Accepts (filesOf region bundle) → ∃ e, result = .error e ∧ state.importPool = true) := by
  obtain ⟨before, installed, some_passed, held⟩ := @install_locked order _ locked
  let opened : ImportHost := ⟨vault.withPool (cleared order vault), true⟩
  have accepts := @Pool.importFiles_ok_iff _ (filesOf region bundle) _ (@blank_cleared order vault)
  have whole : importBundle order region bytes = install order >>= fun _ =>
      onPool "import" (Pool.importFiles (filesOf region bundle)) >>= fun _ => pauseVfs := by
    unfold importBundle
    rw [decoded]
  rcases run : Pool.importFiles (filesOf region bundle) (cleared order vault) with ⟨passed, q, result⟩
  rw [run] at accepts
  have imported := @onPool_of_run "import" (Pool.importFiles (filesOf region bundle)) opened _ _ _ run
  have carried : ∀ host ∈ before ++ passed.map fun q => withPool q opened, host.importPool = true := by
    intro host member
    rcases List.mem_append.mp member with early | late
    · exact held host early
    · obtain ⟨_, _, rfl⟩ := List.mem_map.mp late
      rfl
  rw [whole, Prog.bind_of_ok installed]
  cases result with
  | ok done =>
      rw [Prog.bind_of_ok imported]
      refine ⟨_, _, _, rfl, ?_, ?_, fun _ => rfl, fun refused => absurd (accepts.mp rfl) refused⟩
      · exact List.append_ne_nil_of_left_ne_nil some_passed _
      · intro host member
        rw [show (pauseVfs (withPool q opened)).passed = [] from rfl, List.append_nil] at member
        exact carried host member
  | error e =>
      rw [Prog.bind_of_error imported]
      refine ⟨_, _, _, rfl, List.append_ne_nil_of_left_ne_nil some_passed _, carried, ?_, fun _ => ⟨_, rfl, rfl⟩⟩
      intro accepted
      exact (nomatch accepts.mpr accepted)

theorem importBundle_unlocked {bundle : BundleWire.Bundle} (unlocked : vault.unlocked = true)
    (decoded : BundleWire.decode bytes = .ok bundle) : importBundle order region bytes ⟨vault, false⟩ =
      ⟨[], ⟨vault, false⟩, .error "install: CreateSyncAccessHandle"⟩ := by
  have refused : install order ⟨vault, false⟩ =
      ⟨[], ⟨vault, false⟩, .error "install: CreateSyncAccessHandle"⟩ := by
    unfold install
    rw [Prog.get_bind]
    dsimp only
    rw [if_neg Bool.false_ne_true, if_pos unlocked]
    rfl
  unfold importBundle
  rw [decoded]
  dsimp only
  rw [Prog.bind_of_error refused]

theorem importBundle_undecoded (refused : ∀ bundle, BundleWire.decode bytes ≠ .ok bundle) :
    ∃ e, importBundle order region bytes ⟨vault, false⟩ = ⟨[], ⟨vault, false⟩, .error e⟩ := by
  unfold importBundle
  cases decoded : BundleWire.decode bytes with
  | ok bundle => exact absurd decoded (refused bundle)
  | error e => exact ⟨e, rfl⟩
  | panic => exact ⟨"panic", rfl⟩

/-- An illegal name is found when everything has been erased. -/
theorem importBundle_illegal {bundle : BundleWire.Bundle} {file : FileName × Region}
    (locked : vault.unlocked = false) (decoded : BundleWire.decode bytes = .ok bundle)
    (listed : file ∈ filesOf region bundle) (illegal : validPoolFilename file.1 = false) :
    (∃ e, (importBundle order region bytes ⟨vault, false⟩).result = .error e) ∧
      (∀ name, (importBundle order region bytes ⟨vault, false⟩).state.vault.pool.content name = none) ∧
      (importBundle order region bytes ⟨vault, false⟩).state.importPool = true := by
  obtain ⟨passed, installed, _⟩ := @install_locked order _ locked
  obtain ⟨e, failed⟩ := @Pool.importFiles_illegal (cleared order vault) _ _ listed illegal
  have imported := @onPool_of_run "import" (Pool.importFiles (filesOf region bundle))
    ⟨vault.withPool (cleared order vault), true⟩ _ _ _ failed
  unfold importBundle
  rw [decoded]
  dsimp only
  rw [Prog.bind_of_ok installed, Prog.bind_of_error imported]
  exact ⟨⟨_, rfl⟩, fun name => Pool.content_of_lacks (blank_cleared.empty name), rfl⟩

end ImportHost

namespace ImportSample

open ExportSample ImportHost

/-- The database of `holding` in a vault that is locked. -/
def locked : Vault := { holding with unlocked := false }

/-- A bundle with a file whose name is no database's. -/
def misnamed : BundleWire.Bundle := ⟨[1], [], [("notes.txt", [])], []⟩

def misnamedBytes : Slice 32 :=
  ⟨BundleWire.encode misnamed.envelope misnamed.credId misnamed.files misnamed.epoch, by decide +kernel⟩

def anyOrder : IterOrder := ⟨id, @List.Perm.refl FileName⟩

end ImportSample

end Freehold
