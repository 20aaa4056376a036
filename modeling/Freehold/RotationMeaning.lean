import Freehold.OpenSpec
import Freehold.RotationRecovery

set_option autoImplicit false

namespace Freehold

open CrashLogic

/-- The DEK a subkey is derived from. -/
def Key.dek : Key → Dek
  | .poolKey dek | .dbKey dek _ | .anchorKey dek | .epochKey dek | .syncKey dek
  | .rotateIntentKey dek | .trustSealKey dek => dek

/-- The keys the blobs of a region are sealed under. -/
def Region.keys : Region → List Key
  | .blocks cells _ => cells.filterMap fun cell => cell.key?
  | .manifest file => file.slots.filterMap fun slot => slot.key?
  | .intent sealed => sealed.key?.toList

namespace Pool

/-- Nothing in the directory is sealed under the DEK. -/
structure Unseen (dek : Dek) (st : Stored) : Prop where
  anchor : anchorPick dek st.anchor = none
  cells : ∀ name data, st.disk name = some data → ∀ cell ∈ data.cells, ∀ uuid aad,
    cell.openWith (.dbKey dek uuid) aad = none
  slots : ∀ name file, st.disk name = some (.manifest file) → ∀ sealed ∈ file.slots, ∀ uuid aad,
    sealed.openWith (.dbKey dek uuid) aad = none

theorem Unseen.of_keys {pool : Pool} {dek : Dek} (anchor : anchorPick dek pool.anchor = none)
    (keys : ∀ name ∈ pool.files.keys, ∀ data ∈ pool.content name, ∀ key ∈ data.keys, key.dek ≠ dek) :
    Unseen dek pool.stored := by
  have held : ∀ name data, pool.content name = some data → ∀ uuid, Key.dbKey dek uuid ∉ data.keys := by
    intro name data present uuid member
    have listed : name ∈ pool.files.keys := by
      rw [Std.ExtTreeMap.mem_keys, ← Std.ExtTreeMap.contains_iff_mem]
      obtain ⟨file, found, _⟩ := Option.bind_eq_some_iff.mp present
      exact hasFilename_iff.mpr ⟨file, found⟩
    exact keys name listed data present _ member rfl
  refine ⟨anchor, ?_, ?_⟩
  · intro name data present cell member uuid aad
    apply Aead.openWith_eq_none_of_key
    intro same
    cases data with
    | blocks cells tail =>
        exact held name _ present uuid (List.mem_filterMap.mpr ⟨cell, member, same⟩)
    | manifest file =>
        rw [List.eq_of_mem_replicate member] at same
        cases same
    | intent blob =>
        rw [List.eq_of_mem_replicate member] at same
        cases same
  · intro name file present sealed member uuid aad
    apply Aead.openWith_eq_none_of_key
    intro same
    exact held name _ present uuid (List.mem_filterMap.mpr ⟨sealed, member, same⟩)

section Resealing

variable {oldK newK : Key} {fid : FileId} {uuid : Uuid} {k : Nat} {cells resealed : List Cell}

/-- Cells that could be re-sealed open under both keys to one image. -/
theorem decryptCells_resealBlocks (ok : resealBlocks oldK newK fid uuid k cells = .ok resealed) :
    ∃ image, decryptCells oldK uuid fid k cells = .ok image ∧
      decryptCells newK uuid fid k resealed = .ok image := by
  induction cells generalizing k resealed with
  | nil =>
      cases ok
      exact ⟨[], rfl, rfl⟩
  | cons cell rest ih =>
      unfold resealBlocks at ok
      cases opened : cell.openWith oldK (.block fid uuid k) with
      | none => simp only [opened] at ok; cases ok
      | some plain =>
          simp only [opened] at ok
          obtain ⟨tail, okTail, shape⟩ := except_bind_ok.mp ok
          cases shape
          obtain ⟨image, old, new⟩ := ih okTail
          refine ⟨plain :: image, ?_, ?_⟩
          · simp only [decryptCells, opened, old]
            rfl
          · simp only [decryptCells, Aead.openWith_sealed, new]
            rfl

theorem length_resealBlocks (ok : resealBlocks oldK newK fid uuid k cells = .ok resealed) :
    resealed.length = cells.length := by
  induction cells generalizing k resealed with
  | nil =>
      cases ok
      rfl
  | cons cell rest ih =>
      unfold resealBlocks at ok
      cases opened : cell.openWith oldK (.block fid uuid k) with
      | none => simp only [opened] at ok; cases ok
      | some plain =>
          simp only [opened] at ok
          obtain ⟨tail, okTail, shape⟩ := except_bind_ok.mp ok
          cases shape
          rw [List.length_cons, List.length_cons, ih okTail]

theorem getElem?_resealSlots (slots : List (SealedBytes ManifestPayload)) (i : Nat) :
    (resealSlots oldK newK fid uuid k slots)[i]? = slots[i]?.map fun sealed =>
      match sealed.openWith oldK (.block fid uuid (k + i)) with
      | some plain => .sealed newK (.block fid uuid (k + i)) plain
      | none => sealed := by
  induction slots generalizing k i with
  | nil => rfl
  | cons sealed rest ih =>
      cases i with
      | zero => rfl
      | succ i =>
          rw [resealSlots, List.getElem?_cons_succ, List.getElem?_cons_succ, ih]
          simp only [show k + 1 + i = k + (i + 1) by omega]

end Resealing

section Rekeyed

variable {dek newDek : Dek} {name mname : FileName} {uuid : Uuid} {data : Region}
  {resealed : List Cell} {payload : ManifestPayload}

/-- A slot says under the new DEK what it said under the old one. -/
theorem manifestSlot_resealSlots {slots : List (SealedBytes ManifestPayload)}
    (unseen : ∀ sealed ∈ slots, ∀ aad, sealed.openWith (.dbKey newDek uuid) aad = none) (slot : Nat) :
    manifestSlot newDek mname
        ⟨uuid, resealSlots (.dbKey dek uuid) (.dbKey newDek uuid) (fileIdFor mname) uuid 0 slots⟩ slot =
      manifestSlot dek mname ⟨uuid, slots⟩ slot := by
  unfold manifestSlot
  rw [getElem?_resealSlots, Nat.zero_add]
  cases held : slots[slot]? with
  | none => rfl
  | some sealed =>
      simp only [Option.map_some]
      cases opened : sealed.openWith (.dbKey dek uuid) (.block (fileIdFor mname) uuid slot) with
      | some plain => simp only [Aead.openWith_sealed]
      | none => simp only [unseen sealed (List.mem_of_getElem? held)]

theorem manifestPick_resealSlots {slots : List (SealedBytes ManifestPayload)}
    (unseen : ∀ sealed ∈ slots, ∀ aad, sealed.openWith (.dbKey newDek uuid) aad = none) :
    manifestPick newDek mname
        ⟨uuid, resealSlots (.dbKey dek uuid) (.dbKey newDek uuid) (fileIdFor mname) uuid 0 slots⟩ =
      manifestPick dek mname ⟨uuid, slots⟩ := by
  unfold manifestPick
  rw [manifestSlot_resealSlots unseen, manifestSlot_resealSlots unseen]

variable (ok : resealBlocks (.dbKey dek uuid) (.dbKey newDek uuid) (fileIdFor name) uuid 0 data.cells =
  .ok resealed)
include ok

theorem imageOf_resealed : imageOf (.blocks resealed 0) name (.dbKey newDek uuid) uuid =
    imageOf data name (.dbKey dek uuid) uuid := by
  obtain ⟨image, old, new⟩ := decryptCells_resealBlocks ok
  rw [imageOf, imageOf, decryptWholeFile, decryptWholeFile, old, Region.cells, new]

theorem size_resealed : (Region.blocks resealed 0).size = data.size / physBlock * physBlock := by
  rw [Region.size, length_resealBlocks ok, Region.length_cells, Fin.val_zero, Nat.add_zero]

theorem physLogical_resealed : physLogical (.blocks resealed 0) = physLogical data := by
  have positive : 0 < physBlock := by decide
  rw [physLogical, physLogical, size_resealed ok, Nat.mul_div_cancel _ positive]

theorem size_of_resealed (some_block : 0 < (Region.blocks resealed 0).size) : 0 < data.size := by
  rw [size_resealed ok] at some_block
  have whole := Nat.div_mul_le_self data.size physBlock
  omega

/-- The layout check sees the same length and the same block 0. -/
theorem checkLayout_resealed (some_block : 0 < (Region.blocks resealed 0).size) :
    checkLayout (.blocks resealed 0) name (.dbKey newDek uuid) uuid payload false =
      checkLayout data name (.dbKey dek uuid) uuid payload false := by
  have sized := size_of_resealed ok some_block
  unfold checkLayout
  simp only [Bool.false_eq_true, and_false, if_false, some_block, sized, if_true,
    physLogical_resealed ok]
  split
  · rfl
  · rw [Region.cells]
    cases cells : data.cells with
    | nil =>
        have empty := length_resealBlocks ok
        rw [cells, List.length_nil, List.length_eq_zero_iff] at empty
        rw [empty]
        rfl
    | cons cell rest =>
        rw [cells] at ok
        unfold resealBlocks at ok
        cases opened : cell.openWith (.dbKey dek uuid) (.block (fileIdFor name) uuid 0) with
        | none => simp only [opened] at ok; cases ok
        | some plain =>
            simp only [opened] at ok
            obtain ⟨tail, _, shape⟩ := except_bind_ok.mp ok
            cases shape
            simp only [List.getElem?_cons_zero, Aead.openWith_sealed, opened]

end Rekeyed

section Windows

variable {dek : Dek} {table table' : AnchorTable} {uuid : Uuid} {e : AnchorEntry} {gen : Nat}

theorem find_eq_some : table.find uuid = some e ↔ e ∈ table.entries ∧ e.uuid = uuid := by
  constructor
  · intro found
    have named := List.find?_some found
    exact ⟨List.mem_of_find?_eq_some found, of_decide_eq_true named⟩
  · rintro ⟨member, rfl⟩
    have held : (table.entries.find? fun other => other.uuid = e.uuid).isSome = true :=
      List.find?_isSome.mpr ⟨e, member, decide_eq_true rfl⟩
    obtain ⟨other, found⟩ := Option.isSome_iff_exists.mp held
    have named := List.find?_some found
    rw [AnchorTable.find, found,
      AnchorTable.eq_of_uuid_eq (List.mem_of_find?_eq_some found) member (of_decide_eq_true named)]

theorem find_eq_of_same (sub : table'.entries ⊆ table.entries)
    (sup : table.entries ⊆ table'.entries) : table'.find uuid = table.find uuid := by
  apply Option.ext
  intro e
  rw [find_eq_some, find_eq_some]
  exact ⟨fun held => ⟨sub held.1, held.2⟩, fun held => ⟨sup held.1, held.2⟩⟩

theorem freshnessGate_ok : freshnessGate (some e) gen = .ok () ↔
    e.committed ≤ gen + 1 ∧ e.epochFloor ≤ gen := by
  unfold freshnessGate
  simp only
  split
  · next older =>
      refine iff_of_false (fun ok => by cases ok) ?_
      omega
  · split
    · next below =>
        refine iff_of_false (fun ok => by cases ok) ?_
        omega
    · exact iff_of_true rfl (by omega)

/-- Tables with the same windows let the same generations through. -/
theorem Fresh.of_same {newDek : Dek} {anchor anchor' : AnchorFile}
    (sub : (anchorLoad newDek anchor').2.entries ⊆ (anchorLoad dek anchor).2.entries)
    (sup : (anchorLoad dek anchor).2.entries ⊆ (anchorLoad newDek anchor').2.entries)
    (fresh : Fresh dek anchor uuid gen) : Fresh newDek anchor' uuid gen := by
  refine ⟨?_, ?_⟩
  · rw [anchorEntry, find_eq_of_same sub sup]
    exact fresh.1
  · have room := anchorUpsert_ne_none.mp fresh.2
    apply anchorUpsert_ne_none.mpr
    cases room with
    | inl present =>
        left
        obtain ⟨e, member, same⟩ := List.mem_map.mp present
        exact List.mem_map.mpr ⟨e, sup member, same⟩
    | inr short =>
        right
        have nodup := List.Nodup.of_map _ (anchorLoad newDek anchor').2.distinct
        have fewer := List.Subperm.length_le (List.Nodup.subperm nodup sub)
        omega

/-- Raising a window shuts nothing out that passes afterwards. -/
theorem Fresh.before_raise {anchor anchor' : AnchorFile} {other : Uuid}
    {committed inFlight epochFloor : Option Nat}
    (saved : anchorUpsert other committed inFlight epochFloor (anchorLoad dek anchor).2 =
      some (anchorLoad dek anchor').2) (fresh : Fresh dek anchor' uuid gen) :
    Fresh dek anchor uuid gen := by
  have found := find_anchorUpsert saved uuid
  refine ⟨?_, ?_⟩
  · have passed := fresh.1
    rw [anchorEntry, found] at passed
    rw [anchorEntry]
    split at passed
    · next same =>
        subst same
        cases held : (anchorLoad dek anchor).2.find uuid with
        | none => rfl
        | some e =>
            rw [held, Option.getD_some, freshnessGate_ok] at passed
            rw [freshnessGate_ok]
            have raised : e.committed ≤ (e.raise committed inFlight epochFloor).committed ∧
                e.epochFloor ≤ (e.raise committed inFlight epochFloor).epochFloor := by
              cases committed <;> cases epochFloor <;> simp [AnchorEntry.raise]
            omega
    · exact passed
  · apply anchorUpsert_ne_none.mpr
    by_cases present : other ∈ (anchorLoad dek anchor).2.entries.map fun e => e.uuid
    · obtain ⟨next, saved', entries⟩ := anchorUpsert_of_mem committed inFlight epochFloor
        present
      rw [saved, Option.some.injEq] at saved'
      have room := anchorUpsert_ne_none.mp fresh.2
      rw [saved', entries, map_uuid_raiseFirst (fun e => raise_uuid e _ _ _),
        length_raiseFirst] at room
      exact room
    · right
      exact (anchorUpsert_ne_none.mp (saved ▸ Option.some_ne_none _)).resolve_left present

end Windows

section Serving

variable {pool : Pool} {dek newDek : Dek} {st st' : Stored} {name : FileName} {image : List Block}
  {dbNames : List FileName}

/-- What a database serves is read from its three files and the anchor. -/
theorem ServesOn.transfer (main : st'.disk name = st.disk name)
    (manifest : st'.disk (manifestName name) = st.disk (manifestName name))
    (journal : st'.disk (journalName name) = st.disk (journalName name))
    (window : ∀ uuid gen, Fresh dek st.anchor uuid gen → Fresh dek st'.anchor uuid gen)
    (serves : ServesOn dek st name image) : ServesOn dek st' name image := by
  obtain ⟨data, uuid, payload, held, reads, fresh, verified, decrypted⟩ := serves
  refine ⟨data, uuid, payload, main.trans held, ?_, window _ _ fresh, ?_, decrypted⟩
  · rw [manifestOn, manifest]
    exact reads
  · intro sized
    have checked := verified sized
    simp only [hotOn, replayOn, journal] at checked ⊢
    exact checked

/-- If the database has a hot journal, its main file passes the checks without it. -/
def ServedAlone (dek : Dek) (disk : Disk) (name : FileName) : Prop :=
  ∀ data uuid payload, disk name = some data →
    manifestOn dek disk (manifestName name) = .ok (uuid, payload) →
    hotOn disk name (.dbKey dek uuid) uuid = true → 0 < data.size →
    (checkLayout data name (.dbKey dek uuid) uuid payload false).isOk = true ∧
      ∃ image, imageOf data name (.dbKey dek uuid) uuid = some image ∧ RootAccepted payload image

theorem endsWith_journalName (name : FileName) : endsWith (journalName name) journalSuffix = true :=
  endsWith_append name journalSuffix

theorem isStaging_journalName : isStaging (journalName name) = false := by
  have ends := endsWith_journalName name
  rw [isStaging, not_endsWith_of_endsWith ends (by decide), Bool.false_or, decide_eq_false_iff_not]
  intro same
  rw [same] at ends
  exact absurd ends (by decide)

theorem journalName_not_resealed (dbs : ∀ db ∈ dbNames, endsWith db dbSuffix = true)
    (image : Region) : ¬ Resealed pool newDek dbNames (journalName name) image := by
  rintro ⟨db, named, files, ok, member⟩
  have ends := endsWith_journalName name
  cases mem_resealDbCiphertext ok member with
  | inl main =>
      rw [main, not_endsWith_of_endsWith (dbs db named) (by decide)] at ends
      exact Bool.noConfusion ends
  | inr manifest =>
      have apart : endsWith (manifestName db) journalSuffix = false :=
        not_endsWith_of_endsWith (endsWith_append db manifestSuffix) (by decide)
      rw [manifest, apart] at ends
      exact Bool.noConfusion ends

/-- A journal that nothing opens under the DEK is not hot. -/
theorem Unseen.not_hot (unseen : Unseen newDek st) {uuid : Uuid} :
    hotOn st.disk name (.dbKey newDek uuid) uuid = false := by
  unfold hotOn journalIsHot
  cases held : st.disk (journalName name) with
  | none => rfl
  | some journal =>
      cases first : journal.cells[0]? with
      | none => simp only [first]
      | some cell =>
          simp only [first, unseen.cells _ _ held cell (List.mem_of_getElem? first)]

/-- A finished roll-forward leaves the main file's blocks and the manifest's payload
under the new DEK, with no hot journal beside them. -/
theorem Rolled.rekeyed (dbs : ∀ db ∈ dbNames, endsWith db dbSuffix = true) (wf : pool.Wf)
    (unseen : Unseen newDek pool.stored) (rolled : Rolled pool newDek dbNames st)
    (named : name ∈ dbNames) {files : List (FileName × Region)}
    (ok : resealDbCiphertext name newDek pool = .ok files)
    {data : Region} {uuid : Uuid} {payload : ManifestPayload}
    (held : pool.content name = some data)
    (reads : manifestOn pool.dek pool.content (manifestName name) = .ok (uuid, payload)) :
    hotOn st.disk name (.dbKey newDek uuid) uuid = false ∧
      manifestOn newDek st.disk (manifestName name) = .ok (uuid, payload) ∧
      ∃ resealed, resealBlocks (.dbKey pool.dek uuid) (.dbKey newDek uuid) (fileIdFor name) uuid 0
        data.cells = .ok resealed ∧ st.disk name = some (.blocks resealed 0) := by
  have resealedFile : ∀ other region, (other, region) ∈ files → st.disk other = some region :=
    fun other region member => rolled.adopted other region ⟨name, named, files, ok, member⟩
  obtain ⟨uuid', slots, manifest, found⟩ := resealDbCiphertext_ok ok
  -- the manifest that was re-sealed is the one the old DEK reads
  have region : pool.content (manifestName name) = some (.manifest ⟨uuid', slots⟩) := by
    obtain ⟨data', present⟩ := wf.hasFilename_iff.mp (hasFilename_of_exportRaw manifest)
    rw [wf.exportRaw_eq present, Except.ok.injEq] at manifest
    rw [present, manifest]
  have pick : uuid' = uuid ∧ manifestPick pool.dek (manifestName name) ⟨uuid', slots⟩ = some payload := by
    unfold manifestOn at reads
    rw [region] at reads
    simp only at reads
    split at reads
    · next payload' picked =>
        rw [Except.ok.injEq, Prod.mk.injEq] at reads
        exact ⟨reads.1, picked.trans (congrArg some reads.2)⟩
    · cases reads
  obtain ⟨rfl, picked⟩ := pick
  cases found with
  | inl absent =>
      have present := wf.hasFilename_iff.mpr ⟨data, held⟩
      rw [absent.1] at present
      exact Bool.noConfusion present
  | inr both =>
      obtain ⟨raw, resealed, _, main, blocks, rfl⟩ := both
      rw [wf.exportRaw_eq held, Except.ok.injEq] at main
      subst main
      have newManifest := resealedFile _ _ (List.mem_cons_of_mem _ List.mem_cons_self)
      refine ⟨?_, ?_, resealed, blocks, resealedFile name _ List.mem_cons_self⟩
      · rw [hotOn, rolled.others _ isStaging_journalName (journalName_not_resealed dbs)]
        exact unseen.not_hot
      · unfold manifestOn
        rw [newManifest]
        simp only [manifestPick_resealSlots fun sealed member aad =>
          unseen.slots _ _ region sealed member uuid' aad, picked]

/-- It serves under the new DEK what was served under the old one, where no journal had
to be played back for it. -/
theorem Rolled.serves (dbs : ∀ db ∈ dbNames, endsWith db dbSuffix = true) (wf : pool.Wf)
    (unseen : Unseen newDek pool.stored) (rolled : Rolled pool newDek dbNames st)
    (named : name ∈ dbNames) {files : List (FileName × Region)}
    (ok : resealDbCiphertext name newDek pool = .ok files)
    (alone : ServedAlone pool.dek pool.content name)
    (serves : ServesOn pool.dek pool.stored name image) : ServesOn newDek st name image := by
  obtain ⟨data, uuid, payload, held, reads, fresh, verified, decrypted⟩ := serves
  obtain ⟨cold, reads', resealed, blocks, newMain⟩ :=
    rolled.rekeyed dbs wf unseen named ok held reads
  refine ⟨.blocks resealed 0, uuid, payload, newMain, reads', ?_, ?_, ?_⟩
  · exact fresh.of_same rolled.anchor rolled.carried
  · intro sized
    have sized' := size_of_resealed blocks sized
    simp only [cold, Bool.false_eq_true, if_false]
    rw [checkLayout_resealed blocks sized, imageOf_resealed blocks]
    cases hot : hotOn pool.content name (.dbKey pool.dek uuid) uuid with
    | true => exact alone data uuid payload held reads hot sized'
    | false =>
        have checked := verified sized'
        rw [show pool.stored.disk = pool.content from rfl, hot] at checked
        exact checked
  · rw [imageOf_resealed blocks]
    exact decrypted

end Serving

/-- The committed contents: what the playback of a hot journal gives, else the main
file's blocks. -/
def committedImage (dek : Dek) (disk : Disk) (name : FileName) (data : Region) (uuid : Uuid) :
    Option (List Block) :=
  if 0 < data.size ∧ hotOn disk name (.dbKey dek uuid) uuid = true then
    replayOn disk name (.dbKey dek uuid) uuid data
  else imageOf data name (.dbKey dek uuid) uuid

/-- The database opens as `uuid`, its manifest says `payload` (generation, roots and
lengths) and `image` is what it has committed. -/
structure Means (freshUuid : Uuid) (name : FileName) (uuid : Uuid) (payload : ManifestPayload)
    (image : List Block) (pool : Pool) : Prop where
  manifest : pool.readManifest (manifestName name) = .ok (uuid, payload)
  opens : ((openMainDb freshUuid name) pool).result = .ok ()
  committed : ∃ data, pool.content name = some data ∧
    committedImage pool.dek pool.content name data uuid = some image

/-- If the database has a hot journal, its main file already holds the played back
image and passes the layout check. -/
def ReplayedInPlace (pool : Pool) (name : FileName) (uuid : Uuid) (payload : ManifestPayload)
    (image : List Block) : Prop :=
  ∀ data, pool.content name = some data → 0 < data.size →
    hotOn pool.content name (.dbKey pool.dek uuid) uuid = true →
    imageOf data name (.dbKey pool.dek uuid) uuid = some image ∧
      (data.cells ≠ [] → (checkLayout data name (.dbKey pool.dek uuid) uuid payload false).isOk = true)

section Meaning

variable {pool q : Pool} {dek newDek : Dek} {st : Stored} {name : FileName} {uuid freshUuid : Uuid}
  {payload : ManifestPayload} {image : List Block} {dbNames : List FileName}

theorem means_iff (live : q.Live dek st) : Means freshUuid name uuid payload image q ↔
    manifestOn dek st.disk (manifestName name) = .ok (uuid, payload) ∧
      ∃ data, st.disk name = some data ∧ Fresh dek st.anchor uuid payload.dbGeneration ∧
        Verified dek st.disk name data uuid payload ∧
        committedImage dek st.disk name data uuid = some image := by
  have content : q.content = st.disk := live.content_eq
  constructor
  · rintro ⟨manifest, opens, data, held, committed⟩
    rw [live.readManifest_eq] at manifest
    rw [content, live.dek_eq] at committed
    rw [content] at held
    have done := (meets_openMainDb freshUuid (fun _ => True) live held manifest trivial
      fun _ _ => trivial).ok opens
    exact ⟨manifest, data, held, done.fresh, done.verified, committed⟩
  · rintro ⟨manifest, data, held, fresh, verified, committed⟩
    refine ⟨(live.readManifest_eq _).trans manifest, ?_, data, content ▸ held, ?_⟩
    · have met := meets_openMainDb freshUuid (fun _ => True) live held manifest trivial
        fun _ _ => trivial
      cases result : ((openMainDb freshUuid name) q).result with
      | error e => exact absurd ⟨fresh, verified⟩ (met.error result).1
      | ok _ => rfl
    · rw [content, live.dek_eq]
      exact committed

/-- A database keeps its meaning through a roll-forward exactly where its journal had
nothing left to play back. -/
theorem Rolled.means_iff (dbs : ∀ db ∈ dbNames, endsWith db dbSuffix = true) (wf : pool.Wf)
    (unseen : Unseen newDek pool.stored) (rolled : Rolled pool newDek dbNames st)
    (named : name ∈ dbNames) {files : List (FileName × Region)}
    (ok : resealDbCiphertext name newDek pool = .ok files) (live : q.Live newDek st)
    (before : Means freshUuid name uuid payload image pool) :
    Means freshUuid name uuid payload image q ↔ ReplayedInPlace pool name uuid payload image := by
  have here : pool.Live pool.dek pool.stored := ⟨wf, rfl, rfl⟩
  obtain ⟨reads, data, held, fresh, verified, committed⟩ := (Pool.means_iff here).mp before
  change pool.content name = some data at held
  change Verified pool.dek pool.content name data uuid payload at verified
  change committedImage pool.dek pool.content name data uuid = some image at committed
  obtain ⟨cold, reads', resealed, blocks, newMain⟩ :=
    rolled.rekeyed dbs wf unseen named ok held reads
  have coldImage : committedImage newDek st.disk name (.blocks resealed 0) uuid =
      imageOf data name (.dbKey pool.dek uuid) uuid := by
    rw [committedImage, cold, if_neg fun both => Bool.noConfusion both.2, imageOf_resealed blocks]
  rw [Pool.means_iff live]
  constructor
  · rintro ⟨_, data', held', _, verified', committed'⟩ data'' held'' sized hot
    rw [newMain, Option.some.injEq] at held'
    subst held'
    rw [show pool.content name = some data from held, Option.some.injEq] at held''
    subst held''
    rw [coldImage] at committed'
    refine ⟨committed', ?_⟩
    intro some_block
    have sized' : 0 < (Region.blocks resealed 0).size := by
      have positive : 0 < physBlock := by decide
      rw [Region.size, length_resealBlocks blocks]
      exact Nat.add_pos_left (Nat.mul_pos (List.length_pos_iff.mpr some_block) positive) _
    have checked := verified' sized'
    simp only [cold, Bool.false_eq_true, if_false] at checked
    rw [checkLayout_resealed blocks sized'] at checked
    exact checked.1
  · intro replayed
    refine ⟨reads', _, newMain, fresh.of_same rolled.anchor rolled.carried, ?_, ?_⟩
    · intro sized
      have sized' := size_of_resealed blocks sized
      have checked := verified sized'
      simp only [cold, Bool.false_eq_true, if_false]
      rw [checkLayout_resealed blocks sized, imageOf_resealed blocks]
      cases hot : hotOn pool.content name (.dbKey pool.dek uuid) uuid with
      | false =>
          rw [hot] at checked
          exact checked
      | true =>
          obtain ⟨decrypted, layout⟩ := replayed data held sized' hot
          have some_block : data.cells ≠ [] := by
            intro none_left
            rw [none_left] at blocks
            cases blocks
            exact absurd sized (by decide)
          refine ⟨layout some_block, image, decrypted, ?_⟩
          rw [hot, if_pos rfl] at checked
          rw [committedImage, if_pos ⟨sized', hot⟩] at committed
          intro rooted
          obtain ⟨image', replays, accepted⟩ := checked rooted
          rw [committed, Option.some.injEq] at replays
          exact replays ▸ accepted
    · rw [coldImage]
      by_cases played : 0 < data.size ∧ hotOn pool.content name (.dbKey pool.dek uuid) uuid = true
      · exact (replayed data held played.1 played.2).1
      · rw [committedImage, if_neg played] at committed
        exact committed

end Meaning

/-- A rotation as the next unlock finishes it: staged under the old DEK, the pool
acquired under the new one and rolled forward. -/
def rotateThrough (order order' : IterOrder) (newDek : Dek) (oldGen newGen : Nat) (pool : Pool) :
    Outcome Pool OpfsSAHError (Option String) :=
  (recoverRotation order')
    (((stageRotation newDek (databases order pool) oldGen newGen) pool).state.reopen newDek)

section Through

variable {pool : Pool} {order order' : IterOrder} {newDek : Dek} {oldGen newGen : Nat}

theorem rotateThrough_rolled (order' : IterOrder) (wf : pool.Wf) (disarmed : pool.content rotIntentName = none)
    (unseen : Unseen newDek pool.stored) (fresh : newDek ≠ pool.dek)
    (stages : ((stageRotation newDek (databases order pool) oldGen newGen) pool).result = .ok ()) :
    let through := rotateThrough order order' newDek oldGen newGen pool
    through.result.isOk = true ∧ (∀ db ∈ databases order pool, ∃ files,
      resealDbCiphertext db newDek pool = .ok files) ∧
      ∃ st, through.state.Live newDek st ∧ Rolled pool newDek (databases order pool) st := by
  intro through
  have dbs := endsWith_databases order pool
  obtain ⟨st, live, staged⟩ := (meets_stageRotation oldGen newGen wf disarmed dbs fresh).ok stages
  have line : NewLine pool newDek (databases order pool) st st :=
    Or.inl (staged.rolling unseen.anchor)
  have whole : ShadowsWhole pool newDek (databases order pool) st.disk := by
    intro name image resealed emptied
    rw [staged.shadow resealed] at emptied
    exact Option.some.inj emptied
  have acquired := live_reopen
    ((stageRotation newDek (databases order pool) oldGen newGen) pool).state newDek
  rw [live.stored_eq] at acquired
  have recovers := meets_recoverRotation_new order' dbs (hasFilename_databases order pool) wf live
    staged acquired line whole
  obtain ⟨note, ok, st', live', rolled, _⟩ := recovers.total
  refine ⟨?_, ?_, st', live', rolled⟩
  · rw [show through.result = .ok note from ok]
    rfl
  · intro db named
    obtain ⟨files, sealedOk, _⟩ := staged.staged db named
    exact ⟨files, sealedOk⟩

/-- A rotation keeps every freshness window, and the meaning of a database exactly where
its journal had nothing left to play back. -/
theorem rotation_keeps_meaning (wf : pool.Wf) (disarmed : pool.content rotIntentName = none)
    (unseen : Unseen newDek pool.stored) (fresh : newDek ≠ pool.dek)
    (stages : ((stageRotation newDek (databases order pool) oldGen newGen) pool).result = .ok ()) :
    let through := rotateThrough order order' newDek oldGen newGen pool
    through.result.isOk = true ∧ through.state.dek = newDek ∧
      (∀ uuid, anchorEntry newDek through.state.anchor uuid = anchorEntry pool.dek pool.anchor uuid) ∧
      ∀ name ∈ databases order pool, ∀ freshUuid uuid payload image,
        Means freshUuid name uuid payload image pool →
        (Means freshUuid name uuid payload image through.state ↔
          ReplayedInPlace pool name uuid payload image) := by
  intro through
  obtain ⟨ok, reseals, st, live, rolled⟩ :=
    rotateThrough_rolled order' wf disarmed unseen fresh stages
  refine ⟨ok, live.dek_eq, ?_, ?_⟩
  · intro uuid
    rw [show through.state.anchor = st.anchor from live.anchor_eq]
    exact find_eq_of_same rolled.anchor rolled.carried
  · intro name named freshUuid uuid payload image before
    obtain ⟨files, sealedOk⟩ := reseals name named
    exact rolled.means_iff (endsWith_databases order pool) wf unseen named sealedOk live before

end Through

theorem rotation_keeps_meaning_sample :
    let through := rotateThrough keyOrder keyOrder 2 1 2 samplePool
    through.result.isOk = true ∧ through.state.dek = 2 ∧
      (∀ uuid, anchorEntry 2 through.state.anchor uuid = anchorEntry 1 samplePool.anchor uuid) ∧
      ∀ name ∈ databases keyOrder samplePool, ∀ freshUuid uuid payload image,
        Means freshUuid name uuid payload image samplePool →
        (Means freshUuid name uuid payload image through.state ↔
          ReplayedInPlace samplePool name uuid payload image) :=
  rotation_keeps_meaning samplePool_wf
    (samplePool_wf.clean_content samplePool_clean _ isStaging_rotIntentName)
    (Unseen.of_keys (by decide +kernel) (by decide +kernel)) (by decide) (by decide +kernel)

/-- The first block of a journal that records no page, of a database that had
`initPages` pages. -/
def bareHeader (initPages : UInt8) : Block :=
  ⟨⟨journalMagic ++ List.replicate 8 0 ++ [0, 0, 0, initPages] ++ [0, 0, 16, 0] ++ [0, 0, 16, 0] ++
    List.replicate (blockSize - 28) 0⟩, by
      simp only [List.size_toArray, List.length_append, List.length_replicate]
      rfl⟩

/-- A file of the sample database, its blocks sealed in their places. -/
def sampleBlocks (name : FileName) (image : List Block) : Region :=
  .blocks (image.zipIdx.map fun entry =>
    .sealed (.dbKey 1 7) (.block (fileIdFor name) 7 entry.2) entry.1) 0

/-- The sample pool after a crash in a transaction that had added a page to the database:
its journal is still hot. -/
def sampleGrown : Pool :=
  let db : FileName := ['a', '.', 'd', 'b']
  let grown := setData db
    (sampleBlocks db [Vector.replicate blockSize 1, Vector.replicate blockSize 2]) samplePool
  let journal : SyncAccessFile :=
    { pooled 1 with
      header := some ⟨journalName db, by decide⟩
      data := sampleBlocks (journalName db) [bareHeader 1] }
  ({ grown with files := grown.files.insert (journalName db) journal } : Pool).reopen 1

theorem bareHeader_header :
    journalHeader (bytesOf [bareHeader 1]) 0 = some ⟨0, 0, 1, blockSize, blockSize⟩ := by
  decide +kernel

theorem length_bytesOf (image : List Block) : (bytesOf image).length = blockSize * image.length := by
  induction image with
  | nil => rfl
  | cons block rest ih =>
      rw [bytesOf, List.flatMap_cons, List.length_append, ← bytesOf, ih, Vector.length_toList,
        List.length_cons, Nat.mul_add_one, Nat.add_comm]

theorem imageOf_sampleBlocks (name : FileName) (image : List Block) :
    imageOf (sampleBlocks name image) name (.dbKey 1 7) 7 = some image := by
  have opened : ∀ k, decryptCells (.dbKey 1 7) 7 (fileIdFor name) k
      ((image.zipIdx k).map fun entry =>
        .sealed (.dbKey 1 7) (.block (fileIdFor name) 7 entry.2) entry.1) = .ok image := by
    induction image with
    | nil => exact fun _ => rfl
    | cons block rest ih =>
        intro k
        simp only [List.zipIdx_cons, List.map_cons, decryptCells, Aead.openWith_sealed, ih]
        rfl
  rw [imageOf_eq_some]
  exact opened 0

theorem sampleGrown_played : replayOn sampleGrown.content ['a', '.', 'd', 'b'] (.dbKey 1 7) 7
    (sampleBlocks ['a', '.', 'd', 'b'] [Vector.replicate blockSize 1, Vector.replicate blockSize 2]) =
      some [Vector.replicate blockSize 1] := by
  have journal : sampleGrown.content (journalName ['a', '.', 'd', 'b']) =
      some (sampleBlocks (journalName ['a', '.', 'd', 'b']) [bareHeader 1]) := by
    with_unfolding_all rfl
  have played := imageOf_sampleBlocks (journalName ['a', '.', 'd', 'b']) [bareHeader 1]
  have main := imageOf_sampleBlocks ['a', '.', 'd', 'b']
    [Vector.replicate blockSize 1, Vector.replicate blockSize 2]
  rw [imageOf_eq_some] at played main
  have short : (bytesOf [bareHeader 1]).length = blockSize := by
    rw [length_bytesOf]
    rfl
  have replayed : replayJournal (bytesOf [bareHeader 1])
      [Vector.replicate blockSize 1, Vector.replicate blockSize 2] =
        .ok [Vector.replicate blockSize 1] := by
    rw [replayJournal_bare bareHeader_header rfl rfl short]
    simp
  rw [replayOn, journal]
  simp only [replayData, played, main, toOption_eq_some, except_bind_ok, Except.ok.injEq]
  exact ⟨_, rfl, _, rfl, replayed⟩

theorem sampleGrown_hot :
    hotOn sampleGrown.content ['a', '.', 'd', 'b'] (.dbKey 1 7) 7 = true := by
  decide +kernel

theorem sampleGrown_manifest : manifestOn 1 sampleGrown.content (manifestName ['a', '.', 'd', 'b']) =
    .ok (7, ⟨1, 7, rootOf [Vector.replicate blockSize 1], .zero, []⟩) := by
  with_unfolding_all rfl

theorem sampleGrown_main : sampleGrown.content ['a', '.', 'd', 'b'] =
    some (sampleBlocks ['a', '.', 'd', 'b'] [Vector.replicate blockSize 1, Vector.replicate blockSize 2]) := by
  with_unfolding_all rfl

/-- The database means its one committed page before the rotation and is refused after
it: the journal that gave the page back is left behind under the old DEK. -/
theorem rotation_strands_hot_journal :
    ((stageRotation 2 (databases keyOrder sampleGrown) 1 2) sampleGrown).result = .ok () ∧
      ['a', '.', 'd', 'b'] ∈ databases keyOrder sampleGrown ∧
      Means 0 ['a', '.', 'd', 'b'] 7 ⟨1, 7, rootOf [Vector.replicate blockSize 1], .zero, []⟩
        [Vector.replicate blockSize 1] sampleGrown ∧
      ((openMainDb 0 ['a', '.', 'd', 'b'])
        (rotateThrough keyOrder keyOrder 2 1 2 sampleGrown).state).result ≠ .ok () := by
  have wf : sampleGrown.Wf := Wf.reopen
  have stages : ((stageRotation 2 (databases keyOrder sampleGrown) 1 2) sampleGrown).result = .ok () := by
    decide +kernel
  have named : ['a', '.', 'd', 'b'] ∈ databases keyOrder sampleGrown := by
    decide +kernel
  have apart : [Vector.replicate blockSize (1 : UInt8), Vector.replicate blockSize 2] ≠
      [Vector.replicate blockSize 1] := by simp
  refine ⟨stages, named, ?_, ?_⟩
  · have live : sampleGrown.Live 1 sampleGrown.stored := ⟨wf, rfl, rfl⟩
    rw [means_iff live]
    refine ⟨sampleGrown_manifest, _, sampleGrown_main, ⟨by decide +kernel, by decide +kernel⟩, ?_, ?_⟩
    · intro _
      rw [show sampleGrown.stored.disk = sampleGrown.content from rfl, if_pos sampleGrown_hot]
      intro _
      exact ⟨_, sampleGrown_played, accepts_iff.mpr (Or.inl rfl)⟩
    · rw [committedImage, if_pos]
      · exact sampleGrown_played
      · exact ⟨by decide +kernel, sampleGrown_hot⟩
  · have unseen : Unseen 2 sampleGrown.stored := Unseen.of_keys (by decide +kernel) (by decide +kernel)
    obtain ⟨_, reseals, st, live, rolled⟩ := rotateThrough_rolled keyOrder wf (by decide +kernel) unseen
      (by decide) stages
    obtain ⟨files, ok⟩ := reseals _ named
    obtain ⟨cold, reads, resealed, blocks, newMain⟩ := rolled.rekeyed (endsWith_databases keyOrder
      sampleGrown) wf unseen named ok sampleGrown_main sampleGrown_manifest
    intro opens
    have done := (meets_openMainDb 0 (fun _ => True) live newMain reads trivial
      fun _ _ => trivial).ok opens
    have checked := done.verified (by
      rw [Region.size, length_resealBlocks blocks]
      decide +kernel)
    rw [cold] at checked
    simp only [Bool.false_eq_true, if_false, imageOf_resealed blocks] at checked
    obtain ⟨_, image, decrypted, accepted⟩ := checked
    rw [show sampleGrown.dek = 1 from rfl, imageOf_sampleBlocks, Option.some.injEq] at decrypted
    subst decrypted
    have roots := accepts_iff.mp (accepted (rootOf_ne_zero _))
    cases roots with
    | inl same => exact apart (rootOf_injective same)
    | inr same => exact rootOf_ne_zero _ same

end Pool

end Freehold
