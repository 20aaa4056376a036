import Freehold.SyncedImages

set_option autoImplicit false

/- A bundle of a vault, imported on another device and unlocked there. -/
namespace Freehold

open CrashLogic
open Cursor (Slice)

namespace Pool

section Anchor

variable {pool : Pool} {files : BundleFiles} {anchor : AnchorFile}

/-- An import leaves the windows alone. -/
theorem keeps_anchor_importEach : Keeps (fun q : Pool => q.anchor = anchor) (importEach files) :=
  keeps_importEach (fun _ _ _ same => same) (fun _ _ same => unmapSlot_anchor.trans same)
    fun _ _ _ same => mapSlot_anchor.trans same

theorem anchor_freed (names : List FileName) : (pool.freed names).anchor = pool.anchor := by
  induction names generalizing pool with
  | nil => rfl
  | cons name rest ih => exact ih.trans unmapSlot_anchor

end Anchor

/-- The directory after an import that succeeds. -/
theorem content_importEach {files : BundleFiles} (legal : ∀ file ∈ files, validPoolFilename file.1 = true)
    {pool : Pool} (cleared : pool.Cleared) (ended : (importEach files pool).result = .ok ()) :
    (importEach files pool).state.content = importedDisk files pool.content := by
  induction files generalizing pool with
  | nil => rfl
  | cons file rest ih =>
      let header : HeaderName := ⟨file.1, fits_of_valid (legal file List.mem_cons_self)⟩
      by_cases room : pool.hasFilename header.name = true ∨ pool.available ≠ []
      · have ran : (importEach (file :: rest) pool).state = (importEach rest (pool.put header file.2)).state ∧
            (importEach (file :: rest) pool).result = (importEach rest (pool.put header file.2)).result := by
          rw [importEach_cons, Prog.bind_of_ok (importCiphertextFile_run header room)]
          exact ⟨rfl, rfl⟩
        rw [ran.2] at ended
        rw [ran.1, ih (fun other listed => legal other (List.mem_cons_of_mem _ listed)) cleared.put ended,
          put_content cleared header room]
        rfl
      · rw [not_or, Bool.not_eq_true, not_not] at room
        rw [importEach_cons, Prog.bind_of_error (importCiphertextFile_full header room.1 room.2)] at ended
        cases ended

end Pool

namespace ImportHost

variable {order : IterOrder} {vault : Vault} {region : List UInt8 → Region} {width : Nat} {bytes : Slice width}
  {bundle : BundleWire.Bundle}

theorem cleared_anchor : (cleared order vault).anchor = vault.pool.anchor := by
  rw [cleared, Pool.foldl_installWrites]
  exact Pool.anchor_freed _

/-- The vault a bundle has been imported into. -/
theorem importBundle_ok (locked : vault.unlocked = false) (decoded : BundleWire.decode bytes = .ok bundle) :
    let files := filesOf region bundle
    ((importBundle order region bytes ⟨vault, false⟩).result = .ok () ↔ vault.pool.Accepts files) ∧
      ((importBundle order region bytes ⟨vault, false⟩).result = .ok () → ∃ q,
        (importBundle order region bytes ⟨vault, false⟩).state = ⟨vault.withPool q, false⟩ ∧
          q.anchor = vault.pool.anchor ∧ q.content = Pool.importedDisk files fun _ => none) := by
  intro files
  obtain ⟨passed, state, result, shape, _, _, accepted, rejected⟩ :=
    @importBundle_locked order vault region _ _ _ locked decoded
  have blank := @blank_cleared order vault
  have accepts : (importBundle order region bytes ⟨vault, false⟩).result = .ok () ↔ vault.pool.Accepts files := by
    rw [shape]
    refine ⟨fun ended => ?_, accepted⟩
    by_contra refused
    obtain ⟨e, failed, _⟩ := rejected refused
    cases ended.symm.trans failed
  refine ⟨accepts, fun ended => ?_⟩
  have taken := accepts.mp ended
  obtain ⟨before, installed, _, _⟩ := @install_locked order _ locked
  have imported := (Pool.importFiles_ok_iff blank).mpr taken
  rw [Pool.importFiles_legal taken.1] at imported
  let opened : ImportHost := ⟨vault.withPool (cleared order vault), true⟩
  let ran := Pool.importEach files (cleared order vault)
  have run : Pool.importFiles files (cleared order vault) = ⟨ran.passed, ran.state, .ok ()⟩ := by
    rw [Pool.importFiles_legal taken.1, ← imported]
  have copied := @onPool_of_run "import" (Pool.importFiles files) opened _ _ _ run
  refine ⟨ran.state, ?_, ?_, ?_⟩
  · unfold importBundle
    rw [decoded]
    dsimp only
    rw [Prog.bind_of_ok installed, Prog.bind_of_ok copied]
    rfl
  · exact ((Pool.keeps_anchor_importEach (cleared order vault) rfl).ok imported).trans cleared_anchor
  · rw [Pool.content_importEach taken.1 blank.cleared imported]
    congr 1
    funext name
    exact Pool.content_of_lacks (blank.empty name)

end ImportHost

namespace VaultSession

/-- A vault without a file. -/
def empty (dek : Dek) (anchor : AnchorFile) : VaultSession := ⟨⟨dek, ∅, [], anchor, ∅⟩, fun _ => [], fun _ => .sealed⟩

section Empty

variable {dek : Dek} {anchor : AnchorFile} {s : VaultSession} {pending : Finset Uuid} {stem : Stem} {uuid : Uuid}

theorem empty_content : (empty dek anchor).pool.content = fun _ => none := by
  funext name
  rw [Pool.content, empty, Std.ExtTreeMap.getElem?_empty, Option.bind_none]

theorem empty_unread : ¬uuidOf (empty dek anchor).pool stem uuid := by
  rintro ⟨payload, read⟩
  obtain ⟨mfile, _, found, _⟩ := Pool.readManifest_file read
  cases Std.ExtTreeMap.getElem?_empty.symm.trans found

theorem empty_kept : (empty dek anchor).Kept ∅ := by
  have missing (name : FileName) : (empty dek anchor).pool.files[name]? = none := Std.ExtTreeMap.getElem?_empty
  have wf : (empty dek anchor).pool.Wf := by
    refine ⟨fun name file found => ?_, fun name file found => ?_, fun slot free => ?_⟩
    · cases (missing name).symm.trans found
    · cases (missing name).symm.trans found
    · cases free
  have new (stem : Stem) : (empty dek anchor).pool.New stem.db :=
    ⟨fun _ _ => Std.ExtTreeMap.getElem?_empty, Std.ExtTreeMap.getElem?_empty⟩
  refine ⟨fun stem => .inl ⟨wf, (new stem).onDisk wf, (new stem).shut, rfl, .inl ⟨new stem, rfl⟩⟩, ?_, ?_, ?_⟩
  · exact fun stem uuid found => absurd found empty_unread
  · exact fun stem other uuid found _ => absurd found empty_unread
  · rw [Finset.union_empty]
    exact Pool.card_windowed _

/-- An empty vault receives what one with the same anchor does. -/
theorem Receives.of_anchor {r : VaultSession} (fits : Receives s r pending) :
    Receives s (empty s.pool.dek r.pool.anchor) pending := by
  have same : (empty s.pool.dek r.pool.anchor).pool.windowed = r.pool.windowed := by
    rw [Pool.windowed, Pool.windowed, fits.dek]
    rfl
  refine ⟨rfl, fun stem uuid payload read => ?_, fun _ _ _ => ?_, fun _ _ _ _ held => absurd held empty_unread,
    fits.listed, same ▸ fits.room⟩
  · have passes := fits.passes stem uuid payload read
    rw [Pool.window, fits.dek] at passes
    exact passes
  · rw [Pool.hotOn, empty_content]

/-- A window raised to a generation lets through what it let through from there on. -/
theorem passes_raised {found : Option AnchorEntry} {gen now : Nat}
    (passes : Pool.freshnessGate found now = .ok ()) (reached : gen ≤ now) :
    Pool.freshnessGate (some ((found.getD ⟨uuid, 0, 0, 0⟩).raise (some gen) (some gen) (some gen))) now =
      .ok () := by
  apply Pool.freshnessGate_ok.mpr
  cases found with
  | none => simp [AnchorEntry.raise]; omega
  | some e =>
      have bounds := Pool.freshnessGate_ok.mp passes
      simp [AnchorEntry.raise]
      omega

/-- What a token of the vault attests lets its databases through. -/
theorem Receives.attested (fits : Receives s (empty s.pool.dek anchor) pending) {payload : ManifestPayload}
    (read : s.pool.readManifest (manifestName stem.db.name) = .ok (uuid, payload)) {table : AnchorTable}
    {gen : Nat} (same : gen = payload.dbGeneration) {later : AnchorFile}
    (saved : anchorUpsert uuid (some gen) (some gen) (some gen) (anchorLoad s.pool.dek anchor).2 = some table)
    (loaded : (anchorLoad s.pool.dek later).2 = table) (unique : Windowed ∅ s.pool) :
    Receives s (empty s.pool.dek later) pending := by
  have found := find_anchorUpsert saved
  refine ⟨rfl, fun other mine payload' held => ?_, fun _ _ _ => ?_, fun _ _ _ _ held => absurd held empty_unread,
    fits.listed, ?_⟩
  · have passes := fits.passes other mine payload' held
    show Pool.freshnessGate ((anchorLoad s.pool.dek later).2.find mine) _ = _
    rw [loaded, found]
    split
    · next mine_is =>
        subst mine_is
        obtain rfl := unique.apart other stem mine ⟨payload', held⟩ ⟨payload, read⟩
        rw [read] at held
        obtain rfl := (Prod.mk.inj (Except.ok.inj held)).2
        exact passes_raised passes (same ▸ Nat.le_refl _)
    · exact passes
  · rw [Pool.hotOn, empty_content]
  · have grown : (empty s.pool.dek later).pool.windowed ⊆ insert uuid (empty s.pool.dek anchor).pool.windowed := by
      show (anchorLoad s.pool.dek later).2.uuids ⊆ _
      rw [loaded]
      exact AnchorTable.uuids_subset saved
    have inside : (empty s.pool.dek later).pool.windowed ∪ pending ⊆
        (empty s.pool.dek anchor).pool.windowed ∪ pending := by
      apply Finset.union_subset _ Finset.subset_union_right
      exact grown.trans (Finset.insert_subset
        (Finset.mem_union_right _ (fits.listed stem uuid ⟨payload, read⟩)) Finset.subset_union_left)
    exact (Finset.card_le_card inside).trans fits.room

end Empty

end VaultSession

namespace Vault

variable {vault : Vault} {order : IterOrder} {dek : Dek} {env : Envelope} {epoch : Option (SealedBytes (List UInt8))}

/-- A session of a directory no rotation is staged in: only a token moves the anchor. -/
theorem meets_sessionBegin_unstaged {anchored : AnchorFile → Prop} (absent : vault.pool.content rotIntentName = none)
    (attested : (epoch = none ∧ anchored vault.pool.anchor) ∨ ∃ token table,
      epoch = some (EpochToken.sealed dek token) ∧ (vault.pool.reopen dek).raised token = some table ∧
        token.readEnv ≤ env.generation ∧ anchored ((vault.pool.reopen dek).savedTwice table).anchor) :
    (sessionBegin order dek env epoch vault).Meets (fun _ => True)
      (fun _ v => v.unlocked = true ∧ ∃ anchor, anchored anchor ∧
        v.pool = { vault.pool.reopen dek with anchor := anchor }) fun _ _ => False := by
  let q := vault.pool.reopen dek
  have none_staged : q.hasFilename rotIntentName = false := by
    rw [← Bool.not_eq_true, Pool.hasFilename_iff]
    rintro ⟨file, found⟩
    have held : q.content rotIntentName = some file.data := by
      rw [Pool.Wf.reopen.content_eq, found]
      rfl
    rw [Pool.content_reopen, absent] at held
    cases held
  unfold sessionBegin sessionLock
  apply meets_modify_bind
  apply meets_modify_bind
  apply meets_bind (fun _ v => v.pool = q)
  · apply meets_zoom
    show (Pool.recoverRotation order q).Meets _ _ _
    rw [Pool.recoverRotation_none none_staged]
    exact ⟨fun _ _ => trivial, rfl⟩
  · rintro note v here
    apply meets_bind (fun _ w => ∃ anchor, anchored anchor ∧ w.pool = { q with anchor := anchor })
    · unfold checkEpoch
      rcases attested with ⟨rfl, kept⟩ | ⟨token, table, rfl, raised, fresh, kept⟩
      · exact meets_pure ⟨_, kept, here⟩
      · apply meets_bind (fun attested w => attested.2 = token.readEnv ∧ w.pool = q.savedTwice table)
        · apply meets_zoom
          rw [here]
          have applied := Pool.applyEpoch_some raised
          show (Pool.applyEpoch (token.sealed q.dek) q).Meets _ _ _
          rw [applied]
          exact ⟨fun _ _ => trivial, rfl, rfl⟩
        · rintro found w ⟨same, pool⟩
          dsimp only
          rw [same, if_neg (by omega)]
          exact meets_pure ⟨_, kept, pool⟩
    · rintro _ w ⟨anchor, kept, pool⟩
      exact meets_modify ⟨rfl, anchor, kept, pool⟩

end Vault

namespace VaultSession

section Restored

variable {s : VaultSession} {anchor : AnchorFile} {pending : Finset Uuid} {q : Pool}

/-- A restored vault has the pages of the one that was backed up. -/
theorem joined_empty (kept : s.Kept ∅) (sealed : ∀ stem, s.phase stem = .sealed) :
    joined s (empty s.pool.dek anchor) q = { s with pool := q } := by
  have pages : (fun stem => if s.pool.hasFilename stem.db.name then s.pages stem else []) = s.pages := by
    funext stem
    split
    · rfl
    · next lacks =>
      rcases kept.restsOn (sealed stem) with ⟨_, blank⟩ | ⟨c, on, _⟩
      · exact blank.symm
      · obtain ⟨data, held, _⟩ := on.main
        obtain ⟨file, found, _⟩ := kept.live.found held
        exact absurd (Pool.hasFilename_iff.mpr ⟨file, found⟩) lacks
  have phase : (fun _ => .sealed) = s.phase := funext fun stem => (sealed stem).symm
  show VaultSession.mk q (fun stem => if s.pool.hasFilename stem.db.name then s.pages stem else []) _ = _
  rw [pages, phase]

/-- A token a vault has exported for one of its databases. -/
structure Attests (s : VaultSession) (env : Envelope) (blob : SealedBytes (List UInt8)) : Prop where
  exported : ∃ (stem : Stem) (deviceId : Vector UInt8 16) (envGen : UInt64),
    s.pool.exportEpoch deviceId stem.db.name envGen = .ok blob ∧ envGen.toNat ≤ env.generation
  small : ∀ (stem : Stem) uuid payload, s.pool.readManifest (manifestName stem.db.name) = .ok (uuid, payload) →
    payload.dbGeneration < 2 ^ 64

theorem Attests.raises {env : Envelope} {blob : SealedBytes (List UInt8)} (attests : s.Attests env blob)
    (kept : s.Kept ∅) {host : Pool} (fits : Receives s (empty s.pool.dek host.anchor) pending) :
    ∃ token table, blob = EpochToken.sealed s.pool.dek token ∧
      (host.reopen s.pool.dek).raised token = some table ∧ token.readEnv ≤ env.generation ∧
      Receives s (empty s.pool.dek ((host.reopen s.pool.dek).savedTwice table).anchor) pending := by
  obtain ⟨stem, deviceId, envGen, exported, few⟩ := attests.exported
  obtain ⟨uuid, payload, read, rfl⟩ := Pool.exportEpoch_eq exported
  have gen : (UInt64.ofNat payload.dbGeneration).toNat = payload.dbGeneration := by
    rw [UInt64.toNat_ofNat']
    exact Nat.mod_eq_of_lt (attests.small stem uuid payload read)
  have room : (insert uuid (host.reopen s.pool.dek).windowed).card ≤ anchorCap := by
    have inside : insert uuid (host.reopen s.pool.dek).windowed ⊆
        (empty s.pool.dek host.anchor).pool.windowed ∪ pending :=
      Finset.insert_subset (Finset.mem_union_right _ (fits.listed stem uuid ⟨payload, read⟩))
        Finset.subset_union_left
    exact (Finset.card_le_card inside).trans fits.room
  let token : EpochToken := ⟨uuid, UInt64.ofNat payload.dbGeneration, some envGen, deviceId⟩
  have raises : (host.reopen s.pool.dek).raised token ≠ none := Pool.recordable room
  obtain ⟨table, raised⟩ := Option.ne_none_iff_exists'.mp raises
  refine ⟨token, table, rfl, raised, few, ?_⟩
  exact fits.attested read gen raised
    (congrArg Prod.snd (Pool.anchorLoad_savedTwice (host.reopen s.pool.dek) table)) kept.windows

theorem applied_reopen {host : Pool}
    (content : host.content = Pool.importedDisk (s.pool.dbNames.flatMap s.pool.copies) fun _ => none) :
    Applied s (empty s.pool.dek anchor) { host.reopen s.pool.dek with anchor := anchor } := by
  have wf : (host.reopen s.pool.dek).Wf := Pool.Wf.reopen
  refine ⟨rfl, _, ⟨⟨wf.named, wf.bound, wf.cleared⟩, rfl, rfl⟩, rfl, ?_⟩
  show (host.reopen s.pool.dek).content = _
  rw [Pool.content_reopen, content, empty_content]

end Restored

end VaultSession

namespace RestoreSample

open TwoDatabases TwoDevices

/-- Each file is told by the number of its bytes. -/
def numbered (files : BundleFiles) : List (String × List UInt8) :=
  files.zipIdx.map fun file => (String.ofList file.1.1, List.replicate file.2 0)

def regionOf (files : BundleFiles) (bytes : List UInt8) : Region :=
  ((files[bytes.length]?).map Prod.snd).getD .empty

theorem filesOf_numbered (files : BundleFiles) :
    ImportHost.filesOf (regionOf files) ⟨[1], [], numbered files, []⟩ = files := by
  apply List.ext_getElem
  · simp [ImportHost.filesOf, numbered]
  · intro i inside there
    simp [ImportHost.filesOf, numbered, regionOf, List.getElem?_eq_getElem there]

def bundle : BundleWire.Bundle := ⟨[1], [], numbered image, []⟩

def bytes : Slice 32 :=
  ⟨BundleWire.encode bundle.envelope bundle.credId bundle.files bundle.epoch, by decide +kernel⟩

theorem decoded : BundleWire.decode bytes = .ok bundle := by
  have fits : bundle.Fits := ⟨by decide, by decide, by decide +kernel, by decide⟩
  exact BundleWire.decode_of_parsed (by decide) (BundleWire.parsed_encode fits)

def lockedOf (pool : Pool) : Vault := { deviceOf pool with unlocked := false }

theorem lockedOf_pool (pool : Pool) : (lockedOf pool).pool = pool := rfl

/-- An envelope of the third generation. -/
def env : Envelope := ⟨⟨0, 3, []⟩, none⟩

theorem host_receives : VaultSession.Receives both (VaultSession.empty both.pool.dek (lockedOf start.pool).pool.anchor)
    both.pool.windowed := by
  rw [lockedOf_pool]
  exact start_receives.of_anchor

/-- The generations in the manifests. -/
theorem generations_small (stem : Stem) (uuid : Uuid) (payload : ManifestPayload)
    (read : both.pool.readManifest (manifestName stem.db.name) = .ok (uuid, payload)) :
    payload.dbGeneration < 2 ^ 64 := by
  obtain ⟨mfile, _, found, _⟩ := Pool.readManifest_file read
  have listed : manifestName stem.db.name ∈ both.pool.files.keys := by
    rw [Std.ExtTreeMap.mem_keys, Std.ExtTreeMap.mem_iff_isSome_getElem?, found]
    rfl
  have small : ∀ name ∈ both.pool.files.keys,
      (both.pool.readManifest name).toOption.all fun found => decide (found.2.dbGeneration < 2 ^ 64) := by
    decide +kernel
  have here := small _ listed
  rw [read] at here
  exact of_decide_eq_true here

theorem attests (blob : SealedBytes (List UInt8))
    (exported : both.pool.exportEpoch (Vector.replicate 16 0) a.db.name 3 = .ok blob) :
    both.Attests env blob := by
  refine ⟨⟨a, _, 3, exported, by decide⟩, generations_small⟩

end RestoreSample

end Freehold
