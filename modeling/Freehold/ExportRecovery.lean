import Freehold.Decrypt
import Freehold.SlotBindings

set_option autoImplicit false

namespace Freehold

open Cursor Decrypt EnvelopeWire

/-- A database with what it has committed, where no transaction is open and no journal is left: its
manifest reads, and its main file is the blocks of the image and no more. -/
def Pool.Holds (pool : Pool) (name : FileName) (image : List Block) : Prop :=
  ∃ uuid payload file, pool.readManifest (manifestName name) = .ok (uuid, payload) ∧
    pool.files[name]? = some file ∧ file.data.size % Freehold.physBlock = 0 ∧
    Pool.imageOf file.data name (.dbKey pool.dek uuid) uuid = some image

/-- A vault whose session is asked for a bundle: its files and its envelope as they are stored, and an
enrolled recovery code. The bundle is one vector of a 32-bit machine. -/
structure Portable (P : Primitives) (vault : Vault) (s : Exporter) (code : List Char)
    (e : Enrolled) (w : Wire) : Prop where
  unlocked : vault.unlocked = true
  wf : vault.pool.Wf
  stored : vault.pool.Stored s.raw P
  dek : e.dek = vault.pool.dek
  inv : Enrolled.Inv e
  envelope : s.envelope = w.bytes
  stores : w.Stores P (.recovery (normalize P code) e.env.body.envSalt) e.env
  recovery : ∃ m ∈ e.methods, m.kind = Freehold.kindRecovery ∧
    m.method = .recovery (normalize P code)
  room : ∀ bytes, vault.sessionExport P s = .ok bytes → bytes.length < 2 ^ 32

/-- The bundle of the session and the recovery code give exactly the databases of the vault; where
there are none, there is no bundle. -/
def Recovers (t : Target) (P : Primitives) (vault : Vault) (s : Exporter) (code : List Char) : Prop :=
  match vault.sessionExport P s with
  | .ok bytes => ∀ b : Slice t.usizeBits, b.bytes = bytes → ∃ out, recover P b code = .ok out ∧
      (out.map fun db => db.name).Nodup ∧
      ∀ db, db ∈ out ↔ ∃ image, vault.pool.Holds db.name.toList image ∧ db.sqlite = bytesOf image
  | .error reason => reason = nothingToExport ∧ ∀ name image, ¬vault.pool.Holds name image
  | .panic => False

/-- Every file with the name of a database is one, and every database has such a name, one that
survives the text it is exported as. -/
structure Pool.Exportable (pool : Pool) : Prop where
  named : ∀ name image, pool.Holds name image →
    endsWith name dbSuffix = true ∧ '|' ∉ name ∧ '\n' ∉ name
  complete : ∀ name ∈ pool.dbNames, ∃ image, pool.Holds name image

namespace Pool

variable {pool : Pool} {name : FileName} {image other : List Block}

theorem Holds.unique (held : pool.Holds name image) (held' : pool.Holds name other) : image = other := by
  obtain ⟨uuid, payload, file, manifest, found, _, reads⟩ := held
  obtain ⟨uuid', payload', file', manifest', found', _, reads'⟩ := held'
  rw [manifest, Except.ok.injEq, Prod.mk.injEq] at manifest'
  obtain ⟨rfl, _⟩ := manifest'
  rw [found, Option.some.injEq] at found'
  subst found'
  exact Option.some.inj (reads.symm.trans reads')

theorem Holds.hasFilename (held : pool.Holds name image) : pool.hasFilename name = true := by
  obtain ⟨_, _, file, _, found, _⟩ := held
  exact hasFilename_iff.mpr ⟨file, found⟩

theorem mem_dbNames : name ∈ pool.dbNames ↔
    pool.hasFilename name = true ∧ endsWith name dbSuffix = true := by
  rw [dbNames, List.mem_filter, Std.ExtTreeMap.mem_keys, Pool.hasFilename,
    Std.ExtTreeMap.contains_iff_mem]

theorem nodup_dbNames : pool.dbNames.Nodup := Std.ExtTreeMap.nodup_keys.filter _

/-- A manifest that reads is a manifest file. -/
theorem readManifest_file {mname : FileName} {uuid : Uuid} {payload : ManifestPayload}
    (read : pool.readManifest mname = .ok (uuid, payload)) :
    ∃ mfile file, pool.files[mname]? = some mfile ∧ mfile.data = .manifest file ∧ file.uuid = uuid := by
  unfold readManifest at read
  split at read
  · cases read
  · next mfile found =>
      split at read
      · next file isManifest =>
          split at read
          · next picked =>
              cases read
              exact ⟨mfile, file, found, isManifest, rfl⟩
          · cases read
      · cases read

/-- The image of a database at rest, where the file is one. -/
def heldImage (pool : Pool) (name : FileName) : Option (List Block) :=
  match pool.readManifest (manifestName name), pool.files[name]? with
  | .ok (uuid, _), some file =>
      if file.data.size % Freehold.physBlock = 0 then
        imageOf file.data name (.dbKey pool.dek uuid) uuid
      else none
  | _, _ => none

theorem holds_iff : pool.Holds name image ↔ pool.heldImage name = some image := by
  constructor
  · rintro ⟨uuid, payload, file, manifest, found, aligned, reads⟩
    rw [heldImage, manifest, found]
    exact (if_pos aligned).trans reads
  · intro held
    unfold heldImage at held
    split at held
    · next uuid payload file manifest found =>
        split at held
        · next aligned => exact ⟨uuid, payload, file, manifest, found, aligned, held⟩
        · cases held
    · cases held

theorem exportable_iff : pool.Exportable ↔
    (∀ name ∈ pool.files.keys, (pool.heldImage name).isSome = true →
      endsWith name dbSuffix = true ∧ '|' ∉ name ∧ '\n' ∉ name) ∧
      ∀ name ∈ pool.dbNames, (pool.heldImage name).isSome = true := by
  constructor
  · rintro ⟨named, complete⟩
    refine ⟨fun name _ held => ?_, fun name listed => ?_⟩
    · obtain ⟨image, held⟩ := Option.isSome_iff_exists.mp held
      exact named name image (holds_iff.mpr held)
    · obtain ⟨image, held⟩ := complete name listed
      exact Option.isSome_iff_exists.mpr ⟨image, holds_iff.mp held⟩
  · rintro ⟨named, complete⟩
    refine ⟨fun name image held => ?_, fun name listed => ?_⟩
    · have listed : name ∈ pool.files.keys := by
        rw [Std.ExtTreeMap.mem_keys, ← Std.ExtTreeMap.contains_iff_mem]
        exact held.hasFilename
      exact named name listed (Option.isSome_iff_exists.mpr ⟨image, holds_iff.mp held⟩)
    · obtain ⟨image, held⟩ := Option.isSome_iff_exists.mp (complete name listed)
      exact ⟨image, holds_iff.mpr held⟩

instance : DecidablePred Exportable := fun _ => decidable_of_iff _ exportable_iff.symm

end Pool

section Recover

variable {P : Primitives} {v : Vector UInt8 32} {all files : List (String × List UInt8)}
  {out : List RecoveredDb}

theorem recoverFile_name {name : String} {data : List UInt8} {db : RecoveredDb}
    (recovered : recoverFile P all v name data = .ok db) : db.name = name := by
  unfold recoverFile at recovered
  obtain ⟨manifest, _, rest⟩ := Outcome.bind_eq_ok.mp recovered
  split at rest
  · cases rest
  · obtain ⟨dbUuid, _, rest⟩ := Outcome.bind_eq_ok.mp rest
    obtain ⟨sqlite, _, rest⟩ := Outcome.bind_eq_ok.mp rest
    cases rest
    rfl

/-- One recovered database for each file that has the name of one. -/
theorem map_name_recoverFiles (recovered : recoverFiles P all v files = .ok out) :
    out.map (fun db => db.name) =
      (files.filter fun file => endsWith file.1.toList dbSuffix).map fun file => file.1 := by
  induction files generalizing out with
  | nil =>
      cases recovered
      rfl
  | cons file files ih =>
      rw [recoverFiles] at recovered
      split at recovered
      · next isDb =>
          obtain ⟨here, one, rest⟩ := Outcome.bind_eq_ok.mp recovered
          obtain ⟨later, others, same⟩ := Outcome.bind_eq_ok.mp rest
          cases same
          rw [List.map_cons, recoverFile_name one, ih others, List.filter_cons, if_pos isDb, List.map_cons]
      · next other => rw [ih recovered, List.filter_cons, if_neg other]

end Recover

section Sealing

variable {P : Primitives} {vault : Vault} {s : Exporter} {code : List Char} {e : Enrolled} {w : Wire}
  {files : List (FileName × List UInt8)} {bytes : List UInt8}

/-- The envelope of the bundle is the vault's without its device slots, and the code opens it. -/
theorem Portable.strip (lawful : P.Lawful) (portable : Portable P vault s code e w) :
    ∃ w' : Wire, stripExportEnvelope P vault.pool.dek s.envelope = .ok w'.bytes ∧
      ∃ v : Vector UInt8 32, v.toList = dekBytes vault.pool.dek ∧ openEnvelope P w'.bytes code = .ok v := by
  obtain ⟨m, member, kind, method⟩ := portable.recovery
  have kept : (m ∈ e.methods.filter fun m => m.kind ≠ kindDevice) := by
    rw [List.mem_filter, decide_eq_true_eq, kind]
    exact ⟨member, by decide⟩
  have some_left : (e.env.body.slots.filter fun slot => slot.kind ≠ kindDevice) ≠ [] := by
    rw [portable.inv.slots, List.filter_map]
    exact fun empty => List.ne_nil_of_mem kept (List.map_eq_nil_iff.mp empty)
  obtain ⟨next, stripped⟩ : ∃ next, e.env.stripKind e.dek kindDevice = .ok next :=
    ⟨_, Envelope.stripKind_ok.mpr ⟨portable.inv.short, some_left, rfl⟩⟩
  have taken : Enrolled.step e (.stripKind kindDevice) =
      some ⟨next, e.dek, e.methods.filter fun m => m.kind ≠ kindDevice⟩ := by
    simp only [Enrolled.step, Mutation.apply, stripped, Mutation.dek, Mutation.record]
  have permitted : e.allowed (.stripKind kindDevice) := trivial
  have inv := portable.inv.step permitted taken
  obtain ⟨w', bytes, stores⟩ := portable.stores.stripKind portable.inv.issued stripped
  have salt : next.body.envSalt = e.env.body.envSalt := by
    obtain ⟨_, _, rfl⟩ := Envelope.stripKind_ok.mp stripped
    split <;> rfl
  rw [portable.dek, ← portable.envelope] at bytes
  rw [← salt] at stores
  refine ⟨w', by rw [stripExportEnvelope, bytes], ?_⟩
  obtain ⟨v, isDek, opened⟩ := openEnvelope_stores lawful stores inv.issued inv.short inv.slots
    ⟨m, kept, kind, method⟩
  refine ⟨v, ?_, opened⟩
  rw [isDek, ← portable.dek]

/-- A sealed export is the container around the stripped envelope, the files and a token. -/
theorem sealExport_encoded {env : List UInt8} (stripped : stripExportEnvelope P vault.pool.dek s.envelope = .ok env)
    (sealed : vault.sealExport P s files = .ok bytes) : ∃ db gen token,
      vault.pool.exportEpoch s.deviceId db gen = .ok token ∧ bytes =
        BundleWire.encode env s.credId (files.map fun file => (String.ofList file.1, file.2))
          (tokenBytes P s.nonce token) := by
  unfold Vault.sealExport at sealed
  obtain ⟨db, _, rest⟩ := Outcome.bind_eq_ok.mp sealed
  rw [stripped, Outcome.ok_bind] at rest
  dsimp only at rest
  split at rest
  · next token minted =>
      cases rest
      exact ⟨db, _, token, minted, rfl⟩
  · cases rest

/-- What the container of an export has to fit into. -/
theorem fits_of_length {bundle : BundleWire.Bundle}
    (short : (BundleWire.encode bundle.envelope bundle.credId bundle.files bundle.epoch).length < 2 ^ 32)
    (names : ∀ file ∈ bundle.files, (utf8Bytes file.1).length ≤ 65535) : bundle.Fits := by
  rw [BundleWire.length_encode, BundleWire.Decoding.weight, cond_true] at short
  have optional (bytes : List UInt8) : bytes.length ≤ BundleWire.optionalLength bytes := by
    unfold BundleWire.optionalLength
    split
    · next none => rw [List.isEmpty_iff.mp none]; exact Nat.zero_le _
    · omega
  have credId := optional bundle.credId
  have epoch := optional bundle.epoch
  refine ⟨?_, ?_, ?_, ?_⟩
  · dsimp only at short
    omega
  · dsimp only at short
    omega
  · intro file member
    refine ⟨names file member, ?_⟩
    have encoded : BundleWire.encodeFile file ∈ bundle.files.map BundleWire.encodeFile :=
      List.mem_map_of_mem member
    have inside := (List.sublist_flatten_of_mem encoded).length_le
    rw [← List.flatMap_def] at inside
    simp only [BundleWire.encodeFile, List.length_append, List.length_cons] at inside
    dsimp only at short
    omega
  · dsimp only at short
    omega

theorem length_strBytes (name : FileName) : (DeviceCert.strBytes name).length = byteLen name :=
  length_utf8Bytes_ofList name

theorem byteLen_sublist {name other : FileName} (inside : name.Sublist other) :
    byteLen name ≤ byteLen other := by
  have sizes : (name.map fun c => c.utf8Size).Sublist (other.map fun c => c.utf8Size) := inside.map _
  exact sizes.sum_le_sum fun _ _ => Nat.zero_le _

/-- Names out of the names of a pool fit their field. -/
theorem length_entryName {pool : Pool} (wf : pool.Wf) {name entry : FileName}
    (held : pool.hasFilename name = true)
    (inside : entry.Sublist name ∨ entry.Sublist (manifestName name)) :
    (DeviceCert.strBytes entry).length ≤ 65535 := by
  obtain ⟨data, content⟩ := wf.hasFilename_iff.mp held
  have fits : byteLen name + 1 < 512 := (wf.fits content).2
  have suffix : byteLen (manifestName name) = byteLen name + 9 := by
    rw [byteLen, manifestName, List.map_append, List.sum_append]
    rfl
  rw [length_strBytes]
  rcases inside with inside | inside
  · have bound := byteLen_sublist inside
    omega
  · have bound := byteLen_sublist inside
    omega

/-- The decryptor gets as far as the files of the export, with the DEK of the vault. -/
theorem Portable.recover_eq (lawful : P.Lawful) (portable : Portable P vault s code e w)
    (exported : vault.pool.exportFiles s.raw vault.pool.dbNames = .ok files)
    (sealed : vault.sealExport P s files = .ok bytes) (short : bytes.length < 2 ^ 32)
    {width : Nat} (wide : 32 ≤ width) (b : Slice width) (same : b.bytes = bytes) :
    let stored := files.map fun file => (String.ofList file.1, file.2)
    ∃ v : Vector UInt8 32, v.toList = dekBytes vault.pool.dek ∧ recover P b code = (do
      let out ← recoverFiles P stored v stored
      if out.isEmpty then .error (.bundle "no database files in bundle") else return out) := by
  intro stored
  obtain ⟨w', stripped, v, isDek, opened⟩ := portable.strip lawful
  obtain ⟨_, _, token, _, encoded⟩ := sealExport_encoded stripped sealed
  obtain ⟨entriesOf, whole, read⟩ := Pool.exportFiles_eq_ok.mp exported
  have names : ∀ file ∈ stored, (utf8Bytes file.1).length ≤ 65535 := by
    intro file member
    obtain ⟨entry, inFiles, rfl⟩ := List.mem_map.mp member
    rw [whole, List.mem_flatMap] at inFiles
    obtain ⟨name, listed, inEntries⟩ := inFiles
    have held := (Pool.mem_dbNames.mp listed).1
    have plain := (Pool.exportText_entries held (read name listed)).1 entry inEntries
    exact length_entryName portable.wf held plain.2.2
  let bundle : BundleWire.Bundle := ⟨w'.bytes, s.credId, stored, tokenBytes P s.nonce token⟩
  have fits : bundle.Fits := fits_of_length (encoded ▸ short) names
  have enveloped : w'.bytes ≠ [] := by
    intro none
    have length := w'.length_bytes
    rw [none, List.length_nil] at length
    exact absurd length (Nat.succ_ne_zero _).symm
  have parsed : parseBundle b = .ok ⟨w'.bytes, stored⟩ :=
    parseBundle_encode wide fits enveloped (same.trans encoded)
  refine ⟨v, isDek, ?_⟩
  rw [recover, parsed, Outcome.ok_bind, opened, Outcome.ok_bind]

end Sealing

section Exact

variable {P : Primitives} {vault : Vault} {s : Exporter} {code : List Char} {e : Enrolled} {w : Wire}
  {t : Target} {name : FileName}

theorem sessionExport_eq_ok (unlocked : vault.unlocked = true) {bytes : List UInt8} :
    vault.sessionExport P s = .ok bytes ↔ ∃ files,
      vault.pool.exportFiles s.raw vault.pool.dbNames = .ok files ∧ files ≠ [] ∧
        vault.sealExport P s files = .ok bytes := by
  rw [Vault.sessionExport, if_pos unlocked, Outcome.bind_eq_ok]
  apply exists_congr
  intro files
  apply and_congr_right
  intro _
  cases files with
  | nil => simp
  | cons file files => simp

/-- What follows the last line break of a database's name ends as the name does. -/
theorem endsWith_last {before last : FileName} (ends : endsWith (before ++ last) dbSuffix = true)
    (broken : before = [] ∨ before.getLast? = some '\n') : endsWith last dbSuffix = true := by
  rcases broken with rfl | broken
  · exact ends
  · rw [endsWith, List.isSuffixOf_iff_suffix] at ends ⊢
    rcases List.suffix_or_suffix_of_suffix ends (List.suffix_append before last) with whole | short
    · exact whole
    · obtain ⟨front, joined⟩ := short
      obtain ⟨base, whole⟩ := ends
      rw [← joined, ← List.append_assoc, List.append_left_inj] at whole
      cases empty : front.getLast? with
      | none =>
          rw [List.getLast?_eq_none_iff] at empty
          rw [empty, List.nil_append] at joined
          rw [joined]
      | some c =>
          have inSuffix : c ∈ dbSuffix := by
            rw [← joined]
            exact List.mem_append_left _ (List.mem_of_getLast? empty)
          rw [← whole, List.getLast?_append, empty, Option.some_or, Option.some.injEq] at broken
          rw [broken] at inSuffix
          exact absurd inSuffix (by decide)

/-- Two files of the pool never give databases of one name. -/
theorem notMem_entries {names : List FileName} {entriesOf : FileName → List (FileName × List UInt8)}
    (once : (((names.flatMap entriesOf).filter fun entry => endsWith entry.1 dbSuffix).map
      fun entry => entry.1).Nodup) {first second : FileName} (apart : first ≠ second)
    (inFirst : first ∈ names) (inSecond : second ∈ names) {entry entry' : FileName × List UInt8}
    (left : entry ∈ entriesOf first) (right : entry' ∈ entriesOf second) (same : entry.1 = entry'.1) :
    ¬endsWith entry.1 dbSuffix = true := by
  intro isDb
  rw [List.filter_flatMap, List.map_flatMap, List.nodup_flatMap] at once
  have symmetric : Std.Symm (Function.onFun List.Disjoint fun name =>
      ((entriesOf name).filter fun entry => endsWith entry.1 dbSuffix).map fun entry => entry.1) :=
    ⟨fun _ _ apart => apart.symm⟩
  have disjoint := once.2.forall inFirst inSecond apart
  apply disjoint (a := entry.1)
  · exact List.mem_map_of_mem (List.mem_filter.mpr ⟨left, isDb⟩)
  · rw [same] at isDb ⊢
    exact List.mem_map_of_mem (List.mem_filter.mpr ⟨right, isDb⟩)

/-- Not the refusal of a vault without databases. -/
def Attempted {α : Type} (x : Outcome String α) : Prop := x ≠ .error nothingToExport

theorem attempted_ok {α : Type} (value : α) : Attempted (.ok value) := fun same => (nomatch same)

theorem attempted_panic {α : Type} : Attempted (.panic : Outcome String α) := fun same => (nomatch same)

theorem Attempted.bind {α β : Type} {x : Outcome String α} {f : α → Outcome String β}
    (first : Attempted x) (second : ∀ value, Attempted (f value)) : Attempted (x >>= f) := by
  cases x with
  | ok value => exact second value
  | error reason =>
      intro same
      exact first (congrArg _ (Outcome.error.inj same))
  | panic => exact fun same => (nomatch same)

theorem attempted_hexPairs (text : List Char) : Attempted (HexText.hexPairs text) := by
  have bad : "bad blob hex" ≠ nothingToExport := by decide +kernel
  induction text using HexText.hexPairs.induct with
  | case1 => exact attempted_ok _
  | case2 c one => simp [Attempted, HexText.hexPairs, one]
  | case3 c one d rest single byte value ih =>
      simp only [Attempted, HexText.hexPairs, one, single, if_true, value]
      exact Attempted.bind ih fun _ => attempted_ok _
  | case4 c one d rest single value =>
      simp only [Attempted, HexText.hexPairs, one, single, if_true, value]
      exact fun same => bad (Outcome.error.inj same)
  | case5 c one d rest single => simp [Attempted, HexText.hexPairs, one, single]
  | case6 c rest one two =>
      rw [HexText.hexPairs.eq_def]
      simp only [if_neg one, if_pos two]
      exact fun same => bad (Outcome.error.inj same)
  | case7 c rest one two =>
      rw [HexText.hexPairs.eq_def]
      simp only [if_neg one, if_neg two]
      exact attempted_panic

theorem attempted_exportFiles (pool : Pool) (raw : FileName → List UInt8) (names : List FileName) :
    Attempted (pool.exportFiles raw names) := by
  have odd : "odd-length blob hex" ≠ nothingToExport := by decide +kernel
  have hex (text : List Char) : Attempted (HexText.hexToBytes text) := by
    unfold HexText.hexToBytes
    split
    · exact fun same => odd (Outcome.error.inj same)
    · exact attempted_hexPairs text
  have line (text : List Char) : Attempted (HexText.decodeLine text) := by
    unfold HexText.decodeLine
    split
    · exact attempted_ok _
    · exact Attempted.bind (hex _) fun _ => attempted_ok _
  have lines (texts : List (List Char)) : Attempted (HexText.decodeLines texts) := by
    induction texts with
    | nil => exact attempted_ok _
    | cons text texts ih =>
        exact Attempted.bind (line text) fun _ => Attempted.bind ih fun _ => attempted_ok _
  induction names with
  | nil => exact attempted_ok _
  | cons name names ih =>
      exact Attempted.bind (lines _) fun _ => Attempted.bind ih fun _ => attempted_ok _

theorem attempted_sealExport {env : List UInt8}
    (stripped : stripExportEnvelope P vault.pool.dek s.envelope = .ok env)
    (files : List (FileName × List UInt8)) : Attempted (vault.sealExport P s files) := by
  have first : Attempted (epochDb vault.pool.dbNames) := by
    unfold epochDb
    split
    · exact attempted_ok _
    · split
      · exact attempted_ok _
      · exact attempted_panic
  apply first.bind
  intro db
  rw [stripped, Outcome.ok_bind]
  dsimp only
  split
  · exact attempted_ok _
  · intro same
    have text := congrArg (fun reason => reason.toList.head?) (Outcome.error.inj same)
    revert text
    simp only [nothingToExport, String.toList_append, List.append_assoc]
    intro text
    exact absurd (text.symm.trans rfl) (by decide +kernel : some 'n' ≠ some 'e')

/-- An export is refused for want of databases only where no file could be one. -/
theorem dbNames_of_nothing (lawful : P.Lawful) (portable : Portable P vault s code e w)
    (refused : vault.sessionExport P s = .error nothingToExport) : vault.pool.dbNames = [] := by
  obtain ⟨_, stripped, _⟩ := portable.strip lawful
  rw [Vault.sessionExport, if_pos portable.unlocked] at refused
  cases exported : vault.pool.exportFiles s.raw vault.pool.dbNames with
  | panic => simp [exported] at refused
  | error reason =>
      rw [exported, Outcome.error_bind] at refused
      exact absurd (exported.trans (congrArg _ (Outcome.error.inj refused)))
        (attempted_exportFiles _ _ _)
  | ok files =>
      rw [exported, Outcome.ok_bind] at refused
      cases files with
      | cons file files => exact absurd refused (attempted_sealExport stripped (file :: files))
      | nil =>
          obtain ⟨entriesOf, whole, read⟩ := Pool.exportFiles_eq_ok.mp exported
          rw [List.eq_nil_iff_forall_not_mem]
          intro name listed
          obtain ⟨_, last, _, _, member, _⟩ :=
            (Pool.exportText_entries (Pool.mem_dbNames.mp listed).1 (read name listed)).2
          have inFiles : (last, s.raw name) ∈ vault.pool.dbNames.flatMap entriesOf :=
            List.mem_flatMap.mpr ⟨name, listed, member⟩
          rw [← whole] at inFiles
          cases inFiles

/-- What is recovered bears the names the files have in the bundle. -/
theorem names_recovered {entries : List (FileName × List UInt8)} {v : Vector UInt8 32}
    {all : List (String × List UInt8)} {out : List RecoveredDb}
    (recovered : recoverFiles P all v (entries.map fun entry => (String.ofList entry.1, entry.2)) = .ok out) :
    out.map (fun db => db.name.toList) =
      (entries.filter fun entry => endsWith entry.1 dbSuffix).map fun entry => entry.1 := by
  have names := congrArg (List.map String.toList) (map_name_recoverFiles recovered)
  rw [List.map_map, List.filter_map, List.map_map, List.map_map] at names
  simpa [Function.comp_def] using names

/-- A vault whose bundle is recovered exactly is in order. -/
theorem Recovers.exportable (lawful : P.Lawful) (portable : Portable P vault s code e w)
    (recovers : Recovers t P vault s code) : vault.pool.Exportable := by
  unfold Recovers at recovers
  split at recovers
  · next bytes sessionExported =>
      obtain ⟨files, exported, _, sealed⟩ := (sessionExport_eq_ok portable.unlocked).mp sessionExported
      have short := portable.room bytes sessionExported
      have wide : 2 ^ 32 ≤ 2 ^ t.usizeBits := Nat.pow_le_pow_right Nat.two_pos t.le_usizeBits
      let b : Slice t.usizeBits := ⟨bytes, Nat.lt_of_lt_of_le short wide⟩
      obtain ⟨out, recovered, once, exactly⟩ := recovers b rfl
      obtain ⟨v, _, ran⟩ := portable.recover_eq lawful exported sealed short t.le_usizeBits b rfl
      rw [recovered] at ran
      obtain ⟨out', files_recovered, same⟩ := Outcome.bind_eq_ok.mp ran.symm
      have kept : out' = out := by
        split at same
        · cases same
        · exact Outcome.ok.inj same
      subst kept
      have names := names_recovered files_recovered
      have namesOnce : (out'.map fun db => db.name.toList).Nodup := by
        have injective := once.map (f := String.toList) fun a b same => String.toList_inj.mp same
        rwa [List.map_map] at injective
      obtain ⟨entriesOf, whole, read⟩ := Pool.exportFiles_eq_ok.mp exported
      -- a name among the recovered ones is that of a database
      have isDb : ∀ entry ∈ files, endsWith entry.1 dbSuffix = true →
          ∃ image, vault.pool.Holds entry.1 image := by
        intro entry member ends
        have named : entry.1 ∈ out'.map fun db => db.name.toList := by
          rw [names]
          exact List.mem_map_of_mem (List.mem_filter.mpr ⟨member, ends⟩)
        obtain ⟨db, inOut, same⟩ := List.mem_map.mp named
        obtain ⟨image, held, _⟩ := (exactly db).mp inOut
        exact ⟨image, same ▸ held⟩
      constructor
      · intro name image held
        have inOut := (exactly ⟨String.ofList name, bytesOf image⟩).mpr
          ⟨image, by rwa [String.toList_ofList], rfl⟩
        have named := List.mem_map_of_mem (f := fun db : RecoveredDb => db.name.toList) inOut
        rw [names, String.toList_ofList] at named
        obtain ⟨entry, inFiltered, rfl⟩ := List.mem_map.mp named
        obtain ⟨member, ends⟩ := List.mem_filter.mp inFiltered
        rw [whole] at member
        obtain ⟨db, listed, inEntries⟩ := List.mem_flatMap.mp member
        have plain := (Pool.exportText_entries (Pool.mem_dbNames.mp listed).1 (read db listed)).1 entry
          inEntries
        exact ⟨ends, plain.1, plain.2.1⟩
      · intro name listed
        obtain ⟨held, ends⟩ := Pool.mem_dbNames.mp listed
        obtain ⟨before, last, joined, noBreak, member, broken⟩ :=
          (Pool.exportText_entries held (read name listed)).2
        have lastEnds : endsWith last dbSuffix = true := endsWith_last (joined ▸ ends) broken
        have inFiles : (last, s.raw name) ∈ files := by
          rw [whole]
          exact List.mem_flatMap.mpr ⟨name, listed, member⟩
        obtain ⟨image, lastHeld⟩ : ∃ image, vault.pool.Holds last image := isDb _ inFiles lastEnds
        by_cases same : name = last
        · exact ⟨image, same ▸ lastHeld⟩
        -- the name has a line break, and the database after it is exported twice
        · have lastListed := Pool.mem_dbNames.mpr ⟨lastHeld.hasFilename, lastEnds⟩
          obtain ⟨before', last', joined', _, member', broken'⟩ :=
            (Pool.exportText_entries lastHeld.hasFilename (read last lastListed)).2
          have whole' : last' = last := by
            rcases broken' with rfl | broken'
            · exact joined'.symm
            · have inLast : '\n' ∈ last := by
                rw [joined']
                exact List.mem_append_left _ (List.mem_of_getLast? broken')
              exact absurd inLast noBreak
          rw [names, whole] at namesOnce
          exact absurd lastEnds (notMem_entries namesOnce same listed lastListed member member'
            whole'.symm)
  · next reason refused =>
      obtain ⟨rfl, none⟩ := recovers
      have empty := dbNames_of_nothing lawful portable refused
      refine ⟨fun name image held => absurd held (none name image), ?_⟩
      rw [empty]
      simp
  · cases recovers

section Complete

variable {v : Vector UInt8 32} {image : List Block}

/-- The two files of a database in the bundle. -/
def databaseFiles (raw : FileName → List UInt8) (name : FileName) : List (FileName × List UInt8) :=
  [(name, raw name), (manifestName name, raw (manifestName name))]

theorem Pool.Holds.hasManifest {pool : Pool} (held : pool.Holds name image) :
    pool.hasFilename (manifestName name) = true := by
  obtain ⟨uuid, payload, file, manifest, _⟩ := held
  obtain ⟨mfile, _, found, _⟩ := Pool.readManifest_file manifest
  exact Pool.hasFilename_iff.mpr ⟨mfile, found⟩

/-- A database is recovered from its two files. -/
theorem recoverFile_held (lawful : P.Lawful) {pool : Pool} {raw : FileName → List UInt8}
    (stored : pool.Stored raw P) (isDek : v.toList = dekBytes pool.dek) (held : pool.Holds name image)
    {all : List (String × List UInt8)}
    (member : (String.ofList (manifestName name), raw (manifestName name)) ∈ all)
    (only : ∀ file ∈ all, file.1 = String.ofList (manifestName name) → file.2 = raw (manifestName name)) :
    recoverFile P all v (String.ofList name) (raw name) = .ok ⟨String.ofList name, bytesOf image⟩ := by
  obtain ⟨uuid, payload, file, manifest, found, aligned, reads⟩ := held
  obtain ⟨mfile, header, mfound, isManifest, rfl⟩ := Pool.readManifest_file manifest
  have suffix : Decrypt.manifestSuffix = Freehold.manifestSuffix := by decide +kernel
  have mname : String.ofList ((String.ofList name).toList ++ Decrypt.manifestSuffix) =
      String.ofList (manifestName name) := by rw [String.toList_ofList, suffix, manifestName]
  obtain ⟨entry, inAll⟩ : ∃ entry, all.find? (fun file => file.1 = String.ofList (manifestName name)) =
      some entry := by
    rw [← Option.isSome_iff_exists, List.find?_isSome]
    exact ⟨_, member, decide_eq_true rfl⟩
  have named : entry.1 = String.ofList (manifestName name) := by simpa using List.find?_some inAll
  have bytes := only entry (List.mem_of_find?_eq_some inAll) named
  have mstored := stored _ mfile mfound
  rw [isManifest] at mstored
  obtain ⟨rest, shape⟩ := mstored.manifest_eq
  have eight : manifestMagic.length = manifestMagicLen := by decide +kernel
  have long : ¬entry.2.length < manifestMagicLen + 16 := by
    rw [bytes, shape, List.length_append, List.length_append, eight, length_uuidBytes]
    omega
  have cut : slice entry.2 manifestMagicLen 16 = uuidBytes header.uuid := by
    have middle := slice_middle manifestMagic (uuidBytes header.uuid) rest
    rwa [eight, length_uuidBytes, ← shape, ← bytes] at middle
  obtain ⟨dbUuid, isUuid, asArray⟩ := array_of_length (length_uuidBytes header.uuid)
  have decrypted := decryptDbFile_stored lawful isDek isUuid (stored name file found) aligned reads
  rw [recoverFile, mname, inAll]
  simp only [okOr, Outcome.ok_bind]
  rw [if_neg long, cut, asArray, Outcome.ok_bind, decrypted, Outcome.ok_bind]
  rfl

theorem recoverFiles_held (lawful : P.Lawful) {pool : Pool} {raw : FileName → List UInt8}
    (stored : pool.Stored raw P) (isDek : v.toList = dekBytes pool.dek) {names : List FileName}
    {imageAt : FileName → List Block}
    (held : ∀ name ∈ names, endsWith name dbSuffix = true ∧ pool.Holds name (imageAt name))
    {all : List (String × List UInt8)}
    (whole : ∀ name ∈ names, (String.ofList (manifestName name), raw (manifestName name)) ∈ all)
    (only : ∀ file ∈ all, ∀ name, file.1 = String.ofList name → file.2 = raw name) :
    recoverFiles P all v ((names.flatMap (databaseFiles raw)).map fun entry =>
        (String.ofList entry.1, entry.2)) =
      .ok (names.map fun name => ⟨String.ofList name, bytesOf (imageAt name)⟩) := by
  induction names with
  | nil => rfl
  | cons name names ih =>
      rw [List.forall_mem_cons] at held whole
      have isDb : endsWith (String.ofList name).toList dbSuffix = true := by
        rw [String.toList_ofList]
        exact held.1.1
      have isManifest : ¬endsWith (String.ofList (manifestName name)).toList dbSuffix = true := by
        rw [String.toList_ofList]
        have other : endsWith (manifestName name) dbSuffix = false :=
          not_endsWith_of_endsWith (endsWith_append name Freehold.manifestSuffix) (by decide)
        rw [other]
        exact Bool.false_ne_true
      have here := recoverFile_held lawful stored isDek held.1.2 whole.1
        fun file member same => only file member _ same
      simp only [List.flatMap_cons, databaseFiles, List.cons_append, List.nil_append, List.map_cons,
        recoverFiles]
      rw [if_pos isDb, here, Outcome.ok_bind, if_neg isManifest]
      rw [ih held.2 whole.2, Outcome.ok_bind]
      rfl

theorem exportFiles_exportable (exportable : vault.pool.Exportable) :
    vault.pool.exportFiles s.raw vault.pool.dbNames =
      .ok (vault.pool.dbNames.flatMap (databaseFiles s.raw)) := by
  have plain : ∀ name ∈ vault.pool.dbNames, '|' ∉ name ∧ '\n' ∉ name := by
    intro name listed
    obtain ⟨image, held⟩ := exportable.complete name listed
    exact (exportable.named name image held).2
  rw [Pool.exportFiles_plain plain, Cursor.Outcome.ok.injEq]
  apply List.flatMap_congr
  intro name listed
  obtain ⟨image, held⟩ := exportable.complete name listed
  rw [Pool.presentFiles, List.filter_cons, if_pos held.hasFilename, List.filter_cons,
    if_pos held.hasManifest]
  rfl

/-- The envelope strips, and the token is minted for a database whose manifest reads. -/
theorem sealExport_exportable (lawful : P.Lawful) (portable : Portable P vault s code e w)
    (exportable : vault.pool.Exportable) (some_db : vault.pool.dbNames ≠ [])
    (files : List (FileName × List UInt8)) : ∃ bytes, vault.sealExport P s files = .ok bytes := by
  obtain ⟨w', stripped, _⟩ := portable.strip lawful
  obtain ⟨db, chosen, listed⟩ : ∃ db, epochDb vault.pool.dbNames = .ok db ∧ db ∈ vault.pool.dbNames := by
    unfold epochDb
    split
    · next app => exact ⟨_, rfl, app⟩
    · split
      · next first rest whole => exact ⟨first, rfl, by rw [whole]; exact List.mem_cons_self⟩
      · next none => exact absurd none some_db
  obtain ⟨image, held⟩ := exportable.complete db listed
  have manifested := held.hasManifest
  obtain ⟨uuid, payload, file, manifest, _⟩ := held
  have minted (gen : UInt64) : ∃ token, vault.pool.exportEpoch s.deviceId db gen = .ok token := by
    unfold Pool.exportEpoch
    simp only [manifested, if_true, manifest]
    exact ⟨_, rfl⟩
  obtain ⟨token, minted⟩ := minted (UInt64.ofNat (envelopeGeneration w'.bytes))
  exact ⟨_, by simp only [Vault.sealExport, chosen, stripped, Outcome.ok_bind, minted]; rfl⟩

/-- A vault in order is recovered exactly. -/
theorem recovers_exportable (lawful : P.Lawful) (portable : Portable P vault s code e w)
    (exportable : vault.pool.Exportable) : Recovers t P vault s code := by
  have exported := exportFiles_exportable (s := s) exportable
  have named : ∀ name image, vault.pool.Holds name image → name ∈ vault.pool.dbNames := by
    intro name image held
    exact Pool.mem_dbNames.mpr ⟨held.hasFilename, (exportable.named name image held).1⟩
  unfold Recovers
  by_cases none : vault.pool.dbNames = []
  · have refused : vault.sessionExport P s = .error nothingToExport := by
      rw [Vault.sessionExport, if_pos portable.unlocked, exported, Outcome.ok_bind, none]
      rfl
    rw [refused]
    refine ⟨rfl, fun name image held => ?_⟩
    have listed := named name image held
    rw [none] at listed
    cases listed
  · obtain ⟨bytes, sealed⟩ := sealExport_exportable lawful portable exportable none
      (vault.pool.dbNames.flatMap (databaseFiles s.raw))
    have some_file : vault.pool.dbNames.flatMap (databaseFiles s.raw) ≠ [] := by
      obtain ⟨first, rest, whole⟩ := List.exists_cons_of_ne_nil none
      rw [whole]
      exact List.cons_ne_nil _ _
    have sessionExported : vault.sessionExport P s = .ok bytes :=
      (sessionExport_eq_ok portable.unlocked).mpr ⟨_, exported, some_file, sealed⟩
    rw [sessionExported]
    intro b same
    obtain ⟨v, isDek, ran⟩ := portable.recover_eq lawful exported sealed
      (portable.room bytes sessionExported) t.le_usizeBits b same
    choose! imageAt held using exportable.complete
    let stored := (vault.pool.dbNames.flatMap (databaseFiles s.raw)).map fun file =>
      (String.ofList file.1, file.2)
    have recovered : recoverFiles P stored v stored = .ok (vault.pool.dbNames.map fun name =>
        ⟨String.ofList name, bytesOf (imageAt name)⟩) := by
      apply recoverFiles_held lawful portable.stored isDek
      · exact fun name listed => ⟨(Pool.mem_dbNames.mp listed).2, held name listed⟩
      · intro name listed
        refine List.mem_map.mpr ⟨(manifestName name, s.raw (manifestName name)), ?_, rfl⟩
        exact List.mem_flatMap.mpr ⟨name, listed, by simp [databaseFiles]⟩
      · intro file member name same
        obtain ⟨entry, inFiles, rfl⟩ := List.mem_map.mp member
        obtain ⟨db, _, inEntries⟩ := List.mem_flatMap.mp inFiles
        rw [String.ofList_inj] at same
        subst same
        simp only [databaseFiles, List.mem_cons, List.not_mem_nil, or_false] at inEntries
        rcases inEntries with rfl | rfl <;> rfl
    rw [recovered, Outcome.ok_bind, if_neg (by simpa using none)] at ran
    refine ⟨_, ran, ?_, ?_⟩
    · rw [List.map_map]
      exact Pool.nodup_dbNames.map fun a b same => String.ofList_inj.mp same
    · intro db
      rw [List.mem_map]
      constructor
      · rintro ⟨name, listed, rfl⟩
        exact ⟨imageAt name, by rw [String.toList_ofList]; exact held name listed, rfl⟩
      · rintro ⟨image, dbHeld, sqlite⟩
        have listed := named _ image dbHeld
        refine ⟨db.name.toList, listed, ?_⟩
        rw [String.ofList_toList, (held _ listed).unique dbHeld, ← sqlite]

end Complete

end Exact

/-- The export against the decryptor. The bundle of a session at rest and a recovery code of the vault
give back exactly its databases, if and only if every file that is named as a database is one, and each
database has a name that ends in `.db` and has neither a bar nor a line break in it. -/
theorem recover_exact (t : Target) (P : Primitives) (lawful : P.Lawful) (vault : Vault) (s : Exporter)
    (code : List Char) (e : Enrolled) (w : Wire) (portable : Portable P vault s code e w) :
    Recovers t P vault s code ↔ vault.pool.Exportable :=
  ⟨Recovers.exportable lawful portable, recovers_exportable lawful portable⟩

section Room

variable {P : Primitives} {vault : Vault} {s : Exporter}

/-- The bytes the files of a database take in a container. -/
def Pool.bundledSize (pool : Pool) (name : FileName) : Nat :=
  (([name, manifestName name].filter pool.hasFilename).map fun file =>
    7 + byteLen file + (pool.files[file]?).elim 0 fun f => f.data.size).sum

theorem Pool.length_encodeFiles (lawful : P.Lawful) {pool : Pool} {raw : FileName → List UInt8}
    (stored : pool.Stored raw P) (name : FileName) :
    (((pool.presentFiles raw name).map fun file => (String.ofList file.1, file.2)).flatMap
      BundleWire.encodeFile).length = pool.bundledSize name := by
  rw [List.length_flatMap, presentFiles, List.map_map, List.map_map, bundledSize]
  congr 1
  apply List.map_congr_left
  intro file member
  have held : pool.hasFilename file = true := (List.mem_filter.mp member).2
  obtain ⟨found, isFile⟩ := hasFilename_iff.mp held
  have length := (stored file found isFile).length lawful
  have named : (utf8Bytes (String.ofList file)).length = byteLen file := length_strBytes file
  simp only [Function.comp, BundleWire.encodeFile, List.length_append, List.length_cons, length_toLe,
    isFile, Option.elim_some, length, named]
  omega

theorem length_tokenBytes (lawful : P.Lawful) {pool : Pool} {deviceId : Vector UInt8 16} {db : FileName}
    {gen : UInt64} {token : SealedBytes (List UInt8)} (minted : pool.exportEpoch deviceId db gen = .ok token)
    (nonce : Vector UInt8 24) : (tokenBytes P nonce token).length = 88 := by
  obtain ⟨uuid, payload, _, rfl⟩ := Pool.exportEpoch_eq minted
  simp only [EpochToken.sealed, tokenBytes, Primitives.sealBytes, EpochToken.plain, List.length_append,
    lawful.length_encrypt, Vector.length_toList, length_uuidBytes, length_toLe]

/-- How long the bundle of databases with plain names is. -/
theorem length_sessionExport (lawful : P.Lawful) (unlocked : vault.unlocked = true)
    (stored : vault.pool.Stored s.raw P)
    (plain : ∀ name ∈ vault.pool.dbNames, '|' ∉ name ∧ '\n' ∉ name) {env : List UInt8}
    (stripped : stripExportEnvelope P vault.pool.dek s.envelope = .ok env) {bytes : List UInt8}
    (exported : vault.sessionExport P s = .ok bytes) : bytes.length =
      107 + env.length + BundleWire.optionalLength s.credId +
        (vault.pool.dbNames.map vault.pool.bundledSize).sum := by
  obtain ⟨files, whole, _, sealed⟩ := (sessionExport_eq_ok unlocked).mp exported
  rw [Pool.exportFiles_plain plain, Outcome.ok.injEq] at whole
  obtain ⟨_, _, token, minted, rfl⟩ := sealExport_encoded stripped sealed
  have sizes : ((files.map fun file => (String.ofList file.1, file.2)).flatMap
      BundleWire.encodeFile).length = (vault.pool.dbNames.map vault.pool.bundledSize).sum := by
    rw [← whole, List.map_flatMap, List.flatMap_assoc, List.length_flatMap]
    congr 1
    exact List.map_congr_left fun name _ => Pool.length_encodeFiles lawful stored name
  have epoch : BundleWire.optionalLength (tokenBytes P s.nonce token) = 93 := by
    have length := length_tokenBytes lawful minted s.nonce
    rw [BundleWire.optionalLength, if_neg, length]
    rw [List.isEmpty_iff]
    exact fun none => absurd (none ▸ length) (by decide)
  have total := BundleWire.length_encode
    ⟨env, s.credId, files.map fun file => (String.ofList file.1, file.2), tokenBytes P s.nonce token⟩
  rw [total, BundleWire.Decoding.weight, cond_true]
  dsimp only
  rw [sizes, epoch]
  omega

end Room

/-- A call of a cipher and what it gave. -/
structure Encryption where
  key : Vector UInt8 32
  nonce : Vector UInt8 24
  aad : List UInt8
  plain : List UInt8
  ct : List UInt8
  tag : Vector UInt8 16

/-- The primitives by what they gave on some inputs. -/
structure CallTable where
  hkdf : List ((List UInt8 × List UInt8) × Vector UInt8 32)
  hmac : List ((List UInt8 × List UInt8) × Vector UInt8 32)
  argon2id : List ((List UInt8 × List UInt8) × Vector UInt8 32)
  encryptions : List Encryption

namespace CallTable

variable (t : CallTable)

def encrypt (key : Vector UInt8 32) (nonce : Vector UInt8 24) (aad plain : List UInt8) :
    List UInt8 × Vector UInt8 16 :=
  match t.encryptions.find? fun e => e.key = key ∧ e.nonce = nonce ∧ e.aad = aad ∧ e.plain = plain with
  | some e => (e.ct, e.tag)
  | none => (plain, Vector.replicate 16 0)

def decrypt (key : Vector UInt8 32) (nonce : Vector UInt8 24) (aad ct : List UInt8)
    (tag : Vector UInt8 16) : Option (List UInt8) :=
  match t.encryptions.find? fun e =>
    e.key = key ∧ e.nonce = nonce ∧ e.aad = aad ∧ e.ct = ct ∧ e.tag = tag with
  | some e => some e.plain
  | none => if tag = Vector.replicate 16 0 then some ct else none

/-- The calls of the table; anything else is not hashed, and encrypted as it is. -/
def primitives : Primitives where
  sha256 _ := Vector.replicate 32 0
  hkdf ikm info := (t.hkdf.lookup (ikm, info)).getD (Vector.replicate 32 0)
  hmac key message := (t.hmac.lookup (key, message)).getD (Vector.replicate 32 0)
  argon2id mCost tCost pCost password salt :=
    if (mCost, tCost, pCost) = (19456, 2, 1) then t.argon2id.lookup (password, salt) else none
  encrypt := t.encrypt
  decrypt := t.decrypt
  upper c := [c.toUpper]

/-- The ciphertexts of the table are as long as what they encrypt, and decrypt. -/
def Consistent : Prop :=
  ∀ e ∈ t.encryptions, e.ct.length = e.plain.length ∧ e.tag ≠ Vector.replicate 16 0 ∧
    t.decrypt e.key e.nonce e.aad e.ct e.tag = some e.plain

instance : Decidable t.Consistent := inferInstanceAs (Decidable (∀ e ∈ t.encryptions, _))

variable {t}

theorem lawful (consistent : t.Consistent) : t.primitives.Lawful := by
  constructor
  · intro key nonce aad plain
    show t.decrypt key nonce aad (t.encrypt key nonce aad plain).1 (t.encrypt key nonce aad plain).2 =
      some plain
    unfold encrypt
    split
    · next e found =>
        have same := List.find?_some found
        simp only [decide_eq_true_eq] at same
        obtain ⟨rfl, rfl, rfl, rfl⟩ := same
        exact (consistent e (List.mem_of_find?_eq_some found)).2.2
    · unfold decrypt
      split
      · next e found =>
          have same := List.find?_some found
          simp only [decide_eq_true_eq] at same
          exact absurd same.2.2.2.2 (consistent e (List.mem_of_find?_eq_some found)).2.1
      · exact if_pos rfl
  · intro key nonce aad plain
    show (t.encrypt key nonce aad plain).1.length = plain.length
    unfold encrypt
    split
    · next e found =>
        have same := List.find?_some found
        simp only [decide_eq_true_eq] at same
        rw [(consistent e (List.mem_of_find?_eq_some found)).1, same.2.2.2]
    · rfl

end CallTable

namespace ExportSample

/-- `n` bytes, the least significant first. -/
def le (n value : Nat) : Vector UInt8 n := ⟨(toLe n value).toArray, by simp⟩

def deviceSecret : List UInt8 := List.replicate 32 9

def code : List Char := "000G4-0R40M-30E20-9185G-R38E1-WV308".toList

def macKey : Vector UInt8 32 := le 32 0x4525feab9604415848dbb3845e42970e1587bbe67976883333a0b6cf8f711210
def deviceKek : Vector UInt8 32 :=
  le 32 0x5e405fc9eb639bae9c61af39ab8e04ec7b1a9b4e8d13d001b390da5a6b1995df
def recoveryKek : Vector UInt8 32 :=
  le 32 0x6460ccd7fe121c48032d03ba7c3c4963e9cf2dfa240c1dd791ccf1d971f212c7
def epochKey : Vector UInt8 32 := le 32 0x327b1eb73652ebc619744b09f773bafe19590261e4af7100e29bfb4daafd25b

def deviceSlot : WireSlot where
  kekId := 0
  kind := Freehold.kindDevice
  nonce := Vector.replicate 24 1
  ct := le 32 0xcf514744adfd9bf1bc5351c1f5aada44a54267ef14da7dd6d28110ba47a2b29a
  tag := le 16 0x44ee5e9eefa08a071dd7e30cd374bb8a

def recoverySlot : WireSlot where
  kekId := 1
  kind := Freehold.kindRecovery
  nonce := Vector.replicate 24 2
  ct := le 32 0x32fa31c9c0932ee0d2c10f11d6cee31929bf0c08c7a750e81d8d659c03fc45bf
  tag := le 16 0x25f0d17ff67cd00f1627c6a6904bf94b

/-- The envelope of a device that has added a recovery code. -/
def wire : Wire where
  reserved := le 2 0
  salt := le 16 5
  generation := le 8 2
  slots := [deviceSlot, recoverySlot]
  mac := le 32 0x3bef88ddf7c2785352a7fc172e48d010420a0930c1a9ffacec12adb4673498a5

def exported : Wire :=
  { wire with
    slots := [recoverySlot]
    mac := le 32 0x36cd8d5ab9ee60b7e9c2ba07c46efb012511eb7332ca2805c0f2c4623164611c }

def calls : CallTable where
  hkdf := [((dekBytes 7, EnvelopeWire.macInfo), macKey), ((deviceSecret, kekInfo), deviceKek),
    ((dekBytes 7, Key.info (.epochKey 7)), epochKey),
    ((dekBytes 7, Key.info (.dbKey 7 7)),
      le 32 0xc1f76c17ff4ba1c4524fb0831e27d1e14d3c2cc0503447e9ff305cbca0f1d9cc)]
  hmac := [((macKey.toList, wire.body), wire.mac), ((macKey.toList, exported.body), exported.mac)]
  argon2id := [((DeviceCert.strBytes code, toLe 16 5), recoveryKek)]
  encryptions := [
    ⟨deviceKek, deviceSlot.nonce, slotAad 0 Freehold.kindDevice, dekBytes 7, deviceSlot.ct.toList,
      deviceSlot.tag⟩,
    ⟨recoveryKek, recoverySlot.nonce, slotAad 1 Freehold.kindRecovery, dekBytes 7,
      recoverySlot.ct.toList, recoverySlot.tag⟩,
    ⟨epochKey, Vector.replicate 24 4, utf8Bytes "freehold-epoch",
      uuidBytes 7 ++ toLe 8 1 ++ toLe 8 2 ++ List.replicate 16 3,
      toLe 48 0x331a98dccc8ebb2b529a5260fcb09e14cf9b7e75ddd1e0ab41424cb3d48a93238ce706ba07a4e5527dee43dbe78d4c3f,
      le 16 0x99dde49dfe984e18f2f4f7a67606efea⟩]

def methods : List Enrollment :=
  [⟨0, Freehold.kindDevice, .prf deviceSecret⟩, ⟨1, Freehold.kindRecovery, .recovery code⟩]

def enrolled : Enrolled :=
  ⟨Envelope.finalize ⟨5, 2, methods.map (Enrolled.slotOf 7 5)⟩ 7, 7, methods⟩

def vault (pool : Pool) : Vault :=
  ⟨pool, true, some enrolled.env, none, none, some deviceSecret, none, []⟩

def session (pool : Pool) : Exporter where
  raw := pool.rawWith calls.primitives (Vector.replicate 24 0)
  deviceId := Vector.replicate 16 3
  nonce := Vector.replicate 24 4
  credId := []
  envelope := wire.bytes

theorem lawful : calls.primitives.Lawful := CallTable.lawful (by decide +kernel)

theorem stores : wire.Stores calls.primitives (.recovery (normalize calls.primitives code) 5)
    enrolled.env := by
  have normal : normalize calls.primitives code = code := by decide +kernel
  rw [normal]
  refine ⟨.cons ⟨rfl, rfl, ?_, ?_⟩ (.cons ⟨rfl, rfl, ?_, ?_⟩ .nil), by decide +kernel, by decide +kernel, ?_⟩
  · intro key ids dek same
    cases same
    exact ⟨deviceKek, by decide +kernel, by decide +kernel⟩
  · exact fun other => absurd other (by decide)
  · intro key ids dek same
    cases same
    exact ⟨recoveryKek, by decide +kernel, by decide +kernel⟩
  · exact fun _ other => absurd rfl other
  · intro dek issued
    have same : some ((7 : Dek), enrolled.env.body) = some (dek, enrolled.env.body) := issued
    cases same
    decide +kernel

theorem portable {pool : Pool} (wf : pool.Wf) (dek : pool.dek = 7)
    (plain : ∀ name ∈ pool.dbNames, '|' ∉ name ∧ '\n' ∉ name)
    (room : (pool.dbNames.map pool.bundledSize).sum < 2 ^ 31) :
    Portable calls.primitives (vault pool) (session pool) code enrolled wire where
  unlocked := rfl
  wf := wf
  stored := pool.stored_rawWith _ _
  dek := dek.symm
  inv := ⟨rfl, rfl, by decide, by decide⟩
  envelope := rfl
  stores := stores
  recovery := ⟨⟨1, Freehold.kindRecovery, .recovery code⟩, by decide +kernel, rfl, by decide +kernel⟩
  room bytes bundled := by
    have stripped : stripExportEnvelope calls.primitives 7 wire.bytes = .ok exported.bytes := by
      decide +kernel
    have length := length_sessionExport lawful rfl (pool.stored_rawWith _ _) plain
      (by rw [vault, dek]; exact stripped) bundled
    have env : exported.bytes.length = 142 := by decide +kernel
    have none : BundleWire.optionalLength (session pool).credId = 0 := rfl
    rw [length, env, none]
    have room : ((vault pool).pool.dbNames.map (vault pool).pool.bundledSize).sum < 2 ^ 31 := room
    omega

def directory : Pool := ⟨7, ∅, List.replicate 6 (Pool.pooled 7), .blank, ∅⟩

def dbA : FileName := ['a', '.', 'd', 'b']
def dbB : FileName := ['b', '.', 'd', 'b']
def dbC : FileName := ['c', '.', 'd', 'b']

/-- Two databases and the journal of the first take five slots of six. -/
def opened : List OpenFiles.Op :=
  [.xOpen 7 .mainDb dbA true, .xOpen 8 .mainDb dbB true, .xOpen 0 .journal (journalName dbA) true,
    .xOpen 9 .mainDb dbC true, .xClose ⟨journalName dbA, .journal⟩ false, .xDelete (journalName dbA)]

end ExportSample

/-- A database that was never written to. -/
theorem recover_exact_sample : ∃ s, Runs.run OpenFiles.step
      ⟨ExportSample.directory.reopen 7, []⟩ (ExportSample.opened.take 1) = some s ∧
    s.pool.Holds ExportSample.dbA [] ∧
    Recovers .wasm32 ExportSample.calls.primitives (ExportSample.vault s.pool)
      (ExportSample.session s.pool) ExportSample.code := by
  obtain ⟨s, ran, wf, dek, plain, room, exportable, held⟩ := @Runs.exists_run _ _ OpenFiles.step
    ⟨ExportSample.directory.reopen 7, []⟩ (ExportSample.opened.take 1)
    (fun s => s.pool.Wf ∧ s.pool.dek = 7 ∧ (∀ name ∈ s.pool.dbNames, '|' ∉ name ∧ '\n' ∉ name) ∧
      (s.pool.dbNames.map s.pool.bundledSize).sum < 2 ^ 31 ∧ s.pool.Exportable ∧
      s.pool.heldImage ExportSample.dbA = some []) _ (by decide +kernel)
  refine ⟨s, ran, Pool.holds_iff.mpr held, ?_⟩
  exact (recover_exact .wasm32 _ ExportSample.lawful _ _ _ _ _
    (ExportSample.portable wf dek plain room)).mpr exportable

/-- A database that could not be created stays behind without a manifest, and nothing is recovered. -/
theorem recover_misses : ∃ s, Runs.run OpenFiles.step
      ⟨ExportSample.directory.reopen 7, []⟩ ExportSample.opened = some s ∧
    Portable ExportSample.calls.primitives (ExportSample.vault s.pool) (ExportSample.session s.pool)
      ExportSample.code ExportSample.enrolled ExportSample.wire ∧
    s.pool.Holds ExportSample.dbA [] ∧ s.pool.Holds ExportSample.dbB [] ∧
    s.pool.hasFilename (journalName ExportSample.dbA) = false ∧
    ¬Recovers .wasm32 ExportSample.calls.primitives (ExportSample.vault s.pool)
      (ExportSample.session s.pool) ExportSample.code := by
  obtain ⟨s, ran, wf, dek, plain, room, stranded, heldA, heldB, none⟩ := @Runs.exists_run _ _ OpenFiles.step
    ⟨ExportSample.directory.reopen 7, []⟩ ExportSample.opened
    (fun s => s.pool.Wf ∧ s.pool.dek = 7 ∧ (∀ name ∈ s.pool.dbNames, '|' ∉ name ∧ '\n' ∉ name) ∧
      (s.pool.dbNames.map s.pool.bundledSize).sum < 2 ^ 31 ∧ ¬s.pool.Exportable ∧
      s.pool.heldImage ExportSample.dbA = some [] ∧ s.pool.heldImage ExportSample.dbB = some [] ∧
      s.pool.hasFilename (journalName ExportSample.dbA) = false) _ (by decide +kernel)
  have portable := ExportSample.portable wf dek plain room
  refine ⟨s, ran, portable, Pool.holds_iff.mpr heldA, Pool.holds_iff.mpr heldB, none, ?_⟩
  exact fun recovers => stranded (recovers.exportable ExportSample.lawful portable)

end Freehold
