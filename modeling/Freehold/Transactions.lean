import Freehold.FilePages
import Freehold.JournalReplay
import Freehold.TornManifest

set_option autoImplicit false

/- Transactions of SQLite's pager on one database, and what a vault opens with between them. -/
namespace Freehold

open CrashLogic

/-- `valid_db_name` -/
def validDbName (name : FileName) : Bool :=
  name ≠ [] && byteLen name ≤ 32 && name.all fun c =>
    ('a' ≤ c && c ≤ 'z') || ('0' ≤ c && c ≤ '9') || c == '_' || c == '-'

theorem nonempty_of_valid {name : FileName} (valid : validDbName name = true) : name ≠ [] := by
  simp only [validDbName, Bool.and_eq_true, decide_eq_true_eq] at valid
  exact valid.1.1

theorem byteLen_of_valid {name : FileName} (valid : validDbName name = true) : byteLen name ≤ 32 := by
  simp only [validDbName, Bool.and_eq_true, decide_eq_true_eq] at valid
  exact valid.1.2

theorem fits_of_valid_stem {stem : FileName} (valid : validDbName stem = true) :
    Fits (manifestName (stem ++ dbSuffix)) := by
  have suffixes : byteLen dbSuffix = 3 ∧ byteLen manifestSuffix = 9 := by decide
  have short := byteLen_of_valid valid
  have limit : headerMaxFilenameSize = 512 := rfl
  refine ⟨List.append_ne_nil_of_right_ne_nil _ (List.cons_ne_nil _ _), ?_⟩
  rw [manifestName, byteLen_append, byteLen_append]
  omega

/-- The database `session_sql` opens under a name. -/
def sessionDb (stem : FileName) (valid : validDbName stem = true) : DbName where
  name := stem ++ dbSuffix
  nonempty := List.append_ne_nil_of_left_ne_nil (nonempty_of_valid valid) _
  fits := fits_of_valid_stem valid

/-- It is no journal by its name. -/
theorem stripSuffix_sessionDb {stem : FileName} {valid : validDbName stem = true} :
    stripSuffix (sessionDb stem valid).name journalSuffix = none := by
  have ends := endsWith_append stem dbSuffix
  have apart : endsWith (stem ++ dbSuffix) journalSuffix = false :=
    not_endsWith_of_endsWith ends (by decide)
  rw [stripSuffix, show (sessionDb stem valid).name = stem ++ dbSuffix from rfl, apart,
    if_neg Bool.false_ne_true]

/-- Where a database is with its transactions: its manifest records the main file, or the main file has
changed since without a journal, or a journal has its header. -/
inductive PagerPhase where
  | sealed
  | stale
  | begun
  deriving DecidableEq, Repr

/-- After a call that finalizes the journal. -/
def PagerPhase.ended : PagerPhase → PagerPhase
  | begun => sealed
  | phase => phase

theorem PagerPhase.ended_ne_begun (phase : PagerPhase) : phase.ended ≠ .begun := by
  cases phase <;> decide

namespace FileCall

/-- A call of the pager on the main file: a whole page, the first one with the header of a database,
a number of pages to keep, or a sync. -/
def pageCall : FileCall → Bool
  | writeMain bytes offset => bytes.length = blockSize && offset.toNat % blockSize = 0 &&
      (offset.toNat ≠ 0 || sqliteMagic.isPrefixOf bytes)
  | truncateMain size => size.toNat % blockSize = 0
  | syncMain => true
  | _ => false

/-- The order in which the pager calls with a journal file: pages of the main file are changed only while
the header of the journal stands, and the journal is finalized last. -/
def turns (phase : PagerPhase) : FileCall → Option PagerPhase
  | openJournal _ => if phase = .begun then none else some phase
  | writeJournal bytes offset =>
      if offset.toNat = 0 then
        if journalMagic.isPrefixOf bytes then some .begun
        else if 8 ≤ bytes.length then some phase.ended else none
      else if 8 ≤ offset.toNat then some phase else none
  | truncateJournal size =>
      if size = 0 then some phase.ended else if phase = .begun then none else some phase
  | syncJournal => some phase
  | deleteJournal => some phase.ended
  | syncMain => some phase
  | call => if phase = .begun ∧ call.pageCall = true then some .begun else none

/-- What the pager's calls make of the pages of the main file. -/
def onPages : FileCall → List (Option Block) → List (Option Block)
  | writeMain bytes offset, pages => setPage pages (offset.toNat / blockSize) (pageOf bytes)
  | truncateMain size, pages => cutPages pages (size.toNat / blockSize)
  | _, pages => pages

end FileCall

/-- A transaction: its calls up to the end of its journal, or all of them if it has no journal file,
and the number of pages that the main file is cut to after that. -/
structure Transaction where
  journaled : Bool
  calls : List FileCall
  shrink : Option Nat

namespace Transaction

/-- The calls in their order. -/
def all (t : Transaction) : List FileCall :=
  t.calls ++ (t.shrink.map fun pages => .truncateMain (pages * blockSize : Nat)).toList

/-- The documented order of the pager, with a journal file or in the modes that have none, and where it
leaves the database. -/
def turns (t : Transaction) (phase : PagerPhase) : Option PagerPhase :=
  if t.journaled then
    (t.calls.foldlM FileCall.turns phase).bind fun last =>
      if last = .begun then none else some (if t.shrink.isSome then .stale else last)
  else if t.calls.all FileCall.pageCall then some .stale else none

/-- What a transaction makes of the pages. -/
def pages (t : Transaction) (before : List (Option Block)) : List (Option Block) :=
  t.all.foldl (fun pages call => call.onPages pages) before

def run (name : FileName) (t : Transaction) : VfsM Unit :=
  Prog.forEach (fun call => call.run name) t.all

end Transaction

/-- What a manifest tells of an image of the main file: its length and its root. A new database has no
root yet. -/
structure ManifestPayload.Records (payload : ManifestPayload) (name : FileName) (image : List Block) :
    Prop where
  length : payload.lengthOf (fileIdFor name) = some (image.length * blockSize)
  root : payload.merkleRoot = rootOf image ∨ (image = [] ∧ payload.merkleRoot = .zero)

namespace Pool

/-- An open database: its handles bound, with some pages in its main file. -/
structure Serving (db : DbName) (st : DbState) (pages : List (Option Block)) (q : Pool) : Prop where
  wf : q.Wf
  onDisk : q.OnDisk db
  current : q.Current db.name st
  main : ∃ file, q.files[db.name]? = some file ∧ file.crypto = st.crypto ∧ file.keyDomain = st.uuid ∧
    file.isMainDb = true ∧ file.pages = pages ∧ file.logicalSize = some (pages.length * blockSize) ∧
    (pages = [] → file.data.size = 0)
  journal : ∀ file, q.files[journalName db.name]? = some file →
    file.crypto = st.crypto ∧ file.keyDomain = st.uuid
  headed : ∀ page, pages[0]? = some (some page) → checkHeader page = .ok ()
  fresh : Fresh q.dek q.anchor st.uuid st.generation

/-- One whose manifest records its main file. -/
structure Settled (db : DbName) (st : DbState) (pages : List (Option Block)) (q : Pool) : Prop where
  image : ∃ image payload, pages = image.map some ∧
    q.readManifest (manifestName db.name) = .ok (st.uuid, payload) ∧
    payload.dbGeneration = st.generation ∧ payload.Records db.name image

/-- What holds of an open database between two calls. -/
structure Transacting (db : DbName) (st : DbState) (pages : List (Option Block)) (phase : PagerPhase) (q : Pool) :
    Prop where
  serving : Serving db st pages q
  hot : q.hot db.name = decide (phase = .begun)
  settled : phase = .sealed → Settled db st pages q

section State

variable {db : DbName} {st : DbState} {pages : List (Option Block)} {p q : Pool}

theorem OnlyFile.trans {name : FileName} {r : Pool} (first : OnlyFile name p q) (second : OnlyFile name q r) :
    OnlyFile name p r :=
  ⟨second.dek.trans first.dek, second.dbs.trans first.dbs, second.anchor.trans first.anchor,
    fun other apart => (second.files other apart).trans (first.files other apart)⟩

theorem OnlyFile.sameDb {name other : FileName} (only : OnlyFile other p q)
    (apart : manifestName name ≠ other) : SameDb name p q :=
  ⟨only.dek, by rw [only.dbs], only.files _ apart⟩

theorem Wf.modifyFile {name : FileName} {f : SyncAccessFile → SyncAccessFile} (wf : q.Wf)
    (header : ∀ file, (f file).header = file.header) (fileId : ∀ file, (f file).fileId = file.fileId) :
    (q.modifyFile name f).Wf := by
  have kept : ∀ (other : FileName) (file : SyncAccessFile),
      (q.modifyFile name f).files[other]? = some file →
      ∃ old, q.files[other]? = some old ∧ file.header = old.header ∧ file.fileId = old.fileId := by
    intro other file found
    simp only [Pool.modifyFile, Std.ExtTreeMap.getElem?_modify, Std.LawfulEqCmp.compare_eq_iff_eq]
      at found
    split at found
    · next same =>
        obtain ⟨old, there, rfl⟩ := Option.map_eq_some_iff.mp found
        exact ⟨old, same ▸ there, header old, fileId old⟩
    · exact ⟨file, found, rfl, rfl⟩
  refine ⟨fun other file found => ?_, fun other file found => ?_, wf.cleared⟩
  · obtain ⟨old, there, same, _⟩ := kept other file found
    rw [Pool.named, same]
    exact wf.named other old there
  · obtain ⟨old, there, _, same⟩ := kept other file found
    rw [same]
    exact wf.bound other old there

/-- Whether the journal of an open database is hot is whether it has its magic. -/
theorem hot_eq (current : q.Current db.name st) (wf : q.Wf)
    (journal : ∀ file, q.files[journalName db.name]? = some file →
      file.crypto = st.crypto ∧ file.keyDomain = st.uuid) :
    q.hot db.name = ((q.files[journalName db.name]?).map SyncAccessFile.marked).getD false := by
  unfold Pool.hot Pool.hotJournal
  simp only [current.db]
  cases found : q.files[journalName db.name]? with
  | none => rfl
  | some file =>
      obtain ⟨crypto, domain⟩ := journal file found
      have fileId := wf.bound _ file found
      rw [Option.map_some, Option.getD_some]
      unfold journalIsHot SyncAccessFile.marked
      dsimp only
      rw [SyncAccessFile.getElem?_pages, ← crypto, ← domain, ← fileId]
      cases file.data.cells[0]? with
      | none => rfl
      | some cell =>
          rw [Option.map_some]
          unfold SyncAccessFile.openCell
          dsimp only
          split <;> simp_all

theorem journalName_ne_self (name : FileName) : journalName name ≠ name := by
  intro same
  have parent : satelliteParent (journalName name) = some name := by
    rw [satelliteParent, journalName, stripSuffix_append, Option.some_or]
  exact satelliteParent_ne_self name ((congrArg satelliteParent same).symm.trans parent)

/-- The journal changes, and nothing else. -/
theorem Serving.ofJournal (serving : Serving db st pages p) (only : OnlyFile (journalName db.name) p q)
    (wf : q.Wf) (onDisk : q.OnDisk db) (journal : ∀ file, q.files[journalName db.name]? = some file →
      file.crypto = st.crypto ∧ file.keyDomain = st.uuid) : Serving db st pages q := by
  have manifest := Ne.symm (journalName_ne_manifestName db.name db.name)
  have apart := Ne.symm (journalName_ne_self db.name)
  refine ⟨wf, onDisk, (only.sameDb manifest).current serving.current, ?_, journal, serving.headed, ?_⟩
  · rw [only.files db.name apart]
    exact serving.main
  · rw [only.dek, only.anchor]
    exact serving.fresh

/-- The main file changes, and nothing else. -/
theorem Serving.ofMain (serving : Serving db st pages p) (only : OnlyFile db.name p q) (wf : q.Wf)
    (onDisk : q.OnDisk db) {next : List (Option Block)}
    (main : ∃ file, q.files[db.name]? = some file ∧ file.crypto = st.crypto ∧ file.keyDomain = st.uuid ∧
      file.isMainDb = true ∧ file.pages = next ∧ file.logicalSize = some (next.length * blockSize) ∧
      (next = [] → file.data.size = 0))
    (headed : ∀ page, next[0]? = some (some page) → checkHeader page = .ok ()) :
    Serving db st next q := by
  have apart := journalName_ne_self db.name
  refine ⟨wf, onDisk, (only.sameDb (manifestName_ne_self db.name)).current serving.current, main, ?_,
    headed, ?_⟩
  · rw [only.files _ apart]
    exact serving.journal
  · rw [only.dek, only.anchor]
    exact serving.fresh

theorem Settled.ofSame (settled : Settled db st pages p) (same : SameDb db.name p q) :
    Settled db st pages q := by
  obtain ⟨image, payload, shape, read, generation, records⟩ := settled.image
  exact ⟨image, payload, shape, same.readManifest.trans read, generation, records⟩

end State

section Kept

variable {name : FileName}

theorem keeps_wf_writeBlocks (offset : Nat) (bytes : List UInt8) :
    Keeps Wf (Pool.writeBlocks name offset bytes) := by
  induction offset, bytes using Pool.writeBlocks.induct with
  | case1 offset bytes more lo chunk ih =>
      rw [Pool.writeBlocks, dif_pos more]
      apply keeps_withFile
      intro file
      apply keeps_bind (keeps_ofExcept _)
      intro plain
      exact keeps_bind (keeps_effect fun q wf => wf.modifyFile (fun _ => rfl) fun _ => rfl) fun _ => ih
  | case2 offset bytes done =>
      rw [Pool.writeBlocks, dif_neg done]
      exact keeps_pure ()

theorem keeps_wf_write (bytes : List UInt8) (offset : Nat) : Keeps Wf (Pool.write name bytes offset) := by
  apply keeps_withFile
  intro file
  split
  · exact keeps_pure ()
  · apply keeps_bind (keeps_ofExcept _)
    intro _
    apply keeps_bind (keeps_wf_writeBlocks offset bytes)
    intro _
    exact keeps_modify fun q wf => wf.modifyFile (fun _ => rfl) fun _ => rfl

theorem keeps_wf_truncate (size : Nat) : Keeps Wf (Pool.truncate name size) := by
  have cut : Keeps Wf (Pool.withFile name fun _ => do
      Prog.effect (Pool.modifyFile name fun file =>
        { file with data := file.data.truncateCells ((size + blockSize - 1) / blockSize) })
      Prog.modify (Pool.modifyFile name fun file => { file with logicalSize := some size })) := by
    apply keeps_withFile
    intro _
    exact keeps_bind (keeps_effect fun q wf => wf.modifyFile (fun _ => rfl) fun _ => rfl) fun _ =>
      keeps_modify fun q wf => wf.modifyFile (fun _ => rfl) fun _ => rfl
  unfold Pool.truncate
  split
  · refine keeps_bind ?_ fun _ => cut
    apply keeps_withFile
    intro file
    dsimp only
    split
    · exact keeps_pure ()
    · split
      · exact keeps_fail _
      · exact keeps_effect fun q wf => wf.modifyFile (fun _ => rfl) fun _ => rfl
  · exact cut

end Kept

/-- A first page with a header, of the size the VFS insists on. -/
theorem checkHeader_pageOf {file : SyncAccessFile} {bytes : List UInt8} (isMain : file.isMainDb = true)
    (whole : bytes.length = blockSize) (magic : sqliteMagic.isPrefixOf bytes = true)
    (checked : file.pageSizeCheck bytes 0 = .ok ()) : checkHeader (pageOf bytes) = .ok () := by
  have same : (pageOf bytes).toList = bytes := by
    rw [toList_pageOf (Nat.le_of_eq whole.symm), List.take_of_length_le (Nat.le_of_eq whole)]
  have long : 18 ≤ bytes.length := by
    rw [whole]
    decide
  unfold SyncAccessFile.pageSizeCheck at checked
  rw [if_pos ⟨isMain, rfl, long, magic⟩] at checked
  unfold checkHeader headerPageSize
  rw [same, if_pos magic]
  let declared := (bytes.getD 16 0).toNat * 256 + (bytes.getD 17 0).toNat
  have size : (if declared = 1 then 65536 else declared) = blockSize := by
    by_contra other
    rw [if_neg other] at checked
    cases checked
  exact if_pos size

section Calls

open Freehold.SyncAccessFile

variable {db : DbName} {st : DbState} {pages : List (Option Block)} {p q : Pool}

/-- A page of the main file is written. -/
theorem meets_writeMain (serving : Serving db st pages q) {bytes : List UInt8} {k : Nat}
    (whole : bytes.length = blockSize) (header : k ≠ 0 ∨ sqliteMagic.isPrefixOf bytes = true) :
    (Pool.write db.name bytes (k * blockSize) q).Meets (fun _ => True)
      (fun _ r => OnlyFile db.name q r ∧ Serving db st (setPage pages k (pageOf bytes)) r)
      fun _ _ => True := by
  obtain ⟨file, found, crypto, domain, isMain, shape, logical, _⟩ := serving.main
  have apart := Ne.symm (manifestName_ne_self db.name)
  have wrote := @meets_write_page db.name q file k bytes found whole
  have only := keeps_only_write bytes (k * blockSize) q (.refl db.name q)
  have wf := @keeps_wf_write db.name bytes (k * blockSize) q serving.wf
  have onDisk := keeps_write (OnDisk.keptByWrites apart) bytes (k * blockSize) q serving.onDisk
  refine ((wrote.and only).and (wf.and onDisk)).mono (fun _ _ => trivial) ?_ fun _ _ _ => trivial
  rintro _ r ⟨⟨⟨checked, there⟩, only⟩, wf, onDisk⟩
  refine ⟨only, serving.ofMain only wf onDisk ⟨_, there, crypto, domain, isMain, ?_, ?_, ?_⟩ ?_⟩
  · rw [← shape]
    exact @pages_withPage file k (pageOf bytes)
  · rw [length_setPage, ← Nat.mul_max_mul_right, Nat.succ_mul, written, logical, Option.getD_some]
  · intro none_left
    have some_left := @length_setPage pages k (pageOf bytes)
    rw [none_left, List.length_nil] at some_left
    omega
  · intro page first
    rcases Nat.eq_zero_or_pos k with rfl | later
    · rw [getElem?_setPage, if_pos rfl, Option.some.injEq, Option.some.injEq] at first
      rw [Nat.zero_mul] at checked
      rw [← first]
      exact checkHeader_pageOf isMain whole (header.resolve_left (not_not.mpr rfl)) checked
    · rcases @getElem?_setPage_zero pages k (pageOf bytes) later with gap | same
      · rw [gap] at first
        cases first
      · exact serving.headed page (same.symm.trans first)

/-- The main file is cut to whole pages. -/
theorem meets_truncateMain (serving : Serving db st pages q) (n : Nat) :
    (Pool.truncate db.name (n * blockSize) q).Meets (fun _ => True)
      (fun _ r => OnlyFile db.name q r ∧ Serving db st (cutPages pages n) r) fun _ _ => True := by
  obtain ⟨file, found, crypto, domain, isMain, shape, logical, _⟩ := serving.main
  have apart := Ne.symm (manifestName_ne_self db.name)
  have cut := meets_truncate_pages found n
  have only := keeps_only_truncate (n * blockSize) q (.refl db.name q)
  have wf := @keeps_wf_truncate db.name (n * blockSize) q serving.wf
  have onDisk := keeps_truncate (OnDisk.keptByWrites apart) (n * blockSize) q serving.onDisk
  refine ((cut.and only).and (wf.and onDisk)).mono (fun _ _ => trivial) ?_ fun _ _ _ => trivial
  rintro _ r ⟨⟨there, only⟩, wf, onDisk⟩
  refine ⟨only, serving.ofMain only wf onDisk ⟨_, there, crypto, domain, isMain, ?_, ?_, ?_⟩ ?_⟩
  · rw [← shape]
    exact @pages_cutTo file n
  · rw [length_cutPages]
  · intro none_left
    have zero := @length_cutPages pages n
    rw [none_left, List.length_nil] at zero
    subst zero
    have none_kept : (file.cutTo 0).data.cells = [] := by
      rw [cells_cutTo, Nat.zero_sub, List.take_zero]
      rfl
    show (file.cutTo 0).data.cells.length * physBlock + 0 = 0
    rw [none_kept]
    rfl
  · intro page first
    rcases Nat.eq_zero_or_pos n with rfl | some_left
    · rw [List.getElem?_eq_none (by rw [length_cutPages])] at first
      cases first
    · rw [getElem?_cutPages some_left] at first
      split at first
      · exact serving.headed page first
      · cases first

/-- The pager's calls on the main file. -/
theorem meets_mainCall (plain : stripSuffix db.name journalSuffix = none) {call : FileCall}
    (paged : call.pageCall = true) (serving : Serving db st pages q) :
    (call.run db.name q).Meets (fun _ => True)
      (fun _ r => OnlyFile db.name q r ∧ Serving db st (call.onPages pages) r) fun _ _ => True := by
  have silent : asVfs sqliteIoerr (Pool.finalizes db.name) = (Prog.pure () : VfsM Unit) := by
    rw [Pool.finalizes, plain]
    rfl
  cases call with
  | openJournal create => cases paged
  | writeJournal bytes offset => cases paged
  | truncateJournal size => cases paged
  | syncJournal => cases paged
  | deleteJournal => cases paged
  | syncMain =>
      have kept : Keeps (fun r => OnlyFile db.name q r ∧ Serving db st pages r) (Vfs.xSync db.name) :=
        keeps_withFile fun _ => keeps_pure ()
      exact (kept q ⟨.refl db.name q, serving⟩).mono (fun _ _ => trivial) (fun _ _ both => both)
        fun _ _ _ => trivial
  | writeMain bytes offset =>
      simp only [FileCall.pageCall, Bool.and_eq_true, Bool.or_eq_true, decide_eq_true_eq, ne_eq] at paged
      obtain ⟨⟨whole, aligned⟩, header⟩ := paged
      have start : offset.toNat / blockSize * blockSize = offset.toNat := Nat.div_mul_cancel
        (Nat.dvd_of_mod_eq_zero aligned)
      have wrote := meets_writeMain serving whole (k := offset.toNat / blockSize)
        (header.imp_left fun nonzero zero => nonzero (by rw [← start, zero, Nat.zero_mul]))
      rw [start] at wrote
      show (Vfs.xWrite db.name bytes offset q).Meets _ _ _
      unfold Vfs.xWrite
      split
      · exact meets_fail trivial
      · rw [silent]
        split
        · exact wrote
        · exact wrote
  | truncateMain size =>
      have aligned : size.toNat % blockSize = 0 := of_decide_eq_true paged
      have start : size.toNat / blockSize * blockSize = size.toNat := Nat.div_mul_cancel
        (Nat.dvd_of_mod_eq_zero aligned)
      have cut := meets_truncateMain serving (size.toNat / blockSize)
      rw [start] at cut
      show (Vfs.xTruncate db.name size q).Meets _ _ _
      unfold Vfs.xTruncate
      split
      · exact meets_fail trivial
      · rw [silent]
        split
        · exact cut
        · exact cut

/-- A write into the journal: from the beginning on it brings its own magic or none, behind the magic it
leaves it. -/
theorem meets_writeJournal (serving : Serving db st pages q) {bytes : List UInt8} {offset : Nat}
    (place : 8 ≤ offset ∨ (offset = 0 ∧ 8 ≤ bytes.length)) :
    (Pool.write (journalName db.name) bytes offset q).Meets (fun _ => True)
      (fun _ r => OnlyFile (journalName db.name) q r ∧ Serving db st pages r ∧
        r.hot db.name = if offset = 0 then journalMagic.isPrefixOf bytes else q.hot db.name)
      fun _ _ => True := by
  have apart := journalName_ne_manifestName db.name db.name
  cases found : q.files[journalName db.name]? with
  | none => exact meets_withFile_missing found
  | some file =>
      have wrote := @meets_write_marked (journalName db.name) q file offset bytes found
      have only := keeps_only_write bytes offset q (.refl (journalName db.name) q)
      have wf := @keeps_wf_write (journalName db.name) bytes offset q serving.wf
      have onDisk := keeps_write (OnDisk.keptByWrites apart) bytes offset q serving.onDisk
      refine ((wrote.and only).and (wf.and onDisk)).mono (fun _ _ => trivial) ?_ fun _ _ _ => trivial
      rintro _ r ⟨⟨⟨other, there, same, behind, front⟩, only⟩, wf, onDisk⟩
      have bound : ∀ left, r.files[journalName db.name]? = some left →
          left.crypto = st.crypto ∧ left.keyDomain = st.uuid := by
        intro left held
        obtain rfl := Option.some.inj (there.symm.trans held)
        rw [same.crypto, same.keyDomain]
        exact serving.journal file found
      have kept := serving.ofJournal only wf onDisk bound
      refine ⟨only, kept, ?_⟩
      rw [hot_eq kept.current wf bound, there, Option.map_some, Option.getD_some,
        hot_eq serving.current serving.wf serving.journal, found, Option.map_some, Option.getD_some]
      by_cases start : offset = 0
      · rw [if_pos start]
        exact front start (place.resolve_left (by omega)).2
      · rw [if_neg start]
        exact behind (place.resolve_right fun both => start both.1)

/-- A journal that is emptied, or cut when it has no magic, has none. -/
theorem meets_truncateJournal (serving : Serving db st pages q) {size : Nat}
    (cut : size = 0 ∨ q.hot db.name = false) :
    (Pool.truncate (journalName db.name) size q).Meets (fun _ => True)
      (fun _ r => OnlyFile (journalName db.name) q r ∧ Serving db st pages r ∧ r.hot db.name = false)
      fun _ _ => True := by
  have apart := journalName_ne_manifestName db.name db.name
  have only := keeps_only_truncate size q (.refl (journalName db.name) q)
  have wf := @keeps_wf_truncate (journalName db.name) size q serving.wf
  have onDisk := keeps_truncate (OnDisk.keptByWrites apart) size q serving.onDisk
  have left : (Pool.truncate (journalName db.name) size q).Meets (fun _ => True)
      (fun _ r => ∃ file, q.files[journalName db.name]? = some file ∧
        ∃ other, r.files[journalName db.name]? = some other ∧ SameHandle file other ∧
          other.marked = false) fun _ _ => True := by
    cases found : q.files[journalName db.name]? with
    | none =>
        unfold Pool.truncate
        split
        · apply meets_bind (fun _ _ => False) (meets_withFile_missing found)
          exact fun _ _ none_left => none_left.elim
        · exact meets_withFile_missing found
    | some file =>
        have unmarked : size = 0 ∨ file.marked = false := by
          rw [hot_eq serving.current serving.wf serving.journal, found] at cut
          exact cut
        refine (meets_truncate_unmarked found unmarked).mono (fun _ _ => trivial) ?_ fun _ _ _ => trivial
        exact fun _ r held => ⟨file, rfl, held⟩
  refine ((left.and only).and (wf.and onDisk)).mono (fun _ _ => trivial) ?_ fun _ _ _ => trivial
  rintro _ r ⟨⟨⟨file, found, other, there, same, unmarked⟩, only⟩, wf, onDisk⟩
  have bound : ∀ left, r.files[journalName db.name]? = some left →
      left.crypto = st.crypto ∧ left.keyDomain = st.uuid := by
    intro left held
    obtain rfl := Option.some.inj (there.symm.trans held)
    rw [same.crypto, same.keyDomain]
    exact serving.journal file found
  have kept := serving.ofJournal only wf onDisk bound
  refine ⟨only, kept, ?_⟩
  rw [hot_eq kept.current wf bound, there]
  exact unmarked

theorem meets_deleteJournal (serving : Serving db st pages q) :
    (Pool.deleteFile (journalName db.name) q).Meets (fun _ => True)
      (fun _ r => OnlyFile (journalName db.name) q r ∧ Serving db st pages r ∧ r.hot db.name = false)
      fun _ _ => True := by
  have live : q.Live q.dek q.stored := ⟨serving.wf, rfl, rfl⟩
  have gone := @meets_deleteFile q q.dek q.stored (journalName db.name) (fun _ => True)
    (fun _ r => r.Wf ∧ r.files[journalName db.name]? = none) (fun _ _ => True) live trivial
    (fun _ => trivial) fun _ r left _ _ => ⟨left.wf, left.missing Stored.put_disk_self⟩
  have only := keeps_only_deleteFile q (.refl (journalName db.name) q)
  have onDisk := OnDisk.keeps_deleteFile (journalName db.name) q serving.onDisk
  refine ((gone.and only).and onDisk).mono (fun _ _ => trivial) ?_ fun _ _ _ => trivial
  rintro _ r ⟨⟨⟨wf, none_left⟩, only⟩, onDisk⟩
  have bound : ∀ left, r.files[journalName db.name]? = some left →
      left.crypto = st.crypto ∧ left.keyDomain = st.uuid := by
    intro left held
    rw [none_left] at held
    cases held
  have kept := serving.ofJournal only wf onDisk bound
  refine ⟨only, kept, ?_⟩
  rw [hot_eq kept.current wf bound, none_left]
  rfl

/-- A journal that is opened in a transaction without a header yet has none. -/
theorem meets_openJournal (serving : Serving db st pages q) (cold : q.hot db.name = false)
    (create : Bool) : ((FileCall.openJournal create).run db.name q).Meets (fun _ => True)
      (fun _ r => OnlyFile (journalName db.name) q r ∧ Serving db st pages r ∧ r.hot db.name = false)
      fun _ _ => True := by
  have live : q.Live q.dek q.stored := ⟨serving.wf, rfl, rfl⟩
  let clear (r : Pool) : Prop := ∀ file, r.files[journalName db.name]? = some file →
    (file.crypto = st.crypto ∧ file.keyDomain = st.uuid ∧ file.marked = false) ∨ file.data = .empty
  have opened : (Vfs.xOpenImpl (journalName db.name) create q).Meets (fun _ => True)
      (fun _ r => r.Wf ∧ clear r) fun _ _ => True := by
    unfold Vfs.xOpenImpl
    apply meets_get_bind
    by_cases present : q.hasFilename (journalName db.name) = true
    · rw [if_pos present]
      refine meets_pure ⟨serving.wf, fun file found => .inl ?_⟩
      obtain ⟨crypto, domain⟩ := serving.journal file found
      rw [hot_eq serving.current serving.wf serving.journal, found] at cold
      exact ⟨crypto, domain, cold⟩
    · rw [if_neg present]
      split
      · have absent := live.lacksFilename.mp (Bool.not_eq_true _ ▸ present)
        apply meets_zoom
        refine @meets_withNewFile q q.dek q.stored (journalName db.name) (fun _ => True) (Prog.pure ()) _
          _ live absent trivial (fun _ _ _ _ => trivial) fun r left => meets_pure ⟨left.wf, ?_⟩
        intro file found
        obtain ⟨other, there, blank, _⟩ := left.found Stored.put_disk_self
        rw [← Option.some.inj (there.symm.trans found)]
        exact .inr blank
      · exact meets_fail trivial
  have only : Keeps (OnlyFile (journalName db.name) q) (Vfs.xOpenImpl (journalName db.name) create) := by
    unfold Vfs.xOpenImpl
    apply keeps_get_bind
    intro pool _
    split
    · exact keeps_pure ()
    · split
      · exact keeps_asVfs _ keeps_only_withNewFile
      · exact keeps_fail _
  have onDisk := OnDisk.keeps_xOpenImpl (journalName db.name) create q serving.onDisk
  apply meets_bind (fun _ r => (r.Wf ∧ clear r) ∧ OnlyFile (journalName db.name) q r ∧ r.OnDisk db)
  · exact ((opened.and (only q (.refl _ q))).and onDisk).mono (fun _ _ => trivial)
      (fun _ _ all => ⟨all.1.1, all.1.2, all.2⟩) fun _ _ _ => trivial
  · rintro _ r ⟨⟨wf, clear⟩, only, onDisk⟩
    have parent : satelliteParent (journalName db.name) = some db.name := by
      rw [satelliteParent, journalName, stripSuffix_append, Option.some_or]
    have noWal : endsWith (journalName db.name) walSuffix = false :=
      not_endsWith_of_endsWith (endsWith_append db.name journalSuffix) (by decide)
    have known : r.dbs[db.name]? = some st := by
      rw [only.dbs]
      exact serving.current.db
    apply meets_zoom
    show (Pool.bindSatellite (journalName db.name) r).Meets _ _ _
    unfold Pool.bindSatellite
    apply meets_get_bind
    simp only [parent, known, noWal, Bool.false_eq_true, if_false]
    apply meets_modify
    have changed := only.modifyFile fun file => { file with crypto := st.crypto, keyDomain := st.uuid }
    have bound : ∀ file, (r.modifyFile (journalName db.name) fun file =>
        { file with crypto := st.crypto, keyDomain := st.uuid }).files[journalName db.name]? = some file →
        (file.crypto = st.crypto ∧ file.keyDomain = st.uuid) ∧ file.marked = false := by
      intro file held
      rw [getElem?_modifyFile] at held
      obtain ⟨old, there, rfl⟩ := Option.map_eq_some_iff.mp held
      refine ⟨⟨rfl, rfl⟩, ?_⟩
      rcases clear old there with ⟨crypto, domain, unmarked⟩ | blank
      · rw [← crypto, ← domain]
        exact unmarked
      · have none_there : ({ old with crypto := st.crypto, keyDomain := st.uuid } :
            SyncAccessFile).pages = [] := by
          rw [SyncAccessFile.pages, blank]
          rfl
        rw [SyncAccessFile.marked, none_there]
        rfl
    have kept := serving.ofJournal changed (wf.modifyFile (fun _ => rfl) fun _ => rfl)
      (onDisk.rebind fun _ => ⟨rfl, rfl⟩) fun file held => (bound file held).1
    refine ⟨changed, kept, ?_⟩
    show (r.modifyFile (journalName db.name) _).hot db.name = false
    rw [hot_eq kept.current kept.wf kept.journal]
    cases held : (r.modifyFile (journalName db.name) fun file =>
        { file with crypto := st.crypto, keyDomain := st.uuid }).files[journalName db.name]? with
    | none => rfl
    | some file => exact (bound file held).2

end Calls

section Commit

variable {db : DbName} {st : DbState} {pages : List (Option Block)} {p q : Pool}

/-- A window moved forward with the generation lets the generation through. -/
theorem Fresh.raised {dek : Dek} {anchor later : AnchorFile} {uuid : Uuid} {gen gen' : Nat}
    {committed inFlight : Option Nat} (fresh : Fresh dek anchor uuid gen)
    (saved : anchorUpsert uuid committed inFlight none (anchorLoad dek anchor).2 =
      some (anchorLoad dek later).2)
    (grows : gen ≤ gen') (bounded : ∀ c, committed = some c → c ≤ gen' + 1) :
    Fresh dek later uuid gen' := by
  have found := find_anchorUpsert saved uuid
  rw [if_pos rfl] at found
  have before : ((anchorEntry dek anchor uuid).getD ⟨uuid, 0, 0, 0⟩).committed ≤ gen + 1 ∧
      ((anchorEntry dek anchor uuid).getD ⟨uuid, 0, 0, 0⟩).epochFloor ≤ gen := by
    have passed := fresh.1
    cases entry : anchorEntry dek anchor uuid with
    | none => exact ⟨Nat.zero_le _, Nat.zero_le _⟩
    | some e =>
        rw [entry] at passed
        exact freshnessGate_ok.mp passed
  constructor
  · rw [anchorEntry, found]
    rw [anchorEntry] at before
    refine freshnessGate_ok.mpr ⟨?_, ?_⟩
    · cases committed with
      | none => exact Nat.le_trans before.1 (by omega)
      | some c => exact Nat.max_le.mpr ⟨Nat.le_trans before.1 (by omega), bounded c rfl⟩
    · exact Nat.le_trans before.2 grows
  · apply anchorUpsert_ne_none.mpr
    refine .inl (List.mem_map.mpr ⟨_, List.mem_of_find?_eq_some found, ?_⟩)
    exact of_decide_eq_true (List.find?_some (p := fun e : AnchorEntry => decide (e.uuid = uuid)) found)

theorem fileIdFor_injective {name other : FileName} (same : fileIdFor name = fileIdFor other) :
    name = other := congrArg FileId.path same

/-- A manifest over the lengths of the pool's files records that of the main file. -/
theorem lengthOf_lengthTable {name : FileName} {file : SyncAccessFile} {payload : ManifestPayload}
    (found : q.files[name]? = some file) (table : payload.files = q.lengthTable name) :
    payload.lengthOf (fileIdFor name) = some file.ensureLogical := by
  have listed : (name, file) ∈ q.files.toList.filter fun entry =>
      entry.1 = name || satelliteParent entry.1 = some name := by
    rw [List.mem_filter]
    exact ⟨Std.ExtTreeMap.mem_toList_iff_getElem?_eq_some.mpr found, by simp⟩
  have recorded : (fileIdFor name, file.ensureLogical) ∈ payload.files := by
    rw [table]
    exact List.mem_map.mpr ⟨(name, file), listed, rfl⟩
  have unique : ∀ entry ∈ payload.files, entry.1 = fileIdFor name → entry.2 = file.ensureLogical := by
    intro entry member same
    rw [table] at member
    obtain ⟨⟨other, there⟩, held, rfl⟩ := List.mem_map.mp member
    obtain rfl := fileIdFor_injective same
    have mapped := Std.ExtTreeMap.mem_toList_iff_getElem?_eq_some.mp (List.mem_filter.mp held).1
    rw [Option.some.inj (found.symm.trans mapped)]
  unfold ManifestPayload.lengthOf
  cases first : payload.files.find? fun entry => entry.1 = fileIdFor name with
  | none => exact absurd (decide_eq_true rfl) (List.find?_eq_none.mp first _ recorded)
  | some entry =>
      have named := List.find?_some first
      rw [Option.map_some, unique entry (List.mem_of_find?_eq_some first) (of_decide_eq_true named)]

/-- The image of the main file of an open database is made of its pages. -/
theorem Serving.mainImage (serving : Serving db st pages q) {image : List Block} :
    q.mainImage db.name = some image ↔ pages = image.map some := by
  obtain ⟨file, found, crypto, domain, _, shape, logical, _⟩ := serving.main
  have whole : file.logicalSize = some (physLogical file.data) := by
    rw [logical, SyncAccessFile.physLogical_eq, shape]
  rw [Pool.mainImage, found, Option.bind_some, toOption_eq_some,
    readImage_eq_ok rfl rfl rfl whole, ← SyncAccessFile.pages_eq_image, shape]

/-- The barrier of a hot journal seals the pages of the main file. -/
theorem meets_commit (serving : Serving db st pages q) (hot : q.hot db.name = true) :
    (FileCall.barrier db.name q).Meets (fun _ => True)
      (fun _ r => ∃ image, Serving db (st.commit image) pages r ∧ Settled db (st.commit image) pages r)
      fun _ _ => True := by
  rw [barrier_hot serving.current hot]
  rcases onMainSynced_run serving.current with
    ⟨e, _, failed⟩ | ⟨table, image, saved, read, ⟨e, failed⟩ | ⟨next, again, ran⟩⟩
  · rw [failed]
    exact ⟨fun _ _ => trivial, trivial⟩
  · rw [failed]
    exact ⟨fun _ _ => trivial, trivial⟩
  · have kept := OnDisk.keeps_onMainSynced db.name q serving.onDisk
    rw [ran] at kept ⊢
    have first : (anchorLoad q.dek (q.savedOnce table).anchor).2 = table :=
      congrArg Prod.snd (anchorLoad_save (Nat.lt_succ_self _))
    have second : (anchorLoad q.dek
        (((q.savedOnce table).sealNext db.name st image).savedOnce next).anchor).2 = next :=
      congrArg Prod.snd (anchorLoad_save (Nat.lt_succ_self _))
    have recorded : AnchorOnly q (q.savedOnce table) := ⟨rfl, rfl, rfl⟩
    have committed := (recorded.sameDb.current serving.current).committed image
      (⟨rfl, rfl, rfl⟩ : AnchorOnly ((q.savedOnce table).sealNext db.name st image)
        (((q.savedOnce table).sealNext db.name st image).savedOnce next))
    have shape := serving.mainImage.mp read
    have wf : ((q.savedOnce table).sealNext db.name st image).Wf :=
      Wf.modifyFile ⟨serving.wf.named, serving.wf.bound, serving.wf.cleared⟩ (fun _ => rfl) fun _ => rfl
    have others : ∀ other ≠ manifestName db.name,
        ((q.savedOnce table).sealNext db.name st image).files[other]? = q.files[other]? := by
      intro other apart
      rw [Pool.sealNext, Pool.modifyFile, Std.ExtTreeMap.getElem?_modify,
        if_neg (by simpa using Ne.symm apart)]
      rfl
    have raised : Fresh q.dek (q.savedOnce table).anchor st.uuid st.generation :=
      serving.fresh.raised (saved.trans (congrArg some first.symm)) (Nat.le_refl _) fun c none_there => by
        cases none_there
    have fresh : Fresh q.dek (((q.savedOnce table).sealNext db.name st image).savedOnce next).anchor
        st.uuid (st.generation + 1) :=
      raised.raised (again.trans (congrArg some second.symm)) (Nat.le_succ _) fun c same => by
        rw [← Option.some.inj same]
        exact Nat.le_succ _
    refine ⟨fun _ _ => trivial, image, ⟨⟨wf.named, wf.bound, wf.cleared⟩, kept.2, committed.current, ?_, ?_,
      serving.headed, ?_⟩, image, _, shape, committed.manifest, rfl, ?_, .inl rfl⟩
    · obtain ⟨file, found, facts⟩ := serving.main
      exact ⟨file, (others _ (Ne.symm (manifestName_ne_self db.name))).trans found, facts⟩
    · intro file held
      exact serving.journal file ((others _ (journalName_ne_manifestName db.name db.name)).symm.trans held)
    · exact fresh
    · obtain ⟨file, found, _, _, _, _, logical, _⟩ := serving.main
      rw [lengthOf_lengthTable found rfl, SyncAccessFile.ensureLogical, logical, Option.getD_some,
        shape, List.length_map]

end Commit

/-- A loop over two lists, the second one begun where the first one ends. -/
theorem meets_forEach_append {σ ε β : Type} {crash : σ → Prop} {fail : ε → σ → Prop}
    {body : β → Prog σ ε Unit} (inv : List β → σ → Prop)
    (iteration : ∀ item rest s, inv (item :: rest) s →
      (body item s).Meets crash (fun _ => inv rest) fail)
    {items more : List β} {s : σ} {post : Unit → σ → Prop} (start : inv items s)
    (ends : ∀ t, inv [] t → (Prog.forEach body more t).Meets crash post fail) :
    (Prog.forEach body (items ++ more) s).Meets crash post fail := by
  induction items generalizing s with
  | nil => exact ends s start
  | cons item rest ih => exact meets_bind _ (iteration item rest s start) fun _ t kept => ih kept

section Steps

variable {db : DbName} {st : DbState} {pages : List (Option Block)} {q : Pool} {phase next : PagerPhase}
  {call : FileCall}

theorem Transacting.cold (within : Transacting db st pages phase q) (idle : phase ≠ .begun) :
    q.hot db.name = false := within.hot.trans (decide_eq_false idle)

/-- A call on the journal that leaves it without a header. -/
theorem Transacting.ofCold {r : Pool} (settled : phase = .sealed → Settled db st pages q)
    (idle : phase ≠ .begun) (only : OnlyFile (journalName db.name) q r) (serving : Serving db st pages r)
    (cold : r.hot db.name = false) : Transacting db st pages phase r :=
  ⟨serving, cold.trans (decide_eq_false idle).symm, fun sealed =>
    (settled sealed).ofSame (only.sameDb (Ne.symm (journalName_ne_manifestName db.name db.name)))⟩

/-- A call that finalizes the journal leaves it cold, and seals the main file if the journal was hot. -/
theorem Transacting.finalize (within : Transacting db st pages phase q)
    (finalizing : call.finalizes = true) : (call.run db.name q).Meets (fun _ => True)
      (fun _ r => ∃ st, Transacting db st pages phase.ended r) fun _ _ => True := by
  have idle := phase.ended_ne_begun
  rw [FileCall.run_of_finalizes finalizing]
  apply meets_bind (fun _ r => ∃ st, Serving db st pages r ∧ (phase.ended = .sealed → Settled db st pages r))
  · by_cases hot : phase = .begun
    · refine (meets_commit within.serving (within.hot.trans (decide_eq_true hot))).mono
        (fun _ kept => kept) ?_ fun _ _ kept => kept
      rintro _ r ⟨image, serving, settled⟩
      exact ⟨st.commit image, serving, fun _ => settled⟩
    · rw [barrier_cold within.serving.current (within.cold hot)]
      have same : phase.ended = phase := by cases phase <;> trivial
      refine ⟨fun _ _ => trivial, st, within.serving, ?_⟩
      rw [same]
      exact within.settled
  · rintro _ r ⟨st, serving, settled⟩
    cases call with
    | writeJournal bytes offset =>
        simp only [FileCall.finalizes, Bool.and_eq_true, decide_eq_true_eq, Bool.not_eq_true'] at finalizing
        obtain ⟨⟨rfl, long⟩, unmarked⟩ := finalizing
        refine (meets_writeJournal serving (.inr ⟨rfl, long⟩)).mono (fun _ kept => kept) ?_
          fun _ _ kept => kept
        rintro _ t ⟨only, kept, hot⟩
        rw [if_pos rfl, unmarked] at hot
        exact ⟨st, .ofCold settled idle only kept hot⟩
    | truncateJournal size =>
        obtain rfl := of_decide_eq_true finalizing
        refine (meets_truncateJournal serving (.inl rfl)).mono (fun _ kept => kept) ?_
          fun _ _ kept => kept
        rintro _ t ⟨only, kept, hot⟩
        exact ⟨st, .ofCold settled idle only kept hot⟩
    | deleteJournal =>
        apply meets_bind (fun _ t => ∃ st, Transacting db st pages phase.ended t)
        · apply meets_zoom
          refine (meets_deleteJournal serving).mono (fun _ kept => kept) ?_ fun _ _ kept => kept
          rintro _ t ⟨only, kept, hot⟩
          exact ⟨st, .ofCold settled idle only kept hot⟩
        · exact fun _ _ kept => meets_pure kept
    | openJournal => cases finalizing
    | syncJournal => cases finalizing
    | writeMain => cases finalizing
    | truncateMain => cases finalizing
    | syncMain => cases finalizing

theorem OnlyFile.hot {p : Pool} (only : OnlyFile db.name p q) (serving : Serving db st pages p)
    {later : List (Option Block)} (kept : Serving db st later q) : q.hot db.name = p.hot db.name := by
  rw [hot_eq kept.current kept.wf kept.journal, hot_eq serving.current serving.wf serving.journal,
    only.files _ (journalName_ne_self db.name)]

/-- A call on the main file, with a journal or where the manifest need not record it. -/
theorem Transacting.runMain (plain : stripSuffix db.name journalSuffix = none)
    (within : Transacting db st pages phase q) (paged : call.pageCall = true)
    (still : phase ≠ .sealed ∨ call.onPages pages = pages) : (call.run db.name q).Meets (fun _ => True)
      (fun _ r => OnlyFile db.name q r ∧ Transacting db st (call.onPages pages) phase r)
      fun _ _ => True := by
  refine (meets_mainCall plain paged within.serving).mono (fun _ kept => kept) ?_ fun _ _ kept => kept
  rintro _ r ⟨only, kept⟩
  refine ⟨only, kept, (only.hot within.serving kept).trans within.hot, fun sealed => ?_⟩
  rw [still.resolve_left (not_not.mpr sealed)]
  exact (within.settled sealed).ofSame (only.sameDb (manifestName_ne_self db.name))

/-- What each call of the pager keeps. -/
theorem Transacting.run (plain : stripSuffix db.name journalSuffix = none)
    (within : Transacting db st pages phase q) (turn : call.turns phase = some next) :
    (call.run db.name q).Meets (fun _ => True)
      (fun _ r => ∃ st, Transacting db st (call.onPages pages) next r) fun _ _ => True := by
  have serving := within.serving
  have main : ∀ {c : FileCall}, c.pageCall = true → phase ≠ .sealed ∨ c.onPages pages = pages →
      (c.run db.name q).Meets (fun _ => True)
        (fun _ r => ∃ st, Transacting db st (c.onPages pages) phase r) fun _ _ => True := by
    intro c paged still
    refine (within.runMain plain paged still).mono (fun _ kept => kept) ?_ fun _ _ kept => kept
    exact fun _ r kept => ⟨st, kept.2⟩
  cases call with
  | openJournal create =>
      simp only [FileCall.turns, Option.ite_none_left_eq_some, Option.some.injEq] at turn
      obtain ⟨idle, rfl⟩ := turn
      refine (meets_openJournal serving (within.cold idle) create).mono (fun _ kept => kept) ?_
        fun _ _ kept => kept
      rintro _ r ⟨only, kept, cold⟩
      exact ⟨st, .ofCold within.settled idle only kept cold⟩
  | writeJournal bytes offset =>
      by_cases finalizing : (FileCall.writeJournal bytes offset).finalizes = true
      · have shape := finalizing
        simp only [FileCall.finalizes, Bool.and_eq_true, decide_eq_true_eq, Bool.not_eq_true'] at shape
        obtain ⟨⟨rfl, long⟩, unmarked⟩ := shape
        have ends : (FileCall.writeJournal bytes 0).turns phase = some phase.ended := by
          simp only [FileCall.turns, Int.toNat_zero, if_true, unmarked, Bool.false_eq_true, if_false, long]
        obtain rfl := Option.some.inj (ends.symm.trans turn)
        exact within.finalize finalizing
      · show (Vfs.xWrite (journalName db.name) bytes offset q).Meets _ _ _
        have idle : ¬(offset = 0 ∧ 8 ≤ bytes.length ∧ !journalMagic.isPrefixOf bytes) := by
          rintro ⟨start, long, unmarked⟩
          apply finalizing
          simp only [FileCall.finalizes, start, long, unmarked, decide_true, Bool.and_self]
        unfold Vfs.xWrite
        split
        · exact meets_fail trivial
        · next range =>
            have sign : offset = 0 ↔ offset.toNat = 0 := by omega
            by_cases start : offset.toNat = 0
            · have magic : journalMagic.isPrefixOf bytes = true ∧ next = .begun := by
                by_cases marked : journalMagic.isPrefixOf bytes = true
                · refine ⟨marked, ?_⟩
                  simp only [FileCall.turns, start, if_true, marked, Option.some.injEq] at turn
                  exact turn.symm
                · simp only [FileCall.turns, start, if_true, marked, Bool.false_eq_true, if_false,
                    Option.ite_none_right_eq_some] at turn
                  have unmarked : (!journalMagic.isPrefixOf bytes) = true := by
                    rw [Bool.not_eq_true', ← Bool.not_eq_true]
                    exact marked
                  exact absurd ⟨sign.mpr start, turn.1, unmarked⟩ idle
              obtain ⟨magic, rfl⟩ := magic
              refine (meets_writeJournal serving (.inr ⟨start, length_of_magic magic⟩)).mono
                (fun _ kept => kept) ?_ fun _ _ kept => kept
              rintro _ r ⟨_, kept, hot⟩
              rw [if_pos start, magic] at hot
              exact ⟨st, kept, hot, fun sealed => by cases sealed⟩
            · simp only [FileCall.turns, start, if_false, Option.ite_none_right_eq_some,
                Option.some.injEq] at turn
              obtain ⟨behind, rfl⟩ := turn
              refine (meets_writeJournal serving (.inl behind)).mono (fun _ kept => kept) ?_
                fun _ _ kept => kept
              rintro _ r ⟨only, kept, hot⟩
              rw [if_neg start] at hot
              have manifest := Ne.symm (journalName_ne_manifestName db.name db.name)
              exact ⟨st, kept, hot.trans within.hot, fun sealed =>
                (within.settled sealed).ofSame (only.sameDb manifest)⟩
  | truncateJournal size =>
      by_cases zero : size = 0
      · subst zero
        obtain rfl : phase.ended = next := Option.some.inj turn
        exact within.finalize rfl
      · simp only [FileCall.turns, zero, if_false, Option.ite_none_left_eq_some, Option.some.injEq] at turn
        obtain ⟨idle, rfl⟩ := turn
        show (Vfs.xTruncate (journalName db.name) size q).Meets _ _ _
        unfold Vfs.xTruncate
        split
        · exact meets_fail trivial
        · refine (meets_truncateJournal serving (.inr (within.cold idle))).mono (fun _ kept => kept) ?_
            fun _ _ kept => kept
          rintro _ r ⟨only, kept, cold⟩
          exact ⟨st, .ofCold within.settled idle only kept cold⟩
  | syncJournal =>
      obtain rfl : phase = next := Option.some.inj turn
      have kept : Keeps (fun r => ∃ st, Transacting db st pages phase r)
          (Vfs.xSync (journalName db.name)) := keeps_withFile fun _ => keeps_pure ()
      exact (kept q ⟨st, within⟩).mono (fun _ _ => trivial) (fun _ _ kept => kept) fun _ _ _ => trivial
  | deleteJournal =>
      obtain rfl : phase.ended = next := Option.some.inj turn
      exact within.finalize rfl
  | writeMain bytes offset =>
      simp only [FileCall.turns, Option.ite_none_right_eq_some, Option.some.injEq] at turn
      obtain ⟨⟨rfl, paged⟩, rfl⟩ := turn
      exact main paged (.inl (by decide))
  | truncateMain size =>
      simp only [FileCall.turns, Option.ite_none_right_eq_some, Option.some.injEq] at turn
      obtain ⟨⟨rfl, paged⟩, rfl⟩ := turn
      exact main paged (.inl (by decide))
  | syncMain =>
      obtain rfl : phase = next := Option.some.inj turn
      exact main rfl (.inr rfl)

/-- Nothing is asked of the manifest any more. -/
theorem Transacting.stale (within : Transacting db st pages phase q) (idle : phase ≠ .begun) :
    Transacting db st pages .stale q := ⟨within.serving, within.cold idle, fun sealed => by cases sealed⟩

/-- Calls on the main file without a journal. -/
theorem Transacting.runStale (plain : stripSuffix db.name journalSuffix = none) {calls : List FileCall}
    (paged : ∀ call ∈ calls, call.pageCall = true) (within : Transacting db st pages .stale q) :
    (Prog.forEach (fun call => call.run db.name) calls q).Meets (fun _ => True)
      (fun _ r => OnlyFile db.name q r ∧
        Transacting db st (calls.foldl (fun pages call => call.onPages pages) pages) .stale r)
      fun _ _ => True := by
  let inv (rest : List FileCall) (r : Pool) : Prop := OnlyFile db.name q r ∧
    ∃ now, Transacting db st now .stale r ∧ (∀ call ∈ rest, call.pageCall = true) ∧
      rest.foldl (fun pages call => call.onPages pages) now =
        calls.foldl (fun pages call => call.onPages pages) pages
  have start : inv calls q := ⟨.refl db.name q, pages, within, paged, rfl⟩
  refine (meets_forEach inv ?_ start).mono (fun _ kept => kept) ?_ fun _ _ kept => kept
  · rintro call rest r ⟨only, now, within, paged, ends⟩
    refine (within.runMain plain (paged call List.mem_cons_self) (.inl (by decide))).mono
      (fun _ kept => kept) ?_ fun _ _ kept => kept
    rintro _ t ⟨later, kept⟩
    exact ⟨only.trans later, _, kept, fun other listed => paged other (List.mem_cons_of_mem _ listed), ends⟩
  · rintro _ r ⟨only, now, kept, _, rfl⟩
    exact ⟨only, kept⟩

/-- A transaction without a journal file changes the main file and nothing else. -/
theorem meets_unjournaled (plain : stripSuffix db.name journalSuffix = none) {t : Transaction}
    (paged : ∀ call ∈ t.all, call.pageCall = true) (idle : phase ≠ .begun)
    (within : Transacting db st pages phase q) : (t.run db.name q).Meets (fun _ => True)
      (fun _ r => OnlyFile db.name q r ∧ Transacting db st (t.pages pages) .stale r) fun _ _ => True :=
  (within.stale idle).runStale plain paged

theorem pageCall_shrink {t : Transaction} {call : FileCall}
    (listed : call ∈ (t.shrink.map fun pages => FileCall.truncateMain (pages * blockSize : Nat)).toList) :
    call.pageCall = true := by
  obtain ⟨size, _, rfl⟩ := Option.map_eq_some_iff.mp (Option.mem_toList.mp listed)
  simp only [FileCall.pageCall, Int.toNat_natCast, Nat.mul_mod_left, decide_true]

theorem pageCall_all {t : Transaction} (paged : ∀ call ∈ t.calls, call.pageCall = true) :
    ∀ call ∈ t.all, call.pageCall = true := by
  intro call listed
  rcases List.mem_append.mp listed with one | last
  · exact paged call one
  · exact pageCall_shrink last

/-- A transaction in the order of the pager takes an open database from one phase to the next. -/
theorem meets_transaction (plain : stripSuffix db.name journalSuffix = none) {t : Transaction}
    (turns : t.turns phase = some next) (idle : phase ≠ .begun) (within : Transacting db st pages phase q) :
    (t.run db.name q).Meets (fun _ => True)
      (fun _ r => next ≠ .begun ∧ ∃ st, Transacting db st (t.pages pages) next r) fun _ _ => True := by
  unfold Transaction.turns at turns
  have cut := fun call => @pageCall_shrink t call
  by_cases journaled : t.journaled = true
  · simp only [journaled, if_true, Option.bind_eq_some_iff, Option.ite_none_left_eq_some,
      Option.some.injEq] at turns
    obtain ⟨last, turns, ended, rfl⟩ := turns
    -- what is left of the calls takes the database from the phase and the pages so far to the last ones
    let inv (rest : List FileCall) (r : Pool) : Prop := ∃ phase st now,
      rest.foldlM FileCall.turns phase = some last ∧ Transacting db st now phase r ∧
        rest.foldl (fun pages call => call.onPages pages) now =
          t.calls.foldl (fun pages call => call.onPages pages) pages
    refine meets_forEach_append inv ?_ ⟨phase, st, pages, turns, within, rfl⟩ ?_
    · rintro call rest r ⟨phase, st, now, turns, within, ends⟩
      rw [List.foldlM_cons] at turns
      obtain ⟨next, turn, turns⟩ := Option.bind_eq_some_iff.mp turns
      refine (within.run plain turn).mono (fun _ kept => kept) ?_ fun _ _ kept => kept
      rintro _ r ⟨st, within⟩
      exact ⟨next, st, _, turns, within, ends⟩
    · rintro r ⟨phase, st, now, same, within, rfl⟩
      obtain rfl := Option.some.inj same
      cases shrunk : t.shrink with
      | none =>
          have kept : t.pages pages = t.calls.foldl (fun pages call => call.onPages pages) pages := by
            rw [Transaction.pages, Transaction.all, shrunk]
            exact congrArg _ (List.append_nil _)
          rw [kept]
          exact meets_pure ⟨ended, st, within⟩
      | some size =>
          rw [shrunk] at cut
          refine ((within.stale ended).runStale plain cut).mono (fun _ kept => kept) ?_ fun _ _ kept => kept
          rintro _ r ⟨_, kept⟩
          rw [Option.isSome_some, if_pos rfl]
          refine ⟨by decide, st, ?_⟩
          rw [Transaction.pages, Transaction.all, List.foldl_append, shrunk]
          exact kept
  · simp only [journaled, Bool.false_eq_true, if_false, Option.ite_none_right_eq_some, Option.some.injEq,
      List.all_eq_true] at turns
    obtain ⟨paged, rfl⟩ := turns
    refine (meets_unjournaled plain (pageCall_all paged) idle within).mono (fun _ kept => kept) ?_
      fun _ _ kept => kept
    exact fun _ r kept => ⟨by decide, st, kept.2⟩

end Steps

/-- A database, open or not, whose manifest records its main file, with no journal to play back. -/
structure Described (db : DbName) (uuid : Uuid) (payload : ManifestPayload) (image : List Block)
    (q : Pool) : Prop where
  read : q.readManifest (manifestName db.name) = .ok (uuid, payload)
  records : payload.Records db.name image
  main : ∃ file, q.files[db.name]? = some file ∧
    imageOf file.data db.name (.dbKey q.dek uuid) uuid = some image ∧ (image = [] → file.data.size = 0)
  headed : ∀ page, image[0]? = some page → checkHeader page = .ok ()
  fresh : Fresh q.dek q.anchor uuid payload.dbGeneration
  cold : q.hotJournal db.name (.dbKey q.dek uuid) uuid = false

section Described

variable {db : DbName} {st : DbState} {uuid : Uuid} {payload : ManifestPayload} {image : List Block}
  {pages : List (Option Block)} {q : Pool}

theorem Transacting.described (within : Transacting db st pages .sealed q) :
    ∃ image payload, pages = image.map some ∧ q.Described db st.uuid payload image := by
  have serving := within.serving
  obtain ⟨image, payload, shape, read, generation, records⟩ := (within.settled rfl).image
  obtain ⟨file, found, crypto, domain, _, same, _, blank⟩ := serving.main
  refine ⟨image, payload, shape, read, records, ⟨file, found, ?_, ?_⟩, ?_, ?_, ?_⟩
  · rw [imageOf_eq_some, ← serving.current.key, ← crypto, ← domain, ← serving.wf.bound _ file found,
      ← SyncAccessFile.pages_eq_image, same, shape]
  · intro none_left
    exact blank (by rw [shape, none_left]; rfl)
  · intro page first
    exact serving.headed page (by rw [shape, List.getElem?_map, first]; rfl)
  · rw [generation]
    exact serving.fresh
  · have cold := within.hot
    unfold Pool.hot at cold
    simp only [serving.current.db] at cold
    rw [← serving.current.key]
    exact cold

/-- The blocks of such a database pass the checks of an opening. -/
theorem Described.verified (described : q.Described db uuid payload image) (wf : q.Wf) :
    ∃ data, q.stored.disk db.name = some data ∧
      imageOf data db.name (.dbKey q.dek uuid) uuid = some image ∧ (image = [] → data.size = 0) ∧
      Verified q.dek q.stored.disk db.name data uuid payload := by
  have live : q.Live q.dek q.stored := ⟨wf, rfl, rfl⟩
  obtain ⟨file, found, opens, blank⟩ := described.main
  have held : q.stored.disk db.name = some file.data := by
    show q.content db.name = _
    rw [wf.content_eq, found]
    rfl
  refine ⟨file.data, held, opens, blank, fun sized => ?_⟩
  have decrypted := imageOf_eq_some.mp opens
  have count : physLogical file.data = image.length * blockSize := by
    rw [physLogical, ← Region.length_cells, length_decryptCells decrypted]
  rw [← live.hotJournal_eq, described.cold, if_neg Bool.false_ne_true]
  refine ⟨?_, image, opens, fun _ => ?_⟩
  · unfold checkLayout
    rw [if_neg (fun both => Bool.false_ne_true both.2), if_pos sized, described.records.length, count]
    dsimp only
    rw [Option.getD_some, if_neg (not_not.mpr rfl)]
    cases image with
    | nil => exact absurd (blank rfl) (by omega)
    | cons first rest =>
        cases cells : file.data.cells with
        | nil =>
            have short := length_decryptCells decrypted
            rw [cells] at short
            cases short
        | cons cell others =>
            rw [decryptWholeFile, cells, decryptCells] at decrypted
            rw [List.getElem?_cons_zero]
            dsimp only
            cases plain : cell.openWith (.dbKey q.dek uuid) (.block (fileIdFor db.name) uuid 0) with
            | none => rw [plain] at decrypted; cases decrypted
            | some page =>
                rw [plain] at decrypted
                obtain ⟨tail, _, shape⟩ := except_bind_ok.mp decrypted
                have same : page = first := (List.cons.inj (Except.ok.inj shape)).1
                dsimp only
                rw [same, described.headed first rfl]
                rfl
  · apply accepts_iff.mpr
    rcases described.records.root with same | ⟨none_left, _⟩
    · exact .inl same.symm
    · exact absurd (blank none_left) (by omega)

/-- A described database opens again after the vault has been closed, with its image. -/
theorem Described.reopens (described : q.Described db uuid payload image) (wf : q.Wf) (next : Uuid) :
    (Pool.openMainDb next db.name (q.reopen q.dek)).result = .ok () ∧
      (Pool.openMainDb next db.name (q.reopen q.dek)).state.servedImage db.name = .ok image := by
  have live : q.Live q.dek q.stored := ⟨wf, rfl, rfl⟩
  have manifest : manifestOn q.dek q.stored.disk (manifestName db.name) = .ok (uuid, payload) := by
    rw [← live.readManifest_eq, described.read]
  obtain ⟨data, held, opens, _, verified⟩ := described.verified wf
  exact (openMainDb_serves_iff (live_reopen q q.dek) manifest).mpr
    ⟨data, uuid, payload, held, manifest, described.fresh, verified, opens⟩

end Described

/-- The handles `open_main_db` binds: the main file as one, and the journal to its key. -/
structure HandlesBound (db : DbName) (kdb : Key) (uuid : Uuid) (q : Pool) : Prop where
  main : ∀ file, q.files[db.name]? = some file → file.isMainDb = true
  journal : ∀ file, q.files[journalName db.name]? = some file →
    file.crypto = kdb ∧ file.keyDomain = uuid

section Opening

variable {db : DbName} {kdb : Key} {uuid freshUuid : Uuid} {payload : ManifestPayload}
  {image : List Block} {p q : Pool}

theorem HandlesBound.ofManifest (bound : HandlesBound db kdb uuid p)
    (files : ∀ other ≠ manifestName db.name, q.files[other]? = p.files[other]?) :
    HandlesBound db kdb uuid q := by
  constructor
  · rw [files _ (Ne.symm (manifestName_ne_self db.name))]
    exact bound.main
  · rw [files _ (journalName_ne_manifestName db.name db.name)]
    exact bound.journal

theorem keeps_bound_adoptDb (payload : ManifestPayload) (data : Region) (hot : Bool) :
    Keeps (HandlesBound db kdb uuid) (Pool.adoptDb db.name kdb uuid payload data hot) := by
  have dbs : ∀ (st : DbState) (r : Pool), HandlesBound db kdb uuid r →
      HandlesBound db kdb uuid { r with dbs := r.dbs.insert db.name st } := fun _ _ bound =>
    ⟨bound.main, bound.journal⟩
  have sealed : ∀ (r : Pool) (f : SyncAccessFile → SyncAccessFile), ∀ other ≠ manifestName db.name,
      (r.modifyFile (manifestName db.name) f).files[other]? = r.files[other]? := by
    intro r f other apart
    rw [Pool.modifyFile, Std.ExtTreeMap.getElem?_modify, if_neg (by simpa using Ne.symm apart)]
  unfold Pool.adoptDb
  apply keeps_bind (keeps_modify fun r bound => dbs _ r bound)
  intro _
  split
  · unfold Pool.sealRootMigration
    apply keeps_get_bind
    intro pool _
    split
    · exact keeps_pure ()
    · apply keeps_bind (keeps_ofExcept _)
      intro root
      split
      · exact keeps_pure ()
      · dsimp only
        split
        · apply keeps_bind (keeps_effect fun r bound => bound.ofManifest (sealed r _))
          exact fun _ => keeps_modify fun r bound => dbs _ r bound
        · exact keeps_fail _
  · exact keeps_pure ()

theorem meets_bound_checkMain : (Pool.checkMain db.name kdb uuid payload q).Meets (fun _ => True)
    (fun _ r => HandlesBound db kdb uuid r) fun _ _ => True := by
  unfold Pool.checkMain
  apply meets_modify_bind
  apply meets_get_bind
  apply meets_ofExcept_bind
  · intro logical _
    apply meets_modify_bind
    apply meets_modify_bind
    apply meets_get_bind
    apply meets_ofExcept_bind
    · intro _ _
      refine (keeps_bound_adoptDb _ _ _ _ ⟨?_, ?_⟩).mono (fun _ _ => trivial) (fun _ _ kept => kept)
        fun _ _ _ => trivial
      · intro file found
        rw [getElem?_bindSatellites, Pool.bindMain, getElem?_modifyFile] at found
        obtain ⟨old, _, rfl⟩ := Option.map_eq_some_iff.mp found
        rfl
      · intro file found
        rw [Pool.bindSatellites, Std.ExtTreeMap.getElem?_map] at found
        obtain ⟨old, _, rfl⟩ := Option.map_eq_some_iff.mp found
        have parent : satelliteParent (journalName db.name) = some db.name := by
          rw [satelliteParent, journalName, stripSuffix_append, Option.some_or]
        rw [if_pos parent]
        exact ⟨rfl, rfl⟩
    · exact fun _ _ => trivial
  · exact fun _ _ => trivial

theorem meets_bound_openMainDb
    (read : q.readManifest (manifestName db.name) = .ok (uuid, payload)) :
    (Pool.openMainDb freshUuid db.name q).Meets (fun _ => True)
      (fun _ r => HandlesBound db (.dbKey q.dek uuid) uuid r) fun _ _ => True := by
  unfold Pool.openMainDb
  apply meets_get_bind
  cases there : q.files[db.name]? with
  | none => exact meets_fail trivial
  | some main =>
      obtain ⟨mfile, file, present, _, _⟩ := readManifest_file read
      have has : q.hasFilename (manifestName db.name) = true := hasFilename_iff.mpr ⟨mfile, present⟩
      simp only [has, if_true, read]
      unfold Pool.openVerified
      apply meets_get_bind
      apply meets_ofExcept_bind
      · intro _ _
        apply meets_bind (fun _ _ => True)
        · exact (meets_self _ q).mono (fun _ _ => trivial) (fun _ _ _ => trivial) fun _ _ _ => trivial
        · exact fun _ r _ => meets_bound_checkMain
      · exact fun _ _ => trivial

/-- A database that is described can be opened again in the session. -/
theorem Described.opens (described : q.Described db uuid payload image) (wf : q.Wf) (onDisk : q.OnDisk db) :
    (Pool.openMainDb freshUuid db.name q).Meets (fun _ => True)
      (fun _ r => ∃ st, Transacting db st (image.map some) .sealed r) fun _ _ => False := by
  have live : q.Live q.dek q.stored := ⟨wf, rfl, rfl⟩
  have manifest : manifestOn q.dek q.stored.disk (manifestName db.name) = .ok (uuid, payload) := by
    rw [← live.readManifest_eq, described.read]
  obtain ⟨data, held, opens, blank, verified⟩ := described.verified wf
  have opened := meets_openMainDb freshUuid (fun _ => True) live held manifest trivial fun _ _ => trivial
  have bound := @meets_bound_openMainDb db uuid freshUuid payload q described.read
  have kept := OnDisk.keeps_openMainDb freshUuid db.name q onDisk
  have cold : hotOn q.stored.disk db.name (.dbKey q.dek uuid) uuid = false := by
    rw [← live.hotJournal_eq]
    exact described.cold
  refine ((opened.and bound).and kept).mono (fun _ _ => trivial) ?_ ?_
  · rintro _ r ⟨⟨done, bound⟩, onDisk⟩
    obtain ⟨anchor, saved, adopted⟩ := done.adopted
    have stays : ¬Migrates q.stored.disk db.name data (.dbKey q.dek uuid) uuid payload := by
      rintro ⟨sized, _, zero⟩
      rcases described.records.root with same | ⟨none_left, _⟩
      · exact rootOf_ne_zero image (same.symm.trans zero)
      · exact absurd (blank none_left) (by omega)
    obtain ⟨_, live', known⟩ := adopted.resolve_right fun moved => stays moved.1
    obtain ⟨file, found, crypto, domain, fileId, same, logical⟩ := known.main.bound
    have dek := live'.dek_eq
    have read : r.readManifest (manifestName db.name) = .ok (uuid, payload) := by
      rw [live'.readManifest_eq]
      exact manifest
    have pages : file.pages = image.map some := by
      rw [SyncAccessFile.pages_eq_image, crypto, domain, fileId, same]
      exact imageOf_eq_some.mp opens
    rw [← dek] at bound
    have current := current_of_read onDisk read (by rw [dek]; exact known.db)
    refine ⟨_, ⟨live'.wf, onDisk, current, ⟨file, found, ?_, domain, bound.main file found, pages, ?_, ?_⟩,
      bound.journal, ?_, ?_⟩, ?_, fun _ => ⟨image, payload, rfl, read, rfl, described.records⟩⟩
    · rw [crypto, dek]
    · rw [logical, ← same, SyncAccessFile.physLogical_eq, pages]
    · intro none_left
      rw [same]
      exact blank (List.map_eq_nil_iff.mp none_left)
    · intro page first
      rw [List.getElem?_map, Option.map_eq_some_iff] at first
      obtain ⟨page', first, same⟩ := first
      exact Option.some.inj same ▸ described.headed page' first
    · rw [live'.anchor_eq, dek]
      exact described.fresh.raised saved (Nat.le_refl _) fun c same => by
        rw [← Option.some.inj same]
        exact Nat.le_succ _
    · unfold Pool.hot
      simp only [current.db]
      rw [live'.hotJournal_eq, dek]
      exact cold
  · rintro _ r ⟨⟨refused, _⟩, _⟩
    exact refused.1 ⟨described.fresh, verified⟩

end Opening

end Pool

end Freehold
