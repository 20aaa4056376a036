import Freehold.ExportRecovery
import Mathlib.Data.List.DropRight
import Mathlib.Logic.Relation

set_option autoImplicit false

/- The files that the command-line decryptor writes. -/
namespace Freehold.RecoverOutput

open Cursor Decrypt

def isSeparator (c : Char) : Bool := c = '/' || c = '\\'

/-- The characters of a pool name. -/
def isKept (c : Char) : Bool := c.isAlphanum || c = '_' || c = '-'

def fallback : FileName := "recovered".toList

def safeOutputStem (dbName : FileName) : FileName :=
  let raw := (stripSuffix dbName dbSuffix).getD dbName
  let last := raw.rtakeWhile fun c => !isSeparator c
  let stem := last.filter isKept
  if stem.isEmpty then fallback else stem

/-- A place in the file system, by the names on the way to it. -/
abbrev Path := List FileName

/-- The names in a text; empty ones and those for the place itself lead nowhere. -/
def components (text : FileName) : Path :=
  (text.splitOnP isSeparator).filter fun name => !name.isEmpty && name ≠ ['.']

/-- `PathBuf::join`: an absolute text replaces the path. -/
def join (dir : Path) (text : FileName) : Path :=
  if text.head?.any isSeparator then components text else dir ++ components text

def outputPath (dir : Path) (name : String) : Path :=
  join dir (safeOutputStem name.toList ++ ".sqlite".toList)

abbrev Disk := Path → Option (List UInt8)

/-- How `std::fs::write` ends; one that fails leaves anything at its path. -/
inductive Write where
  | done
  | failed (left : Option (List UInt8))

inductive ExitCode where
  | success
  | failure
  deriving DecidableEq

/-- The loop of `main`; the writes after those that are listed succeed. -/
def writeAll (dir : Path) : List RecoveredDb → List Write → Disk → ExitCode × Disk
  | [], _, disk => (.success, disk)
  | db :: rest, writes, disk =>
      match writes with
      | .failed left :: _ => (.failure, Function.update disk (outputPath dir db.name) left)
      | _ => writeAll dir rest writes.tail (Function.update disk (outputPath dir db.name) (some db.sqlite))

variable {width : Nat}

/-- `main` once the bundle is read; `dirMade` is whether `create_dir_all` succeeds. -/
def main (P : Primitives) (dir : Path) (b : Slice width) (recoveryCode : List Char) (dirMade : Bool)
    (writes : List Write) (disk : Disk) : ExitCode × Disk :=
  match recover P b recoveryCode with
  | .ok dbs => if dirMade then writeAll dir dbs writes disk else (.failure, disk)
  | _ => (.failure, disk)

/-- What the stem does not show of a name: the directories before it, a character that no pool name
has, and that nothing is left of it. -/
inductive Edit : FileName → FileName → Prop
  | directory (front last : FileName) (c : Char) (separator : isSeparator c = true) :
      Edit (front ++ c :: last) last
  | dropped (before after : FileName) (c : Char) (inner : isSeparator c = false) (foreign : isKept c = false) :
      Edit (before ++ c :: after) (before ++ after)
  | nothing : Edit [] fallback

/-- Two databases that are told apart by such differences only. -/
def SameFile (name other : FileName) : Prop :=
  ∃ base base', name = base ++ dbSuffix ∧ other = base' ++ dbSuffix ∧ Relation.EqvGen Edit base base'

section Stem

/-- The stem of a name without its ending. -/
def stemOf (raw : FileName) : FileName :=
  let stem := (raw.rtakeWhile fun c => !isSeparator c).filter isKept
  if stem.isEmpty then fallback else stem

variable {raw other front last before after : FileName} {c : Char}

theorem rtakeWhile_directory (separator : isSeparator c = true) :
    (front ++ c :: last).rtakeWhile (fun c => !isSeparator c) = last.rtakeWhile fun c => !isSeparator c := by
  induction last using List.reverseRecOn with
  | nil => rw [List.rtakeWhile_concat_neg _ _ _ (by simp [separator]), List.rtakeWhile_nil]
  | append_singleton l x ih =>
      rw [← List.cons_append, ← List.append_assoc, List.rtakeWhile_concat, List.rtakeWhile_concat, ih]

theorem filter_dropped (inner : isSeparator c = false) (foreign : isKept c = false) :
    ((before ++ c :: after).rtakeWhile fun c => !isSeparator c).filter isKept =
      ((before ++ after).rtakeWhile fun c => !isSeparator c).filter isKept := by
  induction after using List.reverseRecOn with
  | nil =>
      rw [List.rtakeWhile_concat_pos _ _ _ (by simp [inner]), List.filter_append, List.append_nil]
      simp [foreign]
  | append_singleton l x ih =>
      rw [← List.cons_append, ← List.append_assoc, List.rtakeWhile_concat, ← List.append_assoc,
        List.rtakeWhile_concat]
      split
      · rw [List.filter_append, List.filter_append, ih]
      · rfl

/-- No edit shows in the stem. -/
theorem stemOf_edit (edit : Edit raw other) : stemOf raw = stemOf other := by
  cases edit with
  | directory front last c separator => rw [stemOf, rtakeWhile_directory separator, stemOf]
  | dropped before after c inner foreign => rw [stemOf, filter_dropped inner foreign, stemOf]
  | nothing => decide +kernel

theorem edits_filter (inner : ∀ c ∈ after, isSeparator c = false) :
    Relation.EqvGen Edit (before ++ after) (before ++ after.filter isKept) := by
  induction after generalizing before with
  | nil => exact .refl _
  | cons c rest ih =>
      rw [List.forall_mem_cons] at inner
      by_cases kept : isKept c = true
      · have others := @ih (before ++ [c]) inner.2
        rw [List.filter_cons_of_pos kept]
        simpa only [List.append_assoc, List.singleton_append] using others
      · have gone : isKept c = false := by simpa using kept
        rw [List.filter_cons_of_neg kept]
        exact (Relation.EqvGen.rel _ _ (.dropped before rest c inner.1 gone)).trans _ _ _ (ih inner.2)

/-- What stands before the last separator goes in one edit. -/
theorem edits_last : Relation.EqvGen Edit raw (raw.rtakeWhile fun c => !isSeparator c) := by
  have whole : raw.rdropWhile (fun c => !isSeparator c) ++ raw.rtakeWhile (fun c => !isSeparator c) = raw :=
    List.rdropWhile_append_rtakeWhile
  by_cases none : raw.rdropWhile (fun c => !isSeparator c) = []
  · rw [none, List.nil_append] at whole
    rw [whole]
    exact .refl _
  · have stops := List.rdropWhile_last_not (fun c => !isSeparator c) raw none
    have separator : isSeparator ((raw.rdropWhile fun c => !isSeparator c).getLast none) = true := by
      simpa using stops
    rw [← List.dropLast_append_getLast none, List.append_assoc, List.singleton_append] at whole
    have edit := Edit.directory (raw.rdropWhile fun c => !isSeparator c).dropLast
      (raw.rtakeWhile fun c => !isSeparator c) _ separator
    rw [whole] at edit
    exact .rel _ _ edit

/-- A chain of edits leads from a name to its stem. -/
theorem edits_stemOf (raw : FileName) : Relation.EqvGen Edit raw (stemOf raw) := by
  have inner : ∀ c ∈ raw.rtakeWhile (fun c => !isSeparator c), isSeparator c = false := by
    intro c member
    simpa using List.mem_rtakeWhile_imp member
  have kept : Relation.EqvGen Edit raw ((raw.rtakeWhile fun c => !isSeparator c).filter isKept) :=
    edits_last.trans _ _ _ (@edits_filter [] _ inner)
  rw [stemOf]
  split
  · next nothing =>
      rw [List.isEmpty_iff] at nothing
      rw [nothing] at kept
      exact kept.trans _ _ _ (.rel _ _ .nothing)
  · exact kept

/-- Names have one stem where a chain of edits joins them. -/
theorem stemOf_eq_iff : stemOf raw = stemOf other ↔ Relation.EqvGen Edit raw other := by
  constructor
  · intro same
    have first := edits_stemOf raw
    rw [same] at first
    exact first.trans _ _ _ ((edits_stemOf other).symm _ _)
  · intro chain
    induction chain with
    | rel _ _ edit => exact stemOf_edit edit
    | refl _ => rfl
    | symm _ _ _ ih => exact ih.symm
    | trans _ _ _ _ _ first second => exact first.trans second

theorem stripSuffix_databaseName (base : FileName) : stripSuffix (base ++ dbSuffix) dbSuffix = some base := by
  have ends : endsWith (base ++ dbSuffix) dbSuffix = true := by
    rw [endsWith, List.isSuffixOf_iff_suffix]
    exact List.suffix_append _ _
  rw [stripSuffix, if_pos ends, List.length_append, Nat.add_sub_cancel, List.take_left]

theorem safeOutputStem_append (base : FileName) : safeOutputStem (base ++ dbSuffix) = stemOf base := by
  rw [safeOutputStem, stripSuffix_databaseName, Option.getD_some, stemOf]

theorem exists_base {name : FileName} (ends : endsWith name dbSuffix = true) :
    ∃ base, name = base ++ dbSuffix := by
  rw [endsWith, List.isSuffixOf_iff_suffix] at ends
  obtain ⟨base, whole⟩ := ends
  exact ⟨base, whole.symm⟩

/-- Two databases get one stem where nothing else tells their names apart. -/
theorem safeOutputStem_eq_iff {name other : FileName} (ends : endsWith name dbSuffix = true)
    (ends' : endsWith other dbSuffix = true) :
    safeOutputStem name = safeOutputStem other ↔ SameFile name other := by
  obtain ⟨base, rfl⟩ := exists_base ends
  obtain ⟨base', rfl⟩ := exists_base ends'
  rw [safeOutputStem_append, safeOutputStem_append, stemOf_eq_iff]
  constructor
  · intro chain
    exact ⟨base, base', rfl, rfl, chain⟩
  · intro ⟨first, second, same, same', chain⟩
    rw [List.append_cancel_right same, List.append_cancel_right same']
    exact chain

end Stem

/-- A file of the directory itself, and not one of another place. -/
def DirectlyInside (dir path : Path) : Prop :=
  ∃ file, path = dir ++ [file] ∧ file ≠ [] ∧ file ≠ ['.'] ∧ file ≠ ['.', '.'] ∧
    ∀ c ∈ file, isSeparator c = false

section Output

variable {dir : Path} {name : FileName}

theorem safeOutputStem_kept (name : FileName) : ∀ c ∈ safeOutputStem name, isKept c = true := by
  intro c member
  unfold safeOutputStem at member
  dsimp only at member
  split at member
  · have all : fallback.all isKept = true := by decide +kernel
    exact List.all_eq_true.mp all c member
  · exact (List.mem_filter.mp member).2

theorem outputFile_inner (name : FileName) :
    ∀ c ∈ safeOutputStem name ++ ".sqlite".toList, isSeparator c = false := by
  have apart {c : Char} (kept : isKept c = true) : isSeparator c = false := by
    by_contra separator
    rw [Bool.not_eq_false, isSeparator, Bool.or_eq_true, decide_eq_true_eq, decide_eq_true_eq] at separator
    rcases separator with rfl | rfl
    · exact absurd kept (by decide)
    · exact absurd kept (by decide)
  have ending : ".sqlite".toList.all (fun c => !isSeparator c) = true := by decide +kernel
  intro c member
  rcases List.mem_append.mp member with stem | last
  · exact apart (safeOutputStem_kept name c stem)
  · simpa using List.all_eq_true.mp ending c last

theorem length_outputFile (name : FileName) : 7 ≤ (safeOutputStem name ++ ".sqlite".toList).length := by
  have seven : ".sqlite".toList.length = 7 := by decide +kernel
  rw [List.length_append]
  omega

/-- Whatever a bundle calls a database, its file is one of the directory's own. -/
theorem outputPath_eq (dir : Path) (name : String) :
    outputPath dir name = dir ++ [safeOutputStem name.toList ++ ".sqlite".toList] := by
  have inner := outputFile_inner name.toList
  have long := length_outputFile name.toList
  unfold outputPath
  generalize safeOutputStem name.toList ++ ".sqlite".toList = file at inner long
  have relative : file.head?.any isSeparator = false := by
    cases file with
    | nil => rfl
    | cons c rest => exact inner c List.mem_cons_self
  have single : file ≠ ['.'] := by
    intro same
    rw [same] at long
    simp at long
  have nonempty : file.isEmpty = false := by
    rw [List.isEmpty_eq_false_iff]
    intro same
    rw [same] at long
    simp at long
  rw [join, relative, if_neg Bool.false_ne_true, components, List.splitOnP_eq_singleton inner]
  simp [nonempty, single]

theorem outputPath_inside (dir : Path) (name : String) : DirectlyInside dir (outputPath dir name) := by
  have long := length_outputFile name.toList
  refine ⟨_, outputPath_eq dir name, ?_, ?_, ?_, outputFile_inner name.toList⟩
  all_goals
    intro same
    rw [same] at long
    simp at long

theorem outputPath_eq_iff {name other : String} (ends : endsWith name.toList dbSuffix = true)
    (ends' : endsWith other.toList dbSuffix = true) :
    outputPath dir name = outputPath dir other ↔ SameFile name.toList other.toList := by
  rw [outputPath_eq, outputPath_eq, List.append_cancel_left_eq, List.singleton_inj, List.append_cancel_right_eq,
    safeOutputStem_eq_iff ends ends']

end Output

section Writes

variable {dir : Path} {dbs : List RecoveredDb} {writes : List Write} {disk disk' : Disk}

/-- After a success a path has the image of the last database that was written there. -/
theorem writeAll_success (wrote : writeAll dir dbs writes disk = (.success, disk')) (path : Path) :
    disk' path = match dbs.reverse.find? fun db => outputPath dir db.name = path with
      | some db => some db.sqlite
      | none => disk path := by
  induction dbs generalizing writes disk with
  | nil =>
      rw [writeAll, Prod.mk.injEq] at wrote
      rw [wrote.2]
      rfl
  | cons db rest ih =>
      have next : writeAll dir rest writes.tail
          (Function.update disk (outputPath dir db.name) (some db.sqlite)) = (.success, disk') := by
        cases writes with
        | nil => exact wrote
        | cons write later =>
            cases write with
            | done => exact wrote
            | failed left => simp [writeAll] at wrote
      rw [ih next, List.reverse_cons, List.find?_append]
      cases rest.reverse.find? fun db => outputPath dir db.name = path with
      | some later => rfl
      | none =>
          by_cases here : outputPath dir db.name = path
          · subst here
            rw [Function.update_self]
            simp
          · rw [Function.update_of_ne (Ne.symm here)]
            simp [here]

/-- Where the paths differ, each image is on disk after a success. -/
theorem writeAll_keeps (distinct : (dbs.map fun db => outputPath dir db.name).Nodup)
    (wrote : writeAll dir dbs writes disk = (.success, disk')) :
    ∀ db ∈ dbs, disk' (outputPath dir db.name) = some db.sqlite := by
  intro db listed
  rw [writeAll_success wrote]
  cases found : dbs.reverse.find? fun other => outputPath dir other.name = outputPath dir db.name with
  | none =>
      rw [List.find?_eq_none] at found
      exact absurd (decide_eq_true rfl) (found db (List.mem_reverse.mpr listed))
  | some other =>
      have same : outputPath dir other.name = outputPath dir db.name := by
        simpa using List.find?_some found
      have member : other ∈ dbs := List.mem_reverse.mp (List.mem_of_find?_eq_some found)
      rw [List.inj_on_of_nodup_map distinct member listed same]

end Writes

/-- The database sections of a bundle. -/
def databaseNames (bundle : Bundle) : List String :=
  (bundle.files.filter fun file => endsWith file.1.toList dbSuffix).map Prod.fst

section Recover

variable {P : Primitives} {b : Slice width} {recoveryCode : List Char} {bundle : Bundle}
  {dbs : List RecoveredDb}

theorem recoverFiles_names {all files : List (String × List UInt8)} {dek : Vector UInt8 32}
    (recovered : recoverFiles P all dek files = .ok dbs) :
    dbs.map RecoveredDb.name = (files.filter fun file => endsWith file.1.toList dbSuffix).map Prod.fst := by
  induction files generalizing dbs with
  | nil =>
      rw [← Outcome.ok.inj recovered]
      rfl
  | cons file rest ih =>
      rw [recoverFiles] at recovered
      by_cases database : endsWith file.1.toList dbSuffix = true
      · rw [if_pos database] at recovered
        obtain ⟨here, first, others⟩ := Outcome.bind_eq_ok.mp recovered
        obtain ⟨later, second, last⟩ := Outcome.bind_eq_ok.mp others
        obtain ⟨manifest, _, named⟩ := Outcome.bind_eq_ok.mp first
        have name : here.name = file.1 := by
          split at named
          · cases named
          · obtain ⟨dbUuid, _, image⟩ := Outcome.bind_eq_ok.mp named
            obtain ⟨sqlite, _, made⟩ := Outcome.bind_eq_ok.mp image
            rw [← Outcome.ok.inj made]
        rw [List.filter_cons, if_pos database, ← Outcome.ok.inj last, List.map_cons, List.map_cons, name, ih second]
      · rw [if_neg database] at recovered
        rw [List.filter_cons, if_neg database, ih recovered]

theorem recover_names (parsed : parseBundle b = .ok bundle) (recovered : recover P b recoveryCode = .ok dbs) :
    dbs.map RecoveredDb.name = databaseNames bundle := by
  rw [recover, parsed, Outcome.ok_bind] at recovered
  obtain ⟨dek, _, rest⟩ := Outcome.bind_eq_ok.mp recovered
  obtain ⟨out, files, last⟩ := Outcome.bind_eq_ok.mp rest
  split at last
  · cases last
  · rw [← Outcome.ok.inj last]
    exact recoverFiles_names files

/-- The outputs are told apart by their paths where the names are told apart by more than edits. -/
theorem paths_nodup_iff (dir : Path) (named : dbs.map RecoveredDb.name = databaseNames bundle) :
    (dbs.map fun db => outputPath dir db.name).Nodup ↔
      (databaseNames bundle).Pairwise fun name other => ¬ SameFile name.toList other.toList := by
  have ends : ∀ name ∈ databaseNames bundle, endsWith name.toList dbSuffix = true := by
    intro name listed
    obtain ⟨file, member, rfl⟩ := List.mem_map.mp listed
    exact (List.mem_filter.mp member).2
  have paths : (dbs.map fun db => outputPath dir db.name) = (databaseNames bundle).map (outputPath dir) := by
    rw [← named, List.map_map]
    rfl
  rw [paths, List.Nodup, List.pairwise_map]
  constructor
  · intro distinct
    apply distinct.imp_of_mem
    intro name other listed listed' apart same
    exact apart ((outputPath_eq_iff (ends name listed) (ends other listed')).mpr same)
  · intro distinct
    apply distinct.imp_of_mem
    intro name other listed listed' apart same
    exact apart ((outputPath_eq_iff (ends name listed) (ends other listed')).mp same)

end Recover

/-- What the decryptor does with a bundle that it accepts: its files are the directory's own, they
are different files, and on success each recovered image is in its file. -/
structure Delivers (P : Primitives) (dir : Path) (b : Slice width) (recoveryCode : List Char)
    (dbs : List RecoveredDb) : Prop where
  inside : ∀ db ∈ dbs, DirectlyInside dir (outputPath dir db.name)
  distinct : (dbs.map fun db => outputPath dir db.name).Nodup
  onDisk : ∀ dirMade writes disk disk', main P dir b recoveryCode dirMade writes disk = (.success, disk') →
    ∀ db ∈ dbs, disk' (outputPath dir db.name) = some db.sqlite

/-- No file is written outside of the directory, and none over another one exactly where no two
database names of the bundle differ only in what the stem does not show. -/
theorem recovered_files_distinct (P : Primitives) (b : Slice width) (recoveryCode : List Char) (bundle : Bundle)
    (dbs : List RecoveredDb) (dir : Path) (parsed : parseBundle b = .ok bundle)
    (recovered : recover P b recoveryCode = .ok dbs) :
    (∀ db ∈ dbs, DirectlyInside dir (outputPath dir db.name)) ∧
    (Delivers P dir b recoveryCode dbs ↔
      (databaseNames bundle).Pairwise fun name other => ¬ SameFile name.toList other.toList) := by
  have inside : ∀ db ∈ dbs, DirectlyInside dir (outputPath dir db.name) :=
    fun db _ => outputPath_inside dir db.name
  have named := recover_names parsed recovered
  refine ⟨inside, ?_⟩
  rw [← paths_nodup_iff dir named]
  constructor
  · intro delivers
    exact delivers.distinct
  · intro distinct
    refine ⟨inside, distinct, ?_⟩
    intro dirMade writes disk disk' finished
    unfold main at finished
    rw [recovered] at finished
    cases dirMade with
    | false => cases finished
    | true => exact writeAll_keeps distinct finished

namespace OutputSample

/-- A manifest with a blank identity. -/
def manifest : List UInt8 := utf8Bytes "ENCMFST1" ++ List.replicate 56 0

/-- The export of a vault with two databases that have no page yet. -/
def bundle (name other : String) : List UInt8 :=
  BundleWire.encode ExportSample.exported.bytes []
    [(name, []), (name ++ "#manifest", manifest), (other, []), (other ++ "#manifest", manifest)] []

def apart : Slice 32 := ⟨bundle "a.db" "b.db", by decide +kernel⟩

def clashing : Slice 32 := ⟨bundle "a.db" "x/a.db", by decide +kernel⟩

end OutputSample

open OutputSample in
theorem recovered_files_distinct_two : ∃ dbs : List RecoveredDb,
    recover ExportSample.calls.primitives apart ExportSample.code = .ok dbs ∧
    Delivers ExportSample.calls.primitives ["out".toList] apart ExportSample.code dbs := by
  have recovered : recover ExportSample.calls.primitives apart ExportSample.code =
      .ok [⟨"a.db", []⟩, ⟨"b.db", []⟩] := by decide +kernel
  have parsed : parseBundle apart = .ok ⟨ExportSample.exported.bytes,
      [("a.db", []), ("a.db#manifest", manifest), ("b.db", []), ("b.db#manifest", manifest)]⟩ := by decide +kernel
  have names : databaseNames ⟨ExportSample.exported.bytes,
      [("a.db", []), ("a.db#manifest", manifest), ("b.db", []), ("b.db#manifest", manifest)]⟩ =
      ["a.db", "b.db"] := by decide +kernel
  have different : ¬ SameFile "a.db".toList "b.db".toList := by
    rw [← safeOutputStem_eq_iff (by decide +kernel) (by decide +kernel)]
    decide +kernel
  refine ⟨_, recovered, (recovered_files_distinct _ _ _ _ _ _ parsed recovered).2.mpr ?_⟩
  rw [names]
  simpa using different

open OutputSample in
/-- The second database is written over the first. -/
theorem recovered_files_overwritten : ∃ dbs : List RecoveredDb,
    recover ExportSample.calls.primitives clashing ExportSample.code = .ok dbs ∧
    ¬ Delivers ExportSample.calls.primitives ["out".toList] clashing ExportSample.code dbs := by
  have recovered : recover ExportSample.calls.primitives clashing ExportSample.code =
      .ok [⟨"a.db", []⟩, ⟨"x/a.db", []⟩] := by decide +kernel
  have same : safeOutputStem "a.db".toList = safeOutputStem "x/a.db".toList := by decide +kernel
  have paths : outputPath ["out".toList] "a.db" = outputPath ["out".toList] "x/a.db" := by
    rw [outputPath_eq, outputPath_eq, same]
  refine ⟨_, recovered, ?_⟩
  intro delivers
  exact (List.nodup_cons.mp delivers.distinct).1 (List.mem_singleton.mpr paths)

end Freehold.RecoverOutput
