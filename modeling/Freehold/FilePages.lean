import Freehold.SlotBindings

set_option autoImplicit false

/- The pages of a file, and what the calls of the VFS on one file leave of them and of the others. -/
namespace Freehold

open CrashLogic

/-- Pages with one written; a page between the end and it is missing. -/
def setPage (pages : List (Option Block)) (k : Nat) (page : Block) : List (Option Block) :=
  if k < pages.length then pages.set k (some page)
  else pages ++ List.replicate (k - pages.length) none ++ [some page]

/-- The first `n` pages; the ones that are not there are missing. -/
def cutPages (pages : List (Option Block)) (n : Nat) : List (Option Block) :=
  pages.take n ++ List.replicate (n - pages.length) none

section Lists

variable {pages : List (Option Block)} {k n i : Nat} {page : Block}

theorem length_setPage : (setPage pages k page).length = max pages.length (k + 1) := by
  unfold setPage
  split
  · rw [List.length_set]
    omega
  · simp only [List.length_append, List.length_replicate, List.length_singleton]
    omega

theorem length_cutPages : (cutPages pages n).length = n := by
  rw [cutPages, List.length_append, List.length_take, List.length_replicate]
  omega

theorem getElem?_setPage : (setPage pages k page)[i]? =
    if i = k then some (some page) else if i < pages.length then pages[i]?
      else if i < k then some none else none := by
  unfold setPage
  split
  · next inside =>
      rw [List.getElem?_set]
      by_cases here : i = k
      · simp [here, inside]
      · rw [if_neg (Ne.symm here), if_neg here]
        split
        · rfl
        · rw [if_neg (by omega), List.getElem?_eq_none (by omega)]
  · next outside =>
      rw [List.append_assoc]
      by_cases low : i < pages.length
      · rw [List.getElem?_append_left low, if_neg (by omega), if_pos low]
      · rw [List.getElem?_append_right (by omega), if_neg low]
        by_cases gap : i < k
        · rw [List.getElem?_append_left (by simp; omega), List.getElem?_replicate, if_pos (by omega),
            if_neg (by omega), if_pos gap]
        · rw [List.getElem?_append_right (by simp; omega), List.length_replicate]
          by_cases here : i = k
          · rw [if_pos here, here, show k - pages.length - (k - pages.length) = 0 by omega]
            rfl
          · rw [if_neg here, if_neg gap, List.getElem?_eq_none (by simp; omega)]

/-- The first page changes only where it is the one written. -/
theorem getElem?_setPage_zero (later : 0 < k) : (setPage pages k page)[0]? = some none ∨
    (setPage pages k page)[0]? = pages[0]? := by
  rw [getElem?_setPage, if_neg (by omega), if_pos later]
  split
  · exact .inr rfl
  · exact .inl rfl

theorem getElem?_cutPages (inside : i < n) : (cutPages pages n)[i]? =
    if i < pages.length then pages[i]? else some none := by
  unfold cutPages
  split
  · next low =>
      rw [List.getElem?_append_left (by rw [List.length_take]; omega), List.getElem?_take, if_pos inside]
  · next high =>
      rw [List.getElem?_append_right (by rw [List.length_take]; omega), List.length_take,
        List.getElem?_replicate, if_pos (by omega)]

end Lists

namespace SyncAccessFile

/-- The pages of a file; one that does not authenticate is missing. -/
def pages (file : SyncAccessFile) : List (Option Block) := file.data.cells.mapIdx file.openCell

/-- Whether the file begins with the magic of a journal. -/
def marked (file : SyncAccessFile) : Bool :=
  match file.pages[0]? with
  | some (some page) => journalMagic.isPrefixOf page.toList
  | _ => false

/-- A page sealed in its place. -/
def withPage (file : SyncAccessFile) (k : Nat) (page : Block) : SyncAccessFile :=
  { file with data := file.data.writeCell k (file.sealCell k page) }

/-- The file after a whole page has been written. -/
def written (file : SyncAccessFile) (k : Nat) (page : Block) : SyncAccessFile :=
  { file.withPage k page with
    logicalSize := some (max (file.logicalSize.getD (physLogical file.data))
      (k * blockSize + blockSize)) }

/-- The file cut to a number of blocks. -/
def cutTo (file : SyncAccessFile) (n : Nat) : SyncAccessFile :=
  { file with data := file.data.truncateCells n }

/-- The file keeps its handle: its key, its domain, its identity and its name. -/
structure SameHandle (file other : SyncAccessFile) : Prop where
  header : other.header = file.header
  crypto : other.crypto = file.crypto
  keyDomain : other.keyDomain = file.keyDomain
  fileId : other.fileId = file.fileId
  isMainDb : other.isMainDb = file.isMainDb

variable {file other third : SyncAccessFile} {k n : Nat} {page : Block}

theorem SameHandle.refl (file : SyncAccessFile) : SameHandle file file := ⟨rfl, rfl, rfl, rfl, rfl⟩

theorem SameHandle.trans (first : SameHandle file other) (second : SameHandle other third) :
    SameHandle file third :=
  ⟨second.header.trans first.header, second.crypto.trans first.crypto,
    second.keyDomain.trans first.keyDomain, second.fileId.trans first.fileId,
    second.isMainDb.trans first.isMainDb⟩

theorem sameHandle_withPage (file : SyncAccessFile) (k : Nat) (page : Block) :
    SameHandle file (file.withPage k page) := ⟨rfl, rfl, rfl, rfl, rfl⟩

theorem sameHandle_cutTo (file : SyncAccessFile) (n : Nat) : SameHandle file (file.cutTo n) :=
  ⟨rfl, rfl, rfl, rfl, rfl⟩

theorem openCell_sealCell : file.openCell k (file.sealCell k page) = some page :=
  Aead.openWith_sealed _ _ _

@[simp] theorem length_pages : file.pages.length = file.data.cells.length := List.length_mapIdx

theorem getElem?_pages (i : Nat) : file.pages[i]? = (file.data.cells[i]?).map (file.openCell i) :=
  List.getElem?_mapIdx

theorem physLogical_eq : physLogical file.data = file.pages.length * blockSize := by
  rw [physLogical, length_pages, Region.length_cells]

theorem cells_withPage : (file.withPage k page).data.cells =
    if k < file.data.cells.length then file.data.cells.set k (file.sealCell k page)
    else file.data.cells ++ List.replicate (k - file.data.cells.length) (.junk 0) ++
      [file.sealCell k page] := by
  unfold withPage Region.writeCell
  dsimp only
  split <;> rfl

theorem cells_cutTo : (file.cutTo n).data.cells =
    file.data.cells.take n ++ List.replicate (n - file.data.cells.length) (.junk 0) := rfl

theorem getElem?_pages_withPage (i : Nat) : (file.withPage k page).pages[i]? =
    ((file.withPage k page).data.cells[i]?).map (file.openCell i) := getElem?_pages i

theorem pages_withPage : (file.withPage k page).pages = setPage file.pages k page := by
  apply List.ext_getElem?
  intro i
  rw [getElem?_setPage, getElem?_pages_withPage, cells_withPage, getElem?_pages, length_pages]
  by_cases inside : k < file.data.cells.length
  · rw [if_pos inside, List.getElem?_set]
    by_cases same : k = i
    · subst same
      rw [if_pos rfl, if_pos inside, Option.map_some, if_pos rfl]
      exact congrArg some openCell_sealCell
    · rw [if_neg same, if_neg (Ne.symm same)]
      by_cases low : i < file.data.cells.length
      · rw [if_pos low]
      · rw [if_neg low, if_neg (by omega), List.getElem?_eq_none (by omega)]
        rfl
  · rw [if_neg inside, List.append_assoc]
    by_cases low : i < file.data.cells.length
    · rw [List.getElem?_append_left low, if_neg (by omega), if_pos low]
    · rw [List.getElem?_append_right (by omega), if_neg low]
      by_cases gap : i < k
      · rw [List.getElem?_append_left (by rw [List.length_replicate]; omega), List.getElem?_replicate,
          if_pos (by omega), if_neg (by omega), if_pos gap]
        rfl
      · rw [List.getElem?_append_right (by rw [List.length_replicate]; omega), List.length_replicate]
        by_cases same : i = k
        · subst same
          rw [Nat.sub_self, if_pos rfl]
          exact congrArg some openCell_sealCell
        · rw [if_neg same, if_neg gap, List.getElem?_eq_none (by rw [List.length_singleton]; omega)]
          rfl

theorem pages_cutTo : (file.cutTo n).pages = cutPages file.pages n := by
  have there (i : Nat) : (file.cutTo n).pages[i]? =
      ((file.cutTo n).data.cells[i]?).map (file.openCell i) := getElem?_pages i
  apply List.ext_getElem?
  intro i
  by_cases inside : i < n
  · rw [getElem?_cutPages inside, there, cells_cutTo, getElem?_pages, length_pages]
    by_cases low : i < file.data.cells.length
    · rw [List.getElem?_append_left (by rw [List.length_take]; omega), List.getElem?_take,
        if_pos inside, if_pos low]
    · rw [List.getElem?_append_right (by rw [List.length_take]; omega), List.length_take,
        List.getElem?_replicate, if_pos (by omega), if_neg low]
      rfl
  · have short : (file.cutTo n).pages.length = n := by
      rw [length_pages, cells_cutTo, List.length_append, List.length_take, List.length_replicate]
      omega
    rw [List.getElem?_eq_none (by omega), List.getElem?_eq_none (by rw [length_cutPages]; omega)]

end SyncAccessFile

theorem decryptCells_eq_ok {kdb : Key} {uuid : Uuid} {fid : FileId} {cells : List Cell}
    {image : List Block} (k : Nat) : decryptCells kdb uuid fid k cells = .ok image ↔
      cells.mapIdx (fun i cell => cell.openWith kdb (.block fid uuid (k + i))) = image.map some := by
  induction cells generalizing k image with
  | nil =>
      rw [decryptCells, List.mapIdx_nil, Except.ok.injEq, eq_comm, eq_comm (a := []), List.map_eq_nil_iff]
  | cons cell rest ih =>
      rw [decryptCells, List.mapIdx_cons, Nat.add_zero]
      have shifted : (fun i (cell : Cell) => cell.openWith kdb (.block fid uuid (k + (i + 1)))) =
          fun i cell => cell.openWith kdb (.block fid uuid (k + 1 + i)) := by
        funext i cell
        rw [Nat.add_assoc, Nat.add_comm 1 i]
      rw [shifted]
      cases cell.openWith kdb (.block fid uuid k) with
      | none => cases image <;> simp
      | some plain =>
          simp only [except_bind_ok, ih]
          constructor
          · rintro ⟨tail, same, shape⟩
            cases shape
            rw [same, List.map_cons]
          · intro same
            cases image with
            | nil => cases same
            | cons first tail =>
                simp only [List.map_cons, List.cons.injEq, Option.some.injEq] at same
                exact ⟨tail, same.2, by rw [same.1]; rfl⟩

/-- A file whose pages all authenticate, in the domain it is bound to. -/
theorem SyncAccessFile.pages_eq_image {file : SyncAccessFile} {image : List Block} :
    file.pages = image.map some ↔
      decryptWholeFile file.data file.crypto file.keyDomain file.fileId = .ok image := by
  rw [decryptWholeFile, decryptCells_eq_ok]
  simp only [Nat.zero_add]
  rfl

section Magic

variable {plain old : Block} {lo k n : Nat} {chunk bytes : List UInt8} {file : SyncAccessFile}

theorem magic_isPrefixOf : journalMagic.isPrefixOf bytes = true ↔ bytes.take 8 = journalMagic := by
  rw [List.isPrefixOf_iff_prefix, List.prefix_iff_eq_take, eq_comm]
  rfl

theorem length_of_magic (marked : journalMagic.isPrefixOf bytes = true) : 8 ≤ bytes.length := by
  rw [magic_isPrefixOf] at marked
  have eight : (bytes.take 8).length = 8 := by
    rw [marked]
    rfl
  rw [List.length_take] at eight
  omega

theorem getElem_overlay {i : Nat} (inside : i < blockSize) :
    (overlay plain lo chunk)[i] = if lo ≤ i then chunk.getD (i - lo) plain[i] else plain[i] := by
  rw [overlay, Vector.getElem_ofFn]
  rfl

/-- A chunk past the magic does not change it. -/
theorem overlay_behind (behind : 8 ≤ lo) :
    journalMagic.isPrefixOf (overlay plain lo chunk).toList = journalMagic.isPrefixOf plain.toList := by
  have same : (overlay plain lo chunk).toList.take 8 = plain.toList.take 8 := by
    apply List.ext_getElem
    · rw [List.length_take, List.length_take, Vector.length_toList, Vector.length_toList]
    · intro i low _
      rw [List.length_take] at low
      rw [List.getElem_take, List.getElem_take, Vector.getElem_toList, Vector.getElem_toList,
        getElem_overlay, if_neg (by omega)]
  rw [Bool.eq_iff_iff, magic_isPrefixOf, magic_isPrefixOf, same]

/-- One from the beginning on brings its own. -/
theorem overlay_front (long : 8 ≤ chunk.length) :
    journalMagic.isPrefixOf (overlay plain 0 chunk).toList = journalMagic.isPrefixOf chunk := by
  have same : (overlay plain 0 chunk).toList.take 8 = chunk.take 8 := by
    apply List.ext_getElem
    · rw [List.length_take, List.length_take, Vector.length_toList]
      have block : (8 : Nat) ≤ blockSize := by decide
      omega
    · intro i low _
      rw [List.length_take] at low
      rw [List.getElem_take, List.getElem_take, Vector.getElem_toList, getElem_overlay,
        if_pos (Nat.zero_le i), Nat.sub_zero, List.getD_eq_getElem _ _ (by omega)]
  rw [Bool.eq_iff_iff, magic_isPrefixOf, magic_isPrefixOf, same]

theorem zeroBlock_unmarked : journalMagic.isPrefixOf zeroBlock.toList = false := by
  have first : zeroBlock.toList = 0 :: List.replicate 4095 0 := by
    rw [zeroBlock, Vector.toList_replicate]
    rfl
  rw [first]
  rfl

namespace SyncAccessFile

theorem marked_withPage_later (later : 0 < k) : (file.withPage k plain).marked = file.marked := by
  unfold marked
  rw [pages_withPage]
  cases first : file.pages with
  | nil =>
      rw [getElem?_setPage, if_neg (by omega), if_neg (by simp), if_pos later]
      rfl
  | cons page rest => rw [getElem?_setPage, if_neg (by omega), if_pos (by simp)]

theorem marked_withPage_zero : (file.withPage 0 plain).marked = journalMagic.isPrefixOf plain.toList := by
  unfold marked
  rw [pages_withPage, getElem?_setPage, if_pos rfl]

theorem unmarked_cutTo (cut : n = 0 ∨ file.marked = false) : (file.cutTo n).marked = false := by
  unfold marked at cut ⊢
  rw [pages_cutTo]
  rcases Nat.eq_zero_or_pos n with rfl | some_left
  · rw [List.getElem?_eq_none (by rw [length_cutPages])]
  · rw [getElem?_cutPages some_left]
    by_cases there : 0 < file.pages.length
    · rw [if_pos there]
      exact cut.resolve_left (by omega)
    · rw [if_neg there]

/-- No byte of the magic is a zero. -/
theorem unmarked_zeroed (low : lo < blockSize) (unmarked : journalMagic.isPrefixOf plain.toList = false)
    (zeros : ∀ i, chunk.getD i 0 = 0) (covers : chunk ≠ []) :
    journalMagic.isPrefixOf (overlay plain lo chunk).toList = false := by
  by_cases behind : 8 ≤ lo
  · rw [overlay_behind behind]
    exact unmarked
  · rw [← Bool.not_eq_true, magic_isPrefixOf]
    intro magic
    have nonzero : ∀ i < 8, journalMagic[i]? ≠ some 0 := by decide
    apply nonzero lo (Nat.lt_of_not_le behind)
    have first : 0 < chunk.length := List.length_pos_iff.mpr covers
    rw [← magic, List.getElem?_take, if_pos (by omega),
      List.getElem?_eq_getElem (by rw [Vector.length_toList]; exact low), Vector.getElem_toList,
      getElem_overlay low, if_pos (Nat.le_refl lo), Nat.sub_self, List.getD_eq_getElem _ _ first]
    have zero := zeros 0
    rw [List.getD_eq_getElem _ _ first] at zero
    rw [zero]

/-- What is sealed into the first block is marked as the write says. -/
theorem marked_overlaid (sealing : file.overlaid 0 lo chunk = .ok plain)
    (starts : chunk.length = blockSize → lo = 0) :
    (8 ≤ lo → journalMagic.isPrefixOf plain.toList = file.marked) ∧
      (lo = 0 → 8 ≤ chunk.length →
        journalMagic.isPrefixOf plain.toList = journalMagic.isPrefixOf chunk) := by
  unfold overlaid at sealing
  unfold marked
  rw [getElem?_pages]
  split at sealing
  · next whole =>
      rw [← Except.ok.inj sealing]
      exact ⟨fun behind => absurd (starts whole) (by omega), fun _ long => overlay_front long⟩
  · cases there : file.data.cells[0]? with
    | none =>
        rw [there] at sealing
        rw [← Except.ok.inj sealing]
        refine ⟨fun behind => (overlay_behind behind).trans zeroBlock_unmarked, ?_⟩
        rintro rfl long
        exact overlay_front long
    | some cell =>
        rw [there] at sealing
        dsimp only at sealing
        cases opens : file.openCell 0 cell with
        | none => rw [opens] at sealing; cases sealing
        | some old =>
            rw [opens] at sealing
            rw [← Except.ok.inj sealing]
            refine ⟨fun behind => ?_, ?_⟩
            · rw [Option.map_some, opens]
              exact overlay_behind behind
            · rintro rfl long
              exact overlay_front long

end SyncAccessFile

end Magic

namespace Pool

/-- What a call on one file leaves alone. -/
structure OnlyFile (name : FileName) (p q : Pool) : Prop where
  dek : q.dek = p.dek
  dbs : q.dbs = p.dbs
  anchor : q.anchor = p.anchor
  files : ∀ other ≠ name, q.files[other]? = p.files[other]?

section OnlyFile

variable {name other : FileName} {p q : Pool}

theorem OnlyFile.refl (name : FileName) (p : Pool) : OnlyFile name p p :=
  ⟨rfl, rfl, rfl, fun _ _ => rfl⟩

theorem OnlyFile.modifyFile (only : OnlyFile name p q) (f : SyncAccessFile → SyncAccessFile) :
    OnlyFile name p (q.modifyFile name f) := by
  refine ⟨only.dek, only.dbs, only.anchor, fun other apart => ?_⟩
  rw [Pool.modifyFile, Std.ExtTreeMap.getElem?_modify, if_neg (by simpa using Ne.symm apart)]
  exact only.files other apart

theorem OnlyFile.keptByWrites : KeptByWrites name (OnlyFile name p) :=
  fun f _ _ only => only.modifyFile f

theorem OnlyFile.unmapSlot (only : OnlyFile name p q) : OnlyFile name p (Pool.unmapSlot name q) := by
  cases found : q.files[name]? with
  | none =>
      rw [Pool.unmapSlot, found]
      exact only
  | some file =>
      rw [unmapSlot_of_some found]
      refine ⟨only.dek, only.dbs, only.anchor, fun other apart => ?_⟩
      rw [Std.ExtTreeMap.getElem?_erase, if_neg (by simpa using Ne.symm apart)]
      exact only.files other apart

theorem OnlyFile.mapSlot (only : OnlyFile name p q) (header : Option HeaderName) :
    OnlyFile name p (Pool.mapSlot name header q) := by
  cases free : q.available with
  | nil =>
      rw [Pool.mapSlot, free]
      exact only
  | cons slot rest =>
      rw [mapSlot_of_cons free]
      refine ⟨only.dek, only.dbs, only.anchor, fun other apart => ?_⟩
      rw [Std.ExtTreeMap.getElem?_insert, if_neg (by simpa using Ne.symm apart)]
      exact only.files other apart

theorem keeps_only_write (bytes : List UInt8) (offset : Nat) :
    Keeps (OnlyFile name p) (Pool.write name bytes offset) := keeps_write .keptByWrites bytes offset

theorem keeps_only_truncate (size : Nat) : Keeps (OnlyFile name p) (Pool.truncate name size) :=
  keeps_truncate .keptByWrites size

theorem keeps_only_deleteFile : Keeps (OnlyFile name p) (Pool.deleteFile name) := by
  unfold Pool.deleteFile
  apply keeps_get_bind
  intro pool _
  split
  · apply keeps_bind (keeps_effect fun q only => only.modifyFile _)
    intro _
    apply keeps_bind (keeps_effect fun q only => only.unmapSlot)
    intro _
    exact keeps_pure true
  · exact keeps_pure false

theorem keeps_only_withNewFile : Keeps (OnlyFile name p) (Pool.withNewFile name (Prog.pure ())) := by
  unfold Pool.withNewFile
  apply keeps_get_bind
  intro pool _
  have mapped : ∀ header q, OnlyFile name p q → OnlyFile name p (Pool.mapSlot name header q) :=
    fun header q only => only.mapSlot header
  dsimp only
  split_ifs
  · exact keeps_fail _
  · exact keeps_fail _
  · exact keeps_bind (keeps_modify (mapped none)) fun _ => keeps_fail _
  · exact keeps_bind (keeps_modify (mapped none)) fun _ => keeps_fail _
  · exact keeps_bind (keeps_effect (mapped _)) fun _ => keeps_pure ()

theorem keeps_only_bindSatellite : Keeps (OnlyFile name p) (Pool.bindSatellite name) := by
  unfold Pool.bindSatellite
  apply keeps_get_bind
  intro pool _
  split
  · exact keeps_pure ()
  · split
    · exact keeps_pure ()
    · split
      · exact keeps_fail _
      · exact keeps_modify fun q only => only.modifyFile _

end OnlyFile

section Touched

open SyncAccessFile

variable {name : FileName} {q : Pool} {file : SyncAccessFile} {offset size k : Nat}
  {bytes : List UInt8}

/-- Nothing is done to a file that is not there. -/
theorem meets_withFile_missing {α : Type} {body : SyncAccessFile → VfsM α} {post : α → Pool → Prop}
    (missing : q.files[name]? = none) :
    (Pool.withFile name body q).Meets (fun _ => True) post fun _ _ => True := by
  unfold Pool.withFile
  apply meets_get_bind
  rw [missing]
  exact meets_fail trivial

/-- A block written into a file that is there. -/
theorem getElem?_withPage (found : q.files[name]? = some file) (plain : Block) :
    (q.modifyFile name fun other => { other with
      data := other.data.writeCell k (other.sealCell k plain) }).files[name]? =
        some (file.withPage k plain) := by
  rw [getElem?_modifyFile, found]
  rfl

/-- Blocks after the first leave the magic alone. -/
theorem meets_writeBlocks_later (found : q.files[name]? = some file) (later : blockSize ≤ offset) :
    (Pool.writeBlocks name offset bytes q).Meets (fun _ => True)
      (fun _ r => ∃ other, r.files[name]? = some other ∧ SameHandle file other ∧
        other.marked = file.marked) fun _ _ => True := by
  induction offset, bytes using Pool.writeBlocks.induct generalizing q file with
  | case1 offset bytes more lo =>
      rename_i chunk ih
      rw [Pool.writeBlocks, dif_pos more]
      unfold Pool.withFile
      apply meets_get_bind
      simp only [found]
      apply meets_ofExcept_bind
      · intro plain _
        apply meets_effect_bind trivial
        have past : 0 < offset / blockSize := Nat.div_pos later (by decide)
        refine (ih (getElem?_withPage found plain) (Nat.le_add_right_of_le later)).mono
          (fun _ kept => kept) ?_ fun _ _ kept => kept
        rintro _ r ⟨other, there, same, mark⟩
        exact ⟨other, there, (sameHandle_withPage file _ plain).trans same,
          mark.trans (marked_withPage_later past)⟩
      · exact fun _ _ => trivial
  | case2 offset bytes done =>
      rw [Pool.writeBlocks, dif_neg done]
      exact meets_pure ⟨file, found, .refl file, rfl⟩

theorem meets_writeBlocks (found : q.files[name]? = some file) :
    (Pool.writeBlocks name offset bytes q).Meets (fun _ => True)
      (fun _ r => ∃ other, r.files[name]? = some other ∧ SameHandle file other ∧
        (8 ≤ offset → other.marked = file.marked) ∧
        (offset = 0 → 8 ≤ bytes.length → other.marked = journalMagic.isPrefixOf bytes))
      fun _ _ => True := by
  by_cases later : blockSize ≤ offset
  · refine (meets_writeBlocks_later found later).mono (fun _ kept => kept) ?_ fun _ _ kept => kept
    rintro _ r ⟨other, there, same, mark⟩
    refine ⟨other, there, same, fun _ => mark, fun start => ?_⟩
    have block : 0 < blockSize := by decide
    omega
  · by_cases more : bytes = []
    · rw [Pool.writeBlocks, dif_neg (not_not.mpr more)]
      refine meets_pure ⟨file, found, .refl file, fun _ => rfl, fun _ long => ?_⟩
      rw [more] at long
      exact absurd long (by decide)
    · have low : offset < blockSize := Nat.lt_of_not_le later
      have first : offset / blockSize = 0 := Nat.div_eq_of_lt low
      have within : offset % blockSize = offset := Nat.mod_eq_of_lt low
      rw [Pool.writeBlocks, dif_pos more, first, within]
      unfold Pool.withFile
      apply meets_get_bind
      simp only [found]
      apply meets_ofExcept_bind
      · intro plain sealing
        apply meets_effect_bind trivial
        have starts : (bytes.take (blockSize - offset)).length = blockSize → offset = 0 := by
          rw [List.length_take]
          omega
        obtain ⟨behind, front⟩ := marked_overlaid sealing starts
        have there := @getElem?_withPage name q file 0 found plain
        have marks : (8 ≤ offset → (file.withPage 0 plain).marked = file.marked) ∧
            (offset = 0 → 8 ≤ bytes.length →
              (file.withPage 0 plain).marked = journalMagic.isPrefixOf bytes) := by
          rw [marked_withPage_zero]
          refine ⟨behind, fun start long => ?_⟩
          have eight : 8 ≤ blockSize := by decide
          rw [front start (by rw [List.length_take]; omega), Bool.eq_iff_iff, magic_isPrefixOf,
            magic_isPrefixOf, List.take_take, Nat.min_eq_left (by omega)]
        by_cases rest : bytes.drop (blockSize - offset) = []
        · rw [Pool.writeBlocks, dif_neg (not_not.mpr rest)]
          exact meets_pure ⟨_, there, sameHandle_withPage file 0 plain, marks⟩
        · have past : blockSize ≤ offset + (bytes.take (blockSize - offset)).length := by
            have some_left := List.length_pos_iff.mpr rest
            rw [List.length_drop] at some_left
            rw [List.length_take]
            omega
          refine (meets_writeBlocks_later there past).mono (fun _ kept => kept) ?_ fun _ _ kept => kept
          rintro _ r ⟨other, held, same, mark⟩
          refine ⟨other, held, (sameHandle_withPage file 0 plain).trans same, ?_, ?_⟩
          · exact fun far => mark.trans (marks.1 far)
          · exact fun start long => mark.trans (marks.2 start long)
      · exact fun _ _ => trivial

/-- What a write leaves of a journal: its magic, if it starts behind it, or else the magic it brings. -/
theorem meets_write_marked (found : q.files[name]? = some file) :
    (Pool.write name bytes offset q).Meets (fun _ => True)
      (fun _ r => ∃ other, r.files[name]? = some other ∧ SameHandle file other ∧
        (8 ≤ offset → other.marked = file.marked) ∧
        (offset = 0 → 8 ≤ bytes.length → other.marked = journalMagic.isPrefixOf bytes))
      fun _ _ => True := by
  unfold Pool.write Pool.withFile
  apply meets_get_bind
  simp only [found]
  split
  · next blank =>
      refine meets_pure ⟨file, found, .refl file, fun _ => rfl, fun _ long => ?_⟩
      rw [blank] at long
      exact absurd long (by decide)
  · apply meets_ofExcept_bind
    · intro _ _
      apply meets_bind _ (meets_writeBlocks found)
      rintro _ r ⟨other, there, same, behind, front⟩
      apply meets_modify
      rw [getElem?_modifyFile, there, Option.map_some]
      exact ⟨_, rfl, ⟨same.header, same.crypto, same.keyDomain, same.fileId, same.isMainDb⟩, behind, front⟩
    · exact fun _ _ => trivial

/-- A whole page is sealed into its place. -/
theorem meets_write_page (found : q.files[name]? = some file) (whole : bytes.length = blockSize) :
    (Pool.write name bytes (k * blockSize) q).Meets (fun _ => True)
      (fun _ r => file.pageSizeCheck bytes (k * blockSize) = .ok () ∧
        r.files[name]? = some (file.written k (pageOf bytes)))
      fun _ _ => True := by
  have block : 0 < blockSize := by decide
  have more : bytes ≠ [] := by
    intro blank
    rw [blank] at whole
    exact absurd whole (by decide)
  have page : overlay zeroBlock 0 bytes = pageOf bytes := by
    apply Vector.ext
    intro i inside
    rw [getElem_overlay, if_pos (Nat.zero_le i), Nat.sub_zero, pageOf, Vector.getElem_ofFn,
      List.getD_eq_getElem _ _ (by omega), List.getD_eq_getElem _ _ (by simp only; omega)]
  have index : k * blockSize / blockSize = k := Nat.mul_div_cancel _ block
  have start : k * blockSize % blockSize = 0 := Nat.mul_mod_left _ _
  unfold Pool.write Pool.withFile
  apply meets_get_bind
  simp only [found, if_neg more]
  apply meets_ofExcept_bind
  · intro checked passes
    apply meets_bind (fun _ r => r.files[name]? = some (file.withPage k (pageOf bytes)))
    · rw [Pool.writeBlocks, dif_pos more, index, start, Nat.sub_zero, List.take_of_length_le (by omega),
        List.drop_of_length_le (by omega)]
      unfold Pool.withFile
      apply meets_get_bind
      simp only [found, overlaid, if_pos whole, page]
      apply meets_ofExcept_bind
      · intro plain same
        rw [← Except.ok.inj same]
        apply meets_effect_bind trivial
        rw [Pool.writeBlocks, dif_neg (by simp)]
        exact meets_pure (getElem?_withPage found _)
      · exact fun _ _ => trivial
    · intro _ r there
      apply meets_modify
      refine ⟨passes, ?_⟩
      rw [getElem?_modifyFile, there, whole]
      rfl
  · exact fun _ _ => trivial

theorem meets_cut (found : q.files[name]? = some file) (n : Nat) : ((Pool.withFile name fun _ => do
      Prog.effect (Pool.modifyFile name fun file => { file with data := file.data.truncateCells n })
      Prog.modify (Pool.modifyFile name fun file => { file with logicalSize := some size }) :
        VfsM Unit) q).Meets (fun _ => True)
      (fun _ r => r.files[name]? = some { file.cutTo n with logicalSize := some size })
      fun _ _ => True := by
  unfold Pool.withFile
  apply meets_get_bind
  simp only [found]
  apply meets_effect_bind trivial
  apply meets_modify
  rw [getElem?_modifyFile, getElem?_modifyFile, found]
  rfl

/-- A file cut to whole pages. -/
theorem meets_truncate_pages (found : q.files[name]? = some file) (n : Nat) :
    (Pool.truncate name (n * blockSize) q).Meets (fun _ => True)
      (fun _ r => r.files[name]? = some { file.cutTo n with logicalSize := some (n * blockSize) })
      fun _ _ => True := by
  have block : 0 < blockSize := by decide
  have count : (n * blockSize + blockSize - 1) / blockSize = n := by
    rw [Nat.add_sub_assoc block, Nat.add_comm, Nat.add_mul_div_right _ _ block,
      Nat.div_eq_of_lt (by omega), Nat.zero_add]
  unfold Pool.truncate
  rw [if_neg (by rw [Nat.mul_mod_left]; exact not_not.mpr rfl), count]
  exact meets_cut found n

/-- A journal without its magic does not get one from being cut, and one that is emptied has none. -/
theorem meets_truncate_unmarked (found : q.files[name]? = some file)
    (cut : size = 0 ∨ file.marked = false) :
    (Pool.truncate name size q).Meets (fun _ => True)
      (fun _ r => ∃ other, r.files[name]? = some other ∧ SameHandle file other ∧ other.marked = false)
      fun _ _ => True := by
  have ends : ∀ kept r, r.files[name]? = some kept → SameHandle file kept →
      (size = 0 ∨ kept.marked = false) → ((Pool.withFile name fun _ => do
        Prog.effect (Pool.modifyFile name fun file =>
          { file with data := file.data.truncateCells ((size + blockSize - 1) / blockSize) })
        Prog.modify (Pool.modifyFile name fun file => { file with logicalSize := some size }) :
          VfsM Unit) r).Meets (fun _ => True) (fun _ r => ∃ other, r.files[name]? = some other ∧
            SameHandle file other ∧ other.marked = false) fun _ _ => True := by
    intro kept r there same left
    refine (meets_cut there _).mono (fun _ kept => kept) ?_ fun _ _ kept => kept
    intro _ t held
    refine ⟨_, held, ⟨same.header, same.crypto, same.keyDomain, same.fileId, same.isMainDb⟩, ?_⟩
    have cut_short : (size + blockSize - 1) / blockSize = 0 ∨ kept.marked = false := by
      refine left.imp (fun zero => ?_) id
      rw [zero]
      rfl
    exact unmarked_cutTo cut_short
  unfold Pool.truncate
  by_cases whole : size % blockSize = 0
  · rw [if_neg (not_not.mpr whole)]
    exact ends file q found (.refl file) cut
  · have sized : size ≠ 0 := by
      rintro rfl
      exact whole (Nat.zero_mod _)
    have unmarked := cut.resolve_left sized
    rw [if_pos whole]
    apply meets_bind (fun _ r => ∃ kept, r.files[name]? = some kept ∧ SameHandle file kept ∧
      kept.marked = false)
    · unfold Pool.resealTail Pool.withFile
      apply meets_get_bind
      simp only [found]
      cases there : file.data.cells[size / blockSize]? with
      | none => exact meets_pure ⟨file, found, .refl file, unmarked⟩
      | some cell =>
          dsimp only
          cases opens : file.openCell (size / blockSize) cell with
          | none => exact meets_fail trivial
          | some plain =>
              apply meets_effect trivial
              refine ⟨_, getElem?_withPage found _, sameHandle_withPage file _ _, ?_⟩
              rcases Nat.eq_zero_or_pos (size / blockSize) with first | later
              · have low : size < blockSize := (Nat.div_eq_zero_iff.mp first).resolve_left (by decide)
                rw [first] at there opens ⊢
                rw [marked_withPage_zero]
                refine unmarked_zeroed (Nat.mod_lt _ (by decide)) ?_ ?_ ?_
                · unfold SyncAccessFile.marked at unmarked
                  rw [getElem?_pages, there, Option.map_some, opens] at unmarked
                  exact unmarked
                · intro i
                  rw [List.getD_eq_getElem?_getD, List.getElem?_replicate]
                  split <;> rfl
                · have room : size % blockSize < blockSize := Nat.mod_lt _ (by decide)
                  rw [ne_eq, List.replicate_eq_nil_iff]
                  omega
              · rw [marked_withPage_later later]
                exact unmarked
    · rintro _ r ⟨kept, there, same, left⟩
      exact ends kept r there same (.inr left)

end Touched

end Pool

end Freehold
