import Freehold.DeviceVector
import Freehold.VectorLattice

set_option autoImplicit false

/- The full-state root on the bytes that are hashed. -/
namespace Freehold.StateRoot

open Cursor BlockDevice

/-- `MERKLE_ROOT_LABEL`. -/
def merkleRootLabel : List UInt8 := utf8Bytes "freehold/full-state-root-v1"

/-- What the hash of a leaf is taken of. -/
def leafMessage (blockIndex : Nat) (plaintext : Block) : List UInt8 :=
  merkleRootLabel ++ toLe 8 blockIndex ++ plaintext.toList

/-- What the running hasher has absorbed, and how many blocks there were. -/
structure FullStateRoot where
  absorbed : List UInt8
  count : Nat

namespace FullStateRoot

def new : FullStateRoot := ⟨merkleRootLabel, 0⟩

variable (P : Primitives)

def updateBlock (root : FullStateRoot) (blockIndex : Nat) (plaintext : Block) : FullStateRoot :=
  ⟨root.absorbed ++ (P.sha256 (leafMessage blockIndex plaintext)).toList, root.count + 1⟩

def finish (root : FullStateRoot) : Vector UInt8 32 := P.sha256 (root.absorbed ++ toLe 8 root.count)

end FullStateRoot

variable (P : Primitives)

/-- The loop of `full_state_root`, from block `k` on. -/
def rootBlocks (f : OpenFile) : (k count : Nat) → FullStateRoot → Except OpfsSAHError FullStateRoot
  | _, 0, root => .ok root
  | k, count + 1, root =>
      let found := f.physRead physBlock (usize (k * physBlock))
      if found.length < physBlock then
        .error (.generic
          s!"root: block {k} short/torn ({found.length}<{physBlock}) while computing full-state root")
      else
        match f.openBlock P k found with
        | none => .error (.generic
            s!"root: block {k} failed AEAD authentication (tamper?) while computing full-state root")
        | some plain => rootBlocks f (k + 1) count (root.updateBlock P k plain)

/-- `full_state_root` of the file that stands under the name. -/
def fullStateRoot (name : FileName) (file : Option OpenFile) : Except OpfsSAHError (Vector UInt8 32) :=
  match file with
  | none =>
      let shown := String.ofList name
      .error (.generic s!"{shown} not in pool for root")
  | some f => do
      let root ← rootBlocks P f 0 (f.size / blockSize) .new
      return root.finish P

/-- What block `k` of the file decrypts to. -/
def blockAt (f : OpenFile) (k : Nat) : Option Block :=
  let found := f.physRead physBlock (usize (k * physBlock))
  if found.length < physBlock then none else f.openBlock P k found

/-- The whole blocks of the file, in order. -/
def contents (f : OpenFile) : Option (List Block) :=
  (List.range' 0 (f.size / blockSize)).mapM (blockAt P f)

/-- The loop over the main file in `reseal_db_ciphertext`, from block `k` on; `draw` gives each block
its nonce. -/
def resealMain (oldK newK : Key) (fid : FileId) (uuid : Uuid) (draw : Nat → Vector UInt8 24)
    (raw : List UInt8) : (k count : Nat) → Except OpfsSAHError (List UInt8)
  | _, 0 => .ok []
  | k, count + 1 =>
      match P.openInto oldK (.block fid uuid k) (slice raw (k * physBlock) physBlock) with
      | none => .error (.generic s!"reseal main blk {k}: old-DEK auth failed")
      | some plain => do
          let resealed ← resealMain oldK newK fid uuid draw raw (k + 1) count
          return P.sealInto newK (draw k) (.block fid uuid k) plain ++ resealed

/-- A closed database file in a pool under `dek`, as it is opened again. -/
def atRest (dek : Dek) (uuid : Uuid) (name : FileName) (bytes : List UInt8) : OpenFile :=
  ⟨bytes, .dbKey dek uuid, fileIdFor name, uuid, true, none⟩

/-- A root as the hash of bytes. -/
def rootBytes : Root → Vector UInt8 32
  | .zero => Vector.replicate 32 0
  | .of leaves count =>
      P.sha256 (merkleRootLabel ++ (leaves.flatMap fun leaf => (P.sha256 (leafMessage leaf.1 leaf.2)).toList) ++
        toLe 8 count)

/-- All that is hashed for the root of an image. -/
def messages (image : List Block) : List (List UInt8) :=
  (merkleRootLabel ++ (image.zipIdx.flatMap fun leaf => (P.sha256 (leafMessage leaf.2 leaf.1)).toList) ++
    toLe 8 image.length) :: image.zipIdx.map fun leaf => leafMessage leaf.2 leaf.1

/-- All that `full_state_root` hashes for a file. -/
def hashed (f : OpenFile) : Set (List UInt8) :=
  fun message => ∃ image, contents P f = some image ∧ message ∈ messages P image

section Roots

variable {P} {f g : OpenFile} {image other : List Block}

theorem rootBlocks_succ {k count : Nat} {root last : FullStateRoot} :
    rootBlocks P f k (count + 1) root = .ok last ↔ ∃ plain, blockAt P f k = some plain ∧
      rootBlocks P f (k + 1) count (root.updateBlock P k plain) = .ok last := by
  simp only [rootBlocks, blockAt]
  by_cases short : (f.physRead physBlock (usize (k * physBlock))).length < physBlock
  · simp [short]
  · rw [if_neg short, if_neg short]
    cases f.openBlock P k (f.physRead physBlock (usize (k * physBlock))) with
    | none => simp
    | some plain => simp

/-- The loop absorbs the digests of the blocks it decrypts, and counts them. -/
theorem rootBlocks_eq_ok {k count : Nat} {root last : FullStateRoot} :
    rootBlocks P f k count root = .ok last ↔
      ∃ image, (List.range' k count).mapM (blockAt P f) = some image ∧
        last = ⟨root.absorbed ++
          ((image.zipIdx k).flatMap fun leaf => (P.sha256 (leafMessage leaf.2 leaf.1)).toList),
          root.count + image.length⟩ := by
  induction count generalizing k root with
  | zero => simp [rootBlocks, eq_comm]
  | succ count ih =>
      rw [rootBlocks_succ, List.range'_succ, List.mapM_cons]
      simp only [ih, Option.bind_eq_bind, Option.bind_eq_some_iff, Option.pure_def, Option.some.injEq]
      constructor
      · rintro ⟨plain, here, image, later, rfl⟩
        refine ⟨plain :: image, ⟨plain, here, image, later, rfl⟩, ?_⟩
        simp [FullStateRoot.updateBlock, Nat.add_assoc, Nat.add_comm 1]
      · rintro ⟨_, ⟨plain, here, image, later, rfl⟩, rfl⟩
        refine ⟨plain, here, image, later, ?_⟩
        simp [FullStateRoot.updateBlock, Nat.add_assoc, Nat.add_comm 1]

/-- The roots of images are those of the messages. -/
theorem rootBytes_rootOf (image : List Block) :
    rootBytes P (rootOf image) = P.sha256 (merkleRootLabel ++
      (image.zipIdx.flatMap fun leaf => (P.sha256 (leafMessage leaf.2 leaf.1)).toList) ++
      toLe 8 image.length) := by
  rw [rootOf_eq, rootBytes, List.flatMap_map]
  rfl

/-- The root of a file is the root of its contents. -/
theorem fullStateRoot_eq_ok {name : FileName} {r : Vector UInt8 32} :
    fullStateRoot P name (some f) = .ok r ↔
      ∃ image, contents P f = some image ∧ rootBytes P (rootOf image) = r := by
  rw [fullStateRoot]
  constructor
  · intro rooted
    cases looped : rootBlocks P f 0 (f.size / blockSize) .new with
    | error e =>
        rw [looped] at rooted
        cases rooted
    | ok last =>
        rw [looped] at rooted
        obtain ⟨image, read, rfl⟩ := rootBlocks_eq_ok.mp looped
        refine ⟨image, read, ?_⟩
        have root := Except.ok.inj rooted
        rw [rootBytes_rootOf, ← root, FullStateRoot.finish, FullStateRoot.new, Nat.zero_add]
  · rintro ⟨image, read, rfl⟩
    rw [rootBlocks_eq_ok.mpr ⟨image, read, rfl⟩, rootBytes_rootOf]
    show Except.ok (FullStateRoot.finish P _) = _
    rw [FullStateRoot.finish, FullStateRoot.new, Nat.zero_add]

theorem length_digests (image : List Block) (k : Nat) :
    ((image.zipIdx k).flatMap fun leaf => (P.sha256 (leafMessage leaf.2 leaf.1)).toList).length =
      32 * image.length := by
  induction image generalizing k with
  | nil => rfl
  | cons block rest ih =>
      rw [List.zipIdx_cons, List.flatMap_cons, List.length_append, ih, Vector.length_toList,
        List.length_cons]
      omega

/-- Leaves are found again in the digests, one by one. -/
theorem eq_of_digests {k : Nat} (lengths : image.length = other.length)
    (injective : Set.InjOn P.sha256 fun message =>
      (∃ leaf ∈ image.zipIdx k, leafMessage leaf.2 leaf.1 = message) ∨
        ∃ leaf ∈ other.zipIdx k, leafMessage leaf.2 leaf.1 = message)
    (same : ((image.zipIdx k).flatMap fun leaf => (P.sha256 (leafMessage leaf.2 leaf.1)).toList) =
      (other.zipIdx k).flatMap fun leaf => (P.sha256 (leafMessage leaf.2 leaf.1)).toList) :
    image = other := by
  induction image generalizing other k with
  | nil => exact (List.length_eq_zero_iff.mp lengths.symm).symm
  | cons block rest ih =>
      cases other with
      | nil => cases lengths
      | cons block' rest' =>
          rw [List.zipIdx_cons, List.zipIdx_cons, List.flatMap_cons, List.flatMap_cons] at same
          obtain ⟨heads, tails⟩ := List.append_inj same (by rw [Vector.length_toList, Vector.length_toList])
          have digests : P.sha256 (leafMessage k block) = P.sha256 (leafMessage k block') :=
            Vector.toList_inj.mp heads
          have leaves : leafMessage k block = leafMessage k block' := by
            apply injective _ _ digests
            · exact Or.inl ⟨(block, k), by simp, rfl⟩
            · exact Or.inr ⟨(block', k), by simp, rfl⟩
          have blocks := List.append_cancel_left leaves
          rw [Vector.toList_inj.mp blocks]
          refine congrArg (block' :: ·) (ih (Nat.succ.inj lengths) (injective.mono ?_) tails)
          rintro message (⟨leaf, member, rfl⟩ | ⟨leaf, member, rfl⟩)
          · exact Or.inl ⟨leaf, List.mem_cons_of_mem _ member, rfl⟩
          · exact Or.inr ⟨leaf, List.mem_cons_of_mem _ member, rfl⟩

/-- Where what is hashed does not collide, the root of an image is its own. -/
theorem image_of_root (injective : Set.InjOn P.sha256 fun message =>
      message ∈ messages P image ∨ message ∈ messages P other)
    (same : rootBytes P (rootOf image) = rootBytes P (rootOf other)) : image = other := by
  rw [rootBytes_rootOf, rootBytes_rootOf] at same
  have texts := injective (Or.inl List.mem_cons_self) (Or.inr List.mem_cons_self) same
  -- The count takes eight bytes, so the length of the text tells the number of leaves.
  have lengths := congrArg List.length texts
  simp only [List.length_append, length_digests, length_toLe] at lengths
  have counts : image.length = other.length := by omega
  rw [counts] at texts
  have digests := List.append_cancel_left (List.append_cancel_right texts)
  apply eq_of_digests counts (injective.mono _) digests
  rintro message (⟨leaf, member, rfl⟩ | ⟨leaf, member, rfl⟩)
  · exact Or.inl (List.mem_cons_of_mem _ (List.mem_map.mpr ⟨leaf, member, rfl⟩))
  · exact Or.inr (List.mem_cons_of_mem _ (List.mem_map.mpr ⟨leaf, member, rfl⟩))

/-- Two roots are the same just when the contents are. -/
theorem root_eq_iff {name name' : FileName} {r s : Vector UInt8 32}
    (rooted : fullStateRoot P name (some f) = .ok r) (rooted' : fullStateRoot P name' (some g) = .ok s)
    (injective : Set.InjOn P.sha256 (hashed P f ∪ hashed P g)) :
    r = s ↔ contents P f = contents P g := by
  obtain ⟨image, read, rfl⟩ := fullStateRoot_eq_ok.mp rooted
  obtain ⟨other, read', rfl⟩ := fullStateRoot_eq_ok.mp rooted'
  rw [read, read', Option.some.injEq]
  constructor
  · apply image_of_root (injective.mono _)
    rintro message (member | member)
    · exact Or.inl ⟨image, read, member⟩
    · exact Or.inr ⟨other, read', member⟩
  · exact congrArg fun image => rootBytes P (rootOf image)

end Roots

section Histories

variable {P} {f : OpenFile} {v w : List UInt8}

theorem blockAt_eq {k : Nat} (low : k < maxBlocks) :
    blockAt P f k = if f.Present k then f.openBlock P k (f.stored k) else none := by
  simp only [blockAt]
  rw [usize_place low, physRead_eq low]
  by_cases present : f.Present k
  · rw [if_pos present, if_neg (Nat.not_lt.mpr (Nat.le_of_eq (length_stored present).symm))]
  · rw [if_neg present, if_pos]
    have outside : ¬4096 + (k * 4136 + 4136) ≤ f.bytes.length := present
    rw [OpenFile.stored, Splice.length_window]
    show min 4136 (f.bytes.length - (4096 + k * 4136)) < 4136
    omega

/-- The pages of a vector. -/
def pages (v : List UInt8) : List Block := (List.range' 0 (v.length / blockSize)).map (page v)

theorem mapM_eq_some {α β : Type} {f : α → Option β} {g : α → β} {l : List α}
    (here : ∀ a ∈ l, f a = some (g a)) : l.mapM f = some (l.map g) := by
  induction l with
  | nil => rfl
  | cons a rest ih =>
      rw [List.mapM_cons, here a List.mem_cons_self, ih fun b member => here b (List.mem_cons_of_mem _ member)]
      rfl

/-- A file that represents a vector of whole blocks has its pages as contents. -/
theorem contents_of_represents (lawful : P.Lawful) (rep : Represents P f v) :
    contents P f = some (pages v) := by
  rw [contents, rep.sized]
  apply mapM_eq_some
  intro k member
  have below : k < 0 + v.length / 4096 := (List.mem_range'_1.mp member).2
  have inside : k < blocks v.length := lt_blocks.mpr (by
    show k * 4096 < _
    omega)
  have few : blocks v.length ≤ maxBlocks := blocks_le rep.holds.small
  rw [blockAt_eq (by omega), if_pos ((rep.holds.present_iff k).mpr inside),
    rep.holds.openBlock_eq lawful inside]

theorem pages_injective (whole : blockSize ∣ v.length) (whole' : blockSize ∣ w.length)
    (same : pages v = pages w) : v = w := by
  have counts := congrArg List.length same
  simp only [pages, List.length_map, List.length_range'] at counts
  have lengths : v.length = w.length := by
    rw [← Nat.div_mul_cancel whole, ← Nat.div_mul_cancel whole', counts]
  apply List.ext_getElem lengths
  intro i inside inside'
  have below : i / 4096 < v.length / 4096 := by
    have all : v.length / 4096 * 4096 = v.length := Nat.div_mul_cancel whole
    omega
  have here : page v (i / 4096) = page w (i / 4096) := by
    have entry := congrArg (·[i / 4096]?) same
    simp only [pages, List.getElem?_map, ← lengths, List.getElem?_range' below, Option.map_some,
      Option.some.injEq, Nat.zero_add, Nat.one_mul] at entry
    exact entry
  have small : i % 4096 < blockSize := Nat.mod_lt i (by decide)
  have place : i / 4096 * blockSize + i % 4096 = i := by
    show i / 4096 * 4096 + i % 4096 = i
    omega
  have byte := congrArg (·[i % 4096]) here
  simp only [getElem_page _ small, place] at byte
  rwa [List.getD_eq_getElem _ _ inside, List.getD_eq_getElem _ _ inside'] at byte

end Histories

section Reseal

variable {P} {oldK newK : Key} {fid : FileId} {uuid : Uuid} {draw : Nat → Vector UInt8 24}
  {raw out : List UInt8}

/-- Re-sealing decrypts every block and seals it again in its place. -/
theorem resealMain_ok {k count : Nat} (resealed : resealMain P oldK newK fid uuid draw raw k count = .ok out) :
    ∃ plains, (List.range' k count).mapM (fun k =>
        P.openInto oldK (.block fid uuid k) (slice raw (k * physBlock) physBlock)) = some plains ∧
      out = (plains.zipIdx k).flatMap fun e => P.sealInto newK (draw e.2) (.block fid uuid e.2) e.1 := by
  induction count generalizing k out with
  | zero =>
      cases resealed
      exact ⟨[], rfl, rfl⟩
  | succ count ih =>
      rw [resealMain] at resealed
      rw [List.range'_succ, List.mapM_cons]
      cases opened : P.openInto oldK (.block fid uuid k) (slice raw (k * physBlock) physBlock) with
      | none =>
          rw [opened] at resealed
          cases resealed
      | some plain =>
          rw [opened] at resealed
          cases later : resealMain P oldK newK fid uuid draw raw (k + 1) count with
          | error e =>
              simp only [later] at resealed
              cases resealed
          | ok rest =>
              simp only [later] at resealed
              cases resealed
              obtain ⟨plains, read, rfl⟩ := ih later
              exact ⟨plain :: plains, by rw [read]; rfl, rfl⟩

/-- Words of one length stand at the multiples of it. -/
theorem slice_flatMap {α : Type} {f : α → List UInt8} {size : Nat} (length : ∀ a, (f a).length = size)
    {l : List α} {k : Nat} {a : α} (here : l[k]? = some a) : slice (l.flatMap f) (k * size) size = f a := by
  induction l generalizing k with
  | nil => simp at here
  | cons b rest ih =>
      rw [List.flatMap_cons]
      cases k with
      | zero =>
          rw [List.getElem?_cons_zero, Option.some.injEq] at here
          subst here
          rw [slice, Nat.zero_mul, List.drop_zero, List.take_left' (length b)]
      | succ k =>
          have place : (k + 1) * size = (f b).length + k * size := by
            rw [length, Nat.add_mul]
            omega
          rw [place, slice_append]
          exact ih here

theorem mapM_congr {α β : Type} {f g : α → Option β} {l : List α} (same : ∀ a ∈ l, f a = g a) :
    l.mapM f = l.mapM g := by
  induction l with
  | nil => rfl
  | cons a rest ih =>
      rw [List.mapM_cons, List.mapM_cons, same a List.mem_cons_self,
        ih fun b member => same b (List.mem_cons_of_mem _ member)]

theorem length_of_mapM {α β : Type} {f : α → Option β} {l : List α} {out : List β}
    (mapped : l.mapM f = some out) : out.length = l.length := by
  induction l generalizing out with
  | nil =>
      cases mapped
      rfl
  | cons a rest ih =>
      simp only [List.mapM_cons, Option.bind_eq_bind, Option.bind_eq_some_iff, Option.pure_def,
        Option.some.injEq] at mapped
      obtain ⟨b, _, bs, later, rfl⟩ := mapped
      rw [List.length_cons, List.length_cons, ih later]

theorem mapM_range'_eq_some {f : Nat → Option Block} {plains : List Block} {k : Nat}
    (here : ∀ i (inside : i < plains.length), f (k + i) = some plains[i]) :
    (List.range' k plains.length).mapM f = some plains := by
  induction plains generalizing k with
  | nil => rfl
  | cons plain rest ih =>
      have first : f k = some plain := here 0 (Nat.succ_pos _)
      have later := @ih (k + 1) fun i inside => by
        rw [Nat.add_assoc, Nat.add_comm 1]
        exact here (i + 1) (Nat.succ_lt_succ inside)
      rw [List.length_cons, List.range'_succ, List.mapM_cons, first, later]
      rfl

/-- Block `k` of a closed file that is not too long. -/
theorem blockAt_atRest {dek : Dek} {name : FileName} {header : List UInt8} (headed : header.length = 4096)
    (short : raw.length + 4096 < 2 ^ 32) {k : Nat} (inside : k < raw.length / physBlock) :
    blockAt P (atRest dek uuid name (header ++ raw)) k =
      P.openInto (.dbKey dek uuid) (.block (fileIdFor name) uuid k) (slice raw (k * physBlock) physBlock) := by
  have place : k < raw.length / 4136 := inside
  have room : k * 4136 + 4136 ≤ raw.length := by omega
  have present : (atRest dek uuid name (header ++ raw)).Present k := by
    rw [OpenFile.Present, atRest, List.length_append, headed]
    exact Nat.add_le_add_left room 4096
  have stored : (atRest dek uuid name (header ++ raw)).stored k = slice raw (k * physBlock) physBlock := by
    have behind := slice_append header raw (k * physBlock) physBlock
    rw [OpenFile.stored, headerOffsetData_eq, ← headed]
    exact behind
  have low : k < 1038434 := by omega
  rw [blockAt_eq low, if_pos present, stored]
  rfl

theorem size_atRest {dek : Dek} {name : FileName} {header : List UInt8} (headed : header.length = 4096)
    (short : raw.length + 4096 < 2 ^ 32) :
    (atRest dek uuid name (header ++ raw)).size / blockSize = raw.length / physBlock := by
  have physical : (atRest dek uuid name (header ++ raw)).physSize = raw.length := by
    have length : (atRest dek uuid name (header ++ raw)).bytes.length = raw.length + 4096 := by
      rw [atRest, List.length_append, headed, Nat.add_comm]
    show min (atRest dek uuid name (header ++ raw)).bytes.length 4294967295 - 4096 = raw.length
    omega
  have unset : (atRest dek uuid name (header ++ raw)).logicalSize = none := rfl
  have positive : 0 < blockSize := by decide
  rw [OpenFile.size, unset, Option.getD_none, physical]
  exact Nat.mul_div_cancel _ positive

/-- Under the new DEK the re-sealed file has the contents of the old one. -/
theorem contents_resealed (lawful : P.Lawful) {dek newDek : Dek} {name : FileName}
    {header header' : List UInt8} (headed : header.length = 4096) (headed' : header'.length = 4096)
    (short : raw.length + 4096 < 2 ^ 32)
    (resealed : resealMain P (.dbKey dek uuid) (.dbKey newDek uuid) (fileIdFor name) uuid draw raw 0
      (raw.length / physBlock) = .ok out) :
    ∃ image, contents P (atRest dek uuid name (header ++ raw)) = some image ∧
      contents P (atRest newDek uuid name (header' ++ out)) = some image := by
  obtain ⟨plains, read, rfl⟩ := resealMain_ok resealed
  have counted : plains.length = raw.length / physBlock := by
    have lengths := length_of_mapM read
    rwa [List.length_range'] at lengths
  let sealBlock : Block × Nat → List UInt8 := fun e =>
    P.sealInto (.dbKey newDek uuid) (draw e.2) (.block (fileIdFor name) uuid e.2) e.1
  have length : ∀ e, (sealBlock e).length = physBlock := fun e => length_sealInto lawful _ _ _ _
  have total : (plains.zipIdx.flatMap sealBlock).length = raw.length / physBlock * physBlock := by
    rw [List.length_flatMap]
    simp only [length, List.map_const', List.sum_replicate, smul_eq_mul, List.length_zipIdx, counted]
  have short' : (plains.zipIdx.flatMap sealBlock).length + 4096 < 2 ^ 32 := by
    have parts := Nat.div_mul_le_self raw.length physBlock
    omega
  refine ⟨plains, ?_, ?_⟩
  · rw [contents, size_atRest headed short, ← read]
    apply mapM_congr
    intro k member
    exact blockAt_atRest headed short (by simpa using (List.mem_range'_1.mp member).2)
  · rw [contents, size_atRest headed' short', total, Nat.mul_div_cancel _ (by decide), ← counted]
    apply mapM_range'_eq_some
    intro i inside
    have entry : plains.zipIdx[i]? = some (plains[i], i) := by
      rw [List.getElem?_zipIdx, List.getElem?_eq_getElem inside, Nat.zero_add]
      rfl
    have below : i < (plains.zipIdx.flatMap sealBlock).length / physBlock := by
      rw [total, Nat.mul_div_cancel _ (by decide), ← counted]
      exact inside
    rw [Nat.zero_add, blockAt_atRest headed' short' below, slice_flatMap length entry]
    exact openInto_sealInto lawful _ _ _ _

end Reseal

namespace RootSample

def digest : Vector UInt8 32 :=
  ExportSample.le 32 0x37aa16affa0a704fa07b1132b6933aaa07cb10573ab735a4c3b47f70312728d7

/-- The calls of `ExportSample` with the hash of no blocks. -/
def primitives : Primitives :=
  { ExportSample.calls.primitives with
    sha256 message :=
      if message = merkleRootLabel ++ [] ++ toLe 8 0 then digest else Vector.replicate 32 0 }

def header : List UInt8 := List.replicate 4096 0

/-- Empty databases in two pools. -/
def first : OpenFile := atRest 1 7 ['a', '.', 'd', 'b'] (header ++ [])
def second : OpenFile := atRest 2 8 ['b', '.', 'd', 'b'] (header ++ [])

theorem contents_empty (dek : Dek) (uuid : Uuid) (name : FileName) :
    contents primitives (atRest dek uuid name (header ++ [])) = some [] := by
  have headed : header.length = 4096 := List.length_replicate
  rw [contents, size_atRest headed (by decide)]
  rfl

theorem injective : Set.InjOn primitives.sha256 (hashed primitives first ∪ hashed primitives second) := by
  have one : ∀ dek uuid name, ∀ message ∈ hashed primitives (atRest dek uuid name (header ++ [])),
      message = merkleRootLabel ++ [] ++ toLe 8 0 := by
    intro dek uuid name message hashes
    obtain ⟨image, read, member⟩ := hashes
    rw [contents_empty, Option.some.injEq] at read
    subst read
    exact List.mem_singleton.mp member
  have both : ∀ message ∈ hashed primitives first ∪ hashed primitives second,
      message = merkleRootLabel ++ [] ++ toLe 8 0 := by
    intro message hashes
    exact hashes.elim (one _ _ _ message) (one _ _ _ message)
  intro message member message' member' _
  rw [both message member, both message' member']

theorem rooted (dek : Dek) (uuid : Uuid) (name : FileName) :
    fullStateRoot primitives name (some (atRest dek uuid name (header ++ []))) = .ok digest := by
  apply fullStateRoot_eq_ok.mpr
  refine ⟨[], contents_empty dek uuid name, ?_⟩
  rw [rootBytes_rootOf]
  show (if merkleRootLabel ++ [] ++ toLe 8 0 = merkleRootLabel ++ [] ++ toLe 8 0 then digest
    else Vector.replicate 32 0) = digest
  exact if_pos rfl

end RootSample

end Freehold.StateRoot
