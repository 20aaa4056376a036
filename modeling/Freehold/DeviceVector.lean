import Freehold.BlockDevice
import Freehold.ExportRecovery

set_option autoImplicit false

/- The block device refines a plain vector of bytes. -/
namespace Freehold.BlockDevice

open Splice

/-- How many blocks `n` bytes take. -/
def blocks (n : Nat) : Nat := (n + blockSize - 1) / blockSize

/-- Block `k` of a vector, with zeros past its end. -/
def page (v : List UInt8) (k : Nat) : Block := Vector.ofFn fun i => v.getD (k * blockSize + i) 0

/-- The bytes of a range, with zeros past the end. -/
def rangeOf (v : List UInt8) (offset len : Nat) : List UInt8 :=
  (List.range len).map fun i => v.getD (offset + i) 0

/-- Where the last block that fits ends. -/
abbrev maxBytes : Nat := maxBlocks * blockSize

/-- The blocks of the file are those of `v`, sealed in their places, and no byte more. -/
structure Holds (P : Primitives) (f : OpenFile) (v : List UInt8) : Prop where
  length : f.bytes.length = headerOffsetData + blocks v.length * physBlock
  written : ∀ k < blocks v.length, ∃ nonce, f.stored k = f.sealBlock P k nonce (page v k)
  small : v.length ≤ maxBytes

section Pages

variable {v chunk : List UInt8} {offset len n k : Nat}

theorem lt_blocks : k < blocks n ↔ k * blockSize < n := by
  show k < (n + 4095) / 4096 ↔ k * 4096 < n
  omega

theorem le_blocks (n : Nat) : n ≤ blocks n * blockSize := by
  show n ≤ (n + 4095) / 4096 * 4096
  omega

theorem blocks_le (small : n ≤ maxBytes) : blocks n ≤ maxBlocks := by
  have bound : n ≤ 1038434 * 4096 := small
  show (n + 4095) / 4096 ≤ 1038434
  omega

theorem div_lt (below : offset < maxBytes) : offset / blockSize < maxBlocks := by
  have bound : offset < 1038434 * 4096 := below
  show offset / 4096 < 1038434
  omega

theorem getElem_page (i : Nat) (inside : i < blockSize) :
    (page v k)[i] = v.getD (k * blockSize + i) 0 := by
  rw [page, Vector.getElem_ofFn]

/-- A block past the end is all zeros. -/
theorem page_past (past : blocks v.length ≤ k) : page v k = zeroBlock := by
  apply Vector.ext
  intro i inside
  have behind : v.length ≤ k * blockSize + i := by
    have above := mt lt_blocks.mpr (Nat.not_lt_of_le past)
    omega
  rw [getElem_page, List.getD_eq_default _ _ behind, zeroBlock, Vector.getElem_replicate]

/-- The chunk over the block is the block of the new vector. -/
theorem overlay_page (v chunk : List UInt8) (offset : Nat) :
    overlay (page v (offset / blockSize)) (offset % blockSize) chunk =
      page (put 0 v offset chunk) (offset / blockSize) := by
  have parts : offset / blockSize * blockSize + offset % blockSize = offset := Nat.div_add_mod' _ _
  apply Vector.ext
  intro i inside
  rw [getElem_page, getD_put, overlay, Vector.getElem_ofFn]
  dsimp only
  by_cases before : offset % blockSize ≤ i
  · rw [if_pos before]
    by_cases covered : i - offset % blockSize < chunk.length
    · rw [if_pos (by omega), List.getD_eq_getElem _ _ covered, List.getD_eq_getElem _ _ (by omega)]
      congr 1
      omega
    · rw [if_neg (by omega), List.getD_eq_default _ _ (by omega)]
      exact getElem_page i inside
  · rw [if_neg before, if_neg (by omega)]
    exact getElem_page i inside

/-- A whole block takes nothing from the old one. -/
theorem overlay_whole (whole : chunk.length = blockSize) {old other : Block} :
    overlay old 0 chunk = overlay other 0 chunk := by
  apply Vector.ext
  intro i inside
  have covered : i - 0 < chunk.length := by
    rw [whole]
    exact inside
  rw [overlay, overlay, Vector.getElem_ofFn, Vector.getElem_ofFn]
  dsimp only
  rw [if_pos (Nat.zero_le i), if_pos (Nat.zero_le i), List.getD_eq_getElem _ _ covered,
    List.getD_eq_getElem _ _ covered]

/-- The other blocks stay. -/
theorem page_put_other (few : chunk.length ≤ blockSize - offset % blockSize)
    (other : k ≠ offset / blockSize) : page (put 0 v offset chunk) k = page v k := by
  have parts : offset / blockSize * blockSize + offset % blockSize = offset := Nat.div_add_mod' _ _
  have room : offset % blockSize < blockSize := Nat.mod_lt _ (by decide)
  apply Vector.ext
  intro i inside
  rw [getElem_page, getElem_page, getD_put, if_neg]
  rintro ⟨after, before⟩
  rcases Nat.lt_or_gt_of_ne other with less | more
  · have stop : (k + 1) * blockSize ≤ offset / blockSize * blockSize := Nat.mul_le_mul_right _ less
    rw [Nat.succ_mul] at stop
    omega
  · have start : (offset / blockSize + 1) * blockSize ≤ k * blockSize := Nat.mul_le_mul_right _ more
    rw [Nat.succ_mul] at start
    omega

/-- A chunk in one block adds that block at most. -/
theorem blocks_put (few : chunk.length ≤ blockSize - offset % blockSize) (some_bytes : chunk ≠ []) :
    blocks (put 0 v offset chunk).length = max (blocks v.length) (offset / blockSize + 1) := by
  have positive := List.length_pos_iff.mpr some_bytes
  have bound : chunk.length ≤ 4096 - offset % 4096 := few
  rw [length_put]
  show (max v.length (offset + chunk.length) + 4095) / 4096 =
    max ((v.length + 4095) / 4096) (offset / 4096 + 1)
  omega

/-- Blocks of which only zeros are cut off. -/
theorem page_take (blank : ∀ i, n ≤ i → i < blocks n * blockSize → v.getD i 0 = 0) (below : k < blocks n) :
    page (v.take n) k = page v k := by
  have stop : (k + 1) * blockSize ≤ blocks n * blockSize := Nat.mul_le_mul_right _ below
  rw [Nat.succ_mul] at stop
  apply Vector.ext
  intro i inside
  rw [getElem_page, getElem_page]
  by_cases kept : k * blockSize + i < n
  · rw [List.getD_eq_getElem?_getD, List.getD_eq_getElem?_getD, List.getElem?_take, if_pos kept]
  · rw [blank _ (by omega) (by omega), List.getD_eq_default]
    rw [List.length_take]
    omega

end Pages

section Reading

variable {P : Primitives} {f : OpenFile} {v : List UInt8}

theorem Holds.present_iff (holds : Holds P f v) (k : Nat) : f.Present k ↔ k < blocks v.length := by
  rw [OpenFile.Present, holds.length, physBlock_eq, Nat.add_le_add_iff_left]
  omega

theorem Holds.physSize_eq (holds : Holds P f v) : f.physSize = blocks v.length * physBlock := by
  have few : blocks v.length ≤ 1038434 := blocks_le holds.small
  have length : f.bytes.length = 4096 + blocks v.length * 4136 := holds.length
  show min f.bytes.length 4294967295 - 4096 = blocks v.length * 4136
  omega

theorem Holds.openBlock_eq (lawful : P.Lawful) (holds : Holds P f v) {k : Nat}
    (inside : k < blocks v.length) : f.openBlock P k (f.stored k) = some (page v k) := by
  obtain ⟨nonce, stored⟩ := holds.written k inside
  rw [stored, openBlock_sealBlock lawful]

theorem Holds.readBlock_eq (lawful : P.Lawful) (holds : Holds P f v) {k : Nat} (low : k < maxBlocks) :
    f.readBlock P k = .ok (if k < blocks v.length then some (page v k) else none) := by
  rw [BlockDevice.readBlock_eq low]
  by_cases inside : k < blocks v.length
  · rw [if_pos ((holds.present_iff k).mpr inside), if_pos inside, holds.openBlock_eq lawful inside]
  · rw [if_neg fun present => inside ((holds.present_iff k).mp present), if_neg inside]

theorem rangeOf_add (v : List UInt8) (offset m n : Nat) :
    rangeOf v offset (m + n) = rangeOf v offset m ++ rangeOf v (offset + m) n := by
  simp only [rangeOf, List.range_add, List.map_append, List.map_map, Function.comp_def, Nat.add_assoc]

/-- The part of a block that is read. -/
theorem range_page {offset n : Nat} (few : n ≤ blockSize - offset % blockSize) :
    ((page v (offset / blockSize)).toList.drop (offset % blockSize)).take n = rangeOf v offset n := by
  have parts : offset / blockSize * blockSize + offset % blockSize = offset := Nat.div_add_mod' _ _
  have room : offset % blockSize < blockSize := Nat.mod_lt _ (by decide)
  apply List.ext_getElem
  · simp only [rangeOf, List.length_take, List.length_drop, Vector.length_toList, List.length_map,
      List.length_range]
    omega
  · intro i inside _
    simp only [List.length_take, List.length_drop, Vector.length_toList] at inside
    simp only [rangeOf, List.getElem_take, List.getElem_drop, Vector.getElem_toList, List.getElem_map,
      List.getElem_range]
    rw [getElem_page _ (by omega)]
    congr 1
    omega

/-- The loop reads the range, and a block is short when the range ends behind the last one. -/
theorem Holds.readBlocks_eq (lawful : P.Lawful) (holds : Holds P f v) {len offset : Nat}
    (low : offset + len ≤ maxBytes) : f.readBlocks P len offset =
      .ok (rangeOf v offset len, decide (len ≠ 0 ∧ blocks v.length * blockSize < offset + len)) := by
  induction len using Nat.strongRecOn generalizing offset with
  | ind len ih =>
      rw [OpenFile.readBlocks]
      by_cases more : len ≠ 0
      · have room : offset % blockSize < blockSize := Nat.mod_lt _ (by decide)
        have parts : offset / blockSize * blockSize + offset % blockSize = offset := Nat.div_add_mod' _ _
        have here : offset / blockSize < maxBlocks := div_lt (by omega)
        rw [dif_pos more]
        dsimp only
        generalize taken : min (blockSize - offset % blockSize) len = n
        have rest := @ih (len - n) (by omega) (offset + n) (by omega)
        have whole : rangeOf v offset len = rangeOf v offset n ++ rangeOf v (offset + n) (len - n) := by
          rw [← rangeOf_add]
          congr 1
          omega
        have chunk : (((if offset / blockSize < blocks v.length then some (page v (offset / blockSize))
            else none).getD zeroBlock).toList.drop (offset % blockSize)).take n = rangeOf v offset n := by
          rw [← range_page (by omega)]
          split
          · rfl
          · next past => rw [page_past (Nat.le_of_not_lt past)]; rfl
        have short : ((if offset / blockSize < blocks v.length then some (page v (offset / blockSize))
            else none).isNone || decide (len - n ≠ 0 ∧ blocks v.length * blockSize < offset + n + (len - n))) =
            decide (len ≠ 0 ∧ blocks v.length * blockSize < offset + len) := by
          have later : offset + n + (len - n) = offset + len := by omega
          rw [later]
          by_cases inside : offset / blockSize < blocks v.length
          · have stop : (offset / blockSize + 1) * blockSize ≤ blocks v.length * blockSize :=
              Nat.mul_le_mul_right _ inside
            rw [Nat.succ_mul] at stop
            rw [if_pos inside, Option.isNone_some, Bool.false_or, decide_eq_decide]
            omega
          · have start : blocks v.length * blockSize ≤ offset / blockSize * blockSize :=
              Nat.mul_le_mul_right _ (Nat.le_of_not_lt inside)
            rw [if_neg inside, Option.isNone_none, Bool.true_or]
            symm
            rw [decide_eq_true_iff]
            omega
        simp only [holds.readBlock_eq lawful here, rest]
        show Except.ok (List.take n _ ++ rangeOf v (offset + n) (len - n), _ || _) = _
        rw [chunk, ← whole, short]
      · rw [dif_neg more]
        have empty : len = 0 := Decidable.not_not.mp more
        subst empty
        rfl

end Reading

section Writing

variable {P : Primitives} {f start : OpenFile} {v first chunk bytes : List UInt8} {offset : Nat}
  {nonce : Vector UInt8 24}

/-- A block put in its place is the chunk put into the vector. -/
theorem Holds.put_block (lawful : P.Lawful) (holds : Holds P f v) (nonce : Vector UInt8 24)
    (inside : offset ≤ v.length) (few : chunk.length ≤ blockSize - offset % blockSize)
    (some_bytes : chunk ≠ []) (small : offset + chunk.length ≤ maxBytes) :
    Holds P { f with
      bytes := put 0 f.bytes (headerOffsetData + offset / blockSize * physBlock)
        (f.sealBlock P (offset / blockSize) nonce (page (put 0 v offset chunk) (offset / blockSize))) }
      (put 0 v offset chunk) := by
  have adjoining : offset / blockSize ≤ blocks v.length := by
    show offset / 4096 ≤ (v.length + 4095) / 4096
    omega
  have count := blocks_put (v := v) few some_bytes
  generalize place : offset / blockSize = k at *
  have sealed := length_sealBlock (f := f) (k := k) lawful nonce (page (put 0 v offset chunk) k)
  refine ⟨?_, ?_, ?_⟩
  · dsimp only
    rw [length_put, sealed, count, holds.length, physBlock_eq]
    omega
  · intro j below
    rw [count] at below
    by_cases here : j = k
    · subst here
      refine ⟨nonce, ?_⟩
      have same := @window_put_same _ 0 f.bytes (f.sealBlock P j nonce (page (put 0 v offset chunk) j))
        (headerOffsetData + j * physBlock)
      rw [sealed] at same
      exact same
    · have old : j < blocks v.length := by omega
      obtain ⟨drawn, stored⟩ := holds.written j old
      have present := (holds.present_iff j).mpr old
      rw [OpenFile.Present] at present
      refine ⟨drawn, ?_⟩
      have kept : page (put 0 v offset chunk) j = page v j := by
        apply page_put_other few
        rw [place]
        exact here
      show window (put 0 f.bytes _ _) _ _ = f.sealBlock P j drawn (page (put 0 v offset chunk) j)
      rw [kept, ← stored]
      apply window_put_apart
      rw [sealed]
      rw [physBlock_eq] at present ⊢
      omega
  · rw [length_put]
    have before := holds.small
    omega

/-- Everything about a file but its bytes. -/
def SameHandle (f g : OpenFile) : Prop :=
  f.crypto = g.crypto ∧ f.fileId = g.fileId ∧ f.keyDomain = g.keyDomain ∧ f.isMainDb = g.isMainDb ∧
    f.logicalSize = g.logicalSize

/-- One block of `write`: the chunk goes into the vector. -/
theorem Holds.writeBlock (lawful : P.Lawful) (holds : Holds P f v)
    (began : start.Present (offset / blockSize) ↔ f.Present (offset / blockSize))
    (inside : offset ≤ v.length) (few : chunk.length ≤ blockSize - offset % blockSize)
    (some_bytes : chunk ≠ []) (small : offset + chunk.length ≤ maxBytes) :
    ∃ g, f.writeBlock P nonce start.physSize (offset / blockSize) (offset % blockSize) chunk = .ok g ∧
      Holds P g (put 0 v offset chunk) ∧ SameHandle f g := by
  have positive := List.length_pos_iff.mpr some_bytes
  have low : offset / blockSize < maxBlocks := div_lt (by omega)
  have plain : f.overlaid P start.physSize (offset / blockSize) (offset % blockSize) chunk =
      .ok (page (put 0 v offset chunk) (offset / blockSize)) := by
    rw [← overlay_page]
    by_cases whole : chunk.length = blockSize
    · have start_lo : offset % blockSize = 0 := by
        have room : offset % blockSize < blockSize := Nat.mod_lt _ (by decide)
        omega
      rw [OpenFile.overlaid, if_pos whole, start_lo, overlay_whole whole]
    · rw [overlaid_eq low whole began.mp]
      by_cases present : f.Present (offset / blockSize)
      · rw [if_pos (began.mpr present),
          holds.openBlock_eq lawful ((holds.present_iff _).mp present)]
      · have past := mt (holds.present_iff _).mpr present
        rw [if_neg (fun earlier => present (began.mp earlier)), page_past (Nat.le_of_not_lt past)]
  rw [writeBlock_eq low, plain]
  exact ⟨_, rfl, holds.put_block lawful nonce inside few some_bytes small, rfl, rfl, rfl, rfl, rfl⟩

/-- The loop puts all bytes into the vector. `first` is the vector at its start, which still tells
what blocks there are to read. -/
theorem Holds.writeBlocks (lawful : P.Lawful) (began : Holds P start first)
    (draw : Nat → Vector UInt8 24) (holds : Holds P f v) (inside : offset ≤ v.length)
    (small : offset + bytes.length ≤ maxBytes)
    (grown : bytes ≠ [] → first.length = v.length ∨
      offset % blockSize = 0 ∧ first.length ≤ v.length ∧ v.length ≤ max first.length offset) :
    ∃ g, f.writeBlocks P draw start.physSize bytes offset = (.ok (), g) ∧
      Holds P g (put 0 v offset bytes) ∧ SameHandle f g := by
  induction length : bytes.length using Nat.strongRecOn generalizing bytes f v offset with
  | ind len ih =>
      rw [OpenFile.writeBlocks]
      by_cases more : bytes ≠ []
      · rw [dif_pos more]
        dsimp only
        have room : offset % blockSize < blockSize := Nat.mod_lt _ (by decide)
        have parts : offset / blockSize * blockSize + offset % blockSize = offset := Nat.div_add_mod' _ _
        have positive := List.length_pos_iff.mpr more
        have split := List.take_append_drop (blockSize - offset % blockSize) bytes
        have taken : (bytes.take (blockSize - offset % blockSize)).length =
            min (blockSize - offset % blockSize) bytes.length := List.length_take
        have dropped : (bytes.drop (blockSize - offset % blockSize)).length =
            bytes.length - (blockSize - offset % blockSize) := List.length_drop
        generalize bytes.take (blockSize - offset % blockSize) = chunk at *
        generalize bytes.drop (blockSize - offset % blockSize) = rest at *
        have some_chunk : chunk ≠ [] := List.length_pos_iff.mp (by omega)
        -- the sizes from before the loop tell what is there now
        have same : start.Present (offset / blockSize) ↔ f.Present (offset / blockSize) := by
          rw [began.present_iff, holds.present_iff, lt_blocks, lt_blocks]
          rcases grown more with equal | ⟨aligned, least, most⟩
          · rw [equal]
          · omega
        obtain ⟨g, wrote, holds', handle⟩ := @Holds.writeBlock P f start v chunk offset
          (draw (offset / blockSize)) lawful holds same inside (by omega) some_chunk (by omega)
        have longer : (put 0 v offset chunk).length = max v.length (offset + chunk.length) := length_put
        have still : rest ≠ [] → first.length = (put 0 v offset chunk).length ∨
            (offset + chunk.length) % blockSize = 0 ∧ first.length ≤ (put 0 v offset chunk).length ∧
              (put 0 v offset chunk).length ≤ max first.length (offset + chunk.length) := by
          intro left
          have few := List.length_pos_iff.mpr left
          have stop : offset + chunk.length = (offset / blockSize + 1) * blockSize := by
            rw [Nat.succ_mul]
            omega
          right
          refine ⟨by rw [stop, Nat.mul_mod_left], ?_⟩
          rcases grown more with equal | ⟨aligned, least, most⟩ <;> omega
        obtain ⟨last, looped, held, kept⟩ :=
          ih rest.length (by omega) holds' (by omega) (by omega) still rfl
        rw [wrote]
        refine ⟨last, looped, ?_, ?_⟩
        · rw [put_put inside, split] at held
          exact held
        · obtain ⟨c, i, d, m, l⟩ := handle
          obtain ⟨c', i', d', m', l'⟩ := kept
          exact ⟨c.trans c', i.trans i', d.trans d', m.trans m', l.trans l'⟩
      · rw [dif_neg more]
        have empty : bytes = [] := Decidable.not_not.mp more
        rw [empty, put_nil inside]
        exact ⟨f, rfl, holds, rfl, rfl, rfl, rfl, rfl⟩

end Writing

/-- The file and its size are those of `v`. -/
structure Represents (P : Primitives) (f : OpenFile) (v : List UInt8) : Prop where
  holds : Holds P f v
  sized : f.size = v.length

section Operations

variable {P : Primitives} {f : OpenFile} {v bytes : List UInt8} {offset size : Nat}

theorem Holds.resized {g : OpenFile} (holds : Holds P g v) (logical : Option Nat) :
    Holds P { g with logicalSize := logical } v := ⟨holds.length, holds.written, holds.small⟩

theorem Represents.read (lawful : P.Lawful) (rep : Represents P f v) {len : Nat}
    (low : offset + len ≤ maxBytes) : f.read P len offset =
      .ok (rangeOf v offset len, decide (len = 0 ∨ offset + len ≤ blocks v.length * blockSize)) := by
  have bound : offset + len ≤ 1038434 * 4096 := low
  rw [OpenFile.read]
  by_cases empty : len = 0
  · rw [if_pos empty, empty]
    rfl
  · rw [if_neg empty, if_neg (by omega), rep.holds.readBlocks_eq lawful low]
    show Except.ok (rangeOf v offset len, !decide (len ≠ 0 ∧ blocks v.length * blockSize < offset + len)) = _
    congr 2
    rw [← decide_not, decide_eq_decide]
    omega

/-- A write that passes the check of the page size goes into the vector. -/
theorem Represents.write (lawful : P.Lawful) (rep : Represents P f v) (draw : Nat → Vector UInt8 24)
    (inside : offset ≤ v.length) (small : offset + bytes.length ≤ maxBytes)
    (checked : f.pageSizeCheck bytes offset = .ok ()) :
    ∃ g, f.write P draw bytes offset = (.ok (), g) ∧ Represents P g (put 0 v offset bytes) := by
  have bound : offset + bytes.length ≤ 1038434 * 4096 := small
  rw [OpenFile.write]
  by_cases empty : bytes = []
  · rw [if_pos empty, empty, put_nil inside]
    exact ⟨f, rfl, rep⟩
  · obtain ⟨g, wrote, holds, _⟩ := Holds.writeBlocks lawful rep.holds draw rep.holds inside small
      fun _ => .inl rfl
    rw [if_neg empty, checked]
    dsimp only
    rw [if_neg (by omega), wrote]
    refine ⟨_, rfl, holds.resized _, ?_⟩
    show max f.size (offset + bytes.length) = _
    rw [rep.sized, length_put]

/-- The check of the page size is all that rejects a write. -/
theorem write_rejected {e : VfsError} (draw : Nat → Vector UInt8 24) (some_bytes : bytes ≠ [])
    (rejected : f.pageSizeCheck bytes offset = .error e) :
    f.write P draw bytes offset = (.error e, f) := by
  rw [OpenFile.write, if_neg some_bytes, rejected]

/-- Cutting the file at a block boundary keeps the blocks before it. -/
theorem Holds.cut (holds : Holds P f v) {count : Nat} (fewer : count ≤ blocks v.length) :
    (f.physTruncate (usize (count * physBlock))).bytes = f.bytes.take (headerOffsetData + count * physBlock) := by
  have few : blocks v.length ≤ 1038434 := blocks_le holds.small
  have length : f.bytes.length = 4096 + blocks v.length * 4136 := holds.length
  have stop : usize (count * physBlock) = count * physBlock := by
    apply usize_eq
    show count * 4136 < 4294967296
    omega
  have stop' : usize (headerOffsetData + count * physBlock) = headerOffsetData + count * physBlock := by
    apply usize_eq
    show 4096 + count * 4136 < 4294967296
    omega
  have enough : headerOffsetData + count * physBlock - f.bytes.length = 0 := by
    show 4096 + count * 4136 - f.bytes.length = 0
    omega
  rw [OpenFile.physTruncate, stop]
  dsimp only
  rw [stop', enough, List.replicate_zero, List.append_nil]

theorem Holds.truncated (holds : Holds P f v) (inside : size ≤ v.length)
    (blank : ∀ i, size ≤ i → i < blocks size * blockSize → v.getD i 0 = 0) (logical : Option Nat) :
    Holds P { f.physTruncate (usize (blocks size * physBlock)) with logicalSize := logical }
      (v.take size) := by
  have length : (v.take size).length = size := by
    rw [List.length_take]
    omega
  have fewer : blocks size ≤ blocks v.length := by
    show (size + 4095) / 4096 ≤ (v.length + 4095) / 4096
    omega
  have cut := holds.cut fewer
  have total : f.bytes.length = 4096 + blocks v.length * 4136 := holds.length
  refine ⟨?_, ?_, ?_⟩
  · rw [length]
    dsimp only
    rw [cut, List.length_take, Nat.min_eq_left]
    show 4096 + blocks size * 4136 ≤ f.bytes.length
    omega
  · intro k below
    rw [length] at below
    obtain ⟨nonce, stored⟩ := holds.written k (by omega)
    refine ⟨nonce, ?_⟩
    show window (f.physTruncate (usize (blocks size * physBlock))).bytes _ _ =
      f.sealBlock P k nonce (page (v.take size) k)
    rw [cut, page_take blank below, ← stored]
    apply window_take
    show 4096 + k * 4136 + 4136 ≤ 4096 + blocks size * 4136
    omega
  · have small := holds.small
    omega

/-- The last block that is kept in part is sealed again with zeros behind the new end. -/
theorem Holds.resealTail (lawful : P.Lawful) (holds : Holds P f v) (nonce : Vector UInt8 24)
    (inside : size ≤ v.length) (cut : size % blockSize ≠ 0) :
    ∃ g, f.resealTail P nonce size = .ok g ∧
      Holds P g (put 0 v size (List.replicate (blockSize - size % blockSize) 0)) := by
  have room : size % blockSize < blockSize := Nat.mod_lt _ (by decide)
  have parts : size / blockSize * blockSize + size % blockSize = size := Nat.div_add_mod' _ _
  have small := holds.small
  have below : size / blockSize < blocks v.length := by
    rw [lt_blocks]
    omega
  have low : size / blockSize < maxBlocks := Nat.lt_of_lt_of_le below (blocks_le holds.small)
  have present := (holds.present_iff _).mpr below
  have stop : (size / blockSize + 1) * blockSize ≤ maxBytes := Nat.mul_le_mul_right _ low
  rw [Nat.succ_mul] at stop
  have fits : size + (List.replicate (blockSize - size % blockSize) (0 : UInt8)).length ≤ maxBytes := by
    rw [List.length_replicate]
    omega
  have sealed := holds.put_block lawful nonce inside (Nat.le_of_eq List.length_replicate)
    (List.length_pos_iff.mp (by
      rw [List.length_replicate]
      omega)) fits
  rw [← overlay_page] at sealed
  refine ⟨_, ?_, sealed⟩
  rw [OpenFile.resealTail]
  dsimp only
  rw [usize_place low, physRead_eq low, length_stored present,
    if_pos ⟨(BlockDevice.present_iff low).mpr present, Nat.le_refl _⟩, holds.openBlock_eq lawful below]
  dsimp only
  rw [OpenFile.physWrite, usize_start low]

theorem Represents.truncate (lawful : P.Lawful) (rep : Represents P f v) (nonce : Vector UInt8 24)
    (inside : size ≤ v.length) :
    ∃ g, f.truncate P nonce size = (.ok (), g) ∧ Represents P g (v.take size) := by
  have length : (v.take size).length = size := by
    rw [List.length_take]
    omega
  by_cases cut : size % blockSize = 0
  · have whole : blocks size * blockSize = size := by
      have aligned : size % 4096 = 0 := cut
      show (size + 4095) / 4096 * 4096 = size
      omega
    have holds := rep.holds.truncated inside (fun i after before => by omega) (some size)
    rw [OpenFile.truncate, if_neg (not_not_intro cut)]
    exact ⟨_, rfl, holds, length.symm⟩
  · obtain ⟨g, resealed, holds⟩ := rep.holds.resealTail lawful nonce inside cut
    have kept : (put 0 v size (List.replicate (blockSize - size % blockSize) 0)).take size = v.take size := by
      apply List.ext_getElem?
      intro i
      rw [List.getElem?_take, List.getElem?_take]
      split
      · next before => exact getElem?_put_of_lt before (by omega)
      · rfl
    have blank : ∀ i, size ≤ i → i < blocks size * blockSize →
        (put 0 v size (List.replicate (blockSize - size % blockSize) 0)).getD i 0 = 0 := by
      intro i after before
      have stop : blocks size * blockSize = size + (blockSize - size % blockSize) := by
        have inPart : size % 4096 ≠ 0 := cut
        show (size + 4095) / 4096 * 4096 = size + (4096 - size % 4096)
        omega
      rw [getD_put, List.length_replicate, if_pos (by omega), List.getD_eq_getElem _ _ (by
        rw [List.length_replicate]
        omega), List.getElem_replicate]
    have longer : size ≤ (put 0 v size (List.replicate (blockSize - size % blockSize) 0)).length := by
      rw [length_put]
      omega
    have truncated := holds.truncated longer blank (some size)
    rw [kept] at truncated
    rw [OpenFile.truncate, if_pos cut, resealed]
    exact ⟨_, rfl, truncated, length.symm⟩

end Operations

/-- From this offset on a range has a block whose physical offset is no `usize`. -/
abbrev refusedFrom : Nat := 1038436 * blockSize

section Refusal

variable {P : Primitives}

theorem refused_place {k : Nat} (high : 1038436 ≤ k) : 2 ^ 32 ≤ k * physBlock := by
  show 4294967296 ≤ k * 4136
  omega

theorem readBlocks_refused (f : OpenFile) {len offset : Nat} (some_bytes : len ≠ 0)
    (high : refusedFrom < offset + len) : ∃ e, f.readBlocks P len offset = .error e := by
  induction len using Nat.strongRecOn generalizing offset with
  | ind len ih =>
      have room : offset % blockSize < blockSize := Nat.mod_lt _ (by decide)
      have parts : offset / blockSize * blockSize + offset % blockSize = offset := Nat.div_add_mod' _ _
      rw [OpenFile.readBlocks, dif_pos some_bytes]
      dsimp only
      generalize taken : min (blockSize - offset % blockSize) len = n
      cases found : f.readBlock P (offset / blockSize) with
      | error e => exact ⟨e, rfl⟩
      | ok blk =>
          have left : len - n ≠ 0 := by
            intro last
            have stop : offset + len ≤ (offset / blockSize + 1) * blockSize := by
              rw [Nat.succ_mul]
              omega
            have beyond : 1038436 < offset / blockSize + 1 :=
              Nat.lt_of_mul_lt_mul_right (Nat.lt_of_lt_of_le high stop)
            rw [OpenFile.readBlock, if_pos (refused_place (by omega))] at found
            cases found
          obtain ⟨e, failed⟩ := @ih (len - n) (by omega) (offset + n) left (by omega)
          refine ⟨e, ?_⟩
          show (f.readBlocks P (len - n) (offset + n) >>= _) = _
          rw [failed]
          rfl

/-- A range that reaches so far is not read. -/
theorem read_refused (f : OpenFile) {len offset : Nat} (some_bytes : len ≠ 0)
    (high : refusedFrom < offset + len) : ∃ e, f.read P len offset = .error e := by
  rw [OpenFile.read, if_neg some_bytes]
  split
  · exact ⟨_, rfl⟩
  · obtain ⟨e, failed⟩ := readBlocks_refused f some_bytes high
    exact ⟨e, by rw [failed]; rfl⟩

end Refusal

/-- The states after accepted operations on a file that held `first`, and the vector after the
same ones. Reads change nothing. -/
inductive Reached (P : Primitives) (start : OpenFile) (first : List UInt8) :
    OpenFile → List UInt8 → Prop where
  | start : Reached P start first start first
  | write {f g : OpenFile} {v : List UInt8} (draw : Nat → Vector UInt8 24) (bytes : List UInt8)
      (offset : Nat) (before : Reached P start first f v) (inside : offset ≤ v.length)
      (small : offset + bytes.length ≤ maxBytes) (accepted : f.write P draw bytes offset = (.ok (), g)) :
      Reached P start first g (put 0 v offset bytes)
  | truncate {f g : OpenFile} {v : List UInt8} (nonce : Vector UInt8 24) (size : Nat)
      (before : Reached P start first f v) (inside : size ≤ v.length)
      (done : f.truncate P nonce size = (.ok (), g)) : Reached P start first g (v.take size)

section Runs

variable {P : Primitives} {start f : OpenFile} {first v : List UInt8}

theorem pageSizeCheck_nil (f : OpenFile) (offset : Nat) : f.pageSizeCheck [] offset = .ok () := by
  rw [OpenFile.pageSizeCheck, if_neg]
  rintro ⟨_, _, long, _⟩
  exact absurd long (by decide)

theorem Represents.reached (lawful : P.Lawful) (rep : Represents P start first)
    (reached : Reached P start first f v) : Represents P f v := by
  induction reached with
  | start => exact rep
  | @write f g v draw bytes offset before inside small accepted ih =>
      cases checked : f.pageSizeCheck bytes offset with
      | ok _ =>
          obtain ⟨h, wrote, rep'⟩ := ih.write lawful draw inside small checked
          rw [accepted, Prod.mk.injEq] at wrote
          rw [wrote.2]
          exact rep'
      | error e =>
          have some_bytes : bytes ≠ [] := by
            rintro rfl
            rw [pageSizeCheck_nil] at checked
            cases checked
          rw [write_rejected draw some_bytes checked] at accepted
          cases accepted
  | @truncate f g v nonce size before inside done ih =>
      obtain ⟨h, cut, rep'⟩ := ih.truncate lawful nonce inside
      rw [done, Prod.mk.injEq] at cut
      rw [cut.2]
      exact rep'

end Runs

namespace DeviceSample

open Freehold.ExportSample

/-- A pool file nothing has been written to. -/
def fresh : OpenFile where
  bytes := List.replicate headerOffsetData 0
  crypto := .poolKey 1
  fileId := fileIdFor ['a', '.', 'd', 'b']
  keyDomain := 0
  isMainDb := false
  logicalSize := some 0

theorem fresh_represents : Represents calls.primitives fresh [] :=
  ⟨⟨List.length_replicate, fun k below => absurd below (Nat.not_lt_zero k), Nat.zero_le _⟩, rfl⟩

end DeviceSample

end Freehold.BlockDevice
