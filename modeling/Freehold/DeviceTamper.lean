import Freehold.DeviceVector

set_option autoImplicit false

/- The block device on any bytes. -/
namespace Freehold.BlockDevice

open Splice

/-- What was sealed under a key for a position. -/
abbrev History := Key → Aad → Block → Prop

section Statements

variable (P : Primitives) (wasSealed : History)

/-- No part of the file opens to anything but what was sealed for that place. -/
def Ideal (f : OpenFile) : Prop :=
  ∀ pos k plain, f.openBlock P k (window f.bytes pos physBlock) = some plain →
    wasSealed f.crypto (.block f.fileId f.keyDomain k) plain

/-- Byte `i` of block `k` is one that was sealed for the block, or zero where there is no block. -/
def Genuine (f : OpenFile) (k i : Nat) (byte : UInt8) : Prop :=
  if f.Present k then
    ∃ plain, wasSealed f.crypto (.block f.fileId f.keyDomain k) plain ∧ plain.toList[i]? = some byte
  else byte = 0

/-- Block `k` is there and does not authenticate. -/
def Tampered (f : OpenFile) (k : Nat) : Prop := f.Present k ∧ f.openBlock P k (f.stored k) = none

/-- A range has a byte in block `k`. -/
def Touches (offset len k : Nat) : Prop := ∃ i < len, (offset + i) / blockSize = k

/-- A range has a byte in block `k`, but not all of them. -/
def Cuts (offset len k : Nat) : Prop :=
  Touches offset len k ∧ ¬(offset ≤ k * blockSize ∧ (k + 1) * blockSize ≤ offset + len)

/-- What a read may return. -/
structure ReadClosed (f : OpenFile) (len offset : Nat)
    (result : Except VfsError (List UInt8 × Bool)) : Prop where
  genuine : ∀ out full, result = .ok (out, full) → out.length = len ∧ ∀ i byte, out[i]? = some byte →
    Genuine wasSealed f ((offset + i) / blockSize) ((offset + i) % blockSize) byte
  tampered : ∀ k, Touches offset len k → Tampered P f k → ∃ e, result = .error e
  short : ∀ out, result = .ok (out, false) → ∃ k, Touches offset len k ∧ ¬f.Present k

/-- What a write may leave behind. -/
structure WriteClosed (f : OpenFile) (draw : Nat → Vector UInt8 24) (bytes : List UInt8) (offset : Nat)
    (result : Except VfsError Unit × OpenFile) : Prop where
  genuine : ∀ k, Touches offset bytes.length k → result.2.stored k = f.stored k ∨
    ∃ plain : Block, result.2.stored k = f.sealBlock P k (draw k) plain ∧
      ∀ i byte, plain.toList[i]? = some byte →
        if offset ≤ k * blockSize + i ∧ k * blockSize + i < offset + bytes.length then
          bytes[k * blockSize + i - offset]? = some byte
        else Genuine wasSealed f k i byte
  tampered : ∀ k, Cuts offset bytes.length k → Tampered P f k → ∃ e, result.1 = .error e
  frame : ∀ e, result.1 = .error e → ∀ k, ¬Touches offset bytes.length k →
    result.2.stored k = f.stored k

/-- What a truncation may leave behind. -/
structure TruncateClosed (f : OpenFile) (nonce : Vector UInt8 24) (size : Nat)
    (result : Except VfsError Unit × OpenFile) : Prop where
  genuine : result.1 = .ok () → size % blockSize ≠ 0 → f.Present (size / blockSize) →
    ∃ plain : Block, result.2.stored (size / blockSize) = f.sealBlock P (size / blockSize) nonce plain ∧
      ∀ i byte, plain.toList[i]? = some byte →
        if i < size % blockSize then Genuine wasSealed f (size / blockSize) i byte else byte = 0
  tampered : size % blockSize ≠ 0 → Tampered P f (size / blockSize) → ∃ e, result.1 = .error e
  frame : ∀ e, result.1 = .error e → ∀ k, result.2.stored k = f.stored k

end Statements

section Reading

variable {P : Primitives} {f : OpenFile}

/-- The block a byte of a range is in. -/
def blockOf (offset i : Nat) : Nat := (offset + i) / blockSize

theorem touches_iff {offset len k : Nat} : Touches offset len k ↔
    len ≠ 0 ∧ offset / blockSize ≤ k ∧ k * blockSize < offset + len := by
  constructor
  · rintro ⟨i, inside, rfl⟩
    show len ≠ 0 ∧ offset / 4096 ≤ (offset + i) / 4096 ∧ (offset + i) / 4096 * 4096 < offset + len
    omega
  · rintro ⟨some_bytes, first, last⟩
    have first' : offset / 4096 ≤ k := first
    have last' : k * 4096 < offset + len := last
    refine ⟨k * 4096 - offset, by omega, ?_⟩
    show (offset + (k * 4096 - offset)) / 4096 = k
    omega

/-- The loop, byte for byte. -/
theorem readBlocks_spec (len offset : Nat) :
    (∀ out short, f.readBlocks P len offset = .ok (out, short) → out.length = len ∧
      (∀ i byte, out[i]? = some byte → ∃ blk, f.readBlock P (blockOf offset i) = .ok blk ∧
        (blk.getD zeroBlock).toList[(offset + i) % blockSize]? = some byte) ∧
      (short = true → ∃ i < len, f.readBlock P (blockOf offset i) = .ok none)) ∧
    ∀ i < len, ∀ e, f.readBlock P (blockOf offset i) = .error e →
      ∃ e, f.readBlocks P len offset = .error e := by
  induction len using Nat.strongRecOn generalizing offset with
  | ind len ih =>
      rw [OpenFile.readBlocks]
      by_cases more : len ≠ 0
      · have room : offset % blockSize < blockSize := Nat.mod_lt _ (by decide)
        have parts : offset / blockSize * blockSize + offset % blockSize = offset := Nat.div_add_mod' _ _
        rw [dif_pos more]
        dsimp only
        generalize taken : min (blockSize - offset % blockSize) len = n
        obtain ⟨reads, fails⟩ := ih (len - n) (by omega) (offset + n)
        have here : ∀ i < n, blockOf offset i = offset / blockSize ∧
            (offset + i) % blockSize = offset % blockSize + i := by
          intro i inside
          have few : n ≤ 4096 - offset % 4096 := by
            have least : n ≤ blockSize - offset % blockSize := by omega
            exact least
          show (offset + i) / 4096 = offset / 4096 ∧ (offset + i) % 4096 = offset % 4096 + i
          omega
        have later : ∀ i, n ≤ i → blockOf (offset + n) (i - n) = blockOf offset i ∧
            offset + n + (i - n) = offset + i := by
          intro i behind
          have same : offset + n + (i - n) = offset + i := by omega
          exact ⟨by rw [blockOf, blockOf, same], same⟩
        cases found : f.readBlock P (offset / blockSize) with
        | error e =>
            refine ⟨?_, fun i _ _ _ => ⟨e, rfl⟩⟩
            intro out short result
            cases result
        | ok blk =>
            cases rest : f.readBlocks P (len - n) (offset + n) with
            | error e =>
                refine ⟨?_, fun i _ _ _ => ⟨e, rfl⟩⟩
                intro out short result
                cases result
            | ok pair =>
                obtain ⟨tail, tailShort⟩ := pair
                obtain ⟨length, bytes, shorts⟩ := reads tail tailShort rest
                constructor
                · intro out short result
                  have equal := Except.ok.inj result
                  rw [Prod.mk.injEq] at equal
                  obtain ⟨rfl, rfl⟩ := equal
                  have chunk : (((blk.getD zeroBlock).toList.drop (offset % blockSize)).take n).length = n := by
                    rw [List.length_take, List.length_drop, Vector.length_toList]
                    omega
                  dsimp only
                  refine ⟨by rw [List.length_append, chunk]; omega, ?_, ?_⟩
                  · intro i byte entry
                    by_cases first : i < n
                    · rw [List.getElem?_append_left (by rw [chunk]; exact first), List.getElem?_take,
                        if_pos first, List.getElem?_drop] at entry
                      refine ⟨blk, by rw [(here i first).1, found], ?_⟩
                      rw [(here i first).2]
                      exact entry
                    · rw [List.getElem?_append_right (by rw [chunk]; omega), chunk] at entry
                      obtain ⟨other, read, at_i⟩ := bytes _ _ entry
                      rw [(later i (by omega)).1] at read
                      rw [(later i (by omega)).2] at at_i
                      exact ⟨other, read, at_i⟩
                  · intro isShort
                    rw [Bool.or_eq_true] at isShort
                    rcases isShort with none_here | none_later
                    · refine ⟨0, Nat.pos_of_ne_zero more, ?_⟩
                      rw [(here 0 (by omega)).1, found, Option.isNone_iff_eq_none.mp none_here]
                    · obtain ⟨i, inside, absent⟩ := shorts none_later
                      have place := later (i + n) (by omega)
                      rw [Nat.add_sub_cancel] at place
                      exact ⟨i + n, by omega, by rw [← place.1, absent]⟩
                · intro i inside e failed
                  by_cases first : i < n
                  · rw [(here i first).1, found] at failed
                    cases failed
                  · rw [← (later i (by omega)).1] at failed
                    obtain ⟨e', failed'⟩ := fails (i - n) (by omega) e failed
                    rw [rest] at failed'
                    cases failed'
      · rw [dif_neg more]
        have empty : len = 0 := Decidable.not_not.mp more
        subst empty
        refine ⟨?_, fun i inside => absurd inside (Nat.not_lt_zero i)⟩
        intro out short result
        cases result
        exact ⟨rfl, fun i byte entry => by simp at entry, fun isShort => by cases isShort⟩

theorem blockOf_lt {offset len i : Nat} (low : offset + len ≤ maxBytes) (inside : i < len) :
    blockOf offset i < maxBlocks := div_lt (by omega)

/-- A read below the blocks that do not fit, or one that reaches to the refused ones. -/
theorem read_closed {wasSealed : History} (ideal : Ideal P wasSealed f) {len offset : Nat}
    (reach : len = 0 ∨ offset + len ≤ maxBytes ∨ refusedFrom < offset + len) :
    ReadClosed P wasSealed f len offset (f.read P len offset) := by
  by_cases empty : len = 0
  · subst empty
    rw [OpenFile.read, if_pos rfl]
    refine ⟨?_, ?_, ?_⟩
    · intro out full result
      cases result
      exact ⟨rfl, fun i byte entry => by simp at entry⟩
    · intro k touches
      exact absurd rfl (touches_iff.mp touches).1
    · intro out result
      cases result
  · rcases reach with none_read | low | high
    · exact absurd none_read empty
    · have small : offset + len ≤ 1038434 * 4096 := low
      obtain ⟨reads, fails⟩ := readBlocks_spec (P := P) (f := f) len offset
      have same : f.read P len offset = (f.readBlocks P len offset).map fun r => (r.1, !r.2) := by
        rw [OpenFile.read, if_neg empty, if_neg (by omega)]
        cases f.readBlocks P len offset <;> rfl
      rw [same]
      refine ⟨?_, ?_, ?_⟩
      · intro out full result
        cases loop : f.readBlocks P len offset with
        | error e =>
            rw [loop] at result
            cases result
        | ok pair =>
            rw [loop] at result
            have equal := Except.ok.inj result
            rw [Prod.mk.injEq] at equal
            obtain ⟨length, bytes, _⟩ := reads pair.1 pair.2 loop
            rw [← equal.1]
            refine ⟨length, ?_⟩
            intro i byte entry
            obtain ⟨blk, read, at_i⟩ := bytes i byte entry
            have inside : i < len := by
              rw [← length]
              exact (List.getElem?_eq_some_iff.mp entry).1
            rw [readBlock_eq (blockOf_lt low inside)] at read
            rw [Genuine]
            split at read
            · next present =>
                rw [show (offset + i) / blockSize = blockOf offset i from rfl, if_pos present]
                split at read
                · next plain opened =>
                    cases read
                    exact ⟨plain, ideal _ _ plain opened, at_i⟩
                · cases read
            · next absent =>
                rw [show (offset + i) / blockSize = blockOf offset i from rfl, if_neg absent]
                cases read
                simp only [Option.getD_none, zeroBlock, Vector.toList_replicate, List.getElem?_replicate] at at_i
                split at at_i
                · exact (Option.some.inj at_i).symm
                · cases at_i
      · intro k touches tampered
        obtain ⟨i, inside, rfl⟩ := touches
        have failed : f.readBlock P (blockOf offset i) =
            .error ⟨sqliteIoerr, "AEAD authentication failed on read"⟩ := by
          have present : f.Present (blockOf offset i) := tampered.1
          have closed : f.openBlock P (blockOf offset i) (f.stored (blockOf offset i)) = none := tampered.2
          rw [readBlock_eq (blockOf_lt low inside), if_pos present, closed]
        obtain ⟨e, loop⟩ := fails i inside _ failed
        exact ⟨e, by rw [loop]; rfl⟩
      · intro out result
        cases loop : f.readBlocks P len offset with
        | error e =>
            rw [loop] at result
            cases result
        | ok pair =>
            rw [loop] at result
            have equal := Except.ok.inj result
            rw [Prod.mk.injEq, Bool.not_eq_false'] at equal
            obtain ⟨_, _, shorts⟩ := reads pair.1 pair.2 loop
            obtain ⟨i, inside, absent⟩ := shorts equal.2
            refine ⟨blockOf offset i, ⟨i, inside, rfl⟩, fun present => ?_⟩
            rw [readBlock_eq (blockOf_lt low inside), if_pos present] at absent
            split at absent <;> cases absent
    · obtain ⟨e, failed⟩ := read_refused (P := P) f empty high
      rw [failed]
      refine ⟨?_, fun k _ _ => ⟨e, rfl⟩, ?_⟩
      · intro out full result
        cases result
      · intro out result
        cases result

end Reading

section Writing

variable {P : Primitives} {wasSealed : History} {start f g : OpenFile} {k lo i : Nat}
  {chunk bytes : List UInt8} {nonce : Vector UInt8 24} {draw : Nat → Vector UInt8 24}

/-- The bytes of an overlaid block. -/
theorem overlay_byte {old : Block} {byte : UInt8} (entry : (overlay old lo chunk).toList[i]? = some byte) :
    if lo ≤ i ∧ i < lo + chunk.length then chunk[i - lo]? = some byte else old.toList[i]? = some byte := by
  obtain ⟨long, value⟩ := List.getElem?_eq_some_iff.mp entry
  have inside : i < blockSize := Nat.lt_of_lt_of_eq long Vector.length_toList
  have kept : old.toList[i]? = some old[i] := by
    rw [List.getElem?_eq_getElem (Nat.lt_of_lt_of_eq inside Vector.length_toList.symm),
      Vector.getElem_toList]
  have entry_eq : (overlay old lo chunk)[i] =
      if lo ≤ i then chunk.getD (i - lo) old[i] else old[i] := by
    rw [overlay, Vector.getElem_ofFn]
    rfl
  rw [Vector.getElem_toList, entry_eq] at value
  by_cases covered : lo ≤ i ∧ i < lo + chunk.length
  · rw [if_pos covered]
    rw [if_pos covered.1, List.getD_eq_getElem _ _ (by omega)] at value
    rw [List.getElem?_eq_getElem (by omega), value]
  · rw [if_neg covered, kept]
    by_cases after : lo ≤ i
    · rw [if_pos after, List.getD_eq_default _ _ (by omega)] at value
      exact congrArg some value
    · rw [if_neg after] at value
      exact congrArg some value

/-- `f` with `plain` sealed into block `k`. -/
def OpenFile.withBlock (P : Primitives) (f : OpenFile) (k : Nat) (nonce : Vector UInt8 24) (plain : Block) :
    OpenFile :=
  { f with bytes := put 0 f.bytes (headerOffsetData + k * physBlock) (f.sealBlock P k nonce plain) }

/-- What is sealed into block `k`: a chunk that is all of it, or one over what is there. -/
inductive Overlaid (P : Primitives) (start f : OpenFile) (k lo : Nat) (chunk : List UInt8) : Block → Prop where
  | whole (old : Block) (all : chunk.length = blockSize) : Overlaid P start f k lo chunk (overlay old 0 chunk)
  | kept (old : Block) (opened : start.Present k → f.openBlock P k (f.stored k) = some old)
      (blank : ¬start.Present k → old = zeroBlock) : Overlaid P start f k lo chunk (overlay old lo chunk)

/-- What one block of `write` does, or why it fails. -/
theorem writeBlock_cases (low : k < maxBlocks) (longer : start.bytes.length ≤ f.bytes.length) :
    (∃ e, f.writeBlock P nonce start.physSize k lo chunk = .error e ∧ start.Present k) ∨
    ∃ plain, f.writeBlock P nonce start.physSize k lo chunk = .ok (f.withBlock P k nonce plain) ∧
      Overlaid P start f k lo chunk plain := by
  rw [writeBlock_eq low]
  by_cases whole : chunk.length = blockSize
  · rw [OpenFile.overlaid, if_pos whole]
    exact .inr ⟨_, rfl, .whole zeroBlock whole⟩
  · have kept : start.Present k → f.Present k := fun present => Nat.le_trans present longer
    rw [overlaid_eq low whole kept]
    by_cases present : start.Present k
    · rw [if_pos present]
      cases opened : f.openBlock P k (f.stored k) with
      | none => exact .inl ⟨_, rfl, present⟩
      | some plain =>
          exact .inr ⟨_, rfl, .kept plain (fun _ => opened) fun absent => absurd present absent⟩
    · rw [if_neg present]
      exact .inr ⟨_, rfl, .kept zeroBlock (fun there => absurd there present) fun _ => rfl⟩

theorem stored_withBlock (lawful : P.Lawful) (plain : Block) :
    (f.withBlock P k nonce plain).stored k = f.sealBlock P k nonce plain := by
  have same := @window_put_same _ 0 f.bytes (f.sealBlock P k nonce plain) (headerOffsetData + k * physBlock)
  rw [length_sealBlock lawful] at same
  exact same

/-- Another block stays, one before it if it was there: a gap is filled with zeros. -/
theorem stored_withBlock_other (lawful : P.Lawful) (plain : Block) {j : Nat} (other : j ≠ k)
    (there : j < k → f.Present j) : (f.withBlock P k nonce plain).stored j = f.stored j := by
  apply window_put_apart
  rw [length_sealBlock lawful]
  rcases Nat.lt_or_gt_of_ne other with less | more
  · have present := there less
    rw [OpenFile.Present] at present
    rw [physBlock_eq] at present ⊢
    omega
  · rw [physBlock_eq]
    omega

theorem length_withBlock (lawful : P.Lawful) (plain : Block) : (f.withBlock P k nonce plain).bytes.length =
    max f.bytes.length (headerOffsetData + (k * physBlock + physBlock)) := by
  rw [OpenFile.withBlock]
  dsimp only
  rw [length_put, length_sealBlock lawful, Nat.add_assoc]

/-- Where the bytes of a block that `write` seals come from. -/
theorem Overlaid.origin {start f : OpenFile} {offset : Nat} {plain : Block} (ideal : Ideal P wasSealed start)
    (handle : SameHandle start f) (ahead : f.stored (offset / blockSize) = start.stored (offset / blockSize))
    (overlaid : Overlaid P start f (offset / blockSize) (offset % blockSize)
      (bytes.take (blockSize - offset % blockSize)) plain) {byte : UInt8}
    (entry : plain.toList[i]? = some byte) :
    if offset ≤ offset / blockSize * blockSize + i ∧
        offset / blockSize * blockSize + i < offset + bytes.length then
      bytes[offset / blockSize * blockSize + i - offset]? = some byte
    else Genuine wasSealed start (offset / blockSize) i byte := by
  have room : offset % blockSize < blockSize := Nat.mod_lt _ (by decide)
  have parts : offset / blockSize * blockSize + offset % blockSize = offset := Nat.div_add_mod' _ _
  have taken : (bytes.take (blockSize - offset % blockSize)).length =
      min (blockSize - offset % blockSize) bytes.length := List.length_take
  have inside : i < blockSize :=
    Nat.lt_of_lt_of_eq (List.getElem?_eq_some_iff.mp entry).1 Vector.length_toList
  have place : offset / blockSize * blockSize + i - offset = i - offset % blockSize := by omega
  cases overlaid with
  | whole old all =>
      have start_lo : offset % blockSize = 0 := by omega
      have from_chunk := overlay_byte entry
      rw [if_pos (by omega), List.getElem?_take, if_pos (by omega)] at from_chunk
      rw [if_pos (by omega), place, start_lo]
      exact from_chunk
  | kept old opened blank =>
      have from_chunk := overlay_byte entry
      by_cases covered : offset ≤ offset / blockSize * blockSize + i ∧
          offset / blockSize * blockSize + i < offset + bytes.length
      · rw [if_pos (by omega), List.getElem?_take, if_pos (by omega)] at from_chunk
        rw [if_pos covered, place]
        exact from_chunk
      · rw [if_neg (by omega)] at from_chunk
        rw [if_neg covered, Genuine]
        by_cases present : start.Present (offset / blockSize)
        · rw [if_pos present]
          have out := opened present
          obtain ⟨c, d, e, _⟩ := handle
          rw [OpenFile.openBlock, ← c, ← d, ← e, ahead] at out
          exact ⟨old, ideal _ _ old out, from_chunk⟩
        · rw [if_neg present]
          rw [blank present, zeroBlock, Vector.toList_replicate, List.getElem?_replicate, if_pos inside]
            at from_chunk
          exact (Option.some.inj from_chunk).symm

theorem SameHandle.refl (f : OpenFile) : SameHandle f f := ⟨rfl, rfl, rfl, rfl, rfl⟩

theorem SameHandle.trans {h : OpenFile} (first : SameHandle f g) (second : SameHandle g h) :
    SameHandle f h := by
  obtain ⟨c, i, d, m, l⟩ := first
  obtain ⟨c', i', d', m', l'⟩ := second
  exact ⟨c.trans c', i.trans i', d.trans d', m.trans m', l.trans l'⟩

/-- What the block loop leaves behind, told from the file `start` before the write. -/
structure LoopClosed (P : Primitives) (wasSealed : History) (start f : OpenFile)
    (draw : Nat → Vector UInt8 24) (bytes : List UInt8) (offset : Nat)
    (result : Except VfsError Unit × OpenFile) : Prop where
  genuine : ∀ k, Touches offset bytes.length k → result.2.stored k = f.stored k ∨
    ∃ plain : Block, result.2.stored k = start.sealBlock P k (draw k) plain ∧
      ∀ i byte, plain.toList[i]? = some byte →
        if offset ≤ k * blockSize + i ∧ k * blockSize + i < offset + bytes.length then
          bytes[k * blockSize + i - offset]? = some byte
        else Genuine wasSealed start k i byte
  tampered : ∀ k, Cuts offset bytes.length k → Tampered P start k → ∃ e, result.1 = .error e
  frame : ∀ k, ¬Touches offset bytes.length k → (k < offset / blockSize → f.Present k) →
    result.2.stored k = f.stored k
  failed : ∀ e, result.1 = .error e → ∃ k, Touches offset bytes.length k ∧ start.Present k
  longer : f.bytes.length ≤ result.2.bytes.length
  present : result.1 = .ok () → ∀ k, Touches offset bytes.length k → result.2.Present k
  handle : SameHandle f result.2

theorem LoopClosed.nil {offset : Nat} (f : OpenFile) :
    LoopClosed P wasSealed start f draw [] offset (.ok (), f) where
  genuine k touches := absurd rfl (touches_iff.mp touches).1
  tampered k cuts := absurd rfl (touches_iff.mp cuts.1).1
  frame k _ _ := rfl
  failed e none_failed := by cases none_failed
  longer := Nat.le_refl _
  present _ k touches := absurd rfl (touches_iff.mp touches).1
  handle := .refl f

theorem sealBlock_congr (handle : SameHandle start f) (plain : Block) :
    f.sealBlock P k nonce plain = start.sealBlock P k nonce plain := by
  obtain ⟨c, d, e, _⟩ := handle
  rw [OpenFile.sealBlock, OpenFile.sealBlock, c, d, e]

theorem openBlock_congr (handle : SameHandle start f) (phys : List UInt8) :
    f.openBlock P k phys = start.openBlock P k phys := by
  obtain ⟨c, d, e, _⟩ := handle
  rw [OpenFile.openBlock, OpenFile.openBlock, c, d, e]

/-- The blocks of a range are its first one and those of the rest. -/
theorem touches_split {offset : Nat} (more : bytes ≠ []) : Touches offset bytes.length k ↔
    k = offset / blockSize ∨
      Touches (offset + (bytes.take (blockSize - offset % blockSize)).length)
        (bytes.drop (blockSize - offset % blockSize)).length k := by
  have positive := List.length_pos_iff.mpr more
  rw [touches_iff, touches_iff, List.length_take, List.length_drop]
  show bytes.length ≠ 0 ∧ offset / 4096 ≤ k ∧ k * 4096 < offset + bytes.length ↔ k = offset / 4096 ∨
    bytes.length - (4096 - offset % 4096) ≠ 0 ∧
      (offset + min (4096 - offset % 4096) bytes.length) / 4096 ≤ k ∧
        k * 4096 < offset + min (4096 - offset % 4096) bytes.length +
          (bytes.length - (4096 - offset % 4096))
  omega

/-- The rest of a range is behind its first block. -/
theorem not_touches_rest {offset : Nat} (before : k ≤ offset / blockSize) :
    ¬Touches (offset + (bytes.take (blockSize - offset % blockSize)).length)
      (bytes.drop (blockSize - offset % blockSize)).length k := by
  rw [touches_iff, List.length_take, List.length_drop]
  have before' : k ≤ offset / 4096 := before
  show ¬(bytes.length - (4096 - offset % 4096) ≠ 0 ∧
      (offset + min (4096 - offset % 4096) bytes.length) / 4096 ≤ k ∧
        k * 4096 < offset + min (4096 - offset % 4096) bytes.length +
          (bytes.length - (4096 - offset % 4096)))
  omega

theorem writeBlocks_closed (lawful : P.Lawful) (ideal : Ideal P wasSealed start) {offset : Nat}
    (handle : SameHandle start f) (longer : start.bytes.length ≤ f.bytes.length)
    (ahead : ∀ k, Touches offset bytes.length k → f.stored k = start.stored k)
    (low : offset + bytes.length ≤ maxBytes) :
    LoopClosed P wasSealed start f draw bytes offset
      (f.writeBlocks P draw start.physSize bytes offset) := by
  induction length : bytes.length using Nat.strongRecOn generalizing bytes f offset with
  | ind len ih =>
      rw [OpenFile.writeBlocks]
      by_cases more : bytes ≠ []
      · rw [dif_pos more]
        dsimp only
        have positive := List.length_pos_iff.mpr more
        have first_low : offset / blockSize < maxBlocks := div_lt (by omega)
        have room : offset % blockSize < blockSize := Nat.mod_lt _ (by decide)
        have parts : offset / blockSize * blockSize + offset % blockSize = offset := Nat.div_add_mod' _ _
        have taken : (bytes.take (blockSize - offset % blockSize)).length =
            min (blockSize - offset % blockSize) bytes.length := List.length_take
        have dropped : (bytes.drop (blockSize - offset % blockSize)).length =
            bytes.length - (blockSize - offset % blockSize) := List.length_drop
        have here := (touches_split (k := offset / blockSize) more).mpr (.inl rfl)
        rcases @writeBlock_cases P start f _ _ (bytes.take (blockSize - offset % blockSize))
          (draw (offset / blockSize)) first_low longer with ⟨e, failed, present⟩ | ⟨plain, wrote, overlaid⟩
        · rw [failed]
          exact ⟨fun k _ => .inl rfl, fun k _ _ => ⟨e, rfl⟩, fun k _ _ => rfl,
            fun _ _ => ⟨_, here, present⟩, Nat.le_refl _, fun done => (by cases done), .refl f⟩
        · rw [wrote]
          dsimp only
          have grown := @length_withBlock P f (offset / blockSize) (draw (offset / blockSize)) lawful plain
          have same := @stored_withBlock P f (offset / blockSize) (draw (offset / blockSize)) lawful plain
          have others := @stored_withBlock_other P f (offset / blockSize) (draw (offset / blockSize)) lawful
            plain
          have handle' : SameHandle start (f.withBlock P (offset / blockSize) (draw (offset / blockSize)) plain) :=
            handle
          have wrote_handle : SameHandle f
              (f.withBlock P (offset / blockSize) (draw (offset / blockSize)) plain) := .refl f
          have present' : (f.withBlock P (offset / blockSize) (draw (offset / blockSize)) plain).Present
              (offset / blockSize) := by
            rw [OpenFile.Present, grown]
            exact Nat.le_max_right _ _
          have behind : ∀ k, Touches (offset + (bytes.take (blockSize - offset % blockSize)).length)
              (bytes.drop (blockSize - offset % blockSize)).length k → offset / blockSize < k :=
            fun k touches => Nat.lt_of_not_le fun before => not_touches_rest before touches
          generalize f.withBlock P (offset / blockSize) (draw (offset / blockSize)) plain = g at *
          have rest := ih (bytes.drop (blockSize - offset % blockSize)).length (by omega) handle' (by omega)
            (fun k touches => by
              have later := behind k touches
              rw [others (by omega) (by omega), ahead k ((touches_split more).mpr (.inr touches))])
            (by omega) rfl
          refine ⟨?_, ?_, ?_, ?_, ?_, ?_, ?_⟩
          · intro k touches
            rcases (touches_split more).mp touches with first | later
            · subst first
              have settled := rest.frame _ (not_touches_rest (Nat.le_refl _)) fun _ => present'
              refine .inr ⟨plain, by rw [settled, same, sealBlock_congr handle], ?_⟩
              intro i byte entry
              exact overlaid.origin ideal handle (ahead _ here) entry
            · have after := behind k later
              have old := @others k (by omega) (by omega)
              rcases rest.genuine k later with untouched | ⟨plain', sealed, origins⟩
              · exact .inl (by rw [untouched, old])
              · refine .inr ⟨plain', sealed, ?_⟩
                intro i byte entry
                have origin := origins i byte entry
                have next : offset < k * blockSize := by
                  have after' : offset / 4096 < k := after
                  show offset < k * 4096
                  omega
                have first_of := (touches_iff.mp later).2.1
                have start_of : offset + (bytes.take (blockSize - offset % blockSize)).length ≤ k * blockSize := by
                  have after' : offset / 4096 < k := after
                  have bound : (bytes.take (blockSize - offset % blockSize)).length ≤ 4096 - offset % 4096 := by
                    rw [taken]
                    exact Nat.min_le_left _ _
                  show offset + _ ≤ k * 4096
                  omega
                have covered_iff : (offset + (bytes.take (blockSize - offset % blockSize)).length ≤ k * blockSize + i ∧
                    k * blockSize + i < offset + (bytes.take (blockSize - offset % blockSize)).length +
                      (bytes.drop (blockSize - offset % blockSize)).length) ↔
                    (offset ≤ k * blockSize + i ∧ k * blockSize + i < offset + bytes.length) := by
                  omega
                by_cases covered : offset ≤ k * blockSize + i ∧ k * blockSize + i < offset + bytes.length
                · rw [if_pos (covered_iff.mpr covered), List.getElem?_drop] at origin
                  rw [if_pos covered, ← origin]
                  congr 1
                  omega
                · rw [if_neg (mt covered_iff.mp covered)] at origin
                  rw [if_neg covered]
                  exact origin
          · intro k cuts tampered
            rcases (touches_split more).mp cuts.1 with first | later
            · subst first
              exfalso
              cases overlaid with
              | whole old all =>
                  refine cuts.2 ⟨by omega, ?_⟩
                  rw [Nat.add_mul, Nat.one_mul]
                  omega
              | kept old opened blank =>
                  have out := opened tampered.1
                  rw [openBlock_congr handle, ahead _ here, tampered.2] at out
                  cases out
            · refine rest.tampered k ⟨later, ?_⟩ tampered
              rintro ⟨from_start, to_end⟩
              have after := behind k later
              refine cuts.2 ⟨?_, by omega⟩
              have after' : offset / 4096 < k := after
              show offset ≤ k * 4096
              omega
          · intro k apart there
            have not_first : k ≠ offset / blockSize := fun first => apart ((touches_split more).mpr (.inl first))
            have not_rest := fun later => apart ((touches_split more).mpr (.inr later))
            have kept := others not_first there
            rw [rest.frame k not_rest, kept]
            intro before
            have earlier : k < offset / blockSize := by
              have bound : (bytes.take (blockSize - offset % blockSize)).length ≤ 4096 - offset % 4096 := by
                rw [taken]
                exact Nat.min_le_left _ _
              have before' : k < (offset + (bytes.take (blockSize - offset % blockSize)).length) / 4096 := before
              have other : k ≠ offset / 4096 := not_first
              show k < offset / 4096
              omega
            rw [OpenFile.Present, grown]
            exact Nat.le_trans (there earlier) (Nat.le_max_left _ _)
          · intro e failed
            obtain ⟨k, touches, present⟩ := rest.failed e failed
            exact ⟨k, (touches_split more).mpr (.inr touches), present⟩
          · have more_left := rest.longer
            omega
          · intro done k touches
            rcases (touches_split more).mp touches with first | later
            · subst first
              exact Nat.le_trans present' rest.longer
            · exact rest.present done k later
          · exact wrote_handle.trans rest.handle
      · rw [dif_neg more]
        have empty : bytes = [] := Decidable.not_not.mp more
        subst empty
        exact .nil f

theorem WriteClosed.refused (f : OpenFile) (offset : Nat) (e : VfsError) :
    WriteClosed P wasSealed f draw bytes offset (.error e, f) :=
  ⟨fun _ _ => .inl rfl, fun _ _ _ => ⟨e, rfl⟩, fun _ _ _ _ => rfl⟩

/-- A write up to a block boundary, and then the rest of it. -/
theorem writeBlocks_append (phys : Nat) (more : List UInt8) {offset : Nat}
    (aligned : (offset + bytes.length) % blockSize = 0) :
    f.writeBlocks P draw phys (bytes ++ more) offset =
      match f.writeBlocks P draw phys bytes offset with
      | (.error e, written) => (.error e, written)
      | (.ok (), written) => written.writeBlocks P draw phys more (offset + bytes.length) := by
  induction length : bytes.length using Nat.strongRecOn generalizing bytes f offset with
  | ind len ih =>
      by_cases empty : bytes = []
      · subst empty
        subst length
        rw [List.nil_append, OpenFile.writeBlocks.eq_1 P draw phys f [], dif_neg (not_not_intro rfl)]
        rfl
      · have positive := List.length_pos_iff.mpr empty
        have whole : blockSize - offset % blockSize ≤ bytes.length := by
          have boundary : (offset + bytes.length) % 4096 = 0 := aligned
          show 4096 - offset % 4096 ≤ bytes.length
          omega
        have room : offset % blockSize < blockSize := Nat.mod_lt _ (by decide)
        have taken : (bytes.take (blockSize - offset % blockSize)).length =
            min (blockSize - offset % blockSize) bytes.length := List.length_take
        have dropped : (bytes.drop (blockSize - offset % blockSize)).length =
            bytes.length - (blockSize - offset % blockSize) := List.length_drop
        have place : offset + (bytes.take (blockSize - offset % blockSize)).length +
            (bytes.drop (blockSize - offset % blockSize)).length = offset + bytes.length := by omega
        rw [OpenFile.writeBlocks.eq_1 P draw phys f (bytes ++ more), OpenFile.writeBlocks.eq_1 P draw phys f bytes,
          dif_pos (List.append_ne_nil_of_left_ne_nil empty more), dif_pos empty]
        dsimp only
        rw [List.take_append_of_le_length whole, List.drop_append_of_le_length whole]
        cases f.writeBlock P (draw (offset / blockSize)) phys (offset / blockSize) (offset % blockSize)
            (bytes.take (blockSize - offset % blockSize)) with
        | error e => rfl
        | ok written =>
            have rest := @ih (bytes.drop (blockSize - offset % blockSize)).length (by omega) written
              (bytes.drop (blockSize - offset % blockSize))
              (offset + (bytes.take (blockSize - offset % blockSize)).length) (by rw [place]; exact aligned) rfl
            rw [place, length] at rest
            exact rest

/-- `f` with block `k` sealed to wherever `pos` is. -/
def OpenFile.sealedAt (P : Primitives) (f : OpenFile) (pos k : Nat) (nonce : Vector UInt8 24)
    (plain : Block) : OpenFile :=
  { f with bytes := put 0 f.bytes pos (f.sealBlock P k nonce plain) }

/-- A whole block that does not fit: nothing is read, and its offset may wrap. -/
theorem writeBlocks_whole (phys : Nat) {offset : Nat} (aligned : offset % blockSize = 0)
    (below : offset < refusedFrom) (whole : blockSize ≤ bytes.length) :
    f.writeBlocks P draw phys bytes offset =
      (f.sealedAt P (usize (headerOffsetData + offset / blockSize * physBlock)) (offset / blockSize)
        (draw (offset / blockSize)) (overlay zeroBlock 0 (bytes.take blockSize))).writeBlocks P draw phys
          (bytes.drop blockSize) (offset + blockSize) := by
  have some_bytes : bytes ≠ [] := by
    rintro rfl
    exact absurd whole (by decide)
  have fits : ¬2 ^ 32 ≤ offset / blockSize * physBlock := by
    have bound : offset < 1038436 * 4096 := below
    show ¬4294967296 ≤ offset / 4096 * 4136
    omega
  have taken : (bytes.take blockSize).length = blockSize := by
    rw [List.length_take, Nat.min_eq_left whole]
  rw [OpenFile.writeBlocks, dif_pos some_bytes, aligned]
  dsimp only
  rw [Nat.sub_zero, OpenFile.writeBlock, if_neg fits, OpenFile.overlaid, if_pos taken, taken]
  rfl

/-- What whole blocks that do not fit leave behind. -/
structure LastClosed (P : Primitives) (f : OpenFile) (draw : Nat → Vector UInt8 24) (bytes : List UInt8)
    (offset : Nat) (result : Except VfsError Unit × OpenFile) : Prop where
  done : result.1 = .ok ()
  others : ∀ k ≤ maxBlocks, 1 ≤ k → f.Present k → ¬Touches offset bytes.length k →
    result.2.stored k = f.stored k
  first : Touches offset bytes.length maxBlocks → ∃ plain : Block,
    result.2.stored maxBlocks = f.sealBlock P maxBlocks (draw maxBlocks) plain ∧
      ∀ i byte, plain.toList[i]? = some byte → bytes[maxBlocks * blockSize + i - offset]? = some byte
  second : result.2.stored (maxBlocks + 1) = f.stored (maxBlocks + 1)

theorem usize_last : usize (headerOffsetData + maxBlocks * physBlock) = headerOffsetData + maxBlocks * physBlock :=
  usize_eq (by decide)

theorem usize_wrapped : usize (headerOffsetData + (maxBlocks + 1) * physBlock) = 3960 := by decide

/-- A block over the end of the header touches no block but the first. -/
theorem stored_wrapped (lawful : P.Lawful) (plain : Block) {n : Nat} (after : 1 ≤ k) :
    (f.sealedAt P 3960 n nonce plain).stored k = f.stored k := by
  apply window_put_apart
  rw [length_sealBlock lawful]
  left
  show 3960 + 4136 ≤ 4096 + k * 4136
  omega

theorem writeBlocks_second (lawful : P.Lawful) (phys : Nat) (whole : bytes.length = blockSize) :
    LastClosed P f draw bytes ((maxBlocks + 1) * blockSize)
      (f.writeBlocks P draw phys bytes ((maxBlocks + 1) * blockSize)) := by
  have rest : bytes.drop blockSize = [] := List.drop_eq_nil_of_le (Nat.le_of_eq whole)
  rw [writeBlocks_whole phys (by decide) (by decide) (Nat.le_of_eq whole.symm), rest,
    Nat.mul_div_cancel _ (by decide : 0 < blockSize), usize_wrapped, OpenFile.writeBlocks,
    dif_neg (not_not_intro rfl)]
  refine ⟨rfl, fun k _ after _ _ => stored_wrapped lawful _ after, ?_, stored_wrapped lawful _ (by decide)⟩
  intro touches
  exact absurd (touches_iff.mp touches).2.1 (by decide)

theorem writeBlocks_last (lawful : P.Lawful) (phys : Nat)
    (whole : bytes.length = blockSize ∨ bytes.length = blockSize + blockSize) :
    LastClosed P f draw bytes maxBytes (f.writeBlocks P draw phys bytes maxBytes) := by
  have positive : 0 < blockSize := by decide
  have touched : ∀ k ≤ maxBlocks, ¬Touches maxBytes bytes.length k → k < maxBlocks := by
    intro k least apart
    refine Nat.lt_of_le_of_ne least fun equal => apart (touches_iff.mpr ⟨by omega, ?_, ?_⟩)
    · rw [Nat.mul_div_cancel _ positive]
      exact Nat.le_of_eq equal.symm
    · rw [equal]
      show maxBlocks * blockSize < maxBlocks * blockSize + bytes.length
      omega
  rw [writeBlocks_whole phys (by decide) (by decide) (by omega), Nat.mul_div_cancel _ positive, usize_last,
    ← Nat.succ_mul]
  let plain := overlay zeroBlock 0 (bytes.take blockSize)
  let g := f.withBlock P maxBlocks (draw maxBlocks) plain
  show LastClosed P f draw bytes maxBytes
    (g.writeBlocks P draw phys (bytes.drop blockSize) ((maxBlocks + 1) * blockSize))
  have grown : g.bytes.length = _ := length_withBlock lawful plain
  have same : g.stored maxBlocks = _ := stored_withBlock lawful plain
  have others : ∀ j, j ≠ maxBlocks → (j < maxBlocks → f.Present j) → g.stored j = f.stored j :=
    fun j => stored_withBlock_other lawful plain
  have longer : f.bytes.length ≤ g.bytes.length := by
    rw [grown]
    exact Nat.le_max_left _ _
  have present : g.Present maxBlocks := by
    rw [OpenFile.Present, grown]
    exact Nat.le_max_right _ _
  have origin : ∀ i byte, plain.toList[i]? = some byte →
      bytes[maxBlocks * blockSize + i - maxBytes]? = some byte := by
    intro i byte entry
    have taken : (bytes.take blockSize).length = blockSize := by
      rw [List.length_take]
      omega
    have inside : i < blockSize :=
      Nat.lt_of_lt_of_eq (List.getElem?_eq_some_iff.mp entry).1 Vector.length_toList
    have from_chunk := overlay_byte entry
    rw [if_pos (by omega), List.getElem?_take, if_pos (by omega)] at from_chunk
    rwa [Nat.add_sub_cancel_left]
  rcases whole with one | two
  · have rest : bytes.drop blockSize = [] := List.drop_eq_nil_of_le (Nat.le_of_eq one)
    rw [rest, OpenFile.writeBlocks, dif_neg (not_not_intro rfl)]
    refine ⟨rfl, ?_, fun _ => ⟨plain, same, origin⟩, others _ (by decide) fun less => absurd less (by decide)⟩
    intro k least _ there apart
    have below := touched k least apart
    exact others k (Nat.ne_of_lt below) fun _ => there
  · have rest : LastClosed P g draw (bytes.drop blockSize) ((maxBlocks + 1) * blockSize)
        (g.writeBlocks P draw phys (bytes.drop blockSize) ((maxBlocks + 1) * blockSize)) :=
      writeBlocks_second lawful phys (by
        rw [List.length_drop]
        omega)
    have before : ∀ k ≤ maxBlocks, ¬Touches ((maxBlocks + 1) * blockSize) (bytes.drop blockSize).length k := by
      intro k least touches
      have from_start := (touches_iff.mp touches).2.1
      rw [Nat.mul_div_cancel _ positive] at from_start
      omega
    refine ⟨rest.done, ?_, ?_, ?_⟩
    · intro k least after there apart
      have below := touched k least apart
      rw [rest.others k least after (Nat.le_trans there longer) (before k least)]
      exact others k (Nat.ne_of_lt below) fun _ => there
    · intro _
      refine ⟨plain, ?_, origin⟩
      rw [rest.others maxBlocks (Nat.le_refl _) (by decide) present (before _ (Nat.le_refl _))]
      exact same
    · rw [rest.second]
      exact others _ (by decide) fun less => absurd less (by decide)

/-- A loop below the blocks that do not fit is a write on its own. -/
theorem LoopClosed.closed {offset : Nat} {result : Except VfsError Unit × OpenFile}
    (loop : LoopClosed P wasSealed f f draw bytes offset result) :
    WriteClosed P wasSealed f draw bytes offset result := by
  refine ⟨loop.genuine, loop.tampered, ?_⟩
  intro e failed k apart
  apply loop.frame k apart
  intro before
  -- the block that failed is there, and so are all before it
  obtain ⟨last, touches, present⟩ := loop.failed e failed
  have from_start := (touches_iff.mp touches).2.1
  have earlier : k * physBlock ≤ last * physBlock := Nat.mul_le_mul_right _ (by omega)
  exact Nat.le_trans (Nat.add_le_add_left (Nat.add_le_add_right earlier _) _) present

theorem writeBlock_refused {phys : Nat} (high : 1038436 ≤ k) : f.writeBlock P nonce phys k lo chunk =
    .error ⟨sqliteIoerr, "physical offset overflow"⟩ := by
  rw [OpenFile.writeBlock, if_pos (refused_place high)]

theorem writeBlocks_refused (phys : Nat) {offset : Nat} (some_bytes : bytes ≠ [])
    (high : refusedFrom ≤ offset) :
    ∃ e, f.writeBlocks P draw phys bytes offset = (.error e, f) := by
  have behind : 1038436 ≤ offset / blockSize := by
    have bound : 1038436 * 4096 ≤ offset := high
    show 1038436 ≤ offset / 4096
    omega
  rw [OpenFile.writeBlocks, dif_pos some_bytes]
  dsimp only
  rw [writeBlock_refused behind]
  exact ⟨_, rfl⟩

section Ends

variable {offset len : Nat}

/-- The blocks that fit are those of the front of the range. -/
theorem touches_front (high : maxBytes < offset + len) :
    Touches offset (min (maxBytes - offset) len) k ↔ k < maxBlocks ∧ Touches offset len k := by
  have beyond : 4253425664 < offset + len := high
  rw [touches_iff, touches_iff]
  show min (4253425664 - offset) len ≠ 0 ∧ offset / 4096 ≤ k ∧
      k * 4096 < offset + min (4253425664 - offset) len ↔
    k < 1038434 ∧ len ≠ 0 ∧ offset / 4096 ≤ k ∧ k * 4096 < offset + len
  omega

/-- The other blocks of the range are one or both of those that do not fit. -/
theorem touches_back (high : maxBytes < offset + len) (below : offset + len ≤ refusedFrom)
    (apart : offset ≤ 4253425664 ∨ 4253429760 ≤ offset) (touches : Touches offset len k) (late : maxBlocks ≤ k) :
    k = maxBlocks ∧ Touches (max offset maxBytes) (len - (maxBytes - offset)) maxBlocks ∧ offset ≤ maxBytes ∨
      k = maxBlocks + 1 := by
  have beyond : 4253425664 < offset + len := high
  have stop : offset + len ≤ 4253433856 := below
  have bound : 1038434 ≤ k := late
  rw [touches_iff] at touches ⊢
  obtain ⟨more, from_start, to_end⟩ := touches
  have from_start' : offset / 4096 ≤ k := from_start
  have to_end' : k * 4096 < offset + len := to_end
  show k = 1038434 ∧ (len - (4253425664 - offset) ≠ 0 ∧ max offset 4253425664 / 4096 ≤ 1038434 ∧
      4253425664 < max offset 4253425664 + (len - (4253425664 - offset))) ∧ offset ≤ 4253425664 ∨
    k = 1038435
  omega

theorem not_touches_back (low : k < maxBlocks) : ¬Touches (max offset maxBytes) len k := by
  intro touches
  have from_start : max offset 4253425664 / 4096 ≤ k := (touches_iff.mp touches).2.1
  have bound : k < 1038434 := low
  omega

theorem not_touches_header (far : 2105941016 < offset) (touches : Touches offset len k) : 1 ≤ k := by
  have from_start : offset / 4096 ≤ k := (touches_iff.mp touches).2.1
  omega

/-- A byte of a block that fits is in the range if it is in its front. -/
theorem below_front (high : maxBytes < offset + len) (low : k < maxBlocks) (inside : i < 4096) :
    k * blockSize + i < max offset maxBytes ↔ k * blockSize + i < offset + len := by
  have beyond : 4253425664 < offset + len := high
  have bound : k < 1038434 := low
  show k * 4096 + i < max offset 4253425664 ↔ k * 4096 + i < offset + len
  omega

end Ends

/-- A loop up to the end of whole blocks that do not fit. -/
theorem writeBlocks_closed_last (lawful : P.Lawful) (ideal : Ideal P wasSealed f) {offset : Nat}
    (sized : bytes.length < 2 ^ 31) (more : bytes ≠ []) (high : maxBytes < offset + bytes.length)
    (below : offset + bytes.length ≤ refusedFrom) (first : ¬Cuts offset bytes.length maxBlocks)
    (second : ¬Cuts offset bytes.length (maxBlocks + 1)) :
    WriteClosed P wasSealed f draw bytes offset (f.writeBlocks P draw f.physSize bytes offset) := by
  have place : maxBytes = 4253425664 := rfl
  have stop : refusedFrom = 4253433856 := rfl
  have far : 2105941016 < offset := by omega
  have positive := List.length_pos_iff.mpr more
  -- the range ends with a block, and starts with one if it starts so late
  have last : offset + bytes.length = 4253429760 ∧ offset ≤ 4253425664 ∨
      offset + bytes.length = 4253433856 ∧ (offset ≤ 4253425664 ∨ offset = 4253429760) := by
    rw [Cuts, touches_iff] at first second
    have first' : ¬((bytes.length ≠ 0 ∧ offset / 4096 ≤ 1038434 ∧ 1038434 * 4096 < offset + bytes.length) ∧
      ¬(offset ≤ 1038434 * 4096 ∧ (1038434 + 1) * 4096 ≤ offset + bytes.length)) := first
    have second' : ¬((bytes.length ≠ 0 ∧ offset / 4096 ≤ 1038435 ∧ 1038435 * 4096 < offset + bytes.length) ∧
      ¬(offset ≤ 1038435 * 4096 ∧ (1038435 + 1) * 4096 ≤ offset + bytes.length)) := second
    omega
  have apart : offset ≤ 4253425664 ∨ 4253429760 ≤ offset := by omega
  generalize counted : maxBytes - offset = count
  have front : (bytes.take count).length = min count bytes.length := List.length_take
  have back : (bytes.drop count).length = bytes.length - count := List.length_drop
  have boundary : offset + (bytes.take count).length = max offset maxBytes := by omega
  have lower : LoopClosed P wasSealed f f draw (bytes.take count) offset
      (f.writeBlocks P draw f.physSize (bytes.take count) offset) := by
    by_cases early : offset ≤ maxBytes
    · exact writeBlocks_closed lawful ideal (.refl f) (Nat.le_refl _) (fun k _ => rfl) (by omega)
    · have none_early : count = 0 := by omega
      rw [none_early, List.take_zero, OpenFile.writeBlocks, dif_neg (not_not_intro rfl)]
      exact .nil f
  have upper : ∀ g : OpenFile, LastClosed P g draw (bytes.drop count) (max offset maxBytes)
      (g.writeBlocks P draw f.physSize (bytes.drop count) (max offset maxBytes)) := by
    intro g
    have size : blockSize = 4096 := rfl
    by_cases early : offset ≤ maxBytes
    · rw [Nat.max_eq_right early]
      exact writeBlocks_last lawful _ (by omega)
    · have late : max offset maxBytes = (maxBlocks + 1) * blockSize := by
        show max offset maxBytes = 4253429760
        omega
      rw [late]
      exact writeBlocks_second lawful _ (by omega)
  have aligned : (offset + (bytes.take count).length) % blockSize = 0 := by
    rw [boundary]
    show max offset maxBytes % 4096 = 0
    omega
  have split := @writeBlocks_append P f _ draw f.physSize (bytes.drop count) offset aligned
  rw [List.take_append_drop, boundary] at split
  rw [split]
  have of_front : ∀ k, Touches offset (bytes.take count).length k →
      k < maxBlocks ∧ Touches offset bytes.length k := by
    intro k touches
    rw [front, ← counted] at touches
    exact (touches_front high).mp touches
  have to_front : ∀ k < maxBlocks, Touches offset bytes.length k →
      Touches offset (bytes.take count).length k := by
    intro k low touches
    rw [front, ← counted]
    exact (touches_front high).mpr ⟨low, touches⟩
  -- what the blocks that fit hold after the loop over them
  have genuine : ∀ k < maxBlocks, Touches offset bytes.length k →
      (f.writeBlocks P draw f.physSize (bytes.take count) offset).2.stored k = f.stored k ∨
      ∃ plain : Block, (f.writeBlocks P draw f.physSize (bytes.take count) offset).2.stored k =
        f.sealBlock P k (draw k) plain ∧ ∀ i byte, plain.toList[i]? = some byte →
          if offset ≤ k * blockSize + i ∧ k * blockSize + i < offset + bytes.length then
            bytes[k * blockSize + i - offset]? = some byte
          else Genuine wasSealed f k i byte := by
    intro k low touches
    rcases lower.genuine k (to_front k low touches) with kept | ⟨plain, sealed, origins⟩
    · exact .inl kept
    · refine .inr ⟨plain, sealed, ?_⟩
      intro i byte entry
      have origin := origins i byte entry
      have inside : i < 4096 :=
        Nat.lt_of_lt_of_eq (List.getElem?_eq_some_iff.mp entry).1 Vector.length_toList
      have same : k * blockSize + i < offset + (bytes.take count).length ↔
          k * blockSize + i < offset + bytes.length := by
        rw [boundary]
        exact below_front high low inside
      by_cases covered : offset ≤ k * blockSize + i ∧ k * blockSize + i < offset + bytes.length
      · rw [if_pos ⟨covered.1, same.mpr covered.2⟩, List.getElem?_take] at origin
        rw [if_pos covered]
        split at origin
        · exact origin
        · cases origin
      · rw [if_neg fun both => covered ⟨both.1, same.mp both.2⟩] at origin
        rw [if_neg covered]
        exact origin
  have untouched : ∀ k, maxBlocks ≤ k → offset / blockSize ≤ k →
      (f.writeBlocks P draw f.physSize (bytes.take count) offset).2.stored k = f.stored k := by
    intro k high from_start
    exact lower.frame k (fun touches => absurd (of_front k touches).1 (Nat.not_lt_of_le high))
      fun before => absurd before (Nat.not_lt_of_le from_start)
  rcases result : f.writeBlocks P draw f.physSize (bytes.take count) offset with ⟨outcome, g⟩
  rw [result] at lower genuine untouched
  cases outcome with
  | error e =>
      refine ⟨?_, fun _ _ _ => ⟨e, rfl⟩, ?_⟩
      · intro k touches
        by_cases low : k < maxBlocks
        · exact genuine k low touches
        · exact .inl (untouched k (Nat.le_of_not_lt low) (touches_iff.mp touches).2.1)
      · intro e' failed k apart
        exact lower.closed.frame e' failed k fun touches => apart (of_front k touches).2
  | ok done =>
      have rest := upper g
      refine ⟨?_, ?_, ?_⟩
      · intro k touches
        dsimp only
        by_cases low : k < maxBlocks
        · rw [rest.others k (Nat.le_of_lt low) (not_touches_header far touches)
            (lower.present rfl k (to_front k low touches)) fun again => not_touches_back low again]
          exact genuine k low touches
        · rcases touches_back high below apart touches (Nat.le_of_not_lt low) with ⟨equal, again, early⟩ | equal
          · subst equal
            rw [counted, ← back] at again
            obtain ⟨plain, sealed, origins⟩ := rest.first again
            refine .inr ⟨plain, by rw [sealed, sealBlock_congr lower.handle], ?_⟩
            intro i byte entry
            have origin := origins i byte entry
            have long := (List.getElem?_eq_some_iff.mp origin).1
            have start_at : maxBlocks * blockSize = maxBytes := rfl
            rw [Nat.max_eq_right early, List.getElem?_drop] at origin
            rw [start_at] at long origin ⊢
            have moved : count + (maxBytes + i - maxBytes) = maxBytes + i - offset := by omega
            rw [if_pos (by omega), ← moved]
            exact origin
          · subst equal
            left
            rw [rest.second]
            exact untouched _ (by decide) (touches_iff.mp touches).2.1
      · intro k cuts tampered
        by_cases low : k < maxBlocks
        · have cut_front : Cuts offset (bytes.take count).length k := by
            refine ⟨to_front k low cuts.1, fun whole => cuts.2 ⟨whole.1, ?_⟩⟩
            exact Nat.le_trans whole.2 (Nat.add_le_add_left (List.length_take_le' _ _) _)
          obtain ⟨e, failed⟩ := lower.tampered k cut_front tampered
          cases failed
        · rcases touches_back high below apart cuts.1 (Nat.le_of_not_lt low) with ⟨equal, _⟩ | equal
          · subst equal
            exact absurd cuts first
          · subst equal
            exact absurd cuts second
      · intro e failed
        dsimp only at failed
        rw [rest.done] at failed
        cases failed

/-- A write that cuts no block that does not fit, and is refused if it goes on behind them. -/
theorem write_closed (lawful : P.Lawful) (ideal : Ideal P wasSealed f) {offset : Nat}
    (sized : bytes.length < 2 ^ 31)
    (reach : (∃ e, f.pageSizeCheck bytes offset = .error e) ∨ 2 ^ 32 ≤ offset + bytes.length ∨
      refusedFrom ≤ offset ∨ offset + bytes.length ≤ refusedFrom ∧ ¬Cuts offset bytes.length maxBlocks ∧
        ¬Cuts offset bytes.length (maxBlocks + 1)) :
    WriteClosed P wasSealed f draw bytes offset (f.write P draw bytes offset) := by
  by_cases some_bytes : bytes = []
  · subst some_bytes
    exact LoopClosed.closed (.nil f)
  · rw [OpenFile.write, if_neg some_bytes]
    cases checked : f.pageSizeCheck bytes offset with
    | error e => exact .refused f offset e
    | ok _ =>
        dsimp only
        split
        · exact .refused f offset _
        · next fits =>
            have closed : WriteClosed P wasSealed f draw bytes offset
                (f.writeBlocks P draw f.physSize bytes offset) := by
              rcases reach with ⟨e, rejected⟩ | over_end | far | ⟨below, first, second⟩
              · rw [checked] at rejected
                cases rejected
              · exact absurd over_end fits
              · obtain ⟨e, failed⟩ := @writeBlocks_refused P f bytes draw f.physSize offset some_bytes far
                rw [failed]
                exact .refused f offset e
              · by_cases low : offset + bytes.length ≤ maxBytes
                · exact (writeBlocks_closed lawful ideal (.refl f) (Nat.le_refl _)
                    (fun k _ => rfl) low).closed
                · exact writeBlocks_closed_last lawful ideal sized some_bytes (Nat.lt_of_not_le low)
                    below first second
            -- the size that is kept with the handle is not in the file
            rcases result : f.writeBlocks P draw f.physSize bytes offset with ⟨outcome, written⟩
            rw [result] at closed
            cases outcome with
            | error e => exact closed
            | ok done =>
                refine ⟨closed.genuine, closed.tampered, ?_⟩
                intro e failed
                cases failed

end Writing

section Truncating

variable {P : Primitives} {wasSealed : History} {f : OpenFile} {nonce : Vector UInt8 24} {size : Nat}

/-- The last block that is kept, without the offsets. -/
theorem resealTail_eq (low : size / blockSize < maxBlocks) : f.resealTail P nonce size =
    if f.Present (size / blockSize) then
      match f.openBlock P (size / blockSize) (f.stored (size / blockSize)) with
      | none => .error ⟨sqliteIoerr, "AEAD auth failed on truncate reseal"⟩
      | some plain => .ok (f.withBlock P (size / blockSize) nonce
          (overlay plain (size % blockSize) (List.replicate (blockSize - size % blockSize) 0)))
    else .ok f := by
  rw [OpenFile.resealTail]
  dsimp only
  rw [usize_place low, physRead_eq low]
  by_cases present : f.Present (size / blockSize)
  · rw [if_pos ⟨(present_iff low).mpr present, Nat.le_of_eq (length_stored present).symm⟩, if_pos present]
    cases f.openBlock P (size / blockSize) (f.stored (size / blockSize)) with
    | none => rfl
    | some plain =>
        dsimp only
        rw [OpenFile.physWrite, usize_start low]
        rfl
  · rw [if_neg fun both => present ((present_iff low).mp both.1), if_neg present]

/-- The blocks before the new end stay. -/
theorem stored_physTruncate {k : Nat} (low : k < maxBlocks) (present : f.Present k) :
    (f.physTruncate (usize ((k + 1) * physBlock))).stored k = f.stored k := by
  have bound : k < 1038434 := low
  have there : 4096 + (k * 4136 + 4136) ≤ f.bytes.length := present
  have fits : usize ((k + 1) * physBlock) = (k + 1) * physBlock := by
    apply usize_eq
    show (k + 1) * 4136 < 4294967296
    omega
  have fits' : usize (headerOffsetData + (k + 1) * physBlock) = headerOffsetData + (k + 1) * physBlock := by
    apply usize_eq
    show 4096 + (k + 1) * 4136 < 4294967296
    omega
  rw [OpenFile.stored, OpenFile.physTruncate, fits]
  dsimp only
  rw [fits', window_take]
  · apply window_congr
    intro i inside
    have inside' : i < 4136 := inside
    rw [List.getElem?_append_left]
    show 4096 + k * 4136 + i < f.bytes.length
    omega
  · rw [Nat.succ_mul, Nat.add_assoc]

/-- A truncation at a block boundary, or below the blocks that do not fit. -/
theorem truncate_closed (lawful : P.Lawful) (ideal : Ideal P wasSealed f)
    (reach : size % blockSize = 0 ∨ size < maxBytes) :
    TruncateClosed P wasSealed f nonce size (f.truncate P nonce size) := by
  by_cases cut : size % blockSize = 0
  · rw [OpenFile.truncate, if_neg (not_not_intro cut)]
    refine ⟨fun _ inPart => absurd cut inPart, fun inPart => absurd cut inPart, ?_⟩
    intro e failed
    cases failed
  · have low : size / blockSize < maxBlocks := div_lt (reach.resolve_left cut)
    have ends : (size + blockSize - 1) / blockSize = size / blockSize + 1 := by
      have inPart : size % 4096 ≠ 0 := cut
      show (size + 4095) / 4096 = size / 4096 + 1
      omega
    rw [OpenFile.truncate, if_pos cut, resealTail_eq low, ends]
    by_cases present : f.Present (size / blockSize)
    · rw [if_pos present]
      cases opened : f.openBlock P (size / blockSize) (f.stored (size / blockSize)) with
      | none =>
          refine ⟨?_, fun _ _ => ⟨_, rfl⟩, fun _ _ _ => rfl⟩
          intro done
          cases done
      | some plain =>
          refine ⟨?_, ?_, ?_⟩
          · intro _ _ _
            let kept := overlay plain (size % blockSize) (List.replicate (blockSize - size % blockSize) 0)
            let g := f.withBlock P (size / blockSize) nonce kept
            have there : g.Present (size / blockSize) := by
              rw [OpenFile.Present, length_withBlock lawful]
              exact Nat.le_max_right _ _
            refine ⟨kept, (stored_physTruncate low there).trans (stored_withBlock lawful kept), ?_⟩
            intro i byte entry
            have inside : i < blockSize :=
              Nat.lt_of_lt_of_eq (List.getElem?_eq_some_iff.mp entry).1 Vector.length_toList
            have from_chunk := overlay_byte entry
            rw [List.length_replicate] at from_chunk
            by_cases before : i < size % blockSize
            · rw [if_neg (by omega)] at from_chunk
              rw [if_pos before, Genuine, if_pos present]
              exact ⟨plain, ideal _ _ plain opened, from_chunk⟩
            · rw [if_pos (by omega), List.getElem?_replicate, if_pos (by omega)] at from_chunk
              rw [if_neg before]
              exact (Option.some.inj from_chunk).symm
          · intro _ tampered
            rw [tampered.2] at opened
            cases opened
          · intro e failed
            cases failed
    · rw [if_neg present]
      refine ⟨fun _ _ there => absurd there present, fun _ tampered => absurd tampered.1 present, ?_⟩
      intro e failed
      cases failed

end Truncating

section Failing

/-- A cipher that hides nothing and takes one tag. -/
def oneTag : Primitives where
  sha256 _ := Vector.replicate 32 0
  hkdf _ _ := Vector.replicate 32 0
  hmac _ _ := Vector.replicate 32 0
  argon2id _ _ _ _ _ := none
  encrypt _ _ _ buffer := (buffer, Vector.replicate 16 1)
  decrypt _ _ _ buffer tag := if tag = Vector.replicate 16 1 then some buffer else none
  upper c := [c]

theorem oneTag_lawful : oneTag.Lawful := ⟨fun _ _ _ _ => by simp [oneTag], fun _ _ _ _ => rfl⟩

/-- Everything was sealed. -/
def anything : History := fun _ _ _ => True

theorem ideal_anything (P : Primitives) (f : OpenFile) : Ideal P anything f := fun _ _ _ _ => trivial

/-- A file of ones that ends with a block of zeros in the place of block `k`. -/
def OpenFile.hollow (f : OpenFile) (k : Nat) : OpenFile :=
  { f with bytes := List.replicate (headerOffsetData + k * physBlock) 1 ++ List.replicate physBlock 0 }

theorem fieldOf_replicate {n m off : Nat} {byte : UInt8} (inside : off + n ≤ m) :
    fieldOf n (List.replicate m byte) off = Vector.replicate n byte := by
  apply Vector.ext
  intro i below
  rw [fieldOf, Vector.getElem_ofFn, Vector.getElem_replicate, List.getD_eq_getElem?_getD,
    List.getElem?_replicate, if_pos (by omega)]
  rfl

variable {f g : OpenFile} {k j lo phys : Nat} {chunk bytes : List UInt8} {nonce : Vector UInt8 24}
  {draw : Nat → Vector UInt8 24}

theorem openBlock_ones : ∃ plain, f.openBlock oneTag j (List.replicate physBlock 1) = some plain := by
  have tag : fieldOf tagLen (List.replicate physBlock (1 : UInt8)) (blockSize + nonceLen) =
      Vector.replicate tagLen 1 := fieldOf_replicate (by decide)
  rw [OpenFile.openBlock, Primitives.openInto, tag]
  exact ⟨_, rfl⟩

theorem openBlock_zeros : f.openBlock oneTag j (List.replicate physBlock 0) = none := by
  have tag : fieldOf tagLen (List.replicate physBlock (0 : UInt8)) (blockSize + nonceLen) =
      Vector.replicate tagLen 0 := fieldOf_replicate (by decide)
  rw [OpenFile.openBlock, Primitives.openInto, tag]
  rfl

theorem length_hollow : (f.hollow k).bytes.length = headerOffsetData + (k * physBlock + physBlock) := by
  rw [OpenFile.hollow]
  dsimp only
  rw [List.length_append, List.length_replicate, List.length_replicate, Nat.add_assoc]

/-- The last block of the file is there and does not authenticate. -/
theorem hollow_tampered : Tampered oneTag (f.hollow k) k := by
  refine ⟨Nat.le_of_eq length_hollow.symm, ?_⟩
  have zeros : (f.hollow k).stored k = List.replicate physBlock 0 := by
    rw [OpenFile.stored, OpenFile.hollow, window, List.drop_left' List.length_replicate,
      List.take_of_length_le (Nat.le_of_eq List.length_replicate)]
  rw [zeros]
  exact openBlock_zeros

/-- Everything before it opens, in the right place or not. -/
theorem window_hollow {pos : Nat} (before : pos + physBlock ≤ headerOffsetData + k * physBlock) :
    window (f.hollow k).bytes pos physBlock = List.replicate physBlock 1 := by
  apply List.ext_getElem?
  intro i
  rw [getElem?_window, OpenFile.hollow, List.getElem?_replicate]
  dsimp only
  split
  · next inside =>
      rw [List.getElem?_append_left (by rw [List.length_replicate]; omega), List.getElem?_replicate,
        if_pos (by omega)]
  · rfl

/-- What the code looks at where it looks for block `j`. -/
def Blind (g : OpenFile) (phys j : Nat) : Prop :=
  ¬usize (j * physBlock + physBlock) ≤ phys ∨
    g.physRead physBlock (j * physBlock) = List.replicate physBlock 1

theorem fits_usize (low : j < 1038436) : ¬2 ^ 32 ≤ j * physBlock := by
  show ¬4294967296 ≤ j * 4136
  omega

theorem readBlock_blind (low : j < 1038436) (blind : Blind g g.physSize j) :
    ∃ blk, g.readBlock oneTag j = .ok blk := by
  rw [OpenFile.readBlock]
  dsimp only
  rw [if_neg (fits_usize low)]
  rcases blind with absent | ones
  · rw [if_neg absent]
    exact ⟨none, rfl⟩
  · obtain ⟨plain, opened⟩ := @openBlock_ones g j
    rw [ones, opened, List.length_replicate, if_neg (Nat.lt_irrefl _)]
    split
    · exact ⟨some plain, rfl⟩
    · exact ⟨none, rfl⟩

theorem overlaid_blind (blind : Blind g phys j) :
    ∃ plain, g.overlaid oneTag phys j lo chunk = .ok plain := by
  rw [OpenFile.overlaid]
  dsimp only
  split
  · exact ⟨_, rfl⟩
  · rcases blind with absent | ones
    · rw [if_neg absent]
      exact ⟨_, rfl⟩
    · obtain ⟨plain, opened⟩ := @openBlock_ones g j
      rw [ones, opened, List.length_replicate, if_neg (Nat.lt_irrefl _)]
      split
      · exact ⟨_, rfl⟩
      · exact ⟨_, rfl⟩

theorem physSize_lt (f : OpenFile) : f.physSize < 4294967160 := by
  show min f.bytes.length 4294967295 - 4096 < 4294967160
  omega

theorem usize_end : usize (maxBlocks * physBlock + physBlock) = 4294967160 := Nat.mod_eq_of_lt (by decide)

/-- No size tells that the first block that does not fit is there. -/
theorem blind_first (g h : OpenFile) : Blind g h.physSize maxBlocks := by
  refine .inl fun there => ?_
  rw [usize_end] at there
  exact absurd there (Nat.not_le_of_lt (physSize_lt h))

/-- The next one is looked for at the end of the header. -/
theorem physRead_second : g.physRead physBlock ((maxBlocks + 1) * physBlock) = window g.bytes 3960 physBlock := by
  rw [OpenFile.physRead, usize_wrapped]

theorem blind_hollow (high : maxBlocks ≤ k) (low : j < 1038436) :
    Blind (f.hollow k) (f.hollow k).physSize j := by
  have bound : 1038434 ≤ k := high
  rcases Nat.lt_trichotomy j maxBlocks with less | equal | more
  · right
    rw [physRead_eq less]
    apply window_hollow
    have less' : j < 1038434 := less
    show 4096 + j * 4136 + 4136 ≤ 4096 + k * 4136
    omega
  · subst equal
    exact blind_first _ _
  · have second : j = maxBlocks + 1 := Nat.le_antisymm (Nat.le_of_lt_succ low) more
    right
    rw [second, physRead_second]
    apply window_hollow
    show 3960 + 4136 ≤ 4096 + k * 4136
    omega

theorem readBlocks_found {P : Primitives} {len offset : Nat}
    (found : ∀ j, Touches offset len j → ∃ blk, g.readBlock P j = .ok blk) :
    ∃ result, g.readBlocks P len offset = .ok result := by
  induction len using Nat.strongRecOn generalizing offset with
  | ind len ih =>
      rw [OpenFile.readBlocks]
      by_cases more : len ≠ 0
      · have room : offset % blockSize < blockSize := Nat.mod_lt _ (by decide)
        rw [dif_pos more]
        dsimp only
        generalize taken : min (blockSize - offset % blockSize) len = n
        obtain ⟨blk, here⟩ := found (offset / blockSize) ⟨0, Nat.pos_of_ne_zero more, rfl⟩
        obtain ⟨rest, later⟩ := @ih (len - n) (by omega) (offset + n) fun j touches => by
          obtain ⟨i, inside, place⟩ := touches
          exact found j ⟨n + i, by omega, by rw [← place, Nat.add_assoc]⟩
        rw [here]
        show ∃ result, (g.readBlocks P (len - n) (offset + n) >>= _) = .ok result
        rw [later]
        exact ⟨_, rfl⟩
      · rw [dif_neg more]
        exact ⟨_, rfl⟩

/-- A tampered block that does not fit is read as something else. -/
theorem not_readClosed {len offset : Nat} (below : offset + len ≤ refusedFrom) (high : maxBlocks ≤ k)
    (touches : Touches offset len k) :
    ¬ReadClosed oneTag anything (f.hollow k) len offset ((f.hollow k).read oneTag len offset) := by
  intro closed
  obtain ⟨e, failed⟩ := closed.tampered k touches hollow_tampered
  obtain ⟨result, loop⟩ := @readBlocks_found (f.hollow k) oneTag len offset fun j touched => by
    have to_end := (touches_iff.mp touched).2.2
    apply readBlock_blind _ (blind_hollow high _) <;>
    · have stop : j * 4096 < 1038436 * 4096 := Nat.lt_of_lt_of_le to_end below
      omega
  have small : ¬2 ^ 32 ≤ offset + len := by
    have stop : offset + len ≤ 4253433856 := below
    omega
  rw [OpenFile.read, if_neg (touches_iff.mp touches).1, if_neg small, loop] at failed
  cases failed

theorem wrapped_place (more : 1038436 ≤ k) (last : k ≤ 1048575) :
    usize (k * physBlock) = k * 4136 - 4294967296 := by
  show k * 4136 % 4294967296 = k * 4136 - 4294967296
  omega

theorem resealTail_blind {size : Nat}
    (blind : ¬usize (usize (size / blockSize * physBlock) + physBlock) ≤ g.physSize ∨
      g.physRead physBlock (usize (size / blockSize * physBlock)) = List.replicate physBlock 1) :
    ∃ kept, g.resealTail oneTag nonce size = .ok kept := by
  rw [OpenFile.resealTail]
  dsimp only
  rcases blind with absent | ones
  · rw [if_neg fun both => absent both.1]
    exact ⟨_, rfl⟩
  · obtain ⟨plain, opened⟩ := @openBlock_ones g (size / blockSize)
    rw [ones, opened]
    split
    · exact ⟨_, rfl⟩
    · exact ⟨_, rfl⟩

/-- A tampered block that does not fit is cut, and what is looked at is another place. -/
theorem not_truncateClosed {size : Nat} (inPart : size % blockSize ≠ 0) (high : maxBytes ≤ size)
    (small : size < 2 ^ 32) : ¬TruncateClosed oneTag anything (f.hollow (size / blockSize)) nonce size
      ((f.hollow (size / blockSize)).truncate oneTag nonce size) := by
  intro closed
  obtain ⟨e, failed⟩ := closed.tampered inPart hollow_tampered
  have first : 1038434 ≤ size / blockSize := by
    have from_start : 4253425664 ≤ size := high
    show 1038434 ≤ size / 4096
    omega
  have last : size / blockSize ≤ 1048575 := by
    show size / 4096 ≤ 1048575
    omega
  obtain ⟨kept, resealed⟩ : ∃ kept, (f.hollow (size / blockSize)).resealTail oneTag nonce size = .ok kept := by
    apply resealTail_blind
    generalize size / blockSize = k at *
    rcases Nat.eq_or_lt_of_le first with equal | more
    · subst equal
      left
      have place : usize (1038434 * physBlock) = maxBlocks * physBlock := usize_eq (by decide)
      rw [place, usize_end]
      exact Nat.not_le_of_lt (physSize_lt _)
    · right
      rcases Nat.eq_or_lt_of_le more with equal | far
      · rw [← equal]
        have place : usize ((maxBlocks + 1) * physBlock) = (maxBlocks + 1) * physBlock := usize_eq (by decide)
        show OpenFile.physRead _ _ (usize ((maxBlocks + 1) * physBlock)) = _
        rw [place, physRead_second]
        exact window_hollow (by decide)
      · have place : usize (k * physBlock) = k * 4136 - 4294967296 := wrapped_place far last
        rw [place, OpenFile.physRead, usize_eq]
        · apply window_hollow
          show 4096 + (k * 4136 - 4294967296) + 4136 ≤ 4096 + k * 4136
          omega
        · show 4096 + (k * 4136 - 4294967296) < 4294967296
          omega
  rw [OpenFile.truncate, if_pos inPart, resealed] at failed
  cases failed

/-- The blocks that do not fit are looked for where the file does not change. -/
theorem blind_late {h : OpenFile} (ones : window g.bytes 3960 physBlock = List.replicate physBlock 1)
    (high : maxBlocks ≤ j) (low : j ≤ maxBlocks + 1) : Blind g h.physSize j := by
  rcases Nat.eq_or_lt_of_le high with equal | more
  · subst equal
    exact blind_first g h
  · have second : j = maxBlocks + 1 := Nat.le_antisymm low more
    right
    rw [second, physRead_second]
    exact ones

theorem window_physWrite_far {buf : List UInt8} (far : 2 ≤ k) (low : k ≤ maxBlocks)
    (ones : window g.bytes 3960 physBlock = List.replicate physBlock 1) :
    window (g.physWrite buf (k * physBlock)).bytes 3960 physBlock = window g.bytes 3960 physBlock := by
  have long := congrArg List.length ones
  rw [length_window, List.length_replicate] at long
  have long' : min 4136 (g.bytes.length - 3960) = 4136 := long
  have fits : usize (headerOffsetData + k * physBlock) = headerOffsetData + k * physBlock := by
    apply usize_eq
    have bound : k ≤ 1038434 := low
    show 4096 + k * 4136 < 4294967296
    omega
  rw [OpenFile.physWrite, fits]
  apply window_put_apart
  right
  constructor
  · show 3960 + 4136 ≤ 4096 + k * 4136
    clear fits
    omega
  · show 3960 + 4136 ≤ g.bytes.length
    omega

/-- A write up to a block that does not fit authenticates nothing that it keeps of it. -/
theorem writeBlocks_blind {h : OpenFile} {offset : Nat}
    (ones : window g.bytes 3960 physBlock = List.replicate physBlock 1) (far : 2 ≤ offset / blockSize)
    (first : offset % blockSize = 0 ∨ Blind g h.physSize (offset / blockSize))
    (last : bytes ≠ [] → maxBytes < offset + bytes.length) (below : offset + bytes.length ≤ refusedFrom) :
    ∃ written, g.writeBlocks oneTag draw h.physSize bytes offset = (.ok (), written) := by
  induction length : bytes.length using Nat.strongRecOn generalizing bytes g offset with
  | ind len ih =>
      rw [OpenFile.writeBlocks]
      by_cases more : bytes ≠ []
      · have positive := List.length_pos_iff.mpr more
        have beyond : 4253425664 < offset + bytes.length := last more
        have stop : offset + bytes.length ≤ 4253433856 := below
        have far' : 2 ≤ offset / 4096 := far
        have taken : (bytes.take (blockSize - offset % blockSize)).length =
            min (4096 - offset % 4096) bytes.length := List.length_take
        have dropped : (bytes.drop (blockSize - offset % blockSize)).length =
            bytes.length - (4096 - offset % 4096) := List.length_drop
        have overlaid : ∃ plain, g.overlaid oneTag h.physSize (offset / blockSize) (offset % blockSize)
            (bytes.take (blockSize - offset % blockSize)) = .ok plain := by
          by_cases whole : (bytes.take (blockSize - offset % blockSize)).length = blockSize
          · rw [OpenFile.overlaid, if_pos whole]
            exact ⟨_, rfl⟩
          · apply overlaid_blind
            rcases first with aligned | blind
            · have inPart : (bytes.take (blockSize - offset % blockSize)).length ≠ 4096 := whole
              have aligned' : offset % 4096 = 0 := aligned
              apply blind_late ones
              · show 1038434 ≤ offset / 4096
                omega
              · show offset / 4096 ≤ 1038435
                omega
            · exact blind
        obtain ⟨plain, sealing⟩ := overlaid
        have fits : ¬2 ^ 32 ≤ offset / blockSize * physBlock := by
          show ¬4294967296 ≤ offset / 4096 * 4136
          omega
        rw [dif_pos more]
        dsimp only
        rw [OpenFile.writeBlock, if_neg fits, sealing]
        show ∃ written, OpenFile.writeBlocks oneTag draw h.physSize (g.physWrite _ _) _ _ = (.ok (), written)
        by_cases left : bytes.drop (blockSize - offset % blockSize) = []
        · rw [left, OpenFile.writeBlocks, dif_neg (not_not_intro rfl)]
          exact ⟨_, rfl⟩
        · have left_over := List.length_pos_iff.mpr left
          have low : offset / blockSize ≤ maxBlocks := by
            show offset / 4096 ≤ 1038434
            omega
          have next : offset + (bytes.take (blockSize - offset % blockSize)).length =
              (offset / blockSize + 1) * blockSize := by
            show _ = (offset / 4096 + 1) * 4096
            omega
          rw [next]
          apply ih (bytes.drop (blockSize - offset % blockSize)).length (by omega)
            ((window_physWrite_far far low ones).trans ones)
          · rw [Nat.mul_div_cancel _ (by decide : 0 < blockSize)]
            exact Nat.le_succ_of_le far
          · exact .inl (Nat.mul_mod_left _ _)
          · intro _
            show 4253425664 < (offset / 4096 + 1) * 4096 + (bytes.drop (blockSize - offset % blockSize)).length
            omega
          · show (offset / 4096 + 1) * 4096 + (bytes.drop (blockSize - offset % blockSize)).length ≤ 4253433856
            omega
          · rfl
      · rw [dif_neg more]
        exact ⟨_, rfl⟩

/-- A tampered block that does not fit is written over in part. -/
theorem not_writeClosed_cut {offset : Nat} (checked : f.pageSizeCheck bytes offset = .ok ())
    (far : 2 ≤ offset / blockSize) (below : offset + bytes.length ≤ refusedFrom) (high : maxBlocks ≤ k)
    (cuts : Cuts offset bytes.length k) : ¬WriteClosed oneTag anything (f.hollow k) draw bytes offset
      ((f.hollow k).write oneTag draw bytes offset) := by
  intro closed
  obtain ⟨e, failed⟩ := closed.tampered k cuts hollow_tampered
  obtain ⟨more, from_start, to_end⟩ := touches_iff.mp cuts.1
  have some_bytes : bytes ≠ [] := by
    rintro rfl
    exact more rfl
  have stop : offset + bytes.length ≤ 4253433856 := below
  have small : ¬2 ^ 32 ≤ offset + bytes.length := by omega
  have start_low : offset / blockSize < 1038436 := by
    have positive := List.length_pos_iff.mpr some_bytes
    show offset / 4096 < 1038436
    omega
  obtain ⟨written, loop⟩ := @writeBlocks_blind (f.hollow k) bytes draw (f.hollow k) offset
    (window_hollow (by
      have bound : 1038434 ≤ k := high
      show 3960 + 4136 ≤ 4096 + k * 4136
      omega)) far (.inr (blind_hollow high start_low)) (fun _ => by
      exact Nat.lt_of_le_of_lt (Nat.mul_le_mul_right _ high) to_end) below
  have passes : (f.hollow k).pageSizeCheck bytes offset = .ok () := checked
  rw [OpenFile.write, if_neg some_bytes, passes] at failed
  dsimp only at failed
  rw [if_neg small, loop] at failed
  cases failed

theorem writeBlock_ok {P : Primitives} {next : OpenFile}
    (wrote : g.writeBlock P nonce phys k lo chunk = .ok next) :
    ∃ plain, g.physWrite (g.sealBlock P k nonce plain) (k * physBlock) = next := by
  rw [OpenFile.writeBlock] at wrote
  split at wrote
  · cases wrote
  · cases sealing : g.overlaid P phys k lo chunk with
    | error e =>
        rw [sealing] at wrote
        cases wrote
    | ok plain =>
        rw [sealing] at wrote
        exact ⟨plain, Except.ok.inj wrote⟩

/-- The loop never shortens the file. -/
theorem writeBlocks_longer (P : Primitives) (phys : Nat) (offset : Nat) :
    g.bytes.length ≤ (g.writeBlocks P draw phys bytes offset).2.bytes.length := by
  induction length : bytes.length using Nat.strongRecOn generalizing bytes g offset with
  | ind len ih =>
      rw [OpenFile.writeBlocks]
      by_cases more : bytes ≠ []
      · have positive := List.length_pos_iff.mpr more
        have room : offset % blockSize < blockSize := Nat.mod_lt _ (by decide)
        have dropped : (bytes.drop (blockSize - offset % blockSize)).length =
            bytes.length - (blockSize - offset % blockSize) := List.length_drop
        rw [dif_pos more]
        dsimp only
        cases wrote : g.writeBlock P (draw (offset / blockSize)) phys (offset / blockSize)
            (offset % blockSize) (bytes.take (blockSize - offset % blockSize)) with
        | error e => exact Nat.le_refl _
        | ok next =>
            have rest := @ih (bytes.drop (blockSize - offset % blockSize)).length (by omega) next
              (bytes.drop (blockSize - offset % blockSize))
              (offset + (bytes.take (blockSize - offset % blockSize)).length) rfl
            obtain ⟨plain, rfl⟩ := writeBlock_ok wrote
            refine Nat.le_trans ?_ rest
            rw [OpenFile.physWrite]
            dsimp only
            rw [length_put]
            exact Nat.le_max_left _ _
      · rw [dif_neg more]

/-- A range that reaches so far is not written to its end. -/
theorem writeBlocks_fails (P : Primitives) (phys : Nat) {offset : Nat} (more : bytes ≠ [])
    (high : refusedFrom < offset + bytes.length) :
    ∃ e, (g.writeBlocks P draw phys bytes offset).1 = .error e := by
  induction length : bytes.length using Nat.strongRecOn generalizing bytes g offset with
  | ind len ih =>
      have positive := List.length_pos_iff.mpr more
      have room : offset % blockSize < blockSize := Nat.mod_lt _ (by decide)
      have taken : (bytes.take (blockSize - offset % blockSize)).length =
          min (4096 - offset % 4096) bytes.length := List.length_take
      have dropped : (bytes.drop (blockSize - offset % blockSize)).length =
          bytes.length - (4096 - offset % 4096) := List.length_drop
      have beyond : 1038436 * 4096 < offset + bytes.length := high
      rw [OpenFile.writeBlocks, dif_pos more]
      dsimp only
      cases wrote : g.writeBlock P (draw (offset / blockSize)) phys (offset / blockSize)
          (offset % blockSize) (bytes.take (blockSize - offset % blockSize)) with
      | error e => exact ⟨e, rfl⟩
      | ok next =>
          have low : ¬1038436 ≤ offset / blockSize := by
            intro far
            rw [writeBlock_refused far] at wrote
            cases wrote
          have low' : ¬1038436 ≤ offset / 4096 := low
          apply ih (bytes.drop (blockSize - offset % blockSize)).length (by omega) _ _ rfl
          · apply List.length_pos_iff.mp
            omega
          · show 1038436 * 4096 < offset + (bytes.take (blockSize - offset % blockSize)).length +
              (bytes.drop (blockSize - offset % blockSize)).length
            omega

/-- `f` with nothing stored. -/
def OpenFile.blank (f : OpenFile) : OpenFile := { f with bytes := [] }

theorem usize_stop_ne (low : k < 1038436) : usize (k * physBlock + physBlock) ≠ 0 := by
  show (k * 4136 + 4136) % 4294967296 ≠ 0
  omega

theorem blind_blank (low : k < 1038436) : Blind f.blank f.blank.physSize k := by
  refine .inl fun there => ?_
  have nothing : f.blank.physSize = 0 := by
    show min 0 (2 ^ 32 - 1) - 4096 = 0
    omega
  rw [nothing] at there
  exact usize_stop_ne low (Nat.eq_zero_of_le_zero there)

theorem wrapped_end (low : k < 1038436) : 8096 ≤ usize (headerOffsetData + k * physBlock) + physBlock := by
  show 8096 ≤ (4096 + k * 4136) % 4294967296 + 4136
  rcases Nat.lt_or_eq_of_le (Nat.le_of_lt_succ low) with less | equal
  · rw [Nat.mod_eq_of_lt (by omega)]
    omega
  · subst equal
    decide

/-- A write that goes on behind the blocks that do not fit fails, with the first block of the file
written over before. -/
theorem not_writeClosed_long {offset : Nat} (checked : f.pageSizeCheck bytes offset = .ok ())
    (far : 1 ≤ offset / blockSize) (start_low : offset < refusedFrom) (high : refusedFrom < offset + bytes.length)
    (small : offset + bytes.length < 2 ^ 32) : ¬WriteClosed oneTag anything f.blank draw bytes offset
      (f.blank.write oneTag draw bytes offset) := by
  intro closed
  have some_bytes : bytes ≠ [] := by
    rintro rfl
    exact absurd (Nat.lt_trans start_low high) (Nat.lt_irrefl _)
  have passes : f.blank.pageSizeCheck bytes offset = .ok () := checked
  have low : offset / blockSize < 1038436 := by
    have stop : offset < 1038436 * 4096 := start_low
    show offset / 4096 < 1038436
    omega
  have same : f.blank.write oneTag draw bytes offset =
      ((f.blank.writeBlocks oneTag draw f.blank.physSize bytes offset).1,
        (f.blank.writeBlocks oneTag draw f.blank.physSize bytes offset).2) := by
    obtain ⟨e, failed⟩ := @writeBlocks_fails f.blank bytes draw oneTag f.blank.physSize offset some_bytes high
    rw [OpenFile.write, if_neg some_bytes, passes]
    dsimp only
    rw [if_neg (Nat.not_le_of_lt small)]
    rcases result : f.blank.writeBlocks oneTag draw f.blank.physSize bytes offset with ⟨outcome, written⟩
    rw [result] at failed
    cases failed
    rfl
  have long : 8096 ≤ (f.blank.writeBlocks oneTag draw f.blank.physSize bytes offset).2.bytes.length := by
    obtain ⟨plain, sealing⟩ := @overlaid_blind f.blank (offset / blockSize) (offset % blockSize)
      f.blank.physSize (bytes.take (blockSize - offset % blockSize)) (blind_blank low)
    rw [OpenFile.writeBlocks, dif_pos some_bytes]
    dsimp only
    rw [OpenFile.writeBlock, if_neg (fits_usize low), sealing]
    refine Nat.le_trans ?_ (writeBlocks_longer oneTag _ _)
    rw [OpenFile.physWrite]
    dsimp only
    rw [length_put, length_sealBlock oneTag_lawful]
    exact Nat.le_trans (wrapped_end low) (Nat.le_max_right _ _)
  obtain ⟨e, failed⟩ := @writeBlocks_fails f.blank bytes draw oneTag f.blank.physSize offset some_bytes high
  have kept := closed.frame e (by rw [same]; exact failed) 0 fun touches => by
    have from_start := (touches_iff.mp touches).2.1
    omega
  rw [same] at kept
  have lengths := congrArg List.length kept
  rw [OpenFile.stored, length_window, OpenFile.stored, length_window] at lengths
  have lengths' : min 4136 ((f.blank.writeBlocks oneTag draw f.blank.physSize bytes offset).2.bytes.length - 4096) =
    min 4136 (0 - 4096) := lengths
  omega

end Failing

/-- An operation of the device. -/
inductive Op where
  | read (len offset : Nat)
  | write (bytes : List UInt8) (offset : Nat)
  | truncate (size : Nat)

namespace Op

/-- Offsets are of type `usize`, and a buffer takes at most half of the address space. -/
def Sized : Op → Prop
  | .read len offset => len < 2 ^ 31 ∧ offset < 2 ^ 32
  | .write bytes offset => bytes.length < 2 ^ 31 ∧ offset < 2 ^ 32
  | .truncate size => size < 2 ^ 32

/-- The operation does what it may on the bytes of `f`, whatever nonces it draws. -/
def Closed (P : Primitives) (wasSealed : History) (f : OpenFile) : Op → Prop
  | .read len offset => ReadClosed P wasSealed f len offset (f.read P len offset)
  | .write bytes offset => ∀ draw, WriteClosed P wasSealed f draw bytes offset (f.write P draw bytes offset)
  | .truncate size => ∀ nonce, TruncateClosed P wasSealed f nonce size (f.truncate P nonce size)

/-- It does so on any bytes. -/
def FailsClosed (f : OpenFile) (op : Op) : Prop :=
  ∀ (P : Primitives) (wasSealed : History) (content : List UInt8), P.Lawful →
    Ideal P wasSealed { f with bytes := content } → op.Closed P wasSealed { f with bytes := content }

/-- Of the two blocks before the refused ones nothing is read, and neither is written or cut in part. -/
def Fits (f : OpenFile) : Op → Prop
  | .read len offset =>
      refusedFrom < offset + len ∨ ¬Touches offset len maxBlocks ∧ ¬Touches offset len (maxBlocks + 1)
  | .write bytes offset =>
      (∃ e, f.pageSizeCheck bytes offset = .error e) ∨ 2 ^ 32 ≤ offset + bytes.length ∨ refusedFrom ≤ offset ∨
        offset + bytes.length ≤ refusedFrom ∧ ¬Cuts offset bytes.length maxBlocks ∧
          ¬Cuts offset bytes.length (maxBlocks + 1)
  | .truncate size => size % blockSize = 0 ∨ size < maxBytes

end Op

section Ranges

variable {offset len : Nat}

/-- A range that ends at or before the refused blocks ends in one of the two before them, or below. -/
theorem touches_last (more : len ≠ 0) (high : maxBytes < offset + len) (below : offset + len ≤ refusedFrom) :
    Touches offset len maxBlocks ∨ Touches offset len (maxBlocks + 1) := by
  have beyond : 4253425664 < offset + len := high
  have stop : offset + len ≤ 4253433856 := below
  rw [touches_iff, touches_iff]
  show len ≠ 0 ∧ offset / 4096 ≤ 1038434 ∧ 4253425664 < offset + len ∨
    len ≠ 0 ∧ offset / 4096 ≤ 1038435 ∧ 4253429760 < offset + len
  omega

theorem far_of_touches {k : Nat} (sized : len < 2 ^ 31) (high : maxBlocks ≤ k) (touches : Touches offset len k) :
    2 ≤ offset / blockSize := by
  have to_end : k * 4096 < offset + len := (touches_iff.mp touches).2.2
  have bound : 1038434 ≤ k := high
  show 2 ≤ offset / 4096
  omega

end Ranges

/-- Which operations fail closed on every content of a file. -/
theorem fails_closed_iff (f : OpenFile) (op : Op) (sized : op.Sized) : op.FailsClosed f ↔ op.Fits f := by
  constructor
  · intro closed
    cases op with
    | read len offset =>
        by_contra outside
        rw [Op.Fits, not_or, not_and_or, not_not, not_not] at outside
        obtain ⟨below, touches | touches⟩ := outside
        · exact not_readClosed (Nat.le_of_not_lt below) (Nat.le_refl _) touches
            (closed oneTag anything (f.hollow maxBlocks).bytes oneTag_lawful (ideal_anything _ _))
        · exact not_readClosed (Nat.le_of_not_lt below) (Nat.le_succ _) touches
            (closed oneTag anything (f.hollow (maxBlocks + 1)).bytes oneTag_lawful (ideal_anything _ _))
    | write bytes offset =>
        by_contra outside
        rw [Op.Fits, not_or, not_or, not_or] at outside
        obtain ⟨accepted, small, start_low, cut⟩ := outside
        have checked : f.pageSizeCheck bytes offset = .ok () := by
          cases checked : f.pageSizeCheck bytes offset with
          | error e => exact absurd ⟨e, checked⟩ accepted
          | ok _ => rfl
        have draw : Nat → Vector UInt8 24 := fun _ => Vector.replicate 24 0
        by_cases below : offset + bytes.length ≤ refusedFrom
        · rw [not_and, not_and_or, not_not, not_not] at cut
          rcases cut below with cuts | cuts
          · exact not_writeClosed_cut checked (far_of_touches sized.1 (Nat.le_refl _) cuts.1) below (Nat.le_refl _) cuts
              (closed oneTag anything (f.hollow maxBlocks).bytes oneTag_lawful (ideal_anything _ _) draw)
          · exact not_writeClosed_cut checked (far_of_touches sized.1 (Nat.le_succ _) cuts.1) below (Nat.le_succ _) cuts
              (closed oneTag anything (f.hollow (maxBlocks + 1)).bytes oneTag_lawful (ideal_anything _ _) draw)
        · have far : 1 ≤ offset / blockSize := by
            have beyond : 4253433856 < offset + bytes.length := Nat.lt_of_not_le below
            have few : bytes.length < 2 ^ 31 := sized.1
            show 1 ≤ offset / 4096
            omega
          exact not_writeClosed_long checked far (Nat.lt_of_not_le start_low) (Nat.lt_of_not_le below)
            (Nat.lt_of_not_le small) (closed oneTag anything [] oneTag_lawful (ideal_anything _ _) draw)
    | truncate size =>
        by_contra outside
        rw [Op.Fits, not_or] at outside
        exact not_truncateClosed outside.1 (Nat.le_of_not_lt outside.2) sized
          (closed oneTag anything (f.hollow (size / blockSize)).bytes oneTag_lawful (ideal_anything _ _)
            (Vector.replicate 24 0))
  · intro fits P wasSealed content lawful ideal
    cases op with
    | read len offset =>
        apply read_closed ideal
        by_cases more : len = 0
        · exact .inl more
        · rcases fits with refused | ⟨first, second⟩
          · exact .inr (.inr refused)
          · by_cases below : offset + len ≤ refusedFrom
            · refine .inr (.inl (Nat.le_of_not_lt fun high => ?_))
              exact (touches_last more high below).elim first second
            · exact .inr (.inr (Nat.lt_of_not_le below))
    | write bytes offset => exact fun draw => write_closed lawful ideal sized.1 fits
    | truncate size => exact fun nonce => truncate_closed lawful ideal fits

namespace DeviceSample

theorem fails_closed_truncate : (Op.truncate 5).FailsClosed fresh :=
  (fails_closed_iff fresh (.truncate 5) (by decide : 5 < 2 ^ 32)).mpr (.inr (by decide))

theorem readBlocks_zero (P : Primitives) (f : OpenFile) (offset : Nat) :
    f.readBlocks P 0 offset = .ok ([], false) := by
  rw [OpenFile.readBlocks, dif_neg (not_not_intro rfl)]

/-- Block 1038434 is there and does not authenticate; reading it gives zeros and a short read. -/
theorem tampered_page_read_short : Tampered oneTag (fresh.hollow maxBlocks) maxBlocks ∧
    (fresh.hollow maxBlocks).read oneTag blockSize maxBytes = .ok (List.replicate blockSize 0, false) ∧
      ¬(Op.read blockSize maxBytes).FailsClosed fresh := by
  have whole : 0 < blockSize := by decide
  have absent : (fresh.hollow maxBlocks).readBlock oneTag maxBlocks = .ok none := by
    rw [OpenFile.readBlock]
    dsimp only
    rw [if_neg (fits_usize (by decide)), usize_end, if_neg (Nat.not_le_of_lt (physSize_lt _))]
  have loop : (fresh.hollow maxBlocks).readBlocks oneTag blockSize maxBytes =
      .ok (List.replicate blockSize 0, true) := by
    rw [OpenFile.readBlocks, dif_pos (by decide)]
    dsimp only
    rw [Nat.mul_div_cancel _ whole, Nat.mul_mod_left, Nat.sub_zero, Nat.min_self, Nat.sub_self, absent]
    have rest := readBlocks_zero oneTag (fresh.hollow maxBlocks) (maxBytes + blockSize)
    generalize (fresh.hollow maxBlocks).readBlocks oneTag 0 (maxBytes + blockSize) = tail at rest ⊢
    subst rest
    have blank : ((zeroBlock.toList.drop 0).take blockSize ++ []) = List.replicate blockSize 0 := by
      rw [List.append_nil, List.drop_zero, zeroBlock, Vector.toList_replicate,
        List.take_of_length_le (Nat.le_of_eq List.length_replicate)]
    exact congrArg (fun bytes => Except.ok (bytes, true)) blank
  have read : (fresh.hollow maxBlocks).read oneTag blockSize maxBytes =
      .ok (List.replicate blockSize 0, false) := by
    rw [OpenFile.read, if_neg (by decide), if_neg (by decide), loop]
    rfl
  refine ⟨hollow_tampered, read, fun closed => ?_⟩
  have now : ReadClosed oneTag anything (fresh.hollow maxBlocks) blockSize maxBytes
      ((fresh.hollow maxBlocks).read oneTag blockSize maxBytes) :=
    closed oneTag anything (fresh.hollow maxBlocks).bytes oneTag_lawful (ideal_anything _ _)
  obtain ⟨e, failed⟩ := now.tampered maxBlocks (touches_iff.mpr ⟨by decide, by decide, by decide⟩) hollow_tampered
  rw [read] at failed
  cases failed

end DeviceSample

end Freehold.BlockDevice
