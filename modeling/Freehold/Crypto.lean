import Freehold.Lib.Aead
import Mathlib.Data.UInt

set_option autoImplicit false

namespace Freehold

/-- `B`: the plaintext block size, equal to the SQLite page size. -/
abbrev blockSize : Nat := 4096
abbrev nonceLen : Nat := 24
abbrev tagLen : Nat := 16
/-- `P = B + Nn + 16`: the block size on disk. -/
abbrev physBlock : Nat := blockSize + nonceLen + tagLen

theorem physBlock_pos : 0 < physBlock := by decide

instance : NeZero physBlock := ⟨Nat.ne_of_gt physBlock_pos⟩

abbrev Dek := BitVec 256
abbrev Uuid := BitVec 128

/-- The VFS file name, as its characters. -/
abbrev FileName := List Char

instance : LawfulBEq FileName := inferInstance

/-- `file_id_for`: the leading bytes of the hash of the path, taken as collision free. -/
structure FileId where
  path : FileName
  deriving DecidableEq, Repr

def fileIdFor (path : FileName) : FileId := ⟨path⟩

/-- `NO_DOMAIN`: files with no owning database, and the anchor. -/
def noDomain : Uuid := 0

/-- The subkeys HKDF derives from a DEK, one constructor per `info` label. -/
inductive Key where
  | poolKey (dek : Dek)
  | dbKey (dek : Dek) (dbUuid : Uuid)
  | anchorKey (dek : Dek)
  | epochKey (dek : Dek)
  | syncKey (dek : Dek)
  | rotateIntentKey (dek : Dek)
  | trustSealKey (dek : Dek)
  deriving DecidableEq, Repr

/-- Associated data: the position of a block, the slot of the anchor, or the
constant of a blob format. -/
inductive Aad where
  | block (fileId : FileId) (keyDomain : Uuid) (blockIndex : Nat)
  | anchor (slot : Nat)
  | epoch
  | trustSeed
  | syncBlob
  | rotateIntent
  deriving DecidableEq, Repr

/-- What is stored of a plaintext of type `β` sealed by the crypto core. -/
abbrev SealedBytes (β : Type) := Aead.Sealed Key Aad β

/-- One plaintext block of a database or satellite file. -/
abbrev Block := Vector UInt8 blockSize

/-- `P` bytes on disk: a sealed block, or bytes that do not authenticate. -/
abbrev Cell := SealedBytes Block

/-- A full-state root. The hash is taken as collision free, so a root is what was
hashed; `zero` is `ZERO_ROOT`. -/
inductive Root where
  | zero
  | of (leaves : List (Nat × Block)) (count : Nat)
  deriving DecidableEq

/-- The incremental accumulator of a root. -/
structure FullStateRoot where
  leaves : List (Nat × Block)
  count : Nat

namespace FullStateRoot

def new : FullStateRoot := ⟨[], 0⟩

def updateBlock (root : FullStateRoot) (blockIndex : Nat) (plaintext : Block) : FullStateRoot :=
  ⟨root.leaves ++ [(blockIndex, plaintext)], root.count + 1⟩

def finish (root : FullStateRoot) : Root := .of root.leaves root.count

end FullStateRoot

/-- The root over the blocks of an image in index order. -/
def rootOf (image : List Block) : Root :=
  (image.zipIdx.foldl (fun root entry => root.updateBlock entry.2 entry.1) FullStateRoot.new).finish

theorem foldl_updateBlock (entries : List (Block × Nat)) (root : FullStateRoot) :
    entries.foldl (fun root entry => root.updateBlock entry.2 entry.1) root =
      ⟨root.leaves ++ entries.map Prod.swap, root.count + entries.length⟩ := by
  induction entries generalizing root with
  | nil => simp
  | cons entry rest ih =>
      cases entry
      rw [List.foldl_cons, ih]
      simp only [FullStateRoot.updateBlock, List.append_assoc, List.singleton_append,
        List.map_cons, List.length_cons, Prod.swap_prod_mk, FullStateRoot.mk.injEq, true_and]
      omega

theorem rootOf_eq (image : List Block) :
    rootOf image = .of (image.zipIdx.map Prod.swap) image.length := by
  simp [rootOf, foldl_updateBlock, FullStateRoot.new, FullStateRoot.finish]

/-- Equal roots are roots of equal images. -/
theorem rootOf_injective {image other : List Block} (same : rootOf image = rootOf other) :
    image = other := by
  rw [rootOf_eq, rootOf_eq, Root.of.injEq] at same
  have blocks := congrArg (List.map Prod.snd) same.1
  simpa [List.map_map, Function.comp_def] using blocks

theorem rootOf_ne_zero (image : List Block) : rootOf image ≠ .zero := by
  rw [rootOf_eq]
  exact Root.noConfusion

end Freehold
