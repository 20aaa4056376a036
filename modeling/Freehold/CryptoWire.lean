import Freehold.DeviceCert
import Freehold.EpochTokens
import Freehold.RotationMeaning

set_option autoImplicit false

namespace Freehold

open Cursor

/-- The primitives both crates take from libraries, by what they are called with. -/
structure Primitives where
  sha256 : List UInt8 → Vector UInt8 32
  /-- `Hkdf::<Sha256>::new(None, ikm).expand(info, ..)` to 32 bytes. -/
  hkdf : (ikm info : List UInt8) → Vector UInt8 32
  hmac : (key message : List UInt8) → Vector UInt8 32
  /-- `Argon2id` at version 0x13; an error on a password or a salt of a bad length. -/
  argon2id : (mCost tCost pCost : Nat) → (password salt : List UInt8) → Option (Vector UInt8 32)
  /-- `encrypt_in_place_detached`: the buffer and the tag. -/
  encrypt : (key : Vector UInt8 32) → (nonce : Vector UInt8 24) → (aad buffer : List UInt8) →
    List UInt8 × Vector UInt8 16
  /-- `decrypt_in_place_detached`. -/
  decrypt : (key : Vector UInt8 32) → (nonce : Vector UInt8 24) → (aad buffer : List UInt8) →
    Vector UInt8 16 → Option (List UInt8)
  /-- `char::to_uppercase`. -/
  upper : Char → List Char

/-- A cipher decrypts what it encrypted, and works in place. -/
structure Primitives.Lawful (P : Primitives) : Prop where
  decrypt_encrypt : ∀ key nonce aad buffer,
    P.decrypt key nonce aad (P.encrypt key nonce aad buffer).1 (P.encrypt key nonce aad buffer).2 =
      some buffer
  length_encrypt : ∀ key nonce aad buffer, (P.encrypt key nonce aad buffer).1.length = buffer.length

def dekBytes (dek : Dek) : List UInt8 := toLe 32 dek.toNat

@[simp] theorem length_dekBytes (dek : Dek) : (dekBytes dek).length = 32 := length_toLe _ _

@[simp] theorem length_uuidBytes (uuid : Uuid) : (uuidBytes uuid).length = 16 := length_toLe _ _

/-- The `info` a subkey is derived with. -/
def Key.info : Key → List UInt8
  | .poolKey _ => utf8Bytes "freehold-v1"
  | .dbKey _ uuid => utf8Bytes "freehold/vfs-db-v1" ++ [0] ++ uuidBytes uuid
  | .anchorKey _ => utf8Bytes "freehold-anchor-v1"
  | .epochKey _ => utf8Bytes "freehold-epoch-v1"
  | .syncKey _ => utf8Bytes "freehold-sync-v1"
  | .rotateIntentKey _ => utf8Bytes "freehold-rotate-intent-v1"
  | .trustSealKey _ => utf8Bytes "freehold-vault-trust-v1"

/-- `CIPHER_ID`. -/
def cipherId : UInt8 := 1

/-- b"ENCANCH2". -/
def anchorMagic : List UInt8 := utf8Bytes "ENCANCH2"

namespace Primitives

variable (P : Primitives)

/-- `Crypto::from_info`. -/
def subkey (key : Key) : Vector UInt8 32 := P.hkdf (dekBytes key.dek) key.info

/-- `file_id_for`. -/
def fileId (path : FileName) : List UInt8 := (P.sha256 (DeviceCert.strBytes path)).toList.take 16

/-- `aad` of a block, and the constants of the other formats. -/
def aad : Aad → List UInt8
  | .block fid domain k =>
      P.fileId fid.path ++ uuidBytes domain ++ toLe 8 k ++ toLe 4 blockSize ++ [cipherId]
  | .anchor slot => utf8Bytes "freehold-anchor-aad-v2" ++ [0, 0] ++ anchorMagic ++ toLe 8 slot
  | .epoch => utf8Bytes "freehold-epoch"
  | .trustSeed => utf8Bytes "freehold-vault-trust-seed"
  | .syncBlob => utf8Bytes "freehold-sync-blob-v1"
  | .rotateIntent => utf8Bytes "freehold-rotate-intent"

/-- `seal_bytes` with the nonce it draws: nonce, ciphertext, tag. -/
def sealBytes (key : Key) (nonce : Vector UInt8 24) (aad : Aad) (plaintext : List UInt8) :
    List UInt8 :=
  let sealed := P.encrypt (P.subkey key) nonce (P.aad aad) plaintext
  nonce.toList ++ sealed.1 ++ sealed.2.toList

/-- `seal_into` with the nonce it draws: ciphertext, nonce, tag. -/
def sealInto (key : Key) (nonce : Vector UInt8 24) (aad : Aad) (plaintext : Block) : List UInt8 :=
  let sealed := P.encrypt (P.subkey key) nonce (P.aad aad) plaintext.toList
  sealed.1 ++ nonce.toList ++ sealed.2.toList

/-- `bytes` is what is stored of a cell. -/
def CellBytes : Cell → List UInt8 → Prop
  | .sealed key aad plaintext, bytes => ∃ nonce, bytes = P.sealInto key nonce aad plaintext
  | .junk _, bytes => bytes.length = physBlock

end Primitives

/-- b"ENCMFST1". -/
def manifestMagic : List UInt8 := utf8Bytes "ENCMFST1"

/-- `bytes` is what is stored of a data region. -/
inductive Region.Bytes (P : Primitives) : Region → List UInt8 → Prop where
  | blocks {cells : List Cell} {tail : Fin physBlock} {whole : List (List UInt8)} {rest : List UInt8}
      (stored : List.Forall₂ P.CellBytes cells whole) (short : rest.length = tail.val) :
      Region.Bytes P (.blocks cells tail) (whole.flatten ++ rest)
  | manifest {file : ManifestFile} {rest : List UInt8}
      (length : 24 + rest.length = (Region.manifest file).size) :
      Region.Bytes P (.manifest file) (manifestMagic ++ uuidBytes file.uuid ++ rest)
  | intent {sealed : SealedBytes RotationIntent} {bytes : List UInt8}
      (length : bytes.length = (Region.intent sealed).size) :
      Region.Bytes P (.intent sealed) bytes

theorem Region.Bytes.manifest_eq {P : Primitives} {file : ManifestFile} {bytes : List UInt8}
    (stored : (Region.manifest file).Bytes P bytes) :
    ∃ rest, bytes = manifestMagic ++ uuidBytes file.uuid ++ rest := by
  cases stored with
  | manifest _ => exact ⟨_, rfl⟩

/-- What is stored of a cell where each nonce drawn is `nonce`. -/
def Primitives.cellBytes (P : Primitives) (nonce : Vector UInt8 24) : Cell → List UInt8
  | .sealed key aad plaintext => P.sealInto key nonce aad plaintext
  | .junk _ => List.replicate physBlock 0

/-- What is stored of a region where each nonce drawn is `nonce`. -/
def Region.bytesWith (P : Primitives) (nonce : Vector UInt8 24) : Region → List UInt8
  | .blocks cells tail => (cells.map (P.cellBytes nonce)).flatten ++ List.replicate tail.val 0
  | .manifest file =>
      manifestMagic ++ uuidBytes file.uuid ++ List.replicate ((Region.manifest file).size - 24) 0
  | .intent sealed => List.replicate (Region.intent sealed).size 0

/-- Every region can be stored. -/
theorem Region.bytes_bytesWith (P : Primitives) (nonce : Vector UInt8 24) (data : Region) :
    data.Bytes P (data.bytesWith P nonce) := by
  cases data with
  | blocks cells tail =>
      refine .blocks ?_ List.length_replicate
      induction cells with
      | nil => exact .nil
      | cons cell cells ih =>
          refine .cons ?_ ih
          cases cell with
          | sealed key aad plaintext => exact ⟨nonce, rfl⟩
          | junk n => exact List.length_replicate
  | manifest file =>
      apply Region.Bytes.manifest
      have room : 24 ≤ (Region.manifest file).size :=
        Nat.le_trans (by decide : 24 ≤ manifestHdrLen) (Nat.le_add_right _ _)
      rw [List.length_replicate]
      omega
  | intent sealed => exact .intent List.length_replicate

section Lengths

variable {P : Primitives}

theorem length_sealInto (lawful : P.Lawful) (key : Key) (nonce : Vector UInt8 24) (aad : Aad)
    (plaintext : Block) : (P.sealInto key nonce aad plaintext).length = physBlock := by
  simp only [Primitives.sealInto, List.length_append, lawful.length_encrypt, Vector.length_toList]

theorem length_cellBytes (lawful : P.Lawful) {cell : Cell} {bytes : List UInt8}
    (stored : P.CellBytes cell bytes) : bytes.length = physBlock := by
  cases cell with
  | sealed key aad plaintext =>
      obtain ⟨nonce, rfl⟩ := stored
      exact length_sealInto lawful key nonce aad plaintext
  | junk n => exact stored

theorem length_flatten_cells (lawful : P.Lawful) {cells : List Cell} {whole : List (List UInt8)}
    (stored : List.Forall₂ P.CellBytes cells whole) : whole.flatten.length = cells.length * physBlock := by
  induction stored with
  | nil => rfl
  | cons head _ ih =>
      rw [List.flatten_cons, List.length_append, length_cellBytes lawful head, ih, List.length_cons,
        Nat.succ_mul, Nat.add_comm]

/-- A data region takes as many bytes as its size says. -/
theorem Region.Bytes.length (lawful : P.Lawful) {data : Region} {bytes : List UInt8}
    (stored : data.Bytes P bytes) : bytes.length = data.size := by
  cases stored with
  | blocks stored short =>
      rw [List.length_append, length_flatten_cells lawful stored, short, Region.size]
  | manifest length =>
      have eight : manifestMagic.length = 8 := by decide +kernel
      rw [← length, List.length_append, List.length_append, eight, length_uuidBytes]
  | intent length => exact length

end Lengths

end Freehold
