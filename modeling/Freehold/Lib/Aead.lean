import Mathlib.Tactic.Tauto

set_option autoImplicit false

/- Ideal authenticated encryption. A stored blob is either a term sealed under
some key and associated data, or bytes that authenticate under no key. -/
namespace Aead

variable {κ α β : Type}

inductive Sealed (κ α β : Type) where
  | sealed (key : κ) (aad : α) (plaintext : β)
  | junk (bytes : Nat)
  deriving DecidableEq, Repr

/-- The key a blob was sealed under, if it is no junk. -/
def Sealed.key? : Sealed κ α β → Option κ
  | .sealed key _ _ => some key
  | .junk _ => none

variable [DecidableEq κ] [DecidableEq α]

/-- Returns the plaintext only under the key and associated data it was sealed for. -/
def Sealed.openWith (key : κ) (aad : α) : Sealed κ α β → Option β
  | .sealed k a plaintext => if k = key ∧ a = aad then some plaintext else none
  | .junk _ => none

@[simp] theorem openWith_sealed (key : κ) (aad : α) (plaintext : β) :
    (Sealed.sealed key aad plaintext).openWith key aad = some plaintext := by
  simp [Sealed.openWith]

@[simp] theorem openWith_junk (key : κ) (aad : α) (bytes : Nat) :
    (Sealed.junk bytes : Sealed κ α β).openWith key aad = none := rfl

theorem openWith_eq_some {key : κ} {aad : α} {blob : Sealed κ α β} {plaintext : β} :
    blob.openWith key aad = some plaintext ↔ blob = .sealed key aad plaintext := by
  cases blob with
  | junk bytes => simp [Sealed.openWith]
  | sealed k a p =>
      simp only [Sealed.openWith, Option.ite_none_right_eq_some, Option.some.injEq, Sealed.sealed.injEq]
      tauto

theorem openWith_other_key {key other : κ} (aad aad' : α) (plaintext : β) (distinct : key ≠ other) :
    (Sealed.sealed key aad plaintext : Sealed κ α β).openWith other aad' = none := by
  simp [Sealed.openWith, distinct]

theorem openWith_other_aad (key : κ) {aad other : α} (plaintext : β) (distinct : aad ≠ other) :
    (Sealed.sealed key aad plaintext : Sealed κ α β).openWith key other = none := by
  simp [Sealed.openWith, distinct]

theorem openWith_eq_none_of_key {key : κ} {blob : Sealed κ α β} (other : blob.key? ≠ some key)
    (aad : α) : blob.openWith key aad = none := by
  cases blob with
  | junk bytes => rfl
  | sealed k a p =>
      apply openWith_other_key
      intro same
      exact other (congrArg some same)

end Aead
