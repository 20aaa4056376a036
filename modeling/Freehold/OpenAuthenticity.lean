import Freehold.OpenSpec
import Freehold.RotationRecovery

set_option autoImplicit false

namespace Freehold

namespace Pool

/-- If the database opens, what SQLite serves has the manifest's root or the previous one. -/
def ServesAuthentic (freshUuid : Uuid) (pool : Pool) (name : FileName) (payload : ManifestPayload) :
    Prop :=
  let opening := (openMainDb freshUuid name) pool
  opening.result = .ok () → ∀ image, opening.state.servedImage name = .ok image →
    rootOf image = payload.merkleRoot ∨ rootOf image = payload.prevMerkleRoot

/-- The open path looks at the image that is served, or refuses for another reason: the
main file is not empty or an empty image is accepted, and where a hot journal makes it
check the playback, the file as it stands is accepted whenever the playback is. -/
def ChecksServed (dek : Dek) (st : Stored) (name : FileName) (data : Region) (uuid : Uuid)
    (payload : ManifestPayload) : Prop :=
  Fresh dek st.anchor uuid payload.dbGeneration →
    if data.size = 0 then payload.accepts (rootOf []) = true
    else
      hotOn st.disk name (.dbKey dek uuid) uuid = true →
        ∀ played main, replayOn st.disk name (.dbKey dek uuid) uuid data = some played →
          payload.accepts (rootOf played) = true →
          imageOf data name (.dbKey dek uuid) uuid = some main →
          payload.accepts (rootOf main) = true

section Authentic

variable {pool : Pool} {dek : Dek} {st : Stored} {name : FileName} {data : Region} {uuid : Uuid}
  {payload : ManifestPayload} {freshUuid : Uuid}

/-- A verified database with a root is served from a file that was checked, unless it
is empty or was checked through its journal. -/
theorem Verified.accepts (rooted : payload.merkleRoot ≠ .zero)
    (verified : Verified dek st.disk name data uuid payload)
    (checked : ChecksServed dek st name data uuid payload)
    (fresh : Fresh dek st.anchor uuid payload.dbGeneration) {image : List Block}
    (decrypted : imageOf data name (.dbKey dek uuid) uuid = some image) :
    payload.accepts (rootOf image) = true := by
  have served := checked fresh
  by_cases blank : data.size = 0
  · rw [if_pos blank] at served
    rw [imageOf_of_size_zero blank, Option.some.injEq] at decrypted
    exact decrypted ▸ served
  · rw [if_neg blank] at served
    have passed := verified (Nat.pos_of_ne_zero blank)
    cases hot : hotOn st.disk name (.dbKey dek uuid) uuid with
    | true =>
        simp only [hot, if_true] at passed
        obtain ⟨played, replayed, accepted⟩ := passed rooted
        exact served hot played image replayed accepted decrypted
    | false =>
        simp only [hot, Bool.false_eq_true, if_false] at passed
        obtain ⟨_, main, decrypted', accepted⟩ := passed
        rw [decrypted, Option.some.injEq] at decrypted'
        exact decrypted' ▸ accepted rooted

/-- An open database serves an authenticated image exactly where the open path looked
at the image that is served. -/
theorem openMainDb_serves_authentic (live : pool.Live dek st) (held : st.disk name = some data)
    (manifest : manifestOn dek st.disk (manifestName name) = .ok (uuid, payload))
    (rooted : payload.merkleRoot ≠ .zero) :
    ServesAuthentic freshUuid pool name payload ↔ ChecksServed dek st name data uuid payload := by
  have met := meets_openMainDb freshUuid (fun _ => True) live held manifest
    trivial fun _ _ => trivial
  constructor
  · intro authentic fresh
    -- what the open path lets through, it would have to serve
    have served : Verified dek st.disk name data uuid payload → ∀ image,
        imageOf data name (.dbKey dek uuid) uuid = some image →
        payload.accepts (rootOf image) = true := by
      intro verified image decrypted
      cases result : ((openMainDb freshUuid name) pool).result with
      | error e => exact absurd ⟨fresh, verified⟩ (met.error result).1
      | ok _ =>
          rw [accepts_iff]
          apply authentic result
          rw [(met.ok result).servedImage]
          exact decrypted
    by_cases blank : data.size = 0
    · rw [if_pos blank]
      apply served ?_ [] (imageOf_of_size_zero blank)
      intro sized
      exact absurd blank (Nat.ne_of_gt sized)
    · rw [if_neg blank]
      intro hot played main replayed accepted decrypted
      apply served ?_ main decrypted
      intro _
      simp only [hot, if_true]
      exact fun _ => ⟨played, replayed, accepted⟩
  · intro checked opens image serves
    have done := met.ok opens
    rw [done.servedImage] at serves
    rw [← accepts_iff]
    exact done.verified.accepts rooted checked done.fresh serves

end Authentic

/-- The sample pool with its main file cut down to nothing. -/
def sampleTruncated : Pool := (setData ['a', '.', 'd', 'b'] .empty samplePool).reopen 1

def samplePayload : ManifestPayload :=
  ⟨1, 7, rootOf [Vector.replicate blockSize 1], .zero, []⟩

theorem openMainDb_serves_truncated :
    ((openMainDb 0 ['a', '.', 'd', 'b']) sampleTruncated).result = .ok () ∧
      ((openMainDb 0 ['a', '.', 'd', 'b']) sampleTruncated).state.servedImage ['a', '.', 'd', 'b']
        = .ok [] ∧
      samplePayload.accepts (rootOf []) = false ∧
      ¬ ServesAuthentic 0 sampleTruncated ['a', '.', 'd', 'b'] samplePayload := by
  have opens : ((openMainDb 0 ['a', '.', 'd', 'b']) sampleTruncated).result = .ok () := by
    decide +kernel
  have serves : ((openMainDb 0 ['a', '.', 'd', 'b']) sampleTruncated).state.servedImage
      ['a', '.', 'd', 'b'] = .ok [] := by
    decide +kernel
  have refused : samplePayload.accepts (rootOf []) = false := by
    decide +kernel
  refine ⟨opens, serves, refused, ?_⟩
  intro authentic
  rw [← Bool.not_eq_true, accepts_iff] at refused
  exact refused (authentic opens [] serves)

theorem openMainDb_serves_authentic_sample :
    ServesAuthentic 0 sampleTruncated ['a', '.', 'd', 'b'] samplePayload ↔
      ChecksServed 1 sampleTruncated.stored ['a', '.', 'd', 'b'] .empty 7 samplePayload := by
  have manifest : manifestOn 1 sampleTruncated.stored.disk (manifestName ['a', '.', 'd', 'b']) =
      .ok (7, samplePayload) := by
    with_unfolding_all rfl
  exact openMainDb_serves_authentic ⟨Wf.reopen, rfl, rfl⟩ (by with_unfolding_all rfl) manifest
    (rootOf_ne_zero _)

end Pool

end Freehold
