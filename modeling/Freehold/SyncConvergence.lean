import Freehold.Lib.Takeover
import Freehold.Sync
import Freehold.VectorOrder

set_option autoImplicit false

namespace Freehold

/-- What the pull loop carries from blob to blob: the local vector and the live image. -/
structure Replica (Image : Type) where
  vv : VersionVector
  live : Image
  deriving DecidableEq

namespace Replica

variable {Image : Type}

/-- One turn of the pull loop on an opened blob. -/
def pull (s : Replica Image) (incoming : SyncBlob Image) : Replica Image :=
  match reconcile s.vv incoming.vv with
  | .fastForward => ⟨s.vv.mergeMax incoming.vv, incoming.image⟩
  | .stale => s
  | .fork true => ⟨s.vv.mergeMax incoming.vv, incoming.image⟩
  | .fork false => ⟨s.vv.mergeMax incoming.vv, s.live⟩

def pullAll (s : Replica Image) (blobs : List (SyncBlob Image)) : Replica Image := blobs.foldl pull s

/-- Pulled in any two orders, the blobs leave the same vector and the same live image. -/
def Converges (s : Replica Image) (blobs : List (SyncBlob Image)) : Prop :=
  ∀ order order' : List (SyncBlob Image), order.Perm blobs → order'.Perm blobs →
    (s.pullAll order).vv.encode = (s.pullAll order').vv.encode ∧
      (s.pullAll order).live = (s.pullAll order').live

/-- The local vector merged with those of the blobs. -/
def joinedVv (v : VersionVector) (blobs : List (SyncBlob Image)) : VersionVector :=
  blobs.foldl (fun v blob => v.mergeMax blob.vv) v

/-- The blobs that `r` wins over. -/
def below (r : SyncBlob Image) (blobs : List (SyncBlob Image)) : List (SyncBlob Image) :=
  blobs.filter fun blob => incomingWins blob.vv r.vv

/-- `r` wins over the local vector merged with all the blobs it wins over. -/
def unanswered (v : VersionVector) (blobs : List (SyncBlob Image)) (r : SyncBlob Image) : Bool :=
  incomingWins (joinedVv v (below r blobs)) r.vv

/-- No blob that wins over `v` is unanswered. -/
def unbeaten (s : Replica Image) (blobs : List (SyncBlob Image)) (v : VersionVector) : Bool :=
  blobs.all fun r => !(incomingWins v r.vv && unanswered s.vv blobs r)

/-- The images that may end up live: of the local state and of the blobs that win over
it, those over which no unanswered blob wins. -/
def contenders (s : Replica Image) (blobs : List (SyncBlob Image)) : List Image :=
  (if unbeaten s blobs s.vv then [s.live] else []) ++
    (blobs.filter fun blob => incomingWins s.vv blob.vv && unbeaten s blobs blob.vv).map
      fun blob => blob.image

/-- All contenders hold the same image. -/
def Settled (s : Replica Image) (blobs : List (SyncBlob Image)) : Prop :=
  ∀ image ∈ contenders s blobs, ∀ other ∈ contenders s blobs, image = other

/-- `total_count` of all the counters together does not saturate. -/
def Unsaturated (s : Replica Image) (blobs : List (SyncBlob Image)) : Prop :=
  (joinedVv s.vv blobs).totalCount < 0xFFFFFFFFFFFFFFFF

/-- The vector and the payload of a blob. -/
def ranked (blob : SyncBlob Image) : VersionVector × Image := (blob.vv, blob.image)

theorem ranked_vectors : Takeover.Ranked VersionVector.mergeMax VersionVector.rank :=
  ⟨VersionVector.le_mergeMax_left, VersionVector.le_mergeMax_right,
    fun _ _ _ left right => VersionVector.mergeMax_le left right, VersionVector.rank_mono⟩

theorem joinedVv_eq (v : VersionVector) (blobs : List (SyncBlob Image)) :
    joinedVv v blobs = Takeover.joined VersionVector.mergeMax v (blobs.map ranked) := by
  rw [joinedVv, Takeover.joined, List.foldl_map]
  rfl

section Fold

variable {s : Replica Image} {blobs order : List (SyncBlob Image)} {v : VersionVector}

/-- The vector moves as if every blob were merged: a stale one has nothing to add. -/
theorem pull_vv (incoming : SyncBlob Image) (le : s.vv ≤ v) (ge : v ≤ s.vv) :
    (s.pull incoming).vv ≤ v.mergeMax incoming.vv ∧ v.mergeMax incoming.vv ≤ (s.pull incoming).vv := by
  have merged : s.vv.mergeMax incoming.vv ≤ v.mergeMax incoming.vv ∧
      v.mergeMax incoming.vv ≤ s.vv.mergeMax incoming.vv := by
    constructor
    · exact VersionVector.mergeMax_le (le_trans le (VersionVector.le_mergeMax_left _ _))
        (VersionVector.le_mergeMax_right _ _)
    · exact VersionVector.mergeMax_le (le_trans ge (VersionVector.le_mergeMax_left _ _))
        (VersionVector.le_mergeMax_right _ _)
  unfold pull
  rcases reconcile_cases s.vv incoming.vv with ⟨older, is⟩ | ⟨_, _, is⟩ | ⟨_, _, is⟩
  · rw [is]
    exact ⟨le_trans le (VersionVector.le_mergeMax_left _ _), VersionVector.mergeMax_le ge older⟩
  · rw [is]
    exact merged
  · rw [is]
    cases incomingWins s.vv incoming.vv <;> exact merged

theorem pullAll_vv (order : List (SyncBlob Image)) (le : s.vv ≤ v) (ge : v ≤ s.vv) :
    (s.pullAll order).vv ≤ joinedVv v order ∧ joinedVv v order ≤ (s.pullAll order).vv := by
  induction order generalizing s v with
  | nil => exact ⟨le, ge⟩
  | cons incoming rest ih =>
      have moved := pull_vv incoming le ge
      exact ih moved.1 moved.2

theorem joinedVv_perm (perm : order.Perm blobs) : joinedVv v order ≤ joinedVv v blobs := by
  rw [joinedVv_eq, joinedVv_eq]
  exact Takeover.joined_subset ranked_vectors (perm.map ranked).subset

/-- All orders leave the same vector. -/
theorem pullAll_encode {order' : List (SyncBlob Image)} (perm : order.Perm blobs)
    (perm' : order'.Perm blobs) : (s.pullAll order).vv.encode = (s.pullAll order').vv.encode := by
  have here := pullAll_vv order (le_refl s.vv) (le_refl s.vv)
  have there := pullAll_vv order' (le_refl s.vv) (le_refl s.vv)
  have same : joinedVv s.vv order ≤ joinedVv s.vv order' := joinedVv_perm (perm.trans perm'.symm)
  have same' : joinedVv s.vv order' ≤ joinedVv s.vv order := joinedVv_perm (perm'.trans perm.symm)
  apply VersionVector.encode_congr
  apply VersionVector.get_eq_of_le_of_le
  · exact le_trans here.1 (le_trans same there.2)
  · exact le_trans there.1 (le_trans same' here.2)

/-- The live image is the payload of the abstract replica. -/
theorem pullAll_live {t : VersionVector × Image} (le : s.vv ≤ t.1) (ge : t.1 ≤ s.vv)
    (live : s.live = t.2) (bound : (joinedVv t.1 order).count < 2 ^ 64) :
    (s.pullAll order).live = ((order.map ranked).foldl
      (Takeover.takeIn VersionVector.mergeMax VersionVector.rank) t).2 := by
  induction order generalizing s t with
  | nil => exact live
  | cons incoming rest ih =>
      have counted : ∀ w, w ≤ joinedVv t.1 (incoming :: rest) → w.count < 2 ^ 64 :=
        fun w inside => lt_of_le_of_lt (VersionVector.count_mono inside) bound
      have joined := Takeover.le_joined ranked_vectors (t.1.mergeMax incoming.vv) (rest.map ranked)
      rw [← joinedVv_eq] at joined
      have decides := takesOver_iff
        (counted s.vv (le_trans le (le_trans (VersionVector.le_mergeMax_left _ _) joined)))
        (counted incoming.vv (le_trans (VersionVector.le_mergeMax_right _ _) joined))
      have rank : s.vv.rank = t.1.rank :=
        le_antisymm (VersionVector.rank_mono le) (VersionVector.rank_mono ge)
      rw [rank] at decides
      have moved := pull_vv incoming le ge
      apply ih moved.1 moved.2 ?_ bound
      rw [Takeover.takeIn]
      unfold takesOver at decides
      unfold pull
      rcases reconcile_cases s.vv incoming.vv with ⟨older, is⟩ | ⟨_, _, is⟩ | ⟨_, _, is⟩
      · simp only [is, Bool.false_eq_true, false_iff] at decides ⊢
        exact live.trans (if_neg decides).symm
      · simp only [is, true_iff] at decides ⊢
        exact (if_pos decides).symm
      · rw [is] at decides ⊢
        cases wins : incomingWins s.vv incoming.vv with
        | true =>
            simp only [wins, true_iff] at decides
            exact (if_pos decides).symm
        | false =>
            simp only [wins, Bool.false_eq_true, false_iff] at decides
            exact live.trans (if_neg decides).symm

end Fold

section Contenders

variable {s : Replica Image} {blobs : List (SyncBlob Image)} (unsaturated : Unsaturated s blobs)
include unsaturated

theorem Unsaturated.counted {v : VersionVector} (inside : v ≤ joinedVv s.vv blobs) :
    v.count < 2 ^ 64 :=
  lt_of_le_of_lt (VersionVector.count_mono inside)
    (VersionVector.count_lt_of_totalCount unsaturated)

theorem Unsaturated.start : s.vv.count < 2 ^ 64 := by
  apply unsaturated.counted
  rw [joinedVv_eq]
  exact Takeover.le_joined ranked_vectors s.vv (blobs.map ranked)

theorem Unsaturated.blob {r : SyncBlob Image} (member : r ∈ blobs) : r.vv.count < 2 ^ 64 := by
  apply unsaturated.counted
  rw [joinedVv_eq]
  exact Takeover.mem_le_joined (b := ranked r) ranked_vectors (List.mem_map_of_mem member)

theorem unanswered_iff {r : SyncBlob Image} (member : r ∈ blobs) :
    unanswered s.vv blobs r = true ↔ Takeover.Unanswered VersionVector.mergeMax VersionVector.rank
      s.vv (blobs.map ranked) (ranked r) := by
  have lower : (below r blobs).map ranked =
      Takeover.below VersionVector.rank (ranked r) (blobs.map ranked) := by
    rw [Takeover.below, List.filter_map, below]
    congr 1
    apply List.filter_congr
    intro b listed
    rw [Bool.eq_iff_iff, Function.comp_apply, decide_eq_true_eq]
    exact VersionVector.incomingWins_iff (unsaturated.blob listed) (unsaturated.blob member)
  have inside : joinedVv s.vv (below r blobs) ≤ joinedVv s.vv blobs := by
    rw [joinedVv_eq, joinedVv_eq]
    exact Takeover.joined_subset ranked_vectors (List.map_subset ranked List.filter_sublist.subset)
  rw [unanswered, Takeover.Unanswered, ← lower, ← joinedVv_eq]
  exact VersionVector.incomingWins_iff (unsaturated.counted inside) (unsaturated.blob member)

theorem unbeaten_iff {v : VersionVector} (bound : v.count < 2 ^ 64) :
    unbeaten s blobs v = true ↔ ∀ r ∈ blobs.map ranked, v.rank < r.1.rank →
      ¬ Takeover.Unanswered VersionVector.mergeMax VersionVector.rank s.vv (blobs.map ranked) r := by
  rw [unbeaten, List.all_eq_true, List.forall_mem_map]
  apply forall₂_congr
  intro r member
  rw [Bool.not_eq_true', Bool.and_eq_false_iff, ← Bool.not_eq_true, ← Bool.not_eq_true,
    unanswered_iff unsaturated member,
    VersionVector.incomingWins_iff bound (unsaturated.blob member), ← imp_iff_not_or]
  rfl

theorem mem_contenders {image : Image} : image ∈ contenders s blobs ↔
    ∃ b, Takeover.Contender VersionVector.mergeMax VersionVector.rank (s.vv, s.live)
      (blobs.map ranked) b ∧ b.2 = image := by
  rw [contenders, List.mem_append, List.mem_map]
  constructor
  · rintro (own | ⟨blob, listed, rfl⟩)
    · split at own
      · next left =>
          refine ⟨(s.vv, s.live), ⟨Or.inl rfl, ?_⟩, (List.mem_singleton.mp own).symm⟩
          exact (unbeaten_iff unsaturated unsaturated.start).mp left
      · cases own
    · obtain ⟨member, both⟩ := List.mem_filter.mp listed
      obtain ⟨leads, left⟩ := Bool.and_eq_true_iff.mp both
      have bound := unsaturated.blob member
      refine ⟨ranked blob, ⟨Or.inr ⟨List.mem_map_of_mem member, ?_⟩, ?_⟩, rfl⟩
      · exact (VersionVector.incomingWins_iff unsaturated.start bound).mp leads
      · exact (unbeaten_iff unsaturated bound).mp left
  · rintro ⟨b, ⟨leads, left⟩, rfl⟩
    rcases leads with rfl | ⟨member, leading⟩
    · left
      rw [if_pos ((unbeaten_iff unsaturated unsaturated.start).mpr left)]
      exact List.mem_cons_self
    · right
      obtain ⟨blob, listed, rfl⟩ := List.mem_map.mp member
      have bound := unsaturated.blob listed
      refine ⟨blob, List.mem_filter.mpr ⟨listed, Bool.and_eq_true_iff.mpr ⟨?_, ?_⟩⟩, rfl⟩
      · exact (VersionVector.incomingWins_iff unsaturated.start bound).mpr leading
      · exact (unbeaten_iff unsaturated bound).mpr left

end Contenders

/-- Pulling converges exactly where all contenders hold one image. -/
theorem pullAll_converges_iff {s : Replica Image} {blobs : List (SyncBlob Image)}
    (unsaturated : Unsaturated s blobs) : Converges s blobs ↔ Settled s blobs := by
  have settled : Settled s blobs ↔ ∀ b b',
      Takeover.Contender VersionVector.mergeMax VersionVector.rank (s.vv, s.live) (blobs.map ranked) b →
      Takeover.Contender VersionVector.mergeMax VersionVector.rank (s.vv, s.live) (blobs.map ranked) b' →
      b.2 = b'.2 := by
    constructor
    · intro same b b' contender contender'
      exact same _ ((mem_contenders unsaturated).mpr ⟨b, contender, rfl⟩) _
        ((mem_contenders unsaturated).mpr ⟨b', contender', rfl⟩)
    · intro same image member other member'
      obtain ⟨b, contender, rfl⟩ := (mem_contenders unsaturated).mp member
      obtain ⟨b', contender', rfl⟩ := (mem_contenders unsaturated).mp member'
      exact same b b' contender contender'
  have lives : ∀ order : List (SyncBlob Image), order.Perm blobs → (s.pullAll order).live =
      ((order.map ranked).foldl (Takeover.takeIn VersionVector.mergeMax VersionVector.rank)
        (s.vv, s.live)).2 := by
    intro order perm
    exact pullAll_live le_rfl le_rfl rfl (unsaturated.counted (joinedVv_perm perm))
  rw [settled, ← Takeover.orders_agree_iff ranked_vectors]
  constructor
  · intro converges order order' perm perm'
    rw [← congrFun (congrFun (List.eq_map_comp_perm ranked) _) _] at perm perm'
    obtain ⟨blobOrder, rfl, arranged⟩ := perm
    obtain ⟨blobOrder', rfl, arranged'⟩ := perm'
    rw [← lives blobOrder arranged, ← lives blobOrder' arranged']
    exact (converges blobOrder blobOrder' arranged arranged').2
  · intro agree order order' perm perm'
    refine ⟨pullAll_encode perm perm', ?_⟩
    rw [lives order perm, lives order' perm']
    exact agree _ _ (perm.map ranked) (perm'.map ranked)

/-- The blobs of three devices that each pushed once before they saw the others'. -/
def rivals : List (SyncBlob Nat) :=
  [⟨syncDbUuid, VersionVector.new.increment 1, 1⟩, ⟨syncDbUuid, VersionVector.new.increment 2, 2⟩,
    ⟨syncDbUuid, VersionVector.new.increment 3, 3⟩]

theorem pullAll_converges_rivals :
    Unsaturated ⟨.new, 0⟩ rivals ∧ (Converges ⟨.new, 0⟩ rivals ↔ Settled ⟨.new, 0⟩ rivals) := by
  have unsaturated : Unsaturated ⟨.new, 0⟩ rivals := by
    rw [Unsaturated]
    decide +kernel
  exact ⟨unsaturated, pullAll_converges_iff unsaturated⟩

/-- Each of the first two blobs outlasts the third, and whichever of them comes second
meets a merged vector that outnumbers it. -/
theorem rivals_diverge :
    ((⟨.new, 0⟩ : Replica Nat).pullAll rivals).live = 1 ∧
      ((⟨.new, 0⟩ : Replica Nat).pullAll (rivals.rotate 1)).live = 2 ∧
      ¬ Converges ⟨.new, 0⟩ rivals := by
  have first : ((⟨.new, 0⟩ : Replica Nat).pullAll rivals).live = 1 := by
    decide +kernel
  have second : ((⟨.new, 0⟩ : Replica Nat).pullAll (rivals.rotate 1)).live = 2 := by
    decide +kernel
  refine ⟨first, second, ?_⟩
  intro converges
  have same := (converges rivals (rivals.rotate 1) (List.Perm.refl _) (List.rotate_perm _ _)).2
  rw [first, second] at same
  exact absurd same (by decide)

end Replica

section Loop

variable {ι Store Image Write : Type} {ops : SessionOps Store Image Write} {d : ι}
  {log : List (LogEntry ι Image)} {dev : Device Store Image Write} {t : SyncTask Image} {live : Image}

/-- One segment of a running `sync()` that nothing interleaves. -/
def Segment (ops : SessionOps Store Image Write) (d : ι) (log : List (LogEntry ι Image))
    (before after : Device Store Image Write × SyncTask Image) : Prop :=
  advance ops d log before.1 before.2 = (after.1, some after.2, log)

/-- Importing an image makes it the live one. -/
def Imports (ops : SessionOps Store Image Write) : Prop :=
  ∀ image store, ∃ next, ops.importFiles image store = .ok next ∧ ops.sessionImage next = some image

/-- The pull loop of `sync()` over the blobs of its bucket is the fold of `pull`. -/
theorem segments_pullAll (imports : Imports ops) {blobs : List (SyncBlob Image)} {i : Nat}
    (count : t.count = i + blobs.length)
    (held : ∀ j blob, blobs[j]? = some blob →
      ∃ author, log[t.cursor + (i + j)]? = some ⟨author, SyncBlob.sealBlob dev.dek blob⟩)
    (shows : ops.sessionImage dev.store = some live) :
    ∃ (dev' : Device Store Image Write) (t' : SyncTask Image),
      Relation.ReflTransGen (Segment ops d log) (dev, t.pull i) (dev', t'.pull t.count) ∧
      t'.localVv = ((⟨t.localVv, live⟩ : Replica Image).pullAll blobs).vv ∧
      ops.sessionImage dev'.store = some ((⟨t.localVv, live⟩ : Replica Image).pullAll blobs).live := by
  induction blobs generalizing dev t live i with
  | nil =>
      rw [List.length_nil, Nat.add_zero] at count
      exact ⟨dev, t, count ▸ .refl, rfl, shows⟩
  | cons blob rest ih =>
      rw [List.length_cons] at count
      obtain ⟨author, entry⟩ := held 0 blob rfl
      rw [Nat.add_zero] at entry
      have more : i < t.count := by omega
      have fetches : Segment ops d log (dev, t.pull i)
          (dev, { t with phase := .reconcile i (SyncBlob.sealBlob dev.dek blob) }) := by
        simp only [Segment, SyncTask.pull, if_pos more, advance, entry]
      -- what is left to show once the blob has been dealt with
      have go : ∀ (dev' : Device Store Image Write) (t' : SyncTask Image) live',
          Relation.ReflTransGen (Segment ops d log)
            (dev, { t with phase := .reconcile i (SyncBlob.sealBlob dev.dek blob) })
            (dev', t'.pull (i + 1)) →
          t'.count = t.count → t'.cursor = t.cursor → dev'.dek = dev.dek →
          ops.sessionImage dev'.store = some live' →
          (⟨t'.localVv, live'⟩ : Replica Image) = (⟨t.localVv, live⟩ : Replica Image).pull blob →
          ∃ (dev'' : Device Store Image Write) (t'' : SyncTask Image),
            Relation.ReflTransGen (Segment ops d log) (dev, t.pull i) (dev'', t''.pull t.count) ∧
            t''.localVv = ((⟨t.localVv, live⟩ : Replica Image).pullAll (blob :: rest)).vv ∧
            ops.sessionImage dev''.store =
              some ((⟨t.localVv, live⟩ : Replica Image).pullAll (blob :: rest)).live := by
        intro dev' t' live' reaches count' cursor' dek' shows' pulled
        have entries : ∀ j next, rest[j]? = some next → ∃ author,
            log[t'.cursor + (i + 1 + j)]? = some ⟨author, SyncBlob.sealBlob dev'.dek next⟩ := by
          intro j next listed
          rw [dek', cursor', Nat.add_assoc, Nat.add_comm 1 j]
          exact held (j + 1) next listed
        obtain ⟨dev'', t'', runs, vv, ends⟩ := ih (by omega) entries shows'
        rw [count'] at runs
        rw [pulled] at vv ends
        exact ⟨dev'', t'', .head fetches (reaches.trans runs), vv, ends⟩
      let met : SyncTask Image := { t with phase := .reconcile i (SyncBlob.sealBlob dev.dek blob) }
      obtain ⟨store, imported, shows'⟩ := imports blob.image dev.store
      rcases reconcile_cases t.localVv blob.vv with ⟨_, is⟩ | ⟨_, _, is⟩ | ⟨_, _, is⟩
      · have skips : Segment ops d log (dev, met) (dev.reconcile met i, met.pull (i + 1)) := by
          simp only [Segment, met, advance, SyncBlob.openBlob_sealBlob, is]
        apply go (dev.reconcile met i) met live (.single skips) rfl rfl rfl shows
        rw [Replica.pull, is]
      · let chosen : SyncTask Image := { t with phase := .fastForward i blob }
        have chooses : Segment ops d log (dev, met) (dev, chosen) := by
          simp only [Segment, met, chosen, advance, SyncBlob.openBlob_sealBlob, is]
        have applies : Segment ops d log (dev, chosen) ({ dev.reconcile chosen i with store := store },
            { chosen with localVv := t.localVv.mergeMax blob.vv }.pull (i + 1)) := by
          simp only [Segment, chosen, advance, imported]
        apply go _ _ blob.image (.head chooses (.single applies)) rfl rfl rfl shows'
        rw [Replica.pull, is]
      · cases wins : incomingWins t.localVv blob.vv with
        | false =>
            rw [wins] at is
            have stashes : Segment ops d log (dev, met) (dev.reconcile met i,
                (met.stash i blob (SyncBlob.sealBlob dev.dek blob)).pull (i + 1)) := by
              simp only [Segment, met, advance, SyncBlob.openBlob_sealBlob, is]
            apply go _ _ live (.single stashes) rfl rfl rfl shows
            rw [Replica.pull, is]
            rfl
        | true =>
            rw [wins] at is
            let loser := SyncBlob.sealBlob dev.dek ⟨syncDbUuid, t.localVv, live⟩
            let sealing : SyncTask Image := { t with phase := .sealLoser i blob }
            let winning : SyncTask Image := { t with phase := .applyWinner i blob loser }
            have chooses : Segment ops d log (dev, met) (dev, sealing) := by
              simp only [Segment, met, sealing, advance, SyncBlob.openBlob_sealBlob, is]
            have seals : Segment ops d log (dev, sealing) (dev, winning) := by
              simp only [Segment, sealing, winning, advance, Device.syncSeal, shows, Option.map_some, loser]
            have applies : Segment ops d log (dev, winning)
                ({ dev.reconcile winning i with store := store },
                  ({ winning with replaced := true }.stash i blob loser).pull (i + 1)) := by
              simp only [Segment, winning, advance, imported]
            apply go _ _ blob.image (.head chooses (.head seals (.single applies))) rfl rfl rfl shows'
            rw [Replica.pull, is]
            rfl

end Loop

end Freehold
