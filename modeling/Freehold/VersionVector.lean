import Mathlib

set_option autoImplicit false

namespace Freehold

/-- `[u8; 16]`, read big-endian so that the order of the numbers is the order of the bytes. -/
abbrev DeviceId := BitVec 128

instance : Std.TransOrd DeviceId := inferInstance

/-- `u64::saturating_add`. -/
def saturatingAdd (a b : UInt64) : UInt64 :=
  if a + b < a then 0xFFFFFFFFFFFFFFFF else a + b

theorem saturatingAdd_toNat (a b : UInt64) :
    (saturatingAdd a b).toNat = min (a.toNat + b.toNat) (2 ^ 64 - 1) := by
  have ha := a.toNat_lt
  have hb := b.toNat_lt
  unfold saturatingAdd
  split
  · next wrapped =>
      rw [UInt64.lt_iff_toNat_lt, UInt64.toNat_add] at wrapped
      change 2 ^ 64 - 1 = _
      omega
  · next exact_sum =>
      rw [UInt64.lt_iff_toNat_lt, UInt64.toNat_add] at exact_sum
      rw [UInt64.toNat_add]
      omega

/-- `n.to_le_bytes()` of a `width`-byte integer. -/
def leBytes : Nat → Nat → List UInt8
  | 0, _ => []
  | width + 1, n => UInt8.ofNat (n % 256) :: leBytes width (n / 256)

/-- The sixteen bytes of a device id as the source stores them. -/
def DeviceId.bytes (id : DeviceId) : List UInt8 := (leBytes 16 id.toNat).reverse

/-- Per-device counters; an absent component counts as zero. -/
structure VersionVector where
  counts : Std.ExtTreeMap DeviceId UInt64
  deriving DecidableEq

/-- How two vectors are ordered. -/
inductive Relation where
  | equal
  | dominates
  | dominatedBy
  | concurrent
  deriving DecidableEq, Repr

namespace VersionVector

def new : VersionVector := ⟨∅⟩

def get (v : VersionVector) (deviceId : DeviceId) : UInt64 := v.counts.getD deviceId 0

/-- `*counts.entry(id).or_insert(0) = f(old)`. -/
def modify (v : VersionVector) (deviceId : DeviceId) (f : UInt64 → UInt64) : VersionVector :=
  ⟨v.counts.alter deviceId fun old => some (f (old.getD 0))⟩

@[simp] theorem get_new (deviceId : DeviceId) : new.get deviceId = 0 := by
  simp [new, get]

@[simp] theorem get_modify_self (v : VersionVector) (deviceId : DeviceId) (f : UInt64 → UInt64) :
    (v.modify deviceId f).get deviceId = f (v.get deviceId) := by
  simp [modify, get, Std.ExtTreeMap.getD_eq_getD_getElem?]

theorem get_modify_of_ne (v : VersionVector) {deviceId other : DeviceId} (f : UInt64 → UInt64)
    (distinct : deviceId ≠ other) : (v.modify deviceId f).get other = v.get other := by
  simp [modify, get, Std.ExtTreeMap.getD_alter, distinct]

def increment (v : VersionVector) (deviceId : DeviceId) : VersionVector :=
  v.modify deviceId fun c => saturatingAdd c 1

def mergeMax (v other : VersionVector) : VersionVector :=
  other.counts.foldl (fun merged id c => merged.modify id fun e => if c > e then c else e) v

def totalCount (v : VersionVector) : UInt64 :=
  v.counts.foldl (fun total _ c => saturatingAdd total c) 0

/-- The ids with a non-zero component, ascending. -/
def deviceIdSet (v : VersionVector) : List DeviceId :=
  (v.counts.toList.filter fun entry => entry.2 > 0).map Prod.fst

/-- Compares component by component over the ids of both vectors. -/
def relation (v other : VersionVector) : Relation :=
  let ids := v.counts.keys ++ other.counts.keys
  let selfGreater := ids.any fun id => v.get id > other.get id
  let otherGreater := ids.any fun id => other.get id > v.get id
  match selfGreater, otherGreater with
  | false, false => .equal
  | true, false => .dominates
  | false, true => .dominatedBy
  | true, true => .concurrent

/-- Zero components are left out. -/
def encode (v : VersionVector) : List UInt8 :=
  let entries := v.counts.toList.filter fun entry => entry.2 > 0
  leBytes 4 entries.length ++
    entries.flatMap fun entry => entry.1.bytes ++ leBytes 8 entry.2.toNat

theorem get_increment_self (v : VersionVector) (deviceId : DeviceId) :
    (v.increment deviceId).get deviceId = saturatingAdd (v.get deviceId) 1 := by
  simp [increment]

theorem get_increment_of_ne (v : VersionVector) {deviceId other : DeviceId}
    (distinct : deviceId ≠ other) : (v.increment deviceId).get other = v.get other :=
  get_modify_of_ne v _ distinct

end VersionVector

/-- What `reconcile` tells the sync loop to do with an incoming blob. -/
inductive MergeOutcome where
  | fastForward
  | stale
  | fork (winnerIsIncoming : Bool)
  deriving DecidableEq, Repr

/-- Total count descending, then device-id set ascending, then encoding ascending. -/
def incomingWins (localVv incomingVv : VersionVector) : Bool :=
  if incomingVv.totalCount ≠ localVv.totalCount then
    incomingVv.totalCount > localVv.totalCount
  else if incomingVv.deviceIdSet ≠ localVv.deviceIdSet then
    incomingVv.deviceIdSet < localVv.deviceIdSet
  else
    incomingVv.encode < localVv.encode

def reconcile (localVv incomingVv : VersionVector) : MergeOutcome :=
  match incomingVv.relation localVv with
  | .dominates => .fastForward
  | .equal | .dominatedBy => .stale
  | .concurrent => .fork (incomingWins localVv incomingVv)

end Freehold
