import Freehold.Crypto

set_option autoImplicit false

namespace Freehold

/-- Data-region offset of manifest slot 0, after the plaintext header. -/
abbrev manifestHdrLen : Nat := 64

/-- The sealed payload of a manifest slot. -/
structure ManifestPayload where
  dbGeneration : Nat
  dbUuid : Uuid
  merkleRoot : Root
  prevMerkleRoot : Root
  files : List (FileId × Nat)
  deriving DecidableEq

/-- One freshness window of the anchor, keyed by `db_uuid`. -/
structure AnchorEntry where
  uuid : Uuid
  committed : Nat
  inFlight : Nat
  epochFloor : Nat
  deriving DecidableEq, Repr

/-- How many entries one anchor block holds. -/
abbrev anchorCap : Nat := (blockSize - 20) / 40

/-- A freshness table as it is sealed: it fits one block and has one window for
each database. -/
structure AnchorTable where
  entries : List AnchorEntry
  fits : entries.length ≤ anchorCap
  distinct : (entries.map fun e => e.uuid).Nodup
  deriving DecidableEq

namespace AnchorTable

def empty : AnchorTable := ⟨[], Nat.zero_le _, List.nodup_nil⟩

/-- The window of a database, if the table has one. -/
def find (table : AnchorTable) (uuid : Uuid) : Option AnchorEntry :=
  table.entries.find? fun e => e.uuid = uuid

end AnchorTable

/-- The payload of one anchor slot. -/
structure AnchorPayload where
  seq : Nat
  table : AnchorTable
  deriving DecidableEq

/-- `anchor.bin`: two sealed slots, written in turn. -/
structure AnchorFile where
  slot0 : SealedBytes AnchorPayload
  slot1 : SealedBytes AnchorPayload
  deriving DecidableEq

namespace AnchorFile

/-- A new anchor file reads as two blank slots. -/
def blank : AnchorFile := ⟨.junk 0, .junk 0⟩

def get (file : AnchorFile) (slot : Nat) : SealedBytes AnchorPayload :=
  if slot = 0 then file.slot0 else file.slot1

def set (file : AnchorFile) (slot : Nat) (sealed : SealedBytes AnchorPayload) : AnchorFile :=
  if slot = 0 then { file with slot0 := sealed } else { file with slot1 := sealed }

@[simp] theorem get_set (file : AnchorFile) (slot : Nat) (sealed : SealedBytes AnchorPayload) :
    (file.set slot sealed).get slot = sealed := by
  by_cases zero : slot = 0 <;> simp [get, set, zero]

end AnchorFile

/-- The payload of one slot, if it authenticates. -/
def anchorSlot (dek : Dek) (file : AnchorFile) (slot : Nat) : Option AnchorPayload :=
  (file.get slot).openWith (.anchorKey dek) (.anchor slot)

/-- The slot that authenticates with the highest `seq`, an earlier slot on a tie. -/
def anchorPick (dek : Dek) (file : AnchorFile) : Option AnchorPayload :=
  match anchorSlot dek file 0, anchorSlot dek file 1 with
  | none, later => later
  | some payload, none => some payload
  | some payload, some later => if later.seq > payload.seq then some later else some payload

/-- `anchor_load`: sequence 0 and an empty table when neither slot authenticates. -/
def anchorLoad (dek : Dek) (file : AnchorFile) : Nat × AnchorTable :=
  match anchorPick dek file with
  | some payload => (payload.seq, payload.table)
  | none => (0, .empty)

/-- `anchor_save`: seals the table into slot `seq % 2`. -/
def anchorSave (dek : Dek) (seq : Nat) (table : AnchorTable) (file : AnchorFile) : AnchorFile :=
  file.set (seq % 2) (.sealed (.anchorKey dek) (.anchor (seq % 2)) ⟨seq, table⟩)

/-- The trusted window of a database, if the anchor has one. -/
def anchorEntry (dek : Dek) (file : AnchorFile) (uuid : Uuid) : Option AnchorEntry :=
  (anchorLoad dek file).2.find uuid

/-- Moves the given fields of an entry forward. -/
def AnchorEntry.raise (e : AnchorEntry) (committed inFlight epochFloor : Option Nat) :
    AnchorEntry :=
  { e with
    committed := match committed with | some c => max e.committed c | none => e.committed
    inFlight := match inFlight with | some f => max e.inFlight f | none => e.inFlight
    epochFloor := match epochFloor with | some ef => max e.epochFloor ef | none => e.epochFloor }

@[simp] theorem raise_uuid (e : AnchorEntry) (committed inFlight epochFloor : Option Nat) :
    (e.raise committed inFlight epochFloor).uuid = e.uuid := rfl

/-- Raises the entry at the first position that carries `uuid`. -/
def raiseFirst (uuid : Uuid) (f : AnchorEntry → AnchorEntry) :
    List AnchorEntry → List AnchorEntry
  | [] => []
  | e :: rest => if e.uuid = uuid then f e :: rest else e :: raiseFirst uuid f rest

theorem map_uuid_raiseFirst {uuid : Uuid} {f : AnchorEntry → AnchorEntry}
    (kept : ∀ e, (f e).uuid = e.uuid) (entries : List AnchorEntry) :
    (raiseFirst uuid f entries).map (fun e => e.uuid) = entries.map fun e => e.uuid := by
  induction entries with
  | nil => rfl
  | cons e rest ih =>
      rw [raiseFirst]
      split
      · rw [List.map_cons, List.map_cons, kept]
      · rw [List.map_cons, List.map_cons, ih]

theorem length_raiseFirst (uuid : Uuid) (f : AnchorEntry → AnchorEntry)
    (entries : List AnchorEntry) : (raiseFirst uuid f entries).length = entries.length := by
  induction entries with
  | nil => rfl
  | cons e rest ih =>
      rw [raiseFirst]
      split
      · rfl
      · rw [List.length_cons, List.length_cons, ih]

/-- The table `anchor_record_full` saves; `none` when it is full. -/
def anchorUpsert (uuid : Uuid) (committed inFlight epochFloor : Option Nat)
    (table : AnchorTable) : Option AnchorTable :=
  if present : uuid ∈ table.entries.map fun e => e.uuid then
    some {
      entries := raiseFirst uuid (·.raise committed inFlight epochFloor) table.entries
      fits := by
        rw [length_raiseFirst]
        exact table.fits
      distinct := by
        rw [map_uuid_raiseFirst (fun e => raise_uuid e committed inFlight epochFloor)]
        exact table.distinct }
  else if full : table.entries.length ≥ anchorCap then none
  else
    some {
      entries := table.entries ++ [⟨uuid, committed.getD 0, inFlight.getD 0, epochFloor.getD 0⟩]
      fits := by
        rw [List.length_append, List.length_singleton]
        omega
      distinct := by
        rw [List.map_append, List.map_cons, List.map_nil, ← List.concat_eq_append]
        exact table.distinct.concat present }

section Upsert

variable {uuid : Uuid} {committed inFlight epochFloor : Option Nat} {table : AnchorTable}

theorem anchorUpsert_of_mem (committed inFlight epochFloor : Option Nat) (present : uuid ∈ table.entries.map fun e => e.uuid) :
    ∃ next, anchorUpsert uuid committed inFlight epochFloor table = some next ∧
      next.entries = raiseFirst uuid (·.raise committed inFlight epochFloor) table.entries := by
  rw [anchorUpsert, dif_pos present]
  exact ⟨_, rfl, rfl⟩

theorem anchorUpsert_of_not_mem (committed inFlight epochFloor : Option Nat) (absent : uuid ∉ table.entries.map fun e => e.uuid)
    (room : table.entries.length < anchorCap) :
    ∃ next, anchorUpsert uuid committed inFlight epochFloor table = some next ∧
      next.entries = table.entries ++
        [⟨uuid, committed.getD 0, inFlight.getD 0, epochFloor.getD 0⟩] := by
  rw [anchorUpsert, dif_neg absent, dif_neg (Nat.not_le.mpr room)]
  exact ⟨_, rfl, rfl⟩

/-- A window is refused only where the table is full of others. -/
theorem anchorUpsert_ne_none : anchorUpsert uuid committed inFlight epochFloor table ≠ none ↔
    uuid ∈ table.entries.map (fun e => e.uuid) ∨ table.entries.length < anchorCap := by
  by_cases present : uuid ∈ table.entries.map fun e => e.uuid
  · obtain ⟨next, saved, _⟩ := anchorUpsert_of_mem committed inFlight epochFloor present
    rw [saved]
    exact iff_of_true (Option.some_ne_none _) (Or.inl present)
  · by_cases room : table.entries.length < anchorCap
    · obtain ⟨next, saved, _⟩ := anchorUpsert_of_not_mem committed inFlight epochFloor
        present room
      rw [saved]
      exact iff_of_true (Option.some_ne_none _) (Or.inr room)
    · rw [anchorUpsert, dif_neg present, dif_pos (Nat.not_lt.mp room)]
      exact iff_of_false (fun no => no rfl) (not_or.mpr ⟨present, room⟩)

theorem find?_raiseFirst {f : AnchorEntry → AnchorEntry} (kept : ∀ e, (f e).uuid = e.uuid)
    (other : Uuid) (entries : List AnchorEntry) :
    (raiseFirst uuid f entries).find? (fun e => e.uuid = other) =
      (entries.find? fun e => e.uuid = other).map fun e => if other = uuid then f e else e := by
  induction entries with
  | nil => rfl
  | cons e rest ih =>
      by_cases here : e.uuid = uuid
      · rw [raiseFirst, if_pos here]
        by_cases sought : e.uuid = other
        · rw [List.find?_cons_of_pos (by simp [kept, sought]),
            List.find?_cons_of_pos (by simp [sought]), Option.map_some, if_pos (sought.symm.trans here)]
        · rw [List.find?_cons_of_neg (by simp [kept, sought]),
            List.find?_cons_of_neg (by simp [sought])]
          have apart : other ≠ uuid := fun same => sought (here.trans same.symm)
          simp [apart]
      · rw [raiseFirst, if_neg here]
        by_cases sought : e.uuid = other
        · have apart : other ≠ uuid := fun same => here (sought.trans same)
          rw [List.find?_cons_of_pos (by simp [sought]), List.find?_cons_of_pos (by simp [sought]),
            Option.map_some, if_neg apart]
        · rw [List.find?_cons_of_neg (by simp [sought]), List.find?_cons_of_neg (by simp [sought]), ih]

/-- A saved window is the old one, or a blank one, moved forward; the others stay. -/
theorem find_anchorUpsert {next : AnchorTable}
    (saved : anchorUpsert uuid committed inFlight epochFloor table = some next) (other : Uuid) :
    next.find other = if other = uuid then
        some (((table.find uuid).getD ⟨uuid, 0, 0, 0⟩).raise committed inFlight epochFloor)
      else table.find other := by
  by_cases present : uuid ∈ table.entries.map fun e => e.uuid
  · obtain ⟨next', saved', entries⟩ := anchorUpsert_of_mem committed inFlight epochFloor
      present
    rw [saved, Option.some.injEq] at saved'
    rw [AnchorTable.find, saved', entries, find?_raiseFirst (fun e => raise_uuid e _ _ _)]
    by_cases same : other = uuid
    · subst same
      have held : (table.entries.find? fun e => e.uuid = other).isSome = true := by
        rw [List.find?_isSome]
        obtain ⟨e, member, same⟩ := List.mem_map.mp present
        exact ⟨e, member, decide_eq_true same⟩
      obtain ⟨e, found⟩ := Option.isSome_iff_exists.mp held
      simp [AnchorTable.find, found]
    · simp only [if_neg same, Option.map_id', AnchorTable.find]
  · have room : table.entries.length < anchorCap := by
      have allowed := anchorUpsert_ne_none.mp (saved ▸ Option.some_ne_none next)
      exact allowed.resolve_left present
    obtain ⟨next', saved', entries⟩ := anchorUpsert_of_not_mem committed inFlight epochFloor
      present room
    rw [saved, Option.some.injEq] at saved'
    have missing : table.entries.find? (fun e => e.uuid = uuid) = none := by
      rw [List.find?_eq_none]
      intro e member same
      exact present (List.mem_map.mpr ⟨e, member, of_decide_eq_true same⟩)
    rw [AnchorTable.find, saved', entries, List.find?_append]
    by_cases same : other = uuid
    · subst same
      simp only [missing, AnchorTable.find, Option.none_or, if_true, Option.getD_none]
      rw [List.find?_cons_of_pos (by simp)]
      cases committed <;> cases inFlight <;> cases epochFloor <;> simp [AnchorEntry.raise]
    · rw [if_neg same, List.find?_cons_of_neg (by simp [Ne.symm same]), List.find?_nil,
        Option.or_none]
      rfl

end Upsert

section Load

variable {dek : Dek} {file : AnchorFile} {payload : AnchorPayload}

theorem anchorPick_cases (dek : Dek) (file : AnchorFile) :
    anchorPick dek file = anchorSlot dek file 0 ∨ anchorPick dek file = anchorSlot dek file 1 := by
  unfold anchorPick
  cases anchorSlot dek file 0 with
  | none => exact Or.inr rfl
  | some payload =>
      cases anchorSlot dek file 1 with
      | none => exact Or.inl rfl
      | some later =>
          by_cases newer : later.seq > payload.seq
          · exact Or.inr (if_pos newer)
          · exact Or.inl (if_neg newer)

/-- No slot that authenticates is newer than the loaded table. -/
theorem anchorSlot_le {slot : Nat} (range : slot < 2)
    (held : anchorSlot dek file slot = some payload) : payload.seq ≤ (anchorLoad dek file).1 := by
  have bit : slot = 0 ∨ slot = 1 := by omega
  unfold anchorLoad anchorPick
  rcases bit with rfl | rfl
  · rw [held]
    cases anchorSlot dek file 1 with
    | none => exact Nat.le_refl _
    | some later =>
        by_cases newer : later.seq > payload.seq
        · simp only [newer, if_true]
          omega
        · simp only [newer, if_false, Nat.le_refl]
  · rw [held]
    cases anchorSlot dek file 0 with
    | none => exact Nat.le_refl _
    | some earlier =>
        by_cases newer : payload.seq > earlier.seq
        · simp only [newer, if_true, Nat.le_refl]
        · simp only [newer, if_false]
          omega

theorem anchorSlot_save {seq slot : Nat} {table : AnchorTable} (range : slot < 2) :
    anchorSlot dek (anchorSave dek seq table file) slot =
      if slot = seq % 2 then some ⟨seq, table⟩ else anchorSlot dek file slot := by
  have bit : seq % 2 = 0 ∨ seq % 2 = 1 := by omega
  have bit' : slot = 0 ∨ slot = 1 := by omega
  rcases bit with parity | parity <;> rcases bit' with rfl | rfl <;>
    simp [anchorSlot, anchorSave, AnchorFile.get, AnchorFile.set, parity]

/-- A table saved with a newer sequence number is the one loaded next. -/
theorem anchorLoad_save {seq : Nat} {table : AnchorTable} (newer : (anchorLoad dek file).1 < seq) :
    anchorLoad dek (anchorSave dek seq table file) = (seq, table) := by
  have bit : seq % 2 = 0 ∨ seq % 2 = 1 := by omega
  unfold anchorLoad anchorPick
  rw [anchorSlot_save (by omega), anchorSlot_save (by omega)]
  rcases bit with parity | parity
  · rw [if_pos parity.symm, if_neg (by omega)]
    cases held : anchorSlot dek file 1 with
    | none => rfl
    | some later =>
        have older := anchorSlot_le (by omega) held
        simp only
        rw [if_neg (by omega)]
  · rw [if_neg (by omega), if_pos parity.symm]
    cases held : anchorSlot dek file 0 with
    | none => rfl
    | some earlier =>
        have older := anchorSlot_le (by omega) held
        simp only
        rw [if_pos (by omega)]

end Load

end Freehold
