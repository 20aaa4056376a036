import Freehold.Lib.Cursor
import Freehold.PoolWrites
import Freehold.Vault

set_option autoImplicit false

namespace Freehold

open CrashLogic

def uuidBytes (uuid : Uuid) : List UInt8 := Cursor.toLe 16 uuid.toNat

/-- What a token attests. The legacy layout has no envelope generation. -/
structure EpochToken where
  uuid : Uuid
  generation : UInt64
  envGeneration : Option UInt64
  deviceId : Vector UInt8 16

namespace EpochToken

/-- The payload: 48 bytes, or 40 in the legacy layout. -/
def plain (token : EpochToken) : List UInt8 :=
  uuidBytes token.uuid ++ Cursor.toLe 8 token.generation.toNat ++
    (match token.envGeneration with
      | some env => Cursor.toLe 8 env.toNat
      | none => []) ++ token.deviceId.toList

def sealed (dek : Dek) (token : EpochToken) : SealedBytes (List UInt8) :=
  .sealed (.epochKey dek) .epoch token.plain

/-- The generations the token was minted for. -/
def minted (token : EpochToken) : Nat × Nat :=
  (token.generation.toNat, (token.envGeneration.getD 0).toNat)

/-- What the parser takes for the envelope generation. -/
def readEnv (token : EpochToken) : Nat :=
  match token.envGeneration with
  | some env => env.toNat
  | none => fromLe (token.deviceId.toList.take 8)

end EpochToken

/-- `export_epoch`, on the device `deviceId`. -/
def Pool.exportEpoch (deviceId : Vector UInt8 16) (dbName : FileName) (envGeneration : UInt64)
    (pool : Pool) : Except OpfsSAHError (SealedBytes (List UInt8)) := do
  let mname := manifestName dbName
  if pool.hasFilename mname then
    let (uuid, payload) ← pool.readManifest mname
    return .sealed (.epochKey pool.dek) .epoch
      (uuidBytes uuid ++ Cursor.toLe 8 payload.dbGeneration ++ Cursor.toLe 8 envGeneration.toNat ++
        deviceId.toList)
  else .error (.generic "no manifest — nothing to attest")

section Layout

theorem fromLe_eq_ofLe (bytes : List UInt8) : fromLe bytes = Cursor.ofLe bytes := by
  induction bytes with
  | nil => rfl
  | cons byte bytes ih => rw [fromLe, Cursor.ofLe, ih]

theorem fromLe_toLe {n value : Nat} (small : value < 256 ^ n) :
    fromLe (Cursor.toLe n value) = value := by
  rw [fromLe_eq_ofLe, Cursor.ofLe_toLe small]

theorem fromLe_eq_zero {bytes : List UInt8} : fromLe bytes = 0 ↔ ∀ byte ∈ bytes, byte = 0 := by
  induction bytes with
  | nil => simp [fromLe]
  | cons byte bytes ih =>
      rw [fromLe, List.forall_mem_cons, ← ih, ← UInt8.toNat_inj]
      show _ ↔ byte.toNat = 0 ∧ _
      omega

theorem uuidOf_uuidBytes (uuid : Uuid) : uuidOf (uuidBytes uuid) = uuid := by
  rw [uuidOf, uuidBytes, fromLe_toLe (Nat.lt_of_lt_of_le uuid.isLt (by decide)), BitVec.ofNat_toNat,
    BitVec.setWidth_eq]

theorem toLe_mod (n value : Nat) : Cursor.toLe n (value % 256 ^ n) = Cursor.toLe n value := by
  induction n generalizing value with
  | zero => rfl
  | succ n ih =>
      have low : value % 256 ^ (n + 1) % 256 = value % 256 := by
        rw [Nat.pow_succ, Nat.mod_mul_left_mod]
      have high : value % 256 ^ (n + 1) / 256 = value / 256 % 256 ^ n := by
        rw [Nat.pow_succ, Nat.mul_comm, Nat.mod_mul_right_div_self]
      rw [Cursor.toLe, Cursor.toLe, low, high, ih]

theorem toLe_ofNat (n : Nat) : Cursor.toLe 8 (UInt64.ofNat n).toNat = Cursor.toLe 8 n := by
  rw [UInt64.toNat_ofNat']
  exact toLe_mod 8 n

theorem parseEpoch_plain (token : EpochToken) :
    parseEpoch token.plain = .ok (token.uuid, token.generation.toNat, token.readEnv) := by
  obtain ⟨uuid, generation, envGeneration, deviceId⟩ := token
  have widthU : (uuidBytes uuid).length = 16 := Cursor.length_toLe _ _
  have widthG : (Cursor.toLe 8 generation.toNat).length = 8 := Cursor.length_toLe _ _
  have widthD : deviceId.toList.length = 16 := deviceId.length_toList
  have small (word : UInt64) : fromLe (Cursor.toLe 8 word.toNat) = word.toNat :=
    fromLe_toLe (Nat.lt_of_lt_of_le word.toNat_lt (by decide))
  -- the third field is the envelope generation, or the first half of the device id
  obtain ⟨third, rest, widthT, tail, value⟩ : ∃ third rest : List UInt8, third.length = 8 ∧
      (match envGeneration with
        | some env => Cursor.toLe 8 env.toNat
        | none => []) ++ deviceId.toList = third ++ rest ∧
      fromLe third = EpochToken.readEnv ⟨uuid, generation, envGeneration, deviceId⟩ := by
    cases envGeneration with
    | some env => exact ⟨_, _, Cursor.length_toLe _ _, rfl, small env⟩
    | none =>
        refine ⟨deviceId.toList.take 8, deviceId.toList.drop 8, ?_, ?_, rfl⟩
        · rw [List.length_take, widthD]
          rfl
        · rw [List.take_append_drop, List.nil_append]
  have whole : EpochToken.plain ⟨uuid, generation, envGeneration, deviceId⟩ =
      uuidBytes uuid ++ (Cursor.toLe 8 generation.toNat ++ (third ++ rest)) := by
    rw [EpochToken.plain, List.append_assoc, tail, List.append_assoc]
  have length : (EpochToken.plain ⟨uuid, generation, envGeneration, deviceId⟩).length =
      32 + rest.length := by
    rw [whole]
    simp only [List.length_append, widthU, widthG, widthT]
    omega
  have first : (EpochToken.plain ⟨uuid, generation, envGeneration, deviceId⟩).take 16 =
      uuidBytes uuid := by
    rw [whole, ← widthU, List.take_left]
  have second : slice (EpochToken.plain ⟨uuid, generation, envGeneration, deviceId⟩) 16 8 =
      Cursor.toLe 8 generation.toNat := by
    have cut := slice_middle (uuidBytes uuid) (Cursor.toLe 8 generation.toNat) (third ++ rest)
    rw [widthU, widthG] at cut
    rw [whole, ← List.append_assoc, cut]
  have last : slice (EpochToken.plain ⟨uuid, generation, envGeneration, deviceId⟩) 24 8 = third := by
    have cut := slice_middle (uuidBytes uuid ++ Cursor.toLe 8 generation.toNat) third rest
    rw [List.length_append, widthU, widthG, widthT] at cut
    rw [whole, ← List.append_assoc, ← List.append_assoc, cut]
  rw [parseEpoch, if_neg (by omega), first, second, last, if_pos (by omega), uuidOf_uuidBytes, small,
    value]

end Layout

namespace Pool

/-- The table with the window and the floor of a token raised. -/
def raised (pool : Pool) (token : EpochToken) : Option AnchorTable :=
  let gen := token.generation.toNat
  anchorUpsert token.uuid (some gen) (some gen) (some gen) (anchorLoad pool.dek pool.anchor).2

variable {pool : Pool} {token : EpochToken}

theorem applyEpoch_sealed (token : EpochToken) (pool : Pool) :
    applyEpoch (token.sealed pool.dek) pool =
      (anchorRecordFull token.uuid (some token.generation.toNat) (some token.generation.toNat)
        (some token.generation.toNat) >>= fun _ => pure (token.generation.toNat, token.readEnv)) pool := by
  unfold applyEpoch
  rw [Prog.get_bind, EpochToken.sealed, Aead.openWith_sealed]
  dsimp only
  rw [parseEpoch_plain, Prog.ofExcept_ok_bind]

theorem applyEpoch_some {table : AnchorTable} (room : pool.raised token = some table) :
    applyEpoch (token.sealed pool.dek) pool =
      ⟨[pool, pool.savedOnce table], pool.savedTwice table,
        .ok (token.generation.toNat, token.readEnv)⟩ := by
  have recorded := anchorRecordFull_some room
  rw [Option.isSome_some, if_pos rfl] at recorded
  rw [applyEpoch_sealed, Prog.bind_of_ok recorded]
  rfl

theorem applyEpoch_none (full : pool.raised token = none) :
    ∃ e, applyEpoch (token.sealed pool.dek) pool = ⟨[], pool, .error e⟩ :=
  ⟨_, by rw [applyEpoch_sealed, Prog.bind_of_error (anchorRecordFull_none full)]⟩

/-- Whether the anchor can track the database of a token. -/
def Tracks (pool : Pool) (uuid : Uuid) : Prop :=
  let table := (anchorLoad pool.dek pool.anchor).2
  uuid ∈ table.entries.map (fun e => e.uuid) ∨ table.entries.length < anchorCap

theorem raised_ne_none : pool.raised token ≠ none ↔ pool.Tracks token.uuid := anchorUpsert_ne_none

/-- The trusted window of a database. -/
def window (pool : Pool) (uuid : Uuid) : Option AnchorEntry := anchorEntry pool.dek pool.anchor uuid

/-- The floor a database is held to; without a window there is none. -/
def floorOf (pool : Pool) (uuid : Uuid) : Nat := ((pool.window uuid).map fun e => e.epochFloor).getD 0

theorem anchorLoad_savedOnce (pool : Pool) (table : AnchorTable) :
    anchorLoad pool.dek (pool.savedOnce table).anchor = ((anchorLoad pool.dek pool.anchor).1 + 1, table) :=
  anchorLoad_save (Nat.lt_succ_self _)

theorem anchorLoad_savedTwice (pool : Pool) (table : AnchorTable) :
    anchorLoad pool.dek (pool.savedTwice table).anchor = ((anchorLoad pool.dek pool.anchor).1 + 2, table) := by
  apply anchorLoad_save
  rw [anchorLoad_savedOnce]
  exact Nat.lt_succ_self _

theorem window_savedTwice {table : AnchorTable} (room : pool.raised token = some table) (uuid : Uuid) :
    (pool.savedTwice table).window uuid =
      if uuid = token.uuid then
        some (((pool.window uuid).getD ⟨uuid, 0, 0, 0⟩).raise (some token.generation.toNat)
          (some token.generation.toNat) (some token.generation.toNat))
      else pool.window uuid := by
  have found := find_anchorUpsert room uuid
  have loaded : (pool.savedTwice table).window uuid = table.find uuid := by
    show (anchorLoad pool.dek (pool.savedTwice table).anchor).2.find uuid = _
    rw [anchorLoad_savedTwice]
  rw [loaded, found]
  split
  · next same =>
      subst same
      rfl
  · rfl

theorem floorOf_savedTwice {table : AnchorTable} (room : pool.raised token = some table) (uuid : Uuid) :
    (pool.savedTwice table).floorOf uuid =
      if token.uuid = uuid then max (pool.floorOf uuid) token.generation.toNat else pool.floorOf uuid := by
  rw [floorOf, window_savedTwice room]
  by_cases same : uuid = token.uuid
  · rw [if_pos same, if_pos same.symm, floorOf]
    cases pool.window uuid with
    | none => rfl
    | some e => rfl
  · rw [if_neg same, if_neg (Ne.symm same), floorOf]

/-- Applies the tokens one after the other. -/
def applyEpochs (tokens : List (SealedBytes (List UInt8))) : PoolM Unit :=
  Prog.forEach (fun token => do let _ ← applyEpoch token) tokens

theorem applyEpochs_some {table : AnchorTable} (room : pool.raised token = some table)
    (tokens : List EpochToken) :
    let rest := applyEpochs (tokens.map (EpochToken.sealed pool.dek)) (pool.savedTwice table)
    applyEpochs ((token :: tokens).map (EpochToken.sealed pool.dek)) pool =
      ⟨[pool, pool.savedOnce table] ++ rest.passed, rest.state, rest.result⟩ := by
  have body : (applyEpoch (token.sealed pool.dek) >>= fun _ => pure ()) pool =
      (⟨[pool, pool.savedOnce table], pool.savedTwice table, .ok ()⟩ : Outcome Pool OpfsSAHError Unit) := by
    rw [Prog.bind_of_ok (applyEpoch_some room)]
    rfl
  exact Prog.bind_of_ok body

theorem applyEpochs_none (full : pool.raised token = none) (tokens : List EpochToken) :
    ∃ e, applyEpochs ((token :: tokens).map (EpochToken.sealed pool.dek)) pool = ⟨[], pool, .error e⟩ := by
  obtain ⟨e, refused⟩ := applyEpoch_none full
  have body : (applyEpoch (token.sealed pool.dek) >>= fun _ => pure ()) pool =
      (⟨[], pool, .error e⟩ : Outcome Pool OpfsSAHError Unit) := Prog.bind_of_error refused
  exact ⟨e, Prog.bind_of_error body⟩

/-- What is left of a run of tokens that all succeed: the floors are maxima, and a database that
no token names keeps its window. -/
theorem applyEpochs_window (tokens : List EpochToken) {pool : Pool}
    (succeeded : (applyEpochs (tokens.map (EpochToken.sealed pool.dek)) pool).result = .ok ()) (uuid : Uuid) :
    let after := (applyEpochs (tokens.map (EpochToken.sealed pool.dek)) pool).state
    after.floorOf uuid = ((tokens.filter fun token => token.uuid = uuid).map
        fun token => token.generation.toNat).foldl max (pool.floorOf uuid) ∧
      ((∀ token ∈ tokens, token.uuid ≠ uuid) → after.window uuid = pool.window uuid) := by
  induction tokens generalizing pool with
  | nil => exact ⟨rfl, fun _ => rfl⟩
  | cons token tokens ih =>
      cases room : pool.raised token with
      | none =>
          obtain ⟨e, refused⟩ := applyEpochs_none room tokens
          rw [refused] at succeeded
          cases succeeded
      | some table =>
          have ran := applyEpochs_some room tokens
          rw [ran] at succeeded ⊢
          obtain ⟨floors, others⟩ := @ih (pool.savedTwice table) succeeded
          refine ⟨?_, ?_⟩
          · show (applyEpochs _ (pool.savedTwice table)).state.floorOf uuid = _
            refine floors.trans ?_
            rw [floorOf_savedTwice room, List.filter_cons]
            by_cases same : token.uuid = uuid
            · rw [if_pos same, if_pos (decide_eq_true same)]
              rfl
            · rw [if_neg same, if_neg (by simpa using same)]
          · intro unnamed
            refine (others fun t member => unnamed t (List.mem_cons_of_mem _ member)).trans ?_
            rw [window_savedTwice room, if_neg (Ne.symm (unnamed token List.mem_cons_self))]

theorem exportEpoch_eq {deviceId : Vector UInt8 16} {dbName : FileName} {envGeneration : UInt64}
    {blob : SealedBytes (List UInt8)} (exported : pool.exportEpoch deviceId dbName envGeneration = .ok blob) :
    ∃ uuid payload, pool.readManifest (manifestName dbName) = .ok (uuid, payload) ∧
      blob = EpochToken.sealed pool.dek
        ⟨uuid, UInt64.ofNat payload.dbGeneration, some envGeneration, deviceId⟩ := by
  unfold exportEpoch at exported
  dsimp only at exported
  split at exported
  · cases read : pool.readManifest (manifestName dbName) with
    | error e =>
        rw [read] at exported
        cases exported
    | ok found =>
        rw [read] at exported
        cases exported
        refine ⟨found.1, found.2, rfl, ?_⟩
        rw [EpochToken.sealed, EpochToken.plain, toLe_ofNat]
  · cases exported

end Pool

/-- The legacy tokens the parser reads right: their device id begins with eight zero bytes. -/
def EpochToken.Told (token : EpochToken) : Prop :=
  token.envGeneration = none → ∀ byte ∈ token.deviceId.toList.take 8, byte = 0

theorem EpochToken.readEnv_eq_iff (token : EpochToken) :
    token.readEnv = (token.envGeneration.getD 0).toNat ↔ token.Told := by
  unfold Told readEnv
  cases token.envGeneration with
  | some env => exact iff_of_true rfl fun absent => (nomatch absent)
  | none =>
      show fromLe _ = 0 ↔ _
      rw [fromLe_eq_zero]
      exact ⟨fun zero _ => zero, fun zero => zero rfl⟩

/-- What tokens do. An exported one carries the generations of the manifest and of the caller. A token
returns what it was minted for exactly when the anchor can track the database and it is no legacy
token or its device id begins with zeros. Tokens that all succeed leave each floor at the maximum of
what it was and what they attest, and every other window as it was. -/
theorem epoch_tokens (pool : Pool) :
    (∀ (deviceId : Vector UInt8 16) (dbName : FileName) (envGeneration : UInt64)
      (blob : SealedBytes (List UInt8)), pool.exportEpoch deviceId dbName envGeneration = .ok blob →
        ∃ uuid payload, pool.readManifest (manifestName dbName) = .ok (uuid, payload) ∧
          blob = EpochToken.sealed pool.dek
            ⟨uuid, UInt64.ofNat payload.dbGeneration, some envGeneration, deviceId⟩) ∧
    (∀ token : EpochToken, (Pool.applyEpoch (token.sealed pool.dek) pool).result = .ok token.minted ↔
      pool.Tracks token.uuid ∧ token.Told) ∧
    ∀ tokens : List EpochToken,
      (Pool.applyEpochs (tokens.map (EpochToken.sealed pool.dek)) pool).result = .ok () → ∀ uuid,
        let after := (Pool.applyEpochs (tokens.map (EpochToken.sealed pool.dek)) pool).state
        after.floorOf uuid = ((tokens.filter fun token => token.uuid = uuid).map
            fun token => token.generation.toNat).foldl max (pool.floorOf uuid) ∧
          ((∀ token ∈ tokens, token.uuid ≠ uuid) → after.window uuid = pool.window uuid) := by
  refine ⟨fun deviceId dbName envGeneration blob => Pool.exportEpoch_eq, ?_,
    fun tokens succeeded => Pool.applyEpochs_window tokens succeeded⟩
  intro token
  rw [← Pool.raised_ne_none]
  cases room : pool.raised token with
  | none =>
      obtain ⟨e, refused⟩ := Pool.applyEpoch_none room
      rw [refused]
      exact iff_of_false (fun result => (nomatch result)) fun both => both.1 rfl
  | some table =>
      rw [Pool.applyEpoch_some room, ← EpochToken.readEnv_eq_iff, EpochToken.minted]
      simp

/-- A new pool. -/
def Pool.unused (dek : Dek) : Pool := ⟨dek, ∅, [], .blank, ∅⟩

/-- A token in the legacy layout, of a device whose id begins with the byte 1. -/
def legacyToken : EpochToken := ⟨7, 5, none, Vector.ofFn fun i : Fin 16 => if i = 0 then 1 else 0⟩

theorem legacyToken_attests :
    (Pool.applyEpoch (legacyToken.sealed 0) (Pool.unused 0)).result = .ok (5, 1) := by
  have room : (Pool.unused 0).raised legacyToken ≠ none := by
    rw [Pool.raised_ne_none]
    exact .inr (by decide)
  obtain ⟨table, room⟩ := Option.ne_none_iff_exists'.mp room
  have ran := Pool.applyEpoch_some room
  have result := congrArg Outcome.result ran
  exact result

/-- It was minted for no envelope generation. -/
theorem legacyToken_locks_out :
    (Pool.applyEpoch (legacyToken.sealed 0) (Pool.unused 0)).result ≠ .ok legacyToken.minted := by
  rw [legacyToken_attests]
  decide

end Freehold
