import Freehold.Envelope
import Freehold.Lib.Runs

set_option autoImplicit false

namespace Freehold

/-- A mutation by a caller that holds the DEK; a rotation with what it draws. -/
inductive Mutation where
  | addPasskeySlot (prfOutput : List UInt8)
  | addRecoverySlot (code : List Char)
  | removeSlot (kekId : UInt8)
  | stripKind (kind : UInt8)
  | rotateEnvelope (newDek : Dek) (survivingPrf : List UInt8) (envSalt : BitVec 128) (code : List Char)

/-- A method that was enrolled, with the id and the kind of its slot. -/
structure Enrollment where
  kekId : UInt8
  kind : UInt8
  method : Method
  deriving DecidableEq

/-- An envelope and its current DEK, with a ledger of the methods enrolled and not
since removed, stripped or rotated away. -/
structure Enrolled where
  env : Envelope
  dek : Dek
  methods : List Enrollment
  deriving DecidableEq

/-- The call on the envelope. -/
def Mutation.apply (env : Envelope) (dek : Dek) : Mutation → Except EnvelopeError Envelope
  | .addPasskeySlot prfOutput => env.addPasskeySlot dek prfOutput
  | .addRecoverySlot code => env.addRecoverySlot dek code
  | .removeSlot kekId => env.removeSlot dek kekId
  | .stripKind kind => env.stripKind dek kind
  | .rotateEnvelope newDek survivingPrf envSalt code =>
      env.rotateEnvelope newDek survivingPrf envSalt code

/-- The DEK after the call. -/
def Mutation.dek (dek : Dek) : Mutation → Dek
  | .rotateEnvelope newDek _ _ _ => newDek
  | _ => dek

/-- What the call means for the ledger: an id stands for one enrollment. -/
def Mutation.record (s : Enrolled) : Mutation → List Enrollment
  | .addPasskeySlot prfOutput =>
      s.methods ++ [⟨Envelope.nextKekId s.env.body.slots, kindPasskey, .prf prfOutput⟩]
  | .addRecoverySlot code =>
      s.methods ++ [⟨Envelope.nextKekId s.env.body.slots, kindRecovery, .recovery code⟩]
  | .removeSlot kekId => s.methods.eraseP fun e => e.kekId = kekId
  | .stripKind kind => s.methods.filter fun e => e.kind ≠ kind
  | .rotateEnvelope _ survivingPrf _ code =>
      [⟨0, kindPasskey, .prf survivingPrf⟩, ⟨1, kindRecovery, .recovery code⟩]

namespace Enrolled

/-- `create_envelope` or, with `kindDevice`, `create_device_envelope`. -/
def create (envSalt : BitVec 128) (dek : Dek) (secret : List UInt8) (kind : UInt8) : Enrolled :=
  ⟨Envelope.createEnvelopeKind envSalt dek secret kind, dek, [⟨0, kind, .prf secret⟩]⟩

/-- A call that returns `Ok`. -/
def step (s : Enrolled) (mutation : Mutation) : Option Enrolled :=
  match mutation.apply s.env s.dek with
  | .ok env => some ⟨env, mutation.dek s.dek, mutation.record s⟩
  | .error _ => none

/-- The slot an enrollment stands for. -/
def slotOf (dek : Dek) (envSalt : BitVec 128) (e : Enrollment) : Slot :=
  Envelope.wrapSlot dek (Envelope.kekOf envSalt e.method) e.kekId e.kind

/-- The envelope is well formed and admits exactly the methods of the ledger. -/
structure Exact (s : Enrolled) : Prop where
  parses : s.env.parse = .ok s.env.body.slots.length
  counted : 1 ≤ s.env.body.slots.length ∧ s.env.body.slots.length ≤ 255
  distinct : (s.env.body.slots.map fun slot => slot.kekId).Nodup
  admits : ∀ e ∈ s.methods, s.env.openWith e.method = .ok s.dek
  refuses : ∀ method, (∀ e ∈ s.methods, e.method ≠ method) → ∀ dek, s.env.openWith method ≠ .ok dek
  removesOne : ∀ kekId env, s.env.removeSlot s.dek kekId = .ok env → ∃ before slot after,
    s.env.body.slots = before ++ slot :: after ∧ slot.kekId = kekId ∧ env.body.slots = before ++ after

/-- Room for one more slot: the count byte does not overflow, and the next id is not
one that wraps around to a slot that is still there. -/
def Roomy (slots : List Slot) : Prop :=
  slots.length < 255 ∧ ((∃ slot ∈ slots, slot.kekId = 255) → ∀ slot ∈ slots, slot.kekId ≠ 0)

instance : DecidablePred Roomy := fun _ => inferInstanceAs (Decidable (_ ∧ _))

/-- The condition on a call. -/
def allowed (s : Enrolled) : Mutation → Prop
  | .addPasskeySlot _ | .addRecoverySlot _ => Roomy s.env.body.slots
  | _ => True

instance (s : Enrolled) : DecidablePred (allowed s)
  | .addPasskeySlot _ | .addRecoverySlot _ => inferInstanceAs (Decidable (Roomy _))
  | .removeSlot _ | .stripKind _ | .rotateEnvelope .. => inferInstanceAs (Decidable True)

/-- The slots are those of the ledger, and there are not too many and not too few. -/
structure Inv (s : Enrolled) : Prop where
  issued : s.env.IssuedUnder s.dek
  slots : s.env.body.slots = s.methods.map (slotOf s.dek s.env.body.envSalt)
  counted : 1 ≤ s.methods.length ∧ s.methods.length ≤ 255
  distinct : (s.methods.map fun e => e.kekId).Nodup

section Slots

variable {dek : Dek} {envSalt : BitVec 128} {slots : List Slot} {methods : List Enrollment}

theorem max?_bounds {ids : List UInt8} {largest : UInt8} (found : ids.max? = some largest) :
    largest ∈ ids ∧ ∀ id ∈ ids, id ≤ largest := by
  have lawful : Std.LawfulOrderMax UInt8 := by
    apply Std.LawfulOrderMax.of_max_le_iff
    · intro a b c
      by_cases less : a ≤ b
      · rw [show max a b = b from if_pos less]
        exact ⟨fun le => ⟨UInt8.le_trans less le, le⟩, And.right⟩
      · have more := (UInt8.le_total a b).resolve_left less
        rw [show max a b = a from if_neg less]
        exact ⟨fun le => ⟨le, UInt8.le_trans more le⟩, And.left⟩
    · intro a b
      by_cases less : a ≤ b
      · exact Or.inr (if_pos less)
      · exact Or.inl (if_neg less)
  exact List.max?_eq_some_iff.mp found

/-- An id the next slot does not share. -/
theorem Roomy.fresh (roomy : Roomy slots) :
    Envelope.nextKekId slots ∉ slots.map fun slot => slot.kekId := by
  unfold Envelope.nextKekId
  cases found : (slots.map fun slot => slot.kekId).max? with
  | none =>
      rw [List.max?_eq_none_iff] at found
      rw [found]
      exact List.not_mem_nil
  | some largest =>
      obtain ⟨member, bound⟩ := max?_bounds found
      simp only
      intro again
      by_cases top : largest = 255
      · subst top
        obtain ⟨slot, listed, same⟩ := List.mem_map.mp member
        obtain ⟨other, listed', zero⟩ := List.mem_map.mp again
        exact roomy.2 ⟨slot, listed, same⟩ other listed' zero
      · have least := UInt8.le_iff_toNat_le.mp (bound _ again)
        have short : largest.toNat ≠ 255 := fun same => top (UInt8.toNat.inj same)
        have bits := largest.toNat_lt
        rw [UInt8.toNat_add] at least
        change (largest.toNat + 1) % 256 ≤ largest.toNat at least
        omega

theorem kekOf_injective : Function.Injective (Envelope.kekOf envSalt) := by
  intro m m' same
  cases m <;> cases m' <;> cases same <;> rfl

/-- A slot opens to the DEK under the key of its own method. -/
theorem openWith_slotOf (e : Enrollment) (method : Method) :
    (slotOf dek envSalt e).wrapped.openWith (Envelope.kekOf envSalt method)
      ((slotOf dek envSalt e).kekId, (slotOf dek envSalt e).kind) =
        if e.method = method then some dek else none := by
  by_cases same : e.method = method
  · rw [if_pos same, slotOf, same]
    exact Aead.openWith_sealed _ _ _
  · rw [if_neg same]
    exact Aead.openWith_other_key _ _ _ fun keys => same (kekOf_injective keys)

theorem findSome?_slotOf (method : Method) :
    ((methods.map (slotOf dek envSalt)).findSome? fun slot =>
      slot.wrapped.openWith (Envelope.kekOf envSalt method) (slot.kekId, slot.kind)) =
        if ∃ e ∈ methods, e.method = method then some dek else none := by
  induction methods with
  | nil => simp
  | cons e rest ih =>
      rw [List.map_cons, List.findSome?_cons, openWith_slotOf]
      by_cases same : e.method = method
      · simp [same]
      · simp [same, ih]

theorem map_kekId_slotOf : (methods.map (slotOf dek envSalt)).map (fun slot => slot.kekId) =
    methods.map fun e => e.kekId := by
  rw [List.map_map]
  rfl

end Slots

section Invariant

variable {s next : Enrolled} {mutation : Mutation}

theorem Inv.length (inv : Inv s) : s.env.body.slots.length = s.methods.length := by
  rw [inv.slots, List.length_map]

theorem Inv.short (inv : Inv s) : s.env.body.slots.length ≤ 255 := inv.length ▸ inv.counted.2

theorem Inv.ids (inv : Inv s) :
    s.env.body.slots.map (fun slot => slot.kekId) = s.methods.map fun e => e.kekId := by
  rw [inv.slots, map_kekId_slotOf]

theorem Inv.openWith (inv : Inv s) (method : Method) (dek : Dek) :
    s.env.openWith method = .ok dek ↔ (∃ e ∈ s.methods, e.method = method) ∧ dek = s.dek := by
  rw [Envelope.openWith, Envelope.openWithKek_ok, inv.slots, findSome?_slotOf, List.length_map]
  constructor
  · rintro ⟨_, _, found⟩
    split at found
    · next enrolled => exact ⟨enrolled, (Option.some.inj found).symm⟩
    · cases found
  · rintro ⟨enrolled, rfl⟩
    exact ⟨inv.counted.2, inv.issued, if_pos enrolled⟩

/-- Where keys are distinct, dropping a key drops the first element that has it. -/
theorem filter_ne_eq_eraseP {α : Type} {key : α → UInt8} {l : List α} (distinct : (l.map key).Nodup)
    (k : UInt8) : (l.filter fun a => key a ≠ k) = l.eraseP fun a => key a = k := by
  induction l with
  | nil => rfl
  | cons a rest ih =>
      obtain ⟨fresh, distinct'⟩ := List.nodup_cons.mp distinct
      rw [List.filter_cons, List.eraseP_cons]
      by_cases same : key a = k
      · have others : rest.filter (fun a => key a ≠ k) = rest := by
          rw [List.filter_eq_self]
          intro other member
          rw [decide_eq_true_eq]
          intro again
          exact fresh (List.mem_map.mpr ⟨other, member, again.trans same.symm⟩)
        simp only [same, ne_eq, not_true, decide_false, decide_true, cond_true, Bool.false_eq_true, if_false]
        exact others
      · simp only [same, ne_eq, not_false_eq_true, decide_true, decide_false, cond_false, if_true]
        exact congrArg _ (ih distinct')

/-- A ledger kept exactly is kept by adding a method under a fresh id. -/
theorem Inv.add (inv : Inv s) (roomy : Roomy s.env.body.slots) (kind : UInt8) (method : Method) :
    Inv ⟨Envelope.rebuild s.env s.dek (s.env.body.slots ++
        [Envelope.wrapSlot s.dek (Envelope.kekOf s.env.body.envSalt method)
          (Envelope.nextKekId s.env.body.slots) kind]), s.dek,
      s.methods ++ [⟨Envelope.nextKekId s.env.body.slots, kind, method⟩]⟩ := by
  have short := roomy.1
  have least := inv.counted.1
  rw [inv.length] at short
  refine ⟨rfl, ?_, ?_, ?_⟩
  · change s.env.body.slots ++ [_] = (s.methods ++ [_]).map (slotOf s.dek s.env.body.envSalt)
    rw [List.map_append, ← inv.slots]
    rfl
  · rw [List.length_append, List.length_singleton]
    omega
  · have fresh := roomy.fresh
    rw [inv.ids] at fresh
    rw [List.map_append, List.map_singleton, List.nodup_append]
    refine ⟨inv.distinct, List.nodup_singleton _, ?_⟩
    rintro id member other own rfl
    rw [List.mem_singleton.mp own] at member
    exact fresh member

/-- So is it by keeping some of the methods. -/
theorem Inv.keep (inv : Inv s) {keep : Slot → Bool} {keep' : Enrollment → Bool} (gen : Nat)
    (same : ∀ e, keep (slotOf s.dek s.env.body.envSalt e) = keep' e)
    (some_left : 1 ≤ (s.methods.filter keep').length) :
    Inv ⟨Envelope.rebuildGen s.env s.dek (s.env.body.slots.filter keep) gen, s.dek,
      s.methods.filter keep'⟩ := by
  have fewer := List.length_filter_le keep' s.methods
  refine ⟨rfl, ?_, ⟨some_left, Nat.le_trans fewer inv.counted.2⟩, ?_⟩
  · change s.env.body.slots.filter keep = (s.methods.filter keep').map (slotOf s.dek s.env.body.envSalt)
    rw [inv.slots, List.filter_map, show keep ∘ slotOf s.dek s.env.body.envSalt = keep' from funext same]
  · exact inv.distinct.sublist (List.filter_sublist.map _)

/-- Every allowed call keeps the ledger exact. -/
theorem Inv.step (inv : Inv s) (permitted : allowed s mutation) (taken : step s mutation = some next) :
    Inv next := by
  unfold Enrolled.step at taken
  split at taken
  case h_2 => cases taken
  next env ok =>
  obtain rfl := Option.some.inj taken
  cases mutation with
  | addPasskeySlot prfOutput =>
      obtain ⟨_, rfl⟩ := Envelope.addPasskeySlot_ok.mp ok
      exact inv.add permitted kindPasskey (.prf prfOutput)
  | addRecoverySlot code =>
      obtain ⟨_, rfl⟩ := Envelope.addRecoverySlot_ok.mp ok
      exact inv.add permitted kindRecovery (.recovery code)
  | removeSlot kekId =>
      obtain ⟨_, several, _, rfl⟩ := Envelope.removeSlot_ok.mp ok
      have one : s.methods.length ≤ (s.methods.eraseP fun e => e.kekId = kekId).length + 1 := by
        rw [List.length_eraseP]
        split <;> omega
      rw [inv.length] at several
      rw [Mutation.record]
      rw [← filter_ne_eq_eraseP inv.distinct] at one ⊢
      exact inv.keep _ (fun _ => rfl) (by omega)
  | stripKind kind =>
      obtain ⟨_, some_left, rfl⟩ := Envelope.stripKind_ok.mp ok
      have same : s.env.body.slots.filter (fun slot => slot.kind ≠ kind) =
          (s.methods.filter fun e => e.kind ≠ kind).map (slotOf s.dek s.env.body.envSalt) := by
        rw [inv.slots, List.filter_map]
        rfl
      split
      · next all =>
          rw [same, inv.slots] at all
          have unchanged : s.methods.filter (fun e => e.kind ≠ kind) = s.methods := by
            rw [List.filter_eq_self, ← List.length_filter_eq_length_iff]
            have lengths := congrArg List.length all
            rw [List.length_map, List.length_map] at lengths
            exact lengths
          rw [Mutation.record, unchanged]
          exact inv
      · rw [same, ne_eq, List.map_eq_nil_iff] at some_left
        exact inv.keep _ (fun _ => rfl) (List.length_pos_iff.mpr some_left)
  | rotateEnvelope newDek survivingPrf envSalt code =>
      obtain ⟨_, rfl⟩ := Envelope.rotateEnvelope_ok.mp ok
      refine ⟨rfl, rfl, ?_, ?_⟩
      · change 1 ≤ 2 ∧ 2 ≤ 255
        decide
      · change ([0, 1] : List UInt8).Nodup
        decide

theorem Inv.create (envSalt : BitVec 128) (dek : Dek) (secret : List UInt8) (kind : UInt8) :
    Inv (create envSalt dek secret kind) := by
  refine ⟨rfl, rfl, ?_, List.nodup_singleton _⟩
  change 1 ≤ 1 ∧ 1 ≤ 255
  decide

/-- A ledger that matches the slots is exact. -/
theorem Inv.exact (inv : Inv s) : Exact s := by
  refine ⟨?_, ?_, ?_, ?_, ?_, ?_⟩
  · exact Envelope.parse_ok.mpr ⟨rfl, inv.short⟩
  · rw [inv.length]
    exact inv.counted
  · rw [inv.ids]
    exact inv.distinct
  · intro e member
    exact (inv.openWith e.method s.dek).mpr ⟨⟨e, member, rfl⟩, rfl⟩
  · intro method absent dek opens
    obtain ⟨⟨e, member, same⟩, _⟩ := (inv.openWith method dek).mp opens
    exact absent e member same
  · intro kekId env removed
    obtain ⟨_, _, gone, rfl⟩ := Envelope.removeSlot_ok.mp removed
    have present : ∃ slot ∈ s.env.body.slots, decide (slot.kekId = kekId) = true := by
      by_contra absent
      apply gone
      rw [List.length_filter_eq_length_iff]
      intro slot member
      rw [decide_eq_true_eq]
      exact fun same => absent ⟨slot, member, decide_eq_true same⟩
    obtain ⟨slot, member, holds⟩ := present
    have distinct := inv.distinct
    rw [← inv.ids] at distinct
    obtain ⟨found, before, after, _, same, split, erased⟩ :=
      List.exists_of_eraseP (p := fun slot : Slot => decide (slot.kekId = kekId)) member holds
    refine ⟨before, found, after, split, of_decide_eq_true same, ?_⟩
    change s.env.body.slots.filter _ = _
    rw [filter_ne_eq_eraseP distinct, erased]

end Invariant

/-- As long as every added slot finds room, the envelope stays well formed, admits
exactly the methods enrolled and loses exactly the slot it is told to. -/
theorem mutations_exact (envSalt : BitVec 128) (dek : Dek) (secret : List UInt8) (kind : UInt8)
    {s : Enrolled} (reached : Runs.Reaches step allowed (create envSalt dek secret kind) s) : Exact s :=
  (reached.invariant Inv (.create envSalt dek secret kind)
    fun _ _ _ inv permitted taken => inv.step permitted taken).exact

/-- A device key enrolled first, then a passkey and a recovery code; the device key
stripped and the passkey removed. -/
theorem mutations_exact_sample : ∃ s, Runs.run step (create 5 1 [7] kindDevice)
      [.addPasskeySlot [8], .addRecoverySlot ['C'], .stripKind kindDevice, .removeSlot 1] = some s ∧
    s.methods = [⟨2, kindRecovery, .recovery ['C']⟩] ∧ Exact s := by
  let calls : List Mutation :=
    [.addPasskeySlot [8], .addRecoverySlot ['C'], .stripKind kindDevice, .removeSlot 1]
  let ended := Runs.runWhere step (fun s mutation => decide (allowed s mutation))
    (create 5 1 [7] kindDevice) calls
  have same : ended = Runs.run step (create 5 1 [7] kindDevice) calls := by
    decide +kernel
  have methods : ended.map (fun s => s.methods) = some [⟨2, kindRecovery, .recovery ['C']⟩] := by
    decide +kernel
  obtain ⟨s, ran, left⟩ := Option.map_eq_some_iff.mp methods
  have reached := (Runs.reaches_of_runWhere ran).weaken fun _ _ passed => of_decide_eq_true passed
  exact ⟨s, same ▸ ran, left, mutations_exact 5 1 [7] kindDevice reached⟩

/-- 255 passkeys added to the first slot all return `Ok`, and leave 256 slots under a
count byte of 0. -/
theorem mutations_overflow :
    (Runs.run step (create 5 1 [7] kindPasskey) (List.replicate 255 (.addPasskeySlot [8]))).map
        (fun s => s.env.parse) = some (.error .format) ∧
      ¬ ∀ mutations s, Runs.run step (create 5 1 [7] kindPasskey) mutations = some s → Exact s := by
  have malformed : (Runs.run step (create 5 1 [7] kindPasskey)
      (List.replicate 255 (.addPasskeySlot [8]))).map (fun s => s.env.parse) = some (.error .format) := by
    decide +kernel
  refine ⟨malformed, ?_⟩
  intro exact_always
  obtain ⟨s, ran, fails⟩ := Option.map_eq_some_iff.mp malformed
  have parses := (exact_always _ s ran).parses
  rw [fails] at parses
  cases parses

end Enrolled

end Freehold
