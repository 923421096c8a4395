import NeuroVoice.Watermark
import NeuroVoice.Catalog.State

/-!
# NeuroVoice.Slots

`repos/watermark.py`: how watermark keys come by their 16-bit slots.

`allocate` draws 128 slots at random and takes the first one no active key
holds.  A slot it takes is free; but that it finds none does not mean that none
is free: `slot_allocation`.
-/

namespace NeuroVoice

/-! ## the table -/

/-- A `watermark_keys` row. -/
structure WatermarkKeyRow extends WatermarkKey where
  label : PyStr
  allocatedAt : Nat
  retiredReason : Option PyStr := none
  notes : Option PyStr := none
  createdByOperatorId : Option Uuid := none

/-- `retired_at IS NULL`. -/
def WatermarkKeyRow.isActive (k : WatermarkKeyRow) : Bool := k.retiredAt.isNone

/-- `_MAX_PAYLOAD`. -/
def maxPayload : Nat := 0xFFFF

/-- Primary key, the index `ix_watermark_keys_message_bits_active`, and the
checks. -/
def watermarkKeys : Schema WatermarkKeyRow where
  clash k l := k.id == l.id || (k.isActive && l.isActive && k.messageBits == l.messageBits)
  check k :=
    k.messageBits ≤ maxPayload && (1 ≤ k.label.length && k.label.length ≤ 200) &&
      (k.retiredAt.all fun t => k.allocatedAt ≤ t) && storable k.label &&
      k.retiredReason.all storable && k.notes.all storable
  clash_symm k l := by
    rw [Bool.eq_iff_iff]
    simp only [Bool.or_eq_true, Bool.and_eq_true, beq_iff_eq]
    constructor <;> rintro (h | ⟨⟨h, h'⟩, h''⟩) <;> simp_all

/-! ## the repository -/

/-- What `allocate` is called with; `draws` is what `secrets.randbelow` returns,
`id` and `now` are the column defaults. -/
structure Allocation where
  label : PyStr
  createdByOperatorId : Option Uuid := none
  notes : Option PyStr := none
  messageBits : Option Int := none
  draws : Nat → Fin (maxPayload + 1)
  id : Uuid
  now : Nat

/-- How `allocate` and `retire` fail. -/
inductive WatermarkKeyError where
  /-- `ValueError`: `_next_unused_bits` returned `None`. -/
  | noFreeSlots
  /-- `ValueError`: the explicit bits are no slot. -/
  | outOfRange (bits : Int)
  /-- `ValueError`: the explicit bits are taken. -/
  | alreadyHeld (collision : WatermarkKeyRow)
  /-- The database refuses the row. -/
  | integrityError

/-- `str(e)` of the `ValueError`s, for Python's `repr`. -/
def WatermarkKeyError.text (repr : PyStr → PyStr) : WatermarkKeyError → Option PyStr
  | .noFreeSlots =>
      some (py "no free 16-bit watermark slots; retire an existing key before allocating a new one")
  | .outOfRange bits => some (py ("message_bits must be in 0..65535; got " ++ toString bits))
  | .alreadyHeld k =>
      some (py ("message_bits " ++ toString k.messageBits ++ " is already held by active key ") ++
        uuidStr k.id ++ py " (" ++ repr k.label ++ py ")")
  | .integrityError => none

namespace WatermarkKeyRepo

/-- `get`. -/
def get (t : Table watermarkKeys) (id : Uuid) : Option WatermarkKeyRow :=
  t.find? fun k => k.id == id

/-- `get_active_by_bits`. -/
def getActiveByBits (t : Table watermarkKeys) (bits : Nat) : Option WatermarkKeyRow :=
  t.find? fun k => k.messageBits == bits && k.isActive

/-- `_next_unused_bits`. -/
def nextUnusedBits (t : Table watermarkKeys) (draws : Nat → Fin (maxPayload + 1)) : Option Nat :=
  ((List.range 128).map fun i => (draws i).val).find? fun candidate =>
    (getActiveByBits t candidate).isNone

/-- The bits of the new key. -/
def chooseBits (t : Table watermarkKeys) (a : Allocation) : Except WatermarkKeyError Nat :=
  match a.messageBits with
  | none =>
      match nextUnusedBits t a.draws with
      | none => .error .noFreeSlots
      | some chosen => .ok chosen
  | some bits =>
      if 0 ≤ bits ∧ bits ≤ maxPayload then
        match getActiveByBits t bits.toNat with
        | some collision => .error (.alreadyHeld collision)
        | none => .ok bits.toNat
      else .error (.outOfRange bits)

/-- The row of a new key. -/
def newKey (a : Allocation) (bits : Nat) : WatermarkKeyRow where
  id := a.id
  messageBits := bits
  label := a.label
  notes := a.notes
  createdByOperatorId := a.createdByOperatorId
  allocatedAt := a.now

/-- `allocate`; `operators` is the table the foreign key refers to. -/
def allocate (operators : Uuid → Bool) (t : Table watermarkKeys) (a : Allocation) :
    Except WatermarkKeyError (WatermarkKeyRow × Table watermarkKeys) := do
  let bits ← chooseBits t a
  let key := newKey a bits
  if key.createdByOperatorId.all operators then
    match t.insert key with
    | some t' => .ok (key, t')
    | none => .error .integrityError
  else .error .integrityError

/-- `retire`. -/
def retire (t : Table watermarkKeys) (id : Uuid) (reason : Option PyStr) (retiredAt : Option Nat)
    (now : Nat) : Except WatermarkKeyError (Option WatermarkKeyRow × Table watermarkKeys) :=
  match get t id with
  | none => .ok (none, t)
  | some k =>
      if k.retiredAt.isSome then .ok (some k, t)
      else
        let retired := fun l : WatermarkKeyRow =>
          { l with retiredAt := some (retiredAt.getD now), retiredReason := reason }
        match t.modify (fun l => l.id == id) retired with
        | some t' => .ok (some (retired k), t')
        | none => .error .integrityError

end WatermarkKeyRepo

/-! ## histories -/

/-- A call of an operator. -/
inductive KeyOp where
  | allocate (a : Allocation)
  | retire (id : Uuid) (reason : Option PyStr) (retiredAt : Option Nat) (now : Nat)

/-- The keys after a call: a call that raises is rolled back. -/
def KeyOp.after (operators : Uuid → Bool) (t : Table watermarkKeys) : KeyOp → Table watermarkKeys
  | .allocate a =>
      match WatermarkKeyRepo.allocate operators t a with
      | .ok r => r.2
      | .error _ => t
  | .retire id reason retiredAt now =>
      match WatermarkKeyRepo.retire t id reason retiredAt now with
      | .ok r => r.2
      | .error _ => t

/-! ## the law -/

/-- An active key holds the slot. -/
def Held (t : Table watermarkKeys) (bits : Nat) : Prop :=
  ∃ k ∈ t, k.isActive = true ∧ k.messageBits = bits

/-- Active keys hold all slots. -/
def Full (t : Table watermarkKeys) : Prop := ∀ bits ≤ maxPayload, Held t bits

/-- Active keys have distinct bits. -/
def DistinctBits (rows : List WatermarkKeyRow) : Prop :=
  rows.Pairwise fun k l => k.isActive = true → l.isActive = true → k.messageBits ≠ l.messageBits

/-- The call made an active key on a slot no other active key holds. -/
def Allocates (operators : Uuid → Bool) (t : Table watermarkKeys) (a : Allocation) : Prop :=
  ∃ key t', WatermarkKeyRepo.allocate operators t a = .ok (key, t') ∧
    t'.rows = t.rows ++ [key] ∧ key.isActive = true ∧ key.messageBits ≤ maxPayload ∧
    ¬Held t key.messageBits

/-- It runs out of slots only if there are none, and allocates one otherwise. -/
structure Exhaustive (operators : Uuid → Bool) (t : Table watermarkKeys) (a : Allocation) :
    Prop where
  exhausted : WatermarkKeyRepo.allocate operators t a = .error .noFreeSlots → Full t
  allocated : WatermarkKeyRepo.allocate operators t a ≠ .error .noFreeSlots →
    Allocates operators t a

/-- The database takes the row of a new key, whatever its bits. -/
structure Allocation.Insertable (operators : Uuid → Bool) (t : Table watermarkKeys)
    (a : Allocation) : Prop where
  fresh : ∀ k ∈ t, k.id ≠ a.id
  label : 1 ≤ a.label.length ∧ a.label.length ≤ 200 ∧ storable a.label = true
  notes : a.notes.all storable = true
  operator : a.createdByOperatorId.all operators = true

/-! ## slots -/

section slots

variable {operators : Uuid → Bool} {t : Table watermarkKeys} {a : Allocation} {bits : Nat}

namespace WatermarkKeyRepo

theorem getActiveByBits_isNone : (getActiveByBits t bits).isNone = true ↔ ¬Held t bits := by
  unfold getActiveByBits Held
  rw [Option.isNone_iff_eq_none, Table.find?_eq_none]
  constructor
  · rintro h ⟨k, hk, hactive, hbits⟩
    have hk' := h k hk
    simp [hactive, hbits] at hk'
  · intro h k hk
    by_contra hne
    simp only [Bool.not_eq_false, Bool.and_eq_true, beq_iff_eq] at hne
    exact h ⟨k, hk, hne.2, hne.1⟩

/-- The probe fails exactly if every draw is held. -/
theorem nextUnusedBits_eq_none {draws : Nat → Fin (maxPayload + 1)} :
    nextUnusedBits t draws = none ↔ ∀ i < 128, Held t (draws i) := by
  unfold nextUnusedBits
  rw [List.find?_eq_none]
  simp only [List.mem_map, List.mem_range, getActiveByBits_isNone, not_not,
    forall_exists_index, and_imp, forall_apply_eq_imp_iff₂]

/-- What the probe finds is a free slot. -/
theorem nextUnusedBits_eq_some {draws : Nat → Fin (maxPayload + 1)}
    (h : nextUnusedBits t draws = some bits) : bits ≤ maxPayload ∧ ¬Held t bits := by
  unfold nextUnusedBits at h
  have hfree := List.find?_some h
  obtain ⟨i, -, hi⟩ := List.mem_map.1 (List.mem_of_find?_eq_some h)
  have hlt := (draws i).isLt
  rw [getActiveByBits_isNone] at hfree
  exact ⟨by omega, hfree⟩

/-- The database takes the row of a free slot exactly if it takes the rest. -/
theorem insert_newKey (hbits : bits ≤ maxPayload) (hfree : ¬Held t bits) :
    (t.insert (newKey a bits)).isSome ∧ a.createdByOperatorId.all operators = true ↔
      a.Insertable operators t := by
  rw [Table.insert_isSome]
  constructor
  · rintro ⟨⟨hclash, hcheck⟩, hoperator⟩
    simp only [watermarkKeys, newKey, Bool.and_eq_true, decide_eq_true_eq, Option.all_none,
      Bool.and_true] at hcheck
    refine ⟨fun k hk hid => ?_, ⟨hcheck.1.1.2.1, hcheck.1.1.2.2, hcheck.1.2⟩, hcheck.2, hoperator⟩
    have hapart := hclash k hk
    simp [watermarkKeys, newKey, hid] at hapart
  · intro h
    refine ⟨⟨fun k hk => ?_, ?_⟩, h.operator⟩
    · have hid := h.fresh k hk
      have hheld : k.isActive = true → k.messageBits ≠ bits := fun hactive hsame =>
        hfree ⟨k, hk, hactive, hsame⟩
      simp only [watermarkKeys, newKey, Bool.or_eq_false_iff, beq_eq_false_iff_ne]
      refine ⟨hid, ?_⟩
      cases hactive : k.isActive with
      | false => rfl
      | true => simp [hheld hactive]
    · simp only [watermarkKeys, newKey, Bool.and_eq_true, decide_eq_true_eq, Option.all_none]
      exact ⟨⟨⟨⟨⟨hbits, h.label.1, h.label.2.1⟩, trivial⟩, h.label.2.2⟩, trivial⟩, h.notes⟩

/-- Without a free draw the call says that no slot is free. -/
theorem allocate_exhausted (ha : a.messageBits = none) (h : nextUnusedBits t a.draws = none) :
    allocate operators t a = .error .noFreeSlots := by
  have hchoose : chooseBits t a = .error .noFreeSlots := by
    simp [chooseBits, ha, h]
  simp only [allocate, hchoose]
  rfl

/-- With a free draw the call makes a key, if the database takes it. -/
theorem allocate_taken (ha : a.messageBits = none) (h : nextUnusedBits t a.draws = some bits)
    (hrow : a.Insertable operators t) :
    ∃ t', allocate operators t a = .ok (newKey a bits, t') ∧
      t'.rows = t.rows ++ [newKey a bits] := by
  obtain ⟨hbits, hfree⟩ := nextUnusedBits_eq_some h
  obtain ⟨hsome, hoperator⟩ := (insert_newKey hbits hfree).2 hrow
  obtain ⟨t', ht'⟩ := Option.isSome_iff_exists.1 hsome
  have hchoose : chooseBits t a = .ok bits := by
    simp [chooseBits, ha, h]
  have hop : (newKey a bits).createdByOperatorId.all operators = true := hoperator
  refine ⟨t', ?_, Table.ofRows_eq_some ht'⟩
  simp only [allocate, hchoose, bind, Except.bind, hop, if_true, ht']

/-- With a free draw the call makes a key, or the database refuses it. -/
theorem allocate_refused (ha : a.messageBits = none) (h : nextUnusedBits t a.draws = some bits)
    (hrow : ¬a.Insertable operators t) :
    allocate operators t a = .error .integrityError := by
  obtain ⟨hbits, hfree⟩ := nextUnusedBits_eq_some h
  have hchoose : chooseBits t a = .ok bits := by
    simp [chooseBits, ha, h]
  simp only [allocate, hchoose, bind, Except.bind]
  split
  · next hop =>
      split
      · next t' ht' =>
          exact absurd ((insert_newKey hbits hfree).1 ⟨Option.isSome_iff_exists.2 ⟨t', ht'⟩, hop⟩)
            hrow
      · rfl
  · rfl

end WatermarkKeyRepo

/-- One call. -/
theorem exhaustive_iff (ha : a.messageBits = none) :
    Exhaustive operators t a ↔
      Full t ∨ (∃ i < 128, ¬Held t (a.draws i)) ∧ a.Insertable operators t := by
  cases h : WatermarkKeyRepo.nextUnusedBits t a.draws with
  | none =>
      have hheld := WatermarkKeyRepo.nextUnusedBits_eq_none.1 h
      have hrun : WatermarkKeyRepo.allocate operators t a = .error .noFreeSlots :=
        WatermarkKeyRepo.allocate_exhausted ha h
      constructor
      · intro hexhaustive
        exact .inl (hexhaustive.exhausted hrun)
      · rintro (hfull | ⟨⟨i, hi, hfree⟩, -⟩)
        · exact ⟨fun _ => hfull, fun hne => absurd hrun hne⟩
        · exact absurd (hheld i hi) hfree
  | some bits =>
      obtain ⟨hbits, hfree⟩ := WatermarkKeyRepo.nextUnusedBits_eq_some h
      have hdraw : ∃ i < 128, ¬Held t (a.draws i) := by
        by_contra hnone
        have hheld : ∀ i < 128, Held t (a.draws i) := fun i hi =>
          not_not.1 fun hfree => hnone ⟨i, hi, hfree⟩
        rw [WatermarkKeyRepo.nextUnusedBits_eq_none.2 hheld] at h
        cases h
      by_cases hrow : a.Insertable operators t
      · obtain ⟨t', hrun, hrows⟩ := WatermarkKeyRepo.allocate_taken ha h hrow
        have hallocates : Allocates operators t a := ⟨_, t', hrun, hrows, rfl, hbits, hfree⟩
        have hexhaustive : Exhaustive operators t a := by
          refine ⟨fun hexhausted => ?_, fun _ => hallocates⟩
          rw [hrun] at hexhausted
          cases hexhausted
        exact ⟨fun _ => .inr ⟨hdraw, hrow⟩, fun _ => hexhaustive⟩
      · have hrun := WatermarkKeyRepo.allocate_refused ha h hrow
        constructor
        · intro hexhaustive
          obtain ⟨key, t', hrun', -⟩ := hexhaustive.allocated (by rw [hrun]; simp)
          rw [hrun] at hrun'
          cases hrun'
        · rintro (hfull | ⟨-, hrow'⟩)
          · exact absurd (hfull bits hbits) hfree
          · exact absurd hrow' hrow

/-- The index keeps the bits of active keys apart. -/
theorem distinctBits (t : Table watermarkKeys) : DistinctBits t.rows := by
  refine t.apart.imp fun {k l} hapart hk hl hsame => ?_
  simp [watermarkKeys, hk, hl, hsame] at hapart

end slots

/-- **Slots are allocated completely** exactly when one of the 128 draws is
free, or no slot is; in every history active keys have distinct bits. -/
theorem slot_allocation (operators : Uuid → Bool) :
    (∀ ops : List KeyOp, DistinctBits (ops.foldl (KeyOp.after operators) .empty).rows) ∧
      ∀ (t : Table watermarkKeys) (a : Allocation), a.messageBits = none →
        (Exhaustive operators t a ↔
          Full t ∨ (∃ i < 128, ¬Held t (a.draws i)) ∧ a.Insertable operators t) :=
  ⟨fun _ => distinctBits _, fun _ _ ha => exhaustive_iff ha⟩

/-- An allocation whose draws all return slot 0. -/
def zeroDraws : Allocation where
  label := py "ops"
  draws _ := 0
  id := 2
  now := 5

theorem insertable_zeroDraws {t : Table watermarkKeys} (h : ∀ k ∈ t, k.id ≠ 2) :
    zeroDraws.Insertable (fun _ => true) t where
  fresh := h
  label := by decide
  notes := rfl
  operator := rfl

/-- The active key on slot 0. -/
def zeroKey : WatermarkKeyRow where
  id := 1
  messageBits := 0
  label := py "first"
  allocatedAt := 1

/-- A table with that key only. -/
def oneKey : Table watermarkKeys :=
  ⟨[zeroKey], List.pairwise_singleton _ zeroKey, fun k hk => by
    rw [List.mem_singleton.1 hk]; decide⟩

/-- A retired key on slot 7. -/
def retiredKey : WatermarkKeyRow where
  id := 3
  messageBits := 7
  label := py "second"
  retiredAt := some 4
  allocatedAt := 2

/-- A table with both. -/
def twoKeys : Table watermarkKeys where
  rows := [zeroKey, retiredKey]
  apart := by simp [watermarkKeys, zeroKey, retiredKey]
  checked := by decide

/-- An allocation whose first draw hits slot 0 and whose second one slot 7. -/
def hitAndMiss : Allocation := { zeroDraws with draws := fun i => if i = 0 then 0 else 7 }

/-- A draw that is held is drawn again, and the slot of a retired key is free. -/
theorem slot_allocation_secondDraw : Held twoKeys (hitAndMiss.draws 0) ∧
    Exhaustive (fun _ => true) twoKeys hitAndMiss := by
  refine ⟨⟨zeroKey, List.mem_cons_self, rfl, rfl⟩, ?_⟩
  have hfree : ¬Held twoKeys (hitAndMiss.draws 1) := by
    rintro ⟨k, hk, hactive, hbits⟩
    obtain rfl | rfl := List.mem_pair.1 hk
    · cases hbits
    · cases hactive
  have hinsertable : hitAndMiss.Insertable (fun _ => true) twoKeys :=
    { fresh := by decide, label := by decide, notes := rfl, operator := rfl }
  exact ((slot_allocation fun _ => true).2 twoKeys hitAndMiss rfl).2
    (.inr ⟨⟨1, by decide, hfree⟩, hinsertable⟩)

/-- With one key in the table, 128 draws of its slot end in `no free 16-bit
watermark slots`. -/
theorem free_slot_missed :
    ¬∀ (operators : Uuid → Bool) (t : Table watermarkKeys) (a : Allocation),
      a.messageBits = none → a.Insertable operators t → Exhaustive operators t a := by
  intro h
  have hinsertable : zeroDraws.Insertable (fun _ => true) oneKey :=
    insertable_zeroDraws fun k hk => by rw [List.mem_singleton.1 hk]; decide
  have hheld : Held oneKey 0 := ⟨zeroKey, List.mem_singleton_self _, rfl, rfl⟩
  obtain hfull | ⟨⟨i, -, hfree⟩, -⟩ := (exhaustive_iff rfl).1 (h _ oneKey zeroDraws rfl hinsertable)
  · obtain ⟨k, hk, -, hbits⟩ := hfull 1 (by decide)
    rw [List.mem_singleton.1 hk] at hbits
    cases hbits
  · exact hfree hheld

end NeuroVoice
