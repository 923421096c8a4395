import NeuroVoice.Catalog.Contract
import NeuroVoice.Lib.Timeline

/-!
# NeuroVoice.Catalog.Lifecycle

Freezing, unfreezing and scheduling, and the two cascades that freeze.

`unfreeze` keeps a scheduled purge, and a later freeze without a schedule of
its own keeps it too.  Once that schedule has passed, such a freeze would leave
a row whose purge is due before it was frozen, and the database refuses it:
`lifecycle_ordered`.
-/

namespace NeuroVoice

open VoiceRepo

/-! ## the routes -/

/-- `admin_revoke_voice_consent`: `false` is its 404. -/
def adminRevokeVoiceConsent (consent : Uuid) (now : Nat) (reason : PyStr) : Tx Bool := do
  match ← VoiceConsentRecordRepo.revoke consent now (some reason) with
  | none => return false
  | some r => do
      let _ ← freeze r.voiceId now (py "consent revoked: " ++ reason) none
      return true

/-- `admin_revoke_talent_contract`: `false` is its 404. -/
def adminRevokeTalentContract (contract : Uuid) (now : Nat) (reason : PyStr) : Tx Bool := do
  match ← TalentContractRepo.revoke contract now with
  | none => return false
  | some k => do
      let ids ← Tx.query fun c => dependents c k.id
      freezeAll now reason ids
      return true

/-- A lifecycle operation. -/
inductive LifecycleOp where
  | freeze (id : Uuid) (reason : PyStr) (purgeAfterDays : Option Nat)
  | unfreeze (id : Uuid)
  | schedulePurge (id : Uuid) (afterDays : Nat)
  | revokeConsent (consent : Uuid) (reason : PyStr)
  | revokeContract (contract : Uuid) (reason : PyStr)

/-- The operation, at its time. -/
def LifecycleOp.run (now : Nat) : LifecycleOp → Tx Unit
  | .freeze id reason purgeAfterDays => do let _ ← VoiceRepo.freeze id now reason purgeAfterDays
  | .unfreeze id => do let _ ← VoiceRepo.unfreeze id
  | .schedulePurge id afterDays => do let _ ← VoiceRepo.schedulePurge id now afterDays
  | .revokeConsent consent reason => do let _ ← adminRevokeVoiceConsent consent now reason
  | .revokeContract contract reason => do let _ ← adminRevokeTalentContract contract now reason

/-! ## the law -/

/-- The voices the operation writes to; a tombstone is left alone. -/
def LifecycleOp.targets (c : Catalog) (op : LifecycleOp) : List Voice :=
  c.voices.rows.filter fun v => v.purgedAt.isNone &&
    match op with
    | .freeze id _ _ | .unfreeze id | .schedulePurge id _ => v.id == id
    | .revokeConsent consent _ =>
        c.consents.rows.any fun r => r.id == consent && r.revokedAt.isNone && v.id == r.voiceId
    | .revokeContract contract _ =>
        (c.contracts.rows.any fun k => k.id == contract && k.revokedAt.isNone) &&
          v.licenseKind == py "talent-contract" && v.licenseRef == some (uuidStr contract)

/-- What `unfreeze` does to a row. -/
def thawed (v : Voice) : Voice := { v with frozenAt := none, frozenReason := none }

/-- The row it leaves for a voice. -/
def LifecycleOp.write (now : Nat) (v : Voice) : LifecycleOp → Voice
  | .freeze _ reason purgeAfterDays => frozen now reason purgeAfterDays v
  | .unfreeze _ => thawed v
  | .schedulePurge _ afterDays => purgeScheduled now afterDays v
  | .revokeConsent _ reason => frozen now (py "consent revoked: " ++ reason) none v
  | .revokeContract _ reason => frozen now (py "talent contract revoked: " ++ reason) none v

/-- The text it writes can be stored. -/
def LifecycleOp.isStorable : LifecycleOp → Bool
  | .freeze _ reason _ | .revokeConsent _ reason | .revokeContract _ reason => storable reason
  | _ => true

/-- Every row the operation leaves satisfies the check, and the database
accepts the operation. -/
def LifecycleOp.Ordered (now : Nat) (c : Catalog) (op : LifecycleOp) : Prop :=
  (∀ v ∈ op.targets c, purgeAfterFrozen (op.write now v) = true) ∧
    (op.isStorable = true → ∃ c', op.run now c = .ok ((), c'))

/-- The operation freezes without a schedule of its own. -/
def LifecycleOp.plainFreeze : LifecycleOp → Bool
  | .freeze _ _ none | .revokeConsent _ _ | .revokeContract _ _ => true
  | _ => false

/-- It freezes no unfrozen voice whose scheduled purge is overdue, unless it
schedules the purge anew. -/
def LifecycleOp.inTime (now : Nat) (c : Catalog) (op : LifecycleOp) : Bool :=
  !op.plainFreeze || (op.targets c).all fun v => v.frozenAt.isSome || v.purgeAfterAt.all (now ≤ ·)

/-- The catalog after the operation. -/
def LifecycleOp.apply (c : Catalog) (t : Nat × LifecycleOp) : Catalog := (t.2.run t.1).after c

/-- What is in the catalog was written by the time `now`. -/
structure Catalog.Past (c : Catalog) (now : Nat) : Prop where
  frozen : ∀ v ∈ c.voices, ∀ t, v.frozenAt = some t → t ≤ now
  recorded : ∀ r ∈ c.consents, r.recordedAt ≤ now

/-! ## one row -/

section row

variable {now : Nat} {v : Voice}

theorem purgeAfterFrozen_iff :
    purgeAfterFrozen v = true ↔ ∀ p, v.purgeAfterAt = some p → ∀ t, v.frozenAt = some t → t ≤ p := by
  unfold purgeAfterFrozen
  cases v.purgeAfterAt <;> cases v.frozenAt <;> simp

/-- A freeze, with or without a schedule. -/
theorem purgeAfterFrozen_frozen (reason : PyStr) (n : Option Nat)
    (hv : purgeAfterFrozen v = true) (hpast : ∀ t, v.frozenAt = some t → t ≤ now) :
    purgeAfterFrozen (frozen now reason n v) = true ↔
      n.isSome ∨ v.frozenAt.isSome ∨ ∀ p, v.purgeAfterAt = some p → now ≤ p := by
  rw [purgeAfterFrozen_iff] at hv ⊢
  cases n with
  | none =>
      cases hf : v.frozenAt with
      | none => simp [frozen, hf]
      | some t =>
          simp only [frozen, hf, Option.some_or, Option.isSome_some, true_or, or_true, iff_true]
          intro p hp t' ht'
          cases ht'
          exact hv p hp t hf
  | some n =>
      simp only [Option.isSome_some, true_or, iff_true]
      intro p hp t ht
      have hle : t ≤ now := by
        cases hf : v.frozenAt with
        | none =>
            simp only [frozen, hf, Option.none_or, Option.some.injEq] at ht
            omega
        | some t' =>
            simp only [frozen, hf, Option.some_or, Option.some.injEq] at ht
            exact ht ▸ hpast t' hf
      have hdue : now ≤ p := by
        cases hq : v.purgeAfterAt with
        | none =>
            simp only [frozen, hq, Option.some.injEq] at hp
            omega
        | some q =>
            simp only [frozen, hq, Option.some.injEq] at hp
            omega
      omega

theorem purgeAfterFrozen_purgeScheduled (n : Nat) (hpast : ∀ t, v.frozenAt = some t → t ≤ now) :
    purgeAfterFrozen (purgeScheduled now n v) = true := by
  rw [purgeAfterFrozen_iff]
  intro p hp t ht
  simp only [purgeScheduled, Option.some.injEq] at hp
  have hle : t ≤ now := by
    cases hf : v.frozenAt with
    | none =>
        simp only [purgeScheduled, hf, Option.none_or, Option.some.injEq] at ht
        omega
    | some t' =>
        simp only [purgeScheduled, hf, Option.some_or, Option.some.injEq] at ht
        exact ht ▸ hpast t' hf
  omega

/-- The row an operation leaves satisfies the check exactly when the operation
is in time for it. -/
theorem LifecycleOp.write_ordered (op : LifecycleOp) (hv : purgeAfterFrozen v = true)
    (hpast : ∀ t, v.frozenAt = some t → t ≤ now) :
    purgeAfterFrozen (op.write now v) = true ↔
      (op.plainFreeze = true → v.frozenAt.isSome ∨ ∀ p, v.purgeAfterAt = some p → now ≤ p) := by
  cases op with
  | freeze id reason n =>
      rw [LifecycleOp.write, purgeAfterFrozen_frozen reason n hv hpast]
      cases n <;> simp [plainFreeze]
  | unfreeze id => simp [write, thawed, plainFreeze, purgeAfterFrozen]
  | schedulePurge id n =>
      rw [LifecycleOp.write, purgeAfterFrozen_purgeScheduled n hpast]
      simp [plainFreeze]
  | revokeConsent consent reason =>
      rw [LifecycleOp.write, purgeAfterFrozen_frozen _ none hv hpast]
      simp [plainFreeze]
  | revokeContract contract reason =>
      rw [LifecycleOp.write, purgeAfterFrozen_frozen _ none hv hpast]
      simp [plainFreeze]

end row

/-! ## what the database accepts -/

theorem storable_append {s t : PyStr} (hs : storable s = true) (ht : storable t = true) :
    storable (s ++ t) = true := by
  simp only [storable, utf8Encodable, Bool.and_eq_true, List.all_eq_true, Bool.not_eq_true',
    List.contains_eq_mem, decide_eq_false_iff_not, List.mem_append] at hs ht ⊢
  constructor
  · rintro x (hx | hx)
    · exact hs.1 x hx
    · exact ht.1 x hx
  · rintro (h | h)
    · exact hs.2 h
    · exact ht.2 h

section accepted

variable {c : Catalog} {now : Nat} {id : Uuid} {f : Voice → Voice}

theorem check_of_mem {v : Voice} (hv : v ∈ c.voices) :
    v.wellFormed = true ∧ v.isStorable = true ∧ purgeAfterFrozen v = true := by
  have hcheck := c.voices.checked v hv
  simp only [voices, Bool.and_eq_true] at hcheck
  exact ⟨hcheck.1.1.1, hcheck.1.1.2, hcheck.1.2⟩

/-- A write that keeps the keys is refused only for a failed check. -/
theorem writeUnpurged_accepted (hkeys : ∀ w, (f w).id = w.id ∧
      (f w).ownerTenantId = w.ownerTenantId ∧ (f w).voiceId = w.voiceId)
    (hcheck : ∀ v ∈ c.voices, v.id = id → v.purgedAt = none → voices.check (f v) = true) :
    ∃ r c', writeUnpurged id f c = .ok (r, c') := by
  cases hget : getById c id with
  | none =>
      exact ⟨none, c, Tx.bind_ok.2 ⟨none, c, Tx.query_ok.2 ⟨hget, rfl⟩, Tx.pure_ok.2 ⟨rfl, rfl⟩⟩⟩
  | some v =>
      obtain ⟨hv, hid⟩ := Table.find?_eq_some hget
      have hid : v.id = id := eq_of_beq hid
      cases hp : v.purgedAt with
      | some t =>
          refine ⟨some v, c, Tx.bind_ok.2 ⟨some v, c, Tx.query_ok.2 ⟨hget, rfl⟩, ?_⟩⟩
          simp only [hp, Option.isSome_some, if_true]
          exact Tx.pure_ok.2 ⟨rfl, rfl⟩
      | none =>
          rw [writeUnpurged_unpurged hget hp]
          have hsome : (c.voices.modify (fun w => w.id == v.id) f).isSome := by
            rw [Table.modify_isSome]
            · intro w hw hwid
              have hwid : w.id = v.id := eq_of_beq hwid
              obtain rfl : w = v := Table.eq_of_clash hw hv (by simp [voices, hwid])
              exact hcheck w hw hid hp
            · intro r s
              have hr : ∀ r, (if r.id == v.id then f r else r).id = r.id ∧
                  (if r.id == v.id then f r else r).ownerTenantId = r.ownerTenantId ∧
                  (if r.id == v.id then f r else r).voiceId = r.voiceId := by
                intro r
                split
                · exact hkeys r
                · exact ⟨rfl, rfl, rfl⟩
              simp only [voices, hr]
          obtain ⟨t, ht⟩ := Option.isSome_iff_exists.1 hsome
          rw [ht]
          exact ⟨_, _, rfl⟩

/-- A row that passes the checks, but for its lifecycle columns. -/
theorem check_unpurged {v w : Voice} (hv : v ∈ c.voices) (hwell : w.wellFormed = v.wellFormed)
    (hstore : w.isStorable = true) (hordered : purgeAfterFrozen w = true)
    (hpurged : w.purgedAt = none) : voices.check w = true := by
  have hafter : purgedAfterPurgeAfter w = true := by
    simp [purgedAfterPurgeAfter, hpurged]
  have hcheck : voices.check w =
      (w.wellFormed && w.isStorable && purgeAfterFrozen w && purgedAfterPurgeAfter w) := rfl
  rw [hcheck, hwell, (check_of_mem hv).1, hstore, hordered, hafter]
  rfl

/-- Only the reason of a freeze is a new text. -/
theorem isStorable_reason {v : Voice} (hv : v.isStorable = true) {w : Voice}
    (hreason : w.frozenReason.all storable = true)
    (hsame : ({ w with frozenReason := v.frozenReason } : Voice).isStorable = v.isStorable) :
    w.isStorable = true := by
  rw [← hsame] at hv
  simp only [Voice.isStorable, Bool.and_eq_true] at hv ⊢
  exact ⟨hv.1, hreason⟩

theorem freeze_accepted {reason : PyStr} (id : Uuid) (n : Option Nat)
    (hreason : storable reason = true) (h : ∀ v ∈ c.voices, v.id = id → v.purgedAt = none →
      purgeAfterFrozen (frozen now reason n v) = true) :
    ∃ r c', freeze id now reason n c = .ok (r, c') := by
  refine writeUnpurged_accepted (fun w => ⟨rfl, rfl, rfl⟩) fun v hv hid hp => ?_
  exact check_unpurged hv rfl (isStorable_reason (check_of_mem hv).2.1 hreason rfl)
    (h v hv hid hp) hp

theorem unfreeze_accepted (c : Catalog) (id : Uuid) : ∃ r c', unfreeze id c = .ok (r, c') := by
  refine writeUnpurged_accepted (f := thawed) (fun w => ⟨rfl, rfl, rfl⟩) fun v hv _ hp => ?_
  have hordered : purgeAfterFrozen (thawed v) = true := by
    simp [thawed, purgeAfterFrozen]
  exact check_unpurged hv rfl (isStorable_reason (check_of_mem hv).2.1 rfl rfl) hordered hp

theorem schedulePurge_accepted (hpast : c.Past now) (id : Uuid) (n : Nat) :
    ∃ r c', schedulePurge id now n c = .ok (r, c') := by
  refine writeUnpurged_accepted (fun w => ⟨rfl, rfl, rfl⟩) fun v hv _ hp => ?_
  have hstore := (check_of_mem hv).2.1
  have hreason : (purgeScheduled now n v).frozenReason.all storable = true := by
    simp only [Voice.isStorable, Bool.and_eq_true] at hstore
    simp only [purgeScheduled]
    split
    · exact hstore.2
    · split
      · next heq => rw [← heq]; exact hstore.2
      · decide
  exact check_unpurged hv rfl (isStorable_reason hstore hreason rfl)
    (purgeAfterFrozen_purgeScheduled n (hpast.frozen v hv)) hp

end accepted

/-! ## what stays in the past -/

section past

variable {c c' : Catalog} {now : Nat} {f : Voice → Voice}

theorem Catalog.Past.later (h : c.Past now) {n : Nat} (hn : now ≤ n) : c.Past n :=
  ⟨fun v hv t ht => (h.frozen v hv t ht).trans hn, fun r hr => (h.recorded r hr).trans hn⟩

/-- The step lemma of all writes to one voice. -/
theorem Catalog.Past.write (h : c.Past now) (hw : VoiceWrite f c c')
    (hf : ∀ v t, (∀ t, v.frozenAt = some t → t ≤ now) → (f v).frozenAt = some t → t ≤ now) :
    c'.Past now := by
  obtain rfl | ⟨p, t, hm, rfl⟩ := hw
  · exact h
  · refine ⟨fun x hx u hu => ?_, h.recorded⟩
    obtain ⟨w, hwv, rfl⟩ := (Table.mem_modify hm).1 hx
    split at hu
    · exact hf w u (h.frozen w hwv) hu
    · exact h.frozen w hwv u hu

/-- A column that is set now, unless it is set already. -/
theorem le_of_or {o : Option Nat} {t : Nat} (ho : ∀ t, o = some t → t ≤ now)
    (h : o.or (some now) = some t) : t ≤ now := by
  cases o with
  | none => exact (Option.some.inj h).ge
  | some u => exact ho t h

theorem Catalog.Past.freeze {id : Uuid} {reason : PyStr} {n : Option Nat} {r : Option Voice}
    (h : c.Past now) (hrun : VoiceRepo.freeze id now reason n c = .ok (r, c')) : c'.Past now :=
  h.write (writeUnpurged_write hrun) fun _ _ hv ht => le_of_or hv ht

theorem Catalog.Past.freezeAll {reason : PyStr} {ids : List Uuid} {u : Unit} (h : c.Past now)
    (hrun : NeuroVoice.freezeAll now reason ids c = .ok (u, c')) : c'.Past now := by
  induction ids generalizing c with
  | nil => exact (Tx.pure_ok.1 hrun).2 ▸ h
  | cons id ids ih =>
      obtain ⟨r, c₁, hfreeze, hrest⟩ := Tx.bind_ok.1 hrun
      exact ih (h.freeze hfreeze) hrest

/-- What the revocation of a consent does. -/
theorem revokeConsent_ok {consent : Uuid} {reason : PyStr} {r : Option VoiceConsentRecord}
    (hrun : VoiceConsentRecordRepo.revoke consent now (some reason) c = .ok (r, c')) :
    c'.voices = c.voices ∧ (∀ x ∈ c'.consents, ∃ s ∈ c.consents, x.recordedAt = s.recordedAt) ∧
      ∀ r', r = some r' → ∃ s ∈ c.consents, s.id = consent ∧ s.revokedAt = none ∧
        s.voiceId = r'.voiceId := by
  obtain ⟨rfl, rfl⟩ | ⟨s, t, hs, hid, hopen, rfl, ht, rfl⟩ :=
    VoiceConsentRecordRepo.revoke_eq_ok hrun
  · exact ⟨rfl, fun x hx => ⟨x, hx, rfl⟩, fun r' hr' => by cases hr'⟩
  · refine ⟨rfl, fun x hx => ?_, fun r' hr' => ?_⟩
    · obtain ⟨w, hw, rfl⟩ := (Table.mem_modify ht).1 hx
      refine ⟨w, hw, ?_⟩
      split <;> rfl
    · cases hr'
      exact ⟨s, hs, hid, hopen, rfl⟩

/-- What the revocation of a contract does. -/
theorem revokeContract_ok {contract : Uuid} {k : Option TalentContract}
    (hrun : TalentContractRepo.revoke contract now c = .ok (k, c')) :
    c'.voices = c.voices ∧ c'.consents = c.consents ∧
      ∀ k', k = some k' → ∃ l ∈ c.contracts, l.id = contract ∧ l.revokedAt = none ∧
        k'.id = contract := by
  obtain ⟨rfl, rfl⟩ | ⟨l, t, hl, hid, hopen, rfl, -, rfl⟩ := TalentContractRepo.revoke_eq_ok hrun
  · exact ⟨rfl, rfl, fun k' hk' => by cases hk'⟩
  · refine ⟨rfl, rfl, fun k' hk' => ?_⟩
    cases hk'
    exact ⟨l, hl, hid, hopen, hid⟩

/-- The step lemma of the lifecycle operations. -/
theorem Catalog.Past.lifecycle {op : LifecycleOp} {u : Unit} (h : c.Past now)
    (hrun : op.run now c = .ok (u, c')) : c'.Past now := by
  cases op with
  | freeze id reason n =>
      obtain ⟨r, c₁, hfreeze, hrun⟩ := Tx.bind_ok.1 hrun
      exact (Tx.pure_ok.1 hrun).2 ▸ h.freeze hfreeze
  | unfreeze id =>
      obtain ⟨r, c₁, hthaw, hrun⟩ := Tx.bind_ok.1 hrun
      exact (Tx.pure_ok.1 hrun).2 ▸ h.write (writeUnpurged_write hthaw) fun v t _ ht => by cases ht
  | schedulePurge id n =>
      obtain ⟨r, c₁, hschedule, hrun⟩ := Tx.bind_ok.1 hrun
      exact (Tx.pure_ok.1 hrun).2 ▸
        h.write (writeUnpurged_write hschedule) fun _ _ hv ht => le_of_or hv ht
  | revokeConsent consent reason =>
      obtain ⟨done, c₁, hrevoke, hrun⟩ := Tx.bind_ok.1 hrun
      obtain ⟨-, rfl⟩ := Tx.pure_ok.1 hrun
      obtain ⟨r, c₂, hconsent, hrevoke⟩ := Tx.bind_ok.1 hrevoke
      obtain ⟨hvoices, hrecorded, -⟩ := revokeConsent_ok hconsent
      have h₂ : c₂.Past now := by
        refine ⟨hvoices ▸ h.frozen, fun x hx => ?_⟩
        obtain ⟨s, hs, heq⟩ := hrecorded x hx
        exact heq ▸ h.recorded s hs
      cases r with
      | none => exact (Tx.pure_ok.1 hrevoke).2 ▸ h₂
      | some r =>
          obtain ⟨v, c₃, hfreeze, hrevoke⟩ := Tx.bind_ok.1 hrevoke
          exact (Tx.pure_ok.1 hrevoke).2 ▸ h₂.freeze hfreeze
  | revokeContract contract reason =>
      obtain ⟨done, c₁, hrevoke, hrun⟩ := Tx.bind_ok.1 hrun
      obtain ⟨-, rfl⟩ := Tx.pure_ok.1 hrun
      obtain ⟨k, c₂, hcontract, hrevoke⟩ := Tx.bind_ok.1 hrevoke
      obtain ⟨hvoices, hconsents, -⟩ := revokeContract_ok hcontract
      have h₂ : c₂.Past now := ⟨hvoices ▸ h.frozen, hconsents ▸ h.recorded⟩
      cases k with
      | none => exact (Tx.pure_ok.1 hrevoke).2 ▸ h₂
      | some k =>
          obtain ⟨ids, c₃, hq, hrevoke⟩ := Tx.bind_ok.1 hrevoke
          obtain ⟨-, rfl⟩ := Tx.query_ok.1 hq
          obtain ⟨u, c₄, hfreeze, hrevoke⟩ := Tx.bind_ok.1 hrevoke
          exact (Tx.pure_ok.1 hrevoke).2 ▸ h₂.freezeAll hfreeze

end past

/-! ## operations in time are accepted -/

section operations

variable {c : Catalog} {now : Nat}

/-- The voice can be frozen without a schedule. -/
def Freezable (now : Nat) (v : Voice) : Prop :=
  v.frozenAt.isSome ∨ ∀ p, v.purgeAfterAt = some p → now ≤ p

theorem mem_targets {op : LifecycleOp} {v : Voice} (h : v ∈ op.targets c) :
    v ∈ c.voices ∧ v.purgedAt = none := by
  unfold LifecycleOp.targets at h
  simp only [List.mem_filter, Bool.and_eq_true, Option.isNone_iff_eq_none] at h
  exact ⟨h.1, h.2.1⟩

theorem inTime_iff {op : LifecycleOp} :
    op.inTime now c = true ↔ (op.plainFreeze = true → ∀ v ∈ op.targets c, Freezable now v) := by
  unfold LifecycleOp.inTime Freezable
  simp only [Bool.or_eq_true, Bool.not_eq_true', List.all_eq_true, Option.all_eq_true,
    decide_eq_true_eq]
  cases op.plainFreeze <;> simp

/-- The rows an operation leaves are ordered exactly when it is in time. -/
theorem writes_ordered_iff {op : LifecycleOp} (hpast : c.Past now) :
    (∀ v ∈ op.targets c, purgeAfterFrozen (op.write now v) = true) ↔ op.inTime now c = true := by
  rw [inTime_iff]
  have hrow : ∀ v ∈ op.targets c, purgeAfterFrozen (op.write now v) = true ↔
      (op.plainFreeze = true → Freezable now v) := fun v hv =>
    op.write_ordered (check_of_mem (mem_targets hv).1).2.2 (hpast.frozen v (mem_targets hv).1)
  constructor
  · intro h hplain v hv
    exact (hrow v hv).1 (h v hv) hplain
  · intro h v hv
    exact (hrow v hv).2 fun hplain => h hplain v hv

theorem ordered_of_freezable {v : Voice} (hpast : c.Past now) (hv : v ∈ c.voices)
    (h : Freezable now v) (reason : PyStr) :
    purgeAfterFrozen (frozen now reason none v) = true :=
  (purgeAfterFrozen_frozen reason none (check_of_mem hv).2.2 (hpast.frozen v hv)).2 (.inr h)

/-- A cascade that freezes freezable voices is accepted. -/
theorem freezeAll_accepted {reason : PyStr} (hreason : storable reason = true) {ids : List Uuid}
    (hpast : c.Past now)
    (h : ∀ v ∈ c.voices, v.id ∈ ids → v.purgedAt = none → Freezable now v) :
    ∃ c', freezeAll now reason ids c = .ok ((), c') := by
  induction ids generalizing c with
  | nil => exact ⟨c, rfl⟩
  | cons id ids ih =>
      have hstore : storable (py "talent contract revoked: " ++ reason) = true :=
        storable_append (by decide) hreason
      obtain ⟨r, c₁, hfreeze⟩ := freeze_accepted id none hstore
        fun v hv hid hp => ordered_of_freezable hpast hv (h v hv (by simp [hid]) hp) _
      have hnext : ∀ x ∈ c₁.voices, x.id ∈ ids → x.purgedAt = none → Freezable now x := by
        intro x hx hid hp
        obtain rfl | ⟨p, t, hm, rfl⟩ := writeUnpurged_write hfreeze
        · exact h x hx (List.mem_cons_of_mem _ hid) hp
        · obtain ⟨w, hw, rfl⟩ := (Table.mem_modify hm).1 hx
          by_cases hpw : p w = true
          · rw [if_pos hpw]
            exact .inl (by simp [frozen])
          · rw [if_neg hpw] at hid hp ⊢
            exact h w hw (List.mem_cons_of_mem _ hid) hp
      obtain ⟨c₂, hrest⟩ := ih (hpast.freeze hfreeze) hnext
      exact ⟨c₂, Tx.bind_ok.2 ⟨r, c₁, hfreeze, hrest⟩⟩

/-- The revocation of a consent is accepted. -/
theorem revokeConsent_accepted {reason : PyStr} (hreason : storable reason = true)
    (hpast : c.Past now) (consent : Uuid) :
    ∃ r c', VoiceConsentRecordRepo.revoke consent now (some reason) c = .ok (r, c') := by
  unfold VoiceConsentRecordRepo.revoke
  rw [Tx.bind_query]
  cases hfind : c.consents.find? fun r => r.id == consent with
  | none => exact ⟨none, c, rfl⟩
  | some s =>
      cases hrevoked : s.revokedAt with
      | some t =>
          simp only [hrevoked, Option.isSome_some, if_true]
          exact ⟨none, c, rfl⟩
      | none =>
          simp only [hrevoked, Option.isSome_none, Bool.false_eq_true, if_false]
          have hsome : (c.consents.modify (fun s => s.id == consent) fun s =>
              { s with revokedAt := some now, revokedReason := some reason }).isSome := by
            rw [Table.modify_isSome]
            · intro r hr _
              have hcheck := c.consents.checked r hr
              simp only [voiceConsentRecords, Bool.and_eq_true, Option.all_some,
                decide_eq_true_eq] at hcheck ⊢
              obtain ⟨⟨⟨⟨⟨⟨⟨h₁, h₂⟩, h₃⟩, h₄⟩, -⟩, h₆⟩, h₇⟩, -⟩ := hcheck
              exact ⟨⟨⟨⟨⟨⟨⟨h₁, h₂⟩, h₃⟩, h₄⟩, hpast.recorded r hr⟩, h₆⟩, h₇⟩, hreason⟩
            · intro r s
              have hid : ∀ r : VoiceConsentRecord, (if r.id == consent then
                  { r with revokedAt := some now, revokedReason := some reason } else r).id =
                    r.id := by
                intro r
                split <;> rfl
              simp only [voiceConsentRecords, hid]
          obtain ⟨t, ht⟩ := Option.isSome_iff_exists.1 hsome
          refine ⟨_, { c with consents := t }, Tx.bind_ok.2 ⟨(), _, Tx.statement_ok.2 ?_, rfl⟩⟩
          rw [ht]
          rfl

/-- The revocation of a contract is accepted. -/
theorem revokeContract_accepted (now : Nat) (contract : Uuid) :
    ∃ k c', TalentContractRepo.revoke contract now c = .ok (k, c') := by
  unfold TalentContractRepo.revoke
  rw [Tx.bind_query]
  cases hfind : c.contracts.find? fun k => k.id == contract with
  | none => exact ⟨none, c, rfl⟩
  | some k =>
      cases hrevoked : k.revokedAt with
      | some t =>
          simp only [hrevoked, Option.isSome_some, if_true]
          exact ⟨none, c, rfl⟩
      | none =>
          simp only [hrevoked, Option.isSome_none, Bool.false_eq_true, if_false]
          have hsome : (c.contracts.modify (fun l => l.id == contract) fun l =>
              { l with revokedAt := some now }).isSome := by
            rw [Table.modify_isSome]
            · intro r hr _
              exact c.contracts.checked r hr
            · intro r s
              have hid : ∀ r : TalentContract, (if r.id == contract then
                  { r with revokedAt := some now } else r).id = r.id := by
                intro r
                split <;> rfl
              simp only [talentContracts, hid]
          obtain ⟨t, ht⟩ := Option.isSome_iff_exists.1 hsome
          refine ⟨_, { c with contracts := t }, Tx.bind_ok.2 ⟨(), _, Tx.statement_ok.2 ?_, rfl⟩⟩
          rw [ht]
          rfl

/-- An operation in time is accepted. -/
theorem LifecycleOp.accepted {op : LifecycleOp} (hpast : c.Past now)
    (htime : op.inTime now c = true) (hstore : op.isStorable = true) :
    ∃ c', op.run now c = .ok ((), c') := by
  have hordered := (writes_ordered_iff hpast).2 htime
  cases op with
  | freeze id reason n =>
      obtain ⟨r, c', hrun⟩ := freeze_accepted id n hstore
        fun v hv hid hp => hordered v (List.mem_filter.2 ⟨hv, by simp [hp, hid]⟩)
      exact ⟨c', Tx.bind_ok.2 ⟨r, c', hrun, rfl⟩⟩
  | unfreeze id =>
      obtain ⟨r, c', hrun⟩ := unfreeze_accepted c id
      exact ⟨c', Tx.bind_ok.2 ⟨r, c', hrun, rfl⟩⟩
  | schedulePurge id n =>
      obtain ⟨r, c', hrun⟩ := schedulePurge_accepted hpast id n
      exact ⟨c', Tx.bind_ok.2 ⟨r, c', hrun, rfl⟩⟩
  | revokeConsent consent reason =>
      obtain ⟨r, c₁, hrevoke⟩ := revokeConsent_accepted hstore hpast consent
      obtain ⟨hvoices, -, hfound⟩ := revokeConsent_ok hrevoke
      cases r with
      | none =>
          exact ⟨c₁, Tx.bind_ok.2 ⟨false, c₁, Tx.bind_ok.2 ⟨none, c₁, hrevoke, rfl⟩, rfl⟩⟩
      | some r =>
          obtain ⟨s, hs, hsid, hopen, hvoice⟩ := hfound r rfl
          have hreason : storable (py "consent revoked: " ++ reason) = true :=
            storable_append (by decide) hstore
          have hfrozen : ∀ v ∈ c₁.voices, v.id = r.voiceId → v.purgedAt = none →
              purgeAfterFrozen (frozen now (py "consent revoked: " ++ reason) none v) = true := by
            intro v hv hid hp
            rw [hvoices] at hv
            refine hordered v (List.mem_filter.2 ⟨hv, ?_⟩)
            have hany : (c.consents.rows.any fun r => r.id == consent && r.revokedAt.isNone &&
                v.id == r.voiceId) = true :=
              List.any_eq_true.2 ⟨s, hs, by simp [hsid, hopen, hid, hvoice]⟩
            simp [hp, hany]
          obtain ⟨v, c₂, hfreeze⟩ := freeze_accepted r.voiceId none hreason hfrozen
          exact ⟨c₂, Tx.bind_ok.2 ⟨true, c₂,
            Tx.bind_ok.2 ⟨some r, c₁, hrevoke, Tx.bind_ok.2 ⟨v, c₂, hfreeze, rfl⟩⟩, rfl⟩⟩
  | revokeContract contract reason =>
      obtain ⟨k, c₁, hrevoke⟩ := revokeContract_accepted (c := c) now contract
      obtain ⟨hvoices, hconsents, hfound⟩ := revokeContract_ok hrevoke
      cases k with
      | none =>
          exact ⟨c₁, Tx.bind_ok.2 ⟨false, c₁, Tx.bind_ok.2 ⟨none, c₁, hrevoke, rfl⟩, rfl⟩⟩
      | some k =>
          obtain ⟨l, hl, hlid, hopen, hkid⟩ := hfound k rfl
          have hpast₁ : c₁.Past now := ⟨hvoices ▸ hpast.frozen, hconsents ▸ hpast.recorded⟩
          have hfreezable : ∀ v ∈ c₁.voices, v.id ∈ dependents c₁ k.id → v.purgedAt = none →
              Freezable now v := by
            intro v hv hid hp
            obtain ⟨w, hw, hwid⟩ := List.mem_map.1 hid
            obtain ⟨hwmem, hwsel⟩ := List.mem_filter.1 hw
            obtain rfl : w = v := Table.eq_of_clash hwmem hv (by simp [voices, hwid])
            rw [hvoices] at hwmem
            have hany : (c.contracts.rows.any fun k => k.id == contract && k.revokedAt.isNone) =
                true := List.any_eq_true.2 ⟨l, hl, by simp [hlid, hopen]⟩
            simp only [Bool.and_eq_true, beq_iff_eq, hkid] at hwsel
            have htarget : w ∈ (LifecycleOp.revokeContract contract reason).targets c :=
              List.mem_filter.2 ⟨hwmem, by simp [hp, hany, hwsel.1.1, hwsel.1.2]⟩
            exact inTime_iff.1 htime rfl w htarget
          obtain ⟨c₂, hfreeze⟩ := freezeAll_accepted hstore hpast₁ hfreezable
          exact ⟨c₂, Tx.bind_ok.2 ⟨true, c₂, Tx.bind_ok.2 ⟨some k, c₁, hrevoke,
            Tx.bind_ok.2 ⟨_, c₁, rfl, Tx.bind_ok.2 ⟨(), c₂, hfreeze, rfl⟩⟩⟩, rfl⟩⟩

/-- One operation. -/
theorem ordered_iff_inTime {op : LifecycleOp} (hpast : c.Past now) :
    op.Ordered now c ↔ op.inTime now c = true := by
  constructor
  · exact fun h => (writes_ordered_iff hpast).1 h.1
  · exact fun h => ⟨(writes_ordered_iff hpast).2 h, fun hstore => op.accepted hpast h hstore⟩

end operations

/-- **Lifecycle operations keep the order of the columns**, and are accepted,
exactly in the runs in which no freeze without a schedule meets an overdue
one. -/
theorem lifecycle_ordered (c : Catalog) (start : Nat) (ops : List (Nat × LifecycleOp))
    (htime : (start :: ops.map Prod.fst).Pairwise (· ≤ ·)) (hpast : c.Past start) :
    Along LifecycleOp.apply (fun c t => t.2.Ordered t.1 c) c ops ↔
      Along LifecycleOp.apply (fun c t => t.2.inTime t.1 c = true) c ops := by
  induction ops generalizing c start with
  | nil => exact Iff.rfl
  | cons t ops ih =>
      obtain ⟨hlater, hrest⟩ := List.pairwise_cons.1 htime
      have hpast' : c.Past t.1 := hpast.later (hlater t.1 (by simp))
      have hnext : (LifecycleOp.apply c t).Past t.1 := by
        obtain heq | ⟨u, hrun⟩ := (t.2.run t.1).after_cases c
        · rw [LifecycleOp.apply, heq]; exact hpast'
        · exact hpast'.lifecycle hrun
      exact and_congr (ordered_iff_inTime hpast') (ih _ t.1 hrest hnext)

/-- A voice of tenant 1. -/
def lifecycleCatalog : Catalog := .sole (sampleVoice.row 1 7 0 .priv) (by decide +kernel)

/-- A purge is scheduled, the voice is unfrozen, and frozen again `n` days
later. -/
def freezeAgain (n : Nat) : List (Nat × LifecycleOp) :=
  [(5, .schedulePurge 7 30), (6, .unfreeze 7), (days n, .freeze 7 (py "dispute") none)]

theorem past_lifecycleCatalog : lifecycleCatalog.Past 0 where
  frozen v hv t ht := by
    rw [List.mem_singleton.1 hv] at ht
    cases ht
  recorded r hr := by cases hr

/-- A voice that is frozen again before its scheduled purge is due stays in order.
-/
theorem lifecycle_ordered_example :
    Along LifecycleOp.apply (fun c t => t.2.Ordered t.1 c) lifecycleCatalog (freezeAgain 20) ↔
      Along LifecycleOp.apply (fun c t => t.2.inTime t.1 c = true) lifecycleCatalog
        (freezeAgain 20) :=
  lifecycle_ordered lifecycleCatalog 0 (freezeAgain 20) (by decide +kernel)
    past_lifecycleCatalog

/-- After 40 days the freeze is refused. -/
theorem overdue_freeze_refused :
    ¬∀ (c : Catalog) (start : Nat) (ops : List (Nat × LifecycleOp)),
      (start :: ops.map Prod.fst).Pairwise (· ≤ ·) → c.Past start →
      Along LifecycleOp.apply (fun c t => t.2.Ordered t.1 c) c ops := by
  intro h
  have hordered := h lifecycleCatalog 0 (freezeAgain 40) (by decide +kernel) past_lifecycleCatalog
  rw [lifecycle_ordered _ 0 _ (by decide +kernel) past_lifecycleCatalog] at hordered
  exact absurd hordered (by decide +kernel)

end NeuroVoice
