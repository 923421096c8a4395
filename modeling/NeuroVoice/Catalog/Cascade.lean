import NeuroVoice.Catalog.Lifecycle

/-!
# NeuroVoice.Catalog.Cascade

`admin_revoke_voice_consent` on any record: revoked before or not, by this
route or another, and with a voice in any state of its lifecycle.

The route says that it freezes the voice again when the consent is revoked
already.  The repository answers such a call like one for an unknown record,
so it ends in a 404 before the freeze: `consent_cascade_iff`.
-/

namespace NeuroVoice

open VoiceRepo

/-! ## the law -/

/-- After the call the record is revoked, its voice is not active, and the
answer was no 404. -/
structure Cascades (now : Nat) (reason : PyStr) (c : Catalog) (r : VoiceConsentRecord) : Prop where
  found : ∀ c', adminRevokeVoiceConsent r.id now reason c ≠ .ok (false, c')
  revoked : ∃ s ∈ ((adminRevokeVoiceConsent r.id now reason).after c).consents,
    s.id = r.id ∧ s.revokedAt.isSome
  inactive : ∀ v ∈ ((adminRevokeVoiceConsent r.id now reason).after c).voices,
    v.id = r.voiceId → lifecycleState v ≠ "active"

/-! ## the two repositories -/

section repositories

variable {c c' : Catalog} {now : Nat} {reason : PyStr} {r : VoiceConsentRecord}

/-- A freeze without a schedule keeps the order of the columns exactly if the
voice is freezable. -/
theorem ordered_frozen_iff {v : Voice} (hv : purgeAfterFrozen v = true) :
    purgeAfterFrozen (frozen now reason none v) = true ↔ Freezable now v := by
  rw [purgeAfterFrozen_iff] at hv ⊢
  unfold Freezable frozen
  cases hf : v.frozenAt with
  | none => simp
  | some t =>
      simp only [Option.some_or, Option.isSome_some, true_or, iff_true]
      intro p hp t' ht'
      cases ht'
      exact hv p hp t hf

/-- A record is found by its id. -/
theorem find_consent (hr : r ∈ c.consents) :
    (c.consents.find? fun s => s.id == r.id) = some r := by
  refine Table.find?_of_mem hr (by simp) fun s hs => ?_
  simp only [voiceConsentRecords, beq_iff_eq] at hs ⊢
  exact hs.symm

/-- A second revocation looks like one of an unknown record. -/
theorem revoke_of_revoked (hr : r ∈ c.consents) (h : r.revokedAt.isSome = true) :
    VoiceConsentRecordRepo.revoke r.id now (some reason) c = .ok (none, c) := by
  unfold VoiceConsentRecordRepo.revoke
  rw [Tx.bind_query, find_consent hr]
  simp only [h, if_true]
  rfl

/-- The revoked record. -/
def revokedRecord (now : Nat) (reason : PyStr) (r : VoiceConsentRecord) : VoiceConsentRecord :=
  { r with revokedAt := some now, revokedReason := some reason }

/-- The first revocation is accepted for a reason that can be stored, and not
before the record was made. -/
theorem revoke_accepted (hr : r ∈ c.consents) :
    (c.consents.modify (fun s => s.id == r.id) (revokedRecord now reason)).isSome ↔
      storable reason = true ∧ r.recordedAt ≤ now := by
  have hid : ∀ s : VoiceConsentRecord,
      (if s.id == r.id then revokedRecord now reason s else s).id = s.id := by
    intro s
    split <;> rfl
  rw [Table.modify_isSome fun s t => by simp only [voiceConsentRecords, hid]]
  have hcheck := c.consents.checked r hr
  simp only [voiceConsentRecords, Bool.and_eq_true] at hcheck
  have hiff : voiceConsentRecords.check (revokedRecord now reason r) = true ↔
      storable reason = true ∧ r.recordedAt ≤ now := by
    simp only [voiceConsentRecords, revokedRecord, hcheck.1.1.1.1.1.1, hcheck.1.1.1.1.1.2,
      hcheck.1.1.1.1.2, hcheck.1.1.2, hcheck.1.2, Option.all_some,
      Bool.true_and, Bool.and_true, Bool.and_eq_true, decide_eq_true_eq]
    exact and_comm
  rw [← hiff]
  constructor
  · intro h
    exact h r hr (by simp)
  · intro h s hs hsid
    obtain rfl : s = r := Table.eq_of_clash hs hr (by simpa [voiceConsentRecords] using hsid)
    exact h

/-- What the first revocation leaves. -/
theorem revoke_of_open (hr : r ∈ c.consents) (h : r.revokedAt = none)
    {x : Option VoiceConsentRecord} :
    VoiceConsentRecordRepo.revoke r.id now (some reason) c = .ok (x, c') ↔
      x = some (revokedRecord now reason r) ∧
        ∃ t, c.consents.modify (fun s => s.id == r.id) (revokedRecord now reason) = some t ∧
          c' = { c with consents := t } := by
  unfold VoiceConsentRecordRepo.revoke
  rw [Tx.bind_query, find_consent hr]
  simp only [h, Option.isSome_none, Bool.false_eq_true, if_false]
  constructor
  · intro hrun
    obtain ⟨u, c₁, hstmt, hrun⟩ := Tx.bind_ok.1 hrun
    obtain ⟨rfl, rfl⟩ := Tx.pure_ok.1 hrun
    obtain ⟨t, ht, rfl⟩ := Option.map_eq_some_iff.1 (Tx.statement_ok.1 hstmt)
    exact ⟨rfl, t, ht, rfl⟩
  · rintro ⟨hx, t, ht, hc'⟩
    subst hx hc'
    refine Tx.bind_ok.2 ⟨(), _, Tx.statement_ok.2 ?_, rfl⟩
    exact Option.map_eq_some_iff.2 ⟨t, ht, rfl⟩

/-- A freeze that is accepted found a freezable voice. -/
theorem freezable_of_freeze {id : Uuid} {o : Option Voice}
    (h : freeze id now reason none c = .ok (o, c')) {v : Voice} (hv : v ∈ c.voices)
    (hid : v.id = id) (hp : v.purgedAt = none) : Freezable now v := by
  have hget : getById c id = some v :=
    Table.find?_of_mem hv (by simp [hid]) fun s hs => by
      simp only [voices, Bool.or_eq_true, beq_iff_eq] at hs ⊢
      exact .inl (hid.trans hs.symm)
  obtain ⟨hnone, -⟩ | ⟨w, hw, ⟨hpurged, -⟩ | ⟨-, -, t, hm, -⟩⟩ := writeUnpurged_ok h
  · rw [hget] at hnone
    cases hnone
  · rw [hget] at hw
    cases hw
    simp [hp] at hpurged
  · rw [hget] at hw
    cases hw
    have hmem : frozen now reason none v ∈ t :=
      (Table.mem_modify hm).2 ⟨v, hv, by simp⟩
    have hcheck := t.checked _ hmem
    simp only [voices, Bool.and_eq_true] at hcheck
    exact (ordered_frozen_iff (check_of_mem hv).2.2).1 hcheck.1.2

end repositories

/-! ## the route -/

section route

variable {c c' : Catalog} {now : Nat} {reason : PyStr} {r : VoiceConsentRecord}

/-- A second call ends in the 404. -/
theorem revoke_twice (hr : r ∈ c.consents) (h : r.revokedAt.isSome = true) :
    adminRevokeVoiceConsent r.id now reason c = .ok (false, c) :=
  Tx.bind_ok.2 ⟨none, c, revoke_of_revoked hr h, rfl⟩

/-- A first call that returns has revoked the record and frozen the voice. -/
theorem cascade_ok (hr : r ∈ c.consents) (h : r.revokedAt = none) {b : Bool} :
    adminRevokeVoiceConsent r.id now reason c = .ok (b, c') ↔
      b = true ∧ ∃ t o,
        c.consents.modify (fun s => s.id == r.id) (revokedRecord now reason) = some t ∧
        freeze r.voiceId now (py "consent revoked: " ++ reason) none { c with consents := t } =
          .ok (o, c') := by
  unfold adminRevokeVoiceConsent
  rw [Tx.bind_ok]
  constructor
  · rintro ⟨x, c₁, hrevoke, hrun⟩
    obtain ⟨rfl, t, ht, rfl⟩ := (revoke_of_open hr h).1 hrevoke
    obtain ⟨o, c₂, hfreeze, hrun⟩ := Tx.bind_ok.1 hrun
    obtain ⟨rfl, rfl⟩ := Tx.pure_ok.1 hrun
    exact ⟨rfl, t, o, ht, hfreeze⟩
  · rintro ⟨hb, t, o, ht, hfreeze⟩
    subst hb
    refine ⟨_, _, (revoke_of_open hr h).2 ⟨rfl, t, ht, rfl⟩, ?_⟩
    exact Tx.bind_ok.2 ⟨o, c', hfreeze, rfl⟩

/-- The voice of the record can be frozen, or is a tombstone. -/
def ReachesVoice (now : Nat) (c : Catalog) (r : VoiceConsentRecord) : Prop :=
  ∀ v ∈ c.voices, v.id = r.voiceId → v.purgedAt = none → Freezable now v

/-- The first call is accepted exactly if the reason can be stored, the record
is not of later, and the voice can be frozen. -/
theorem cascade_accepted (hr : r ∈ c.consents) (h : r.revokedAt = none) :
    (∃ c', adminRevokeVoiceConsent r.id now reason c = .ok (true, c')) ↔
      storable reason = true ∧ r.recordedAt ≤ now ∧ ReachesVoice now c r := by
  constructor
  · rintro ⟨c', hrun⟩
    obtain ⟨-, t, o, ht, hfreeze⟩ := (cascade_ok hr h).1 hrun
    obtain ⟨hstore, hle⟩ := (revoke_accepted hr).1 (Option.isSome_iff_exists.2 ⟨t, ht⟩)
    exact ⟨hstore, hle, fun v hv hid hp => freezable_of_freeze hfreeze hv hid hp⟩
  · rintro ⟨hstore, hle, hreach⟩
    have hsome : (c.consents.modify (fun s => s.id == r.id) (revokedRecord now reason)).isSome :=
      (revoke_accepted hr).2 ⟨hstore, hle⟩
    obtain ⟨t, ht⟩ := Option.isSome_iff_exists.1 hsome
    have hreason : storable (py "consent revoked: " ++ reason) = true :=
      storable_append (by decide) hstore
    have hordered : ∀ v ∈ c.voices, v.id = r.voiceId → v.purgedAt = none →
        purgeAfterFrozen (frozen now (py "consent revoked: " ++ reason) none v) = true :=
      fun v hv hid hp => (ordered_frozen_iff (check_of_mem hv).2.2).2 (hreach v hv hid hp)
    obtain ⟨o, c', hfreeze⟩ := @freeze_accepted { c with consents := t } now _ r.voiceId none
      hreason hordered
    exact ⟨c', (cascade_ok hr h).2 ⟨rfl, t, o, ht, hfreeze⟩⟩

/-- **The cascade does what its documentation says** exactly for records that
are not revoked yet: it does not run a second time. -/
theorem consent_cascade_iff (c : Catalog) (now : Nat) (reason : PyStr) (r : VoiceConsentRecord)
    (hr : r ∈ c.consents) :
    Cascades now reason c r ↔
      r.revokedAt = none ∧ storable reason = true ∧ r.recordedAt ≤ now ∧ ReachesVoice now c r := by
  constructor
  · intro hcascades
    have hopen : r.revokedAt = none := by
      cases hrevoked : r.revokedAt with
      | none => rfl
      | some t => exact absurd (revoke_twice hr (by simp [hrevoked])) (hcascades.found c)
    obtain hsame | ⟨b, hrun⟩ := Tx.after_cases (adminRevokeVoiceConsent r.id now reason) c
    · obtain ⟨s, hs, hsid, hrevoked⟩ := hcascades.revoked
      rw [hsame] at hs
      obtain rfl : s = r :=
        Table.eq_of_clash hs hr (by simpa [voiceConsentRecords] using hsid)
      simp [hopen] at hrevoked
    · obtain ⟨rfl, -⟩ := (cascade_ok hr hopen).1 hrun
      exact ⟨hopen, (cascade_accepted hr hopen).1 ⟨_, hrun⟩⟩
  · rintro ⟨hopen, haccepted⟩
    obtain ⟨c', hrun⟩ := (cascade_accepted hr hopen).2 haccepted
    obtain ⟨-, t, o, ht, hfreeze⟩ := (cascade_ok hr hopen).1 hrun
    have hafter : (adminRevokeVoiceConsent r.id now reason).after c = c' := by
      simp only [Tx.after, hrun]
    have hconsents : c'.consents = t := by
      obtain rfl | ⟨p, u, -, rfl⟩ := writeUnpurged_write hfreeze
      · rfl
      · rfl
    refine ⟨fun c₁ h₁ => ?_, ?_, fun v hv hid => ?_⟩
    · rw [hrun] at h₁
      cases h₁
    · rw [hafter, hconsents]
      exact ⟨revokedRecord now reason r, (Table.mem_modify ht).2 ⟨r, hr, by simp⟩, rfl, rfl⟩
    · rw [hafter] at hv
      intro hactive
      exact (freeze_settles hfreeze).2 v hv hid (lifecycleState_active.1 hactive).1 hactive

end route

/-- The consent to the voice of `lifecycleCatalog`. -/
def sampleConsent (revokedAt : Option Nat) : VoiceConsentRecord where
  id := 3
  voiceId := 7
  consentKind := py "tenant-asserted"
  evidenceUri := none
  evidenceSha256 := none
  evidenceNotes := none
  recordedAt := 1
  recordedByKind := py "tenant"
  recordedByActorId := none
  revokedAt

/-- A catalog with an active voice and a consent to it. -/
def consentedCatalog (r : VoiceConsentRecord) (h : voiceConsentRecords.check r = true) : Catalog :=
  { lifecycleCatalog with
    consents := ⟨[r], List.pairwise_singleton _ r, fun s hs => by
      rw [List.mem_singleton.1 hs]; exact h⟩ }

/-- The first revocation of a consent freezes its voice. -/
theorem consent_cascade_first :
    Cascades 9 (py "withdrawn") (consentedCatalog (sampleConsent none) (by decide +kernel))
      (sampleConsent none) := by
  refine (consent_cascade_iff _ 9 (py "withdrawn") (sampleConsent none) ?_).2
    ⟨rfl, by decide, by decide, fun v hv _ _ => .inr fun p hp => ?_⟩
  · exact List.mem_singleton_self _
  · rw [List.mem_singleton.1 hv] at hp
    cases hp

/-- A consent revoked by a path that froze nothing: the route answers 404, and
the voice stays active. -/
theorem uncascaded_not_found :
    ¬∀ (c : Catalog) (now : Nat) (reason : PyStr), ∀ r ∈ c.consents, Cascades now reason c r := by
  intro h
  have hcascades := h (consentedCatalog (sampleConsent (some 5)) (by decide +kernel)) 9
    (py "withdrawn") (sampleConsent (some 5)) (List.mem_singleton_self _)
  exact hcascades.found _ (revoke_twice (List.mem_singleton_self _) rfl)

end NeuroVoice
