import NeuroVoice.Catalog.Contract

/-!
# NeuroVoice.Catalog.Evolution

What tenants and operators can do to the catalog, one committed transaction
after another.

Rows are never taken away and a revoked consent stays revoked; a consent is
only ever recorded together with its voice.  That is `Grows`, and what a
transaction keeps: `Catalog.grows_commit`.
-/

namespace NeuroVoice

open VoiceRepo

/-! ## transactions -/

/-- An operation on the catalog. -/
inductive CatalogOp where
  | voice (now : Nat) (op : VoiceOp)
  | unfreeze (id : Uuid)
  | create (tenant id : Uuid) (now : Nat) (n : NewVoice)
  | enroll (cfg : EnrollSettings) (a : EnrollAttempt) (wav : Bytes) (seconds : Rat)
  | grant (owner : Uuid) (slug : PyStr) (grantee : Uuid) (permission : PyStr)
      (grantedBy : Option Uuid)
  | revokeGrant (owner : Uuid) (slug : PyStr) (grantee : Uuid)
  | revokeConsent (id : Uuid) (now : Nat) (reason : Option PyStr)
  | revokeContract (id : Uuid) (now : Nat)

/-- The operation, in the session it is part of. -/
def CatalogOp.run : CatalogOp → Tx Unit
  | .voice now op => do let _ ← op.run now
  | .unfreeze id => do let _ ← VoiceRepo.unfreeze id
  | .create tenant id now n => do let _ ← VoiceRepo.create tenant id now n
  | .enroll cfg a wav seconds => do let _ ← persist cfg a wav seconds
  | .grant owner slug grantee permission grantedBy => do
      let _ ← VoiceAccessRepo.grant owner slug grantee permission grantedBy
  | .revokeGrant owner slug grantee => do let _ ← VoiceAccessRepo.revoke owner slug grantee
  | .revokeConsent id now reason => do let _ ← VoiceConsentRecordRepo.revoke id now reason
  | .revokeContract id now => do let _ ← TalentContractRepo.revoke id now

/-- The operations of one session. -/
abbrev Transaction := List CatalogOp

/-- All of them, or none. -/
def Transaction.run : Transaction → Tx Unit
  | [] => return ()
  | op :: ops => do
      op.run
      Transaction.run ops

/-- The catalog once the transaction is over. -/
def Catalog.commit (c : Catalog) (tx : Transaction) : Catalog := (Transaction.run tx).after c

/-- The catalog after a number of transactions. -/
def Catalog.commitAll (c : Catalog) (txs : List Transaction) : Catalog := txs.foldl Catalog.commit c

/-! ## what they keep -/

/-- Voices stay, and a consent in force is old or for a new voice. -/
structure Grows (c c' : Catalog) : Prop where
  voice : ∀ v ∈ c.voices, ∃ w ∈ c'.voices, w.id = v.id
  consent : ∀ r ∈ c'.consents, r.revokedAt = none →
    r ∈ c.consents ∨ ∀ v ∈ c.voices, v.id ≠ r.voiceId

namespace Grows

variable {c c' c'' : Catalog}

theorem refl (c : Catalog) : Grows c c :=
  ⟨fun v hv => ⟨v, hv, rfl⟩, fun _ hr _ => .inl hr⟩

theorem trans (h : Grows c c') (h' : Grows c' c'') : Grows c c'' := by
  constructor
  · intro v hv
    obtain ⟨w, hw, hid⟩ := h.voice v hv
    obtain ⟨x, hx, hid'⟩ := h'.voice w hw
    exact ⟨x, hx, hid'.trans hid⟩
  · intro s hs hopen
    obtain hs | hnew := h'.consent s hs hopen
    · exact h.consent s hs hopen
    · refine .inr fun v hv hid => ?_
      obtain ⟨w, hw, hwid⟩ := h.voice v hv
      exact hnew w hw (hwid.trans hid)

/-- An operation on voices alone. -/
theorem of_voices (hv : ∀ v ∈ c.voices, ∃ w ∈ c'.voices, w.id = v.id)
    (hc : c'.consents = c.consents) : Grows c c' :=
  ⟨hv, fun _ hr _ => .inl (hc ▸ hr)⟩

/-- An operation that touches neither voices nor consents. -/
theorem of_same (hv : c'.voices = c.voices) (hc : c'.consents = c.consents) : Grows c c' :=
  of_voices (fun v hmem => ⟨v, by rwa [hv], rfl⟩) hc

end Grows

section operations

variable {c c' : Catalog}

/-- The step lemma of all writes to one voice. -/
theorem grows_write {f : Voice → Voice} (h : VoiceWrite f c c') (hid : ∀ v, (f v).id = v.id) :
    Grows c c' := by
  obtain rfl | ⟨p, t, hm, rfl⟩ := h
  · exact .refl c'
  · refine .of_voices (fun v hv => ?_) rfl
    refine ⟨if p v then f v else v, (Table.mem_modify hm).2 ⟨v, hv, rfl⟩, ?_⟩
    split
    · exact hid v
    · rfl

theorem VoiceOp.grows {now : Nat} {op : VoiceOp} {r : Option Voice}
    (h : op.run now c = .ok (r, c')) : Grows c c' := by
  obtain ⟨f, hf, hw⟩ := VoiceOp.writes h
  exact grows_write hw hf.id

theorem grows_unfreeze {id : Uuid} {r : Option Voice} (h : unfreeze id c = .ok (r, c')) :
    Grows c c' :=
  grows_write (writeUnpurged_write h) fun _ => rfl

theorem grows_create {tenant id : Uuid} {now : Nat} {n : NewVoice} {v : Voice}
    (h : create tenant id now n c = .ok (v, c')) : Grows c c' := by
  obtain ⟨visibility, t, -, -, ht, rfl⟩ := create_ok h
  exact .of_voices (fun w hw => ⟨w, (Table.mem_insert ht).2 (.inl hw), rfl⟩) rfl

/-- `record` adds one consent. -/
theorem mem_record {r r' : VoiceConsentRecord} (h : VoiceConsentRecordRepo.record r c = .ok (r', c'))
    {s : VoiceConsentRecord} : s ∈ c'.consents ↔ s ∈ c.consents ∨ s = r := by
  obtain ⟨t, ht, rfl⟩ := VoiceConsentRecordRepo.record_eq_ok h
  exact Table.mem_insert ht

/-- The consent of an enroll is for its new voice. -/
theorem grows_persist {cfg : EnrollSettings} {a : EnrollAttempt} {wav : Bytes} {seconds : Rat}
    {v : Voice} (h : persist cfg a wav seconds c = .ok (v, c')) : Grows c c' := by
  unfold persist at h
  obtain ⟨v', c₁, hcreate, h⟩ := Tx.bind_ok.1 h
  obtain ⟨consent, c₂, hrecord, h⟩ := Tx.bind_ok.1 h
  obtain ⟨rfl, rfl⟩ := Tx.pure_ok.1 h
  obtain ⟨visibility, t, -, rfl, ht, rfl⟩ := create_ok hcreate
  obtain ⟨hvoices, -⟩ := VoiceConsentRecordRepo.record_ok hrecord
  constructor
  · intro w hw
    rw [hvoices]
    exact ⟨w, (Table.mem_insert ht).2 (.inl hw), rfl⟩
  · intro r hr hopen
    obtain hr | rfl := (mem_record hrecord).1 hr
    · exact .inl hr
    · refine .inr fun w hw hid => ?_
      have hfree := (Table.insert_isSome.1 (Option.isSome_iff_exists.2 ⟨t, ht⟩)).1 w hw
      simp [voices, NewVoice.row, hid, EnrollAttempt.consent] at hfree

theorem grows_grant {owner grantee : Uuid} {slug permission : PyStr} {grantedBy : Option Uuid}
    {r : Option VoiceAccess}
    (h : VoiceAccessRepo.grant owner slug grantee permission grantedBy c = .ok (r, c')) :
    Grows c c' := by
  obtain rfl | ⟨v, p, -, hput⟩ := VoiceAccessRepo.grant_eq_ok h
  · exact .refl c'
  · obtain ⟨⟨t, rfl⟩, -⟩ := VoiceAccessRepo.putAccess_eq_some hput
    exact .of_same rfl rfl

theorem grows_revokeGrant {owner grantee : Uuid} {slug : PyStr} {n : Nat}
    (h : VoiceAccessRepo.revoke owner slug grantee c = .ok (n, c')) : Grows c c' := by
  obtain rfl | ⟨p, rfl⟩ := VoiceAccessRepo.revoke_eq_ok h
  · exact .refl c'
  · exact .of_same rfl rfl

/-- A revoked consent is no longer in force. -/
theorem grows_revokeConsent {id : Uuid} {now : Nat} {reason : Option PyStr}
    {r : Option VoiceConsentRecord}
    (h : VoiceConsentRecordRepo.revoke id now reason c = .ok (r, c')) : Grows c c' := by
  obtain ⟨-, rfl⟩ | ⟨s, t, -, -, -, -, ht, rfl⟩ := VoiceConsentRecordRepo.revoke_eq_ok h
  · exact .refl c'
  · refine ⟨fun v hv => ⟨v, hv, rfl⟩, fun x hx hopen => ?_⟩
    obtain ⟨y, hy, rfl⟩ := (Table.mem_modify ht).1 hx
    split at hopen
    · cases hopen
    · next hne => rw [if_neg hne]; exact .inl hy

theorem grows_revokeContract {id : Uuid} {now : Nat} {r : Option TalentContract}
    (h : TalentContractRepo.revoke id now c = .ok (r, c')) : Grows c c' := by
  obtain ⟨-, rfl⟩ | ⟨k, t, -, -, -, -, -, rfl⟩ := TalentContractRepo.revoke_eq_ok h
  · exact .refl c'
  · exact .of_same rfl rfl

/-- The step lemma of the operations. -/
theorem CatalogOp.grows {op : CatalogOp} {u : Unit} (h : op.run c = .ok (u, c')) :
    Grows c c' := by
  have hdrop : ∀ {α : Type} {x : Tx α}, (do let _ ← x) c = .ok (u, c') →
      ∃ r, x c = .ok (r, c') := by
    intro α x hx
    obtain ⟨r, c₁, hr, hret⟩ := Tx.bind_ok.1 hx
    obtain ⟨-, rfl⟩ := Tx.pure_ok.1 hret
    exact ⟨r, hr⟩
  cases op with
  | voice now op =>
      obtain ⟨r, h⟩ := hdrop h
      exact VoiceOp.grows h
  | unfreeze id =>
      obtain ⟨r, h⟩ := hdrop h
      exact grows_unfreeze h
  | create tenant id now n =>
      obtain ⟨v, h⟩ := hdrop h
      exact grows_create h
  | enroll cfg a wav seconds =>
      obtain ⟨v, h⟩ := hdrop h
      exact grows_persist h
  | grant owner slug grantee permission grantedBy =>
      obtain ⟨r, h⟩ := hdrop h
      exact grows_grant h
  | revokeGrant owner slug grantee =>
      obtain ⟨n, h⟩ := hdrop h
      exact grows_revokeGrant h
  | revokeConsent id now reason =>
      obtain ⟨r, h⟩ := hdrop h
      exact grows_revokeConsent h
  | revokeContract id now =>
      obtain ⟨r, h⟩ := hdrop h
      exact grows_revokeContract h

end operations

/-- A transaction that succeeds. -/
theorem Transaction.grows {c c' : Catalog} (tx : Transaction) {u : Unit}
    (h : Transaction.run tx c = .ok (u, c')) : Grows c c' := by
  induction tx generalizing c with
  | nil =>
      obtain ⟨-, rfl⟩ := Tx.pure_ok.1 h
      exact .refl c
  | cons op ops ih =>
      obtain ⟨_, c₁, hop, hrest⟩ := Tx.bind_ok.1 h
      exact (CatalogOp.grows hop).trans (ih hrest)

/-- **What a transaction keeps**, whether it is committed or rolled back. -/
theorem Catalog.grows_commit (c : Catalog) (tx : Transaction) : Grows c (c.commit tx) := by
  unfold Catalog.commit
  obtain h | ⟨u, h⟩ := Tx.after_cases (Transaction.run tx) c
  · rw [h]
    exact .refl c
  · exact Transaction.grows tx h

/-- The run lemma. -/
theorem Catalog.grows_commitAll (c : Catalog) (txs : List Transaction) :
    Grows c (c.commitAll txs) := by
  induction txs generalizing c with
  | nil => exact .refl c
  | cons tx txs ih => exact (c.grows_commit tx).trans (ih _)

theorem Catalog.commitAll_append (c : Catalog) (txs more : List Transaction) :
    c.commitAll (txs ++ more) = (c.commitAll txs).commitAll more :=
  List.foldl_append

/-! ## voices in service -/

/-- The voice is active and has a consent in force: what the gate asks. -/
def Catalog.inService (c : Catalog) (id : Uuid) : Bool :=
  (c.voices.rows.any fun v => v.id == id && lifecycleState v == "active") &&
    (VoiceConsentRecordRepo.latestActive c id).isSome

/-- There is a newest consent in force when there is one in force. -/
theorem latestActive_isSome {c : Catalog} {id : Uuid} :
    (VoiceConsentRecordRepo.latestActive c id).isSome ↔
      ∃ r ∈ c.consents, r.voiceId = id ∧ r.revokedAt = none := by
  unfold VoiceConsentRecordRepo.latestActive
  rw [List.isSome_head?, ← List.length_pos_iff_ne_nil, List.length_mergeSort,
    List.length_pos_iff_exists_mem]
  simp [VoiceConsentRecordRepo.activeFor]

/-- A consent that is in force later was in force already, if its voice was
there. -/
theorem Grows.latestActive {c c' : Catalog} (h : Grows c c') {v : Voice} (hv : v ∈ c.voices)
    (hactive : (VoiceConsentRecordRepo.latestActive c' v.id).isSome) :
    (VoiceConsentRecordRepo.latestActive c v.id).isSome := by
  obtain ⟨r, hr, hid, hopen⟩ := latestActive_isSome.1 hactive
  obtain hr | hnew := h.consent r hr hopen
  · exact latestActive_isSome.2 ⟨r, hr, hid, hopen⟩
  · exact absurd hid.symm (hnew v hv)

end NeuroVoice
