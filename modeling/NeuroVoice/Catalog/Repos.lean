import NeuroVoice.Catalog.State

/-!
# NeuroVoice.Catalog.Repos

`repos/voice.py`, `repos/voice_access.py`, `repos/voice_consent.py` and
`repos/talent_contract.py` over the catalog.  Clocks and fresh ids are
arguments.
-/

namespace NeuroVoice

/-- A flush of new column values of the voice `id`. -/
def flushVoice (id : Uuid) (f : Voice → Voice) : Tx Unit :=
  .statement fun c => (c.voices.modify (fun v => v.id == id) f).map fun voices => { c with voices }

/-- A voice other than the written one is as before, and the written one is
the written one. -/
theorem mem_written {c : Catalog} {f : Voice → Voice} {v : Voice} {t : Table voices}
    (hv : v ∈ c.voices) (h : c.voices.modify (fun w => w.id == v.id) f = some t) {x : Voice} :
    x ∈ t ↔ x = f v ∨ x ∈ c.voices ∧ x.id ≠ v.id := by
  rw [Table.mem_modify h]
  constructor
  · rintro ⟨w, hw, rfl⟩
    by_cases hid : w.id = v.id
    · have : w = v := Table.eq_of_clash hw hv (by simp [voices, hid])
      subst this
      simp
    · simp [hid, hw]
  · rintro (rfl | ⟨hx, hid⟩)
    · exact ⟨v, hv, by simp⟩
    · exact ⟨x, hx, by simp [hid]⟩

/-- A flush writes the voice and nothing else. -/
theorem flushVoice_ok {id : Uuid} {f : Voice → Voice} {u : Unit} {c c' : Catalog} :
    flushVoice id f c = .ok (u, c') ↔
      ∃ voices, c.voices.modify (fun v => v.id == id) f = some voices ∧
        c' = { c with voices } := by
  unfold flushVoice
  rw [Tx.statement_ok, Option.map_eq_some_iff]
  constructor
  · rintro ⟨voices, h, rfl⟩; exact ⟨voices, h, rfl⟩
  · rintro ⟨voices, h, rfl⟩; exact ⟨voices, h, rfl⟩

namespace VoiceRepo

/-! ## read -/

/-- The condition of `get_owned`. -/
def ownedBy (tenant : Uuid) (slug : PyStr) (v : Voice) : Bool :=
  v.ownerTenantId == tenant && v.voiceId == slug && v.deletedAt.isNone

/-- `get_owned`. -/
def getOwned (c : Catalog) (tenant : Uuid) (slug : PyStr) : Option Voice :=
  c.voices.find? (ownedBy tenant slug)

/-- The voice a tenant owns under a slug. -/
theorem getOwned_eq_some {c : Catalog} {tenant : Uuid} {slug : PyStr} {v : Voice}
    (h : getOwned c tenant slug = some v) :
    v ∈ c.voices ∧ v.ownerTenantId = tenant ∧ v.voiceId = slug ∧ v.deletedAt = none := by
  obtain ⟨hv, hp⟩ := Table.find?_eq_some h
  simp only [ownedBy, Bool.and_eq_true, beq_iff_eq, Option.isNone_iff_eq_none] at hp
  exact ⟨hv, hp.1.1, hp.1.2, hp.2⟩

/-- `Voice.id.in_(granted_voice_ids)`. -/
def granted (c : Catalog) (tenant : Uuid) (v : Voice) : Bool :=
  c.access.rows.any fun a => a.tenantId == tenant && a.voiceId == v.id

/-- The condition of `list_accessible`. -/
def accessible (c : Catalog) (tenant : Uuid) (v : Voice) : Bool :=
  v.ownerTenantId == tenant || v.visibility == .pub || granted c tenant v

/-- `list_accessible`, in the database's order of text. -/
def listAccessible (collate : PyStr → PyStr → Bool) (c : Catalog) (tenant : Uuid)
    (includeDeleted : Bool) : List Voice :=
  (c.voices.rows.filter fun v =>
    accessible c tenant v && (includeDeleted || v.deletedAt.isNone)).mergeSort
      fun v w => collate v.voiceId w.voiceId

/-- The rows the second query of `get_accessible` matches. -/
def sharedMatches (c : Catalog) (tenant : Uuid) (slug : PyStr) : List Voice :=
  c.voices.rows.filter fun v => v.voiceId == slug && granted c tenant v && v.deletedAt.isNone

/-- The rows its third query matches. -/
def publicMatches (c : Catalog) (slug : PyStr) : List Voice :=
  c.voices.rows.filter fun v => v.voiceId == slug && v.visibility == .pub && v.deletedAt.isNone

/-- `ORDER BY created_at LIMIT 1`. -/
def firstCreated (vs : List Voice) : Option Voice :=
  (vs.mergeSort fun v w => v.createdAt ≤ w.createdAt).head?

/-- `get_accessible`: owned, else shared, else public. -/
def getAccessible (c : Catalog) (tenant : Uuid) (slug : PyStr) : Option Voice :=
  match getOwned c tenant slug with
  | some v => some v
  | none =>
      match firstCreated (sharedMatches c tenant slug) with
      | some v => some v
      | none => firstCreated (publicMatches c slug)

/-- `get_by_id`. -/
def getById (c : Catalog) (id : Uuid) : Option Voice := c.voices.find? fun v => v.id == id

/-! ## write, owner-only -/

/-- The arguments of `create`. -/
structure NewVoice where
  voiceId : PyStr
  displayName : PyStr
  referenceUri : PyStr
  referenceSha256 : PyStr
  referenceSeconds : Rat
  licenseKind : PyStr
  referenceSampleRate : Nat := 16000
  language : PyStr := py "tr"
  gender : PyStr := py "neutral"
  styleTags : List PyStr := []
  source : PyStr := py "tenant-enroll"
  licenseRef : Option PyStr := none
  visibility : PyStr := py "private"
  engineParams : Dict := []
  createdByKeyId : Option Uuid := none
  description : Option PyStr := none
  labels : Option (List PyStr) := none
  previewUrl : Option PyStr := none
  voiceSettingsDefaults : Option Dict := none

/-- A voice to enroll, for the examples. -/
def sampleVoice : NewVoice where
  voiceId := py "ayse"
  displayName := py "Ayse"
  referenceUri := py "file:///data/ayse.wav"
  referenceSha256 := List.replicate 64 0x61
  referenceSeconds := 5
  licenseKind := py "user-owned"

/-- The row of a new voice. -/
def NewVoice.row (n : NewVoice) (tenant id : Uuid) (now : Nat) (visibility : Visibility) :
    Voice where
  id
  ownerTenantId := tenant
  voiceId := n.voiceId
  displayName := n.displayName
  language := n.language
  gender := n.gender
  styleTags := n.styleTags
  referenceUri := n.referenceUri
  referenceSha256 := n.referenceSha256
  referenceSeconds := n.referenceSeconds
  referenceSampleRate := n.referenceSampleRate
  source := n.source
  licenseKind := n.licenseKind
  licenseRef := n.licenseRef
  visibility
  engineParams := n.engineParams
  description := n.description
  labels := n.labels
  previewUrl := n.previewUrl
  voiceSettingsDefaults := n.voiceSettingsDefaults
  createdByKeyId := n.createdByKeyId
  createdAt := now

/-- The insert itself: foreign keys, unique keys and checks. -/
def insertVoice (v : Voice) (c : Catalog) : Option Catalog :=
  if c.tenants v.ownerTenantId ∧ v.createdByKeyId.all c.apiKeys then
    (c.voices.insert v).map fun voices => { c with voices }
  else none

/-- `create`: a visibility outside the enumeration fails its check. -/
def create (tenant id : Uuid) (now : Nat) (n : NewVoice) : Tx Voice := do
  match Visibility.ofStr? n.visibility with
  | none => throw (.foreign .integrityError)
  | some visibility => do
      let v := n.row tenant id now visibility
      .statement (insertVoice v)
      return v

/-- A `create` that the database accepts. -/
theorem create_accepted {tenant id : Uuid} {now : Nat} {n : NewVoice} {visibility : Visibility}
    {c c' : Catalog} (hvis : Visibility.ofStr? n.visibility = some visibility)
    (h : insertVoice (n.row tenant id now visibility) c = some c') :
    create tenant id now n c = .ok (n.row tenant id now visibility, c') := by
  unfold create
  rw [hvis]
  exact Tx.bind_ok.2 ⟨(), c', Tx.statement_ok.2 h, Tx.pure_ok.2 ⟨rfl, rfl⟩⟩

/-- What `create` does when it succeeds. -/
theorem create_ok {tenant id : Uuid} {now : Nat} {n : NewVoice} {v : Voice} {c c' : Catalog}
    (h : create tenant id now n c = .ok (v, c')) :
    ∃ visibility t, Visibility.ofStr? n.visibility = some visibility ∧
      n.row tenant id now visibility = v ∧ c.voices.insert v = some t ∧
      c' = { c with voices := t } := by
  unfold create at h
  cases hvis : Visibility.ofStr? n.visibility with
  | none => rw [hvis] at h; exact (Tx.not_throw_ok h).elim
  | some visibility =>
      rw [hvis] at h
      obtain ⟨u, c₁, hs, h⟩ := Tx.bind_ok.1 h
      obtain ⟨rfl, rfl⟩ := Tx.pure_ok.1 h
      have hs := Tx.statement_ok.1 hs
      unfold insertVoice at hs
      split at hs
      · obtain ⟨t, ht, rfl⟩ := Option.map_eq_some_iff.1 hs
        exact ⟨visibility, t, rfl, rfl, ht, rfl⟩
      · cases hs

/-- The arguments of `update_metadata`. -/
structure MetadataPatch where
  displayName : Option PyStr := none
  description : Option PyStr := none
  labels : Option (List PyStr) := none
  previewUrl : Option PyStr := none
  voiceSettingsDefaults : Option Dict := none
  styleTags : Option (List PyStr) := none
  visibility : Option PyStr := none

/-- The assignments of `update_metadata`, less the visibility. -/
def MetadataPatch.apply (p : MetadataPatch) (v : Voice) : Voice :=
  { v with
    displayName := p.displayName.getD v.displayName
    description := p.description.or v.description
    labels := p.labels.or v.labels
    previewUrl := p.previewUrl.or v.previewUrl
    voiceSettingsDefaults := p.voiceSettingsDefaults.or v.voiceSettingsDefaults
    styleTags := p.styleTags.getD v.styleTags }

/-- An invalid visibility. -/
def invalidVisibility : Exn := .foreign (.valueError "invalid visibility")

/-- Write to the voice a tenant owns under a slug, if it owns one. -/
def writeOwned (tenant : Uuid) (slug : PyStr) (f : Voice → Voice) : Tx (Option Voice) := do
  match ← Tx.query fun c => getOwned c tenant slug with
  | none => return none
  | some v => do
      flushVoice v.id f
      return some (f v)

/-- What `writeOwned` does when it succeeds. -/
theorem writeOwned_ok {tenant : Uuid} {slug : PyStr} {f : Voice → Voice} {r : Option Voice}
    {c c' : Catalog} (h : writeOwned tenant slug f c = .ok (r, c')) :
    (getOwned c tenant slug = none ∧ r = none ∧ c' = c) ∨
    ∃ v voices, getOwned c tenant slug = some v ∧ r = some (f v) ∧
      c.voices.modify (fun w => w.id == v.id) f = some voices ∧ c' = { c with voices } := by
  unfold writeOwned at h
  obtain ⟨o, c₁, hq, h⟩ := Tx.bind_ok.1 h
  obtain ⟨rfl, rfl⟩ := Tx.query_ok.1 hq
  cases ho : getOwned c tenant slug with
  | none =>
      rw [ho] at h
      obtain ⟨rfl, rfl⟩ := Tx.pure_ok.1 h
      exact .inl ⟨rfl, rfl, rfl⟩
  | some v =>
      rw [ho] at h
      obtain ⟨u, c₂, hf, h⟩ := Tx.bind_ok.1 h
      obtain ⟨rfl, rfl⟩ := Tx.pure_ok.1 h
      obtain ⟨voices, hm, rfl⟩ := flushVoice_ok.1 hf
      exact .inr ⟨v, voices, rfl, rfl, hm, rfl⟩

/-- After an owner's write every row is a former row, written or not. -/
theorem writeOwned_mem {tenant : Uuid} {slug : PyStr} {f : Voice → Voice} {r : Option Voice}
    {c c' : Catalog} (h : writeOwned tenant slug f c = .ok (r, c')) {x : Voice}
    (hx : x ∈ c'.voices) : ∃ w ∈ c.voices, x = w ∨ x = f w := by
  obtain ⟨-, -, rfl⟩ | ⟨v, t, ho, -, hm, rfl⟩ := writeOwned_ok h
  · exact ⟨x, hx, .inl rfl⟩
  · obtain ⟨hv, -⟩ := getOwned_eq_some ho
    obtain rfl | ⟨hxv, -⟩ := (mem_written hv hm).1 hx
    · exact ⟨v, hv, .inr rfl⟩
    · exact ⟨x, hxv, .inl rfl⟩

/-- `update_metadata`: the visibility is looked at once the voice is
found. -/
def updateMetadata (tenant : Uuid) (slug : PyStr) (p : MetadataPatch) : Tx (Option Voice) := do
  match p.visibility with
  | none => writeOwned tenant slug p.apply
  | some s =>
      match Visibility.ofStr? s with
      | some visibility => writeOwned tenant slug fun v => { p.apply v with visibility }
      | none =>
          match ← Tx.query fun c => getOwned c tenant slug with
          | none => return none
          | some _ => throw invalidVisibility

/-- `soft_delete`. -/
def softDelete (tenant : Uuid) (slug : PyStr) (now : Nat) : Tx (Option Voice) :=
  writeOwned tenant slug fun v => { v with deletedAt := some now }

/-- `set_visibility`: the visibility is looked at first. -/
def setVisibility (tenant : Uuid) (slug visibility : PyStr) : Tx (Option Voice) := do
  match Visibility.ofStr? visibility with
  | none => throw invalidVisibility
  | some visibility => writeOwned tenant slug fun v => { v with visibility }

/-- `set_visibility` is a write of the visibility. -/
theorem setVisibility_ok {tenant : Uuid} {slug s : PyStr} {r : Option Voice} {c c' : Catalog}
    (h : setVisibility tenant slug s c = .ok (r, c')) :
    ∃ visibility, Visibility.ofStr? s = some visibility ∧
      writeOwned tenant slug (fun v => { v with visibility }) c = .ok (r, c') := by
  unfold setVisibility at h
  cases hvis : Visibility.ofStr? s with
  | none => rw [hvis] at h; exact (Tx.not_throw_ok h).elim
  | some visibility => rw [hvis] at h; exact ⟨visibility, rfl, h⟩

/-- `update_metadata` is a write, with or without a visibility, or finds
nothing to write to. -/
theorem updateMetadata_ok {tenant : Uuid} {slug : PyStr} {p : MetadataPatch}
    {r : Option Voice} {c c' : Catalog} (h : updateMetadata tenant slug p c = .ok (r, c')) :
    (p.visibility = none ∧ writeOwned tenant slug p.apply c = .ok (r, c')) ∨
    (∃ s visibility, p.visibility = some s ∧ Visibility.ofStr? s = some visibility ∧
      writeOwned tenant slug (fun v => { p.apply v with visibility }) c = .ok (r, c')) ∨
    c' = c := by
  unfold updateMetadata at h
  cases hp : p.visibility with
  | none => rw [hp] at h; exact .inl ⟨rfl, h⟩
  | some s =>
      rw [hp] at h
      simp only at h
      cases hvis : Visibility.ofStr? s with
      | some visibility => rw [hvis] at h; exact .inr (.inl ⟨s, visibility, rfl, hvis, h⟩)
      | none =>
          rw [hvis] at h
          obtain ⟨o, c₁, hq, h⟩ := Tx.bind_ok.1 h
          obtain ⟨rfl, rfl⟩ := Tx.query_ok.1 hq
          cases ho : getOwned c tenant slug with
          | none => rw [ho] at h; exact .inr (.inr (Tx.pure_ok.1 h).2.symm)
          | some v => rw [ho] at h; exact (Tx.not_throw_ok h).elim

/-! ## lifecycle -/

/-- `timedelta(days=n)`, in milliseconds; the routes accept at most 3650 days. -/
def days (n : Nat) : Nat := n * 86400000

/-- Write to a voice that is there and not purged. -/
def writeUnpurged (id : Uuid) (f : Voice → Voice) : Tx (Option Voice) := do
  match ← Tx.query fun c => getById c id with
  | none => return none
  | some v =>
      if v.purgedAt.isSome then return some v
      flushVoice v.id f
      return some (f v)

/-- What `writeUnpurged` does when it succeeds. -/
theorem writeUnpurged_ok {id : Uuid} {f : Voice → Voice} {r : Option Voice} {c c' : Catalog}
    (h : writeUnpurged id f c = .ok (r, c')) :
    (getById c id = none ∧ r = none ∧ c' = c) ∨
    ∃ v, getById c id = some v ∧
      (v.purgedAt.isSome ∧ r = some v ∧ c' = c ∨
      v.purgedAt = none ∧ r = some (f v) ∧
        ∃ voices, c.voices.modify (fun w => w.id == v.id) f = some voices ∧
          c' = { c with voices }) := by
  unfold writeUnpurged at h
  obtain ⟨o, c₁, hq, h⟩ := Tx.bind_ok.1 h
  obtain ⟨rfl, rfl⟩ := Tx.query_ok.1 hq
  cases ho : getById c id with
  | none =>
      rw [ho] at h
      obtain ⟨rfl, rfl⟩ := Tx.pure_ok.1 h
      exact .inl ⟨rfl, rfl, rfl⟩
  | some v =>
      rw [ho] at h
      refine .inr ⟨v, rfl, ?_⟩
      cases hp : v.purgedAt with
      | some t =>
          simp only [hp, Option.isSome_some, if_true] at h
          obtain ⟨rfl, rfl⟩ := Tx.pure_ok.1 h
          exact .inl ⟨rfl, rfl, rfl⟩
      | none =>
          simp only [hp, Option.isSome_none, Bool.false_eq_true, if_false] at h
          obtain ⟨u, c₂, hf, h⟩ := Tx.bind_ok.1 h
          obtain ⟨rfl, rfl⟩ := Tx.pure_ok.1 h
          obtain ⟨voices, hm, rfl⟩ := flushVoice_ok.1 hf
          exact .inr ⟨rfl, rfl, voices, hm, rfl⟩

/-- A write to a voice that is there and not purged is a flush. -/
theorem writeUnpurged_unpurged {id : Uuid} {f : Voice → Voice} {c : Catalog} {v : Voice}
    (h : getById c id = some v) (hp : v.purgedAt = none) :
    writeUnpurged id f c =
      match c.voices.modify (fun w => w.id == v.id) f with
      | some t => .ok (some (f v), { c with voices := t })
      | none => .error (.foreign .integrityError) := by
  cases hm : c.voices.modify (fun w => w.id == v.id) f with
  | some t =>
      refine Tx.bind_ok.2 ⟨_, _, Tx.query_ok.2 ⟨h, rfl⟩, ?_⟩
      simp only [hp, Option.isSome_none, Bool.false_eq_true, if_false]
      exact Tx.bind_ok.2 ⟨(), _, flushVoice_ok.2 ⟨t, hm, rfl⟩, Tx.pure_ok.2 ⟨rfl, rfl⟩⟩
  | none =>
      unfold writeUnpurged
      rw [Tx.bind_query, h]
      simp only [hp, Option.isSome_none, Bool.false_eq_true, if_false]
      exact Tx.bind_error (by simp [flushVoice, Tx.statement, hm])

/-- The write of one voice, or none. -/
def VoiceWrite (f : Voice → Voice) (c c' : Catalog) : Prop :=
  c' = c ∨ ∃ p t, c.voices.modify p f = some t ∧ c' = { c with voices := t }

theorem writeOwned_write {tenant : Uuid} {slug : PyStr} {f : Voice → Voice} {r : Option Voice}
    {c c' : Catalog} (h : writeOwned tenant slug f c = .ok (r, c')) : VoiceWrite f c c' := by
  obtain ⟨-, -, rfl⟩ | ⟨v, t, -, -, hm, rfl⟩ := writeOwned_ok h
  · exact .inl rfl
  · exact .inr ⟨_, t, hm, rfl⟩

theorem writeUnpurged_write {id : Uuid} {f : Voice → Voice} {r : Option Voice} {c c' : Catalog}
    (h : writeUnpurged id f c = .ok (r, c')) : VoiceWrite f c c' := by
  obtain ⟨-, -, rfl⟩ | ⟨v, -, ⟨-, -, rfl⟩ | ⟨-, -, t, hm, rfl⟩⟩ := writeUnpurged_ok h
  · exact .inl rfl
  · exact .inl rfl
  · exact .inr ⟨_, t, hm, rfl⟩

/-- What `freeze` does to a row: `frozen_at` stays what it was, and a
scheduled purge is not moved forward. -/
def frozen (now : Nat) (reason : PyStr) (purgeAfterDays : Option Nat) (v : Voice) : Voice :=
  { v with
    frozenAt := v.frozenAt.or (some now)
    frozenReason := some reason
    purgeAfterAt := match purgeAfterDays with
      | none => v.purgeAfterAt
      | some n => match v.purgeAfterAt with
        | none => some (now + days n)
        | some t => some (max t (now + days n)) }

/-- `freeze`. -/
def freeze (id : Uuid) (now : Nat) (reason : PyStr) (purgeAfterDays : Option Nat) :
    Tx (Option Voice) := writeUnpurged id (frozen now reason purgeAfterDays)

/-- `unfreeze`. -/
def unfreeze (id : Uuid) : Tx (Option Voice) :=
  writeUnpurged id fun v => { v with frozenAt := none, frozenReason := none }

/-- What `schedule_purge` does to a row. -/
def purgeScheduled (now afterDays : Nat) (v : Voice) : Voice :=
  { v with
    frozenAt := v.frozenAt.or (some now)
    frozenReason := if v.frozenAt.isSome then v.frozenReason
      else match v.frozenReason with
        | some (c :: cs) => some (c :: cs)
        | _ => some (py "scheduled for purge")
    purgeAfterAt := some (now + days afterDays) }

/-- `schedule_purge`. -/
def schedulePurge (id : Uuid) (now afterDays : Nat) : Tx (Option Voice) :=
  writeUnpurged id (purgeScheduled now afterDays)

/-- The tombstone `execute_purge` leaves. -/
def tombstone (now : Nat) (v : Voice) : Voice :=
  { v with
    referenceUri := []
    referenceSha256 := List.replicate 64 0x30
    adapterUri := none
    adapterSha256 := none
    adapterType := none
    displayName := py "[purged voice]"
    description := none
    labels := none
    previewUrl := none
    voiceSettingsDefaults := none
    engineParams := []
    evalMetrics := none
    purgedAt := some now }

/-- `execute_purge`. -/
def executePurge (id : Uuid) (now : Nat) : Tx (Option Voice) := writeUnpurged id (tombstone now)

end VoiceRepo

/-! ## voice_access -/

namespace VoiceAccessRepo

/-- An upsert under the unique key. -/
def putAccess (a : VoiceAccess) (c : Catalog) : Option Catalog :=
  if c.tenants a.tenantId ∧ a.grantedBy.all c.operators then
    let same := fun b : VoiceAccess => b.tenantId == a.tenantId && b.voiceId == a.voiceId
    let access := match c.access.find? same with
      | some _ => c.access.modify same fun _ => a
      | none => c.access.insert a
    access.map fun access => { c with access }
  else none

/-- `grant`: only for an undeleted voice of the owner, whatever its
visibility. -/
def grant (owner : Uuid) (slug : PyStr) (grantee : Uuid) (permission : PyStr)
    (grantedBy : Option Uuid) : Tx (Option VoiceAccess) := do
  match Permission.ofStr? permission with
  | none => throw (.foreign (.valueError "invalid permission"))
  | some permission =>
      match ← Tx.query fun c => VoiceRepo.getOwned c owner slug with
      | none => return none
      | some v => do
          let a : VoiceAccess := { tenantId := grantee, voiceId := v.id, permission, grantedBy }
          .statement (putAccess a)
          return some a

/-- An upsert leaves the other rows. -/
theorem putAccess_eq_some {a : VoiceAccess} {c d : Catalog} (h : putAccess a c = some d) :
    (∃ t, d = { c with access := t }) ∧ ∀ b ∈ d.access, b ∈ c.access ∨ b = a := by
  unfold putAccess at h
  split at h
  · obtain ⟨t, ht, rfl⟩ := Option.map_eq_some_iff.1 h
    refine ⟨⟨t, rfl⟩, fun b hb => ?_⟩
    split at ht
    · obtain ⟨r, hr, hrb⟩ := (Table.mem_modify ht).1 hb
      split at hrb
      · exact .inr hrb.symm
      · exact .inl (hrb ▸ hr)
    · exact (Table.mem_insert ht).1 hb
  · cases h

/-- What `grant` does when it succeeds: nothing, or an upsert for the owned
voice. -/
theorem grant_eq_ok {owner grantee : Uuid} {slug permission : PyStr} {grantedBy : Option Uuid}
    {r : Option VoiceAccess} {c c' : Catalog}
    (h : grant owner slug grantee permission grantedBy c = .ok (r, c')) :
    c' = c ∨ ∃ v p, VoiceRepo.getOwned c owner slug = some v ∧
      putAccess ⟨grantee, v.id, p, grantedBy⟩ c = some c' := by
  unfold grant at h
  cases hp : Permission.ofStr? permission with
  | none => rw [hp] at h; exact (Tx.not_throw_ok h).elim
  | some p =>
      rw [hp] at h
      obtain ⟨o, c₁, hq, h⟩ := Tx.bind_ok.1 h
      obtain ⟨rfl, rfl⟩ := Tx.query_ok.1 hq
      cases ho : VoiceRepo.getOwned c owner slug with
      | none => rw [ho] at h; exact .inl (Tx.pure_ok.1 h).2.symm
      | some v =>
          rw [ho] at h
          obtain ⟨u, c₂, hs, h⟩ := Tx.bind_ok.1 h
          obtain ⟨-, rfl⟩ := Tx.pure_ok.1 h
          exact .inr ⟨v, p, rfl, Tx.statement_ok.1 hs⟩

/-- The only new row, if any, is the grantee's for the owned voice. -/
theorem grant_ok {owner grantee : Uuid} {slug permission : PyStr} {grantedBy : Option Uuid}
    {r : Option VoiceAccess} {c c' : Catalog}
    (h : grant owner slug grantee permission grantedBy c = .ok (r, c')) :
    c' = c ∨ ∃ v, VoiceRepo.getOwned c owner slug = some v ∧ c'.voices = c.voices ∧
      ∀ a ∈ c'.access, a ∈ c.access ∨ a.tenantId = grantee ∧ a.voiceId = v.id := by
  obtain rfl | ⟨v, p, ho, hput⟩ := grant_eq_ok h
  · exact .inl rfl
  · obtain ⟨⟨t, rfl⟩, hrows⟩ := putAccess_eq_some hput
    refine .inr ⟨v, ho, rfl, fun a ha => ?_⟩
    obtain ha | rfl := hrows a ha
    · exact .inl ha
    · exact .inr ⟨rfl, rfl⟩

/-- `revoke`: also for a deleted voice. -/
def revoke (owner : Uuid) (slug : PyStr) (grantee : Uuid) : Tx Nat := do
  match ← Tx.query fun c =>
      c.voices.find? fun v => v.ownerTenantId == owner && v.voiceId == slug with
  | none => return 0
  | some v => do
      let hit := fun a : VoiceAccess => a.voiceId == v.id && a.tenantId == grantee
      let n ← Tx.query fun c => (c.access.rows.filter hit).length
      .statement fun c => some { c with access := c.access.erase hit }
      return n

/-- What `revoke` does when it succeeds: nothing, or a deletion of grants. -/
theorem revoke_eq_ok {owner grantee : Uuid} {slug : PyStr} {n : Nat} {c c' : Catalog}
    (h : revoke owner slug grantee c = .ok (n, c')) :
    c' = c ∨ ∃ p, c' = { c with access := c.access.erase p } := by
  unfold revoke at h
  obtain ⟨o, c₁, hq, h⟩ := Tx.bind_ok.1 h
  obtain ⟨ho, rfl⟩ := Tx.query_ok.1 hq
  cases o with
  | none =>
      obtain ⟨-, rfl⟩ := Tx.pure_ok.1 h
      exact .inl rfl
  | some v =>
      obtain ⟨m, c₁, hq, h⟩ := Tx.bind_ok.1 h
      obtain ⟨rfl, rfl⟩ := Tx.query_ok.1 hq
      obtain ⟨u, c₂, hs, h⟩ := Tx.bind_ok.1 h
      obtain ⟨-, rfl⟩ := Tx.pure_ok.1 h
      obtain rfl := Option.some.inj (Tx.statement_ok.1 hs)
      exact .inr ⟨_, rfl⟩

/-- `revoke` only removes rows. -/
theorem revoke_ok {owner grantee : Uuid} {slug : PyStr} {n : Nat} {c c' : Catalog}
    (h : revoke owner slug grantee c = .ok (n, c')) :
    c'.voices = c.voices ∧ ∀ a ∈ c'.access, a ∈ c.access := by
  obtain rfl | ⟨p, rfl⟩ := revoke_eq_ok h
  · exact ⟨rfl, fun a ha => ha⟩
  · exact ⟨rfl, fun a ha => (Table.mem_erase.1 ha).1⟩

end VoiceAccessRepo

/-! ## voice_consent_records -/

namespace VoiceConsentRecordRepo

/-- A record still in force for the voice. -/
def activeFor (voice : Uuid) (r : VoiceConsentRecord) : Bool :=
  r.voiceId == voice && r.revokedAt.isNone

/-- `latest_active`: the newest one. -/
def latestActive (c : Catalog) (voice : Uuid) : Option VoiceConsentRecord :=
  ((c.consents.rows.filter (activeFor voice)).mergeSort
    fun r s => s.recordedAt ≤ r.recordedAt).head?

/-- The insert of `record`. -/
def insertConsent (r : VoiceConsentRecord) (c : Catalog) : Option Catalog :=
  if (c.voices.rows.any fun v => v.id == r.voiceId) then
    (c.consents.insert r).map fun consents => { c with consents }
  else none

/-- `record`: the presence of evidence is checked before the insert. -/
def record (r : VoiceConsentRecord) : Tx VoiceConsentRecord := do
  if r.consentKind = py "tenant-asserted" ∧ r.evidenceUri.isSome then
    throw (.foreign (.valueError "tenant-asserted consent must have evidence_uri=None"))
  if r.consentKind ≠ py "tenant-asserted" ∧ r.evidenceUri.isNone then
    throw (.foreign (.valueError "consent_kind requires a non-null evidence_uri"))
  .statement (insertConsent r)
  return r

/-- A `record` that the database accepts: evidence is then where it has to
be. -/
theorem record_accepted {r : VoiceConsentRecord} {c c' : Catalog}
    (hcheck : voiceConsentRecords.check r = true) (h : insertConsent r c = some c') :
    record r c = .ok (r, c') := by
  simp only [voiceConsentRecords, Bool.and_eq_true] at hcheck
  obtain ⟨⟨⟨⟨⟨⟨-, hevidence⟩, -⟩, -⟩, -⟩, -⟩, -⟩ := hcheck
  unfold record
  by_cases hkind : r.consentKind = py "tenant-asserted"
  · rw [if_pos hkind] at hevidence
    have hnone : r.evidenceUri = none := Option.isNone_iff_eq_none.1 hevidence
    simp only [hkind, hnone, Option.isSome_none, Bool.false_eq_true, and_false, if_false,
      ne_eq, not_true_eq_false, false_and]
    exact Tx.bind_ok.2 ⟨(), c', Tx.statement_ok.2 h, Tx.pure_ok.2 ⟨rfl, rfl⟩⟩
  · rw [if_neg hkind] at hevidence
    have hsome : r.evidenceUri.isNone = false := by
      cases hu : r.evidenceUri with
      | none => rw [hu] at hevidence; cases hevidence
      | some u => rfl
    simp only [hkind, hsome, false_and, if_false, ne_eq, not_false_eq_true,
      Bool.false_eq_true, and_false]
    exact Tx.bind_ok.2 ⟨(), c', Tx.statement_ok.2 h, Tx.pure_ok.2 ⟨rfl, rfl⟩⟩

/-- What `record` does when it succeeds. -/
theorem record_eq_ok {r r' : VoiceConsentRecord} {c c' : Catalog}
    (h : record r c = .ok (r', c')) :
    ∃ t, c.consents.insert r = some t ∧ c' = { c with consents := t } := by
  unfold record at h
  split at h
  · obtain ⟨_, _, h, -⟩ := Tx.bind_ok.1 h
    exact (Tx.not_throw_ok h).elim
  · split at h
    · obtain ⟨_, _, h, -⟩ := Tx.bind_ok.1 h
      exact (Tx.not_throw_ok h).elim
    · obtain ⟨_, c₁, hs, h⟩ := Tx.bind_ok.1 h
      obtain ⟨-, rfl⟩ := Tx.pure_ok.1 h
      have hs := Tx.statement_ok.1 hs
      unfold insertConsent at hs
      split at hs
      · obtain ⟨t, ht, rfl⟩ := Option.map_eq_some_iff.1 hs
        exact ⟨t, ht, rfl⟩
      · cases hs

/-- `record` adds to the consents only. -/
theorem record_ok {r r' : VoiceConsentRecord} {c c' : Catalog}
    (h : record r c = .ok (r', c')) : c'.voices = c.voices ∧ c'.contracts = c.contracts := by
  obtain ⟨t, -, rfl⟩ := record_eq_ok h
  exact ⟨rfl, rfl⟩

/-- `revoke`: only a record that is still in force. -/
def revoke (id : Uuid) (now : Nat) (reason : Option PyStr) : Tx (Option VoiceConsentRecord) := do
  match ← Tx.query fun c => c.consents.find? fun r => r.id == id with
  | none => return none
  | some r =>
      if r.revokedAt.isSome then return none
      .statement fun c =>
        (c.consents.modify (fun s => s.id == id) fun s =>
          { s with revokedAt := some now, revokedReason := reason }).map fun consents =>
            { c with consents }
      return some { r with revokedAt := some now, revokedReason := reason }

/-- What `revoke` does when it succeeds: nothing, or it closes a record in
force. -/
theorem revoke_eq_ok {id : Uuid} {now : Nat} {reason : Option PyStr}
    {r : Option VoiceConsentRecord} {c c' : Catalog} (h : revoke id now reason c = .ok (r, c')) :
    (r = none ∧ c' = c) ∨ ∃ s t, s ∈ c.consents ∧ s.id = id ∧ s.revokedAt = none ∧
      r = some { s with revokedAt := some now, revokedReason := reason } ∧
      c.consents.modify (fun s => s.id == id) (fun s =>
        { s with revokedAt := some now, revokedReason := reason }) = some t ∧
      c' = { c with consents := t } := by
  unfold revoke at h
  obtain ⟨o, c₁, hq, h⟩ := Tx.bind_ok.1 h
  obtain ⟨ho, rfl⟩ := Tx.query_ok.1 hq
  cases o with
  | none =>
      obtain ⟨rfl, rfl⟩ := Tx.pure_ok.1 h
      exact .inl ⟨rfl, rfl⟩
  | some s =>
      obtain ⟨hs, hid⟩ := Table.find?_eq_some ho
      cases hrevoked : s.revokedAt with
      | some t =>
          simp only [hrevoked, Option.isSome_some, if_true] at h
          obtain ⟨rfl, rfl⟩ := Tx.pure_ok.1 h
          exact .inl ⟨rfl, rfl⟩
      | none =>
          simp only [hrevoked, Option.isSome_none, Bool.false_eq_true, if_false] at h
          obtain ⟨u, c₂, hstmt, h⟩ := Tx.bind_ok.1 h
          obtain ⟨rfl, rfl⟩ := Tx.pure_ok.1 h
          obtain ⟨t, ht, rfl⟩ := Option.map_eq_some_iff.1 (Tx.statement_ok.1 hstmt)
          exact .inr ⟨s, t, hs, eq_of_beq hid, hrevoked, rfl, ht, rfl⟩

end VoiceConsentRecordRepo

/-! ## talent_contracts -/

namespace TalentContractRepo

/-- Not revoked and not expired. -/
def isActive (now : Nat) (k : TalentContract) : Bool :=
  k.revokedAt.isNone && k.expiresAt.all fun t => now < t

/-- `get_active`. -/
def getActive (c : Catalog) (now : Nat) (id : Uuid) : Option TalentContract :=
  c.contracts.find? fun k => k.id == id && isActive now k

/-- `revoke`: only a contract that is not revoked yet. -/
def revoke (id : Uuid) (now : Nat) : Tx (Option TalentContract) := do
  match ← Tx.query fun c => c.contracts.find? fun k => k.id == id with
  | none => return none
  | some k =>
      if k.revokedAt.isSome then return none
      .statement fun c =>
        (c.contracts.modify (fun l => l.id == id) fun l =>
          { l with revokedAt := some now }).map fun contracts => { c with contracts }
      return some { k with revokedAt := some now }

/-- What `revoke` does when it succeeds: nothing, or it ends a contract that
is not revoked. -/
theorem revoke_eq_ok {id : Uuid} {now : Nat} {r : Option TalentContract} {c c' : Catalog}
    (h : revoke id now c = .ok (r, c')) :
    (r = none ∧ c' = c) ∨ ∃ k t, k ∈ c.contracts ∧ k.id = id ∧ k.revokedAt = none ∧
      r = some { k with revokedAt := some now } ∧
      c.contracts.modify (fun l => l.id == id) (fun l => { l with revokedAt := some now }) =
        some t ∧
      c' = { c with contracts := t } := by
  unfold revoke at h
  obtain ⟨o, c₁, hq, h⟩ := Tx.bind_ok.1 h
  obtain ⟨ho, rfl⟩ := Tx.query_ok.1 hq
  cases o with
  | none =>
      obtain ⟨rfl, rfl⟩ := Tx.pure_ok.1 h
      exact .inl ⟨rfl, rfl⟩
  | some k =>
      obtain ⟨hk, hid⟩ := Table.find?_eq_some ho
      cases hrevoked : k.revokedAt with
      | some t =>
          simp only [hrevoked, Option.isSome_some, if_true] at h
          obtain ⟨rfl, rfl⟩ := Tx.pure_ok.1 h
          exact .inl ⟨rfl, rfl⟩
      | none =>
          simp only [hrevoked, Option.isSome_none, Bool.false_eq_true, if_false] at h
          obtain ⟨u, c₂, hstmt, h⟩ := Tx.bind_ok.1 h
          obtain ⟨rfl, rfl⟩ := Tx.pure_ok.1 h
          obtain ⟨t, ht, rfl⟩ := Option.map_eq_some_iff.1 (Tx.statement_ok.1 hstmt)
          exact .inr ⟨k, t, hk, eq_of_beq hid, hrevoked, rfl, ht, rfl⟩

end TalentContractRepo

end NeuroVoice
