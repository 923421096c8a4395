import NeuroVoice.Catalog.Repos
import NeuroVoice.Catalog.Storage
import NeuroVoice.Uuid

/-!
# NeuroVoice.Catalog.Enroll

`_enroll_voice_impl` of `server/main.py`.

The upload is written to its final place, a function of tenant and slug,
before the ownership check, and every later rejection unlinks that place.
So an enroll leaves the other voices alone exactly as long as no row has its
tenant and slug, and the ownership check sees fewer rows than the unique
constraint: `reference_audio_integrity`.
-/

namespace NeuroVoice

open VoiceRepo

/-! ## the request -/

/-- The part of `Settings` that enrolling reads. -/
structure EnrollSettings where
  enrollMaxUploadMb : Nat := 20
  enrollMinSeconds : Rat := 1
  referenceAudioDir : PyStr := py "data/reference-audio"
  referenceSampleRate : Nat := 16000

/-- The form of `POST /v1/voices`. -/
structure EnrollForm where
  voiceId : PyStr
  displayName : PyStr
  data : Bytes
  filename : Option PyStr := none
  licenseKind : PyStr
  consentKind : PyStr
  language : PyStr := py "tr"
  gender : PyStr := py "neutral"
  styleTags : PyStr := []
  licenseRef : Option PyStr := none
  consentEvidenceUri : Option PyStr := none
  consentEvidenceSha256 : Option PyStr := none
  consentEvidenceNotes : Option PyStr := none
  description : Option PyStr := none
  labels : Option PyStr := none
  visibility : PyStr := py "private"
  removeBackgroundNoise : Bool := false

/-- How `trim_and_resample_to_wav` ends. -/
inductive Trimmed where
  /-- `ValueError`: nothing is written. -/
  | invalid (msg : String)
  /-- Any other exception, with what it left at the destination. -/
  | failed (x : Foreign) (torn : Option Bytes)
  | written (wav : Bytes) (seconds : Rat)

/-- One attempt: who, what, and what it meets. -/
structure EnrollAttempt where
  tenantId : Uuid
  apiKeyId : Uuid
  form : EnrollForm
  trimmed : Trimmed
  now : Nat
  voiceUuid : Uuid
  consentUuid : Uuid

/-- `EnrollResponse`. -/
structure EnrollResponse where
  voice : Voice
  requiresVerification : Bool

/-! ## the checks -/

/-- `Path(name).suffix`. -/
def suffixOf (name : PyStr) : PyStr :=
  let base := (PurePath.ofStr name).parts.getLastD []
  let ext := base.reverse.takeWhile fun c => c != 0x2E
  if ext.isEmpty || base.length ≤ ext.length + 1 then [] else 0x2E :: ext.reverse

/-- `ALLOWED_AUDIO_SUFFIXES`. -/
def allowedAudioSuffixes : List PyStr :=
  [py ".wav", py ".mp3", py ".flac", py ".ogg", py ".m4a"]

/-- `[t.strip() for t in s.split(",") if t.strip()]`. -/
def commaSeparated (s : PyStr) : List PyStr :=
  ((splitOn 0x2C s).map (stripBy isSpace)).filter fun t => !t.isEmpty

/-- The upload's suffix; of the letters in an allowed one, `lower` maps only
ASCII ones to them. -/
def EnrollForm.suffix (f : EnrollForm) : PyStr :=
  let name := match f.filename with
    | none | some [] => py "ref.wav"
    | some name => name
  match lowerAscii (suffixOf name) with
  | [] => py ".wav"
  | s => s

section enroll

variable (cfg : EnrollSettings)

/-- The checks before anything is written. -/
def screen (f : EnrollForm) : Except Exn Unit := do
  if ¬voiceIdMatches f.voiceId then throw (.http 400 "voice_id invalid")
  if (Visibility.ofStr? f.visibility).isNone then throw (.http 400 "invalid visibility")
  if cfg.enrollMaxUploadMb * 1024 * 1024 < f.data.length then
    throw (.http 413 "reference audio exceeds the upload limit")
  if f.data.length < 1024 then throw (.http 400 "reference audio too small (<1 KB)")
  if ¬allowedAudioSuffixes.contains f.suffix then throw (.http 400 "audio suffix not allowed")

/-- The checks after the upload is written, up to the contract that is left
to be looked up; each of them unlinks the upload. -/
def admitForm (a : EnrollAttempt) (seconds : Rat) (owned : Option Voice) :
    Except Exn (Option Uuid) := do
  let f := a.form
  if seconds < cfg.enrollMinSeconds then throw (.http 400 "reference audio too short")
  if owned.isSome then throw (.http 409 "voice already exists in this workspace")
  if ¬licenseKinds.contains f.licenseKind then throw (.http 400 "invalid license_kind")
  if ¬consentKinds.contains f.consentKind then throw (.http 400 "invalid consent_kind")
  if f.consentKind = py "tenant-asserted" ∧ f.consentEvidenceUri.isSome then
    throw (.http 400 "tenant-asserted consent must NOT carry evidence_uri")
  if f.consentKind ≠ py "tenant-asserted" ∧ (f.consentEvidenceUri.getD []).isEmpty then
    throw (.http 400 "consent_kind requires consent_evidence_uri")
  if f.licenseKind = py "talent-contract" then
    match f.licenseRef with
    | none | some [] => throw (.http 400 "license_kind='talent-contract' requires license_ref")
    | some ref =>
        match parseUuid ref with
        | none => throw (.http 400 "license_ref is not a valid UUID")
        | some contract => return some contract
  else return none

/-- The last check: the contract, if there is one, is active. -/
def admitContract (c : Catalog) (now : Nat) : Option Uuid → Except Exn Unit
  | none => .ok ()
  | some contract =>
      if (TalentContractRepo.getActive c now contract).isNone then
        .error (.http 422 "talent_contracts.id is not active")
      else .ok ()

/-- The checks after the upload is written. -/
def checkForm (a : EnrollAttempt) (seconds : Rat) (c : Catalog) : Except Exn Unit := do
  let contract ← admitForm cfg a seconds (getOwned c a.tenantId a.form.voiceId)
  admitContract c a.now contract

/-- `tenant_dir / f"{voice_id}.wav"`. -/
def targetOf (tenant : Uuid) (slug : PyStr) : PurePath :=
  (((PurePath.ofStr cfg.referenceAudioDir).child (py "tenants")).child (uuidStr tenant)).child
    (slug ++ py ".wav")

/-- `f"file://{target}"`. -/
def fileUri (p : PurePath) : PyStr := py "file://" ++ p.str

/-- The arguments of `create`. -/
def EnrollAttempt.newVoice (a : EnrollAttempt) (wav : Bytes) (seconds : Rat) : NewVoice where
  voiceId := a.form.voiceId
  displayName := a.form.displayName
  referenceUri := fileUri (targetOf cfg a.tenantId a.form.voiceId)
  referenceSha256 := sha256 wav
  referenceSeconds := seconds
  referenceSampleRate := cfg.referenceSampleRate
  language := a.form.language
  gender := a.form.gender
  styleTags := commaSeparated a.form.styleTags
  source := py "tenant-enroll"
  licenseKind := a.form.licenseKind
  licenseRef := a.form.licenseRef
  visibility := a.form.visibility
  engineParams := [(py "remove_background_noise", .bool a.form.removeBackgroundNoise)]
  createdByKeyId := some a.apiKeyId
  description := a.form.description
  labels := (a.form.labels.filter fun s => !s.isEmpty).map commaSeparated

/-- The initial consent record. -/
def EnrollAttempt.consent (a : EnrollAttempt) : VoiceConsentRecord where
  id := a.consentUuid
  voiceId := a.voiceUuid
  consentKind := a.form.consentKind
  evidenceUri := a.form.consentEvidenceUri
  evidenceSha256 := a.form.consentEvidenceSha256
  evidenceNotes := a.form.consentEvidenceNotes
  recordedAt := a.now
  recordedByKind := py "tenant"
  recordedByActorId := some a.apiKeyId

/-- The transaction: the voice and its consent. -/
def persist (a : EnrollAttempt) (wav : Bytes) (seconds : Rat) : Tx Voice := do
  let v ← VoiceRepo.create a.tenantId a.voiceUuid a.now (a.newVoice cfg wav seconds)
  let _ ← VoiceConsentRecordRepo.record a.consent
  return v

/-- `_enroll_voice_impl`. -/
def enrollVoice (a : EnrollAttempt) (c : Catalog) (s : Storage) :
    Except Exn EnrollResponse × Catalog × Storage :=
  match screen cfg a.form with
  | .error e => (.error e, c, s)
  | .ok _ =>
      let target := Artifact.file (targetOf cfg a.tenantId a.form.voiceId)
      match a.trimmed with
      | .invalid msg => (.error (.http 400 msg), c, s)
      | .failed x none => (.error (.foreign x), c, s)
      | .failed x (some torn) => (.error (.foreign x), c, s.write target torn)
      | .written wav seconds =>
          let s := s.write target wav
          match checkForm cfg a seconds c with
          | .error e => (.error e, c, s.remove target)
          | .ok _ =>
              match persist cfg a wav seconds c with
              | .error e => (.error e, c, s)
              | .ok (voice, c) =>
                  (.ok { voice
                         requiresVerification := a.form.consentKind == py "tenant-asserted" },
                    c, s)

end enroll

/-! ## targets -/

section targets

variable {cfg : EnrollSettings}

/-- A slug has no slash. -/
theorem not_slash_of_matches {s : PyStr} (h : voiceIdMatches s = true) : 0x2F ∉ s := by
  have hslug : ∀ {t : PyStr}, isSlug t = true → 0x2F ∉ t := by
    intro t ht hmem
    simp only [isSlug, Bool.and_eq_true, List.all_eq_true] at ht
    have := ht.1.1.2 _ hmem
    revert this
    decide
  unfold voiceIdMatches at h
  simp only [Bool.or_eq_true, Bool.and_eq_true, beq_iff_eq] at h
  obtain h | ⟨hlast, h⟩ := h
  · exact hslug h
  · intro hmem
    have hne : s ≠ [] := by rintro rfl; cases hmem
    rw [← List.dropLast_append_getLast hne, List.mem_append, List.mem_singleton] at hmem
    obtain hmem | hmem := hmem
    · exact hslug h hmem
    · rw [List.getLast?_eq_some_getLast hne, ← hmem] at hlast
      cases hlast

/-- Every row's slug would be accepted again. -/
theorem matches_of_mem {c : Catalog} {v : Voice} (h : v ∈ c.voices) :
    voiceIdMatches v.voiceId = true := by
  have hcheck := c.voices.checked v h
  simp only [voices, Voice.wellFormed, Bool.and_eq_true] at hcheck
  simp [voiceIdMatches, hcheck]

theorem normal_targetOf {tenant : Uuid} {slug : PyStr} (h : voiceIdMatches slug = true) :
    (targetOf cfg tenant slug).Normal := by
  refine (((PurePath.normal_ofStr _).child (by decide)).child ?_).child ?_
  · refine PurePath.isComponent_iff.2 ⟨?_, ?_, ?_⟩
    · intro hnil
      have hparse := parseUuid_uuidStr tenant
      rw [hnil] at hparse
      cases hparse
    · intro hdot
      have hparse := parseUuid_uuidStr tenant
      rw [hdot] at hparse
      cases hparse
    · intro hmem
      obtain h | h := mem_uuidStr hmem
      · revert h; decide
      · revert h; decide
  · refine PurePath.isComponent_iff.2 ⟨by simp [py], ?_, ?_⟩
    · intro hdot
      have := congrArg List.length hdot
      simp [py] at this
    · intro hmem
      obtain hmem | hmem := List.mem_append.1 hmem
      · exact not_slash_of_matches h hmem
      · revert hmem; decide

/-- The URI leads back to the target. -/
theorem ofStr_fileUri {p : PurePath} (h : p.Normal) :
    PurePath.ofStr ((fileUri p).drop 7) = p := by
  have hdrop : (fileUri p).drop 7 = p.str := by
    unfold fileUri
    rw [List.drop_append_of_le_length (by decide)]
    rfl
  rw [hdrop, PurePath.ofStr_str h]

/-- Different voices have different targets. -/
theorem targetOf_inj {t u : Uuid} {s r : PyStr} (h : targetOf cfg t s = targetOf cfg u r) :
    t = u ∧ s = r := by
  have hparts := congrArg PurePath.parts h
  simp only [targetOf, PurePath.child, List.append_assoc, List.append_cancel_left_eq,
    List.cons_append, List.nil_append, List.cons.injEq, and_true, true_and] at hparts
  exact ⟨uuidStr_inj hparts.1, List.append_cancel_right hparts.2⟩

end targets

/-! ## the law -/

/-- The file of a row with a local reference. -/
def referenceFile (v : Voice) : Option Artifact :=
  if startsWith v.referenceUri "file://" then some (.file (PurePath.ofStr (v.referenceUri.drop 7)))
  else none

/-- Every unpurged local reference is there, with the recorded hash. -/
def ReferencesIntact (c : Catalog) (s : Storage) : Prop :=
  ∀ v ∈ c.voices.rows, v.purgedAt = none → ∀ a, referenceFile v = some a →
    (s.content a).map sha256 = some v.referenceSha256

/-- An attempt that does not succeed changes no row and no reference of an
existing voice, and answers 4xx. -/
def EnrollClean (cfg : EnrollSettings) (a : EnrollAttempt) (c : Catalog) (s : Storage) : Prop :=
  match enrollVoice cfg a c s with
  | (.ok _, _) => True
  | (.error e, c', s') =>
      c'.voices = c.voices ∧
        (∀ v ∈ c.voices.rows, ∀ r, referenceFile v = some r → s'.content r = s.content r) ∧
        ∃ code detail, e = .http code detail ∧ 400 ≤ code ∧ code < 500

/-- What tenants do to the catalog here. -/
inductive EnrollOp where
  | enroll (a : EnrollAttempt)
  | softDelete (tenant : Uuid) (slug : PyStr) (now : Nat)
  | updateMetadata (tenant : Uuid) (slug : PyStr) (p : MetadataPatch)

/-- Catalog and storage after the operation. -/
def EnrollOp.perform (cfg : EnrollSettings) : EnrollOp → Catalog × Storage → Catalog × Storage
  | .enroll a, (c, s) => (enrollVoice cfg a c s).2
  | .softDelete tenant slug now, (c, s) => ((VoiceRepo.softDelete tenant slug now).after c, s)
  | .updateMetadata tenant slug p, (c, s) =>
      ((VoiceRepo.updateMetadata tenant slug p).after c, s)

/-- Catalog and storage after a sequence of operations. -/
def enrollAll (cfg : EnrollSettings) (cs : Catalog × Storage) (ops : List EnrollOp) :
    Catalog × Storage :=
  ops.foldl (fun cs op => op.perform cfg cs) cs

/-! ## when it holds -/

/-- No row, deleted or not, has the tenant and the slug. -/
def slugFree (c : Catalog) (tenant : Uuid) (slug : PyStr) : Bool :=
  c.voices.rows.all fun v => v.ownerTenantId != tenant || v.voiceId != slug

/-- The database takes the voice and its consent: the ids are fresh, the
foreign keys are there, and the columns pass their checks. -/
def EnrollAttempt.storable (cfg : EnrollSettings) (a : EnrollAttempt) (wav : Bytes)
    (seconds : Rat) (c : Catalog) : Bool :=
  c.tenants a.tenantId && c.apiKeys a.apiKeyId &&
    (c.voices.rows.all fun v => v.id != a.voiceUuid) &&
    (c.consents.rows.all fun r => r.id != a.consentUuid) &&
    ((Visibility.ofStr? a.form.visibility).all fun visibility =>
      voices.check ((a.newVoice cfg wav seconds).row a.tenantId a.voiceUuid a.now visibility)) &&
    voiceConsentRecords.check a.consent

/-- The attempt ends before it writes, or its slug is free and it is rejected
or taken by the database. -/
def EnrollAttempt.fits (cfg : EnrollSettings) (a : EnrollAttempt) (c : Catalog) : Bool :=
  match screen cfg a.form with
  | .error _ => true
  | .ok _ =>
      match a.trimmed with
      | .invalid _ => true
      | .failed _ _ => false
      | .written wav seconds =>
          slugFree c a.tenantId a.form.voiceId &&
            match checkForm cfg a seconds c with
            | .error _ => true
            | .ok _ => a.storable cfg wav seconds c

/-- Every attempt of the sequence fits where it is made. -/
def allFit (cfg : EnrollSettings) : Catalog × Storage → List EnrollOp → Bool
  | _, [] => true
  | cs, op :: ops =>
      (match op with
        | .enroll a => a.fits cfg cs.1
        | _ => true) && allFit cfg (op.perform cfg cs) ops

/-! ## the answers -/

/-- The checks answer 4xx. -/
def ClientError (e : Exn) : Prop := ∃ code detail, e = .http code detail ∧ 400 ≤ code ∧ code < 500

section answers

variable {cfg : EnrollSettings} {a : EnrollAttempt} {c : Catalog} {e : Exn}

/-- A check that answers 4xx, before further ones that do. -/
theorem clientError_ite {α : Type} {b : Prop} [Decidable b] {code : Nat} {detail : String}
    {rest : Except Exn α} (hcode : 400 ≤ code ∧ code < 500)
    (hrest : rest = .error e → ClientError e)
    (h : (if b then .error (.http code detail) else rest) = .error e) : ClientError e := by
  split at h
  · cases h
    exact ⟨code, detail, rfl, hcode.1, hcode.2⟩
  · exact hrest h

theorem screen_error {f : EnrollForm} (h : screen cfg f = .error e) : ClientError e := by
  unfold screen at h
  simp only [bind, Except.bind, pure, Except.pure, throw, throwThe, MonadExceptOf.throw] at h
  refine clientError_ite (by decide) (fun h => ?_) h
  refine clientError_ite (by decide) (fun h => ?_) h
  refine clientError_ite (by decide) (fun h => ?_) h
  refine clientError_ite (by decide) (fun h => ?_) h
  exact clientError_ite (by decide) (fun h => by cases h) h

theorem screen_ok {f : EnrollForm} {u : Unit} (h : screen cfg f = .ok u) :
    voiceIdMatches f.voiceId = true ∧
      ∃ visibility, Visibility.ofStr? f.visibility = some visibility := by
  unfold screen at h
  simp only [bind, Except.bind, pure, Except.pure, throw, throwThe, MonadExceptOf.throw] at h
  split at h
  · cases h
  · next hm =>
      split at h
      · cases h
      · next hv => exact ⟨by simpa using hm, Option.ne_none_iff_exists'.1 (by simpa using hv)⟩

theorem admitForm_error {seconds : Rat} {owned : Option Voice}
    (h : admitForm cfg a seconds owned = .error e) : ClientError e := by
  unfold admitForm at h
  simp only [bind, Except.bind, pure, Except.pure, throw, throwThe, MonadExceptOf.throw] at h
  refine clientError_ite (by decide) (fun h => ?_) h
  refine clientError_ite (by decide) (fun h => ?_) h
  refine clientError_ite (by decide) (fun h => ?_) h
  refine clientError_ite (by decide) (fun h => ?_) h
  refine clientError_ite (by decide) (fun h => ?_) h
  refine clientError_ite (by decide) (fun h => ?_) h
  split at h
  · split at h
    · cases h; exact ⟨_, _, rfl, by decide, by decide⟩
    · cases h; exact ⟨_, _, rfl, by decide, by decide⟩
    · split at h
      · cases h; exact ⟨_, _, rfl, by decide, by decide⟩
      · cases h
  · cases h

theorem admitContract_error {now : Nat} {contract : Option Uuid}
    (h : admitContract c now contract = .error e) : ClientError e := by
  cases contract with
  | none => cases h
  | some k => exact clientError_ite (by decide) (fun h => by cases h) h

theorem checkForm_error {seconds : Rat} (h : checkForm cfg a seconds c = .error e) : ClientError e := by
  unfold checkForm at h
  cases hform : admitForm cfg a seconds (getOwned c a.tenantId a.form.voiceId) with
  | error e' =>
      rw [hform] at h
      cases h
      exact admitForm_error hform
  | ok contract =>
      rw [hform] at h
      exact admitContract_error h

end answers

/-! ## one attempt -/

section attempt

variable {cfg : EnrollSettings} {a : EnrollAttempt} {c : Catalog} {s : Storage}

/-- Every row was enrolled: its reference is its own target. -/
def Placed (cfg : EnrollSettings) (c : Catalog) : Prop :=
  ∀ v ∈ c.voices, v.referenceUri = fileUri (targetOf cfg v.ownerTenantId v.voiceId)

theorem referenceFile_of_placed {v : Voice} (hc : Placed cfg c) (hv : v ∈ c.voices) :
    referenceFile v = some (.file (targetOf cfg v.ownerTenantId v.voiceId)) := by
  have huri := hc v hv
  unfold referenceFile
  rw [huri, ofStr_fileUri (normal_targetOf (matches_of_mem hv)),
    if_pos (by simp [startsWith, fileUri])]

/-- A slug that is free has a target no row refers to. -/
theorem target_ne (cfg : EnrollSettings) {v : Voice}
    (hfree : slugFree c a.tenantId a.form.voiceId = true)
    (hv : v ∈ c.voices) :
    Artifact.file (targetOf cfg v.ownerTenantId v.voiceId) ≠
      .file (targetOf cfg a.tenantId a.form.voiceId) := by
  intro heq
  obtain ⟨ht, hs⟩ := targetOf_inj (Artifact.file.inj heq)
  have := List.all_eq_true.1 hfree v hv
  simp [ht, hs] at this

/-- The transaction of a fitting attempt adds the voice. -/
theorem persist_storable {wav : Bytes} {seconds : Rat} {visibility : Visibility}
    (hvis : Visibility.ofStr? a.form.visibility = some visibility)
    (hfree : slugFree c a.tenantId a.form.voiceId = true)
    (hstore : a.storable cfg wav seconds c = true) :
    let v := (a.newVoice cfg wav seconds).row a.tenantId a.voiceUuid a.now visibility
    ∃ c', persist cfg a wav seconds c = .ok (v, c') ∧ ∀ x, x ∈ c'.voices ↔ x ∈ c.voices ∨ x = v := by
  intro v
  simp only [EnrollAttempt.storable, Bool.and_eq_true] at hstore
  obtain ⟨⟨⟨⟨⟨htenant, hkey⟩, hid⟩, hcid⟩, hcheck⟩, hconsent⟩ := hstore
  rw [hvis, Option.all_some] at hcheck
  have hinsert : (c.voices.insert v).isSome := by
    refine Table.insert_isSome.2 ⟨fun x hx => ?_, hcheck⟩
    have hxid := List.all_eq_true.1 hid x hx
    have hxslug := List.all_eq_true.1 hfree x hx
    simp only [bne_iff_ne, Bool.or_eq_true] at hxid hxslug
    simp only [voices, Bool.or_eq_false_iff, beq_eq_false_iff_ne, ne_eq, Bool.and_eq_false_iff]
    exact ⟨hxid, hxslug⟩
  obtain ⟨t, ht⟩ := Option.isSome_iff_exists.1 hinsert
  have hrecord : (c.consents.insert a.consent).isSome := by
    refine Table.insert_isSome.2 ⟨fun x hx => ?_, hconsent⟩
    have := List.all_eq_true.1 hcid x hx
    simpa [voiceConsentRecords, EnrollAttempt.consent] using this
  obtain ⟨t', ht'⟩ := Option.isSome_iff_exists.1 hrecord
  have hv : insertVoice v c = some { c with voices := t } := by
    have hkeys : c.tenants v.ownerTenantId ∧ v.createdByKeyId.all c.apiKeys := ⟨htenant, hkey⟩
    rw [insertVoice, if_pos hkeys, ht]
    rfl
  have hmem : (t.rows.any fun w => w.id == a.consent.voiceId) = true :=
    List.any_eq_true.2 ⟨v, (Table.mem_insert ht).2 (.inr rfl), by
      simp [v, NewVoice.row, EnrollAttempt.consent]⟩
  refine ⟨{ c with voices := t, consents := t' }, ?_, fun x => Table.mem_insert ht⟩
  refine Tx.bind_ok.2 ⟨v, _, create_accepted hvis hv, ?_⟩
  refine Tx.bind_ok.2 ⟨a.consent, _, VoiceConsentRecordRepo.record_accepted hconsent ?_,
    Tx.pure_ok.2 ⟨rfl, rfl⟩⟩
  rw [VoiceConsentRecordRepo.insertConsent, if_pos hmem, ht']
  rfl

/-- The rows are enrolled ones with their audio. -/
structure Enrolled (cfg : EnrollSettings) (c : Catalog) (s : Storage) : Prop where
  placed : Placed cfg c
  intact : ReferencesIntact c s

/-- The step lemma of an attempt that fits. -/
theorem Enrolled.enroll (h : Enrolled cfg c s) (hfit : a.fits cfg c = true) :
    Enrolled cfg (enrollVoice cfg a c s).2.1 (enrollVoice cfg a c s).2.2 ∧
      EnrollClean cfg a c s := by
  unfold EnrollAttempt.fits at hfit
  unfold EnrollClean enrollVoice
  cases hs : screen cfg a.form with
  | error e => exact ⟨h, rfl, fun _ _ _ _ => rfl, screen_error hs⟩
  | ok u =>
      rw [hs] at hfit
      obtain ⟨hmatch, visibility, hvis⟩ := screen_ok hs
      cases ht : a.trimmed with
      | invalid msg =>
          exact ⟨h, rfl, fun _ _ _ _ => rfl, 400, msg, rfl, by decide, by decide⟩
      | failed x torn => rw [ht] at hfit; cases hfit
      | written wav seconds =>
          rw [ht] at hfit
          simp only [Bool.and_eq_true] at hfit
          obtain ⟨hfree, hfit⟩ := hfit
          cases hcheck : checkForm cfg a seconds c with
          | error e =>
              simp only [hcheck]
              have hsame : ∀ v ∈ c.voices.rows, ∀ r, referenceFile v = some r →
                  ((s.write (.file (targetOf cfg a.tenantId a.form.voiceId)) wav).remove
                    (.file (targetOf cfg a.tenantId a.form.voiceId))).content r =
                      s.content r := by
                intro v hv r hr
                rw [referenceFile_of_placed h.placed hv] at hr
                obtain rfl := Option.some.inj hr
                have hne := target_ne cfg hfree hv
                simp [hne]
              refine ⟨⟨h.placed, ?_⟩, trivial, hsame, checkForm_error hcheck⟩
              intro v hv hp r hr
              rw [hsame v hv r hr]
              exact h.intact v hv hp r hr
          | ok u =>
              rw [hcheck] at hfit
              obtain ⟨c', hpersist, hmem⟩ := persist_storable hvis hfree hfit
              simp only [hcheck, hpersist]
              have hplaced : Placed cfg c' := by
                intro x hx
                obtain hx | rfl := (hmem x).1 hx
                · exact h.placed x hx
                · rfl
              refine ⟨⟨hplaced, ?_⟩, trivial⟩
              intro x hx hp r hr
              rw [referenceFile_of_placed hplaced hx] at hr
              obtain rfl := Option.some.inj hr
              obtain hx | rfl := (hmem x).1 hx
              · have hne := target_ne cfg hfree hx
                rw [Storage.content_write, if_neg hne]
                exact h.intact x hx hp _ (referenceFile_of_placed h.placed hx)
              · simp [NewVoice.row, EnrollAttempt.newVoice]

/-- The step lemma of an owner's write that leaves the reference alone. -/
theorem Enrolled.write {tenant : Uuid} {slug : PyStr} {f : Voice → Voice} {r : Option Voice}
    {c' : Catalog} (h : Enrolled cfg c s) (hw : writeOwned tenant slug f c = .ok (r, c'))
    (hf : ∀ v, (f v).ownerTenantId = v.ownerTenantId ∧ (f v).voiceId = v.voiceId ∧
      (f v).referenceUri = v.referenceUri ∧ (f v).referenceSha256 = v.referenceSha256 ∧
      (f v).purgedAt = v.purgedAt) :
    Enrolled cfg c' s := by
  constructor
  · intro x hx
    obtain ⟨w, hw, rfl | rfl⟩ := writeOwned_mem hw hx
    · exact h.placed x hw
    · obtain ⟨howner, hslug, huri, -, -⟩ := hf w
      rw [howner, hslug, huri]
      exact h.placed w hw
  · intro x hx hp a ha
    obtain ⟨w, hw, rfl | rfl⟩ := writeOwned_mem hw hx
    · exact h.intact x hw hp a ha
    · obtain ⟨-, -, huri, hsha, hpurged⟩ := hf w
      rw [hpurged] at hp
      rw [referenceFile, huri] at ha
      rw [hsha]
      exact h.intact w hw hp a ha

end attempt

/-! ## runs -/

/-- The step lemma. -/
theorem Enrolled.perform {cfg : EnrollSettings} {cs : Catalog × Storage}
    (h : Enrolled cfg cs.1 cs.2) (op : EnrollOp)
    (hfit : ∀ a, op = .enroll a → a.fits cfg cs.1 = true) :
    Enrolled cfg (op.perform cfg cs).1 (op.perform cfg cs).2 := by
  obtain ⟨c, s⟩ := cs
  have hwhen : ∀ {α : Type} (x : Tx α), (∀ r c', x c = .ok (r, c') → Enrolled cfg c' s) →
      Enrolled cfg (x.after c) s := by
    intro α x hx
    obtain heq | ⟨r, hr⟩ := x.after_cases c
    · rw [heq]; exact h
    · exact hx r _ hr
  cases op with
  | enroll a => exact (Enrolled.enroll h (hfit a rfl)).1
  | softDelete tenant slug now =>
      exact hwhen _ fun r c' hw => Enrolled.write h hw fun v => ⟨rfl, rfl, rfl, rfl, rfl⟩
  | updateMetadata tenant slug p =>
      refine hwhen _ fun r c' hw => ?_
      obtain ⟨-, hw⟩ | ⟨_, _, -, -, hw⟩ | rfl := updateMetadata_ok hw
      · exact Enrolled.write h hw fun v => ⟨rfl, rfl, rfl, rfl, rfl⟩
      · exact Enrolled.write h hw fun v => ⟨rfl, rfl, rfl, rfl, rfl⟩
      · exact h

/-- The run lemma: the rows keep their audio, and every attempt of the run is
clean. -/
theorem Enrolled.enrollAll {cfg : EnrollSettings} (ops : List EnrollOp)
    {cs : Catalog × Storage} (h : Enrolled cfg cs.1 cs.2) (hfit : allFit cfg cs ops = true) :
    Enrolled cfg (enrollAll cfg cs ops).1 (enrollAll cfg cs ops).2 ∧
      ∀ before a after, ops = before ++ .enroll a :: after →
        EnrollClean cfg a (NeuroVoice.enrollAll cfg cs before).1
          (NeuroVoice.enrollAll cfg cs before).2 := by
  induction ops generalizing cs with
  | nil => exact ⟨h, fun before a after hops => by simp at hops⟩
  | cons op ops ih =>
      simp only [allFit, Bool.and_eq_true] at hfit
      have hop : ∀ a, op = .enroll a → a.fits cfg cs.1 = true := by
        rintro a rfl
        exact hfit.1
      obtain ⟨hlast, hclean⟩ := ih (h.perform op hop) hfit.2
      refine ⟨hlast, fun before a after hops => ?_⟩
      cases before with
      | nil =>
          obtain ⟨rfl, -⟩ := List.cons.inj hops
          exact (Enrolled.enroll h (hop a rfl)).2
      | cons b before =>
          obtain ⟨rfl, rfl⟩ := List.cons.inj hops
          exact hclean before a after rfl

/-- **Reference audio integrity**: in every run from an empty catalog whose
attempts all fit, the unpurged references are there with their hashes, and
the attempts that do not succeed change nothing and answer 4xx. -/
theorem reference_audio_integrity (cfg : EnrollSettings) (tenants apiKeys operators : Uuid → Bool)
    (s : Storage) (ops : List EnrollOp)
    (hfit : allFit cfg (Catalog.blank tenants apiKeys operators, s) ops = true) :
    let reached := fun ops => enrollAll cfg (Catalog.blank tenants apiKeys operators, s) ops
    ReferencesIntact (reached ops).1 (reached ops).2 ∧
      ∀ before a after, ops = before ++ .enroll a :: after →
        EnrollClean cfg a (reached before).1 (reached before).2 := by
  intro reached
  have h₀ : Enrolled cfg (Catalog.blank tenants apiKeys operators) s :=
    ⟨fun v hv => (Table.not_mem_empty v hv).elim, fun v hv => (Table.not_mem_empty v hv).elim⟩
  obtain ⟨hlast, hclean⟩ := h₀.enrollAll ops hfit
  exact ⟨hlast.intact, hclean⟩

/-- An upload of tenant 1. -/
def sampleAttempt : EnrollAttempt where
  tenantId := 1
  apiKeyId := 9
  form := {
    voiceId := py "ayse", displayName := py "Ayse", data := List.replicate 1024 0
    licenseKind := py "user-owned", consentKind := py "tenant-asserted" }
  trimmed := .written [1, 2] 5
  now := 0
  voiceUuid := 7
  consentUuid := 8

/-- An empty catalog, and nothing stored. -/
def emptyHouse : Catalog × Storage :=
  (.blank (fun _ => true) (fun _ => true) fun _ => true, ⟨fun _ => none⟩)

/-- A voice is enrolled, a too short upload under another slug is rejected,
and the voice is renamed and deleted. -/
def quietDay : List EnrollOp :=
  [.enroll sampleAttempt,
    .enroll { sampleAttempt with
      form := { sampleAttempt.form with voiceId := py "fatma" }
      trimmed := .written [3] (1 / 2) },
    .updateMetadata 1 (py "ayse") { displayName := some (py "Ayse K.") },
    .softDelete 1 (py "ayse") 60]

/-- An enrolment, a rejected upload, a rename and a deletion leave every reference
intact. -/
theorem reference_audio_integrity_example :
    ReferencesIntact (enrollAll {} emptyHouse quietDay).1 (enrollAll {} emptyHouse quietDay).2 :=
  (reference_audio_integrity {} (fun _ => true) (fun _ => true) (fun _ => true) ⟨fun _ => none⟩
    quietDay (by decide +kernel)).1

/-- With intact references no file is missing. -/
theorem ReferencesIntact.none_missing {c : Catalog} {s : Storage} (h : ReferencesIntact c s) :
    (c.voices.rows.any fun v => v.purgedAt.isNone && (referenceFile v).any fun a => !s.has a) =
      false := by
  refine List.any_eq_false.2 fun v hv hmiss => ?_
  simp only [Bool.and_eq_true, Option.isNone_iff_eq_none, Option.any_eq_true] at hmiss
  obtain ⟨hp, a, ha, hgone⟩ := hmiss
  have hsha := h v hv hp a ha
  cases hcontent : s.content a with
  | none => rw [hcontent] at hsha; cases hsha
  | some data => simp [Storage.has, hcontent] at hgone

/-- Enrolling a slug twice answers 409 and deletes the first voice's
audio. -/
theorem duplicate_slug_unlinks :
    ¬∀ ops, ReferencesIntact (enrollAll {} emptyHouse ops).1 (enrollAll {} emptyHouse ops).2 := by
  intro h
  have hfound := (h [.enroll sampleAttempt,
    .enroll { sampleAttempt with voiceUuid := 17 }]).none_missing
  revert hfound
  decide +kernel

end NeuroVoice
