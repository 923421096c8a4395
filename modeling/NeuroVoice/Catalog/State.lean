import NeuroVoice.Models
import NeuroVoice.Lib.Table

/-!
# NeuroVoice.Catalog.State

The voice catalog: `voices`, `voice_access`, `voice_consent_records` and
`talent_contracts`, with the constraints of `db/models.py`.

A `Tx` is the work of one session up to its commit.  What an exception
interrupts is rolled back, so a failing `Tx` has no catalog to return.
-/

namespace NeuroVoice

/-! ## shapes of text columns -/

/-- `[a-z0-9]`. -/
def isAlnum (c : Nat) : Bool := (0x61 ≤ c && c ≤ 0x7A) || (0x30 ≤ c && c ≤ 0x39)

/-- The check `voice_id_format`: `^[a-z0-9][a-z0-9-]{1,62}[a-z0-9]$`, where
PostgreSQL's `$` is the end of the text. -/
def isSlug (s : PyStr) : Bool :=
  3 ≤ s.length && s.length ≤ 64 && (s.all fun c => isAlnum c || c == 0x2D) &&
    s.head?.all isAlnum && s.getLast?.all isAlnum

/-- `VOICE_ID_PATTERN.match`: the same pattern, but Python's `$` also matches
before a final newline. -/
def voiceIdMatches (s : PyStr) : Bool :=
  isSlug s || (s.getLast? == some 0x0A && isSlug s.dropLast)

/-- `^[0-9a-f]{64}$`. -/
def isSha256 (s : PyStr) : Bool :=
  s.length == 64 && s.all fun c => (0x61 ≤ c && c ≤ 0x66) || (0x30 ≤ c && c ≤ 0x39)

/-- A text PostgreSQL can store. -/
def storable (s : PyStr) : Bool := utf8Encodable s && !s.contains 0

/-! ## voices -/

/-- The values of `license_kind`. -/
def licenseKinds : List PyStr :=
  [py "example", py "synthetic", py "user-owned", py "talent-contract", py "public-figure",
    py "partner-licensed"]

/-- The check `voices_purge_after_frozen`. -/
def purgeAfterFrozen (v : Voice) : Bool :=
  match v.purgeAfterAt, v.frozenAt with
  | some purge, some frozen => frozen ≤ purge
  | _, _ => true

/-- The check `voices_purged_after_purge_after`. -/
def purgedAfterPurgeAfter (v : Voice) : Bool :=
  match v.purgedAt, v.purgeAfterAt with
  | some purged, some purge => purge ≤ purged
  | _, _ => true

/-- The checks on columns whose values a client chooses. -/
def Voice.wellFormed (v : Voice) : Bool :=
  isSlug v.voiceId && [py "tr", py "en"].contains v.language &&
    [py "neutral", py "female", py "male"].contains v.gender &&
    v.referenceSha256.length == 64 && (0 < v.referenceSeconds && v.referenceSeconds ≤ 60) &&
    [py "bootstrap", py "tenant-enroll", py "talent-recorded", py "synthetic-from-prompt",
      py "partner-import"].contains v.source &&
    licenseKinds.contains v.licenseKind &&
    v.adapterType.all fun t => [py "lora", py "full-finetune"].contains t

/-- Every text of the row can be stored. -/
def Voice.isStorable (v : Voice) : Bool :=
  storable v.displayName && v.styleTags.all storable && storable v.referenceUri &&
    storable v.referenceSha256 && v.licenseRef.all storable && v.description.all storable &&
    (v.labels.all fun ls => ls.all storable) && v.previewUrl.all storable &&
    v.adapterUri.all storable && v.adapterSha256.all storable && v.frozenReason.all storable

/-- Primary key `id`, `uq_voices_owner_tenant_id_voice_id`, and the checks.
Soft-deleted rows count for both keys.  A text that cannot be stored is
refused like a failed check. -/
def voices : Schema Voice where
  clash v w := v.id == w.id || (v.ownerTenantId == w.ownerTenantId && v.voiceId == w.voiceId)
  check v := v.wellFormed && v.isStorable && purgeAfterFrozen v && purgedAfterPurgeAfter v
  clash_symm v w := by
    rw [Bool.eq_iff_iff]
    simp only [Bool.or_eq_true, Bool.and_eq_true, beq_iff_eq]
    constructor <;> rintro (h | ⟨h, h'⟩) <;> simp_all

/-! ## voice_access -/

/-- `voice_access.permission`. -/
inductive Permission where
  | use
  | read
  deriving DecidableEq

/-- The two values `grant` accepts. -/
def Permission.ofStr? (s : PyStr) : Option Permission :=
  if s = py "use" then some .use else if s = py "read" then some .read else none

/-- A `voice_access` row. -/
structure VoiceAccess where
  tenantId : Uuid
  voiceId : Uuid
  permission : Permission
  grantedBy : Option Uuid
  deriving DecidableEq

/-- `uq_voice_access_tenant_id_voice_id`. -/
def voiceAccess : Schema VoiceAccess where
  clash a b := a.tenantId == b.tenantId && a.voiceId == b.voiceId
  check _ := true
  clash_symm a b := by
    rw [Bool.eq_iff_iff]
    simp only [Bool.and_eq_true, beq_iff_eq]
    constructor <;> rintro ⟨h, h'⟩ <;> simp_all

/-! ## voice_consent_records -/

/-- The values of `consent_kind`. -/
def consentKinds : List PyStr :=
  [py "tenant-asserted", py "recorded-statement", py "signed-contract", py "estate-permission"]

/-- A `voice_consent_records` row. -/
structure VoiceConsentRecord where
  id : Uuid
  voiceId : Uuid
  consentKind : PyStr
  evidenceUri : Option PyStr
  evidenceSha256 : Option PyStr
  evidenceNotes : Option PyStr
  recordedAt : Nat
  recordedByKind : PyStr
  recordedByActorId : Option Uuid
  revokedAt : Option Nat := none
  revokedReason : Option PyStr := none
  deriving DecidableEq

/-- Primary key and checks. -/
def voiceConsentRecords : Schema VoiceConsentRecord where
  clash r s := r.id == s.id
  check r :=
    consentKinds.contains r.consentKind &&
      [py "tenant", py "operator"].contains r.recordedByKind &&
      (if r.consentKind = py "tenant-asserted" then r.evidenceUri.isNone
        else r.evidenceUri.isSome) &&
      r.evidenceSha256.all isSha256 && (r.revokedAt.all fun t => r.recordedAt ≤ t) &&
      r.evidenceUri.all storable && r.evidenceNotes.all storable && r.revokedReason.all storable
  clash_symm r s := by
    rw [Bool.eq_iff_iff]
    simp only [beq_iff_eq]
    exact eq_comm

/-! ## talent_contracts -/

/-- A `talent_contracts` row, less the signed document's details. -/
structure TalentContract where
  id : Uuid
  talentFullName : PyStr
  expiresAt : Option Nat := none
  revokedAt : Option Nat := none
  deriving DecidableEq

/-- Primary key and the check on the name. -/
def talentContracts : Schema TalentContract where
  clash r s := r.id == s.id
  check r :=
    1 ≤ r.talentFullName.length && r.talentFullName.length ≤ 200 && storable r.talentFullName
  clash_symm r s := by
    rw [Bool.eq_iff_iff]
    simp only [beq_iff_eq]
    exact eq_comm

/-! ## the catalog -/

/-- The catalog's tables; of the tables they refer to, only the keys. -/
structure Catalog where
  tenants : Uuid → Bool
  apiKeys : Uuid → Bool
  operators : Uuid → Bool
  voices : Table voices
  access : Table voiceAccess
  consents : Table voiceConsentRecords
  contracts : Table talentContracts

/-- A catalog without rows. -/
def Catalog.blank (tenants apiKeys operators : Uuid → Bool) : Catalog where
  tenants
  apiKeys
  operators
  voices := .empty
  access := .empty
  consents := .empty
  contracts := .empty

/-- A catalog with one voice. -/
def Catalog.sole (v : Voice) (h : NeuroVoice.voices.check v = true) : Catalog :=
  { blank (fun _ => true) (fun _ => true) fun _ => true with
    voices := ⟨[v], List.pairwise_singleton _ v, fun r hr => by
      rw [List.mem_singleton.1 hr]; exact h⟩ }

/-- The work of one session. -/
abbrev Tx (α : Type) : Type := StateT Catalog (Except Exn) α

namespace Tx

variable {α β : Type}

/-- A statement: refused for a violated constraint. -/
def statement (f : Catalog → Option Catalog) : Tx Unit := fun c =>
  match f c with
  | some c' => .ok ((), c')
  | none => .error (.foreign .integrityError)

/-- Read the catalog. -/
def query (f : Catalog → α) : Tx α := fun c => .ok (f c, c)

/-- The catalog afterwards: committed, or as it was. -/
def after (x : Tx α) (c : Catalog) : Catalog :=
  match x c with
  | .ok (_, c') => c'
  | .error _ => c

theorem pure_ok {a b : α} {c c' : Catalog} :
    (pure a : Tx α) c = .ok (b, c') ↔ a = b ∧ c = c' := by
  constructor
  · intro h; cases h; exact ⟨rfl, rfl⟩
  · rintro ⟨rfl, rfl⟩; rfl

theorem not_throw_ok {e : Exn} {b : α} {c c' : Catalog} :
    ¬(throw e : Tx α) c = .ok (b, c') := by
  intro h; cases h

/-- A sequence that succeeds has both parts succeed. -/
theorem bind_ok {x : Tx α} {f : α → Tx β} {b : β} {c c' : Catalog} :
    (x >>= f) c = .ok (b, c') ↔ ∃ a c₁, x c = .ok (a, c₁) ∧ f a c₁ = .ok (b, c') := by
  change (x c >>= fun r => f r.1 r.2) = _ ↔ _
  cases h : x c with
  | error e => simp [bind, Except.bind]
  | ok r => exact ⟨fun hf => ⟨r.1, r.2, rfl, hf⟩, by rintro ⟨a, c₁, h', hf⟩; cases h'; exact hf⟩

theorem query_ok {f : Catalog → α} {a : α} {c c' : Catalog} :
    query f c = .ok (a, c') ↔ f c = a ∧ c = c' := by
  constructor
  · intro h; cases h; exact ⟨rfl, rfl⟩
  · rintro ⟨rfl, rfl⟩; rfl

theorem statement_ok {f : Catalog → Option Catalog} {u : Unit} {c c' : Catalog} :
    statement f c = .ok (u, c') ↔ f c = some c' := by
  unfold statement
  cases h : f c with
  | none => simp
  | some c₁ => simp

/-- A sequence fails with its first part. -/
theorem bind_error {x : Tx α} {f : α → Tx β} {e : Exn} {c : Catalog} (h : x c = .error e) :
    (x >>= f) c = .error e := by
  change (x c >>= fun r => f r.1 r.2) = _
  rw [h]
  rfl

/-- A sequence goes on with what its first part returns. -/
theorem bind_of_ok {x : Tx α} {f : α → Tx β} {a : α} {c c' : Catalog} (h : x c = .ok (a, c')) :
    (x >>= f) c = f a c' := by
  change (x c >>= fun r => f r.1 r.2) = _
  rw [h]
  rfl

theorem bind_query {f : Catalog → α} {g : α → Tx β} {c : Catalog} :
    (query f >>= g) c = g (f c) c := rfl

/-- The catalog afterwards is the one before or the committed one. -/
theorem after_cases (x : Tx α) (c : Catalog) :
    x.after c = c ∨ ∃ a, x c = .ok (a, x.after c) := by
  unfold after
  cases h : x c with
  | error e => exact .inl rfl
  | ok r => exact .inr ⟨r.1, rfl⟩

end Tx

end NeuroVoice
