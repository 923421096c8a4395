import NeuroVoice.Queue

/-!
# NeuroVoice.Models

The database rows of `db/models.py` and the exceptions of the source.

Rows are keyed by their primary or unique key elsewhere (`NeuroVoice.World`):
`job_idempotency` and `usage_records` by `request_id`.  Columns that no
modelled function reads or writes are left out.
-/

namespace NeuroVoice

/-! ## job_idempotency -/

/-- `job_idempotency.status`. -/
inductive IdemStatus where
  | processing
  | complete
  | failed
  deriving DecidableEq

/-- One row of a job's sentence alignment. -/
structure SentenceAlignment where
  seq : Nat
  startMs : Nat
  endMs : Nat
  text : PyStr
  deriving DecidableEq

/-- A `job_idempotency` row. -/
structure JobIdempotency where
  tenantId : Uuid
  apiKeyId : Uuid
  requestHash : PyStr
  status : IdemStatus
  responseUri : Option PyStr := none
  sentenceAlignment : Option (List SentenceAlignment) := none
  createdAt : Nat
  expiresAt : Nat
  deriving DecidableEq

/-- The columns an ORM flush sends: those whose value was changed on the
loaded object. -/
structure IdemPatch where
  status : Option IdemStatus := none
  responseUri : Option PyStr := none
  sentenceAlignment : Option (List SentenceAlignment) := none
  deriving DecidableEq

namespace IdemPatch

/-- Nothing changed: no `UPDATE` is sent. -/
def isEmpty (p : IdemPatch) : Bool :=
  p.status.isNone && p.responseUri.isNone && p.sentenceAlignment.isNone

/-- The `UPDATE` itself: the other columns keep their committed values. -/
def apply (p : IdemPatch) (row : JobIdempotency) : JobIdempotency :=
  { row with
    status := p.status.getD row.status
    responseUri := p.responseUri.or row.responseUri
    sentenceAlignment := p.sentenceAlignment.or row.sentenceAlignment }

@[simp] theorem apply_tenantId (p : IdemPatch) (row : JobIdempotency) :
    (p.apply row).tenantId = row.tenantId := rfl

@[simp] theorem apply_expiresAt (p : IdemPatch) (row : JobIdempotency) :
    (p.apply row).expiresAt = row.expiresAt := rfl

end IdemPatch

/-! ## usage_records -/

/-- `usage_records.status` (`short` is the source's fourth value, which
nothing modelled here writes). -/
inductive UsageStatus where
  | ok
  | error
  | timeout
  | short
  deriving DecidableEq

/-- `usage_records.engine_inputs`. -/
structure EngineInputs where
  modelId : Option PyStr
  hfRevision : Option PyStr
  presetId : PyStr
  cfgValue : Json
  inferenceTimesteps : Json
  seed : Json
  voiceSettings : Option Dict
  pronunciationDictSize : Nat
  previousTextLen : Nat
  nextTextLen : Nat
  referenceSha256 : PyStr

/-- A `usage_records` row. -/
structure UsageRecord where
  tenantId : Uuid
  apiKeyId : Uuid
  voiceId : Json
  textCharCount : Nat
  sentenceCount : Nat
  durationMs : Nat
  elapsedMs : Nat
  queueWaitMs : Option Nat := none
  inferenceMs : Option Nat := none
  workerPickupMs : Option Nat := none
  referenceResolveMs : Option Nat := none
  firstPcmMs : Option Nat := none
  firstAudioMs : Option Nat := none
  rtf : Option Rat := none
  status : UsageStatus
  errorCode : Option String := none
  workerId : PyStr
  modelVersion : Option PyStr := none
  appLabel : Json
  engineInputs : Option EngineInputs := none

/-- A value a `Text` column takes: a string PostgreSQL can store. -/
def isText : Json → Bool
  | .str s => utf8Encodable s && !s.contains 0
  | _ => false

/-- A value an `Integer` column takes. -/
def isInt4 (n : Nat) : Bool := n < 2 ^ 31

/-- The column types and `NOT NULL` constraints of the fields a row takes
from a job. -/
def UsageRecord.insertable (u : UsageRecord) : Bool :=
  isText u.voiceId && (u.appLabel.isNull || isText u.appLabel) && isInt4 u.textCharCount &&
    u.queueWaitMs.all isInt4 && isInt4 u.elapsedMs

/-! ## voices -/

/-- `voices.visibility`. -/
inductive Visibility where
  | priv
  | shared
  | pub
  deriving DecidableEq

/-- A value of the `visibility` column; the source's sets and the `CHECK`
have the same three. -/
def Visibility.ofStr? (s : PyStr) : Option Visibility :=
  if s = py "private" then some .priv
  else if s = py "shared" then some .shared
  else if s = py "public" then some .pub
  else none

/-- `voices.release_status`. -/
inductive ReleaseStatus where
  | draft
  | staging
  | production
  | deprecated
  deriving DecidableEq

/-- A value of the `release_status` column. -/
def ReleaseStatus.ofStr? (s : PyStr) : Option ReleaseStatus :=
  if s = py "draft" then some .draft
  else if s = py "staging" then some .staging
  else if s = py "production" then some .production
  else if s = py "deprecated" then some .deprecated
  else none

/-- A `voices` row. -/
structure Voice where
  id : Uuid
  ownerTenantId : Uuid := 0
  voiceId : PyStr
  displayName : PyStr := []
  language : PyStr := py "tr"
  gender : PyStr := py "neutral"
  styleTags : List PyStr := []
  referenceUri : PyStr
  referenceSha256 : PyStr
  referenceSeconds : Rat := 1
  referenceSampleRate : Nat := 16000
  source : PyStr := py "tenant-enroll"
  licenseKind : PyStr
  licenseRef : Option PyStr := none
  visibility : Visibility := .priv
  releaseStatus : ReleaseStatus := .draft
  engineParams : Dict := []
  description : Option PyStr := none
  labels : Option (List PyStr) := none
  previewUrl : Option PyStr := none
  voiceSettingsDefaults : Option Dict := none
  adapterUri : Option PyStr := none
  adapterSha256 : Option PyStr := none
  adapterType : Option PyStr := none
  watermarkKeyId : Option Uuid := none
  watermarkEnabled : Bool := true
  evalMetrics : Option Dict := none
  createdByKeyId : Option Uuid := none
  createdAt : Nat := 0
  deletedAt : Option Nat := none
  frozenAt : Option Nat := none
  frozenReason : Option PyStr := none
  purgeAfterAt : Option Nat := none
  purgedAt : Option Nat := none

/-- `lifecycle_state`: the most specific terminal state wins. -/
def lifecycleState (v : Voice) : String :=
  if v.purgedAt.isSome then "purged"
  else if v.deletedAt.isSome then "deleted"
  else if v.purgeAfterAt.isSome then "purge-pending"
  else if v.frozenAt.isSome then "frozen"
  else "active"

/-! ## exceptions -/

/-- An exception in flight. -/
inductive Exn where
  | foreign (x : Foreign)
  | poisonJob (msg : String)
  | transientFailure (msg : String)
  | unknownModel (msg : String)
  | invalidVoiceId (msg : String)
  | voiceNotSynthesizable (reason detail : String)
  /-- `reserve_or_get` met the key with another body; it carries the row. -/
  | idempotencyConflict (requestId : Uuid) (existing : JobIdempotency)
  | http (code : Nat) (detail : String)
  | resultStreamTimeout
  /-- The reader's loop was cut off: not an exception of the source, but how
  a run that is still waiting shows up in a bounded run of it. -/
  | stillRunning

namespace Exn

/-- `except Exception` catches it. -/
def isException : Exn → Bool
  | .foreign x => x.isException
  | .stillRunning => false
  | _ => true

/-- `str(e)`. -/
def text : Exn → String
  | .foreign x => x.text
  | .poisonJob m | .transientFailure m | .unknownModel m | .invalidVoiceId m => m
  | .voiceNotSynthesizable _ d => d
  | .idempotencyConflict _ _ => "Idempotency-Key reused with a different body"
  | .http _ d => d
  | .resultStreamTimeout => "no final chunk"
  | .stillRunning => ""

end Exn

end NeuroVoice
