import NeuroVoice.ResultReader

/-!
# NeuroVoice.Gateway

The HTTP surfaces of `server/main.py` that enqueue or poll: `POST
/v1/tts/jobs`, `GET /v1/tts/jobs/{id}`, `POST /v1/tts` and `POST
/v1/tts/stream`.

Each handler follows the source's order of checks and awaits.  Metrics,
logging and the encoding of audio into response bodies are left out.
-/

namespace NeuroVoice

/-- `AuthContext`. -/
structure AuthContext where
  tenantId : Uuid
  apiKeyId : Uuid

/-- The request headers the handlers read. -/
structure Headers where
  idempotencyKey : Option PyStr := none
  xRequestId : Option PyStr := none
  xNvApp : Option PyStr := none

/-- The request-scoped session: rolled back on an exception, always
closed. -/
def requestSession {α : Type} (x : Py α) : Py α :=
  withSession (exceptException x fun e => do
    let _ ← await .rollback
    throw e)

/-! ## shared checks -/

/-- `_app_label_from`: the trimmed header, at most 64 characters. -/
def appLabelFrom (h : Headers) : Option PyStr :=
  match h.xNvApp.map fun raw => (stripBy isSpace raw).take 64 with
  | some [] => none
  | label => label

/-- `_assert_voice_accessible_or_404`. -/
def assertVoiceAccessibleOr404 (S : Settings) (ctx : AuthContext) (voiceId : PyStr) :
    Py Voice := do
  if !S.voiceIdMatches voiceId then throw (.http 400 "voice_id invalid")
  match ← await (.selectVoice ctx.tenantId (.str voiceId)) with
  | some voice => pure voice
  | none => throw (.http 404 "voice not found")

/-- `_ensure_voice_synthesizable`: active, with an unrevoked consent. -/
def ensureVoiceSynthesizable (voice : Voice) : Py Unit := do
  if lifecycleState voice ≠ "active" then
    throw (.voiceNotSynthesizable ("voice_" ++ lifecycleState voice)
      ("voice is " ++ lifecycleState voice))
  if !(← await (.selectConsent voice.id)) then
    throw (.voiceNotSynthesizable "voice_no_active_consent" "voice has no active consent on file")

/-- The preset of a request: an unknown one is the client's error. -/
def requestPreset (S : Settings) (modelId : Option PyStr) : Py ModelPreset :=
  match resolveModel S (.ofStr? modelId) with
  | .ok preset => pure preset
  | .error (.unknownModel msg) => throw (.http 400 msg)
  | .error e => throw e

/-- `backlog_depth`: pending plus lag of the group, else the length. -/
def backlogDepth : Py Nat := do
  let xlen ← await .xlen
  match ← exceptException (await .xinfoGroups) fun _ => pure none with
  | some (pending, some lag) => pure (pending + lag)
  | _ => pure xlen

/-- `_compute_backpressure_decision`: the reason for a refusal, if any. -/
def computeBackpressureDecision (S : Settings) : Py (Option String) := do
  let depth ← backlogDepth
  let cluster ← exceptException (do return some (← await .clusterCapacity)) fun _ => pure none
  match cluster.filter fun c => 0 < c.workerCount with
  | some c =>
      let headroom := c.totalCapacity - c.totalInflight
      if 0 ≤ headroom ∧ depth ≤ S.queueDepthBackpressure ∧
          (depth : Int) ≤ headroom + c.totalCapacity then pure none
      else pure (some "capacity_exhausted")
  | none =>
      if depth ≤ S.queueDepthBackpressure then pure none
      else pure (some "queue_depth_limit")

/-- `_check_queue_depth_or_503`: a refusal is audited. -/
def checkQueueDepthOr503 (S : Settings) : Py Unit := do
  match ← computeBackpressureDecision S with
  | none => pure ()
  | some reason => do
      let _ ← await (.insertAudit reason)
      let _ ← await .commit
      throw (.http 503 "queue is saturated; retry shortly")

/-- The job of a request. -/
def requestPayload (ctx : AuthContext) (h : Headers) (rid : Uuid) (voice : Voice)
    (body : TtsBody) (preset : ModelPreset) (params : Option Dict) (now : Nat) :
    TtsJobPayload where
  requestId := .str (uuidStr rid)
  tenantId := .str (uuidStr ctx.tenantId)
  apiKeyId := .str (uuidStr ctx.apiKeyId)
  voiceId := .str voice.voiceId
  text := .str body.text
  language := .str body.language
  audioFormat := .str body.audioFormat
  modelId := .str preset.modelId
  voiceSettings := .ofDict? body.voiceSettings
  params := .ofDict? params
  seed := .ofNat? body.seed
  previousText := .ofStr? body.previousText
  nextText := .ofStr? body.nextText
  pronunciationDict := .ofDict? body.pronunciationDict
  appLabel := .ofStr? (appLabelFrom h)
  enqueuedAtMs := .int now

/-- `queue.submit`; when it raises, the reservation is deleted again so that
the client can retry under the same key. -/
def submitOrUndo (tenant rid : Uuid) (job : TtsJobPayload) (detail : String) : Py Unit :=
  exceptException (await (.xaddJob job)) fun _ => do
    let _ ← IdempotencyRepo.delete tenant rid
    let _ ← await .commit
    throw (.http 502 detail)

/-! ## POST /v1/tts/jobs -/

/-- The client-facing job status. -/
inductive JobStatus where
  | queued
  | complete
  | failed
  deriving DecidableEq

/-- `TTSJobAccepted`: the 202 reply. -/
structure TtsJobAccepted where
  jobId : Uuid
  status : JobStatus
  createdAt : Nat
  deduplicated : Bool

/-- `parse_idempotency_key`. -/
def parseIdempotencyKey (h : Headers) : Except Exn Uuid :=
  match h.idempotencyKey with
  | none | some [] => .error (.http 400 "Idempotency-Key header is required for async jobs")
  | some raw =>
      match parseUuid (stripBy isSpace raw) with
      | some key => .ok key
      | none =>
          .error (.http 400 "Idempotency-Key must be a UUID (canonical or bare-hex form)")

/-- The status a replayed `POST` reports. -/
def replayStatus (row : JobIdempotency) : JobStatus :=
  if row.status = .complete then .complete else .queued

/-- The key was used with another body. -/
def conflict : Exn := .http 409 "Idempotency-Key reused with a different request body"

/-- The guarded section of `create_tts_job`: replay the row found upfront, or
reserve one. -/
def replayOrReserve (S : Settings) (ctx : AuthContext) (key : Uuid) (requestHash : PyStr) :
    Py (TtsJobAccepted ⊕ JobIdempotency) := do
  match ← IdempotencyRepo.get .upfront ctx.tenantId key with
  | some existing =>
      if existing.requestHash ≠ requestHash then throw conflict
      return .inl { jobId := key, status := replayStatus existing
                    createdAt := existing.createdAt, deduplicated := true }
  | none => do
      checkQueueDepthOr503 S
      let (reserved, _isNew) ←
        IdempotencyRepo.reserveOrGet ctx.tenantId key ctx.apiKeyId requestHash none
      return .inr reserved

/-- `except IdempotencyConflict`: the same 409. -/
def conflictTo409 {α : Type} (x : Py α) : Py α :=
  tryCatch x fun e =>
    match e with
    | .idempotencyConflict _ _ => throw conflict
    | e => throw e

/-- `create_tts_job`. -/
def createTtsJob (S : Settings) (ctx : AuthContext) (h : Headers) (body : TtsBody) :
    Py TtsJobAccepted := requestSession do
  if S.asyncMaxChars < body.text.length then throw (.http 400 "text exceeds async_max_chars")
  let key ← liftExn (parseIdempotencyKey h)
  let voice ← assertVoiceAccessibleOr404 S ctx body.voiceId
  ensureVoiceSynthesizable voice
  let preset ← requestPreset S body.modelId
  match ← conflictTo409 (replayOrReserve S ctx key (S.hashJobBody body)) with
  | .inl reply => return reply
  | .inr reserved => do
      let _ ← await .commit
      let now ← await .clock
      submitOrUndo ctx.tenantId key (requestPayload ctx h key voice body preset body.params now)
        "failed to enqueue job; retry with the same Idempotency-Key"
      return { jobId := key, status := .queued, createdAt := reserved.createdAt
               deduplicated := false }

/-! ## GET /v1/tts/jobs/{id} -/

/-- `_map_idempotency_status_to_job_status`. -/
def mapIdempotencyStatusToJobStatus : IdemStatus → JobStatus
  | .complete => .complete
  | .failed => .failed
  | .processing => .queued

/-- `TTSJobMetrics`. -/
structure TtsJobMetrics where
  queueWaitMs : Option Nat
  inferenceMs : Nat
  firstAudioMs : Option Nat
  generatedAudioMs : Nat
  rtf : Option Rat
  characterCount : Nat
  modelId : Option PyStr

/-- `TTSJobStatusResponse`. -/
structure TtsJobStatusResponse where
  jobId : PyStr
  status : JobStatus
  createdAt : Nat
  audioUrl : Option PyStr := none
  metrics : Option TtsJobMetrics := none
  alignment : Option (List SentenceAlignment) := none

/-- `usage_row.inference_ms or usage_row.elapsed_ms`, and the rest. -/
def metricsOf (u : UsageRecord) : TtsJobMetrics where
  queueWaitMs := u.queueWaitMs
  inferenceMs := match u.inferenceMs with | some (n + 1) => n + 1 | _ => u.elapsedMs
  firstAudioMs := u.firstAudioMs
  generatedAudioMs := u.durationMs
  rtf := u.rtf
  characterCount := u.textCharCount
  modelId := u.modelVersion

/-- The part of the status reply that the row alone determines. -/
def statusResponse (S : Settings) (jobId : PyStr) (row : JobIdempotency) :
    TtsJobStatusResponse where
  jobId
  status := mapIdempotencyStatusToJobStatus row.status
  createdAt := row.createdAt
  audioUrl := if row.status = .complete then
    (row.responseUri.filter fun uri => !uri.isEmpty).map S.presignedUrl else none
  alignment := if row.status = .complete then
    row.sentenceAlignment.filter fun a => !a.isEmpty else none

/-- `get_tts_job`: the same 404 for a foreign, an unknown and an expired
job. -/
def getTtsJob (S : Settings) (ctx : AuthContext) (jobId : PyStr) :
    Py TtsJobStatusResponse := requestSession do
  match parseUuid jobId with
  | none => throw (.http 400 "job_id must be a UUID")
  | some rid =>
      match ← IdempotencyRepo.get .poll ctx.tenantId rid with
      | none => throw (.http 404 "job not found")
      | some row => do
          let response := statusResponse S jobId row
          if row.status = .complete then
            let usage ← UsageRepo.find ctx.tenantId rid
            return { response with metrics := usage.map metricsOf }
          else return response

/-! ## POST /v1/tts and /v1/tts/stream -/

/-- `_request_id_for`: the client's, or a fresh one. -/
def requestIdFor (h : Headers) : Py Uuid :=
  match h.xRequestId.bind parseUuid with
  | some rid => pure rid
  | none => await .uuid4

/-- What the two synchronous surfaces share: admit, reserve, and submit
unless the reservation was there already. -/
def reserveAndSubmit (S : Settings) (ctx : AuthContext) (h : Headers) (body : TtsBody) :
    Py Uuid := do
  if S.maxCharsPerRequest < body.text.length then throw (.http 400 "text exceeds max_chars")
  let voice ← assertVoiceAccessibleOr404 S ctx body.voiceId
  ensureVoiceSynthesizable voice
  let preset ← requestPreset S body.modelId
  let rid ← requestIdFor h
  checkQueueDepthOr503 S
  let (_row, reservedNew) ← conflictTo409
    (IdempotencyRepo.reserveOrGet ctx.tenantId rid ctx.apiKeyId (S.hashSyncBody body) none)
  let _ ← await .commit
  if reservedNew then do
    let now ← await .clock
    submitOrUndo ctx.tenantId rid (requestPayload ctx h rid voice body preset none now)
      "failed to enqueue sync job"
  return rid

/-- The reply of `POST /v1/tts`. -/
structure SyncAudio where
  requestId : Uuid
  pcm : Pcm
  sentences : Nat

/-- `synthesize`. -/
def synthesize (S : Settings) (ctx : AuthContext) (h : Headers) (body : TtsBody) (fuel : Nat) :
    Py SyncAudio := requestSession do
  let rid ← reserveAndSubmit S ctx h body
  match ← outcomeOf (collectPcmUntilFinal rid S.syncTimeoutMs fuel) with
  | .ok (pcm, sentences, error) =>
      match error with
      | some msg => throw (.http 502 ("worker error: " ++ msg))
      | none => return { requestId := rid, pcm, sentences }
  | .error .resultStreamTimeout =>
      throw (.http 504 "worker did not finish in time; retry via /v1/tts/jobs")
  | .error e => throw e

/-- `_yield_pcm`'s loop body: an error or the final marker ends the body. -/
def yieldPcm (frames : List Pcm) (chunk : TtsResult) : List Pcm × Bool :=
  if chunk.isTerminal then (frames, false) else (frames ++ [chunk.pcmBytes], true)

/-- `synthesize_stream`: the frames sent before the stream ended. -/
def synthesizeStream (S : Settings) (ctx : AuthContext) (h : Headers) (body : TtsBody)
    (fuel : Nat) : Py (List Pcm) := requestSession do
  let rid ← reserveAndSubmit S ctx h body
  let (frames, raised) ← consumeResultStream (fun frames chunk => pure (yieldPcm frames chunk))
    rid S.syncTimeoutMs fuel []
  match raised with
  | none | some .resultStreamTimeout => return frames
  | some e => throw e

end NeuroVoice
