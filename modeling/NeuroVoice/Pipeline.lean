import NeuroVoice.Presets

/-!
# NeuroVoice.Pipeline

`worker/pipeline.py`: the body of one delivery.

`process_one_job` is one coroutine in the source; here each numbered section
of it is a definition, in the source's order, and `processOneJob` strings
them together.  The clocks are one clock in milliseconds.
-/

namespace NeuroVoice

/-! ## publishers -/

/-- `_xadd_result`: add the entry, then refresh the key's time to live. -/
def xaddResult (S : Settings) (r : TtsResult) : Py Unit := do
  await (.xaddResult r)
  await (.expireResults r.requestId S.resultsTtlMs)

/-- `publish_chunk`. -/
def publishChunk (S : Settings) (rid : Uuid) (seq : Nat) (pcm : Pcm)
    (sentenceText : Option PyStr) (attempt : Nat) : Py Unit :=
  xaddResult S { requestId := rid, seq, pcmBytes := pcm, sentenceText, attempt }

/-- `publish_final`. -/
def publishFinal (S : Settings) (rid : Uuid) (seq attempt : Nat) : Py Unit :=
  xaddResult S { requestId := rid, seq, pcmBytes := [], final := true, attempt }

/-- `publish_error`. -/
def publishError (S : Settings) (rid : Uuid) (seq : Nat) (message : String) (attempt : Nat) :
    Py Unit :=
  xaddResult S { requestId := rid, seq, pcmBytes := [], error := some message, attempt }

/-! ## terminal failures -/

/-- The three identifiers of a job, parsed. -/
structure JobIds where
  rid : Uuid
  tenant : Uuid
  apiKey : Uuid

/-- `uuid.UUID(…)` of the three, in this order. -/
def TtsJobPayload.ids (job : TtsJobPayload) : Except Foreign JobIds := do
  let rid ← job.requestId.toUuid
  let tenant ← job.tenantId.toUuid
  let apiKey ← job.apiKeyId.toUuid
  return { rid, tenant, apiKey }

/-- `max(0, now_ms - int(job.enqueued_at_ms))`. -/
def waitedMs (enqueuedAtMs : Json) (now : Nat) : Except Foreign Nat := do
  return ((now : Int) - (← enqueuedAtMs.toInt)).toNat

/-- `_queue_wait_ms`, with the wall clock read unless it is given. -/
def queueWaitMs (job : TtsJobPayload) (startedWallMs : Option Nat) : Py (Option Nat) := do
  if job.enqueuedAtMs.isNull then return none
  let now ← match startedWallMs with
    | some t => pure t
    | none => await .clock
  return some (← liftPy (waitedMs job.enqueuedAtMs now))

/-- What a terminal failure is recorded with. -/
structure Failure where
  errorCode : String
  message : String
  seq : Nat := 0
  elapsedMs : Nat := 0

/-- `message or error_code`. -/
def Failure.shown (f : Failure) : String := if f.message = "" then f.errorCode else f.message

/-- The usage row of a terminal failure. -/
def failureUsage (S : Settings) (job : TtsJobPayload) (ids : JobIds) (f : Failure) :
    Py UsageRecord := do
  let textCharCount ← liftPy job.text.len
  let queueWaitMs ← queueWaitMs job none
  return {
    tenantId := ids.tenant, apiKeyId := ids.apiKey, voiceId := job.voiceId, textCharCount
    sentenceCount := 0, durationMs := 0, elapsedMs := f.elapsedMs, queueWaitMs
    status := .error, errorCode := some f.errorCode, workerId := S.consumerName
    appLabel := job.appLabel }

/-- The transaction of `mark_terminal_failure`: an earlier usage row of the
request stays as it is. -/
def recordFailure (S : Settings) (job : TtsJobPayload) (ids : JobIds) (f : Failure) :
    Py Unit := do
  IdempotencyRepo.fail ids.tenant ids.rid
  match ← UsageRepo.find ids.tenant ids.rid with
  | some _ => pure ()
  | none => do
      let u ← failureUsage S job ids f
      UsageRepo.record ids.rid u
  await .commit

/-- `mark_terminal_failure`: tell the client, then persist. -/
def markTerminalFailure (S : Settings) (job : TtsJobPayload) (attempt : Nat) (f : Failure) :
    Py Unit := do
  let ids ← liftPy job.ids
  publishError S ids.rid f.seq f.shown attempt
  withSession (recordFailure S job ids f)

/-- A poison exit of the pipeline: persist the failure, then raise. -/
def poison {α : Type} (S : Settings) (job : TtsJobPayload) (attempt started : Nat)
    (errorCode message : String) (seq : Nat) (raised : String) : Py α := do
  let now ← await .clock
  markTerminalFailure S job attempt { errorCode, message, seq, elapsedMs := now - started }
  throw (.poisonJob raised)

/-! ## 1. resolve voice -/

/-- The voice visible to the tenant, and the bits of its watermark key. -/
def lookupVoice (ids : JobIds) (job : TtsJobPayload) : Py (Option Voice × Option Nat) :=
  withSession do
    match ← await (.selectVoice ids.tenant job.voiceId) with
    | none => pure (none, none)
    | some voice =>
        match voice.watermarkEnabled, voice.watermarkKeyId with
        | true, some key => do
            let bits ← await (.selectWatermarkKey key)
            pure (some voice, bits)
        | _, _ => pure (some voice, none)

/-- `_WATERMARK_REQUIRED_LICENSE_KINDS`. -/
def watermarkRequired (voice : Voice) : Bool :=
  voice.licenseKind ∈ [py "talent-contract", py "public-figure", py "partner-licensed"]

/-- A voice that must be watermarked needs a bound key and a working
applier. -/
def requireWatermark (S : Settings) (job : TtsJobPayload) (attempt started : Nat)
    (voice : Voice) (bits : Option Nat) : Py Unit := do
  if watermarkRequired voice then
    if bits.isNone then
      poison S job attempt started "watermark_required_no_key"
        ("voice license_kind=" ++ S.repr (.str voice.licenseKind) ++
          " requires watermark but no active watermark_key is bound; " ++
          "operator must allocate + bind a key before synthesis") 0
        ("voice " ++ S.repr (.str voice.voiceId) ++ " requires watermark but no key bound")
    if !(← await .loadApplier) then
      throw (.transientFailure ("voice " ++ S.repr (.str voice.voiceId) ++
        " requires watermark but audioseal package unavailable on this worker"))

/-- The voice, or the end of the job. -/
def resolveVoice (S : Settings) (job : TtsJobPayload) (ids : JobIds) (attempt started : Nat) :
    Py (Voice × Option Nat) := do
  match ← lookupVoice ids job with
  | (some voice, bits) => do
      requireWatermark S job attempt started voice bits
      pure (voice, bits)
  | (none, _) =>
      poison S job attempt started "voice_not_found" "voice_not_found" 0
        ("voice " ++ S.repr job.voiceId ++ " not visible to tenant")

/-! ## 2. resolve reference audio -/

/-- The local path and how long the download took. -/
def resolveReference (S : Settings) (job : TtsJobPayload) (attempt started : Nat)
    (voice : Voice) : Py (PyStr × Nat) := do
  let t₀ ← await .clock
  match ← outcomeOf (await (.resolveReference voice.referenceUri)) with
  | .ok path => do
      let t₁ ← await .clock
      pure (path, t₁ - t₀)
  | .error (.foreign (.fileNotFound msg)) =>
      poison S job attempt started "reference_missing" ("reference_missing: " ++ msg) 0
        ("reference for " ++ S.repr job.voiceId ++ " missing")
  | .error e => throw e

/-! ## 3-4. generate and publish -/

/-- The preset of the job, or the end of it. -/
def resolvePreset (S : Settings) (job : TtsJobPayload) (attempt started : Nat) :
    Py ModelPreset :=
  match resolveModel S job.modelId with
  | .ok preset => pure preset
  | .error (.unknownModel msg) =>
      poison S job attempt started "unknown_model_id" msg 0 msg
  | .error e => throw e

/-- What the chunk loop has so far. -/
structure Synthesis where
  seq : Nat := 0
  pcm : Pcm := []
  firstPcmMs : Option Nat := none
  firstAudioMs : Option Nat := none
  alignment : List SentenceAlignment := []
  samples : Nat := 0

/-- The constants of one chunk loop. -/
structure Inference where
  rid : Uuid
  attempt : Nat
  sampleRate : Nat
  started : Nat
  voiceSettings : Dict
  bits : Option Nat

/-- A latency stamp that is taken once. -/
def stampOnce (since : Nat) : Option Nat → Py (Option Nat)
  | some t => pure (some t)
  | none => do
      let now ← await .clock
      pure (some (now - since))

/-- Embed the watermark, when the voice has one and the applier works. -/
def watermark (bits : Option Nat) (pcm : Pcm) (sampleRate : Nat) : Py Pcm :=
  match bits with
  | none => pure pcm
  | some bits => do
      if ← await .applierAvailable then await (.watermarkPcm pcm sampleRate bits)
      else pure pcm

/-- A chunk's own sample rate, or the engine's. -/
def SynthChunk.rateOr (c : SynthChunk) (rate : Nat) : Nat :=
  if c.sampleRate = 0 then rate else c.sampleRate

/-- The alignment row of the next chunk. -/
def Synthesis.align (st : Synthesis) (c : SynthChunk) (rate : Nat) (pcm : Pcm) :
    SentenceAlignment where
  seq := st.seq
  startMs := st.samples * 1000 / max rate 1
  endMs := (st.samples + pcm.length / 2) * 1000 / max rate 1
  text := c.sentenceText.getD []

/-- One turn of the loop: post-process, watermark, publish, account. -/
def publishOne (S : Settings) (I : Inference) (st : Synthesis) (c : SynthChunk) :
    Py Synthesis := do
  let firstPcmMs ← stampOnce I.started st.firstPcmMs
  let pcm ← liftPy
    ((S.applyVoiceSettings c.pcmInt16 c.sampleRate I.voiceSettings).mapError .other)
  let pcm ← watermark I.bits pcm (c.rateOr I.sampleRate)
  publishChunk S I.rid st.seq pcm c.sentenceText I.attempt
  let firstAudioMs ← stampOnce I.started st.firstAudioMs
  pure {
    seq := st.seq + 1, pcm := st.pcm ++ pcm, firstPcmMs, firstAudioMs
    alignment := st.alignment ++ [st.align c (c.rateOr I.sampleRate) pcm]
    samples := st.samples + pcm.length / 2 }

/-- The loop over the engine's chunks. -/
def publishAll (S : Settings) (I : Inference) : List SynthChunk → Synthesis → Py Synthesis
  | [], st => pure st
  | c :: cs, st => do
      let st ← publishOne S I st c
      publishAll S I cs st

/-- Run the engine and publish what it yields; whatever goes wrong here is
transient. -/
def synthesizeAll (S : Settings) (I : Inference) (r : SynthRequest) : Py Synthesis :=
  exceptException
    (do
      let run ← await (.synthesize r)
      let st ← publishAll S I run.chunks {}
      match run.ending with
      | none => pure st
      | some x => throw (.foreign x))
    fun e => throw (.transientFailure e.text)

/-! ## 5. archive -/

/-- Store the audio: a failure, or no URI in return, is transient. -/
def storeAudio (rid : Uuid) (pcm : Pcm) (sampleRate : Nat) : Py PyStr := do
  let uri ← exceptException (await (.archive rid pcm sampleRate)) fun e =>
    throw (.transientFailure ("archive_failed: " ++ e.text))
  match uri with
  | some (c :: cs) => pure (c :: cs)
  | _ => throw (.transientFailure "archive_to_r2 returned no URI; refusing to mark complete")

/-- The artifact's URI: without one the job is not complete. -/
def archiveAudio (S : Settings) (job : TtsJobPayload) (rid : Uuid) (attempt started : Nat)
    (sampleRate : Nat) (st : Synthesis) : Py PyStr := do
  if !S.archiveConfigured then
    throw (.transientFailure ("archive_to_r2 callable not configured; refusing to mark " ++
      "complete without an artifact (would leave audio_url=null)"))
  if st.pcm.isEmpty then
    poison S job attempt started "empty_pcm" "empty_pcm: engine produced no PCM" st.seq
      "engine produced no PCM — nothing to archive or stream"
  storeAudio rid st.pcm sampleRate

/-- Everything the pipeline has before the final transaction. -/
structure Produced where
  voice : Voice
  preset : ModelPreset
  overrides : EngineOverrides
  voiceSettings : Dict
  sampleRate : Nat
  referenceResolveMs : Nat
  inferenceMs : Nat
  synthesis : Synthesis

/-- Sections 1 to 4. -/
def produce (S : Settings) (job : TtsJobPayload) (ids : JobIds) (attempt started : Nat) :
    Py Produced := do
  let (voice, bits) ← resolveVoice S job ids attempt started
  let (referencePath, referenceResolveMs) ← resolveReference S job attempt started voice
  let sampleRate ← await .engineSampleRate
  let inferenceStarted ← await .clock
  let preset ← resolvePreset S job attempt started
  let voiceSettings ← liftPy (mergedVoiceSettings voice job)
  let overrides ← liftPy (engineOverrides preset voiceSettings job)
  let I : Inference :=
    { rid := ids.rid, attempt, sampleRate, started := inferenceStarted, voiceSettings, bits }
  let synthesis ← synthesizeAll S I
    { text := job.text, voice := voiceViewFromDb voice, referencePath, language := job.language
      cfgValue := overrides.cfgValue, inferenceTimesteps := overrides.inferenceTimesteps
      requestMeta := requestMeta job }
  let now ← await .clock
  pure { voice, preset, overrides, voiceSettings, sampleRate, referenceResolveMs
         inferenceMs := now - inferenceStarted, synthesis }

/-! ## 6. idempotency complete and usage record, one transaction -/

/-- What the final transaction records. -/
structure Finished where
  responseUri : PyStr
  elapsedMs : Nat
  startedWallMs : Nat
  workerPickupMs : Option Nat
  inputs : EngineInputs

/-- The alignment to persist: `None` when there is none. -/
def Synthesis.alignment? (st : Synthesis) : Option (List SentenceAlignment) :=
  if st.alignment.isEmpty then none else some st.alignment

/-- The usage row of a success. -/
def successUsage (S : Settings) (job : TtsJobPayload) (ids : JobIds) (p : Produced)
    (f : Finished) : Py UsageRecord := do
  let durationMs := p.synthesis.pcm.length / 2 * 1000 / max p.sampleRate 1
  let textCharCount ← liftPy job.text.len
  let queueWaitMs ← queueWaitMs job (some f.startedWallMs)
  return {
    tenantId := ids.tenant, apiKeyId := ids.apiKey, voiceId := .str p.voice.voiceId
    textCharCount, sentenceCount := p.synthesis.seq, durationMs, elapsedMs := f.elapsedMs
    queueWaitMs, inferenceMs := some p.inferenceMs, workerPickupMs := f.workerPickupMs
    referenceResolveMs := some p.referenceResolveMs
    firstPcmMs := p.synthesis.firstPcmMs, firstAudioMs := p.synthesis.firstAudioMs
    rtf := if durationMs = 0 then none else some (f.elapsedMs / durationMs)
    status := .ok, workerId := S.consumerName, modelVersion := some p.preset.modelId
    appLabel := job.appLabel, engineInputs := some f.inputs }

/-- The transaction's body. -/
def recordSuccess (S : Settings) (job : TtsJobPayload) (ids : JobIds) (p : Produced)
    (f : Finished) : Py Unit := do
  IdempotencyRepo.complete ids.tenant ids.rid (some f.responseUri) p.synthesis.alignment?
  let u ← successUsage S job ids p f
  UsageRepo.record ids.rid u
  await .commit

/-- The transaction; its failures are transient. -/
def commitSuccess (S : Settings) (job : TtsJobPayload) (ids : JobIds) (p : Produced)
    (f : Finished) : Py Unit :=
  exceptException (withSession (recordSuccess S job ids p f)) fun e =>
    throw (.transientFailure ("db_commit_failed: " ++ e.text))

/-! ## 7. the pipeline -/

/-- `process_one_job`: the final marker is published after the commit. -/
def processOneJob (S : Settings) (job : TtsJobPayload) (workerPickupMs : Option Nat)
    (attempt : Nat) : Py Unit := do
  let ids ← liftPy job.ids
  let startedWallMs ← await .clock
  let started ← await .clock
  await (.delResults ids.rid)
  let p ← produce S job ids attempt started
  let responseUri ← archiveAudio S job ids.rid attempt started p.sampleRate p.synthesis
  let now ← await .clock
  let inputs ← liftPy
    (engineInputsSnapshot S p.preset p.overrides p.voiceSettings p.voice job)
  commitSuccess S job ids p
    { responseUri, elapsedMs := now - started, startedWallMs, workerPickupMs, inputs }
  exceptException (publishFinal S ids.rid p.synthesis.seq attempt) fun e =>
    throw (.transientFailure ("publish_final_failed: " ++ e.text))

end NeuroVoice
