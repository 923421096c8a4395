import NeuroVoice.Repos

/-!
# NeuroVoice.Presets

The configuration both sides read (`server/config.py`, the environment), the
model presets (`server/models.py`) and the knobs of one synthesis
(`worker/pipeline.py`, the part between the preset and the engine call).
-/

namespace NeuroVoice

/-- Configuration, and the functions the model takes from outside: hashes,
pattern matching, audio post-processing, and `repr`. -/
structure Settings where
  maxCharsPerRequest : Nat := 4000
  asyncMaxChars : Nat := 100000
  queueDepthBackpressure : Nat := 200
  syncTimeoutMs : Nat := 30000
  segmentTimeoutMs : Nat := 30000
  xautoclaimMinIdleMs : Nat := 30000
  xautoclaimPeriodMs : Nat := 5000
  maxRetries : Nat := 3
  resultsTtlMs : Nat := 600000
  consumerName : PyStr := py "worker"
  archiveConfigured : Bool := true
  engineModelId : Option PyStr := none
  engineHfRevision : Option PyStr := none
  /-- `repr(v)`. -/
  repr : Json → String
  /-- `VOICE_ID_PATTERN.match(s)`. -/
  voiceIdMatches : PyStr → Bool
  /-- `_hash_job_body`. -/
  hashJobBody : TtsBody → PyStr
  /-- `_hash_sync_body`. -/
  hashSyncBody : TtsBody → PyStr
  /-- The WebSocket's `request_hash` of a segment. -/
  hashSegment : PyStr → PyStr
  /-- `_maybe_presigned_url`. -/
  presignedUrl : PyStr → PyStr
  /-- `apply_voice_settings`. -/
  applyVoiceSettings : Pcm → Nat → Dict → Except String Pcm

/-! ## presets -/

/-- `ModelPreset`. -/
structure ModelPreset where
  modelId : PyStr
  cfgValue : Rat
  inferenceTimesteps : Int

/-- `_PRESETS`. -/
def presets : List ModelPreset :=
  [⟨py "voxcpm2-tr-turbo", 3 / 2, 8⟩, ⟨py "voxcpm2-tr-hd", 2, 16⟩,
    ⟨py "voxcpm2-tr-character", 5 / 2, 24⟩, ⟨py "voxcpm2-fast", 2, 7⟩,
    ⟨py "voxcpm2-standard", 2, 10⟩, ⟨py "voxcpm2-studio", 5 / 2, 16⟩]

/-- `DEFAULT_MODEL`. -/
def defaultModel : ModelPreset := ⟨py "voxcpm2-tr-hd", 2, 16⟩

/-- `resolve_model`: falsy means the default, and only a hashable key can be
looked up. -/
def resolveModel (S : Settings) (modelId : Json) : Except Exn ModelPreset :=
  if ¬modelId.truthy then .ok defaultModel
  else
    let unknown := Exn.unknownModel ("unknown model_id " ++ S.repr modelId)
    match modelId with
    | .arr _ | .obj _ => .error (.foreign .typeError)
    | .str s =>
        match presets.find? fun p => p.modelId = s with
        | some p => .ok p
        | none => .error unknown
    | _ => .error unknown

/-! ## engine knobs -/

/-- `engine_overrides`. -/
structure EngineOverrides where
  cfgValue : Json
  inferenceTimesteps : Json

/-- A member that is present and not `None`. -/
def Dict.getSome (d : Dict) (k : String) : Option Json :=
  (d.get (py k)).filter fun v => !v.isNull

/-- `{**voice_defaults, **(job.voice_settings or {})}`. -/
def mergedVoiceSettings (voice : Voice) (job : TtsJobPayload) : Except Foreign Dict := do
  return Dict.merge (voice.voiceSettingsDefaults.getD []) (← job.voiceSettings.orEmpty)

/-- How far `similarity_boost` moves `cfg_value`. -/
def cfgOffset (similarityBoost : PyFloat) : PyFloat := (similarityBoost.addRat (-1 / 2)).mulPos 1

/-- How far `stability` moves `inference_timesteps`. -/
def stepsOffset (stability : PyFloat) : PyFloat := (stability.addRat (-1 / 2)).mulPos 16

/-- `similarity_boost` moves the preset's `cfg_value`. -/
def boostedCfg (preset : ModelPreset) (settings : Dict) : Except Foreign PyFloat :=
  match settings.getSome "similarity_boost" with
  | none => .ok (.fin preset.cfgValue)
  | some v => do return (cfgOffset (← v.floatOperand)).addRat preset.cfgValue

/-- `stability` moves the preset's `inference_timesteps`. -/
def stabilisedSteps (preset : ModelPreset) (settings : Dict) : Except Foreign Int :=
  match settings.getSome "stability" with
  | none => .ok preset.inferenceTimesteps
  | some v => do
      (Json.float ((stepsOffset (← v.floatOperand)).addRat preset.inferenceTimesteps)).toInt

/-- An explicit `params` member wins over the clamped value. -/
def explicitParam (job : TtsJobPayload) (k : String) (clamped : Json) : Except Foreign Json :=
  if job.params.truthy then do
    match ← job.params.dictGet (py k) with
    | some .null | none => return clamped
    | some v => return v
  else .ok clamped

/-- The overrides of one job, clamped to the engine's envelopes. -/
def engineOverrides (preset : ModelPreset) (settings : Dict) (job : TtsJobPayload) :
    Except Foreign EngineOverrides := do
  let cfg ← boostedCfg preset settings
  let steps ← stabilisedSteps preset settings
  let cfg := cfg.clamp 1 (7 / 2)
  let steps := max 4 (min 40 steps)
  let cfgValue ← explicitParam job "cfg_value" (.float (.fin cfg))
  let inferenceTimesteps ← explicitParam job "inference_timesteps" (.int steps)
  return { cfgValue, inferenceTimesteps }

/-- `request_meta`. -/
def requestMeta (job : TtsJobPayload) : Dict :=
  (if job.seed.isNull then [] else [(py "seed", job.seed)]) ++
  (if job.pronunciationDict.truthy then [(py "pronunciation_dict", job.pronunciationDict)]
    else []) ++
  (if job.previousText.isNull then [] else [(py "previous_text", job.previousText)]) ++
  (if job.nextText.isNull then [] else [(py "next_text", job.nextText)])

/-- `len(v) if v else 0`. -/
def lenOrZero (v : Json) : Except Foreign Nat := if v.truthy then v.len else .ok 0

/-- `engine_inputs_snapshot`. -/
def engineInputsSnapshot (S : Settings) (preset : ModelPreset) (o : EngineOverrides)
    (settings : Dict) (voice : Voice) (job : TtsJobPayload) : Except Foreign EngineInputs := do
  let pronunciationDictSize ← lenOrZero job.pronunciationDict
  let previousTextLen ← lenOrZero job.previousText
  let nextTextLen ← lenOrZero job.nextText
  return {
    modelId := S.engineModelId, hfRevision := S.engineHfRevision, presetId := preset.modelId
    cfgValue := o.cfgValue, inferenceTimesteps := o.inferenceTimesteps, seed := job.seed
    voiceSettings := if settings.isEmpty then none else some settings
    pronunciationDictSize, previousTextLen, nextTextLen
    referenceSha256 := voice.referenceSha256 }

end NeuroVoice
