import NeuroVoice.Py

/-!
# NeuroVoice.Queue

The wire formats of `server/queue.py`.

* `EntryFields` — the field map of one entry of the jobs stream.  Anybody
  can have written it, so the payload is raw: bytes that are not UTF-8,
  text that is not JSON, or some JSON value.
* `TtsJobPayload` — the decoded job.  `decode` checks that the required
  fields are there and nothing about their values, which is why the fields
  are `Json`.
* `TtsResult` — one entry of a per-request result stream.
* `TtsBody` — a request body (`server/schemas.py`), after validation.
-/

namespace NeuroVoice

/-! ## jobs -/

/-- The bytes of a `payload` field, as `decode` sees them. -/
inductive RawPayload where
  | notUtf8
  | notJson
  | json (j : Json)

/-- The fields of a jobs-stream entry. -/
structure EntryFields where
  payload : Option RawPayload

/-- A queued synthesis job. -/
structure TtsJobPayload where
  requestId : Json
  tenantId : Json
  apiKeyId : Json
  voiceId : Json
  text : Json
  language : Json := .ofStr "tr"
  audioFormat : Json := .ofStr "wav"
  modelId : Json := .null
  voiceSettings : Json := .null
  params : Json := .null
  seed : Json := .null
  previousText : Json := .null
  nextText : Json := .null
  pronunciationDict : Json := .null
  appLabel : Json := .null
  callbackUrl : Json := .null
  enqueuedAtMs : Json := .null

namespace TtsJobPayload

/-- `asdict(self)`. -/
def toDict (j : TtsJobPayload) : Dict :=
  [(py "request_id", j.requestId), (py "tenant_id", j.tenantId),
    (py "api_key_id", j.apiKeyId), (py "voice_id", j.voiceId), (py "text", j.text),
    (py "language", j.language), (py "audio_format", j.audioFormat),
    (py "model_id", j.modelId), (py "voice_settings", j.voiceSettings),
    (py "params", j.params), (py "seed", j.seed), (py "previous_text", j.previousText),
    (py "next_text", j.nextText), (py "pronunciation_dict", j.pronunciationDict),
    (py "app_label", j.appLabel), (py "callback_url", j.callbackUrl),
    (py "enqueued_at_ms", j.enqueuedAtMs)]

/-- `encode`: the whole job as one JSON field. -/
def encode (j : TtsJobPayload) : EntryFields :=
  ⟨some (.json (.obj j.toDict))⟩

/-- A constructor argument without a default: `TypeError` when missing. -/
def required (d : Dict) (k : String) : Except Foreign Json :=
  match d.get (py k) with
  | some v => .ok v
  | none => .error .typeError

/-- A constructor argument with a default. -/
def optional (d : Dict) (k : String) (default : Json) : Json :=
  (d.get (py k)).getD default

/-- `cls(**known)`: unknown keys are dropped, defaults fill in. -/
def ofDict (d : Dict) : Except Foreign TtsJobPayload := do
  return {
    requestId := ← required d "request_id"
    tenantId := ← required d "tenant_id"
    apiKeyId := ← required d "api_key_id"
    voiceId := ← required d "voice_id"
    text := ← required d "text"
    language := optional d "language" (.ofStr "tr")
    audioFormat := optional d "audio_format" (.ofStr "wav")
    modelId := optional d "model_id" .null
    voiceSettings := optional d "voice_settings" .null
    params := optional d "params" .null
    seed := optional d "seed" .null
    previousText := optional d "previous_text" .null
    nextText := optional d "next_text" .null
    pronunciationDict := optional d "pronunciation_dict" .null
    appLabel := optional d "app_label" .null
    callbackUrl := optional d "callback_url" .null
    enqueuedAtMs := optional d "enqueued_at_ms" .null }

/-- `decode`: only an object with the required keys is a job. -/
def decode (fields : EntryFields) : Except Foreign TtsJobPayload :=
  match fields.payload with
  | none => .error .keyError
  | some .notUtf8 => .error .unicodeError
  | some .notJson => .error .jsonError
  | some (.json (.obj d)) => ofDict d
  | some (.json _) => .error .attributeError

/-- **Round trip** of the job payload. -/
@[simp] theorem decode_encode (j : TtsJobPayload) : decode j.encode = .ok j := rfl

end TtsJobPayload

/-! ## results -/

/-- PCM audio: bytes. -/
abbrev Pcm := List UInt8

/-- One chunk, final marker or error marker of a result stream. -/
structure TtsResult where
  requestId : Uuid
  seq : Int
  pcmBytes : Pcm
  sentenceText : Option PyStr := none
  final : Bool := false
  error : Option String := none
  attempt : Int := 0

namespace TtsResult

/-- `bool(chunk.error)`: the empty message is no error. -/
def hasError (r : TtsResult) : Bool :=
  match r.error with
  | some m => m ≠ ""
  | none => false

/-- `bool(chunk.error or chunk.final)`. -/
def isTerminal (r : TtsResult) : Bool := r.hasError || r.final

/-- Every field of the encoded entry can be sent: the sentence text is the
only one that comes from outside. -/
def encodable (r : TtsResult) : Bool :=
  match r.sentenceText with
  | some s => utf8Encodable s
  | none => true

end TtsResult

/-! ## requests -/

/-- The validated body of a synthesis request; `params` exists on the async
surface only. -/
structure TtsBody where
  text : PyStr
  voiceId : PyStr
  language : PyStr := py "tr"
  audioFormat : PyStr := py "wav"
  modelId : Option PyStr := none
  voiceSettings : Option Dict := none
  params : Option Dict := none
  seed : Option Nat := none
  previousText : Option PyStr := none
  nextText : Option PyStr := none
  pronunciationDict : Option Dict := none

end NeuroVoice
