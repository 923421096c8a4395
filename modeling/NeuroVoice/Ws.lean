import NeuroVoice.Gateway

/-!
# NeuroVoice.Ws

The fourth enqueue surface: `_flush_segment` of `server/ws.py`, and the
connection that calls it segment by segment over one session.

The segments are given here; `NeuroVoice.Socket` has the loop that cuts them
from the client's messages.
-/

namespace NeuroVoice

/-- `_WsState`, less the text buffer. -/
structure WsState where
  voiceSettings : Option Dict := none
  modelId : Option PyStr := none
  audioFormat : PyStr := py "pcm16"
  seed : Option Nat := none
  previousText : Option PyStr := none
  nextText : Option PyStr := none
  pronunciationDict : Option Dict := none
  seq : Nat := 0

/-- `_suppress_disconnect`. -/
def suppressDisconnect (x : Py Unit) : Py Unit := do
  match ← outcomeOf x with
  | .ok _ => pure ()
  | .error (.foreign .webSocketDisconnect) => pure ()
  | .error e => throw e

/-- `_send_error`. -/
def sendError (code : String) : Py Unit := suppressDisconnect (await (.wsSend (.error code)))

/-- The job of a segment: it carries no `enqueued_at_ms`. -/
def segmentPayload (ctx : AuthContext) (rid : Uuid) (st : WsState) (slug segment : PyStr)
    (appLabel : Option PyStr) : TtsJobPayload where
  requestId := .str (uuidStr rid)
  tenantId := .str (uuidStr ctx.tenantId)
  apiKeyId := .str (uuidStr ctx.apiKeyId)
  voiceId := .str slug
  text := .str segment
  audioFormat := .str st.audioFormat
  modelId := .ofStr? st.modelId
  voiceSettings := .ofDict? st.voiceSettings
  seed := .ofNat? st.seed
  previousText := .ofStr? st.previousText
  nextText := .ofStr? st.nextText
  pronunciationDict := .ofDict? st.pronunciationDict
  appLabel := .ofStr? appLabel

/-- Both frames of one chunk. -/
def sendChunk (seq : Nat) (chunk : TtsResult) : Py Unit := suppressDisconnect do
  await (.wsSend (.audio chunk.pcmBytes (chunk.sentenceText.getD []) seq))
  await (.wsSend (.sentenceEnd seq (chunk.sentenceText.getD [])))

/-- The body of the segment's read loop; the flag says that the client was
told of an error and the segment is over. -/
def forwardChunk (acc : Nat × Bool) (chunk : TtsResult) : Py ((Nat × Bool) × Bool) :=
  if chunk.hasError then do
    sendError "worker_error"
    return ((acc.1, true), false)
  else if chunk.final then return (acc, true)
  else do
    sendChunk acc.1 chunk
    return ((acc.1 + 1, acc.2), true)

/-- The reservation of a segment: `false` when it could not be made. -/
def reserveSegment (S : Settings) (ctx : AuthContext) (rid : Uuid) (segment : PyStr) :
    Py Bool :=
  exceptException
    (do
      let _ ← IdempotencyRepo.reserve ctx.tenantId rid ctx.apiKeyId (S.hashSegment segment) none
      let _ ← await .commit
      return true)
    fun _ => return false

/-- `_flush_segment`: the connection's state afterwards. -/
def flushSegment (S : Settings) (ctx : AuthContext) (slug : PyStr) (appLabel : Option PyStr)
    (fuel : Nat) (st : WsState) (segment : PyStr) : Py WsState := do
  if S.maxCharsPerRequest < segment.length then do
    sendError "segment_too_long"
    return st
  match ← computeBackpressureDecision S with
  | some reason => do
      exceptException (do await (.insertAudit reason); await .commit) fun _ => pure ()
      sendError "queue_saturated"
      return st
  | none => do
      let rid ← await .uuid4
      if !(← reserveSegment S ctx rid segment) then do
        sendError "internal"
        return st
      match ← outcomeOf
          (await (.xaddJob (segmentPayload ctx rid st slug segment appLabel))) with
      | .error e =>
          if e.isException then do
            sendError "queue_unavailable"
            return st
          else throw e
      | .ok _ =>
          match ← consumeResultStream forwardChunk rid S.segmentTimeoutMs fuel (st.seq, false) with
          | ((seq, true), none) => return { st with seq }
          | ((seq, false), none) => return { st with seq, previousText := some segment }
          | ((seq, _), some .resultStreamTimeout) => do
              sendError "timeout"
              return { st with seq }
          | (_, some e) => throw e

/-- The segments of one connection, in order. -/
def flushSegments (S : Settings) (ctx : AuthContext) (slug : PyStr) (appLabel : Option PyStr)
    (fuel : Nat) : List PyStr → WsState → Py Unit
  | [], _ => pure ()
  | segment :: rest, st => do
      let st ← flushSegment S ctx slug appLabel fuel st segment
      flushSegments S ctx slug appLabel fuel rest st

/-- A connection, after its handshake. -/
def streamInput (S : Settings) (ctx : AuthContext) (slug : PyStr) (appLabel : Option PyStr)
    (fuel : Nat) (segments : List PyStr) : Py Unit :=
  withSession (flushSegments S ctx slug appLabel fuel segments {})

end NeuroVoice
