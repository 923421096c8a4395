import NeuroVoice.Lib.Timeline
import NeuroVoice.Ws

/-!
# NeuroVoice.Socket

`stream_input_endpoint` of `server/ws.py`, after authentication: the gate at
the handshake, the inbound loop with its configuration messages and its text
buffer, and the drain at the end.

A `SocketEff` is an await of the connection: one that every process has
(`io`), or one on the socket.  The loop runs for at most `fuel` messages; a
connection that is still open then raises `stillRunning`.
-/

namespace NeuroVoice

/-! ## awaits -/

/-- What `receive_text` and `json.loads` make of the client's next message. -/
inductive Received where
  /-- `asyncio.TimeoutError`: there is none. -/
  | timeout
  | invalidJson
  /-- `json.loads` raises something else. -/
  | unloadable (x : Foreign)
  | notObject
  | object (msg : Dict)

/-- An await of a connection. -/
inductive SocketEff where
  | io (e : Eff)
  | accept
  | receive
  /-- The `done` frame. -/
  | done
  | close (reason : String)

/-- What it returns. -/
@[reducible] def SocketRet : SocketEff → Type
  | .io e => Ret e
  | .receive => Received
  | _ => Unit

/-- A value, or the exception it raises. -/
abbrev SocketAns (e : SocketEff) : Type := Except Exn (SocketRet e)

/-- A coroutine of a connection. -/
abbrev SocketPy (α : Type) : Type := ExceptT Exn (Prog SocketEff SocketAns) α

/-- `await` on the socket. -/
abbrev onSocket (e : SocketEff) : SocketPy (SocketRet e) := callE (X := Exn) e

/-- A coroutine that knows nothing of the socket. -/
def io {α : Type} (x : Py α) : SocketPy α :=
  ExceptT.mk (Prog.embed SocketEff.io x.run : Prog SocketEff SocketAns (Except Exn α))

/-! ## configuration messages -/

/-- What the connection takes from libraries: the validated
`VoiceSettings(**v).model_dump(exclude_none=True)`, and `str(v)` of a value
that is not a string. -/
structure SocketSettings extends Settings where
  voiceSettings : Json → Option Dict
  strOf : Json → PyStr

/-- `str(v)`. -/
def SocketSettings.str (S : SocketSettings) : Json → PyStr
  | .str s => s
  | v => S.strOf v

/-- `_ws_audio_format`, of a value that is not `None`. -/
def wsAudioFormat : Json → Except Foreign PyStr
  | .str s =>
      if s = [] ∨ s = py "pcm16" then .ok (py "pcm16")
      else if s = py "mp3" ∨ s = py "opus" ∨ s = py "wav" then .ok s
      else .error (.valueError "unsupported audio_format for WS stream-input")
  | _ => .error (.valueError "unsupported audio_format for WS stream-input")

/-- An entry `_validate_pronunciation_dict` accepts: at most 64 characters on
either side. -/
def pronunciationEntryOk (kv : PyStr × Json) : Bool :=
  match kv.2 with
  | .str v => !(stripBy isSpace kv.1).isEmpty && kv.1.length ≤ 64 && v.length ≤ 64
  | _ => false

/-- `_validate_pronunciation_dict`, of a value that is not `None`. -/
def validatePronunciationDict (v : Json) : Except Foreign Dict := do
  if 64 < (← v.len) then throw (.valueError "pronunciation_dict has too many entries")
  match v with
  | .obj kvs =>
      if kvs.all pronunciationEntryOk then return kvs
      else throw (.valueError "pronunciation_dict entry invalid")
  | _ => throw .attributeError

/-- The work of `_apply_config`: it changes the state member by member, ends
with an error code or none, or raises. -/
abbrev Configuring : Type → Type := ExceptT String (StateT WsState (Except Exn))

/-- `except ValueError: return code`. -/
def codeOnValueError {α : Type} (code : String) : Except Foreign α → Configuring α
  | .ok a => pure a
  | .error (.valueError _) => throw code
  | .error x => ExceptT.lift (StateT.lift (.error (.foreign x)))

/-- `except (TypeError, ValueError): return "invalid_seed"`, and the range. -/
def seedOf (v : Json) : Configuring Nat :=
  match v.toInt with
  | .ok n => if n < 0 ∨ 2147483647 < n then throw "invalid_seed" else pure n.toNat
  | .error .typeError => throw "invalid_seed"
  | .error x => codeOnValueError "invalid_seed" (.error x)

/-- `str(v)`, at most 4000 characters. -/
def contextText (S : SocketSettings) (code : String) (v : Json) : Configuring PyStr :=
  if 4000 < (S.str v).length then throw code else pure (S.str v)

/-- A member that is present and not `None`, handled. -/
def onMember (msg : Dict) (k : String) (f : Json → Configuring Unit) : Configuring Unit :=
  match msg.getSome k with
  | some v => f v
  | none => pure ()

/-- `_apply_config`. -/
def applyConfig (S : SocketSettings) (msg : Dict) : Configuring Unit := do
  onMember msg "voice_settings" fun v =>
    match S.voiceSettings v with
    | some d => modify fun st => { st with voiceSettings := some d }
    | none => throw "invalid_voice_settings"
  onMember msg "model_id" fun v =>
    match resolveModel S.toSettings v with
    | .ok preset => modify fun st => { st with modelId := some preset.modelId }
    | .error (.unknownModel _) => throw "unknown_model_id"
    | .error e => ExceptT.lift (StateT.lift (.error e))
  onMember msg "audio_format" fun v => do
    let f ← codeOnValueError "unsupported_audio_format" (wsAudioFormat v)
    modify fun st => { st with audioFormat := f }
  onMember msg "seed" fun v => do
    let n ← seedOf v
    modify fun st => { st with seed := some n }
  onMember msg "previous_text" fun v => do
    let s ← contextText S "previous_text_too_long" v
    modify fun st => { st with previousText := some s }
  onMember msg "next_text" fun v => do
    let s ← contextText S "next_text_too_long" v
    modify fun st => { st with nextText := some s }
  onMember msg "pronunciation_dict" fun v => do
    let d ← codeOnValueError "invalid_pronunciation_dict" (validatePronunciationDict v)
    modify fun st => { st with pronunciationDict := some d }

/-! ## segments -/

/-- `MIN_BUFFER_CHARS`. -/
def minBufferChars : Nat := 12

/-- `MAX_BUFFER_CHARS`. -/
def maxBufferChars : Nat := 240

/-- The end of the last match of `[.!?](?=\s|$)`; 0 when there is none. -/
def lastBoundary : PyStr → Nat
  | [] => 0
  | c :: cs =>
      match lastBoundary cs with
      | n + 1 => n + 2
      | 0 => if (py ".!?").contains c && cs.head?.all isSpace then 1 else 0

/-- `_split_at_last_boundary`. -/
def splitAtLastBoundary (buf : PyStr) : PyStr × PyStr :=
  match lastBoundary buf with
  | 0 => ([], buf)
  | n => (stripBy isSpace (buf.take n), (buf.drop n).dropWhile isSpace)

/-- Where an unpunctuated buffer is cut. -/
def cutOf (buf : PyStr) : Nat :=
  match lastSpace (buf.take maxBufferChars) with
  | some (n + 1) => n + 1
  | _ => maxBufferChars

/-- The flush logic: the segment to send now, and what stays buffered. -/
def nextSegment (buf : PyStr) (forceFlush : Bool) : PyStr × PyStr :=
  let (segment, remainder) := splitAtLastBoundary buf
  if forceFlush then (stripBy isSpace buf, [])
  else if minBufferChars ≤ segment.length then (segment, remainder)
  else if maxBufferChars ≤ buf.length then
    (stripBy isSpace (buf.take (cutOf buf)), (buf.drop (cutOf buf)).dropWhile isSpace)
  else ([], buf)

/-- The text a message appends. -/
def textOf (msg : Dict) : PyStr :=
  match msg.get (py "text") with
  | some (.str s) => s
  | _ => []

/-! ## the connection -/

/-- `_WsState`. -/
structure Connection where
  state : WsState := {}
  buffer : PyStr := []

/-- How an iteration of the inbound loop ends. -/
inductive LoopStep where
  | proceed (conn : Connection)
  | stop (conn : Connection)

section connection

variable (S : SocketSettings) (ctx : AuthContext) (slug : PyStr) (appLabel : Option PyStr)
  (fuel : Nat)

/-- `_flush_segment`, unless there is nothing to send. -/
def flushNonempty (conn : Connection) (segment : PyStr) : SocketPy Connection := do
  if segment.isEmpty then return conn
  let state ← io (flushSegment S.toSettings ctx slug appLabel fuel conn.state segment)
  return { conn with state }

/-- Steps 3 and 4 of the loop: append the text, flush what is complete. -/
def takeText (conn : Connection) (msg : Dict) : SocketPy Connection := do
  if 20000 < conn.buffer.length + (textOf msg).length then do
    io (sendError "buffer_overflow")
    return { conn with buffer := [] }
  let flush := ((msg.get (py "flush")).getD .null).truthy
  let (segment, remainder) := nextSegment (conn.buffer ++ textOf msg) flush
  flushNonempty S ctx slug appLabel fuel { conn with buffer := remainder } segment

/-- A message that is an object. -/
def takeMessage (conn : Connection) (msg : Dict) : SocketPy LoopStep := do
  match (applyConfig S msg).run conn.state with
  | .error e => throw e
  | .ok (.error code, state) => do
      io (sendError code)
      return .proceed { conn with state }
  | .ok (.ok _, state) =>
      match msg.get (py "close") with
      | some (.bool true) => return .stop { conn with state }
      | _ => do
          let conn ← takeText S ctx slug appLabel fuel { conn with state } msg
          return .proceed conn

/-- One iteration of the inbound loop. -/
def receiveOne (conn : Connection) : SocketPy LoopStep := do
  match ← onSocket .receive with
  | .timeout => do
      io (sendError "idle_timeout")
      return .stop conn
  | .invalidJson => do
      io (sendError "invalid_json")
      return .proceed conn
  | .unloadable x => throw (.foreign x)
  | .notObject => do
      io (sendError "invalid_message")
      return .proceed conn
  | .object msg => takeMessage S ctx slug appLabel fuel conn msg

/-- The inbound loop. -/
def inboundLoop : Nat → Connection → SocketPy Connection
  | 0, _ => throw .stillRunning
  | n + 1, conn => do
      match ← receiveOne S ctx slug appLabel fuel conn with
      | .proceed conn => inboundLoop n conn
      | .stop conn => return conn

/-- An exception as a value. -/
def attempt {α : Type} (x : SocketPy α) : SocketPy (Except Exn α) :=
  tryCatch (do let a ← x; pure (.ok a)) fun e => pure (.error e)

/-- Raise it again. -/
def settle {α : Type} : Except Exn α → SocketPy α
  | .ok a => pure a
  | .error e => throw e

/-- The body of the `try`: the loop, the drain and the `done` frame. -/
def conversation (messages : Nat) : SocketPy Unit := do
  let conn ← inboundLoop S ctx slug appLabel fuel messages {}
  let _ ← flushNonempty S ctx slug appLabel fuel conn (stripBy isSpace conn.buffer)
  match ← attempt (onSocket .done) with
  | .error (.foreign .webSocketDisconnect) => pure ()
  | r => settle r

/-- The `try` with its `except` and its `finally`. -/
def serve (messages : Nat) : SocketPy Unit := do
  let r ← attempt (conversation S ctx slug appLabel fuel messages)
  match ← attempt (onSocket (.close "")) with
  | .error e => if e.isException then pure () else throw e
  | .ok _ => pure ()
  match r with
  | .error (.foreign .webSocketDisconnect) => pure ()
  | r => settle r

/-- The handshake's gate, and the session behind it. -/
def handshake (voiceId : PyStr) (messages : Nat) : SocketPy Unit := do
  match ← io (await (.selectVoice ctx.tenantId (.str voiceId))) with
  | none => onSocket (.close "voice not found")
  | some voice =>
      if voice.deletedAt.isSome then onSocket (.close "voice not found")
      else if lifecycleState voice ≠ "active" then
        onSocket (.close ("voice " ++ lifecycleState voice))
      else if !(← io (await (.selectConsent voice.id))) then
        onSocket (.close "voice no active consent")
      else do
        onSocket .accept
        serve S ctx voice.voiceId appLabel fuel messages

/-- `stream_input_endpoint`, once the client is authenticated. -/
def streamInputEndpoint (voiceId : PyStr) (messages : Nat) : SocketPy Unit := do
  let r ← attempt (handshake S ctx appLabel fuel voiceId messages)
  let _ ← io (await .close)
  settle r

end connection

end NeuroVoice
