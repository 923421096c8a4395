import NeuroVoice.Models
import NeuroVoice.Lib.Machine
import NeuroVoice.Lib.TxTable

/-!
# NeuroVoice.World

What gateways and workers share, and what each of their awaits does to it.

* PostgreSQL: `job_idempotency` and `usage_records`, under READ COMMITTED
  with row locks (`NeuroVoice.Lib.TxTable`).  Every statement is one step.
  A process has one session at a time, so its transaction is named by the
  process.  A statement that fails aborts its transaction.
* Redis: the jobs stream with its consumer group, one result stream per
  request, and the dead-letter stream.
* Everything else an await reaches (voices, consent, the engine, the
  archive, …) only answers; the oracle chooses the answer.

`Eff` lists the awaits, `perform` says what each one does when it is
answered, and `exec` adds the two ways it can fail: `raises` (nothing
happened) and `lost` (it happened, and the reply did not arrive).
-/

namespace NeuroVoice

/-! ## redis -/

/-- A pending-entries-list row: a delivered, unacknowledged entry. -/
structure PelRow where
  entry : Nat
  consumer : PyStr
  deliveredAt : Nat
  times : Nat

/-- The jobs stream with its consumer group. -/
structure JobsStream where
  /-- The entries still on the stream, oldest first. -/
  entries : List (Nat × EntryFields) := []
  lastDelivered : Nat := 0
  /-- In entry order. -/
  pel : List PelRow := []
  group : Bool := false

namespace JobsStream

/-- The fields of an entry that is still on the stream. -/
def find? (s : JobsStream) (entry : Nat) : Option EntryFields :=
  (s.entries.find? fun e => e.1 = entry).map Prod.snd

/-- An entry's row in the pending entries list. -/
def pending? (s : JobsStream) (entry : Nat) : Option PelRow :=
  s.pel.find? fun r => r.entry = entry

/-- The entry is on the stream and no worker has acknowledged it: it is
still to be delivered, or pending. -/
def unacked (s : JobsStream) (entry : Nat) : Bool :=
  (s.find? entry).isSome && (s.lastDelivered < entry || (s.pending? entry).isSome)

/-- `XADD MAXLEN ~`: append, then drop some of the oldest entries, never
going below `maxlen`. -/
def add (s : JobsStream) (id : Nat) (f : EntryFields) (maxlen trimmed : Nat) :
    Option JobsStream :=
  let entries := s.entries ++ [(id, f)]
  if trimmed = 0 ∨ maxlen + trimmed ≤ entries.length then
    some { s with entries := entries.drop trimmed }
  else none

/-- `XREADGROUP … COUNT 1 >`: the oldest entry never delivered. -/
def next? (s : JobsStream) : Option (Nat × EntryFields) :=
  s.entries.find? fun e => s.lastDelivered < e.1

/-- Deliver a new entry. -/
def deliver (s : JobsStream) (now : Nat) (consumer : PyStr) (entry : Nat) : JobsStream :=
  { s with lastDelivered := entry, pel := s.pel ++ [⟨entry, consumer, now, 1⟩] }

/-- `XAUTOCLAIM … COUNT 1`: look at the first ten rows; a row whose entry
was trimmed is dropped and uses up the count, a row idle for `minIdle` is
claimed. -/
def claimScan (s : JobsStream) (now minIdle : Nat) (consumer : PyStr) :
    Nat → List PelRow → List PelRow × Option (Nat × EntryFields)
  | 0, rows => (rows, none)
  | _, [] => ([], none)
  | n + 1, r :: rs =>
      match s.find? r.entry with
      | none => (rs, none)
      | some f =>
          if r.deliveredAt + minIdle ≤ now then
            (⟨r.entry, consumer, now, r.times + 1⟩ :: rs, some (r.entry, f))
          else
            let (rs', got) := claimScan s now minIdle consumer n rs
            (r :: rs', got)

/-- The claimed entry and the list after an `XAUTOCLAIM`. -/
def claim (s : JobsStream) (now minIdle : Nat) (consumer : PyStr) :
    JobsStream × Option (Nat × EntryFields) :=
  let (pel, got) := s.claimScan now minIdle consumer 10 s.pel
  ({ s with pel }, got)

/-- `XACK`. -/
def ack (s : JobsStream) (entry : Nat) : JobsStream :=
  { s with pel := s.pel.filter fun r => r.entry ≠ entry }

end JobsStream

/-- A per-request result stream; `expiresAt` is its `EXPIRE`. -/
structure ResultStream where
  entries : List (Nat × TtsResult) := []
  expiresAt : Option Nat := none

/-- The fields of a dead-letter entry; the payload is kept as it was. -/
structure DlqEntry where
  entryId : Nat
  /-- `request_id`, `tenant_id` and `voice_id` of a decoded job. -/
  job : Option (Json × Json × Json)
  reason : String
  error : String
  deliveryCount : Nat
  consumer : PyStr
  payload : EntryFields

/-- What the Redis client can send as a field value. -/
def redisEncodable : Json → Bool
  | .str s => utf8Encodable s
  | .int _ | .float _ => true
  | _ => false

/-- Every field of a dead-letter entry can be sent. -/
def DlqEntry.encodable (d : DlqEntry) : Bool :=
  match d.job with
  | some (rid, tid, vid) => redisEncodable rid && redisEncodable tid && redisEncodable vid
  | none => true

/-! ## the world -/

/-- The shared state. -/
structure World where
  now : Nat
  tenants : Uuid → Bool
  apiKeys : Uuid → Bool
  idem : TxTable Uuid JobIdempotency
  usage : TxTable Uuid UsageRecord
  jobs : JobsStream
  results : Uuid → ResultStream
  dlq : List DlqEntry
  /-- The next stream entry id: greater than every id given so far. -/
  nextId : Nat

namespace World

/-- Close the transaction of `p` without its writes. -/
def rollback (w : World) (p : Nat) : World :=
  { w with idem := w.idem.rollback p, usage := w.usage.rollback p }

/-- Publish the writes of `p`. -/
def commit (w : World) (p : Nat) : World :=
  { w with idem := w.idem.commit p, usage := w.usage.commit p }

/-- Time passes: result streams past their `EXPIRE` are gone. -/
def tick (d : Nat) (w : World) : World :=
  { w with
    now := w.now + d
    results := fun rid =>
      match (w.results rid).expiresAt with
      | some t => if t ≤ w.now + d then {} else w.results rid
      | none => w.results rid }

/-- What a query of `IdempotencyRepo.get` returns. -/
def lookupIdem (w : World) (p : Nat) (tenant rid : Uuid) : Option JobIdempotency :=
  (w.idem.read p rid).filter fun row => row.tenantId = tenant ∧ w.now < row.expiresAt

end World

/-! ## the engine and its neighbours -/

/-- One sentence from the engine. -/
structure SynthChunk where
  pcmInt16 : Pcm
  sampleRate : Nat
  sentenceText : Option PyStr

/-- `VoiceView`; an adapter is its type and its path. -/
structure VoiceView where
  voiceId : PyStr
  engineParams : Dict
  adapter : Option (PyStr × PyStr)

/-- `adapter_type or "lora"`. -/
def adapterTypeOr : Option PyStr → PyStr
  | none | some [] => py "lora"
  | some t => t

/-- `voice_view_from_db`. -/
def voiceViewFromDb (v : Voice) : VoiceView where
  voiceId := v.voiceId
  engineParams := v.engineParams
  adapter := (v.adapterUri.filter fun uri => !uri.isEmpty).map fun uri =>
    (adapterTypeOr v.adapterType, uri)

/-- What the engine is given. -/
structure SynthRequest where
  text : Json
  voice : VoiceView
  referencePath : PyStr
  language : Json
  cfgValue : Json
  inferenceTimesteps : Json
  requestMeta : Dict

/-- A whole run of the engine's generator: its chunks, and the exception
that ended it. -/
structure SynthRun where
  chunks : List SynthChunk
  ending : Option Foreign

/-- `ClusterCapacity`. -/
structure ClusterCapacity where
  workerCount : Nat
  totalCapacity : Int
  totalInflight : Int

/-- A frame sent to a WebSocket client. -/
inductive WsFrame where
  | error (code : String)
  | audio (pcm : Pcm) (text : PyStr) (seq : Nat)
  | sentenceEnd (seq : Nat) (text : PyStr)

/-! ## awaits -/

/-- Which call issues a lookup of `job_idempotency`. -/
inductive Site where
  /-- `create_tts_job`'s own `get`. -/
  | upfront
  /-- The first `get` of `reserve_or_get`. -/
  | reserve
  /-- Its second one, after an `IntegrityError`. -/
  | reread
  | complete
  | fail
  /-- `get_tts_job`. -/
  | poll
  deriving DecidableEq

/-- An await, or a step of the process that others can observe. -/
inductive Eff where
  | clock
  | uuid4
  | stopSet
  | sleep
  /-- `process_one_job` is called for an entry. -/
  | enterJob (entry : Nat)
  /-- `process_one_job` returned or raised. -/
  | leaveJob (entry : Nat)
  /-- `_handle_one` returned or raised. -/
  | handled (entry : Nat)
  | xgroupCreate
  | xaddJob (job : TtsJobPayload)
  | xlen
  | xinfoGroups
  | xreadgroup (consumer : PyStr)
  | xautoclaim (consumer : PyStr) (minIdle : Nat)
  | xpendingRange (entry : Nat)
  | xack (entry : Nat)
  | xaddDlq (d : DlqEntry)
  | clusterCapacity
  | delResults (rid : Uuid)
  | xaddResult (r : TtsResult)
  | expireResults (rid : Uuid) (ttl : Nat)
  | xreadResults (rid : Uuid) (lastId : Nat)
  | selectVoice (tenant : Uuid) (voiceId : Json)
  | selectWatermarkKey (key : Uuid)
  | selectConsent (voice : Uuid)
  | selectIdem (site : Site) (tenant rid : Uuid)
  | insertIdem (tenant rid apiKey : Uuid) (requestHash : PyStr) (ttl : Nat)
  | updateIdem (rid : Uuid) (patch : IdemPatch)
  | deleteIdem (tenant rid : Uuid)
  | selectUsage (tenant rid : Uuid)
  | insertUsage (rid : Uuid) (u : UsageRecord)
  | insertAudit (reason : String)
  | commit
  | rollback
  | close
  | resolveReference (uri : PyStr)
  | loadApplier
  | applierAvailable
  | watermarkPcm (pcm : Pcm) (sampleRate bits : Nat)
  | engineSampleRate
  | synthesize (r : SynthRequest)
  | archive (rid : Uuid) (pcm : Pcm) (sampleRate : Nat)
  | wsSend (f : WsFrame)

/-- What an await returns. -/
@[reducible] def Ret : Eff → Type
  | .clock => Nat
  | .uuid4 => Uuid
  | .stopSet => Bool
  | .xlen => Nat
  | .xinfoGroups => Option (Nat × Option Nat)
  | .xreadgroup _ => Option (Nat × EntryFields)
  | .xautoclaim _ _ => Option (Nat × EntryFields)
  | .xpendingRange _ => Option Nat
  | .clusterCapacity => ClusterCapacity
  | .xreadResults _ _ => List (Nat × TtsResult)
  | .selectVoice _ _ => Option Voice
  | .selectWatermarkKey _ => Option Nat
  | .selectConsent _ => Bool
  | .selectIdem _ _ _ => Option JobIdempotency
  | .insertIdem _ _ _ _ _ => JobIdempotency
  | .deleteIdem _ _ => Nat
  | .selectUsage _ _ => Option UsageRecord
  | .resolveReference _ => PyStr
  | .loadApplier => Bool
  | .applierAvailable => Bool
  | .watermarkPcm _ _ _ => Pcm
  | .engineSampleRate => Nat
  | .synthesize _ => SynthRun
  | .archive _ _ _ => Option PyStr
  | _ => Unit

/-- An await's answer: a value, or the exception it raises. -/
abbrev Ans (e : Eff) : Type := Except Exn (Ret e)

/-- A coroutine of the source. -/
abbrev Py (α : Type) : Type := ExceptT Exn (Prog Eff Ans) α

/-- `await`. -/
abbrev await (e : Eff) : Py (Ret e) := callE (X := Exn) e

/-- A computation without awaits that can raise. -/
def liftExn {α : Type} : Except Exn α → Py α
  | .ok a => pure a
  | .error x => throw x

/-- A computation without awaits that only builtins can make fail. -/
def liftPy {α : Type} (x : Except Foreign α) : Py α := liftExn (x.mapError .foreign)

/-- Run `x` and hand its outcome on. -/
def outcomeOf {α : Type} (x : Py α) : Py (Except Exn α) :=
  tryCatch (do let a ← x; pure (.ok a)) fun e => pure (.error e)

/-- `try: x; except Exception as e: h(e)`. -/
def exceptException {α : Type} (x : Py α) (h : Exn → Py α) : Py α :=
  tryCatch x fun e => if e.isException then h e else throw e

/-- `try: x; finally: y`, for a `y` that cannot raise. -/
def finallyDo {α : Type} (x : Py α) (y : Eff) : Py α := do
  let r ← outcomeOf x
  let _ ← await y
  liftExn r

/-- `async with session_factory()`: the session is closed either way. -/
def withSession {α : Type} (x : Py α) : Py α := finallyDo x .close

/-! ## what awaits do -/

/-- Answers the environment is free to choose. -/
structure Hint where
  uuid : Uuid := 0
  flag : Bool := false
  trimmed : Nat := 0
  capacity : ClusterCapacity := ⟨0, 0, 0⟩
  voice : Option Voice := none
  keyBits : Option Nat := none
  path : PyStr := []
  pcm : Pcm := []
  sampleRate : Nat := 0
  run : SynthRun := ⟨[], none⟩
  uri : Option PyStr := none

/-- How an await goes. -/
inductive Oracle where
  | goes (h : Hint)
  | raises (x : Foreign)
  | lost (x : Foreign) (h : Hint)

/-- `NEUROVOICE_JOBS` stream bound. -/
def defaultMaxlen : Nat := 10000

/-- The await's effect and its answer, when it is answered.  `none`: it
cannot be answered now. -/
def perform (p : Nat) (e : Eff) (h : Hint) (w : World) :
    Option (Except Foreign (Ret e) × World) :=
  match e with
  | .clock => some (.ok w.now, w)
  | .uuid4 => some (.ok h.uuid, w)
  | .stopSet => some (.ok h.flag, w)
  | .sleep | .enterJob _ | .leaveJob _ | .handled _ | .wsSend _ => some (.ok (), w)
  | .xgroupCreate =>
      if w.jobs.group then some (.error (.responseError true), w)
      else some (.ok (), { w with jobs := { w.jobs with group := true } })
  | .xaddJob job =>
      match w.jobs.add w.nextId job.encode defaultMaxlen h.trimmed with
      | some jobs => some (.ok (), { w with jobs, nextId := w.nextId + 1 })
      | none => none
  | .xlen => some (.ok w.jobs.entries.length, w)
  | .xinfoGroups =>
      let lag := (w.jobs.entries.filter fun e => w.jobs.lastDelivered < e.1).length
      some (.ok (if w.jobs.group then
        some (w.jobs.pel.length, if h.flag then some lag else none) else none), w)
  | .xreadgroup consumer =>
      match w.jobs.next? with
      | some (id, f) =>
          some (.ok (some (id, f)), { w with jobs := w.jobs.deliver w.now consumer id })
      | none => some (.ok none, w)
  | .xautoclaim consumer minIdle =>
      let (jobs, got) := w.jobs.claim w.now minIdle consumer
      some (.ok got, { w with jobs })
  | .xpendingRange entry => some (.ok ((w.jobs.pending? entry).map PelRow.times), w)
  | .xack entry => some (.ok (), { w with jobs := w.jobs.ack entry })
  | .xaddDlq d =>
      if d.encodable then some (.ok (), { w with dlq := w.dlq ++ [d], nextId := w.nextId + 1 })
      else some (.error .dataError, w)
  | .clusterCapacity => some (.ok h.capacity, w)
  | .delResults rid => some (.ok (), { w with results := Function.update w.results rid {} })
  | .xaddResult r =>
      if r.encodable then
        let s := w.results r.requestId
        some (.ok (), { w with
          results := Function.update w.results r.requestId
            { s with entries := s.entries ++ [(w.nextId, r)] }
          nextId := w.nextId + 1 })
      else some (.error .unicodeError, w)
  | .expireResults rid ttl =>
      let s := w.results rid
      some (.ok (), { w with
        results := Function.update w.results rid { s with expiresAt := some (w.now + ttl) } })
  | .xreadResults rid lastId =>
      some (.ok (((w.results rid).entries.filter fun e => lastId < e.1).take 64), w)
  | .selectVoice _ _ => some (.ok h.voice, w)
  | .selectWatermarkKey _ => some (.ok h.keyBits, w)
  | .selectConsent _ => some (.ok h.flag, w)
  | .selectIdem _ tenant rid => some (.ok (w.lookupIdem p tenant rid), w)
  | .insertIdem tenant rid apiKey requestHash ttl =>
      if w.idem.free p rid then
        let row : JobIdempotency :=
          { tenantId := tenant, apiKeyId := apiKey, requestHash, status := .processing,
            createdAt := w.now, expiresAt := w.now + ttl }
        if (w.idem.read p rid).isSome ∨ ¬w.tenants tenant ∨ ¬w.apiKeys apiKey then
          some (.error .integrityError, w.rollback p)
        else some (.ok row, { w with idem := w.idem.put p rid (some row) })
      else none
  | .updateIdem rid patch =>
      if w.idem.free p rid then
        match w.idem.read p rid with
        | some row => some (.ok (), { w with idem := w.idem.put p rid (some (patch.apply row)) })
        | none => some (.error .staleDataError, w.rollback p)
      else none
  | .deleteIdem tenant rid =>
      if w.idem.free p rid then
        match w.idem.read p rid with
        | some row =>
            if row.tenantId = tenant then
              some (.ok 1, { w with idem := w.idem.put p rid none })
            else some (.ok 0, w)
        | none => some (.ok 0, w)
      else none
  | .selectUsage tenant rid =>
      some (.ok ((w.usage.read p rid).filter fun u => u.tenantId = tenant), w)
  | .insertUsage rid u =>
      if w.usage.free p rid then
        if ¬u.insertable then some (.error .dataError, w.rollback p)
        else if (w.usage.read p rid).isSome ∨ ¬w.tenants u.tenantId ∨ ¬w.apiKeys u.apiKeyId then
          some (.error .integrityError, w.rollback p)
        else some (.ok (), { w with usage := w.usage.put p rid (some u) })
      else none
  | .insertAudit _ => some (.ok (), w)
  | .commit => some (.ok (), w.commit p)
  | .rollback | .close => some (.ok (), w.rollback p)
  | .resolveReference _ => some (.ok h.path, w)
  | .loadApplier | .applierAvailable => some (.ok h.flag, w)
  | .watermarkPcm _ _ _ => some (.ok h.pcm, w)
  | .engineSampleRate => some (.ok h.sampleRate, w)
  | .synthesize _ => some (.ok h.run, w)
  | .archive _ _ _ => some (.ok h.uri, w)

namespace Eff

/-- The await can fail on its own: it leaves the process. -/
def fallible : Eff → Bool
  | .clock | .uuid4 | .stopSet | .sleep | .enterJob _ | .leaveJob _ | .handled _ | .rollback
  | .close => false
  | _ => true

/-- A statement of the process's transaction. -/
def isSql : Eff → Bool
  | .selectVoice _ _ | .selectWatermarkKey _ | .selectConsent _ | .selectIdem _ _ _
  | .insertIdem _ _ _ _ _ | .updateIdem _ _ | .deleteIdem _ _ | .selectUsage _ _
  | .insertUsage _ _ | .insertAudit _ | .commit => true
  | _ => false

/-- It can have happened although its reply was lost.  A statement whose
reply is lost loses its connection, and so its transaction; a commit does
not. -/
def losable : Eff → Bool
  | .xaddJob _ | .xreadgroup _ | .xautoclaim _ _ | .xack _ | .xaddDlq _ | .delResults _
  | .xaddResult _ | .expireResults _ _ | .commit => true
  | _ => false

end Eff

/-- The exceptions an await raises on its own; the other two are what the
tables say (`perform`). -/
def Foreign.isFault : Foreign → Bool
  | .integrityError | .staleDataError => false
  | _ => true

/-- Perform an await. -/
def exec (p : Nat) (e : Eff) (o : Oracle) (w : World) : Option (Ans e × World) :=
  match o with
  | .goes h =>
      match perform p e h w with
      | some (.ok a, w') => some (.ok a, w')
      | some (.error x, w') => some (.error (.foreign x), w')
      | none => none
  | .raises x =>
      if e.fallible ∧ x.isFault then
        some (.error (.foreign x), if e.isSql then w.rollback p else w)
      else none
  | .lost x h =>
      if e.losable ∧ x.isFault then
        match perform p e h w with
        | some (_, w') => some (.error (.foreign x), w')
        | none => none
      else none

end NeuroVoice
