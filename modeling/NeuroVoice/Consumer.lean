import NeuroVoice.Pipeline

/-!
# NeuroVoice.Consumer

`worker/consumer.py`: what a worker does with one delivery, and its loop.

The three marks `enterJob`, `leaveJob` and `handled` stand where the source
calls `process_one_job`, where that call is over, and where `_handle_one` is
over; they do nothing.
-/

namespace NeuroVoice

namespace WorkerConsumer

/-- `_ack`: only a `ResponseError` is swallowed. -/
def ack (entry : Nat) : Py Unit := do
  match ← outcomeOf (await (.xack entry)) with
  | .ok _ => pure ()
  | .error (.foreign (.responseError _)) => pure ()
  | .error e => throw e

/-- `int(rows[0].get("times_delivered") or 1)`, or 1 without a row. -/
def countOf : Option Nat → Nat
  | some (n + 1) => n + 1
  | _ => 1

/-- `_delivery_count`: 1 when Redis does not say. -/
def deliveryCount (entry : Nat) : Py Nat :=
  exceptException (do return countOf (← await (.xpendingRange entry))) fun _ => pure 1

/-- `_send_job_to_dlq`. -/
def sendJobToDlq (S : Settings) (entry : Nat) (fields : EntryFields) (job : TtsJobPayload)
    (reason error : String) (deliveryCount : Nat) : Py Unit :=
  await (.xaddDlq { entryId := entry, job := some (job.requestId, job.tenantId, job.voiceId)
                    reason, error, deliveryCount, consumer := S.consumerName
                    payload := fields })

/-- `_send_raw_to_dlq`. -/
def sendRawToDlq (S : Settings) (entry : Nat) (fields : EntryFields) (reason error : String)
    (deliveryCount : Nat) : Py Unit :=
  await (.xaddDlq { entryId := entry, job := none, reason, error, deliveryCount
                    consumer := S.consumerName, payload := fields })

/-- `_maybe_dlq_and_ack`: once the budget is spent, fail the job for good. -/
def maybeDlqAndAck (S : Settings) (entry : Nat) (fields : EntryFields) (job : TtsJobPayload)
    (reason error : String) : Py Bool := do
  let n ← deliveryCount entry
  if n < S.maxRetries then return false
  markTerminalFailure S job n { errorCode := reason, message := reason ++ ": " ++ error }
  sendJobToDlq S entry fields job reason error n
  ack entry
  return true

/-- The malformed branch of `_handle_one`: archive, then drain. -/
def handleMalformed (S : Settings) (entry : Nat) (fields : EntryFields) (error : Foreign) :
    Py Unit := do
  let n ← deliveryCount entry
  sendRawToDlq S entry fields "malformed_payload" error.text n
  ack entry

/-- The poison branch: the pipeline has failed the job already, and a
dead-letter entry that cannot be written does not keep it alive. -/
def handlePoison (S : Settings) (entry : Nat) (fields : EntryFields) (job : TtsJobPayload)
    (error : String) (attempt : Nat) : Py Unit := do
  exceptException (sendJobToDlq S entry fields job "poison" error attempt) fun _ => pure ()
  ack entry

/-- What follows `process_one_job`. -/
def settle (S : Settings) (entry : Nat) (fields : EntryFields) (job : TtsJobPayload)
    (attempt : Nat) : Except Exn Unit → Py Unit
  | .ok _ => ack entry
  | .error (.poisonJob error) => handlePoison S entry fields job error attempt
  | .error (.transientFailure error) => do
      let _ ← maybeDlqAndAck S entry fields job "transient_max_retries" error
  | .error e =>
      if e.isException then do
        let _ ← maybeDlqAndAck S entry fields job "unknown_exception" e.text
      else throw e

/-- `worker_pickup_ms`: not guarded, so a value `int` rejects raises here. -/
def workerPickup (job : TtsJobPayload) : Py (Option Nat) := do
  if job.enqueuedAtMs.isNull then return none
  let now ← await .clock
  return some (← liftPy (waitedMs job.enqueuedAtMs now))

/-- The call of `process_one_job`, between its marks. -/
def runJob (S : Settings) (entry : Nat) (job : TtsJobPayload) (pickup : Option Nat)
    (attempt : Nat) : Py (Except Exn Unit) := do
  await (.enterJob entry)
  let r ← outcomeOf (processOneJob S job pickup attempt)
  await (.leaveJob entry)
  return r

/-- The decoded branch of `_handle_one`. -/
def handleJob (S : Settings) (entry : Nat) (fields : EntryFields) (job : TtsJobPayload) :
    Py Unit := do
  let pickup ← workerPickup job
  let attempt ← exceptException (deliveryCount entry) fun _ => pure 0
  let r ← runJob S entry job pickup attempt
  settle S entry fields job attempt r

/-- `_handle_one`. -/
def handleOne (S : Settings) (entry : Nat) (fields : EntryFields) : Py Unit :=
  finallyDo
    (match TtsJobPayload.decode fields with
     | .error e => handleMalformed S entry fields e
     | .ok job => handleJob S entry fields job)
    (.handled entry)

/-! ## the loop -/

/-- `ensure_consumer_group`: `BUSYGROUP` is the success path. -/
def ensureConsumerGroup : Py Unit := do
  match ← outcomeOf (await .xgroupCreate) with
  | .ok _ => pure ()
  | .error (.foreign (.responseError true)) => pure ()
  | .error e => throw e

/-- `_tick`: at most one new entry. -/
def tick (S : Settings) : Py Bool := do
  match ← outcomeOf (await (.xreadgroup S.consumerName)) with
  | .error (.foreign (.responseError _)) => do
      await .sleep
      return false
  | .error e => throw e
  | .ok none => return false
  | .ok (some (entry, fields)) => do
      handleOne S entry fields
      return true

/-- `_xautoclaim_sweep`: at most one stale entry. -/
def xautoclaimSweep (S : Settings) : Py Unit := do
  match ← outcomeOf (await (.xautoclaim S.consumerName S.xautoclaimMinIdleMs)) with
  | .error (.foreign (.responseError _)) => pure ()
  | .error e => throw e
  | .ok none => pure ()
  | .ok (some (entry, fields)) => handleOne S entry fields

/-- The guarded tick of the loop. -/
def guardedTick (S : Settings) : Py Bool := exceptException (tick S) fun _ => pure false

/-- The sweep of one turn, when it is due: it is not guarded. -/
def sweepIfDue (S : Settings) (handled : Bool) (lastSweepAt : Nat) : Py Nat := do
  let now ← await .clock
  if !handled || lastSweepAt + S.xautoclaimPeriodMs ≤ now then do
    xautoclaimSweep S
    await .clock
  else return lastSweepAt

/-- The `while` loop, for at most `n` turns. -/
def loop (S : Settings) : Nat → Nat → Py Unit
  | n, lastSweepAt => do
      if ← await .stopSet then return ()
      match n with
      | 0 => return ()
      | n + 1 => do
          let handled ← guardedTick S
          if ← await .stopSet then return ()
          let lastSweepAt ← sweepIfDue S handled lastSweepAt
          if !handled then await .sleep
          loop S n lastSweepAt

/-- `run(max_iterations=n)`. -/
def run (S : Settings) (n : Nat) : Py Unit := do
  ensureConsumerGroup
  let now ← await .clock
  loop S n now

end WorkerConsumer

end NeuroVoice
