import NeuroVoice.System

/-!
# NeuroVoice.Protocol

What the programs of `NeuroVoice.System` are allowed to do, without their
text.

A `Track` is what an observer of one process knows about it: the delivery in
hand, what has happened to it, and where the process stands with its
transaction or its reservation (`Stage`).  `Track.next` moves it with every
await, and `track` (`NeuroVoice.Run`) computes it from a run.  `Allows` is
the discipline every program keeps; `sysProtocol` is both together.

That the programs keep the discipline is proved in `NeuroVoice.Discipline`;
every result about runs rests on the discipline alone.
-/

namespace NeuroVoice

/-- Where a process stands with its transaction or its reservation.  `row`
is what the lookup of `complete` or `fail` returned, `wrote` whether its
`UPDATE` was sent. -/
inductive Stage where
  | none
  /-- `complete` has looked up its row. -/
  | completing (rid : Uuid) (row : Option JobIdempotency) (wrote : Bool)
  /-- … and the `ok` usage row is inserted. -/
  | billed (rid : Uuid) (row : Option JobIdempotency) (wrote : Bool)
  /-- An error chunk is on the result stream. -/
  | erred (rid : Uuid)
  /-- `fail` has looked up its row. -/
  | failing (rid : Uuid) (row : Option JobIdempotency) (wrote : Bool)
  /-- … and there is no usage row. -/
  | unbilled (rid : Uuid) (row : Option JobIdempotency) (wrote : Bool)
  /-- … and there is one, found or inserted. -/
  | recorded (rid : Uuid) (row : Option JobIdempotency) (wrote : Bool)
  /-- The reservation is inserted. -/
  | inserted (tenant rid : Uuid)
  /-- `reserve_or_get` found a reservation. -/
  | found (tenant rid : Uuid)
  /-- The reservation is committed. -/
  | reserved (tenant rid : Uuid)
  /-- `queue.submit` raised. -/
  | refused (tenant rid : Uuid)
  /-- The reservation is deleted. -/
  | deleting (tenant rid : Uuid)
  /-- The job was submitted, or the deletion is committed. -/
  | over
  deriving DecidableEq

/-- How the transaction a delivery committed ended the job. -/
inductive JobEnd where
  | completed (rid : Uuid) (row : Option JobIdempotency)
  | failed (rid : Uuid) (row : Option JobIdempotency)
  deriving DecidableEq

/-- What is known about one process. -/
structure Track where
  /-- A WebSocket connection. -/
  ws : Bool := false
  /-- The delivery in hand. -/
  held : Option (Nat × EntryFields) := none
  /-- `process_one_job` was called for it. -/
  started : Bool := false
  /-- `process_one_job` is over. -/
  left : Bool := false
  /-- `times_delivered`, as read after that. -/
  count : Option Nat := none
  /-- Its raw payload is on the dead-letter stream. -/
  archived : Bool := false
  /-- Its job is on the dead-letter stream. -/
  dlqed : Bool := false
  acked : Bool := false
  /-- An await raised after `process_one_job`, or the process was
  cancelled. -/
  troubled : Bool := false
  ended : Option JobEnd := none
  stage : Stage := .none

/-! ## how a process moves -/

namespace Stage

/-- The session drops its transaction. -/
def dropped : Stage → Stage
  | .found t r => .found t r
  | .reserved t r => .reserved t r
  | .refused t r => .refused t r
  | .over => .over
  | _ => .none

/-- The `UPDATE` was sent. -/
def updated : Stage → Stage
  | .completing r row _ => .completing r row true
  | .failing r row _ => .failing r row true
  | s => s

/-- The usage row was looked up. -/
def usageSeen (found : Bool) : Stage → Stage
  | .failing r row w => if found then .recorded r row w else .unbilled r row w
  | s => s

/-- A usage row was inserted. -/
def usageAdded : Stage → Stage
  | .completing r row w => .billed r row w
  | .unbilled r row w => .recorded r row w
  | s => s

/-- The transaction was committed. -/
def committed : Stage → Stage
  | .billed _ _ _ | .recorded _ _ _ => .none
  | .inserted t r => .reserved t r
  | .deleting _ _ => .over
  | s => s

/-- How the committed transaction ends the job. -/
def jobEnd : Stage → Option JobEnd
  | .billed r row _ => some (.completed r row)
  | .recorded r row _ => some (.failed r row)
  | _ => Option.none

/-- A lookup of `job_idempotency` was answered. -/
def lookedUp (site : Site) (tenant rid : Uuid) (row : Option JobIdempotency) (s : Stage) :
    Stage :=
  match site with
  | .complete => .completing rid row false
  | .fail => .failing rid row false
  | .reserve | .reread => if row.isSome then .found tenant rid else s
  | .upfront | .poll => s

/-- An await raised. -/
def raised (s : Stage) (e : Eff) : Stage :=
  match e, s with
  | .xaddJob _, .reserved t r => .refused t r
  | .xaddJob _, .found t r => .refused t r
  | _, .erred _ => .none
  | _, s => if e.isSql then .none else s

end Stage

namespace Track

/-- A new delivery: everything about the previous one is forgotten. -/
def deliver (s : Track) : Option (Nat × EntryFields) → Track
  | some d => { held := some d, ws := s.ws }
  | none => s

/-- An await was answered. -/
def onOk (s : Track) : (e : Eff) → Ret e → Track
  | .enterJob _, _ => { s with started := true }
  | .leaveJob _, _ => { s with left := true }
  | .handled _, _ => { ws := s.ws }
  | .xreadgroup _, d => s.deliver d
  | .xautoclaim _ _, d => s.deliver d
  | .xpendingRange _, n =>
      if s.left then { s with count := some (WorkerConsumer.countOf n) } else s
  | .xack _, _ => { s with acked := true }
  | .xaddDlq d, _ => if d.job.isSome then { s with dlqed := true } else { s with archived := true }
  | .xaddJob _, _ => { s with stage := .over }
  | .xaddResult r, _ => if r.error.isSome then { s with stage := .erred r.requestId } else s
  | .selectIdem site t rid, row => { s with stage := s.stage.lookedUp site t rid row }
  | .insertIdem t rid _ _ _, _ => { s with stage := .inserted t rid }
  | .updateIdem _ _, _ => { s with stage := s.stage.updated }
  | .deleteIdem t rid, _ => { s with stage := .deleting t rid }
  | .selectUsage _ _, u => { s with stage := s.stage.usageSeen u.isSome }
  | .insertUsage _ _, _ => { s with stage := s.stage.usageAdded }
  | .commit, _ => { s with ended := s.stage.jobEnd.or s.ended, stage := s.stage.committed }
  | .rollback, _ => { s with stage := s.stage.dropped }
  | .close, _ => { s with stage := s.stage.dropped }
  | .synthesize _, run =>
      if run.ending.all Foreign.isException then s else { s with troubled := true }
  | _, _ => s

/-- An await raised. -/
def onError (s : Track) (e : Eff) (x : Exn) : Track :=
  { s with
    troubled := s.troubled || s.left || !x.isException
    stage := s.stage.raised e }

/-- An await is over. -/
def next (s : Track) (e : Eff) (a : Ans e) : Track :=
  match a with
  | .ok b => s.onOk e b
  | .error x => s.onError e x

/-- The job in hand. -/
def job (s : Track) : Option TtsJobPayload :=
  match s.held with
  | some (_, f) => (TtsJobPayload.decode f).toOption
  | none => none

/-- Its identifiers. -/
def ids (s : Track) : Option JobIds := s.job.bind fun j => j.ids.toOption

/-- The delivery is settled: it may be acknowledged. -/
def settled (s : Track) : Bool := s.archived || s.ended.isSome

end Track

/-- The same, at another stage. -/
def Track.withStage (s : Track) (st : Stage) : Track := { s with stage := st }

@[simp] theorem Track.withStage_stage (s : Track) (st : Stage) : (s.withStage st).stage = st :=
  rfl

@[simp] theorem Track.withStage_job (s : Track) (st : Stage) : (s.withStage st).job = s.job :=
  rfl

@[simp] theorem Track.withStage_ids (s : Track) (st : Stage) : (s.withStage st).ids = s.ids :=
  rfl

/-! ## the discipline -/

namespace Stage

/-- The `UPDATE` that `complete` or `fail` must send was sent, or there is
none to send. -/
def flushed : Stage → Bool
  | .completing _ row wrote =>
      wrote || row.all fun r => r.status = .complete ∧ r.responseUri.isSome
  | .failing _ row wrote => wrote || row.all fun r => r.status = .failed
  | _ => false

/-- The transaction may be committed. -/
def committable : Stage → Bool
  | .completing _ _ _ | .failing _ _ _ | .unbilled _ _ _ | .erred _ => false
  | _ => true

end Stage

/-- What a patch must change to complete a row. -/
def IdemPatch.completes (p : IdemPatch) (row : JobIdempotency) : Bool :=
  (row.status = .complete || p.status = some .complete) &&
    (row.responseUri.isSome || p.responseUri.isSome) && p.status ≠ some .failed &&
    p.status ≠ some .processing

/-- What `_handle_one` leaves behind: it never called `process_one_job`, or
something went wrong, or the entry is acknowledged, or its budget is not
spent. -/
def Track.Handled (maxRetries : Nat) (s : Track) : Prop :=
  s.started = false ∨ s.troubled = true ∨
    (s.acked = true ∧ (s.dlqed = true ∨ ∃ rid row, s.ended = some (.completed rid row))) ∨
    (∃ n, s.count = some n ∧ n < maxRetries) ∨
    ∃ j, s.job = some j ∧ (s.ids = none ∨ ∃ x, j.text.len = .error x)

/-- The await is allowed. -/
def Allows (maxRetries : Nat) (s : Track) : Eff → Prop
  | .enterJob e =>
      (∃ f j, s.held = some (e, f) ∧ TtsJobPayload.decode f = .ok j) ∧ s.started = false ∧
        s.ended = none
  | .leaveJob _ => s.started = true ∧ s.stage = .none
  | .handled e =>
      (∃ f, s.held = some (e, f)) ∧ s.stage = .none ∧ s.Handled maxRetries
  | .xreadgroup _ | .xautoclaim _ _ => s.held = none ∧ s.stage = .none
  | .xack e => (∃ f, s.held = some (e, f)) ∧ s.settled = true
  | .xaddDlq d =>
      ∃ f, s.held = some (d.entryId, f) ∧ d.payload = f ∧ (d.job.isSome ↔ s.job.isSome)
  | .xaddJob j =>
      ∃ t rid, (s.stage = .reserved t rid ∨ s.stage = .found t rid) ∧
        j.requestId = .str (uuidStr rid) ∧ j.tenantId = .str (uuidStr t)
  | .xaddResult r =>
      s.stage = .none ∧ (∃ i, s.ids = some i ∧ i.rid = r.requestId) ∧
        (r.final = true → s.left = false ∧ ∃ row, s.ended = some (.completed r.requestId row))
  | .selectIdem .complete t rid =>
      s.stage = .none ∧ s.ended = none ∧ s.started = true ∧ s.left = false ∧
        ∃ i, s.ids = some i ∧ i.tenant = t ∧ i.rid = rid
  | .selectIdem .fail t rid =>
      s.stage = .erred rid ∧ ∃ i, s.ids = some i ∧ i.tenant = t ∧ i.rid = rid
  | .selectIdem _ _ _ => s.stage = .none
  | .insertIdem _ _ _ _ _ =>
      s.held = none ∧ (s.stage = .none ∨ s.stage = .over ∨
        s.ws = true ∧ ∃ t rid, s.stage = .refused t rid)
  | .updateIdem rid patch =>
      (∃ row, s.stage = .completing rid (some row) false ∧ patch.completes row = true) ∨
        ∃ row, s.stage = .failing rid (some row) false ∧ patch = { status := some .failed }
  | .deleteIdem t rid => s.stage = .refused t rid
  | .selectUsage _ rid =>
      s.stage = .none ∨ ∃ row w, s.stage = .failing rid row w ∧ s.stage.flushed = true
  | .insertUsage rid u =>
      (u.status = .ok ∧ ∃ row w, s.stage = .completing rid row w ∧ s.stage.flushed = true) ∨
        (u.status = .error ∧ ∃ row w, s.stage = .unbilled rid row w)
  | .commit => s.stage.committable = true
  | _ => True

/-- Awaits that cannot fail are answered, and no await raises one of the
source's own exceptions. -/
def Possible (e : Eff) (a : Ans e) : Prop :=
  match a with
  | .ok _ => True
  | .error x => e.fallible = true ∧ ∃ f, x = .foreign f

/-- Nothing of the reservation is left to do, or it is abandoned. -/
def Stage.finished (abandoned : Bool) : Stage → Bool
  | .none | .found _ _ | .over => true
  | .refused _ _ => abandoned
  | _ => false

/-- A call may end: nothing is left to do.  A WebSocket abandons a
reservation it could not submit, and so does a call that is cancelled. -/
def Track.CanStop (s : Track) : Prop :=
  s.held = none ∧ s.stage.finished (s.ws || s.troubled) = true

/-- A call that has just been started. -/
def Call.track : Call → Track
  | .streamInput _ _ _ _ _ => { ws := true }
  | _ => {}

/-- The protocol of the deployment. -/
def sysProtocol (S : Settings) : Protocol Eff Ans Call Outcome Track where
  possible := Possible
  allows := Allows S.maxRetries
  next := Track.next
  init := Call.track
  fin s _ := s.CanStop

end NeuroVoice
