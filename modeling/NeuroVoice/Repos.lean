import NeuroVoice.World

/-!
# NeuroVoice.Repos

`repos/idempotency.py` and the part of `repos/usage.py` the request path
uses, as programs over one session.
-/

namespace NeuroVoice

namespace IdempotencyRepo

/-- `DEFAULT_TTL`: 24 hours, in milliseconds. -/
def defaultTtl : Nat := 86400000

/-- `get`: the unexpired row of this tenant. -/
def get (site : Site) (tenant rid : Uuid) : Py (Option JobIdempotency) :=
  await (.selectIdem site tenant rid)

/-- `ttl or self.DEFAULT_TTL`. -/
def ttlOr : Option Nat → Nat
  | some (n + 1) => n + 1
  | _ => defaultTtl

/-- `reserve`: insert a fresh row. -/
def reserve (tenant rid apiKey : Uuid) (requestHash : PyStr) (ttl : Option Nat) :
    Py JobIdempotency :=
  await (.insertIdem tenant rid apiKey requestHash (ttlOr ttl))

/-- A row met under the key: replayed when the body is the same. -/
def replay (rid : Uuid) (requestHash : PyStr) (row : JobIdempotency) :
    Py (JobIdempotency × Bool) :=
  if row.requestHash ≠ requestHash then throw (.idempotencyConflict rid row)
  else pure (row, false)

/-- The handler of a lost race: the insert met the winner's row. -/
def reread (tenant rid apiKey : Uuid) (requestHash : PyStr) (ttl : Option Nat) :
    Py (JobIdempotency × Bool) := do
  let _ ← await .rollback
  match ← get .reread tenant rid with
  | none => do
      let row ← reserve tenant rid apiKey requestHash ttl
      pure (row, true)
  | some winner => replay rid requestHash winner

/-- `reserve_or_get`: the row, and whether this call inserted it. -/
def reserveOrGet (tenant rid apiKey : Uuid) (requestHash : PyStr) (ttl : Option Nat) :
    Py (JobIdempotency × Bool) := do
  match ← get .reserve tenant rid with
  | some row => replay rid requestHash row
  | none =>
      match ← outcomeOf (reserve tenant rid apiKey requestHash ttl) with
      | .ok row => pure (row, true)
      | .error (.foreign .integrityError) => reread tenant rid apiKey requestHash ttl
      | .error e => throw e

/-- `delete`: how many rows were removed. -/
def delete (tenant rid : Uuid) : Py Nat := await (.deleteIdem tenant rid)

/-- The ORM's flush of a loaded row: an `UPDATE` of the changed columns. -/
def flush (rid : Uuid) (patch : IdemPatch) : Py Unit :=
  if patch.isEmpty then pure () else await (.updateIdem rid patch)

/-- What `complete` changes on the loaded row. -/
def completePatch (row : JobIdempotency) (responseUri : Option PyStr)
    (alignment : Option (List SentenceAlignment)) : IdemPatch where
  status := if row.status = .complete then none else some .complete
  responseUri := if responseUri = row.responseUri then none else responseUri
  sentenceAlignment := if alignment = row.sentenceAlignment then none else alignment

/-- `complete`: nothing happens when the lookup finds no row. -/
def complete (tenant rid : Uuid) (responseUri : Option PyStr)
    (alignment : Option (List SentenceAlignment)) : Py Unit := do
  match ← get .complete tenant rid with
  | none => pure ()
  | some row => flush rid (completePatch row responseUri alignment)

/-- What `fail` changes on the loaded row. -/
def failPatch (row : JobIdempotency) : IdemPatch where
  status := if row.status = .failed then none else some .failed

/-- `fail`: nothing happens when the lookup finds no row. -/
def fail (tenant rid : Uuid) : Py Unit := do
  match ← get .fail tenant rid with
  | none => pure ()
  | some row => flush rid (failPatch row)

end IdempotencyRepo

namespace UsageRepo

/-- The `usage_records` row of a request, for its tenant. -/
def find (tenant rid : Uuid) : Py (Option UsageRecord) := await (.selectUsage tenant rid)

/-- `record`: `request_id` is unique. -/
def record (rid : Uuid) (u : UsageRecord) : Py Unit := await (.insertUsage rid u)

end UsageRepo

end NeuroVoice
