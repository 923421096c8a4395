import NeuroVoice.Run

/-!
# NeuroVoice.Tenancy

What one tenant can learn of the others through `IdempotencyRepo`.

Every query of the repository is filtered by tenant, but `request_id` alone
is the primary key.  `TenantView` is the table as one tenant sees it: its own
rows, and which keys are taken by somebody else.  The repository's calls
refine its operations (`IdemCall.refines`), and of the taken keys only an
insert can tell (`tenant_isolation`).
-/

namespace NeuroVoice

/-- A call through an `IdempotencyRepo`, or its session's owner acting
between two calls. -/
inductive IdemCall where
  | get (rid : Uuid)
  | reserveOrGet (rid apiKey : Uuid) (requestHash : PyStr) (ttl : Option Nat)
  | complete (rid : Uuid) (responseUri : Option PyStr)
      (alignment : Option (List SentenceAlignment))
  | fail (rid : Uuid)
  | delete (rid : Uuid)
  | commit
  | rollback
  /-- Time passes. -/
  | wait (ms : Nat)

/-- The call sends a statement. -/
def IdemCall.needsActive : IdemCall → Bool
  | .rollback | .wait _ => false
  | _ => true

/-- What a call returns. -/
inductive IdemReturn where
  | row (r : Option JobIdempotency)
  | reserved (r : JobIdempotency) (new : Bool)
  | count (n : Nat)
  | unit
  deriving DecidableEq

/-- The program of a call for tenant `B`. -/
def IdemCall.program (B : Uuid) : IdemCall → Py IdemReturn
  | .get rid => do return .row (← IdempotencyRepo.get .upfront B rid)
  | .reserveOrGet rid apiKey hash ttl => do
      let (row, new) ← IdempotencyRepo.reserveOrGet B rid apiKey hash ttl
      return .reserved row new
  | .complete rid uri alignment => do
      IdempotencyRepo.complete B rid uri alignment
      return .unit
  | .fail rid => do
      IdempotencyRepo.fail B rid
      return .unit
  | .delete rid => do return .count (← IdempotencyRepo.delete B rid)
  | .commit => do
      let _ ← await .commit
      return .unit
  | .rollback => do
      let _ ← await .rollback
      return .unit
  | .wait _ => return .unit

/-! ## a session nobody else interferes with -/

/-- A session of the ORM and its database.  After a flush that failed it is
not active: its transaction has been rolled back, and it answers nothing until
its owner rolls back as well. -/
structure AsyncSession where
  world : World
  isActive : Bool := true

/-- A statement that a flush sends. -/
def Eff.flushed : Eff → Bool
  | .insertIdem _ _ _ _ _ | .updateIdem _ _ | .insertUsage _ _ => true
  | _ => false

/-- It ends the transaction, whatever has become of it. -/
def Eff.rollsBack : Eff → Bool
  | .rollback | .close => true
  | _ => false

/-- What a statement on an inactive session raises. -/
def pendingRollbackError : Exn := .foreign (.other "PendingRollbackError")

/-- Perform an await on session `p`. -/
def AsyncSession.exec (p : Nat) (e : Eff) (s : AsyncSession) : Option (Ans e × AsyncSession) :=
  if !s.isActive && e.isSql then some (.error pendingRollbackError, s)
  else
    match NeuroVoice.exec p e (.goes {}) s.world with
    | some (.ok a, w) => some (.ok a, { world := w, isActive := s.isActive || e.rollsBack })
    | some (.error x, w) => some (.error x, { world := w, isActive := s.isActive && !e.flushed })
    | none => none

/-- Run `x` on session `p` with nobody else around, every await answered. -/
def Py.alone {α : Type} (p : Nat) (x : Py α) (s : AsyncSession) :
    Option (Except Exn α × AsyncSession) :=
  x.run.alone (fun e => AsyncSession.exec p e) s

/-- Perform a call on session `p`. -/
def IdemCall.perform (B : Uuid) (p : Nat) (c : IdemCall) (s : AsyncSession) :
    Option (Except Exn IdemReturn × AsyncSession) :=
  match c with
  | .wait ms => some (.ok .unit, { s with world := s.world.tick ms })
  | c => (c.program B).alone p s

/-- The rows of tenant `B` among `rows`. -/
def rowsOf (B : Uuid) (rows : Uuid → Option JobIdempotency) (k : Uuid) :
    Option JobIdempotency :=
  (rows k).filter fun row => row.tenantId = B

/-- The key belongs to a row of another tenant. -/
def takenBy (B : Uuid) (rows : Uuid → Option JobIdempotency) (k : Uuid) : Bool :=
  (rows k).any fun row => row.tenantId ≠ B

/-! ## the table as one tenant sees it -/

/-- What tenant `B` has to do with. -/
structure TenantView where
  now : Nat
  /-- The tenant exists. -/
  exists? : Bool
  apiKeys : Uuid → Bool
  /-- Its rows, as its session sees them. -/
  seen : Uuid → Option JobIdempotency
  /-- Its committed rows. -/
  kept : Uuid → Option JobIdempotency
  /-- The keys of rows of other tenants. -/
  taken : Uuid → Bool
  /-- Its session does not wait for a rollback. -/
  isActive : Bool

namespace TenantView

/-- The unexpired row. -/
def lookup (v : TenantView) (k : Uuid) : Option JobIdempotency :=
  (v.seen k).filter fun row => v.now < row.expiresAt

def rollback (v : TenantView) : TenantView := { v with seen := v.kept, isActive := true }

/-- After a flush that failed. -/
def refused (v : TenantView) : TenantView := { v with seen := v.kept, isActive := false }

def put (v : TenantView) (k : Uuid) (row : Option JobIdempotency) : TenantView :=
  { v with seen := Function.update v.seen k row }

/-- The insert meets a row, of whichever tenant, or misses a foreign key. -/
def refuses (v : TenantView) (k apiKey : Uuid) : Bool :=
  (v.seen k).isSome || v.taken k || !v.exists? || !v.apiKeys apiKey

/-- The row `reserve` inserts. -/
def fresh (v : TenantView) (B apiKey : Uuid) (hash : PyStr) (ttl : Option Nat) :
    JobIdempotency where
  tenantId := B
  apiKeyId := apiKey
  requestHash := hash
  status := .processing
  createdAt := v.now
  expiresAt := v.now + IdempotencyRepo.ttlOr ttl

/-- A row met under the key. -/
def replay (k : Uuid) (hash : PyStr) (row : JobIdempotency) : Except Exn (JobIdempotency × Bool) :=
  if row.requestHash ≠ hash then .error (.idempotencyConflict k row) else .ok (row, false)

/-- `reserve`. -/
def reserve (v : TenantView) (B k apiKey : Uuid) (hash : PyStr) (ttl : Option Nat) :
    Except Exn JobIdempotency × TenantView :=
  if v.refuses k apiKey then (.error (.foreign .integrityError), v.refused)
  else (.ok (v.fresh B apiKey hash ttl), v.put k (some (v.fresh B apiKey hash ttl)))

/-- `reserve_or_get`. -/
def reserveOrGet (v : TenantView) (B k apiKey : Uuid) (hash : PyStr) (ttl : Option Nat) :
    Except Exn (JobIdempotency × Bool) × TenantView :=
  match v.lookup k with
  | some row => (replay k hash row, v)
  | none =>
      match v.reserve B k apiKey hash ttl with
      | (.ok row, v') => (.ok (row, true), v')
      | (.error _, v') =>
          match v'.rollback.lookup k with
          | some row => (replay k hash row, v'.rollback)
          | none =>
              let (r, v'') := v'.rollback.reserve B k apiKey hash ttl
              (r.map fun row => (row, true), v'')

/-- An update of the unexpired row, if there is one. -/
def update (v : TenantView) (k : Uuid) (patch : JobIdempotency → IdemPatch) : TenantView :=
  match v.lookup k with
  | some row => v.put k (some ((patch row).apply row))
  | none => v

/-- The operation of a call on an active session. -/
def act (v : TenantView) (B : Uuid) : IdemCall → Except Exn IdemReturn × TenantView
  | .get k => (.ok (.row (v.lookup k)), v)
  | .reserveOrGet k apiKey hash ttl =>
      let (r, v') := v.reserveOrGet B k apiKey hash ttl
      (r.map fun (row, new) => .reserved row new, v')
  | .complete k uri alignment =>
      (.ok .unit, v.update k fun row => IdempotencyRepo.completePatch row uri alignment)
  | .fail k => (.ok .unit, v.update k IdempotencyRepo.failPatch)
  | .delete k =>
      if (v.seen k).isSome then (.ok (.count 1), v.put k none) else (.ok (.count 0), v)
  | .commit => (.ok .unit, { v with kept := v.seen })
  | .rollback => (.ok .unit, v.rollback)
  | .wait ms => (.ok .unit, { v with now := v.now + ms })

/-- The operation of a call. -/
def call (v : TenantView) (B : Uuid) (c : IdemCall) : Except Exn IdemReturn × TenantView :=
  if !v.isActive && c.needsActive then (.error pendingRollbackError, v) else v.act B c

end TenantView

/-- The view `v` is that of tenant `B`, whose session is `p`. -/
structure Views (B : Uuid) (p : Nat) (s : AsyncSession) (v : TenantView) : Prop where
  now : v.now = s.world.now
  exists_ : v.exists? = s.world.tenants B
  apiKeys : v.apiKeys = s.world.apiKeys
  free : ∀ k, s.world.idem.free p k = true
  seen : ∀ k, v.seen k = rowsOf B (s.world.idem.read p) k
  kept : ∀ k, v.kept k = rowsOf B s.world.idem.rows k
  taken : ∀ k, v.taken k = takenBy B (s.world.idem.read p) k ∧
    v.taken k = takenBy B s.world.idem.rows k
  isActive : v.isActive = s.isActive

/-! ## the calls refine its operations -/

section alone

variable {α β : Type} {p : Nat} {s s' : AsyncSession}

theorem alone_await (e : Eff) : (await e).alone p s = s.exec p e := by
  rw [Py.alone, show (await e).run = Prog.eff e Prog.ret from rfl, Prog.alone]
  cases s.exec p e <;> rfl

/-- A statement on an active session. -/
theorem alone_await_ok {e : Eff} {a : Ret e} {w : World} (hs : s.isActive = true)
    (h : exec p e (.goes {}) s.world = some (.ok a, w)) :
    (await e).alone p s = some (.ok a, { world := w }) := by
  rw [alone_await, AsyncSession.exec, h]
  simp only [hs, Bool.not_true, Bool.false_and, Bool.true_or, Bool.false_eq_true, if_false]

/-- A flush that fails leaves the session inactive. -/
theorem alone_await_flush {e : Eff} {x : Exn} {w : World} (hs : s.isActive = true)
    (hflush : e.flushed = true) (h : exec p e (.goes {}) s.world = some (.error x, w)) :
    (await e).alone p s = some (.error x, { world := w, isActive := false }) := by
  rw [alone_await, AsyncSession.exec, h]
  simp only [hs, hflush, Bool.not_true, Bool.false_and, Bool.and_false, Bool.false_eq_true,
    if_false]

/-- A statement on an inactive session. -/
theorem alone_await_inactive {e : Eff} (hs : s.isActive = false) (he : e.isSql = true) :
    (await e).alone p s = some (.error pendingRollbackError, s) := by
  rw [alone_await, AsyncSession.exec, hs, he]
  rfl

/-- A rollback is always answered. -/
theorem alone_rollback :
    (await .rollback).alone p s = some (.ok (), { world := s.world.rollback p }) := by
  rw [alone_await, AsyncSession.exec, show Eff.isSql .rollback = false from rfl, Bool.and_false]
  exact congrArg (fun b => some (Except.ok (), AsyncSession.mk (s.world.rollback p) b))
    (Bool.or_true s.isActive)

theorem alone_bind_ok {x : Py α} {a : α} (h : x.alone p s = some (.ok a, s')) (f : α → Py β) :
    (x >>= f).alone p s = (f a).alone p s' := by
  have hx : Prog.alone (fun e => AsyncSession.exec p e) (x : Prog Eff Ans (Except Exn α)) s =
    some (.ok a, s') := h
  refine (Prog.alone_bind _ _ _ s).trans ?_
  rw [hx]
  rfl

theorem alone_bind_error {x : Py α} {e : Exn} (h : x.alone p s = some (.error e, s'))
    (f : α → Py β) : (x >>= f).alone p s = some (.error e, s') := by
  have hx : Prog.alone (fun e => AsyncSession.exec p e) (x : Prog Eff Ans (Except Exn α)) s =
    some (.error e, s') := h
  refine (Prog.alone_bind _ _ _ s).trans ?_
  rw [hx]
  rfl

theorem alone_tryCatch_ok {x : Py α} {a : α} (h : x.alone p s = some (.ok a, s'))
    (f : Exn → Py α) : (tryCatch x f : Py α).alone p s = some (.ok a, s') := by
  have hx : Prog.alone (fun e => AsyncSession.exec p e) (x : Prog Eff Ans (Except Exn α)) s =
    some (.ok a, s') := h
  refine (Prog.alone_bind _ _ _ s).trans ?_
  rw [hx]
  rfl

theorem alone_tryCatch_error {x : Py α} {e : Exn} (h : x.alone p s = some (.error e, s'))
    (f : Exn → Py α) : (tryCatch x f : Py α).alone p s = (f e).alone p s' := by
  have hx : Prog.alone (fun e => AsyncSession.exec p e) (x : Prog Eff Ans (Except Exn α)) s =
    some (.error e, s') := h
  refine (Prog.alone_bind _ _ _ s).trans ?_
  rw [hx]
  rfl

theorem alone_outcomeOf {x : Py α} {r : Except Exn α} (h : x.alone p s = some (r, s')) :
    (outcomeOf x).alone p s = some (.ok r, s') := by
  cases r with
  | ok a => exact alone_tryCatch_ok (alone_bind_ok h _) _
  | error e => exact alone_tryCatch_error (alone_bind_error h _) _

end alone

section refine

variable {B : Uuid} {p : Nat} {s : AsyncSession} {v : TenantView}

/-- A filtered query. -/
theorem Views.lookup (h : Views B p s v) (k : Uuid) : s.world.lookupIdem p B k = v.lookup k := by
  rw [World.lookupIdem, TenantView.lookup, h.seen k, rowsOf, Option.filter_filter, h.now]
  congr
  funext row
  simp [Bool.decide_and, Bool.and_comm]

/-- The session's transaction is rolled back: by its owner, or after a flush
that failed. -/
theorem Views.back (h : Views B p s v) (active : Bool) :
    Views B p { world := s.world.rollback p, isActive := active }
      { v with seen := v.kept, isActive := active } where
  now := h.now
  exists_ := h.exists_
  apiKeys := h.apiKeys
  free k := (TxTable.free_iff _ _ _).2 fun q hq => by
    have hfree := (TxTable.free_iff _ _ _).1 (h.free k) q hq
    simp [World.rollback, hfree]
  seen k := (h.kept k).trans (by simp [rowsOf, World.rollback])
  kept := h.kept
  taken k := ⟨(h.taken k).2.trans (by simp [takenBy, World.rollback]), (h.taken k).2⟩
  isActive := rfl

theorem Views.commit (h : Views B p s v) (hactive : v.isActive = true) :
    Views B p { world := s.world.commit p } { v with kept := v.seen } where
  now := h.now
  exists_ := h.exists_
  apiKeys := h.apiKeys
  free k := (TxTable.free_iff _ _ _).2 fun q hq => by
    have hfree := (TxTable.free_iff _ _ _).1 (h.free k) q hq
    simp [World.commit, hfree]
  seen k := (h.seen k).trans (by simp [rowsOf, World.commit])
  kept k := (h.seen k).trans (by simp [rowsOf, World.commit])
  taken k := ⟨(h.taken k).1.trans (by simp [takenBy, World.commit]),
    (h.taken k).1.trans (by simp [takenBy, World.commit])⟩
  isActive := hactive

/-- A write of a row of the tenant, or of a free key. -/
theorem Views.put (h : Views B p s v) (hactive : v.isActive = true) {k : Uuid}
    {row : Option JobIdempotency} (ht : v.taken k = false)
    (hrow : ∀ r, row = some r → r.tenantId = B) :
    Views B p { world := { s.world with idem := s.world.idem.put p k row } } (v.put k row) where
  now := h.now
  exists_ := h.exists_
  apiKeys := h.apiKeys
  free j := (TxTable.free_iff _ _ _).2 fun q hq => by
    have hfree := (TxTable.free_iff _ _ _).1 (h.free j) q hq
    simp [hfree, Ne.symm hq]
  seen j := by
    by_cases hj : k = j
    · subst hj
      cases row with
      | none => simp [TenantView.put, rowsOf]
      | some r => simp [TenantView.put, rowsOf, Option.filter, hrow r rfl]
    · simp [TenantView.put, rowsOf, hj, Ne.symm hj, h.seen j]
  kept := h.kept
  taken j := by
    refine ⟨?_, (h.taken j).2⟩
    by_cases hj : k = j
    · subst hj
      rw [show (v.put k row).taken k = v.taken k from rfl, ht]
      cases row with
      | none => simp [takenBy]
      | some r => simp [takenBy, hrow r rfl]
    · rw [show (v.put k row).taken j = v.taken j from rfl, (h.taken j).1]
      simp [takenBy, hj]
  isActive := hactive

/-- The tenant's own row is what the session reads. -/
theorem Views.read (h : Views B p s v) {k : Uuid} {row : JobIdempotency}
    (hs : v.seen k = some row) :
    s.world.idem.read p k = some row ∧ row.tenantId = B ∧ v.taken k = false := by
  rw [h.seen k, rowsOf, Option.filter_eq_some_iff] at hs
  obtain ⟨hr, ht⟩ := hs
  have ht : row.tenantId = B := by simpa using ht
  exact ⟨hr, ht, (h.taken k).1.trans (by simp [takenBy, hr, ht])⟩

/-- The tenant has no row under a taken key. -/
theorem Views.none_of_taken (h : Views B p s v) {k : Uuid} (ht : v.taken k = true) :
    v.seen k = none ∧ v.kept k = none := by
  have hnone {rows : Uuid → Option JobIdempotency} (ht : takenBy B rows k = true) :
      rowsOf B rows k = none := by
    rw [takenBy, Option.any_eq_true] at ht
    obtain ⟨row, hr, hne⟩ := ht
    simpa [rowsOf, Option.filter, hr] using hne
  exact ⟨(h.seen k).trans (hnone ((h.taken k).1 ▸ ht)), (h.kept k).trans (hnone ((h.taken k).2 ▸ ht))⟩

/-- An insert is refused for what the view says. -/
theorem Views.refuses (h : Views B p s v) (k apiKey : Uuid) :
    v.refuses k apiKey = true ↔ (s.world.idem.read p k).isSome = true ∨
      ¬s.world.tenants B = true ∨ ¬s.world.apiKeys apiKey = true := by
  have hread : (s.world.idem.read p k).isSome = ((v.seen k).isSome || v.taken k) := by
    rw [h.seen k, (h.taken k).1, rowsOf, takenBy]
    cases hr : s.world.idem.read p k with
    | none => rfl
    | some row => by_cases ht : row.tenantId = B <;> simp [ht]
  simp only [TenantView.refuses, hread, h.exists_, h.apiKeys, Bool.or_eq_true, Bool.not_eq_true',
    Bool.not_eq_true]
  tauto

/-- A key that is not refused is not taken. -/
theorem TenantView.not_taken {k apiKey : Uuid} (h : ¬v.refuses k apiKey = true) :
    v.taken k = false := by
  simp only [TenantView.refuses, Bool.or_eq_true, not_or, Bool.not_eq_true] at h
  exact h.1.1.2

/-- `get` refines the lookup. -/
theorem Views.get (h : Views B p s v) (hactive : v.isActive = true) (site : Site) (k : Uuid) :
    (IdempotencyRepo.get site B k).alone p s = some (.ok (v.lookup k), { world := s.world }) := by
  rw [← h.lookup k]
  exact alone_await_ok (h.isActive ▸ hactive) rfl

/-- `reserve` refines its operation. -/
theorem Views.reserve (h : Views B p s v) (hactive : v.isActive = true) (k apiKey : Uuid)
    (hash : PyStr) (ttl : Option Nat) :
    ∃ s', (IdempotencyRepo.reserve B k apiKey hash ttl).alone p s =
        some ((v.reserve B k apiKey hash ttl).1, s') ∧
      Views B p s' (v.reserve B k apiKey hash ttl).2 := by
  have hs : s.isActive = true := h.isActive ▸ hactive
  have hx : exec p (.insertIdem B k apiKey hash (IdempotencyRepo.ttlOr ttl)) (.goes {}) s.world =
      if v.refuses k apiKey then some (.error (.foreign .integrityError), s.world.rollback p)
      else some (.ok (v.fresh B apiKey hash ttl),
        { s.world with idem := s.world.idem.put p k (some (v.fresh B apiKey hash ttl)) }) := by
    simp only [exec, perform, h.free k, if_true, TenantView.fresh, h.now]
    by_cases hr : v.refuses k apiKey = true
    · rw [if_pos ((h.refuses k apiKey).1 hr), if_pos hr]
    · rw [if_neg fun hc => hr ((h.refuses k apiKey).2 hc), if_neg hr]
  rw [TenantView.reserve]
  by_cases hr : v.refuses k apiKey = true
  · rw [if_pos hr] at hx ⊢
    exact ⟨_, alone_await_flush hs rfl hx, h.back false⟩
  · rw [if_neg hr] at hx ⊢
    exact ⟨_, alone_await_ok hs hx, h.put hactive (TenantView.not_taken hr) (by rintro _ ⟨⟩; rfl)⟩

theorem alone_replay (k : Uuid) (hash : PyStr) (row : JobIdempotency) :
    (IdempotencyRepo.replay k hash row).alone p s = some (TenantView.replay k hash row, s) := by
  unfold IdempotencyRepo.replay TenantView.replay
  split <;> rfl

/-- An insert that is refused leaves the committed rows. -/
theorem TenantView.reserve_error {v' : TenantView} {k apiKey : Uuid} {hash : PyStr}
    {ttl : Option Nat} {e : Exn} (h : v.reserve B k apiKey hash ttl = (.error e, v')) :
    e = .foreign .integrityError ∧ v' = v.refused := by
  rw [TenantView.reserve] at h
  split at h
  · cases h; exact ⟨rfl, rfl⟩
  · cases h

/-- A statement of an active session leaves it active. -/
theorem Views.active (h : Views B p s v) (hactive : v.isActive = true) :
    Views B p { world := s.world } v where
  now := h.now
  exists_ := h.exists_
  apiKeys := h.apiKeys
  free := h.free
  seen := h.seen
  kept := h.kept
  taken := h.taken
  isActive := hactive

/-- `reserve_or_get` refines its operation. -/
theorem Views.reserveOrGet (h : Views B p s v) (hactive : v.isActive = true) (k apiKey : Uuid)
    (hash : PyStr) (ttl : Option Nat) :
    ∃ s', (IdempotencyRepo.reserveOrGet B k apiKey hash ttl).alone p s =
        some ((v.reserveOrGet B k apiKey hash ttl).1, s') ∧
      Views B p s' (v.reserveOrGet B k apiKey hash ttl).2 := by
  rw [IdempotencyRepo.reserveOrGet, alone_bind_ok (h.get hactive .reserve k),
    TenantView.reserveOrGet]
  have h := h.active hactive
  cases hl : v.lookup k with
  | some row => exact ⟨_, alone_replay k hash row, h⟩
  | none =>
      obtain ⟨s₁, hrun, h₁⟩ := h.reserve hactive k apiKey hash ttl
      cases hres : v.reserve B k apiKey hash ttl with
      | mk r v₁ =>
      rw [hres] at hrun h₁
      dsimp only at hrun h₁ ⊢
      rw [alone_bind_ok (alone_outcomeOf hrun)]
      cases r with
      | ok row => exact ⟨s₁, rfl, h₁⟩
      | error e =>
          obtain ⟨rfl, rfl⟩ := TenantView.reserve_error hres
          -- the handler rolls the session back, and it looks again
          have h₂ : Views B p { world := s₁.world.rollback p } v.refused.rollback := h₁.back true
          dsimp only
          rw [IdempotencyRepo.reread, alone_bind_ok alone_rollback,
            alone_bind_ok (h₂.get rfl .reread k)]
          cases hl₂ : v.refused.rollback.lookup k with
          | some row => exact ⟨_, alone_replay k hash row, h₂⟩
          | none =>
              obtain ⟨s₃, hrun₃, h₃⟩ := h₂.reserve rfl k apiKey hash ttl
              cases hres₃ : v.refused.rollback.reserve B k apiKey hash ttl with
              | mk r₃ v₃ =>
              rw [hres₃] at hrun₃ h₃
              cases r₃ with
              | ok row => exact ⟨s₃, (alone_bind_ok hrun₃ _).trans rfl, h₃⟩
              | error e => exact ⟨s₃, alone_bind_error hrun₃ _, h₃⟩

/-- An update of a loaded row. -/
theorem Views.flush (h : Views B p s v) (hactive : v.isActive = true) {k : Uuid}
    {row : JobIdempotency} (patch : IdemPatch) (hl : v.lookup k = some row) :
    ∃ s', (IdempotencyRepo.flush k patch).alone p s = some (.ok (), s') ∧
      Views B p s' (v.put k (some (patch.apply row))) := by
  have hs : v.seen k = some row := (Option.filter_eq_some_iff.1 hl).1
  obtain ⟨hr, ht, htaken⟩ := h.read hs
  have hput : Views B p
      { world := { s.world with idem := s.world.idem.put p k (some (patch.apply row)) } }
      (v.put k (some (patch.apply row))) := by
    refine h.put hactive htaken fun r hr => ?_
    cases hr
    exact ht
  rw [IdempotencyRepo.flush]
  split
  · next he =>
      refine ⟨s, rfl, ?_⟩
      have hsame : patch.apply row = row := by
        cases patch with
        | mk status uri alignment =>
            cases status <;> cases uri <;> cases alignment <;> cases he
            rfl
      have hv : v.put k (some (patch.apply row)) = v := by
        rw [hsame, ← hs]
        simp [TenantView.put]
      rwa [hv]
  · refine ⟨_, alone_await_ok (h.isActive ▸ hactive) ?_, hput⟩
    simp [exec, NeuroVoice.perform, h.free k, hr]

/-- An update of the unexpired row, if there is one. -/
theorem Views.update (h : Views B p s v) (hactive : v.isActive = true) (site : Site) (k : Uuid)
    (patch : JobIdempotency → IdemPatch) :
    ∃ s', (do match ← IdempotencyRepo.get site B k with
              | none => pure ()
              | some row => IdempotencyRepo.flush k (patch row) : Py Unit).alone p s =
        some (.ok (), s') ∧ Views B p s' (v.update k patch) := by
  rw [alone_bind_ok (h.get hactive site k), TenantView.update]
  have h := h.active hactive
  cases hl : v.lookup k with
  | none => exact ⟨_, rfl, h⟩
  | some row => exact h.flush hactive (patch row) hl

/-- `delete` refines its operation. -/
theorem Views.delete (h : Views B p s v) (hactive : v.isActive = true) (k : Uuid) :
    ∃ s', (IdemCall.delete k).perform B p s = some ((v.act B (.delete k)).1, s') ∧
      Views B p s' (v.act B (.delete k)).2 := by
  have hs : s.isActive = true := h.isActive ▸ hactive
  cases hseen : v.seen k with
  | some row =>
      obtain ⟨hr, ht, htaken⟩ := h.read hseen
      have hx : exec p (.deleteIdem B k) (.goes {}) s.world =
          some (.ok 1, { s.world with idem := s.world.idem.put p k none }) := by
        simp [exec, NeuroVoice.perform, h.free k, hr, ht]
      have hact : v.act B (.delete k) = (.ok (.count 1), v.put k none) := by
        simp [TenantView.act, hseen]
      rw [hact]
      exact ⟨_, alone_bind_ok (alone_await_ok hs hx) _, h.put hactive htaken (by simp)⟩
  | none =>
      have hx : exec p (.deleteIdem B k) (.goes {}) s.world = some (.ok 0, s.world) := by
        have hrows := h.seen k
        rw [hseen, rowsOf] at hrows
        cases hr : s.world.idem.read p k with
        | none => simp [exec, NeuroVoice.perform, h.free k, hr]
        | some row =>
            have ht : row.tenantId ≠ B := by
              rintro rfl
              simp [hr, Option.filter] at hrows
            simp [exec, NeuroVoice.perform, h.free k, hr, ht]
      have hact : v.act B (.delete k) = (.ok (.count 0), v) := by
        simp [TenantView.act, hseen]
      rw [hact]
      exact ⟨_, alone_bind_ok (alone_await_ok hs hx) _, h.active hactive⟩

/-- The first statement of a call on an inactive session raises. -/
theorem IdemCall.perform_inactive (c : IdemCall) (hs : s.isActive = false)
    (hc : c.needsActive = true) : c.perform B p s = some (.error pendingRollbackError, s) := by
  have hget (site : Site) (k : Uuid) : (IdempotencyRepo.get site B k).alone p s =
      some (.error pendingRollbackError, s) := alone_await_inactive hs rfl
  cases c with
  | get k => exact alone_bind_error (hget _ _) _
  | reserveOrGet k apiKey hash ttl => exact alone_bind_error (alone_bind_error (hget _ _) _) _
  | complete k uri alignment => exact alone_bind_error (alone_bind_error (hget _ _) _) _
  | fail k => exact alone_bind_error (alone_bind_error (hget _ _) _) _
  | delete k => exact alone_bind_error (alone_await_inactive hs rfl) _
  | commit => exact alone_bind_error (alone_await_inactive hs rfl) _
  | rollback => cases hc
  | wait ms => cases hc

/-- The rollback and the wait ask nothing of the session. -/
theorem IdemCall.refines_always (h : Views B p s v) (c : IdemCall) (hc : c.needsActive = false) :
    ∃ s', c.perform B p s = some ((v.act B c).1, s') ∧ Views B p s' (v.act B c).2 := by
  cases c with
  | rollback => exact ⟨_, alone_bind_ok alone_rollback _, h.back true⟩
  | wait ms =>
      refine ⟨{ s with world := s.world.tick ms }, rfl, ?_⟩
      exact ⟨by simp [TenantView.act, World.tick, h.now], h.exists_, h.apiKeys, h.free, h.seen,
        h.kept, h.taken, h.isActive⟩
  | _ => cases hc

/-- The calls on an active session refine its operations. -/
theorem IdemCall.refines_act (h : Views B p s v) (hactive : v.isActive = true) (c : IdemCall) :
    ∃ s', c.perform B p s = some ((v.act B c).1, s') ∧ Views B p s' (v.act B c).2 := by
  cases c with
  | get k => exact ⟨_, alone_bind_ok (h.get hactive .upfront k) _, h.active hactive⟩
  | reserveOrGet k apiKey hash ttl =>
      obtain ⟨s', hrun, h'⟩ := h.reserveOrGet hactive k apiKey hash ttl
      cases hres : v.reserveOrGet B k apiKey hash ttl with
      | mk r v' =>
      rw [hres] at hrun h'
      simp only [TenantView.act, hres]
      cases r with
      | ok r => exact ⟨s', (alone_bind_ok hrun _).trans rfl, h'⟩
      | error e => exact ⟨s', alone_bind_error hrun _, h'⟩
  | complete k uri alignment =>
      obtain ⟨s', hrun, h'⟩ := h.update hactive .complete k fun row =>
        IdempotencyRepo.completePatch row uri alignment
      exact ⟨s', alone_bind_ok hrun _, h'⟩
  | fail k =>
      obtain ⟨s', hrun, h'⟩ := h.update hactive .fail k IdempotencyRepo.failPatch
      exact ⟨s', alone_bind_ok hrun _, h'⟩
  | delete k => exact h.delete hactive k
  | commit =>
      exact ⟨_, alone_bind_ok (alone_await_ok (h.isActive ▸ hactive) rfl) _, h.commit hactive⟩
  | rollback => exact IdemCall.refines_always h .rollback rfl
  | wait ms => exact IdemCall.refines_always h (.wait ms) rfl

/-- **The calls refine the operations** of the tenant's view. -/
theorem IdemCall.refines (h : Views B p s v) (c : IdemCall) :
    ∃ s', c.perform B p s = some ((v.call B c).1, s') ∧ Views B p s' (v.call B c).2 := by
  rw [TenantView.call]
  cases hactive : v.isActive with
  | true => exact IdemCall.refines_act h hactive c
  | false =>
      cases hc : c.needsActive with
      | true => exact ⟨s, c.perform_inactive (h.isActive ▸ hactive) hc, h⟩
      | false => exact IdemCall.refines_always h c hc

end refine

/-! ## what a tenant can learn -/

/-- Perform calls one after the other. -/
def IdemCall.performs (B : Uuid) (p : Nat) :
    List IdemCall → AsyncSession → Option (List (Except Exn IdemReturn) × AsyncSession)
  | [], s => some ([], s)
  | c :: cs, s =>
      match c.perform B p s with
      | none => none
      | some (r, s') => (performs B p cs s').map fun (rs, s'') => (r :: rs, s'')

/-- The calls that an active session meets. -/
def IdemCall.met (B : Uuid) (p : Nat) : List IdemCall → AsyncSession → List IdemCall
  | [], _ => []
  | c :: cs, s =>
      let rest := match c.perform B p s with
        | none => []
        | some (_, s') => met B p cs s'
      if s.isActive then c :: rest else rest

/-- What tenant `B` gets out of its calls: their results, its rows as its
session sees them, and its committed rows. -/
def outcome (B : Uuid) (p : Nat) (cs : List IdemCall) (s : AsyncSession) :
    Option (List (Except Exn IdemReturn) × (Uuid → Option JobIdempotency) ×
      (Uuid → Option JobIdempotency)) :=
  (IdemCall.performs B p cs s).map fun (rs, s') =>
    (rs, rowsOf B (s'.world.idem.read p), rowsOf B s'.world.idem.rows)

/-- A new session on the world with other committed rows. -/
def World.session (w : World) (rows : Uuid → Option JobIdempotency) : AsyncSession where
  world := { w with idem := .ofRows rows }

/-- An insert cannot tell the two tables apart: it is refused in either for
want of a tenant or an API key, or the key is taken by another tenant in
both or in neither. -/
def IdemCall.Blind (B : Uuid) (w : World) (rows₁ rows₂ : Uuid → Option JobIdempotency) :
    IdemCall → Prop
  | .reserveOrGet k apiKey _ _ =>
      w.tenants B = true → w.apiKeys apiKey = true → takenBy B rows₁ k = takenBy B rows₂ k
  | _ => True

namespace TenantView

/-- The same view, with other keys taken. -/
def withTaken (v : TenantView) (t : Uuid → Bool) : TenantView := { v with taken := t }

variable {v : TenantView} {B : Uuid} {t t' : Uuid → Bool}

@[simp] theorem withTaken_lookup (v : TenantView) (t : Uuid → Bool) (k : Uuid) :
    (v.withTaken t).lookup k = v.lookup k := rfl

@[simp] theorem withTaken_rollback (v : TenantView) (t : Uuid → Bool) :
    (v.withTaken t).rollback = v.rollback.withTaken t := rfl

theorem withTaken_update (v : TenantView) (t : Uuid → Bool) (k : Uuid)
    (patch : JobIdempotency → IdemPatch) :
    (v.withTaken t).update k patch = (v.update k patch).withTaken t := by
  rw [update, update, withTaken_lookup]
  split <;> rfl

/-- What a call leaves alone. -/
structure Kept (v v' : TenantView) : Prop where
  exists_ : v'.exists? = v.exists?
  apiKeys : v'.apiKeys = v.apiKeys
  taken : v'.taken = v.taken

theorem Kept.reserve (h : Kept v v') (k apiKey : Uuid) (hash : PyStr) (ttl : Option Nat) :
    Kept v (v'.reserve B k apiKey hash ttl).2 := by
  rw [TenantView.reserve]
  split <;> exact ⟨h.1, h.2, h.3⟩

theorem Kept.rollback (h : Kept v v') : Kept v v'.rollback := ⟨h.1, h.2, h.3⟩

theorem kept_act (c : IdemCall) : Kept v (v.act B c).2 := by
  have hv : Kept v v := ⟨rfl, rfl, rfl⟩
  have hupdate (k : Uuid) (patch : JobIdempotency → IdemPatch) : Kept v (v.update k patch) := by
    rw [TenantView.update]
    split <;> exact ⟨rfl, rfl, rfl⟩
  cases c with
  | reserveOrGet k apiKey hash ttl =>
      have hr := hv.reserve (B := B) k apiKey hash ttl
      simp only [act, reserveOrGet]
      cases v.lookup k with
      | some row => exact hv
      | none =>
          generalize v.reserve B k apiKey hash ttl = r at hr
          obtain ⟨_ | row, v'⟩ := r
          · have hr₂ := hr.rollback.reserve (B := B) k apiKey hash ttl
            dsimp only at hr₂ ⊢
            cases v'.rollback.lookup k with
            | some row => exact hr.rollback
            | none => exact hr₂
          · exact hr
  | complete k uri alignment => exact hupdate k _
  | fail k => exact hupdate k _
  | delete k => simp only [act]; split <;> exact ⟨rfl, rfl, rfl⟩
  | _ => exact ⟨rfl, rfl, rfl⟩

theorem kept_call (c : IdemCall) : Kept v (v.call B c).2 := by
  rw [call]
  split
  · exact ⟨rfl, rfl, rfl⟩
  · exact kept_act c

theorem withTaken_reserve {k apiKey : Uuid} (hash : PyStr) (ttl : Option Nat)
    (h : v.exists? = true → v.apiKeys apiKey = true → t k = t' k) :
    ∃ r v', (v.withTaken t).reserve B k apiKey hash ttl = (r, v'.withTaken t) ∧
      (v.withTaken t').reserve B k apiKey hash ttl = (r, v'.withTaken t') ∧ Kept v v' := by
  have href : (v.withTaken t).refuses k apiKey = (v.withTaken t').refuses k apiKey := by
    show ((((v.seen k).isSome || t k) || !v.exists?) || !v.apiKeys apiKey) =
      ((((v.seen k).isSome || t' k) || !v.exists?) || !v.apiKeys apiKey)
    cases he : v.exists? with
    | false => simp
    | true =>
        cases ha : v.apiKeys apiKey with
        | false => simp
        | true => rw [h he ha]
  rw [reserve, reserve, href]
  split
  · exact ⟨_, v.refused, rfl, rfl, rfl, rfl, rfl⟩
  · exact ⟨_, v.put k _, rfl, rfl, rfl, rfl, rfl⟩

/-- So does a call that looks for the row first, and again after a refusal. -/
theorem withTaken_reserveOrGet {k apiKey : Uuid} (hash : PyStr) (ttl : Option Nat)
    (h : v.exists? = true → v.apiKeys apiKey = true → t k = t' k) :
    ∃ (r : Except Exn (JobIdempotency × Bool)) (v' : TenantView),
      (v.withTaken t).reserveOrGet B k apiKey hash ttl = (r, v'.withTaken t) ∧
      (v.withTaken t').reserveOrGet B k apiKey hash ttl = (r, v'.withTaken t') := by
  obtain ⟨r, v', h₁, h₂, hk⟩ := withTaken_reserve (B := B) hash ttl h
  simp only [reserveOrGet, h₁, h₂, withTaken_lookup]
  cases v.lookup k with
  | some row => exact ⟨_, v, rfl, rfl⟩
  | none =>
      cases r with
      | ok row => exact ⟨_, v', rfl, rfl⟩
      | error e =>
          simp only [withTaken_rollback, withTaken_lookup]
          obtain ⟨r, v'', h₃, h₄, -⟩ := withTaken_reserve (B := B) (v := v'.rollback) hash ttl
            fun he ha => h (hk.exists_ ▸ he) (hk.apiKeys ▸ ha)
          cases v'.rollback.lookup k with
          | some row => exact ⟨_, v'.rollback, rfl, rfl⟩
          | none =>
              simp only [h₃, h₄]
              exact ⟨_, v'', rfl, rfl⟩

/-- A blind call goes the same way in both views of an active session. -/
theorem withTaken_act (c : IdemCall)
    (h : ∀ k apiKey hash ttl, c = .reserveOrGet k apiKey hash ttl → v.exists? = true →
      v.apiKeys apiKey = true → t k = t' k) :
    ∃ (r : Except Exn IdemReturn) (v' : TenantView),
      (v.withTaken t).act B c = (r, v'.withTaken t) ∧
        (v.withTaken t').act B c = (r, v'.withTaken t') := by
  cases c with
  | get k => exact ⟨_, v, rfl, rfl⟩
  | reserveOrGet k apiKey hash ttl =>
      obtain ⟨r, v', h₁, h₂⟩ :=
        withTaken_reserveOrGet (B := B) hash ttl (h k apiKey hash ttl rfl)
      simp only [act, h₁, h₂]
      cases r <;> exact ⟨_, v', rfl, rfl⟩
  | complete k uri alignment =>
      simp only [act, withTaken_update]
      exact ⟨_, _, rfl, rfl⟩
  | fail k =>
      simp only [act, withTaken_update]
      exact ⟨_, _, rfl, rfl⟩
  | delete k =>
      simp only [act, show ∀ t, (v.withTaken t).seen k = v.seen k from fun _ => rfl]
      split
      · exact ⟨_, v.put k none, rfl, rfl⟩
      · exact ⟨_, v, rfl, rfl⟩
  | commit => exact ⟨_, { v with kept := v.seen }, rfl, rfl⟩
  | rollback => exact ⟨_, v.rollback, rfl, rfl⟩
  | wait ms => exact ⟨_, { v with now := v.now + ms }, rfl, rfl⟩

/-- So does every call on an inactive one. -/
theorem withTaken_call (c : IdemCall)
    (h : v.isActive = true → ∀ k apiKey hash ttl, c = .reserveOrGet k apiKey hash ttl →
      v.exists? = true → v.apiKeys apiKey = true → t k = t' k) :
    ∃ (r : Except Exn IdemReturn) (v' : TenantView),
      (v.withTaken t).call B c = (r, v'.withTaken t) ∧
        (v.withTaken t').call B c = (r, v'.withTaken t') := by
  have hcall (t : Uuid → Bool) : (v.withTaken t).call B c =
      if !v.isActive && c.needsActive then (.error pendingRollbackError, v.withTaken t)
      else (v.withTaken t).act B c := rfl
  rw [hcall, hcall]
  split
  · exact ⟨_, v, rfl, rfl⟩
  · next hneeds =>
      refine withTaken_act c fun k apiKey hash ttl hc => ?_
      subst hc
      exact h (by simpa [IdemCall.needsActive] using hneeds) k apiKey hash ttl rfl

/-- An insert tells a taken key from a free one. -/
theorem withTaken_reserveOrGet_ne {k apiKey : Uuid} (hash : PyStr) (ttl : Option Nat)
    (hactive : v.isActive = true) (he : v.exists? = true) (ha : v.apiKeys apiKey = true)
    (ht : t k = true) (ht' : t' k = false) (hs : v.seen k = none) (hk : v.kept k = none) :
    ((v.withTaken t).call B (.reserveOrGet k apiKey hash ttl)).1 ≠
      ((v.withTaken t').call B (.reserveOrGet k apiKey hash ttl)).1 := by
  have hcall (t : Uuid → Bool) : (v.withTaken t).call B (.reserveOrGet k apiKey hash ttl) =
      (v.withTaken t).act B (.reserveOrGet k apiKey hash ttl) := by
    simp [call, withTaken, hactive]
  have hl (t : Uuid → Bool) : (v.withTaken t).lookup k = none := by
    simp [lookup, withTaken, hs]
  have hl' (t : Uuid → Bool) : ((v.withTaken t).refused.rollback).lookup k = none := by
    simp [lookup, withTaken, refused, rollback, hk]
  have h₁ : (v.withTaken t).refuses k apiKey = true := by
    simp [refuses, withTaken, ht]
  have h₂ : ((v.withTaken t).refused.rollback).refuses k apiKey = true := by
    simp [refuses, withTaken, refused, rollback, ht]
  have h₃ : (v.withTaken t').refuses k apiKey = false := by
    simp [refuses, withTaken, hs, ht', he, ha]
  rw [hcall, hcall]
  simp [act, reserveOrGet, reserve, hl, hl', h₁, h₂, h₃, Except.map]

end TenantView

section isolation

variable {B : Uuid} {p : Nat} {t₁ t₂ : Uuid → Bool}

theorem outcome_cons {c : IdemCall} {cs : List IdemCall} {s s' : AsyncSession}
    {r : Except Exn IdemReturn} (h : c.perform B p s = some (r, s')) :
    outcome B p (c :: cs) s = (outcome B p cs s').map fun (rs, rows) => (r :: rs, rows) := by
  simp only [outcome, IdemCall.performs, h]
  cases IdemCall.performs B p cs s' <;> rfl

/-- The first call is met where the session is active. -/
theorem IdemCall.mem_met_cons {c c' : IdemCall} {cs : List IdemCall} {s s' : AsyncSession}
    {r : Except Exn IdemReturn} (h : c.perform B p s = some (r, s')) :
    c' ∈ IdemCall.met B p (c :: cs) s ↔
      (s.isActive = true ∧ c' = c) ∨ c' ∈ IdemCall.met B p cs s' := by
  simp only [IdemCall.met, h]
  cases s.isActive <;> simp

/-- Calls never block: nobody else holds a lock. -/
theorem outcome_isSome (cs : List IdemCall) {s : AsyncSession} {v : TenantView}
    (h : Views B p s v) : ∃ x, outcome B p cs s = some x := by
  induction cs generalizing s v with
  | nil => exact ⟨_, rfl⟩
  | cons c cs ih =>
      obtain ⟨s', hp, hv⟩ := c.refines h
      obtain ⟨x, hx⟩ := ih hv
      exact ⟨_, by rw [outcome_cons hp, hx]; rfl⟩

section two

variable {s₁ s₂ : AsyncSession} {v : TenantView}

/-- Without a call nothing is learnt. -/
theorem outcome_nil_eq (h₁ : Views B p s₁ (v.withTaken t₁)) (h₂ : Views B p s₂ (v.withTaken t₂)) :
    outcome B p [] s₁ = outcome B p [] s₂ := by
  have hseen : rowsOf B (s₁.world.idem.read p) = rowsOf B (s₂.world.idem.read p) :=
    funext fun k => (h₁.seen k).symm.trans (h₂.seen k)
  have hkept : rowsOf B s₁.world.idem.rows = rowsOf B s₂.world.idem.rows :=
    funext fun k => (h₁.kept k).symm.trans (h₂.kept k)
  simp [outcome, IdemCall.performs, hseen, hkept]

/-- One result in front leaves the question to the others. -/
theorem map_cons_inj {α β : Type} {r : α} {x y : Option (List α × β)} :
    (x.map fun (rs, rows) => (r :: rs, rows)) = (y.map fun (rs, rows) => (r :: rs, rows)) ↔
      x = y := by
  cases x <;> cases y <;> simp [Prod.ext_iff]

/-- An insert for a key that is taken in one view only ends differently. -/
theorem reserveOrGet_call_ne {k apiKey : Uuid} (hash : PyStr) (ttl : Option Nat)
    (h₁ : Views B p s₁ (v.withTaken t₁)) (h₂ : Views B p s₂ (v.withTaken t₂))
    (hactive : v.isActive = true) (he : v.exists? = true) (ha : v.apiKeys apiKey = true)
    (hne : t₁ k ≠ t₂ k) :
    ((v.withTaken t₁).call B (.reserveOrGet k apiKey hash ttl)).1 ≠
      ((v.withTaken t₂).call B (.reserveOrGet k apiKey hash ttl)).1 := by
  cases ht₁ : t₁ k with
  | true =>
      obtain ⟨hs, hk⟩ := h₁.none_of_taken ht₁
      have ht₂ : t₂ k = false := by simpa [ht₁] using hne
      exact TenantView.withTaken_reserveOrGet_ne hash ttl hactive he ha ht₁ ht₂ hs hk
  | false =>
      have ht₂ : t₂ k = true := by simpa [ht₁] using hne
      obtain ⟨hs, hk⟩ := h₂.none_of_taken ht₂
      exact (TenantView.withTaken_reserveOrGet_ne hash ttl hactive he ha ht₂ ht₁ hs hk).symm

/-- Two views that differ in the taken keys only. -/
theorem outcome_eq_iff (cs : List IdemCall)
    (h₁ : Views B p s₁ (v.withTaken t₁)) (h₂ : Views B p s₂ (v.withTaken t₂)) :
    outcome B p cs s₁ = outcome B p cs s₂ ↔
      ∀ k apiKey hash ttl, .reserveOrGet k apiKey hash ttl ∈ IdemCall.met B p cs s₁ →
        v.exists? = true → v.apiKeys apiKey = true → t₁ k = t₂ k := by
  induction cs generalizing s₁ s₂ v with
  | nil => simp [outcome_nil_eq h₁ h₂, IdemCall.met]
  | cons c cs ih =>
      obtain ⟨s₁', hp₁, hv₁⟩ := c.refines h₁
      obtain ⟨s₂', hp₂, hv₂⟩ := c.refines h₂
      have hactive : s₁.isActive = v.isActive := h₁.isActive.symm
      rw [outcome_cons hp₁, outcome_cons hp₂]
      simp only [IdemCall.mem_met_cons hp₁, hactive]
      by_cases hblind : v.isActive = true → ∀ k apiKey hash ttl,
          c = .reserveOrGet k apiKey hash ttl → v.exists? = true → v.apiKeys apiKey = true →
            t₁ k = t₂ k
      · obtain ⟨r, v', hc₁, hc₂⟩ := TenantView.withTaken_call (B := B) c hblind
        have hk := TenantView.kept_call (v := v.withTaken t₁) (B := B) c
        rw [hc₁] at hv₁ hk
        rw [hc₂] at hv₂
        have he : v'.exists? = v.exists? := hk.exists_
        have ha : v'.apiKeys = v.apiKeys := hk.apiKeys
        rw [hc₁, hc₂, map_cons_inj, ih hv₁ hv₂, he, ha]
        constructor
        · intro h k apiKey hash ttl hm
          rcases hm with ⟨hmet, hm⟩ | hm
          · exact hblind hmet k apiKey hash ttl hm.symm
          · exact h k apiKey hash ttl hm
        · exact fun h k apiKey hash ttl hm => h k apiKey hash ttl (.inr hm)
      · -- the first call that is not blind gives the difference away
        simp only [not_forall, exists_prop] at hblind
        obtain ⟨hmet, k, apiKey, hash, ttl, rfl, he, ha, hne⟩ := hblind
        have hdiff := reserveOrGet_call_ne hash ttl h₁ h₂ hmet he ha hne
        obtain ⟨x₁, hx₁⟩ := outcome_isSome cs hv₁
        obtain ⟨x₂, hx₂⟩ := outcome_isSome cs hv₂
        rw [hx₁, hx₂]
        constructor
        · intro h
          simp only [Option.map_some, Option.some.injEq, Prod.mk.injEq, List.cons.injEq] at h
          exact absurd h.1.1 hdiff
        · exact fun h => absurd (h k apiKey hash ttl (.inl ⟨hmet, rfl⟩) he ha) hne

end two

/-- The view of a new session. -/
theorem views_session (w : World) (rows : Uuid → Option JobIdempotency) :
    Views B p (w.session rows)
      { now := w.now, exists? := w.tenants B, apiKeys := w.apiKeys, seen := rowsOf B rows
        kept := rowsOf B rows, taken := takenBy B rows, isActive := true } where
  now := rfl
  exists_ := rfl
  apiKeys := rfl
  free _ := rfl
  seen _ := rfl
  kept _ := rfl
  taken _ := ⟨rfl, rfl⟩
  isActive := rfl

/-- **Tenant isolation**: two tables that differ only in rows of other
tenants answer every sequence of calls of tenant `B` alike, and leave it
alike, exactly when every insert that an active session meets is blind.  A
session that waits for its rollback tells nothing. -/
theorem tenant_isolation {w : World} {rows₁ rows₂ : Uuid → Option JobIdempotency}
    (h : rowsOf B rows₁ = rowsOf B rows₂) (cs : List IdemCall) :
    outcome B p cs (w.session rows₁) = outcome B p cs (w.session rows₂) ↔
      ∀ c ∈ IdemCall.met B p cs (w.session rows₁), c.Blind B w rows₁ rows₂ := by
  have h₁ := views_session (B := B) (p := p) w rows₁
  have h₂ := views_session (B := B) (p := p) w rows₂
  rw [h] at h₁
  refine (outcome_eq_iff (v := ⟨w.now, w.tenants B, w.apiKeys, rowsOf B rows₂, rowsOf B rows₂,
    fun _ => false, true⟩) cs h₁ h₂).trans
      ⟨fun hcs c hc => ?_, fun hcs k apiKey hash ttl hm => ?_⟩
  · cases c with
    | reserveOrGet k apiKey hash ttl => exact hcs k apiKey hash ttl hc
    | _ => trivial
  · exact hcs _ hm

end isolation

/-- Rows of tenant 9 under the given keys. -/
def foreignRows (keys : List Uuid) (k : Uuid) : Option JobIdempotency :=
  if keys.contains k then some (freshRow 9 9 (py "h") 0 86400000) else none

theorem rowsOf_foreignRows (keys : List Uuid) :
    rowsOf 2 (foreignRows keys) = rowsOf 2 (foreignRows []) := by
  funext k
  unfold rowsOf foreignRows
  split <;> rfl

/-- An insert of tenant 2, with its API key. -/
def insertOf (k : Uuid) : IdemCall := .reserveOrGet k 3 (py "h") none

/-- The key 4 is taken in both tables, so its insert fails in both and leaves
the session inactive: of `someKey`, which is taken in one, nothing is learnt.
After the rollback the key 5 is reserved. -/
theorem tenant_isolation_example :
    outcome 2 0 [insertOf 4, insertOf someKey, .rollback, insertOf 5, .commit, .get someKey]
        (blank.session (foreignRows [4, someKey])) =
      outcome 2 0 [insertOf 4, insertOf someKey, .rollback, insertOf 5, .commit, .get someKey]
        (blank.session (foreignRows [4])) := by
  refine (tenant_isolation ((rowsOf_foreignRows _).trans (rowsOf_foreignRows _).symm) _).2
    fun c hc => ?_
  have hmet : IdemCall.met 2 0
      [insertOf 4, insertOf someKey, .rollback, insertOf 5, .commit, .get someKey]
      (blank.session (foreignRows [4, someKey])) =
        [insertOf 4, insertOf 5, .commit, .get someKey] := rfl
  rw [hmet] at hc
  simp only [List.mem_cons, List.not_mem_nil, or_false] at hc
  rcases hc with rfl | rfl | rfl | rfl
  · exact fun _ _ => rfl
  · exact fun _ _ => rfl
  · trivial
  · trivial

/-- A key that another tenant holds cannot be reserved, and says so. -/
theorem reserveOrGet_reveals :
    rowsOf 2 (foreignRows [someKey]) = rowsOf 2 (foreignRows []) ∧
      outcome 2 0 [insertOf someKey] (blank.session (foreignRows [someKey])) ≠
        outcome 2 0 [insertOf someKey] (blank.session (foreignRows [])) := by
  refine ⟨rowsOf_foreignRows _, fun h => ?_⟩
  have hok := congrArg (Option.map fun x => x.1.map Except.isOk) h
  revert hok
  decide +kernel

end NeuroVoice
