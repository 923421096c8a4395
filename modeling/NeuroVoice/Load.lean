import NeuroVoice.Run
import NeuroVoice.Lib.Calls
import NeuroVoice.Lib.Timeline

/-!
# NeuroVoice.Load

The load a worker reports: `in_flight` of `worker/consumer.py`, as the
heartbeat of `worker/main.py` reads it.

The consumer updates its own fields between awaits, where no other task runs,
so `Counted` programs are those of `NeuroVoice.Consumer` with these updates;
without them they are the same programs (`uncounted_run`).  `_tick` counts the
call it makes of `_handle_one` and the sweep does not: `heartbeat_accuracy`.
-/

namespace NeuroVoice

/-- Who calls `_handle_one`. -/
inductive Caller where
  | tick
  | sweep
  deriving DecidableEq

/-- What the event loop sees of a worker: an await, or what happens between
two awaits. -/
inductive LoadEff where
  | await (e : Eff)
  /-- `last_pickup_ms = int(time.time() * 1000)`. -/
  | pickup
  /-- `in_flight += 1`. -/
  | increment
  /-- `in_flight = max(0, in_flight - 1)`. -/
  | decrement
  /-- `_handle_one` is called. -/
  | call (c : Caller)
  /-- `_handle_one` returned or raised. -/
  | ended

/-- Only awaits and the clock have something to answer. -/
@[reducible] def LoadAns : LoadEff → Type
  | .await e => Ans e
  | .pickup => Nat
  | _ => Unit

/-- A coroutine of the consumer, with its updates. -/
abbrev Counted (α : Type) : Type := ExceptT Exn (Prog LoadEff LoadAns) α

/-- What a run has performed so far. -/
abbrev LoadLog : Type := List ((e : LoadEff) × LoadAns e)

namespace Counted

variable {α β : Type}

/-- A coroutine that updates nothing. -/
def within (x : Py α) : Counted α :=
  ExceptT.mk (Prog.embed LoadEff.await x.run)

/-- What happens between two awaits. -/
def update (e : LoadEff) : Counted (LoadAns e) :=
  ExceptT.mk (.eff e fun a => .ret (.ok a))

/-- The outcome of a part, which its caller hands on. -/
def outcome (x : Counted α) : Counted (Except Exn α) :=
  tryCatch (do let a ← x; pure (.ok a)) fun e => pure (.error e)

/-- A known outcome. -/
def settled : Except Exn α → Counted α
  | .ok a => pure a
  | .error e => throw e

/-- `try: x; finally: e`. -/
def finallyUpdate (x : Counted α) (e : LoadEff) : Counted α := do
  let r ← outcome x
  let _ ← update e
  settled r

end Counted

open Counted

/-! ## the loop -/

namespace CountedConsumer

/-- A call of `_handle_one`. -/
def handleOne (S : Settings) (caller : Caller) (entry : Nat) (fields : EntryFields) :
    Counted Unit := do
  let _ ← update (.call caller)
  finallyUpdate (within (WorkerConsumer.handleOne S entry fields)) .ended

/-- `_tick`. -/
def tick (S : Settings) : Counted Bool := do
  match ← outcome (within (await (.xreadgroup S.consumerName))) with
  | .error (.foreign (.responseError _)) => do
      within (await .sleep)
      return false
  | .error e => throw e
  | .ok none => return false
  | .ok (some (entry, fields)) => do
      let _ ← update .pickup
      let _ ← update .increment
      finallyUpdate (handleOne S .tick entry fields) .decrement
      return true

/-- `_xautoclaim_sweep`: nothing is counted. -/
def xautoclaimSweep (S : Settings) : Counted Unit := do
  match ← outcome (within (await (.xautoclaim S.consumerName S.xautoclaimMinIdleMs))) with
  | .error (.foreign (.responseError _)) => pure ()
  | .error e => throw e
  | .ok none => pure ()
  | .ok (some (entry, fields)) => handleOne S .sweep entry fields

/-- The guarded tick of the loop. -/
def guardedTick (S : Settings) : Counted Bool :=
  tryCatch (tick S) fun e => if e.isException then pure false else throw e

/-- The sweep of one turn, when it is due. -/
def sweepIfDue (S : Settings) (handled : Bool) (lastSweepAt : Nat) : Counted Nat := do
  let now ← within (await .clock)
  if !handled || lastSweepAt + S.xautoclaimPeriodMs ≤ now then do
    xautoclaimSweep S
    within (await .clock)
  else return lastSweepAt

/-- The `while` loop, for at most `n` turns. -/
def loop (S : Settings) : Nat → Nat → Counted Unit
  | n, lastSweepAt => do
      if ← within (await .stopSet) then return ()
      match n with
      | 0 => return ()
      | n + 1 => do
          let handled ← guardedTick S
          if ← within (await .stopSet) then return ()
          let lastSweepAt ← sweepIfDue S handled lastSweepAt
          if !handled then within (await .sleep)
          loop S n lastSweepAt

/-- `run(max_iterations=n)`. -/
def run (S : Settings) (n : Nat) : Counted Unit := do
  within WorkerConsumer.ensureConsumerGroup
  let now ← within (await .clock)
  loop S n now

end CountedConsumer

/-! ## without the updates -/

/-- Handing an outcome on at once changes nothing. -/
theorem outcomeOf_liftExn {α : Type} (x : Py α) : (outcomeOf x >>= liftExn) = x := by
  refine (Prog.bind_assoc _ _ _).trans ((Prog.bind_assoc _ _ _).trans ?_)
  refine (congrArg (Prog.bind (ExceptT.run x)) (funext fun r => ?_)).trans (Prog.bind_ret _)
  cases r <;> rfl

/-- The awaits of a program. -/
def uncount {α : Type} : Prog LoadEff LoadAns α → Prog Eff Ans α
  | .ret a => .ret a
  | .eff (.await e) k => .eff e fun a => uncount (k a)
  | .eff .pickup k => uncount (k 0)
  | .eff .increment k | .eff .decrement k | .eff (.call _) k | .eff .ended k => uncount (k ())

/-- The coroutine without its updates. -/
def Counted.uncounted {α : Type} (x : Counted α) : Py α := ExceptT.mk (uncount x.run)

section uncounted

variable {α β : Type}

/-- Without its counters a sequence is the sequence of its parts. -/
theorem uncount_bind (p : Prog LoadEff LoadAns α) (f : α → Prog LoadEff LoadAns β) :
    uncount (p.bind f) = (uncount p).bind fun a => uncount (f a) := by
  induction p with
  | ret a => rfl
  | eff e k ih =>
      cases e with
      | await e => exact congrArg (Prog.eff e) (funext fun a => ih a)
      | pickup => exact ih 0
      | increment | decrement | call _ | ended => exact ih ()

/-- A program without counters is itself. -/
theorem uncount_embed (p : Prog Eff Ans α) :
    uncount (Prog.embed LoadEff.await p) = p := by
  induction p with
  | ret a => rfl
  | eff e k ih => exact congrArg (Prog.eff e) (funext fun a => ih a)

namespace Counted

/-- A value counts nothing. -/
@[simp] theorem uncounted_pure (a : α) : (pure a : Counted α).uncounted = pure a := rfl

/-- An exception counts nothing. -/
@[simp] theorem uncounted_throw (e : Exn) : (throw e : Counted α).uncounted = throw e := rfl

/-- What runs within the counter is the consumer's own code. -/
@[simp] theorem uncounted_within (x : Py α) : (within x).uncounted = x := uncount_embed x.run

/-- The counters of a sequence are dropped part by part. -/
@[simp] theorem uncounted_bind (x : Counted α) (f : α → Counted β) :
    (x >>= f).uncounted = x.uncounted >>= fun a => (f a).uncounted := by
  refine (uncount_bind _ _).trans (congrArg _ ?_)
  funext r
  cases r <;> rfl

/-- Those of a handler are dropped too. -/
@[simp] theorem uncounted_tryCatch (x : Counted α) (h : Exn → Counted α) :
    (tryCatch x h).uncounted = tryCatch x.uncounted fun e => (h e).uncounted := by
  refine (uncount_bind _ _).trans (congrArg _ ?_)
  funext r
  cases r <;> rfl

/-- A looked-at outcome is the one without counters. -/
@[simp] theorem uncounted_outcome (x : Counted α) :
    (outcome x).uncounted = NeuroVoice.outcomeOf x.uncounted := by
  simp only [outcome, NeuroVoice.outcomeOf, uncounted_tryCatch, uncounted_bind, uncounted_pure]

/-- What happens between awaits leaves no trace. -/
theorem uncounted_update (e : LoadEff) (x : Counted α) (he : ∀ e', e ≠ .await e') :
    (update e >>= fun _ => x).uncounted = x.uncounted := by
  cases e with
  | await e => exact absurd rfl (he e)
  | pickup | increment | decrement | call _ | ended => rfl

/-- To settle an outcome counts nothing. -/
@[simp] theorem uncounted_settled (r : Except Exn α) : (settled r).uncounted = liftExn r := by
  cases r <;> rfl

/-- A counter in a `finally` is dropped. -/
theorem uncounted_finallyUpdate (x : Counted α) (e : LoadEff) (he : ∀ e', e ≠ .await e') :
    (finallyUpdate x e).uncounted = x.uncounted := by
  simp only [finallyUpdate, uncounted_bind, uncounted_outcome, uncounted_update _ _ he,
    uncounted_settled]
  exact outcomeOf_liftExn x.uncounted

end Counted

namespace CountedConsumer

/-- A counted call of `_handle_one` is the call. -/
@[simp] theorem uncounted_handleOne (S : Settings) (c : Caller) (entry : Nat)
    (fields : EntryFields) :
    (handleOne S c entry fields).uncounted = WorkerConsumer.handleOne S entry fields := by
  rw [handleOne, uncounted_update _ _ (by simp), uncounted_finallyUpdate _ _ (by simp),
    uncounted_within]

/-- One turn is the consumer's turn. -/
theorem uncounted_tick (S : Settings) : (tick S).uncounted = WorkerConsumer.tick S := by
  rw [tick, WorkerConsumer.tick, uncounted_bind, uncounted_outcome, uncounted_within]
  refine congrArg _ (funext fun r => ?_)
  obtain (e | (_ | ⟨entry, fields⟩)) := r
  · cases e with
    | foreign x =>
        cases x with
        | responseError b => simp only [uncounted_bind, uncounted_within, uncounted_pure]
        | _ => rfl
    | _ => rfl
  · rfl
  · dsimp only
    rw [uncounted_update _ _ (by simp), uncounted_update _ _ (by simp), uncounted_bind,
      uncounted_finallyUpdate _ _ (by simp), uncounted_handleOne]
    rfl

/-- A sweep is the consumer's sweep. -/
theorem uncounted_xautoclaimSweep (S : Settings) :
    (xautoclaimSweep S).uncounted = WorkerConsumer.xautoclaimSweep S := by
  rw [xautoclaimSweep, WorkerConsumer.xautoclaimSweep, uncounted_bind, uncounted_outcome,
    uncounted_within]
  refine congrArg _ (funext fun r => ?_)
  obtain (e | (_ | ⟨entry, fields⟩)) := r
  · cases e with
    | foreign x => cases x <;> rfl
    | _ => rfl
  · rfl
  · exact uncounted_handleOne S .sweep entry fields

/-- A guarded turn is the consumer's. -/
theorem uncounted_guardedTick (S : Settings) :
    (guardedTick S).uncounted = WorkerConsumer.guardedTick S := by
  rw [guardedTick, WorkerConsumer.guardedTick, exceptException, uncounted_tryCatch, uncounted_tick]
  refine congrArg _ (funext fun e => ?_)
  split <;> rfl

/-- A sweep that may be due is the consumer's. -/
theorem uncounted_sweepIfDue (S : Settings) (handled : Bool) (lastSweepAt : Nat) :
    (sweepIfDue S handled lastSweepAt).uncounted =
      WorkerConsumer.sweepIfDue S handled lastSweepAt := by
  rw [sweepIfDue, WorkerConsumer.sweepIfDue, uncounted_bind, uncounted_within]
  refine congrArg _ (funext fun now => ?_)
  split
  · rw [uncounted_bind, uncounted_xautoclaimSweep, uncounted_within]
  · rfl

/-- The loop is the consumer's loop, by induction on its turns. -/
theorem uncounted_loop (S : Settings) (n lastSweepAt : Nat) :
    (loop S n lastSweepAt).uncounted = WorkerConsumer.loop S n lastSweepAt := by
  induction n generalizing lastSweepAt with
  | zero =>
      rw [loop, WorkerConsumer.loop, uncounted_bind, uncounted_within]
      refine congrArg _ (funext fun b => ?_)
      cases b <;> rfl
  | succ n ih =>
      rw [loop, WorkerConsumer.loop, uncounted_bind, uncounted_within]
      refine congrArg _ (funext fun b => ?_)
      cases b with
      | true => rfl
      | false =>
          refine (uncounted_bind _ _).trans ?_
          rw [uncounted_guardedTick]
          refine congrArg _ (funext fun handled => ?_)
          rw [uncounted_bind, uncounted_within]
          refine congrArg _ (funext fun b => ?_)
          cases b with
          | true => rfl
          | false =>
              refine (uncounted_bind _ _).trans ?_
              rw [uncounted_sweepIfDue]
              refine congrArg _ (funext fun t => ?_)
              cases handled with
              | true => exact ih t
              | false =>
                  refine (uncounted_bind _ _).trans ?_
                  rw [uncounted_within]
                  exact congrArg _ (funext fun _ => ih t)

/-- **Without its updates the loop is the loop** of `NeuroVoice.Consumer`. -/
theorem uncounted_run (S : Settings) (n : Nat) :
    (run S n).uncounted = WorkerConsumer.run S n := by
  simp only [run, WorkerConsumer.run, uncounted_bind, uncounted_within, uncounted_loop]

end CountedConsumer

end uncounted

/-! ## the reported load -/

/-- The fields of the consumer that a heartbeat reports. -/
structure ConsumerLoad where
  capacity : Int
  inFlight : Int
  lastPickupMs : Nat
  startedAtMs : Nat

/-- What `__init__` sets. -/
def ConsumerLoad.init (capacity : Int) (pickupMs startedMs : Nat) : ConsumerLoad where
  capacity := capacity
  inFlight := 0
  lastPickupMs := pickupMs
  startedAtMs := startedMs

/-- What an update does. -/
def ConsumerLoad.next (c : ConsumerLoad) : (e : LoadEff) → LoadAns e → ConsumerLoad
  | .pickup, now => { c with lastPickupMs := now }
  | .increment, _ => { c with inFlight := c.inFlight + 1 }
  | .decrement, _ => { c with inFlight := max 0 (c.inFlight - 1) }
  | _, _ => c

/-- The consumer's fields after a part of its run. -/
def ConsumerLoad.after (c : ConsumerLoad) (h : LoadLog) : ConsumerLoad :=
  h.foldl (fun c x => c.next x.1 x.2) c

/-- `WorkerHeartbeatState`. -/
structure WorkerHeartbeatState where
  capacity : Int
  inFlight : Int
  lastPickupMs : Nat
  startedAtMs : Nat

/-- `_get_heartbeat_state`. -/
def getHeartbeatState (c : ConsumerLoad) : WorkerHeartbeatState where
  capacity := c.capacity
  inFlight := c.inFlight
  lastPickupMs := c.lastPickupMs
  startedAtMs := c.startedAtMs

/-- The calls of `_handle_one` in progress. -/
def nextCalls (cs : List Caller) : LoadEff → List Caller
  | .call c => c :: cs
  | .ended => cs.tail
  | _ => cs

/-- The calls in progress after a part of a run, the innermost first. -/
def callsInProgress (h : LoadLog) : List Caller :=
  h.foldl (fun cs x => nextCalls cs x.1) []

/-- `XAUTOCLAIM` returned an entry. -/
def claims : (e : LoadEff) → LoadAns e → Bool
  | .await (.xautoclaim _ _), .ok (some _) => true
  | _, _ => false

/-- Everything the argument looks at. -/
structure LoadWatch where
  load : ConsumerLoad
  calls : List Caller
  claimed : Bool

namespace LoadWatch

/-- The calls that are not counted are the sweep's, and it makes them for
entries it has claimed. -/
structure Accounted (s : LoadWatch) : Prop where
  uncounted : s.load.inFlight + s.calls.count .sweep = s.calls.length
  claimed : Caller.sweep ∈ s.calls → s.claimed = true

/-- No call is in progress. -/
structure Idle (s : LoadWatch) : Prop where
  inFlight : s.load.inFlight = 0
  calls : s.calls = []

/-- Only claims may have happened in between. -/
structure Same (s s' : LoadWatch) : Prop where
  load : s'.load = s.load
  calls : s'.calls = s.calls
  claimed : s.claimed = true → s'.claimed = true

/-- What leaves the counters the same twice leaves them the same. -/
theorem Same.trans {s s' s'' : LoadWatch} (h : Same s s') (h' : Same s' s'') : Same s s'' :=
  ⟨h'.load.trans h.load, h'.calls.trans h.calls, fun hc => h'.claimed (h.claimed hc)⟩

/-- The counters stay accounted for where they stay the same. -/
theorem Accounted.same {s s' : LoadWatch} (h : Accounted s) (hs : Same s s') : Accounted s' := by
  constructor
  · rw [hs.load, hs.calls]
    exact h.uncounted
  · rw [hs.calls]
    exact fun hm => hs.claimed (h.claimed hm)

/-- So an idle worker stays idle. -/
theorem Idle.same {s s' : LoadWatch} (h : Idle s) (hs : Same s s') : Idle s' :=
  ⟨by rw [hs.load, h.inFlight], by rw [hs.calls, h.calls]⟩

/-- An idle worker has nothing to account for. -/
theorem Idle.accounted {s : LoadWatch} (h : Idle s) : Accounted s := by
  constructor
  · simp [h.inFlight, h.calls]
  · simp [h.calls]

/-- What the counter tells of the calls. -/
theorem Accounted.inFlight_eq_iff {s : LoadWatch} (h : Accounted s) :
    s.load.inFlight = s.calls.length ↔ Caller.sweep ∉ s.calls := by
  have := h.uncounted
  rw [← List.count_eq_zero]
  omega

end LoadWatch

/-- Every await finds the calls accounted for. -/
def loadMonitor : Monitor LoadEff LoadAns LoadWatch where
  possible _ _ := True
  allows
    | s, .await _ => s.Accounted
    | _, _ => True
  next s e a := ⟨s.load.next e a, nextCalls s.calls e, s.claimed || claims e a⟩

section accounted

variable {α β : Type} {s : LoadWatch} {Q : LoadWatch → α → Prop} {R : LoadWatch → Exn → Prop}

/-- The coroutine keeps the account. -/
abbrev Accounts (s : LoadWatch) (x : Counted α) (Q : LoadWatch → α → Prop)
    (R : LoadWatch → Exn → Prop) : Prop :=
  Spec loadMonitor s x Q R

/-- The consumer's own awaits leave the counters the same. -/
theorem same_await (s : LoadWatch) (e : Eff) (a : Ans e) :
    s.Same (loadMonitor.next s (.await e) a) := by
  refine ⟨rfl, rfl, fun h => ?_⟩
  simp [loadMonitor, h]

/-- A coroutine that updates nothing. -/
theorem conforms_within (p : Prog Eff Ans α) (hs : s.Accounted) :
    Conforms loadMonitor s (Prog.embed LoadEff.await p) fun s' _ => s.Same s' := by
  induction p generalizing s with
  | ret a => exact ⟨rfl, rfl, id⟩
  | eff e k ih =>
      refine ⟨hs, fun a _ => ?_⟩
      have hsame := same_await s e a
      exact (ih a (hs.same hsame)).mono fun _ _ h => hsame.trans h

/-- So does the consumer's own code. -/
theorem accounts_within (x : Py α) (hs : s.Accounted) :
    Accounts s (Counted.within x) (fun s' _ => s.Same s') fun s' _ => s.Same s' :=
  (conforms_within (ExceptT.run x) hs).mono fun _ r h => by cases r <;> exact h

/-- Sequencing with a known specification of the first part. -/
theorem Accounts.seq {x : Counted β} {f : β → Counted α} {Q' : LoadWatch → β → Prop}
    {R' : LoadWatch → Exn → Prop} (hx : Accounts s x Q' R')
    (hf : ∀ s' b, Q' s' b → Accounts s' (f b) Q R) (hR : ∀ s' e, R' s' e → R s' e) :
    Accounts s (x >>= f) Q R :=
  (spec_bind x f).2 (Spec.mono hx hf hR)

/-- A counter moves where it is allowed to. -/
theorem accounts_update {e : LoadEff} {f : LoadAns e → Counted α} (he : loadMonitor.allows s e)
    (hf : ∀ a, Accounts (loadMonitor.next s e a) (f a) Q R) :
    Accounts s (Counted.update e >>= f) Q R :=
  (spec_bind _ f).2 ⟨he, fun a _ => hf a⟩

/-- To look at an outcome makes its two ends one. -/
theorem accounts_outcome {x : Counted α} {Q : LoadWatch → Except Exn α → Prop} :
    Accounts s (Counted.outcome x) Q R ↔
      Accounts s x (fun s' a => Q s' (.ok a)) (fun s' e => Q s' (.error e)) := by
  simp only [Accounts, Counted.outcome, spec_tryCatch, spec_bind, spec_pure]

/-- A counter in a `finally` moves on both ends. -/
theorem accounts_finallyUpdate {x : Counted α} {e : LoadEff} (he : ∀ s, loadMonitor.allows s e)
    (hx : Accounts s x (fun s' a => ∀ b, Q (loadMonitor.next s' e b) a)
      fun s' x => ∀ b, R (loadMonitor.next s' e b) x) :
    Accounts s (Counted.finallyUpdate x e) Q R := by
  refine (spec_bind _ _).2 (accounts_outcome.2 (Spec.mono hx ?_ ?_))
  · exact fun s' a h => accounts_update (he s') fun b => h b
  · exact fun s' x h => accounts_update (he s') fun b => h b

/-- A worker between two calls stays between two calls. -/
abbrev StaysOut (s : LoadWatch) (x : Counted α) : Prop :=
  Accounts s x (fun s' _ => s'.Idle) fun s' _ => s'.Idle

/-- An idle worker stays out of jobs within the consumer's own code. -/
theorem staysOut_within (x : Py α) (hs : s.Idle) : StaysOut s (Counted.within x) :=
  Spec.mono (accounts_within x hs.accounted) (fun _ _ h => hs.same h) fun _ _ h => hs.same h

namespace CountedConsumer

variable {S : Settings}

/-- A call of `_handle_one`: it is over in the end. -/
theorem accounts_handleOne {c : Caller} (entry : Nat) (fields : EntryFields)
    (hs : (loadMonitor.next s (.call c) ()).Accounted) :
    Accounts s (handleOne S c entry fields)
      (fun s' _ => s'.load = s.load ∧ s'.calls = s.calls)
      fun s' _ => s'.load = s.load ∧ s'.calls = s.calls := by
  refine accounts_update trivial fun _ => accounts_finallyUpdate (fun _ => trivial) ?_
  have hover : ∀ s', (loadMonitor.next s (.call c) ()).Same s' →
      (loadMonitor.next s' .ended ()).load = s.load ∧
        (loadMonitor.next s' .ended ()).calls = s.calls := by
    intro s' h
    refine ⟨h.load, ?_⟩
    rw [show (loadMonitor.next s' .ended ()).calls = s'.calls.tail from rfl, h.calls]
    rfl
  exact Spec.mono (accounts_within _ hs) (fun s' _ h _ => hover s' h) fun s' _ h _ => hover s' h

/-- The counted call of `_tick`. -/
theorem staysOut_counted (hs : s.Idle) (entry : Nat) (fields : EntryFields) :
    Accounts (loadMonitor.next s .increment ())
      (finallyUpdate (handleOne S .tick entry fields) .decrement)
      (fun s' _ => s'.Idle) fun s' _ => s'.Idle := by
  have hin : (loadMonitor.next (loadMonitor.next s .increment ()) (.call .tick) ()).Accounted := by
    constructor
    · simp [loadMonitor, ConsumerLoad.next, nextCalls, hs.inFlight, hs.calls]
    · simp [loadMonitor, nextCalls, hs.calls]
  have hout : ∀ s', s'.load = (loadMonitor.next s .increment ()).load ∧
      s'.calls = (loadMonitor.next s .increment ()).calls →
      (loadMonitor.next s' .decrement ()).Idle := by
    rintro s' ⟨hload, hcalls⟩
    constructor
    · simp [loadMonitor, ConsumerLoad.next, hload, hs.inFlight]
    · simp [loadMonitor, nextCalls, hcalls, hs.calls]
  refine accounts_finallyUpdate (fun _ => trivial) ?_
  exact Spec.mono (accounts_handleOne entry fields hin) (fun s' _ h _ => hout s' h)
    fun s' _ h _ => hout s' h

/-- The answer of an await, and whether it claimed an entry. -/
theorem accounts_answer {e : Eff} (hs : s.Idle) :
    Accounts s (outcome (within (await e)))
      (fun s' r => s'.Idle ∧ (claims (.await e) r = true → s'.claimed = true))
      fun s' _ => s'.Idle := by
  refine accounts_outcome.2 ⟨hs.accounted, fun a _ => ?_⟩
  have hidle := hs.same (same_await s e a)
  cases a with
  | error x => exact ⟨hidle, fun h => by simp [loadMonitor, h]⟩
  | ok b => exact ⟨hidle, fun h => by simp [loadMonitor, h]⟩

/-- A turn of the loop enters as many jobs as it leaves. -/
theorem staysOut_tick (hs : s.Idle) : StaysOut s (tick S) := by
  refine (accounts_answer hs).seq (fun s' r h => ?_) fun _ _ h => h
  obtain ⟨h, -⟩ := h
  obtain (e | (_ | ⟨entry, fields⟩)) := r
  · split
    · exact (staysOut_within _ h).seq (fun _ _ h => h) fun _ _ h => h
    · exact h
    · exact h
    · next heq => cases heq
  · exact h
  · refine accounts_update trivial fun now => accounts_update trivial fun _ => ?_
    have hpicked : (loadMonitor.next s' .pickup now).Idle := ⟨h.inFlight, h.calls⟩
    exact (staysOut_counted hpicked entry fields).seq (fun _ _ h => h) fun _ _ h => h

/-- The call of the sweep, which has claimed the entry. -/
theorem staysOut_swept (hs : s.Idle) (hclaimed : s.claimed = true) (entry : Nat)
    (fields : EntryFields) : StaysOut s (handleOne S .sweep entry fields) := by
  have hin : (loadMonitor.next s (.call .sweep) ()).Accounted := by
    constructor
    · simp [loadMonitor, ConsumerLoad.next, nextCalls, hs.inFlight, hs.calls]
    · simp [loadMonitor, hclaimed]
  have hout : ∀ s' : LoadWatch, s'.load = s.load ∧ s'.calls = s.calls → s'.Idle := by
    rintro s' ⟨hload, hcalls⟩
    exact ⟨by rw [hload, hs.inFlight], by rw [hcalls, hs.calls]⟩
  exact Spec.mono (accounts_handleOne entry fields hin) (fun s' _ h => hout s' h)
    fun s' _ h => hout s' h

/-- So does a sweep. -/
theorem staysOut_xautoclaimSweep (hs : s.Idle) : StaysOut s (xautoclaimSweep S) := by
  refine (accounts_answer hs).seq (fun s' r h => ?_) fun _ _ h => h
  obtain ⟨hidle, hclaims⟩ := h
  obtain (e | (_ | ⟨entry, fields⟩)) := r
  · split
    · exact hidle
    · exact hidle
    · exact hidle
    · next heq => cases heq
  · exact hidle
  · exact staysOut_swept hidle (hclaims rfl) entry fields

/-- So does a guarded turn. -/
theorem staysOut_guardedTick (hs : s.Idle) : StaysOut s (guardedTick S) := by
  refine (spec_tryCatch _ _).2 (Spec.mono (staysOut_tick hs) (fun _ _ h => h) fun _ _ h => ?_)
  split
  · exact h
  · exact h

/-- So does a sweep that may be due. -/
theorem staysOut_sweepIfDue (hs : s.Idle) (handled : Bool) (lastSweepAt : Nat) :
    StaysOut s (sweepIfDue S handled lastSweepAt) := by
  refine (staysOut_within _ hs).seq (fun s₁ now h₁ => ?_) fun _ _ h => h
  split
  · exact (staysOut_xautoclaimSweep h₁).seq (fun _ _ h₂ => staysOut_within _ h₂) fun _ _ h => h
  · exact h₁

/-- So does the loop, by induction on its turns. -/
theorem staysOut_loop (hs : s.Idle) (n lastSweepAt : Nat) :
    StaysOut s (loop S n lastSweepAt) := by
  induction n generalizing s lastSweepAt with
  | zero =>
      refine (staysOut_within _ hs).seq (fun s₁ b h₁ => ?_) fun _ _ h => h
      cases b <;> exact h₁
  | succ n ih =>
      refine (staysOut_within _ hs).seq (fun s₁ b h₁ => ?_) fun _ _ h => h
      cases b with
      | true => exact h₁
      | false =>
          refine (staysOut_guardedTick h₁).seq (fun s₂ handled h₂ => ?_) fun _ _ h => h
          refine (staysOut_within _ h₂).seq (fun s₃ b h₃ => ?_) fun _ _ h => h
          cases b with
          | true => exact h₃
          | false =>
              refine (staysOut_sweepIfDue h₃ handled lastSweepAt).seq (fun s₄ t h₄ => ?_)
                fun _ _ h => h
              cases handled with
              | true => exact ih h₄ t
              | false =>
                  exact (staysOut_within _ h₄).seq (fun _ _ h₅ => ih h₅ t) fun _ _ h => h

/-- Every await of a worker finds the calls accounted for. -/
theorem staysOut_run (hs : s.Idle) (n : Nat) : StaysOut s (run S n) := by
  refine (staysOut_within _ hs).seq (fun _ _ h₁ => ?_) fun _ _ h => h
  exact (staysOut_within _ h₁).seq (fun _ t h₂ => staysOut_loop h₂ n t) fun _ _ h => h

end CountedConsumer

end accounted

/-! ## whole runs -/

/-- The monitor's fields are those of the run. -/
theorem loadMonitor_after (s : LoadWatch) (h : LoadLog) :
    (loadMonitor.after s h).load = s.load.after h ∧
      (loadMonitor.after s h).calls = h.foldl (fun cs x => nextCalls cs x.1) s.calls ∧
      (loadMonitor.after s h).claimed = (s.claimed || h.any fun x => claims x.1 x.2) := by
  induction h generalizing s with
  | nil => exact ⟨rfl, rfl, by simp [Monitor.after]⟩
  | cons x h ih =>
      obtain ⟨hload, hcalls, hclaimed⟩ := ih (loadMonitor.next s x.1 x.2)
      refine ⟨hload, hcalls, hclaimed.trans ?_⟩
      simp [loadMonitor, Bool.or_assoc]

/-- **The load a worker reports** at an await is the number of `_handle_one`
calls in progress exactly when none of them is the sweep's, and the sweep only
makes one for an entry that `XAUTOCLAIM` returned. -/
theorem heartbeat_accuracy (S : Settings) (n : Nat) (capacity : Int) (pickupMs startedMs : Nat)
    (past rest : LoadLog) (e : Eff) (a : Ans e)
    (hrun : (CountedConsumer.run S n).run.Emits (past ++ ⟨.await e, a⟩ :: rest)) :
    ((getHeartbeatState ((ConsumerLoad.init capacity pickupMs startedMs).after past)).inFlight =
        (callsInProgress past).length ↔ Caller.sweep ∉ callsInProgress past) ∧
      (Caller.sweep ∈ callsInProgress past → past.any (fun x => claims x.1 x.2) = true) := by
  have hidle : LoadWatch.Idle ⟨ConsumerLoad.init capacity pickupMs startedMs, [], false⟩ :=
    ⟨rfl, rfl⟩
  have hspec := CountedConsumer.staysOut_run (S := S) hidle n
  have hallows : (loadMonitor.after _ past).Accounted := Conforms.allows hspec
    (fun _ _ => trivial) hrun
  obtain ⟨hload, hcalls, hclaimed⟩ := loadMonitor_after
    ⟨ConsumerLoad.init capacity pickupMs startedMs, [], false⟩ past
  have hiff := hallows.inFlight_eq_iff
  have himp := hallows.claimed
  rw [hload, hcalls] at hiff
  rw [hcalls, hclaimed, Bool.false_or] at himp
  exact ⟨hiff, himp⟩

/-! ## a fresh entry and a stale one -/

/-- A job on the stream. -/
def strandedJob : TtsJobPayload where
  requestId := .str (uuidStr 1)
  tenantId := .str (uuidStr 2)
  apiKeyId := .str (uuidStr 3)
  voiceId := .ofStr "v"
  text := .ofStr "hi"

/-- Redis has one entry for the worker: it is new, or has been pending too
long. -/
def oneEntry (stale : Bool) : (e : LoadEff) → LoadAns e
  | .await .xgroupCreate => .ok ()
  | .await .clock => .ok 0
  | .await .stopSet => .ok false
  | .await (.xreadgroup _) => .ok (if stale then none else some (7, strandedJob.encode))
  | .await (.xautoclaim _ _) => .ok (some (7, strandedJob.encode))
  | .await (.xpendingRange _) => .ok (some 1)
  | .await _ => .error (.foreign .baseException)
  | .pickup => (0 : Nat)
  | .increment | .decrement | .call _ | .ended => ()

/-- A run up to the first await of `_handle_one`. -/
def firstCall (stale : Bool) : LoadLog :=
  (CountedConsumer.run plain 1).run.history (oneEntry stale) (if stale then 8 else 7)

/-- The example's run of the consumer. -/
theorem firstCall_emits (stale : Bool) : (CountedConsumer.run plain 1).run.Emits
    (firstCall stale ++ [⟨.await (.xpendingRange 7), .ok (some 1)⟩]) := by
  have h := Prog.emits_history (oneEntry stale) (if stale then 9 else 8)
    (CountedConsumer.run plain 1).run
  cases stale <;> exact h

/-- The new entry is counted. -/
theorem heartbeat_accuracy_fresh :
    (getHeartbeatState ((ConsumerLoad.init 1 0 0).after (firstCall false))).inFlight =
      (callsInProgress (firstCall false)).length :=
  (heartbeat_accuracy plain 1 1 0 0 (firstCall false) [] (.xpendingRange 7) (.ok (some 1))
    (firstCall_emits false)).1.2 (by decide)

/-- The stale entry is handled by a worker that reports itself idle. -/
theorem swept_job_not_counted :
    ¬∀ (S : Settings) (n : Nat) (capacity : Int) (pickupMs startedMs : Nat)
      (past rest : LoadLog) (e : Eff) (a : Ans e),
      (CountedConsumer.run S n).run.Emits (past ++ ⟨.await e, a⟩ :: rest) →
      (getHeartbeatState ((ConsumerLoad.init capacity pickupMs startedMs).after past)).inFlight =
        (callsInProgress past).length := by
  intro h
  have hload := h plain 1 1 0 0 (firstCall true) [] (.xpendingRange 7) (.ok (some 1))
    (firstCall_emits true)
  have hzero :
      (getHeartbeatState ((ConsumerLoad.init 1 0 0).after (firstCall true))).inFlight = 0 := rfl
  have hone : (callsInProgress (firstCall true)).length = 1 := rfl
  rw [hzero, hone] at hload
  exact absurd hload (by decide)

end NeuroVoice
