import NeuroVoice.Pipeline
import NeuroVoice.Ws

/-!
# NeuroVoice.Quiet

Rules for monitors that watch a few awaits and ignore the rest.

`Plain` programs only do bookkeeping: clocks, the ledger's tables, result
entries without audio.  A monitor that ignores these (`Monitor.Quiet`) passes
over a plain part of a program in one step, so a specification follows the
text from one watched await to the next.
-/

namespace NeuroVoice

/-- Neither a final marker nor an error. -/
def TtsResult.isAudio (r : TtsResult) : Bool := !r.final && !r.hasError

/-- Awaits that neither ask for a voice nor handle its audio. -/
def Eff.plain : Eff → Prop
  | .selectVoice _ _ | .selectWatermarkKey _ | .selectConsent _ | .xaddJob _
  | .resolveReference _ | .loadApplier | .applierAvailable | .watermarkPcm _ _ _
  | .synthesize _ | .archive _ _ _ => False
  | .xaddResult r => r.isAudio = false
  | _ => True

/-- Awaits of the clock, the ledger's tables, the gauges, the results and the
client. -/
def Eff.routine : Eff → Prop
  | .clock | .uuid4 | .sleep | .xlen | .xinfoGroups | .clusterCapacity | .delResults _
  | .expireResults _ _ | .xreadResults _ _ | .selectIdem _ _ _ | .insertIdem _ _ _ _ _
  | .updateIdem _ _ | .deleteIdem _ _ | .selectUsage _ _ | .insertUsage _ _ | .insertAudit _
  | .commit | .rollback | .close | .wsSend _ => True
  | _ => False

/-- What only reads the clock, the tables and the gauges has nothing to do with a
voice's audio. -/
theorem Eff.routine.plain {e : Eff} (h : e.routine) : e.plain := by
  cases e <;> trivial

/-- A monitor that plain awaits neither need nor move. -/
class Monitor.Quiet {φ : Type} (m : Monitor Eff Ans φ) : Prop where
  ignores : ∀ {e : Eff}, e.plain → ∀ s, m.allows s e ∧ ∀ a, m.next s e a = s

/-- A program with only awaits of `P`. -/
abbrev Only {α : Type} (P : Eff → Prop) (x : Py α) : Prop :=
  Spec (Monitor.only P) () x (fun _ _ => True) fun _ _ => True

/-- A program with only plain awaits. -/
abbrev Plain {α : Type} (x : Py α) : Prop := Only Eff.plain x

namespace Only

variable {α β : Type} {P : Eff → Prop}

/-- No await, no condition. -/
theorem ret (a : α) : Only P (pure a : Py α) := trivial

/-- An exception is raised without an await. -/
theorem raise (e : Exn) : Only P (throw e : Py α) := trivial

/-- A single await meets the condition, or not. -/
theorem call {e : Eff} (h : P e) : Only P (await e) :=
  (spec_callE e).2 ⟨h, fun _ _ => trivial, fun _ _ => trivial⟩

/-- The awaits of a sequence are those of its parts. -/
theorem bind {x : Py β} {f : β → Py α} (hx : Only P x) (hf : ∀ b, Only P (f b)) :
    Only P (x >>= f) :=
  (spec_bind x f).2 (Spec.mono hx (fun _ b _ => hf b) fun _ _ _ => trivial)

/-- An await, and what follows it. -/
theorem tick {e : Eff} {f : Ret e → Py α} (he : P e) (hf : ∀ b, Only P (f b)) :
    Only P (await e >>= f) :=
  bind (call he) hf

/-- A pure result that may be an exception of the source has no await. -/
theorem liftExn (x : Except Exn α) : Only P (liftExn x) := by
  cases x <;> trivial

/-- A pure result that may be a foreign exception has no await. -/
theorem liftPy (x : Except Foreign α) : Only P (liftPy x) := liftExn _

/-- The awaits of a handler count, though it may never run. -/
theorem tryCatch {x : Py α} {h : Exn → Py α} (hx : Only P x) (hh : ∀ e, Only P (h e)) :
    Only P (tryCatch x h) :=
  (spec_tryCatch _ _).2 (Spec.mono hx (fun _ _ _ => trivial) fun _ e _ => hh e)

/-- To look at the outcome adds no await. -/
theorem outcomeOf {x : Py α} (hx : Only P x) : Only P (outcomeOf x) :=
  tryCatch (hx.bind fun _ => ret _) fun _ => ret _

/-- As `tryCatch`, for handlers that let a `BaseException` through. -/
theorem exceptException {x : Py α} {h : Exn → Py α} (hx : Only P x) (hh : ∀ e, Only P (h e)) :
    Only P (exceptException x h) := by
  refine tryCatch hx fun e => ?_
  split
  · exact hh e
  · exact raise e

/-- A `finally` adds its own await. -/
theorem finallyDo {x : Py α} {y : Eff} (hx : Only P x) (hy : P y) :
    Only P (finallyDo x y) :=
  hx.outcomeOf.bind fun r => tick hy fun _ => liftExn r

/-- A condition may be weakened. -/
theorem mono {P' : Eff → Prop} {x : Py α} (hx : Only P x) (hP : ∀ e, P e → P' e) : Only P' x :=
  Spec.mono (Spec.of_only hx fun e he => ⟨hP e he, fun _ => rfl⟩) (fun _ _ _ => trivial)
    fun _ _ _ => trivial

end Only

/-- The monitor allows the program, and it ends with `Q` unless it raises. -/
abbrev Goes {φ α : Type} (m : Monitor Eff Ans φ) (s : φ) (x : Py α) (Q : φ → α → Prop) : Prop :=
  Spec m s x Q fun _ _ => True

namespace Goes

variable {φ α β : Type} {m : Monitor Eff Ans φ} {s : φ} {Q : φ → α → Prop}

/-- An await moves the monitor one step. -/
theorem call {e : Eff} {Q : φ → Ret e → Prop} (hal : m.allows s e)
    (hok : ∀ b, Q (m.next s e (.ok b)) b) : Goes m s (await e) Q :=
  (spec_callE e).2 ⟨hal, fun b _ => hok b, fun _ _ => trivial⟩

/-- A sequence goes on from whichever state its first part left. -/
theorem seq {x : Py β} {f : β → Py α} {Q' : φ → β → Prop} (hx : Goes m s x Q')
    (hf : ∀ s' b, Q' s' b → Goes m s' (f b) Q) : Goes m s (x >>= f) Q :=
  (spec_bind x f).2 (Spec.mono hx hf fun _ _ _ => trivial)

/-- A first await. -/
theorem step {e : Eff} {f : Ret e → Py α} (hal : m.allows s e)
    (hf : ∀ b, Goes m (m.next s e (.ok b)) (f b) Q) : Goes m s (await e >>= f) Q :=
  (spec_bind _ f).2 (call hal hf)

/-- A first part that does not return. -/
theorem stops {x : Py β} {f : β → Py α} (hx : Goes m s x fun _ _ => False) :
    Goes m s (x >>= f) Q :=
  seq hx fun _ _ h => h.elim

/-- A handler that raises. -/
theorem handler {x : Py α} {g : Exn → Exn} (hx : Goes m s x Q) :
    Goes m s (exceptException x fun e => throw (g e)) Q := by
  refine (spec_tryCatch _ _).2 (Spec.mono hx (fun _ _ h => h) fun s' e _ => ?_)
  split <;> trivial

/-- A looked-at outcome promises what the program does, if it returned. -/
theorem outcomeOf {x : Py α} (hx : Goes m s x Q) :
    Goes m s (outcomeOf x) fun s' r => ∀ a, r = .ok a → Q s' a := by
  refine (spec_tryCatch _ _).2 ?_
  refine Spec.mono (Q := fun s' r => ∀ a, r = .ok a → Q s' a) (R := fun _ _ => True) ?_
    (fun _ _ h => h) fun s' e _ => ?_
  · exact seq hx fun s' a ha => (spec_pure _).2 fun b hb => by cases hb; exact ha
  · exact (spec_pure _).2 fun b hb => by cases hb

/-- A part the monitor ignores. -/
theorem only {P : Eff → Prop} {x : Py α} (hx : Only P x)
    (hP : ∀ e, P e → m.allows s e ∧ ∀ a, m.next s e a = s) : Goes m s x fun s' _ => s' = s :=
  Spec.mono (Spec.of_only hx hP) (fun _ _ h => h.1) fun _ _ _ => trivial

variable [m.Quiet]

/-- A plain part. -/
theorem plain {x : Py α} (hx : Plain x) : Goes m s x fun s' _ => s' = s :=
  only hx fun _ he => Monitor.Quiet.ignores he s

/-- A plain end. -/
theorem done {x : Py α} (hx : Plain x) : Goes m s x fun _ _ => True :=
  Spec.mono (plain hx) (fun _ _ _ => trivial) fun _ _ _ => trivial

/-- A first part that is plain. -/
theorem after {x : Py β} {f : β → Py α} (hx : Plain x) (hf : ∀ b, Goes m s (f b) Q) :
    Goes m s (x >>= f) Q :=
  seq (plain hx) fun _ b h => h ▸ hf b

/-- A first await that is plain. -/
theorem tick {e : Eff} {f : Ret e → Py α} (he : e.plain) (hf : ∀ b, Goes m s (f b) Q) :
    Goes m s (await e >>= f) Q :=
  after (.call he) hf

/-- A plain await in a `finally` does not move the monitor. -/
theorem finallyDo {x : Py α} {y : Eff} (hy : y.plain) (hx : Goes m s x Q) :
    Goes m s (finallyDo x y) Q := by
  refine seq hx.outcomeOf fun s' r hr => tick hy fun _ => ?_
  cases r with
  | ok a => exact hr a rfl
  | error e => trivial

end Goes

/-! ## plain parts of the pipeline -/

section pipeline

variable {S : Settings} {job : TtsJobPayload} {P : Eff → Prop}

/-- A result without audio is no audio that is handled. -/
theorem plain_xaddResult {r : TtsResult} (h : r.isAudio = false) : Plain (xaddResult S r) :=
  Only.tick h fun _ => .call trivial

/-- All it asks for is the time. -/
theorem only_queueWaitMs (hclock : P .clock) (started : Option Nat) :
    Only P (queueWaitMs job started) := by
  unfold queueWaitMs
  split
  · exact .ret none
  · cases started with
    | some t => exact (Only.liftPy _).bind fun _ => .ret _
    | none => exact Only.tick hclock fun t => (Only.liftPy _).bind fun _ => .ret _

/-- A flush is an update at most. -/
theorem only_flush {rid : Uuid} {patch : IdemPatch}
    (hupdate : P (.updateIdem rid patch)) : Only P (IdempotencyRepo.flush rid patch) := by
  unfold IdempotencyRepo.flush
  split
  · exact .ret ()
  · exact .call hupdate

/-- The failure's row, usage and status are all written by routine statements. -/
theorem only_recordFailure (hP : ∀ e : Eff, e.routine → P e) (ids : JobIds) (f : Failure) :
    Only P (recordFailure S job ids f) := by
  refine Only.bind ?_ fun _ => ?_
  · refine Only.tick (hP _ trivial) fun row => ?_
    cases row with
    | none => exact .ret ()
    | some row => exact only_flush (hP _ trivial)
  · refine Only.tick (hP _ trivial) fun u => ?_
    cases u with
    | some u => exact .call (hP _ trivial)
    | none =>
        refine Only.bind ?_ fun u => Only.tick (hP _ trivial) fun _ => .call (hP _ trivial)
        refine (Only.liftPy _).bind fun n => ?_
        exact (only_queueWaitMs (hP _ trivial) none).bind fun t => .ret _

/-- A failure with a code has a message to show. -/
theorem Failure.shown_ne {f : Failure} (h : f.errorCode ≠ "") : f.shown ≠ "" := by
  unfold Failure.shown
  split
  · exact h
  · next hm => exact hm

/-- To fail a job terminally handles no audio: its marker carries an error. -/
theorem plain_markTerminalFailure (attempt : Nat) {f : Failure} (h : f.errorCode ≠ "") :
    Plain (markTerminalFailure S job attempt f) := by
  refine (Only.liftPy _).bind fun ids => Only.bind (plain_xaddResult ?_) fun _ => ?_
  · simp [TtsResult.isAudio, TtsResult.hasError, Failure.shown_ne h]
  · exact (only_recordFailure (fun _ => Eff.routine.plain) ids f).finallyDo trivial

/-- A poisoned job is failed, without audio. -/
theorem plain_poison {α : Type} (attempt started : Nat) {code : String} (h : code ≠ "")
    (message : String) (seq : Nat) (raised : String) :
    Plain (poison S job attempt started code message seq raised : Py α) :=
  Only.tick trivial fun _ => (plain_markTerminalFailure attempt h).bind fun _ => .raise _

/-- A poison exit raises. -/
theorem Goes.poison {φ α : Type} {m : Monitor Eff Ans φ} [m.Quiet] {s : φ} {Q : φ → α → Prop}
    (attempt started : Nat) {code : String} (h : code ≠ "") (message : String) (seq : Nat)
    (raised : String) :
    Goes m s (poison S job attempt started code message seq raised) Q := by
  refine tick trivial fun now => after (plain_markTerminalFailure attempt h) fun _ => ?_
  exact trivial

/-- The voice of a job: its lookup, and what its watermark needs. -/
theorem Goes.resolveVoice {φ : Type} {m : Monitor Eff Ans φ} [m.Quiet] {s : φ} {ids : JobIds}
    {attempt started : Nat} {Q : φ → Voice × Option Nat → Prop}
    {R : φ → Option Voice × Option Nat → Prop} (hfound : Goes m s (lookupVoice ids job) R)
    (hneeds : ∀ s' voice bits, R s' (some voice, bits) →
      Goes m s' (requireWatermark S job attempt started voice bits) fun s' _ => Q s' (voice, bits)) :
    Goes m s (resolveVoice S job ids attempt started) Q := by
  refine hfound.seq fun s' r hr => ?_
  obtain ⟨found, bits⟩ := r
  cases found with
  | none => exact Goes.poison attempt started (by decide) _ _ _
  | some voice => exact (hneeds s' voice bits hr).seq fun s'' _ h => (spec_pure _).2 h

/-- The reference of a job, for a monitor that its download does not move. -/
theorem Goes.resolveReference {φ : Type} {m : Monitor Eff Ans φ} [m.Quiet] {s : φ} {voice : Voice}
    {attempt started : Nat} (hal : m.allows s (.resolveReference voice.referenceUri))
    (hkeep : ∀ path, m.next s (.resolveReference voice.referenceUri) (.ok path) = s) :
    Goes m s (resolveReference S job attempt started voice) fun s' _ => s' = s := by
  refine Goes.tick trivial fun t₀ => ?_
  have hcall : Goes m s (await (.resolveReference voice.referenceUri)) fun s' _ => s' = s :=
    Goes.call hal hkeep
  refine hcall.outcomeOf.seq fun s' r hr => ?_
  cases r with
  | ok path =>
      rw [hr path rfl]
      exact Goes.tick trivial fun t₁ => (spec_pure _).2 rfl
  | error e =>
      split
      · next h => cases h
      · exact Goes.poison attempt started (by decide) _ _ _
      · exact trivial

/-- To stamp a time once, the clock is read at most. -/
theorem only_stampOnce (hclock : P .clock) (since : Nat) (t : Option Nat) :
    Only P (stampOnce since t) := by
  cases t with
  | some t => exact .ret _
  | none => exact Only.tick hclock fun now => .ret _

/-- A stamp is no audio. -/
theorem plain_stampOnce (since : Nat) (t : Option Nat) : Plain (stampOnce since t) :=
  only_stampOnce trivial since t

/-- The success's row, usage and status are all written by routine statements. -/
theorem only_recordSuccess (hP : ∀ e : Eff, e.routine → P e) (ids : JobIds) (p : Produced)
    (f : Finished) : Only P (recordSuccess S job ids p f) := by
  refine Only.bind ?_ fun _ => Only.bind ?_ fun u => ?_
  · refine Only.tick (hP _ trivial) fun row => ?_
    cases row with
    | none => exact .ret ()
    | some row => exact only_flush (hP _ trivial)
  · exact (Only.liftPy _).bind fun n => (only_queueWaitMs (hP _ trivial) _).bind fun t => .ret _
  · exact Only.tick (hP _ trivial) fun _ => .call (hP _ trivial)

/-- So is the transaction around them. -/
theorem only_commitSuccess (hP : ∀ e : Eff, e.routine → P e) (ids : JobIds) (p : Produced)
    (f : Finished) : Only P (commitSuccess S job ids p f) := by
  refine Only.exceptException ?_ fun _ => .raise _
  exact (only_recordSuccess hP ids p f).finallyDo (hP _ trivial)

/-- The success transaction handles no audio: that was published before. -/
theorem plain_commitSuccess (ids : JobIds) (p : Produced) (f : Finished) :
    Plain (commitSuccess S job ids p f) :=
  only_commitSuccess (fun _ => Eff.routine.plain) ids p f

/-- A preset is looked up in a table, or the job is poisoned. -/
theorem plain_resolvePreset (attempt started : Nat) :
    Plain (resolvePreset S job attempt started) := by
  unfold resolvePreset
  split
  · exact .ret _
  · exact plain_poison attempt started (by decide) _ _ _
  · exact .raise _

/-- No quiet monitor moves while the preset is resolved. -/
theorem goes_resolvePreset {φ : Type} {m : Monitor Eff Ans φ} [m.Quiet] {s : φ}
    (attempt started : Nat) :
    Goes m s (resolvePreset S job attempt started) fun s' _ => s' = s := by
  unfold resolvePreset
  split
  · exact (spec_pure _).2 rfl
  · exact Goes.poison attempt started (by decide) _ _ _
  · exact trivial

end pipeline

/-! ## plain parts of the gateway -/

section plain

variable {S : Settings} {ctx : AuthContext} {P : Eff → Prop}

/-- The gateway's look-up of a preset awaits nothing. -/
theorem only_requestPreset (modelId : Option PyStr) :
    Only P (requestPreset S modelId) := by
  unfold requestPreset
  split
  · exact .ret _
  · exact .raise _
  · exact .raise _

/-- So it is plain. -/
theorem plain_requestPreset (modelId : Option PyStr) : Plain (requestPreset S modelId) :=
  only_requestPreset modelId

/-- The awaits of the backpressure check. -/
def Eff.gauges : Eff → Prop
  | .xlen | .xinfoGroups | .clusterCapacity | .insertAudit _ | .commit => True
  | _ => False

/-- The depth of the backlog is read from the gauges of the stream. -/
theorem only_backlogDepth : Only Eff.gauges backlogDepth := by
  refine Only.tick trivial fun xlen => Only.bind ?_ fun groups => ?_
  · exact .exceptException (.call trivial) fun _ => .ret _
  · split <;> exact .ret _

/-- The decision takes no more than these gauges. -/
theorem only_computeBackpressureDecision :
    Only Eff.gauges (computeBackpressureDecision S) := by
  refine only_backlogDepth.bind fun depth => Only.bind ?_ fun cluster => ?_
  · exact .exceptException (.tick trivial fun _ => .ret _) fun _ => .ret _
  · dsimp only
    split
    · split <;> exact .ret _
    · split <;> exact .ret _

/-- Nor does the refusal that follows from it. -/
theorem only_checkQueueDepthOr503 : Only Eff.gauges (checkQueueDepthOr503 S) := by
  refine only_computeBackpressureDecision.bind fun decision => ?_
  cases decision with
  | none => exact .ret ()
  | some reason => exact .tick trivial fun _ => .tick trivial fun _ => .raise _

/-- The gauges are routine. -/
theorem Eff.gauges.routine {e : Eff} (h : e.gauges) : e.routine := by
  cases e <;> trivial

/-- Backpressure looks at no voice. -/
theorem plain_computeBackpressureDecision : Plain (computeBackpressureDecision S) :=
  only_computeBackpressureDecision.mono fun _ h => h.routine.plain

/-- Its refusal looks at none either. -/
theorem plain_checkQueueDepthOr503 : Plain (checkQueueDepthOr503 S) :=
  only_checkQueueDepthOr503.mono fun _ h => h.routine.plain

/-- A replay answers from the row that was read, without an await. -/
theorem only_replay (rid : Uuid) (requestHash : PyStr) (row : JobIdempotency) :
    Only P (IdempotencyRepo.replay rid requestHash row) := by
  unfold IdempotencyRepo.replay
  split
  · exact .raise _
  · exact .ret _

/-- A conflict turned into a 409 awaits what the conflicting call awaited. -/
theorem only_conflictTo409 {α : Type} {x : Py α} (hx : Only P x) : Only P (conflictTo409 x) := by
  refine .tryCatch hx fun e => ?_
  split <;> exact .raise _

section routine

variable (hP : ∀ e : Eff, e.routine → P e)

include hP

/-- A reservation is made of routine statements of the ledger. -/
theorem only_reserveOrGet (tenant rid apiKey : Uuid) (requestHash : PyStr) (ttl : Option Nat) :
    Only P (IdempotencyRepo.reserveOrGet tenant rid apiKey requestHash ttl) := by
  refine Only.tick (hP _ trivial) fun row => ?_
  cases row with
  | some row => exact only_replay _ _ _
  | none =>
      refine Only.bind (.outcomeOf (.call (hP _ trivial))) fun r => ?_
      have hreread : Only P (IdempotencyRepo.reread tenant rid apiKey requestHash ttl) := by
        refine Only.tick (hP _ trivial) fun _ => Only.tick (hP _ trivial) fun winner => ?_
        cases winner with
        | none => exact .tick (hP _ trivial) fun _ => .ret _
        | some winner => exact only_replay _ _ _
      split
      · exact .ret _
      · exact hreread
      · exact .raise _

/-- So is the decision between a replay and a reservation. -/
theorem only_replayOrReserve (key : Uuid) (requestHash : PyStr) :
    Only P (replayOrReserve S ctx key requestHash) := by
  refine Only.tick (hP _ trivial) fun row => ?_
  cases row with
  | some row =>
      dsimp only
      split
      · exact Only.bind (.raise _) fun _ => .ret _
      · exact .ret _
  | none =>
      refine (only_checkQueueDepthOr503.mono fun _ h => hP _ h.routine).bind fun _ => ?_
      exact (only_reserveOrGet hP _ _ _ _ _).bind fun _ => .ret _

/-- A request id is read from the header or drawn. -/
theorem only_requestIdFor (h : Headers) : Only P (requestIdFor h) := by
  unfold requestIdFor
  split
  · exact .ret _
  · exact .call (hP _ trivial)

/-- A reader is as quiet as its consumer. -/
theorem only_consumeResultStream {σ : Type} {onChunk : σ → TtsResult → Py (σ × Bool)}
    (hon : ∀ acc chunk, Only P (onChunk acc chunk)) (rid : Uuid) (timeoutMs fuel : Nat) (acc : σ) :
    Only P (consumeResultStream onChunk rid timeoutMs fuel acc) := by
  have hfeed : ∀ (batch : List (Nat × TtsResult)) (st : ReadState) (acc : σ),
      Only P (feedAll onChunk batch st acc) := by
    intro batch
    induction batch with
    | nil => exact fun st acc => .ret _
    | cons entry rest ih =>
        intro st acc
        unfold feedAll
        dsimp only
        split
        · refine (hon acc _).bind fun r => ?_
          split
          · exact .ret _
          · split
            · exact .ret _
            · exact ih _ _
        · exact ih _ _
  have hloop : ∀ (deadline n : Nat) (st : ReadState) (acc : σ),
      Only P (readLoop onChunk rid deadline n st acc) := by
    intro deadline n
    induction n with
    | zero => exact fun st acc => .ret _
    | succ n ih =>
        intro st acc
        refine Only.tick (hP _ trivial) fun now => ?_
        split
        · exact .ret _
        · refine Only.bind (.outcomeOf (.call (hP _ trivial))) fun r => ?_
          split
          · exact .ret _
          · exact .tick (hP _ trivial) fun _ => ih _ _
          · refine (hfeed _ _ _).bind fun r => ?_
            split
            · exact ih _ _
            · exact .ret _
  have hclean : ∀ raising, Only P (cleanup rid raising) := by
    intro raising
    refine Only.bind (.outcomeOf (.call (hP _ trivial))) fun r => ?_
    split <;> exact .ret _
  refine Only.tick (hP _ trivial) fun now => (hloop _ _ _ _).outcomeOf.bind fun r => ?_
  split
  · exact .ret _
  · exact (hclean _).bind fun _ => .ret _
  · exact (hclean _).bind fun _ => .ret _
  · exact (hclean _).bind fun _ => .ret _
  · exact (hclean _).bind fun _ => .raise _

/-- The collector of a result stream reads the stream and the clock. -/
theorem only_collectPcmUntilFinal (rid : Uuid) (timeoutMs fuel : Nat) :
    Only P (collectPcmUntilFinal rid timeoutMs fuel) := by
  refine (only_consumeResultStream hP (fun _ _ => .ret _) _ _ _ _).bind fun r => ?_
  obtain ⟨c, raised⟩ := r
  cases raised with
  | some e => exact .raise _
  | none => exact .ret _

/-- An error frame is the one await of its sender. -/
theorem only_sendError (code : String) : Only P (sendError code) := by
  refine Only.bind (.outcomeOf (.call (hP _ trivial))) fun r => ?_
  split
  · exact .ret _
  · exact .ret _
  · exact .raise _

/-- A forwarded chunk is a frame, at most with an error frame behind it. -/
theorem only_forwardChunk (acc : Nat × Bool) (chunk : TtsResult) :
    Only P (forwardChunk acc chunk) := by
  unfold forwardChunk
  split
  · exact (only_sendError hP _).bind fun _ => .ret _
  · split
    · exact .ret _
    · refine Only.bind ?_ fun _ => .ret _
      refine Only.bind (.outcomeOf (.tick (hP _ trivial) fun _ => .call (hP _ trivial))) fun r => ?_
      split
      · exact .ret _
      · exact .ret _
      · exact .raise _

/-- A segment is reserved as a request is. -/
theorem only_reserveSegment (rid : Uuid) (segment : PyStr) :
    Only P (reserveSegment S ctx rid segment) :=
  .exceptException (.tick (hP _ trivial) fun _ => .tick (hP _ trivial) fun _ => .ret _) fun _ => .ret _

end routine

/-- A reservation touches no voice. -/
theorem plain_reserveOrGet (tenant rid apiKey : Uuid) (requestHash : PyStr) (ttl : Option Nat) :
    Plain (IdempotencyRepo.reserveOrGet tenant rid apiKey requestHash ttl) :=
  only_reserveOrGet (fun _ => Eff.routine.plain) tenant rid apiKey requestHash ttl

/-- Neither does a replay. -/
theorem plain_replayOrReserve (key : Uuid) (requestHash : PyStr) :
    Plain (replayOrReserve S ctx key requestHash) :=
  only_replayOrReserve (fun _ => Eff.routine.plain) key requestHash

/-- Nor a request id. -/
theorem plain_requestIdFor (h : Headers) : Plain (requestIdFor h) :=
  only_requestIdFor (fun _ => Eff.routine.plain) h

/-- A reader of results is plain if its callback is. -/
theorem plain_consumeResultStream {σ : Type} {onChunk : σ → TtsResult → Py (σ × Bool)}
    (hon : ∀ acc chunk, Plain (onChunk acc chunk)) (rid : Uuid) (timeoutMs fuel : Nat) (acc : σ) :
    Plain (consumeResultStream onChunk rid timeoutMs fuel acc) :=
  only_consumeResultStream (fun _ => Eff.routine.plain) hon rid timeoutMs fuel acc

/-- The collector's callback awaits nothing, so the collector is plain. -/
theorem plain_collectPcmUntilFinal (rid : Uuid) (timeoutMs fuel : Nat) :
    Plain (collectPcmUntilFinal rid timeoutMs fuel) :=
  only_collectPcmUntilFinal (fun _ => Eff.routine.plain) rid timeoutMs fuel

/-- An error frame has no audio. -/
theorem plain_sendError (code : String) : Plain (sendError code) :=
  only_sendError (fun _ => Eff.routine.plain) code

/-- A chunk that is forwarded to a client was published long before. -/
theorem plain_forwardChunk (acc : Nat × Bool) (chunk : TtsResult) :
    Plain (forwardChunk acc chunk) :=
  only_forwardChunk (fun _ => Eff.routine.plain) acc chunk

/-- A segment's reservation touches no voice. -/
theorem plain_reserveSegment (rid : Uuid) (segment : PyStr) :
    Plain (reserveSegment S ctx rid segment) :=
  only_reserveSegment (fun _ => Eff.routine.plain) rid segment

end plain

end NeuroVoice
