import NeuroVoice.Quiet
import NeuroVoice.Run
import NeuroVoice.Lib.Diary

/-!
# NeuroVoice.Errand

What a process is about: the call it was started with, and the delivery it has
in hand.

`errandProtocol` is a discipline beside `sysProtocol`: a gateway only submits
jobs that carry its caller's identity, a worker only bills the job in hand and
only gives it up once the deliveries it was told of are used up.
`system_errands` says that every call keeps it.
-/

namespace NeuroVoice

/-- What is known of a process. -/
structure Errand where
  call : Call
  /-- The delivery in hand. -/
  held : Option (Nat × EntryFields) := none
  /-- `process_one_job` is over for it. -/
  left : Bool := false
  /-- The highest delivery count it was told; an entry in hand was delivered. -/
  seen : Nat := 1

namespace Errand

/-- The delivery is over. -/
def settle (s : Errand) : Errand := { call := s.call }

/-- A new delivery. -/
def deliver (s : Errand) : Option (Nat × EntryFields) → Errand
  | some d => { call := s.call, held := some d }
  | none => s

/-- An await was answered. -/
def onOk (s : Errand) : (e : Eff) → Ret e → Errand
  | .leaveJob _, _ => { s with left := true }
  | .handled _, _ => s.settle
  | .xreadgroup _, d => s.deliver d
  | .xautoclaim _ _, d => s.deliver d
  | .xpendingRange _, n => { s with seen := max s.seen (WorkerConsumer.countOf n) }
  | _, _ => s

/-- An await is over. -/
def next (s : Errand) (e : Eff) (a : Ans e) : Errand :=
  match a with
  | .ok b => s.onOk e b
  | .error _ => s

/-- The call of an errand stays. -/
@[simp] theorem next_call (s : Errand) (e : Eff) (a : Ans e) : (s.next e a).call = s.call := by
  cases a with
  | error x => rfl
  | ok b =>
      cases e with
      | xreadgroup _ | xautoclaim _ _ => cases b <;> rfl
      | _ => rfl

end Errand

/-- Whose call it is. -/
def Call.context : Call → Option AuthContext
  | .createTtsJob ctx _ _ | .getTtsJob ctx _ | .synthesize ctx _ _ _ | .synthesizeStream ctx _ _ _
  | .streamInput ctx _ _ _ _ => some ctx
  | .worker _ => none

/-- The texts a call was given. -/
def Call.texts : Call → List PyStr
  | .createTtsJob _ _ body | .synthesize _ _ body _ | .synthesizeStream _ _ body _ => [body.text]
  | .streamInput _ _ _ _ segments => segments
  | .getTtsJob _ _ | .worker _ => []

/-- The app a call says it comes from. -/
def Call.app : Call → Option PyStr
  | .createTtsJob _ h _ | .synthesize _ h _ _ | .synthesizeStream _ h _ _ => appLabelFrom h
  | .streamInput _ _ appLabel _ _ => appLabel
  | .getTtsJob _ _ | .worker _ => none

/-- A job that carries the caller's identity and one of the call's texts. -/
def Call.Submits (call : Call) (job : TtsJobPayload) : Prop :=
  ∃ ctx text rid, call.context = some ctx ∧ text ∈ call.texts ∧
    job.requestId = .str (uuidStr rid) ∧ job.tenantId = .str (uuidStr ctx.tenantId) ∧
      job.apiKeyId = .str (uuidStr ctx.apiKeyId) ∧
    job.text = .str text ∧ job.appLabel = .ofStr? call.app

/-- A usage row of a job. -/
def TtsJobPayload.Bills (job : TtsJobPayload) (rid : Uuid) (u : UsageRecord) : Prop :=
  ∃ ids, job.ids = .ok ids ∧ rid = ids.rid ∧ u.tenantId = ids.tenant ∧ u.apiKeyId = ids.apiKey ∧
    job.text.len = .ok u.textCharCount ∧ u.appLabel = job.appLabel

/-- The reasons that say that the deliveries of a job are used up. -/
def DlqEntry.spent (d : DlqEntry) : Prop :=
  d.reason = "transient_max_retries" ∨ d.reason = "unknown_exception"

/-- The await is allowed. -/
def Errand.Allows (maxRetries : Nat) (s : Errand) : Eff → Prop
  | .xaddJob job => s.call.Submits job
  | .xpendingRange e => ∃ f, s.held = some (e, f)
  | .insertUsage rid u =>
      ∀ e f, s.held = some (e, f) → ∃ job, TtsJobPayload.decode f = .ok job ∧ job.Bills rid u
  | .xaddDlq d =>
      s.held = some (d.entryId, d.payload) ∧ d.deliveryCount ≤ s.seen ∧
        (d.spent → maxRetries ≤ d.deliveryCount)
  | .xaddResult _ | .commit => s.left = true → maxRetries ≤ s.seen
  | _ => True

/-- The protocol of errands. -/
def errandProtocol (S : Settings) : Protocol Eff Ans Call Outcome Errand where
  possible := Possible
  allows := Errand.Allows S.maxRetries
  next := Errand.next
  init call := { call }
  fin s _ := s.held = none

/-! ## detached awaits -/

/-- It neither moves a delivery, nor submits or bills a job. -/
def Eff.detached : Eff → Prop
  | .leaveJob _ | .handled _ | .xreadgroup _ | .xautoclaim _ _ | .xpendingRange _ | .xaddDlq _
  | .xaddJob _ | .insertUsage _ _ => False
  | _ => True

/-- A detached await, or a bill for the job. -/
def Eff.onJob (job : TtsJobPayload) : Eff → Prop
  | .insertUsage rid u => job.Bills rid u
  | e => e.detached

/-- A detached await, or a job of the call.  That only deliveries are billed is
not said here: it is part of `sysProtocol`. -/
def Eff.onCall (call : Call) : Eff → Prop
  | .xaddJob job => call.Submits job
  | .insertUsage _ _ => True
  | e => e.detached

/-- Routine statements are on any call's behalf. -/
theorem Eff.routine.onCall {call : Call} (e : Eff) (h : e.routine) : e.onCall call := by
  cases e <;> trivial

/-- What is left of the delivery may be settled. -/
def Errand.Free (maxRetries : Nat) (s : Errand) : Prop := s.left = true → maxRetries ≤ s.seen

section detached

variable {maxRetries : Nat} {s : Errand} {e : Eff}

/-- A detached await changes nothing. -/
theorem Errand.detached (hs : s.Free maxRetries) (he : e.detached) :
    s.Allows maxRetries e ∧ ∀ a, s.next e a = s := by
  constructor
  · cases e <;> trivial
  · intro a
    cases a with
    | error x => rfl
    | ok b => cases e <;> first | rfl | exact he.elim

/-- What is done on a job's behalf is allowed to the errand that holds it, and does
not move it. -/
theorem Errand.onJob {n : Nat} {f : EntryFields} {job : TtsJobPayload} (hs : s.Free maxRetries)
    (hheld : s.held = some (n, f)) (hd : TtsJobPayload.decode f = .ok job) (he : e.onJob job) :
    s.Allows maxRetries e ∧ ∀ a, s.next e a = s := by
  cases e with
  | insertUsage rid u =>
      refine ⟨fun n' f' h => ?_, fun a => by cases a <;> rfl⟩
      cases hheld.symm.trans h
      exact ⟨job, hd, he⟩
  | _ => exact detached hs he

/-- What is done on a call's behalf is allowed to an errand without a job. -/
theorem Errand.onCall {call : Call} (he : e.onCall call) :
    Errand.Allows maxRetries { call } e ∧ ∀ a, Errand.next { call } e a = { call } := by
  cases e with
  | xaddJob job => exact ⟨he, fun a => by cases a <;> rfl⟩
  | insertUsage rid u => exact ⟨nofun, fun a => by cases a <;> rfl⟩
  | _ => exact detached nofun he

end detached

/-! ## the pipeline -/

/-- Work on a job: it only bills that job. -/
abbrev OnJob {α : Type} (job : TtsJobPayload) (x : Py α) : Prop := Only (Eff.onJob job) x

/-- A builtin that can raise, and what it computed. -/
theorem Only.lift {α β : Type} {P : Eff → Prop} {x : Except Foreign β} {f : β → Py α}
    (hf : ∀ b, x = .ok b → Only P (f b)) : Only P (NeuroVoice.liftPy x >>= f) := by
  cases x with
  | error e => exact (spec_bind _ _).2 trivial
  | ok b => exact hf b rfl

/-- A first part, and what it returned. -/
theorem Only.after {α β : Type} {P : Eff → Prop} {x : Py β} {f : β → Py α} {Q : β → Prop}
    (hx : Spec (Monitor.only P) () x (fun _ b => Q b) fun _ _ => True)
    (hf : ∀ b, Q b → Only P (f b)) : Only P (x >>= f) :=
  (spec_bind x f).2 (Spec.mono hx (fun _ b hb => hf b hb) fun _ _ _ => trivial)

section pipeline

variable {S : Settings} {job : TtsJobPayload} {ids : JobIds}

/-- Results are published on the job's behalf. -/
theorem onJob_xaddResult (r : TtsResult) : OnJob job (xaddResult S r) :=
  .tick trivial fun _ => .call trivial

/-- What a failure bills. -/
theorem onJob_failureUsage (hids : job.ids = .ok ids) (f : Failure) :
    Spec (Monitor.only (Eff.onJob job)) () (failureUsage S job ids f)
      (fun _ u => job.Bills ids.rid u) fun _ _ => True := by
  unfold failureUsage
  cases hlen : job.text.len with
  | error x => exact (spec_bind _ _).2 trivial
  | ok n =>
      refine (spec_bind _ _).2 ((spec_pure _).2 ((spec_bind _ _).2 ?_))
      refine Spec.mono (only_queueWaitMs trivial none) (fun _ t _ => ?_) fun _ _ _ => trivial
      exact ⟨ids, hids, rfl, rfl, rfl, hlen, rfl⟩

/-- What a success bills. -/
theorem onJob_successUsage (hids : job.ids = .ok ids) (p : Produced) (f : Finished) :
    Spec (Monitor.only (Eff.onJob job)) () (successUsage S job ids p f)
      (fun _ u => job.Bills ids.rid u) fun _ _ => True := by
  unfold successUsage
  cases hlen : job.text.len with
  | error x => exact (spec_bind _ _).2 trivial
  | ok n =>
      refine (spec_bind _ _).2 ((spec_pure _).2 ((spec_bind _ _).2 ?_))
      refine Spec.mono (only_queueWaitMs trivial _) (fun _ t _ => ?_) fun _ _ _ => trivial
      exact ⟨ids, hids, rfl, rfl, rfl, hlen, rfl⟩

/-- The failure is written under the job's own ids. -/
theorem onJob_recordFailure (hids : job.ids = .ok ids) (f : Failure) :
    OnJob job (recordFailure S job ids f) := by
  refine Only.bind ?_ fun _ => ?_
  · refine .tick trivial fun row => ?_
    cases row with
    | none => exact .ret ()
    | some row => exact only_flush trivial
  · refine .tick trivial fun u => ?_
    cases u with
    | some u => exact .call trivial
    | none =>
        refine Only.after (onJob_failureUsage hids f) fun u hu => ?_
        exact .tick hu fun _ => .call trivial

/-- A terminal failure is the job's own. -/
theorem onJob_markTerminalFailure (attempt : Nat) (f : Failure) :
    OnJob job (markTerminalFailure S job attempt f) :=
  Only.lift fun _ hids => (onJob_xaddResult _).bind fun _ =>
    (onJob_recordFailure hids f).finallyDo trivial

/-- So is a poisoned one. -/
theorem onJob_poison {α : Type} (attempt started : Nat) (code message : String) (seq : Nat)
    (raised : String) :
    OnJob job (poison S job attempt started code message seq raised : Py α) :=
  .tick trivial fun _ => (onJob_markTerminalFailure attempt _).bind fun _ => .raise _

/-- The voice is looked up for the job's tenant. -/
theorem onJob_lookupVoice : OnJob job (lookupVoice ids job) := by
  refine .finallyDo (.tick trivial fun voice => ?_) trivial
  cases voice with
  | none => exact .ret _
  | some voice =>
      dsimp only
      split
      · exact .tick trivial fun bits => .ret _
      · exact .ret _

/-- The watermark's key is looked up for the job's voice. -/
theorem onJob_requireWatermark (attempt started : Nat) (voice : Voice) (bits : Option Nat) :
    OnJob job (requireWatermark S job attempt started voice bits) := by
  have hload : OnJob job (do
      if !(← await .loadApplier) then
        throw (.transientFailure ("voice " ++ S.repr (.str voice.voiceId) ++
          " requires watermark but audioseal package unavailable on this worker")) : Py Unit) := by
    refine .tick trivial fun loaded => ?_
    cases loaded with
    | false => exact .raise _
    | true => exact .ret _
  unfold requireWatermark
  split
  · dsimp only
    split
    · exact (onJob_poison attempt started _ _ _ _).bind fun _ => hload
    · exact hload
  · exact .ret _

/-- The checks of the voice stay with the job. -/
theorem onJob_resolveVoice (attempt started : Nat) :
    OnJob job (resolveVoice S job ids attempt started) := by
  refine onJob_lookupVoice.bind fun r => ?_
  obtain ⟨found, bits⟩ := r
  cases found with
  | none => exact onJob_poison attempt started _ _ _ _
  | some voice => exact (onJob_requireWatermark attempt started voice bits).bind fun _ => .ret _

/-- So does its reference audio. -/
theorem onJob_resolveReference (attempt started : Nat) (voice : Voice) :
    OnJob job (resolveReference S job attempt started voice) := by
  refine .tick trivial fun t₀ => (Only.outcomeOf (.call trivial)).bind fun r => ?_
  split
  · exact .tick trivial fun t₁ => .ret _
  · exact onJob_poison attempt started _ _ _ _
  · exact .raise _

/-- So does its preset. -/
theorem onJob_resolvePreset (attempt started : Nat) :
    OnJob job (resolvePreset S job attempt started) := by
  unfold resolvePreset
  split
  · exact .ret _
  · exact onJob_poison attempt started _ _ _ _
  · exact .raise _

/-- A chunk is marked for the job it belongs to. -/
theorem onJob_watermark (bits : Option Nat) (pcm : Pcm) (sampleRate : Nat) :
    OnJob job (watermark bits pcm sampleRate) := by
  cases bits with
  | none => exact .ret _
  | some bits =>
      refine .tick trivial fun available => ?_
      cases available with
      | true => exact .call trivial
      | false => exact .ret _

/-- Every chunk is published under the job's id. -/
theorem onJob_publishAll (I : Inference) (chunks : List SynthChunk) (st : Synthesis) :
    OnJob job (publishAll S I chunks st) := by
  induction chunks generalizing st with
  | nil => exact .ret _
  | cons c chunks ih =>
      refine Only.bind ?_ fun st => ih st
      refine (only_stampOnce trivial _ _).bind fun _ => (Only.liftPy _).bind fun pcm => ?_
      refine (onJob_watermark _ _ _).bind fun pcm => (onJob_xaddResult _).bind fun _ => ?_
      exact (only_stampOnce trivial _ _).bind fun _ => .ret _

/-- The engine runs for the job. -/
theorem onJob_synthesizeAll (I : Inference) (r : SynthRequest) :
    OnJob job (synthesizeAll S I r) := by
  refine .exceptException (.tick trivial fun run => ?_) fun _ => .raise _
  refine (onJob_publishAll I _ _).bind fun st => ?_
  split
  · exact .ret _
  · exact .raise _

/-- All that is done up to the last chunk is on the job's behalf. -/
theorem onJob_produce (attempt started : Nat) :
    OnJob job (produce S job ids attempt started) := by
  refine (onJob_resolveVoice attempt started).bind fun r => ?_
  refine (onJob_resolveReference attempt started r.1).bind fun p => ?_
  refine .tick trivial fun rate => .tick trivial fun t => ?_
  refine (onJob_resolvePreset attempt started).bind fun preset => ?_
  refine (Only.liftPy _).bind fun settings => (Only.liftPy _).bind fun overrides => ?_
  exact (onJob_synthesizeAll _ _).bind fun st => .tick trivial fun now => .ret _

/-- The archive is the job's own. -/
theorem onJob_archiveAudio (rid : Uuid) (attempt started sampleRate : Nat) (st : Synthesis) :
    OnJob job (archiveAudio S job rid attempt started sampleRate st) := by
  have hstore : OnJob job (storeAudio rid st.pcm sampleRate) := by
    refine Only.bind (.exceptException (.call trivial) fun _ => .raise _) fun uri => ?_
    split
    · exact .ret _
    · exact .raise _
  unfold archiveAudio
  dsimp only
  split
  · exact Only.bind (.raise _) fun _ => by
      split
      · exact (onJob_poison attempt started _ _ _ _).bind fun _ => hstore
      · exact hstore
  · split
    · exact (onJob_poison attempt started _ _ _ _).bind fun _ => hstore
    · exact hstore

/-- The success is written under the job's own ids. -/
theorem onJob_commitSuccess (hids : job.ids = .ok ids) (p : Produced) (f : Finished) :
    OnJob job (commitSuccess S job ids p f) := by
  refine .exceptException (.finallyDo ?_ trivial) fun _ => .raise _
  refine Only.bind ?_ fun _ => Only.after (onJob_successUsage hids p f) fun u hu => ?_
  case refine_2 => exact .tick hu fun _ => .call trivial
  refine .tick trivial fun row => ?_
  cases row with
  | none => exact .ret ()
  | some row => exact only_flush trivial

/-- **`process_one_job`** bills its own job only, and leaves the jobs stream alone. -/
theorem onJob_processOneJob (pickup : Option Nat) (attempt : Nat) :
    OnJob job (processOneJob S job pickup attempt) := by
  refine Only.lift fun ids hids => .tick trivial fun t₀ => .tick trivial fun t₁ => ?_
  refine .tick trivial fun _ => (onJob_produce attempt _).bind fun p => ?_
  refine (onJob_archiveAudio _ _ _ _ _).bind fun uri => .tick trivial fun now => ?_
  refine (Only.liftPy _).bind fun inputs => (onJob_commitSuccess hids _ _).bind fun _ => ?_
  exact .exceptException (onJob_xaddResult _) fun _ => .raise _

end pipeline

/-! ## the gateway -/

/-- Work on a call: it only submits jobs of that call. -/
abbrev OnCall {α : Type} (call : Call) (x : Py α) : Prop := Only (Eff.onCall call) x

section gateway

variable {S : Settings} {ctx : AuthContext} {h : Headers} {body : TtsBody} {call : Call} {α : Type}

/-- A session of the request is opened and closed for the call. -/
theorem onCall_requestSession {x : Py α} (hx : OnCall call x) : OnCall call (requestSession x) :=
  .finallyDo (.exceptException hx fun _ => .tick trivial fun _ => .raise _) trivial

/-- A voice is looked up for the call's tenant. -/
theorem onCall_assertVoiceAccessibleOr404 (voiceId : PyStr) :
    OnCall call (assertVoiceAccessibleOr404 S ctx voiceId) := by
  unfold assertVoiceAccessibleOr404
  dsimp only
  split
  · exact (spec_bind _ _).2 trivial
  · refine .tick trivial fun voice => ?_
    cases voice with
    | none => exact .raise _
    | some voice => exact .ret _

/-- Its state is checked for the call. -/
theorem onCall_ensureVoiceSynthesizable (voice : Voice) :
    OnCall call (ensureVoiceSynthesizable voice) := by
  unfold ensureVoiceSynthesizable
  dsimp only
  split
  · exact (spec_bind _ _).2 trivial
  · refine .tick trivial fun consent => ?_
    cases consent with
    | false => exact .raise _
    | true => exact .ret _

/-- The backlog is looked at for the call. -/
theorem onCall_checkQueueDepthOr503 : OnCall call (checkQueueDepthOr503 S) :=
  only_checkQueueDepthOr503.mono fun _ he => Eff.routine.onCall _ he.routine

/-- A job that is submitted carries the call's tenant, key, text and label. -/
theorem onCall_submitOrUndo {job : TtsJobPayload} (hjob : call.Submits job) (tenant rid : Uuid)
    (detail : String) : OnCall call (submitOrUndo tenant rid job detail) :=
  .exceptException (.call hjob) fun _ => .tick trivial fun _ => .tick trivial fun _ => .raise _

/-- The jobs surface submits what its body says. -/
theorem onCall_createTtsJob :
    OnCall (.createTtsJob ctx h body) (createTtsJob S ctx h body) := by
  refine onCall_requestSession ?_
  dsimp only
  split
  · exact (spec_bind _ _).2 trivial
  refine (Only.liftExn _).bind fun key => (onCall_assertVoiceAccessibleOr404 _).bind fun voice => ?_
  refine (onCall_ensureVoiceSynthesizable _).bind fun _ => (only_requestPreset _).bind fun preset => ?_
  refine (only_conflictTo409 (only_replayOrReserve Eff.routine.onCall _ _)).bind fun r => ?_
  cases r with
  | inl reply => exact .ret _
  | inr row =>
      refine .tick trivial fun _ => .tick trivial fun now => ?_
      refine Only.bind (onCall_submitOrUndo ?_ _ _ _) fun _ => .ret _
      exact ⟨ctx, body.text, key, rfl, List.mem_singleton_self _, rfl, rfl, rfl, rfl, rfl⟩

/-- The status of a job is read for the call. -/
theorem onCall_getTtsJob (jobId : PyStr) : OnCall call (getTtsJob S ctx jobId) := by
  refine onCall_requestSession ?_
  split
  · exact .raise _
  refine .tick trivial fun row => ?_
  cases row with
  | none => exact .raise _
  | some row =>
      dsimp only
      split
      · exact .tick trivial fun usage => .ret _
      · exact .ret _

/-- What the synchronous routes share. -/
theorem onCall_reserveAndSubmit (hctx : call.context = some ctx) (htext : body.text ∈ call.texts)
    (happ : call.app = appLabelFrom h) : OnCall call (reserveAndSubmit S ctx h body) := by
  unfold reserveAndSubmit
  dsimp only
  split
  · exact (spec_bind _ _).2 trivial
  refine (onCall_assertVoiceAccessibleOr404 _).bind fun voice => ?_
  refine (onCall_ensureVoiceSynthesizable _).bind fun _ => (only_requestPreset _).bind fun preset => ?_
  refine (only_requestIdFor Eff.routine.onCall _).bind fun rid => ?_
  refine onCall_checkQueueDepthOr503.bind fun _ => ?_
  refine (only_conflictTo409 (only_reserveOrGet Eff.routine.onCall _ _ _ _ _)).bind fun r => ?_
  refine .tick trivial fun _ => ?_
  split
  · refine .tick trivial fun now => ?_
    refine Only.bind (onCall_submitOrUndo ?_ _ _ _) fun _ => .ret _
    exact ⟨ctx, body.text, rid, hctx, htext, rfl, rfl, rfl, rfl, by rw [happ]; rfl⟩
  · exact .ret _

/-- The sync surface submits what its body says. -/
theorem onCall_synthesize (fuel : Nat) :
    OnCall (.synthesize ctx h body fuel) (synthesize S ctx h body fuel) := by
  refine onCall_requestSession ?_
  refine (onCall_reserveAndSubmit rfl (List.mem_singleton_self _) rfl).bind fun rid => ?_
  refine (only_collectPcmUntilFinal Eff.routine.onCall _ _ _).outcomeOf.bind fun r => ?_
  split
  · split
    · exact .raise _
    · exact .ret _
  · exact .raise _
  · exact .raise _

/-- So does the streaming surface. -/
theorem onCall_synthesizeStream (fuel : Nat) :
    OnCall (.synthesizeStream ctx h body fuel) (synthesizeStream S ctx h body fuel) := by
  refine onCall_requestSession ?_
  refine (onCall_reserveAndSubmit rfl (List.mem_singleton_self _) rfl).bind fun rid => ?_
  refine (only_consumeResultStream Eff.routine.onCall (fun _ _ => .ret _) _ _ _ _).bind fun r => ?_
  dsimp only
  split
  · exact .ret _
  · exact .ret _
  · exact .raise _

/-- A segment is submitted for its connection. -/
theorem onCall_flushSegment {slug : PyStr} {app : Option PyStr} (fuel : Nat) (st : WsState)
    {segment : PyStr} (hctx : call.context = some ctx) (htext : segment ∈ call.texts)
    (happ : call.app = app) : OnCall call (flushSegment S ctx slug app fuel st segment) := by
  have herror (code : String) : OnCall call (sendError code) := only_sendError Eff.routine.onCall _
  unfold flushSegment
  split
  · exact (herror _).bind fun _ => .ret _
  refine (only_computeBackpressureDecision.mono fun _ he =>
    Eff.routine.onCall _ he.routine).bind fun decision => ?_
  cases decision with
  | some reason =>
      refine Only.bind (.exceptException (.tick trivial fun _ => .call trivial) fun _ => .ret _) ?_
      exact fun _ => (herror _).bind fun _ => .ret _
  | none =>
      refine .tick trivial fun rid => ?_
      refine (only_reserveSegment Eff.routine.onCall _ _).bind fun reserved => ?_
      split
      · exact (herror _).bind fun _ => .ret _
      have hjob : call.Submits (segmentPayload ctx rid st slug segment app) :=
        ⟨ctx, segment, rid, hctx, htext, rfl, rfl, rfl, rfl, by rw [happ]; rfl⟩
      refine (Only.outcomeOf (.call hjob)).bind fun r => ?_
      split
      · split
        · exact (herror _).bind fun _ => .ret _
        · exact .raise _
      · refine (only_consumeResultStream Eff.routine.onCall
          (fun _ _ => only_forwardChunk Eff.routine.onCall _ _) _ _ _ _).bind fun r => ?_
        split
        · exact .ret _
        · exact .ret _
        · exact (herror _).bind fun _ => .ret _
        · exact .raise _

/-- So are all segments, one after the other. -/
theorem onCall_flushSegments {slug : PyStr} {app : Option PyStr} (fuel : Nat)
    {segments : List PyStr} (st : WsState) (hctx : call.context = some ctx)
    (htext : ∀ s ∈ segments, s ∈ call.texts) (happ : call.app = app) :
    OnCall call (flushSegments S ctx slug app fuel segments st) := by
  induction segments generalizing st with
  | nil => exact .ret _
  | cons segment rest ih =>
      refine (onCall_flushSegment fuel st hctx (htext _ (by simp)) happ).bind fun st => ?_
      exact ih st fun s hs => htext s (by simp [hs])

/-- The socket submits its segments and nothing else. -/
theorem onCall_streamInput (slug : PyStr) (app : Option PyStr) (fuel : Nat)
    (segments : List PyStr) :
    OnCall (.streamInput ctx slug app fuel segments)
      (streamInput S ctx slug app fuel segments) :=
  (onCall_flushSegments fuel {} rfl (fun _ hs => hs) rfl).finallyDo trivial

end gateway

/-! ## the worker -/

namespace WorkerConsumer

/-- The delivery in hand, with what is known of its deliveries. -/
structure Holds (call : Call) (e : Nat) (f : EntryFields) (left : Bool) (n : Nat)
    (s : Errand) : Prop where
  call : s.call = call
  held : s.held = some (e, f)
  left : s.left = left
  seen : n ≤ s.seen

section handling

variable {S : Settings} {call : Call} {e n : Nat} {f : EntryFields} {left : Bool} {s : Errand}
  {job : TtsJobPayload}

/-- `x`, run with the errand `s`, ends in `Q` or raises in `R`. -/
abbrev Runs (S : Settings) {α : Type} (s : Errand) (x : Py α) (Q : Errand → α → Prop)
    (R : Errand → Exn → Prop) : Prop :=
  Spec (errandProtocol S).toMonitor s x Q R

/-- Working on the job in hand leaves the errand as it is. -/
theorem Holds.work {α : Type} {x : Py α} (hs : Holds call e f left n s)
    (hfree : s.Free S.maxRetries) (hd : TtsJobPayload.decode f = .ok job) (hx : OnJob job x) :
    Runs S s x (fun s' _ => s' = s) fun s' _ => s' = s :=
  Spec.mono (Spec.of_only hx fun _ he => Errand.onJob hfree hs.held hd he) (fun _ _ h => h.1)
    fun _ _ h => h.1

/-- An acknowledgement leaves the errand as it is. -/
theorem runs_ack (s : Errand) (e : Nat) :
    Runs S s (ack e) (fun s' _ => s'.call = s.call) fun s' _ => s'.call = s.call := by
  have hx : Only (fun eff => ∃ n, eff = .xack n) (ack e) := by
    refine Only.bind (.outcomeOf (.call ⟨e, rfl⟩)) fun r => ?_
    split
    · exact .ret _
    · exact .ret _
    · exact .raise _
  have hstay : ∀ eff, (∃ n, eff = Eff.xack n) → (errandProtocol S).allows s eff ∧
      ∀ a, (errandProtocol S).next s eff a = s := by
    intro eff heff
    obtain ⟨n, rfl⟩ := heff
    exact ⟨trivial, fun a => by cases a <;> rfl⟩
  exact Spec.mono (Spec.of_only hx hstay) (fun _ _ h => by rw [h.1]) fun _ _ h => by rw [h.1]

/-- `_delivery_count` does not overstate what it was told. -/
theorem runs_deliveryCount (hs : Holds call e f left n s) (hn : 1 ≤ n) :
    Runs S s (deliveryCount e) (fun s' m => Holds call e f left (max n m) s')
      fun s' _ => Holds call e f left n s' := by
  have hkeep : Holds call e f left (max n 1) s := ⟨hs.call, hs.held, hs.left, by
    rw [Nat.max_eq_left hn]; exact hs.seen⟩
  refine (spec_tryCatch _ _).2 ((spec_bind _ _).2 ((spec_callE _).2 ⟨⟨f, hs.held⟩, ?_, ?_⟩))
  · intro m _
    refine (spec_pure _).2 ⟨hs.call, hs.held, hs.left, ?_⟩
    have := hs.seen
    simp [errandProtocol, Errand.next, Errand.onOk]
    omega
  · intro x _
    split
    · exact (spec_pure _).2 hkeep
    · exact hs

/-- A dead-letter entry for the job in hand. -/
theorem runs_sendJobToDlq (hs : Holds call e f left n s) (j : TtsJobPayload)
    (reason error : String) {m : Nat} (hm : m ≤ n)
    (hspent : reason = "transient_max_retries" ∨ reason = "unknown_exception" →
      S.maxRetries ≤ m) :
    Runs S s (sendJobToDlq S e f j reason error m) (fun s' _ => s' = s) fun s' _ => s' = s :=
  (spec_callE _).2 ⟨⟨hs.held, hm.trans hs.seen, hspent⟩, fun _ _ => rfl, fun _ _ => rfl⟩

/-- `_maybe_dlq_and_ack` gives a job up when its deliveries are used up. -/
theorem runs_maybeDlqAndAck (hs : Holds call e f true n s) (hn : 1 ≤ n)
    (hd : TtsJobPayload.decode f = .ok job) (reason error : String) :
    Runs S s (maybeDlqAndAck S e f job reason error) (fun s' _ => s'.call = call)
      fun s' _ => s'.call = call := by
  refine (spec_bind _ _).2 (Spec.mono (runs_deliveryCount hs hn) (fun s' m hs' => ?_)
    fun _ _ hs' => hs'.call)
  split
  · exact (spec_pure _).2 hs'.call
  next hspent =>
  have hmax : S.maxRetries ≤ m := Nat.le_of_not_lt hspent
  have hfree : s'.Free S.maxRetries := fun _ => by
    have := hs'.seen
    omega
  refine (spec_bind _ _).2 (Spec.mono (hs'.work hfree hd (onJob_markTerminalFailure _ _)) ?_ ?_)
  · rintro _ - rfl
    have hdlq := runs_sendJobToDlq hs' job reason error
      (Nat.le_max_right n m) fun _ => hmax
    refine (spec_bind _ _).2 (Spec.mono hdlq ?_ ?_)
    · rintro _ - rfl
      refine (spec_bind _ _).2 (Spec.mono (runs_ack _ e) (fun _ _ h => ?_) fun _ _ h => ?_)
      · exact (spec_pure _).2 (h.trans hs'.call)
      · exact h.trans hs'.call
    · rintro _ - rfl
      exact hs'.call
  · rintro _ - rfl
    exact hs'.call

/-- What follows `process_one_job`. -/
theorem runs_settle (hs : Holds call e f true n s) (hn : 1 ≤ n) {attempt : Nat}
    (hattempt : attempt ≤ n) (hd : TtsJobPayload.decode f = .ok job) (r : Except Exn Unit) :
    Runs S s (settle S e f job attempt r) (fun s' _ => s'.call = call)
      fun s' _ => s'.call = call := by
  have hack (s' : Errand) (h : s'.call = call) :
      Runs S s' (ack e) (fun s' _ => s'.call = call) fun s' _ => s'.call = call :=
    Spec.mono (runs_ack s' e) (fun _ _ h' => h'.trans h) fun _ _ h' => h'.trans h
  have hmaybe (reason error : String) :
      Runs S s (do let _ ← maybeDlqAndAck S e f job reason error)
        (fun s' (_ : PUnit) => s'.call = call) fun s' _ => s'.call = call :=
    (spec_bind _ _).2 (Spec.mono (runs_maybeDlqAndAck hs hn hd reason error)
      (fun _ _ h => (spec_pure _).2 h) fun _ _ h => h)
  have hpoison (m : String) : Runs S s (handlePoison S e f job m attempt)
      (fun s' _ => s'.call = call) fun s' _ => s'.call = call := by
    have hdlq := runs_sendJobToDlq (S := S) hs job "poison" m hattempt fun h =>
      absurd h (by decide)
    refine (spec_bind _ _).2 ((spec_tryCatch _ _).2 (Spec.mono hdlq ?_ ?_))
    · rintro _ - rfl
      exact hack _ hs.call
    · rintro _ x rfl
      split
      · exact (spec_pure _).2 (hack _ hs.call)
      · exact hs.call
  cases r with
  | ok a => exact hack s hs.call
  | error x =>
      cases x with
      | poisonJob m => exact hpoison m
      | transientFailure m => exact hmaybe _ _
      | foreign x =>
          have hset : settle S e f job attempt (.error (.foreign x)) =
              if (Exn.foreign x).isException then do
                let _ ← maybeDlqAndAck S e f job "unknown_exception" (Exn.foreign x).text
              else throw (.foreign x) := rfl
          rw [hset]
          split
          · exact hmaybe _ _
          · exact hs.call
      | stillRunning => exact hs.call
      | _ => exact hmaybe _ _

/-- The decoded branch. -/
theorem runs_handleJob (hs : Holds call e f false n s) (hn : 1 ≤ n)
    (hd : TtsJobPayload.decode f = .ok job) :
    Runs S s (handleJob S e f job) (fun s' _ => s'.call = call) fun s' _ => s'.call = call := by
  have hrun (s' : Errand) (m : Nat) (hs' : Holds call e f false (max n m) s')
      (pickup : Option Nat) :
      Runs S s' (do let r ← runJob S e job pickup m; settle S e f job m r)
        (fun s' _ => s'.call = call) fun s' _ => s'.call = call := by
    have hfree : s'.Free S.maxRetries := fun h => by rw [hs'.left] at h; cases h
    have hleft : Holds call e f true (max n m) { s' with left := true } :=
      ⟨hs'.call, hs'.held, rfl, hs'.seen⟩
    have hleave (r : Except Exn Unit) :
        Runs S s' (do await (.leaveJob e); return r)
          (fun s'' r => Runs S s'' (settle S e f job m r) (fun s' _ => s'.call = call)
            fun s' _ => s'.call = call) fun s' _ => s'.call = call := by
      refine (spec_bind _ _).2 ((spec_callE _).2 ⟨trivial, fun _ _ => ?_, fun _ _ => hs'.call⟩)
      exact (spec_pure _).2 (runs_settle hleft (hn.trans (Nat.le_max_left n m))
        (Nat.le_max_right n m) hd r)
    have hjob : OnJob job (processOneJob S job pickup m) := onJob_processOneJob pickup m
    have hwork := hs'.work hfree hd hjob
    refine (spec_bind _ _).2 ((spec_bind _ _).2 ((spec_callE _).2 ⟨trivial, fun _ _ => ?_,
      fun _ _ => hs'.call⟩))
    refine (spec_bind _ _).2 ((spec_tryCatch _ _).2 ((spec_bind _ _).2 (Spec.mono hwork ?_ ?_)))
    · rintro _ a rfl
      exact (spec_pure _).2 (hleave (.ok a))
    · rintro _ x rfl
      exact (spec_pure _).2 (hleave (.error x))
  have hpickup : Runs S s (workerPickup job) (fun s' _ => s' = s) fun s' _ => s' = s := by
    have hx : OnJob job (workerPickup job) := by
      unfold workerPickup
      split
      · exact .ret _
      · exact .tick trivial fun now => (Only.liftPy _).bind fun t => .ret _
    exact hs.work (fun h => by rw [hs.left] at h; cases h) hd hx
  refine (spec_bind _ _).2 (Spec.mono hpickup ?_ ?_)
  · rintro _ pickup rfl
    refine (spec_bind _ _).2 ((spec_tryCatch _ _).2 (Spec.mono (runs_deliveryCount hs hn)
      (fun s' m hs' => hrun s' m hs' pickup) fun s' x hs' => ?_))
    split
    · exact (spec_pure _).2 (hrun s' 0 (by simpa using hs') pickup)
    · exact hs'.call
  · rintro _ x rfl
    exact hs.call

/-- `_handle_one` ends with nothing in hand. -/
theorem runs_handleOne (call : Call) (e : Nat) (f : EntryFields) :
    Runs S { call, held := some (e, f) } (handleOne S e f) (fun s' _ => s' = { call })
      fun s' _ => s' = { call } := by
  have hs : Holds call e f false 1 { call, held := some (e, f) } := ⟨rfl, rfl, rfl, le_rfl⟩
  have hend {s' : Errand} (h : s'.call = call) : s'.settle = { call } := by rw [Errand.settle, h]
  refine (spec_bind _ _).2 ((spec_tryCatch _ _).2 ((spec_bind _ _).2
    (Spec.mono (Q := fun s' _ => s'.call = call) (R := fun s' _ => s'.call = call) ?_ ?_ ?_)))
  · cases hd : TtsJobPayload.decode f with
    | ok job => exact runs_handleJob hs le_rfl hd
    | error x =>
        refine (spec_bind _ _).2 (Spec.mono (runs_deliveryCount hs le_rfl) (fun s' m hs' => ?_)
          fun _ _ hs' => hs'.call)
        have hsend : Runs S s' (sendRawToDlq S e f "malformed_payload" x.text m)
            (fun s'' _ => s'' = s') fun s'' _ => s'' = s' :=
          (spec_callE _).2 ⟨⟨hs'.held, (Nat.le_max_right 1 m).trans hs'.seen, by
            exact fun h => absurd h (show ¬("malformed_payload" = "transient_max_retries" ∨
              "malformed_payload" = "unknown_exception") by decide)⟩,
            fun _ _ => rfl, fun _ _ => rfl⟩
        refine (spec_bind _ _).2 (Spec.mono hsend ?_ ?_)
        · rintro _ - rfl
          exact Spec.mono (runs_ack _ e) (fun _ _ h => h.trans hs'.call)
            fun _ _ h => h.trans hs'.call
        · rintro _ - rfl
          exact hs'.call
  · intro s' a h
    refine (spec_bind _ _).2 ((spec_callE _).2 ⟨trivial, fun _ _ => hend h, ?_⟩)
    rintro x ⟨hfall, -⟩
    cases hfall
  · intro s' x h
    refine (spec_bind _ _).2 ((spec_callE _).2 ⟨trivial, fun _ _ => hend h, ?_⟩)
    rintro y ⟨hfall, -⟩
    cases hfall

end handling

/-! ## the loop -/

section loop

variable {S : Settings} {call : Call}

/-- Between deliveries. -/
abbrev Rests (S : Settings) (call : Call) {α : Type} (x : Py α) : Prop :=
  Runs S { call } x (fun s _ => s = { call }) fun s _ => s = { call }

/-- A part without deliveries. -/
theorem rests_only {α : Type} {x : Py α} (hx : Only Eff.detached x) : Rests S call x :=
  Spec.mono (Spec.of_only hx fun _ he => Errand.detached nofun he) (fun _ _ h => h.1)
    fun _ _ h => h.1

/-- A sequence rests if its parts do. -/
theorem Rests.seq {α β : Type} {x : Py β} {f : β → Py α} (hx : Rests S call x)
    (hf : ∀ b, Rests S call (f b)) : Rests S call (x >>= f) := by
  refine (spec_bind _ _).2 (Spec.mono hx ?_ fun _ _ h => h)
  rintro _ b rfl
  exact hf b

/-- An await that belongs to no job, and what follows it. -/
theorem Rests.tick {e : Eff} {α : Type} {f : Ret e → Py α} (he : e.detached)
    (hf : ∀ b, Rests S call (f b)) : Rests S call (await e >>= f) :=
  Rests.seq (rests_only (.call he)) hf

/-- A guarded program rests if its handler does too. -/
theorem Rests.guarded {α : Type} {x : Py α} {h : Exn → Py α} (hx : Rests S call x)
    (hh : ∀ e, Rests S call (h e)) : Rests S call (tryCatch x h) := by
  refine (spec_tryCatch _ _).2 (Spec.mono hx (fun _ _ h => h) ?_)
  rintro _ e rfl
  exact hh e

/-- Asking for a delivery, and handling it. -/
theorem rests_delivered (eff : Eff) {α : Type} {d : Ret eff → Option (Nat × EntryFields)}
    (hal : ∀ s, (errandProtocol S).allows s eff)
    (hnext : ∀ b, (errandProtocol S).next { call } eff (.ok b) = Errand.deliver { call } (d b))
    {k : Except Exn (Ret eff) → Py α} (herror : ∀ x, Rests S call (k (.error x)))
    (hnone : ∀ b, d b = none → Rests S call (k (.ok b)))
    (hsome : ∀ b e f, d b = some (e, f) →
      Runs S { call, held := some (e, f) } (k (.ok b)) (fun s _ => s = { call })
        fun s _ => s = { call }) :
    Rests S call (do let r ← outcomeOf (await eff); k r) := by
  refine (spec_bind _ _).2 ((spec_tryCatch _ _).2 ((spec_bind _ _).2 ((spec_callE _).2
    ⟨hal _, fun b _ => (spec_pure _).2 ?_, fun x _ => (spec_pure _).2 (herror x)⟩)))
  rw [hnext b]
  cases hb : d b with
  | none => exact hnone b hb
  | some held =>
      obtain ⟨e, f⟩ := held
      exact hsome b e f hb

/-- One turn of the worker ends without a job in hand. -/
theorem rests_tick : Rests S call (tick S) := by
  refine rests_delivered (.xreadgroup S.consumerName) (d := id) (fun _ => trivial)
    (fun _ => rfl) (fun x => ?_) ?_ ?_
  · split
    · exact rests_only (.tick trivial fun _ => .ret _)
    · exact rests_only (.raise _)
    · next h => cases h
    · next h => cases h
  · rintro _ rfl
    exact rests_only (.ret _)
  · rintro _ e f rfl
    refine (spec_bind _ _).2 (Spec.mono (runs_handleOne call e f) (fun _ _ h => ?_) fun _ _ h => h)
    exact (spec_pure _).2 h

/-- So does a sweep over idle entries. -/
theorem rests_xautoclaimSweep : Rests S call (xautoclaimSweep S) := by
  refine rests_delivered (.xautoclaim S.consumerName S.xautoclaimMinIdleMs) (d := id)
    (fun _ => trivial) (fun _ => rfl) (fun x => ?_) ?_ ?_
  · split
    · exact rests_only (.ret _)
    · exact rests_only (.raise _)
    · next h => cases h
    · next h => cases h
  · rintro _ rfl
    exact rests_only (.ret _)
  · rintro _ e f rfl
    exact runs_handleOne call e f

/-- So does a sweep that may not be due. -/
theorem rests_sweepIfDue (handled : Bool) (t : Nat) : Rests S call (sweepIfDue S handled t) := by
  refine Rests.tick trivial fun now => ?_
  split
  · exact rests_xautoclaimSweep.seq fun _ => rests_only (.call (e := .clock) trivial)
  · exact rests_only (.ret _)

/-- So does the worker's loop, however long it runs. -/
theorem rests_loop (n t : Nat) : Rests S call (loop S n t) := by
  induction n generalizing t with
  | zero =>
      refine Rests.tick trivial fun stop => ?_
      cases stop <;> exact rests_only (.ret _)
  | succ n ih =>
      refine Rests.tick trivial fun stop => ?_
      cases stop with
      | true => exact rests_only (.ret _)
      | false =>
          have hguard : Rests S call (guardedTick S) := rests_tick.guarded fun e => by
            split
            · exact rests_only (.ret _)
            · exact rests_only (.raise _)
          refine hguard.seq fun handled => Rests.tick trivial fun stop => ?_
          cases stop with
          | true => exact rests_only (.ret _)
          | false =>
              refine (rests_sweepIfDue handled t).seq fun t => ?_
              cases handled with
              | true => exact ih t
              | false => exact Rests.tick trivial fun _ => ih t

/-- The group is made before any job. -/
theorem rests_ensureConsumerGroup : Rests S call ensureConsumerGroup := by
  refine rests_only (Only.bind (.outcomeOf (.call trivial)) fun r => ?_)
  split
  · exact .ret _
  · exact .ret _
  · exact .raise _

/-- **A worker** keeps to its errands. -/
theorem rests_run (n : Nat) : Rests S call (run S n) :=
  rests_ensureConsumerGroup.seq fun _ => Rests.tick trivial fun t => rests_loop n t

end loop

end WorkerConsumer

/-! ## every call -/

/-- A call without deliveries. -/
theorem OnCall.conforms {S : Settings} {call : Call} {α : Type} {x : Py α} {f : α → Reply}
    (hx : OnCall call x) :
    Conforms (errandProtocol S).toMonitor { call } (do return f (← x) : Py Reply).run
      fun s _ => s.held = none := by
  have h : Spec (errandProtocol S).toMonitor { call } (do return f (← x) : Py Reply)
      (fun s _ => s = { call } ∧ True) fun s _ => s = { call } ∧ True :=
    Spec.of_only (hx.bind fun a => .ret (f a)) fun _ he => Errand.onCall he
  refine Conforms.mono h fun s r hr => ?_
  cases r with
  | ok a => rw [hr.1]
  | error x => rw [hr.1]

/-- **Every call keeps to its errands.** -/
theorem system_errands (S : Settings) : (system S).Follows (errandProtocol S) where
  answers := possible_of_exec
  conforms call := by
    cases call with
    | createTtsJob ctx h body => exact onCall_createTtsJob.conforms
    | getTtsJob ctx jobId => exact (onCall_getTtsJob jobId).conforms
    | synthesize ctx h body fuel => exact (onCall_synthesize fuel).conforms
    | synthesizeStream ctx h body fuel => exact (onCall_synthesizeStream fuel).conforms
    | streamInput ctx slug app fuel segments =>
        exact (onCall_streamInput slug app fuel segments).conforms
    | worker n =>
        have h : WorkerConsumer.Runs S { call := .worker n }
            (do WorkerConsumer.run S n; return Reply.done)
            (fun s _ => s = { call := .worker n }) fun s _ => s = { call := .worker n } :=
          (WorkerConsumer.rests_run n).seq fun _ => (spec_pure _).2 rfl
        refine Conforms.mono h fun s r hr => ?_
        cases r with
        | ok a => exact congrArg Errand.held hr
        | error x => exact congrArg Errand.held hr

/-! ## errands of a run -/

section run

variable {S : Settings} {ts : List SysTrans}

/-- What is known of process `p`. -/
abbrev errand (S : Settings) (p : Nat) (ts : List SysTrans) : Option Errand :=
  (errandProtocol S).watch p ts

/-- An errand is the one of a call that was started. -/
theorem spawned_of_errand {p : Nat} {s : Errand} (h : errand S p ts = some s) :
    Spawned p s.call ts := by
  obtain ⟨call, hcall, rfl⟩ := Protocol.spawned_of_watch (I := fun s call => s.call = call)
    (fun _ => rfl) (fun s e a call hs => (s.next_call e a).trans hs) h
  exact hcall

/-- The tracks of the run are what the protocol's monitor watches. -/
theorem track_eq_watch (p : Nat) (ts : List SysTrans) :
    track p ts = (sysProtocol S).watch p ts := by
  have hobserve (o : Option Track) (ev : SysEvent) :
      observe p o ev = (sysProtocol S).observe p o ev := by
    cases ev <;> rfl
  simp only [track, Protocol.watch, hobserve]

/-- Errands and tracks tell the same of a delivery. -/
theorem errand_eq_track {p : Nat} {s : Track} {r : Errand} (hs : track p ts = some s)
    (hr : errand S p ts = some r) : r.held = s.held ∧ r.left = s.left := by
  rw [track_eq_watch (S := S)] at hs
  refine Protocol.watch_related (I := fun (r : Errand) (s : Track) => r.held = s.held ∧
    r.left = s.left) (fun call => by cases call <;> exact ⟨rfl, rfl⟩) ?_ hr hs
  rintro r s e a ⟨hheld, hleft⟩
  cases a with
  | error x => exact ⟨hheld, hleft⟩
  | ok b =>
      cases e with
      | xreadgroup _ | xautoclaim _ _ =>
          cases b with
          | none => exact ⟨hheld, hleft⟩
          | some d => exact ⟨rfl, rfl⟩
      | handled _ => exact ⟨rfl, rfl⟩
      | leaveJob _ => exact ⟨hheld, rfl⟩
      | xpendingRange _ | xaddDlq _ | xaddResult _ | synthesize _ =>
          simp only [sysProtocol, Track.next, Track.onOk]
          split <;> exact ⟨hheld, hleft⟩
      | _ => exact ⟨hheld, hleft⟩

/-- An event that is no await brings no delivery. -/
theorem errand_quiet {t : SysTrans} (hev : ∀ p e a, t.ev ≠ .act p e a) {p : Nat} {s : Errand}
    {d : Nat × EntryFields} (hs : errand S p (ts ++ [t]) = some s) (hd : s.held = some d) :
    errand S p ts = some s := by
  rw [errand, Protocol.watch_snoc] at hs
  unfold Protocol.observe at hs
  split at hs
  · next q e a h => exact absurd h (hev q e a)
  · split at hs
    · cases hs
      cases hd
    · exact hs
  · split at hs
    · cases hs
    · exact hs
  · split at hs
    · cases hs
    · exact hs
  · exact hs

end run

section delivered

variable {p : Nat} {o : Oracle} {w w' : World}

/-- A claimed entry is on the stream. -/
theorem JobsStream.mem_of_claimScan {s : JobsStream} {now minIdle : Nat} {consumer : PyStr}
    {d : Nat × EntryFields} (n : Nat) (rows : List PelRow)
    (h : (s.claimScan now minIdle consumer n rows).2 = some d) : d ∈ s.entries := by
  fun_induction JobsStream.claimScan s now minIdle consumer n rows with
  | case1 rows => cases h
  | case2 n hn => cases h
  | case3 n r rs hfind => cases h
  | case4 n r rs f hfind hidle =>
      cases h
      obtain ⟨x, hx, rfl⟩ := Option.map_eq_some_iff.1 hfind
      have hkey := List.find?_some hx
      simp only [decide_eq_true_eq] at hkey
      exact hkey ▸ List.mem_of_find?_eq_some hx
  | case5 n r rs f hfind hidle rs' got hgot ih => exact ih (by rw [hgot]; exact h)

/-- What is delivered is on the stream. -/
theorem exec_delivered {e : Eff} {b : Ret e} (hx : exec p e o w = some (.ok b, w'))
    {d : Nat × EntryFields} {s : Errand} (hd : (s.next e (.ok b)).held = some d) :
    s.held = some d ∨ d ∈ w.jobs.entries := by
  obtain ⟨hint, hp⟩ := exec_ok hx
  cases e with
  | handled _ => cases hd
  | xreadgroup c =>
      cases b with
      | none => exact .inl hd
      | some d' =>
          cases hd
          refine .inr ?_
          simp only [perform] at hp
          split at hp
          · next hnext =>
              cases hp
              exact List.mem_of_find?_eq_some hnext
          · cases hp
  | xautoclaim c m =>
      cases b with
      | none => exact .inl hd
      | some d' =>
          cases hd
          refine .inr ?_
          simp only [perform, Option.some.injEq, Prod.mk.injEq, Except.ok.injEq] at hp
          exact JobsStream.mem_of_claimScan _ _ hp.1
  | _ => exact .inl hd

end delivered

end NeuroVoice
