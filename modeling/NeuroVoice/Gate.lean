import NeuroVoice.Amid
import NeuroVoice.Quiet
import NeuroVoice.Run

/-!
# NeuroVoice.Gate

The synthesis gate of all four surfaces, while tenants and operators change
the catalog.

The HTTP surfaces ask for voice and consent once per request, the WebSocket
once per connection.  So a request's job is for a voice in service, and a
message's job is as long as the connection's voice is not taken out of service
before the message: `synthesis_gate`.
-/

namespace NeuroVoice

open VoiceRepo

/-! ## the surfaces -/

/-- A client request, or a connection. -/
inductive Surface where
  | jobs (h : Headers) (body : TtsBody)
  | sync (h : Headers) (body : TtsBody) (fuel : Nat)
  | stream (h : Headers) (body : TtsBody) (fuel : Nat)
  | socket (voiceId : PyStr) (appLabel : Option PyStr) (fuel messages : Nat)

/-- Its handler. -/
def Surface.handler (S : SocketSettings) (ctx : AuthContext) : Surface → SocketPy Unit
  | .jobs h body => io do let _ ← createTtsJob S.toSettings ctx h body
  | .sync h body fuel => io do let _ ← synthesize S.toSettings ctx h body fuel
  | .stream h body fuel => io do let _ ← synthesizeStream S.toSettings ctx h body fuel
  | .socket voiceId appLabel fuel messages =>
      streamInputEndpoint S ctx appLabel fuel voiceId messages

/-! ## the law -/

/-- What is known of a handler's run: the catalog now, those since the last
message of the client (or since the start), and the voice the handler has
resolved, with the catalog it was in. -/
structure Notes where
  catalog : Catalog
  recent : List Catalog
  voice : Option (Voice × Catalog) := none

/-- Nothing has happened yet. -/
def Notes.start (c : Catalog) : Notes := ⟨c, [c], none⟩

/-- The catalogs on the way. -/
def passed (c : Catalog) : List Transaction → List Catalog
  | [] => []
  | tx :: txs => c.commit tx :: passed (c.commit tx) txs

/-- The client's next message arrives. -/
def Moment.isMessage (t : Moment) : Bool :=
  match t.answered with
  | ⟨.receive, .ok .timeout⟩ => false
  | ⟨.receive, .ok _⟩ => true
  | _ => false

/-- The notes after an await. -/
def Notes.take (g : Notes) (t : Moment) : Notes where
  catalog := t.stop g.catalog
  recent := if t.isMessage then [t.stop g.catalog]
    else g.recent ++ passed g.catalog (t.before ++ t.during)
  voice := match t.resolves with
    | some v => some (v, t.stop g.catalog)
    | none => g.voice

/-- A job that is added is the tenant's, for the voice that was resolved, and
the voice was in service in one of the recent catalogs. -/
def JobGated (tenant : Uuid) (g : Notes) (t : Moment) : Prop :=
  ∀ job, t.eff = .io (.xaddJob job) → ∃ v c, g.voice = some (v, c) ∧
    job.tenantId = .str (uuidStr tenant) ∧ job.voiceId = .str v.voiceId ∧
    ∃ c ∈ g.recent, c.inService v.id = true

/-- What was committed since the voice was resolved has taken it out of
service. -/
def Notes.outOfService (g : Notes) (t : Moment) : Bool :=
  match g.voice with
  | some (v, c) => c.inService v.id && !(t.stop g.catalog).inService v.id
  | none => false

/-- No message arrives on a connection whose voice has been taken out of
service since the handshake. -/
def InTime (g : Notes) (t : Moment) : Prop := t.isMessage = true → g.outOfService t = false

instance (g : Notes) (t : Moment) : Decidable (InTime g t) :=
  inferInstanceAs (Decidable (_ → _))

/-! ## the stages of the gate -/

/-- How far a handler is through the gate. -/
inductive GateStage where
  | start
  | found (voice : Voice)
  | through (voice : Voice)

namespace GateStage

/-- The consent of a voice is there. -/
def consented (id : Uuid) : GateStage → GateStage
  | .found voice =>
      if id = voice.id ∧ lifecycleState voice = "active" then .through voice else .found voice
  | s => s

/-- The stage after an await. -/
def next (s : GateStage) : (e : SocketEff) → SocketAns e → GateStage
  | .io (.selectVoice _ _), .ok (some voice) => .found voice
  | .io (.selectConsent id), .ok true => s.consented id
  | _, _ => s

/-- The job of a voice that is through the gate. -/
def mayAdd (tenant : Uuid) (job : TtsJobPayload) : GateStage → Prop
  | .through voice => job.tenantId = .str (uuidStr tenant) ∧ job.voiceId = .str voice.voiceId
  | _ => False

/-- What a handler does in a stage. -/
def allows (tenant : Uuid) (s : GateStage) : SocketEff → Prop
  | .io (.selectVoice _ _) => s = .start
  | .io (.xaddJob job) => s.mayAdd tenant job
  | .receive => ∃ voice, s = .through voice
  | _ => True

/-- The stages as an automaton. -/
def monitor (tenant : Uuid) : Monitor SocketEff SocketAns GateStage where
  possible _ _ := True
  allows := allows tenant
  next := next

/-- The same for a coroutine without a socket. -/
abbrev within (tenant : Uuid) : Monitor Eff Ans GateStage := (monitor tenant).within .io

end GateStage

instance (tenant : Uuid) : (GateStage.within tenant).Quiet where
  ignores {e} h s := by
    cases e with
    | selectVoice _ _ | selectConsent _ | xaddJob _ => exact h.elim
    | _ => exact ⟨trivial, fun a => rfl⟩

/-! ## the text of the HTTP surfaces -/

section http

variable {S : Settings} {ctx : AuthContext} {voice : Voice}

/-- The handlers' view of the stages. -/
abbrev Gates {α : Type} (tenant : Uuid) (s : GateStage) (x : Py α) (Q : GateStage → α → Prop) :
    Prop :=
  Goes (GateStage.within tenant) s x Q

/-- The look-up finds the voice. -/
theorem gates_assertVoice (voiceId : PyStr) :
    Gates ctx.tenantId .start (assertVoiceAccessibleOr404 S ctx voiceId)
      fun s voice => s = .found voice := by
  unfold assertVoiceAccessibleOr404
  split
  · exact Goes.stops trivial
  · refine Goes.step rfl fun found => ?_
    cases found with
    | none => exact trivial
    | some voice => exact (spec_pure _).2 rfl

/-- The look-up of its consent lets it through. -/
theorem gates_ensureVoiceSynthesizable (tenant : Uuid) :
    Gates tenant (.found voice) (ensureVoiceSynthesizable voice)
      fun s _ => s = .through voice := by
  unfold ensureVoiceSynthesizable
  split
  · exact Goes.stops trivial
  · next hactive =>
      refine Goes.step trivial fun consented => ?_
      have hactive : lifecycleState voice = "active" := not_not.1 hactive
      cases consented with
      | true => exact (spec_pure _).2 (by simp [GateStage.within, Monitor.within,
          GateStage.monitor, GateStage.next, GateStage.consented, hactive])
      | false => exact trivial

/-- A job of the gated voice can be submitted. -/
theorem gates_submitOrUndo {tenant : Uuid} (rid : Uuid) {job : TtsJobPayload} (detail : String)
    (htenant : job.tenantId = .str (uuidStr tenant)) (hvoice : job.voiceId = .str voice.voiceId) :
    Gates tenant (.through voice) (submitOrUndo tenant rid job detail) fun _ _ => True := by
  refine (spec_tryCatch _ _).2 ?_
  refine (spec_callE _).2 ⟨⟨htenant, hvoice⟩, fun _ _ => trivial, fun e _ => ?_⟩
  split
  · exact Goes.tick trivial fun _ => Goes.tick trivial fun _ => trivial
  · exact trivial

/-- The session of a request. -/
theorem gates_requestSession {α : Type} {tenant : Uuid} {s : GateStage} {x : Py α}
    {Q : GateStage → α → Prop} (hx : Gates tenant s x Q) :
    Gates tenant s (requestSession x) Q := by
  refine Goes.finallyDo trivial ?_
  refine (spec_tryCatch _ _).2 (Spec.mono hx (fun _ _ h => h) fun s e _ => ?_)
  split
  · exact Goes.tick trivial fun _ => trivial
  · exact trivial

/-- The jobs surface goes through the gate before it adds a job. -/
theorem gates_createTtsJob (h : Headers) (body : TtsBody) :
    Gates ctx.tenantId .start (createTtsJob S ctx h body) fun _ _ => True := by
  refine gates_requestSession ?_
  split
  · exact Goes.stops trivial
  · refine Goes.after (.liftExn _) fun key => (gates_assertVoice _).seq fun s voice hs => ?_
    subst hs
    refine (gates_ensureVoiceSynthesizable _).seq fun s _ hs => ?_
    subst hs
    refine Goes.after (plain_requestPreset _) fun preset => ?_
    refine Goes.after (only_conflictTo409 (plain_replayOrReserve _ _)) fun r => ?_
    cases r with
    | inl reply => exact trivial
    | inr reserved =>
        refine Goes.tick trivial fun _ => Goes.tick trivial fun now => ?_
        exact (gates_submitOrUndo key _ rfl rfl).seq fun _ _ _ => trivial

/-- What the sync surfaces share goes through it. -/
theorem gates_reserveAndSubmit (h : Headers) (body : TtsBody) :
    Gates ctx.tenantId .start (reserveAndSubmit S ctx h body) fun _ _ => True := by
  unfold reserveAndSubmit
  split
  · exact Goes.stops trivial
  · refine (gates_assertVoice _).seq fun s voice hs => ?_
    subst hs
    refine (gates_ensureVoiceSynthesizable _).seq fun s _ hs => ?_
    subst hs
    refine Goes.after (plain_requestPreset _) fun preset => ?_
    refine Goes.after (plain_requestIdFor _) fun rid => ?_
    refine Goes.after plain_checkQueueDepthOr503 fun _ => ?_
    refine Goes.after (only_conflictTo409 (plain_reserveOrGet _ _ _ _ _)) fun r => ?_
    refine Goes.tick trivial fun _ => ?_
    split
    · refine Goes.tick trivial fun now => ?_
      exact (gates_submitOrUndo rid _ rfl rfl).seq fun _ _ _ => trivial
    · exact trivial

/-- So the sync surface does. -/
theorem gates_synthesize (h : Headers) (body : TtsBody) (fuel : Nat) :
    Gates ctx.tenantId .start (synthesize S ctx h body fuel) fun _ _ => True := by
  refine gates_requestSession ((gates_reserveAndSubmit _ _).seq fun s rid _ => ?_)
  refine Goes.after (plain_collectPcmUntilFinal _ _ _).outcomeOf fun r => ?_
  refine Goes.done ?_
  split
  · split
    · exact .raise _
    · exact .ret _
  · exact .raise _
  · exact .raise _

/-- So the streaming surface does. -/
theorem gates_synthesizeStream (h : Headers) (body : TtsBody) (fuel : Nat) :
    Gates ctx.tenantId .start (synthesizeStream S ctx h body fuel) fun _ _ => True := by
  refine gates_requestSession ((gates_reserveAndSubmit _ _).seq fun s rid _ => ?_)
  refine Goes.after (plain_consumeResultStream (fun _ _ => .ret _) _ _ _ _) fun r => ?_
  refine Goes.done ?_
  obtain ⟨frames, raised⟩ := r
  dsimp only
  split
  · exact .ret _
  · exact .ret _
  · exact .raise _

end http

/-! ## the text of the WebSocket -/

section socket

variable {S : SocketSettings} {ctx : AuthContext} {voice : Voice} {appLabel : Option PyStr}
  {fuel : Nat}

/-- A segment of the gated voice, whatever becomes of it. -/
theorem gates_flushSegment (st : WsState) (segment : PyStr) :
    Gates ctx.tenantId (.through voice)
      (flushSegment S.toSettings ctx voice.voiceId appLabel fuel st segment)
      fun s _ => s = .through voice := by
  have hquit : ∀ code, Plain (do sendError code; return st) := fun code =>
    (plain_sendError code).bind fun _ => .ret _
  unfold flushSegment
  split
  · exact Goes.plain (hquit _)
  · refine Goes.after plain_computeBackpressureDecision fun decision => ?_
    cases decision with
    | some reason =>
        refine Goes.plain (Only.bind (.exceptException ?_ fun _ => .ret _) fun _ => hquit _)
        exact .tick trivial fun _ => .call trivial
    | none =>
        refine Goes.tick trivial fun rid => Goes.after (plain_reserveSegment _ _) fun reserved => ?_
        split
        · exact Goes.plain (hquit _)
        · have hadd : Gates ctx.tenantId (.through voice) (outcomeOf
              (await (.xaddJob (segmentPayload ctx rid st voice.voiceId segment appLabel))))
              fun s _ => s = .through voice := by
            refine (spec_tryCatch _ _).2 ((spec_bind _ _).2 ?_)
            exact (spec_callE _).2 ⟨⟨rfl, rfl⟩, fun _ _ => rfl, fun _ _ => rfl⟩
          refine hadd.seq fun s r hs => ?_
          subst hs
          refine Goes.plain ?_
          cases r with
          | error e =>
              dsimp only
              split
              · exact hquit _
              · exact .raise _
          | ok _ =>
              refine (plain_consumeResultStream plain_forwardChunk _ _ _ _).bind fun r => ?_
              split
              · exact .ret _
              · exact .ret _
              · exact (plain_sendError _).bind fun _ => .ret _
              · exact .raise _

/-- The connection's view of the stages. -/
abbrev GatesOn {α : Type} (tenant : Uuid) (s : GateStage) (x : SocketPy α)
    (Q : GateStage → α → Prop) : Prop :=
  Spec (GateStage.monitor tenant) s x Q fun _ _ => True

namespace GatesOn

variable {α β : Type} {tenant : Uuid} {s : GateStage} {Q : GateStage → α → Prop}

/-- A part that knows nothing of the socket. -/
theorem io {x : Py α} (hx : Gates tenant s x Q) : GatesOn tenant s (io x) Q :=
  conforms_embed.2 hx

/-- A sequence on the socket goes on from the stage of its first part. -/
theorem seq {x : SocketPy β} {f : β → SocketPy α} {Q' : GateStage → β → Prop}
    (hx : GatesOn tenant s x Q') (hf : ∀ s' b, Q' s' b → GatesOn tenant s' (f b) Q) :
    GatesOn tenant s (x >>= f) Q :=
  (spec_bind x f).2 (Spec.mono hx hf fun _ _ _ => trivial)

/-- Once a part is over, however it ended, the rest does not care. -/
theorem attempt {x : SocketPy α} (hx : GatesOn tenant s x Q) :
    GatesOn tenant s (attempt x) fun _ _ => True := by
  refine (spec_tryCatch _ _).2 (Spec.mono (Q := fun _ _ => True) (R := fun _ _ => True) ?_
    (fun _ _ _ => trivial) fun _ _ _ => trivial)
  exact (spec_bind _ _).2 (Spec.mono hx (fun _ _ _ => trivial) fun _ _ _ => trivial)

/-- Raising again, or not. -/
theorem settle (r : Except Exn α) : GatesOn tenant s (settle r) fun _ _ => True := by
  cases r <;> trivial

end GatesOn

/-- The connection's voice stays the gated one. -/
theorem gatesOn_flushNonempty (conn : Connection) (segment : PyStr) :
    GatesOn ctx.tenantId (.through voice)
      (flushNonempty S ctx voice.voiceId appLabel fuel conn segment)
      fun s _ => s = .through voice := by
  unfold flushNonempty
  split
  · exact (spec_pure _).2 rfl
  · exact (GatesOn.io (gates_flushSegment _ _)).seq fun s _ hs => (spec_pure _).2 hs

/-- An error frame. -/
theorem gatesOn_sendError {s : GateStage} {tenant : Uuid} {α : Type} (code : String) (a : α) :
    GatesOn tenant s (do io (sendError code); return a) fun s' _ => s' = s :=
  (GatesOn.io (Goes.plain (plain_sendError code))).seq fun _ _ hs => (spec_pure _).2 hs

/-- A connection that is through stays through with every text. -/
theorem gatesOn_takeText (conn : Connection) (msg : Dict) :
    GatesOn ctx.tenantId (.through voice)
      (takeText S ctx voice.voiceId appLabel fuel conn msg) fun s _ => s = .through voice := by
  unfold takeText
  dsimp only
  split
  · exact gatesOn_sendError _ _
  · exact gatesOn_flushNonempty _ _

/-- It stays through with every message. -/
theorem gatesOn_takeMessage (conn : Connection) (msg : Dict) :
    GatesOn ctx.tenantId (.through voice)
      (takeMessage S ctx voice.voiceId appLabel fuel conn msg) fun s _ => s = .through voice := by
  unfold takeMessage
  split
  · exact trivial
  · exact gatesOn_sendError _ _
  · split
    · exact (spec_pure _).2 rfl
    · exact (gatesOn_takeText _ _).seq fun s _ hs => (spec_pure _).2 hs

/-- It stays through in one turn of the loop. -/
theorem gatesOn_receiveOne (conn : Connection) :
    GatesOn ctx.tenantId (.through voice)
      (receiveOne S ctx voice.voiceId appLabel fuel conn) fun s _ => s = .through voice := by
  have hreceive : GatesOn ctx.tenantId (.through voice) (onSocket .receive)
      fun s _ => s = .through voice :=
    (spec_callE _).2 ⟨⟨voice, rfl⟩, fun _ _ => rfl, fun _ _ => trivial⟩
  refine hreceive.seq fun s received hs => ?_
  subst hs
  cases received with
  | timeout => exact gatesOn_sendError _ _
  | invalidJson => exact gatesOn_sendError _ _
  | unloadable x => exact trivial
  | notObject => exact gatesOn_sendError _ _
  | object msg => exact gatesOn_takeMessage _ _

/-- It stays through in the loop, by induction on the messages. -/
theorem gatesOn_inboundLoop (n : Nat) (conn : Connection) :
    GatesOn ctx.tenantId (.through voice)
      (inboundLoop S ctx voice.voiceId appLabel fuel n conn) fun s _ => s = .through voice := by
  induction n generalizing conn with
  | zero => exact trivial
  | succ n ih =>
      refine (gatesOn_receiveOne conn).seq fun s step hs => ?_
      subst hs
      cases step with
      | proceed conn => exact ih conn
      | stop conn => exact (spec_pure _).2 rfl

/-- A close frame needs no gate. -/
theorem gatesOn_close (s : GateStage) (tenant : Uuid) (reason : String) :
    GatesOn tenant s (onSocket (.close reason)) fun _ _ => True :=
  (spec_callE _).2 ⟨trivial, fun _ _ => trivial, fun _ _ => trivial⟩

/-- Neither does the end of a connection. -/
theorem gatesOn_outcome (s : GateStage) (tenant : Uuid) (r : Except Exn Unit) :
    GatesOn tenant s (match r with
      | .error (.foreign .webSocketDisconnect) => pure ()
      | r => settle r) fun _ _ => True := by
  split
  · exact trivial
  · exact GatesOn.settle _

/-- The conversation begins behind the gate. -/
theorem gatesOn_conversation (messages : Nat) :
    GatesOn ctx.tenantId (.through voice)
      (conversation S ctx voice.voiceId appLabel fuel messages) fun _ _ => True := by
  refine (gatesOn_inboundLoop _ _).seq fun s conn hs => ?_
  subst hs
  refine (gatesOn_flushNonempty _ _).seq fun s _ _ => ?_
  have hdone : GatesOn ctx.tenantId s (onSocket .done) fun _ _ => True :=
    (spec_callE _).2 ⟨trivial, fun _ _ => trivial, fun _ _ => trivial⟩
  exact hdone.attempt.seq fun s r _ => gatesOn_outcome s ctx.tenantId r

/-- So does all that is served. -/
theorem gatesOn_serve (messages : Nat) :
    GatesOn ctx.tenantId (.through voice)
      (serve S ctx voice.voiceId appLabel fuel messages) fun _ _ => True := by
  refine (gatesOn_conversation messages).attempt.seq fun s r _ => ?_
  refine (gatesOn_close s _ _).attempt.seq fun s closed _ => ?_
  have hend := gatesOn_outcome s ctx.tenantId r
  cases closed with
  | ok _ => exact hend
  | error e =>
      dsimp only
      split
      · exact hend
      · exact trivial

/-- The consent lookup of an active voice. -/
theorem gatesOn_selectConsent (tenant : Uuid) (hactive : lifecycleState voice = "active") :
    GatesOn tenant (.found voice) (io (await (.selectConsent voice.id)))
      fun s consented => consented = true → s = .through voice := by
  refine GatesOn.io ((spec_callE _).2 ⟨trivial, fun consented _ hc => ?_, fun _ _ => trivial⟩)
  subst hc
  simp [GateStage.within, Monitor.within, GateStage.monitor, GateStage.next,
    GateStage.consented, hactive]

/-- The handshake goes through the gate, or ends. -/
theorem gatesOn_handshake (voiceId : PyStr) (messages : Nat) :
    GatesOn ctx.tenantId .start (handshake S ctx appLabel fuel voiceId messages)
      fun _ _ => True := by
  have hfind : GatesOn ctx.tenantId .start (io (await (.selectVoice ctx.tenantId (.str voiceId))))
      fun s found => ∀ voice, found = some voice → s = .found voice := by
    refine GatesOn.io ((spec_callE _).2 ⟨rfl, fun found _ voice hv => ?_, fun _ _ => trivial⟩)
    subst hv
    rfl
  refine hfind.seq fun s found hs => ?_
  cases found with
  | none => exact gatesOn_close _ _ _
  | some voice =>
      obtain rfl := hs voice rfl
      dsimp only
      split
      · exact gatesOn_close _ _ _
      · split
        · exact gatesOn_close _ _ _
        · next hactive =>
            have hactive : lifecycleState voice = "active" := not_not.1 hactive
            refine (gatesOn_selectConsent _ hactive).seq fun s consented hs => ?_
            cases consented with
            | false => exact gatesOn_close _ _ _
            | true =>
                obtain rfl := hs rfl
                have haccept : GatesOn ctx.tenantId (.through voice) (onSocket .accept)
                    fun s _ => s = .through voice :=
                  (spec_callE _).2 ⟨trivial, fun _ _ => rfl, fun _ _ => trivial⟩
                refine haccept.seq fun s _ hs => ?_
                subst hs
                exact gatesOn_serve messages

/-- So the endpoint does. -/
theorem gatesOn_streamInputEndpoint (voiceId : PyStr) (messages : Nat) :
    GatesOn ctx.tenantId .start (streamInputEndpoint S ctx appLabel fuel voiceId messages)
      fun _ _ => True := by
  refine (gatesOn_handshake _ _).attempt.seq fun s r _ => ?_
  have hend : Gates ctx.tenantId s (await .close) fun _ _ => True :=
    Goes.call trivial fun _ => trivial
  exact (GatesOn.io hend).seq fun s _ _ => GatesOn.settle _

/-- **The text of every surface goes through the gate.** -/
theorem gatesOn_handler (surface : Surface) :
    GatesOn ctx.tenantId .start (surface.handler S ctx) fun _ _ => True := by
  cases surface with
  | jobs h body => exact .io ((gates_createTtsJob h body).seq fun _ _ _ => trivial)
  | sync h body fuel => exact .io ((gates_synthesize h body fuel).seq fun _ _ _ => trivial)
  | stream h body fuel => exact .io ((gates_synthesizeStream h body fuel).seq fun _ _ _ => trivial)
  | socket voiceId appLabel fuel messages => exact gatesOn_streamInputEndpoint voiceId messages

end socket

/-! ## what a stage stands for -/

section sound

variable {tenant : Uuid} {g : Notes} {s : GateStage} {t : Moment} {v : Voice}

/-- The last catalog was passed, or there is none behind the first. -/
theorem commitAll_mem_passed (c : Catalog) (txs : List Transaction) :
    c.commitAll txs = c ∨ c.commitAll txs ∈ passed c txs := by
  induction txs generalizing c with
  | nil => exact .inl rfl
  | cons tx txs ih =>
      refine .inr ?_
      obtain h | h := ih (c.commit tx)
      · exact List.mem_cons.2 (.inl h)
      · exact List.mem_cons_of_mem _ h

/-- What a stage stands for. -/
def Backs (g : Notes) : GateStage → Prop
  | .start => True
  | .found v => ∃ c, g.voice = some (v, c) ∧ v ∈ c.voices ∧ c ∈ g.recent ∧ Grows c g.catalog
  | .through v => ∃ c, g.voice = some (v, c) ∧ c.inService v.id = true ∧
      ∃ c ∈ g.recent, c.inService v.id = true

/-- The invariant of a handler's run. -/
structure Watching (g : Notes) (s : GateStage) : Prop where
  current : g.catalog ∈ g.recent
  backs : Backs g s

/-- A gate passed in the catalog the voice was found in. -/
theorem inService_of_active {c : Catalog} (hv : v ∈ c.voices) (hactive : lifecycleState v = "active")
    (hconsent : (VoiceConsentRecordRepo.latestActive c v.id).isSome) :
    c.inService v.id = true := by
  rw [Catalog.inService, Bool.and_eq_true, List.any_eq_true]
  exact ⟨⟨v, hv, by simp [hactive]⟩, hconsent⟩

/-- The current catalog is always among the recent ones. -/
theorem take_recent (h : g.catalog ∈ g.recent) : (g.take t).catalog ∈ (g.take t).recent := by
  simp only [Notes.take]
  split
  · exact List.mem_singleton.2 rfl
  · obtain heq | hmem := commitAll_mem_passed g.catalog (t.before ++ t.during)
    · rw [Moment.stop, heq]
      exact List.mem_append_left _ h
    · exact List.mem_append_right _ hmem

/-- An await that is no message keeps what was recent. -/
theorem mem_take_recent (ht : t.isMessage = false) {c : Catalog} (h : c ∈ g.recent) :
    c ∈ (g.take t).recent := by
  simp only [Notes.take, ht, Bool.false_eq_true, if_false]
  exact List.mem_append_left _ h

/-- An await that resolves nothing and is no message. -/
theorem Backs.take (h : Backs g s) (hmsg : t.isMessage = false) (hres : t.resolves = none) :
    Backs (g.take t) s := by
  have hvoice : (g.take t).voice = g.voice := by simp [Notes.take, hres]
  cases s with
  | start => trivial
  | found v =>
      obtain ⟨c, hc, hv, hrecent, hgrows⟩ := h
      exact ⟨c, hvoice.trans hc, hv, mem_take_recent hmsg hrecent,
        hgrows.trans (Catalog.grows_commitAll _ _)⟩
  | through v =>
      obtain ⟨c, hc, hin, c', hrecent, hin'⟩ := h
      exact ⟨c, hvoice.trans hc, hin, c', mem_take_recent hmsg hrecent, hin'⟩

/-- The step lemma. -/
theorem Watching.step (h : Watching g s) (hans : t.answeredBy g.catalog) (hcond : InTime g t)
    (hal : s.allows tenant t.eff) : Watching (g.take t) (s.next t.eff t.ans) := by
  refine ⟨take_recent h.current, ?_⟩
  have hcurrent := take_recent (t := t) h.current
  obtain ⟨before, during, e, a⟩ := t
  cases e with
  | io e =>
      cases e with
      | selectVoice tenant' voiceId =>
          obtain rfl : s = .start := hal
          cases a with
          | error x => exact trivial
          | ok found =>
              cases found with
              | none => exact trivial
              | some v =>
                  have hv : v ∈ (g.catalog.commitAll (before ++ during)).voices := by
                    rw [Catalog.commitAll_append]
                    cases voiceId with
                    | str slug => exact Looked.mem hans
                    | _ => cases hans
                  exact ⟨_, rfl, hv, hcurrent, .refl _⟩
      | selectConsent id =>
          have hkeep := h.backs.take (t := ⟨before, during, .io (.selectConsent id), a⟩) rfl rfl
          cases a with
          | error x => exact hkeep
          | ok found =>
              cases found with
              | false => exact hkeep
              | true =>
                  cases s with
                  | start => exact hkeep
                  | through v => exact hkeep
                  | found v =>
                      simp only [GateStage.next, GateStage.consented]
                      split
                      · next hgate =>
                          obtain ⟨rfl, hactive⟩ := hgate
                          obtain ⟨c, hc, hv, hrecent, hgrows⟩ := hkeep
                          -- the consent was in force when the voice was read
                          have hin := inService_of_active hv hactive (hgrows.latestActive hv hans.symm)
                          exact ⟨c, hc, hin, c, hrecent, hin⟩
                      · exact hkeep
      | _ => exact h.backs.take rfl rfl
  | receive =>
      obtain ⟨v, rfl⟩ := hal
      have hmessage : Moment.isMessage ⟨before, during, .receive, a⟩ = true →
          Backs (g.take ⟨before, during, .receive, a⟩) (.through v) := by
        intro hmsg
        obtain ⟨c, hc, hin, -⟩ := h.backs
        have hout := hcond hmsg
        simp only [Notes.outOfService, hc, hin, Bool.true_and, Bool.not_eq_eq_eq_not,
          Bool.not_false] at hout
        refine ⟨c, hc, hin, _, ?_, hout⟩
        simp only [Notes.take, hmsg, if_true]
        exact List.mem_singleton.2 rfl
      cases hmsg : Moment.isMessage ⟨before, during, .receive, a⟩ with
      | true => exact hmessage hmsg
      | false => exact h.backs.take hmsg rfl
  | accept => exact h.backs.take rfl rfl
  | done => exact h.backs.take rfl rfl
  | close reason => exact h.backs.take rfl rfl

/-- What an added job shows. -/
theorem Watching.gated (h : Watching g s) (hal : s.allows tenant t.eff) : JobGated tenant g t := by
  intro job heff
  rw [heff] at hal
  cases s with
  | through v =>
      obtain ⟨c, hc, -, hrecent⟩ := h.backs
      exact ⟨v, c, hc, hal.1, hal.2, hrecent⟩
  | start => exact hal.elim
  | found v => exact hal.elim

end sound

/-- The run lemma: at every await, the notes back some stage that allows it. -/
theorem watching_along {S : SocketSettings} {ctx : AuthContext} {surface : Surface} {c : Catalog}
    {ts : List Moment} (hrun : Amid (surface.handler S ctx) c ts)
    (htime : Along Notes.take InTime (.start c) ts) :
    Along Notes.take (fun g t => ∃ s, Watching g s ∧ s.allows ctx.tenantId t.eff) (.start c) ts := by
  have hanswered : Along Notes.take _ (.start c) ts :=
    Along.of_part Notes.catalog (fun _ _ => rfl) hrun.answered
  have hstart : Watching (.start c) .start := ⟨List.mem_singleton.2 rfl, trivial⟩
  exact (gatesOn_handler surface).along (fun g s t h ht hal => h.step ht.1 ht.2 hal)
    (fun _ _ => trivial) hrun.emits (hanswered.and htime) hstart

/-- **The synthesis gate holds for every job** of a handler whose messages
arrive in time, whatever is committed meanwhile. -/
theorem synthesis_gate (S : SocketSettings) (ctx : AuthContext) (surface : Surface) (c : Catalog)
    (ts : List Moment) (hrun : Amid (surface.handler S ctx) c ts)
    (htime : Along Notes.take InTime (.start c) ts) :
    Along Notes.take (JobGated ctx.tenantId) (.start c) ts :=
  (watching_along hrun htime).mono fun _ _ ⟨_, h, hal⟩ => h.gated hal

/-! ## one connection -/

/-- A voice of tenant 1. -/
def ayse : Voice := sampleVoice.row 1 7 0 .priv

/-- Its consent. -/
def ayseConsent : VoiceConsentRecord where
  id := 3
  voiceId := 7
  consentKind := py "tenant-asserted"
  evidenceUri := none
  evidenceSha256 := none
  evidenceNotes := none
  recordedAt := 0
  recordedByKind := py "tenant"
  recordedByActorId := some 2

/-- The table with it. -/
def ayseConsents : Table voiceConsentRecords :=
  ⟨[ayseConsent], List.pairwise_singleton _ _, by decide +kernel⟩

/-- A catalog with both. -/
def ayseCatalog : Catalog :=
  { Catalog.sole ayse (by decide +kernel) with consents := ayseConsents }

/-- The connection of the examples. -/
def ayseSocket : Surface := .socket (py "ayse") none 5 5

/-- Its client's message, and everything works. -/
def oneMessage : (e : SocketEff) → SocketAns e
  | .io e =>
      match exec 0 e (.goes { uuid := 9 }) blank with
      | some (a, _) => a
      | none => .error (.foreign .baseException)
  | .receive => .ok (.object [(py "text", .ofStr "Merhaba."), (py "flush", .bool true)])
  | .accept | .done | .close _ => .ok ()

/-- The settings of the examples. -/
def plainSocket : SocketSettings :=
  { plain with
    voiceSettings := fun _ => none
    strOf := fun _ => [] }

/-- The operator freezes the voice. -/
def freezeAyse : Transaction := [.voice 5 (.freeze 7 (py "dispute") none)]

/-- The awaits up to the `XADD` of the message's segment, with a freeze before
the `n`th of them. -/
def frozenBefore (n : Nat) : List Moment :=
  attend oneMessage (List.replicate n [] ++ [freezeAyse] :: List.replicate (10 - n) []) ayseCatalog
    (ayseSocket.handler plainSocket ⟨1, 2⟩).run

/-- A job is added. -/
def addsJob (ts : List Moment) : Bool :=
  ts.any fun t => match t.eff with
    | .io (.xaddJob _) => true
    | _ => false

/-- The message arrives, and then the voice is frozen. -/
theorem synthesis_gate_example :
    Along Notes.take (JobGated 1) (.start ayseCatalog) (frozenBefore 5) ∧
      addsJob (frozenBefore 5) = true :=
  ⟨synthesis_gate plainSocket ⟨1, 2⟩ ayseSocket ayseCatalog (frozenBefore 5)
    (amid_attend _ _ _ _) (by decide +kernel), by decide +kernel⟩

/-- Some job is added although its voice was in service in no recent
catalog. -/
def addsUngated : Notes → List Moment → Bool
  | _, [] => false
  | g, t :: ts =>
      (addsJob [t] && g.voice.all fun r => g.recent.all fun c => !c.inService r.1.id) ||
        addsUngated (g.take t) ts

/-- A run that adds an ungated job breaks the law. -/
theorem not_along_of_addsUngated {tenant : Uuid} {g : Notes} {ts : List Moment}
    (h : addsUngated g ts = true) : ¬Along Notes.take (JobGated tenant) g ts := by
  induction ts generalizing g with
  | nil => cases h
  | cons t ts ih =>
      intro halong
      obtain h | h := Bool.or_eq_true _ _ ▸ h
      · simp only [Bool.and_eq_true, addsJob, List.any_cons, List.any_nil, Bool.or_false] at h
        obtain ⟨hadds, hnone⟩ := h
        split at hadds
        · next job heff =>
            obtain ⟨v, c, hvoice, -, -, c', hrecent, hin⟩ := halong.1 job heff
            rw [hvoice] at hnone
            have := List.all_eq_true.1 hnone c' hrecent
            simp [hin] at this
        · cases hadds
      · exact ih h halong.2

/-- A connection goes on after its voice is frozen. -/
theorem frozen_voice_enqueued :
    ¬∀ (S : SocketSettings) (ctx : AuthContext) (surface : Surface) (c : Catalog)
      (ts : List Moment), Amid (surface.handler S ctx) c ts →
      Along Notes.take (JobGated ctx.tenantId) (.start c) ts := by
  intro h
  have hgated := h plainSocket ⟨1, 2⟩ ayseSocket ayseCatalog (frozenBefore 3) (amid_attend _ _ _ _)
  exact not_along_of_addsUngated (by decide +kernel) hgated

end NeuroVoice
