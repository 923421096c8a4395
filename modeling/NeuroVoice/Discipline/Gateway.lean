import NeuroVoice.Discipline.Basic

/-!
# NeuroVoice.Discipline.Gateway

The four enqueue surfaces and the status poll keep the discipline.

A handler reserves, commits, submits; when the submission raises, the HTTP
surfaces delete the reservation again, and the WebSocket does not.  Reading
a result stream changes nothing here.
-/

namespace NeuroVoice

/-- A gateway process: no delivery, and the same stage as before. -/
structure Steady (s s' : Track) : Prop where
  ws : s'.ws = s.ws
  held : s'.held = s.held
  stage : s'.stage = s.stage

/-- A gateway process at a stage. -/
structure Front (w : Bool) (st : Stage) (s : Track) : Prop where
  ws : s.ws = w
  held : s.held = none
  stage : s.stage = st

section gateway

variable {S : Settings} {α : Type} {s s₁ s' : Track} {w : Bool} {st : Stage}

/-- A track that does not move is steady. -/
theorem Steady.refl : Steady s s := ⟨rfl, rfl, rfl⟩

/-- Steady moves compose. -/
theorem Steady.trans (h : Steady s s₁) (h' : Steady s₁ s') : Steady s s' :=
  ⟨h'.ws.trans h.ws, h'.held.trans h.held, h'.stage.trans h.stage⟩

/-- A front survives steady moves. -/
theorem Steady.front (h : Steady s s') (hf : Front w st s) : Front w st s' :=
  ⟨h.ws.trans hf.ws, h.held.trans hf.held, h.stage.trans hf.stage⟩

/-- `x` leaves the stage as it is. -/
abbrev StaysSteady (S : Settings) (s : Track) (x : Py α) : Prop :=
  Keeps S s x (fun s' _ => Steady s s') (fun s' _ => Steady s s')

/-- A steady process stays steady through one more call. -/
theorem Keeps.steady {β : Type} {x : Py β} {f : β → Py α} (hx : StaysSteady S s x)
    (hf : ∀ s₁ b, Steady s s₁ → StaysSteady S s₁ (f b)) : StaysSteady S s (x >>= f) :=
  hx.seq (fun _ b h => Spec.mono (hf _ b h) (fun _ _ h' => h.trans h') fun _ _ h' => h.trans h')
    fun _ _ h => h

/-- An await that is neither a statement nor a submission. -/
def Eff.quiet : Eff → Bool
  | .xaddJob _ => false
  | e => !e.isSql

/-- A quiet await that raises leaves the stage as it is. -/
theorem steady_onError (hs : ∀ r, s.stage ≠ .erred r) {e : Eff} (he : e.quiet = true)
    (x : Exn) : Steady s (s.onError e x) := by
  refine ⟨rfl, rfl, ?_⟩
  cases hst : s.stage <;> cases e <;>
    simp_all [Track.onError, Stage.raised, Eff.quiet, Eff.isSql]

/-- Any await that raises before there is anything to drop. -/
theorem steady_onError_none (hs : s.stage = .none) (e : Eff) (x : Exn) :
    Steady s (s.onError e x) :=
  ⟨rfl, rfl, by simp [Track.onError, hs, Stage.raised_none]⟩

/-! ## checks -/

/-- To read the gauges does not move a track. -/
theorem steady_backlogDepth (hs : ∀ r, s.stage ≠ .erred r) : StaysSteady S s backlogDepth := by
  refine Keeps.step trivial (fun n => ?_) fun _ x => steady_onError hs rfl _
  refine (spec_bind _ _).2 (keeps_exceptException.2 (keeps_await.2 ⟨trivial, ?_, ?_⟩))
  · rintro (_ | ⟨_, _ | _⟩) <;> exact Steady.refl
  · intro _ x
    have hx := steady_onError hs (e := .xinfoGroups) rfl (.foreign x)
    split
    · exact hx
    · exact hx

/-- Neither does the decision they lead to. -/
theorem steady_computeBackpressureDecision (hs : ∀ r, s.stage ≠ .erred r) :
    StaysSteady S s (computeBackpressureDecision S) := by
  refine Keeps.steady (steady_backlogDepth hs) fun s₁ depth h₁ => ?_
  have hs₁ : ∀ r, s₁.stage ≠ .erred r := h₁.stage ▸ hs
  refine Keeps.steady ?_ fun s₂ cluster h₂ => ?_
  · refine keeps_exceptException.2 (Keeps.step trivial (fun c => Steady.refl) fun _ x => ?_)
    have hx := steady_onError hs₁ (e := .clusterCapacity) rfl (.foreign x)
    split
    · exact hx
    · exact hx
  · split
    · dsimp only
      split <;> exact Steady.refl
    · split <;> exact Steady.refl

/-- The look-up of a voice, in a transaction of its own, leaves a fresh track fresh.
-/
theorem steady_assertVoice (hs : s.stage = .none) (ctx : AuthContext) (v : PyStr) :
    StaysSteady S s (assertVoiceAccessibleOr404 S ctx v) := by
  unfold assertVoiceAccessibleOr404
  dsimp only
  split
  · exact (Steady.refl : Steady s s)
  · refine Keeps.step trivial (fun o => ?_) fun _ x => steady_onError_none hs _ _
    cases o <;> exact Steady.refl

/-- So does the look-up of its consent. -/
theorem steady_ensureVoiceSynthesizable (hs : s.stage = .none) (v : Voice) :
    StaysSteady S s (ensureVoiceSynthesizable v) := by
  unfold ensureVoiceSynthesizable
  dsimp only
  split
  · exact (Steady.refl : Steady s s)
  · refine Keeps.step trivial (fun b => ?_) fun _ x => steady_onError_none hs _ _
    cases b <;> exact Steady.refl

/-- A preset is chosen without an await. -/
theorem steady_requestPreset (m : Option PyStr) : StaysSteady S s (requestPreset S m) := by
  unfold requestPreset
  split <;> exact Steady.refl

/-- A full queue is refused before anything is written. -/
theorem steady_checkQueueDepth (hs : s.stage = .none) :
    StaysSteady S s (checkQueueDepthOr503 S) := by
  refine Keeps.steady (steady_computeBackpressureDecision (by simp [hs])) fun s₁ o h₁ => ?_
  have hs₁ : s₁.stage = .none := h₁.stage.trans hs
  cases o with
  | none => exact Steady.refl
  | some reason =>
      refine Keeps.step trivial (fun _ => ?_) fun _ x => steady_onError_none hs₁ _ _
      have hal : s₁.stage.committable = true := by rw [hs₁]; rfl
      refine Keeps.step hal (fun _ => ?_) fun _ _ => steady_onError_none hs₁ _ _
      exact ⟨rfl, rfl, by simp [Track.onOk, hs₁, Stage.committed]⟩

/-! ## reserving -/

/-- What `reserve_or_get` leaves when it returns. -/
def Reserved (w : Bool) (tenant rid : Uuid) (s : Track) (r : JobIdempotency × Bool) : Prop :=
  Front w (if r.2 then .inserted tenant rid else .found tenant rid) s

/-- … and when it raises. -/
def Unreserved (w : Bool) (s : Track) : Prop :=
  Front w .none s ∨ ∃ t r, Front w (.found t r) s

/-- A reservation inserts its row, or leaves the transaction empty. -/
theorem keeps_reserve (h : Front w .none s) (tenant rid apiKey : Uuid) (hash : PyStr)
    (ttl : Option Nat) : Keeps S s (IdempotencyRepo.reserve tenant rid apiKey hash ttl)
      (fun s' _ => Front w (.inserted tenant rid) s') (fun s' _ => Front w .none s') :=
  keeps_await.2 ⟨⟨h.held, .inl h.stage⟩, fun _ => ⟨h.ws, h.held, rfl⟩,
    fun _ _ => (steady_onError_none h.stage _ _).front h⟩

/-- A row that was found is replayed, or nothing is reserved. -/
theorem keeps_replay (tenant rid : Uuid) (hash : PyStr) (row : JobIdempotency)
    (h : Front w (.found tenant rid) s) :
    Keeps S s (IdempotencyRepo.replay rid hash row) (Reserved w tenant rid)
      (fun s' _ => Unreserved w s') := by
  unfold IdempotencyRepo.replay
  split
  · exact (Or.inr ⟨_, _, h⟩ : Unreserved w s)
  · exact h

/-- A second look at the row ends as the first one. -/
theorem keeps_reread (h : Front w .none s) (tenant rid apiKey : Uuid) (hash : PyStr)
    (ttl : Option Nat) :
    Keeps S s (IdempotencyRepo.reread tenant rid apiKey hash ttl) (Reserved w tenant rid)
      (fun s' _ => Unreserved w s') := by
  have hback : Front w .none (s.onOk .rollback ()) := by
    refine ⟨h.ws, h.held, ?_⟩
    rw [show (s.onOk .rollback ()).stage = s.stage.dropped from rfl, h.stage]
    rfl
  refine Keeps.mark rfl trivial fun _ => ?_
  refine Keeps.step hback.stage (fun row => ?_)
    fun _ _ => .inl ((steady_onError_none hback.stage _ _).front hback)
  cases row with
  | none =>
      have hsel : Front w .none ((s.onOk .rollback ()).onOk (.selectIdem .reread tenant rid) none) :=
        hback
      exact (keeps_reserve hsel tenant rid apiKey hash ttl).seq (fun _ _ h' => h')
        fun _ _ h' => .inl h'
  | some row => exact keeps_replay tenant rid hash row ⟨h.ws, h.held, rfl⟩

/-- Either a row of the key is reserved, or there is none. -/
theorem keeps_reserveOrGet (h : Front w .none s) (tenant rid apiKey : Uuid) (hash : PyStr)
    (ttl : Option Nat) :
    Keeps S s (IdempotencyRepo.reserveOrGet tenant rid apiKey hash ttl) (Reserved w tenant rid)
      (fun s' _ => Unreserved w s') := by
  refine Keeps.step h.stage (fun row => ?_)
    fun _ _ => .inl ((steady_onError_none h.stage _ _).front h)
  cases row with
  | some row => exact keeps_replay tenant rid hash row ⟨h.ws, h.held, rfl⟩
  | none =>
      refine (spec_bind _ _).2 (keeps_outcomeOf.2 (Spec.mono (keeps_reserve (s := s) h tenant rid
        apiKey hash ttl) (fun _ _ h' => h') ?_))
      intro s' e h'
      split
      · next hok => cases hok
      · exact keeps_reread h' tenant rid apiKey hash ttl
      · next hok => exact .inl h'

/-! ## submitting -/

/-- What is finished stays so without its transaction. -/
theorem Stage.finished_dropped {st : Stage} {a : Bool} (h : st.finished a = true) :
    st.dropped.finished a = true := by
  cases st <;> first | exact h | exact rfl

/-- After a rollback a call that can stop can still stop. -/
theorem Track.CanStop.dropped (h : s.CanStop) {e : Eff} (he : e = .rollback ∨ e = .close)
    (b : Ret e) : (s.onOk e b).CanStop := by
  rcases he with rfl | rfl <;> exact ⟨h.1, Stage.finished_dropped h.2⟩

/-- Abandoning is one way to be finished. -/
theorem Stage.finished_or {st : Stage} {a b : Bool} (h : st.finished a = true) :
    st.finished (a || b) = true := by
  cases st with
  | refused t r => exact Bool.or_eq_true_iff.2 (.inl h)
  | _ => exact h

/-- Behind a finished front the call may stop. -/
theorem Front.canStop (h : Front w st s) (hst : st.finished w = true) : s.CanStop :=
  ⟨h.held, by rw [h.stage, h.ws]; exact Stage.finished_or hst⟩

/-- Without a reservation it may stop too. -/
theorem Unreserved.canStop (h : Unreserved w s) : s.CanStop := by
  rcases h with h | ⟨t, r, h⟩
  · exact h.canStop rfl
  · exact h.canStop rfl

/-- A statement that raises leaves nothing to do. -/
theorem canStop_onError (h : s.held = none) {e : Eff} (he : e.isSql = true) (x : Exn) :
    (s.onError e x).CanStop :=
  ⟨h, by rw [show (s.onError e x).stage = s.stage.raised e from rfl,
    Stage.raised_of_isSql he]; rfl⟩

/-- A cancelled call abandons its reservation. -/
theorem canStop_refused {t r : Uuid} (h : s.held = none) (hst : s.stage = .refused t r)
    (ht : s.troubled = true) : s.CanStop :=
  ⟨h, by rw [hst, ht, Bool.or_true]; rfl⟩

/-- The identifiers `submit` sends are those of the reservation. -/
structure IsPayload (tenant rid : Uuid) (j : TtsJobPayload) : Prop where
  requestId : j.requestId = .str (uuidStr rid)
  tenantId : j.tenantId = .str (uuidStr tenant)

/-- `submit`, or the reservation is taken back. -/
theorem keeps_submitOrUndo {tenant rid : Uuid} (h : Front w st s)
    (hst : st = .reserved tenant rid ∨ st = .found tenant rid) {j : TtsJobPayload}
    (hj : IsPayload tenant rid j) (detail : String) :
    Keeps S s (submitOrUndo tenant rid j detail) (fun s' _ => Front w .over s')
      (fun s' _ => s'.CanStop) := by
  have hst' : s.stage = .reserved tenant rid ∨ s.stage = .found tenant rid := by
    rwa [h.stage]
  have href (x : Foreign) : Front w (.refused tenant rid) (s.onError (.xaddJob j) (.foreign x)) := by
    refine ⟨h.ws, h.held, ?_⟩
    rcases hst' with hs | hs <;> simp [Track.onError, Stage.raised, hs]
  refine keeps_exceptException.2 (keeps_await.2
    ⟨⟨tenant, rid, hst', hj.requestId, hj.tenantId⟩, fun _ => ⟨h.ws, h.held, rfl⟩, fun _ x => ?_⟩)
  split
  · refine Keeps.step (href x).stage (fun _ => ?_) fun _ _ => ?_
    · refine Keeps.step rfl (fun _ => ?_) fun _ _ => ?_
      · exact ⟨h.held, rfl⟩
      · exact ⟨h.held, rfl⟩
    · exact canStop_onError (s := s.onError _ _) (e := .deleteIdem tenant rid) h.held rfl _
  · next hx =>
      have ht : (s.onError (.xaddJob j) (.foreign x)).troubled =
          (s.troubled || s.left || !(Exn.foreign x).isException) := rfl
      refine canStop_refused h.held (href x).stage (ht.trans ?_)
      simp [show (Exn.foreign x).isException = false by simpa using hx]

/-! ## the request-scoped session -/

/-- `x` ends where a call may end. -/
abbrev Stops (S : Settings) (s : Track) (x : Py α) : Prop :=
  Keeps S s x (fun s' _ => s'.CanStop) (fun s' _ => s'.CanStop)

/-- The session of a request is closed however the request ends. -/
theorem stops_requestSession {x : Py α} (hx : Stops S s x) : Stops S s (requestSession x) := by
  refine (keeps_finallyDo rfl).2 (keeps_exceptException.2 (Spec.mono hx ?_ ?_))
  · exact fun _ _ h => ⟨trivial, fun b => h.dropped (.inr rfl) b⟩
  · intro s' e h
    split
    · refine Keeps.mark rfl trivial fun b => ?_
      exact ⟨trivial, fun b' => (h.dropped (.inl rfl) b).dropped (.inr rfl) b'⟩
    · exact ⟨trivial, fun b => h.dropped (.inr rfl) b⟩

/-- A steady call inside a handler that has nothing to undo. -/
theorem Keeps.after {β : Type} {x : Py β} {f : β → Py α} {Q : Track → α → Prop}
    (h : Front w st s) (hst : st.finished w = true) (hx : StaysSteady S s x)
    (hf : ∀ s₁ b, Front w st s₁ → Keeps S s₁ (f b) Q fun s' _ => s'.CanStop) :
    Keeps S s (x >>= f) Q fun s' _ => s'.CanStop :=
  hx.seq (fun s₁ b hs => hf s₁ b (hs.front h)) fun _ _ hs => (hs.front h).canStop hst

/-- A conflict is answered with a 409, in the state it was found in. -/
theorem keeps_conflictTo409 {x : Py α} {Q : Track → α → Prop} {R : Track → Prop}
    (hx : Keeps S s x Q fun s' _ => R s') : Keeps S s (conflictTo409 x) Q fun s' _ => R s' := by
  refine (spec_tryCatch _ _).2 (Spec.mono hx (fun _ _ h => h) fun s' e h => ?_)
  cases e <;> exact h

/-- The commit of a reservation that was made, or of the lookup that found
one. -/
theorem keeps_commitReservation {f : Unit → Py α} {Q : Track → α → Prop} {tenant rid : Uuid}
    {r : JobIdempotency × Bool} (h : Reserved w tenant rid s r)
    (hf : ∀ s', Front w (if r.2 then .reserved tenant rid else .found tenant rid) s' →
      Keeps S s' (f ()) Q fun s' _ => s'.CanStop) :
    Keeps S s (await .commit >>= f) Q fun s' _ => s'.CanStop := by
  obtain ⟨row, new⟩ := r
  refine Keeps.step (e := .commit) ?_ (fun _ => hf _ ⟨h.ws, h.held, ?_⟩) fun _ _ => ?_
  · rw [show Allows S.maxRetries s .commit = (s.stage.committable = true) from rfl, h.stage]
    cases new <;> rfl
  · rw [show (s.onOk .commit ()).stage = s.stage.committed from rfl, h.stage]
    cases new <;> rfl
  · exact canStop_onError (e := .commit) h.held rfl _

/-! ## jobs -/

/-- A key is replayed, which leaves the transaction empty, or reserved. -/
theorem keeps_replayOrReserve (h : Front w .none s) (ctx : AuthContext) (key : Uuid)
    (hash : PyStr) :
    Keeps S s (replayOrReserve S ctx key hash)
      (fun s' r => match r with
        | .inl _ => Front w .none s'
        | .inr row => ∃ b, Reserved w ctx.tenantId key s' (row, b))
      (fun s' _ => Unreserved w s') := by
  refine Keeps.step h.stage (fun row => ?_)
    fun _ _ => .inl ((steady_onError_none h.stage _ _).front h)
  have hsel : Front w .none (s.onOk (.selectIdem .upfront ctx.tenantId key) row) := h
  cases row with
  | some row =>
      dsimp only
      split
      · exact (Or.inl hsel : Unreserved w _)
      · exact hsel
  | none =>
      refine (steady_checkQueueDepth hsel.stage).seq (fun s₁ _ h₁ => ?_)
        fun _ _ h₁ => .inl (h₁.front hsel)
      refine (keeps_reserveOrGet (h₁.front hsel) ctx.tenantId key ctx.apiKeyId hash none).seq ?_
        fun _ _ hu => hu
      rintro s₂ ⟨row, b⟩ hr
      exact ⟨b, hr⟩

/-- The jobs surface never stops with a reservation of its own that nobody finishes.
-/
theorem stops_createTtsJob (ctx : AuthContext) (hd : Headers) (body : TtsBody) :
    Stops S {} (createTtsJob S ctx hd body) := by
  have h : Front false .none {} := ⟨rfl, rfl, rfl⟩
  refine stops_requestSession ?_
  dsimp only
  split
  · exact h.canStop rfl
  refine (spec_bind _ _).2 (keeps_liftExn.2 ⟨fun key _ => ?_, fun _ _ => h.canStop rfl⟩)
  refine Keeps.after h rfl (steady_assertVoice h.stage ctx body.voiceId) fun s₁ voice h₁ => ?_
  refine Keeps.after h₁ rfl (steady_ensureVoiceSynthesizable h₁.stage voice) fun s₂ _ h₂ => ?_
  refine Keeps.after h₂ rfl (steady_requestPreset body.modelId) fun s₃ preset h₃ => ?_
  refine (keeps_conflictTo409 (keeps_replayOrReserve h₃ ctx key (S.hashJobBody body))).seq ?_
    fun _ _ hu => hu.canStop
  rintro s₄ (reply | row) h₄
  · exact h₄.canStop rfl
  · obtain ⟨b, h₄⟩ := h₄
    refine keeps_commitReservation h₄ fun s₅ h₅ => ?_
    refine Keeps.mark rfl trivial fun now => ?_
    have h₆ : Front false _ (s₅.onOk .clock now) := h₅
    refine (keeps_submitOrUndo h₆ ?_ ⟨rfl, rfl⟩ _).seq (fun _ _ ho => ho.canStop rfl)
      fun _ _ hc => hc
    cases b
    · exact .inr rfl
    · exact .inl rfl

/-- Neither does the status route, which only reads. -/
theorem stops_getTtsJob (ctx : AuthContext) (jobId : PyStr) :
    Stops S {} (getTtsJob S ctx jobId) := by
  have h : Front false .none {} := ⟨rfl, rfl, rfl⟩
  refine stops_requestSession ?_
  cases parseUuid jobId with
  | none => exact h.canStop rfl
  | some rid =>
      refine Keeps.step rfl (fun row => ?_)
        fun _ _ => ((steady_onError_none h.stage _ _).front h).canStop rfl
      have hsel : Front false .none
          (({} : Track).onOk (.selectIdem .poll ctx.tenantId rid) row) := h
      cases row with
      | none => exact hsel.canStop rfl
      | some row =>
          dsimp only
          split
          · refine Keeps.step (.inl rfl) (fun u => ?_)
              fun _ _ => ((steady_onError_none hsel.stage _ _).front hsel).canStop rfl
            exact Front.canStop ⟨rfl, rfl, rfl⟩ rfl
          · exact hsel.canStop rfl

/-! ## reading a result stream -/

section reading

variable {σ : Type} {onChunk : σ → TtsResult → Py (σ × Bool)}

/-- The consumer of a stream changes nothing, at any stage it is called. -/
def SteadyConsumer (S : Settings) (s : Track) (onChunk : σ → TtsResult → Py (σ × Bool)) : Prop :=
  ∀ s₁, Steady s s₁ → ∀ acc c, StaysSteady S s₁ (onChunk acc c)

/-- A consumer stays steady behind steady moves. -/
theorem SteadyConsumer.of_steady (h : SteadyConsumer S s onChunk) (hs : Steady s s₁) :
    SteadyConsumer S s₁ onChunk := fun s₂ h₂ => h s₂ (hs.trans h₂)

/-- A consumer without awaits. -/
theorem steady_pureConsumer (g : σ → TtsResult → σ × Bool) :
    SteadyConsumer S s fun acc c => pure (g acc c) :=
  fun s₁ _ _ _ => (Steady.refl : Steady s₁ s₁)

/-- A batch is fed to a steady consumer steadily, by induction on the batch. -/
theorem steady_feedAll (hc : SteadyConsumer S s onChunk) (batch : List (Nat × TtsResult))
    (rs : ReadState) (acc : σ) : StaysSteady S s (feedAll onChunk batch rs acc) := by
  induction batch generalizing s rs acc with
  | nil => exact Steady.refl
  | cons d batch ih =>
      unfold feedAll
      dsimp only
      split
      · refine Keeps.steady (hc s Steady.refl acc d.2) fun s₁ ⟨acc, goOn⟩ h₁ => ?_
        dsimp only
        split
        · exact (Steady.refl : Steady s₁ s₁)
        · split
          · exact (Steady.refl : Steady s₁ s₁)
          · exact ih (hc.of_steady h₁) _ _
      · exact ih hc _ _

/-- So is all that the loop reads, by induction on the reads. -/
theorem steady_readLoop (hs : ∀ r, s.stage ≠ .erred r) (hc : SteadyConsumer S s onChunk)
    (rid : Uuid) (deadline fuel : Nat) (rs : ReadState) (acc : σ) :
    StaysSteady S s (readLoop onChunk rid deadline fuel rs acc) := by
  induction fuel generalizing s rs acc with
  | zero => exact Steady.refl
  | succ fuel ih =>
      refine Keeps.mark rfl trivial fun now => ?_
      rw [show s.onOk .clock now = s from rfl]
      split
      · exact (Steady.refl : Steady s s)
      refine (spec_bind _ _).2 (keeps_outcomeOf.2 (keeps_await.2 ⟨trivial, ?_, ?_⟩))
      · rintro (_ | ⟨d, batch⟩)
        · exact Keeps.mark rfl trivial fun _ => ih hs hc _ _
        · refine Keeps.steady (steady_feedAll hc (d :: batch) rs acc)
            fun s₁ ⟨rs, acc, stop⟩ h₁ => ?_
          cases stop with
          | none => exact ih (h₁.stage ▸ hs) (hc.of_steady h₁) _ _
          | some stop => exact Steady.refl
      · exact fun _ x => steady_onError hs rfl _

/-- The stream is deleted afterwards without a look at the ledger. -/
theorem steady_cleanup (hs : ∀ r, s.stage ≠ .erred r) (rid : Uuid) (raising : Option Exn) :
    StaysSteady S s (cleanup rid raising) :=
  (spec_bind _ _).2 (keeps_outcomeOf.2 (keeps_await.2 ⟨trivial, fun _ => Steady.refl,
    fun _ _ => steady_onError hs rfl _⟩))

/-- Reading a result stream to its end changes nothing. -/
theorem steady_consumeResultStream (hs : ∀ r, s.stage ≠ .erred r)
    (hc : SteadyConsumer S s onChunk) (rid : Uuid) (timeoutMs fuel : Nat) (acc : σ) :
    StaysSteady S s (consumeResultStream onChunk rid timeoutMs fuel acc) := by
  refine Keeps.mark rfl trivial fun now => ?_
  rw [show s.onOk .clock now = s from rfl]
  have hclean (s₁ : Track) (h₁ : Steady s s₁) {β : Type} (raising : Option Exn)
      (f : Option Exn → Py β) (hf : ∀ s₂ e, Steady s s₂ →
        Keeps S s₂ (f e) (fun s' _ => Steady s s') (fun s' _ => Steady s s')) :
      Keeps S s₁ (cleanup rid raising >>= f) (fun s' _ => Steady s s')
        (fun s' _ => Steady s s') :=
    (steady_cleanup (h₁.stage ▸ hs) rid raising).seq (fun s₂ e h₂ => hf s₂ e (h₁.trans h₂))
      fun _ _ h₂ => h₁.trans h₂
  refine (spec_bind _ _).2 (keeps_outcomeOf.2 (Spec.mono (steady_readLoop hs hc rid
    (now + timeoutMs) fuel {} acc) ?_ ?_))
  · rintro s₁ ⟨acc, stop⟩ h₁
    cases stop with
    | terminal => exact hclean s₁ h₁ _ _ fun _ _ h => h
    | left => exact hclean s₁ h₁ _ _ fun _ _ h => h
    | raised e =>
        cases e with
        | stillRunning => exact h₁
        | _ => exact hclean s₁ h₁ _ _ fun _ _ h => h
  · exact fun s₁ e h₁ => hclean s₁ h₁ _ _ fun _ _ h => h

end reading

/-! ## synchronous synthesis -/

/-- What `reserve_and_submit` leaves when it returns. -/
def Submitted (w : Bool) (s : Track) : Prop :=
  ∃ st, Front w st s ∧ st.finished w = true ∧ ∀ r, st ≠ .erred r

/-- The sync surfaces come out with a job submitted, or with nothing to finish. -/
theorem keeps_reserveAndSubmit (ctx : AuthContext) (hd : Headers) (body : TtsBody) :
    Keeps S {} (reserveAndSubmit S ctx hd body) (fun s' _ => Submitted false s')
      (fun s' _ => s'.CanStop) := by
  have h : Front false .none {} := ⟨rfl, rfl, rfl⟩
  unfold reserveAndSubmit
  dsimp only
  split
  · exact h.canStop rfl
  refine Keeps.after h rfl (steady_assertVoice h.stage ctx body.voiceId) fun s₁ voice h₁ => ?_
  refine Keeps.after h₁ rfl (steady_ensureVoiceSynthesizable h₁.stage voice) fun s₂ _ h₂ => ?_
  refine Keeps.after h₂ rfl (steady_requestPreset body.modelId) fun s₃ preset h₃ => ?_
  have hrid : StaysSteady S s₃ (requestIdFor hd) := by
    unfold requestIdFor
    split
    · exact Steady.refl
    · exact keeps_await.2 ⟨trivial, fun _ => Steady.refl, nofun⟩
  refine Keeps.after h₃ rfl hrid fun s₄ rid h₄ => ?_
  refine Keeps.after h₄ rfl (steady_checkQueueDepth h₄.stage) fun s₅ _ h₅ => ?_
  refine (keeps_conflictTo409 (keeps_reserveOrGet h₅ ctx.tenantId rid ctx.apiKeyId
        (S.hashSyncBody body) none)).seq ?_ fun _ _ hu => hu.canStop
  rintro s₆ ⟨row, new⟩ h₆
  refine keeps_commitReservation h₆ fun s₇ h₇ => ?_
  cases new with
  | true =>
      refine Keeps.mark rfl trivial fun now => ?_
      refine (keeps_submitOrUndo (s := s₇.onOk .clock now) h₇ (.inl rfl)
        ⟨rfl, rfl⟩ _).seq (fun _ _ ho => ?_) fun _ _ hc => hc
      exact ⟨.over, ho, rfl, fun _ => nofun⟩
  | false => exact ⟨_, h₇, rfl, fun _ => nofun⟩

/-- After the submission a handler only reads. -/
theorem stops_read {β : Type} {x : Py β} (h : Submitted w s)
    (hx : (∀ r, s.stage ≠ .erred r) → StaysSteady S s x) {f : β → Py α}
    (hf : ∀ s₁ b, s₁.CanStop → Stops S s₁ (f b)) : Stops S s (x >>= f) := by
  obtain ⟨st, h, hst, hne⟩ := h
  exact (hx (h.stage ▸ hne)).seq (fun s₁ b hs => hf s₁ b ((hs.front h).canStop hst))
    fun _ _ hs => (hs.front h).canStop hst

/-- The collector is a steady consumer's reader. -/
theorem steady_collectPcmUntilFinal (hs : ∀ r, s.stage ≠ .erred r) (rid : Uuid)
    (timeoutMs fuel : Nat) : StaysSteady S s (collectPcmUntilFinal rid timeoutMs fuel) := by
  refine Keeps.steady (steady_consumeResultStream hs (steady_pureConsumer _) rid timeoutMs
    fuel _) fun s₁ ⟨c, raised⟩ _ => ?_
  cases raised <;> exact Steady.refl

/-- The sync surface may stop wherever it does. -/
theorem stops_synthesize (ctx : AuthContext) (hd : Headers) (body : TtsBody) (fuel : Nat) :
    Stops S {} (synthesize S ctx hd body fuel) := by
  refine stops_requestSession ?_
  refine (keeps_reserveAndSubmit ctx hd body).seq (fun s₁ rid h₁ => ?_) fun _ _ hc => hc
  refine stops_read h₁ (fun hs => keeps_outcomeOf.2
    (steady_collectPcmUntilFinal hs rid S.syncTimeoutMs fuel)) fun s₂ r hc => ?_
  rcases r with e | ⟨pcm, sentences, error⟩
  · cases e <;> exact hc
  · cases error <;> exact hc

/-- So may the streaming surface. -/
theorem stops_synthesizeStream (ctx : AuthContext) (hd : Headers) (body : TtsBody)
    (fuel : Nat) : Stops S {} (synthesizeStream S ctx hd body fuel) := by
  refine stops_requestSession ?_
  refine (keeps_reserveAndSubmit ctx hd body).seq (fun s₁ rid h₁ => ?_) fun _ _ hc => hc
  refine stops_read h₁ (fun hs => steady_consumeResultStream hs (steady_pureConsumer _) rid
    S.syncTimeoutMs fuel []) fun s₂ ⟨frames, raised⟩ hc => ?_
  cases raised with
  | none => exact hc
  | some e => cases e <;> exact hc

/-! ## the WebSocket -/

/-- A connection between two segments: a submission that raised leaves its
reservation behind. -/
structure Between (s : Track) : Prop where
  ws : s.ws = true
  held : s.held = none
  stage : s.stage = .none ∨ s.stage = .over ∨ ∃ t r, s.stage = .refused t r

/-- Between two segments the socket may stop. -/
theorem Between.canStop (h : Between s) : s.CanStop := by
  refine ⟨h.held, ?_⟩
  rw [h.ws]
  rcases h.stage with hs | hs | ⟨t, r, hs⟩ <;> rw [hs] <;> rfl

/-- Between two segments no error is published. -/
theorem Between.not_erred (h : Between s) (r : Uuid) : s.stage ≠ .erred r := by
  rcases h.stage with hs | hs | ⟨t, r, hs⟩ <;> simp [hs]

/-- Steady moves stay between two segments. -/
theorem Steady.between (h : Steady s s') (hb : Between s) : Between s' :=
  ⟨h.ws.trans hb.ws, h.held.trans hb.held, h.stage ▸ hb.stage⟩

/-- A front without a row of its own is between two segments. -/
theorem Front.between (h : Front true st s)
    (hst : st = .none ∨ st = .over ∨ ∃ t r, st = .refused t r) : Between s :=
  ⟨h.ws, h.held, h.stage ▸ hst⟩

/-- A statement that raises leaves the connection between two segments. -/
theorem Between.onError_sql (h : Between s) {e : Eff} (he : e.isSql = true) (x : Exn) :
    Between (s.onError e x) :=
  ⟨h.ws, h.held, .inl (Stage.raised_of_isSql he s.stage)⟩

/-- A disconnect that is suppressed moves nothing. -/
theorem steady_suppressDisconnect {x : Py Unit} (hx : StaysSteady S s x) :
    StaysSteady S s (suppressDisconnect x) := by
  refine (spec_bind _ _).2 (keeps_outcomeOf.2 (Spec.mono hx (fun _ _ h => h) fun s' e h => ?_))
  cases e with
  | foreign f => cases f <;> exact h
  | _ => exact h

/-- A frame is no step of a job. -/
theorem steady_wsSend (hs : ∀ r, s.stage ≠ .erred r) (f : WsFrame) :
    StaysSteady S s (await (.wsSend f)) :=
  keeps_await.2 ⟨trivial, fun _ => Steady.refl, fun _ _ => steady_onError hs rfl _⟩

/-- Neither is an error frame. -/
theorem steady_sendError (hs : ∀ r, s.stage ≠ .erred r) (code : String) :
    StaysSteady S s (sendError code) := steady_suppressDisconnect (steady_wsSend hs _)

/-- A forwarded chunk is a frame. -/
theorem steady_forwardChunk (hs : ∀ r, s.stage ≠ .erred r) :
    SteadyConsumer S s forwardChunk := by
  intro s₁ h₁ acc c
  have hs₁ : ∀ r, s₁.stage ≠ .erred r := h₁.stage ▸ hs
  unfold forwardChunk
  split
  · exact Keeps.steady (steady_sendError hs₁ _) fun _ _ _ => Steady.refl
  · split
    · exact (Steady.refl : Steady s₁ s₁)
    · refine Keeps.steady (steady_suppressDisconnect (Keeps.steady (steady_wsSend hs₁ _)
        fun s₂ _ h₂ => steady_wsSend (h₂.stage ▸ hs₁) _)) fun _ _ _ => Steady.refl

/-- `x` starts anywhere and ends between two segments. -/
abbrev EndsBetween (S : Settings) (s : Track) (x : Py α) : Prop :=
  Keeps S s x (fun s' _ => Between s') (fun s' _ => Between s')

/-- A steady call between two segments. -/
theorem Between.call {β : Type} {x : Py β} {f : β → Py α} (h : Between s)
    (hx : StaysSteady S s x) (hf : ∀ s₁ b, Between s₁ → EndsBetween S s₁ (f b)) :
    EndsBetween S s (x >>= f) :=
  hx.seq (fun s₁ b hs => hf s₁ b (hs.between h)) fun _ _ hs => hs.between h

/-- Telling the client, as the last act. -/
theorem Between.sendError (h : Between s) (code : String) (a : α) :
    EndsBetween S s (do sendError code; return a) :=
  h.call (steady_sendError h.not_erred code) fun _ _ h₁ => h₁

/-- The audit of a refused segment: nobody sees it fail. -/
theorem keeps_auditRefusal (h : Between s) (reason : String) :
    EndsBetween S s (exceptException (do await (.insertAudit reason); await .commit)
      fun _ => pure ()) := by
  have hcommit : Allows S.maxRetries s .commit := by
    rcases h.stage with hs | hs | ⟨t, r, hs⟩ <;>
      exact (congrArg Stage.committable hs).trans rfl
  have hok : Between (s.onOk .commit ()) := by
    refine ⟨h.ws, h.held, ?_⟩
    have hst : (s.onOk .commit ()).stage = s.stage.committed := rfl
    rcases h.stage with hs | hs | ⟨t, r, hs⟩
    · exact .inl (hst.trans (congrArg Stage.committed hs))
    · exact .inr (.inl (hst.trans (congrArg Stage.committed hs)))
    · exact .inr (.inr ⟨t, r, hst.trans (congrArg Stage.committed hs)⟩)
  have hpass {s' : Track} {e : Exn} (h' : Between s') :
      if e.isException then EndsBetween S s' (pure ()) else Between s' := by
    split
    · exact h'
    · exact h'
  refine keeps_exceptException.2 (Keeps.step trivial (fun _ => ?_)
    fun _ x => hpass (h.onError_sql rfl _))
  exact keeps_await.2 ⟨hcommit, fun _ => hok, fun _ x => hpass (h.onError_sql rfl _)⟩

/-- The reservation of a segment. -/
theorem keeps_reserveSegment (h : Between s) (ctx : AuthContext) (rid : Uuid) (seg : PyStr) :
    Keeps S s (reserveSegment S ctx rid seg)
      (fun s' b => if b then Front true (.reserved ctx.tenantId rid) s' else Between s')
      (fun s' _ => Between s') := by
  have hins : Allows S.maxRetries s
      (.insertIdem ctx.tenantId rid ctx.apiKeyId (S.hashSegment seg)
        (IdempotencyRepo.ttlOr none)) := by
    refine ⟨h.held, ?_⟩
    rcases h.stage with hs | hs | hs
    · exact .inl hs
    · exact .inr (.inl hs)
    · exact .inr (.inr ⟨h.ws, hs⟩)
  refine keeps_exceptException.2 (Keeps.step hins (fun row => ?_) fun _ x => ?_)
  · refine Keeps.step rfl (fun _ => ⟨h.ws, h.held, rfl⟩) fun _ x => ?_
    have hx : Front true .none ((s.onOk (.insertIdem ctx.tenantId rid ctx.apiKeyId
        (S.hashSegment seg) (IdempotencyRepo.ttlOr none)) row).onError .commit (.foreign x)) :=
      ⟨h.ws, h.held, rfl⟩
    split
    · exact hx.between (.inl rfl)
    · exact hx.between (.inl rfl)
  · have hx := h.onError_sql (e := .insertIdem ctx.tenantId rid ctx.apiKeyId
      (S.hashSegment seg) (IdempotencyRepo.ttlOr none)) rfl (.foreign x)
    split
    · exact hx
    · exact hx

/-- A segment begins and ends between two segments, whatever becomes of it. -/
theorem keeps_flushSegment (h : Between s) (ctx : AuthContext) (slug : PyStr)
    (appLabel : Option PyStr) (fuel : Nat) (st : WsState) (seg : PyStr) :
    EndsBetween S s (flushSegment S ctx slug appLabel fuel st seg) := by
  unfold flushSegment
  split
  · exact h.sendError _ _
  refine h.call (steady_computeBackpressureDecision h.not_erred) fun s₁ o h₁ => ?_
  cases o with
  | some reason =>
      exact (keeps_auditRefusal h₁ reason).seq (fun _ _ h₂ => h₂.sendError _ _)
        fun _ _ h₂ => h₂
  | none =>
      refine Keeps.mark rfl trivial fun rid => ?_
      refine (keeps_reserveSegment h₁ ctx rid seg).seq (fun s₂ b h₂ => ?_) fun _ _ h₂ => h₂
      cases b with
      | false => exact h₂.sendError _ _
      | true =>
          have hpay : IsPayload ctx.tenantId rid (segmentPayload ctx rid st slug seg appLabel) :=
            ⟨rfl, rfl⟩
          refine (spec_bind _ _).2 (keeps_outcomeOf.2 (keeps_await.2
            ⟨⟨_, _, .inl h₂.stage, hpay.requestId, hpay.tenantId⟩, fun _ => ?_, fun _ x => ?_⟩))
          · have h₃ : Front true .over
                (s₂.onOk (.xaddJob (segmentPayload ctx rid st slug seg appLabel)) ()) :=
              ⟨h₂.ws, h₂.held, rfl⟩
            have hb := h₃.between (.inr (.inl rfl))
            refine hb.call (steady_consumeResultStream hb.not_erred
              (steady_forwardChunk hb.not_erred) rid S.segmentTimeoutMs fuel (st.seq, false))
              fun s₄ ⟨⟨seq, told⟩, raised⟩ h₄ => ?_
            cases raised with
            | none => cases told <;> exact h₄
            | some e =>
                cases e with
                | resultStreamTimeout => cases told <;> exact h₄.sendError _ _
                | _ => cases told <;> exact h₄
          · have hx : Front true (.refused ctx.tenantId rid)
                (s₂.onError (.xaddJob (segmentPayload ctx rid st slug seg appLabel))
                  (.foreign x)) := by
              refine ⟨h₂.ws, h₂.held, ?_⟩
              exact (congrArg (Stage.raised · _) h₂.stage).trans rfl
            have hb := hx.between (.inr (.inr ⟨_, _, rfl⟩))
            dsimp only
            split
            · exact hb.sendError _ _
            · exact hb

/-- So do several, by induction on them. -/
theorem keeps_flushSegments (ctx : AuthContext) (slug : PyStr) (appLabel : Option PyStr)
    (fuel : Nat) (segs : List PyStr) (h : Between s) (st : WsState) :
    EndsBetween S s (flushSegments S ctx slug appLabel fuel segs st) := by
  induction segs generalizing s st with
  | nil => exact h
  | cons seg segs ih =>
      exact (keeps_flushSegment h ctx slug appLabel fuel st seg).seq (fun _ st h₁ => ih h₁ st)
        fun _ _ h₁ => h₁

/-- The socket may stop after its last segment. -/
theorem stops_streamInput (ctx : AuthContext) (slug : PyStr) (appLabel : Option PyStr)
    (fuel : Nat) (segs : List PyStr) :
    Stops S { ws := true } (streamInput S ctx slug appLabel fuel segs) := by
  have h : Between { ws := true } := ⟨rfl, rfl, .inl rfl⟩
  refine (keeps_finallyDo rfl).2 (Spec.mono (keeps_flushSegments ctx slug appLabel fuel segs h {})
    ?_ ?_)
  · exact fun _ _ h₁ => ⟨trivial, fun b => h₁.canStop.dropped (.inr rfl) b⟩
  · exact fun _ _ h₁ => ⟨trivial, fun b => h₁.canStop.dropped (.inr rfl) b⟩

end gateway

end NeuroVoice
