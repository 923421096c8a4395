import NeuroVoice.Handover

/-!
# NeuroVoice.Knobs

The two engine knobs, from the client's request to `model.generate`.

`server/models.py` documents an order of resolution: explicit `params`, then the
named preset, then `voice.engine_params`, then the engine's default.  The worker
always fills in both knobs, from the default preset when the client names none,
so the engine never reaches the last two.  And `server/schemas.py` documents how
far a voice setting moves a preset's value, which the worker does otherwise.
`knob_precedence` says when what the engine hands on is the documented value all
the same.
-/

namespace NeuroVoice

/-! ## the engine -/

/-- What the engine's constructor was given. -/
structure EngineDefaults where
  cfgValue : PyFloat := .fin 2
  inferenceTimesteps : Int := 10

/-- `_engine_params_for_voice`. -/
def engineParamsForVoice (E : EngineDefaults) (voice : VoiceView) (overrides : Dict) :
    Except Foreign (PyFloat × Int) := do
  let base := Dict.merge voice.engineParams overrides
  let cfgValue ← ((base.get (py "cfg_value")).getD (.float E.cfgValue)).asFloat
  let inferenceTimesteps ← ((base.get (py "inference_timesteps")).getD
    ((base.get (py "timesteps")).getD (.int E.inferenceTimesteps))).toInt
  return (cfgValue, inferenceTimesteps)

/-- The `engine_overrides` of a request. -/
def SynthRequest.engineOverrides (r : SynthRequest) : Dict :=
  [(py "cfg_value", r.cfgValue), (py "inference_timesteps", r.inferenceTimesteps)]

/-- What `_generate_one` hands to `model.generate`. -/
def SynthRequest.generated (E : EngineDefaults) (r : SynthRequest) :
    Except Foreign (PyFloat × Int) :=
  engineParamsForVoice E r.voice r.engineOverrides

/-! ## the documented order -/

/-- An engine knob. -/
inductive Knob where
  | cfgValue
  | inferenceTimesteps
deriving DecidableEq

namespace Knob

/-- Its name in `params` and `engine_params`. -/
def key : Knob → String
  | .cfgValue => "cfg_value"
  | .inferenceTimesteps => "inference_timesteps"

/-- The voice setting that shifts it. -/
def setting : Knob → String
  | .cfgValue => "similarity_boost"
  | .inferenceTimesteps => "stability"

/-- The knob of a pair. -/
def of (generated : PyFloat × Int) : Knob → PyFloat
  | .cfgValue => generated.1
  | .inferenceTimesteps => .fin generated.2

/-- The number a member stands for. -/
def read (v : Json) : Knob → Except Foreign PyFloat
  | .cfgValue => v.asFloat
  | .inferenceTimesteps => do return .fin (← v.toInt)

/-- A preset's value, shifted by the voice settings and clamped. -/
def shifted (preset : ModelPreset) (settings : Dict) : Knob → Except Foreign PyFloat
  | .cfgValue => do return .fin ((← boostedCfg preset settings).clamp 1 (7 / 2))
  | .inferenceTimesteps => do
      return .fin (max 4 (min 40 (← stabilisedSteps preset settings)) : Int)

/-- How far the worker moves it for its voice setting. -/
def offset : Knob → PyFloat → PyFloat
  | .cfgValue => cfgOffset
  | .inferenceTimesteps => stepsOffset

/-- A preset's value, moved by an offset and clamped. -/
def moved (preset : ModelPreset) (offset : PyFloat) : Knob → Except Foreign PyFloat
  | .cfgValue => .ok (.fin ((offset.addRat preset.cfgValue).clamp 1 (7 / 2)))
  | .inferenceTimesteps => do
      let steps ← (Json.float (offset.addRat preset.inferenceTimesteps)).toInt
      return .fin (max 4 (min 40 steps) : Int)

/-- A preset's own value. -/
def ofPreset (preset : ModelPreset) : Knob → PyFloat
  | .cfgValue => .fin preset.cfgValue
  | .inferenceTimesteps => .fin preset.inferenceTimesteps

/-- The default preset's value. -/
def usual : Knob → PyFloat := ofPreset defaultModel

/-- The documented offset of a setting of 0. -/
def lowest : Knob → Rat
  | .cfgValue => -3 / 10
  | .inferenceTimesteps => -4

/-- The documented offset of a setting of 1. -/
def highest : Knob → Rat
  | .cfgValue => 1 / 2
  | .inferenceTimesteps => 8

end Knob

/-- A reading of the documented offsets.  The documentation of `VoiceSettings` has
three of them for each knob: of a setting of 0, of one half, which means the
preset's own value, and of 1. -/
structure Offsets where
  of : Knob → PyFloat → PyFloat
  low : ∀ k, of k (.fin 0) = .ofRat k.lowest
  half : ∀ k, of k (.fin (1 / 2)) = .fin 0
  high : ∀ k, of k (.fin 1) = .ofRat k.highest

/-- A preset ends up where the documentation puts it, though the worker moves it by
`(v - 0.5)`, times 16 for the steps.  At 0 that is further than documented, which
does not show where few steps are clamped to 4 either way; at 0.5 and 1 it is the
documented offset; between them the documentation has no number of its own. -/
def Offsets.Agrees (D : Offsets) (preset : ModelPreset) (v : PyFloat) (k : Knob) : Prop :=
  if v = .fin 0 then k = .inferenceTimesteps ∧ preset.inferenceTimesteps ≤ 8
  else if v = .fin (1 / 2) ∨ v = .fin 1 then True
  else k.moved preset (D.of k v) = k.moved preset (k.offset v)

/-- What a client asks of the knobs. -/
structure Ask where
  modelId : Option PyStr
  voiceSettings : Option Dict
  params : Option Dict

namespace Ask

/-- The bounds of `TTSJobParams`. -/
structure Valid (ask : Ask) : Prop where
  cfgValue : ∀ d v, ask.params = some d → d.getSome "cfg_value" = some v →
    ∃ q : Rat, v = .float (.fin q) ∧ 1 ≤ q ∧ q ≤ 7 / 2
  inferenceTimesteps : ∀ d v, ask.params = some d → d.getSome "inference_timesteps" = some v →
    ∃ n : Int, v = .int n ∧ 4 ≤ n ∧ n ≤ 40

/-- The client sets the knob itself. -/
def param (ask : Ask) (k : Knob) : Option Json := ask.params.bind fun d => d.getSome k.key

/-- The preset the client names. -/
def named (S : Settings) (ask : Ask) : Option ModelPreset :=
  (ask.modelId.filter fun s => !s.isEmpty).bind fun s => (resolveModel S (.str s)).toOption

/-- The request's voice settings over the catalog's. -/
def settings (ask : Ask) (voice : Voice) : Dict :=
  Dict.merge (voice.voiceSettingsDefaults.getD []) (ask.voiceSettings.getD [])

/-- The documented value of a knob, when `d` is the default. -/
def Documented (D : Offsets) (S : Settings) (ask : Ask) (voice : Voice) (d : PyFloat) (k : Knob)
    (x : PyFloat) : Prop :=
  match ask.param k, ask.named S, (ask.settings voice).getSome k.setting,
      voice.engineParams.get (py k.key) with
  | some v, _, _, _ => k.read v = .ok x
  | none, some preset, some v, _ =>
      ∃ y, v.floatOperand = .ok y ∧ k.moved preset (D.of k y) = .ok x
  | none, some preset, none, _ => x = k.ofPreset preset
  | none, none, none, some v => k.read v = .ok x
  | none, none, _, _ => x = d

/-- When the knob comes out as documented. -/
def Unshadowed (D : Offsets) (S : Settings) (ask : Ask) (voice : Voice) (d : PyFloat)
    (k : Knob) : Prop :=
  match ask.param k, ask.named S, (ask.settings voice).getSome k.setting,
      voice.engineParams.get (py k.key) with
  | some _, _, _, _ => True
  | none, some preset, some v, _ => ∀ y, v.floatOperand = .ok y → D.Agrees preset y k
  | none, some _, none, _ => True
  | none, none, some v, _ =>
      ∀ y, v.floatOperand = .ok y → k.moved defaultModel (k.offset y) = .ok d
  | none, none, none, some v => k.read v = .ok k.usual
  | none, none, none, none => d = k.usual

end Ask

/-- A request of the gateway that can end in a job. -/
inductive Submission where
  | jobs (h : Headers) (body : TtsBody)
  | sync (h : Headers) (body : TtsBody) (fuel : Nat)
  | stream (h : Headers) (body : TtsBody) (fuel : Nat)
  | segment (slug : PyStr) (appLabel : Option PyStr) (fuel : Nat) (st : WsState) (text : PyStr)

namespace Submission

/-- Its handler. -/
def handler (S : Settings) (ctx : AuthContext) : Submission → Py Unit
  | .jobs h body => do let _ ← createTtsJob S ctx h body
  | .sync h body fuel => do let _ ← synthesize S ctx h body fuel
  | .stream h body fuel => do let _ ← synthesizeStream S ctx h body fuel
  | .segment slug appLabel fuel st text => do
      let _ ← flushSegment S ctx slug appLabel fuel st text

/-- What it asks: only the jobs surface has `params`, and a segment is sent
under its connection's configuration. -/
def ask : Submission → Ask
  | .jobs _ body => ⟨body.modelId, body.voiceSettings, body.params⟩
  | .sync _ body _ | .stream _ body _ => ⟨body.modelId, body.voiceSettings, none⟩
  | .segment _ _ _ st _ => ⟨st.modelId, st.voiceSettings, none⟩

end Submission

/-! ## the gateway -/

/-- The job carries the ask: whatever a worker makes of its model is what the
client's own would be. -/
structure TtsJobPayload.Carries (S : Settings) (ask : Ask) (job : TtsJobPayload) : Prop where
  model : ∀ W preset, resolveModel W job.modelId = .ok preset →
    resolveModel S (.ofStr? ask.modelId) = .ok preset
  voiceSettings : job.voiceSettings = .ofDict? ask.voiceSettings
  params : job.params = .ofDict? ask.params

/-- Only jobs that carry the ask are added. -/
def Eff.carries (S : Settings) (ask : Ask) : Eff → Prop
  | .xaddJob job => job.Carries S ask
  | _ => True

section gateway

variable {S W : Settings} {ctx : AuthContext} {ask : Ask}

/-- Settings only matter to an unknown model's message. -/
theorem resolveModel_settings {m : Json} {preset : ModelPreset}
    (h : resolveModel S m = .ok preset) : resolveModel W m = .ok preset := by
  unfold resolveModel at h ⊢
  split
  · next hfalsy => rwa [if_pos hfalsy] at h
  · next htruthy =>
      rw [if_neg htruthy] at h
      cases m with
      | str s =>
          dsimp only at h ⊢
          cases hfind : presets.find? fun p => p.modelId = s with
          | none => rw [hfind] at h; cases h
          | some p => rw [hfind] at h; exact h
      | _ => cases h

/-- A preset's own name resolves to it. -/
theorem resolveModel_of_mem {preset : ModelPreset} (h : preset ∈ presets) :
    resolveModel W (.str preset.modelId) = .ok preset := by
  revert preset
  simp only [presets, List.forall_mem_cons]
  exact ⟨rfl, rfl, rfl, rfl, rfl, rfl, by simp⟩

/-- A preset is found again under its id. -/
theorem resolveModel_modelId {m : Json} {preset : ModelPreset}
    (h : resolveModel S m = .ok preset) : resolveModel W (.str preset.modelId) = .ok preset := by
  unfold resolveModel at h
  split at h
  · cases h
    rfl
  · cases m with
    | str s =>
        dsimp only at h
        cases hfind : presets.find? fun p => p.modelId = s with
        | none => rw [hfind] at h; cases h
        | some p =>
            rw [hfind] at h
            cases h
            exact resolveModel_of_mem (List.mem_of_find?_eq_some hfind)
    | _ => cases h

/-- Awaits that add no job carry nothing. -/
theorem carries_of_plain : ∀ e : Eff, e.plain → e.carries S ask := by
  intro e h
  cases e with
  | xaddJob job => exact h.elim
  | _ => trivial

/-- A program of such awaits carries nothing. -/
theorem Plain.carries {α : Type} {x : Py α} (h : Plain x) : Only (Eff.carries S ask) x :=
  h.mono carries_of_plain

/-- The voice's look-up adds no job. -/
theorem carries_assertVoice (voiceId : PyStr) :
    Only (Eff.carries S ask) (assertVoiceAccessibleOr404 S ctx voiceId) := by
  unfold assertVoiceAccessibleOr404
  split
  on_goal 1 => refine Only.bind (.raise _) fun _ => ?_
  all_goals
    refine Only.tick trivial fun found => ?_
    cases found with
    | none => exact .raise _
    | some voice => exact .ret _

/-- Neither does its consent's. -/
theorem carries_ensureVoiceSynthesizable (voice : Voice) :
    Only (Eff.carries S ask) (ensureVoiceSynthesizable voice) := by
  have hconsent : Only (Eff.carries S ask) (do
      if !(← await (.selectConsent voice.id)) then
        throw (.voiceNotSynthesizable "voice_no_active_consent"
          "voice has no active consent on file")) := by
    refine Only.tick trivial fun consented => ?_
    split
    · exact .raise _
    · exact .ret _
  unfold ensureVoiceSynthesizable
  split
  · exact Only.bind (.raise _) fun _ => hconsent
  · exact hconsent

/-- What is submitted is the job that is given. -/
theorem carries_submitOrUndo (tenant rid : Uuid) {job : TtsJobPayload} (detail : String)
    (h : job.Carries S ask) : Only (Eff.carries S ask) (submitOrUndo tenant rid job detail) :=
  .exceptException (.call h) fun _ => .tick trivial fun _ => .tick trivial fun _ => .raise _

/-- A session adds no job of its own. -/
theorem carries_requestSession {α : Type} {x : Py α} (hx : Only (Eff.carries S ask) x) :
    Only (Eff.carries S ask) (requestSession x) :=
  .finallyDo (.exceptException hx fun _ => .tick trivial fun _ => .raise _) trivial

/-- The preset's id stands for the model the client sent. -/
theorem carries_requestPreset {α : Type} (modelId : Option PyStr) {f : ModelPreset → Py α}
    (hf : ∀ preset, resolveModel S (.ofStr? modelId) = .ok preset →
      Only (Eff.carries S ask) (f preset)) :
    Only (Eff.carries S ask) (requestPreset S modelId >>= f) := by
  unfold requestPreset
  split
  · next preset hok => exact hf preset hok
  · exact Goes.stops trivial
  · exact Goes.stops trivial

/-- The job of an HTTP request. -/
theorem carries_requestPayload (h : Headers) (rid : Uuid) (voice : Voice) (body : TtsBody)
    (params : Option Dict) (now : Nat) {preset : ModelPreset}
    (hpreset : resolveModel S (.ofStr? body.modelId) = .ok preset) :
    (requestPayload ctx h rid voice body preset params now).Carries S
      ⟨body.modelId, body.voiceSettings, params⟩ where
  model W preset' hok := by
    rw [requestPayload, resolveModel_modelId hpreset] at hok
    cases hok
    exact hpreset
  voiceSettings := rfl
  params := rfl

/-- The jobs surface adds a job with the body's model, settings and parameters. -/
theorem carries_createTtsJob (h : Headers) (body : TtsBody) :
    Only (Eff.carries S ⟨body.modelId, body.voiceSettings, body.params⟩)
      (createTtsJob S ctx h body) := by
  refine carries_requestSession ?_
  split
  · exact Goes.stops trivial
  · refine Only.bind (.liftExn _) fun key => (carries_assertVoice _).bind fun voice => ?_
    refine (carries_ensureVoiceSynthesizable _).bind fun _ => ?_
    refine carries_requestPreset _ fun preset hpreset => ?_
    refine (only_conflictTo409 (plain_replayOrReserve _ _).carries).bind fun r => ?_
    cases r with
    | inl reply => exact .ret _
    | inr reserved =>
        refine Only.tick trivial fun _ => Only.tick trivial fun now => ?_
        exact (carries_submitOrUndo _ _ _ (carries_requestPayload _ _ _ _ _ _ hpreset)).bind
          fun _ => .ret _

/-- The sync surfaces add one with the body's model and settings. -/
theorem carries_reserveAndSubmit (h : Headers) (body : TtsBody) :
    Only (Eff.carries S ⟨body.modelId, body.voiceSettings, none⟩)
      (reserveAndSubmit S ctx h body) := by
  unfold reserveAndSubmit
  split
  · exact Goes.stops trivial
  · refine (carries_assertVoice _).bind fun voice => ?_
    refine (carries_ensureVoiceSynthesizable _).bind fun _ => ?_
    refine carries_requestPreset _ fun preset hpreset => ?_
    refine (plain_requestIdFor _).carries.bind fun rid => ?_
    refine plain_checkQueueDepthOr503.carries.bind fun _ => ?_
    refine (only_conflictTo409 (plain_reserveOrGet _ _ _ _ _).carries).bind fun r => ?_
    refine Only.tick trivial fun _ => ?_
    split
    · refine Only.tick trivial fun now => ?_
      exact (carries_submitOrUndo _ _ _ (carries_requestPayload _ _ _ _ _ _ hpreset)).bind
        fun _ => .ret _
    · exact .ret _

/-- So the sync surface does. -/
theorem carries_synthesize (h : Headers) (body : TtsBody) (fuel : Nat) :
    Only (Eff.carries S ⟨body.modelId, body.voiceSettings, none⟩)
      (synthesize S ctx h body fuel) := by
  refine carries_requestSession ((carries_reserveAndSubmit _ _).bind fun rid => ?_)
  refine (plain_collectPcmUntilFinal _ _ _).carries.outcomeOf.bind fun r => ?_
  split
  · split
    · exact .raise _
    · exact .ret _
  · exact .raise _
  · exact .raise _

/-- So the streaming surface does. -/
theorem carries_synthesizeStream (h : Headers) (body : TtsBody) (fuel : Nat) :
    Only (Eff.carries S ⟨body.modelId, body.voiceSettings, none⟩)
      (synthesizeStream S ctx h body fuel) := by
  refine carries_requestSession ((carries_reserveAndSubmit _ _).bind fun rid => ?_)
  refine (plain_consumeResultStream (fun _ _ => .ret _) _ _ _ _).carries.bind fun r => ?_
  obtain ⟨frames, raised⟩ := r
  dsimp only
  split
  · exact .ret _
  · exact .ret _
  · exact .raise _

/-- The job of a segment has its connection's model as it is. -/
theorem carries_flushSegment (slug : PyStr) (appLabel : Option PyStr) (fuel : Nat)
    (st : WsState) (text : PyStr) :
    Only (Eff.carries S ⟨st.modelId, st.voiceSettings, none⟩)
      (flushSegment S ctx slug appLabel fuel st text) := by
  have hquit : ∀ code, Plain (do sendError code; return st) := fun code =>
    (plain_sendError code).bind fun _ => .ret _
  unfold flushSegment
  split
  · exact (hquit _).carries
  · refine plain_computeBackpressureDecision.carries.bind fun decision => ?_
    cases decision with
    | some reason =>
        refine Only.bind (.exceptException ?_ fun _ => .ret _) fun _ => (hquit _).carries
        exact .tick trivial fun _ => .call trivial
    | none =>
        refine Only.tick trivial fun rid => (plain_reserveSegment _ _).carries.bind fun reserved => ?_
        split
        · exact (hquit _).carries
        · have hcarries : (segmentPayload ctx rid st slug text appLabel).Carries S
              ⟨st.modelId, st.voiceSettings, none⟩ :=
            ⟨fun W preset hok => resolveModel_settings hok, rfl, rfl⟩
          refine Only.bind (.outcomeOf (.call hcarries)) fun r => ?_
          cases r with
          | error e =>
              dsimp only
              split
              · exact (hquit _).carries
              · exact .raise _
          | ok _ =>
              refine (plain_consumeResultStream plain_forwardChunk _ _ _ _).carries.bind fun r => ?_
              split
              · exact .ret _
              · exact .ret _
              · exact (plain_sendError _).carries.bind fun _ => .ret _
              · exact .raise _

/-- **Every job that a request adds carries what was asked.** -/
theorem Submission.carries (q : Submission) {before after : List ((e : Eff) × Ans e)}
    {job : TtsJobPayload} {a : Ans (.xaddJob job)}
    (h : (q.handler S ctx).run.Emits (before ++ ⟨.xaddJob job, a⟩ :: after)) :
    job.Carries S q.ask := by
  have honly : Only (Eff.carries S q.ask) (q.handler S ctx) := by
    cases q with
    | jobs headers body => exact (carries_createTtsJob headers body).bind fun _ => .ret _
    | sync headers body fuel => exact (carries_synthesize headers body fuel).bind fun _ => .ret _
    | stream headers body fuel =>
        exact (carries_synthesizeStream headers body fuel).bind fun _ => .ret _
    | segment slug appLabel fuel st text =>
        exact (carries_flushSegment slug appLabel fuel st text).bind fun _ => .ret _
  exact honly.allows (fun _ _ => trivial) h

end gateway

/-! ## the worker -/

/-- The voice found so far. -/
def nextFound : Option Voice → (e : Eff) → Ans e → Option Voice
  | _, .selectVoice _ _, .ok found => found
  | s, _, _ => s

/-- The voice that a run's lookup has found. -/
def lookedUp (past : List ((e : Eff) × Ans e)) : Option Voice :=
  past.foldl (fun s x => nextFound s x.1 x.2) none

/-- The engine is asked for the job, with its voice's settings. -/
structure Arranged (W : Settings) (job : TtsJobPayload) (voice : Voice) (preset : ModelPreset)
    (settings : Dict) (r : SynthRequest) : Prop where
  resolved : resolveModel W job.modelId = .ok preset
  merged : mergedVoiceSettings voice job = .ok settings
  overridden : engineOverrides preset settings job = .ok ⟨r.cfgValue, r.inferenceTimesteps⟩
  viewed : r.voice = voiceViewFromDb voice

/-- Follows the lookup; the engine is asked for what it found. -/
def knobWatch (W : Settings) (job : TtsJobPayload) : Monitor Eff Ans (Option Voice) where
  possible _ _ := True
  allows
    | s, .synthesize r => ∃ voice preset settings, s = some voice ∧
        Arranged W job voice preset settings r
    | _, _ => True
  next := nextFound

section worker

variable {W : Settings} {job : TtsJobPayload} {voice : Voice}

/-- Awaits without a voice do not move the watch. -/
theorem knobWatch_voiceless (s : Option Voice) :
    ∀ e : Eff, e.voiceless → (knobWatch W job).allows s e ∧
      ∀ a, (knobWatch W job).next s e a = s := by
  intro e h
  cases e with
  | selectVoice _ _ | selectWatermarkKey _ | resolveReference _ | synthesize _ => exact h.elim
  | _ => exact ⟨trivial, fun a => rfl⟩

instance (W : Settings) (job : TtsJobPayload) : (knobWatch W job).Quiet where
  ignores {e} h s := knobWatch_voiceless s e (voiceless_of_plain e h)

/-- The text, as the watch sees it. -/
abbrev Turns {α : Type} (W : Settings) (job : TtsJobPayload) (s : Option Voice) (x : Py α)
    (Q : Option Voice → α → Prop) : Prop :=
  Goes (knobWatch W job) s x Q

/-- The watch sees the voice that is looked up. -/
theorem turns_lookupVoice (ids : JobIds) :
    Turns W job none (lookupVoice ids job) fun s r => s = r.1 := by
  refine Goes.finallyDo trivial (Goes.step trivial fun found => ?_)
  cases found with
  | none => exact (spec_pure _).2 rfl
  | some voice =>
      dsimp only
      split
      · exact Goes.step trivial fun bits => (spec_pure _).2 rfl
      · exact (spec_pure _).2 rfl

/-- It is the voice that the job goes on with. -/
theorem turns_resolveVoice (ids : JobIds) (attempt started : Nat) :
    Turns W job none (resolveVoice W job ids attempt started) fun s r => s = some r.1 := by
  refine Goes.resolveVoice (turns_lookupVoice ids) fun s voice bits hs => ?_
  subst hs
  exact Goes.only (voiceless_requireWatermark attempt started voice bits) (knobWatch_voiceless _)

/-- The reference's download does not replace it. -/
theorem turns_resolveReference (attempt started : Nat) :
    Turns W job (some voice) (resolveReference W job attempt started voice)
      fun s _ => s = some voice :=
  Goes.resolveReference trivial fun _ => rfl

/-- The engine is asked with the arranged request. -/
theorem turns_synthesizeAll {I : Inference} {r : SynthRequest} {preset : ModelPreset}
    {settings : Dict} (hr : Arranged W job voice preset settings r) :
    Turns W job (some voice) (synthesizeAll W I r) fun _ _ => True := by
  refine Goes.handler (Goes.step ⟨voice, preset, settings, rfl, hr⟩ fun run => ?_)
  refine (Goes.only (voiceless_publishAll I run.chunks {}) (knobWatch_voiceless _)).seq
    fun s st _ => ?_
  cases run.ending <;> trivial

/-- A preset is what the job's model resolves to. -/
theorem turns_resolvePreset {α : Type} (attempt started : Nat) {f : ModelPreset → Py α}
    {Q : Option Voice → α → Prop}
    (hf : ∀ preset, resolveModel W job.modelId = .ok preset → Turns W job (some voice) (f preset) Q) :
    Turns W job (some voice) (resolvePreset W job attempt started >>= f) Q := by
  unfold resolvePreset
  split
  · next preset hok => exact hf preset hok
  · exact Goes.stops (Goes.poison attempt started (by decide) _ _ _)
  · exact Goes.stops trivial

/-- What is computed goes on with its value. -/
theorem turns_liftPy {α β : Type} {s : Option Voice} {x : Except Foreign β} {f : β → Py α}
    {Q : Option Voice → α → Prop} (hf : ∀ b, x = .ok b → Turns W job s (f b) Q) :
    Turns W job s (liftPy x >>= f) Q := by
  cases x with
  | ok b => exact hf b rfl
  | error e => exact Goes.stops trivial

/-- So it is from the first look-up to the last chunk. -/
theorem turns_produce (ids : JobIds) (attempt started : Nat) :
    Turns W job none (produce W job ids attempt started) fun _ _ => True := by
  refine (turns_resolveVoice ids attempt started).seq fun s r hs => ?_
  obtain ⟨voice, bits⟩ := r
  subst hs
  refine (turns_resolveReference attempt started).seq fun s r hs => ?_
  subst hs
  refine Goes.tick trivial fun rate => Goes.tick trivial fun since => ?_
  refine turns_resolvePreset attempt started fun preset hpreset => ?_
  refine turns_liftPy fun settings hsettings => turns_liftPy fun overrides hoverrides => ?_
  have harranged : ∀ r : SynthRequest, r.voice = voiceViewFromDb voice →
      r.cfgValue = overrides.cfgValue → r.inferenceTimesteps = overrides.inferenceTimesteps →
      Arranged W job voice preset settings r := by
    rintro r hvoice hcfg hsteps
    refine ⟨hpreset, hsettings, ?_, hvoice⟩
    rw [hcfg, hsteps]
    exact hoverrides
  exact (turns_synthesizeAll (harranged _ rfl rfl rfl)).seq fun s st _ =>
    Goes.tick trivial fun now => trivial

/-- So it is in a whole job. -/
theorem turns_processOneJob (workerPickupMs : Option Nat) (attempt : Nat) :
    Turns W job none (processOneJob W job workerPickupMs attempt) fun _ _ => True := by
  refine Goes.after (.liftPy _) fun ids => ?_
  refine Goes.tick trivial fun wall => Goes.tick trivial fun started => ?_
  refine Goes.tick trivial fun _ => (turns_produce ids attempt started).seq fun s p _ => ?_
  refine (Goes.only (voiceless_archiveAudio _ _ _ _ _) (knobWatch_voiceless _)).seq
    fun s' uri _ => ?_
  refine Goes.tick trivial fun now => Goes.after (.liftPy _) fun inputs => ?_
  refine Goes.after (plain_commitSuccess _ _ _) fun _ => ?_
  exact Goes.done (Only.exceptException (plain_xaddResult rfl) fun _ => .raise _)

/-- **What the engine is asked for.** -/
theorem arranged_of_emits {workerPickupMs : Option Nat} {attempt : Nat}
    {past rest : List ((e : Eff) × Ans e)} {r : SynthRequest} {a : Ans (.synthesize r)}
    (h : (processOneJob W job workerPickupMs attempt).run.Emits (past ++ ⟨.synthesize r, a⟩ :: rest)) :
    ∃ voice preset settings, lookedUp past = some voice ∧
      Arranged W job voice preset settings r :=
  (turns_processOneJob (W := W) workerPickupMs attempt).allows (fun _ _ => trivial) h

end worker

/-! ## the values -/

/-- The override of a knob. -/
def SynthRequest.member (r : SynthRequest) : Knob → Json
  | .cfgValue => r.cfgValue
  | .inferenceTimesteps => r.inferenceTimesteps

section values

variable {S W : Settings} {E : EngineDefaults} {ask : Ask} {job : TtsJobPayload} {voice : Voice}
  {preset : ModelPreset} {settings : Dict} {r : SynthRequest} {k : Knob}

/-- The members of `e` win. -/
theorem Dict.get_merge_of_some {d e : Dict} {key : PyStr} {v : Json} (h : e.get key = some v) :
    (Dict.merge d e).get key = some v := by
  have hskip : (d.filter fun kv => (Dict.get e kv.1).isNone).find? (fun kv => kv.1 = key) = none := by
    rw [List.find?_eq_none]
    intro kv hkv heq
    have hnone := (List.mem_filter.1 hkv).2
    rw [of_decide_eq_true heq, h] at hnone
    cases hnone
  unfold Dict.get at h ⊢
  rw [Dict.merge, List.find?_append, hskip, Option.none_or, h]

/-- The engine has both overrides, and reads nothing else. -/
theorem SynthRequest.generated_eq (r : SynthRequest) : r.generated E = (do
    let cfgValue ← r.cfgValue.asFloat
    let inferenceTimesteps ← r.inferenceTimesteps.toInt
    return (cfgValue, inferenceTimesteps)) := by
  have hcfg : Dict.get r.engineOverrides (py "cfg_value") = some r.cfgValue := by
    simp [Dict.get, engineOverrides, py]
  have hsteps : Dict.get r.engineOverrides (py "inference_timesteps") =
      some r.inferenceTimesteps := by
    simp [Dict.get, engineOverrides, py]
  unfold generated engineParamsForVoice
  simp only [Dict.get_merge_of_some hcfg, Dict.get_merge_of_some hsteps, Option.getD_some]

/-- Members that can be read are what the engine hands on. -/
theorem SynthRequest.generated_of_read (h : ∀ k : Knob, ∃ x, k.read (r.member k) = .ok x) :
    ∃ g, r.generated E = .ok g ∧ ∀ k : Knob, k.read (r.member k) = .ok (k.of g) := by
  obtain ⟨x, hx⟩ := h .cfgValue
  obtain ⟨y, hy⟩ := h .inferenceTimesteps
  simp only [Knob.read, member] at hx hy
  cases hn : r.inferenceTimesteps.toInt with
  | error e => rw [hn] at hy; cases hy
  | ok n =>
      refine ⟨(x, n), ?_, fun k => ?_⟩
      · rw [generated_eq, hx, hn]
        rfl
      · cases k with
        | cfgValue => exact hx
        | inferenceTimesteps => simp only [Knob.read, member, hn]; rfl

/-- An explicit member, or the clamped value. -/
theorem explicitParam_eq (h : job.params = .ofDict? ask.params) (key : String) (clamped : Json) :
    explicitParam job key clamped =
      .ok ((ask.params.bind fun d => d.getSome key).getD clamped) := by
  unfold explicitParam
  rw [h]
  cases hparams : ask.params with
  | none => rfl
  | some d =>
      cases d with
      | nil => rfl
      | cons kv kvs =>
          simp only [Json.ofDict?, Json.truthy, Json.dictGet, List.isEmpty_cons, Bool.not_false,
            if_true, Option.bind_some, Dict.getSome]
          cases Dict.get (kv :: kvs) (py key) with
          | none => rfl
          | some v => cases v <;> rfl

/-- A knob the client does not set comes from the preset. -/
theorem shifted_of_overridden (hparams : job.params = .ofDict? ask.params)
    (h : engineOverrides preset settings job = .ok ⟨r.cfgValue, r.inferenceTimesteps⟩) :
    (∀ v, ask.param k = some v → r.member k = v) ∧
      (ask.param k = none → ∃ x, k.shifted preset settings = .ok x ∧
        k.read (r.member k) = .ok x) := by
  unfold engineOverrides at h
  simp only [explicitParam_eq hparams] at h
  cases hcfg : boostedCfg preset settings with
  | error e => rw [hcfg] at h; cases h
  | ok cfg =>
      cases hsteps : stabilisedSteps preset settings with
      | error e => rw [hcfg, hsteps] at h; cases h
      | ok steps =>
          rw [hcfg, hsteps] at h
          obtain ⟨hc, hs⟩ := EngineOverrides.mk.inj (Except.ok.inj h)
          cases k with
          | cfgValue =>
              refine ⟨fun v hv => hc.symm.trans (congrArg (Option.getD · _) hv), fun hnone => ?_⟩
              refine ⟨_, by simp only [Knob.shifted, hcfg]; rfl, ?_⟩
              rw [SynthRequest.member, ← hc]
              exact congrArg (fun o => Json.asFloat (Option.getD o _)) hnone
          | inferenceTimesteps =>
              refine ⟨fun v hv => hs.symm.trans (congrArg (Option.getD · _) hv), fun hnone => ?_⟩
              refine ⟨_, by simp only [Knob.shifted, hsteps]; rfl, ?_⟩
              rw [SynthRequest.member, ← hs]
              exact congrArg (fun o => Knob.read (Option.getD o _) .inferenceTimesteps) hnone

/-- The settings of the job are the request's over the catalog's. -/
theorem eq_settings (hsent : job.voiceSettings = .ofDict? ask.voiceSettings)
    (h : mergedVoiceSettings voice job = .ok settings) : settings = ask.settings voice := by
  have hempty : job.voiceSettings.orEmpty = .ok (ask.voiceSettings.getD []) := by
    rw [hsent]
    cases ask.voiceSettings with
    | none => rfl
    | some d => cases d <;> rfl
  unfold mergedVoiceSettings at h
  rw [hempty] at h
  exact (Except.ok.inj h).symm

/-- The presets are in the envelope. -/
theorem presets_inside : ∀ preset ∈ presets, 1 ≤ preset.cfgValue ∧ preset.cfgValue ≤ 7 / 2 ∧
    4 ≤ preset.inferenceTimesteps ∧ preset.inferenceTimesteps ≤ 40 := by decide +kernel

/-- What a name resolves to is one of the presets. -/
theorem mem_presets_of_resolved {m : Json} (h : resolveModel S m = .ok preset) :
    preset ∈ presets := by
  unfold resolveModel at h
  split at h
  · cases h
    exact List.mem_cons_of_mem _ List.mem_cons_self
  · cases m with
    | str s =>
        dsimp only at h
        cases hfind : presets.find? fun p => p.modelId = s with
        | none => rw [hfind] at h; cases h
        | some p =>
            rw [hfind] at h
            cases h
            exact List.mem_of_find?_eq_some hfind
    | _ => cases h

/-- A preset nobody shifts keeps its value. -/
theorem shifted_untouched (hpreset : preset ∈ presets) (h : settings.getSome k.setting = none) :
    k.shifted preset settings = .ok (k.ofPreset preset) := by
  obtain ⟨hlow, hhigh, hfew, hmany⟩ := presets_inside preset hpreset
  cases k with
  | cfgValue =>
      have hcfg : boostedCfg preset settings = .ok (.fin preset.cfgValue) := by
        unfold boostedCfg
        rw [show settings.getSome "similarity_boost" = none from h]
      have hclamp : (PyFloat.fin preset.cfgValue).clamp 1 (7 / 2) = preset.cfgValue := by
        rw [PyFloat.clamp, min_eq_right hhigh, max_eq_right hlow]
      simp only [Knob.shifted, hcfg, Knob.ofPreset, bind, Except.bind, hclamp]
      rfl
  | inferenceTimesteps =>
      have hsteps : stabilisedSteps preset settings = .ok preset.inferenceTimesteps := by
        unfold stabilisedSteps
        rw [show settings.getSome "stability" = none from h]
      simp only [Knob.shifted, hsteps, Knob.ofPreset, bind, Except.bind, min_eq_right hmany,
        max_eq_right hfew]
      rfl

/-- A preset that is shifted is moved by the worker's offset. -/
theorem shifted_touched {v : Json} (h : settings.getSome k.setting = some v) :
    k.shifted preset settings = (do k.moved preset (k.offset (← v.floatOperand))) := by
  cases k with
  | cfgValue =>
      simp only [Knob.shifted, boostedCfg, show settings.getSome "similarity_boost" = some v from h]
      cases v.floatOperand <;> rfl
  | inferenceTimesteps =>
      simp only [Knob.shifted, stabilisedSteps, show settings.getSome "stability" = some v from h]
      cases v.floatOperand <;> rfl

/-- At the three documented settings it is seen from the preset who agrees. -/
theorem Offsets.agrees_iff (D : Offsets) (hpreset : preset ∈ presets) (v : PyFloat) :
    D.Agrees preset v k ↔ k.moved preset (D.of k v) = k.moved preset (k.offset v) := by
  have hdocumented : ∀ p ∈ presets,
      (k.moved p (.ofRat k.lowest) = k.moved p (k.offset (.fin 0)) ↔
        k = .inferenceTimesteps ∧ p.inferenceTimesteps ≤ 8) ∧
      k.moved p (.fin 0) = k.moved p (k.offset (.fin (1 / 2))) ∧
      k.moved p (.ofRat k.highest) = k.moved p (k.offset (.fin 1)) := by
    cases k <;> decide +kernel
  obtain ⟨hlow, hhalf, hhigh⟩ := hdocumented preset hpreset
  unfold Offsets.Agrees
  split
  · next hv => rw [hv, D.low, hlow]
  · split
    · next hv =>
        refine iff_of_true trivial ?_
        obtain rfl | rfl := hv
        · rw [D.half, hhalf]
        · rw [D.high, hhigh]
    · rfl

/-- What the client names is what its model resolves to. -/
theorem named_of_resolved (h : resolveModel S (.ofStr? ask.modelId) = .ok preset) :
    ask.named S = some preset ∨ ask.named S = none ∧ preset = defaultModel := by
  unfold Ask.named
  cases hmodel : ask.modelId with
  | none =>
      rw [hmodel] at h
      exact .inr ⟨rfl, (Except.ok.inj h).symm⟩
  | some s =>
      rw [hmodel] at h
      cases s with
      | nil => exact .inr ⟨rfl, (Except.ok.inj h).symm⟩
      | cons c cs =>
          refine .inl ?_
          have hresolve : resolveModel S (.str (c :: cs)) = .ok preset := h
          simp only [Option.filter, List.isEmpty_cons, Bool.not_false, if_true, Option.bind_some,
            hresolve]
          rfl

/-- A value that `params` may set can be read. -/
theorem Ask.Valid.read (hvalid : ask.Valid) {v : Json} (h : ask.param k = some v) :
    ∃ x, k.read v = .ok x := by
  obtain ⟨d, hd, hv⟩ := Option.bind_eq_some_iff.1 h
  cases k with
  | cfgValue =>
      obtain ⟨q, rfl, -⟩ := hvalid.cfgValue d v hd hv
      exact ⟨.fin q, rfl⟩
  | inferenceTimesteps =>
      obtain ⟨n, rfl, -⟩ := hvalid.inferenceTimesteps d v hd hv
      exact ⟨.fin n, rfl⟩

/-- What comes out is what is documented, or not. -/
theorem documented_iff {D : Offsets} {d x : PyFloat}
    (hset : ∀ v, ask.param k = some v → k.read v = .ok x)
    (hunset : ask.param k = none → k.shifted preset (ask.settings voice) = .ok x)
    (hpreset : resolveModel S (.ofStr? ask.modelId) = .ok preset) :
    ask.Documented D S voice d k x ↔ ask.Unshadowed D S voice d k := by
  unfold Ask.Documented Ask.Unshadowed
  cases hparam : ask.param k with
  | some v => exact iff_of_true (hset v hparam) trivial
  | none =>
      have hx := hunset hparam
      have hmem := mem_presets_of_resolved hpreset
      cases htouch : (ask.settings voice).getSome k.setting with
      | some v =>
          rw [shifted_touched htouch] at hx
          cases hv : v.floatOperand with
          | error e => rw [hv] at hx; cases hx
          | ok y =>
              rw [hv] at hx
              have hmoved : k.moved preset (k.offset y) = .ok x := hx
              obtain hnamed | ⟨hnamed, rfl⟩ := named_of_resolved hpreset
              · rw [hnamed]
                constructor
                · rintro ⟨y', hy', hdoc⟩ z hz
                  obtain rfl : y' = y := Except.ok.inj (hy'.symm.trans hv)
                  obtain rfl : z = y' := Except.ok.inj (hz.symm.trans hv)
                  exact (D.agrees_iff hmem z).2 (hdoc.trans hmoved.symm)
                · exact fun h => ⟨y, hv, ((D.agrees_iff hmem y).1 (h y hv)).trans hmoved⟩
              · rw [hnamed]
                constructor
                · rintro rfl z hz
                  obtain rfl : z = y := Except.ok.inj (hz.symm.trans hv)
                  exact hmoved
                · exact fun h => Except.ok.inj (hmoved.symm.trans (h y hv))
      | none =>
          rw [shifted_untouched hmem htouch] at hx
          obtain rfl := Except.ok.inj hx
          obtain hnamed | ⟨hnamed, rfl⟩ := named_of_resolved hpreset
          · rw [hnamed]
            exact iff_of_true rfl trivial
          · rw [hnamed]
            cases voice.engineParams.get (py k.key) with
            | some v => exact Iff.rfl
            | none => exact eq_comm

end values

/-- **The order of the knobs.**  What `model.generate` is handed for a request
of the gateway, and when it is what the documentation says. -/
theorem knob_precedence (D : Offsets) (S : Settings) (ctx : AuthContext) (q : Submission)
    (before after : List ((e : Eff) × Ans e)) (job job' : TtsJobPayload) (b : Ans (.xaddJob job))
    (W : Settings) (E : EngineDefaults) (workerPickupMs : Option Nat) (attempt : Nat)
    (past rest : List ((e : Eff) × Ans e)) (r : SynthRequest) (a : Ans (.synthesize r))
    (hvalid : q.ask.Valid)
    (hgateway : (q.handler S ctx).run.Emits (before ++ ⟨.xaddJob job, b⟩ :: after))
    (hdecode : TtsJobPayload.decode job.encode = .ok job')
    (hworker : (processOneJob W job' workerPickupMs attempt).run.Emits
      (past ++ ⟨.synthesize r, a⟩ :: rest)) :
    ∃ voice g, lookedUp past = some voice ∧ r.generated E = .ok g ∧
      ∀ k d, q.ask.Documented D S voice d k (k.of g) ↔ q.ask.Unshadowed D S voice d k := by
  rw [TtsJobPayload.decode_encode] at hdecode
  cases hdecode
  have hcarries := q.carries hgateway
  obtain ⟨voice, preset, settings, hfound, hprep⟩ := arranged_of_emits hworker
  have hsettings := eq_settings hcarries.voiceSettings hprep.merged
  subst hsettings
  have hmember := fun k : Knob => shifted_of_overridden (k := k) hcarries.params hprep.overridden
  have hread : ∀ k : Knob, ∃ x, k.read (r.member k) = .ok x := by
    intro k
    cases hparam : q.ask.param k with
    | some v =>
        rw [(hmember k).1 v hparam]
        exact hvalid.read hparam
    | none =>
        obtain ⟨x, -, hx⟩ := (hmember k).2 hparam
        exact ⟨x, hx⟩
  obtain ⟨g, hg, hof⟩ := SynthRequest.generated_of_read (E := E) hread
  refine ⟨voice, g, hfound, hg, fun k d => ?_⟩
  refine documented_iff (fun v hv => ?_) (fun hnone => ?_) (hcarries.model W preset hprep.resolved)
  · rw [← (hmember k).1 v hv]
    exact hof k
  · obtain ⟨x, hshift, hx⟩ := (hmember k).2 hnone
    rw [hof k] at hx
    rwa [Except.ok.inj hx]

/-! ## a voice with its own guidance -/

/-- What a value moves a knob by along two straight lines, which meet at the middle. -/
def straightOffset (k : Knob) : PyFloat → PyFloat
  | .fin q => .ofRat (if q ≤ 1 / 2 then (1 - 2 * q) * k.lowest else (2 * q - 1) * k.highest)
  | v => v

/-- At the lowest value the line is at the documented lowest offset. -/
theorem straightOffset_low (k : Knob) : straightOffset k (.fin 0) = .ofRat k.lowest := by
  simp [straightOffset]

/-- In the middle the lines meet at zero. -/
theorem straightOffset_half (k : Knob) : straightOffset k (.fin (1 / 2)) = .fin 0 := by
  cases k <;> decide +kernel

/-- At the highest value the line is at the documented highest offset. -/
theorem straightOffset_high (k : Knob) : straightOffset k (.fin 1) = .ofRat k.highest := by
  cases k <;> decide +kernel

/-- The documented offsets with straight lines between them. -/
def straight : Offsets where
  of := straightOffset
  low := straightOffset_low
  half := straightOffset_half
  high := straightOffset_high

/-- An await and what it is answered. -/
abbrev Answered : Type := (e : Eff) × Ans e

/-- Every lookup finds the voice, and the rest works. -/
def answersFor (voice : Voice) : (e : Eff) → Ans e
  | .selectVoice _ _ => .ok (some voice)
  | .selectConsent _ => .ok true
  | e =>
      match exec 0 e (.goes { uuid := 9 }) blank with
      | some (a, _) => a
      | none => .error (.foreign .baseException)

/-- The job it adds. -/
def addedJob : Answered → Option TtsJobPayload
  | ⟨.xaddJob job, _⟩ => some job
  | _ => none

/-- The synthesis it asks for. -/
def askedFor : Answered → Option SynthRequest
  | ⟨.synthesize r, _⟩ => some r
  | _ => none

/-- An await that adds a job is an `XADD`. -/
theorem exists_xaddJob {x : Answered} {job : TtsJobPayload} (h : addedJob x = some job) :
    ∃ a, x = ⟨.xaddJob job, a⟩ := by
  unfold addedJob at h
  split at h
  · next job' a => exact Option.some.inj h ▸ ⟨a, rfl⟩
  · cases h

/-- An await that asks for a synthesis is the engine's. -/
theorem exists_synthesize {x : Answered} {r : SynthRequest} (h : askedFor x = some r) :
    ∃ a, x = ⟨.synthesize r, a⟩ := by
  unfold askedFor at h
  split at h
  · next r' a => exact Option.some.inj h ▸ ⟨a, rfl⟩
  · cases h

/-- A voice enrolled with a guidance of 3. -/
def guidedVoice : Voice := { ayse with engineParams := [(py "cfg_value", .float (.fin 3))] }

/-- A request for it that leaves the knobs alone. -/
def plainRequest : Submission :=
  .jobs { idempotencyKey := some (uuidStr 9) } { text := py "Merhaba.", voiceId := py "ayse" }

/-- The gateway's awaits. -/
def guidedAdmission : List Answered :=
  (plainRequest.handler plain ⟨2, 5⟩).run.history (answersFor guidedVoice) 12

/-- The job it adds. -/
def guidedJob : TtsJobPayload := (guidedAdmission[10]?.bind addedJob).get (by decide +kernel)

/-- The worker's awaits. -/
def guidedDelivery : List Answered :=
  (processOneJob plain guidedJob none 1).run.history (answersFor guidedVoice) 21

/-- What the engine is asked for. -/
def guidedSynthesis : SynthRequest := (guidedDelivery[10]?.bind askedFor).get (by decide +kernel)

/-- A list that is split at a position. -/
theorem eq_take_cons_drop {α : Type} {l : List α} {n : Nat} {x : α} (h : l[n]? = some x) :
    l = l.take n ++ x :: l.drop (n + 1) := by
  obtain ⟨hlt, rfl⟩ := List.getElem?_eq_some_iff.1 h
  rw [← List.drop_eq_getElem_cons hlt, List.take_append_drop]

/-- The gateway's eleventh await adds the job. -/
theorem guidedAdmission_split : ∃ b, guidedAdmission =
    guidedAdmission.take 10 ++ ⟨.xaddJob guidedJob, b⟩ :: guidedAdmission.drop 11 := by
  have hget : (guidedAdmission[10]?.bind addedJob) = some guidedJob := (Option.some_get _).symm
  obtain ⟨x, hx, hjob⟩ := Option.bind_eq_some_iff.1 hget
  obtain ⟨b, rfl⟩ := exists_xaddJob hjob
  exact ⟨b, eq_take_cons_drop hx⟩

/-- The worker's eleventh await asks for the synthesis. -/
theorem guidedDelivery_split : ∃ a, guidedDelivery =
    guidedDelivery.take 10 ++ ⟨.synthesize guidedSynthesis, a⟩ :: guidedDelivery.drop 11 := by
  have hget : (guidedDelivery[10]?.bind askedFor) = some guidedSynthesis :=
    (Option.some_get _).symm
  obtain ⟨x, hx, hr⟩ := Option.bind_eq_some_iff.1 hget
  obtain ⟨a, rfl⟩ := exists_synthesize hr
  exact ⟨a, eq_take_cons_drop hx⟩

/-- The gateway's run. -/
theorem guidedAdmission_emits : ∃ b, (plainRequest.handler plain ⟨2, 5⟩).run.Emits
    (guidedAdmission.take 10 ++ ⟨.xaddJob guidedJob, b⟩ :: guidedAdmission.drop 11) := by
  obtain ⟨b, hsplit⟩ := guidedAdmission_split
  exact ⟨b, hsplit ▸ Prog.emits_history _ _ _⟩

/-- The worker's run. -/
theorem guidedDelivery_emits : ∃ a, (processOneJob plain guidedJob none 1).run.Emits
    (guidedDelivery.take 10 ++ ⟨.synthesize guidedSynthesis, a⟩ :: guidedDelivery.drop 11) := by
  obtain ⟨a, hsplit⟩ := guidedDelivery_split
  exact ⟨a, hsplit ▸ Prog.emits_history _ _ _⟩

/-- A request without parameters is valid. -/
theorem plainRequest_valid : plainRequest.ask.Valid where
  cfgValue d v hd := by cases hd
  inferenceTimesteps d v hd := by cases hd

/-- The request for the guided voice. -/
theorem knob_precedence_guided : ∃ voice g,
    lookedUp (guidedDelivery.take 10) = some voice ∧ guidedSynthesis.generated {} = .ok g ∧
      ∀ k d, plainRequest.ask.Documented straight plain voice d k (k.of g) ↔
        plainRequest.ask.Unshadowed straight plain voice d k := by
  obtain ⟨b, hgateway⟩ := guidedAdmission_emits
  obtain ⟨a, hworker⟩ := guidedDelivery_emits
  exact knob_precedence straight plain ⟨2, 5⟩ plainRequest _ _ guidedJob guidedJob b plain {}
    none 1 _ _ guidedSynthesis a plainRequest_valid hgateway (TtsJobPayload.decode_encode _) hworker

/-- The voice has a guidance, and nobody touches it. -/
def Voice.guides (q : Rat) (v : Voice) : Bool :=
  match v.engineParams.get (py "cfg_value"), v.voiceSettingsDefaults with
  | some (.float (.fin p)), none => p == q
  | _, _ => false

/-- The guidance that is handed on. -/
def guidanceIs (q : Rat) : Except Foreign (PyFloat × Int) → Bool
  | .ok (.fin p, _) => p == q
  | _ => false

/-- The voice's guidance does not reach the model. -/
theorem engine_params_shadowed :
    ¬∀ (S : Settings) (ctx : AuthContext) (q : Submission) (before after : List Answered)
      (job job' : TtsJobPayload) (b : Ans (.xaddJob job)) (W : Settings) (E : EngineDefaults)
      (workerPickupMs : Option Nat) (attempt : Nat) (past rest : List Answered)
      (r : SynthRequest) (a : Ans (.synthesize r)), q.ask.Valid →
      (q.handler S ctx).run.Emits (before ++ ⟨.xaddJob job, b⟩ :: after) →
      TtsJobPayload.decode job.encode = .ok job' →
      (processOneJob W job' workerPickupMs attempt).run.Emits
        (past ++ ⟨.synthesize r, a⟩ :: rest) →
      ∃ voice g, lookedUp past = some voice ∧ r.generated E = .ok g ∧
        ∀ k, ∃ D d, q.ask.Documented D S voice d k (k.of g) := by
  intro h
  obtain ⟨b, hgateway⟩ := guidedAdmission_emits
  obtain ⟨a, hworker⟩ := guidedDelivery_emits
  obtain ⟨voice, g, hvoice, hg, hdoc⟩ := h plain ⟨2, 5⟩ plainRequest _ _ guidedJob guidedJob b
    plain {} none 1 _ _ guidedSynthesis a plainRequest_valid hgateway
    (TtsJobPayload.decode_encode _) hworker
  have hguides : (lookedUp (guidedDelivery.take 10)).all (Voice.guides 3) = true := by
    decide +kernel
  have hhanded : guidanceIs 2 (guidedSynthesis.generated {}) = true := by
    decide +kernel
  rw [hvoice, Option.all_some] at hguides
  rw [hg] at hhanded
  obtain ⟨D, d, hcfg⟩ := hdoc .cfgValue
  unfold Voice.guides at hguides
  split at hguides
  · next p hparam hdefaults =>
      have htouch : (plainRequest.ask.settings voice).getSome "similarity_boost" = none := by
        unfold Ask.settings
        rw [hdefaults]
        rfl
      have hread : Knob.read (.float (.fin p)) .cfgValue = .ok (Knob.of g .cfgValue) := by
        simpa only [Ask.Documented, show plainRequest.ask.param .cfgValue = none from rfl,
          show plainRequest.ask.named plain = none from rfl, Knob.setting, Knob.key, htouch,
          hparam] using hcfg
      obtain ⟨x, n⟩ := g
      cases hread
      rw [guidanceIs, eq_of_beq hguides] at hhanded
      exact absurd hhanded (by decide)
  · cases hguides

end NeuroVoice
