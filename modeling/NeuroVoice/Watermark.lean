import NeuroVoice.Quiet
import NeuroVoice.Run

/-!
# NeuroVoice.Watermark

`audio/watermark.py` and `repos/watermark.py` as `process_one_job` uses
them.

The applier is one object of the worker process.  Once its model is loaded it
stays loaded, so the probe before the inference decides for the whole job:
`watermark_coverage`.
-/

namespace NeuroVoice

/-! ## the applier -/

/-- The third-party part: `audioseal` and the tensor code around
`get_watermark`. -/
structure AudioSeal where
  Model : Type
  /-- What the clip, its sample rate and the bits can become; or it raises. -/
  embeds : Model → Pcm → Nat → Nat → Except Foreign Pcm → Prop

/-- How importing `audioseal` and loading its generator ends. -/
inductive LoadOutcome (M : Type) where
  | notInstalled
  /-- An `Exception` while the generator is loaded. -/
  | failed (text : String)
  /-- Anything else: it leaves `_load`. -/
  | raises (x : Foreign)
  | loaded (model : M)

/-- `WatermarkApplier`: `_model` and `_import_error`. -/
structure WatermarkApplier (M : Type) where
  model : Option M := none
  importError : Option String := none

namespace WatermarkApplier

variable {M : Type}

/-- `is_available`. -/
def isAvailable (w : WatermarkApplier M) : Bool := w.importError.isNone

/-- `_load`. -/
def load (w : WatermarkApplier M) (o : LoadOutcome M) :
    Except Foreign (Option M) × WatermarkApplier M :=
  match w.model with
  | some m => (.ok (some m), w)
  | none =>
      if w.importError.isSome then (.ok none, w)
      else match o with
        | .notInstalled =>
            (.ok none, { w with
              importError :=
                some "audioseal package not installed; pip install neurovoice[watermark]" })
        | .failed text =>
            (.ok none, { w with importError := some ("AudioSeal load failed: " ++ text) })
        | .raises x => (.error x, w)
        | .loaded m => (.ok (some m), { w with model := some m })

/-- `watermark_pcm`, with what the tensor code makes of the clip for a
model. -/
def watermarkPcm (w : WatermarkApplier M) (o : LoadOutcome M) (marked : M → Except Foreign Pcm)
    (pcm : Pcm) (bits : Nat) : Except Foreign Pcm × WatermarkApplier M :=
  if 0xFFFF < bits then
    (.error (.valueError ("message_bits must be 0..65535; got " ++ toString bits)), w)
  else
    match w.load o with
    | (.error x, w) => (.error x, w)
    | (.ok none, w) => (.ok pcm, w)
    | (.ok (some m), w) => (marked m, w)

/-- A loaded model stays. -/
theorem load_of_loaded {w : WatermarkApplier M} {m : M} (h : w.model = some m)
    (o : LoadOutcome M) : w.load o = (.ok (some m), w) := by
  simp [load, h]

/-- With a loaded model the clip is marked, or the call raises. -/
theorem watermarkPcm_of_loaded {w : WatermarkApplier M} {m : M} (h : w.model = some m)
    (o : LoadOutcome M) (marked : M → Except Foreign Pcm) (pcm : Pcm) (bits : Nat) :
    (w.watermarkPcm o marked pcm bits).2 = w ∧
      ∀ out, (w.watermarkPcm o marked pcm bits).1 = .ok out → marked m = .ok out := by
  unfold watermarkPcm
  split
  · exact ⟨rfl, fun out hout => by cases hout⟩
  · rw [load_of_loaded h]
    exact ⟨rfl, fun out hout => hout⟩

/-- What other users of the process's applier can make of it. -/
inductive Elsewhere : WatermarkApplier M → WatermarkApplier M → Prop where
  | refl (w : WatermarkApplier M) : Elsewhere w w
  | load {w w' : WatermarkApplier M} (o : LoadOutcome M) (h : Elsewhere w w') :
      Elsewhere w (w'.load o).2

/-- An applier whose model is loaded and which is available. -/
structure Ready (w : WatermarkApplier M) : Prop where
  loaded : w.model.isSome
  available : w.isAvailable = true

/-- A loaded model stays loaded, whatever others do with the applier. -/
theorem Ready.elsewhere {w w' : WatermarkApplier M} (h : w.Ready) (he : Elsewhere w w') :
    w'.Ready := by
  induction he with
  | refl => exact h
  | load o _ ih =>
      obtain ⟨m, hm⟩ := Option.isSome_iff_exists.1 ih.loaded
      rw [load_of_loaded hm]
      exact ih

/-- Only one of `_model` and `_import_error` is ever set. -/
def Consistent (w : WatermarkApplier M) : Prop := w.model = none ∨ w.importError = none

/-- Every outcome of a load leaves the applier consistent. -/
theorem Consistent.load {w : WatermarkApplier M} (h : w.Consistent) (o : LoadOutcome M) :
    (w.load o).2.Consistent := by
  unfold WatermarkApplier.load
  split
  · exact h
  · next hm =>
      split
      · exact h
      · next he =>
          cases o with
          | loaded m => exact .inr (by simpa using he)
          | _ => exact .inl hm

/-- So does what others do with it. -/
theorem Consistent.elsewhere {w w' : WatermarkApplier M} (h : w.Consistent)
    (he : Elsewhere w w') : w'.Consistent := by
  induction he with
  | refl => exact h
  | load o _ ih => exact ih.load o

/-- A probe that finds a model leaves the applier ready. -/
theorem ready_of_load {w : WatermarkApplier M} {o : LoadOutcome M} {m : M} (h : w.Consistent)
    (hload : (w.load o).1 = .ok (some m)) : (w.load o).2.Ready := by
  have hc := h.load o
  have hm : (w.load o).2.model = some m := by
    unfold WatermarkApplier.load at hload ⊢
    split at hload
    · next hm => cases hload; simpa using hm
    · split at hload
      · cases hload
      · cases o <;> cases hload
        simp_all
  refine ⟨by simp [hm], ?_⟩
  obtain hnone | hnone := hc
  · rw [hm] at hnone; cases hnone
  · simp [isAvailable, hnone]

end WatermarkApplier

/-! ## keys -/

/-- A `watermark_keys` row. -/
structure WatermarkKey where
  id : Uuid
  messageBits : Nat
  retiredAt : Option Nat := none

/-- `get_active`. -/
def WatermarkKeyRepo.getActive (keys : List WatermarkKey) (id : Uuid) : Option WatermarkKey :=
  keys.find? fun k => k.id == id && k.retiredAt.isNone

/-! ## runs of one job -/

/-- One await of a job: what the applier was before and after it, the keys
at the moment, and the answer. -/
structure JobTurn (A : AudioSeal) where
  before : WatermarkApplier A.Model
  after : WatermarkApplier A.Model
  keys : List WatermarkKey
  eff : Eff
  ans : Ans eff

/-- The await and its answer. -/
def JobTurn.answered {A : AudioSeal} (t : JobTurn A) : (e : Eff) × Ans e := ⟨t.eff, t.ans⟩

/-- Who answers: the applier, the key table, and anybody for the rest.  An
await that runs in a thread can be cancelled, and the thread goes on. -/
def Serves (A : AudioSeal) (keys : List WatermarkKey) (w w' : WatermarkApplier A.Model) :
    (e : Eff) → Ans e → Prop
  | .loadApplier, a =>
      ∃ o, w' = (w.load o).2 ∧
        a = ((w.load o).1.map Option.isSome).mapError .foreign
  | .applierAvailable, a => w' = w ∧ a = .ok w.isAvailable
  | .watermarkPcm pcm rate bits, a =>
      ∃ o marked, (∀ m, A.embeds m pcm rate bits (marked m)) ∧
        w' = (w.watermarkPcm o marked pcm bits).2 ∧
        (a = (w.watermarkPcm o marked pcm bits).1.mapError .foreign ∨ ∃ x, a = .error x)
  | .selectWatermarkKey key, a =>
      w' = w ∧ (a = .ok ((WatermarkKeyRepo.getActive keys key).map WatermarkKey.messageBits) ∨
        ∃ x, a = .error x)
  | _, _ => w' = w

/-- JobTurn after turn, with others at the applier between them. -/
def ServedRun (A : AudioSeal) : WatermarkApplier A.Model → List (JobTurn A) → Prop
  | _, [] => True
  | w, t :: ts =>
      WatermarkApplier.Elsewhere w t.before ∧ Serves A t.keys t.before t.after t.eff t.ans ∧
        ServedRun A t.after ts

/-! ## the law -/

section law

variable {A : AudioSeal}

/-- The job's voice. -/
def Resolved (ts : List (JobTurn A)) (voice : Voice) : Prop :=
  ∃ t ∈ ts, ∃ tenant voiceId, t.answered = ⟨.selectVoice tenant voiceId, .ok (some voice)⟩

/-- The bits of the voice's key, which was active when it was looked up. -/
def ActiveKey (ts : List (JobTurn A)) (voice : Voice) (bits : Nat) : Prop :=
  ∃ t ∈ ts, ∃ key, voice.watermarkKeyId = some key ∧
    t.answered = ⟨.selectWatermarkKey key, .ok (some bits)⟩ ∧
    ∃ k ∈ t.keys, k.id = key ∧ k.retiredAt = none ∧ k.messageBits = bits

/-- The probe found a model. -/
def Probed (ts : List (JobTurn A)) : Prop :=
  ∃ t ∈ ts, t.answered = ⟨.loadApplier, .ok true⟩ ∧ t.after.model.isSome

/-- The clip is what `watermark_pcm` returned for the bits, with a loaded
model. -/
def Marked (ts : List (JobTurn A)) (bits : Nat) (out : Pcm) : Prop :=
  ∃ t ∈ ts, ∃ pcm rate m, t.answered = ⟨.watermarkPcm pcm rate bits, .ok out⟩ ∧
    t.after.model = some m ∧ A.embeds m pcm rate bits (.ok out)

/-- What holds of the run of a job whose voice has to be watermarked. -/
structure Covered (ts : List (JobTurn A)) (voice : Voice) : Prop where
  /-- A published chunk of audio is a marked one. -/
  chunk : ∀ past t rest r a, ts = past ++ t :: rest → t.answered = ⟨.xaddResult r, a⟩ →
    r.isAudio = true → ∃ bits, ActiveKey past voice bits ∧ Probed past ∧ Marked past bits r.pcmBytes
  /-- The archived audio consists of marked chunks. -/
  archive : ∀ past t rest rid pcm rate a, ts = past ++ t :: rest →
    t.answered = ⟨.archive rid pcm rate, a⟩ →
    ∃ bits, ∃ outs : List Pcm, ActiveKey past voice bits ∧ pcm = outs.flatten ∧
      ∀ out ∈ outs, Marked past bits out
  /-- Without an active key or a model no audio is published. -/
  refused : (∀ bits, ¬ActiveKey ts voice bits) ∨ ¬Probed ts →
    ∀ t ∈ ts, ∀ r a, t.answered = ⟨.xaddResult r, a⟩ → r.isAudio = false
  /-- A chunk that cannot be marked is the end of the audio. -/
  stopped : ∀ past t rest pcm rate bits x, ts = past ++ t :: rest →
    t.answered = ⟨.watermarkPcm pcm rate bits, .error x⟩ →
    ∀ u ∈ rest, (∀ r a, u.answered = ⟨.xaddResult r, a⟩ → r.isAudio = false) ∧
      ∀ rid pcm rate a, u.answered ≠ ⟨.archive rid pcm rate, a⟩

end law

/-! ## the phases of a job -/

/-- What the job has achieved of the watermark. -/
inductive Phase where
  /-- The voice is not resolved. -/
  | start
  /-- The voice has to be watermarked; its key's bits, if it has an active
  one. -/
  | bound (voice : Voice) (bits : Option Nat)
  /-- The probe succeeded, and these chunks are published. -/
  | armed (voice : Voice) (bits : Nat) (done : List Pcm)
  /-- A chunk is marked and not yet published. -/
  | marked (voice : Voice) (bits : Nat) (done : List Pcm) (out : Pcm)
  | failed
  /-- The voice does not have to be watermarked. -/
  | exempt
  /-- The applier has answered as it never does. -/
  | impossible

namespace Phase

/-- The voice is there. -/
def resolved (voice : Voice) : Phase → Phase
  | .start => if watermarkRequired voice then .bound voice none else .exempt
  | s => s

/-- An active key is there. -/
def keyed (key : Uuid) (bits : Nat) : Phase → Phase
  | .bound voice old => if voice.watermarkKeyId = some key then .bound voice (some bits)
      else .bound voice old
  | s => s

/-- The probe succeeded. -/
def probed : Phase → Phase
  | .bound voice (some bits) => .armed voice bits []
  | s => s

/-- The applier says it is not available. -/
def unavailable : Phase → Phase
  | .armed _ _ _ => .impossible
  | s => s

/-- A clip came back from the applier. -/
def returned (bits : Nat) (out : Pcm) : Phase → Phase
  | .armed voice own done => if bits = own then .marked voice own done out
      else .armed voice own done
  | s => s

/-- A chunk of audio is published. -/
def published : Phase → Phase
  | .marked voice bits done out => .armed voice bits (done ++ [out])
  | s => s

/-- The applier, or the publication of audio, raised. -/
def broken : Phase → Phase
  | .armed _ _ _ | .marked _ _ _ _ => .failed
  | s => s

/-- The phase after an await. -/
def next (s : Phase) : (e : Eff) → Ans e → Phase
  | .selectVoice _ _, .ok (some voice) => s.resolved voice
  | .selectWatermarkKey key, .ok (some bits) => s.keyed key bits
  | .loadApplier, .ok true => s.probed
  | .applierAvailable, .ok false => s.unavailable
  | .watermarkPcm _ _ bits, .ok out => s.returned bits out
  | .watermarkPcm _ _ _, .error _ => s.broken
  | .xaddResult r, .ok _ => if r.isAudio then s.published else s
  | .xaddResult r, .error _ => if r.isAudio then s.broken else s
  | _, _ => s

/-- Audio that can be published now. -/
def mayPublish (pcm : Pcm) : Phase → Prop
  | .exempt | .impossible => True
  | .marked _ _ _ out => pcm = out
  | _ => False

/-- Audio that can be archived now. -/
def mayArchive (pcm : Pcm) : Phase → Prop
  | .exempt | .impossible => True
  | .armed _ _ done => pcm = done.flatten
  | _ => False

/-- The applier can be called now. -/
def mayMark : Phase → Prop
  | .exempt | .impossible | .armed _ _ _ => True
  | _ => False

/-- What a job does in a phase. -/
def allows (s : Phase) : Eff → Prop
  | .selectVoice _ _ => s = .start
  | .watermarkPcm _ _ _ => s.mayMark
  | .xaddResult r => r.isAudio = true → s.mayPublish r.pcmBytes
  | .archive _ pcm _ => s.mayArchive pcm
  | _ => True

/-- The phases as an automaton over awaits. -/
def monitor : Monitor Eff Ans Phase where
  possible _ _ := True
  allows := allows
  next := next

end Phase

/-! ## the text of the job -/

instance : Phase.monitor.Quiet where
  ignores {e} h s := by
    cases e with
    | xaddResult r =>
        have hr : r.isAudio = false := h
        refine ⟨by simp [Phase.monitor, Phase.allows, hr], fun a => ?_⟩
        cases a <;> simp [Phase.monitor, Phase.next, hr]
    | _ => simp_all [Eff.plain, Phase.monitor, Phase.allows, Phase.next]

/-- From phase `s` the program goes through the phases, and ends with `Q`
unless it raises. -/
abbrev Phases {α : Type} (s : Phase) (x : Py α) (Q : Phase → α → Prop) : Prop :=
  Goes Phase.monitor s x Q

/-- Ready for the next chunk, after the given ones. -/
def Prepared (bits : Option Nat) (done : List Pcm) : Phase → Prop
  | .exempt | .impossible => True
  | .armed _ own chunks => bits = some own ∧ chunks = done
  | _ => False

/-- The clip can be published next. -/
def Outgoing (bits : Option Nat) (done : List Pcm) (out : Pcm) : Phase → Prop
  | .exempt | .impossible => True
  | .marked _ own chunks clip => bits = some own ∧ chunks = done ∧ clip = out
  | _ => False

/-- Ready for the next chunk, after those in the buffer. -/
def Working (bits : Option Nat) (st : Synthesis) (s : Phase) : Prop :=
  ∃ done, Prepared bits done s ∧ st.pcm = done.flatten

section text

variable {S : Settings} {job : TtsJobPayload} {s : Phase}

/-- The voice lookup, and the key's. -/
theorem phases_lookupVoice (ids : JobIds) :
    Phases .start (lookupVoice ids job) fun s r =>
      ∀ voice, r.1 = some voice →
        s = if watermarkRequired voice then .bound voice r.2 else .exempt := by
  refine Goes.finallyDo trivial (Goes.step rfl fun found => ?_)
  cases found with
  | none => exact fun voice h => by cases h
  | some voice =>
      have hnone : Phases ((Phase.start).resolved voice) (pure (some voice, none))
          fun s (r : Option Voice × Option Nat) => ∀ voice, r.1 = some voice →
            s = if watermarkRequired voice then .bound voice r.2 else .exempt := by
        refine (spec_pure _).2 fun v hv => ?_
        cases hv
        rfl
      dsimp only
      cases hen : voice.watermarkEnabled with
      | false => exact hnone
      | true =>
          cases hkey : voice.watermarkKeyId with
          | none => exact hnone
          | some key =>
              refine Goes.step trivial fun bits => (spec_pure _).2 fun v hv => ?_
              cases hv
              cases bits with
              | none => rfl
              | some bits =>
                  simp only [Phase.monitor, Phase.next, Phase.resolved]
                  split <;> simp [Phase.keyed, hkey]

/-- The check of key and applier. -/
theorem phases_requireWatermark (attempt started : Nat) (voice : Voice) (bits : Option Nat) :
    Phases (if watermarkRequired voice then .bound voice bits else .exempt)
      (requireWatermark S job attempt started voice bits) fun s _ => Prepared bits [] s := by
  unfold requireWatermark
  by_cases hreq : watermarkRequired voice = true
  · simp only [if_pos hreq]
    cases bits with
    | none =>
        exact Goes.stops (Goes.poison attempt started (by decide) _ _ _)
    | some bits =>
        refine Goes.step trivial fun found => ?_
        cases found with
        | true => exact ⟨rfl, rfl⟩
        | false => exact trivial
  · simp only [if_neg hreq]
    exact trivial

/-- The voice, and the phase in which the chunks begin. -/
theorem phases_resolveVoice (ids : JobIds) (attempt started : Nat) :
    Phases .start (resolveVoice S job ids attempt started) fun s r => Prepared r.2 [] s := by
  refine Goes.resolveVoice (phases_lookupVoice ids) fun s voice bits hr => ?_
  rw [hr voice rfl]
  exact phases_requireWatermark attempt started voice bits

/-- The reference's download is no step of the watermark. -/
theorem phases_resolveReference (attempt started : Nat) (voice : Voice) :
    Phases s (resolveReference S job attempt started voice) fun s' _ => s' = s :=
  Goes.resolveReference trivial fun _ => rfl

/-- The applier's part of a turn. -/
theorem phases_watermark {bits : Option Nat} {done : List Pcm} (h : Prepared bits done s)
    (pcm : Pcm) (rate : Nat) :
    Phases s (watermark bits pcm rate) fun s' out => Outgoing bits done out s' := by
  cases s with
  | exempt =>
      cases bits with
      | none => exact (spec_pure _).2 trivial
      | some bits =>
          refine Goes.step trivial fun found => ?_
          cases found with
          | true => exact Goes.call trivial fun _ => trivial
          | false => exact (spec_pure _).2 trivial
  | impossible =>
      cases bits with
      | none => exact (spec_pure _).2 trivial
      | some bits =>
          refine Goes.step trivial fun found => ?_
          cases found with
          | true => exact Goes.call trivial fun _ => trivial
          | false => exact (spec_pure _).2 trivial
  | armed voice own chunks =>
      obtain ⟨rfl, rfl⟩ := h
      refine Goes.step trivial fun found => ?_
      cases found with
      | true =>
          refine Goes.call trivial fun out => ?_
          simp [Phase.monitor, Phase.next, Phase.returned, Outgoing]
      | false => exact (spec_pure _).2 trivial
  | _ => exact h.elim

/-- A marked chunk goes out, and the phase is ready for the next one. -/
theorem phases_publishChunk {bits : Option Nat} {done : List Pcm} {out : Pcm}
    (h : Outgoing bits done out s) (rid : Uuid) (seq : Nat) (sentence : Option PyStr)
    (attempt : Nat) :
    Phases s (publishChunk S rid seq out sentence attempt)
      fun s' _ => Prepared bits (done ++ [out]) s' := by
  cases s with
  | exempt => exact Goes.step (fun _ => trivial) fun _ => Goes.call trivial fun _ => trivial
  | impossible =>
      exact Goes.step (fun _ => trivial) fun _ => Goes.call trivial fun _ => trivial
  | marked voice own chunks clip =>
      obtain ⟨rfl, rfl, rfl⟩ := h
      refine Goes.step (fun _ => rfl) fun _ => Goes.call trivial fun _ => ?_
      exact ⟨rfl, rfl⟩
  | _ => exact h.elim

/-- The step lemma of the chunk loop. -/
theorem phases_publishOne {I : Inference} {st : Synthesis} (h : Working I.bits st s)
    (c : SynthChunk) :
    Phases s (publishOne S I st c) fun s' st' => Working I.bits st' s' := by
  obtain ⟨done, hprep, hpcm⟩ := h
  refine Goes.after (plain_stampOnce _ _) fun t => Goes.after (.liftPy _) fun pcm => ?_
  refine Goes.seq (phases_watermark hprep _ _) fun s₁ out hout => ?_
  refine Goes.seq (phases_publishChunk hout _ _ _ _) fun s₂ _ hprep => ?_
  refine Goes.after (plain_stampOnce _ _) fun t => (spec_pure _).2 ⟨done ++ [out], hprep, ?_⟩
  simp [hpcm]

/-- The run lemma of the chunk loop. -/
theorem phases_publishAll {I : Inference} (cs : List SynthChunk) {st : Synthesis}
    (h : Working I.bits st s) :
    Phases s (publishAll S I cs st) fun s' st' => Working I.bits st' s' := by
  induction cs generalizing s st with
  | nil => exact (spec_pure _).2 h
  | cons c cs ih => exact Goes.seq (phases_publishOne h c) fun _ _ hw => ih hw

/-- Behind the engine's run every chunk was marked. -/
theorem phases_synthesizeAll {I : Inference} (h : Prepared I.bits [] s) (r : SynthRequest) :
    Phases s (synthesizeAll S I r) fun s' st' => Working I.bits st' s' := by
  refine Goes.handler (Goes.step trivial fun run => ?_)
  refine Goes.seq (phases_publishAll run.chunks ⟨[], h, rfl⟩) fun s' st hw => ?_
  cases run.ending with
  | none => exact (spec_pure _).2 hw
  | some x => exact trivial

/-- Sections 1 to 4: the audio is what the phases have let through. -/
theorem phases_produce (ids : JobIds) (attempt started : Nat) :
    Phases .start (produce S job ids attempt started)
      fun s p => ∃ bits, Working bits p.synthesis s := by
  refine Goes.seq (phases_resolveVoice ids attempt started) fun s r hprep => ?_
  refine Goes.seq (phases_resolveReference attempt started r.1) fun _ ref hs => ?_
  subst hs
  refine Goes.tick trivial fun rate => Goes.tick trivial fun since => ?_
  refine Goes.seq (goes_resolvePreset attempt started) fun _ preset hs => ?_
  subst hs
  refine Goes.after (.liftPy _) fun settings => Goes.after (.liftPy _) fun overrides => ?_
  refine Goes.seq (phases_synthesizeAll hprep _) fun s st hw => ?_
  exact Goes.tick trivial fun now => (spec_pure _).2 ⟨_, hw⟩

/-- What is stored are the marked chunks. -/
theorem phases_storeAudio {bits : Option Nat} {st : Synthesis} (h : Working bits st s)
    (rid : Uuid) (rate : Nat) : Phases s (storeAudio rid st.pcm rate) fun _ _ => True := by
  have hal : s.allows (.archive rid st.pcm rate) := by
    obtain ⟨done, hprep, hpcm⟩ := h
    cases s with
    | armed voice own chunks =>
        obtain ⟨-, rfl⟩ := hprep
        exact hpcm
    | exempt => trivial
    | impossible => trivial
    | _ => exact hprep.elim
  have hput : Phases s (exceptException (await (.archive rid st.pcm rate))
      fun e => throw (.transientFailure ("archive_failed: " ++ e.text))) fun _ _ => True :=
    Goes.handler (Goes.call hal fun _ => trivial)
  refine hput.seq fun s' uri _ => ?_
  split <;> trivial

/-- The archive gets the buffer. -/
theorem phases_archiveAudio {bits : Option Nat} {st : Synthesis} (h : Working bits st s)
    (rid : Uuid) (attempt started rate : Nat) :
    Phases s (archiveAudio S job rid attempt started rate st) fun _ _ => True := by
  unfold archiveAudio
  by_cases hconf : (!S.archiveConfigured) = true
  · simp only [if_pos hconf]
    exact trivial
  · by_cases hempty : st.pcm.isEmpty = true
    · simp only [if_neg hconf, if_pos hempty]
      exact Goes.stops (Goes.poison attempt started (by decide) _ _ _)
    · simp only [if_neg hconf, if_neg hempty]
      exact phases_storeAudio h rid rate

/-- **The text of a job goes through the phases.** -/
theorem phases_processOneJob (pickup : Option Nat) (attempt : Nat) :
    Phases .start (processOneJob S job pickup attempt) fun _ _ => True := by
  refine Goes.after (.liftPy _) fun ids => Goes.tick trivial fun wall => ?_
  refine Goes.tick trivial fun started => Goes.tick trivial fun _ => ?_
  refine Goes.seq (phases_produce ids attempt started) fun s p hw => ?_
  obtain ⟨bits, hw⟩ := hw
  refine Goes.seq (phases_archiveAudio hw _ _ _ _) fun s uri _ => ?_
  refine Goes.tick trivial fun now => Goes.after (.liftPy _) fun inputs => ?_
  refine Goes.after (plain_commitSuccess _ _ _) fun _ => ?_
  exact Goes.done (Only.exceptException (plain_xaddResult rfl) fun _ => .raise _)

end text

/-! ## what a phase stands for -/

section sound

variable {A : AudioSeal} {ts : List (JobTurn A)} {t : JobTurn A} {w : WatermarkApplier A.Model}
  {s : Phase} {voice : Voice} {bits : Nat} {out : Pcm}

/-- A voice stays resolved. -/
theorem Resolved.snoc (h : Resolved ts voice) : Resolved (ts ++ [t]) voice := by
  obtain ⟨u, hu, h⟩ := h
  exact ⟨u, List.mem_append_left _ hu, h⟩

/-- A key that was found active stays found. -/
theorem ActiveKey.snoc (h : ActiveKey ts voice bits) : ActiveKey (ts ++ [t]) voice bits := by
  obtain ⟨u, hu, h⟩ := h
  exact ⟨u, List.mem_append_left _ hu, h⟩

/-- A probe stays one. -/
theorem Probed.snoc (h : Probed ts) : Probed (ts ++ [t]) := by
  obtain ⟨u, hu, h⟩ := h
  exact ⟨u, List.mem_append_left _ hu, h⟩

/-- Marked audio stays marked. -/
theorem Marked.snoc (h : Marked ts bits out) : Marked (ts ++ [t]) bits out := by
  obtain ⟨u, hu, h⟩ := h
  exact ⟨u, List.mem_append_left _ hu, h⟩

/-- A turn that resolves no voice. -/
theorem resolved_snoc_iff
    (ht : ∀ tenant voiceId v, t.answered ≠ ⟨.selectVoice tenant voiceId, .ok (some v)⟩) :
    Resolved (ts ++ [t]) voice ↔ Resolved ts voice := by
  constructor
  · rintro ⟨u, hu, tenant, voiceId, h⟩
    obtain hu | hu := List.mem_append.1 hu
    · exact ⟨u, hu, tenant, voiceId, h⟩
    · rw [List.mem_singleton.1 hu] at h
      exact absurd h (ht tenant voiceId voice)
  · exact Resolved.snoc

/-- What an armed phase stands for. -/
structure Backing (ts : List (JobTurn A)) (w : WatermarkApplier A.Model) (voice : Voice)
    (bits : Nat) (done : List Pcm) : Prop where
  resolved : Resolved ts voice
  key : ActiveKey ts voice bits
  probed : Probed ts
  ready : w.Ready
  marked : ∀ out ∈ done, Marked ts bits out

/-- What a phase stands for. -/
def Warranted (ts : List (JobTurn A)) (w : WatermarkApplier A.Model) : Phase → Prop
  | .start => ∀ voice, ¬Resolved ts voice
  | .bound voice bits => Resolved ts voice ∧ ∀ b, bits = some b → ActiveKey ts voice b
  | .armed voice bits done => Backing ts w voice bits done
  | .marked voice bits done out => Backing ts w voice bits (done ++ [out])
  | .failed => True
  | .exempt => ∃ voice, Resolved ts voice ∧ watermarkRequired voice = false
  | .impossible => False

/-- The invariant of a served run. -/
structure Watched (ts : List (JobTurn A)) (w : WatermarkApplier A.Model) (s : Phase) : Prop where
  unique : ∀ v v', Resolved ts v → Resolved ts v' → v = v'
  consistent : w.Consistent
  warranted : Warranted ts w s

/-- What backs a phase backs it at the next turn, if the model stays. -/
theorem Backing.snoc {w' : WatermarkApplier A.Model} {done : List Pcm}
    (h : Backing ts w voice bits done) (hw : w.Ready → w'.Ready) :
    Backing (ts ++ [t]) w' voice bits done :=
  ⟨h.resolved.snoc, h.key.snoc, h.probed.snoc, hw h.ready, fun out hout => (h.marked out hout).snoc⟩

/-- A turn that changes neither the phase nor the voice. -/
theorem Warranted.snoc {w' : WatermarkApplier A.Model} (h : Warranted ts w s)
    (ht : ∀ tenant voiceId v, t.answered ≠ ⟨.selectVoice tenant voiceId, .ok (some v)⟩)
    (hw : w.Ready → w'.Ready) : Warranted (ts ++ [t]) w' s := by
  cases s with
  | start => exact fun v hv => h v ((resolved_snoc_iff ht).1 hv)
  | bound voice bits => exact ⟨h.1.snoc, fun b hb => (h.2 b hb).snoc⟩
  | armed voice bits done => exact Backing.snoc h hw
  | marked voice bits done out => exact Backing.snoc h hw
  | failed => trivial
  | exempt =>
      obtain ⟨v, hv, hreq⟩ := h
      exact ⟨v, hv.snoc, hreq⟩
  | impossible => exact h.elim

/-- What the applier does keeps it ready. -/
theorem Serves.ready {keys : List WatermarkKey} {w' : WatermarkApplier A.Model} {e : Eff}
    {a : Ans e} (h : Serves A keys w w' e a) (hw : w.Ready) : w'.Ready := by
  obtain ⟨m, hm⟩ := Option.isSome_iff_exists.1 hw.loaded
  cases e with
  | loadApplier =>
      obtain ⟨o, rfl, -⟩ := h
      rw [WatermarkApplier.load_of_loaded hm]
      exact hw
  | watermarkPcm pcm rate bits =>
      obtain ⟨o, marked, -, rfl, -⟩ := h
      rw [(WatermarkApplier.watermarkPcm_of_loaded hm o marked pcm bits).1]
      exact hw
  | applierAvailable => rw [h.1]; exact hw
  | selectWatermarkKey key => rw [h.1]; exact hw
  | _ => obtain rfl : w' = w := h; exact hw

/-- An answer leaves the applier consistent. -/
theorem Serves.consistent {keys : List WatermarkKey} {w' : WatermarkApplier A.Model} {e : Eff}
    {a : Ans e} (h : Serves A keys w w' e a) (hw : w.Consistent) : w'.Consistent := by
  cases e with
  | loadApplier =>
      obtain ⟨o, rfl, -⟩ := h
      exact hw.load o
  | watermarkPcm pcm rate bits =>
      obtain ⟨o, marked, -, rfl, -⟩ := h
      unfold WatermarkApplier.watermarkPcm
      have hload := hw.load o
      split
      · exact hw
      · split <;> next heq => rw [heq] at hload; exact hload
  | applierAvailable => rw [h.1]; exact hw
  | selectWatermarkKey key => rw [h.1]; exact hw
  | _ => obtain rfl : w' = w := h; exact hw

/-- A key that was found is active. -/
theorem serves_key {keys : List WatermarkKey} {w' : WatermarkApplier A.Model} {key : Uuid}
    (h : Serves A keys w w' (.selectWatermarkKey key) (.ok (some bits))) :
    ∃ k ∈ keys, k.id = key ∧ k.retiredAt = none ∧ k.messageBits = bits := by
  obtain ⟨-, ha | ⟨x, hx⟩⟩ := h
  · obtain ⟨k, hk, hbits⟩ := Option.map_eq_some_iff.1 (Except.ok.inj ha).symm
    have hp := List.find?_some hk
    simp only [Bool.and_eq_true, beq_iff_eq, Option.isNone_iff_eq_none] at hp
    exact ⟨k, List.mem_of_find?_eq_some hk, hp.1, hp.2, hbits⟩
  · cases hx

/-- A probe that succeeds leaves the applier ready. -/
theorem serves_probe {keys : List WatermarkKey} {w' : WatermarkApplier A.Model}
    (h : Serves A keys w w' .loadApplier (.ok true)) (hc : w.Consistent) : w'.Ready := by
  obtain ⟨o, rfl, ha⟩ := h
  cases hload : (w.load o).1 with
  | error x => rw [hload] at ha; cases ha
  | ok found =>
      cases found with
      | none => rw [hload] at ha; cases ha
      | some m => exact WatermarkApplier.ready_of_load hc hload

/-- A clip that a ready applier returns is marked. -/
theorem serves_mark {keys : List WatermarkKey} {w' : WatermarkApplier A.Model} {pcm : Pcm}
    {rate : Nat} (h : Serves A keys w w' (.watermarkPcm pcm rate bits) (.ok out))
    (hw : w.Ready) : ∃ m, w'.model = some m ∧ A.embeds m pcm rate bits (.ok out) := by
  obtain ⟨m, hm⟩ := Option.isSome_iff_exists.1 hw.loaded
  obtain ⟨o, marked, hembeds, rfl, ha | ⟨x, hx⟩⟩ := h
  · obtain ⟨hsame, hmarked⟩ := WatermarkApplier.watermarkPcm_of_loaded hm o marked pcm bits
    refine ⟨m, by rw [hsame]; exact hm, ?_⟩
    cases hr : (w.watermarkPcm o marked pcm bits).1 with
    | error x => rw [hr] at ha; cases ha
    | ok clip =>
        rw [hr] at ha
        cases ha
        rw [← hmarked out hr]
        exact hembeds m
  · cases hx

/-- The key's lookup. -/
theorem Warranted.keyed {key : Uuid} {w' : WatermarkApplier A.Model} (h : Warranted (ts ++ [t]) w' s)
    (ht : t.answered = ⟨.selectWatermarkKey key, .ok (some bits)⟩)
    (hw : Serves A t.keys t.before t.after (.selectWatermarkKey key) (.ok (some bits))) :
    Warranted (ts ++ [t]) w' (s.keyed key bits) := by
  cases s with
  | bound voice old =>
      simp only [Phase.keyed]
      split
      · next hkey =>
          refine ⟨h.1, fun b hb => ?_⟩
          cases hb
          exact ⟨t, by simp, key, hkey, ht, serves_key hw⟩
      · exact h
  | _ => exact h

/-- The probe. -/
theorem Warranted.probed (h : Warranted (ts ++ [t]) t.after s) (hc : t.before.Consistent)
    (ht : t.answered = ⟨.loadApplier, .ok true⟩)
    (hw : Serves A t.keys t.before t.after .loadApplier (.ok true)) :
    Warranted (ts ++ [t]) t.after s.probed := by
  cases s with
  | bound voice old =>
      cases old with
      | none => exact h
      | some bits =>
          have hready := serves_probe hw hc
          exact ⟨h.1, h.2 bits rfl, ⟨t, by simp, ht, hready.loaded⟩, hready,
            fun out hout => by cases hout⟩
  | _ => exact h

/-- A clip that comes back. -/
theorem Warranted.returned {pcm : Pcm} {rate : Nat} (hbefore : Warranted ts t.before s)
    (h : Warranted (ts ++ [t]) t.after s)
    (ht : t.answered = ⟨.watermarkPcm pcm rate bits, .ok out⟩)
    (hw : Serves A t.keys t.before t.after (.watermarkPcm pcm rate bits) (.ok out)) :
    Warranted (ts ++ [t]) t.after (s.returned bits out) := by
  cases s with
  | armed voice own done =>
      simp only [Phase.returned]
      split
      · next hb =>
          subst hb
          obtain ⟨m, hm, hembeds⟩ := serves_mark hw (Backing.ready hbefore)
          obtain ⟨hvoice, hkey, hprobed, hready, hmarked⟩ := h
          refine ⟨hvoice, hkey, hprobed, hready, fun clip hclip => ?_⟩
          obtain hclip | hclip := List.mem_append.1 hclip
          · exact hmarked clip hclip
          · rw [List.mem_singleton.1 hclip]
            exact ⟨t, by simp, pcm, rate, m, ht, hm, hembeds⟩
      · exact h
  | _ => exact h

/-- The publication of a marked clip. -/
theorem Warranted.published (h : Warranted ts w s) : Warranted ts w s.published := by
  cases s with
  | marked voice bits done out => exact h
  | _ => exact h

/-- A broken phase needs no warrant. -/
theorem Warranted.broken (h : Warranted ts w s) : Warranted ts w s.broken := by
  cases s with
  | armed voice bits done => trivial
  | marked voice bits done out => trivial
  | _ => exact h

/-- An applier that is ready does not say otherwise. -/
theorem Warranted.unavailable (h : Warranted ts w s) (hw : w.isAvailable = false) :
    Warranted ts w s.unavailable := by
  cases s with
  | armed voice bits done =>
      have hav := h.ready.available
      rw [hw] at hav
      cases hav
  | _ => exact h

/-- The phase is still backed after others had the applier. -/
theorem Watched.elsewhere {w' : WatermarkApplier A.Model} (h : Watched ts w s)
    (he : WatermarkApplier.Elsewhere w w') : Watched ts w' s := by
  refine ⟨h.unique, h.consistent.elsewhere he, ?_⟩
  have hb := h.warranted
  cases s with
  | armed voice bits done => exact { hb with ready := hb.ready.elsewhere he }
  | marked voice bits done out => exact { hb with ready := hb.ready.elsewhere he }
  | _ => exact hb

/-- The voice's lookup comes first. -/
theorem Watched.resolve {tenant : Uuid} {voiceId : Json} {v : Voice}
    (h : Watched ts t.before .start) (hc : t.after.Consistent)
    (ht : t.answered = ⟨.selectVoice tenant voiceId, .ok (some v)⟩) :
    Watched (ts ++ [t]) t.after (Phase.start.resolved v) := by
  have honly : ∀ v', Resolved (ts ++ [t]) v' → v' = v := by
    rintro v' ⟨u, hu, tenant', voiceId', hv'⟩
    obtain hu | hu := List.mem_append.1 hu
    · exact absurd ⟨u, hu, tenant', voiceId', hv'⟩ (h.warranted v')
    · rw [List.mem_singleton.1 hu, ht] at hv'
      cases hv'
      rfl
  have hself : Resolved (ts ++ [t]) v := ⟨t, by simp, tenant, voiceId, ht⟩
  refine ⟨fun x y hx hy => (honly x hx).trans (honly y hy).symm, hc, ?_⟩
  simp only [Phase.resolved]
  split
  · exact ⟨hself, fun b hb => by cases hb⟩
  · next hreq => exact ⟨v, hself, by simpa using hreq⟩

/-- The step lemma. -/
theorem Watched.step (h : Watched ts t.before s)
    (hw : Serves A t.keys t.before t.after t.eff t.ans) (hal : s.allows t.eff) :
    Watched (ts ++ [t]) t.after (s.next t.eff t.ans) := by
  have hcons := hw.consistent h.consistent
  -- a turn that resolves no voice
  have hquiet (hq : ∀ tenant voiceId v, t.answered ≠ ⟨.selectVoice tenant voiceId, .ok (some v)⟩)
      (hb : Warranted (ts ++ [t]) t.after s → Warranted (ts ++ [t]) t.after (s.next t.eff t.ans)) :
      Watched (ts ++ [t]) t.after (s.next t.eff t.ans) := by
    refine ⟨fun x y hx hy => ?_, hcons, hb (h.warranted.snoc hq hw.ready)⟩
    exact h.unique x y ((resolved_snoc_iff hq).1 hx) ((resolved_snoc_iff hq).1 hy)
  obtain ⟨before, after, keys, e, a⟩ := t
  cases e with
  | selectVoice tenant voiceId =>
      obtain rfl : s = .start := hal
      cases a with
      | error x => exact hquiet (by rintro _ _ _ ⟨⟩) id
      | ok found =>
          cases found with
          | none => exact hquiet (by rintro _ _ _ ⟨⟩) id
          | some v => exact h.resolve hcons rfl
  | selectWatermarkKey key =>
      refine hquiet (by rintro _ _ _ ⟨⟩) fun hb => ?_
      cases a with
      | error x => exact hb
      | ok found =>
          cases found with
          | none => exact hb
          | some bits => exact hb.keyed rfl hw
  | loadApplier =>
      refine hquiet (by rintro _ _ _ ⟨⟩) fun hb => ?_
      cases a with
      | error x => exact hb
      | ok found =>
          cases found with
          | false => exact hb
          | true => exact hb.probed h.consistent rfl hw
  | applierAvailable =>
      refine hquiet (by rintro _ _ _ ⟨⟩) fun hb => ?_
      obtain ⟨hsame, ha⟩ := hw
      cases a with
      | error x => exact hb
      | ok found =>
          cases found with
          | true => exact hb
          | false => exact hb.unavailable (hsame ▸ (Except.ok.inj ha).symm)
  | watermarkPcm pcm rate bits =>
      refine hquiet (by rintro _ _ _ ⟨⟩) fun hb => ?_
      cases a with
      | error x => exact hb.broken
      | ok out => exact h.warranted.returned hb rfl hw
  | xaddResult r =>
      refine hquiet (by rintro _ _ _ ⟨⟩) fun hb => ?_
      cases a with
      | error x =>
          simp only [Phase.next]
          split
          · exact hb.broken
          · exact hb
      | ok u =>
          simp only [Phase.next]
          split
          · exact hb.published
          · exact hb
  | _ => exact hquiet (by rintro _ _ _ ⟨⟩) id

/-- The run lemma: a program that goes through the phases. -/
theorem Watched.run {α : Type} {p : Prog Eff Ans α} {Q : Phase → α → Prop} {rest : List (JobTurn A)}
    (h : Watched ts w s) (hp : Conforms Phase.monitor s p Q)
    (hemits : p.Emits (rest.map JobTurn.answered)) (hserved : ServedRun A w rest) :
    ∃ w', Watched (ts ++ rest) w' (Phase.monitor.after s (rest.map JobTurn.answered)) := by
  induction rest generalizing ts w s p with
  | nil =>
      rw [List.append_nil]
      exact ⟨w, h⟩
  | cons t rest ih =>
      obtain ⟨helse, hserves, hserved⟩ := hserved
      cases p with
      | ret a => exact hemits.elim
      | eff e k =>
          obtain ⟨a, ht, hemits⟩ := hemits
          obtain ⟨before, after, keys, e', a'⟩ := t
          cases ht
          obtain ⟨hal, hk⟩ := hp
          obtain ⟨w', hw'⟩ :=
            ih ((h.elsewhere helse).step hserves hal) (hk a' trivial) hemits hserved
          rw [List.append_assoc] at hw'
          exact ⟨w', hw'⟩

end sound

/-! ## the theorem -/

section coverage

variable {A : AudioSeal} {S : Settings} {job : TtsJobPayload} {pickup : Option Nat}
  {attempt : Nat} {ts : List (JobTurn A)}

/-- The awaits of a run of `process_one_job`, answered by an applier of a
fresh process. -/
structure JobRun (A : AudioSeal) (S : Settings) (job : TtsJobPayload) (pickup : Option Nat)
    (attempt : Nat) (ts : List (JobTurn A)) : Prop where
  emits : Prog.Emits (processOneJob S job pickup attempt).run (ts.map JobTurn.answered)
  served : ServedRun A {} ts

/-- The phase after a run. -/
def phaseOf (ts : List (JobTurn A)) : Phase := Phase.monitor.after .start (ts.map JobTurn.answered)

/-- The first part of a served run was served. -/
theorem ServedRun.left {w : WatermarkApplier A.Model} {past rest : List (JobTurn A)}
    (h : ServedRun A w (past ++ rest)) : ServedRun A w past := by
  induction past generalizing w with
  | nil => trivial
  | cons t past ih => exact ⟨h.1, h.2.1, ih h.2.2⟩

/-- The first part of a job's run is one of the job. -/
theorem JobRun.left {past rest : List (JobTurn A)} (h : JobRun A S job pickup attempt (past ++ rest)) :
    JobRun A S job pickup attempt past := by
  refine ⟨?_, h.served.left⟩
  have hemits := h.emits
  rw [List.map_append] at hemits
  exact hemits.left

/-- After every part of a run its phase stands for what it should. -/
theorem JobRun.watched (h : JobRun A S job pickup attempt ts) :
    ∃ w, Watched ts w (phaseOf ts) := by
  have hstart : Watched ([] : List (JobTurn A)) {} .start := by
    refine ⟨fun v v' hv => ?_, .inl rfl, fun v hv => ?_⟩
    · obtain ⟨u, hu, -⟩ := hv
      cases hu
    · obtain ⟨u, hu, -⟩ := hv
      cases hu
  exact hstart.run (phases_processOneJob pickup attempt) h.emits h.served

/-- Every await is allowed in its phase. -/
theorem JobRun.allows {past rest : List (JobTurn A)} {t : JobTurn A} {e : Eff} {a : Ans e}
    (h : JobRun A S job pickup attempt (past ++ t :: rest)) (ht : t.answered = ⟨e, a⟩) :
    (phaseOf past).allows e := by
  have hemits := h.emits
  rw [List.map_append, List.map_cons, ht] at hemits
  exact (phases_processOneJob pickup attempt).allows (fun _ _ => trivial) hemits

/-- The phase of a voice that has to be watermarked is never exempt. -/
theorem JobRun.not_exempt {past rest : List (JobTurn A)} {voice : Voice}
    (h : JobRun A S job pickup attempt (past ++ rest)) (hvoice : Resolved (past ++ rest) voice)
    (hreq : watermarkRequired voice = true) {w : WatermarkApplier A.Model}
    (hw : Watched past w .exempt) : False := by
  obtain ⟨v, ⟨u, hu, hv⟩, hfree⟩ := hw.warranted
  obtain ⟨w', hw'⟩ := h.watched
  have heq := hw'.unique v voice ⟨u, List.mem_append_left _ hu, hv⟩ hvoice
  rw [heq, hreq] at hfree
  cases hfree

/-- An armed phase is armed for the job's voice. -/
theorem JobRun.voice_eq {past rest : List (JobTurn A)} {voice v : Voice}
    (h : JobRun A S job pickup attempt (past ++ rest)) (hvoice : Resolved (past ++ rest) voice)
    (hv : Resolved past v) : v = voice := by
  obtain ⟨w', hw'⟩ := h.watched
  obtain ⟨u, hu, hv⟩ := hv
  exact hw'.unique v voice ⟨u, List.mem_append_left _ hu, hv⟩ hvoice

/-- A chunk that goes out was marked before, with an active key. -/
theorem JobRun.chunk {voice : Voice} {past rest : List (JobTurn A)} {t : JobTurn A} {r : TtsResult}
    {a : Ans (.xaddResult r)} (h : JobRun A S job pickup attempt (past ++ t :: rest))
    (hvoice : Resolved (past ++ t :: rest) voice) (hreq : watermarkRequired voice = true)
    (ht : t.answered = ⟨.xaddResult r, a⟩) (hr : r.isAudio = true) :
    ∃ bits, ActiveKey past voice bits ∧ Probed past ∧ Marked past bits r.pcmBytes := by
  obtain ⟨w, hw⟩ := h.left.watched
  have hal := h.allows ht hr
  have hb := hw.warranted
  cases hp : phaseOf past with
  | exempt => rw [hp] at hw; exact (h.not_exempt hvoice hreq hw).elim
  | impossible => rw [hp] at hb; exact hb.elim
  | marked v bits done out =>
      rw [hp] at hal hb
      have hb : Backing past w v bits (done ++ [out]) := hb
      have hpcm : r.pcmBytes = out := hal
      have hmark := hb.marked out (by simp)
      rw [← h.voice_eq hvoice hb.resolved, hpcm]
      exact ⟨bits, hb.key, hb.probed, hmark⟩
  | _ => rw [hp] at hal; exact hal.elim

/-- What is archived consists of such chunks. -/
theorem JobRun.archive {voice : Voice} {past rest : List (JobTurn A)} {t : JobTurn A} {rid : Uuid}
    {pcm : Pcm} {rate : Nat} {a : Ans (.archive rid pcm rate)}
    (h : JobRun A S job pickup attempt (past ++ t :: rest))
    (hvoice : Resolved (past ++ t :: rest) voice) (hreq : watermarkRequired voice = true)
    (ht : t.answered = ⟨.archive rid pcm rate, a⟩) :
    ∃ bits, ∃ outs : List Pcm, ActiveKey past voice bits ∧ pcm = outs.flatten ∧
      ∀ out ∈ outs, Marked past bits out := by
  obtain ⟨w, hw⟩ := h.left.watched
  have hal := h.allows ht
  have hb := hw.warranted
  cases hp : phaseOf past with
  | exempt => rw [hp] at hw; exact (h.not_exempt hvoice hreq hw).elim
  | impossible => rw [hp] at hb; exact hb.elim
  | armed v bits done =>
      rw [hp] at hal hb
      have hb : Backing past w v bits done := hb
      have hpcm : pcm = done.flatten := hal
      have hmarked := hb.marked
      rw [← h.voice_eq hvoice hb.resolved]
      exact ⟨bits, done, hb.key, hpcm, hmarked⟩
  | _ => rw [hp] at hal; exact hal.elim

/-- A failed job publishes nothing more. -/
theorem after_failed (h : List ((e : Eff) × Ans e)) : Phase.monitor.after .failed h = .failed := by
  have hnext : ∀ (e : Eff) (a : Ans e), Phase.next .failed e a = .failed := by
    intro e a
    unfold Phase.next
    split <;> first | rfl | (split <;> rfl)
  induction h with
  | nil => rfl
  | cons x h ih =>
      change Phase.monitor.after (Phase.next .failed x.1 x.2) h = _
      rw [hnext]
      exact ih

/-- A chunk that cannot be marked. -/
theorem JobRun.failed {voice : Voice} {past rest : List (JobTurn A)} {t : JobTurn A} {pcm : Pcm}
    {rate bits : Nat} {x : Exn} (h : JobRun A S job pickup attempt (past ++ t :: rest))
    (hvoice : Resolved (past ++ t :: rest) voice) (hreq : watermarkRequired voice = true)
    (ht : t.answered = ⟨.watermarkPcm pcm rate bits, .error x⟩) (more : List (JobTurn A)) :
    phaseOf (past ++ t :: more) = .failed := by
  obtain ⟨w, hw⟩ := h.left.watched
  have hal := h.allows ht
  have hb := hw.warranted
  have hstep : phaseOf (past ++ t :: more) =
      Phase.monitor.after ((phaseOf past).broken) (more.map JobTurn.answered) := by
    simp only [phaseOf, Monitor.after, List.map_append, List.map_cons, List.foldl_append,
      List.foldl_cons, ht]
    rfl
  rw [hstep]
  cases hp : phaseOf past with
  | exempt => rw [hp] at hw; exact (h.not_exempt hvoice hreq hw).elim
  | impossible => rw [hp] at hb; exact hb.elim
  | armed v bits done => exact after_failed _
  | _ => rw [hp] at hal; exact hal.elim

end coverage

/-- **No unmarked audio leaves a job** whose voice has to be watermarked: every chunk
that is published and all that is archived went through the watermarker with an active
key of the voice; without a key or a model no audio goes out, and a chunk that cannot
be marked is the last. -/
theorem watermark_coverage (A : AudioSeal) (S : Settings) (job : TtsJobPayload)
    (pickup : Option Nat) (attempt : Nat) (ts : List (JobTurn A)) (voice : Voice)
    (hrun : JobRun A S job pickup attempt ts) (hvoice : Resolved ts voice)
    (hreq : watermarkRequired voice = true) : Covered ts voice := by
  constructor
  · rintro past t rest r a rfl ht hr
    exact hrun.chunk hvoice hreq ht hr
  · rintro past t rest rid pcm rate a rfl ht
    exact hrun.archive hvoice hreq ht
  · intro hnone t hmem r a ht
    obtain ⟨past, rest, rfl⟩ := List.append_of_mem hmem
    by_contra hr
    obtain ⟨bits, hkey, hprobed, -⟩ := hrun.chunk hvoice hreq ht (by simpa using hr)
    obtain hnone | hnone := hnone
    · obtain ⟨u, hu, hkey⟩ := hkey
      exact hnone bits ⟨u, List.mem_append_left _ hu, hkey⟩
    · obtain ⟨u, hu, hprobed⟩ := hprobed
      exact hnone ⟨u, List.mem_append_left _ hu, hprobed⟩
  · rintro past t rest pcm rate bits x rfl ht u hu
    obtain ⟨more, rest, rfl⟩ := List.append_of_mem hu
    have hphase := hrun.failed hvoice hreq ht more
    have hrun : JobRun A S job pickup attempt ((past ++ t :: more) ++ u :: rest) := by
      simpa using hrun
    constructor
    · intro r a hur
      have hal := hrun.allows hur
      rw [hphase] at hal
      by_contra hr
      exact hal (by simpa using hr)
    · intro rid pcm rate a hur
      have hal := hrun.allows hur
      rw [hphase] at hal
      exact hal

/-! ## one job -/

/-- A watermark that flips the lowest bit of every byte. -/
def flipLowest : AudioSeal where
  Model := Unit
  embeds _ pcm _ _ r := r = .ok (pcm.map fun b => b ^^^ 1)

/-- A voice under a talent contract, with a key. -/
def talentVoice : Voice :=
  { someVoice with licenseKind := py "talent-contract", watermarkKeyId := some 9 }

/-- A job for it. -/
def talentJob : TtsJobPayload where
  requestId := .str (uuidStr 1)
  tenantId := .str (uuidStr 2)
  apiKeyId := .str (uuidStr 3)
  voiceId := .ofStr "v"
  text := .ofStr "hi"

/-- Its key. -/
def talentKeys : List WatermarkKey := [{ id := 9, messageBits := 5 }]

/-- The applier after its first use. -/
def warmApplier : WatermarkApplier Unit := { model := some () }

/-- Three chunks from the engine, and everything works. -/
def talentAnswer : (e : Eff) → Ans e
  | .selectVoice _ _ => .ok (some talentVoice)
  | .selectWatermarkKey key =>
      .ok ((WatermarkKeyRepo.getActive talentKeys key).map WatermarkKey.messageBits)
  | .loadApplier => .ok true
  | .applierAvailable => .ok true
  | .watermarkPcm pcm _ bits =>
      (warmApplier.watermarkPcm .notInstalled (fun _ => .ok (pcm.map fun b => b ^^^ 1)) pcm
        bits).1.mapError .foreign
  | e =>
      match exec 0 e (.goes { run := ⟨[⟨[2, 4], 16000, none⟩, ⟨[6], 16000, none⟩,
          ⟨[8, 9], 16000, none⟩], none⟩, uri := some (py "u") }) blank with
      | some (a, _) => a
      | none => .error (.foreign .baseException)

/-- The job's awaits. -/
def talentRun : List (JobTurn flipLowest) :=
  ((processOneJob plain talentJob none 1).run.history talentAnswer 60).map fun x =>
    ⟨warmApplier, warmApplier, talentKeys, x.1, x.2⟩

/-- The example's answers are those of a warm applier with the key. -/
theorem talentAnswer_served (e : Eff) :
    Serves flipLowest talentKeys warmApplier warmApplier e (talentAnswer e) := by
  cases e with
  | loadApplier => exact ⟨.notInstalled, rfl, rfl⟩
  | applierAvailable => exact ⟨rfl, rfl⟩
  | selectWatermarkKey key => exact ⟨rfl, .inl rfl⟩
  | watermarkPcm pcm rate bits =>
      refine ⟨.notInstalled, fun _ => .ok (pcm.map fun b => b ^^^ 1), fun _ => rfl, ?_, .inl rfl⟩
      exact (WatermarkApplier.watermarkPcm_of_loaded rfl _ _ _ _).1.symm
  | _ => rfl

/-- Turns answered by a function that serves them. -/
theorem servedRun_map {A : AudioSeal} {w : WatermarkApplier A.Model} {keys : List WatermarkKey}
    {answer : (e : Eff) → Ans e} (hserve : ∀ e, Serves A keys w w e (answer e)) {α : Type}
    (p : Prog Eff Ans α) (n : Nat) :
    ServedRun A w ((p.history answer n).map fun x => ⟨w, w, keys, x.1, x.2⟩) := by
  induction n generalizing p with
  | zero => trivial
  | succ n ih =>
      cases p with
      | ret a => trivial
      | eff e k => exact ⟨.refl w, hserve e, ih (k (answer e))⟩

/-- So its awaits are a run of the job. -/
theorem jobRun_talentRun : JobRun flipLowest plain talentJob none 1 talentRun := by
  have hmap : talentRun.map JobTurn.answered =
      (processOneJob plain talentJob none 1).run.history talentAnswer 60 := by
    unfold talentRun
    rw [List.map_map]
    exact List.map_id _
  refine ⟨?_, ?_⟩
  · rw [hmap]
    exact Prog.emits_history talentAnswer 60 _
  · have hserved := servedRun_map talentAnswer_served
      (processOneJob plain talentJob none 1).run 60
    -- the first await of a fresh process finds the applier warmed up
    have hwarm : WatermarkApplier.Elsewhere ({} : WatermarkApplier Unit) warmApplier :=
      .load (.loaded ()) (.refl {})
    unfold talentRun
    cases hh : (processOneJob plain talentJob none 1).run.history talentAnswer 60 with
    | nil => trivial
    | cons x h =>
        rw [hh] at hserved
        exact ⟨hwarm, hserved.2⟩

/-- A voice that has to be watermarked is resolved. -/
def resolvesTalent (ts : List (JobTurn flipLowest)) : Bool :=
  ts.any fun t => match t.answered with
    | ⟨.selectVoice _ _, .ok (some voice)⟩ => watermarkRequired voice
    | _ => false

/-- The chunks of audio that are published. -/
def publishedAudio (ts : List (JobTurn flipLowest)) : List Pcm :=
  ts.filterMap fun t => match t.answered with
    | ⟨.xaddResult r, _⟩ => if r.isAudio then some r.pcmBytes else none
    | _ => none

/-- What is archived. -/
def archivedAudio (ts : List (JobTurn flipLowest)) : List Pcm :=
  ts.filterMap fun t => match t.answered with
    | ⟨.archive _ pcm _, _⟩ => some pcm
    | _ => none

/-- What the check finds is a resolved voice. -/
theorem of_resolvesTalent {ts : List (JobTurn flipLowest)} (h : resolvesTalent ts = true) :
    ∃ voice, Resolved ts voice ∧ watermarkRequired voice = true := by
  obtain ⟨t, ht, hvoice⟩ := List.any_eq_true.1 h
  split at hvoice
  · next tenant voiceId voice heq => exact ⟨voice, ⟨t, ht, tenant, voiceId, heq⟩, hvoice⟩
  · cases hvoice

/-- Three chunks are published marked, and archived as they were published. -/
theorem watermark_coverage_archived :
    publishedAudio talentRun = [[3, 5], [7], [9, 8]] ∧
      archivedAudio talentRun = [[3, 5, 7, 9, 8]] ∧ ∃ voice, Covered talentRun voice := by
  obtain ⟨voice, hvoice, hreq⟩ :=
    of_resolvesTalent (show resolvesTalent talentRun = true by decide +kernel)
  exact ⟨by decide +kernel, by decide +kernel, voice,
    watermark_coverage flipLowest plain talentJob none 1 talentRun voice jobRun_talentRun hvoice
      hreq⟩

end NeuroVoice
