import NeuroVoice.Discipline.Basic

/-!
# NeuroVoice.Discipline.Pipeline

`process_one_job` and `mark_terminal_failure` keep the discipline.

Up to its success transaction the pipeline leaves the track as it is; a
poison exit runs the failure transaction before it raises; and everything
else that raises leaves nothing open.
-/

namespace NeuroVoice

/-! ## what builtins raise -/

/-- Whatever `x` raises, `except Exception` catches it. -/
def Ordinary {α : Type} (x : Except Foreign α) : Prop :=
  ∀ f, x = .error f → f.isException = true

section ordinary

variable {α β : Type}

/-- A value is no error at all. -/
theorem ordinary_ok (a : α) : Ordinary (.ok a) := nofun

/-- An `Exception` is ordinary, which a `BaseException` is not. -/
theorem ordinary_error {f : Foreign} (h : f.isException = true) :
    Ordinary (.error f : Except Foreign α) := by
  rintro _ ⟨⟩
  exact h

/-- Ordinary computations compose. -/
theorem Ordinary.bind {x : Except Foreign α} {g : α → Except Foreign β} (hx : Ordinary x)
    (hg : ∀ a, Ordinary (g a)) : Ordinary (x >>= g) := by
  cases x with
  | error e => exact ordinary_error (hx e rfl)
  | ok a => exact hg a

/-- `len` raises a `TypeError` at most. -/
theorem ordinary_len (v : Json) : Ordinary v.len := by
  cases v <;> first | exact ordinary_ok _ | exact ordinary_error rfl

/-- `UUID` raises an ordinary error at most. -/
theorem ordinary_toUuid (v : Json) : Ordinary v.toUuid := by
  unfold Json.toUuid
  split
  · split
    · exact ordinary_ok _
    · exact ordinary_error rfl
  · exact ordinary_error rfl
  · exact ordinary_error rfl

/-- So does `int`. -/
theorem ordinary_toInt (v : Json) : Ordinary v.toInt := by
  unfold Json.toInt
  split <;> try split
  all_goals try split
  all_goals first | exact ordinary_ok _ | exact ordinary_error rfl

/-- So does arithmetic with a float. -/
theorem ordinary_floatOperand (v : Json) : Ordinary v.floatOperand := by
  unfold Json.floatOperand
  split <;> try split
  all_goals first | exact ordinary_ok _ | exact ordinary_error rfl

/-- So does `or {}`, where the value must be a dictionary. -/
theorem ordinary_orEmpty (v : Json) : Ordinary v.orEmpty := by
  unfold Json.orEmpty
  split
  · split
    · exact ordinary_ok _
    · exact ordinary_error rfl
  · exact ordinary_ok _

/-- So does a length that may be missing. -/
theorem ordinary_lenOrZero (v : Json) : Ordinary (lenOrZero v) := by
  unfold lenOrZero
  split
  · exact ordinary_len v
  · exact ordinary_ok _

/-- So do the three ids of a job. -/
theorem ordinary_ids (j : TtsJobPayload) : Ordinary j.ids :=
  (ordinary_toUuid _).bind fun _ => (ordinary_toUuid _).bind fun _ =>
    (ordinary_toUuid _).bind fun _ => ordinary_ok _

/-- So does the merge of the voice settings. -/
theorem ordinary_mergedVoiceSettings (v : Voice) (j : TtsJobPayload) :
    Ordinary (mergedVoiceSettings v j) :=
  (ordinary_orEmpty _).bind fun _ => ordinary_ok _

/-- So does the look-up of a parameter. -/
theorem ordinary_explicitParam (j : TtsJobPayload) (k : String) (v : Json) :
    Ordinary (explicitParam j k v) := by
  unfold explicitParam
  split
  · refine Ordinary.bind ?_ fun o => ?_
    · cases j.params <;> first | exact ordinary_ok _ | exact ordinary_error rfl
    · split <;> exact ordinary_ok _
  · exact ordinary_ok _

/-- Nothing but ordinary errors comes from the knobs. -/
theorem ordinary_engineOverrides (p : ModelPreset) (d : Dict) (j : TtsJobPayload) :
    Ordinary (engineOverrides p d j) := by
  have hcfg : Ordinary (boostedCfg p d) := by
    unfold boostedCfg
    split
    · exact ordinary_ok _
    · exact (ordinary_floatOperand _).bind fun _ => ordinary_ok _
  have hsteps : Ordinary (stabilisedSteps p d) := by
    unfold stabilisedSteps
    split
    · exact ordinary_ok _
    · exact (ordinary_floatOperand _).bind fun _ => ordinary_toInt _
  exact hcfg.bind fun _ => hsteps.bind fun _ => (ordinary_explicitParam _ _ _).bind fun _ =>
    (ordinary_explicitParam _ _ _).bind fun _ => ordinary_ok _

/-- Nor from the snapshot of the engine's inputs. -/
theorem ordinary_engineInputsSnapshot (S : Settings) (p : ModelPreset) (o : EngineOverrides)
    (d : Dict) (v : Voice) (j : TtsJobPayload) :
    Ordinary (engineInputsSnapshot S p o d v j) :=
  (ordinary_lenOrZero _).bind fun _ => (ordinary_lenOrZero _).bind fun _ =>
    (ordinary_lenOrZero _).bind fun _ => ordinary_ok _

end ordinary

/-! ## terminal failures -/

/-- The delivery's job, and nothing open. -/
structure HasJob (s : Track) (j : TtsJobPayload) : Prop where
  stage : s.stage = .none
  job : s.job = some j
  /-- `int` accepts the enqueue time: `_handle_one` has applied it. -/
  queued : j.enqueuedAtMs.isNull = true ∨ ∃ n, j.enqueuedAtMs.toInt = .ok n

section failures

variable {S : Settings} {s : Track} {j : TtsJobPayload} {i : JobIds}

/-- A track with a job has the job's ids. -/
theorem HasJob.ids_eq (h : HasJob s j) : s.ids = j.ids.toOption := by
  simp [Track.ids, h.job]

/-- A statement of an open transaction, or the code between two, raised. -/
def Broke (s s' : Track) (x : Exn) : Prop := Upset s (s'.onOk .close ()) x

/-- `fail` and the lookup of the usage row it is followed by. -/
theorem keeps_fail (hs : s.stage = .none) (hi : s.ids = some i) :
    Keeps S (s.withStage (.erred i.rid)) (IdempotencyRepo.fail i.tenant i.rid)
      (fun s' _ => ∃ row w, s' = s.withStage (.failing i.rid row w) ∧
        (Stage.failing i.rid row w).flushed = true)
      (Broke s) := by
  refine Keeps.step ⟨rfl, i, hi, rfl, rfl⟩ (fun row => ?_) fun _ x => ?_
  · cases row with
    | none => exact ⟨none, false, rfl, rfl⟩
    | some row =>
        by_cases hf : row.status = .failed
        · have he : (IdempotencyRepo.failPatch row).isEmpty = true := by
            simp [IdempotencyRepo.failPatch, IdemPatch.isEmpty, hf]
          simp only [IdempotencyRepo.flush, he]
          exact ⟨some row, false, rfl, by simp [Stage.flushed, hf]⟩
        · have he : IdempotencyRepo.failPatch row = { status := some .failed } := by
            simp [IdempotencyRepo.failPatch, hf]
          have hne : ¬((IdempotencyRepo.failPatch row).isEmpty = true) := by
            simp [he, IdemPatch.isEmpty]
          simp only [IdempotencyRepo.flush, if_neg hne]
          refine keeps_await.2 ⟨.inr ⟨row, rfl, he⟩, fun _ => ?_, fun _ x => ?_⟩
          · exact ⟨some row, true, rfl, rfl⟩
          · exact upset_statement hs rfl _ x
  · exact upset_statement hs rfl _ x

/-- The wall clock and `int` of a job that was picked up. -/
theorem keeps_queueWaitMs (hq : j.enqueuedAtMs.isNull = true ∨ ∃ n, j.enqueuedAtMs.toInt = .ok n)
    {R : Track → Exn → Prop} (started : Option Nat) :
    Keeps S s (queueWaitMs j started) (fun s' _ => s' = s) R := by
  unfold queueWaitMs
  by_cases hn : j.enqueuedAtMs.isNull = true
  · rw [if_pos hn]
    exact rfl
  · rw [if_neg hn]
    obtain ⟨n, hn⟩ := hq.resolve_left hn
    have hw (now : Nat) : Keeps S s (do return some (← liftPy (waitedMs j.enqueuedAtMs now)))
        (fun s' _ => s' = s) R := by
      refine (spec_bind _ _).2 (keeps_liftPy.2 ⟨fun a _ => rfl, fun f hf => ?_⟩)
      simp [waitedMs, hn, bind, Except.bind, pure, Except.pure] at hf
    cases started with
    | some t => exact hw t
    | none => exact Keeps.mark rfl trivial fun t => hw t

/-- The transaction of a terminal failure, up to its commit. -/
theorem keeps_recordFailure (h : HasJob s j) (hi : j.ids = .ok i) (f : Failure) :
    Keeps S (s.withStage (.erred i.rid)) (recordFailure S j i f)
      (fun s' _ => ∃ row, s' = { s with ended := some (.failed i.rid row) }) (Broke s) := by
  have hsi : s.ids = some i := by rw [h.ids_eq, hi]; rfl
  refine Keeps.seq (keeps_fail h.stage hsi) ?_ fun _ _ hb => hb
  rintro _ _ ⟨row, w, rfl, hfl⟩
  have hcommit : Keeps S (s.withStage (.recorded i.rid row w)) (await .commit)
      (fun s' _ => ∃ row, s' = { s with ended := some (.failed i.rid row) }) (Broke s) := by
    refine keeps_await.2 ⟨rfl, fun _ => ⟨row, ?_⟩, fun _ x => upset_statement h.stage rfl _ x⟩
    cases s
    cases h.stage
    rfl
  refine Keeps.step (.inr ⟨row, w, rfl, hfl⟩) (fun u => ?_)
    fun _ x => upset_statement h.stage rfl _ x
  cases u with
  | some u => exact hcommit
  | none =>
      have hst : (Stage.unbilled i.rid row w).dropped = .none := rfl
      have hu : Keeps S (s.withStage (.unbilled i.rid row w)) (failureUsage S j i f)
          (fun s' u => s' = s.withStage (.unbilled i.rid row w) ∧ u.status = .error)
          (Broke s) := by
        refine (spec_bind _ _).2 (keeps_liftPy.2 ⟨fun n _ => ?_, fun x hx => ?_⟩)
        · exact Keeps.call (keeps_queueWaitMs (R := Broke s) h.queued none)
            (fun t => ⟨rfl, rfl⟩) fun _ _ hb => hb
        · refine upset_dropped h.stage ?_ ?_ (fun _ => ?_) hst
          · exact ordinary_len _ x hx
          · exact fun m => nofun
          · exact ⟨j, h.job, .inr ⟨x, hx⟩⟩
      refine Keeps.seq hu ?_ fun _ _ hb => hb
      rintro _ u ⟨rfl, hu⟩
      refine Keeps.step (.inr ⟨hu, row, w, rfl⟩) (fun _ => ?_)
        fun _ x => upset_statement h.stage rfl _ x
      exact hcommit

/-- What a call of `mark_terminal_failure` leaves. -/
def Failed (i : JobIds) (s s' : Track) : Prop :=
  ∃ row, s' = { s with ended := some (.failed i.rid row) }

/-- `publish_error`: the error chunk, and its stream's time to live. -/
theorem keeps_publishError (hs : s.stage = .none) (hi : s.ids = some i) (seq : Nat) (msg : String)
    (n : Nat) :
    Keeps S s (publishError S i.rid seq msg n)
      (fun s' _ => s' = s.withStage (.erred i.rid)) (Upset s) := by
  refine Keeps.step ⟨hs, ⟨i, hi, rfl⟩, by simp⟩ (fun _ => ?_) fun _ x => upset_onError hs _ x
  refine keeps_await.2 ⟨trivial, fun _ => rfl, fun _ x => ?_⟩
  have he : (s.withStage (.erred i.rid)).onError (.expireResults i.rid S.resultsTtlMs)
      (.foreign x) = s.onError (.expireResults i.rid S.resultsTtlMs) (.foreign x) := by
    cases s
    cases hs
    rfl
  exact he ▸ upset_onError hs _ x

/-- **`mark_terminal_failure`** either commits the failure or raises. -/
theorem keeps_markTerminalFailure (h : HasJob s j) (n : Nat) (f : Failure) :
    Keeps S s (markTerminalFailure S j n f) (fun s' _ => ∃ i, j.ids = .ok i ∧ Failed i s s')
      (Upset s) := by
  refine (spec_bind _ _).2 (keeps_liftPy.2 ⟨fun i hi => ?_, fun x hx => ?_⟩)
  · have hsi : s.ids = some i := by rw [h.ids_eq, hi]; rfl
    refine Keeps.seq (keeps_publishError h.stage hsi _ _ _) ?_ fun _ _ hu => hu
    rintro _ _ rfl
    refine (keeps_finallyDo rfl).2 (Spec.mono (keeps_recordFailure h hi f) ?_ ?_)
    · rintro _ _ ⟨row, rfl⟩
      refine ⟨trivial, fun _ => ⟨i, hi, row, ?_⟩⟩
      cases s
      cases h.stage
      rfl
    · exact fun _ _ hb => ⟨trivial, fun _ => hb⟩
  · have hb : s.Bad := ⟨j, h.job, .inl (by rw [h.ids_eq, hx]; rfl)⟩
    exact upset_refl (ordinary_ids j x hx) (fun m => nofun) fun _ => hb

end failures

/-! ## the pipeline -/

/-- `process_one_job` is running, nothing open and nothing committed. -/
structure InJob (s : Track) (j : TtsJobPayload) (i : JobIds) : Prop extends HasJob s j where
  ids : j.ids = .ok i
  started : s.started = true
  left : s.left = false
  ended : s.ended = none

/-- A section of the pipeline raised: a poison exit has committed its
failure. -/
structure Broken (i : JobIds) (s s' : Track) (x : Exn) : Prop where
  same : ∃ b o, s' = { s with troubled := b, ended := o }
  troubled : x.isException = false → s'.troubled = true
  poison : ∀ m, x = .poisonJob m → ∃ row, s'.ended = some (.failed i.rid row)

section pipeline

variable {S : Settings} {s s₁ s' : Track} {j : TtsJobPayload} {i : JobIds}

/-- A stage set to itself changes nothing. -/
theorem Track.withStage_self {st : Stage} (h : s.stage = st) : s.withStage st = s := by
  cases s
  cases h
  rfl

/-- In a job the ids are known. -/
theorem InJob.track_ids (h : InJob s j i) : s.ids = some i := by
  rw [h.ids_eq, h.ids]
  rfl

/-- Being cancelled changes nothing about the job. -/
theorem InJob.shaken (h : InJob s j i) (b : Bool) : InJob { s with troubled := b } j i :=
  ⟨⟨h.stage, h.job, h.queued⟩, h.ids, h.started, h.left, h.ended⟩

/-- A failure before anything was written breaks the job off. -/
theorem Upset.broken {x : Exn} (h : Upset s s' x) : Broken i s s' x where
  same := by
    obtain ⟨b, rfl⟩ := h.same
    exact ⟨b, s.ended, rfl⟩
  troubled hx := h.troubled (.inr hx)
  poison m hm := absurd hm (h.notPoison m)

/-- `except Exception as e: raise TransientFailure(…)`. -/
theorem Broken.transient {x : Exn} (h : Broken i s s' x) (msg : String) :
    Broken i s s' (.transientFailure msg) :=
  ⟨h.same, nofun, nofun⟩

/-- An earlier await that raised and was handled changes nothing. -/
theorem Broken.after {x y : Exn} (h : Broken i s₁ s' y) (hu : Upset s s₁ x) :
    Broken i s s' y where
  same := by
    obtain ⟨b, rfl⟩ := hu.same
    obtain ⟨b, o, rfl⟩ := h.same
    exact ⟨b, o, rfl⟩
  troubled := h.troubled
  poison := h.poison

/-- A broken job stays broken in trouble. -/
theorem Broken.shaken {x : Exn} {b : Bool} (h : Broken i { s with troubled := b } s' x) :
    Broken i s s' x where
  same := by
    obtain ⟨b, o, rfl⟩ := h.same
    exact ⟨b, o, rfl⟩
  troubled := h.troubled
  poison := h.poison

/-- Raising without an await. -/
theorem broken_refl {x : Exn} (hx : x.isException = true) (hp : ∀ m, x ≠ .poisonJob m) :
    Broken i s s x :=
  ⟨⟨s.troubled, s.ended, rfl⟩, by simp [hx], fun m hm => absurd hm (hp m)⟩

/-- An await of the pipeline that raises. -/
theorem InJob.broken_onError (h : InJob s j i) (e : Eff) (f : Foreign) :
    Broken i s (s.onError e (.foreign f)) (.foreign f) :=
  (upset_onError h.stage e f).broken

/-- A query that raises; its session is closed. -/
theorem upset_query (hs : s.stage = .none) {e : Eff} (he : e.isSql = true) (f : Foreign) :
    Upset s ((s.onError e (.foreign f)).onOk .close ()) (.foreign f) := by
  have h := upset_statement hs he .none f
  rwa [Track.withStage_self hs] at h

/-- Closing a session with nothing open. -/
theorem onOk_close (hs : s.stage = .none) : s.onOk .close () = s := by
  cases s
  cases hs
  rfl

/-- A poison exit never returns; it raises `PoisonJob` after its commit. -/
theorem keeps_poison {α : Type} (h : InJob s j i) (n t : Nat) (code msg : String) (seq : Nat)
    (raised : String) {Q : Track → α → Prop} :
    Keeps S s (poison S j n t code msg seq raised) Q (Broken i s) := by
  refine Keeps.mark rfl trivial fun _ => ?_
  refine Keeps.seq (keeps_markTerminalFailure h.toHasJob n _) ?_ fun _ _ hu => hu.broken
  rintro _ _ ⟨i', hi', row, rfl⟩
  cases h.ids.symm.trans hi'
  exact ⟨⟨s.troubled, _, rfl⟩, nofun, fun _ _ => ⟨row, rfl⟩⟩

/-- The voice's look-up leaves the track where it was, or breaks the job off. -/
theorem keeps_lookupVoice (h : InJob s j i) :
    Keeps S s (lookupVoice i j) (fun s' _ => s' = s) (Broken i s) := by
  have hret (r : Option Voice × Option Nat) :
      Keeps S s (pure r) (fun s' _ => Allows S.maxRetries s' .close ∧
        ∀ b, (s'.onOk .close b) = s) (fun s' e => Allows S.maxRetries s' .close ∧
        ∀ b, Broken i s (s'.onOk .close b) e) := ⟨trivial, fun _ => onOk_close h.stage⟩
  refine (keeps_finallyDo rfl).2 (Keeps.step trivial (fun v => ?_) fun _ x => ?_)
  · cases v with
    | none => exact hret _
    | some v =>
        dsimp only
        split
        · refine Keeps.step trivial (fun bits => hret _) fun _ x => ?_
          exact ⟨trivial, fun _ => (upset_query h.stage rfl x).broken⟩
        · exact hret _
  · exact ⟨trivial, fun _ => (upset_query h.stage rfl x).broken⟩

/-- So does the look-up of the watermark's key. -/
theorem keeps_requireWatermark (h : InJob s j i) (n t : Nat) (v : Voice) (bits : Option Nat) :
    Keeps S s (requireWatermark S j n t v bits) (fun s' _ => s' = s) (Broken i s) := by
  have happlier : Keeps S s (do
      if !(← await .loadApplier) then
        throw (.transientFailure ("voice " ++ S.repr (.str v.voiceId) ++
          " requires watermark but audioseal package unavailable on this worker")))
      (fun s' (_ : PUnit) => s' = s) (Broken i s) := by
    refine Keeps.step trivial (fun b => ?_) fun _ x => h.broken_onError _ x
    cases b
    · exact broken_refl rfl fun m => nofun
    · exact rfl
  unfold requireWatermark
  split
  · split
    · exact Keeps.seq (keeps_poison h _ _ _ _ _ _) (fun _ _ hf => hf) fun _ _ hb => hb
    · exact happlier
  · exact rfl

/-- So do all checks of the voice. -/
theorem keeps_resolveVoice (h : InJob s j i) (n t : Nat) :
    Keeps S s (resolveVoice S j i n t) (fun s' _ => s' = s) (Broken i s) := by
  refine Keeps.call (keeps_lookupVoice h) (fun ⟨v, bits⟩ => ?_) fun _ _ hb => hb
  cases v with
  | none => exact keeps_poison h _ _ _ _ _ _
  | some v =>
      refine Keeps.call (keeps_requireWatermark h n t v bits) (fun _ => ?_) fun _ _ hb => hb
      exact rfl

/-- So does the download of its reference. -/
theorem keeps_resolveReference (h : InJob s j i) (n t : Nat) (v : Voice) :
    Keeps S s (resolveReference S j n t v) (fun s' _ => s' = s) (Broken i s) := by
  refine Keeps.mark rfl trivial fun _ => ?_
  refine (spec_bind _ _).2 (keeps_outcomeOf.2 (keeps_await.2 ⟨trivial, fun path => ?_, ?_⟩))
  · exact Keeps.mark rfl trivial fun _ => rfl
  · intro _ x
    have hs : InJob (s.onError (.resolveReference v.referenceUri) (.foreign x)) j i := by
      obtain ⟨b, hb⟩ := (upset_onError h.stage (.resolveReference v.referenceUri) x).same
      exact hb ▸ h.shaken b
    cases x with
    | fileNotFound msg =>
        exact Spec.mono (keeps_poison hs _ _ _ _ _ _) (fun _ _ hq => hq) fun _ _ hb =>
          hb.after (upset_onError h.stage _ _)
    | _ => exact h.broken_onError _ _

/-- So does its preset. -/
theorem keeps_resolvePreset (h : InJob s j i) (n t : Nat) :
    Keeps S s (resolvePreset S j n t) (fun s' _ => s' = s) (Broken i s) := by
  unfold resolvePreset resolveModel
  split
  · exact rfl
  · exact keeps_poison h _ _ _ _ _ _
  · next e hp he =>
      refine broken_refl ?_ fun m => ?_
      all_goals
        revert he
        split
        · nofun
        · split <;> grind [Exn.isException, Foreign.isException]

/-! ### the chunk loop -/

/-- A chunk or the final marker of the running job. -/
theorem keeps_xaddResult (hs : s.stage = .none) (hi : s.ids = some i) {r : TtsResult}
    (hr : r.requestId = i.rid) (herr : r.error = none)
    (hfin : r.final = true → s.left = false ∧ ∃ row, s.ended = some (.completed i.rid row)) :
    Keeps S s (xaddResult S r) (fun s' _ => s' = s) (Upset s) := by
  have hok : s.onOk (.xaddResult r) () = s := by
    simp [Track.onOk, herr]
  refine Keeps.step ⟨hs, ⟨i, hi, hr.symm⟩, fun hf => hr ▸ hfin hf⟩ (fun u => ?_)
    fun _ x => upset_onError hs _ x
  rw [show s.onOk (.xaddResult r) u = s from hok]
  exact keeps_await.2 ⟨trivial, fun _ => rfl, fun _ x => upset_onError hs _ x⟩

/-- A stamp never raises. -/
theorem keeps_stampOnce {R : Track → Exn → Prop} (since : Nat) (t : Option Nat) :
    Keeps S s (stampOnce since t) (fun s' _ => s' = s) R := by
  cases t with
  | some t => exact rfl
  | none => exact Keeps.mark rfl trivial fun _ => rfl

/-- A chunk that cannot be marked is an upset. -/
theorem keeps_watermark (h : InJob s j i) (bits : Option Nat) (pcm : Pcm) (rate : Nat) :
    Keeps S s (watermark bits pcm rate) (fun s' _ => s' = s) (Upset s) := by
  cases bits with
  | none => exact rfl
  | some bits =>
      refine Keeps.step trivial (fun b => ?_) fun _ x => upset_onError h.stage _ x
      cases b
      · exact rfl
      · exact keeps_await.2 ⟨trivial, fun _ => rfl, fun _ x => upset_onError h.stage _ x⟩

/-- So is one that cannot be published. -/
theorem keeps_publishOne (h : InJob s j i) {I : Inference} (hI : I.rid = i.rid)
    (st : Synthesis) (c : SynthChunk) :
    Keeps S s (publishOne S I st c) (fun s' _ => s' = s) (Upset s) := by
  refine Keeps.call (keeps_stampOnce (R := Upset s) _ _) (fun t => ?_) fun _ _ hu => hu
  refine (spec_bind _ _).2 (keeps_liftPy.2 ⟨fun pcm _ => ?_, fun x hx => ?_⟩)
  · refine Keeps.call (keeps_watermark h _ _ _) (fun pcm => ?_) fun _ _ hu => hu
    refine Keeps.call (keeps_xaddResult h.stage h.track_ids hI rfl (by simp)) (fun _ => ?_)
      fun _ _ hu => hu
    refine Keeps.call (keeps_stampOnce (R := Upset s) _ _) (fun t => ?_) fun _ _ hu => hu
    exact rfl
  · have hx' : (Exn.foreign x).isException = true := by
      cases hv : S.applyVoiceSettings c.pcmInt16 c.sampleRate I.voiceSettings with
      | error m => rw [hv] at hx; cases hx; rfl
      | ok p => rw [hv] at hx; cases hx
    exact upset_refl hx' nofun (by simp [h.left])

/-- So is the first of many, by induction on the chunks. -/
theorem keeps_publishAll (h : InJob s j i) {I : Inference} (hI : I.rid = i.rid)
    (cs : List SynthChunk) (st : Synthesis) :
    Keeps S s (publishAll S I cs st) (fun s' _ => s' = s) (Upset s) := by
  induction cs generalizing st with
  | nil => exact rfl
  | cons c cs ih =>
      refine Keeps.call (keeps_publishOne h hI st c) (fun st => ?_) fun _ _ hu => hu
      exact ih st

/-- The engine's run: what goes wrong becomes transient, unless the process
is cancelled. -/
theorem keeps_synthesizeAll (h : InJob s j i) {I : Inference} (hI : I.rid = i.rid)
    (r : SynthRequest) :
    Keeps S s (synthesizeAll S I r) (fun s' _ => s' = s) (Broken i s) := by
  refine keeps_exceptException.2 (Spec.mono (Q := fun s' _ => s' = s) (R := Broken i s) ?_
    (fun _ _ hq => hq) ?_)
  · refine Keeps.step trivial (fun run => ?_) fun _ x => h.broken_onError _ x
    by_cases hrun : run.ending.all Foreign.isException = true
    · have hok : s.onOk (.synthesize r) run = s := by simp [Track.onOk, hrun]
      rw [hok]
      refine Keeps.call (keeps_publishAll h hI _ _) (fun st => ?_) fun _ _ hu => hu.broken
      cases he : run.ending with
      | none => exact rfl
      | some x =>
          simp only [he, Option.all_some] at hrun
          exact broken_refl hrun (by simp)
    · have hok : s.onOk (.synthesize r) run = { s with troubled := true } := by
        simp [Track.onOk, hrun]
      rw [hok]
      refine Keeps.seq (keeps_publishAll (h.shaken true) hI _ _) ?_ ?_
      · rintro _ st rfl
        cases he : run.ending with
        | none => simp [he] at hrun
        | some x => exact ⟨⟨true, s.ended, rfl⟩, fun _ => rfl, by simp⟩
      · exact fun _ _ hu => hu.broken.shaken
  · intro s' e hb
    split
    · exact hb.transient _
    · exact hb

/-- Up to the last chunk nothing of the ledger was touched. -/
theorem keeps_produce (h : InJob s j i) (n t : Nat) :
    Keeps S s (produce S j i n t) (fun s' _ => s' = s) (Broken i s) := by
  refine Keeps.call (keeps_resolveVoice h n t) (fun ⟨v, bits⟩ => ?_) fun _ _ hb => hb
  refine Keeps.call (keeps_resolveReference h n t v) (fun ⟨path, took⟩ => ?_) fun _ _ hb => hb
  refine Keeps.step trivial (fun rate => ?_) fun _ x => h.broken_onError _ x
  refine Keeps.mark rfl trivial fun t₁ => ?_
  refine Keeps.call (keeps_resolvePreset h n t) (fun preset => ?_) fun _ _ hb => hb
  refine (spec_bind _ _).2 (keeps_liftPy.2 ⟨fun d _ => ?_, fun x hx => ?_⟩)
  · refine (spec_bind _ _).2 (keeps_liftPy.2 ⟨fun o _ => ?_, fun x hx => ?_⟩)
    · refine Keeps.call (keeps_synthesizeAll h rfl _) (fun st => ?_) fun _ _ hb => hb
      exact Keeps.mark rfl trivial fun _ => rfl
    · exact broken_refl (ordinary_engineOverrides _ _ _ x hx) nofun
  · exact broken_refl (ordinary_mergedVoiceSettings _ _ x hx) nofun

/-- The archive's upload touches nothing of it either. -/
theorem keeps_storeAudio (h : InJob s j i) (pcm : Pcm) (rate : Nat) :
    Keeps S s (storeAudio i.rid pcm rate) (fun s' _ => s' = s) (Broken i s) := by
  refine (spec_bind _ _).2 (keeps_exceptException.2 (keeps_await.2 ⟨trivial, ?_, ?_⟩))
  · rintro (_ | _ | _)
    · exact broken_refl rfl nofun
    · exact broken_refl rfl nofun
    · exact rfl
  · intro _ x
    split
    · exact (h.broken_onError _ x).transient _
    · exact h.broken_onError _ x

/-- Nor does the decision whether to upload. -/
theorem keeps_archiveAudio (h : InJob s j i) (n t rate : Nat) (st : Synthesis) :
    Keeps S s (archiveAudio S j i.rid n t rate st) (fun s' _ => s' = s) (Broken i s) := by
  unfold archiveAudio
  dsimp only
  split
  · have hb : Broken i s s (.transientFailure ("archive_to_r2 callable not configured; " ++
        "refusing to mark complete without an artifact (would leave audio_url=null)")) :=
      broken_refl rfl fun m => nofun
    exact hb
  · split
    · exact Keeps.seq (keeps_poison h _ _ _ _ _ _) (fun _ _ hf => hf) fun _ _ hb => hb
    · exact keeps_storeAudio h _ _

/-! ### the success transaction -/

/-- `complete` looks up its row and sends what has changed. -/
theorem keeps_complete (h : InJob s j i) (uri : PyStr)
    (al : Option (List SentenceAlignment)) :
    Keeps S s (IdempotencyRepo.complete i.tenant i.rid (some uri) al)
      (fun s' _ => ∃ row w, s' = s.withStage (.completing i.rid row w) ∧
        (Stage.completing i.rid row w).flushed = true)
      (Broke s) := by
  refine Keeps.step ⟨h.stage, h.ended, h.started, h.left, i, h.track_ids, rfl, rfl⟩ (fun row => ?_)
    fun _ x => ?_
  · have hlook : s.onOk (.selectIdem .complete i.tenant i.rid) row =
        s.withStage (.completing i.rid row false) := rfl
    rw [hlook]
    cases row with
    | none => exact ⟨none, false, rfl, rfl⟩
    | some row =>
        by_cases he : (IdempotencyRepo.completePatch row (some uri) al).isEmpty = true
        · simp only [IdempotencyRepo.flush, he]
          refine ⟨some row, false, rfl, ?_⟩
          simp only [IdempotencyRepo.completePatch, IdemPatch.isEmpty, Bool.and_eq_true,
            Option.isNone_iff_eq_none, ite_eq_left_iff, reduceCtorEq, imp_false,
            Decidable.not_not] at he
          simp [Stage.flushed, he.1.1, ← he.1.2]
        · simp only [IdempotencyRepo.flush, if_neg he]
          have hc : (IdempotencyRepo.completePatch row (some uri) al).completes row = true := by
            have hu : row.responseUri.isSome ∨ some uri ≠ row.responseUri := by
              by_cases hu : some uri = row.responseUri
              · exact .inl (hu ▸ rfl)
              · exact .inr hu
            by_cases hs : row.status = .complete <;> rcases hu with hu | hu <;>
              simp [IdempotencyRepo.completePatch, IdemPatch.completes, hs, hu]
          refine keeps_await.2 ⟨.inl ⟨row, rfl, hc⟩, fun _ => ?_, fun _ x => ?_⟩
          · exact ⟨some row, true, rfl, rfl⟩
          · exact upset_statement h.stage rfl _ x
  · have hb := upset_statement h.stage (e := .selectIdem .complete i.tenant i.rid) rfl s.stage x
    rwa [Track.withStage_self rfl] at hb

/-- What the success transaction leaves. -/
def Completed (i : JobIds) (s s' : Track) : Prop :=
  ∃ row, s' = { s with ended := some (.completed i.rid row) }

/-- The statements of the success complete the row in the transaction, or break it.
-/
theorem keeps_recordSuccess (h : InJob s j i) (p : Produced) (f : Finished) :
    Keeps S s (recordSuccess S j i p f) (fun s' _ => Completed i s s') (Broke s) := by
  refine Keeps.seq (keeps_complete h _ _) ?_ fun _ _ hb => hb
  rintro _ _ ⟨row, w, rfl, hfl⟩
  have hu : Keeps S (s.withStage (.completing i.rid row w)) (successUsage S j i p f)
      (fun s' u => s' = s.withStage (.completing i.rid row w) ∧ u.status = .ok) (Broke s) := by
    refine (spec_bind _ _).2 (keeps_liftPy.2 ⟨fun c _ => ?_, fun x hx => ?_⟩)
    · exact Keeps.call (keeps_queueWaitMs (R := Broke s) h.queued _) (fun t => ⟨rfl, rfl⟩)
        fun _ _ hb => hb
    · refine upset_dropped h.stage ?_ ?_ (by simp [h.left]) rfl
      · exact ordinary_len _ x hx
      · exact fun m => nofun
  refine Keeps.seq hu ?_ fun _ _ hb => hb
  rintro _ u ⟨rfl, hu⟩
  refine Keeps.step (.inl ⟨hu, row, w, rfl, hfl⟩) (fun _ => ?_)
    fun _ x => upset_statement h.stage rfl _ x
  refine keeps_await.2 ⟨rfl, fun _ => ⟨row, ?_⟩, fun _ x => upset_statement h.stage rfl _ x⟩
  cases s
  cases h.stage
  rfl

/-- The commit makes the success final, or the job is broken off. -/
theorem keeps_commitSuccess (h : InJob s j i) (p : Produced) (f : Finished) :
    Keeps S s (commitSuccess S j i p f) (fun s' _ => Completed i s s') (Broken i s) := by
  refine keeps_exceptException.2 ((keeps_finallyDo rfl).2
    (Spec.mono (keeps_recordSuccess h p f) ?_ ?_))
  · rintro _ _ ⟨row, rfl⟩
    refine ⟨trivial, fun _ => ⟨row, ?_⟩⟩
    cases s
    cases h.stage
    rfl
  · intro s' e hb
    refine ⟨trivial, fun _ => ?_⟩
    split
    · exact (Upset.broken hb).transient _
    · exact Upset.broken hb

/-- **`process_one_job`** returns after the success transaction, and raises
`PoisonJob` after the failure transaction. -/
theorem keeps_processOneJob (hj : HasJob s j) (hst : s.started = true) (hl : s.left = false)
    (he : s.ended = none) (pickup : Option Nat) (n : Nat) :
    Keeps S s (processOneJob S j pickup n) (fun s' _ => ∃ i, j.ids = .ok i ∧ Completed i s s')
      (fun s' x => (∃ b o, s' = { s with troubled := b, ended := o }) ∧
        (x.isException = false → s'.troubled = true) ∧
        ∀ m, x = .poisonJob m → ∃ i row, j.ids = .ok i ∧
          s'.ended = some (.failed i.rid row)) := by
  have hout {i : JobIds} {s' : Track} {x : Exn} (hi : j.ids = .ok i) (hb : Broken i s s' x) :
      (∃ b o, s' = { s with troubled := b, ended := o }) ∧
        (x.isException = false → s'.troubled = true) ∧
        ∀ m, x = .poisonJob m → ∃ i row, j.ids = .ok i ∧ s'.ended = some (.failed i.rid row) :=
    ⟨hb.same, hb.troubled, fun m hm => (hb.poison m hm).elim fun row hr => ⟨i, row, hi, hr⟩⟩
  refine (spec_bind _ _).2 (keeps_liftPy.2 ⟨fun i hi => ?_, fun x hx => ?_⟩)
  · have h : InJob s j i := ⟨hj, hi, hst, hl, he⟩
    refine Keeps.mark rfl trivial fun t₀ => Keeps.mark rfl trivial fun t => ?_
    refine Keeps.step trivial (fun _ => ?_) fun _ x => hout hi (h.broken_onError _ x)
    refine Keeps.call (keeps_produce h n t) (fun p => ?_) fun _ _ hb => hout hi hb
    refine Keeps.call (keeps_archiveAudio h n t _ _) (fun uri => ?_) fun _ _ hb => hout hi hb
    refine Keeps.mark rfl trivial fun t₁ => ?_
    refine (spec_bind _ _).2 (keeps_liftPy.2 ⟨fun inputs _ => ?_, fun x hx => ?_⟩)
    · refine Keeps.seq (keeps_commitSuccess h p _) ?_ fun _ _ hb => hout hi hb
      rintro _ _ ⟨row, rfl⟩
      have hfin := keeps_xaddResult (S := S)
        (r := { requestId := i.rid, seq := p.synthesis.seq, pcmBytes := [], final := true
                attempt := n })
        (s := { s with ended := some (.completed i.rid row) }) h.stage h.track_ids rfl rfl
        fun _ => ⟨hl, row, rfl⟩
      refine keeps_exceptException.2 (Spec.mono hfin ?_ ?_)
      · rintro _ _ rfl
        exact ⟨i, hi, row, rfl⟩
      · intro s' e hu
        obtain ⟨b, rfl⟩ := hu.same
        split
        · exact ⟨⟨b, _, rfl⟩, nofun, nofun⟩
        · exact ⟨⟨b, _, rfl⟩, fun hx => hu.troubled (.inr hx),
            fun m hm => absurd hm (hu.notPoison m)⟩
    · exact hout hi (broken_refl (ordinary_engineInputsSnapshot _ _ _ _ _ _ x hx) nofun)
  · refine ⟨⟨s.troubled, s.ended, rfl⟩, fun hx' => ?_, nofun⟩
    simp [Exn.isException, ordinary_ids j x hx] at hx'

end pipeline

end NeuroVoice
