import NeuroVoice.Run
import NeuroVoice.Quiet
import Mathlib.Data.List.Chain

/-!
# NeuroVoice.Alignment

The three accounts `process_one_job` gives of a job's audio: the chunks it
publishes, the object it archives, and the alignment rows beside the duration in
the usage record.

The rows are computed with the rate each chunk carries, the archive and the
duration with the engine's rate from before the synthesis, and the samples are
counted chunk by chunk for the rows and over the whole buffer for the duration:
`archive_agrees_iff`.
-/

namespace NeuroVoice

/-! ## what a job leaves behind -/

/-- What a run of `process_one_job` has done so far. -/
structure JobLog where
  /-- `engine.sample_rate`, when it was read. -/
  engineRate : Option Nat := none
  /-- The chunks of the engine. -/
  yielded : List SynthChunk := []
  /-- The chunks on the result stream. -/
  published : List TtsResult := []
  /-- What `archive_to_r2` was called with. -/
  archived : Option (Pcm × Nat) := none
  /-- The job's row, as `complete` leaves it. -/
  row : Option JobIdempotency := none

namespace JobLog

/-- One await and its answer. -/
def next (l : JobLog) : (e : Eff) → Ans e → JobLog
  | .engineSampleRate, .ok rate => { l with engineRate := some rate }
  | .synthesize _, .ok run => { l with yielded := run.chunks }
  | .xaddResult r, .ok _ => if r.isAudio then { l with published := l.published ++ [r] } else l
  | .archive _ pcm rate, _ => { l with archived := some (pcm, rate) }
  | .selectIdem .complete _ _, .ok row => { l with row := row }
  | .updateIdem _ patch, .ok _ => { l with row := l.row.map patch.apply }
  | _, _ => l

/-- The audio of the published chunks. -/
def audio (l : JobLog) : List Pcm := l.published.map TtsResult.pcmBytes

/-- Their samples, chunk by chunk. -/
def samples (l : JobLog) : Nat := (l.audio.map fun pcm => pcm.length / 2).sum

/-- **The three accounts agree** on a rate: what the property asks of a job whose
chunks carry it. -/
structure Agrees (l : JobLog) (rows : List SentenceAlignment) (durationMs rate : Nat) :
    Prop where
  order : l.published.map TtsResult.seq = (List.range l.published.length).map Int.ofNat
  archived : l.archived = some (l.audio.flatten, rate)
  seqs : rows.map SentenceAlignment.seq = List.range l.published.length
  first : rows.head?.map SentenceAlignment.startMs = some 0
  contiguous : rows.IsChain fun a b => a.endMs = b.startMs
  ordered : ∀ row ∈ rows, row.startMs ≤ row.endMs
  last : rows.getLast?.map SentenceAlignment.endMs = some durationMs

end JobLog

/-! ## the rows -/

/-- The rows of the chunks from `seq` and `samples` on. -/
def alignmentRows (rate : Nat) : Nat → Nat → List (SynthChunk × Pcm) → List SentenceAlignment
  | _, _, [] => []
  | seq, samples, (c, pcm) :: rest =>
      { seq := seq
        startMs := samples * 1000 / max (c.rateOr rate) 1
        endMs := (samples + pcm.length / 2) * 1000 / max (c.rateOr rate) 1
        text := c.sentenceText.getD [] } ::
      alignmentRows rate (seq + 1) (samples + pcm.length / 2) rest

/-- The samples of some chunks. -/
def sampleCount (cs : List (SynthChunk × Pcm)) : Nat := (cs.map fun x => x.2.length / 2).sum

section rows

variable {rate q : Nat}

/-- The rows of two parts: the second part counts on from the first. -/
theorem alignmentRows_append (seq samples : Nat) (cs ds : List (SynthChunk × Pcm)) :
    alignmentRows rate seq samples (cs ++ ds) =
      alignmentRows rate seq samples cs ++
        alignmentRows rate (seq + cs.length) (samples + sampleCount cs) ds := by
  induction cs generalizing seq samples with
  | nil => simp [alignmentRows, sampleCount]
  | cons x cs ih =>
      obtain ⟨c, pcm⟩ := x
      simp only [List.cons_append, alignmentRows, ih, List.length_cons, sampleCount,
        List.map_cons, List.sum_cons]
      rw [show seq + 1 + cs.length = seq + (cs.length + 1) by omega, Nat.add_assoc]

/-- The rows are numbered one after the other. -/
theorem seqs_alignmentRows (seq samples : Nat) (cs : List (SynthChunk × Pcm)) :
    (alignmentRows rate seq samples cs).map SentenceAlignment.seq =
      List.range' seq cs.length := by
  induction cs generalizing seq samples with
  | nil => rfl
  | cons x cs ih => simp [alignmentRows, ih, List.range'_succ]

/-- The first row starts with the samples before it. -/
theorem head_alignmentRows (seq samples : Nat) {cs : List (SynthChunk × Pcm)} (hcs : cs ≠ [])
    (hrate : ∀ x ∈ cs, x.1.rateOr rate = q) :
    (alignmentRows rate seq samples cs).head?.map SentenceAlignment.startMs =
      some (samples * 1000 / max q 1) := by
  cases cs with
  | nil => exact absurd rfl hcs
  | cons x cs => simp [alignmentRows, hrate x (by simp)]

/-- A row ends where the next one starts. -/
theorem isChain_alignmentRows (seq samples : Nat) {cs : List (SynthChunk × Pcm)}
    (hrate : ∀ x ∈ cs, x.1.rateOr rate = q) :
    (alignmentRows rate seq samples cs).IsChain fun a b => a.endMs = b.startMs := by
  induction cs generalizing seq samples with
  | nil => exact .nil
  | cons x cs ih =>
      have htail := ih (seq + 1) (samples + x.2.length / 2) fun y hy => hrate y (by simp [hy])
      cases cs with
      | nil => exact List.isChain_singleton _
      | cons y cs =>
          refine List.isChain_cons_cons.2 ⟨?_, htail⟩
          simp only [hrate x (by simp), hrate y (by simp)]

/-- No row ends before it starts. -/
theorem ordered_alignmentRows (seq samples : Nat) (cs : List (SynthChunk × Pcm)) :
    ∀ row ∈ alignmentRows rate seq samples cs, row.startMs ≤ row.endMs := by
  induction cs generalizing seq samples with
  | nil => simp [alignmentRows]
  | cons x cs ih =>
      intro row hrow
      obtain rfl | hrow := List.mem_cons.1 hrow
      · exact Nat.div_le_div_right (Nat.mul_le_mul_right 1000 (Nat.le_add_right _ _))
      · exact ih _ _ row hrow

/-- The last row ends with the last sample. -/
theorem last_alignmentRows (seq samples : Nat) {cs : List (SynthChunk × Pcm)} (hcs : cs ≠ [])
    (hrate : ∀ x ∈ cs, x.1.rateOr rate = q) :
    (alignmentRows rate seq samples cs).getLast?.map SentenceAlignment.endMs =
      some ((samples + sampleCount cs) * 1000 / max q 1) := by
  obtain ⟨ds, x, rfl⟩ := (List.eq_nil_or_concat cs).resolve_left hcs
  simp only [List.concat_eq_append] at hrate ⊢
  rw [alignmentRows_append]
  simp [alignmentRows, hrate x (by simp), sampleCount, Nat.add_assoc]

/-- The samples of published chunks. -/
theorem sampleCount_zip {l : JobLog} {cs : List SynthChunk} (h : cs.length = l.audio.length) :
    sampleCount (cs.zip l.audio) = l.samples := by
  have hsnd : (cs.zip l.audio).map Prod.snd = l.audio := List.map_snd_zip h.ge
  rw [JobLog.samples]
  conv_rhs => rw [← hsnd, List.map_map]
  rfl

end rows

/-! ## what the text records -/

/-- The loop's state and the log after the chunks `done`. -/
structure Tallied (rate : Nat) (l : JobLog) (done : List SynthChunk) (st : Synthesis) : Prop where
  seq : st.seq = done.length
  published : l.published.length = done.length
  order : l.published.map TtsResult.seq = (List.range done.length).map Int.ofNat
  pcm : st.pcm = l.audio.flatten
  samples : st.samples = l.samples
  alignment : st.alignment = alignmentRows rate 0 0 (done.zip l.audio)

/-- What a log says of a usage record that is about to be written. -/
structure Recorded (l : JobLog) (durationMs : Nat) : Prop where
  rate : ∃ rate, l.engineRate = some rate ∧ l.archived = some (l.audio.flatten, rate) ∧
    durationMs = l.audio.flatten.length / 2 * 1000 / max rate 1 ∧
    ∀ row, l.row = some row →
      row.sentenceAlignment = some (alignmentRows rate 0 0 (l.yielded.zip l.audio))
  length : l.published.length = l.yielded.length
  order : l.published.map TtsResult.seq = (List.range l.published.length).map Int.ofNat
  nonempty : l.audio.flatten ≠ []

/-- What is archived has been published, and the record of a success is written
after everything else. -/
def jobMonitor : Monitor Eff Ans JobLog where
  possible _ _ := True
  allows
    | l, .archive _ pcm rate => pcm = l.audio.flatten ∧ l.engineRate = some rate
    | l, .insertUsage _ u => u.status = .ok → Recorded l u.durationMs
    | _, _ => True
  next := JobLog.next

/-- Awaits that leave the log as it is. -/
def Eff.unlogged : Eff → Prop
  | .engineSampleRate | .synthesize _ | .archive _ _ _ | .selectIdem .complete _ _
  | .updateIdem _ _ | .insertUsage _ _ => False
  | .xaddResult r => r.isAudio = false
  | _ => True

/-- Unlogged awaits do not move the log. -/
theorem jobMonitor_unlogged (l : JobLog) (e : Eff) (he : e.unlogged) :
    jobMonitor.allows l e ∧ ∀ a, jobMonitor.next l e a = l := by
  cases e with
  | engineSampleRate | synthesize _ | archive _ _ _ | updateIdem _ _ | insertUsage _ _ =>
      exact he.elim
  | selectIdem site _ _ =>
      cases site with
      | complete => exact he.elim
      | _ => exact ⟨trivial, fun a => rfl⟩
  | xaddResult r =>
      refine ⟨trivial, fun a => ?_⟩
      cases a with
      | error x => rfl
      | ok u => simp [jobMonitor, JobLog.next, show r.isAudio = false from he]
  | _ => exact ⟨trivial, fun a => rfl⟩

/-- Awaits that neither archive nor write the record of a success. -/
def Eff.unsuccessful : Eff → Prop
  | .archive _ _ _ => False
  | .insertUsage _ u => u.status ≠ .ok
  | _ => True

/-- What does not write a success is always allowed. -/
theorem jobMonitor_unsuccessful (l : JobLog) (e : Eff) (he : e.unsuccessful) :
    jobMonitor.allows l e := by
  cases e with
  | archive _ _ _ => exact he.elim
  | insertUsage _ u => exact fun h => absurd h he
  | _ => trivial

section text

variable {S : Settings} {job : TtsJobPayload} {l : JobLog} {α β : Type}

/-- The text of a job, with its log. -/
abbrev Logs (l : JobLog) (x : Py α) (Q : JobLog → α → Prop) : Prop := Goes jobMonitor l x Q

/-- A first part that leaves the log as it is. -/
theorem Logs.after {x : Py β} {f : β → Py α} {Q : JobLog → α → Prop} (hx : Only Eff.unlogged x)
    (hf : ∀ b, Logs l (f b) Q) : Logs l (x >>= f) Q :=
  (Goes.only hx (jobMonitor_unlogged l)).seq fun _ b h => h ▸ hf b

/-- An unlogged await, and what follows it. -/
theorem Logs.tick {e : Eff} {f : Ret e → Py α} {Q : JobLog → α → Prop} (he : e.unlogged)
    (hf : ∀ b, Logs l (f b) Q) : Logs l (await e >>= f) Q :=
  Logs.after (.call he) hf

/-- A part that records no success may do what it likes, if nothing follows. -/
theorem conforms_unsuccessful {p : Prog Eff Ans α} {Q : Unit → α → Prop}
    (hp : Conforms (Monitor.only Eff.unsuccessful) () p Q) :
    Conforms jobMonitor l p fun _ _ => True := by
  induction p generalizing l with
  | ret a => trivial
  | eff e k ih =>
      exact ⟨jobMonitor_unsuccessful l e hp.1, fun a _ => ih a (hp.2 a trivial)⟩

/-- A program without a success says nothing of the log. -/
theorem logs_unsuccessful {x : Py α} (hx : Only Eff.unsuccessful x) :
    Logs l x fun _ _ => True :=
  (conforms_unsuccessful hx).mono fun _ r _ => by cases r <;> trivial

/-- The record of a failure. -/
theorem failureUsage_status (ids : JobIds) (f : Failure) :
    Spec (Monitor.only Eff.unsuccessful) () (failureUsage S job ids f)
      (fun _ u => u.status = .error) fun _ _ => True := by
  refine (spec_bind _ _).2 (Spec.mono (Only.liftPy _) (fun _ n _ => ?_) fun _ _ _ => trivial)
  refine (spec_bind _ _).2 (Spec.mono (only_queueWaitMs trivial none) (fun _ t _ => ?_)
    fun _ _ _ => trivial)
  exact (spec_pure _).2 rfl

/-- A terminal failure writes no success. -/
theorem unsuccessful_markTerminalFailure (attempt : Nat) (f : Failure) :
    Only Eff.unsuccessful (markTerminalFailure S job attempt f) := by
  refine (Only.liftPy _).bind fun ids => ?_
  refine Only.bind (.tick trivial fun _ => .call trivial) fun _ => Only.finallyDo ?_ trivial
  refine Only.bind ?_ fun _ => Only.tick trivial fun u => ?_
  · refine Only.tick trivial fun row => ?_
    cases row with
    | none => exact .ret ()
    | some row => exact only_flush trivial
  · cases u with
    | some u => exact .call trivial
    | none =>
        refine (spec_bind _ _).2 (Spec.mono (failureUsage_status ids f) (fun _ u hu => ?_)
          fun _ _ _ => trivial)
        exact Only.tick (by simp [Eff.unsuccessful, hu]) fun _ => .call trivial

/-- A poison exit raises. -/
theorem logs_poison (attempt started : Nat) (code message : String) (seq : Nat) (raised : String)
    {Q : JobLog → α → Prop} :
    Logs l (poison S job attempt started code message seq raised) Q := by
  refine Logs.tick trivial fun now => ?_
  refine (logs_unsuccessful (unsuccessful_markTerminalFailure attempt _)).seq fun _ _ _ => ?_
  exact trivial

/-! ### sections 1 to 4 -/

/-- Stamps are not logged. -/
theorem unlogged_stampOnce (since : Nat) (t : Option Nat) :
    Only Eff.unlogged (stampOnce since t) := by
  cases t with
  | some t => exact .ret _
  | none => exact Only.tick trivial fun now => .ret _

/-- Neither is the watermarker. -/
theorem unlogged_watermark (bits : Option Nat) (pcm : Pcm) (rate : Nat) :
    Only Eff.unlogged (watermark bits pcm rate) := by
  cases bits with
  | none => exact .ret _
  | some bits =>
      refine Only.tick trivial fun found => ?_
      cases found with
      | true => exact .call trivial
      | false => exact .ret _

/-- Nor the voice's look-up. -/
theorem unlogged_lookupVoice (ids : JobIds) : Only Eff.unlogged (lookupVoice ids job) := by
  refine Only.finallyDo (Only.tick trivial fun found => ?_) trivial
  cases found with
  | none => exact .ret _
  | some voice =>
      dsimp only
      split
      · exact Only.tick trivial fun bits => .ret _
      · exact .ret _

/-- The look-up of the watermark's key leaves the log as it is. -/
theorem logs_requireWatermark (attempt started : Nat) (voice : Voice) (bits : Option Nat) :
    Logs l (requireWatermark S job attempt started voice bits) fun l' _ => l' = l := by
  have hload : Logs l (do
      if !(← await .loadApplier) then
        throw (.transientFailure ("voice " ++ S.repr (.str voice.voiceId) ++
          " requires watermark but audioseal package unavailable on this worker")))
      fun l' _ => l' = l := by
    refine Logs.tick trivial fun found => ?_
    split
    · exact trivial
    · exact (spec_pure _).2 rfl
  unfold requireWatermark
  split
  · split
    · exact Goes.stops (logs_poison attempt started _ _ _ _)
    · exact hload
  · exact (spec_pure _).2 rfl

/-- So do the checks of the voice. -/
theorem logs_resolveVoice (ids : JobIds) (attempt started : Nat) :
    Logs l (resolveVoice S job ids attempt started) fun l' _ => l' = l := by
  refine Logs.after (unlogged_lookupVoice ids) fun r => ?_
  obtain ⟨found, bits⟩ := r
  cases found with
  | none => exact logs_poison attempt started _ _ _ _
  | some voice =>
      refine (logs_requireWatermark attempt started voice bits).seq fun l' _ hl => ?_
      exact (spec_pure _).2 hl

/-- So does the download of its reference. -/
theorem logs_resolveReference (attempt started : Nat) (voice : Voice) :
    Logs l (resolveReference S job attempt started voice) fun l' _ => l' = l := by
  refine Logs.tick trivial fun t₀ => ?_
  refine Logs.after (Only.call trivial).outcomeOf fun r => ?_
  cases r with
  | ok path => exact Logs.tick trivial fun t₁ => (spec_pure _).2 rfl
  | error e =>
      split
      · next h => cases h
      · exact logs_poison attempt started _ _ _ _
      · exact trivial

/-- So does its preset. -/
theorem logs_resolvePreset (attempt started : Nat) :
    Logs l (resolvePreset S job attempt started) fun l' _ => l' = l := by
  unfold resolvePreset
  split
  · exact (spec_pure _).2 rfl
  · exact logs_poison attempt started _ _ _ _
  · exact trivial

/-- An entry with audio is published. -/
theorem logs_publishChunk (rid : Uuid) (seq : Nat) (pcm : Pcm) (sentence : Option PyStr)
    (attempt : Nat) :
    Logs l (publishChunk S rid seq pcm sentence attempt) fun l' _ =>
      l' = { l with published := l.published ++
        [{ requestId := rid, seq, pcmBytes := pcm, sentenceText := sentence, attempt }] } := by
  refine Goes.step trivial fun _ => ?_
  exact Goes.call trivial fun _ => rfl

/-- One more chunk that is published: the tally is the old one and that chunk. -/
theorem Tallied.snoc {rate : Nat} {done : List SynthChunk} {st : Synthesis}
    (h : Tallied rate l done st) (c : SynthChunk) (r : TtsResult) (t t' : Option Nat)
    (hr : r.seq = st.seq) :
    Tallied rate { l with published := l.published ++ [r] } (done ++ [c])
      { seq := st.seq + 1, pcm := st.pcm ++ r.pcmBytes, firstPcmMs := t, firstAudioMs := t'
        alignment := st.alignment ++ [st.align c (c.rateOr rate) r.pcmBytes]
        samples := st.samples + r.pcmBytes.length / 2 } where
  seq := by simp [h.seq]
  published := by simp [h.published]
  order := by
    simp [h.order, List.range_succ, hr, h.seq]
  pcm := by simp [h.pcm, JobLog.audio]
  samples := by simp [h.samples, JobLog.samples, JobLog.audio]
  alignment := by
    have hlen : done.length = l.audio.length := by simp [JobLog.audio, h.published]
    have haudio : ({ l with published := l.published ++ [r] } : JobLog).audio =
        l.audio ++ [r.pcmBytes] := by simp [JobLog.audio]
    rw [haudio, List.zip_append hlen, alignmentRows_append, ← h.alignment]
    have hzip : (done.zip l.audio).length = st.seq := by simp [h.seq, ← hlen]
    rw [sampleCount_zip hlen, ← h.samples, hzip, Nat.zero_add, Nat.zero_add]
    rfl

/-- The step lemma of the chunk loop. -/
theorem logs_publishOne {I : Inference} {done : List SynthChunk} {st : Synthesis}
    (h : Tallied I.sampleRate l done st) (c : SynthChunk) :
    Logs l (publishOne S I st c) fun l' st' =>
      Tallied I.sampleRate l' (done ++ [c]) st' ∧ l'.engineRate = l.engineRate ∧
        l'.yielded = l.yielded := by
  refine Logs.after (unlogged_stampOnce _ _) fun t => Logs.after (.liftPy _) fun pcm => ?_
  refine Logs.after (unlogged_watermark _ _ _) fun out => ?_
  refine (logs_publishChunk _ _ _ _ _).seq fun l' _ hl => ?_
  subst hl
  refine Logs.after (unlogged_stampOnce _ _) fun t' => ?_
  exact (spec_pure _).2 ⟨h.snoc c _ _ _ rfl, rfl, rfl⟩

/-- The run lemma of the chunk loop. -/
theorem logs_publishAll {I : Inference} (cs : List SynthChunk) {done : List SynthChunk}
    {st : Synthesis} (h : Tallied I.sampleRate l done st) :
    Logs l (publishAll S I cs st) fun l' st' =>
      Tallied I.sampleRate l' (done ++ cs) st' ∧ l'.engineRate = l.engineRate ∧
        l'.yielded = l.yielded := by
  induction cs generalizing l done st with
  | nil => exact (spec_pure _).2 ⟨by rwa [List.append_nil], rfl, rfl⟩
  | cons c cs ih =>
      refine (logs_publishOne h c).seq fun l₁ st₁ h₁ => ?_
      obtain ⟨htally, hrate, hyielded⟩ := h₁
      refine Spec.mono (ih htally) (fun l₂ st₂ h₂ => ?_) fun _ _ _ => trivial
      obtain ⟨htally₂, hrate₂, hyielded₂⟩ := h₂
      exact ⟨by simpa using htally₂, hrate₂.trans hrate, hyielded₂.trans hyielded⟩

/-- After the engine's run the tally is of all that it yielded. -/
theorem logs_synthesizeAll {I : Inference} (r : SynthRequest) (hl : l.published = []) :
    Logs l (synthesizeAll S I r) fun l' st =>
      Tallied I.sampleRate l' l'.yielded st ∧ l'.engineRate = l.engineRate := by
  refine Goes.handler (Goes.step trivial fun run => ?_)
  have hstart : Tallied I.sampleRate (jobMonitor.next l (.synthesize r) (.ok run)) [] {} := by
    constructor <;> simp [jobMonitor, JobLog.next, JobLog.audio, JobLog.samples, hl,
      alignmentRows]
  refine (logs_publishAll run.chunks hstart).seq fun l' st h => ?_
  obtain ⟨htally, hrate, hyielded⟩ := h
  cases run.ending with
  | none => exact (spec_pure _).2 ⟨by rw [hyielded]; exact htally, hrate⟩
  | some x => exact trivial

/-- Sections 1 to 4: the loop has counted with the rate that was read before. -/
theorem logs_produce (ids : JobIds) (attempt started : Nat) (hl : l.published = []) :
    Logs l (produce S job ids attempt started) fun l' p =>
      Tallied p.sampleRate l' l'.yielded p.synthesis ∧ l'.engineRate = some p.sampleRate := by
  refine (logs_resolveVoice ids attempt started).seq fun l₁ r h => ?_
  subst h
  refine (logs_resolveReference attempt started r.1).seq fun l₂ ref h => ?_
  subst h
  refine Goes.step trivial fun rate => Logs.tick trivial fun since => ?_
  refine (logs_resolvePreset attempt started).seq fun l₃ preset h => ?_
  subst h
  refine Logs.after (.liftPy _) fun settings => Logs.after (.liftPy _) fun overrides => ?_
  have hnone : (jobMonitor.next l₂ .engineSampleRate (.ok rate)).published = [] := hl
  refine (logs_synthesizeAll _ hnone).seq fun l' st h => ?_
  exact Logs.tick trivial fun now => (spec_pure _).2 h

/-! ### sections 5 and 6 -/

/-- The archive gets the buffer and the rate that was read before. -/
theorem logs_archiveAudio (rid : Uuid) (attempt started : Nat) {rate : Nat} {st : Synthesis}
    (hpcm : st.pcm = l.audio.flatten) (hrate : l.engineRate = some rate) :
    Logs l (archiveAudio S job rid attempt started rate st) fun l' _ =>
      st.pcm ≠ [] ∧ l' = { l with archived := some (st.pcm, rate) } := by
  unfold archiveAudio
  by_cases hconf : (!S.archiveConfigured) = true
  · simp only [if_pos hconf]
    exact trivial
  · by_cases hempty : st.pcm.isEmpty = true
    · simp only [if_neg hconf, if_pos hempty]
      exact Goes.stops (logs_poison attempt started _ _ _ _)
    · simp only [if_neg hconf, if_neg hempty]
      have hput : Logs l (exceptException (await (.archive rid st.pcm rate))
          fun e => throw (.transientFailure ("archive_failed: " ++ e.text)))
          fun l' _ => l' = { l with archived := some (st.pcm, rate) } :=
        Goes.handler (Goes.call ⟨hpcm, hrate⟩ fun _ => rfl)
      refine hput.seq fun l' uri h => ?_
      split
      · exact (spec_pure _).2 ⟨by simpa using hempty, h⟩
      · exact trivial

/-- The success writes the rows it is given. -/
theorem completePatch_rows (row : JobIdempotency) (uri : Option PyStr)
    (rows : List SentenceAlignment) :
    ((IdempotencyRepo.completePatch row uri (some rows)).apply row).sentenceAlignment =
      some rows := by
  simp only [IdempotencyRepo.completePatch, IdemPatch.apply]
  split
  · next h => simp [← h]
  · simp

/-- A success that changes nothing finds these rows in place. -/
theorem completePatch_empty {row : JobIdempotency} {uri : Option PyStr}
    {rows : List SentenceAlignment}
    (h : (IdempotencyRepo.completePatch row uri (some rows)).isEmpty = true) :
    row.sentenceAlignment = some rows := by
  simp only [IdemPatch.isEmpty, IdempotencyRepo.completePatch, Bool.and_eq_true] at h
  obtain ⟨-, h⟩ := h
  split at h
  · next heq => exact heq.symm
  · simp at h

/-- The row, as `complete` leaves it. -/
theorem logs_complete (tenant rid : Uuid) (uri : Option PyStr) {rows : List SentenceAlignment} :
    Logs l (IdempotencyRepo.complete tenant rid uri (some rows)) fun l' _ =>
      ∃ row, l' = { l with row } ∧
        ∀ job, row = some job → job.sentenceAlignment = some rows := by
  refine Goes.step trivial fun found => ?_
  cases found with
  | none => exact (spec_pure _).2 ⟨none, rfl, fun job h => by cases h⟩
  | some found =>
      change Logs _ (IdempotencyRepo.flush rid (IdempotencyRepo.completePatch found uri _)) _
      unfold IdempotencyRepo.flush
      split
      · next hempty =>
          refine (spec_pure _).2 ⟨some found, rfl, fun job h => ?_⟩
          cases h
          exact completePatch_empty hempty
      · refine Goes.call trivial fun _ => ⟨_, rfl, fun job h => ?_⟩
        cases h
        exact completePatch_rows found uri rows

/-- The log before the final transaction. -/
structure Archived (l : JobLog) (p : Produced) : Prop where
  tallied : Tallied p.sampleRate l l.yielded p.synthesis
  rate : l.engineRate = some p.sampleRate
  nonempty : p.synthesis.pcm ≠ []
  archived : l.archived = some (p.synthesis.pcm, p.sampleRate)

/-- The usage record of a success agrees with the log. -/
theorem Archived.recorded {p : Produced} {row : Option JobIdempotency} (h : Archived l p)
    (hrow : ∀ job, row = some job → job.sentenceAlignment = some p.synthesis.alignment) :
    Recorded { l with row } (p.synthesis.pcm.length / 2 * 1000 / max p.sampleRate 1) where
  rate := by
    refine ⟨p.sampleRate, h.rate, ?_, ?_, fun job hjob => ?_⟩
    · rw [show ({ l with row } : JobLog).audio = l.audio from rfl, ← h.tallied.pcm]
      exact h.archived
    · rw [h.tallied.pcm]
      rfl
    · rw [hrow job hjob, h.tallied.alignment]
      rfl
  length := h.tallied.published
  order := by rw [h.tallied.published]; exact h.tallied.order
  nonempty := by
    rw [show ({ l with row } : JobLog).audio = l.audio from rfl, ← h.tallied.pcm]
    exact h.nonempty

/-- Audio has rows. -/
theorem Archived.alignment_eq {p : Produced} (h : Archived l p) :
    p.synthesis.alignment? = some p.synthesis.alignment := by
  have hrows : p.synthesis.alignment ≠ [] := by
    intro hnone
    have hseqs := @seqs_alignmentRows p.sampleRate 0 0 (l.yielded.zip l.audio)
    rw [← h.tallied.alignment, hnone] at hseqs
    have hlen := congrArg List.length hseqs
    simp only [List.map_nil, List.length_nil, List.length_range'] at hlen
    have haudio : l.audio.length = l.yielded.length := by
      simp [JobLog.audio, h.tallied.published]
    have hzero : l.audio = [] := by
      rw [List.length_zip] at hlen
      exact List.length_eq_zero_iff.1 (by omega)
    exact h.nonempty (by rw [h.tallied.pcm, hzero]; rfl)
  simp [Synthesis.alignment?, hrows]

/-- The usage row has the duration of all bytes at the engine's rate. -/
theorem logs_successUsage {ids : JobIds} {p : Produced} {f : Finished} :
    Logs l (successUsage S job ids p f) fun l' u => l' = l ∧
      u.durationMs = p.synthesis.pcm.length / 2 * 1000 / max p.sampleRate 1 := by
  refine Logs.after (.liftPy _) fun n => Logs.after (only_queueWaitMs trivial _) fun t => ?_
  exact (spec_pure _).2 ⟨rfl, rfl⟩

/-- The statements of the success match the log. -/
theorem logs_recordSuccess {ids : JobIds} {p : Produced} {f : Finished} (h : Archived l p) :
    Logs l (recordSuccess S job ids p f) fun _ _ => True := by
  unfold recordSuccess
  rw [h.alignment_eq]
  refine (logs_complete _ _ _).seq fun l' _ hl => ?_
  obtain ⟨row, rfl, hrow⟩ := hl
  refine logs_successUsage.seq fun l'' u hu => ?_
  obtain ⟨rfl, hduration⟩ := hu
  refine Goes.step (fun _ => hduration ▸ h.recorded hrow) fun _ => ?_
  exact Goes.call trivial fun _ => trivial

/-- So does the transaction around them. -/
theorem logs_commitSuccess {ids : JobIds} {p : Produced} {f : Finished} (h : Archived l p) :
    Logs l (commitSuccess S job ids p f) fun _ _ => True := by
  refine Goes.handler ((logs_recordSuccess h).outcomeOf.seq fun l' r _ => ?_)
  refine Logs.tick trivial fun _ => ?_
  cases r <;> trivial

/-- **The text of a job** records what it has logged. -/
theorem logs_processOneJob (pickup : Option Nat) (attempt : Nat) :
    Logs {} (processOneJob S job pickup attempt) fun _ _ => True := by
  refine Logs.after (.liftPy _) fun ids => Logs.tick trivial fun wall => ?_
  refine Logs.tick trivial fun started => Logs.tick trivial fun _ => ?_
  refine (logs_produce ids attempt started rfl).seq fun l p h => ?_
  obtain ⟨htally, hrate⟩ := h
  refine (logs_archiveAudio _ _ _ htally.pcm hrate).seq fun l' uri hl => ?_
  obtain ⟨hne, rfl⟩ := hl
  refine Logs.tick trivial fun now => Logs.after (.liftPy _) fun inputs => ?_
  have harchived : Archived { l with archived := some (p.synthesis.pcm, p.sampleRate) } p :=
    ⟨⟨htally.seq, htally.published, htally.order, htally.pcm, htally.samples, htally.alignment⟩,
      hrate, hne, rfl⟩
  refine (logs_commitSuccess harchived).seq fun _ _ _ => ?_
  exact logs_unsuccessful (Only.exceptException (.tick trivial fun _ => .call trivial)
    fun _ => .raise _)

end text

/-! ## whole runs -/

/-- What a run has done so far. -/
def jobLog (past : List ((e : Eff) × Ans e)) : JobLog :=
  past.foldl (fun l x => l.next x.1 x.2) {}

/-- Counted chunk by chunk, the samples end in the millisecond in which the whole
buffer ends. -/
def JobLog.SameMillisecond (l : JobLog) (rate : Nat) : Prop :=
  l.samples * 1000 / max rate 1 = l.audio.flatten.length / 2 * 1000 / max rate 1

/-- How long the published chunks are, in bytes. -/
def JobLog.lengths (l : JobLog) : List Nat := l.audio.map List.length

/-- The bytes that chunks of odd length leave over make up samples together: those
fit into the millisecond in which the samples of the chunks end. -/
def SpareBytesFit (lengths : List Nat) (rate : Nat) : Prop :=
  (lengths.map (· / 2)).sum * 1000 % max rate 1 + lengths.countP (· % 2 = 1) / 2 * 1000 <
    max rate 1

instance (lengths : List Nat) (rate : Nat) : Decidable (SpareBytesFit lengths rate) :=
  inferInstanceAs (Decidable (_ < _))

/-- With one chunk of odd length at most there is nothing to fit. -/
theorem spareBytesFit_of_odd_le_one {lengths : List Nat} (h : lengths.countP (· % 2 = 1) ≤ 1)
    (rate : Nat) : SpareBytesFit lengths rate := by
  have hnone : lengths.countP (· % 2 = 1) / 2 = 0 := by omega
  rw [SpareBytesFit, hnone, Nat.zero_mul, Nat.add_zero]
  exact Nat.mod_lt _ (by omega)

/-- The bytes of the chunks: whole samples and what is left over. -/
theorem sum_eq_samples (lengths : List Nat) :
    lengths.sum = 2 * (lengths.map (· / 2)).sum + lengths.countP (· % 2 = 1) := by
  induction lengths with
  | nil => rfl
  | cons n lengths ih =>
      rw [List.sum_cons, List.map_cons, List.sum_cons, List.countP_cons, ih]
      by_cases hodd : n % 2 = 1
      · simp only [hodd, decide_true, if_true]
        omega
      · simp only [hodd, decide_false, Bool.false_eq_true, if_false]
        omega

/-- An addition that stays within the quotient. -/
theorem div_eq_div_add_iff {a b q : Nat} (hq : 0 < q) : a / q = (a + b) / q ↔ a % q + b < q := by
  have hsum : (a + b) / q = a / q + (a % q + b) / q := by
    conv_lhs => rw [← Nat.div_add_mod a q, Nat.add_assoc, Nat.mul_add_div hq]
  rw [hsum, ← Nat.div_eq_zero_iff_lt hq]
  omega

/-- The samples are counted chunk by chunk, two bytes each. -/
theorem JobLog.samples_eq (l : JobLog) : l.samples = (l.lengths.map (· / 2)).sum := by
  rw [samples, lengths, List.map_map]
  rfl

/-- **When the milliseconds are the same**, by the lengths of the chunks. -/
theorem JobLog.sameMillisecond_iff (l : JobLog) (rate : Nat) :
    l.SameMillisecond rate ↔ SpareBytesFit l.lengths rate := by
  have hbytes : l.audio.flatten.length = l.lengths.sum := List.length_flatten
  have hhalf : l.lengths.sum / 2 =
      (l.lengths.map (· / 2)).sum + l.lengths.countP (· % 2 = 1) / 2 := by
    rw [sum_eq_samples]
    omega
  rw [SameMillisecond, hbytes, hhalf, l.samples_eq, Nat.add_mul,
    div_eq_div_add_iff (Nat.lt_of_lt_of_le Nat.one_pos (le_max_right rate 1)), SpareBytesFit]

section agrees

variable {l : JobLog} {durationMs r : Nat}

/-- As many rows as chunks were published. -/
theorem Recorded.length_zip (h : Recorded l durationMs) :
    (l.yielded.zip l.audio).length = l.published.length := by
  simp [List.length_zip, JobLog.audio, h.length]

/-- A recorded job has at least one. -/
theorem Recorded.zip_ne_nil (h : Recorded l durationMs) : l.yielded.zip l.audio ≠ [] := by
  intro hnil
  have hlen := h.length_zip
  rw [hnil] at hlen
  have haudio : l.audio = [] := by
    rw [JobLog.audio, List.length_eq_zero_iff.1 hlen.symm, List.map_nil]
  exact h.nonempty (by rw [haudio]; rfl)

/-- Chunks that carry the engine's rate are counted with it. -/
theorem rateOr_of_mem_zip (hr : ∀ c ∈ l.yielded, c.sampleRate = r) :
    ∀ x ∈ l.yielded.zip l.audio, x.1.rateOr r = r := by
  intro x hx
  have hc := hr x.1 (List.of_mem_zip hx).1
  unfold SynthChunk.rateOr
  split
  · rfl
  · exact hc

/-- The last row ends with the last of the samples. -/
theorem Recorded.last_row (h : Recorded l durationMs) (hr : ∀ c ∈ l.yielded, c.sampleRate = r) :
    (alignmentRows r 0 0 (l.yielded.zip l.audio)).getLast?.map SentenceAlignment.endMs =
      some (l.samples * 1000 / max r 1) := by
  have hlen : l.yielded.length = l.audio.length := by simp [JobLog.audio, h.length]
  rw [last_alignmentRows 0 0 h.zip_ne_nil (rateOr_of_mem_zip hr), sampleCount_zip hlen,
    Nat.zero_add]

/-- Where the engine's rate is the rate of the chunks, the rows are one account. -/
theorem Recorded.agrees_iff (h : Recorded l durationMs) (hr : ∀ c ∈ l.yielded, c.sampleRate = r)
    (hrate : l.engineRate = some r) :
    l.Agrees (alignmentRows r 0 0 (l.yielded.zip l.audio)) durationMs r ↔
      l.SameMillisecond r := by
  obtain ⟨rate, hrate', harchived, hduration, -⟩ := h.rate
  obtain rfl : r = rate := Option.some.inj (hrate.symm.trans hrate')
  constructor
  · intro hagrees
    have hlast := (h.last_row hr).symm.trans hagrees.last
    rw [hduration] at hlast
    exact Option.some.inj hlast
  · intro hsame
    constructor
    · exact h.order
    · exact harchived
    · rw [seqs_alignmentRows, h.length_zip, List.range_eq_range']
    · rw [head_alignmentRows 0 0 h.zip_ne_nil (rateOr_of_mem_zip hr), Nat.zero_mul, Nat.zero_div]
    · exact isChain_alignmentRows 0 0 (rateOr_of_mem_zip hr)
    · exact ordered_alignmentRows 0 0 _
    · rw [h.last_row hr, hduration]
      exact congrArg some hsame

end agrees

/-- **Published audio, archive and alignment agree** exactly when the engine's
sample rate, as it was read before the synthesis, is the one its chunks carry, and
what chunks of odd length leave over fits into the last millisecond.  The archive always gets the
published audio; a job that is recorded as a success has one call of it behind it. -/
theorem archive_agrees_iff (S : Settings) (job : TtsJobPayload) (pickup : Option Nat)
    (attempt : Nat) (past rest : List ((e : Eff) × Ans e)) (x : (e : Eff) × Ans e) (r : Nat)
    (hrun : (processOneJob S job pickup attempt).run.Emits (past ++ x :: rest))
    (hr : ∀ c ∈ (jobLog past).yielded, c.sampleRate = r) :
    (∀ rid pcm rate, x.1 = .archive rid pcm rate → pcm = (jobLog past).audio.flatten ∧
        (rate = r ↔ (jobLog past).engineRate = some r)) ∧
      ∀ rid u row, x.1 = .insertUsage rid u → u.status = .ok → (jobLog past).row = some row →
        ((∃ rows, row.sentenceAlignment = some rows ∧
            (jobLog past).Agrees rows u.durationMs r) ↔
          (jobLog past).engineRate = some r ∧ SpareBytesFit (jobLog past).lengths r) := by
  have hallows : jobMonitor.allows (jobLog past) x.1 :=
    Conforms.allows (logs_processOneJob pickup attempt) (fun _ _ => trivial) hrun
  constructor
  · intro rid pcm rate hx
    rw [hx] at hallows
    obtain ⟨hpcm, hrate⟩ := hallows
    refine ⟨hpcm, ?_⟩
    rw [hrate, Option.some.injEq]
  · intro rid u row hx hok hrow
    rw [hx] at hallows
    have hrecorded : Recorded (jobLog past) u.durationMs := hallows hok
    obtain ⟨rate, hrate, harchived, -, hrows⟩ := hrecorded.rate
    constructor
    · rintro ⟨rows, hrows', h⟩
      have hpair := Option.some.inj (harchived.symm.trans h.archived)
      obtain rfl : rate = r := (Prod.mk.inj hpair).2
      obtain rfl := Option.some.inj ((hrows row hrow).symm.trans hrows')
      exact ⟨hrate, ((jobLog past).sameMillisecond_iff rate).1 ((hrecorded.agrees_iff hr hrate).1 h)⟩
    · rintro ⟨hrate', hsame⟩
      obtain rfl : rate = r := Option.some.inj (hrate.symm.trans hrate')
      exact ⟨_, hrows row hrow,
        (hrecorded.agrees_iff hr hrate).2 (((jobLog past).sameMillisecond_iff rate).2 hsame)⟩

/-! ## chunks at 16 kHz -/

/-- A voice without obligations. -/
def plainVoice : Voice where
  id := 7
  voiceId := py "v"
  referenceUri := py "s3://ref"
  referenceSha256 := []
  licenseKind := py "tenant-asserted"
  watermarkEnabled := false

/-- Its job. -/
def shortJob : TtsJobPayload where
  requestId := .str (uuidStr 1)
  tenantId := .str (uuidStr 2)
  apiKeyId := .str (uuidStr 3)
  voiceId := .ofStr "v"
  text := .ofStr "hi"

/-- Its row. -/
def shortRow : JobIdempotency where
  tenantId := 2
  apiKeyId := 3
  requestHash := []
  status := .processing
  createdAt := 0
  expiresAt := 1

/-- Silence of `n` bytes at 16 kHz. -/
def chunkOf (n : Nat) : SynthChunk where
  pcmInt16 := List.replicate n 0
  sampleRate := 16000
  sentenceText := none

/-- The engine says `rate` before the synthesis, and yields these chunks. -/
def answersWith (rate : Nat) (chunks : List SynthChunk) : (e : Eff) → Ans e
  | .engineSampleRate => .ok rate
  | .synthesize _ => .ok ⟨chunks, none⟩
  | .selectVoice _ _ => .ok (some plainVoice)
  | .archive _ _ _ => .ok (some (py "s3://audio"))
  | .selectIdem _ _ _ => .ok (some shortRow)
  | .updateIdem _ _ => .ok ()
  | .insertUsage _ _ => .ok ()
  | e =>
      match exec 0 e (.goes {}) blank with
      | some (a, _) => a
      | none => .error (.foreign .baseException)

/-- The run with these chunks up to its usage record. -/
def recordedRun (rate : Nat) (chunks : List SynthChunk) : List ((e : Eff) × Ans e) :=
  (processOneJob plain shortJob none 1).run.history (answersWith rate chunks)
    (18 + 2 * chunks.length)

/-- Three chunks, two of them of odd length. -/
def threeChunks : List SynthChunk := [chunkOf 33, chunkOf 32, chunkOf 35]

/-- What a run with them comes to. -/
theorem threeChunks_recorded : ∃ u row,
    (processOneJob plain shortJob none 1).run.Emits
      (recordedRun 16000 threeChunks ++ [⟨.insertUsage 1 u, .ok ()⟩]) ∧
    u.status = .ok ∧ (jobLog (recordedRun 16000 threeChunks)).row = some row ∧
    (jobLog (recordedRun 16000 threeChunks)).yielded = threeChunks ∧
    (jobLog (recordedRun 16000 threeChunks)).engineRate = some 16000 ∧
    (jobLog (recordedRun 16000 threeChunks)).lengths = [33, 32, 35] := by
  have hnext : ∃ u row,
      (processOneJob plain shortJob none 1).run.history (answersWith 16000 threeChunks) 25 =
        recordedRun 16000 threeChunks ++ [⟨.insertUsage 1 u, .ok ()⟩] ∧ u.status = .ok ∧
      (jobLog (recordedRun 16000 threeChunks)).row = some row ∧
      (jobLog (recordedRun 16000 threeChunks)).yielded = threeChunks ∧
      (jobLog (recordedRun 16000 threeChunks)).engineRate = some 16000 ∧
      (jobLog (recordedRun 16000 threeChunks)).lengths = [33, 32, 35] :=
    ⟨_, _, rfl, rfl, rfl, rfl, rfl, rfl⟩
  obtain ⟨u, row, hhistory, h⟩ := hnext
  exact ⟨u, row, hhistory ▸ Prog.emits_history _ _ _, h⟩

/-- An engine that says the rate of its chunks: three rows, and the sample that the
odd bytes make up lies in the last millisecond. -/
theorem archive_agrees_three : ∃ (u : UsageRecord) (row : JobIdempotency),
    (processOneJob plain shortJob none 1).run.Emits
      (recordedRun 16000 threeChunks ++ [⟨.insertUsage 1 u, .ok ()⟩]) ∧
    (jobLog (recordedRun 16000 threeChunks)).lengths = [33, 32, 35] ∧
    ∃ rows, row.sentenceAlignment = some rows ∧
      (jobLog (recordedRun 16000 threeChunks)).Agrees rows u.durationMs 16000 := by
  obtain ⟨u, row, hrun, hok, hrow, hyielded, hrate, hlengths⟩ := threeChunks_recorded
  refine ⟨u, row, hrun, hlengths, ?_⟩
  have hr : ∀ c ∈ (jobLog (recordedRun 16000 threeChunks)).yielded, c.sampleRate = 16000 := by
    rw [hyielded]
    decide
  have hfit : SpareBytesFit (jobLog (recordedRun 16000 threeChunks)).lengths 16000 := by
    rw [hlengths]
    decide
  exact ((archive_agrees_iff plain shortJob none 1 (recordedRun 16000 threeChunks) [] _ 16000 hrun
    hr).2 1 u row rfl hok hrow).2 ⟨hrate, hfit⟩

/-- One chunk of 16 samples, from an engine that said 48 kHz. -/
theorem staleRate_recorded : ∃ u row,
    (processOneJob plain shortJob none 1).run.Emits
      (recordedRun 48000 [chunkOf 32] ++ [⟨.insertUsage 1 u, .ok ()⟩]) ∧
    u.status = .ok ∧ (jobLog (recordedRun 48000 [chunkOf 32])).row = some row ∧
    (jobLog (recordedRun 48000 [chunkOf 32])).yielded = [chunkOf 32] := by
  have hnext : ∃ u row,
      (processOneJob plain shortJob none 1).run.history (answersWith 48000 [chunkOf 32]) 21 =
        recordedRun 48000 [chunkOf 32] ++ [⟨.insertUsage 1 u, .ok ()⟩] ∧ u.status = .ok ∧
      (jobLog (recordedRun 48000 [chunkOf 32])).row = some row ∧
      (jobLog (recordedRun 48000 [chunkOf 32])).yielded = [chunkOf 32] :=
    ⟨_, _, rfl, rfl, rfl, rfl⟩
  obtain ⟨u, row, hhistory, h⟩ := hnext
  exact ⟨u, row, hhistory ▸ Prog.emits_history _ _ _, h⟩

/-- An engine that said 48 kHz before it loaded a 16 kHz model. -/
theorem archived_at_stale_rate :
    ¬∀ (S : Settings) (job : TtsJobPayload) (pickup : Option Nat) (attempt : Nat)
      (past rest : List ((e : Eff) × Ans e)) (x : (e : Eff) × Ans e) (r : Nat),
      (processOneJob S job pickup attempt).run.Emits (past ++ x :: rest) →
      (∀ c ∈ (jobLog past).yielded, c.sampleRate = r) →
      ∀ rid u row, x.1 = .insertUsage rid u → u.status = .ok → (jobLog past).row = some row →
        ∃ rows, row.sentenceAlignment = some rows ∧
          (jobLog past).Agrees rows u.durationMs r := by
  intro h
  obtain ⟨u, row, hrun, hok, hrow, hyielded⟩ := staleRate_recorded
  have hr : ∀ c ∈ (jobLog (recordedRun 48000 [chunkOf 32])).yielded, c.sampleRate = 16000 := by
    rw [hyielded]
    decide
  obtain ⟨rows, -, hagrees⟩ := h plain shortJob none 1 (recordedRun 48000 [chunkOf 32]) [] _ 16000
    hrun hr 1 u row rfl hok hrow
  have hstale : (jobLog (recordedRun 48000 [chunkOf 32])).archived.map Prod.snd = some 48000 := rfl
  rw [hagrees.archived] at hstale
  exact absurd hstale (by decide)

end NeuroVoice
