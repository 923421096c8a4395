import Mathlib.Data.List.Sort
import NeuroVoice.Finetune.Manifest
import NeuroVoice.Catalog.Enroll
import NeuroVoice.Lib.Regex
import NeuroVoice.Lib.ReuseMap
import NeuroVoice.Wire

/-!
# NeuroVoice.Finetune.Transcribe

`finetune/transcribe.py`: from the source files to the raw manifest.

The WAV, the transcript and the clips of a source are named from its stem and
reused where they exist.  So the clips belong to their utterances exactly if no
two sources of one stem have an accepted utterance, and every accepted utterance
has frames in its WAV: `clipsBelong_iff`.
-/

namespace NeuroVoice

open ReuseMap

/-! ## paths -/

namespace ProjectLayout

variable (layout : ProjectLayout)

/-- `source_audio_dir`. -/
def sourceAudioDir : PurePath := layout.projectDir.child (py "source_audio")

/-- `deepgram_dir`. -/
def deepgramDir : PurePath := layout.projectDir.child (py "deepgram")

/-- `source_wav`, for a stem. -/
def sourceWav (stem : PyStr) : PurePath := layout.sourceAudioDir.child (stem ++ py "_16k.wav")

/-- `transcript_cache`, for a stem. -/
def transcriptCache (stem : PyStr) : PurePath :=
  layout.deepgramDir.child (stem ++ py ".deepgram.json")

end ProjectLayout

/-- `Path(name).stem`, for a file's name. -/
def fileStem (name : PyStr) : PyStr := name.take (name.length - (suffixOf name).length)

/-- `f"{n:04d}"`. -/
def pad4 (n : Nat) : PyStr :=
  List.replicate (4 - (decimalDigits n).length) 0x30 ++ decimalDigits n

/-- `clip_name`. -/
def clipName (stem : PyStr) (uttIdx : Nat) : PyStr := stem ++ py "_" ++ pad4 uttIdx ++ py ".wav"

/-- A padded number reads back. -/
theorem digitsVal_pad4 (n : Nat) : digitsVal 10 decimalDigit (pad4 n) 0 false = some n := by
  have hzeros : ∀ k ok, digitsVal 10 decimalDigit (List.replicate k 0x30 ++ decimalDigits n) 0 ok =
      some n := by
    intro k
    induction k with
    | zero =>
        intro ok
        have hread := digitsVal_decimalDigits n [] ok
        rw [List.append_nil] at hread
        rw [List.replicate_zero, List.nil_append, hread]
        rfl
    | succ k ih =>
        intro ok
        rw [List.replicate_succ, List.cons_append, digitsVal, if_neg (by decide),
          show decimalDigit 0x30 = some 0 by decide]
        simpa using ih true
  exact hzeros _ _

theorem mem_pad4 {n c : Nat} (h : c ∈ pad4 n) : 0x30 ≤ c ∧ c ≤ 0x39 := by
  simp only [pad4, List.mem_append, List.mem_replicate] at h
  obtain h | h := h
  · omega
  · exact mem_decimalDigits h

/-- A text is cut at its last separator in one way only. -/
theorem append_sep_inj {sep : Nat} {a b x y : PyStr} (hx : sep ∉ x) (hy : sep ∉ y)
    (h : a ++ sep :: x = b ++ sep :: y) : a = b ∧ x = y := by
  obtain ⟨m, hb, hm⟩ | ⟨m, ha, hm⟩ := List.append_eq_append_iff.1 h
  · cases m with
    | nil => simp_all
    | cons c m =>
        rw [List.cons_append, List.cons.injEq] at hm
        rw [hm.2] at hx
        simp at hx
  · cases m with
    | nil => simp_all
    | cons c m =>
        rw [List.cons_append, List.cons.injEq] at hm
        rw [hm.2] at hy
        simp at hy

/-- A clip's name tells the stem and the index. -/
theorem clipName_injective {s t : PyStr} {i j : Nat} (h : clipName s i = clipName t j) :
    s = t ∧ i = j := by
  have hsep : ∀ n, 0x5F ∉ pad4 n := by
    intro n hmem
    have := mem_pad4 hmem
    omega
  have hname : (s ++ 0x5F :: pad4 i) ++ py ".wav" = (t ++ 0x5F :: pad4 j) ++ py ".wav" := by
    simpa [clipName, py] using h
  obtain ⟨hstem, hpad⟩ := append_sep_inj (hsep i) (hsep j) (List.append_cancel_right hname)
  have hread := digitsVal_pad4 i
  rw [hpad, digitsVal_pad4 j] at hread
  exact ⟨hstem, (Option.some.inj hread).symm⟩

/-- `p.relative_to(base)`. -/
def PurePath.relativeTo (p base : PurePath) : Except Foreign PurePath :=
  if p.root = base.root ∧ base.parts <+: p.parts then
    .ok { root := 0, parts := p.parts.drop base.parts.length }
  else .error (.valueError "not in the subpath")

/-! ## the sources -/

/-- `SUPPORTED_SOURCE_SUFFIXES`. -/
def supportedSourceSuffixes : List PyStr :=
  [py ".wav", py ".mp3", py ".m4a", py ".flac", py ".ogg", py ".aac", py ".mp4", py ".mov",
    py ".webm"]

/-- The files of `source_raw_dir`, as `iterdir` names them. -/
structure SourceDir where
  names : List PyStr
  distinct : names.Nodup
  component : ∀ n ∈ names, isComponent n = true

/-- `source_files`; of the letters in a supported suffix, `lower` maps only ASCII
ones to them. -/
def SourceDir.sourceFiles (dir : SourceDir) : List PyStr :=
  let supported := dir.names.filter fun n =>
    supportedSourceSuffixes.contains (lowerAscii (suffixOf n))
  supported.insertionSort fun a b => strLe a b

/-- What is read of an utterance. -/
structure Utterance (F : Type) where
  /-- `str(utt["transcript"] or "")`. -/
  transcript : PyStr
  start : F
  stop : F

/-- A transcription, as the loop reads its utterances; a reading can raise. -/
abbrev Transcript (F : Type) := Except Foreign (List (Except Foreign (Utterance F)))

/-- What `sf.read` returns. -/
structure Wav (S : Type) where
  samples : List S
  samplerate : Nat
  deriving DecidableEq

/-- What ffmpeg makes of a source file, and what Deepgram answers for its WAV; each
is asked at most once a source. -/
structure Services (S F : Type) where
  ffmpeg : PyStr → Except Foreign (Except Foreign (Wav S))
  deepgram : PyStr → Except Foreign (Transcript F)

/-- The files of the three output directories. -/
structure Outputs (S F : Type) where
  sourceAudio : ReuseMap PurePath (Except Foreign (Wav S))
  deepgram : ReuseMap PurePath (Transcript F)
  audio : ReuseMap PurePath (Wav S)

/-- Empty output directories. -/
def Outputs.empty (S F : Type) : Outputs S F where
  sourceAudio _ := none
  deepgram _ := none
  audio _ := none

/-- Read a file. -/
def readFile {α : Type} (files : ReuseMap PurePath (Except Foreign α)) (p : PurePath) :
    Except Foreign α :=
  match files p with
  | some file => file
  | none => .error (.fileNotFound "No such file or directory")

section transcribe

variable {S F : Type} (ops : FloatOps F)

/-! ## an utterance -/

/-- The numbers of `TranscribeConfig`. -/
structure TranscribeConfig (F : Type) where
  minSegmentSeconds : F
  maxSegmentSeconds : F
  padStartSeconds : F
  padEndSeconds : F

/-- `_clean_text`. -/
def Transcribe.cleanText (text : PyStr) : PyStr :=
  stripBy isSpace ((Regex.plus (.char isSpace)).sub (fun _ => [0x20]) text)

/-- An utterance with its clean text and its padded times. -/
structure Segment (F : Type) where
  text : PyStr
  start : F
  stop : F
  duration : F

def segmentOf (cfg : TranscribeConfig F) (utt : Utterance F) : Segment F :=
  let padded := ops.sub utt.start cfg.padStartSeconds
  -- `max(0.0, padded)`
  let start := if ops.lt ops.zero padded then padded else ops.zero
  let stop := ops.add utt.stop cfg.padEndSeconds
  { text := Transcribe.cleanText utt.transcript, start, stop, duration := ops.sub stop start }

inductive SegmentStatus where
  | accepted
  | emptyText
  | tooShort
  | tooLong
  deriving DecidableEq

/-- Whether an utterance is accepted, or why it is not. -/
def Segment.status (cfg : TranscribeConfig F) (seg : Segment F) : SegmentStatus :=
  if seg.text.isEmpty then .emptyText
  else if ops.lt seg.duration cfg.minSegmentSeconds then .tooShort
  else if ops.lt cfg.maxSegmentSeconds seg.duration then .tooLong
  else .accepted

/-- The samples between two frames. -/
def Wav.slice (wav : Wav S) (startFrame endFrame : Nat) : Wav S :=
  { wav with samples := (wav.samples.take endFrame).drop startFrame }

/-- `start_frame` and `end_frame`. -/
def framesOf (wav : Wav S) (start stop : F) : Except Foreign (Nat × Nat) := do
  let startFrame ← ops.trunc (ops.mul start (ops.ofNat wav.samplerate))
  let endFrame ← ops.trunc (ops.mul stop (ops.ofNat wav.samplerate))
  return ((max 0 startFrame).toNat, (min (wav.samples.length : Int) endFrame).toNat)

/-- `_write_clip`: the clip, if one is written. -/
def writeClip (source : Except Foreign (Wav S)) (start stop : F) :
    Except Foreign (Option (Wav S)) := do
  let wav ← source
  let (startFrame, endFrame) ← framesOf ops wav start stop
  return if startFrame < endFrame then some (wav.slice startFrame endFrame) else none

/-! ## the run -/

/-- A row of the review file. -/
structure ReviewRow (F : Type) where
  sourceFile : PyStr
  utteranceIndex : Nat
  start : F
  stop : F
  duration : F
  text : PyStr
  status : SegmentStatus
  audio : Option PyStr := none

/-- A row of the raw manifest. -/
structure ManifestRow (F : Type) where
  audio : PyStr
  text : PyStr
  duration : F
  speakerId : PyStr
  sourceFile : PyStr
  deriving DecidableEq

/-- The files and the rows so far. -/
structure Build (S F : Type) where
  out : Outputs S F
  manifestRows : List (ManifestRow F) := []
  reviewRows : List (ReviewRow F) := []

/-- How the build fails. -/
inductive BuildError where
  | noSourceAudio
  | foreign (x : Foreign)

variable (env : Services S F) (layout : ProjectLayout) (cfg : TranscribeConfig F)

/-- The loop's body for one utterance. -/
def processUtterance (name : PyStr) (st : Build S F) (uttIdx : Nat)
    (utt : Except Foreign (Utterance F)) : Except Foreign (Build S F) := do
  let seg := segmentOf ops cfg (← utt)
  let row : ReviewRow F :=
    { sourceFile := name, utteranceIndex := uttIdx, start := ops.round3 seg.start
      stop := ops.round3 seg.stop, duration := ops.round3 seg.duration, text := seg.text
      status := seg.status ops cfg }
  if seg.status ops cfg = .accepted then
    let clipPath := layout.audioDir.child (clipName (fileStem name) uttIdx)
    let source := readFile st.out.sourceAudio (layout.sourceWav (fileStem name))
    let audio ← fill st.out.audio clipPath (writeClip ops source seg.start seg.stop)
    let relative ← clipPath.relativeTo layout.projectDir
    return { out := { st.out with audio }
             reviewRows := st.reviewRows ++ [{ row with audio := some relative.str }]
             manifestRows := st.manifestRows ++
               [{ audio := relative.str, text := seg.text, duration := row.duration
                  speakerId := layout.voiceId, sourceFile := name }] }
  else return { st with reviewRows := st.reviewRows ++ [row] }

/-- The loop over the utterances, from the given index on. -/
def processUtterances (name : PyStr) :
    Build S F → Nat → List (Except Foreign (Utterance F)) → Except Foreign (Build S F)
  | st, _, [] => .ok st
  | st, uttIdx, utt :: utts => do
      let st ← processUtterance ops layout cfg name st uttIdx utt
      processUtterances name st (uttIdx + 1) utts

/-- The loop's body for one source file. -/
def processSource (st : Build S F) (name : PyStr) : Except Foreign (Build S F) := do
  let sourceAudio ← fill st.out.sourceAudio (layout.sourceWav (fileStem name))
    ((env.ffmpeg name).map some)
  let deepgram ← fill st.out.deepgram (layout.transcriptCache (fileStem name))
    ((env.deepgram name).map some)
  let utterances ← readFile deepgram (layout.transcriptCache (fileStem name))
  processUtterances ops layout cfg name { st with out := { st.out with sourceAudio, deepgram } } 1
    utterances

/-- The loop over the source files. -/
def processSources : Build S F → List PyStr → Except Foreign (Build S F)
  | st, [] => .ok st
  | st, name :: names => do
      let st ← processSource ops env layout cfg st name
      processSources st names

/-- The texts of a manifest row can be written as UTF-8. -/
def ManifestRow.encodable (row : ManifestRow F) : Bool :=
  utf8Encodable row.audio && utf8Encodable row.text && utf8Encodable row.speakerId &&
    utf8Encodable row.sourceFile

/-- The texts of a review row can be written as UTF-8. -/
def ReviewRow.encodable (row : ReviewRow F) : Bool :=
  utf8Encodable row.sourceFile && utf8Encodable row.text && row.audio.all utf8Encodable

/-- `build_raw_manifest`. -/
def buildRawManifest (dir : SourceDir) (before : Outputs S F) :
    Except BuildError (Build S F) := do
  if dir.sourceFiles.isEmpty then throw .noSourceAudio
  let built ←
    (processSources ops env layout cfg { out := before } dir.sourceFiles).mapError .foreign
  if ¬(built.manifestRows.all ManifestRow.encodable ∧ built.reviewRows.all ReviewRow.encodable) then
    throw (.foreign .unicodeError)
  return built

/-- The pair it returns: the numbers of accepted and of skipped utterances. -/
def Build.counts (built : Build S F) : Nat × Nat :=
  ((built.reviewRows.filter fun r => r.status = .accepted).length,
    (built.reviewRows.filter fun r => r.status ≠ .accepted).length)

/-! ## what a run adds -/

/-- The accepted ones of the utterances, with their indices. -/
def acceptedFrom : Nat → List (Except Foreign (Utterance F)) → List (Nat × Segment F)
  | _, [] => []
  | i, .error _ :: utts => acceptedFrom (i + 1) utts
  | i, .ok utt :: utts =>
      if (segmentOf ops cfg utt).status ops cfg = .accepted then
        (i, segmentOf ops cfg utt) :: acceptedFrom (i + 1) utts
      else acceptedFrom (i + 1) utts

/-- The accepted utterances of a transcription. -/
def acceptedOf : Transcript F → List (Nat × Segment F)
  | .ok utts => acceptedFrom ops cfg 1 utts
  | .error _ => []

/-- The manifest row of an accepted utterance. -/
def rowOf (name : PyStr) (u : Nat × Segment F) : ManifestRow F where
  audio := PurePath.str { root := 0, parts := [py "audio", clipName (fileStem name) u.1] }
  text := u.2.text
  duration := ops.round3 u.2.duration
  speakerId := layout.voiceId
  sourceFile := name

/-- The review row of an utterance, before its clip. -/
def reviewOf (name : PyStr) (u : Nat × Segment F) : ReviewRow F where
  sourceFile := name
  utteranceIndex := u.1
  start := ops.round3 u.2.start
  stop := ops.round3 u.2.stop
  duration := ops.round3 u.2.duration
  text := u.2.text
  status := u.2.status ops cfg

/-- The clip of an accepted utterance, and the job that writes it. -/
def clipJob (source : Except Foreign (Wav S)) (name : PyStr) (u : Nat × Segment F) :
    PurePath × Except Foreign (Option (Wav S)) :=
  (layout.audioDir.child (clipName (fileStem name) u.1), writeClip ops source u.2.start u.2.stop)

/-- The rows and the clips a part of the run adds. -/
structure Adds (st st' : Build S F) (rows : List (ManifestRow F))
    (clips : List (PurePath × Except Foreign (Option (Wav S)))) : Prop where
  rows : st'.manifestRows = st.manifestRows ++ rows
  clips : Filled st.out.audio clips st'.out.audio

end transcribe

section run

variable {S F : Type} {ops : FloatOps F} {env : Services S F} {layout : ProjectLayout}
  {cfg : TranscribeConfig F} {st st₁ st' : Build S F} {name : PyStr} {i : Nat}

theorem Adds.nil : Adds st st [] [] := ⟨by simp, .nil _⟩

theorem Adds.append {rows rows' : List (ManifestRow F)}
    {clips clips' : List (PurePath × Except Foreign (Option (Wav S)))}
    (h : Adds st st₁ rows clips) (h' : Adds st₁ st' rows' clips') :
    Adds st st' (rows ++ rows') (clips ++ clips') :=
  ⟨by rw [h'.rows, h.rows, List.append_assoc], h.clips.append h'.clips⟩

/-- A clip's path in the manifest. -/
theorem relativeTo_clip (clip : PyStr) :
    (layout.audioDir.child clip).relativeTo layout.projectDir =
      .ok { root := 0, parts := [py "audio", clip] } := by
  unfold PurePath.relativeTo ProjectLayout.audioDir
  simp [PurePath.child]

/-- What one utterance does: it is skipped, or it is accepted, and its clip's name is
filled. -/
theorem processUtterance_cases {utt : Except Foreign (Utterance F)}
    (h : processUtterance ops layout cfg name st i utt = .ok st') :
    ∃ u seg, utt = .ok u ∧ seg = segmentOf ops cfg u ∧
      ((seg.status ops cfg ≠ .accepted ∧
        st' = { st with reviewRows := st.reviewRows ++ [reviewOf ops cfg name (i, seg)] }) ∨
      seg.status ops cfg = .accepted ∧ ∃ audio,
        fill st.out.audio (layout.audioDir.child (clipName (fileStem name) i))
          (writeClip ops (readFile st.out.sourceAudio (layout.sourceWav (fileStem name)))
            seg.start seg.stop) = .ok audio ∧
        st' =
          { out := { st.out with audio }
            manifestRows := st.manifestRows ++ [rowOf ops layout name (i, seg)]
            reviewRows := st.reviewRows ++ [{ reviewOf ops cfg name (i, seg) with
              audio := some (rowOf ops layout name (i, seg)).audio }] }) := by
  cases utt with
  | error e => cases h
  | ok u =>
      simp only [processUtterance, relativeTo_clip, bind, Except.bind] at h
      refine ⟨u, _, rfl, rfl, ?_⟩
      by_cases hstatus : (segmentOf ops cfg u).status ops cfg = .accepted
      · rw [if_pos hstatus] at h
        cases hfill : fill st.out.audio (layout.audioDir.child (clipName (fileStem name) i))
            (writeClip ops (readFile st.out.sourceAudio (layout.sourceWav (fileStem name)))
              (segmentOf ops cfg u).start (segmentOf ops cfg u).stop) with
        | error e => simp [hfill] at h
        | ok audio =>
            rw [hfill] at h
            exact .inr ⟨hstatus, audio, rfl, (Except.ok.inj h).symm⟩
      · rw [if_neg hstatus] at h
        exact .inl ⟨hstatus, (Except.ok.inj h).symm⟩

/-- One utterance adds its row and its clip, if it is accepted. -/
theorem processUtterance_eq_ok {utt : Except Foreign (Utterance F)}
    (h : processUtterance ops layout cfg name st i utt = .ok st') :
    st'.out.sourceAudio = st.out.sourceAudio ∧ st'.out.deepgram = st.out.deepgram ∧
      Adds st st' ((acceptedFrom ops cfg i [utt]).map (rowOf ops layout name))
        ((acceptedFrom ops cfg i [utt]).map
          (clipJob ops layout (readFile st.out.sourceAudio (layout.sourceWav (fileStem name)))
            name)) := by
  obtain ⟨u, seg, rfl, rfl, hcase⟩ := processUtterance_cases h
  obtain ⟨hstatus, rfl⟩ | ⟨hstatus, audio, hfill, rfl⟩ := hcase
  · refine ⟨rfl, rfl, ?_⟩
    simp only [acceptedFrom, if_neg hstatus, List.map_nil]
    exact ⟨by simp, .nil _⟩
  · refine ⟨rfl, rfl, ?_⟩
    simp only [acceptedFrom, if_pos hstatus, List.map_cons, List.map_nil]
    exact ⟨rfl, .cons hfill (.nil _)⟩

theorem acceptedFrom_cons (utt : Except Foreign (Utterance F))
    (utts : List (Except Foreign (Utterance F))) :
    acceptedFrom ops cfg i (utt :: utts) =
      acceptedFrom ops cfg i [utt] ++ acceptedFrom ops cfg (i + 1) utts := by
  cases utt with
  | error e => simp [acceptedFrom]
  | ok utt =>
      simp only [acceptedFrom]
      split <;> simp

theorem processUtterances_eq_ok {utts : List (Except Foreign (Utterance F))}
    (h : processUtterances ops layout cfg name st i utts = .ok st') :
    st'.out.sourceAudio = st.out.sourceAudio ∧ st'.out.deepgram = st.out.deepgram ∧
      Adds st st' ((acceptedFrom ops cfg i utts).map (rowOf ops layout name))
        ((acceptedFrom ops cfg i utts).map
          (clipJob ops layout (readFile st.out.sourceAudio (layout.sourceWav (fileStem name)))
            name)) := by
  induction utts generalizing st i with
  | nil =>
      cases h
      exact ⟨rfl, rfl, .nil⟩
  | cons utt utts ih =>
      rw [processUtterances] at h
      cases hone : processUtterance ops layout cfg name st i utt with
      | error e => simp [hone, bind, Except.bind] at h
      | ok st₁ =>
          rw [hone] at h
          obtain ⟨hwavs, hcaches, hadds⟩ := processUtterance_eq_ok hone
          obtain ⟨hwavs', hcaches', hadds'⟩ := ih h
          rw [hwavs] at hwavs' hadds'
          refine ⟨hwavs', hcaches'.trans hcaches, ?_⟩
          rw [acceptedFrom_cons, List.map_append, List.map_append]
          exact hadds.append hadds'

variable (ops cfg layout) in
/-- The accepted utterances of a source, by the transcript in these files. -/
def acceptedIn (out : Outputs S F) (name : PyStr) : List (Nat × Segment F) :=
  acceptedOf ops cfg (readFile out.deepgram (layout.transcriptCache (fileStem name)))

variable (ops env layout cfg) in
/-- What a run over these sources does; its rows and clips are told from the files it
leaves. -/
structure Ran (st : Build S F) (names : List PyStr) (st' : Build S F) : Prop where
  sourceAudio : Filled st.out.sourceAudio
    (names.map fun n => (layout.sourceWav (fileStem n), (env.ffmpeg n).map some))
    st'.out.sourceAudio
  deepgram : Filled st.out.deepgram
    (names.map fun n => (layout.transcriptCache (fileStem n), (env.deepgram n).map some))
    st'.out.deepgram
  adds : Adds st st'
    (names.flatMap fun n => (acceptedIn ops layout cfg st'.out n).map (rowOf ops layout n))
    (names.flatMap fun n => (acceptedIn ops layout cfg st'.out n).map
      (clipJob ops layout (readFile st'.out.sourceAudio (layout.sourceWav (fileStem n))) n))

/-- A file that is there is read the same at the end. -/
theorem readFile_keeps {α ε : Type} {files files' : ReuseMap PurePath (Except Foreign α)}
    {jobs : List (PurePath × Except ε (Option (Except Foreign α)))} {p : PurePath}
    (h : Filled files jobs files') (htaken : files p ≠ none) :
    readFile files' p = readFile files p := by
  obtain ⟨file, hfile⟩ := Option.ne_none_iff_exists'.1 htaken
  simp only [readFile, hfile, h.keeps hfile]

/-- One source: the loop over its utterances starts with both files there. -/
theorem processSource_utterances (h : processSource ops env layout cfg st name = .ok st') :
    ∃ sourceAudio deepgram utterances,
      fill st.out.sourceAudio (layout.sourceWav (fileStem name)) ((env.ffmpeg name).map some) =
        .ok sourceAudio ∧
      fill st.out.deepgram (layout.transcriptCache (fileStem name)) ((env.deepgram name).map some) =
        .ok deepgram ∧
      readFile deepgram (layout.transcriptCache (fileStem name)) = .ok utterances ∧
      processUtterances ops layout cfg name
        { st with out := { st.out with sourceAudio, deepgram } } 1 utterances = .ok st' := by
  unfold processSource at h
  cases hwav : fill st.out.sourceAudio (layout.sourceWav (fileStem name))
      ((env.ffmpeg name).map some) with
  | error e => simp [hwav, bind, Except.bind] at h
  | ok wavs =>
      cases hcache : fill st.out.deepgram (layout.transcriptCache (fileStem name))
          ((env.deepgram name).map some) with
      | error e => simp [hwav, hcache, bind, Except.bind] at h
      | ok caches =>
          cases hread : readFile caches (layout.transcriptCache (fileStem name)) with
          | error e => simp [hwav, hcache, hread, bind, Except.bind] at h
          | ok utts =>
              simp only [hwav, hcache, hread, bind, Except.bind] at h
              exact ⟨wavs, caches, utts, rfl, rfl, hread, h⟩

/-- What one source does. -/
theorem processSource_eq_ok (h : processSource ops env layout cfg st name = .ok st') :
    Ran ops env layout cfg st [name] st' ∧
      st'.out.sourceAudio (layout.sourceWav (fileStem name)) ≠ none ∧
        st'.out.deepgram (layout.transcriptCache (fileStem name)) ≠ none := by
  obtain ⟨wavs, caches, utts, hwav, hcache, hread, hutts⟩ := processSource_utterances h
  obtain ⟨hwavs, hcaches, hadds⟩ := processUtterances_eq_ok hutts
  obtain ⟨w, hw, -⟩ := fill_some hwav
  obtain ⟨dg, hdg, -⟩ := fill_some hcache
  have haccepted : acceptedIn ops layout cfg st'.out name = acceptedFrom ops cfg 1 utts := by
    rw [acceptedIn, hcaches, hread, acceptedOf]
  refine ⟨⟨?_, ?_, ?_, ?_⟩, ?_, ?_⟩
  · rw [hwavs]
    exact .cons hwav (.nil _)
  · rw [hcaches]
    exact .cons hcache (.nil _)
  · simpa [haccepted] using hadds.rows
  · simpa [haccepted, hwavs] using hadds.clips
  · simp [hwavs, hw]
  · simp [hcaches, hdg]

/-- **What a run does.** -/
theorem processSources_eq_ok {names : List PyStr}
    (h : processSources ops env layout cfg st names = .ok st') :
    Ran ops env layout cfg st names st' := by
  induction names generalizing st with
  | nil =>
      cases h
      exact ⟨.nil _, .nil _, .nil⟩
  | cons name names ih =>
      rw [processSources] at h
      cases hone : processSource ops env layout cfg st name with
      | error e => simp [hone, bind, Except.bind] at h
      | ok st₁ =>
          rw [hone] at h
          obtain ⟨hran, hwav, hcache⟩ := processSource_eq_ok hone
          have hrest := ih h
          have hwav' := readFile_keeps hrest.sourceAudio hwav
          have haccepted : acceptedIn ops layout cfg st'.out name =
              acceptedIn ops layout cfg st₁.out name := by
            rw [acceptedIn, acceptedIn, readFile_keeps hrest.deepgram hcache]
          refine ⟨hran.sourceAudio.append hrest.sourceAudio,
            hran.deepgram.append hrest.deepgram, ?_⟩
          simp only [List.flatMap_cons]
          rw [haccepted, hwav']
          refine Adds.append ?_ hrest.adds
          simpa using hran.adds

/-! ## accepted utterances -/

theorem mem_acceptedFrom {utts : List (Except Foreign (Utterance F))} {u : Nat × Segment F}
    (h : u ∈ acceptedFrom ops cfg i utts) :
    ∃ k utt, u = (i + k, segmentOf ops cfg utt) ∧ utts[k]? = some (.ok utt) := by
  induction utts generalizing i with
  | nil => cases h
  | cons utt utts ih =>
      have hlater : u ∈ acceptedFrom ops cfg (i + 1) utts → ∃ k utt',
          u = (i + k, segmentOf ops cfg utt') ∧ (utt :: utts)[k]? = some (.ok utt') := by
        intro hmem
        obtain ⟨k, utt', heq, hget⟩ := ih hmem
        refine ⟨k + 1, utt', ?_, by simpa using hget⟩
        rw [heq]
        congr 1
        omega
      cases utt with
      | error e => exact hlater h
      | ok utt =>
          rw [acceptedFrom] at h
          split at h
          · obtain h | h := List.mem_cons.1 h
            · exact ⟨0, utt, by simpa using h, rfl⟩
            · exact hlater h
          · exact hlater h

theorem nodup_acceptedFrom (utts : List (Except Foreign (Utterance F))) :
    ((acceptedFrom ops cfg i utts).map Prod.fst).Nodup := by
  induction utts generalizing i with
  | nil => exact List.nodup_nil
  | cons utt utts ih =>
      cases utt with
      | error e => exact ih
      | ok utt =>
          rw [acceptedFrom]
          split
          · refine List.nodup_cons.2 ⟨?_, ih⟩
            intro hmem
            obtain ⟨u, hu, heq⟩ := List.mem_map.1 hmem
            obtain ⟨k, utt', hu', -⟩ := mem_acceptedFrom hu
            rw [hu'] at heq
            simp only at heq
            omega
          · exact ih

theorem nodup_acceptedOf (dg : Transcript F) : ((acceptedOf ops cfg dg).map Prod.fst).Nodup := by
  cases dg with
  | error e => exact List.nodup_nil
  | ok utts => exact nodup_acceptedFrom utts

/-- Names made from a stem and an index are distinct exactly if no two sources share a
stem with indices. -/
theorem nodup_named {K : Type} {key : PyStr → Nat → K} {names : List PyStr}
    {indices : PyStr → List Nat} (hkey : ∀ s t i j, key s i = key t j → s = t ∧ i = j)
    (hnames : names.Nodup)
    (hindices : ∀ s, (indices s).Nodup) :
    (names.flatMap fun n => (indices (fileStem n)).map (key (fileStem n))).Nodup ↔
      ∀ a ∈ names, ∀ b ∈ names, a ≠ b → fileStem a = fileStem b → indices (fileStem a) = [] := by
  have heach : ∀ n ∈ names, ((indices (fileStem n)).map (key (fileStem n))).Nodup := by
    intro n _
    exact (hindices _).map fun i j h => (hkey _ _ _ _ h).2
  rw [List.nodup_flatMap]
  constructor
  · intro h a ha b hb hne hstem
    have hsymm : Std.Symm (Function.onFun List.Disjoint fun n =>
        (indices (fileStem n)).map (key (fileStem n))) := ⟨fun _ _ h => h.symm⟩
    have hdisjoint : List.Disjoint _ _ := h.2.forall ha hb hne
    simp only [← hstem] at hdisjoint
    refine List.eq_nil_iff_forall_not_mem.2 ?_
    intro i hi
    exact hdisjoint (List.mem_map_of_mem hi) (List.mem_map_of_mem hi)
  · intro h
    refine ⟨heach, hnames.pairwise_of_forall_ne ?_⟩
    intro a ha b hb hne x hx hy
    obtain ⟨i, hi, rfl⟩ := List.mem_map.1 hx
    obtain ⟨j, -, heq⟩ := List.mem_map.1 hy
    obtain ⟨hstem, -⟩ := hkey _ _ _ _ heq
    rw [h a ha b hb hne hstem.symm] at hi
    cases hi

/-! ## what is made for a stem -/

/-- The file of a stem: the one that is there, or what is made for the first of the
sources with the stem. -/
def firstMade {α : Type} (files : ReuseMap PurePath (Except Foreign α)) (path : PyStr → PurePath)
    (make : PyStr → Except Foreign (Except Foreign α)) (names : List PyStr) (stem : PyStr) :
    Except Foreign α :=
  (files (path stem)).getD
    (match names.find? fun n => fileStem n = stem with
    | some n => (make n).bind id
    | none => .error (.fileNotFound "No such file or directory"))

theorem readFile_filled {α : Type} {files files' : ReuseMap PurePath (Except Foreign α)}
    {path : PyStr → PurePath} {make : PyStr → Except Foreign (Except Foreign α)}
    {names : List PyStr} (hpath : ∀ s t, path s = path t → s = t)
    (h : Filled files (names.map fun n => (path (fileStem n), (make n).map some)) files')
    (hn : name ∈ names) :
    readFile files' (path (fileStem name)) = firstMade files path make names (fileStem name) := by
  unfold firstMade
  cases hfile : files (path (fileStem name)) with
  | some file => simp [readFile, h.keeps hfile]
  | none =>
      have hsame : ∀ n, path (fileStem n) = path (fileStem name) ↔ fileStem n = fileStem name := by
        intro n
        exact ⟨hpath _ _, congrArg path⟩
      cases hfirst : names.find? fun n => fileStem n = fileStem name with
      | none => simpa using List.find?_eq_none.1 hfirst name hn
      | some n =>
          have hfind : (names.map fun n => (path (fileStem n), (make n).map some)).find?
              (fun j => j.1 = path (fileStem name)) =
                some (path (fileStem n), (make n).map some) := by
            rw [List.find?_map]
            simp only [Function.comp_def, hsame, hfirst, Option.map_some]
          obtain ⟨r, hmake, hstay⟩ := h.first hfile hfind
          cases hn' : make n with
          | error e =>
              rw [hn'] at hmake
              cases hmake
          | ok file =>
              rw [hn'] at hmake
              cases hmake
              simp [readFile, hstay file rfl, hn', Except.bind]

/-- When no other source has the stem, what is made is made for the source itself. -/
theorem firstMade_alone {α : Type} {files : ReuseMap PurePath (Except Foreign α)}
    {path : PyStr → PurePath} {make : PyStr → Except Foreign (Except Foreign α)}
    {names : List PyStr} {a : α} (hfree : files (path (fileStem name)) = none) (hn : name ∈ names)
    (halone : ∀ n ∈ names, fileStem n = fileStem name → n = name)
    (h : firstMade files path make names (fileStem name) = .ok a) : make name = .ok (.ok a) := by
  have hfind : names.find? (fun n => fileStem n = fileStem name) = some name := by
    cases hfirst : names.find? fun n => fileStem n = fileStem name with
    | none => simpa using List.find?_eq_none.1 hfirst name hn
    | some n =>
        have hstem : fileStem n = fileStem name := by simpa using List.find?_some hfirst
        rw [halone n (List.mem_of_find?_eq_some hfirst) hstem]
  rw [firstMade, hfree, hfind, Option.getD_none] at h
  cases hmake : make name with
  | error e => simp [hmake, Except.bind] at h
  | ok file =>
      simp only [hmake, Except.bind, id] at h
      rw [h]

/-! ## the paths of the clips -/

theorem child_injective {p : PurePath} {a b : PyStr} (h : p.child a = p.child b) : a = b := by
  simpa [PurePath.child] using h

/-- A clip's name is a file name. -/
theorem isComponent_clipName (h : isComponent name = true) :
    isComponent (clipName (fileStem name) i) = true := by
  have hslash : 0x2F ∉ name := (PurePath.isComponent_iff.1 h).2.2
  have hlong : 1 < (clipName (fileStem name) i).length := by
    simp [clipName, py]
    omega
  refine PurePath.isComponent_iff.2 ⟨?_, ?_, ?_⟩
  · intro hnil
    simp [hnil] at hlong
  · intro hdot
    simp [hdot] at hlong
  intro hmem
  simp only [clipName, List.mem_append, fileStem] at hmem
  obtain ((hmem | hmem) | hmem) | hmem := hmem
  · exact hslash (List.mem_of_mem_take hmem)
  · simp [py] at hmem
  · have := mem_pad4 hmem
    omega
  · simp [py] at hmem

/-- The manifest's path leads to the clip. -/
theorem join_audio (h : isComponent name = true) (u : Nat × Segment F) :
    layout.projectDir.join (.ofStr (rowOf ops layout name u).audio) =
      layout.audioDir.child (clipName (fileStem name) u.1) := by
  have hnormal : PurePath.Normal
      { root := 0, parts := [py "audio", clipName (fileStem name) u.1] } := by
    refine ⟨Nat.zero_le _, ?_⟩
    intro x hx
    simp only [List.mem_cons, List.not_mem_nil, or_false] at hx
    obtain rfl | rfl := hx
    · decide
    · exact isComponent_clipName h
  rw [rowOf, PurePath.ofStr_str hnormal]
  simp [PurePath.join, ProjectLayout.audioDir, PurePath.child]

theorem mem_sourceFiles {dir : SourceDir} (h : name ∈ dir.sourceFiles) :
    isComponent name = true := by
  refine dir.component name ?_
  exact (List.mem_filter.1 ((List.perm_insertionSort _ _).mem_iff.1 h)).1

theorem nodup_sourceFiles (dir : SourceDir) : dir.sourceFiles.Nodup :=
  (List.perm_insertionSort _ _).nodup_iff.2 (dir.distinct.filter _)

/-! ## clips and utterances -/

variable (ops env layout cfg) in
/-- The row is that of an utterance of its own source, and its clip is cut from that
source at the utterance's times. -/
def OwnClip (out : Outputs S F) (row : ManifestRow F) : Prop :=
  ∃ utts k utt wav startFrame endFrame, env.deepgram row.sourceFile = .ok (.ok utts) ∧
    utts[k]? = some (.ok utt) ∧
    row = rowOf ops layout row.sourceFile (k + 1, segmentOf ops cfg utt) ∧
    env.ffmpeg row.sourceFile = .ok (.ok wav) ∧
    framesOf ops wav (segmentOf ops cfg utt).start (segmentOf ops cfg utt).stop =
      .ok (startFrame, endFrame) ∧
    out.audio (layout.projectDir.join (.ofStr row.audio)) = some (wav.slice startFrame endFrame)

variable (ops env layout cfg) in
/-- Accepted utterances have distinct clips, and with directories that start empty each
row's clip is its own. -/
structure ClipsBelong (before : Outputs S F) (built : Build S F) : Prop where
  distinct : (built.manifestRows.map ManifestRow.audio).Nodup
  own : before = Outputs.empty S F →
    ∀ row ∈ built.manifestRows, OwnClip ops env layout cfg built.out row

variable (ops env layout cfg) in
/-- The accepted utterances of the transcript that is used for a stem. -/
def heard (before : Outputs S F) (dir : SourceDir) (stem : PyStr) : List (Nat × Segment F) :=
  acceptedOf ops cfg
    (firstMade before.deepgram layout.transcriptCache env.deepgram dir.sourceFiles stem)

variable (env layout) in
/-- The WAV that is used for a stem. -/
def wavFor (before : Outputs S F) (dir : SourceDir) (stem : PyStr) : Except Foreign (Wav S) :=
  firstMade before.sourceAudio layout.sourceWav env.ffmpeg dir.sourceFiles stem

variable (ops env layout cfg) in
/-- No two sources share a stem with accepted utterances. -/
def Unshared (before : Outputs S F) (dir : SourceDir) : Prop :=
  ∀ a ∈ dir.sourceFiles, ∀ b ∈ dir.sourceFiles, a ≠ b → fileStem a = fileStem b →
    heard ops env layout cfg before dir (fileStem a) = []

variable (ops env layout cfg) in
/-- Every accepted utterance has frames in its source's WAV. -/
def Audible (before : Outputs S F) (dir : SourceDir) : Prop :=
  ∀ n ∈ dir.sourceFiles, ∀ u ∈ heard ops env layout cfg before dir (fileStem n),
    ∃ wav startFrame endFrame, wavFor env layout before dir (fileStem n) = .ok wav ∧
      framesOf ops wav u.2.start u.2.stop = .ok (startFrame, endFrame) ∧ startFrame < endFrame

variable {before : Outputs S F} {dir : SourceDir} {built : Build S F}

theorem processSources_of_build (h : buildRawManifest ops env layout cfg dir before = .ok built) :
    processSources ops env layout cfg { out := before } dir.sourceFiles = .ok built := by
  unfold buildRawManifest at h
  cases hrun : processSources ops env layout cfg { out := before } dir.sourceFiles with
  | error e =>
      simp only [hrun, Except.mapError, bind, Except.bind, throw, throwThe, MonadExceptOf.throw]
        at h
      split at h <;> simp at h
  | ok st =>
      simp only [hrun, Except.mapError, bind, Except.bind, throw, throwThe, MonadExceptOf.throw,
        pure, Except.pure] at h
      split at h
      · cases h
      · split at h
        · cases h
        · rw [Except.ok.inj h]

/-- The manifest and the clips of a build, told from what is used for the stems. -/
theorem build_adds (h : buildRawManifest ops env layout cfg dir before = .ok built) :
    Adds { out := before } built
      (dir.sourceFiles.flatMap fun n =>
        (heard ops env layout cfg before dir (fileStem n)).map (rowOf ops layout n))
      (dir.sourceFiles.flatMap fun n =>
        (heard ops env layout cfg before dir (fileStem n)).map
          (clipJob ops layout (wavFor env layout before dir (fileStem n)) n)) := by
  have hran := processSources_eq_ok (processSources_of_build h)
  have hcache : ∀ s t, layout.transcriptCache s = layout.transcriptCache t → s = t := by
    intro s t heq
    exact List.append_cancel_right (child_injective heq)
  have hwav : ∀ s t, layout.sourceWav s = layout.sourceWav t → s = t := by
    intro s t heq
    exact List.append_cancel_right (child_injective heq)
  have hheard : ∀ n ∈ dir.sourceFiles, acceptedIn ops layout cfg built.out n =
      heard ops env layout cfg before dir (fileStem n) := by
    intro n hn
    rw [acceptedIn, heard, readFile_filled hcache hran.deepgram hn]
  have hsource : ∀ n ∈ dir.sourceFiles,
      readFile built.out.sourceAudio (layout.sourceWav (fileStem n)) =
        wavFor env layout before dir (fileStem n) := by
    intro n hn
    rw [wavFor, readFile_filled hwav hran.sourceAudio hn]
  refine ⟨?_, ?_⟩
  · rw [hran.adds.rows]
    congr 1
    exact List.flatMap_congr fun n hn => by rw [hheard n hn]
  · have hclips := hran.adds.clips
    rwa [List.flatMap_congr fun n hn => by rw [hheard n hn, hsource n hn]] at hclips

/-- Names made of the accepted utterances are distinct exactly if no stem is shared. -/
theorem nodup_heard {K : Type} {key : PyStr → Nat → K}
    (hkey : ∀ s t i j, key s i = key t j → s = t ∧ i = j) :
    (dir.sourceFiles.flatMap fun n =>
      ((heard ops env layout cfg before dir (fileStem n)).map Prod.fst).map
        (key (fileStem n))).Nodup ↔ Unshared ops env layout cfg before dir := by
  have hindices : ∀ s, ((heard ops env layout cfg before dir s).map Prod.fst).Nodup := by
    intro s
    exact nodup_acceptedOf _
  rw [nodup_named hkey (nodup_sourceFiles dir) hindices]
  simp [Unshared]

/-- The clips have distinct paths exactly if no stem is shared. -/
theorem distinct_iff (h : buildRawManifest ops env layout cfg dir before = .ok built) :
    (built.manifestRows.map ManifestRow.audio).Nodup ↔ Unshared ops env layout cfg before dir := by
  have hrows := (build_adds h).rows
  rw [List.nil_append] at hrows
  have hnames : built.manifestRows.map ManifestRow.audio = dir.sourceFiles.flatMap fun n =>
      ((heard ops env layout cfg before dir (fileStem n)).map Prod.fst).map fun i =>
        PurePath.str { root := 0, parts := [py "audio", clipName (fileStem n) i] } := by
    rw [hrows, List.map_flatMap]
    refine List.flatMap_congr ?_
    intro n _
    simp [rowOf, Function.comp_def]
  have hkey : ∀ s t i j, PurePath.str { root := 0, parts := [py "audio", clipName s i] } =
      PurePath.str { root := 0, parts := [py "audio", clipName t j] } → s = t ∧ i = j := by
    intro s t i j heq
    refine clipName_injective ?_
    simpa [PurePath.str, joinWith] using heq
  rw [hnames, nodup_heard hkey]

/-- With distinct paths, every accepted utterance's job is the one that wrote its clip. -/
theorem clip_of_unshared (h : buildRawManifest ops env layout cfg dir before = .ok built)
    (hunshared : Unshared ops env layout cfg before dir) (hfree : before.audio = fun _ => none)
    (hn : name ∈ dir.sourceFiles) {u : Nat × Segment F}
    (hu : u ∈ heard ops env layout cfg before dir (fileStem name)) :
    writeClip ops (wavFor env layout before dir (fileStem name)) u.2.start u.2.stop =
      .ok (built.out.audio (layout.audioDir.child (clipName (fileStem name) u.1))) := by
  have hclips := (build_adds h).clips
  refine hclips.unique ?_ (List.mem_flatMap.2 ⟨name, hn, List.mem_map.2 ⟨u, hu, rfl⟩⟩) ?_
  · have hnames : (dir.sourceFiles.flatMap fun n =>
        (heard ops env layout cfg before dir (fileStem n)).map
          (clipJob ops layout (wavFor env layout before dir (fileStem n)) n)).map Prod.fst =
        dir.sourceFiles.flatMap fun n =>
          ((heard ops env layout cfg before dir (fileStem n)).map Prod.fst).map fun i =>
            layout.audioDir.child (clipName (fileStem n) i) := by
      rw [List.map_flatMap]
      refine List.flatMap_congr ?_
      intro n _
      simp [clipJob, Function.comp_def]
    have hkey : ∀ s t i j, layout.audioDir.child (clipName s i) =
        layout.audioDir.child (clipName t j) → s = t ∧ i = j := by
      intro s t i j heq
      exact clipName_injective (child_injective heq)
    rw [hnames, nodup_heard hkey]
    exact hunshared
  · simp [hfree]

/-- A clip is written where there are frames. -/
theorem writeClip_eq_some {source : Except Foreign (Wav S)} {start stop : F} {clip : Wav S} :
    writeClip ops source start stop = .ok (some clip) ↔
      ∃ wav startFrame endFrame, source = .ok wav ∧
        framesOf ops wav start stop = .ok (startFrame, endFrame) ∧ startFrame < endFrame ∧
          clip = wav.slice startFrame endFrame := by
  cases source with
  | error e => simp [writeClip, bind, Except.bind]
  | ok wav =>
      cases hframes : framesOf ops wav start stop with
      | error e => simp [writeClip, hframes, bind, Except.bind]
      | ok frames =>
          obtain ⟨startFrame, endFrame⟩ := frames
          have hwrite : writeClip ops (.ok wav) start stop =
              .ok (if startFrame < endFrame then some (wav.slice startFrame endFrame)
                else none) := by
            simp only [writeClip, bind, Except.bind]
            rw [hframes]
            rfl
          rw [hwrite]
          simp only [Except.ok.injEq, Option.ite_none_right_eq_some, Option.some.injEq]
          constructor
          · intro hclip
            exact ⟨wav, startFrame, endFrame, rfl, hframes, hclip.1, hclip.2.symm⟩
          · intro hclip
            obtain ⟨wav', s, e, hwav, hframes', hlt, hclip⟩ := hclip
            cases hwav
            rw [hframes, Except.ok.injEq, Prod.mk.injEq] at hframes'
            obtain ⟨rfl, rfl⟩ := hframes'
            exact ⟨hlt, hclip.symm⟩

/-- **Clips belong to their utterances exactly if no two sources of one stem have an
accepted utterance, and each one has frames in its WAV.** -/
theorem clipsBelong_iff (h : buildRawManifest ops env layout cfg dir before = .ok built) :
    ClipsBelong ops env layout cfg before built ↔
      Unshared ops env layout cfg before dir ∧
        (before = Outputs.empty S F → Audible ops env layout cfg before dir) := by
  have hrows := (build_adds h).rows
  rw [List.nil_append] at hrows
  constructor
  · intro hbelong
    have hunshared := (distinct_iff h).1 hbelong.distinct
    refine ⟨hunshared, ?_⟩
    intro hempty n hn u hu
    have hwritten := clip_of_unshared h hunshared (by rw [hempty]; rfl) hn hu
    have hrow : rowOf ops layout n u ∈ built.manifestRows := by
      rw [hrows]
      exact List.mem_flatMap.2 ⟨n, hn, List.mem_map_of_mem hu⟩
    obtain ⟨_, _, _, _, _, _, _, _, _, _, _, hclip⟩ := hbelong.own hempty _ hrow
    rw [join_audio (mem_sourceFiles hn)] at hclip
    rw [hclip] at hwritten
    obtain ⟨wav, s, e, hwav, hframes, hlt, -⟩ := writeClip_eq_some.1 hwritten
    exact ⟨wav, s, e, hwav, hframes, hlt⟩
  · intro hcond
    obtain ⟨hunshared, haudible⟩ := hcond
    refine ⟨(distinct_iff h).2 hunshared, ?_⟩
    intro hempty row hrow
    rw [hrows] at hrow
    obtain ⟨n, hn, hrow⟩ := List.mem_flatMap.1 hrow
    obtain ⟨u, hu, rfl⟩ := List.mem_map.1 hrow
    have halone : ∀ m ∈ dir.sourceFiles, fileStem m = fileStem n → m = n := by
      intro m hm hstem
      by_contra hne
      rw [← hstem, hunshared m hm n hn hne hstem] at hu
      cases hu
    obtain ⟨wav, s, e, hwav, hframes, hlt⟩ := haudible hempty n hn u hu
    have hwritten := clip_of_unshared h hunshared (by rw [hempty]; rfl) hn hu
    have hslice := writeClip_eq_some.2 ⟨wav, s, e, hwav, hframes, hlt, rfl⟩
    rw [hwritten, Except.ok.injEq] at hslice
    -- the transcript is the source's own
    unfold heard acceptedOf at hu
    cases hdg : firstMade before.deepgram layout.transcriptCache env.deepgram dir.sourceFiles
        (fileStem n) with
    | error e =>
        rw [hdg] at hu
        cases hu
    | ok utts =>
        rw [hdg] at hu
        obtain ⟨k, utt, rfl, hutt⟩ := mem_acceptedFrom hu
        have hcache := firstMade_alone (by rw [hempty]; rfl) hn halone hdg
        have hffmpeg := firstMade_alone (by rw [hempty]; rfl) hn halone hwav
        refine ⟨utts, k, utt, wav, s, e, hcache, hutt, ?_, hffmpeg, hframes, ?_⟩
        · rw [Nat.add_comm k 1]
          rfl
        · rw [join_audio (mem_sourceFiles hn)]
          exact hslice

/-! ## the two files of rows -/

/-- The accepted review rows and the manifest rows tell the same. -/
def Level (st : Build S F) : Prop :=
  (st.reviewRows.filter fun r => r.status = .accepted).map
      (fun r => (r.audio, r.text, r.duration, r.sourceFile)) =
    st.manifestRows.map fun r => (some r.audio, r.text, r.duration, r.sourceFile)

theorem level_processUtterance {utt : Except Foreign (Utterance F)} (hlevel : Level st)
    (h : processUtterance ops layout cfg name st i utt = .ok st') : Level st' := by
  unfold Level at hlevel ⊢
  obtain ⟨u, seg, -, -, hcase⟩ := processUtterance_cases h
  obtain ⟨hstatus, rfl⟩ | ⟨hstatus, audio, -, rfl⟩ := hcase
  · simp [hlevel, reviewOf, hstatus]
  · simp [hlevel, reviewOf, rowOf, hstatus]

theorem level_processUtterances {utts : List (Except Foreign (Utterance F))} (hlevel : Level st)
    (h : processUtterances ops layout cfg name st i utts = .ok st') : Level st' := by
  induction utts generalizing st i with
  | nil =>
      cases h
      exact hlevel
  | cons utt utts ih =>
      rw [processUtterances] at h
      cases hone : processUtterance ops layout cfg name st i utt with
      | error e => simp [hone, bind, Except.bind] at h
      | ok st₁ =>
          rw [hone] at h
          exact ih (level_processUtterance hlevel hone) h

theorem level_processSources {names : List PyStr} (hlevel : Level st)
    (h : processSources ops env layout cfg st names = .ok st') : Level st' := by
  induction names generalizing st with
  | nil =>
      cases h
      exact hlevel
  | cons name names ih =>
      rw [processSources] at h
      cases hone : processSource ops env layout cfg st name with
      | error e => simp [hone, bind, Except.bind] at h
      | ok st₁ =>
          rw [hone] at h
          refine ih ?_ h
          obtain ⟨_, _, _, -, -, -, hutts⟩ := processSource_utterances hone
          refine level_processUtterances ?_ hutts
          exact hlevel

/-- The first of the returned numbers is the number of manifest rows. -/
theorem counts_accepted (h : buildRawManifest ops env layout cfg dir before = .ok built) :
    built.counts.1 = built.manifestRows.length := by
  have hstart : Level ({ out := before } : Build S F) := rfl
  have hlevel := congrArg List.length (level_processSources hstart (processSources_of_build h))
  rwa [List.length_map, List.length_map] at hlevel

end run

/-! ## two files of one stem -/

/-- The default numbers of `TranscribeConfig`. -/
def TranscribeConfig.standard : TranscribeConfig Rat where
  minSegmentSeconds := 1
  maxSegmentSeconds := 30
  padStartSeconds := 1 / 10
  padEndSeconds := 1 / 5

/-- Every source has three frames, one a second, and one word is said in the first two
seconds. -/
def demoServices : Services Nat Rat where
  ffmpeg name := .ok (.ok { samples := List.replicate 3 name.length, samplerate := 1 })
  deepgram _ := .ok (.ok [.ok { transcript := py "a", start := 0, stop := 2 }])

/-- A directory with two files of one stem. -/
def twoSources : SourceDir where
  names := [py "a.wav", py "a.webm"]
  distinct := by decide
  component := by decide

/-- The build of a directory, with empty output directories. -/
def demoBuild (dir : SourceDir) : Except BuildError (Build Nat Rat) :=
  buildRawManifest FloatOps.exact demoServices demoLayout .standard dir (.empty Nat Rat)

/-- A directory with two recordings and a file that is none. -/
def twoStems : SourceDir where
  names := [py "b.webm", py "notes.txt", py "a.wav"]
  distinct := by decide
  component := by decide

/-- The WAV of a source: eight frames of its own, one a second. -/
def pausedWav (name : PyStr) : Wav Nat where
  samples := (List.range 8).map (10 * name.length + ·)
  samplerate := 1

/-- In every source, a word is said in the first two seconds, a short one at the fourth,
and a third one in the fifth and sixth. -/
def pausedServices : Services Nat Rat where
  ffmpeg name := .ok (.ok (pausedWav name))
  deepgram _ := .ok (.ok [.ok { transcript := py "a", start := 0, stop := 2 },
    .ok { transcript := py "b", start := 3, stop := 7 / 2 },
    .ok { transcript := py "c", start := 4, stop := 6 }])

/-- The first and the last word, padded. -/
def pausedSegments : List (Nat × Segment Rat) :=
  [(1, { text := py "a", start := 0, stop := 11 / 5, duration := 11 / 5 }),
    (3, { text := py "c", start := 39 / 10, stop := 31 / 5, duration := 23 / 10 })]

/-- The build of the two recordings, with empty output directories. -/
def pausedBuild : Except BuildError (Build Nat Rat) :=
  buildRawManifest FloatOps.exact pausedServices demoLayout .standard twoStems (.empty Nat Rat)

/-- Each of two recordings has two clips of its own, and a short word none. -/
theorem clipsBelong_two : ∃ built, pausedBuild = .ok built ∧
    built.manifestRows.map ManifestRow.audio = [py "audio/a_0001.wav", py "audio/a_0003.wav",
      py "audio/b_0001.wav", py "audio/b_0003.wav"] ∧
    ClipsBelong FloatOps.exact pausedServices demoLayout .standard (.empty Nat Rat) built := by
  have hrows : pausedBuild.map (fun b => b.manifestRows.map ManifestRow.audio) =
      .ok [py "audio/a_0001.wav", py "audio/a_0003.wav", py "audio/b_0001.wav",
        py "audio/b_0003.wav"] := by
    with_unfolding_all rfl
  have hsources : twoStems.sourceFiles = [py "a.wav", py "b.webm"] := by decide
  have hheard : ∀ n ∈ twoStems.sourceFiles,
      heard FloatOps.exact pausedServices demoLayout .standard (.empty Nat Rat) twoStems
        (fileStem n) = pausedSegments := by
    rw [hsources, List.forall_mem_cons, List.forall_mem_singleton]
    exact ⟨by with_unfolding_all rfl, by with_unfolding_all rfl⟩
  have hframes : ∀ n ∈ twoStems.sourceFiles,
      framesOf FloatOps.exact (pausedWav n) 0 (11 / 5) = .ok (0, 2) ∧
        framesOf FloatOps.exact (pausedWav n) (39 / 10) (31 / 5) = .ok (3, 6) := by
    decide +kernel
  cases h : pausedBuild with
  | error e =>
      rw [h] at hrows
      cases hrows
  | ok built =>
      rw [h] at hrows
      refine ⟨built, rfl, Except.ok.inj hrows, (clipsBelong_iff h).2 ⟨?_, ?_⟩⟩
      · intro a ha b hb hne hstem
        have hstems : (twoStems.sourceFiles.map fileStem).Nodup := by
          rw [hsources]
          decide
        exact absurd (List.inj_on_of_nodup_map hstems ha hb hstem) hne
      · intro _ n hn u hu
        rw [hheard n hn] at hu
        have hwav : wavFor pausedServices demoLayout (.empty Nat Rat) twoStems (fileStem n) =
            .ok (pausedWav n) := by
          rw [hsources, List.mem_cons, List.mem_singleton] at hn
          obtain rfl | rfl := hn
          · with_unfolding_all rfl
          · with_unfolding_all rfl
        rw [hwav]
        obtain rfl | rfl := List.mem_pair.1 hu
        · exact ⟨pausedWav n, 0, 2, rfl, (hframes n hn).1, by decide⟩
        · exact ⟨pausedWav n, 3, 6, rfl, (hframes n hn).2, by decide⟩

/-- Two files of one stem get one clip. -/
theorem same_stem_shares_clip : ∃ built, demoBuild twoSources = .ok built ∧
    ¬ClipsBelong FloatOps.exact demoServices demoLayout .standard (.empty Nat Rat) built := by
  have hrows : (demoBuild twoSources).map (fun b => b.manifestRows.map ManifestRow.audio) =
      .ok [py "audio/a_0001.wav", py "audio/a_0001.wav"] := by
    with_unfolding_all rfl
  cases h : demoBuild twoSources with
  | error e =>
      rw [h] at hrows
      cases hrows
  | ok built =>
      rw [h] at hrows
      refine ⟨built, rfl, ?_⟩
      intro hbelong
      have hnames : built.manifestRows.map ManifestRow.audio =
          [py "audio/a_0001.wav", py "audio/a_0001.wav"] := Except.ok.inj hrows
      have hdistinct := hbelong.distinct
      rw [hnames] at hdistinct
      simp at hdistinct

end NeuroVoice
