import NeuroVoice.Py

/-!
# NeuroVoice.Eval.Runner

`eval/runner.py`: the rows of an evaluation.

A row is made on one of three paths: a metric returned, a metric crashed, or the
synthesis failed.  `mem_rows` and `mem_results` say what the rows and the metric
results of a run are, path by path.
-/

namespace NeuroVoice

/-- `direction`. -/
inductive Direction where
  | higher
  | lower
  deriving DecidableEq

/-- A `detail` dictionary. -/
abbrev Detail := List (PyStr × Json)

/-- `MetricResult`. -/
structure MetricResult (F : Type) where
  metricName : PyStr
  score : F
  direction : Direction
  detail : Option Detail := none

/-- `EvalRow`. -/
structure EvalRow (F : Type) where
  system : PyStr
  voiceId : PyStr
  modelId : PyStr
  sentenceIndex : Nat
  sentenceCategory : PyStr
  sentenceText : PyStr
  elapsedMs : Nat
  metricName : PyStr
  score : F
  direction : Direction
  detail : Option Detail

/-- `TestSentence`. -/
structure TestSentence where
  index : Nat
  category : PyStr
  text : PyStr

/-- What a row takes of a `SystemOutput`. -/
structure SystemOutput where
  modelId : PyStr
  elapsedMs : Nat

/-- An `Exception`: its type's name and its text. -/
structure PyException where
  typeName : PyStr
  message : PyStr

/-- `RunPlan`; a system and a metric are told by their names. -/
structure RunPlan where
  sentences : List TestSentence
  systems : List PyStr
  metrics : List PyStr
  voicesPerSystem : List (PyStr × List PyStr)

/-- A synthesis of a run: what is asked, and the numbers of the three loops. -/
structure Clip where
  system : PyStr
  voiceId : PyStr
  sentence : TestSentence
  place : Nat × Nat × Nat

/-- What happens in a run: the syntheses (a cached one included) and the metric calls
by their place, and what is done with rows and report. -/
structure EvalWorld (F : Type) where
  isNan : F → Bool
  /-- `float("nan")`. -/
  nan : F
  isNan_nan : isNan nan = true
  synth : Nat × Nat × Nat → Except PyException SystemOutput
  score : Nat × Nat × Nat → Nat → Except PyException (MetricResult F)
  /-- A row is dumped and written. -/
  writeRaw : EvalRow F → Except Foreign Unit
  /-- `f"{sum(scores) / len(scores):.3f}"`. -/
  mean3 : List F → PyStr
  /-- The report with this summary table is made and written. -/
  writeReport : PyStr → Except Foreign Unit

/-! ## the loops -/

namespace RunPlan

variable {F : Type} (plan : RunPlan) (w : EvalWorld F)

/-- `voices_per_system.get(system.name, [])`. -/
def voicesOf (system : PyStr) : List PyStr := (plan.voicesPerSystem.lookup system).getD []

/-- The loops over systems, voices and sentences. -/
def clips : List Clip :=
  plan.systems.zipIdx.flatMap fun (system, i) =>
    (plan.voicesOf system).zipIdx.flatMap fun (voiceId, j) =>
      plan.sentences.zipIdx.map fun (sentence, k) =>
        { system, voiceId, sentence, place := (i, j, k) }

/-- `_score`, for the metric of this number and name. -/
def scoreOne (clip : Clip) (metric : PyStr) (l : Nat) : MetricResult F :=
  match w.score clip.place l with
  | .ok result => result
  | .error e =>
      { metricName := metric, score := w.nan, direction := .lower
        detail := some [(py "error", .str e.typeName), (py "message", .str e.message)] }

/-- The row of a metric for a synthesis that failed. -/
def failedRow (clip : Clip) (e : PyException) (metric : PyStr) : EvalRow F where
  system := clip.system
  voiceId := clip.voiceId
  modelId := py "<synth_failed>"
  sentenceIndex := clip.sentence.index
  sentenceCategory := clip.sentence.category
  sentenceText := clip.sentence.text
  elapsedMs := 0
  metricName := metric
  score := w.nan
  direction := .lower
  detail := some [(py "error", .str e.typeName), (py "stage", .str (py "synthesize")),
    (py "message", .str e.message)]

/-- The row of a metric result. -/
def resultRow (clip : Clip) (out : SystemOutput) (result : MetricResult F) : EvalRow F where
  system := clip.system
  voiceId := clip.voiceId
  modelId := out.modelId
  sentenceIndex := clip.sentence.index
  sentenceCategory := clip.sentence.category
  sentenceText := clip.sentence.text
  elapsedMs := out.elapsedMs
  metricName := result.metricName
  score := result.score
  direction := result.direction
  detail := result.detail

/-- The metric results of a clip. -/
def resultsOf (clip : Clip) : List (MetricResult F) :=
  plan.metrics.zipIdx.map fun (metric, l) => scoreOne w clip metric l

/-- The rows of a clip. -/
def rowsOf (clip : Clip) : List (EvalRow F) :=
  match w.synth clip.place with
  | .error e => plan.metrics.map (failedRow w clip e)
  | .ok out => (plan.resultsOf w clip).map (resultRow clip out)

/-- The rows of a run. -/
def rows : List (EvalRow F) := plan.clips.flatMap (plan.rowsOf w)

/-- The metric results of a run. -/
def results : List (MetricResult F) :=
  plan.clips.flatMap fun clip =>
    match w.synth clip.place with
    | .error _ => []
    | .ok _ => plan.resultsOf w clip

/-! ## what they make -/

variable {plan w}

theorem mem_resultsOf {clip : Clip} {result : MetricResult F} :
    result ∈ plan.resultsOf w clip ↔
      ∃ l metric, plan.metrics[l]? = some metric ∧ result = scoreOne w clip metric l := by
  simp only [resultsOf, List.mem_map, Prod.exists, List.mem_zipIdx_iff_getElem?]
  constructor
  · intro h
    obtain ⟨metric, l, hget, rfl⟩ := h
    exact ⟨l, metric, hget, rfl⟩
  · intro h
    obtain ⟨l, metric, hget, rfl⟩ := h
    exact ⟨metric, l, hget, rfl⟩

/-- A metric result comes from a clip. -/
theorem mem_results {result : MetricResult F} :
    result ∈ plan.results w ↔ ∃ clip ∈ plan.clips, ∃ out, w.synth clip.place = .ok out ∧
      ∃ l metric, plan.metrics[l]? = some metric ∧ result = scoreOne w clip metric l := by
  simp only [results, List.mem_flatMap]
  refine exists_congr fun clip => and_congr_right fun _ => ?_
  cases w.synth clip.place with
  | error e => simp
  | ok out => simp [mem_resultsOf]

/-- A row comes from a failed synthesis or from a metric result. -/
theorem mem_rows {row : EvalRow F} :
    row ∈ plan.rows w ↔ ∃ clip ∈ plan.clips,
      (∃ e, w.synth clip.place = .error e ∧
        ∃ metric ∈ plan.metrics, row = failedRow w clip e metric) ∨
      ∃ out, w.synth clip.place = .ok out ∧ ∃ l metric, plan.metrics[l]? = some metric ∧
        row = resultRow clip out (scoreOne w clip metric l) := by
  simp only [rows, List.mem_flatMap]
  refine exists_congr fun clip => and_congr_right fun _ => ?_
  rw [rowsOf]
  cases w.synth clip.place with
  | error e => simp [eq_comm]
  | ok out =>
      simp only [List.mem_map, mem_resultsOf, reduceCtorEq, false_and, exists_false, false_or,
        Except.ok.injEq, exists_eq_left']
      constructor
      · intro h
        obtain ⟨result, ⟨l, metric, hget, rfl⟩, rfl⟩ := h
        exact ⟨l, metric, hget, rfl⟩
      · intro h
        obtain ⟨l, metric, hget, rfl⟩ := h
        exact ⟨_, ⟨l, metric, hget, rfl⟩, rfl⟩

/-- A clip has a row for each metric. -/
theorem exists_row {clip : Clip} (hclip : clip ∈ plan.clips) (hmetrics : plan.metrics ≠ []) :
    ∃ row ∈ plan.rows w, row.system = clip.system ∧ row.voiceId = clip.voiceId := by
  obtain ⟨metric, rest, hcons⟩ := List.exists_cons_of_ne_nil hmetrics
  cases hsynth : w.synth clip.place with
  | error e =>
      refine ⟨failedRow w clip e metric, ?_, rfl, rfl⟩
      exact mem_rows.2 ⟨clip, hclip, .inl ⟨e, hsynth, metric, by simp [hcons], rfl⟩⟩
  | ok out =>
      refine ⟨resultRow clip out (scoreOne w clip metric 0), ?_, rfl, rfl⟩
      exact mem_rows.2 ⟨clip, hclip, .inr ⟨out, hsynth, 0, metric, by simp [hcons], rfl⟩⟩

end RunPlan

end NeuroVoice
