import Mathlib.Data.List.Dedup
import Mathlib.Data.List.Sort
import NeuroVoice.Eval.Runner
import NeuroVoice.Lib.DefaultDict
import NeuroVoice.Wire

/-!
# NeuroVoice.Eval.Report

`eval/report.py`: the summary table of an evaluation.

The lines come from the map of the scores alone, and the arrows from a fixed name.
So the table accounts for every row exactly if every pair has a score, every result
is named as a metric of the plan, and only `whisper_wer` has the direction `lower`:
`accounts_iff`.
-/

namespace NeuroVoice

section report

variable {F : Type} (isNan : F → Bool)

/-! ## the aggregation -/

/-- Values by system, voice and metric. -/
abbrev MetricBuckets (V : Type) := DefaultDict PyStr (DefaultDict PyStr (DefaultDict PyStr V))

namespace MetricBuckets

variable {V : Type}

/-- `b[system][voice][metric] = f(…)`. -/
def update (b : MetricBuckets V) (system voice metric : PyStr) (default : V) (f : V → V) :
    MetricBuckets V :=
  DefaultDict.update b system .empty fun byVoice =>
    byVoice.update voice .empty fun byMetric => byMetric.update metric default f

/-- `b[system][voice].get(metric, default)`. -/
def get (b : MetricBuckets V) (system voice metric : PyStr) (default : V) : V :=
  ((DefaultDict.get b system .empty).get voice .empty).get metric default

/-- The voices of a system. -/
def voices (b : MetricBuckets V) (system : PyStr) : List PyStr :=
  (DefaultDict.get b system .empty).keys

end MetricBuckets

/-- What `_aggregate` returns. -/
structure Aggregate (F : Type) where
  scores : MetricBuckets (List F)
  nans : MetricBuckets Nat

/-- One row. -/
def aggregateRow (agg : Aggregate F) (r : EvalRow F) : Aggregate F :=
  if isNan r.score then
    { agg with nans := agg.nans.update r.system r.voiceId r.metricName 0 (· + 1) }
  else { agg with scores := agg.scores.update r.system r.voiceId r.metricName [] (· ++ [r.score]) }

/-- `_aggregate`. -/
def aggregate (rows : List (EvalRow F)) : Aggregate F :=
  rows.foldl (aggregateRow isNan) { scores := .empty, nans := .empty }

/-! ## the table -/

/-- `metric_names`. -/
def metricNames (metrics : List PyStr) : List PyStr :=
  metrics.dedup.insertionSort fun a b => strLe a b

/-- The direction the writer takes a metric to have. -/
def writerDirection (metric : PyStr) : Direction :=
  if [py "whisper_wer"].contains metric then .lower else .higher

/-- `metric_dir`. -/
def metricDir (metrics : List PyStr) : DefaultDict PyStr Direction :=
  metrics.foldl (fun dir m => dir.set m (writerDirection m)) .empty

/-- A line of the summary table: for each column the scores of its cell. -/
structure SummaryLine (F : Type) where
  system : PyStr
  voiceId : PyStr
  cells : List (List F)
  nNan : Nat

/-- The summary table. -/
structure SummaryTable (F : Type) where
  /-- The metrics with the directions of their arrows. -/
  columns : List (PyStr × Direction)
  lines : List (SummaryLine F)

/-- `sorted(d.items())`. -/
def sortedItems {V : Type} (d : DefaultDict PyStr V) : List (PyStr × V) :=
  d.entries.insertionSort fun a b => strLe a.1 b.1

/-- `_summary_table`, before it is text. -/
def summaryTable (agg : Aggregate F) (names : List PyStr) (dir : DefaultDict PyStr Direction) :
    SummaryTable F where
  columns := names.map fun m => (m, dir.get m .higher)
  lines :=
    (sortedItems agg.scores).flatMap fun (system, byVoice) =>
      (sortedItems byVoice).map fun (voiceId, byMetric) =>
        { system, voiceId, cells := names.map fun m => byMetric.get m []
          nNan := (names.map fun m => agg.nans.get system voiceId m 0).sum }

/-- `"| " + " | ".join(cells) + " |"`. -/
def tableRow (cells : List PyStr) : PyStr :=
  py "| " ++ (py " | ").intercalate cells ++ py " |"

/-- The text of a cell. -/
def cellText (mean3 : List F → PyStr) (scores : List F) : PyStr :=
  if scores.isEmpty then py "—"
  else mean3 scores ++ py "  (n=" ++ decimalDigits scores.length ++ py ")"

/-- A name between backticks. -/
def quoted (name : PyStr) : PyStr := [0x60] ++ name ++ [0x60]

/-- The text of the table. -/
def SummaryTable.render (mean3 : List F → PyStr) (table : SummaryTable F) : PyStr :=
  let headers := [py "System", py "Voice"] ++
    (table.columns.map fun (m, direction) =>
      m ++ py (if direction = .lower then " (↓)" else " (↑)")) ++ [py "n_nan"]
  let lines := table.lines.map fun line =>
    tableRow ([quoted line.system, quoted line.voiceId] ++ line.cells.map (cellText mean3) ++
      [decimalDigits line.nNan])
  joinWith 0x0A ([tableRow headers,
    py "|" ++ (py "|").intercalate (headers.map fun _ => py "---") ++ py "|"] ++ lines)

/-- The summary table of a run. -/
def RunPlan.table (plan : RunPlan) (w : EvalWorld F) : SummaryTable F :=
  summaryTable (aggregate w.isNan (plan.rows w)) (metricNames plan.metrics) (metricDir plan.metrics)

/-- `run_plan`: the rows and the summary table it writes. -/
def RunPlan.run (plan : RunPlan) (w : EvalWorld F) :
    Except Foreign (List (EvalRow F) × SummaryTable F) := do
  (plan.rows w).forM w.writeRaw
  w.writeReport ((plan.table w).render w.mean3)
  return (plan.rows w, plan.table w)

end report

/-! ## what is aggregated -/

namespace MetricBuckets

variable {V : Type} {b : MetricBuckets V} {s v m s' v' m' : PyStr} {default : V} {f : V → V}

theorem get_update : (b.update s v m default f).get s' v' m' default =
    if s' = s ∧ v' = v ∧ m' = m then f (b.get s v m default) else b.get s' v' m' default := by
  unfold update get
  rw [DefaultDict.get_update]
  by_cases hs : s' = s
  · subst hs
    rw [if_pos rfl, DefaultDict.get_update]
    by_cases hv : v' = v
    · subst hv
      rw [if_pos rfl, DefaultDict.get_update]
      simp
    · simp [hv]
  · simp [hs]

theorem mem_voices_update : v' ∈ (b.update s v m default f).voices s' ↔
    s' = s ∧ v' = v ∨ v' ∈ b.voices s' := by
  unfold update voices
  rw [DefaultDict.get_update]
  by_cases hs : s' = s
  · subst hs
    simp
  · simp [hs]

end MetricBuckets

section aggregated

variable {F : Type} {isNan : F → Bool} {rows : List (EvalRow F)} {s v m : PyStr}

/-- A row of this system, voice and metric. -/
def EvalRow.isOf (s v m : PyStr) (r : EvalRow F) : Bool :=
  r.system = s ∧ r.voiceId = v ∧ r.metricName = m

/-- One row goes to the scores of its metric, if it is a number. -/
theorem scores_aggregateRow (agg : Aggregate F) (r : EvalRow F) :
    (aggregateRow isNan agg r).scores.get s v m [] =
      if r.isOf s v m && !isNan r.score then agg.scores.get s v m [] ++ [r.score]
      else agg.scores.get s v m [] := by
  unfold aggregateRow EvalRow.isOf
  by_cases hnan : isNan r.score = true
  · simp [hnan]
  · rw [if_neg hnan]
    simp only [MetricBuckets.get_update]
    by_cases hof : r.system = s ∧ r.voiceId = v ∧ r.metricName = m
    · obtain ⟨rfl, rfl, rfl⟩ := hof
      simp [hnan]
    · rw [if_neg (by simpa [eq_comm] using hof)]
      simp [hof]

/-- One row goes to the NaN count of its metric, if it is none. -/
theorem nans_aggregateRow (agg : Aggregate F) (r : EvalRow F) :
    (aggregateRow isNan agg r).nans.get s v m 0 =
      if r.isOf s v m && isNan r.score then agg.nans.get s v m 0 + 1 else agg.nans.get s v m 0 := by
  unfold aggregateRow EvalRow.isOf
  by_cases hnan : isNan r.score = true
  · rw [if_pos hnan]
    simp only [MetricBuckets.get_update]
    by_cases hof : r.system = s ∧ r.voiceId = v ∧ r.metricName = m
    · obtain ⟨rfl, rfl, rfl⟩ := hof
      simp [hnan]
    · rw [if_neg (by simpa [eq_comm] using hof)]
      simp [hof]
  · simp [hnan]

theorem aggregate_append (rows : List (EvalRow F)) (r : EvalRow F) :
    aggregate isNan (rows ++ [r]) = aggregateRow isNan (aggregate isNan rows) r := by
  simp [aggregate]

/-- **Every row is counted once**, as a score or as a NaN. -/
theorem scores_add_nans : ((aggregate isNan rows).scores.get s v m []).length +
    (aggregate isNan rows).nans.get s v m 0 = (rows.filter (EvalRow.isOf s v m)).length := by
  induction rows using List.reverseRecOn with
  | nil => rfl
  | append_singleton rows r ih =>
      rw [aggregate_append, scores_aggregateRow, nans_aggregateRow, List.filter_append,
        List.length_append, ← ih]
      by_cases hof : r.isOf s v m = true
      · by_cases hnan : isNan r.score = true
        · simp [hof, hnan]
          omega
        · simp [hof, hnan]
          omega
      · simp [hof]

/-- The voices of a system in the map of the scores are those with a score. -/
theorem mem_voices_aggregate : v ∈ (aggregate isNan rows).scores.voices s ↔
    ∃ r ∈ rows, r.system = s ∧ r.voiceId = v ∧ isNan r.score = false := by
  induction rows using List.reverseRecOn with
  | nil => simp [aggregate, MetricBuckets.voices]
  | append_singleton rows r ih =>
      rw [aggregate_append, aggregateRow]
      by_cases hnan : isNan r.score = true
      · simp [hnan, ih, or_and_right, exists_or]
      · rw [if_neg hnan]
        simp only [MetricBuckets.mem_voices_update, ih, List.mem_append, List.mem_singleton]
        constructor
        · intro h
          obtain ⟨rfl, rfl⟩ | ⟨r', hr', h⟩ := h
          · exact ⟨r, .inr rfl, rfl, rfl, by simpa using hnan⟩
          · exact ⟨r', .inl hr', h⟩
        · intro h
          obtain ⟨r', hr' | rfl, hs, hv, hscore⟩ := h
          · exact .inr ⟨r', hr', hs, hv, hscore⟩
          · exact .inl ⟨hs.symm, hv.symm⟩

end aggregated

/-! ## what is printed -/

section printed

variable {F : Type} {w : EvalWorld F} {plan : RunPlan} {m : PyStr}

theorem mem_metricNames {metrics : List PyStr} : m ∈ metricNames metrics ↔ m ∈ metrics := by
  rw [metricNames, (List.perm_insertionSort _ _).mem_iff, List.mem_dedup]

theorem mem_sortedItems {V : Type} {d : DefaultDict PyStr V} {e : PyStr × V} :
    e ∈ sortedItems d ↔ e ∈ d.entries :=
  (List.perm_insertionSort _ _).mem_iff

theorem get_metricDir {metrics : List PyStr} (h : m ∈ metrics) :
    (metricDir metrics).get m .higher = writerDirection m := by
  unfold metricDir
  induction metrics using List.reverseRecOn with
  | nil => cases h
  | append_singleton metrics m' ih =>
      rw [List.foldl_append, List.foldl_cons, List.foldl_nil, DefaultDict.get_set]
      by_cases hm : m = m'
      · rw [if_pos hm, hm]
      · rw [if_neg hm]
        simp only [List.mem_append, List.mem_singleton, hm, or_false] at h
        exact ih h

/-- The columns are the metrics of the plan. -/
theorem columns_table : (plan.table w).columns =
    (metricNames plan.metrics).map fun m => (m, writerDirection m) := by
  unfold RunPlan.table summaryTable
  refine List.map_congr_left ?_
  intro m hm
  rw [get_metricDir (mem_metricNames.1 hm)]

/-- A line is of a pair with a score, and its cells are the pair's. -/
theorem mem_lines {line : SummaryLine F} (h : line ∈ (plan.table w).lines) :
    (∃ r ∈ plan.rows w, r.system = line.system ∧ r.voiceId = line.voiceId ∧
      w.isNan r.score = false) ∧
    line.cells = (metricNames plan.metrics).map fun m =>
      (aggregate w.isNan (plan.rows w)).scores.get line.system line.voiceId m [] := by
  obtain ⟨⟨system, byVoice⟩, hsystem, h⟩ := List.mem_flatMap.1 h
  obtain ⟨⟨voice, byMetric⟩, hvoice, rfl⟩ := List.mem_map.1 h
  rw [mem_sortedItems] at hsystem hvoice
  have hbyVoice := DefaultDict.get_of_mem hsystem .empty
  have hbyMetric := DefaultDict.get_of_mem hvoice .empty
  refine ⟨mem_voices_aggregate.1 ?_, ?_⟩
  · rw [MetricBuckets.voices, hbyVoice]
    exact List.mem_map.2 ⟨_, hvoice, rfl⟩
  · simp only [MetricBuckets.get, hbyVoice, hbyMetric]

/-- A pair with a score has a line. -/
theorem exists_line {r : EvalRow F} (hr : r ∈ plan.rows w) (hscore : w.isNan r.score = false) :
    ∃ line ∈ (plan.table w).lines, line.system = r.system ∧ line.voiceId = r.voiceId := by
  have hvoice : r.voiceId ∈ (aggregate w.isNan (plan.rows w)).scores.voices r.system :=
    mem_voices_aggregate.2 ⟨r, hr, rfl, rfl, hscore⟩
  have hsystem : r.system ∈ (aggregate w.isNan (plan.rows w)).scores.keys := by
    by_contra hnot
    rw [MetricBuckets.voices, DefaultDict.get_of_not_mem hnot] at hvoice
    cases hvoice
  refine ⟨_, List.mem_flatMap.2 ⟨_, mem_sortedItems.2 (DefaultDict.mem_entries hsystem .empty),
    List.mem_map.2 ⟨_, mem_sortedItems.2 (DefaultDict.mem_entries hvoice .empty), rfl⟩⟩, rfl, rfl⟩

/-! ## every row is accounted for -/

variable (w) in
/-- In this line, the metric has a column where the shown number and the NaN rows make
up its rows. -/
def ShowsMetric (report : List (EvalRow F) × SummaryTable F) (line : SummaryLine F)
    (m : PyStr) : Prop :=
  ∃ (c : Nat) (d : Direction) (cell : List F),
    report.2.columns[c]? = some (m, d) ∧ line.cells[c]? = some cell ∧
      cell.length + (aggregate w.isNan report.1).nans.get line.system line.voiceId m 0 =
        (report.1.filter (EvalRow.isOf line.system line.voiceId m)).length

variable (w plan) in
/-- The table accounts for every row, and its arrows are those of the results. -/
structure ReportAccounts (report : List (EvalRow F) × SummaryTable F) : Prop where
  lines : ∀ r ∈ report.1, ∃ line ∈ report.2.lines,
    line.system = r.system ∧ line.voiceId = r.voiceId ∧
      ∀ m, (m ∈ plan.metrics ∨ ∃ r' ∈ report.1, r'.system = r.system ∧ r'.voiceId = r.voiceId ∧
        r'.metricName = m) → ShowsMetric w report line m
  arrows : ∀ column ∈ report.2.columns, ∀ result ∈ plan.results w,
    result.metricName = column.1 → result.direction = column.2

variable (w plan) in
/-- Every pair of which something is synthesised gets a score. -/
def SomeScore : Prop :=
  ∀ clip ∈ plan.clips, plan.metrics ≠ [] →
    ∃ clip' ∈ plan.clips, clip'.system = clip.system ∧ clip'.voiceId = clip.voiceId ∧
      ∃ out, w.synth clip'.place = .ok out ∧ ∃ l < plan.metrics.length, ∃ result,
        w.score clip'.place l = .ok result ∧ w.isNan result.score = false

variable (w plan) in
/-- What a metric returns is named as a metric of the plan, and has the direction that
the writer takes it to have. -/
def KnownResults : Prop :=
  ∀ clip ∈ plan.clips, ∀ out, w.synth clip.place = .ok out → ∀ l < plan.metrics.length,
    ∀ result, w.score clip.place l = .ok result →
      result.metricName ∈ plan.metrics ∧
        (result.direction = .lower ↔ result.metricName = py "whisper_wer")

variable (w plan) in
/-- No metric but `whisper_wer` crashes. -/
def OnlyWerCrashes : Prop :=
  ∀ clip ∈ plan.clips, ∀ out, w.synth clip.place = .ok out → ∀ l metric,
    plan.metrics[l]? = some metric → ∀ e, w.score clip.place l = .error e →
      metric = py "whisper_wer"

theorem writerDirection_eq_lower : writerDirection m = .lower ↔ m = py "whisper_wer" := by
  simp [writerDirection]

/-- A line of the table shows every metric of the plan. -/
theorem showsMetric_of_mem {line : SummaryLine F} (hline : line ∈ (plan.table w).lines)
    (hm : m ∈ plan.metrics) : ShowsMetric w (plan.rows w, plan.table w) line m := by
  obtain ⟨c, hc⟩ := List.mem_iff_getElem?.1 (mem_metricNames.2 hm)
  refine ⟨c, writerDirection m,
    (aggregate w.isNan (plan.rows w)).scores.get line.system line.voiceId m [], ?_, ?_, ?_⟩
  · rw [columns_table, List.getElem?_map, hc]
    rfl
  · rw [(mem_lines hline).2, List.getElem?_map, hc]
    rfl
  · exact scores_add_nans

theorem mem_of_showsMetric {line : SummaryLine F}
    (h : ShowsMetric w (plan.rows w, plan.table w) line m) :
    m ∈ plan.metrics := by
  obtain ⟨c, d, cell, hcolumn, -, -⟩ := h
  rw [columns_table, List.getElem?_map] at hcolumn
  obtain ⟨m', hm', heq⟩ := Option.map_eq_some_iff.1 hcolumn
  cases heq
  exact mem_metricNames.1 (List.mem_of_getElem? hm')

/-- A row that is a number comes from a score. -/
theorem exists_score {r : EvalRow F} (hr : r ∈ plan.rows w) (hscore : w.isNan r.score = false) :
    ∃ clip ∈ plan.clips, clip.system = r.system ∧ clip.voiceId = r.voiceId ∧
      ∃ out, w.synth clip.place = .ok out ∧ ∃ l < plan.metrics.length, ∃ result,
        w.score clip.place l = .ok result ∧ w.isNan result.score = false := by
  obtain ⟨clip, hclip, hrow⟩ := RunPlan.mem_rows.1 hr
  obtain ⟨e, -, metric, -, rfl⟩ | ⟨out, hsynth, l, metric, hget, rfl⟩ := hrow
  · exact absurd (w.isNan_nan.symm.trans hscore) (by decide)
  · refine ⟨clip, hclip, rfl, rfl, out, hsynth, l, (List.getElem?_eq_some_iff.1 hget).1, ?_⟩
    cases hcall : w.score clip.place l with
    | ok result =>
        simp only [RunPlan.resultRow, RunPlan.scoreOne, hcall] at hscore
        exact ⟨result, rfl, hscore⟩
    | error e =>
        simp only [RunPlan.resultRow, RunPlan.scoreOne, hcall, w.isNan_nan] at hscore
        cases hscore

theorem run_eq_ok {report : List (EvalRow F) × SummaryTable F} (h : plan.run w = .ok report) :
    report = (plan.rows w, plan.table w) := by
  unfold RunPlan.run at h
  cases hraw : (plan.rows w).forM w.writeRaw with
  | error e => simp [hraw, bind, Except.bind] at h
  | ok u =>
      cases hreport : w.writeReport ((plan.table w).render w.mean3) with
      | error e => simp [hraw, hreport, bind, Except.bind] at h
      | ok u =>
          simp only [hraw, hreport, bind, Except.bind, pure, Except.pure, Except.ok.injEq] at h
          exact h.symm

/-- **The report accounts for every row exactly if every pair gets a score, and only
`whisper_wer` is lower or crashes.** -/
theorem accounts_iff {report : List (EvalRow F) × SummaryTable F} (h : plan.run w = .ok report) :
    ReportAccounts w plan report ↔ SomeScore w plan ∧ KnownResults w plan ∧ OnlyWerCrashes w plan := by
  rw [run_eq_ok h]
  constructor
  · intro haccounts
    have hcolumn : ∀ m ∈ plan.metrics, (m, writerDirection m) ∈ (plan.table w).columns := by
      intro m hm
      rw [columns_table]
      exact List.mem_map.2 ⟨m, mem_metricNames.2 hm, rfl⟩
    refine ⟨?_, ?_, ?_⟩
    · intro clip hclip hmetrics
      obtain ⟨row, hrow, hsystem, hvoice⟩ := RunPlan.exists_row (w := w) hclip hmetrics
      obtain ⟨line, hline, hs, hv, -⟩ := haccounts.lines row hrow
      obtain ⟨⟨r, hr, hsr, hvr, hscore⟩, -⟩ := mem_lines hline
      obtain ⟨clip', hclip', hs', hv', hmade⟩ := exists_score hr hscore
      exact ⟨clip', hclip', by rw [hs', hsr, hs, hsystem], by rw [hv', hvr, hv, hvoice], hmade⟩
    · intro clip hclip out hsynth l hl result hresult
      have hget : plan.metrics[l]? = some plan.metrics[l] := List.getElem?_eq_getElem hl
      have hone : RunPlan.scoreOne w clip plan.metrics[l] l = result := by
        rw [RunPlan.scoreOne, hresult]
      have hrow : RunPlan.resultRow clip out result ∈ plan.rows w :=
        RunPlan.mem_rows.2 ⟨clip, hclip, .inr ⟨out, hsynth, l, _, hget, by rw [hone]⟩⟩
      have hmem : result ∈ plan.results w :=
        RunPlan.mem_results.2 ⟨clip, hclip, out, hsynth, l, _, hget, hone.symm⟩
      obtain ⟨line, hline, -, -, hshows⟩ := haccounts.lines _ hrow
      have hname : result.metricName ∈ plan.metrics :=
        mem_of_showsMetric (hshows _ (.inr ⟨_, hrow, rfl, rfl, rfl⟩))
      refine ⟨hname, ?_⟩
      rw [haccounts.arrows _ (hcolumn _ hname) result hmem rfl]
      exact writerDirection_eq_lower
    · intro clip hclip out hsynth l metric hget e hcrash
      have hmem : RunPlan.scoreOne w clip metric l ∈ plan.results w :=
        RunPlan.mem_results.2 ⟨clip, hclip, out, hsynth, l, metric, hget, rfl⟩
      have harrow := haccounts.arrows _ (hcolumn metric (List.mem_of_getElem? hget)) _ hmem
      simp only [RunPlan.scoreOne, hcrash, forall_const] at harrow
      exact writerDirection_eq_lower.1 harrow.symm
  · intro hcond
    obtain ⟨hsome, hknown, hcrashes⟩ := hcond
    -- all rows are named as metrics of the plan
    have hnames : ∀ r ∈ plan.rows w, r.metricName ∈ plan.metrics := by
      intro r hr
      obtain ⟨clip, hclip, hrow⟩ := RunPlan.mem_rows.1 hr
      obtain ⟨e, -, metric, hmetric, rfl⟩ | ⟨out, hsynth, l, metric, hget, rfl⟩ := hrow
      · exact hmetric
      · have hl := (List.getElem?_eq_some_iff.1 hget).1
        cases hcall : w.score clip.place l with
        | ok result =>
            simp only [RunPlan.resultRow, RunPlan.scoreOne, hcall]
            exact (hknown clip hclip out hsynth l hl result hcall).1
        | error e =>
            simp only [RunPlan.resultRow, RunPlan.scoreOne, hcall]
            exact List.mem_of_getElem? hget
    refine ⟨?_, ?_⟩
    · intro r hr
      obtain ⟨clip, hclip, hrow⟩ := RunPlan.mem_rows.1 hr
      have hpair : clip.system = r.system ∧ clip.voiceId = r.voiceId := by
        obtain ⟨e, -, metric, -, rfl⟩ | ⟨out, -, l, metric, -, rfl⟩ := hrow
        · exact ⟨rfl, rfl⟩
        · exact ⟨rfl, rfl⟩
      obtain ⟨clip', hclip', hs', hv', out, hsynth, l, hl, result, hcall, hscore⟩ :=
        hsome clip hclip (List.ne_nil_of_mem (hnames r hr))
      have hone : RunPlan.scoreOne w clip' plan.metrics[l] l = result := by
        rw [RunPlan.scoreOne, hcall]
      have hscored : RunPlan.resultRow clip' out result ∈ plan.rows w :=
        RunPlan.mem_rows.2 ⟨clip', hclip', .inr ⟨out, hsynth, l, _, List.getElem?_eq_getElem hl,
          by rw [hone]⟩⟩
      obtain ⟨line, hline, hs, hv⟩ := exists_line hscored hscore
      refine ⟨line, hline, ?_, ?_, ?_⟩
      · exact hs.trans (hs'.trans hpair.1)
      · exact hv.trans (hv'.trans hpair.2)
      · intro m hm
        obtain hm | ⟨r', hr', -, -, rfl⟩ := hm
        · exact showsMetric_of_mem hline hm
        · exact showsMetric_of_mem hline (hnames r' hr')
    · intro column hcolumn result hresult hname
      rw [columns_table] at hcolumn
      obtain ⟨m, -, rfl⟩ := List.mem_map.1 hcolumn
      obtain ⟨clip, hclip, out, hsynth, l, metric, hget, rfl⟩ := RunPlan.mem_results.1 hresult
      have hl := (List.getElem?_eq_some_iff.1 hget).1
      have hlower : (RunPlan.scoreOne w clip metric l).direction = .lower ↔
          writerDirection m = .lower := by
        rw [writerDirection_eq_lower]
        cases hcall : w.score clip.place l with
        | ok result =>
            simp only [RunPlan.scoreOne, hcall] at hname ⊢
            rw [← hname]
            exact (hknown clip hclip out hsynth l hl result hcall).2
        | error e =>
            simp only [RunPlan.scoreOne, hcall] at hname ⊢
            rw [← hname]
            simp [hcrashes clip hclip out hsynth l metric hget e hcall]
      cases hd : (RunPlan.scoreOne w clip metric l).direction with
      | lower => exact (hlower.1 hd).symm
      | higher =>
          cases hd' : writerDirection m with
          | higher => rfl
          | lower =>
              rw [hlower.2 hd'] at hd
              cases hd

end printed

/-! ## one system, one metric -/

/-- One sentence, spoken by one system and scored by one metric. -/
def soloPlan (metric : PyStr) : RunPlan where
  sentences := [{ index := 1, category := py "sayı", text := py "bir" }]
  systems := [py "neurovoice"]
  metrics := [metric]
  voicesPerSystem := [(py "neurovoice", [py "v"])]

/-- A world where every synthesis ends so, and the metric scores zero, lower being
better; no number is a NaN. -/
def soloWorld (synth : Except PyException SystemOutput) (metric : PyStr) :
    EvalWorld (Option Nat) where
  isNan := Option.isNone
  nan := none
  isNan_nan := rfl
  synth _ := synth
  score _ _ := .ok { metricName := metric, score := some 0, direction := .lower }
  writeRaw _ := .ok ()
  mean3 _ := py "0.000"
  writeReport _ := .ok ()

/-- A synthesis that succeeds. -/
def spoken : Except PyException SystemOutput :=
  .ok { modelId := py "voxcpm2-tr-hd", elapsedMs := 1 }

/-- A synthesis that fails. -/
def unreachable : Except PyException SystemOutput :=
  .error { typeName := py "ConnectError", message := [] }

/-- Two sentences, each spoken with two voices and scored by two metrics. -/
def pairPlan : RunPlan where
  sentences := [{ index := 1, category := py "sayı", text := py "bir" },
    { index := 2, category := py "sayı", text := py "iki" }]
  systems := [py "neurovoice"]
  metrics := [py "secs", py "whisper_wer"]
  voicesPerSystem := [(py "neurovoice", [py "v", py "w"])]

/-- The second sentence of the first voice is not spoken, and the first sentence of the
second voice is not transcribed. -/
def pairWorld : EvalWorld (Option Nat) :=
  { soloWorld spoken (py "whisper_wer") with
    synth := fun place => if place = (0, 0, 1) then unreachable else spoken
    score := fun place l =>
      if l = 0 then .ok { metricName := py "secs", score := some 1, direction := .higher }
      else if place = (0, 1, 0) then .error { typeName := py "RuntimeError", message := [] }
      else .ok { metricName := py "whisper_wer", score := some 0, direction := .lower } }

/-- The clip of a voice and a sentence. -/
def pairClip (voiceId : PyStr) (j k : Nat) (sentence : TestSentence) : Clip where
  system := py "neurovoice"
  voiceId := voiceId
  sentence := sentence
  place := (0, j, k)

/-- Eight rows of two voices are accounted for, three of them without a score. -/
theorem accounts_pair :
    (pairPlan.rows pairWorld).length = 8 ∧
    ((pairPlan.rows pairWorld).filter fun r => pairWorld.isNan r.score).length = 3 ∧
    ReportAccounts pairWorld pairPlan (pairPlan.rows pairWorld, pairPlan.table pairWorld) := by
  refine ⟨by decide, by decide, (accounts_iff rfl).2 ⟨?_, ?_, ?_⟩⟩
  · intro clip hclip _
    have hvoice : clip.system = py "neurovoice" ∧
        (clip.voiceId = py "v" ∨ clip.voiceId = py "w") := by
      revert clip
      simp [pairPlan, RunPlan.clips, RunPlan.voicesOf]
    obtain ⟨hsystem, hv | hw⟩ := hvoice
    · refine ⟨pairClip (py "v") 0 0 ⟨1, py "sayı", py "bir"⟩, ?_, hsystem.symm, hv.symm,
        { modelId := py "voxcpm2-tr-hd", elapsedMs := 1 }, rfl, 0, by decide, _, rfl, rfl⟩
      exact List.mem_cons_self
    · refine ⟨pairClip (py "w") 1 1 ⟨2, py "sayı", py "iki"⟩, ?_, hsystem.symm, hw.symm,
        { modelId := py "voxcpm2-tr-hd", elapsedMs := 1 }, rfl, 0, by decide, _, rfl, rfl⟩
      exact List.mem_of_getElem? (i := 3) rfl
  · intro clip _ out _ l _ result hresult
    simp only [pairWorld] at hresult
    split at hresult
    · cases hresult
      decide
    · split at hresult
      · cases hresult
      · cases hresult
        decide
  · intro clip _ out _ l metric hget e hcrash
    simp only [pairWorld] at hcrash
    split at hcrash
    · cases hcrash
    · next hl =>
        obtain ⟨hlt, hmetric⟩ := List.getElem?_eq_some_iff.1 hget
        obtain rfl : l = 1 := by
          simp only [pairPlan, List.length_cons, List.length_nil] at hlt
          omega
        exact hmetric.symm

/-- A system whose synthesis fails has rows and no line, and the column of a lower
metric other than `whisper_wer` points up. -/
theorem failed_system_missing :
    (∃ report, (soloPlan (py "whisper_wer")).run (soloWorld unreachable (py "whisper_wer")) =
        .ok report ∧
      report.1.length = 1 ∧ report.2.lines.length = 0 ∧
        ¬ReportAccounts (soloWorld unreachable (py "whisper_wer")) (soloPlan (py "whisper_wer"))
          report) ∧
    ∃ report, (soloPlan (py "whisper_cer")).run (soloWorld spoken (py "whisper_cer")) = .ok report ∧
      ¬ReportAccounts (soloWorld spoken (py "whisper_cer")) (soloPlan (py "whisper_cer")) report := by
  constructor
  · refine ⟨_, rfl, by decide, by decide, ?_⟩
    intro haccounts
    obtain ⟨line, hline, -⟩ := haccounts.lines _ (List.mem_singleton_self _)
    cases hline
  · refine ⟨_, rfl, ?_⟩
    intro haccounts
    have harrow := haccounts.arrows (py "whisper_cer", .higher) (List.mem_singleton_self _) _
      (List.mem_singleton_self _) rfl
    cases harrow

end NeuroVoice
