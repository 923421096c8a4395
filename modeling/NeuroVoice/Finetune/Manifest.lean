import Mathlib.Data.List.Perm.Basic
import NeuroVoice.Catalog.Storage

/-!
# NeuroVoice.Finetune.Manifest

`finetune/manifest.py`: the raw manifest's validation and its split into
training, validation and test rows.

The split goes by position in a shuffled list, and nothing makes the audio paths
of the list unique.  So the parts share no audio for every shuffle exactly if no
path comes twice, or one part takes everything: `split_leakFree`.
-/

namespace NeuroVoice

/-! ## floats -/

/-- The operations on floats that the preparation of training data uses.  Nothing is
assumed of them. -/
structure FloatOps (F : Type) where
  zero : F
  ofNat : Nat → F
  /-- `a / b` of two integers. -/
  ratio : Nat → Nat → F
  add : F → F → F
  sub : F → F → F
  mul : F → F → F
  lt : F → F → Bool
  /-- `int(x)`. -/
  trunc : F → Except Foreign Int
  /-- `round(x, 3)`. -/
  round3 : F → F

/-- Floats without rounding. -/
def FloatOps.exact : FloatOps Rat where
  zero := 0
  ofNat n := n
  ratio a b := a / b
  add x y := x + y
  sub x y := x - y
  mul x y := x * y
  lt x y := x < y
  trunc x := .ok (x.num.tdiv x.den)
  round3 x := x

/-! ## the project -/

/-- `ProjectLayout`. -/
structure ProjectLayout where
  root : PurePath
  voiceId : PyStr

/-- `p / q`. -/
def PurePath.join (p q : PurePath) : PurePath :=
  if q.root = 0 then { p with parts := p.parts ++ q.parts } else q

namespace ProjectLayout

variable (layout : ProjectLayout)

/-- `project_dir`. -/
def projectDir : PurePath := layout.root.join (.ofStr layout.voiceId)

/-- `audio_dir`. -/
def audioDir : PurePath := layout.projectDir.child (py "audio")

end ProjectLayout

section manifest

variable {F : Type} (ops : FloatOps F)

/-! ## validation -/

/-- `SplitConfig`, but for the seed. -/
structure SplitConfig (F : Type) where
  valRatio : F
  testRatio : F
  refAudioRatio : F
  minSeconds : F
  idealMinSeconds : F
  maxSeconds : F

/-- A row of the raw manifest: the fields that are read. -/
structure RawRow where
  audio : Option PyStr
  text : Option PyStr
  speakerId : Option PyStr

/-- A line of the raw manifest, as `json.loads` takes it. -/
inductive RawLine where
  | blank
  | row (r : RawRow)
  | broken (x : Foreign)

/-- A validated row. -/
structure Record (F : Type) where
  audio : PyStr
  text : PyStr
  duration : F
  speakerId : PyStr
  deriving DecidableEq

/-- What validation reads of the disk. -/
structure AudioDisk where
  present : PurePath → Bool
  /-- `frames` and `samplerate` of `sf.info`. -/
  info : PurePath → Except Foreign (Nat × Nat)

/-- How validation fails. -/
inductive ManifestError (F : Type) where
  | rawManifestMissing
  | audioMissing (line : Nat) (path : PurePath)
  | emptyText (line : Nat)
  | tooShort (line : Nat) (duration : F) (path : PurePath)
  | tooLong (line : Nat) (duration : F) (path : PurePath)
  | emptyManifest
  | foreign (x : Foreign)

/-- `line …: shorter than ideal`. -/
structure Warning (F : Type) where
  line : Nat
  duration : F
  path : PurePath
  deriving DecidableEq

/-- `_resolve_audio_path`. -/
def resolveAudioPath (layout : ProjectLayout) (disk : AudioDisk) (rawAudio : PyStr) : PurePath :=
  let p := PurePath.ofStr rawAudio
  if p.root ≠ 0 then p
  else if disk.present (layout.projectDir.join p) then layout.projectDir.join p
  else layout.audioDir.join p

/-- The loop's body for one row. -/
def validateRow (layout : ProjectLayout) (disk : AudioDisk) (cfg : SplitConfig F) (line : Nat)
    (item : RawRow) : Except (ManifestError F) (Record F × Option (Warning F)) := do
  let some rawAudio := item.audio | throw (.foreign .keyError)
  let path := resolveAudioPath layout disk rawAudio
  let text := stripBy isSpace (item.text.getD [])
  if ¬disk.present path then throw (.audioMissing line path)
  if text.isEmpty then throw (.emptyText line)
  let (frames, samplerate) ← (disk.info path).mapError .foreign
  let duration := ops.ratio frames samplerate
  if ops.lt duration cfg.minSeconds then throw (.tooShort line duration path)
  if ops.lt cfg.maxSeconds duration then throw (.tooLong line duration path)
  let warning :=
    if ops.lt duration cfg.idealMinSeconds then some { line, duration, path : Warning F } else none
  return ({ audio := path.str, text, duration := ops.round3 duration
            speakerId := item.speakerId.getD layout.voiceId }, warning)

/-- The loop over the lines, from the given number on. -/
def validateLines (layout : ProjectLayout) (disk : AudioDisk) (cfg : SplitConfig F) :
    Nat → List RawLine → Except (ManifestError F) (List (Record F) × List (Warning F))
  | _, [] => .ok ([], [])
  | line, .blank :: lines => validateLines layout disk cfg (line + 1) lines
  | _, .broken x :: _ => .error (.foreign x)
  | line, .row item :: lines => do
      let (record, warning) ← validateRow ops layout disk cfg line item
      let (records, warnings) ← validateLines layout disk cfg (line + 1) lines
      return (record :: records, warning.toList ++ warnings)

/-- `validate_raw_manifest`; there may be no file. -/
def validateRawManifest (layout : ProjectLayout) (disk : AudioDisk) (cfg : SplitConfig F)
    (raw : Option (List RawLine)) :
    Except (ManifestError F) (List (Record F) × List (Warning F)) := do
  let some lines := raw | throw .rawManifestMissing
  let (records, warnings) ← validateLines ops layout disk cfg 1 lines
  if records.isEmpty then throw .emptyManifest
  return (records, warnings)

/-! ## the split -/

/-- A row of a split file. -/
structure SplitRow (F : Type) where
  audio : PyStr
  text : PyStr
  duration : F
  datasetId : Nat := 0
  refAudio : Option PyStr := none

/-- The three files. -/
structure Splits (F : Type) where
  train : List (SplitRow F)
  val : List (SplitRow F)
  test : List (SplitRow F)

/-- What `random.Random` draws behind the shuffle, for the rows one by one: a number
for `rng.random()` and one for the index `rng.choice` takes. -/
structure Draws (F : Type) where
  random : Nat → F
  choice : Nat → Nat

/-- `max(1, int(n * ratio)) if n >= 10 else 0`. -/
def partSize (n : Nat) (ratio : F) : Except Foreign Nat :=
  if 10 ≤ n then (ops.trunc (ops.mul (ops.ofNat n) ratio)).map fun k => (max 1 k).toNat else .ok 0

/-- The candidates for a record's reference: `by_speaker` without the record's own
audio. -/
def refCandidates (train : List (Record F)) (r : Record F) : List (Record F) :=
  (train.filter fun c => c.speakerId = r.speakerId).filter fun c => c.audio != r.audio

/-- A row without a reference. -/
def plainRow (r : Record F) : SplitRow F :=
  { audio := r.audio, text := r.text, duration := r.duration }

/-- `_with_ref(rows, enable_ref=True)`, from row `i` on. -/
def withRef (cfg : SplitConfig F) (train : List (Record F)) (draws : Draws F) :
    Nat → List (Record F) → List (SplitRow F)
  | _, [] => []
  | i, r :: rows =>
      let candidates := refCandidates train r
      let refAudio :=
        if ops.lt (draws.random i) cfg.refAudioRatio then
          (candidates[draws.choice i % candidates.length]?).map Record.audio
        else none
      { plainRow r with refAudio } :: withRef cfg train draws (i + 1) rows

/-- The rows of the three files, for given sizes. -/
def dealRows (cfg : SplitConfig F) (nTest nVal : Nat) (shuffled : List (Record F))
    (draws : Draws F) : Splits F :=
  let train := shuffled.drop (nTest + nVal)
  { train := withRef ops cfg train draws 0 train
    val := ((shuffled.drop nTest).take nVal).map plainRow
    test := (shuffled.take nTest).map plainRow }

/-- A row that can be written as UTF-8. -/
def SplitRow.encodable (row : SplitRow F) : Bool :=
  utf8Encodable row.audio && utf8Encodable row.text && row.refAudio.all utf8Encodable

/-- `split_manifest`, behind `rng.shuffle`. -/
def splitManifest (cfg : SplitConfig F) (shuffled : List (Record F)) (draws : Draws F) :
    Except Foreign (Splits F) := do
  let nTest ← partSize ops shuffled.length cfg.testRatio
  let nVal ← partSize ops shuffled.length cfg.valRatio
  let splits := dealRows ops cfg nTest nVal shuffled draws
  if (splits.train ++ splits.val ++ splits.test).all SplitRow.encodable then return splits
  else throw .unicodeError

/-! ## what is validated -/

/-- What validation promises of a record. -/
structure Valid (ops : FloatOps F) (disk : AudioDisk) (cfg : SplitConfig F) (r : Record F) :
    Prop where
  text : r.text ≠ []
  audio : ∃ path frames samplerate, r.audio = path.str ∧ disk.present path = true ∧
    disk.info path = .ok (frames, samplerate) ∧
      r.duration = ops.round3 (ops.ratio frames samplerate) ∧
      ops.lt (ops.ratio frames samplerate) cfg.minSeconds = false ∧
        ops.lt cfg.maxSeconds (ops.ratio frames samplerate) = false

section validated

variable {ops} {layout : ProjectLayout} {disk : AudioDisk} {cfg : SplitConfig F}
  {records : List (Record F)} {warnings : List (Warning F)}

theorem valid_of_validateRow {line : Nat} {item : RawRow} {r : Record F}
    {warning : Option (Warning F)}
    (h : validateRow ops layout disk cfg line item = .ok (r, warning)) : Valid ops disk cfg r := by
  unfold validateRow at h
  simp only [bind, Except.bind, pure, Except.pure, throw, throwThe, MonadExceptOf.throw] at h
  cases hraw : item.audio with
  | none => rw [hraw] at h; cases h
  | some rawAudio =>
      rw [hraw] at h
      simp only at h
      split at h
      · cases h
      · next hpresent =>
          split at h
          · cases h
          · next htext =>
              cases hinfo : disk.info (resolveAudioPath layout disk rawAudio) with
              | error x => rw [hinfo] at h; cases h
              | ok info =>
                  rw [hinfo] at h
                  simp only [Except.mapError] at h
                  split at h
                  · cases h
                  · next hmin =>
                      split at h
                      · cases h
                      · next hmax =>
                          cases h
                          refine ⟨by simpa using htext, _, info.1, info.2, rfl, ?_, hinfo, rfl, ?_, ?_⟩
                          · simpa using hpresent
                          · simpa using hmin
                          · simpa using hmax

theorem valid_of_validateLines {line : Nat} {lines : List RawLine}
    (h : validateLines ops layout disk cfg line lines = .ok (records, warnings)) :
    ∀ r ∈ records, Valid ops disk cfg r := by
  induction lines generalizing line records warnings with
  | nil =>
      cases h
      simp
  | cons first lines ih =>
      cases first with
      | blank => exact ih h
      | broken x => cases h
      | row item =>
          simp only [validateLines, bind, Except.bind, pure, Except.pure] at h
          cases hrow : validateRow ops layout disk cfg line item with
          | error e => rw [hrow] at h; cases h
          | ok made =>
              rw [hrow] at h
              cases hrest : validateLines ops layout disk cfg (line + 1) lines with
              | error e => rw [hrest] at h; cases h
              | ok rest =>
                  rw [hrest] at h
                  cases h
                  intro r hr
                  obtain hr | hr := List.mem_cons.1 hr
                  · subst hr
                    exact valid_of_validateRow hrow
                  · exact ih hrest r hr

/-- Validation returns records, and only valid ones. -/
theorem valid_of_validateRawManifest {raw : Option (List RawLine)}
    (h : validateRawManifest ops layout disk cfg raw = .ok (records, warnings)) :
    records ≠ [] ∧ ∀ r ∈ records, Valid ops disk cfg r := by
  unfold validateRawManifest at h
  simp only [bind, Except.bind, pure, Except.pure, throw, throwThe, MonadExceptOf.throw] at h
  cases raw with
  | none => cases h
  | some lines =>
      simp only at h
      cases hlines : validateLines ops layout disk cfg 1 lines with
      | error e => rw [hlines] at h; cases h
      | ok made =>
          rw [hlines] at h
          simp only at h
          split at h
          · cases h
          · next hempty =>
              cases h
              exact ⟨by simpa using hempty, valid_of_validateLines hlines⟩

end validated

/-! ## what is written -/

/-- `row` is the record's row, and its reference, if there is one, is the audio of
another record of the speaker among the training records. -/
structure WritesRow (train : List (Record F)) (r : Record F) (row : SplitRow F) : Prop where
  audio : row.audio = r.audio
  text : row.text = r.text
  duration : row.duration = r.duration
  ref : ∀ a, row.refAudio = some a →
    ∃ c ∈ train, c.audio = a ∧ c.speakerId = r.speakerId ∧ a ≠ r.audio

variable {ops} {cfg : SplitConfig F} {train records shuffled : List (Record F)} {draws : Draws F}

theorem writesRow_plainRow (train : List (Record F)) (r : Record F) :
    WritesRow train r (plainRow r) where
  audio := rfl
  text := rfl
  duration := rfl
  ref a h := by cases h

theorem writesRow_map_plainRow (train rows : List (Record F)) :
    List.Forall₂ (WritesRow train) rows (rows.map plainRow) := by
  induction rows with
  | nil => exact .nil
  | cons r rows ih => exact .cons (writesRow_plainRow train r) ih

theorem mem_refCandidates {r c : Record F} (h : c ∈ refCandidates train r) :
    c ∈ train ∧ c.speakerId = r.speakerId ∧ c.audio ≠ r.audio := by
  simp only [refCandidates, List.mem_filter, decide_eq_true_eq, bne_iff_ne] at h
  exact ⟨h.1.1, h.1.2, h.2⟩

variable (ops cfg) in
theorem writesRow_withRef (train rows : List (Record F)) (draws : Draws F) (i : Nat) :
    List.Forall₂ (WritesRow train) rows (withRef ops cfg train draws i rows) := by
  induction rows generalizing i with
  | nil => exact .nil
  | cons r rows ih =>
      refine .cons ⟨rfl, rfl, rfl, ?_⟩ (ih (i + 1))
      intro a ha
      simp only at ha
      split at ha
      · obtain ⟨c, hc, hca⟩ := Option.map_eq_some_iff.1 ha
        obtain ⟨htrain, hspeaker, hother⟩ := mem_refCandidates (List.mem_of_getElem? hc)
        exact ⟨c, htrain, hca, hspeaker, hca ▸ hother⟩
      · cases ha

/-- Every row is some record's, and every record has its row. -/
theorem exists_of_writesRow {rows : List (Record F)} {written : List (SplitRow F)}
    (h : List.Forall₂ (WritesRow train) rows written) :
    (∀ row ∈ written, ∃ r ∈ rows, WritesRow train r row) ∧
      ∀ r ∈ rows, ∃ row ∈ written, WritesRow train r row := by
  induction h with
  | nil => simp
  | cons hrow _ ih =>
      constructor
      · intro row hmem
        obtain hmem | hmem := List.mem_cons.1 hmem
        · exact ⟨_, List.mem_cons_self .., hmem ▸ hrow⟩
        · obtain ⟨r, hr, hwrites⟩ := ih.1 row hmem
          exact ⟨r, List.mem_cons_of_mem _ hr, hwrites⟩
      · intro r hmem
        obtain hmem | hmem := List.mem_cons.1 hmem
        · exact ⟨_, List.mem_cons_self .., hmem ▸ hrow⟩
        · obtain ⟨row, hr, hwrites⟩ := ih.2 r hmem
          exact ⟨row, List.mem_cons_of_mem _ hr, hwrites⟩

/-- The audio paths of a file are those of its records. -/
theorem map_audio_of_writesRow {rows : List (Record F)} {written : List (SplitRow F)}
    (h : List.Forall₂ (WritesRow train) rows written) :
    written.map SplitRow.audio = rows.map Record.audio := by
  induction h with
  | nil => rfl
  | cons hrow _ ih => rw [List.map_cons, List.map_cons, ih, hrow.audio]

/-- Each record is written once, no audio path is in two files, and references come
from the training file alone. -/
structure LeakFree (records : List (Record F)) (s : Splits F) : Prop where
  dealt : ∃ train val test : List (Record F), (test ++ (val ++ train)).Perm records ∧
    List.Forall₂ (WritesRow train) train s.train ∧ List.Forall₂ (WritesRow train) val s.val ∧
      List.Forall₂ (WritesRow train) test s.test
  apart : (s.test.map SplitRow.audio).Disjoint (s.val.map SplitRow.audio) ∧
    (s.test.map SplitRow.audio).Disjoint (s.train.map SplitRow.audio) ∧
      (s.val.map SplitRow.audio).Disjoint (s.train.map SplitRow.audio)
  heldOut : ∀ row ∈ s.train ++ s.val ++ s.test, ∀ a, row.refAudio = some a →
    a ≠ row.audio ∧ a ∉ s.val.map SplitRow.audio ∧ a ∉ s.test.map SplitRow.audio

/-- No audio path of the list is on both sides of one of its two cuts. -/
def CutApart (nTest nVal : Nat) (shuffled : List (Record F)) : Prop :=
  let test := (shuffled.take nTest).map Record.audio
  let val := ((shuffled.drop nTest).take nVal).map Record.audio
  let train := (shuffled.drop (nTest + nVal)).map Record.audio
  test.Disjoint val ∧ test.Disjoint train ∧ val.Disjoint train

theorem drop_parts (nTest nVal : Nat) (shuffled : List (Record F)) :
    shuffled.take nTest ++ ((shuffled.drop nTest).take nVal ++ shuffled.drop (nTest + nVal)) =
      shuffled := by
  rw [← List.drop_drop, List.take_append_drop, List.take_append_drop]

/-- Rows and references of a deal. -/
theorem leakFree_dealRows (hperm : shuffled.Perm records) (nTest nVal : Nat) :
    LeakFree records (dealRows ops cfg nTest nVal shuffled draws) ↔
      CutApart nTest nVal shuffled := by
  have htrain := writesRow_withRef ops cfg (shuffled.drop (nTest + nVal))
    (shuffled.drop (nTest + nVal)) draws 0
  have hval := writesRow_map_plainRow (shuffled.drop (nTest + nVal))
    ((shuffled.drop nTest).take nVal)
  have htest := writesRow_map_plainRow (shuffled.drop (nTest + nVal)) (shuffled.take nTest)
  have hmaps : ((dealRows ops cfg nTest nVal shuffled draws).train.map SplitRow.audio =
      (shuffled.drop (nTest + nVal)).map Record.audio) ∧
      ((dealRows ops cfg nTest nVal shuffled draws).val.map SplitRow.audio =
        ((shuffled.drop nTest).take nVal).map Record.audio) ∧
      ((dealRows ops cfg nTest nVal shuffled draws).test.map SplitRow.audio =
        (shuffled.take nTest).map Record.audio) :=
    ⟨map_audio_of_writesRow htrain, map_audio_of_writesRow hval, map_audio_of_writesRow htest⟩
  constructor
  · intro h
    have hapart := h.apart
    rwa [hmaps.1, hmaps.2.1, hmaps.2.2] at hapart
  · intro h
    refine ⟨⟨_, _, _, ?_, htrain, hval, htest⟩, ?_, ?_⟩
    · rwa [drop_parts]
    · rw [hmaps.1, hmaps.2.1, hmaps.2.2]
      exact h
    · have href : ∀ (rows : List (Record F)) (written : List (SplitRow F)),
          List.Forall₂ (WritesRow (shuffled.drop (nTest + nVal))) rows written →
            ∀ row ∈ written, ∀ a, row.refAudio = some a →
              a ≠ row.audio ∧ a ∈ (shuffled.drop (nTest + nVal)).map Record.audio := by
        intro rows written hwrites row hrow a ha
        obtain ⟨r, -, hr⟩ := (exists_of_writesRow hwrites).1 row hrow
        obtain ⟨c, hc, hca, -, hne⟩ := hr.ref a ha
        exact ⟨by rw [hr.audio]; exact hne, List.mem_map.2 ⟨c, hc, hca⟩⟩
      intro row hrow a ha
      have hboth : a ≠ row.audio ∧ a ∈ (shuffled.drop (nTest + nVal)).map Record.audio := by
        rw [List.mem_append, List.mem_append] at hrow
        obtain (hrow | hrow) | hrow := hrow
        · exact href _ _ htrain row hrow a ha
        · exact href _ _ hval row hrow a ha
        · exact href _ _ htest row hrow a ha
      obtain ⟨-, htestTrain, hvalTrain⟩ := h
      rw [hmaps.2.1, hmaps.2.2]
      exact ⟨hboth.1, fun hmem => hvalTrain hmem hboth.2, fun hmem => htestTrain hmem hboth.2⟩

/-! ## which texts can be written -/

/-- The record's texts can be written as UTF-8. -/
def Record.encodable (r : Record F) : Bool := utf8Encodable r.audio && utf8Encodable r.text

theorem WritesRow.record_encodable {r : Record F} {row : SplitRow F} (h : WritesRow train r row)
    (hrow : row.encodable = true) : r.encodable = true := by
  rw [SplitRow.encodable, h.audio, h.text] at hrow
  exact (Bool.and_eq_true_iff.1 hrow).1

theorem WritesRow.row_encodable {r : Record F} {row : SplitRow F} (h : WritesRow train r row)
    (htrain : ∀ c ∈ train, c.encodable = true) (hr : r.encodable = true) :
    row.encodable = true := by
  have href : row.refAudio.all utf8Encodable = true := by
    cases ha : row.refAudio with
    | none => rfl
    | some a =>
        obtain ⟨c, hc, hca, -⟩ := h.ref a ha
        have hc' := (Bool.and_eq_true_iff.1 (htrain c hc)).1
        rwa [hca] at hc'
  rw [SplitRow.encodable, h.audio, h.text, href, Bool.and_true]
  exact hr

/-- The rows of a deal can be written exactly if the records can. -/
theorem encodable_dealRows (nTest nVal : Nat) :
    ((dealRows ops cfg nTest nVal shuffled draws).train ++
        (dealRows ops cfg nTest nVal shuffled draws).val ++
          (dealRows ops cfg nTest nVal shuffled draws).test).all SplitRow.encodable = true ↔
      ∀ r ∈ shuffled, r.encodable = true := by
  have htrain := exists_of_writesRow (writesRow_withRef ops cfg
    (shuffled.drop (nTest + nVal)) (shuffled.drop (nTest + nVal)) draws 0)
  have hval := exists_of_writesRow (writesRow_map_plainRow (shuffled.drop (nTest + nVal))
    ((shuffled.drop nTest).take nVal))
  have htest := exists_of_writesRow (writesRow_map_plainRow (shuffled.drop (nTest + nVal))
    (shuffled.take nTest))
  rw [List.all_eq_true, List.forall_mem_append, List.forall_mem_append]
  constructor
  · intro h r hr
    obtain ⟨⟨hrows, hrows'⟩, hrows''⟩ := h
    rw [← drop_parts nTest nVal shuffled, List.mem_append, List.mem_append] at hr
    obtain hr | hr | hr := hr
    · obtain ⟨row, hrow, hwrites⟩ := htest.2 r hr
      exact hwrites.record_encodable (hrows'' row hrow)
    · obtain ⟨row, hrow, hwrites⟩ := hval.2 r hr
      exact hwrites.record_encodable (hrows' row hrow)
    · obtain ⟨row, hrow, hwrites⟩ := htrain.2 r hr
      exact hwrites.record_encodable (hrows row hrow)
  · intro h
    have hdrop : ∀ c ∈ shuffled.drop (nTest + nVal), c.encodable = true :=
      fun c hc => h c (List.mem_of_mem_drop hc)
    refine ⟨⟨?_, ?_⟩, ?_⟩
    · intro row hrow
      obtain ⟨r, hr, hwrites⟩ := htrain.1 row hrow
      exact hwrites.row_encodable hdrop (hdrop r hr)
    · intro row hrow
      obtain ⟨r, hr, hwrites⟩ := hval.1 row hrow
      exact hwrites.row_encodable hdrop (h r (List.mem_of_mem_drop (List.mem_of_mem_take hr)))
    · intro row hrow
      obtain ⟨r, hr, hwrites⟩ := htest.1 row hrow
      exact hwrites.row_encodable hdrop (h r (List.mem_of_mem_take hr))

/-! ## the law -/

/-- The split of a shuffled list succeeds and is leak-free. -/
def SplitsWell (ops : FloatOps F) (cfg : SplitConfig F) (records shuffled : List (Record F))
    (draws : Draws F) : Prop :=
  ∃ s, splitManifest ops cfg shuffled draws = .ok s ∧ LeakFree records s

/-- What is needed of the records and ratios for any split: the ratios make numbers,
and the texts can be written. -/
def Splittable (ops : FloatOps F) (cfg : SplitConfig F) (records : List (Record F))
    (nTest nVal : Nat) : Prop :=
  partSize ops records.length cfg.testRatio = .ok nTest ∧
    partSize ops records.length cfg.valRatio = .ok nVal ∧ ∀ r ∈ records, r.encodable = true

/-- One shuffle splits well exactly if no audio path is on both sides of a cut. -/
theorem splitsWell_iff (hperm : shuffled.Perm records) : SplitsWell ops cfg records shuffled draws ↔
    ∃ nTest nVal, Splittable ops cfg records nTest nVal ∧ CutApart nTest nVal shuffled := by
  have hencodable : (∀ r ∈ shuffled, r.encodable = true) ↔ ∀ r ∈ records, r.encodable = true :=
    ⟨fun h r hr => h r (hperm.mem_iff.2 hr), fun h r hr => h r (hperm.mem_iff.1 hr)⟩
  unfold SplitsWell splitManifest Splittable
  rw [hperm.length_eq]
  cases htest : partSize ops records.length cfg.testRatio with
  | error e => simp [bind, Except.bind]
  | ok nTest =>
      cases hval : partSize ops records.length cfg.valRatio with
      | error e => simp [bind, Except.bind]
      | ok nVal =>
          simp only [bind, Except.bind, pure, Except.pure, encodable_dealRows, hencodable,
            Except.ok.injEq]
          constructor
          · intro h
            obtain ⟨s, hs, hfree⟩ := h
            split at hs
            · next hall =>
                cases hs
                exact ⟨nTest, nVal, ⟨rfl, rfl, hall⟩, (leakFree_dealRows hperm nTest nVal).1 hfree⟩
            · cases hs
          · intro h
            obtain ⟨m, n, ⟨hm, hn, hall⟩, hcut⟩ := h
            subst hm
            subst hn
            rw [if_pos hall]
            exact ⟨_, rfl, (leakFree_dealRows hperm _ _).2 hcut⟩

/-- Two records with one audio path, in front of the others. -/
theorem exists_perm_of_not_nodup (h : ¬(records.map Record.audio).Nodup) :
    ∃ (a b : Record F) (rest : List (Record F)), a.audio = b.audio ∧
      (a :: (rest ++ [b])).Perm records := by
  induction records with
  | nil => simp at h
  | cons r records ih =>
      rw [List.map_cons, List.nodup_cons, not_and_or, not_not] at h
      obtain h | h := h
      · obtain ⟨b, hb, hba⟩ := List.mem_map.1 h
        obtain ⟨front, back, hsplit⟩ := List.append_of_mem hb
        refine ⟨r, b, front ++ back, hba.symm, ?_⟩
        rw [hsplit]
        refine List.Perm.cons r ?_
        rw [List.append_assoc]
        exact List.Perm.append_left front (List.perm_append_singleton b back)
      · obtain ⟨a, b, rest, hab, hperm⟩ := ih h
        refine ⟨a, b, r :: rest, hab, ?_⟩
        exact (List.Perm.swap r a (rest ++ [b])).trans (hperm.cons r)

/-- The ratios give every part at least one of ten or more records. -/
theorem partSize_pos {n m : Nat} {ratio : F} (h : partSize ops n ratio = .ok m) :
    m = 0 ∧ n < 10 ∨ 1 ≤ m ∧ 10 ≤ n := by
  unfold partSize at h
  split at h
  · next hn =>
      cases htrunc : ops.trunc (ops.mul (ops.ofNat n) ratio) with
      | error e => rw [htrunc] at h; cases h
      | ok k =>
          rw [htrunc] at h
          simp only [Except.map, Except.ok.injEq] at h
          omega
  · next hn =>
      cases h
      exact .inl ⟨rfl, by omega⟩

/-- For every shuffle, no audio path is on both sides of a cut. -/
theorem cutApart_all_iff {nTest nVal : Nat}
    (htest : partSize ops records.length cfg.testRatio = .ok nTest)
    (hval : partSize ops records.length cfg.valRatio = .ok nVal) :
    (∀ shuffled, shuffled.Perm records → CutApart nTest nVal shuffled) ↔
      records.length < 10 ∨ records.length ≤ nTest ∨ (records.map Record.audio).Nodup := by
  have hsizes := partSize_pos htest
  have hsizes' := partSize_pos hval
  constructor
  · intro h
    by_contra hnot
    rw [not_or, not_or] at hnot
    obtain ⟨hten, hsome, hdup⟩ := hnot
    obtain ⟨a, b, rest, hab, hperm⟩ := exists_perm_of_not_nodup hdup
    have hcut := h _ hperm
    have hlen := hperm.length_eq
    simp only [List.length_cons, List.length_append, List.length_nil] at hlen
    obtain ⟨m, hm⟩ : ∃ m, nTest = m + 1 := ⟨nTest - 1, by omega⟩
    have hfirst : a.audio ∈ ((a :: (rest ++ [b])).take nTest).map Record.audio := by
      rw [hm]
      simp
    have hlast : b ∈ (a :: (rest ++ [b])).drop nTest := by
      rw [hm, List.drop_succ_cons, List.drop_append_of_le_length (by omega)]
      simp
    obtain ⟨htestVal, htestTrain, -⟩ := hcut
    have hsplit := List.take_append_drop nVal ((a :: (rest ++ [b])).drop nTest)
    rw [← hsplit, List.mem_append, List.drop_drop] at hlast
    obtain hlast | hlast := hlast
    · exact htestVal hfirst (hab ▸ List.mem_map_of_mem hlast)
    · exact htestTrain hfirst (hab ▸ List.mem_map_of_mem hlast)
  · intro h shuffled hperm
    have hlen := hperm.length_eq
    obtain h | h | h := h
    · obtain ⟨ht, hv⟩ : nTest = 0 ∧ nVal = 0 := by omega
      simp [CutApart, ht, hv]
    · have hnil : shuffled.drop nTest = [] := List.drop_eq_nil_of_le (by omega)
      have hnil' : shuffled.drop (nTest + nVal) = [] := List.drop_eq_nil_of_le (by omega)
      simp [CutApart, hnil, hnil']
    · have hnodup : (shuffled.map Record.audio).Nodup := (hperm.map _).nodup_iff.2 h
      rw [← drop_parts nTest nVal shuffled, List.map_append, List.map_append, List.nodup_append',
        List.nodup_append'] at hnodup
      obtain ⟨-, ⟨-, -, hvalTrain⟩, hdisjoint⟩ := hnodup
      rw [List.disjoint_append_right] at hdisjoint
      exact ⟨hdisjoint.1, hdisjoint.2, hvalTrain⟩

/-- **The split is leak-free for every shuffle exactly if no audio path comes twice,
or one part takes everything**; and for one shuffle exactly if no path is on both
sides of a cut. -/
theorem split_leakFree (ops : FloatOps F) (cfg : SplitConfig F) (records : List (Record F)) :
    ((∀ shuffled, shuffled.Perm records → ∀ draws, SplitsWell ops cfg records shuffled draws) ↔
      ∃ nTest nVal, Splittable ops cfg records nTest nVal ∧
        (records.length < 10 ∨ records.length ≤ nTest ∨ (records.map Record.audio).Nodup)) ∧
    ∀ shuffled, shuffled.Perm records → ∀ draws, SplitsWell ops cfg records shuffled draws ↔
      ∃ nTest nVal, Splittable ops cfg records nTest nVal ∧ CutApart nTest nVal shuffled := by
  refine ⟨?_, fun shuffled hperm draws => splitsWell_iff hperm⟩
  constructor
  · intro h
    have hcut : ∀ shuffled, shuffled.Perm records →
        ∃ nTest nVal, Splittable ops cfg records nTest nVal ∧ CutApart nTest nVal shuffled := by
      intro shuffled hperm
      exact (splitsWell_iff hperm).1 (h shuffled hperm ⟨fun _ => ops.zero, fun _ => 0⟩)
    obtain ⟨nTest, nVal, hsplit, -⟩ := hcut records (.refl _)
    refine ⟨nTest, nVal, hsplit, (cutApart_all_iff hsplit.1 hsplit.2.1).1 ?_⟩
    intro shuffled hperm
    obtain ⟨m, n, hsplit', hapart⟩ := hcut shuffled hperm
    have hm := Except.ok.inj (hsplit'.1.symm.trans hsplit.1)
    have hn := Except.ok.inj (hsplit'.2.1.symm.trans hsplit.2.1)
    rwa [hm, hn] at hapart
  · intro h shuffled hperm draws
    obtain ⟨nTest, nVal, hsplit, hcond⟩ := h
    exact (splitsWell_iff hperm).2
      ⟨nTest, nVal, hsplit, (cutApart_all_iff hsplit.1 hsplit.2.1).2 hcond shuffled hperm⟩

end manifest

/-! ## a clip that comes twice -/

/-- The default ratios and bounds. -/
def SplitConfig.standard : SplitConfig Rat where
  valRatio := 1 / 10
  testRatio := 1 / 10
  refAudioRatio := 2 / 5
  minSeconds := 1
  idealMinSeconds := 3
  maxSeconds := 30

/-- A disk on which every file is a clip of five seconds. -/
def clipDisk : AudioDisk where
  present _ := true
  info _ := .ok (80000, 16000)

def demoLayout : ProjectLayout := { root := { root := 1, parts := [] }, voiceId := py "v" }

/-- The clip with this digit. -/
def demoClip (digit : Nat) : PyStr := py "audio/" ++ [digit] ++ py ".wav"

/-- Ten rows, of which the last one has the audio of the first one. -/
def tenRows : List RawLine :=
  (py "0123456780").map fun digit =>
    .row { audio := some (demoClip digit), text := some (py "a"), speakerId := none }

def tenRecords : List (Record Rat) :=
  (py "0123456780").map fun digit =>
    { audio := py "/v/" ++ demoClip digit, text := py "a", duration := 5, speakerId := py "v" }

/-- Validation accepts an audio path that comes twice, and the split puts it into
the test file and into the training file. -/
theorem repeated_clip_leaks :
    validateRawManifest FloatOps.exact demoLayout clipDisk .standard (some tenRows) =
        .ok (tenRecords, []) ∧
      ¬SplitsWell FloatOps.exact .standard tenRecords tenRecords ⟨fun _ => 0, fun _ => 0⟩ := by
  refine ⟨by with_unfolding_all rfl, ?_⟩
  intro h
  obtain ⟨nTest, nVal, ⟨htest, hval, -⟩, hcut⟩ := (splitsWell_iff (.refl _)).1 h
  have htest' : partSize FloatOps.exact tenRecords.length SplitConfig.standard.testRatio =
      .ok 1 := by
    with_unfolding_all rfl
  have hval' : partSize FloatOps.exact tenRecords.length SplitConfig.standard.valRatio = .ok 1 := by
    with_unfolding_all rfl
  obtain rfl := Except.ok.inj (htest.symm.trans htest')
  obtain rfl := Except.ok.inj (hval.symm.trans hval')
  have hleak : py "/v/" ++ demoClip 0x30 ∈ (tenRecords.take 1).map Record.audio ∧
      py "/v/" ++ demoClip 0x30 ∈ (tenRecords.drop 2).map Record.audio := by decide
  exact hcut.2.1 hleak.1 hleak.2

end NeuroVoice
