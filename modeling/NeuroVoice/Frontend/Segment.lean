import NeuroVoice.Frontend.Normalize

/-!
# NeuroVoice.Frontend.Segment

`frontend/lang_packs/tr/segment.py`: a text in sentences.

White space aside, what `segment_sentences` returns is the text, except that the
placeholder for the dots of abbreviations comes back as a dot wherever it came
from (`content_segmentSentences_iff`).
-/

namespace NeuroVoice

open Regex

/-! ## segment.py -/

/-- `MIN_CHARS_PER_SEGMENT`. -/
def minCharsPerSegment : Nat := 12

/-- `MAX_CHARS_PER_SEGMENT`. -/
def maxCharsPerSegment : Nat := 240

/-- `_ABBREVIATION_PERIOD_PLACEHOLDER`. -/
def placeholder : Nat := 1

/-- `_PROTECTED_ABBREVS`. -/
def protectedAbbrevs : List PyStr :=
  [py "Dr", py "Doç", py "Prof", py "Av", py "Sn", py "Hz", py "Sn", py "No", py "Cad", py "Sok",
    py "Mah", py "Apt", py "Bld", py "Blv"]

/-- `_PROTECTED_MULTI_PERIOD`. -/
def protectedMultiPeriod : List PyStr := [py "K.K.T.C", py "M.Ö", py "M.S", py "T.C"]

/-- `s.replace(".", placeholder)`. -/
def hideDots (s : PyStr) : PyStr := s.map fun c => if c = 0x2E then placeholder else c

/-- `_restore_abbreviations`. -/
def restoreAbbreviations (s : PyStr) : PyStr := s.map fun c => if c = placeholder then 0x2E else c

/-- One of some texts. -/
def oneOf (ts : List PyStr) : Regex Nat := ts.foldr (fun t r => alt (lit t) r) (char fun _ => false)

section patterns

variable (U : Unicode)

/-- `_SENTENCE_END_RE`. -/
def sentenceEndRe : Regex Nat :=
  seq (behind fun c => c = 0x2E || c = 0x21 || c = 0x3F || c = 0x2026)
    (seq (plus (char isSpace))
      (ahead fun c => (0x41 ≤ c && c ≤ 0x5A) || (py "ÇĞİÖŞÜ").contains c || isAsciiDigit c ||
        c = 0x22 || c = 0x27 || c = 0x28))

/-- The pattern of a clause's end. -/
def clauseEndRe : Regex Nat :=
  seq (behind fun c => c = 0x2C || c = 0x3B || c = 0x3A) (plus (char isSpace))

/-- The pattern of an abbreviation with several dots. -/
def multiPeriodRe (abbr : PyStr) : Regex Nat :=
  seq (boundary U.word) (seq (lit abbr) (opt (char fun c => c = 0x2E)))

/-- `_ABBREV_RE`. -/
def abbrevRe : Regex Nat :=
  seq (boundary U.word) (seq (oneOf protectedAbbrevs) (char fun c => c = 0x2E))

/-- `_protect_abbreviations`. -/
def protectAbbreviations (text : PyStr) : PyStr :=
  (abbrevRe U).sub hideDots
    (protectedMultiPeriod.foldl (fun t a => (multiPeriodRe U a).sub hideDots t) text)

end patterns

/-- `(a + " " + b).strip()`. -/
def joinTrimmed (a b : PyStr) : PyStr := stripBy isSpace (a ++ 0x20 :: b)

/-- `candidate`, in both loops. -/
def candidateOf (buf part : PyStr) : PyStr := if buf.isEmpty then part else joinTrimmed buf part

/-- The loop of `_merge_short`, and what becomes of the buffer. -/
def mergeInto (merged : List PyStr) (buf : PyStr) : List PyStr → List PyStr
  | [] =>
      if buf.isEmpty then merged
      else
        match merged.getLast? with
        | none => [buf]
        | some last => merged.dropLast ++ [joinTrimmed last buf]
  | seg :: segs =>
      if (candidateOf buf seg).length < minCharsPerSegment then
        mergeInto merged (candidateOf buf seg) segs
      else mergeInto (merged ++ [candidateOf buf seg]) [] segs

/-- `_merge_short`. -/
def mergeShort (segments : List PyStr) : List PyStr := mergeInto [] [] segments

/-- The loop of `_split_long` over the clauses. -/
def packClauses (out : List PyStr) (buf : PyStr) : List PyStr → List PyStr
  | [] => if buf.isEmpty then out else out ++ [buf]
  | part :: parts =>
      if maxCharsPerSegment < (candidateOf buf part).length ∧ !buf.isEmpty then
        packClauses (out ++ [buf]) part parts
      else packClauses out (candidateOf buf part) parts

/-- The hard split of `_split_long`, near the middle. -/
def splitHard (segment : PyStr) : List PyStr :=
  match lastSpace (segment.take (segment.length / 2 + 40)) with
  | none => [segment]
  | some ws =>
      if ws < minCharsPerSegment then [segment]
      else [stripBy isSpace (segment.take ws), stripBy isSpace (segment.drop ws)]

/-- `_split_long`. -/
def splitLong (segment : PyStr) : List PyStr :=
  if segment.length ≤ maxCharsPerSegment then [segment]
  else
    let parts := clauseEndRe.split segment
    if parts.length = 1 then splitHard segment else packClauses [] [] parts

section sentences

variable (U : Unicode)

/-- The trimmed sentences of a text. -/
def rawSentences (text : PyStr) : List PyStr :=
  ((sentenceEndRe.split (protectAbbreviations U (stripBy isSpace text))).map
    (stripBy isSpace)).filter fun r => !r.isEmpty

/-- `segment_sentences`. -/
def segmentSentences (text : PyStr) : List PyStr :=
  if text.isEmpty || (stripBy isSpace text).isEmpty then []
  else ((mergeShort (rawSentences U text)).flatMap splitLong).map restoreAbbreviations

end sentences

/-! ## what the pieces keep -/

section content

variable {U : Unicode} {r : Regex Nat} {t s a b : PyStr} {ps : List PyStr}

theorem content_flatten (ps : List PyStr) : content ps.flatten = (ps.map content).flatten :=
  List.filter_flatten ..

theorem content_joinTrimmed (a b : PyStr) : content (joinTrimmed a b) = content a ++ content b := by
  rw [joinTrimmed, content_stripBy, content_append]
  rfl

theorem content_candidateOf (a b : PyStr) :
    content (candidateOf a b) = content a ++ content b := by
  unfold candidateOf
  split
  · next h =>
      rw [List.isEmpty_iff.1 h]
      rfl
  · exact content_joinTrimmed a b

/-- Trimming the pieces and dropping the empty ones. -/
theorem content_trimmed (ps : List PyStr) :
    content (((ps.map (stripBy isSpace)).filter fun p => !p.isEmpty).flatten) =
      content ps.flatten := by
  have hdrop : ∀ qs : List PyStr, (qs.filter fun q => !q.isEmpty).flatten = qs.flatten :=
    fun _ => List.flatten_filter_not_isEmpty
  rw [hdrop, content_flatten, content_flatten, List.map_map]
  congr 2
  funext p
  exact content_stripBy p

theorem content_sub (hr : r.Solid) (h : ∀ prev m rest, r.Matches prev m rest →
    ∀ c ∈ m, isSpace c = true) (t : PyStr) : content (r.sub (fun _ => []) t) = content t := by
  have htext := (scanned_scan hr none t).text
  rw [← congrArg content htext, sub, content, content, List.filter_flatMap, List.filter_flatMap]
  refine List.flatMap_congr fun p hp => ?_
  cases p with
  | plain c => rfl
  | hit m =>
      obtain ⟨prev, rest, hm⟩ := matches_of_found hr (mem_found.2 hp)
      exact (content_eq_nil.2 (h prev m rest hm)).symm

/-- Splitting at white space. -/
theorem content_split (hr : r.Solid) (h : ∀ prev m rest, r.Matches prev m rest →
    ∀ c ∈ m, isSpace c = true) (t : PyStr) : content (r.split t).flatten = content t := by
  rw [flatten_split, content_sub hr h]

theorem matches_sentenceEndRe {prev : Option Nat} {m rest : PyStr}
    (h : sentenceEndRe.Matches prev m rest) : m ≠ [] ∧ ∀ c ∈ m, isSpace c = true := by
  rw [sentenceEndRe, behind, ahead, matches_look_seq, matches_seq_look] at h
  exact matches_plus_char.1 h.2.1

theorem matches_clauseEndRe {prev : Option Nat} {m rest : PyStr} :
    clauseEndRe.Matches prev m rest ↔
      prev.any (fun c => c = 0x2C || c = 0x3B || c = 0x3A) = true ∧
        m ≠ [] ∧ ∀ c ∈ m, isSpace c = true := by
  rw [clauseEndRe, behind, matches_look_seq, matches_plus_char]

theorem solid_sentenceEndRe : sentenceEndRe.Solid := solid_of_least Nat.one_pos

theorem solid_clauseEndRe : clauseEndRe.Solid := solid_of_least Nat.one_pos

/-- The loop of `_merge_short` carries everything. -/
theorem content_mergeInto (merged : List PyStr) (buf : PyStr) (segs : List PyStr) :
    content (mergeInto merged buf segs).flatten =
      content merged.flatten ++ content buf ++ content segs.flatten := by
  induction segs generalizing merged buf with
  | nil =>
      rw [mergeInto]
      split
      · next h =>
          rw [List.isEmpty_iff.1 h]
          simp
      · split
        · next h =>
            rw [List.getLast?_eq_none_iff.1 h]
            simp
        · next last h =>
            obtain ⟨front, rfl⟩ := List.getLast?_eq_some_iff.1 h
            simp [content_joinTrimmed]
  | cons seg segs ih =>
      rw [mergeInto]
      split
      · rw [ih, content_candidateOf]
        simp
      · rw [ih, List.flatten_append, content_append, List.flatten_singleton, content_candidateOf]
        simp

/-- The loop of `_split_long` carries everything. -/
theorem content_packClauses (out : List PyStr) (buf : PyStr) (parts : List PyStr) :
    content (packClauses out buf parts).flatten =
      content out.flatten ++ content buf ++ content parts.flatten := by
  induction parts generalizing out buf with
  | nil =>
      rw [packClauses]
      split
      · next h =>
          rw [List.isEmpty_iff.1 h]
          simp
      · simp
  | cons part parts ih =>
      rw [packClauses]
      split
      · rw [ih]
        simp
      · rw [ih, content_candidateOf]
        simp

theorem content_splitHard (s : PyStr) : content (splitHard s).flatten = content s := by
  unfold splitHard
  split
  · simp
  · split
    · simp
    · rw [List.flatten_cons, List.flatten_singleton, content_append, content_stripBy,
        content_stripBy, ← content_append, List.take_append_drop]

theorem content_splitLong (s : PyStr) : content (splitLong s).flatten = content s := by
  unfold splitLong
  split
  · simp
  · dsimp only
    split
    · exact content_splitHard s
    · rw [content_packClauses, content_split solid_clauseEndRe
        fun _ _ _ hm => (matches_clauseEndRe.1 hm).2.2]
      rfl

theorem content_flatMap_splitLong (ps : List PyStr) :
    content (ps.flatMap splitLong).flatten = content ps.flatten := by
  induction ps with
  | nil => rfl
  | cons p ps ih =>
      rw [List.flatMap_cons, List.flatten_append, content_append, ih, content_splitLong,
        List.flatten_cons, content_append]

end content

/-! ## the placeholder -/

section placeholder

variable {U : Unicode} {t s : PyStr} {ps : List PyStr}

theorem restoreAbbreviations_hideDots (s : PyStr) :
    restoreAbbreviations (hideDots s) = restoreAbbreviations s := by
  rw [restoreAbbreviations, restoreAbbreviations, hideDots, List.map_map]
  refine List.map_congr_left fun c _ => ?_
  by_cases h : c = 0x2E
  · subst h
    rfl
  · simp [h]

theorem content_restoreAbbreviations (s : PyStr) :
    content (restoreAbbreviations s) = restoreAbbreviations (content s) := by
  rw [content, content, restoreAbbreviations, restoreAbbreviations, List.filter_map]
  congr 2
  funext c
  by_cases h : c = placeholder
  · subst h
    rfl
  · simp [h]

theorem flatten_restoreAbbreviations (ps : List PyStr) :
    (ps.map restoreAbbreviations).flatten = restoreAbbreviations ps.flatten := by
  rw [restoreAbbreviations, List.map_flatten]
  rfl

/-- What is protected is restored. -/
theorem restoreAbbreviations_protect (t : PyStr) :
    restoreAbbreviations (protectAbbreviations U t) = restoreAbbreviations t := by
  have habbrev : (abbrevRe U).Solid := solid_of_least (by simp [abbrevRe, boundary, least])
  have hmulti : ∀ abbrs : List PyStr, (∀ a ∈ abbrs, a ≠ []) → ∀ t : PyStr,
      restoreAbbreviations (abbrs.foldl (fun t a => (multiPeriodRe U a).sub hideDots t) t) =
        restoreAbbreviations t := by
    intro abbrs hne
    induction abbrs with
    | nil => exact fun _ => rfl
    | cons a abbrs ih =>
        intro t
        obtain ⟨ha, hne⟩ := List.forall_mem_cons.1 hne
        have hsolid : (multiPeriodRe U a).Solid := by
          refine solid_of_least ?_
          rw [multiPeriodRe, boundary, least, least, least, least_lit]
          have := List.length_pos_of_ne_nil ha
          omega
        rw [List.foldl_cons, ih hne]
        exact map_sub hsolid restoreAbbreviations_hideDots
  rw [protectAbbreviations]
  exact (map_sub habbrev restoreAbbreviations_hideDots).trans (hmulti _ (by decide) t)

/-- White space aside, the sentences are the text with the placeholder
restored. -/
theorem content_segmentSentences (t : PyStr) :
    content (segmentSentences U t).flatten = restoreAbbreviations (content t) := by
  rw [segmentSentences]
  split
  · next h =>
      have hnil : content t = [] := by
        obtain h | h := Bool.or_eq_true_iff.1 h
        · rw [List.isEmpty_iff.1 h]
          rfl
        · rw [← content_stripBy, List.isEmpty_iff.1 h]
          rfl
      rw [hnil]
      rfl
  · rw [flatten_restoreAbbreviations, content_restoreAbbreviations, content_flatMap_splitLong,
      mergeShort, content_mergeInto, rawSentences, content_trimmed,
      content_split solid_sentenceEndRe fun _ _ _ hm => (matches_sentenceEndRe hm).2]
    rw [List.flatten_nil, content_nil, List.nil_append, List.nil_append,
      ← content_restoreAbbreviations, restoreAbbreviations_protect, content_restoreAbbreviations,
      content_stripBy]

theorem restoreAbbreviations_eq_self : restoreAbbreviations s = s ↔ placeholder ∉ s := by
  constructor
  · intro h hmem
    rw [← h] at hmem
    obtain ⟨c, -, hc⟩ := List.mem_map.1 hmem
    split at hc
    · cases hc
    · next hne => exact hne hc
  · intro h
    refine (List.map_congr_left fun c hc => ?_).trans (List.map_id' s)
    have hne : c ≠ placeholder := fun heq => h (heq ▸ hc)
    rw [if_neg hne]

end placeholder

/-- **Segmentation conserves a text** exactly when the text does not contain the
placeholder itself. -/
theorem content_segmentSentences_iff (U : Unicode) (t : PyStr) :
    content (segmentSentences U t).flatten = content t ↔ placeholder ∉ t := by
  have hspace : isSpace placeholder = false := by decide
  rw [content_segmentSentences, restoreAbbreviations_eq_self, content, List.mem_filter, hspace]
  simp

/-- A normalized text may contain the placeholder: it is read as a dot. -/
theorem placeholder_becomes_dot :
    normalizeText Unicode.turkish [] [0x61, 1, 0x62] = .ok [0x61, 1, 0x62] ∧
      segmentSentences Unicode.turkish [0x61, 1, 0x62] = [py "a.b"] ∧
      content (segmentSentences Unicode.turkish [0x61, 1, 0x62]).flatten ≠
        content [0x61, 1, 0x62] := by
  decide +kernel

end NeuroVoice
