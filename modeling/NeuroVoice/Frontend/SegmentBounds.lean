import NeuroVoice.Frontend.Segment
import NeuroVoice.Lib.Lines

/-!
# NeuroVoice.Frontend.SegmentBounds

How long the segments of a text are.

Sentences are put together until they are long enough (`mergeShort_long`), and a
long sentence is then divided once: into lines of clauses, or near its middle.
Whether the segments are neither too short nor too long can be told from the long
sentences (`segmentBounds_iff`): from where there is white space in one without
clauses (`CutOnce`), and else from the lengths of the clauses.
-/

namespace NeuroVoice

open Regex

/-! ## trimmed texts -/

/-- A text with something in it and no white space at its ends. -/
def IsTrimmed (s : PyStr) : Prop := s ≠ [] ∧ stripBy isSpace s = s

section trimmed

variable {a b s : PyStr}

/-- A trimmed text neither starts nor ends with white space. -/
theorem isTrimmed_iff : IsTrimmed s ↔ s ≠ [] ∧ (∀ c ∈ s.head?, isSpace c = false) ∧
    ∀ c ∈ s.getLast?, isSpace c = false := by
  constructor
  · intro h
    have hends := stripBy_ends isSpace s
    rw [h.2] at hends
    exact ⟨h.1, hends⟩
  · intro h
    exact ⟨h.1, stripBy_of_ends h.2.1 h.2.2⟩

/-- What `strip` leaves is trimmed, if it leaves something. -/
theorem isTrimmed_stripBy (h : stripBy isSpace s ≠ []) : IsTrimmed (stripBy isSpace s) :=
  ⟨h, stripBy_stripBy isSpace s⟩

/-- Nothing is trimmed off two trimmed texts put together. -/
theorem joinTrimmed_eq (ha : IsTrimmed a) (hb : IsTrimmed b) :
    joinTrimmed a b = a ++ 0x20 :: b := by
  obtain ⟨hane, hhead, -⟩ := isTrimmed_iff.1 ha
  obtain ⟨hbne, -, hlast⟩ := isTrimmed_iff.1 hb
  refine stripBy_of_ends (fun c hc => hhead c ?_) fun c hc => hlast c ?_
  · rwa [List.head?_append_of_ne_nil _ hane] at hc
  · rwa [List.getLast?_append_of_ne_nil _ (List.cons_ne_nil _ _),
      List.getLast?_cons_of_ne_nil hbne] at hc

/-- Two trimmed texts are joined to one. -/
theorem isTrimmed_joinTrimmed (ha : IsTrimmed a) (hb : IsTrimmed b) :
    IsTrimmed (joinTrimmed a b) := by
  refine isTrimmed_stripBy ?_
  change joinTrimmed a b ≠ []
  rw [joinTrimmed_eq ha hb]
  exact List.append_ne_nil_of_left_ne_nil ha.1 _

/-- A blank joins them. -/
theorem length_joinTrimmed (ha : IsTrimmed a) (hb : IsTrimmed b) :
    (joinTrimmed a b).length = a.length + 1 + b.length := by
  rw [joinTrimmed_eq ha hb, List.length_append, List.length_cons]
  omega

/-- White space at the front of a text ends before any other character. -/
theorem length_le_of_spaces {c : Nat} {u v : PyStr} (heq : a ++ c :: b = u ++ v)
    (hc : isSpace c = false) (hu : ∀ d ∈ u, isSpace d = true) : u.length ≤ a.length := by
  by_contra hlong
  have hget : (u ++ v)[a.length]? = some c := by
    rw [← heq, List.getElem?_append_right (Nat.le_refl _), Nat.sub_self]
    rfl
  rw [List.getElem?_append_left (Nat.lt_of_not_le hlong)] at hget
  rw [hu c (List.mem_of_getElem? hget)] at hc
  cases hc

/-- Of a trimmed text nothing is stripped, whatever stands around it. -/
theorem length_le_stripBy (h : IsTrimmed s) (a b : PyStr) :
    s.length ≤ (stripBy isSpace (a ++ (s ++ b))).length := by
  obtain ⟨hne, hhead, hlast⟩ := isTrimmed_iff.1 h
  obtain ⟨u, v, heq, hu, hv, -⟩ := stripBy_split isSpace (a ++ (s ++ b))
  generalize stripBy isSpace (a ++ (s ++ b)) = t at heq
  have hfront : u.length ≤ a.length := by
    obtain ⟨c, cs, rfl⟩ := List.exists_cons_of_ne_nil hne
    exact length_le_of_spaces heq (hhead c rfl) hu
  have hback : v.length ≤ b.length := by
    obtain ⟨cs, c, rfl⟩ := (List.eq_nil_or_concat s).resolve_left hne
    have hrev := congrArg List.reverse heq
    simp only [List.concat_eq_append, List.reverse_append, List.append_assoc,
      List.singleton_append, List.reverse_cons] at hrev
    have hle := length_le_of_spaces hrev (hlast c (by simp)) fun d hd => hv d (List.mem_reverse.1 hd)
    simpa using hle
  have hlen := congrArg List.length heq
  simp only [List.length_append] at hlen
  omega

/-- A part has no more characters, white space around it aside. -/
theorem length_stripBy_infix_le (a s b : PyStr) :
    (stripBy isSpace s).length ≤ (stripBy isSpace (a ++ (s ++ b))).length := by
  obtain ⟨u, v, heq, -⟩ := stripBy_split isSpace s
  by_cases hnil : stripBy isSpace s = []
  · rw [hnil]
    exact Nat.zero_le _
  · have hle := length_le_stripBy (isTrimmed_stripBy hnil) (a ++ u) (v ++ b)
    rwa [List.append_assoc, ← List.append_assoc _ v, ← List.append_assoc u, ← heq] at hle

/-- White space around a trimmed text is stripped. -/
theorem stripBy_pad {u v : PyStr} (h : IsTrimmed s) (hu : ∀ c ∈ u, isSpace c = true)
    (hv : ∀ c ∈ v, isSpace c = true) : stripBy isSpace (u ++ (s ++ v)) = s := by
  obtain ⟨-, hhead, -⟩ := isTrimmed_iff.1 h
  have hfront : (u ++ (s ++ v)).dropWhile isSpace = s ++ v := by
    rw [List.dropWhile_append_of_pos hu]
    obtain ⟨c, cs, rfl⟩ := List.exists_cons_of_ne_nil h.1
    rw [List.cons_append, List.dropWhile_cons, hhead c rfl]
    rfl
  have hback : (s ++ v).reverse.dropWhile isSpace = s.reverse.dropWhile isSpace := by
    rw [List.reverse_append, List.dropWhile_append_of_pos fun c hc => hv c (List.mem_reverse.1 hc)]
  have hkeep : s.dropWhile isSpace = s := by
    obtain ⟨c, cs, rfl⟩ := List.exists_cons_of_ne_nil h.1
    rw [List.dropWhile_cons, hhead c rfl]
    rfl
  have hs := h.2
  rw [stripBy, hkeep] at hs
  rw [stripBy, hfront, hback, hs]

end trimmed

/-! ## short sentences -/

section short

variable {U : Unicode} {t s buf part : PyStr} {merged segs : List PyStr}

/-- The next candidate is trimmed. -/
theorem isTrimmed_candidateOf (hbuf : buf = [] ∨ IsTrimmed buf) (hpart : IsTrimmed part) :
    IsTrimmed (candidateOf buf part) := by
  unfold candidateOf
  split
  · exact hpart
  · next hne =>
      rw [List.isEmpty_iff] at hne
      exact isTrimmed_joinTrimmed (hbuf.resolve_left hne) hpart

/-- Raw sentences are trimmed. -/
theorem isTrimmed_rawSentences (h : s ∈ rawSentences U t) : IsTrimmed s := by
  obtain ⟨hs, hne⟩ := List.mem_filter.1 h
  obtain ⟨r, -, rfl⟩ := List.mem_map.1 hs
  exact isTrimmed_stripBy (by simpa using hne)

/-- What the loop of `_merge_short` has put together: long enough sentences, and
a buffer. -/
theorem mergeInto_long (hmerged : ∀ s ∈ merged, IsTrimmed s ∧ minCharsPerSegment ≤ s.length)
    (hbuf : buf = [] ∨ IsTrimmed buf) (hsegs : ∀ s ∈ segs, IsTrimmed s) :
    (∀ s ∈ mergeInto merged buf segs, IsTrimmed s) ∧
      ((∀ s ∈ mergeInto merged buf segs, minCharsPerSegment ≤ s.length) ∨
        ∃ s, mergeInto merged buf segs = [s]) := by
  induction segs generalizing merged buf with
  | nil =>
      rw [mergeInto]
      split
      · exact ⟨fun s hs => (hmerged s hs).1, .inl fun s hs => (hmerged s hs).2⟩
      · next hne =>
          rw [List.isEmpty_iff] at hne
          have hbuf := hbuf.resolve_left hne
          split
          · refine ⟨fun s hs => ?_, .inr ⟨buf, rfl⟩⟩
            rw [List.mem_singleton.1 hs]
            exact hbuf
          · next last hlast =>
              -- The buffer goes to the last sentence, which gets longer.
              obtain ⟨front, rfl⟩ := List.getLast?_eq_some_iff.1 hlast
              rw [List.dropLast_concat]
              obtain ⟨hfront, hlast⟩ := List.forall_mem_append.1 hmerged
              obtain ⟨hlast, hlen⟩ := hlast last (List.mem_singleton_self _)
              have hjoined : ∀ s ∈ front ++ [joinTrimmed last buf],
                  IsTrimmed s ∧ minCharsPerSegment ≤ s.length := by
                refine List.forall_mem_append.2 ⟨hfront, fun s hs => ?_⟩
                rw [List.mem_singleton.1 hs]
                refine ⟨isTrimmed_joinTrimmed hlast hbuf, ?_⟩
                rw [length_joinTrimmed hlast hbuf]
                omega
              exact ⟨fun s hs => (hjoined s hs).1, .inl fun s hs => (hjoined s hs).2⟩
  | cons seg segs ih =>
      obtain ⟨hseg, hsegs⟩ := List.forall_mem_cons.1 hsegs
      have hcand := isTrimmed_candidateOf hbuf hseg
      rw [mergeInto]
      split
      · exact ih hmerged (.inr hcand) hsegs
      · next hlong =>
          refine ih (List.forall_mem_append.2 ⟨hmerged, fun s hs => ?_⟩) (.inl rfl) hsegs
          rw [List.mem_singleton.1 hs]
          exact ⟨hcand, Nat.le_of_not_lt hlong⟩

/-- Sentences are trimmed, and long enough unless there is only one. -/
theorem mergeShort_long (U : Unicode) (t : PyStr) :
    (∀ s ∈ mergeShort (rawSentences U t), IsTrimmed s) ∧
      ((∀ s ∈ mergeShort (rawSentences U t), minCharsPerSegment ≤ s.length) ∨
        ∃ s, mergeShort (rawSentences U t) = [s]) := by
  have hraw : ∀ s ∈ rawSentences U t, IsTrimmed s := fun _ => isTrimmed_rawSentences
  rw [mergeShort]
  exact mergeInto_long (List.forall_mem_nil _) (.inl rfl) hraw

end short

/-! ## clauses -/

section clauses

variable {prev : Option Nat} {t m rest s p : PyStr} {ps : List (Piece Nat)} {qs : List PyStr}

/-- The end of a clause is no white space. -/
theorem isSpace_of_clauseEnd {c : Nat} (h : (c = 0x2C || c = 0x3B || c = 0x3A) = true) :
    isSpace c = false := by
  simp only [Bool.or_eq_true, decide_eq_true_eq] at h
  rcases h with (rfl | rfl) | rfl <;> rfl

/-- A clause starts where white space ends. -/
theorem edge_of_clauseEnd (hm : ∀ c ∈ m, isSpace c = true) (hne : m ≠ [])
    (h : clauseEndRe.first prev (m ++ rest) = some m.length) :
    ∀ c ∈ rest.head?, isSpace c = false := by
  have hplus : (plus (char isSpace)).first prev (m ++ rest) = some m.length := by
    rw [clauseEndRe, behind, first, ends, ends] at h
    split at h
    · simpa [first, after] using h
    · cases h
  rw [first_plus_char] at hplus
  have hedge := edge_of_first (List.length_pos_of_ne_nil hne) hm hplus
  intro c hc
  cases rest with
  | nil => cases hc
  | cons d rest =>
      obtain rfl : d = c := Option.some.inj hc
      cases hd : isSpace d with
      | false => rfl
      | true => simp [hd] at hedge

/-- The clauses of a text that does not end in white space. -/
theorem clauses_of_scanned (h : Scanned clauseEndRe prev t ps)
    (hlast : ∀ c ∈ t.getLast?, isSpace c = false) :
    ∃ p ps', between ps = p :: ps' ∧ (∀ c ∈ p.getLast?, isSpace c = false) ∧
      (p = [] → t = [] ∨ ∃ c, prev = some c ∧ isSpace c = false) ∧
      (p ≠ [] → p.head? = t.head?) ∧ ∀ q ∈ ps', IsTrimmed q := by
  induction h with
  | nil => exact ⟨[], [], rfl, by simp, fun _ => .inl rfl, fun hne => absurd rfl hne, by simp⟩
  | @plain prev c cs ps hno hscan ih =>
      have hcs : ∀ d ∈ cs.getLast?, isSpace d = false := by
        intro d hd
        refine hlast d ?_
        rw [List.getLast?_cons, hd]
        rfl
      obtain ⟨p, ps', hbetween, hp, hnil, -, hrest⟩ := ih hcs
      refine ⟨c :: p, ps', by rw [between, hbetween], ?_, ?_, fun _ => rfl, hrest⟩
      · cases p with
        | nil =>
            intro d hd
            obtain rfl : c = d := Option.some.inj hd
            obtain rfl | ⟨e, he, hspace⟩ := hnil rfl
            · exact hlast c rfl
            · rw [Option.some.inj he]
              exact hspace
        | cons e p => exact hp
      · exact fun h => absurd h (List.cons_ne_nil _ _)
  | @hit prev m rest ps hne hfirst hmatch hscan ih =>
      obtain ⟨hbehind, -, hm⟩ := matches_clauseEndRe.1 hmatch
      have hrestne : rest ≠ [] := by
        rintro rfl
        rw [List.append_nil] at hlast
        have hlast := hlast _ (List.getLast?_eq_some_getLast hne)
        rw [hm _ (List.getLast_mem hne)] at hlast
        cases hlast
      have hrest : ∀ d ∈ rest.getLast?, isSpace d = false := by
        rwa [List.getLast?_append_of_ne_nil _ hrestne] at hlast
      obtain ⟨p, ps', hbetween, hp, hnil, hhead, hps⟩ := ih hrest
      have hpne : p ≠ [] := by
        intro hpnil
        obtain h | ⟨e, he, hspace⟩ := hnil hpnil
        · exact hrestne h
        · -- Before the clause stands white space.
          rw [after, List.getLast?_eq_some_getLast hne, Option.some_or] at he
          rw [← Option.some.inj he, hm _ (List.getLast_mem hne)] at hspace
          cases hspace
      have hclause : IsTrimmed p := by
        refine isTrimmed_iff.2 ⟨hpne, ?_, hp⟩
        rw [hhead hpne]
        exact edge_of_clauseEnd hm hne hfirst
      refine ⟨[], p :: ps', by rw [between, hbetween], by simp, fun _ => .inr ?_,
        fun h => absurd rfl h, List.forall_mem_cons.2 ⟨hclause, hps⟩⟩
      cases prev with
      | none => cases hbehind
      | some c => exact ⟨c, rfl, isSpace_of_clauseEnd hbehind⟩

/-- The clauses of a trimmed text are trimmed. -/
theorem isTrimmed_clauses (hs : IsTrimmed s) :
    clauseEndRe.split s ≠ [] ∧ ∀ p ∈ clauseEndRe.split s, IsTrimmed p := by
  obtain ⟨hne, hhead, hlast⟩ := isTrimmed_iff.1 hs
  obtain ⟨p, ps, hbetween, hp, hnil, hphead, hps⟩ :=
    clauses_of_scanned (scanned_scan solid_clauseEndRe none s) hlast
  have hpne : p ≠ [] := by
    intro h
    obtain h | ⟨c, hc, -⟩ := hnil h
    · exact hne h
    · cases hc
  rw [split, hbetween]
  refine ⟨List.cons_ne_nil _ _, List.forall_mem_cons.2 ⟨?_, hps⟩⟩
  refine isTrimmed_iff.2 ⟨hpne, ?_, hp⟩
  rw [hphead hpne]
  exact hhead

/-- The loop of `_split_long` fills lines with clauses. -/
theorem packClauses_eq (out : List PyStr) (hs : IsTrimmed s) (hps : ∀ p ∈ qs, IsTrimmed p) :
    packClauses out s qs =
      out ++ fillLines joinTrimmed List.length maxCharsPerSegment s qs := by
  induction qs generalizing out s with
  | nil =>
      rw [packClauses, if_neg (by simpa using hs.1)]
      rfl
  | cons p qs ih =>
      obtain ⟨hp, hqs⟩ := List.forall_mem_cons.1 hps
      have hbuf : s.isEmpty = false := by simpa using hs.1
      have hcand : candidateOf s p = joinTrimmed s p := by rw [candidateOf, hbuf]; rfl
      rw [packClauses, fillLines, hcand, hbuf]
      by_cases hwide : maxCharsPerSegment < (joinTrimmed s p).length
      · rw [if_pos ⟨hwide, rfl⟩, if_pos hwide, ih _ hp hqs, List.append_assoc]
        rfl
      · rw [if_neg fun h => hwide h.1, if_neg hwide, ih _ (isTrimmed_joinTrimmed hs hp) hqs]

/-- The packing loop of the source fills lines of width 240. -/
theorem packClauses_clauses (hs : IsTrimmed s) (hqs : ∀ p ∈ qs, IsTrimmed p) :
    packClauses [] [] (s :: qs) = fillLines joinTrimmed List.length maxCharsPerSegment s qs := by
  have hfirst : candidateOf [] s = s := rfl
  rw [packClauses, if_neg (by simp), hfirst, packClauses_eq _ hs hqs]
  rfl

end clauses

/-! ## bounds -/

/-- White space at which a text could be split: there is enough for a segment on
either side. -/
def HasCut (s : PyStr) : Prop :=
  ∃ a c b, s = a ++ c :: b ∧ isSpace c = true ∧
    minCharsPerSegment ≤ (stripBy isSpace a).length ∧
    minCharsPerSegment ≤ (stripBy isSpace b).length

/-- Trimmed segments of no fewer than so many characters, unless there is only
one, and of no more than so many, unless they could not be split. -/
structure SegmentBounds (segments : List PyStr) : Prop where
  trimmed : ∀ s ∈ segments, IsTrimmed s
  long : segments.length = 1 ∨ ∀ s ∈ segments, minCharsPerSegment ≤ s.length
  short : ∀ s ∈ segments, maxCharsPerSegment < s.length → ¬HasCut s

/-- Where a sentence without clauses is cut: at the last space not far behind its
middle. -/
def hardCut (s : PyStr) : Option Nat :=
  (lastSpace (s.take (s.length / 2 + 40))).filter (minCharsPerSegment ≤ ·)

/-- The characters between two places of a text, white space at the ends aside. -/
def charsBetween (s : PyStr) (i j : Nat) : Nat := (stripBy isSpace ((s.take j).drop i)).length

/-- At `k` there is white space, and enough for a segment on either side. -/
def CutInside (s : PyStr) (k : Nat) : Prop :=
  (∃ c ∈ s[k]?, isSpace c = true) ∧ minCharsPerSegment ≤ charsBetween s 0 k ∧
    minCharsPerSegment ≤ charsBetween s (k + 1) s.length

/-- One cut near the middle is what the sentence needs: it can be cut there, and
where it can be cut as well, at some distance, it is not long on that side.
Without a space near the middle it cannot be cut at all. -/
def CutOnce (s : PyStr) : Prop :=
  match hardCut s with
  | none => ∀ k, ¬CutInside s k
  | some n => CutInside s n ∧ ∀ k, CutInside s k →
      (k < n → minCharsPerSegment ≤ charsBetween s (k + 1) n →
        charsBetween s 0 n ≤ maxCharsPerSegment) ∧
      (n < k → minCharsPerSegment ≤ charsBetween s (n + 1) k →
        charsBetween s (n + 1) s.length ≤ maxCharsPerSegment)

/-- A long sentence that one division is enough for; `alone` says that there is
no other sentence. -/
def DividesWell (alone : Prop) (s : PyStr) : Prop :=
  maxCharsPerSegment < s.length →
    if (clauseEndRe.split s).length = 1 then CutOnce s
    else
      -- No clause is long that could be cut.
      (∀ p ∈ clauseEndRe.split s, ∀ k, CutInside p k → p.length ≤ maxCharsPerSegment) ∧
        -- Wherever a line of clauses starts there is enough for a segment.
        ((alone ∧ MakesLine maxCharsPerSegment ((clauseEndRe.split s).map List.length)) ∨
          ∀ tail, LineStart maxCharsPerSegment tail ((clauseEndRe.split s).map List.length) →
            ReachesWidth maxCharsPerSegment minCharsPerSegment tail)

/-! ## cuts -/

section cuts

variable {s a b : PyStr} {c i j k n : Nat}

/-- From the start on, the characters up to a position. -/
theorem charsBetween_zero (s : PyStr) (j : Nat) :
    charsBetween s 0 j = (stripBy isSpace (s.take j)).length := rfl

/-- Up to the end, the characters from a position on. -/
theorem charsBetween_length (s : PyStr) (i : Nat) :
    charsBetween s i s.length = (stripBy isSpace (s.drop i)).length := by
  rw [charsBetween, List.take_length]

/-- More text has no fewer characters. -/
theorem charsBetween_le_right (s : PyStr) (i : Nat) (h : j ≤ k) :
    charsBetween s i j ≤ charsBetween s i k := by
  have hsplit : s.take k = s.take j ++ (s.take k).drop j := by
    conv_lhs => rw [← List.take_append_drop j (s.take k), List.take_take, Nat.min_eq_left h]
  rw [charsBetween, charsBetween, hsplit, List.drop_append]
  exact length_stripBy_infix_le [] _ _

/-- From a later position on there are no more characters. -/
theorem charsBetween_le_left (s : PyStr) (h : i ≤ j) (k : Nat) :
    charsBetween s j k ≤ charsBetween s i k := by
  have hsplit : (s.take k).drop i = ((s.take k).drop i).take (j - i) ++ (s.take k).drop j := by
    conv_lhs => rw [← List.take_append_drop (j - i) ((s.take k).drop i), List.drop_drop,
      Nat.add_sub_cancel' h]
  rw [charsBetween, charsBetween, hsplit]
  simpa using length_stripBy_infix_le _ ((s.take k).drop j) []

/-- Leading white space is stripped. -/
theorem stripBy_cons_space (hc : isSpace c = true) (s : PyStr) :
    stripBy isSpace (c :: s) = stripBy isSpace s := by
  rw [stripBy, stripBy, List.dropWhile_cons_of_pos hc]

/-- White space at the front does not count. -/
theorem charsBetween_succ (hc : ∃ c ∈ s[n]?, isSpace c = true) (hn : n < j) :
    charsBetween s (n + 1) j = charsBetween s n j := by
  obtain ⟨c, hget, hc⟩ := hc
  obtain ⟨hlt, hget⟩ := List.getElem?_eq_some_iff.1 hget
  have hdrop : (s.take j).drop n = c :: (s.take j).drop (n + 1) := by
    rw [List.drop_eq_getElem_cons (by rw [List.length_take]; omega), List.getElem_take, hget]
  rw [charsBetween, charsBetween, hdrop, stripBy_cons_space hc]

/-- A text has a cut where it can be cut. -/
theorem hasCut_iff : HasCut s ↔ ∃ k, CutInside s k := by
  constructor
  · rintro ⟨a, c, b, rfl, hc, ha, hb⟩
    refine ⟨a.length, ⟨c, by simp, hc⟩, ?_, ?_⟩
    · simpa [charsBetween_zero] using ha
    · rw [charsBetween_length]
      simpa using hb
  · rintro ⟨k, ⟨c, hget, hc⟩, ha, hb⟩
    obtain ⟨hlt, hget⟩ := List.getElem?_eq_some_iff.1 hget
    rw [charsBetween_length] at hb
    refine ⟨s.take k, c, s.drop (k + 1), ?_, hc, ha, hb⟩
    rw [← hget, List.getElem_cons_drop, List.take_append_drop]

/-- White space at the ends does not matter to where a text can be cut. -/
theorem hasCut_stripBy : HasCut (stripBy isSpace s) ↔ HasCut s := by
  constructor
  · rintro ⟨a, c, b, heq, hc, ha, hb⟩
    obtain ⟨u, v, hs, -⟩ := stripBy_split isSpace s
    refine ⟨u ++ a, c, b ++ v, ?_, hc, Nat.le_trans ha ?_, Nat.le_trans hb ?_⟩
    · rw [hs, heq]
      simp
    · simpa using length_stripBy_infix_le u a []
    · simpa using length_stripBy_infix_le [] b v
  · rintro ⟨a, c, b, rfl, hc, ha, hb⟩
    have hne {t : PyStr} (h : minCharsPerSegment ≤ (stripBy isSpace t).length) :
        IsTrimmed (stripBy isSpace t) := by
      refine isTrimmed_stripBy fun hnil => ?_
      rw [hnil] at h
      cases h
    obtain ⟨hane, hhead, -⟩ := isTrimmed_iff.1 (hne ha)
    obtain ⟨hbne, -, hlast⟩ := isTrimmed_iff.1 (hne hb)
    obtain ⟨u, v, hs, hu, -⟩ := stripBy_split isSpace a
    obtain ⟨u', v', hs', -, hv', -⟩ := stripBy_split isSpace b
    -- What is between the first and the last character stays.
    have hmid : IsTrimmed ((stripBy isSpace a ++ v) ++ c :: (u' ++ stripBy isSpace b)) := by
      refine isTrimmed_iff.2 ⟨by simp, fun d hd => hhead d ?_, fun d hd => hlast d ?_⟩
      · rwa [List.append_assoc, List.head?_append_of_ne_nil _ hane] at hd
      · rwa [List.getLast?_append_of_ne_nil _ (List.cons_ne_nil _ _), ← List.cons_append,
          List.getLast?_append_of_ne_nil _ hbne] at hd
    refine ⟨stripBy isSpace a ++ v, c, u' ++ stripBy isSpace b, ?_, hc, ?_, ?_⟩
    · rw [← stripBy_pad hmid hu hv']
      congr 1
      conv_lhs => rw [hs, hs']
      simp
    · have hle := length_le_stripBy (hne ha) [] v
      exact Nat.le_trans ha hle
    · have hle := length_le_stripBy (hne hb) u' []
      rw [List.append_nil] at hle
      exact Nat.le_trans hb hle

/-- Where the text before a place can be cut. -/
theorem hasCut_take : HasCut (s.take n) ↔ ∃ k < n, (∃ c ∈ s[k]?, isSpace c = true) ∧
    minCharsPerSegment ≤ charsBetween s 0 k ∧ minCharsPerSegment ≤ charsBetween s (k + 1) n := by
  have hcut (k : Nat) : CutInside (s.take n) k ↔ k < n ∧ (∃ c ∈ s[k]?, isSpace c = true) ∧
      minCharsPerSegment ≤ charsBetween s 0 k ∧ minCharsPerSegment ≤ charsBetween s (k + 1) n := by
    rw [CutInside, charsBetween_length, charsBetween_zero, charsBetween_zero, List.take_take]
    by_cases hk : k < n
    · rw [List.getElem?_take_of_lt hk, Nat.min_eq_left (Nat.le_of_lt hk)]
      exact (and_iff_right hk).symm
    · rw [List.getElem?_take_eq_none (Nat.le_of_not_lt hk)]
      simp [hk]
  simp only [hasCut_iff, hcut]

/-- Where the text from white space on can be cut. -/
theorem hasCut_drop (hc : ∃ c ∈ s[n]?, isSpace c = true) :
    HasCut (s.drop n) ↔ ∃ k, n < k ∧ (∃ c ∈ s[k]?, isSpace c = true) ∧
      minCharsPerSegment ≤ charsBetween s (n + 1) k ∧
        minCharsPerSegment ≤ charsBetween s (k + 1) s.length := by
  have hcut (k : Nat) : CutInside (s.drop n) k ↔ (∃ c ∈ s[n + k]?, isSpace c = true) ∧
      minCharsPerSegment ≤ charsBetween s n (n + k) ∧
        minCharsPerSegment ≤ charsBetween s (n + k + 1) s.length := by
    rw [CutInside, charsBetween_length, charsBetween_length, List.getElem?_drop, charsBetween_zero,
      List.drop_drop, charsBetween, List.drop_take, Nat.add_sub_cancel_left, Nat.add_assoc]
  rw [hasCut_iff]
  constructor
  · rintro ⟨k, hk⟩
    obtain ⟨hspace, hleft, hright⟩ := (hcut k).1 hk
    have hlt : n < n + k := by
      refine Nat.lt_add_of_pos_right (Nat.pos_of_ne_zero ?_)
      rintro rfl
      have hzero : charsBetween s n (n + 0) = 0 := by
        rw [charsBetween, List.drop_eq_nil_of_le (by simp)]
        rfl
      rw [hzero] at hleft
      cases hleft
    exact ⟨n + k, hlt, hspace, (charsBetween_succ hc hlt).symm ▸ hleft, hright⟩
  · rintro ⟨k, hlt, hspace, hleft, hright⟩
    obtain ⟨j, rfl⟩ := Nat.exists_eq_add_of_lt hlt
    rw [charsBetween_succ hc hlt] at hleft
    exact ⟨j + 1, (hcut (j + 1)).2 ⟨hspace, hleft, hright⟩⟩

end cuts

section bounds

variable {U : Unicode} {t s g : PyStr} {segs : List PyStr} {alone : Prop} {n : Nat}

/-- What is stripped to nothing is white space. -/
theorem forall_of_stripBy_nil {p : Nat → Bool} (h : stripBy p s = []) : ∀ c ∈ s, p c = true := by
  obtain ⟨a, b, heq, ha, hb, -⟩ := stripBy_split p s
  rw [h, List.nil_append] at heq
  rw [heq]
  exact List.forall_mem_append.2 ⟨ha, hb⟩

/-- A hard cut leaves at least 12 characters in front, and one behind. -/
theorem hardCut_spec (h : hardCut s = some n) :
    minCharsPerSegment ≤ n ∧ n < s.length := by
  obtain ⟨hlast, hn⟩ := Option.filter_eq_some_iff.1 h
  obtain ⟨hnone, -⟩ | ⟨pre, rest, heq, -, hsome⟩ :=
    lastSpace_spec (s.take (s.length / 2 + 40))
  · rw [hnone] at hlast
    cases hlast
  · rw [hsome] at hlast
    obtain rfl := Option.some.inj hlast
    have hlen := congrArg List.length heq
    rw [List.length_take, List.length_append, List.length_cons] at hlen
    exact ⟨by simpa using hn, by omega⟩

/-- A hard cut makes two stripped parts. -/
theorem splitHard_eq (s : PyStr) : splitHard s =
    match hardCut s with
    | none => [s]
    | some n => [stripBy isSpace (s.take n), stripBy isSpace (s.drop n)] := by
  rw [splitHard, hardCut]
  cases lastSpace (s.take (s.length / 2 + 40)) with
  | none => rfl
  | some n =>
      by_cases hn : n < minCharsPerSegment
      · simp [Option.filter, hn, Nat.not_le_of_gt hn]
      · simp [Option.filter, hn, Nat.le_of_not_lt hn]

/-- The cut near the middle is at white space. -/
theorem hardCut_space (h : hardCut s = some n) : ∃ c ∈ s[n]?, isSpace c = true := by
  obtain ⟨hlast, -⟩ := Option.filter_eq_some_iff.1 h
  obtain ⟨hnone, -⟩ | ⟨pre, rest, heq, -, hsome⟩ :=
    lastSpace_spec (s.take (s.length / 2 + 40))
  · rw [hnone] at hlast
    cases hlast
  · rw [hsome] at hlast
    obtain rfl := Option.some.inj hlast
    have hget : (s.take (s.length / 2 + 40))[pre.length]? = some 0x20 := by
      rw [heq, List.getElem?_append_right (Nat.le_refl _), Nat.sub_self]
      rfl
    refine ⟨0x20, ?_, rfl⟩
    obtain ⟨hlt, -⟩ := List.getElem?_eq_some_iff.1 hget
    rw [List.length_take] at hlt
    rwa [List.getElem?_take_of_lt (Nat.lt_of_lt_of_le hlt (Nat.min_le_left _ _))] at hget

/-- One cut is enough for the two sides. -/
theorem cutOnce_iff (h : hardCut s = some n) :
    CutOnce s ↔ ∀ side ∈ [s.take n, s.drop n],
      minCharsPerSegment ≤ (stripBy isSpace side).length ∧
        (maxCharsPerSegment < (stripBy isSpace side).length → ¬HasCut (stripBy isSpace side)) := by
  have hspace := hardCut_space h
  obtain ⟨c, hget, -⟩ := id hspace
  have hlt : n < s.length := (List.getElem?_eq_some_iff.1 hget).1
  have hleft : (stripBy isSpace (s.take n)).length = charsBetween s 0 n := rfl
  have hright : (stripBy isSpace (s.drop n)).length = charsBetween s (n + 1) s.length := by
    rw [← charsBetween_length, charsBetween_succ hspace hlt]
  rw [CutOnce, h]
  simp only [List.forall_mem_cons, List.not_mem_nil, false_imp_iff, implies_true, and_true,
    hasCut_stripBy, hasCut_take, hasCut_drop hspace, hleft, hright]
  constructor
  · rintro ⟨⟨-, hl, hr⟩, hfar⟩
    refine ⟨⟨hl, fun hlong ⟨k, hk, hspace', hl', hr'⟩ => ?_⟩,
      ⟨hr, fun hlong ⟨k, hk, hspace', hl', hr'⟩ => ?_⟩⟩
    · have hcut : CutInside s k :=
        ⟨hspace', hl', Nat.le_trans hr' (charsBetween_le_right s (k + 1) (Nat.le_of_lt hlt))⟩
      exact Nat.not_le_of_gt hlong ((hfar k hcut).1 hk hr')
    · have hcut : CutInside s k :=
        ⟨hspace', Nat.le_trans hl' (charsBetween_le_left s (Nat.zero_le _) k), hr'⟩
      exact Nat.not_le_of_gt hlong ((hfar k hcut).2 hk hl')
  · rintro ⟨⟨hl, hnotl⟩, hr, hnotr⟩
    refine ⟨⟨hspace, hl, hr⟩, fun k hcut => ⟨fun hk hfar => ?_, fun hk hfar => ?_⟩⟩
    · by_contra hlong
      exact hnotl (Nat.lt_of_not_le hlong) ⟨k, hk, hcut.1, hcut.2.1, hfar⟩
    · by_contra hlong
      exact hnotr (Nat.lt_of_not_le hlong) ⟨k, hk, hcut.1, hfar, hcut.2.2⟩

/-- There is something on either side of a cut. -/
theorem isTrimmed_sides (hs : IsTrimmed s) (h : hardCut s = some n) :
    IsTrimmed (stripBy isSpace (s.take n)) ∧ IsTrimmed (stripBy isSpace (s.drop n)) := by
  obtain ⟨hmin, hn⟩ := hardCut_spec h
  obtain ⟨hne, hhead, hlast⟩ := isTrimmed_iff.1 hs
  have hpos : 0 < n := Nat.lt_of_lt_of_le (by decide) hmin
  constructor
  · refine isTrimmed_stripBy fun hnil => ?_
    have hmem : s.head hne ∈ s.take n :=
      List.mem_take_iff_getElem.2 ⟨0, by omega, by simp [List.head_eq_getElem]⟩
    have := forall_of_stripBy_nil hnil _ hmem
    rw [hhead _ (List.head?_eq_some_head hne)] at this
    cases this
  · refine isTrimmed_stripBy fun hnil => ?_
    have hdrop : s.drop n ≠ [] := by simpa using hn
    have hmem := List.getLast_mem hdrop
    rw [List.getLast_drop] at hmem
    have := forall_of_stripBy_nil hnil _ hmem
    rw [hlast _ (List.getLast?_eq_some_getLast hne)] at this
    cases this

/-- A text of at most 240 characters is not split. -/
theorem splitLong_short (h : s.length ≤ maxCharsPerSegment) : splitLong s = [s] := by
  rw [splitLong, if_pos h]

/-- A long sentence with clauses is lines of clauses. -/
theorem splitLong_clauses (hs : IsTrimmed s) (h : maxCharsPerSegment < s.length)
    (hparts : (clauseEndRe.split s).length ≠ 1) : ∃ p qs, clauseEndRe.split s = p :: qs ∧
      IsTrimmed p ∧ (∀ q ∈ qs, IsTrimmed q) ∧
      splitLong s = fillLines joinTrimmed List.length maxCharsPerSegment p qs := by
  obtain ⟨hne, htrimmed⟩ := isTrimmed_clauses hs
  obtain ⟨p, qs, heq⟩ := List.exists_cons_of_ne_nil hne
  rw [heq] at htrimmed
  obtain ⟨hp, hqs⟩ := List.forall_mem_cons.1 htrimmed
  refine ⟨p, qs, heq, hp, hqs, ?_⟩
  rw [splitLong, if_neg (Nat.not_le_of_gt h)]
  dsimp only
  rw [if_neg hparts, heq, packClauses_clauses hp hqs]

/-- A long text of one clause is cut hard. -/
theorem splitLong_hard (h : maxCharsPerSegment < s.length)
    (hparts : (clauseEndRe.split s).length = 1) : splitLong s = splitHard s := by
  rw [splitLong, if_neg (Nat.not_le_of_gt h)]
  dsimp only
  rw [if_pos hparts]

/-- What a sentence is split into is trimmed, and there is something of it. -/
theorem isTrimmed_splitLong (hs : IsTrimmed s) :
    splitLong s ≠ [] ∧ ∀ g ∈ splitLong s, IsTrimmed g := by
  by_cases hlen : s.length ≤ maxCharsPerSegment
  · rw [splitLong_short hlen]
    exact ⟨List.cons_ne_nil _ _, fun g hg => List.mem_singleton.1 hg ▸ hs⟩
  · have hlong := Nat.lt_of_not_le hlen
    by_cases hparts : (clauseEndRe.split s).length = 1
    · rw [splitLong_hard hlong hparts, splitHard_eq]
      cases hcut : hardCut s with
      | none => exact ⟨List.cons_ne_nil _ _, fun g hg => List.mem_singleton.1 hg ▸ hs⟩
      | some n =>
          obtain ⟨ha, hb⟩ := isTrimmed_sides hs hcut
          exact ⟨List.cons_ne_nil _ _, by simp [ha, hb]⟩
    · obtain ⟨p, qs, -, hp, hqs, heq⟩ := splitLong_clauses hs hlong hparts
      rw [heq]
      exact ⟨fillLines_ne_nil,
        fillLines_forall (fun _ _ => isTrimmed_joinTrimmed) hp hqs⟩

/-- The segments of a sentence with clauses are as long as lines of its clauses' lengths. -/
theorem map_length_splitLong (hs : IsTrimmed s) (hlong : maxCharsPerSegment < s.length)
    (hparts : (clauseEndRe.split s).length ≠ 1) : (splitLong s).map List.length =
      lineWidths maxCharsPerSegment ((clauseEndRe.split s).map List.length) := by
  obtain ⟨p, qs, hsplit, hp, hqs, heq⟩ := splitLong_clauses hs hlong hparts
  rw [heq, hsplit, map_fillLines (P := IsTrimmed) (fun _ _ => isTrimmed_joinTrimmed)
    (fun _ _ => length_joinTrimmed) hp hqs]
  rfl

/-- Those that are too long are clauses. -/
theorem splitLong_uncut_iff (hs : IsTrimmed s) (hlong : maxCharsPerSegment < s.length)
    (hparts : (clauseEndRe.split s).length ≠ 1) :
    (∀ g ∈ splitLong s, maxCharsPerSegment < g.length → ¬HasCut g) ↔
      ∀ q ∈ clauseEndRe.split s, ∀ k, CutInside q k → q.length ≤ maxCharsPerSegment := by
  obtain ⟨p, qs, hsplit, hp, hqs, heq⟩ := splitLong_clauses hs hlong hparts
  have hcut (q : PyStr) : (∀ k, CutInside q k → q.length ≤ maxCharsPerSegment) ↔
      (maxCharsPerSegment < q.length → ¬HasCut q) := by
    rw [← Nat.not_lt, hasCut_iff]
    exact ⟨fun h hlong ⟨k, hk⟩ => h k hk hlong, fun h k hk hlong => h hlong ⟨k, hk⟩⟩
  simp only [hcut]
  rw [heq, hsplit]
  constructor
  · intro h q hq hlong
    exact h q (mem_fillLines_of_wide (P := IsTrimmed) (fun _ _ => isTrimmed_joinTrimmed)
      (fun _ _ => length_joinTrimmed) hp hqs (List.mem_cons.1 hq) hlong) hlong
  · intro h g hg hlong
    exact h g (List.mem_cons.2 (fillLines_wide hg hlong)) hlong

/-- The segments of one sentence. -/
theorem dividesWell_iff (hs : IsTrimmed s) (hmin : minCharsPerSegment ≤ s.length ∨ alone) :
    DividesWell alone s ↔
      (∀ g ∈ splitLong s, maxCharsPerSegment < g.length → ¬HasCut g) ∧
        ((alone ∧ (splitLong s).length = 1) ∨ ∀ g ∈ splitLong s, minCharsPerSegment ≤ g.length) := by
  unfold DividesWell
  by_cases hlen : s.length ≤ maxCharsPerSegment
  · have hnot := Nat.not_lt_of_ge hlen
    rw [splitLong_short hlen]
    simp [hnot, hmin.symm]
  · have hlong := Nat.lt_of_not_le hlen
    have hmin : minCharsPerSegment ≤ s.length := Nat.le_trans (by decide) (Nat.le_of_lt hlong)
    rw [forall_prop_of_true hlong]
    by_cases hparts : (clauseEndRe.split s).length = 1
    · rw [if_pos hparts, splitLong_hard hlong hparts, splitHard_eq]
      cases hcut : hardCut s with
      | none =>
          have hnone : CutOnce s ↔ ¬HasCut s := by rw [CutOnce, hcut, hasCut_iff, not_exists]
          rw [hnone]
          simp [hlong, hmin]
      | some n =>
          rw [cutOnce_iff hcut]
          simp
          tauto
    · obtain ⟨p, qs, hsplit, -, -, -⟩ := splitLong_clauses hs hlong hparts
      have hwidths := map_length_splitLong hs hlong hparts
      have hone : (splitLong s).length = 1 ↔
          MakesLine maxCharsPerSegment ((clauseEndRe.split s).map List.length) := by
        rw [← List.length_map (f := List.length), hwidths, hsplit]
        exact fillWidths_length_one_iff (makesLine_singleton _ _)
      have hleast : (∀ g ∈ splitLong s, minCharsPerSegment ≤ g.length) ↔
          ∀ tail, LineStart maxCharsPerSegment tail ((clauseEndRe.split s).map List.length) →
            ReachesWidth maxCharsPerSegment minCharsPerSegment tail := by
        rw [← List.forall_mem_map (P := fun w => minCharsPerSegment ≤ w), hwidths, hsplit]
        exact forall_lineWidths_iff _ _
      rw [if_neg hparts, splitLong_uncut_iff hs hlong hparts, hone, hleast]

/-- Characters may be exchanged before or after they are stripped. -/
theorem stripBy_map {p : Nat → Bool} {f : Nat → Nat} (hf : ∀ c, p (f c) = p c) (s : PyStr) :
    stripBy p (s.map f) = (stripBy p s).map f := by
  have hcomp : p ∘ f = p := funext hf
  rw [stripBy, stripBy, List.dropWhile_map, hcomp, ← List.map_reverse, List.dropWhile_map, hcomp,
    ← List.map_reverse]

/-- A restored dot is as little white space as its placeholder. -/
theorem isSpace_restore (c : Nat) : isSpace (if c = placeholder then 0x2E else c) = isSpace c := by
  split
  · next h =>
      subst h
      rfl
  · rfl

/-- So dots may be restored before or after. -/
theorem stripBy_restoreAbbreviations (s : PyStr) :
    stripBy isSpace (restoreAbbreviations s) = restoreAbbreviations (stripBy isSpace s) :=
  stripBy_map isSpace_restore s

/-- They are restored one for one. -/
@[simp] theorem length_restoreAbbreviations (s : PyStr) :
    (restoreAbbreviations s).length = s.length := List.length_map ..

/-- A trimmed text stays trimmed. -/
theorem isTrimmed_restoreAbbreviations (h : IsTrimmed s) : IsTrimmed (restoreAbbreviations s) := by
  refine ⟨fun hnil => h.1 (List.map_eq_nil_iff.1 hnil), ?_⟩
  rw [stripBy_restoreAbbreviations, h.2]

/-- The dots of abbreviations do not matter to where a text can be cut. -/
theorem hasCut_restoreAbbreviations : HasCut (restoreAbbreviations s) ↔ HasCut s := by
  constructor
  · rintro ⟨a, c, b, heq, hc, ha, hb⟩
    obtain ⟨a, cb, rfl, rfl, hcb⟩ := List.map_eq_append_iff.1 heq
    obtain ⟨c, b, rfl, rfl, rfl⟩ := List.map_eq_cons_iff.1 hcb
    rw [isSpace_restore] at hc
    rw [stripBy_map isSpace_restore, List.length_map] at ha hb
    exact ⟨a, c, b, rfl, hc, ha, hb⟩
  · rintro ⟨a, c, b, rfl, hc, ha, hb⟩
    refine ⟨restoreAbbreviations a, if c = placeholder then 0x2E else c, restoreAbbreviations b,
      ?_, ?_, ?_, ?_⟩
    · rw [restoreAbbreviations, List.map_append, List.map_cons]
      rfl
    · rw [isSpace_restore, hc]
    · rwa [stripBy_restoreAbbreviations, length_restoreAbbreviations]
    · rwa [stripBy_restoreAbbreviations, length_restoreAbbreviations]

/-- The bounds are those before the dots are restored. -/
theorem segmentBounds_restore (h : ∀ s ∈ segs, IsTrimmed s) :
    SegmentBounds (segs.map restoreAbbreviations) ↔
      (∀ s ∈ segs, maxCharsPerSegment < s.length → ¬HasCut s) ∧
        (segs.length = 1 ∨ ∀ s ∈ segs, minCharsPerSegment ≤ s.length) := by
  constructor
  · intro hb
    refine ⟨fun s hs hlong hcut => ?_, ?_⟩
    · refine hb.short _ (List.mem_map_of_mem hs) ?_ (hasCut_restoreAbbreviations.2 hcut)
      rwa [length_restoreAbbreviations]
    · obtain hone | hmin := hb.long
      · exact .inl (by simpa using hone)
      · exact .inr fun s hs => by simpa using hmin _ (List.mem_map_of_mem hs)
  · rintro ⟨hshort, hlong⟩
    refine ⟨?_, by simpa using hlong, ?_⟩
    · exact List.forall_mem_map.2 fun s hs => isTrimmed_restoreAbbreviations (h s hs)
    · refine List.forall_mem_map.2 fun s hs hlen => ?_
      rw [length_restoreAbbreviations] at hlen
      rw [hasCut_restoreAbbreviations]
      exact hshort s hs hlen

/-- The segments of sentences, of which none is short unless it is the only
one. -/
theorem flatMap_splitLong_iff {ss : List PyStr} (hss : ∀ s ∈ ss, IsTrimmed s)
    (hmin : (∀ s ∈ ss, minCharsPerSegment ≤ s.length) ∨ ∃ s, ss = [s]) :
    ((∀ g ∈ ss.flatMap splitLong, maxCharsPerSegment < g.length → ¬HasCut g) ∧
        ((ss.flatMap splitLong).length = 1 ∨
          ∀ g ∈ ss.flatMap splitLong, minCharsPerSegment ≤ g.length)) ↔
      ∀ s ∈ ss, DividesWell (ss.length = 1) s := by
  by_cases hone : ∃ s, ss = [s]
  · obtain ⟨s, rfl⟩ := hone
    have hs := hss s (List.mem_singleton_self s)
    have hiff := @dividesWell_iff s ([s].length = 1) hs (.inr rfl)
    rw [List.forall_mem_singleton, hiff, List.flatMap_singleton]
    simp
  · have hmin := hmin.resolve_right hone
    -- Every sentence makes at least one segment, so there are more of them.
    have hmany : (ss.flatMap splitLong).length ≠ 1 := by
      cases ss with
      | nil => exact fun h => by cases h
      | cons a ss =>
          cases ss with
          | nil => exact absurd ⟨a, rfl⟩ hone
          | cons b ss =>
              have ha := List.length_pos_of_ne_nil (isTrimmed_splitLong (hss a (by simp))).1
              have hb := List.length_pos_of_ne_nil (isTrimmed_splitLong (hss b (by simp))).1
              rw [List.flatMap_cons, List.flatMap_cons, List.length_append, List.length_append]
              omega
    have halone : ss.length ≠ 1 := fun h => hone (List.length_eq_one_iff.1 h)
    have hiff : ∀ s ∈ ss, DividesWell (ss.length = 1) s ↔
        (∀ g ∈ splitLong s, maxCharsPerSegment < g.length → ¬HasCut g) ∧
          ∀ g ∈ splitLong s, minCharsPerSegment ≤ g.length := by
      intro s hs
      rw [dividesWell_iff (hss s hs) (.inl (hmin s hs)), or_iff_right fun h => halone h.1]
    rw [or_iff_right hmany, List.forall_mem_flatMap, List.forall_mem_flatMap]
    constructor
    · intro h s hs
      exact (hiff s hs).2 ⟨h.1 s hs, h.2 s hs⟩
    · intro h
      exact ⟨fun s hs => ((hiff s hs).1 (h s hs)).1, fun s hs => ((hiff s hs).1 (h s hs)).2⟩

/-- An empty text has no abbreviation. -/
theorem protectAbbreviations_nil (U : Unicode) : protectAbbreviations U [] = [] := by
  have hsub : ∀ r : Regex Nat, r.sub hideDots [] = [] := fun _ => rfl
  have hfold : ∀ abbrs : List PyStr,
      abbrs.foldl (fun t a => (multiPeriodRe U a).sub hideDots t) [] = [] := by
    intro abbrs
    induction abbrs with
    | nil => rfl
    | cons a abbrs ih => rw [List.foldl_cons, hsub, ih]
  rw [protectAbbreviations, hfold, hsub]

/-- **A text has good segments** exactly when each of its sentences is divided
well. -/
theorem segmentBounds_iff (U : Unicode) (t : PyStr) :
    SegmentBounds (segmentSentences U t) ↔
      ∀ s ∈ mergeShort (rawSentences U t),
        DividesWell ((mergeShort (rawSentences U t)).length = 1) s := by
  obtain ⟨htrimmed, hmin⟩ := mergeShort_long U t
  rw [segmentSentences]
  split
  · next h =>
      have hblank : stripBy isSpace t = [] := by
        obtain h | h := Bool.or_eq_true_iff.1 h
        · rw [List.isEmpty_iff.1 h]
          rfl
        · exact List.isEmpty_iff.1 h
      have hraw : rawSentences U t = [] := by
        rw [rawSentences, hblank, protectAbbreviations_nil]
        rfl
      rw [hraw]
      exact ⟨fun _ => List.forall_mem_nil _, fun _ =>
        ⟨List.forall_mem_nil _, .inr (List.forall_mem_nil _), List.forall_mem_nil _⟩⟩
  · rw [segmentBounds_restore, flatMap_splitLong_iff htrimmed hmin]
    exact List.forall_mem_flatMap.2 fun s hs => (isTrimmed_splitLong (htrimmed s hs)).2

/-- A clause that fills a line leaves a segment of one letter. -/
theorem tail_is_short :
    segmentSentences Unicode.turkish (List.replicate 239 0x61 ++ py ", b") =
        [List.replicate 239 0x61 ++ py ",", py "b"] ∧
      ¬SegmentBounds (segmentSentences Unicode.turkish (List.replicate 239 0x61 ++ py ", b")) := by
  have hsegs : segmentSentences Unicode.turkish (List.replicate 239 0x61 ++ py ", b") =
      [List.replicate 239 0x61 ++ py ",", py "b"] := by
    decide +kernel
  refine ⟨hsegs, fun h => ?_⟩
  rw [hsegs] at h
  obtain hone | hmin := h.long
  · cases hone
  · exact absurd (hmin (py "b") (List.mem_cons_of_mem _ (List.mem_singleton_self _))) (by decide)

end bounds

end NeuroVoice
