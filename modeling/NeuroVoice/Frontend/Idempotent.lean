import Mathlib.Data.List.Chain
import NeuroVoice.Frontend.Passes

/-!
# NeuroVoice.Frontend.Idempotent

Normalizing what is normalized.

A normalized text is `Quiescent`: no pass has anything to do in it, so a second
run of the pipeline returns it as it is (`normalizeText_idempotent`).
-/

namespace NeuroVoice

open Regex

/-! ## blanks and newlines -/

/-- `[ \t ]`. -/
def isBlank (c : Nat) : Bool := c = 0x20 || c = 9 || c = 0xA0

/-- A newline. -/
def isNewline (c : Nat) : Bool := c = 0x0A

/-- Blanks are single spaces. -/
def Squeezed (t : PyStr) : Prop :=
  (∀ c ∈ t, isBlank c = true → c = 0x20) ∧ t.IsChain fun c d => ¬(c = 0x20 ∧ d = 0x20)

/-- There are never three newlines in a row. -/
def Sparse (t : PyStr) : Prop := ∀ pre s, t = pre ++ s → (s.takeWhile isNewline).length < 3

section blanks

variable {U : Unicode} {t : PyStr} {prev : Option Nat} {m rest : PyStr} {ps : List (Piece Nat)}

theorem solid_whitespaceRe : whitespaceRe.Solid := solid_of_least Nat.one_pos

theorem solid_multiNewlineRe : multiNewlineRe.Solid := solid_of_least (Nat.zero_lt_succ 2)

theorem matches_whitespaceRe : whitespaceRe.Matches prev m rest ↔
    m ≠ [] ∧ ∀ c ∈ m, isBlank c = true := matches_plus_char

theorem matches_multiNewlineRe : multiNewlineRe.Matches prev m rest ↔
    3 ≤ m.length ∧ ∀ c ∈ m, isNewline c = true := by
  rw [multiNewlineRe, matches_seq]
  constructor
  · rintro ⟨m₁, m₂, rfl, h₁, h₂⟩
    obtain ⟨hlen, h₁⟩ := (matches_times_char 3).1 h₁
    rw [List.length_append]
    exact ⟨by omega, fun c hc => (List.mem_append.1 hc).elim (h₁ c) (matches_star_char.1 h₂ c)⟩
  · rintro ⟨hlen, h⟩
    refine ⟨m.take 3, m.drop 3, (List.take_append_drop 3 m).symm, (matches_times_char 3).2 ⟨?_, ?_⟩,
      matches_star_char.2 fun c hc => h c (List.mem_of_mem_drop hc)⟩
    · rw [List.length_take]
      omega
    · exact fun c hc => h c (List.mem_of_mem_take hc)

theorem word_of_isBlank {c : Nat} (h : isBlank c = true) : U.word c = false := by
  have hspace : ∀ c ∈ [0x20, 9, 0xA0], isSpace c = true := by decide
  simp only [isBlank, Bool.or_eq_true, decide_eq_true_eq] at h
  exact U.word_space c (hspace c (by simp; tauto))

theorem word_newline (U : Unicode) : U.word 0x0A = false := U.word_space _ (by decide)

theorem follows_whitespace (t : PyStr) : Follows U t (whitespaceRe.sub (fun _ => [0x20]) t) := by
  refine ⟨fun K hK ht => clean_sub hK solid_whitespaceRe (fun prev m rest _ hm => ?_) ht,
    fun ht => forall_sub solid_whitespaceRe ht fun m _ c hc => ?_⟩
  · obtain ⟨hne, hblank⟩ := matches_whitespaceRe.1 hm
    have hsep : ¬IsSep 0x20 := by unfold IsSep; decide
    cases m with
    | nil => exact absurd rfl hne
    | cons c cs =>
        exact block_blank (word_of_isBlank (hblank c (by simp)))
          (List.getLast?_eq_some_getLast (List.cons_ne_nil c cs))
          (word_of_isBlank (hblank _ (List.getLast_mem _))) rfl (word_blank U) hsep
  · rw [List.mem_singleton.1 hc]
    exact tame_blank

/-- Blanks are squeezed. -/
theorem squeezed_whitespace (t : PyStr) : Squeezed (whitespaceRe.sub (fun _ => [0x20]) t) := by
  have hall : ∀ prev t ps, Scanned whitespaceRe prev t ps →
      (∀ c ∈ ps.flatMap (Piece.render fun _ => [0x20]), isBlank c = true → c = 0x20) ∧
      (ps.flatMap (Piece.render fun _ => [0x20])).IsChain (fun c d => ¬(c = 0x20 ∧ d = 0x20)) ∧
      (t.takeWhile isBlank = [] →
        ∀ c ∈ (ps.flatMap (Piece.render fun _ => [0x20])).head?, c ≠ 0x20) := by
    intro prev t ps h
    induction h with
    | nil =>
        refine ⟨fun c hc => ?_, List.IsChain.nil, fun _ c hc => ?_⟩
        · cases hc
        · cases hc
    | @plain prev c cs ps hno _ ih =>
        obtain ⟨hblank, hchain, -⟩ := ih
        have hc : isBlank c = false := by
          cases hc : isBlank c with
          | false => rfl
          | true =>
              have hm : whitespaceRe.Matches prev [c] cs :=
                matches_whitespaceRe.2 ⟨List.cons_ne_nil _ _, by simpa using hc⟩
              exact absurd hm (hno [c] cs (List.cons_ne_nil _ _) rfl)
        have hne : c ≠ 0x20 := by
          rintro rfl
          cases hc
        have hcons : (Piece.plain c :: ps).flatMap (Piece.render fun _ => [0x20]) =
            c :: ps.flatMap (Piece.render fun _ => [0x20]) := rfl
        rw [hcons]
        refine ⟨List.forall_mem_cons.2 ⟨fun h => ?_, hblank⟩,
          List.isChain_cons.2 ⟨fun d _ h => hne h.1, hchain⟩, fun _ d hd => ?_⟩
        · rw [hc] at h
          cases h
        · rwa [← Option.some.inj hd]
    | @hit prev m rest ps hne hfirst hm _ ih =>
        obtain ⟨hblank, hchain, hhead⟩ := ih
        obtain ⟨-, hmblank⟩ := matches_whitespaceRe.1 hm
        have hrest : rest.takeWhile isBlank = [] := by
          rw [whitespaceRe, first_plus_char] at hfirst
          exact edge_of_first (List.length_pos_of_ne_nil hne) hmblank hfirst
        have hcons : (Piece.hit m :: ps).flatMap (Piece.render fun _ => [0x20]) =
            0x20 :: ps.flatMap (Piece.render fun _ => [0x20]) := rfl
        rw [hcons]
        refine ⟨List.forall_mem_cons.2 ⟨fun _ => rfl, hblank⟩,
          List.isChain_cons.2 ⟨fun d hd h => hhead hrest d hd h.2, hchain⟩, fun hnil => ?_⟩
        rw [List.takeWhile_append_of_pos hmblank] at hnil
        exact absurd (List.append_eq_nil_iff.1 hnil).1 hne
  obtain ⟨hblank, hchain, -⟩ := hall none t _ (scanned_scan solid_whitespaceRe none t)
  exact ⟨hblank, hchain⟩

/-- Squeezed blanks stay. -/
theorem whitespace_eq_self (h : Squeezed t) : whitespaceRe.sub (fun _ => [0x20]) t = t := by
  refine sub_eq_self solid_whitespaceRe fun m hm => ?_
  obtain ⟨prev, rest, hmatch⟩ := matches_of_found solid_whitespaceRe hm
  obtain ⟨hne, hblank⟩ := matches_whitespaceRe.1 hmatch
  have hinf := (scanned_scan solid_whitespaceRe none t).infix_of_hit (mem_found.1 hm)
  have hspace : ∀ c ∈ m, c = 0x20 := fun c hc => h.1 c (hinf.subset hc) (hblank c hc)
  have hchain : m.IsChain fun c d => ¬(c = 0x20 ∧ d = 0x20) := by
    obtain ⟨before, behind, rfl⟩ := hinf
    exact h.2.left_of_append.right_of_append
  cases m with
  | nil => exact absurd rfl hne
  | cons c m =>
      cases m with
      | nil => rw [hspace c (by simp)]
      | cons d m =>
          have hpair := (List.isChain_cons_cons.1 hchain).1
          exact absurd ⟨hspace c (by simp), hspace d (by simp)⟩ hpair

theorem follows_multiNewline (t : PyStr) :
    Follows U t (multiNewlineRe.sub (fun _ => [0x0A, 0x0A]) t) := by
  have hnewline := word_newline U
  refine ⟨fun K hK ht => clean_sub hK solid_multiNewlineRe (fun prev m rest _ hm => ?_) ht,
    fun ht => forall_sub solid_multiNewlineRe ht fun m _ c hc => ?_⟩
  · obtain ⟨hlen, hm⟩ := matches_multiNewlineRe.1 hm
    have hword : ∀ c ∈ m, U.word c = false := by
      intro c hc
      rw [of_decide_eq_true (hm c hc)]
      exact hnewline
    have hsep : ¬IsSep 0x0A := by unfold IsSep; decide
    cases m with
    | nil => cases hlen
    | cons c cs =>
        refine ⟨List.cons_ne_nil _ _,
          .inr ⟨⟨c, cs, rfl, hword c (by simp)⟩, 0x0A, [0x0A], rfl, hnewline, hsep⟩,
          fun b₁ b₂ x h hne₁ hne₂ _ => .inl ?_, fun _ => ?_⟩
        · have hmem : ∀ d ∈ b₂, d = 0x0A := by
            intro d hd
            have hd' : d ∈ [0x0A, 0x0A] := h ▸ List.mem_append_right _ hd
            simpa using hd'
          cases b₂ with
          | nil => exact absurd rfl hne₂
          | cons d b₂ =>
              rw [hmem d (by simp)]
              exact run_cons_of_not hnewline
        · rw [after, List.getLast?_eq_some_getLast (List.cons_ne_nil c cs)]
          exact edge_some.2 (hword _ (List.getLast_mem _))
  · have hc' : c = 0x0A := by simpa using hc
    rw [hc']
    unfold Tame
    decide

theorem sparse_cons {c : Nat} (ht : Sparse t) (h : ((c :: t).takeWhile isNewline).length < 3) :
    Sparse (c :: t) := by
  intro pre s heq
  cases pre with
  | nil =>
      rw [List.nil_append] at heq
      rwa [← heq]
  | cons d pre => exact ht pre s (List.cons.inj heq).2

/-- Where newlines are few, they stay; everywhere, few are left. -/
theorem sparse_of_scanned (h : Scanned multiNewlineRe prev t ps) :
    Sparse (ps.flatMap (Piece.render fun _ => [0x0A, 0x0A])) ∧
      ((t.takeWhile isNewline).length < 3 →
        (ps.flatMap (Piece.render fun _ => [0x0A, 0x0A])).takeWhile isNewline =
          t.takeWhile isNewline) := by
  induction h with
  | nil =>
      refine ⟨fun pre s heq => ?_, fun _ => rfl⟩
      rw [(List.append_eq_nil_iff.1 heq.symm).2]
      decide
  | @plain prev c cs ps hno _ ih =>
      obtain ⟨hsparse, hkeep⟩ := ih
      have hcons : (Piece.plain c :: ps).flatMap (Piece.render fun _ => [0x0A, 0x0A]) =
          c :: ps.flatMap (Piece.render fun _ => [0x0A, 0x0A]) := rfl
      have hfew : ((c :: cs).takeWhile isNewline).length < 3 := by
        by_contra hmany
        have hm : multiNewlineRe.Matches prev ((c :: cs).takeWhile isNewline)
            ((c :: cs).dropWhile isNewline) :=
          matches_multiNewlineRe.2 ⟨Nat.not_lt.1 hmany, List.all_eq_true.1 List.all_takeWhile⟩
        refine hno _ _ (fun hnil => ?_) List.takeWhile_append_dropWhile.symm hm
        rw [hnil] at hmany
        exact hmany (by decide)
      have hsame : (c :: ps.flatMap (Piece.render fun _ => [0x0A, 0x0A])).takeWhile isNewline =
          (c :: cs).takeWhile isNewline := by
        cases hc : isNewline c with
        | false =>
            rw [List.takeWhile_cons_of_neg (by simp [hc]), List.takeWhile_cons_of_neg (by simp [hc])]
        | true =>
            rw [List.takeWhile_cons_of_pos hc] at hfew ⊢
            rw [List.takeWhile_cons_of_pos hc, hkeep]
            rw [List.length_cons] at hfew
            omega
      rw [hcons]
      exact ⟨sparse_cons hsparse (by rwa [hsame]), fun _ => hsame⟩
  | @hit prev m rest ps _ hfirst hm _ ih =>
      obtain ⟨hsparse, hkeep⟩ := ih
      obtain ⟨hlen, hnewline⟩ := matches_multiNewlineRe.1 hm
      have hrest : rest.takeWhile isNewline = [] := edge_of_first hlen hnewline hfirst
      have hout : (ps.flatMap (Piece.render fun _ => [0x0A, 0x0A])).takeWhile isNewline = [] := by
        rw [hkeep (by rw [hrest]; decide), hrest]
      have hcons : (Piece.hit m :: ps).flatMap (Piece.render fun _ => [0x0A, 0x0A]) =
          0x0A :: 0x0A :: ps.flatMap (Piece.render fun _ => [0x0A, 0x0A]) := rfl
      have hnl : isNewline 0x0A = true := by decide
      rw [hcons]
      refine ⟨sparse_cons (sparse_cons hsparse ?_) ?_, fun hfew => ?_⟩
      · rw [List.takeWhile_cons_of_pos hnl, hout]
        decide
      · rw [List.takeWhile_cons_of_pos hnl, List.takeWhile_cons_of_pos hnl, hout]
        decide
      · rw [List.takeWhile_append_of_pos hnewline, List.length_append] at hfew
        omega

/-- Newlines are at most two in a row. -/
theorem sparse_multiNewline (t : PyStr) : Sparse (multiNewlineRe.sub (fun _ => [0x0A, 0x0A]) t) :=
  (sparse_of_scanned (scanned_scan solid_multiNewlineRe none t)).1

theorem squeezed_multiNewline (h : Squeezed t) :
    Squeezed (multiNewlineRe.sub (fun _ => [0x0A, 0x0A]) t) := by
  refine ⟨forall_sub solid_multiNewlineRe h.1 fun m _ c hc hblank => ?_, ?_⟩
  · have hc' : c = 0x0A := by simpa using hc
    subst hc'
    cases hblank
  · have hall : ∀ prev t ps, Scanned multiNewlineRe prev t ps →
        t.IsChain (fun c d => ¬(c = 0x20 ∧ d = 0x20)) →
        (ps.flatMap (Piece.render fun _ => [0x0A, 0x0A])).IsChain
          (fun c d => ¬(c = 0x20 ∧ d = 0x20)) ∧
        ∀ c ∈ (ps.flatMap (Piece.render fun _ => [0x0A, 0x0A])).head?, c = 0x0A ∨ t.head? = some c := by
      intro prev t ps hscan
      induction hscan with
      | nil => exact fun _ => ⟨List.IsChain.nil, fun c hc => by cases hc⟩
      | @plain prev c cs ps _ _ ih =>
          intro hchain
          obtain ⟨hhead, hcs⟩ := List.isChain_cons.1 hchain
          obtain ⟨hout, hfirst⟩ := ih hcs
          have hcons : (Piece.plain c :: ps).flatMap (Piece.render fun _ => [0x0A, 0x0A]) =
              c :: ps.flatMap (Piece.render fun _ => [0x0A, 0x0A]) := rfl
          rw [hcons]
          refine ⟨List.isChain_cons.2 ⟨fun d hd => ?_, hout⟩, fun d hd => .inr hd⟩
          obtain rfl | hsome := hfirst d hd
          · rintro ⟨-, hd⟩
            cases hd
          · exact hhead d hsome
      | @hit prev m rest ps _ _ _ _ ih =>
          intro hchain
          obtain ⟨hout, -⟩ := ih hchain.right_of_append
          have hcons : (Piece.hit m :: ps).flatMap (Piece.render fun _ => [0x0A, 0x0A]) =
              0x0A :: 0x0A :: ps.flatMap (Piece.render fun _ => [0x0A, 0x0A]) := rfl
          rw [hcons]
          refine ⟨List.isChain_cons.2 ⟨fun d _ h => ?_, List.isChain_cons.2 ⟨fun d _ h => ?_, hout⟩⟩,
            fun d hd => .inl (Option.some.inj hd).symm⟩
          · cases h.1
          · cases h.1
    exact (hall none t _ (scanned_scan solid_multiNewlineRe none t) h.2).1

/-- Sparse newlines stay. -/
theorem multiNewline_eq_self (h : Sparse t) :
    multiNewlineRe.sub (fun _ => [0x0A, 0x0A]) t = t := by
  refine sub_of_noMatch solid_multiNewlineRe fun pre m rest heq _ hm => ?_
  obtain ⟨hlen, hm⟩ := matches_multiNewlineRe.1 hm
  have hshort := h pre (m ++ rest) heq
  rw [List.takeWhile_append_of_pos hm, List.length_append] at hshort
  omega

theorem word_of_spaces (h : ∀ c ∈ m, isSpace c = true) : Edge U.word m.head? ∧
    Edge U.word (after none m) := by
  cases m with
  | nil => exact ⟨edge_none _, edge_none _⟩
  | cons c cs =>
      rw [after, List.getLast?_eq_some_getLast (List.cons_ne_nil c cs)]
      exact ⟨edge_some.2 (U.word_space c (h c (by simp))),
        edge_some.2 (U.word_space _ (h _ (List.getLast_mem _)))⟩

theorem follows_strip (t : PyStr) : Follows U t (stripBy isSpace t) := by
  obtain ⟨a, b, ht, ha, hb, -⟩ := stripBy_split isSpace t
  refine ⟨fun K hK hclean => ?_, fun htame c hc => ?_⟩
  · rw [ht] at hclean
    exact clean_of_infix hK hclean (word_of_spaces ha).2 (word_of_spaces hb).1
  · refine htame c ?_
    rw [ht]
    exact List.mem_append_right _ (List.mem_append_left _ hc)

theorem squeezed_strip (h : Squeezed t) : Squeezed (stripBy isSpace t) := by
  obtain ⟨a, b, ht, -, -, -⟩ := stripBy_split isSpace t
  rw [ht] at h
  exact ⟨fun c hc => h.1 c (List.mem_append_right _ (List.mem_append_left _ hc)),
    h.2.right_of_append.left_of_append⟩

theorem sparse_strip (h : Sparse t) : Sparse (stripBy isSpace t) := by
  obtain ⟨a, b, ht, -, -, -⟩ := stripBy_split isSpace t
  intro pre s heq
  have hlong := h (a ++ pre) (s ++ b) (by rw [ht, heq]; simp)
  rw [List.takeWhile_append] at hlong
  split at hlong
  · next hall =>
      rw [List.length_append] at hlong
      omega
  · exact hlong

end blanks

/-! ## settled texts -/

/-- No pass of the normalization has anything to do. -/
structure Quiescent (U : Unicode) (t : PyStr) : Prop where
  tame : ∀ c ∈ t, Tame c
  abbreviations : ∀ a ∈ abbreviations, Clean U.word (a.1 <+: ·) t
  tokens : ∀ a ∈ codeMixLexicon, Clean U.word (IsToken U a.1) t
  decimals : Clean U.word (IsDecimal U) t
  short : Clean U.word (IsShort U) t
  symbols : ∀ s ∈ symbolMap, s.1 ∉ t
  squeezed : Squeezed t
  sparse : Sparse t
  stripped : stripBy isSpace t = t

section settled

variable {U : Unicode} {t u text : PyStr}

theorem not_isInvisible {c : Nat} (h : InAlphabet c = true) : isInvisible c = false := by
  have hascii : ∀ c < 128, isInvisible c = false := by decide
  have hletters : ∀ c ∈ turkishLetters ++ symbolMap.map Prod.fst, isInvisible c = false := by decide
  simp only [InAlphabet, Bool.or_eq_true, decide_eq_true_eq, List.contains_iff_mem] at h
  obtain (h | h) | h := h
  · exact hascii c h
  · exact hletters c (List.mem_append_left _ h)
  · exact hletters c (List.mem_append_right _ h)

/-- Clean text is in the alphabet and has no carriage return. -/
theorem tame_unixNewlines (h : ∀ c ∈ t, InAlphabet c = true) : ∀ c ∈ unixNewlines t, Tame c := by
  have hnewline : Tame 0x0A := by unfold Tame; decide
  fun_induction unixNewlines t with
  | case1 => exact fun c hc => by cases hc
  | case2 cs ih =>
      intro c hc
      obtain rfl | hc := List.mem_cons.1 hc
      · exact hnewline
      · exact ih (fun d hd => h d (by simp [hd])) c hc
  | case3 d cs hne ih =>
      intro c hc
      obtain rfl | hc := List.mem_cons.1 hc
      · split
        · exact hnewline
        · next hcr => exact ⟨h d (by simp), hcr⟩
      · exact ih (fun e he => h e (by simp [he])) c hc

theorem unixNewlines_eq_self (h : ∀ c ∈ t, c ≠ 0x0D) : unixNewlines t = t := by
  fun_induction unixNewlines t with
  | case1 => rfl
  | case2 cs ih => exact absurd rfl (h _ (by simp))
  | case3 d cs hne ih =>
      rw [if_neg (h d (by simp)), ih fun e he => h e (by simp [he])]

theorem filter_invisible (h : ∀ c ∈ t, InAlphabet c = true) :
    t.filter (fun c => !isInvisible c) = t :=
  List.filter_eq_self.2 fun c hc => by rw [not_isInvisible (h c hc)]; rfl

/-- **What the pipeline returns is settled.** -/
theorem settled_of_expandNumbers (ht : ∀ c ∈ t, Tame c)
    (h : expandNumbers U (expandCodeMix U (expandAbbreviations U t)) = .ok u) :
    Quiescent U (finishText u) := by
  obtain ⟨hfollows₁, habbr⟩ := follows_expandAbbreviations (U := U) t
  obtain ⟨hfollows₂, htoken⟩ := follows_expandCodeMix (U := U) (expandAbbreviations U t)
  obtain ⟨hfollows₃, hdecimal, hshort⟩ := follows_expandNumbers
    ((hfollows₁.trans hfollows₂).tame ht) h
  obtain ⟨hfollows₄, hsymbol⟩ := follows_expandSymbols (U := U) u
  have hfinish : Follows U u (finishText u) := by
    refine hfollows₄.trans ((follows_whitespace _).trans ((follows_multiNewline _).trans ?_))
    exact follows_strip _
  have hnumbers := hfollows₃.trans hfinish
  have hwords := hfollows₂.trans hnumbers
  refine ⟨(hfollows₁.trans hwords).tame ht,
    fun a ha => hwords.clean _ (window_abbreviation ha) (habbr a ha),
    fun a ha => hnumbers.clean _ (window_isToken (phrase_codeMixLexicon a ha).1) (htoken a ha),
    hfinish.clean _ (window_isDecimal U) hdecimal, hfinish.clean _ (window_isShort U) hshort,
    fun s hs hc => ?_, squeezed_strip (squeezed_multiNewline (squeezed_whitespace _)),
    sparse_strip (sparse_multiNewline _), stripBy_stripBy _ _⟩
  have hnone : ∀ c ∈ multiNewlineRe.sub (fun _ => [0x0A, 0x0A])
      (whitespaceRe.sub (fun _ => [0x20]) (expandSymbols u)), c ≠ s.1 := by
    refine forall_sub solid_multiNewlineRe (forall_sub solid_whitespaceRe
      (fun c hc heq => hsymbol s hs (heq ▸ hc)) fun m _ c hc => ?_) fun m _ c hc => ?_
    · exact not_mem_symbolMap hs (.inr (List.mem_singleton.1 hc))
    · have hne : ∀ s ∈ symbolMap, s.1 ≠ 0x0A := by decide
      have hc' : c = 0x0A := by simpa using hc
      exact fun heq => hne s hs (heq ▸ hc')
  obtain ⟨a, b, hsplit, -, -, -⟩ := stripBy_split isSpace (multiNewlineRe.sub
    (fun _ => [0x0A, 0x0A]) (whitespaceRe.sub (fun _ => [0x20]) (expandSymbols u)))
  refine hnone s.1 ?_ rfl
  rw [hsplit]
  exact List.mem_append_right _ (List.mem_append_left _ hc)

theorem foldl_eq_self {β : Type} {xs : List β} {pass : PyStr → β → PyStr}
    (h : ∀ x ∈ xs, pass t x = t) : xs.foldl pass t = t := by
  induction xs with
  | nil => rfl
  | cons x xs ih =>
      obtain ⟨hx, hxs⟩ := List.forall_mem_cons.1 h
      rw [List.foldl_cons, hx, ih hxs]

/-- The words of a settled text stay. -/
theorem spelled_of_settled (hnfkc : ∀ s, (∀ c ∈ s, InAlphabet c = true) → U.nfkc s = s)
    (h : Quiescent U u) : spelled U u = u := by
  have halpha : ∀ c ∈ u, InAlphabet c = true := fun c hc => (h.tame c hc).1
  have hclean : cleanText U u = u := by
    rw [cleanText, filter_invisible halpha, hnfkc u halpha,
      unixNewlines_eq_self fun c hc => (h.tame c hc).2]
  have habbr : expandAbbreviations U u = u := by
    have hne : ∀ a ∈ abbreviations, a.1 ≠ [] := by decide
    refine foldl_eq_self fun a ha => sub_of_noMatch (fun prev rest hm =>
      hne a ha (matches_abbreviationRe.1 hm).2.symm) ?_
    refine noMatch_of_clean (h.abbreviations a ha) fun prev m rest hm => ?_
    obtain ⟨hprev, rfl⟩ := matches_abbreviationRe.1 hm
    exact ⟨[], a.1 ++ rest, rfl, hprev, List.prefix_append _ _⟩
  have htoken : expandCodeMix U u = u := by
    refine foldl_eq_self fun a ha => ?_
    have hstem := (phrase_codeMixLexicon a ha).1
    refine sub_of_noMatch (fun prev rest hm =>
      (safe_stem _ hstem).1 ((matches_tokenRe hstem).1 hm).2.1.symm) ?_
    refine noMatch_of_clean (h.tokens a ha) fun prev m rest hm => ?_
    obtain ⟨hprev, rfl, hrest⟩ := (matches_tokenRe hstem).1 hm
    exact ⟨[], a.1 ++ rest, rfl, hprev, (run_eq (word_stem hstem) hrest).1⟩
  rw [spelled, hclean, habbr, htoken]

/-- It has no numbers. -/
theorem expandNumbers_of_quiescent (h : Quiescent U u) : expandNumbers U u = .ok u := by
  have htime : (timeRe U).trySub expandTime u = .ok u := trySub_of_noMatch (solid_timeRe U)
    (noMatch_of_clean h.short fun _ _ _ => shows_timeRe)
  have hgrouped : (thousandGroupedRe U).trySub expandThousandGrouped u = .ok u :=
    trySub_of_noMatch (solid_thousandGroupedRe U)
      (noMatch_of_clean h.short fun _ _ _ => shows_thousandGroupedRe)
  have hdecimal : (decimalRe U).trySub expandDecimal u = .ok u :=
    trySub_of_noMatch (solid_decimalRe U)
      (noMatch_of_clean h.decimals fun _ _ _ => shows_decimalRe)
  have hinteger : (integerRe U).trySub expandInteger u = .ok u :=
    trySub_of_noMatch (solid_integerRe U)
      (noMatch_of_clean h.short fun _ _ _ => shows_integerRe)
  have hbind : ∀ (f : PyStr → Except Foreign PyStr), (Except.ok u >>= f) = f u := fun f => rfl
  rw [expandNumbers, htime, hbind, hgrouped, hbind, hdecimal, hbind, hinteger]

/-- **A settled text stays as it is.** -/
theorem normalizeText_of_settled (hnfkc : ∀ s, (∀ c ∈ s, InAlphabet c = true) → U.nfkc s = s)
    (h : Quiescent U u) : normalizeText U [] u = .ok u := by
  by_cases hu : u = []
  · subst hu
    rfl
  · have hfinish : finishText u = u := by
      rw [finishText, expandSymbols_eq_self h.symbols, whitespace_eq_self h.squeezed,
        multiNewline_eq_self h.sparse, h.stripped]
    rw [normalizeText_eq hu, spelled_of_settled hnfkc h, expandNumbers_of_quiescent h, Except.map,
      hfinish]

end settled

/-- **Normalizing again changes nothing**, on texts of the alphabet. -/
theorem normalizeText_idempotent (U : Unicode)
    (hnfkc : ∀ s, (∀ c ∈ s, InAlphabet c = true) → U.nfkc s = s) (text : PyStr)
    (htext : ∀ c ∈ text, InAlphabet c = true) (u : PyStr)
    (h : normalizeText U [] text = .ok u) : normalizeText U [] u = .ok u := by
  by_cases hnil : text = []
  · subst hnil
    cases h
    rfl
  · rw [normalizeText_eq hnil] at h
    cases hnumbers : expandNumbers U (spelled U text) with
    | error e =>
        rw [hnumbers] at h
        cases h
    | ok v =>
        rw [hnumbers] at h
        obtain rfl := Except.ok.inj h
        have htame : ∀ c ∈ cleanText U text, Tame c := by
          rw [cleanText, filter_invisible htext, hnfkc text htext]
          exact tame_unixNewlines htext
        exact normalizeText_of_settled hnfkc (settled_of_expandNumbers htame hnumbers)

/-- `normalizeText_idempotent` of `Dr. Ali %5 -1.000,5 12:30`. -/
theorem normalizeText_idempotent_twice :
    normalizeText Unicode.turkish [] (py "Dr. Ali %5, -1.000,5; 12:30") =
      .ok (py "doktor Ali yüzde beş, eksi bin virgül beş; saat on iki otuz") ∧
    normalizeText Unicode.turkish []
        (py "doktor Ali yüzde beş, eksi bin virgül beş; saat on iki otuz") =
      .ok (py "doktor Ali yüzde beş, eksi bin virgül beş; saat on iki otuz") := by
  have hfirst : normalizeText Unicode.turkish [] (py "Dr. Ali %5, -1.000,5; 12:30") =
      .ok (py "doktor Ali yüzde beş, eksi bin virgül beş; saat on iki otuz") := by decide +kernel
  exact ⟨hfirst, normalizeText_idempotent Unicode.turkish (fun _ _ => rfl) _ (by decide) _ hfirst⟩

end NeuroVoice
