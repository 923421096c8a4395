import NeuroVoice.Frontend.Total
import NeuroVoice.Lib.Runs

/-!
# NeuroVoice.Frontend.Passes

What one pass of the normalization leaves for another.

What the passes write is made of safe words: no abbreviation, no entry of the
lexicon and no number begins one of them, and none of them begins an
abbreviation or an entry.  So what a pass has removed, no later pass brings back
(`Follows`).
-/

namespace NeuroVoice

open Regex

/-! ## safe words -/

/-- An abbreviation without its dot. -/
def stemOf (abbr : PyStr) : PyStr := abbr.takeWhile fun c => c != 0x2E

/-- The words that a pass looks for. -/
def stems : List PyStr :=
  (abbreviations.map fun a => stemOf a.1) ++ codeMixLexicon.map Prod.fst

/-- An ASCII word character or a Turkish letter. -/
def isLetter (c : Nat) : Bool := isAsciiWord c || turkishLetters.contains c

/-- A word that no pass looks for, however it goes on. -/
def Safe (v : PyStr) : Prop :=
  v ≠ [] ∧ (∀ c ∈ v, isLetter c = true) ∧ (∀ c ∈ v.head?, isDigit c = false) ∧
    ∀ a ∈ stems, ¬a <+: v ∧ ¬v <+: a

instance (v : PyStr) : Decidable (Safe v) := inferInstanceAs (Decidable (_ ∧ _))

/-- A separator that a pattern looks at. -/
def IsSep (c : Nat) : Prop := c = 0x2E ∨ c = 0x2C

/-- Safe words with blanks in between. -/
def Phrase (b : PyStr) : Prop := ∃ ws, ws ≠ [] ∧ (∀ w ∈ ws, Safe w) ∧ b = joinWords ws

/-- The words of numbers are safe. -/
theorem safe_vocabulary : ∀ w ∈ vocabulary, Safe w := by decide +kernel

/-- Abbreviations and code-mix terms are letters, at least one. -/
theorem safe_stem : ∀ a ∈ stems, a ≠ [] ∧ ∀ c ∈ a, isLetter c = true := by decide

section safe

variable {U : Unicode} {prev : Option Nat} {m b v x : PyStr} {ws : List PyStr}

/-- A letter is a word character in any Unicode table. -/
theorem word_of_isLetter {c : Nat} (h : isLetter c = true) : U.word c = true := by
  simp only [isLetter, Bool.or_eq_true, List.contains_iff_mem] at h
  obtain h | h := h
  · have hlt : c < 128 := by
      simp only [isAsciiWord, Bool.or_eq_true, Bool.and_eq_true, decide_eq_true_eq,
        beq_iff_eq] at h
      omega
    rw [U.word_ascii c hlt, h]
  · exact U.word_turkish c h

/-- A blank is none. -/
theorem word_blank (U : Unicode) : U.word 0x20 = false := U.word_space 0x20 (by decide)

/-- Neither is a separator. -/
theorem word_sep {c : Nat} (h : IsSep c) : U.word c = false := by
  obtain rfl | rfl := h
  · rw [U.word_ascii _ (by decide)]
    rfl
  · rw [U.word_ascii _ (by decide)]
    rfl

/-- The run of word characters that a safe word begins is the word itself, or
longer. -/
theorem Safe.run_append (h : Safe v) (x : PyStr) :
    Begins Safe (run U.word (v ++ x)) := by
  rw [Regex.run_append fun c hc => word_of_isLetter (h.2.1 c hc)]
  exact ⟨v, h, List.prefix_append _ _⟩

/-- After a word there is no edge but at its end. -/
theorem after_of_word (h : ∀ c ∈ v, U.word c = true) (hne : v ≠ []) :
    ¬Edge U.word (after prev v) := by
  rw [after, List.getLast?_eq_some_getLast hne, Option.some_or, edge_some]
  simp [h _ (List.getLast_mem hne)]

/-- Where a run begins in a phrase, a safe word does. -/
theorem phrase_inside (hws : ∀ w ∈ ws, Safe w) {b₁ b₂ : PyStr} (h : joinWords ws = b₁ ++ b₂)
    (hne : b₂ ≠ []) (hedge : Edge U.word (after none b₁)) :
    Begins Safe (run U.word (b₂ ++ x)) := by
  induction ws generalizing b₁ with
  | nil =>
      have hnil := (List.append_eq_nil_iff.1 h.symm).2
      exact absurd hnil hne
  | cons w ws ih =>
      obtain ⟨hw, hws⟩ := List.forall_mem_cons.1 hws
      have hword : ∀ c ∈ w, U.word c = true := fun c hc => word_of_isLetter (hw.2.1 c hc)
      have htail : ∃ s, joinWords (w :: ws) = w ++ s ∧ (s = [] ∨ s = 0x20 :: joinWords ws) := by
        cases ws with
        | nil => exact ⟨[], by simp [joinWords, joinWith], .inl rfl⟩
        | cons w' ws => exact ⟨_, rfl, .inr rfl⟩
      obtain ⟨s, hjoin, hs⟩ := htail
      rw [hjoin] at h
      obtain ⟨rest, rfl, hrest⟩ | ⟨rest, hrne, hwsplit, rfl⟩ := split_append h
      · cases rest with
        | nil =>
            rw [List.append_nil] at hedge
            exact absurd hedge (after_of_word hword hw.1)
        | cons c rest =>
            obtain rfl | rfl := hs
            · cases hrest
            · obtain ⟨rfl, hjoin⟩ := List.cons.inj hrest
              refine ih hws hjoin ?_
              cases rest with
              | nil => exact edge_none _
              | cons d rest =>
                  rwa [after_append, after_cons, after_of_ne_nil (List.cons_ne_nil _ _) _ none]
                    at hedge
      · cases b₁ with
        | nil =>
            rw [List.nil_append] at hwsplit
            rw [← hwsplit, List.append_assoc]
            exact hw.run_append _
        | cons c b₁ =>
            refine absurd hedge (after_of_word (fun d hd => hword d ?_) (List.cons_ne_nil _ _))
            rw [hwsplit]
            exact List.mem_append_left _ hd

/-- Behind a phrase one stands after a word character. -/
theorem getLast_phrase (hws : ∀ w ∈ ws, Safe w) (hne : ws ≠ []) :
    ¬Edge U.word (after prev (joinWords ws)) := by
  have hlast : (joinWords ws).getLast? = (ws.getLast hne).getLast? := by
    rw [getLast?_joinWords fun w hw => (hws w hw).1, List.getLast?_eq_some_getLast hne]
    rfl
  have hsafe := hws _ (List.getLast_mem hne)
  rw [after, hlast]
  exact after_of_word (fun c hc => word_of_isLetter (hsafe.2.1 c hc)) hsafe.1

/-- A phrase in place of what stands where a run can begin. -/
theorem block_phrase (hprev : Edge U.word prev) (hb : Phrase b) :
    Block U.word Safe IsSep prev m b := by
  obtain ⟨ws, hne, hws, rfl⟩ := hb
  have hbegins : ∀ x, Begins Safe (run U.word (joinWords ws ++ x)) := by
    intro x
    cases ws with
    | nil => exact absurd rfl hne
    | cons w ws =>
        have hw := hws w (by simp)
        have hjoin : ∃ s, joinWords (w :: ws) = w ++ s := by
          cases ws with
          | nil => exact ⟨[], by simp [joinWords, joinWith]⟩
          | cons w' ws => exact ⟨_, rfl⟩
        obtain ⟨s, hs⟩ := hjoin
        rw [hs, List.append_assoc]
        exact hw.run_append _
  refine ⟨fun hnil => ?_, .inl ⟨hprev, hbegins⟩, fun b₁ b₂ x h _ hne₂ hedge => ?_, fun hedge => ?_⟩
  · have hlast := @getLast_phrase U none _ hws hne
    rw [hnil] at hlast
    exact hlast (edge_none _)
  · exact .inr (phrase_inside hws h hne₂ hedge)
  · exact absurd hedge (getLast_phrase hws hne)

/-- One character that is no separator in place of what ends no run and begins
none. -/
theorem block_blank {c d e : Nat} {cs : PyStr} (hc : U.word c = false) (hlast : m.getLast? = some e)
    (he : U.word e = false) (hm : m = c :: cs) (hd : U.word d = false) (hsep : ¬IsSep d) :
    Block U.word Safe IsSep prev m [d] := by
  refine ⟨List.cons_ne_nil _ _, .inr ⟨⟨c, cs, hm, hc⟩, d, [], rfl, hd, hsep⟩,
    fun b₁ b₂ x h hne₁ hne₂ _ => ?_, fun _ => ?_⟩
  · cases b₁ with
    | nil => exact absurd rfl hne₁
    | cons a b₁ =>
        have hnil := (List.cons.inj h).2
        exact absurd (List.append_eq_nil_iff.1 hnil.symm).2 hne₂
  · rw [after, hlast]
    exact edge_some.2 he

end safe

/-! ## what the passes look for -/

section windows

variable (U : Unicode)

/-- A run that begins with a stem. -/
def OpensWith (stem s : PyStr) : Prop := stem <+: run U.word s

/-- A stem and a dot. -/
def IsDotted (stem s : PyStr) : Prop :=
  run U.word s = stem ∧ ∃ rest, past U.word s = 0x2E :: rest

/-- A run that is a token. -/
def IsToken (token s : PyStr) : Prop := run U.word s = token

/-- A run of at most fifteen digits. -/
def IsShort (s : PyStr) : Prop := IsDigits (run U.word s) ∧ (run U.word s).length ≤ 15

/-- Digits, a separator, digits. -/
def IsDecimal (s : PyStr) : Prop := IsDigits (run U.word s) ∧ ∃ c rest, IsSep c ∧
  past U.word s = c :: rest ∧ IsDigits (run U.word rest)

variable {U} {a v s : PyStr}

/-- Digits begin no safe word. -/
theorem not_begins_of_digits (h : IsDigits v) : ¬Begins Safe v := by
  rintro ⟨w, hw, hpre⟩
  obtain ⟨hne, -, hhead, -⟩ := hw
  cases w with
  | nil => exact hne rfl
  | cons c w =>
      have hc := h.2 c (hpre.subset (List.mem_cons_self ..))
      rw [hhead c rfl] at hc
      cases hc

/-- What an abbreviation opens is not safe. -/
theorem not_begins_of_stem (ha : a ∈ stems) (h : a <+: v) : ¬Begins Safe v := by
  rintro ⟨w, hw, hpre⟩
  obtain ⟨hno, hno'⟩ := hw.2.2.2 a ha
  obtain hle | hle := List.prefix_or_prefix_of_prefix h hpre
  · exact hno hle
  · exact hno' hle

/-- A text with an abbreviation at its front is not empty. -/
theorem ne_nil_of_stem (ha : a ∈ stems) (h : a <+: v) : v ≠ [] := by
  rintro rfl
  exact (safe_stem a ha).1 (List.prefix_nil.1 h)

/-- Whether a stem opens a text is seen within the window. -/
theorem window_opensWith (ha : a ∈ stems) : Window U.word Safe IsSep (OpensWith U a) where
  unsafe_run s hs := ⟨ne_nil_of_stem ha hs, not_begins_of_stem ha hs⟩
  alike s s' halike hs := by
    rw [OpensWith, ← halike.1]
    exact hs

/-- So is whether it stands there as a token of its own. -/
theorem window_isToken (ha : a ∈ stems) : Window U.word Safe IsSep (IsToken U a) where
  unsafe_run s hs := by
    have hprefix : a <+: run U.word s := hs ▸ List.prefix_refl _
    exact ⟨ne_nil_of_stem ha hprefix, not_begins_of_stem ha hprefix⟩
  alike s s' halike hs := by
    rw [IsToken, ← halike.1]
    exact hs

/-- So is whether a dot follows it. -/
theorem window_isDotted (ha : a ∈ stems) : Window U.word Safe IsSep (IsDotted U a) where
  unsafe_run s hs := (window_isToken ha).unsafe_run s hs.1
  alike s s' halike hs := by
    obtain ⟨hrun, rest', hpast⟩ := hs
    obtain ⟨rest, hpast, -⟩ := halike.2 _ rest' (.inl rfl) hpast
    exact ⟨halike.1 ▸ hrun, rest, hpast⟩

/-- So is whether a short number stands there. -/
theorem window_isShort (U : Unicode) : Window U.word Safe IsSep (IsShort U) where
  unsafe_run s hs := ⟨hs.1.1, not_begins_of_digits hs.1⟩
  alike s s' halike hs := by
    rw [IsShort, ← halike.1]
    exact hs

/-- So is whether a decimal stands there. -/
theorem window_isDecimal (U : Unicode) : Window U.word Safe IsSep (IsDecimal U) where
  unsafe_run s hs := ⟨hs.1.1, not_begins_of_digits hs.1⟩
  alike s s' halike hs := by
    obtain ⟨hrun, c, rest', hc, hpast, hrest'⟩ := hs
    obtain ⟨rest, hpast, hrest | hbegins⟩ := halike.2 c rest' hc hpast
    · exact ⟨halike.1 ▸ hrun, c, rest, hc, hpast, hrest ▸ hrest'⟩
    · exact absurd hbegins (not_begins_of_digits hrest')

end windows

/-! ## what the patterns show -/

section shows

variable {U : Unicode} {prev : Option Nat} {m rest a s : PyStr}

/-- A stem consists of word characters. -/
theorem word_stem (ha : a ∈ stems) : ∀ c ∈ a, U.word c = true := fun c hc =>
  word_of_isLetter ((safe_stem a ha).2 c hc)

/-- Digits are word characters. -/
theorem word_digits {ds : PyStr} (h : IsDigits ds) : ∀ c ∈ ds, U.word c = true := fun c hc =>
  U.word_digit c (h.2 c hc)

/-- A stem opens a text that begins with it. -/
theorem opensWith_iff (ha : a ∈ stems) : OpensWith U a s ↔ a <+: s := by
  constructor
  · intro h
    exact h.trans (List.takeWhile_prefix _)
  · rintro ⟨t, rfl⟩
    rw [OpensWith, Regex.run_append (word_stem ha)]
    exact List.prefix_append _ _

/-- A dotted stem is a stem and a dot at the front. -/
theorem isDotted_iff (ha : a ∈ stems) : IsDotted U a s ↔ a ++ [0x2E] <+: s := by
  constructor
  · rintro ⟨hrun, rest, hpast⟩
    have hs := @run_append_past _ U.word s
    rw [hrun, hpast] at hs
    exact ⟨rest, by rw [← hs]; simp⟩
  · rintro ⟨t, rfl⟩
    obtain ⟨hrun, hpast⟩ := run_eq_cons (word_stem (U := U) ha) (word_sep (.inl rfl)) t
    rw [List.append_assoc, List.singleton_append]
    exact ⟨hrun, t, hpast⟩

/-- An abbreviation is a stem, or a stem and a dot. -/
theorem abbreviation_cases : ∀ a ∈ abbreviations,
    stemOf a.1 ∈ stems ∧ (a.1 = stemOf a.1 ∨ a.1 = stemOf a.1 ++ [0x2E]) := by decide

/-- Every abbreviation of the table is seen within the window. -/
theorem window_abbreviation {abbr : PyStr × PyStr} (h : abbr ∈ abbreviations) :
    Window U.word Safe IsSep (abbr.1 <+: ·) := by
  obtain ⟨hstem, hplain | hdotted⟩ := abbreviation_cases abbr h
  · have heq : (abbr.1 <+: ·) = OpensWith U (stemOf abbr.1) := by
      funext s
      rw [hplain, ← hplain, opensWith_iff hstem, ← hplain]
    rw [heq]
    exact window_opensWith hstem
  · have heq : (abbr.1 <+: ·) = IsDotted U (stemOf abbr.1) := by
      funext s
      rw [isDotted_iff hstem, ← hdotted]
    rw [heq]
    exact window_isDotted hstem

/-- The pattern of an abbreviation finds it behind an edge. -/
theorem matches_abbreviationRe : (abbreviationRe U a).Matches prev m rest ↔
    Edge U.word prev ∧ m = a := by
  rw [abbreviationRe, notBehind, matches_look_seq, matches_lit]
  rfl

/-- The pattern of a token finds it between two edges. -/
theorem matches_tokenRe (ha : a ∈ stems) : (tokenRe U a).Matches prev m rest ↔
    Edge U.word prev ∧ m = a ∧ Edge U.word rest.head? := by
  rw [tokenRe, boundary, matches_look_seq, matches_seq_look, matches_lit]
  have hne := (safe_stem a ha).1
  have hword := word_stem (U := U) ha
  have hhead : (a ++ rest).head?.any U.word = true := by
    cases a with
    | nil => exact absurd rfl hne
    | cons c a => exact hword c (by simp)
  have hlast : (after prev a).any U.word = true := by
    rw [after, List.getLast?_eq_some_getLast hne]
    exact hword _ (List.getLast_mem hne)
  constructor
  · rintro ⟨hstart, rfl, hend⟩
    rw [hhead] at hstart
    rw [hlast] at hend
    exact ⟨by simpa [Edge] using hstart, rfl, by simpa [Edge] using hend⟩
  · rintro ⟨hstart, rfl, hend⟩
    rw [hhead, hlast]
    exact ⟨by simpa [Edge] using hstart, rfl, by simpa [Edge] using hend⟩

/-- A minus sign keeps the edge open. -/
theorem edge_minus {negative : Bool} (h : Edge U.word prev) :
    Edge U.word (after prev (minus negative)) := by
  cases negative with
  | true =>
      have hminus : U.word 0x2D = false := by
        rw [U.word_ascii _ (by decide)]
        rfl
      exact edge_some.2 hminus
  | false => exact h

/-- What a number pattern matches shows a short run, or a decimal. -/
theorem shows_integerRe (h : (integerRe U).Matches prev m rest) :
    ∃ pre s, m ++ rest = pre ++ s ∧ Edge U.word (after prev pre) ∧ IsShort U s := by
  obtain ⟨hprev, hrest, negative, ds, rfl, hds, hlen⟩ := matches_integerRe.1 h
  refine ⟨minus negative, ds ++ rest, by simp, edge_minus hprev, ?_⟩
  rw [IsShort, (run_eq (word_digits hds) hrest).1]
  exact ⟨hds, hlen⟩

/-- Where the pattern of times matches, a short number stands at an edge. -/
theorem shows_timeRe (h : (timeRe U).Matches prev m rest) :
    ∃ pre s, m ++ rest = pre ++ s ∧ Edge U.word (after prev pre) ∧ IsShort U s := by
  obtain ⟨hprev, -, hh, mm, rfl, hhh, hhour, -, -⟩ := matches_timeRe h
  have hcolon : U.word 0x3A = false := by
    rw [U.word_ascii _ (by decide)]
    rfl
  refine ⟨[], hh ++ 0x3A :: (mm ++ rest), by simp, hprev, ?_⟩
  rw [IsShort, (run_eq_cons (word_digits hhh) hcolon _).1]
  exact ⟨hhh, by omega⟩

/-- So it is for grouped numbers. -/
theorem shows_thousandGroupedRe (h : (thousandGroupedRe U).Matches prev m rest) :
    ∃ pre s, m ++ rest = pre ++ s ∧ Edge U.word (after prev pre) ∧ IsShort U s := by
  obtain ⟨hprev, -, negative, ds, gs, frac, rfl, hds, hlen, hne, -, -⟩ :=
    matches_thousandGroupedRe.1 h
  cases gs with
  | nil => exact absurd rfl hne
  | cons g gs =>
      refine ⟨minus negative, ds ++ 0x2E :: (g ++ dotted gs ++ tail frac ++ rest), ?_,
        edge_minus hprev, ?_⟩
      · simp [dotted]
      · rw [IsShort, (run_eq_cons (word_digits hds) (word_sep (.inl rfl)) _).1]
        exact ⟨hds, by omega⟩

/-- Where the pattern of decimals matches, a decimal stands at an edge. -/
theorem shows_decimalRe (h : (decimalRe U).Matches prev m rest) :
    ∃ pre s, m ++ rest = pre ++ s ∧ Edge U.word (after prev pre) ∧ IsDecimal U s := by
  obtain ⟨hprev, hrest, negative, ds, sep, fs, rfl, hds, hfs, hsep⟩ := matches_decimalRe.1 h
  obtain ⟨hrun, hpast⟩ := run_eq_cons (word_digits (U := U) hds) (word_sep hsep) (fs ++ rest)
  refine ⟨minus negative, ds ++ sep :: (fs ++ rest), by simp, edge_minus hprev, ?_⟩
  refine ⟨by rwa [hrun], sep, fs ++ rest, hsep, hpast, ?_⟩
  rwa [(run_eq (word_digits hfs) hrest).1]

/-- Every short run is found. -/
theorem finds_integerRe (hprev : Edge U.word prev) (hs : IsShort U s) :
    ∃ m rest, m ≠ [] ∧ s = m ++ rest ∧ (integerRe U).Matches prev m rest :=
  ⟨run U.word s, past U.word s, hs.1.1, (run_append_past s).symm,
    matches_integerRe.2 ⟨hprev, edge_past s, false, _, rfl, hs.1, hs.2⟩⟩

/-- Every decimal is found. -/
theorem finds_decimalRe (hprev : Edge U.word prev) (hs : IsDecimal U s) :
    ∃ m rest, m ≠ [] ∧ s = m ++ rest ∧ (decimalRe U).Matches prev m rest := by
  obtain ⟨hds, c, rest, hc, hpast, hfs⟩ := hs
  refine ⟨run U.word s ++ c :: run U.word rest, past U.word rest, by simp, ?_,
    matches_decimalRe.2 ⟨hprev, edge_past rest, false, _, c, _, rfl, hds, hfs, hc⟩⟩
  have hboth := @run_append_past _ U.word s
  rw [hpast] at hboth
  rw [List.append_assoc, List.cons_append, run_append_past, hboth]

end shows

/-! ## what the passes write -/

/-- ASCII, the letters of Turkish and the symbols. -/
def InAlphabet (c : Nat) : Bool :=
  decide (c < 128) || turkishLetters.contains c || (symbolMap.map Prod.fst).contains c

section writes

variable {U : Unicode} {prev : Option Nat} {m rest w ds fs : PyStr} {ws : List PyStr}
  {negative : Bool} {n : Nat}

/-- A digit of the alphabet has a word of its own. -/
theorem not_isForeignZero {c : Nat} (hc : InAlphabet c = true) (h : isDigit c = true) :
    ¬IsForeignZero c := by
  have hascii : ∀ c < 128, isDigit c = true → ¬IsForeignZero c := by decide +kernel
  have hletters : ∀ c ∈ turkishLetters ++ symbolMap.map Prod.fst, isDigit c = false := by
    decide +kernel
  by_cases hlt : c < 128
  · exact hascii c hlt h
  · have hmem : c ∈ turkishLetters ++ symbolMap.map Prod.fst := by
      simp only [InAlphabet, Bool.or_eq_true, decide_eq_true_eq, List.contains_iff_mem] at hc
      simp only [List.mem_append]
      tauto
    rw [hletters c hmem] at h
    cases h

/-- Words of the vocabulary are a phrase. -/
theorem phrase_of_vocabulary (hne : ws ≠ []) (h : ∀ w ∈ ws, w ∈ vocabulary) :
    Phrase (joinWords ws) :=
  ⟨ws, hne, fun w hw => safe_vocabulary w (h w hw), rfl⟩

/-- Digits that were said are below the limit, and said as their value. -/
theorem of_sayDigits_map {f : PyStr → PyStr} (hds : IsDigits ds)
    (h : (sayDigits ds).map f = .ok w) :
    w = f (joinWords (cardinal (Int.ofNat (digitsValue ds)))) ∧ digitsValue ds < 10 ^ 15 := by
  have hsay := (sayDigits_map_ok hds).1 ⟨w, h⟩
  rw [sayDigits_of_sayable hds hsay] at h
  exact ⟨(Except.ok.inj h).symm, hsay.2⟩

/-- A sign and words. -/
theorem sayMinus_joinWords (hne : ws ≠ []) : sayMinus negative ++ joinWords ws =
    joinWords ((if negative then [py "eksi"] else []) ++ ws) := by
  cases negative with
  | true => exact (@joinWords_append [py "eksi"] _ (List.cons_ne_nil _ _) hne).symm
  | false => rfl

/-- The word for minus is in the vocabulary. -/
theorem sign_vocabulary (h : ∀ w ∈ ws, w ∈ vocabulary) :
    ∀ w ∈ (if negative then [py "eksi"] else []) ++ ws, w ∈ vocabulary := by
  intro w hw
  obtain hw | hw := List.mem_append.1 hw
  · cases negative with
    | true =>
        rw [List.mem_singleton.1 hw]
        decide
    | false => cases hw
  · exact h w hw

/-- A phrase may have a minus in front. -/
theorem phrase_sayMinus (hne : ws ≠ []) (h : ∀ w ∈ ws, w ∈ vocabulary) :
    Phrase (sayMinus negative ++ joinWords ws) := by
  rw [sayMinus_joinWords hne]
  exact phrase_of_vocabulary (by simp [hne]) (sign_vocabulary h)

/-- An integer is said as a phrase. -/
theorem phrase_cardinal (h : n < 10 ^ 15) :
    Phrase (sayMinus negative ++ joinWords (cardinal (Int.ofNat n))) := by
  obtain ⟨-, hne, hvoc⟩ := numberToTurkish_eq (n := Int.ofNat n) h
  exact phrase_sayMinus hne hvoc

/-- So is a digit of a fraction. -/
theorem wordOfDigit_vocabulary {d : Nat} (h : ¬IsForeignZero d) : wordOfDigit d ∈ vocabulary := by
  unfold wordOfDigit
  split
  · decide
  · next hne =>
      exact mem_vocabulary_ones _ (digitValue_lt d) fun hzero => h ⟨hzero, hne⟩

/-- The words of a decimal with digits of ASCII. -/
theorem decimalWords_vocabulary (h : n < 10 ^ 15) (hfs : ∀ d ∈ fs, ¬IsForeignZero d) :
    ∀ w ∈ decimalWords false n fs, w ∈ vocabulary := by
  have hvoc := (numberToTurkish_eq (n := Int.ofNat n) h).2.2
  intro w hw
  rw [decimalWords, List.mem_append, List.mem_append, List.mem_cons] at hw
  obtain (hw | hw) | rfl | hw := hw
  · cases hw
  · exact hvoc w hw
  · decide
  · obtain ⟨d, hd, rfl⟩ := List.mem_map.1 hw
    exact wordOfDigit_vocabulary (hfs d hd)

/-- A decimal is said as a phrase, whichever way its sign is put in front. -/
theorem phrase_decimal (h : n < 10 ^ 15) (hne : fs ≠ []) (hfs : ∀ d ∈ fs, ¬IsForeignZero d) :
    Phrase (stripBy isSpace (sayMinus negative ++ joinWords (cardinal (Int.ofNat n)) ++
      py " virgül " ++ joinWords (fs.map wordOfDigit))) ∧
    Phrase (sayMinus negative ++ stripBy isSpace (joinWords (cardinal (Int.ofNat n)) ++
      py " virgül " ++ joinWords (fs.map wordOfDigit))) := by
  have hvoc := decimalWords_vocabulary h hfs
  have hwords : decimalWords false n fs ≠ [] := by simp [decimalWords]
  have hstrip : ∀ ws : List PyStr, (∀ w ∈ ws, w ∈ vocabulary) →
      stripBy isSpace (joinWords ws) = joinWords ws := fun ws hws =>
    stripBy_joinWords fun w hw => isWord_of_vocabulary w (hws w hw)
  have hsigned : sayMinus negative ++ joinWords (cardinal (Int.ofNat n)) ++ py " virgül " ++
      joinWords (fs.map wordOfDigit) =
        joinWords ((if negative then [py "eksi"] else []) ++ decimalWords false n fs) := by
    rw [← sayMinus_joinWords hwords, joinWords_decimalWords hne h]
    simp
  rw [hsigned, hstrip _ (sign_vocabulary hvoc), ← joinWords_decimalWords hne h, hstrip _ hvoc]
  exact ⟨phrase_of_vocabulary (by simp [hwords]) (sign_vocabulary hvoc),
    phrase_sayMinus hwords hvoc⟩

/-- What an integer is replaced by is a phrase. -/
theorem phrase_expandInteger (hm : (integerRe U).Matches prev m rest)
    (hw : expandInteger m = .ok w) : Phrase w := by
  obtain ⟨-, -, negative, ds, rfl, hds, hlen⟩ := matches_integerRe.1 hm
  rw [expandInteger_eq hds] at hw
  obtain ⟨rfl, hrange⟩ := of_sayDigits_map hds hw
  exact phrase_cardinal hrange

/-- What a time is replaced by is one. -/
theorem phrase_expandTime (hm : (timeRe U).Matches prev m rest) (hw : expandTime m = .ok w) :
    Phrase w := by
  obtain ⟨-, -, hh, mm, rfl, hhh, hhour, hmm, hminute⟩ := matches_timeRe hm
  rw [expandTime_eq hhh hhour hmm hminute] at hw
  obtain rfl := Except.ok.inj hw
  have hsaat : Safe (py "saat") := by decide +kernel
  have hh15 := (@sayable_of_length hh (by omega)).2
  have hm15 := (@sayable_of_length mm (by omega)).2
  refine ⟨timeWords (digitsValue hh) (digitsValue mm), by simp [timeWords], fun w hw => ?_, rfl⟩
  rw [timeWords, List.mem_append, List.mem_cons] at hw
  obtain (rfl | hw) | hw := hw
  · exact hsaat
  · exact safe_vocabulary w ((numberToTurkish_eq (n := Int.ofNat _) hh15).2.2 w hw)
  · split at hw
    · cases hw
    · exact safe_vocabulary w ((numberToTurkish_eq (n := Int.ofNat _) hm15).2.2 w hw)

/-- What a decimal of the alphabet is replaced by is one. -/
theorem phrase_expandDecimal (hm : (decimalRe U).Matches prev m rest)
    (halpha : ∀ c ∈ m, InAlphabet c = true) (hw : expandDecimal m = .ok w) : Phrase w := by
  obtain ⟨-, -, negative, ds, sep, fs, rfl, hds, hfs, hsep⟩ := matches_decimalRe.1 hm
  rw [expandDecimal, decimalToTurkish_eq hds hfs hsep] at hw
  obtain ⟨rfl, hrange⟩ := of_sayDigits_map hds hw
  exact (phrase_decimal hrange hfs.1 fun d hd =>
    not_isForeignZero (halpha d (by simp [hd])) (hfs.2 d hd)).1

/-- What a grouped number of the alphabet is replaced by is one. -/
theorem phrase_expandThousandGrouped (hm : (thousandGroupedRe U).Matches prev m rest)
    (halpha : ∀ c ∈ m, InAlphabet c = true) (hw : expandThousandGrouped m = .ok w) :
    Phrase w := by
  obtain ⟨-, -, negative, ds, gs, frac, rfl, hds, -, -, hgs, hfrac⟩ :=
    matches_thousandGroupedRe.1 hm
  cases frac with
  | none =>
      rw [expandThousandGrouped_integer hds hgs] at hw
      obtain ⟨rfl, hrange⟩ := of_sayDigits_map (isDigits_ungrouped hds hgs) hw
      exact phrase_cardinal hrange
  | some fs =>
      have hfs := hfrac fs rfl
      rw [expandThousandGrouped_fraction hds hgs hfs] at hw
      obtain ⟨rfl, hrange⟩ := of_sayDigits_map (isDigits_ungrouped hds hgs) hw
      exact (phrase_decimal hrange hfs.1 fun d hd =>
        not_isForeignZero (halpha d (by simp [tail, hd])) (hfs.2 d hd)).2

end writes

/-! ## passes -/

/-- In the alphabet, and no carriage return. -/
def Tame (c : Nat) : Prop := InAlphabet c = true ∧ c ≠ 0x0D

/-- What a pass makes of a text: it is as clean and as tame as the text. -/
structure Follows (U : Unicode) (t t' : PyStr) : Prop where
  clean : ∀ K, Window U.word Safe IsSep K → Clean U.word K t → Clean U.word K t'
  tame : (∀ c ∈ t, Tame c) → ∀ c ∈ t', Tame c

section passes

variable {U : Unicode} {r : Regex Nat} {f : PyStr → PyStr} {t t' t'' b : PyStr}

/-- A text follows from itself. -/
theorem Follows.refl (U : Unicode) (t : PyStr) : Follows U t t := ⟨fun _ _ h => h, id⟩

/-- Passes may be chained. -/
theorem Follows.trans (h : Follows U t t') (h' : Follows U t' t'') : Follows U t t'' :=
  ⟨fun K hK ht => h'.clean K hK (h.clean K hK ht), fun ht => h'.tame (h.tame ht)⟩

/-- Letters are tame. -/
theorem tame_of_isLetter {c : Nat} (h : isLetter c = true) : Tame c := by
  simp only [isLetter, isAsciiWord, Bool.or_eq_true, Bool.and_eq_true, decide_eq_true_eq,
    beq_iff_eq, List.contains_iff_mem] at h
  obtain h | h := h
  · refine ⟨?_, by omega⟩
    simp only [InAlphabet, Bool.or_eq_true, decide_eq_true_eq]
    exact .inl (.inl (by omega))
  · have hne : ∀ c ∈ turkishLetters, c ≠ 0x0D := by decide
    refine ⟨?_, hne c h⟩
    simp only [InAlphabet, Bool.or_eq_true, List.contains_iff_mem]
    exact .inl (.inr h)

/-- So is the blank. -/
theorem tame_blank : Tame 0x20 := by
  unfold Tame
  decide

/-- A joined phrase has the characters of its words, and blanks. -/
theorem mem_joinWords {ws : List PyStr} {c : Nat} (h : c ∈ joinWords ws) :
    c = 0x20 ∨ ∃ w ∈ ws, c ∈ w := by
  induction ws with
  | nil => cases h
  | cons w ws ih =>
      cases ws with
      | nil => exact .inr ⟨w, by simp, h⟩
      | cons w' ws =>
          have hjoin : joinWords (w :: w' :: ws) = w ++ 0x20 :: joinWords (w' :: ws) := rfl
          rw [hjoin, List.mem_append, List.mem_cons] at h
          obtain h | h | h := h
          · exact .inr ⟨w, by simp, h⟩
          · exact .inl h
          · obtain h | ⟨v, hv, hc⟩ := ih h
            · exact .inl h
            · exact .inr ⟨v, List.mem_cons_of_mem _ hv, hc⟩

/-- A phrase has no character that a pass looks for. -/
theorem Phrase.tame (hb : Phrase b) : ∀ c ∈ b, Tame c := by
  obtain ⟨ws, -, hws, rfl⟩ := hb
  intro c hc
  obtain rfl | ⟨w, hw, hc⟩ := mem_joinWords hc
  · exact tame_blank
  · exact tame_of_isLetter ((hws w hw).2.1 c hc)

/-- A pass that writes phrases where runs can begin. -/
theorem follows_sub (hr : r.Solid) (hedge : ∀ prev m rest, r.Matches prev m rest → Edge U.word prev)
    (hphrase : ∀ m ∈ found r t, Phrase (f m)) : Follows U t (r.sub f t) where
  clean _ hK := clean_sub hK hr fun _ m _ hm hmatch =>
    block_phrase (hedge _ _ _ hmatch) (hphrase m hm)
  tame ht := forall_sub hr ht fun m hm => (hphrase m hm).tame

/-- Such a pass leaves nothing that it looks for. -/
theorem clean_own {K : PyStr → Prop} (hK : Window U.word Safe IsSep K) (hr : r.Solid)
    (hedge : ∀ prev m rest, r.Matches prev m rest → Edge U.word prev)
    (hphrase : ∀ m ∈ found r t, Phrase (f m))
    (hfinds : ∀ prev s, Edge U.word prev → K s →
      ∃ m rest, m ≠ [] ∧ s = m ++ rest ∧ r.Matches prev m rest) :
    Clean U.word K (r.sub f t) :=
  clean_sub_self hK hr (fun _ m _ hm hmatch => block_phrase (hedge _ _ _ hmatch) (hphrase m hm))
    hfinds

/-- Passes one after the other: each leaves nothing that it looks for, and
keeps what the ones before it left. -/
theorem follows_foldl {β : Type} {xs : List β} {pass : PyStr → β → PyStr} {K : β → PyStr → Prop}
    (hK : ∀ x ∈ xs, Window U.word Safe IsSep (K x)) (hpass : ∀ x ∈ xs, ∀ t, Follows U t (pass t x))
    (hown : ∀ x ∈ xs, ∀ t, Clean U.word (K x) (pass t x)) (t : PyStr) :
    Follows U t (xs.foldl pass t) ∧ ∀ x ∈ xs, Clean U.word (K x) (xs.foldl pass t) := by
  induction xs generalizing t with
  | nil => exact ⟨Follows.refl U t, fun x hx => by cases hx⟩
  | cons x xs ih =>
      obtain ⟨hfollows, hclean⟩ := ih (fun y hy => hK y (List.mem_cons_of_mem _ hy))
        (fun y hy => hpass y (List.mem_cons_of_mem _ hy))
        (fun y hy => hown y (List.mem_cons_of_mem _ hy)) (pass t x)
      rw [List.foldl_cons]
      refine ⟨(hpass x (by simp) t).trans hfollows, fun y hy => ?_⟩
      obtain rfl | hy := List.mem_cons.1 hy
      · exact hfollows.clean _ (hK y (by simp)) (hown y (by simp) t)
      · exact hclean y hy

/-- Every abbreviation is replaced by words that are safe. -/
theorem phrase_abbreviations : ∀ a ∈ abbreviations,
    joinWords (wordsOf a.2) = a.2 ∧ wordsOf a.2 ≠ [] ∧ ∀ w ∈ wordsOf a.2, Safe w := by
  decide +kernel

/-- So is every term of the code-mix lexicon. -/
theorem phrase_codeMixLexicon : ∀ a ∈ codeMixLexicon, a.1 ∈ stems ∧
    joinWords (wordsOf a.2) = a.2 ∧ wordsOf a.2 ≠ [] ∧ ∀ w ∈ wordsOf a.2, Safe w := by
  decide +kernel

/-- The abbreviations are gone. -/
theorem follows_expandAbbreviations (t : PyStr) : Follows U t (expandAbbreviations U t) ∧
    ∀ a ∈ abbreviations, Clean U.word (a.1 <+: ·) (expandAbbreviations U t) := by
  have hne : ∀ a ∈ abbreviations, a.1 ≠ [] := by decide
  have hr : ∀ a ∈ abbreviations, (abbreviationRe U a.1).Solid := fun a ha prev rest hm =>
    hne a ha (matches_abbreviationRe.1 hm).2.symm
  have hphrase : ∀ a ∈ abbreviations, Phrase a.2 := fun a ha =>
    have hwords := phrase_abbreviations a ha
    ⟨_, hwords.2.1, hwords.2.2, hwords.1.symm⟩
  refine follows_foldl (fun a ha => window_abbreviation ha) (fun a ha t => ?_) (fun a ha t => ?_) t
  · exact follows_sub (hr a ha) (fun _ _ _ hm => (matches_abbreviationRe.1 hm).1)
      fun m _ => hphrase a ha
  · refine clean_own (window_abbreviation ha) (hr a ha)
      (fun _ _ _ hm => (matches_abbreviationRe.1 hm).1) (fun m _ => hphrase a ha) ?_
    rintro prev s hprev ⟨rest, rfl⟩
    exact ⟨a.1, rest, hne a ha, rfl, matches_abbreviationRe.2 ⟨hprev, rfl⟩⟩

/-- The entries of the lexicon are gone. -/
theorem follows_expandCodeMix (t : PyStr) : Follows U t (expandCodeMix U t) ∧
    ∀ a ∈ codeMixLexicon, Clean U.word (IsToken U a.1) (expandCodeMix U t) := by
  have hstem : ∀ a ∈ codeMixLexicon, a.1 ∈ stems := fun a ha => (phrase_codeMixLexicon a ha).1
  have hr : ∀ a ∈ codeMixLexicon, (tokenRe U a.1).Solid := fun a ha prev rest hm =>
    (safe_stem _ (hstem a ha)).1 ((matches_tokenRe (hstem a ha)).1 hm).2.1.symm
  have hphrase : ∀ a ∈ codeMixLexicon, Phrase a.2 := fun a ha =>
    have hwords := (phrase_codeMixLexicon a ha).2
    ⟨_, hwords.2.1, hwords.2.2, hwords.1.symm⟩
  refine follows_foldl (fun a ha => window_isToken (hstem a ha)) (fun a ha t => ?_)
    (fun a ha t => ?_) t
  · exact follows_sub (hr a ha) (fun _ _ _ hm => ((matches_tokenRe (hstem a ha)).1 hm).1)
      fun m _ => hphrase a ha
  · refine clean_own (window_isToken (hstem a ha)) (hr a ha)
      (fun _ _ _ hm => ((matches_tokenRe (hstem a ha)).1 hm).1) (fun m _ => hphrase a ha) ?_
    intro prev s hprev hs
    have hs' : run U.word s = a.1 := hs
    refine ⟨a.1, past U.word s, (safe_stem _ (hstem a ha)).1, ?_,
      (matches_tokenRe (hstem a ha)).2 ⟨hprev, rfl, edge_past s⟩⟩
    rw [← hs', run_append_past]

/-- A sequence that succeeds did so in both parts. -/
theorem exists_of_bind {ε α β : Type} {x : Except ε α} {f : α → Except ε β} {b : β}
    (h : (x >>= f) = .ok b) : ∃ a, x = .ok a ∧ f a = .ok b := by
  cases x with
  | error e => cases h
  | ok a => exact ⟨a, rfl, h⟩

/-- What a number pass returns, and what it writes. -/
theorem phrase_of_trySub {u : PyStr} {g : PyStr → Except Foreign PyStr} (hr : r.Solid)
    (ht : ∀ c ∈ t, Tame c) (h : r.trySub g t = .ok u)
    (hphrase : ∀ prev m rest w, r.Matches prev m rest → (∀ c ∈ m, InAlphabet c = true) →
      g m = .ok w → Phrase w) :
    u = r.sub (orKeep g) t ∧ ∀ m ∈ found r t, Phrase (orKeep g m) := by
  refine ⟨sub_of_trySub h, fun m hm => ?_⟩
  obtain ⟨w, hw⟩ := trySub_ok_iff.1 ⟨u, h⟩ m hm
  obtain ⟨prev, rest, hmatch⟩ := matches_of_found hr hm
  rw [orKeep, hw]
  exact hphrase prev m rest w hmatch (fun c hc => (ht c (mem_of_found hr hm c hc)).1) hw

/-- The short numbers and the decimals are gone. -/
theorem follows_expandNumbers {u : PyStr} (ht : ∀ c ∈ t, Tame c) (h : expandNumbers U t = .ok u) :
    Follows U t u ∧ Clean U.word (IsDecimal U) u ∧ Clean U.word (IsShort U) u := by
  rw [expandNumbers] at h
  obtain ⟨t₁, h₁, h⟩ := exists_of_bind h
  obtain ⟨t₂, h₂, h⟩ := exists_of_bind h
  obtain ⟨t₃, h₃, h₄⟩ := exists_of_bind h
  obtain ⟨rfl, hphrase₁⟩ := phrase_of_trySub (solid_timeRe U) ht h₁
    fun _ _ _ _ hm _ hw => phrase_expandTime hm hw
  have hfollows₁ := follows_sub (solid_timeRe U) (fun _ _ _ hm => (matches_timeRe hm).1) hphrase₁
  obtain ⟨rfl, hphrase₂⟩ := phrase_of_trySub (solid_thousandGroupedRe U) (hfollows₁.tame ht) h₂
    fun _ _ _ _ hm halpha hw => phrase_expandThousandGrouped hm halpha hw
  have hfollows₂ := hfollows₁.trans (follows_sub (solid_thousandGroupedRe U)
    (fun _ _ _ hm => (matches_thousandGroupedRe.1 hm).1) hphrase₂)
  obtain ⟨rfl, hphrase₃⟩ := phrase_of_trySub (solid_decimalRe U) (hfollows₂.tame ht) h₃
    fun _ _ _ _ hm halpha hw => phrase_expandDecimal hm halpha hw
  have hfollows₃ := hfollows₂.trans (follows_sub (solid_decimalRe U)
    (fun _ _ _ hm => (matches_decimalRe.1 hm).1) hphrase₃)
  have hdecimal := clean_own (window_isDecimal U) (solid_decimalRe U)
    (fun _ _ _ hm => (matches_decimalRe.1 hm).1) hphrase₃ fun _ _ => finds_decimalRe
  obtain ⟨rfl, hphrase₄⟩ := phrase_of_trySub (solid_integerRe U) (hfollows₃.tame ht) h₄
    fun _ _ _ _ hm _ hw => phrase_expandInteger hm hw
  have hfollows₄ := follows_sub (solid_integerRe U)
    (fun _ _ _ hm => (matches_integerRe.1 hm).1) hphrase₄
  have hshort := clean_own (window_isShort U) (solid_integerRe U)
    (fun _ _ _ hm => (matches_integerRe.1 hm).1) hphrase₄ fun _ _ => finds_integerRe
  exact ⟨hfollows₃.trans hfollows₄, hfollows₄.clean _ (window_isDecimal U) hdecimal, hshort⟩

end passes

/-! ## symbols -/

section symbols

variable {U : Unicode} {t w : PyStr} {prev : Option Nat} {c : Nat}

/-- One step of `_expand_symbols`. -/
def expandSymbol (t : PyStr) (s : Nat × PyStr) : PyStr :=
  t.flatMap fun c => if c = s.1 then 0x20 :: s.2 ++ [0x20] else [c]

/-- A symbol is replaced by its word between blanks, wherever it stands. -/
theorem expandSymbol_eq (t : PyStr) (s : Nat × PyStr) : expandSymbol t s =
    (char fun c => c = s.1).sub (fun _ => 0x20 :: s.2 ++ [0x20]) t := by
  rw [sub_char, expandSymbol]
  refine List.flatMap_congr fun c _ => ?_
  by_cases h : c = s.1 <;> simp [h]

/-- The words of the symbols are safe. -/
theorem safe_symbolMap : ∀ s ∈ symbolMap, Safe s.2 := by decide +kernel

/-- No letter and no blank is a symbol. -/
theorem not_mem_symbolMap {s : Nat × PyStr} (hs : s ∈ symbolMap) (h : isLetter c = true ∨ c = 0x20) :
    c ≠ s.1 := by
  rintro rfl
  have hne : ∀ s ∈ symbolMap, isLetter s.1 = false ∧ s.1 ≠ 0x20 := by decide
  obtain ⟨hletter, hblank⟩ := hne s hs
  obtain h | h := h
  · rw [hletter] at h
    cases h
  · exact hblank h

/-- A word with blanks around it in place of a character that is none. -/
theorem block_symbol (hc : U.word c = false) (hw : Safe w) :
    Block U.word Safe IsSep prev [c] (0x20 :: w ++ [0x20]) := by
  have hword : ∀ d ∈ w, U.word d = true := fun d hd => word_of_isLetter (hw.2.1 d hd)
  have hblank := word_blank U
  refine ⟨List.cons_ne_nil _ _, .inr ⟨⟨c, [], rfl, hc⟩, 0x20, w ++ [0x20], rfl, hblank, ?_⟩,
    fun b₁ b₂ x h hne₁ hne₂ hedge => ?_, fun _ => edge_some.2 hc⟩
  · unfold IsSep
    decide
  · cases b₁ with
    | nil => exact absurd rfl hne₁
    | cons d b₁ =>
        obtain ⟨rfl, hsplit⟩ := List.cons.inj h
        rw [after_cons] at hedge
        obtain ⟨rest, rfl, hrest⟩ | ⟨rest, -, hwsplit, rfl⟩ := split_append hsplit
        · cases rest with
          | nil =>
              rw [List.append_nil] at hedge
              exact absurd hedge (after_of_word hword hw.1)
          | cons e rest =>
              have hnil := (List.append_eq_nil_iff.1 (List.cons.inj hrest).2.symm).2
              exact absurd hnil hne₂
        · cases b₁ with
          | nil =>
              rw [List.nil_append] at hwsplit
              rw [← hwsplit, List.append_assoc]
              exact .inr (hw.run_append _)
          | cons e b₁ =>
              refine absurd hedge (after_of_word (fun d hd => hword d ?_) (List.cons_ne_nil _ _))
              rw [hwsplit]
              exact List.mem_append_left _ hd

/-- A replaced symbol leaves letters and blanks. -/
theorem mem_block_symbol (hw : Safe w) : ∀ d ∈ 0x20 :: w ++ [0x20], isLetter d = true ∨ d = 0x20 := by
  intro d hd
  simp only [List.mem_append, List.mem_cons, List.not_mem_nil, or_false] at hd
  obtain (rfl | hd) | rfl := hd
  · exact .inr rfl
  · exact .inl (hw.2.1 d hd)
  · exact .inr rfl

/-- The pass of one symbol leads to a text that follows. -/
theorem follows_expandSymbol {s : Nat × PyStr} (hs : s ∈ symbolMap) (t : PyStr) :
    Follows U t (expandSymbol t s) := by
  have hsafe := safe_symbolMap s hs
  have hr : (char fun c => decide (c = s.1)).Solid := solid_of_least Nat.one_pos
  rw [expandSymbol_eq]
  refine ⟨fun K hK ht => clean_sub hK hr (fun prev m rest _ hm => ?_) ht, fun ht => ?_⟩
  · obtain ⟨c, rfl, hc⟩ := hm
    obtain rfl := of_decide_eq_true hc
    exact block_symbol (U.word_symbol s hs) hsafe
  · refine forall_sub hr ht fun m _ c hc => ?_
    obtain hc | rfl := mem_block_symbol hsafe c hc
    · exact tame_of_isLetter hc
    · exact tame_blank

/-- The symbol is gone, and no other one has come. -/
theorem mem_expandSymbol {s : Nat × PyStr} (hs : s ∈ symbolMap) (h : c ∈ expandSymbol t s) :
    c ≠ s.1 ∧ (c ∈ t ∨ ∀ s ∈ symbolMap, c ≠ s.1) := by
  obtain ⟨d, hd, hc⟩ := List.mem_flatMap.1 h
  split at hc
  · have hletter := mem_block_symbol (safe_symbolMap s hs) c hc
    exact ⟨not_mem_symbolMap hs hletter, .inr fun s hs => not_mem_symbolMap hs hletter⟩
  · next hne =>
      obtain rfl := List.mem_singleton.1 hc
      exact ⟨hne, .inl hd⟩

/-- The symbols are gone. -/
theorem follows_expandSymbols (t : PyStr) : Follows U t (expandSymbols t) ∧
    ∀ s ∈ symbolMap, s.1 ∉ expandSymbols t := by
  have hall : ∀ (ss : List (Nat × PyStr)), (∀ s ∈ ss, s ∈ symbolMap) → ∀ t : PyStr,
      Follows U t (ss.foldl expandSymbol t) ∧
        ∀ c ∈ ss.foldl expandSymbol t, (∀ s ∈ ss, c ≠ s.1) ∧ (c ∈ t ∨ ∀ s ∈ symbolMap, c ≠ s.1) := by
    intro ss hss
    induction ss with
    | nil => exact fun t => ⟨Follows.refl U t, fun c hc => ⟨fun s hs => (by cases hs), .inl hc⟩⟩
    | cons s ss ih =>
        intro t
        obtain ⟨hs, hss⟩ := List.forall_mem_cons.1 hss
        obtain ⟨hfollows, hmem⟩ := ih hss (expandSymbol t s)
        refine ⟨(follows_expandSymbol hs t).trans hfollows, fun c hc => ?_⟩
        obtain ⟨hne, hc | hnone⟩ := hmem c hc
        · obtain ⟨hcs, hct⟩ := mem_expandSymbol hs hc
          exact ⟨List.forall_mem_cons.2 ⟨hcs, hne⟩, hct⟩
        · exact ⟨List.forall_mem_cons.2 ⟨hnone s hs, hne⟩, .inr hnone⟩
  obtain ⟨hfollows, hmem⟩ := hall symbolMap (fun s hs => hs) t
  exact ⟨hfollows, fun s hs hc => (hmem _ hc).1 s hs rfl⟩

/-- Without symbols nothing changes. -/
theorem expandSymbols_eq_self (h : ∀ s ∈ symbolMap, s.1 ∉ t) : expandSymbols t = t := by
  have hall : ∀ (ss : List (Nat × PyStr)), (∀ s ∈ ss, s.1 ∉ t) → ss.foldl expandSymbol t = t := by
    intro ss hss
    induction ss with
    | nil => rfl
    | cons s ss ih =>
        obtain ⟨hs, hss⟩ := List.forall_mem_cons.1 hss
        have hself : expandSymbol t s = t := by
          refine (List.flatMap_congr fun c hc => ?_).trans (List.flatMap_singleton' t)
          have hne : c ≠ s.1 := fun heq => hs (heq ▸ hc)
          rw [if_neg hne]
        rw [List.foldl_cons, hself, ih hss]
  exact hall symbolMap h

end symbols

end NeuroVoice
