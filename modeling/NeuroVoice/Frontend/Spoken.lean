import Mathlib.Data.List.DropRight
import NeuroVoice.Frontend.Normalize

/-!
# NeuroVoice.Frontend.Spoken

Numbers in words say what is written.

An integer's words are read back as the integer.  A decimal's words are its
sign, its integer part and its digits one by one, with one exception: a zero of
another script than ASCII is not said (`numbers_spoken`).
-/

namespace NeuroVoice

open Regex

/-! ## digits -/

/-- The value of a digit. -/
def digitValue (c : Nat) : Nat := (decimalDigit c).getD 0

/-- The value of a text of digits. -/
def digitsValue (ds : PyStr) : Nat := ds.foldl (fun n c => n * 10 + digitValue c) 0

/-- A text of digits, at least one. -/
def IsDigits (ds : PyStr) : Prop := ds ≠ [] ∧ ∀ c ∈ ds, isDigit c = true

section digits

variable {ds : PyStr} {c : Nat}

/-- No digit is white space. -/
theorem isSpace_of_isDigit (h : isDigit c = true) : isSpace c = false := by
  cases hspace : isSpace c with
  | false => rfl
  | true => rw [isDigit_of_isSpace hspace] at h; cases h

/-- A digit of the pattern is one for `int`. -/
theorem decimalDigit_eq (h : isDigit c = true) : decimalDigit c = some (digitValue c) := by
  obtain ⟨d, hd⟩ := Option.isSome_iff_exists.1 h
  rw [digitValue, hd, Option.getD_some]

/-- A digit is less than ten. -/
theorem digitValue_lt (c : Nat) : digitValue c < 10 := by
  unfold digitValue decimalDigit
  dsimp only
  generalize hfind : List.find? _ _ = found
  cases found with
  | none => simp
  | some z =>
      have hz := List.find?_some hfind
      simp only [Bool.and_eq_true, decide_eq_true_eq] at hz
      simp only [Option.map_some, Option.getD_some]
      omega

/-- No digit is a sign, a separator or an underscore. -/
theorem ne_of_isDigit (h : isDigit c = true) :
    c ≠ 0x2B ∧ c ≠ 0x2C ∧ c ≠ 0x2D ∧ c ≠ 0x2E ∧ c ≠ 0x3A ∧ c ≠ 0x5F := by
  have hnot : ∀ d ∈ [0x2B, 0x2C, 0x2D, 0x2E, 0x3A, 0x5F], isDigit d = false := by decide
  have hne : ∀ d ∈ [0x2B, 0x2C, 0x2D, 0x2E, 0x3A, 0x5F], c ≠ d := by
    intro d hd heq
    rw [heq, hnot d hd] at h
    cases h
  exact ⟨hne _ (by simp), hne _ (by simp), hne _ (by simp), hne _ (by simp), hne _ (by simp),
    hne _ (by simp)⟩

/-- Digits are read from the left, with the value so far. -/
theorem digitsVal_digits (h : ∀ c ∈ ds, isDigit c = true) (acc : Nat) (ok : Bool)
    (hok : ds ≠ [] ∨ ok = true) :
    digitsVal 10 decimalDigit ds acc ok =
      some (ds.foldl (fun n c => n * 10 + digitValue c) acc) := by
  induction ds generalizing acc ok with
  | nil =>
      have htrue : ok = true := by simpa using hok
      rw [digitsVal, if_pos htrue, List.foldl_nil]
  | cons c ds ih =>
      obtain ⟨hc, hds⟩ := List.forall_mem_cons.1 h
      rw [digitsVal, if_neg (ne_of_isDigit hc).2.2.2.2.2, decimalDigit_eq hc, List.foldl_cons]
      exact ih hds _ true (.inr rfl)

/-- `int` of a text of digits. -/
theorem intOf_digits (h : IsDigits ds) : intOf ds =
    if Json.maxStrDigits < ds.length then
      .error (.valueError "Exceeds the limit for integer string conversion")
    else .ok (digitsValue ds) := by
  obtain ⟨hne, hds⟩ := h
  have hcount : ds.countP (fun c => (decimalDigit c).isSome) = ds.length :=
    List.countP_eq_length.2 hds
  have hstrip : stripBy isSpace ds = ds :=
    stripBy_of_ends (fun c hc => isSpace_of_isDigit (hds c (List.mem_of_mem_head? hc)))
      fun c hc => isSpace_of_isDigit (hds c (List.mem_of_mem_getLast? hc))
  have hsign : splitSign ds = (1, ds) := by
    cases ds with
    | nil => exact absurd rfl hne
    | cons c cs =>
        have hc := ne_of_isDigit (hds c (by simp))
        unfold splitSign
        split
        · next heq => exact absurd (List.cons.inj heq).1 hc.1
        · next heq => exact absurd (List.cons.inj heq).1 hc.2.2.1
        · rfl
  have hint : intOfStr ds = some (digitsValue ds : Int) := by
    rw [intOfStr, hstrip, hsign]
    simp only
    rw [digitsVal_digits hds 0 false (.inl hne)]
    simp [digitsValue]
  rw [intOf, Json.toInt, hcount, hint]

end digits

/-! ## words with gaps -/

/-- The only white space is the blank. -/
def Blank (s : PyStr) : Prop := ∀ c ∈ s, isSpace c = true → c = 0x20

section gaps

variable {ps : List PyStr} {s : PyStr}

/-- White space and white space is white space. -/
theorem Blank.append {t : PyStr} (hs : Blank s) (ht : Blank t) : Blank (s ++ t) := by
  intro c hc
  obtain hc | hc := List.mem_append.1 hc
  · exact hs c hc
  · exact ht c hc

/-- The only white space of joined words is the blanks between them. -/
theorem blank_joinWords (h : ∀ p ∈ ps, ∀ c ∈ p, isSpace c = false) : Blank (joinWords ps) := by
  induction ps with
  | nil => intro c hc; cases hc
  | cons p ps ih =>
      have hp : Blank p := by
        intro c hc hspace
        rw [h p (by simp) c hc] at hspace
        cases hspace
      cases ps with
      | nil => exact hp
      | cons q qs =>
          have hrest := ih fun r hr => h r (by simp [hr])
          have hblank : Blank (0x20 :: joinWords (q :: qs)) :=
            List.forall_mem_cons.2 ⟨fun _ => rfl, hrest⟩
          exact hp.append hblank

/-- A leading blank is no word. -/
theorem wordsOf_blank (s : PyStr) : wordsOf (0x20 :: s) = wordsOf s := by
  simp [wordsOf, splitOn]

/-- There is always a first part. -/
theorem splitOn_ne_nil (sep : Nat) (s : PyStr) : splitOn sep s ≠ [] := by
  cases s with
  | nil => exact List.cons_ne_nil _ _
  | cons c s =>
      rw [splitOn]
      split
      · exact List.cons_ne_nil _ _
      · split <;> exact List.cons_ne_nil _ _

/-- What a separator separates. -/
theorem splitOn_append_sep (sep : Nat) (s t : PyStr) :
    splitOn sep (s ++ sep :: t) = splitOn sep s ++ splitOn sep t := by
  induction s with
  | nil => simp [splitOn]
  | cons c s ih =>
      rw [List.cons_append, splitOn, splitOn]
      split
      · rw [ih, List.cons_append]
      · rw [ih]
        cases hs : splitOn sep s with
        | nil => exact absurd hs (splitOn_ne_nil sep s)
        | cons q qs => rfl

/-- Around a blank the words are those of both sides. -/
theorem wordsOf_append_blank (s t : PyStr) :
    wordsOf (s ++ 0x20 :: t) = wordsOf s ++ wordsOf t := by
  rw [wordsOf, splitOn_append_sep, List.filter_append]
  rfl

/-- Leading white space holds no word. -/
theorem wordsOf_dropWhile (h : Blank s) : wordsOf (s.dropWhile isSpace) = wordsOf s := by
  induction s with
  | nil => rfl
  | cons c s ih =>
      obtain ⟨hc, hs⟩ := List.forall_mem_cons.1 h
      rw [List.dropWhile_cons]
      split
      · next hspace => rw [ih hs, hc hspace, wordsOf_blank]
      · rfl

/-- Stripping loses no words. -/
theorem wordsOf_stripBy (h : Blank s) : wordsOf (stripBy isSpace s) = wordsOf s := by
  have hback : ∀ t : PyStr, Blank t → wordsOf (t.reverse.dropWhile isSpace).reverse = wordsOf t := by
    intro t ht
    induction t using List.reverseRecOn with
    | nil => rfl
    | append_singleton t c ih =>
        rw [List.reverse_append, List.reverse_singleton, List.singleton_append,
          List.dropWhile_cons]
        split
        · next hspace =>
            have hc : c = 0x20 := ht c (by simp) hspace
            rw [ih fun d hd => ht d (by simp [hd]), hc, wordsOf_append_blank]
            simp [wordsOf, splitOn]
        · rw [List.reverse_cons, List.reverse_reverse]
  have hfront : Blank (s.dropWhile isSpace) := fun c hc =>
    h c ((List.dropWhile_sublist _).subset hc)
  rw [stripBy, hback _ hfront, wordsOf_dropWhile h]

/-- The words of a phrase with gaps. -/
theorem wordsOf_gaps (h : ∀ p ∈ ps, ∀ c ∈ p, isSpace c = false) :
    wordsOf (joinWords ps) = ps.filter fun p => !p.isEmpty := by
  cases ps with
  | nil => rfl
  | cons p ps =>
      have hsep : ∀ q ∈ p :: ps, 0x20 ∉ q := fun q hq hc => by cases h q hq _ hc
      rw [wordsOf, joinWords, splitOn_joinWith hsep (List.cons_ne_nil _ _)]

end gaps

/-! ## a reader of decimals -/

/-- The digit a word stands for. -/
def readDigit (w : PyStr) : Option Nat :=
  if w = py "sıfır" then some 0 else if w.isEmpty then none else ones.idxOf? w

/-- A decimal, as it is written or read: its sign, and the digits before and
behind the separator. -/
structure Decimal where
  negative : Bool
  integer : Nat
  fraction : List Nat
  deriving DecidableEq

/-- A reader of decimals: a sign, a cardinal, `virgül`, and digits. -/
def readDecimal (s : PyStr) : Option Decimal :=
  let negative := (wordsOf s).head? == some (py "eksi")
  let ws := if negative then (wordsOf s).drop 1 else wordsOf s
  if ws.contains (py "virgül") then do
    let integer ← readCardinal (ws.takeWhile fun w => w != py "virgül")
    let fraction ← ((ws.dropWhile fun w => w != py "virgül").drop 1).mapM readDigit
    return { negative, integer, fraction }
  else none

/-- The word that `decimal_to_turkish` has for a digit. -/
def wordOfDigit (d : Nat) : PyStr :=
  if d = 0x30 then py "sıfır" else ones.getD (digitValue d) []

/-- A zero that is not the ASCII one. -/
def IsForeignZero (d : Nat) : Prop := digitValue d = 0 ∧ d ≠ 0x30

instance (d : Nat) : Decidable (IsForeignZero d) := inferInstanceAs (Decidable (_ ∧ _))

section decimals

variable {ds fs : PyStr} {n : Nat} {d : Nat}

/-- The word of a digit is found. -/
theorem digitWord_eq (h : isDigit d = true) : digitWord d = .ok (wordOfDigit d) := by
  unfold digitWord wordOfDigit
  split
  · rfl
  · have hone : IsDigits [d] := ⟨List.cons_ne_nil _ _, by simpa using h⟩
    have hvalue : digitsValue [d] = digitValue d := by simp [digitsValue]
    have hshort : ¬Json.maxStrDigits < 1 := by decide
    rw [intOf_digits hone, List.length_singleton, if_neg hshort, hvalue]
    rfl

/-- So are the words of all digits of a fraction. -/
theorem mapM_digitWord (h : ∀ d ∈ fs, isDigit d = true) :
    fs.mapM digitWord = .ok (fs.map wordOfDigit) := by
  induction fs with
  | nil => rfl
  | cons d fs ih =>
      obtain ⟨hd, hfs⟩ := List.forall_mem_cons.1 h
      rw [List.mapM_cons, digitWord_eq hd, ih hfs]
      rfl

/-- Only a zero of another script has an empty word. -/
theorem wordOfDigit_eq_nil : wordOfDigit d = [] ↔ IsForeignZero d := by
  unfold wordOfDigit IsForeignZero
  split
  · next h => simp [h, py]
  · next h =>
      have hall : ∀ v < 10, ones.getD v [] = [] ↔ v = 0 := by decide
      rw [hall _ (digitValue_lt d)]
      simp [h]

/-- The word of a digit is one word. -/
theorem wordOfDigit_nonspace (d : Nat) : ∀ c ∈ wordOfDigit d, isSpace c = false := by
  unfold wordOfDigit
  split
  · decide
  · have hall : ∀ v < 10, ∀ c ∈ ones.getD v [], isSpace c = false := by decide
    exact hall _ (digitValue_lt d)

/-- A reader gets the digit back. -/
theorem readDigit_wordOfDigit (h : ¬IsForeignZero d) :
    readDigit (wordOfDigit d) = some (digitValue d) := by
  unfold wordOfDigit
  split
  · next hzero =>
      subst hzero
      rfl
  · next hne =>
      have hall : ∀ v < 10, v ≠ 0 → readDigit (ones.getD v []) = some v := by decide
      exact hall _ (digitValue_lt d) fun hzero => h ⟨hzero, hne⟩

/-- A reader gets all digits of a fraction back. -/
theorem mapM_readDigit (h : ∀ d ∈ fs, ¬IsForeignZero d) :
    (fs.map wordOfDigit).mapM readDigit = some (fs.map digitValue) := by
  induction fs with
  | nil => rfl
  | cons d fs ih =>
      obtain ⟨hd, hfs⟩ := List.forall_mem_cons.1 h
      rw [List.map_cons, List.mapM_cons, readDigit_wordOfDigit hd, ih hfs]
      rfl

/-- As many results as elements. -/
theorem length_of_mapM {α β : Type} {f : α → Option β} {xs : List α} {ys : List β}
    (h : xs.mapM f = some ys) : ys.length = xs.length := by
  induction xs generalizing ys with
  | nil =>
      cases h
      rfl
  | cons x xs ih =>
      rw [List.mapM_cons] at h
      obtain ⟨y, -, h⟩ := Option.bind_eq_some_iff.1 h
      obtain ⟨zs, hzs, h⟩ := Option.bind_eq_some_iff.1 h
      cases h
      simp [ih hzs]

/-- The digits are read back unless one of them is not said. -/
theorem mapM_readDigit_iff :
    ((fs.map wordOfDigit).filter fun w => !w.isEmpty).mapM readDigit = some (fs.map digitValue) ↔
      ∀ d ∈ fs, ¬IsForeignZero d := by
  constructor
  · intro h d hd hzero
    have hlen := length_of_mapM h
    rw [List.length_map] at hlen
    have hfull : ((fs.map wordOfDigit).filter fun w => !w.isEmpty).length =
        (fs.map wordOfDigit).length := by rw [List.length_map, hlen]
    have hall := List.filter_eq_self.1 (List.filter_sublist.eq_of_length hfull)
    have hne := hall _ (List.mem_map_of_mem hd)
    rw [wordOfDigit_eq_nil.2 hzero] at hne
    cases hne
  · intro h
    have hfull : (fs.map wordOfDigit).filter (fun w => !w.isEmpty) = fs.map wordOfDigit := by
      refine List.filter_eq_self.2 fun w hw => ?_
      obtain ⟨d, hd, rfl⟩ := List.mem_map.1 hw
      have hne : wordOfDigit d ≠ [] := fun hnil => h d hd (wordOfDigit_eq_nil.1 hnil)
      simpa using hne
    rw [hfull]
    exact mapM_readDigit h

/-- What stands before a separator and from it on. -/
theorem takeWhile_separator {α : Type} [BEq α] [LawfulBEq α] {sep : α} {ps qs : List α}
    (h : ∀ p ∈ ps, p ≠ sep) : (ps ++ sep :: qs).takeWhile (fun p => p != sep) = ps ∧
      (ps ++ sep :: qs).dropWhile (fun p => p != sep) = sep :: qs := by
  have hps : ∀ p ∈ ps, (p != sep) = true := by
    intro p hp
    simpa using h p hp
  rw [List.takeWhile_append_of_pos hps, List.dropWhile_append_of_pos hps]
  simp

/-- A natural number's words, to a reader: they are not signed and have no
separator. -/
theorem cardinal_read (h : n < 10 ^ 15) : readCardinal (cardinal (Int.ofNat n)) = some n ∧
    (cardinal (Int.ofNat n)).head? ≠ some (py "eksi") ∧
      ∀ w ∈ cardinal (Int.ofNat n), w ≠ py "virgül" := by
  cases n with
  | zero => exact ⟨rfl, by decide, by decide⟩
  | succ m =>
      obtain ⟨hread, hhead⟩ := readCardinal_numberParts (Nat.succ_pos m) h
      refine ⟨hread, hhead, fun w hw heq => ?_⟩
      subst heq
      obtain ⟨st, hfold, -⟩ := foldlM_numberParts (t := 0) scaled_scales (fun s hs => hs) h
      obtain ⟨before, rest, hsplit⟩ := List.append_of_mem hw
      have hwords : (numberParts scales (m + 1)).flatten = before ++ py "virgül" :: rest := hsplit
      rw [hwords, List.foldlM_append] at hfold
      obtain ⟨st', -, hrest⟩ := Option.bind_eq_some_iff.1 hfold
      have hnone : readWord st' (py "virgül") = none := rfl
      rw [List.foldlM_cons, hnone] at hrest
      cases hrest

/-- The words of a decimal. -/
def decimalWords (negative : Bool) (n : Nat) (fs : PyStr) : List PyStr :=
  (if negative then [py "eksi"] else []) ++ cardinal (Int.ofNat n) ++ py "virgül" ::
    fs.map wordOfDigit

/-- **What is read of a decimal's words.** -/
theorem readDecimal_iff {s : PyStr} {negative : Bool} (h : n < 10 ^ 15)
    (hs : wordsOf s = (decimalWords negative n fs).filter fun w => !w.isEmpty) :
    readDecimal s = some ⟨negative, n, fs.map digitValue⟩ ↔ ∀ d ∈ fs, ¬IsForeignZero d := by
  obtain ⟨hread, hhead, hsep⟩ := cardinal_read h
  obtain ⟨-, hne, hvoc⟩ := numberToTurkish_eq (n := Int.ofNat n) h
  have hfull : (cardinal (Int.ofNat n)).filter (fun w => !w.isEmpty) = cardinal (Int.ofNat n) := by
    refine List.filter_eq_self.2 fun w hw => ?_
    simpa using (isWord_of_vocabulary w (hvoc w hw)).1
  have hws : wordsOf s = (if negative then [py "eksi"] else []) ++ (cardinal (Int.ofNat n) ++
      py "virgül" :: (fs.map wordOfDigit).filter fun w => !w.isEmpty) := by
    rw [hs, decimalWords, List.filter_append, List.filter_append, hfull, List.append_assoc]
    congr 1
    cases negative <;> rfl
  have hhead' : (cardinal (Int.ofNat n) ++ py "virgül" ::
      (fs.map wordOfDigit).filter fun w => !w.isEmpty).head? ≠ some (py "eksi") := by
    rw [List.head?_append]
    cases hc : (cardinal (Int.ofNat n)).head? with
    | none => exact absurd (List.head?_eq_none_iff.1 hc) hne
    | some w => rwa [hc] at hhead
  have hsplit : readDecimal s = do
      let integer ← readCardinal (cardinal (Int.ofNat n))
      let fraction ← ((fs.map wordOfDigit).filter fun w => !w.isEmpty).mapM readDigit
      return ⟨negative, integer, fraction⟩ := by
    obtain ⟨htake, hdrop⟩ := @takeWhile_separator _ _ _ _ _
      ((fs.map wordOfDigit).filter fun w => !w.isEmpty) hsep
    rw [readDecimal, hws]
    cases negative with
    | true =>
        simp only [if_true, List.singleton_append, List.head?_cons, beq_self_eq_true,
          List.drop_succ_cons, List.drop_zero]
        rw [if_pos (by simp), htake, hdrop, List.drop_succ_cons, List.drop_zero]
    | false =>
        have hsign : ((cardinal (Int.ofNat n) ++ py "virgül" ::
            (fs.map wordOfDigit).filter fun w => !w.isEmpty).head? == some (py "eksi")) = false := by
          simpa using hhead'
        simp only [Bool.false_eq_true, if_false, List.nil_append]
        rw [hsign]
        simp only [Bool.false_eq_true, if_false]
        rw [if_pos (by simp), htake, hdrop, List.drop_succ_cons, List.drop_zero]
  rw [hsplit, hread, ← mapM_readDigit_iff]
  cases hfs : ((fs.map wordOfDigit).filter fun w => !w.isEmpty).mapM readDigit with
  | none => simp
  | some vs => simp

end decimals

/-! ## what the number patterns match -/

/-- The sign as it is written. -/
def minus (negative : Bool) : PyStr := if negative then [0x2D] else []

section forms

variable {U : Unicode} {r : Regex Nat} {prev : Option Nat} {m rest : PyStr}

/-- A pattern that stands alone has no word character on either side. -/
theorem matches_standing : (standing U r).Matches prev m rest ↔
    (!prev.any U.word) = true ∧ r.Matches prev m rest ∧ (!rest.head?.any U.word) = true := by
  rw [standing, notBehind, notAhead, matches_look_seq, matches_seq_look]

/-- A signed pattern is a minus or none, and the pattern behind it. -/
theorem matches_sign_seq : (seq signRe r).Matches prev m rest ↔
    ∃ negative m', m = minus negative ++ m' ∧ r.Matches (after prev (minus negative)) m' rest := by
  rw [matches_seq]
  constructor
  · rintro ⟨s, m', rfl, hs, hr⟩
    rw [signRe, matches_opt, matches_char] at hs
    obtain ⟨c, rfl, hc⟩ | rfl := hs
    · obtain rfl := of_decide_eq_true hc
      exact ⟨true, m', rfl, hr⟩
    · exact ⟨false, m', rfl, hr⟩
  · rintro ⟨negative, m', rfl, hr⟩
    refine ⟨minus negative, m', rfl, ?_, hr⟩
    rw [signRe, matches_opt, matches_char]
    cases negative with
    | true => exact .inl ⟨0x2D, rfl, rfl⟩
    | false => exact .inr rfl

/-- The pattern of digits matches one digit or more. -/
theorem matches_digits : (plus (char isDigit)).Matches prev m rest ↔ IsDigits m :=
  matches_plus_char

/-- A decimal: digits, a separator, digits. -/
theorem matches_decimalRe : (decimalRe U).Matches prev m rest ↔
    (!prev.any U.word) = true ∧ (!rest.head?.any U.word) = true ∧
      ∃ negative ds sep fs, m = minus negative ++ (ds ++ sep :: fs) ∧ IsDigits ds ∧
        IsDigits fs ∧ (sep = 0x2E ∨ sep = 0x2C) := by
  rw [decimalRe, matches_standing, matches_sign_seq]
  constructor
  · rintro ⟨hprev, ⟨negative, m', rfl, hm⟩, hrest⟩
    obtain ⟨ds, m', rfl, hds, hm⟩ := matches_seq.1 hm
    obtain ⟨sep, fs, rfl, hsep, hfs⟩ := matches_char_seq.1 hm
    refine ⟨hprev, hrest, negative, ds, sep, fs, rfl, matches_digits.1 hds,
      matches_digits.1 hfs, ?_⟩
    simpa using hsep
  · rintro ⟨hprev, hrest, negative, ds, sep, fs, rfl, hds, hfs, hsep⟩
    refine ⟨hprev, ⟨negative, _, rfl, matches_seq.2 ⟨ds, sep :: fs, rfl, matches_digits.2 hds,
      matches_char_seq.2 ⟨sep, fs, rfl, ?_, matches_digits.2 hfs⟩⟩⟩, hrest⟩
    simpa using hsep

/-- One to so many digits. -/
theorem matches_someDigits {n : Nat} :
    (seq (char isDigit) (upTo n (char isDigit))).Matches prev m rest ↔
      IsDigits m ∧ m.length ≤ n + 1 := by
  rw [matches_char_seq]
  constructor
  · rintro ⟨c, ds, rfl, hc, hds⟩
    obtain ⟨hlen, hds⟩ := (matches_upTo_char n).1 hds
    refine ⟨⟨List.cons_ne_nil _ _, List.forall_mem_cons.2 ⟨hc, hds⟩⟩, ?_⟩
    rw [List.length_cons]
    omega
  · rintro ⟨⟨hne, hds⟩, hlen⟩
    cases m with
    | nil => exact absurd rfl hne
    | cons c ds =>
        obtain ⟨hc, hds⟩ := List.forall_mem_cons.1 hds
        rw [List.length_cons] at hlen
        exact ⟨c, ds, rfl, hc, (matches_upTo_char n).2 ⟨by omega, hds⟩⟩

/-- An integer of at most fifteen digits. -/
theorem matches_integerRe : (integerRe U).Matches prev m rest ↔
    (!prev.any U.word) = true ∧ (!rest.head?.any U.word) = true ∧
      ∃ negative ds, m = minus negative ++ ds ∧ IsDigits ds ∧ ds.length ≤ 15 := by
  rw [integerRe, matches_standing, matches_sign_seq]
  constructor
  · rintro ⟨hprev, ⟨negative, ds, rfl, hds⟩, hrest⟩
    exact ⟨hprev, hrest, negative, ds, rfl, matches_someDigits.1 hds⟩
  · rintro ⟨hprev, hrest, negative, ds, rfl, hds⟩
    exact ⟨hprev, ⟨negative, ds, rfl, matches_someDigits.2 hds⟩, hrest⟩

/-- A time: one or two digits, a colon, two digits. -/
theorem matches_timeRe (hm : (timeRe U).Matches prev m rest) :
    (!prev.any U.word) = true ∧ (!rest.head?.any U.word) = true ∧
      ∃ hh mm, m = hh ++ 0x3A :: mm ∧ IsDigits hh ∧ hh.length ≤ 2 ∧ IsDigits mm ∧ mm.length = 2 := by
  have hascii : ∀ c, 0x30 ≤ c → c ≤ 0x39 → isDigit c = true := by decide
  obtain ⟨hprev, hm, hrest⟩ := matches_standing.1 hm
  obtain ⟨hh, m', rfl, hhour, hm⟩ := matches_seq.1 hm
  obtain ⟨c, m', rfl, hc, hm⟩ := matches_char_seq.1 hm
  obtain rfl := of_decide_eq_true hc
  obtain ⟨d, m', rfl, hd, hm⟩ := matches_char_seq.1 hm
  obtain ⟨e, rfl, he⟩ := matches_char.1 hm
  have hdigit : isDigit d = true := by
    simp only [Bool.and_eq_true, decide_eq_true_eq] at hd
    exact hascii d hd.1 (by omega)
  refine ⟨hprev, hrest, hh, [d, e], rfl, ?_⟩
  have hmm : IsDigits [d, e] := ⟨List.cons_ne_nil _ _, by simp [hdigit, he]⟩
  have hour : IsDigits hh ∧ hh.length ≤ 2 := by
    obtain hhour | hhour := hhour
    · obtain ⟨a, b, rfl, ha, hb⟩ := matches_seq.1 hhour
      obtain ⟨f, rfl, hf⟩ := matches_char.1 hb
      obtain ha | rfl := matches_opt.1 ha
      · obtain ⟨g, rfl, hg⟩ := matches_char.1 ha
        have hg' : isDigit g = true := by
          simp only [Bool.or_eq_true, decide_eq_true_eq] at hg
          exact hascii g (by omega) (by omega)
        exact ⟨⟨List.cons_ne_nil _ _, by simp [hg', hf]⟩, by simp⟩
      · exact ⟨⟨List.cons_ne_nil _ _, by simp [hf]⟩, by simp⟩
    · obtain ⟨g, b, rfl, hg, hb⟩ := matches_char_seq.1 hhour
      obtain ⟨f, rfl, hf⟩ := matches_char.1 hb
      simp only [Bool.and_eq_true, decide_eq_true_eq] at hg hf
      have hg' : isDigit g = true := hascii g (by omega) (by omega)
      have hf' : isDigit f = true := hascii f hf.1 (by omega)
      exact ⟨⟨List.cons_ne_nil _ _, by simp [hg', hf']⟩, by simp⟩
  exact ⟨hour.1, hour.2, hmm, rfl⟩

/-- The groups of a grouped number, as they are written. -/
def dotted (gs : List PyStr) : PyStr := gs.flatMap fun g => 0x2E :: g

/-- Three digits. -/
def IsGroup (g : PyStr) : Prop := g.length = 3 ∧ ∀ c ∈ g, isDigit c = true

/-- A group is a dot and three digits. -/
theorem matches_group : (seq (char fun c => c = 0x2E) (times 3 (char isDigit))).Matches prev m rest ↔
    ∃ g, m = 0x2E :: g ∧ IsGroup g := by
  rw [matches_char_seq]
  constructor
  · rintro ⟨c, g, rfl, hc, hg⟩
    obtain rfl := of_decide_eq_true hc
    exact ⟨g, rfl, (matches_times_char 3).1 hg⟩
  · rintro ⟨g, rfl, hg⟩
    exact ⟨0x2E, g, rfl, rfl, (matches_times_char 3).2 hg⟩

/-- Groups are any number of them. -/
theorem matches_groups :
    (star (seq (char fun c => c = 0x2E) (times 3 (char isDigit)))).Matches prev m rest ↔
      ∃ gs, m = dotted gs ∧ ∀ g ∈ gs, IsGroup g := by
  constructor
  · intro h
    change Star _ prev m rest at h
    induction h with
    | nil => exact ⟨[], rfl, fun g hg => by cases hg⟩
    | cons _ hm _ ih =>
        obtain ⟨g, rfl, hg⟩ := matches_group.1 hm
        obtain ⟨gs, rfl, hgs⟩ := ih
        exact ⟨g :: gs, rfl, List.forall_mem_cons.2 ⟨hg, hgs⟩⟩
  · rintro ⟨gs, rfl, hgs⟩
    change Star _ prev (dotted gs) rest
    induction gs generalizing prev with
    | nil => exact .nil prev rest
    | cons g gs ih =>
        obtain ⟨hg, hgs⟩ := List.forall_mem_cons.1 hgs
        exact .cons (m := 0x2E :: g) (List.cons_ne_nil _ _) (matches_group.2 ⟨g, rfl, hg⟩) (ih hgs)

/-- What follows the groups: nothing, or a comma and digits. -/
def tail : Option PyStr → PyStr
  | none => []
  | some fs => 0x2C :: fs

/-- A grouped number: up to three digits, groups of three, and a fraction. -/
theorem matches_thousandGroupedRe : (thousandGroupedRe U).Matches prev m rest ↔
    (!prev.any U.word) = true ∧ (!rest.head?.any U.word) = true ∧
      ∃ negative ds gs frac, m = minus negative ++ (ds ++ (dotted gs ++ tail frac)) ∧
        IsDigits ds ∧ ds.length ≤ 3 ∧ gs ≠ [] ∧ (∀ g ∈ gs, IsGroup g) ∧
        ∀ fs ∈ frac, IsDigits fs := by
  rw [thousandGroupedRe, matches_standing, matches_sign_seq]
  constructor
  · rintro ⟨hprev, ⟨negative, m', rfl, hm⟩, hrest⟩
    obtain ⟨ds, m', rfl, hds, hm⟩ := matches_seq.1 hm
    obtain ⟨hdigits, hlen⟩ := matches_someDigits.1 hds
    obtain ⟨gs', m', rfl, hgs, hm⟩ := matches_seq.1 hm
    obtain ⟨g', gs', rfl, hg, hgs⟩ := matches_seq.1 hgs
    obtain ⟨g, rfl, hgroup⟩ := matches_group.1 hg
    obtain ⟨gs, rfl, hgroups⟩ := matches_groups.1 hgs
    have htail : ∃ frac, m' = tail frac ∧ ∀ fs ∈ frac, IsDigits fs := by
      obtain hm | rfl := matches_opt.1 hm
      · obtain ⟨c, fs, rfl, hc, hfs⟩ := matches_char_seq.1 hm
        obtain rfl := of_decide_eq_true hc
        exact ⟨some fs, rfl, fun gs hgs => Option.some.inj hgs ▸ matches_digits.1 hfs⟩
      · exact ⟨none, rfl, fun fs hfs => by cases hfs⟩
    obtain ⟨frac, rfl, hfrac⟩ := htail
    exact ⟨hprev, hrest, negative, ds, g :: gs, frac, rfl, hdigits, hlen, List.cons_ne_nil _ _,
      List.forall_mem_cons.2 ⟨hgroup, hgroups⟩, hfrac⟩
  · rintro ⟨hprev, hrest, negative, ds, gs, frac, rfl, hds, hlen, hne, hgs, hfrac⟩
    cases gs with
    | nil => exact absurd rfl hne
    | cons g gs =>
        obtain ⟨hg, hgs⟩ := List.forall_mem_cons.1 hgs
        have htail : ∀ prev, (opt (seq (char fun c => c = 0x2C)
            (plus (char isDigit)))).Matches prev (tail frac) rest := by
          intro prev
          cases frac with
          | none => exact matches_opt.2 (.inr rfl)
          | some fs =>
              exact matches_opt.2 (.inl (matches_char_seq.2
                ⟨0x2C, fs, rfl, rfl, matches_digits.2 (hfrac fs rfl)⟩))
        refine ⟨hprev, ⟨negative, _, rfl, matches_seq.2 ⟨ds, _, rfl,
          matches_someDigits.2 ⟨hds, hlen⟩, matches_seq.2 ⟨dotted (g :: gs), _, rfl, ?_, htail _⟩⟩⟩,
          hrest⟩
        exact matches_seq.2 ⟨0x2E :: g, dotted gs, rfl, matches_group.2 ⟨g, rfl, hg⟩,
          matches_groups.2 ⟨gs, rfl, hgs⟩⟩

end forms

/-! ## what they become -/

/-- Digits in words. -/
def sayDigits (ds : PyStr) : Except Foreign PyStr := do numberToTurkish (← intOf ds)

/-- Digits that can be said: few enough for `int`, and in range. -/
def Sayable (ds : PyStr) : Prop := ds.length ≤ Json.maxStrDigits ∧ digitsValue ds < 10 ^ 15

instance (ds : PyStr) : Decidable (Sayable ds) := inferInstanceAs (Decidable (_ ∧ _))

/-- The sign in words. -/
def sayMinus (negative : Bool) : PyStr := if negative then py "eksi " else []

section values

variable {ds fs : PyStr} {negative : Bool} {sep : Nat} {gs : List PyStr}

/-- Digits may be followed by more digits. -/
theorem IsDigits.append {es : PyStr} (hds : IsDigits ds) (hes : ∀ c ∈ es, isDigit c = true) :
    IsDigits (ds ++ es) := by
  refine ⟨fun hnil => hds.1 (List.append_eq_nil_iff.1 hnil).1, fun c hc => ?_⟩
  obtain hc | hc := List.mem_append.1 hc
  · exact hds.2 c hc
  · exact hes c hc

/-- Digits below the two limits are said as their value. -/
theorem sayDigits_of_sayable (hds : IsDigits ds) (h : Sayable ds) :
    sayDigits ds = .ok (joinWords (cardinal (Int.ofNat (digitsValue ds)))) := by
  rw [sayDigits, intOf_digits hds, if_neg (Nat.not_lt.2 h.1)]
  exact (numberToTurkish_eq (n := Int.ofNat (digitsValue ds)) h.2).1

/-- Beyond one of the limits, `number_to_turkish` or `int` raises. -/
theorem sayDigits_error (hds : IsDigits ds) (h : ¬Sayable ds) : ∃ e, sayDigits ds = .error e := by
  rw [sayDigits, intOf_digits hds]
  split
  · exact ⟨_, rfl⟩
  · next hlen =>
      have hbig : 10 ^ 15 ≤ digitsValue ds := by
        by_contra hlt
        exact h ⟨Nat.not_lt.1 hlen, Nat.not_le.1 hlt⟩
      change ∃ e, numberToTurkish (Int.ofNat (digitsValue ds)) = .error e
      cases hn : digitsValue ds with
      | zero => rw [hn] at hbig; omega
      | succ n =>
          rw [hn] at hbig
          rw [numberToTurkish, positiveToTurkish, if_pos hbig]
          exact ⟨_, rfl⟩

/-- A sign is a minus. -/
theorem mem_minus {c : Nat} (h : c ∈ minus negative) : c = 0x2D := by
  cases negative with
  | true => exact List.mem_singleton.1 h
  | false => cases h

/-- A number of `n` digits is less than the `n`-th power of ten. -/
theorem digitsValue_lt (ds : PyStr) : digitsValue ds < 10 ^ ds.length := by
  induction ds using List.reverseRecOn with
  | nil => exact Nat.one_pos
  | append_singleton ds c ih =>
      have hc := digitValue_lt c
      have hlast : digitsValue (ds ++ [c]) = digitsValue ds * 10 + digitValue c := by
        rw [digitsValue, List.foldl_append]
        rfl
      rw [hlast, List.length_append, List.length_singleton, Nat.pow_succ]
      omega

/-- Few digits can be said. -/
theorem sayable_of_length (h : ds.length ≤ 15) : Sayable ds := by
  have hlimit : 15 ≤ Json.maxStrDigits := by decide
  exact ⟨Nat.le_trans h hlimit,
    Nat.lt_of_lt_of_le (digitsValue_lt ds) (Nat.pow_le_pow_right (by decide) h)⟩

/-- The head of signed digits is their sign. -/
theorem head?_minus (hds : IsDigits ds) (t : PyStr) :
    ((minus negative ++ (ds ++ t)).head? == some 0x2D) = negative := by
  cases negative with
  | true => rfl
  | false =>
      obtain ⟨hne, hdigit⟩ := hds
      cases ds with
      | nil => exact absurd rfl hne
      | cons c ds =>
          have hc := (ne_of_isDigit (hdigit c (by simp))).2.2.1
          simpa [minus] using hc

/-- The sign is split off the digits behind it. -/
theorem signOf_minus (hds : IsDigits ds) (t : PyStr) :
    signOf (minus negative ++ (ds ++ t)) = (sayMinus negative, ds ++ t) := by
  have hhead := @head?_minus _ negative hds t
  cases negative with
  | true => rfl
  | false =>
      have hne : (minus false ++ (ds ++ t)).head? ≠ some 0x2D := by simpa using hhead
      rw [signOf, if_neg hne]
      rfl

/-- **A decimal in words.** -/
theorem decimalToTurkish_eq (hds : IsDigits ds) (hfs : IsDigits fs) (hsep : sep = 0x2E ∨ sep = 0x2C) :
    decimalToTurkish (minus negative ++ (ds ++ sep :: fs)) = (sayDigits ds).map fun w =>
      stripBy isSpace (sayMinus negative ++ w ++ py " virgül " ++
        joinWords (fs.map wordOfDigit)) := by
  have hkeep : ∀ cs : PyStr, (∀ c ∈ cs, c ≠ 0x2C) →
      (cs.map fun c => if c = 0x2C then 0x2E else c) = cs := by
    intro cs hcs
    rw [List.map_congr_left fun c hc => if_neg (hcs c hc), List.map_id']
  have hminus : ∀ c ∈ minus negative, c ≠ 0x2C := by
    intro c hc
    rw [mem_minus hc]
    decide
  have hmap : ((minus negative ++ (ds ++ sep :: fs)).map fun c => if c = 0x2C then 0x2E else c) =
      minus negative ++ (ds ++ 0x2E :: fs) := by
    have hpoint : (if sep = 0x2C then 0x2E else sep) = 0x2E := by
      obtain rfl | rfl := hsep <;> rfl
    rw [List.map_append, List.map_append, List.map_cons, hpoint, hkeep _ hminus,
      hkeep ds fun c hc => (ne_of_isDigit (hds.2 c hc)).2.1,
      hkeep fs fun c hc => (ne_of_isDigit (hfs.2 c hc)).2.1]
  have hstrip : stripBy isSpace (minus negative ++ (ds ++ 0x2E :: fs)) =
      minus negative ++ (ds ++ 0x2E :: fs) := by
    have hall : ∀ c ∈ minus negative ++ (ds ++ 0x2E :: fs), isSpace c = false := by
      intro c hc
      simp only [List.mem_append, List.mem_cons] at hc
      obtain hc | hc | rfl | hc := hc
      · rw [mem_minus hc]
        rfl
      · exact isSpace_of_isDigit (hds.2 c hc)
      · rfl
      · exact isSpace_of_isDigit (hfs.2 c hc)
    exact stripBy_of_ends (fun c hc => hall c (List.mem_of_mem_head? hc))
      fun c hc => hall c (List.mem_of_mem_getLast? hc)
  have hsplit := @takeWhile_separator _ _ _ 0x2E (minus negative ++ ds) fs (by
    intro c hc
    obtain hc | hc := List.mem_append.1 hc
    · rw [mem_minus hc]
      decide
    · exact (ne_of_isDigit (hds.2 c hc)).2.2.2.1)
  rw [List.append_assoc] at hsplit
  have hcontains : (minus negative ++ (ds ++ 0x2E :: fs)).contains 0x2E = true := by simp
  rw [decimalToTurkish, hmap, hstrip, hcontains]
  simp only [Bool.not_true, Bool.false_eq_true, if_false]
  rw [hsplit.1, hsplit.2]
  have hhead := @head?_minus _ negative hds []
  rw [List.append_nil] at hhead
  have hint : (if negative = true then (minus negative ++ ds).drop 1 else minus negative ++ ds) =
      ds := by
    cases negative <;> rfl
  have hfull : ds.isEmpty = false := by
    cases ds with
    | nil => exact absurd rfl hds.1
    | cons c ds => rfl
  rw [hhead, hint, hfull, List.drop_succ_cons, List.drop_zero, mapM_digitWord hfs.2]
  simp only [Bool.false_eq_true, if_false, sayDigits]
  cases intOf ds with
  | error e => rfl
  | ok n =>
      cases hn : numberToTurkish n with
      | error e =>
          change (do let intWords ← numberToTurkish n; _) = Except.map _ (numberToTurkish n)
          rw [hn]
          rfl
      | ok w =>
          change (do let intWords ← numberToTurkish n; _) = Except.map _ (numberToTurkish n)
          rw [hn]
          rfl

/-- An integer in words. -/
theorem expandInteger_eq (hds : IsDigits ds) :
    expandInteger (minus negative ++ ds) = (sayDigits ds).map fun w => sayMinus negative ++ w := by
  have hsign := @signOf_minus _ negative hds []
  rw [List.append_nil] at hsign
  rw [expandInteger, hsign]
  simp only [sayDigits]
  cases intOf ds with
  | error e => rfl
  | ok n =>
      change (do let w ← numberToTurkish n; _) = Except.map _ (numberToTurkish n)
      cases numberToTurkish n <;> rfl

/-- The words of a time. -/
def timeWords (hour minute : Nat) : List PyStr :=
  py "saat" :: cardinal (Int.ofNat hour) ++
    if minute = 0 then [] else cardinal (Int.ofNat minute)

/-- A time in words. -/
theorem expandTime_eq {hh mm : PyStr} (hhh : IsDigits hh) (hhour : hh.length ≤ 2)
    (hmm : IsDigits mm) (hminute : mm.length = 2) :
    expandTime (hh ++ 0x3A :: mm) =
      .ok (joinWords (timeWords (digitsValue hh) (digitsValue mm))) := by
  have hsplit := @takeWhile_separator _ _ _ 0x3A hh mm fun c hc =>
    (ne_of_isDigit (hhh.2 c hc)).2.2.2.2.1
  have hh15 := @sayable_of_length hh (by omega)
  have hm15 := @sayable_of_length mm (by omega)
  obtain ⟨hhw, hhne, -⟩ := numberToTurkish_eq (n := Int.ofNat (digitsValue hh)) hh15.2
  obtain ⟨hmw, hmne, -⟩ := numberToTurkish_eq (n := Int.ofNat (digitsValue mm)) hm15.2
  have hjoin : joinWords (py "saat" :: cardinal (Int.ofNat (digitsValue hh))) =
      py "saat " ++ joinWords (cardinal (Int.ofNat (digitsValue hh))) :=
    @joinWords_append [py "saat"] _ (List.cons_ne_nil _ _) hhne
  rw [expandTime, hsplit.1, hsplit.2, List.drop_succ_cons, List.drop_zero, intOf_digits hhh,
    intOf_digits hmm, if_neg (Nat.not_lt.2 hh15.1), if_neg (Nat.not_lt.2 hm15.1)]
  change (do
    let hWords ← numberToTurkish (Int.ofNat (digitsValue hh))
    if (digitsValue mm : Int) = 0 then _ else _) = _
  rw [hhw]
  change (if (digitsValue mm : Int) = 0 then (.ok _ : Except Foreign PyStr) else do
    let w ← numberToTurkish (Int.ofNat (digitsValue mm))
    _) = _
  rw [hmw, timeWords]
  by_cases hzero : digitsValue mm = 0
  · rw [if_pos (by omega), if_pos hzero, List.append_nil, hjoin]
  · rw [if_neg (by omega), if_neg hzero, joinWords_append (List.cons_ne_nil _ _) hmne, hjoin]
    rfl

/-- The digits of a grouped number. -/
def ungrouped (ds : PyStr) (gs : List PyStr) : PyStr := ds ++ gs.flatten

/-- Without its dots a grouped number is digits. -/
theorem isDigits_ungrouped (hds : IsDigits ds) (hgs : ∀ g ∈ gs, IsGroup g) :
    IsDigits (ungrouped ds gs) := by
  refine hds.append fun c hc => ?_
  obtain ⟨g, hg, hc⟩ := List.mem_flatten.1 hc
  exact (hgs g hg).2 c hc

/-- Digits have no dots to lose. -/
theorem withoutDots_digits (h : ∀ c ∈ ds, isDigit c = true) : withoutDots ds = ds := by
  refine List.filter_eq_self.2 fun c hc => ?_
  simpa using (ne_of_isDigit (h c hc)).2.2.2.1

/-- Groups lose one dot each. -/
theorem withoutDots_dotted (hgs : ∀ g ∈ gs, IsGroup g) : withoutDots (dotted gs) = gs.flatten := by
  induction gs with
  | nil => rfl
  | cons g gs ih =>
      obtain ⟨hg, hgs⟩ := List.forall_mem_cons.1 hgs
      have hcons : dotted (g :: gs) = 0x2E :: (g ++ dotted gs) := rfl
      rw [hcons, List.flatten_cons, ← ih hgs, ← withoutDots_digits hg.2]
      simp [withoutDots]

/-- A grouped number loses its dots and nothing else. -/
theorem withoutDots_grouped (hds : IsDigits ds) (hgs : ∀ g ∈ gs, IsGroup g) :
    withoutDots (ds ++ dotted gs) = ungrouped ds gs := by
  rw [ungrouped, ← withoutDots_dotted hgs, ← withoutDots_digits hds.2]
  simp [withoutDots]

/-- A grouped number has no comma. -/
theorem ne_comma_of_dotted (hds : IsDigits ds) (hgs : ∀ g ∈ gs, IsGroup g) :
    ∀ c ∈ ds ++ dotted gs, c ≠ 0x2C := by
  intro c hc
  obtain hc | hc := List.mem_append.1 hc
  · exact (ne_of_isDigit (hds.2 c hc)).2.1
  · obtain ⟨g, hg, hc⟩ := List.mem_flatMap.1 hc
    obtain rfl | hc := List.mem_cons.1 hc
    · decide
    · exact (ne_of_isDigit ((hgs g hg).2 c hc)).2.1

/-- A grouped number without a fraction. -/
theorem expandThousandGrouped_integer (hds : IsDigits ds) (hgs : ∀ g ∈ gs, IsGroup g) :
    expandThousandGrouped (minus negative ++ (ds ++ (dotted gs ++ tail none))) =
      (sayDigits (ungrouped ds gs)).map fun w => sayMinus negative ++ w := by
  have hcomma : (ds ++ (dotted gs ++ tail none)).contains 0x2C = false := by
    rw [tail, List.append_nil]
    simpa using fun hc => ne_comma_of_dotted hds hgs 0x2C hc rfl
  rw [expandThousandGrouped, signOf_minus hds]
  simp only
  rw [hcomma, tail, List.append_nil, withoutDots_grouped hds hgs]
  simp only [Bool.false_eq_true, if_false, sayDigits]
  cases intOf (ungrouped ds gs) with
  | error e => rfl
  | ok n =>
      change (do let w ← numberToTurkish n; _) = Except.map _ (numberToTurkish n)
      cases numberToTurkish n <;> rfl

/-- A grouped number with a fraction: a decimal without the dots. -/
theorem expandThousandGrouped_fraction (hds : IsDigits ds) (hgs : ∀ g ∈ gs, IsGroup g)
    (hfs : IsDigits fs) :
    expandThousandGrouped (minus negative ++ (ds ++ (dotted gs ++ tail (some fs)))) =
      (sayDigits (ungrouped ds gs)).map fun w => sayMinus negative ++
        stripBy isSpace (w ++ py " virgül " ++ joinWords (fs.map wordOfDigit)) := by
  have hraw : ds ++ (dotted gs ++ tail (some fs)) = (ds ++ dotted gs) ++ 0x2C :: fs := by
    rw [tail, List.append_assoc]
  have hcomma : (ds ++ (dotted gs ++ tail (some fs))).contains 0x2C = true := by
    simp [tail]
  obtain ⟨htake, hdrop⟩ := @takeWhile_separator _ _ _ _ _ fs (ne_comma_of_dotted hds hgs)
  have hdecimal := @decimalToTurkish_eq _ _ false _ (isDigits_ungrouped hds hgs) hfs
    (.inl rfl)
  rw [expandThousandGrouped, signOf_minus hds]
  simp only
  rw [hcomma, if_pos rfl, hraw, htake, hdrop, withoutDots_grouped hds hgs, List.drop_succ_cons,
    List.drop_zero]
  change (do let w ← decimalToTurkish (minus false ++ (ungrouped ds gs ++ 0x2E :: fs)); _) = _
  rw [hdecimal]
  cases sayDigits (ungrouped ds gs) <;> rfl

end values

/-! ## what is written and what is said -/

/-- The digits behind the last separator. -/
def fractionDigits (m : PyStr) : PyStr := m.rtakeWhile isDigit

/-- The digits before the last separator. -/
def integerDigits (m : PyStr) : PyStr := (m.rdropWhile isDigit).filter isDigit

/-- The decimal that is written. -/
def written (m : PyStr) : Decimal where
  negative := m.head? == some 0x2D
  integer := digitsValue (integerDigits m)
  fraction := (fractionDigits m).map digitValue

/-- The decimal is said: its words are read back as what is written. -/
def SaidBy (say : PyStr → Except Foreign PyStr) (m : PyStr) : Prop :=
  ∃ s, say m = .ok s ∧ readDecimal s = some (written m)

section said

variable {ds fs body : PyStr} {negative : Bool} {sep n : Nat} {gs : List PyStr}

/-- The word for minus is the first word. -/
theorem wordsOf_sayMinus (negative : Bool) (s : PyStr) : wordsOf (sayMinus negative ++ s) =
    (if negative then [py "eksi"] else []) ++ wordsOf s := by
  cases negative with
  | true =>
      have hsign : sayMinus true ++ s = py "eksi" ++ 0x20 :: s := rfl
      rw [hsign, wordsOf_append_blank]
      rfl
  | false => rfl

/-- A decimal's words, joined. -/
theorem joinWords_decimalWords (hfs : fs ≠ []) (h : n < 10 ^ 15) :
    joinWords (decimalWords false n fs) = joinWords (cardinal (Int.ofNat n)) ++ py " virgül " ++
      joinWords (fs.map wordOfDigit) := by
  have hne := (numberToTurkish_eq (n := Int.ofNat n) h).2.1
  have hfs' : fs.map wordOfDigit ≠ [] := by simpa using hfs
  have hpoint : joinWords (py "virgül" :: fs.map wordOfDigit) =
      py "virgül" ++ 0x20 :: joinWords (fs.map wordOfDigit) :=
    @joinWords_append [py "virgül"] _ (List.cons_ne_nil _ _) hfs'
  have hgap : py " virgül " = 0x20 :: (py "virgül" ++ [0x20]) := by decide
  rw [decimalWords, if_neg Bool.false_ne_true, List.nil_append,
    joinWords_append hne (List.cons_ne_nil _ _), hpoint, hgap]
  simp

/-- No word of a decimal has white space in it. -/
theorem decimalWords_nonspace (h : n < 10 ^ 15) :
    ∀ w ∈ decimalWords negative n fs, ∀ c ∈ w, isSpace c = false := by
  have hvoc := (numberToTurkish_eq (n := Int.ofNat n) h).2.2
  intro w hw
  rw [decimalWords, List.mem_append, List.mem_append, List.mem_cons] at hw
  obtain (hw | hw) | rfl | hw := hw
  · cases negative with
    | true => rw [List.mem_singleton.1 hw]; decide
    | false => cases hw
  · exact (isWord_of_vocabulary w (hvoc w hw)).2
  · decide
  · obtain ⟨d, -, rfl⟩ := List.mem_map.1 hw
    exact wordOfDigit_nonspace d

/-- The sign is said in front of the same words. -/
theorem decimalWords_eq (negative : Bool) (n : Nat) (fs : PyStr) : decimalWords negative n fs =
    (if negative then [py "eksi"] else []) ++ decimalWords false n fs := by
  simp [decimalWords]

/-- The words of what `decimal_to_turkish` returns. -/
theorem wordsOf_decimal (hfs : fs ≠ []) (h : n < 10 ^ 15) :
    wordsOf (stripBy isSpace (sayMinus negative ++ joinWords (cardinal (Int.ofNat n)) ++
      py " virgül " ++ joinWords (fs.map wordOfDigit))) =
        (decimalWords negative n fs).filter fun w => !w.isEmpty := by
  have hnonspace := @decimalWords_nonspace fs false _ h
  have hjoin : sayMinus negative ++ joinWords (cardinal (Int.ofNat n)) ++ py " virgül " ++
      joinWords (fs.map wordOfDigit) = sayMinus negative ++ joinWords (decimalWords false n fs) := by
    rw [joinWords_decimalWords hfs h]
    simp
  have hminus : Blank (sayMinus negative) := by
    cases negative <;> unfold Blank <;> decide
  rw [hjoin, wordsOf_stripBy (hminus.append (blank_joinWords hnonspace)), wordsOf_sayMinus,
    wordsOf_gaps hnonspace, decimalWords_eq negative, List.filter_append]
  cases negative <;> rfl

/-- What is written before the separator is the integer, and behind it the fraction.
-/
theorem written_eq (hfs : ∀ c ∈ fs, isDigit c = true) (hsep : isDigit sep = false) :
    written (body ++ sep :: fs) = ⟨(body ++ sep :: fs).head? == some 0x2D,
      digitsValue (body.filter isDigit), fs.map digitValue⟩ ∧
      integerDigits (body ++ sep :: fs) = body.filter isDigit ∧
      fractionDigits (body ++ sep :: fs) = fs := by
  have hrev : (body ++ sep :: fs).reverse = fs.reverse ++ sep :: body.reverse := by simp
  have hfs' : ∀ c ∈ fs.reverse, isDigit c = true := by simpa using hfs
  have hfrac : fractionDigits (body ++ sep :: fs) = fs := by
    rw [fractionDigits, List.rtakeWhile, hrev, List.takeWhile_append_of_pos hfs',
      List.takeWhile_cons_of_neg (by simp [hsep])]
    simp
  have hint : integerDigits (body ++ sep :: fs) = body.filter isDigit := by
    rw [integerDigits, List.rdropWhile, hrev, List.dropWhile_append_of_pos hfs',
      List.dropWhile_cons_of_neg (by simp [hsep])]
    simp [hsep]
  exact ⟨by rw [written, hfrac, hint], hint, hfrac⟩

/-- What a decimal's words depend on. -/
theorem saidBy_iff {say : PyStr → Except Foreign PyStr} {m : PyStr} {f : PyStr → PyStr}
    (hds : IsDigits ds) (hrange : digitsValue ds < 10 ^ 15)
    (hsay : say m = (sayDigits ds).map f)
    (hwords : wordsOf (f (joinWords (cardinal (Int.ofNat (digitsValue ds))))) =
      (decimalWords negative (digitsValue ds) fs).filter fun w => !w.isEmpty)
    (hwritten : written m = ⟨negative, digitsValue ds, fs.map digitValue⟩) :
    SaidBy say m ↔ ds.length ≤ Json.maxStrDigits ∧ ∀ d ∈ fs, ¬IsForeignZero d := by
  rw [← readDecimal_iff hrange hwords, ← hwritten]
  constructor
  · rintro ⟨s, hs, hread⟩
    have hlen : ds.length ≤ Json.maxStrDigits := by
      by_contra hlong
      obtain ⟨e, he⟩ := sayDigits_error hds fun h => hlong h.1
      rw [hsay, he] at hs
      cases hs
    rw [hsay, sayDigits_of_sayable hds ⟨hlen, hrange⟩] at hs
    cases hs
    exact ⟨hlen, hread⟩
  · rintro ⟨hlen, hread⟩
    refine ⟨_, ?_, hread⟩
    rw [hsay, sayDigits_of_sayable hds ⟨hlen, hrange⟩]
    rfl

/-- A sign has no digit. -/
theorem filter_minus (negative : Bool) (body : PyStr) :
    (minus negative ++ body).filter isDigit = body.filter isDigit := by
  have hminus : isDigit 0x2D = false := by decide
  cases negative with
  | true => exact List.filter_cons_of_neg (by simp [hminus])
  | false => rfl

/-- Digits are all digits. -/
theorem filter_digits (h : ∀ c ∈ ds, isDigit c = true) : ds.filter isDigit = ds :=
  List.filter_eq_self.2 h

/-- The digits of groups are what stands between the dots. -/
theorem filter_dotted (hgs : ∀ g ∈ gs, IsGroup g) : (dotted gs).filter isDigit = gs.flatten := by
  have hdot : isDigit 0x2E = false := by decide
  induction gs with
  | nil => rfl
  | cons g gs ih =>
      obtain ⟨hg, hgs⟩ := List.forall_mem_cons.1 hgs
      have hcons : dotted (g :: gs) = 0x2E :: (g ++ dotted gs) := rfl
      rw [hcons, List.filter_cons_of_neg (by simp [hdot]), List.filter_append, ih hgs,
        filter_digits hg.2, List.flatten_cons]

/-- When the decimals that `_DECIMAL_RE` finds are said. -/
theorem saidBy_expandDecimal {U : Unicode} {prev : Option Nat} {m rest : PyStr}
    (hm : (decimalRe U).Matches prev m rest) (hrange : (written m).integer < 10 ^ 15) :
    SaidBy expandDecimal m ↔ (integerDigits m).length ≤ Json.maxStrDigits ∧
      ∀ d ∈ fractionDigits m, ¬IsForeignZero d := by
  obtain ⟨-, -, negative, ds, sep, fs, rfl, hds, hfs, hsep⟩ := matches_decimalRe.1 hm
  have hpoint : isDigit sep = false := by
    obtain rfl | rfl := hsep <;> decide
  obtain ⟨hwritten, hint, hfrac⟩ := @written_eq _ (minus negative ++ ds) _ hfs.2 hpoint
  rw [filter_minus, filter_digits hds.2, List.append_assoc] at hwritten hint
  rw [List.append_assoc] at hfrac
  rw [head?_minus hds] at hwritten
  rw [hwritten] at hrange
  rw [hint, hfrac]
  exact saidBy_iff hds hrange (decimalToTurkish_eq hds hfs hsep) (wordsOf_decimal hfs.1 hrange)
    hwritten

/-- When the decimals that `_THOUSAND_GROUPED_RE` finds are said. -/
theorem saidBy_expandThousandGrouped {U : Unicode} {prev : Option Nat} {m rest : PyStr}
    (hm : (thousandGroupedRe U).Matches prev m rest) (hcomma : 0x2C ∈ m)
    (hrange : (written m).integer < 10 ^ 15) :
    SaidBy expandThousandGrouped m ↔ (integerDigits m).length ≤ Json.maxStrDigits ∧
      ∀ d ∈ fractionDigits m, ¬IsForeignZero d := by
  obtain ⟨-, -, negative, ds, gs, frac, rfl, hds, -, -, hgs, hfrac⟩ :=
    matches_thousandGroupedRe.1 hm
  cases frac with
  | none =>
      rw [tail, List.append_nil, List.mem_append] at hcomma
      obtain hcomma | hcomma := hcomma
      · cases mem_minus hcomma
      · exact absurd rfl (ne_comma_of_dotted hds hgs _ hcomma)
  | some fs =>
      have hfs := hfrac fs rfl
      have hbody : minus negative ++ (ds ++ (dotted gs ++ tail (some fs))) =
          (minus negative ++ (ds ++ dotted gs)) ++ 0x2C :: fs := by simp [tail]
      obtain ⟨hwritten, hint, hbehind⟩ :=
        @written_eq _ (minus negative ++ (ds ++ dotted gs)) _ hfs.2 (by decide : isDigit 0x2C = false)
      rw [filter_minus, List.filter_append, filter_digits hds.2, filter_dotted hgs, ← hbody]
        at hwritten hint
      rw [← hbody] at hbehind
      rw [head?_minus hds] at hwritten
      rw [hwritten] at hrange
      rw [hint, hbehind]
      refine saidBy_iff (isDigits_ungrouped hds hgs) hrange
        (expandThousandGrouped_fraction hds hgs hfs) ?_ hwritten
      have hplain := @wordsOf_decimal _ false _ hfs.1 hrange
      rw [wordsOf_sayMinus, decimalWords_eq, List.filter_append, ← hplain]
      cases negative <;> rfl

end said

/-! ## numbers are said as they are written -/

/-- **Numbers in words.**  An integer is read back from its words, so different
integers have different words.  A decimal is said in full exactly when `int`
takes the digits before its separator and none behind it is a zero of another
script. -/
theorem numbers_spoken (U : Unicode) :
    (∀ n : Int, n.natAbs < 10 ^ 15 →
      ∃ s, numberToTurkish n = .ok s ∧ readNumber s = some n) ∧
    (∀ n k : Int, n.natAbs < 10 ^ 15 → k.natAbs < 10 ^ 15 →
      numberToTurkish n = numberToTurkish k → n = k) ∧
    (∀ prev m rest, (decimalRe U).Matches prev m rest → (written m).integer < 10 ^ 15 →
      (SaidBy expandDecimal m ↔ (integerDigits m).length ≤ Json.maxStrDigits ∧
        ∀ d ∈ fractionDigits m, ¬IsForeignZero d)) ∧
    (∀ prev m rest, (thousandGroupedRe U).Matches prev m rest → 0x2C ∈ m →
      (written m).integer < 10 ^ 15 →
        (SaidBy expandThousandGrouped m ↔ (integerDigits m).length ≤ Json.maxStrDigits ∧
          ∀ d ∈ fractionDigits m, ¬IsForeignZero d)) := by
  refine ⟨fun n hn => readNumber_numberToTurkish hn, fun n k hn hk heq => ?_,
    fun prev m rest hm hrange => saidBy_expandDecimal hm hrange,
    fun prev m rest hm hcomma hrange => saidBy_expandThousandGrouped hm hcomma hrange⟩
  obtain ⟨s, hs, hread⟩ := readNumber_numberToTurkish hn
  obtain ⟨t, ht, hread'⟩ := readNumber_numberToTurkish hk
  rw [hs, ht] at heq
  rw [Except.ok.inj heq, hread'] at hread
  exact (Option.some.inj hread).symm

/-- A zero of another script is not said: `3,1` and such a zero is read as `3,1`. -/
theorem foreign_zero_dropped :
    (decimalRe Unicode.turkish).Matches none (py "3,1" ++ [0x660]) [] ∧
      written (py "3,1" ++ [0x660]) = ⟨false, 3, [1, 0]⟩ ∧
      normalizeText Unicode.turkish [] (py "3,1" ++ [0x660]) = .ok (py "üç virgül bir") ∧
      readDecimal (py "üç virgül bir") = some ⟨false, 3, [1]⟩ ∧
      ¬SaidBy expandDecimal (py "3,1" ++ [0x660]) := by
  refine ⟨matches_decimalRe.2 ⟨rfl, rfl, false, [0x33], 0x2C, [0x31, 0x660], rfl, ?_, ?_, .inr rfl⟩,
    by decide, by decide +kernel, by decide, ?_⟩
  · unfold IsDigits
    decide
  · unfold IsDigits
    decide
  · rintro ⟨s, hs, hread⟩
    have hsay : expandDecimal (py "3,1" ++ [0x660]) = .ok (py "üç virgül bir") := by decide
    rw [hsay] at hs
    cases hs
    revert hread
    decide

/-- `numbers_spoken` of `-1.000,50`. -/
theorem numbers_spoken_grouped :
    (∃ s, numberToTurkish (-1070) = .ok s ∧ readNumber s = some (-1070)) ∧
      SaidBy expandThousandGrouped (py "-1.000,50") := by
  obtain ⟨hread, -, -, hgrouped⟩ := numbers_spoken Unicode.turkish
  have hm : (thousandGroupedRe Unicode.turkish).Matches none (py "-1.000,50") [] := by
    refine matches_thousandGroupedRe.2 ⟨rfl, rfl, true, py "1", [py "000"], some (py "50"), rfl, ?_,
      by decide, List.cons_ne_nil _ _, ?_, ?_⟩
    · unfold IsDigits
      decide
    · unfold IsGroup
      decide
    · unfold IsDigits
      decide
  exact ⟨hread _ (by decide), (hgrouped _ _ _ hm (by decide) (by decide)).2 (by decide)⟩

end NeuroVoice
