import NeuroVoice.Py

/-!
# NeuroVoice.Frontend.Numbers

`frontend/lang_packs/tr/numbers.py`: Turkish words for integers and decimals,
and a reader of such words.

`numberToTurkish` and `decimalToTurkish` are the source's.  `readNumber` and
`readDecimal` go the other way, word by word, and know nothing of how the words
were made; `readNumber_numberToTurkish` says that a reader gets the number back.
-/

namespace NeuroVoice

/-! ## numbers.py -/

/-- `" ".join(parts)`. -/
def joinWords (parts : List PyStr) : PyStr := joinWith 0x20 parts

/-- `_ONES`. -/
def ones : List PyStr :=
  [[], py "bir", py "iki", py "üç", py "dört", py "beş", py "altı", py "yedi", py "sekiz",
    py "dokuz"]

/-- `_TENS`. -/
def tens : List PyStr :=
  [[], py "on", py "yirmi", py "otuz", py "kırk", py "elli", py "altmış", py "yetmiş",
    py "seksen", py "doksan"]

/-- `_SCALES`. -/
def scales : List (Nat × PyStr) :=
  [(10 ^ 12, py "trilyon"), (10 ^ 9, py "milyar"), (10 ^ 6, py "milyon"), (10 ^ 3, py "bin")]

/-- `_below_thousand`. -/
def belowThousand (n : Nat) : PyStr :=
  if n = 0 then []
  else
    let hundreds := n / 100
    let rem := n % 100
    joinWords (
      (if hundreds = 0 then []
        else if hundreds = 1 then [py "yüz"] else [ones.getD hundreds [] ++ py " yüz"]) ++
      (if rem / 10 = 0 then [] else [tens.getD (rem / 10) []]) ++
      (if rem % 10 = 0 then [] else [ones.getD (rem % 10) []]))

/-- The part of one scale. -/
def scalePart (count : Nat) (name : PyStr) : PyStr :=
  if name = py "bin" ∧ count = 1 then py "bin"
  else stripBy isSpace (belowThousand count ++ 0x20 :: name)

/-- The loop over the scales, and what remains. -/
def scaleParts : List (Nat × PyStr) → Nat → List PyStr
  | [], remainder => if 0 < remainder then [belowThousand remainder] else []
  | (value, name) :: rest, remainder =>
      if value ≤ remainder then
        scalePart (remainder / value) name :: scaleParts rest (remainder % value)
      else scaleParts rest remainder

/-- `number_to_turkish` of a positive number. -/
def positiveToTurkish (n : Nat) : Except Foreign PyStr :=
  if 10 ^ 15 ≤ n then .error (.valueError s!"number {n} exceeds supported range (< 10^15)")
  else .ok (joinWords ((scaleParts scales n).filter fun p => !p.isEmpty))

/-- `number_to_turkish`. -/
def numberToTurkish : Int → Except Foreign PyStr
  | .ofNat 0 => .ok (py "sıfır")
  | .ofNat (n + 1) => positiveToTurkish (n + 1)
  | .negSucc n => do return py "eksi " ++ (← positiveToTurkish (n + 1))

/-- `int(s)`. -/
def intOf (s : PyStr) : Except Foreign Int := (Json.str s).toInt

/-- The word of one fractional digit. -/
def digitWord (d : Nat) : Except Foreign PyStr :=
  if d = 0x30 then .ok (py "sıfır") else do return ones.getD (← intOf [d]).toNat []

/-- `decimal_to_turkish`. -/
def decimalToTurkish (s : PyStr) : Except Foreign PyStr := do
  let s := stripBy isSpace (s.map fun c => if c = 0x2C then 0x2E else c)
  if !s.contains 0x2E then
    return ← numberToTurkish (← intOf s)
  let intPart := s.takeWhile fun c => c != 0x2E
  let fracPart := (s.dropWhile fun c => c != 0x2E).drop 1
  let negative := intPart.head? == some 0x2D
  let intPart := if negative then intPart.drop 1 else intPart
  let intWords ← numberToTurkish (← intOf (if intPart.isEmpty then py "0" else intPart))
  let fracWords ← fracPart.mapM digitWord
  return stripBy isSpace
    ((if negative then py "eksi " else []) ++ intWords ++ py " virgül " ++ joinWords fracWords)

/-! ## phrases -/

/-- The words that numbers are made of. -/
def vocabulary : List PyStr :=
  [py "sıfır", py "eksi", py "virgül", py "yüz"] ++ ones.drop 1 ++ tens.drop 1 ++
    scales.map Prod.snd

/-- A word: not empty, and without white space. -/
def IsWord (w : PyStr) : Prop := w ≠ [] ∧ ∀ c ∈ w, isSpace c = false

instance (w : PyStr) : Decidable (IsWord w) := inferInstanceAs (Decidable (_ ∧ _))

theorem isWord_of_vocabulary : ∀ w ∈ vocabulary, IsWord w := by decide

section phrases

variable {ps qs : List PyStr} {pss : List (List PyStr)}

theorem joinWords_append (hp : ps ≠ []) (hq : qs ≠ []) :
    joinWords (ps ++ qs) = joinWords ps ++ 0x20 :: joinWords qs := by
  induction ps with
  | nil => exact absurd rfl hp
  | cons p ps ih =>
      cases ps with
      | nil =>
          cases qs with
          | nil => exact absurd rfl hq
          | cons q qs => rfl
      | cons r rs =>
          have hrest := ih (List.cons_ne_nil r rs)
          simp only [joinWords, List.cons_append, joinWith] at hrest ⊢
          rw [hrest]
          simp

/-- Joining what is joined. -/
theorem joinWords_map (h : ∀ ps ∈ pss, ps ≠ []) :
    joinWords (pss.map joinWords) = joinWords pss.flatten := by
  induction pss with
  | nil => rfl
  | cons ps pss ih =>
      have hps := h ps (by simp)
      have hrest := ih fun qs hqs => h qs (by simp [hqs])
      cases pss with
      | nil => simp [joinWords, joinWith]
      | cons qs qss =>
          have hne : (qs :: qss).flatten ≠ [] := by
            simp [h qs (by simp)]
          rw [List.flatten_cons, joinWords_append hps hne, ← hrest]
          rfl

/-- Nothing is stripped between two characters that stay. -/
theorem stripBy_of_ends {p : Nat → Bool} {s : PyStr} (hhead : ∀ c ∈ s.head?, p c = false)
    (hlast : ∀ c ∈ s.getLast?, p c = false) : stripBy p s = s := by
  have hfront : s.dropWhile p = s := by
    cases s with
    | nil => rfl
    | cons c cs => rw [List.dropWhile_cons, hhead c rfl]; rfl
  have hback : s.reverse.dropWhile p = s.reverse := by
    have hlast : ∀ c ∈ s.reverse.head?, p c = false := by simpa using hlast
    cases hs : s.reverse with
    | nil => rfl
    | cons c cs => rw [List.dropWhile_cons, hlast c (by rw [hs]; rfl)]; rfl
  rw [stripBy, hfront, hback, List.reverse_reverse]

/-- What is stripped is at the two ends. -/
theorem stripBy_split (p : Nat → Bool) (s : PyStr) : ∃ a b, s = a ++ (stripBy p s ++ b) ∧
    (∀ c ∈ a, p c = true) ∧ (∀ c ∈ b, p c = true) ∧ s.dropWhile p = stripBy p s ++ b := by
  have hback : s.dropWhile p =
      stripBy p s ++ ((s.dropWhile p).reverse.takeWhile p).reverse := by
    rw [stripBy, ← List.reverse_append, List.takeWhile_append_dropWhile, List.reverse_reverse]
  refine ⟨s.takeWhile p, ((s.dropWhile p).reverse.takeWhile p).reverse, ?_,
    List.all_eq_true.1 List.all_takeWhile, ?_, hback⟩
  · rw [← hback, List.takeWhile_append_dropWhile]
  · intro c hc
    exact List.all_eq_true.1 List.all_takeWhile c (List.mem_reverse.1 hc)

/-- What stands at the ends of a stripped text. -/
theorem stripBy_ends (p : Nat → Bool) (s : PyStr) :
    (∀ c ∈ (stripBy p s).head?, p c = false) ∧ ∀ c ∈ (stripBy p s).getLast?, p c = false := by
  have hhead : ∀ (t : PyStr), ∀ c ∈ (t.dropWhile p).head?, p c = false := by
    intro t c hc
    have hnot := List.head?_dropWhile_not p t
    rw [hc] at hnot
    simpa using hnot
  constructor
  · intro c hc
    obtain ⟨-, b, -, -, -, hback⟩ := stripBy_split p s
    refine hhead s c ?_
    rw [hback, List.head?_append, hc]
    rfl
  · intro c hc
    rw [stripBy, List.getLast?_reverse] at hc
    exact hhead _ c hc

theorem stripBy_stripBy (p : Nat → Bool) (s : PyStr) : stripBy p (stripBy p s) = stripBy p s :=
  stripBy_of_ends (stripBy_ends p s).1 (stripBy_ends p s).2

theorem head?_joinWords {p : PyStr} (hp : p ≠ []) : (joinWords (p :: ps)).head? = p.head? := by
  cases p with
  | nil => exact absurd rfl hp
  | cons c cs => cases ps <;> rfl

theorem getLast?_joinWords (h : ∀ p ∈ ps, p ≠ []) :
    (joinWords ps).getLast? = ps.getLast?.bind List.getLast? := by
  induction ps with
  | nil => rfl
  | cons p ps ih =>
      cases ps with
      | nil => rfl
      | cons q qs =>
          have hq := h q (by simp)
          have hne : joinWords (q :: qs) ≠ [] := by
            intro hnil
            have hhead := @head?_joinWords qs _ hq
            rw [hnil] at hhead
            exact hq (List.head?_eq_none_iff.1 hhead.symm)
          have hrest := ih fun r hr => h r (by simp [hr])
          have hjoin : joinWords (p :: q :: qs) = p ++ 0x20 :: joinWords (q :: qs) := rfl
          rw [hjoin, List.getLast?_append, List.getLast?_cons, hrest]
          cases hlast : (joinWords (q :: qs)).getLast? with
          | none => exact absurd (List.getLast?_eq_none_iff.1 hlast) hne
          | some c =>
              rw [hlast] at hrest
              simp [← hrest]

/-- A phrase of words has no space at its ends. -/
theorem stripBy_joinWords (h : ∀ w ∈ ps, IsWord w) : stripBy isSpace (joinWords ps) = joinWords ps := by
  refine stripBy_of_ends (fun c hc => ?_) fun c hc => ?_
  · cases ps with
    | nil => cases hc
    | cons p ps =>
        have hp := h p (by simp)
        rw [head?_joinWords hp.1] at hc
        exact hp.2 c (List.mem_of_mem_head? hc)
  · rw [getLast?_joinWords fun w hw => (h w hw).1] at hc
    obtain ⟨w, hw, hc⟩ := Option.bind_eq_some_iff.1 hc
    exact (h w (List.mem_of_mem_getLast? hw)).2 c (List.mem_of_mem_getLast? hc)

/-- The words of a text. -/
def wordsOf (s : PyStr) : List PyStr := (splitOn 0x20 s).filter fun w => !w.isEmpty

/-- **The words of a phrase.** -/
theorem wordsOf_joinWords (h : ∀ w ∈ ps, IsWord w) : wordsOf (joinWords ps) = ps := by
  unfold wordsOf joinWords
  cases ps with
  | nil => rfl
  | cons p ps =>
      rw [splitOn_joinWith (fun w hw hsep => by cases (h w hw).2 _ hsep) (List.cons_ne_nil _ _)]
      refine List.filter_eq_self.2 fun w hw => ?_
      simpa using (h w hw).1

end phrases

/-! ## the words of a number -/

/-- The groups of words of a number below a thousand. -/
def groupParts (n : Nat) : List (List PyStr) :=
  (if n / 100 = 0 then [] else if n / 100 = 1 then [[py "yüz"]]
    else [[ones.getD (n / 100) [], py "yüz"]]) ++
  (if n % 100 / 10 = 0 then [] else [[tens.getD (n % 100 / 10) []]]) ++
  (if n % 100 % 10 = 0 then [] else [[ones.getD (n % 100 % 10) []]])

/-- The words of a number below a thousand. -/
def groupWords (n : Nat) : List PyStr := (groupParts n).flatten

/-- The words of one scale. -/
def scaleWords (count : Nat) (name : PyStr) : List PyStr :=
  if name = py "bin" ∧ count = 1 then [py "bin"] else groupWords count ++ [name]

/-- The words of a positive number, by scales. -/
def numberParts : List (Nat × PyStr) → Nat → List (List PyStr)
  | [], remainder => if 0 < remainder then [groupWords remainder] else []
  | (value, name) :: rest, remainder =>
      if value ≤ remainder then
        scaleWords (remainder / value) name :: numberParts rest (remainder % value)
      else numberParts rest remainder

/-- The words of an integer. -/
def cardinal : Int → List PyStr
  | .ofNat 0 => [py "sıfır"]
  | .ofNat (n + 1) => (numberParts scales (n + 1)).flatten
  | .negSucc n => py "eksi" :: (numberParts scales (n + 1)).flatten

/-- Scales a thousand apart, for numbers below `bound`. -/
def Scaled : List (Nat × PyStr) → Nat → Prop
  | [], bound => bound = 1000
  | (value, name) :: rest, bound =>
      bound = 1000 * value ∧ 0 < value ∧ name ∈ vocabulary ∧ Scaled rest value

theorem scaled_scales : Scaled scales (10 ^ 15) := by
  refine ⟨rfl, by decide, by decide, rfl, by decide, by decide, rfl, by decide, by decide, rfl,
    by decide, by decide, rfl⟩

section words

variable {n : Nat} {ss : List (Nat × PyStr)} {bound : Nat}

theorem mem_vocabulary_ones : ∀ d < 10, d ≠ 0 → ones.getD d [] ∈ vocabulary := by decide

theorem mem_vocabulary_tens : ∀ d < 10, d ≠ 0 → tens.getD d [] ∈ vocabulary := by decide

/-- The words of a group are number words. -/
theorem mem_groupWords (h : n < 1000) : ∀ w ∈ groupWords n, w ∈ vocabulary := by
  intro w hw
  simp only [groupWords, groupParts, List.flatten_append, List.mem_append] at hw
  obtain (hw | hw) | hw := hw
  · split at hw
    · cases hw
    · next hpos =>
        split at hw
        · rw [List.flatten_singleton, List.mem_singleton] at hw
          subst hw
          decide
        · simp only [List.flatten_singleton, List.mem_cons, List.not_mem_nil, or_false] at hw
          obtain rfl | rfl := hw
          · exact mem_vocabulary_ones _ (by omega) hpos
          · decide
  · split at hw
    · cases hw
    · next hpos =>
        rw [List.flatten_singleton, List.mem_singleton] at hw
        subst hw
        exact mem_vocabulary_tens _ (by omega) hpos
  · split at hw
    · cases hw
    · next hpos =>
        rw [List.flatten_singleton, List.mem_singleton] at hw
        subst hw
        exact mem_vocabulary_ones _ (by omega) hpos

theorem groupWords_ne_nil (h : 0 < n) : groupWords n ≠ [] := by
  intro hnil
  simp only [groupWords, groupParts, List.flatten_append, List.append_eq_nil_iff] at hnil
  obtain ⟨⟨hh, ht⟩, ho⟩ := hnil
  split at hh
  · split at ht
    · split at ho
      · omega
      · cases ho
    · cases ht
  · split at hh <;> cases hh

theorem belowThousand_eq (n : Nat) : belowThousand n = joinWords (groupWords n) := by
  unfold belowThousand
  split
  · next h =>
      subst h
      rfl
  · have hne : ∀ ps ∈ groupParts n, ps ≠ [] := by
      intro ps hps
      simp only [groupParts, List.mem_append] at hps
      obtain (hps | hps) | hps := hps
      · split at hps
        · cases hps
        · split at hps <;> (rw [List.mem_singleton] at hps; subst hps; simp)
      · split at hps
        · cases hps
        · rw [List.mem_singleton] at hps; subst hps; simp
      · split at hps
        · cases hps
        · rw [List.mem_singleton] at hps; subst hps; simp
    rw [groupWords, ← joinWords_map hne]
    refine congrArg joinWords ?_
    simp only [groupParts, List.map_append]
    congr 1
    · congr 1
      · split
        · rfl
        · split <;> rfl
      · split <;> rfl
    · split <;> rfl

theorem mem_scaleWords {name : PyStr} (hname : name ∈ vocabulary) (h : n < 1000) :
    ∀ w ∈ scaleWords n name, w ∈ vocabulary := by
  intro w hw
  unfold scaleWords at hw
  split at hw
  · rw [List.mem_singleton] at hw
    subst hw
    decide
  · obtain hw | hw := List.mem_append.1 hw
    · exact mem_groupWords h w hw
    · rw [List.mem_singleton] at hw
      exact hw ▸ hname

theorem scaleWords_ne_nil (name : PyStr) : scaleWords n name ≠ [] := by
  unfold scaleWords
  split <;> simp

theorem scalePart_eq {name : PyStr} (hname : name ∈ vocabulary) (hpos : 0 < n) (h : n < 1000) :
    scalePart n name = joinWords (scaleWords n name) := by
  have hwords := mem_scaleWords hname h
  unfold scalePart scaleWords at *
  split
  · rfl
  · next hbin =>
      rw [if_neg hbin] at hwords
      have hjoin : belowThousand n ++ 0x20 :: name = joinWords (groupWords n ++ [name]) := by
        rw [belowThousand_eq, joinWords_append (groupWords_ne_nil hpos) (List.cons_ne_nil _ _)]
        rfl
      rw [hjoin, stripBy_joinWords fun w hw => isWord_of_vocabulary w (hwords w hw)]

/-- The source's parts, as words. -/
theorem scaleParts_eq (hs : Scaled ss bound) (h : n < bound) :
    scaleParts ss n = (numberParts ss n).map joinWords ∧
      (∀ ps ∈ numberParts ss n, ps ≠ [] ∧ ∀ w ∈ ps, w ∈ vocabulary) := by
  induction ss generalizing n bound with
  | nil =>
      obtain rfl : bound = 1000 := hs
      rw [scaleParts, numberParts]
      split
      · next hpos =>
          refine ⟨by rw [List.map_singleton, belowThousand_eq], fun ps hps => ?_⟩
          rw [List.mem_singleton] at hps
          subst hps
          exact ⟨groupWords_ne_nil hpos, mem_groupWords h⟩
      · exact ⟨rfl, fun ps hps => by cases hps⟩
  | cons scale rest ih =>
      obtain ⟨value, name⟩ := scale
      obtain ⟨rfl, hpos, hname, hrest⟩ := hs
      rw [scaleParts, numberParts]
      split
      · next hle =>
          obtain ⟨hparts, hwords⟩ := ih hrest (Nat.mod_lt n hpos)
          have hcount : 0 < n / value := Nat.div_pos hle hpos
          have hlt : n / value < 1000 := Nat.div_lt_of_lt_mul (by rwa [Nat.mul_comm] at h)
          refine ⟨by rw [List.map_cons, scalePart_eq hname hcount hlt, hparts], fun ps hps => ?_⟩
          obtain rfl | hps := List.mem_cons.1 hps
          · exact ⟨scaleWords_ne_nil name, mem_scaleWords hname hlt⟩
          · exact hwords ps hps
      · next hlt => exact ih hrest (not_le.1 hlt)

theorem numberParts_ne_nil (ss : List (Nat × PyStr)) (h : 0 < n) : numberParts ss n ≠ [] := by
  induction ss with
  | nil => rw [numberParts, if_pos h]; exact List.cons_ne_nil _ _
  | cons scale rest ih =>
      obtain ⟨value, name⟩ := scale
      rw [numberParts]
      split
      · exact List.cons_ne_nil _ _
      · exact ih

/-- **The words of an integer**, in one line. -/
theorem numberToTurkish_eq {n : Int} (h : n.natAbs < 10 ^ 15) :
    numberToTurkish n = .ok (joinWords (cardinal n)) ∧ cardinal n ≠ [] ∧
      ∀ w ∈ cardinal n, w ∈ vocabulary := by
  have hpositive : ∀ m, m + 1 < 10 ^ 15 →
      positiveToTurkish (m + 1) = .ok (joinWords (numberParts scales (m + 1)).flatten) ∧
        (numberParts scales (m + 1)).flatten ≠ [] ∧
        ∀ w ∈ (numberParts scales (m + 1)).flatten, w ∈ vocabulary := by
    intro m hm
    obtain ⟨hparts, hwords⟩ := scaleParts_eq scaled_scales hm
    refine ⟨?_, ?_, fun w hw => ?_⟩
    · unfold positiveToTurkish
      have hfull : ∀ p ∈ scaleParts scales (m + 1), (!p.isEmpty) = true := by
        intro p hp
        rw [hparts] at hp
        obtain ⟨ps, hps, rfl⟩ := List.mem_map.1 hp
        obtain ⟨hne, hvoc⟩ := hwords ps hps
        cases ps with
        | nil => exact absurd rfl hne
        | cons w ws =>
            have hw := isWord_of_vocabulary w (hvoc w (by simp))
            have hhead := @head?_joinWords ws _ hw.1
            cases hj : joinWords (w :: ws) with
            | nil =>
                rw [hj] at hhead
                exact absurd (List.head?_eq_none_iff.1 hhead.symm) hw.1
            | cons c cs => rfl
      rw [if_neg (by omega), List.filter_eq_self.2 hfull, hparts,
        joinWords_map fun ps hps => (hwords ps hps).1]
    · obtain ⟨ps, hps⟩ := List.exists_mem_of_ne_nil _ (numberParts_ne_nil scales (Nat.succ_pos m))
      exact List.flatten_ne_nil_iff.2 ⟨ps, hps, (hwords ps hps).1⟩
    · obtain ⟨ps, hps, hw⟩ := List.mem_flatten.1 hw
      exact (hwords ps hps).2 w hw
  cases n with
  | ofNat n =>
      cases n with
      | zero => exact ⟨rfl, List.cons_ne_nil _ _, by decide⟩
      | succ m =>
          exact hpositive m h
  | negSucc m =>
      obtain ⟨heq, hne, hvoc⟩ := hpositive m h
      refine ⟨?_, List.cons_ne_nil _ _, fun w hw => ?_⟩
      · change (do return py "eksi " ++ (← positiveToTurkish (m + 1)) : Except Foreign PyStr) = _
        rw [heq]
        refine congrArg Except.ok ?_
        exact (@joinWords_append [py "eksi"] _ (List.cons_ne_nil _ _) hne).symm
      · obtain rfl | hw := List.mem_cons.1 hw
        · decide
        · exact hvoc w hw

end words

/-! ## a reader -/

/-- What a word adds to the group it is in. -/
def unitValue (w : PyStr) : Option Nat :=
  if w.isEmpty then none else (ones.idxOf? w).or ((tens.idxOf? w).map (10 * ·))

/-- Nothing before a multiplier means one. -/
def orOne (n : Nat) : Nat := if n = 0 then 1 else n

/-- A reader has the sum of the scales so far and the group it is in. -/
def readWord (st : Nat × Nat) (w : PyStr) : Option (Nat × Nat) :=
  match unitValue w with
  | some v => some (st.1, st.2 + v)
  | none =>
      if w = py "yüz" then some (st.1, orOne st.2 * 100)
      else (scales.find? fun s => s.2 = w).map fun s => (st.1 + orOne st.2 * s.1, 0)

/-- A reader of cardinal words. -/
def readCardinal (ws : List PyStr) : Option Nat :=
  if ws = [py "sıfır"] then some 0
  else if ws.isEmpty then none
  else (ws.foldlM readWord (0, 0)).map fun st => st.1 + st.2

/-- A reader of signed words. -/
def readSigned : List PyStr → Option Int
  | [] => none
  | w :: ws =>
      if w = py "eksi" then (readCardinal ws).map fun n => -(n : Int)
      else (readCardinal (w :: ws)).map Int.ofNat

/-- A reader of Turkish integers. -/
def readNumber (s : PyStr) : Option Int := readSigned (wordsOf s)

section reader

variable {n g t : Nat}

theorem unitValue_ones : ∀ d < 10, d ≠ 0 → unitValue (ones.getD d []) = some d := by decide

theorem unitValue_tens : ∀ d < 10, d ≠ 0 → unitValue (tens.getD d []) = some (10 * d) := by decide

theorem readWord_unit {w : PyStr} {v : Nat} (h : unitValue w = some v) :
    readWord (t, g) w = some (t, g + v) := by
  simp only [readWord, h]

theorem readWord_hundred : readWord (t, g) (py "yüz") = some (t, orOne g * 100) := by
  have h : unitValue (py "yüz") = none := by decide
  simp only [readWord, h, if_true]

/-- The words of a group are read as the group. -/
theorem foldlM_groupWords (h : n < 1000) :
    (groupWords n).foldlM readWord (t, 0) = some (t, n) := by
  have hhundreds : (if n / 100 = 0 then [] else if n / 100 = 1 then [[py "yüz"]]
      else [[ones.getD (n / 100) [], py "yüz"]]).flatten.foldlM readWord (t, 0) =
      some (t, n / 100 * 100) := by
    split
    · next hz => rw [hz]; rfl
    · next hz =>
        split
        · next hone =>
            rw [List.flatten_singleton, List.foldlM_cons, readWord_hundred, hone]
            rfl
        · rw [List.flatten_singleton, List.foldlM_cons,
            readWord_unit (unitValue_ones _ (by omega) hz)]
          change (List.foldlM readWord (t, 0 + n / 100) [py "yüz"]) = _
          rw [List.foldlM_cons, readWord_hundred, Nat.zero_add, orOne, if_neg hz]
          rfl
  have htens : ∀ g, (if n % 100 / 10 = 0 then [] else
      [[tens.getD (n % 100 / 10) []]]).flatten.foldlM readWord (t, g) =
      some (t, g + 10 * (n % 100 / 10)) := by
    intro g
    split
    · next hz => rw [hz]; rfl
    · next hz =>
        rw [List.flatten_singleton, List.foldlM_cons,
          readWord_unit (unitValue_tens _ (by omega) hz)]
        rfl
  have hones : ∀ g, (if n % 100 % 10 = 0 then [] else
      [[ones.getD (n % 100 % 10) []]]).flatten.foldlM readWord (t, g) =
      some (t, g + n % 100 % 10) := by
    intro g
    split
    · next hz => rw [hz]; rfl
    · next hz =>
        rw [List.flatten_singleton, List.foldlM_cons,
          readWord_unit (unitValue_ones _ (by omega) hz)]
        rfl
  rw [groupWords, groupParts, List.flatten_append, List.flatten_append, List.foldlM_append,
    List.foldlM_append, hhundreds]
  simp only [Option.bind_eq_bind, Option.bind_some]
  rw [htens]
  simp only [Option.bind_some]
  rw [hones]
  congr 2
  omega

theorem readWord_scale {value : Nat} {name : PyStr} (h : (value, name) ∈ scales) :
    readWord (t, g) name = some (t + orOne g * value, 0) := by
  have hname : ∀ s ∈ scales, unitValue s.2 = none ∧ s.2 ≠ py "yüz" ∧
      (scales.find? fun t => t.2 = s.2) = some s := by decide
  obtain ⟨hunit, hne, hfind⟩ := hname _ h
  simp only [readWord, hunit, if_neg hne, hfind, Option.map_some]

/-- The words of a scale are read as so many of it. -/
theorem foldlM_scaleWords {value : Nat} {name : PyStr} (h : (value, name) ∈ scales) (hpos : 0 < n)
    (hlt : n < 1000) :
    (scaleWords n name).foldlM readWord (t, 0) = some (t + n * value, 0) := by
  unfold scaleWords
  split
  · next hbin =>
      rw [hbin.1] at h
      rw [List.foldlM_cons, readWord_scale h, hbin.2]
      rfl
  · rw [List.foldlM_append, foldlM_groupWords hlt]
    simp only [Option.bind_eq_bind, Option.bind_some]
    rw [List.foldlM_cons, readWord_scale h, orOne, if_neg (by omega)]
    rfl

/-- The words of a number are read as the number. -/
theorem foldlM_numberParts {ss : List (Nat × PyStr)} {bound : Nat} (hs : Scaled ss bound)
    (hsub : ∀ s ∈ ss, s ∈ scales) (h : n < bound) :
    ∃ st, (numberParts ss n).flatten.foldlM readWord (t, 0) = some st ∧
      st.1 + st.2 = t + n := by
  induction ss generalizing n bound t with
  | nil =>
      obtain rfl : bound = 1000 := hs
      rw [numberParts]
      split
      · rw [List.flatten_singleton, foldlM_groupWords h]
        exact ⟨_, rfl, rfl⟩
      · exact ⟨_, rfl, by omega⟩
  | cons scale rest ih =>
      obtain ⟨value, name⟩ := scale
      obtain ⟨rfl, hpos, -, hrest⟩ := hs
      have hsub' : ∀ s ∈ rest, s ∈ scales := fun s hs => hsub s (by simp [hs])
      have hmem : (value, name) ∈ scales := hsub _ List.mem_cons_self
      rw [numberParts]
      split
      · next hle =>
          have hcount : 0 < n / value := Nat.div_pos hle hpos
          have hlt : n / value < 1000 := Nat.div_lt_of_lt_mul (by rwa [Nat.mul_comm] at h)
          obtain ⟨st, hread, hsum⟩ :=
            ih (t := t + n / value * value) hrest hsub' (Nat.mod_lt n hpos)
          refine ⟨st, ?_, ?_⟩
          · rw [List.flatten_cons, List.foldlM_append,
              foldlM_scaleWords hmem hcount hlt]
            exact hread
          · have hdiv := Nat.div_add_mod' n value
            omega
      · next hlt => exact ih hrest hsub' (not_le.1 hlt)

/-- A positive number's words are read as the number, and do not start with
another word. -/
theorem readCardinal_numberParts (hpos : 0 < n) (h : n < 10 ^ 15) :
    readCardinal (numberParts scales n).flatten = some n ∧
      (numberParts scales n).flatten.head? ≠ some (py "eksi") := by
  obtain ⟨st, hread, hsum⟩ := foldlM_numberParts (t := 0) scaled_scales (fun s hs => hs) h
  have hfail : ∀ w ws, (∀ st, readWord st w = none) → (numberParts scales n).flatten ≠ w :: ws := by
    intro w ws hw heq
    rw [heq, List.foldlM_cons, hw] at hread
    cases hread
  have hzero : ∀ st, readWord st (py "sıfır") = none := fun st => rfl
  have hminus : ∀ st, readWord st (py "eksi") = none := fun st => rfl
  refine ⟨?_, fun hhead => ?_⟩
  · unfold readCardinal
    rw [if_neg (hfail _ _ hzero)]
    split
    · next hnil =>
        rw [List.isEmpty_iff.1 hnil] at hread
        cases hread
        omega
    · rw [hread, Option.map_some, hsum, Nat.zero_add]
  · obtain ⟨ws, hws⟩ := List.head?_eq_some_iff.1 hhead
    exact hfail _ ws hminus hws

/-- **A reader gets the number back.** -/
theorem readNumber_numberToTurkish {n : Int} (h : n.natAbs < 10 ^ 15) :
    ∃ s, numberToTurkish n = .ok s ∧ readNumber s = some n := by
  obtain ⟨heq, -, hvoc⟩ := numberToTurkish_eq h
  refine ⟨_, heq, ?_⟩
  rw [readNumber, wordsOf_joinWords fun w hw => isWord_of_vocabulary w (hvoc w hw)]
  cases n with
  | ofNat n =>
      cases n with
      | zero => rfl
      | succ m =>
          obtain ⟨hread, hhead⟩ := readCardinal_numberParts (Nat.succ_pos m) h
          have hcardinal : cardinal (Int.ofNat (m + 1)) = (numberParts scales (m + 1)).flatten := rfl
          rw [hcardinal]
          cases hws : (numberParts scales (m + 1)).flatten with
          | nil => rw [hws] at hread; cases hread
          | cons w ws =>
              rw [hws] at hread hhead
              have hne : w ≠ py "eksi" := fun heq => hhead (congrArg some heq)
              rw [readSigned, if_neg hne, hread]
              rfl
  | negSucc m =>
      obtain ⟨hread, -⟩ := readCardinal_numberParts (Nat.succ_pos m) h
      rw [cardinal, readSigned, if_pos rfl, hread]
      rfl

end reader

end NeuroVoice
