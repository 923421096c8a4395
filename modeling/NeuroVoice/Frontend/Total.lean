import NeuroVoice.Frontend.Spoken

/-!
# NeuroVoice.Frontend.Total

When `normalize_text` returns.

Times and short integers are always said.  The grouped and the decimal pass hand
on what they match without a look at its size, so the pipeline raises exactly
when one of them finds a number that cannot be said (`normalizeText_total`).
-/

namespace NeuroVoice

open Regex

/-- The digits of a grouped number before its comma. -/
def groupedDigits (m : PyStr) : PyStr :=
  if 0x2C ∈ m then integerDigits m else m.filter isDigit

section conditions

variable (U : Unicode)

/-- The text that the number passes get. -/
def spelled (text : PyStr) : PyStr := expandCodeMix U (expandAbbreviations U (cleanText U text))

/-- Its times said. -/
def timed (text : PyStr) : PyStr := (timeRe U).sub (orKeep expandTime) text

/-- Its grouped numbers said. -/
def degrouped (text : PyStr) : PyStr :=
  (thousandGroupedRe U).sub (orKeep expandThousandGrouped) text

/-- Every grouped number, and every decimal among what is left, can be said. -/
def NumbersSayable (text : PyStr) : Prop :=
  (∀ m ∈ found (thousandGroupedRe U) (timed U text), Sayable (groupedDigits m)) ∧
    ∀ m ∈ found (decimalRe U) (degrouped U (timed U text)), Sayable (integerDigits m)

instance (text : PyStr) : Decidable (NumbersSayable U text) :=
  inferInstanceAs (Decidable (_ ∧ _))

end conditions

section total

variable {U : Unicode} {prev : Option Nat} {m rest t : PyStr}

theorem solid_timeRe (U : Unicode) : (timeRe U).Solid := solid_of_least (Nat.zero_lt_succ 3)

theorem solid_thousandGroupedRe (U : Unicode) : (thousandGroupedRe U).Solid :=
  solid_of_least (Nat.zero_lt_succ 4)

theorem solid_decimalRe (U : Unicode) : (decimalRe U).Solid := solid_of_least (Nat.zero_lt_succ 2)

theorem solid_integerRe (U : Unicode) : (integerRe U).Solid := solid_of_least (Nat.zero_lt_succ 0)

/-- Digits are said exactly when they can be. -/
theorem sayDigits_map_ok {ds : PyStr} {f : PyStr → PyStr} (hds : IsDigits ds) :
    (∃ w, (sayDigits ds).map f = .ok w) ↔ Sayable ds := by
  by_cases h : Sayable ds
  · rw [sayDigits_of_sayable hds h]
    exact iff_of_true ⟨_, rfl⟩ h
  · obtain ⟨e, he⟩ := sayDigits_error hds h
    rw [he]
    refine iff_of_false ?_ h
    rintro ⟨w, hw⟩
    cases hw

theorem expandTime_ok (hm : (timeRe U).Matches prev m rest) : ∃ w, expandTime m = .ok w := by
  obtain ⟨-, -, hh, mm, rfl, hhh, hhour, hmm, hminute⟩ := matches_timeRe hm
  exact ⟨_, expandTime_eq hhh hhour hmm hminute⟩

theorem expandInteger_ok (hm : (integerRe U).Matches prev m rest) : ∃ w, expandInteger m = .ok w := by
  obtain ⟨-, -, negative, ds, rfl, hds, hlen⟩ := matches_integerRe.1 hm
  rw [expandInteger_eq hds, sayDigits_map_ok hds]
  exact sayable_of_length hlen

theorem expandDecimal_ok (hm : (decimalRe U).Matches prev m rest) :
    (∃ w, expandDecimal m = .ok w) ↔ Sayable (integerDigits m) := by
  obtain ⟨-, -, negative, ds, sep, fs, rfl, hds, hfs, hsep⟩ := matches_decimalRe.1 hm
  have hpoint : isDigit sep = false := by
    obtain rfl | rfl := hsep <;> decide
  obtain ⟨-, hint, -⟩ := @written_eq _ (minus negative ++ ds) _ hfs.2 hpoint
  rw [filter_minus, filter_digits hds.2, List.append_assoc] at hint
  rw [hint, expandDecimal, decimalToTurkish_eq hds hfs hsep, sayDigits_map_ok hds]

theorem expandThousandGrouped_ok (hm : (thousandGroupedRe U).Matches prev m rest) :
    (∃ w, expandThousandGrouped m = .ok w) ↔ Sayable (groupedDigits m) := by
  obtain ⟨-, -, negative, ds, gs, frac, rfl, hds, -, -, hgs, hfrac⟩ :=
    matches_thousandGroupedRe.1 hm
  cases frac with
  | none =>
      have hcomma : 0x2C ∉ minus negative ++ (ds ++ (dotted gs ++ tail none)) := by
        intro hc
        rw [tail, List.append_nil] at hc
        obtain hc | hc := List.mem_append.1 hc
        · cases mem_minus hc
        · exact ne_comma_of_dotted hds hgs _ hc rfl
      rw [groupedDigits, if_neg hcomma, expandThousandGrouped_integer hds hgs,
        sayDigits_map_ok (isDigits_ungrouped hds hgs), filter_minus, tail, List.append_nil,
        List.filter_append, filter_digits hds.2, filter_dotted hgs]
      rfl
  | some fs =>
      have hfs := hfrac fs rfl
      have hcomma : 0x2C ∈ minus negative ++ (ds ++ (dotted gs ++ tail (some fs))) := by simp [tail]
      have hbody : minus negative ++ (ds ++ (dotted gs ++ tail (some fs))) =
          (minus negative ++ (ds ++ dotted gs)) ++ 0x2C :: fs := by simp [tail]
      obtain ⟨-, hint, -⟩ := @written_eq _ (minus negative ++ (ds ++ dotted gs)) _ hfs.2
        (by decide : isDigit 0x2C = false)
      rw [filter_minus, List.filter_append, filter_digits hds.2, filter_dotted hgs, ← hbody] at hint
      rw [groupedDigits, if_pos hcomma, expandThousandGrouped_fraction hds hgs hfs,
        sayDigits_map_ok (isDigits_ungrouped hds hgs), hint]
      rfl

/-- When the number passes return. -/
theorem expandNumbers_ok : (∃ u, expandNumbers U t = .ok u) ↔ NumbersSayable U t := by
  obtain ⟨t₁, htime⟩ := trySub_ok_iff.2 fun m (hm : m ∈ found (timeRe U) t) => by
    obtain ⟨prev, rest, hm⟩ := matches_of_found (solid_timeRe U) hm
    exact expandTime_ok hm
  have ht₁ : t₁ = timed U t := sub_of_trySub htime
  have hgrouped : (∃ t₂, (thousandGroupedRe U).trySub expandThousandGrouped t₁ = .ok t₂) ↔
      ∀ m ∈ found (thousandGroupedRe U) (timed U t), Sayable (groupedDigits m) := by
    rw [trySub_ok_iff, ht₁]
    refine forall₂_congr fun m hm => ?_
    obtain ⟨prev, rest, hm⟩ := matches_of_found (solid_thousandGroupedRe U) hm
    exact expandThousandGrouped_ok hm
  have hdecimal : ∀ t₂, (∃ t₃, (decimalRe U).trySub expandDecimal t₂ = .ok t₃) ↔
      ∀ m ∈ found (decimalRe U) t₂, Sayable (integerDigits m) := by
    intro t₂
    rw [trySub_ok_iff]
    refine forall₂_congr fun m hm => ?_
    obtain ⟨prev, rest, hm⟩ := matches_of_found (solid_decimalRe U) hm
    exact expandDecimal_ok hm
  have hinteger : ∀ t₃, ∃ u, (integerRe U).trySub expandInteger t₃ = .ok u := by
    intro t₃
    rw [trySub_ok_iff]
    intro m hm
    obtain ⟨prev, rest, hm⟩ := matches_of_found (solid_integerRe U) hm
    exact expandInteger_ok hm
  rw [NumbersSayable, ← hgrouped, expandNumbers, htime]
  change (∃ u, (do
    let text ← (thousandGroupedRe U).trySub expandThousandGrouped t₁
    let text ← (decimalRe U).trySub expandDecimal text
    (integerRe U).trySub expandInteger text) = .ok u) ↔ _
  cases hthousand : (thousandGroupedRe U).trySub expandThousandGrouped t₁ with
  | error e =>
      refine iff_of_false ?_ ?_
      · rintro ⟨u, h⟩
        cases h
      · rintro ⟨⟨t₂, h⟩, -⟩
        cases h
  | ok t₂ =>
      have ht₂ : t₂ = degrouped U (timed U t) := by
        rw [← ht₁]
        exact sub_of_trySub hthousand
      rw [← ht₂, ← hdecimal]
      change (∃ u, (do
        let text ← (decimalRe U).trySub expandDecimal t₂
        (integerRe U).trySub expandInteger text) = .ok u) ↔ _
      cases (decimalRe U).trySub expandDecimal t₂ with
      | error e =>
          refine iff_of_false ?_ ?_
          · rintro ⟨u, h⟩
            cases h
          · rintro ⟨-, t₃, h⟩
            cases h
      | ok t₃ => exact iff_of_true (hinteger t₃) ⟨⟨_, rfl⟩, _, rfl⟩

/-- `normalize_text` without a dictionary. -/
theorem normalizeText_eq (h : t ≠ []) :
    normalizeText U [] t = (expandNumbers U (spelled U t)).map finishText := by
  have hempty : t.isEmpty = false := by
    cases t with
    | nil => exact absurd rfl h
    | cons c cs => rfl
  have huser : ∀ s, expandUserPronunciation U [] s = .ok s := fun s => rfl
  have hspelled : spelled U t = expandCodeMix U (expandAbbreviations U (cleanText U t)) := rfl
  have hbind : ∀ (s : PyStr) (f : PyStr → Except Foreign PyStr), (Except.ok s >>= f) = f s :=
    fun s f => rfl
  rw [normalizeText, hempty]
  simp only [Bool.false_eq_true, if_false, huser]
  rw [hbind, ← hspelled]
  generalize expandNumbers U (spelled U t) = numbers
  cases numbers <;> rfl

end total

/-- **When normalization returns**: exactly when every grouped number and every
decimal that is found can be said. -/
theorem normalizeText_total (U : Unicode) (text : PyStr) :
    (∃ u, normalizeText U [] text = .ok u) ↔ text = [] ∨ NumbersSayable U (spelled U text) := by
  by_cases h : text = []
  · subst h
    exact iff_of_true ⟨[], rfl⟩ (.inl rfl)
  · rw [normalizeText_eq h, ← expandNumbers_ok, or_iff_right h]
    cases expandNumbers U (spelled U text) with
    | error e =>
        refine iff_of_false ?_ ?_
        · rintro ⟨u, hu⟩
          cases hu
        · rintro ⟨u, hu⟩
          cases hu
    | ok u => exact iff_of_true ⟨_, rfl⟩ ⟨_, rfl⟩

/-- Six groups are too many: the text of a request is refused in the middle. -/
theorem quadrillion_raises :
    ¬∃ u, normalizeText Unicode.turkish [] (py "1.000.000.000.000.000") = .ok u := by
  rw [normalizeText_total]
  decide +kernel

end NeuroVoice
