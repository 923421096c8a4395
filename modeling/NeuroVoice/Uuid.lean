import NeuroVoice.Py
import Mathlib.Tactic.Ring

/-!
# NeuroVoice.Uuid

`uuid.UUID(str(u)) == u`: what the gateway writes into a job is what the
worker reads out of it.
-/

namespace NeuroVoice

/-- The digits `hexDigits` writes, and no other code points. -/
def isHexChar (c : Nat) : Bool := (0x30 ≤ c && c ≤ 0x39) || (0x61 ≤ c && c ≤ 0x66)

theorem isHexChar_hexChar (d : Nat) (h : d < 16) : isHexChar (hexChar d) = true := by
  revert d
  decide

theorem hexDigit_hexChar (d : Nat) (h : d < 16) : hexDigit (hexChar d) = some d := by
  revert d
  decide

theorem length_hexDigits (n u : Nat) : (hexDigits n u).length = n := by
  induction n generalizing u with
  | zero => rfl
  | succ n ih => simp [hexDigits, ih]

theorem all_hexDigits (n u : Nat) : (hexDigits n u).all isHexChar = true := by
  induction n generalizing u with
  | zero => rfl
  | succ n ih => simp [hexDigits, ih, isHexChar_hexChar _ (Nat.mod_lt u (by decide))]

/-- Reading back what was written. -/
theorem digitsVal_hexDigits (n u acc : Nat) (ok : Bool) (rest : PyStr) :
    digitsVal 16 hexDigit (hexDigits n u ++ rest) acc ok =
      digitsVal 16 hexDigit rest (acc * 16 ^ n + u % 16 ^ n) (ok || 0 < n) := by
  induction n generalizing u ok acc rest with
  | zero => simp [hexDigits, Nat.mod_one]
  | succ n ih =>
      have hd := hexDigit_hexChar (u % 16) (Nat.mod_lt u (by decide))
      have h5 : hexChar (u % 16) ≠ 0x5F := by
        have hc := isHexChar_hexChar (u % 16) (Nat.mod_lt u (by decide))
        intro h
        rw [h] at hc
        cases hc
      rw [hexDigits, List.append_assoc, ih, List.singleton_append, digitsVal, if_neg h5, hd]
      have hm : u % 16 ^ (n + 1) = u % 16 + 16 * (u / 16 % 16 ^ n) := by
        rw [pow_succ, Nat.mul_comm, Nat.mod_mul]
      simp only [hm, Nat.zero_lt_succ, decide_true, Bool.or_true]
      congr 1
      ring

/-- Nothing of a text without the pattern's first code point is removed. -/
theorem removeAll_of_head {c : Nat} {pat s : PyStr} (h : ∀ x ∈ s, x ≠ c) :
    removeAll (c :: pat) 0 s = s := by
  induction s with
  | nil => rfl
  | cons x s ih =>
      have hx : ¬(c :: pat).isPrefixOf (x :: s) = true := by
        simp [List.isPrefixOf, Ne.symm (h x (by simp))]
      rw [removeAll, if_neg hx, ih fun y hy => h y (by simp [hy])]

theorem removeAll_append {c : Nat} (s t : PyStr) :
    removeAll [c] 0 (s ++ t) = removeAll [c] 0 s ++ removeAll [c] 0 t := by
  induction s with
  | nil => rfl
  | cons x s ih =>
      by_cases hx : c = x
      · subst hx
        simpa [removeAll, List.isPrefixOf] using ih
      · simp [removeAll, List.isPrefixOf, hx, ih]

theorem stripBy_of_all {p : Nat → Bool} {s : PyStr} (h : ∀ x ∈ s, p x = false) :
    stripBy p s = s := by
  have hd : ∀ t : PyStr, (∀ x ∈ t, p x = false) → t.dropWhile p = t := by
    intro t ht
    cases t with
    | nil => rfl
    | cons x t => simp [List.dropWhile, ht x (by simp)]
  rw [stripBy, hd s h, hd s.reverse (by simpa using h), List.reverse_reverse]

/-- A part of the digits. -/
theorem isHexChar_of_mem {u n m c : Nat} (h : c ∈ ((hexDigits 32 u).drop n).take m) :
    isHexChar c = true :=
  List.all_eq_true.1 (all_hexDigits 32 u) c (List.mem_of_mem_drop (List.mem_of_mem_take h))

/-- The groups of a canonical UUID. -/
theorem uuidStr_eq (u : Uuid) :
    let h := hexDigits 32 u.toNat
    uuidStr u = (h.drop 0).take 8 ++ [0x2D] ++ (h.drop 8).take 4 ++ [0x2D] ++
      (h.drop 12).take 4 ++ [0x2D] ++ (h.drop 16).take 4 ++ [0x2D] ++ (h.drop 20).take 12 := by
  have hl : (hexDigits 32 u.toNat).length = 32 := length_hexDigits 32 _
  have h20 : ((hexDigits 32 u.toNat).drop 20).take 12 = (hexDigits 32 u.toNat).drop 20 :=
    List.take_of_length_le (by simp [hl])
  simp only [h20, List.drop_zero]
  rfl

/-- The code points of a canonical UUID. -/
theorem mem_uuidStr {u : Uuid} {c : Nat} (h : c ∈ uuidStr u) :
    isHexChar c = true ∨ c = 0x2D := by
  rw [uuidStr_eq] at h
  simp only [List.mem_append, List.mem_singleton] at h
  rcases h with (((((((h | h) | h) | h) | h) | h) | h) | h) | h
  all_goals first | exact .inr h | exact .inl (isHexChar_of_mem h)

theorem removeAll_hyphens (u : Uuid) : removeAll [0x2D] 0 (uuidStr u) = hexDigits 32 u.toNat := by
  have hpart : ∀ n m, removeAll [0x2D] 0 (((hexDigits 32 u.toNat).drop n).take m) =
      ((hexDigits 32 u.toNat).drop n).take m := fun n m =>
    removeAll_of_head fun c hc hx => by
      have h := isHexChar_of_mem hc
      rw [hx] at h
      cases h
  have hhyphen : removeAll [0x2D] 0 [0x2D] = [] := rfl
  have hl : (hexDigits 32 u.toNat).length = 32 := length_hexDigits 32 _
  rw [uuidStr_eq]
  simp only [removeAll_append, hpart, hhyphen, List.append_nil]
  generalize hexDigits 32 u.toNat = h at hl
  have hsplit : ∀ n m, (h.drop n).take m ++ h.drop (n + m) = h.drop n := fun n m => by
    rw [← List.drop_drop]
    exact List.take_append_drop m (h.drop n)
  have h20 : (h.drop 20).take 12 = h.drop 20 := List.take_of_length_le (by simp [hl])
  simp only [List.append_assoc]
  rw [h20, hsplit 16 4, hsplit 12 4, hsplit 8 4, hsplit 0 8, List.drop_zero]

theorem asciiDigit_of_hex {c : Nat} (h : isHexChar c = true) : asciiDigit c = c := by
  have hall : ∀ d < 128, isHexChar d = true → asciiDigit d = d := by decide
  refine hall c ?_ h
  simp only [isHexChar, Bool.or_eq_true, Bool.and_eq_true, decide_eq_true_eq] at h
  omega

/-- `int(…, 16)` of the digits. -/
theorem hexOfStr_hexDigits {u : Nat} (hu : u < 2 ^ 128) :
    hexOfStr (hexDigits 32 u) = some u := by
  have hval : digitsVal 16 hexDigit (hexDigits 32 u) 0 false = some u := by
    have h := digitsVal_hexDigits 32 u 0 false []
    rw [List.append_nil] at h
    rw [h, Nat.mod_eq_of_lt (by simpa using hu)]
    simp [digitsVal]
  have hl := length_hexDigits 32 u
  have hall := List.all_eq_true.1 (all_hexDigits 32 u)
  generalize hexDigits 32 u = h at hval hl hall
  obtain _ | ⟨c, _ | ⟨d, cs⟩⟩ := h
  · cases hl
  · cases hl
  have hc := hall c (by simp)
  have hd := hall d (by simp)
  have hspace : stripBy isSpace (c :: d :: cs) = c :: d :: cs := by
    refine stripBy_of_all fun x hx => ?_
    have hx := hall x hx
    simp only [isHexChar, Bool.or_eq_true, Bool.and_eq_true, decide_eq_true_eq] at hx
    simp only [isSpace, Bool.or_eq_false_iff, Bool.and_eq_false_iff, decide_eq_false_iff_not,
      beq_eq_false_iff_ne]
    omega
  have hascii : (c :: d :: cs).map asciiDigit = c :: d :: cs :=
    (List.map_congr_left fun x hx => asciiDigit_of_hex (hall x hx)).trans (List.map_id _)
  have hplus : c ≠ 0x2B := by rintro rfl; cases hc
  have hx : d ≠ 0x78 := by rintro rfl; cases hd
  have hX : d ≠ 0x58 := by rintro rfl; cases hd
  simp only [hexOfStr, hspace, hascii]
  split
  · next ds h => grind
  · next ds h => grind
  · next ds h₁ h₂ => grind

/-- **Round trip** of a UUID. -/
@[simp] theorem parseUuid_uuidStr (u : Uuid) : parseUuid (uuidStr u) = some u := by
  have hne : ∀ c, isHexChar c = false → c ≠ 0x2D → ∀ x ∈ uuidStr u, x ≠ c := by
    rintro c hc hh x hx rfl
    rcases mem_uuidStr hx with h | h
    · simp [hc] at h
    · exact hh h
  have hurn : removeAll (py "urn:") 0 (uuidStr u) = uuidStr u :=
    removeAll_of_head (hne _ (by decide) (by decide))
  have huuid : removeAll (py "uuid:") 0 (uuidStr u) = uuidStr u :=
    removeAll_of_head (hne _ (by decide) (by decide))
  have hstrip : stripBy (fun c => c == 0x7B || c == 0x7D) (uuidStr u) = uuidStr u := by
    refine stripBy_of_all fun x hx => ?_
    have h1 := hne 0x7B (by decide) (by decide) x hx
    have h2 := hne 0x7D (by decide) (by decide) x hx
    simp [h1, h2]
  rw [parseUuid, hurn, huuid, hstrip, show py "-" = [0x2D] from rfl, removeAll_hyphens,
    if_pos (length_hexDigits 32 _), hexOfStr_hexDigits u.isLt]
  simp

/-- Different UUIDs are spelled differently. -/
theorem uuidStr_inj {u v : Uuid} (h : uuidStr u = uuidStr v) : u = v := by
  have hu := parseUuid_uuidStr u
  rw [h, parseUuid_uuidStr] at hu
  exact (Option.some.inj hu).symm

end NeuroVoice
