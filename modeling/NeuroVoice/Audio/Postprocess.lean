import NeuroVoice.Audio.Samples
import Mathlib.Analysis.SpecialFunctions.Pow.Real
import Mathlib.Data.Rat.Floor

/-!
# NeuroVoice.Audio.Postprocess

`audio/postprocess.py`: what the worker does to a chunk before it publishes it.

Arithmetic of floats is exact here.  The passes work on bytes, and each is a
pass on samples behind `np.frombuffer`.  The limiter measures the peak with
`np.abs`, so a full-scale negative sample is no peak to it; unless another
sample is, it stays: `peak_ceiling_iff`.
-/

namespace NeuroVoice.Audio

/-! ## arithmetic -/

/-- `astype(np.int16)` of a float in range: the fraction is dropped. -/
def trunc (q : Rat) : Int := if 0 ≤ q then ⌊q⌋ else ⌈q⌉

/-- `np.clip`. -/
def clip {α : Type} [LinearOrder α] (x low high : α) : α := max low (min x high)

/-! ## DC offset -/

/-- `arr.mean()`. -/
def mean (xs : List Int16) : Rat := ((xs.map Int16.toInt).sum : Rat) / xs.length

/-- A sample less the offset. -/
def centre (offset : Rat) (s : Int16) : Int16 :=
  Int16.ofInt (trunc (clip ((s.toInt : Rat) - offset) (-32768) 32767))

/-- The samples without their offset, if it is worth it. -/
def centred (xs : List Int16) : List Int16 :=
  if |mean xs| < 1 / 2 then xs else xs.map (centre (mean xs))

/-- `apply_dc_offset_removal`. -/
def applyDcOffsetRemoval (pcm : List UInt8) : Except Foreign (List UInt8) := do
  if pcm.length < 2 then return pcm
  let arr ← frombuffer pcm
  if arr.isEmpty then return pcm
  if |mean arr| < 1 / 2 then return pcm
  return tobytes (arr.map (centre (mean arr)))

/-! ## peaks -/

/-- `int(round(10 ** (ceiling_db / 20.0) * 32767))`, for the default of
`ceiling_db`, which every call uses. -/
def peakCeiling : Int := 30934

/-- `int(np.abs(arr).max())`. -/
def absMax (xs : List Int16) : Int := ((xs.map fun s => (npAbs s).toInt).max?).getD 0

/-- A sample inside the ceiling. -/
def clipPeak (s : Int16) : Int16 := Int16.ofInt (clip s.toInt (-peakCeiling) peakCeiling)

/-- The samples inside the ceiling, if their peak is not. -/
def limited (xs : List Int16) : List Int16 :=
  if absMax xs ≤ peakCeiling then xs else xs.map clipPeak

/-- `apply_peak_limit`. -/
def applyPeakLimit (pcm : List UInt8) : Except Foreign (List UInt8) := do
  if pcm.length < 2 then return pcm
  let arr ← frombuffer pcm
  if arr.isEmpty then return pcm
  if absMax arr ≤ peakCeiling then return pcm
  return tobytes (arr.map clipPeak)

/-! ## speed -/

/-- The sample at an index, the last one after the end. -/
def sampleAt (xs : List Int16) (i : Nat) : Rat :=
  ((xs[min i (xs.length - 1)]?).map fun s => (s.toInt : Rat)).getD 0

/-- `np.interp(x, np.arange(xs.size), xs)`, for `x` not below 0. -/
def interp (xs : List Int16) (x : Rat) : Rat :=
  let i := ⌊x⌋.toNat
  sampleAt xs i + (x - i) * (sampleAt xs (i + 1) - sampleAt xs i)

/-- `np.linspace(0, last, n)`. -/
def linspace (last n : Nat) : List Rat :=
  (List.range n).map fun j : Nat => if n = 1 then 0 else ((j : Rat) * last) / ((n - 1 : Nat) : Rat)

/-- The resampled signal at one point. -/
def resampleAt (xs : List Int16) (x : Rat) : Int16 :=
  Int16.ofInt (trunc (clip (interp xs x) (-32768) 32767))

/-- `abs(speed - 1.0) < 1e-3`. -/
def isUnit : PyFloat → Bool
  | .fin q => |q - 1| < 1 / 1000
  | _ => false

/-- `speed <= 0`. -/
def isNonpos : PyFloat → Bool
  | .fin q => q ≤ 0
  | .negInf => true
  | _ => false

/-- `new_len`. -/
def newLen (size : Nat) : PyFloat → Except Foreign Nat
  | .fin q => .ok (max 1 (roundHalfEven (size / q))).toNat
  | .nan => .error (.valueError "cannot convert float NaN to integer")
  | _ => .ok 1

/-- `apply_speed` at a number, which Python writes as `text`. -/
def applySpeedOf (text : String) (pcm : List UInt8) (speed : PyFloat) :
    Except Foreign (List UInt8) := do
  if isUnit speed then return pcm
  if pcm.isEmpty then return pcm
  if isNonpos speed then throw (.valueError ("speed must be > 0, got " ++ text))
  let arr ← frombuffer pcm
  if arr.isEmpty then return pcm
  let n ← newLen arr.length speed
  return tobytes ((linspace (arr.length - 1) n).map (resampleAt arr))

/-- `apply_speed`; `fmt` is how Python writes a value. -/
def applySpeed (fmt : Json → String) (pcm : List UInt8) : Option Json → Except Foreign (List UInt8)
  | none | some .null => .ok pcm
  | some v => do applySpeedOf (fmt v) pcm (← v.toFloat)

/-! ## the pipeline -/

/-- `apply_voice_settings`. -/
def applyVoiceSettings (fmt : Json → String) (pcm : List UInt8) (voiceSettings : Option Dict) :
    Except Foreign (List UInt8) := do
  if pcm.isEmpty then return pcm
  let pcm ← applyDcOffsetRemoval pcm
  let pcm ← applyPeakLimit pcm
  match voiceSettings with
  | none | some [] => return pcm
  | some d => applySpeed fmt pcm (d.get (py "speed"))

/-! ## the law -/

/-- The settings' `speed`. -/
def speedOf (voiceSettings : Option Dict) : Option Json :=
  voiceSettings.bind fun d => d.get (py "speed")

/-- It is absent, or this positive number. -/
def HasSpeed (v : Option Json) : Option Rat → Prop
  | none => v = none ∨ v = some .null
  | some q => 0 < q ∧ ∃ j, v = some j ∧ j.toFloat = .ok (.fin q)

/-- The call returns; it leaves a buffer of odd length alone, and in any other
no sample is beyond the ceiling. -/
def KeepsCeiling (fmt : Json → String) (pcm : List UInt8) (voiceSettings : Option Dict) : Prop :=
  ∃ out, applyVoiceSettings fmt pcm voiceSettings = .ok out ∧
    (pcm.length % 2 = 1 → out = pcm) ∧
    (pcm.length % 2 = 0 → ∃ ys, frombuffer out = .ok ys ∧
      ∀ s ∈ ys, |s.toInt| ≤ round ((10 : ℝ) ^ (-0.5 / 20 : ℝ) * 32767))

/-- The points at which the samples are resampled. -/
def points (xs : List Int16) (speed : Rat) : List Rat :=
  linspace (xs.length - 1) (max 1 (roundHalfEven (xs.length / speed))).toNat

/-- The samples at a speed. -/
def sped (xs : List Int16) : Option Rat → List Int16
  | none => xs
  | some q =>
      if isUnit (.fin q) || xs.isEmpty then xs else (points xs q).map (resampleAt xs)

/-- The speed is not the normal one. -/
def Changes (speed : Option Rat) : Prop := ∃ q, speed = some q ∧ isUnit (.fin q) = false

/-- The limiter leaves a full-scale negative sample, as no other sample is a
peak. -/
def Escapes (xs : List Int16) : Prop :=
  Int16.minValue ∈ xs ∧ ∀ s ∈ xs, s ≠ Int16.minValue → |s.toInt| ≤ peakCeiling

/-- The samples are resampled, at no point close to such a sample. -/
def StepsOver (speed : Option Rat) (xs : List Int16) : Prop :=
  ∃ q, speed = some q ∧ isUnit (.fin q) = false ∧
    ∀ x ∈ points xs q, -(peakCeiling + 1 : Rat) < interp xs x

/-! ## the ceiling -/

/-- The ceiling is the power of ten. -/
theorem peakCeiling_eq : round ((10 : ℝ) ^ (-0.5 / 20 : ℝ) * 32767) = peakCeiling := by
  have hpow : ((10 : ℝ) ^ (-0.5 / 20 : ℝ)) ^ 40 = 1 / 10 := by
    rw [← Real.rpow_natCast, ← Real.rpow_mul (by norm_num)]
    norm_num
  have hpos : (0 : ℝ) < (10 : ℝ) ^ (-0.5 / 20 : ℝ) := Real.rpow_pos_of_pos (by norm_num) _
  generalize (10 : ℝ) ^ (-0.5 / 20 : ℝ) = y at hpow hpos ⊢
  have hlow : 61867 / 65534 ≤ y := by
    by_contra hlt
    have hless := pow_lt_pow_left₀ (not_le.1 hlt) hpos.le (by norm_num : (40 : ℕ) ≠ 0)
    rw [hpow] at hless
    norm_num at hless
  have hhigh : y < 61869 / 65534 := by
    by_contra hge
    have hless := pow_le_pow_left₀ (by norm_num) (not_lt.1 hge) 40
    rw [hpow] at hless
    norm_num at hless
  rw [round_eq, Int.floor_eq_iff, peakCeiling]
  constructor
  · push_cast
    linarith
  · push_cast
    linarith

/-! ## rounding and clipping -/

section arithmetic

variable {q low high : Rat} {n : Int}

theorem trunc_le (h : q ≤ n) : trunc q ≤ n := by
  unfold trunc
  split
  · exact Int.floor_le_iff.2 (by linarith)
  · exact Int.ceil_le.2 h

/-- Truncation reaches a negative integer once the value is within one of it. -/
theorem le_trunc_iff (hn : n ≤ 0) : n ≤ trunc q ↔ (n : Rat) - 1 < q := by
  unfold trunc
  split
  · next hq =>
      have hle : (n : Rat) ≤ 0 := by exact_mod_cast hn
      constructor
      · intro _
        linarith
      · intro _
        exact Int.le_floor.2 (by linarith)
  · exact Int.le_ceil_iff

theorem clip_of_mem (hlow : low ≤ q) (hhigh : q ≤ high) : clip q low high = q := by
  rw [clip, min_eq_left hhigh, max_eq_right hlow]

theorem clipPeak_mem (s : Int16) : |(clipPeak s).toInt| ≤ peakCeiling := by
  have hle : -peakCeiling ≤ clip s.toInt (-peakCeiling) peakCeiling ∧
      clip s.toInt (-peakCeiling) peakCeiling ≤ peakCeiling := by
    unfold clip peakCeiling
    omega
  rw [clipPeak, toInt_ofInt_of_mem, abs_le]
  · exact hle
  · unfold peakCeiling at hle
    unfold peakCeiling
    omega
  · unfold peakCeiling at hle
    unfold peakCeiling
    omega

end arithmetic

/-! ## the limiter -/

section limiter

variable {xs : List Int16}

theorem absMax_le {n : Int} (h : 0 ≤ n) : absMax xs ≤ n ↔ ∀ s ∈ xs, (npAbs s).toInt ≤ n := by
  unfold absMax
  cases hmax : (xs.map fun s => (npAbs s).toInt).max? with
  | none =>
      have hnil : xs = [] := by simpa using hmax
      simp [hnil, h]
  | some m =>
      rw [Option.getD_some, List.max?_le_iff hmax]
      simp

/-- The limiter does nothing to samples in which a full-scale negative one
escapes. -/
theorem limited_of_escapes (h : Escapes xs) : limited xs = xs := by
  have hle : absMax xs ≤ peakCeiling := by
    rw [absMax_le (by decide)]
    intro s hs
    by_cases hmin : s = Int16.minValue
    · subst hmin
      decide
    · rw [toInt_npAbs hmin]
      exact h.2 s hs hmin
  rw [limited, if_pos hle]

/-- Otherwise all samples are inside the ceiling. -/
theorem limited_mem (h : ¬Escapes xs) : ∀ s ∈ limited xs, |s.toInt| ≤ peakCeiling := by
  unfold limited
  split
  · next hle =>
      rw [absMax_le (by decide)] at hle
      have hother : ∀ s ∈ xs, s ≠ Int16.minValue → |s.toInt| ≤ peakCeiling := by
        intro s hs hmin
        rw [← toInt_npAbs hmin]
        exact hle s hs
      intro s hs
      refine hother s hs fun hmin => h ⟨hmin ▸ hs, hother⟩
  · intro s hs
    obtain ⟨t, -, rfl⟩ := List.mem_map.1 hs
    exact clipPeak_mem t

end limiter

/-! ## the resampler -/

section resampler

variable {xs : List Int16} {x low high : Rat}

/-- A value at an index is one of the samples. -/
theorem sampleAt_mem (hne : xs ≠ []) (i : Nat) : ∃ s ∈ xs, sampleAt xs i = s.toInt := by
  have hlt : min i (xs.length - 1) < xs.length := by
    have hpos := List.length_pos_iff.2 hne
    omega
  refine ⟨xs[min i (xs.length - 1)], List.getElem_mem hlt, ?_⟩
  rw [sampleAt, List.getElem?_eq_getElem hlt]
  rfl

/-- Interpolation stays between the samples. -/
theorem interp_mem (hne : xs ≠ []) (hx : 0 ≤ x)
    (h : ∀ s ∈ xs, low ≤ (s.toInt : Rat) ∧ (s.toInt : Rat) ≤ high) :
    low ≤ interp xs x ∧ interp xs x ≤ high := by
  obtain ⟨s, hs, hat⟩ := sampleAt_mem hne ⌊x⌋.toNat
  obtain ⟨t, ht, hnext⟩ := sampleAt_mem hne (⌊x⌋.toNat + 1)
  obtain ⟨hsl, hsh⟩ := h s hs
  obtain ⟨htl, hth⟩ := h t ht
  have hfloor : ((⌊x⌋.toNat : Nat) : Rat) = ⌊x⌋ := by
    have hnonneg : 0 ≤ ⌊x⌋ := Int.floor_nonneg.2 hx
    exact_mod_cast Int.toNat_of_nonneg hnonneg
  have hfrac : 0 ≤ x - ⌊x⌋ := by linarith [Int.floor_le x]
  have hfrac' : x - ⌊x⌋ ≤ 1 := by linarith [Int.lt_floor_add_one x]
  unfold interp
  simp only [hat, hnext, hfloor]
  constructor
  · nlinarith
  · nlinarith

theorem linspace_nonneg {last n : Nat} {p : Rat} (h : p ∈ linspace last n) : 0 ≤ p := by
  obtain ⟨j, -, rfl⟩ := List.mem_map.1 h
  split
  · exact le_refl 0
  · exact div_nonneg (mul_nonneg (Nat.cast_nonneg _) (Nat.cast_nonneg _)) (Nat.cast_nonneg _)

/-- No value leaves the range of `int16`. -/
theorem toInt_resampleAt (hne : xs ≠ []) (hx : 0 ≤ x) :
    (resampleAt xs x).toInt = trunc (interp xs x) := by
  have hrange : (-32768 : Rat) ≤ interp xs x ∧ interp xs x ≤ 32767 := by
    refine interp_mem hne hx fun s _ => ?_
    obtain ⟨hlow, hhigh⟩ := toInt_mem s
    exact ⟨by exact_mod_cast hlow, by exact_mod_cast hhigh⟩
  rw [resampleAt, clip_of_mem hrange.1 hrange.2]
  refine toInt_ofInt_of_mem ?_ (trunc_le (by exact_mod_cast hrange.2))
  rw [le_trunc_iff (by decide)]
  push_cast
  linarith [hrange.1]

/-- A resampled value is inside the ceiling exactly if the interpolated one is
within one of it; above, no sample is. -/
theorem resampleAt_mem_iff (hne : xs ≠ []) (hx : 0 ≤ x)
    (h : ∀ s ∈ xs, s.toInt ≤ peakCeiling) :
    |(resampleAt xs x).toInt| ≤ peakCeiling ↔ -(peakCeiling + 1 : Rat) < interp xs x := by
  have hhigh : interp xs x ≤ peakCeiling := by
    refine (@interp_mem xs x (-32768) peakCeiling hne hx fun s hs => ?_).2
    have hlow := (toInt_mem s).1
    exact ⟨by exact_mod_cast hlow, by exact_mod_cast h s hs⟩
  have hle : trunc (interp xs x) ≤ peakCeiling := trunc_le hhigh
  have hiff : -peakCeiling ≤ trunc (interp xs x) ↔ -(peakCeiling + 1 : Rat) < interp xs x := by
    rw [le_trunc_iff (by decide), Int.cast_neg, neg_add, sub_eq_add_neg]
  rw [toInt_resampleAt hne hx, abs_le, ← hiff]
  exact and_iff_left hle

/-- The resampler keeps the ceiling. -/
theorem sped_mem (speed : Option Rat) (h : ∀ s ∈ xs, |s.toInt| ≤ peakCeiling) :
    ∀ s ∈ sped xs speed, |s.toInt| ≤ peakCeiling := by
  cases speed with
  | none => exact h
  | some q =>
      simp only [sped]
      split
      · exact h
      · next hchange =>
          simp only [Bool.or_eq_true, not_or, List.isEmpty_iff] at hchange
          intro s hs
          obtain ⟨x, hx, rfl⟩ := List.mem_map.1 hs
          have hnonneg := linspace_nonneg hx
          have hle : ∀ s ∈ xs, s.toInt ≤ peakCeiling := fun s hs => (abs_le.1 (h s hs)).2
          rw [resampleAt_mem_iff hchange.2 hnonneg hle]
          have hlow : -(peakCeiling : Rat) ≤ interp xs x := by
            refine (@interp_mem xs x (-(peakCeiling : Rat)) peakCeiling hchange.2 hnonneg
              fun s hs => ?_).1
            obtain ⟨hlow, hhigh⟩ := abs_le.1 (h s hs)
            exact ⟨by exact_mod_cast hlow, by exact_mod_cast hhigh⟩
          linarith

/-- A full-scale negative sample that escaped the limiter is inside the ceiling
afterwards exactly if the resampler steps over it. -/
theorem sped_escaped (speed : Option Rat) (h : Escapes xs) :
    (∀ s ∈ sped xs speed, |s.toInt| ≤ peakCeiling) ↔ StepsOver speed xs := by
  have hbeyond : ¬|Int16.minValue.toInt| ≤ peakCeiling := by decide
  have hstays : (∀ s ∈ xs, |s.toInt| ≤ peakCeiling) → False := fun hall => hbeyond (hall _ h.1)
  cases speed with
  | none =>
      refine iff_of_false hstays ?_
      rintro ⟨q, hq, -⟩
      cases hq
  | some q =>
      have hne : xs ≠ [] := List.ne_nil_of_mem h.1
      have hle : ∀ s ∈ xs, s.toInt ≤ peakCeiling := by
        intro s hs
        by_cases hmin : s = Int16.minValue
        · subst hmin
          decide
        · exact (abs_le.1 (h.2 s hs hmin)).2
      cases hunit : isUnit (.fin q) with
      | true =>
          simp only [sped, hunit, Bool.true_or, if_true]
          refine iff_of_false hstays ?_
          rintro ⟨p, hp, hunit', -⟩
          cases hp
          rw [hunit] at hunit'
          cases hunit'
      | false =>
          have hempty : xs.isEmpty = false := by simpa using hne
          simp only [sped, hunit, hempty, Bool.or_self, Bool.false_eq_true, if_false,
            List.forall_mem_map]
          have hpoint : ∀ x ∈ points xs q,
              |(resampleAt xs x).toInt| ≤ peakCeiling ↔ -(peakCeiling + 1 : Rat) < interp xs x :=
            fun x hx => resampleAt_mem_iff hne (linspace_nonneg hx) hle
          constructor
          · intro hall
            exact ⟨q, rfl, hunit, fun x hx => (hpoint x hx).1 (hall x hx)⟩
          · rintro ⟨p, hp, -, hall⟩ x hx
            cases hp
            exact (hpoint x hx).2 (hall x hx)

end resampler

/-! ## bytes -/

section bytes

variable {fmt : Json → String} {pcm : List UInt8} {xs : List Int16}

theorem centred_nil : centred [] = [] := by
  simp [centred]

/-- A buffer of fewer than two bytes has no samples. -/
theorem nil_of_short (h : pcm.length < 2) (hxs : frombuffer pcm = .ok xs) : xs = [] := by
  have hlen := length_of_frombuffer hxs
  exact List.length_eq_zero_iff.1 (by omega)

/-- The DC pass on samples. -/
theorem applyDcOffsetRemoval_ok (hxs : frombuffer pcm = .ok xs) :
    ∃ out, applyDcOffsetRemoval pcm = .ok out ∧ frombuffer out = .ok (centred xs) := by
  unfold applyDcOffsetRemoval
  split
  · next hshort =>
      obtain rfl := nil_of_short hshort hxs
      exact ⟨pcm, rfl, by rw [hxs, centred_nil]⟩
  · simp only [hxs, bind, Except.bind, centred]
    split
    · next hempty =>
        obtain rfl := List.isEmpty_iff.1 hempty
        exact ⟨pcm, rfl, by simp [hxs]⟩
    · split
      · exact ⟨pcm, rfl, hxs⟩
      · exact ⟨_, rfl, frombuffer_tobytes _⟩

/-- The limiter on samples. -/
theorem applyPeakLimit_ok (hxs : frombuffer pcm = .ok xs) :
    ∃ out, applyPeakLimit pcm = .ok out ∧ frombuffer out = .ok (limited xs) := by
  unfold applyPeakLimit
  split
  · next hshort =>
      obtain rfl := nil_of_short hshort hxs
      exact ⟨pcm, rfl, hxs⟩
  · simp only [hxs, bind, Except.bind, limited]
    split
    · next hempty =>
        obtain rfl := List.isEmpty_iff.1 hempty
        exact ⟨pcm, rfl, hxs⟩
    · split
      · exact ⟨pcm, rfl, hxs⟩
      · exact ⟨_, rfl, frombuffer_tobytes _⟩

theorem applySpeed_number {j : Json} {speed : PyFloat} (hj : j.toFloat = .ok speed) :
    applySpeed fmt pcm (some j) = applySpeedOf (fmt j) pcm speed := by
  cases j with
  | null => cases hj
  | _ => simp only [applySpeed, hj, bind, Except.bind]

/-- The resampler on samples. -/
theorem applySpeed_ok {v : Option Json} {speed : Option Rat} (hv : HasSpeed v speed)
    (hxs : frombuffer pcm = .ok xs) :
    ∃ out, applySpeed fmt pcm v = .ok out ∧ frombuffer out = .ok (sped xs speed) := by
  cases speed with
  | none =>
      obtain rfl | rfl := hv
      · exact ⟨pcm, rfl, hxs⟩
      · exact ⟨pcm, rfl, hxs⟩
  | some q =>
      obtain ⟨hpos, j, rfl, hj⟩ := hv
      have hnonpos : isNonpos (.fin q) = false := by
        simp [isNonpos, hpos]
      rw [applySpeed_number hj]
      unfold applySpeedOf
      simp only [sped]
      cases hunit : isUnit (.fin q) with
      | true => exact ⟨pcm, rfl, hxs⟩
      | false =>
          cases hempty : xs.isEmpty with
          | true =>
              obtain rfl := List.isEmpty_iff.1 hempty
              have hnil : pcm = [] := List.length_eq_zero_iff.1 (length_of_frombuffer hxs)
              subst hnil
              exact ⟨[], rfl, rfl⟩
          | false =>
              have hpcm : pcm.isEmpty = false := by
                cases pcm with
                | nil => cases hxs; cases hempty
                | cons => rfl
              simp only [hpcm, hnonpos, hxs, hempty, bind, Except.bind, newLen]
              exact ⟨_, rfl, frombuffer_tobytes _⟩

/-- A single byte stays, unless the speed changes. -/
theorem applySpeed_byte {v : Option Json} {speed : Option Rat} (hv : HasSpeed v speed)
    (hlen : pcm.length = 1) :
    (applySpeed fmt pcm v = .ok pcm ∧ ¬Changes speed) ∨
      (∃ x, applySpeed fmt pcm v = .error x) ∧ Changes speed := by
  cases speed with
  | none =>
      have hnone : ¬Changes none := by
        rintro ⟨q, hq, -⟩
        cases hq
      obtain rfl | rfl := hv
      · exact .inl ⟨rfl, hnone⟩
      · exact .inl ⟨rfl, hnone⟩
  | some q =>
      obtain ⟨hpos, j, rfl, hj⟩ := hv
      rw [applySpeed_number hj]
      have hnonpos : isNonpos (.fin q) = false := by
        simp [isNonpos, hpos]
      have hempty : pcm.isEmpty = false := by
        rw [List.isEmpty_eq_false_iff, ← List.length_pos_iff]
        omega
      unfold applySpeedOf
      cases hunit : isUnit (.fin q) with
      | true =>
          refine .inl ⟨rfl, ?_⟩
          rintro ⟨p, hp, hchange⟩
          cases hp
          rw [hunit] at hchange
          cases hchange
      | false =>
          obtain ⟨xs, -, hxs⟩ | ⟨-, m, hm⟩ := frombuffer_cases pcm
          · omega
          · simp only [hempty, hnonpos, hm, bind, Except.bind]
            exact .inr ⟨⟨_, rfl⟩, q, rfl, hunit⟩

/-- The pipeline: the passes one after the other. -/
theorem applyVoiceSettings_eq {voiceSettings : Option Dict} (hne : pcm ≠ []) :
    applyVoiceSettings fmt pcm voiceSettings = (do
      let pcm ← applyDcOffsetRemoval pcm
      let pcm ← applyPeakLimit pcm
      applySpeed fmt pcm (speedOf voiceSettings)) := by
  have hempty : pcm.isEmpty = false := by simpa using hne
  unfold applyVoiceSettings
  simp only [hempty, Bool.false_eq_true, if_false]
  cases voiceSettings with
  | none => rfl
  | some d =>
      cases d with
      | nil => rfl
      | cons kv d => rfl

/-- The pipeline on samples. -/
theorem applyVoiceSettings_ok {voiceSettings : Option Dict} {speed : Option Rat}
    (hspeed : HasSpeed (speedOf voiceSettings) speed) (hxs : frombuffer pcm = .ok xs) :
    ∃ out, applyVoiceSettings fmt pcm voiceSettings = .ok out ∧
      frombuffer out = .ok (sped (limited (centred xs)) speed) := by
  by_cases hnil : pcm = []
  · subst hnil
    cases hxs
    refine ⟨[], rfl, ?_⟩
    rw [centred_nil]
    cases speed with
    | none => rfl
    | some q => simp [sped, limited, absMax, peakCeiling, frombuffer]
  · obtain ⟨b, hb, hcentred⟩ := applyDcOffsetRemoval_ok hxs
    obtain ⟨c, hc, hlimited⟩ := applyPeakLimit_ok hcentred
    obtain ⟨out, hout, hsped⟩ := @applySpeed_ok fmt c _ _ _ hspeed hlimited
    refine ⟨out, ?_, hsped⟩
    rw [applyVoiceSettings_eq hnil]
    simp only [hb, hc, hout, bind, Except.bind]

/-- A buffer of odd length: one byte goes through the first passes, a longer
one raises. -/
theorem applyVoiceSettings_odd {voiceSettings : Option Dict} (hodd : pcm.length % 2 = 1) :
    applyVoiceSettings fmt pcm voiceSettings =
        applySpeed fmt pcm (speedOf voiceSettings) ∧ pcm.length = 1 ∨
      (∃ x, applyVoiceSettings fmt pcm voiceSettings = .error x) ∧ pcm.length ≠ 1 := by
  have hne : pcm ≠ [] := by
    rintro rfl
    cases hodd
  rw [applyVoiceSettings_eq hne]
  by_cases hshort : pcm.length < 2
  · have hdc : applyDcOffsetRemoval pcm = .ok pcm := by
      simp [applyDcOffsetRemoval, hshort, pure, Except.pure]
    have hlimit : applyPeakLimit pcm = .ok pcm := by
      simp [applyPeakLimit, hshort, pure, Except.pure]
    refine .inl ⟨?_, by omega⟩
    simp only [hdc, hlimit, bind, Except.bind]
  · obtain ⟨xs, -, hlen⟩ | ⟨-, m, hm⟩ := frombuffer_cases pcm
    · omega
    · have hdc : applyDcOffsetRemoval pcm = .error (.valueError m) := by
        simp [applyDcOffsetRemoval, hshort, hm, bind, Except.bind]
      refine .inr ⟨⟨.valueError m, ?_⟩, by omega⟩
      simp only [hdc, bind, Except.bind]

end bytes

/-- The passes on samples keep the ceiling exactly if nothing escapes the
limiter, or is stepped over. -/
theorem passes_mem_iff (xs : List Int16) (speed : Option Rat) :
    (∀ s ∈ sped (limited xs) speed, |s.toInt| ≤ peakCeiling) ↔
      ¬Escapes xs ∨ StepsOver speed xs := by
  by_cases h : Escapes xs
  · rw [limited_of_escapes h, sped_escaped speed h]
    simp [h]
  · exact iff_of_true (sped_mem speed (limited_mem h)) (.inl h)

/-- **The ceiling holds** exactly for buffers of whole samples in which no
full-scale negative sample escapes the limiter, or is stepped over, and for
single bytes at normal speed. -/
theorem peak_ceiling_iff (fmt : Json → String) (pcm : List UInt8) (voiceSettings : Option Dict)
    (speed : Option Rat) (hspeed : HasSpeed (speedOf voiceSettings) speed) :
    KeepsCeiling fmt pcm voiceSettings ↔
      (pcm.length = 1 ∧ ¬Changes speed) ∨
        ∃ xs, frombuffer pcm = .ok xs ∧ (¬Escapes (centred xs) ∨ StepsOver speed (centred xs)) := by
  unfold KeepsCeiling
  rw [peakCeiling_eq]
  obtain ⟨xs, hxs, hlen⟩ | ⟨hodd, m, hm⟩ := frombuffer_cases pcm
  · obtain ⟨out, hout, hys⟩ := @applyVoiceSettings_ok fmt pcm xs _ _ hspeed hxs
    have heven : pcm.length % 2 = 0 := by omega
    have hone : pcm.length ≠ 1 := by omega
    simp only [hout, hxs, Except.ok.injEq, exists_eq_left', heven, hone, hys, false_and, false_or,
      forall_const, Nat.zero_ne_one, IsEmpty.forall_iff, true_and]
    exact passes_mem_iff (centred xs) speed
  · have hnone : ¬∃ xs, frombuffer pcm = .ok xs ∧
        (¬Escapes (centred xs) ∨ StepsOver speed (centred xs)) := by
      rintro ⟨xs, hxs, -⟩
      rw [hm] at hxs
      cases hxs
    simp only [hnone, or_false, hodd, one_ne_zero, forall_const, IsEmpty.forall_iff, and_true]
    obtain ⟨hcall, hone⟩ | ⟨⟨x, hcall⟩, hone⟩ :=
      @applyVoiceSettings_odd fmt pcm voiceSettings hodd
    · rw [hcall]
      obtain ⟨hsame, hchange⟩ | ⟨⟨x, hraises⟩, hchange⟩ :=
        @applySpeed_byte fmt pcm _ _ hspeed hone
      · exact iff_of_true ⟨pcm, hsame, rfl⟩ ⟨hone, hchange⟩
      · refine iff_of_false ?_ fun h => h.2 hchange
        rintro ⟨out, hout, -⟩
        rw [hraises] at hout
        cases hout
    · refine iff_of_false ?_ fun h => hone h.1
      rintro ⟨out, hout, -⟩
      rw [hcall] at hout
      cases hout

/-- Samples 32000 and -32000, three times. -/
def loudPcm : List UInt8 :=
  [0x00, 0x7D, 0x00, 0x83, 0x00, 0x7D, 0x00, 0x83, 0x00, 0x7D, 0x00, 0x83]

/-- Six samples that are all beyond the ceiling are clipped, and five are left of them
at 1.2 times the speed. -/
theorem peak_ceiling_fast :
    (applyVoiceSettings (fun _ => "") loudPcm (some [(py "speed", .float (.fin (6 / 5)))])).bind
        frombuffer = .ok [30934, -15467, 0, 15467, -30934] ∧
      KeepsCeiling (fun _ => "") loudPcm (some [(py "speed", .float (.fin (6 / 5)))]) := by
  have hspeed : HasSpeed (speedOf (some [(py "speed", .float (.fin (6 / 5)))])) (some (6 / 5)) :=
    ⟨by norm_num, _, rfl, rfl⟩
  have hread : frombuffer loudPcm = .ok [32000, -32000, 32000, -32000, 32000, -32000] := rfl
  have hcentred : centred [32000, -32000, 32000, -32000, 32000, -32000] =
      [32000, -32000, 32000, -32000, 32000, -32000] := by decide +kernel
  have hinside : ¬Escapes (centred [32000, -32000, 32000, -32000, 32000, -32000]) := by
    rw [hcentred]
    intro hescapes
    exact absurd hescapes.1 (by decide)
  exact ⟨by decide +kernel,
    (peak_ceiling_iff _ loudPcm _ _ hspeed).2 (.inr ⟨_, hread, .inl hinside⟩)⟩

/-- Samples -32768, 16384 and 16384: no DC offset, and no peak but the full-scale
negative sample. -/
def escapingPcm : List UInt8 := [0x00, 0x80, 0x00, 0x40, 0x00, 0x40]

/-- A full-scale negative sample among others inside the ceiling is published as
it is. -/
theorem escaped_sample_beyond_ceiling :
    ¬∀ (fmt : Json → String) (pcm : List UInt8) (voiceSettings : Option Dict)
      (speed : Option Rat), HasSpeed (speedOf voiceSettings) speed →
      KeepsCeiling fmt pcm voiceSettings := by
  intro h
  obtain ⟨out, hout, -, heven⟩ := h (fun _ => "") escapingPcm none none (.inl rfl)
  have hsame : applyVoiceSettings (fun _ => "") escapingPcm none = .ok escapingPcm := by
    decide +kernel
  rw [hsame] at hout
  cases hout
  obtain ⟨ys, hys, hall⟩ := heven rfl
  have hread : frombuffer escapingPcm = .ok [-32768, 16384, 16384] := rfl
  rw [hread] at hys
  cases hys
  rw [peakCeiling_eq] at hall
  exact absurd (hall (-32768) (by simp)) (by decide)

end NeuroVoice.Audio
