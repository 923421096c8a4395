import NeuroVoice.Audio.Samples

/-!
# NeuroVoice.Audio.Stats

`audio/stats.py`: what the worker's metrics say of a PCM buffer.

The counts are taken of `np.abs`, which leaves a full-scale negative sample
negative: the loudest sample there is counts as silence, and not as clipped.  A
ratio is a float, and not every count comes back from its own.  And a buffer of
odd length is no array of samples: `pcm_stats_iff`.
-/

namespace NeuroVoice.Audio

open Binary64

/-! ## the source -/

/-- `_INT16_FULL_SCALE`. -/
def int16FullScale : Int := 32767

/-- `_SILENCE_THRESHOLD`. -/
def silenceThreshold : Int := int16FullScale * 1 / 100

/-- `_CLIPPING_THRESHOLD`. -/
def clippingThreshold : Int := int16FullScale * 95 / 100

/-- What the statistics take from floating point arithmetic and from
`pyloudnorm`. -/
structure Loudness where
  F : Type
  zero : F
  /-- `_LUFS_FLOOR`. -/
  lufsFloor : F
  /-- `min(sqrt(mean(f * f)) / _INT16_FULL_SCALE, 1.0)`. -/
  rmsNormalized : List Int16 → F
  /-- `integrated_loudness`; nothing if `pyloudnorm` is not installed or raises
  an `Exception`. -/
  integrated : List Int16 → Int → Option F
  isfinite : F → Bool

/-- `_BS1770_MIN_DURATION_S`. -/
def bs1770MinDurationS : Rat := nearest (2 / 5)

/-- `PcmStats`. -/
structure PcmStats (F : Type) where
  rmsNormalized : F
  silenceRatio : Rat
  clippingRatio : Rat
  durationSeconds : Rat
  sampleCount : Nat
  integratedLufs : F

/-- The statistics of no audio. -/
def PcmStats.zeros (L : Loudness) : PcmStats L.F where
  rmsNormalized := L.zero
  silenceRatio := 1
  clippingRatio := 0
  durationSeconds := 0
  sampleCount := 0
  integratedLufs := L.lufsFloor

/-- `_compute_integrated_lufs`. -/
def computeIntegratedLufs (L : Loudness) (arr : List Int16) (sampleRate : Int) :
    Except Foreign L.F :=
  if arr.isEmpty ∨ sampleRate ≤ 0 then .ok L.lufsFloor
  else if Overflows sampleRate then .error .overflowError
  else if nearest (arr.length / nearest sampleRate) < bs1770MinDurationS then .ok L.lufsFloor
  else match L.integrated arr sampleRate with
    | none => .ok L.lufsFloor
    | some loudness => .ok (if L.isfinite loudness then loudness else L.lufsFloor)

/-- `(p).mean()` of an array of booleans. -/
def ratio (p : Int16 → Bool) (arr : List Int16) : Rat :=
  nearest ((arr.countP p : Nat) / (arr.length : Nat))

/-- `compute_pcm_stats`. -/
def computePcmStats (L : Loudness) (pcm : List UInt8) (sampleRate : Int) :
    Except Foreign (PcmStats L.F) := do
  if pcm.length < 2 then return .zeros L
  let arr ← frombuffer pcm
  if arr.isEmpty then return .zeros L
  let integratedLufs ← computeIntegratedLufs L arr sampleRate
  return {
    rmsNormalized := L.rmsNormalized arr
    silenceRatio := ratio (fun s => (npAbs s).toInt < silenceThreshold) arr
    clippingRatio := ratio (fun s => clippingThreshold ≤ (npAbs s).toInt) arr
    durationSeconds := nearest ((arr.length : Nat) / (max sampleRate 1 : Int))
    sampleCount := arr.length
    integratedLufs }

/-! ## the law -/

/-- A sample below 1% of full scale. -/
def Silent (s : Int16) : Prop := |s.toInt| < 327

/-- A sample at 95% of full scale, or above. -/
def Clipped (s : Int16) : Prop := 31128 ≤ |s.toInt|

instance (s : Int16) : Decidable (Silent s) := inferInstanceAs (Decidable (|s.toInt| < 327))

instance (s : Int16) : Decidable (Clipped s) := inferInstanceAs (Decidable (31128 ≤ |s.toInt|))

/-- The statistics count exactly: a ratio times the length, which is a product of
floats, is the count.  Those of an odd buffer are the ones of no audio. -/
def CountsExactly (L : Loudness) (pcm : List UInt8) (sampleRate : Int) : Prop :=
  ∃ stats, computePcmStats L pcm sampleRate = .ok stats ∧
    (∀ arr, frombuffer pcm = .ok arr → arr ≠ [] →
      nearest (stats.clippingRatio * arr.length) = (arr.countP fun s => Clipped s) ∧
      nearest (stats.silenceRatio * arr.length) = (arr.countP fun s => Silent s)) ∧
    (pcm.length % 2 = 1 → stats = .zeros L)

/-! ## counts -/

section counts

variable {arr : List Int16} {s : Int16}

theorem silenceThreshold_eq : silenceThreshold = 327 := rfl

theorem clippingThreshold_eq : clippingThreshold = 31128 := rfl

/-- A count that comes back from a ratio is the one it was made of, and one that
recovers. -/
theorem ratio_mul_eq_iff (p : Int16 → Bool) (h : arr ≠ []) (hlen : arr.length < 2 ^ 52) (c : Nat) :
    nearest (ratio p arr * arr.length) = c ↔ c = arr.countP p ∧ Recovers c arr.length := by
  have hpos := List.length_pos_iff.2 h
  have hle : arr.countP p ≤ arr.length := List.countP_le_length
  constructor
  · intro hc
    obtain rfl := eq_of_nearest_quotient hpos hle hlen hc
    exact ⟨rfl, (nearest_quotient_mul_iff hpos hle hlen).1 hc⟩
  · rintro ⟨rfl, hrecovers⟩
    exact (nearest_quotient_mul_iff hpos hle hlen).2 hrecovers

/-- A sample that counts as silent: one that is, or the loudest one. -/
theorem npAbs_silent :
    decide ((npAbs s).toInt < silenceThreshold) = decide (Silent s ∨ s = Int16.minValue) := by
  rw [silenceThreshold_eq]
  by_cases h : s = Int16.minValue
  · subst h
    decide
  · simp [toInt_npAbs h, Silent, h]

theorem not_silent_minValue : ¬Silent Int16.minValue := by decide

/-- The counts of silence differ by the full-scale negative samples. -/
theorem countP_silent :
    arr.countP (fun s => (npAbs s).toInt < silenceThreshold) =
      arr.countP (fun s => Silent s) + arr.count Int16.minValue := by
  induction arr with
  | nil => rfl
  | cons s arr ih =>
      rw [List.countP_cons, List.countP_cons, List.count_cons, ih, npAbs_silent]
      by_cases h : s = Int16.minValue
      · subst h
        simp [not_silent_minValue]
        omega
      · by_cases hs : Silent s
        · simp [h, hs]
          omega
        · simp [h, hs]

/-- Without them the counts of clipped samples agree. -/
theorem countP_clipped (h : Int16.minValue ∉ arr) :
    arr.countP (fun s => clippingThreshold ≤ (npAbs s).toInt) =
      arr.countP (fun s => Clipped s) := by
  refine List.countP_congr fun s hs => ?_
  have hne : s ≠ Int16.minValue := fun heq => h (heq ▸ hs)
  rw [decide_eq_true_eq, decide_eq_true_eq, toInt_npAbs hne, clippingThreshold_eq, Clipped]

end counts

/-! ## the whole buffer -/

section buffer

variable {L : Loudness} {pcm : List UInt8} {sampleRate : Int} {arr : List Int16}

theorem computePcmStats_short (h : pcm.length < 2) :
    computePcmStats L pcm sampleRate = .ok (.zeros L) := by
  simp [computePcmStats, h, pure, Except.pure]

/-- The rate is no positive number that `float` refuses. -/
def RateFits (sampleRate : Int) : Prop := sampleRate ≤ 0 ∨ ¬Overflows sampleRate

instance (sampleRate : Int) : Decidable (RateFits sampleRate) :=
  inferInstanceAs (Decidable (_ ∨ _))

theorem computeIntegratedLufs_ok (L : Loudness) (hne : arr ≠ []) :
    (∃ lufs, computeIntegratedLufs L arr sampleRate = .ok lufs) ↔ RateFits sampleRate := by
  have hempty : arr.isEmpty = false := by simpa using hne
  unfold computeIntegratedLufs RateFits
  by_cases hrate : sampleRate ≤ 0
  · simp [hrate]
  · by_cases hover : Overflows sampleRate
    · simp [hempty, hrate, hover]
    · simp only [hempty, hrate, hover, Bool.false_eq_true, or_self, if_false, not_false_eq_true,
        or_true, iff_true]
      split
      · exact ⟨_, rfl⟩
      · split <;> exact ⟨_, rfl⟩

/-- The statistics of a buffer with samples. -/
theorem computePcmStats_eq (harr : frombuffer pcm = .ok arr) (hne : arr ≠ []) :
    computePcmStats L pcm sampleRate =
      (computeIntegratedLufs L arr sampleRate).map fun integratedLufs =>
        { rmsNormalized := L.rmsNormalized arr
          silenceRatio := ratio (fun s => (npAbs s).toInt < silenceThreshold) arr
          clippingRatio := ratio (fun s => clippingThreshold ≤ (npAbs s).toInt) arr
          durationSeconds := nearest ((arr.length : Nat) / (max sampleRate 1 : Int))
          sampleCount := arr.length
          integratedLufs } := by
  have hlen := length_of_frombuffer harr
  have hpos : 0 < arr.length := List.length_pos_iff.2 hne
  have hlong : ¬pcm.length < 2 := by omega
  have hempty : arr.isEmpty = false := by simpa using hne
  simp only [computePcmStats, hlong, harr, hempty, bind, Except.bind, if_false]
  cases computeIntegratedLufs L arr sampleRate <;> rfl

/-- A buffer without a sample has the statistics of no audio. -/
theorem countsExactly_short (h : pcm.length < 2) : CountsExactly L pcm sampleRate := by
  refine ⟨.zeros L, computePcmStats_short h, fun arr harr hne => ?_, fun _ => rfl⟩
  have hlen := length_of_frombuffer harr
  have hpos : 0 < arr.length := List.length_pos_iff.2 hne
  omega

/-- A buffer of whole samples. -/
theorem countsExactly_iff (harr : frombuffer pcm = .ok arr) (hne : arr ≠ [])
    (hshort : arr.length < 2 ^ 52) :
    CountsExactly L pcm sampleRate ↔ Int16.minValue ∉ arr ∧
      Recovers (arr.countP fun s => Clipped s) arr.length ∧
      Recovers (arr.countP fun s => Silent s) arr.length ∧ RateFits sampleRate := by
  have heq := @computePcmStats_eq L pcm sampleRate arr harr hne
  have hlen := length_of_frombuffer harr
  constructor
  · rintro ⟨stats, hok, hcounts, -⟩
    obtain ⟨hclipping, hsilence⟩ := hcounts arr harr hne
    rw [heq] at hok
    cases hlufs : computeIntegratedLufs L arr sampleRate with
    | error e => rw [hlufs] at hok; cases hok
    | ok lufs =>
        rw [hlufs] at hok
        cases hok
        rw [ratio_mul_eq_iff _ hne hshort] at hclipping hsilence
        rw [countP_silent] at hsilence
        exact ⟨List.count_eq_zero.1 (by omega), hclipping.2, hsilence.2,
          (computeIntegratedLufs_ok L hne).1 ⟨lufs, hlufs⟩⟩
  · rintro ⟨hmin, hclipped, hsilent, hrate⟩
    obtain ⟨lufs, hlufs⟩ := (computeIntegratedLufs_ok L hne).2 hrate
    rw [hlufs] at heq
    refine ⟨_, heq, fun arr' harr' _ => ?_, fun hodd => by omega⟩
    rw [harr] at harr'
    cases harr'
    constructor
    · exact (ratio_mul_eq_iff _ hne hshort _).2 ⟨(countP_clipped hmin).symm, hclipped⟩
    · refine (ratio_mul_eq_iff _ hne hshort _).2 ⟨?_, hsilent⟩
      rw [countP_silent, List.count_eq_zero.2 hmin]
      rfl

/-- A buffer of odd length raises a `ValueError`, unless it is one byte. -/
theorem computePcmStats_odd {m : String} (h : 2 ≤ pcm.length)
    (herror : frombuffer pcm = .error (.valueError m)) :
    computePcmStats L pcm sampleRate = .error (.valueError m) := by
  have hlong : ¬pcm.length < 2 := by omega
  simp only [computePcmStats, hlong, herror, bind, Except.bind, if_false]

end buffer

/-- **The statistics count exactly** for buffers too short for a sample, and for
buffers of whole samples without a full-scale negative one whose two counts come
back from a quotient of floats.  Up to `2 ^ 53` a float counts exactly. -/
theorem pcm_stats_iff (L : Loudness) (pcm : List UInt8) (sampleRate : Int)
    (hlen : pcm.length < 2 ^ 53) :
    CountsExactly L pcm sampleRate ↔
      pcm.length < 2 ∨ ∃ arr, frombuffer pcm = .ok arr ∧ Int16.minValue ∉ arr ∧
        Recovers (arr.countP fun s => Clipped s) arr.length ∧
        Recovers (arr.countP fun s => Silent s) arr.length ∧ RateFits sampleRate := by
  by_cases hshort : pcm.length < 2
  · exact iff_of_true (countsExactly_short hshort) (.inl hshort)
  · obtain ⟨arr, harr, heq⟩ | ⟨-, m, herror⟩ := frombuffer_cases pcm
    · have hne : arr ≠ [] := by
        rintro rfl
        simp only [List.length_nil] at heq
        omega
      rw [countsExactly_iff harr hne (by omega)]
      simp [hshort, harr]
    · have hraises := @computePcmStats_odd L pcm sampleRate m (by omega) herror
      refine iff_of_false ?_ ?_
      · rintro ⟨stats, hok, -⟩
        rw [hraises] at hok
        cases hok
      · rintro (h | ⟨arr, harr, -⟩)
        · exact hshort h
        · rw [herror] at harr
          cases harr

/-- The loudness of an installation without `pyloudnorm`. -/
def noLoudness : Loudness where
  F := Int
  zero := 0
  lufsFloor := -70
  rmsNormalized _ := 0
  integrated _ _ := none
  isfinite _ := true

/-- Seven samples, of which three are clipped and two silent. -/
def sevenSamples : List UInt8 := tobytes [32767, -31128, 326, 5000, 31128, -1, -31127]

/-- Their ratios are no exact sevenths, and give the counts all the same. -/
theorem pcm_stats_seven : CountsExactly noLoudness sevenSamples 48000 :=
  (pcm_stats_iff noLoudness sevenSamples 48000 (by decide)).2
    (.inr ⟨_, frombuffer_tobytes _, by decide, by decide +kernel, by decide +kernel,
      by decide +kernel⟩)

/-- Of one clipped sample in 49 the ratio does not give the count. -/
example : ¬Recovers 1 49 := by decide +kernel

/-- One full-scale negative sample. -/
def fullScaleNegative : List UInt8 := [0x00, 0x80]

example : (computePcmStats noLoudness fullScaleNegative 48000).map
    (fun stats => (stats.silenceRatio, stats.clippingRatio)) = .ok (1, 0) := by decide +kernel

/-- A full-scale negative sample is all silence and not clipped. -/
theorem loudest_sample_silent :
    ¬∀ (L : Loudness) (pcm : List UInt8) (sampleRate : Int), CountsExactly L pcm sampleRate := by
  intro h
  have hfull := h noLoudness fullScaleNegative 48000
  have harr : frombuffer fullScaleNegative = .ok [Int16.minValue] := by rfl
  rw [countsExactly_iff harr (List.cons_ne_nil _ _) (by decide)] at hfull
  exact hfull.1 (List.mem_singleton_self _)

end NeuroVoice.Audio
