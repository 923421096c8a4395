import Mathlib.Data.Int.Log
import Mathlib.Data.Rat.Floor
import Mathlib.Data.Nat.Prime.Basic
import Mathlib.Tactic.Linarith
import Mathlib.Tactic.FieldSimp

/-!
# NeuroVoice.Lib.Binary64

Rounding to the double precision numbers of IEEE 754, over the rationals.

A number has 53 binary digits, of which none is worth less than `2 ^ -1074`, and
the nearest one is taken, the even one of two.  A quotient that is rounded and
multiplied back need not come back (`nearest_quotient_mul_iff`).
-/

namespace NeuroVoice

/-! ## integers -/

/-- The nearest integer, the even one of two. -/
def roundHalfEven (q : Rat) : Int :=
  if q - ⌊q⌋ < 1 / 2 then ⌊q⌋
  else if 1 / 2 < q - ⌊q⌋ then ⌊q⌋ + 1
  else if ⌊q⌋ % 2 = 0 then ⌊q⌋ else ⌊q⌋ + 1

theorem abs_sub_roundHalfEven (q : Rat) : |q - roundHalfEven q| ≤ 1 / 2 := by
  have hlow := Int.floor_le q
  have hhigh := Int.lt_floor_add_one q
  rw [abs_le]
  unfold roundHalfEven
  split_ifs <;> push_cast <;> constructor <;> linarith

/-- What is no farther than a half from an even integer is rounded to it. -/
theorem roundHalfEven_eq_iff {q : Rat} {m : Int} (hm : m % 2 = 0) :
    roundHalfEven q = m ↔ |q - m| ≤ 1 / 2 := by
  constructor
  · rintro rfl
    exact abs_sub_roundHalfEven q
  · intro h
    obtain ⟨hlow, hhigh⟩ := abs_le.1 h
    unfold roundHalfEven
    by_cases hq : (m : Rat) ≤ q
    · have hfloor : ⌊q⌋ = m := Int.floor_eq_iff.2 ⟨hq, by linarith⟩
      rw [hfloor, if_pos hm, if_neg (by linarith : ¬1 / 2 < q - m)]
      split <;> rfl
    · have hfloor : ⌊q⌋ = m - 1 := by
        rw [Int.floor_eq_iff]
        push_cast
        constructor <;> linarith
      have hodd : ¬(m - 1) % 2 = 0 := by omega
      have hfar : ¬q - ((m - 1 : Int) : Rat) < 1 / 2 := by
        push_cast
        linarith
      rw [hfloor, if_neg hfar, if_neg hodd, Int.sub_add_cancel]
      split <;> rfl

/-- Nothing at an integer or above is rounded below it. -/
theorem le_roundHalfEven {q : Rat} {m : Int} (h : (m : Rat) ≤ q) : m ≤ roundHalfEven q := by
  have hnear := (abs_le.1 (abs_sub_roundHalfEven q)).2
  have hlt : (m : Rat) < (roundHalfEven q : Rat) + 1 := by linarith
  exact Int.lt_add_one_iff.1 (by exact_mod_cast hlt)

namespace Binary64

/-! ## numbers -/

/-- The place value of the last digit about `q`, as an exponent of two. -/
def place (q : Rat) : Int := max (Int.log 2 |q| - 52) (-1074)

/-- The number nearest to `q`, where no number is too great. -/
def nearest (q : Rat) : Rat := roundHalfEven (q / 2 ^ place q) * 2 ^ place q

/-- No number is so great. -/
def Overflows (q : Rat) : Prop := 2 ^ (1024 : Nat) ≤ |nearest q|

instance (q : Rat) : Decidable (Overflows q) :=
  inferInstanceAs (Decidable (2 ^ (1024 : Nat) ≤ |nearest q|))

section nearest

variable {x z : Rat} {e p m : Int}

theorem two_zpow_pos (e : Int) : (0 : Rat) < 2 ^ e := zpow_pos two_pos e

theorem two_zpow_add (e : Int) (n : Nat) : (2 : Rat) ^ (e + n) = 2 ^ n * 2 ^ e := by
  rw [zpow_add₀ two_ne_zero, zpow_natCast, mul_comm]

theorem exists_binade (hz : 0 < z) : ∃ e : Int, (2 : Rat) ^ e ≤ z ∧ z < 2 ^ (e + 1) :=
  ⟨Int.log 2 z, mod_cast Int.zpow_log_le_self Nat.one_lt_two hz,
    mod_cast Int.lt_zpow_succ_log_self Nat.one_lt_two z⟩

@[simp] theorem nearest_zero : nearest 0 = 0 := by simp [nearest, roundHalfEven]

theorem place_eq (hlow : (2 : Rat) ^ e ≤ z) (hhigh : z < 2 ^ (e + 1)) :
    place z = max (e - 52) (-1074) := by
  have hpos : 0 < z := lt_of_lt_of_le (two_zpow_pos e) hlow
  have hge : e ≤ Int.log 2 z := (Int.zpow_le_iff_le_log Nat.one_lt_two hpos).1 (mod_cast hlow)
  have hlt : Int.log 2 z < e + 1 := (Int.lt_zpow_iff_log_lt Nat.one_lt_two hpos).1 (mod_cast hhigh)
  rw [place, abs_of_pos hpos, show Int.log 2 z = e by omega]

/-- A number is off by half its last place at most. -/
theorem abs_sub_nearest (z : Rat) : |z - nearest z| ≤ 2 ^ place z / 2 := by
  have hpos := two_zpow_pos (place z)
  have hscale : z - nearest z =
      (z / 2 ^ place z - roundHalfEven (z / 2 ^ place z)) * 2 ^ place z := by
    rw [sub_mul, div_mul_cancel₀ _ hpos.ne']
    rfl
  rw [hscale, abs_mul, abs_of_pos hpos]
  have hhalf := mul_le_mul_of_nonneg_right (abs_sub_roundHalfEven (z / 2 ^ place z)) hpos.le
  linarith

/-- A power of two at or below a number stays there. -/
theorem zpow_le_nearest (hge : (2 : Rat) ^ e ≤ z) (hlt : z < 2 ^ (e + 1)) (he : -1022 ≤ e) :
    2 ^ e ≤ nearest z := by
  have hplace : place z = e - 52 := by
    rw [place_eq hge hlt]
    omega
  have hpos := two_zpow_pos (e - 52)
  have hpow : (2 : Rat) ^ e = 2 ^ 52 * 2 ^ (e - 52) := by
    rw [← two_zpow_add]
    congr 1
    omega
  rw [nearest, hplace, hpow]
  rw [hpow, ← le_div_iff₀ hpos] at hge
  have hround : (2 ^ 52 : Int) ≤ roundHalfEven (z / 2 ^ (e - 52)) :=
    le_roundHalfEven (by exact_mod_cast hge)
  exact mul_le_mul_of_nonneg_right (by exact_mod_cast hround) hpos.le

/-- What comes to an even multiple of its last place. -/
theorem nearest_eq_mul_iff (hm : m % 2 = 0) :
    nearest z = m * 2 ^ place z ↔ |z - m * 2 ^ place z| ≤ 2 ^ place z / 2 := by
  have hpos := two_zpow_pos (place z)
  have hscale : z - m * 2 ^ place z = (z / 2 ^ place z - m) * 2 ^ place z := by
    rw [sub_mul, div_mul_cancel₀ _ hpos.ne']
  have hhalf : (2 : Rat) ^ place z / 2 = 1 / 2 * 2 ^ place z := by ring
  rw [nearest, mul_left_inj' hpos.ne', Int.cast_inj, roundHalfEven_eq_iff hm, hscale, abs_mul,
    abs_of_pos hpos, hhalf, mul_le_mul_iff_left₀ hpos]

/-- What has more digits than `m` before the place `p` is not rounded to `m` of them. -/
theorem lt_nearest_of_above (hge : (2 : Rat) ^ e ≤ z) (hlt : z < 2 ^ (e + 1)) (hhigh : m + 2 ≤ 2 ^ 53)
    (hp : -1074 < p) (he : p + 53 ≤ e) : m * 2 ^ p + 2 ^ p / 2 < z ∧ m * 2 ^ p < nearest z := by
  have hpos := two_zpow_pos p
  have hhighQ : ((m : Rat) + 2) * 2 ^ p ≤ 2 ^ 53 * 2 ^ p :=
    mul_le_mul_of_nonneg_right (by exact_mod_cast hhigh) hpos.le
  have hfar : (2 : Rat) ^ 53 * 2 ^ p ≤ 2 ^ e := by
    rw [← two_zpow_add]
    exact zpow_le_zpow_right₀ one_le_two he
  have hround := zpow_le_nearest hge hlt (by omega)
  constructor <;> linarith

/-- Nor is what has fewer. -/
theorem nearest_lt_of_below (hge : (2 : Rat) ^ e ≤ z) (hlt : z < 2 ^ (e + 1)) (hlow : 2 ^ 52 ≤ m)
    (hp : -1074 < p) (he : e ≤ p + 50) : z < m * 2 ^ p - 2 ^ p / 2 ∧ nearest z < m * 2 ^ p := by
  have hpos := two_zpow_pos p
  have hlowQ : (2 : Rat) ^ 52 * 2 ^ p ≤ m * 2 ^ p :=
    mul_le_mul_of_nonneg_right (by exact_mod_cast hlow) hpos.le
  have hnear : (2 : Rat) ^ (e + 1) ≤ 2 ^ 51 * 2 ^ p := by
    rw [← two_zpow_add]
    exact zpow_le_zpow_right₀ one_le_two (by push_cast; omega)
  have herror := (abs_le.1 (abs_sub_nearest z)).1
  have hsmall : (2 : Rat) ^ place z ≤ 2 ^ p := by
    rw [place_eq hge hlt]
    exact zpow_le_zpow_right₀ one_le_two (by omega)
  constructor <;> linarith

/-- **What is rounded to a number** whose last digit is even: whatever is at most
half its last place away, but of a power of two only a quarter below. -/
theorem nearest_eq_iff (hlow : 2 ^ 52 ≤ m) (hhigh : m < 2 ^ 53) (heven : m % 2 = 0)
    (hp : -1074 < p) (hz : 0 < z) : nearest z = m * 2 ^ p ↔
      (if m = 2 ^ 52 then m * 2 ^ p - 2 ^ p / 4 ≤ z else m * 2 ^ p - 2 ^ p / 2 ≤ z) ∧
        z ≤ m * 2 ^ p + 2 ^ p / 2 := by
  have hpos := two_zpow_pos p
  obtain ⟨e, hge, hlt⟩ := exists_binade hz
  have hplace := place_eq hge hlt
  have hlowQ : (2 : Rat) ^ 52 * 2 ^ p ≤ m * 2 ^ p :=
    mul_le_mul_of_nonneg_right (by exact_mod_cast hlow) hpos.le
  obtain he | he | he | he : e = p + 52 ∨ e = p + 51 ∨ p + 53 ≤ e ∨ e ≤ p + 50 := by omega
  · -- The number has as many digits as `z`.
    have hiff := nearest_eq_mul_iff (z := z) heven
    rw [hplace, show max (e - 52) (-1074) = p by omega, abs_le] at hiff
    rw [he, show p + 52 = p + (52 : Nat) from rfl, two_zpow_add] at hge
    rw [hiff]
    split
    · next hm =>
        have hpow : (m : Rat) = 2 ^ 52 := by exact_mod_cast hm
        rw [hpow]
        constructor <;> rintro ⟨-, h⟩ <;> constructor <;> linarith
    · constructor <;> rintro ⟨hl, h⟩ <;> constructor <;> linarith
  · -- `z` is just below: the number is a power of two, if it is the one.
    have hiff := nearest_eq_mul_iff (z := z) (m := 2 * m) (by omega)
    have hhalf : (2 : Rat) ^ (p - 1) = 2 ^ p / 2 := by rw [zpow_sub_one₀ two_ne_zero]; rfl
    rw [hplace, show max (e - 52) (-1074) = p - 1 by omega, abs_le, hhalf] at hiff
    have hsame : ((2 * m : Int) : Rat) * (2 ^ p / 2) = m * 2 ^ p := by push_cast; ring
    rw [hsame] at hiff
    rw [he, show p + 51 + 1 = p + (52 : Nat) by omega, two_zpow_add] at hlt
    rw [hiff]
    split
    · constructor <;> rintro ⟨hl, h⟩ <;> constructor <;> linarith
    · next hm =>
        have hmore : ((2 : Rat) ^ 52 + 1) * 2 ^ p ≤ m * 2 ^ p :=
          mul_le_mul_of_nonneg_right (by exact_mod_cast (by omega : 2 ^ 52 + 1 ≤ m)) hpos.le
        constructor <;> rintro ⟨hl, h⟩ <;> exfalso <;> linarith
  · -- `z` is too great.
    have hroom : m + 2 ≤ 2 ^ 53 := by omega
    obtain ⟨hz, hround⟩ := lt_nearest_of_above hge hlt hroom hp he
    exact iff_of_false hround.ne' fun h => absurd h.2 (not_le_of_gt hz)
  · -- `z` is too small.
    obtain ⟨hz, hround⟩ := nearest_lt_of_below hge hlt hlow hp he
    refine iff_of_false hround.ne fun h => ?_
    obtain ⟨hl, -⟩ := h
    split at hl <;> linarith

end nearest

/-! ## quotients -/

/-- How many binary places a quotient has after the point. -/
def fractionDigits (c n : Nat) : Nat :=
  52 + Nat.log 2 n - Nat.log 2 c + if n * 2 ^ Nat.log 2 c ≤ c * 2 ^ Nat.log 2 n then 0 else 1

/-- A fraction of `n` that comes back when its quotient is multiplied by `n`: as
many digits as the quotient has leave a remainder that is small, or nearly `n`.  A
fraction whose leading digits are below those of `n` comes back unless it is a
power of two. -/
def Recovers (c n : Nat) : Prop :=
  let rest := c * 2 ^ fractionDigits c n % n
  (n * 2 ^ Nat.log 2 c ≤ c * 2 ^ Nat.log 2 n →
      2 * rest ≤ 2 ^ Nat.log 2 n ∨ 2 * (n - rest) ≤ 2 ^ Nat.log 2 n) ∧
    (c = 2 ^ Nat.log 2 c → 2 * rest ≤ 2 ^ Nat.log 2 n ∨ n < 2 * rest)

instance (c n : Nat) : Decidable (Recovers c n) :=
  inferInstanceAs (Decidable ((_ → _ ∨ _) ∧ (_ → _ ∨ _)))

section quotient

variable {c c' n : Nat}

/-- A quotient has 53 digits. -/
theorem fractionDigits_spec (hc : 0 < c) (hcn : c ≤ n) :
    n * 2 ^ 52 ≤ c * 2 ^ fractionDigits c n ∧ c * 2 ^ fractionDigits c n < n * 2 ^ 53 := by
  obtain ⟨d, hd⟩ := Nat.exists_eq_add_of_le (Nat.log_mono_right (b := 2) hcn)
  have hclow := Nat.pow_log_le_self 2 hc.ne'
  have hchigh := Nat.lt_pow_succ_log_self Nat.one_lt_two c
  have hnlow := Nat.pow_log_le_self 2 (Nat.lt_of_lt_of_le hc hcn).ne'
  have hnhigh := Nat.lt_pow_succ_log_self Nat.one_lt_two n
  rw [hd, Nat.pow_add] at hnlow
  rw [hd, Nat.succ_eq_add_one, Nat.pow_succ, Nat.pow_add] at hnhigh
  rw [Nat.pow_succ] at hchigh
  have hdpos : 0 < 2 ^ d := Nat.two_pow_pos d
  have hlead : n * 2 ^ Nat.log 2 c ≤ c * 2 ^ Nat.log 2 n ↔ n ≤ c * 2 ^ d := by
    rw [hd, Nat.pow_add, Nat.mul_left_comm, Nat.mul_comm n]
    exact Nat.mul_le_mul_left_iff (Nat.two_pow_pos _)
  have hlow : 2 ^ Nat.log 2 c * 2 ^ d ≤ c * 2 ^ d := Nat.mul_le_mul_right _ hclow
  have hhigh : c * 2 ^ d < 2 * (2 ^ Nat.log 2 c * 2 ^ d) := by
    rw [← Nat.mul_assoc, Nat.mul_comm 2]
    exact Nat.mul_lt_mul_of_pos_right hchigh hdpos
  have hdigits : 52 + Nat.log 2 n - Nat.log 2 c = d + 52 := by omega
  have hpow (k : Nat) : c * 2 ^ (d + k) = 2 ^ k * (c * 2 ^ d) := by
    rw [Nat.pow_add, ← Nat.mul_assoc, Nat.mul_comm]
  unfold fractionDigits
  rw [hdigits]
  by_cases h : n ≤ c * 2 ^ d
  · rw [if_pos (hlead.2 h), Nat.add_zero, hpow]
    omega
  · rw [if_neg (mt hlead.1 h), Nat.add_assoc, hpow]
    omega

/-- The number nearest to a quotient. -/
theorem nearest_quotient (hc : 0 < c) (hcn : c ≤ n) (hdigits : fractionDigits c n ≤ 1074) :
    nearest (c / n) =
      roundHalfEven ((c * 2 ^ fractionDigits c n : Nat) / n) / 2 ^ fractionDigits c n := by
  obtain ⟨hlow, hhigh⟩ := fractionDigits_spec hc hcn
  generalize fractionDigits c n = s at hlow hhigh hdigits ⊢
  have hn : (0 : Rat) < n := by exact_mod_cast Nat.lt_of_lt_of_le hc hcn
  have hs : (0 : Rat) < 2 ^ s := pow_pos two_pos s
  have hscale (k : Nat) : (2 : Rat) ^ (k - s : Int) = 2 ^ k / 2 ^ s := by
    rw [zpow_sub₀ two_ne_zero, zpow_natCast, zpow_natCast]
  have hplace : place ((c : Rat) / n) = -s := by
    have hge : (2 : Rat) ^ ((52 : Nat) - s : Int) ≤ c / n := by
      rw [hscale, div_le_div_iff₀ hs hn, mul_comm]
      exact_mod_cast hlow
    have hlt : (c / n : Rat) < 2 ^ ((52 : Nat) - s + 1 : Int) := by
      rw [show ((52 : Nat) - s + 1 : Int) = (53 : Nat) - s by push_cast; ring, hscale,
        div_lt_div_iff₀ hn hs, mul_comm _ (n : Rat)]
      exact_mod_cast hhigh
    rw [place_eq hge hlt]
    omega
  rw [nearest, hplace, zpow_neg, zpow_natCast, div_inv_eq_mul, div_eq_mul_inv _ ((2 : Rat) ^ s)]
  congr 3
  push_cast
  ring

/-- A power of two does not leave half of what it is divided by. -/
theorem two_mul_two_pow_mod_ne {a : Nat} (hn : 0 < n) (hle : n ≤ 2 ^ a) : 2 * (2 ^ a % n) ≠ n := by
  intro h
  have hdvd : n ∣ 2 ^ (a + 1) := by
    refine ⟨2 * (2 ^ a / n) + 1, ?_⟩
    have hdiv := Nat.div_add_mod (2 ^ a) n
    rw [Nat.pow_succ, Nat.mul_add, Nat.mul_left_comm]
    omega
  obtain ⟨j, -, rfl⟩ := (Nat.dvd_prime_pow Nat.prime_two).1 hdvd
  have hj : j ≤ a := (Nat.pow_le_pow_iff_right Nat.one_lt_two).1 hle
  rw [Nat.mod_eq_zero_of_dvd (Nat.pow_dvd_pow 2 hj)] at h
  omega

/-- What is left of the fraction when its quotient has been rounded. -/
theorem sub_roundHalfEven_div (N : Nat) (hn : 0 < n) :
    let rest : Int := N - roundHalfEven ((N : Rat) / n) * n
    |2 * rest| ≤ n ∧ (rest = (N % n : Nat) ∨ rest = (N % n : Nat) - n) := by
  intro rest
  have hnQ : (0 : Rat) < n := by exact_mod_cast hn
  have hnear := mul_le_mul_of_nonneg_right (abs_sub_roundHalfEven ((N : Rat) / n)) hnQ.le
  have hscale : ((N : Rat) / n - roundHalfEven ((N : Rat) / n)) * n = (rest : Int) := by
    rw [sub_mul, div_mul_cancel₀ _ hnQ.ne']
    push_cast [rest]
    rfl
  rw [← abs_of_pos hnQ, ← abs_mul, abs_of_pos hnQ, hscale] at hnear
  have hsmall : |2 * rest| ≤ n := by
    rw [abs_mul, abs_two]
    have hQ : (2 : Rat) * |(rest : Rat)| ≤ n := by linarith
    exact_mod_cast hQ
  refine ⟨hsmall, ?_⟩
  -- The rest is a multiple of `n` away from the remainder, and no more than half of it.
  obtain ⟨j, hj⟩ : ∃ j : Int, rest = (N % n : Nat) + n * j := by
    refine ⟨N / n - roundHalfEven ((N : Rat) / n), ?_⟩
    have hdiv := Int.emod_add_mul_ediv (N : Int) n
    push_cast [rest]
    linarith
  have hmod := Nat.mod_lt N hn
  obtain ⟨hlow, hhigh⟩ := abs_le.1 hsmall
  have hn' : (0 : Int) < n := by exact_mod_cast hn
  obtain hpos | hneg | rfl | rfl : 1 ≤ j ∨ j ≤ -2 ∨ j = 0 ∨ j = -1 := by omega
  · have hmul := mul_le_mul_of_nonneg_left hpos hn'.le
    omega
  · have hmul := mul_le_mul_of_nonneg_left hneg hn'.le
    omega
  · exact .inl (by omega)
  · exact .inr (by omega)

/-- The fraction's numerator, of a power of two. -/
theorem mul_two_pow_of_pow (h : c = 2 ^ Nat.log 2 c) (k : Nat) :
    c * 2 ^ k = 2 ^ (Nat.log 2 c + k) := by
  rw [Nat.pow_add, ← h]

/-- A power of two whose leading digits are those of `n`, which then is one too, leaves
nothing. -/
theorem mod_eq_zero_of_leads (hc : 0 < c) (hcn : c ≤ n)
    (hlead : n * 2 ^ Nat.log 2 c ≤ c * 2 ^ Nat.log 2 n) (h : c = 2 ^ Nat.log 2 c) :
    c * 2 ^ fractionDigits c n % n = 0 := by
  have hn0 : 0 < n := Nat.lt_of_lt_of_le hc hcn
  have hle : n ≤ c * 2 ^ fractionDigits c n :=
    Nat.le_trans (Nat.le_mul_of_pos_right n (by decide)) (fractionDigits_spec hc hcn).1
  have hlow : 2 ^ Nat.log 2 n ≤ n := Nat.pow_log_le_self 2 hn0.ne'
  have hn : n = 2 ^ Nat.log 2 n := by
    rw [← h, Nat.mul_comm] at hlead
    exact Nat.le_antisymm (Nat.le_of_mul_le_mul_left hlead hc) hlow
  rw [mul_two_pow_of_pow h] at hle ⊢
  have hdvd : 2 ^ Nat.log 2 n ∣ 2 ^ (Nat.log 2 c + fractionDigits c n) :=
    Nat.pow_dvd_pow 2 ((Nat.pow_le_pow_iff_right Nat.one_lt_two).1 (Nat.le_trans hlow hle))
  rw [← hn] at hdvd
  exact Nat.mod_eq_zero_of_dvd hdvd

/-- No power of two leaves a half. -/
theorem two_mul_mod_ne_of_pow (hc : 0 < c) (hcn : c ≤ n) (h : c = 2 ^ Nat.log 2 c) :
    2 * (c * 2 ^ fractionDigits c n % n) ≠ n := by
  have hle : n ≤ c * 2 ^ fractionDigits c n :=
    Nat.le_trans (Nat.le_mul_of_pos_right n (by decide)) (fractionDigits_spec hc hcn).1
  rw [mul_two_pow_of_pow h] at hle ⊢
  exact two_mul_two_pow_mod_ne (Nat.lt_of_lt_of_le hc hcn) hle

/-- The bounds on what is left, in the digits of the two numbers. -/
theorem recovers_iff_rest {rest : Int} (hc : 0 < c) (hcn : c ≤ n) (hsmall : |2 * rest| ≤ n)
    (hrest : rest = (c * 2 ^ fractionDigits c n % n : Nat) ∨
      rest = (c * 2 ^ fractionDigits c n % n : Nat) - n) :
    ((if c = 2 ^ Nat.log 2 c then 4 * rest ≤ 2 ^ (fractionDigits c n + Nat.log 2 c - 52)
        else 2 * rest ≤ 2 ^ (fractionDigits c n + Nat.log 2 c - 52)) ∧
      -(2 * rest) ≤ 2 ^ (fractionDigits c n + Nat.log 2 c - 52)) ↔ Recovers c n := by
  have hn0 : 0 < n := Nat.lt_of_lt_of_le hc hcn
  have hlogs : Nat.log 2 c ≤ Nat.log 2 n := Nat.log_mono_right hcn
  have hlow : 2 ^ Nat.log 2 n ≤ n := Nat.pow_log_le_self 2 hn0.ne'
  have hhigh : n < 2 ^ Nat.log 2 n * 2 := Nat.lt_pow_succ_log_self Nat.one_lt_two n
  have hmod := Nat.mod_lt (c * 2 ^ fractionDigits c n) hn0
  obtain ⟨hl, hr⟩ := abs_le.1 hsmall
  have hcast : ((2 ^ Nat.log 2 n : Nat) : Int) = 2 ^ Nat.log 2 n := by push_cast; rfl
  unfold Recovers
  dsimp only
  by_cases hlead : n * 2 ^ Nat.log 2 c ≤ c * 2 ^ Nat.log 2 n
  · have hdigits : fractionDigits c n + Nat.log 2 c - 52 = Nat.log 2 n := by
      rw [fractionDigits, if_pos hlead]
      omega
    have hzero := mod_eq_zero_of_leads hc hcn hlead
    rw [hdigits, ← hcast]
    generalize c * 2 ^ fractionDigits c n % n = ρ at *
    generalize 2 ^ Nat.log 2 n = T at *
    simp only [hlead, true_imp_iff]
    split
    · next h =>
        have hzero := hzero h
        simp only [h.symm, true_imp_iff]
        omega
    · next h =>
        simp only [h, false_imp_iff, and_true]
        omega
  · have hdigits : fractionDigits c n + Nat.log 2 c - 52 = Nat.log 2 n + 1 := by
      rw [fractionDigits, if_neg hlead]
      omega
    have htie := two_mul_mod_ne_of_pow hc hcn
    rw [hdigits, Int.pow_succ, ← hcast]
    generalize c * 2 ^ fractionDigits c n % n = ρ at *
    generalize 2 ^ Nat.log 2 n = T at *
    simp only [hlead, false_imp_iff, true_and]
    split
    · next h =>
        have htie := htie h
        simp only [h.symm, true_imp_iff]
        omega
    · next h =>
        simp only [h, false_imp_iff, iff_true]
        omega

/-- Below `2 ^ 52` the last place is worth a half at most. -/
theorem two_zpow_place_le_half {z : Rat} (hz : 0 < z) (hz' : z < 2 ^ 52) :
    (2 : Rat) ^ place z ≤ 1 / 2 := by
  obtain ⟨e, hge, hlt⟩ := exists_binade hz
  have he : (2 : Rat) ^ e < 2 ^ (52 : Int) := lt_of_le_of_lt hge (by rwa [zpow_ofNat])
  have he : e < 52 := (zpow_lt_zpow_iff_right₀ one_lt_two).1 he
  rw [place_eq hge hlt, show (1 : Rat) / 2 = 2 ^ (-1 : Int) by norm_num]
  exact zpow_le_zpow_right₀ one_le_two (by omega)

/-- What is less than a half from an integer is rounded to no other one. -/
theorem eq_of_nearest_near {z : Rat} (hc' : 0 < c') (hlt : c' < 2 ^ 52)
    (hnear : |(c' : Rat) - z| < 1 / 2) (h : nearest z = c) : c = c' := by
  obtain ⟨hlow, hhigh⟩ := abs_lt.1 hnear
  have hone : (1 : Rat) ≤ c' := by exact_mod_cast hc'
  have hbound : ((c' : Rat) + 1) ≤ 2 ^ 52 := by exact_mod_cast hlt
  have hplace := two_zpow_place_le_half (z := z) (by linarith) (by linarith)
  -- The rounding is off by a quarter at most.
  have hround := abs_sub_nearest z
  rw [h, abs_le] at hround
  have hless : |(c : Rat) - c'| < 1 := by
    rw [abs_lt]
    constructor <;> linarith
  have hint : |(c : Int) - c'| < 1 := by exact_mod_cast hless
  have hzero := Int.abs_lt_one_iff.1 hint
  omega

/-- No other number comes back for a quotient. -/
theorem eq_of_nearest_quotient (hn0 : 0 < n) (hcn : c' ≤ n) (hn : n < 2 ^ 52)
    (h : nearest (nearest (c' / n) * n) = c) : c = c' := by
  obtain rfl | hc := Nat.eq_zero_or_pos c'
  · rw [Nat.cast_zero, zero_div, nearest_zero, zero_mul, nearest_zero] at h
    exact_mod_cast h.symm
  have hlogn : Nat.log 2 n ≤ 51 := Nat.lt_succ_iff.1 (Nat.log_lt_of_lt_pow hn0.ne' hn)
  have hlogs : Nat.log 2 c' ≤ Nat.log 2 n := Nat.log_mono_right hcn
  obtain ⟨hqlow, -⟩ := fractionDigits_spec hc hcn
  have hdigits : fractionDigits c' n ≤ 1074 := by
    unfold fractionDigits
    split <;> omega
  obtain ⟨hsmall, -⟩ := sub_roundHalfEven_div (c' * 2 ^ fractionDigits c' n) hn0
  rw [nearest_quotient hc hcn hdigits] at h
  generalize roundHalfEven ((c' * 2 ^ fractionDigits c' n : Nat) / n) = k at *
  generalize fractionDigits c' n = s at *
  have hs : (0 : Rat) < 2 ^ s := pow_pos two_pos s
  -- The product is off by less than a half.
  have hfew : n < 2 ^ s := by
    have hlt : n * 2 ^ 52 < 2 ^ 52 * 2 ^ s :=
      Nat.lt_of_le_of_lt hqlow (Nat.mul_lt_mul_of_pos_right (by omega) (Nat.two_pow_pos s))
    rw [Nat.mul_comm] at hlt
    exact Nat.lt_of_mul_lt_mul_left hlt
  have hproduct : |(c' : Rat) - k / 2 ^ s * n| < 1 / 2 := by
    have hscale : ((c' : Rat) - k / 2 ^ s * n) * 2 ^ s =
        (((c' * 2 ^ s : Nat) : Int) - k * n : Int) := by
      rw [sub_mul, mul_right_comm, div_mul_cancel₀ _ hs.ne']
      push_cast
      rfl
    have hrest : (2 : Rat) * |((((c' * 2 ^ s : Nat) : Int) - k * n : Int) : Rat)| ≤ n := by
      rw [abs_mul, abs_two] at hsmall
      exact_mod_cast hsmall
    rw [← hscale, abs_mul, abs_of_pos hs] at hrest
    have hfewQ : (n : Rat) < 2 ^ s := by exact_mod_cast hfew
    rw [← mul_lt_mul_iff_left₀ hs]
    linarith
  exact eq_of_nearest_near hc (by omega) hproduct h

/-- What is rounded to an integer of up to 52 digits. -/
theorem nearest_eq_natCast_iff {z : Rat} (hc : 0 < c) (hc' : c < 2 ^ 52) (hz : 0 < z) :
    nearest z = c ↔
      (if c = 2 ^ Nat.log 2 c then (c : Rat) - 2 ^ Nat.log 2 c / 2 ^ 54 ≤ z
        else (c : Rat) - 2 ^ Nat.log 2 c / 2 ^ 53 ≤ z) ∧
        z ≤ c + 2 ^ Nat.log 2 c / 2 ^ 53 := by
  have hlog : Nat.log 2 c ≤ 51 := Nat.lt_succ_iff.1 (Nat.log_lt_of_lt_pow hc.ne' hc')
  have hlow := Nat.pow_log_le_self 2 hc.ne'
  have hhigh := Nat.lt_pow_succ_log_self Nat.one_lt_two c
  obtain ⟨d, hd⟩ := Nat.exists_eq_add_of_le' hlog
  generalize Nat.log 2 c = l at hlog hlow hhigh hd ⊢
  -- `c` as a number of 53 digits.
  have hdpos := Nat.two_pow_pos (d + 1)
  have hlast : (2 : Rat) ^ (l - 52 : Int) = 2 ^ l / 2 ^ 52 := by
    rw [zpow_sub₀ two_ne_zero, zpow_natCast]
    rfl
  have hsplit : (2 : Rat) ^ 52 = 2 ^ (d + 1) * 2 ^ l := by
    rw [← pow_add]
    congr 1
    omega
  have hnum : (((c * 2 ^ (d + 1) : Nat) : Int) : Rat) * 2 ^ (l - 52 : Int) = c := by
    rw [hlast, hsplit]
    push_cast
    field_simp
  have hdigits : (2 : Nat) ^ 52 = 2 ^ l * 2 ^ (d + 1) := by
    rw [← Nat.pow_add]
    congr 1
    omega
  have hm : 2 ^ 52 ≤ c * 2 ^ (d + 1) ∧ c * 2 ^ (d + 1) < 2 ^ 53 := by
    rw [Nat.pow_succ] at hhigh
    rw [Nat.pow_succ 2 52, hdigits, Nat.mul_right_comm]
    exact ⟨Nat.mul_le_mul_right _ hlow, Nat.mul_lt_mul_of_pos_right hhigh hdpos⟩
  have hpow : ((c * 2 ^ (d + 1) : Nat) : Int) = 2 ^ 52 ↔ c = 2 ^ l := by
    rw [show (2 : Int) ^ 52 = ((2 ^ 52 : Nat) : Int) from rfl, Int.natCast_inj, hdigits,
      Nat.mul_left_inj hdpos.ne']
  have hiff := @nearest_eq_iff z (l - 52) (c * 2 ^ (d + 1) : Nat) (by exact_mod_cast hm.1)
    (by exact_mod_cast hm.2) (by rw [Nat.pow_succ, ← Nat.mul_assoc]; omega) (by omega) hz
  rw [hnum, hlast] at hiff
  simp only [hpow] at hiff
  rw [hiff, div_div, div_div]
  norm_num

/-- **A quotient comes back** when it is multiplied, exactly for the fractions that
recover. -/
theorem nearest_quotient_mul_iff (hn0 : 0 < n) (hcn : c ≤ n) (hn : n < 2 ^ 52) :
    nearest (nearest (c / n) * n) = c ↔ Recovers c n := by
  obtain rfl | hc := Nat.eq_zero_or_pos c
  · refine iff_of_true ?_ ?_
    · rw [Nat.cast_zero, zero_div, nearest_zero, zero_mul, nearest_zero]
    · simp [Recovers, hn0.ne']
  have hlogn : Nat.log 2 n ≤ 51 := Nat.lt_succ_iff.1 (Nat.log_lt_of_lt_pow hn0.ne' hn)
  have hlogs : Nat.log 2 c ≤ Nat.log 2 n := Nat.log_mono_right hcn
  obtain ⟨hqlow, -⟩ := fractionDigits_spec hc hcn
  have hdigits : 52 ≤ fractionDigits c n ∧ fractionDigits c n ≤ 104 := by
    unfold fractionDigits
    split <;> omega
  obtain ⟨hsmall, hrest⟩ := sub_roundHalfEven_div (c * 2 ^ fractionDigits c n) hn0
  have hquot : (2 ^ 52 : Int) ≤ roundHalfEven ((c * 2 ^ fractionDigits c n : Nat) / n) := by
    refine le_roundHalfEven ?_
    rw [le_div_iff₀ (by exact_mod_cast hn0), mul_comm]
    exact_mod_cast hqlow
  rw [nearest_quotient hc hcn (by omega), ← recovers_iff_rest hc hcn hsmall hrest]
  generalize roundHalfEven ((c * 2 ^ fractionDigits c n : Nat) / n) = k at *
  generalize fractionDigits c n = s at *
  have hs : (0 : Rat) < 2 ^ s := pow_pos two_pos s
  have hkpos : (0 : Rat) < k := by exact_mod_cast (by omega : 0 < k)
  have hz : (0 : Rat) < k / 2 ^ s * n :=
    mul_pos (div_pos hkpos hs) (by exact_mod_cast hn0)
  rw [nearest_eq_natCast_iff hc (Nat.lt_of_le_of_lt hcn hn) hz]
  -- Both bounds, times `2 ^ s`.
  have hback : (k : Rat) / 2 ^ s * n * 2 ^ s = k * n := by
    rw [mul_right_comm, div_mul_cancel₀ _ hs.ne']
  have hlast : (2 : Rat) ^ Nat.log 2 c * 2 ^ s = 2 ^ 52 * 2 ^ (s + Nat.log 2 c - 52) := by
    rw [← pow_add, ← pow_add]
    congr 1
    omega
  generalize s + Nat.log 2 c - 52 = D at hlast ⊢
  have hbelow (a : Nat) : (c : Rat) - 2 ^ Nat.log 2 c / 2 ^ (52 + a) ≤ k / 2 ^ s * n ↔
      2 ^ a * (((c * 2 ^ s : Nat) : Int) - k * n) ≤ 2 ^ D := by
    rw [← mul_le_mul_iff_left₀ hs, hback, sub_mul, div_mul_eq_mul_div, hlast, pow_add,
      mul_div_mul_left _ _ (by norm_num), sub_le_comm, le_div_iff₀' (by positivity),
      ← @Int.cast_le Rat]
    push_cast
    rfl
  have habove : (k : Rat) / 2 ^ s * n ≤ c + 2 ^ Nat.log 2 c / 2 ^ 53 ↔
      -(2 * (((c * 2 ^ s : Nat) : Int) - k * n)) ≤ 2 ^ D := by
    rw [← mul_le_mul_iff_left₀ hs, hback, add_mul, div_mul_eq_mul_div, hlast, ← @Int.cast_le Rat]
    push_cast
    constructor <;> intro h <;> linarith
  rw [habove, hbelow 2, hbelow 1]
  norm_num

end quotient

end Binary64

end NeuroVoice
