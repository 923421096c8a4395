import NeuroVoice.Py
import Mathlib.Tactic.Linarith

/-!
# NeuroVoice.Audio.Samples

PCM buffers as NumPy arrays of `int16`.

Arithmetic of `int16` wraps around, also in `np.abs`: the absolute value of
-32768 is -32768.
-/

namespace NeuroVoice.Audio

/-! ## buffers -/

/-- The sample of two bytes, low byte first. -/
def sampleOf (lo hi : UInt8) : Int16 := Int16.ofInt (lo.toNat + 256 * hi.toNat)

/-- `np.frombuffer(b, dtype=np.int16)`. -/
def frombuffer : List UInt8 → Except Foreign (List Int16)
  | [] => .ok []
  | [_] => .error (.valueError "buffer size must be a multiple of element size")
  | lo :: hi :: b => (frombuffer b).map (sampleOf lo hi :: ·)

/-- The bytes of a sample. -/
def bytesOf (s : Int16) : List UInt8 :=
  let n := (s.toInt % 65536).toNat
  [UInt8.ofNat n, UInt8.ofNat (n / 256)]

/-- `arr.tobytes()`. -/
def tobytes (xs : List Int16) : List UInt8 := xs.flatMap bytesOf

/-- `astype(np.int16)` wraps around. -/
theorem toInt_ofInt (n : Int) : (Int16.ofInt n).toInt = (n + 32768) % 65536 - 32768 := by
  rw [Int16.toInt_ofInt, Int.bmod_def]
  simp only [Int16.size]
  split <;> omega

/-- Inside the range it changes nothing. -/
theorem toInt_ofInt_of_mem {n : Int} (hlow : -32768 ≤ n) (hhigh : n ≤ 32767) :
    (Int16.ofInt n).toInt = n := by
  rw [toInt_ofInt]
  omega

theorem toInt_mem (s : Int16) : -32768 ≤ s.toInt ∧ s.toInt ≤ 32767 := by
  have hlow := s.le_toInt
  have hhigh := s.toInt_lt
  omega

/-- A sample comes back from its bytes. -/
theorem sampleOf_bytes (s : Int16) :
    sampleOf (UInt8.ofNat (s.toInt % 65536).toNat) (UInt8.ofNat ((s.toInt % 65536).toNat / 256)) =
      s := by
  have hs := toInt_mem s
  rw [sampleOf, UInt8.toNat_ofNat', UInt8.toNat_ofNat', ← Int16.toInt_inj, toInt_ofInt]
  omega

/-- Samples come back from their bytes. -/
theorem frombuffer_tobytes (xs : List Int16) : frombuffer (tobytes xs) = .ok xs := by
  induction xs with
  | nil => rfl
  | cons s xs ih =>
      have hcons : tobytes (s :: xs) = UInt8.ofNat (s.toInt % 65536).toNat ::
          UInt8.ofNat ((s.toInt % 65536).toNat / 256) :: tobytes xs := rfl
      rw [hcons, frombuffer, ih, sampleOf_bytes]
      rfl

/-- A buffer is read exactly if its length is even, two bytes a sample. -/
theorem frombuffer_cases (b : List UInt8) :
    (∃ xs, frombuffer b = .ok xs ∧ b.length = 2 * xs.length) ∨
      b.length % 2 = 1 ∧ ∃ m, frombuffer b = .error (.valueError m) := by
  induction b using frombuffer.induct with
  | case1 => exact .inl ⟨[], rfl, rfl⟩
  | case2 => exact .inr ⟨rfl, _, rfl⟩
  | case3 lo hi b ih =>
      rw [frombuffer]
      obtain ⟨xs, hxs, hlen⟩ | ⟨hodd, m, hm⟩ := ih
      · rw [hxs]
        refine .inl ⟨_, rfl, ?_⟩
        simp only [List.length_cons]
        omega
      · rw [hm]
        refine .inr ⟨?_, m, rfl⟩
        simp only [List.length_cons]
        omega

theorem length_of_frombuffer {b : List UInt8} {xs : List Int16} (h : frombuffer b = .ok xs) :
    b.length = 2 * xs.length := by
  obtain ⟨ys, hys, hlen⟩ | ⟨-, m, hm⟩ := frombuffer_cases b
  · rw [h] at hys
    cases hys
    exact hlen
  · rw [h] at hm
    cases hm

/-! ## absolute values -/

/-- `np.abs` of an `int16`. -/
def npAbs (s : Int16) : Int16 := Int16.ofInt |s.toInt|

/-- The absolute value, but for -32768. -/
theorem toInt_npAbs {s : Int16} (h : s ≠ Int16.minValue) : (npAbs s).toInt = |s.toInt| := by
  have hs := toInt_mem s
  have hne : s.toInt ≠ -32768 := fun heq => h (Int16.toInt_inj.1 heq)
  refine toInt_ofInt_of_mem ?_ ?_
  · have hnonneg := abs_nonneg s.toInt
    omega
  · rw [abs_le]
    omega

@[simp] theorem toInt_npAbs_minValue : (npAbs Int16.minValue).toInt = -32768 := by decide

end NeuroVoice.Audio
