import Mathlib.Data.List.Basic

/-!
# NeuroVoice.Lib.Base64

Base64, over texts as lists of code points.

The decoder is the lenient one: code points outside the alphabet are skipped,
padding counts only where a group of four lacks characters, and nothing is read
after it.  `decode_encode` is the round trip.
-/

namespace NeuroVoice.Base64

/-- The character of a sextet. -/
def char (n : Nat) : Nat :=
  if n < 26 then 0x41 + n
  else if n < 52 then 0x47 + n
  else if n < 62 then n - 4
  else if n = 62 then 0x2B
  else 0x2F

/-- The sextet of a character. -/
def sextet (c : Nat) : Option Nat :=
  if 0x41 ≤ c ∧ c ≤ 0x5A then some (c - 0x41)
  else if 0x61 ≤ c ∧ c ≤ 0x7A then some (c - 0x47)
  else if 0x30 ≤ c ∧ c ≤ 0x39 then some (c + 4)
  else if c = 0x2B then some 62
  else if c = 0x2F then some 63
  else none

/-- `=`. -/
def pad : Nat := 0x3D

/-- Three bytes become four characters. -/
def encode : List UInt8 → List Nat
  | [] => []
  | [a] => [char (a.toNat / 4), char (a.toNat % 4 * 16), pad, pad]
  | [a, b] =>
      [char (a.toNat / 4), char (a.toNat % 4 * 16 + b.toNat / 16), char (b.toNat % 16 * 4), pad]
  | a :: b :: c :: rest =>
      char (a.toNat / 4) :: char (a.toNat % 4 * 16 + b.toNat / 16) ::
        char (b.toNat % 16 * 4 + c.toNat / 64) :: char (c.toNat % 64) :: encode rest

/-- Where the decoder stands in a group of four characters: the bits it has not
written yet and, after two characters, whether padding has begun. -/
inductive Quad where
  | start
  | one (left : Nat)
  | two (left : Nat) (padded : Bool)
  | three (left : Nat)

/-- Why a text is no Base64. -/
inductive DecodeError where
  /-- A single character is left over, after so many bytes. -/
  | oneOver (bytes : Nat)
  | incorrectPadding

/-- The rest of a text, after `n` bytes. -/
def decodeFrom : Quad → Nat → List Nat → Except DecodeError (List UInt8)
  | .start, _, [] => .ok []
  | .one _, n, [] => .error (.oneOver n)
  | .two _ _, _, [] | .three _, _, [] => .error .incorrectPadding
  | q, n, c :: cs =>
      if c = pad then
        match q with
        | .start | .one _ => decodeFrom q n cs
        | .two left false => decodeFrom (.two left true) n cs
        -- the group is complete: nothing more is read
        | .two _ true | .three _ => .ok []
      else
        match sextet c, q with
        | none, _ => decodeFrom q n cs
        | some v, .start => decodeFrom (.one v) n cs
        | some v, .one left =>
            (decodeFrom (.two (v % 16) false) (n + 1) cs).map (UInt8.ofNat (left * 4 + v / 16) :: ·)
        | some v, .two left _ =>
            (decodeFrom (.three (v % 4)) (n + 1) cs).map (UInt8.ofNat (left * 16 + v / 4) :: ·)
        | some v, .three left =>
            (decodeFrom .start (n + 1) cs).map (UInt8.ofNat (left * 64 + v) :: ·)

/-- The decoder. -/
def decode (s : List Nat) : Except DecodeError (List UInt8) := decodeFrom .start 0 s

theorem sextet_char {n : Nat} (h : n < 64) : sextet (char n) = some n := by
  revert n
  decide

theorem char_ne_pad {n : Nat} (h : n < 64) : char n ≠ pad := by
  revert n
  decide

/-- Characters are ASCII. -/
theorem char_lt {n : Nat} (h : n < 64) : char n < 0x80 := by
  revert n
  decide

section sextets

variable (a b c : UInt8)

theorem first_lt : a.toNat / 4 < 64 := by
  have := a.toNat_lt
  omega

theorem second_lt : a.toNat % 4 * 16 + b.toNat / 16 < 64 := by
  have := b.toNat_lt
  omega

theorem third_lt : b.toNat % 16 * 4 + c.toNat / 64 < 64 := by
  have := c.toNat_lt
  omega

theorem fourth_lt : c.toNat % 64 < 64 := Nat.mod_lt _ (by decide)

end sextets

/-- A text is of padding and characters. -/
theorem mem_encode {bs : List UInt8} {x : Nat} (h : x ∈ encode bs) :
    x = pad ∨ ∃ n < 64, x = char n := by
  induction bs using encode.induct with
  | case1 => cases h
  | case2 a =>
      have hsecond := second_lt a 0
      simp only [encode, List.mem_cons, List.not_mem_nil, or_false] at h
      obtain rfl | rfl | rfl | rfl := h
      · exact .inr ⟨_, first_lt a, rfl⟩
      · exact .inr ⟨_, hsecond, rfl⟩
      · exact .inl rfl
      · exact .inl rfl
  | case3 a b =>
      have hthird := third_lt b 0
      simp only [encode, List.mem_cons, List.not_mem_nil, or_false] at h
      obtain rfl | rfl | rfl | rfl := h
      · exact .inr ⟨_, first_lt a, rfl⟩
      · exact .inr ⟨_, second_lt a b, rfl⟩
      · exact .inr ⟨_, hthird, rfl⟩
      · exact .inl rfl
  | case4 a b c rest ih =>
      simp only [encode, List.mem_cons] at h
      obtain rfl | rfl | rfl | rfl | h := h
      · exact .inr ⟨_, first_lt a, rfl⟩
      · exact .inr ⟨_, second_lt a b, rfl⟩
      · exact .inr ⟨_, third_lt b c, rfl⟩
      · exact .inr ⟨_, fourth_lt c, rfl⟩
      · exact ih h

/-- Texts are ASCII. -/
theorem mem_encode_lt {bs : List UInt8} {x : Nat} (h : x ∈ encode bs) : x < 0x80 := by
  obtain rfl | ⟨n, hn, rfl⟩ := mem_encode h
  · decide
  · exact char_lt hn

section bytes

variable (a b c : UInt8)

theorem first_byte : UInt8.ofNat (a.toNat / 4 * 4 + (a.toNat % 4 * 16 + b.toNat / 16) / 16) = a := by
  have hb := b.toNat_lt
  have heq : a.toNat / 4 * 4 + (a.toNat % 4 * 16 + b.toNat / 16) / 16 = a.toNat := by omega
  rw [heq, UInt8.ofNat_toNat]

theorem second_byte : UInt8.ofNat ((a.toNat % 4 * 16 + b.toNat / 16) % 16 * 16 +
    (b.toNat % 16 * 4 + c.toNat / 64) / 4) = b := by
  have hb := b.toNat_lt
  have hc := c.toNat_lt
  have heq : (a.toNat % 4 * 16 + b.toNat / 16) % 16 * 16 +
      (b.toNat % 16 * 4 + c.toNat / 64) / 4 = b.toNat := by omega
  rw [heq, UInt8.ofNat_toNat]

theorem third_byte :
    UInt8.ofNat ((b.toNat % 16 * 4 + c.toNat / 64) % 4 * 64 + c.toNat % 64) = c := by
  have hc := c.toNat_lt
  have heq : (b.toNat % 16 * 4 + c.toNat / 64) % 4 * 64 + c.toNat % 64 = c.toNat := by omega
  rw [heq, UInt8.ofNat_toNat]

end bytes

section steps

variable {v n left : Nat} {cs : List Nat}

theorem decodeFrom_first (hv : v < 64) :
    decodeFrom .start n (char v :: cs) = decodeFrom (.one v) n cs := by
  simp only [decodeFrom, char_ne_pad hv, sextet_char hv, if_false]

theorem decodeFrom_second (hv : v < 64) : decodeFrom (.one left) n (char v :: cs) =
    (decodeFrom (.two (v % 16) false) (n + 1) cs).map (UInt8.ofNat (left * 4 + v / 16) :: ·) := by
  simp only [decodeFrom, char_ne_pad hv, sextet_char hv, if_false]

theorem decodeFrom_third (hv : v < 64) : decodeFrom (.two left false) n (char v :: cs) =
    (decodeFrom (.three (v % 4)) (n + 1) cs).map (UInt8.ofNat (left * 16 + v / 4) :: ·) := by
  simp only [decodeFrom, char_ne_pad hv, sextet_char hv, if_false]

theorem decodeFrom_fourth (hv : v < 64) : decodeFrom (.three left) n (char v :: cs) =
    (decodeFrom .start (n + 1) cs).map (UInt8.ofNat (left * 64 + v) :: ·) := by
  simp only [decodeFrom, char_ne_pad hv, sextet_char hv, if_false]

end steps

/-- What is encoded is read back, one group after the other. -/
theorem decodeFrom_encode (bs : List UInt8) (n : Nat) : decodeFrom .start n (encode bs) = .ok bs := by
  induction bs using encode.induct generalizing n with
  | case1 => rfl
  | case2 a =>
      have hbyte := first_byte a 0
      have hsecond := second_lt a 0
      simp only [UInt8.toNat_zero, Nat.zero_div, Nat.add_zero] at hbyte hsecond
      rw [encode, decodeFrom_first (first_lt a), decodeFrom_second hsecond, hbyte]
      simp [decodeFrom, Except.map]
  | case3 a b =>
      have hbyte := second_byte a b 0
      have hthird := third_lt b 0
      simp only [UInt8.toNat_zero, Nat.zero_div, Nat.add_zero] at hbyte hthird
      rw [encode, decodeFrom_first (first_lt a), decodeFrom_second (second_lt a b),
        decodeFrom_third hthird, first_byte a b, hbyte]
      simp [decodeFrom, Except.map]
  | case4 a b c rest ih =>
      rw [encode, decodeFrom_first (first_lt a), decodeFrom_second (second_lt a b),
        decodeFrom_third (third_lt b c), decodeFrom_fourth (fourth_lt c), ih, first_byte a b,
        second_byte a b c, third_byte b c]
      rfl

/-- **Round trip.** -/
theorem decode_encode (bs : List UInt8) : decode (encode bs) = .ok bs := decodeFrom_encode bs 0

/-- Padding by itself is nothing, and after a whole group it is skipped. -/
example : decode [pad, pad, pad, pad] = .ok [] ∧
    decode (encode [1, 2, 3] ++ [pad]) = .ok [1, 2, 3] := ⟨rfl, rfl⟩

/-- Only nothing is encoded by the empty text. -/
theorem encode_eq_nil {bs : List UInt8} : encode bs = [] ↔ bs = [] := by
  constructor
  · intro h
    have hdecode := decode_encode bs
    rw [h] at hdecode
    exact (Except.ok.inj hdecode).symm
  · rintro rfl
    rfl

end NeuroVoice.Base64
