import Mathlib.Data.List.Basic

/-!
# NeuroVoice.Lib.Percent

Percent escapes in texts, and UTF-8 read with replacement characters.

An escape is three characters for one byte, and bytes read as UTF-8 make at
most one character each.  So undoing escapes never makes a text longer
(`length_unquote_le`), it makes a text with an escape shorter
(`length_unquote_lt`), and it leaves every other text alone (`unquote_eq_self`).
-/

namespace NeuroVoice.Percent

/-! ## UTF-8 with replacement -/

/-- U+FFFD. -/
def replacement : Nat := 0xFFFD

/-- What a lead byte says: how many bytes follow, between which bounds the first
of them is, and the bits it contributes. -/
def lead (b : Nat) : Option (Nat × Nat × Nat × Nat) :=
  if 0xC2 ≤ b ∧ b ≤ 0xDF then some (1, 0x80, 0xBF, b - 0xC0)
  else if b = 0xE0 then some (2, 0xA0, 0xBF, 0)
  else if b = 0xED then some (2, 0x80, 0x9F, 0xD)
  else if 0xE1 ≤ b ∧ b ≤ 0xEF then some (2, 0x80, 0xBF, b - 0xE0)
  else if b = 0xF0 then some (3, 0x90, 0xBF, 0)
  else if 0xF1 ≤ b ∧ b ≤ 0xF3 then some (3, 0x80, 0xBF, b - 0xF0)
  else if b = 0xF4 then some (3, 0x80, 0x8F, 4)
  else none

/-- Read `n` more bytes of a character: the character, or the replacement for
what was read, and how many bytes that were. -/
def tails : Nat → Nat → Nat → Nat → List Nat → Nat × Nat
  | 0, _, _, bits, _ => (bits, 0)
  | _ + 1, _, _, _, [] => (replacement, 0)
  | n + 1, low, high, bits, b :: bs =>
      if low ≤ b ∧ b ≤ high then
        let (c, k) := tails n 0x80 0xBF (bits * 64 + (b - 0x80)) bs
        (c, k + 1)
      else (replacement, 0)

/-- The character that begins with `b`, and the number of bytes behind `b` that
belong to it. -/
def character (b : Nat) (bs : List Nat) : Nat × Nat :=
  if b < 0x80 then (b, 0)
  else
    match lead b with
    | some (n, low, high, bits) => tails n low high bits bs
    | none => (replacement, 0)

/-- Bytes as UTF-8, a replacement character for each broken sequence; `skip`
counts bytes of a character still to be passed. -/
def decodeReplace : Nat → List Nat → List Nat
  | _, [] => []
  | skip + 1, _ :: bs => decodeReplace skip bs
  | 0, b :: bs => (character b bs).1 :: decodeReplace (character b bs).2 bs

theorem length_decodeReplace_le (skip : Nat) (bs : List Nat) :
    (decodeReplace skip bs).length ≤ bs.length := by
  induction bs generalizing skip with
  | nil => simp [decodeReplace]
  | cons b bs ih =>
      cases skip with
      | zero =>
          have hrest := ih (character b bs).2
          simp only [decodeReplace, List.length_cons]
          omega
      | succ skip =>
          have hrest := ih skip
          simp only [decodeReplace, List.length_cons]
          omega

theorem decodeReplace_ascii {bs : List Nat} (h : ∀ b ∈ bs, b < 0x80) : decodeReplace 0 bs = bs := by
  induction bs with
  | nil => rfl
  | cons b bs ih =>
      have hb : b < 0x80 := h b (by simp)
      have hrest := ih fun c hc => h c (by simp [hc])
      simp [decodeReplace, character, hb, hrest]

/-! ## escapes -/

/-- The value of a hexadecimal digit. -/
def hexValue (c : Nat) : Option Nat :=
  if 0x30 ≤ c ∧ c ≤ 0x39 then some (c - 0x30)
  else if 0x41 ≤ c ∧ c ≤ 0x46 then some (c - 0x37)
  else if 0x61 ≤ c ∧ c ≤ 0x66 then some (c - 0x57)
  else none

/-- Undo the escapes behind `run`, the bytes of an ASCII run so far: the bytes of
a run are read as UTF-8, other characters are kept. -/
def unquoteFrom : List Nat → List Nat → List Nat
  | run, [] => decodeReplace 0 run
  | run, 0x25 :: a :: b :: rest =>
      match hexValue a, hexValue b with
      | some x, some y => unquoteFrom (run ++ [16 * x + y]) rest
      | _, _ => unquoteFrom (run ++ [0x25]) (a :: b :: rest)
  | run, c :: rest =>
      if c < 0x80 then unquoteFrom (run ++ [c]) rest
      else decodeReplace 0 run ++ c :: unquoteFrom [] rest

/-- Undo the escapes of a text. -/
def unquote (s : List Nat) : List Nat := unquoteFrom [] s

/-- A `%` with two hexadecimal digits behind it. -/
def hasEscape : List Nat → Bool
  | [] => false
  | 0x25 :: a :: b :: rest =>
      ((hexValue a).isSome && (hexValue b).isSome) || hasEscape (a :: b :: rest)
  | _ :: rest => hasEscape rest

theorem length_unquoteFrom_le (run s : List Nat) :
    (unquoteFrom run s).length ≤ run.length + s.length := by
  fun_induction unquoteFrom run s with
  | case1 run => simpa using length_decodeReplace_le 0 run
  | case2 run a b rest x y hy hx ih =>
      simp only [List.length_append, List.length_cons, List.length_nil] at ih ⊢
      omega
  | case3 run a b rest hnot ih =>
      simp only [List.length_append, List.length_cons, List.length_nil] at ih ⊢
      omega
  | case4 run c rest hshape hc ih =>
      simp only [List.length_append, List.length_cons, List.length_nil] at ih ⊢
      omega
  | case5 run c rest hshape hc ih =>
      have hrun := length_decodeReplace_le 0 run
      simp only [List.length_append, List.length_cons, List.length_nil] at ih ⊢
      omega

theorem length_unquoteFrom_lt (run s : List Nat) (h : hasEscape s = true) :
    (unquoteFrom run s).length < run.length + s.length := by
  fun_induction unquoteFrom run s with
  | case1 run => simp [hasEscape] at h
  | case2 run a b rest x y hy hx ih =>
      have hrest := length_unquoteFrom_le (run ++ [16 * x + y]) rest
      simp only [List.length_append, List.length_cons, List.length_nil] at hrest ⊢
      omega
  | case3 run a b rest hnot ih =>
      have hrest : hasEscape (a :: b :: rest) = true := by
        simp only [hasEscape, Bool.or_eq_true, Bool.and_eq_true, Option.isSome_iff_exists] at h
        obtain ⟨⟨x, hx⟩, y, hy⟩ | h := h
        · exact absurd hy (hnot x y hx)
        · exact h
      have hshort := ih hrest
      simp only [List.length_append, List.length_cons, List.length_nil] at hshort ⊢
      omega
  | case4 run c rest hshape hc ih =>
      have hrest : hasEscape rest = true := by
        rwa [hasEscape] at h
        exact hshape
      have hshort := ih hrest
      simp only [List.length_append, List.length_cons, List.length_nil] at hshort ⊢
      omega
  | case5 run c rest hshape hc ih =>
      have hrest : hasEscape rest = true := by
        rwa [hasEscape] at h
        exact hshape
      have hshort := ih hrest
      have hrun := length_decodeReplace_le 0 run
      simp only [List.length_append, List.length_cons, List.length_nil] at hshort ⊢
      omega

theorem unquoteFrom_eq (run s : List Nat) (hrun : ∀ c ∈ run, c < 0x80)
    (h : hasEscape s = false) : unquoteFrom run s = run ++ s := by
  fun_induction unquoteFrom run s with
  | case1 run => simp [decodeReplace_ascii hrun]
  | case2 run a b rest x y hy hx ih => simp [hasEscape, hx, hy] at h
  | case3 run a b rest hnot ih =>
      simp only [hasEscape, Bool.or_eq_false_iff] at h
      have hrun' : ∀ c ∈ run ++ [0x25], c < 0x80 := by
        simpa [or_imp, forall_and] using hrun
      rw [ih hrun' h.2]
      simp
  | case4 run c rest hshape hc ih =>
      have hrest : hasEscape rest = false := by
        rwa [hasEscape] at h
        exact hshape
      have hrun' : ∀ d ∈ run ++ [c], d < 0x80 := by
        simpa [or_imp, forall_and, hc] using hrun
      rw [ih hrun' hrest]
      simp
  | case5 run c rest hshape hc ih =>
      have hrest : hasEscape rest = false := by
        rwa [hasEscape] at h
        exact hshape
      rw [ih (by simp) hrest, decodeReplace_ascii hrun]
      simp

/-- An ASCII character in front of a run stays there. -/
theorem unquoteFrom_cons {c : Nat} (hc : c < 0x80) (run s : List Nat) :
    unquoteFrom (c :: run) s = c :: unquoteFrom run s := by
  have hrun : ∀ bs, decodeReplace 0 (c :: bs) = c :: decodeReplace 0 bs := by
    intro bs
    simp [decodeReplace, character, hc]
  fun_induction unquoteFrom run s with
  | case1 run => simp [unquoteFrom, hrun]
  | case2 run a b rest x y hy hx ih => simp [unquoteFrom, hx, hy, ← ih]
  | case3 run a b rest hnot ih =>
      rw [← ih, unquoteFrom]
      split
      · next x y hx hy => exact absurd hy (hnot x y hx)
      · rfl
  | case4 run d rest hshape hd ih =>
      rw [← ih, unquoteFrom, if_pos hd]
      · rfl
      · exact hshape
  | case5 run d rest hshape hd ih =>
      rw [unquoteFrom, if_neg hd, hrun]
      · rfl
      · exact hshape

/-- So does a slash, or another character that begins no escape. -/
theorem unquote_cons {c : Nat} (hc : c < 0x80) (hne : c ≠ 0x25) (s : List Nat) :
    unquote (c :: s) = c :: unquote s := by
  rw [unquote, unquoteFrom, if_pos hc, List.nil_append, unquoteFrom_cons hc, unquote]
  intro a b rest h
  exact absurd h hne

/-- Undoing escapes makes no text longer. -/
theorem length_unquote_le (s : List Nat) : (unquote s).length ≤ s.length := by
  simpa [unquote] using length_unquoteFrom_le [] s

/-- A text with an escape gets shorter. -/
theorem length_unquote_lt {s : List Nat} (h : hasEscape s = true) :
    (unquote s).length < s.length := by
  simpa [unquote] using length_unquoteFrom_lt [] s h

/-- A text without escapes stays as it is. -/
theorem unquote_eq_self {s : List Nat} (h : hasEscape s = false) : unquote s = s := by
  simpa [unquote] using unquoteFrom_eq [] s (by simp) h

example : unquote [0x25, 0x43, 0x33, 0x25, 0x42, 0x63, 0x25, 0x34] = [0xFC, 0x25, 0x34] := by decide

end NeuroVoice.Percent
