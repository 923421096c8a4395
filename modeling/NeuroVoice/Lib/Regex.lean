import Mathlib.Data.List.Basic

/-!
# NeuroVoice.Lib.Regex

Backtracking regular expressions with single-character look-around, and what a
program does with them: find, substitute, split.

`ends` computes the matches at one place in the order a backtracking matcher
tries them, so its head is the match that is found.  `Matches` says what a match
is, and `mem_ends` that the two agree.  `scan` cuts a text into what is found
from left to right and the characters in between; `Scanned` is its
specification, and substitution and splitting are read off the pieces.

Patterns are meant not to match the empty text.
-/

namespace NeuroVoice

/-- A pattern over characters `α`; repetition is greedy. -/
inductive Regex (α : Type) where
  | eps
  | char (p : α → Bool)
  /-- A condition on the characters before and after a place. -/
  | look (p : Option α → Option α → Bool)
  | seq (r s : Regex α)
  | alt (r s : Regex α)
  | star (r : Regex α)

namespace Regex

variable {α : Type}

/-! ## patterns -/

/-- `r?`. -/
def opt (r : Regex α) : Regex α := alt r eps

/-- `r+`. -/
def plus (r : Regex α) : Regex α := seq r (star r)

/-- `r{n}`. -/
def times : Nat → Regex α → Regex α
  | 0, _ => eps
  | n + 1, r => seq r (times n r)

/-- `r{0,n}`. -/
def upTo : Nat → Regex α → Regex α
  | 0, _ => eps
  | n + 1, r => opt (seq r (upTo n r))

/-- A literal text. -/
def lit [DecidableEq α] : List α → Regex α
  | [] => eps
  | c :: cs => seq (char fun d => d = c) (lit cs)

/-- `(?<!p)`. -/
def notBehind (p : α → Bool) : Regex α := look fun prev _ => !prev.any p

/-- `(?<=p)`. -/
def behind (p : α → Bool) : Regex α := look fun prev _ => prev.any p

/-- `(?!p)`. -/
def notAhead (p : α → Bool) : Regex α := look fun _ next => !next.any p

/-- `(?=p)`. -/
def ahead (p : α → Bool) : Regex α := look fun _ next => next.any p

/-- `\b`, between a character of `p` and another, or an end of the text. -/
def boundary (p : α → Bool) : Regex α := look fun prev next => prev.any p != next.any p

/-! ## matching -/

/-- The character before what follows `m`. -/
def after (prev : Option α) (m : List α) : Option α := m.getLast?.or prev

/-- Repeat a step as often as it can be, at most so many times. -/
def loop (step : Option α → List α → List Nat) : Nat → Option α → List α → List Nat
  | 0, _, _ => [0]
  | k + 1, prev, t =>
      (((step prev t).filter fun n => 0 < n).flatMap fun n =>
        (loop step k (after prev (t.take n)) (t.drop n)).map (n + ·)) ++ [0]

/-- The lengths of the matches at the head of `t`, in the order they are
tried. -/
def ends : Regex α → Option α → List α → List Nat
  | eps, _, _ => [0]
  | char _, _, [] => []
  | char p, _, c :: _ => if p c then [1] else []
  | look p, prev, t => if p prev t.head? then [0] else []
  | seq r s, prev, t =>
      (r.ends prev t).flatMap fun n =>
        (s.ends (after prev (t.take n)) (t.drop n)).map (n + ·)
  | alt r s, prev, t => r.ends prev t ++ s.ends prev t
  | star r, prev, t => loop r.ends t.length prev t

/-- The length of the match that is found at the head of `t`. -/
def first (r : Regex α) (prev : Option α) (t : List α) : Option Nat := (r.ends prev t).head?

/-- Repetition of a relation on texts in context. -/
inductive Star (R : Option α → List α → List α → Prop) :
    Option α → List α → List α → Prop where
  | nil (prev : Option α) (rest : List α) : Star R prev [] rest
  | cons {prev : Option α} {m m' rest : List α} : m ≠ [] → R prev m (m' ++ rest) →
      Star R (after prev m) m' rest → Star R prev (m ++ m') rest

/-- `m` matches, behind `prev` and in front of `rest`. -/
def Matches : Regex α → Option α → List α → List α → Prop
  | eps, _, m, _ => m = []
  | char p, _, m, _ => ∃ c, m = [c] ∧ p c = true
  | look p, prev, m, rest => m = [] ∧ p prev rest.head? = true
  | seq r s, prev, m, rest => ∃ m₁ m₂, m = m₁ ++ m₂ ∧ r.Matches prev m₁ (m₂ ++ rest) ∧
      s.Matches (after prev m₁) m₂ rest
  | alt r s, prev, m, rest => r.Matches prev m rest ∨ s.Matches prev m rest
  | star r, prev, m, rest => Star r.Matches prev m rest

/-- Nothing was matched: one stands where one stood. -/
@[simp] theorem after_nil (prev : Option α) : after prev [] = prev := rfl

@[simp] theorem after_singleton (prev : Option α) (c : α) : after prev [c] = some c := rfl

/-- One stands behind the second of two parts. -/
@[simp] theorem after_append (prev : Option α) (m m' : List α) :
    after prev (m ++ m') = after (after prev m) m' := by
  simp [after, List.getLast?_append, Option.or_assoc]

@[simp] theorem after_cons (prev : Option α) (c : α) (m : List α) :
    after prev (c :: m) = after (some c) m :=
  after_append prev [c] m

section ends

variable {r : Regex α} {prev : Option α} {t m rest : List α} {n : Nat}

/-- The loop finds what repeats. -/
theorem mem_loop {step : Option α → List α → List Nat}
    {R : Option α → List α → List α → Prop}
    (hstep : ∀ prev t n, n ∈ step prev t ↔
      ∃ m rest, t = m ++ rest ∧ m.length = n ∧ R prev m rest)
    {k : Nat} (hk : t.length ≤ k) :
    n ∈ loop step k prev t ↔
      ∃ m rest, t = m ++ rest ∧ m.length = n ∧ Star R prev m rest := by
  induction k generalizing prev t n with
  | zero =>
      obtain rfl : t = [] := List.length_eq_zero_iff.1 (Nat.le_zero.1 hk)
      rw [loop, List.mem_singleton]
      constructor
      · rintro rfl
        exact ⟨[], [], rfl, rfl, .nil _ _⟩
      · rintro ⟨m, rest, heq, rfl, -⟩
        simp [(List.append_eq_nil_iff.1 heq.symm).1]
  | succ k ih =>
      rw [loop, List.mem_append, List.mem_singleton, List.mem_flatMap]
      constructor
      · rintro (⟨i, hi, hn⟩ | rfl)
        · obtain ⟨hi, hpos⟩ := List.mem_filter.1 hi
          obtain ⟨m, rest, rfl, rfl, hR⟩ := (hstep prev t i).1 hi
          rw [List.take_left, List.drop_left] at hn
          obtain ⟨j, hj, rfl⟩ := List.mem_map.1 hn
          have hne : m ≠ [] := List.ne_nil_of_length_pos (of_decide_eq_true hpos)
          have hshort : rest.length ≤ k := by
            have := of_decide_eq_true hpos
            rw [List.length_append] at hk
            omega
          obtain ⟨m', rest', rfl, rfl, hstar⟩ := (ih hshort).1 hj
          exact ⟨m ++ m', rest', by simp, by simp, .cons hne hR hstar⟩
        · exact ⟨[], t, rfl, rfl, .nil _ _⟩
      · rintro ⟨m, rest, rfl, rfl, hstar⟩
        cases hstar with
        | nil => exact .inr rfl
        | @cons _ m m' _ hne hR hstar =>
            have hpos : 0 < m.length := List.length_pos_of_ne_nil hne
            have hshort : (m' ++ rest).length ≤ k := by
              simp only [List.length_append] at hk ⊢
              omega
            refine .inl ⟨m.length, List.mem_filter.2 ⟨?_, decide_eq_true hpos⟩, ?_⟩
            · exact (hstep _ _ _).2 ⟨m, m' ++ rest, by simp, rfl, hR⟩
            · rw [List.append_assoc, List.take_left, List.drop_left]
              exact List.mem_map.2
                ⟨m'.length, (ih hshort).2 ⟨m', rest, rfl, rfl, hstar⟩, by simp⟩

/-- **The matcher finds the matches.** -/
theorem mem_ends : n ∈ r.ends prev t ↔
    ∃ m rest, t = m ++ rest ∧ m.length = n ∧ r.Matches prev m rest := by
  induction r generalizing prev t n with
  | eps =>
      rw [ends, List.mem_singleton]
      constructor
      · rintro rfl
        exact ⟨[], t, rfl, rfl, rfl⟩
      · rintro ⟨m, rest, -, rfl, rfl⟩
        rfl
  | char p =>
      cases t with
      | nil =>
          refine iff_of_false (by simp [ends]) ?_
          rintro ⟨m, rest, heq, -, c, rfl, -⟩
          cases heq
      | cons c cs =>
          rw [ends]
          constructor
          · intro h
            split at h
            · next hp => exact ⟨[c], cs, rfl, (List.mem_singleton.1 h).symm, c, rfl, hp⟩
            · cases h
          · rintro ⟨m, rest, heq, rfl, d, rfl, hp⟩
            cases heq
            rw [if_pos hp]
            exact List.mem_singleton.2 rfl
  | look p =>
      rw [ends]
      constructor
      · intro h
        split at h
        · next hp => exact ⟨[], t, rfl, (List.mem_singleton.1 h).symm, rfl, hp⟩
        · cases h
      · rintro ⟨m, rest, rfl, rfl, rfl, hp⟩
        rw [List.nil_append, if_pos hp]
        exact List.mem_singleton.2 rfl
  | seq r s ihr ihs =>
      rw [ends, List.mem_flatMap]
      constructor
      · rintro ⟨i, hi, hn⟩
        obtain ⟨m₁, rest, rfl, rfl, hr⟩ := ihr.1 hi
        rw [List.take_left, List.drop_left] at hn
        obtain ⟨j, hj, rfl⟩ := List.mem_map.1 hn
        obtain ⟨m₂, rest, rfl, rfl, hs⟩ := ihs.1 hj
        exact ⟨m₁ ++ m₂, rest, by simp, by simp, m₁, m₂, rfl, hr, hs⟩
      · rintro ⟨m, rest, rfl, rfl, m₁, m₂, rfl, hr, hs⟩
        refine ⟨m₁.length, ihr.2 ⟨m₁, m₂ ++ rest, by simp, rfl, hr⟩, ?_⟩
        rw [List.append_assoc, List.take_left, List.drop_left]
        exact List.mem_map.2 ⟨m₂.length, ihs.2 ⟨m₂, rest, rfl, rfl, hs⟩, by simp⟩
  | alt r s ihr ihs =>
      rw [ends, List.mem_append, ihr, ihs]
      constructor
      · rintro (⟨m, rest, ht, hn, h⟩ | ⟨m, rest, ht, hn, h⟩)
        · exact ⟨m, rest, ht, hn, .inl h⟩
        · exact ⟨m, rest, ht, hn, .inr h⟩
      · rintro ⟨m, rest, ht, hn, h | h⟩
        · exact .inl ⟨m, rest, ht, hn, h⟩
        · exact .inr ⟨m, rest, ht, hn, h⟩
  | star r ih => exact mem_loop (R := r.Matches) (fun prev t n => ih) (Nat.le_refl t.length)

/-- What is found matches. -/
theorem matches_of_first (h : r.first prev t = some n) :
    ∃ m rest, t = m ++ rest ∧ m.length = n ∧ r.Matches prev m rest :=
  mem_ends.1 (List.mem_of_mem_head? h)

/-- Where nothing is found, nothing matches. -/
theorem not_matches_of_first (h : r.first prev (m ++ rest) = none) : ¬r.Matches prev m rest := by
  intro hm
  have hmem : m.length ∈ r.ends prev (m ++ rest) := mem_ends.2 ⟨m, rest, rfl, rfl, hm⟩
  rw [List.head?_eq_none_iff.1 h] at hmem
  cases hmem

end ends

/-! ## what patterns match -/

section shapes

variable {r s : Regex α} {p : α → Bool} {prev : Option α} {m rest : List α}

/-- The empty pattern matches nothing at all. -/
@[simp] theorem matches_eps : eps.Matches prev m rest ↔ m = [] := Iff.rfl

/-- A class matches one of its elements. -/
@[simp] theorem matches_char : (char p).Matches prev m rest ↔ ∃ c, m = [c] ∧ p c = true := Iff.rfl

/-- An option matches, or is left out. -/
@[simp] theorem matches_opt : (opt r).Matches prev m rest ↔ r.Matches prev m rest ∨ m = [] :=
  Iff.rfl

/-- A sequence matches part by part. -/
theorem matches_seq : (seq r s).Matches prev m rest ↔ ∃ m₁ m₂, m = m₁ ++ m₂ ∧
    r.Matches prev m₁ (m₂ ++ rest) ∧ s.Matches (after prev m₁) m₂ rest := Iff.rfl

/-- A character and then the rest. -/
theorem matches_char_seq : (seq (char p) s).Matches prev m rest ↔
    ∃ c m', m = c :: m' ∧ p c = true ∧ s.Matches (some c) m' rest := by
  constructor
  · rintro ⟨m₁, m₂, rfl, ⟨c, rfl, hc⟩, hs⟩
    exact ⟨c, m₂, rfl, hc, hs⟩
  · rintro ⟨c, m', rfl, hc, hs⟩
    exact ⟨[c], m', rfl, ⟨c, rfl, hc⟩, hs⟩

/-- A condition and then the rest. -/
theorem matches_look_seq {q : Option α → Option α → Bool} :
    (seq (look q) s).Matches prev m rest ↔
      q prev (m ++ rest).head? = true ∧ s.Matches prev m rest := by
  constructor
  · rintro ⟨m₁, m₂, rfl, ⟨rfl, hq⟩, hs⟩
    exact ⟨hq, hs⟩
  · rintro ⟨hq, hs⟩
    exact ⟨[], m, rfl, ⟨rfl, hq⟩, hs⟩

/-- A condition at the end. -/
theorem matches_seq_look {q : Option α → Option α → Bool} :
    (seq r (look q)).Matches prev m rest ↔
      r.Matches prev m rest ∧ q (after prev m) rest.head? = true := by
  constructor
  · rintro ⟨m₁, m₂, rfl, hr, rfl, hq⟩
    rw [List.append_nil]
    exact ⟨hr, hq⟩
  · rintro ⟨hr, hq⟩
    exact ⟨m, [], (List.append_nil m).symm, hr, rfl, hq⟩

/-- Any number of a class: every element is in it. -/
theorem matches_star_char : (star (char p)).Matches prev m rest ↔ ∀ c ∈ m, p c = true := by
  constructor
  · intro h
    change Star _ prev m rest at h
    induction h with
    | nil => intro c hc; cases hc
    | cons _ hm _ ih =>
        obtain ⟨c, rfl, hc⟩ := hm
        exact List.forall_mem_cons.2 ⟨hc, ih⟩
  · intro h
    change Star _ prev m rest
    induction m generalizing prev with
    | nil => exact .nil prev rest
    | cons c m ih =>
        obtain ⟨hc, hm⟩ := List.forall_mem_cons.1 h
        exact .cons (m := [c]) (List.cons_ne_nil _ _) ⟨c, rfl, hc⟩ (ih hm)

/-- One or more of a class. -/
theorem matches_plus_char : (plus (char p)).Matches prev m rest ↔
    m ≠ [] ∧ ∀ c ∈ m, p c = true := by
  refine matches_char_seq.trans ⟨?_, ?_⟩
  · rintro ⟨c, m', rfl, hc, hs⟩
    exact ⟨List.cons_ne_nil _ _, List.forall_mem_cons.2 ⟨hc, matches_star_char.1 hs⟩⟩
  · rintro ⟨hne, h⟩
    cases m with
    | nil => exact absurd rfl hne
    | cons c m =>
        obtain ⟨hc, hm⟩ := List.forall_mem_cons.1 h
        exact ⟨c, m, rfl, hc, matches_star_char.2 hm⟩

/-- A fixed number of a class. -/
theorem matches_times_char (n : Nat) : (times n (char p)).Matches prev m rest ↔
    m.length = n ∧ ∀ c ∈ m, p c = true := by
  induction n generalizing prev m with
  | zero =>
      refine matches_eps.trans ⟨?_, fun h => List.length_eq_zero_iff.1 h.1⟩
      rintro rfl
      exact ⟨rfl, fun c hc => by cases hc⟩
  | succ n ih =>
      refine matches_char_seq.trans ⟨?_, ?_⟩
      · rintro ⟨c, m', rfl, hc, hs⟩
        obtain ⟨hlen, hm⟩ := ih.1 hs
        exact ⟨by rw [List.length_cons, hlen], List.forall_mem_cons.2 ⟨hc, hm⟩⟩
      · rintro ⟨hlen, h⟩
        cases m with
        | nil => cases hlen
        | cons c m =>
            obtain ⟨hc, hm⟩ := List.forall_mem_cons.1 h
            exact ⟨c, m, rfl, hc, ih.2 ⟨Nat.succ.inj hlen, hm⟩⟩

/-- A bounded number of a class. -/
theorem matches_upTo_char (n : Nat) : (upTo n (char p)).Matches prev m rest ↔
    m.length ≤ n ∧ ∀ c ∈ m, p c = true := by
  induction n generalizing prev m with
  | zero =>
      refine matches_eps.trans ⟨?_, fun h => List.length_eq_zero_iff.1 (Nat.le_zero.1 h.1)⟩
      rintro rfl
      exact ⟨Nat.le_refl _, fun c hc => by cases hc⟩
  | succ n ih =>
      refine (or_congr_left matches_char_seq).trans ⟨?_, ?_⟩
      · rintro (⟨c, m', rfl, hc, hs⟩ | rfl)
        · obtain ⟨hlen, hm⟩ := ih.1 hs
          exact ⟨by rw [List.length_cons]; omega, List.forall_mem_cons.2 ⟨hc, hm⟩⟩
        · exact ⟨Nat.zero_le _, fun c hc => by cases hc⟩
      · rintro ⟨hlen, h⟩
        cases m with
        | nil => exact .inr rfl
        | cons c m =>
            obtain ⟨hc, hm⟩ := List.forall_mem_cons.1 h
            exact .inl ⟨c, m, rfl, hc, ih.2 ⟨Nat.le_of_succ_le_succ hlen, hm⟩⟩

/-- A literal matches itself. -/
theorem matches_lit [DecidableEq α] {t : List α} : (lit t).Matches prev m rest ↔ m = t := by
  induction t generalizing prev m with
  | nil => exact matches_eps
  | cons c t ih =>
      refine matches_char_seq.trans ⟨?_, ?_⟩
      · rintro ⟨d, m', rfl, hd, hs⟩
        rw [of_decide_eq_true hd, ih.1 hs]
      · rintro rfl
        exact ⟨c, t, rfl, decide_eq_true rfl, ih.2 rfl⟩

/-- The length of a pattern's shortest match. -/
def least : Regex α → Nat
  | eps | look _ | star _ => 0
  | char _ => 1
  | seq r s => r.least + s.least
  | alt r s => min r.least s.least

/-- No match is shorter than the least one. -/
theorem least_le (h : r.Matches prev m rest) : r.least ≤ m.length := by
  induction r generalizing prev m rest with
  | eps | look _ | star _ => exact Nat.zero_le _
  | char p =>
      obtain ⟨c, rfl, -⟩ := h
      exact Nat.le_refl _
  | seq r s ihr ihs =>
      obtain ⟨m₁, m₂, rfl, hr, hs⟩ := h
      rw [List.length_append, least]
      exact Nat.add_le_add (ihr hr) (ihs hs)
  | alt r s ihr ihs =>
      obtain h | h := h
      · exact Nat.le_trans (Nat.min_le_left _ _) (ihr h)
      · exact Nat.le_trans (Nat.min_le_right _ _) (ihs h)

/-- A literal matches as many elements as it has. -/
theorem least_lit [DecidableEq α] (t : List α) : (lit t).least = t.length := by
  induction t with
  | nil => rfl
  | cons c t ih => rw [lit, least, ih, least, List.length_cons, Nat.add_comm]

/-- The pattern does not match the empty text. -/
def Solid (r : Regex α) : Prop := ∀ prev rest, ¬r.Matches prev [] rest

/-- A pattern that needs an element never matches nothing. -/
theorem solid_of_least (h : 0 < r.least) : r.Solid := fun _ _ hm =>
  absurd (least_le hm) (Nat.not_le_of_gt h)

end shapes

/-! ## pieces -/

/-- A piece of a text: a character, or a match. -/
inductive Piece (α : Type) where
  | plain (c : α)
  | hit (m : List α)

/-- Its text. -/
def Piece.text : Piece α → List α
  | .plain c => [c]
  | .hit m => m

/-- What is found from left to right; `k` counts the characters of a match
still to be passed. -/
def scan (r : Regex α) : Nat → Option α → List α → List (Piece α)
  | _, _, [] => []
  | k + 1, _, c :: cs => scan r k (some c) cs
  | 0, prev, c :: cs =>
      match r.first prev (c :: cs) with
      | some (n + 1) => .hit ((c :: cs).take (n + 1)) :: scan r n (some c) cs
      | _ => .plain c :: scan r 0 (some c) cs

/-- The pieces of a text: what is found where the matches before it end, and
characters at which nothing matches. -/
inductive Scanned (r : Regex α) : Option α → List α → List (Piece α) → Prop where
  | nil (prev : Option α) : Scanned r prev [] []
  | plain {prev : Option α} {c : α} {cs : List α} {ps : List (Piece α)} :
      (∀ m rest, m ≠ [] → c :: cs = m ++ rest → ¬r.Matches prev m rest) →
      Scanned r (some c) cs ps → Scanned r prev (c :: cs) (.plain c :: ps)
  | hit {prev : Option α} {m rest : List α} {ps : List (Piece α)} : m ≠ [] →
      r.first prev (m ++ rest) = some m.length → r.Matches prev m rest →
      Scanned r (after prev m) rest ps → Scanned r prev (m ++ rest) (.hit m :: ps)

section scan

variable {r : Regex α} {prev : Option α} {t m : List α} {ps : List (Piece α)}

/-- Passing a match. -/
theorem scan_pass (r : Regex α) (prev : Option α) (m rest : List α) :
    scan r m.length prev (m ++ rest) = scan r 0 (after prev m) rest := by
  induction m generalizing prev with
  | nil => rfl
  | cons c m ih =>
      rw [List.length_cons, List.cons_append, scan, ih, after_cons]

/-- **The scan cuts the text into its pieces.** -/
theorem scanned_scan (hr : r.Solid) (prev : Option α) (t : List α) :
    Scanned r prev t (scan r 0 prev t) := by
  induction hn : t.length using Nat.strongRecOn generalizing prev t with
  | ind n ih =>
      subst hn
      cases t with
      | nil => exact .nil prev
      | cons c cs =>
          rw [scan]
          split
          · next k hfirst =>
              obtain ⟨m, rest, heq, hlen, hm⟩ := matches_of_first hfirst
              cases m with
              | nil => cases hlen
              | cons d m =>
                  obtain ⟨rfl, hcs⟩ := List.cons.inj heq
                  obtain rfl : cs = m ++ rest := hcs
                  obtain rfl : m.length = k := Nat.succ.inj hlen
                  have htake : (c :: m ++ rest).take (m.length + 1) = c :: m :=
                    List.take_left' (List.length_cons)
                  have hpass : scan r m.length (some c) (m ++ rest) =
                      scan r 0 (after prev (c :: m)) rest := by
                    rw [after_cons]
                    exact scan_pass r (some c) m rest
                  rw [← List.cons_append, htake, hpass]
                  refine .hit (List.cons_ne_nil _ _) hfirst hm (ih _ ?_ _ _ rfl)
                  simp only [List.length_cons, List.length_append]
                  omega
          · next hfirst =>
              have hnone : r.first prev (c :: cs) = none := by
                cases hfound : r.first prev (c :: cs) with
                | none => rfl
                | some n =>
                    obtain ⟨m, rest, -, hlen, hm⟩ := matches_of_first hfound
                    cases n with
                    | zero =>
                        rw [List.length_eq_zero_iff.1 hlen] at hm
                        exact (hr _ _ hm).elim
                    | succ n => exact (hfirst n hfound).elim
              refine .plain (fun m rest _ heq => ?_) (ih _ (by simp) _ _ rfl)
              rw [heq] at hnone
              exact not_matches_of_first hnone

/-- The pieces make up the text. -/
theorem Scanned.text (h : Scanned r prev t ps) : ps.flatMap Piece.text = t := by
  induction h with
  | nil => rfl
  | plain _ _ ih => rw [List.flatMap_cons, ih]; rfl
  | hit _ _ _ _ ih => rw [List.flatMap_cons, ih]; rfl

/-- Every hit is a match somewhere. -/
theorem Scanned.matches_of_hit (h : Scanned r prev t ps) (hm : .hit m ∈ ps) :
    m ≠ [] ∧ ∃ prev rest, r.Matches prev m rest := by
  induction h with
  | nil => cases hm
  | plain _ _ ih =>
      obtain hm | hm := List.mem_cons.1 hm
      · cases hm
      · exact ih hm
  | hit hne _ hmatch _ ih =>
      obtain hm | hm := List.mem_cons.1 hm
      · cases hm
        exact ⟨hne, _, _, hmatch⟩
      · exact ih hm

end scan

/-- Nothing matches anywhere. -/
def NoMatch (r : Regex α) (prev : Option α) (t : List α) : Prop :=
  ∀ pre m rest, t = pre ++ (m ++ rest) → m ≠ [] → ¬r.Matches (after prev pre) m rest

section nothing

variable {r : Regex α} {prev : Option α} {t : List α} {ps : List (Piece α)}

/-- A scan without a match leaves all elements plain. -/
theorem Scanned.eq_plain (h : Scanned r prev t ps) (hno : NoMatch r prev t) :
    ps = t.map Piece.plain := by
  induction h with
  | nil => rfl
  | @plain prev c cs ps _ _ ih =>
      have hcs : NoMatch r (some c) cs := by
        intro pre m rest heq hne hm
        refine hno (c :: pre) m rest (by rw [heq]; rfl) hne ?_
        rwa [after_cons]
      rw [List.map_cons, ← ih hcs]
  | hit hne _ hm _ _ => exact absurd hm (hno [] _ _ rfl hne)

/-- Nothing is found where nothing matches. -/
theorem scan_of_noMatch (hr : r.Solid) (hno : NoMatch r none t) :
    scan r 0 none t = t.map Piece.plain :=
  (scanned_scan hr none t).eq_plain hno

end nothing

section greedy

variable {p : α → Bool} {prev : Option α} {t : List α}

/-- The longest loop over a class takes the run of its elements. -/
theorem loop_char {k : Nat} (h : t.length ≤ k) :
    (loop (char p).ends k prev t).head? = some (t.takeWhile p).length := by
  induction k generalizing prev t with
  | zero =>
      obtain rfl : t = [] := List.length_eq_zero_iff.1 (Nat.le_zero.1 h)
      rfl
  | succ k ih =>
      cases t with
      | nil => rfl
      | cons c t =>
          have ht := @ih (some c) _ (Nat.le_of_succ_le_succ h)
          cases hc : p c with
          | false => simp [loop, ends, hc]
          | true =>
              obtain ⟨ns, hns⟩ := List.head?_eq_some_iff.1 ht
              simp [loop, ends, hc, hns, Nat.add_comm]

/-- Repeated characters are taken as far as they go. -/
theorem first_star_char :
    (star (char p)).first prev t = some (t.takeWhile p).length :=
  loop_char (Nat.le_refl _)

/-- A counted class ends after that many elements, if the run is long enough. -/
theorem ends_times_char (n : Nat) :
    (times n (char p)).ends prev t = if n ≤ (t.takeWhile p).length then [n] else [] := by
  induction n generalizing prev t with
  | zero => rfl
  | succ n ih =>
      cases t with
      | nil => rfl
      | cons c t =>
          cases hc : p c with
          | false => simp [times, ends, hc]
          | true =>
              have ht := @ih (some c) t
              by_cases hn : n ≤ (t.takeWhile p).length
              · rw [if_pos hn] at ht
                simp [times, ends, hc, ht, hn, Nat.add_comm]
              · rw [if_neg hn] at ht
                simp [times, ends, hc, ht, hn]

/-- So many characters and as many more as there are. -/
theorem first_times_star {n : Nat} (h : n ≤ (t.takeWhile p).length) :
    (seq (times n (char p)) (star (char p))).first prev t =
      some (n + ((t.drop n).takeWhile p).length) := by
  have hstar := @first_star_char _ p (after prev (t.take n)) (t.drop n)
  rw [first] at hstar ⊢
  rw [ends, ends_times_char, if_pos h]
  simp [hstar]

/-- What is found ends where the characters do. -/
theorem edge_of_first {n : Nat} {m rest : List α} (hlen : n ≤ m.length) (hm : ∀ c ∈ m, p c = true)
    (h : (seq (times n (char p)) (star (char p))).first prev (m ++ rest) = some m.length) :
    rest.takeWhile p = [] := by
  have htake : (m ++ rest).takeWhile p = m ++ rest.takeWhile p :=
    List.takeWhile_append_of_pos hm
  have hdrop : ((m ++ rest).drop n).takeWhile p = m.drop n ++ rest.takeWhile p := by
    rw [List.drop_append_of_le_length hlen]
    exact List.takeWhile_append_of_pos fun c hc => hm c (List.mem_of_mem_drop hc)
  rw [first_times_star (by rw [htake, List.length_append]; omega), hdrop] at h
  have hlen' := Option.some.inj h
  rw [List.length_append, List.length_drop] at hlen'
  exact List.length_eq_zero_iff.1 (by omega)

/-- One or more is one, and any number. -/
theorem first_plus_char : (plus (char p)).first prev t =
    (seq (times 1 (char p)) (star (char p))).first prev t := by
  cases t with
  | nil => rfl
  | cons c t => cases hc : p c <;> simp [first, plus, times, ends, hc]

end greedy

/-! ## substitution and splitting -/

/-- What a piece becomes. -/
def Piece.render (f : List α → List α) : Piece α → List α
  | .plain c => [c]
  | .hit m => f m

/-- `re.sub`. -/
def sub (r : Regex α) (f : List α → List α) (t : List α) : List α :=
  (scan r 0 none t).flatMap (Piece.render f)

/-- The pieces, with a replacement that can raise. -/
def rewrite {ε : Type} (f : List α → Except ε (List α)) :
    List (Piece α) → Except ε (List α)
  | [] => .ok []
  | .plain c :: ps => do
      let rest ← rewrite f ps
      return c :: rest
  | .hit m :: ps => do
      let out ← f m
      let rest ← rewrite f ps
      return out ++ rest

/-- `re.sub`, with a replacement that can raise. -/
def trySub {ε : Type} (r : Regex α) (f : List α → Except ε (List α)) (t : List α) :
    Except ε (List α) :=
  rewrite f (scan r 0 none t)

/-- What a piece found. -/
def Piece.found : Piece α → Option (List α)
  | .plain _ => none
  | .hit m => some m

/-- The matches that are found, from left to right. -/
def found (r : Regex α) (t : List α) : List (List α) := (scan r 0 none t).filterMap Piece.found

/-- A replacement that leaves alone what it cannot replace. -/
def orKeep {ε : Type} (f : List α → Except ε (List α)) (m : List α) : List α :=
  match f m with
  | .ok out => out
  | .error _ => m

section raising

variable {ε : Type} {f : List α → Except ε (List α)} {r : Regex α} {t m u : List α}
  {ps : List (Piece α)}

/-- What is found is what the scan hit. -/
theorem mem_found : m ∈ found r t ↔ .hit m ∈ scan r 0 none t := by
  rw [found, List.mem_filterMap]
  constructor
  · rintro ⟨p, hp, hm⟩
    cases p with
    | plain c => cases hm
    | hit m =>
        cases hm
        exact hp
  · intro h
    exact ⟨.hit m, h, rfl⟩

/-- What is found is matched, somewhere. -/
theorem matches_of_found (hr : r.Solid) (h : m ∈ found r t) :
    ∃ prev rest, r.Matches prev m rest :=
  ((scanned_scan hr none t).matches_of_hit (mem_found.1 h)).2

/-- What a substitution that can raise returns. -/
theorem rewrite_eq (h : rewrite f ps = .ok u) : u = ps.flatMap (Piece.render (orKeep f)) := by
  induction ps generalizing u with
  | nil =>
      cases h
      rfl
  | cons p ps ih =>
      cases p with
      | plain c =>
          rw [rewrite] at h
          cases hrest : rewrite f ps with
          | error e => rw [hrest] at h; cases h
          | ok rest =>
              rw [hrest] at h
              cases h
              rw [List.flatMap_cons, ← ih hrest]
              rfl
      | hit m =>
          rw [rewrite] at h
          cases hout : f m with
          | error e => rw [hout] at h; cases h
          | ok out =>
              cases hrest : rewrite f ps with
              | error e => rw [hout, hrest] at h; cases h
              | ok rest =>
                  rw [hout, hrest] at h
                  cases h
                  rw [List.flatMap_cons, ← ih hrest, Piece.render, orKeep, hout]

/-- A substitution that may fail and does not is the one that cannot. -/
theorem sub_of_trySub (h : trySub r f t = .ok u) : u = sub r (orKeep f) t := rewrite_eq h

/-- A substitution raises only where its replacement does. -/
theorem rewrite_ok_iff : (∃ u, rewrite f ps = .ok u) ↔ ∀ m, .hit m ∈ ps → ∃ out, f m = .ok out := by
  induction ps with
  | nil =>
      refine iff_of_true ⟨[], rfl⟩ fun m hm => ?_
      cases hm
  | cons p ps ih =>
      cases p with
      | plain c =>
          have hrest : (∃ u, rewrite f (.plain c :: ps) = .ok u) ↔ ∃ u, rewrite f ps = .ok u := by
            rw [rewrite]
            cases rewrite f ps with
            | error e => exact iff_of_false (by rintro ⟨u, h⟩; cases h) (by rintro ⟨u, h⟩; cases h)
            | ok rest => exact iff_of_true ⟨_, rfl⟩ ⟨_, rfl⟩
          rw [hrest, ih]
          simp
      | hit m =>
          have hrest : (∃ u, rewrite f (.hit m :: ps) = .ok u) ↔
              (∃ out, f m = .ok out) ∧ ∃ u, rewrite f ps = .ok u := by
            rw [rewrite]
            cases f m with
            | error e =>
                exact iff_of_false (by rintro ⟨u, h⟩; cases h) (by rintro ⟨⟨u, h⟩, -⟩; cases h)
            | ok out =>
                cases rewrite f ps with
                | error e =>
                    exact iff_of_false (by rintro ⟨u, h⟩; cases h) (by rintro ⟨-, u, h⟩; cases h)
                | ok rest => exact iff_of_true ⟨_, rfl⟩ ⟨⟨_, rfl⟩, _, rfl⟩
          rw [hrest, ih]
          simp

/-- It succeeds exactly if it does for all that is found. -/
theorem trySub_ok_iff : (∃ u, trySub r f t = .ok u) ↔ ∀ m ∈ found r t, ∃ out, f m = .ok out := by
  rw [trySub, rewrite_ok_iff]
  simp only [mem_found]

end raising

section unchanged

variable {r : Regex α} {t : List α}

/-- Without a match nothing is replaced. -/
theorem sub_of_noMatch {f : List α → List α} (hr : r.Solid) (hno : NoMatch r none t) :
    sub r f t = t := by
  rw [sub, scan_of_noMatch hr hno, List.flatMap_map]
  exact List.flatMap_singleton' t

/-- Plain elements are kept. -/
theorem rewrite_plain {ε : Type} (f : List α → Except ε (List α)) (t : List α) :
    rewrite f (t.map Piece.plain) = .ok t := by
  induction t with
  | nil => rfl
  | cons c t ih => rw [List.map_cons, rewrite, ih]; rfl

/-- Without a match nothing fails. -/
theorem trySub_of_noMatch {ε : Type} {f : List α → Except ε (List α)} (hr : r.Solid)
    (hno : NoMatch r none t) : trySub r f t = .ok t := by
  rw [trySub, scan_of_noMatch hr hno, rewrite_plain]

end unchanged

section substitutes

variable {r : Regex α} {prev : Option α} {t m : List α} {ps : List (Piece α)}

/-- A hit is a part of the text. -/
theorem Scanned.infix_of_hit (h : Scanned r prev t ps) (hm : .hit m ∈ ps) : m <:+: t := by
  obtain ⟨before, behind, rfl⟩ := List.append_of_mem hm
  refine ⟨before.flatMap Piece.text, behind.flatMap Piece.text, ?_⟩
  rw [← h.text, List.flatMap_append, List.flatMap_cons, List.append_assoc]
  rfl

/-- A substitution that leaves what it finds. -/
theorem sub_eq_self {f : List α → List α} (hr : r.Solid) (h : ∀ m ∈ found r t, f m = m) :
    sub r f t = t := by
  have hscan := scanned_scan hr none t
  rw [sub, ← hscan.text, hscan.text]
  refine (List.flatMap_congr fun p hp => ?_).trans hscan.text
  cases p with
  | plain c => rfl
  | hit m => exact h m (mem_found.2 hp)

/-- Substituting single characters. -/
theorem sub_char (p : α → Bool) (f : List α → List α) (t : List α) :
    sub (char p) f t = t.flatMap fun c => if p c then f [c] else [c] := by
  have hscan : ∀ prev, scan (char p) 0 prev t =
      t.map fun c => if p c then Piece.hit [c] else Piece.plain c := by
    induction t with
    | nil => exact fun _ => rfl
    | cons c t ih =>
        intro prev
        cases hc : p c with
        | true => simp [scan, first, ends, hc, ih]
        | false => simp [scan, first, ends, hc, ih]
  rw [sub, hscan, List.flatMap_map]
  refine List.flatMap_congr fun c _ => ?_
  cases p c <;> rfl

/-- What a substitution does not change of its matches, it does not change of
the text. -/
theorem map_sub {β : Type} {f : List α → List α} {g : α → β} (hr : r.Solid)
    (h : ∀ m, (f m).map g = m.map g) : (sub r f t).map g = t.map g := by
  have htext := (scanned_scan hr none t).text
  rw [sub, ← congrArg (List.map g) htext, List.map_flatMap, List.map_flatMap]
  refine List.flatMap_congr fun p _ => ?_
  cases p with
  | plain c => rfl
  | hit m => exact h m

end substitutes

/-- The texts between the hits. -/
def between : List (Piece α) → List (List α)
  | [] => [[]]
  | .hit _ :: ps => [] :: between ps
  | .plain c :: ps =>
      match between ps with
      | [] => [[c]]
      | p :: rest => (c :: p) :: rest

/-- `re.split`. -/
def split (r : Regex α) (t : List α) : List (List α) := between (scan r 0 none t)

section split

variable {r : Regex α} {t : List α}

/-- The parts between the hits are the text without them. -/
theorem flatten_between (ps : List (Piece α)) :
    (between ps).flatten = ps.flatMap (Piece.render fun _ => []) := by
  induction ps with
  | nil => rfl
  | cons p ps ih =>
      rw [List.flatMap_cons, ← ih]
      cases p with
      | hit m => rfl
      | plain c =>
          rw [between]
          cases between ps <;> rfl

/-- What is split off is what the pattern matches. -/
theorem flatten_split (r : Regex α) (t : List α) : (r.split t).flatten = sub r (fun _ => []) t :=
  flatten_between _

end split

/-! ## whole texts -/

/-- `re.match` of `r` with `$` behind it: `$` is the end of the text, and the
place before a newline that ends it. -/
def matchesLine [DecidableEq α] (r : Regex α) (newline : α) (t : List α) : Bool :=
  (r.ends none t).any fun n => t.drop n = [] || t.drop n = [newline]

/-- A line matches with or without its newline. -/
theorem matchesLine_iff [DecidableEq α] {r : Regex α} {newline : α} {t : List α} :
    r.matchesLine newline t = true ↔
      r.Matches none t [] ∨ ∃ m, t = m ++ [newline] ∧ r.Matches none m [newline] := by
  unfold matchesLine
  simp only [List.any_eq_true, Bool.or_eq_true, decide_eq_true_eq]
  constructor
  · intro h
    obtain ⟨n, hn, hrest⟩ := h
    obtain ⟨m, rest, heq, hlen, hm⟩ := mem_ends.1 hn
    subst heq
    subst hlen
    rw [List.drop_left] at hrest
    cases hrest with
    | inl hnil =>
        subst hnil
        rw [List.append_nil]
        exact .inl hm
    | inr hline =>
        subst hline
        exact .inr ⟨m, rfl, hm⟩
  · intro h
    cases h with
    | inl h => exact ⟨t.length, mem_ends.2 ⟨t, [], by simp, rfl, h⟩, by simp⟩
    | inr h =>
        obtain ⟨m, heq, hm⟩ := h
        subst heq
        exact ⟨m.length, mem_ends.2 ⟨m, [newline], rfl, rfl, hm⟩, by simp⟩

end Regex

end NeuroVoice
