import Mathlib.Algebra.GroupWithZero.Nat
import Mathlib.Data.List.Basic

/-!
# NeuroVoice.Lib.Lines

Words in lines, as many as there is room for.

How wide the lines are depends on how wide the words are (`map_fillLines`), and a
line that is too wide is a single word (`fillLines_wide`, `mem_fillLines_of_wide`).
No line is narrow exactly when wherever one starts there are words for it
(`forall_lineWidths_iff`).
-/

namespace NeuroVoice

/-- The widths of the lines that words of widths `ws` fill after a line of width
`line`, where a line takes `room` and a word is set off by one. -/
def fillWidths (room line : Nat) : List Nat → List Nat
  | [] => [line]
  | w :: ws =>
      if room < line + 1 + w then line :: fillWidths room w ws
      else fillWidths room (line + 1 + w) ws

/-- The widths of the lines. -/
def lineWidths (room : Nat) : List Nat → List Nat
  | [] => []
  | w :: ws => fillWidths room w ws

section lines

variable {α : Type}

/-- The lines that words fill after a line. -/
def fillLines (join : α → α → α) (width : α → Nat) (room : Nat) (line : α) : List α → List α
  | [] => [line]
  | w :: ws =>
      if room < width (join line w) then line :: fillLines join width room w ws
      else fillLines join width room (join line w) ws

variable {join : α → α → α} {width : α → Nat} {room : Nat} {P : α → Prop} {line w : α}
  {ws : List α}

/-- What joining keeps holds of the lines. -/
theorem fillLines_forall (hjoin : ∀ a b, P a → P b → P (join a b)) (hline : P line)
    (hws : ∀ w ∈ ws, P w) : ∀ l ∈ fillLines join width room line ws, P l := by
  induction ws generalizing line with
  | nil =>
      rw [fillLines]
      exact fun l hl => List.mem_singleton.1 hl ▸ hline
  | cons w ws ih =>
      obtain ⟨hw, hws⟩ := List.forall_mem_cons.1 hws
      rw [fillLines]
      split
      · exact List.forall_mem_cons.2 ⟨hline, ih hw hws⟩
      · exact ih (hjoin _ _ hline hw) hws

/-- The widths of the lines depend on the widths of the words alone. -/
theorem map_fillLines (hjoin : ∀ a b, P a → P b → P (join a b))
    (hwidth : ∀ a b, P a → P b → width (join a b) = width a + 1 + width b) (hline : P line)
    (hws : ∀ w ∈ ws, P w) : (fillLines join width room line ws).map width =
      fillWidths room (width line) (ws.map width) := by
  induction ws generalizing line with
  | nil => rfl
  | cons w ws ih =>
      obtain ⟨hw, hws⟩ := List.forall_mem_cons.1 hws
      rw [fillLines, List.map_cons, fillWidths, hwidth _ _ hline hw]
      split
      · rw [List.map_cons, ih hw hws]
      · rw [ih (hjoin _ _ hline hw) hws, hwidth _ _ hline hw]

/-- A line that takes more than there is room for is one word. -/
theorem fillLines_wide {l : α} (h : l ∈ fillLines join width room line ws)
    (hl : room < width l) : l = line ∨ l ∈ ws := by
  induction ws generalizing line with
  | nil => exact .inl (List.mem_singleton.1 h)
  | cons w ws ih =>
      rw [fillLines] at h
      split at h
      · obtain h | h := List.mem_cons.1 h
        · exact .inl h
        · exact .inr (List.mem_cons.2 (ih h))
      · next hfits =>
          obtain h | h := ih h
          · subst h
            exact absurd hl hfits
          · exact .inr (List.mem_cons_of_mem _ h)

/-- A word that takes more than there is room for is a line. -/
theorem mem_fillLines_of_wide (hjoin : ∀ a b, P a → P b → P (join a b))
    (hwidth : ∀ a b, P a → P b → width (join a b) = width a + 1 + width b) (hline : P line)
    (hws : ∀ w ∈ ws, P w) {l : α} (h : l = line ∨ l ∈ ws) (hl : room < width l) :
    l ∈ fillLines join width room line ws := by
  induction ws generalizing line with
  | nil =>
      obtain rfl : l = line := by simpa using h
      exact List.mem_singleton_self _
  | cons w ws ih =>
      obtain ⟨hw, hws⟩ := List.forall_mem_cons.1 hws
      have hlen := hwidth line w hline hw
      rw [fillLines]
      split
      · obtain h | h := h
        · rw [h]
          exact List.mem_cons_self
        · exact List.mem_cons_of_mem _ (ih hw hws (List.mem_cons.1 h))
      · next hfits =>
          -- Neither the line nor the next word is that wide.
          refine ih (hjoin _ _ hline hw) hws (.inr ?_)
          obtain rfl | h := h
          · omega
          · obtain rfl | h := List.mem_cons.1 h
            · omega
            · exact h

theorem fillLines_ne_nil : fillLines join width room line ws ≠ [] := by
  induction ws generalizing line with
  | nil => exact List.cons_ne_nil _ _
  | cons w ws ih =>
      rw [fillLines]
      split
      · exact List.cons_ne_nil _ _
      · exact ih

end lines

/-! ## where lines start -/

/-- The width of words in one line. -/
def joinedWidth (ws : List Nat) : Nat := ws.sum + (ws.length - 1)

/-- The words make a line: there is room for them, or there is only one. -/
def MakesLine (room : Nat) (ws : List Nat) : Prop :=
  ws ≠ [] ∧ (ws.length = 1 ∨ joinedWidth ws ≤ room)

/-- A line starts at the words `tail` of the text `ws`: it is the text's first, or
starts with the word for which there was no room on the one before. -/
inductive LineStart (room : Nat) (tail : List Nat) : List Nat → Prop where
  | first : LineStart room tail tail
  | later {ws line : List Nat} {w : Nat} {rest : List Nat} (text : ws = line ++ w :: rest)
      (full : MakesLine room line ∧ room < joinedWidth (line ++ [w]))
      (start : LineStart room tail (w :: rest)) : LineStart room tail ws

/-- The text starts with a line of at least so many. -/
def ReachesWidth (room least : Nat) (ws : List Nat) : Prop :=
  ∃ line rest, ws = line ++ rest ∧ MakesLine room line ∧ least ≤ joinedWidth line

section starts

variable {room least v w : Nat} {line line' ws tail rest rest' : List Nat}

theorem joinedWidth_concat (h : line ≠ []) :
    joinedWidth (line ++ [w]) = joinedWidth line + 1 + w := by
  have hpos := List.length_pos_of_ne_nil h
  simp only [joinedWidth, List.sum_append, List.length_append, List.sum_singleton,
    List.length_singleton]
  omega

theorem joinedWidth_le_append (a b : List Nat) : joinedWidth a ≤ joinedWidth (a ++ b) := by
  simp only [joinedWidth, List.sum_append, List.length_append]
  omega

theorem makesLine_singleton (room w : Nat) : MakesLine room [w] :=
  ⟨List.cons_ne_nil _ _, .inl rfl⟩

theorem MakesLine.concat (h : line ≠ []) (hroom : ¬room < joinedWidth line + 1 + w) :
    MakesLine room (line ++ [w]) := by
  refine ⟨List.append_ne_nil_of_left_ne_nil h _, .inr ?_⟩
  rw [joinedWidth_concat h]
  exact Nat.le_of_not_lt hroom

/-- A line does not go on where there is no room. -/
theorem MakesLine.not_past (hline : line ≠ []) (hover : room < joinedWidth (line ++ [w]))
    (rest : List Nat) : ¬MakesLine room (line ++ w :: rest) := by
  rintro ⟨-, hone | hfits⟩
  · have hpos := List.length_pos_of_ne_nil hline
    rw [List.length_append, List.length_cons] at hone
    omega
  · have hle := joinedWidth_le_append (line ++ [w]) rest
    rw [List.append_assoc, List.singleton_append] at hle
    omega

/-- The words of a line that others would not fit on are at least those of any
line that starts there. -/
theorem MakesLine.prefix_of_full (hline : line ≠ []) (hover : room < joinedWidth (line ++ [v]))
    (h : MakesLine room line') (heq : line ++ v :: rest = line' ++ rest') :
    ∃ more, line = line' ++ more := by
  obtain ⟨a, hline', -⟩ | ⟨a, hline, -⟩ := List.append_eq_append_iff.1 heq
  · cases a with
    | nil => exact ⟨[], by rw [hline', List.append_nil, List.append_nil]⟩
    | cons u a =>
        obtain rfl : v = u := by
          rw [hline', List.append_assoc] at heq
          exact (List.cons.inj (List.append_cancel_left heq)).1
        rw [hline'] at h
        exact absurd h (MakesLine.not_past hline hover a)
  · exact ⟨a, hline⟩

/-- After a full line the next one starts. -/
theorem lineStart_full (hline : MakesLine room line) (hover : room < joinedWidth (line ++ [w])) :
    LineStart room tail (line ++ w :: rest) ↔
      tail = line ++ w :: rest ∨ LineStart room tail (w :: rest) := by
  constructor
  · intro h
    generalize htext : line ++ w :: rest = text at h
    cases h with
    | first => exact .inl rfl
    | @later _ line' v rest' heq full start =>
        -- There is only one full line to start with.
        rw [← htext] at heq
        obtain ⟨a, ha⟩ := MakesLine.prefix_of_full hline.1 hover full.1 heq
        obtain ⟨b, hb⟩ := MakesLine.prefix_of_full full.1.1 full.2 hline heq.symm
        have hnil : a = [] := by
          have hlen := congrArg List.length ha
          have hlen' := congrArg List.length hb
          rw [List.length_append] at hlen hlen'
          exact List.eq_nil_of_length_eq_zero (by omega)
        rw [hnil, List.append_nil] at ha
        rw [ha] at heq
        rw [List.append_cancel_left heq]
        exact .inr start
  · rintro (rfl | h)
    · exact .first
    · exact .later rfl ⟨hline, hover⟩ h

/-- Words that make one line. -/
theorem lineStart_line (hline : MakesLine room line) : LineStart room tail line ↔ tail = line := by
  constructor
  · intro h
    cases h with
    | first => rfl
    | later heq full start =>
        rw [heq] at hline
        exact absurd hline (MakesLine.not_past full.1.1 full.2 _)
  · rintro rfl
    exact .first

/-- A text whose first line is full starts with a line of so many when the full line
is one. -/
theorem reaches_full (hline : MakesLine room line) (hover : room < joinedWidth (line ++ [w])) :
    ReachesWidth room least (line ++ w :: rest) ↔ least ≤ joinedWidth line := by
  constructor
  · rintro ⟨line', rest', heq, hline', hleast⟩
    obtain ⟨more, rfl⟩ := MakesLine.prefix_of_full hline.1 hover hline' heq
    exact Nat.le_trans hleast (joinedWidth_le_append line' more)
  · exact fun h => ⟨line, w :: rest, rfl, hline, h⟩

theorem reaches_line (hline : MakesLine room line) :
    ReachesWidth room least line ↔ least ≤ joinedWidth line := by
  constructor
  · rintro ⟨line', rest', rfl, -, hleast⟩
    exact Nat.le_trans hleast (joinedWidth_le_append line' rest')
  · exact fun h => ⟨line, [], (List.append_nil line).symm, hline, h⟩

/-- The lines after a line that is being filled. -/
theorem forall_fillWidths_iff (hline : MakesLine room line) :
    (∀ x ∈ fillWidths room (joinedWidth line) ws, least ≤ x) ↔
      ∀ tail, LineStart room tail (line ++ ws) → ReachesWidth room least tail := by
  induction ws generalizing line with
  | nil =>
      simp only [fillWidths, List.append_nil, lineStart_line hline, forall_eq, reaches_line hline,
        List.forall_mem_singleton]
  | cons w ws ih =>
      rw [fillWidths]
      split
      · next hover =>
          rw [← joinedWidth_concat hline.1] at hover
          have hnext := ih (makesLine_singleton room w)
          simp only [List.forall_mem_cons, lineStart_full hline hover, or_imp, forall_and,
            forall_eq, reaches_full hline hover]
          exact and_congr_right fun _ => hnext
      · next hroom =>
          have hfits := MakesLine.concat hline.1 hroom
          rw [← joinedWidth_concat hline.1, ih hfits, List.append_assoc, List.singleton_append]

/-- **No line is narrow** exactly when wherever one starts there are words for a
line that is not. -/
theorem forall_lineWidths_iff (w : Nat) (ws : List Nat) :
    (∀ x ∈ lineWidths room (w :: ws), least ≤ x) ↔
      ∀ tail, LineStart room tail (w :: ws) → ReachesWidth room least tail :=
  forall_fillWidths_iff (makesLine_singleton room w)

theorem fillWidths_ne_nil (room line : Nat) (ws : List Nat) : fillWidths room line ws ≠ [] := by
  induction ws generalizing line with
  | nil => exact List.cons_ne_nil _ _
  | cons w ws ih =>
      rw [fillWidths]
      split
      · exact List.cons_ne_nil _ _
      · exact ih _

/-- One line takes all the words exactly when they make a line. -/
theorem fillWidths_length_one_iff (hline : MakesLine room line) :
    (fillWidths room (joinedWidth line) ws).length = 1 ↔ MakesLine room (line ++ ws) := by
  induction ws generalizing line with
  | nil => simp [fillWidths, hline]
  | cons w ws ih =>
      rw [fillWidths]
      split
      · next hover =>
          rw [← joinedWidth_concat hline.1] at hover
          have hpos := List.length_pos_of_ne_nil (fillWidths_ne_nil room w ws)
          rw [List.length_cons]
          exact iff_of_false (by omega) (MakesLine.not_past hline.1 hover ws)
      · next hroom =>
          have hfits := MakesLine.concat hline.1 hroom
          rw [← joinedWidth_concat hline.1, ih hfits, List.append_assoc, List.singleton_append]

end starts

end NeuroVoice
