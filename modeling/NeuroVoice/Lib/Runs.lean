import NeuroVoice.Lib.Regex

/-!
# NeuroVoice.Lib.Runs

Runs of word characters, and substitutions that respect them.

A window is a property of a place in a text that only looks at the run there,
at a separator behind it and at the next run.  A substitution whose blocks begin
with safe words, or stand where no run goes on, makes no new place at which a
window holds (`place_of_render`).
-/

namespace NeuroVoice

namespace Regex

variable {α : Type} {word : α → Bool}

/-! ## runs -/

/-- A run can begin behind this character. -/
def Edge (word : α → Bool) (prev : Option α) : Prop := (!prev.any word) = true

/-- The run of word characters at the head of a text. -/
def run (word : α → Bool) (t : List α) : List α := t.takeWhile word

/-- What follows it. -/
def past (word : α → Bool) (t : List α) : List α := t.dropWhile word

/-- The text begins with a safe word. -/
def Begins (safe : List α → Prop) (t : List α) : Prop := ∃ v, safe v ∧ v <+: t

/-- `s'` reads like `s`, or has safe words in its place: the same run, and where
a separator follows, the same separator. -/
def Alike (word : α → Bool) (safe : List α → Prop) (seps : α → Prop) (s s' : List α) : Prop :=
  run word s' = run word s ∧ ∀ c rest', seps c → past word s' = c :: rest' →
    ∃ rest, past word s = c :: rest ∧
      (run word rest' = run word rest ∨ Begins safe (run word rest'))

/-- A property of a place that looks at runs and separators only, and that no
safe word has. -/
structure Window (word : α → Bool) (safe : List α → Prop) (seps : α → Prop)
    (K : List α → Prop) : Prop where
  unsafe_run : ∀ s, K s → run word s ≠ [] ∧ ¬Begins safe (run word s)
  alike : ∀ s s', Alike word safe seps s s' → K s' → K s

/-- `K` holds nowhere in the text at which a run can begin. -/
def Clean (word : α → Bool) (K : List α → Prop) (t : List α) : Prop :=
  ∀ pre s, t = pre ++ s → Edge word (after none pre) → ¬K s

/-- The text `b` in place of `m`: it begins with a safe word where a run can
begin, or neither continues a run; inside it runs are safe. -/
structure Block (word : α → Bool) (safe : List α → Prop) (seps : α → Prop) (prev : Option α)
    (m b : List α) : Prop where
  nonempty : b ≠ []
  head : (Edge word prev ∧ ∀ x, Begins safe (run word (b ++ x))) ∨
    (∃ c cs, m = c :: cs ∧ word c = false) ∧ ∃ d ds, b = d :: ds ∧ word d = false ∧ ¬seps d
  inside : ∀ b₁ b₂ x, b = b₁ ++ b₂ → b₁ ≠ [] → b₂ ≠ [] → Edge word (after none b₁) →
    run word (b₂ ++ x) = [] ∨ Begins safe (run word (b₂ ++ x))
  exit : Edge word (after none b) → Edge word (after none m)

section runs

variable {c : α} {s t : List α} {prev : Option α}

theorem run_cons_of_word (h : word c = true) : run word (c :: t) = c :: run word t :=
  List.takeWhile_cons_of_pos h

theorem run_cons_of_not (h : word c = false) : run word (c :: t) = [] :=
  List.takeWhile_cons_of_neg (by simp [h])

theorem past_cons_of_word (h : word c = true) : past word (c :: t) = past word t :=
  List.dropWhile_cons_of_pos h

theorem past_cons_of_not (h : word c = false) : past word (c :: t) = c :: t :=
  List.dropWhile_cons_of_neg (by simp [h])

@[simp] theorem run_append_past (t : List α) : run word t ++ past word t = t :=
  List.takeWhile_append_dropWhile

theorem edge_none (word : α → Bool) : Edge word none := rfl

theorem edge_some : Edge word (some c) ↔ word c = false := by
  simp [Edge]

theorem after_of_ne_nil (h : t ≠ []) (prev prev' : Option α) : after prev t = after prev' t := by
  rw [after, after, List.getLast?_eq_some_getLast h]
  rfl

end runs

/-! ## what a substitution leaves -/

section render

variable {safe : List α → Prop} {seps : α → Prop} {r : Regex α} {f : List α → List α}
  {prev : Option α} {s t m : List α} {ps : List (Piece α)} {c : α}

theorem alike_cons_of_word {s' : List α} (hc : word c = true) (h : Alike word safe seps s s') :
    Alike word safe seps (c :: s) (c :: s') := by
  obtain ⟨hrun, hpast⟩ := h
  refine ⟨by rw [run_cons_of_word hc, run_cons_of_word hc, hrun], fun d rest' hd hs' => ?_⟩
  rw [past_cons_of_word hc] at hs' ⊢
  exact hpast d rest' hd hs'

/-- A text that begins with a block. -/
theorem Block.run_eq (hb : Block word safe seps prev m s) (rest out : List α) :
    run word (s ++ out) = run word (m ++ rest) ∨ Begins safe (run word (s ++ out)) := by
  obtain ⟨-, hbegins⟩ | ⟨⟨c, cs, rfl, hc⟩, d, ds, rfl, hd, -⟩ := hb.head
  · exact .inr (hbegins out)
  · rw [List.cons_append, List.cons_append, run_cons_of_not hd, run_cons_of_not hc]
    exact .inl rfl

/-- Behind a word character, or where nothing is found, what is left reads
like the text. -/
theorem Scanned.alike (h : Scanned r prev t ps)
    (hblock : ∀ prev m rest, .hit m ∈ ps → r.Matches prev m rest →
      Block word safe seps prev m (f m)) :
    (¬Edge word prev ∨ (∀ m, ps.head? ≠ some (.hit m)) →
      Alike word safe seps t (ps.flatMap (Piece.render f))) ∧
    (run word (ps.flatMap (Piece.render f)) = run word t ∨
      Begins safe (run word (ps.flatMap (Piece.render f)))) := by
  induction h with
  | nil => exact ⟨fun _ => ⟨rfl, fun c rest' _ hs => by cases hs⟩, .inl rfl⟩
  | @plain prev c cs ps _ _ ih =>
      obtain ⟨halike, hrun⟩ := ih fun prev m rest hm => hblock prev m rest (List.mem_cons_of_mem _ hm)
      have hcons : (Piece.plain c :: ps).flatMap (Piece.render f) =
          c :: ps.flatMap (Piece.render f) := rfl
      rw [hcons]
      cases hc : word c with
      | true =>
          have hinside : ¬Edge word (some c) := by simp [edge_some, hc]
          have hboth := alike_cons_of_word hc (halike (.inl hinside))
          exact ⟨fun _ => hboth, .inl hboth.1⟩
      | false =>
          refine ⟨fun _ => ⟨by rw [run_cons_of_not hc, run_cons_of_not hc], fun d rest' _ hs => ?_⟩,
            .inl (by rw [run_cons_of_not hc, run_cons_of_not hc])⟩
          rw [past_cons_of_not hc] at hs ⊢
          obtain ⟨rfl, rfl⟩ := List.cons.inj hs
          exact ⟨cs, rfl, hrun⟩
  | @hit prev m rest ps _ _ hm _ _ =>
      have hb := hblock prev m rest (List.mem_cons_self ..) hm
      have hcons : (Piece.hit m :: ps).flatMap (Piece.render f) =
          f m ++ ps.flatMap (Piece.render f) := rfl
      rw [hcons]
      refine ⟨fun hinside => ?_, hb.run_eq rest _⟩
      have hedge : ¬Edge word prev := by
        obtain hinside | hplain := hinside
        · exact hinside
        · exact absurd rfl (hplain m)
      obtain ⟨hprev, -⟩ | ⟨⟨c, cs, rfl, hc⟩, d, ds, hfm, hd, hsep⟩ := hb.head
      · exact absurd hprev hedge
      · rw [hfm, List.cons_append, List.cons_append]
        refine ⟨by rw [run_cons_of_not hd, run_cons_of_not hc], fun e rest' he hs => ?_⟩
        rw [past_cons_of_not hd] at hs
        obtain ⟨rfl, -⟩ := List.cons.inj hs
        exact absurd he hsep

/-- A split of `b ++ t` is in `t`, or before the end of `b`. -/
theorem split_append {b pre s' : List α} (h : b ++ t = pre ++ s') :
    (∃ rest, pre = b ++ rest ∧ t = rest ++ s') ∨
      ∃ rest, rest ≠ [] ∧ b = pre ++ rest ∧ s' = rest ++ t := by
  obtain ⟨rest, hpre, ht⟩ | ⟨rest, hb, hs⟩ := List.append_eq_append_iff.1 h
  · exact .inl ⟨rest, hpre, ht⟩
  · cases rest with
    | nil =>
        rw [List.append_nil] at hb
        exact .inl ⟨[], by rw [hb, List.append_nil], hs.symm⟩
    | cons d rest => exact .inr ⟨d :: rest, List.cons_ne_nil _ _, hb, hs⟩

/-- **A place at which a window holds was there before**, and nothing was found
at it. -/
theorem place_of_render {K : List α → Prop} (hK : Window word safe seps K)
    (h : Scanned r prev t ps)
    (hblock : ∀ prev m rest, .hit m ∈ ps → r.Matches prev m rest →
      Block word safe seps prev m (f m))
    {prev' : Option α} (hprev : Edge word prev' → Edge word prev) {pre' s' : List α}
    (hout : ps.flatMap (Piece.render f) = pre' ++ s') (hedge : Edge word (after prev' pre'))
    (hs' : K s') :
    ∃ pre s, t = pre ++ s ∧ Edge word (after prev pre) ∧ K s ∧
      ∀ m rest, m ≠ [] → s = m ++ rest → ¬r.Matches (after prev pre) m rest := by
  induction h generalizing prev' pre' with
  | nil prev =>
      have hnil : s' = [] := (List.append_eq_nil_iff.1 hout.symm).2
      subst hnil
      exact absurd rfl (hK.unsafe_run [] hs').1
  | @plain prev c cs ps hno hcs ih =>
      have hcons : (Piece.plain c :: ps).flatMap (Piece.render f) =
          c :: ps.flatMap (Piece.render f) := rfl
      rw [hcons] at hout
      cases pre' with
      | nil =>
          have halike := ((Scanned.plain hno hcs).alike hblock).1 (.inr fun m hm => by cases hm)
          rw [hcons, hout] at halike
          exact ⟨[], c :: cs, rfl, hprev hedge, hK.alike _ _ halike hs',
            fun m rest hne heq => hno m rest hne heq⟩
      | cons d pre' =>
          obtain ⟨rfl, htail⟩ := List.cons.inj hout
          rw [after_cons] at hedge
          obtain ⟨pre, s, rfl, hpre, hs, hnone⟩ := ih
            (fun prev m rest hm => hblock prev m rest (List.mem_cons_of_mem _ hm)) id htail hedge
          refine ⟨c :: pre, s, rfl, ?_, hs, ?_⟩
          · rwa [after_cons]
          · rwa [after_cons]
  | @hit prev m rest ps hne _ hm hrest ih =>
      have hb := hblock prev m rest (List.mem_cons_self ..) hm
      have hcons : (Piece.hit m :: ps).flatMap (Piece.render f) =
          f m ++ ps.flatMap (Piece.render f) := rfl
      rw [hcons] at hout
      have hunsafe := hK.unsafe_run s' hs'
      obtain ⟨b, hpre, htail⟩ | ⟨b, hbne, hfm, htail⟩ := split_append hout
      · have hbehind : Edge word (after (after none (f m)) b) := by
          rwa [hpre, after_append, after_of_ne_nil hb.nonempty prev' none] at hedge
        have hexit : Edge word (after none (f m)) → Edge word (after prev m) := by
          rw [after_of_ne_nil hne prev none]
          exact hb.exit
        obtain ⟨pre, s, rfl, hpre, hs, hnone⟩ := ih
          (fun prev m rest hm => hblock prev m rest (List.mem_cons_of_mem _ hm)) hexit htail hbehind
        refine ⟨m ++ pre, s, by simp, ?_, hs, ?_⟩
        · rwa [after_append]
        · rwa [after_append]
      · refine absurd ?_ hunsafe.2
        rw [htail]
        cases pre' with
        | nil =>
            rw [List.nil_append] at hfm
            rw [← hfm]
            obtain ⟨-, hbegins⟩ | ⟨-, d, ds, hd, hword, -⟩ := hb.head
            · exact hbegins _
            · refine absurd ?_ hunsafe.1
              rw [htail, ← hfm, hd]
              exact run_cons_of_not hword
        | cons d pre' =>
            rw [after_of_ne_nil (List.cons_ne_nil _ _) prev' none] at hedge
            obtain hnil | hbegins := hb.inside _ b (ps.flatMap (Piece.render f)) hfm
              (List.cons_ne_nil _ _) hbne hedge
            · rw [htail] at hunsafe
              exact absurd hnil hunsafe.1
            · exact hbegins

/-- A substitution keeps a text clean. -/
theorem clean_sub {K : List α → Prop} (hK : Window word safe seps K) (hr : r.Solid)
    (hblock : ∀ prev m rest, m ∈ found r t → r.Matches prev m rest →
      Block word safe seps prev m (f m))
    (ht : Clean word K t) : Clean word K (sub r f t) := by
  intro pre' s' hout hedge hs'
  obtain ⟨pre, s, heq, hpre, hs, -⟩ := place_of_render hK (scanned_scan hr none t)
    (fun prev m rest hm => hblock prev m rest (mem_found.2 hm)) id hout hedge hs'
  exact ht pre s heq hpre hs

/-- A substitution cleans a text of what its pattern matches. -/
theorem clean_sub_self {K : List α → Prop} (hK : Window word safe seps K) (hr : r.Solid)
    (hblock : ∀ prev m rest, m ∈ found r t → r.Matches prev m rest →
      Block word safe seps prev m (f m))
    (hfinds : ∀ prev s, Edge word prev → K s →
      ∃ m rest, m ≠ [] ∧ s = m ++ rest ∧ r.Matches prev m rest) :
    Clean word K (sub r f t) := by
  intro pre' s' hout hedge hs'
  obtain ⟨pre, s, -, hpre, hs, hnone⟩ := place_of_render hK (scanned_scan hr none t)
    (fun prev m rest hm => hblock prev m rest (mem_found.2 hm)) id hout hedge hs'
  obtain ⟨m, rest, hne, heq, hm⟩ := hfinds _ s hpre hs
  exact hnone m rest hne heq hm

/-- Nothing matches in a text that is clean of what a match shows. -/
theorem noMatch_of_clean {K : List α → Prop} (ht : Clean word K t)
    (hshows : ∀ prev m rest, r.Matches prev m rest →
      ∃ pre s, m ++ rest = pre ++ s ∧ Edge word (after prev pre) ∧ K s) : NoMatch r none t := by
  intro pre m rest heq _ hm
  obtain ⟨pre', s, hsplit, hedge, hs⟩ := hshows _ m rest hm
  refine ht (pre ++ pre') s ?_ ?_ hs
  · rw [heq, hsplit, List.append_assoc]
  · rwa [after_append]

theorem edge_past (s : List α) : Edge word (past word s).head? := by
  have hhead := List.head?_dropWhile_not word s
  rw [past]
  cases h : (s.dropWhile word).head? with
  | none => exact edge_none word
  | some d =>
      rw [h] at hhead
      exact edge_some.2 (by simpa using hhead)

theorem run_of_edge (h : Edge word t.head?) : run word t = [] := by
  cases t with
  | nil => rfl
  | cons d t => exact run_cons_of_not (edge_some.1 h)

theorem run_append (hs : ∀ d ∈ s, word d = true) (t : List α) :
    run word (s ++ t) = s ++ run word t :=
  List.takeWhile_append_of_pos hs

/-- A whole run. -/
theorem run_eq (hs : ∀ d ∈ s, word d = true) (ht : Edge word t.head?) :
    run word (s ++ t) = s ∧ past word (s ++ t) = t := by
  have hrun : run word (s ++ t) = s := by rw [run_append hs, run_of_edge ht, List.append_nil]
  have hboth := @run_append_past _ word (s ++ t)
  rw [hrun] at hboth
  exact ⟨hrun, List.append_cancel_left hboth⟩

/-- A whole run before another character. -/
theorem run_eq_cons (hs : ∀ d ∈ s, word d = true) (hc : word c = false) (t : List α) :
    run word (s ++ c :: t) = s ∧ past word (s ++ c :: t) = c :: t :=
  run_eq (t := c :: t) hs (edge_some.2 hc)

theorem run_append_of_edge {b : List α} (hb : Edge word b.head?) :
    run word (s ++ b) = run word s := by
  induction s with
  | nil =>
      cases b with
      | nil => rfl
      | cons d b => exact run_cons_of_not (edge_some.1 hb)
  | cons d s ih =>
      rw [List.cons_append]
      cases hd : word d with
      | true => rw [run_cons_of_word hd, run_cons_of_word hd, ih]
      | false => rw [run_cons_of_not hd, run_cons_of_not hd]

theorem past_append {b : List α} {rest : List α} (h : past word s = c :: rest) :
    past word (s ++ b) = c :: (rest ++ b) := by
  have hs : run word s ++ c :: rest = s := by rw [← h, run_append_past]
  have hc : word c = false := by
    have hedge := @edge_past _ word s
    rw [h] at hedge
    exact edge_some.1 hedge
  have hrun : ∀ d ∈ run word s, word d = true := List.all_eq_true.1 List.all_takeWhile
  rw [past, ← hs, List.append_assoc, List.dropWhile_append_of_pos hrun, List.cons_append,
    List.dropWhile_cons_of_neg (by simp [hc])]

/-- What stands between two edges is as clean as the text around it. -/
theorem clean_of_infix {K : List α → Prop} {a b : List α} (hK : Window word safe seps K)
    (ht : Clean word K (a ++ (s ++ b))) (ha : Edge word (after none a)) (hb : Edge word b.head?) :
    Clean word K s := by
  intro pre s' heq hedge hs'
  have halike : Alike word safe seps (s' ++ b) s' := by
    refine ⟨(run_append_of_edge hb).symm, fun c rest' _ hpast => ?_⟩
    exact ⟨rest' ++ b, past_append hpast, .inl (run_append_of_edge hb).symm⟩
  have hplace : Edge word (after none (a ++ pre)) := by
    cases pre with
    | nil => rwa [List.append_nil]
    | cons d pre => rwa [after_append, after_of_ne_nil (List.cons_ne_nil _ _) _ none]
  exact ht (a ++ pre) (s' ++ b) (by rw [heq]; simp) hplace (hK.alike _ _ halike hs')

/-- What holds of the characters of a text and of the blocks holds of the
result. -/
theorem forall_sub {P : α → Prop} (hr : r.Solid) (ht : ∀ c ∈ t, P c)
    (hf : ∀ m ∈ found r t, ∀ c ∈ f m, P c) : ∀ c ∈ sub r f t, P c := by
  intro c hc
  obtain ⟨p, hp, hc⟩ := List.mem_flatMap.1 hc
  cases p with
  | plain d =>
      obtain rfl := List.mem_singleton.1 hc
      have htext := (scanned_scan hr none t).text
      exact ht c (htext ▸ List.mem_flatMap.2 ⟨_, hp, List.mem_singleton.2 rfl⟩)
  | hit m => exact hf m (mem_found.2 hp) c hc

/-- What is found in a text is made of its characters. -/
theorem mem_of_found (hr : r.Solid) (hm : m ∈ found r t) : ∀ c ∈ m, c ∈ t := by
  intro c hc
  have htext := (scanned_scan hr none t).text
  exact htext ▸ List.mem_flatMap.2 ⟨_, mem_found.1 hm, hc⟩

end render

end Regex

end NeuroVoice
