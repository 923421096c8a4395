import NeuroVoice.Lib.Watch

/-!
# NeuroVoice.Lib.Diary

What a process of a run has done itself.

`own p ts` is the diary of process `p`: what it performed in the run `ts`, with
the answers it got.  If every call's program only performs what its diary
warrants, and only returns what its diary justifies (`Machine.Keeps`), then so
does every process of every run (`Trace.diary`), whoever else acts in between.
-/

namespace NeuroVoice

variable {W E : Type} {A : E → Type} {O C R : Type} {M : Machine W E A O C R}

/-- What a process has performed, with the answers. -/
abbrev Diary (E : Type) (A : E → Type) : Type := List ((e : E) × A e)

/-- What one transition adds to the diary of `p`. -/
def Event.entry (p : Nat) : Event E A C R → Diary E A
  | .act q e a => if q = p then [⟨e, a⟩] else []
  | _ => []

/-- The diary of `p`. -/
def own (p : Nat) (ts : List (Trans W E A C R)) : Diary E A := ts.flatMap fun t => t.ev.entry p

/-- Process `p` was started with this call. -/
def Spawned (p : Nat) (call : C) (ts : List (Trans W E A C R)) : Prop :=
  ∃ t ∈ ts, t.ev = .spawn p call

section diaries

variable {p : Nat} {ts us : List (Trans W E A C R)} {t : Trans W E A C R} {call : C}

@[simp] theorem own_nil : own p ([] : List (Trans W E A C R)) = [] := rfl

@[simp] theorem own_append : own p (ts ++ us) = own p ts ++ own p us := List.flatMap_append ..

@[simp] theorem own_singleton : own p [t] = t.ev.entry p := List.append_nil _

/-- An entry of a diary is an event of the run. -/
theorem mem_own {e : E} {a : A e} : ⟨e, a⟩ ∈ own p ts ↔ ∃ t ∈ ts, t.ev = .act p e a := by
  unfold own
  rw [List.mem_flatMap]
  refine exists_congr fun t => and_congr_right fun _ => ?_
  cases t.ev with
  | act q e' a' =>
      by_cases hq : q = p
      · subst hq
        simp only [Event.entry, if_pos, List.mem_singleton, Event.act.injEq, true_and]
        constructor
        · intro h
          cases h
          exact ⟨rfl, HEq.rfl⟩
        · rintro ⟨rfl, h⟩
          cases h
          rfl
      · simp [Event.entry, hq]
  | _ => simp [Event.entry]

/-- A diary grows with the run: its beginnings are the diaries of beginnings. -/
theorem own_eq_append {h h' : Diary E A} (hown : own p ts = h ++ h') :
    ∃ ts₁ ts₂, ts = ts₁ ++ ts₂ ∧ own p ts₁ = h ∧ own p ts₂ = h' := by
  induction ts generalizing h with
  | nil =>
      obtain ⟨rfl, rfl⟩ := List.append_eq_nil_iff.1 hown.symm
      exact ⟨[], [], rfl, rfl, rfl⟩
  | cons t ts ih =>
      have hcons : own p (t :: ts) = t.ev.entry p ++ own p ts := rfl
      cases h with
      | nil => exact ⟨[], t :: ts, rfl, rfl, hown⟩
      | cons x h =>
          have hshort : t.ev.entry p = [] ∨ ∃ y, t.ev.entry p = [y] := by
            cases t.ev with
            | act q e a => by_cases hq : q = p <;> simp [Event.entry, hq]
            | _ => exact .inl rfl
          obtain hnil | ⟨y, hy⟩ := hshort
          · rw [hcons, hnil, List.nil_append] at hown
            obtain ⟨ts₁, ts₂, rfl, h₁, h₂⟩ := ih hown
            refine ⟨t :: ts₁, ts₂, rfl, ?_, h₂⟩
            rw [← List.singleton_append, own_append, own_singleton, hnil, h₁, List.nil_append]
          · rw [hcons, hy, List.singleton_append, List.cons_append] at hown
            obtain ⟨rfl, hrest⟩ := List.cons.inj hown
            obtain ⟨ts₁, ts₂, rfl, h₁, h₂⟩ := ih hrest
            refine ⟨t :: ts₁, ts₂, rfl, ?_, h₂⟩
            rw [← List.singleton_append, own_append, own_singleton, hy, h₁, List.singleton_append]

theorem Spawned.append (h : Spawned p call ts) (us : List (Trans W E A C R)) :
    Spawned p call (ts ++ us) := by
  obtain ⟨t, ht, hev⟩ := h
  exact ⟨t, List.mem_append_left _ ht, hev⟩

/-- What a monitor knows of a process, it knows of the process's call. -/
theorem Protocol.spawned_of_watch {φ : Type} {P : Protocol E A C R φ} {I : φ → C → Prop}
    (hinit : ∀ call, I (P.init call) call)
    (hnext : ∀ s e (a : A e) call, I s call → I (P.next s e a) call) {s : φ}
    (hs : P.watch p ts = some s) : ∃ call, Spawned p call ts ∧ I s call := by
  have hlater {u : Trans W E A C R} {us : List (Trans W E A C R)} {s : φ}
      (h : ∃ call, Spawned p call us ∧ I s call) : ∃ call, Spawned p call (us ++ [u]) ∧ I s call := by
    obtain ⟨call, hcall, hi⟩ := h
    exact ⟨call, hcall.append _, hi⟩
  induction ts using List.reverseRecOn generalizing s with
  | nil => cases hs
  | append_singleton ts t ih =>
      rw [watch_snoc] at hs
      unfold observe at hs
      split at hs
      · split at hs
        · obtain ⟨s₀, hs₀, rfl⟩ := Option.map_eq_some_iff.1 hs
          obtain ⟨call, hcall, hi⟩ := ih hs₀
          exact ⟨call, hcall.append _, hnext _ _ _ _ hi⟩
        · exact hlater (ih hs)
      · next q call hev =>
          split at hs
          · next hq =>
              subst hq
              cases hs
              exact ⟨call, ⟨t, by simp, hev⟩, hinit call⟩
          · exact hlater (ih hs)
      · split at hs
        · cases hs
        · exact hlater (ih hs)
      · split at hs
        · cases hs
        · exact hlater (ih hs)
      · exact hlater (ih hs)

end diaries

/-! ## programs that keep to their diaries -/

/-- The diary as a monitor. -/
def Monitor.diary (possible : (e : E) → A e → Prop) (allows : Diary E A → E → Prop) :
    Monitor E A (Diary E A) where
  possible := possible
  allows := allows
  next h e a := h ++ [⟨e, a⟩]

/-- Every call's program performs what its diary `warrants`, and returns what
its diary `justifies`. -/
structure Machine.Keeps (M : Machine W E A O C R) (possible : (e : E) → A e → Prop)
    (warrants : C → Diary E A → E → Prop) (justifies : C → Diary E A → R → Prop) : Prop where
  answers : ∀ {p e o w a w'}, M.exec p e o w = some (a, w') → possible e a
  conforms : ∀ call,
    Conforms (.diary possible (warrants call)) [] (M.start call) (justifies call)

section runs

variable {possible : (e : E) → A e → Prop} {warrants : C → Diary E A → E → Prop}
  {justifies : C → Diary E A → R → Prop}

/-- What is known of a process: before its start nothing has happened, and what
is left of its program goes on from its diary. -/
def InDiary (possible : (e : E) → A e → Prop) (warrants : C → Diary E A → E → Prop)
    (justifies : C → Diary E A → R → Prop) (ts : List (Trans W E A C R)) (p : Nat) :
    Proc E A R → Prop
  | .absent => own p ts = [] ∧ ∀ call, ¬Spawned p call ts
  | .running prog => ∃ call, (∀ other, Spawned p other ts ↔ other = call) ∧
      Conforms (.diary possible (warrants call)) (own p ts) prog (justifies call)
  | .gone => True

/-- An event that the diary of its process accounts for. -/
def Accountable (warrants : C → Diary E A → E → Prop) (justifies : C → Diary E A → R → Prop)
    (past : List (Trans W E A C R)) (t : Trans W E A C R) : Prop :=
  match t.ev with
  | .act p e _ => ∃ call, (∀ other, Spawned p other past ↔ other = call) ∧
      warrants call (own p past) e
  | .done p r => ∃ call, (∀ other, Spawned p other past ↔ other = call) ∧
      justifies call (own p past) r
  | _ => True

theorem spawned_append {p : Nat} {call : C} {ts us : List (Trans W E A C R)} :
    Spawned p call (ts ++ us) ↔ Spawned p call ts ∨ Spawned p call us := by
  simp only [Spawned, List.mem_append, or_and_right, exists_or]

theorem spawned_singleton {p : Nat} {call : C} {t : Trans W E A C R} :
    Spawned p call [t] ↔ t.ev = .spawn p call := by
  simp [Spawned]

/-- An event of another process leaves what is known. -/
theorem InDiary.other {p : Nat} {proc : Proc E A R} {ts : List (Trans W E A C R)}
    {t : Trans W E A C R} (h : InDiary possible warrants justifies ts p proc)
    (hentry : t.ev.entry p = []) (hspawn : ∀ call, t.ev ≠ .spawn p call) :
    InDiary possible warrants justifies (ts ++ [t]) p proc := by
  have hown : own p (ts ++ [t]) = own p ts := by
    rw [own_append, own_singleton, hentry, List.append_nil]
  have hsame : ∀ call, Spawned p call (ts ++ [t]) ↔ Spawned p call ts := by
    intro call
    rw [spawned_append, spawned_singleton, or_iff_left (hspawn call)]
  cases proc with
  | absent => exact ⟨hown.trans h.1, fun call hcall => h.2 call ((hsame call).1 hcall)⟩
  | running prog =>
      obtain ⟨call, hcall, hprog⟩ := h
      exact ⟨call, fun other => (hsame other).trans (hcall other), hown ▸ hprog⟩
  | gone => trivial

/-- The step lemma of `Trace.diary`. -/
theorem Step.diary (hM : M.Keeps possible warrants justifies) {c c' : Config W E A R}
    {ev : Event E A C R} {ts : List (Trans W E A C R)} (h : Step M c ev c')
    (hk : ∀ p, InDiary possible warrants justifies ts p (c.procs p)) :
    Accountable warrants justifies ts ⟨c.world, ev, c'.world⟩ ∧
      ∀ p, InDiary possible warrants justifies (ts ++ [⟨c.world, ev, c'.world⟩]) p (c'.procs p) := by
  cases h with
  | @act q e k o a w' hq hx =>
      have hkq := hk q
      rw [hq] at hkq
      obtain ⟨call, hcall, hal, hrest⟩ := hkq
      refine ⟨⟨call, hcall, hal⟩, fun p => ?_⟩
      by_cases hp : p = q
      · subst hp
        simp only [Function.update_self]
        refine ⟨call, fun other => ?_, ?_⟩
        · rw [spawned_append, spawned_singleton, hcall other]
          simp
        · rw [own_append, own_singleton, Event.entry, if_pos rfl]
          exact hrest a (hM.answers hx)
      · simp only [Function.update_of_ne hp]
        exact (hk p).other (by simp [Event.entry, Ne.symm hp]) (by simp)
  | @spawn q call hq =>
      refine ⟨trivial, fun p => ?_⟩
      by_cases hp : p = q
      · subst hp
        have hkp := hk p
        rw [hq] at hkp
        simp only [Function.update_self]
        refine ⟨call, fun other => ?_, ?_⟩
        · rw [spawned_append, spawned_singleton, or_iff_right (hkp.2 other)]
          simp [eq_comm]
        · rw [own_append, own_singleton, hkp.1]
          exact hM.conforms call
      · simp only [Function.update_of_ne hp]
        exact (hk p).other rfl (by simp [Ne.symm hp])
  | @done q r hq =>
      have hkq := hk q
      rw [hq] at hkq
      obtain ⟨call, hcall, hfin⟩ := hkq
      refine ⟨⟨call, hcall, hfin⟩, fun p => ?_⟩
      by_cases hp : p = q
      · subst hp
        simp only [Function.update_self]
        trivial
      · simp only [Function.update_of_ne hp]
        exact (hk p).other rfl (by simp)
  | @crash q prog hq =>
      refine ⟨trivial, fun p => ?_⟩
      by_cases hp : p = q
      · subst hp
        simp only [Function.update_self]
        trivial
      · simp only [Function.update_of_ne hp]
        exact (hk p).other rfl (by simp)
  | tick => exact ⟨trivial, fun p => (hk p).other rfl (by simp)⟩

/-- **Diaries**: in every run, every process performs what its own diary
warrants and returns what it justifies. -/
theorem Trace.diary (hM : M.Keeps possible warrants justifies) {w₀ : W}
    {ts : List (Trans W E A C R)} {c : Config W E A R} (h : Trace M w₀ ts c) :
    Always (Accountable warrants justifies) ts ∧
      ∀ p, InDiary possible warrants justifies ts p (c.procs p) := by
  induction h with
  | nil => exact ⟨always_nil, fun p => ⟨rfl, fun call h => by simp [Spawned] at h⟩⟩
  | snoc _ hs ih =>
      obtain ⟨hacc, hkept⟩ := hs.diary hM ih.2
      exact ⟨always_snoc.2 ⟨ih.1, hacc⟩, hkept⟩

/-- What a process has performed, its diary warrants. -/
theorem Accountable.warranted {past : List (Trans W E A C R)} {t : Trans W E A C R} {p : Nat}
    {e : E} {a : A e} {call : C} (h : Accountable warrants justifies past t)
    (hev : t.ev = .act p e a) (hcall : Spawned p call past) : warrants call (own p past) e := by
  unfold Accountable at h
  rw [hev] at h
  obtain ⟨other, hother, hal⟩ := h
  rw [(hother call).1 hcall]
  exact hal

/-- What a process has returned, its diary justifies. -/
theorem Accountable.justified {past : List (Trans W E A C R)} {t : Trans W E A C R} {p : Nat}
    {r : R} {call : C} (h : Accountable warrants justifies past t)
    (hev : t.ev = .done p r) (hcall : Spawned p call past) : justifies call (own p past) r := by
  unfold Accountable at h
  rw [hev] at h
  obtain ⟨other, hother, hfin⟩ := h
  rw [(hother call).1 hcall]
  exact hfin

/-- Nothing is performed by a process that has no call. -/
theorem Accountable.of_act {past : List (Trans W E A C R)} {t : Trans W E A C R} {p : Nat}
    {e : E} {a : A e} (h : Accountable warrants justifies past t) (hev : t.ev = .act p e a) :
    ∃ call, Spawned p call past ∧ warrants call (own p past) e := by
  unfold Accountable at h
  rw [hev] at h
  obtain ⟨call, hcall, hal⟩ := h
  exact ⟨call, (hcall call).2 rfl, hal⟩

end runs

/-! ## earlier moments -/

section moments

variable {w₀ : W} {past rest : List (Trans W E A C R)} {t : Trans W E A C R} {c : Config W E A R}

/-- A run goes on from any of its moments. -/
theorem Trace.split {us : List (Trans W E A C R)} (h : Trace M w₀ (past ++ us) c) :
    ∃ c₀, Trace M w₀ past c₀ := by
  induction us using List.reverseRecOn generalizing c with
  | nil => exact ⟨c, by simpa using h⟩
  | append_singleton us u ih =>
      rw [← List.append_assoc] at h
      generalize hts : past ++ us ++ [u] = ts at h
      cases h with
      | nil => simp at hts
      | snoc h _ =>
          obtain ⟨rfl, -⟩ := List.append_inj' hts rfl
          exact ih h

/-- The last step of a run. -/
theorem Trace.last (h : Trace M w₀ (past ++ [t]) c) :
    ∃ c₀, Trace M w₀ past c₀ ∧ c₀.world = t.pre ∧ c.world = t.post ∧ Step M c₀ t.ev c := by
  generalize hts : past ++ [t] = ts at h
  cases h with
  | nil => simp at hts
  | snoc h hs =>
      obtain ⟨rfl, ht⟩ := List.append_inj' hts rfl
      cases ht
      exact ⟨_, h, rfl, rfl, hs⟩

/-- The transitions of a run determine the world it ends in. -/
theorem Trace.world_eq {c' : Config W E A R} (h : Trace M w₀ past c) (h' : Trace M w₀ past c') :
    c.world = c'.world := by
  cases past using List.reverseRecOn with
  | nil =>
      have hnil : ∀ {c}, Trace M w₀ [] c → c.world = w₀ := by
        intro c h
        generalize hts : ([] : List (Trans W E A C R)) = ts at h
        cases h with
        | nil => rfl
        | snoc h _ => simp at hts
      rw [hnil h, hnil h']
  | append_singleton past t =>
      obtain ⟨-, -, -, hpost, -⟩ := h.last
      obtain ⟨-, -, -, hpost', -⟩ := h'.last
      rw [hpost, hpost']

/-- The step at any moment of a run. -/
theorem Trace.moment (h : Trace M w₀ (past ++ t :: rest) c) :
    ∃ c₀ c₁, Trace M w₀ past c₀ ∧ c₀.world = t.pre ∧ c₁.world = t.post ∧ Step M c₀ t.ev c₁ := by
  rw [← List.singleton_append, ← List.append_assoc] at h
  obtain ⟨c₁, h₁⟩ := h.split
  obtain ⟨c₀, h₀, hpre, hpost, hs⟩ := h₁.last
  exact ⟨c₀, c₁, h₀, hpre, hpost, hs⟩

/-- What every step keeps between two worlds, every run keeps from any moment on. -/
theorem Trace.leads {us : List (Trans W E A C R)} {Q : W → W → Prop} (hrefl : ∀ w, Q w w)
    (htrans : ∀ w w' w'', Q w w' → Q w' w'' → Q w w'')
    (hstep : ∀ c ev c', Step M c ev c' → Q c.world c'.world) (h : Trace M w₀ (past ++ us) c) :
    ∃ c₀, Trace M w₀ past c₀ ∧ Q c₀.world c.world := by
  induction us using List.reverseRecOn generalizing c with
  | nil =>
      rw [List.append_nil] at h
      exact ⟨c, h, hrefl _⟩
  | append_singleton us u ih =>
      rw [← List.append_assoc] at h
      obtain ⟨c₁, h₁, -, -, hs⟩ := h.last
      obtain ⟨c₀, h₀, hq⟩ := ih h₁
      exact ⟨c₀, h₀, htrans _ _ _ hq (hstep _ _ _ hs)⟩

/-- A process that has not been started before a step is started by it or not at all. -/
theorem Step.absent {c c' : Config W E A R} {ev : Event E A C R} (h : Step M c ev c') (p : Nat) :
    (c'.procs p = .absent → c.procs p = .absent ∧ ∀ call, ev ≠ .spawn p call) ∧
      ∀ call, ev = .spawn p call → c.procs p = .absent := by
  cases h with
  | @act q e k o a w' hq hx | @done q r hq | @crash q prog hq =>
      by_cases hp : p = q
      · subst hp
        simp
      · simp [hp]
  | @spawn q call hq =>
      by_cases hp : p = q
      · subst hp
        simpa using hq
      · simp [hp, Ne.symm hp]
  | tick => simp

/-- A process has one call. -/
theorem Trace.spawned_unique (h : Trace M w₀ past c) :
    (∀ p, c.procs p = .absent → ∀ call, ¬Spawned p call past) ∧
      ∀ p call call', Spawned p call past → Spawned p call' past → call = call' := by
  induction h with
  | nil => simp [Spawned]
  | @snoc ts c ev c' _ hs ih =>
      obtain ⟨habsent, hone⟩ := ih
      simp only [spawned_append, spawned_singleton]
      refine ⟨fun p hp call h => ?_, fun p call call' h h' => ?_⟩
      · obtain ⟨hp, hev⟩ := (hs.absent p).1 hp
        exact h.elim (habsent p hp call) (hev call)
      · obtain h | h := h
        · obtain h' | h' := h'
          · exact hone p call call' h h'
          · exact absurd h (habsent p ((hs.absent p).2 call' h') call)
        · obtain h' | h' := h'
          · exact absurd h' (habsent p ((hs.absent p).2 call h) call')
          · rw [h] at h'
            cases h'
            rfl

end moments

end NeuroVoice
