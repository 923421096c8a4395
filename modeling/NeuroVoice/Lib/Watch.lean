import NeuroVoice.Lib.Machine
import Mathlib.Data.List.Induction

/-!
# NeuroVoice.Lib.Watch

What a protocol says about the processes of a run.

The events of a run determine the state of every monitor: `Protocol.watch`
computes it.  So a run can be watched through several protocols, each of
which knows what one result needs, and `Trace.induct_watch` goes through the
run with one of them.
-/

namespace NeuroVoice

variable {W E : Type} {A : E → Type} {O C R φ : Type} {M : Machine W E A O C R}
  {P : Protocol E A C R φ}

/-- What an event says about process `p`. -/
def Protocol.observe (P : Protocol E A C R φ) (p : Nat) (o : Option φ) :
    Event E A C R → Option φ
  | .act q e a => if q = p then o.map fun s => P.next s e a else o
  | .spawn q call => if q = p then some (P.init call) else o
  | .done q _ | .crash q => if q = p then none else o
  | .tick _ => o

/-- What the events of a run say about process `p`; `none` while it is not
running. -/
def Protocol.watch (P : Protocol E A C R φ) (p : Nat) (ts : List (Trans W E A C R)) :
    Option φ :=
  ts.foldl (fun o t => P.observe p o t.ev) none

@[simp] theorem Protocol.watch_nil (p : Nat) :
    P.watch p ([] : List (Trans W E A C R)) = none := rfl

theorem Protocol.watch_snoc (p : Nat) (ts : List (Trans W E A C R)) (t : Trans W E A C R) :
    P.watch p (ts ++ [t]) = P.observe p (P.watch p ts) t.ev := by
  simp [watch]

/-- Two protocols watch the same events: what relates their states from the
start on, and is kept by every await, relates them throughout. -/
theorem Protocol.watch_related {ψ : Type} {P' : Protocol E A C R ψ} {I : φ → ψ → Prop}
    (hinit : ∀ call, I (P.init call) (P'.init call))
    (hnext : ∀ s s' e (a : A e), I s s' → I (P.next s e a) (P'.next s' e a)) {p : Nat}
    {ts : List (Trans W E A C R)} {s : φ} {s' : ψ} (hs : P.watch p ts = some s)
    (hs' : P'.watch p ts = some s') : I s s' := by
  induction ts using List.reverseRecOn generalizing s s' with
  | nil => cases hs
  | append_singleton ts t ih =>
      rw [watch_snoc] at hs hs'
      unfold observe at hs hs'
      cases hev : t.ev with
      | act q e a =>
          simp only [hev] at hs hs'
          split at hs
          · next hq =>
              rw [if_pos hq] at hs'
              obtain ⟨s₀, hs₀, rfl⟩ := Option.map_eq_some_iff.1 hs
              obtain ⟨s₀', hs₀', rfl⟩ := Option.map_eq_some_iff.1 hs'
              exact hnext _ _ _ _ (ih hs₀ hs₀')
          · next hq =>
              rw [if_neg hq] at hs'
              exact ih hs hs'
      | spawn q call =>
          simp only [hev] at hs hs'
          split at hs
          · next hq =>
              rw [if_pos hq] at hs'
              cases hs
              cases hs'
              exact hinit call
          · next hq =>
              rw [if_neg hq] at hs'
              exact ih hs hs'
      | done q r | crash q =>
          simp only [hev] at hs hs'
          split at hs
          · cases hs
          · next hq =>
              rw [if_neg hq] at hs'
              exact ih hs hs'
      | tick d =>
          simp only [hev] at hs hs'
          exact ih hs hs'

/-- One step moves the states as its event says. -/
theorem PStep.observe_eq {w w' : W} {ph ph' : Nat → Option φ} {ev : Event E A C R}
    (h : PStep M P w ph ev w' ph') (p : Nat) : ph' p = P.observe p (ph p) ev := by
  cases h with
  | @act q s e o a _ hq hx hal =>
      by_cases h : q = p
      · subst h; simp [Protocol.observe, hq]
      · simp [Protocol.observe, h, Ne.symm h]
  | @spawn q call hq =>
      by_cases h : q = p
      · subst h; simp [Protocol.observe]
      · simp [Protocol.observe, h, Ne.symm h]
  | @done q s r hq hf =>
      by_cases h : q = p
      · subst h; simp [Protocol.observe]
      · simp [Protocol.observe, h, Ne.symm h]
  | @crash q s hq =>
      by_cases h : q = p
      · subst h; simp [Protocol.observe]
      · simp [Protocol.observe, h, Ne.symm h]
  | tick => rfl

/-- The monitors' states are what the events say. -/
theorem PTrace.watch_eq {w₀ w : W} {ph : Nat → Option φ} {ts : List (Trans W E A C R)}
    (h : PTrace M P w₀ ts w ph) : ph = fun p => P.watch p ts := by
  induction h with
  | nil => rfl
  | snoc _ hs ih =>
      funext p
      rw [hs.observe_eq p, ih, Protocol.watch_snoc]

/-- The last step of a run of the monitors. -/
theorem PTrace.last {w₀ w : W} {ph : Nat → Option φ} {ts : List (Trans W E A C R)}
    {t : Trans W E A C R} (h : PTrace M P w₀ (ts ++ [t]) w ph) :
    ∃ ph₀, PStep M P t.pre ph₀ t.ev w ph ∧ PTrace M P w₀ ts t.pre ph₀ := by
  generalize hts : ts ++ [t] = us at h
  cases h with
  | nil => simp at hts
  | snoc h hs =>
      obtain ⟨rfl, ht⟩ := List.append_inj' hts rfl
      cases ht
      exact ⟨_, hs, h⟩

/-- A run, as one protocol sees it. -/
theorem Trace.watched (hM : M.Follows P) {w₀ : W} {ts : List (Trans W E A C R)}
    {c : Config W E A R} (h : Trace M w₀ ts c) :
    PTrace M P w₀ ts c.world fun p => P.watch p ts := by
  obtain ⟨ph, hp, -⟩ := h.protocol hM
  exact hp.watch_eq ▸ hp

/-- The next step of a run, as one protocol sees it. -/
abbrev StepSeen (M : Machine W E A O C R) (P : Protocol E A C R φ) (ts : List (Trans W E A C R))
    (w : W) (ev : Event E A C R) (w' : W) : Prop :=
  PStep M P w (fun p => P.watch p ts) ev w' fun p => P.watch p (ts ++ [⟨w, ev, w'⟩])

/-- **Induction over a run** that is watched through a protocol. -/
theorem Trace.induct_watch (hM : M.Follows P) {w₀ : W} {ts : List (Trans W E A C R)}
    {c : Config W E A R} (h : Trace M w₀ ts c) {I : List (Trans W E A C R) → W → Prop}
    (h₀ : I [] w₀)
    (hstep : ∀ ts c ev c', Trace M w₀ ts c → Step M c ev c' →
      StepSeen M P ts c.world ev c'.world → I ts c.world →
      I (ts ++ [⟨c.world, ev, c'.world⟩]) c'.world) : I ts c.world := by
  induction h with
  | nil => exact h₀
  | @snoc ts c ev c' h s ih =>
      refine hstep ts c ev c' h s ?_ ih
      obtain ⟨ph, hs, hp⟩ := ((h.snoc s).watched hM).last
      rwa [hp.watch_eq] at hs

end NeuroVoice
