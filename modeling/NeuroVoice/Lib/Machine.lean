import NeuroVoice.Lib.Prog
import Mathlib.Data.List.Basic
import Mathlib.Tactic.Tauto

/-!
# NeuroVoice.Lib.Machine

Any number of programs over one shared world, interleaved effect by effect.

A `Machine` says what an effect does to the world, which program a call
runs and what is left of a process that dies.  A `Step` lets one process
perform its next effect, starts a process, lets one finish or die, or lets
time pass; a `Trace` is a finite run from a given world with the list of its
`Trans`itions, so a property of a run can speak about every event in it, in
order, with the worlds before and after.

`Protocol` is the proof method.  It replaces each program by the state of a
monitor the program conforms to (`Monitor`, `NeuroVoice.Lib.Prog`):
`Trace.protocol` turns every run of the machine into a run of the monitors
with the very same transitions.  Invariants are then proved over worlds and
monitor states and never mention a program.
-/

namespace NeuroVoice

/-- What the processes run on: `exec p e o w` performs effect `e` of process
`p` in world `w`; the oracle `o` settles what the environment is free to
choose, and `none` means that this choice is not possible here (the call
blocks, or the oracle does not fit the effect). -/
structure Machine (W E : Type) (A : E → Type) (O C R : Type) where
  exec : Nat → (e : E) → O → W → Option (A e × W)
  start : C → Prog E A R
  /-- What the world keeps of a process that died. -/
  halt : Nat → W → W
  /-- Time passing. -/
  tick : Nat → W → W

/-- A process: not started, running, or over. -/
inductive Proc (E : Type) (A : E → Type) (R : Type) where
  | absent
  | running (p : Prog E A R)
  | gone

/-- A machine state. -/
structure Config (W E : Type) (A : E → Type) (R : Type) where
  world : W
  procs : Nat → Proc E A R

/-- What happened in one step. -/
inductive Event (E : Type) (A : E → Type) (C R : Type) where
  | act (p : Nat) (e : E) (a : A e)
  | spawn (p : Nat) (c : C)
  | done (p : Nat) (r : R)
  | crash (p : Nat)
  | tick (d : Nat)

/-- One transition of a run: the worlds around an event. -/
structure Trans (W E : Type) (A : E → Type) (C R : Type) where
  pre : W
  ev : Event E A C R
  post : W

variable {W E : Type} {A : E → Type} {O C R φ : Type}

/-- One step of the machine. -/
inductive Step (M : Machine W E A O C R) :
    Config W E A R → Event E A C R → Config W E A R → Prop where
  | act {c p e k o a w'} (hp : c.procs p = .running (.eff e k))
      (hx : M.exec p e o c.world = some (a, w')) :
      Step M c (.act p e a) ⟨w', Function.update c.procs p (.running (k a))⟩
  | spawn {c p call} (hp : c.procs p = .absent) :
      Step M c (.spawn p call) ⟨c.world, Function.update c.procs p (.running (M.start call))⟩
  | done {c p r} (hp : c.procs p = .running (.ret r)) :
      Step M c (.done p r) ⟨c.world, Function.update c.procs p .gone⟩
  | crash {c p prog} (hp : c.procs p = .running prog) :
      Step M c (.crash p) ⟨M.halt p c.world, Function.update c.procs p .gone⟩
  | tick {c d} : Step M c (.tick d) ⟨M.tick d c.world, c.procs⟩

/-- A finite run from `w₀`, no process started, with its transitions. -/
inductive Trace (M : Machine W E A O C R) (w₀ : W) :
    List (Trans W E A C R) → Config W E A R → Prop where
  | nil : Trace M w₀ [] ⟨w₀, fun _ => .absent⟩
  | snoc {ts c ev c'} (h : Trace M w₀ ts c) (s : Step M c ev c') :
      Trace M w₀ (ts ++ [⟨c.world, ev, c'.world⟩]) c'

/-! ## speaking about runs -/

/-- Every item of a list, after those before it, satisfies `C`. -/
def Always {T : Type} (C : List T → T → Prop) (ts : List T) : Prop :=
  ∀ past t rest, ts = past ++ t :: rest → C past t

/-- Some item of a list, after those before it, satisfies `C`. -/
def Once {T : Type} (C : List T → T → Prop) (ts : List T) : Prop :=
  ∃ past t rest, ts = past ++ t :: rest ∧ C past t

section runs

variable {T : Type} {C D : List T → T → Prop} {ts : List T} {t : T}

theorem always_nil : Always C [] := by
  intro past t rest h
  cases past <;> cases h

theorem not_once_nil : ¬Once C [] := by
  rintro ⟨past, t, rest, h, -⟩
  cases past <;> cases h

theorem always_snoc : Always C (ts ++ [t]) ↔ Always C ts ∧ C ts t := by
  constructor
  · intro h
    exact ⟨fun past t' rest ht => h past t' (rest ++ [t]) (by simp [ht]), h ts t [] rfl⟩
  · rintro ⟨h, ht⟩ past t' rest hs
    rcases List.eq_nil_or_concat rest with rfl | ⟨rest, t'', rfl⟩
    · obtain ⟨rfl, h'⟩ := List.append_inj' hs rfl
      cases h'
      exact ht
    · have hs' : ts ++ [t] = (past ++ t' :: rest) ++ [t''] := by simp [hs]
      obtain ⟨rfl, -⟩ := List.append_inj' hs' rfl
      exact h past t' rest rfl

theorem once_snoc : Once C (ts ++ [t]) ↔ Once C ts ∨ C ts t := by
  have hneg : ∀ us : List T, Once C us ↔ ¬Always (fun past t => ¬C past t) us := by
    intro us
    simp only [Once, Always, not_forall, not_not, exists_prop]
  rw [hneg, hneg, always_snoc]
  tauto

theorem Always.mono (h : Always C ts) (hCD : ∀ past t, C past t → D past t) : Always D ts :=
  fun past t rest hs => hCD past t (h past t rest hs)

theorem Once.mono (h : Once C ts) (hCD : ∀ past t, C past t → D past t) : Once D ts := by
  obtain ⟨past, t, rest, hs, ht⟩ := h
  exact ⟨past, t, rest, hs, hCD past t ht⟩

/-- What has happened stays. -/
theorem Once.append (h : Once C ts) (us : List T) : Once C (ts ++ us) := by
  obtain ⟨past, t, rest, rfl, ht⟩ := h
  exact ⟨past, t, rest ++ us, by simp, ht⟩

/-- Deciding `Always`, left to right. -/
def decideAlways (C : List T → T → Prop) [∀ past t, Decidable (C past t)] :
    List T → List T → Bool
  | _, [] => true
  | past, t :: rest => decide (C past t) && decideAlways C (past ++ [t]) rest

theorem decideAlways_iff [∀ past t, Decidable (C past t)] (past : List T) :
    decideAlways C past ts = true ↔ Always (fun past' t => C (past ++ past') t) ts := by
  induction ts generalizing past with
  | nil => simp [decideAlways, always_nil]
  | cons t ts ih =>
      simp only [decideAlways, Bool.and_eq_true, decide_eq_true_eq, ih]
      constructor
      · rintro ⟨ht, h⟩ past' t' rest hs
        cases past' with
        | nil => cases hs; simpa using ht
        | cons a past' =>
            cases hs
            simpa using h past' t' rest rfl
      · intro h
        refine ⟨by simpa using h [] t ts rfl, fun past' t' rest hs => ?_⟩
        simpa using h (t :: past') t' rest (by rw [hs]; rfl)

instance [∀ past t, Decidable (C past t)] : Decidable (Always C ts) :=
  decidable_of_iff (decideAlways C [] ts = true) (decideAlways_iff [])

instance [∀ past t, Decidable (C past t)] : Decidable (Once C ts) :=
  decidable_of_iff (¬Always (fun past t => ¬C past t) ts) (by
    simp only [Once, Always, not_forall, not_not, exists_prop])

end runs

/-! ## running a schedule -/

/-- What a scheduler decides: who moves and what the environment answers. -/
inductive Label (O C : Type) where
  | act (p : Nat) (o : O)
  | spawn (p : Nat) (c : C)
  | done (p : Nat)
  | crash (p : Nat)
  | tick (d : Nat)

/-- Perform one scheduling decision, if it is possible. -/
def Machine.step (M : Machine W E A O C R) (c : Config W E A R) :
    Label O C → Option (Event E A C R × Config W E A R)
  | .act p o =>
      match c.procs p with
      | .running (.eff e k) =>
          match M.exec p e o c.world with
          | some (a, w') =>
              some (.act p e a, ⟨w', Function.update c.procs p (.running (k a))⟩)
          | none => none
      | _ => none
  | .spawn p call =>
      match c.procs p with
      | .absent =>
          some (.spawn p call,
            ⟨c.world, Function.update c.procs p (.running (M.start call))⟩)
      | _ => none
  | .done p =>
      match c.procs p with
      | .running (.ret r) => some (.done p r, ⟨c.world, Function.update c.procs p .gone⟩)
      | _ => none
  | .crash p =>
      match c.procs p with
      | .running _ => some (.crash p, ⟨M.halt p c.world, Function.update c.procs p .gone⟩)
      | _ => none
  | .tick d => some (.tick d, ⟨M.tick d c.world, c.procs⟩)

/-- Perform a whole schedule, newest transition first. -/
def Machine.play (M : Machine W E A O C R) :
    List (Label O C) → List (Trans W E A C R) × Config W E A R →
      Option (List (Trans W E A C R) × Config W E A R)
  | [], s => some s
  | l :: ls, (ts, c) =>
      match M.step c l with
      | some (ev, c') => M.play ls (⟨c.world, ev, c'.world⟩ :: ts, c')
      | none => none

/-- A scheduling decision that is possible is a step. -/
theorem Machine.step_sound {M : Machine W E A O C R} {c c' : Config W E A R}
    {l : Label O C} {ev : Event E A C R} (h : M.step c l = some (ev, c')) : Step M c ev c' := by
  cases l with
  | act p o =>
      simp only [Machine.step] at h
      split at h
      · next e k hp =>
          split at h
          · next a w' hx =>
              cases h
              exact .act hp hx
          · contradiction
      · contradiction
  | spawn p call =>
      simp only [Machine.step] at h
      split at h
      · next hp => cases h; exact .spawn hp
      · contradiction
  | done p =>
      simp only [Machine.step] at h
      split at h
      · next r hp => cases h; exact .done hp
      · contradiction
  | crash p =>
      simp only [Machine.step] at h
      split at h
      · next prog hp => cases h; exact .crash hp
      · contradiction
  | tick d => cases h; exact .tick

/-- A schedule that can be performed is a run. -/
theorem Machine.play_sound {M : Machine W E A O C R} {w₀ : W} {ls : List (Label O C)}
    {ts ts' : List (Trans W E A C R)} {c c' : Config W E A R}
    (h : M.play ls (ts, c) = some (ts', c')) (ht : Trace M w₀ ts.reverse c) :
    Trace M w₀ ts'.reverse c' := by
  induction ls generalizing ts c with
  | nil => cases h; exact ht
  | cons l ls ih =>
      simp only [Machine.play] at h
      split at h
      · next ev c₁ hs =>
          refine ih h ?_
          rw [List.reverse_cons]
          exact .snoc ht (Machine.step_sound hs)
      · contradiction

/-- A schedule that can be performed shows that there is such a run. -/
theorem Machine.exists_trace (M : Machine W E A O C R) (w₀ : W) (ls : List (Label O C))
    (P : List (Trans W E A C R) → W → Prop) [∀ ts w, Decidable (P ts w)]
    (h : ((M.play ls ([], ⟨w₀, fun _ => .absent⟩)).any fun r =>
      decide (P r.1.reverse r.2.world)) = true) :
    ∃ ts c, Trace M w₀ ts c ∧ P ts c.world := by
  obtain ⟨⟨ts, c⟩, hp, hP⟩ := (Option.any_eq_true _ _).1 h
  exact ⟨ts.reverse, c, Machine.play_sound hp .nil, by simpa using hP⟩

/-- Process `p` goes on alone, answered by `os`: its transitions, what is
left of it, and the world it leaves. -/
def Machine.solo (M : Machine W E A O C R) (p : Nat) :
    List O → Prog E A R → W → Option (List (Trans W E A C R) × Prog E A R × W)
  | [], prog, w => some ([], prog, w)
  | _ :: _, .ret _, _ => none
  | o :: os, .eff e k, w =>
      match M.exec p e o w with
      | some (a, w₁) =>
          (M.solo p os (k a) w₁).map fun r => (⟨w, .act p e a, w₁⟩ :: r.1, r.2)
      | none => none

theorem Machine.solo_cons {M : Machine W E A O C R} {p : Nat} {e : E} {k : A e → Prog E A R}
    {o : O} {os : List O} {a : A e} {w w₁ w' : W} {us : List (Trans W E A C R)}
    {prog prog' : Prog E A R} (hx : M.exec p e o w = some (a, w₁)) (hk : k a = prog)
    (hs : M.solo p os prog w₁ = some (us, prog', w')) :
    M.solo p (o :: os) (.eff e k) w = some (⟨w, .act p e a, w₁⟩ :: us, prog', w') := by
  subst hk
  simp [Machine.solo, hx, hs]

/-- A run goes on with the steps of one process. -/
theorem Trace.solo {M : Machine W E A O C R} {w₀ w' : W} {ts us : List (Trans W E A C R)}
    {c : Config W E A R} {p : Nat} {os : List O} {prog prog' : Prog E A R}
    (h : Trace M w₀ ts c) (hp : c.procs p = .running prog)
    (hs : M.solo p os prog c.world = some (us, prog', w')) :
    Trace M w₀ (ts ++ us) ⟨w', Function.update c.procs p (.running prog')⟩ := by
  induction os generalizing ts us c prog with
  | nil =>
      cases hs
      rw [← hp, Function.update_eq_self, List.append_nil]
      exact h
  | cons o os ih =>
      cases prog with
      | ret r => cases hs
      | eff e k =>
          simp only [Machine.solo] at hs
          split at hs
          · next a w₁ hx =>
              obtain ⟨⟨us₁, rest⟩, hrest, hus⟩ := Option.map_eq_some_iff.1 hs
              cases hus
              have h₁ := h.snoc (.act hp hx)
              have := ih h₁ (Function.update_self ..) hrest
              rwa [List.append_assoc, List.singleton_append, Function.update_idem] at this
          · cases hs

/-! ## monitors in place of programs -/

/-- A monitor for every process of a machine: where a call starts, what it
may do, and with which results it may finish. -/
structure Protocol (E : Type) (A : E → Type) (C R φ : Type) extends Monitor E A φ where
  init : C → φ
  fin : φ → R → Prop

/-- One step of the monitors over the world. -/
inductive PStep (M : Machine W E A O C R) (P : Protocol E A C R φ) :
    W → (Nat → Option φ) → Event E A C R → W → (Nat → Option φ) → Prop where
  | act {w ph p s e o a w'} (hs : ph p = some s) (hx : M.exec p e o w = some (a, w'))
      (hal : P.allows s e) :
      PStep M P w ph (.act p e a) w' (Function.update ph p (some (P.next s e a)))
  | spawn {w ph p call} (hs : ph p = none) :
      PStep M P w ph (.spawn p call) w (Function.update ph p (some (P.init call)))
  | done {w ph p s r} (hs : ph p = some s) (hf : P.fin s r) :
      PStep M P w ph (.done p r) w (Function.update ph p none)
  | crash {w ph p s} (hs : ph p = some s) :
      PStep M P w ph (.crash p) (M.halt p w) (Function.update ph p none)
  | tick {w ph d} : PStep M P w ph (.tick d) (M.tick d w) ph

namespace PStep

variable {M : Machine W E A O C R} {P : Protocol E A C R φ} {w w' : W} {ph ph' : Nat → Option φ}
  {p : Nat}

theorem act_inv {e : E} {a : A e} (h : PStep M P w ph (.act p e a) w' ph') :
    ∃ s o, ph p = some s ∧ M.exec p e o w = some (a, w') ∧ P.allows s e := by
  cases h with
  | act hs hx hal => exact ⟨_, _, hs, hx, hal⟩

theorem spawn_inv {call : C} (h : PStep M P w ph (.spawn p call) w' ph') :
    ph p = none ∧ w' = w := by
  cases h with
  | spawn hs => exact ⟨hs, rfl⟩

theorem done_inv {r : R} (h : PStep M P w ph (.done p r) w' ph') :
    ∃ s, ph p = some s ∧ P.fin s r ∧ w' = w := by
  cases h with
  | done hs hf => exact ⟨_, hs, hf, rfl⟩

theorem crash_inv (h : PStep M P w ph (.crash p) w' ph') :
    ∃ s, ph p = some s ∧ w' = M.halt p w := by
  cases h with
  | crash hs => exact ⟨_, hs, rfl⟩

theorem tick_inv {d : Nat} (h : PStep M P w ph (.tick d) w' ph') : w' = M.tick d w := by
  cases h with
  | tick => rfl

end PStep

/-- A finite run of the monitors. -/
inductive PTrace (M : Machine W E A O C R) (P : Protocol E A C R φ) (w₀ : W) :
    List (Trans W E A C R) → W → (Nat → Option φ) → Prop where
  | nil : PTrace M P w₀ [] w₀ fun _ => none
  | snoc {ts w ph ev w' ph'} (h : PTrace M P w₀ ts w ph) (s : PStep M P w ph ev w' ph') :
      PTrace M P w₀ (ts ++ [⟨w, ev, w'⟩]) w' ph'

/-- A running process conforms to its monitor; any other has none. -/
def Tracked (P : Protocol E A C R φ) : Proc E A R → Option φ → Prop
  | .running p, some s => Conforms P.toMonitor s p P.fin
  | .running _, none => False
  | _, s => s = none

@[simp] theorem tracked_running (P : Protocol E A C R φ) (p : Prog E A R) (s : φ) :
    Tracked P (.running p) (some s) ↔ Conforms P.toMonitor s p P.fin :=
  Iff.rfl

/-- The machine answers as the protocol expects, and every call's program
conforms to it. -/
structure Machine.Follows (M : Machine W E A O C R) (P : Protocol E A C R φ) : Prop where
  answers : ∀ {p e o w a w'}, M.exec p e o w = some (a, w') → P.possible e a
  conforms : ∀ call, Conforms P.toMonitor (P.init call) (M.start call) P.fin

/-- The step lemma of `Trace.protocol`. -/
theorem Step.protocol {M : Machine W E A O C R} {P : Protocol E A C R φ}
    (hM : M.Follows P) {c c' : Config W E A R} {ev : Event E A C R} (h : Step M c ev c')
    {ph : Nat → Option φ} (ht : ∀ p, Tracked P (c.procs p) (ph p)) :
    ∃ ph', PStep M P c.world ph ev c'.world ph' ∧ ∀ p, Tracked P (c'.procs p) (ph' p) := by
  cases h with
  | @act p e k o a w' hp hx =>
      have hc := ht p
      rw [hp] at hc
      cases hs : ph p with
      | none => rw [hs] at hc; exact hc.elim
      | some s =>
          rw [hs] at hc
          have hk := hc.2 a (hM.answers hx)
          refine ⟨_, .act hs hx hc.1, fun q => ?_⟩
          by_cases hq : q = p
          · subst hq; simpa using hk
          · simpa [hq] using ht q
  | @spawn p call hp =>
      have hc := ht p
      rw [hp] at hc
      refine ⟨_, .spawn hc, fun q => ?_⟩
      by_cases hq : q = p
      · subst hq; simpa using hM.conforms call
      · simpa [hq] using ht q
  | @done p r hp =>
      have hc := ht p
      rw [hp] at hc
      cases hs : ph p with
      | none => rw [hs] at hc; exact hc.elim
      | some s =>
          rw [hs] at hc
          refine ⟨_, .done hs hc, fun q => ?_⟩
          by_cases hq : q = p
          · subst hq; simp [Tracked]
          · simpa [hq] using ht q
  | @crash p prog hp =>
      have hc := ht p
      rw [hp] at hc
      cases hs : ph p with
      | none => rw [hs] at hc; exact hc.elim
      | some s =>
          refine ⟨_, .crash hs, fun q => ?_⟩
          by_cases hq : q = p
          · subst hq; simp [Tracked]
          · simpa [hq] using ht q
  | tick => exact ⟨ph, .tick, ht⟩

/-- **Simulation**: every run of the machine is a run of the monitors, with
the same transitions. -/
theorem Trace.protocol {M : Machine W E A O C R} {P : Protocol E A C R φ}
    (hM : M.Follows P) {w₀ : W} {ts : List (Trans W E A C R)} {c : Config W E A R}
    (h : Trace M w₀ ts c) :
    ∃ ph, PTrace M P w₀ ts c.world ph ∧ ∀ p, Tracked P (c.procs p) (ph p) := by
  induction h with
  | nil => exact ⟨_, .nil, fun p => rfl⟩
  | snoc _ s ih =>
      obtain ⟨ph, htr, ht⟩ := ih
      obtain ⟨ph', hs, ht'⟩ := s.protocol hM ht
      exact ⟨ph', .snoc htr hs, ht'⟩

end NeuroVoice
