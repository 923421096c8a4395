import Mathlib.Logic.Function.Basic

/-!
# NeuroVoice.Lib.Prog

Programs that talk to an environment, as trees.

A `Prog E A α` either returns an `α` or performs an effect `e : E` and
continues with the environment's answer, an `A e`.  A tree is a program
text and nothing else: what an effect does is decided elsewhere (by a
machine, `NeuroVoice.Lib.Machine`), so the same program can be run, raced
against others or reasoned about for every possible answer.

Programs that can fail are `ExceptT X (Prog E A) α`, with `do`, `throw` and
`try … catch`.

A `Monitor` is an automaton over effects and the answers they can have.
`Spec m s x Q R` says that `x`, started with the monitor in state `s`, only
performs effects the monitor allows, whatever the answers are, and ends with
`Q` (returned) or `R` (raised).  The rules below are equivalences, so a specification is
proved by rewriting along the program text.
-/

namespace NeuroVoice

/-- A program: a returned value, or an effect and what follows each answer. -/
inductive Prog (E : Type) (A : E → Type) (α : Type) where
  | ret (a : α)
  | eff (e : E) (k : A e → Prog E A α)

namespace Prog

variable {E : Type} {A : E → Type} {X α β : Type}

/-- Sequential composition: graft the continuation on every leaf. -/
def bind : Prog E A α → (α → Prog E A β) → Prog E A β
  | .ret a, f => f a
  | .eff e k, f => .eff e fun a => (k a).bind f

instance : Monad (Prog E A) where
  pure := .ret
  bind := bind

/-- Perform one effect and return its answer. -/
def perform (e : E) : Prog E A (A e) := .eff e .ret

/-- Run a program with nobody else around; `none` when an effect cannot be
answered. -/
def alone {W : Type} (env : (e : E) → W → Option (A e × W)) : Prog E A α → W → Option (α × W)
  | .ret a, w => some (a, w)
  | .eff e k, w =>
      match env e w with
      | some (a, w') => (k a).alone env w'
      | none => none

/-- A composition runs its parts in order. -/
theorem alone_bind {W : Type} (env : (e : E) → W → Option (A e × W)) (p : Prog E A α)
    (f : α → Prog E A β) (w : W) :
    (p.bind f).alone env w = (p.alone env w).bind fun r => (f r.1).alone env r.2 := by
  induction p generalizing w with
  | ret a => rfl
  | eff e k ih =>
      simp only [bind, alone]
      cases env e w with
      | none => rfl
      | some r => exact ih r.1 r.2

end Prog

/-- An automaton over effects and their answers: which answers there can be,
which effects a state allows, and where an answer leads. -/
structure Monitor (E : Type) (A : E → Type) (φ : Type) where
  possible : (e : E) → A e → Prop
  allows : φ → E → Prop
  next : φ → (e : E) → A e → φ

variable {E : Type} {A : E → Type} {φ X α β : Type}

/-- `p`, started with the monitor in `s`, only performs allowed effects,
whatever it is answered, and every leaf satisfies `Q`. -/
def Conforms (m : Monitor E A φ) : φ → Prog E A α → (φ → α → Prop) → Prop
  | s, .ret a, Q => Q s a
  | s, .eff e k, Q =>
      m.allows s e ∧ ∀ a, m.possible e a → Conforms m (m.next s e a) (k a) Q

/-- Conformance of a composition is conformance of its parts. -/
theorem conforms_bind (m : Monitor E A φ) (p : Prog E A α) (f : α → Prog E A β)
    (Q : φ → β → Prop) (s : φ) :
    Conforms m s (p.bind f) Q ↔ Conforms m s p fun s' a => Conforms m s' (f a) Q := by
  induction p generalizing s with
  | ret a => rfl
  | eff e k ih =>
      simp only [Prog.bind, Conforms]
      exact and_congr_right fun _ => forall_congr' fun a => imp_congr_right fun _ => ih a _

/-- The postcondition of a conforming program can be weakened. -/
theorem Conforms.mono {m : Monitor E A φ} {p : Prog E A α} {Q Q' : φ → α → Prop} {s : φ}
    (h : Conforms m s p Q) (hQ : ∀ s a, Q s a → Q' s a) : Conforms m s p Q' := by
  induction p generalizing s with
  | ret a => exact hQ s a h
  | eff e k ih =>
      exact ⟨h.1, fun a ha => ih a (h.2 a ha)⟩

/-- What a monitor keeps, it keeps to the end of the program. -/
theorem Conforms.keep {m : Monitor E A φ} {p : Prog E A α} {Q : φ → α → Prop} {s : φ}
    (h : Conforms m s p Q) {I : φ → Prop} (hs : I s)
    (hI : ∀ s e a, I s → I (m.next s e a)) : Conforms m s p fun s' a => Q s' a ∧ I s' := by
  induction p generalizing s with
  | ret a => exact ⟨h, hs⟩
  | eff e k ih => exact ⟨h.1, fun a ha => ih a (h.2 a ha) (hI s e a hs)⟩

/-- What conforms to one monitor conforms to any that follows it. -/
theorem Conforms.transfer {ψ : Type} {m : Monitor E A φ} {m' : Monitor E A ψ}
    {T : φ → ψ → Prop} {p : Prog E A α} {Q : φ → α → Prop}
    {Q' : ψ → α → Prop} {s : φ} {s' : ψ} (h : Conforms m s p Q) (hT : T s s')
    (hallows : ∀ s s' e, T s s' → m.allows s e → m'.allows s' e)
    (hnext : ∀ s s' e a, T s s' → m.allows s e → m'.possible e a →
      m.possible e a ∧ T (m.next s e a) (m'.next s' e a))
    (hQ : ∀ s s' a, T s s' → Q s a → Q' s' a) : Conforms m' s' p Q' := by
  induction p generalizing s s' with
  | ret a => exact hQ s s' a hT h
  | eff e k ih =>
      refine ⟨hallows s s' e hT h.1, fun a ha => ?_⟩
      obtain ⟨hposs, hT'⟩ := hnext s s' e a hT h.1 ha
      exact ih a (h.2 a hposs) hT'

/-! ## histories -/

namespace Prog

/-- What a run of the program has performed up to some point, with the
answers it got. -/
def Emits : Prog E A α → List ((e : E) × A e) → Prop
  | _, [] => True
  | .ret _, _ :: _ => False
  | .eff e k, x :: h => ∃ a, x = ⟨e, a⟩ ∧ (k a).Emits h

/-- The first `n` effects of a run that is answered by `env`. -/
def history (env : (e : E) → A e) : Nat → Prog E A α → List ((e : E) × A e)
  | 0, _ => []
  | _, .ret _ => []
  | n + 1, .eff e k => ⟨e, env e⟩ :: (k (env e)).history env n

theorem emits_history (env : (e : E) → A e) (n : Nat) (p : Prog E A α) :
    p.Emits (p.history env n) := by
  induction n generalizing p with
  | zero => cases p <;> trivial
  | succ n ih =>
      cases p with
      | ret a => trivial
      | eff e k => exact ⟨env e, rfl, ih (k (env e))⟩

/-- A history's beginnings are histories. -/
theorem Emits.left {p : Prog E A α} {h h' : List ((e : E) × A e)} (hp : p.Emits (h ++ h')) :
    p.Emits h := by
  induction h generalizing p with
  | nil => cases p <;> trivial
  | cons x h ih =>
      cases p with
      | ret a => exact hp.elim
      | eff e k =>
          obtain ⟨a, hx, hp⟩ := hp
          exact ⟨a, hx, ih hp⟩

end Prog

/-- The monitor's state after a history. -/
def Monitor.after (m : Monitor E A φ) (s : φ) (h : List ((e : E) × A e)) : φ :=
  h.foldl (fun s x => m.next s x.1 x.2) s

/-- Every effect of a conforming program is allowed where it is performed. -/
theorem Conforms.allows {m : Monitor E A φ} {p : Prog E A α} {Q : φ → α → Prop} {s : φ}
    {h h' : List ((e : E) × A e)} {x : (e : E) × A e} (hp : Conforms m s p Q)
    (hposs : ∀ e a, m.possible e a) (hemits : p.Emits (h ++ x :: h')) :
    m.allows (m.after s h) x.1 := by
  induction h generalizing p s with
  | nil =>
      cases p with
      | ret a => exact hemits.elim
      | eff e k =>
          obtain ⟨a, rfl, -⟩ := hemits
          exact hp.1
  | cons y h ih =>
      cases p with
      | ret a => exact hemits.elim
      | eff e k =>
          obtain ⟨a, rfl, hemits⟩ := hemits
          exact ih (hp.2 a (hposs e a)) hemits

/-- Allows the effects of `P` and nothing else. -/
def Monitor.only (P : E → Prop) : Monitor E A Unit where
  possible _ _ := True
  allows _ e := P e
  next s _ _ := s

/-- A monitor that ignores the effects of `P` ends where it started. -/
theorem Conforms.of_only {m : Monitor E A φ} {P : E → Prop} {p : Prog E A α} {Q : α → Prop}
    {s : φ} (hp : Conforms (Monitor.only P) () p fun _ a => Q a)
    (hP : ∀ e, P e → m.allows s e ∧ ∀ a, m.next s e a = s) :
    Conforms m s p fun s' a => s' = s ∧ Q a := by
  induction p with
  | ret a => exact ⟨rfl, hp⟩
  | eff e k ih =>
      obtain ⟨hal, hnext⟩ := hP e hp.1
      refine ⟨hal, fun a _ => ?_⟩
      rw [hnext a]
      exact ih a (hp.2 a trivial)

/-! ## programs that can fail -/

/-- Conformance of a failing program, with one postcondition for the
returned value and one for the raised error. -/
def Spec (m : Monitor E A φ) (s : φ) (x : ExceptT X (Prog E A) α)
    (Q : φ → α → Prop) (R : φ → X → Prop) : Prop :=
  Conforms m s x.run fun s' r =>
    match r with
    | .ok a => Q s' a
    | .error e => R s' e

/-- Perform an effect whose answer is a value or an error. -/
def callE {B : E → Type} (e : E) : ExceptT X (Prog E fun e => Except X (B e)) (B e) :=
  ExceptT.mk (Prog.perform e)

section rules

variable {m : Monitor E A φ} {s : φ} {Q : φ → α → Prop} {R : φ → X → Prop}

@[simp] theorem spec_pure (a : α) : Spec m s (pure a : ExceptT X (Prog E A) α) Q R ↔ Q s a :=
  Iff.rfl

@[simp] theorem spec_throw (e : X) :
    Spec m s (throw e : ExceptT X (Prog E A) α) Q R ↔ R s e :=
  Iff.rfl

/-- Sequencing: the second program starts where the first one returned. -/
@[simp] theorem spec_bind (x : ExceptT X (Prog E A) β) (f : β → ExceptT X (Prog E A) α) :
    Spec m s (x >>= f) Q R ↔ Spec m s x (fun s' b => Spec m s' (f b) Q R) R := by
  unfold Spec
  refine (conforms_bind m _ _ _ s).trans ?_
  refine iff_of_eq (congrArg _ ?_)
  funext s' r
  cases r <;> rfl

/-- Handling: the handler starts where the body raised. -/
@[simp] theorem spec_tryCatch (x : ExceptT X (Prog E A) α) (h : X → ExceptT X (Prog E A) α) :
    Spec m s (tryCatch x h) Q R ↔ Spec m s x Q (fun s' e => Spec m s' (h e) Q R) := by
  unfold Spec
  refine (conforms_bind m _ _ _ s).trans ?_
  refine iff_of_eq (congrArg _ ?_)
  funext s' r
  cases r <;> rfl

/-- A branch is specified branch by branch. -/
@[simp] theorem spec_ite (c : Prop) [Decidable c] (x y : ExceptT X (Prog E A) α) :
    Spec m s (if c then x else y) Q R ↔ (c → Spec m s x Q R) ∧ (¬c → Spec m s y Q R) := by
  split <;> simp_all

/-- Both postconditions of a specification can be weakened. -/
theorem Spec.mono {x : ExceptT X (Prog E A) α} {Q' : φ → α → Prop} {R' : φ → X → Prop}
    (h : Spec m s x Q R) (hQ : ∀ s a, Q s a → Q' s a) (hR : ∀ s e, R s e → R' s e) :
    Spec m s x Q' R' := by
  refine Conforms.mono h ?_
  intro s r hr
  cases r with
  | ok a => exact hQ s a hr
  | error e => exact hR s e hr

/-- `Conforms.of_only` for programs that can fail. -/
theorem Spec.of_only {P : E → Prop} {x : ExceptT X (Prog E A) α} {Q : α → Prop} {R : X → Prop}
    (hx : Spec (Monitor.only P) () x (fun _ a => Q a) fun _ e => R e)
    (hP : ∀ e, P e → m.allows s e ∧ ∀ a, m.next s e a = s) :
    Spec m s x (fun s' a => s' = s ∧ Q a) (fun s' e => s' = s ∧ R e) := by
  have hx : Conforms (Monitor.only P) () x.run fun _ r =>
      match r with
      | .ok a => Q a
      | .error e => R e := Conforms.mono hx fun _ r hr => by cases r <;> exact hr
  refine (hx.of_only hP).mono fun s' r hr => ?_
  cases r <;> exact hr

end rules

/-- One effect: the monitor must allow it, and the program goes on from
every answer it can have. -/
@[simp] theorem spec_callE {B : E → Type} {m : Monitor E (fun e => Except X (B e)) φ} {s : φ}
    (e : E) {Q : φ → B e → Prop} {R : φ → X → Prop} :
    Spec m s (callE e) Q R ↔ m.allows s e ∧
      (∀ b, m.possible e (.ok b) → Q (m.next s e (.ok b)) b) ∧
      (∀ x, m.possible e (.error x) → R (m.next s e (.error x)) x) := by
  constructor
  · rintro ⟨hal, h⟩
    exact ⟨hal, fun b hb => h (.ok b) hb, fun x hx => h (.error x) hx⟩
  · rintro ⟨hal, hok, herr⟩
    refine ⟨hal, ?_⟩
    rintro (x | b) hp
    · exact herr x hp
    · exact hok b hp

end NeuroVoice
