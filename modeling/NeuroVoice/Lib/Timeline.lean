import NeuroVoice.Lib.Prog

/-!
# NeuroVoice.Lib.Timeline

One program among others.

The others act on a shared state while the program runs: between two of its
awaits, and while an await is under way.  An `Await` is one await with the
actions of the others before and during it, so a list of them is one of the
interleavings of the program with everybody else.

An observer takes notes of type `γ` along the way, the shared state among
them.  `Along note P g ts` says that every await satisfies `P` under the
notes taken so far, and `Conforms.along` is the invariant rule: what a monitor allows
and what the surroundings answer keep a relation between notes and monitor.
-/

namespace NeuroVoice

variable {E : Type} {A : E → Type} {τ γ φ α : Type}

/-- One await, and what the others did before and during it. -/
structure Await (τ : Type) (E : Type) (A : E → Type) where
  before : List τ := []
  during : List τ := []
  eff : E
  ans : A eff

/-- The await and its answer. -/
def Await.answered (t : Await τ E A) : (e : E) × A e := ⟨t.eff, t.ans⟩

/-- Every await satisfies `P` under the notes taken before it. -/
def Along {δ : Type} (note : γ → δ → γ) (P : γ → δ → Prop) : γ → List δ → Prop
  | _, [] => True
  | g, t :: ts => P g t ∧ Along note P (note g t) ts

namespace Along

variable {δ : Type} {note : γ → δ → γ} {P Q : γ → δ → Prop} {g : γ} {ts us : List δ}

theorem append : Along note P g (ts ++ us) ↔
    Along note P g ts ∧ Along note P (ts.foldl note g) us := by
  induction ts generalizing g with
  | nil => simp [Along]
  | cons t ts ih => simp [Along, ih, and_assoc]

/-- One of them, with the notes taken before it. -/
theorem get {t : δ} (h : Along note P g (ts ++ t :: us)) : P (ts.foldl note g) t :=
  (append.1 h).2.1

theorem of_forall (h : ∀ g t, P g t) : Along note P g ts := by
  induction ts generalizing g with
  | nil => trivial
  | cons t ts ih => exact ⟨h g t, ih⟩

theorem mono (h : Along note P g ts) (hPQ : ∀ g t, P g t → Q g t) : Along note Q g ts := by
  induction ts generalizing g with
  | nil => trivial
  | cons t ts ih => exact ⟨hPQ _ _ h.1, ih h.2⟩

theorem and (hP : Along note P g ts) (hQ : Along note Q g ts) :
    Along note (fun g t => P g t ∧ Q g t) g ts := by
  induction ts generalizing g with
  | nil => trivial
  | cons t ts ih => exact ⟨⟨hP.1, hQ.1⟩, ih hP.2 hQ.2⟩

/-- Notes that contain others. -/
theorem of_part {η : Type} {note' : η → δ → η} {h : η} (part : η → γ)
    (hpart : ∀ h t, part (note' h t) = note (part h) t) (hP : Along note P (part h) ts) :
    Along note' (fun h t => P (part h) t) h ts := by
  induction ts generalizing h with
  | nil => trivial
  | cons t ts ih =>
      refine ⟨hP.1, ih ?_⟩
      rw [hpart]
      exact hP.2

end Along

/-- A decidable property can be checked one by one. -/
instance decidableAlong {δ : Type} {note : γ → δ → γ} {P : γ → δ → Prop}
    [∀ g t, Decidable (P g t)] : (g : γ) → (ts : List δ) → Decidable (Along note P g ts)
  | _, [] => inferInstanceAs (Decidable True)
  | g, t :: ts =>
      @instDecidableAnd (P g t) (Along note P (note g t) ts) _ (decidableAlong (note g t) ts)

/-- The invariant rule: the monitor and the notes go on together from
await to await. -/
theorem Conforms.along {m : Monitor E A φ} {note : γ → Await τ E A → γ}
    {P : γ → Await τ E A → Prop} {I : γ → φ → Prop}
    (hstep : ∀ g s t, I g s → P g t → m.allows s t.eff → I (note g t) (m.next s t.eff t.ans))
    (hposs : ∀ e a, m.possible e a) {p : Prog E A α} {Q : φ → α → Prop} {g : γ} {s : φ}
    {ts : List (Await τ E A)} (hp : Conforms m s p Q) (hemits : p.Emits (ts.map Await.answered))
    (hP : Along note P g ts) (hI : I g s) :
    Along note (fun g t => ∃ s, I g s ∧ m.allows s t.eff) g ts := by
  induction ts generalizing p g s with
  | nil => trivial
  | cons t ts ih =>
      cases p with
      | ret a => exact hemits.elim
      | eff e k =>
          obtain ⟨a, ht, hemits⟩ := hemits
          obtain ⟨before, during, e', a'⟩ := t
          cases ht
          exact ⟨⟨s, hI, hp.1⟩,
            ih (hp.2 a' (hposs _ a')) hemits hP.2 (hstep g s _ hI hP.1 hp.1)⟩

/-! ## programs inside larger ones -/

/-- The program, each of whose effects is one of a larger language. -/
def Prog.embed {E' : Type} {A' : E' → Type} (f : E → E') :
    Prog E (fun e => A' (f e)) α → Prog E' A' α
  | .ret a => .ret a
  | .eff e k => .eff (f e) fun a => (k a).embed f

/-- The monitor as the smaller language sees it. -/
def Monitor.within {E' : Type} {A' : E' → Type} (m : Monitor E' A' φ) (f : E → E') :
    Monitor E (fun e => A' (f e)) φ where
  possible e a := m.possible (f e) a
  allows s e := m.allows s (f e)
  next s e a := m.next s (f e) a

theorem conforms_embed {E' : Type} {A' : E' → Type} {m : Monitor E' A' φ} {f : E → E'}
    {p : Prog E (fun e => A' (f e)) α} {Q : φ → α → Prop} {s : φ} :
    Conforms m s (p.embed f) Q ↔ Conforms (m.within f) s p Q := by
  induction p generalizing s with
  | ret a => exact Iff.rfl
  | eff e k ih => exact and_congr_right fun _ => forall_congr' fun a => imp_congr_right fun _ => ih a

/-! ## a whole run -/

/-- A run of the program among others: `others n e w` is what they have made of
the state `w` when the program performs its `n`th effect, `e`.  The outcome,
the effects with the states they were performed in, and the state at the end;
`none` when an effect cannot be answered. -/
def Prog.among {W : Type} (env : (e : E) → W → Option (A e × W)) (others : Nat → E → W → W) :
    Nat → Prog E A α → W → Option (α × List (E × W) × W)
  | _, .ret a, w => some (a, [], w)
  | n, .eff e k, w =>
      match env e (others n e w) with
      | some (a, w') =>
          ((k a).among env others (n + 1) w').map fun r => (r.1, (e, others n e w) :: r.2.1, r.2.2)
      | none => none

theorem Prog.among_eff {W : Type} {env : (e : E) → W → Option (A e × W)}
    {others : Nat → E → W → W} {n : Nat} {e : E} {k : A e → Prog E A α} {w w' : W} {a : A e}
    (h : env e (others n e w) = some (a, w')) :
    (Prog.eff e k).among env others n w =
      ((k a).among env others (n + 1) w').map fun r =>
        (r.1, (e, others n e w) :: r.2.1, r.2.2) := by
  simp only [Prog.among, h]

end NeuroVoice
