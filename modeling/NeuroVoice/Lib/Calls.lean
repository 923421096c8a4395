import NeuroVoice.Lib.Timeline

/-!
# NeuroVoice.Lib.Calls

Programs with calls left open, and whole runs of programs.

A program can leave a call open, as an effect of its own; `Prog.fill` puts
the callees back.  What a caller hands to its callees is then a statement
about the events of the open program, and `fillE_bind` and its siblings show,
along the program text, that the open program is the caller.

`Prog.Ends p h a` says that `h` is everything that a run of `p` performed,
and `a` what it returned.  A run of a composition splits into runs of its
parts (`ends_bind`).
-/

namespace NeuroVoice

variable {E E' : Type} {A : E → Type} {A' : E' → Type} {X α β γ : Type}

namespace Prog

/-! ## composition -/

theorem bind_ret (p : Prog E A α) : p.bind .ret = p := by
  induction p with
  | ret a => rfl
  | eff e k ih => exact congrArg (Prog.eff e) (funext ih)

theorem bind_assoc (p : Prog E A α) (f : α → Prog E A β) (g : β → Prog E A γ) :
    (p.bind f).bind g = p.bind fun a => (f a).bind g := by
  induction p with
  | ret a => rfl
  | eff e k ih => exact congrArg (Prog.eff e) (funext ih)

/-! ## calls -/

/-- The program, with a program for each of its effects. -/
def fill (f : (e : E) → Prog E' A' (A e)) : Prog E A α → Prog E' A' α
  | .ret a => .ret a
  | .eff e k => (f e).bind fun a => (k a).fill f

theorem fill_bind (f : (e : E) → Prog E' A' (A e)) (p : Prog E A α) (g : α → Prog E A β) :
    (p.bind g).fill f = (p.fill f).bind fun a => (g a).fill f := by
  induction p with
  | ret a => rfl
  | eff e k ih =>
      rw [fill, bind_assoc]
      exact congrArg ((f e).bind) (funext ih)

/-- Effects that are not calls stay what they are. -/
theorem fill_embed {i : E → E'} (f : (e' : E') → Prog E (fun e => A' (i e)) (A' e'))
    (hf : ∀ e, f (i e) = perform e) (p : Prog E (fun e => A' (i e)) α) :
    (p.embed i).fill f = p := by
  induction p with
  | ret a => rfl
  | eff e k ih =>
      rw [embed, fill, hf]
      exact congrArg (Prog.eff e) (funext ih)

/-! ## whole runs -/

/-- Everything a run of the program performed, and what it returned. -/
def Ends : Prog E A α → List ((e : E) × A e) → α → Prop
  | .ret a, h, b => h = [] ∧ b = a
  | .eff e k, h, b => ∃ a rest, h = ⟨e, a⟩ :: rest ∧ (k a).Ends rest b

theorem ends_bind {p : Prog E A α} {f : α → Prog E A β} {h : List ((e : E) × A e)} {b : β} :
    (p.bind f).Ends h b ↔ ∃ a h₁ h₂, h = h₁ ++ h₂ ∧ p.Ends h₁ a ∧ (f a).Ends h₂ b := by
  induction p generalizing h with
  | ret a =>
      constructor
      · intro hf
        exact ⟨a, [], h, rfl, ⟨rfl, rfl⟩, hf⟩
      · rintro ⟨a, h₁, h₂, rfl, ⟨rfl, rfl⟩, hf⟩
        exact hf
  | eff e k ih =>
      constructor
      · rintro ⟨a, rest, rfl, hrest⟩
        obtain ⟨a', h₁, h₂, rfl, h₁e, h₂e⟩ := (ih a).1 hrest
        exact ⟨a', ⟨e, a⟩ :: h₁, h₂, rfl, ⟨a, h₁, rfl, h₁e⟩, h₂e⟩
      · rintro ⟨a', h₁, h₂, rfl, ⟨a, rest, rfl, hrest⟩, h₂e⟩
        exact ⟨a, rest ++ h₂, rfl, (ih a).2 ⟨a', rest, h₂, rfl, hrest, h₂e⟩⟩

end Prog

/-! ## programs that can fail -/

section failing

variable {B : E → Type} {B' : E' → Type}

/-- `Prog.fill` for programs that can fail. -/
def fillE (f : (e : E) → Prog E' A' (A e)) (x : ExceptT X (Prog E A) α) :
    ExceptT X (Prog E' A') α :=
  ExceptT.mk (Prog.fill f x.run)

variable (f : (e : E) → Prog E' A' (A e))

@[simp] theorem fillE_pure (a : α) :
    fillE f (pure a : ExceptT X (Prog E A) α) = pure a := rfl

@[simp] theorem fillE_throw (e : X) :
    fillE f (throw e : ExceptT X (Prog E A) α) = throw e := rfl

@[simp] theorem fillE_bind (x : ExceptT X (Prog E A) β) (g : β → ExceptT X (Prog E A) α) :
    fillE f (x >>= g) = fillE f x >>= fun b => fillE f (g b) := by
  refine (Prog.fill_bind f x.run _).trans ?_
  refine congrArg (Prog.bind (Prog.fill f x.run)) (funext fun r => ?_)
  cases r <;> rfl

theorem fillE_callE (f : (e : E) → Prog E' A' (Except X (B e))) (e : E) :
    fillE f (callE e : ExceptT X (Prog E fun e => Except X (B e)) (B e)) = ExceptT.mk (f e) :=
  Prog.bind_ret (f e)

@[simp] theorem fillE_ite (c : Prop) [Decidable c] (x y : ExceptT X (Prog E A) α) :
    fillE f (if c then x else y) = if c then fillE f x else fillE f y := by
  split <;> rfl

end failing

/-- A whole run of a program that can fail. -/
abbrev EndsE (x : ExceptT X (Prog E A) α) (h : List ((e : E) × A e)) (r : Except X α) : Prop :=
  Prog.Ends x.run h r

section runs

variable {h : List ((e : E) × A e)} {r : Except X α}

@[simp] theorem endsE_pure {a : α} :
    EndsE (pure a : ExceptT X (Prog E A) α) h r ↔ h = [] ∧ r = .ok a := Iff.rfl

@[simp] theorem endsE_throw {e : X} :
    EndsE (throw e : ExceptT X (Prog E A) α) h r ↔ h = [] ∧ r = .error e := Iff.rfl

/-- The first part raises, or the second one goes on from what it
returned. -/
theorem endsE_bind {x : ExceptT X (Prog E A) β} {f : β → ExceptT X (Prog E A) α} :
    EndsE (x >>= f) h r ↔
      (∃ e, r = .error e ∧ EndsE x h (.error e)) ∨
        ∃ b h₁ h₂, h = h₁ ++ h₂ ∧ EndsE x h₁ (.ok b) ∧ EndsE (f b) h₂ r := by
  refine Prog.ends_bind.trans ⟨?_, ?_⟩
  · rintro ⟨e | b, h₁, h₂, rfl, hx, hf⟩
    · obtain ⟨rfl, rfl⟩ := hf
      rw [List.append_nil]
      exact .inl ⟨e, rfl, hx⟩
    · exact .inr ⟨b, h₁, h₂, rfl, hx, hf⟩
  · rintro (⟨e, rfl, hx⟩ | ⟨b, h₁, h₂, rfl, hx, hf⟩)
    · exact ⟨.error e, h, [], (List.append_nil h).symm, hx, rfl, rfl⟩
    · exact ⟨.ok b, h₁, h₂, rfl, hx, hf⟩

theorem endsE_callE {B : E → Type} {e : E} {h : List ((e : E) × Except X (B e))}
    {r : Except X (B e)} :
    EndsE (callE e : ExceptT X (Prog E fun e => Except X (B e)) (B e)) h r ↔ h = [⟨e, r⟩] := by
  constructor
  · rintro ⟨a, rest, rfl, rfl, rfl⟩
    rfl
  · rintro rfl
    exact ⟨r, [], rfl, rfl, rfl⟩

end runs

end NeuroVoice
