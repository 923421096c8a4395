import NeuroVoice.Protocol

/-!
# NeuroVoice.Discipline.Basic

Rules for proving that a program keeps the discipline of
`NeuroVoice.Protocol`.

A proof follows the program text: `Keeps.mark` for an await that cannot
fail, `Keeps.step` for one that can, `Keeps.call` for a call that leaves the
track as it is, `Keeps.seq` for one that moves it.  `Upset` is how most of
the code raises.
-/

namespace NeuroVoice

/-- `x`, run by a process in state `s`, keeps the discipline. -/
abbrev Keeps (S : Settings) {α : Type} (s : Track) (x : Py α) (Q : Track → α → Prop)
    (R : Track → Exn → Prop) : Prop :=
  Spec (sysProtocol S).toMonitor s x Q R

section rules

variable {S : Settings} {s : Track} {α : Type} {Q : Track → α → Prop} {R : Track → Exn → Prop}

/-- One await: it must be allowed; then it is answered, or raises a foreign
exception if it can. -/
theorem keeps_await {e : Eff} {Q : Track → Ret e → Prop} :
    Keeps S s (await e) Q R ↔ Allows S.maxRetries s e ∧ (∀ b, Q (s.onOk e b) b) ∧
      (e.fallible = true → ∀ f, R (s.onError e (.foreign f)) (.foreign f)) := by
  refine (spec_callE e).trans (and_congr_right fun _ => and_congr ?_ ?_)
  · exact forall_congr' fun b => ⟨fun h => h trivial, fun h _ => h⟩
  · constructor
    · exact fun h hf f => h _ ⟨hf, f, rfl⟩
    · rintro h _ ⟨hf, f, rfl⟩
      exact h hf f

theorem keeps_outcomeOf {x : Py α} {Q : Track → Except Exn α → Prop} :
    Keeps S s (outcomeOf x) Q R ↔
      Keeps S s x (fun s' a => Q s' (.ok a)) (fun s' e => Q s' (.error e)) := by
  simp [Keeps, outcomeOf]

theorem keeps_exceptException {x : Py α} {h : Exn → Py α} :
    Keeps S s (exceptException x h) Q R ↔ Keeps S s x Q fun s' e =>
      if e.isException then Keeps S s' (h e) Q R else R s' e := by
  simp only [Keeps, exceptException, spec_tryCatch]
  refine iff_of_eq (congrArg _ ?_)
  funext s' e
  split <;> simp

theorem keeps_liftExn {x : Except Exn α} :
    Keeps S s (liftExn x) Q R ↔ (∀ a, x = .ok a → Q s a) ∧ (∀ e, x = .error e → R s e) := by
  cases x <;> simp [Keeps, liftExn]

theorem keeps_liftPy {x : Except Foreign α} :
    Keeps S s (liftPy x) Q R ↔
      (∀ a, x = .ok a → Q s a) ∧ (∀ f, x = .error f → R s (.foreign f)) := by
  cases x <;> simp [Keeps, liftPy, liftExn, Except.mapError]

theorem keeps_finallyDo {x : Py α} {y : Eff} (hy : y.fallible = false) :
    Keeps S s (finallyDo x y) Q R ↔
      Keeps S s x (fun s' a => Allows S.maxRetries s' y ∧ ∀ b, Q (s'.onOk y b) a)
        (fun s' e => Allows S.maxRetries s' y ∧ ∀ b, R (s'.onOk y b) e) := by
  have hk (s' : Track) (r : Except Exn α) :
      Keeps S s' (do let _ ← await y; liftExn r) Q R ↔ Allows S.maxRetries s' y ∧
        ∀ b, Keeps S (s'.onOk y b) (liftExn r) Q R := by
    refine (spec_bind _ _).trans (keeps_await.trans ?_)
    simp [hy]
  refine (spec_bind _ _).trans (keeps_outcomeOf.trans (iff_of_eq (congrArg₂ _ ?_ ?_)))
  · funext s' a
    simp only [eq_iff_iff]
    exact (hk s' _).trans (and_congr_right fun _ => forall_congr' fun b => by
      simp [keeps_liftExn])
  · funext s' e
    simp only [eq_iff_iff]
    exact (hk s' _).trans (and_congr_right fun _ => forall_congr' fun b => by
      simp [keeps_liftExn])

/-- Sequencing with a known specification of the first part. -/
theorem Keeps.seq {β : Type} {x : Py β} {f : β → Py α} {Q' : Track → β → Prop}
    {R' : Track → Exn → Prop} (hx : Keeps S s x Q' R')
    (hf : ∀ s' b, Q' s' b → Keeps S s' (f b) Q R) (hR : ∀ s' e, R' s' e → R s' e) :
    Keeps S s (x >>= f) Q R :=
  (spec_bind x f).2 (Spec.mono hx hf hR)

/-- Sequencing after a call that leaves the track as it is. -/
theorem Keeps.call {β : Type} {x : Py β} {f : β → Py α} {R' : Track → Exn → Prop}
    (hx : Keeps S s x (fun s' _ => s' = s) R') (hf : ∀ b, Keeps S s (f b) Q R)
    (hR : ∀ s' e, R' s' e → R s' e) : Keeps S s (x >>= f) Q R :=
  hx.seq (fun _ b hs => hs ▸ hf b) hR

/-- Sequencing after one await. -/
theorem Keeps.step {e : Eff} {f : Ret e → Py α} (hal : Allows S.maxRetries s e)
    (hok : ∀ b, Keeps S (s.onOk e b) (f b) Q R)
    (herr : e.fallible = true → ∀ x, R (s.onError e (.foreign x)) (.foreign x)) :
    Keeps S s (await e >>= f) Q R :=
  (spec_bind _ f).2 (keeps_await.2 ⟨hal, hok, herr⟩)

/-- Sequencing after an await that cannot fail. -/
theorem Keeps.mark {e : Eff} {f : Ret e → Py α} (he : e.fallible = false)
    (hal : Allows S.maxRetries s e) (hok : ∀ b, Keeps S (s.onOk e b) (f b) Q R) :
    Keeps S s (await e >>= f) Q R :=
  Keeps.step hal hok fun h => by simp [he] at h

end rules

/-! ## programs that leave the track alone -/

/-- The job's content makes `mark_terminal_failure` itself raise. -/
def Track.Bad (s : Track) : Prop :=
  ∃ j, s.job = some j ∧ (s.ids = none ∨ ∃ x, j.text.len = .error x)

/-- The call raised, and only `troubled` may have changed. -/
structure Upset (s s' : Track) (x : Exn) : Prop where
  same : ∃ b, s' = { s with troubled := b }
  troubled : s.troubled = true ∨ x.isException = false → s'.troubled = true
  late : s.left = true → s'.troubled = true ∨ s.Bad
  notPoison : ∀ m, x ≠ .poisonJob m

section quiet

variable {S : Settings} {s : Track}

/-- A failing statement ends its transaction. -/
theorem Stage.raised_of_isSql {e : Eff} (he : e.isSql = true) (st : Stage) :
    st.raised e = .none := by
  cases e <;> cases st <;> simp [Stage.raised, Eff.isSql] at he ⊢

/-- Outside a transaction an await that raises changes no stage. -/
theorem Stage.raised_none (e : Eff) : Stage.none.raised e = .none := by
  cases e <;> simp [Stage.raised]

/-- An await that raises outside a transaction. -/
theorem upset_onError (hs : s.stage = .none) (e : Eff) (f : Foreign) :
    Upset s (s.onError e (.foreign f)) (.foreign f) := by
  refine ⟨⟨s.troubled || s.left || !Exn.isException (.foreign f), ?_⟩, ?_, ?_, fun m => nofun⟩
  · cases s
    cases hs
    simp only [Track.onError, Stage.raised_none]
  · rintro (h | h) <;> simp [Track.onError, h]
  · intro h
    simp [Track.onError, h]

/-- A statement that raises inside a transaction, which is then closed. -/
theorem upset_statement (hs : s.stage = .none) {e : Eff} (he : e.isSql = true) (st : Stage)
    (f : Foreign) :
    Upset s (((s.withStage st).onError e (.foreign f)).onOk .close ()) (.foreign f) := by
  refine ⟨⟨s.troubled || s.left || !Exn.isException (.foreign f), ?_⟩, ?_, ?_, fun m => nofun⟩
  · cases s
    cases hs
    simp only [Track.onError, Track.onOk, Stage.raised_of_isSql he]
    rfl
  · rintro (h | h) <;> simp [Track.onError, Track.onOk, Track.withStage, h]
  · intro h
    simp [Track.onError, Track.onOk, Track.withStage, h]

/-- Raising without an await. -/
theorem upset_refl {x : Exn} (hx : x.isException = true) (hp : ∀ m, x ≠ .poisonJob m)
    (hl : s.left = true → s.Bad) : Upset s s x := by
  refine ⟨⟨s.troubled, rfl⟩, ?_, fun h => .inr (hl h), hp⟩
  rintro (h | h)
  · exact h
  · simp [hx] at h

/-- Raising without an await inside a transaction, which is then closed. -/
theorem upset_dropped (hs : s.stage = .none) {x : Exn} (hx : x.isException = true)
    (hp : ∀ m, x ≠ .poisonJob m) (hl : s.left = true → s.Bad) {st : Stage}
    (hst : st.dropped = .none) : Upset s ((s.withStage st).onOk .close ()) x := by
  have he : (s.withStage st).onOk .close () = s := by
    cases s
    cases hs
    simp only [Track.onOk, Track.withStage, hst]
  rw [he]
  exact upset_refl hx hp hl

end quiet

end NeuroVoice
