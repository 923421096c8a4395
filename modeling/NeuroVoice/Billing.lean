import NeuroVoice.Ledger.Commit

/-!
# NeuroVoice.Billing

Whether the status of a request and its usage row agree.

`complete` and the `ok` usage row are written in one transaction, but a
delivery that comes after it can still fail the row, and a success
transaction that found no row is committed all the same.
`mark_terminal_failure` turns a billed, complete row into a failed one
(`fail_overwrites_complete`); `terminal_status_stable` says when status and
billing agree.
-/

namespace NeuroVoice

/-! ## when status and billing come apart -/

/-- The `UPDATE` of `mark_terminal_failure` does not meet a complete row. -/
def failsIncomplete (k : Uuid) (t : SysTrans) : Bool :=
  match t.ev with
  | .act _ (.updateIdem rid patch) _ =>
      rid ≠ k || patch.status ≠ some .failed || !isComplete k t.pre
  | _ => true

/-- A transaction that would bring status and billing apart is not
committed: a reservation of a billed request, or a success of a request
whose row, which `complete` did not find, is there. -/
def commitAgrees (k : Uuid) (past : List SysTrans) (t : SysTrans) : Bool :=
  match t.ev with
  | .act p .commit _ =>
      match stage p past with
      | .inserted _ rid => rid ≠ k || !isBilled k t.pre
      | .billed rid none _ => rid ≠ k || !isUnexpired k t.pre
      | _ => true
  | _ => true

section run

variable {S : Settings} {w₀ w w' : World} {ts : List SysTrans} {ev : SysEvent} {k : Uuid}

/-- A process that is about to fail a row was about to before, or sends the
`UPDATE` now. -/
theorem Turn.failing_wrote {p : Nat} {st st' : Stage} {e : Eff} {a : Ans e}
    (h : Turn p w w' st e a st') {row : JobIdempotency} (hs : st'.Failing k (some row) true) :
    st.Failing k (some row) true ∨ e = .updateIdem k { status := some .failed } := by
  have hidle (hi : st'.idle = true) {P : Prop} : P :=
    absurd (Or.inr (Or.inr hs)) (Stage.not_looked_of_idle hi k (some row) true)
  cases h with
  | calm _ _ => exact .inl hs
  | dropped _ _ => exact hidle (Stage.idle_dropped _)
  | committed hc _ => exact hidle (Stage.idle_committed hc)
  | failing _ =>
      rcases hs with hs | hs | hs
      · injection hs
        contradiction
      · cases hs
      · cases hs
  | fails _ _ _ =>
      rcases hs with hs | hs | hs <;> cases hs
      exact .inr rfl
  | billedBefore _ _ _ | unbilled _ _ =>
      rcases hs with hs | hs | hs <;> cases hs
      exact .inl (.inl rfl)
  | records _ _ _ _ =>
      rcases hs with hs | hs | hs <;> cases hs
      exact .inl (.inr (.inl rfl))
  | _ => rcases hs with hs | hs | hs <;> cases hs

/-- A row that a failure transaction is about to fail is not complete. -/
def Spared (k : Uuid) (ts : List SysTrans) (w : World) : Prop :=
  ∀ p row, (stage p ts).Failing k (some row) true → isComplete k w = false

/-- It stays so: the row is locked. -/
theorem Spared.step (h : Spared k ts w) (hr : Run S w₀ ts w) (hn : Next S ts w ev w')
    (hc : failsIncomplete k ⟨w, ev, w'⟩ = true) : Spared k (ts ++ [⟨w, ev, w'⟩]) w' := by
  intro p row hs
  by_cases hev : ∃ q e a, ev = .act q e a
  swap
  · obtain ⟨hi, -, hst⟩ := hn.quiet fun q e a he => hev ⟨q, e, a, he⟩
    rcases hst p with hst | hst
    · rw [hst] at hs
      simpa [isComplete, hi] using h p row hs
    · rw [hst] at hs
      rcases hs with hs | hs | hs <;> cases hs
  obtain ⟨q, e, a, rfl⟩ := hev
  have hT := hn.turn
  by_cases hq : p = q
  · subst hq
    rcases hT.failing_wrote hs with hs₀ | rfl
    · have hcur := h p row hs₀
      rcases hT.rows with ⟨hi, -⟩ | ⟨rfl, hcom, -⟩
      · simpa [isComplete, hi] using hcur
      · exact absurd (Or.inr (Or.inr hs))
          (Stage.not_looked_of_idle hT.commit_idle k (some row) true)
    · have hcur : isComplete k w = false := by simpa [failsIncomplete] using hc
      rcases hT.rows with ⟨hi, -⟩ | ⟨he, -, -⟩
      · simpa [isComplete, hi] using hcur
      · cases he
  · rw [stage_other hq] at hs
    have hlocked := hT.tableMove.idem_rows_locked hr.ledger.idem hq
      ((hr.ledger.owned p).sent k row (.inr (.inr hs)))
    simpa [isComplete, hlocked] using h p row hs

/-- The request is billed, and its row complete if there is one. -/
def Final (k : Uuid) (w : World) : Prop :=
  isBilled k w = true ∧ ∀ row, w.idem.rows k = some row → row.status = .complete

theorem Run.final_of_complete (h : Run S w₀ ts w) (hc : isComplete k w = true) : Final k w := by
  obtain ⟨row, hr, hs⟩ := isComplete_iff.1 hc
  refine ⟨h.billed_of_complete hc, fun row' hr' => ?_⟩
  rw [hr] at hr'
  cases hr'
  exact hs

/-- Status and billing of one request, in one run. -/
structure Agrees (k : Uuid) (ts : List SysTrans) (w : World) : Prop where
  spared : Spared k ts w
  billed : isBilled k w = true → ∀ row, w.idem.rows k = some row → w.now < row.expiresAt →
    row.status = .complete
  stable : ∀ t ∈ ts, isComplete k t.pre = true → Final k w

/-- What is final stays final. -/
theorem Final.step (h : Final k w) (ha : Agrees k ts w) (hr : Run S w₀ ts w)
    (hn : Next S ts w ev w') (hc : commitAgrees k ts ⟨w, ev, w'⟩ = true) : Final k w' := by
  obtain ⟨hb, hrow⟩ := h
  obtain ⟨u, hu, hok⟩ := isBilled_iff.1 hb
  have hkeep : ∀ {u'}, w'.usage.rows k = some u' → w.usage.rows k = some u' →
      isBilled k w' = true := fun h' h => by
    rw [hu] at h
    cases h
    exact isBilled_iff.2 ⟨_, h', hok⟩
  rcases hn.published hr k with ⟨hi, hus⟩ | ⟨p, a, rfl, hp⟩
  · exact ⟨isBilled_iff.2 ⟨u, hus ▸ hu, hok⟩, hi ▸ hrow⟩
  · generalize hst : stage p ts = st at hp
    cases hp with
    | billed _ hnone _ _ | completed _ _ _ _ hnone _ _ | recorded _ _ _ hnone _ _ =>
        simp [hnone] at hu
    | @failed row cur u' hcur _ _ _ =>
        have hcomplete := ha.spared p row (.inr (.inr hst))
        rw [isComplete, hcur] at hcomplete
        simp [hrow cur hcur] at hcomplete
    | reserved _ _ _ =>
        simp [commitAgrees, hst, hb] at hc
    | deleted _ _ hi hus =>
        refine ⟨isBilled_iff.2 ⟨u, hus ▸ hu, hok⟩, fun row hr' => ?_⟩
        simp [hi] at hr'

/-- **The step lemma.** -/
theorem Agrees.step (h : Agrees k ts w) (hr : Run S w₀ ts w) (hn : Next S ts w ev w')
    (hf : failsIncomplete k ⟨w, ev, w'⟩ = true) (hc : commitAgrees k ts ⟨w, ev, w'⟩ = true) :
    Agrees k (ts ++ [⟨w, ev, w'⟩]) w' := by
  refine ⟨h.spared.step hr hn hf, fun hb row hrow hexp => ?_, fun t ht hcom => ?_⟩
  · have hnow := hn.now_le
    rcases hn.published hr k with ⟨hi, hus⟩ | ⟨p, a, rfl, hp⟩
    · rw [hi] at hrow
      rw [isBilled, hus] at hb
      exact h.billed hb row hrow (by omega)
    · generalize hst : stage p ts = st at hp
      cases hp with
      | billed hi _ _ _ =>
          have hexp' : isUnexpired k w = true := by
            simp only [isUnexpired, ← hi, hrow, Option.any_some, decide_eq_true_eq]
            omega
          simp [commitAgrees, hst, hexp'] at hc
      | completed _ hi hs _ _ _ _ =>
          rw [hi] at hrow
          cases hrow
          simp [IdemPatch.apply, hs]
      | recorded _ _ _ _ hu he =>
          simp [isBilled, hu, he] at hb
      | @failed r cur u hcur hi hu hn' =>
          have hspared := h.spared p r (.inr (.inr hst))
          rcases hn' with hu₀ | ⟨-, he⟩
          · have hb₀ : isBilled k w = true := by rwa [isBilled, hu₀, ← hu]
            rw [hi] at hrow
            cases hrow
            have hcur' := h.billed hb₀ cur hcur (by simpa using Nat.lt_of_le_of_lt hnow hexp)
            simp [isComplete, hcur, hcur'] at hspared
          · simp [isBilled, hu, he] at hb
      | reserved _ _ hu =>
          have hb₀ : isBilled k w = true := by rwa [isBilled, ← hu]
          simp [commitAgrees, hst, hb₀] at hc
      | deleted _ _ hi _ => simp [hi] at hrow
  · rcases List.mem_append.1 ht with ht | ht
    · exact (h.stable t ht hcom).step h hr hn hc
    · obtain rfl := List.mem_singleton.1 ht
      exact (hr.final_of_complete hcom).step h hr hn hc

theorem agrees_nil (h₀ : w₀.Fresh) : Agrees k [] w₀ where
  spared p row hs := by rcases hs with hs | hs | hs <;> cases hs
  billed hb := by simp [isBilled, h₀.usage] at hb
  stable t ht := by cases ht

end run

/-- **Terminal status is stable and agrees with billing**, in every run in
which no `UPDATE` of `mark_terminal_failure` meets a complete row and no
commit brings the two tables apart. -/
theorem terminal_status_stable {S : Settings} {w₀ : World} {ts : List SysTrans}
    {c : Config World Eff Ans Outcome} {k : Uuid} (h₀ : w₀.Fresh) (h : Trace (system S) w₀ ts c)
    (hf : ∀ t ∈ ts, failsIncomplete k t = true)
    (hc : Always (fun past t => commitAgrees k past t = true) ts) :
    (∀ t ∈ ts, isComplete k t.pre = true → isFailed k c.world = false) ∧
      ∀ row, c.world.idem.rows k = some row → c.world.now < row.expiresAt →
        ((∃ u, c.world.usage.rows k = some u ∧ u.status = .ok) ↔
          row.status = .complete ∧ row.responseUri.isSome = true) := by
  have hinv : (∀ t ∈ ts, failsIncomplete k t = true) →
      Always (fun past t => commitAgrees k past t = true) ts → Agrees k ts c.world := by
    refine (h.run h₀).induct (I := fun ts w => (∀ t ∈ ts, failsIncomplete k t = true) →
      Always (fun past t => commitAgrees k past t = true) ts → Agrees k ts w)
      (fun _ _ => agrees_nil h₀) ?_
    intro ts w ev w' hr hn ih hf hc
    obtain ⟨hc₀, hlast⟩ := always_snoc.1 hc
    exact (ih (fun t ht => hf t (List.mem_append_left _ ht)) hc₀).step hr hn
      (hf _ (by simp)) hlast
  have hag := hinv hf hc
  refine ⟨fun t ht hcom => ?_, fun row hrow hexp => ⟨fun hb => ?_, fun hs => ?_⟩⟩
  · obtain ⟨-, hfin⟩ := hag.stable t ht hcom
    cases hrow : c.world.idem.rows k with
    | none => simp [isFailed, hrow]
    | some row => simp [isFailed, hrow, hfin row hrow]
  · have hs := hag.billed (isBilled_iff.2 hb) row hrow hexp
    exact ⟨hs, (((h.run h₀).ledger.rows k row hrow).complete hs).1⟩
  · exact (((h.run h₀).ledger.rows k row hrow).complete hs.1).2

/-- One job, from its `POST` to the acknowledgement. -/
theorem terminal_status_stable_one : ∃ ts c, Trace (system plain) blank ts c ∧
    (∃ t ∈ ts, isComplete someKey t.pre = true) ∧ isUnexpired someKey c.world = true ∧
    (∀ t ∈ ts, isComplete someKey t.pre = true → isFailed someKey c.world = false) ∧
      ∀ row, c.world.idem.rows someKey = some row → c.world.now < row.expiresAt →
        ((∃ u, c.world.usage.rows someKey = some u ∧ u.status = .ok) ↔
          row.status = .complete ∧ row.responseUri.isSome = true) := by
  obtain ⟨ts, c, h, hcom, hexp, hf, hc⟩ := Machine.exists_trace (system plain) blank
    (onePost 0 ++ pickUp 1 ++ produceOne 1 ++ commitOne 1 ++ finishOne 1)
    (fun ts w => (∃ t ∈ ts, isComplete someKey t.pre = true) ∧ isUnexpired someKey w = true ∧
      (∀ t ∈ ts, failsIncomplete someKey t = true) ∧
      Always (fun past t => commitAgrees someKey past t = true) ts) (by decide +kernel)
  exact ⟨ts, c, h, hcom, hexp, terminal_status_stable fresh_blank h hf hc⟩

/-- The worker of a job dies between its commit and its acknowledgement, and
the entry is delivered again when the voice is gone. -/
def redelivered : List Move :=
  onePost 0 ++ pickUp 1 ++ produceOne 1 ++ commitOne 1 ++ [.crash 1] ++ takeOver 2 ++ steps 2 9

/-- A billed, complete row becomes failed. -/
theorem fail_overwrites_complete : ∃ ts c, Trace (system plain) blank ts c ∧
    (∃ t ∈ ts, isComplete someKey t.pre = true) ∧ isFailed someKey c.world = true ∧
    isUnexpired someKey c.world = true ∧ isBilled someKey c.world = true :=
  Machine.exists_trace _ _ redelivered (fun ts w =>
    (∃ t ∈ ts, isComplete someKey t.pre = true) ∧ isFailed someKey w = true ∧
    isUnexpired someKey w = true ∧ isBilled someKey w = true) (by decide +kernel)

end NeuroVoice
