import NeuroVoice.Ledger.Commit

/-!
# NeuroVoice.ErrorChunk

What an error chunk tells the client.

`mark_terminal_failure` publishes it before it opens its transaction.  When
that transaction is never committed, a later delivery can still succeed, and
bill, a request whose client was told that it failed
(`billed_after_error`).  `error_terminal` says when it cannot.
-/

namespace NeuroVoice

/-- An error chunk for request `k` is out, and its failure is not recorded
yet. -/
def Stage.reporting (k : Uuid) : Stage → Bool
  | .erred rid | .failing rid _ _ | .unbilled rid _ _ | .recorded rid _ _ => rid = k
  | _ => false

/-- An error chunk for request `k` is added to its stream, whether or not
the reply arrives. -/
def addsError (k : Uuid) (t : SysTrans) : Bool :=
  match t.ev with
  | .act _ (.xaddResult r) _ =>
      r.error.isSome && r.requestId = k &&
        (t.pre.results k).entries.length < (t.post.results k).entries.length
  | _ => false

/-- The `XADD` of an error chunk is answered when it adds the chunk. -/
def errorHeard (k : Uuid) (t : SysTrans) : Bool :=
  match t.ev with
  | .act _ (.xaddResult _) (.error _) => !addsError k t
  | _ => true

/-- A failure that was published goes on to its commit: no await raises, the
session is not closed, and the worker does not die. -/
def reportHolds (k : Uuid) (past : List SysTrans) (t : SysTrans) : Bool :=
  match t.ev with
  | .act p .rollback _ | .act p .close _ | .crash p => !(stage p past).reporting k
  | .act p _ a => !(stage p past).reporting k || a.isOk
  | _ => true

/-- No process is between an error chunk and its commit. -/
def noneReporting (k : Uuid) (past : List SysTrans) : Bool :=
  (started past).all fun q => !(stage q past).reporting k

/-- Nothing is billed while a failure is being reported. -/
def billsAlone (k : Uuid) (past : List SysTrans) (t : SysTrans) : Bool :=
  match t.ev with
  | .act p .commit _ =>
      match stage p past with
      | .billed rid _ _ => rid ≠ k || noneReporting k past
      | _ => true
  | _ => true

/-- The conditions at one step: what is billed already is not reported as
failed, either. -/
def errorFinal (k : Uuid) (past : List SysTrans) (t : SysTrans) : Bool :=
  errorHeard k t && reportHolds k past t && billsAlone k past t &&
    (!addsError k t || !isBilled k t.pre)

section run

variable {S : Settings} {w₀ w w' : World} {ts : List SysTrans} {ev : SysEvent} {k : Uuid}
  {p : Nat} {e : Eff} {a : Ans e} {st st' : Stage}

theorem noneReporting_iff : noneReporting k ts = true ↔ ∀ q, (stage q ts).reporting k = false := by
  rw [noneReporting, List.all_eq_true]
  constructor
  · intro h q
    cases hs : track q ts with
    | none => rw [stage, hs]; rfl
    | some s =>
        simpa only [Bool.not_eq_true'] using h q (mem_started (Option.isSome_iff_exists.2 ⟨s, hs⟩))
  · intro h q _
    simpa only [Bool.not_eq_true'] using h q

/-- A report goes on, unless it is committed. -/
theorem Turn.reporting (h : Turn p w w' st e a st') (hs : st.reporting k = true)
    (ha : a.isOk = true) (hr : e ≠ .rollback) (hcl : e ≠ .close) :
    st'.reporting k = true ∨ e = .commit ∧ (∃ row wrote, st = .recorded k row wrote) ∧
      w'.tables = (w.commit p).tables := by
  cases h with
  | calm _ _ | failing _ | fails _ _ _ | billedBefore _ _ _ | unbilled _ _ | records _ _ _ _ =>
      exact .inl hs
  | dropped he _ => rcases he with rfl | rfl <;> contradiction
  | aborted _ _ | unheard _ _ | escapes _ _ | refused _ _ _ _ => cases ha
  | committed hc ht =>
      refine .inr ⟨rfl, ?_, ht⟩
      cases st with
      | recorded rid row wrote => exact ⟨row, wrote, by rw [of_decide_eq_true hs]⟩
      | erred _ | failing _ _ _ | unbilled _ _ _ => cases hc
      | _ => cases hs
  | inserted hst _ _ _ => rcases hst with rfl | rfl | ⟨_, _, rfl⟩ <;> cases hs
  | submits hst _ _ _ => rcases hst with rfl | rfl <;> cases hs
  | _ => cases hs

/-- A client was told that request `k` failed: it is not billed, and the
failure is recorded or about to be. -/
structure Told (k : Uuid) (ts : List SysTrans) (w : World) : Prop where
  unbilled : isBilled k w = false
  recorded : (∃ p, (stage p ts).reporting k = true) ∨ (w.usage.rows k).isSome = true

/-- It stays unbilled. -/
theorem Told.unbilled_step (h : Told k ts w) (hr : Run S w₀ ts w) (hn : Next S ts w ev w')
    (hc : billsAlone k ts ⟨w, ev, w'⟩ = true) : isBilled k w' = false := by
  have hb := h.unbilled
  rcases hn.published hr k with ⟨-, hus⟩ | ⟨p, a, rfl, hp⟩
  · rwa [isBilled, hus]
  · generalize hst : stage p ts = st at hp
    -- a success is published only where there was no usage row
    have halone (hbill : ∃ row wrote, st = .billed k row wrote) (hnone : w.usage.rows k = none) :
        isBilled k w' = false := by
      obtain ⟨row, wrote, rfl⟩ := hbill
      rcases h.recorded with ⟨q, hq⟩ | hsome
      · have hno : noneReporting k ts = true := by simpa [billsAlone, hst] using hc
        rw [noneReporting_iff.1 hno q] at hq
        cases hq
      · rw [hnone] at hsome
        cases hsome
    cases hp with
    | billed _ hnone _ _ => exact halone ⟨_, _, rfl⟩ hnone
    | completed _ _ _ _ hnone _ _ => exact halone ⟨_, _, rfl⟩ hnone
    | recorded _ _ _ _ hu he => simp [isBilled, hu, he]
    | failed _ _ hu hor =>
        rcases hor with hu₀ | ⟨-, he⟩
        · rwa [isBilled, hu, ← hu₀]
        · simp [isBilled, hu, he]
    | reserved _ _ hus | deleted _ _ _ hus => rwa [isBilled, hus]

/-- A committed usage row stays. -/
theorem Run.usage_kept (hr : Run S w₀ ts w) (hn : Next S ts w ev w')
    (hs : (w.usage.rows k).isSome = true) : (w'.usage.rows k).isSome = true := by
  by_cases hev : ∃ p e a, ev = .act p e a
  · obtain ⟨p, e, a, rfl⟩ := hev
    exact (hn.turn.tableMove.usageKept (hr.ledger.owned p)).isSome hs
  · rw [(hn.quiet fun p e a he => hev ⟨p, e, a, he⟩).2.1]
    exact hs

/-- The report goes on, or the failure is recorded. -/
theorem Told.recorded_step (h : Told k ts w) (hr : Run S w₀ ts w) (hn : Next S ts w ev w')
    (hc : reportHolds k ts ⟨w, ev, w'⟩ = true) :
    (∃ p, (stage p (ts ++ [⟨w, ev, w'⟩])).reporting k = true) ∨
      (w'.usage.rows k).isSome = true := by
  rcases h.recorded with ⟨p, hp⟩ | hsome
  swap
  · exact .inr (hr.usage_kept hn hsome)
  cases ev with
  | act q e a =>
      by_cases hq : p = q
      swap
      · exact .inl ⟨p, by rwa [stage_other hq]⟩
      subst hq
      have hev : a.isOk = true ∧ e ≠ .rollback ∧ e ≠ .close := by
        cases e <;> simp_all [reportHolds]
      rcases hn.turn.reporting hp hev.1 hev.2.1 hev.2.2 with hrep | ⟨rfl, ⟨row, wrote, hst⟩, ht⟩
      · exact .inl ⟨p, hrep⟩
      · refine .inr ?_
        rw [show w'.usage = w.usage.commit p from congrArg Prod.snd ht, TxTable.rows_commit]
        exact hr.ledger.recorded_usage hst
  | spawn q call =>
      have hpq : q ≠ p := by
        rintro rfl
        rw [stage, hn.spawn.1] at hp
        cases hp
      exact .inl ⟨p, by simpa [stage, hpq] using hp⟩
  | done q r =>
      have hpq : q ≠ p := by
        rintro rfl
        obtain ⟨s, hs, hstop, -⟩ := hn.done
        have hfin := hstop.2
        rw [stage, hs] at hp
        cases hst : s.stage <;> rw [hst] at hfin <;>
          first | (cases hfin; done) | simp [hst] at hp; cases hp
      exact .inl ⟨p, by simpa [stage, hpq] using hp⟩
  | crash q =>
      have hpq : q ≠ p := by
        rintro rfl
        simp [reportHolds, hp] at hc
      exact .inl ⟨p, by simpa [stage, hpq] using hp⟩
  | tick d => exact .inl ⟨p, by simpa [stage] using hp⟩

/-- An error chunk is published for a request that is not billed. -/
theorem told_of_addsError (hr : Run S w₀ ts w) (hn : Next S ts w ev w')
    (he : addsError k ⟨w, ev, w'⟩ = true) (hheard : errorHeard k ⟨w, ev, w'⟩ = true)
    (hb : isBilled k w = false) : Told k (ts ++ [⟨w, ev, w'⟩]) w' := by
  cases ev with
  | act p e a =>
      cases e with
      | xaddResult r =>
          cases a with
          | error x => simp [errorHeard, he] at hheard
          | ok b =>
              simp only [addsError, Bool.and_eq_true, decide_eq_true_eq] at he
              obtain ⟨⟨herr, hk⟩, -⟩ := he
              refine ⟨?_, .inl ⟨p, ?_⟩⟩
              · rcases hn.published hr k with ⟨-, hus⟩ | ⟨q, a, hq, -⟩
                · rwa [isBilled, hus]
                · cases hq
              · obtain ⟨s, o, hs, -, -⟩ := hn.act
                simp [stage, hs, Track.next, Track.onOk, herr, Stage.reporting, hk]
      | _ => cases he
  | _ => cases he

end run

/-- **An error chunk is terminal**, in every run in which what is published
as failed is recorded as failed before anything else is billed, and nothing
billed is published as failed. -/
theorem error_terminal {S : Settings} {w₀ : World} {ts : List SysTrans}
    {c : Config World Eff Ans Outcome} {k : Uuid} (h₀ : w₀.Fresh) (h : Trace (system S) w₀ ts c)
    (hc : Always (fun past t => errorFinal k past t = true) ts)
    (he : ∃ t ∈ ts, addsError k t = true) :
    isBilled k c.world = false ∧ isComplete k c.world = false := by
  have hinv : Always (fun past t => errorFinal k past t = true) ts →
      (∃ t ∈ ts, addsError k t = true) → Told k ts c.world := by
    refine (h.run h₀).induct (I := fun ts w =>
      Always (fun past t => errorFinal k past t = true) ts →
        (∃ t ∈ ts, addsError k t = true) → Told k ts w) (by simp) ?_
    intro ts w ev w' hr hn ih hc he
    obtain ⟨hc, hlast⟩ := always_snoc.1 hc
    simp only [errorFinal, Bool.and_eq_true] at hlast
    obtain ⟨⟨⟨hheard, hholds⟩, halone⟩, hun⟩ := hlast
    by_cases hold : ∃ t ∈ ts, addsError k t = true
    · have htold := ih hc hold
      exact ⟨htold.unbilled_step hr hn halone, htold.recorded_step hr hn hholds⟩
    · obtain ⟨t, ht, hadds⟩ := he
      rcases List.mem_append.1 ht with ht | ht
      · exact absurd ⟨t, ht, hadds⟩ hold
      · obtain rfl := List.mem_singleton.1 ht
        exact told_of_addsError hr hn hadds hheard (by simpa [hadds] using hun)
  have htold := hinv hc he
  refine ⟨htold.unbilled, ?_⟩
  by_contra hcom
  have hb := (h.run h₀).billed_of_complete (by simpa using hcom)
  rw [htold.unbilled] at hb
  cases hb

/-- A job whose voice is gone. -/
theorem error_terminal_one : ∃ ts c, Trace (system plain) blank ts c ∧
    (∃ t ∈ ts, addsError someKey t = true) ∧
    isBilled someKey c.world = false ∧ isComplete someKey c.world = false := by
  obtain ⟨ts, c, h, he, hc⟩ := Machine.exists_trace (system plain) blank
    (onePost 0 ++ voicelessPickUp 1 ++ steps 1 12)
    (fun ts _ => (∃ t ∈ ts, addsError someKey t = true) ∧
      Always (fun past t => errorFinal someKey past t = true) ts) (by decide +kernel)
  exact ⟨ts, c, h, he, error_terminal fresh_blank h hc he⟩

/-- A worker dies after its error chunk; the next one finds the voice. -/
def reportedThenDone : List Move :=
  onePost 0 ++ voicelessPickUp 1 ++ [.crash 1] ++ takeOver 2 ++
    [step 2 { voice := some someVoice }] ++ steps 2 6 ++ produceOne 2 ++ commitOne 2

/-- A request whose client was told that it failed is completed and billed. -/
theorem billed_after_error : ∃ ts c, Trace (system plain) blank ts c ∧
    (∃ t ∈ ts, addsError someKey t = true ∧ isBilled someKey t.post = false) ∧
    isBilled someKey c.world = true ∧ isComplete someKey c.world = true :=
  Machine.exists_trace _ _ reportedThenDone (fun ts w =>
    (∃ t ∈ ts, addsError someKey t = true ∧ isBilled someKey t.post = false) ∧
    isBilled someKey w = true ∧ isComplete someKey w = true) (by decide +kernel)

end NeuroVoice
