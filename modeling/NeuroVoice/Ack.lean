import NeuroVoice.Run

/-!
# NeuroVoice.Ack

When a worker acknowledges an entry.

`XACK` ends an entry's life: whatever has not been persisted by then is
lost.  `xack_settled` lists what has always happened before it.
-/

namespace NeuroVoice

/-- `process_one_job`, called for entry `e`, commits the transaction in which
`complete` ran and the `ok` usage row was inserted. -/
def CompletesEntry (e : Nat) (past : List SysTrans) (t : SysTrans) : Prop :=
  ∃ p s f i row wrote, t.ev = .act p .commit (.ok ()) ∧ track p past = some s ∧
    s.held = some (e, f) ∧ s.started = true ∧ s.left = false ∧ s.ids = some i ∧
    s.stage = .billed i.rid row wrote ∧
    ∃ u, t.post.usage.rows i.rid = some u ∧ u.status = .ok

/-- `mark_terminal_failure`, called for entry `e`, commits: the request has a
usage row, and the row `fail` found, if it found one, is failed. -/
def FailsEntry (e : Nat) (past : List SysTrans) (t : SysTrans) : Prop :=
  ∃ p s f i row wrote, t.ev = .act p .commit (.ok ()) ∧ track p past = some s ∧
    s.held = some (e, f) ∧ s.ids = some i ∧ s.stage = .recorded i.rid row wrote ∧
    (t.post.usage.rows i.rid).isSome = true ∧
    ∀ r, row = some r → r.status = .failed ∨
      ∃ r', t.post.idem.rows i.rid = some r' ∧ r'.status = .failed

/-- The payload of entry `e`, which does not decode, is added to the
dead-letter stream. -/
def ArchivesEntry (e : Nat) (past : List SysTrans) (t : SysTrans) : Prop :=
  ∃ p s f d x, t.ev = .act p (.xaddDlq d) (.ok ()) ∧ track p past = some s ∧
    s.held = some (e, f) ∧ TtsJobPayload.decode f = .error x ∧ d.entryId = e ∧ d.payload = f

section track

variable {s : Track} {e : Eff} {a : Ans e}

/-- A delivery in hand was in hand before, or is new. -/
theorem Track.next_held {d : Nat × EntryFields} (h : (s.next e a).held = some d) :
    s.held = some d ∨ s.next e a = { held := some d, ws := s.ws } := by
  by_cases he : e.moves = false
  · exact .inl ((s.next_frame he a).held ▸ h)
  cases a with
  | error x => exact .inl h
  | ok b =>
      cases e with
      | xreadgroup c | xautoclaim c m =>
          cases b with
          | none => exact .inl h
          | some d' => cases h; exact .inr rfl
      | enterJob _ | leaveJob _ | commit => exact .inl h
      | handled _ => cases h
      | _ => exact absurd rfl he

/-- Only a commit and a dead-letter entry settle a delivery. -/
theorem Track.next_settled (hc : e ≠ .commit) (hd : ∀ d, e ≠ .xaddDlq d) :
    ((s.next e a).archived = true → s.archived = true) ∧
      ∀ j, (s.next e a).ended = some j → s.ended = some j := by
  cases a with
  | error x => exact ⟨id, fun _ => id⟩
  | ok b =>
      cases e with
      | commit => exact absurd rfl hc
      | xaddDlq d => exact absurd rfl (hd d)
      | handled _ => exact ⟨fun h => (by cases h), fun _ h => (by cases h)⟩
      | xreadgroup c | xautoclaim c m =>
          cases b with
          | none => exact ⟨id, fun _ => id⟩
          | some d => exact ⟨fun h => (by cases h), fun _ h => (by cases h)⟩
      | xpendingRange _ | xaddResult _ | synthesize _ =>
          simp only [Track.next, Track.onOk]
          split <;> exact ⟨id, fun _ => id⟩
      | _ => exact ⟨id, fun _ => id⟩

end track

/-- What a delivery in hand says of the run so far. -/
structure Accounted (ts : List SysTrans) (s : Track) (e : Nat) : Prop where
  archived : s.archived = true → Once (ArchivesEntry e) ts
  completed : ∀ k row, s.ended = some (.completed k row) → Once (CompletesEntry e) ts
  failed : ∀ k row, s.ended = some (.failed k row) → Once (FailsEntry e) ts

section run

variable {S : Settings} {w₀ w w' : World} {ts : List SysTrans} {s : Track} {p e : Nat}
  {f : EntryFields}

theorem Accounted.later (h : Accounted ts s e) (t : SysTrans) : Accounted (ts ++ [t]) s e where
  archived ha := once_snoc.2 (.inl (h.archived ha))
  completed k row hc := once_snoc.2 (.inl (h.completed k row hc))
  failed k row hc := once_snoc.2 (.inl (h.failed k row hc))

/-- A commit accounts for the way it ends the job. -/
theorem Accounted.commit (hr : Run S w₀ ts w) (hs : track p ts = some s)
    (hheld : s.held = some (e, f)) (h : Accounted ts s e) {a : Ans .commit} {o : Oracle}
    (hx : exec p .commit o w = some (a, w')) :
    Accounted (ts ++ [⟨w, .act p .commit a, w'⟩]) (s.next .commit a) e := by
  cases a with
  | error x =>
      have hl := h.later ⟨w, .act p .commit (.error x), w'⟩
      exact ⟨hl.archived, hl.completed, hl.failed⟩
  | ok b =>
      have hw : w' = w.commit p := exec_commit hx
      have hst : stage p ts = s.stage := by simp [stage, hs]
      have hend : (s.next .commit (.ok b)).ended = s.stage.jobEnd.or s.ended := rfl
      refine ⟨fun ha => once_snoc.2 (.inl (h.archived ha)), fun k row hc => ?_,
        fun k row hc => ?_⟩
      · rw [hend, Option.or_eq_some_iff] at hc
        rcases hc with hc | ⟨-, hc⟩
        · cases hb : s.stage <;> rw [hb] at hc <;> cases hc
          next wrote =>
          obtain ⟨hstart, hleft, -, i, hi, rfl, -⟩ :=
            (hr.sound p s hs).completing _ _ _ (.inr hb)
          obtain ⟨-, ⟨u, hown, hok⟩, -⟩ := hr.ledger.billed (hst.trans hb)
          refine once_snoc.2 (.inr ⟨p, s, f, i, _, _, rfl, hs, hheld, hstart, hleft, hi, hb,
            u, ?_, hok⟩)
          rw [hw]
          exact TxTable.read_of_own_some hown
        · exact once_snoc.2 (.inl (h.completed k row hc))
      · rw [hend, Option.or_eq_some_iff] at hc
        rcases hc with hc | ⟨-, hc⟩
        · cases hb : s.stage <;> rw [hb] at hc <;> cases hc
          next wrote =>
          obtain ⟨i, hi, rfl⟩ := (hr.sound p s hs).failing _ (.inr ⟨_, _, .inr (.inr hb)⟩)
          obtain ⟨husage, hrow⟩ := hr.ledger.recorded (hst.trans hb)
          refine once_snoc.2 (.inr ⟨p, s, f, i, _, _, rfl, hs, hheld, hi, hb, ?_, fun r hrow' => ?_⟩)
          · rw [hw]
            exact hr.ledger.recorded_usage (hst.trans hb)
          · refine (hrow r hrow').imp And.right ?_
            rintro ⟨cur, _, hown⟩
            refine ⟨{ cur with status := .failed }, ?_, rfl⟩
            rw [hw]
            exact TxTable.read_of_own_some hown
        · exact once_snoc.2 (.inl (h.failed k row hc))

/-- A dead-letter entry of an undecodable payload accounts for it. -/
theorem Accounted.xaddDlq (hs : track p ts = some s) (hheld : s.held = some (e, f))
    (h : Accounted ts s e) {d : DlqEntry} (hal : Allows S.maxRetries s (.xaddDlq d))
    (a : Ans (.xaddDlq d)) :
    Accounted (ts ++ [⟨w, .act p (.xaddDlq d) a, w'⟩]) (s.next (.xaddDlq d) a) e := by
  have hl := h.later ⟨w, .act p (.xaddDlq d) a, w'⟩
  cases a with
  | error x => exact ⟨hl.archived, hl.completed, hl.failed⟩
  | ok b =>
      by_cases hj : d.job.isSome = true
      · have hn : s.next (.xaddDlq d) (.ok b) = { s with dlqed := true } := by
          simp [Track.next, Track.onOk, hj]
        rw [hn]
        exact ⟨hl.archived, hl.completed, hl.failed⟩
      · have hn : s.next (.xaddDlq d) (.ok b) = { s with archived := true } := by
          simp [Track.next, Track.onOk, hj]
        rw [hn]
        refine ⟨fun _ => once_snoc.2 (.inr ?_), hl.completed, hl.failed⟩
        obtain ⟨f', hf, hpay, hiff⟩ := hal
        rw [hheld] at hf
        cases hf
        cases hd : TtsJobPayload.decode f with
        | error x => exact ⟨p, s, f, d, x, rfl, hs, hheld, hd, rfl, hpay⟩
        | ok j => exact absurd (hiff.2 (by simp [Track.job, hheld, hd, Except.toOption])) hj

/-- A new delivery owes nothing. -/
theorem accounted_new (d : Nat × EntryFields) (b : Bool) :
    Accounted ts { held := some d, ws := b } e :=
  ⟨nofun, nofun, nofun⟩

/-- What is known about a delivery in hand has happened in the run. -/
theorem Run.accounted (h : Run S w₀ ts w) :
    ∀ p s e f, track p ts = some s → s.held = some (e, f) → Accounted ts s e := by
  refine h.induct (I := fun ts _ => ∀ p s e f, track p ts = some s → s.held = some (e, f) →
    Accounted ts s e) (by simp) ?_
  intro ts w ev w' hr hn ih q s e f hq hheld
  have hlater (hq' : track q ts = some s) : Accounted (ts ++ [⟨w, ev, w'⟩]) s e :=
    (ih q s e f hq' hheld).later _
  cases ev with
  | act p eff a =>
      obtain ⟨s₀, o, hs, hx, hal⟩ := hn.act
      rw [track_act] at hq
      split at hq
      · next hp =>
          subst hp
          simp only [hs, Option.map_some, Option.some.injEq] at hq
          subst hq
          rcases s₀.next_held hheld with hheld₀ | hnew
          · have hacc := ih p s₀ e f hs hheld₀
            by_cases hc : eff = .commit
            · subst hc
              exact hacc.commit hr hs hheld₀ hx
            by_cases hd : ∃ d, eff = .xaddDlq d
            · obtain ⟨d, rfl⟩ := hd
              exact hacc.xaddDlq hs hheld₀ hal a
            obtain ⟨ha, hend⟩ := s₀.next_settled (a := a) hc fun d hd' => hd ⟨d, hd'⟩
            have hl := hacc.later ⟨w, .act p eff a, w'⟩
            exact ⟨fun h => hl.archived (ha h), fun k row h => hl.completed k row (hend _ h),
              fun k row h => hl.failed k row (hend _ h)⟩
          · rw [hnew]
            exact accounted_new _ _
      · exact hlater hq
  | spawn p call =>
      rw [track_spawn] at hq
      split at hq
      · cases hq
        cases call <;> cases hheld
      · exact hlater hq
  | done p r =>
      rw [track_done] at hq
      split at hq
      · cases hq
      · exact hlater hq
  | crash p =>
      rw [track_crash] at hq
      split at hq
      · cases hq
      · exact hlater hq
  | tick d => exact hlater (track_tick q d ▸ hq)

/-- **No job is lost**: whenever an entry is acknowledged, its job was
completed, it was failed for good, or its payload could not be decoded and
was archived. -/
theorem xack_settled {S : Settings} {w₀ : World} {ts : List SysTrans}
    {c : Config World Eff Ans Outcome} (h₀ : w₀.Fresh) (h : Trace (system S) w₀ ts c) :
    Always (fun past t => ∀ p e a, t.ev = .act p (.xack e) a →
      Once (CompletesEntry e) past ∨ Once (FailsEntry e) past ∨ Once (ArchivesEntry e) past)
      ts := by
  refine (h.run h₀).induct (I := fun ts _ => Always _ ts) always_nil ?_
  intro ts w ev w' hr hn ih
  refine always_snoc.2 ⟨ih, ?_⟩
  rintro p e a rfl
  obtain ⟨s, o, hs, hx, ⟨f, hheld⟩, hset⟩ := hn.act
  have hacc := hr.accounted p s e f hs hheld
  rcases Bool.or_eq_true_iff.1 hset with ha | hend
  · exact .inr (.inr (hacc.archived ha))
  · obtain ⟨j, hj⟩ := Option.isSome_iff_exists.1 hend
    cases j with
    | completed k row => exact .inl (hacc.completed k row hj)
    | failed k row => exact .inr (.inl (hacc.failed k row hj))

end run

/-- Some entry is acknowledged. -/
def acks (e : Nat) (t : SysTrans) : Bool :=
  match t.ev with
  | .act _ (.xack e') (.ok _) => e' = e
  | _ => false

/-- A job that is enqueued, processed and acknowledged. -/
theorem xack_settled_one : ∃ ts c, Trace (system plain) blank ts c ∧
    (∃ t ∈ ts, acks 1 t = true) ∧
    Always (fun past t => ∀ p e a, t.ev = .act p (.xack e) a →
      Once (CompletesEntry e) past ∨ Once (FailsEntry e) past ∨ Once (ArchivesEntry e) past)
      ts := by
  obtain ⟨ts, c, h, hack⟩ := Machine.exists_trace (system plain) blank
    (onePost 0 ++ pickUp 1 ++ produceOne 1 ++ commitOne 1 ++ finishOne 1)
    (fun ts _ => ∃ t ∈ ts, acks 1 t = true) (by decide +kernel)
  exact ⟨ts, c, h, hack, xack_settled fresh_blank h⟩

end NeuroVoice
