import NeuroVoice.Ledger.Commit

/-!
# NeuroVoice.Marker

What stands behind the final marker of a result stream.

`process_one_job` publishes it after its commit, but `complete` says nothing
when it finds no row, and nobody holds the row between the commit and the
marker.  `final_without_row` publishes a marker for a job whose reservation
the gateway has deleted; `final_backed` says when every marker has its
complete row.
-/

namespace NeuroVoice

/-- The process has committed the job `k` as completed, and
`process_one_job` is not over. -/
def Track.finishing (s : Track) (k : Uuid) : Bool :=
  match s.ended, s.left with
  | some (.completed rid _), false => rid = k
  | _, _ => false

/-- No process is between its commit of `k` and the end of
`process_one_job`. -/
def noneFinishing (k : Uuid) (past : List SysTrans) : Bool :=
  (started past).all fun q => (track q past).all fun s => !s.finishing k

/-- `complete` finds its row. -/
def completeFinds (k : Uuid) (t : SysTrans) : Bool :=
  match t.ev with
  | .act p (.selectIdem .complete tenant rid) (.ok _) =>
      rid ≠ k || (t.pre.lookupIdem p tenant rid).isSome
  | _ => true

/-- The `UPDATE` of `complete` meets a row of the tenant whose row was
found. -/
def completeKeepsTenant (k : Uuid) (past : List SysTrans) (t : SysTrans) : Bool :=
  match t.ev with
  | .act p (.updateIdem rid _) (.ok _) =>
      match stage p past with
      | .completing _ (some row) _ =>
          rid ≠ k || (t.pre.idem.read p rid).all fun cur => cur.tenantId = row.tenantId
      | _ => true
  | _ => true

/-- The row is not deleted or failed between the commit of a success and the
end of its `process_one_job`. -/
def sparesFinishing (k : Uuid) (past : List SysTrans) (t : SysTrans) : Bool :=
  match t.ev with
  | .act p .commit _ =>
      match stage p past with
      | .deleting tenant rid =>
          rid ≠ k || (t.pre.idem.rows k).all (fun row => row.tenantId ≠ tenant) ||
            noneFinishing k past
      | .recorded rid (some _) true => rid ≠ k || noneFinishing k past
      | _ => true
  | _ => true

/-- The final marker comes before the row expires. -/
def finalInTime (k : Uuid) (t : SysTrans) : Bool :=
  match t.ev with
  | .act _ (.xaddResult r) _ =>
      !r.final || r.requestId ≠ k || (t.pre.idem.rows k).all fun row => t.pre.now < row.expiresAt
  | _ => true

/-- All four, at one step. -/
def marksInOrder (k : Uuid) (past : List SysTrans) (t : SysTrans) : Bool :=
  completeFinds k t && completeKeepsTenant k past t && sparesFinishing k past t && finalInTime k t

/-- The committed row of a request that was completed. -/
def Complete (w : World) (k tenant : Uuid) : Prop :=
  ∃ row, w.idem.rows k = some row ∧ row.tenantId = tenant ∧ row.status = .complete ∧
    row.responseUri.isSome = true

section run

variable {S : Settings} {w₀ w w' : World} {ts : List SysTrans} {ev : SysEvent} {k : Uuid}
  {p : Nat} {s : Track} {e : Eff} {a : Ans e}

theorem noneFinishing_iff : noneFinishing k ts = true ↔
    ∀ q s, track q ts = some s → s.finishing k = false := by
  rw [noneFinishing, List.all_eq_true]
  constructor
  · intro h q s hs
    have hq := h q (mem_started (Option.isSome_iff_exists.2 ⟨s, hs⟩))
    rw [hs] at hq
    simpa only [Option.all_some, Bool.not_eq_true'] using hq
  · intro h q _
    cases hs : track q ts with
    | none => rfl
    | some s => simpa only [Option.all_some, Bool.not_eq_true'] using h q s hs

theorem Track.finishing_of {row : Option JobIdempotency} (he : s.ended = some (.completed k row))
    (hl : s.left = false) : s.finishing k = true := by
  rw [Track.finishing, he, hl]
  exact decide_eq_true rfl

/-- Only a commit completes a job. -/
theorem Track.next_ended (he : e ≠ .commit) {j : JobEnd} (hj : (s.next e a).ended = some j)
    (hl : (s.next e a).left = false) : s.ended = some j ∧ s.left = false := by
  by_cases hm : e.moves = false
  · have hf := s.next_frame hm a
    exact ⟨hf.ended ▸ hj, hf.left ▸ hl⟩
  cases a with
  | error x => exact ⟨hj, hl⟩
  | ok b =>
      cases e with
      | enterJob _ => exact ⟨hj, hl⟩
      | leaveJob _ => cases hl
      | handled _ => cases hj
      | xreadgroup _ | xautoclaim _ _ =>
          cases b with
          | none => exact ⟨hj, hl⟩
          | some d => cases hj
      | commit => exact absurd rfl he
      | _ => exact absurd rfl hm

/-- What holds of request `k` in a run. -/
structure Backed (k : Uuid) (ts : List SysTrans) (w : World) : Prop where
  looked : ∀ q row wrote, (stage q ts = .completing k row wrote ∨ stage q ts = .billed k row wrote) →
    ∃ r, row = some r ∧
      (wrote = true → ∀ v, w.idem.own q k = some (some v) → v.tenantId = r.tenantId)
  completed : ∀ q s row, track q ts = some s → s.ended = some (.completed k row) →
    s.left = false → ∃ r, row = some r ∧ Complete w k r.tenantId

/-- A complete row stays while its job is finishing. -/
theorem Complete.step {tenant : Uuid} (h : Complete w k tenant) (hr : Run S w₀ ts w)
    (hn : Next S ts w ev w') (hfin : noneFinishing k ts = false)
    (hc : sparesFinishing k ts ⟨w, ev, w'⟩ = true) : Complete w' k tenant := by
  obtain ⟨row, hrow, rfl, hs, hu⟩ := h
  obtain ⟨-, u, husage, -⟩ := (hr.ledger.rows k row hrow).complete hs
  rcases hn.published hr k with ⟨hi, -⟩ | ⟨p, a, rfl, hp⟩
  · exact ⟨row, hi ▸ hrow, rfl, hs, hu⟩
  · generalize hst : stage p ts = st at hp
    cases hp with
    | billed hi _ _ _ | recorded _ _ hi _ _ _ => exact ⟨row, hi ▸ hrow, rfl, hs, hu⟩
    | completed _ _ _ _ hnone _ _ => simp [hnone] at husage
    | failed _ _ _ _ => simp [sparesFinishing, hst, hfin] at hc
    | reserved hnone _ _ => simp [hnone] at hrow
    | @deleted t cur hcur ht _ _ =>
        simp [sparesFinishing, hst, hfin, hcur, ht] at hc

/-- What an await does to the stage and the writes of its own process. -/
theorem Turn.completing_own {st st' : Stage} (h : Turn p w w' st e a st') {row : Option JobIdempotency}
    {wrote : Bool} (hs : st' = .completing k row wrote ∨ st' = .billed k row wrote) :
    ((st = .completing k row wrote ∨ st = .billed k row wrote) ∧
        w'.idem.own p k = w.idem.own p k) ∨
      (a.isOk = true ∧ ∃ t, e = .selectIdem .complete t k ∧ row = w.lookupIdem p t k ∧
        wrote = false) ∨
      a.isOk = true ∧ ∃ patch r cur, e = .updateIdem k patch ∧ st = .completing k (some r) false ∧
        row = some r ∧ w.idem.read p k = some cur ∧
        w'.idem.own p k = some (some (patch.apply cur)) := by
  have hidle (hi : st'.idle = true) {P : Prop} : P := by
    rcases hs with rfl | rfl <;> cases hi
  cases h with
  | calm _ h => exact .inl ⟨hs, by rw [show w'.idem = w.idem from congrArg Prod.fst h]⟩
  | dropped _ _ => exact hidle (Stage.idle_dropped _)
  | committed hc _ => exact hidle (Stage.idle_committed hc)
  | aborted _ _ | unheard _ _ | found _ _ _ | errs _ _ | escapes _ _ | submits _ _ _ _
  | refused _ _ _ _ => exact hidle rfl
  | @completing t rid _ =>
      rcases hs with hs | hs <;> injection hs
      next hk hrow hwrote =>
      subst hk
      exact .inr (.inl ⟨rfl, t, rfl, hrow.symm, hwrote.symm⟩)
  | @completes rid r patch cur _ _ hr h =>
      rcases hs with hs | hs <;> cases hs
      refine .inr (.inr ⟨rfl, patch, r, cur, rfl, rfl, rfl, hr, ?_⟩)
      rw [show w'.idem = _ from congrArg Prod.fst h, TxTable.own_put, if_pos ⟨rfl, rfl⟩]
  | bills _ _ _ _ h =>
      rcases hs with hs | hs <;> cases hs
      exact .inl ⟨.inl rfl, by rw [show w'.idem = w.idem from congrArg Prod.fst h]⟩
  | _ => rcases hs with hs | hs <;> cases hs

/-- **The step lemma.** -/
theorem Backed.step (h : Backed k ts w) (hr : Run S w₀ ts w) (hn : Next S ts w ev w')
    (hc : marksInOrder k ts ⟨w, ev, w'⟩ = true) : Backed k (ts ++ [⟨w, ev, w'⟩]) w' := by
  simp only [marksInOrder, Bool.and_eq_true] at hc
  obtain ⟨⟨⟨hfinds, htenant⟩, hspares⟩, -⟩ := hc
  have hlook : ∀ q row wrote, (stage q (ts ++ [⟨w, ev, w'⟩]) = .completing k row wrote ∨
      stage q (ts ++ [⟨w, ev, w'⟩]) = .billed k row wrote) → ∃ r, row = some r ∧
        (wrote = true → ∀ v, w'.idem.own q k = some (some v) → v.tenantId = r.tenantId) := by
    intro q row wrote hs
    by_cases hev : ∃ p e a, ev = .act p e a
    swap
    · have hev' : ∀ p e a, ev ≠ .act p e a := fun p e a he => hev ⟨p, e, a, he⟩
      rcases (hn.quiet hev').2.2 q with hst | hst
      · rw [hst] at hs
        obtain ⟨r, hrow, hown⟩ := h.looked q row wrote hs
        exact ⟨r, hrow, fun hw v hv => hown hw v (hn.quiet_own hev' hv)⟩
      · rw [hst] at hs
        rcases hs with hs | hs <;> cases hs
    obtain ⟨p, e, a, rfl⟩ := hev
    have hT := hn.turn
    by_cases hq : q = p
    swap
    · rw [stage_other hq] at hs
      rw [(hT.tableMove.own_other hq k).1]
      exact h.looked q row wrote hs
    subst hq
    rcases hT.completing_own hs with ⟨hs₀, hown⟩ | ⟨hok, t, rfl, rfl, rfl⟩ |
      ⟨hok, patch, r, cur, rfl, hst, rfl, hread, hown⟩
    · rw [hown]
      exact h.looked q row wrote hs₀
    · cases a with
      | error x => cases hok
      | ok b =>
          simp only [completeFinds, ne_eq, not_true_eq_false, decide_false, Bool.false_or] at hfinds
          obtain ⟨r, hr⟩ := Option.isSome_iff_exists.1 hfinds
          exact ⟨r, hr, nofun⟩
    · cases a with
      | error x => cases hok
      | ok b =>
          refine ⟨r, rfl, fun _ v hv => ?_⟩
          rw [hown] at hv
          cases hv
          simpa [completeKeepsTenant, hst, hread] using htenant
  refine ⟨hlook, fun q s row hs hend hleft => ?_⟩
  -- a job that was finishing before
  have hkept (hs₀ : ∃ s₀, track q ts = some s₀ ∧ s₀.ended = some (.completed k row) ∧
      s₀.left = false) : ∃ r, row = some r ∧ Complete w' k r.tenantId := by
    obtain ⟨s₀, htr, hend₀, hleft₀⟩ := hs₀
    obtain ⟨r, hrow, hcom⟩ := h.completed q s₀ row htr hend₀ hleft₀
    refine ⟨r, hrow, hcom.step hr hn ?_ hspares⟩
    by_contra hno
    have hfin := noneFinishing_iff.1 (by simpa using hno) q s₀ htr
    rw [Track.finishing_of hend₀ hleft₀] at hfin
    cases hfin
  cases ev with
  | act p e a =>
      obtain ⟨s₀, o, htr, hx, hal⟩ := hn.act
      rw [track_act] at hs
      split at hs
      swap
      · exact hkept ⟨s, hs, hend, hleft⟩
      next hp =>
      subst hp
      simp only [htr, Option.map_some, Option.some.injEq] at hs
      subst hs
      by_cases he : e = .commit
      swap
      · obtain ⟨hend₀, hleft₀⟩ := Track.next_ended he hend hleft
        exact hkept ⟨s₀, htr, hend₀, hleft₀⟩
      subst he
      cases a with
      | error x => exact hkept ⟨s₀, htr, hend, hleft⟩
      | ok b =>
          have hend' : s₀.stage.jobEnd.or s₀.ended = some (.completed k row) := hend
          rw [Option.or_eq_some_iff] at hend'
          rcases hend' with hj | ⟨-, hold⟩
          swap
          · exact hkept ⟨s₀, htr, hold, hleft⟩
          obtain ⟨wrote, hst₀⟩ : ∃ wrote, s₀.stage = .billed k row wrote := by
            cases hb : s₀.stage <;> rw [hb] at hj <;> cases hj
            exact ⟨_, rfl⟩
          have hst : stage p ts = .billed k row wrote := by simpa [stage, htr] using hst₀
          obtain ⟨r, rfl, hown⟩ := h.looked p row wrote (.inr hst)
          refine ⟨r, rfl, ?_⟩
          obtain ⟨-, -, hrow⟩ := hr.ledger.billed hst
          obtain ⟨rfl, cur, patch, -, hv, hps, hpu⟩ := hrow r rfl
          refine ⟨patch.apply cur, ?_, hown rfl _ hv, by simp [IdemPatch.apply, hps],
            by simp [IdemPatch.apply, hpu]⟩
          rw [exec_commit hx]
          exact TxTable.read_of_own_some hv
  | spawn p call =>
      rw [track_spawn] at hs
      split at hs
      · cases hs
        cases call <;> cases hend
      · exact hkept ⟨s, hs, hend, hleft⟩
  | done p r =>
      rw [track_done] at hs
      split at hs
      · cases hs
      · exact hkept ⟨s, hs, hend, hleft⟩
  | crash p =>
      rw [track_crash] at hs
      split at hs
      · cases hs
      · exact hkept ⟨s, hs, hend, hleft⟩
  | tick d => exact hkept ⟨s, track_tick q d ▸ hs, hend, hleft⟩

theorem backed_nil : Backed k [] w₀ where
  looked q row wrote hs := by rcases hs with hs | hs <;> cases hs
  completed q s row hs := by cases hs

end run

/-- The final marker of request `k` has its complete, unexpired row, of the
tenant of the job in hand. -/
def FinalBacked (k : Uuid) (past : List SysTrans) (t : SysTrans) : Prop :=
  ∀ p r a, t.ev = .act p (.xaddResult r) a → r.final = true → r.requestId = k →
    ∃ i row, (track p past).bind Track.ids = some i ∧ i.rid = k ∧
      t.pre.idem.rows k = some row ∧ row.tenantId = i.tenant ∧ t.pre.now < row.expiresAt ∧
      row.status = .complete ∧ row.responseUri.isSome = true

/-- **Commit before final**, in every run in which `complete` finds the row
it must, and nobody takes the row away, or lets it expire, before the
marker. -/
theorem final_backed {S : Settings} {w₀ : World} {ts : List SysTrans}
    {c : Config World Eff Ans Outcome} {k : Uuid} (h₀ : w₀.Fresh) (h : Trace (system S) w₀ ts c)
    (hc : Always (fun past t => marksInOrder k past t = true) ts) :
    Always (FinalBacked k) ts := by
  refine ((h.run h₀).induct (I := fun ts w =>
    Always (fun past t => marksInOrder k past t = true) ts →
      Backed k ts w ∧ Always (FinalBacked k) ts) (fun _ => ⟨backed_nil, always_nil⟩) ?_ hc).2
  intro ts w ev w' hr hn ih hc
  obtain ⟨hc, hlast⟩ := always_snoc.1 hc
  obtain ⟨hb, hfin⟩ := ih hc
  refine ⟨hb.step hr hn hlast, always_snoc.2 ⟨hfin, ?_⟩⟩
  rintro p r a rfl hr' rfl
  obtain ⟨s, o, hs, hx, -, -, hfinal⟩ := hn.act
  obtain ⟨hleft, row, hend⟩ := hfinal hr'
  obtain ⟨row₀, rfl, row', hrow, ht, hst, hu⟩ := hb.completed p s row hs hend hleft
  obtain ⟨i, hi, hrid, hten⟩ := (hr.sound p s hs).completed _ _ hend
  refine ⟨i, row', by simp [hs, hi], hrid, hrow, ht.trans (hten row₀ rfl), ?_, hst, hu⟩
  simp only [marksInOrder, Bool.and_eq_true] at hlast
  simpa [finalInTime, hr', hrow] using hlast.2

/-- The final marker of request `k` is added to its stream. -/
def marksFinal (k : Uuid) (t : SysTrans) : Bool :=
  match t.ev with
  | .act _ (.xaddResult r) (.ok _) => r.final && r.requestId = k
  | _ => false

/-- One job, from its `POST` to the acknowledgement. -/
theorem final_backed_one : ∃ ts c, Trace (system plain) blank ts c ∧
    (∃ t ∈ ts, marksFinal someKey t = true) ∧ Always (FinalBacked someKey) ts := by
  obtain ⟨ts, c, h, hm, hc⟩ := Machine.exists_trace (system plain) blank
    (onePost 0 ++ pickUp 1 ++ produceOne 1 ++ commitOne 1 ++ finishOne 1)
    (fun ts _ => (∃ t ∈ ts, marksFinal someKey t = true) ∧
      Always (fun past t => marksInOrder someKey past t = true) ts) (by decide +kernel)
  exact ⟨ts, c, h, hm, final_backed fresh_blank h hc⟩

/-- The gateway's `XADD` adds the entry and loses the reply; the gateway
deletes the reservation; a worker runs the job up to its marker. -/
def orphaned : List Move :=
  postChecks 0 ++ steps 0 4 ++ [.act 0 (.lost (.redisError "timeout") {})] ++ steps 0 4 ++
    [.done 0] ++ pickUp 1 ++ produceOne 1 ++ steps 1 6

/-- A final marker for a request that has no row. -/
theorem final_without_row : ∃ ts c, Trace (system plain) blank ts c ∧
    ∃ t ∈ ts, marksFinal someKey t = true ∧ (t.pre.idem.rows someKey).isNone = true ∧
      (t.post.idem.rows someKey).isNone = true :=
  Machine.exists_trace _ _ orphaned (fun ts _ =>
    ∃ t ∈ ts, marksFinal someKey t = true ∧ (t.pre.idem.rows someKey).isNone = true ∧
      (t.post.idem.rows someKey).isNone = true) (by decide +kernel)

end NeuroVoice
