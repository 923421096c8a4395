import NeuroVoice.Run
import NeuroVoice.Uuid

/-!
# NeuroVoice.Enqueue

How often `POST /v1/tts/jobs` enqueues under one idempotency key.

The winner of a race inserts the reservation, and the losers are to be
answered from it.  `create_tts_job` drops the flag that tells the two apart:
a loser whose `reserve_or_get` meets the committed row submits as well
(`createTtsJob_enqueues_twice`).  As long as no lookup of `reserve_or_get`
meets it, a key is enqueued at most once (`submissions_le_one`).
-/

namespace NeuroVoice

/-- The request a job is for, as a worker reads it. -/
def TtsJobPayload.rid? (j : TtsJobPayload) : Option Uuid := j.requestId.toUuid.toOption

/-- An entry for request `rid` is added to the jobs stream. -/
def submits (rid : Uuid) (t : SysTrans) : Bool :=
  match t.ev with
  | .act _ (.xaddJob j) (.ok _) => j.rid? = some rid
  | _ => false

/-- How often request `rid` is enqueued in a run. -/
def submissions (rid : Uuid) (ts : List SysTrans) : Nat := ts.countP (submits rid)

/-- No `XADD` to the jobs stream fails. -/
def submitHolds (t : SysTrans) : Bool :=
  match t.ev with
  | .act _ (.xaddJob _) (.error _) => false
  | _ => true

/-- A lookup of `rid` by `reserve_or_get` comes at a moment when there is no
row for it to find. -/
def lookupMisses (rid : Uuid) (t : SysTrans) : Bool :=
  match t.ev with
  | .act p (.selectIdem .reserve tenant k) _ | .act p (.selectIdem .reread tenant k) _ =>
      k ≠ rid || (t.pre.lookupIdem p tenant rid).isNone
  | _ => true

section once

variable {S : Settings} {w₀ w w' : World} {ts : List SysTrans} {rid : Uuid}

theorem rid?_of_requestId {j : TtsJobPayload} {k : Uuid} (h : j.requestId = .str (uuidStr k)) :
    j.rid? = some k := by
  simp [TtsJobPayload.rid?, h, Json.toUuid, Except.toOption]

/-- What holds of a key in a run: while it has not been enqueued at most one
process has reserved it, and once it is reserved its row stays. -/
structure Exclusive (rid : Uuid) (ts : List SysTrans) (w : World) : Prop where
  once : submissions rid ts = 0 ∨ submissions rid ts = 1 ∧ (w.idem.rows rid).isSome = true ∧
    ∀ p t, stage p ts ≠ .reserved t rid
  reserved : ∀ p t, stage p ts = .reserved t rid → (w.idem.rows rid).isSome = true ∧
    ∀ q u, stage q ts = .reserved u rid → q = p
  notFound : ∀ p t, stage p ts ≠ .found t rid
  notUndone : ∀ p t k, stage p ts ≠ .refused t k ∧ stage p ts ≠ .deleting t k

/-- A reservation is never deleted. -/
theorem Exclusive.kept (h : Exclusive rid ts w) (hr : Run S w₀ ts w) {ev : SysEvent}
    (hn : Next S ts w ev w') (hs : (w.idem.rows rid).isSome = true) :
    (w'.idem.rows rid).isSome = true := by
  by_cases hev : ∃ p e a, ev = .act p e a
  · obtain ⟨p, e, a, rfl⟩ := hev
    rcases hn.turn.idem_rows rid with hrow | ⟨-, -, -, v, hv, hrow⟩
    · rwa [hrow]
    · rw [hrow]
      exact ((hr.ledger.owned p).idem rid v hv).isSome fun t => (h.notUndone p t rid).2
  · rw [(hn.quiet fun p e a he => hev ⟨p, e, a, he⟩).1]
    exact hs

theorem submissions_snoc (t : SysTrans) :
    submissions rid (ts ++ [t]) = submissions rid ts + if submits rid t then 1 else 0 := by
  simp [submissions, List.countP_append, List.countP_singleton]

/-- Anything but a submission, a reservation and a lookup that finds
something. -/
theorem Exclusive.still (h : Exclusive rid ts w) (hr : Run S w₀ ts w) {ev : SysEvent}
    (hn : Next S ts w ev w') (hsub : submits rid ⟨w, ev, w'⟩ = false)
    (hstage : ∀ p, stage p (ts ++ [⟨w, ev, w'⟩]) = stage p ts ∨
      (∀ t, stage p (ts ++ [⟨w, ev, w'⟩]) ≠ .reserved t rid ∧
        stage p (ts ++ [⟨w, ev, w'⟩]) ≠ .found t rid) ∧
      ∀ t k, stage p (ts ++ [⟨w, ev, w'⟩]) ≠ .refused t k ∧
        stage p (ts ++ [⟨w, ev, w'⟩]) ≠ .deleting t k) :
    Exclusive rid (ts ++ [⟨w, ev, w'⟩]) w' := by
  have hres : ∀ p t, stage p (ts ++ [⟨w, ev, w'⟩]) = .reserved t rid →
      stage p ts = .reserved t rid := by
    intro p t hp
    rcases hstage p with hs | ⟨hs, -⟩
    · rwa [← hs]
    · exact absurd hp (hs t).1
  refine ⟨?_, fun p t hp => ?_, fun p t hp => ?_, fun p t k => ?_⟩
  · rw [submissions_snoc, hsub]
    refine h.once.imp id fun ⟨h₁, h₂, h₃⟩ => ⟨h₁, h.kept hr hn h₂, fun p t hp => ?_⟩
    exact h₃ p t (hres p t hp)
  · obtain ⟨h₁, h₂⟩ := h.reserved p t (hres p t hp)
    exact ⟨h.kept hr hn h₁, fun q u hq => h₂ q u (hres q u hq)⟩
  · rcases hstage p with hs | ⟨hs, -⟩
    · exact h.notFound p t (hs ▸ hp)
    · exact (hs t).2 hp
  · rcases hstage p with hs | ⟨-, hs⟩
    · rw [hs]
      exact h.notUndone p t k
    · exact hs t k

/-- Nobody is marked after a step of `p` that leaves `p` unmarked. -/
theorem Exclusive.unmarked (h : Exclusive rid ts w) {t : SysTrans} {p : Nat} {s : Stage}
    (hother : ∀ q, q ≠ p → stage q (ts ++ [t]) = stage q ts) (hst : stage p (ts ++ [t]) = s)
    (hfound : ∀ u, s ≠ .found u rid) (hundone : ∀ u k, s ≠ .refused u k ∧ s ≠ .deleting u k) :
    (∀ q u, stage q (ts ++ [t]) ≠ .found u rid) ∧
      ∀ q u k, stage q (ts ++ [t]) ≠ .refused u k ∧ stage q (ts ++ [t]) ≠ .deleting u k := by
  constructor
  · intro q u
    by_cases hqp : q = p
    · rw [hqp, hst]
      exact hfound u
    · rw [hother q hqp]
      exact h.notFound q u
  · intro q u k
    by_cases hqp : q = p
    · rw [hqp, hst]
      exact hundone u k
    · rw [hother q hqp]
      exact h.notUndone q u k

/-- A reservation of the key is committed: there was none, so it was never
enqueued. -/
theorem Exclusive.reserve (h : Exclusive rid ts w) (hr : Run S w₀ ts w) {p : Nat} {t : Uuid}
    {a : Ans .commit} (hst : stage p ts = .inserted t rid)
    (hst' : stage p (ts ++ [⟨w, .act p .commit a, w'⟩]) = .reserved t rid)
    (hrows : (w'.idem.rows rid).isSome = true) :
    Exclusive rid (ts ++ [⟨w, .act p .commit a, w'⟩]) w' := by
  have hnone := (hr.ledger.inserted hst).1
  have hzero : submissions rid ts = 0 := by
    rcases h.once with h₀ | ⟨-, h₁, -⟩
    · exact h₀
    · simp [hnone] at h₁
  have hfree : ∀ q u, stage q ts ≠ .reserved u rid := by
    intro q u hq
    simpa [hnone] using (h.reserved q u hq).1
  have hother : ∀ q, q ≠ p → stage q (ts ++ [⟨w, .act p .commit a, w'⟩]) = stage q ts :=
    fun q hq => stage_other hq
  have honly : ∀ q u, stage q (ts ++ [⟨w, .act p .commit a, w'⟩]) = .reserved u rid → q = p := by
    intro q u hq
    by_contra hne
    exact hfree q u (hother q hne ▸ hq)
  obtain ⟨hfound, hundone⟩ := h.unmarked hother hst' nofun fun _ _ => ⟨nofun, nofun⟩
  refine ⟨.inl (by rw [submissions_snoc, hzero]; rfl), fun q u hq => ⟨hrows, fun q' u' hq' => ?_⟩,
    hfound, hundone⟩
  rw [honly q u hq, honly q' u' hq']

/-- The process that reserved the key submits: from now on nobody has it
reserved. -/
theorem Exclusive.submit (h : Exclusive rid ts w) (hr : Run S w₀ ts w) {p : Nat} {t : Uuid}
    {j : TtsJobPayload} {b : Ret (.xaddJob j)} (hn : Next S ts w (.act p (.xaddJob j) (.ok b)) w')
    (hst : stage p ts = .reserved t rid)
    (hst' : stage p (ts ++ [⟨w, .act p (.xaddJob j) (.ok b), w'⟩]) = .over) :
    Exclusive rid (ts ++ [⟨w, .act p (.xaddJob j) (.ok b), w'⟩]) w' := by
  obtain ⟨hrow, honly⟩ := h.reserved p t hst
  have hzero : submissions rid ts = 0 := by
    rcases h.once with h₀ | ⟨-, -, h₁⟩
    · exact h₀
    · exact absurd hst (h₁ p t)
  have hother : ∀ q, q ≠ p →
      stage q (ts ++ [⟨w, .act p (.xaddJob j) (.ok b), w'⟩]) = stage q ts :=
    fun q hq => stage_other hq
  have hfree : ∀ q u,
      stage q (ts ++ [⟨w, .act p (.xaddJob j) (.ok b), w'⟩]) ≠ .reserved u rid := by
    intro q u hq
    by_cases hqp : q = p
    · rw [hqp, hst'] at hq
      cases hq
    · exact hqp (honly q u (hother q hqp ▸ hq))
  have hle : submissions rid (ts ++ [⟨w, .act p (.xaddJob j) (.ok b), w'⟩]) = 0 ∨
      submissions rid (ts ++ [⟨w, .act p (.xaddJob j) (.ok b), w'⟩]) = 1 := by
    rw [submissions_snoc, hzero]
    split
    · exact .inr rfl
    · exact .inl rfl
  obtain ⟨hfound, hundone⟩ := h.unmarked hother hst' nofun fun _ _ => ⟨nofun, nofun⟩
  exact ⟨hle.imp_right fun h₁ => ⟨h₁, h.kept hr hn hrow, hfree⟩,
    fun q u hq => absurd hq (hfree q u), hfound, hundone⟩

/-- **The step lemma**: a key stays enqueued at most once. -/
theorem Exclusive.step (h : Exclusive rid ts w) (hr : Run S w₀ ts w) {ev : SysEvent}
    (hn : Next S ts w ev w') (hx : submitHolds ⟨w, ev, w'⟩ = true)
    (hl : lookupMisses rid ⟨w, ev, w'⟩ = true) : Exclusive rid (ts ++ [⟨w, ev, w'⟩]) w' := by
  by_cases hev : ∃ p e a, ev = .act p e a
  swap
  · have hev' : ∀ p e a, ev ≠ .act p e a := fun p e a he => hev ⟨p, e, a, he⟩
    have hsub : submits rid ⟨w, ev, w'⟩ = false := by
      cases ev <;> first | rfl | exact absurd rfl (hev' _ _ _)
    refine h.still hr hn hsub fun p => ((hn.quiet hev').2.2 p).imp_right fun hs => ?_
    rw [hs]
    exact ⟨fun _ => ⟨nofun, nofun⟩, fun _ _ => ⟨nofun, nofun⟩⟩
  obtain ⟨p, e, a, rfl⟩ := hev
  have hT := hn.turn
  -- the stage stays, or moves to one that none of the clauses speak about
  have hstill (hsub : submits rid ⟨w, .act p e a, w'⟩ = false)
      (hst : stage p (ts ++ [⟨w, .act p e a, w'⟩]) = stage p ts ∨
        (∀ t, stage p (ts ++ [⟨w, .act p e a, w'⟩]) ≠ .reserved t rid ∧
          stage p (ts ++ [⟨w, .act p e a, w'⟩]) ≠ .found t rid) ∧
        ∀ t k, stage p (ts ++ [⟨w, .act p e a, w'⟩]) ≠ .refused t k ∧
          stage p (ts ++ [⟨w, .act p e a, w'⟩]) ≠ .deleting t k) :
      Exclusive rid (ts ++ [⟨w, .act p e a, w'⟩]) w' := by
    refine h.still hr hn hsub fun q => ?_
    by_cases hq : q = p
    · exact hq ▸ hst
    · exact .inl (stage_other hq)
  generalize hst : stage p ts = st at hT
  generalize hst' : stage p (ts ++ [⟨w, .act p e a, w'⟩]) = st' at hT
  rw [hst, hst'] at hstill
  have hquiet (hsub : submits rid ⟨w, .act p e a, w'⟩ = false)
      (h : st' = .none ∨ ∀ t k, st' ≠ .reserved t k ∧ st' ≠ .found t k ∧ st' ≠ .refused t k ∧
        st' ≠ .deleting t k) : Exclusive rid (ts ++ [⟨w, .act p e a, w'⟩]) w' := by
    refine hstill hsub (.inr ?_)
    rcases h with rfl | h
    · exact ⟨fun _ => ⟨nofun, nofun⟩, fun _ _ => ⟨nofun, nofun⟩⟩
    · exact ⟨fun t => ⟨(h t rid).1, (h t rid).2.1⟩, fun t k => ⟨(h t k).2.2.1, (h t k).2.2.2⟩⟩
  cases hT with
  | calm he _ => exact hstill (by cases e <;> first | rfl | cases he) (.inl rfl)
  | dropped he _ =>
      have hsub : submits rid ⟨w, .act p e a, w'⟩ = false := by rcases he with rfl | rfl <;> rfl
      rcases Stage.dropped_eq st with hd | hd
      · exact hstill hsub (.inl hd)
      · exact hquiet hsub (.inl hd)
  | aborted _ _ => exact hquiet (by cases e <;> rfl) (.inl rfl)
  | escapes _ _ => exact hquiet (by cases e <;> rfl) (.inl rfl)
  | unheard _ _ => exact hquiet rfl (.inl rfl)
  | committed hc ht =>
      rcases Stage.committed_eq st with hd | hd | ⟨t, k, rfl, hd⟩ | ⟨t, k, rfl, hd⟩
      · exact hstill rfl (.inl hd)
      · exact hquiet rfl (.inl hd)
      · by_cases hk : k = rid
        · subst hk
          refine h.reserve hr hst hst' ?_
          obtain ⟨-, apiKey, hash, now, ttl, hv⟩ := hr.ledger.inserted hst
          rw [show w'.idem = w.idem.commit p from congrArg Prod.fst ht, TxTable.rows_commit,
            TxTable.read_of_own_some hv]
          rfl
        · refine hstill rfl (.inr ⟨fun u => ⟨?_, nofun⟩, fun _ _ => ⟨nofun, nofun⟩⟩)
          rintro ⟨⟩
          exact hk rfl
      · exact absurd hst (h.notUndone p t k).2
  | @found site t k row hs hrow _ =>
      have hk : k ≠ rid := by
        rintro rfl
        rcases hs with rfl | rfl <;> simp [lookupMisses, hrow] at hl
      refine hstill rfl (.inr ⟨fun u => ⟨nofun, ?_⟩, fun _ _ => ⟨nofun, nofun⟩⟩)
      rintro ⟨⟩
      exact hk rfl
  | deletes _ _ _ _ => exact absurd hst (h.notUndone p _ _).1
  | deletesNone _ => exact absurd hst (h.notUndone p _ _).1
  | @submits st t k j hs hj _ _ =>
      by_cases hk : k = rid
      · subst hk
        refine h.submit (t := t) hr hn ?_ hst'
        rcases hs with rfl | rfl
        · exact hst
        · exact absurd hst (h.notFound p t)
      · refine hquiet ?_ (.inr fun _ _ => ⟨nofun, nofun, nofun, nofun⟩)
        simp [submits, rid?_of_requestId hj, hk]
  | refused _ _ _ _ => cases hx
  | _ => exact hquiet rfl (.inr fun _ _ => ⟨nofun, nofun, nofun, nofun⟩)

theorem exclusive_nil : Exclusive rid [] w₀ where
  once := .inl rfl
  reserved _ _ h := by cases h
  notFound _ _ h := by cases h
  notUndone _ _ _ := ⟨nofun, nofun⟩

end once

/-- **At most one entry for a key**, in every run in which no submission
fails and no lookup of `reserve_or_get` comes when the row of the key is
there. -/
theorem submissions_le_one {S : Settings} {w₀ : World} {ts : List SysTrans}
    {c : Config World Eff Ans Outcome} {key : Uuid} (h₀ : w₀.Fresh)
    (h : Trace (system S) w₀ ts c) (hx : ∀ t ∈ ts, submitHolds t = true)
    (hl : ∀ t ∈ ts, lookupMisses key t = true) : submissions key ts ≤ 1 := by
  have hinv : (∀ t ∈ ts, submitHolds t = true ∧ lookupMisses key t = true) →
      Exclusive key ts c.world := by
    refine (h.run h₀).induct (I := fun ts w =>
      (∀ t ∈ ts, submitHolds t = true ∧ lookupMisses key t = true) → Exclusive key ts w)
      (fun _ => exclusive_nil) ?_
    intro ts w ev w' hr hn ih ht
    have hlast := ht ⟨w, ev, w'⟩ (by simp)
    exact (ih fun t hm => ht t (List.mem_append_left _ hm)).step hr hn hlast.1 hlast.2
  rcases (hinv fun t hm => ⟨hx t hm, hl t hm⟩).once with h | ⟨h, -⟩ <;> omega

/-- A `POST /v1/tts/jobs` is started. -/
def startsPost (t : SysTrans) : Bool :=
  match t.ev with
  | .spawn _ (.createTtsJob _ _ _) => true
  | _ => false

/-- Three `POST`s of one key: two pass the upfront lookup, one of them is
killed before it reserves, the other one submits; the last one is answered from
the row that its upfront lookup finds. -/
def retriedPost : List Move :=
  postChecks 0 ++ postChecks 1 ++ [.crash 1] ++ steps 0 6 ++ [.done 0] ++
    [.spawn 2 somePost, step 2 { voice := some someVoice }, step 2 { flag := true }] ++
    steps 2 2 ++ [.done 2]

/-- Three calls under one key enqueue it once: the law applied to a run with
two of them past the upfront lookup, and a replay. -/
theorem submissions_le_one_retried : ∃ ts c, Trace (system plain) blank ts c ∧
    ts.countP startsPost = 3 ∧ submissions someKey ts = 1 ∧ submissions someKey ts ≤ 1 := by
  obtain ⟨ts, c, h, hx, hl, hposts, hone⟩ := Machine.exists_trace (system plain) blank
    retriedPost (fun ts _ => (∀ t ∈ ts, submitHolds t = true) ∧
      (∀ t ∈ ts, lookupMisses someKey t = true) ∧ ts.countP startsPost = 3 ∧
      submissions someKey ts = 1)
    (by decide +kernel)
  exact ⟨ts, c, h, hposts, hone, submissions_le_one fresh_blank h hx hl⟩

/-- Every call that is started is a `POST /v1/tts/jobs` of one tenant, with
one key and one body. -/
def onlyPosts (S : Settings) (tenant key : Uuid) (hash : PyStr) (t : SysTrans) : Bool :=
  match t.ev with
  | .spawn _ (.createTtsJob ctx h body) =>
      ctx.tenantId = tenant && (parseIdempotencyKey h).toOption = some key &&
        S.hashJobBody body = hash
  | .spawn _ _ => false
  | _ => true

/-- The row of the key, if there is one, has not expired. -/
def unexpired (key : Uuid) (t : SysTrans) : Bool :=
  (t.post.idem.rows key).all fun row => t.post.now < row.expiresAt

/-- Two `POST`s pass their upfront lookup; the first one reserves, commits
and submits before the second one looks again. -/
def lostRace : List Move :=
  postChecks 0 ++ postChecks 1 ++ steps 0 5 ++ steps 1 4

/-- The loser of the race is not answered from the winner's row: it
enqueues the job again. -/
theorem createTtsJob_enqueues_twice : ∃ ts c, Trace (system plain) blank ts c ∧
    (∀ t ∈ ts, onlyPosts plain 2 someKey (py "hi") t = true) ∧
    (∀ t ∈ ts, submitHolds t = true) ∧ (∀ t ∈ ts, unexpired someKey t = true) ∧
    submissions someKey ts = 2 :=
  Machine.exists_trace _ _ lostRace (fun ts _ =>
    (∀ t ∈ ts, onlyPosts plain 2 someKey (py "hi") t = true) ∧
    (∀ t ∈ ts, submitHolds t = true) ∧ (∀ t ∈ ts, unexpired someKey t = true) ∧
    submissions someKey ts = 2) (by decide +kernel)

end NeuroVoice
