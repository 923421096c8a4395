import NeuroVoice.Repos
import NeuroVoice.Lib.Timeline

/-!
# NeuroVoice.Reserve

`reserve_or_get` among other sessions.

Its lookups see the unexpired rows of the tenant; its inserts meet every row
under the key.  A row that only the inserts meet (expired and not purged, or
another tenant's) is found by neither lookup and refuses both inserts, and the
second refusal is not caught: `reserve_total`.
-/

namespace NeuroVoice

/-! ## a call and its neighbours -/

/-- An outcome, the effects with the states they were performed in, and the
state at the end. -/
abbrev AmongRun (α : Type) : Type := Except Exn α × List (Eff × World) × World

/-- An await of process `p` that is answered. -/
def answer (p : Nat) (e : Eff) (w : World) : Option (Ans e × World) := exec p e (.goes {}) w

/-- Run `x` as process `p` among others, every await answered. -/
def Py.among {α : Type} (p : Nat) (others : Nat → Eff → World → World) (n : Nat) (x : Py α)
    (w : World) : Option (AmongRun α) :=
  x.run.among (answer p) others n w

/-- A statement that needs the lock of the row waits until the others have
released it. -/
def Yields (p : Nat) (rid : Uuid) (others : Nat → Eff → World → World) : Prop :=
  ∀ n tenant apiKey hash ttl w,
    (others n (.insertIdem tenant rid apiKey hash ttl) w).idem.free p rid = true

/-! ## the law -/

section law

variable (p : Nat) (tenant rid apiKey : Uuid) (hash : PyStr)

/-- What the call should come to, by the state `v` of its last statement: a
fresh row where there is no unexpired one, and else the replay of that row or
the conflict with it. -/
def Due (v : World) (outcome : Except Exn (JobIdempotency × Bool)) (end' : World) : Prop :=
  match v.lookupIdem p tenant rid with
  | none => ∃ row, outcome = .ok (row, true) ∧ row.tenantId = tenant ∧ row.requestHash = hash ∧
      row.status = .processing ∧ v.now < row.expiresAt ∧ end'.idem.read p rid = some row
  | some row =>
      outcome = if row.requestHash = hash then .ok (row, false)
        else .error (.idempotencyConflict rid row)

/-- The call is answered as it should be. -/
def Totals (run : AmongRun (JobIdempotency × Bool)) : Prop :=
  ∃ e v, run.2.1.getLast? = some (e, v) ∧ Due p tenant rid hash v run.1 run.2.2

/-- The statement is a lookup and the state has an unexpired row of the
tenant under the key, or it is an insert and the state takes a new row. -/
def Succeeds (s : Eff × World) : Bool :=
  match s.1 with
  | .selectIdem _ _ _ => (s.2.lookupIdem p tenant rid).isSome
  | .insertIdem _ _ _ _ _ =>
      (s.2.idem.read p rid).isNone && s.2.tenants tenant && s.2.apiKeys apiKey
  | _ => false

end law

/-! ## the program, statement by statement -/

section statements

variable {p n : Nat} {others : Nat → Eff → World → World} {w : World} {α β : Type}

/-- Put the first statement of a run in front. -/
def AmongRun.after (s : Eff × World) (r : AmongRun α) : AmongRun α := (r.1, s :: r.2.1, r.2.2)

theorem among_await_ok {e : Eff} {f : Ret e → Py α} {b : Ret e} {w' : World}
    (h : answer p e (others n e w) = some (.ok b, w')) :
    (await e >>= f).among p others n w =
      ((f b).among p others (n + 1) w').map (AmongRun.after (e, others n e w)) :=
  Prog.among_eff h

theorem among_await_error {e : Eff} {f : Ret e → Py α} {x : Exn} {w' : World}
    (h : answer p e (others n e w) = some (.error x, w')) :
    (await e >>= f).among p others n w = some (.error x, [(e, others n e w)], w') :=
  Prog.among_eff h

theorem among_outcomeOf {e : Eff} {f : Except Exn (Ret e) → Py α} {r : Except Exn (Ret e)}
    {w' : World} (h : answer p e (others n e w) = some (r, w')) :
    (outcomeOf (await e) >>= f).among p others n w =
      ((f r).among p others (n + 1) w').map (AmongRun.after (e, others n e w)) := by
  refine (Prog.among_eff h).trans ?_
  cases r <;> rfl

theorem among_replay (rid : Uuid) (hash : PyStr) (row : JobIdempotency) :
    (IdempotencyRepo.replay rid hash row).among p others n w =
      some (if row.requestHash = hash then .ok (row, false)
        else .error (.idempotencyConflict rid row), [], w) := by
  unfold IdempotencyRepo.replay
  by_cases h : row.requestHash = hash
  · simp only [h, ne_eq, not_true_eq_false, if_false, if_true]
    rfl
  · simp only [h, ne_eq, not_false_eq_true, if_true, if_false]
    rfl

/-- A lookup. -/
theorem answer_get (site : Site) (tenant rid : Uuid) (v : World) :
    answer p (.selectIdem site tenant rid) v = some (.ok (v.lookupIdem p tenant rid), v) := rfl

/-- An insert that gets the lock: taken or refused. -/
theorem answer_insert {tenant rid apiKey : Uuid} {hash : PyStr} {ttl : Nat} {v : World}
    (hfree : v.idem.free p rid = true) :
    (Succeeds p tenant rid apiKey (.insertIdem tenant rid apiKey hash ttl, v) = true ∧
      let row : JobIdempotency :=
        { tenantId := tenant, apiKeyId := apiKey, requestHash := hash, status := .processing,
          createdAt := v.now, expiresAt := v.now + ttl }
      answer p (.insertIdem tenant rid apiKey hash ttl) v =
        some (.ok row, { v with idem := v.idem.put p rid (some row) })) ∨
    (Succeeds p tenant rid apiKey (.insertIdem tenant rid apiKey hash ttl, v) = false ∧
      answer p (.insertIdem tenant rid apiKey hash ttl) v =
        some (.error (.foreign .integrityError), v.rollback p)) := by
  by_cases hrefused : (v.idem.read p rid).isSome ∨ ¬v.tenants tenant ∨ ¬v.apiKeys apiKey
  · refine .inr ⟨?_, ?_⟩
    · rw [← Bool.not_eq_true]
      simp only [Succeeds, Bool.and_eq_true, Option.isNone_iff_eq_none]
      rintro ⟨⟨hnone, ht⟩, hk⟩
      simp [hnone, ht, hk] at hrefused
    · simp only [answer, exec, perform, hfree, if_true, if_pos hrefused]
  · refine .inl ⟨?_, ?_⟩
    · simpa [Succeeds, not_or, and_assoc] using hrefused
    · simp only [answer, exec, perform, hfree, if_true, if_neg hrefused]

end statements

/-! ## the law holds exactly where a statement succeeds -/

section reserve

variable {p : Nat} {tenant rid apiKey : Uuid} {hash : PyStr} {ttl : Option Nat}
  {others : Nat → Eff → World → World} {n : Nat} {w : World}

/-- What is proved of a run that has begun. -/
structure Right (p : Nat) (tenant rid apiKey : Uuid) (hash : PyStr)
    (run : AmongRun (JobIdempotency × Bool)) : Prop where
  begun : run.2.1 ≠ []
  iff : Totals p tenant rid hash run ↔ ∃ s ∈ run.2.1, Succeeds p tenant rid apiKey s = true

/-- A statement that does not succeed leaves it to the rest. -/
theorem Right.after {run : AmongRun (JobIdempotency × Bool)} {s : Eff × World}
    (h : Right p tenant rid apiKey hash run) (hs : Succeeds p tenant rid apiKey s = false) :
    Right p tenant rid apiKey hash (run.after s) := by
  refine ⟨List.cons_ne_nil _ _, ?_⟩
  have hlast : (run.after s).2.1.getLast? = run.2.1.getLast? := by
    obtain ⟨t, ts, hsteps⟩ := List.exists_cons_of_ne_nil h.begun
    change (s :: run.2.1).getLast? = _
    rw [hsteps, List.getLast?_cons_cons]
  have htotals : Totals p tenant rid hash (run.after s) ↔ Totals p tenant rid hash run := by
    unfold Totals
    rw [hlast]
    rfl
  rw [htotals, h.iff]
  change _ ↔ ∃ x ∈ s :: run.2.1, _
  simp [hs]

theorem exists_after {run : Option (AmongRun (JobIdempotency × Bool))} {s : Eff × World}
    (h : ∃ r, run = some r ∧ Right p tenant rid apiKey hash r)
    (hs : Succeeds p tenant rid apiKey s = false) :
    ∃ r, run.map (AmongRun.after s) = some r ∧ Right p tenant rid apiKey hash r := by
  obtain ⟨r, rfl, hright⟩ := h
  exact ⟨_, rfl, hright.after hs⟩

/-- A lookup that finds a row is the last statement. -/
theorem right_found {row : JobIdempotency} {v : World} {site : Site}
    (h : v.lookupIdem p tenant rid = some row) (end' : World) :
    Right p tenant rid apiKey hash
      (AmongRun.after (.selectIdem site tenant rid, v)
        (if row.requestHash = hash then .ok (row, false)
          else .error (.idempotencyConflict rid row), [], end')) := by
  refine ⟨List.cons_ne_nil _ _, iff_of_true ⟨_, v, rfl, ?_⟩ ⟨_, List.mem_singleton_self _, ?_⟩⟩
  · unfold Due
    rw [h]
    rfl
  · simp [Succeeds, h]

theorem ttlOr_pos (ttl : Option Nat) : 0 < IdempotencyRepo.ttlOr ttl := by
  cases ttl with
  | none => exact Nat.succ_pos _
  | some n => cases n <;> exact Nat.succ_pos _

/-- An insert that succeeds is the last statement. -/
theorem right_inserted {v : World} 
    (h : Succeeds p tenant rid apiKey
      (.insertIdem tenant rid apiKey hash (IdempotencyRepo.ttlOr ttl), v) = true) :
    let row : JobIdempotency :=
      { tenantId := tenant, apiKeyId := apiKey, requestHash := hash, status := .processing,
        createdAt := v.now, expiresAt := v.now + IdempotencyRepo.ttlOr ttl }
    Right p tenant rid apiKey hash
      (.ok (row, true), [(.insertIdem tenant rid apiKey hash (IdempotencyRepo.ttlOr ttl), v)],
        { v with idem := v.idem.put p rid (some row) }) := by
  refine ⟨List.cons_ne_nil _ _, iff_of_true ⟨_, v, rfl, ?_⟩ ⟨_, List.mem_singleton_self _, h⟩⟩
  have hnone : v.lookupIdem p tenant rid = none := by
    simp only [Succeeds, Bool.and_eq_true, Option.isNone_iff_eq_none] at h
    simp [World.lookupIdem, h.1.1]
  unfold Due
  rw [hnone]
  exact ⟨_, rfl, rfl, rfl, rfl, Nat.lt_add_of_pos_right (ttlOr_pos ttl), by simp⟩

theorem not_settled_escaped {v end' : World} :
    ¬Due p tenant rid hash v (.error (.foreign .integrityError)) end' := by
  unfold Due
  intro h
  split at h
  · obtain ⟨row, hrow, -⟩ := h
    cases hrow
  · split at h <;> cases h

/-- An insert that is refused, with nothing to catch it. -/
theorem right_escaped {v end' : World} {e : Eff}
    (h : Succeeds p tenant rid apiKey (e, v) = false) :
    Right p tenant rid apiKey hash (.error (.foreign .integrityError), [(e, v)], end') := by
  refine ⟨List.cons_ne_nil _ _, iff_of_false ?_ (by simp [h])⟩
  rintro ⟨e', v', hlast, hsettled⟩
  obtain ⟨rfl, rfl⟩ := Prod.mk.inj (Option.some.inj hlast)
  exact not_settled_escaped hsettled

/-- The insert after the second lookup. -/
theorem right_reserve (hyields : Yields p rid others) (n : Nat) (w : World) :
    ∃ run, (do
        let row ← IdempotencyRepo.reserve tenant rid apiKey hash ttl
        pure (row, true) : Py _).among p others n w = some run ∧
      Right p tenant rid apiKey hash run := by
  obtain ⟨hs, hrun⟩ | ⟨hs, hrun⟩ := answer_insert
    (hyields n tenant apiKey hash (IdempotencyRepo.ttlOr ttl) w)
  · exact ⟨_, among_await_ok hrun, right_inserted hs⟩
  · exact ⟨_, among_await_error hrun, right_escaped hs⟩

/-- A lookup, and what follows it when it finds nothing. -/
theorem right_get {f : Option JobIdempotency → Py (JobIdempotency × Bool)} (site : Site)
    (n : Nat) (w : World) (hf : ∀ row, f (some row) = IdempotencyRepo.replay rid hash row)
    (hnone : ∀ v, ∃ run, (f none).among p others (n + 1) v = some run ∧
      Right p tenant rid apiKey hash run) :
    ∃ run, (IdempotencyRepo.get site tenant rid >>= f).among p others n w = some run ∧
      Right p tenant rid apiKey hash run := by
  have hget := answer_get (p := p) site tenant rid (others n (.selectIdem site tenant rid) w)
  unfold IdempotencyRepo.get
  rw [among_await_ok hget]
  cases hlookup : (others n (.selectIdem site tenant rid) w).lookupIdem p tenant rid with
  | some row =>
      rw [hf row, among_replay]
      exact ⟨_, rfl, right_found hlookup _⟩
  | none =>
      exact exists_after (hnone _) (by simp [Succeeds, hlookup])

/-- The handler. -/
theorem right_reread (hyields : Yields p rid others) (n : Nat) (w : World) :
    ∃ run, (IdempotencyRepo.reread tenant rid apiKey hash ttl).among p others n w = some run ∧
      Right p tenant rid apiKey hash run := by
  have hback : answer p .rollback (others n .rollback w) =
      some (.ok (), (others n .rollback w).rollback p) := rfl
  unfold IdempotencyRepo.reread
  rw [among_await_ok hback]
  refine exists_after (right_get .reread (n + 1) _ (fun _ => rfl) fun v => ?_) rfl
  exact right_reserve hyields (n + 2) v

/-- **A guarded reservation among other sessions** comes to what the state of
its last statement asks for exactly when one of its lookups finds an unexpired
row or one of its inserts finds the key free. -/
theorem reserve_total (p : Nat) (tenant rid apiKey : Uuid) (hash : PyStr) (ttl : Option Nat)
    (others : Nat → Eff → World → World) (w : World) (hyields : Yields p rid others) :
    ∃ run, (IdempotencyRepo.reserveOrGet tenant rid apiKey hash ttl).among p others 0 w =
        some run ∧
      (Totals p tenant rid hash run ↔
        ∃ s ∈ run.2.1, Succeeds p tenant rid apiKey s = true) := by
  suffices h : ∃ run, (IdempotencyRepo.reserveOrGet tenant rid apiKey hash ttl).among p others 0 w =
      some run ∧ Right p tenant rid apiKey hash run by
    obtain ⟨run, hrun, hright⟩ := h
    exact ⟨run, hrun, hright.iff⟩
  refine right_get .reserve 0 w (fun _ => rfl) fun v => ?_
  obtain ⟨hs, hrun⟩ | ⟨hs, hrun⟩ := answer_insert
    (hyields 1 tenant apiKey hash (IdempotencyRepo.ttlOr ttl) v)
  · refine ⟨_, among_outcomeOf hrun, right_inserted hs⟩
  · obtain ⟨run, hreread, hright⟩ := right_reread hyields 2 _
    exact ⟨_, (among_outcomeOf hrun).trans (congrArg _ hreread), hright.after hs⟩

end reserve

/-- The others close their transactions at once. -/
def closing (p : Nat) (_ : Nat) (_ : Eff) (w : World) : World :=
  { w with idem := { w.idem with pending := w.idem.pending.filter fun x => x.owner = p } }

theorem yields_closing (p : Nat) (rid : Uuid) : Yields p rid (closing p) := by
  intro n tenant apiKey hash ttl w
  simp only [closing, TxTable.free, List.all_eq_true, decide_eq_true_eq]
  exact fun x hx => .inl (of_decide_eq_true (List.mem_filter.1 hx).2)

/-- A table with one row, under the key 3, that has expired. -/
def expiredWorld : World where
  now := 10
  tenants _ := true
  apiKeys _ := true
  idem := .ofRows fun k =>
    if k = 3 then some { tenantId := 1, apiKeyId := 2, requestHash := py "h", status := .complete,
                         createdAt := 0, expiresAt := 9 }
    else none
  usage := .ofRows fun _ => none
  jobs := {}
  results _ := {}
  dlq := []
  nextId := 1

/-- Beside an expired row, the reservation of another key is total exactly if one of
its steps succeeds. -/
theorem reserve_total_example :
    ∃ run, (IdempotencyRepo.reserveOrGet 1 4 2 (py "h") none).among 0 (closing 0) 0 expiredWorld =
        some run ∧
      (Totals 0 1 4 (py "h") run ↔ ∃ s ∈ run.2.1, Succeeds 0 1 4 2 s = true) :=
  reserve_total 0 1 4 2 (py "h") none (closing 0) expiredWorld (yields_closing 0 4)

/-- Under the key of the expired row the second insert is refused too, and its
error escapes. -/
theorem expired_row_escapes :
    ¬∀ (p : Nat) (tenant rid apiKey : Uuid) (hash : PyStr) (ttl : Option Nat)
      (others : Nat → Eff → World → World) (w : World), Yields p rid others →
      ∃ run, (IdempotencyRepo.reserveOrGet tenant rid apiKey hash ttl).among p others 0 w =
        some run ∧ Totals p tenant rid hash run := by
  intro h
  obtain ⟨run, hrun, e, v, -, hsettled⟩ :=
    h 0 1 3 2 (py "h") none (closing 0) expiredWorld (yields_closing 0 3)
  have houtcome : ((IdempotencyRepo.reserveOrGet 1 3 2 (py "h") none).among 0 (closing 0) 0
      expiredWorld).map Prod.fst = some (.error (.foreign .integrityError)) := rfl
  rw [hrun] at houtcome
  rw [Option.some.inj houtcome] at hsettled
  exact not_settled_escaped hsettled

end NeuroVoice
