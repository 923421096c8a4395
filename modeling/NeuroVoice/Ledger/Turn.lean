import NeuroVoice.Discipline

/-!
# NeuroVoice.Ledger.Turn

What one await can do to the two tables and to the stage of its process.

`Turn` lists the possibilities, each with everything the tables and the
discipline say about it; `turn_of_exec` shows the list complete.  Every
invariant of `NeuroVoice.Ledger` is a case analysis over `Turn`.
-/

namespace NeuroVoice

/-- The two tables. -/
def World.tables (w : World) : TxTable Uuid JobIdempotency × TxTable Uuid UsageRecord :=
  (w.idem, w.usage)

/-- The reservation `insertIdem` writes. -/
def freshRow (tenant apiKey : Uuid) (requestHash : PyStr) (now ttl : Nat) : JobIdempotency where
  tenantId := tenant
  apiKeyId := apiKey
  requestHash
  status := .processing
  createdAt := now
  expiresAt := now + ttl

/-- It is neither a submission, nor a write, nor a commit. -/
def Eff.isCalm : Eff → Bool
  | .xaddJob _ | .commit | .insertIdem _ _ _ _ _ | .updateIdem _ _ | .deleteIdem _ _
  | .insertUsage _ _ => false
  | _ => true

/-- One await of process `p`: the tables around it, its stages around it. -/
inductive Turn (p : Nat) (w w' : World) : Stage → (e : Eff) → Ans e → Stage → Prop where
  | calm {st e a} (he : e.isCalm = true) (h : w'.tables = w.tables) : Turn p w w' st e a st
  /-- `ROLLBACK`, or the session is closed. -/
  | dropped {st e a} (he : e = .rollback ∨ e = .close)
      (h : w'.tables = (w.rollback p).tables) : Turn p w w' st e a st.dropped
  /-- A statement failed, and its transaction with it. -/
  | aborted {st e x} (he : e.isSql = true) (h : w'.tables = (w.rollback p).tables) :
      Turn p w w' st e (.error x) .none
  /-- The commit went through and its reply was lost. -/
  | unheard {st x} (hc : st.committable = true) (h : w'.tables = (w.commit p).tables) :
      Turn p w w' st .commit (.error x) .none
  | committed {st} (hc : st.committable = true) (h : w'.tables = (w.commit p).tables) :
      Turn p w w' st .commit (.ok ()) st.committed
  /-- `complete` looks up its row. -/
  | completing {t rid} (h : w'.tables = w.tables) :
      Turn p w w' .none (.selectIdem .complete t rid) (.ok (w.lookupIdem p t rid))
        (.completing rid (w.lookupIdem p t rid) false)
  /-- `fail` looks up its row. -/
  | failing {t rid} (h : w'.tables = w.tables) :
      Turn p w w' (.erred rid) (.selectIdem .fail t rid) (.ok (w.lookupIdem p t rid))
        (.failing rid (w.lookupIdem p t rid) false)
  /-- `reserve_or_get` meets a row. -/
  | found {site t rid row} (hs : site = .reserve ∨ site = .reread)
      (hr : w.lookupIdem p t rid = some row) (h : w'.tables = w.tables) :
      Turn p w w' .none (.selectIdem site t rid) (.ok (some row)) (.found t rid)
  | inserted {st t rid apiKey hash ttl}
      (hst : st = .none ∨ st = .over ∨ ∃ t r, st = .refused t r)
      (hf : w.idem.free p rid = true) (hr : w.idem.read p rid = none)
      (h : w'.tables =
        (w.idem.put p rid (some (freshRow t apiKey hash w.now ttl)), w.usage)) :
      Turn p w w' st (.insertIdem t rid apiKey hash ttl)
        (.ok (freshRow t apiKey hash w.now ttl)) (.inserted t rid)
  | completes {rid row patch cur} (hp : patch.completes row = true)
      (hf : w.idem.free p rid = true) (hr : w.idem.read p rid = some cur)
      (h : w'.tables = (w.idem.put p rid (some (patch.apply cur)), w.usage)) :
      Turn p w w' (.completing rid (some row) false) (.updateIdem rid patch) (.ok ())
        (.completing rid (some row) true)
  | fails {rid row cur} (hf : w.idem.free p rid = true) (hr : w.idem.read p rid = some cur)
      (h : w'.tables =
        (w.idem.put p rid (some { cur with status := .failed }), w.usage)) :
      Turn p w w' (.failing rid (some row) false)
        (.updateIdem rid { status := some .failed }) (.ok ()) (.failing rid (some row) true)
  | deletes {t rid cur n} (hf : w.idem.free p rid = true) (hr : w.idem.read p rid = some cur)
      (ht : cur.tenantId = t) (h : w'.tables = (w.idem.put p rid none, w.usage)) :
      Turn p w w' (.refused t rid) (.deleteIdem t rid) (.ok n) (.deleting t rid)
  /-- There is no row of this tenant to delete. -/
  | deletesNone {t rid n} (h : w'.tables = w.tables) :
      Turn p w w' (.refused t rid) (.deleteIdem t rid) (.ok n) (.deleting t rid)
  | billedBefore {t rid row wrote u} (hfl : (Stage.failing rid row wrote).flushed = true)
      (hu : w.usage.read p rid = some u) (h : w'.tables = w.tables) :
      Turn p w w' (.failing rid row wrote) (.selectUsage t rid) (.ok (some u))
        (.recorded rid row wrote)
  | unbilled {t rid row wrote} (hfl : (Stage.failing rid row wrote).flushed = true)
      (h : w'.tables = w.tables) :
      Turn p w w' (.failing rid row wrote) (.selectUsage t rid) (.ok none)
        (.unbilled rid row wrote)
  | bills {rid row wrote u} (hfl : (Stage.completing rid row wrote).flushed = true)
      (hs : u.status = .ok) (hf : w.usage.free p rid = true) (hr : w.usage.read p rid = none)
      (h : w'.tables = (w.idem, w.usage.put p rid (some u))) :
      Turn p w w' (.completing rid row wrote) (.insertUsage rid u) (.ok ())
        (.billed rid row wrote)
  | records {rid row wrote u} (hs : u.status = .error) (hf : w.usage.free p rid = true)
      (hr : w.usage.read p rid = none)
      (h : w'.tables = (w.idem, w.usage.put p rid (some u))) :
      Turn p w w' (.unbilled rid row wrote) (.insertUsage rid u) (.ok ())
        (.recorded rid row wrote)
  | errs {r} (he : r.error.isSome = true) (h : w'.tables = w.tables) :
      Turn p w w' .none (.xaddResult r) (.ok ()) (.erred r.requestId)
  | escapes {rid e x} (he : e.isSql = false) (h : w'.tables = w.tables) :
      Turn p w w' (.erred rid) e (.error x) .none
  | submits {st t rid j} (hst : st = .reserved t rid ∨ st = .found t rid)
      (hj : j.requestId = .str (uuidStr rid)) (ht : j.tenantId = .str (uuidStr t))
      (h : w'.tables = w.tables) : Turn p w w' st (.xaddJob j) (.ok ()) .over
  | refused {st t rid j x} (hst : st = .reserved t rid ∨ st = .found t rid)
      (hj : j.requestId = .str (uuidStr rid)) (ht : j.tenantId = .str (uuidStr t))
      (h : w'.tables = w.tables) : Turn p w w' st (.xaddJob j) (.error x) (.refused t rid)

/-! ## the list is complete -/

section exec

variable {p : Nat} {e : Eff} {o : Oracle} {w w' : World}

/-- An answered await was performed. -/
theorem exec_ok {b : Ret e} (h : exec p e o w = some (.ok b, w')) :
    ∃ h, perform p e h w = some (.ok b, w') := by
  cases o with
  | goes hint =>
      simp only [exec] at h
      split at h
      · next hp => cases h; exact ⟨hint, hp⟩
      · cases h
      · contradiction
  | raises x =>
      simp only [exec] at h
      split at h <;> cases h
  | lost x hint =>
      simp only [exec] at h
      split at h
      · split at h <;> cases h
      · contradiction

/-- An await was performed, or failed before it began. -/
theorem exec_performed {a : Ans e} (h : exec p e o w = some (a, w')) :
    (∃ hint r, perform p e hint w = some (r, w')) ∨
      w' = if e.isSql then w.rollback p else w := by
  cases o with
  | goes hint =>
      simp only [exec] at h
      split at h
      · next hp => cases h; exact .inl ⟨hint, _, hp⟩
      · next hp => cases h; exact .inl ⟨hint, _, hp⟩
      · contradiction
  | raises x =>
      simp only [exec] at h
      split at h
      · cases h; exact .inr rfl
      · contradiction
  | lost x hint =>
      simp only [exec] at h
      split at h
      · split at h
        · next hp => cases h; exact .inl ⟨hint, _, hp⟩
        · contradiction
      · contradiction

/-- A statement, or the end of a transaction. -/
def Eff.onTables : Eff → Bool
  | .rollback | .close => true
  | e => e.isSql

/-- Nothing else touches the tables. -/
theorem exec_tables {a : Ans e} (h : exec p e o w = some (a, w')) (he : e.onTables = false) :
    w'.tables = w.tables := by
  obtain ⟨hint, r, hp⟩ | rfl := exec_performed h
  · cases e <;> simp only [Eff.onTables, Eff.isSql, Bool.true_eq_false] at he <;>
      grind [perform, World.tables]
  · have hs : e.isSql = false := by
      cases e <;> first | exact he | exact absurd he (by simp [Eff.onTables])
    simp [hs]

/-- An await takes no time. -/
theorem exec_now {a : Ans e} (h : exec p e o w = some (a, w')) : w'.now = w.now := by
  obtain ⟨hint, r, hp⟩ | rfl := exec_performed h
  · cases e <;> grind [perform, World.rollback, World.commit]
  · split <;> rfl

/-- A statement that fails takes its transaction along, unless it is a
commit that went through. -/
theorem exec_sql_error {x : Exn} (he : e.isSql = true)
    (h : exec p e o w = some (.error x, w')) :
    w'.tables = (w.rollback p).tables ∨ e = .commit ∧ w'.tables = (w.commit p).tables := by
  cases o with
  | goes hint =>
      simp only [exec] at h
      split at h
      · cases h
      · next f _ hp =>
          cases h
          refine .inl ?_
          cases e <;> simp only [Eff.isSql, Bool.false_eq_true] at he <;> grind [perform]
      · contradiction
  | raises y =>
      simp only [exec, he] at h
      split at h
      · cases h; exact .inl rfl
      · contradiction
  | lost y hint =>
      simp only [exec] at h
      split at h
      · next hl =>
          split at h
          · next hp =>
              cases h
              cases e <;> simp_all [Eff.isSql, Eff.losable, perform]
          · contradiction
      · contradiction

/-! ### statements that are answered -/

theorem exec_insertIdem {t rid apiKey : Uuid} {hash : PyStr} {ttl : Nat} {row : JobIdempotency}
    (h : exec p (.insertIdem t rid apiKey hash ttl) o w = some (.ok row, w')) :
    w.idem.free p rid = true ∧ w.idem.read p rid = none ∧
      row = freshRow t apiKey hash w.now ttl ∧
      w'.tables = (w.idem.put p rid (some (freshRow t apiKey hash w.now ttl)), w.usage) := by
  obtain ⟨_, hp⟩ := exec_ok h
  simp only [perform] at hp
  split at hp
  · next hf =>
      split at hp
      · cases hp
      · next hn =>
          cases hp
          simp only [not_or, Option.not_isSome_iff_eq_none] at hn
          exact ⟨hf, hn.1, rfl, rfl⟩
  · contradiction

theorem exec_updateIdem {rid : Uuid} {patch : IdemPatch}
    (h : exec p (.updateIdem rid patch) o w = some (.ok (), w')) :
    w.idem.free p rid = true ∧ ∃ cur, w.idem.read p rid = some cur ∧
      w'.tables = (w.idem.put p rid (some (patch.apply cur)), w.usage) := by
  obtain ⟨_, hp⟩ := exec_ok h
  simp only [perform] at hp
  split at hp
  · next hf =>
      split at hp
      · next cur hr => cases hp; exact ⟨hf, cur, hr, rfl⟩
      · cases hp
  · contradiction

theorem exec_deleteIdem {t rid : Uuid} {n : Nat}
    (h : exec p (.deleteIdem t rid) o w = some (.ok n, w')) :
    (w.idem.free p rid = true ∧ ∃ cur, w.idem.read p rid = some cur ∧ cur.tenantId = t ∧
      w'.tables = (w.idem.put p rid none, w.usage)) ∨ w'.tables = w.tables := by
  obtain ⟨_, hp⟩ := exec_ok h
  simp only [perform] at hp
  split at hp
  · next hf =>
      split at hp
      · next cur hr =>
          split at hp
          · next ht => cases hp; exact .inl ⟨hf, cur, hr, ht, rfl⟩
          · cases hp; exact .inr rfl
      · cases hp; exact .inr rfl
  · contradiction

theorem exec_insertUsage {rid : Uuid} {u : UsageRecord}
    (h : exec p (.insertUsage rid u) o w = some (.ok (), w')) :
    w.usage.free p rid = true ∧ w.usage.read p rid = none ∧
      w'.tables = (w.idem, w.usage.put p rid (some u)) := by
  obtain ⟨_, hp⟩ := exec_ok h
  simp only [perform] at hp
  split at hp
  · next hf =>
      split at hp
      · cases hp
      · split at hp
        · cases hp
        · next hn =>
            cases hp
            simp only [not_or, Option.not_isSome_iff_eq_none] at hn
            exact ⟨hf, hn.1, rfl⟩
  · contradiction

theorem exec_selectIdem {site : Site} {t rid : Uuid} {row : Option JobIdempotency}
    (h : exec p (.selectIdem site t rid) o w = some (.ok row, w')) :
    row = w.lookupIdem p t rid ∧ w' = w := by
  obtain ⟨_, hp⟩ := exec_ok h
  simp only [perform] at hp
  cases hp
  exact ⟨rfl, rfl⟩

theorem exec_selectUsage {t rid : Uuid} {u : Option UsageRecord}
    (h : exec p (.selectUsage t rid) o w = some (.ok u, w')) :
    u = (w.usage.read p rid).filter (fun u => u.tenantId = t) ∧ w' = w := by
  obtain ⟨_, hp⟩ := exec_ok h
  simp only [perform] at hp
  cases hp
  exact ⟨rfl, rfl⟩

/-- The other queries only answer. -/
theorem exec_query {b : Ret e} (he : e = .insertAudit i ∨ (∃ t v, e = .selectVoice t v) ∨
    (∃ k, e = .selectWatermarkKey k) ∨ ∃ v, e = .selectConsent v)
    (h : exec p e o w = some (.ok b, w')) : w' = w := by
  obtain ⟨_, hp⟩ := exec_ok h
  obtain rfl | ⟨t, v, rfl⟩ | ⟨k, rfl⟩ | ⟨v, rfl⟩ := he <;> simp only [perform] at hp <;> grind

theorem exec_closing {b : Ret e} (he : e = .rollback ∨ e = .close)
    (h : exec p e o w = some (.ok b, w')) : w' = w.rollback p := by
  obtain ⟨_, hp⟩ := exec_ok h
  obtain rfl | rfl := he <;> simp only [perform] at hp <;> grind

theorem exec_commit (h : exec p .commit o w = some (.ok (), w')) : w' = w.commit p := by
  obtain ⟨_, hp⟩ := exec_ok h
  simp only [perform] at hp
  cases hp
  rfl

end exec

/-! ### what the discipline adds -/

section turn

variable {n p : Nat} {e : Eff} {o : Oracle} {w w' : World} {s : Track}

/-- An await that raised. -/
theorem turn_of_error {x : Exn} (h : exec p e o w = some (.error x, w'))
    (hal : Allows n s e) : Turn p w w' s.stage e (.error x) (s.onError e x).stage := by
  have hst : (s.onError e x).stage = s.stage.raised e := rfl
  by_cases he : e.isSql = true
  · rw [hst, Stage.raised_of_isSql he]
    rcases exec_sql_error he h with ht | ⟨rfl, ht⟩
    · exact .aborted he ht
    · exact .unheard hal ht
  · have hq : e.isSql = false := by simpa using he
    by_cases hc : e = .rollback ∨ e = .close
    · have hp := possible_of_exec h
      obtain rfl | rfl := hc <;> exact absurd hp.1 (by simp [Eff.fallible])
    · have ht : w'.tables = w.tables := by
        refine exec_tables h ?_
        cases e <;> simp_all [Eff.onTables, Eff.isSql]
      rw [hst]
      by_cases hx : ∃ j, e = .xaddJob j
      · obtain ⟨j, rfl⟩ := hx
        obtain ⟨t, rid, hs, hj, ht'⟩ := hal
        have hr : s.stage.raised (.xaddJob j) = .refused t rid := by
          rcases hs with hs | hs <;> simp [hs, Stage.raised]
        rw [hr]
        exact .refused hs hj ht' ht
      · by_cases her : ∃ rid, s.stage = .erred rid
        · obtain ⟨rid, her⟩ := her
          have hr : s.stage.raised e = .none := by
            rw [her]
            cases e <;> rfl
          rw [hr, her]
          exact .escapes hq ht
        · have hr : s.stage.raised e = s.stage := by
            cases hst : s.stage <;> cases e <;> simp_all [Stage.raised, Eff.isSql]
          rw [hr]
          refine .calm ?_ ht
          cases e with
          | xaddJob j => exact absurd ⟨j, rfl⟩ hx
          | _ => first | rfl | cases hq

/-- An await that was answered. -/
theorem turn_of_ok {b : Ret e} (h : exec p e o w = some (.ok b, w')) (hal : Allows n s e) :
    Turn p w w' s.stage e (.ok b) (s.onOk e b).stage := by
  cases e with
  | commit => exact .committed hal (congrArg World.tables (exec_commit h))
  | rollback => exact .dropped (.inl rfl) (congrArg World.tables (exec_closing (.inl rfl) h))
  | close => exact .dropped (.inr rfl) (congrArg World.tables (exec_closing (.inr rfl) h))
  | insertAudit r => exact .calm rfl (congrArg World.tables (exec_query (i := r) (.inl rfl) h))
  | selectVoice t v =>
      exact .calm rfl (congrArg World.tables (exec_query (i := "") (.inr (.inl ⟨t, v, rfl⟩)) h))
  | selectWatermarkKey k =>
      exact .calm rfl (congrArg World.tables (exec_query (i := "") (.inr (.inr (.inl ⟨k, rfl⟩))) h))
  | selectConsent v =>
      exact .calm rfl (congrArg World.tables (exec_query (i := "") (.inr (.inr (.inr ⟨v, rfl⟩))) h))
  | selectIdem site t rid =>
      obtain ⟨rfl, rfl⟩ := exec_selectIdem h
      cases site with
      | complete => rw [hal.1]; exact .completing rfl
      | fail => rw [hal.1]; exact .failing rfl
      | upfront => exact .calm rfl rfl
      | poll => exact .calm rfl rfl
      | reserve =>
          cases hr : w'.lookupIdem p t rid with
          | none => exact .calm rfl rfl
          | some row =>
              rw [show s.stage = .none from hal]
              exact .found (.inl rfl) hr rfl
      | reread =>
          cases hr : w'.lookupIdem p t rid with
          | none => exact .calm rfl rfl
          | some row =>
              rw [show s.stage = .none from hal]
              exact .found (.inr rfl) hr rfl
  | insertIdem t rid apiKey hash ttl =>
      obtain ⟨hf, hr, rfl, ht⟩ := exec_insertIdem h
      exact .inserted (hal.2.imp_right (Or.imp_right And.right)) hf hr ht
  | updateIdem rid patch =>
      obtain ⟨hf, cur, hr, ht⟩ := exec_updateIdem h
      have hst : (s.onOk (.updateIdem rid patch) b).stage = s.stage.updated := rfl
      rw [hst]
      obtain ⟨row, hs, hp⟩ | ⟨row, hs, rfl⟩ := hal
      · rw [hs]; exact .completes hp hf hr ht
      · rw [hs]; exact .fails hf hr ht
  | deleteIdem t rid =>
      rw [show s.stage = .refused t rid from hal]
      rcases exec_deleteIdem h with ⟨hf, cur, hr, ht, htab⟩ | htab
      · exact .deletes hf hr ht htab
      · exact .deletesNone htab
  | selectUsage t rid =>
      obtain ⟨hu, rfl⟩ := exec_selectUsage h
      have hst : (s.onOk (.selectUsage t rid) b).stage = s.stage.usageSeen b.isSome := rfl
      rw [hst]
      rcases hal with hs | ⟨row, wrote, hs, hfl⟩
      · rw [hs]; exact .calm rfl rfl
      · rw [hs] at hfl ⊢
        cases b with
        | none => exact .unbilled hfl rfl
        | some u =>
            exact .billedBefore hfl (Option.filter_eq_some_iff.1 hu.symm).1 rfl
  | insertUsage rid u =>
      obtain ⟨hf, hr, ht⟩ := exec_insertUsage h
      have hst : (s.onOk (.insertUsage rid u) b).stage = s.stage.usageAdded := rfl
      rw [hst]
      obtain ⟨hu, row, wrote, hs, hfl⟩ | ⟨hu, row, wrote, hs⟩ := hal
      · rw [hs] at hfl ⊢; exact .bills hfl hu hf hr ht
      · rw [hs]; exact .records hu hf hr ht
  | xaddJob j =>
      obtain ⟨t, rid, hs, hj, ht⟩ := hal
      exact .submits hs hj ht (exec_tables h rfl)
  | xaddResult r =>
      have ht := exec_tables h rfl
      by_cases he : r.error.isSome = true
      · have hst : (s.onOk (.xaddResult r) b).stage = .erred r.requestId := by
          simp [Track.onOk, he]
        rw [hst, hal.1]
        exact .errs he ht
      · have hst : s.onOk (.xaddResult r) b = s := by simp [Track.onOk, he]
        rw [hst]
        exact .calm rfl ht
  | handled entry =>
      rw [show s.stage = .none from hal.2.1]
      exact .calm rfl (exec_tables h rfl)
  | xreadgroup c =>
      have ht := exec_tables h rfl
      rw [hal.2]
      cases b with
      | none => rw [show (s.onOk (.xreadgroup c) none).stage = .none from hal.2]; exact .calm rfl ht
      | some d => exact .calm rfl ht
  | xautoclaim c m =>
      have ht := exec_tables h rfl
      rw [hal.2]
      cases b with
      | none => rw [show (s.onOk (.xautoclaim c m) none).stage = .none from hal.2]; exact .calm rfl ht
      | some d => exact .calm rfl ht
  | xpendingRange entry =>
      rw [show (s.onOk (.xpendingRange entry) b).stage = s.stage by
        simp only [Track.onOk]; split <;> rfl]
      exact .calm rfl (exec_tables h rfl)
  | xaddDlq d =>
      rw [show (s.onOk (.xaddDlq d) b).stage = s.stage by
        simp only [Track.onOk]; split <;> rfl]
      exact .calm rfl (exec_tables h rfl)
  | synthesize r =>
      rw [show (s.onOk (.synthesize r) b).stage = s.stage by
        simp only [Track.onOk]; split <;> rfl]
      exact .calm rfl (exec_tables h rfl)
  | _ => exact .calm rfl (exec_tables h rfl)

/-- **What an await can do.** -/
theorem turn_of_exec {a : Ans e} (h : exec p e o w = some (a, w')) (hal : Allows n s e) :
    Turn p w w' s.stage e a (s.next e a).stage := by
  cases a with
  | ok b => exact turn_of_ok h hal
  | error x => exact turn_of_error h hal

end turn

end NeuroVoice
