import NeuroVoice.Ledger.Turn

/-!
# NeuroVoice.Ledger.Invariant

The invariant of the two tables, over every run: `Ledger`.

A process's uncommitted writes are those of its stage, over rows it has
locked (`Owned`); a row that is not processing has its usage row
(`Settled`); and a usage row stays as it is once it is committed.
-/

namespace NeuroVoice

/-- The stage of a process; one that is not running has none. -/
def stageOf (ph : Nat → Option Track) (p : Nat) : Stage := (ph p).elim .none Track.stage

/-- Without tracks every stage is the first one. -/
@[simp] theorem stageOf_none (p : Nat) : stageOf (fun _ => none) p = .none := rfl

/-- A track that moves moves its stage. -/
theorem stageOf_update_some (ph : Nat → Option Track) (p : Nat) (s : Track) :
    stageOf (Function.update ph p (some s)) = Function.update (stageOf ph) p s.stage := by
  funext q
  by_cases hq : q = p
  · subst hq; simp [stageOf]
  · simp [stageOf, hq]

/-- A track that ends gives its stage up. -/
theorem stageOf_update_none (ph : Nat → Option Track) (p : Nat) :
    stageOf (Function.update ph p none) = Function.update (stageOf ph) p .none := by
  funext q
  by_cases hq : q = p
  · subst hq; simp [stageOf]
  · simp [stageOf, hq]

/-! ## what a stage has written -/

/-- `Writes st k cur v`: at stage `st` the row `k`, whose committed value is
`cur`, has the uncommitted value `v`. -/
inductive Writes : Stage → Uuid → Option JobIdempotency → Option JobIdempotency → Prop where
  | completes {st rid row cur} {patch : IdemPatch}
      (hst : st = .completing rid (some row) true ∨ st = .billed rid (some row) true)
      (hp : patch.completes row = true) :
      Writes st rid (some cur) (some (patch.apply cur))
  | fails {st rid row} {cur : JobIdempotency}
      (hst : st = .failing rid (some row) true ∨ st = .unbilled rid (some row) true ∨
        st = .recorded rid (some row) true) :
      Writes st rid (some cur) (some { cur with status := .failed })
  | inserts {t rid apiKey hash now ttl} :
      Writes (.inserted t rid) rid none (some (freshRow t apiKey hash now ttl))
  | deletes {t rid cur} (ht : cur.tenantId = t) : Writes (.deleting t rid) rid (some cur) none

namespace Stage

/-- Nothing is written. -/
def idle : Stage → Bool
  | .none | .erred _ | .found _ _ | .reserved _ _ | .refused _ _ | .over => true
  | _ => false

/-- Something was asked, and nothing written yet; a `DELETE` may also have
found nothing to write. -/
def asking : Stage → Bool
  | .completing _ _ false | .failing _ _ false | .deleting _ _ => true
  | _ => false

/-- The usage row a stage has inserted. -/
def Bills (st : Stage) (k : Uuid) (status : UsageStatus) : Prop :=
  (∃ row wrote, st = .billed k row wrote ∧ status = .ok) ∨
    ∃ row wrote, st = .recorded k row wrote ∧ status = .error

/-- The row a stage's lookup returned. -/
def Looked (st : Stage) (k : Uuid) (row : Option JobIdempotency) (wrote : Bool) : Prop :=
  st = .completing k row wrote ∨ st = .billed k row wrote ∨ st = .failing k row wrote ∨
    st = .unbilled k row wrote ∨ st = .recorded k row wrote

/-- The lookup came before the `UPDATE`, and the `UPDATE` before the usage
row. -/
structure Valid (st : Stage) : Prop where
  looked : ∀ k row, st.Looked k row true → row.isSome = true
  billed : ∀ k row wrote, st = .billed k row wrote → (completing k row wrote).flushed = true
  recorded : ∀ k row wrote, st = .unbilled k row wrote ∨ st = .recorded k row wrote →
    (failing k row wrote).flushed = true

/-- Idle stages promise nothing. -/
theorem valid_of_idle {st : Stage} (h : st.idle = true) : st.Valid := by
  refine ⟨?_, ?_, ?_⟩
  · rintro k row (rfl | rfl | rfl | rfl | rfl) <;> cases h
  · rintro k row wrote rfl
    cases h
  · rintro k row wrote (rfl | rfl) <;> cases h

/-- Nothing is billed in an idle stage. -/
theorem not_billing_of_idle {st : Stage} (h : st.idle = true) (k : Uuid)
    (row : Option JobIdempotency) (wrote : Bool) :
    st ≠ .billed k row wrote ∧ st ≠ .recorded k row wrote := by
  constructor <;> rintro rfl <;> cases h

/-- No row was looked at in an idle stage. -/
theorem not_looked_of_idle {st : Stage} (h : st.idle = true) (k : Uuid)
    (row : Option JobIdempotency) (wrote : Bool) : ¬st.Looked k row wrote := by
  rintro (rfl | rfl | rfl | rfl | rfl) <;> cases h

/-- Who asks for a row has written nothing to it. -/
theorem not_looked_of_asking {st : Stage} (h : st.asking = true) (k : Uuid)
    (row : Option JobIdempotency) : ¬st.Looked k row true := by
  rintro (rfl | rfl | rfl | rfl | rfl) <;> cases h

/-- Who asks bills nothing. -/
theorem not_billing_of_asking {st : Stage} (h : st.asking = true) (k : Uuid)
    (row : Option JobIdempotency) (wrote : Bool) :
    st ≠ .billed k row wrote ∧ st ≠ .recorded k row wrote := by
  constructor <;> rintro rfl <;> cases h

/-- Stages that ask promise nothing. -/
theorem valid_of_asking {st : Stage} (h : st.asking = true) : st.Valid := by
  refine ⟨fun k row hl => absurd hl (not_looked_of_asking h k row), ?_, ?_⟩
  · rintro k row wrote rfl
    cases h
  · rintro k row wrote (rfl | rfl) <;> cases h

/-- A dropped transaction leaves an idle stage. -/
theorem idle_dropped (st : Stage) : st.dropped.idle = true := by
  cases st <;> rfl

/-- It leaves the stage, or the first one. -/
theorem dropped_eq (st : Stage) : st.dropped = st ∨ st.dropped = .none := by
  cases st <;> first | exact .inl rfl | exact .inr rfl

/-- A commit ends a transaction, makes a reservation, or ends a deletion. -/
theorem committed_eq (st : Stage) : st.committed = st ∨ st.committed = .none ∨
    (∃ t k, st = .inserted t k ∧ st.committed = .reserved t k) ∨
    ∃ t k, st = .deleting t k ∧ st.committed = .over := by
  cases st with
  | billed _ _ _ | recorded _ _ _ => exact .inr (.inl rfl)
  | inserted t k => exact .inr (.inr (.inl ⟨t, k, rfl, rfl⟩))
  | deleting t k => exact .inr (.inr (.inr ⟨t, k, rfl, rfl⟩))
  | _ => exact .inl rfl

/-- A commit leaves an idle stage. -/
theorem idle_committed {st : Stage} (h : st.committable = true) : st.committed.idle = true := by
  cases st <;> first | rfl | cases h

end Stage

/-- A stage before its `UPDATE`, and one without a transaction, has written
nothing. -/
theorem not_writes {st : Stage}
    (h : st.idle = true ∨ (∃ rid row, st = .completing rid row false) ∨
      ∃ rid row, st = .failing rid row false) (k : Uuid) (cur v : Option JobIdempotency) :
    ¬Writes st k cur v := by
  intro hw
  cases hw with
  | completes hst _ =>
      rcases hst with rfl | rfl <;> rcases h with h | ⟨_, _, h⟩ | ⟨_, _, h⟩ <;> cases h
  | fails hst =>
      rcases hst with rfl | rfl | rfl <;> rcases h with h | ⟨_, _, h⟩ | ⟨_, _, h⟩ <;> cases h
  | inserts => rcases h with h | ⟨_, _, h⟩ | ⟨_, _, h⟩ <;> cases h
  | deletes _ => rcases h with h | ⟨_, _, h⟩ | ⟨_, _, h⟩ <;> cases h

/-- Only a deletion leaves no row. -/
theorem Writes.isSome {st : Stage} {k : Uuid} {cur v : Option JobIdempotency}
    (h : Writes st k cur v) (hd : ∀ t, st ≠ .deleting t k) : v.isSome = true := by
  cases h with
  | completes _ _ | fails _ | inserts => rfl
  | deletes _ => exact absurd rfl (hd _)

/-- A reservation is inserted where there is no row. -/
theorem Writes.inserted {t rid k : Uuid} {cur v : Option JobIdempotency}
    (h : Writes (.inserted t rid) k cur v) :
    k = rid ∧ cur = none ∧ ∃ apiKey hash now ttl, v = some (freshRow t apiKey hash now ttl) := by
  cases h with
  | completes hst _ => rcases hst with hst | hst <;> cases hst
  | fails hst => rcases hst with hst | hst | hst <;> cases hst
  | inserts => exact ⟨rfl, rfl, _, _, _, _, rfl⟩

/-- The stages of a failure transaction. -/
def Stage.Failing (st : Stage) (rid : Uuid) (row : Option JobIdempotency) (wrote : Bool) :
    Prop :=
  st = .failing rid row wrote ∨ st = .unbilled rid row wrote ∨ st = .recorded rid row wrote

/-- They share their write. -/
theorem Writes.failing {st st' : Stage} {rid k : Uuid} {row cur v : Option JobIdempotency}
    {wrote : Bool} (h : Writes st k cur v) (hst : st.Failing rid row wrote)
    (hst' : st'.Failing rid row wrote) : Writes st' k cur v := by
  cases h with
  | completes hs _ => rcases hs with rfl | rfl <;> rcases hst with h | h | h <;> cases h
  | @fails _ _ r c hs =>
      have hk : rid = k ∧ row = some r ∧ wrote = true := by
        rcases hs with rfl | rfl | rfl <;> rcases hst with h | h | h <;> cases h <;>
          exact ⟨rfl, rfl, rfl⟩
      obtain ⟨rfl, rfl, rfl⟩ := hk
      exact .fails hst'
  | inserts => rcases hst with h | h | h <;> cases h
  | deletes _ => rcases hst with h | h | h <;> cases h

/-- So do those of a success transaction. -/
theorem Writes.billed {rid k : Uuid} {row cur v : Option JobIdempotency} {wrote : Bool}
    (h : Writes (.completing rid row wrote) k cur v) : Writes (.billed rid row wrote) k cur v := by
  cases h with
  | completes hs hp =>
      rcases hs with h | h <;> cases h
      exact .completes (.inr rfl) hp
  | fails hs => rcases hs with h | h | h <;> cases h

/-- Once the `UPDATE` is sent, a failure transaction stays in order. -/
theorem Stage.Valid.failing {st st' : Stage} {rid : Uuid} {row : Option JobIdempotency}
    {wrote : Bool} (h : st.Valid) (hst : st.Failing rid row wrote)
    (hfl : (Stage.failing rid row wrote).flushed = true)
    (hst' : st' = .unbilled rid row wrote ∨ st' = .recorded rid row wrote) : st'.Valid := by
  refine ⟨fun k r hl => ?_, fun k r b hs => ?_, fun k r b hs => ?_⟩
  · refine h.looked k r ?_
    rcases hst' with rfl | rfl <;> rcases hl with hl | hl | hl | hl | hl <;> cases hl <;>
      exact .inr (.inr hst)
  · rcases hst' with rfl | rfl <;> cases hs
  · rcases hst' with rfl | rfl <;> rcases hs with hs | hs <;> cases hs <;> exact hfl

/-- The uncommitted writes of `p` are those of its stage. -/
structure Owned (w : World) (p : Nat) (st : Stage) : Prop where
  idem : ∀ k v, w.idem.own p k = some v → Writes st k (w.idem.rows k) v
  usage : ∀ k v, w.usage.own p k = some v →
    w.usage.rows k = none ∧ ∃ u, v = some u ∧ st.Bills k u.status
  sent : ∀ k row, st.Looked k (some row) true → (w.idem.own p k).isSome = true
  inserted : ∀ t k, st = .inserted t k → (w.idem.own p k).isSome = true
  billed : ∀ k row wrote, st = .billed k row wrote → (w.usage.own p k).isSome = true
  recorded : ∀ k row wrote, st = .recorded k row wrote →
    (w.usage.own p k).isSome = true ∨ (w.usage.rows k).isSome = true
  valid : st.Valid

namespace Owned

variable {w : World} {p : Nat} {st : Stage}

/-- A process that writes no row owns none. -/
theorem idem_none (h : Owned w p st) (hn : ∀ k cur v, ¬Writes st k cur v) (k : Uuid) :
    w.idem.own p k = none := by
  cases hv : w.idem.own p k with
  | none => rfl
  | some v => exact absurd (h.idem k v hv) (hn k _ v)

/-- A process that bills nothing owns no usage row. -/
theorem usage_none (h : Owned w p st) (hi : ∀ k row wrote, st ≠ .billed k row wrote ∧
    st ≠ .recorded k row wrote) (k : Uuid) : w.usage.own p k = none := by
  cases hv : w.usage.own p k with
  | none => rfl
  | some v =>
      obtain ⟨-, u, rfl, ⟨row, wrote, hs, -⟩ | ⟨row, wrote, hs, -⟩⟩ := h.usage k v hv
      · exact absurd hs (hi k row wrote).1
      · exact absurd hs (hi k row wrote).2

/-- A process with no uncommitted write. -/
theorem of_clean (hi : ∀ k, w.idem.own p k = none) (hu : ∀ k, w.usage.own p k = none)
    (hst : st.idle = true) : Owned w p st where
  idem k v hv := by simp [hi k] at hv
  usage k v hv := by simp [hu k] at hv
  sent k row hl := by rcases hl with rfl | rfl | rfl | rfl | rfl <;> cases hst
  inserted t k hs := by subst hs; cases hst
  billed k row wrote hs := by subst hs; cases hst
  recorded k row wrote hs := by subst hs; cases hst
  valid := Stage.valid_of_idle hst

end Owned

/-! ## rows and usage -/

/-- The row agrees with the committed usage row of its request. -/
structure Settled (w : World) (k : Uuid) (row : JobIdempotency) : Prop where
  processing : row.status = .processing → row.responseUri = none
  complete : row.status = .complete →
    row.responseUri.isSome = true ∧ ∃ u, w.usage.rows k = some u ∧ u.status = .ok
  failed : row.status = .failed → (w.usage.rows k).isSome = true

/-- A row that is not processing has a usage row. -/
theorem Settled.billed {w : World} {k : Uuid} {row : JobIdempotency} (h : Settled w k row)
    (hs : row.status ≠ .processing) : (w.usage.rows k).isSome = true := by
  cases hst : row.status with
  | processing => exact absurd hst hs
  | complete =>
      obtain ⟨-, u, hu, -⟩ := h.complete hst
      simp [hu]
  | failed => exact h.failed hst

/-- Committed usage rows stay. -/
def UsageKept (w w' : World) : Prop := ∀ k u, w.usage.rows k = some u → w'.usage.rows k = some u

/-- A usage row stays there. -/
theorem UsageKept.isSome {w w' : World} (h : UsageKept w w') {k : Uuid}
    (hs : (w.usage.rows k).isSome = true) : (w'.usage.rows k).isSome = true := by
  obtain ⟨u, hu⟩ := Option.isSome_iff_exists.1 hs
  simp [h k u hu]

/-- A settled row stays settled while usage is kept. -/
theorem Settled.kept {w w' : World} {k : Uuid} {row : JobIdempotency} (h : Settled w k row)
    (hu : UsageKept w w') : Settled w' k row where
  processing := h.processing
  complete hs := by
    obtain ⟨hr, u, hk, ho⟩ := h.complete hs
    exact ⟨hr, u, hu k u hk, ho⟩
  failed hs := hu.isSome (h.failed hs)

/-- The invariant of the tables. -/
structure Ledger (w : World) (stages : Nat → Stage) : Prop where
  idem : w.idem.Exclusive
  usage : w.usage.Exclusive
  owned : ∀ p, Owned w p (stages p)
  looked : ∀ p k row wrote, (stages p).Looked k (some row) wrote → Settled w k row
  rows : ∀ k row, w.idem.rows k = some row → Settled w k row

/-! ## one await -/

section turn

variable {p q : Nat} {w w' : World} {st st' : Stage} {e : Eff} {a : Ans e}
  {stages : Nat → Stage}

/-- The tables after an await, one table at a time. -/
inductive TableMove (p : Nat) (w w' : World) : Prop where
  | same (hi : w'.idem = w.idem) (hu : w'.usage = w.usage)
  | rollback (hi : w'.idem = w.idem.rollback p) (hu : w'.usage = w.usage.rollback p)
  | commit (hi : w'.idem = w.idem.commit p) (hu : w'.usage = w.usage.commit p)
  | putIdem {k v} (hf : w.idem.free p k = true) (hi : w'.idem = w.idem.put p k v)
      (hu : w'.usage = w.usage)
  | putUsage {k v} (hf : w.usage.free p k = true) (hi : w'.idem = w.idem)
      (hu : w'.usage = w.usage.put p k v)

/-- Tables may stay as they are. -/
theorem TableMove.of_same (h : w'.tables = w.tables) : TableMove p w w' :=
  .same (congrArg Prod.fst h) (congrArg Prod.snd h)

/-- Tables may be rolled back. -/
theorem TableMove.of_rollback (h : w'.tables = (w.rollback p).tables) : TableMove p w w' :=
  .rollback (congrArg Prod.fst h) (congrArg Prod.snd h)

/-- Tables may be committed to. -/
theorem TableMove.of_commit (h : w'.tables = (w.commit p).tables) : TableMove p w w' :=
  .commit (congrArg Prod.fst h) (congrArg Prod.snd h)

/-- Every turn is one of these moves. -/
theorem Turn.tableMove (h : Turn p w w' st e a st') : TableMove p w w' := by
  cases h with
  | calm _ h | completing h | failing h | found _ _ h | deletesNone h | billedBefore _ _ h
  | unbilled _ h | errs _ h | escapes _ h | submits _ _ _ h | refused _ _ _ h => exact .of_same h
  | dropped _ h | aborted _ h => exact .of_rollback h
  | unheard _ h | committed _ h => exact .of_commit h
  | inserted _ hf _ h | completes _ hf _ h | fails hf _ h | deletes hf _ _ h =>
      exact .putIdem hf (congrArg Prod.fst h) (congrArg Prod.snd h)
  | bills _ _ hf _ h | records _ hf _ h =>
      exact .putUsage hf (congrArg Prod.fst h) (congrArg Prod.snd h)

namespace TableMove

/-- Locks stay exclusive. -/
theorem exclusive (h : TableMove p w w') (hi : w.idem.Exclusive) (hu : w.usage.Exclusive) :
    w'.idem.Exclusive ∧ w'.usage.Exclusive := by
  cases h with
  | same h h' => exact ⟨h ▸ hi, h' ▸ hu⟩
  | rollback h h' => exact ⟨h ▸ hi.rollback p, h' ▸ hu.rollback p⟩
  | commit h h' => exact ⟨h ▸ hi.commit p, h' ▸ hu.commit p⟩
  | putIdem hf h h' => exact ⟨h ▸ hi.put hf _, h' ▸ hu⟩
  | putUsage hf h h' => exact ⟨h ▸ hi, h' ▸ hu.put hf _⟩

/-- The writes of the other processes are untouched. -/
theorem own_other (h : TableMove p w w') (hq : q ≠ p) (k : Uuid) :
    w'.idem.own q k = w.idem.own q k ∧ w'.usage.own q k = w.usage.own q k := by
  cases h <;> simp [*, Ne.symm hq]

/-- Committed rows change only when their writer commits. -/
theorem idem_rows (h : TableMove p w w') (k : Uuid) :
    w'.idem.rows k = w.idem.rows k ∨ w'.idem = w.idem.commit p ∧
      ∃ v, w.idem.own p k = some v ∧ w'.idem.rows k = v := by
  cases h with
  | commit hi hu =>
      cases hv : w.idem.own p k with
      | none => exact .inl (by rw [hi, TxTable.rows_commit, TxTable.read_of_own_none hv])
      | some v =>
          exact .inr ⟨hi, v, rfl, by rw [hi, TxTable.rows_commit, TxTable.read_of_own_some hv]⟩
  | _ => exact .inl (by simp [*])

/-- A usage row changes only in a commit of its owner. -/
theorem usage_rows (h : TableMove p w w') (k : Uuid) :
    w'.usage.rows k = w.usage.rows k ∨ w'.usage = w.usage.commit p ∧
      ∃ v, w.usage.own p k = some v ∧ w'.usage.rows k = v := by
  cases h with
  | commit hi hu =>
      cases hv : w.usage.own p k with
      | none => exact .inl (by rw [hu, TxTable.rows_commit, TxTable.read_of_own_none hv])
      | some v =>
          exact .inr ⟨hu, v, rfl, by rw [hu, TxTable.rows_commit, TxTable.read_of_own_some hv]⟩
  | _ => exact .inl (by simp [*])

/-- A row another process has written stays as it is. -/
theorem idem_rows_locked (h : TableMove p w w') (hx : w.idem.Exclusive) (hq : q ≠ p) {k : Uuid}
    (ho : (w.idem.own q k).isSome = true) : w'.idem.rows k = w.idem.rows k := by
  rcases h.idem_rows k with h | ⟨hi, -⟩
  · exact h
  · rw [hi]
    exact hx.rows_commit ho (Ne.symm hq)

/-- A usage row that another process owns does not change. -/
theorem usage_rows_locked (h : TableMove p w w') (hx : w.usage.Exclusive) (hq : q ≠ p)
    {k : Uuid} (ho : (w.usage.own q k).isSome = true) :
    w'.usage.rows k = w.usage.rows k := by
  rcases h.usage_rows k with h | ⟨hi, -⟩
  · exact h
  · rw [hi]
    exact hx.rows_commit ho (Ne.symm hq)

/-- Usage rows stay once committed. -/
theorem usageKept (h : TableMove p w w') (ho : Owned w p st) : UsageKept w w' := by
  intro k u hk
  rcases h.usage_rows k with h | ⟨-, v, hv, -⟩
  · rw [h, hk]
  · have hn := (ho.usage k v hv).1
    simp [hk] at hn

end TableMove

/-- Committed rows change only by a commit. -/
theorem Turn.rows (h : Turn p w w' st e a st') :
    (w'.idem.rows = w.idem.rows ∧ w'.usage.rows = w.usage.rows) ∨
      e = .commit ∧ st.committable = true ∧ w'.tables = (w.commit p).tables := by
  have hsame {i : TxTable Uuid JobIdempotency} {u : TxTable Uuid UsageRecord}
      (h : w'.tables = (i, u)) (hi : i.rows = w.idem.rows) (hu : u.rows = w.usage.rows) :
      w'.idem.rows = w.idem.rows ∧ w'.usage.rows = w.usage.rows :=
    ⟨(congrArg (fun t => t.1.rows) h).trans hi, (congrArg (fun t => t.2.rows) h).trans hu⟩
  cases h with
  | committed hc h | unheard hc h => exact .inr ⟨rfl, hc, h⟩
  | calm _ h | completing h | failing h | found _ _ h | deletesNone h | billedBefore _ _ h
  | unbilled _ h | errs _ h | escapes _ h | submits _ _ _ h | refused _ _ _ h | dropped _ h
  | aborted _ h | inserted _ _ _ h | completes _ _ _ h | fails _ _ h | deletes _ _ _ h
  | bills _ _ _ _ h | records _ _ _ h => exact .inl (hsame h rfl rfl)

/-- A ledger row changes only in a commit of a stage that may commit. -/
theorem Turn.idem_rows (h : Turn p w w' st e a st') (k : Uuid) :
    w'.idem.rows k = w.idem.rows k ∨ e = .commit ∧ st.committable = true ∧
      w'.tables = (w.commit p).tables ∧
      ∃ v, w.idem.own p k = some v ∧ w'.idem.rows k = v := by
  rcases h.rows with ⟨hi, -⟩ | ⟨he, hc, ht⟩
  · exact .inl (congrFun hi k)
  · refine ((TableMove.of_commit ht).idem_rows k).imp_right fun hv => ?_
    exact ⟨he, hc, ht, hv.2⟩

/-- After a commit nothing is open. -/
theorem Turn.commit_idle {a : Ans .commit} (h : Turn p w w' st .commit a st') :
    st'.idle = true := by
  cases h with
  | calm he _ => cases he
  | dropped he _ => rcases he with he | he <;> cases he
  | aborted _ _ | unheard _ _ => rfl
  | committed hc _ => exact Stage.idle_committed hc
  | escapes he _ => cases he

/-- What the others own, they own still. -/
theorem Owned.other (ho : Owned w q st) (h : TableMove p w w') (hi : w.idem.Exclusive)
    (hu : w.usage.Exclusive) (hk : UsageKept w w') (hq : q ≠ p) : Owned w' q st where
  idem k v hv := by
    rw [(h.own_other hq k).1] at hv
    rw [h.idem_rows_locked hi hq (by simp [hv])]
    exact ho.idem k v hv
  usage k v hv := by
    rw [(h.own_other hq k).2] at hv
    rw [h.usage_rows_locked hu hq (by simp [hv])]
    exact ho.usage k v hv
  sent k row hl := by
    rw [(h.own_other hq k).1]
    exact ho.sent k row hl
  inserted t k hs := by
    rw [(h.own_other hq k).1]
    exact ho.inserted t k hs
  billed k row wrote hs := by
    rw [(h.own_other hq k).2]
    exact ho.billed k row wrote hs
  recorded k row wrote hs := by
    rw [(h.own_other hq k).2]
    exact (ho.recorded k row wrote hs).imp_right hk.isSome
  valid := ho.valid

/-- The same tables, at a stage with the same writes. -/
theorem Owned.congr (ho : Owned w p st) (hi : w'.idem = w.idem) (hu : w'.usage = w.usage) :
    Owned w' p st := by
  obtain ⟨h₁, h₂, h₃, h₄, h₅, h₆, h₇⟩ := ho
  exact ⟨hi ▸ h₁, hu ▸ h₂, hi ▸ h₃, hi ▸ h₄, hu ▸ h₅, hu ▸ h₆, h₇⟩

/-- After a rollback or a commit nothing is left to write. -/
theorem owned_of_closed (h : w'.tables = (w.rollback p).tables ∨ w'.tables = (w.commit p).tables)
    (hst : st.idle = true) : Owned w' p st := by
  refine .of_clean (fun k => ?_) (fun k => ?_) hst
  · rcases h with h | h <;> simp [show w'.idem = _ from congrArg Prod.fst h, World.tables,
      World.rollback, World.commit]
  · rcases h with h | h <;> simp [show w'.usage = _ from congrArg Prod.snd h, World.tables,
      World.rollback, World.commit]

/-- One more write of `job_idempotency`, from a stage without any. -/
theorem owned_putIdem {k₀ : Uuid} {v₀ : Option JobIdempotency}
    (hnone : ∀ k, w.idem.own p k = none) (hun : ∀ k, w.usage.own p k = none)
    (hi : w'.idem = w.idem.put p k₀ v₀) (hu : w'.usage = w.usage)
    (hw : Writes st' k₀ (w.idem.rows k₀) v₀)
    (hl : ∀ k row, st'.Looked k (some row) true → k = k₀)
    (hins : ∀ t k, st' = .inserted t k → k = k₀)
    (hb : ∀ k row wrote, st' ≠ .billed k row wrote ∧ st' ≠ .recorded k row wrote)
    (hv : st'.Valid) : Owned w' p st' where
  idem k v hv := by
    rw [hi, TxTable.own_put] at hv
    split at hv
    · next hk =>
        cases hv
        obtain ⟨-, rfl⟩ := hk
        rw [hi, TxTable.rows_put]
        exact hw
    · simp [hnone k] at hv
  usage k v hv := by simp [hu, hun k] at hv
  sent k row h := by simp [hi, hl k row h]
  inserted t k h := by simp [hi, hins t k h]
  billed k row wrote h := absurd h (hb k row wrote).1
  recorded k row wrote h := absurd h (hb k row wrote).2
  valid := hv

/-- The usage row of the running transaction. -/
theorem Owned.putUsage (ho : Owned w p st) {k₀ : Uuid} {u : UsageRecord}
    (hun : ∀ k, w.usage.own p k = none) (hi : w'.idem = w.idem)
    (hu : w'.usage = w.usage.put p k₀ (some u)) (hn : w.usage.rows k₀ = none)
    (hw : ∀ k cur v, Writes st k cur v → Writes st' k cur v)
    (hl : ∀ k row, st'.Looked k (some row) true → st.Looked k (some row) true)
    (hins : ∀ t k, st' ≠ .inserted t k) (hb : st'.Bills k₀ u.status)
    (hv : st'.Valid) : Owned w' p st' where
  idem k v hv := by
    rw [hi] at hv ⊢
    exact hw k _ v (ho.idem k v hv)
  usage k v hv := by
    rw [hu, TxTable.own_put] at hv
    split at hv
    · next hk =>
        cases hv
        obtain ⟨-, rfl⟩ := hk
        exact ⟨by rw [hu, TxTable.rows_put, hn], u, rfl, hb⟩
    · simp [hun k] at hv
  sent k row h := by
    rw [hi]
    exact ho.sent k row (hl k row h)
  inserted t k h := absurd h (hins t k)
  billed k row wrote h := by
    rcases hb with ⟨row', wrote', hs, -⟩ | ⟨row', wrote', hs, -⟩
    · rw [h] at hs
      cases hs
      simp [hu]
    · rw [h] at hs
      cases hs
  recorded k row wrote h := by
    rcases hb with ⟨row', wrote', hs, -⟩ | ⟨row', wrote', hs, -⟩
    · rw [h] at hs
      cases hs
    · rw [h] at hs
      cases hs
      simp [hu]
  valid := hv

/-- A stage of an open transaction that only asked. -/
theorem Owned.asked (ho : Owned w p st) (hi : w'.idem = w.idem) (hu : w'.usage = w.usage)
    (hun : ∀ k, w.usage.own p k = none)
    (hw : ∀ k cur v, Writes st k cur v → Writes st' k cur v)
    (hl : ∀ k row, st'.Looked k (some row) true → st.Looked k (some row) true)
    (hins : ∀ t k, st' ≠ .inserted t k) (hb : ∀ k row wrote, st' ≠ .billed k row wrote)
    (hr : ∀ k row wrote, st' = .recorded k row wrote → (w.usage.rows k).isSome = true)
    (hv : st'.Valid) : Owned w' p st' where
  idem k v hv := by
    rw [hi] at hv ⊢
    exact hw k _ v (ho.idem k v hv)
  usage k v hv := by simp [hu, hun k] at hv
  sent k row h := by
    rw [hi]
    exact ho.sent k row (hl k row h)
  inserted t k h := absurd h (hins t k)
  billed k row wrote h := absurd h (hb k row wrote)
  recorded k row wrote h := .inr (by rw [hu]; exact hr k row wrote h)
  valid := hv

/-- Between two stages without writes. -/
theorem Owned.idle_to (ho : Owned w p st) (h : w'.tables = w.tables) (hst : st.idle = true)
    (hst' : st'.idle = true) : Owned w' p st' := by
  have hi : w'.idem = w.idem := congrArg Prod.fst h
  have hu : w'.usage = w.usage := congrArg Prod.snd h
  refine .of_clean (fun k => ?_) (fun k => ?_) hst'
  · rw [hi]
    exact ho.idem_none (not_writes (.inl hst)) k
  · rw [hu]
    exact ho.usage_none (Stage.not_billing_of_idle hst) k

/-- From a stage without writes to one that has asked. -/
theorem Owned.idle_asked (ho : Owned w p st) (h : w'.tables = w.tables) (hst : st.idle = true)
    (hst' : st'.asking = true) : Owned w' p st' :=
  ho.asked (congrArg Prod.fst h) (congrArg Prod.snd h)
    (ho.usage_none (Stage.not_billing_of_idle hst))
    (fun k cur v hw => absurd hw (not_writes (.inl hst) k cur v))
    (fun k _ hl => absurd hl (Stage.not_looked_of_asking hst' k _))
    (fun t k h => by rw [h] at hst'; cases hst')
    (fun k row wrote => (Stage.not_billing_of_asking hst' k row wrote).1)
    (fun k row wrote h => absurd h (Stage.not_billing_of_asking hst' k row wrote).2)
    (Stage.valid_of_asking hst')

/-- What the process owns follows its stage. -/
theorem Turn.owned (h : Turn p w w' st e a st') (ho : Owned w p st) : Owned w' p st' := by
  cases h with
  | calm _ h => exact ho.congr (congrArg Prod.fst h) (congrArg Prod.snd h)
  | dropped _ h => exact owned_of_closed (.inl h) (Stage.idle_dropped _)
  | aborted _ h => exact owned_of_closed (.inl h) rfl
  | unheard _ h => exact owned_of_closed (.inr h) rfl
  | committed hc h => exact owned_of_closed (.inr h) (Stage.idle_committed hc)
  | completing h => exact ho.idle_asked h rfl rfl
  | failing h => exact ho.idle_asked h rfl rfl
  | found _ _ h => exact ho.idle_to h rfl rfl
  | @inserted st t rid apiKey hash ttl hst hf hr h =>
      have hidle : st.idle = true := by rcases hst with rfl | rfl | ⟨t, r, rfl⟩ <;> rfl
      have hn := ho.idem_none (not_writes (.inl hidle))
      refine owned_putIdem hn (ho.usage_none (Stage.not_billing_of_idle hidle))
        (congrArg Prod.fst h) (congrArg Prod.snd h) ?_ ?_ ?_ ?_ ?_
      · rw [← TxTable.read_of_own_none (hn rid), hr]
        exact .inserts
      · rintro k row (hl | hl | hl | hl | hl) <;> cases hl
      · rintro _ k ⟨⟩
        rfl
      · exact fun _ _ _ => ⟨nofun, nofun⟩
      · refine ⟨?_, nofun, ?_⟩
        · rintro k row (hl | hl | hl | hl | hl) <;> cases hl
        · rintro k row wrote (hl | hl) <;> cases hl
  | @completes rid row patch cur hp hf hr h =>
      have hn := ho.idem_none (not_writes (.inr (.inl ⟨rid, some row, rfl⟩)))
      refine owned_putIdem hn (ho.usage_none fun _ _ _ => ⟨nofun, nofun⟩)
        (congrArg Prod.fst h) (congrArg Prod.snd h) ?_ ?_ nofun ?_ ?_
      · rw [← TxTable.read_of_own_none (hn rid), hr]
        exact .completes (.inl rfl) hp
      · rintro k row (hl | hl | hl | hl | hl) <;> cases hl
        rfl
      · exact fun _ _ _ => ⟨nofun, nofun⟩
      · refine ⟨?_, nofun, ?_⟩
        · rintro k row (hl | hl | hl | hl | hl) <;> cases hl
          rfl
        · rintro k row wrote (hl | hl) <;> cases hl
  | @fails rid row cur hf hr h =>
      have hn := ho.idem_none (not_writes (.inr (.inr ⟨rid, some row, rfl⟩)))
      refine owned_putIdem hn (ho.usage_none fun _ _ _ => ⟨nofun, nofun⟩)
        (congrArg Prod.fst h) (congrArg Prod.snd h) ?_ ?_ nofun ?_ ?_
      · rw [← TxTable.read_of_own_none (hn rid), hr]
        exact .fails (.inl rfl)
      · rintro k row (hl | hl | hl | hl | hl) <;> cases hl
        rfl
      · exact fun _ _ _ => ⟨nofun, nofun⟩
      · refine ⟨?_, nofun, ?_⟩
        · rintro k row (hl | hl | hl | hl | hl) <;> cases hl
          rfl
        · rintro k row wrote (hl | hl) <;> cases hl
  | @deletes t rid cur _ hf hr ht h =>
      have hn := ho.idem_none (not_writes (.inl rfl))
      refine owned_putIdem hn (ho.usage_none fun _ _ _ => ⟨nofun, nofun⟩)
        (congrArg Prod.fst h) (congrArg Prod.snd h) ?_ ?_ nofun ?_ (Stage.valid_of_asking rfl)
      · rw [← TxTable.read_of_own_none (hn rid), hr]
        exact .deletes ht
      · rintro k row (hl | hl | hl | hl | hl) <;> cases hl
      · exact fun _ _ _ => ⟨nofun, nofun⟩
  | deletesNone h => exact ho.idle_asked h rfl rfl
  | @billedBefore t rid row wrote u hfl hu h =>
      have hun := ho.usage_none fun _ _ _ => ⟨nofun, nofun⟩
      refine ho.asked (congrArg Prod.fst h) (congrArg Prod.snd h) hun ?_ ?_ nofun nofun ?_ ?_
      · intro k cur v hw
        exact hw.failing (.inl rfl) (.inr (.inr rfl))
      · rintro k row (hl | hl | hl | hl | hl) <;> cases hl
        exact .inr (.inr (.inl rfl))
      · rintro _ _ _ ⟨⟩
        rw [← TxTable.read_of_own_none (hun rid), hu]
        rfl
      · exact ho.valid.failing (.inl rfl) hfl (.inr rfl)
  | @unbilled t rid row wrote hfl h =>
      have hun := ho.usage_none fun _ _ _ => ⟨nofun, nofun⟩
      refine ho.asked (congrArg Prod.fst h) (congrArg Prod.snd h) hun ?_ ?_ nofun nofun nofun ?_
      · intro k cur v hw
        exact hw.failing (.inl rfl) (.inr (.inl rfl))
      · rintro k row (hl | hl | hl | hl | hl) <;> cases hl
        exact .inr (.inr (.inl rfl))
      · exact ho.valid.failing (.inl rfl) hfl (.inl rfl)
  | @bills rid row wrote u hfl hs hf hr h =>
      have hun := ho.usage_none fun _ _ _ => ⟨nofun, nofun⟩
      refine ho.putUsage hun (congrArg Prod.fst h) (congrArg Prod.snd h) ?_ ?_ ?_ nofun ?_ ?_
      · rw [← TxTable.read_of_own_none (hun rid), hr]
      · exact fun k cur v hw => hw.billed
      · rintro k row (hl | hl | hl | hl | hl) <;> cases hl
        exact .inl rfl
      · exact .inl ⟨row, wrote, rfl, hs⟩
      · refine ⟨?_, ?_, ?_⟩
        · rintro k r (hl | hl | hl | hl | hl) <;> cases hl
          exact ho.valid.looked _ _ (.inl rfl)
        · rintro _ _ _ ⟨⟩
          exact hfl
        · rintro k r b (hl | hl) <;> cases hl
  | @records rid row wrote u hs hf hr h =>
      have hun := ho.usage_none fun _ _ _ => ⟨nofun, nofun⟩
      refine ho.putUsage hun (congrArg Prod.fst h) (congrArg Prod.snd h) ?_ ?_ ?_ nofun ?_ ?_
      · rw [← TxTable.read_of_own_none (hun rid), hr]
      · exact fun k cur v hw => hw.failing (.inr (.inl rfl)) (.inr (.inr rfl))
      · rintro k row (hl | hl | hl | hl | hl) <;> cases hl
        exact .inr (.inr (.inr (.inl rfl)))
      · exact .inr ⟨row, wrote, rfl, hs⟩
      · exact ho.valid.failing (.inr (.inl rfl)) (ho.valid.recorded rid row wrote (.inl rfl))
          (.inr rfl)
  | errs _ h => exact ho.idle_to h rfl rfl
  | escapes _ h => exact ho.idle_to h rfl rfl
  | submits hst _ _ h => exact ho.idle_to h (by rcases hst with rfl | rfl <;> rfl) rfl
  | refused hst _ _ h => exact ho.idle_to h (by rcases hst with rfl | rfl <;> rfl) rfl

/-- What a process is about to bill: there is no usage row yet, and the row
its lookup found is processing still and will be complete. -/
theorem Ledger.billed (h : Ledger w stages) {k : Uuid} {row : Option JobIdempotency}
    {wrote : Bool} (hs : stages p = .billed k row wrote) :
    w.usage.rows k = none ∧ (∃ u, w.usage.own p k = some (some u) ∧ u.status = .ok) ∧
      ∀ r, row = some r → wrote = true ∧ ∃ cur patch, w.idem.rows k = some cur ∧
        w.idem.own p k = some (some (IdemPatch.apply patch cur)) ∧
        patch.status = some .complete ∧ patch.responseUri.isSome = true := by
  have ho := h.owned p
  rw [hs] at ho
  obtain ⟨v, hv⟩ := Option.isSome_iff_exists.1 (ho.billed k row wrote rfl)
  obtain ⟨hn, u, rfl, hu⟩ := ho.usage k v hv
  have hok : u.status = .ok := by
    rcases hu with ⟨_, _, -, hu⟩ | ⟨_, _, hc, -⟩
    · exact hu
    · cases hc
  refine ⟨hn, ⟨u, hv, hok⟩, ?_⟩
  rintro r rfl
  have hset := h.looked p k r wrote (.inr (.inl hs))
  have hproc : r.status = .processing := by
    by_contra hne
    have hb := hset.billed hne
    simp [hn] at hb
  have hw : wrote = true := by
    have hfl := ho.valid.billed k (some r) wrote rfl
    simpa [Stage.flushed, hproc] using hfl
  subst hw
  obtain ⟨v, hv⟩ := Option.isSome_iff_exists.1 (ho.sent k r (.inr (.inl rfl)))
  refine ⟨rfl, ?_⟩
  have hwr := ho.idem k v hv
  generalize hc : w.idem.rows k = c at hwr
  cases hwr with
  | @completes _ _ r' cur patch hst hp =>
      have hr : r' = r := by rcases hst with hst | hst <;> cases hst; rfl
      subst hr
      simp only [IdemPatch.completes, hproc, hset.processing hproc] at hp
      exact ⟨cur, patch, rfl, hv, by simp_all, by simp_all⟩
  | fails hst => rcases hst with hst | hst | hst <;> cases hst

/-- What a process is about to record: a usage row, old or new, and the row
its lookup found is failed, or will be. -/
theorem Ledger.recorded (h : Ledger w stages) {k : Uuid} {row : Option JobIdempotency}
    {wrote : Bool} (hs : stages p = .recorded k row wrote) :
    ((w.usage.rows k).isSome = true ∨
      ∃ u, w.usage.own p k = some (some u) ∧ u.status = .error ∧ w.usage.rows k = none) ∧
      ∀ r, row = some r → (wrote = false ∧ r.status = .failed) ∨
        ∃ cur, w.idem.rows k = some cur ∧
          w.idem.own p k = some (some { cur with status := .failed }) := by
  have ho := h.owned p
  rw [hs] at ho
  refine ⟨?_, ?_⟩
  · refine (ho.recorded k row wrote rfl).symm.imp id fun hsome => ?_
    obtain ⟨v, hv⟩ := Option.isSome_iff_exists.1 hsome
    obtain ⟨hn, u, rfl, ⟨_, _, hc, -⟩ | ⟨_, _, -, hu⟩⟩ := ho.usage k v hv
    · cases hc
    · exact ⟨u, hv, hu, hn⟩
  · rintro r rfl
    cases wrote with
    | false =>
        have hfl := ho.valid.recorded k (some r) false (.inr rfl)
        exact .inl ⟨rfl, by simpa [Stage.flushed] using hfl⟩
    | true =>
        obtain ⟨v, hv⟩ := Option.isSome_iff_exists.1
          (ho.sent k r (.inr (.inr (.inr (.inr rfl)))))
        have hwr := ho.idem k v hv
        generalize hc : w.idem.rows k = c at hwr
        cases hwr with
        | completes hst _ => rcases hst with hst | hst <;> cases hst
        | @fails _ _ _ cur _ => exact .inr ⟨cur, rfl, hv⟩

/-- What a reservation is about to publish. -/
theorem Ledger.inserted (h : Ledger w stages) {t k : Uuid} (hs : stages p = .inserted t k) :
    w.idem.rows k = none ∧ ∃ apiKey hash now ttl,
      w.idem.own p k = some (some (freshRow t apiKey hash now ttl)) := by
  have ho := h.owned p
  rw [hs] at ho
  obtain ⟨v, hv⟩ := Option.isSome_iff_exists.1 (ho.inserted t k rfl)
  obtain ⟨-, hc, apiKey, hash, now, ttl, rfl⟩ := (ho.idem k v hv).inserted
  exact ⟨hc, apiKey, hash, now, ttl, hv⟩

/-- A process sees every committed usage row. -/
theorem Ledger.read_usage (h : Ledger w stages) (p : Nat) {k : Uuid} {u : UsageRecord}
    (hr : w.usage.rows k = some u) : w.usage.read p k = some u := by
  cases hown : w.usage.own p k with
  | none => rw [TxTable.read_of_own_none hown, hr]
  | some v => simp [((h.owned p).usage k v hown).1] at hr

/-- After its failure is recorded a request has a usage row. -/
theorem Ledger.recorded_usage (h : Ledger w stages) {k : Uuid} {row : Option JobIdempotency}
    {wrote : Bool} (hs : stages p = .recorded k row wrote) :
    (w.usage.read p k).isSome = true := by
  rcases (h.recorded hs).1 with hrows | ⟨u, hown, -⟩
  · obtain ⟨u, hu⟩ := Option.isSome_iff_exists.1 hrows
    simp [h.read_usage p hu]
  · simp [TxTable.read_of_own_some hown]

/-- What a commit publishes is settled. -/
theorem Ledger.settled_commit (h : Ledger w stages) (hc : (stages p).committable = true)
    (hu : w'.usage = w.usage.commit p) {k : Uuid} {row : JobIdempotency}
    (hv : w.idem.own p k = some (some row)) : Settled w' k row := by
  have hwr := (h.owned p).idem k _ hv
  generalize hcur : w.idem.rows k = c at hwr
  generalize hval : some row = v at hwr
  generalize hst₀ : stages p = st at hwr hc
  cases hwr with
  | @completes _ _ r cur patch hst hp =>
      cases hval
      rcases hst with rfl | rfl
      · cases hc
      · obtain ⟨-, ⟨u, hown, hok⟩, hrow⟩ := h.billed hst₀
        obtain ⟨-, cur', patch', hr, ho, hs, hr'⟩ := hrow r rfl
        have hst' : (patch.apply cur).status = .complete := by
          rw [ho, Option.some_inj, Option.some_inj] at hv
          rw [← hv]
          simp [IdemPatch.apply, hs]
        have hur : (patch.apply cur).responseUri.isSome = true := by
          rw [ho, Option.some_inj, Option.some_inj] at hv
          rw [← hv]
          simp [IdemPatch.apply, hr']
        refine ⟨by simp [hst'], fun _ => ⟨hur, u, ?_, hok⟩, by simp [hst']⟩
        rw [hu, TxTable.rows_commit, TxTable.read_of_own_some hown]
  | @fails _ _ r cur hst =>
      cases hval
      refine ⟨nofun, nofun, fun _ => ?_⟩
      have hst' : st = .recorded k (some r) true := by
        rcases hst with rfl | rfl | hst
        · cases hc
        · cases hc
        · exact hst
      rw [hu, TxTable.rows_commit]
      exact h.recorded_usage (hst₀.trans hst')
  | inserts =>
      cases hval
      exact ⟨fun _ => rfl, nofun, nofun⟩
  | deletes _ => cases hval

/-- A row that was just looked up is committed. -/
theorem Ledger.settled_lookup (h : Ledger w stages) (hi : (stages p).idle = true) {t k : Uuid}
    {row : JobIdempotency} (hl : w.lookupIdem p t k = some row) : Settled w k row := by
  obtain ⟨hr, -⟩ := Option.filter_eq_some_iff.1 hl
  rw [TxTable.read_of_own_none ((h.owned p).idem_none (not_writes (.inl hi)) k)] at hr
  exact h.rows k row hr

/-- The rows a stage has looked up were looked up before, or now. -/
theorem Turn.looked (h : Turn p w w' st e a st') {k : Uuid} {row : JobIdempotency}
    {wrote : Bool} (hl : st'.Looked k (some row) wrote) :
    (∃ wrote, st.Looked k (some row) wrote) ∨
      st.idle = true ∧ ∃ t, w.lookupIdem p t k = some row := by
  have hidle (hi : st'.idle = true) {P : Prop} : P :=
    absurd hl (Stage.not_looked_of_idle hi k _ _)
  cases h with
  | calm _ _ => exact .inl ⟨_, hl⟩
  | dropped _ _ => exact hidle (Stage.idle_dropped _)
  | committed hc _ => exact hidle (Stage.idle_committed hc)
  | aborted _ _ | unheard _ _ | found _ _ _ | errs _ _ | escapes _ _ | submits _ _ _ _
  | refused _ _ _ _ => exact hidle rfl
  | @completing t rid _ | @failing t rid _ =>
      refine .inr ⟨rfl, t, ?_⟩
      rcases hl with hl | hl | hl | hl | hl <;> injection hl
      next hk hr _ => exact hk ▸ hr
  | inserted _ _ _ _ | deletes _ _ _ _ | deletesNone _ =>
      rcases hl with hl | hl | hl | hl | hl <;> cases hl
  | completes _ _ _ _ =>
      rcases hl with hl | hl | hl | hl | hl <;> cases hl
      exact .inl ⟨_, .inl rfl⟩
  | bills _ _ _ _ _ =>
      rcases hl with hl | hl | hl | hl | hl <;> cases hl
      exact .inl ⟨_, .inl rfl⟩
  | fails _ _ _ | billedBefore _ _ _ | unbilled _ _ =>
      rcases hl with hl | hl | hl | hl | hl <;> cases hl
      exact .inl ⟨_, .inr (.inr (.inl rfl))⟩
  | records _ _ _ _ =>
      rcases hl with hl | hl | hl | hl | hl <;> cases hl
      exact .inl ⟨_, .inr (.inr (.inr (.inl rfl)))⟩

/-- **One await** keeps the tables in order. -/
theorem Turn.ledger (h : Turn p w w' (stages p) e a st') (hL : Ledger w stages) :
    Ledger w' (Function.update stages p st') := by
  have hm := h.tableMove
  have hk := hm.usageKept (hL.owned p)
  obtain ⟨hi, hu⟩ := hm.exclusive hL.idem hL.usage
  refine ⟨hi, hu, fun q => ?_, fun q k row wrote hl => ?_, fun k row hr => ?_⟩
  · by_cases hq : q = p
    · subst hq
      simpa using h.owned (hL.owned q)
    · simpa [hq] using (hL.owned q).other hm hL.idem hL.usage hk hq
  · by_cases hq : q = p
    · subst hq
      rw [Function.update_self] at hl
      rcases h.looked hl with ⟨b, hl⟩ | ⟨hidle, t, hl⟩
      · exact (hL.looked q k row b hl).kept hk
      · exact (hL.settled_lookup hidle hl).kept hk
    · rw [Function.update_of_ne hq] at hl
      exact (hL.looked q k row wrote hl).kept hk
  · rcases h.idem_rows k with hs | ⟨-, hc, ht, v, hv, hr'⟩
    · exact (hL.rows k row (hs ▸ hr)).kept hk
    · obtain rfl := hr'.symm.trans hr
      exact hL.settled_commit hc (congrArg Prod.snd ht) hv

end turn

/-! ## runs -/

/-- A fresh world has an orderly ledger. -/
theorem World.Fresh.ledger {w : World} (h : w.Fresh) : Ledger w fun _ => .none where
  idem := h.idem ▸ TxTable.exclusive_ofRows _
  usage := h.usage ▸ TxTable.exclusive_ofRows _
  owned p := .of_clean (fun k => by simp [h.idem]) (fun k => by simp [h.usage]) rfl
  looked p k row wrote hl := absurd hl (Stage.not_looked_of_idle rfl k _ _)
  rows k row hr := by simp [h.idem] at hr

/-- A process that ends leaves no write behind. -/
theorem Ledger.over {w w' : World} {stages : Nat → Stage} {p : Nat} (h : Ledger w stages)
    (ht : w'.tables = w.tables ∧ (stages p).idle = true ∨
      w'.tables = (w.rollback p).tables) : Ledger w' (Function.update stages p .none) := by
  have hm : TableMove p w w' := by
    rcases ht with ⟨ht, -⟩ | ht
    · exact .of_same ht
    · exact .of_rollback ht
  have hk := hm.usageKept (h.owned p)
  obtain ⟨hi, hu⟩ := hm.exclusive h.idem h.usage
  refine ⟨hi, hu, fun q => ?_, fun q k row wrote hl => ?_, fun k row hr => ?_⟩
  · by_cases hq : q = p
    · subst hq
      rw [Function.update_self]
      rcases ht with ⟨ht, hidle⟩ | ht
      · exact (h.owned q).idle_to ht hidle rfl
      · exact owned_of_closed (.inl ht) rfl
    · simpa [hq] using (h.owned q).other hm h.idem h.usage hk hq
  · by_cases hq : q = p
    · subst hq
      rw [Function.update_self] at hl
      exact absurd hl (Stage.not_looked_of_idle rfl k _ _)
    · rw [Function.update_of_ne hq] at hl
      exact (h.looked q k row wrote hl).kept hk
  · refine (h.rows k row ?_).kept hk
    rcases ht with ⟨ht, -⟩ | ht
    · rwa [show w.idem = w'.idem from (congrArg Prod.fst ht).symm]
    · rwa [show w'.idem = w.idem.rollback p from congrArg Prod.fst ht] at hr

/-- A call that may end has no transaction. -/
theorem Track.CanStop.idle {s : Track} (h : s.CanStop) : s.stage.idle = true := by
  have hf := h.2
  cases hs : s.stage <;> rw [hs] at hf <;> first | rfl | cases hf

/-- **The step lemma of the tables.** -/
theorem ledger_step {S : Settings} {w w' : World} {ph ph' : Nat → Option Track} {ev : SysEvent}
    (h : PStep (system S) (sysProtocol S) w ph ev w' ph') (hL : Ledger w (stageOf ph)) :
    Ledger w' (stageOf ph') := by
  cases h with
  | @act p s e o a _ hs hx hal =>
      have hst : stageOf ph p = s.stage := by simp [stageOf, hs]
      rw [stageOf_update_some]
      exact Turn.ledger (hst ▸ turn_of_exec hx hal) hL
  | @spawn p call hs =>
      have hst : stageOf ph p = .none := by simp [stageOf, hs]
      rw [stageOf_update_some, show ((sysProtocol S).init call).stage = .none by cases call <;> rfl]
      exact hL.over (.inl ⟨rfl, by rw [hst]; rfl⟩)
  | @done p s r hs hf =>
      have hst : stageOf ph p = s.stage := by simp [stageOf, hs]
      rw [stageOf_update_none]
      exact hL.over (.inl ⟨rfl, hst ▸ Track.CanStop.idle hf⟩)
  | @crash p s hs =>
      rw [stageOf_update_none]
      exact hL.over (.inr rfl)
  | @tick d =>
      obtain ⟨h₁, h₂, h₃, h₄, h₅⟩ := hL
      exact ⟨h₁, h₂, fun p => (h₃ p).congr rfl rfl, fun p k row b hl => (h₄ p k row b hl).kept
        fun _ _ h => h, fun k row hr => (h₅ k row hr).kept fun _ _ h => h⟩

/-- **The tables are in order** in every reachable state. -/
theorem ledger_run {S : Settings} {w₀ w : World} {ph : Nat → Option Track} {ts : List SysTrans}
    (h₀ : w₀.Fresh) (h : PTrace (system S) (sysProtocol S) w₀ ts w ph) :
    Ledger w (stageOf ph) := by
  induction h with
  | nil => exact h₀.ledger
  | snoc _ hs ih => exact ledger_step hs ih

end NeuroVoice
