import NeuroVoice.Run

/-!
# NeuroVoice.Ledger.Commit

What a step of a run can do to the committed rows of one request.

They change only when a transaction commits, and then in one of four ways
(`Publishes`): the job is completed, it is failed, it is reserved, or its
reservation is deleted.
-/

namespace NeuroVoice

/-- A commit at this stage changes the committed rows of request `k`. -/
inductive Publishes (w w' : World) (k : Uuid) : Stage → Prop where
  /-- `complete` had found no row. -/
  | billed {wrote u} (hi : w'.idem.rows k = w.idem.rows k) (hn : w.usage.rows k = none)
      (hu : w'.usage.rows k = some u) (ho : u.status = .ok) :
      Publishes w w' k (.billed k none wrote)
  | completed {row cur u} {patch : IdemPatch} (hc : w.idem.rows k = some cur)
      (hi : w'.idem.rows k = some (patch.apply cur)) (hs : patch.status = some .complete)
      (hr : patch.responseUri.isSome = true) (hn : w.usage.rows k = none)
      (hu : w'.usage.rows k = some u) (ho : u.status = .ok) :
      Publishes w w' k (.billed k (some row) true)
  /-- `fail` had found no row, or a failed one. -/
  | recorded {row wrote u} (hw : row = none ∨ wrote = false)
      (hrow : ∀ r, row = some r → r.status = .failed)
      (hi : w'.idem.rows k = w.idem.rows k) (hn : w.usage.rows k = none)
      (hu : w'.usage.rows k = some u) (he : u.status = .error) :
      Publishes w w' k (.recorded k row wrote)
  | failed {row cur u} (hc : w.idem.rows k = some cur)
      (hi : w'.idem.rows k = some { cur with status := .failed })
      (hu : w'.usage.rows k = some u)
      (hn : w.usage.rows k = some u ∨ w.usage.rows k = none ∧ u.status = .error) :
      Publishes w w' k (.recorded k (some row) true)
  | reserved {t apiKey hash now ttl} (hn : w.idem.rows k = none)
      (hi : w'.idem.rows k = some (freshRow t apiKey hash now ttl))
      (hu : w'.usage.rows k = w.usage.rows k) : Publishes w w' k (.inserted t k)
  | deleted {t cur} (hc : w.idem.rows k = some cur) (ht : cur.tenantId = t)
      (hi : w'.idem.rows k = none) (hu : w'.usage.rows k = w.usage.rows k) :
      Publishes w w' k (.deleting t k)

section commit

variable {w w' : World} {stages : Nat → Stage} {p : Nat} {k : Uuid}

/-- A process that is not about to bill or to record has no usage row to
publish. -/
theorem Owned.usage_own_none {st : Stage} (ho : Owned w p st)
    (hst : ∀ row wrote, st ≠ .billed k row wrote ∧ st ≠ .recorded k row wrote) :
    w.usage.own p k = none := by
  cases hv : w.usage.own p k with
  | none => rfl
  | some v =>
      obtain ⟨-, u, -, ⟨row, wrote, hs, -⟩ | ⟨row, wrote, hs, -⟩⟩ := ho.usage k v hv
      · exact absurd hs (hst row wrote).1
      · exact absurd hs (hst row wrote).2

/-- A process whose stage writes nothing there leaves a row of
`job_idempotency` as it is. -/
theorem Owned.idem_own_none {st : Stage} (ho : Owned w p st)
    (hst : ∀ cur v, ¬Writes st k cur v) : w.idem.own p k = none := by
  cases hv : w.idem.own p k with
  | none => rfl
  | some v => exact absurd (ho.idem k v hv) (hst _ v)

/-- The failure transaction of a row it does not have to fail writes
nothing. -/
theorem not_writes_recorded {rid : Uuid} {row : Option JobIdempotency} {wrote : Bool}
    (h : rid ≠ k ∨ row = none ∨ wrote = false) (cur v : Option JobIdempotency) :
    ¬Writes (.recorded rid row wrote) k cur v := by
  intro hw
  cases hw with
  | completes hst _ => rcases hst with hst | hst <;> cases hst
  | fails hst =>
      rcases hst with hst | hst | hst <;> cases hst
      rcases h with h | h | h <;> first | exact h rfl | cases h

theorem not_writes_billed {rid : Uuid} {row : Option JobIdempotency} {wrote : Bool}
    (h : rid ≠ k ∨ row = none) (cur v : Option JobIdempotency) :
    ¬Writes (.billed rid row wrote) k cur v := by
  intro hw
  cases hw with
  | completes hst _ =>
      rcases hst with hst | hst <;> cases hst
      rcases h with h | h <;> first | exact h rfl | cases h
  | fails hst => rcases hst with hst | hst | hst <;> cases hst

/-- **What a commit publishes.** -/
theorem Ledger.publishes (h : Ledger w stages) (hc : (stages p).committable = true)
    (ht : w'.tables = (w.commit p).tables) :
    (w'.idem.rows k = w.idem.rows k ∧ w'.usage.rows k = w.usage.rows k) ∨
      Publishes w w' k (stages p) := by
  have hi : w'.idem.rows k = w.idem.read p k := by
    rw [show w'.idem = w.idem.commit p from congrArg Prod.fst ht, TxTable.rows_commit]
  have hu : w'.usage.rows k = w.usage.read p k := by
    rw [show w'.usage = w.usage.commit p from congrArg Prod.snd ht, TxTable.rows_commit]
  have hi₀ (hn : w.idem.own p k = none) : w'.idem.rows k = w.idem.rows k :=
    hi.trans (TxTable.read_of_own_none hn)
  have hu₀ (hn : w.usage.own p k = none) : w'.usage.rows k = w.usage.rows k :=
    hu.trans (TxTable.read_of_own_none hn)
  have ho := h.owned p
  have hidle (hs : (stages p).idle = true) :
      w'.idem.rows k = w.idem.rows k ∧ w'.usage.rows k = w.usage.rows k :=
    ⟨hi₀ (ho.idem_own_none fun cur v => not_writes (.inl hs) k cur v),
      hu₀ (ho.usage_own_none (Stage.not_billing_of_idle hs k))⟩
  cases hs : stages p with
  | billed rid row wrote =>
      rw [hs] at ho
      by_cases hk : rid = k
      swap
      · refine .inl ⟨hi₀ (ho.idem_own_none (not_writes_billed (.inl hk))),
          hu₀ (ho.usage_own_none fun _ _ => ⟨?_, by simp⟩)⟩
        rintro ⟨⟩
        exact hk rfl
      subst hk
      obtain ⟨hn, ⟨u, hown, hok⟩, hrow⟩ := h.billed hs
      have hu₁ : w'.usage.rows rid = some u := hu.trans (TxTable.read_of_own_some hown)
      cases row with
      | none =>
          exact .inr (.billed (hi₀ (ho.idem_own_none (not_writes_billed (.inr rfl)))) hn hu₁ hok)
      | some r =>
          obtain ⟨rfl, cur, patch, hcur, hv, hp, hr⟩ := hrow r rfl
          exact .inr (.completed hcur (hi.trans (TxTable.read_of_own_some hv)) hp hr hn hu₁ hok)
  | recorded rid row wrote =>
      rw [hs] at ho
      by_cases hk : rid = k
      swap
      · refine .inl ⟨hi₀ (ho.idem_own_none (not_writes_recorded (.inl hk))),
          hu₀ (ho.usage_own_none fun _ _ => ⟨by simp, ?_⟩)⟩
        rintro ⟨⟩
        exact hk rfl
      subst hk
      obtain ⟨-, hrow⟩ := h.recorded hs
      have husage : (w'.usage.rows rid = w.usage.rows rid ∧ (w.usage.rows rid).isSome = true) ∨
          ∃ u, w'.usage.rows rid = some u ∧ w.usage.rows rid = none ∧ u.status = .error := by
        cases hv : w.usage.own p rid with
        | none =>
            refine .inl ⟨hu₀ hv, ?_⟩
            rcases ho.recorded rid row wrote rfl with hsome | hsome
            · simp [hv] at hsome
            · exact hsome
        | some v =>
            obtain ⟨hn, u, rfl, ⟨_, _, hb, -⟩ | ⟨_, _, -, he⟩⟩ := ho.usage rid v hv
            · cases hb
            · exact .inr ⟨u, hu.trans (TxTable.read_of_own_some hv), hn, he⟩
      have hfresh (hrow : row = none ∨ wrote = false) (hf : ∀ r, row = some r → r.status = .failed) :
          (w'.idem.rows rid = w.idem.rows rid ∧ w'.usage.rows rid = w.usage.rows rid) ∨
            Publishes w w' rid (.recorded rid row wrote) := by
        have hsame := hi₀ (ho.idem_own_none (not_writes_recorded (.inr hrow)))
        rcases husage with ⟨hsu, -⟩ | ⟨u, hu₁, hn, he⟩
        · exact .inl ⟨hsame, hsu⟩
        · exact .inr (.recorded hrow hf hsame hn hu₁ he)
      cases row with
      | none => exact hfresh (.inl rfl) (by simp)
      | some r =>
          rcases hrow r rfl with ⟨rfl, hf⟩ | ⟨cur, hcur, hv⟩
          · exact hfresh (.inr rfl) (by rintro _ ⟨⟩; exact hf)
          · cases wrote with
            | false => simp [ho.idem_own_none (not_writes_recorded (.inr (.inr rfl)))] at hv
            | true =>
                have hi₁ := hi.trans (TxTable.read_of_own_some hv)
                refine .inr ?_
                rcases husage with ⟨hsu, hsome⟩ | ⟨u, hu₁, hn, he⟩
                · obtain ⟨u, hu₁⟩ := Option.isSome_iff_exists.1 hsome
                  exact .failed hcur hi₁ (hsu.trans hu₁) (.inl hu₁)
                · exact .failed hcur hi₁ hu₁ (.inr ⟨hn, he⟩)
  | inserted t rid =>
      rw [hs] at ho
      have hsu := hu₀ (ho.usage_own_none fun _ _ => ⟨by simp, by simp⟩)
      by_cases hk : rid = k
      · subst hk
        obtain ⟨hn, apiKey, hash, now, ttl, hv⟩ := h.inserted hs
        exact .inr (.reserved hn (hi.trans (TxTable.read_of_own_some hv)) hsu)
      · exact .inl ⟨hi₀ (ho.idem_own_none fun cur v hw => hk hw.inserted.1.symm), hsu⟩
  | deleting t rid =>
      rw [hs] at ho
      have hsu := hu₀ (ho.usage_own_none fun _ _ => ⟨by simp, by simp⟩)
      cases hv : w.idem.own p k with
      | none => exact .inl ⟨hi₀ hv, hsu⟩
      | some v =>
          have hw := ho.idem k v hv
          generalize hcur : w.idem.rows k = c at hw
          cases hw with
          | completes hst _ => rcases hst with hst | hst <;> cases hst
          | fails hst => rcases hst with hst | hst | hst <;> cases hst
          | deletes hten => exact .inr (.deleted hcur hten (hi.trans (TxTable.read_of_own_some hv)) hsu)
  | completing _ _ _ | failing _ _ _ | unbilled _ _ _ | erred _ => rw [hs] at hc; cases hc
  | _ => exact .inl (hidle (by rw [hs]; rfl))

end commit

/-- **What a step publishes**: nothing, unless a transaction commits. -/
theorem Next.published {S : Settings} {w₀ w w' : World} {ts : List SysTrans} {ev : SysEvent}
    (hr : Run S w₀ ts w) (h : Next S ts w ev w') (k : Uuid) :
    (w'.idem.rows k = w.idem.rows k ∧ w'.usage.rows k = w.usage.rows k) ∨
      ∃ p a, ev = .act p .commit a ∧ Publishes w w' k (stage p ts) := by
  by_cases hev : ∃ p e a, ev = .act p e a
  swap
  · obtain ⟨hi, hu, -⟩ := h.quiet fun p e a he => hev ⟨p, e, a, he⟩
    exact .inl ⟨congrFun hi k, congrFun hu k⟩
  obtain ⟨p, e, a, rfl⟩ := hev
  rcases h.turn.rows with ⟨hi, hu⟩ | ⟨rfl, hc, ht⟩
  · exact .inl ⟨congrFun hi k, congrFun hu k⟩
  · exact (hr.ledger.publishes hc ht).imp_right fun hp => ⟨p, a, rfl, hp⟩

/-! ## the state of a request -/

/-- The row of the request is committed and complete. -/
def isComplete (k : Uuid) (w : World) : Bool :=
  (w.idem.rows k).any fun row => row.status = .complete

/-- … and failed. -/
def isFailed (k : Uuid) (w : World) : Bool :=
  (w.idem.rows k).any fun row => row.status = .failed

/-- The request has a committed `ok` usage row. -/
def isBilled (k : Uuid) (w : World) : Bool :=
  (w.usage.rows k).any fun u => u.status = .ok

/-- The request has a committed row that has not expired. -/
def isUnexpired (k : Uuid) (w : World) : Bool :=
  (w.idem.rows k).any fun row => w.now < row.expiresAt

theorem isBilled_iff {k : Uuid} {w : World} :
    isBilled k w = true ↔ ∃ u, w.usage.rows k = some u ∧ u.status = .ok := by
  simp [isBilled, Option.any_eq_true]

theorem isComplete_iff {k : Uuid} {w : World} :
    isComplete k w = true ↔ ∃ row, w.idem.rows k = some row ∧ row.status = .complete := by
  simp [isComplete, Option.any_eq_true]

/-- A complete row is billed. -/
theorem Run.billed_of_complete {S : Settings} {w₀ w : World} {ts : List SysTrans} {k : Uuid}
    (h : Run S w₀ ts w) (hc : isComplete k w = true) :
    isBilled k w = true := by
  obtain ⟨row, hr, hs⟩ := isComplete_iff.1 hc
  exact isBilled_iff.2 ((h.ledger.rows k row hr).complete hs).2

end NeuroVoice
