import NeuroVoice.Ack
import NeuroVoice.Errand

/-!
# NeuroVoice.Retry

When a job is given up.

A worker gives a job up when Redis reports `max_retries` deliveries of its
entry.  `given_up_late` ties that to what happened: no dead-letter entry counts
more deliveries than there were, one that says that a job's retries are used up
was written after `max_retries` deliveries at least, and an entry is only
acknowledged without success for a payload that cannot be decoded, for poison,
or after as many deliveries.
-/

namespace NeuroVoice

/-! ## deliveries -/

namespace JobsStream

/-- How often Redis has counted entry `e` as delivered. -/
def timesOf (s : JobsStream) (e : Nat) : Nat := ((s.pending? e).map PelRow.times).getD 0

/-- The pending entries list has one row an entry, and every entry in it was
delivered. -/
structure Tidy (s : JobsStream) : Prop where
  nodup : (s.pel.map PelRow.entry).Nodup
  delivered : ∀ r ∈ s.pel, r.entry ≤ s.lastDelivered

variable {s : JobsStream} {e : Nat}

theorem timesOf_congr {s' : JobsStream} (h : s'.pel = s.pel) : s'.timesOf e = s.timesOf e := by
  simp [timesOf, pending?, h]

theorem Tidy.congr {s' : JobsStream} (h : s.Tidy) (hpel : s'.pel = s.pel)
    (hlast : s'.lastDelivered = s.lastDelivered) : s'.Tidy :=
  ⟨hpel ▸ h.nodup, hpel ▸ hlast ▸ h.delivered⟩

/-- The count in a list of rows. -/
def countIn (rows : List PelRow) (e : Nat) : Nat :=
  ((rows.find? fun r => r.entry = e).map PelRow.times).getD 0

theorem timesOf_eq (s : JobsStream) (e : Nat) : s.timesOf e = countIn s.pel e := rfl

@[simp] theorem countIn_nil (e : Nat) : countIn [] e = 0 := rfl

theorem countIn_cons (r : PelRow) (rows : List PelRow) (e : Nat) :
    countIn (r :: rows) e = if r.entry = e then r.times else countIn rows e := by
  by_cases h : r.entry = e <;> simp [countIn, h]

theorem countIn_absent {rows : List PelRow} (h : e ∉ rows.map PelRow.entry) :
    countIn rows e = 0 := by
  induction rows with
  | nil => rfl
  | cons r rows ih =>
      simp only [List.map_cons, List.mem_cons, not_or] at h
      rw [countIn_cons, if_neg (Ne.symm h.1), ih h.2]

theorem countIn_append_absent {rows rows' : List PelRow} (h : e ∉ rows.map PelRow.entry) :
    countIn (rows ++ rows') e = countIn rows' e := by
  induction rows with
  | nil => rfl
  | cons r rows ih =>
      simp only [List.map_cons, List.mem_cons, not_or] at h
      rw [List.cons_append, countIn_cons, if_neg (Ne.symm h.1), ih h.2]

theorem countIn_append_le (rows : List PelRow) (r : PelRow) (hne : r.entry ≠ e) :
    countIn (rows ++ [r]) e = countIn rows e := by
  induction rows with
  | nil => rw [List.nil_append, countIn_cons, if_neg hne]
  | cons x rows ih => rw [List.cons_append, countIn_cons, countIn_cons, ih]

/-- A filter of the rows forgets at most. -/
theorem countIn_filter_le (rows : List PelRow) (a : Nat) :
    countIn (rows.filter fun r => r.entry ≠ a) e ≤ countIn rows e := by
  induction rows with
  | nil => exact le_rfl
  | cons r rows ih =>
      by_cases ha : r.entry = a
      · rw [List.filter_cons_of_neg (by simpa using ha), countIn_cons]
        split
        · next he =>
            have hgone : countIn (rows.filter fun r => r.entry ≠ a) e = 0 :=
              countIn_absent (by simp [← he, ha])
            omega
        · exact ih
      · rw [List.filter_cons_of_pos (by simpa using ha), countIn_cons, countIn_cons]
        split
        · exact le_rfl
        · exact ih

/-! ### the operations -/

theorem Tidy.ack (h : s.Tidy) (a : Nat) : (s.ack a).Tidy where
  nodup := (h.nodup.sublist ((List.filter_sublist).map _))
  delivered r hr := h.delivered r (List.mem_of_mem_filter hr)

theorem timesOf_ack_le (s : JobsStream) (a e : Nat) : (s.ack a).timesOf e ≤ s.timesOf e :=
  countIn_filter_le s.pel a

theorem Tidy.deliver (h : s.Tidy) {now : Nat} {consumer : PyStr} {d : Nat × EntryFields}
    (hnext : s.next? = some d) : (s.deliver now consumer d.1).Tidy := by
  have hlt : s.lastDelivered < d.1 := by simpa using List.find?_some hnext
  constructor
  · have hnew : d.1 ∉ s.pel.map PelRow.entry := by
      rintro hmem
      obtain ⟨r, hr, hre⟩ := List.mem_map.1 hmem
      have := h.delivered r hr
      omega
    simp only [JobsStream.deliver, List.map_append, List.map_cons, List.map_nil]
    exact List.nodup_append.2 ⟨h.nodup, by simp, by
      rintro a ha b hb rfl
      exact hnew (by simpa [List.mem_singleton.1 hb] using ha)⟩
  · intro r hr
    simp only [JobsStream.deliver, List.mem_append, List.mem_singleton] at hr ⊢
    obtain hr | rfl := hr
    · exact (h.delivered r hr).trans hlt.le
    · exact le_rfl

theorem timesOf_deliver (h : s.Tidy) (now : Nat) (consumer : PyStr) {d : Nat × EntryFields}
    (hnext : s.next? = some d) :
    (s.deliver now consumer d.1).timesOf e = if e = d.1 then s.timesOf e + 1 else s.timesOf e := by
  have hlt : s.lastDelivered < d.1 := by simpa using List.find?_some hnext
  have hnew : d.1 ∉ s.pel.map PelRow.entry := by
    rintro hmem
    obtain ⟨r, hr, hre⟩ := List.mem_map.1 hmem
    have := h.delivered r hr
    omega
  split
  · next he =>
      subst he
      rw [timesOf_eq, timesOf_eq, JobsStream.deliver, countIn_append_absent hnew,
        countIn_absent hnew, countIn_cons, if_pos rfl]
  · next he => exact countIn_append_le _ _ (Ne.symm he)

/-- A scan claims an entry of its rows, and keeps the others or drops them. -/
theorem claimScan_rows (s : JobsStream) (now minIdle : Nat) (consumer : PyStr) (n : Nat)
    (rows : List PelRow) :
    let r := s.claimScan now minIdle consumer n rows
    (r.1.map PelRow.entry).Sublist (rows.map PelRow.entry) ∧
      ∀ d, r.2 = some d → d.1 ∈ rows.map PelRow.entry := by
  fun_induction JobsStream.claimScan s now minIdle consumer n rows with
  | case1 rows => simp
  | case2 n hn => simp
  | case3 n r rs hfind => simp
  | case4 n r rs f hfind hidle => simp
  | case5 n r rs f hfind hidle rs' got hgot ih =>
      rw [hgot] at ih
      exact ⟨ih.1.cons_cons _, fun d hd => List.mem_cons_of_mem _ (ih.2 d hd)⟩

/-- A scan counts the entry it claims once more, and no other. -/
theorem countIn_claimScan (s : JobsStream) (now minIdle : Nat) (consumer : PyStr) (n : Nat)
    {rows : List PelRow} (h : (rows.map PelRow.entry).Nodup) (e : Nat) :
    let r := s.claimScan now minIdle consumer n rows
    (r.2.map Prod.fst = some e → countIn r.1 e = countIn rows e + 1) ∧
      (r.2.map Prod.fst ≠ some e → countIn r.1 e ≤ countIn rows e) := by
  fun_induction JobsStream.claimScan s now minIdle consumer n rows with
  | case1 rows => simp
  | case2 n hn => simp
  | case3 n r rs hfind =>
      obtain ⟨hr, hrs⟩ := List.nodup_cons.1 h
      refine ⟨fun hnone => by simp at hnone, fun _ => ?_⟩
      rw [countIn_cons]
      split
      · next he =>
          rw [countIn_absent (he ▸ hr)]
          exact Nat.zero_le _
      · exact le_rfl
  | case4 n r rs f hfind hidle =>
      simp only [Option.map_some, Option.some.injEq, countIn_cons, ne_eq]
      by_cases he : r.entry = e <;> simp [he]
  | case5 n r rs f hfind hidle rs' got hgot ih =>
      obtain ⟨hr, hrs⟩ := List.nodup_cons.1 h
      obtain ⟨heq, hle⟩ := ih hrs
      have hmem := (claimScan_rows s now minIdle consumer n rs).2
      rw [hgot] at heq hle hmem
      simp only [countIn_cons]
      split
      · next he =>
          refine ⟨fun hgot => ?_, fun _ => le_rfl⟩
          obtain ⟨d, hd, rfl⟩ := Option.map_eq_some_iff.1 hgot
          exact absurd (he ▸ hmem d hd) hr
      · exact ⟨heq, hle⟩

theorem Tidy.claim (h : s.Tidy) (now minIdle : Nat) (consumer : PyStr) :
    (s.claim now minIdle consumer).1.Tidy := by
  have hrows := (s.claimScan_rows now minIdle consumer 10 s.pel).1
  refine ⟨h.nodup.sublist hrows, fun r hr => ?_⟩
  obtain ⟨r', hr', he⟩ := List.mem_map.1 (hrows.subset (List.mem_map_of_mem hr))
  exact he ▸ h.delivered r' hr'

end JobsStream

/-- Redis has handed entry `e` out; its reply may be lost. -/
def handsOut (e : Nat) (t : SysTrans) : Bool :=
  match t.ev with
  | .act _ (.xreadgroup _) _ | .act _ (.xautoclaim _ _) _ =>
      t.pre.jobs.timesOf e < t.post.jobs.timesOf e
  | _ => false

/-- How often entry `e` has been handed out. -/
def deliveries (e : Nat) (ts : List SysTrans) : Nat := ts.countP (handsOut e)

theorem deliveries_snoc (e : Nat) (ts : List SysTrans) (t : SysTrans) :
    deliveries e (ts ++ [t]) = deliveries e ts + if handsOut e t = true then 1 else 0 := by
  simp [deliveries, List.countP_append, List.countP_cons]

theorem deliveries_mono (e : Nat) (ts us : List SysTrans) :
    deliveries e ts ≤ deliveries e (ts ++ us) := by
  simp [deliveries, List.countP_append]

section step

variable {p : Nat} {x : Eff} {o : Oracle} {w w' : World} {a : Ans x}

/-- What an await does to the counts: only a read or a claim adds to them, and
adds one. -/
theorem perform_tidy {h : Hint} {r : Except Foreign (Ret x)} (hx : perform p x h w = some (r, w'))
    (htidy : w.jobs.Tidy) :
    w'.jobs.Tidy ∧ ∀ e, w'.jobs.timesOf e ≤ w.jobs.timesOf e ∨
      w'.jobs.timesOf e = w.jobs.timesOf e + 1 ∧
        ((∃ c, x = .xreadgroup c) ∨ ∃ c m, x = .xautoclaim c m) := by
  have hframe (hpel : w'.jobs.pel = w.jobs.pel)
      (hlast : w'.jobs.lastDelivered = w.jobs.lastDelivered) :
      w'.jobs.Tidy ∧ ∀ e, w'.jobs.timesOf e ≤ w.jobs.timesOf e ∨
        w'.jobs.timesOf e = w.jobs.timesOf e + 1 ∧
          ((∃ c, x = .xreadgroup c) ∨ ∃ c m, x = .xautoclaim c m) :=
    ⟨htidy.congr hpel hlast, fun e => .inl (JobsStream.timesOf_congr hpel).le⟩
  cases x with
  | xreadgroup c =>
      simp only [perform] at hx
      split at hx
      · next d f hnext =>
          cases hx
          refine ⟨htidy.deliver hnext, fun e => ?_⟩
          rw [JobsStream.timesOf_deliver htidy _ _ hnext]
          split
          · exact .inr ⟨rfl, .inl ⟨c, rfl⟩⟩
          · exact .inl le_rfl
      · cases hx
        exact hframe rfl rfl
  | xautoclaim c m =>
      simp only [perform] at hx
      cases hx
      refine ⟨htidy.claim _ _ _, fun e => ?_⟩
      obtain ⟨heq, hle⟩ := JobsStream.countIn_claimScan w.jobs w.now m c 10 htidy.nodup e
      by_cases hgot : ((w.jobs.claimScan w.now m c 10 w.jobs.pel).2.map Prod.fst) = some e
      · exact .inr ⟨heq hgot, .inr ⟨c, m, rfl⟩⟩
      · exact .inl (hle hgot)
  | xack n =>
      simp only [perform] at hx
      cases hx
      exact ⟨htidy.ack n, fun e => .inl (JobsStream.timesOf_ack_le _ n e)⟩
  | _ => refine hframe ?_ ?_ <;> grind [perform, World.rollback, World.commit, JobsStream.add]

theorem exec_tidy (hx : exec p x o w = some (a, w')) (htidy : w.jobs.Tidy) :
    w'.jobs.Tidy ∧ ∀ e, w'.jobs.timesOf e ≤ w.jobs.timesOf e +
      if handsOut e ⟨w, .act p x a, w'⟩ = true then 1 else 0 := by
  obtain ⟨hint, r, hp⟩ | rfl := exec_performed hx
  · obtain ⟨ht, htimes⟩ := perform_tidy hp htidy
    refine ⟨ht, fun e => ?_⟩
    obtain hle | ⟨heq, hx⟩ := htimes e
    · omega
    · have hout : handsOut e ⟨w, .act p x a, w'⟩ = true := by
        obtain ⟨c, rfl⟩ | ⟨c, m, rfl⟩ := hx <;> simp [handsOut, heq]
      rw [if_pos hout, heq]
  · split
    · exact ⟨htidy, fun e => Nat.le_add_right _ _⟩
    · exact ⟨htidy, fun e => Nat.le_add_right _ _⟩

/-- A delivery that a worker has got has been handed out. -/
theorem handsOut_of_read {c : PyStr} {d : Nat × EntryFields}
    (hx : exec p (.xreadgroup c) o w = some (.ok (some d), w')) (htidy : w.jobs.Tidy) :
    handsOut d.1 ⟨w, .act p (.xreadgroup c) (.ok (some d)), w'⟩ = true := by
  obtain ⟨hint, hp⟩ := exec_ok hx
  simp only [perform] at hp
  split at hp
  · next d' f hnext =>
      cases hp
      have htimes : (w.jobs.deliver w.now c d').timesOf d' = w.jobs.timesOf d' + 1 := by
        rw [JobsStream.timesOf_deliver htidy w.now c hnext, if_pos rfl]
      simp [handsOut, htimes]
  · cases hp

theorem handsOut_of_claim {c : PyStr} {m : Nat} {d : Nat × EntryFields}
    (hx : exec p (.xautoclaim c m) o w = some (.ok (some d), w')) (htidy : w.jobs.Tidy) :
    handsOut d.1 ⟨w, .act p (.xautoclaim c m) (.ok (some d)), w'⟩ = true := by
  obtain ⟨hint, hp⟩ := exec_ok hx
  simp only [perform, Option.some.injEq, Prod.mk.injEq, Except.ok.injEq] at hp
  obtain ⟨hgot, rfl⟩ := hp
  have htimes := (JobsStream.countIn_claimScan w.jobs w.now m c 10 htidy.nodup d.1).1 (by
    rw [show (w.jobs.claimScan w.now m c 10 w.jobs.pel).2 = some d from hgot]
    rfl)
  simp only [handsOut, decide_eq_true_eq]
  exact Nat.lt_of_lt_of_eq (Nat.lt_succ_self _) htimes.symm

end step

/-! ## a run -/

/-- `mark_terminal_failure`, called by the pipeline for entry `e`, commits: the
pipeline then raises poison. -/
def PoisonsEntry (e : Nat) (past : List SysTrans) (t : SysTrans) : Prop :=
  FailsEntry e past t ∧ ∃ p a s, t.ev = .act p .commit a ∧ track p past = some s ∧ s.left = false

/-- An entry is given up in time: what the step does to a dead-letter entry, or
to an entry it acknowledges. -/
structure GivesUpLate (S : Settings) (past : List SysTrans) (t : SysTrans) : Prop where
  /-- The dead letter is what the stream held, and does not overstate its
  deliveries. -/
  dlq : ∀ p d a, t.ev = .act p (.xaddDlq d) a →
    (∃ u ∈ past, (d.entryId, d.payload) ∈ u.pre.jobs.entries) ∧
      d.deliveryCount ≤ deliveries d.entryId past ∧
      (d.spent → S.maxRetries ≤ d.deliveryCount)
  /-- A client is told of a failure by the pipeline, or when the job is given up. -/
  tell : ∀ p r a s e f, t.ev = .act p (.xaddResult r) a → track p past = some s →
    s.held = some (e, f) → s.left = false ∨ S.maxRetries ≤ deliveries e past
  ack : ∀ p e a, t.ev = .act p (.xack e) a →
    Once (CompletesEntry e) past ∨ Once (PoisonsEntry e) past ∨ Once (ArchivesEntry e) past ∨
      S.maxRetries ≤ deliveries e past

section run

variable {S : Settings} {w₀ w w' : World} {ts : List SysTrans} {ev : SysEvent}
  {c : Config World Eff Ans Outcome}

/-- What Redis and the workers know of deliveries has happened. -/
structure Reckoned (S : Settings) (ts : List SysTrans) (w : World) : Prop where
  tidy : w.jobs.Tidy
  times : ∀ e, w.jobs.timesOf e ≤ deliveries e ts
  seen : ∀ p s d, errand S p ts = some s → s.held = some d →
    1 ≤ deliveries d.1 ts ∧ s.seen ≤ deliveries d.1 ts
  held : ∀ p s d, errand S p ts = some s → s.held = some d → ∃ u ∈ ts, d ∈ u.pre.jobs.entries

theorem World.Fresh.reckoned (h : w₀.Fresh) : Reckoned S [] w₀ where
  tidy := ⟨by simp [h.pel], by simp [h.pel]⟩
  times e := by simp [JobsStream.timesOf, JobsStream.pending?, h.pel]
  seen p s d hs := by simp at hs
  held p s d hs := by simp at hs

/-- An event that is no await, and leaves the stream alone. -/
theorem Reckoned.frame (h : Reckoned S ts w) (hev : ∀ p e a, ev ≠ .act p e a)
    (hjobs : w'.jobs = w.jobs) : Reckoned S (ts ++ [⟨w, ev, w'⟩]) w' where
  tidy := hjobs ▸ h.tidy
  times e := hjobs ▸ (h.times e).trans (deliveries_mono e ts _)
  seen p s d hs hd := by
    obtain ⟨hone, hseen⟩ := h.seen p s d (errand_quiet hev hs hd) hd
    exact ⟨hone.trans (deliveries_mono d.1 ts _), hseen.trans (deliveries_mono d.1 ts _)⟩
  held p s d hs hd := by
    obtain ⟨u, hu, hmem⟩ := h.held p s d (errand_quiet hev hs hd) hd
    exact ⟨u, List.mem_append_left _ hu, hmem⟩

/-- What a worker is told, and what it is handed, has been counted. -/
theorem Reckoned.told (h : Reckoned S ts w) {p : Nat} {x : Eff} {o : Oracle} {a : Ans x} {s : Errand}
    {d : Nat × EntryFields} (hs : errand S p ts = some s) (hx : exec p x o w = some (a, w'))
    (hal : s.Allows S.maxRetries x) (hd : (s.next x a).held = some d) :
    1 ≤ deliveries d.1 (ts ++ [⟨w, .act p x a, w'⟩]) ∧
      (s.next x a).seen ≤ deliveries d.1 (ts ++ [⟨w, .act p x a, w'⟩]) := by
  have hold (hd : s.held = some d) : 1 ≤ deliveries d.1 (ts ++ [⟨w, .act p x a, w'⟩]) ∧
      s.seen ≤ deliveries d.1 (ts ++ [⟨w, .act p x a, w'⟩]) := by
    obtain ⟨hone, hseen⟩ := h.seen p s d hs hd
    exact ⟨hone.trans (deliveries_mono d.1 ts _), hseen.trans (deliveries_mono d.1 ts _)⟩
  cases a with
  | error y => exact hold hd
  | ok b =>
      cases x with
      | xreadgroup c =>
          cases b with
          | none => exact hold hd
          | some d' =>
              cases hd
              rw [deliveries_snoc, if_pos (handsOut_of_read hx h.tidy)]
              exact ⟨Nat.le_add_left _ _, Nat.le_add_left _ _⟩
      | xautoclaim c m =>
          cases b with
          | none => exact hold hd
          | some d' =>
              cases hd
              rw [deliveries_snoc, if_pos (handsOut_of_claim hx h.tidy)]
              exact ⟨Nat.le_add_left _ _, Nat.le_add_left _ _⟩
      | xpendingRange e =>
          obtain ⟨hone, hseen⟩ := hold hd
          obtain ⟨f, hheld⟩ := hal
          cases hheld.symm.trans hd
          have htold : WorkerConsumer.countOf ((w.jobs.pending? e).map PelRow.times) ≤
              deliveries e ts := by
            -- the count is the row's, or 1 without a row
            have hone := (h.seen p s _ hs hheld).1
            have htimes := h.times e
            unfold JobsStream.timesOf at htimes
            generalize (w.jobs.pending? e).map PelRow.times = n at htimes ⊢
            rcases n with _ | _ | n
            · exact hone
            · exact hone
            · exact htimes
          obtain ⟨hint, hp⟩ := exec_ok hx
          cases hp
          exact ⟨hone, max_le hseen (htold.trans (deliveries_mono e ts _))⟩
      | handled e => cases hd
      | _ => exact hold hd

/-- The step lemma of `given_up_late`. -/
theorem Reckoned.next (h : Reckoned S ts w) (hn : Next S ts w ev w')
    (hW : StepSeen (system S) (errandProtocol S) ts w ev w') :
    Reckoned S (ts ++ [⟨w, ev, w'⟩]) w' := by
  cases ev with
  | act p x a =>
      obtain ⟨s, o, hs, hx, hal⟩ := hW.act_inv
      obtain ⟨htidy, htimes⟩ := exec_tidy hx h.tidy
      refine ⟨htidy, fun e => ?_, fun q r d hq hd => ?_, fun q r d hq hd => ?_⟩
      · rw [deliveries_snoc]
        exact (htimes e).trans (Nat.add_le_add_right (h.times e) _)
      · rw [errand, Protocol.watch_snoc] at hq
        simp only [Protocol.observe] at hq
        split at hq
        · next hpq =>
            subst hpq
            rw [hs, Option.map_some] at hq
            cases hq
            exact h.told hs hx hal hd
        · obtain ⟨hone, hseen⟩ := h.seen q r d hq hd
          exact ⟨hone.trans (deliveries_mono d.1 ts _), hseen.trans (deliveries_mono d.1 ts _)⟩
      · rw [errand, Protocol.watch_snoc] at hq
        simp only [Protocol.observe] at hq
        have hold {s₀ : Errand} (hs₀ : errand S q ts = some s₀) (hd₀ : s₀.held = some d) :
            ∃ u ∈ ts ++ [⟨w, .act p x a, w'⟩], d ∈ u.pre.jobs.entries := by
          obtain ⟨u, hu, hmem⟩ := h.held q s₀ d hs₀ hd₀
          exact ⟨u, List.mem_append_left _ hu, hmem⟩
        split at hq
        · next hpq =>
            subst hpq
            rw [hs, Option.map_some] at hq
            cases hq
            cases a with
            | error y => exact hold hs hd
            | ok b =>
                obtain hd | hmem := exec_delivered hx hd
                · exact hold hs hd
                · exact ⟨⟨w, .act p x (.ok b), w'⟩, by simp, hmem⟩
        · exact hold hq hd
  | spawn p call =>
      obtain ⟨-, rfl⟩ := hn.spawn
      exact h.frame (by simp) rfl
  | done p r =>
      obtain ⟨-, -, -, rfl⟩ := hn.done
      exact h.frame (by simp) rfl
  | crash p =>
      obtain ⟨-, -, rfl⟩ := hn.crash
      exact h.frame (by simp) rfl
  | tick d =>
      obtain rfl := hn.tick
      exact h.frame (by simp) rfl

/-- What is done after `process_one_job` is done for a job whose deliveries are
used up. -/
theorem Reckoned.late (h : Reckoned S ts w) {p e : Nat} {f : EntryFields} {k : Track}
    (hk : track p ts = some k) (hheld : k.held = some (e, f)) {s : Errand}
    (hs : errand S p ts = some s) (hal : s.left = true → S.maxRetries ≤ s.seen) :
    k.left = false ∨ S.maxRetries ≤ deliveries e ts := by
  obtain ⟨hd, hl⟩ := errand_eq_track hk hs
  cases hleft : k.left with
  | false => exact .inl rfl
  | true => exact .inr ((hal (hl.trans hleft)).trans (h.seen p s (e, f) hs (hd.trans hheld)).2)

/-- An acknowledgement is one of the four. -/
theorem givesUpLate_ack {e : Nat} {k : Track} (hacc : Accounted ts k e) (hset : k.settled = true)
    (hfails : Always (fun past t => ∀ e, FailsEntry e past t → PoisonsEntry e past t ∨
      S.maxRetries ≤ deliveries e past) ts) :
    Once (CompletesEntry e) ts ∨ Once (PoisonsEntry e) ts ∨ Once (ArchivesEntry e) ts ∨
      S.maxRetries ≤ deliveries e ts := by
  rcases Bool.or_eq_true_iff.1 hset with ha | hend
  · exact .inr (.inr (.inl (hacc.archived ha)))
  obtain ⟨j, hj⟩ := Option.isSome_iff_exists.1 hend
  cases j with
  | completed n row => exact .inl (hacc.completed n row hj)
  | failed n row =>
      obtain ⟨past, t, rest, rfl, hf⟩ := hacc.failed n row hj
      obtain hp | hlate := hfails past t rest rfl e hf
      · exact .inr (.inl ⟨past, t, rest, rfl, hp⟩)
      · exact .inr (.inr (.inr (hlate.trans (deliveries_mono e past _))))

/-- **No job is given up early.**  In every run, a dead-letter entry carries the
payload that the stream held and counts no more deliveries than the entry had;
if it says that a transient or unknown failure has used the retries up, it had
`max_retries`; and what is acknowledged was completed, was poison, could not be
decoded, or had `max_retries` deliveries. -/
theorem given_up_late (S : Settings) (w₀ : World) (h₀ : w₀.Fresh) (ts : List SysTrans)
    (c : Config World Eff Ans Outcome) (h : Trace (system S) w₀ ts c) :
    Always (GivesUpLate S) ts := by
  have hall : Always (GivesUpLate S) ts ∧ Reckoned S ts c.world ∧
      Always (fun past t => ∀ e, FailsEntry e past t → PoisonsEntry e past t ∨
        S.maxRetries ≤ deliveries e past) ts := by
    refine h.induct_watch (system_errands S) (I := fun ts w => Always (GivesUpLate S) ts ∧
      Reckoned S ts w ∧ Always (fun past t => ∀ e, FailsEntry e past t → PoisonsEntry e past t ∨
        S.maxRetries ≤ deliveries e past) ts) ⟨always_nil, h₀.reckoned, always_nil⟩ ?_
    intro ts c ev c' htr hs hW ih
    obtain ⟨hlate, hreckoned, hfails⟩ := ih
    refine ⟨always_snoc.2 ⟨hlate, ?_⟩, hreckoned.next (htr.next h₀ hs) hW,
      always_snoc.2 ⟨hfails, ?_⟩⟩
    · constructor
      · rintro p d a rfl
        obtain ⟨s, o, hs, -, hd, hcount, hspent⟩ := hW.act_inv
        exact ⟨hreckoned.held p s _ hs hd, hcount.trans (hreckoned.seen p s _ hs hd).2, hspent⟩
      · rintro p r a k e f rfl hk hheld
        obtain ⟨s, o, hs, -, hal⟩ := hW.act_inv
        exact hreckoned.late hk hheld hs hal
      · rintro p e a rfl
        obtain ⟨k, o, hk, -, ⟨f, hheld⟩, hset⟩ := (htr.next h₀ hs).act
        exact givesUpLate_ack ((htr.run h₀).accounted p k e f hk hheld) hset hfails
    · rintro e ⟨p, k, f, i, row, wrote, rfl, hk, hheld, hrest⟩
      obtain ⟨s, o, hs, -, hal⟩ := hW.act_inv
      refine (hreckoned.late hk hheld hs hal).imp_left fun hleft => ?_
      exact ⟨⟨p, k, f, i, row, wrote, rfl, hk, hheld, hrest⟩, p, _, k, rfl, hk, hleft⟩
  exact hall.1

end run

/-- The engine fails, once. -/
def failOne (p : Nat) : List Move := [step p { run := ⟨[], some .typeError⟩ }]

/-- A dead-letter entry. -/
def isDlq (t : SysTrans) : Bool :=
  match t.ev with
  | .act _ (.xaddDlq _) (.ok _) => true
  | _ => false

/-- A job that fails, and is put back. -/
def firstFailure : List Move := onePost 0 ++ pickUp 1 ++ failOne 1 ++ steps 1 6 ++ [.done 1]

/-- It is delivered again, and fails again. -/
def secondFailure : List Move :=
  takeOver 2 ++ [step 2 { voice := some someVoice }] ++ steps 2 6 ++ failOne 2 ++ steps 2 17 ++
    [.done 2]

/-- A job that may fail twice is given up after its second delivery. -/
theorem given_up_late_redelivered :
    ∃ ts c, Trace (system { plain with maxRetries := 2 }) blank ts c ∧
      (deliveries 1 ts = 2 ∧ (ts.filter isDlq).length = 1) ∧
        Always (GivesUpLate { plain with maxRetries := 2 }) ts := by
  obtain ⟨ts, c, h, hgiven⟩ := Machine.exists_trace (system { plain with maxRetries := 2 }) blank
    (firstFailure ++ secondFailure)
    (fun ts _ => deliveries 1 ts = 2 ∧ (ts.filter isDlq).length = 1) (by decide +kernel)
  exact ⟨ts, c, h, hgiven, given_up_late _ blank fresh_blank ts c h⟩

end NeuroVoice
