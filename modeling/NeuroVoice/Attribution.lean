import NeuroVoice.Errand
import NeuroVoice.Uuid

/-!
# NeuroVoice.Attribution

Who is billed.

A gateway puts its caller's identity into the job, a worker copies it from the
job into the usage row, and the two never meet.  `usage_attributed` follows it
through the stream: every usage row goes back to an authenticated call of its
tenant and key that submitted the request, and counts the characters of a text
of that call.
-/

namespace NeuroVoice

/-- A call of the run has submitted this job; the reply of its `XADD` may be
lost. -/
def Ordered (ts : List SysTrans) (job : TtsJobPayload) : Prop :=
  ∃ p call, Spawned p call ts ∧ call.Submits job ∧ ∃ t ∈ ts, ∃ a, t.ev = .act p (.xaddJob job) a

/-- A usage row of a job that a call has submitted. -/
def Ordered.Bill (ts : List SysTrans) (rid : Uuid) (u : UsageRecord) : Prop :=
  ∃ job, Ordered ts job ∧ job.Bills rid u

theorem Ordered.append {ts : List SysTrans} {job : TtsJobPayload} (h : Ordered ts job)
    (us : List SysTrans) : Ordered (ts ++ us) job := by
  obtain ⟨p, call, hcall, hsub, t, ht, ha⟩ := h
  exact ⟨p, call, hcall.append us, hsub, t, List.mem_append_left _ ht, ha⟩

theorem Ordered.Bill.append {ts : List SysTrans} {rid : Uuid} {u : UsageRecord}
    (h : Ordered.Bill ts rid u) (us : List SysTrans) : Ordered.Bill (ts ++ us) rid u := by
  obtain ⟨job, hord, hbill⟩ := h
  exact ⟨job, hord.append us, hbill⟩

/-! ## one step -/

section step

variable {p : Nat} {e : Eff} {o : Oracle} {w w' : World} {a : Ans e}

/-- Only an insert adds a usage row. -/
theorem perform_usage {h : Hint} {r : Except Foreign (Ret e)}
    (hx : perform p e h w = some (r, w')) :
    w'.usage = w.usage ∨ w'.usage = w.usage.rollback p ∨ w'.usage = w.usage.commit p ∨
      ∃ rid u, e = .insertUsage rid u ∧ w'.usage = w.usage.put p rid (some u) := by
  cases e <;> grind [perform, World.rollback, World.commit]

/-- What holds of every usage row, if it holds of those that are inserted. -/
theorem exec_usage {P : Uuid → UsageRecord → Prop} (hx : exec p e o w = some (a, w'))
    (h : w.usage.Each P) (hinsert : ∀ rid u, e = .insertUsage rid u → P rid u) :
    w'.usage.Each P := by
  obtain ⟨hint, r, hp⟩ | rfl := exec_performed hx
  · obtain hu | hu | hu | ⟨rid, u, rfl, hu⟩ := perform_usage hp
    · exact hu ▸ h
    · exact hu ▸ h.rollback p
    · exact hu ▸ h.commit p
    · exact hu ▸ h.put (hinsert rid u rfl)
  · split
    · exact h.rollback p
    · exact h

/-- Only an `XADD` adds an entry. -/
theorem perform_entries {h : Hint} {r : Except Foreign (Ret e)}
    (hx : perform p e h w = some (r, w')) :
    (∀ x ∈ w'.jobs.entries, x ∈ w.jobs.entries ∨ ∃ job, e = .xaddJob job ∧ x.2 = job.encode) := by
  cases e with
  | xaddJob job =>
      intro x hmem
      simp only [perform, JobsStream.add] at hx
      split at hx
      · next jobs hadd =>
          split at hadd
          · cases hadd
            cases hx
            have hmem := List.mem_of_mem_drop hmem
            simp only [List.mem_append, List.mem_singleton] at hmem
            exact hmem.imp id fun h => ⟨job, rfl, by rw [h]⟩
          · cases hadd
      · cases hx
  | _ =>
      grind [perform, World.rollback, World.commit, JobsStream.deliver, JobsStream.claim,
        JobsStream.ack]

theorem exec_entries (hx : exec p e o w = some (a, w')) :
    ∀ x ∈ w'.jobs.entries, x ∈ w.jobs.entries ∨ ∃ job, e = .xaddJob job ∧ x.2 = job.encode := by
  obtain ⟨hint, r, hp⟩ | rfl := exec_performed hx
  · exact perform_entries hp
  · intro x hmem
    refine .inl ?_
    split at hmem <;> exact hmem

end step

/-! ## a run -/

section run

variable {S : Settings} {w₀ w w' : World} {ts : List SysTrans} {ev : SysEvent}
  {c : Config World Eff Ans Outcome}

/-- Nothing in the deployment but what calls have submitted. -/
structure Attributed (S : Settings) (ts : List SysTrans) (w : World) : Prop where
  entries : ∀ x ∈ w.jobs.entries, ∃ job, x.2 = job.encode ∧ Ordered ts job
  held : ∀ p s d, errand S p ts = some s → s.held = some d →
    ∃ job, d.2 = job.encode ∧ Ordered ts job
  usage : w.usage.Each (Ordered.Bill ts)

theorem Attributed.held_append (h : Attributed S ts w) {t : SysTrans} {p : Nat} {s : Errand}
    {d : Nat × EntryFields} (hs : errand S p ts = some s) (hd : s.held = some d) :
    ∃ job, d.2 = job.encode ∧ Ordered (ts ++ [t]) job := by
  obtain ⟨job, hjob, hord⟩ := h.held p s d hs hd
  exact ⟨job, hjob, hord.append _⟩

/-- An event that is no await, and leaves the stream alone. -/
theorem Attributed.frame (h : Attributed S ts w) {t : SysTrans} (hev : ∀ p e a, t.ev ≠ .act p e a)
    (hentries : w'.jobs.entries = w.jobs.entries)
    (husage : w'.usage.Each (Ordered.Bill ts)) : Attributed S (ts ++ [t]) w' where
  entries x hx := by
    obtain ⟨job, hjob, hord⟩ := h.entries x (hentries ▸ hx)
    exact ⟨job, hjob, hord.append _⟩
  held p s d hs hd := h.held_append (errand_quiet hev hs hd) hd
  usage := husage.mono fun rid u ⟨job, hord, hbill⟩ => ⟨job, hord.append _, hbill⟩

/-- What is billed is the job in hand: `sysProtocol` says that there is one. -/
theorem Attributed.bill (h : Attributed S ts w) (hr : Run S w₀ ts w) {p : Nat} {rid : Uuid}
    {u : UsageRecord} {a : Ans (.insertUsage rid u)}
    (hn : Next S ts w (.act p (.insertUsage rid u) a) w') {s : Errand}
    (hs : errand S p ts = some s) (hal : s.Allows S.maxRetries (.insertUsage rid u)) :
    Ordered.Bill ts rid u := by
  obtain ⟨k, -, hk, -, hallowed⟩ := hn.act
  have hids : ∃ i, k.ids = some i := by
    obtain ⟨-, row, wrote, hstage, -⟩ | ⟨-, row, wrote, hstage⟩ := hallowed
    · obtain ⟨-, -, -, i, hi, -⟩ := (hr.sound p k hk).completing _ _ _ (.inl hstage)
      exact ⟨i, hi⟩
    · obtain ⟨i, hi, -⟩ := (hr.sound p k hk).failing _ (.inr ⟨_, _, .inr (.inl hstage)⟩)
      exact ⟨i, hi⟩
  obtain ⟨i, hi⟩ := hids
  cases hheld : k.held with
  | none => simp [Track.ids, Track.job, hheld] at hi
  | some d =>
      have hd : s.held = some d := (errand_eq_track hk hs).1.trans hheld
      obtain ⟨job, hdecode, hbill⟩ := hal d.1 d.2 hd
      obtain ⟨job', hjob, hord⟩ := h.held p s d hs hd
      rw [hjob, TtsJobPayload.decode_encode] at hdecode
      cases hdecode
      exact ⟨_, hord, hbill⟩

/-- The step lemma of `usage_attributed`. -/
theorem Attributed.next (h : Attributed S ts w) (hr : Run S w₀ ts w) (hn : Next S ts w ev w')
    (hW : StepSeen (system S) (errandProtocol S) ts w ev w') :
    Attributed S (ts ++ [⟨w, ev, w'⟩]) w' := by
  cases ev with
  | act p e a =>
      obtain ⟨s, o, hs, hx, hal⟩ := hW.act_inv
      refine ⟨fun x hx' => ?_, fun q r d hq hd => ?_, ?_⟩
      · obtain hx' | ⟨job, rfl, hjob⟩ := exec_entries hx x hx'
        · obtain ⟨job, hjob, hord⟩ := h.entries x hx'
          exact ⟨job, hjob, hord.append _⟩
        · exact ⟨job, hjob, p, s.call, (spawned_of_errand hs).append _, hal,
            ⟨w, .act p (.xaddJob job) a, w'⟩, by simp, a, rfl⟩
      · rw [errand, Protocol.watch_snoc] at hq
        simp only [Protocol.observe] at hq
        split at hq
        · next hpq =>
            subst hpq
            rw [hs, Option.map_some] at hq
            cases hq
            cases a with
            | error x => exact h.held_append hs hd
            | ok b =>
                obtain hd | hmem := exec_delivered hx hd
                · exact h.held_append hs hd
                · obtain ⟨job, hjob, hord⟩ := h.entries d hmem
                  exact ⟨job, hjob, hord.append _⟩
        · exact h.held_append hq hd
      · refine (exec_usage hx h.usage fun rid u he => ?_).mono fun _ _ hbill => hbill.append _
        subst he
        exact h.bill hr hn hs hal
  | spawn p call =>
      obtain ⟨-, rfl⟩ := hn.spawn
      exact h.frame (by simp) rfl h.usage
  | done p r =>
      obtain ⟨-, -, -, rfl⟩ := hn.done
      exact h.frame (by simp) rfl h.usage
  | crash p =>
      obtain ⟨-, -, rfl⟩ := hn.crash
      exact h.frame (by simp) rfl (h.usage.rollback p)
  | tick d =>
      obtain rfl := hn.tick
      exact h.frame (by simp) rfl h.usage

/-- A usage row goes back to a call. -/
structure BilledTo (ts : List SysTrans) (rid : Uuid) (u : UsageRecord) (p : Nat) (call : Call)
    (ctx : AuthContext) (text : PyStr) : Prop where
  spawned : Spawned p call ts
  context : call.context = some ctx
  given : text ∈ call.texts
  tenantId : u.tenantId = ctx.tenantId
  apiKeyId : u.apiKeyId = ctx.apiKeyId
  textCharCount : u.textCharCount = text.length
  appLabel : u.appLabel = .ofStr? call.app
  submitted : ∃ t ∈ ts, ∃ job a, t.ev = .act p (.xaddJob job) a ∧
    job.requestId = .str (uuidStr rid) ∧ job.text = .str text

theorem toUuid_uuidStr (u : Uuid) : (Json.str (uuidStr u)).toUuid = .ok u := by
  simp [Json.toUuid]

/-- The identity of a submitted job is the caller's. -/
theorem Ordered.Bill.billedTo {rid : Uuid} {u : UsageRecord} (h : Ordered.Bill ts rid u) :
    ∃ p call ctx text, BilledTo ts rid u p call ctx text := by
  obtain ⟨job, ⟨p, call, hcall, hsub, t, ht, a, hev⟩, ids, hids, rfl, hten, hkey, hlen, happ⟩ := h
  obtain ⟨ctx, text, key, hctx, htext, hrid, htenant, hapi, hjtext, hlabel⟩ := hsub
  have hparse : job.ids = .ok ⟨key, ctx.tenantId, ctx.apiKeyId⟩ := by
    simp [TtsJobPayload.ids, hrid, htenant, hapi, toUuid_uuidStr, bind, Except.bind, pure,
      Except.pure]
  rw [hparse] at hids
  cases hids
  rw [hjtext] at hlen
  exact ⟨p, call, ctx, text, hcall, hctx, htext, hten, hkey, (Except.ok.inj hlen).symm,
    happ.trans hlabel,
    t, ht, job, a, hev, hrid, hjtext⟩

/-- **Who is billed has asked for it**: if only the gateway writes to the jobs
stream, every usage row goes back to an authenticated call, of the row's tenant
and with the row's key, that submitted the row's request with a text of as many
characters as are billed; whatever crashes, retries and replies are lost on the
way. -/
theorem usage_attributed (S : Settings) (w₀ : World) (h₀ : w₀.Fresh) (hempty : w₀.jobs.entries = [])
    (ts : List SysTrans) (c : Config World Eff Ans Outcome) (h : Trace (system S) w₀ ts c)
    (rid : Uuid) (u : UsageRecord) (hrow : c.world.usage.rows rid = some u) :
    ∃ p call ctx text, BilledTo ts rid u p call ctx text := by
  have hall : Attributed S ts c.world := by
    refine h.induct_watch (system_errands S) (I := fun ts w => Attributed S ts w) ?_ ?_
    · refine ⟨fun x hx => ?_, fun p s d hs => ?_, ?_⟩
      · rw [hempty] at hx
        cases hx
      · simp at hs
      · rw [h₀.usage]
        exact TxTable.each_ofRows fun k v hv => by simp at hv
    · intro ts c ev c' htr hs hW ih
      exact ih.next (htr.run h₀) (htr.next h₀ hs) hW
  exact (hall.usage.1 rid u hrow).billedTo

end run

/-- A job that is posted, synthesized and billed. -/
theorem usage_attributed_one : ∃ ts c, Trace (system plain) blank ts c ∧
    ∃ u, c.world.usage.rows someKey = some u ∧
      ∃ p call ctx text, BilledTo ts someKey u p call ctx text := by
  obtain ⟨ts, c, h, hrow⟩ := Machine.exists_trace (system plain) blank
    (onePost 0 ++ pickUp 1 ++ produceOne 1 ++ commitOne 1 ++ finishOne 1)
    (fun _ w => (w.usage.rows someKey).isSome = true) (by decide +kernel)
  obtain ⟨u, hu⟩ := Option.isSome_iff_exists.1 hrow
  exact ⟨ts, c, h, u, hu, usage_attributed plain blank fresh_blank rfl ts c h someKey u hu⟩

end NeuroVoice
