import NeuroVoice.Discipline.Pipeline

/-!
# NeuroVoice.Discipline.Worker

`WorkerConsumer.run` keeps the discipline: whatever happens to a delivery,
`_handle_one` leaves nothing open, acknowledges only what is settled, and
ends in one of the ways `Track.Handled` lists.
-/

namespace NeuroVoice

namespace WorkerConsumer

/-- The delivery in hand, with nothing open. -/
structure Holding (w : Bool) (e : Nat) (f : EntryFields) (s : Track) : Prop where
  ws : s.ws = w
  held : s.held = some (e, f)
  stage : s.stage = .none

/-- `_handle_one` may end here. -/
structure MayEnd (S : Settings) (w : Bool) (e : Nat) (f : EntryFields) (s : Track) : Prop
    extends Holding w e f s where
  handled : s.Handled S.maxRetries

section handling

variable {S : Settings} {w : Bool} {e : Nat} {f : EntryFields} {s s' : Track}
  {j : TtsJobPayload}

/-- Trouble after `process_one_job` is a way to end. -/
theorem Holding.mayEnd_troubled (h : Holding w e f s) (ht : s.troubled = true) :
    MayEnd S w e f s :=
  ⟨h, .inr (.inl ht)⟩

/-- A delivery for which `process_one_job` was not called may end anyhow. -/
theorem Holding.mayEnd_unstarted (h : Holding w e f s) (hs : s.started = false) :
    MayEnd S w e f s :=
  ⟨h, .inl hs⟩

theorem Holding.onError (h : Holding w e f s) (eff : Eff) (x : Exn) :
    Holding w e f (s.onError eff x) :=
  ⟨h.ws, h.held, by simp [Track.onError, h.stage, Stage.raised_none]⟩

/-- After `process_one_job` an await that raises is trouble. -/
theorem onError_troubled (hl : s.left = true) (eff : Eff) (x : Exn) :
    (s.onError eff x).troubled = true := by
  simp [Track.onError, hl]

/-- `_ack` acknowledges, or something went wrong. -/
theorem keeps_ack (h : Holding w e f s) (hs : s.settled = true) :
    Keeps S s (ack e)
      (fun s' _ => s' = { s with acked := true } ∨
        ∃ x, s' = s.onError (.xack e) (.foreign x))
      (fun s' _ => ∃ x, s' = s.onError (.xack e) (.foreign x)) := by
  refine (spec_bind _ _).2 (keeps_outcomeOf.2 (keeps_await.2 ⟨⟨⟨f, h.held⟩, hs⟩, ?_, ?_⟩))
  · exact fun _ => .inl rfl
  · intro _ x
    cases x with
    | responseError b => exact .inr ⟨_, rfl⟩
    | _ => exact ⟨_, rfl⟩

/-- `_delivery_count` reads the count, or something went wrong. -/
theorem keeps_deliveryCount (e : Nat) :
    Keeps S s (deliveryCount e)
      (fun s' n => s' = s.onOk (.xpendingRange e) (some n) ∧ n ≠ 0 ∨
        ∃ x, s' = s.onError (.xpendingRange e) (.foreign x) ∧ x.isException = true)
      (fun s' x => s' = s.onError (.xpendingRange e) x ∧ x.isException = false) := by
  refine keeps_exceptException.2 (Keeps.step trivial (fun n => ?_) fun _ x => ?_)
  · have hn : s.onOk (.xpendingRange e) n = s.onOk (.xpendingRange e) (some (countOf n)) := by
      rcases n with _ | _ | n <;> rfl
    refine .inl ⟨hn, ?_⟩
    rcases n with _ | _ | n <;> simp [countOf]
  · split
    · next hx => exact .inr ⟨x, rfl, hx⟩
    · next hx => exact ⟨rfl, by simpa using hx⟩

/-- The malformed branch archives before it acknowledges. -/
theorem keeps_handleMalformed (h : Holding w e f s) (hs : s.started = false)
    (hl : s.left = false) {x : Foreign} (hd : TtsJobPayload.decode f = .error x) :
    Keeps S s (handleMalformed S e f x) (fun s' _ => MayEnd S w e f s')
      (fun s' _ => MayEnd S w e f s') := by
  have hcount (t : Track) (ht : Holding w e f t) (hts : t.started = false) (n : Nat) :
      Keeps S t (do sendRawToDlq S e f "malformed_payload" x.text n; ack e)
        (fun s' _ => MayEnd S w e f s') (fun s' _ => MayEnd S w e f s') := by
    have hj : t.job = none := by simp [Track.job, ht.held, hd, Except.toOption]
    refine Keeps.step ⟨f, ht.held, rfl, by simp [hj]⟩ (fun _ => ?_)
      fun _ x => (ht.onError _ _).mayEnd_unstarted hts
    have ha : Holding w e f { t with archived := true } := ⟨ht.ws, ht.held, ht.stage⟩
    refine Spec.mono (keeps_ack ha rfl) ?_ ?_
    · rintro _ _ (rfl | ⟨x, rfl⟩)
      · exact Holding.mayEnd_unstarted ⟨ha.ws, ha.held, ha.stage⟩ hts
      · exact (ha.onError _ _).mayEnd_unstarted hts
    · rintro _ _ ⟨x, rfl⟩
      exact (ha.onError _ _).mayEnd_unstarted hts
  refine Keeps.seq (keeps_deliveryCount e) ?_ ?_
  · rintro _ n (⟨rfl, -⟩ | ⟨x, rfl, -⟩)
    · have hok : s.onOk (.xpendingRange e) (some n) = s := by simp [Track.onOk, hl]
      rw [hok]
      exact hcount s h hs n
    · exact hcount _ (h.onError _ _) hs n
  · rintro _ x ⟨rfl, -⟩
    exact (h.onError _ _).mayEnd_unstarted hs

/-- The dead-letter entry of a job, once `process_one_job` is over. -/
theorem keeps_sendJobToDlq (h : Holding w e f s) (hj : s.job = some j) (reason error : String)
    (n : Nat) :
    Keeps S s (sendJobToDlq S e f j reason error n)
      (fun s' _ => s' = { s with dlqed := true })
      (fun s' x => ∃ d, s' = s.onError (.xaddDlq d) x) :=
  keeps_await.2 ⟨⟨f, h.held, rfl, by simp [hj]⟩, fun _ => rfl, fun _ _ => ⟨_, rfl⟩⟩

/-- Acknowledging as the last act, once `process_one_job` is over. -/
theorem keeps_ack_last (h : Holding w e f s) (hl : s.left = true) (hs : s.settled = true)
    (hd : s.dlqed = true ∨ s.troubled = true ∨ ∃ rid row, s.ended = some (.completed rid row)) :
    Keeps S s (ack e) (fun s' _ => MayEnd S w e f s') (fun s' _ => MayEnd S w e f s') := by
  refine Spec.mono (keeps_ack h hs) ?_ ?_
  · rintro _ _ (rfl | ⟨x, rfl⟩)
    · refine ⟨⟨h.ws, h.held, h.stage⟩, ?_⟩
      rcases hd with hd | ht | hc
      · exact .inr (.inr (.inl ⟨rfl, .inl hd⟩))
      · exact .inr (.inl ht)
      · exact .inr (.inr (.inl ⟨rfl, .inr hc⟩))
    · exact (h.onError _ _).mayEnd_troubled (onError_troubled hl _ _)
  · rintro _ _ ⟨x, rfl⟩
    exact (h.onError _ _).mayEnd_troubled (onError_troubled hl _ _)

/-- `_maybe_dlq_and_ack`. -/
theorem keeps_maybeDlqAndAck (h : Holding w e f s) (hj : HasJob s j) (hl : s.left = true)
    (reason error : String) :
    Keeps S s (maybeDlqAndAck S e f j reason error) (fun s' _ => MayEnd S w e f s')
      (fun s' _ => MayEnd S w e f s') := by
  have hspent (t : Track) (ht : Holding w e f t) (htj : HasJob t j) (htl : t.left = true)
      (n : Nat) :
      Keeps S t (do
        markTerminalFailure S j n { errorCode := reason, message := reason ++ ": " ++ error }
        sendJobToDlq S e f j reason error n
        ack e
        return true) (fun s' _ => MayEnd S w e f s') (fun s' _ => MayEnd S w e f s') := by
    refine Keeps.seq (keeps_markTerminalFailure htj n _) ?_ ?_
    · rintro _ _ ⟨i, -, row, rfl⟩
      have hf : Holding w e f { t with ended := some (.failed i.rid row) } :=
        ⟨ht.ws, ht.held, ht.stage⟩
      refine Keeps.seq (keeps_sendJobToDlq hf htj.job reason error n) ?_ ?_
      · rintro _ _ rfl
        exact Keeps.seq (keeps_ack_last ⟨ht.ws, ht.held, ht.stage⟩ htl (by simp [Track.settled])
          (.inl rfl)) (fun _ _ hm => hm) fun _ _ hm => hm
      · rintro _ x ⟨d, rfl⟩
        exact (hf.onError (.xaddDlq d) x).mayEnd_troubled (onError_troubled htl (.xaddDlq d) x)
    · intro s' x hu
      obtain ⟨b, rfl⟩ := hu.same
      rcases hu.late htl with hb | hb
      · exact ⟨⟨ht.ws, ht.held, ht.stage⟩, .inr (.inl hb)⟩
      · exact ⟨⟨ht.ws, ht.held, ht.stage⟩, .inr (.inr (.inr (.inr hb)))⟩
  refine Keeps.seq (keeps_deliveryCount e) ?_ ?_
  · rintro _ n (⟨rfl, hn⟩ | ⟨x, rfl, -⟩)
    · have hok : s.onOk (.xpendingRange e) (some n) = { s with count := some n } := by
        obtain ⟨n, rfl⟩ := Nat.exists_eq_succ_of_ne_zero hn
        simp [Track.onOk, hl, countOf]
      rw [hok]
      split
      · next hlt => exact ⟨⟨h.ws, h.held, h.stage⟩, .inr (.inr (.inr (.inl ⟨n, rfl, hlt⟩)))⟩
      · exact hspent { s with count := some n } ⟨h.ws, h.held, h.stage⟩
          ⟨hj.stage, hj.job, hj.queued⟩ hl n
    · split
      · exact (h.onError _ _).mayEnd_troubled (onError_troubled hl _ _)
      · exact hspent _ (h.onError _ _) ⟨(h.onError _ _).stage, hj.job, hj.queued⟩ hl n
  · rintro _ x ⟨rfl, -⟩
    exact (h.onError _ _).mayEnd_troubled (onError_troubled hl _ _)

/-- What `process_one_job` can leave behind. -/
structure Processed (w : Bool) (e : Nat) (f : EntryFields) (j : TtsJobPayload) (s : Track)
    (r : Except Exn Unit) : Prop extends Holding w e f s, HasJob s j where
  started : s.started = true
  left : s.left = true
  returned : r = .ok () → ∃ rid row, s.ended = some (.completed rid row)
  poison : ∀ m, r = .error (.poisonJob m) → ∃ rid row, s.ended = some (.failed rid row)
  cancelled : ∀ x, r = .error x → x.isException = false → s.troubled = true

/-- The acknowledgement matrix. -/
theorem keeps_settle {r : Except Exn Unit} (h : Processed w e f j s r) (n : Nat) :
    Keeps S s (settle S e f j n r) (fun s' _ => MayEnd S w e f s')
      (fun s' _ => MayEnd S w e f s') := by
  have hh := h.toHolding
  have hmaybe (reason error : String) :
      Keeps S s (do let _ ← maybeDlqAndAck S e f j reason error)
        (fun s' (_ : PUnit) => MayEnd S w e f s') (fun s' _ => MayEnd S w e f s') :=
    Keeps.seq (keeps_maybeDlqAndAck hh h.toHasJob h.left reason error) (fun _ _ hm => hm)
      fun _ _ hm => hm
  rcases r with x | ⟨⟩
  · cases x with
    | poisonJob m =>
        obtain ⟨rid, row, hend⟩ := h.poison m rfl
        have hdlq := keeps_sendJobToDlq (S := S) hh h.job "poison" m n
        refine (spec_bind _ _).2 (keeps_exceptException.2 (Spec.mono hdlq ?_ ?_))
        · rintro _ _ rfl
          exact keeps_ack_last ⟨hh.ws, hh.held, hh.stage⟩ h.left (by simp [Track.settled, hend])
            (.inl rfl)
        · rintro _ x ⟨d, rfl⟩
          have ht := onError_troubled h.left (.xaddDlq d) x
          split
          · exact keeps_ack_last (hh.onError _ _) h.left
              (by simp [Track.settled, Track.onError, hend]) (.inr (.inl ht))
          · exact (hh.onError _ _).mayEnd_troubled ht
    | transientFailure m => exact hmaybe _ _
    | foreign x =>
        have hset : settle S e f j n (.error (.foreign x)) =
            if (Exn.foreign x).isException then do
              let _ ← maybeDlqAndAck S e f j "unknown_exception" (Exn.foreign x).text
            else throw (.foreign x) := rfl
        rw [hset]
        split
        · exact hmaybe _ _
        · next hx => exact hh.mayEnd_troubled (h.cancelled _ rfl (by simpa using hx))
    | stillRunning => exact hh.mayEnd_troubled (h.cancelled _ rfl rfl)
    | _ => exact hmaybe _ _
  · exact keeps_ack_last hh h.left
      (by obtain ⟨rid, row, hend⟩ := h.returned rfl; simp [Track.settled, hend])
      (.inr (.inr (h.returned rfl)))

/-- `process_one_job`, between its marks. -/
theorem keeps_runJob (hh : Holding w e f s) (hj : HasJob s j) (hs : s.started = false)
    (hl : s.left = false) (he : s.ended = none) (hd : TtsJobPayload.decode f = .ok j)
    (pickup : Option Nat) (n : Nat) :
    Keeps S s (runJob S e j pickup n) (fun s' r => Processed w e f j s' r)
      (fun s' _ => MayEnd S w e f s') := by
  refine Keeps.mark rfl ⟨⟨f, j, hh.held, hd⟩, hs, he⟩ fun _ => ?_
  have hrun := keeps_processOneJob (S := S) (s := { s with started := true })
    ⟨hj.stage, hj.job, hj.queued⟩ rfl hl he pickup n
  refine (spec_bind _ _).2 (keeps_outcomeOf.2 (Spec.mono hrun ?_ ?_))
  · rintro _ _ ⟨i, -, row, rfl⟩
    refine Keeps.mark rfl ⟨rfl, hj.stage⟩ fun _ => ?_
    exact ⟨⟨hh.ws, hh.held, hh.stage⟩, hj.job, hj.queued, rfl, rfl, fun _ => ⟨i.rid, row, rfl⟩,
      nofun, nofun⟩
  · rintro _ x ⟨⟨b, o, rfl⟩, hx, hp⟩
    refine Keeps.mark rfl ⟨rfl, hj.stage⟩ fun _ => ?_
    refine ⟨⟨hh.ws, hh.held, hh.stage⟩, hj.job, hj.queued, rfl, rfl, nofun, ?_, ?_⟩
    · rintro m ⟨⟩
      obtain ⟨i, row, -, ho⟩ := hp m rfl
      exact ⟨i.rid, row, ho⟩
    · rintro _ ⟨⟩ hx'
      exact hx hx'

/-- The pickup stamp is the first use of the enqueue time. -/
theorem keeps_workerPickup {R : Track → Exn → Prop} (hR : ∀ x, R s (.foreign x)) :
    Keeps S s (workerPickup j)
      (fun s' _ => s' = s ∧
        (j.enqueuedAtMs.isNull = true ∨ ∃ n, j.enqueuedAtMs.toInt = .ok n)) R := by
  unfold workerPickup
  split
  · next hn => exact ⟨rfl, .inl hn⟩
  · refine Keeps.mark rfl trivial fun t => ?_
    refine (spec_bind _ _).2 (keeps_liftPy.2 ⟨fun a ha => ⟨rfl, .inr ?_⟩, fun x _ => hR x⟩)
    cases hn : j.enqueuedAtMs.toInt with
    | ok n => exact ⟨n, rfl⟩
    | error x => simp [waitedMs, hn, bind, Except.bind] at ha

/-- The decoded branch. -/
theorem keeps_handleJob (h : Holding w e f s) (hs : s.started = false) (hl : s.left = false)
    (he : s.ended = none) (hd : TtsJobPayload.decode f = .ok j) :
    Keeps S s (handleJob S e f j) (fun s' _ => MayEnd S w e f s')
      (fun s' _ => MayEnd S w e f s') := by
  refine Keeps.seq (keeps_workerPickup fun x => h.mayEnd_unstarted hs) ?_ fun _ _ hm => hm
  rintro _ pickup ⟨rfl, hq⟩
  have hrun (t : Track) (ht : Holding w e f t) (hts : t.started = false) (htl : t.left = false)
      (hte : t.ended = none) (n : Nat) :
      Keeps S t (do let r ← runJob S e j pickup n; settle S e f j n r)
        (fun s' _ => MayEnd S w e f s') (fun s' _ => MayEnd S w e f s') := by
    have hj : HasJob t j := ⟨ht.stage, by simp [Track.job, ht.held, hd, Except.toOption], hq⟩
    exact Keeps.seq (keeps_runJob ht hj hts htl hte hd pickup n)
      (fun _ r hr => keeps_settle hr n) fun _ _ hm => hm
  refine (spec_bind _ _).2 (keeps_exceptException.2 (Spec.mono (keeps_deliveryCount e) ?_ ?_))
  · rintro _ n (⟨rfl, -⟩ | ⟨x, rfl, -⟩)
    · have hok (t : Track) (htl : t.left = false) : t.onOk (.xpendingRange e) (some n) = t := by
        simp [Track.onOk, htl]
      rw [hok _ hl]
      exact hrun _ h hs hl he n
    · exact hrun _ (h.onError _ _) hs hl he n
  · rintro _ x ⟨rfl, hx⟩
    rw [if_neg (by simp [hx])]
    exact (h.onError _ _).mayEnd_unstarted hs

/-- **`_handle_one`** ends with nothing in hand. -/
theorem keeps_handleOne (w : Bool) (e : Nat) (f : EntryFields) :
    Keeps S { ws := w, held := some (e, f) } (handleOne S e f) (fun s' _ => s' = { ws := w })
      (fun s' _ => s' = { ws := w }) := by
  have hh : Holding w e f { ws := w, held := some (e, f) } := ⟨rfl, rfl, rfl⟩
  have hend {s' : Track} (hm : MayEnd S w e f s') :
      Allows S.maxRetries s' (.handled e) ∧ ∀ b, s'.onOk (.handled e) b = { ws := w } :=
    ⟨⟨⟨f, hm.held⟩, hm.stage, hm.handled⟩, fun _ => by simp [Track.onOk, hm.ws]⟩
  refine (keeps_finallyDo rfl).2 (Spec.mono (Q := fun s' _ => MayEnd S w e f s')
    (R := fun s' _ => MayEnd S w e f s') ?_ (fun _ _ hm => hend hm) fun _ _ hm => hend hm)
  cases hd : TtsJobPayload.decode f with
  | error x => exact keeps_handleMalformed hh rfl rfl hd
  | ok j => exact keeps_handleJob hh rfl rfl rfl hd

end handling

/-! ## the loop -/

section loop

variable {S : Settings}

/-- Between deliveries an await that raises may leave a stain. -/
def Idle (s : Track) : Prop := ∃ b, s = { troubled := b }

theorem idle_onError {s : Track} (h : Idle s) (e : Eff) (x : Exn) : Idle (s.onError e x) := by
  obtain ⟨b, rfl⟩ := h
  exact ⟨_, by simp [Track.onError, Stage.raised_none]; rfl⟩

theorem idle_default : Idle {} := ⟨false, rfl⟩

/-- A worker between deliveries stays between deliveries. -/
abbrev StaysIdle (S : Settings) {α : Type} (s : Track) (x : Py α) : Prop :=
  Keeps S s x (fun s' _ => Idle s') (fun s' _ => Idle s')

/-- Handling what `XREADGROUP` or `XAUTOCLAIM` returned. -/
theorem keeps_delivered {s : Track} (h : Idle s) (e : Nat) (f : EntryFields) :
    StaysIdle S (s.deliver (some (e, f))) (handleOne S e f) := by
  obtain ⟨b, rfl⟩ := h
  refine Spec.mono (keeps_handleOne false e f) ?_ ?_
  · rintro _ _ rfl
    exact idle_default
  · rintro _ _ rfl
    exact idle_default

theorem Idle.allows_read {s : Track} (h : Idle s) : s.held = none ∧ s.stage = .none := by
  obtain ⟨b, rfl⟩ := h
  exact ⟨rfl, rfl⟩

theorem keeps_tick {s : Track} (h : Idle s) : StaysIdle S s (tick S) := by
  refine (spec_bind _ _).2 (keeps_outcomeOf.2 (keeps_await.2 ⟨h.allows_read, ?_, ?_⟩))
  · rintro (_ | ⟨e, f⟩)
    · exact h
    · exact Keeps.seq (keeps_delivered h e f) (fun _ _ hi => hi) fun _ _ hi => hi
  · intro _ x
    have hx := idle_onError h (.xreadgroup S.consumerName) (.foreign x)
    cases x with
    | responseError b => exact Keeps.mark rfl trivial fun _ => hx
    | _ => exact hx

theorem keeps_xautoclaimSweep {s : Track} (h : Idle s) : StaysIdle S s (xautoclaimSweep S) := by
  refine (spec_bind _ _).2 (keeps_outcomeOf.2 (keeps_await.2 ⟨h.allows_read, ?_, ?_⟩))
  · rintro (_ | ⟨e, f⟩)
    · exact h
    · exact keeps_delivered h e f
  · intro _ x
    have hx := idle_onError h (.xautoclaim S.consumerName S.xautoclaimMinIdleMs) (.foreign x)
    cases x with
    | responseError b => exact hx
    | _ => exact hx

theorem keeps_guardedTick {s : Track} (h : Idle s) : StaysIdle S s (guardedTick S) := by
  refine keeps_exceptException.2 (Spec.mono (keeps_tick h) (fun _ _ hi => hi) fun _ _ hi => ?_)
  split
  · exact hi
  · exact hi

theorem keeps_sweepIfDue {s : Track} (h : Idle s) (handled : Bool) (t : Nat) :
    StaysIdle S s (sweepIfDue S handled t) := by
  refine Keeps.mark rfl trivial fun now => ?_
  split
  · refine Keeps.seq (keeps_xautoclaimSweep h) (fun s' _ hi => ?_) fun _ _ hi => hi
    exact keeps_await.2 ⟨trivial, fun _ => hi, nofun⟩
  · exact h

theorem keeps_loop (n : Nat) {s : Track} (h : Idle s) (t : Nat) : StaysIdle S s (loop S n t) := by
  induction n generalizing s t with
  | zero =>
      refine Keeps.mark rfl trivial fun b => ?_
      cases b <;> exact h
  | succ n ih =>
      refine Keeps.mark rfl trivial fun b => ?_
      cases b with
      | true => exact h
      | false =>
          refine Keeps.seq (keeps_guardedTick h) (fun s₁ handled h₁ => ?_) fun _ _ hi => hi
          refine Keeps.mark rfl trivial fun b => ?_
          cases b with
          | true => exact h₁
          | false =>
              refine Keeps.seq (keeps_sweepIfDue h₁ handled t) (fun s₂ t h₂ => ?_)
                fun _ _ hi => hi
              cases handled with
              | true => exact ih h₂ t
              | false => exact Keeps.mark rfl trivial fun _ => ih h₂ t

theorem keeps_ensureConsumerGroup : StaysIdle S {} ensureConsumerGroup := by
  refine (spec_bind _ _).2 (keeps_outcomeOf.2 (keeps_await.2 ⟨trivial, ?_, ?_⟩))
  · exact fun _ => idle_default
  · intro _ x
    have hx := idle_onError idle_default .xgroupCreate (.foreign x)
    cases x with
    | responseError b => cases b <;> exact hx
    | _ => exact hx

/-- **A worker** keeps the discipline. -/
theorem keeps_run (n : Nat) : StaysIdle S {} (run S n) :=
  Keeps.seq keeps_ensureConsumerGroup
    (fun _ _ hi => Keeps.mark rfl trivial fun t => keeps_loop n hi t) fun _ _ hi => hi

end loop

end WorkerConsumer

end NeuroVoice
