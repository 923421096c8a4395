import NeuroVoice.Ledger.Invariant
import NeuroVoice.Lib.Watch

/-!
# NeuroVoice.Run

Runs of the deployment, as its claims see them.

`track p ts` is what the events of `ts` say about process `p`.  Statements
about runs are built from it, from `Always` and `Once`
(`NeuroVoice.Lib.Machine`), and from the worlds around each event; `Run` is
what the proofs know about a run, and `Run.induct` how they go through it.
-/

namespace NeuroVoice

/-- What an event says about process `p`. -/
def observe (p : Nat) (o : Option Track) : SysEvent → Option Track
  | .act q e a => if q = p then o.map fun s => s.next e a else o
  | .spawn q call => if q = p then some call.track else o
  | .done q _ | .crash q => if q = p then none else o
  | .tick _ => o

/-- What the events of a run say about process `p`; `none` while it is not
running. -/
def track (p : Nat) (ts : List SysTrans) : Option Track :=
  ts.foldl (fun o t => observe p o t.ev) none

@[simp] theorem track_nil (p : Nat) : track p [] = none := rfl

theorem track_snoc (p : Nat) (ts : List SysTrans) (t : SysTrans) :
    track p (ts ++ [t]) = observe p (track p ts) t.ev := by
  simp [track]

/-- The stage of process `p` after the events of a run. -/
def stage (p : Nat) (ts : List SysTrans) : Stage := (track p ts).elim .none Track.stage

/-- The monitors' states are what the events say. -/
theorem PTrace.track_eq {S : Settings} {w₀ w : World} {ph : Nat → Option Track}
    {ts : List SysTrans} (h : PTrace (system S) (sysProtocol S) w₀ ts w ph) (p : Nat) :
    ph p = track p ts := by
  induction h with
  | nil => rfl
  | @snoc ts w ph ev w' ph' _ hs ih =>
      rw [track_snoc, ← ih]
      cases hs with
      | @act q s e o a _ hq hx hal =>
          by_cases h : q = p
          · subst h; simp [observe, hq]; rfl
          · simp [observe, h, Ne.symm h]
      | @spawn q call hq =>
          by_cases h : q = p
          · subst h; simp [observe]; rfl
          · simp [observe, h, Ne.symm h]
      | @done q s r hq hf =>
          by_cases h : q = p
          · subst h; simp [observe]
          · simp [observe, h, Ne.symm h]
      | @crash q s hq =>
          by_cases h : q = p
          · subst h; simp [observe]
          · simp [observe, h, Ne.symm h]
      | tick => rfl

/-- A run, as the monitors see it, from a fresh deployment. -/
structure Run (S : Settings) (w₀ : World) (ts : List SysTrans) (w : World) : Prop where
  fresh : w₀.Fresh
  trace : PTrace (system S) (sysProtocol S) w₀ ts w fun p => track p ts

section run

variable {S : Settings} {w₀ w w' : World} {ts : List SysTrans} {ev : SysEvent}

/-- Every run of the deployment is one. -/
theorem Trace.run {c : Config World Eff Ans Outcome} (h : Trace (system S) w₀ ts c)
    (h₀ : w₀.Fresh) : Run S w₀ ts c.world := by
  obtain ⟨ph, hp, -⟩ := system_protocol h
  refine ⟨h₀, ?_⟩
  rwa [← show ph = fun p => track p ts from funext hp.track_eq]

/-- The next step of a run. -/
abbrev Next (S : Settings) (ts : List SysTrans) (w : World) (ev : SysEvent) (w' : World) : Prop :=
  PStep (system S) (sysProtocol S) w (fun p => track p ts) ev w'
    fun p => track p (ts ++ [⟨w, ev, w'⟩])

/-- **Induction over a run.** -/
theorem Run.induct (h : Run S w₀ ts w) {I : List SysTrans → World → Prop} (h₀ : I [] w₀)
    (hstep : ∀ ts w ev w', Run S w₀ ts w → Next S ts w ev w' → I ts w →
      I (ts ++ [⟨w, ev, w'⟩]) w') : I ts w := by
  obtain ⟨hf, h⟩ := h
  generalize hph : (fun p => track p ts) = ph at h
  induction h with
  | nil => exact h₀
  | @snoc ts w ph₁ ev w' ph₂ htr hs ih =>
      have h₁ : ph₁ = fun p => track p ts := funext htr.track_eq
      subst h₁ hph
      exact hstep ts w ev w' ⟨hf, htr⟩ hs (ih rfl)

/-- The tables are in order. -/
theorem Run.ledger (h : Run S w₀ ts w) : Ledger w fun p => stage p ts :=
  ledger_run h.fresh h.trace

/-- An await of a run: it was allowed, and this is what it did. -/
theorem Next.act {p : Nat} {e : Eff} {a : Ans e} (h : Next S ts w (.act p e a) w') :
    ∃ s o, track p ts = some s ∧ exec p e o w = some (a, w') ∧ Allows S.maxRetries s e :=
  PStep.act_inv h

/-- Every step of the deployment is one. -/
theorem Trace.next {c c' : Config World Eff Ans Outcome} (h : Trace (system S) w₀ ts c)
    (h₀ : w₀.Fresh) (s : Step (system S) c ev c') : Next S ts c.world ev c'.world := by
  obtain ⟨ph, hs, hp⟩ := ((h.snoc s).run h₀).trace.last
  rwa [show ph = fun p => track p ts from funext hp.track_eq] at hs

theorem Next.spawn {p : Nat} {call : Call} (h : Next S ts w (.spawn p call) w') :
    track p ts = none ∧ w' = w :=
  PStep.spawn_inv h

theorem Next.done {p : Nat} {r : Outcome} (h : Next S ts w (.done p r) w') :
    ∃ s, track p ts = some s ∧ s.CanStop ∧ w' = w :=
  PStep.done_inv h

theorem Next.crash {p : Nat} (h : Next S ts w (.crash p) w') :
    ∃ s, track p ts = some s ∧ w' = w.rollback p :=
  PStep.crash_inv h

theorem Next.tick {d : Nat} (h : Next S ts w (.tick d) w') : w' = w.tick d :=
  PStep.tick_inv h

@[simp] theorem track_act (p q : Nat) (e : Eff) (a : Ans e) :
    track q (ts ++ [⟨w, .act p e a, w'⟩]) =
      if p = q then (track q ts).map (fun s => s.next e a) else track q ts := by
  simp [track_snoc, observe]

@[simp] theorem track_spawn (p q : Nat) (call : Call) :
    track q (ts ++ [⟨w, .spawn p call, w'⟩]) =
      if p = q then some call.track else track q ts := by
  simp [track_snoc, observe]

@[simp] theorem track_done (p q : Nat) (r : Outcome) :
    track q (ts ++ [⟨w, .done p r, w'⟩]) = if p = q then none else track q ts := by
  simp [track_snoc, observe]

@[simp] theorem track_crash (p q : Nat) :
    track q (ts ++ [⟨w, .crash p, w'⟩]) = if p = q then none else track q ts := by
  simp [track_snoc, observe]

@[simp] theorem track_tick (q d : Nat) : track q (ts ++ [⟨w, .tick d, w'⟩]) = track q ts := by
  simp [track_snoc, observe]

/-- An await moves its process, by a turn. -/
theorem Next.turn {p : Nat} {e : Eff} {a : Ans e} (h : Next S ts w (.act p e a) w') :
    Turn p w w' (stage p ts) e a (stage p (ts ++ [⟨w, .act p e a, w'⟩])) := by
  obtain ⟨s, o, hs, hx, hal⟩ := h.act
  have hT := turn_of_exec hx hal
  simpa [stage, hs] using hT

theorem stage_other {p q : Nat} {e : Eff} {a : Ans e} (hq : q ≠ p) :
    stage q (ts ++ [⟨w, .act p e a, w'⟩]) = stage q ts := by
  simp [stage, Ne.symm hq]

/-- Anything but an await leaves the committed rows alone, and the stages,
up to processes that start or end. -/
theorem Next.quiet (h : Next S ts w ev w') (hev : ∀ p e a, ev ≠ .act p e a) :
    w'.idem.rows = w.idem.rows ∧ w'.usage.rows = w.usage.rows ∧
      ∀ q, stage q (ts ++ [⟨w, ev, w'⟩]) = stage q ts ∨
        stage q (ts ++ [⟨w, ev, w'⟩]) = .none := by
  cases ev with
  | act p e a => exact absurd rfl (hev p e a)
  | spawn p call =>
      obtain ⟨-, rfl⟩ := h.spawn
      refine ⟨rfl, rfl, fun q => ?_⟩
      by_cases hq : p = q
      · exact .inr (by cases call <;> simp [stage, hq, Call.track])
      · exact .inl (by simp [stage, hq])
  | done p r =>
      obtain ⟨s, -, -, rfl⟩ := h.done
      refine ⟨rfl, rfl, fun q => ?_⟩
      by_cases hq : p = q
      · exact .inr (by simp [stage, hq])
      · exact .inl (by simp [stage, hq])
  | crash p =>
      obtain ⟨s, -, rfl⟩ := h.crash
      refine ⟨rfl, rfl, fun q => ?_⟩
      by_cases hq : p = q
      · exact .inr (by simp [stage, hq])
      · exact .inl (by simp [stage, hq])
  | tick d =>
      obtain rfl := h.tick
      exact ⟨rfl, rfl, fun q => .inl (by simp [stage])⟩

/-- … and adds no uncommitted write. -/
theorem Next.quiet_own (h : Next S ts w ev w') (hev : ∀ p e a, ev ≠ .act p e a) {q : Nat}
    {k : Uuid} {v : Option JobIdempotency} (hv : w'.idem.own q k = some v) :
    w.idem.own q k = some v := by
  cases ev with
  | act p e a => exact absurd rfl (hev p e a)
  | spawn p call => rwa [← h.spawn.2]
  | done p r =>
      obtain ⟨s, -, -, rfl⟩ := h.done
      exact hv
  | crash p =>
      obtain ⟨s, -, rfl⟩ := h.crash
      rw [show (w.rollback p).idem = w.idem.rollback p from rfl, TxTable.own_rollback] at hv
      split at hv
      · cases hv
      · exact hv
  | tick d =>
      obtain rfl := h.tick
      exact hv

/-- Time does not go back. -/
theorem Next.now_le (h : Next S ts w ev w') : w.now ≤ w'.now := by
  cases ev with
  | act p e a =>
      obtain ⟨s, o, -, hx, -⟩ := h.act
      exact (exec_now hx).ge
  | spawn p call => exact (congrArg World.now h.spawn.2).ge
  | done p r =>
      obtain ⟨s, -, -, rfl⟩ := h.done
      exact le_rfl
  | crash p =>
      obtain ⟨s, -, rfl⟩ := h.crash
      exact le_rfl
  | tick d =>
      obtain rfl := h.tick
      exact Nat.le_add_right _ _

/-- What every process satisfies when it is started, and after each of its
awaits, it satisfies throughout. -/
theorem Run.each (h : Run S w₀ ts w) {J : Track → Prop} (hinit : ∀ call : Call, J call.track)
    (hstep : ∀ {ts w p e o a w' s}, Run S w₀ ts w → track p ts = some s →
      exec p e o w = some (a, w') → Allows S.maxRetries s e → J s → J (s.next e a)) :
    ∀ p s, track p ts = some s → J s := by
  refine h.induct (I := fun ts _ => ∀ p s, track p ts = some s → J s) (by simp) ?_
  intro ts w ev w' hr hn ih q s hq
  cases ev with
  | act p e a =>
      obtain ⟨s₀, o, hs, hx, hal⟩ := hn.act
      rw [track_act] at hq
      split at hq
      · next hp =>
          subst hp
          rw [hs] at hq
          cases hq
          exact hstep hr hs hx hal (ih p s₀ hs)
      · exact ih q s hq
  | spawn p call =>
      rw [track_spawn] at hq
      split at hq
      · cases hq; exact hinit call
      · exact ih q s hq
  | done p r =>
      rw [track_done] at hq
      split at hq
      · cases hq
      · exact ih q s hq
  | crash p =>
      rw [track_crash] at hq
      split at hq
      · cases hq
      · exact ih q s hq
  | tick d => exact ih q s (track_tick q d ▸ hq)

end run

/-- The processes started in a run. -/
def started (ts : List SysTrans) : List Nat :=
  ts.filterMap fun t =>
    match t.ev with
    | .spawn p _ => some p
    | _ => none

/-- A process that is running was started. -/
theorem mem_started {p : Nat} {ts : List SysTrans} (h : (track p ts).isSome = true) :
    p ∈ started ts := by
  induction ts using List.reverseRecOn with
  | nil => cases h
  | append_singleton ts t ih =>
      simp only [started, List.filterMap_append, List.mem_append] at ih ⊢
      obtain ⟨w, ev, w'⟩ := t
      cases ev with
      | spawn q call =>
          by_cases hq : q = p
          · exact .inr (by simp [hq])
          · exact .inl (ih (by simpa [hq] using h))
      | act q e a => exact .inl (ih (by by_cases hq : q = p <;> simpa [hq] using h))
      | done q r | crash q =>
          refine .inl (ih ?_)
          by_cases hq : q = p
          · simp [hq] at h
          · simpa [hq] using h
      | tick d => exact .inl (ih (by simpa using h))

/-! ## what a track says of its delivery -/

/-- The transaction in hand is about the delivery in hand. -/
structure Track.Sound (s : Track) : Prop where
  completing : ∀ k row wrote, s.stage = .completing k row wrote ∨ s.stage = .billed k row wrote →
    s.started = true ∧ s.left = false ∧ s.ended = none ∧
      ∃ i, s.ids = some i ∧ i.rid = k ∧ ∀ r, row = some r → r.tenantId = i.tenant
  failing : ∀ k, (s.stage = .erred k ∨ ∃ row wrote, s.stage.Failing k row wrote) →
    ∃ i, s.ids = some i ∧ i.rid = k
  completed : ∀ k row, s.ended = some (.completed k row) →
    ∃ i, s.ids = some i ∧ i.rid = k ∧ ∀ r, row = some r → r.tenantId = i.tenant

/-- It moves a delivery on. -/
def Eff.moves : Eff → Bool
  | .enterJob _ | .leaveJob _ | .handled _ | .xreadgroup _ | .xautoclaim _ _ | .commit => true
  | _ => false

section sound

variable {n p : Nat} {e : Eff} {a : Ans e} {o : Oracle} {w w' : World} {s : Track}
  {st st' : Stage} {k : Uuid} {row : Option JobIdempotency} {wrote : Bool}

/-- The same delivery, and the same said about it. -/
structure Track.SameDelivery (s s' : Track) : Prop where
  held : s'.held = s.held
  started : s'.started = s.started
  left : s'.left = s.left
  ended : s'.ended = s.ended

theorem Track.next_frame (s : Track) (he : e.moves = false) (a : Ans e) :
    s.SameDelivery (s.next e a) := by
  cases a with
  | error x => exact ⟨rfl, rfl, rfl, rfl⟩
  | ok b =>
      cases e <;> first
        | exact ⟨rfl, rfl, rfl, rfl⟩
        | (simp only [Track.next, Track.onOk]; split <;> exact ⟨rfl, rfl, rfl, rfl⟩)
        | cases he

theorem Track.SameDelivery.ids {s s' : Track} (h : s.SameDelivery s') : s'.ids = s.ids := by
  simp only [Track.ids, Track.job, h.held]

/-- A success transaction was open, or `complete` has just looked up its
row. -/
theorem Turn.completing_of (h : Turn p w w' st e a st')
    (hs : st' = .completing k row wrote ∨ st' = .billed k row wrote) :
    (∃ wrote, st = .completing k row wrote ∨ st = .billed k row wrote) ∨
      ∃ t, e = .selectIdem .complete t k ∧ row = w.lookupIdem p t k := by
  have hidle (hi : st'.idle = true) {P : Prop} : P := by
    rcases hs with rfl | rfl <;> cases hi
  cases h with
  | calm _ _ => exact .inl ⟨_, hs⟩
  | dropped _ _ => exact hidle (Stage.idle_dropped _)
  | committed hc _ => exact hidle (Stage.idle_committed hc)
  | aborted _ _ | unheard _ _ | found _ _ _ | errs _ _ | escapes _ _ | submits _ _ _ _
  | refused _ _ _ _ => exact hidle rfl
  | @completing t rid _ =>
      rcases hs with hs | hs <;> injection hs
      next hk hr _ => exact .inr ⟨t, by rw [hk], by rw [← hr, hk]⟩
  | completes _ _ _ _ | bills _ _ _ _ _ =>
      rcases hs with hs | hs <;> cases hs
      exact .inl ⟨_, .inl rfl⟩
  | _ => rcases hs with hs | hs <;> cases hs

/-- An error chunk was out, or is now. -/
theorem Turn.failing_of (h : Turn p w w' st e a st')
    (hs : st' = .erred k ∨ ∃ row wrote, st'.Failing k row wrote) :
    (st = .erred k ∨ ∃ row wrote, st.Failing k row wrote) ∨
      ∃ r, e = .xaddResult r ∧ r.requestId = k := by
  cases h with
  | calm _ _ => exact .inl hs
  | @dropped st e a _ _ =>
      rcases hs with hs | ⟨_, _, hs | hs | hs⟩ <;> cases st <;> cases hs
  | @committed st _ _ =>
      rcases hs with hs | ⟨_, _, hs | hs | hs⟩ <;> cases st <;> cases hs <;> contradiction
  | @failing t rid _ =>
      rcases hs with hs | ⟨_, _, hs | hs | hs⟩ <;> injection hs
      next hk _ _ => exact .inl (.inl (by rw [hk]))
  | fails _ _ _ | billedBefore _ _ _ | unbilled _ _ =>
      rcases hs with hs | ⟨_, _, hs | hs | hs⟩ <;> cases hs
      exact .inl (.inr ⟨_, _, .inl rfl⟩)
  | records _ _ _ _ =>
      rcases hs with hs | ⟨_, _, hs | hs | hs⟩ <;> cases hs
      exact .inl (.inr ⟨_, _, .inr (.inl rfl)⟩)
  | @errs r _ _ =>
      rcases hs with hs | ⟨_, _, hs | hs | hs⟩ <;> cases hs
      exact .inr ⟨r, rfl, rfl⟩
  | _ => rcases hs with hs | ⟨_, _, hs | hs | hs⟩ <;> cases hs

/-- Nothing is open and nothing is committed. -/
theorem Track.sound_of_idle (hst : s.stage = .none) (hend : s.ended = none) : s.Sound where
  completing k row wrote hs := by rw [hst] at hs; rcases hs with hs | hs <;> cases hs
  failing k hs := by rw [hst] at hs; rcases hs with hs | ⟨_, _, hs | hs | hs⟩ <;> cases hs
  completed k row he := by rw [hend] at he; cases he

/-- An await that leaves the delivery alone. -/
theorem Track.Sound.frame (h : s.Sound) (hx : exec p e o w = some (a, w'))
    (hal : Allows n s e) (he : e.moves = false) : (s.next e a).Sound := by
  have hf := s.next_frame he a
  have hT := turn_of_exec hx hal
  refine ⟨fun k row wrote hs => ?_, fun k hs => ?_, fun k row hc => ?_⟩
  · rw [hf.started, hf.left, hf.ended, hf.ids]
    rcases hT.completing_of hs with ⟨wrote, hs⟩ | ⟨t, rfl, rfl⟩
    · exact h.completing k row wrote hs
    · obtain ⟨-, hend, hstart, hleft, i, hi, rfl, rfl⟩ := hal
      refine ⟨hstart, hleft, hend, i, hi, rfl, fun r hr => ?_⟩
      have hr := (Option.filter_eq_some_iff.1 hr).2
      simp only [decide_eq_true_eq] at hr
      exact hr.1
  · rw [hf.ids]
    rcases hT.failing_of hs with hs | ⟨r, rfl, rfl⟩
    · exact h.failing k hs
    · exact hal.2.1
  · rw [hf.ended] at hc
    rw [hf.ids]
    exact h.completed k row hc

/-- A commit. -/
theorem Track.Sound.commit (h : s.Sound) (hal : Allows n s .commit)
    (a : Ans .commit) : (s.next .commit a).Sound := by
  have hids : (s.next .commit a).ids = s.ids := by cases a <;> rfl
  have hidle : (s.next .commit a).stage.idle = true := by
    cases a with
    | ok b => exact Stage.idle_committed hal
    | error x =>
        rw [show (s.next .commit (.error x)).stage = s.stage.raised .commit from rfl,
          Stage.raised_of_isSql rfl]
        rfl
  have hne : ∀ k, (s.next .commit a).stage ≠ .erred k := by
    intro k hk
    cases a with
    | ok b =>
        rw [show (s.next .commit (.ok b)).stage = s.stage.committed from rfl] at hk
        have hc : s.stage.committable = true := hal
        cases hs : s.stage <;> rw [hs] at hk hc <;> first | (cases hk; done) | cases hc
    | error x =>
        rw [show (s.next .commit (.error x)).stage = s.stage.raised .commit from rfl,
          Stage.raised_of_isSql rfl] at hk
        cases hk
  refine ⟨fun k row wrote hs => ?_, fun k hs => ?_, fun k row hc => ?_⟩
  · rcases hs with hs | hs <;> rw [hs] at hidle <;> cases hidle
  · rcases hs with hs | ⟨_, _, hs | hs | hs⟩
    · exact absurd hs (hne k)
    all_goals rw [hs] at hidle; cases hidle
  · rw [hids]
    cases a with
    | error x => exact h.completed k row hc
    | ok b =>
        rw [show (s.next .commit (.ok b)).ended = s.stage.jobEnd.or s.ended from rfl] at hc
        cases hs : s.stage <;> rw [hs] at hc <;> first
          | exact h.completed k row hc
          | cases hc
        obtain ⟨-, -, -, i, hi, hk, hrow⟩ := h.completing _ _ _ (.inr hs)
        exact ⟨i, hi, hk, hrow⟩

/-- An await that raises outside a transaction. -/
theorem Track.Sound.onError_none (h : s.Sound) (hst : s.stage = .none) {x : Exn} :
    (s.onError e x).Sound := by
  have hn : (s.onError e x).stage = .none :=
    (congrArg (Stage.raised · e) hst).trans (Stage.raised_none e)
  refine ⟨fun k row wrote hs => ?_, fun k hs => ?_, h.completed⟩
  · rw [hn] at hs
    rcases hs with hs | hs <;> cases hs
  · rw [hn] at hs
    rcases hs with hs | ⟨_, _, hs | hs | hs⟩ <;> cases hs

/-- A new delivery, or none. -/
theorem Track.Sound.deliver (h : s.Sound) (d : Option (Nat × EntryFields)) :
    (s.deliver d).Sound := by
  cases d with
  | none => exact h
  | some d => exact Track.sound_of_idle rfl rfl

/-- **The step lemma of tracks.** -/
theorem Track.Sound.next (h : s.Sound) (hx : exec p e o w = some (a, w'))
    (hal : Allows n s e) : (s.next e a).Sound := by
  by_cases he : e.moves = false
  · exact h.frame hx hal he
  cases e with
  | commit => exact h.commit hal a
  | enterJob entry =>
      have hstart : s.started = false := hal.2.1
      cases a with
      | error x => exact absurd (possible_of_exec hx).1 (by simp [Eff.fallible])
      | ok b =>
          refine ⟨fun k row wrote hs => ?_, h.failing, h.completed⟩
          obtain ⟨hc, -⟩ := h.completing k row wrote hs
          simp [hstart] at hc
  | leaveJob entry =>
      cases a with
      | error x => exact absurd (possible_of_exec hx).1 (by simp [Eff.fallible])
      | ok b =>
          refine ⟨fun k row wrote hs => ?_, h.failing, h.completed⟩
          have hs' : s.stage = .completing k row wrote ∨ s.stage = .billed k row wrote := hs
          rw [hal.2] at hs'
          rcases hs' with hs' | hs' <;> cases hs'
  | handled entry =>
      cases a with
      | error x => exact absurd (possible_of_exec hx).1 (by simp [Eff.fallible])
      | ok b => exact Track.sound_of_idle rfl rfl
  | xreadgroup c =>
      cases a with
      | error x => exact h.onError_none hal.2
      | ok b => exact h.deliver b
  | xautoclaim c m =>
      cases a with
      | error x => exact h.onError_none hal.2
      | ok b => exact h.deliver b
  | _ => exact absurd rfl he

end sound

/-- The transaction in hand is about the delivery in hand, in every run. -/
theorem Run.sound {S : Settings} {w₀ w : World} {ts : List SysTrans} (h : Run S w₀ ts w) :
    ∀ p s, track p ts = some s → s.Sound :=
  h.each (fun call => Track.sound_of_idle (by cases call <;> rfl) (by cases call <;> rfl))
    fun _ _ hx hal hs => hs.next hx hal

/-! ## a small deployment -/

/-- Default limits, and the identity for what comes from outside. -/
def plain : Settings where
  repr _ := ""
  voiceIdMatches _ := true
  hashJobBody b := b.text
  hashSyncBody b := b.text
  hashSegment s := s
  presignedUrl u := u
  applyVoiceSettings pcm _ _ := .ok pcm

/-- Every tenant and API key exists, and nothing else does. -/
def blank : World where
  now := 0
  tenants _ := true
  apiKeys _ := true
  idem := .ofRows fun _ => none
  usage := .ofRows fun _ => none
  jobs := {}
  results _ := {}
  dlq := []
  nextId := 1

theorem fresh_blank : blank.Fresh where
  idem := rfl
  usage := rfl
  lastDelivered := rfl
  pel := rfl
  ids := List.Pairwise.nil
  pos := nofun
  nextId := Nat.one_pos
  results _ := rfl
  dlq := rfl

/-- An active voice without a watermark. -/
def someVoice : Voice where
  id := 7
  voiceId := py "v"
  licenseKind := py "own"
  referenceUri := py "r"
  referenceSha256 := py "s"

/-- A scheduling decision of the deployment. -/
abbrev Move : Type := Label Oracle Call

/-- The next `n` awaits of process `p` are answered, with nothing from
outside. -/
def steps (p n : Nat) : List Move := List.replicate n (.act p (.goes {}))

/-- The next await of process `p` is answered. -/
def step (p : Nat) (h : Hint) : Move := .act p (.goes h)

/-- The key of the example requests. -/
def someKey : Uuid := 1

/-- `POST /v1/tts/jobs` under that key. -/
def somePost : Call :=
  .createTtsJob ⟨2, 3⟩ { idempotencyKey := some (uuidStr someKey) }
    { text := py "hi", voiceId := py "v" }

/-- The checks of a `POST`, up to its lookup of the key and the backpressure
decision. -/
def postChecks (p : Nat) : List Move :=
  [.spawn p somePost, step p { voice := some someVoice }, step p { flag := true }] ++ steps p 4

/-- One `POST`, answered and finished. -/
def onePost (p : Nat) : List Move := postChecks p ++ steps p 6 ++ [.done p]

/-- A worker takes the job, up to the engine's run. -/
def pickUp (p : Nat) : List Move :=
  .spawn p (.worker 1) :: steps p 10 ++ [step p { voice := some someVoice }] ++ steps p 6

/-- The engine yields one chunk, which is published and archived. -/
def produceOne (p : Nat) : List Move :=
  step p { run := ⟨[⟨[1, 2], 24000, none⟩], none⟩ } :: steps p 5 ++
    [step p { uri := some (py "u") }]

/-- The success transaction, up to its commit. -/
def commitOne (p : Nat) : List Move := steps p 5

/-- The final marker, the acknowledgement and the end of the worker's turn. -/
def finishOne (p : Nat) : List Move := steps p 9 ++ [.done p]

/-- A worker takes the job and does not find the voice, up to the error
chunk. -/
def voicelessPickUp (p : Nat) : List Move := .spawn p (.worker 1) :: steps p 14

/-- Another worker takes the job over, up to its lookup of the voice. -/
def takeOver (p : Nat) : List Move := [.tick 30000, .spawn p (.worker 1)] ++ steps p 13

end NeuroVoice
