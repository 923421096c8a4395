import NeuroVoice.Enqueue
import NeuroVoice.Quiet
import NeuroVoice.Ledger.Commit

/-!
# NeuroVoice.Replay

What `POST /v1/tts/jobs` and `GET /v1/tts/jobs/{id}` answer under one key.

A replayed `POST` is answered from the row of the key, and so is a `GET`; but
the `POST` whose `XADD` failed deletes the row, whoever else has been answered
from it, and the two routes spell the status `failed` differently.
`replay_honest` says when the answers agree all the same.
-/

namespace NeuroVoice

/-! ## what a call has asked -/

/-- What a `POST` has learnt of the row of its key. -/
inductive Met where
  | none
  /-- Its own lookup met the row. -/
  | replayed (tenant key : Uuid) (row : JobIdempotency)
  /-- It has inserted the row, and not committed it. -/
  | inserted (tenant key : Uuid)
  /-- `reserve_or_get` met the row, or its insertion is committed. -/
  | reserved (tenant key : Uuid)

/-- What a `GET` has learnt of the row. -/
inductive Polled where
  | waiting
  /-- One of its awaits raised. -/
  | failed
  /-- What its lookup returned. -/
  | row (tenant key : Uuid) (row : Option JobIdempotency)

/-- Neither a lookup nor an insertion of a row. -/
def Eff.aside : Eff → Prop
  | .selectIdem _ _ _ | .insertIdem _ _ _ _ _ => False
  | _ => True

namespace Met

/-- An await was answered. -/
def onOk (m : Met) : (e : Eff) → Ret e → Met
  | .selectIdem .upfront t k, some row => .replayed t k row
  | .selectIdem .reserve t k, some _ => .reserved t k
  | .selectIdem .reread t k, some _ => .reserved t k
  | .insertIdem t k _ _ _, _ => .inserted t k
  | .commit, _ =>
      match m with
      | .inserted t k => .reserved t k
      | m => m
  | _, _ =>
      match m with
      | .inserted _ _ => .none
      | m => m

/-- An await is over. -/
def next (m : Met) (e : Eff) (a : Ans e) : Met :=
  match a with
  | .ok b => m.onOk e b
  | .error _ => .none

/-- The `POST` may still be answered from the row. -/
def Relies (m : Met) (tenant key : Uuid) : Prop :=
  (∃ row, m = .replayed tenant key row) ∨ m = .reserved tenant key

end Met

/-- The status a `GET` reports; `none` when it raises. -/
def statusOf : Outcome → Option JobStatus
  | .ok (.status resp) => some resp.status
  | _ => none

/-- What a `GET` has learnt determines the status it reports. -/
def Polled.Answers (tenant key : Uuid) (status : Option JobStatus) : Polled → Prop
  | .waiting => False
  | .failed => True
  | .row t k none => t = tenant ∧ k = key
  | .row t k (some r) => t = tenant ∧ k = key ∧
      status = some (mapIdempotencyStatusToJobStatus r.status)

/-- An await was answered. -/
def Polled.onOk (m : Polled) : (e : Eff) → Ret e → Polled
  | .selectIdem .poll t k, r => .row t k r
  | _, _ => m

/-- An await of a `GET` is over. -/
def Polled.next (m : Polled) (e : Eff) (a : Ans e) : Polled :=
  match a with
  | .ok b => m.onOk e b
  | .error _ => .failed

/-- What a call has learnt. -/
inductive Asked where
  | post (ctx : AuthContext) (h : Headers) (met : Met)
  | poll (ctx : AuthContext) (jobId : PyStr) (polled : Polled)
  | other

namespace Asked

/-- An await is over. -/
def next (s : Asked) (e : Eff) (a : Ans e) : Asked :=
  match s with
  | .post ctx h met => .post ctx h (met.next e a)
  | .poll ctx jobId polled => .poll ctx jobId (polled.next e a)
  | .other => .other

/-- What a call has learnt before its first await. -/
def init : Call → Asked
  | .createTtsJob ctx h _ => .post ctx h .none
  | .getTtsJob ctx jobId => .poll ctx jobId .waiting
  | _ => .other

/-- What a finished call has learnt fits its answer. -/
def Fits : Asked → Outcome → Prop
  | .post ctx h met, r => ∀ a, r = .ok (.accepted a) → parseIdempotencyKey h = .ok a.jobId ∧
      if a.deduplicated then
        ∃ row, met = .replayed ctx.tenantId a.jobId row ∧ a.status = replayStatus row
      else met = .reserved ctx.tenantId a.jobId
  | .poll ctx jobId polled, r => ∀ key, parseUuid jobId = some key →
      polled.Answers ctx.tenantId key (statusOf r)
  | .other, _ => True

end Asked

/-- The calls of the deployment, and what they ask. -/
def askProtocol : Protocol Eff Ans Call Outcome Asked where
  possible := Possible
  allows _ _ := True
  next := Asked.next
  init := Asked.init
  fin := Asked.Fits

/-! ## the routes -/

section post

variable {S : Settings} {ctx : AuthContext} {h : Headers} {met : Met} {α : Type}

/-- `x`, run by a `POST`, ends with `Q` unless it raises. -/
abbrev Posts (ctx : AuthContext) (h : Headers) (met : Met) (x : Py α) (Q : Met → α → Prop) :
    Prop :=
  Goes askProtocol.toMonitor (.post ctx h met) x fun s a => ∃ met', s = .post ctx h met' ∧ Q met' a

namespace Posts

variable {β : Type} {Q : Met → α → Prop}

/-- A value that was met is what the post ends with. -/
theorem ret {a : α} (hq : Q met a) : Posts ctx h met (pure a) Q :=
  (spec_pure _).2 ⟨met, rfl, hq⟩

/-- An exception promises nothing. -/
theorem raise (e : Exn) : Posts ctx h met (throw e : Py α) Q := trivial

/-- An await is met as it is answered. -/
theorem call {e : Eff} {Q : Met → Ret e → Prop} (hq : ∀ b, Q (met.onOk e b) b) :
    Posts ctx h met (await e) Q :=
  Goes.call trivial fun b => ⟨_, rfl, hq b⟩

/-- A sequence goes on with what its first part met. -/
theorem seq {x : Py β} {f : β → Py α} {Q' : Met → β → Prop} (hx : Posts ctx h met x Q')
    (hf : ∀ met' b, Q' met' b → Posts ctx h met' (f b) Q) : Posts ctx h met (x >>= f) Q := by
  refine Goes.seq hx ?_
  rintro _ b ⟨met', rfl, hq⟩
  exact hf met' b hq

/-- An await, and what follows it. -/
theorem step {e : Eff} {f : Ret e → Py α} (hf : ∀ b, Posts ctx h (met.onOk e b) (f b) Q) :
    Posts ctx h met (await e >>= f) Q :=
  Goes.step trivial hf

end Posts

/-- The gauges are beside the ledger. -/
theorem Eff.gauges.aside {e : Eff} (he : e.gauges) : e.aside := by
  cases e <;> trivial

/-- What is beside the ledger meets no row. -/
theorem none_next_of_aside {e : Eff} (he : e.aside) (a : Ans e) : Met.none.next e a = .none := by
  cases a with
  | error x => rfl
  | ok b => cases e <;> first | rfl | exact he.elim

/-- A part that asks for no row, before a row is met. -/
theorem Posts.aside {β : Type} {Q : Met → α → Prop} {x : Py β} {f : β → Py α}
    (hx : Only Eff.aside x) (hf : ∀ b, Posts ctx h .none (f b) Q) :
    Posts ctx h .none (x >>= f) Q := by
  have hskip : Posts ctx h .none x fun met' _ => met' = .none :=
    Spec.mono (Goes.only hx fun _ he => ⟨trivial, fun a => congrArg (Asked.post ctx h)
      (none_next_of_aside he a)⟩) (fun _ _ hs => ⟨.none, hs, rfl⟩) fun _ _ _ => trivial
  exact seq hskip fun _ b hm => hm ▸ hf b

/-- What `reserve_or_get` leaves a `POST` with. -/
def Taken (t k : Uuid) (met : Met) : Prop := met = .inserted t k ∨ met = .reserved t k

/-- A replay ends with the row that was met. -/
theorem posts_replay {t k rid : Uuid} (hash : PyStr) (row : JobIdempotency) :
    Posts ctx h (.reserved t k) (IdempotencyRepo.replay rid hash row)
      fun met _ => Taken t k met := by
  unfold IdempotencyRepo.replay
  split
  · exact Posts.raise _
  · exact Posts.ret (.inr rfl)

/-- So does a second look. -/
theorem posts_reread (t k apiKey : Uuid) (hash : PyStr) (ttl : Option Nat) :
    Posts ctx h .none (IdempotencyRepo.reread t k apiKey hash ttl) fun met _ => Taken t k met := by
  refine Posts.step fun _ => Posts.step fun winner => ?_
  cases winner with
  | none => exact Posts.step fun row => Posts.ret (.inl rfl)
  | some row => exact posts_replay hash row

/-- A reservation ends with a row of its own, or with the one it met. -/
theorem posts_reserveOrGet (t k apiKey : Uuid) (hash : PyStr) (ttl : Option Nat) :
    Posts ctx h .none (IdempotencyRepo.reserveOrGet t k apiKey hash ttl)
      fun met _ => Taken t k met := by
  refine Posts.step fun row => ?_
  cases row with
  | some row => exact posts_replay hash row
  | none =>
      refine (spec_bind _ _).2 ((spec_tryCatch _ _).2 ((spec_bind _ _).2 ((spec_callE _).2
        ⟨trivial, fun row _ => ?_, fun x _ => ?_⟩)))
      · exact (spec_pure _).2 (Posts.ret (.inl rfl))
      · refine (spec_pure _).2 ?_
        split
        · next heq => cases heq
        · exact posts_reread t k apiKey hash ttl
        · exact Posts.raise _

/-- The guarded section. -/
theorem posts_replayOrReserve (key : Uuid) (hash : PyStr) :
    Posts ctx h .none (replayOrReserve S ctx key hash) fun met r =>
      match r with
      | .inl a => a.jobId = key ∧ a.deduplicated = true ∧
          ∃ row, met = .replayed ctx.tenantId key row ∧ a.status = replayStatus row
      | .inr _ => Taken ctx.tenantId key met := by
  refine Posts.step fun existing => ?_
  cases existing with
  | some row =>
      dsimp only
      split
      · exact (spec_bind _ _).2 trivial
      · exact Posts.ret ⟨rfl, rfl, row, rfl, rfl⟩
  | none =>
      refine Posts.aside (only_checkQueueDepthOr503.mono fun _ => Eff.gauges.aside) fun _ => ?_
      exact Posts.seq (posts_reserveOrGet _ _ _ _ _) fun met' r hm => Posts.ret hm

/-- The voice's look-up is beside the ledger. -/
theorem only_assertVoiceAccessibleOr404 (voiceId : PyStr) :
    Only Eff.aside (assertVoiceAccessibleOr404 S ctx voiceId) := by
  unfold assertVoiceAccessibleOr404
  dsimp only
  split
  · exact .raise _
  · refine Only.tick trivial fun voice => ?_
    cases voice with
    | none => exact .raise _
    | some voice => exact .ret _

/-- So is its consent's. -/
theorem only_ensureVoiceSynthesizable (voice : Voice) :
    Only Eff.aside (ensureVoiceSynthesizable voice) := by
  have hconsent : Only Eff.aside (do
      if !(← await (.selectConsent voice.id)) then
        throw (.voiceNotSynthesizable "voice_no_active_consent"
          "voice has no active consent on file") : Py Unit) := by
    refine Only.tick trivial fun consent => ?_
    cases consent with
    | false => exact .raise _
    | true => exact .ret _
  unfold ensureVoiceSynthesizable
  dsimp only
  split
  · exact Only.bind (.raise _) fun _ => hconsent
  · exact hconsent

/-- Submitting, or raising. -/
theorem posts_submitOrUndo (tenant rid t k : Uuid) (job : TtsJobPayload) (detail : String) :
    Posts ctx h (.reserved t k) (submitOrUndo tenant rid job detail)
      fun met _ => met = .reserved t k := by
  refine (spec_tryCatch _ _).2 ((spec_callE _).2 ⟨trivial, fun _ _ => ⟨_, rfl, rfl⟩,
    fun x _ => ?_⟩)
  split
  · exact Goes.step trivial fun _ => Goes.step trivial fun _ => trivial
  · exact trivial

/-- The request's session. -/
theorem posts_requestSession {x : Py α} {Q : Met → α → Prop}
    (hx : Posts ctx h met x fun met' a => Q (met'.onOk .close ()) a) :
    Posts ctx h met (requestSession x) Q := by
  have hin : Posts ctx h met (exceptException x fun e => do
      let _ ← await .rollback
      throw e) fun met' a => Q (met'.onOk .close ()) a := by
    refine (spec_tryCatch _ _).2 (Spec.mono hx (fun _ _ hq => hq) fun s e _ => ?_)
    split
    · exact Goes.step trivial fun _ => trivial
    · exact trivial
  refine Goes.seq (Goes.outcomeOf hin) fun s r hr => Goes.step trivial fun _ => ?_
  cases r with
  | ok a =>
      obtain ⟨met', rfl, hq⟩ := hr a rfl
      exact (spec_pure _).2 ⟨_, rfl, hq⟩
  | error e => exact trivial

/-- **What a `POST` answers** fits what it has met. -/
theorem posts_createTtsJob (body : TtsBody) :
    Posts ctx h .none (createTtsJob S ctx h body) fun met a =>
      parseIdempotencyKey h = .ok a.jobId ∧
        if a.deduplicated then
          ∃ row, met = .replayed ctx.tenantId a.jobId row ∧ a.status = replayStatus row
        else met = .reserved ctx.tenantId a.jobId := by
  refine posts_requestSession ?_
  dsimp only
  split
  · exact (spec_bind _ _).2 trivial
  cases hkey : parseIdempotencyKey h with
  | error e => exact (spec_bind _ _).2 trivial
  | ok key =>
      refine (spec_bind _ _).2 ((spec_pure _).2 ?_)
      refine Posts.aside (only_assertVoiceAccessibleOr404 _) fun voice => ?_
      refine Posts.aside (only_ensureVoiceSynthesizable _) fun _ => ?_
      refine Posts.aside (only_requestPreset _) fun preset => ?_
      refine Posts.seq ((spec_tryCatch _ _).2 (Spec.mono (posts_replayOrReserve key _)
        (fun _ _ hq => hq) fun s e _ => ?_)) fun met' r hr => ?_
      · split <;> exact trivial
      cases r with
      | inl a =>
          obtain ⟨rfl, hd, row, rfl, hs⟩ := hr
          exact Posts.ret ⟨rfl, by rw [if_pos hd]; exact ⟨row, rfl, hs⟩⟩
      | inr row =>
          have hcommit : met'.onOk .commit () = .reserved ctx.tenantId key := by
            rcases hr with rfl | rfl <;> rfl
          refine Posts.step fun _ => ?_
          rw [show met'.onOk .commit _ = .reserved ctx.tenantId key from hcommit]
          refine Posts.step fun now => Posts.seq (posts_submitOrUndo _ _ _ _ _ _) ?_
          rintro _ _ rfl
          exact Posts.ret ⟨rfl, rfl⟩

end post

section poll

variable {S : Settings} {ctx : AuthContext} {jobId : PyStr} {polled : Polled} {key : Uuid}
  {α : Type}

/-- `x`, run by a `GET`, ends with an answer that fits what it has learnt. -/
abbrev Polls (ctx : AuthContext) (jobId : PyStr) (key : Uuid) (polled : Polled) (x : Py α)
    (status : α → JobStatus) : Prop :=
  Spec askProtocol.toMonitor (.poll ctx jobId polled) x
    (fun s a => ∃ polled', s = .poll ctx jobId polled' ∧
      polled'.Answers ctx.tenantId key (some (status a)))
    fun s _ => ∃ polled', s = .poll ctx jobId polled' ∧ polled'.Answers ctx.tenantId key none

/-- The request's session moves nothing. -/
theorem polls_requestSession {x : Py α} {status : α → JobStatus}
    (hx : Polls ctx jobId key polled x status) :
    Polls ctx jobId key polled (requestSession x) status := by
  have hin : Polls ctx jobId key polled (exceptException x fun e => do
      let _ ← await .rollback
      throw e) status := by
    refine (spec_tryCatch _ _).2 (Spec.mono hx (fun _ _ hq => hq) ?_)
    rintro _ e ⟨polled', rfl, ha⟩
    split
    · refine (spec_bind _ _).2 ((spec_callE _).2 ⟨trivial, fun _ _ => ⟨_, rfl, ha⟩, ?_⟩)
      rintro x ⟨hf, -⟩
      cases hf
    · exact ⟨_, rfl, ha⟩
  refine (spec_bind _ _).2 ((spec_tryCatch _ _).2 ((spec_bind _ _).2 (Spec.mono hin ?_ ?_)))
  · rintro _ a ⟨polled', rfl, ha⟩
    refine (spec_pure _).2 ((spec_bind _ _).2 ((spec_callE _).2
      ⟨trivial, fun _ _ => ⟨_, rfl, ha⟩, ?_⟩))
    rintro x ⟨hf, -⟩
    cases hf
  · rintro _ e ⟨polled', rfl, ha⟩
    refine (spec_pure _).2 ((spec_bind _ _).2 ((spec_callE _).2
      ⟨trivial, fun _ _ => ⟨_, rfl, ha⟩, ?_⟩))
    rintro x ⟨hf, -⟩
    cases hf

/-- **What a `GET` answers** fits what it has learnt. -/
theorem polls_getTtsJob (hkey : parseUuid jobId = some key) :
    Polls ctx jobId key .waiting (getTtsJob S ctx jobId) TtsJobStatusResponse.status := by
  refine polls_requestSession ?_
  rw [hkey]
  refine (spec_bind _ _).2 ((spec_callE _).2 ⟨trivial, fun row _ => ?_, fun x _ => ?_⟩)
  · cases row with
    | none => exact ⟨_, rfl, rfl, rfl⟩
    | some row =>
        dsimp only
        split
        · refine (spec_bind _ _).2 ((spec_callE _).2 ⟨trivial, fun usage _ => ?_, fun x _ => ?_⟩)
          · exact ⟨_, rfl, rfl, rfl, rfl⟩
          · exact ⟨_, rfl, trivial⟩
        · exact ⟨_, rfl, rfl, rfl, rfl⟩
  · exact ⟨_, rfl, trivial⟩

/-- A reply made of such an answer fits what has been learnt. -/
theorem Polls.fits {x : Py TtsJobStatusResponse} (hkey : parseUuid jobId = some key)
    (hx : Polls ctx jobId key .waiting x TtsJobStatusResponse.status) :
    Conforms askProtocol.toMonitor (.poll ctx jobId .waiting)
      (do return Reply.status (← x) : Py Reply).run Asked.Fits := by
  have hreply : Spec askProtocol.toMonitor (.poll ctx jobId .waiting)
      (do return Reply.status (← x) : Py Reply)
      (fun s r => s.Fits (.ok r)) fun s e => s.Fits (.error e) := by
    refine (spec_bind _ _).2 (Spec.mono hx ?_ ?_)
    · rintro _ resp ⟨polled, rfl, ha⟩
      refine (spec_pure _).2 fun k hk => ?_
      cases hkey.symm.trans hk
      exact ha
    · rintro _ e ⟨polled, rfl, ha⟩ k hk
      cases hkey.symm.trans hk
      exact ha
  exact Conforms.mono hreply fun s r hr => by cases r <;> exact hr

end poll

/-- Every await is allowed. -/
theorem conforms_free {α : Type} {p : Prog Eff Ans α} {s : Asked} :
    Conforms askProtocol.toMonitor s p fun _ _ => True := by
  induction p generalizing s with
  | ret r => exact trivial
  | eff e k ih => exact ⟨trivial, fun a _ => ih a⟩

/-- A call that asks for nothing fits every answer. -/
theorem conforms_other {p : Prog Eff Ans Outcome} :
    Conforms askProtocol.toMonitor .other p Asked.Fits := by
  refine (conforms_free.keep (I := (· = .other)) rfl ?_).mono ?_
  · rintro _ e a rfl
    rfl
  · rintro _ r ⟨-, rfl⟩
    trivial

/-- **Every answer fits what its call has learnt.** -/
theorem system_asks (S : Settings) : (system S).Follows askProtocol where
  answers := possible_of_exec
  conforms call := by
    cases call with
    | createTtsJob ctx h body =>
        have hpost : Goes askProtocol.toMonitor (.post ctx h .none)
            (do return Reply.accepted (← createTtsJob S ctx h body))
            fun s r => s.Fits (.ok r) := by
          refine Goes.seq (posts_createTtsJob body) ?_
          rintro _ a ⟨met, rfl, hfits⟩
          refine (spec_pure _).2 fun a' ha => ?_
          cases ha
          exact hfits
        refine (Conforms.keep hpost (I := fun s => ∃ met, s = .post ctx h met) ⟨_, rfl⟩ ?_).mono ?_
        · rintro _ e a ⟨met, rfl⟩
          exact ⟨_, rfl⟩
        · rintro _ r ⟨hr, met, rfl⟩
          cases r with
          | ok r => exact hr
          | error x => exact fun a ha => nomatch ha
    | getTtsJob ctx jobId =>
        cases hkey : parseUuid jobId with
        | none =>
            refine (conforms_free.keep (I := fun s => ∃ polled, s = .poll ctx jobId polled)
              ⟨_, rfl⟩ ?_).mono ?_
            · rintro _ e a ⟨polled, rfl⟩
              exact ⟨_, rfl⟩
            · rintro _ r ⟨-, polled, rfl⟩ key hk
              cases hkey.symm.trans hk
        | some key =>
            exact Polls.fits hkey (polls_getTtsJob hkey)
    | synthesize ctx h body fuel => exact conforms_other
    | synthesizeStream ctx h body fuel => exact conforms_other
    | streamInput ctx slug appLabel fuel segs => exact conforms_other
    | worker n => exact conforms_other

/-! ## runs -/

/-- What the events of a run say that process `p` has learnt. -/
def asked (p : Nat) (ts : List SysTrans) : Option Asked := askProtocol.watch p ts

/-- A `POST` of the key may still be answered from its row. -/
def ReliesOn (t k : Uuid) (ts : List SysTrans) (p : Nat) : Prop :=
  ∃ ctx h met, asked p ts = some (.post ctx h met) ∧ met.Relies t k

/-- A `POST` of the tenant is answered with 2xx under the key. -/
def Accepted (t k : Uuid) (past : List SysTrans) (e : SysTrans) : Prop :=
  ∃ p ctx h met a, e.ev = .done p (.ok (.accepted a)) ∧
    asked p past = some (.post ctx h met) ∧ ctx.tenantId = t ∧ a.jobId = k

/-- The committed row of the key is taken away. -/
def Undoes (k : Uuid) (e : SysTrans) : Prop :=
  (e.pre.idem.rows k).isSome = true ∧ e.post.idem.rows k = none

/-- Nobody is answered from a row that is taken away. -/
def UndoneAlone (t k : Uuid) (past : List SysTrans) (e : SysTrans) : Prop :=
  Undoes k e → ¬Once (Accepted t k) past ∧ ∀ p, ¬ReliesOn t k past p

/-- The tenant's row of the key is committed. -/
def RowThere (t k : Uuid) (w : World) : Prop :=
  ∃ row, w.idem.rows k = some row ∧ row.tenantId = t

/-- The upfront lookup of process `p` meets the committed row. -/
def Replays (p : Nat) (t k : Uuid) (row : JobIdempotency) (_past : List SysTrans)
    (e : SysTrans) : Prop :=
  e.ev = .act p (.selectIdem .upfront t k) (.ok (some row)) ∧ e.pre.idem.rows k = some row ∧
    row.tenantId = t ∧ e.pre.now < row.expiresAt

/-- Process `p` looks the key up when its row has expired. -/
def PollsExpired (p : Nat) (t k : Uuid) (_past : List SysTrans) (e : SysTrans) : Prop :=
  ∃ site row, e.ev = .act p (.selectIdem site t k) (.ok none) ∧ e.pre.idem.rows k = some row ∧
    row.expiresAt ≤ e.pre.now

/-- An await of process `p` raises. -/
def Raises (p : Nat) (_past : List SysTrans) (e : SysTrans) : Prop :=
  ∃ x f, e.ev = .act p x (.error f)

/-- Process `p` was started when `C` had happened. -/
def StartedAfter (C : List SysTrans → SysTrans → Prop) (p : Nat) (ts : List SysTrans) : Prop :=
  Once (fun past e => (∃ call, e.ev = .spawn p call) ∧ Once C past) ts

section run

variable {S : Settings} {w₀ w w' : World} {ts : List SysTrans} {ev : SysEvent} {t k : Uuid}
  {p q : Nat}

/-- What was asked is told step by step. -/
theorem asked_snoc (p : Nat) (ts : List SysTrans) (e : SysTrans) :
    asked p (ts ++ [e]) = askProtocol.observe p (asked p ts) e.ev :=
  Protocol.watch_snoc p ts e

/-- Only an await of its own moves a call that is running. -/
theorem asked_eq_some {e : SysTrans} {s : Asked} (h : asked p (ts ++ [e]) = some s) :
    (asked p ts = some s ∧ track p (ts ++ [e]) = track p ts ∧ ∀ call, e.ev ≠ .spawn p call) ∨
      (∃ call, e.ev = .spawn p call ∧ s = Asked.init call) ∨
      ∃ x a s₀, e.ev = .act p x a ∧ asked p ts = some s₀ ∧ s = s₀.next x a := by
  rw [asked_snoc] at h
  rw [track_snoc]
  cases hev : e.ev with
  | act q x a =>
      simp only [hev, Protocol.observe] at h
      split at h
      · next hq =>
          subst hq
          obtain ⟨s₀, hs₀, rfl⟩ := Option.map_eq_some_iff.1 h
          exact .inr (.inr ⟨x, a, s₀, rfl, hs₀, rfl⟩)
      · next hq => exact .inl ⟨h, if_neg hq, fun _ hc => by cases hc⟩
  | spawn q call =>
      simp only [hev, Protocol.observe] at h
      split at h
      · next hq =>
          subst hq
          cases h
          exact .inr (.inl ⟨call, rfl, rfl⟩)
      · next hq => exact .inl ⟨h, if_neg hq, fun c hc => by cases hc; exact hq rfl⟩
  | done q r | crash q =>
      simp only [hev, Protocol.observe] at h
      split at h
      · cases h
      · next hq => exact .inl ⟨h, if_neg hq, fun _ hc => by cases hc⟩
  | tick d =>
      exact .inl ⟨by simpa only [hev, Protocol.observe] using h, rfl, fun _ hc => by cases hc⟩

/-- A `POST` comes to rely on a row by a lookup that meets it, or by
committing its insertion. -/
theorem Met.next_relies {met : Met} {e : Eff} {a : Ans e} (h : (met.next e a).Relies t k) :
    met.Relies t k ∨
      (∃ site row, (site ≠ .complete ∧ site ≠ .fail) ∧
        (⟨e, a⟩ : (e : Eff) × Ans e) = ⟨.selectIdem site t k, .ok (some row)⟩) ∨
      ((⟨e, a⟩ : (e : Eff) × Ans e) = ⟨.commit, .ok ()⟩ ∧ met = .inserted t k) := by
  have hstays : ∀ m : Met, (match m with | .inserted _ _ => Met.none | m => m).Relies t k →
      m.Relies t k := by
    intro m hm
    cases m with
    | inserted _ _ => rcases hm with ⟨row, hm⟩ | hm <;> cases hm
    | _ => exact hm
  cases a with
  | error x => rcases h with ⟨row, h⟩ | h <;> cases h
  | ok b =>
      cases e with
      | selectIdem site t' k' =>
          cases b with
          | none => exact .inl (hstays met (by cases site <;> exact h))
          | some row =>
              cases site with
              | upfront | reserve | reread =>
                  rcases h with ⟨row, h⟩ | h <;> cases h
                  exact .inr (.inl ⟨_, _, ⟨by decide, by decide⟩, rfl⟩)
              | _ => exact .inl (hstays met h)
      | insertIdem _ _ _ _ _ => rcases h with ⟨row, h⟩ | h <;> cases h
      | commit =>
          cases met with
          | inserted t' k' =>
              rcases h with ⟨row, h⟩ | h <;> cases h
              exact .inr (.inr ⟨rfl, rfl⟩)
          | _ => exact .inl h
      | _ => exact .inl (hstays met h)

/-- Only an insertion leaves a `POST` with an uncommitted row. -/
theorem Met.next_inserted {met : Met} {e : Eff} {a : Ans e} (h : met.next e a = .inserted t k) :
    ∃ apiKey hash ttl row,
      (⟨e, a⟩ : (e : Eff) × Ans e) = ⟨.insertIdem t k apiKey hash ttl, .ok row⟩ := by
  cases a with
  | error x => cases h
  | ok b =>
      cases e with
      | selectIdem site t' k' => cases site <;> cases b <;> cases met <;> cases h
      | insertIdem _ _ _ _ _ => cases h; exact ⟨_, _, _, _, rfl⟩
      | _ => cases met <;> cases h

/-- Only the upfront lookup leaves it with a row to replay. -/
theorem Met.next_replayed {met : Met} {e : Eff} {a : Ans e} {row : JobIdempotency}
    (h : met.next e a = .replayed t k row) : met = .replayed t k row ∨
      (⟨e, a⟩ : (e : Eff) × Ans e) = ⟨.selectIdem .upfront t k, .ok (some row)⟩ := by
  cases a with
  | error x => cases h
  | ok b =>
      cases e with
      | selectIdem site t' k' =>
          cases site <;> cases b <;> cases met <;> first
            | (cases h; done)
            | (cases h; exact .inl rfl)
            | (cases h; exact .inr rfl)
      | insertIdem _ _ _ _ _ => cases h
      | _ => cases met <;> first | (cases h; done) | exact .inl h

/-- The row stays until it is taken away. -/
theorem RowThere.next (h : RowThere t k w) (hr : Run S w₀ ts w) (hn : Next S ts w ev w')
    (hu : ¬Undoes k ⟨w, ev, w'⟩) : RowThere t k w' := by
  obtain ⟨row, hrow, ht⟩ := h
  rcases hn.published hr k with ⟨hi, -⟩ | ⟨p, a, -, hp⟩
  · exact ⟨row, hi.trans hrow, ht⟩
  generalize stage p ts = st at hp
  cases hp with
  | billed hi _ _ _ | recorded _ _ hi _ _ _ => exact ⟨row, hi.trans hrow, ht⟩
  | completed hc hi _ _ _ _ _ | failed hc hi _ _ =>
      cases hrow.symm.trans hc
      exact ⟨_, hi, ht⟩
  | reserved hnone _ _ => cases hnone.symm.trans hrow
  | deleted _ _ hi _ => exact absurd ⟨by rw [hrow]; rfl, hi⟩ hu

/-- A lookup that is answered with a row meets a committed one. -/
theorem Next.lookup (hr : Run S w₀ ts w) {site : Site} {r : Option JobIdempotency}
    (hn : Next S ts w (.act p (.selectIdem site t k) (.ok r)) w')
    (hs : site ≠ .complete ∧ site ≠ .fail) :
    w' = w ∧ r = (w.idem.rows k).filter fun row => row.tenantId = t ∧ w.now < row.expiresAt := by
  obtain ⟨s, o, hp, hx, hal⟩ := hn.act
  obtain ⟨rfl, rfl⟩ := exec_selectIdem hx
  have hst : stage p ts = .none := by
    rw [show stage p ts = s.stage by simp [stage, hp]]
    cases site with
    | complete => exact absurd rfl hs.1
    | fail => exact absurd rfl hs.2
    | _ => exact hal
  refine ⟨rfl, ?_⟩
  rw [World.lookupIdem, TxTable.read_of_own_none]
  exact (hr.ledger.owned p).idem_none (not_writes (.inl (by rw [hst]; rfl))) k

/-- Only a lookup leaves a `GET` with an answer. -/
theorem Polled.next_row {polled : Polled} {e : Eff} {a : Ans e} {r : Option JobIdempotency}
    (h : polled.next e a = .row t k r) : polled = .row t k r ∨
      (⟨e, a⟩ : (e : Eff) × Ans e) = ⟨.selectIdem .poll t k, .ok r⟩ := by
  cases a with
  | error x => cases h
  | ok b =>
      cases e with
      | selectIdem site t' k' =>
          cases site with
          | poll => cases h; exact .inr rfl
          | _ => exact .inl h
      | _ => exact .inl h

/-- A poll fails with an await that fails. -/
theorem Polled.next_failed {polled : Polled} {e : Eff} {a : Ans e}
    (h : polled.next e a = .failed) : polled = .failed ∨ ∃ x, a = .error x := by
  cases a with
  | error x => exact .inr ⟨x, rfl⟩
  | ok b =>
      cases e with
      | selectIdem site t' k' =>
          cases site with
          | poll => cases h
          | _ => exact .inl h
      | _ => exact .inl h

/-- What holds throughout a run in which nobody is answered from a row that
is taken away. -/
structure Honest (t k : Uuid) (ts : List SysTrans) (w : World) : Prop where
  there : (∃ p, ReliesOn t k ts p) ∨ Once (Accepted t k) ts → RowThere t k w
  inserted : ∀ p ctx h, asked p ts = some (.post ctx h (.inserted t k)) →
    stage p ts = .inserted t k
  replayed : ∀ p ctx h row, asked p ts = some (.post ctx h (.replayed t k row)) →
    Once (Replays p t k row) ts
  polled : ∀ p ctx jobId, asked p ts = some (.poll ctx jobId (.row t k none)) →
    StartedAfter (Accepted t k) p ts → Once (PollsExpired p t k) ts
  failed : ∀ p ctx jobId, asked p ts = some (.poll ctx jobId .failed) → Once (Raises p) ts

/-- Before the first step nothing was told. -/
theorem honest_nil : Honest t k [] w₀ where
  there := by
    rintro (⟨p, ctx, h, met, hp, -⟩ | h)
    · cases hp
    · exact absurd h not_once_nil
  inserted _ _ _ h := by cases h
  replayed _ _ _ _ h := by cases h
  polled _ _ _ h := by cases h
  failed _ _ _ h := by cases h

/-- A `POST` that is answered with 2xx relies on the row. -/
theorem Accepted.reliesOn (hW : StepSeen (system S) askProtocol ts w ev w')
    (h : Accepted t k ts ⟨w, ev, w'⟩) : ∃ p, ReliesOn t k ts p := by
  obtain ⟨p, ctx, hd, met, a, rfl, hp, rfl, rfl⟩ := h
  obtain ⟨s, hs, hf, -⟩ := PStep.done_inv hW
  cases hp.symm.trans hs
  obtain ⟨-, hmet⟩ := hf a rfl
  refine ⟨p, ctx, hd, met, hp, ?_⟩
  split at hmet
  · obtain ⟨row, rfl, -⟩ := hmet
    exact .inl ⟨row, rfl⟩
  · exact .inr hmet

/-- The row of a call that relies on it, or has been answered from it. -/
theorem Honest.there_next (h : Honest t k ts w) (hr : Run S w₀ ts w) (hn : Next S ts w ev w')
    (hW : StepSeen (system S) askProtocol ts w ev w') (hc : UndoneAlone t k ts ⟨w, ev, w'⟩)
    (hnow : (∃ p, ReliesOn t k (ts ++ [⟨w, ev, w'⟩]) p) ∨
      Once (Accepted t k) (ts ++ [⟨w, ev, w'⟩])) : RowThere t k w' := by
  have hkept : (∃ p, ReliesOn t k ts p) ∨ Once (Accepted t k) ts → RowThere t k w' := by
    intro hrel
    refine (h.there hrel).next hr hn fun hu => ?_
    obtain ⟨hacc, hnone⟩ := hc hu
    rcases hrel with ⟨p, hp⟩ | hrel
    · exact hnone p hp
    · exact hacc hrel
  rcases hnow with ⟨p, ctx, hd, met', hp, hrel⟩ | hacc
  · rcases asked_eq_some hp with ⟨hp, -⟩ | ⟨call, -, hs⟩ | ⟨x, a, s₀, rfl, hs₀, hs⟩
    · exact hkept (.inl ⟨p, ctx, hd, met', hp, hrel⟩)
    · cases call with
      | createTtsJob ctx h body => cases hs; rcases hrel with ⟨row, h⟩ | h <;> cases h
      | _ => cases hs
    · cases s₀ with
      | post ctx₀ hd₀ met =>
          cases hs
          rcases Met.next_relies hrel with hrel | ⟨site, row, hsite, heq⟩ | ⟨heq, rfl⟩
          · exact hkept (.inl ⟨p, ctx, hd, met, hs₀, hrel⟩)
          · cases heq
            obtain ⟨rfl, hrow⟩ := hn.lookup hr hsite
            obtain ⟨hrow, hten⟩ := Option.filter_eq_some_iff.1 hrow.symm
            simp only [decide_eq_true_eq] at hten
            exact ⟨row, hrow, hten.1⟩
          · cases heq
            obtain ⟨s, o, -, hx, -⟩ := hn.act
            obtain ⟨-, apiKey, hash, now, ttl, hv⟩ :=
              hr.ledger.inserted (h.inserted p ctx hd hs₀)
            refine ⟨freshRow t apiKey hash now ttl, ?_, rfl⟩
            rw [exec_commit hx]
            exact TxTable.read_of_own_some hv
      | poll _ _ _ => cases hs
      | other => cases hs
  · rcases once_snoc.1 hacc with hacc | hacc
    · exact hkept (.inr hacc)
    · exact hkept (.inl (hacc.reliesOn hW))

/-- A call that is started was not running. -/
theorem Asked.init_eq (call : Call) : (∃ ctx h, Asked.init call = .post ctx h .none) ∨
    (∃ ctx jobId, Asked.init call = .poll ctx jobId .waiting) ∨ Asked.init call = .other := by
  cases call with
  | createTtsJob ctx h body => exact .inl ⟨ctx, h, rfl⟩
  | getTtsJob ctx jobId => exact .inr (.inl ⟨ctx, jobId, rfl⟩)
  | _ => exact .inr (.inr rfl)

/-- A post that says it inserted a row is at the stage where it did. -/
theorem Honest.inserted_next (h : Honest t k ts w) (hn : Next S ts w ev w') {ctx : AuthContext}
    {hd : Headers} (hp : asked p (ts ++ [⟨w, ev, w'⟩]) = some (.post ctx hd (.inserted t k))) :
    stage p (ts ++ [⟨w, ev, w'⟩]) = .inserted t k := by
  rcases asked_eq_some hp with ⟨hp, htr, -⟩ | ⟨call, -, hs⟩ | ⟨x, a, s₀, rfl, hs₀, hs⟩
  · rw [stage, htr]
    exact h.inserted p ctx hd hp
  · rcases Asked.init_eq call with ⟨_, _, hi⟩ | ⟨_, _, hi⟩ | hi <;> cases hi.symm.trans hs.symm
  · cases s₀ with
    | post ctx₀ hd₀ met =>
        simp only [Asked.next, Asked.post.injEq] at hs
        obtain ⟨apiKey, hash, ttl, row, heq⟩ := Met.next_inserted hs.2.2.symm
        cases heq
        obtain ⟨s, -, htr, -, -⟩ := hn.act
        simp [stage, htr, Track.next, Track.onOk]
    | poll _ _ _ => cases hs
    | other => cases hs

/-- A post that says it replays a row found one that was replayed from. -/
theorem Honest.replayed_next (h : Honest t k ts w) (hr : Run S w₀ ts w)
    (hn : Next S ts w ev w') {ctx : AuthContext} {hd : Headers} {row : JobIdempotency}
    (hp : asked p (ts ++ [⟨w, ev, w'⟩]) = some (.post ctx hd (.replayed t k row))) :
    Once (Replays p t k row) (ts ++ [⟨w, ev, w'⟩]) := by
  rcases asked_eq_some hp with ⟨hp, -⟩ | ⟨call, -, hs⟩ | ⟨x, a, s₀, rfl, hs₀, hs⟩
  · exact once_snoc.2 (.inl (h.replayed p ctx hd row hp))
  · rcases Asked.init_eq call with ⟨_, _, hi⟩ | ⟨_, _, hi⟩ | hi <;> cases hi.symm.trans hs.symm
  · cases s₀ with
    | post ctx₀ hd₀ met =>
        simp only [Asked.next, Asked.post.injEq] at hs
        obtain ⟨rfl, rfl, hs⟩ := hs
        rcases Met.next_replayed hs.symm with rfl | heq
        · exact once_snoc.2 (.inl (h.replayed p _ _ row hs₀))
        · cases heq
          obtain ⟨rfl, hrow⟩ := hn.lookup hr ⟨by decide, by decide⟩
          obtain ⟨hrow, hten⟩ := Option.filter_eq_some_iff.1 hrow.symm
          simp only [decide_eq_true_eq] at hten
          exact once_snoc.2 (.inr ⟨rfl, hrow, hten.1, hten.2⟩)
    | poll _ _ _ => cases hs
    | other => cases hs

/-- A poll of an accepted job that finds no row finds an expired one. -/
theorem Honest.polled_next (h : Honest t k ts w) (hr : Run S w₀ ts w) (hn : Next S ts w ev w')
    {ctx : AuthContext} {jobId : PyStr}
    (hp : asked p (ts ++ [⟨w, ev, w'⟩]) = some (.poll ctx jobId (.row t k none)))
    (hst : StartedAfter (Accepted t k) p (ts ++ [⟨w, ev, w'⟩])) :
    Once (PollsExpired p t k) (ts ++ [⟨w, ev, w'⟩]) := by
  have hbefore (hev : ∀ call, ev ≠ .spawn p call) : StartedAfter (Accepted t k) p ts := by
    rcases once_snoc.1 hst with hst | ⟨⟨call, hcall⟩, -⟩
    · exact hst
    · exact absurd hcall (hev call)
  rcases asked_eq_some hp with ⟨hp, -, hev⟩ | ⟨call, -, hs⟩ | ⟨x, a, s₀, rfl, hs₀, hs⟩
  · exact once_snoc.2 (.inl (h.polled p ctx jobId hp (hbefore hev)))
  · rcases Asked.init_eq call with ⟨_, _, hi⟩ | ⟨_, _, hi⟩ | hi <;> cases hi.symm.trans hs.symm
  · cases s₀ with
    | poll ctx₀ jobId₀ polled =>
        simp only [Asked.next, Asked.poll.injEq] at hs
        obtain ⟨rfl, rfl, hs⟩ := hs
        have hst' := hbefore fun _ he => nomatch he
        rcases Polled.next_row hs.symm with rfl | heq
        · exact once_snoc.2 (.inl (h.polled p _ _ hs₀ hst'))
        · cases heq
          obtain ⟨past, e, rest, hts, -, hacc⟩ := hst'
          have hacc : Once (Accepted t k) ts := by
            rw [hts]
            exact hacc.append _
          obtain ⟨rfl, hrow⟩ := hn.lookup hr ⟨by decide, by decide⟩
          obtain ⟨row, hthere, hten⟩ := h.there (.inr hacc)
          refine once_snoc.2 (.inr ⟨.poll, row, rfl, hthere, ?_⟩)
          have hnot := Option.filter_eq_none_iff.1 hrow.symm row hthere
          simpa [hten] using hnot
    | post _ _ _ => cases hs
    | other => cases hs

/-- A poll that fails has raised. -/
theorem Honest.failed_next (h : Honest t k ts w) {ctx : AuthContext} {jobId : PyStr}
    (hp : asked p (ts ++ [⟨w, ev, w'⟩]) = some (.poll ctx jobId .failed)) :
    Once (Raises p) (ts ++ [⟨w, ev, w'⟩]) := by
  rcases asked_eq_some hp with ⟨hp, -⟩ | ⟨call, -, hs⟩ | ⟨x, a, s₀, rfl, hs₀, hs⟩
  · exact once_snoc.2 (.inl (h.failed p ctx jobId hp))
  · rcases Asked.init_eq call with ⟨_, _, hi⟩ | ⟨_, _, hi⟩ | hi <;> cases hi.symm.trans hs.symm
  · cases s₀ with
    | poll ctx₀ jobId₀ polled =>
        simp only [Asked.next, Asked.poll.injEq] at hs
        obtain ⟨rfl, rfl, hs⟩ := hs
        rcases Polled.next_failed hs.symm with rfl | ⟨y, rfl⟩
        · exact once_snoc.2 (.inl (h.failed p _ _ hs₀))
        · exact once_snoc.2 (.inr ⟨x, y, rfl⟩)
    | post _ _ _ => cases hs
    | other => cases hs

/-- **The step lemma of honest answers.** -/
theorem Honest.next (h : Honest t k ts w) (hr : Run S w₀ ts w) (hn : Next S ts w ev w')
    (hW : StepSeen (system S) askProtocol ts w ev w') (hc : UndoneAlone t k ts ⟨w, ev, w'⟩) :
    Honest t k (ts ++ [⟨w, ev, w'⟩]) w' where
  there := h.there_next hr hn hW hc
  inserted _ _ _ hp := h.inserted_next hn hp
  replayed _ _ _ _ hp := h.replayed_next hr hn hp
  polled _ _ _ hp hst := h.polled_next hr hn hp hst
  failed _ _ _ hp := h.failed_next hp

/-- A `GET` of the tenant's key that was started after a `POST` had been
answered with 2xx is answered with 200, unless one of its awaits raises or the
row had expired. -/
def PollFinds (t k : Uuid) (past : List SysTrans) (e : SysTrans) : Prop :=
  ∀ p r ctx jobId polled, e.ev = .done p r → asked p past = some (.poll ctx jobId polled) →
    ctx.tenantId = t → parseUuid jobId = some k → StartedAfter (Accepted t k) p past →
    (statusOf r).isSome = true ∨ Once (Raises p) past ∨ Once (PollsExpired p t k) past

/-- A `GET` in state `u`, run by process `q`. -/
def pollOn (S : Settings) (q : Nat) (ctx : AuthContext) (jobId : PyStr) (u : World) :
    Option (Except Exn TtsJobStatusResponse) :=
  ((getTtsJob S ctx jobId).run.alone (fun e w => exec q e (.goes {}) w) u).map Prod.fst

/-- A deduplicated answer reports what a `GET` reports in the state the
`POST` looked at. -/
def ReplayAgrees (S : Settings) (t k : Uuid) (past : List SysTrans) (e : SysTrans) : Prop :=
  ∀ p ctx h met a, e.ev = .done p (.ok (.accepted a)) → asked p past = some (.post ctx h met) →
    ctx.tenantId = t → a.jobId = k → a.deduplicated = true →
    Once (fun _ e' => (∃ row, e'.ev = .act p (.selectIdem .upfront t k) (.ok (some row))) ∧
      ∀ q jobId, parseUuid jobId = some k → e'.pre.idem.own q k = none →
        ∃ resp, pollOn S q ctx jobId e'.pre = some (.ok resp) ∧ resp.status = a.status) past

end run

/-- The two spellings of a status agree on all but failed rows. -/
theorem replayStatus_eq_iff (row : JobIdempotency) :
    replayStatus row = mapIdempotencyStatusToJobStatus row.status ↔ row.status ≠ .failed := by
  unfold replayStatus
  cases row.status <;> decide

/-- A `GET` that finds the row reports its status. -/
theorem pollOn_of_row {S : Settings} {q : Nat} {ctx : AuthContext} {jobId : PyStr} {k : Uuid}
    {u : World} {row : JobIdempotency} (hkey : parseUuid jobId = some k)
    (hown : u.idem.own q k = none) (hrow : u.idem.rows k = some row)
    (ht : row.tenantId = ctx.tenantId) (he : u.now < row.expiresAt) :
    ∃ resp, pollOn S q ctx jobId u = some (.ok resp) ∧
      resp.status = mapIdempotencyStatusToJobStatus row.status := by
  have hl : u.lookupIdem q ctx.tenantId k = some row := by
    rw [World.lookupIdem, TxTable.read_of_own_none hown, hrow]
    simp [ht, he]
  have hperf : exec q (.selectIdem .poll ctx.tenantId k) (.goes {}) u =
      some (.ok (some row), u) := by
    simp [exec, perform, hl]
  rw [pollOn, getTtsJob, hkey]
  simp only [requestSession, withSession, finallyDo, exceptException, outcomeOf]
  by_cases hc : row.status = .complete
  · refine ⟨{ statusResponse S jobId row with
      metrics := ((u.usage.read q k).filter fun r => r.tenantId = ctx.tenantId).map metricsOf },
      ?_, rfl⟩
    change Option.map Prod.fst (Prog.alone _ (.eff (Eff.selectIdem .poll ctx.tenantId k) _) u) = _
    simp only [Prog.alone, hperf, Prog.bind, ExceptT.bindCont, if_pos hc]
    rfl
  · refine ⟨statusResponse S jobId row, ?_, rfl⟩
    change Option.map Prod.fst (Prog.alone _ (.eff (Eff.selectIdem .poll ctx.tenantId k) _) u) = _
    simp only [Prog.alone, hperf, Prog.bind, ExceptT.bindCont, if_neg hc]
    rfl

/-- No replay meets a failed row. -/
def UnfailedReplay (t k : Uuid) (e : SysTrans) : Prop :=
  ∀ p row, e.ev = .act p (.selectIdem .upfront t k) (.ok (some row)) → row.status ≠ .failed

/-- **Idempotent replay is honest** in every run in which nobody is answered
from a row that is taken away, and no replay meets a failed row: what a `POST`
has been answered from stays, and a replay reports what a `GET` reports. -/
theorem replay_honest {S : Settings} {w₀ : World} {ts : List SysTrans}
    {c : Config World Eff Ans Outcome} {t k : Uuid} (h₀ : w₀.Fresh)
    (h : Trace (system S) w₀ ts c) (hundone : Always (UndoneAlone t k) ts)
    (hfailed : ∀ e ∈ ts, UnfailedReplay t k e) :
    Always (fun past e => PollFinds t k past e ∧ ReplayAgrees S t k past e) ts := by
  have hall : Always (UndoneAlone t k) ts → (∀ e ∈ ts, UnfailedReplay t k e) →
      Honest t k ts c.world ∧
        Always (fun past e => PollFinds t k past e ∧ ReplayAgrees S t k past e) ts := by
    refine h.induct_watch (system_asks S) (I := fun ts w => Always (UndoneAlone t k) ts →
      (∀ e ∈ ts, UnfailedReplay t k e) → Honest t k ts w ∧
        Always (fun past e => PollFinds t k past e ∧ ReplayAgrees S t k past e) ts)
      (fun _ _ => ⟨honest_nil, always_nil⟩) ?_
    intro ts c ev c' htr hs hW ih hundone hfailed
    obtain ⟨hpast, hnow⟩ := always_snoc.1 hundone
    have hfailed' : ∀ e ∈ ts, UnfailedReplay t k e :=
      fun e he => hfailed e (List.mem_append_left _ he)
    obtain ⟨hh, hans⟩ := ih hpast hfailed'
    refine ⟨hh.next (htr.run h₀) (htr.next h₀ hs) hW hnow, always_snoc.2 ⟨hans, ?_, ?_⟩⟩
    · rintro p r ctx jobId polled rfl hp rfl hkey hst
      obtain ⟨s, hs, hf, -⟩ := PStep.done_inv hW
      cases hp.symm.trans hs
      have hf := hf k hkey
      cases polled with
      | waiting => exact hf.elim
      | failed => exact .inr (.inl (hh.failed p ctx jobId hp))
      | row t' k' row =>
          cases row with
          | none =>
              obtain ⟨rfl, rfl⟩ := hf
              exact .inr (.inr (hh.polled p ctx jobId hp hst))
          | some row => exact .inl (by rw [hf.2.2]; rfl)
    · rintro p ctx hd met a rfl hp rfl rfl hded
      obtain ⟨s, hs, hf, -⟩ := PStep.done_inv hW
      cases hp.symm.trans hs
      obtain ⟨-, hmet⟩ := hf a rfl
      rw [if_pos hded] at hmet
      obtain ⟨row, rfl, hstatus⟩ := hmet
      obtain ⟨past, e, rest, rfl, hev, hrow, hten, hexp⟩ := hh.replayed p ctx hd row hp
      refine ⟨past, e, rest, rfl, ⟨row, hev⟩, fun q jobId hkey hown => ?_⟩
      obtain ⟨resp, hresp, hst⟩ := pollOn_of_row (S := S) hkey hown hrow hten hexp
      refine ⟨resp, hresp, hst.trans ?_⟩
      rw [hstatus, (replayStatus_eq_iff row).2 (hfailed' e (by simp) p row hev)]
  exact (hall hundone hfailed).2

/-- The row of the key is not taken away. -/
theorem undoneAlone_of_kept {t k : Uuid} {ts : List SysTrans} (h : ∀ e ∈ ts, ¬Undoes k e) :
    Always (UndoneAlone t k) ts := by
  rintro past e rest rfl hu
  exact absurd hu (h e (by simp))

instance (k : Uuid) (e : SysTrans) : Decidable (Undoes k e) := inferInstanceAs (Decidable (_ ∧ _))

/-- The event is not a replay of a failed row. -/
def unfailed (e : SysTrans) : Bool :=
  match e.ev with
  | .act _ (.selectIdem .upfront _ _) (.ok (some row)) => row.status ≠ .failed
  | _ => true

/-- A step that replays no failure meets the condition. -/
theorem unfailedReplay_of_unfailed {t k : Uuid} {e : SysTrans} (h : unfailed e = true) :
    UnfailedReplay t k e := by
  rintro p row hev
  simpa [unfailed, hev] using h

/-- A `POST` is answered with 2xx under the key. -/
def accepts (k : Uuid) (deduplicated : Bool) (e : SysTrans) : Bool :=
  match e.ev with
  | .done _ (.ok (.accepted a)) => a.jobId = k && a.deduplicated = deduplicated &&
      a.status = .queued
  | _ => false

/-- A `GET` of process `p` is started. -/
def polls (p : Nat) (e : SysTrans) : Bool :=
  match e.ev with
  | .spawn q (.getTtsJob _ _) => q = p
  | _ => false

/-- Process `p` answers with this HTTP error, or with 200. -/
def answers (p code : Nat) (e : SysTrans) : Bool :=
  match e.ev with
  | .done q (.error (.http n _)) => q = p && n = code
  | .done q (.ok (.status _)) => q = p && 200 = code
  | _ => false

/-- A `POST` under the key that meets its row. -/
def replayOne (p : Nat) : List Move :=
  [.spawn p somePost, step p { voice := some someVoice }, step p { flag := true }] ++
    steps p 2 ++ [.done p]

/-- A `GET` of the key. -/
def pollOne (p : Nat) : List Move :=
  .spawn p (.getTtsJob ⟨2, 3⟩ (uuidStr someKey)) :: steps p 2 ++ [.done p]

/-- A `POST`, its replay and a `GET`. -/
theorem replay_honest_example : ∃ ts c, Trace (system plain) blank ts c ∧
    (∃ e ∈ ts, accepts someKey true e = true) ∧ (∃ e ∈ ts, answers 2 200 e = true) ∧
    Always (fun past e => PollFinds 2 someKey past e ∧ ReplayAgrees plain 2 someKey past e) ts := by
  obtain ⟨ts, c, h, hkept, hfailed, hrep, hget⟩ := Machine.exists_trace (system plain) blank
    (onePost 0 ++ replayOne 1 ++ pollOne 2) (fun ts _ => (∀ e ∈ ts, ¬Undoes someKey e) ∧
      (∀ e ∈ ts, unfailed e = true) ∧ (∃ e ∈ ts, accepts someKey true e = true) ∧
      ∃ e ∈ ts, answers 2 200 e = true) (by decide +kernel)
  exact ⟨ts, c, h, hrep, hget, replay_honest fresh_blank h (undoneAlone_of_kept hkept)
    fun e he => unfailedReplay_of_unfailed (hfailed e he)⟩

/-- A `GET` of process `p` is started after a `POST` was answered with 2xx. -/
def PollsLater (p : Nat) (k : Uuid) (past : List SysTrans) (e : SysTrans) : Prop :=
  polls p e = true ∧ Once (fun _ e => accepts k true e = true) past

instance (p : Nat) (k : Uuid) (past : List SysTrans) (e : SysTrans) :
    Decidable (PollsLater p k past e) := inferInstanceAs (Decidable (_ ∧ _))

/-- The second `POST` is answered from the row of the first, whose `XADD` then
fails: it deletes the row. -/
def undoneReplay : List Move :=
  postChecks 0 ++ steps 0 4 ++ replayOne 1 ++ .act 0 (.raises (.redisError "xadd")) ::
    steps 0 4 ++ [.done 0, .spawn 2 (.getTtsJob ⟨2, 3⟩ (uuidStr someKey))] ++ steps 2 3 ++
    [.done 2]

/-- The worker fails the job, and then the `POST` is replayed. -/
def failedReplay : List Move :=
  onePost 0 ++ voicelessPickUp 1 ++ steps 1 12 ++ replayOne 2

/-- A `POST` answers 202, and a `GET` started later answers 404 before the row
can have expired; and a replay of a failed job answers `queued`, where a `GET`
in the same state answers `failed`. -/
theorem replay_dishonest :
    (∃ ts c, Trace (system plain) blank ts c ∧ c.world.now < IdempotencyRepo.defaultTtl ∧
      Once (fun past e => answers 2 404 e = true ∧ Once (PollsLater 2 someKey) past) ts) ∧
    ∃ ts c, Trace (system plain) blank ts c ∧ (∃ e ∈ ts, accepts someKey true e = true) ∧
      isFailed someKey c.world = true ∧ isUnexpired someKey c.world = true ∧
      ((pollOn plain 3 ⟨2, 3⟩ (uuidStr someKey) c.world).any fun r =>
        r.toOption.any fun resp => resp.status = .failed) = true := by
  constructor
  · exact Machine.exists_trace (system plain) blank undoneReplay (fun ts w =>
      w.now < IdempotencyRepo.defaultTtl ∧
      Once (fun past e => answers 2 404 e = true ∧ Once (PollsLater 2 someKey) past) ts)
      (by decide +kernel)
  · exact Machine.exists_trace (system plain) blank failedReplay (fun ts w =>
      (∃ e ∈ ts, accepts someKey true e = true) ∧ isFailed someKey w = true ∧
      isUnexpired someKey w = true ∧
      ((pollOn plain 3 ⟨2, 3⟩ (uuidStr someKey) w).any fun r =>
        r.toOption.any fun resp => resp.status = .failed) = true) (by decide +kernel)

end NeuroVoice
