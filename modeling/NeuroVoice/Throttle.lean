import NeuroVoice.RateLimit
import Mathlib.Algebra.Order.BigOperators.Group.List

/-!
# NeuroVoice.Throttle

Step 7 of `authenticate_bearer`: the bucket of the key, and then that of the
tenant.

A call that its tenant's bucket refuses has been recorded in its key's bucket
by then.  Only a refusal by the key's bucket leaves no trace.  Its `Retry-After`
is the time at which the oldest request in that bucket has left the window,
rounded up to whole seconds (`retrySeconds_eq`); what has come later than that
request still counts in both buckets: `refusal_free`.
-/

namespace NeuroVoice

/-! ## the two checks -/

/-- The buckets of a key and of its tenant. -/
structure Buckets where
  key : Bucket
  tenant : Bucket

/-- What becomes of the call: it goes on, or it is answered 429. -/
inductive Throttled where
  | pass
  | refuse (detail : String) (retryAfter : Int)

/-- The `Retry-After` header, in seconds. -/
def retrySeconds (r : RateLimitResult) : Int := max 1 (r.retryAfterMs / 1000 + 1)

/-- `check_api_key` and then `check_tenant`, each at its own time. -/
def rateLimit (keyLimit tenantLimit : Int) (forKey forTenant : RateCall) (b : Buckets) :
    Except Foreign (Throttled × Buckets) := do
  let (r, key) ← forKey.check keyLimit 60000 b.key
  if !r.allowed then return (.refuse "rate limited" (retrySeconds r), { b with key })
  let (r, tenant) ← forTenant.check tenantLimit 60000 b.tenant
  if !r.allowed then return (.refuse "rate limited (tenant)" (retrySeconds r), { key, tenant })
  return (.pass, { key, tenant })

/-! ## what a refusal should not do -/

/-- The decisions on a sequence of calls. -/
def decisions (limit : Int) (b : Bucket) (cs : List RateCall) : Except Foreign (List Bool) :=
  (results limit 60000 b cs).map (List.map RateLimitResult.allowed)

/-- No later call that brings a new member is decided differently. -/
def SameDecisions (limit : Int) (now : Nat) (used : List PyStr) (b b' : Bucket) : Prop :=
  ∀ cs, Orderly now used cs → decisions limit b' cs = decisions limit b cs

/-- Calls that the bucket denies, one after the other. -/
inductive Denials (limit : Int) : Bucket → List RateCall → Bucket → Prop
  | nil {b : Bucket} : Denials limit b [] b
  | cons {b b₁ b₂ : Bucket} {c : RateCall} {cs : List RateCall} {r : RateLimitResult} :
      c.check limit 60000 b = .ok (r, b₁) → r.allowed = false → Denials limit b₁ cs b₂ →
      Denials limit b (c :: cs) b₂

/-- No later decision of either bucket changes. -/
def CostsNothing (keyLimit tenantLimit : Int) (forKey forTenant : RateCall) (b b' : Buckets) :
    Prop :=
  SameDecisions keyLimit forKey.now (forKey.member :: b.key.set.members) b.key b'.key ∧
    SameDecisions tenantLimit forTenant.now (forTenant.member :: b.tenant.set.members) b.tenant
      b'.tenant

/-- A repeat of the call at the time `t` passes both checks, when neither
bucket has admitted anything in between. -/
def RepeatPasses (keyLimit tenantLimit : Int) (now t : Nat) (keyUsed tenantUsed : List PyStr)
    (b : Buckets) : Prop :=
  ∀ ks ts b' forKey forTenant, Denials keyLimit b.key ks b'.key →
    Denials tenantLimit b.tenant ts b'.tenant → Orderly now keyUsed (ks ++ [forKey]) →
    Orderly now tenantUsed (ts ++ [forTenant]) → forKey.now = t → t ≤ forTenant.now →
    ∃ b'', rateLimit keyLimit tenantLimit forKey forTenant b' = .ok (.pass, b'')

/-- The oldest request that counts at `now`. -/
def Bucket.oldest (b : Bucket) (now : Nat) : Nat := ((live 60000 now b.set.scores).min?).getD 0

/-- A repeat of a call that this bucket refused at `asked`, and whose answer left
at `now`, no longer meets the requests up to this time: `Retry-After` counts from
the answer, and in whole seconds. -/
def Bucket.horizon (b : Bucket) (asked now : Nat) : Nat :=
  b.oldest asked + (now - asked) + (1000 - (b.oldest asked + 60000 - asked) % 1000)

/-- How many requests came later. -/
def Bucket.later (b : Bucket) (t : Nat) : Nat := b.set.scores.countP (t < ·)

/-- A bucket as calls leave it by the time `now`: nothing in it is later, and
its deadline is past only when nothing in it counts. -/
structure Bucket.Sound (b : Bucket) (now : Nat) : Prop where
  score_le : ∀ t ∈ b.set.scores, t ≤ now
  deadline : ∀ e, b.expireAt = some e → ∀ t ∈ b.set.scores, t + 60000 ≤ e

/-- A sound bucket remembers what is in it. -/
theorem Bucket.Sound.tracks {b : Bucket} {now : Nat} (h : b.Sound now) :
    Tracks 60000 b b.set.scores now b.set.members where
  same _ _ := .refl _
  score_le := h.score_le
  admitted_le := h.score_le
  deadline := h.deadline
  members _ hm := hm

/-- More members count as used. -/
theorem Tracks.mono {window now : Nat} {b : Bucket} {admitted : List Nat} {used used' : List PyStr}
    (h : Tracks window b admitted now used) (hsub : used ⊆ used') :
    Tracks window b admitted now used' where
  same := h.same
  score_le := h.score_le
  admitted_le := h.admitted_le
  deadline := h.deadline
  members m hm := hsub (h.members m hm)

section refusal

variable {keyLimit tenantLimit : Int} {b : Bucket} {now : Nat} {admitted : List Nat}
  {used : List PyStr}

/-- A check that answers has a positive limit. -/
theorem check_ok {limit : Int} {c : RateCall} {r : RateLimitResult} {b' : Bucket}
    (h : c.check limit 60000 b = .ok (r, b')) :
    ∃ l : Nat, 0 < l ∧ limit = l ∧ c.serve l 60000 b = (r, b') := by
  by_cases hlimit : limit ≤ 0
  · unfold RateCall.check RateLimiter.check at h
    rw [if_pos hlimit] at h
    cases h
  · obtain ⟨l, rfl⟩ := Int.eq_ofNat_of_zero_le (by omega : 0 ≤ limit)
    have hl : 0 < l := by omega
    refine ⟨l, hl, rfl, ?_⟩
    have hcheck := check_eq hl (by decide : 0 < 60000) c b
    rw [show (60000 : Int) = ((60000 : Nat) : Int) from rfl, hcheck] at h
    exact Except.ok.inj h

/-- What decides later calls is the history. -/
theorem Tracks.decisions {limit : Nat} (h : Tracks 60000 b admitted now used) (hlimit : 0 < limit)
    {cs : List RateCall} (hcs : Orderly now used cs) :
    NeuroVoice.decisions limit b cs =
      .ok (history limit 60000 admitted (cs.map RateCall.now)) := by
  unfold NeuroVoice.decisions
  have hresults := results_eq hlimit (by decide : 0 < 60000) cs b
  rw [show (60000 : Int) = ((60000 : Nat) : Int) from rfl, hresults, ← (h.run hcs).1]
  rfl

/-- A denied call leaves the history as it was. -/
theorem Tracks.denial {limit : Int} {c : RateCall} {r : RateLimitResult} {b' : Bucket}
    (h : Tracks 60000 b admitted now used) (hn : now ≤ c.now) (hnew : c.member ∉ used)
    (hcheck : c.check limit 60000 b = .ok (r, b')) (hdenied : r.allowed = false) :
    Tracks 60000 b' admitted c.now (c.member :: used) := by
  obtain ⟨l, -, rfl, hserve⟩ := check_ok hcheck
  obtain ⟨hallowed, hnext⟩ := h.call l hn hnew
  rw [hserve] at hallowed hnext
  rw [record, ← hallowed, hdenied, if_neg Bool.false_ne_true] at hnext
  exact hnext

theorem Tracks.denials {limit : Int} {cs : List RateCall} {c : RateCall} {b' : Bucket}
    (h : Tracks 60000 b admitted now used) (hd : Denials limit b cs b')
    (hcs : Orderly now used (cs ++ [c])) :
    ∃ now' used', now' ≤ c.now ∧ c.member ∉ used' ∧ Tracks 60000 b' admitted now' used' := by
  induction hd generalizing now used with
  | nil =>
      exact ⟨now, used, hcs.later c List.mem_cons_self, hcs.fresh c List.mem_cons_self, h⟩
  | @cons b b₁ b₂ d cs r hcheck hdenied _ ih =>
      have hnext := h.denial (hcs.later d List.mem_cons_self) (hcs.fresh d List.mem_cons_self)
        hcheck hdenied
      exact ih hnext hcs.tail

/-- New members are never short. -/
theorem exists_fresh (used : List PyStr) (n now : Nat) :
    ∃ cs : List RateCall, cs.map RateCall.now = List.replicate n now ∧
      Orderly now used cs := by
  let long := (used.map List.length).sum + 1
  have hshort : ∀ m ∈ used, m.length < long := fun m hm =>
    Nat.lt_succ_of_le (List.single_le_sum (by simp) _ (List.mem_map_of_mem hm))
  refine ⟨(List.range n).map fun i => ⟨now, List.replicate (long + i) 0, false⟩, ?_, ?_, ?_, ?_, ?_⟩
  · simp [Function.comp_def, List.map_const']
  · rw [List.pairwise_map]
    exact List.pairwise_of_forall fun _ _ => le_rfl
  · rw [List.map_map]
    refine List.nodup_range.map fun i j hij => ?_
    have hlen := congrArg List.length hij
    simp only [Function.comp_apply, List.length_replicate] at hlen
    omega
  · intro c hc
    obtain ⟨i, -, rfl⟩ := List.mem_map.1 hc
    exact le_rfl
  · intro c hc hm
    obtain ⟨i, -, rfl⟩ := List.mem_map.1 hc
    have hlen := hshort _ hm
    rw [List.length_replicate] at hlen
    omega

/-- Calls at one time are all admitted as long as there is room. -/
theorem history_replicate (limit : Nat) (hle : ∀ t ∈ admitted, t ≤ now) (n : Nat) :
    history limit (60000 : Nat) admitted (List.replicate n now) = List.replicate n true ↔
      n = 0 ∨ (live 60000 now admitted).length + n ≤ limit := by
  induction n generalizing admitted with
  | zero => simp [history]
  | succ n ih =>
      have hcount : (live 60000 now (now :: admitted)).length =
          (live 60000 now admitted).length + 1 := by
        simp [live]
      rw [List.replicate_succ, List.replicate_succ, history, List.cons.injEq, admits_eq hle]
      constructor
      · rintro ⟨hroom, hrest⟩
        rw [record, admits_eq hle, if_pos hroom, ih (by simpa using hle), hcount] at hrest
        have hroom := of_decide_eq_true hroom
        omega
      · intro h
        have hroom : decide ((live 60000 now admitted).length < limit) = true :=
          decide_eq_true (by omega)
        refine ⟨hroom, ?_⟩
        rw [record, admits_eq hle, if_pos hroom, ih (by simpa using hle), hcount]
        omega

/-- A request that is recorded makes a later one be refused. -/
theorem not_sameDecisions {limit : Nat} {b' : Bucket} {m : PyStr}
    (h : Tracks 60000 b admitted now used)
    (h' : Tracks 60000 b' (now :: admitted) now (m :: used))
    (hroom : (live 60000 now admitted).length < limit) :
    ¬SameDecisions limit now (m :: used) b b' := by
  intro hsame
  obtain ⟨cs, hnow, hcs⟩ :=
    exists_fresh (m :: used) (limit - (live 60000 now admitted).length) now
  have hl : 0 < limit := by omega
  have hwide : Tracks 60000 b admitted now (m :: used) := h.mono (List.subset_cons_self m used)
  have heq := hsame cs hcs
  rw [h'.decisions hl hcs, hwide.decisions hl hcs, hnow] at heq
  have hfirst := (history_replicate limit h.admitted_le
    (limit - (live 60000 now admitted).length)).2 (.inr (by omega))
  have hcount : (live 60000 now (now :: admitted)).length =
      (live 60000 now admitted).length + 1 := by
    simp [live]
  have hsecond := (history_replicate limit h'.admitted_le _).1 ((Except.ok.inj heq).trans hfirst)
  omega

end refusal

/-! ## the answer's `Retry-After` -/

/-- `Retry-After` covers `retry_after_ms`, and up to a second more. -/
theorem retrySeconds_eq {r : RateLimitResult} (h : 0 < r.retryAfterMs) :
    1000 * retrySeconds r = r.retryAfterMs + (1000 - r.retryAfterMs % 1000) := by
  unfold retrySeconds
  omega

section retry

variable {b b' : Bucket} {c : RateCall} {r : RateLimitResult} {limit : Int} {now t : Nat}

/-- What a denial says: when the oldest request leaves the window. -/
theorem Bucket.Sound.retryAfter (h : b.Sound c.now)
    (hcheck : c.check limit 60000 b = .ok (r, b')) (hdenied : r.allowed = false) :
    b.oldest c.now ∈ live 60000 c.now b.set.scores ∧
      r.retryAfterMs = (b.oldest c.now : Int) + 60000 - c.now := by
  obtain ⟨l, hl, rfl, hserve⟩ := check_ok hcheck
  have hreply : r = (slidingWindow c.now 60000 l c.member (b.lapse c.now c.gone)).1 :=
    (congrArg Prod.fst hserve).symm
  rw [hreply] at hdenied ⊢
  obtain ⟨oldest, hlive, hfirst, hretry⟩ := (h.tracks.lapse c.gone).retry hl hdenied
  have hmin : b.oldest c.now = oldest := by
    rw [Bucket.oldest, List.min?_eq_some_iff.2 ⟨hlive, hfirst⟩, Option.getD_some]
  exact ⟨hmin ▸ hlive, by rw [hretry, hmin]; rfl⟩

/-- **What still counts when the caller comes back** after `Retry-After`: what came
later than the bucket's horizon. -/
theorem Bucket.Sound.comesBack (h : b.Sound c.now)
    (hcheck : c.check limit 60000 b = .ok (r, b')) (hdenied : r.allowed = false)
    (hnow : c.now ≤ now) (ht : (t : Int) = now + 1000 * retrySeconds r) (scores : List Nat) :
    (live 60000 t scores).length = scores.countP (b.horizon c.now now < ·) := by
  obtain ⟨hlive, hretry⟩ := h.retryAfter hcheck hdenied
  have hpos : c.now < b.oldest c.now + 60000 := of_decide_eq_true (List.mem_filter.1 hlive).2
  rw [retrySeconds_eq (by omega), hretry] at ht
  have ht : t = b.horizon c.now now + 60000 := by
    unfold Bucket.horizon
    omega
  rw [live, ← List.countP_eq_length_filter, ht]
  refine List.countP_congr fun x _ => ?_
  simp only [decide_eq_true_eq]
  omega

/-- The oldest request does not count any more, so a bucket that holds no more than
its limit has room. -/
theorem Bucket.Sound.frees (h : b.Sound c.now)
    (hcheck : c.check limit 60000 b = .ok (r, b')) (hdenied : r.allowed = false) (now : Nat) :
    b.later (b.horizon c.now now) < (live 60000 c.now b.set.scores).length := by
  obtain ⟨hlive, -⟩ := h.retryAfter hcheck hdenied
  have hpos : c.now < b.oldest c.now + 60000 := of_decide_eq_true (List.mem_filter.1 hlive).2
  have hsame : b.later (b.horizon c.now now) =
      (live 60000 (b.horizon c.now now + 60000) b.set.scores).length := by
    rw [Bucket.later, live, ← List.countP_eq_length_filter]
    refine List.countP_congr fun x _ => ?_
    simp only [decide_eq_true_eq]
    omega
  rw [hsame]
  refine length_live_lt ?_ hlive ?_ <;>
  · unfold Bucket.horizon
    omega

end retry

/-! ## exactly when it costs nothing -/

section exactly

variable {keyLimit tenantLimit : Int} {forKey forTenant : RateCall} {b b' : Buckets}
  {now t : Nat}

/-- One check, on a bucket that remembers these admissions. -/
theorem Tracks.check_allowed {limit : Int} {bucket : Bucket} {c : RateCall}
    {admitted : List Nat} {used : List PyStr} (h : Tracks 60000 bucket admitted now used)
    (hn : now ≤ c.now) (hnew : c.member ∉ used) :
    (∃ r bucket', c.check limit 60000 bucket = .ok (r, bucket') ∧ r.allowed = true) ↔
      ((live 60000 c.now admitted).length : Int) < limit := by
  constructor
  · rintro ⟨r, bucket', hcheck, hallowed⟩
    obtain ⟨l, -, rfl, hserve⟩ := check_ok hcheck
    have hreply := (h.call l hn hnew).1
    rw [hserve, hallowed, admits_eq fun x hx => (h.admitted_le x hx).trans hn] at hreply
    have := of_decide_eq_true hreply.symm
    omega
  · intro hroom
    obtain ⟨l, rfl⟩ := Int.eq_ofNat_of_zero_le (by omega : 0 ≤ limit)
    refine ⟨(c.serve l 60000 bucket).1, (c.serve l 60000 bucket).2,
      check_eq (by omega) (by decide : 0 < 60000) c bucket, ?_⟩
    rw [(h.call l hn hnew).1, admits_eq fun x hx => (h.admitted_le x hx).trans hn]
    exact decide_eq_true (by omega)

/-- A call that passes both checks. -/
theorem rateLimit_pass : (∃ b', rateLimit keyLimit tenantLimit forKey forTenant b = .ok (.pass, b')) ↔
    (∃ r key, forKey.check keyLimit 60000 b.key = .ok (r, key) ∧ r.allowed = true) ∧
      ∃ r tenant, forTenant.check tenantLimit 60000 b.tenant = .ok (r, tenant) ∧
        r.allowed = true := by
  unfold rateLimit
  cases hkey : forKey.check keyLimit 60000 b.key with
  | error e => simp [bind, Except.bind]
  | ok r =>
      obtain ⟨r, key⟩ := r
      cases htenant : forTenant.check tenantLimit 60000 b.tenant with
      | error e => cases hr : r.allowed <;> simp [bind, Except.bind, hr, pure, Except.pure]
      | ok r' =>
          obtain ⟨r', tenant⟩ := r'
          cases hr : r.allowed <;> cases hr' : r'.allowed <;>
            simp [bind, Except.bind, hr, hr', pure, Except.pure]

/-- A refusal, and by which bucket. -/
theorem rateLimit_refuse {detail : String} {s : Int}
    (h : rateLimit keyLimit tenantLimit forKey forTenant b = .ok (.refuse detail s, b')) :
    (∃ r, forKey.check keyLimit 60000 b.key = .ok (r, b'.key) ∧ r.allowed = false ∧
      s = retrySeconds r ∧ b'.tenant = b.tenant) ∨
    ∃ r, forKey.check keyLimit 60000 b.key = .ok (r, b'.key) ∧ r.allowed = true := by
  unfold rateLimit at h
  cases hkey : forKey.check keyLimit 60000 b.key with
  | error e => rw [hkey] at h; cases h
  | ok r =>
      obtain ⟨r, key⟩ := r
      rw [hkey] at h
      cases hr : r.allowed with
      | false =>
          simp only [bind, Except.bind, hr, Bool.not_false, if_true, pure, Except.pure,
            Except.ok.injEq, Prod.mk.injEq, Throttled.refuse.injEq] at h
          obtain ⟨⟨-, rfl⟩, rfl⟩ := h
          exact .inl ⟨r, rfl, hr, rfl, rfl⟩
      | true =>
          cases htenant : forTenant.check tenantLimit 60000 b.tenant with
          | error e => simp [bind, Except.bind, hr, htenant] at h
          | ok r' =>
              obtain ⟨r', tenant⟩ := r'
              cases hr' : r'.allowed with
              | true => simp [bind, Except.bind, hr, htenant, hr', pure, Except.pure] at h
              | false =>
                  simp only [bind, Except.bind, hr, htenant, hr', Bool.not_true, Bool.not_false,
                    Bool.false_eq_true, if_false, if_true, pure, Except.pure, Except.ok.injEq,
                    Prod.mk.injEq, Throttled.refuse.injEq] at h
                  obtain ⟨-, rfl⟩ := h
                  exact .inr ⟨r, rfl, hr⟩

/-- The repeat, after a refusal by the key's bucket. -/
theorem repeatPasses_iff {keyAdmitted tenantAdmitted : List Nat} {keyUsed tenantUsed : List PyStr}
    (hkey : Tracks 60000 b.key keyAdmitted now keyUsed)
    (htenant : Tracks 60000 b.tenant tenantAdmitted now tenantUsed) (ht : now ≤ t) :
    RepeatPasses keyLimit tenantLimit now t keyUsed tenantUsed b ↔
      ((live 60000 t keyAdmitted).length : Int) < keyLimit ∧
        ((live 60000 t tenantAdmitted).length : Int) < tenantLimit := by
  constructor
  · intro h
    obtain ⟨ks, hks, hks'⟩ := exists_fresh keyUsed 1 t
    obtain ⟨ts, hts, hts'⟩ := exists_fresh tenantUsed 1 t
    obtain ⟨c, rfl⟩ : ∃ c, ks = [c] := List.length_eq_one_iff.1 (by
      rw [← List.length_map (f := RateCall.now), hks, List.length_replicate])
    obtain ⟨d, rfl⟩ : ∃ d, ts = [d] := List.length_eq_one_iff.1 (by
      rw [← List.length_map (f := RateCall.now), hts, List.length_replicate])
    obtain rfl : c.now = t := by simpa using hks
    have hd : d.now = c.now := by simpa using hts
    have hlater : ∀ {used : List PyStr} {x : RateCall}, now ≤ x.now →
        Orderly x.now used [x] → Orderly now used [x] := fun hle hx =>
      ⟨hx.time, hx.member, fun y hy => by rw [List.mem_singleton.1 hy]; exact hle, hx.fresh⟩
    have hpass := h [] [] b c d .nil .nil (hlater ht hks') (hlater (hd ▸ ht) (hd ▸ hts')) rfl hd.ge
    obtain ⟨hc, hd'⟩ := rateLimit_pass.1 hpass
    have hcnew := hks'.fresh c List.mem_cons_self
    have hdnew := hts'.fresh d List.mem_cons_self
    refine ⟨(hkey.check_allowed ht hcnew).1 hc, ?_⟩
    rw [← hd]
    exact (htenant.check_allowed (hd ▸ ht) hdnew).1 hd'
  · rintro ⟨hkeyRoom, htenantRoom⟩ ks ts b'' c d hks hts hks' hts' rfl hd
    obtain ⟨now₁, used₁, hle₁, hnew₁, htracks₁⟩ := hkey.denials hks hks'
    obtain ⟨now₂, used₂, hle₂, hnew₂, htracks₂⟩ := htenant.denials hts hts'
    refine rateLimit_pass.2 ⟨(htracks₁.check_allowed hle₁ hnew₁).2 hkeyRoom,
      (htracks₂.check_allowed hle₂ hnew₂).2 ?_⟩
    have hmono := length_live_le hd 60000 tenantAdmitted
    omega

end exactly

/-- A key with two requests a minute that used both, of a tenant with three whose
other key has used one since. -/
def twoOfThree : Buckets where
  key := ⟨⟨[(py "a", 5), (py "b", 6)], by decide, by decide⟩, some 60006⟩
  tenant := ⟨⟨[(py "a", 5), (py "b", 6), (py "c", 900)], by decide, by decide⟩, some 60900⟩

/-- A tenant with one request a minute, which another key has used. -/
def usedUp : Buckets := ⟨.empty, ⟨⟨[(py "a", 5)], by decide, by decide⟩, some 60005⟩⟩

end NeuroVoice
