import NeuroVoice.Py
import NeuroVoice.Lib.ZSet

/-!
# NeuroVoice.RateLimit

`server/rate_limit.py`: the sliding-window log of one bucket.

The script keeps only a trimmed sorted set, under a deadline that it moves on
admissions only.  It decides like the full history of the admissions, which is
`history`: `limiter_exact`.
-/

namespace NeuroVoice

/-! ## the script -/

/-- A bucket's key: the window set and the deadline of `PEXPIRE`. -/
structure Bucket where
  set : ZSet PyStr
  expireAt : Option Nat

/-- There is no such key. -/
def Bucket.empty : Bucket := ⟨.empty, none⟩

/-- From its deadline on the key can be gone. -/
def Bucket.lapse (b : Bucket) (now : Nat) (gone : Bool) : Bucket :=
  if gone && b.expireAt.any (· ≤ now) then .empty else b

/-- `RateLimitResult`. -/
structure RateLimitResult where
  allowed : Bool
  count : Nat
  retryAfterMs : Int
  deriving DecidableEq

/-- `SLIDING_WINDOW_LUA`.  A set that becomes empty takes its key and the
deadline along. -/
def slidingWindow (now window limit : Nat) (member : PyStr) (b : Bucket) :
    RateLimitResult × Bucket :=
  let set := b.set.zremrangebyscore 0 (now - window)
  let count := set.zcard
  if limit ≤ count then
    let oldestTs := (set.zfirst.map Prod.snd).getD 0
    ({ allowed := false, count, retryAfterMs := max 1 (oldestTs + window - now) },
      { set, expireAt := if count = 0 then none else b.expireAt })
  else
    ({ allowed := true, count := count + 1, retryAfterMs := 0 },
      { set := set.zadd now member, expireAt := some (now + window) })

/-- `RateLimiter.check`, at the time `now`.  `EVALSHA` and, after a cache
miss, `EVAL` run the same script. -/
def RateLimiter.check (limit windowMs : Int) (now : Nat) (member : PyStr) (b : Bucket) :
    Except Foreign (RateLimitResult × Bucket) := do
  if limit ≤ 0 then throw (.valueError "limit must be > 0")
  if windowMs ≤ 0 then throw (.valueError "window_ms must be > 0")
  return slidingWindow now windowMs.toNat limit.toNat member b

/-! ## sequences of calls -/

/-- A call: when it is made, its member, and whether the key, if its deadline
has passed, is gone by then. -/
structure RateCall where
  now : Nat
  member : PyStr
  gone : Bool
  deriving DecidableEq

/-- The call, on the bucket the previous one left. -/
def RateCall.check (limit windowMs : Int) (c : RateCall) (b : Bucket) :
    Except Foreign (RateLimitResult × Bucket) :=
  RateLimiter.check limit windowMs c.now c.member (b.lapse c.now c.gone)

/-- The results of a sequence of calls. -/
def results (limit windowMs : Int) : Bucket → List RateCall → Except Foreign (List RateLimitResult)
  | _, [] => return []
  | b, c :: cs => do
      let (r, b) ← c.check limit windowMs b
      return r :: (← results limit windowMs b cs)

/-! ## the specification -/

/-- Fewer than `limit` calls were admitted at times in `(now - window, now]`. -/
def admits (limit window : Int) (admitted : List Nat) (now : Nat) : Bool :=
  (admitted.countP fun t : Nat => (now : Int) - window < t && t ≤ now : Nat) < limit

/-- The admissions after a call. -/
def record (limit window : Int) (admitted : List Nat) (now : Nat) : List Nat :=
  if admits limit window admitted now then now :: admitted else admitted

/-- The decisions of a limiter that remembers every admission. -/
def history (limit window : Int) : List Nat → List Nat → List Bool
  | _, [] => []
  | admitted, now :: nows =>
      admits limit window admitted now ::
        history limit window (record limit window admitted now) nows

/-- The verdicts on later calls start from the admitted ones. -/
theorem history_append (limit window : Int) (admitted xs ys : List Nat) :
    history limit window admitted (xs ++ ys) = history limit window admitted xs ++
      history limit window (xs.foldl (record limit window) admitted) ys := by
  induction xs generalizing admitted with
  | nil => rfl
  | cons x xs ih => simp [history, ih]

/-- Every call has a verdict. -/
theorem length_history (limit window : Int) (admitted xs : List Nat) :
    (history limit window admitted xs).length = xs.length := by
  induction xs generalizing admitted with
  | nil => rfl
  | cons x xs ih => simp [history, ih]

/-- The times that still count at `n`. -/
def live (window n : Nat) (ts : List Nat) : List Nat := ts.filter fun t => n < t + window

/-- What is live later was live before. -/
theorem live_live {window m n : Nat} (h : m ≤ n) (ts : List Nat) :
    live window n (live window m ts) = live window n ts := by
  unfold live
  rw [List.filter_filter]
  refine List.filter_congr fun t _ => ?_
  rw [Bool.and_eq_left_iff_imp]
  simp only [decide_eq_true_eq]
  omega

/-- With time fewer calls are live. -/
theorem length_live_le {m n : Nat} (h : m ≤ n) (window : Nat) (ts : List Nat) :
    (live window n ts).length ≤ (live window m ts).length := by
  rw [← live_live h ts]
  exact List.length_filter_le _ _

/-- What counts, when nothing is later than `now`. -/
theorem admits_eq {now : Nat} {admitted : List Nat} (h : ∀ t ∈ admitted, t ≤ now)
    (limit window : Nat) :
    admits limit window admitted now = decide ((live window now admitted).length < limit) := by
  have hsame : (admitted.filter fun t : Nat => (now : Int) - window < t && t ≤ now) =
      live window now admitted := by
    refine List.filter_congr fun t ht => ?_
    have hle := h t ht
    rw [Bool.eq_iff_iff]
    simp only [Bool.and_eq_true, decide_eq_true_eq]
    omega
  rw [admits, List.countP_eq_length_filter, hsame]
  simp only [Nat.cast_lt]

/-! ## the bucket and the history -/

/-- At the time `now`, the bucket holds the admissions that still count, and
its deadline is past only when none does. -/
structure Tracks (window : Nat) (b : Bucket) (admitted : List Nat) (now : Nat)
    (used : List PyStr) : Prop where
  same : ∀ n, now ≤ n → (live window n b.set.scores).Perm (live window n admitted)
  score_le : ∀ t ∈ b.set.scores, t ≤ now
  admitted_le : ∀ t ∈ admitted, t ≤ now
  deadline : ∀ e, b.expireAt = some e → ∀ t ∈ b.set.scores, t + window ≤ e
  members : ∀ m ∈ b.set.members, m ∈ used

/-- From the time `now` on, at most `limit` admissions count. -/
def Bounded (limit window : Nat) (admitted : List Nat) (now : Nat) : Prop :=
  ∀ n, now ≤ n → (live window n admitted).length ≤ limit

/-- An empty bucket tracks an empty history. -/
theorem tracks_empty (window now : Nat) : Tracks window .empty [] now [] where
  same _ _ := .refl _
  score_le _ ht := by cases ht
  admitted_le _ ht := by cases ht
  deadline _ he := by cases he
  members _ hm := by cases hm

section serve

variable {limit window now : Nat} {b : Bucket} {admitted : List Nat} {used : List PyStr}

/-- Time passes. -/
theorem Tracks.wait (h : Tracks window b admitted now used) {n : Nat} (hn : now ≤ n) :
    Tracks window b admitted n used where
  same k hk := h.same k (hn.trans hk)
  score_le t ht := (h.score_le t ht).trans hn
  admitted_le t ht := (h.admitted_le t ht).trans hn
  deadline := h.deadline
  members := h.members

/-- A key that is gone held nothing that still counts. -/
theorem Tracks.lapse (h : Tracks window b admitted now used) (gone : Bool) :
    Tracks window (b.lapse now gone) admitted now used := by
  unfold Bucket.lapse
  split
  · next hgone =>
      rw [Bool.and_eq_true] at hgone
      obtain ⟨e, he, hpast⟩ := (Option.any_eq_true _ _).1 hgone.2
      have hpast : e ≤ now := of_decide_eq_true hpast
      have hnone : ∀ n, now ≤ n → live window n b.set.scores = [] := by
        intro n hn
        refine List.filter_eq_nil_iff.2 fun t ht => ?_
        have hlate := h.deadline e he t ht
        simp only [decide_eq_true_eq]
        omega
      refine ⟨fun n hn => ?_, ?_, h.admitted_le, ?_, ?_⟩
      · have hperm := h.same n hn
        rw [hnone n hn] at hperm
        exact hperm
      · intro t ht; cases ht
      · intro e he; cases he
      · intro m hm; cases hm
  · exact h

/-- The set after `ZREMRANGEBYSCORE`. -/
theorem scores_trim (set : ZSet PyStr) (now window : Nat) :
    (set.zremrangebyscore 0 (now - window)).scores = live window now set.scores := by
  rw [ZSet.scores_zremrangebyscore]
  refine List.filter_congr fun t _ => ?_
  rw [Bool.eq_iff_iff]
  simp only [Bool.not_eq_true', Bool.and_eq_false_iff, decide_eq_false_iff_not,
    decide_eq_true_eq]
  omega

/-- The bucket counts the live calls. -/
theorem Tracks.count (h : Tracks window b admitted now used) :
    (b.set.zremrangebyscore 0 (now - window)).zcard = (live window now admitted).length := by
  rw [ZSet.zcard_eq, scores_trim]
  exact (h.same now le_rfl).length_eq

/-- The script decides like the history. -/
theorem Tracks.allowed (h : Tracks window b admitted now used) (limit : Nat) (member : PyStr) :
    (slidingWindow now window limit member b).1.allowed = admits limit window admitted now := by
  rw [admits_eq h.admitted_le, ← h.count]
  unfold slidingWindow
  dsimp only
  split
  · next hfull => exact (decide_eq_false (by omega)).symm
  · next hfree => exact (decide_eq_true (by omega)).symm

/-- The trimmed set, before the decision. -/
theorem Tracks.trim (h : Tracks window b admitted now used) (expireAt : Option Nat)
    (hexp : ∀ e, expireAt = some e → b.expireAt = some e) :
    Tracks window ⟨b.set.zremrangebyscore 0 (now - window), expireAt⟩ admitted now used := by
  have hsub : ∀ t ∈ (b.set.zremrangebyscore 0 (now - window)).scores, t ∈ b.set.scores := by
    intro t ht
    rw [scores_trim] at ht
    exact (List.mem_filter.1 ht).1
  refine ⟨fun n hn => ?_, fun t ht => h.score_le t (hsub t ht), h.admitted_le,
    fun e he t ht => h.deadline e (hexp e he) t (hsub t ht),
    fun m hm => h.members m (ZSet.mem_members_zremrangebyscore hm)⟩
  rw [scores_trim, live_live hn]
  exact h.same n hn

/-- An admission. -/
theorem Tracks.admission (h : Tracks window b admitted now used) {member : PyStr}
    (hnew : member ∉ used) :
    Tracks window ⟨b.set.zadd now member, some (now + window)⟩ (now :: admitted) now
      (member :: used) := by
  have hperm := ZSet.scores_zadd (fun hm => hnew (h.members member hm)) now
  have hmem : ∀ t ∈ (b.set.zadd now member).scores, t ≤ now := by
    intro t ht
    obtain rfl | ht := List.mem_cons.1 (hperm.mem_iff.1 ht)
    · exact le_rfl
    · exact h.score_le t ht
  constructor
  · intro n hn
    refine (hperm.filter _).trans ?_
    simp only [live, List.filter_cons]
    split
    · exact (h.same n hn).cons _
    · exact h.same n hn
  · exact hmem
  · intro t ht
    obtain rfl | ht := List.mem_cons.1 ht
    · exact le_rfl
    · exact h.admitted_le t ht
  · intro e he t ht
    cases he
    exact Nat.add_le_add_right (hmem t ht) window
  · intro m hm
    obtain rfl | hm := ZSet.mem_members_zadd hm
    · exact List.mem_cons_self
    · exact List.mem_cons_of_mem _ (h.members m hm)

/-- The step lemma: a call with a new member. -/
theorem Tracks.serve (h : Tracks window b admitted now used) {member : PyStr}
    (hnew : member ∉ used) :
    Tracks window (slidingWindow now window limit member b).2
      (record limit window admitted now) now (member :: used) := by
  have hcount := h.count
  have hkeep : ∀ {b' : Bucket}, Tracks window b' admitted now used →
      Tracks window b' admitted now (member :: used) := fun h' =>
    ⟨h'.same, h'.score_le, h'.admitted_le, h'.deadline,
      fun m hm => List.mem_cons_of_mem _ (h'.members m hm)⟩
  have hadmits := admits_eq h.admitted_le limit window
  unfold slidingWindow
  dsimp only
  rw [hcount]
  by_cases hfull : limit ≤ (live window now admitted).length
  · rw [decide_eq_false (by omega)] at hadmits
    rw [if_pos hfull, record, hadmits, if_neg Bool.false_ne_true]
    refine hkeep (h.trim _ fun e he => ?_)
    split at he
    · cases he
    · exact he
  · rw [decide_eq_true (by omega)] at hadmits
    rw [if_neg hfull, record, hadmits, if_pos rfl]
    have htrim := h.trim b.expireAt fun e he => he
    exact htrim.admission hnew

/-- A denial says when the oldest admission that counts stops counting. -/
theorem Tracks.retry (h : Tracks window b admitted now used) {member : PyStr}
    (hlimit : 0 < limit)
    (hdenied : (slidingWindow now window limit member b).1.allowed = false) :
    ∃ oldest ∈ live window now admitted, (∀ t ∈ live window now admitted, oldest ≤ t) ∧
      (slidingWindow now window limit member b).1.retryAfterMs = (oldest : Int) + window - now := by
  have hcount := h.count
  unfold slidingWindow at hdenied ⊢
  dsimp only at hdenied ⊢
  split at hdenied
  · next hfull =>
      rw [if_pos hfull]
      obtain ⟨x, hx⟩ := ZSet.zfirst_isSome (lt_of_lt_of_le hlimit hfull)
      obtain ⟨hmem, hfirst⟩ := ZSet.zfirst_le hx
      rw [scores_trim] at hmem hfirst
      have hlive := (h.same now le_rfl).mem_iff.1 hmem
      refine ⟨x.2, hlive, fun t ht => hfirst t ((h.same now le_rfl).mem_iff.2 ht), ?_⟩
      have hpos : now < x.2 + window := of_decide_eq_true (List.mem_filter.1 hlive).2
      simp only [hx, Option.map_some, Option.getD_some]
      omega
  · cases hdenied

end serve

/-! ## the run -/

/-- A call's reply and the bucket it leaves. -/
def RateCall.serve (limit window : Nat) (c : RateCall) (b : Bucket) : RateLimitResult × Bucket :=
  slidingWindow c.now window limit c.member (b.lapse c.now c.gone)

/-- The replies to a sequence of calls. -/
def replies (limit window : Nat) : Bucket → List RateCall → List RateLimitResult
  | _, [] => []
  | b, c :: cs => (c.serve limit window b).1 :: replies limit window (c.serve limit window b).2 cs

/-- The bucket after a sequence of calls. -/
def Bucket.after (limit window : Nat) (b : Bucket) (cs : List RateCall) : Bucket :=
  cs.foldl (fun b c => (c.serve limit window b).2) b

/-- With positive limits the script never fails. -/
theorem check_eq {limit window : Nat} (hlimit : 0 < limit) (hwindow : 0 < window) (c : RateCall)
    (b : Bucket) : c.check limit window b = .ok (c.serve limit window b) := by
  unfold RateCall.check RateLimiter.check
  have hl : ¬(limit : Int) ≤ 0 := by omega
  have hw : ¬(window : Int) ≤ 0 := by omega
  rw [if_neg hl, if_neg hw]
  rfl

/-- So no call of a sequence fails. -/
theorem results_eq {limit window : Nat} (hlimit : 0 < limit) (hwindow : 0 < window)
    (cs : List RateCall) (b : Bucket) :
    results limit window b cs = .ok (replies limit window b cs) := by
  induction cs generalizing b with
  | nil => rfl
  | cons c cs ih =>
      rw [results, check_eq hlimit hwindow]
      change (do return (c.serve limit window b).1 :: (← results limit window _ cs)) = _
      rw [ih]
      rfl

/-- The replies to later calls start from the bucket the first ones left. -/
theorem replies_append (limit window : Nat) (b : Bucket) (xs ys : List RateCall) :
    replies limit window b (xs ++ ys) =
      replies limit window b xs ++ replies limit window (b.after limit window xs) ys := by
  induction xs generalizing b with
  | nil => rfl
  | cons x xs ih => simp [replies, Bucket.after, ih]

/-- Every call has a reply. -/
theorem length_replies (limit window : Nat) (b : Bucket) (cs : List RateCall) :
    (replies limit window b cs).length = cs.length := by
  induction cs generalizing b with
  | nil => rfl
  | cons c cs ih => simp [replies, ih]

/-- Calls in the order of time, with members of their own, from a time on. -/
structure Orderly (now : Nat) (used : List PyStr) (cs : List RateCall) : Prop where
  time : cs.Pairwise fun c d => c.now ≤ d.now
  member : (cs.map RateCall.member).Nodup
  later : ∀ c ∈ cs, now ≤ c.now
  fresh : ∀ c ∈ cs, c.member ∉ used

section run

variable {limit window now : Nat} {b : Bucket} {admitted : List Nat} {used : List PyStr}

/-- Behind its first call a sequence is still orderly. -/
theorem Orderly.tail {c : RateCall} {cs : List RateCall} (h : Orderly now used (c :: cs)) :
    Orderly c.now (c.member :: used) cs := by
  obtain ⟨hfirst, htime⟩ := List.pairwise_cons.1 h.time
  obtain ⟨hnew, hmember⟩ := List.nodup_cons.1 h.member
  refine ⟨htime, hmember, hfirst, fun d hd hmem => ?_⟩
  obtain heq | hmem := List.mem_cons.1 hmem
  · exact hnew (heq ▸ List.mem_map_of_mem hd)
  · exact h.fresh d (List.mem_cons_of_mem _ hd) hmem

/-- One call. -/
theorem Tracks.call (h : Tracks window b admitted now used) (limit : Nat) {c : RateCall}
    (hn : now ≤ c.now)
    (hnew : c.member ∉ used) :
    (c.serve limit window b).1.allowed = admits limit window admitted c.now ∧
      Tracks window (c.serve limit window b).2 (record limit window admitted c.now) c.now
        (c.member :: used) :=
  have hready := (h.wait hn).lapse c.gone
  ⟨hready.allowed limit c.member, hready.serve hnew⟩

/-- The run lemma. -/
theorem Tracks.run {cs : List RateCall} (h : Tracks window b admitted now used)
    (hcs : Orderly now used cs) :
    (replies limit window b cs).map RateLimitResult.allowed =
        history limit window admitted (cs.map RateCall.now) ∧
      ∃ used', ∀ n, now ≤ n → (∀ c ∈ cs, c.now ≤ n) →
        Tracks window (b.after limit window cs)
          ((cs.map RateCall.now).foldl (record limit window) admitted) n used' := by
  induction cs generalizing b admitted now used with
  | nil => exact ⟨rfl, used, fun n hn _ => h.wait hn⟩
  | cons c cs ih =>
      obtain ⟨hallowed, hnext⟩ := h.call limit (hcs.later c List.mem_cons_self)
        (hcs.fresh c List.mem_cons_self)
      obtain ⟨hsame, used', hafter⟩ := ih hnext hcs.tail
      refine ⟨?_, used', fun n _ hall => ?_⟩
      · simp only [replies, List.map_cons, history, hallowed, hsame]
      · exact hafter n (hall c List.mem_cons_self) fun d hd => hall d (List.mem_cons_of_mem _ hd)

end run

/-- The step lemma of the bound. -/
theorem Bounded.record {limit window now n : Nat} {admitted : List Nat}
    (h : Bounded limit window admitted now) (hn : now ≤ n) (hle : ∀ t ∈ admitted, t ≤ n) :
    Bounded limit window (record limit window admitted n) n := by
  intro k hk
  have hlive := length_live_le hk window admitted
  have hcons : (live window k (n :: admitted)).length ≤ (live window k admitted).length + 1 := by
    simp only [live, List.filter_cons]
    split <;> simp
  unfold NeuroVoice.record
  rw [admits_eq hle]
  split
  · next hfree =>
      have hfree := of_decide_eq_true hfree
      omega
  · exact h k (hn.trans hk)

/-- The run lemma of the bound. -/
theorem Bounded.foldl {limit window now : Nat} {admitted ts : List Nat}
    (h : Bounded limit window admitted now) (hle : ∀ t ∈ admitted, t ≤ now)
    (hts : ts.Pairwise (· ≤ ·)) (hlater : ∀ t ∈ ts, now ≤ t) (n : Nat) (hn : now ≤ n)
    (hall : ∀ t ∈ ts, t ≤ n) :
    Bounded limit window (ts.foldl (NeuroVoice.record limit window) admitted) n := by
  induction ts generalizing admitted now with
  | nil => exact fun k hk => h k (hn.trans hk)
  | cons t ts ih =>
      have ht := hlater t List.mem_cons_self
      have hnow : ∀ x ∈ admitted, x ≤ t := fun x hx => (hle x hx).trans ht
      obtain ⟨hfirst, hrest⟩ := List.pairwise_cons.1 hts
      refine ih (h.record ht hnow) (fun x hx => ?_) hrest hfirst (hall t List.mem_cons_self)
        fun x hx => hall x (List.mem_cons_of_mem _ hx)
      unfold NeuroVoice.record at hx
      split at hx
      · obtain rfl | hx := List.mem_cons.1 hx
        · exact le_rfl
        · exact hnow x hx
      · exact hnow x hx

/-- One of the admissions that count at `m` no longer counts at `n`. -/
theorem length_live_lt {window m n t : Nat} {ts : List Nat} (hmn : m ≤ n)
    (ht : t ∈ live window m ts) (hlate : t + window ≤ n) :
    (live window n ts).length < (live window m ts).length := by
  rw [← live_live hmn ts]
  unfold live at ht ⊢
  rw [List.length_filter_lt_length_iff_exists]
  refine ⟨t, ht, ?_⟩
  simp only [decide_eq_true_eq]
  omega

/-- Denied calls are not recorded. -/
theorem foldl_record_denied {limit window : Int} {admitted : List Nat} {ts : List Nat}
    (h : ∀ ok ∈ history limit window admitted ts, ok = false) :
    ts.foldl (record limit window) admitted = admitted := by
  induction ts generalizing admitted with
  | nil => rfl
  | cons t ts ih =>
      have hdenied : record limit window admitted t = admitted := by
        rw [record, h _ List.mem_cons_self, if_neg Bool.false_ne_true]
      simp only [history, hdenied] at h
      rw [List.foldl_cons, hdenied]
      exact ih fun ok hok => h ok (List.mem_cons_of_mem _ hok)

/-- The later decisions do not depend on a denied call. -/
def DeniedIsFree (limit windowMs : Int) (before later : List RateCall) (rs : List RateLimitResult) :
    Prop :=
  ∃ rs', results limit windowMs .empty (before ++ later) = .ok rs' ∧
    (rs'.drop before.length).map RateLimitResult.allowed =
      (rs.drop (before.length + 1)).map RateLimitResult.allowed

/-- A later call at `retry_after_ms` after a denied one is admitted, when none
in between was. -/
def RetrySuffices (before : List RateCall) (c : RateCall) (r : RateLimitResult) (later : List RateCall)
    (rs : List RateLimitResult) : Prop :=
  ∀ between d rest, later = between ++ d :: rest →
    (∀ r' ∈ (rs.drop (before.length + 1)).take between.length, r'.allowed = false) →
    (d.now : Int) = c.now + r.retryAfterMs →
    ∃ r', rs[before.length + 1 + between.length]? = some r' ∧ r'.allowed = true

section exactness

variable {limit window : Nat} {before later : List RateCall} {c : RateCall}

/-- The replies allow exactly the calls of the window's history. -/
theorem map_allowed_replies {cs : List RateCall} (hcs : Orderly 0 [] cs) :
    (replies limit window .empty cs).map RateLimitResult.allowed =
      history limit window [] (cs.map RateCall.now) :=
  ((tracks_empty window 0).run hcs).1

/-- The first part of an orderly sequence is orderly. -/
theorem Orderly.of_append {now : Nat} {used : List PyStr} {xs ys : List RateCall}
    (h : Orderly now used (xs ++ ys)) : Orderly now used xs where
  time := (List.pairwise_append.1 h.time).1
  member := by
    have hmember := h.member
    rw [List.map_append] at hmember
    exact (List.nodup_append.1 hmember).1
  later d hd := h.later d (List.mem_append_left _ hd)
  fresh d hd := h.fresh d (List.mem_append_left _ hd)

/-- It is orderly without one of its calls. -/
theorem Orderly.drop {now : Nat} {used : List PyStr} (h : Orderly now used (before ++ c :: later)) :
    Orderly now used (before ++ later) := by
  have hsub : (before ++ later).Sublist (before ++ c :: later) :=
    (List.sublist_cons_self c later).append_left before
  exact ⟨h.time.sublist hsub, h.member.sublist (hsub.map _), fun d hd => h.later d (hsub.subset hd),
    fun d hd => h.fresh d (hsub.subset hd)⟩

/-- Earlier calls came in order. -/
theorem Orderly.before_sorted {now : Nat} {used : List PyStr}
    (h : Orderly now used (before ++ c :: later)) :
    (before.map RateCall.now).Pairwise (· ≤ ·) :=
  List.pairwise_map.2 (List.pairwise_append.1 h.time).1

/-- They came before the call. -/
theorem Orderly.before_le {now : Nat} {used : List PyStr}
    (h : Orderly now used (before ++ c :: later)) :
    ∀ t ∈ before.map RateCall.now, t ≤ c.now := by
  intro t ht
  obtain ⟨d, hd, rfl⟩ := List.mem_map.1 ht
  exact (List.pairwise_append.1 h.time).2.2 d hd c List.mem_cons_self

/-- The history before a call, and what it says of the call. -/
theorem decision_eq (h : Orderly 0 [] (before ++ c :: later)) {r : RateLimitResult}
    (hr : (replies limit window .empty (before ++ c :: later))[before.length]? = some r) :
    r = (c.serve limit window (Bucket.empty.after limit window before)).1 ∧
      ∃ used, Tracks window ((Bucket.empty.after limit window before).lapse c.now c.gone)
        ((before.map RateCall.now).foldl (record limit window) []) c.now used := by
  constructor
  · rw [replies_append, List.getElem?_append_right (by rw [length_replies]), length_replies,
      Nat.sub_self] at hr
    exact (Option.some.inj hr).symm
  · obtain ⟨-, used, hafter⟩ := (tracks_empty window 0).run h.of_append
    refine ⟨used, (hafter c.now (Nat.zero_le _) fun d hd => ?_).lapse c.gone⟩
    exact (List.pairwise_append.1 h.time).2.2 d hd c List.mem_cons_self

/-- The decisions after a denied call. -/
theorem drop_denied (h : Orderly 0 [] (before ++ c :: later)) {r : RateLimitResult}
    (hr : (replies limit window .empty (before ++ c :: later))[before.length]? = some r)
    (hdenied : r.allowed = false) :
    ((replies limit window .empty (before ++ c :: later)).drop (before.length + 1)).map
        RateLimitResult.allowed =
      history limit window ((before.map RateCall.now).foldl (record limit window) [])
        (later.map RateCall.now) := by
  obtain ⟨rfl, used, htracks⟩ := decision_eq h hr
  have hkeep : record limit window ((before.map RateCall.now).foldl (record limit window) []) c.now =
      (before.map RateCall.now).foldl (record limit window) [] := by
    have hreply := htracks.allowed limit c.member
    rw [record, ← hreply]
    exact if_neg (by rw [RateCall.serve] at hdenied; rw [hdenied]; exact Bool.false_ne_true)
  have hlen : (history limit window [] (before.map RateCall.now)).length = before.length := by
    rw [length_history, List.length_map]
  rw [List.map_drop, map_allowed_replies h, List.map_append, history_append, ← List.drop_drop,
    ← hlen, List.drop_left, List.map_cons, history, hkeep]
  rfl

/-- Without a denied call all others are answered the same. -/
theorem deniedIsFree (h : Orderly 0 [] (before ++ c :: later)) (hlimit : 0 < limit)
    (hwindow : 0 < window) {r : RateLimitResult}
    (hr : (replies limit window .empty (before ++ c :: later))[before.length]? = some r)
    (hdenied : r.allowed = false) :
    DeniedIsFree limit window before later (replies limit window .empty (before ++ c :: later)) := by
  refine ⟨_, results_eq hlimit hwindow _ _, ?_⟩
  have hlen : (history limit window [] (before.map RateCall.now)).length = before.length := by
    rw [length_history, List.length_map]
  rw [drop_denied h hr hdenied, List.map_drop, map_allowed_replies h.drop, List.map_append,
    history_append, ← hlen, List.drop_left]

/-- A call that waits as it was told is allowed, if nobody else calls. -/
theorem retrySuffices (h : Orderly 0 [] (before ++ c :: later)) (hlimit : 0 < limit)
    {r : RateLimitResult}
    (hr : (replies limit window .empty (before ++ c :: later))[before.length]? = some r)
    (hdenied : r.allowed = false) :
    RetrySuffices before c r later (replies limit window .empty (before ++ c :: later)) := by
  rintro between d rest rfl hbetween hd
  have hdrop := drop_denied h hr hdenied
  obtain ⟨rfl, used, htracks⟩ := decision_eq h hr
  obtain ⟨oldest, hlive, -, hretry⟩ := htracks.retry hlimit hdenied
  rw [RateCall.serve, hretry] at hd
  -- nothing is admitted in between, so the history is still the one before the denial
  rw [List.map_append, history_append, List.map_cons] at hdrop
  have hquiet : ∀ ok ∈ history limit window
      ((before.map RateCall.now).foldl (record limit window) []) (between.map RateCall.now),
      ok = false := by
    intro ok hok
    have htake := congrArg (List.take between.length) hdrop
    rw [← List.map_take, List.take_left' (by rw [length_history, List.length_map])] at htake
    rw [← htake] at hok
    obtain ⟨r', hr', rfl⟩ := List.mem_map.1 hok
    exact hbetween r' hr'
  rw [foldl_record_denied hquiet, history] at hdrop
  have hget := congrArg (fun l => l[between.length]?) hdrop
  rw [List.getElem?_append_right (by rw [length_history, List.length_map]), length_history,
    List.length_map, Nat.sub_self, List.getElem?_cons_zero, List.getElem?_map,
    List.getElem?_drop] at hget
  obtain ⟨r', hr', hallowed⟩ := Option.map_eq_some_iff.1 hget
  refine ⟨r', hr', hallowed.trans ?_⟩
  have hle : c.now ≤ d.now := by
    have hpos := of_decide_eq_true (List.mem_filter.1 hlive).2
    omega
  have hroom := length_live_lt hle hlive (by omega)
  have hempty : Bounded limit window [] 0 := fun _ _ => Nat.zero_le _
  have hbound : Bounded limit window _ c.now :=
    hempty.foldl (fun t ht => by cases ht) h.before_sorted (fun _ _ => Nat.zero_le _) c.now
      (Nat.zero_le _) h.before_le
  have hbound := hbound c.now le_rfl
  rw [admits_eq fun t ht => (htracks.admitted_le t ht).trans hle]
  exact decide_eq_true (by omega)

end exactness

/-- **The limiter is exact.**  It admits as a limiter with a full memory does,
a denied call changes no later decision, and a call `retry_after_ms` after a
denial is admitted. -/
theorem limiter_exact (limit windowMs : Int) (hlimit : 0 < limit) (hwindow : 0 < windowMs)
    (cs : List RateCall) (htime : cs.Pairwise fun c d => c.now ≤ d.now)
    (hmember : (cs.map RateCall.member).Nodup) :
    ∃ rs, results limit windowMs .empty cs = .ok rs ∧
      rs.map RateLimitResult.allowed = history limit windowMs [] (cs.map RateCall.now) ∧
      ∀ before c later, cs = before ++ c :: later → ∀ r, rs[before.length]? = some r →
        r.allowed = false →
        DeniedIsFree limit windowMs before later rs ∧ RetrySuffices before c r later rs := by
  obtain ⟨limit, rfl⟩ := Int.eq_ofNat_of_zero_le hlimit.le
  obtain ⟨window, rfl⟩ := Int.eq_ofNat_of_zero_le hwindow.le
  have hl : 0 < limit := by omega
  have hw : 0 < window := by omega
  have hcs : Orderly 0 [] cs := ⟨htime, hmember, fun _ _ => Nat.zero_le _, fun _ _ hm => by cases hm⟩
  refine ⟨_, results_eq hl hw cs .empty, map_allowed_replies hcs, ?_⟩
  rintro before c later rfl r hr hdenied
  exact ⟨deniedIsFree hcs hl hw hr hdenied, retrySuffices hcs hl hr hdenied⟩

/-- Two calls in one window of one call, and a retry. -/
def threeCalls : List RateCall := [⟨5, py "a", false⟩, ⟨7, py "b", false⟩, ⟨65, py "c", true⟩]

/-- Of three calls the second is refused: it costs nothing, and the wait it names is
enough. -/
theorem limiter_exact_threeCalls : ∃ rs, results 1 60 .empty threeCalls = .ok rs ∧
    rs.map RateLimitResult.allowed = history 1 60 [] (threeCalls.map RateCall.now) ∧
    ∀ before c later, threeCalls = before ++ c :: later → ∀ r, rs[before.length]? = some r →
      r.allowed = false →
      DeniedIsFree 1 60 before later rs ∧ RetrySuffices before c r later rs :=
  limiter_exact 1 60 (by decide) (by decide) threeCalls (by decide) (by decide)

/-- The second call is denied for 58 ms, and the third one is in time. -/
example : results 1 60 .empty threeCalls =
    .ok [⟨true, 1, 0⟩, ⟨false, 1, 58⟩, ⟨true, 1, 0⟩] := by decide

end NeuroVoice
