import NeuroVoice.Run

/-!
# NeuroVoice.Trim

The bound on the jobs stream against the jobs still on it.

`submit` bounds the stream by `MAXLEN ~`, which drops the oldest entries,
acknowledged or not.  An entry is `Live` from its `XADD` to its `XACK`.
`exists_add_drops_iff` says when the next `XADD` can drop an entry, and
`live_kept` that a run in which no `XADD` finds a live entry that far back
(`RoomFor`) keeps every live entry.  Nothing ensures that room: the
backpressure check comes before the `XADD` and reserves nothing, so enough
requests that pass it together trim the first of them (`live_entry_trimmed`).
-/

namespace NeuroVoice

/-! ## one `XADD` -/

/-- What is left of a sorted list without its first `k` items. -/
theorem mem_drop_iff_of_sorted {α : Type} [LinearOrder α] {xs : List α}
    (hs : xs.Pairwise (· < ·)) {x : α} (hx : x ∈ xs) {k : Nat} (hk : k ≤ xs.length) :
    x ∈ xs.drop k ↔ (xs.filter (x ≤ ·)).length + k ≤ xs.length := by
  induction xs generalizing k with
  | nil => cases hx
  | cons y xs ih =>
      obtain ⟨hy, hs⟩ := List.pairwise_cons.1 hs
      cases k with
      | zero => exact iff_of_true hx (List.length_filter_le _ _)
      | succ k =>
          have hk : k ≤ xs.length := Nat.le_of_succ_le_succ hk
          rcases List.mem_cons.1 hx with rfl | hx
          · have hall : xs.filter (x ≤ ·) = xs :=
              List.filter_eq_self.2 fun y hmem => by simpa using (hy y hmem).le
            have hnot : x ∉ xs.drop k := fun hmem =>
              lt_irrefl _ (hy x (List.mem_of_mem_drop hmem))
            simp [hall, hnot]
          · have hrest : (y :: xs).filter (x ≤ ·) = xs.filter (x ≤ ·) := by simp [hy x hx]
            rw [List.drop_succ_cons, ih hs hx hk, hrest, List.length_cons]
            omega

namespace JobsStream

variable {s s' : JobsStream} {id e n maxlen trimmed : Nat} {f : EntryFields}

/-- The entries on the stream, by id. -/
def ids (s : JobsStream) : List Nat := s.entries.map Prod.fst

/-- How many entries are on the stream from entry `e` on. -/
def since (s : JobsStream) (e : Nat) : Nat := (s.ids.filter (e ≤ ·)).length

/-- Ids increase along the stream, and the next one is above them all. -/
structure Sorted (s : JobsStream) (next : Nat) : Prop where
  increasing : s.ids.Pairwise (· < ·)
  below : ∀ e ∈ s.ids, e < next

theorem isSome_find? : (s.find? e).isSome = true ↔ e ∈ s.ids := by
  simp only [find?, ids, Option.isSome_map, List.find?_isSome, List.mem_map, decide_eq_true_eq]

theorem Sorted.mono (h : s.Sorted n) {m : Nat} (hm : n ≤ m) : s.Sorted m :=
  ⟨h.increasing, fun e he => (h.below e he).trans_le hm⟩

/-- What `XADD` does to the ids. -/
theorem add_eq_some (h : s.add id f maxlen trimmed = some s') :
    s'.ids = (s.ids ++ [id]).drop trimmed ∧
      (trimmed = 0 ∨ maxlen + trimmed ≤ s.ids.length + 1) := by
  simp only [add, List.length_append, List.length_singleton] at h
  split at h
  · next ht => cases h; simpa [ids] using ht
  · cases h

/-- The ids with the new one, before the stream is trimmed. -/
theorem Sorted.append (h : s.Sorted n) : (s.ids ++ [n]).Pairwise (· < ·) := by
  refine List.pairwise_append.2 ⟨h.increasing, List.pairwise_singleton _ _, fun a ha b hb => ?_⟩
  rw [List.mem_singleton.1 hb]
  exact h.below a ha

theorem Sorted.add (h : s.Sorted n) (hadd : s.add n f maxlen trimmed = some s') :
    s'.Sorted (n + 1) := by
  have hsub : s'.ids.Sublist (s.ids ++ [n]) := by
    rw [(add_eq_some hadd).1]
    exact List.drop_sublist _ _
  refine ⟨h.append.sublist hsub, fun e he => ?_⟩
  rcases List.mem_append.1 (hsub.subset he) with he | he
  · exact Nat.lt_succ_of_lt (h.below e he)
  · exact (List.mem_singleton.1 he) ▸ Nat.lt_succ_self n

/-- The entries that an `XADD` leaves. -/
theorem Sorted.mem_add (h : s.Sorted n) (hadd : s.add n f maxlen trimmed = some s')
    (he : e ∈ s.ids) : e ∈ s'.ids ↔ s.since e + trimmed ≤ s.ids.length := by
  obtain ⟨hs, htrim⟩ := add_eq_some hadd
  have hone : ((s.ids ++ [n]).filter (e ≤ ·)).length = s.since e + 1 := by
    simp [since, (h.below e he).le]
  rw [hs, mem_drop_iff_of_sorted h.append (List.mem_append_left _ he) (by simp; omega), hone,
    List.length_append, List.length_singleton]
  omega

/-- **When an `XADD` can drop an entry**: when at least `maxlen` entries are
on the stream from it on. -/
theorem Sorted.exists_add_drops_iff (h : s.Sorted n) (he : e ∈ s.ids) :
    (∃ trimmed s', s.add n f maxlen trimmed = some s' ∧ e ∉ s'.ids) ↔ maxlen ≤ s.since e := by
  constructor
  · rintro ⟨trimmed, s', hadd, hout⟩
    have hsub : s.since e ≤ s.ids.length := List.length_filter_le _ _
    obtain ⟨-, htrim⟩ := add_eq_some hadd
    rw [h.mem_add hadd he] at hout
    omega
  · intro hle
    have hsub : s.since e ≤ s.ids.length := List.length_filter_le _ _
    have hadd : ∃ s', s.add n f maxlen (s.ids.length + 1 - s.since e) = some s' := by
      rw [JobsStream.add, if_pos]
      · exact ⟨_, rfl⟩
      · exact .inr (by simp [ids] at hsub ⊢; omega)
    obtain ⟨s', hadd⟩ := hadd
    exact ⟨_, s', hadd, fun hin => by have := (h.mem_add hadd he).1 hin; omega⟩

end JobsStream

/-! ## a run -/

/-- The event is an `XADD` to the jobs stream. -/
def xadds (t : SysTrans) : Bool :=
  match t.ev with
  | .act _ (.xaddJob _) _ => true
  | _ => false

/-- The event is an `XACK`, of this entry. -/
def acked? (t : SysTrans) : Option Nat :=
  match t.ev with
  | .act _ (.xack e) _ => some e
  | _ => none

/-- This event puts entry `e` on the jobs stream. -/
def AddsEntry (e : Nat) (_past : List SysTrans) (t : SysTrans) : Prop :=
  xadds t = true ∧ t.pre.nextId = e ∧ t.post.nextId = e + 1

instance (e : Nat) (past : List SysTrans) (t : SysTrans) : Decidable (AddsEntry e past t) :=
  inferInstanceAs (Decidable (_ ∧ _))

/-- This event takes entry `e` off the pending entries list, by `XACK`. -/
def AcksEntry (e : Nat) (_past : List SysTrans) (t : SysTrans) : Prop :=
  acked? t = some e ∧ (t.pre.jobs.pending? e).isSome = true ∧ t.post.jobs.pending? e = none

/-- The entry was added, or was there to begin with, and nobody acknowledged
it. -/
structure Live (w₀ : World) (ts : List SysTrans) (e : Nat) : Prop where
  added : e ∈ w₀.jobs.ids ∨ Once (AddsEntry e) ts
  unacked : ¬Once (AcksEntry e) ts

/-- An `XADD` finds fewer than `MAXLEN` entries from any live one on. -/
def RoomFor (w₀ : World) (past : List SysTrans) (t : SysTrans) : Prop :=
  ∀ new, AddsEntry new past t → ∀ e, Live w₀ past e → t.pre.jobs.since e < defaultMaxlen

theorem once_addsEntry {e : Nat} {ts : List SysTrans} :
    Once (AddsEntry e) ts ↔ ∃ t ∈ ts, AddsEntry e [] t := by
  constructor
  · rintro ⟨past, t, rest, rfl, h⟩
    exact ⟨t, by simp, h⟩
  · rintro ⟨t, ht, h⟩
    obtain ⟨past, rest, rfl⟩ := List.append_of_mem ht
    exact ⟨past, t, rest, rfl, h⟩

section run

variable {S : Settings} {w₀ w w' : World} {ts : List SysTrans} {t : SysTrans} {ev : SysEvent}
  {p e : Nat}

theorem Live.of_snoc (h : Live w₀ (ts ++ [t]) e) : Live w₀ ts e ∨ AddsEntry e ts t := by
  obtain ⟨hadd, hack⟩ := h
  rw [once_snoc] at hadd hack
  rcases hadd with hadd | hadd | hadd
  · exact .inl ⟨.inl hadd, fun h => hack (.inl h)⟩
  · exact .inl ⟨.inr hadd, fun h => hack (.inl h)⟩
  · exact .inr hadd

/-- Only an `XADD` changes which entries are on the stream. -/
theorem perform_ids {x : Eff} {h : Hint} {r : Except Foreign (Ret x)}
    (hx : perform p x h w = some (r, w')) :
    w'.jobs.ids = w.jobs.ids ∧ w.nextId ≤ w'.nextId ∧
        ((∃ job, x = .xaddJob job) → w'.nextId = w.nextId) ∨
      (∃ job, x = .xaddJob job) ∧ w'.nextId = w.nextId + 1 ∧
        ∃ f n, w.jobs.add w.nextId f defaultMaxlen n = some w'.jobs := by
  cases x with
  | xaddJob job =>
      simp only [perform] at hx
      split at hx
      · next jobs hadd => cases hx; exact .inr ⟨⟨job, rfl⟩, rfl, _, _, hadd⟩
      · cases hx
  | _ =>
      refine .inl ⟨?_, ?_, by simp⟩ <;>
        grind [perform, World.rollback, World.commit, JobsStream.ids, JobsStream.deliver,
          JobsStream.claim, JobsStream.ack]

theorem exec_ids {x : Eff} {o : Oracle} {a : Ans x} (hx : exec p x o w = some (a, w')) :
    w'.jobs.ids = w.jobs.ids ∧ w.nextId ≤ w'.nextId ∧
        ((∃ job, x = .xaddJob job) → w'.nextId = w.nextId) ∨
      (∃ job, x = .xaddJob job) ∧ w'.nextId = w.nextId + 1 ∧
        ∃ f n, w.jobs.add w.nextId f defaultMaxlen n = some w'.jobs := by
  obtain ⟨hint, r, hp⟩ | rfl := exec_performed hx
  · exact perform_ids hp
  · refine .inl ?_
    split <;> exact ⟨rfl, le_rfl, fun _ => rfl⟩

/-- What holds of the jobs stream throughout such a run. -/
structure Kept (w₀ : World) (ts : List SysTrans) (w : World) : Prop where
  sorted : w.jobs.Sorted w.nextId
  present : ∀ e, Live w₀ ts e → e ∈ w.jobs.ids

theorem World.Fresh.kept (h : w₀.Fresh) : Kept w₀ [] w₀ where
  sorted := ⟨h.ids, fun e he => by
    obtain ⟨x, hx, rfl⟩ := List.mem_map.1 he
    exact (h.pos x hx).2⟩
  present e he := he.added.resolve_right not_once_nil

/-- An event that adds nothing. -/
theorem Kept.frame (h : Kept w₀ ts w) (hids : w'.jobs.ids = w.jobs.ids)
    (hnext : w.nextId ≤ w'.nextId) (hadd : ∀ e, ¬AddsEntry e ts ⟨w, ev, w'⟩) :
    Kept w₀ (ts ++ [⟨w, ev, w'⟩]) w' where
  sorted := ⟨hids ▸ h.sorted.increasing, fun e he => (h.sorted.mono hnext).below e (hids ▸ he)⟩
  present e he := hids ▸ h.present e (he.of_snoc.resolve_right (hadd e))

/-- An `XADD` with room. -/
theorem Kept.add (h : Kept w₀ ts w) {f : EntryFields} {n : Nat}
    (hadd : w.jobs.add w.nextId f defaultMaxlen n = some w'.jobs)
    (hnext : w'.nextId = w.nextId + 1)
    (hroom : ∀ e, Live w₀ ts e → w.jobs.since e < defaultMaxlen) :
    Kept w₀ (ts ++ [⟨w, ev, w'⟩]) w' where
  sorted := hnext ▸ h.sorted.add hadd
  present e he := by
    obtain ⟨hids, htrim⟩ := JobsStream.add_eq_some hadd
    rcases he.of_snoc with he | ⟨-, rfl, -⟩
    · have hin := h.present e he
      have hsub : w.jobs.since e ≤ w.jobs.ids.length := List.length_filter_le _ _
      have := hroom e he
      exact (h.sorted.mem_add hadd hin).2 (by omega)
    · have hpos : 0 < defaultMaxlen := by decide
      rw [hids, List.drop_append_of_le_length (by omega)]
      exact List.mem_append_right _ (List.mem_singleton_self _)

theorem xadds_act {x : Eff} {a : Ans x} :
    xadds ⟨w, .act p x a, w'⟩ = true ↔ ∃ job, x = .xaddJob job := by
  cases x <;> simp [xadds]

/-- What a step of a run does to the entries. -/
theorem Next.ids (h : Next S ts w ev w') :
    (w'.jobs.ids = w.jobs.ids ∧ w.nextId ≤ w'.nextId ∧ ∀ e, ¬AddsEntry e ts ⟨w, ev, w'⟩) ∨
      AddsEntry w.nextId ts ⟨w, ev, w'⟩ ∧
        ∃ f n, w.jobs.add w.nextId f defaultMaxlen n = some w'.jobs := by
  cases ev with
  | act p x a =>
      obtain ⟨s, o, -, hx, -⟩ := h.act
      obtain ⟨hids, hle, hsame⟩ | ⟨⟨job, rfl⟩, hnext, hadd⟩ := exec_ids hx
      · refine .inl ⟨hids, hle, ?_⟩
        rintro e ⟨hsub, hpre, hpost⟩
        have hsame := hsame (xadds_act.1 hsub)
        simp only at hpre hpost
        omega
      · exact .inr ⟨⟨rfl, rfl, hnext⟩, hadd⟩
  | spawn q call =>
      obtain ⟨-, rfl⟩ := h.spawn
      exact .inl ⟨rfl, le_rfl, fun e he => nomatch he.1⟩
  | done q r =>
      obtain ⟨-, -, -, rfl⟩ := h.done
      exact .inl ⟨rfl, le_rfl, fun e he => nomatch he.1⟩
  | crash q =>
      obtain ⟨-, -, rfl⟩ := h.crash
      exact .inl ⟨rfl, le_rfl, fun e he => nomatch he.1⟩
  | tick d =>
      obtain rfl := h.tick
      exact .inl ⟨rfl, le_rfl, fun e he => nomatch he.1⟩

/-- The step lemma of `live_kept`. -/
theorem Kept.next (h : Kept w₀ ts w) (hn : Next S ts w ev w')
    (hroom : RoomFor w₀ ts ⟨w, ev, w'⟩) : Kept w₀ (ts ++ [⟨w, ev, w'⟩]) w' := by
  obtain ⟨hids, hle, hadd⟩ | ⟨hadds, f, n, hadd⟩ := hn.ids
  · exact h.frame hids hle hadd
  · exact h.add hadd hadds.2.2 (hroom w.nextId hadds)

/-- **Trimming spares live entries**, in every run that leaves them room. -/
theorem live_kept {c : Config World Eff Ans Outcome} (h₀ : w₀.Fresh)
    (h : Trace (system S) w₀ ts c) (hroom : Always (RoomFor w₀) ts) :
    ∀ e, Live w₀ ts e → (c.world.jobs.find? e).isSome = true := by
  have hkept : Always (RoomFor w₀) ts → Kept w₀ ts c.world := by
    refine (h.run h₀).induct (I := fun ts w => Always (RoomFor w₀) ts → Kept w₀ ts w)
      (fun _ => h₀.kept) ?_
    intro ts w ev w' _ hn ih hroom
    obtain ⟨hpast, hnow⟩ := always_snoc.1 hroom
    exact (ih hpast).next hn hnow
  exact fun e he => JobsStream.isSome_find?.2 ((hkept hroom).present e he)

/-- A stream that stays below its bound leaves room. -/
theorem roomFor_of_short (h : ∀ t ∈ ts, t.pre.jobs.ids.length < defaultMaxlen) :
    Always (RoomFor w₀) ts := by
  rintro past t rest rfl - - e -
  exact (List.length_filter_le _ _).trans_lt (h t (by simp))

theorem not_once_acksEntry (h : ∀ t ∈ ts, acked? t = none) : ¬Once (AcksEntry e) ts := by
  rintro ⟨past, t, rest, rfl, hack, -⟩
  have hnone := h t (by simp)
  rw [hack] at hnone
  cases hnone

end run

/-! ## ten thousand and one requests -/

theorem unacked_of_all {us : List SysTrans} (h : us.all (fun t => (acked? t).isNone) = true) :
    ∀ t ∈ us, acked? t = none :=
  fun t ht => Option.isNone_iff_eq_none.1 (List.all_eq_true.1 h t ht)

/-- What is left of a request that has passed its checks: it reserves its id
and submits. -/
def Enqueues (tenant rid apiKey : Uuid) (prog : Prog Eff Ans Outcome) : Prop :=
  ∃ select hash ttl insert, ∃ (commit : JobIdempotency → Ans .commit → Prog Eff Ans Outcome)
      (clock : JobIdempotency → Ans .clock → Prog Eff Ans Outcome),
    prog = .eff (.selectIdem .reserve tenant rid) select ∧
    select (.ok none) = .eff (.insertIdem tenant rid apiKey hash ttl) insert ∧
    (∀ row, insert (.ok row) = .eff .commit (commit row)) ∧
    (∀ row, commit row (.ok ()) = .eff .clock (clock row)) ∧
    ∀ row now, ∃ job rest, clock row (.ok now) = .eff (.xaddJob job) rest

/-- The `n`-th `POST /v1/tts`. -/
def syncPost : Call := .synthesize ⟨2, 3⟩ {} { text := py "hi", voiceId := py "v" } 0

/-- The id that it draws. -/
def syncId (n : Nat) : Uuid := BitVec.ofNat 128 n

/-- The answers to its checks. -/
def syncChecks (n : Nat) : List Oracle :=
  [.goes { voice := some someVoice }, .goes { flag := true }, .goes { uuid := syncId n },
    .goes {}, .goes {}, .goes {}]

/-- On an empty stream the `n`-th request passes its checks. -/
theorem sync_admitted (n : Nat) : ∃ us prog,
    (system plain).solo n (syncChecks n) ((system plain).start syncPost) blank =
      some (us, prog, blank) ∧
    (∀ t ∈ us, acked? t = none) ∧ (∀ t ∈ us, t.pre = blank) ∧ Enqueues 2 (syncId n) 3 prog := by
  refine ⟨_, _, rfl, unacked_of_all rfl, ?_, _, _, _, _, _, _, rfl, rfl, fun _ => rfl,
    fun _ => rfl, fun _ _ => ⟨_, _, rfl⟩⟩
  simp

/-- **The rest of a request**: with its id unused, it reserves it and submits
its job, and the `XADD` can trim `n` entries. -/
theorem Enqueues.solo {S : Settings} {tenant rid apiKey : Uuid} {prog : Prog Eff Ans Outcome}
    {p n : Nat} {w : World} (h : Enqueues tenant rid apiKey prog) (hclosed : w.idem.pending = [])
    (hrow : w.idem.rows rid = none) (ht : w.tenants tenant = true) (ha : w.apiKeys apiKey = true)
    (hn : n = 0 ∨ defaultMaxlen + n ≤ w.jobs.ids.length + 1) :
    ∃ os us rest w', (system S).solo p os prog w = some (us, rest, w') ∧
      (∀ t ∈ us, acked? t = none) ∧ (∀ t ∈ us, t.pre.jobs.ids = w.jobs.ids) ∧
      (∃ t ∈ us, AddsEntry w.nextId [] t) ∧
      w'.jobs.ids = (w.jobs.ids ++ [w.nextId]).drop n ∧ w'.nextId = w.nextId + 1 ∧
      w'.tenants = w.tenants ∧ w'.apiKeys = w.apiKeys ∧ w'.idem.pending = [] ∧
      ∀ k, k ≠ rid → w'.idem.rows k = w.idem.rows k := by
  obtain ⟨select, hash, ttl, insert, commit, clock, rfl, hsel, hins, hcom, hclk⟩ := h
  have hread (k : Uuid) : w.idem.read p k = w.idem.rows k :=
    TxTable.read_of_own_none (by rw [TxTable.own, hclosed]; rfl)
  have hfree : w.idem.free p rid = true := by rw [TxTable.free, hclosed]; rfl
  -- the reservation
  let row := freshRow tenant apiKey hash w.now ttl
  let w₁ : World := { w with idem := w.idem.put p rid (some row) }
  have hlookup : exec p (.selectIdem .reserve tenant rid) (.goes {}) w = some (.ok none, w) := by
    simp [exec, perform, World.lookupIdem, hread, hrow]
  have hinsert : exec p (.insertIdem tenant rid apiKey hash ttl) (.goes {}) w =
      some (.ok row, w₁) := by
    simp [exec, perform, hfree, hread, hrow, ht, ha, row, freshRow, w₁]
  -- the job
  obtain ⟨job, rest, hjob⟩ := hclk row w.now
  obtain ⟨jobs, hadd⟩ : ∃ jobs, w.jobs.add w.nextId job.encode defaultMaxlen n = some jobs :=
    ⟨_, if_pos (by simpa [JobsStream.ids] using hn)⟩
  have hsubmit : exec p (.xaddJob job) (.goes { trimmed := n }) (w₁.commit p) =
      some (.ok (), { w₁.commit p with jobs, nextId := w.nextId + 1 }) := by
    simp only [exec, perform]
    rw [show (w₁.commit p).jobs = w.jobs from rfl, show (w₁.commit p).nextId = w.nextId from rfl,
      hadd]
  obtain ⟨hids, -⟩ := JobsStream.add_eq_some hadd
  refine ⟨[.goes {}, .goes {}, .goes {}, .goes {}, .goes { trimmed := n }], _, _, _,
    Machine.solo_cons hlookup hsel <| Machine.solo_cons hinsert (hins row) <|
      Machine.solo_cons rfl (hcom row) <| Machine.solo_cons rfl hjob <|
      Machine.solo_cons hsubmit rfl rfl,
    unacked_of_all rfl, ?_, ?_, hids, rfl, rfl, rfl, ?_, fun k hk => ?_⟩
  · simp [w₁, World.commit]
  · exact ⟨_, List.mem_of_getLast? rfl, rfl, rfl, rfl⟩
  · simp [w₁, World.commit, TxTable.commit, TxTable.rollback, TxTable.put, hclosed]
  · simp [w₁, World.commit, hread, Ne.symm hk]

/-- `m` requests have passed their checks, and nothing else has happened. -/
structure Waiting (m : Nat) (ts : List SysTrans) (c : Config World Eff Ans Outcome) : Prop where
  trace : Trace (system plain) blank ts c
  unacked : ∀ t ∈ ts, acked? t = none
  idle : ∀ t ∈ ts, t.pre = blank
  world : c.world = blank
  waiting : ∀ n < m, ∃ prog, c.procs n = .running prog ∧ Enqueues 2 (syncId n) 3 prog
  absent : ∀ n, m ≤ n → c.procs n = .absent

theorem exists_waiting (m : Nat) : ∃ ts c, Waiting m ts c := by
  induction m with
  | zero => exact ⟨[], _, .nil, fun t ht => absurd ht List.not_mem_nil,
      fun t ht => absurd ht List.not_mem_nil, rfl, fun n hn => absurd hn n.not_lt_zero,
      fun _ _ => rfl⟩
  | succ m ih =>
      obtain ⟨ts, c, h⟩ := ih
      obtain ⟨us, prog, hsolo, hus, hpre, henq⟩ := sync_admitted m
      have hstep : Step (system plain) c (.spawn m syncPost) _ := .spawn (h.absent m le_rfl)
      have hspawn := h.trace.snoc hstep
      have hsolo : (system plain).solo m (syncChecks m) ((system plain).start syncPost) c.world =
          some (us, prog, blank) := by rw [h.world]; exact hsolo
      refine ⟨_, _, hspawn.solo (Function.update_self ..) hsolo, ?_, ?_, rfl, ?_, ?_⟩
      · intro t ht
        rcases List.mem_append.1 ht with ht | ht
        · rcases List.mem_append.1 ht with ht | ht
          · exact h.unacked t ht
          · rw [List.mem_singleton.1 ht]
            rfl
        · exact hus t ht
      · intro t ht
        rcases List.mem_append.1 ht with ht | ht
        · rcases List.mem_append.1 ht with ht | ht
          · exact h.idle t ht
          · rw [List.mem_singleton.1 ht]
            exact h.world
        · exact hpre t ht
      · intro n hn
        rcases Nat.lt_succ_iff_lt_or_eq.1 hn with hn | rfl
        · simpa [hn.ne] using h.waiting n hn
        · exact ⟨prog, Function.update_self .., henq⟩
      · intro n hn
        have hne : n ≠ m := by omega
        simpa [hne] using h.absent n (by omega)

/-- The first `k` of these requests have submitted, and their last `XADD`
has trimmed `n` entries; it was the last event. -/
structure Queued (k n : Nat) (ts : List SysTrans) (c : Config World Eff Ans Outcome) :
    Prop where
  trace : Trace (system plain) blank ts c
  unacked : ∀ t ∈ ts, acked? t = none
  short : ∀ t ∈ ts, t.pre.jobs.ids.length ≤ k - 1
  ids : c.world.jobs.ids = (List.range' 1 k).drop n
  nextId : c.world.nextId = k + 1
  first : 0 < k → Once (AddsEntry 1) ts
  waiting : ∀ m, k ≤ m → m ≤ defaultMaxlen →
    ∃ prog, c.procs m = .running prog ∧ Enqueues 2 (syncId m) 3 prog
  known : c.world.tenants 2 = true ∧ c.world.apiKeys 3 = true
  closed : c.world.idem.pending = []
  unreserved : ∀ m, k ≤ m → m ≤ defaultMaxlen → c.world.idem.rows (syncId m) = none

theorem Waiting.queued {ts : List SysTrans} {c : Config World Eff Ans Outcome}
    (h : Waiting (defaultMaxlen + 1) ts c) : Queued 0 0 ts c where
  trace := h.trace
  unacked := h.unacked
  short t ht := by rw [h.idle t ht]; exact le_rfl
  ids := by rw [h.world]; rfl
  nextId := by rw [h.world]; rfl
  first := nofun
  waiting m _ hm := h.waiting m (by omega)
  known := by rw [h.world]; exact ⟨rfl, rfl⟩
  closed := by rw [h.world]; rfl
  unreserved m _ _ := by rw [h.world]; rfl

theorem syncId_inj {m k : Nat} (hm : m ≤ defaultMaxlen) (hk : k ≤ defaultMaxlen)
    (h : syncId m = syncId k) : m = k := by
  have := congrArg BitVec.toNat h
  simp only [syncId, BitVec.toNat_ofNat, defaultMaxlen] at *
  omega

/-- **The next request submits**, and its `XADD` trims `n` entries. -/
theorem Queued.submit {k n : Nat} {ts : List SysTrans} {c : Config World Eff Ans Outcome}
    (h : Queued k 0 ts c) (hk : k ≤ defaultMaxlen) (hn : n = 0 ∨ defaultMaxlen + n ≤ k + 1) :
    ∃ ts c, Queued (k + 1) n ts c := by
  obtain ⟨prog, hp, henq⟩ := h.waiting k le_rfl hk
  obtain ⟨os, us, rest, w', hsolo, hus, hpre, ⟨t, ht, hadds⟩, hids, hnext, hten, hkey, hclosed,
      hrows⟩ := henq.solo (S := plain) h.closed (h.unreserved k le_rfl hk) h.known.1 h.known.2
      (n := n) (by simpa [h.ids] using hn)
  refine ⟨_, _, h.trace.solo hp hsolo,
    fun t ht => (List.mem_append.1 ht).elim (h.unacked t) (hus t), fun t ht => ?_, ?_,
    by rw [hnext, h.nextId], ?_, fun m hm hm' => ?_, by rw [hten, hkey]; exact h.known, hclosed,
    fun m hm hm' => ?_⟩
  · obtain ht | ht := List.mem_append.1 ht
    · have := h.short t ht
      omega
    · rw [hpre t ht, h.ids, List.drop_zero, List.length_range']
      omega
  · rw [hids, h.ids, h.nextId, List.drop_zero, List.range'_concat, one_mul, Nat.add_comm 1 k]
  · intro _
    rcases k.eq_zero_or_pos with rfl | hpos
    · rw [h.nextId] at hadds
      exact once_addsEntry.2 ⟨t, List.mem_append_right _ ht, hadds⟩
    · obtain ⟨t, ht, hadds⟩ := once_addsEntry.1 (h.first hpos)
      exact once_addsEntry.2 ⟨t, List.mem_append_left _ ht, hadds⟩
  · have hne : m ≠ k := by omega
    simpa [hne] using h.waiting m (by omega) hm'
  · rw [hrows _ fun heq => by have := syncId_inj hm' hk heq; omega]
    exact h.unreserved m (by omega) hm'

theorem exists_queued (k : Nat) (hk : k ≤ defaultMaxlen) : ∃ ts c, Queued k 0 ts c := by
  induction k with
  | zero =>
      obtain ⟨ts, c, h⟩ := exists_waiting (defaultMaxlen + 1)
      exact ⟨ts, c, h.queued⟩
  | succ k ih =>
      obtain ⟨ts, c, h⟩ := ih (by omega)
      exact h.submit (by omega) (.inl rfl)

/-- A full stream of live entries: each `XADD` behind the first job finds room,
the last one with none to spare. -/
theorem live_kept_full : ∃ ts c, Trace (system plain) blank ts c ∧
    c.world.jobs.ids.length = defaultMaxlen ∧ c.world.jobs.since 1 = defaultMaxlen ∧
    Live blank ts 1 ∧ (c.world.jobs.find? 1).isSome = true := by
  obtain ⟨ts, c, h⟩ := exists_queued defaultMaxlen le_rfl
  have hlive : Live blank ts 1 :=
    ⟨.inr (h.first (by decide)), not_once_acksEntry h.unacked⟩
  have hroom : Always (RoomFor blank) ts :=
    roomFor_of_short fun t ht => by have := h.short t ht; simp only [defaultMaxlen] at *; omega
  have hids : c.world.jobs.ids = List.range' 1 defaultMaxlen := h.ids
  have hall : (List.range' 1 defaultMaxlen).filter (1 ≤ ·) = List.range' 1 defaultMaxlen :=
    List.filter_eq_self.2 fun e he => by simpa using (List.mem_range'_1.1 he).1
  refine ⟨ts, c, h.trace, by rw [hids, List.length_range'], ?_, hlive,
    live_kept fresh_blank h.trace hroom 1 hlive⟩
  rw [JobsStream.since, hids, hall, List.length_range']

/-- More requests pass the check together than the stream can hold, and the
last `XADD` trims the job of the first, which no worker has seen. -/
theorem live_entry_trimmed : ¬∀ ts c, Trace (system plain) blank ts c →
    ∀ e, Live blank ts e → (c.world.jobs.find? e).isSome = true := by
  intro hall
  obtain ⟨_, _, h⟩ := exists_queued defaultMaxlen le_rfl
  obtain ⟨ts, c, h⟩ := h.submit le_rfl (n := 1) (.inr le_rfl)
  have hlive : Live blank ts 1 :=
    ⟨.inr (h.first (Nat.succ_pos _)), not_once_acksEntry h.unacked⟩
  have hin := JobsStream.isSome_find?.1 (hall ts c h.trace 1 hlive)
  rw [h.ids, List.drop_range', List.mem_range'_1] at hin
  omega

end NeuroVoice
