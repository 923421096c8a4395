import NeuroVoice.Lib.Calls
import NeuroVoice.ResultReader

/-!
# NeuroVoice.Yields

What the reader of a result stream yields, said without the reader's state.

An entry is dropped when it is stale or repeats a chunk that was yielded, and
nothing is read behind the first terminal that is not stale: `yieldsFrom`.
`consume_result_stream` yields exactly that, however `XREAD` batches the
entries, and `collect_pcm_until_final` returns the audio of the terminal's
attempt: `result_stream_reader`.
-/

namespace NeuroVoice

/-! ## the filter -/

/-- An entry before it belongs to a newer attempt. -/
def superseded (before : List TtsResult) (r : TtsResult) : Bool :=
  before.any fun b => r.attempt < b.attempt

/-- Superseded, or older than the epoch `-1` in which a reader starts. -/
def stale (before : List TtsResult) (r : TtsResult) : Bool :=
  r.attempt < -1 || superseded before r

/-- A chunk whose attempt and number were yielded. -/
def repeated (out : List TtsResult) (r : TtsResult) : Bool :=
  !r.isTerminal && out.any fun y => y.attempt = r.attempt && y.seq = r.seq

/-- What is yielded of the entries, after `before` was read and `out` yielded.
`drops` says which entries are stale. -/
def yieldsFrom (drops : List TtsResult → TtsResult → Bool) (before out : List TtsResult) :
    List TtsResult → List TtsResult
  | [] => []
  | r :: rest =>
      if drops before r || repeated out r then yieldsFrom drops (before ++ [r]) out rest
      else if r.isTerminal then [r]
      else r :: yieldsFrom drops (before ++ [r]) (out ++ [r]) rest

/-- What is yielded of a whole stream. -/
def yieldsOf (drops : List TtsResult → TtsResult → Bool) (entries : List TtsResult) :
    List TtsResult :=
  yieldsFrom drops [] [] entries

/-- A terminal was yielded. -/
def Ended (ys : List TtsResult) : Prop := ∃ y ∈ ys, y.isTerminal = true

instance (ys : List TtsResult) : Decidable (Ended ys) :=
  inferInstanceAs (Decidable (∃ y ∈ ys, y.isTerminal = true))

section filter

variable {drops : List TtsResult → TtsResult → Bool} {before out xs ys : List TtsResult}
  {r y : TtsResult}

/-- Nothing has not ended. -/
@[simp] theorem not_ended_nil : ¬Ended [] := by simp [Ended]

/-- A list has ended with its first terminal. -/
@[simp] theorem ended_cons : Ended (y :: ys) ↔ y.isTerminal = true ∨ Ended ys := by
  simp [Ended]

/-- It has ended in one of its parts. -/
@[simp] theorem ended_append : Ended (xs ++ ys) ↔ Ended xs ∨ Ended ys := by
  simp [Ended, or_and_right, exists_or]

/-- A terminal is the last entry yielded. -/
theorem yieldsFrom_ended (xs : List TtsResult) (h : Ended (yieldsFrom drops before out xs)) :
    ∃ chunks last, yieldsFrom drops before out xs = chunks ++ [last] ∧ ¬Ended chunks ∧
      last.isTerminal = true := by
  induction xs generalizing before out with
  | nil => exact absurd h not_ended_nil
  | cons r rest ih =>
      unfold yieldsFrom at h ⊢
      split at h
      · next hdrop =>
          rw [if_pos hdrop]
          exact ih h
      · next hkeep =>
          rw [if_neg hkeep]
          by_cases hr : r.isTerminal = true
          · rw [if_pos hr]
            exact ⟨[], r, rfl, not_ended_nil, hr⟩
          · rw [if_neg hr] at h ⊢
            obtain ⟨chunks, last, heq, hc, hl⟩ := ih ((ended_cons.1 h).resolve_left hr)
            refine ⟨r :: chunks, last, by rw [heq]; rfl, ?_, hl⟩
            exact fun he => (ended_cons.1 he).elim hr hc

/-- Entries behind a terminal do not matter, and the others are yielded one
batch after the other. -/
theorem yieldsFrom_append (xs zs : List TtsResult) :
    yieldsFrom drops before out (xs ++ zs) =
      yieldsFrom drops before out xs ++
        if Ended (yieldsFrom drops before out xs) then []
        else yieldsFrom drops (before ++ xs) (out ++ yieldsFrom drops before out xs) zs := by
  induction xs generalizing before out with
  | nil => simp [yieldsFrom]
  | cons r rest ih =>
      rw [List.cons_append, yieldsFrom, yieldsFrom]
      split
      · rw [ih, List.append_assoc]
        rfl
      · by_cases hr : r.isTerminal = true
        · simp [hr]
        · simp [hr, ih, List.append_assoc]

/-- What was read before a terminal decides. -/
theorem yieldsOf_beginning (h : xs <+: ys) (he : Ended (yieldsOf drops xs)) :
    yieldsOf drops ys = yieldsOf drops xs := by
  obtain ⟨zs, rfl⟩ := h
  unfold yieldsOf at he ⊢
  rw [yieldsFrom_append, if_pos he, List.append_nil]

end filter

/-! ## the reader's state -/

/-- The entries of a stream: Redis numbers them upwards from `1`. -/
structure StreamEntries where
  list : List (Nat × TtsResult)
  positive : ∀ e ∈ list, 0 < e.1
  sorted : list.Pairwise fun a b => a.1 < b.1

/-- The results on the stream. -/
def StreamEntries.results (s : StreamEntries) : List TtsResult := s.list.map Prod.snd

/-- The entries behind a cursor. -/
def StreamEntries.after (s : StreamEntries) (lastId : Nat) : List (Nat × TtsResult) :=
  s.list.filter fun e => lastId < e.1

/-- What the state stands for, after `before` was read and `out` yielded. -/
structure ReadState.Tracks (st : ReadState) (before out : List TtsResult) : Prop where
  epoch : ∀ r : TtsResult, stale before r = decide (r.attempt < st.currentAttempt)
  seen : ∀ n, n ∈ st.seenSeq ↔ ∃ y ∈ out, y.attempt = st.currentAttempt ∧ y.seq = n
  current : ∀ y ∈ out, y.attempt ≤ st.currentAttempt

/-- What the cursor stands for. -/
structure ReadState.At (st : ReadState) (s : StreamEntries) (before : List TtsResult)
    (rest : List (Nat × TtsResult)) : Prop where
  split : s.results = before ++ rest.map Prod.snd
  behind : s.after st.lastId = rest

section state

variable {st : ReadState} {before out : List TtsResult} {s : StreamEntries}
  {rest : List (Nat × TtsResult)} {id : Nat} {r : TtsResult}

/-- At the start nothing was yielded and nothing seen. -/
theorem ReadState.tracks_start : ReadState.Tracks {} [] [] where
  epoch r := by simp [stale, superseded]
  seen n := by simp
  current y hy := by simp at hy

/-- At the start all entries are still to come. -/
theorem ReadState.at_start (s : StreamEntries) : ReadState.At {} s [] s.list where
  split := rfl
  behind := List.filter_eq_self.2 fun e he => decide_eq_true (s.positive e he)

/-- An entry is read: the cursor moves behind it. -/
theorem ReadState.At.step (h : st.At s before ((id, r) :: rest)) {st' : ReadState}
    (hid : st'.lastId = id) : st'.At s (before ++ [r]) rest where
  split := by rw [h.split, List.map_cons, List.append_assoc]; rfl
  behind := by
    have hmem : (id, r) ∈ s.after st.lastId := h.behind ▸ List.mem_cons_self
    have hlt : st.lastId < id := of_decide_eq_true (List.mem_filter.1 hmem).2
    have hsorted : ((id, r) :: rest).Pairwise fun a b => a.1 < b.1 := by
      rw [← h.behind]
      exact s.sorted.sublist List.filter_sublist
    have htwice : s.after id = (s.after st.lastId).filter fun e => id < e.1 := by
      unfold StreamEntries.after
      rw [List.filter_filter]
      refine List.filter_congr fun e _ => ?_
      have hiff : id < e.1 ↔ id < e.1 ∧ st.lastId < e.1 := by omega
      exact (decide_eq_decide.2 hiff).trans (Bool.decide_and ..)
    rw [hid, htwice, h.behind, List.filter_cons_of_neg (by simp)]
    exact List.filter_eq_self.2 fun e he => decide_eq_true ((List.pairwise_cons.1 hsorted).1 e he)

/-- One more result makes older attempts stale. -/
theorem stale_snoc (before : List TtsResult) (r x : TtsResult) :
    stale (before ++ [r]) x = (stale before x || decide (x.attempt < r.attempt)) := by
  simp [stale, superseded, Bool.or_assoc]

/-- Every result moves the cursor, yielded or not. -/
@[simp] theorem ReadState.feed_lastId : (st.feed id r).1.lastId = id := by
  unfold ReadState.feed
  grind

/-- A chunk is repeated if its number was yielded in its attempt; a terminal never
is. -/
theorem repeated_iff {out : List TtsResult} {r : TtsResult} :
    repeated out r = true ↔
      r.isTerminal = false ∧ ∃ y ∈ out, y.attempt = r.attempt ∧ y.seq = r.seq := by
  simp [repeated]

/-- An older attempt is passed over. -/
theorem ReadState.feed_older (h : r.attempt < st.currentAttempt) :
    st.feed id r = ({ st with lastId := id }, false) := by
  rw [feed, if_pos h]

/-- A newer attempt starts afresh, and is yielded. -/
theorem ReadState.feed_newer (h : st.currentAttempt < r.attempt) :
    st.feed id r =
      (⟨id, r.attempt, if r.isTerminal then [] else [r.seq]⟩, true) := by
  have hnot : ¬r.attempt < st.currentAttempt := by omega
  rw [feed, if_neg hnot]
  by_cases hr : r.isTerminal = true <;> simp [h, hr]

/-- Of the current attempt only a repeated chunk is passed over. -/
theorem ReadState.feed_same (h : r.attempt = st.currentAttempt) :
    st.feed id r =
      if r.seq ∈ st.seenSeq ∧ ¬r.isTerminal then ({ st with lastId := id }, false)
      else
        (⟨id, st.currentAttempt, if r.isTerminal then st.seenSeq else r.seq :: st.seenSeq⟩,
          true) := by
  rw [feed, if_neg h.not_lt, if_neg h.symm.not_lt]
  by_cases hr : r.isTerminal = true <;> simp [hr]

/-- An entry of the attempt at hand is a repetition when its number was
seen. -/
theorem ReadState.Tracks.repeated_eq (h : st.Tracks before out)
    (hr : r.attempt = st.currentAttempt) :
    repeated out r = true ↔ r.seq ∈ st.seenSeq ∧ ¬r.isTerminal := by
  rw [repeated_iff, h.seen, hr, Bool.not_eq_true]
  exact and_comm

/-- A chunk that is dropped leaves the state as it was. -/
theorem ReadState.Tracks.drop (h : st.Tracks before out)
    (hdrop : (stale before r || repeated out r) = true) :
    (st.feed id r).2 = false ∧ (st.feed id r).1.Tracks (before ++ [r]) out := by
  have hstays : r.attempt ≤ st.currentAttempt →
      ReadState.Tracks { st with lastId := id } (before ++ [r]) out := by
    intro hle
    refine ⟨fun x => ?_, h.seen, h.current⟩
    have hiff : x.attempt < st.currentAttempt ∨ x.attempt < r.attempt ↔
        x.attempt < st.currentAttempt := by omega
    rw [stale_snoc, h.epoch, ← Bool.decide_or]
    exact decide_eq_decide.2 hiff
  rw [h.epoch, Bool.or_eq_true, decide_eq_true_eq] at hdrop
  by_cases hold : r.attempt < st.currentAttempt
  · rw [feed_older hold]
    exact ⟨rfl, hstays hold.le⟩
  · have hrep := hdrop.resolve_left hold
    obtain ⟨-, y, hy, hya, -⟩ := repeated_iff.1 hrep
    have hsame : r.attempt = st.currentAttempt := by
      have := h.current y hy
      omega
    rw [feed_same hsame, if_pos ((h.repeated_eq hsame).1 hrep)]
    exact ⟨rfl, hstays hsame.le⟩

/-- A chunk that is kept is noted, unless it ends the stream. -/
theorem ReadState.Tracks.keep (h : st.Tracks before out)
    (hkeep : ¬(stale before r || repeated out r) = true) :
    (st.feed id r).2 = true ∧
      (r.isTerminal = false → (st.feed id r).1.Tracks (before ++ [r]) (out ++ [r])) := by
  rw [h.epoch, Bool.or_eq_true, decide_eq_true_eq, not_or, not_lt] at hkeep
  obtain ⟨hle, hrep⟩ := hkeep
  have hepoch : ∀ x : TtsResult, stale (before ++ [r]) x = decide (x.attempt < r.attempt) := by
    intro x
    have hiff : x.attempt < st.currentAttempt ∨ x.attempt < r.attempt ↔
        x.attempt < r.attempt := by omega
    rw [stale_snoc, h.epoch, ← Bool.decide_or]
    exact decide_eq_decide.2 hiff
  have hcurrent : ∀ y ∈ out ++ [r], y.attempt ≤ r.attempt := by
    intro y hy
    rcases List.mem_append.1 hy with hy | hy
    · exact (h.current y hy).trans hle
    · exact (List.mem_singleton.1 hy ▸ le_rfl)
  rcases hle.lt_or_eq with hnew | hsame
  · rw [feed_newer hnew]
    refine ⟨rfl, fun hr => ⟨hepoch, fun n => ?_, hcurrent⟩⟩
    rw [hr]
    constructor
    · intro hn
      exact ⟨r, List.mem_append_right _ List.mem_cons_self, rfl, (List.mem_singleton.1 hn).symm⟩
    · rintro ⟨y, hy, hya, rfl⟩
      rcases List.mem_append.1 hy with hy | hy
      · exact absurd hya ((h.current y hy).trans_lt hnew).ne
      · rw [List.mem_singleton.1 hy]
        exact List.mem_cons_self
  · rw [feed_same hsame.symm, if_neg (mt (h.repeated_eq hsame.symm).2 hrep)]
    refine ⟨rfl, fun hr => ⟨?_, fun n => ?_, ?_⟩⟩
    · rwa [← hsame] at hepoch
    · rw [hr]
      simp only [Bool.false_eq_true, if_false, List.mem_cons, h.seen, List.mem_append,
        List.not_mem_nil, or_false]
      constructor
      · rintro (rfl | ⟨y, hy, hya, rfl⟩)
        · exact ⟨r, .inr rfl, hsame.symm, rfl⟩
        · exact ⟨y, .inl hy, hya, rfl⟩
      · rintro ⟨y, hy | rfl, hya, rfl⟩
        · exact .inr ⟨y, hy, hya, rfl⟩
        · exact .inl rfl
    · rwa [← hsame] at hcurrent

end state

/-! ## runs of the reader -/

/-- A history of awaits. -/
abbrev AwaitHistory : Type := List ((e : Eff) × Ans e)

/-- What the `XREAD`s of a history answered. -/
def readOf (h : AwaitHistory) : List TtsResult :=
  h.flatMap fun
    | ⟨.xreadResults _ _, .ok batch⟩ => batch.map Prod.snd
    | _ => []

/-- How many `XREAD`s a history holds. -/
def reads (h : AwaitHistory) : Nat :=
  h.countP fun
    | ⟨.xreadResults _ _, _⟩ => true
    | _ => false

/-- Every `XREAD` answers with some of the entries behind its cursor, the next
ones first; with none while they are not there yet. -/
def Served (s : StreamEntries) (h : AwaitHistory) : Prop :=
  ∀ rid lastId batch, ⟨.xreadResults rid lastId, .ok batch⟩ ∈ h → batch <+: s.after lastId

/-- A consumer that leaves the loop at a terminal at the latest. -/
def Patient {σ : Type} (take : σ → TtsResult → σ × Bool) : Prop :=
  ∀ acc r, (take acc r).2 = false → r.isTerminal = true

/-- What a consumer makes of what it is given. -/
def consumed {σ : Type} (take : σ → TtsResult → σ × Bool) (acc : σ) (ys : List TtsResult) : σ :=
  ys.foldl (fun acc r => (take acc r).1) acc

section runs

variable {σ : Type} {take : σ → TtsResult → σ × Bool} {s : StreamEntries} {h : AwaitHistory}
  {st : ReadState} {acc : σ} {before out : List TtsResult} {rest : List (Nat × TtsResult)}

/-- One result of a batch: it is passed over, taken, or the last one. -/
theorem feedAll_cons (id : Nat) (r : TtsResult) (batch : List (Nat × TtsResult)) :
    feedAll (fun acc r => pure (take acc r)) ((id, r) :: batch) st acc =
      if (st.feed id r).2 then
        if !(take acc r).2 then pure ((st.feed id r).1, (take acc r).1, some .left)
        else if r.isTerminal then pure ((st.feed id r).1, (take acc r).1, some .terminal)
        else feedAll (fun acc r => pure (take acc r)) batch (st.feed id r).1 (take acc r).1
      else feedAll (fun acc r => pure (take acc r)) batch (st.feed id r).1 acc := rfl

variable (acc) in
/-- **A batch** is fed entry by entry: the consumer is given what the filter
keeps of it, and the reader stops at a terminal. -/
theorem feedAll_yields (htake : Patient take) (batch : List (Nat × TtsResult))
    (ht : st.Tracks before out) (hc : st.At s before (batch ++ rest)) :
    ∃ st' stop ys, ys = yieldsFrom stale before out (batch.map Prod.snd) ∧
      feedAll (fun acc r => pure (take acc r)) batch st acc =
        pure (st', consumed take acc ys, stop) ∧
      ((Ended ys ∧ (stop = some .terminal ∨ stop = some .left)) ∨
        (¬Ended ys ∧ stop = none ∧ st'.Tracks (before ++ batch.map Prod.snd) (out ++ ys) ∧
          st'.At s (before ++ batch.map Prod.snd) rest)) := by
  induction batch generalizing st before out acc with
  | nil =>
      refine ⟨st, none, [], rfl, rfl, .inr ⟨not_ended_nil, rfl, ?_, ?_⟩⟩
      · simpa using ht
      · simpa using hc
  | cons e batch ih =>
      obtain ⟨id, r⟩ := e
      have hcursor : (st.feed id r).1.At s (before ++ [r]) (batch ++ rest) :=
        hc.step ReadState.feed_lastId
      have happ : before ++ r :: batch.map Prod.snd = before ++ [r] ++ batch.map Prod.snd := by simp
      simp only [feedAll_cons, List.map_cons, yieldsFrom, happ]
      by_cases hdrop : (stale before r || repeated out r) = true
      · obtain ⟨hyield, htrack⟩ : (st.feed id r).2 = false ∧
            (st.feed id r).1.Tracks (before ++ [r]) out := ht.drop hdrop
        rw [if_pos hdrop, if_neg (by simp [hyield])]
        exact ih acc htrack hcursor
      · obtain ⟨hyield, htrack⟩ : (st.feed id r).2 = true ∧ (r.isTerminal = false →
            (st.feed id r).1.Tracks (before ++ [r]) (out ++ [r])) := ht.keep hdrop
        rw [if_neg hdrop, if_pos hyield]
        by_cases hr : r.isTerminal = true
        · rw [if_pos hr]
          refine ⟨(st.feed id r).1, if (take acc r).2 then some .terminal else some .left, [r], rfl,
            ?_, .inl ⟨by simp [hr], ?_⟩⟩
          · cases hgo : (take acc r).2 <;> simp [hr, consumed]
          · split <;> simp
        · have hgo : (take acc r).2 = true := by
            by_contra hno
            exact hr (htake acc r (by simpa using hno))
          rw [if_neg hr]
          obtain ⟨st', stop, ys, rfl, hfeed, hend⟩ :=
            ih (take acc r).1 (htrack (by simpa using hr)) hcursor
          refine ⟨st', stop, _, rfl, ?_, ?_⟩
          · simpa [hgo, hr, consumed] using hfeed
          · simpa [hr, List.append_assoc] using hend

/-- What can keep a reader from a terminal: an await that raises, a clock past
the deadline, or that it is still running. -/
def Cut (deadline fuel : Nat) (h : AwaitHistory) (e : Exn) : Prop :=
  (∃ eff, ⟨eff, .error e⟩ ∈ h) ∨ (∃ now, deadline < now ∧ ⟨.clock, .ok now⟩ ∈ h) ∨ reads h = fuel

/-- A loop that was cut later was cut all the same. -/
theorem Cut.cons {deadline fuel n : Nat} {e : Exn} {x : (e : Eff) × Ans e}
    (hc : Cut deadline fuel h e) (hn : reads h = fuel → reads (x :: h) = n) :
    Cut deadline n (x :: h) e := by
  rcases hc with ⟨eff, he⟩ | ⟨now, hnow, he⟩ | hf
  · exact .inl ⟨eff, List.mem_cons_of_mem _ he⟩
  · exact .inr (.inl ⟨now, hnow, List.mem_cons_of_mem _ he⟩)
  · exact .inr (.inr (hn hf))

/-- How the loop ends: at a terminal, with everything the filter keeps of what
was read, or cut short. -/
def LoopEnds (take : σ → TtsResult → σ × Bool) (s : StreamEntries) (before out : List TtsResult)
    (acc : σ) (deadline fuel : Nat) (h : AwaitHistory) : Except Exn (σ × Stop) → Prop
  | .error e => ∃ eff, ⟨eff, .error e⟩ ∈ h
  | .ok (acc', stop) => ∃ ys, ys = yieldsFrom stale before out (readOf h) ∧
      acc' = consumed take acc ys ∧ before ++ readOf h <+: s.results ∧
      ((Ended ys ∧ (stop = .terminal ∨ stop = .left)) ∨
        (¬Ended ys ∧ ∃ e, stop = .raised e ∧ Cut deadline fuel h e))

/-- What serves a history serves the rest of it. -/
theorem Served.tail {x : (e : Eff) × Ans e} (hs : Served s (x :: h)) : Served s h :=
  fun rid lastId batch hb => hs rid lastId batch (List.mem_cons_of_mem _ hb)

/-- To look at an outcome does not change it. -/
theorem endsE_outcomeOf {α : Type} {x : Py α} {r : Except Exn (Except Exn α)}
    (hrun : EndsE (outcomeOf x) h r) : ∃ o, r = .ok o ∧ EndsE x h o := by
  obtain ⟨o, h₁, h₂, rfl, hbody, hret⟩ := Prog.ends_bind.1 hrun
  obtain ⟨o', h₃, h₄, rfl, hx, hmap⟩ := Prog.ends_bind.1 hbody
  cases o' with
  | error e =>
      obtain ⟨rfl, rfl⟩ := hmap
      obtain ⟨rfl, rfl⟩ := hret
      exact ⟨_, rfl, by rwa [List.append_nil, List.append_nil]⟩
  | ok a =>
      obtain ⟨rfl, rfl⟩ := hmap
      obtain ⟨rfl, rfl⟩ := hret
      exact ⟨_, rfl, by rwa [List.append_nil, List.append_nil]⟩

/-- One pass of the loop, and what the rest of the run is. -/
inductive Pass (onChunk : σ → TtsResult → Py (σ × Bool)) (rid : Uuid) (deadline fuel : Nat)
    (st : ReadState) (acc : σ) : AwaitHistory → Except Exn (σ × Stop) → Prop where
  | clockRaises (e) : Pass onChunk rid deadline fuel st acc [⟨.clock, .error e⟩] (.error e)
  | late (now) : deadline < now → Pass onChunk rid deadline fuel st acc
      [⟨.clock, .ok now⟩] (.ok (acc, .raised .resultStreamTimeout))
  | readRaises (now e) : Pass onChunk rid deadline fuel st acc
      [⟨.clock, .ok now⟩, ⟨.xreadResults rid st.lastId, .error e⟩] (.ok (acc, .raised e))
  | sleepRaises (now e) : Pass onChunk rid deadline fuel st acc
      [⟨.clock, .ok now⟩, ⟨.xreadResults rid st.lastId, .ok []⟩, ⟨.sleep, .error e⟩] (.error e)
  | waits (now) {h r} : EndsE (readLoop onChunk rid deadline fuel st acc) h r →
      Pass onChunk rid deadline fuel st acc
        (⟨.clock, .ok now⟩ :: ⟨.xreadResults rid st.lastId, .ok []⟩ :: ⟨.sleep, .ok ()⟩ :: h) r
  | feeds (now e batch) {h r} : EndsE (do
        match ← feedAll onChunk (e :: batch) st acc with
        | (st, acc, none) => readLoop onChunk rid deadline fuel st acc
        | (_, acc, some stop) => pure (acc, stop)) h r →
      Pass onChunk rid deadline fuel st acc
        (⟨.clock, .ok now⟩ :: ⟨.xreadResults rid st.lastId, .ok (e :: batch)⟩ :: h) r

/-- A run of the loop begins with one of the ways through its body. -/
theorem readLoop_pass {onChunk : σ → TtsResult → Py (σ × Bool)} {rid : Uuid} {deadline fuel : Nat}
    {r : Except Exn (σ × Stop)}
    (hrun : EndsE (readLoop onChunk rid deadline (fuel + 1) st acc) h r) :
    Pass onChunk rid deadline fuel st acc h r := by
  unfold readLoop at hrun
  rcases endsE_bind.1 hrun with ⟨e, rfl, hclock⟩ | ⟨now, h₁, h₂, rfl, hclock, hrest⟩
  · rw [endsE_callE.1 hclock]
    exact .clockRaises e
  obtain rfl := endsE_callE.1 hclock
  by_cases hlate : deadline < now
  · rw [if_pos hlate] at hrest
    obtain ⟨rfl, rfl⟩ := endsE_pure.1 hrest
    exact .late now hlate
  rw [if_neg hlate] at hrest
  rcases endsE_bind.1 hrest with ⟨e, rfl, hread⟩ | ⟨o, h₃, h₄, rfl, hread, hgo⟩
  · obtain ⟨o, ho, -⟩ := endsE_outcomeOf hread
    cases ho
  obtain ⟨o', ho, hread⟩ := endsE_outcomeOf hread
  cases ho
  obtain rfl := endsE_callE.1 hread
  rcases o with e | _ | ⟨e, batch⟩
  · obtain ⟨rfl, rfl⟩ := endsE_pure.1 hgo
    exact .readRaises now e
  · rcases endsE_bind.1 hgo with ⟨e, rfl, hsleep⟩ | ⟨_, h₅, h₆, rfl, hsleep, hloop⟩
    · obtain rfl := endsE_callE.1 hsleep
      exact .sleepRaises now e
    · obtain rfl := endsE_callE.1 hsleep
      exact .waits now hloop
  · exact .feeds now e batch hgo

/-- The clock reads no result. -/
@[simp] theorem readOf_clock (a : Ans .clock) : readOf (⟨.clock, a⟩ :: h) = readOf h := rfl

/-- Neither does a pause. -/
@[simp] theorem readOf_sleep (a : Ans .sleep) : readOf (⟨.sleep, a⟩ :: h) = readOf h := rfl

/-- A read gives its batch. -/
@[simp] theorem readOf_read (rid : Uuid) (lastId : Nat) (batch : List (Nat × TtsResult)) :
    readOf (⟨.xreadResults rid lastId, .ok batch⟩ :: h) = batch.map Prod.snd ++ readOf h := rfl

/-- It counts as one. -/
theorem reads_read (rid : Uuid) (lastId : Nat) (a : Ans (.xreadResults rid lastId)) :
    reads (⟨.xreadResults rid lastId, a⟩ :: h) = reads h + 1 :=
  List.countP_cons_of_pos rfl

/-- A pass uses up one read. -/
theorem reads_pass {deadline fuel now : Nat} {rid : Uuid} {lastId : Nat}
    {a : Ans (.xreadResults rid lastId)} {e : Exn} (hc : Cut deadline fuel h e) :
    Cut deadline (fuel + 1) (⟨.clock, .ok now⟩ :: ⟨.xreadResults rid lastId, a⟩ :: h) e :=
  (hc.cons fun hn => (reads_read rid lastId a).trans (congrArg (· + 1) hn)).cons fun hn => hn

/-- A pass without an entry. -/
theorem LoopEnds.wait {deadline fuel now : Nat} {rid : Uuid} {lastId : Nat}
    {r : Except Exn (σ × Stop)} (hl : LoopEnds take s before out acc deadline fuel h r) :
    LoopEnds take s before out acc deadline (fuel + 1)
      (⟨.clock, .ok now⟩ :: ⟨.xreadResults rid lastId, .ok []⟩ :: ⟨.sleep, .ok ()⟩ :: h) r := by
  cases r with
  | error e =>
      obtain ⟨eff, he⟩ := hl
      exact ⟨eff, by simp [he]⟩
  | ok a =>
      obtain ⟨ys, rfl, hacc, hread, hend⟩ := hl
      refine ⟨_, rfl, hacc, hread, hend.imp_right ?_⟩
      rintro ⟨hnot, e, hstop, hcut⟩
      exact ⟨hnot, e, hstop, reads_pass (hcut.cons fun hn => hn)⟩

/-- A pass with entries, none of which ended the stream. -/
theorem LoopEnds.feed {deadline fuel now : Nat} {rid : Uuid} {lastId : Nat}
    {r : Except Exn (σ × Stop)} {batch : List (Nat × TtsResult)}
    (hnot : ¬Ended (yieldsFrom stale before out (batch.map Prod.snd)))
    (hl : LoopEnds take s (before ++ batch.map Prod.snd)
      (out ++ yieldsFrom stale before out (batch.map Prod.snd))
      (consumed take acc (yieldsFrom stale before out (batch.map Prod.snd))) deadline fuel h r) :
    LoopEnds take s before out acc deadline (fuel + 1)
      (⟨.clock, .ok now⟩ :: ⟨.xreadResults rid lastId, .ok batch⟩ :: h) r := by
  cases r with
  | error e =>
      obtain ⟨eff, he⟩ := hl
      exact ⟨eff, by simp [he]⟩
  | ok a =>
      obtain ⟨ys, rfl, hacc, hread, hend⟩ := hl
      refine ⟨_, rfl, ?_, ?_, ?_⟩
      · rw [hacc, readOf_clock, readOf_read, yieldsFrom_append, if_neg hnot]
        exact (List.foldl_append ..).symm
      · rwa [readOf_clock, readOf_read, ← List.append_assoc]
      · rw [readOf_clock, readOf_read, yieldsFrom_append, if_neg hnot, ended_append]
        refine hend.imp (And.imp_left .inr) ?_
        rintro ⟨hn, e, hstop, hcut⟩
        exact ⟨fun h => h.elim hnot hn, e, hstop, reads_pass hcut⟩

/-- **The loop**, by induction on the passes it may make. -/
theorem readLoop_yields (htake : Patient take) {rid : Uuid} {deadline : Nat} (fuel : Nat)
    {r : Except Exn (σ × Stop)} (ht : st.Tracks before out) (hc : st.At s before rest)
    (hrun : EndsE (readLoop (fun acc r => pure (take acc r)) rid deadline fuel st acc) h r)
    (hs : Served s h) : LoopEnds take s before out acc deadline fuel h r := by
  induction fuel generalizing st before out rest acc h with
  | zero =>
      obtain ⟨rfl, rfl⟩ := endsE_pure.1 hrun
      exact ⟨[], rfl, rfl, by simp [readOf, hc.split], .inr ⟨not_ended_nil, _, rfl, .inr (.inr rfl)⟩⟩
  | succ fuel ih =>
      cases readLoop_pass hrun with
      | clockRaises e => exact ⟨_, List.mem_cons_self⟩
      | late now hlate =>
          exact ⟨[], rfl, rfl, by simp [readOf, hc.split], .inr ⟨not_ended_nil, _, rfl,
            .inr (.inl ⟨now, hlate, List.mem_cons_self⟩)⟩⟩
      | readRaises now e =>
          exact ⟨[], rfl, rfl, by simp [readOf, hc.split], .inr ⟨not_ended_nil, _, rfl,
            .inl ⟨_, List.mem_cons_of_mem _ List.mem_cons_self⟩⟩⟩
      | sleepRaises now e =>
          exact ⟨.sleep, List.mem_cons_of_mem _ (List.mem_cons_of_mem _ List.mem_cons_self)⟩
      | @waits now h r hrest =>
          exact (ih ht hc hrest hs.tail.tail.tail).wait
      | @feeds now e batch h r hrest =>
          have hnext : e :: batch <+: rest := by
            rw [← hc.behind]
            exact hs rid _ _ (List.mem_cons_of_mem _ List.mem_cons_self)
          obtain ⟨rest', rfl⟩ := hnext
          obtain ⟨st', stop, ys, hys, hfeed, hend⟩ :=
            feedAll_yields acc htake (e :: batch) ht hc
          rw [hfeed] at hrest
          rcases hend with ⟨hended, hstop⟩ | ⟨hnot, rfl, ht', hc'⟩
          · have hleft : EndsE (pure (consumed take acc ys, stop.getD .left) : Py (σ × Stop)) h r := by
              rcases hstop with rfl | rfl <;> exact hrest
            obtain ⟨rfl, rfl⟩ := endsE_pure.1 hleft
            refine ⟨ys, ?_, rfl, ?_, .inl ⟨hended, ?_⟩⟩
            · rw [hys, readOf_clock, readOf_read]
              exact congrArg _ (List.append_nil _).symm
            · rw [hc.split]
              simp [readOf]
            · rcases hstop with rfl | rfl <;> simp
          · subst hys
            exact (ih ht' hc' hrest hs.tail.tail).feed hnot

/-- Nothing kept the reader from a terminal: every await answered, the clock
stayed within the deadline, and it was not still running. -/
structure Undisturbed (timeoutMs fuel : Nat) (h : AwaitHistory) : Prop where
  answered : ∀ eff e, ⟨eff, .error e⟩ ∉ h
  inTime : ∀ start h' now, h = ⟨.clock, .ok start⟩ :: h' → ⟨.clock, .ok now⟩ ∈ h' →
    now ≤ start + timeoutMs
  running : reads h < fuel

/-- The `DEL`, and what the generator does then. -/
theorem cleanup_bind {α : Type} {rid : Uuid} {raising : Option Exn} {f : Option Exn → Py α}
    {r : Except Exn α} (hrun : EndsE (cleanup rid raising >>= f) h r) :
    ∃ a h' raised, h = ⟨.delResults rid, a⟩ :: h' ∧ EndsE (f raised) h' r ∧
      (raised = raising ∨ ∃ e, a = .error e ∧ raised = some e) := by
  rcases endsE_bind.1 hrun with ⟨e, rfl, hclean⟩ | ⟨raised, h₁, h₂, rfl, hclean, hf⟩
  · rcases endsE_bind.1 hclean with ⟨e, -, hdel⟩ | ⟨o, h₁, h₂, rfl, hdel, hret⟩
    · obtain ⟨o, ho, -⟩ := endsE_outcomeOf hdel
      cases ho
    · cases o <;> cases (endsE_pure.1 hret).2
  rcases endsE_bind.1 hclean with ⟨e, he, -⟩ | ⟨o, h₃, h₄, rfl, hdel, hret⟩
  · cases he
  obtain ⟨o', ho, hdel⟩ := endsE_outcomeOf hdel
  cases ho
  obtain rfl := endsE_callE.1 hdel
  cases o with
  | error e =>
      obtain ⟨rfl, hr⟩ := endsE_pure.1 hret
      cases hr
      exact ⟨_, h₂, _, rfl, hf, .inr ⟨e, rfl, rfl⟩⟩
  | ok a =>
      obtain ⟨rfl, hr⟩ := endsE_pure.1 hret
      cases hr
      exact ⟨_, h₂, _, rfl, hf, .inl rfl⟩

/-- What is read is read part by part. -/
@[simp] theorem readOf_append (h h' : AwaitHistory) : readOf (h ++ h') = readOf h ++ readOf h' :=
  List.flatMap_append

/-- A loop that was cut short was disturbed. -/
theorem Cut.disturbed {timeoutMs fuel start : Nat} {h' : AwaitHistory} {e : Exn}
    (hc : Cut (start + timeoutMs) fuel h e) :
    ¬Undisturbed timeoutMs fuel (⟨.clock, .ok start⟩ :: (h ++ h')) := by
  intro hu
  rcases hc with ⟨eff, he⟩ | ⟨now, hnow, hmem⟩ | hn
  · exact hu.answered eff e (List.mem_cons_of_mem _ (List.mem_append_left _ he))
  · exact absurd (hu.inTime start _ now rfl (List.mem_append_left _ hmem)) hnow.not_ge
  · have hmore : reads h ≤ reads (⟨.clock, .ok start⟩ :: (h ++ h')) :=
      ((List.sublist_append_left h h').cons _).countP_le
    exact absurd hu.running (hn ▸ hmore).not_gt

/-- The generator's finaliser, for a loop that ended at a terminal or was cut
short. -/
theorem consume_finishes {onChunk : σ → TtsResult → Py (σ × Bool)} {rid : Uuid}
    {timeoutMs fuel : Nat} {r : Except Exn (σ × Option Exn)}
    (hrun : EndsE (consumeResultStream onChunk rid timeoutMs fuel acc) h r) :
    (∃ e, r = .error e ∧ h = [⟨.clock, .error e⟩]) ∨
      ∃ start h₁ h₂ o, h = ⟨.clock, .ok start⟩ :: (h₁ ++ h₂) ∧ readOf h₂ = [] ∧
        EndsE (readLoop onChunk rid (start + timeoutMs) fuel {} acc) h₁ o ∧
        ((∃ e, o = .error e ∧ r = .error e) ∨
          (∃ acc' e, o = .ok (acc', .raised e) ∧ ∃ e', r = .ok (acc', some e')) ∨
          ∃ acc' stop, o = .ok (acc', stop) ∧ (stop = .terminal ∨ stop = .left) ∧
            ∃ raised, r = .ok (acc', raised) ∧
              ∀ e, raised = some e → ⟨.delResults rid, .error e⟩ ∈ h₂) := by
  rcases endsE_bind.1 hrun with ⟨e, rfl, hclock⟩ | ⟨start, h₀, hrest, rfl, hclock, hgo⟩
  · exact .inl ⟨e, rfl, endsE_callE.1 hclock⟩
  obtain rfl := endsE_callE.1 hclock
  rcases endsE_bind.1 hgo with ⟨e, rfl, hloop⟩ | ⟨o, h₁, h₂, rfl, hloop, hend⟩
  · obtain ⟨o, ho, -⟩ := endsE_outcomeOf hloop
    cases ho
  obtain ⟨o', ho, hloop⟩ := endsE_outcomeOf hloop
  cases ho
  refine .inr ⟨start, h₁, h₂, o, rfl, ?_⟩
  rcases o with e | ⟨acc', stop⟩
  · obtain ⟨a, h₃, raised, rfl, hret, -⟩ := cleanup_bind hend
    obtain ⟨rfl, rfl⟩ := endsE_throw.1 hret
    exact ⟨rfl, hloop, .inl ⟨e, rfl, rfl⟩⟩
  cases stop with
  | terminal =>
      obtain ⟨a, h₃, raised, rfl, hret, hraised⟩ := cleanup_bind hend
      obtain ⟨rfl, rfl⟩ := endsE_pure.1 hret
      refine ⟨rfl, hloop, .inr (.inr ⟨acc', _, rfl, .inl rfl, raised, rfl, ?_⟩)⟩
      rintro e rfl
      obtain ⟨e', rfl, he⟩ := hraised.resolve_left (by simp)
      cases he
      exact List.mem_cons_self
  | left =>
      obtain ⟨a, h₃, raised, rfl, hret, -⟩ := cleanup_bind hend
      obtain ⟨rfl, rfl⟩ := endsE_pure.1 hret
      exact ⟨rfl, hloop, .inr (.inr ⟨acc', _, rfl, .inr rfl, none, rfl, by simp⟩)⟩
  | raised e =>
      have hcut : readOf h₂ = [] ∧ ∃ e', r = .ok (acc', some e') := by
        split at hend
        · next heq =>
            cases heq
            obtain ⟨rfl, rfl⟩ := endsE_pure.1 hend
            exact ⟨rfl, _, rfl⟩
        · next heq =>
            cases heq
            obtain ⟨a, h₃, raised, rfl, hret, hraised⟩ := cleanup_bind hend
            obtain ⟨rfl, rfl⟩ := endsE_pure.1 hret
            rcases hraised with rfl | ⟨e', -, rfl⟩ <;> exact ⟨rfl, _, rfl⟩
        all_goals cases ‹_ = _›
      exact ⟨hcut.1, hloop, .inr (.inl ⟨acc', e, rfl, hcut.2⟩)⟩

/-- **The reader**: its consumer is given what the filter keeps of what was
read, and a terminal ends it. -/
theorem consumeResultStream_yields (htake : Patient take) {rid : Uuid} {timeoutMs fuel : Nat}
    {r : Except Exn (σ × Option Exn)}
    (hrun : EndsE (consumeResultStream (fun acc r => pure (take acc r)) rid timeoutMs fuel acc) h r)
    (hs : Served s h) :
    (∃ e eff, r = .error e ∧ ⟨eff, .error e⟩ ∈ h) ∨
      ∃ raised, r = .ok (consumed take acc (yieldsOf stale (readOf h)), raised) ∧
        readOf h <+: s.results ∧
        ((Ended (yieldsOf stale (readOf h)) ∧
            ∀ e, raised = some e → ⟨.delResults rid, .error e⟩ ∈ h) ∨
          (¬Ended (yieldsOf stale (readOf h)) ∧ raised ≠ none ∧
            ¬Undisturbed timeoutMs fuel h)) := by
  obtain ⟨e, rfl, rfl⟩ | ⟨start, h₁, h₂, o, rfl, hread, hloop, hend⟩ := consume_finishes hrun
  · exact .inl ⟨e, _, rfl, List.mem_cons_self⟩
  have hserved : Served s h₁ := fun rid lastId batch hb =>
    hs rid lastId batch (List.mem_cons_of_mem _ (List.mem_append_left _ hb))
  have hyields := readLoop_yields htake fuel ReadState.tracks_start (ReadState.at_start s) hloop
    hserved
  have hsame : readOf (⟨.clock, .ok start⟩ :: (h₁ ++ h₂)) = readOf h₁ := by simp [hread]
  rw [hsame]
  rcases hend with ⟨e, rfl, rfl⟩ | ⟨acc', e, rfl, e', rfl⟩ | ⟨acc', stop, rfl, hstop, raised, rfl, hdel⟩
  · obtain ⟨eff, he⟩ := hyields
    exact .inl ⟨e, eff, rfl, List.mem_cons_of_mem _ (List.mem_append_left _ he)⟩
  · obtain ⟨ys, rfl, rfl, hpre, ⟨-, hstop⟩ | ⟨hnot, e, hstop, hcut⟩⟩ := hyields
    · simp at hstop
    · exact .inr ⟨_, rfl, hpre, .inr ⟨hnot, by simp, hcut.disturbed⟩⟩
  · obtain ⟨ys, rfl, rfl, hpre, ⟨hended, -⟩ | ⟨hnot, e, rfl, -⟩⟩ := hyields
    · refine .inr ⟨raised, rfl, hpre, .inl ⟨hended, fun e he => ?_⟩⟩
      exact List.mem_cons_of_mem _ (List.mem_append_right _ (hdel e he))
    · simp at hstop

end runs

/-! ## the consumers -/

/-- A consumer that notes what it is given. -/
def noted (ys : List TtsResult) (r : TtsResult) : List TtsResult × Bool := (ys ++ [r], true)

/-- The consumer that takes notes never leaves early. -/
theorem patient_noted : Patient noted := by
  intro ys r h
  cases h

/-- It notes what it is given. -/
theorem consumed_noted (acc ys : List TtsResult) : consumed noted acc ys = acc ++ ys := by
  induction ys generalizing acc with
  | nil => exact (List.append_nil acc).symm
  | cons y ys ih => exact (ih (acc ++ [y])).trans (List.append_assoc ..)

/-- The collector never leaves early either. -/
theorem patient_take : Patient Collected.take := by
  intro c r h
  unfold Collected.take at h
  dsimp only at h
  unfold TtsResult.isTerminal
  split at h
  · next he => rw [he, Bool.true_or]
  · split at h
    · next hf => rw [hf, Bool.or_true]
    · cases h

/-- The chunks of one attempt. -/
def ofAttempt (n : Int) (chunks : List TtsResult) : List TtsResult :=
  chunks.filter fun r => r.attempt = n

/-- The error message of a terminal; an empty one is none. -/
def TtsResult.message (r : TtsResult) : Option String := if r.hasError then r.error else none

section collecting

variable {before out xs ys chunks : List TtsResult} {r y : TtsResult} {c : Collected}

/-- One more result belongs to its own attempt. -/
theorem ofAttempt_snoc (n : Int) : ofAttempt n (chunks ++ [r]) =
    ofAttempt n chunks ++ if r.attempt = n then [r] else [] := by
  by_cases h : r.attempt = n <;> simp [ofAttempt, h]

/-- No result belongs to an attempt that has not begun. -/
theorem ofAttempt_newer {n : Int} (h : ∀ y ∈ chunks, y.attempt < n) : ofAttempt n chunks = [] := by
  simpa [ofAttempt] using fun y hy => (h y hy).ne

/-- What is yielded is not stale where it is yielded, all the more so before. -/
theorem stale_of_mem_yieldsFrom (h : y ∈ yieldsFrom stale before out xs) :
    stale before y = false := by
  induction xs generalizing before out with
  | nil => cases h
  | cons r rest ih =>
      have hlater : ∀ out, y ∈ yieldsFrom stale (before ++ [r]) out rest →
          stale before y = false := by
        intro out hy
        have hst := ih hy
        rw [stale_snoc, Bool.or_eq_false_iff] at hst
        exact hst.1
      have hhead : ¬(stale before r || repeated out r) = true → stale before r = false := by
        intro hk
        rw [Bool.not_eq_true, Bool.or_eq_false_iff] at hk
        exact hk.1
      unfold yieldsFrom at h
      split at h
      · exact hlater _ h
      · next hkeep =>
          split at h
          · exact List.mem_singleton.1 h ▸ hhead hkeep
          · rcases List.mem_cons.1 h with rfl | h
            · exact hhead hkeep
            · exact hlater _ h

/-- The attempts that are yielded only advance. -/
theorem yieldsFrom_advances :
    (yieldsFrom stale before out xs).Pairwise fun a b => a.attempt ≤ b.attempt := by
  induction xs generalizing before out with
  | nil => exact .nil
  | cons r rest ih =>
      unfold yieldsFrom
      split
      · exact ih
      · split
        · exact List.pairwise_singleton _ _
        · refine List.pairwise_cons.2 ⟨fun y hy => ?_, ih⟩
          have hst := stale_of_mem_yieldsFrom hy
          rw [stale_snoc, Bool.or_eq_false_iff, decide_eq_false_iff_not] at hst
          exact not_lt.1 hst.2

/-- The newest attempt of some chunks; `-1` of none. -/
def newest (chunks : List TtsResult) : Int := chunks.foldl (fun n r => max n r.attempt) (-1)

/-- One more result may be of a newer attempt. -/
@[simp] theorem newest_snoc : newest (chunks ++ [r]) = max (newest chunks) r.attempt :=
  List.foldl_append ..

/-- The newest attempt is bounded by all of them. -/
theorem newest_le {n : Int} (hn : -1 ≤ n) (h : ∀ y ∈ chunks, y.attempt ≤ n) : newest chunks ≤ n := by
  induction chunks using List.reverseRecOn with
  | nil => exact hn
  | append_singleton ys y ih =>
      rw [newest_snoc]
      exact max_le (ih fun z hz => h z (List.mem_append_left _ hz))
        (h y (List.mem_append_right _ List.mem_cons_self))

/-- It bounds all of them. -/
theorem le_newest (h : y ∈ chunks) : y.attempt ≤ newest chunks := by
  induction chunks using List.reverseRecOn with
  | nil => cases h
  | append_singleton ys z ih =>
      rw [newest_snoc]
      rcases List.mem_append.1 h with h | h
      · exact (ih h).trans (le_max_left _ _)
      · exact List.mem_singleton.1 h ▸ le_max_right _ _

/-- The buffer holds the audio of attempt `n` and no error. -/
structure Collected.Holds (c : Collected) (n : Int) (chunks : List TtsResult) : Prop where
  attempt : c.currentAttempt = n
  pcm : c.pcm = (ofAttempt n chunks).flatMap TtsResult.pcmBytes
  sentences : c.sentences = (ofAttempt n chunks).length
  noError : c.errorMsg = none

/-- A newer attempt empties the buffer, before anything else. -/
theorem Collected.Holds.advance (h : c.Holds (newest chunks) chunks)
    (hlast : ∀ y ∈ chunks, y.attempt ≤ r.attempt) (hr : -1 ≤ r.attempt) :
    ∃ c' : Collected, c'.Holds r.attempt chunks ∧ c.take r =
      if r.hasError then ({ c' with errorMsg := r.error }, false)
      else if r.final then (c', false)
      else ({ c' with pcm := c'.pcm ++ r.pcmBytes, sentences := c'.sentences + 1 }, true) := by
  by_cases hnew : c.currentAttempt < r.attempt
  · have hnone : ofAttempt r.attempt chunks = [] := by
      refine ofAttempt_newer fun y hy => ?_
      exact (le_newest hy).trans_lt (h.attempt ▸ hnew)
    refine ⟨{ c with currentAttempt := r.attempt, pcm := [], sentences := 0 }, ?_, ?_⟩
    · exact ⟨rfl, by simp [hnone], by simp [hnone], h.noError⟩
    · rw [take, if_pos hnew]
  · have hsame : newest chunks = r.attempt :=
      le_antisymm (newest_le hr hlast) (h.attempt ▸ not_lt.1 hnew)
    refine ⟨c, hsame ▸ h, ?_⟩
    rw [take, if_neg hnew]

/-- **The buffer**, by induction on the chunks it was given. -/
theorem collected_holds (hadv : chunks.Pairwise fun a b => a.attempt ≤ b.attempt)
    (hepoch : ∀ y ∈ chunks, -1 ≤ y.attempt) (hchunks : ¬Ended chunks) :
    (consumed Collected.take {} chunks).Holds (newest chunks) chunks := by
  induction chunks using List.reverseRecOn with
  | nil => exact ⟨rfl, rfl, rfl, rfl⟩
  | append_singleton chunks r ih =>
      have hlast : ∀ y ∈ chunks, y.attempt ≤ r.attempt := fun y hy =>
        (List.pairwise_append.1 hadv).2.2 y hy r List.mem_cons_self
      have hr : -1 ≤ r.attempt := hepoch r (List.mem_append_right _ List.mem_cons_self)
      rw [ended_append, not_or] at hchunks
      have hmore : r.hasError = false ∧ r.final = false := by
        simpa [Ended, TtsResult.isTerminal] using hchunks.2
      obtain ⟨c', hc', htake⟩ := (ih (List.pairwise_append.1 hadv).1
        (fun y hy => hepoch y (List.mem_append_left _ hy)) hchunks.1).advance hlast hr
      have hnewest : newest (chunks ++ [r]) = r.attempt := by
        rw [newest_snoc, max_eq_right (newest_le hr hlast)]
      have hgiven : consumed Collected.take {} (chunks ++ [r]) =
          ((consumed Collected.take {} chunks).take r).1 := List.foldl_append ..
      rw [hgiven, htake, hmore.1, hmore.2, hnewest]
      refine ⟨hc'.attempt, ?_, ?_, hc'.noError⟩
      · simp [ofAttempt_snoc, hc'.pcm]
      · simp [ofAttempt_snoc, hc'.sentences]

/-- What the buffer is returned with, at the terminal. -/
theorem collected_last {last : TtsResult}
    (hys : yieldsFrom stale before out xs = chunks ++ [last]) (hchunks : ¬Ended chunks)
    (hlast : last.isTerminal = true) :
    ∃ c, consumed Collected.take {} (chunks ++ [last]) = c ∧
      c.pcm = (ofAttempt last.attempt chunks).flatMap TtsResult.pcmBytes ∧
      c.sentences = (ofAttempt last.attempt chunks).length ∧ c.errorMsg = last.message := by
  have hadv := hys ▸ @yieldsFrom_advances before out xs
  have hepoch : ∀ y ∈ chunks ++ [last], -1 ≤ y.attempt := by
    intro y hy
    have hst := stale_of_mem_yieldsFrom (hys ▸ hy)
    rw [stale, Bool.or_eq_false_iff, decide_eq_false_iff_not, not_lt] at hst
    exact hst.1
  have hheld := collected_holds (List.pairwise_append.1 hadv).1
    (fun y hy => hepoch y (List.mem_append_left _ hy)) hchunks
  obtain ⟨c', hc', htake⟩ := hheld.advance
    (fun y hy => (List.pairwise_append.1 hadv).2.2 y hy last List.mem_cons_self)
    (hepoch last (List.mem_append_right _ List.mem_cons_self))
  have hgiven : consumed Collected.take {} (chunks ++ [last]) =
      ((consumed Collected.take {} chunks).take last).1 := List.foldl_append ..
  refine ⟨_, rfl, ?_⟩
  rw [hgiven, htake]
  unfold TtsResult.message
  split
  · exact ⟨hc'.pcm, hc'.sentences, rfl⟩
  · next herr =>
      rw [if_pos (by simpa [TtsResult.isTerminal, herr] using hlast)]
      exact ⟨hc'.pcm, hc'.sentences, hc'.noError⟩

end collecting

/-! ## the two functions -/

/-- `consume_result_stream`, and the chunks it yields. -/
def yielding (rid : Uuid) (timeoutMs fuel : Nat) : Py (List TtsResult × Option Exn) :=
  consumeResultStream (fun ys r => pure (noted ys r)) rid timeoutMs fuel []

section functions

variable {s : StreamEntries} {h : AwaitHistory} {rid : Uuid} {timeoutMs fuel : Nat}

/-- A run with a note-taking consumer: it failed, or yielded what the reader is to
yield of what it read. -/
theorem yielding_ends {r : Except Exn (List TtsResult × Option Exn)} (hs : Served s h)
    (hrun : EndsE (yielding rid timeoutMs fuel) h r) :
    (∃ e eff, r = .error e ∧ ⟨eff, .error e⟩ ∈ h) ∨
      ∃ raised, r = .ok (yieldsOf stale (readOf h), raised) ∧ readOf h <+: s.results ∧
        ((Ended (yieldsOf stale (readOf h)) ∧
            ∀ e, raised = some e → ⟨.delResults rid, .error e⟩ ∈ h) ∨
          (¬Ended (yieldsOf stale (readOf h)) ∧ raised ≠ none ∧
            ¬Undisturbed timeoutMs fuel h)) := by
  have hends := consumeResultStream_yields patient_noted hrun hs
  rwa [consumed_noted, List.nil_append] at hends

/-- What the collector returns comes from the yields at a terminal. -/
theorem collect_ends {r : Except Exn (Pcm × Nat × Option String)} (hs : Served s h)
    (hrun : EndsE (collectPcmUntilFinal rid timeoutMs fuel) h r) :
    ((∃ e, r = .error e) ∧ ¬Undisturbed timeoutMs fuel h) ∨
      ∃ chunks last, yieldsOf stale s.results = chunks ++ [last] ∧ ¬Ended chunks ∧
        last.isTerminal = true ∧
        r = .ok ((ofAttempt last.attempt chunks).flatMap TtsResult.pcmBytes,
          (ofAttempt last.attempt chunks).length, last.message) := by
  rcases endsE_bind.1 hrun with ⟨e, rfl, hcon⟩ | ⟨⟨c, raised⟩, h₁, h₂, rfl, hcon, hret⟩
  · obtain ⟨e', eff, -, he⟩ | ⟨raised, hr, -⟩ := consumeResultStream_yields patient_take hcon hs
    · exact .inl ⟨⟨e, rfl⟩, fun hu => hu.answered eff e' he⟩
    · cases hr
  have hnil : h₂ = [] := by
    cases raised with
    | none => exact (endsE_pure.1 hret).1
    | some e => exact (endsE_throw.1 hret).1
  rw [hnil, List.append_nil] at hs ⊢
  obtain ⟨e', eff, hr, -⟩ | ⟨raised, hr, hread, hend⟩ :=
    consumeResultStream_yields patient_take hcon hs
  · cases hr
  cases hr
  rcases hend with ⟨hended, hdel⟩ | ⟨-, hraised, hdist⟩
  · cases raised with
    | some e =>
        obtain ⟨-, rfl⟩ := endsE_throw.1 hret
        exact .inl ⟨⟨e, rfl⟩, fun hu => hu.answered _ e (hdel e rfl)⟩
    | none =>
        obtain ⟨-, rfl⟩ := endsE_pure.1 hret
        obtain ⟨chunks, last, hys, hchunks, hlast⟩ := yieldsFrom_ended (readOf h₁) hended
        obtain ⟨c, hc, hpcm, hsentences, herr⟩ := collected_last hys hchunks hlast
        refine .inr ⟨chunks, last, ?_, hchunks, hlast, ?_⟩
        · rw [yieldsOf_beginning hread hended, ← hys]
          rfl
        · have hcon : consumed Collected.take {} (yieldsOf stale (readOf h₁)) = c := by
            rw [← hc, ← hys]
            rfl
          rw [hcon, hpcm, hsentences, herr]
  · cases raised with
    | none => exact absurd rfl hraised
    | some e =>
        obtain ⟨-, rfl⟩ := endsE_throw.1 hret
        exact .inl ⟨⟨e, rfl⟩, hdist⟩

end functions

/-- **The reader refines its filter**, however the entries are batched.  What
is yielded is what the filter keeps of what was read; a reader that ended
without an exception has yielded what the filter keeps of the whole stream,
and the collector returned the audio of its terminal's attempt.  Only a
failing await, the deadline or the fuel keep them from it. -/
theorem result_stream_reader (s : StreamEntries) (rid : Uuid) (timeoutMs fuel : Nat)
    (h : AwaitHistory) (hs : Served s h) :
    (∀ ys raised, EndsE (yielding rid timeoutMs fuel) h (.ok (ys, raised)) →
      ys = yieldsOf stale (readOf h) ∧ readOf h <+: s.results ∧
      (raised = none → ys = yieldsOf stale s.results ∧ Ended ys) ∧
      (Ended ys → ∀ e, raised = some e → ⟨.delResults rid, .error e⟩ ∈ h)) ∧
    (∀ pcm n err, EndsE (collectPcmUntilFinal rid timeoutMs fuel) h (.ok (pcm, n, err)) →
      ∃ chunks last, yieldsOf stale s.results = chunks ++ [last] ∧ ¬Ended chunks ∧
        last.isTerminal = true ∧
        pcm = (ofAttempt last.attempt chunks).flatMap TtsResult.pcmBytes ∧
        n = (ofAttempt last.attempt chunks).length ∧ err = last.message) ∧
    (Undisturbed timeoutMs fuel h →
      (∀ r, EndsE (yielding rid timeoutMs fuel) h r → ∃ ys, r = .ok (ys, none)) ∧
      ∀ r, EndsE (collectPcmUntilFinal rid timeoutMs fuel) h r → ∃ out, r = .ok out) := by
  refine ⟨fun ys raised hrun => ?_, fun pcm n err hrun => ?_, fun hu => ⟨fun r hrun => ?_,
    fun r hrun => ?_⟩⟩
  · obtain ⟨e, eff, hr, -⟩ | ⟨raised, hr, hread, hend⟩ := yielding_ends hs hrun <;> cases hr
    refine ⟨rfl, hread, fun hnone => ?_, fun hended => ?_⟩
    · obtain ⟨hended, -⟩ := hend.resolve_right fun hd => hd.2.1 hnone
      exact ⟨(yieldsOf_beginning hread hended).symm, hended⟩
    · exact (hend.resolve_right fun hd => hd.1 hended).2
  · obtain ⟨⟨e, hr⟩, -⟩ | ⟨chunks, last, hys, hchunks, hlast, hr⟩ := collect_ends hs hrun <;>
      cases hr
    exact ⟨chunks, last, hys, hchunks, hlast, rfl, rfl, rfl⟩
  · obtain ⟨e, eff, -, he⟩ | ⟨raised, rfl, -, hend⟩ := yielding_ends hs hrun
    · exact absurd he (hu.answered eff e)
    · obtain ⟨-, hdel⟩ := hend.resolve_right fun hd => hd.2.2 hu
      cases raised with
      | none => exact ⟨_, rfl⟩
      | some e => exact absurd (hdel e rfl) (hu.answered _ e)
  · obtain ⟨-, hd⟩ | ⟨chunks, last, -, -, -, rfl⟩ := collect_ends hs hrun
    · exact absurd hu hd
    · exact ⟨_, rfl⟩

/-- A retry: attempt 1 publishes over what is left of attempt 0. -/
def retried : StreamEntries where
  list := [(1, { requestId := 7, seq := 0, pcmBytes := [1] }),
    (2, { requestId := 7, seq := 0, pcmBytes := [2], attempt := 1 }),
    (3, { requestId := 7, seq := 1, pcmBytes := [3] }),
    (5, { requestId := 7, seq := 0, pcmBytes := [2], attempt := 1 }),
    (8, { requestId := 7, seq := 1, pcmBytes := [], final := true, attempt := 1 })]
  positive := by simp
  sorted := by simp

/-- Its reader gets it in two batches. -/
def retriedRead : AwaitHistory :=
  [⟨.clock, .ok 0⟩, ⟨.clock, .ok 0⟩, ⟨.xreadResults 7 0, .ok (retried.list.take 2)⟩,
    ⟨.clock, .ok 5⟩, ⟨.xreadResults 7 2, .ok (retried.list.drop 2)⟩, ⟨.delResults 7, .ok ()⟩]

/-- The reads of the example are answered by the stream. -/
theorem retried_served : Served retried retriedRead := by
  rintro rid lastId batch hb
  simp only [retriedRead, List.mem_cons, Sigma.mk.injEq, reduceCtorEq, false_and, false_or,
    List.not_mem_nil, or_false, Eff.xreadResults.injEq] at hb
  obtain ⟨⟨rfl, rfl⟩, hb⟩ | ⟨⟨rfl, rfl⟩, hb⟩ := hb
  · cases eq_of_heq hb
    exact List.take_prefix 2 _
  · cases eq_of_heq hb
    exact List.prefix_refl _

/-- The collector's run on it. -/
theorem retried_collected :
    EndsE (collectPcmUntilFinal 7 30000 2) retriedRead (.ok ([2], 1, none)) :=
  ⟨_, _, rfl, _, _, rfl, _, _, rfl, _, _, rfl, _, _, rfl, _, _, rfl, rfl, rfl⟩

/-- The first attempt was given up: what is collected is the one chunk of the
second. -/
theorem result_stream_reader_retried :
    Served retried retriedRead ∧
      ∃ chunks last, yieldsOf stale retried.results = chunks ++ [last] ∧ ¬Ended chunks ∧
        last.isTerminal = true ∧
        [2] = (ofAttempt last.attempt chunks).flatMap TtsResult.pcmBytes ∧
        1 = (ofAttempt last.attempt chunks).length ∧ none = last.message :=
  ⟨retried_served, (result_stream_reader retried 7 30000 2 retriedRead retried_served).2.1 _ _ _
    retried_collected⟩

/-- A terminal of attempt `-2`. -/
def ancient : StreamEntries where
  list := [(1, { requestId := 7, seq := 0, pcmBytes := [], final := true, attempt := -2 })]
  positive := by simp
  sorted := by simp

/-- **No attempt is older than the epoch**: a first entry of attempt `-2` is
superseded by nothing and still dropped. -/
theorem ancient_dropped : ¬∀ (s : StreamEntries) (h : AwaitHistory) (rid : Uuid)
    (timeoutMs fuel : Nat) (ys : List TtsResult) (raised : Option Exn), Served s h →
    EndsE (yielding rid timeoutMs fuel) h (.ok (ys, raised)) →
    ys = yieldsOf superseded (readOf h) := by
  intro hclaim
  have hserved : Served ancient [⟨.clock, .ok 0⟩, ⟨.clock, .ok 0⟩,
      ⟨.xreadResults 7 0, .ok ancient.list⟩, ⟨.clock, .ok 30001⟩, ⟨.delResults 7, .ok ()⟩] := by
    intro rid lastId batch hb
    simp only [List.mem_cons, Sigma.mk.injEq, reduceCtorEq, false_and, false_or,
      List.not_mem_nil, or_false, Eff.xreadResults.injEq] at hb
    obtain ⟨⟨rfl, rfl⟩, hb⟩ := hb
    cases eq_of_heq hb
    exact List.prefix_refl _
  have hys := hclaim ancient _ 7 30000 2 [] (some .resultStreamTimeout) hserved
    ⟨_, _, rfl, _, _, rfl, _, _, rfl, _, _, rfl, _, _, rfl, rfl, rfl⟩
  cases hys

end NeuroVoice
