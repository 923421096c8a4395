import NeuroVoice.Segments

/-!
# NeuroVoice.Ceiling

How much text a connection can hold back, and how long a segment can get.

The inbound loop cuts at most once a message, whatever the message's length,
so `MAX_BUFFER_CHARS` bounds the buffer only as long as one cut leaves less
than that: `buffer_ceiling`.
-/

namespace NeuroVoice

/-! ## where a buffer is cut -/

/-- A sentence ends in front of position `n`: a terminal punctuation mark with
white space, or nothing, behind it. -/
def SentenceEnd (s : PyStr) (n : Nat) : Prop :=
  ∃ pre c rest, s = pre ++ c :: rest ∧ pre.length + 1 = n ∧ c ∈ py ".!?" ∧
    rest.head?.all isSpace = true

/-- … and none behind it. -/
def LastSentenceEnd (s : PyStr) (n : Nat) : Prop :=
  SentenceEnd s n ∧ ∀ m, SentenceEnd s m → m ≤ n

/-- Where a text without sentence ends is cut: at the last space among its
first 240 characters, or behind them when there is none. -/
def HardCut (s : PyStr) (n : Nat) : Prop :=
  (∃ pre rest, s.take maxBufferChars = pre ++ 0x20 :: rest ∧ 0x20 ∉ rest ∧ pre.length = n ∧ n ≠ 0) ∨
    (n = maxBufferChars ∧ 0x20 ∉ (s.take maxBufferChars).tail)

/-- Up to the sentence end there is enough to send. -/
def Enough (s : PyStr) (n : Nat) : Prop := minBufferChars ≤ (stripBy isSpace (s.take n)).length

/-- Where a buffer is cut that is not flushed as a whole. -/
def CutAt (s : PyStr) (n : Nat) : Prop :=
  (LastSentenceEnd s n ∧ Enough s n) ∨
    ((∀ m, LastSentenceEnd s m → ¬Enough s m) ∧ maxBufferChars ≤ s.length ∧ HardCut s n)

section cuts

variable {s : PyStr} {n : Nat} {c : Nat}

theorem sentenceEnd_pos (h : SentenceEnd s n) : 0 < n := by
  obtain ⟨pre, c, rest, -, rfl, -⟩ := h
  exact Nat.succ_pos _

theorem not_sentenceEnd_nil : ¬SentenceEnd [] n := by
  rintro ⟨pre, c, rest, h, -⟩
  simp at h

/-- Behind the first character, or right behind it. -/
theorem sentenceEnd_cons : SentenceEnd (c :: s) n ↔
    (n = 1 ∧ c ∈ py ".!?" ∧ s.head?.all isSpace = true) ∨ ∃ m, n = m + 1 ∧ SentenceEnd s m := by
  constructor
  · rintro ⟨pre, c', rest, h, rfl, hc, hrest⟩
    cases pre with
    | nil =>
        cases h
        exact .inl ⟨rfl, hc, hrest⟩
    | cons d pre =>
        cases h
        exact .inr ⟨pre.length + 1, rfl, pre, c', rest, rfl, rfl, hc, hrest⟩
  · rintro (⟨rfl, hc, hrest⟩ | ⟨m, rfl, pre, c', rest, rfl, rfl, hc, hrest⟩)
    · exact ⟨[], c, s, rfl, rfl, hc, hrest⟩
    · exact ⟨c :: pre, c', rest, rfl, rfl, hc, hrest⟩

/-- `lastBoundary` finds the last sentence end, if there is one. -/
theorem lastBoundary_spec (s : PyStr) :
    (lastBoundary s = 0 ∧ ∀ m, ¬SentenceEnd s m) ∨ LastSentenceEnd s (lastBoundary s) := by
  induction s with
  | nil => exact .inl ⟨rfl, fun m => not_sentenceEnd_nil⟩
  | cons c cs ih =>
      have hhead : ((py ".!?").contains c && cs.head?.all isSpace) = true ↔
          c ∈ py ".!?" ∧ cs.head?.all isSpace = true := by
        rw [Bool.and_eq_true, List.contains_iff_mem]
      rw [lastBoundary]
      rcases ih with ⟨hzero, hnone⟩ | ⟨hend, hlast⟩
      · rw [hzero]
        dsimp only
        split
        · next hc =>
            refine .inr ⟨sentenceEnd_cons.2 (.inl ⟨rfl, hhead.1 hc⟩), fun m hm => ?_⟩
            rcases sentenceEnd_cons.1 hm with ⟨rfl, -⟩ | ⟨k, -, hk⟩
            · exact le_rfl
            · exact absurd hk (hnone k)
        · next hc =>
            refine .inl ⟨rfl, fun m hm => ?_⟩
            rcases sentenceEnd_cons.1 hm with ⟨-, hhere⟩ | ⟨k, -, hk⟩
            · exact hc (hhead.2 hhere)
            · exact hnone k hk
      · obtain ⟨n, hn⟩ := Nat.exists_eq_add_of_lt (sentenceEnd_pos hend)
        rw [Nat.zero_add] at hn
        rw [hn] at hend hlast ⊢
        refine .inr ⟨sentenceEnd_cons.2 (.inr ⟨n + 1, rfl, hend⟩), fun m hm => ?_⟩
        rcases sentenceEnd_cons.1 hm with ⟨rfl, -⟩ | ⟨k, rfl, hk⟩
        · exact Nat.le_add_left 1 _
        · exact Nat.succ_le_succ (hlast k hk)

theorem lastSentenceEnd_unique (h : LastSentenceEnd s n) : lastBoundary s = n := by
  rcases lastBoundary_spec s with ⟨-, hnone⟩ | ⟨hend, hlast⟩
  · exact absurd h.1 (hnone n)
  · exact le_antisymm (h.2 _ hend) (hlast _ h.1)

/-- `cutOf` is the hard cut. -/
theorem hardCut_cutOf (s : PyStr) : HardCut s (cutOf s) := by
  unfold cutOf
  rcases lastSpace_spec (s.take maxBufferChars) with ⟨hnone, hs⟩ | ⟨pre, rest, heq, hrest, hsome⟩
  · rw [hnone]
    exact .inr ⟨rfl, fun h => hs (List.mem_of_mem_tail h)⟩
  · rw [hsome]
    cases pre with
    | nil => exact .inr ⟨rfl, by rw [heq]; exact hrest⟩
    | cons c pre => exact .inl ⟨c :: pre, rest, heq, hrest, rfl, by simp⟩

theorem nextSegment_false (s : PyStr) :
    nextSegment s false =
      if minBufferChars ≤ (splitAtLastBoundary s).1.length then splitAtLastBoundary s
      else if maxBufferChars ≤ s.length then
        (stripBy isSpace (s.take (cutOf s)), (s.drop (cutOf s)).dropWhile isSpace)
      else ([], s) := rfl

/-- **The flush logic**: a buffer that is not flushed as a whole is cut where
`CutAt` says, or kept. -/
theorem nextSegment_cut (s : PyStr) :
    (∃ n, CutAt s n ∧
      nextSegment s false = (stripBy isSpace (s.take n), (s.drop n).dropWhile isSpace)) ∨
    (s.length < maxBufferChars ∧ nextSegment s false = ([], s)) := by
  have hsplit : (splitAtLastBoundary s = ([], s) ∧ ∀ m, ¬LastSentenceEnd s m) ∨
      ∃ n, LastSentenceEnd s n ∧ splitAtLastBoundary s =
        (stripBy isSpace (s.take n), (s.drop n).dropWhile isSpace) := by
    rcases lastBoundary_spec s with ⟨hzero, hnone⟩ | hlast
    · refine .inl ⟨?_, fun m hm => hnone m hm.1⟩
      unfold splitAtLastBoundary
      rw [hzero]
      rfl
    · refine .inr ⟨lastBoundary s, hlast, ?_⟩
      unfold splitAtLastBoundary
      split
      · next hzero => exact absurd hzero (sentenceEnd_pos hlast.1).ne'
      · rfl
  have hhard : (∀ m, LastSentenceEnd s m → ¬Enough s m) →
      (splitAtLastBoundary s).1.length < minBufferChars →
      (∃ n, CutAt s n ∧
        nextSegment s false = (stripBy isSpace (s.take n), (s.drop n).dropWhile isSpace)) ∨
      (s.length < maxBufferChars ∧ nextSegment s false = ([], s)) := by
    intro hnot hshort
    rw [nextSegment_false, if_neg hshort.not_ge]
    by_cases hlong : maxBufferChars ≤ s.length
    · rw [if_pos hlong]
      exact .inl ⟨cutOf s, .inr ⟨hnot, hlong, hardCut_cutOf s⟩, rfl⟩
    · rw [if_neg hlong]
      exact .inr ⟨not_le.1 hlong, rfl⟩
  rcases hsplit with ⟨heq, hnone⟩ | ⟨n, hlast, heq⟩
  · exact hhard (fun m hm => absurd hm (hnone m)) (by rw [heq]; exact Nat.succ_pos _)
  · by_cases henough : Enough s n
    · refine .inl ⟨n, .inl ⟨hlast, henough⟩, ?_⟩
      rw [nextSegment_false, heq]
      exact if_pos henough
    · refine hhard (fun m hm => ?_) (by rw [heq]; exact not_le.1 henough)
      rwa [← lastSentenceEnd_unique hm, lastSentenceEnd_unique hlast]

end cuts

/-! ## the loop -/

/-- The gate of `_flush_segment`. -/
def TooLong (S : SocketSettings) (segment : PyStr) : Prop :=
  S.maxCharsPerRequest < segment.length

/-- The connections that await their next message, with what was performed so
far. -/
inductive Awaiting (S : SocketSettings) : CallHistory → Connection → Prop where
  | start : Awaiting S [] {}
  | message {h h' : CallHistory} {conn conn' : Connection} : Awaiting S h conn →
      EndsE (openReceiveOne S conn) h' (.ok (.proceed conn')) → Awaiting S (h ++ h') conn'

/-- A message whose text is looked at: its configuration is accepted, it does
not close, and the buffer does not overflow. -/
structure Examined (S : SocketSettings) (buf : PyStr) (msg : Dict) : Prop where
  accepted : Accepts S msg
  stays : ¬Closes msg
  fits : buf.length + (textOf msg).length ≤ 20000

/-- **The condition** on a message and the buffer it finds: unless it flushes,
one cut makes a segment that passes the gate and leaves less than 240
characters. -/
def Fitting (S : SocketSettings) (buf : PyStr) (msg : Dict) : Prop :=
  Examined S buf msg → flushOf msg = false → ∀ n, CutAt (buf ++ textOf msg) n →
    ¬TooLong S (stripBy isSpace ((buf ++ textOf msg).take n)) ∧
      (((buf ++ textOf msg).drop n).dropWhile isSpace).length < maxBufferChars

/-- The segments handed over, each with what was received last before it. -/
def handedBy : Option Received → CallHistory → List (Option Received × PyStr)
  | _, [] => []
  | _, ⟨.on .receive, .ok rcv⟩ :: h => handedBy (some rcv) h
  | last, ⟨.flush _ segment, _⟩ :: h => (last, segment) :: handedBy last h
  | last, ⟨.on _, _⟩ :: h => handedBy last h

section loop

variable {S : SocketSettings} {h h' : CallHistory} {conn : Connection} {last : Option Received}

variable (last) in
/-- Without a new message, the last one stays the last. -/
theorem handedBy_append (hrec : received h = []) :
    handedBy last (h ++ h') = (handed h).map (fun s => (last, s)) ++ handedBy last h' := by
  induction h with
  | nil => rfl
  | cons x h ih =>
      obtain ⟨e, a⟩ := x
      cases e with
      | flush st segment => exact congrArg ((last, segment) :: ·) (ih hrec)
      | on e =>
          cases e with
          | receive =>
              cases a with
              | error x => exact ih hrec
              | ok rcv => exact absurd hrec (List.cons_ne_nil _ _)
          | _ => exact ih hrec

/-- How an iteration ends. -/
inductive Iteration (S : SocketSettings) (conn : Connection) :
    CallHistory → Except Exn LoopStep → Prop where
  | unread (e) : Iteration S conn [⟨.on .receive, .error e⟩] (.error e)
  /-- The buffer is left alone, or given up. -/
  | aside (rcv) {rest r} : received rest = [] → handed rest = [] →
      (∀ conn', r = .ok (.proceed conn') ∨ r = .ok (.stop conn') →
        conn'.buffer = conn.buffer ∨ conn'.buffer = []) →
      Iteration S conn (⟨.on .receive, .ok rcv⟩ :: rest) r
  | text (msg) {rest r} : Examined S conn.buffer msg → received rest = [] →
      (∀ s ∈ handed rest, s = (nextSegment (conn.buffer ++ textOf msg) (flushOf msg)).1) →
      (∀ conn', r = .ok (.proceed conn') →
        conn'.buffer = (nextSegment (conn.buffer ++ textOf msg) (flushOf msg)).2) →
      (∀ conn', r ≠ .ok (.stop conn')) →
      Iteration S conn (⟨.on .receive, .ok (.object msg)⟩ :: rest) r

theorem sendError_silent {code : String} {r : Except Exn Unit}
    (hrun : EndsE (noCalls (io (sendError code))) h r) : received h = [] ∧ handed h = [] := by
  obtain ⟨a, rest, rfl, hrest⟩ := hrun
  have hnil : rest = [] := by
    cases a with
    | ok u => exact hrest.1
    | error x =>
        cases x with
        | foreign f => cases f <;> exact hrest.1
        | _ => exact hrest.1
  subst hnil
  exact ⟨rfl, rfl⟩

/-- An error frame, and what is returned then. -/
theorem sendError_then {α : Type} {a : α} {code : String} {r : Except Exn α}
    (hrun : EndsE (do noCalls (io (sendError code)); return a) h r) :
    received h = [] ∧ handed h = [] ∧ ∀ a', r = .ok a' → a' = a := by
  obtain ⟨e, rfl, hsend⟩ | ⟨_, h₁, h₂, rfl, hsend, hret⟩ := endsE_bind.1 hrun
  · obtain ⟨hrec, hhand⟩ := sendError_silent hsend
    exact ⟨hrec, hhand, fun a' hr => by cases hr⟩
  · obtain ⟨rfl, rfl⟩ := endsE_pure.1 hret
    obtain ⟨hrec, hhand⟩ := sendError_silent hsend
    rw [List.append_nil]
    exact ⟨hrec, hhand, fun a' hr => by cases hr; rfl⟩

/-- … for an iteration that goes on or ends then. -/
theorem sendError_iterates {rcv : Received} {code : String} {step : LoopStep}
    {r : Except Exn LoopStep} (hstep : ∀ conn', step = .proceed conn' ∨ step = .stop conn' →
      conn'.buffer = conn.buffer ∨ conn'.buffer = [])
    (hrun : EndsE (do noCalls (io (sendError code)); return step) h r) :
    Iteration S conn (⟨.on .receive, .ok rcv⟩ :: h) r := by
  obtain ⟨hrec, hhand, hret⟩ := sendError_then hrun
  refine .aside rcv hrec hhand fun conn' hr => hstep conn' ?_
  rcases hr with hr | hr
  · exact .inl (hret _ hr).symm
  · exact .inr (hret _ hr).symm

/-- At most the one segment is handed over. -/
theorem openFlush_handed {segment : PyStr} {r : Except Exn Connection}
    (hrun : EndsE (openFlush conn segment) h r) : ∀ s ∈ handed h, s = segment := by
  unfold openFlush at hrun
  split at hrun
  · obtain ⟨rfl, rfl⟩ := endsE_pure.1 hrun
    exact fun s hs => by cases hs
  · obtain ⟨e, rfl, hcall⟩ | ⟨state, h₁, h₂, rfl, hcall, hret⟩ := endsE_bind.1 hrun
    · obtain rfl := endsE_callE.1 hcall
      exact fun s hs => List.mem_singleton.1 hs
    · obtain rfl := endsE_callE.1 hcall
      obtain ⟨rfl, rfl⟩ := endsE_pure.1 hret
      exact fun s hs => List.mem_singleton.1 hs

theorem Accepts.of_run {msg : Dict} {st st' : WsState} {u : Unit}
    (h : (applyConfig S msg).run st = .ok (.ok u, st')) : Accepts S msg := by
  have hsame := blind_applyConfig S msg st {}
  unfold Accepts
  rw [h] at hsame
  generalize (applyConfig S msg).run {} = now at hsame ⊢
  rcases now with e | ⟨r, st'⟩ <;> cases hsame
  exact ⟨st', rfl⟩

theorem openTakeText_iterates {msg : Dict} {state : WsState} {r : Except Exn LoopStep}
    (hacc : Accepts S msg) (hopen : ¬Closes msg)
    (hrun : EndsE (do
      let conn ← openTakeText { conn with state } msg
      return .proceed conn) h r) :
    Iteration S conn (⟨.on .receive, .ok (.object msg)⟩ :: h) r := by
  by_cases hfit : conn.buffer.length + (textOf msg).length ≤ 20000
  · have htake : openTakeText { conn with state } msg =
        openFlush { conn with
          state, buffer := (nextSegment (conn.buffer ++ textOf msg) (flushOf msg)).2 }
          (nextSegment (conn.buffer ++ textOf msg) (flushOf msg)).1 := by
      rw [openTakeText, if_neg (Nat.not_lt.2 hfit)]
    rw [htake] at hrun
    obtain ⟨e, rfl, hflush⟩ | ⟨conn', h₁, h₂, rfl, hflush, hret⟩ := endsE_bind.1 hrun
    · obtain ⟨hrec, -, -⟩ := openFlush_ends hflush
      exact .text msg ⟨hacc, hopen, hfit⟩ hrec (openFlush_handed hflush) (fun conn' hr => by simp at hr)
        fun conn' hr => by simp at hr
    · obtain ⟨rfl, rfl⟩ := endsE_pure.1 hret
      obtain ⟨hrec, -, hbuf⟩ := openFlush_ends hflush
      rw [List.append_nil]
      refine .text msg ⟨hacc, hopen, hfit⟩ hrec (openFlush_handed hflush) (fun conn'' hr => ?_)
        fun conn'' hr => by simp at hr
      cases hr
      exact hbuf conn' rfl
  · have htake : openTakeText { conn with state } msg = (do
        noCalls (io (sendError "buffer_overflow"))
        return { state, buffer := [] }) := by
      rw [openTakeText, if_pos (not_le.1 hfit)]
    rw [htake] at hrun
    obtain ⟨e, rfl, hover⟩ | ⟨conn', h₁, h₂, rfl, hover, hret⟩ := endsE_bind.1 hrun
    · obtain ⟨hrec, hhand, -⟩ := sendError_then hover
      exact .aside _ hrec hhand fun conn' hr => by simp at hr
    · obtain ⟨rfl, rfl⟩ := endsE_pure.1 hret
      obtain ⟨hrec, hhand, hempty⟩ := sendError_then hover
      rw [List.append_nil]
      refine .aside _ hrec hhand fun conn'' hr => .inr ?_
      rcases hr with hr | hr <;> cases hr
      rw [hempty conn' rfl]

theorem openTakeMessage_iterates {msg : Dict} {r : Except Exn LoopStep}
    (hrun : EndsE (openTakeMessage S conn msg) h r) :
    Iteration S conn (⟨.on .receive, .ok (.object msg)⟩ :: h) r := by
  unfold openTakeMessage at hrun
  cases happ : (applyConfig S msg).run conn.state with
  | error e =>
      rw [happ] at hrun
      obtain ⟨rfl, rfl⟩ := endsE_throw.1 hrun
      exact .aside _ rfl rfl fun conn' hr => by simp at hr
  | ok done =>
      obtain ⟨code | u, state⟩ := done
      · rw [happ] at hrun
        refine sendError_iterates (fun conn' hc => .inl ?_) hrun
        rcases hc with hc | hc <;> cases hc
        rfl
      · rw [happ] at hrun
        dsimp only at hrun
        split at hrun
        · obtain ⟨rfl, rfl⟩ := endsE_pure.1 hrun
          refine .aside _ rfl rfl fun conn' hr => .inl ?_
          rcases hr with hr | hr <;> cases hr
          rfl
        · next hopen =>
            exact openTakeText_iterates (.of_run happ) (fun hc => hopen hc) hrun

theorem openReceiveOne_iterates {r : Except Exn LoopStep}
    (hrun : EndsE (openReceiveOne S conn) h r) : Iteration S conn h r := by
  obtain ⟨e, rfl, hrecv⟩ | ⟨rcv, h₁, rest, rfl, hrecv, hrest⟩ := endsE_bind.1 hrun
  · rw [endsE_callE.1 hrecv]
    exact .unread e
  obtain rfl := endsE_callE.1 hrecv
  have hkeeps : ∀ {step : LoopStep}, (step = .proceed conn ∨ step = .stop conn) → ∀ conn',
      step = .proceed conn' ∨ step = .stop conn' →
      conn'.buffer = conn.buffer ∨ conn'.buffer = [] := by
    rintro step (rfl | rfl) conn' hc <;> rcases hc with hc | hc <;> cases hc <;> exact .inl rfl
  cases rcv with
  | timeout => exact sendError_iterates (hkeeps (.inr rfl)) hrest
  | invalidJson => exact sendError_iterates (hkeeps (.inl rfl)) hrest
  | notObject => exact sendError_iterates (hkeeps (.inl rfl)) hrest
  | unloadable x =>
      obtain ⟨rfl, rfl⟩ := endsE_throw.1 hrest
      exact .aside _ rfl rfl fun conn' hr => by simp at hr
  | object msg => exact openTakeMessage_iterates hrest

/-- Under the condition, a message leaves less than 240 characters, and what it
does not flush passes the gate. -/
theorem nextSegment_fitting {buf : PyStr} {msg : Dict} (hmsg : Examined S buf msg)
    (hfit : Fitting S buf msg) :
    (nextSegment (buf ++ textOf msg) (flushOf msg)).2.length < maxBufferChars ∧
      (flushOf msg = false →
        ¬TooLong S (nextSegment (buf ++ textOf msg) (flushOf msg)).1) := by
  cases hflush : flushOf msg with
  | true => exact ⟨Nat.succ_pos _, fun h => by cases h⟩
  | false =>
      rcases nextSegment_cut (buf ++ textOf msg) with ⟨n, hn, heq⟩ | ⟨hshort, heq⟩
      · obtain ⟨hgate, hrest⟩ := hfit hmsg hflush n hn
        rw [heq]
        exact ⟨hrest, fun _ => hgate⟩
      · rw [heq]
        exact ⟨hshort, fun _ => Nat.not_lt_zero _⟩

/-- Every message of the history meets the condition where it is received. -/
def EachFits (S : SocketSettings) (h : CallHistory) : Prop :=
  ∀ h₁ msg conn, h₁ ++ [⟨.on .receive, .ok (.object msg)⟩] <+: h → Awaiting S h₁ conn →
    Fitting S conn.buffer msg

/-- **The buffer stays below its ceiling**: what one iteration preserves. -/
theorem Awaiting.short (hr : Awaiting S h conn) (hfit : EachFits S h) :
    conn.buffer.length < maxBufferChars := by
  induction hr with
  | start => exact Nat.succ_pos _
  | @message h h' conn conn' hr hrun ih =>
      have hbefore : conn.buffer.length < maxBufferChars :=
        ih fun h₁ msg c hpre => hfit h₁ msg c (hpre.trans (List.prefix_append _ _))
      cases openReceiveOne_iterates hrun with
      | aside rcv _ _ hbuf =>
          rcases hbuf conn' (.inl rfl) with heq | heq <;> rw [heq]
          · exact hbefore
          · exact Nat.succ_pos _
      | @text msg rest _ hmsg _ _ hbuf _ =>
          have hhere : Fitting S conn.buffer msg :=
            hfit h msg conn ⟨rest, List.append_assoc ..⟩ hr
          rw [hbuf conn' rfl]
          exact (nextSegment_fitting hmsg hhere).1

/-- A segment that passes the gate, or that a message with `flush` forced. -/
def Gated (S : SocketSettings) (p : Option Received × PyStr) : Prop :=
  ¬TooLong S p.2 ∨ ∃ msg, p.1 = some (.object msg) ∧ flushOf msg = true

/-- The segments of an iteration, and those behind it. -/
theorem Iteration.gated {r : Except Exn LoopStep} (hi : Iteration S conn h r)
    (hfit : ∀ msg, [⟨.on .receive, .ok (.object msg)⟩] <+: h → Fitting S conn.buffer msg)
    (hlater : ∀ last, ∀ p ∈ handedBy last h', Gated S p) :
    ∀ last, ∀ p ∈ handedBy last (h ++ h'), Gated S p := by
  intro last p hp
  cases hi with
  | unread e => exact hlater last p hp
  | @aside rcv rest r hrec hhand _ =>
      have happ : handedBy last (⟨.on .receive, .ok rcv⟩ :: rest ++ h') =
          handedBy (some rcv) h' := by
        refine (handedBy_append (some rcv) hrec).trans ?_
        rw [hhand]
        rfl
      rw [happ] at hp
      exact hlater _ p hp
  | @text msg rest r hmsg hrec hhand _ _ =>
      have happ : handedBy last (⟨.on .receive, .ok (.object msg)⟩ :: rest ++ h') =
          (handed rest).map (fun s => (some (.object msg), s)) ++ handedBy (some (.object msg)) h' :=
        handedBy_append _ hrec
      rw [happ] at hp
      rcases List.mem_append.1 hp with hp | hp
      · obtain ⟨s, hs, rfl⟩ := List.mem_map.1 hp
        cases hflush : flushOf msg with
        | true => exact .inr ⟨msg, rfl, hflush⟩
        | false =>
            rw [hhand s hs]
            exact .inl ((nextSegment_fitting hmsg (hfit msg ⟨rest, rfl⟩)).2 hflush)
      · exact hlater _ p hp

/-- An iteration that ends the loop leaves the buffer alone, or gives it
up. -/
theorem Iteration.stop {conn' : Connection} (hi : Iteration S conn h (.ok (.stop conn'))) :
    conn'.buffer = conn.buffer ∨ conn'.buffer = [] := by
  cases hi with
  | aside rcv _ _ hbuf => exact hbuf conn' (.inr rfl)
  | text msg _ _ _ _ hno => exact absurd rfl (hno conn')

/-- **The loop**, from any connection it has come to. -/
theorem openLoop_gated {n : Nat} {r : Except Exn Connection} {h₀ : CallHistory}
    (hr : Awaiting S h₀ conn) (hrun : EndsE (openLoop S n conn) h r) (hfit : EachFits S (h₀ ++ h)) :
    (∀ h', (∀ last, ∀ p ∈ handedBy last h', Gated S p) →
      ∀ last, ∀ p ∈ handedBy last (h ++ h'), Gated S p) ∧
    ∀ conn', r = .ok conn' → conn'.buffer.length < maxBufferChars := by
  induction n generalizing conn h h₀ with
  | zero =>
      obtain ⟨rfl, rfl⟩ := endsE_throw.1 hrun
      exact ⟨fun h' hh => hh, fun conn' hc => by cases hc⟩
  | succ n ih =>
      obtain ⟨e, rfl, hone⟩ | ⟨step, h₁, h₂, rfl, hone, hrest⟩ := endsE_bind.1 hrun
      · have hi := openReceiveOne_iterates hone
        refine ⟨fun h' hh => hi.gated (fun msg hpre => hfit h₀ msg conn ?_ hr) hh,
          fun conn' hc => by cases hc⟩
        exact (List.prefix_append_right_inj h₀).2 hpre
      · have hi := openReceiveOne_iterates hone
        have hhere : ∀ msg, [⟨.on .receive, .ok (.object msg)⟩] <+: h₁ →
            Fitting S conn.buffer msg := fun msg hpre =>
          hfit h₀ msg conn ((List.prefix_append_right_inj h₀).2
            (hpre.trans (List.prefix_append _ _))) hr
        cases step with
        | stop conn' =>
            obtain ⟨rfl, rfl⟩ := endsE_pure.1 hrest
            refine ⟨fun h' hh => ?_, fun conn'' hc => ?_⟩
            · rw [List.append_nil]
              exact hi.gated hhere hh
            · cases hc
              have hbelow := hr.short fun h₃ msg c hpre =>
                hfit h₃ msg c (hpre.trans (List.prefix_append _ _))
              rcases hi.stop with heq | heq <;> rw [heq]
              · exact hbelow
              · exact Nat.succ_pos _
        | proceed conn' =>
            have hr' : Awaiting S (h₀ ++ h₁) conn' := .message hr hone
            rw [← List.append_assoc] at hfit
            obtain ⟨hgated, hbuf⟩ := ih hr' hrest hfit
            refine ⟨fun h' hh => ?_, hbuf⟩
            rw [List.append_assoc]
            exact hi.gated hhere (hgated h' hh)

theorem length_stripBy_le (p : Nat → Bool) (s : PyStr) : (stripBy p s).length ≤ s.length := by
  unfold stripBy
  rw [List.length_reverse]
  refine (List.dropWhile_sublist _).length_le.trans ?_
  rw [List.length_reverse]
  exact (List.dropWhile_sublist _).length_le

/-- The drain, and the `done` frame. -/
theorem drain_gated (hmax : maxBufferChars ≤ S.maxCharsPerRequest)
    (hbuf : conn.buffer.length < maxBufferChars) {r : Except Exn Unit}
    (hrun : EndsE (do
      let _ ← openFlush conn (stripBy isSpace conn.buffer)
      noCalls sendDone) h r) : ∀ last, ∀ p ∈ handedBy last h, Gated S p := by
  have hsplit : received h = [] ∧ ∀ s ∈ handed h, s = stripBy isSpace conn.buffer := by
    obtain ⟨e, rfl, hflush⟩ | ⟨conn', h₁, h₂, rfl, hflush, hdone⟩ := endsE_bind.1 hrun
    · exact ⟨(openFlush_ends hflush).1, openFlush_handed hflush⟩
    · obtain ⟨hrec, hhand⟩ := sendDone_ends hdone
      rw [received_append, handed_append, hrec, hhand, List.append_nil, List.append_nil]
      exact ⟨(openFlush_ends hflush).1, openFlush_handed hflush⟩
  intro last p hp
  have happ : handedBy last h = (handed h).map fun s => (last, s) := by
    have hnil : handedBy last (h ++ []) = _ := handedBy_append last hsplit.1
    simpa [handedBy] using hnil
  rw [happ] at hp
  obtain ⟨s, hs, rfl⟩ := List.mem_map.1 hp
  refine .inl (not_lt.2 ?_)
  rw [hsplit.2 s hs]
  exact ((length_stripBy_le _ _).trans hbuf.le).trans hmax

/-- **The ceiling**: in a conversation whose messages all meet the condition,
less than 240 characters are pending whenever the next message is awaited,
and what is handed over passes the gate unless a message with `flush` forced
it. -/
theorem buffer_ceiling (hmax : maxBufferChars ≤ S.maxCharsPerRequest) {n : Nat}
    {r : Except Exn Unit} (hrun : EndsE (openConversation S n) h r) (hfit : EachFits S h) :
    (∀ h₁ conn, h₁ <+: h → Awaiting S h₁ conn → conn.buffer.length < maxBufferChars) ∧
      ∀ p ∈ handedBy none h, Gated S p := by
  refine ⟨fun h₁ conn hpre hr => hr.short fun h₂ msg c hp => hfit h₂ msg c (hp.trans hpre), ?_⟩
  obtain ⟨e, rfl, hloop⟩ | ⟨conn, h₁, h₂, rfl, hloop, hrest⟩ := endsE_bind.1 hrun
  · have hgated := (openLoop_gated .start hloop (by simpa using hfit)).1 []
      (fun last p hp => by cases hp)
    rw [List.append_nil] at hgated
    exact hgated none
  · have hfit₁ : EachFits S ([] ++ h₁) := fun h₃ msg c hpre =>
      hfit h₃ msg c (hpre.trans (List.prefix_append _ _))
    obtain ⟨hgated, hbuf⟩ := openLoop_gated .start hloop hfit₁
    exact hgated h₂ (drain_gated hmax (hbuf conn rfl) hrest) none

end loop

/-! ## two conversations -/

/-- A sentence and the beginning of another, and a close. -/
def greeting : CallHistory :=
  [hears (saying "Hello there. How"), hands "Hello there.", hears (goodbye " "), hands "How", bids]

theorem awaiting_nil {S : SocketSettings} {conn : Connection} (hr : Awaiting S [] conn) :
    conn = {} := by
  generalize hh : ([] : CallHistory) = h at hr
  cases hr with
  | start => rfl
  | message hr hrun =>
      cases openReceiveOne_iterates hrun <;> simp at hh

theorem fitting_hello : Fitting bareSocket [] (saying "Hello there. How") := by
  rintro - - n (⟨hlast, -⟩ | ⟨-, hlong, -⟩)
  · obtain rfl := lastSentenceEnd_unique hlast
    exact ⟨by unfold TooLong; decide, by decide⟩
  · exact absurd hlong (by decide)

theorem greeting_fits : EachFits bareSocket greeting := by
  rintro h₁ msg conn ⟨t, ht⟩ hr
  rcases h₁ with _ | ⟨x, _ | ⟨y, _ | ⟨z, _ | ⟨u, _ | ⟨v, h₁⟩⟩⟩⟩⟩
  · obtain rfl := awaiting_nil hr
    cases ht
    exact fitting_hello
  · cases ht
  · cases ht
    exact fun hl => absurd rfl hl.stays
  · cases ht
  · cases ht
  · simp [greeting] at ht

/-- A greeting in two messages stays below the ceiling. -/
theorem buffer_ceiling_greeting :
    (∀ h₁ conn, h₁ <+: greeting → Awaiting bareSocket h₁ conn →
      conn.buffer.length < maxBufferChars) ∧
    ∀ p ∈ handedBy none greeting, Gated bareSocket p := by
  have hrun : EndsE (openConversation bareSocket 3) greeting (.ok ()) :=
    ⟨_, _, rfl, _, _, rfl, _, _, rfl, _, _, rfl, _, _, rfl, rfl, rfl⟩
  exact buffer_ceiling (by decide) hrun greeting_fits

section drawl

variable {text segment remainder : PyStr}

/-- A text arrives, and a part of it is handed over. -/
def halved (text segment : PyStr) : CallHistory :=
  [hears [(py "text", .str text)], ⟨.flush {} segment, .ok {}⟩]

theorem openTakeText_halved (hfit : text.length ≤ 20000)
    (hnext : nextSegment text false = (segment, remainder)) :
    openTakeText {} [(py "text", .str text)] = openFlush { buffer := remainder } segment := by
  have hsame : nextSegment ([] ++ textOf [(py "text", .str text)])
      (flushOf [(py "text", .str text)]) = (segment, remainder) := hnext
  have hshort : ¬20000 < ([] : PyStr).length + (textOf [(py "text", .str text)]).length := by
    change ¬20000 < 0 + text.length
    omega
  rw [openTakeText, if_neg hshort, hsame]

theorem openFlush_halved (hne : segment ≠ []) :
    EndsE (openFlush { buffer := remainder } segment) [⟨.flush {} segment, .ok {}⟩]
      (.ok { buffer := remainder }) := by
  rw [openFlush, if_neg (by simpa using hne)]
  exact ⟨_, _, rfl, rfl, rfl⟩

theorem openReceiveOne_halved (hfit : text.length ≤ 20000) (hne : segment ≠ [])
    (hnext : nextSegment text false = (segment, remainder)) :
    EndsE (openReceiveOne bareSocket {}) (halved text segment)
      (.ok (.proceed { buffer := remainder })) := by
  have htext : EndsE (openFlush { buffer := remainder } segment) [⟨.flush {} segment, .ok {}⟩]
      (.ok { buffer := remainder }) := openFlush_halved hne
  rw [← openTakeText_halved hfit hnext] at htext
  have htake : EndsE (do
      let conn ← openTakeText {} [(py "text", .str text)]
      pure (LoopStep.proceed conn)) [⟨.flush {} segment, .ok {}⟩]
      (.ok (.proceed { buffer := remainder })) :=
    endsE_bind.2 (.inr ⟨_, _, [], rfl, htext, rfl, rfl⟩)
  exact ⟨_, _, rfl, htake⟩

/-- A run that is cut off behind that message. -/
theorem openConversation_halved (hfit : text.length ≤ 20000) (hne : segment ≠ [])
    (hnext : nextSegment text false = (segment, remainder)) :
    EndsE (openConversation bareSocket 1) (halved text segment) (.error .stillRunning) := by
  have hone := openReceiveOne_halved hfit hne hnext
  have hloop : EndsE (openLoop bareSocket 1 {}) (halved text segment) (.error .stillRunning) :=
    endsE_bind.2 (.inr ⟨_, _, [], (List.append_nil _).symm, hone, rfl, rfl⟩)
  exact endsE_bind.2 (.inl ⟨_, rfl, hloop⟩)

end drawl

/-- 480 characters without a space. -/
def drawl : PyStr := List.replicate 480 0x61

theorem nextSegment_drawl :
    nextSegment drawl false = (List.replicate 240 0x61, List.replicate 240 0x61) := by
  decide +kernel

/-- **One cut a message is not enough**: 240 of the 480 characters stay in the
buffer. -/
theorem ceiling_exceeded : ¬∀ n h r, EndsE (openConversation bareSocket n) h r →
    ∀ h₁ conn, h₁ <+: h → Awaiting bareSocket h₁ conn → conn.buffer.length < maxBufferChars := by
  intro hclaim
  have hfit : drawl.length ≤ 20000 := by
    rw [drawl, List.length_replicate]
    omega
  have hne : List.replicate 240 0x61 ≠ [] := List.cons_ne_nil _ _
  have hshort := hclaim 1 _ _ (openConversation_halved hfit hne nextSegment_drawl) _ _
    (List.prefix_refl _) (.message .start (openReceiveOne_halved hfit hne nextSegment_drawl))
  rw [List.length_replicate] at hshort
  exact absurd hshort (by decide)

end NeuroVoice
