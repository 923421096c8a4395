import NeuroVoice.World

/-!
# NeuroVoice.Bridge

`worker/live.py`: `iter_engine_chunks`, between the engine's thread and the
coroutine that publishes the chunks.

The producer and the consumer share a queue and, if the caller passes one, a
cancel event.  A `Move` is one step of either, and a list of moves one of their
interleavings.  Whatever the interleaving, the consumer sees the engine's chunks
in order and its ending only after them; `process_one_job` passes no event, so
nothing stops the producer of a consumer that is gone: `engine_bridge`.
-/

namespace NeuroVoice

namespace Live

/-- An item of the queue: a chunk, an exception, or the sentinel `None`. -/
inductive Item where
  | chunk (c : SynthChunk)
  | exc (x : Foreign)
  | sentinel

/-- Where `_producer` stands. -/
inductive Producer where
  /-- The thread has not begun. -/
  | fresh
  /-- About to call `next()` on the generator. -/
  | ready
  /-- The engine is at work on the next sentence, if there is one. -/
  | asking
  /-- Before the check of `cancel_event`. -/
  | got (c : SynthChunk)
  /-- After it. -/
  | putting (c : SynthChunk)
  | raised (x : Foreign)
  /-- In the `finally` block. -/
  | leaving
  | gone

/-- How the consumer ends. -/
inductive Ending where
  | normal
  | raised (x : Foreign)
  | abandoned

/-- Where the generator `iter_engine_chunks` stands. -/
inductive Consumer where
  /-- At `await queue.get()`. -/
  | getting
  /-- At `yield item`. -/
  | suspended
  /-- At `yield item`, and its caller will not resume it. -/
  | left
  /-- In the `finally` block. -/
  | closing (e : Ending)
  | over (e : Ending)

end Live

/-- How many sentences the engine takes up: those it yields, and the one at
which it raises. -/
def SynthRun.sentences (run : SynthRun) : Nat := run.chunks.length + run.ending.toList.length

namespace Live

/-- One call of `iter_engine_chunks`. -/
structure Bridge where
  /-- What the engine has still to do. -/
  engine : SynthRun
  /-- How many sentences it has been asked for: a `next()` that only finds the
  generator exhausted asks for none. -/
  asked : Nat := 0
  producer : Producer := .fresh
  queue : List Item := []
  loopOpen : Bool := true
  /-- `cancel_event`, and whether it is set. -/
  event : Option Bool
  consumer : Consumer := .getting
  yielded : List SynthChunk := []

namespace Bridge

/-- `_put_safe`. -/
def put (s : Bridge) (i : Item) : Bridge :=
  if s.loopOpen then { s with queue := s.queue ++ [i] } else s

/-- The next step of `_producer`. -/
def produce (s : Bridge) : Option Bridge :=
  match s.producer with
  | .fresh => some { s with producer := .ready }
  | .ready => some { s with producer := .asking, asked := s.asked + min 1 s.engine.sentences }
  | .asking =>
      match s.engine.chunks, s.engine.ending with
      | c :: cs, _ => some { s with producer := .got c, engine := { s.engine with chunks := cs } }
      | [], none => some { s with producer := .leaving }
      | [], some x => some { s with producer := .raised x }
  | .got c =>
      -- `cancel_event is not None and cancel_event.is_set()`
      if s.event = some true then some { s with producer := .leaving }
      else some { s with producer := .putting c }
  | .putting c => some { s.put (.chunk c) with producer := .ready }
  | .raised x => some { s.put (.exc x) with producer := .leaving }
  | .leaving => some { s.put .sentinel with producer := .gone }
  | .gone => none

/-- The `finally` block begins: it sets the event, if there is one. -/
def close (s : Bridge) (e : Ending) : Bridge :=
  { s with consumer := .closing e, event := s.event.map fun _ => true }

end Bridge

/-- What can happen next. -/
inductive Move where
  | produce
  /-- `queue.get()` returns. -/
  | get
  /-- The caller asks for the next item. -/
  | resume
  /-- The caller's loop body raises or is cancelled. -/
  | leave
  /-- The generator that was left is closed. -/
  | finalize
  /-- `queue.get()` is cancelled. -/
  | cancel
  /-- The wait of the `finally` block ends, after a second at the latest. -/
  | finish
  /-- It ends by cancelling a producer that has not begun. -/
  | drop
  /-- The event loop of the consumer is closed. -/
  | closeLoop

/-- One step; `none` where it is not possible. -/
def Bridge.step (s : Bridge) : Move → Option Bridge
  | .produce => s.produce
  | .get =>
      match s.consumer, s.queue with
      | .getting, .chunk c :: q =>
          some { s with consumer := .suspended, queue := q, yielded := s.yielded ++ [c] }
      | .getting, .exc x :: q => some ({ s with queue := q }.close (.raised x))
      | .getting, .sentinel :: q => some ({ s with queue := q }.close .normal)
      | _, _ => none
  | .resume =>
      match s.consumer with
      | .suspended => some { s with consumer := .getting }
      | _ => none
  | .leave =>
      match s.consumer with
      | .suspended => some { s with consumer := .left }
      | _ => none
  | .finalize =>
      match s.consumer with
      | .left => some (s.close .abandoned)
      | _ => none
  | .cancel =>
      match s.consumer with
      | .getting => some (s.close .abandoned)
      | _ => none
  | .finish =>
      match s.consumer with
      | .closing e => some { s with consumer := .over e }
      | _ => none
  | .drop =>
      match s.consumer, s.producer with
      | .closing e, .fresh => some { s with consumer := .over e, producer := .gone }
      | _, _ => none
  | .closeLoop =>
      match s.consumer with
      | .left | .over _ => some { s with loopOpen := false }
      | _ => none

/-- A whole interleaving. -/
def Bridge.run (s : Bridge) : List Move → Option Bridge
  | [] => some s
  | m :: ms => (s.step m).bind fun s' => s'.run ms

/-- `iter_engine_chunks(engine, …, cancel_event=event)`. -/
def iterEngineChunks (engine : SynthRun) (event : Option Bool) : Bridge where
  engine := engine
  event := event

/-- `process_one_job` passes no `cancel_event`. -/
def pipelineEvent : Option Bool := none

/-! ## what the consumer sees -/

/-- The consumer has been abandoned by its caller. -/
def Consumer.Abandoned : Consumer → Prop
  | .left | .closing .abandoned | .over .abandoned => True
  | _ => False

/-- The ending is the engine's, after all its chunks; an abandoned consumer has
none. -/
def Ending.Earned (run : SynthRun) (yielded : List SynthChunk) : Ending → Prop
  | .normal => yielded = run.chunks ∧ run.ending = none
  | .raised x => yielded = run.chunks ∧ run.ending = some x
  | .abandoned => True

/-- The consumer has yielded the first of the engine's chunks, and its ending is
the engine's. -/
structure Faithful (run : SynthRun) (s : Bridge) : Prop where
  yielded : s.yielded <+: run.chunks
  ending : ∀ e, s.consumer = .closing e ∨ s.consumer = .over e → e.Earned run s.yielded

/-- The chunk the producer holds. -/
def Producer.inHand : Producer → List SynthChunk
  | .got c | .putting c => [c]
  | _ => []

/-- What the producer has put after the last chunk. -/
def Producer.trailer (p : Producer) (ending : Option Foreign) : List Item :=
  match p with
  | .leaving => ending.toList.map .exc
  | .gone => ending.toList.map .exc ++ [.sentinel]
  | _ => []

/-- What is known where the generator has ended. -/
def Producer.Ended (run : SynthRun) : Producer → Prop
  | .raised x => run.chunks = [] ∧ run.ending = some x
  | .leaving | .gone => run.chunks = []
  | _ => True

/-- While the consumer is at work, nothing is lost: what it has yielded, what is
queued, what the producer holds and what the engine has left are the chunks. -/
structure Lossless (run : SynthRun) (s : Bridge) : Prop where
  isOpen : s.loopOpen = true
  unset : s.event ≠ some true
  ending : s.engine.ending = run.ending
  ended : s.producer.Ended s.engine
  queue : ∃ cs, s.queue = cs.map .chunk ++ s.producer.trailer run.ending ∧
    run.chunks = s.yielded ++ (cs ++ (s.producer.inHand ++ s.engine.chunks))

/-- What every interleaving keeps. -/
structure Sound (run : SynthRun) (s : Bridge) : Prop extends Faithful run s where
  lossless : s.consumer = .getting ∨ s.consumer = .suspended → Lossless run s

section sound

variable {run : SynthRun} {s s' : Bridge}

theorem Lossless.starts (h : Lossless run s) : s.yielded <+: run.chunks := by
  obtain ⟨cs, -, hchunks⟩ := h.queue
  exact ⟨_, hchunks.symm⟩

/-- A step of the producer loses nothing. -/
theorem Lossless.produce (h : Lossless run s) (hs : s.produce = some s') : Lossless run s' := by
  obtain ⟨hopen, hunset, hending, hended, cs, hqueue, hchunks⟩ := h
  have hput : ∀ i, s.put i = { s with queue := s.queue ++ [i] } := fun i => by
    simp [Bridge.put, hopen]
  unfold Bridge.produce at hs
  split at hs
  · next hp =>
      cases hs
      simp only [hp, Producer.trailer, Producer.inHand] at hqueue hchunks
      exact ⟨hopen, hunset, hending, trivial, cs, hqueue, hchunks⟩
  · next hp =>
      cases hs
      simp only [hp, Producer.trailer, Producer.inHand] at hqueue hchunks
      exact ⟨hopen, hunset, hending, trivial, cs, hqueue, hchunks⟩
  · next hp =>
      simp only [hp, Producer.trailer, Producer.inHand, List.nil_append] at hqueue hchunks
      split at hs
      · next c rest _ hrest =>
          cases hs
          refine ⟨hopen, hunset, hending, trivial, cs, hqueue, ?_⟩
          simp [hchunks, hrest, Producer.inHand]
      · next hrest hnone =>
          cases hs
          refine ⟨hopen, hunset, hending, hrest, cs, ?_, hchunks⟩
          simp [hqueue, Producer.trailer, ← hending, hnone]
      · next x hrest hsome =>
          cases hs
          exact ⟨hopen, hunset, hending, ⟨hrest, hsome⟩, cs, hqueue, hchunks⟩
  · next c hp =>
      rw [if_neg hunset] at hs
      cases hs
      simp only [hp, Producer.trailer, Producer.inHand] at hqueue hchunks
      exact ⟨hopen, hunset, hending, trivial, cs, hqueue, hchunks⟩
  · next c hp =>
      cases hs
      simp only [hp, Producer.trailer, Producer.inHand, List.append_nil] at hqueue hchunks
      rw [hput]
      refine ⟨hopen, hunset, hending, trivial, cs ++ [c], ?_, ?_⟩
      · simp [hqueue, Producer.trailer]
      · simp [hchunks, Producer.inHand]
  · next x hp =>
      cases hs
      rw [hp] at hended
      simp only [hp, Producer.trailer, Producer.inHand, List.append_nil] at hqueue hchunks
      rw [hput]
      refine ⟨hopen, hunset, hending, hended.1, cs, ?_, hchunks⟩
      simp [hqueue, Producer.trailer, ← hending, hended.2]
  · next hp =>
      cases hs
      rw [hp] at hended
      simp only [hp, Producer.trailer, Producer.inHand] at hqueue hchunks
      rw [hput]
      refine ⟨hopen, hunset, hending, hended, cs, ?_, hchunks⟩
      simp [hqueue, Producer.trailer]
  · cases hs

/-- The producer touches neither the consumer nor the event. -/
theorem produce_frame (hs : s.produce = some s') :
    s'.consumer = s.consumer ∧ s'.yielded = s.yielded ∧ s'.event = s.event := by
  have hput : ∀ i, (s.put i).consumer = s.consumer ∧ (s.put i).yielded = s.yielded ∧
      (s.put i).event = s.event := fun i => by
    unfold Bridge.put
    split <;> exact ⟨rfl, rfl, rfl⟩
  unfold Bridge.produce at hs
  split at hs
  · cases hs; exact ⟨rfl, rfl, rfl⟩
  · cases hs; exact ⟨rfl, rfl, rfl⟩
  · split at hs <;> cases hs <;> exact ⟨rfl, rfl, rfl⟩
  · split at hs <;> cases hs <;> exact ⟨rfl, rfl, rfl⟩
  · cases hs; exact hput _
  · cases hs; exact hput _
  · cases hs; exact hput _
  · cases hs

theorem Sound.produce (h : Sound run s) (hs : s.produce = some s') : Sound run s' := by
  obtain ⟨hconsumer, hyielded, -⟩ := produce_frame hs
  constructor
  · constructor
    · rw [hyielded]
      exact h.yielded
    · rw [hconsumer, hyielded]
      exact h.ending
  · rw [hconsumer]
    exact fun hc => (h.lossless hc).produce hs

/-- What comes first after the last chunk. -/
theorem trailer_head {p : Producer} {ending : Option Foreign} {i : Item} {q : List Item}
    (h : i :: q = p.trailer ending) :
    (∃ x, i = .exc x ∧ ending = some x) ∨ i = .sentinel ∧ ending = none := by
  cases p with
  | leaving =>
      cases ending with
      | none => cases h
      | some x => cases h; exact .inl ⟨x, rfl, rfl⟩
  | gone =>
      cases ending with
      | none => cases h; exact .inr ⟨rfl, rfl⟩
      | some x => cases h; exact .inl ⟨x, rfl, rfl⟩
  | _ => cases h

/-- A queue that does not begin with a chunk holds no more of them. -/
theorem Lossless.drained (h : Lossless run s) {i : Item} {q : List Item} (hq : s.queue = i :: q)
    (hi : ∀ c, i ≠ .chunk c) : s.yielded = run.chunks ∧
      i :: q = s.producer.trailer run.ending := by
  obtain ⟨cs, hqueue, hchunks⟩ := h.queue
  cases cs with
  | cons c cs =>
      rw [hq] at hqueue
      exact absurd (List.cons.inj hqueue).1 (hi c)
  | nil =>
      have hqueue : i :: q = s.producer.trailer run.ending := by rw [← hq, hqueue]; rfl
      refine ⟨?_, hqueue⟩
      have hended := h.ended
      cases hp : s.producer with
      | leaving | gone =>
          rw [hp] at hended hchunks
          rw [hchunks, show s.engine.chunks = [] from hended]
          simp [Producer.inHand]
      | _ => rw [hp] at hqueue; cases hqueue

/-- A chunk of the queue is the engine's next one. -/
theorem Lossless.next (h : Lossless run s) {c : SynthChunk} {q : List Item}
    (hq : s.queue = .chunk c :: q) :
    Lossless run { s with consumer := .suspended, queue := q, yielded := s.yielded ++ [c] } := by
  obtain ⟨cs, hqueue, hchunks⟩ := h.queue
  rw [hq] at hqueue
  cases cs with
  | nil => obtain ⟨x, hx, -⟩ | ⟨hx, -⟩ := trailer_head hqueue <;> cases hx
  | cons c' cs =>
      obtain ⟨hhead, htail⟩ := List.cons.inj hqueue
      cases hhead
      exact ⟨h.isOpen, h.unset, h.ending, h.ended, cs, htail, by simp [hchunks]⟩

/-- A consumer in its `finally` block. -/
theorem Faithful.close (h : s.yielded <+: run.chunks) {e : Ending} (he : e.Earned run s.yielded) :
    Sound run (s.close e) := by
  refine ⟨⟨h, fun e' he' => ?_⟩, fun hc => ?_⟩
  · simp only [Bridge.close, Consumer.closing.injEq, reduceCtorEq, or_false] at he'
    exact he' ▸ he
  · simp [Bridge.close] at hc

/-- What `queue.get()` returns. -/
theorem Sound.get (h : Sound run s) (hs : s.step .get = some s') : Sound run s' := by
  simp only [Bridge.step] at hs
  split at hs
  · next c q hc hq =>
      cases hs
      have hl := (h.lossless (.inl hc)).next hq
      exact ⟨⟨hl.starts, fun e he => by simp at he⟩, fun _ => hl⟩
  · next x q hc hq =>
      cases hs
      obtain ⟨hall, htrailer⟩ := (h.lossless (.inl hc)).drained hq (by simp)
      obtain ⟨y, hy, hending⟩ | ⟨hy, -⟩ := trailer_head htrailer
      · cases hy
        exact Faithful.close (s := { s with queue := q }) h.yielded ⟨hall, hending⟩
      · cases hy
  · next q hc hq =>
      cases hs
      obtain ⟨hall, htrailer⟩ := (h.lossless (.inl hc)).drained hq (by simp)
      obtain ⟨y, hy, -⟩ | ⟨-, hending⟩ := trailer_head htrailer
      · cases hy
      · exact Faithful.close (s := { s with queue := q }) h.yielded ⟨hall, hending⟩
  · cases hs

/-- **One step**, of whichever side, keeps what the consumer has seen right. -/
theorem Sound.step (h : Sound run s) {m : Move} (hs : s.step m = some s') : Sound run s' := by
  cases m with
  | produce => exact h.produce hs
  | get => exact h.get hs
  | resume =>
      simp only [Bridge.step] at hs
      split at hs
      · next hc =>
          cases hs
          obtain ⟨hopen, hunset, hending, hended, hqueue⟩ := h.lossless (.inr hc)
          exact ⟨⟨h.yielded, fun e he => by simp at he⟩,
            fun _ => ⟨hopen, hunset, hending, hended, hqueue⟩⟩
      · cases hs
  | leave =>
      simp only [Bridge.step] at hs
      split at hs
      · cases hs
        exact ⟨⟨h.yielded, fun e he => by simp at he⟩, fun hc => by simp at hc⟩
      · cases hs
  | finalize =>
      simp only [Bridge.step] at hs
      split at hs
      · cases hs
        exact Faithful.close h.yielded trivial
      · cases hs
  | cancel =>
      simp only [Bridge.step] at hs
      split at hs
      · cases hs
        exact Faithful.close h.yielded trivial
      · cases hs
  | finish =>
      simp only [Bridge.step] at hs
      split at hs
      · next e hc =>
          cases hs
          refine ⟨⟨h.yielded, fun e' he => ?_⟩, fun hc => by simp at hc⟩
          simp only [reduceCtorEq, Consumer.over.injEq, false_or] at he
          exact he ▸ h.ending e (.inl hc)
      · cases hs
  | drop =>
      simp only [Bridge.step] at hs
      split at hs
      · next e hc hp =>
          cases hs
          refine ⟨⟨h.yielded, fun e' he => ?_⟩, fun hc => by simp at hc⟩
          simp only [reduceCtorEq, Consumer.over.injEq, false_or] at he
          exact he ▸ h.ending e (.inl hc)
      · cases hs
  | closeLoop =>
      simp only [Bridge.step] at hs
      split at hs
      · next hc =>
          cases hs
          refine ⟨⟨h.yielded, h.ending⟩, fun hc' => ?_⟩
          simp [hc] at hc'
      · next e hc =>
          cases hs
          refine ⟨⟨h.yielded, h.ending⟩, fun hc' => ?_⟩
          simp [hc] at hc'
      · cases hs

/-- **Every interleaving** keeps it right. -/
theorem Sound.moves (h : Sound run s) {ms : List Move} (hs : s.run ms = some s') :
    Sound run s' := by
  induction ms generalizing s with
  | nil => cases hs; exact h
  | cons m ms ih =>
      obtain ⟨s₁, hs₁, hs⟩ := Option.bind_eq_some_iff.1 hs
      exact ih (h.step hs₁) hs

theorem sound_iterEngineChunks {event : Option Bool} (hevent : event ≠ some true) :
    Sound run (iterEngineChunks run event) := by
  have hstart : (iterEngineChunks run event).yielded <+: run.chunks := by simp [iterEngineChunks]
  refine ⟨⟨hstart, fun e he => by simp [iterEngineChunks] at he⟩, fun _ => ?_⟩
  exact ⟨rfl, hevent, rfl, trivial, [], rfl, rfl⟩

end sound

/-! ## what the producer goes on to ask for -/

/-- How many sentences the producer would still ask for. -/
def Bridge.toAsk (s : Bridge) : Nat :=
  match s.producer with
  | .fresh | .ready | .got _ | .putting _ => s.engine.sentences
  | .asking => s.engine.sentences - 1
  | .raised _ | .leaving | .gone => 0

/-- How many it still asks for when the event is set. -/
def Bridge.toAskCancelled (s : Bridge) : Nat :=
  match s.producer with
  | .fresh | .ready | .putting _ => 1
  | .asking | .got _ | .raised _ | .leaving | .gone => 0

section leak

variable {run : SynthRun} {s s' : Bridge}

@[simp] theorem put_asked (s : Bridge) (i : Item) : (s.put i).asked = s.asked := by
  unfold Bridge.put
  split <;> rfl

@[simp] theorem put_engine (s : Bridge) (i : Item) : (s.put i).engine = s.engine := by
  unfold Bridge.put
  split <;> rfl

/-- Without an event the producer asks for everything. -/
theorem produce_asks (hevent : s.event = none) (hs : s.produce = some s') :
    s'.asked + s'.toAsk = s.asked + s.toAsk := by
  unfold Bridge.produce at hs
  split at hs
  · next hp => cases hs; simp [Bridge.toAsk, hp]
  · next hp => cases hs; simp only [Bridge.toAsk, hp]; omega
  · next hp =>
      split at hs
      · next hrest =>
          cases hs
          simp only [Bridge.toAsk, hp, SynthRun.sentences, hrest, List.length_cons]
          omega
      · next hrest hnone => cases hs; simp [Bridge.toAsk, hp, SynthRun.sentences, hrest, hnone]
      · next hrest hsome => cases hs; simp [Bridge.toAsk, hp, SynthRun.sentences, hrest, hsome]
  · next hp =>
      rw [if_neg (by simp [hevent])] at hs
      cases hs
      simp [Bridge.toAsk, hp]
  · next hp => cases hs; simp [Bridge.toAsk, hp]
  · next hp => cases hs; simp [Bridge.toAsk, hp]
  · next hp => cases hs; simp [Bridge.toAsk, hp]
  · cases hs

/-- With the event set it asks once more at most. -/
theorem produce_asks_cancelled (hevent : s.event = some true) (hs : s.produce = some s') :
    s'.asked + s'.toAskCancelled ≤ s.asked + s.toAskCancelled := by
  unfold Bridge.produce at hs
  split at hs
  · next hp => cases hs; simp [Bridge.toAskCancelled, hp]
  · next hp => cases hs; simp only [Bridge.toAskCancelled, hp]; omega
  · next hp => split at hs <;> cases hs <;> simp [Bridge.toAskCancelled, hp]
  · next hp =>
      rw [if_pos hevent] at hs
      cases hs
      simp [Bridge.toAskCancelled, hp]
  · next hp => cases hs; simp [Bridge.toAskCancelled, hp]
  · next hp => cases hs; simp [Bridge.toAskCancelled, hp]
  · next hp => cases hs; simp [Bridge.toAskCancelled, hp]
  · cases hs

/-- The consumer asks for nothing; it can only keep a producer from beginning. -/
theorem consume_asks {m : Move} (hm : m ≠ .produce) (hs : s.step m = some s') :
    s'.asked = s.asked ∧ s'.engine = s.engine ∧
      (s'.producer = s.producer ∨ m = .drop ∧ s'.producer = .gone) ∧
      (s'.event = s.event ∨ s'.event = s.event.map fun _ => true) := by
  cases m with
  | produce => exact absurd rfl hm
  | get =>
      simp only [Bridge.step] at hs
      split at hs
      · cases hs; exact ⟨rfl, rfl, .inl rfl, .inl rfl⟩
      · cases hs; exact ⟨rfl, rfl, .inl rfl, .inr rfl⟩
      · cases hs; exact ⟨rfl, rfl, .inl rfl, .inr rfl⟩
      · cases hs
  | finalize | cancel =>
      simp only [Bridge.step] at hs
      split at hs
      · cases hs; exact ⟨rfl, rfl, .inl rfl, .inr rfl⟩
      · cases hs
  | resume | leave | finish =>
      simp only [Bridge.step] at hs
      split at hs
      · cases hs; exact ⟨rfl, rfl, .inl rfl, .inl rfl⟩
      · cases hs
  | drop =>
      simp only [Bridge.step] at hs
      split at hs
      · cases hs; exact ⟨rfl, rfl, .inr ⟨rfl, rfl⟩, .inl rfl⟩
      · cases hs
  | closeLoop =>
      simp only [Bridge.step] at hs
      split at hs
      · cases hs; exact ⟨rfl, rfl, .inl rfl, .inl rfl⟩
      · cases hs; exact ⟨rfl, rfl, .inl rfl, .inl rfl⟩
      · cases hs

theorem toAsk_congr (hengine : s'.engine = s.engine) (hproducer : s'.producer = s.producer) :
    s'.toAsk = s.toAsk := by
  simp only [Bridge.toAsk, hengine, hproducer]

/-- **One step without an event** never adds to what is asked for in all. -/
theorem step_asks (hevent : s.event = none) {m : Move} (hs : s.step m = some s') :
    s'.event = none ∧ s'.asked + s'.toAsk ≤ s.asked + s.toAsk ∧
      (m ≠ .drop → s'.asked + s'.toAsk = s.asked + s.toAsk) := by
  by_cases hm : m = .produce
  · subst hm
    obtain ⟨-, -, heq⟩ := produce_frame hs
    have hsum := produce_asks hevent hs
    exact ⟨heq.trans hevent, hsum.le, fun _ => hsum⟩
  · obtain ⟨hasked, hengine, hproducer, hev⟩ := consume_asks hm hs
    have hev : s'.event = none := by
      obtain h | h := hev <;> rw [h, hevent]
      rfl
    obtain hproducer | ⟨hdrop, hgone⟩ := hproducer
    · have hsum : s'.asked + s'.toAsk = s.asked + s.toAsk := by
        rw [hasked, toAsk_congr hengine hproducer]
      exact ⟨hev, hsum.le, fun _ => hsum⟩
    · refine ⟨hev, ?_, fun h => absurd hdrop h⟩
      rw [hasked, show s'.toAsk = 0 by simp [Bridge.toAsk, hgone]]
      omega

/-- What is asked for in all, along an interleaving without an event. -/
theorem run_asks (hevent : s.event = none) {ms : List Move} (hs : s.run ms = some s') :
    s'.event = none ∧ s'.asked + s'.toAsk ≤ s.asked + s.toAsk := by
  induction ms generalizing s with
  | nil => cases hs; exact ⟨hevent, le_rfl⟩
  | cons m ms ih =>
      obtain ⟨s₁, hs₁, hs⟩ := Option.bind_eq_some_iff.1 hs
      obtain ⟨hevent₁, hsum, -⟩ := step_asks hevent hs₁
      obtain ⟨hevent', hsum'⟩ := ih hevent₁ hs
      exact ⟨hevent', hsum'.trans hsum⟩

/-- One step with the event set. -/
theorem step_asks_cancelled (hevent : s.event = some true) {m : Move}
    (hs : s.step m = some s') :
    s'.event = some true ∧ s'.asked + s'.toAskCancelled ≤ s.asked + s.toAskCancelled := by
  by_cases hm : m = .produce
  · subst hm
    obtain ⟨-, -, heq⟩ := produce_frame hs
    exact ⟨heq.trans hevent, produce_asks_cancelled hevent hs⟩
  · obtain ⟨hasked, hengine, hproducer, hev⟩ := consume_asks hm hs
    have hev : s'.event = some true := by
      obtain h | h := hev <;> rw [h, hevent]
      rfl
    refine ⟨hev, ?_⟩
    rw [hasked]
    obtain hproducer | ⟨-, hgone⟩ := hproducer
    · simp [Bridge.toAskCancelled, hproducer]
    · simp [Bridge.toAskCancelled, hgone]

/-- **With an event the leak is bounded**: once the `finally` block has set it, the
producer asks for at most one further sentence. -/
theorem bounded_leak_of_event (hevent : s.event = some true) {ms : List Move}
    (hs : s.run ms = some s') : s'.asked ≤ s.asked + 1 := by
  have hsum : s'.asked + s'.toAskCancelled ≤ s.asked + s.toAskCancelled := by
    induction ms generalizing s with
    | nil => cases hs; exact le_rfl
    | cons m ms ih =>
        obtain ⟨s₁, hs₁, hs⟩ := Option.bind_eq_some_iff.1 hs
        obtain ⟨hevent₁, hsum₁⟩ := step_asks_cancelled hevent hs₁
        exact (ih hevent₁ hs).trans hsum₁
  have hone : s.toAskCancelled ≤ 1 := by
    unfold Bridge.toAskCancelled
    split <;> omega
  omega

/-- The consumer is at work. -/
def Consumer.Working : Consumer → Prop
  | .getting | .suspended => True
  | _ => False

/-- A consumer that is at work has always been. -/
theorem working_of_step {m : Move} (hs : s.step m = some s') (h : s'.consumer.Working) :
    s.consumer.Working ∧ m ≠ .drop := by
  cases m with
  | produce =>
      rw [(produce_frame hs).1] at h
      exact ⟨h, by simp⟩
  | get =>
      simp only [Bridge.step] at hs
      split at hs
      · next hc _ => rw [hc]; exact ⟨trivial, by simp⟩
      · cases hs; exact h.elim
      · cases hs; exact h.elim
      · cases hs
  | resume =>
      simp only [Bridge.step] at hs
      split at hs
      · next hc => rw [hc]; exact ⟨trivial, by simp⟩
      · cases hs
  | leave | finalize | cancel | finish | drop =>
      simp only [Bridge.step] at hs
      split at hs
      · cases hs; exact h.elim
      · cases hs
  | closeLoop =>
      simp only [Bridge.step] at hs
      split at hs
      · next hc => cases hs; rw [hc] at h; exact h.elim
      · next hc => cases hs; rw [hc] at h; exact h.elim
      · cases hs

/-- While the consumer is at work, every ask is either made or still to make. -/
theorem asks_of_working (hevent : s.event = none) {ms : List Move} (hs : s.run ms = some s')
    (h : s'.consumer.Working) : s.consumer.Working ∧ s'.event = none ∧
      s'.asked + s'.toAsk = s.asked + s.toAsk := by
  induction ms generalizing s with
  | nil => cases hs; exact ⟨h, hevent, rfl⟩
  | cons m ms ih =>
      obtain ⟨s₁, hs₁, hs⟩ := Option.bind_eq_some_iff.1 hs
      obtain ⟨hevent₁, -, hsum⟩ := step_asks hevent hs₁
      obtain ⟨hwork₁, hevent', hsum'⟩ := ih hevent₁ hs
      obtain ⟨hwork, hdrop⟩ := working_of_step hs₁ hwork₁
      exact ⟨hwork, hevent', hsum'.trans (hsum hdrop)⟩

theorem abandoned_over {e : Ending} :
    (Consumer.over e).Abandoned ↔ (Consumer.closing e).Abandoned := by
  cases e <;> exact Iff.rfl

/-- Being abandoned happens to a consumer at work. -/
theorem abandoned_step {m : Move} (hs : s.step m = some s') (h : ¬s.consumer.Abandoned)
    (h' : s'.consumer.Abandoned) : s.consumer.Working ∧ m ≠ .drop := by
  cases m with
  | produce =>
      rw [(produce_frame hs).1] at h'
      exact absurd h' h
  | get =>
      simp only [Bridge.step] at hs
      split at hs
      · cases hs; exact h'.elim
      · cases hs; exact h'.elim
      · cases hs; exact h'.elim
      · cases hs
  | resume =>
      simp only [Bridge.step] at hs
      split at hs
      · cases hs; exact h'.elim
      · cases hs
  | leave | cancel =>
      simp only [Bridge.step] at hs
      split at hs
      · next hc => rw [hc]; exact ⟨trivial, by simp⟩
      · cases hs
  | finalize =>
      simp only [Bridge.step] at hs
      split at hs
      · next hc => rw [hc] at h; exact absurd trivial h
      · cases hs
  | finish =>
      simp only [Bridge.step] at hs
      split at hs
      · next e hc => cases hs; rw [hc] at h; exact absurd (abandoned_over.1 h') h
      · cases hs
  | drop =>
      simp only [Bridge.step] at hs
      split at hs
      · next e hc _ => cases hs; rw [hc] at h; exact absurd (abandoned_over.1 h') h
      · cases hs
  | closeLoop =>
      simp only [Bridge.step] at hs
      split at hs
      · next hc => cases hs; rw [hc] at h; exact absurd trivial h
      · next e hc => cases hs; exact absurd h' h
      · cases hs

/-- How far the producer is from its end. -/
def Bridge.rank (s : Bridge) : Nat :=
  match s.producer with
  | .got _ => 4 * s.engine.chunks.length + 6
  | .fresh | .putting _ => 4 * s.engine.chunks.length + 5
  | .ready => 4 * s.engine.chunks.length + 4
  | .asking => 4 * s.engine.chunks.length + 3
  | .raised _ => 2
  | .leaving => 1
  | .gone => 0

theorem rank_produce (hs : s.produce = some s') : s'.rank < s.rank := by
  unfold Bridge.produce at hs
  split at hs
  · next hp => cases hs; simp [Bridge.rank, hp]
  · next hp => cases hs; simp [Bridge.rank, hp]
  · next hp =>
      split at hs
      · next hrest => cases hs; simp only [Bridge.rank, hp, hrest, List.length_cons]; omega
      · next hrest _ => cases hs; simp [Bridge.rank, hp]
      · next hrest _ => cases hs; simp [Bridge.rank, hp]
  · next hp => split at hs <;> cases hs <;> simp [Bridge.rank, hp]
  · next hp => cases hs; simp [Bridge.rank, hp]
  · next hp => cases hs; simp [Bridge.rank, hp]
  · next hp => cases hs; simp [Bridge.rank, hp]
  · cases hs

theorem toAsk_of_produce_none (hs : s.produce = none) : s.toAsk = 0 := by
  unfold Bridge.produce at hs
  split at hs
  · cases hs
  · cases hs
  · split at hs <;> cases hs
  · split at hs <;> cases hs
  · cases hs
  · cases hs
  · cases hs
  · next hp => simp [Bridge.toAsk, hp]

/-- Left to itself, a producer without an event asks for everything. -/
theorem exists_run_asks (hevent : s.event = none) :
    ∃ ms t, s.run ms = some t ∧ t.asked = s.asked + s.toAsk := by
  induction hn : s.rank using Nat.strong_induction_on generalizing s with
  | _ n ih =>
      cases hs : s.produce with
      | none => exact ⟨[], s, rfl, by rw [toAsk_of_produce_none hs]; rfl⟩
      | some s' =>
          have hstep : s.step .produce = some s' := hs
          have hevent' := (step_asks hevent hstep).1
          obtain ⟨ms, t, ht, hasked⟩ := ih s'.rank (hn ▸ rank_produce hs) hevent' rfl
          refine ⟨.produce :: ms, t, ?_, ?_⟩
          · simp [Bridge.run, hstep, ht]
          · rw [hasked, produce_asks hevent hs]

end leak

/-! ## the bridge -/

/-- **`iter_engine_chunks`, as `process_one_job` calls it**: in every interleaving
the consumer sees the engine's chunks in order and its ending after them; and when
it is abandoned, the producer asks for at most one further sentence, however the
run goes on, exactly when it has asked for the last one already. -/
theorem engine_bridge (run : SynthRun) :
    (∀ ms s, (iterEngineChunks run pipelineEvent).run ms = some s → Faithful run s) ∧
      ∀ ms s m s', (iterEngineChunks run pipelineEvent).run ms = some s → s.step m = some s' →
        ¬s.consumer.Abandoned → s'.consumer.Abandoned →
        ((∀ ms' t, s'.run ms' = some t → t.asked ≤ s'.asked + 1) ↔
          run.sentences ≤ s'.asked + 1) := by
  constructor
  · intro ms s hs
    exact ((sound_iterEngineChunks (by simp [pipelineEvent])).moves hs).toFaithful
  · intro ms s m s' hs hm hbefore hafter
    obtain ⟨hwork, hdrop⟩ := abandoned_step hm hbefore hafter
    obtain ⟨-, hevent, hsum⟩ := asks_of_working rfl hs hwork
    obtain ⟨hevent', -, hsum'⟩ := step_asks hevent hm
    have htotal : s'.asked + s'.toAsk = run.sentences := by
      rw [hsum' hdrop, hsum]
      exact Nat.zero_add _
    constructor
    · intro h
      obtain ⟨ms', t, ht, hasked⟩ := exists_run_asks hevent'
      have := h ms' t ht
      omega
    · intro h ms' t ht
      have := (run_asks hevent' ht).2
      omega

/-! ## abandoned runs -/

/-- A text of `n` sentences. -/
def sentences (n : Nat) : SynthRun where
  chunks := List.replicate n { pcmInt16 := [0, 0], sampleRate := 24000, sentenceText := none }
  ending := none

/-- The first sentence has arrived. -/
def firstArrived : List Move :=
  [.produce, .produce, .produce, .produce, .produce, .get]

/-- The first of three sentences has arrived and the engine is at work on the
second when the consumer is left: the third is the one further sentence. -/
theorem engine_bridge_second :
    ∃ s', (iterEngineChunks (sentences 3) pipelineEvent).run
        (firstArrived ++ [.produce, .leave]) = some s' ∧
      s'.consumer.Abandoned ∧ s'.asked = 2 ∧
      ∀ ms' t, s'.run ms' = some t → t.asked ≤ s'.asked + 1 := by
  have hrun : ∃ s s', (iterEngineChunks (sentences 3) pipelineEvent).run
        (firstArrived ++ [.produce]) = some s ∧
      s.step .leave = some s' ∧ ¬s.consumer.Abandoned ∧ s'.consumer.Abandoned ∧ s'.asked = 2 ∧
      (iterEngineChunks (sentences 3) pipelineEvent).run (firstArrived ++ [.produce, .leave]) =
        some s' :=
    ⟨_, _, rfl, rfl, id, trivial, rfl, rfl⟩
  obtain ⟨s, s', hs, hstep, hbefore, hafter, hasked, hrun⟩ := hrun
  refine ⟨s', hrun, hafter, hasked, ?_⟩
  refine ((engine_bridge (sentences 3)).2 (firstArrived ++ [.produce]) s .leave s' hs hstep
    hbefore hafter).2 ?_
  rw [hasked]
  decide

/-- Publishing the first chunk fails, and the engine is asked for all the others. -/
theorem abandoned_engine_goes_on :
    ¬∀ (run : SynthRun) (ms : List Move) (s : Bridge) (m : Move) (s' : Bridge),
      (iterEngineChunks run pipelineEvent).run ms = some s → s.step m = some s' →
      ¬s.consumer.Abandoned → s'.consumer.Abandoned →
      ∀ ms' t, s'.run ms' = some t → t.asked ≤ s'.asked + 1 := by
  intro h
  have hrun : ∃ s s', (iterEngineChunks (sentences 3) pipelineEvent).run firstArrived = some s ∧
      s.step .leave = some s' ∧ ¬s.consumer.Abandoned ∧ s'.consumer.Abandoned ∧
      s'.event = none ∧ s'.asked = 1 ∧ s'.toAsk = 2 :=
    ⟨_, _, rfl, rfl, id, trivial, rfl, rfl, rfl⟩
  obtain ⟨s, s', hs, hstep, hbefore, hafter, hevent, hasked, htoAsk⟩ := hrun
  obtain ⟨ms', t, ht, htotal⟩ := exists_run_asks hevent
  have := h _ _ s _ s' hs hstep hbefore hafter ms' t ht
  omega

end Live

end NeuroVoice
