import NeuroVoice.Presets

/-!
# NeuroVoice.ResultReader

`server/result_stream.py`: the gateway's side of a result stream.

The source's generator and its consumers alternate; here `consume` is given
what its consumer does with a yielded chunk, and that consumer says whether
it goes on (`true`) or leaves the loop.  The loop runs for at most `fuel`
reads: a reader that is still waiting then raises `stillRunning`.
-/

namespace NeuroVoice

/-- The generator's local state. -/
structure ReadState where
  lastId : Nat := 0
  currentAttempt : Int := -1
  seenSeq : List Int := []

/-- One entry of a batch: the new state, and whether the chunk is yielded.
A newer attempt resets the deduplication, an older one is dropped. -/
def ReadState.feed (st : ReadState) (id : Nat) (chunk : TtsResult) : ReadState × Bool :=
  let st := { st with lastId := id }
  if chunk.attempt < st.currentAttempt then (st, false)
  else
    let st := if st.currentAttempt < chunk.attempt then
      { st with currentAttempt := chunk.attempt, seenSeq := [] } else st
    if chunk.seq ∈ st.seenSeq ∧ ¬chunk.isTerminal then (st, false)
    else if chunk.isTerminal then (st, true)
    else ({ st with seenSeq := chunk.seq :: st.seenSeq }, true)

/-- Why a reader stops. -/
inductive Stop where
  /-- A terminal chunk was yielded and the consumer went on. -/
  | terminal
  /-- The consumer left the loop. -/
  | left
  /-- The generator raised. -/
  | raised (e : Exn)

section consume

variable {σ : Type} (onChunk : σ → TtsResult → Py (σ × Bool))

/-- The entries of one `XREAD` answer. -/
def feedAll : List (Nat × TtsResult) → ReadState → σ → Py (ReadState × σ × Option Stop)
  | [], st, acc => pure (st, acc, none)
  | (id, chunk) :: rest, st, acc =>
      let (st, yields) := st.feed id chunk
      if yields then do
        let (acc, goOn) ← onChunk acc chunk
        if !goOn then pure (st, acc, some .left)
        else if chunk.isTerminal then pure (st, acc, some .terminal)
        else feedAll rest st acc
      else feedAll rest st acc

/-- The generator's loop. -/
def readLoop (rid : Uuid) (deadline : Nat) : Nat → ReadState → σ → Py (σ × Stop)
  | 0, _, acc => pure (acc, .raised .stillRunning)
  | fuel + 1, st, acc => do
      let now ← await .clock
      if deadline < now then pure (acc, .raised .resultStreamTimeout)
      else
        match ← outcomeOf (await (.xreadResults rid st.lastId)) with
        | .error e => pure (acc, .raised e)
        | .ok [] => do
            let _ ← await .sleep
            readLoop rid deadline fuel st acc
        | .ok batch =>
            match ← feedAll onChunk batch st acc with
            | (st, acc, none) => readLoop rid deadline fuel st acc
            | (_, acc, some stop) => pure (acc, stop)

/-- `_cleanup`, and the exception that ends the generator: the one it was
raising, unless the `DEL` raises another. -/
def cleanup (rid : Uuid) (raising : Option Exn) : Py (Option Exn) := do
  match ← outcomeOf (await (.delResults rid)) with
  | .ok _ => pure raising
  | .error e => pure (some e)

/-- `consume_result_stream` with its consumer's loop: what the consumer has,
and what the generator raised into it.  When the consumer leaves, by itself
or by raising, the stream is deleted in the generator's finaliser, whose
failures nobody sees. -/
def consumeResultStream (rid : Uuid) (timeoutMs fuel : Nat) (acc : σ) :
    Py (σ × Option Exn) := do
  let now ← await .clock
  match ← outcomeOf (readLoop onChunk rid (now + timeoutMs) fuel {} acc) with
  | .ok (acc, .raised .stillRunning) => pure (acc, some .stillRunning)
  | .ok (acc, .raised e) => do
      let e ← cleanup rid (some e)
      pure (acc, e)
  | .ok (acc, .terminal) => do
      let e ← cleanup rid none
      pure (acc, e)
  | .ok (acc, .left) => do
      let _ ← cleanup rid none
      pure (acc, none)
  | .error e => do
      let _ ← cleanup rid none
      throw e

end consume

/-! ## collecting -/

/-- The buffer of `collect_pcm_until_final`. -/
structure Collected where
  pcm : Pcm := []
  sentences : Nat := 0
  errorMsg : Option String := none
  currentAttempt : Int := -1

/-- The body of its loop: a newer attempt empties the buffer, a terminal
chunk ends it. -/
def Collected.take (c : Collected) (chunk : TtsResult) : Collected × Bool :=
  let c := if c.currentAttempt < chunk.attempt then
    { c with currentAttempt := chunk.attempt, pcm := [], sentences := 0 } else c
  if chunk.hasError then ({ c with errorMsg := chunk.error }, false)
  else if chunk.final then (c, false)
  else ({ c with pcm := c.pcm ++ chunk.pcmBytes, sentences := c.sentences + 1 }, true)

/-- `collect_pcm_until_final`: the audio, the number of sentences and the
error message. -/
def collectPcmUntilFinal (rid : Uuid) (timeoutMs fuel : Nat) :
    Py (Pcm × Nat × Option String) := do
  let (c, raised) ← consumeResultStream (fun c chunk => pure (Collected.take c chunk)) rid
    timeoutMs fuel ({} : Collected)
  match raised with
  | some e => throw e
  | none => return (c.pcm, c.sentences, c.errorMsg)

end NeuroVoice
