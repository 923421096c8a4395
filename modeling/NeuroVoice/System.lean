import NeuroVoice.Consumer
import NeuroVoice.Ws

/-!
# NeuroVoice.System

The gateway and the workers as one machine.

`Call` is what can be started, any number of times and at any moment; a run
of `system` interleaves the calls await by await, kills processes between
any two awaits, and lets time pass.
-/

namespace NeuroVoice

/-- Something that can be started. -/
inductive Call where
  | createTtsJob (ctx : AuthContext) (h : Headers) (body : TtsBody)
  | getTtsJob (ctx : AuthContext) (jobId : PyStr)
  | synthesize (ctx : AuthContext) (h : Headers) (body : TtsBody) (fuel : Nat)
  | synthesizeStream (ctx : AuthContext) (h : Headers) (body : TtsBody) (fuel : Nat)
  | streamInput (ctx : AuthContext) (slug : PyStr) (appLabel : Option PyStr) (fuel : Nat)
      (segments : List PyStr)
  /-- A worker process: `run(max_iterations=n)`. -/
  | worker (n : Nat)

/-- What a finished call returned. -/
inductive Reply where
  | accepted (r : TtsJobAccepted)
  | status (r : TtsJobStatusResponse)
  | audio (r : SyncAudio)
  | frames (fs : List Pcm)
  | done

/-- How a call ended. -/
abbrev Outcome : Type := Except Exn Reply

/-- The program of a call. -/
def Call.program (S : Settings) : Call → Py Reply
  | .createTtsJob ctx h body => do return .accepted (← NeuroVoice.createTtsJob S ctx h body)
  | .getTtsJob ctx jobId => do return .status (← NeuroVoice.getTtsJob S ctx jobId)
  | .synthesize ctx h body fuel => do
      return .audio (← NeuroVoice.synthesize S ctx h body fuel)
  | .synthesizeStream ctx h body fuel => do
      return .frames (← NeuroVoice.synthesizeStream S ctx h body fuel)
  | .streamInput ctx slug appLabel fuel segments => do
      NeuroVoice.streamInput S ctx slug appLabel fuel segments
      return .done
  | .worker n => do
      WorkerConsumer.run S n
      return .done

/-- The deployment. -/
def system (S : Settings) : Machine World Eff Ans Oracle Call Outcome where
  exec := exec
  start call := (call.program S).run
  halt p w := w.rollback p
  tick := World.tick

/-- Transitions of the deployment. -/
abbrev SysTrans : Type := Trans World Eff Ans Call Outcome

/-- Events of the deployment. -/
abbrev SysEvent : Type := Event Eff Ans Call Outcome

/-- A deployment before its first request: empty tables, and a jobs stream
that may hold entries somebody else wrote, none of them delivered yet. -/
structure World.Fresh (w : World) : Prop where
  idem : w.idem = TxTable.ofRows fun _ => none
  usage : w.usage = TxTable.ofRows fun _ => none
  lastDelivered : w.jobs.lastDelivered = 0
  pel : w.jobs.pel = []
  /-- Entry ids are positive, increasing, and below the next one. -/
  ids : (w.jobs.entries.map Prod.fst).Pairwise (· < ·)
  pos : ∀ e ∈ w.jobs.entries, 0 < e.1 ∧ e.1 < w.nextId
  nextId : 0 < w.nextId
  results : ∀ rid, w.results rid = {}
  dlq : w.dlq = []

end NeuroVoice
