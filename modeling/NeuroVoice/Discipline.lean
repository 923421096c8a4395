import NeuroVoice.Discipline.Worker
import NeuroVoice.Discipline.Gateway

/-!
# NeuroVoice.Discipline

Every call of the deployment keeps the discipline, whatever its awaits
answer: `system_follows`.
-/

namespace NeuroVoice

/-- An await that cannot fail is answered, and one that fails raises a
foreign exception. -/
theorem possible_of_exec {p : Nat} {e : Eff} {o : Oracle} {w w' : World} {a : Ans e}
    (h : exec p e o w = some (a, w')) : Possible e a := by
  have hperform {f : Foreign} {h : Hint} (hp : perform p e h w = some (.error f, w')) :
      e.fallible = true := by
    cases e <;> first | rfl | simp [perform] at hp
  cases o with
  | goes h =>
      simp only [exec] at h
      split at h
      · cases h
        trivial
      · next f _ hp =>
          cases h
          exact ⟨hperform hp, f, rfl⟩
      · contradiction
  | raises x =>
      simp only [exec] at h
      split at h
      · next hx =>
          cases h
          exact ⟨hx.1, x, rfl⟩
      · contradiction
  | lost x h =>
      simp only [exec] at h
      split at h
      · next hx =>
          split at h
          · cases h
            refine ⟨?_, x, rfl⟩
            cases e <;> first | rfl | simp [Eff.losable] at hx
          · contradiction
      · contradiction

/-- A call that stops wherever a call may stop conforms to the protocol. -/
theorem Stops.conforms {S : Settings} {s : Track} {α : Type} {x : Py α} {f : α → Reply}
    (hx : Stops S s x) :
    Conforms (sysProtocol S).toMonitor s (do return f (← x) : Py Reply).run
      fun s' _ => s'.CanStop := by
  have h : Stops S s (do return f (← x)) := hx.seq (fun _ _ hc => hc) fun _ _ hc => hc
  exact Conforms.mono h fun _ r hr => by cases r <;> exact hr

/-- **Every call keeps the discipline.** -/
theorem system_follows (S : Settings) : (system S).Follows (sysProtocol S) where
  answers := possible_of_exec
  conforms call := by
    cases call with
    | createTtsJob ctx h body => exact (stops_createTtsJob ctx h body).conforms
    | getTtsJob ctx jobId => exact (stops_getTtsJob ctx jobId).conforms
    | synthesize ctx h body fuel => exact (stops_synthesize ctx h body fuel).conforms
    | synthesizeStream ctx h body fuel => exact (stops_synthesizeStream ctx h body fuel).conforms
    | streamInput ctx slug appLabel fuel segs =>
        exact (stops_streamInput ctx slug appLabel fuel segs).conforms
    | worker n =>
        have hidle : ∀ s', WorkerConsumer.Idle s' → s'.CanStop := by
          rintro _ ⟨b, rfl⟩
          exact ⟨rfl, rfl⟩
        exact Stops.conforms (f := fun _ => Reply.done)
          (Spec.mono (WorkerConsumer.keeps_run n) (fun s' _ => hidle s') fun s' _ => hidle s')

/-- Every run of the deployment is a run of its monitors. -/
theorem system_protocol {S : Settings} {w₀ : World} {ts : List SysTrans}
    {c : Config World Eff Ans Outcome} (h : Trace (system S) w₀ ts c) :
    ∃ ph, PTrace (system S) (sysProtocol S) w₀ ts c.world ph ∧
      ∀ p, Tracked (sysProtocol S) (c.procs p) (ph p) :=
  h.protocol (system_follows S)

end NeuroVoice
