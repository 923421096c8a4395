import Mathlib.Data.List.Nodup
import Mathlib.Logic.Function.Basic

/-!
# NeuroVoice.Lib.ReuseMap

A map of results by name in which what is there is reused.

`fill` runs a job for a name that is free; the job can raise, and it can leave
the name free.  `Filled` is a run of jobs one after the other.  What a name has at
the end is what the first of its jobs made (`Filled.first`), and what its only
job made if no two jobs share a name (`Filled.unique`).
-/

namespace NeuroVoice

/-- Results by name. -/
abbrev ReuseMap (K V : Type) := K → Option V

namespace ReuseMap

variable {K V ε : Type} [DecidableEq K]

/-- Run the job, unless the name is taken. -/
def fill (m : ReuseMap K V) (k : K) (make : Except ε (Option V)) : Except ε (ReuseMap K V) :=
  if (m k).isSome then .ok m else make.map fun v => Function.update m k v

/-- A run of jobs. -/
inductive Filled : ReuseMap K V → List (K × Except ε (Option V)) → ReuseMap K V → Prop where
  | nil (m : ReuseMap K V) : Filled m [] m
  | cons {m m₁ m₂ : ReuseMap K V} {k : K} {make : Except ε (Option V)}
      {jobs : List (K × Except ε (Option V))} :
      fill m k make = .ok m₁ → Filled m₁ jobs m₂ → Filled m ((k, make) :: jobs) m₂

variable {m m₁ m₂ : ReuseMap K V} {k k' : K} {make : Except ε (Option V)} {v : V}
  {jobs jobs' : List (K × Except ε (Option V))}

/-! ## one job -/

theorem fill_taken (h : fill m k make = .ok m₁) (hv : m k = some v) : m₁ = m := by
  rw [fill, if_pos (by simp [hv])] at h
  cases h
  rfl

theorem fill_free (h : fill m k make = .ok m₁) (hfree : m k = none) : make = .ok (m₁ k) := by
  rw [fill, if_neg (by simp [hfree])] at h
  cases make with
  | error e => cases h
  | ok v =>
      cases h
      simp

theorem fill_other (h : fill m k make = .ok m₁) (hne : k' ≠ k) : m₁ k' = m k' := by
  cases hv : m k with
  | some v => rw [fill_taken h hv]
  | none =>
      rw [fill, if_neg (by simp [hv])] at h
      cases make with
      | error e => cases h
      | ok v =>
          cases h
          simp [hne]

theorem fill_keeps (h : fill m k make = .ok m₁) (hv : m k' = some v) : m₁ k' = some v := by
  by_cases hk : k' = k
  · subst hk
    rw [fill_taken h hv, hv]
  · rw [fill_other h hk, hv]

/-- A job that always makes something leaves the name taken. -/
theorem fill_some {make : Except ε V} (h : fill m k (make.map some) = .ok m₁) :
    ∃ v, m₁ k = some v ∧ (m k = none → make = .ok v) := by
  cases hv : m k with
  | some v =>
      rw [fill_taken h hv]
      exact ⟨v, hv, by simp⟩
  | none =>
      have hmake := fill_free h hv
      cases make with
      | error e => cases hmake
      | ok v => exact ⟨v, (Except.ok.inj hmake).symm, fun _ => rfl⟩

/-! ## a run -/

namespace Filled

theorem append (h : Filled m jobs m₁) (h' : Filled m₁ jobs' m₂) : Filled m (jobs ++ jobs') m₂ := by
  induction h with
  | nil m => exact h'
  | cons hfill _ ih => exact .cons hfill (ih h')

theorem keeps (h : Filled m jobs m₁) (hv : m k = some v) : m₁ k = some v := by
  induction h with
  | nil m => exact hv
  | cons hfill _ ih => exact ih (fill_keeps hfill hv)

theorem other (h : Filled m jobs m₁) (hk : ∀ j ∈ jobs, j.1 ≠ k) : m₁ k = m k := by
  induction h with
  | nil m => rfl
  | cons hfill _ ih =>
      rw [List.forall_mem_cons] at hk
      rw [ih hk.2, fill_other hfill hk.1.symm]

/-- What the first job of a name makes stays. -/
theorem first (h : Filled m jobs m₁) (hfree : m k = none)
    (hfind : jobs.find? (fun j => j.1 = k) = some (k', make)) :
    ∃ r, make = .ok r ∧ ∀ v, r = some v → m₁ k = some v := by
  induction h with
  | nil m => cases hfind
  | @cons m m₁ m₂ key job jobs hfill hrun ih =>
      rw [List.find?_cons] at hfind
      by_cases hk : key = k
      · subst hk
        simp only [decide_true, Option.some.injEq, Prod.mk.injEq] at hfind
        obtain ⟨rfl, rfl⟩ := hfind
        exact ⟨_, fill_free hfill hfree, fun v hv => hrun.keeps hv⟩
      · simp only [hk, decide_false] at hfind
        refine ih ?_ hfind
        rw [fill_other hfill (Ne.symm hk), hfree]

/-- What the only job of a name makes is what the name has. -/
theorem unique (h : Filled m jobs m₁) (hnodup : (jobs.map Prod.fst).Nodup)
    (hjob : (k, make) ∈ jobs) (hfree : m k = none) : make = .ok (m₁ k) := by
  induction h with
  | nil m => cases hjob
  | @cons m m₁ m₂ key job jobs hfill hrun ih =>
      rw [List.map_cons, List.nodup_cons] at hnodup
      obtain ⟨hnotin, hnodup⟩ := hnodup
      obtain hhead | htail := List.mem_cons.1 hjob
      · cases hhead
        have hkeep : m₂ k = m₁ k := by
          refine hrun.other ?_
          intro j hj heq
          exact hnotin (List.mem_map.2 ⟨j, hj, heq⟩)
        rw [hkeep]
        exact fill_free hfill hfree
      · refine ih hnodup htail ?_
        have hne : k ≠ key := by
          intro heq
          exact hnotin (List.mem_map.2 ⟨_, htail, heq⟩)
        rw [fill_other hfill hne, hfree]

end Filled

end ReuseMap

end NeuroVoice
