import NeuroVoice.Catalog.Evolution
import NeuroVoice.Socket

/-!
# NeuroVoice.Amid

A coroutine, while tenants and operators change the catalog.

Between two awaits of the coroutine, and while one is under way, any
transactions can be committed; lookups of voices and consents are answered by
the catalog of their moment, statement by statement.
-/

namespace NeuroVoice

open VoiceRepo

/-! ## moments -/

/-- An await of a handler, with the transactions before and during it. -/
abbrev Moment := Await Transaction SocketEff SocketAns

/-- The catalog in which the await is answered. -/
def Moment.stop (t : Moment) (c : Catalog) : Catalog := c.commitAll (t.before ++ t.during)

/-- The voice the await resolves. -/
def Moment.resolves (t : Moment) : Option Voice :=
  match t.answered with
  | ⟨.io (.selectVoice _ _), .ok found⟩ => found
  | _ => none

/-- `ORDER BY created_at LIMIT 1`: any of the rows created first. -/
def First (vs : List Voice) (v : Voice) : Prop := v ∈ vs ∧ ∀ w ∈ vs, v.createdAt ≤ w.createdAt

/-- The three statements of `get_accessible`: the last one is answered in the
catalog `c.commitAll during`, the others before. -/
def Looked (c : Catalog) (during : List Transaction) (tenant : Uuid) (slug : PyStr)
    (found : Option Voice) : Prop :=
  let now := c.commitAll during
  (∃ v, found = some v ∧ getOwned now tenant slug = some v) ∨
  (∃ v, found = some v ∧ getOwned c tenant slug = none ∧ First (sharedMatches now tenant slug) v) ∨
  ∃ before after, during = before ++ after ∧ getOwned c tenant slug = none ∧
    sharedMatches (c.commitAll before) tenant slug = [] ∧
    ((found = none ∧ publicMatches now slug = []) ∨
      ∃ v, found = some v ∧ First (publicMatches now slug) v)

/-- What the catalog answers; a statement can also fail. -/
def Moment.answeredBy (t : Moment) (c : Catalog) : Prop :=
  match t.answered with
  | ⟨.io (.selectVoice tenant (.str slug)), .ok found⟩ =>
      Looked (c.commitAll t.before) t.during tenant slug found
  | ⟨.io (.selectVoice _ _), .ok found⟩ => found = none
  | ⟨.io (.selectConsent id), .ok found⟩ =>
      found = (VoiceConsentRecordRepo.latestActive (t.stop c) id).isSome
  | _ => True

/-- A voice that is found is there. -/
theorem Looked.mem {c : Catalog} {during : List Transaction} {tenant : Uuid} {slug : PyStr}
    {v : Voice} (h : Looked c during tenant slug (some v)) :
    v ∈ (c.commitAll during).voices := by
  obtain ⟨w, hw, hown⟩ | ⟨w, hw, -, hshared, -⟩ | ⟨_, _, -, -, -, ⟨hnone, -⟩ | ⟨w, hw, hpub, -⟩⟩ := h
  · cases hw
    exact (getOwned_eq_some hown).1
  · cases hw
    exact (List.mem_filter.1 hshared).1
  · cases hnone
  · cases hw
    exact (List.mem_filter.1 hpub).1

theorem first_of_firstCreated {vs : List Voice} {v : Voice} (h : firstCreated vs = some v) :
    First vs v := by
  have hsorted : (vs.mergeSort fun v w => v.createdAt ≤ w.createdAt).Pairwise
      fun v w => decide (v.createdAt ≤ w.createdAt) = true := by
    apply List.pairwise_mergeSort
    · intro a b c hab hbc
      simp only [decide_eq_true_eq] at hab hbc ⊢
      omega
    · intro a b
      simp only [Bool.or_eq_true, decide_eq_true_eq]
      omega
  unfold firstCreated at h
  cases hs : vs.mergeSort fun v w => v.createdAt ≤ w.createdAt with
  | nil => rw [hs] at h; cases h
  | cons u us =>
      rw [hs] at h hsorted
      obtain rfl : u = v := Option.some.inj h
      have hmem : ∀ w, w ∈ vs ↔ w = u ∨ w ∈ us := by
        intro w
        rw [← (List.mergeSort_perm vs fun v w => v.createdAt ≤ w.createdAt).mem_iff, hs,
          List.mem_cons]
      refine ⟨(hmem u).2 (.inl rfl), fun w hw => ?_⟩
      obtain rfl | hw := (hmem w).1 hw
      · exact le_refl _
      · exact of_decide_eq_true ((List.pairwise_cons.1 hsorted).1 w hw)

theorem eq_nil_of_firstCreated {vs : List Voice} (h : firstCreated vs = none) : vs = [] := by
  unfold firstCreated at h
  rw [List.head?_eq_none_iff, ← List.length_eq_zero_iff, List.length_mergeSort,
    List.length_eq_zero_iff] at h
  exact h

/-- A voice lookup without transactions in between. -/
theorem looked_getAccessible (c : Catalog) (tenant : Uuid) (slug : PyStr) :
    Looked c [] tenant slug (getAccessible c tenant slug) := by
  unfold getAccessible
  cases hown : getOwned c tenant slug with
  | some v => exact .inl ⟨v, rfl, hown⟩
  | none =>
      cases hshared : firstCreated (sharedMatches c tenant slug) with
      | some v => exact .inr (.inl ⟨v, rfl, hown, first_of_firstCreated hshared⟩)
      | none =>
          refine .inr (.inr ⟨[], [], rfl, hown, eq_nil_of_firstCreated hshared, ?_⟩)
          cases hpub : firstCreated (publicMatches c slug) with
          | none => exact .inl ⟨rfl, eq_nil_of_firstCreated hpub⟩
          | some v => exact .inr ⟨v, rfl, first_of_firstCreated hpub⟩

/-- A run of the coroutine from the catalog `c`. -/
structure Amid {α : Type} (x : SocketPy α) (c : Catalog) (ts : List Moment) : Prop where
  emits : Prog.Emits x.run (ts.map Await.answered)
  answered : Along (fun c t => t.stop c) (fun c t => t.answeredBy c) c ts

/-! ## runs on a schedule -/

/-- Lookups are answered by the catalog, the rest by `other`. -/
def answerIn (other : (e : SocketEff) → SocketAns e) (c : Catalog) :
    (e : SocketEff) → SocketAns e
  | .io (.selectVoice tenant (.str slug)) => .ok (getAccessible c tenant slug)
  | .io (.selectVoice _ _) => .ok none
  | .io (.selectConsent id) => .ok (VoiceConsentRecordRepo.latestActive c id).isSome
  | e => other e

/-- As many awaits as there are lists of transactions, each after the
transactions of its list. -/
def attend {α : Type} (other : (e : SocketEff) → SocketAns e) :
    List (List Transaction) → Catalog → Prog SocketEff SocketAns α → List Moment
  | [], _, _ => []
  | _, _, .ret _ => []
  | txs :: later, c, .eff e k =>
      let a := answerIn other (c.commitAll txs) e
      ⟨txs, [], e, a⟩ :: attend other later (c.commitAll txs) (k a)

theorem answerIn_answeredBy (other : (e : SocketEff) → SocketAns e) (c : Catalog)
    (txs : List Transaction) (e : SocketEff) :
    Moment.answeredBy ⟨txs, [], e, answerIn other (c.commitAll txs) e⟩ c := by
  cases e with
  | io e =>
      cases e with
      | selectVoice tenant voiceId =>
          cases voiceId with
          | str slug => exact looked_getAccessible _ _ _
          | _ => rfl
      | selectConsent id =>
          simp only [Moment.answeredBy, Await.answered, answerIn, Moment.stop, List.append_nil]
      | _ => trivial
  | _ => trivial

/-- **A scheduled run is a run.** -/
theorem amid_attend {α : Type} (other : (e : SocketEff) → SocketAns e)
    (schedule : List (List Transaction)) (c : Catalog) (x : SocketPy α) :
    Amid x c (attend other schedule c x.run) := by
  suffices h : ∀ p : Prog SocketEff SocketAns (Except Exn α),
      p.Emits ((attend other schedule c p).map Await.answered) ∧
        Along (fun c t => t.stop c) (fun c t => t.answeredBy c) c (attend other schedule c p) from
    ⟨(h x.run).1, (h x.run).2⟩
  induction schedule generalizing c with
  | nil => intro p; cases p <;> exact ⟨trivial, trivial⟩
  | cons txs later ih =>
      intro p
      cases p with
      | ret a => exact ⟨trivial, trivial⟩
      | eff e k =>
          obtain ⟨hemits, hanswered⟩ := ih (c.commitAll txs) (k (answerIn other (c.commitAll txs) e))
          refine ⟨⟨_, rfl, hemits⟩, answerIn_answeredBy other c txs e, ?_⟩
          have hstop : c.commitAll (txs ++ []) = c.commitAll txs := by rw [List.append_nil]
          exact hstop ▸ hanswered

end NeuroVoice
