import Mathlib.Data.List.Nodup

/-!
# NeuroVoice.Lib.Members

Validating a record's members one after the other, and writing each into a
state as soon as it is accepted.

The state is given by a `Register`: what it means that a member is in force,
and how a member is written.  Such a pass is atomic exactly when nothing that
was accepted before a rejection changed the state: `settle_atomic_iff`.
-/

namespace NeuroVoice

/-- A state with a slot for each member. -/
structure Register (κ : Type) (α : κ → Type) (σ : Type) where
  put : (k : κ) → α k → σ → σ
  /-- The value is in force. -/
  holds : σ → (k : κ) → α k → Prop
  holds_put : ∀ s k a, holds (put k a s) k a
  holds_other : ∀ s j k a b, j ≠ k → (holds (put k a s) j b ↔ holds s j b)
  put_of_holds : ∀ s k a, holds s k a → put k a s = s

/-- What becomes of a member. -/
inductive Verdict (α C X : Type) where
  | accept (a : α)
  | reject (code : C)
  | raise (x : X)

namespace Register

variable {κ σ C X : Type} {α : κ → Type} (R : Register κ α σ)
  (judge : (k : κ) → Option (Verdict (α k) C X))

/-- The pass over the members: a rejected one ends it, with the state as it
is then. -/
def settle : List κ → σ → Except X (Except C Unit × σ)
  | [], s => .ok (.ok (), s)
  | k :: ks, s =>
      match judge k with
      | none => settle ks s
      | some (.accept a) => settle ks (R.put k a s)
      | some (.reject code) => .ok (.error code, s)
      | some (.raise x) => .error x

/-- The pass goes on behind the member. -/
def Passes (k : κ) : Prop := ∀ v, judge k = some v → ∃ a, v = .accept a

/-- The member is written, if there is one. -/
def write (s : σ) (k : κ) : σ :=
  match judge k with
  | some (.accept a) => R.put k a s
  | _ => s

/-- The pass ends without an exception, and a rejection leaves the state as it
was. -/
def Atomic (ks : List κ) (s : σ) : Prop :=
  ∃ r s', settle R judge ks s = .ok (r, s') ∧ ∀ code, r = .error code → s' = s

variable {R judge} {k : κ} {ks pre post : List κ} {s : σ}

theorem settle_append (hpre : ∀ j ∈ pre, Passes judge j) :
    settle R judge (pre ++ ks) s = settle R judge ks (pre.foldl (write R judge) s) := by
  induction pre generalizing s with
  | nil => rfl
  | cons j pre ih =>
      have hj := hpre j List.mem_cons_self
      have hrest := ih (s := write R judge s j) fun i hi => hpre i (List.mem_cons_of_mem _ hi)
      rw [List.foldl_cons, ← hrest, List.cons_append, settle, write]
      cases hv : judge j with
      | none => rfl
      | some v =>
          obtain ⟨a, rfl⟩ := hj v hv
          rfl

variable (judge) in
/-- Either every member passes, or there is a first one that does not. -/
theorem passes_or_first (ks : List κ) :
    (∀ j ∈ ks, Passes judge j) ∨
      ∃ pre k post, ks = pre ++ k :: post ∧ (∀ j ∈ pre, Passes judge j) ∧ ¬Passes judge k := by
  induction ks with
  | nil => exact .inl fun j hj => by cases hj
  | cons k ks ih =>
      by_cases hk : Passes judge k
      · rcases ih with hall | ⟨pre, i, post, rfl, hpre, hi⟩
        · refine .inl fun j hj => ?_
          rcases List.mem_cons.1 hj with rfl | hj
          · exact hk
          · exact hall j hj
        · refine .inr ⟨k :: pre, i, post, rfl, fun j hj => ?_, hi⟩
          rcases List.mem_cons.1 hj with rfl | hj
          · exact hk
          · exact hpre j hj
      · exact .inr ⟨[], k, ks, rfl, (fun j hj => by cases hj), hk⟩

theorem holds_write {j : κ} {b : α j} (h : j ≠ k) :
    R.holds (write R judge s k) j b ↔ R.holds s j b := by
  unfold write
  split
  · exact R.holds_other s j k _ b h
  · rfl

theorem holds_foldl {j : κ} {b : α j} (h : j ∉ pre) :
    R.holds (pre.foldl (write R judge) s) j b ↔ R.holds s j b := by
  induction pre generalizing s with
  | nil => rfl
  | cons k pre ih =>
      rw [List.mem_cons, not_or] at h
      exact (ih h.2).trans (holds_write h.1)

/-- Writing distinct members changes nothing exactly when all of them are in
force. -/
theorem foldl_write_eq_iff (hn : pre.Nodup) :
    pre.foldl (write R judge) s = s ↔
      ∀ j ∈ pre, ∀ a, judge j = some (.accept a) → R.holds s j a := by
  induction pre generalizing s with
  | nil => simp
  | cons k pre ih =>
      obtain ⟨hk, hn⟩ := List.nodup_cons.1 hn
      rw [List.foldl_cons]
      have hsame : (∀ a, judge k = some (.accept a) → R.holds s k a) → write R judge s k = s := by
        intro hheld
        unfold write
        split
        · next a ha => exact R.put_of_holds s k a (hheld a ha)
        · rfl
      constructor
      · intro heq
        have hheld : ∀ a, judge k = some (.accept a) → R.holds s k a := by
          intro a ha
          have hput : R.holds (write R judge s k) k a := by
            rw [write, ha]
            exact R.holds_put s k a
          exact heq ▸ (holds_foldl hk).2 hput
        rw [hsame hheld] at heq
        intro j hj a ha
        rcases List.mem_cons.1 hj with rfl | hj
        · exact hheld a ha
        · exact (ih hn).1 heq j hj a ha
      · intro hall
        rw [hsame (hall k List.mem_cons_self)]
        exact (ih hn).2 fun j hj => hall j (List.mem_cons_of_mem _ hj)

theorem takeWhile_eq [DecidableEq κ] (hk : k ∉ pre) :
    (pre ++ k :: post).takeWhile (fun j => j ≠ k) = pre := by
  have hpre : ∀ j ∈ pre, decide (j ≠ k) = true := fun j hj =>
    decide_eq_true fun h => hk (h ▸ hj)
  rw [List.takeWhile_append_of_pos hpre, List.takeWhile_cons_of_neg (by simp), List.append_nil]

theorem exists_split [DecidableEq κ] (hk : k ∈ ks) :
    ∃ post, ks = ks.takeWhile (fun j => j ≠ k) ++ k :: post := by
  obtain ⟨pre, post, rfl, hpre⟩ := List.eq_append_cons_of_mem hk
  exact ⟨post, by rw [takeWhile_eq hpre]⟩

/-- **Atomicity**: up to the first member that does not pass, nothing raises,
and what was accepted before a rejection was in force already. -/
theorem settle_atomic_iff [DecidableEq κ] (hn : ks.Nodup) :
    Atomic R judge ks s ↔
      ∀ k ∈ ks, (∀ j ∈ ks.takeWhile (fun j => j ≠ k), Passes judge j) →
        (∀ x, judge k ≠ some (.raise x)) ∧
          ∀ code, judge k = some (.reject code) →
            ∀ j ∈ ks.takeWhile (fun j => j ≠ k), ∀ a, judge j = some (.accept a) →
              R.holds s j a := by
  constructor
  · rintro ⟨r, s', hsettle, hkept⟩ k hk hpre
    obtain ⟨post, heq⟩ := exists_split hk
    have hahead : (ks.takeWhile fun j => j ≠ k).Nodup := hn.sublist (List.takeWhile_sublist _)
    rw [heq, settle_append hpre, settle] at hsettle
    refine ⟨fun x hx => ?_, fun code hcode => ?_⟩
    · rw [hx] at hsettle
      cases hsettle
    · rw [hcode] at hsettle
      cases hsettle
      exact (foldl_write_eq_iff hahead).1 (hkept code rfl)
  · intro hcond
    rcases passes_or_first judge ks with hall | ⟨pre, k, post, rfl, hpre, hk⟩
    · have hdone : settle R judge ks s = .ok (.ok (), ks.foldl (write R judge) s) := by
        have happ : settle R judge (ks ++ []) s = _ := settle_append hall
        rwa [List.append_nil] at happ
      exact ⟨_, _, hdone, fun code hc => by cases hc⟩
    · have hfirst := hcond k (by simp)
      have hnot : k ∉ pre := fun hj => (List.nodup_append.1 hn).2.2 k hj k List.mem_cons_self rfl
      rw [takeWhile_eq hnot] at hfirst
      obtain ⟨hraise, hreject⟩ := hfirst hpre
      cases hv : judge k with
      | none => exact absurd (fun v hv' => by simp [hv] at hv') hk
      | some v =>
          cases v with
          | accept a => exact absurd (fun v hv' => ⟨a, by simpa [hv, eq_comm] using hv'⟩) hk
          | raise x => exact absurd hv (hraise x)
          | reject code =>
              have hsame := (foldl_write_eq_iff (List.nodup_append.1 hn).1).2 (hreject code hv)
              refine ⟨.error code, s, ?_, fun _ _ => rfl⟩
              rw [settle_append hpre, hsame, settle, hv]

end Register

end NeuroVoice
