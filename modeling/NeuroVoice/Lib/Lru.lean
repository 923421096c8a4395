import Mathlib.Data.List.Nodup

/-!
# NeuroVoice.Lib.Lru

The order of recency.

A history is the list of the keys used so far, the last one first; `recent`
keeps the last use of each.  What a cache of `n` entries has to hold to evict
the least recently used one is the first `n` of them, and `take_touch_of_mem`
and `take_touch_of_not_mem` say how a use changes these.
-/

namespace NeuroVoice.Lru

variable {κ : Type} [BEq κ] [LawfulBEq κ] {k : κ} {l : List κ} {n : Nat}

/-- The order after a use of `k`. -/
def touch (k : κ) (l : List κ) : List κ := k :: l.filter (· != k)

/-- The distinct keys of a history, the last used first. -/
def recent (history : List κ) : List κ := history.foldr touch []

omit [LawfulBEq κ] in
@[simp] theorem recent_cons (k : κ) (history : List κ) :
    recent (k :: history) = touch k (recent history) := rfl

theorem nodup_touch (h : l.Nodup) : (touch k l).Nodup := by
  rw [touch, List.nodup_cons]
  exact ⟨by simp, h.filter _⟩

theorem nodup_recent (history : List κ) : (recent history).Nodup := by
  induction history with
  | nil => exact List.nodup_nil
  | cons k history ih => exact nodup_touch ih

/-- Without a key of the first entries there is room for one less of them. -/
theorem take_filter_of_mem (hl : l.Nodup) (h : k ∈ l.take (n + 1)) :
    (l.filter (· != k)).take n = (l.take (n + 1)).filter (· != k) := by
  induction l generalizing n with
  | nil => simp
  | cons x l ih =>
      obtain ⟨hx, hl⟩ := List.nodup_cons.1 hl
      rw [List.take_succ_cons] at h ⊢
      by_cases hk : x = k
      · subst hk
        have hall : ∀ y ∈ l, (y != x) = true := fun y hy => by
          simpa using fun heq : y = x => hx (heq ▸ hy)
        have htake : ∀ y ∈ l.take n, (y != x) = true := fun y hy =>
          hall y (List.mem_of_mem_take hy)
        simp [List.filter_eq_self.2 hall, List.filter_eq_self.2 htake]
      · have hmem : k ∈ l.take n := by
          simpa [Ne.symm hk] using h
        cases n with
        | zero => simp at hmem
        | succ n => simp [hk, ih hl hmem]

/-- Without a key of the later entries the first ones are the same. -/
theorem take_filter_of_not_mem (h : k ∉ l.take n) : (l.filter (· != k)).take n = l.take n := by
  induction l generalizing n with
  | nil => simp
  | cons x l ih =>
      cases n with
      | zero => simp
      | succ n =>
          simp only [List.take_succ_cons, List.mem_cons, not_or] at h
          simp [Ne.symm h.1, ih h.2]

/-- A use of one of the first entries. -/
theorem take_touch_of_mem (hl : l.Nodup) (h : k ∈ l.take n) :
    (touch k l).take n = touch k (l.take n) := by
  cases n with
  | zero => simp at h
  | succ n => rw [touch, List.take_succ_cons, take_filter_of_mem hl h, touch]

/-- A use of another key: the last of the first entries makes room. -/
theorem take_touch_of_not_mem (h : k ∉ l.take (n + 1)) :
    (touch k l).take (n + 1) = k :: (l.take (n + 1)).take n := by
  have hless : k ∉ l.take n := fun hk =>
    h (List.take_subset_take_left l (Nat.le_succ n) hk)
  rw [touch, List.take_succ_cons, take_filter_of_not_mem hless, List.take_take,
    Nat.min_eq_left (Nat.le_succ n)]

end NeuroVoice.Lru
