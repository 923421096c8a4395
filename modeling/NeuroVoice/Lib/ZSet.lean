import Mathlib.Data.List.Sort

/-!
# NeuroVoice.Lib.ZSet

Sorted sets: members with a score, in the order of the scores.

What a reader counts are scores, so the lemmas are about the list of the
scores, up to permutation.
-/

namespace NeuroVoice

/-- Distinct members with their scores, lowest first. -/
structure ZSet (α : Type) where
  entries : List (α × Nat)
  nodup : (entries.map Prod.fst).Nodup
  sorted : entries.Pairwise fun x y => x.2 ≤ y.2

namespace ZSet

variable {α : Type}

/-- A key that does not exist. -/
def empty : ZSet α := ⟨[], .nil, .nil⟩

/-- The members. -/
def members (s : ZSet α) : List α := s.entries.map Prod.fst

/-- Their scores. -/
def scores (s : ZSet α) : List Nat := s.entries.map Prod.snd

/-- The order of the scores. -/
abbrev byScore (x y : α × Nat) : Prop := x.2 ≤ y.2

instance : Std.Total (α := α × Nat) byScore := ⟨fun x y => Nat.le_total x.2 y.2⟩

instance : IsTrans (α × Nat) byScore := ⟨fun _ _ _ h h' => Nat.le_trans h h'⟩

/-- `ZADD`: a member that is there gets the new score. -/
def zadd [DecidableEq α] (s : ZSet α) (score : Nat) (m : α) : ZSet α where
  entries := (s.entries.filter fun x => x.1 ≠ m).orderedInsert byScore (m, score)
  nodup := by
    have hperm := (List.perm_orderedInsert byScore (m, score)
      (s.entries.filter fun x => x.1 ≠ m)).map Prod.fst
    rw [hperm.nodup_iff, List.map_cons, List.nodup_cons]
    refine ⟨by simp, s.nodup.sublist ?_⟩
    exact List.filter_sublist.map _
  sorted := List.Pairwise.orderedInsert _ _ (s.sorted.sublist List.filter_sublist)

/-- `ZREMRANGEBYSCORE`, both ends included. -/
def zremrangebyscore (s : ZSet α) (lo hi : Int) : ZSet α where
  entries := s.entries.filter fun x => !(lo ≤ x.2 && x.2 ≤ hi)
  nodup := s.nodup.sublist (List.filter_sublist.map _)
  sorted := s.sorted.sublist List.filter_sublist

/-- `ZCARD`. -/
def zcard (s : ZSet α) : Nat := s.entries.length

/-- `ZRANGE 0 0 WITHSCORES`. -/
def zfirst (s : ZSet α) : Option (α × Nat) := s.entries.head?

@[simp] theorem members_empty : (empty : ZSet α).members = [] := rfl

@[simp] theorem scores_empty : (empty : ZSet α).scores = [] := rfl

theorem zcard_eq (s : ZSet α) : s.zcard = s.scores.length := (List.length_map _).symm

theorem perm_zadd [DecidableEq α] {s : ZSet α} {m : α} (h : m ∉ s.members) (score : Nat) :
    (s.zadd score m).entries.Perm ((m, score) :: s.entries) := by
  have hall : s.entries.filter (fun x => x.1 ≠ m) = s.entries := by
    rw [List.filter_eq_self]
    intro x hx
    have hne : x.1 ≠ m := by
      rintro rfl
      exact h (List.mem_map_of_mem hx)
    exact decide_eq_true hne
  have hperm := List.perm_orderedInsert byScore (m, score) (s.entries.filter fun x => x.1 ≠ m)
  rw [hall] at hperm
  unfold zadd
  simpa only [hall] using hperm

/-- A new member adds its score. -/
theorem scores_zadd [DecidableEq α] {s : ZSet α} {m : α} (h : m ∉ s.members) (score : Nat) :
    (s.zadd score m).scores.Perm (score :: s.scores) :=
  (perm_zadd h score).map Prod.snd

theorem mem_members_zadd [DecidableEq α] {s : ZSet α} {m x : α} {score : Nat}
    (h : x ∈ (s.zadd score m).members) : x = m ∨ x ∈ s.members := by
  obtain ⟨y, hy, rfl⟩ := List.mem_map.1 h
  have hperm := List.perm_orderedInsert byScore (m, score) (s.entries.filter fun x => x.1 ≠ m)
  obtain rfl | hy := List.mem_cons.1 (hperm.mem_iff.1 hy)
  · exact .inl rfl
  · exact .inr (List.mem_map_of_mem (List.mem_filter.1 hy).1)

@[simp] theorem scores_zremrangebyscore (s : ZSet α) (lo hi : Int) :
    (s.zremrangebyscore lo hi).scores =
      s.scores.filter fun t : Nat => !(lo ≤ t && t ≤ hi) := by
  simp only [scores, zremrangebyscore, List.filter_map]
  rfl

theorem mem_members_zremrangebyscore {s : ZSet α} {lo hi : Int} {x : α}
    (h : x ∈ (s.zremrangebyscore lo hi).members) : x ∈ s.members := by
  obtain ⟨y, hy, rfl⟩ := List.mem_map.1 h
  exact List.mem_map_of_mem (List.mem_filter.1 hy).1

/-- The first entry has the lowest score. -/
theorem zfirst_le {s : ZSet α} {x : α × Nat} (h : s.zfirst = some x) :
    x.2 ∈ s.scores ∧ ∀ t ∈ s.scores, x.2 ≤ t := by
  unfold zfirst at h
  have hsorted := s.sorted
  unfold scores
  cases hs : s.entries with
  | nil => rw [hs] at h; cases h
  | cons y ys =>
      rw [hs] at h hsorted
      obtain rfl : y = x := Option.some.inj h
      refine ⟨by simp, fun t ht => ?_⟩
      obtain ⟨z, hz, rfl⟩ := List.mem_map.1 ht
      obtain rfl | hz := List.mem_cons.1 hz
      · exact le_refl _
      · exact (List.pairwise_cons.1 hsorted).1 z hz

theorem zfirst_isSome {s : ZSet α} (h : 0 < s.zcard) : ∃ x, s.zfirst = some x := by
  unfold zcard at h
  unfold zfirst
  cases hs : s.entries with
  | nil => rw [hs] at h; exact absurd h (lt_irrefl 0)
  | cons y ys => exact ⟨y, rfl⟩

end ZSet

end NeuroVoice
