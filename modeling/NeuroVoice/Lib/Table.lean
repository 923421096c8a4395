import Mathlib.Data.List.Pairwise

/-!
# NeuroVoice.Lib.Table

Relational tables with constraints.

A `Schema` says which two rows cannot both be there (the unique keys) and
which rows pass the checks; a `Table` is a list of rows that satisfies it, so
a table that violates a constraint cannot be written down.  Statements go
through `ofRows`, which is what a database does with a statement: perform it
if the outcome is a table, refuse it otherwise.
-/

namespace NeuroVoice

/-- The constraints of a table. -/
structure Schema (ρ : Type) where
  clash : ρ → ρ → Bool
  check : ρ → Bool
  clash_symm : ∀ r s, clash r s = clash s r

/-- Rows that satisfy the constraints. -/
structure Table {ρ : Type} (S : Schema ρ) where
  rows : List ρ
  apart : rows.Pairwise fun r s => S.clash r s = false
  checked : ∀ r ∈ rows, S.check r = true

namespace Table

variable {ρ : Type} {S : Schema ρ}

instance : Membership ρ (Table S) := ⟨fun t r => r ∈ t.rows⟩

@[simp] theorem mem_rows {t : Table S} {r : ρ} : r ∈ t.rows ↔ r ∈ t := Iff.rfl

instance [DecidableEq ρ] (r : ρ) (t : Table S) : Decidable (r ∈ t) :=
  inferInstanceAs (Decidable (r ∈ t.rows))

/-- The empty table. -/
def empty : Table S := ⟨[], .nil, by simp⟩

@[simp] theorem not_mem_empty (r : ρ) : r ∉ (empty : Table S) := List.not_mem_nil

/-- The table with these rows, unless a constraint is violated. -/
def ofRows (rows : List ρ) : Option (Table S) :=
  if h : (rows.Pairwise fun r s => S.clash r s = false) ∧ ∀ r ∈ rows, S.check r = true then
    some ⟨rows, h.1, h.2⟩
  else none

/-- `INSERT`. -/
def insert (t : Table S) (r : ρ) : Option (Table S) := ofRows (t.rows ++ [r])

/-- `UPDATE … WHERE p`. -/
def modify (t : Table S) (p : ρ → Bool) (f : ρ → ρ) : Option (Table S) :=
  ofRows (t.rows.map fun r => if p r then f r else r)

/-- `DELETE … WHERE p`. -/
def erase (t : Table S) (p : ρ → Bool) : Table S where
  rows := t.rows.filter fun r => !p r
  apart := t.apart.sublist List.filter_sublist
  checked := fun r hr => t.checked r (List.mem_filter.1 hr).1

/-- `SELECT … WHERE p`, for a condition that meets at most one row. -/
def find? (t : Table S) (p : ρ → Bool) : Option ρ := t.rows.find? p

theorem ofRows_eq_some {rows : List ρ} {t : Table S} (h : ofRows rows = some t) :
    t.rows = rows := by
  unfold ofRows at h
  split at h
  · cases h; rfl
  · cases h

/-- A statement is refused only for a violated constraint. -/
theorem ofRows_isSome {rows : List ρ} :
    (ofRows (S := S) rows).isSome ↔
      (rows.Pairwise fun r s => S.clash r s = false) ∧ ∀ r ∈ rows, S.check r = true := by
  unfold ofRows
  split
  · next h => simpa using h
  · next h => simpa using h

/-! ## membership after a statement -/

theorem mem_insert {t t' : Table S} {r x : ρ} (h : t.insert r = some t') :
    x ∈ t' ↔ x ∈ t ∨ x = r := by
  rw [← mem_rows, ofRows_eq_some h]
  simp

theorem mem_modify {t t' : Table S} {p : ρ → Bool} {f : ρ → ρ} {x : ρ}
    (h : t.modify p f = some t') :
    x ∈ t' ↔ ∃ r ∈ t, (if p r then f r else r) = x := by
  rw [← mem_rows, ofRows_eq_some h, List.mem_map]
  simp

@[simp] theorem mem_erase {t : Table S} {p : ρ → Bool} {x : ρ} :
    x ∈ t.erase p ↔ x ∈ t ∧ p x = false := by
  rw [← mem_rows]
  simp [erase]

/-! ## what is refused -/

/-- Rows that clash are one row. -/
theorem eq_of_clash {t : Table S} {r s : ρ} (hr : r ∈ t) (hs : s ∈ t)
    (h : S.clash r s = true) : r = s := by
  by_contra hne
  have hsymm : Std.Symm fun r s : ρ => S.clash r s = false := by
    constructor
    intro x y hxy
    rwa [S.clash_symm]
  have := t.apart.forall hr hs hne
  simp [h] at this

/-- An `INSERT` is refused for a failed check or a clash with a row. -/
theorem insert_isSome {t : Table S} {r : ρ} :
    (t.insert r).isSome ↔ (∀ x ∈ t, S.clash x r = false) ∧ S.check r = true := by
  unfold insert
  rw [ofRows_isSome, List.pairwise_append]
  constructor
  · rintro ⟨⟨-, -, hclash⟩, hcheck⟩
    exact ⟨fun x hx => hclash x hx r (by simp), hcheck r (by simp)⟩
  · rintro ⟨hclash, hcheck⟩
    refine ⟨⟨t.apart, by simp, ?_⟩, ?_⟩
    · intro x hx y hy
      rw [List.mem_singleton.1 hy]
      exact hclash x hx
    · intro x hx
      rcases List.mem_append.1 hx with hx | hx
      · exact t.checked x hx
      · rw [List.mem_singleton.1 hx]; exact hcheck

/-- An `UPDATE` that leaves the unique keys alone is refused only for a
failed check. -/
theorem modify_isSome {t : Table S} {p : ρ → Bool} {f : ρ → ρ}
    (hkey : ∀ r s, S.clash (if p r then f r else r) (if p s then f s else s) = S.clash r s) :
    (t.modify p f).isSome ↔ ∀ r ∈ t, p r = true → S.check (f r) = true := by
  unfold modify
  rw [ofRows_isSome, List.pairwise_map]
  simp only [hkey, List.forall_mem_map, mem_rows]
  constructor
  · rintro ⟨-, h⟩ r hr hp
    have := h r hr
    rwa [if_pos hp] at this
  · intro h
    refine ⟨t.apart, fun r hr => ?_⟩
    by_cases hp : p r = true
    · rw [if_pos hp]; exact h r hr hp
    · rw [if_neg hp]; exact t.checked r hr

/-! ## lookups -/

theorem find?_eq_some {t : Table S} {p : ρ → Bool} {r : ρ} (h : t.find? p = some r) :
    r ∈ t ∧ p r = true :=
  ⟨List.mem_of_find?_eq_some h, List.find?_some h⟩

theorem find?_eq_none {t : Table S} {p : ρ → Bool} :
    t.find? p = none ↔ ∀ r ∈ t, p r = false := by
  unfold find?
  rw [List.find?_eq_none]
  simp

/-- A lookup by a key finds the row with that key. -/
theorem find?_of_mem {t : Table S} {p : ρ → Bool} {r : ρ} (hr : r ∈ t) (hp : p r = true)
    (hkey : ∀ s, p s = true → S.clash r s = true) : t.find? p = some r := by
  cases h : t.find? p with
  | none =>
      have := find?_eq_none.1 h r hr
      simp [hp] at this
  | some s =>
      obtain ⟨hs, hps⟩ := find?_eq_some h
      rw [eq_of_clash hr hs (hkey s hps)]

end Table

end NeuroVoice
