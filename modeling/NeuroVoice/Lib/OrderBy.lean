import Mathlib.Data.List.Basic

/-!
# NeuroVoice.Lib.OrderBy

What a query with `ORDER BY` can return.

Rows with equal keys come in any order, and not in the same order each time.
So the answer is any rearrangement that is sorted (`OrderedBy`); it is
determined when no two rows tie (`OrderedBy.unique`), and among rows that tie
any choice can come first (`exists_favoring`).
-/

namespace NeuroVoice

/-- `vs` is one of the answers to `SELECT rows ORDER BY le`. -/
structure OrderedBy {ρ : Type} (le : ρ → ρ → Bool) (rows vs : List ρ) : Prop where
  perm : vs.Perm rows
  sorted : vs.Pairwise fun a b => le a b = true

/-- A total preorder. -/
structure IsOrder {κ : Type} (le : κ → κ → Bool) : Prop where
  total : ∀ a b, le a b = true ∨ le b a = true
  trans : ∀ a b c, le a b = true → le b c = true → le a c = true

namespace OrderedBy

variable {ρ : Type} {le : ρ → ρ → Bool} {rows vs ws : List ρ}

theorem mem (h : OrderedBy le rows vs) {a : ρ} : a ∈ vs ↔ a ∈ rows := h.perm.mem_iff

/-- Without ties there is one answer. -/
theorem unique (hties : ∀ a ∈ rows, ∀ b ∈ rows, le a b = true → le b a = true → a = b)
    (hvs : OrderedBy le rows vs) (hws : OrderedBy le rows ws) : vs = ws :=
  List.Perm.eq_of_pairwise
    (fun a b ha hb => hties a (hvs.mem.1 ha) b (hws.mem.1 hb)) hvs.sorted hws.sorted
    (hvs.perm.trans hws.perm.symm)

/-- Sorting is an answer. -/
theorem mergeSort (hle : IsOrder le) (rows : List ρ) : OrderedBy le rows (rows.mergeSort le) where
  perm := List.mergeSort_perm rows le
  sorted := List.pairwise_mergeSort hle.trans (fun a b => by simpa using hle.total a b) rows

/-- An answer in which, of two rows that tie, the rows of `P` come first. -/
theorem exists_favoring (hle : IsOrder le) (rows : List ρ) (P : ρ → Bool) :
    ∃ vs, OrderedBy le rows vs ∧
      vs.Pairwise fun a b => le b a = true → P b = true → P a = true := by
  let le' := fun a b => le a b && (!le b a || P a || !P b)
  have hle' : IsOrder le' := by
    refine ⟨fun a b => ?_, fun a b c => ?_⟩
    · have htotal := hle.total a b
      cases hab : le a b <;> cases hba : le b a <;> cases ha : P a <;> cases hb : P b <;>
        simp_all [le']
    · have hab := hle.trans a b c
      have hbc := hle.trans b c a
      have hca := hle.trans c a b
      cases h₁ : le a b <;> cases h₂ : le b c <;> cases h₃ : le c a <;> cases ha : P a <;>
        cases hb : P b <;> cases hc : P c <;> simp_all [le']
  refine ⟨rows.mergeSort le', ⟨List.mergeSort_perm rows le', ?_⟩, ?_⟩
  · refine (mergeSort hle' rows).sorted.imp fun hab => ?_
    exact (Bool.and_eq_true_iff.1 hab).1
  · refine (mergeSort hle' rows).sorted.imp fun hab hba hb => ?_
    have hfavors := (Bool.and_eq_true_iff.1 hab).2
    simpa [hba, hb] using hfavors

/-- The first row with a property, when no other row has it. -/
theorem find?_eq_some (h : OrderedBy le rows vs) {p : ρ → Bool} {a : ρ} (ha : a ∈ rows)
    (hp : p a = true) (honly : ∀ b ∈ rows, p b = true → b = a) : vs.find? p = some a := by
  cases hfind : vs.find? p with
  | none =>
      have hnot := List.find?_eq_none.1 hfind a (h.mem.2 ha)
      exact absurd hp hnot
  | some b =>
      have hb := h.mem.1 (List.mem_of_find?_eq_some hfind)
      rw [honly b hb (List.find?_some hfind)]

/-- Any of the rows that tie can be the first one. -/
theorem exists_first (hle : IsOrder le) (p same : ρ → Bool) {a : ρ} (ha : a ∈ rows)
    (hp : p a = true) (hties : ∀ b ∈ rows, p b = true → le a b = true)
    (hsame : ∀ b ∈ rows, same b = true ↔ b = a) :
    ∃ vs, OrderedBy le rows vs ∧ vs.find? p = some a := by
  obtain ⟨vs, hvs, hfavors⟩ := exists_favoring hle rows same
  refine ⟨vs, hvs, ?_⟩
  cases hfind : vs.find? p with
  | none =>
      have hnot := List.find?_eq_none.1 hfind a (hvs.mem.2 ha)
      exact absurd hp hnot
  | some b =>
      obtain ⟨hpb, front, rest, rfl, hfront⟩ := List.find?_eq_some_iff_append.1 hfind
      have hb : b ∈ rows := hvs.mem.1 (by simp)
      have hnot : a ∉ front := fun hmem => by
        have hfree := hfront a hmem
        simp [hp] at hfree
      have hmem := hvs.mem.2 ha
      simp only [List.mem_append, List.mem_cons, hnot, false_or] at hmem
      obtain rfl | hlater := hmem
      · rfl
      · have hpair := (List.pairwise_cons.1 (List.pairwise_append.1 hfavors).2.1).1 a hlater
        rw [(hsame b hb).1 (hpair (hties b hb hpb) ((hsame a ha).2 rfl))]

end OrderedBy

end NeuroVoice
