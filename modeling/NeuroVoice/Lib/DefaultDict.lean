import Mathlib.Data.List.Nodup

/-!
# NeuroVoice.Lib.DefaultDict

A dictionary in the order of insertion whose missing keys read as a default.

`update` is `d[k] = f(d[k])`.  A fold of updates is read through `get_update`,
and `mem_keys_update` says which keys it leaves; dictionaries nest.
-/

namespace NeuroVoice

/-- Entries with distinct keys, in the order of insertion. -/
structure DefaultDict (K V : Type) where
  entries : List (K × V)
  distinct : (entries.map Prod.fst).Nodup

namespace DefaultDict

variable {K V : Type}

theorem distinct_nil : (([] : List (K × V)).map Prod.fst).Nodup := .nil

/-- `{}`. -/
def empty : DefaultDict K V := ⟨[], distinct_nil⟩

/-- The keys. -/
def keys (d : DefaultDict K V) : List K := d.entries.map Prod.fst

@[simp] theorem keys_empty : (empty : DefaultDict K V).keys = [] := rfl

variable [DecidableEq K]

/-- `d.get(k, default)`. -/
def get (d : DefaultDict K V) (k : K) (default : V) : V :=
  ((d.entries.find? fun e => e.1 = k).map Prod.snd).getD default

/-- An update on the entries. -/
def updateEntries (k : K) (default : V) (f : V → V) : List (K × V) → List (K × V)
  | [] => [(k, f default)]
  | e :: es => if e.1 = k then (k, f e.2) :: es else e :: updateEntries k default f es

theorem mem_keys_updateEntries {k k' : K} {default : V} {f : V → V} {es : List (K × V)} :
    k' ∈ (updateEntries k default f es).map Prod.fst ↔ k' = k ∨ k' ∈ es.map Prod.fst := by
  induction es with
  | nil => simp [updateEntries]
  | cons e es ih =>
      rw [updateEntries]
      split
      · next hk => simp [hk]
      · rw [List.map_cons, List.mem_cons, ih, List.map_cons, List.mem_cons]
        exact or_left_comm

theorem nodup_updateEntries {k : K} {default : V} {f : V → V} {es : List (K × V)}
    (h : (es.map Prod.fst).Nodup) : ((updateEntries k default f es).map Prod.fst).Nodup := by
  induction es with
  | nil => simp [updateEntries]
  | cons e es ih =>
      rw [List.map_cons, List.nodup_cons] at h
      rw [updateEntries]
      split
      · next hk =>
          rw [List.map_cons, List.nodup_cons, ← hk]
          exact h
      · next hk =>
          rw [List.map_cons, List.nodup_cons, mem_keys_updateEntries, not_or]
          exact ⟨⟨hk, h.1⟩, ih h.2⟩

/-- `d[k] = f(d[k])`. -/
def update (d : DefaultDict K V) (k : K) (default : V) (f : V → V) : DefaultDict K V where
  entries := updateEntries k default f d.entries
  distinct := nodup_updateEntries d.distinct

/-- `d[k] = v`. -/
def set (d : DefaultDict K V) (k : K) (v : V) : DefaultDict K V := d.update k v fun _ => v

variable {d : DefaultDict K V} {k k' : K} {default v : V} {f : V → V}

@[simp] theorem get_empty : (empty : DefaultDict K V).get k default = default := rfl

@[simp] theorem mem_keys_update : k' ∈ (d.update k default f).keys ↔ k' = k ∨ k' ∈ d.keys :=
  mem_keys_updateEntries

theorem find?_updateEntries (es : List (K × V)) :
    ((updateEntries k default f es).find? fun e => e.1 = k').map Prod.snd =
      if k' = k then some (f (((es.find? fun e => e.1 = k).map Prod.snd).getD default))
      else (es.find? fun e => e.1 = k').map Prod.snd := by
  induction es with
  | nil =>
      by_cases hk : k' = k
      · simp [updateEntries, hk]
      · simp [updateEntries, hk, Ne.symm hk]
  | cons e es ih =>
      rw [updateEntries]
      by_cases he : e.1 = k
      · by_cases hk : k' = k
        · simp [he, hk]
        · simp [he, hk, Ne.symm hk]
      · by_cases hk : e.1 = k'
        · have hne : k' ≠ k := hk ▸ he
          simp [hk, hne]
        · rw [if_neg he, List.find?_cons_of_neg (by simpa using hk), ih,
            List.find?_cons_of_neg (by simpa using he), List.find?_cons_of_neg (by simpa using hk)]

/-- **What an update changes.** -/
theorem get_update : (d.update k default f).get k' default =
    if k' = k then f (d.get k default) else d.get k' default := by
  rw [get, update, find?_updateEntries]
  split
  · rfl
  · rfl

theorem get_set {v' : V} : (d.set k v).get k' v' = if k' = k then v else d.get k' v' := by
  rw [get, set, update, find?_updateEntries]
  split
  · rfl
  · rfl

/-- A missing key reads as the default. -/
theorem get_of_not_mem (h : k ∉ d.keys) : d.get k default = default := by
  have hnone : (d.entries.find? fun e => e.1 = k) = none := by
    rw [List.find?_eq_none]
    intro e he heq
    exact h (List.mem_map.2 ⟨e, he, by simpa using heq⟩)
  simp [get, hnone]

/-- An entry reads as its value. -/
theorem get_of_mem (h : (k, v) ∈ d.entries) (default : V) : d.get k default = v := by
  cases hfind : d.entries.find? fun e => e.1 = k with
  | none => simpa using List.find?_eq_none.1 hfind _ h
  | some e =>
      have hkey : e.1 = k := by simpa using List.find?_some hfind
      have hsame : e = (k, v) :=
        List.inj_on_of_nodup_map d.distinct (List.mem_of_find?_eq_some hfind) h hkey
      simp [get, hfind, hsame]

/-- A key has an entry with what it reads as. -/
theorem mem_entries (h : k ∈ d.keys) (default : V) : (k, d.get k default) ∈ d.entries := by
  obtain ⟨e, he, rfl⟩ := List.mem_map.1 h
  rw [get_of_mem (show (e.1, e.2) ∈ d.entries from he)]
  exact he

end DefaultDict

end NeuroVoice
