import Mathlib.Logic.Function.Basic
import Mathlib.Data.List.Basic

/-!
# NeuroVoice.Lib.TxTable

A table under READ COMMITTED transactions with row locks.

A `TxTable K V` holds the committed rows and the writes that open
transactions have flushed but not committed.  A transaction reads its own
writes over the committed rows (`read`), must hold a row's lock to write it
(`free`), and publishes all its writes at once (`commit`) or drops them
(`rollback`).  Callers write a row only when it is `free`, which keeps the
table `Exclusive`: no row has uncommitted writes of two transactions.

Everything is stated through `own o k`, the newest uncommitted write of
transaction `o` to row `k`: the operations act on it pointwise (`own_put`,
`own_rollback`, `own_commit`), so the list of writes never shows up in a
proof that uses the table.
-/

namespace NeuroVoice

/-- A flushed, uncommitted write: `none` deletes the row. -/
structure Write (K V : Type) where
  owner : Nat
  key : K
  value : Option V

/-- Committed rows, and the uncommitted writes of every open transaction,
newest first. -/
structure TxTable (K V : Type) where
  rows : K → Option V
  pending : List (Write K V)

namespace TxTable

variable {K V : Type}

/-- The table with no open transaction. -/
def ofRows (rows : K → Option V) : TxTable K V := ⟨rows, []⟩

/-- Flush a write of `o`. -/
def put (t : TxTable K V) (o : Nat) (k : K) (v : Option V) : TxTable K V :=
  { t with pending := ⟨o, k, v⟩ :: t.pending }

/-- Drop the uncommitted writes of `o`. -/
def rollback (t : TxTable K V) (o : Nat) : TxTable K V :=
  { t with pending := t.pending.filter fun w => w.owner ≠ o }

@[simp] theorem rows_ofRows (rows : K → Option V) : (ofRows rows).rows = rows := rfl

@[simp] theorem rows_put (t : TxTable K V) (o : Nat) (k : K) (v : Option V) :
    (t.put o k v).rows = t.rows := rfl

@[simp] theorem rows_rollback (t : TxTable K V) (o : Nat) : (t.rollback o).rows = t.rows := rfl

variable [DecidableEq K]

/-- The newest uncommitted write of `o` to `k`: the value it leaves. -/
def own (t : TxTable K V) (o : Nat) (k : K) : Option (Option V) :=
  (t.pending.find? fun w => w.owner = o ∧ w.key = k).map Write.value

/-- What transaction `o` sees in row `k`. -/
def read (t : TxTable K V) (o : Nat) (k : K) : Option V :=
  (t.own o k).getD (t.rows k)

/-- No other transaction holds the lock of row `k`. -/
def free (t : TxTable K V) (o : Nat) (k : K) : Bool :=
  t.pending.all fun w => w.owner = o ∨ w.key ≠ k

/-- Publish the uncommitted writes of `o`. -/
def commit (t : TxTable K V) (o : Nat) : TxTable K V :=
  { rows := t.read o, pending := (t.rollback o).pending }

/-! ## what each operation changes -/

@[simp] theorem own_ofRows (rows : K → Option V) (o : Nat) (k : K) :
    (ofRows rows).own o k = none := rfl

@[simp] theorem rows_commit (t : TxTable K V) (o : Nat) : (t.commit o).rows = t.read o := rfl

/-- A write is the newest one of its transaction to its row. -/
@[simp] theorem own_put (t : TxTable K V) (o o' : Nat) (k k' : K) (v : Option V) :
    (t.put o k v).own o' k' = if o = o' ∧ k = k' then some v else t.own o' k' := by
  by_cases h : o = o' ∧ k = k'
  · simp [own, put, h]
  · simp [own, put, h]

/-- A rollback forgets the writes of its transaction and no other. -/
@[simp] theorem own_rollback (t : TxTable K V) (o o' : Nat) (k : K) :
    (t.rollback o).own o' k = if o = o' then none else t.own o' k := by
  by_cases h : o = o'
  · subst h
    rw [if_pos rfl]
    simp only [own, rollback, Option.map_eq_none_iff, List.find?_eq_none, List.mem_filter,
      decide_eq_true_eq]
    exact fun w hw hc => hw.2 hc.1
  · rw [if_neg h]
    simp only [own, rollback, List.find?_filter]
    congr 2
    funext w
    by_cases hw : w.owner = o' <;> grind

/-- A commit closes its transaction and leaves the others open. -/
@[simp] theorem own_commit (t : TxTable K V) (o o' : Nat) (k : K) :
    (t.commit o).own o' k = if o = o' then none else t.own o' k :=
  own_rollback t o o' k

/-- A row is free for `o` when no other transaction has written it. -/
theorem free_iff (t : TxTable K V) (o : Nat) (k : K) :
    t.free o k = true ↔ ∀ o', o' ≠ o → t.own o' k = none := by
  simp only [free, List.all_eq_true, decide_eq_true_eq, own, Option.map_eq_none_iff,
    List.find?_eq_none]
  constructor
  · rintro h o' ho w hw ⟨rfl, hk⟩
    rcases h w hw with h | h
    · exact ho h
    · exact h hk
  · intro h w hw
    by_cases ho : w.owner = o
    · exact .inl ho
    · exact .inr fun hk => h w.owner ho w hw ⟨rfl, hk⟩

/-- A transaction that has not written a row sees the committed one. -/
theorem read_of_own_none {t : TxTable K V} {o : Nat} {k : K} (h : t.own o k = none) :
    t.read o k = t.rows k := by
  simp [read, h]

/-- A transaction that has written a row sees what it wrote. -/
theorem read_of_own_some {t : TxTable K V} {o : Nat} {k : K} {v : Option V}
    (h : t.own o k = some v) : t.read o k = v := by
  simp [read, h]

/-- What a transaction sees after a write of its own. -/
@[simp] theorem read_put (t : TxTable K V) (o : Nat) (k k' : K) (v : Option V) :
    (t.put o k v).read o k' = if k = k' then v else t.read o k' := by
  by_cases h : k = k'
  · simp [read, h]
  · simp [read, h]

/-- … after a rollback … -/
@[simp] theorem read_rollback (t : TxTable K V) (o : Nat) (k : K) :
    (t.rollback o).read o k = t.rows k := by
  simp [read]

/-- … and after a commit: the committed rows. -/
@[simp] theorem read_commit (t : TxTable K V) (o : Nat) (k : K) :
    (t.commit o).read o k = t.read o k := by
  rw [read, own_commit, if_pos rfl]
  rfl

/-! ## exclusive locks -/

/-- No row has uncommitted writes of two transactions. -/
def Exclusive (t : TxTable K V) : Prop :=
  ∀ o o' k, (t.own o k).isSome → (t.own o' k).isSome → o = o'

theorem exclusive_ofRows (rows : K → Option V) : (ofRows rows).Exclusive := by
  intro o o' k h
  simp at h

/-- Writing a free row keeps the locks exclusive. -/
theorem Exclusive.put {t : TxTable K V} (h : t.Exclusive) {o : Nat} {k : K}
    (hf : t.free o k = true) (v : Option V) : (t.put o k v).Exclusive := by
  rw [free_iff] at hf
  intro a b j ha hb
  rw [own_put] at ha hb
  by_cases hao : o = a ∧ k = j <;> by_cases hbo : o = b ∧ k = j
  · exact hao.1.symm.trans hbo.1
  · rw [if_neg hbo] at hb
    obtain ⟨rfl, rfl⟩ := hao
    by_contra hne
    simp [hf b (Ne.symm hne)] at hb
  · rw [if_neg hao] at ha
    obtain ⟨rfl, rfl⟩ := hbo
    by_contra hne
    simp [hf a hne] at ha
  · rw [if_neg hao] at ha
    rw [if_neg hbo] at hb
    exact h a b j ha hb

theorem Exclusive.rollback {t : TxTable K V} (h : t.Exclusive) (o : Nat) :
    (t.rollback o).Exclusive := by
  intro a b j ha hb
  rw [own_rollback] at ha hb
  split at ha
  · simp at ha
  · split at hb
    · simp at hb
    · exact h a b j ha hb

theorem Exclusive.commit {t : TxTable K V} (h : t.Exclusive) (o : Nat) :
    (t.commit o).Exclusive := by
  intro a b j ha hb
  rw [own_commit, ← own_rollback] at ha hb
  exact h.rollback o a b j ha hb

/-- A row that one transaction has written is not changed by the commit of
another. -/
theorem Exclusive.rows_commit {t : TxTable K V} (h : t.Exclusive) {o o' : Nat} {k : K}
    (ho : (t.own o k).isSome) (hne : o' ≠ o) : (t.commit o').rows k = t.rows k := by
  refine read_of_own_none ?_
  by_contra hc
  exact hne (h o' o k (Option.isSome_iff_ne_none.2 hc) ho)

/-! ## what holds of every row -/

/-- Every row, committed or not, satisfies `P`. -/
def Each (P : K → V → Prop) (t : TxTable K V) : Prop :=
  (∀ k v, t.rows k = some v → P k v) ∧ ∀ o k v, t.own o k = some (some v) → P k v

section each

variable {P Q : K → V → Prop} {t : TxTable K V}

theorem each_ofRows {rows : K → Option V} (h : ∀ k v, rows k = some v → P k v) :
    (ofRows rows).Each P :=
  ⟨h, fun o k v hv => by simp at hv⟩

theorem Each.mono (h : t.Each P) (hPQ : ∀ k v, P k v → Q k v) : t.Each Q :=
  ⟨fun k v hv => hPQ k v (h.1 k v hv), fun o k v hv => hPQ k v (h.2 o k v hv)⟩

/-- What a transaction sees is a row. -/
theorem Each.read (h : t.Each P) {o : Nat} {k : K} {v : V} (hv : t.read o k = some v) :
    P k v := by
  cases hown : t.own o k with
  | none => exact h.1 k v (by rwa [read_of_own_none hown] at hv)
  | some w =>
      rw [read_of_own_some hown] at hv
      exact h.2 o k v (hown.trans (congrArg some hv))

theorem Each.put (h : t.Each P) {o : Nat} {k : K} {v : V} (hv : P k v) :
    (t.put o k (some v)).Each P := by
  refine ⟨h.1, fun o' k' v' hv' => ?_⟩
  rw [own_put] at hv'
  split at hv'
  · next hk =>
      cases hv'
      exact hk.2 ▸ hv
  · exact h.2 o' k' v' hv'

theorem Each.rollback (h : t.Each P) (o : Nat) : (t.rollback o).Each P := by
  refine ⟨h.1, fun o' k v hv => ?_⟩
  rw [own_rollback] at hv
  split at hv
  · cases hv
  · exact h.2 o' k v hv

theorem Each.commit (h : t.Each P) (o : Nat) : (t.commit o).Each P :=
  ⟨fun _ _ hv => h.read hv, (h.rollback o).2⟩

end each

end TxTable

end NeuroVoice
