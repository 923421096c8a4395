import NeuroVoice.Lib.Table
import NeuroVoice.Lib.Timeline

/-!
# NeuroVoice.Lib.TwoRuns

Two runs, side by side.

`InStep I R x y` says that from `I`-related states the computations `x` and
`y` fail with the same error, or end in `I`-related states and return
`R`-related results.  With an `I` that ignores a part of the state, this is
noninterference of that part, and it is proved along the text of the
computations.

The tables of two runs are related by a `Relabelling` of rows.  It keeps what
the constraints look at, so a statement is refused in both runs or in neither.
-/

namespace NeuroVoice

variable {σ σ' ε α α' β β' : Type}

/-! ## computations -/

/-- Both fail with the same error, or both succeed. -/
inductive Agree (I : σ → σ' → Prop) (R : α → α' → Prop) :
    Except ε (α × σ) → Except ε (α' × σ') → Prop where
  | error (e : ε) : Agree I R (.error e) (.error e)
  | ok {a : α} {a' : α'} {s : σ} {s' : σ'} (result : R a a') (state : I s s') :
      Agree I R (.ok (a, s)) (.ok (a', s'))

/-- The computations agree from related states. -/
def InStep (I : σ → σ' → Prop) (R : α → α' → Prop) (x : StateT σ (Except ε) α)
    (y : StateT σ' (Except ε) α') : Prop :=
  ∀ s s', I s s' → Agree I R (x s) (y s')

namespace InStep

variable {I : σ → σ' → Prop} {R : α → α' → Prop} {Q : β → β' → Prop}

theorem ret {a : α} {a' : α'} (h : R a a') :
    InStep I R (pure a : StateT σ (Except ε) α) (pure a' : StateT σ' (Except ε) α') := by
  intro s s' hs
  exact .ok h hs

theorem raise (e : ε) :
    InStep I R (throw e : StateT σ (Except ε) α) (throw e : StateT σ' (Except ε) α') := by
  intro s s' _
  exact .error e

/-- What comes after an error has no say. -/
theorem raise_bind (e : ε) (k : α → StateT σ (Except ε) β) (k' : α' → StateT σ' (Except ε) β') :
    InStep I Q (throw e >>= k) (throw e >>= k') := by
  intro s s' _
  exact .error e

/-- The rule of sequences. -/
theorem bind {x : StateT σ (Except ε) α} {y : StateT σ' (Except ε) α'}
    {k : α → StateT σ (Except ε) β} {k' : α' → StateT σ' (Except ε) β'}
    (hx : InStep I R x y) (hk : ∀ a a', R a a' → InStep I Q (k a) (k' a')) :
    InStep I Q (x >>= k) (y >>= k') := by
  intro s s' hs
  change Agree I Q (x s >>= fun r => k r.1 r.2) (y s' >>= fun r => k' r.1 r.2)
  have hboth := hx s s' hs
  generalize x s = r at hboth ⊢
  generalize y s' = r' at hboth ⊢
  cases hboth with
  | error e => exact .error e
  | ok result state => exact hk _ _ result _ _ state

/-- The rule of sequences whose first part returns the same. -/
theorem bind_eq {x : StateT σ (Except ε) α} {y : StateT σ' (Except ε) α}
    {k : α → StateT σ (Except ε) β} {k' : α → StateT σ' (Except ε) β'} (hx : InStep I Eq x y)
    (hk : ∀ a, InStep I Q (k a) (k' a)) : InStep I Q (x >>= k) (y >>= k') :=
  hx.bind fun a _ h => h ▸ hk a

end InStep

/-! ## tables -/

/-- A relabelling of rows that the constraints do not notice. -/
structure Relabelling {ρ : Type} (S : Schema ρ) where
  row : ρ → ρ
  clash : ∀ r s, S.clash (row r) (row s) = S.clash r s
  check : ∀ r, S.check (row r) = S.check r

namespace Table

variable {ρ : Type} {S : Schema ρ}

/-- A table is its rows. -/
theorem eq_of_rows {t t' : Table S} (h : t.rows = t'.rows) : t = t' := by
  cases t
  cases t'
  cases h
  rfl

/-- The table with its rows relabelled. -/
def relabel (g : Relabelling S) (t : Table S) : Table S where
  rows := t.rows.map g.row
  apart := by simpa only [List.pairwise_map, g.clash] using t.apart
  checked := by simpa only [List.forall_mem_map, g.check] using t.checked

variable {g : Relabelling S} {t : Table S} {p : ρ → Bool}

@[simp] theorem rows_relabel : (t.relabel g).rows = t.rows.map g.row := rfl

theorem ofRows_relabel (rows : List ρ) :
    ofRows (rows.map g.row) = (ofRows rows).map (relabel g) := by
  unfold ofRows
  simp only [List.pairwise_map, List.forall_mem_map, g.clash, g.check]
  split <;> rfl

theorem insert_relabel (r : ρ) :
    (t.relabel g).insert (g.row r) = (t.insert r).map (relabel g) := by
  simp only [insert, ← ofRows_relabel, rows_relabel, List.map_append, List.map_cons, List.map_nil]

theorem modify_relabel {w w' : ρ → ρ} (hp : ∀ r, p (g.row r) = p r)
    (hw : ∀ r, w' (g.row r) = g.row (w r)) :
    (t.relabel g).modify p w' = (t.modify p w).map (relabel g) := by
  simp only [modify, ← ofRows_relabel, rows_relabel, List.map_map]
  congr 1
  refine List.map_congr_left fun r _ => ?_
  simp only [Function.comp_apply, hp, hw]
  split <;> rfl

theorem erase_relabel (hp : ∀ r, p (g.row r) = p r) :
    (t.relabel g).erase p = (t.erase p).relabel g := by
  simp only [erase, relabel, List.filter_map, Function.comp_def, hp]

theorem find?_relabel (hp : ∀ r, p (g.row r) = p r) :
    (t.relabel g).find? p = (t.find? p).map g.row := by
  simp only [find?, rows_relabel, List.find?_map, Function.comp_def, hp]

end Table

/-! ## notes -/

/-- Two observers whose notes stay related see the same law kept. -/
theorem Along.iff_map {γ η δ δ' : Type} {note : γ → δ → γ} {note' : η → δ' → η}
    {P : γ → δ → Prop} {P' : η → δ' → Prop} (I : γ → η → Prop) (h : δ → δ')
    (hP : ∀ g g' t, I g g' → (P g t ↔ P' g' (h t)))
    (hnote : ∀ g g' t, I g g' → I (note g t) (note' g' (h t))) {g : γ} {g' : η} (hI : I g g')
    (ts : List δ) : Along note P g ts ↔ Along note' P' g' (ts.map h) := by
  induction ts generalizing g g' with
  | nil => exact Iff.rfl
  | cons t ts ih => exact and_congr (hP g g' t hI) (ih (hnote g g' t hI))

end NeuroVoice
