import NeuroVoice.Lib.Table

/-!
# NeuroVoice.Lib.Lineage

Where the rows of a table come from.

`Descends R new t t'` says that between two states of a table no row is lost, and
every row is one that was there, or a `new` one; `R` says what may have happened
to a row in between.  Statements are such steps, and steps compose.
-/

namespace NeuroVoice

variable {ρ : Type} {S : Schema ρ} {R : ρ → ρ → Prop} {new new' : ρ → Prop}

/-- Every row of `t` is still in `t'`, and every row of `t'` was in `t` or is a
new one, changes by `R` aside. -/
structure Descends (R : ρ → ρ → Prop) (new : ρ → Prop) (t t' : Table S) : Prop where
  kept : ∀ r ∈ t, ∃ r' ∈ t', R r r'
  origin : ∀ r' ∈ t', (∃ r ∈ t, R r r') ∨ ∃ r, new r ∧ R r r'

namespace Descends

variable {t t' t'' : Table S}

theorem refl (hR : ∀ r, R r r) (t : Table S) : Descends R new t t :=
  ⟨fun r hr => ⟨r, hr, hR r⟩, fun r hr => .inl ⟨r, hr, hR r⟩⟩

theorem trans (hR : ∀ r s u, R r s → R s u → R r u) (h : Descends R new t t')
    (h' : Descends R new t' t'') : Descends R new t t'' := by
  refine ⟨fun r hr => ?_, fun r'' hr'' => ?_⟩
  · obtain ⟨r', hr', hrr'⟩ := h.kept r hr
    obtain ⟨r'', hr'', hr'r''⟩ := h'.kept r' hr'
    exact ⟨r'', hr'', hR _ _ _ hrr' hr'r''⟩
  · obtain ⟨r', hr', hr'r''⟩ | hnew := h'.origin r'' hr''
    · obtain ⟨r, hr, hrr'⟩ | ⟨r, hr, hrr'⟩ := h.origin r' hr'
      · exact .inl ⟨r, hr, hR _ _ _ hrr' hr'r''⟩
      · exact .inr ⟨r, hr, hR _ _ _ hrr' hr'r''⟩
    · exact .inr hnew

theorem mono (h : Descends R new t t') (hnew : ∀ r, new r → new' r) : Descends R new' t t' :=
  ⟨h.kept, fun r' hr' => (h.origin r' hr').imp_right fun ⟨r, hr, hrr'⟩ => ⟨r, hnew r hr, hrr'⟩⟩

/-- `INSERT`. -/
theorem of_insert (hR : ∀ r, R r r) {r : ρ} (h : t.insert r = some t') :
    Descends R (· = r) t t' := by
  refine ⟨fun x hx => ⟨x, (Table.mem_insert h).2 (.inl hx), hR x⟩, fun x hx => ?_⟩
  obtain hx | rfl := (Table.mem_insert h).1 hx
  · exact .inl ⟨x, hx, hR x⟩
  · exact .inr ⟨x, rfl, hR x⟩

/-- `UPDATE`. -/
theorem of_modify (hR : ∀ r, R r r) {p : ρ → Bool} {f : ρ → ρ} (h : t.modify p f = some t')
    (hf : ∀ r, R r (f r)) : Descends R new t t' := by
  have hrow : ∀ r, R r (if p r then f r else r) := by
    intro r
    split
    · exact hf r
    · exact hR r
  refine ⟨fun r hr => ⟨_, (Table.mem_modify h).2 ⟨r, hr, rfl⟩, hrow r⟩, fun x hx => ?_⟩
  obtain ⟨r, hr, rfl⟩ := (Table.mem_modify h).1 hx
  exact .inl ⟨r, hr, hrow r⟩

end Descends

end NeuroVoice
