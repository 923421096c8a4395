import NeuroVoice.Catalog.Lifecycle

/-!
# NeuroVoice.Catalog.Tombstone

What is done to a voice after its purge.

The operator's writes go through `get_by_id` and leave a purged row alone, or
touch no scrubbed column.  The owner's writes go through `get_owned`, which
does not look at `purged_at`, and one of them, `PATCH /v1/voices/{voice_id}`,
writes scrubbed columns: `tombstone_immutable`.
-/

namespace NeuroVoice

open VoiceRepo

/-! ## the operations -/

namespace VoiceRepo

/-- `set_release_status`: the status is looked at first. -/
def setReleaseStatus (tenant : Uuid) (slug status : PyStr) : Tx (Option Voice) := do
  match ReleaseStatus.ofStr? status with
  | none => throw (.foreign (.valueError "invalid release_status"))
  | some releaseStatus => writeOwned tenant slug fun v => { v with releaseStatus }

/-- `pin_eval`. -/
def pinEval (id : Uuid) (payload : Dict) : Tx (Option Voice) := do
  if !([py "schema_version", py "evaluated_at", py "metrics"].all
      fun k => (payload.get k).isSome) then
    throw (.foreign (.valueError "eval_metrics payload missing required keys"))
  match payload.get (py "metrics") with
  | some (.obj (_ :: _)) => writeUnpurged id fun v => { v with evalMetrics := some payload }
  | _ => throw (.foreign (.valueError "eval_metrics payload `metrics` must be a non-empty dict"))

end VoiceRepo

/-- The row with the watermark enabled, and bound to the key if one is
given. -/
def watermarked (key : Option Uuid) (v : Voice) : Voice :=
  { v with watermarkKeyId := key.or v.watermarkKeyId, watermarkEnabled := true }

/-- `admin_enable_voice_watermark`, with the answer of `get_active` for the
key; `none` is its 404. -/
def adminEnableVoiceWatermark (id : Uuid) (key : Option (Uuid × Bool)) : Tx (Option Voice) := do
  match ← Tx.query fun c => getById c id with
  | none => return none
  | some v =>
      match key with
      | some (_, false) => throw (.http 422 "watermark key is not active")
      | _ => do
          flushVoice v.id (watermarked (key.map Prod.fst))
          return some (watermarked (key.map Prod.fst) v)

/-- What pydantic checks of a `VoiceUpdateRequest`. -/
def VoiceRepo.MetadataPatch.isValid (p : MetadataPatch) : Bool :=
  (p.displayName.all fun s => 1 ≤ s.length && s.length ≤ 128) &&
    (p.description.all fun s => s.length ≤ 2048) && (p.previewUrl.all fun s => s.length ≤ 2048) &&
    p.visibility.all fun s => (Visibility.ofStr? s).isSome

/-- No field is given. -/
def VoiceRepo.MetadataPatch.isEmpty (p : MetadataPatch) : Bool :=
  p.displayName.isNone && p.description.isNone && p.labels.isNone && p.previewUrl.isNone &&
    p.voiceSettingsDefaults.isNone && p.styleTags.isNone && p.visibility.isNone

/-- `update_voice`: `PATCH /v1/voices/{voice_id}`. -/
def updateVoice (tenant : Uuid) (slug : PyStr) (p : MetadataPatch) : Tx Voice := do
  if !p.isValid then throw (.http 422 "body")
  else if !voiceIdMatches slug then throw (.http 400 "voice_id")
  else if p.isEmpty then
    throw (.http 400 "patch body is empty — provide at least one field")
  else
    match ← updateMetadata tenant slug p with
    | none => throw (.http 404 "voice not found")
    | some v => return v

/-- An operation of an owner or an operator. -/
inductive TombstoneOp where
  | update (tenant : Uuid) (slug : PyStr) (p : MetadataPatch)
  | setVisibility (tenant : Uuid) (slug visibility : PyStr)
  | setReleaseStatus (tenant : Uuid) (slug status : PyStr)
  | softDelete (tenant : Uuid) (slug : PyStr) (now : Nat)
  | freeze (id : Uuid) (now : Nat) (reason : PyStr) (purgeAfterDays : Option Nat)
  | unfreeze (id : Uuid)
  | schedulePurge (id : Uuid) (now afterDays : Nat)
  | pinEval (id : Uuid) (payload : Dict)
  | executePurge (id : Uuid) (now : Nat)
  | enableWatermark (id : Uuid) (key : Option (Uuid × Bool))

/-- The operation, in its session. -/
def TombstoneOp.run : TombstoneOp → Tx Unit
  | .update tenant slug p => do let _ ← updateVoice tenant slug p
  | .setVisibility tenant slug visibility => do
      let _ ← VoiceRepo.setVisibility tenant slug visibility
  | .setReleaseStatus tenant slug status => do
      let _ ← VoiceRepo.setReleaseStatus tenant slug status
  | .softDelete tenant slug now => do let _ ← VoiceRepo.softDelete tenant slug now
  | .freeze id now reason purgeAfterDays => do
      let _ ← VoiceRepo.freeze id now reason purgeAfterDays
  | .unfreeze id => do let _ ← VoiceRepo.unfreeze id
  | .schedulePurge id now afterDays => do let _ ← VoiceRepo.schedulePurge id now afterDays
  | .pinEval id payload => do let _ ← VoiceRepo.pinEval id payload
  | .executePurge id now => do let _ ← VoiceRepo.executePurge id now
  | .enableWatermark id key => do let _ ← adminEnableVoiceWatermark id key

/-- The catalog after the operation and its commit. -/
def TombstoneOp.apply (c : Catalog) (op : TombstoneOp) : Catalog := op.run.after c

/-! ## the law -/

/-- The scrubbed columns have their scrubbed values. -/
def scrubbed (v : Voice) : Bool :=
  v.referenceUri.isEmpty && v.referenceSha256 == List.replicate 64 0x30 && v.adapterUri.isNone &&
    v.adapterSha256.isNone && v.adapterType.isNone && v.displayName == py "[purged voice]" &&
    v.description.isNone && v.labels.isNone && v.previewUrl.isNone &&
    v.voiceSettingsDefaults.isNone && v.engineParams.isEmpty && v.evalMetrics.isNone

/-- The voice is a tombstone, and scrubbed. -/
def Entombed (c : Catalog) (id : Uuid) : Prop :=
  ∃ v ∈ c.voices, v.id = id ∧ v.purgedAt.isSome ∧ scrubbed v = true

/-- The patch writes no scrubbed column, or writes the scrubbed value. -/
def VoiceRepo.MetadataPatch.keepsScrubbed (p : MetadataPatch) : Bool :=
  p.displayName.all (· == py "[purged voice]") && p.description.isNone && p.labels.isNone &&
    p.previewUrl.isNone && p.voiceSettingsDefaults.isNone

/-- The operation is no `PATCH` of a scrubbed column of the voice. -/
def TombstoneOp.spares (id : Uuid) (c : Catalog) : TombstoneOp → Bool
  | .update tenant slug p =>
      (getOwned c tenant slug).all fun v => v.id != id || p.keepsScrubbed
  | _ => true

/-! ## what the writes keep -/

section writes

variable {c c' : Catalog} {id : Uuid} {f : Voice → Voice}

/-- A write that keeps tombstones. -/
structure KeepsScrubbed (f : Voice → Voice) : Prop where
  id : ∀ v, (f v).id = v.id
  purged : ∀ v, (f v).purgedAt = v.purgedAt
  scrubbed : ∀ v, NeuroVoice.scrubbed v = true → NeuroVoice.scrubbed (f v) = true

/-- The step lemma of the writes that keep tombstones. -/
theorem Entombed.write (h : Entombed c id) (hw : VoiceWrite f c c') (hf : KeepsScrubbed f) :
    Entombed c' id := by
  obtain rfl | ⟨p, t, hm, rfl⟩ := hw
  · exact h
  · obtain ⟨v, hv, hid, hpurged, hscrubbed⟩ := h
    refine ⟨if p v then f v else v, (Table.mem_modify hm).2 ⟨v, hv, rfl⟩, ?_⟩
    split
    · exact ⟨(hf.id v).trans hid, (hf.purged v).symm ▸ hpurged, hf.scrubbed v hscrubbed⟩
    · exact ⟨hid, hpurged, hscrubbed⟩

/-- The step lemma of the operator's guarded writes: a purged row is left
alone. -/
theorem Entombed.unpurged {k : Uuid} {r : Option Voice} (h : Entombed c id)
    (hrun : writeUnpurged k f c = .ok (r, c')) : Entombed c' id := by
  obtain ⟨-, -, rfl⟩ | ⟨w, hw, ⟨-, -, rfl⟩ | ⟨hopen, -, t, hm, rfl⟩⟩ := writeUnpurged_ok hrun
  · exact h
  · exact h
  · obtain ⟨v, hv, hid, hpurged, hscrubbed⟩ := h
    have hwv := (Table.find?_eq_some hw).1
    have hne : v.id ≠ w.id := by
      intro heq
      obtain rfl : v = w := Table.eq_of_clash hv hwv (by simp [voices, heq])
      rw [hopen] at hpurged
      cases hpurged
    exact ⟨v, (mem_written hwv hm).2 (.inr ⟨hv, hne⟩), hid, hpurged, hscrubbed⟩

/-- The step lemma of the owner's writes. -/
theorem Entombed.owned {tenant : Uuid} {slug : PyStr} {r : Option Voice} (h : Entombed c id)
    (hrun : writeOwned tenant slug f c = .ok (r, c'))
    (hf : ∀ v, getOwned c tenant slug = some v → v.id = id → scrubbed v = true →
      (f v).id = v.id ∧ (f v).purgedAt = v.purgedAt ∧ scrubbed (f v) = true) :
    Entombed c' id := by
  obtain ⟨-, -, rfl⟩ | ⟨w, t, hw, -, hm, rfl⟩ := writeOwned_ok hrun
  · exact h
  · obtain ⟨v, hv, hid, hpurged, hscrubbed⟩ := h
    have hwv := (getOwned_eq_some hw).1
    by_cases heq : v.id = w.id
    · obtain rfl : v = w := Table.eq_of_clash hv hwv (by simp [voices, heq])
      obtain ⟨hid', hpurged', hscrubbed'⟩ := hf v hw hid hscrubbed
      exact ⟨f v, (mem_written hwv hm).2 (.inl rfl), hid'.trans hid, hpurged' ▸ hpurged,
        hscrubbed'⟩
    · exact ⟨v, (mem_written hwv hm).2 (.inr ⟨hv, heq⟩), hid, hpurged, hscrubbed⟩

theorem scrubbed_apply {p : MetadataPatch} {v : Voice}
    (hp : p.keepsScrubbed = true) (hv : scrubbed v = true) :
    scrubbed (p.apply v) = true := by
  simp only [MetadataPatch.keepsScrubbed, Bool.and_eq_true, Option.isNone_iff_eq_none] at hp
  obtain ⟨⟨⟨⟨hname, hdescription⟩, hlabels⟩, hurl⟩, hdefaults⟩ := hp
  have hsame : p.displayName.getD v.displayName = v.displayName := by
    cases hn : p.displayName with
    | none => rfl
    | some s =>
        simp only [hn, Option.all_some, beq_iff_eq] at hname
        simp only [scrubbed, Bool.and_eq_true, beq_iff_eq] at hv
        rw [Option.getD_some, hname, hv.1.1.1.1.1.1.2]
  simp only [scrubbed, VoiceRepo.MetadataPatch.apply, hsame, hdescription, hlabels, hurl,
    hdefaults, Option.none_or]
  exact hv

/-- `PATCH`. -/
theorem Entombed.update {tenant : Uuid} {slug : PyStr} {p : MetadataPatch} {v : Voice}
    (h : Entombed c id) (hrun : updateVoice tenant slug p c = .ok (v, c'))
    (hspares : (TombstoneOp.update tenant slug p).spares id c = true) : Entombed c' id := by
  unfold updateVoice at hrun
  split at hrun
  · exact (Tx.not_throw_ok hrun).elim
  split at hrun
  · exact (Tx.not_throw_ok hrun).elim
  split at hrun
  · exact (Tx.not_throw_ok hrun).elim
  obtain ⟨r, c₁, hupdate, hrun⟩ := Tx.bind_ok.1 hrun
  cases r with
  | none => exact (Tx.not_throw_ok hrun).elim
  | some w =>
      obtain ⟨-, rfl⟩ := Tx.pure_ok.1 hrun
      have hkeeps : ∀ v, getOwned c tenant slug = some v → v.id = id → scrubbed v = true →
          scrubbed (p.apply v) = true := by
        intro v hv hid hscrubbed
        rw [TombstoneOp.spares, hv] at hspares
        simp only [Option.all_some, hid, bne_self_eq_false, Bool.false_or] at hspares
        exact scrubbed_apply hspares hscrubbed
      obtain ⟨-, hw⟩ | ⟨s, visibility, -, -, hw⟩ | rfl := updateMetadata_ok hupdate
      · exact h.owned hw fun v hv hid hs => ⟨rfl, rfl, hkeeps v hv hid hs⟩
      · exact h.owned hw fun v hv hid hs => ⟨rfl, rfl, hkeeps v hv hid hs⟩
      · exact h

/-- `admin_enable_voice_watermark` does not look at `purged_at`, and touches
no scrubbed column. -/
theorem Entombed.enableWatermark {k : Uuid} {key : Option (Uuid × Bool)} {r : Option Voice}
    (h : Entombed c id) (hrun : adminEnableVoiceWatermark k key c = .ok (r, c')) :
    Entombed c' id := by
  obtain ⟨o, c₁, hq, hrun⟩ := Tx.bind_ok.1 hrun
  obtain ⟨-, rfl⟩ := Tx.query_ok.1 hq
  cases o with
  | none => exact (Tx.pure_ok.1 hrun).2 ▸ h
  | some v =>
      have hflush : ∀ key, (do
          flushVoice v.id (watermarked key)
          return some (watermarked key v) : Tx (Option Voice)) c = .ok (r, c') →
          Entombed c' id := by
        intro key hrun
        obtain ⟨u, c₂, hflush, hrun⟩ := Tx.bind_ok.1 hrun
        obtain ⟨-, rfl⟩ := Tx.pure_ok.1 hrun
        obtain ⟨t, hm, rfl⟩ := flushVoice_ok.1 hflush
        exact h.write (.inr ⟨_, t, hm, rfl⟩) ⟨fun _ => rfl, fun _ => rfl, fun _ hs => hs⟩
      cases key with
      | none => exact hflush none hrun
      | some key =>
          obtain ⟨id', active⟩ := key
          cases active with
          | false => exact (Tx.not_throw_ok hrun).elim
          | true => exact hflush (some id') hrun

end writes

/-- The step lemma. -/
theorem Entombed.step {c : Catalog} {id : Uuid} (h : Entombed c id) (op : TombstoneOp)
    (hspares : op.spares id c = true) : Entombed (op.apply c) id := by
  obtain heq | ⟨u, hrun⟩ := op.run.after_cases c
  · rw [TombstoneOp.apply, heq]; exact h
  change op.run c = .ok (u, op.apply c) at hrun
  cases op with
  | update tenant slug p =>
      obtain ⟨v, c₁, hupdate, hrun⟩ := Tx.bind_ok.1 hrun
      exact (Tx.pure_ok.1 hrun).2 ▸ h.update hupdate hspares
  | setVisibility tenant slug visibility =>
      obtain ⟨r, c₁, hset, hrun⟩ := Tx.bind_ok.1 hrun
      obtain ⟨vis, -, hw⟩ := setVisibility_ok hset
      exact (Tx.pure_ok.1 hrun).2 ▸ h.owned hw fun v _ _ hs => ⟨rfl, rfl, hs⟩
  | setReleaseStatus tenant slug status =>
      obtain ⟨r, c₁, hset, hrun⟩ := Tx.bind_ok.1 hrun
      unfold VoiceRepo.setReleaseStatus at hset
      cases hstatus : ReleaseStatus.ofStr? status with
      | none => rw [hstatus] at hset; exact (Tx.not_throw_ok hset).elim
      | some s =>
          rw [hstatus] at hset
          exact (Tx.pure_ok.1 hrun).2 ▸ h.owned hset fun v _ _ hs => ⟨rfl, rfl, hs⟩
  | softDelete tenant slug now =>
      obtain ⟨r, c₁, hdelete, hrun⟩ := Tx.bind_ok.1 hrun
      exact (Tx.pure_ok.1 hrun).2 ▸ h.owned hdelete fun v _ _ hs => ⟨rfl, rfl, hs⟩
  | freeze k now reason n =>
      obtain ⟨r, c₁, hfreeze, hrun⟩ := Tx.bind_ok.1 hrun
      exact (Tx.pure_ok.1 hrun).2 ▸ h.unpurged hfreeze
  | unfreeze k =>
      obtain ⟨r, c₁, hthaw, hrun⟩ := Tx.bind_ok.1 hrun
      exact (Tx.pure_ok.1 hrun).2 ▸ h.unpurged hthaw
  | schedulePurge k now n =>
      obtain ⟨r, c₁, hschedule, hrun⟩ := Tx.bind_ok.1 hrun
      exact (Tx.pure_ok.1 hrun).2 ▸ h.unpurged hschedule
  | pinEval k payload =>
      obtain ⟨r, c₁, hpin, hrun⟩ := Tx.bind_ok.1 hrun
      unfold VoiceRepo.pinEval at hpin
      split at hpin
      · obtain ⟨_, _, hpin, -⟩ := Tx.bind_ok.1 hpin
        exact (Tx.not_throw_ok hpin).elim
      · split at hpin
        · exact (Tx.pure_ok.1 hrun).2 ▸ h.unpurged hpin
        · exact (Tx.not_throw_ok hpin).elim
  | executePurge k now =>
      obtain ⟨r, c₁, hpurge, hrun⟩ := Tx.bind_ok.1 hrun
      exact (Tx.pure_ok.1 hrun).2 ▸ h.unpurged hpurge
  | enableWatermark k key =>
      obtain ⟨r, c₁, henable, hrun⟩ := Tx.bind_ok.1 hrun
      exact (Tx.pure_ok.1 hrun).2 ▸ h.enableWatermark henable

/-- What the purge leaves. -/
theorem entombed_executePurge {c c' : Catalog} {id : Uuid} {now : Nat} {v : Voice}
    {r : Option Voice} (hv : getById c id = some v) (hopen : v.purgedAt = none)
    (hpurge : VoiceRepo.executePurge id now c = .ok (r, c')) : Entombed c' id := by
  obtain ⟨hnone, -⟩ | ⟨w, hw, ⟨hpurged, -⟩ | ⟨-, -, t, hm, rfl⟩⟩ := writeUnpurged_ok hpurge
  · rw [hv] at hnone; cases hnone
  · rw [hv] at hw
    cases hw
    rw [hopen] at hpurged
    cases hpurged
  · rw [hv] at hw
    cases hw
    obtain ⟨hmem, hid⟩ := Table.find?_eq_some hv
    exact ⟨tombstone now v, (mem_written hmem hm).2 (.inl rfl), eq_of_beq hid, rfl, rfl⟩

/-- **Tombstones are immutable** in every run whose patches spare them. -/
theorem tombstone_immutable (c c' : Catalog) (id : Uuid) (now : Nat) (v : Voice)
    (r : Option Voice) (ops : List TombstoneOp) (hv : getById c id = some v)
    (hopen : v.purgedAt = none) (hpurge : VoiceRepo.executePurge id now c = .ok (r, c'))
    (hspares : Along TombstoneOp.apply (fun c op => op.spares id c = true) c' ops) :
    Along TombstoneOp.apply (fun c op => Entombed (op.apply c) id) c' ops := by
  have h := entombed_executePurge hv hopen hpurge
  clear hpurge
  induction ops generalizing c' with
  | nil => trivial
  | cons op ops ih =>
      have hnext := h.step op hspares.1
      exact ⟨hnext, ih _ hspares.2 hnext⟩

/-- A purge that is due. -/
def dueVoice : Voice :=
  { sampleVoice.row 1 7 0 .priv with frozenAt := some 5, purgeAfterAt := some 5 }

/-- The catalog with that voice. -/
def dueCatalog : Catalog := .sole dueVoice (by decide +kernel)

/-- The catalog after its purge. -/
def purgedCatalog : Catalog := (VoiceRepo.executePurge 7 10).after dueCatalog

theorem executePurge_dueCatalog :
    VoiceRepo.executePurge 7 10 dueCatalog = .ok (some (tombstone 10 dueVoice), purgedCatalog) := by
  obtain heq | ⟨r, hr⟩ := (VoiceRepo.executePurge 7 10).after_cases dueCatalog
  · have hrow := congrArg (fun c : Catalog => c.voices.rows.all fun v => v.purgedAt.isSome) heq
    exact absurd hrow (by decide +kernel)
  · obtain ⟨hnone, -⟩ | ⟨w, hw, ⟨hpurged, -⟩ | ⟨-, hr', -⟩⟩ := writeUnpurged_ok hr
    · cases hnone
    · cases hw
      cases hpurged
    · cases hw
      rw [hr' ] at hr
      exact hr

/-- What can be done to it: its styles are edited, and it is deleted. -/
def sparingOps : List TombstoneOp :=
  [.update 1 (py "ayse") { styleTags := some [py "calm"] }, .softDelete 1 (py "ayse") 20]

/-- A purged voice may be restyled and deleted, and stays a tombstone. -/
theorem tombstone_immutable_example :
    Along TombstoneOp.apply (fun c op => Entombed (op.apply c) 7) purgedCatalog sparingOps :=
  tombstone_immutable dueCatalog purgedCatalog 7 10 dueVoice _ sparingOps rfl rfl
    executePurge_dueCatalog (by decide +kernel)

/-- Its owner gives it a name again. -/
def renameOps : List TombstoneOp :=
  [.update 1 (py "ayse") { displayName := some (py "Ayse") }]

/-- The owner of a purged voice can edit its row. -/
theorem tombstone_renamed :
    ¬∀ (c c' : Catalog) (id : Uuid) (now : Nat) (v : Voice) (r : Option Voice)
      (ops : List TombstoneOp), getById c id = some v → v.purgedAt = none →
      VoiceRepo.executePurge id now c = .ok (r, c') →
      Along TombstoneOp.apply (fun c op => Entombed (op.apply c) id) c' ops := by
  intro h
  obtain ⟨⟨v, hv, -, -, hscrubbed⟩, -⟩ :=
    h dueCatalog purgedCatalog 7 10 dueVoice _ renameOps rfl rfl executePurge_dueCatalog
  have hnone : ((renameOps.foldl TombstoneOp.apply purgedCatalog).voices.rows.all fun v =>
      !scrubbed v) = true := by
    decide +kernel
  have := List.all_eq_true.1 hnone v hv
  rw [hscrubbed] at this
  cases this

end NeuroVoice
