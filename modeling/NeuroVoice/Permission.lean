import NeuroVoice.Handover
import NeuroVoice.Catalog.Access
import NeuroVoice.Lib.TwoRuns

/-!
# NeuroVoice.Permission

What the permission of a grant does.

`grant` stores one of two permissions, and no query reads it: all that a query
can tell of a grant is whose and for which voice it is.  So a catalog and the
one with every grant for `use` stay in step under the same transactions, and
answer every handler and every worker alike: `permission_unread`.
-/

namespace NeuroVoice

open VoiceRepo

/-! ## catalogs without permissions -/

/-- The row, for `use` and without who granted it. -/
def VoiceAccess.bare (a : VoiceAccess) : VoiceAccess :=
  { a with permission := .use, grantedBy := none }

/-- The constraints look at neither. -/
def bareRows : Relabelling voiceAccess where
  row := VoiceAccess.bare
  clash _ _ := rfl
  check _ := rfl

/-- What a query can tell of a catalog. -/
def Catalog.bare (c : Catalog) : Catalog := { c with access := c.access.relabel bareRows }

/-- The second catalog is the first with every grant for `use`. -/
structure Upgraded (c c' : Catalog) : Prop where
  bare : c.bare = c'.bare
  use : ∀ a ∈ c'.access, a.permission = .use

/-- The operations keep the catalogs in step. -/
abbrev Lockstep {α : Type} (x y : Tx α) : Prop := InStep Upgraded Eq x y

/-- A catalog without permissions is an upgrade of it. -/
theorem upgraded_bare (c : Catalog) : Upgraded c c.bare := by
  constructor
  · have hrows : c.access.relabel bareRows = (c.access.relabel bareRows).relabel bareRows := by
      apply Table.eq_of_rows
      rw [Table.rows_relabel, Table.rows_relabel, Table.rows_relabel, List.map_map]
      rfl
    unfold Catalog.bare
    rw [← hrows]
  · intro a ha
    obtain ⟨b, -, rfl⟩ := List.mem_map.1 ha
    rfl

/-- A query that permissions have no influence on. -/
theorem eq_of_bare {β : Type} {q : Catalog → β} (hq : ∀ c, q c.bare = q c) {c c' : Catalog}
    (h : c.bare = c'.bare) : q c = q c' := by
  rw [← hq c, h, hq c']

/-- Who is granted a voice is told without permissions. -/
theorem granted_bare (c : Catalog) (tenant : Uuid) (v : Voice) :
    granted c.bare tenant v = granted c tenant v := by
  unfold granted Catalog.bare
  rw [Table.rows_relabel, List.any_map]
  rfl

/-- Shared voices are found without them. -/
theorem sharedMatches_bare (c : Catalog) (tenant : Uuid) (slug : PyStr) :
    sharedMatches c.bare tenant slug = sharedMatches c tenant slug := by
  unfold sharedMatches
  simp only [granted_bare]
  rfl

/-! ## operations -/

section operations

/-- A query that looks at no permission answers the same. -/
theorem lockstep_query {β : Type} {q : Catalog → β} (hq : ∀ c, q c.bare = q c) :
    Lockstep (Tx.query q) (Tx.query q) := by
  intro c c' h
  exact .ok (eq_of_bare hq h.bare) h

/-- A statement on another table than `voice_access`. -/
theorem lockstep_write {β : Type} {g : Catalog → Option β} {put : β → Catalog → Catalog}
    (hg : ∀ c, g c.bare = g c) (hput : ∀ t c, (put t c).bare = put t c.bare)
    (hkeep : ∀ t c, (put t c).access = c.access) :
    Lockstep (.statement fun c => (g c).map fun t => put t c)
      (.statement fun c => (g c).map fun t => put t c) := by
  intro c c' h
  simp only [Tx.statement, eq_of_bare hg h.bare]
  cases g c' with
  | none => exact .error _
  | some t => exact .ok rfl ⟨by rw [hput, hput, h.bare], by rw [hkeep]; exact h.use⟩

/-- A flush of a row is the same in both catalogs. -/
theorem lockstep_flushVoice (id : Uuid) (f : Voice → Voice) :
    Lockstep (flushVoice id f) (flushVoice id f) :=
  lockstep_write (fun _ => rfl) (fun _ _ => rfl) fun _ _ => rfl

/-- An owner's write is the same in both catalogs. -/
theorem lockstep_writeOwned (tenant : Uuid) (slug : PyStr) (f : Voice → Voice) :
    Lockstep (writeOwned tenant slug f) (writeOwned tenant slug f) := by
  refine (lockstep_query fun _ => rfl).bind_eq fun found => ?_
  cases found with
  | none => exact .ret rfl
  | some v => exact (lockstep_flushVoice v.id f).bind_eq fun _ => .ret rfl

/-- So is an operator's. -/
theorem lockstep_writeUnpurged (id : Uuid) (f : Voice → Voice) :
    Lockstep (writeUnpurged id f) (writeUnpurged id f) := by
  refine (lockstep_query fun _ => rfl).bind_eq fun found => ?_
  cases found with
  | none => exact .ret rfl
  | some v =>
      dsimp only
      split
      · exact .ret rfl
      · exact (lockstep_flushVoice v.id f).bind_eq fun _ => .ret rfl

/-- So is a change of the visibility. -/
theorem lockstep_setVisibility (tenant : Uuid) (slug s : PyStr) :
    Lockstep (setVisibility tenant slug s) (setVisibility tenant slug s) := by
  unfold setVisibility
  cases Visibility.ofStr? s with
  | none => exact .raise _
  | some visibility => exact lockstep_writeOwned tenant slug _

/-- So is a change of the metadata. -/
theorem lockstep_updateMetadata (tenant : Uuid) (slug : PyStr) (p : MetadataPatch) :
    Lockstep (updateMetadata tenant slug p) (updateMetadata tenant slug p) := by
  unfold updateMetadata
  cases p.visibility with
  | none => exact lockstep_writeOwned tenant slug _
  | some s =>
      dsimp only
      cases Visibility.ofStr? s with
      | some visibility => exact lockstep_writeOwned tenant slug _
      | none =>
          refine (lockstep_query fun _ => rfl).bind_eq fun found => ?_
          cases found with
          | none => exact .ret rfl
          | some v => exact .raise _

/-- So is every operation on a voice. -/
theorem lockstep_voiceOp (now : Nat) (op : VoiceOp) : Lockstep (op.run now) (op.run now) := by
  cases op with
  | softDelete tenant slug => exact lockstep_writeOwned tenant slug _
  | setVisibility tenant slug s => exact lockstep_setVisibility tenant slug s
  | updateMetadata tenant slug p => exact lockstep_updateMetadata tenant slug p
  | freeze id reason n => exact lockstep_writeUnpurged id _
  | schedulePurge id afterDays => exact lockstep_writeUnpurged id _
  | executePurge id => exact lockstep_writeUnpurged id _

/-- So is a new voice. -/
theorem lockstep_create (tenant id : Uuid) (now : Nat) (n : NewVoice) :
    Lockstep (create tenant id now n) (create tenant id now n) := by
  unfold create
  cases Visibility.ofStr? n.visibility with
  | none => exact .raise _
  | some visibility =>
      have hinsert : insertVoice (n.row tenant id now visibility) = fun c =>
          (if c.tenants tenant ∧ n.createdByKeyId.all c.apiKeys then
            c.voices.insert (n.row tenant id now visibility) else none).map
              fun voices => { c with voices } := by
        funext c
        rw [apply_ite (Option.map _)]
        rfl
      dsimp only
      rw [hinsert]
      refine InStep.bind_eq ?_ fun _ => .ret rfl
      exact lockstep_write (fun _ => rfl) (fun _ _ => rfl) fun _ _ => rfl

/-- So is a new consent. -/
theorem lockstep_record (r : VoiceConsentRecord) :
    Lockstep (VoiceConsentRecordRepo.record r) (VoiceConsentRecordRepo.record r) := by
  have hinsert : VoiceConsentRecordRepo.insertConsent r = fun c =>
      (if (c.voices.rows.any fun v => v.id == r.voiceId) then c.consents.insert r else none).map
        fun consents => { c with consents } := by
    funext c
    rw [apply_ite (Option.map _)]
    rfl
  unfold VoiceConsentRecordRepo.record
  by_cases hasserted : r.consentKind = py "tenant-asserted" ∧ r.evidenceUri.isSome = true
  · simp only [if_pos hasserted]
    exact .raise_bind _ _ _
  · simp only [if_neg hasserted]
    by_cases hmissing : r.consentKind ≠ py "tenant-asserted" ∧ r.evidenceUri.isNone = true
    · simp only [if_pos hmissing]
      exact .raise_bind _ _ _
    · simp only [if_neg hmissing]
      rw [hinsert]
      refine InStep.bind_eq ?_ fun _ => .ret rfl
      exact lockstep_write (fun _ => rfl) (fun _ _ => rfl) fun _ _ => rfl

/-- So is what an enrolment writes. -/
theorem lockstep_persist (cfg : EnrollSettings) (a : EnrollAttempt) (wav : Bytes) (seconds : Rat) :
    Lockstep (persist cfg a wav seconds) (persist cfg a wav seconds) := by
  refine (lockstep_create _ _ _ _).bind_eq fun v => ?_
  exact (lockstep_record _).bind_eq fun _ => .ret rfl

/-- So is a consent's revocation. -/
theorem lockstep_revokeConsent (id : Uuid) (now : Nat) (reason : Option PyStr) :
    Lockstep (VoiceConsentRecordRepo.revoke id now reason)
      (VoiceConsentRecordRepo.revoke id now reason) := by
  refine (lockstep_query fun _ => rfl).bind_eq fun found => ?_
  cases found with
  | none => exact .ret rfl
  | some r =>
      dsimp only
      split
      · exact .ret rfl
      · refine InStep.bind_eq ?_ fun _ => .ret rfl
        exact lockstep_write (fun _ => rfl) (fun _ _ => rfl) fun _ _ => rfl

/-- So is a contract's. -/
theorem lockstep_revokeContract (id : Uuid) (now : Nat) :
    Lockstep (TalentContractRepo.revoke id now) (TalentContractRepo.revoke id now) := by
  refine (lockstep_query fun _ => rfl).bind_eq fun found => ?_
  cases found with
  | none => exact .ret rfl
  | some k =>
      dsimp only
      split
      · exact .ret rfl
      · refine InStep.bind_eq ?_ fun _ => .ret rfl
        exact lockstep_write (fun _ => rfl) (fun _ _ => rfl) fun _ _ => rfl

/-- Grants may be removed before or after their permissions are. -/
theorem bare_erase {p : VoiceAccess → Bool} (hp : ∀ a, p a.bare = p a) (c : Catalog) :
    Catalog.bare { c with access := c.access.erase p } =
      { c.bare with access := c.bare.access.erase p } := by
  simp only [Catalog.bare]
  rw [Table.erase_relabel hp]

/-- A revocation deletes the same rows. -/
theorem lockstep_revokeGrant (owner : Uuid) (slug : PyStr) (grantee : Uuid) :
    Lockstep (VoiceAccessRepo.revoke owner slug grantee)
      (VoiceAccessRepo.revoke owner slug grantee) := by
  refine (lockstep_query fun _ => rfl).bind_eq fun found => ?_
  cases found with
  | none => exact .ret rfl
  | some v =>
      refine (lockstep_query fun c => ?_).bind_eq fun n => ?_
      · simp only [Catalog.bare, Table.rows_relabel, List.filter_map, List.length_map]
        rfl
      · refine InStep.bind_eq (fun c c' h => ?_) fun _ => .ret rfl
        refine .ok rfl ⟨?_, fun a ha => h.use a (Table.mem_erase.1 ha).1⟩
        rw [bare_erase fun _ => rfl, bare_erase fun _ => rfl, h.bare]

end operations

/-! ## grants -/

section grants

/-- The upsert, less the permission. -/
theorem putAccess_bare (a : VoiceAccess) (c : Catalog) :
    (VoiceAccessRepo.putAccess a c).map Catalog.bare =
      if a.grantedBy.all c.operators then VoiceAccessRepo.putAccess a.bare c.bare else none := by
  have hfind : c.bare.access.find? (fun b => b.tenantId == a.tenantId && b.voiceId == a.voiceId) =
      (c.access.find? fun b => b.tenantId == a.tenantId && b.voiceId == a.voiceId).map
        VoiceAccess.bare := Table.find?_relabel fun _ => rfl
  have hwrite : ∀ {t t' : Option (Table voiceAccess)}, t' = t.map (Table.relabel bareRows) →
      (t.map fun access => { c with access }).map Catalog.bare =
        t'.map fun access => { c.bare with access } := by
    intro t t' ht
    rw [ht, Option.map_map, Option.map_map]
    rfl
  by_cases hby : a.grantedBy.all c.operators = true
  · rw [if_pos hby]
    unfold VoiceAccessRepo.putAccess
    by_cases htenant : c.tenants a.tenantId = true
    · rw [if_pos ⟨htenant, hby⟩, if_pos ⟨htenant, rfl⟩]
      dsimp only [VoiceAccess.bare] at hfind ⊢
      rw [hfind]
      cases c.access.find? fun b => b.tenantId == a.tenantId && b.voiceId == a.voiceId with
      | some b => exact hwrite (Table.modify_relabel (fun _ => rfl) fun _ => rfl)
      | none => exact hwrite (Table.insert_relabel a)
    · rw [if_neg fun h => htenant h.1, if_neg fun h => htenant h.1]
      rfl
  · rw [if_neg hby]
    unfold VoiceAccessRepo.putAccess
    rw [if_neg fun h => hby h.2]
    rfl

/-- An upsert under the key of a row that is there. -/
theorem bare_putAccess {a : VoiceAccess} {c d : Catalog}
    (h : VoiceAccessRepo.putAccess a c = some d)
    (hthere : ∃ b ∈ c.access, b.tenantId = a.tenantId ∧ b.voiceId = a.voiceId) :
    c.bare = d.bare := by
  unfold VoiceAccessRepo.putAccess at h
  split at h
  · obtain ⟨t, ht, rfl⟩ := Option.map_eq_some_iff.1 h
    split at ht
    · have hrows : c.access.relabel bareRows = t.relabel bareRows := by
        apply Table.eq_of_rows
        rw [Table.rows_relabel, Table.rows_relabel, Table.ofRows_eq_some ht, List.map_map]
        refine List.map_congr_left fun r _ => ?_
        simp only [Function.comp_apply]
        split
        · next hsame =>
            simp only [Bool.and_eq_true, beq_iff_eq] at hsame
            simp [bareRows, VoiceAccess.bare, hsame]
        · rfl
      unfold Catalog.bare
      rw [hrows]
    · next hnone =>
        obtain ⟨b, hb, htenant, hid⟩ := hthere
        have hmiss := Table.find?_eq_none.1 hnone b hb
        simp [htenant, hid] at hmiss
  · cases h

/-- The text of a permission, with `use` in place of `read`. -/
def usePermission (s : PyStr) : PyStr := if s = py "read" then py "use" else s

/-- An upgraded permission is one, if it was one. -/
theorem ofStr?_usePermission (s : PyStr) :
    Permission.ofStr? (usePermission s) = (Permission.ofStr? s).map fun _ => .use := by
  unfold usePermission Permission.ofStr?
  have hne : py "read" ≠ py "use" := by decide +kernel
  by_cases huse : s = py "use"
  · simp [huse, hne.symm]
  · by_cases hread : s = py "read"
    · simp [hread, hne]
    · simp [huse, hread]

/-- An upsert and the same one for `use`. -/
theorem lockstep_putAccess (tenant id : Uuid) (p : Permission) (grantedBy : Option Uuid) :
    Lockstep (.statement (VoiceAccessRepo.putAccess ⟨tenant, id, p, grantedBy⟩))
      (.statement (VoiceAccessRepo.putAccess ⟨tenant, id, .use, grantedBy⟩)) := by
  intro c c' h
  have hoperators : c.bare.operators = c'.bare.operators := by rw [h.bare]
  change c.operators = c'.operators at hoperators
  have hboth : (VoiceAccessRepo.putAccess ⟨tenant, id, p, grantedBy⟩ c).map Catalog.bare =
      (VoiceAccessRepo.putAccess ⟨tenant, id, .use, grantedBy⟩ c').map Catalog.bare := by
    rw [putAccess_bare, putAccess_bare, h.bare, hoperators]
    rfl
  unfold Tx.statement
  cases hput : VoiceAccessRepo.putAccess ⟨tenant, id, p, grantedBy⟩ c with
  | none =>
      rw [hput, Option.map_none, eq_comm, Option.map_eq_none_iff] at hboth
      rw [hboth]
      exact .error _
  | some d =>
      rw [hput, Option.map_some, eq_comm, Option.map_eq_some_iff] at hboth
      obtain ⟨d', hput', hbare⟩ := hboth
      rw [hput']
      refine .ok rfl ⟨hbare.symm, fun b hb => ?_⟩
      obtain ⟨-, hrows⟩ := VoiceAccessRepo.putAccess_eq_some hput'
      obtain hb | rfl := hrows b hb
      · exact h.use b hb
      · rfl

/-- A grant and the same one for `use` keep the catalogs in step. -/
theorem inStep_grant (owner : Uuid) (slug : PyStr) (grantee : Uuid) (s : PyStr)
    (grantedBy : Option Uuid) :
    InStep Upgraded (fun _ _ => True) (VoiceAccessRepo.grant owner slug grantee s grantedBy)
      (VoiceAccessRepo.grant owner slug grantee (usePermission s) grantedBy) := by
  unfold VoiceAccessRepo.grant
  rw [ofStr?_usePermission]
  cases Permission.ofStr? s with
  | none => exact .raise _
  | some p =>
      refine (lockstep_query fun _ => rfl).bind_eq fun found => ?_
      cases found with
      | none => exact .ret trivial
      | some v => exact (lockstep_putAccess grantee v.id p grantedBy).bind_eq fun _ => .ret trivial

end grants

/-! ## histories -/

/-- The operation, with `use` in place of `read`. -/
def CatalogOp.upgraded : CatalogOp → CatalogOp
  | .grant owner slug grantee permission grantedBy =>
      .grant owner slug grantee (usePermission permission) grantedBy
  | op => op

/-- The transaction, with `use` in place of `read`. -/
def Transaction.upgraded (tx : Transaction) : Transaction := tx.map CatalogOp.upgraded

/-- The await, with `use` in place of `read` in what the others do. -/
def Moment.upgraded (t : Moment) : Moment :=
  { t with
    before := t.before.map Transaction.upgraded
    during := t.during.map Transaction.upgraded }

/-- The step lemma of the operations. -/
theorem CatalogOp.lockstep (op : CatalogOp) : Lockstep op.run op.upgraded.run := by
  cases op with
  | voice now op => exact (lockstep_voiceOp now op).bind_eq fun _ => .ret rfl
  | unfreeze id => exact (lockstep_writeUnpurged id _).bind_eq fun _ => .ret rfl
  | create tenant id now n => exact (lockstep_create tenant id now n).bind_eq fun _ => .ret rfl
  | enroll cfg a wav seconds => exact (lockstep_persist cfg a wav seconds).bind_eq fun _ => .ret rfl
  | grant owner slug grantee permission grantedBy =>
      exact (inStep_grant owner slug grantee permission grantedBy).bind fun _ _ _ => .ret rfl
  | revokeGrant owner slug grantee =>
      exact (lockstep_revokeGrant owner slug grantee).bind_eq fun _ => .ret rfl
  | revokeConsent id now reason =>
      exact (lockstep_revokeConsent id now reason).bind_eq fun _ => .ret rfl
  | revokeContract id now => exact (lockstep_revokeContract id now).bind_eq fun _ => .ret rfl

/-- A transaction and its upgrade keep the catalogs in step. -/
theorem Transaction.lockstep (tx : Transaction) :
    Lockstep (Transaction.run tx) (Transaction.run tx.upgraded) := by
  induction tx with
  | nil => exact .ret rfl
  | cons op ops ih => exact (CatalogOp.lockstep op).bind_eq fun _ => ih

section history

variable {c c' : Catalog} {tenant : Uuid} {slug : PyStr} {found : Option Voice}

/-- The catalogs stay in step, whether the work is committed or not. -/
theorem Upgraded.after (h : Upgraded c c') {α : Type} {x y : Tx α} (hxy : Lockstep x y) :
    Upgraded (x.after c) (y.after c') := by
  have hboth := hxy c c' h
  unfold Tx.after
  generalize x c = r at hboth ⊢
  generalize y c' = r' at hboth ⊢
  cases hboth with
  | error e => exact h
  | ok _ state => exact state

/-- The run lemma. -/
theorem Upgraded.commitAll (h : Upgraded c c') (txs : List Transaction) :
    Upgraded (c.commitAll txs) (c'.commitAll (txs.map Transaction.upgraded)) := by
  induction txs generalizing c c' with
  | nil => exact h
  | cons tx txs ih => exact ih (h.after (Transaction.lockstep tx))

/-- A look-up during transactions sees the same in both. -/
theorem Upgraded.looked (h : Upgraded c c') (during : List Transaction) :
    Looked c during tenant slug found ↔
      Looked c' (during.map Transaction.upgraded) tenant slug found := by
  have hown : ∀ txs, getOwned (c.commitAll txs) tenant slug =
      getOwned (c'.commitAll (txs.map Transaction.upgraded)) tenant slug := fun txs =>
    eq_of_bare (q := fun c => getOwned c tenant slug) (fun _ => rfl) (h.commitAll txs).bare
  have hshared : ∀ txs, sharedMatches (c.commitAll txs) tenant slug =
      sharedMatches (c'.commitAll (txs.map Transaction.upgraded)) tenant slug := fun txs =>
    eq_of_bare (q := fun c => sharedMatches c tenant slug)
      (fun c => sharedMatches_bare c tenant slug) (h.commitAll txs).bare
  have hpub : ∀ txs, publicMatches (c.commitAll txs) slug =
      publicMatches (c'.commitAll (txs.map Transaction.upgraded)) slug := fun txs =>
    eq_of_bare (q := fun c => publicMatches c slug) (fun _ => rfl) (h.commitAll txs).bare
  have hfirst : getOwned c tenant slug = getOwned c' tenant slug := hown []
  unfold Looked
  simp only [hown, hshared, hpub, hfirst]
  refine or_congr_right (or_congr_right ?_)
  constructor
  · rintro ⟨before, after, rfl, hrest⟩
    exact ⟨_, _, List.map_append, hrest⟩
  · rintro ⟨before, after, hsplit, hrest⟩
    obtain ⟨before, after, rfl, rfl, rfl⟩ := List.map_eq_append_iff.1 hsplit
    exact ⟨before, after, rfl, hrest⟩

/-- An await is answered alike. -/
theorem Upgraded.answeredBy (h : Upgraded c c') (t : Moment) :
    t.answeredBy c ↔ t.upgraded.answeredBy c' := by
  obtain ⟨before, during, e, a⟩ := t
  cases e with
  | io e =>
      cases e with
      | selectVoice tenant voiceId =>
          cases voiceId with
          | str slug =>
              cases a with
              | error x => exact Iff.rfl
              | ok found => exact (h.commitAll before).looked during
          | _ => cases a <;> exact Iff.rfl
      | selectConsent id =>
          cases a with
          | error x => exact Iff.rfl
          | ok found =>
              have hactive := eq_of_bare (q := fun c => VoiceConsentRecordRepo.latestActive c id)
                (fun _ => rfl) (h.commitAll (before ++ during)).bare
              rw [List.map_append] at hactive
              change found = _ ↔ found = _
              rw [Moment.stop, hactive]
              rfl
      | _ => exact Iff.rfl
  | _ => exact Iff.rfl

/-- **A coroutine runs alike in catalogs in step.** -/
theorem Upgraded.amid {α : Type} {x : SocketPy α} (h : Upgraded c c') (ts : List Moment) :
    Amid x c ts ↔ Amid x c' (ts.map Moment.upgraded) := by
  have hawaits : (ts.map Moment.upgraded).map Await.answered = ts.map Await.answered := by
    rw [List.map_map]
    rfl
  have hstop : ∀ c c' (t : Moment), Upgraded c c' → Upgraded (t.stop c) (t.upgraded.stop c') := by
    intro c c' t h
    have hcommit := h.commitAll (t.before ++ t.during)
    rwa [List.map_append] at hcommit
  have hanswers : Along (fun c t => Moment.stop t c) (fun c t => Moment.answeredBy t c) c ts ↔
      Along (fun c t => Moment.stop t c) (fun c t => Moment.answeredBy t c) c'
        (ts.map Moment.upgraded) :=
    Along.iff_map Upgraded Moment.upgraded (fun c c' t h => h.answeredBy t) hstop h ts
  constructor
  · intro hrun
    exact ⟨hawaits.symm ▸ hrun.emits, hanswers.1 hrun.answered⟩
  · intro hrun
    exact ⟨hawaits ▸ hrun.emits, hanswers.2 hrun.answered⟩

/-- Catalogs that differ in permissions and granters alone. -/
theorem amid_of_bare {α : Type} {x : SocketPy α} (h : c.bare = c'.bare) (ts : List Moment) :
    Amid x c ts ↔ Amid x c' ts := by
  rw [(upgraded_bare c).amid, h, ← (upgraded_bare c').amid]

end history

/-! ## the grantee -/

/-- The tenant has access to the voice by a grant of this permission, and
neither as its owner nor because it is public. -/
structure OnlyGranted (c : Catalog) (tenant : Uuid) (v : Voice) (p : Permission) : Prop where
  mem : v ∈ c.voices
  undeleted : v.deletedAt = none
  notOwner : v.ownerTenantId ≠ tenant
  notPublic : v.visibility ≠ .pub
  grant : ∃ a ∈ c.access, a.tenantId = tenant ∧ a.voiceId = v.id ∧ a.permission = p

section grantee

variable {c c' : Catalog} {tenant : Uuid} {v : Voice} {p : Permission}

/-- Who is only granted a voice is granted it. -/
theorem OnlyGranted.granted (h : OnlyGranted c tenant v p) : granted c tenant v = true := by
  obtain ⟨a, ha, htenant, hid, -⟩ := h.grant
  exact granted_iff.2 ⟨a, ha, htenant, hid⟩

/-- In step, the grant is one for `use`. -/
theorem OnlyGranted.upgraded (h : OnlyGranted c tenant v p) (hup : Upgraded c c') :
    OnlyGranted c' tenant v .use := by
  have hvoices : c.bare.voices = c'.bare.voices := by rw [hup.bare]
  have hgranted : VoiceRepo.granted c' tenant v = true := by
    rw [← h.granted, eq_of_bare (q := fun c => VoiceRepo.granted c tenant v)
      (fun c => granted_bare c tenant v) hup.bare]
  obtain ⟨a, ha, htenant, hid⟩ := granted_iff.1 hgranted
  refine ⟨?_, h.undeleted, h.notOwner, h.notPublic, a, ha, htenant, hid, hup.use a ha⟩
  change v ∈ c'.bare.voices
  rw [← hvoices]
  exact h.mem

/-- The grantee's lookup finds a voice under the slug, and this one is among
those it chooses from. -/
theorem OnlyGranted.found (h : OnlyGranted c tenant v p) :
    Candidate c tenant v.voiceId v ∧ (getAccessible c tenant v.voiceId).isSome = true := by
  have hshared : v ∈ sharedMatches c tenant v.voiceId :=
    mem_sharedMatches.2 ⟨h.mem, rfl, h.granted, h.undeleted⟩
  refine ⟨⟨h.mem, rfl, h.undeleted, by simp [accessible, h.granted]⟩, ?_⟩
  unfold getAccessible
  cases getOwned c tenant v.voiceId with
  | some w => rfl
  | none =>
      cases hfirst : firstCreated (sharedMatches c tenant v.voiceId) with
      | some w => rfl
      | none => rw [eq_nil_of_firstCreated hfirst] at hshared; cases hshared

/-- A second grant changes the permission and the granter of the first, if
anything. -/
theorem OnlyGranted.bare_commit (h : OnlyGranted c tenant v p) (s : PyStr)
    (grantedBy : Option Uuid) :
    c.bare = (c.commit [.grant v.ownerTenantId v.voiceId tenant s grantedBy]).bare := by
  unfold Catalog.commit
  obtain heq | ⟨u, hok⟩ := Tx.after_cases
    (Transaction.run [.grant v.ownerTenantId v.voiceId tenant s grantedBy]) c
  · rw [heq]
  · generalize Tx.after _ c = c' at hok ⊢
    obtain ⟨_, c₁, hop, hend⟩ := Tx.bind_ok.1 hok
    obtain ⟨-, rfl⟩ := Tx.pure_ok.1 hend
    obtain ⟨r, c₂, hgrant, hend⟩ := Tx.bind_ok.1 hop
    obtain ⟨-, rfl⟩ := Tx.pure_ok.1 hend
    obtain rfl | ⟨w, q, hown, hput⟩ := VoiceAccessRepo.grant_eq_ok hgrant
    · rfl
    · obtain ⟨hw, howner, hslug, -⟩ := getOwned_eq_some hown
      obtain rfl : w = v := Table.eq_of_clash hw h.mem (by simp [voices, howner, hslug])
      obtain ⟨a, ha, htenant, hid, -⟩ := h.grant
      exact bare_putAccess hput ⟨a, ha, htenant, hid⟩

end grantee

/-- The surfaces and the worker run alike in both catalogs. -/
structure SameRuns (c c' : Catalog) (h : Moment → Moment) : Prop where
  surfaces : ∀ (S : SocketSettings) (ctx : AuthContext) (surface : Surface) (ts : List Moment),
    Amid (surface.handler S ctx) c ts ↔ Amid (surface.handler S ctx) c' (ts.map h)
  worker : ∀ (W : Settings) (job : TtsJobPayload) (workerPickupMs : Option Nat) (attempt : Nat)
    (ts : List Moment), Amid (io (processOneJob W job workerPickupMs attempt)) c ts ↔
      Amid (io (processOneJob W job workerPickupMs attempt)) c' (ts.map h)

/-- What the permissions change between a catalog and the upgraded one:
nothing. -/
structure PermissionUnread (c c' : Catalog) : Prop where
  upgraded : SameRuns c c' Moment.upgraded
  granted : ∀ tenant v p, OnlyGranted c tenant v p → OnlyGranted c' tenant v .use ∧
    Candidate c tenant v.voiceId v ∧ (getAccessible c tenant v.voiceId).isSome = true ∧
    ∀ s grantedBy,
      SameRuns c (c.commit [.grant v.ownerTenantId v.voiceId tenant s grantedBy]) id

/-- **The permission of a grant has no effect**: after any history the surfaces
and the worker run as they would had every grant been for `use`, or if the
owner now grants the voice again; and a grant of either permission opens the
voice. -/
theorem permission_unread (tenants apiKeys operators : Uuid → Bool) (txs : List Transaction) :
    PermissionUnread ((Catalog.blank tenants apiKeys operators).commitAll txs)
      ((Catalog.blank tenants apiKeys operators).commitAll (txs.map Transaction.upgraded)) := by
  have hblank : Upgraded (Catalog.blank tenants apiKeys operators)
      (Catalog.blank tenants apiKeys operators) :=
    ⟨rfl, fun a ha => (Table.not_mem_empty a ha).elim⟩
  have hup := hblank.commitAll txs
  refine ⟨⟨fun _ _ _ ts => hup.amid ts, fun _ _ _ _ ts => hup.amid ts⟩, ?_⟩
  intro tenant v p hgrant
  obtain ⟨hcandidate, hfound⟩ := hgrant.found
  refine ⟨hgrant.upgraded hup, hcandidate, hfound, fun s grantedBy => ?_⟩
  have hbare := hgrant.bare_commit s grantedBy
  constructor
  · intro S ctx surface ts
    rw [List.map_id]
    exact amid_of_bare hbare ts
  · intro W job workerPickupMs attempt ts
    rw [List.map_id]
    exact amid_of_bare hbare ts

/-! ## one grant -/

/-- Nothing is committed during the run. -/
def undisturbed (ts : List Moment) : Bool := ts.all fun t => t.before.isEmpty && t.during.isEmpty

/-- A job of the tenant for the voice is put on the stream. -/
def AddsJobFor (tenant : Uuid) (v : Voice) (ts : List Moment) : Prop :=
  ∃ past t rest job, ts = past ++ t :: rest ∧ t.eff = .io (.xaddJob job) ∧
    job.tenantId = .str (uuidStr tenant) ∧ Admitted past v

/-- The voice is looked up, and speech is synthesised. -/
def Synthesises (v : Voice) (ts : List Moment) : Prop :=
  (∃ t ∈ ts, t.resolves = some v) ∧ ∃ t ∈ ts, ∃ r, t.eff = .io (.synthesize r)

/-- What an undisturbed run resolves is in its catalog. -/
theorem mem_of_resolves {α : Type} {x : SocketPy α} {c : Catalog} {ts : List Moment}
    (hrun : Amid x c ts) (hstill : undisturbed ts = true) {t : Moment} (ht : t ∈ ts) {v : Voice}
    (hv : t.resolves = some v) : v ∈ c.voices := by
  have hans := hrun.answered
  clear hrun
  induction ts with
  | nil => cases ht
  | cons u us ih =>
      unfold undisturbed at hstill
      rw [List.all_cons, Bool.and_eq_true] at hstill
      obtain ⟨hu, hus⟩ := hstill
      obtain ⟨before, during, e, a⟩ := u
      simp only [Bool.and_eq_true, List.isEmpty_iff] at hu
      obtain ⟨rfl, rfl⟩ := hu
      obtain ⟨hhead, htail⟩ := hans
      obtain rfl | ht := List.mem_cons.1 ht
      · cases e with
        | io e =>
            cases e with
            | selectVoice tenant voiceId =>
                cases a with
                | error y => cases hv
                | ok found =>
                    obtain rfl : found = some v := hv
                    cases voiceId with
                    | str slug =>
                        have hlooked : Looked c [] tenant slug (some v) := hhead
                        exact hlooked.mem
                    | _ => cases hhead
            | _ => cases hv
        | _ => cases hv
      · exact ih hus ht htail

/-- Tenant 1 enrolls a voice, shares it, and lets tenant 2 read it. -/
def readGrant : List Transaction :=
  [[.enroll {} sampleAttempt [1, 2] 5], [.voice 0 (.setVisibility 1 (py "ayse") (py "shared"))],
    [.grant 1 (py "ayse") 2 (py "read") none]]

/-- The catalog then. -/
def readCatalog : Catalog :=
  (Catalog.blank (fun _ => true) (fun _ => true) fun _ => true).commitAll readGrant

/-- Its voice is open to tenant 2 by the grant alone. -/
theorem readCatalog_voice :
    ∃ v, OnlyGranted readCatalog 2 v .read ∧ ∀ w ∈ readCatalog.voices, w = v := by
  have hrows : readCatalog.voices.rows.length = 1 ∧
      (readCatalog.voices.rows.all fun v => v.deletedAt.isNone && v.ownerTenantId == 1 &&
        v.visibility == .shared && v.id == 7) = true ∧
      readCatalog.access.rows = [⟨2, 7, .read, none⟩] := by
    decide +kernel
  obtain ⟨hone, hrow, haccess⟩ := hrows
  obtain ⟨v, hv⟩ := List.length_eq_one_iff.1 hone
  have hmem : ∀ w, w ∈ readCatalog.voices ↔ w = v := by
    intro w
    rw [← Table.mem_rows, hv, List.mem_singleton]
  rw [hv, List.all_cons, List.all_nil, Bool.and_true] at hrow
  simp only [Bool.and_eq_true, beq_iff_eq, Option.isNone_iff_eq_none] at hrow
  obtain ⟨⟨⟨hdel, howner⟩, hvis⟩, hid⟩ := hrow
  refine ⟨v, ⟨(hmem v).2 rfl, hdel, ?_, ?_, ⟨2, 7, .read, none⟩, ?_, rfl, hid.symm, rfl⟩,
    fun w hw => (hmem w).1 hw⟩
  · rw [howner]
    decide
  · rw [hvis]
    decide
  · rw [← Table.mem_rows, haccess]
    exact List.mem_singleton.2 rfl

/-- The awaits of tenant 2's request, up to the `XADD`. -/
def readRequest : List Moment :=
  attend oneMessage (List.replicate 11 []) readCatalog
    (asksForAyse.handler plainSocket ⟨2, 5⟩).run

/-- The job of the request. -/
def readJob : TtsJobPayload :=
  (readRequest[10]?.bind fun t => jobOf t.eff).get (by decide +kernel)

/-- The awaits of the worker that picks the job up. -/
def readPickup : List Moment :=
  attend oneMessage (List.replicate 11 []) readCatalog (io (processOneJob plain readJob none 1)).run

/-- Speech is synthesised. -/
def speaks (t : Moment) : Bool :=
  match t.eff with
  | .io (.synthesize _) => true
  | _ => false

/-- What speaks is the engine's await. -/
theorem eff_of_speaks {t : Moment} (h : speaks t = true) : ∃ r, t.eff = .io (.synthesize r) := by
  unfold speaks at h
  split at h
  · next r heff => exact ⟨r, heff⟩
  · cases h

/-- The worker synthesises speech, in the catalog's only voice. -/
theorem readPickup_synthesises : undisturbed readPickup = true ∧
    ∀ v, (∀ w ∈ readCatalog.voices, w = v) → Synthesises v readPickup := by
  have hpickup : Amid (io (processOneJob plain readJob none 1)) readCatalog readPickup :=
    amid_attend _ _ _ _
  have hawaits : undisturbed readPickup = true ∧
      (readPickup.any fun t => t.resolves.isSome) = true ∧ readPickup.any speaks = true := by
    decide +kernel
  obtain ⟨hstill, hsome, hspeaks⟩ := hawaits
  refine ⟨hstill, fun v honly => ⟨?_, ?_⟩⟩
  · obtain ⟨t, ht, hres⟩ := List.any_eq_true.1 hsome
    obtain ⟨w, hw⟩ := Option.isSome_iff_exists.1 hres
    have hmem : w ∈ readCatalog.voices := mem_of_resolves hpickup hstill ht hw
    exact ⟨t, ht, by rw [hw, honly w hmem]⟩
  · obtain ⟨t, ht, hspeak⟩ := List.any_eq_true.1 hspeaks
    exact ⟨t, ht, eff_of_speaks hspeak⟩

/-- **With a grant to read, a job is put on the stream and speech is synthesised.** -/
theorem read_grantee_served :
    (¬∀ (tenants apiKeys operators : Uuid → Bool) (txs : List Transaction) (tenant : Uuid)
      (v : Voice),
      OnlyGranted ((Catalog.blank tenants apiKeys operators).commitAll txs) tenant v .read →
      ∀ (S : SocketSettings) (ctx : AuthContext) (surface : Surface) (ts : List Moment),
        ctx.tenantId = tenant → undisturbed ts = true →
        Amid (surface.handler S ctx) ((Catalog.blank tenants apiKeys operators).commitAll txs) ts →
        ¬AddsJobFor tenant v ts) ∧
    ¬∀ (tenants apiKeys operators : Uuid → Bool) (txs : List Transaction) (tenant : Uuid)
      (v : Voice),
      OnlyGranted ((Catalog.blank tenants apiKeys operators).commitAll txs) tenant v .read →
      ∀ (W : Settings) (job : TtsJobPayload) (workerPickupMs : Option Nat) (attempt : Nat)
        (ts : List Moment), job.tenantId = .str (uuidStr tenant) → job.voiceId = .str v.voiceId →
        undisturbed ts = true →
        Amid (io (processOneJob W job workerPickupMs attempt))
          ((Catalog.blank tenants apiKeys operators).commitAll txs) ts →
        ¬Synthesises v ts := by
  obtain ⟨v, hgrant, honly⟩ := readCatalog_voice
  have hrequest : Amid (asksForAyse.handler plainSocket ⟨2, 5⟩) readCatalog readRequest :=
    amid_attend _ _ _ _
  have hstill : undisturbed readRequest = true := by decide +kernel
  have hjob : (readRequest[10]?.bind fun t => jobOf t.eff) = some readJob :=
    (Option.some_get _).symm
  obtain ⟨t, hsplit, hadd⟩ := split_of_jobOf hjob
  have hsplitRun := hrequest
  rw [hsplit] at hsplitRun
  obtain ⟨w, hw, htenant, hvoice⟩ := admitted_of_xaddJob hsplitRun hadd
  have hwv : w = v := by
    obtain ⟨u, hu, hres⟩ := ((hw w).2 rfl).resolved
    exact honly w (mem_of_resolves hrequest hstill (List.mem_of_mem_take hu) hres)
  subst hwv
  constructor
  · intro h
    exact h _ _ _ readGrant 2 w hgrant plainSocket ⟨2, 5⟩ asksForAyse readRequest rfl
      hstill hrequest ⟨_, t, _, readJob, hsplit, hadd, htenant, (hw w).2 rfl⟩
  · intro h
    have hpickup : Amid (io (processOneJob plain readJob none 1)) readCatalog readPickup :=
      amid_attend _ _ _ _
    obtain ⟨hquiet, hspeech⟩ := readPickup_synthesises
    exact h _ _ _ readGrant 2 w hgrant plain readJob none 1 readPickup htenant hvoice hquiet
      hpickup (hspeech w honly)

end NeuroVoice
