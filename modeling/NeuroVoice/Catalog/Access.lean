import NeuroVoice.Catalog.Repos
import Mathlib.Data.List.Lex

/-!
# NeuroVoice.Catalog.Access

Who can use a voice.

`Entitled` is the access law of the `Voice` model: the owner, everybody when
the voice is public, and the grantees when it is shared.  The queries of
`VoiceRepo` leave the visibility out of the third case, so they follow the
law exactly in the catalogs without a latent grant (`accessLaw_iff`), and in
every run that never makes one (`access_law`).
-/

namespace NeuroVoice

open VoiceRepo

/-! ## the law -/

/-- A `voice_access` row exists for the tenant and the voice. -/
def HasGrant (c : Catalog) (tenant : Uuid) (v : Voice) : Prop :=
  ∃ a ∈ c.access, a.tenantId = tenant ∧ a.voiceId = v.id

/-- The tenant may use the voice. -/
def Entitled (c : Catalog) (tenant : Uuid) (v : Voice) : Prop :=
  v.deletedAt = none ∧
    (v.ownerTenantId = tenant ∨ v.visibility = .pub ∨
      (v.visibility = .shared ∧ HasGrant c tenant v))

/-- What one of the three queries of `get_accessible` can return. -/
def candidates (c : Catalog) (tenant : Uuid) (slug : PyStr) : List Voice :=
  c.voices.rows.filter (ownedBy tenant slug) ++ sharedMatches c tenant slug ++
    publicMatches c slug

/-- The queries return the voices their tenant may use. -/
def AccessLaw (collate : PyStr → PyStr → Bool) (c : Catalog) : Prop :=
  ∀ tenant v,
    (v ∈ listAccessible collate c tenant false ↔ v ∈ c.voices ∧ Entitled c tenant v) ∧
    (v ∈ candidates c tenant v.voiceId ↔ v ∈ c.voices ∧ Entitled c tenant v)

/-- No private voice has a grant to somebody else. -/
def NoLatentGrant (c : Catalog) : Prop :=
  ∀ v ∈ c.voices, v.deletedAt = none → v.visibility = .priv →
    ∀ a ∈ c.access, a.voiceId = v.id → a.tenantId = v.ownerTenantId

theorem granted_iff {c : Catalog} {tenant : Uuid} {v : Voice} :
    granted c tenant v = true ↔ HasGrant c tenant v := by
  unfold granted HasGrant
  rw [List.any_eq_true]
  simp only [Table.mem_rows, Bool.and_eq_true, beq_iff_eq]

/-- What `list_accessible` returns: grants count whatever the visibility. -/
theorem mem_listAccessible {collate : PyStr → PyStr → Bool} {c : Catalog} {tenant : Uuid}
    {v : Voice} :
    v ∈ listAccessible collate c tenant false ↔ v ∈ c.voices ∧ v.deletedAt = none ∧
      (v.ownerTenantId = tenant ∨ v.visibility = .pub ∨ HasGrant c tenant v) := by
  unfold listAccessible accessible
  rw [List.mem_mergeSort, List.mem_filter, ← granted_iff]
  simp only [Table.mem_rows, Bool.and_eq_true, Bool.or_eq_true, beq_iff_eq, Bool.false_or,
    Option.isNone_iff_eq_none]
  constructor
  · rintro ⟨hv, (h | h) | h, hd⟩ <;> simp [hv, hd, h]
  · rintro ⟨hv, hd, h | h | h⟩ <;> simp [hv, hd, h]

/-- The candidates of `get_accessible` are those of `list_accessible`. -/
theorem mem_candidates {c : Catalog} {tenant : Uuid} {v : Voice} :
    v ∈ candidates c tenant v.voiceId ↔ v ∈ c.voices ∧ v.deletedAt = none ∧
      (v.ownerTenantId = tenant ∨ v.visibility = .pub ∨ HasGrant c tenant v) := by
  unfold candidates sharedMatches publicMatches ownedBy
  simp only [List.mem_append, List.mem_filter, ← granted_iff, Table.mem_rows, Bool.and_eq_true,
    beq_iff_eq, Option.isNone_iff_eq_none, true_and]
  constructor
  · rintro ((⟨hv, ⟨h, -⟩, hd⟩ | ⟨hv, h, hd⟩) | ⟨hv, h, hd⟩) <;> simp [hv, hd, h]
  · rintro ⟨hv, hd, h | h | h⟩ <;> simp [hv, hd, h]

/-- **The queries follow the law exactly when there is no latent grant.** -/
theorem accessLaw_iff {collate : PyStr → PyStr → Bool} {c : Catalog} :
    AccessLaw collate c ↔ NoLatentGrant c := by
  constructor
  · intro h v hv hd hpriv a ha hid
    by_contra hne
    have hlist : v ∈ listAccessible collate c a.tenantId false :=
      mem_listAccessible.2 ⟨hv, hd, .inr (.inr ⟨a, ha, rfl, hid⟩)⟩
    obtain ⟨-, -, howner | hpub | ⟨hshared, -⟩⟩ := ((h a.tenantId v).1).1 hlist
    · exact hne howner.symm
    · rw [hpriv] at hpub; cases hpub
    · rw [hpriv] at hshared; cases hshared
  · intro h tenant v
    have hkey : (v ∈ c.voices ∧ v.deletedAt = none ∧
        (v.ownerTenantId = tenant ∨ v.visibility = .pub ∨ HasGrant c tenant v)) ↔
        v ∈ c.voices ∧ Entitled c tenant v := by
      refine and_congr_right fun hv => and_congr_right fun hd => ?_
      constructor
      · rintro (howner | hpub | hgrant)
        · exact .inl howner
        · exact .inr (.inl hpub)
        · cases hvis : v.visibility with
          | priv =>
              obtain ⟨a, ha, htenant, hid⟩ := hgrant
              have := h v hv hd hvis a ha hid
              exact .inl (this.symm.trans htenant)
          | shared => exact .inr (.inr ⟨rfl, hgrant⟩)
          | pub => exact .inr (.inl rfl)
      · rintro (howner | hpub | ⟨-, hgrant⟩)
        · exact .inl howner
        · exact .inr (.inl hpub)
        · exact .inr (.inr hgrant)
    exact ⟨mem_listAccessible.trans hkey, mem_candidates.trans hkey⟩

/-! ## the operations -/

/-- An operation of some tenant on the catalog. -/
inductive AccessOp where
  | create (tenant id : Uuid) (now : Nat) (n : NewVoice)
  | setVisibility (tenant : Uuid) (slug visibility : PyStr)
  | updateMetadata (tenant : Uuid) (slug : PyStr) (p : MetadataPatch)
  | grant (owner : Uuid) (slug : PyStr) (grantee : Uuid) (permission : PyStr)
      (grantedBy : Option Uuid)
  | revoke (owner : Uuid) (slug : PyStr) (grantee : Uuid)
  | softDelete (tenant : Uuid) (slug : PyStr) (now : Nat)

/-- The catalog after the operation and its commit. -/
def AccessOp.perform : AccessOp → Catalog → Catalog
  | .create tenant id now n => (VoiceRepo.create tenant id now n).after
  | .setVisibility tenant slug visibility => (VoiceRepo.setVisibility tenant slug visibility).after
  | .updateMetadata tenant slug p => (VoiceRepo.updateMetadata tenant slug p).after
  | .grant owner slug grantee permission grantedBy =>
      (VoiceAccessRepo.grant owner slug grantee permission grantedBy).after
  | .revoke owner slug grantee => (VoiceAccessRepo.revoke owner slug grantee).after
  | .softDelete tenant slug now => (VoiceRepo.softDelete tenant slug now).after

/-- The catalog after a sequence of operations. -/
def performAll (c : Catalog) (ops : List AccessOp) : Catalog :=
  ops.foldl (fun c op => op.perform c) c

/-- Nobody but the owner has a grant for the voice the tenant owns under the
slug. -/
def onlyOwnGrants (c : Catalog) (tenant : Uuid) (slug : PyStr) : Bool :=
  match getOwned c tenant slug with
  | none => true
  | some v => c.access.rows.all fun a => a.voiceId != v.id || a.tenantId == tenant

/-- The operation makes no latent grant: a voice is made private only when
nobody else has a grant for it, and a private voice is granted to nobody
else. -/
def AccessOp.careful (c : Catalog) : AccessOp → Bool
  | .setVisibility tenant slug visibility =>
      visibility != py "private" || onlyOwnGrants c tenant slug
  | .updateMetadata tenant slug p =>
      p.visibility != some (py "private") || onlyOwnGrants c tenant slug
  | .grant owner slug grantee _ _ =>
      match getOwned c owner slug with
      | none => true
      | some v => v.visibility != .priv || grantee == owner
  | _ => true

/-- Every operation of the sequence is careful where it is performed. -/
def allCareful : Catalog → List AccessOp → Bool
  | _, [] => true
  | c, op :: ops => op.careful c && allCareful (op.perform c) ops

/-! ## what the operations keep -/

/-- A grant is for a voice that is there (a foreign key), and none is
latent. -/
structure GrantsInForce (c : Catalog) : Prop where
  voice : ∀ a ∈ c.access, ∃ v ∈ c.voices, v.id = a.voiceId
  current : NoLatentGrant c

section writes

variable {c c' : Catalog} {tenant : Uuid} {slug : PyStr}

/-- The step lemma of the owner's writes: the written row has the old id and
owner, and if it is undeleted and private afterwards then only the owner has
a grant. -/
theorem GrantsInForce.write {f : Voice → Voice} {r : Option Voice} (h : GrantsInForce c)
    (hw : writeOwned tenant slug f c = .ok (r, c')) (hid : ∀ v, (f v).id = v.id)
    (hown : ∀ v, (f v).ownerTenantId = v.ownerTenantId)
    (hpriv : ∀ v, getOwned c tenant slug = some v → (f v).deletedAt = none →
      (f v).visibility = .priv → v.visibility ≠ .priv → onlyOwnGrants c tenant slug = true) :
    GrantsInForce c' := by
  obtain ⟨-, -, rfl⟩ | ⟨v, t, ho, -, hm, rfl⟩ := writeOwned_ok hw
  · exact h
  obtain ⟨hv, howner, -, hdel⟩ := getOwned_eq_some ho
  constructor
  · intro a ha
    obtain ⟨w, hwv, hwid⟩ := h.voice a ha
    by_cases hwv' : w.id = v.id
    · exact ⟨f v, (mem_written hv hm).2 (.inl rfl), by rw [hid, ← hwv', hwid]⟩
    · exact ⟨w, (mem_written hv hm).2 (.inr ⟨hwv, hwv'⟩), hwid⟩
  · intro x hx hxdel hxpriv a ha haid
    obtain rfl | ⟨hxv, -⟩ := (mem_written hv hm).1 hx
    · rw [hid] at haid
      rw [hown]
      by_cases hvpriv : v.visibility = .priv
      · exact h.current v hv hdel hvpriv a ha haid
      · have hall := hpriv v ho hxdel hxpriv hvpriv
        simp only [onlyOwnGrants, ho, List.all_eq_true, Table.mem_rows] at hall
        have := hall a ha
        simp only [haid, bne_self_eq_false, Bool.false_or, beq_iff_eq] at this
        rw [this, howner]
    · exact h.current x hxv hxdel hxpriv a ha haid

/-- A new voice has no grants yet. -/
theorem GrantsInForce.create {id : Uuid} {now : Nat} {n : NewVoice} {v : Voice}
    (h : GrantsInForce c) (hc : VoiceRepo.create tenant id now n c = .ok (v, c')) :
    GrantsInForce c' := by
  obtain ⟨visibility, t, -, rfl, ht, rfl⟩ := create_ok hc
  constructor
  · intro a ha
    obtain ⟨w, hw, hwid⟩ := h.voice a ha
    exact ⟨w, (Table.mem_insert ht).2 (.inl hw), hwid⟩
  · intro x hx hxdel hxpriv a ha haid
    obtain hxv | rfl := (Table.mem_insert ht).1 hx
    · exact h.current x hxv hxdel hxpriv a ha haid
    · obtain ⟨w, hw, hwid⟩ := h.voice a ha
      have hfree := (Table.insert_isSome.1 (Option.isSome_iff_exists.2 ⟨t, ht⟩)).1 w hw
      simp [voices, hwid, haid] at hfree

/-- A grant is for the owner or for a voice that is not private. -/
theorem GrantsInForce.grant {grantee : Uuid} {permission : PyStr} {grantedBy : Option Uuid}
    {r : Option VoiceAccess} (h : GrantsInForce c)
    (hg : VoiceAccessRepo.grant tenant slug grantee permission grantedBy c = .ok (r, c'))
    (hcare : AccessOp.careful c (.grant tenant slug grantee permission grantedBy) = true) :
    GrantsInForce c' := by
  obtain rfl | ⟨v, ho, hvoices, haccess⟩ := VoiceAccessRepo.grant_ok hg
  · exact h
  obtain ⟨hv, howner, -, hdel⟩ := getOwned_eq_some ho
  constructor
  · intro a ha
    rw [hvoices]
    obtain ha | ⟨-, ha⟩ := haccess a ha
    · exact h.voice a ha
    · exact ⟨v, hv, ha.symm⟩
  · intro x hx hxdel hxpriv a ha haid
    rw [hvoices] at hx
    obtain ha | ⟨hat, hav⟩ := haccess a ha
    · exact h.current x hx hxdel hxpriv a ha haid
    · have hxv : x = v := Table.eq_of_clash hx hv (by simp [voices, ← haid, hav])
      subst hxv
      simp only [AccessOp.careful, ho, hxpriv, bne_self_eq_false, Bool.false_or,
        beq_iff_eq] at hcare
      rw [hat, hcare, howner]

/-- A revocation only removes grants. -/
theorem GrantsInForce.revoke {grantee : Uuid} {n : Nat} (h : GrantsInForce c)
    (hr : VoiceAccessRepo.revoke tenant slug grantee c = .ok (n, c')) : GrantsInForce c' := by
  have hsub := VoiceAccessRepo.revoke_ok hr
  constructor
  · intro a ha
    rw [hsub.1]
    exact h.voice a (hsub.2 a ha)
  · intro x hx hxdel hxpriv a ha haid
    rw [hsub.1] at hx
    exact h.current x hx hxdel hxpriv a (hsub.2 a ha) haid

end writes

/-- The step lemma: a careful operation keeps the grants in force. -/
theorem GrantsInForce.perform {c : Catalog} (h : GrantsInForce c) (op : AccessOp)
    (hcare : op.careful c = true) : GrantsInForce (op.perform c) := by
  have hwhen : ∀ {α : Type} (x : Tx α), (∀ a c', x c = .ok (a, c') → GrantsInForce c') →
      GrantsInForce (x.after c) := by
    intro α x hx
    obtain heq | ⟨a, ha⟩ := x.after_cases c
    · rw [heq]; exact h
    · exact hx a _ ha
  have hvis : ∀ s, Visibility.ofStr? s = some .priv → s = py "private" := by
    intro s hs
    unfold Visibility.ofStr? at hs
    grind
  cases op with
  | create tenant id now n => exact hwhen _ fun v c' hc => h.create hc
  | setVisibility tenant slug visibility =>
      refine hwhen _ fun r c' hc => ?_
      obtain ⟨vis, hs, hc⟩ := setVisibility_ok hc
      refine h.write hc (fun _ => rfl) (fun _ => rfl) fun v ho _ hp _ => ?_
      obtain rfl : vis = .priv := hp
      simpa [AccessOp.careful, hvis _ hs] using hcare
  | updateMetadata tenant slug p =>
      refine hwhen _ fun r c' hc => ?_
      obtain ⟨-, hc⟩ | ⟨s, vis, hs, hvs, hc⟩ | rfl := updateMetadata_ok hc
      · exact h.write hc (fun _ => rfl) (fun _ => rfl) fun v _ _ hp hnp => (hnp hp).elim
      · refine h.write hc (fun _ => rfl) (fun _ => rfl) fun v ho _ hp _ => ?_
        obtain rfl : vis = .priv := hp
        simpa [AccessOp.careful, hs, hvis _ hvs] using hcare
      · exact h
  | grant owner slug grantee permission grantedBy => exact hwhen _ fun r c' hc => h.grant hc hcare
  | revoke owner slug grantee => exact hwhen _ fun r c' hc => h.revoke hc
  | softDelete tenant slug now =>
      refine hwhen _ fun r c' hc => ?_
      exact h.write hc (fun _ => rfl) (fun _ => rfl) fun v _ hdel => by simp at hdel

/-- The run lemma. -/
theorem GrantsInForce.performAll {c : Catalog} (h : GrantsInForce c) (ops : List AccessOp)
    (hcare : allCareful c ops = true) : GrantsInForce (performAll c ops) := by
  induction ops generalizing c with
  | nil => exact h
  | cons op ops ih =>
      simp only [allCareful, Bool.and_eq_true] at hcare
      exact ih (h.perform op hcare.1) hcare.2

/-- **Voice access law**: in every state a sequence of careful operations
reaches from the empty catalog, the queries return exactly the voices their
tenant may use. -/
theorem access_law (collate : PyStr → PyStr → Bool) (tenants apiKeys operators : Uuid → Bool)
    (ops : List AccessOp)
    (hcare : allCareful (Catalog.blank tenants apiKeys operators) ops = true) :
    AccessLaw collate (performAll (Catalog.blank tenants apiKeys operators) ops) := by
  have h₀ : GrantsInForce (Catalog.blank tenants apiKeys operators) :=
    ⟨fun a ha => (Table.not_mem_empty a ha).elim, fun v hv => (Table.not_mem_empty v hv).elim⟩
  exact accessLaw_iff.2 (h₀.performAll ops hcare).current

/-- Tenant 1 shares a voice with tenant 2. -/
def shareAyse : List AccessOp :=
  [.create 1 7 0 sampleVoice, .setVisibility 1 (py "ayse") (py "shared"),
    .grant 1 (py "ayse") 2 (py "use") none]

/-- Slugs ordered by code point: the collation `C`. -/
def byCodePoint (a b : PyStr) : Bool := decide (a ≤ b)

/-- A voice is created, shared, and granted to another tenant. -/
theorem access_law_example :
    AccessLaw byCodePoint (performAll (.blank (fun _ => true) (fun _ => true) fun _ => true)
      shareAyse) :=
  access_law byCodePoint (fun _ => true) (fun _ => true) (fun _ => true) shareAyse
    (by decide +kernel)

/-- A voice set back to private stays usable for its grantees. -/
theorem latent_grant_gives_access :
    ¬∀ ops, AccessLaw byCodePoint
      (performAll (.blank (fun _ => true) (fun _ => true) fun _ => true) ops) := by
  intro h
  have hlatent := accessLaw_iff.1
    (h (shareAyse ++ [.setVisibility 1 (py "ayse") (py "private")]))
  have hfound : ((performAll (.blank (fun _ => true) (fun _ => true) fun _ => true)
      (shareAyse ++ [.setVisibility 1 (py "ayse") (py "private")])).voices.rows.any fun v =>
        v.deletedAt.isNone && v.visibility == .priv && v.ownerTenantId == 1 && v.id == 7) = true ∧
      (performAll (.blank (fun _ => true) (fun _ => true) fun _ => true)
        (shareAyse ++ [.setVisibility 1 (py "ayse") (py "private")])).access.rows =
          [⟨2, 7, .use, none⟩] := by
    decide +kernel
  obtain ⟨hv, ha⟩ := hfound
  obtain ⟨v, hv, hp⟩ := List.any_eq_true.1 hv
  simp only [Bool.and_eq_true, beq_iff_eq, Option.isNone_iff_eq_none] at hp
  have := hlatent v hv hp.1.1.1 hp.1.1.2 ⟨2, 7, .use, none⟩ (by rw [← Table.mem_rows, ha]; simp)
    hp.2.symm
  rw [hp.1.2] at this
  revert this
  decide

end NeuroVoice
