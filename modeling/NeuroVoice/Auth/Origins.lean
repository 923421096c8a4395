import NeuroVoice.Auth.Warrants
import NeuroVoice.Lib.Lineage

/-!
# NeuroVoice.Auth.Origins

Where the rows of the directory come from.

No row is ever lost, and each keeps what identifies it (`Directory.Evolves`): a
key's row is used or revoked, a tenant's changes its status, an operator's
remembers a login.  So a row that a call has read goes back to the commit that
added it (`keys_lineage`), and a key that is revoked stays so.
-/

namespace NeuroVoice

/-- A transition of the authentication code. -/
abbrev AuthTrans : Type := Trans Directory AuthEff AuthAns AuthCall AuthOutcome

/-! ## how rows change -/

/-- What may have happened to a key's row: it is used, or revoked. -/
structure ApiKey.Becomes (k l : ApiKey) : Prop where
  id : l.id = k.id
  tenantId : l.tenantId = k.tenantId
  keyPrefix : l.keyPrefix = k.keyPrefix
  secretHash : l.secretHash = k.secretHash
  scopes : l.scopes = k.scopes
  revoked : k.isActive = false → l.isActive = false

/-- What may have happened to a tenant's row: its status has changed. -/
structure Tenant.Becomes (t u : Tenant) : Prop where
  id : u.id = t.id
  slug : u.slug = t.slug
  displayName : u.displayName = t.displayName
  deletedAt : u.deletedAt = t.deletedAt

/-- What may have happened to an operator's row: a login. -/
structure Operator.Becomes (o u : Operator) : Prop where
  id : u.id = o.id
  email : u.email = o.email
  passwordHash : u.passwordHash = o.passwordHash
  roles : u.roles = o.roles
  disabledAt : u.disabledAt = o.disabledAt

theorem ApiKey.Becomes.refl (k : ApiKey) : k.Becomes k := ⟨rfl, rfl, rfl, rfl, rfl, fun h => h⟩

theorem ApiKey.Becomes.trans (k l m : ApiKey) (h : k.Becomes l) (h' : l.Becomes m) : k.Becomes m :=
  ⟨h'.id.trans h.id, h'.tenantId.trans h.tenantId, h'.keyPrefix.trans h.keyPrefix,
    h'.secretHash.trans h.secretHash, h'.scopes.trans h.scopes, fun hk => h'.revoked (h.revoked hk)⟩

theorem Tenant.Becomes.refl (t : Tenant) : t.Becomes t := ⟨rfl, rfl, rfl, rfl⟩

theorem Tenant.Becomes.trans (t u v : Tenant) (h : t.Becomes u) (h' : u.Becomes v) : t.Becomes v :=
  ⟨h'.id.trans h.id, h'.slug.trans h.slug, h'.displayName.trans h.displayName,
    h'.deletedAt.trans h.deletedAt⟩

theorem Operator.Becomes.refl (o : Operator) : o.Becomes o := ⟨rfl, rfl, rfl, rfl, rfl⟩

theorem Operator.Becomes.trans (o u v : Operator) (h : o.Becomes u) (h' : u.Becomes v) :
    o.Becomes v :=
  ⟨h'.id.trans h.id, h'.email.trans h.email, h'.passwordHash.trans h.passwordHash,
    h'.roles.trans h.roles, h'.disabledAt.trans h.disabledAt⟩

/-- What statements do to the directory. -/
structure Directory.Evolves (ss : List DirectoryWrite) (w w' : Directory) : Prop where
  keys : Descends ApiKey.Becomes (fun k => .insertKey k ∈ ss) w.keys w'.keys
  tenants : Descends Tenant.Becomes (fun t => .insertTenant t ∈ ss) w.tenants w'.tenants
  operators : Descends Operator.Becomes (fun o => .insertOperator o ∈ ss) w.operators w'.operators

namespace Directory.Evolves

variable {ss ss' : List DirectoryWrite} {w w' w'' : Directory}

/-- The tables are the same. -/
theorem of_eq (hkeys : w'.keys = w.keys) (htenants : w'.tenants = w.tenants)
    (hoperators : w'.operators = w.operators) : Evolves ss w w' where
  keys := hkeys ▸ Descends.refl ApiKey.Becomes.refl _
  tenants := htenants ▸ Descends.refl Tenant.Becomes.refl _
  operators := hoperators ▸ Descends.refl Operator.Becomes.refl _

theorem trans (h : Evolves ss w w') (h' : Evolves ss w' w'') : Evolves ss w w'' where
  keys := h.keys.trans ApiKey.Becomes.trans h'.keys
  tenants := h.tenants.trans Tenant.Becomes.trans h'.tenants
  operators := h.operators.trans Operator.Becomes.trans h'.operators

theorem mono (h : Evolves ss w w') (hsub : ss ⊆ ss') : Evolves ss' w w' where
  keys := h.keys.mono fun _ hk => hsub hk
  tenants := h.tenants.mono fun _ ht => hsub ht
  operators := h.operators.mono fun _ ho => hsub ho

end Directory.Evolves

section evolution

variable {w w' : Directory} {s : DirectoryWrite} {ss : List DirectoryWrite}

/-- One statement. -/
theorem Directory.evolves_write (h : w.write s = some w') : w.Evolves [s] w' := by
  have hkeys : Descends ApiKey.Becomes (fun k => .insertKey k ∈ [s]) w.keys w.keys :=
    Descends.refl ApiKey.Becomes.refl _
  have htenants : Descends Tenant.Becomes (fun t => .insertTenant t ∈ [s]) w.tenants w.tenants :=
    Descends.refl Tenant.Becomes.refl _
  have hoperators : Descends Operator.Becomes (fun o => .insertOperator o ∈ [s]) w.operators
    w.operators := Descends.refl Operator.Becomes.refl _
  cases s with
  | insertTenant t =>
      obtain ⟨ts, hts, rfl⟩ := Option.map_eq_some_iff.1 h
      exact ⟨hkeys, (Descends.of_insert Tenant.Becomes.refl hts).mono fun _ ht => by simp [ht],
        hoperators⟩
  | setTenantStatus id status =>
      simp only [write, Option.ite_none_right_eq_some] at h
      obtain ⟨ts, hts, rfl⟩ := Option.map_eq_some_iff.1 h.2
      exact ⟨hkeys, Descends.of_modify Tenant.Becomes.refl hts fun _ => ⟨rfl, rfl, rfl, rfl⟩,
        hoperators⟩
  | insertOperator o =>
      obtain ⟨os, hos, rfl⟩ := Option.map_eq_some_iff.1 h
      exact ⟨hkeys, htenants,
        (Descends.of_insert Operator.Becomes.refl hos).mono fun _ ho => by simp [ho]⟩
  | setLastLogin id n =>
      simp only [write, Option.ite_none_right_eq_some] at h
      obtain ⟨os, hos, rfl⟩ := Option.map_eq_some_iff.1 h.2
      exact ⟨hkeys, htenants,
        Descends.of_modify Operator.Becomes.refl hos fun _ => ⟨rfl, rfl, rfl, rfl, rfl⟩⟩
  | insertKey k =>
      simp only [write, Option.ite_none_right_eq_some] at h
      obtain ⟨ks, hks, rfl⟩ := Option.map_eq_some_iff.1 h.2
      exact ⟨(Descends.of_insert ApiKey.Becomes.refl hks).mono fun _ hk => by simp [hk], htenants,
        hoperators⟩
  | setRevoked id n reason =>
      simp only [write, Option.ite_none_right_eq_some] at h
      obtain ⟨ks, hks, rfl⟩ := Option.map_eq_some_iff.1 h.2
      exact ⟨Descends.of_modify ApiKey.Becomes.refl hks
        fun _ => ⟨rfl, rfl, rfl, rfl, rfl, fun _ => rfl⟩, htenants, hoperators⟩
  | setLastUsed id n =>
      simp only [write, Option.ite_none_right_eq_some] at h
      obtain ⟨ks, hks, rfl⟩ := Option.map_eq_some_iff.1 h.2
      exact ⟨Descends.of_modify ApiKey.Becomes.refl hks
        fun _ => ⟨rfl, rfl, rfl, rfl, rfl, fun hk => hk⟩, htenants, hoperators⟩
  | insertAudit a =>
      cases h
      exact ⟨hkeys, htenants, hoperators⟩

theorem Directory.evolves_writeAll (h : w.writeAll ss = some w') : w.Evolves ss w' := by
  induction ss generalizing w with
  | nil =>
      cases h
      exact .of_eq rfl rfl rfl
  | cons s ss ih =>
      obtain ⟨w₁, hs, hss⟩ := Option.bind_eq_some_iff.1 h
      exact ((evolves_write hs).mono (by simp)).trans ((ih hss).mono (List.subset_cons_self _ _))

/-- Statements that revoke a key leave it revoked. -/
theorem Directory.revoked_of_writeAll (h : w.writeAll ss = some w') {id : Uuid} {n : Nat}
    {reason : Option PyStr} (hs : .setRevoked id n reason ∈ ss) :
    ∃ k ∈ w'.keys, k.id = id ∧ k.isActive = false := by
  induction ss generalizing w with
  | nil => cases hs
  | cons s ss ih =>
      obtain ⟨w₁, hw₁, hss⟩ := Option.bind_eq_some_iff.1 h
      obtain rfl | hs := List.mem_cons.1 hs
      · simp only [write, Option.ite_none_right_eq_some] at hw₁
        obtain ⟨ks, hks, rfl⟩ := Option.map_eq_some_iff.1 hw₁.2
        obtain ⟨k, hk, hid⟩ := List.any_eq_true.1 hw₁.1
        have hid : k.id = id := of_decide_eq_true hid
        have hmem := (Table.mem_modify hks).2 ⟨k, hk, rfl⟩
        obtain ⟨k', hk', hbecomes⟩ := (evolves_writeAll hss).keys.kept _ hmem
        refine ⟨k', hk', hbecomes.id.trans ?_, hbecomes.revoked ?_⟩
        · simp [hid]
        · simp [hid, ApiKey.isActive]
      · exact ih hss hs

/-- The statements that an await publishes. -/
def AuthEff.writes : AuthEff → List DirectoryWrite
  | .commit ss => ss
  | _ => []

/-- A statement that only an operator route sends. -/
def DirectoryWrite.isOperators : DirectoryWrite → Bool
  | .insertTenant _ | .insertKey _ | .setRevoked _ _ _ => true
  | _ => false

/-- The statements that an event publishes. -/
def AuthTrans.writes (t : AuthTrans) : List DirectoryWrite :=
  match t.ev with
  | .act _ e _ => e.writes
  | _ => []

/-- What an await does: it commits, or leaves the tables. -/
theorem Directory.perform_cases (e : AuthEff) (g : AuthHint) (w : Directory) :
    w.Evolves e.writes (w.perform e g).2 := by
  cases e with
  | commit ss =>
      simp only [perform]
      split
      · next h => exact evolves_writeAll h
      · exact .of_eq rfl rfl rfl
  | checkKey id limit now m =>
      simp only [perform]
      split <;> exact .of_eq rfl rfl rfl
  | checkTenant id limit now m =>
      simp only [perform]
      split <;> exact .of_eq rfl rfl rfl
  | _ => exact .of_eq rfl rfl rfl

theorem Directory.evolves_exec {e : AuthEff} {o : AuthOracle} {a : AuthAns e}
    (h : w.exec e o = some (a, w')) : w.Evolves e.writes w' := by
  unfold exec at h
  split at h
  · next g =>
      have hp := perform_cases e g w
      split at h
      · next heq => cases h; rwa [heq] at hp
      · next heq => cases h; rwa [heq] at hp
  · split at h <;> cases h
    exact .of_eq rfl rfl rfl
  · next g =>
      split at h <;> cases h
      exact perform_cases e g w

end evolution

/-! ## what awaits have returned -/

section answers

variable {w w' : Directory} {e : AuthEff} {o : AuthOracle}

/-- An await that has returned was performed. -/
theorem Directory.exec_ok {a : e.Ret} (h : w.exec e o = some (.ok a, w')) :
    ∃ g, w.perform e g = (.ok a, w') := by
  unfold exec at h
  split at h
  · next g =>
      split at h
      · next heq => cases h; exact ⟨g, heq⟩
      · cases h
  · split at h <;> cases h
  · split at h <;> cases h

theorem Directory.activeKey_read {keyPrefix : PyStr} {k : ApiKey}
    (h : w.exec (.selectActiveKey keyPrefix) o = some (.ok (some k), w')) :
    k ∈ w.keys ∧ k.keyPrefix = keyPrefix ∧ k.isActive = true := by
  obtain ⟨g, h⟩ := exec_ok h
  obtain ⟨hfound, -⟩ := Prod.mk.inj h
  obtain ⟨hmem, hcond⟩ := Table.find?_eq_some (Except.ok.inj hfound)
  exact ⟨hmem, by simpa using hcond⟩

theorem Directory.key_read {id : Uuid} {k : ApiKey}
    (h : w.exec (.selectKey id) o = some (.ok (some k), w')) : k ∈ w.keys ∧ k.id = id := by
  obtain ⟨g, h⟩ := exec_ok h
  obtain ⟨hfound, -⟩ := Prod.mk.inj h
  obtain ⟨hmem, hcond⟩ := Table.find?_eq_some (Except.ok.inj hfound)
  exact ⟨hmem, by simpa using hcond⟩

theorem Directory.tenant_read {id : Uuid} {t : Tenant}
    (h : w.exec (.selectTenant id) o = some (.ok (some t), w')) : t ∈ w.tenants ∧ t.id = id := by
  obtain ⟨g, h⟩ := exec_ok h
  obtain ⟨hfound, -⟩ := Prod.mk.inj h
  obtain ⟨hmem, hcond⟩ := Table.find?_eq_some (Except.ok.inj hfound)
  exact ⟨hmem, by simpa using hcond⟩

theorem Directory.operator_read {id : Uuid} {op : Operator}
    (h : w.exec (.selectOperator id) o = some (.ok (some op), w')) :
    op ∈ w.operators ∧ op.id = id := by
  obtain ⟨g, h⟩ := exec_ok h
  obtain ⟨hfound, -⟩ := Prod.mk.inj h
  obtain ⟨hmem, hcond⟩ := Table.find?_eq_some (Except.ok.inj hfound)
  exact ⟨hmem, by simpa using hcond⟩

theorem Directory.commit_done {ss : List DirectoryWrite}
    (h : w.exec (.commit ss) o = some (.ok (), w')) : w.writeAll ss = some w' := by
  obtain ⟨g, h⟩ := exec_ok h
  simp only [perform] at h
  split at h
  · next w₁ hw₁ =>
      cases h
      exact hw₁
  · cases h

end answers

/-! ## along a run -/

section runs

variable {S : AuthSettings} {w₀ : Directory} {past rest ts : List AuthTrans} {t : AuthTrans}
  {c : Config Directory AuthEff AuthAns AuthOutcome}

theorem step_evolves {c' : Config Directory AuthEff AuthAns AuthOutcome}
    {ev : Event AuthEff AuthAns AuthCall AuthOutcome} (h : Step (authSystem S) c ev c') :
    c.world.Evolves (AuthTrans.writes ⟨c.world, ev, c'.world⟩) c'.world := by
  cases h with
  | act hp hx => exact Directory.evolves_exec hx
  | spawn hp => exact .of_eq rfl rfl rfl
  | done hp => exact .of_eq rfl rfl rfl
  | crash hp => exact .of_eq rfl rfl rfl
  | tick => exact .of_eq rfl rfl rfl

/-- What is there stays, from any moment on. -/
theorem run_evolves {us : List AuthTrans} (h : Trace (authSystem S) w₀ (past ++ us) c) :
    ∃ c₀, Trace (authSystem S) w₀ past c₀ ∧ ∃ ss, c₀.world.Evolves ss c.world := by
  refine h.leads (Q := fun w w' => ∃ ss, Directory.Evolves ss w w')
    (fun w => ⟨[], .of_eq rfl rfl rfl⟩) ?_ fun _ _ _ hs => ⟨_, step_evolves hs⟩
  rintro w w' w'' ⟨ss, h⟩ ⟨ss', h'⟩
  exact ⟨ss ++ ss', (h.mono (List.subset_append_left _ _)).trans
    (h'.mono (List.subset_append_right _ _))⟩

/-- The worlds around a transition go on to the last one. -/
theorem evolves_from (h : Trace (authSystem S) w₀ (past ++ t :: rest) c) :
    (∃ ss, t.pre.Evolves ss c.world) ∧ ∃ ss, t.post.Evolves ss c.world := by
  constructor
  · obtain ⟨c₀, -, h₀, hpre, -⟩ := h.moment
    obtain ⟨c₁, h₁, hgrow⟩ := run_evolves h
    rwa [← hpre, h₀.world_eq h₁]
  · rw [← List.singleton_append, ← List.append_assoc] at h
    obtain ⟨c₁, h₁, hgrow⟩ := run_evolves h
    obtain ⟨-, -, -, hpost, -⟩ := h₁.last
    rwa [← hpost]

/-- A step's commit adds the row that has become `k`. -/
def AddsKey (k : ApiKey) (t : AuthTrans) : Prop := ∃ k₀, .insertKey k₀ ∈ t.writes ∧ k₀.Becomes k

/-- A key's row was there from the beginning, or a commit has added it. -/
theorem keys_lineage (h : Trace (authSystem S) w₀ ts c) :
    ∀ k ∈ c.world.keys, (∃ k₀ ∈ w₀.keys, k₀.Becomes k) ∨ Once (fun _ t => AddsKey k t) ts := by
  induction h with
  | nil => exact fun k hk => .inl ⟨k, hk, .refl k⟩
  | snoc h hs ih =>
      intro k hk
      obtain ⟨k₁, hk₁, hbecomes⟩ | hnew := (step_evolves hs).keys.origin k hk
      · obtain ⟨k₀, hk₀, hold⟩ | hadds := ih k₁ hk₁
        · exact .inl ⟨k₀, hk₀, hold.trans _ _ _ hbecomes⟩
        · refine .inr ((hadds.mono fun past t ht => ?_).append _)
          obtain ⟨k₀, hk₀, hold⟩ := ht
          exact ⟨k₀, hk₀, hold.trans _ _ _ hbecomes⟩
      · obtain ⟨k₀, hk₀, hbecomes⟩ := hnew
        exact .inr (once_snoc.2 (.inr ⟨k₀, hk₀, hbecomes⟩))

/-- An entry of a diary is an await of the process, performed in the world of
its time. -/
theorem got_at {p : Nat} {e : AuthEff} {a : e.Ret} (h : Trace (authSystem S) w₀ past c)
    (hg : Got (own p past) e a) : ∃ before s after, past = before ++ s :: after ∧
      s.ev = .act p e (.ok a) ∧ ∃ o, s.pre.exec e o = some (.ok a, s.post) := by
  obtain ⟨s, hs, hev⟩ := mem_own.1 hg
  obtain ⟨before, after, rfl⟩ := List.append_of_mem hs
  refine ⟨before, s, after, rfl, hev, ?_⟩
  obtain ⟨c₀, c₁, -, hpre, hpost, hstep⟩ := h.moment
  rw [hev] at hstep
  cases hstep with
  | act hp hx =>
      subst hpost
      rw [← hpre]
      exact ⟨_, hx⟩

end runs

end NeuroVoice
