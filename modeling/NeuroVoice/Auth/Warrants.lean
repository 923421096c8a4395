import NeuroVoice.Auth.Routes
import NeuroVoice.Lib.Diary

/-!
# NeuroVoice.Auth.Warrants

What a call of the authentication code must have seen before it writes, and
before it returns.

The warrants speak about the diary of one process: the rows it has read, the
clock it has seen, the secrets it has drawn.  `authSystem_keeps` shows that
every call has one for each of its statements and for what it returns.
-/

namespace NeuroVoice

/-- The diary of a call. -/
abbrev AuthDiary : Type := Diary AuthEff AuthAns

/-- The await `e` has returned `a`. -/
def Got (h : AuthDiary) (e : AuthEff) (a : e.Ret) : Prop := ⟨e, .ok a⟩ ∈ h

/-- An await has raised this exception. -/
def Raised (h : AuthDiary) (x : AuthExn) : Prop := ∃ e, ⟨e, .error x⟩ ∈ h

/-- Awaits raise foreign exceptions only. -/
def AuthEff.possible (e : AuthEff) : AuthAns e → Prop
  | .ok _ => True
  | .error x => ∃ f, x = .foreign f

/-! ## what a call has seen -/

section seen

variable (S : AuthSettings) (h : AuthDiary)

/-- `key` is active and has the prefix of the header's token. -/
structure Named (authorization : Option PyStr) (parsed : ParsedApiKey) (key : ApiKey) : Prop where
  carried : ∃ token, bearerToken authorization = some token ∧ parseApiKey token = .ok parsed
  found : Got h (.selectActiveKey parsed.keyPrefix) (some key)

/-- The header carries the secret of `key`, too. -/
def Presented (authorization : Option PyStr) (key : ApiKey) : Prop :=
  ∃ parsed, Named h authorization parsed key ∧ S.argon2.verify key.secretHash parsed.secret = .ok ()

/-- A stored key that cannot be checked: argon2 cannot read its hash, or its
tenant is missing afterwards. -/
def Unreadable (authorization : Option PyStr) : Prop :=
  ∃ parsed key seen rest, seen ++ rest = h ∧ Named seen authorization parsed key ∧
    ((∃ x, S.argon2.verify key.secretHash parsed.secret = .error (.other x)) ∨
      Got rest (.selectTenant key.tenantId) none)

/-- The key's tenant is active, and the key has the scopes. -/
structure Permitted (authorization : Option PyStr) (scopes : List PyStr) (tenant : Tenant)
    (key : ApiKey) : Prop where
  presented : Presented S h authorization key
  owner : Got h (.selectTenant key.tenantId) (some tenant)
  active : tenant.status = .active
  covers : ∀ s ∈ scopes, s ∈ key.scopes

/-- The key's bucket has admitted the call. -/
def RoomForKey (key : ApiKey) : Prop :=
  ∃ now m r, Got h (.checkKey key.id key.rateLimitPerMinute now m) r ∧ r.allowed = true

/-- The tenant's bucket has admitted the call. -/
def RoomForTenant (tenant : Tenant) : Prop :=
  ∃ now m r, Got h (.checkTenant tenant.id S.tenantRateLimitPerMinute now m) r ∧ r.allowed = true

/-- The cookie is an unexpired access token of `op`, who is not disabled. -/
def Operates (cookie : Option PyStr) (op : Operator) : Prop :=
  ∃ (token : PyStr) (now : Nat) (claims : OperatorClaims), cookie = some token ∧ Got h .clock now ∧
    decodeOperatorJwt S token .access now = .ok claims ∧
    Got h (.selectOperator claims.operatorId) (some op) ∧ op.disabledAt = none

/-- `op` has this e-mail address and this password, and is not disabled. -/
structure LogsIn (email password : PyStr) (op : Operator) : Prop where
  found : Got h (.selectOperatorByEmail (S.lower email)) (some op)
  enabled : op.disabledAt = none
  verified : S.argon2.verify op.passwordHash password = .ok ()

/-- The session was issued to `op` at `now`, a time that the call has read. -/
structure IssuedTo (op : Operator) (s : OperatorSession) (now : Nat) : Prop where
  clock : Got h .clock now
  operatorId : s.operatorId = op.id
  issuedAt : s.issuedAt = now / 1000

/-- The key was made of the call's own draws, for a tenant that is there. -/
def Made (tenantId : Uuid) (label : Option PyStr) (rate : Int) (env : PyStr) (op : Operator)
    (key : ApiKey) (fullKey : PyStr) : Prop :=
  ∃ (t : Tenant) (draw : Nat → Fin base62Alphabet.length) (salt : PyStr) (made : GeneratedApiKey)
    (id : Uuid), Got h (.selectTenant tenantId) (some t) ∧ t.deletedAt = none ∧
    Got h .choices draw ∧ Got h .salt salt ∧
    generateApiKey (S.argon2.hash salt) env draw = .ok made ∧
    key = newApiKey id t.id made none rate label op.id ∧ fullKey = made.fullKey

/-- The key is revoked: the call has found it so, or has committed it. -/
def Revokes (tenantId keyId : Uuid) (reason : Option PyStr) (id : Uuid) (already : Bool) : Prop :=
  ∃ key, Got h (.selectKey keyId) (some key) ∧ key.tenantId = tenantId ∧ id = key.id ∧
    if already then key.isActive = false
    else ∃ ss n, Got h (.commit ss) () ∧ .setRevoked key.id n reason ∈ ss

end seen

/-! ## warrants -/

namespace AuthCall

variable (S : AuthSettings)

/-- What entitles a call to a statement. -/
def warrantsWrite (h : AuthDiary) : AuthCall → DirectoryWrite → Prop
  | _, .insertAudit _ => True
  | .authenticate authorization scopes, .setLastUsed id _ => ∃ tenant key,
      Permitted S h authorization scopes tenant key ∧ RoomForKey h key ∧
        RoomForTenant S h tenant ∧ id = key.id
  | .login email password, .setLastLogin id _ => ∃ op, LogsIn S h email password op ∧ id = op.id
  | .createTenant cookie slug displayName, .insertTenant t => ∃ op id,
      Operates S h cookie op ∧ t = { id, slug, displayName }
  | .createApiKey cookie tenantId label rate env, .insertKey key => ∃ op fullKey,
      Operates S h cookie op ∧ Made S h tenantId label rate env op key fullKey
  | .revokeApiKey cookie tenantId keyId reason, .setRevoked id _ reason' => ∃ op key,
      Operates S h cookie op ∧ Got h (.selectKey keyId) (some key) ∧ key.tenantId = tenantId ∧
        id = key.id ∧ reason' = reason
  | .suspend id, .setTenantStatus id' status => status = .suspended ∧
      ∃ t, Got h (.selectTenant id) (some t) ∧ id' = t.id
  | .reactivate id, .setTenantStatus id' status => status = .active ∧
      ∃ t, Got h (.selectTenant id) (some t) ∧ id' = t.id
  | .seedOperator _ _ _ _, .insertOperator _ => True
  | _, _ => False

/-- What entitles a call to an await. -/
def warrants (call : AuthCall) (h : AuthDiary) : AuthEff → Prop
  | .flush s => call.warrantsWrite S h s
  | .commit ss => ∀ s ∈ ss, call.warrantsWrite S h s
  | .checkKey id limit _ _ => ∃ authorization scopes tenant key,
      call = .authenticate authorization scopes ∧ Permitted S h authorization scopes tenant key ∧
        id = key.id ∧ limit = key.rateLimitPerMinute
  | .checkTenant id limit _ _ => ∃ authorization scopes tenant key,
      call = .authenticate authorization scopes ∧ Permitted S h authorization scopes tenant key ∧
        RoomForKey h key ∧ id = tenant.id ∧ limit = S.tenantRateLimitPerMinute
  | _ => True

/-- What entitles a call to its outcome. -/
def justifies (call : AuthCall) (h : AuthDiary) : AuthOutcome → Prop
  | .ok (.context tenant key) => ∃ authorization scopes,
      call = .authenticate authorization scopes ∧ Permitted S h authorization scopes tenant key ∧
        RoomForKey h key ∧ RoomForTenant S h tenant
  | .ok (.session s) => ∃ email password op now, call = .login email password ∧
      LogsIn S h email password op ∧ IssuedTo h op s now
  | .ok (.key key fullKey) => ∃ cookie tenantId label rate env op,
      call = .createApiKey cookie tenantId label rate env ∧ Operates S h cookie op ∧
        Made S h tenantId label rate env op key fullKey
  | .ok (.revoked id already) => ∃ cookie tenantId keyId reason op,
      call = .revokeApiKey cookie tenantId keyId reason ∧ Operates S h cookie op ∧
        Revokes h tenantId keyId reason id already
  | .ok (.tenant _) => ∃ cookie slug displayName, call = .createTenant cookie slug displayName
  | .ok .done => ∀ authorization scopes, call ≠ .authenticate authorization scopes
  | .error x =>
      match call with
      | .authenticate authorization _ => x = unauthorized ∨ Raised h x ∨
          (∃ key, Presented S h authorization key) ∨ Unreadable S h authorization
      | _ => True

end AuthCall

/-! ## longer diaries -/

section longer

variable {S : AuthSettings} {h h' : AuthDiary} {authorization cookie : Option PyStr}

/-- A key that was looked up stays looked up. -/
theorem Named.mono {parsed : ParsedApiKey} {key : ApiKey} (hn : Named h authorization parsed key)
    (hsub : h <+: h') : Named h' authorization parsed key :=
  ⟨hn.carried, hsub.subset hn.found⟩

/-- A key that was presented stays presented. -/
theorem Presented.mono {key : ApiKey} (hp : Presented S h authorization key) (hsub : h <+: h') :
    Presented S h' authorization key := by
  obtain ⟨parsed, hn, hv⟩ := hp
  exact ⟨parsed, hn.mono hsub, hv⟩

/-- A permission that was found stays found. -/
theorem Permitted.mono {scopes : List PyStr} {tenant : Tenant} {key : ApiKey}
    (hp : Permitted S h authorization scopes tenant key) (hsub : h <+: h') :
    Permitted S h' authorization scopes tenant key :=
  ⟨hp.presented.mono hsub, hsub.subset hp.owner, hp.active, hp.covers⟩

/-- A key's room that was found stays found. -/
theorem RoomForKey.mono {key : ApiKey} (hr : RoomForKey h key) (hsub : h <+: h') :
    RoomForKey h' key := by
  obtain ⟨now, m, r, hgot, hal⟩ := hr
  exact ⟨now, m, r, hsub.subset hgot, hal⟩

/-- A tenant's room that was found stays found. -/
theorem RoomForTenant.mono {tenant : Tenant} (hr : RoomForTenant S h tenant) (hsub : h <+: h') :
    RoomForTenant S h' tenant := by
  obtain ⟨now, m, r, hgot, hal⟩ := hr
  exact ⟨now, m, r, hsub.subset hgot, hal⟩

/-- An operator who was recognised stays recognised. -/
theorem Operates.mono {op : Operator} (ho : Operates S h cookie op) (hsub : h <+: h') :
    Operates S h' cookie op := by
  obtain ⟨token, now, claims, hcookie, hclock, hdecode, hfound, hen⟩ := ho
  exact ⟨token, now, claims, hcookie, hsub.subset hclock, hdecode, hsub.subset hfound, hen⟩

/-- A login stays a login. -/
theorem LogsIn.mono {email password : PyStr} {op : Operator} (hl : LogsIn S h email password op)
    (hsub : h <+: h') : LogsIn S h' email password op :=
  ⟨hsub.subset hl.found, hl.enabled, hl.verified⟩

/-- An issued session stays issued. -/
theorem IssuedTo.mono {op : Operator} {s : OperatorSession} {now : Nat}
    (hi : IssuedTo h op s now) (hsub : h <+: h') : IssuedTo h' op s now :=
  ⟨hsub.subset hi.clock, hi.operatorId, hi.issuedAt⟩

/-- A key that was made stays made. -/
theorem Made.mono {tenantId : Uuid} {label : Option PyStr} {rate : Int} {env : PyStr}
    {op : Operator} {key : ApiKey} {fullKey : PyStr}
    (hm : Made S h tenantId label rate env op key fullKey) (hsub : h <+: h') :
    Made S h' tenantId label rate env op key fullKey := by
  obtain ⟨t, draw, salt, made, id, ht, hdel, hdraw, hsalt, hrest⟩ := hm
  exact ⟨t, draw, salt, made, id, hsub.subset ht, hdel, hsub.subset hdraw, hsub.subset hsalt, hrest⟩

end longer

/-! ## along the programs -/

/-- `x`, performed by `call` after the diary `h`, has its warrants and ends with
`Q` or `R`, of a diary that has grown. -/
def Vouched {α : Type} (S : AuthSettings) (call : AuthCall) (h : AuthDiary) (x : AuthPy α)
    (Q : AuthDiary → α → Prop) (R : AuthDiary → AuthExn → Prop) : Prop :=
  Spec (.diary AuthEff.possible (call.warrants S)) h x (fun h' a => h <+: h' ∧ Q h' a)
    fun h' e => h <+: h' ∧ R h' e

namespace Vouched

variable {S : AuthSettings} {call : AuthCall} {h : AuthDiary} {α β : Type}
  {Q : AuthDiary → α → Prop} {R : AuthDiary → AuthExn → Prop}

/-- A value is vouched for by what was seen before. -/
theorem ret {a : α} (hQ : Q h a) : Vouched S call h (pure a) Q R := ⟨List.prefix_rfl, hQ⟩

/-- So is an exception. -/
theorem raise {e : AuthExn} (hR : R h e) : Vouched S call h (throw e) Q R :=
  ⟨List.prefix_rfl, hR⟩

/-- What is vouched for may be weakened by later entries of the diary. -/
theorem mono {x : AuthPy α} {Q' : AuthDiary → α → Prop} {R' : AuthDiary → AuthExn → Prop}
    (hx : Vouched S call h x Q R) (hQ : ∀ h' a, h <+: h' → Q h' a → Q' h' a)
    (hR : ∀ h' e, h <+: h' → R h' e → R' h' e) : Vouched S call h x Q' R' :=
  Spec.mono hx (fun h' a hq => ⟨hq.1, hQ h' a hq.1 hq.2⟩) fun h' e hr => ⟨hr.1, hR h' e hr.1 hr.2⟩

/-- One part after the other. -/
theorem seq {x : AuthPy β} {f : β → AuthPy α} {M : AuthDiary → β → Prop}
    (hx : Vouched S call h x M R)
    (hf : ∀ h' b, h <+: h' → M h' b → Vouched S call h' (f b) Q R) :
    Vouched S call h (x >>= f) Q R := by
  refine (spec_bind _ _).2 (Spec.mono hx ?_ fun _ _ hr => hr)
  intro h' b hq
  exact Spec.mono (hf h' b hq.1 hq.2) (fun _ _ hq' => ⟨hq.1.trans hq'.1, hq'.2⟩)
    fun _ _ hr => ⟨hq.1.trans hr.1, hr.2⟩

/-- One await. -/
theorem await {e : AuthEff} {Q : AuthDiary → e.Ret → Prop} (hal : call.warrants S h e)
    (hQ : ∀ a, Q (h ++ [⟨e, .ok a⟩]) a)
    (hR : ∀ f, R (h ++ [⟨e, .error (.foreign f)⟩]) (.foreign f)) :
    Vouched S call h (ask e) Q R := by
  refine spec_callE e |>.2 ⟨hal, fun a _ => ⟨List.prefix_append _ _, hQ a⟩, ?_⟩
  rintro x ⟨f, rfl⟩
  exact ⟨List.prefix_append _ _, hR f⟩

/-- A branch may use its condition. -/
theorem branch {c : Prop} [Decidable c] {x y : AuthPy α} (hx : c → Vouched S call h x Q R)
    (hy : ¬c → Vouched S call h y Q R) : Vouched S call h (if c then x else y) Q R :=
  (spec_ite _ _ _).2 ⟨hx, hy⟩

/-- An await of which only the answer matters. -/
theorem got {e : AuthEff} (hal : call.warrants S h e) :
    Vouched S call h (ask e) (fun h' a => Got h' e a) Raised :=
  await hal (fun _ => List.mem_append_right _ List.mem_cons_self)
    fun _ => ⟨e, List.mem_append_right _ List.mem_cons_self⟩

/-- An await, and what follows it. -/
theorem next {e : AuthEff} {f : e.Ret → AuthPy α} (hal : call.warrants S h e)
    (hR : ∀ h' x, Raised h' x → R h' x)
    (hf : ∀ a, Vouched S call (h ++ [⟨e, .ok a⟩]) (f a) Q R) :
    Vouched S call h (ask e >>= f) Q R := by
  refine seq (M := fun h' a => h' = h ++ [⟨e, .ok a⟩]) (await hal (fun _ => rfl) fun _ => ?_) ?_
  · exact hR _ _ ⟨e, List.mem_append_right _ List.mem_cons_self⟩
  · rintro h' a - rfl
    exact hf a

/-- The same, where only the answer matters. -/
theorem awaiting {e : AuthEff} {f : e.Ret → AuthPy α} (hal : call.warrants S h e)
    (hR : ∀ h' x, Raised h' x → R h' x)
    (hf : ∀ h' a, h <+: h' → Got h' e a → Vouched S call h' (f a) Q R) :
    Vouched S call h (ask e >>= f) Q R :=
  next hal hR fun a => hf _ a (List.prefix_append _ _) (List.mem_append_right _ List.mem_cons_self)

end Vouched

section routines

open Vouched

variable {S : AuthSettings} {call : AuthCall} {h : AuthDiary} {α : Type}

/-- Every call may write audit rows. -/
theorem warrants_audit (ss : List DirectoryWrite) (hss : ∀ s ∈ ss, call.warrantsWrite S h s)
    (a : AuditLog) : call.warrants S h (.commit (ss ++ [.insertAudit a])) := by
  intro s hs
  obtain hs | hs := List.mem_append.1 hs
  · exact hss s hs
  · rw [List.mem_singleton.1 hs]
    cases call <;> trivial

/-- An audited write needs a warrant for each of its statements. -/
theorem vouched_auditAsync {ss : List DirectoryWrite}
    (hss : ∀ s ∈ ss, call.warrantsWrite S h s) (a : AuditLog) :
    Vouched S call h (auditAsync ss a) (fun _ _ => True) Raised := by
  unfold auditAsync Vouched
  rw [spec_tryCatch]
  refine Spec.mono (Q := fun h' _ => h <+: h' ∧ True) (R := fun h' x => h <+: h' ∧ Raised h' x)
    ?_ (fun _ _ hq => hq) ?_
  · exact seq (got (warrants_audit ss hss a)) fun _ _ _ _ => ret trivial
  · rintro h' x ⟨hsub, hraised⟩
    refine (spec_ite _ _ _).2 ⟨fun _ => ?_, fun _ => ⟨hsub, hraised⟩⟩
    refine Spec.mono (seq (Q := fun _ _ => True) (R := Raised) (got trivial)
      fun _ _ _ _ => ret trivial) ?_ ?_
    · exact fun _ _ hq => ⟨hsub.trans hq.1, hq.2⟩
    · exact fun _ _ hr => ⟨hsub.trans hr.1, hr.2⟩

/-- A denial raises what it is given, unless the database fails first. -/
theorem vouched_deny {Q : AuthDiary → α → Prop} (a : AuditLog) (e : AuthExn) :
    Vouched S call h (deny a e) Q fun h' x => x = e ∨ Raised h' x := by
  refine seq (M := fun _ _ => True) ?_ fun _ _ _ _ => raise (.inl rfl)
  exact (vouched_auditAsync (by simp) a).mono (fun _ _ _ hq => hq) fun _ _ _ hr => .inr hr

/-- The header's key, or the refusal of a header that carries none. -/
theorem vouched_presentedKey (authorization : Option PyStr) :
    Vouched S call h (presentedKey S authorization)
      (fun h' r => Presented S h' authorization r.1 ∧
        Got h' (.selectTenant r.1.tenantId) (some r.2))
      fun h' x => x = unauthorized ∨ Raised h' x ∨ Unreadable S h' authorization := by
  have hdeny : ∀ {h : AuthDiary} (a : AuditLog), Vouched S call h
      (deny a unauthorized : AuthPy (ApiKey × Tenant))
      (fun h' r => Presented S h' authorization r.1 ∧
        Got h' (.selectTenant r.1.tenantId) (some r.2))
      fun h' x => x = unauthorized ∨ Raised h' x ∨ Unreadable S h' authorization := fun a =>
    (vouched_deny a unauthorized).mono (fun _ _ _ hq => hq) fun _ _ _ hr => hr.imp_right .inl
  unfold presentedKey
  split
  · exact hdeny _
  · next token htoken =>
      split
      · exact hdeny _
      · next parsed hparsed =>
          -- what a lookup has found, and its ways to fail
          refine seq (M := fun h' r => ∀ key tenant, r = some (key, tenant) →
            Named h' authorization parsed key ∧ Got h' (.selectTenant key.tenantId) (some tenant))
            ?_ ?_
          · refine awaiting trivial (fun _ _ hr => .inr (.inl hr)) ?_
            intro h₁ found _ hfound
            cases found with
            | none => exact ret fun key tenant hr => by cases hr
            | some key =>
                have hnamed : Named h₁ authorization parsed key := ⟨⟨token, htoken, hparsed⟩, hfound⟩
                refine next trivial (fun _ _ hr => .inr (.inl hr)) fun owner => ?_
                cases owner with
                | none =>
                    exact raise (.inr (.inr
                      ⟨parsed, key, h₁, _, rfl, hnamed, .inr List.mem_cons_self⟩))
                | some tenant =>
                    refine ret fun key' tenant' hr => ?_
                    cases hr
                    exact ⟨hnamed.mono (List.prefix_append _ _),
                      List.mem_append_right _ List.mem_cons_self⟩
          · intro h₁ r _ hr
            cases r with
            | none => exact hdeny _
            | some r =>
                obtain ⟨hnamed, howner⟩ := hr r.1 r.2 rfl
                cases hverify : S.argon2.verify r.1.secretHash parsed.secret with
                | ok u => simpa [hverify] using ret ⟨⟨parsed, hnamed, hverify⟩, howner⟩
                | error e =>
                    cases e with
                    | mismatch => simpa [hverify] using hdeny _
                    | other x =>
                        simpa [hverify] using
                          raise (.inr (.inr
                            ⟨parsed, r.1, h₁, [], List.append_nil h₁, hnamed, .inl ⟨x, hverify⟩⟩))

/-- A refusal ends the call. -/
theorem vouched_refusal {β : Type} {a : AuditLog} {e : AuthExn} {f : β → AuthPy α}
    {Q : AuthDiary → α → Prop} : Vouched S call h (deny a e >>= f) Q fun _ _ => True :=
  seq (M := fun _ _ => False)
    ((vouched_deny a e).mono (fun _ _ _ hq => hq) fun _ _ _ _ => trivial) fun _ _ _ hq => hq.elim

/-- Who passes has an active tenant and every scope. -/
theorem vouched_checkPermitted (key : ApiKey) (tenant : Tenant) (scopes : List PyStr) :
    Vouched S call h (checkPermitted key tenant scopes)
      (fun _ _ => tenant.status = .active ∧ ∀ s ∈ scopes, s ∈ key.scopes) fun _ _ => True := by
  unfold checkPermitted
  refine branch (fun _ => vouched_refusal) fun hactive => branch (fun _ => ?_) fun hmissing => ?_
  · exact (vouched_deny _ _).mono (fun _ _ _ hq => hq) fun _ _ _ _ => trivial
  · refine ret ⟨not_not.1 hactive, fun s hs => ?_⟩
    have hempty : missingScopes scopes key = [] := by simpa using hmissing
    simpa using List.filter_eq_nil_iff.1 hempty s hs

/-- A bucket's check is vouched for as its limiter is. -/
theorem vouched_checkBucket {limit : Int} {check : Nat → PyStr → AuthPy RateLimitResult}
    {Q : AuthDiary → RateLimitResult → Prop}
    (hcheck : ∀ h', h <+: h' → ∀ now m, Vouched S call h' (check now m) Q fun _ _ => True) :
    Vouched S call h (checkBucket limit check) Q fun _ _ => True := by
  unfold checkBucket
  refine branch (fun _ => raise trivial) fun _ => ?_
  refine awaiting trivial (fun _ _ _ => trivial) fun h₁ now hsub₁ _ => ?_
  refine awaiting trivial (fun _ _ _ => trivial) fun h₂ u hsub₂ _ => ?_
  exact hcheck h₂ (hsub₁.trans hsub₂) now _

/-- Who passes had room in both buckets. -/
theorem vouched_checkRate {authorization : Option PyStr} {scopes : List PyStr} {key : ApiKey}
    {tenant : Tenant} (hp : Permitted S h authorization scopes tenant key) :
    Vouched S (.authenticate authorization scopes) h (checkRate S key tenant)
      (fun h' _ => RoomForKey h' key ∧ RoomForTenant S h' tenant) fun _ _ => True := by
  unfold checkRate
  refine seq (M := fun h' r => ∃ now m,
    Got h' (.checkKey key.id key.rateLimitPerMinute now m) r) ?_ fun h₁ r hsub₁ hkey => ?_
  · refine vouched_checkBucket fun h' hsub now m => ?_
    exact await ⟨authorization, scopes, tenant, key, rfl, hp.mono hsub, rfl, rfl⟩
      (fun _ => ⟨now, m, List.mem_append_right _ List.mem_cons_self⟩) fun _ => trivial
  refine branch (fun _ => vouched_refusal) fun hallowed => ?_
  obtain ⟨now, m, hgot⟩ := hkey
  have hroom : RoomForKey h₁ key := ⟨now, m, r, hgot, by simpa using hallowed⟩
  refine seq (M := fun h' r => ∃ now m,
    Got h' (.checkTenant tenant.id S.tenantRateLimitPerMinute now m) r) ?_ fun h₂ r hsub₂ htenant => ?_
  · refine vouched_checkBucket fun h' hsub now m => ?_
    exact await ⟨authorization, scopes, tenant, key, rfl, hp.mono (hsub₁.trans hsub),
      hroom.mono hsub, rfl, rfl⟩ (fun _ => ⟨now, m, List.mem_append_right _ List.mem_cons_self⟩)
      fun _ => trivial
  refine branch (fun _ => ?_) fun hallowed => ?_
  · exact (vouched_deny _ _).mono (fun _ _ _ hq => hq) fun _ _ _ _ => trivial
  · obtain ⟨now, m, hgot⟩ := htenant
    exact ret ⟨hroom.mono hsub₂, now, m, r, hgot, by simpa using hallowed⟩

/-- Who passes is permitted; who does not has presented a key, or is told one of
three things. -/
theorem vouched_authenticateBearer (authorization : Option PyStr) (scopes : List PyStr) :
    Vouched S (.authenticate authorization scopes) h (authenticateBearer S authorization scopes)
      (fun h' r => Permitted S h' authorization scopes r.1 r.2 ∧ RoomForKey h' r.2 ∧
        RoomForTenant S h' r.1)
      fun h' x => x = unauthorized ∨ Raised h' x ∨
        (∃ key, Presented S h' authorization key) ∨ Unreadable S h' authorization := by
  refine seq ((vouched_presentedKey authorization).mono (fun _ _ _ hq => hq)
    fun _ _ _ hr => hr.imp_right (Or.imp_right .inr)) ?_
  rintro h₁ ⟨key, tenant⟩ - ⟨hpresented, howner⟩
  -- from here on the caller is known to hold the secret
  refine mono (Q := fun h' r => Permitted S h' authorization scopes r.1 r.2 ∧ RoomForKey h' r.2 ∧
    RoomForTenant S h' r.1) (R := fun _ _ => True) ?_ (fun _ _ _ hq => hq)
    fun h' _ hsub _ => .inr (.inr (.inl ⟨key, hpresented.mono hsub⟩))
  refine seq (vouched_checkPermitted key tenant scopes) fun h₂ _ hsub₂ hperm => ?_
  have hp : Permitted S h₂ authorization scopes tenant key :=
    ⟨hpresented.mono hsub₂, hsub₂.subset howner, hperm.1, hperm.2⟩
  refine seq (vouched_checkRate hp) fun h₃ _ hsub₃ hrate => ?_
  refine awaiting trivial (fun _ _ _ => trivial) fun h₄ now hsub₄ _ => ?_
  have hwrite : ∀ h', h₄ <+: h' → AuthCall.warrantsWrite S h' (.authenticate authorization scopes)
      (.setLastUsed key.id now) := fun h' hsub =>
    have hall : h₃ <+: h' := hsub₄.trans hsub
    ⟨tenant, key, hp.mono (hsub₃.trans hall), hrate.1.mono hall, hrate.2.mono hall, rfl⟩
  refine awaiting (hwrite h₄ (List.prefix_rfl)) (fun _ _ _ => trivial) fun h₅ _ hsub₅ _ => ?_
  refine seq ((vouched_auditAsync (by simpa using hwrite h₅ hsub₅) _).mono
    (fun _ _ _ hq => hq) fun _ _ _ _ => trivial) fun h₆ _ hsub₆ _ => ?_
  have hall : h₃ <+: h₆ := hsub₄.trans (hsub₅.trans hsub₆)
  exact ret ⟨hp.mono (hsub₃.trans hall), hrate.1.mono hall, hrate.2.mono hall⟩

/-! ## the operator routes -/

/-- The operator of a cookie is recognised. -/
theorem vouched_currentOperator (cookie : Option PyStr) :
    Vouched S call h (currentOperator S cookie) (fun h' op => Operates S h' cookie op)
      fun _ _ => True := by
  unfold currentOperator
  split
  · exact raise trivial
  next token =>
  refine branch (fun _ => raise trivial) fun _ => ?_
  refine awaiting trivial (fun _ _ _ => trivial) fun h₁ now _ hclock => ?_
  split
  · exact raise trivial
  · exact raise trivial
  next claims hclaims =>
  refine awaiting trivial (fun _ _ _ => trivial) fun h₂ found hsub₂ hfound => ?_
  split
  next op =>
    refine branch (fun _ => raise trivial) fun henabled => ret ?_
    exact ⟨token, now, claims, rfl, hsub₂.subset hclock, hclaims, hfound, by simpa using henabled⟩
  · exact raise trivial

/-- A session is issued at a moment, to the operator it is for. -/
theorem vouched_issueOperatorJwt (op : Operator) :
    Vouched S call h (issueOperatorJwt S op) (fun h' s => ∃ now, IssuedTo h' op s now)
      fun _ _ => True := by
  unfold issueOperatorJwt
  refine awaiting trivial (fun _ _ _ => trivial) fun h₁ now _ hclock => ?_
  refine awaiting trivial (fun _ _ _ => trivial) fun h₂ family hsub₂ _ => ?_
  split
  · exact raise trivial
  refine awaiting trivial (fun _ _ _ => trivial) fun h₃ jti hsub₃ _ => ?_
  exact ret ⟨now, (hsub₂.trans hsub₃).subset hclock, rfl, rfl⟩

/-- Who logs in has given the right password. -/
theorem vouched_login (email password : PyStr) :
    Vouched S (.login email password) h (login S email password)
      (fun h' s => ∃ op now, LogsIn S h' email password op ∧ IssuedTo h' op s now)
      fun _ _ => True := by
  unfold login
  refine awaiting trivial (fun _ _ _ => trivial) fun h₁ found _ hfound => ?_
  split
  · exact raise trivial
  next op =>
  refine branch (fun _ => raise trivial) fun henabled => ?_
  split
  · exact raise trivial
  · exact raise trivial
  next hverify =>
  have hlogs : LogsIn S h₁ email password op := ⟨hfound, by simpa using henabled, hverify⟩
  refine seq (vouched_issueOperatorJwt op) fun h₂ s hsub₂ hissued => ?_
  obtain ⟨issued, hissued⟩ := hissued
  refine awaiting trivial (fun _ _ _ => trivial) fun h₃ now hsub₃ _ => ?_
  have hlogs₃ := hlogs.mono (hsub₂.trans hsub₃)
  refine awaiting (warrants_audit [.setLastLogin op.id now] ?_ _) (fun _ _ _ => trivial)
    fun h₄ _ hsub₄ _ => ret ⟨op, issued, hlogs₃.mono hsub₄, hissued.mono (hsub₃.trans hsub₄)⟩
  simpa using ⟨op, hlogs₃, rfl⟩

/-- A tenant is written by a recognised operator. -/
theorem vouched_createTenant (cookie : Option PyStr) (slug displayName : PyStr) :
    Vouched S (.createTenant cookie slug displayName) h (createTenant S cookie slug displayName)
      (fun _ _ => True) fun _ _ => True := by
  unfold createTenant
  refine seq (vouched_currentOperator cookie) fun h₁ op _ hop => ?_
  refine awaiting trivial (fun _ _ _ => trivial) fun h₂ found hsub₂ _ => ?_
  refine branch (fun _ => raise trivial) fun _ => ?_
  refine awaiting trivial (fun _ _ _ => trivial) fun h₃ id hsub₃ _ => ?_
  refine awaiting (warrants_audit [.insertTenant { id, slug, displayName }] ?_ _)
    (fun _ _ _ => trivial) fun _ _ _ _ => ret trivial
  simpa using ⟨op, id, hop.mono (hsub₂.trans hsub₃), rfl⟩

/-- A key is made by one. -/
theorem vouched_createApiKey (cookie : Option PyStr) (tenantId : Uuid) (label : Option PyStr)
    (rate : Int) (env : PyStr) :
    Vouched S (.createApiKey cookie tenantId label rate env) h
      (createApiKey S cookie tenantId label rate env)
      (fun h' r => ∃ op, Operates S h' cookie op ∧ Made S h' tenantId label rate env op r.1 r.2)
      fun _ _ => True := by
  unfold createApiKey
  refine seq (vouched_currentOperator cookie) fun h₁ op _ hop => ?_
  refine awaiting trivial (fun _ _ _ => trivial) fun h₂ found hsub₂ hfound => ?_
  split
  · exact raise trivial
  next t =>
  refine branch (fun _ => raise trivial) fun hdeleted => ?_
  refine awaiting trivial (fun _ _ _ => trivial) fun h₃ draw hsub₃ hdraw => ?_
  refine awaiting trivial (fun _ _ _ => trivial) fun h₄ salt hsub₄ hsalt => ?_
  split
  · exact raise trivial
  next made hmade =>
  refine awaiting trivial (fun _ _ _ => trivial) fun h₅ id hsub₅ _ => ?_
  have h₃₅ := hsub₄.trans hsub₅
  have h₂₅ := hsub₃.trans h₃₅
  have hop₅ := hop.mono (hsub₂.trans h₂₅)
  have hmade₅ : Made S h₅ tenantId label rate env op (newApiKey id t.id made none rate label op.id)
      made.fullKey :=
    ⟨t, draw, salt, made, id, h₂₅.subset hfound, by simpa using hdeleted, h₃₅.subset hdraw,
      hsub₅.subset hsalt, hmade,
      rfl, rfl⟩
  refine awaiting (warrants_audit
    [.insertKey (newApiKey id t.id made none rate label op.id)] ?_ _)
    (fun _ _ _ => trivial) fun h₆ _ hsub₆ _ => ret ⟨op, hop₅.mono hsub₆, hmade₅.mono hsub₆⟩
  simpa using ⟨op, made.fullKey, hop₅, hmade₅⟩

/-- A key is revoked by one. -/
theorem vouched_revokeApiKey (cookie : Option PyStr) (tenantId keyId : Uuid)
    (reason : Option PyStr) :
    Vouched S (.revokeApiKey cookie tenantId keyId reason) h
      (revokeApiKey S cookie tenantId keyId reason)
      (fun h' r => ∃ op, Operates S h' cookie op ∧ Revokes h' tenantId keyId reason r.1 r.2)
      fun _ _ => True := by
  unfold revokeApiKey
  refine seq (vouched_currentOperator cookie) fun h₁ op _ hop => ?_
  refine awaiting trivial (fun _ _ _ => trivial) fun h₂ found hsub₂ hfound => ?_
  split
  · exact raise trivial
  next key =>
  refine branch (fun _ => raise trivial) fun htenant => ?_
  have htenant := not_not.1 htenant
  refine branch (fun hrevoked => ret ?_) fun _ => ?_
  · exact ⟨op, hop.mono hsub₂, key, hfound, htenant, rfl, by simpa [ApiKey.isActive] using hrevoked⟩
  refine awaiting trivial (fun _ _ _ => trivial) fun h₃ now hsub₃ _ => ?_
  have hop₃ := hop.mono (hsub₂.trans hsub₃)
  refine awaiting (warrants_audit [.setRevoked key.id now reason] ?_ _)
    (fun _ _ _ => trivial) fun h₄ _ hsub₄ hcommit => ret ?_
  · simpa using ⟨op, key, hop₃, hsub₃.subset hfound, htenant, rfl, rfl⟩
  · exact ⟨op, hop₃.mono hsub₄, key, hsub₄.subset (hsub₃.subset hfound), htenant, rfl, _, now,
      hcommit, by simp⟩

/-- A tenant's status is written for the tenant that was read. -/
theorem vouched_setTenantStatus (id : Uuid) (status : TenantStatus)
    (hwrite : ∀ h' t, Got h' (.selectTenant id) (some t) →
      call.warrantsWrite S h' (.setTenantStatus t.id status)) :
    Vouched S call h (setTenantStatus id status) (fun _ _ => True) fun _ _ => True := by
  unfold setTenantStatus
  refine awaiting trivial (fun _ _ _ => trivial) fun h₁ found _ hfound => ?_
  split
  · exact ret trivial
  next t =>
  refine awaiting ?_ (fun _ _ _ => trivial) fun _ _ _ _ => ret trivial
  intro s hs
  rw [List.mem_singleton.1 hs]
  exact hwrite _ t hfound

/-- The seeding script writes an operator, which is no route's write. -/
theorem vouched_seedOperator (email : PyStr) (fullName password : Option PyStr)
    (roles : List PyStr) :
    Vouched S (.seedOperator email fullName password roles) h
      (seedOperator S email fullName password roles) (fun _ _ => True) fun _ _ => True := by
  unfold seedOperator
  refine awaiting trivial (fun _ _ _ => trivial) fun h₁ found _ _ => ?_
  refine branch (fun _ => ret trivial) fun _ => ?_
  refine seq (M := fun _ _ => True) ?_ fun h₂ plain _ _ => ?_
  · unfold passwordOr
    split
    · exact ret trivial
    · exact await trivial (fun _ => trivial) fun _ => trivial
  refine awaiting trivial (fun _ _ _ => trivial) fun h₃ salt _ _ => ?_
  split
  · exact raise trivial
  refine awaiting trivial (fun _ _ _ => trivial) fun h₄ id _ _ => ?_
  refine awaiting ?_ (fun _ _ _ => trivial) fun _ _ _ _ => ret trivial
  intro s hs
  rw [List.mem_singleton.1 hs]
  trivial

end routines

/-! ## every call -/

/-- The directory answers as is possible. -/
theorem exec_possible {w w' : Directory} {e : AuthEff} {o : AuthOracle} {a : AuthAns e}
    (h : w.exec e o = some (a, w')) : e.possible a := by
  cases a with
  | ok a => trivial
  | error x =>
      unfold Directory.exec at h
      split at h
      · split at h <;> cases h
        exact ⟨_, rfl⟩
      · split at h <;> cases h
        exact ⟨_, rfl⟩
      · split at h <;> cases h
        exact ⟨_, rfl⟩

section system

open Vouched

variable (S : AuthSettings)

/-- Every call is justified by what it has seen. -/
theorem vouched_program (call : AuthCall) :
    Vouched S call [] (call.program S) (fun h r => call.justifies S h (.ok r))
      fun h x => call.justifies S h (.error x) := by
  cases call with
  | authenticate authorization scopes =>
      refine seq (vouched_authenticateBearer authorization scopes) fun h₁ r _ hr => ?_
      exact ret ⟨authorization, scopes, rfl, hr⟩
  | login email password =>
      refine seq (vouched_login email password) fun h₁ s _ hs => ret ?_
      obtain ⟨op, now, hlogs, hissued⟩ := hs
      exact ⟨email, password, op, now, rfl, hlogs, hissued⟩
  | createTenant cookie slug name =>
      exact seq (vouched_createTenant cookie slug name) fun _ _ _ _ => ret ⟨cookie, slug, name, rfl⟩
  | createApiKey cookie tenant label rate env =>
      refine seq (vouched_createApiKey cookie tenant label rate env) fun h₁ r _ hr => ret ?_
      obtain ⟨op, hop, hmade⟩ := hr
      exact ⟨cookie, tenant, label, rate, env, op, rfl, hop, hmade⟩
  | revokeApiKey cookie tenant key reason =>
      refine seq (vouched_revokeApiKey cookie tenant key reason) fun h₁ r _ hr => ret ?_
      obtain ⟨op, hop, hrevokes⟩ := hr
      exact ⟨cookie, tenant, key, reason, op, rfl, hop, hrevokes⟩
  | suspend id =>
      have hset : Vouched S (.suspend id) [] (setTenantStatus id .suspended) (fun _ _ => True)
          fun _ _ => True := vouched_setTenantStatus id .suspended fun h' t ht => ⟨rfl, t, ht, rfl⟩
      exact seq hset fun _ _ _ _ => ret fun _ _ hcall => by cases hcall
  | reactivate id =>
      have hset : Vouched S (.reactivate id) [] (setTenantStatus id .active) (fun _ _ => True)
          fun _ _ => True := vouched_setTenantStatus id .active fun h' t ht => ⟨rfl, t, ht, rfl⟩
      exact seq hset fun _ _ _ _ => ret fun _ _ hcall => by cases hcall
  | seedOperator email fullName password roles =>
      exact seq (vouched_seedOperator email fullName password roles)
        fun _ _ _ _ => ret fun _ _ hcall => by cases hcall

/-- **Every call has its warrants**, whatever the others do. -/
theorem authSystem_keeps :
    (authSystem S).Keeps AuthEff.possible (AuthCall.warrants S) (AuthCall.justifies S) where
  answers := exec_possible
  conforms call := by
    refine Conforms.mono (vouched_program S call) fun h r hr => ?_
    cases r with
    | ok r => exact hr.2
    | error x => exact hr.2

end system

end NeuroVoice
