import NeuroVoice.Auth.Origins
import NeuroVoice.Frontend.Numbers
import NeuroVoice.Uuid

/-!
# NeuroVoice.Auth.Trust

Whom the authentication code trusts, over whole runs.

A row that a call has read goes back to the commit that added it
(`NeuroVoice.Auth.Origins`), and that commit has its warrants
(`NeuroVoice.Auth.Warrants`):

* a request passes only with a full key that `create_api_key` has drawn, for a
  row that was active when the request looked (`bearer_authentic`);
* a key that is reported as revoked lets no later request pass
  (`revocation_final`);
* a caller without such a key learns nothing and leaves no trace but an audit
  row (`stranger_told_nothing`);
* keys, tenants and revocations are the work of operators who have logged in
  within the hour (`operator_authority`).
-/

namespace NeuroVoice

/-! ## tokens -/

section tokens

/-- argon2 accepts exactly the secret that a hash was made of. -/
def Argon2.Exact (A : Argon2) : Prop :=
  ∀ salt plain guess, A.verify (A.hash salt plain) guess =
    if guess = plain then .ok () else .error .mismatch

/-- What the generator makes, for whatever environment it accepts. -/
theorem generateApiKey_ok {hash : PyStr → PyStr} {env : PyStr}
    {draw : Nat → Fin base62Alphabet.length} {made : GeneratedApiKey}
    (h : generateApiKey hash env draw = .ok made) :
    ∃ e : Environment, env = e.text ∧ made.fullKey = (drawnKey draw e).token ∧
      made.keyPrefix = (drawnKey draw e).keyPrefix ∧
        made.secretHash = hash (drawnKey draw e).secret := by
  have henv : ∃ e : Environment, env = e.text := by
    unfold generateApiKey at h
    split at h
    · cases h
    · next hmem =>
        have hmem : env ∈ [py "prod", py "staging", py "dev"] :=
          List.contains_iff_mem.1 (not_not.1 hmem)
        simp only [List.mem_cons, List.not_mem_nil, or_false] at hmem
        obtain rfl | rfl | rfl := hmem
        · exact ⟨.prod, rfl⟩
        · exact ⟨.staging, rfl⟩
        · exact ⟨.dev, rfl⟩
  obtain ⟨e, rfl⟩ := henv
  rw [generateApiKey_eq] at h
  cases h
  exact ⟨e, rfl, rfl, rfl, rfl⟩

/-- The token of a header is its prefix, an underscore and its secret: a header
has no newline at its end any more. -/
theorem bearerToken_eq {authorization : Option PyStr} {token : PyStr} {parsed : ParsedApiKey}
    (htoken : bearerToken authorization = some token) (hparsed : parseApiKey token = .ok parsed) :
    token = parsed.keyPrefix ++ py "_" ++ parsed.secret := by
  obtain ⟨k, tail, htail, htok, rfl⟩ := parseApiKey_eq_ok.1 hparsed
  obtain rfl | rfl := htail
  · simp [htok, KeyParts.parsed, KeyParts.token]
  · unfold bearerToken at htoken
    split at htoken
    · next header =>
        simp only [Option.ite_none_right_eq_some, Option.some.injEq] at htoken
        have hlast := (stripBy_ends isSpace (header.drop 7)).2 0x0A (by
          rw [htoken.2, htok]
          exact List.getLast?_concat)
        cases hlast
    · cases htoken

/-- A token that a made key accepts is its full key. -/
theorem bearerToken_made {S : AuthSettings} (hargon : S.argon2.Exact) {h : AuthDiary}
    {authorization label : Option PyStr} {token env fullKey : PyStr} {parsed : ParsedApiKey}
    {tenantId : Uuid} {rate : Int} {op : Operator} {key₀ key : ApiKey}
    (htoken : bearerToken authorization = some token) (hparsed : parseApiKey token = .ok parsed)
    (hmade : Made S h tenantId label rate env op key₀ fullKey) (hbecomes : key₀.Becomes key)
    (hhead : key.keyPrefix = parsed.keyPrefix)
    (hverify : S.argon2.verify key.secretHash parsed.secret = .ok ()) : token = fullKey := by
  obtain ⟨t, draw, salt, made, id, -, -, -, -, hgen, rfl, rfl⟩ := hmade
  obtain ⟨e, -, hfull, hpre, hhash⟩ := generateApiKey_ok hgen
  have hhash' : key.secretHash = S.argon2.hash salt (drawnKey draw e).secret :=
    hbecomes.secretHash.trans hhash
  have hsecret : parsed.secret = (drawnKey draw e).secret := by
    rw [hhash', hargon] at hverify
    split at hverify
    · assumption
    · cases hverify
  have hkey : key.keyPrefix = (drawnKey draw e).keyPrefix := hbecomes.keyPrefix.trans hpre
  rw [bearerToken_eq htoken hparsed, ← hhead, hkey, hsecret, hfull, KeyParts.token]

end tokens

/-! ## who passes -/

section passing

variable {S : AuthSettings} {w₀ : Directory} {past rest ts : List AuthTrans} {t : AuthTrans}
  {c : Config Directory AuthEff AuthAns AuthOutcome}

/-- A call of `create_api_key` commits the row that has become `key`.  It has
drawn `fullKey` itself, on behalf of an operator. -/
def MakesKey (S : AuthSettings) (key : ApiKey) (fullKey : PyStr) (past : List AuthTrans)
    (t : AuthTrans) : Prop :=
  ∃ q cookie tenantId label rate env op key₀ ss a,
    Spawned q (.createApiKey cookie tenantId label rate env) past ∧
      t.ev = .act q (.commit ss) a ∧ .insertKey key₀ ∈ ss ∧ key₀.Becomes key ∧
      Operates S (own q past) cookie op ∧
      Made S (own q past) tenantId label rate env op key₀ fullKey

/-- Every key that is added is made. -/
theorem makesKey_of_addsKey {key : ApiKey} (hacc : Accountable (AuthCall.warrants S)
    (AuthCall.justifies S) past t) (h : AddsKey key t) : ∃ fullKey, MakesKey S key fullKey past t := by
  obtain ⟨key₀, hkey₀, hbecomes⟩ := h
  unfold AuthTrans.writes at hkey₀
  split at hkey₀
  · next q e a hev =>
      cases e with
      | commit ss =>
          obtain ⟨call, hcall, hwarrant⟩ := hacc.of_act hev
          have hwrite := hwarrant _ hkey₀
          cases call with
          | createApiKey cookie tenantId label rate env =>
              obtain ⟨op, fullKey, hop, hmade⟩ := hwrite
              exact ⟨fullKey, q, cookie, tenantId, label, rate, env, op, key₀, ss, a, hcall, hev,
                hkey₀, hbecomes, hop, hmade⟩
          | _ => exact hwrite.elim
      | _ => cases hkey₀
  · cases hkey₀

/-- What is known of a request that has passed. -/
structure Authentic (S : AuthSettings) (past : List AuthTrans) (p : Nat)
    (authorization : Option PyStr) (scopes : List PyStr) (tenant : Tenant) (key : ApiKey) : Prop where
  /-- The header carries the full key, as it was made. -/
  token : ∃ fullKey, bearerToken authorization = some fullKey ∧ Once (MakesKey S key fullKey) past
  /-- The key was active when the request looked it up. -/
  active : ∃ s ∈ past, key ∈ s.pre.keys ∧ key.isActive = true ∧ ∃ e a, s.ev = .act p e a
  /-- So was its tenant. -/
  owner : ∃ s ∈ past, tenant ∈ s.pre.tenants ∧ tenant.id = key.tenantId ∧
    tenant.status = .active ∧ ∃ e a, s.ev = .act p e a
  /-- The key has the scopes, which are the two of every key. -/
  covers : ∀ s ∈ scopes, s ∈ key.scopes ∧ s ∈ defaultScopes

/-- A key whose secret a header carries was made, with the header's token. -/
theorem made_of_presented (hargon : S.argon2.Exact) (hnew : w₀.keys.rows = []) {p : Nat}
    {authorization : Option PyStr} {key : ApiKey} (h : Trace (authSystem S) w₀ past c)
    (hp : Presented S (own p past) authorization key) :
    (∃ fullKey, bearerToken authorization = some fullKey ∧ Once (MakesKey S key fullKey) past) ∧
      ∃ s ∈ past, key ∈ s.pre.keys ∧ key.isActive = true ∧ ∃ e a, s.ev = .act p e a := by
  obtain ⟨parsed, ⟨⟨token, htoken, hparsed⟩, hfound⟩, hverify⟩ := hp
  obtain ⟨before, s, after, rfl, hev, o, hx⟩ := got_at h hfound
  obtain ⟨hmem, hhead, hactive⟩ := Directory.activeKey_read hx
  refine ⟨⟨token, htoken, ?_⟩, s, by simp, hmem, hactive, _, _, hev⟩
  obtain ⟨c₀, -, h₀, hpre, -⟩ := h.moment
  rw [← hpre] at hmem
  obtain ⟨k₀, hk₀, -⟩ | hadds := keys_lineage h₀ key hmem
  · rw [← Table.mem_rows, hnew] at hk₀
    cases hk₀
  · obtain ⟨before', u, after', rfl, hadds⟩ := hadds
    have hacc := (h₀.diary (authSystem_keeps S)).1 before' u after' rfl
    obtain ⟨fullKey, hmakes⟩ := makesKey_of_addsKey hacc hadds
    obtain ⟨q, cookie, tenantId, label, rate, env, op, key₀, ss, a, -, -, -, hbecomes, -, hmade⟩ :=
      id hmakes
    have htok := bearerToken_made hargon htoken hparsed hmade hbecomes hhead hverify
    subst htok
    exact (show Once (MakesKey S key token) (before' ++ u :: after') from
      ⟨before', u, after', rfl, hmakes⟩).append _

/-- A request that passes is authentic. -/
def PassesAuthentic (S : AuthSettings) (past : List AuthTrans) (t : AuthTrans) : Prop :=
  ∀ p authorization scopes tenant key, Spawned p (.authenticate authorization scopes) past →
    t.ev = .done p (.ok (.context tenant key)) → Authentic S past p authorization scopes tenant key

/-- **A request passes only with a key that was made for it.**  The token is the
full key that a call of `create_api_key` has drawn and committed for an operator;
the key and its tenant were active when the request looked them up; and the
scopes are among the two that every key has. -/
theorem bearer_authentic (S : AuthSettings) (hargon : S.argon2.Exact) (w₀ : Directory)
    (hnew : w₀.keys.rows = []) (ts : List AuthTrans)
    (c : Config Directory AuthEff AuthAns AuthOutcome) (h : Trace (authSystem S) w₀ ts c) :
    Always (PassesAuthentic S) ts := by
  rintro past t rest rfl p authorization scopes tenant key hcall hev
  obtain ⟨c₀, -, h₀, -⟩ := h.moment
  have hacc := (h.diary (authSystem_keeps S)).1 past t rest rfl
  obtain ⟨_, _, heq, hperm, -⟩ := hacc.justified hev hcall
  cases heq
  obtain ⟨htoken, hactive⟩ := made_of_presented hargon hnew h₀ hperm.presented
  obtain ⟨before, s, after, hpast, hs, o, hx⟩ := got_at h₀ hperm.owner
  obtain ⟨hmem, hid⟩ := Directory.tenant_read hx
  refine ⟨htoken, hactive, ⟨s, by simp [hpast], hmem, hid, hperm.active, _, _, hs⟩, fun s hs => ?_⟩
  refine ⟨hperm.covers s hs, ?_⟩
  obtain ⟨fullKey, -, before', u, after', -, hmakes⟩ := htoken
  obtain ⟨q, cookie, tenantId, label, rate, env, op, key₀, ss, a, -, -, -, hbecomes, -, hmade⟩ := hmakes
  obtain ⟨t', draw, salt, made, id, -, -, -, -, -, rfl, -⟩ := hmade
  have hscopes : key.scopes = defaultScopes := hbecomes.scopes
  rw [← hscopes]
  exact hperm.covers s hs

/-- Hashes that keep the salt and the secret. -/
def plainArgon : Argon2 where
  hash salt plain := salt.length :: (salt ++ plain)
  verify stored guess :=
    match stored with
    | n :: rest => if guess = rest.drop n then .ok () else .error .mismatch
    | [] => .error (.other (.other "invalid hash"))

theorem plainArgon_exact : plainArgon.Exact := by
  intro salt plain guess
  simp [plainArgon]

/-- The session of the first operator, who logs in at the beginning of time. -/
def firstSession : OperatorSession where
  operatorId := 1
  email := py "ops@nv.io"
  roles := [py "admin"]
  issuedAt := 0
  family := 0
  jti := 0
  access := py "access"
  refresh := py "refresh"

/-- Tokens of that session. -/
def sessionJwt : JwtLib where
  encode claims _ := if hasType claims .access then py "access" else py "refresh"
  decode token _ _ _ now :=
    if token = py "access" ∧ now < 3600000 then .ok firstSession.accessClaims
    else if token = py "refresh" ∧ now < 604800000 then .ok firstSession.refreshClaims
    else .error (.invalid "Signature verification failed")

/-- A deployment with these libraries. -/
def plainAuth : AuthSettings where
  argon2 := plainArgon
  jwt := sessionJwt
  jwtSecret := some (List.replicate 32 0x78)
  tenantRateLimitPerMinute := 600
  lower := lowerAscii

/-- One operator and one tenant. -/
def firstDirectory : Directory where
  now := 0
  tenants := ⟨[{ id := 2, slug := py "acme", displayName := py "Acme" }], by decide, by decide⟩
  operators := ⟨[{ id := 1, email := py "ops@nv.io", passwordHash := plainArgon.hash [] (py "secret")
                   fullName := none, roles := [py "admin"] }], by decide, by decide⟩
  keys := .empty
  audit := []
  keyBucket _ := .empty
  tenantBucket _ := .empty

/-- The process is started, performs `n` awaits, and is done. -/
def answered (p : Nat) (call : AuthCall) (n : Nat) : List (Label AuthOracle AuthCall) :=
  .spawn p call :: List.replicate n (.act p (.goes {})) ++ [.done p]

/-- The operator logs in, makes a key, and the key is used. -/
def firstKeyUsed : List (Label AuthOracle AuthCall) :=
  answered 0 (.login (py "ops@nv.io") (py "secret")) 6 ++
    answered 1 (.createApiKey (some (py "access")) 2 none 60 (py "dev")) 7 ++
    answered 2 (.authenticate (some (py "Bearer " ++ (drawnKey (fun _ => ⟨0, by decide⟩) .dev).token))
      [py "tts:write"]) 11

/-- A request has passed. -/
def AuthTrans.isPassed (t : AuthTrans) : Bool :=
  match t.ev with
  | .done _ (.ok (.context _ _)) => true
  | _ => false

/-- The first key of a directory is made by its operator, and passes. -/
theorem bearer_authentic_first : ∃ ts c, Trace (authSystem plainAuth) firstDirectory ts c ∧
    (∃ t ∈ ts, AuthTrans.isPassed t = true) ∧ Always (PassesAuthentic plainAuth) ts := by
  obtain ⟨ts, c, h, hpassed⟩ := (authSystem plainAuth).exists_trace firstDirectory firstKeyUsed
    (fun ts _ => ∃ t ∈ ts, AuthTrans.isPassed t = true) (by decide +kernel)
  exact ⟨ts, c, h, hpassed, bearer_authentic plainAuth plainArgon_exact firstDirectory rfl ts c h⟩

/-- The key `id` is there, and revoked. -/
def Directory.HasRevoked (w : Directory) (id : Uuid) : Prop :=
  ∃ k ∈ w.keys, k.id = id ∧ k.isActive = false

theorem Directory.Evolves.hasRevoked {ss : List DirectoryWrite} {w w' : Directory} {id : Uuid}
    (h : Evolves ss w w') (hr : w.HasRevoked id) : w'.HasRevoked id := by
  obtain ⟨k, hk, hid, hrevoked⟩ := hr
  obtain ⟨k', hk', hbecomes⟩ := h.keys.kept k hk
  exact ⟨k', hk', hbecomes.id.trans hid, hbecomes.revoked hrevoked⟩

/-- Once a call reports a key as revoked, it is. -/
theorem hasRevoked_of_reported {q : Nat} {id : Uuid} {already : Bool}
    (h : Trace (authSystem S) w₀ ts c) (ht : t ∈ ts)
    (hev : t.ev = .done q (.ok (.revoked id already))) : c.world.HasRevoked id := by
  obtain ⟨past, rest, rfl⟩ := List.append_of_mem ht
  have hacc := (h.diary (authSystem_keeps S)).1 past t rest rfl
  unfold Accountable at hacc
  rw [hev] at hacc
  obtain ⟨call, -, cookie, tenantId, keyId, reason, op, -, -, key, hfound, -, rfl, hrevoked⟩ := hacc
  obtain ⟨c₀, h₀, ss, hgrow⟩ := run_evolves h
  refine hgrow.hasRevoked ?_
  cases already with
  | true =>
      obtain ⟨before, s, after, rfl, -, o, hx⟩ := got_at h₀ hfound
      obtain ⟨⟨ss, hgrow⟩, -⟩ := evolves_from h₀
      exact hgrow.hasRevoked ⟨key, (Directory.key_read hx).1, rfl, hrevoked⟩
  | false =>
      obtain ⟨ws, n, hcommit, hws⟩ := hrevoked
      obtain ⟨before, s, after, rfl, -, o, hx⟩ := got_at h₀ hcommit
      obtain ⟨-, ss, hgrow⟩ := evolves_from h₀
      exact hgrow.hasRevoked (Directory.revoked_of_writeAll (Directory.commit_done hx) hws)

/-- **A revocation is final.**  Once `revoke_api_key` has reported a key as
revoked, no request that starts later passes with it. -/
theorem revocation_final (S : AuthSettings) (w₀ : Directory) (early late : List AuthTrans)
    (c : Config Directory AuthEff AuthAns AuthOutcome)
    (h : Trace (authSystem S) w₀ (early ++ late) c) (id : Uuid)
    (hrevoked : ∃ t ∈ early, ∃ q already, t.ev = .done q (.ok (.revoked id already))) :
    ∀ t ∈ late, ∀ p tenant key, (∀ call, ¬Spawned p call early) →
      t.ev = .done p (.ok (.context tenant key)) → key.id ≠ id := by
  intro t ht p tenant key hlate hev hid
  obtain ⟨late₁, rest, rfl⟩ := List.append_of_mem ht
  have hall := (h.diary (authSystem_keeps S)).1
  have hacc := hall (early ++ late₁) t rest (by simp)
  unfold Accountable at hacc
  rw [hev] at hacc
  obtain ⟨call, -, authorization, scopes, -, hperm, -⟩ := hacc
  obtain ⟨parsed, hnamed, -⟩ := hperm.presented
  -- the lookup is a later one, and finds an active key
  rw [← List.append_assoc] at h
  obtain ⟨c₁, h₁⟩ := h.split
  obtain ⟨before, s, after, hsplit, hs, o, hx⟩ := got_at h₁ hnamed.found
  obtain ⟨hmem, -, hactive⟩ := Directory.activeKey_read hx
  have hbefore : ∃ mid, before = early ++ mid := by
    obtain ⟨mid, hmid, -⟩ | ⟨mid, hmid, hrest⟩ := List.append_eq_append_iff.1 hsplit
    · exact ⟨mid, hmid⟩
    · cases mid with
      | nil => exact ⟨[], by simpa using hmid.symm⟩
      | cons u mid =>
          -- a lookup before that is one of a process that had started before
          obtain ⟨rfl, -⟩ := List.cons.inj hrest
          have hacc := hall before s (mid ++ (late₁ ++ t :: rest)) (by simp [hmid])
          obtain ⟨call', hcall', -⟩ := hacc.of_act hs
          exact absurd (hmid ▸ hcall'.append (s :: mid)) (hlate call')
  obtain ⟨mid, rfl⟩ := hbefore
  rw [hsplit] at h₁
  obtain ⟨c₂, -, h₂, hpre, -⟩ := h₁.moment
  obtain ⟨c₃, h₃, ss, hgrow⟩ := run_evolves h₂
  obtain ⟨u, hu, q, already, hdone⟩ := hrevoked
  obtain ⟨k, hk, hkid, hkrevoked⟩ := hgrow.hasRevoked (hasRevoked_of_reported h₃ hu hdone)
  rw [hpre] at hk
  have hsame : key = k := Table.eq_of_clash hmem hk (by simp [apiKeys, hid, hkid])
  rw [hsame, hkrevoked] at hactive
  cases hactive

/-- A call has reported the key as revoked. -/
def AuthTrans.isRevoked (id : Uuid) (t : AuthTrans) : Bool :=
  match t.ev with
  | .done _ (.ok (.revoked id' _)) => id' = id
  | _ => false

theorem AuthTrans.of_isRevoked {id : Uuid} {t : AuthTrans} (h : t.isRevoked id = true) :
    ∃ q already, t.ev = .done q (.ok (.revoked id already)) := by
  unfold isRevoked at h
  split at h
  · next q id' already hev =>
      obtain rfl := of_decide_eq_true h
      exact ⟨q, already, hev⟩
  · cases h

/-- A request has been refused with a 401. -/
def AuthTrans.isRefused (t : AuthTrans) : Bool :=
  match t.ev with
  | .done _ (.error (.http 401 _ _)) => true
  | _ => false

/-- The key is made, revoked, and used in vain. -/
def firstKeyRevoked : List (Label AuthOracle AuthCall) :=
  answered 0 (.login (py "ops@nv.io") (py "secret")) 6 ++
    answered 1 (.createApiKey (some (py "access")) 2 none 60 (py "dev")) 7 ++
    answered 2 (.revokeApiKey (some (py "access")) 2 0 none) 5 ++
    answered 3 (.authenticate (some (py "Bearer " ++ (drawnKey (fun _ => ⟨0, by decide⟩) .dev).token))
      [py "tts:write"]) 2

/-- A key is made and revoked, and a request with it is refused. -/
theorem revocation_final_first : ∃ early late c,
    Trace (authSystem plainAuth) firstDirectory (early ++ late) c ∧
    (∃ t ∈ late, AuthTrans.isRefused t = true) ∧ ∀ t ∈ late, ∀ p tenant key,
      (∀ call, ¬Spawned p call early) → t.ev = .done p (.ok (.context tenant key)) → key.id ≠ 0 := by
  obtain ⟨ts, c, h, hrevoked, hrefused⟩ := (authSystem plainAuth).exists_trace firstDirectory
    firstKeyRevoked (fun ts _ => (∃ t ∈ ts.take 24, AuthTrans.isRevoked 0 t = true) ∧
      ∃ t ∈ ts.drop 24, AuthTrans.isRefused t = true) (by decide +kernel)
  rw [← List.take_append_drop 24 ts] at h
  obtain ⟨t, ht, hev⟩ := hrevoked
  exact ⟨ts.take 24, ts.drop 24, c, h, hrefused, revocation_final plainAuth firstDirectory _ _ c h 0
    ⟨t, ht, AuthTrans.of_isRevoked hev⟩⟩

end passing

/-! ## strangers -/

section strangers

variable {S : AuthSettings} {w₀ : Directory} {past rest ts : List AuthTrans} {t : AuthTrans}
  {c : Config Directory AuthEff AuthAns AuthOutcome}

/-- `api_keys.tenant_id` refers to tenants. -/
def Directory.Referential (w : Directory) : Prop :=
  ∀ k ∈ w.keys, ∃ t ∈ w.tenants, t.id = k.tenantId

theorem Directory.Referential.write {w w' : Directory} {s : DirectoryWrite} (h : w.Referential)
    (hs : w.write s = some w') : w'.Referential := by
  intro k hk
  have hgrow := evolves_write hs
  obtain ⟨k₀, hk₀, hbecomes⟩ | ⟨k₀, hk₀, hbecomes⟩ := hgrow.keys.origin k hk
  · obtain ⟨t, ht, hid⟩ := h k₀ hk₀
    obtain ⟨t', ht', hsame⟩ := hgrow.tenants.kept t ht
    exact ⟨t', ht', by rw [hsame.id, hid, hbecomes.tenantId]⟩
  · obtain rfl := List.mem_singleton.1 hk₀
    simp only [Directory.write, Option.ite_none_right_eq_some, Bool.and_eq_true] at hs
    obtain ⟨ks, -, rfl⟩ := Option.map_eq_some_iff.1 hs.2
    obtain ⟨t, ht, hid⟩ := List.any_eq_true.1 hs.1.1
    exact ⟨t, ht, by rw [hbecomes.tenantId]; simpa using hid⟩

theorem Directory.Referential.writeAll {w w' : Directory} {ss : List DirectoryWrite}
    (h : w.Referential) (hss : w.writeAll ss = some w') : w'.Referential := by
  induction ss generalizing w with
  | nil => cases hss; exact h
  | cons s ss ih =>
      obtain ⟨w₁, hs, hss⟩ := Option.bind_eq_some_iff.1 hss
      exact ih (h.write hs) hss

theorem Directory.Referential.perform {w : Directory} (h : w.Referential) (e : AuthEff)
    (g : AuthHint) : (w.perform e g).2.Referential := by
  cases e with
  | commit ss =>
      simp only [Directory.perform]
      split
      · next hss => exact h.writeAll hss
      · exact h
  | checkKey id limit now m =>
      simp only [Directory.perform]
      split <;> exact h
  | checkTenant id limit now m =>
      simp only [Directory.perform]
      split <;> exact h
  | _ => exact h

/-- What is performed leaves the directory as it was, or as if it had succeeded. -/
theorem Directory.exec_world {w w' : Directory} {e : AuthEff} {o : AuthOracle} {a : AuthAns e}
    (h : w.exec e o = some (a, w')) : w' = w ∨ ∃ g, w' = (w.perform e g).2 := by
  unfold exec at h
  split at h
  · next g =>
      split at h
      · next heq => cases h; exact .inr ⟨g, by rw [heq]⟩
      · next heq => cases h; exact .inr ⟨g, by rw [heq]⟩
  · split at h <;> cases h
    exact .inl rfl
  · next g =>
      split at h <;> cases h
      exact .inr ⟨g, rfl⟩

theorem run_referential (h₀ : w₀.Referential) (h : Trace (authSystem S) w₀ ts c) :
    c.world.Referential := by
  induction h with
  | nil => exact h₀
  | snoc _ hs ih =>
      cases hs with
      | act hp hx =>
          obtain rfl | ⟨g, rfl⟩ := Directory.exec_world hx
          · exact ih
          · exact ih.perform _ g
      | spawn hp => exact ih
      | done hp => exact ih
      | crash hp => exact ih
      | tick => exact ih

/-- Keys that were made can be read. -/
theorem not_unreadable (hargon : S.argon2.Exact) (hnew : w₀.keys.rows = []) {p : Nat}
    {authorization : Option PyStr} (h : Trace (authSystem S) w₀ past c) :
    ¬Unreadable S (own p past) authorization := by
  rintro ⟨parsed, key, seen, rest, hown, hnamed, hbad⟩
  obtain ⟨past₁, past₂, rfl, rfl, rfl⟩ := own_eq_append hown.symm
  obtain ⟨c₁, h₁⟩ := h.split
  obtain ⟨before, s, after, rfl, hs, o, hx⟩ := got_at h₁ hnamed.found
  obtain ⟨hmem, -, -⟩ := Directory.activeKey_read hx
  obtain ⟨c₀, -, h₀, hpre, -⟩ := h₁.moment
  rw [← hpre] at hmem
  obtain ⟨x, hverify⟩ | hmissing := hbad
  · -- its hash is one of argon2's own
    obtain ⟨k₀, hk₀, -⟩ | ⟨before', u, after', rfl, hadds⟩ := keys_lineage h₀ key hmem
    · rw [← Table.mem_rows, hnew] at hk₀
      cases hk₀
    · have hacc := (h₀.diary (authSystem_keeps S)).1 before' u after' rfl
      obtain ⟨fullKey, q, _, _, _, _, _, _, key₀, _, _, -, -, -, hbecomes, -, hmade⟩ :=
        makesKey_of_addsKey hacc hadds
      obtain ⟨t, draw, salt, made, id, -, -, -, -, hgen, rfl, -⟩ := hmade
      obtain ⟨e, -, -, -, hhash⟩ := generateApiKey_ok hgen
      have hhash' : key.secretHash = S.argon2.hash salt (drawnKey draw e).secret :=
        hbecomes.secretHash.trans hhash
      rw [hhash', hargon] at hverify
      split at hverify <;> cases hverify
  · -- its tenant is still there when it is asked for
    have hfresh : w₀.Referential := fun k hk => by
      rw [← Table.mem_rows, hnew] at hk
      cases hk
    obtain ⟨t, ht, hid⟩ := run_referential hfresh h₀ key hmem
    obtain ⟨u, hu, hev⟩ := mem_own.1 hmissing
    obtain ⟨mid, rest, rfl⟩ := List.append_of_mem hu
    rw [← List.append_assoc] at h
    obtain ⟨c₂, c₃, h₂, hpre₂, -, hstep⟩ := h.moment
    have h₂' := h₂
    rw [List.append_assoc, List.cons_append] at h₂'
    obtain ⟨c₄, h₄, ss, hgrow⟩ := run_evolves h₂'
    rw [h₄.world_eq h₀] at hgrow
    obtain ⟨t', ht', hsame⟩ := hgrow.tenants.kept t ht
    rw [hev] at hstep
    cases hstep with
    | act hp hx =>
        obtain ⟨g, hx⟩ := Directory.exec_ok hx
        obtain ⟨hnone, -⟩ := Prod.mk.inj hx
        have hfind := Table.find?_eq_none.1 (Except.ok.inj hnone) t' ht'
        simp [hsame.id, hid] at hfind

/-- At most the audit log has changed. -/
def Directory.OnlyAudited (w w' : Directory) : Prop :=
  ∃ rows, w' = { w with audit := w.audit ++ rows }

theorem Directory.onlyAudited_writeAll {w w' : Directory} {ss : List DirectoryWrite}
    (h : w.writeAll ss = some w') (hss : ∀ s ∈ ss, ∃ a, s = .insertAudit a) : w.OnlyAudited w' := by
  induction ss generalizing w with
  | nil =>
      cases h
      exact ⟨[], by rw [List.append_nil]⟩
  | cons s ss ih =>
      obtain ⟨a, rfl⟩ := hss s List.mem_cons_self
      obtain ⟨rows, rfl⟩ := ih h fun s hs => hss s (List.mem_cons_of_mem _ hs)
      exact ⟨a :: rows, by simp⟩

/-- What a call does that has no key to show. -/
theorem onlyAudited_of_warrants {w w' : Directory} {e : AuthEff} {o : AuthOracle} {a : AuthAns e}
    {authorization : Option PyStr} {scopes : List PyStr} {h : AuthDiary}
    (hx : w.exec e o = some (a, w'))
    (hwarrant : AuthCall.warrants S (.authenticate authorization scopes) h e)
    (hstranger : ∀ key, ¬Presented S h authorization key) : w.OnlyAudited w' := by
  have hsame : w.OnlyAudited w := ⟨[], by rw [List.append_nil]⟩
  obtain rfl | ⟨g, rfl⟩ := Directory.exec_world hx
  · exact hsame
  cases e with
  | commit ss =>
      simp only [Directory.perform]
      split
      · next hss =>
          refine Directory.onlyAudited_writeAll hss fun s hs => ?_
          have hwrite := hwarrant s hs
          cases s with
          | insertAudit a => exact ⟨a, rfl⟩
          | setLastUsed id n =>
              obtain ⟨tenant, key, hperm, -⟩ := hwrite
              exact absurd hperm.presented (hstranger key)
          | _ => exact hwrite.elim
      · exact hsame
  | checkKey id limit now m =>
      obtain ⟨_, _, tenant, key, heq, hperm, -⟩ := hwarrant
      cases heq
      exact absurd hperm.presented (hstranger key)
  | checkTenant id limit now m =>
      obtain ⟨_, _, tenant, key, heq, hperm, -⟩ := hwarrant
      cases heq
      exact absurd hperm.presented (hstranger key)
  | _ => exact hsame

/-- What a call without a key of its own gets, and does. -/
def TellsNothing (p : Nat) (past : List AuthTrans) (t : AuthTrans) : Prop :=
  (∀ r, t.ev = .done p r → r = .error unauthorized ∨ ∃ x, r = .error x ∧ Raised (own p past) x) ∧
    ∀ e a, t.ev = .act p e a → t.pre.OnlyAudited t.post

/-- **A stranger is told nothing.**  A request whose token is not the full key of
a key that was made is answered with the one 401, or fails because an await has
failed, and its awaits change nothing but the audit log.  So what it sees does not
depend on the keys and tenants there are. -/
theorem stranger_told_nothing (S : AuthSettings) (hargon : S.argon2.Exact) (w₀ : Directory)
    (hnew : w₀.keys.rows = []) (ts : List AuthTrans)
    (c : Config Directory AuthEff AuthAns AuthOutcome) (h : Trace (authSystem S) w₀ ts c)
    (p : Nat) (authorization : Option PyStr) (scopes : List PyStr)
    (hstranger : ∀ key fullKey, bearerToken authorization = some fullKey →
      ¬Once (MakesKey S key fullKey) ts) :
    Always (fun past t => Spawned p (.authenticate authorization scopes) past →
      TellsNothing p past t) ts := by
  rintro past t rest rfl hcall
  obtain ⟨c₀, c₁, h₀, hpre, hpost, hstep⟩ := h.moment
  have hacc := (h.diary (authSystem_keeps S)).1 past t rest rfl
  have hnone : ∀ key, ¬Presented S (own p past) authorization key := by
    intro key hp
    obtain ⟨⟨fullKey, htoken, hmakes⟩, -⟩ := made_of_presented hargon hnew h₀ hp
    exact hstranger key fullKey htoken (hmakes.append _)
  refine ⟨fun r hev => ?_, fun e a hev => ?_⟩
  · have hfin := hacc.justified hev hcall
    cases r with
    | error x =>
        obtain hx | hx | ⟨key, hp⟩ | hx := hfin
        · exact .inl (by rw [hx])
        · exact .inr ⟨x, rfl, hx⟩
        · exact absurd hp (hnone key)
        · exact absurd hx (not_unreadable hargon hnew h₀)
    | ok reply =>
        cases reply with
        | context tenant key =>
            obtain ⟨_, _, heq, hperm, -⟩ := hfin
            cases heq
            exact absurd hperm.presented (hnone key)
        | session s => obtain ⟨_, _, _, _, heq, -⟩ := hfin; cases heq
        | tenant t => obtain ⟨_, _, _, heq⟩ := hfin; cases heq
        | key key fullKey => obtain ⟨_, _, _, _, _, _, heq, -⟩ := hfin; cases heq
        | revoked id already => obtain ⟨_, _, _, _, _, heq, -⟩ := hfin; cases heq
        | done => exact absurd rfl (hfin authorization scopes)
  · rw [hev] at hstep
    cases hstep with
    | act hp hx =>
        rw [← hpre, ← hpost]
        exact onlyAudited_of_warrants hx (hacc.warranted hev hcall) hnone

/-- No statement of an operator is published. -/
def AuthTrans.isQuiet (t : AuthTrans) : Bool := t.writes.all fun s => !s.isOperators

/-- A key that nobody has made is tried. -/
def strangerTries : List (Label AuthOracle AuthCall) :=
  answered 0 (.authenticate (some (py "Bearer " ++ demoKey.token)) [py "tts:write"]) 2

/-- A well-formed key that nobody made is refused, without a write. -/
theorem stranger_told_nothing_first : ∃ ts c, Trace (authSystem plainAuth) firstDirectory ts c ∧
    (∃ t ∈ ts, AuthTrans.isRefused t = true) ∧
    Always (fun past t => Spawned 0 (.authenticate (some (py "Bearer " ++ demoKey.token))
      [py "tts:write"]) past → TellsNothing 0 past t) ts := by
  obtain ⟨ts, c, h, hrefused, hquiet⟩ := (authSystem plainAuth).exists_trace firstDirectory
    strangerTries (fun ts _ => (∃ t ∈ ts, AuthTrans.isRefused t = true) ∧
      ∀ t ∈ ts, AuthTrans.isQuiet t = true) (by decide +kernel)
  refine ⟨ts, c, h, hrefused, stranger_told_nothing plainAuth plainArgon_exact firstDirectory rfl ts c
    h 0 _ _ ?_⟩
  rintro key fullKey - ⟨past, t, rest, rfl, q, _, _, _, _, _, _, key₀, ss, a, -, hev, hkey₀, -⟩
  have hall := List.all_eq_true.1 (hquiet t (by simp)) (.insertKey key₀)
    (by rw [AuthTrans.writes, hev]; exact hkey₀)
  cases hall

end strangers

/-! ## operators -/

section operators

variable {S : AuthSettings} {w₀ : Directory} {past rest ts : List AuthTrans} {t : AuthTrans}
  {c : Config Directory AuthEff AuthAns AuthOutcome}

/-- A login has handed out this session. -/
def HandedOut (s : OperatorSession) (ts : List AuthTrans) : Prop :=
  ∃ t ∈ ts, ∃ q, t.ev = .done q (.ok (.session s))

/-- The cookie is not forged: if the JWT library accepts it, at whatever time, then
a login has handed it out before, its payload is what was encoded, and it has not
expired. -/
def Genuine (S : AuthSettings) (past : List AuthTrans) (cookie : PyStr) : Prop :=
  ∀ secret now payload, S.jwt.decode cookie secret jwtIssuer requiredClaims now = .ok payload →
    (∃ exp : Int, Dict.get payload (py "exp") = some (.int exp) ∧ (now : Int) < 1000 * exp) ∧
      ∃ s, HandedOut s past ∧ ((cookie = s.access ∧ payload = s.accessClaims) ∨
        (cookie = s.refresh ∧ payload = s.refreshClaims))

/-- Every cookie that calls bring is genuine. -/
def Unforged (S : AuthSettings) : List AuthTrans → Prop :=
  Always fun past t => ∀ p call cookie, t.ev = .spawn p call → call.cookie = some cookie →
    Genuine S past cookie

/-- A refresh token is no access token. -/
theorem hasType_refreshClaims (s : OperatorSession) : hasType s.refreshClaims .access = false := rfl

theorem readClaims_accessClaims {s : OperatorSession} {claims : OperatorClaims}
    (h : readClaims s.accessClaims = .ok claims) : claims.operatorId = s.operatorId := by
  have hsub : claim s.accessClaims "sub" = .ok (.str (uuidStr s.operatorId)) := rfl
  have hiat : claim s.accessClaims "iat" = .ok (.int s.issuedAt) := rfl
  have hexp : claim s.accessClaims "exp" = .ok (.int (s.issuedAt + accessTtlSeconds : Nat)) := rfl
  have hfamily : Dict.get s.accessClaims (py "family") = none := rfl
  unfold readClaims at h
  rw [hsub, hiat, hexp, hfamily] at h
  simp only [bind, Except.bind, Json.toUuid, parseUuid_uuidStr, Json.toInt, pure, Except.pure,
    Except.ok.injEq] at h
  rw [← h]

theorem decodeOperatorJwt_ok {token : PyStr} {expected : TokenType} {now : Nat}
    {claims : OperatorClaims} (h : decodeOperatorJwt S token expected now = .ok claims) :
    ∃ secret payload, S.jwt.decode token secret jwtIssuer requiredClaims now = .ok payload ∧
      hasType payload expected = true ∧ readClaims payload = .ok claims := by
  unfold decodeOperatorJwt at h
  cases hkey : signingKey S with
  | error x => simp [hkey, bind, Except.bind, Except.mapError] at h
  | ok secret =>
      cases hdecode : S.jwt.decode token secret jwtIssuer requiredClaims now with
      | error x => simp [hkey, hdecode, bind, Except.bind, Except.mapError] at h
      | ok payload =>
          refine ⟨secret, payload, hdecode, ?_⟩
          cases htype : hasType payload expected with
          | false => simp [hkey, hdecode, htype, bind, Except.bind, Except.mapError, throw,
              throwThe, MonadExceptOf.throw] at h
          | true =>
              cases hread : readClaims payload with
              | error x => simp [hkey, hdecode, htype, hread, bind, Except.bind, Except.mapError] at h
              | ok r =>
                  simp [hkey, hdecode, htype, hread, bind, Except.bind, Except.mapError] at h
                  exact ⟨rfl, by rw [h]⟩

/-- What is known of a process that writes for an operator: it has the access
token of a session that a login has issued, less than an hour before the
process looked at the clock, to an operator with that e-mail address and password; and
the operator was not disabled then, nor when the process looked. -/
structure ActsFor (S : AuthSettings) (past : List AuthTrans) (p : Nat) (op : Operator) : Prop where
  session : ∃ (call : AuthCall) (s : OperatorSession) (q : Nat) (email password : PyStr)
    (op₀ : Operator) (issued now : Nat), Spawned p call past ∧
    call.cookie = some s.access ∧ Spawned q (.login email password) past ∧
    LogsIn S (own q past) email password op₀ ∧ IssuedTo (own q past) op₀ s issued ∧
    op.id = op₀.id ∧ Got (own p past) .clock now ∧ now < issued + 1000 * accessTtlSeconds
  enabled : ∃ t ∈ past, op ∈ t.pre.operators ∧ op.disabledAt = none ∧ ∃ e a, t.ev = .act p e a

theorem own_prefix {p : Nat} {us : List AuthTrans} : own p past <+: own p (past ++ us) := by
  rw [own_append]
  exact List.prefix_append _ _

/-- A cookie of an operator goes back to a login. -/
theorem actsFor_of_operates (h : Trace (authSystem S) w₀ past c) (hunforged : Unforged S past)
    {p : Nat} {call : AuthCall} {op : Operator} (hcall : Spawned p call past)
    (hop : Operates S (own p past) call.cookie op) : ActsFor S past p op := by
  obtain ⟨token, now, claims, hcookie, hclock, hdecode, hfound, henabled⟩ := hop
  obtain ⟨before, s, after, rfl, hs, o, hx⟩ := got_at h hfound
  obtain ⟨hmem, hid⟩ := Directory.operator_read hx
  refine ⟨?_, ⟨s, by simp, hmem, henabled, _, _, hs⟩⟩
  obtain ⟨secret, payload, hpayload, htype, hread⟩ := decodeOperatorJwt_ok hdecode
  -- the cookie was genuine when the call started
  obtain ⟨u, hu, hspawn⟩ := hcall
  obtain ⟨early, late, hsplit⟩ := List.append_of_mem hu
  have hgenuine := hunforged early u late hsplit p call token hspawn hcookie
  obtain ⟨⟨exp, hexp, hlate⟩, session, ⟨v, hv, q, hdone⟩, horigin⟩ :=
    hgenuine secret now payload hpayload
  obtain ⟨early', mid, rfl⟩ := List.append_of_mem hv
  rw [hsplit, List.append_assoc, List.cons_append] at h
  have hacc := (h.diary (authSystem_keeps S)).1 early' v _ rfl
  unfold Accountable at hacc
  rw [hdone] at hacc
  obtain ⟨login, hlogin, email, password, op₀, issued, rfl, hlogs, hissued⟩ := hacc
  have hgrow : own q early' <+: own q (before ++ s :: after) := by
    rw [hsplit, List.append_assoc]
    exact own_prefix
  obtain ⟨rfl, rfl⟩ | ⟨-, rfl⟩ := horigin
  · refine ⟨call, session, q, email, password, op₀, issued, now, ⟨u, hu, hspawn⟩, hcookie, ?_,
      hlogs.mono hgrow, hissued.mono hgrow, ?_, hclock, ?_⟩
    · rw [hsplit, List.append_assoc]
      exact ((hlogin _).2 rfl).append _
    · rw [hid, readClaims_accessClaims hread, hissued.operatorId]
    · have hget : Dict.get session.accessClaims (py "exp") =
          some (.int (session.issuedAt + accessTtlSeconds : Nat)) := rfl
      rw [hget, hissued.issuedAt] at hexp
      cases hexp
      have hlate : now < 1000 * (issued / 1000 + accessTtlSeconds) := by exact_mod_cast hlate
      omega
  · rw [hasType_refreshClaims] at htype
    cases htype

/-- Who publishes an operator's statement acts for an operator. -/
def OperatorsOnly (S : AuthSettings) (past : List AuthTrans) (t : AuthTrans) : Prop :=
  ∀ s ∈ t.writes, s.isOperators = true → ∃ p e a op, t.ev = .act p e a ∧ ActsFor S past p op

/-- **Keys, tenants and revocations are the work of operators.**  If no cookie is
forged, whoever commits one acts for an operator who has logged in with their
password within the hour, and who is not disabled.  A refresh token does
not do. -/
theorem operator_authority (S : AuthSettings) (w₀ : Directory) (ts : List AuthTrans)
    (c : Config Directory AuthEff AuthAns AuthOutcome) (h : Trace (authSystem S) w₀ ts c)
    (hunforged : Unforged S ts) : Always (OperatorsOnly S) ts := by
  rintro past t rest rfl s hs hoperators
  obtain ⟨c₀, -, h₀, -⟩ := h.moment
  have hacc := (h.diary (authSystem_keeps S)).1 past t rest rfl
  have hearlier : Unforged S past := fun early u late hsplit =>
    hunforged early u (late ++ t :: rest) (by simp [hsplit])
  unfold AuthTrans.writes at hs
  split at hs
  · next p e a hev =>
      cases e with
      | commit ss =>
          obtain ⟨call, hcall, hwarrant⟩ := hacc.of_act hev
          have hwrite := hwarrant s hs
          have hop : ∃ op, Operates S (own p past) call.cookie op := by
            cases call with
            | createTenant cookie slug name =>
                cases s with
                | insertTenant t => obtain ⟨op, id, hop, -⟩ := hwrite; exact ⟨op, hop⟩
                | insertAudit a => cases hoperators
                | _ => exact hwrite.elim
            | createApiKey cookie tenantId label rate env =>
                cases s with
                | insertKey k => obtain ⟨op, fullKey, hop, -⟩ := hwrite; exact ⟨op, hop⟩
                | insertAudit a => cases hoperators
                | _ => exact hwrite.elim
            | revokeApiKey cookie tenantId keyId reason =>
                cases s with
                | setRevoked id n r => obtain ⟨op, key, hop, -⟩ := hwrite; exact ⟨op, hop⟩
                | insertAudit a => cases hoperators
                | _ => exact hwrite.elim
            | _ =>
                cases s with
                | insertTenant t => exact hwrite.elim
                | insertKey k => exact hwrite.elim
                | setRevoked id n r => exact hwrite.elim
                | _ => cases hoperators
          obtain ⟨op, hop⟩ := hop
          exact ⟨p, _, a, op, hev, actsFor_of_operates h₀ hearlier hcall hop⟩
      | _ => cases hs
  · cases hs

/-- A login hands out the session. -/
def AuthTrans.handsOut (s : OperatorSession) (t : AuthTrans) : Bool :=
  match t.ev with
  | .done _ (.ok (.session s')) => s' = s
  | _ => false

theorem AuthTrans.of_handsOut {s : OperatorSession} {ts : List AuthTrans}
    (h : ∃ t ∈ ts, AuthTrans.handsOut s t = true) : HandedOut s ts := by
  obtain ⟨t, ht, hs⟩ := h
  unfold handsOut at hs
  split at hs
  · next q s' hev =>
      obtain rfl := of_decide_eq_true hs
      exact ⟨t, ht, q, hev⟩
  · cases hs

/-- A call starts with a cookie. -/
def AuthTrans.bringsCookie (t : AuthTrans) : Bool :=
  match t.ev with
  | .spawn _ call => call.cookie.isSome
  | _ => false

/-- After the first login, cookies of the first session are genuine. -/
theorem genuine_sessionJwt {cookie : PyStr} (h : HandedOut firstSession past) :
    Genuine plainAuth past cookie := by
  intro secret now payload hdecode
  simp only [plainAuth, sessionJwt] at hdecode
  split at hdecode
  · next hc =>
      cases hdecode
      refine ⟨⟨3600, rfl, by omega⟩, firstSession, h, .inl ⟨hc.1, rfl⟩⟩
  · split at hdecode
    · next hc =>
        cases hdecode
        refine ⟨⟨604800, rfl, by omega⟩, firstSession, h, .inr ⟨hc.1, rfl⟩⟩
    · cases hdecode

/-- The operator logs in and adds a tenant. -/
def firstTenantAdded : List (Label AuthOracle AuthCall) :=
  answered 0 (.login (py "ops@nv.io") (py "secret")) 6 ++
    answered 1 (.createTenant (some (py "access")) (py "bolt") (py "Bolt")) 5

/-- An operator logs in and adds a tenant with the cookie of the login. -/
theorem operator_authority_first : ∃ ts c, Trace (authSystem plainAuth) firstDirectory ts c ∧
    (∃ t ∈ ts, AuthTrans.isQuiet t = false) ∧ Always (OperatorsOnly plainAuth) ts := by
  obtain ⟨ts, c, h, hloud, hcookies⟩ := (authSystem plainAuth).exists_trace firstDirectory
    firstTenantAdded (fun ts _ => (∃ t ∈ ts, AuthTrans.isQuiet t = false) ∧
      Always (fun past t => AuthTrans.bringsCookie t = true →
        ∃ u ∈ past, AuthTrans.handsOut firstSession u = true) ts) (by decide +kernel)
  refine ⟨ts, c, h, hloud, operator_authority plainAuth firstDirectory ts c h ?_⟩
  rintro past t rest hsplit p call cookie hev hcookie
  refine genuine_sessionJwt (AuthTrans.of_handsOut (hcookies past t rest hsplit ?_))
  simp [AuthTrans.bringsCookie, hev, hcookie]

end operators

end NeuroVoice
