import NeuroVoice.Auth.Directory
import NeuroVoice.Catalog.Storage

/-!
# NeuroVoice.Auth.Routes

`authenticate_bearer` of `server/auth.py`, and the operator routes of
`server/admin/router.py` that it depends on: login, tenants, and the keys of
tenants.

argon2 and the JWT library are parameters.  Metrics and the client's address
are left out.
-/

namespace NeuroVoice

/-! ## settings -/

/-- Why argon2 does not accept a secret. -/
inductive ArgonError where
  | mismatch
  /-- `InvalidHashError`, and whatever else the library raises. -/
  | other (x : Foreign)

/-- `PasswordHasher`: `hash salt plain` and `verify stored plain`. -/
structure Argon2 where
  hash : PyStr → PyStr → PyStr
  verify : PyStr → PyStr → Except ArgonError Unit

/-- `ExpiredSignatureError` and the other `InvalidTokenError`s. -/
inductive JwtFailure where
  | expired
  | invalid (msg : String)

/-- `jwt.encode(claims, secret)`, and `jwt.decode(token, secret)` for tokens of
an issuer with some required claims, at a time in milliseconds.  The algorithm
is always `HS256`. -/
structure JwtLib where
  encode : Dict → PyStr → PyStr
  decode : PyStr → PyStr → PyStr → List PyStr → Nat → Except JwtFailure Dict

/-- What the deployment and the libraries provide. -/
structure AuthSettings where
  argon2 : Argon2
  jwt : JwtLib
  /-- `NEUROVOICE_JWT_SECRET`. -/
  jwtSecret : Option PyStr
  tenantRateLimitPerMinute : Int
  /-- `str.lower`. -/
  lower : PyStr → PyStr

/-! ## operator tokens -/

/-- `ACCESS_TTL_SECONDS`. -/
def accessTtlSeconds : Nat := 60 * 60

/-- `REFRESH_TTL_SECONDS`. -/
def refreshTtlSeconds : Nat := 60 * 60 * 24 * 7

/-- `ISSUER`. -/
def jwtIssuer : PyStr := py "neurovoice"

/-- The claims that `decode_operator_jwt` requires. -/
def requiredClaims : List PyStr := [py "iss", py "sub", py "iat", py "exp", py "type"]

/-- `token_type`. -/
inductive TokenType where
  | access
  | refresh
  deriving DecidableEq

def TokenType.text : TokenType → PyStr
  | .access => py "access"
  | .refresh => py "refresh"

/-- `_signing_key`. -/
def signingKey (S : AuthSettings) : Except Foreign PyStr :=
  match S.jwtSecret with
  | some key =>
      if key.length < 32 then .error (.other "NEUROVOICE_JWT_SECRET must be set") else .ok key
  | none => .error (.other "NEUROVOICE_JWT_SECRET must be set")

/-- The claims of an access token issued at `now`, in seconds. -/
def accessClaims (operatorId : Uuid) (roles : List PyStr) (now : Nat) : Dict :=
  [(py "iss", .str jwtIssuer), (py "sub", .str (uuidStr operatorId)), (py "iat", .int now),
    (py "exp", .int (now + accessTtlSeconds : Nat)), (py "type", .str TokenType.access.text),
    (py "scope", .ofStr "admin"), (py "roles", .arr (roles.map .str))]

/-- The claims of a refresh token. -/
def refreshClaims (operatorId family jti : Uuid) (now : Nat) : Dict :=
  [(py "iss", .str jwtIssuer), (py "sub", .str (uuidStr operatorId)), (py "iat", .int now),
    (py "exp", .int (now + refreshTtlSeconds : Nat)), (py "type", .str TokenType.refresh.text),
    (py "family", .str (uuidStr family)), (py "jti", .str (hexDigits 32 jti.toNat))]

/-- `OperatorClaims`. -/
structure OperatorClaims where
  operatorId : Uuid
  roles : Json
  issuedAt : Int
  expiresAt : Int
  family : Option Uuid

/-- `JWTError`, or an exception that is none. -/
inductive TokenError where
  | expired
  | tampered (msg : String)
  | typeMismatch
  | foreign (x : Foreign)

/-- `payload[k]`. -/
def claim (payload : Dict) (k : String) : Except Foreign Json :=
  match Dict.get payload (py k) with
  | some v => .ok v
  | none => .error .keyError

/-- What `decode_operator_jwt` makes of a payload. -/
def readClaims (payload : Dict) : Except Foreign OperatorClaims := do
  let operatorId ← (← claim payload "sub").toUuid
  let issuedAt ← (← claim payload "iat").toInt
  let expiresAt ← (← claim payload "exp").toInt
  let family ← match Dict.get payload (py "family") with
    | some v => do pure (some (← v.toUuid))
    | none => pure none
  return { operatorId, roles := (Dict.get payload (py "roles")).getD (.arr []), issuedAt
           expiresAt, family }

/-- `payload.get("type") == expected_type`. -/
def hasType (payload : Dict) (expected : TokenType) : Bool :=
  match Dict.get payload (py "type") with
  | some (.str s) => s = expected.text
  | _ => false

/-- `decode_operator_jwt`, at a time in milliseconds. -/
def decodeOperatorJwt (S : AuthSettings) (token : PyStr) (expected : TokenType) (now : Nat) :
    Except TokenError OperatorClaims := do
  let secret ← (signingKey S).mapError .foreign
  let payload ← (S.jwt.decode token secret jwtIssuer requiredClaims now).mapError fun
    | .expired => .expired
    | .invalid msg => .tampered msg
  if !hasType payload expected then throw .typeMismatch
  (readClaims payload).mapError .foreign

/-- What login sets as cookies, with what their claims are made of. -/
structure OperatorSession where
  operatorId : Uuid
  email : PyStr
  roles : List PyStr
  /-- In seconds. -/
  issuedAt : Nat
  family : Uuid
  jti : Uuid
  access : PyStr
  refresh : PyStr
  deriving DecidableEq

/-- The claims of its access token. -/
def OperatorSession.accessClaims (s : OperatorSession) : Dict :=
  NeuroVoice.accessClaims s.operatorId s.roles s.issuedAt

/-- The claims of its refresh token. -/
def OperatorSession.refreshClaims (s : OperatorSession) : Dict :=
  NeuroVoice.refreshClaims s.operatorId s.family s.jti s.issuedAt

/-- `issue_operator_jwt`. -/
def issueOperatorJwt (S : AuthSettings) (op : Operator) : AuthPy OperatorSession := do
  let now : Nat ← ask .clock
  let family ← ask .uuid4
  match signingKey S with
  | .error x => throw (.foreign x)
  | .ok secret => do
      let jti ← ask .uuid4
      let issuedAt := now / 1000
      return { operatorId := op.id, email := op.email, roles := op.roles, issuedAt, family, jti
               access := S.jwt.encode (accessClaims op.id op.roles issuedAt) secret
               refresh := S.jwt.encode (refreshClaims op.id family jti issuedAt) secret }

/-! ## audit -/

/-- `except Exception` catches it. -/
def AuthExn.isException : AuthExn → Bool
  | .http _ _ _ => true
  | .foreign x => x.isException

/-- `_audit_async`: the session's writes and the row are committed, and an
error stays inside. -/
def auditAsync (written : List DirectoryWrite) (a : AuditLog) : AuthPy Unit :=
  tryCatch (do let _ ← ask (.commit (written ++ [.insertAudit a])); pure ()) fun e => do
    if e.isException then
      let _ ← ask .rollback
      pure ()
    else throw e

/-- An audited refusal. -/
def deny {α : Type} (a : AuditLog) (e : AuthExn) : AuthPy α := do
  auditAsync [] a
  throw e

/-- An action of an operator. -/
def operatorAction (op : Operator) (action : String) : AuditLog where
  actorType := py "operator"
  actorId := some op.id
  actorLabel := some op.email
  action := py action
  result := py "success"

/-! ## api keys of requests -/

/-- `GENERIC_AUTH_ERROR`. -/
def genericAuthError : PyStr := py "invalid or revoked api key"

/-- `WWW-Authenticate` of a refusal that says nothing. -/
def bearerChallenge : List (PyStr × PyStr) :=
  [(py "WWW-Authenticate", py "Bearer realm=\"neurovoice\"")]

/-- The 401 of every failed authentication. -/
def unauthorized : AuthExn := .http 401 genericAuthError bearerChallenge

/-- `auth.fail`, for a reason. -/
def authFail (reason : PyStr) : AuditLog where
  actorType := py "system"
  action := py "auth.fail"
  result := py "denied"
  payload := [(py "reason", .str reason)]

/-- An audit row about a known key. -/
def keyAudit (key : ApiKey) (tenant : Tenant) (action result : String) (payload : Dict) : AuditLog where
  actorType := py "api_key"
  actorId := some key.id
  actorLabel := some key.keyPrefix
  tenantId := some tenant.id
  action := py action
  result := py result
  payload

/-- The token of an `Authorization` header.  Of the letters in `bearer`, `lower`
maps only ASCII ones to them. -/
def bearerToken (authorization : Option PyStr) : Option PyStr :=
  match authorization with
  | some h => if lowerAscii (h.take 7) = py "bearer " then some (stripBy isSpace (h.drop 7)) else none
  | none => none

/-- `lookup_active_by_prefix`: the key, and then its tenant.  The foreign key
does not let a tenant be missing. -/
def lookupActiveByPrefix (keyPrefix : PyStr) : AuthPy (Option (ApiKey × Tenant)) := do
  match ← ask (.selectActiveKey keyPrefix) with
  | none => pure none
  | some key =>
      match ← ask (.selectTenant key.tenantId) with
      | some tenant => pure (some (key, tenant))
      | none => throw (.foreign .attributeError)

/-- Steps 1 to 4 of `authenticate_bearer`: whose key the header carries. -/
def presentedKey (S : AuthSettings) (authorization : Option PyStr) : AuthPy (ApiKey × Tenant) :=
  match bearerToken authorization with
  | none => deny (authFail (py "missing_bearer")) unauthorized
  | some token =>
      match parseApiKey token with
      | .error _ => deny (authFail (py "bad_format")) unauthorized
      | .ok parsed => do
          match ← lookupActiveByPrefix parsed.keyPrefix with
          | none =>
              deny { authFail (py "unknown_prefix") with actorLabel := some parsed.keyPrefix }
                unauthorized
          | some (key, tenant) =>
              match S.argon2.verify key.secretHash parsed.secret with
              | .ok () => pure (key, tenant)
              | .error .mismatch =>
                  deny (keyAudit key tenant "auth.fail" "denied"
                    [(py "reason", .ofStr "secret_mismatch")]) unauthorized
              | .error (.other x) => throw (.foreign x)

/-- `required_scopes` that the key does not have. -/
def missingScopes (required : List PyStr) (key : ApiKey) : List PyStr :=
  required.filter fun s => !key.scopes.contains s

/-- Steps 5 and 6: the tenant is active, and the key has the scopes. -/
def checkPermitted (key : ApiKey) (tenant : Tenant) (requiredScopes : List PyStr) : AuthPy Unit := do
  if tenant.status ≠ .active then
    deny (keyAudit key tenant "auth.fail" "denied"
      [(py "reason", .str (py "tenant_status_" ++ tenant.status.text))])
      (.http 403 genericAuthError bearerChallenge)
  let missing := missingScopes requiredScopes key
  if !missing.isEmpty then
    deny (keyAudit key tenant "auth.fail" "denied"
      [(py "reason", .ofStr "insufficient_scope"), (py "missing", .arr (missing.map .str))])
      (.http 403 (py "insufficient scope") [(py "WWW-Authenticate",
        py "Bearer error=\"insufficient_scope\", scope=\"" ++ joinWith 0x20 requiredScopes ++ py "\"")])

/-- The member of one call, `{now_ms}-{uuid4().hex[:8]}`. -/
def rateMember (now : Nat) (u : Uuid) : PyStr :=
  py (toString now) ++ py "-" ++ (hexDigits 32 u.toNat).take 8

/-- `RateLimiter.check`, for the script call `check` of a bucket. -/
def checkBucket (limit : Int) (check : Nat → PyStr → AuthPy RateLimitResult) :
    AuthPy RateLimitResult := do
  if limit ≤ 0 then throw (.foreign (.valueError "limit must be > 0"))
  let now ← ask .clock
  let u ← ask .uuid4
  check now (rateMember now u)

/-- `max(1, retry_after_ms // 1000 + 1)`, as a header. -/
def retryAfter (r : RateLimitResult) : List (PyStr × PyStr) :=
  [(py "Retry-After", py (toString (max 1 (r.retryAfterMs / 1000 + 1))))]

/-- Step 7: the bucket of the key, and then that of the tenant. -/
def checkRate (S : AuthSettings) (key : ApiKey) (tenant : Tenant) : AuthPy Unit := do
  let r ← checkBucket key.rateLimitPerMinute fun now m =>
    ask (.checkKey key.id key.rateLimitPerMinute now m)
  if !r.allowed then
    deny (keyAudit key tenant "auth.rate_limited" "denied"
      [(py "limit", .int key.rateLimitPerMinute), (py "count", .int r.count)])
      (.http 429 (py "rate limited") (retryAfter r))
  let r ← checkBucket S.tenantRateLimitPerMinute fun now m =>
    ask (.checkTenant tenant.id S.tenantRateLimitPerMinute now m)
  if !r.allowed then
    deny (keyAudit key tenant "auth.rate_limited" "denied"
      [(py "scope", .ofStr "tenant"), (py "limit", .int S.tenantRateLimitPerMinute),
        (py "count", .int r.count)])
      (.http 429 (py "rate limited (tenant)") (retryAfter r))

/-- `authenticate_bearer`. -/
def authenticateBearer (S : AuthSettings) (authorization : Option PyStr)
    (requiredScopes : List PyStr) : AuthPy (Tenant × ApiKey) := do
  let (key, tenant) ← presentedKey S authorization
  checkPermitted key tenant requiredScopes
  checkRate S key tenant
  -- touch_last_used: the row is still in the session
  let now ← ask .clock
  let _ ← ask (.flush (.setLastUsed key.id now))
  auditAsync [.setLastUsed key.id now] (keyAudit key tenant "auth.success" "success" [])
  return (tenant, key)

/-! ## operator routes -/

/-- An error without headers. -/
def httpError (code : Nat) (detail : String) : AuthExn := .http code (py detail) []

/-- `_current_operator`. -/
def currentOperator (S : AuthSettings) (cookie : Option PyStr) : AuthPy Operator := do
  match cookie with
  | none => throw (httpError 401 "operator login required")
  | some token =>
      if token.isEmpty then throw (httpError 401 "operator login required")
      let now ← ask .clock
      match decodeOperatorJwt S token .access now with
      | .error (.foreign x) => throw (.foreign x)
      | .error _ => throw (httpError 401 "session invalid")
      | .ok claims =>
          match ← ask (.selectOperator claims.operatorId) with
          | some op =>
              if op.disabledAt.isSome then throw (httpError 401 "operator disabled")
              pure op
          | none => throw (httpError 401 "operator disabled")

/-- `login`. -/
def login (S : AuthSettings) (email password : PyStr) : AuthPy OperatorSession := do
  match ← ask (.selectOperatorByEmail (S.lower email)) with
  | none => throw (httpError 401 "invalid credentials")
  | some op =>
      if op.disabledAt.isSome then throw (httpError 401 "invalid credentials")
      match S.argon2.verify op.passwordHash password with
      | .error .mismatch => throw (httpError 401 "invalid credentials")
      | .error (.other x) => throw (.foreign x)
      | .ok () => do
          let session ← issueOperatorJwt S op
          let now ← ask .clock
          let _ ← ask (.commit [.setLastLogin op.id now,
            .insertAudit (operatorAction op "operator.login")])
          return session

/-- `create_tenant`. -/
def createTenant (S : AuthSettings) (cookie : Option PyStr) (slug displayName : PyStr) :
    AuthPy Tenant := do
  let op ← currentOperator S cookie
  if (← ask (.selectTenantBySlug slug)).isSome then
    throw (.http 409 (py "tenant '" ++ slug ++ py "' already exists") [])
  let id ← ask .uuid4
  let t : Tenant := { id, slug, displayName }
  let _ ← ask (.commit [.insertTenant t, .insertAudit
    { operatorAction op "tenant.create" with
      tenantId := some t.id, targetType := some (py "tenant"), targetId := some (uuidStr t.id)
      payload := [(py "slug", .str slug), (py "display_name", .str displayName)] }])
  return t

/-- The scopes of a key for which none are named. -/
def defaultScopes : List PyStr := [py "tts:read", py "tts:write"]

/-- The row that `ApiKeyRepo.create` adds. -/
def newApiKey (id tenantId : Uuid) (made : GeneratedApiKey) (scopes : Option (List PyStr))
    (rateLimitPerMinute : Int) (label : Option PyStr) (operatorId : Uuid) : ApiKey where
  id := id
  tenantId := tenantId
  keyPrefix := made.keyPrefix
  secretHash := made.secretHash
  scopes := match scopes with
    | some (s :: ss) => s :: ss
    | _ => defaultScopes
  rateLimitPerMinute := rateLimitPerMinute
  label := label
  createdByOperatorId := some operatorId

/-- `create_api_key`: the reply is the only place where the full key is. -/
def createApiKey (S : AuthSettings) (cookie : Option PyStr) (tenantId : Uuid) (label : Option PyStr)
    (rateLimitPerMinute : Int) (environment : PyStr) : AuthPy (ApiKey × PyStr) := do
  let op ← currentOperator S cookie
  match ← ask (.selectTenant tenantId) with
  | none => throw (httpError 404 "tenant not found")
  | some t =>
      if t.deletedAt.isSome then throw (httpError 404 "tenant not found")
      let draw : Nat → Fin base62Alphabet.length ← ask .choices
      let salt : PyStr ← ask .salt
      match generateApiKey (S.argon2.hash salt) environment draw with
      | .error x => throw (.foreign x)
      | .ok made =>
          let id ← ask .uuid4
          let key := newApiKey id t.id made none rateLimitPerMinute label op.id
          let _ ← ask (.commit [.insertKey key, .insertAudit
            { operatorAction op "key.create" with
              tenantId := some t.id, targetType := some (py "api_key")
              targetId := some (uuidStr key.id)
              payload := [(py "prefix", .str made.keyPrefix),
                (py "rate_limit_per_minute", .int rateLimitPerMinute), (py "label", .ofStr? label),
                (py "environment", .str environment)] }])
          return (key, made.fullKey)

/-- `revoke_api_key`: `true` if the key had been revoked already. -/
def revokeApiKey (S : AuthSettings) (cookie : Option PyStr) (tenantId keyId : Uuid)
    (reason : Option PyStr) : AuthPy (Uuid × Bool) := do
  let op ← currentOperator S cookie
  match ← ask (.selectKey keyId) with
  | none => throw (httpError 404 "key not found")
  | some key =>
      if key.tenantId ≠ tenantId then throw (httpError 404 "key not found")
      if key.revokedAt.isSome then return (key.id, true)
      let now ← ask .clock
      let _ ← ask (.commit [.setRevoked key.id now reason, .insertAudit
        { operatorAction op "key.revoke" with
          tenantId := some tenantId, targetType := some (py "api_key")
          targetId := some (uuidStr key.id), payload := [(py "reason", .ofStr? reason)] }])
      return (key.id, false)

/-! ## scripts -/

/-- `TenantRepo.suspend` and `reactivate`, with their caller's commit. -/
def setTenantStatus (id : Uuid) (status : TenantStatus) : AuthPy Unit := do
  match ← ask (.selectTenant id) with
  | none => pure ()
  | some t =>
      let _ ← ask (.commit [.setTenantStatus t.id status])

/-- The password of a new operator, generated if none is given. -/
def passwordOr (password : Option PyStr) : AuthPy PyStr :=
  match password with
  | some p => pure p
  | none => ask .tokenUrlsafe

/-- `scripts/seed_operator.py`. -/
def seedOperator (S : AuthSettings) (email : PyStr) (fullName password : Option PyStr)
    (roles : List PyStr) : AuthPy Unit := do
  if (← ask (.selectOperatorByEmail (S.lower email))).isSome then return ()
  let password ← passwordOr password
  let salt : PyStr ← ask .salt
  match hashSecret (S.argon2.hash salt) password with
  | .error x => throw (.foreign x)
  | .ok passwordHash =>
      let id ← ask .uuid4
      let _ ← ask (.commit [.insertOperator
        { id, email := S.lower email, passwordHash, fullName,
          roles := if roles.isEmpty then [py "admin"] else roles }])

/-! ## the system -/

/-- Something that can be started. -/
inductive AuthCall where
  /-- The head of a request, or of a WebSocket connection. -/
  | authenticate (authorization : Option PyStr) (requiredScopes : List PyStr)
  | login (email password : PyStr)
  | createTenant (cookie : Option PyStr) (slug displayName : PyStr)
  | createApiKey (cookie : Option PyStr) (tenantId : Uuid) (label : Option PyStr)
      (rateLimitPerMinute : Int) (environment : PyStr)
  | revokeApiKey (cookie : Option PyStr) (tenantId keyId : Uuid) (reason : Option PyStr)
  | suspend (id : Uuid)
  | reactivate (id : Uuid)
  | seedOperator (email : PyStr) (fullName password : Option PyStr) (roles : List PyStr)

/-- The cookie of an operator route. -/
def AuthCall.cookie : AuthCall → Option PyStr
  | .createTenant cookie _ _ | .createApiKey cookie _ _ _ _ | .revokeApiKey cookie _ _ _ => cookie
  | _ => none

/-- What a call returns. -/
inductive AuthReply where
  | context (tenant : Tenant) (key : ApiKey)
  | session (s : OperatorSession)
  | tenant (t : Tenant)
  | key (key : ApiKey) (fullKey : PyStr)
  | revoked (id : Uuid) (already : Bool)
  | done

/-- How a call ended. -/
abbrev AuthOutcome : Type := Except AuthExn AuthReply

/-- The program of a call. -/
def AuthCall.program (S : AuthSettings) : AuthCall → AuthPy AuthReply
  | .authenticate authorization scopes => do
      let (tenant, key) ← authenticateBearer S authorization scopes
      return .context tenant key
  | .login email password => do return .session (← NeuroVoice.login S email password)
  | .createTenant cookie slug name => do
      return .tenant (← NeuroVoice.createTenant S cookie slug name)
  | .createApiKey cookie tenant label rate env => do
      let (key, fullKey) ← NeuroVoice.createApiKey S cookie tenant label rate env
      return .key key fullKey
  | .revokeApiKey cookie tenant key reason => do
      let (id, already) ← NeuroVoice.revokeApiKey S cookie tenant key reason
      return .revoked id already
  | .suspend id => do
      NeuroVoice.setTenantStatus id .suspended
      return .done
  | .reactivate id => do
      NeuroVoice.setTenantStatus id .active
      return .done
  | .seedOperator email fullName password roles => do
      NeuroVoice.seedOperator S email fullName password roles
      return .done

/-- Any number of calls over one directory, await by await. -/
def authSystem (S : AuthSettings) :
    Machine Directory AuthEff AuthAns AuthOracle AuthCall AuthOutcome where
  exec _ e o w := w.exec e o
  start call := (call.program S).run
  halt _ w := w
  tick := Directory.tick

end NeuroVoice
