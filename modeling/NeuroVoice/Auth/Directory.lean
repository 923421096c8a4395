import NeuroVoice.ApiKeys
import NeuroVoice.Catalog.State
import NeuroVoice.RateLimit
import NeuroVoice.Lib.Machine

/-!
# NeuroVoice.Auth.Directory

Who may do what: the tables `tenants`, `operators` and `api_keys` with their
constraints, the audit log, the rate-limit buckets, and what each await of the
authentication code does to them.

A session sends its statements as it goes and publishes them with its commit.
None of the handlers reads what it has written itself, so the writes of a
session are the argument of `AuthEff.commit`, and a constraint that they
violate fails there.
-/

namespace NeuroVoice

/-! ## rows -/

/-- The check `status_enum`. -/
inductive TenantStatus where
  | active
  | suspended
  | deleted
  deriving DecidableEq

def TenantStatus.text : TenantStatus → PyStr
  | .active => py "active"
  | .suspended => py "suspended"
  | .deleted => py "deleted"

/-- A `tenants` row. -/
structure Tenant where
  id : Uuid
  slug : PyStr
  displayName : PyStr
  status : TenantStatus := .active
  deletedAt : Option Nat := none
  deriving DecidableEq

/-- An `operators` row. -/
structure Operator where
  id : Uuid
  email : PyStr
  passwordHash : PyStr
  fullName : Option PyStr
  roles : List PyStr
  lastLoginAt : Option Nat := none
  disabledAt : Option Nat := none
  deriving DecidableEq

/-- An `api_keys` row. -/
structure ApiKey where
  id : Uuid
  tenantId : Uuid
  keyPrefix : PyStr
  secretHash : PyStr
  scopes : List PyStr
  rateLimitPerMinute : Int := 60
  label : Option PyStr
  createdByOperatorId : Option Uuid
  lastUsedAt : Option Nat := none
  revokedAt : Option Nat := none
  revokedReason : Option PyStr := none
  deriving DecidableEq

/-- `is_active`. -/
def ApiKey.isActive (k : ApiKey) : Bool := k.revokedAt.isNone

/-- An `audit_log` row, but for the client's address. -/
structure AuditLog where
  actorType : PyStr
  actorId : Option Uuid := none
  actorLabel : Option PyStr := none
  tenantId : Option Uuid := none
  action : PyStr
  result : PyStr
  targetType : Option PyStr := none
  targetId : Option PyStr := none
  payload : Dict := []

/-! ## constraints -/

/-- The check `slug_format`: `^[a-z][a-z0-9-]{1,62}[a-z0-9]$`. -/
def isTenantSlug (s : PyStr) : Bool :=
  3 ≤ s.length && s.length ≤ 64 && (s.all fun c => isAlnum c || c == 0x2D) &&
    (s.head?.all fun c => 0x61 ≤ c && c ≤ 0x7A) && s.getLast?.all isAlnum

/-- The check `email_format`: `^[^@]+@[^@]+\.[^@]+$`. -/
def isEmail (s : PyStr) : Bool :=
  match splitOn 0x40 s with
  | [user, host] =>
      !user.isEmpty && ((host.drop 1).dropLast).contains 0x2E
  | _ => false

/-- `tenants`: primary key `id`, unique `slug`. -/
def tenants : Schema Tenant where
  clash s t := s.id == t.id || s.slug == t.slug
  check t := isTenantSlug t.slug && (1 ≤ t.displayName.length && t.displayName.length ≤ 120) &&
    storable t.displayName
  clash_symm s t := by rw [Bool.beq_comm (a := s.id), Bool.beq_comm (a := s.slug)]

/-- `operators`: primary key `id`, unique `email`. -/
def operators : Schema Operator where
  clash o u := o.id == u.id || o.email == u.email
  check o := isEmail o.email && storable o.email && o.fullName.all storable &&
    o.roles.all storable
  clash_symm o u := by rw [Bool.beq_comm (a := o.id), Bool.beq_comm (a := o.email)]

/-- `api_keys`: primary key `id`, unique `prefix`; the limit is an `Integer`. -/
def apiKeys : Schema ApiKey where
  clash k l := k.id == l.id || k.keyPrefix == l.keyPrefix
  check k := prefixFormat k.keyPrefix && (0 < k.rateLimitPerMinute && k.rateLimitPerMinute < 2 ^ 31) &&
    k.label.all storable && k.revokedReason.all storable
  clash_symm k l := by rw [Bool.beq_comm (a := k.id), Bool.beq_comm (a := k.keyPrefix)]

/-! ## the directory -/

/-- The committed state. -/
structure Directory where
  /-- Milliseconds since the epoch. -/
  now : Nat
  tenants : Table tenants
  operators : Table operators
  keys : Table apiKeys
  audit : List AuditLog
  /-- `neurovoice:rl:key:<id>`. -/
  keyBucket : Uuid → Bucket
  /-- `neurovoice:rl:tenant:<id>`. -/
  tenantBucket : Uuid → Bucket

/-- A statement that writes. -/
inductive DirectoryWrite where
  | insertTenant (t : Tenant)
  | setTenantStatus (id : Uuid) (status : TenantStatus)
  | insertOperator (o : Operator)
  | setLastLogin (id : Uuid) (at' : Nat)
  | insertKey (k : ApiKey)
  | setRevoked (id : Uuid) (at' : Nat) (reason : Option PyStr)
  | setLastUsed (id : Uuid) (at' : Nat)
  | insertAudit (a : AuditLog)

namespace Directory

/-- Perform a statement; `none` when it violates a constraint, or updates a
row that is gone. -/
def write (w : Directory) : DirectoryWrite → Option Directory
  | .insertTenant t => (w.tenants.insert t).map fun tenants => { w with tenants }
  | .setTenantStatus id status =>
      if w.tenants.rows.any fun t => t.id = id then
        (w.tenants.modify (fun t => t.id = id) fun t => { t with status }).map fun tenants =>
          { w with tenants }
      else none
  | .insertOperator o => (w.operators.insert o).map fun operators => { w with operators }
  | .setLastLogin id at' =>
      if w.operators.rows.any fun o => o.id = id then
        (w.operators.modify (fun o => o.id = id) fun o =>
          { o with lastLoginAt := some at' }).map fun operators => { w with operators }
      else none
  | .insertKey k =>
      if (w.tenants.rows.any fun t => t.id = k.tenantId) &&
          k.createdByOperatorId.all fun id => w.operators.rows.any fun o => o.id = id then
        (w.keys.insert k).map fun keys => { w with keys }
      else none
  | .setRevoked id at' reason =>
      if w.keys.rows.any fun k => k.id = id then
        (w.keys.modify (fun k => k.id = id) fun k =>
          { k with revokedAt := some at', revokedReason := reason }).map fun keys => { w with keys }
      else none
  | .setLastUsed id at' =>
      if w.keys.rows.any fun k => k.id = id then
        (w.keys.modify (fun k => k.id = id) fun k =>
          { k with lastUsedAt := some at' }).map fun keys => { w with keys }
      else none
  | .insertAudit a => some { w with audit := w.audit ++ [a] }

/-- Perform statements in their order. -/
def writeAll (w : Directory) : List DirectoryWrite → Option Directory
  | [] => some w
  | s :: ss => (w.write s).bind fun w => w.writeAll ss

/-- Time passing. -/
def tick (d : Nat) (w : Directory) : Directory := { w with now := w.now + d }

end Directory

/-! ## awaits -/

/-- What the authentication code asks of its surroundings. -/
inductive AuthEff where
  | clock
  | uuid4
  /-- `secrets.choice`, as often as one key needs it. -/
  | choices
  /-- argon2's salt. -/
  | salt
  /-- `secrets.token_urlsafe(18)`. -/
  | tokenUrlsafe
  | selectTenant (id : Uuid)
  | selectTenantBySlug (slug : PyStr)
  | selectOperator (id : Uuid)
  | selectOperatorByEmail (email : PyStr)
  | selectKey (id : Uuid)
  /-- The key with the prefix that is not revoked. -/
  | selectActiveKey (keyPrefix : PyStr)
  /-- A statement is sent whose effect shows at the commit. -/
  | flush (s : DirectoryWrite)
  | commit (ss : List DirectoryWrite)
  | rollback
  | checkKey (id : Uuid) (limit : Int) (now : Nat) (member : PyStr)
  | checkTenant (id : Uuid) (limit : Int) (now : Nat) (member : PyStr)

namespace AuthEff

/-- What an await returns. -/
def Ret : AuthEff → Type
  | .clock => Nat
  | .uuid4 => Uuid
  | .choices => Nat → Fin base62Alphabet.length
  | .salt | .tokenUrlsafe => PyStr
  | .selectTenant _ | .selectTenantBySlug _ => Option Tenant
  | .selectOperator _ | .selectOperatorByEmail _ => Option Operator
  | .selectKey _ | .selectActiveKey _ => Option ApiKey
  | .flush _ | .commit _ | .rollback => Unit
  | .checkKey _ _ _ _ | .checkTenant _ _ _ _ => RateLimitResult

/-- The await leaves the process, and can fail on its own. -/
def fallible : AuthEff → Bool
  | .clock | .uuid4 | .choices | .salt | .tokenUrlsafe | .rollback => false
  | _ => true

/-- It can have happened although its reply was lost. -/
def losable : AuthEff → Bool
  | .commit _ | .checkKey _ _ _ _ | .checkTenant _ _ _ _ => true
  | _ => false

end AuthEff

/-- An exception of the authentication code: an HTTP error, or one that
nothing handles and the client sees as a 500. -/
inductive AuthExn where
  | http (code : Nat) (detail : PyStr) (headers : List (PyStr × PyStr))
  | foreign (x : Foreign)

/-- An await returns, or raises. -/
abbrev AuthAns (e : AuthEff) : Type := Except AuthExn e.Ret

/-- A coroutine of the authentication code. -/
abbrev AuthPy (α : Type) : Type := ExceptT AuthExn (Prog AuthEff AuthAns) α

/-- `await e`. -/
def ask (e : AuthEff) : AuthPy e.Ret := callE e

/-! ## what awaits do -/

/-- Answers that the directory does not determine. -/
structure AuthHint where
  uuid : Uuid := 0
  choices : Nat → Fin base62Alphabet.length := fun _ => ⟨0, by decide⟩
  text : PyStr := []
  /-- Redis has removed a bucket whose deadline has passed. -/
  gone : Bool := false

/-- How an await goes. -/
inductive AuthOracle where
  | goes (h : AuthHint)
  | raises (x : Foreign)
  | lost (x : Foreign) (h : AuthHint)

namespace Directory

/-- An await's answer and its effect, when it is answered. -/
def perform (e : AuthEff) (h : AuthHint) (w : Directory) : Except Foreign e.Ret × Directory :=
  match e with
  | .clock => (.ok w.now, w)
  | .uuid4 => (.ok h.uuid, w)
  | .choices => (.ok h.choices, w)
  | .salt | .tokenUrlsafe => (.ok h.text, w)
  | .selectTenant id => (.ok (w.tenants.find? fun t => t.id = id), w)
  | .selectTenantBySlug slug => (.ok (w.tenants.find? fun t => t.slug = slug), w)
  | .selectOperator id => (.ok (w.operators.find? fun o => o.id = id), w)
  | .selectOperatorByEmail email => (.ok (w.operators.find? fun o => o.email = email), w)
  | .selectKey id => (.ok (w.keys.find? fun k => k.id = id), w)
  | .selectActiveKey keyPrefix =>
      (.ok (w.keys.find? fun k => k.keyPrefix = keyPrefix && k.isActive), w)
  | .flush _ | .rollback => (.ok (), w)
  | .commit ss =>
      match w.writeAll ss with
      | some w' => (.ok (), w')
      | none => (.error .integrityError, w)
  | .checkKey id limit now member =>
      match RateLimiter.check limit 60000 now member ((w.keyBucket id).lapse w.now h.gone) with
      | .ok (r, b) => (.ok r, { w with keyBucket := Function.update w.keyBucket id b })
      | .error x => (.error x, w)
  | .checkTenant id limit now member =>
      match RateLimiter.check limit 60000 now member ((w.tenantBucket id).lapse w.now h.gone) with
      | .ok (r, b) => (.ok r, { w with tenantBucket := Function.update w.tenantBucket id b })
      | .error x => (.error x, w)

/-- Perform an await. -/
def exec (e : AuthEff) (o : AuthOracle) (w : Directory) : Option (AuthAns e × Directory) :=
  match o with
  | .goes h =>
      match w.perform e h with
      | (.ok a, w') => some (.ok a, w')
      | (.error x, w') => some (.error (.foreign x), w')
  | .raises x => if e.fallible then some (.error (.foreign x), w) else none
  | .lost x h => if e.losable then some (.error (.foreign x), (w.perform e h).2) else none

end Directory

end NeuroVoice
