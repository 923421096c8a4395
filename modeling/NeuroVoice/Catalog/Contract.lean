import NeuroVoice.Catalog.Enroll

/-!
# NeuroVoice.Catalog.Contract

Enrolling under a talent contract while the contract is revoked.

An enroll looks the contract up, inserts the voice and commits; a revocation
updates the contract, selects the committed voices that name it, freezes them
and commits.  The steps below are the statements of the two, in any
interleaving.  A voice stays active under a revoked contract when its
`license_ref` is spelled in a way the selection does not compare equal, or
when it is committed after the selection: `contract_law`.
-/

namespace NeuroVoice

open VoiceRepo

/-! ## admin_revoke_talent_contract -/

/-- The voices the cascade selects. -/
def dependents (c : Catalog) (contract : Uuid) : List Uuid :=
  (c.voices.rows.filter fun v =>
    v.licenseKind == py "talent-contract" && v.licenseRef == some (uuidStr contract) &&
      v.purgedAt.isNone).map Voice.id

/-- Freeze each of them. -/
def freezeAll (now : Nat) (reason : PyStr) : List Uuid → Tx Unit
  | [] => return ()
  | id :: ids => do
      let _ ← freeze id now (py "talent contract revoked: " ++ reason) none
      freezeAll now reason ids

/-- What the revocation writes. -/
def revokeAndFreeze (contract : Uuid) (revokedAt now : Nat) (reason : PyStr)
    (ids : List Uuid) : Tx Unit := do
  .statement fun c =>
    (c.contracts.modify (fun k => k.id == contract) fun k =>
      { k with revokedAt := some revokedAt }).map fun contracts => { c with contracts }
  freezeAll now reason ids

/-! ## requests -/

/-- Where a request stands between two of its statements. -/
inductive Request where
  /-- The upload is written, nothing is looked up yet. -/
  | enrolling (a : EnrollAttempt) (wav : Bytes) (seconds : Rat)
  | formAdmitted (a : EnrollAttempt) (wav : Bytes) (seconds : Rat) (contract : Option Uuid)
  | admitted (a : EnrollAttempt) (wav : Bytes) (seconds : Rat)
  | inserted (a : EnrollAttempt) (wav : Bytes) (seconds : Rat)
  | revoking (contract : Uuid) (reason : PyStr)
  | found (contract : Uuid) (reason : PyStr)
  /-- The contract's row is updated and locked. -/
  | revoked (contract : Uuid) (reason : PyStr) (revokedAt : Nat)
  | cascading (contract : Uuid) (reason : PyStr) (revokedAt : Nat) (ids : List Uuid)

namespace Request

/-- An enroll in flight. -/
def isEnroll : Request → Bool
  | .enrolling .. | .formAdmitted .. | .admitted .. | .inserted .. => true
  | _ => false

/-- It holds the lock on the contract's row. -/
def locks (contract : Uuid) : Request → Bool
  | .revoked k _ _ | .cascading k _ _ _ => k == contract
  | _ => false

/-- It has selected the voices of the contract. -/
def hasSelected (contract : Uuid) : Request → Bool
  | .cascading k _ _ _ => k == contract
  | _ => false

end Request

/-- What others do to voices meanwhile; nobody unfreezes one. -/
inductive VoiceOp where
  | softDelete (tenant : Uuid) (slug : PyStr)
  | setVisibility (tenant : Uuid) (slug visibility : PyStr)
  | updateMetadata (tenant : Uuid) (slug : PyStr) (p : MetadataPatch)
  | freeze (id : Uuid) (reason : PyStr) (purgeAfterDays : Option Nat)
  | schedulePurge (id : Uuid) (afterDays : Nat)
  | executePurge (id : Uuid)

/-- The operation, at its time. -/
def VoiceOp.run (now : Nat) : VoiceOp → Tx (Option Voice)
  | .softDelete tenant slug => VoiceRepo.softDelete tenant slug now
  | .setVisibility tenant slug visibility => VoiceRepo.setVisibility tenant slug visibility
  | .updateMetadata tenant slug p => VoiceRepo.updateMetadata tenant slug p
  | .freeze id reason purgeAfterDays => VoiceRepo.freeze id now reason purgeAfterDays
  | .schedulePurge id afterDays => VoiceRepo.schedulePurge id now afterDays
  | .executePurge id => VoiceRepo.executePurge id now

/-- The committed catalog and the requests in flight. -/
structure Office where
  catalog : Catalog
  now : Nat := 0
  requests : List (Nat × Request) := []

namespace Office

/-- Where request `p` stands. -/
def lookup (s : Office) (p : Nat) : Option Request :=
  (s.requests.find? fun r => r.1 == p).map Prod.snd

/-- Request `p` is over. -/
def drop (s : Office) (p : Nat) : Office :=
  { s with requests := s.requests.filter fun r => r.1 != p }

/-- Request `p` is at `r` now. -/
def set (s : Office) (p : Nat) (r : Request) : Office :=
  { s with requests := (p, r) :: (s.drop p).requests }

/-- Publish what request `p` wrote. -/
def publish (s : Office) (p : Nat) (c : Catalog) : Office := { s.drop p with catalog := c }

end Office

/-- A step of the office. -/
inductive OfficeEvent where
  | enroll (p : Nat) (a : EnrollAttempt) (wav : Bytes) (seconds : Rat)
  | revoke (p : Nat) (contract : Uuid) (reason : PyStr)
  /-- The request's next statement. -/
  | advance (p : Nat)
  /-- The request is cancelled, or its process dies. -/
  | stop (p : Nat)
  | other (op : VoiceOp)
  | tick (ms : Nat)

section perform

variable (cfg : EnrollSettings)

/-- The next statement of a request; `none` while it waits for a lock. -/
def Request.advance (s : Office) (p : Nat) : Request → Option Office
  | .enrolling a wav seconds =>
      match admitForm cfg a seconds (getOwned s.catalog a.tenantId a.form.voiceId) with
      | .ok contract => some (s.set p (.formAdmitted a wav seconds contract))
      | .error _ => some (s.drop p)
  | .formAdmitted a wav seconds contract =>
      match admitContract s.catalog s.now contract with
      | .ok _ => some (s.set p (.admitted a wav seconds))
      | .error _ => some (s.drop p)
  | .admitted a wav seconds =>
      match persist cfg a wav seconds s.catalog with
      | .ok _ => some (s.set p (.inserted a wav seconds))
      | .error _ => some (s.drop p)
  | .inserted a wav seconds =>
      match persist cfg a wav seconds s.catalog with
      | .ok (_, c) => some (s.publish p c)
      | .error _ => some (s.drop p)
  | .revoking contract reason =>
      match s.catalog.contracts.find? fun k => k.id == contract with
      | some k =>
          if k.revokedAt.isSome then some (s.drop p) else some (s.set p (.found contract reason))
      | none => some (s.drop p)
  | .found contract reason =>
      if s.requests.any fun r => r.2.locks contract then none
      else some (s.set p (.revoked contract reason s.now))
  | .revoked contract reason revokedAt =>
      some (s.set p (.cascading contract reason revokedAt (dependents s.catalog contract)))
  | .cascading contract reason revokedAt ids =>
      match revokeAndFreeze contract revokedAt s.now reason ids s.catalog with
      | .ok (_, c) => some (s.publish p c)
      | .error _ => some (s.drop p)

/-- Perform an event, if it can happen. -/
def OfficeEvent.perform (s : Office) : OfficeEvent → Option Office
  | .enroll p a wav seconds =>
      if (s.lookup p).isNone then some (s.set p (.enrolling a wav seconds)) else none
  | .revoke p contract reason =>
      if (s.lookup p).isNone then some (s.set p (.revoking contract reason)) else none
  | .advance p => (s.lookup p).bind (Request.advance cfg s p)
  | .stop p => some (s.drop p)
  | .other op => some { s with catalog := (op.run s.now).after s.catalog }
  | .tick ms => some { s with now := s.now + ms }

/-- The state after a run, if it is one. -/
def officeRun (s : Office) : List OfficeEvent → Option Office
  | [] => some s
  | e :: es => (e.perform cfg s).bind fun s => officeRun s es

end perform

/-! ## the law -/

/-- The voice was enrolled under the contract, in whatever spelling. -/
def UnderContract (contract : Uuid) (v : Voice) : Prop :=
  v.licenseKind = py "talent-contract" ∧ v.licenseRef.bind parseUuid = some contract

/-- The contract's revocation is committed. -/
def Revoked (c : Catalog) (contract : Uuid) : Prop :=
  ∃ k ∈ c.contracts, k.id = contract ∧ k.revokedAt.isSome

/-- Once no enroll is in flight, no unpurged voice is active under a revoked
contract. -/
def ContractLaw (s : Office) : Prop :=
  (∀ r ∈ s.requests, r.2.isEnroll = false) →
    ∀ contract, Revoked s.catalog contract → ∀ v ∈ s.catalog.voices,
      UnderContract contract v → v.purgedAt = none → lifecycleState v ≠ "active"

/-- The contract an enroll names. -/
def EnrollForm.contract (f : EnrollForm) : Option Uuid :=
  if f.licenseKind = py "talent-contract" then f.licenseRef.bind parseUuid else none

/-- A contract is checked under its canonical spelling, and an enroll commits
while its contract is not revoked and no revocation of it has made its
selection. -/
def OfficeEvent.careful (s : Office) : OfficeEvent → Bool
  | .advance p =>
      match s.lookup p with
      | some (.formAdmitted a _ _ _) =>
          match a.form.contract with
          | some contract => a.form.licenseRef == some (uuidStr contract)
          | none => true
      | some (.inserted a _ _) =>
          match a.form.contract with
          | some contract =>
              (s.catalog.contracts.rows.all fun k => k.id != contract || k.revokedAt.isNone) &&
                s.requests.all fun r => !r.2.hasSelected contract
          | none => true
      | _ => true
  | _ => true

/-- Every event of the run is careful where it happens. -/
def allCarefulOffice (cfg : EnrollSettings) : Office → List OfficeEvent → Bool
  | _, [] => true
  | s, e :: es => e.careful s && ((e.perform cfg s).all fun s => allCarefulOffice cfg s es)

/-! ## what writes to voices keep -/

theorem lifecycleState_active {v : Voice} :
    lifecycleState v = "active" ↔
      v.purgedAt = none ∧ v.deletedAt = none ∧ v.purgeAfterAt = none ∧ v.frozenAt = none := by
  unfold lifecycleState
  cases v.purgedAt <;> cases v.deletedAt <;> cases v.purgeAfterAt <;> cases v.frozenAt <;> simp

/-- The voice is not active, unless it is a tombstone. -/
def FrozenUnlessPurged (v : Voice) : Prop := v.purgedAt = none → lifecycleState v ≠ "active"

/-- A write that keeps id and contract, revives no tombstone and activates
no voice. -/
structure KeepsSettled (f : Voice → Voice) : Prop where
  id : ∀ v, (f v).id = v.id
  kind : ∀ v, (f v).licenseKind = v.licenseKind
  ref : ∀ v, (f v).licenseRef = v.licenseRef
  settled : ∀ v, FrozenUnlessPurged v → FrozenUnlessPurged (f v)

/-- Every voice comes from one before, no less settled. -/
structure Evolves (c c' : Catalog) : Prop where
  contracts : c'.contracts = c.contracts
  voice : ∀ x ∈ c'.voices, ∃ w ∈ c.voices, x.id = w.id ∧ x.licenseKind = w.licenseKind ∧
    x.licenseRef = w.licenseRef ∧ (FrozenUnlessPurged w → FrozenUnlessPurged x)

theorem Evolves.refl (c : Catalog) : Evolves c c :=
  ⟨rfl, fun x hx => ⟨x, hx, rfl, rfl, rfl, fun h => h⟩⟩

theorem Evolves.trans {c₁ c₂ c₃ : Catalog} (h : Evolves c₁ c₂) (h' : Evolves c₂ c₃) :
    Evolves c₁ c₃ := by
  refine ⟨h'.contracts.trans h.contracts, fun x hx => ?_⟩
  obtain ⟨y, hy, hid, hkind, href, hsettled⟩ := h'.voice x hx
  obtain ⟨z, hz, hid', hkind', href', hsettled'⟩ := h.voice y hy
  exact ⟨z, hz, hid.trans hid', hkind.trans hkind', href.trans href', fun h => hsettled (hsettled' h)⟩

section evolves

variable {c c' : Catalog} {f : Voice → Voice} {r : Option Voice} {id : Uuid}

/-- The step lemma of all writes to one voice. -/
theorem KeepsSettled.evolves (hf : KeepsSettled f) (h : VoiceWrite f c c') : Evolves c c' := by
  obtain rfl | ⟨p, t, hm, rfl⟩ := h
  · exact .refl c'
  · refine ⟨rfl, fun x hx => ?_⟩
    obtain ⟨w, hw, rfl⟩ := (Table.mem_modify hm).1 hx
    refine ⟨w, hw, ?_⟩
    split
    · exact ⟨hf.id w, hf.kind w, hf.ref w, hf.settled w⟩
    · exact ⟨rfl, rfl, rfl, fun h => h⟩

/-- A write that leaves the lifecycle alone. -/
theorem keepsSettled_of_same (hf : ∀ v, (f v).id = v.id ∧ (f v).licenseKind = v.licenseKind ∧
    (f v).licenseRef = v.licenseRef ∧ (f v).purgedAt = v.purgedAt ∧
    lifecycleState (f v) = lifecycleState v) : KeepsSettled f := by
  refine ⟨fun v => (hf v).1, fun v => (hf v).2.1, fun v => (hf v).2.2.1, fun v hv hp => ?_⟩
  obtain ⟨-, -, -, hpurged, hstate⟩ := hf v
  rw [hstate]
  exact hv (hpurged ▸ hp)

/-- A write after which the voice is not active. -/
theorem keepsSettled_of_settles (hf : ∀ v, (f v).id = v.id ∧ (f v).licenseKind = v.licenseKind ∧
    (f v).licenseRef = v.licenseRef ∧ FrozenUnlessPurged (f v)) : KeepsSettled f :=
  ⟨fun v => (hf v).1, fun v => (hf v).2.1, fun v => (hf v).2.2.1, fun v _ => (hf v).2.2.2⟩

/-- A frozen voice is settled. -/
theorem settled_of_frozen {v : Voice} (h : v.frozenAt.isSome) : FrozenUnlessPurged v := by
  intro _ hact
  rw [(lifecycleState_active.1 hact).2.2.2] at h
  cases h

theorem keepsSettled_frozen (now : Nat) (reason : PyStr) (n : Option Nat) :
    KeepsSettled (frozen now reason n) :=
  keepsSettled_of_settles fun v => ⟨rfl, rfl, rfl, settled_of_frozen (by simp [frozen])⟩

theorem keepsSettled_purgeScheduled (now n : Nat) : KeepsSettled (purgeScheduled now n) :=
  keepsSettled_of_settles fun v => ⟨rfl, rfl, rfl, settled_of_frozen (by simp [purgeScheduled])⟩

theorem keepsSettled_tombstone (now : Nat) : KeepsSettled (tombstone now) :=
  keepsSettled_of_settles fun v => ⟨rfl, rfl, rfl, fun hp => by simp [tombstone] at hp⟩

theorem keepsSettled_deleted (now : Nat) :
    KeepsSettled fun v : Voice => { v with deletedAt := some now } := by
  refine keepsSettled_of_settles fun v => ⟨rfl, rfl, rfl, fun _ hact => ?_⟩
  have := (lifecycleState_active.1 hact).2.1
  simp at this

theorem keepsSettled_patch (p : MetadataPatch) : KeepsSettled p.apply :=
  keepsSettled_of_same fun _ => ⟨rfl, rfl, rfl, rfl, rfl⟩

theorem keepsSettled_visibility (visibility : Visibility) :
    KeepsSettled fun v : Voice => { v with visibility } :=
  keepsSettled_of_same fun _ => ⟨rfl, rfl, rfl, rfl, rfl⟩

theorem keepsSettled_patchVisibility (p : MetadataPatch) (visibility : Visibility) :
    KeepsSettled fun v => { p.apply v with visibility } :=
  keepsSettled_of_same fun _ => ⟨rfl, rfl, rfl, rfl, rfl⟩

/-- The operations of others write to one voice at most. -/
theorem VoiceOp.writes {now : Nat} {op : VoiceOp} (h : op.run now c = .ok (r, c')) :
    ∃ f, KeepsSettled f ∧ VoiceWrite f c c' := by
  cases op with
  | softDelete tenant slug => exact ⟨_, keepsSettled_deleted now, writeOwned_write h⟩
  | setVisibility tenant slug s =>
      obtain ⟨visibility, -, h⟩ := setVisibility_ok h
      exact ⟨_, keepsSettled_visibility visibility, writeOwned_write h⟩
  | updateMetadata tenant slug p =>
      obtain ⟨-, h⟩ | ⟨s, visibility, -, -, h⟩ | rfl := updateMetadata_ok h
      · exact ⟨_, keepsSettled_patch p, writeOwned_write h⟩
      · exact ⟨_, keepsSettled_patchVisibility p visibility, writeOwned_write h⟩
      · exact ⟨_, keepsSettled_patch p, .inl rfl⟩
  | freeze id reason n => exact ⟨_, keepsSettled_frozen now reason n, writeUnpurged_write h⟩
  | schedulePurge id afterDays =>
      exact ⟨_, keepsSettled_purgeScheduled now afterDays, writeUnpurged_write h⟩
  | executePurge id => exact ⟨_, keepsSettled_tombstone now, writeUnpurged_write h⟩

/-- The step lemma of the operations of others. -/
theorem VoiceOp.evolves {now : Nat} {op : VoiceOp} (h : op.run now c = .ok (r, c')) :
    Evolves c c' := by
  obtain ⟨f, hf, hw⟩ := VoiceOp.writes h
  exact hf.evolves hw

/-- The catalog after an operation of others. -/
theorem VoiceOp.evolves_after (now : Nat) (op : VoiceOp) (c : Catalog) :
    Evolves c ((op.run now).after c) := by
  obtain h | ⟨r, h⟩ := Tx.after_cases (op.run now) c
  · rw [h]
    exact .refl c
  · exact VoiceOp.evolves h

/-- `freeze` settles its voice. -/
theorem freeze_settles {now : Nat} {reason : PyStr} {n : Option Nat}
    (h : freeze id now reason n c = .ok (r, c')) :
    Evolves c c' ∧ ∀ x ∈ c'.voices, x.id = id → FrozenUnlessPurged x := by
  refine ⟨(keepsSettled_frozen now reason n).evolves (writeUnpurged_write h), fun x hx hid => ?_⟩
  obtain ⟨hnone, -, rfl⟩ | ⟨v, hv, ⟨hpurged, -, rfl⟩ | ⟨-, -, t, hm, rfl⟩⟩ := writeUnpurged_ok h
  · have := Table.find?_eq_none.1 hnone x hx
    simp [hid] at this
  · obtain ⟨hvm, hp⟩ := Table.find?_eq_some hv
    obtain rfl : x = v :=
      Table.eq_of_clash hx hvm (by simp [voices, hid, eq_of_beq hp])
    intro hnone
    rw [hnone] at hpurged
    cases hpurged
  · obtain ⟨hvm, hp⟩ := Table.find?_eq_some hv
    obtain rfl | ⟨-, hne⟩ := (mem_written hvm hm).1 hx
    · exact settled_of_frozen (by simp [frozen])
    · exact absurd (hid.trans (eq_of_beq hp).symm) hne

/-- The cascade settles every voice it selected. -/
theorem freezeAll_settles {now : Nat} {reason : PyStr} (ids : List Uuid) {u : Unit}
    (h : freezeAll now reason ids c = .ok (u, c')) :
    Evolves c c' ∧ ∀ x ∈ c'.voices, x.id ∈ ids → FrozenUnlessPurged x := by
  induction ids generalizing c with
  | nil =>
      obtain ⟨-, rfl⟩ := Tx.pure_ok.1 h
      exact ⟨.refl c, fun x _ hx => by cases hx⟩
  | cons id ids ih =>
      obtain ⟨v, c₁, hfreeze, hrest⟩ := Tx.bind_ok.1 h
      obtain ⟨hev₁, hfirst⟩ := freeze_settles hfreeze
      obtain ⟨hev₂, hothers⟩ := ih hrest
      refine ⟨hev₁.trans hev₂, fun x hx hid => ?_⟩
      obtain hid | hid := List.mem_cons.1 hid
      · obtain ⟨w, hw, hwid, -, -, hsettled⟩ := hev₂.voice x hx
        exact hsettled (hfirst w hw (hwid.symm.trans hid))
      · exact hothers x hx hid

/-- What the commit of an enroll adds is bound as its form says. -/
theorem persist_ok {cfg : EnrollSettings} {a : EnrollAttempt} {wav : Bytes} {seconds : Rat}
    {v : Voice} (h : persist cfg a wav seconds c = .ok (v, c')) :
    c'.contracts = c.contracts ∧ v.licenseKind = a.form.licenseKind ∧
      v.licenseRef = a.form.licenseRef ∧ ∀ x, x ∈ c'.voices ↔ x ∈ c.voices ∨ x = v := by
  unfold persist at h
  obtain ⟨v', c₁, hcreate, h⟩ := Tx.bind_ok.1 h
  obtain ⟨consent, c₂, hrecord, h⟩ := Tx.bind_ok.1 h
  obtain ⟨rfl, rfl⟩ := Tx.pure_ok.1 h
  obtain ⟨visibility, t, -, rfl, ht, rfl⟩ := create_ok hcreate
  obtain ⟨hvoices, hcontracts⟩ := VoiceConsentRecordRepo.record_ok hrecord
  refine ⟨hcontracts, rfl, rfl, fun x => ?_⟩
  rw [hvoices]
  exact Table.mem_insert ht

end evolves

/-! ## the invariant -/

theorem underContract_iff {k : Uuid} {v : Voice} {f : EnrollForm}
    (hkind : v.licenseKind = f.licenseKind) (href : v.licenseRef = f.licenseRef) :
    UnderContract k v ↔ f.contract = some k := by
  unfold UnderContract EnrollForm.contract
  rw [hkind, href]
  split
  · next h => simp [h]
  · next h => simp [h]

/-- What holds of a request in flight: a checked contract is in its canonical
spelling, and a cascade has selected every voice it has to settle. -/
def Request.Sound (c : Catalog) : Request → Prop
  | .admitted a _ _ | .inserted a _ _ =>
      ∀ k, a.form.contract = some k → a.form.licenseRef = some (uuidStr k)
  | .cascading k _ _ ids => ∀ v ∈ c.voices, UnderContract k v → v.id ∈ ids ∨ FrozenUnlessPurged v
  | _ => True

/-- The invariant of careful runs. -/
structure Office.Sound (s : Office) : Prop where
  canonical : ∀ v ∈ s.catalog.voices, ∀ k, UnderContract k v → v.licenseRef = some (uuidStr k)
  settled : ∀ k, Revoked s.catalog k → ∀ v ∈ s.catalog.voices, UnderContract k v → FrozenUnlessPurged v
  requests : ∀ r ∈ s.requests, r.2.Sound s.catalog

theorem Evolves.revoked_iff {c c' : Catalog} (h : Evolves c c') (k : Uuid) :
    Revoked c' k ↔ Revoked c k := by
  unfold Revoked
  rw [h.contracts]

/-- A voice is under the same contracts as the one it comes from. -/
theorem underContract_congr {v w : Voice} (hkind : v.licenseKind = w.licenseKind)
    (href : v.licenseRef = w.licenseRef) (k : Uuid) : UnderContract k v ↔ UnderContract k w := by
  unfold UnderContract
  rw [hkind, href]

namespace Office

variable {s : Office} {p : Nat}

theorem mem_of_lookup {r : Request} (h : s.lookup p = some r) : (p, r) ∈ s.requests := by
  unfold lookup at h
  obtain ⟨q, hq, rfl⟩ := Option.map_eq_some_iff.1 h
  have := List.find?_some hq
  rw [← eq_of_beq this]
  exact List.mem_of_find?_eq_some hq

theorem mem_drop {r : Nat × Request} (h : r ∈ (s.drop p).requests) : r ∈ s.requests :=
  (List.mem_filter.1 h).1

namespace Sound

/-- A request that ends leaves the rest sound. -/
theorem drop (h : s.Sound) : (s.drop p).Sound :=
  ⟨h.canonical, h.settled, fun r hr => h.requests r (mem_drop hr)⟩

/-- A request that moves on to a sound place. -/
theorem set (h : s.Sound) {r : Request} (hr : r.Sound s.catalog) : (s.set p r).Sound := by
  refine ⟨h.canonical, h.settled, fun q hq => ?_⟩
  obtain rfl | hq := List.mem_cons.1 hq
  · exact hr
  · exact h.requests q (mem_drop hq)

/-- Voices that evolve keep the catalog's part. -/
theorem evolve {c : Catalog} (h : s.Sound) (hev : Evolves s.catalog c) :
    ({ s with catalog := c } : Office).Sound := by
  constructor
  · intro v hv k hk
    obtain ⟨w, hw, -, hkind, href, -⟩ := hev.voice v hv
    rw [href]
    exact h.canonical w hw k ((underContract_congr hkind href k).1 hk)
  · intro k hrev v hv hk
    obtain ⟨w, hw, -, hkind, href, hsettled⟩ := hev.voice v hv
    have hrev := (hev.revoked_iff k).1 hrev
    exact hsettled (h.settled k hrev w hw ((underContract_congr hkind href k).1 hk))
  · intro r hr
    have hsound := h.requests r hr
    cases hreq : r.2 with
    | cascading k reason t ids =>
        rw [hreq] at hsound
        intro v hv hk
        obtain ⟨w, hw, hid, hkind, href, hsettled⟩ := hev.voice v hv
        obtain hmem | hset := hsound w hw ((underContract_congr hkind href k).1 hk)
        · exact .inl (hid ▸ hmem)
        · exact .inr (hsettled hset)
    | _ => rw [hreq] at hsound; exact hsound

/-- The commit of an enroll whose contract is neither revoked nor being
cascaded. -/
theorem commitEnroll {cfg : EnrollSettings} {a : EnrollAttempt} {wav : Bytes} {seconds : Rat}
    {v : Voice} {c : Catalog} (h : s.Sound) (hlookup : s.lookup p = some (.inserted a wav seconds))
    (hcare : (OfficeEvent.advance p).careful s = true)
    (hpersist : persist cfg a wav seconds s.catalog = .ok (v, c)) : (s.publish p c).Sound := by
  obtain ⟨hcontracts, hkind, href, hmem⟩ := persist_ok hpersist
  have hunder := fun k => underContract_iff (k := k) hkind href
  have hcanonical := h.requests _ (mem_of_lookup hlookup)
  simp only [OfficeEvent.careful, hlookup] at hcare
  constructor
  · intro x hx k hk
    obtain hx | rfl := (hmem x).1 hx
    · exact h.canonical x hx k hk
    · rw [href]
      exact hcanonical k ((hunder k).1 hk)
  · intro k hrev x hx hk
    have hrev : Revoked s.catalog k := by unfold Revoked at hrev ⊢; rwa [← hcontracts]
    obtain hx | rfl := (hmem x).1 hx
    · exact h.settled k hrev x hx hk
    · -- the contract is not revoked when the enroll commits
      obtain ⟨r, hr, hid, hrevoked⟩ := hrev
      rw [(hunder k).1 hk] at hcare
      simp only [Bool.and_eq_true] at hcare
      have hopen := List.all_eq_true.1 hcare.1 r hr
      obtain ⟨t, ht⟩ := Option.isSome_iff_exists.1 hrevoked
      simp [hid, ht] at hopen
  · intro r hr
    have hr := mem_drop hr
    have hsound := h.requests r hr
    cases hreq : r.2 with
    | cascading k reason t ids =>
        rw [hreq] at hsound
        intro x hx hk
        obtain hx | rfl := (hmem x).1 hx
        · exact hsound x hx hk
        · -- no revocation of the contract has made its selection
          rw [(hunder k).1 hk] at hcare
          simp only [Bool.and_eq_true] at hcare
          have := List.all_eq_true.1 hcare.2 r hr
          simp [hreq, Request.hasSelected] at this
    | _ => rw [hreq] at hsound; exact hsound

/-- A revocation selects every voice it has to settle, as the voices under
the contract carry its canonical spelling. -/
theorem selects (h : s.Sound) (k : Uuid) :
    ∀ v ∈ s.catalog.voices, UnderContract k v →
      v.id ∈ dependents s.catalog k ∨ FrozenUnlessPurged v := by
  intro v hv hk
  cases hp : v.purgedAt with
  | some t => exact .inr fun hnone => by rw [hp] at hnone; cases hnone
  | none =>
      left
      unfold dependents
      refine List.mem_map.2 ⟨v, List.mem_filter.2 ⟨hv, ?_⟩, rfl⟩
      simp [hk.1, h.canonical v hv k hk, hp]

/-- The commit of a revocation. -/
theorem commitRevoke {k : Uuid} {reason : PyStr} {t : Nat} {ids : List Uuid} {u : Unit}
    {c : Catalog} (h : s.Sound) (hlookup : s.lookup p = some (.cascading k reason t ids))
    (hrevoke : revokeAndFreeze k t s.now reason ids s.catalog = .ok (u, c)) :
    (s.publish p c).Sound := by
  have hselected : ∀ v ∈ s.catalog.voices, UnderContract k v → v.id ∈ ids ∨ FrozenUnlessPurged v :=
    h.requests _ (mem_of_lookup hlookup)
  unfold revokeAndFreeze at hrevoke
  obtain ⟨_, c₁, hstatement, hfreeze⟩ := Tx.bind_ok.1 hrevoke
  obtain ⟨contracts, hmodify, rfl⟩ := Option.map_eq_some_iff.1 (Tx.statement_ok.1 hstatement)
  obtain ⟨hev, hfrozen⟩ := freezeAll_settles ids hfreeze
  -- a contract that the revocation does not name was revoked before
  have hothers : ∀ l, l ≠ k → Revoked c l → Revoked s.catalog l := by
    intro l hne hrev
    obtain ⟨r, hr, hid, hrevoked⟩ := (hev.revoked_iff l).1 hrev
    obtain ⟨r', hr', hrr'⟩ := (Table.mem_modify hmodify).1 hr
    split at hrr'
    · next hk =>
        subst hrr'
        exact absurd (hid.symm.trans (eq_of_beq hk)) hne
    · subst hrr'
      exact ⟨r', hr', hid, hrevoked⟩
  constructor
  · intro v hv l hl
    obtain ⟨w, hw, -, hkind, href, -⟩ := hev.voice v hv
    rw [href]
    exact h.canonical w hw l ((underContract_congr hkind href l).1 hl)
  · intro l hrev v hv hl
    obtain ⟨w, hw, hid, hkind, href, hsettled⟩ := hev.voice v hv
    have hwl := (underContract_congr hkind href l).1 hl
    by_cases hlk : l = k
    · subst hlk
      obtain hmem | hset := hselected w hw hwl
      · exact hfrozen v hv (hid ▸ hmem)
      · exact hsettled hset
    · exact hsettled (h.settled l (hothers l hlk hrev) w hw hwl)
  · intro r hr
    have hsound := h.requests r (mem_drop hr)
    cases hreq : r.2 with
    | cascading l reason' t' ids' =>
        rw [hreq] at hsound
        intro v hv hl
        obtain ⟨w, hw, hid, hkind, href, hsettled⟩ := hev.voice v hv
        obtain hmem | hset := hsound w hw ((underContract_congr hkind href l).1 hl)
        · exact .inl (hid ▸ hmem)
        · exact .inr (hsettled hset)
    | _ => rw [hreq] at hsound; exact hsound

/-- The step lemma of a request's next statement. -/
theorem advance {cfg : EnrollSettings} {r : Request} {s' : Office} (h : s.Sound)
    (hlookup : s.lookup p = some r) (hcare : (OfficeEvent.advance p).careful s = true)
    (hstep : r.advance cfg s p = some s') : s'.Sound := by
  cases r with
  | enrolling a wav seconds =>
      simp only [Request.advance] at hstep
      split at hstep
      · cases hstep; exact h.set trivial
      · cases hstep; exact h.drop
  | formAdmitted a wav seconds contract =>
      simp only [Request.advance] at hstep
      split at hstep
      · cases hstep
        refine h.set fun k hk => ?_
        simp only [OfficeEvent.careful, hlookup, hk] at hcare
        exact eq_of_beq hcare
      · cases hstep; exact h.drop
  | admitted a wav seconds =>
      simp only [Request.advance] at hstep
      split at hstep
      · cases hstep; exact h.set (h.requests _ (mem_of_lookup hlookup))
      · cases hstep; exact h.drop
  | inserted a wav seconds =>
      simp only [Request.advance] at hstep
      split at hstep
      · next hpersist =>
          cases hstep
          exact h.commitEnroll hlookup hcare hpersist
      · cases hstep; exact h.drop
  | revoking k reason =>
      simp only [Request.advance] at hstep
      split at hstep
      · split at hstep
        · cases hstep; exact h.drop
        · cases hstep; exact h.set trivial
      · cases hstep; exact h.drop
  | found k reason =>
      simp only [Request.advance] at hstep
      split at hstep
      · cases hstep
      · cases hstep; exact h.set trivial
  | revoked k reason t =>
      cases hstep
      exact h.set (h.selects k)
  | cascading k reason t ids =>
      simp only [Request.advance] at hstep
      split at hstep
      · next hrevoke =>
          cases hstep
          exact h.commitRevoke hlookup hrevoke
      · cases hstep; exact h.drop

/-- The step lemma. -/
theorem step {cfg : EnrollSettings} {e : OfficeEvent} {s' : Office} (h : s.Sound)
    (hcare : e.careful s = true) (hstep : e.perform cfg s = some s') : s'.Sound := by
  cases e with
  | enroll p a wav seconds =>
      simp only [OfficeEvent.perform] at hstep
      split at hstep
      · cases hstep; exact h.set trivial
      · cases hstep
  | revoke p k reason =>
      simp only [OfficeEvent.perform] at hstep
      split at hstep
      · cases hstep; exact h.set trivial
      · cases hstep
  | advance p =>
      obtain ⟨r, hlookup, hstep⟩ := Option.bind_eq_some_iff.1 hstep
      exact h.advance hlookup hcare hstep
  | stop p => cases hstep; exact h.drop
  | other op => cases hstep; exact h.evolve (op.evolves_after s.now s.catalog)
  | tick ms => cases hstep; exact ⟨h.canonical, h.settled, h.requests⟩

/-- The run lemma. -/
theorem run {cfg : EnrollSettings} {es : List OfficeEvent} {s' : Office} (h : s.Sound)
    (hcare : allCarefulOffice cfg s es = true) (hrun : officeRun cfg s es = some s') :
    s'.Sound := by
  induction es generalizing s with
  | nil => cases hrun; exact h
  | cons e es ih =>
      obtain ⟨s₁, hstep, hrun⟩ := Option.bind_eq_some_iff.1 hrun
      simp only [allCarefulOffice, Bool.and_eq_true, hstep, Option.all_some] at hcare
      exact ih (h.step hcare.1 hstep) hcare.2 hrun

/-- An office without voices and requests. -/
theorem of_empty (hvoices : s.catalog.voices.rows = []) (hrequests : s.requests = []) :
    s.Sound := by
  have hnone : ∀ v, v ∉ s.catalog.voices := by
    intro v hv
    rw [← Table.mem_rows, hvoices] at hv
    cases hv
  refine ⟨fun v hv => (hnone v hv).elim, fun _ _ v hv => (hnone v hv).elim, fun r hr => ?_⟩
  rw [hrequests] at hr
  cases hr

end Sound

end Office

/-- In every careful run no unpurged voice is active under a revoked contract
once no enroll is in flight. -/
theorem contract_law (cfg : EnrollSettings) (s₀ s : Office) (es : List OfficeEvent)
    (hvoices : s₀.catalog.voices.rows = []) (hrequests : s₀.requests = [])
    (hrun : officeRun cfg s₀ es = some s) (hcare : allCarefulOffice cfg s₀ es = true) :
    ContractLaw s := by
  have hsound := (Office.Sound.of_empty hvoices hrequests).run hcare hrun
  intro _ k hrev v hv hk hp
  exact hsound.settled k hrev v hv hk hp

/-! ## one contract -/

/-- A catalog with one contract and no voices. -/
def oneContract : Catalog :=
  { Catalog.blank (fun _ => true) (fun _ => true) fun _ => true with
    contracts := ⟨[{ id := 7, talentFullName := py "Ayse" }], List.pairwise_singleton _ _,
      by decide +kernel⟩ }

/-- An enroll under a contract, spelled as given. -/
def enrollUnder (ref : PyStr) : EnrollAttempt where
  tenantId := 1
  apiKeyId := 2
  form := { voiceId := py "ayse", displayName := py "Ayse", data := []
            licenseKind := py "talent-contract", licenseRef := some ref
            consentKind := py "tenant-asserted" }
  trimmed := .written [] 5
  now := 0
  voiceUuid := 3
  consentUuid := 4

/-- The enroll commits, then the contract is revoked. -/
def enrollThenRevoke (ref : PyStr) : List OfficeEvent :=
  [.enroll 0 (enrollUnder ref) [] 5, .advance 0, .advance 0, .advance 0, .advance 0,
    .revoke 1 7 (py "withdrawn"), .advance 1, .advance 1, .advance 1, .advance 1]

/-- A voice is enrolled under the canonical spelling of a contract, and frozen when
that is revoked. -/
theorem contract_law_example :
    ∃ s, officeRun {} { catalog := oneContract } (enrollThenRevoke (uuidStr 7)) = some s ∧
      ContractLaw s := by
  obtain ⟨s, hs⟩ := Option.isSome_iff_exists.1 (show (officeRun {} { catalog := oneContract }
    (enrollThenRevoke (uuidStr 7))).isSome by decide +kernel)
  exact ⟨s, hs, contract_law {} { catalog := oneContract } s _ rfl rfl hs (by decide +kernel)⟩

/-- No request is in flight, and a voice is active under the revoked
contract. -/
def activeUnderRevoked (k : Uuid) (s : Office) : Bool :=
  s.requests.isEmpty && (s.catalog.contracts.rows.any fun l => l.id == k && l.revokedAt.isSome) &&
    s.catalog.voices.rows.any fun v =>
      v.licenseKind == py "talent-contract" && v.licenseRef.bind parseUuid == some k &&
        v.purgedAt.isNone && v.deletedAt.isNone && v.purgeAfterAt.isNone && v.frozenAt.isNone

theorem not_contractLaw {k : Uuid} {s : Office} (h : activeUnderRevoked k s = true) :
    ¬ContractLaw s := by
  simp only [activeUnderRevoked, Bool.and_eq_true, List.isEmpty_iff, List.any_eq_true,
    beq_iff_eq, Option.isNone_iff_eq_none] at h
  obtain ⟨⟨hrequests, l, hl, hid, hrevoked⟩, v, hv, ⟨⟨⟨⟨hkind, href⟩, hp⟩, hd⟩, hpa⟩, hf⟩ := h
  intro hlaw
  refine hlaw (fun r hr => ?_) k ⟨l, hl, hid, hrevoked⟩ v hv ⟨hkind, href⟩ hp
    (lifecycleState_active.2 ⟨hp, hd, hpa, hf⟩)
  rw [hrequests] at hr
  cases hr

/-- The contract's id without hyphens passes the check of the enroll, and the
cascade does not select it. -/
theorem bareHex_survives :
    ∃ s, officeRun {} { catalog := oneContract } (enrollThenRevoke (hexDigits 32 7)) = some s ∧
      ¬ContractLaw s := by
  obtain ⟨s, hs, htest⟩ := (Option.any_eq_true _ _).1 (show (officeRun {} { catalog := oneContract }
    (enrollThenRevoke (hexDigits 32 7))).any (activeUnderRevoked 7) = true by decide +kernel)
  exact ⟨s, hs, not_contractLaw htest⟩

end NeuroVoice
