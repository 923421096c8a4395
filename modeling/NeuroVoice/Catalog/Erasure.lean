import NeuroVoice.Catalog.Lifecycle

/-!
# NeuroVoice.Catalog.Erasure

`POST /v1/data-deletion-requests`: which voices a request reaches.

Both ways of naming voices filter on `deleted_at`: the empty list goes through
`list_accessible`, a slug through `get_owned`.  So a voice that is soft-deleted
and not purged is out of reach: `deletion_reaches`.
-/

namespace NeuroVoice

open VoiceRepo

/-! ## the route -/

/-- `data_deletion_requests.status`. -/
inductive TicketStatus where
  | pending
  | inProgress
  | completed
  | rejected
  deriving DecidableEq

/-- A `data_deletion_requests` row. -/
structure DeletionTicket where
  tenantId : Uuid
  voiceSlugs : List PyStr
  jurisdiction : Option PyStr
  status : TicketStatus := .pending
  requestedAt : Nat
  requestedByActorId : Option Uuid
  reason : Option PyStr
  completedAt : Option Nat := none
  completionNotes : Option PyStr := none

/-- `jurisdiction = 'EU' OR jurisdiction ~ '^[A-Z]{2}$'`. -/
def isJurisdiction (s : PyStr) : Bool :=
  s == py "EU" || s.length == 2 && s.all fun c => 0x41 ≤ c && c ≤ 0x5A

/-- The checks of the table, and its foreign key. -/
def DeletionTicket.accepted (t : DeletionTicket) (c : Catalog) : Bool :=
  c.tenants t.tenantId && t.jurisdiction.all isJurisdiction &&
    (t.completedAt.all fun at' => t.requestedAt ≤ at') &&
    ((t.status == .completed) == t.completedAt.isSome) && t.voiceSlugs.all storable &&
    t.reason.all storable && t.completionNotes.all storable

/-- A `DataDeletionRequestCreate` body. -/
structure DeletionRequest where
  voiceSlugs : List PyStr := []
  jurisdiction : Option PyStr := none
  reason : Option PyStr := none

/-- What pydantic checks of it. -/
def DeletionRequest.isValid (r : DeletionRequest) : Bool :=
  (r.jurisdiction.all fun s => s.length ≤ 8) && r.reason.all fun s => s.length ≤ 2048

/-- Every named voice has to be owned. -/
def resolveSlugs (tenant : Uuid) : List PyStr → Tx (List Voice)
  | [] => return []
  | slug :: slugs => do
      match ← Tx.query fun c => getOwned c tenant slug with
      | none => throw (.http 404 "voice not owned by this tenant")
      | some v => return v :: (← resolveSlugs tenant slugs)

/-- The voices of a request. -/
def resolveVoices (collate : PyStr → PyStr → Bool) (tenant : Uuid) (slugs : List PyStr) :
    Tx (List Voice) :=
  if slugs.isEmpty then .query fun c =>
    (listAccessible collate c tenant false).filter fun v =>
      v.ownerTenantId == tenant && v.purgedAt.isNone
  else resolveSlugs tenant slugs

/-- Schedule the purge of each voice that is no tombstone; how many that
were. -/
def scheduleAll (now : Nat) : List Voice → Tx Nat
  | [] => return 0
  | v :: vs => do
      if v.purgedAt.isSome then scheduleAll now vs
      else do
        let _ ← schedulePurge v.id now 30
        return (← scheduleAll now vs) + 1

/-- The ticket, once the voices are scheduled. -/
def ticketOf (tenant : Uuid) (actor : Option Uuid) (now : Nat) (r : DeletionRequest)
    (resolved : List Voice) (pending : Nat) : DeletionTicket where
  tenantId := tenant
  voiceSlugs := resolved.map Voice.voiceId
  jurisdiction := r.jurisdiction
  status := if pending = 0 then .completed else .inProgress
  requestedAt := now
  requestedByActorId := actor
  reason := r.reason
  completedAt := if pending = 0 then some now else none
  completionNotes :=
    if pending = 0 then some (py "no synthesizable voices remained for this request") else none

/-- `create_data_deletion_request`. -/
def createDataDeletionRequest (collate : PyStr → PyStr → Bool) (tenant : Uuid)
    (actor : Option Uuid) (now : Nat) (r : DeletionRequest) : Tx DeletionTicket :=
  if !r.isValid then throw (.http 422 "body")
  else do
    let resolved ← resolveVoices collate tenant r.voiceSlugs
    let pending ← scheduleAll now resolved
    let ticket := ticketOf tenant actor now r resolved pending
    .statement fun c => if ticket.accepted c then some c else none
    return ticket

/-! ## the law -/

/-- A voice of the tenant that is no tombstone. -/
def Owns (c : Catalog) (tenant : Uuid) (v : Voice) : Prop :=
  v ∈ c.voices ∧ v.ownerTenantId = tenant ∧ v.purgedAt = none

/-- The slug is of a voice of the tenant, and that is not a tombstone, or at
least not deleted. -/
def Nameable (c : Catalog) (tenant : Uuid) (slug : PyStr) : Prop :=
  ∃ v ∈ c.voices, v.ownerTenantId = tenant ∧ v.voiceId = slug ∧
    (v.purgedAt = none ∨ v.deletedAt = none)

/-- The request reaches what it should reach. -/
def Reaches (collate : PyStr → PyStr → Bool) (c : Catalog) (tenant : Uuid) (actor : Option Uuid)
    (now : Nat) (r : DeletionRequest) : Prop :=
  let outcome := createDataDeletionRequest collate tenant actor now r c
  if r.voiceSlugs = [] then
    ∀ ticket c', outcome = .ok (ticket, c') →
      (∀ v, Owns c' tenant v → v.purgeAfterAt.isSome) ∧
        (ticket.status = .completed → ∀ v, ¬Owns c' tenant v)
  else
    (∀ slug ∈ r.voiceSlugs, Nameable c tenant slug) →
      outcome ≠ .error (.http 404 "voice not owned by this tenant") ∧
        ∀ ticket c', outcome = .ok (ticket, c') →
          ∀ v, Owns c' tenant v → v.voiceId ∈ r.voiceSlugs → v.purgeAfterAt.isSome

/-- The database takes the request's ticket. -/
def DeletionRequest.recordable (r : DeletionRequest) (c : Catalog) (tenant : Uuid) : Bool :=
  r.isValid && c.tenants tenant && r.jurisdiction.all isJurisdiction && r.reason.all storable

/-- No soft-deleted voice is in the way of the request: for the empty list,
each has its purge scheduled already and some voice is not deleted; for slugs,
none is named. -/
def Unhidden (c : Catalog) (tenant : Uuid) (r : DeletionRequest) : Prop :=
  if r.voiceSlugs = [] then
    r.recordable c tenant = true →
      (∀ v, Owns c tenant v → v.deletedAt.isSome → v.purgeAfterAt.isSome) ∧
        ((∃ v, Owns c tenant v) → ∃ v, Owns c tenant v ∧ v.deletedAt = none)
  else
    r.isValid = true → (∀ slug ∈ r.voiceSlugs, Nameable c tenant slug) →
      ∀ v, Owns c tenant v → v.voiceId ∈ r.voiceSlugs → v.deletedAt = none

/-! ## what scheduling does -/

/-- The voices with these ids are scheduled, and the rest is as before. -/
structure Schedules (ids : List Uuid) (c c' : Catalog) : Prop where
  tenants : c'.tenants = c.tenants
  row : ∀ x ∈ c'.voices, ∃ w ∈ c.voices, x.id = w.id ∧ x.ownerTenantId = w.ownerTenantId ∧
    x.voiceId = w.voiceId ∧ x.purgedAt = w.purgedAt ∧ (w.id ∉ ids → x = w) ∧
    (w.purgeAfterAt.isSome → x.purgeAfterAt.isSome) ∧
    (w.id ∈ ids → w.purgedAt = none → x.purgeAfterAt.isSome)
  kept : ∀ w ∈ c.voices, ∃ x ∈ c'.voices, x.id = w.id

namespace Schedules

variable {c c' c'' : Catalog} {ids ids' : List Uuid}

theorem refl (c : Catalog) : Schedules [] c c where
  tenants := rfl
  row x hx := ⟨x, hx, rfl, rfl, rfl, rfl, fun _ => rfl, fun h => h, fun h => by cases h⟩
  kept w hw := ⟨w, hw, rfl⟩

theorem trans (h : Schedules ids c c') (h' : Schedules ids' c' c'') :
    Schedules (ids ++ ids') c c'' where
  tenants := h'.tenants.trans h.tenants
  row x hx := by
    obtain ⟨y, hy, hid', howner', hslug', hpurged', hsame', hkeep', hset'⟩ := h'.row x hx
    obtain ⟨w, hw, hid, howner, hslug, hpurged, hsame, hkeep, hset⟩ := h.row y hy
    refine ⟨w, hw, hid'.trans hid, howner'.trans howner, hslug'.trans hslug,
      hpurged'.trans hpurged, fun hnot => ?_, fun hw => hkeep' (hkeep hw), fun hmem hopen => ?_⟩
    · rw [List.mem_append, not_or] at hnot
      obtain rfl := hsame hnot.1
      exact hsame' hnot.2
    · obtain hmem | hmem := List.mem_append.1 hmem
      · exact hkeep' (hset hmem hopen)
      · exact hset' (hid ▸ hmem) (hpurged.trans hopen)
  kept w hw := by
    obtain ⟨y, hy, hid⟩ := h.kept w hw
    obtain ⟨x, hx, hid'⟩ := h'.kept y hy
    exact ⟨x, hx, hid'.trans hid⟩

/-- A voice that is not scheduled stays. -/
theorem untouched (h : Schedules ids c c') {v : Voice} (hv : v ∈ c.voices) (hid : v.id ∉ ids) :
    v ∈ c'.voices := by
  obtain ⟨x, hx, hxv⟩ := h.kept v hv
  obtain ⟨w, hw, hxw, -, -, -, hsame, -, -⟩ := h.row x hx
  obtain rfl : w = v := Table.eq_of_clash hw hv (by simp [voices, ← hxw, hxv])
  exact hsame hid ▸ hx

/-- A tenant owns nothing new, and what is scheduled has its date set. -/
theorem owned (h : Schedules ids c c') {tenant : Uuid} {x : Voice} (hx : Owns c' tenant x) :
    ∃ w, Owns c tenant w ∧ x.voiceId = w.voiceId ∧
      (w.purgeAfterAt.isSome ∨ w.id ∈ ids → x.purgeAfterAt.isSome) := by
  obtain ⟨hx, howner, hpurged⟩ := hx
  obtain ⟨w, hw, -, hxowner, hslug, hxpurged, -, hkeep, hset⟩ := h.row x hx
  have hopen : w.purgedAt = none := hxpurged ▸ hpurged
  refine ⟨w, ⟨hw, hxowner ▸ howner, hopen⟩, hslug, ?_⟩
  rintro (hsome | hid)
  · exact hkeep hsome
  · exact hset hid hopen

end Schedules

section scheduling

variable {c c' : Catalog} {now : Nat}

/-- The step lemma. -/
theorem schedules_schedulePurge {id : Uuid} {r : Option Voice}
    (hrun : schedulePurge id now 30 c = .ok (r, c')) : Schedules [id] c c' := by
  have hrest : ∀ w ∈ c.voices, (w.id = id → w.purgedAt.isSome) →
      ∃ u ∈ c.voices, w.id = u.id ∧ w.ownerTenantId = u.ownerTenantId ∧ w.voiceId = u.voiceId ∧
        w.purgedAt = u.purgedAt ∧ (u.id ∉ [id] → w = u) ∧
        (u.purgeAfterAt.isSome → w.purgeAfterAt.isSome) ∧
        (u.id ∈ [id] → u.purgedAt = none → w.purgeAfterAt.isSome) := by
    intro w hw hne
    refine ⟨w, hw, rfl, rfl, rfl, rfl, fun _ => rfl, fun h => h, fun hid hopen => ?_⟩
    rw [hopen] at hne
    cases hne (List.mem_singleton.1 hid)
  obtain ⟨hnone, -, rfl⟩ | ⟨v, hv, ⟨hpurged, -, rfl⟩ | ⟨hopen, -, t, hm, rfl⟩⟩ :=
    writeUnpurged_ok hrun
  · refine ⟨rfl, fun x hx => hrest x hx fun hid => ?_, fun w hw => ⟨w, hw, rfl⟩⟩
    have hfree := Table.find?_eq_none.1 hnone x hx
    simp [hid] at hfree
  · obtain ⟨hv, hid⟩ := Table.find?_eq_some hv
    have hid : v.id = id := eq_of_beq hid
    refine ⟨rfl, fun x hx => hrest x hx fun hxid => ?_, fun w hw => ⟨w, hw, rfl⟩⟩
    obtain rfl : x = v := Table.eq_of_clash hx hv (by simp [voices, hxid, hid])
    exact hpurged
  · obtain ⟨hv, hid⟩ := Table.find?_eq_some hv
    have hid : v.id = id := eq_of_beq hid
    refine ⟨rfl, fun x hx => ?_, fun w hw => ?_⟩
    · obtain rfl | ⟨hx, hne⟩ := (mem_written hv hm).1 hx
      · exact ⟨v, hv, rfl, rfl, rfl, rfl, fun hnot => absurd (by simp [hid]) hnot,
          fun _ => rfl, fun _ _ => rfl⟩
      · exact hrest x hx fun hxid => absurd (hxid.trans hid.symm) hne
    · by_cases hwid : w.id = v.id
      · exact ⟨purgeScheduled now 30 v, (mem_written hv hm).2 (.inl rfl), hwid.symm⟩
      · exact ⟨w, (mem_written hv hm).2 (.inr ⟨hw, hwid⟩), rfl⟩

/-- The run lemma. -/
theorem scheduleAll_ok (hpast : c.Past now) (vs : List Voice) :
    ∃ c', scheduleAll now vs c = .ok ((vs.filter fun v => v.purgedAt.isNone).length, c') ∧
      Schedules ((vs.filter fun v => v.purgedAt.isNone).map Voice.id) c c' := by
  induction vs generalizing c with
  | nil => exact ⟨c, rfl, .refl c⟩
  | cons v vs ih =>
      cases hp : v.purgedAt with
      | some t =>
          obtain ⟨c', hrun, hsched⟩ := ih hpast
          refine ⟨c', ?_, by simpa [hp] using hsched⟩
          rw [scheduleAll]
          simp only [hp, Option.isSome_some, if_true]
          rw [hrun]
          simp [hp]
      | none =>
          obtain ⟨r, c₁, hfirst⟩ := schedulePurge_accepted hpast v.id 30
          have hpast₁ : c₁.Past now :=
            hpast.write (writeUnpurged_write hfirst) fun _ _ hv ht => le_of_or hv ht
          obtain ⟨c', hrun, hsched⟩ := ih hpast₁
          refine ⟨c', ?_, ?_⟩
          · rw [scheduleAll]
            simp only [hp, Option.isSome_none, Bool.false_eq_true, if_false]
            refine Tx.bind_ok.2 ⟨r, c₁, hfirst, Tx.bind_ok.2 ⟨_, c', hrun, ?_⟩⟩
            rw [Tx.pure_ok]
            simp [hp]
          · have htrans := (schedules_schedulePurge hfirst).trans hsched
            simpa [hp] using htrans

end scheduling

/-! ## what is resolved -/

section resolved

variable {collate : PyStr → PyStr → Bool} {c c' : Catalog} {tenant : Uuid} {now : Nat}

/-- The empty list stands for the tenant's voices that are neither purged nor
deleted. -/
theorem resolveVoices_nil (collate : PyStr → PyStr → Bool) (c : Catalog) (tenant : Uuid) :
    ∃ vs, resolveVoices collate tenant [] c = .ok (vs, c) ∧
    ∀ v, v ∈ vs ↔ Owns c tenant v ∧ v.deletedAt = none := by
  refine ⟨_, rfl, fun v => ?_⟩
  rw [List.mem_filter, listAccessible, List.mem_mergeSort, List.mem_filter]
  simp only [accessible, Owns, Table.mem_rows, Bool.and_eq_true, Bool.or_eq_true, beq_iff_eq,
    Option.isNone_iff_eq_none, Bool.false_or]
  constructor
  · rintro ⟨⟨hv, -, hdeleted⟩, howner, hpurged⟩
    exact ⟨⟨hv, howner, hpurged⟩, hdeleted⟩
  · rintro ⟨⟨hv, howner, hpurged⟩, hdeleted⟩
    exact ⟨⟨hv, .inl (.inl howner), hdeleted⟩, howner, hpurged⟩

/-- Slugs that are all found resolve to what is found. -/
theorem resolveSlugs_found {slugs : List PyStr}
    (h : ∀ slug ∈ slugs, (getOwned c tenant slug).isSome) :
    resolveSlugs tenant slugs c = .ok (slugs.filterMap (getOwned c tenant), c) := by
  induction slugs with
  | nil => rfl
  | cons slug slugs ih =>
      obtain ⟨hslug, hslugs⟩ := List.forall_mem_cons.1 h
      obtain ⟨v, hv⟩ := Option.isSome_iff_exists.1 hslug
      rw [resolveSlugs, Tx.bind_query, hv, List.filterMap_cons_some hv]
      exact Tx.bind_ok.2 ⟨_, c, ih hslugs, Tx.pure_ok.2 ⟨rfl, rfl⟩⟩

/-- One slug that is not found is a 404. -/
theorem resolveSlugs_missing {slugs : List PyStr} {slug : PyStr} (hmem : slug ∈ slugs)
    (h : getOwned c tenant slug = none) :
    resolveSlugs tenant slugs c = .error (.http 404 "voice not owned by this tenant") := by
  induction slugs with
  | nil => cases hmem
  | cons s slugs ih =>
      rw [resolveSlugs, Tx.bind_query]
      cases hs : getOwned c tenant s with
      | none => rfl
      | some v =>
          obtain rfl | hmem := List.mem_cons.1 hmem
          · rw [h] at hs
            cases hs
          · exact Tx.bind_error (ih hmem)

/-- A slug is one voice of the tenant. -/
theorem Owns.getOwned {v : Voice} (h : Owns c tenant v) :
    VoiceRepo.getOwned c tenant v.voiceId = if v.deletedAt = none then some v else none := by
  obtain ⟨hv, howner, -⟩ := h
  have hsame : ∀ w, ownedBy tenant v.voiceId w = true → voices.clash v w = true := by
    intro w hw
    simp only [ownedBy, Bool.and_eq_true, beq_iff_eq] at hw
    simp [voices, howner, hw.1.1, hw.1.2]
  split
  · next hdeleted => exact Table.find?_of_mem hv (by simp [ownedBy, howner, hdeleted]) hsame
  · next hdeleted =>
      refine Table.find?_eq_none.2 fun w hw => ?_
      by_contra hfound
      have hfound := (Bool.not_eq_false _).mp hfound
      obtain rfl := Table.eq_of_clash hv hw (hsame w hfound)
      simp only [ownedBy, Bool.and_eq_true, Option.isNone_iff_eq_none] at hfound
      exact hdeleted hfound.2

/-- A request whose voices are resolved schedules them, and its ticket is
recorded if the database takes it. -/
theorem createDataDeletionRequest_resolved {r : DeletionRequest} {vs : List Voice}
    (collate : PyStr → PyStr → Bool) (actor : Option Uuid) (hpast : c.Past now)
    (hvalid : r.isValid = true) (hvs : resolveVoices collate tenant r.voiceSlugs c = .ok (vs, c)) :
    ∃ c', Schedules ((vs.filter fun v => v.purgedAt.isNone).map Voice.id) c c' ∧
      let ticket := ticketOf tenant actor now r vs (vs.filter fun v => v.purgedAt.isNone).length
      createDataDeletionRequest collate tenant actor now r c =
        if ticket.accepted c' then .ok (ticket, c') else .error (.foreign .integrityError) := by
  obtain ⟨c', hrun, hsched⟩ := scheduleAll_ok hpast vs
  refine ⟨c', hsched, ?_⟩
  unfold createDataDeletionRequest
  simp only [hvalid, Bool.not_true, Bool.false_eq_true, if_false]
  rw [Tx.bind_of_ok hvs, Tx.bind_of_ok hrun]
  split
  · next haccepted =>
      refine Tx.bind_of_ok (a := ()) ?_
      rw [Tx.statement_ok, if_pos haccepted]
  · next hrefused =>
      refine Tx.bind_error ?_
      simp only [Tx.statement, if_neg hrefused]

/-- A slug can be stored. -/
theorem storable_of_isSlug {s : PyStr} (h : isSlug s = true) : storable s = true := by
  simp only [isSlug, Bool.and_eq_true, List.all_eq_true] at h
  have hchars : ∀ x ∈ s, (0x30 ≤ x ∧ x ≤ 0x7A) ∨ x = 0x2D := by
    intro x hx
    have hx := h.1.1.2 x hx
    simp only [isAlnum, Bool.or_eq_true, Bool.and_eq_true, decide_eq_true_eq, beq_iff_eq] at hx
    omega
  unfold storable utf8Encodable
  simp only [Bool.and_eq_true, List.all_eq_true, Bool.not_eq_true', List.contains_eq_mem,
    decide_eq_false_iff_not]
  constructor
  · intro x hx
    have hx := hchars x hx
    simp only [isSurrogate, Bool.and_eq_false_iff, decide_eq_false_iff_not]
    omega
  · intro hzero
    have hzero := hchars 0 hzero
    omega

/-- The database takes the ticket of a request that passes the checks. -/
theorem ticketOf_accepted {r : DeletionRequest} (vs : List Voice) (actor : Option Uuid)
    (now pending : Nat) (hrec : r.recordable c tenant = true) (htenants : c'.tenants = c.tenants)
    (hvs : ∀ v ∈ vs, v ∈ c.voices) :
    (ticketOf tenant actor now r vs pending).accepted c' = true := by
  simp only [DeletionRequest.recordable, Bool.and_eq_true] at hrec
  obtain ⟨⟨⟨-, htenant⟩, hjurisdiction⟩, hreason⟩ := hrec
  have hslugs : (vs.map Voice.voiceId).all storable = true := by
    simp only [List.all_map, List.all_eq_true, Function.comp_apply]
    intro v hv
    have hwell := (check_of_mem (hvs v hv)).1
    simp only [Voice.wellFormed, Bool.and_eq_true] at hwell
    exact storable_of_isSlug hwell.1.1.1.1.1.1.1
  unfold DeletionTicket.accepted ticketOf
  simp only [htenants, htenant, hjurisdiction, hreason, hslugs, Bool.and_true, Bool.true_and]
  by_cases hpending : pending = 0
  · simp [hpending]
    decide
  · simp [hpending]

/-- The database takes no other. -/
theorem recordable_of_accepted {r : DeletionRequest} {vs : List Voice} {actor : Option Uuid}
    {now pending : Nat} (hvalid : r.isValid = true) (htenants : c'.tenants = c.tenants)
    (h : (ticketOf tenant actor now r vs pending).accepted c' = true) :
    r.recordable c tenant = true := by
  unfold DeletionTicket.accepted ticketOf at h
  simp only [Bool.and_eq_true, htenants] at h
  obtain ⟨⟨⟨⟨⟨⟨htenant, hjurisdiction⟩, -⟩, -⟩, -⟩, hreason⟩, -⟩ := h
  simp [DeletionRequest.recordable, hvalid, htenant, hjurisdiction, hreason]

end resolved

/-! ## the law holds exactly for requests that are not hidden -/

section reaches

variable {collate : PyStr → PyStr → Bool} {c : Catalog} {tenant : Uuid} {actor : Option Uuid}
  {now : Nat} {r : DeletionRequest}

/-- The empty list. -/
theorem reaches_all_iff (hpast : c.Past now) (hempty : r.voiceSlugs = []) :
    Reaches collate c tenant actor now r ↔ Unhidden c tenant r := by
  unfold Reaches Unhidden
  simp only [if_pos hempty]
  cases hvalid : r.isValid with
  | false => simp [createDataDeletionRequest, hvalid, DeletionRequest.recordable, Tx.not_throw_ok]
  | true =>
      obtain ⟨vs, hvs, hmem⟩ := resolveVoices_nil collate c tenant
      obtain ⟨c', hsched, hrun⟩ := createDataDeletionRequest_resolved (r := r) collate actor hpast
        hvalid (hempty ▸ hvs)
      have hall : (vs.filter fun v => v.purgedAt.isNone) = vs :=
        List.filter_eq_self.2 fun v hv => by simp [((hmem v).1 hv).1.2.2]
      rw [hall] at hsched hrun
      rw [hrun]
      constructor
      · intro h hrec
        have haccepted := ticketOf_accepted vs actor now vs.length hrec hsched.tenants
          fun v hv => ((hmem v).1 hv).1.1
        rw [if_pos haccepted] at h
        obtain ⟨hset, hclosed⟩ := h _ _ rfl
        have hstays : ∀ v, Owns c tenant v → v.deletedAt ≠ none → Owns c' tenant v := by
          rintro v ⟨hv, hrest⟩ hdeleted
          refine ⟨hsched.untouched hv fun hid => ?_, hrest⟩
          obtain ⟨w, hw, hwid⟩ := List.mem_map.1 hid
          obtain ⟨⟨hwv, -⟩, hopen⟩ := (hmem w).1 hw
          obtain rfl : w = v := Table.eq_of_clash hwv hv (by simp [voices, hwid])
          exact hdeleted hopen
        constructor
        · intro v hv hdeleted
          exact hset v (hstays v hv (Option.ne_none_iff_isSome.2 hdeleted))
        · rintro ⟨v, hv⟩
          by_contra hnone
          have hnil : vs = [] := by
            refine List.eq_nil_iff_forall_not_mem.2 fun w hw => hnone ⟨w, (hmem w).1 hw⟩
          exact hclosed (by simp [ticketOf, hnil]) v (hstays v hv fun hopen => hnone ⟨v, hv, hopen⟩)
      · intro h ticket cfin hfin
        split at hfin
        · next haccepted =>
            obtain ⟨rfl, rfl⟩ := Prod.mk.inj (Except.ok.inj hfin)
            obtain ⟨hdeleted, hopen⟩ := h (recordable_of_accepted hvalid hsched.tenants haccepted)
            constructor
            · intro x hx
              obtain ⟨w, hw, -, hset⟩ := hsched.owned hx
              cases hdel : w.deletedAt with
              | some t => exact hset (.inl (hdeleted w hw (by simp [hdel])))
              | none => exact hset (.inr (List.mem_map_of_mem ((hmem w).2 ⟨hw, hdel⟩)))
            · intro hdone x hx
              obtain ⟨w, hw, -⟩ := hsched.owned hx
              obtain ⟨v, hv⟩ := hopen ⟨w, hw⟩
              have hpos := List.length_pos_of_mem ((hmem v).2 hv)
              simp [ticketOf, hpos.ne'] at hdone
        · cases hfin

/-- Slugs. -/
theorem reaches_named_iff (hpast : c.Past now) (hnamed : r.voiceSlugs ≠ []) :
    Reaches collate c tenant actor now r ↔ Unhidden c tenant r := by
  unfold Reaches Unhidden
  simp only [if_neg hnamed]
  cases hvalid : r.isValid with
  | false =>
      have hrun : createDataDeletionRequest collate tenant actor now r c =
          .error (.http 422 "body") := by
        simp [createDataDeletionRequest, hvalid]
        rfl
      simp [hrun]
  | true =>
      simp only [true_imp_iff]
      refine imp_congr_right fun hnameable => ?_
      have hslugs : resolveVoices collate tenant r.voiceSlugs =
          resolveSlugs tenant r.voiceSlugs := by
        simp [resolveVoices, hnamed]
      constructor
      · rintro ⟨hfound, -⟩ v hv hslug
        by_contra hdeleted
        have hmissing : getOwned c tenant v.voiceId = none := by
          rw [hv.getOwned, if_neg hdeleted]
        have hresolve := resolveSlugs_missing hslug hmissing
        refine hfound ?_
        unfold createDataDeletionRequest
        simp only [hvalid, Bool.not_true, Bool.false_eq_true, if_false, hslugs]
        exact Tx.bind_error hresolve
      · intro h
        have hfound : ∀ slug ∈ r.voiceSlugs, (getOwned c tenant slug).isSome := by
          intro slug hslug
          obtain ⟨v, hv, howner, rfl, hopen | hopen⟩ := hnameable slug hslug
          · have howns : Owns c tenant v := ⟨hv, howner, hopen⟩
            simp [howns.getOwned, h v howns hslug]
          · refine Option.ne_none_iff_isSome.1 fun hnone => ?_
            have hmiss := Table.find?_eq_none.1 hnone v hv
            simp [ownedBy, howner, hopen] at hmiss
        obtain ⟨c', hsched, hrun⟩ := createDataDeletionRequest_resolved collate actor hpast
          hvalid (hslugs ▸ resolveSlugs_found hfound)
        rw [hrun]
        split
        · refine ⟨by simp, fun ticket cfin hfin x hx hslug => ?_⟩
          obtain ⟨rfl, rfl⟩ := Prod.mk.inj (Except.ok.inj hfin)
          obtain ⟨w, hw, hxw, hset⟩ := hsched.owned hx
          rw [hxw] at hslug
          refine hset (.inr (List.mem_map.2 ⟨w, List.mem_filter.2 ⟨?_, ?_⟩, rfl⟩))
          · refine List.mem_filterMap.2 ⟨w.voiceId, hslug, ?_⟩
            rw [hw.getOwned, if_pos (h w hw hslug)]
          · simp [hw.2.2]
        · exact ⟨by simp, by simp⟩

end reaches

/-- **A deletion request reaches the tenant's voices exactly when no
soft-deleted one is in its way.** -/
theorem deletion_reaches (collate : PyStr → PyStr → Bool) (c : Catalog) (tenant : Uuid)
    (actor : Option Uuid) (now : Nat) (r : DeletionRequest) (hpast : c.Past now) :
    Reaches collate c tenant actor now r ↔ Unhidden c tenant r := by
  by_cases hempty : r.voiceSlugs = []
  · exact reaches_all_iff hpast hempty
  · exact reaches_named_iff hpast hempty

/-- A soft-deleted voice of tenant 1. -/
def hiddenCatalog : Catalog :=
  .sole { sampleVoice.row 1 7 0 .priv with deletedAt := some 3 } (by decide +kernel)

theorem past_hiddenCatalog (now : Nat) : hiddenCatalog.Past now where
  frozen v hv t ht := by
    rw [List.mem_singleton.1 hv] at ht
    cases ht
  recorded r hr := by cases hr

/-- The request of a tenant whose only voice is soft-deleted. -/
theorem deletion_reaches_example :
    Reaches (fun _ _ => true) hiddenCatalog 1 none 5 {} ↔ Unhidden hiddenCatalog 1 {} :=
  deletion_reaches (fun _ _ => true) hiddenCatalog 1 none 5 {} (past_hiddenCatalog 5)

/-- Its tenant asks for everything to be deleted: the ticket is closed and the
voice stays. -/
theorem hidden_voice_not_reached :
    ¬∀ (collate : PyStr → PyStr → Bool) (c : Catalog) (tenant : Uuid) (actor : Option Uuid)
      (now : Nat) (r : DeletionRequest), c.Past now → Reaches collate c tenant actor now r := by
  intro h
  have hreaches := h (fun _ _ => true) hiddenCatalog 1 none 5 {} (past_hiddenCatalog 5)
  rw [deletion_reaches _ _ _ _ _ _ (past_hiddenCatalog 5)] at hreaches
  obtain ⟨hdeleted, -⟩ := hreaches (by decide)
  exact absurd (hdeleted _ ⟨List.mem_singleton_self _, rfl, rfl⟩ rfl) (by decide)

end NeuroVoice
