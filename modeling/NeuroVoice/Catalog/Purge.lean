import NeuroVoice.Catalog.Repos
import NeuroVoice.Catalog.Storage

/-!
# NeuroVoice.Catalog.Purge

`admin_purge_voice` of `server/admin/router.py`: delete the artifacts, then
leave a tombstone.

The deletes are irreversible and come first; the tombstone is a database
write that the check `voices_purged_after_purge_after` can refuse, and once
it is there the URIs are gone.  `purge_atomic` says when the two agree,
`erasure_completable` when a failed delete can still be repeated.
-/

namespace NeuroVoice

open VoiceRepo

/-! ## the call -/

/-- How storage answers a delete. -/
inductive DeleteAnswer where
  | done
  | raised (error : String)
  /-- The object is deleted, but the reply is lost. -/
  | lost (error : String)

/-- Storage performs the delete. -/
def DeleteAnswer.deletes : DeleteAnswer → Bool
  | .raised _ => false
  | _ => true

/-- What becomes of one artifact: an entry of `artifact_deletes`. -/
inductive ArtifactDelete where
  | noUri
  | unknownScheme
  | ok
  | failed (error : String)
  deriving DecidableEq

/-- The arguments of one call and what it meets. -/
structure PurgeCall where
  confirm : Bool
  now : Nat
  /-- `get_r2_storage()` raises: its environment is not set. -/
  unavailable : Option String := none
  reference : DeleteAnswer := .done
  adapter : DeleteAnswer := .done

/-- The reply of the route. -/
structure PurgeReply where
  voiceId : PyStr
  purgedAt : Option Nat
  alreadyPurged : Bool := false
  artifactDeletes : List ArtifactDelete := []

section purge

variable (netlocOk : PyStr → Bool)

/-- The place a URI's delete is sent to. -/
def artifactOf (uri : PyStr) : Option Artifact :=
  if startsWith uri "s3://" || startsWith uri "r2://" then
    match S3URI.parse netlocOk uri with
    | .ok o => some (.object o)
    | .error _ => none
  else if startsWith uri "file://" then some (.file (PurePath.ofStr (uri.drop 7)))
  else none

/-- The delete itself. -/
def performDelete (a : Artifact) (answer : DeleteAnswer) (s : Storage) :
    ArtifactDelete × Storage :=
  match answer with
  | .done => (.ok, s.remove a)
  | .raised error => (.failed error, s)
  | .lost error => (.failed error, s.remove a)

/-- The loop's body for one URI. -/
def deleteArtifact (uri : PyStr) (answer : DeleteAnswer) (s : Storage) :
    ArtifactDelete × Storage :=
  if uri.isEmpty then (.noUri, s)
  else if startsWith uri "s3://" || startsWith uri "r2://" then
    match S3URI.parse netlocOk uri with
    | .ok o => performDelete (.object o) answer s
    | .error e => (.failed e.text, s)
  else if startsWith uri "file://" then
    performDelete (.file (PurePath.ofStr (uri.drop 7))) answer s
  else (.unknownScheme, s)

/-- The loop over `reference_uri` and `adapter_uri`. -/
def deleteArtifacts (v : Voice) (call : PurgeCall) (s : Storage) :
    List ArtifactDelete × Storage :=
  let (reference, s) := deleteArtifact netlocOk v.referenceUri call.reference s
  let (adapter, s) := deleteArtifact netlocOk (v.adapterUri.getD []) call.adapter s
  ([reference, adapter], s)

/-- `admin_purge_voice`. -/
def adminPurgeVoice (id : Uuid) (call : PurgeCall) (c : Catalog) (s : Storage) :
    Except Exn PurgeReply × Catalog × Storage :=
  if !call.confirm then (.error (.http 400 "purge requires confirm=true"), c, s)
  else
    match getById c id with
    | none => (.error (.http 404 "voice not found"), c, s)
    | some v =>
        if v.purgedAt.isSome then
          (.ok { voiceId := v.voiceId, purgedAt := v.purgedAt, alreadyPurged := true }, c, s)
        else
          match call.unavailable with
          | some error => (.error (.foreign (.other error)), c, s)
          | none =>
              let (artifactDeletes, s) := deleteArtifacts netlocOk v call s
              match executePurge id call.now c with
              | .ok (purged, c) =>
                  (.ok { voiceId := v.voiceId, purgedAt := purged.bind Voice.purgedAt
                         artifactDeletes }, c, s)
              | .error e => (.error e, c, s)

/-- A sequence of calls for one voice. -/
def purgeAll (id : Uuid) (calls : List PurgeCall) (c : Catalog) (s : Storage) :
    Catalog × Storage :=
  calls.foldl (fun cs call => (adminPurgeVoice netlocOk id call cs.1 cs.2).2) (c, s)

/-! ## what the calls depend on -/

/-- The artifact is the voice's reference or its adapter. -/
def IsArtifactOf (v : Voice) (a : Artifact) : Prop :=
  artifactOf netlocOk v.referenceUri = some a ∨
    artifactOf netlocOk (v.adapterUri.getD []) = some a

/-- Storage deletes the artifact when the call asks it to. -/
def PurgeCall.erases (call : PurgeCall) (v : Voice) (a : Artifact) : Bool :=
  (artifactOf netlocOk v.referenceUri == some a && call.reference.deletes) ||
    (artifactOf netlocOk (v.adapterUri.getD []) == some a && call.adapter.deletes)

/-- The call gets past its guards. -/
def PurgeCall.starts (call : PurgeCall) : Bool := call.confirm && call.unavailable.isNone

/-- The voice's scheduled purge, if there is one, is due. -/
def purgeDue (v : Voice) (now : Nat) : Bool := v.purgeAfterAt.all fun t => t ≤ now

end purge

/-- The row is a tombstone. -/
def Tombstoned (c : Catalog) (id : Uuid) : Prop := ∃ v, getById c id = some v ∧ v.purgedAt.isSome

/-! ## the deletes -/

section deletes

variable {netlocOk : PyStr → Bool}

/-- No URI, no artifact. -/
theorem artifactOf_nil : artifactOf netlocOk [] = none := by
  simp [artifactOf, startsWith, py]

/-- Exactly what the URI points at is deleted, if storage deletes it. -/
theorem has_deleteArtifact {uri : PyStr} {answer : DeleteAnswer} {s : Storage} {a : Artifact} :
    (deleteArtifact netlocOk uri answer s).2.has a =
      (s.has a && !(artifactOf netlocOk uri == some a && answer.deletes)) := by
  have hremove : ∀ b, (s.remove b).has a = (s.has a && !(some b == some a)) := by
    intro b
    rw [Storage.has_remove]
    by_cases h : a = b
    · simp [h]
    · have hab : (b == a) = (a == b) := by
        rw [Bool.eq_iff_iff, beq_iff_eq, beq_iff_eq]
        exact eq_comm
      simp [bne, hab]
  have hperform : ∀ b, (performDelete b answer s).2.has a =
      (s.has a && !(some b == some a && answer.deletes)) := by
    intro b
    cases answer with
    | done => simpa [performDelete, DeleteAnswer.deletes] using hremove b
    | raised error => simp [performDelete, DeleteAnswer.deletes]
    | lost error => simpa [performDelete, DeleteAnswer.deletes] using hremove b
  by_cases hnil : uri.isEmpty
  · obtain rfl := List.isEmpty_iff.1 hnil
    simp [deleteArtifact, artifactOf_nil]
  unfold deleteArtifact artifactOf
  rw [if_neg hnil]
  split
  · cases h : S3URI.parse netlocOk uri with
    | ok o => simp [hperform]
    | error e => simp
  · split
    · exact hperform _
    · simp

theorem has_deleteArtifacts {v : Voice} {call : PurgeCall} {s : Storage} {a : Artifact} :
    (deleteArtifacts netlocOk v call s).2.has a = (s.has a && !call.erases netlocOk v a) := by
  simp only [deleteArtifacts, has_deleteArtifact, PurgeCall.erases, Bool.not_or, Bool.and_assoc]

end deletes

/-! ## the tombstone -/

/-- A tombstone passes the checks exactly when the purge was due. -/
theorem check_tombstone {v : Voice} (h : voices.check v = true) (now : Nat) :
    voices.check (tombstone now v) = purgeDue v now := by
  simp only [voices, Bool.and_eq_true] at h
  obtain ⟨⟨⟨hwell, hstore⟩, hfrozen⟩, -⟩ := h
  have hwell' : (tombstone now v).wellFormed = true := by
    simp only [Voice.wellFormed, Bool.and_eq_true] at hwell ⊢
    obtain ⟨⟨⟨⟨⟨⟨⟨hslug, hlang⟩, hgender⟩, -⟩, hsecs⟩, hsource⟩, hkind⟩, -⟩ := hwell
    exact ⟨⟨⟨⟨⟨⟨⟨hslug, hlang⟩, hgender⟩, rfl⟩, hsecs⟩, hsource⟩, hkind⟩, rfl⟩
  have hstore' : (tombstone now v).isStorable = true := by
    simp only [Voice.isStorable, Bool.and_eq_true] at hstore ⊢
    obtain ⟨⟨⟨⟨⟨⟨⟨⟨⟨⟨-, htags⟩, -⟩, -⟩, href⟩, -⟩, -⟩, -⟩, -⟩, -⟩, hreason⟩ := hstore
    exact ⟨⟨⟨⟨⟨⟨⟨⟨⟨⟨rfl, htags⟩, rfl⟩, rfl⟩, href⟩, rfl⟩, rfl⟩, rfl⟩, rfl⟩, rfl⟩,
      hreason⟩
  have hfrozen' : purgeAfterFrozen (tombstone now v) = true := hfrozen
  have hdue : purgedAfterPurgeAfter (tombstone now v) = purgeDue v now := by
    cases hp : v.purgeAfterAt <;> simp [purgedAfterPurgeAfter, tombstone, purgeDue, hp]
  simp only [voices, hwell', hstore', hfrozen', hdue, Bool.true_and]

section execute

variable {c : Catalog} {id : Uuid} {v : Voice} {now : Nat}

/-- The row under an id. -/
theorem getById_eq_some (h : getById c id = some v) : v ∈ c.voices ∧ v.id = id := by
  obtain ⟨hv, hp⟩ := Table.find?_eq_some h
  exact ⟨hv, by simpa using hp⟩

/-- The write of the tombstone is accepted exactly when the purge was due. -/
theorem modify_tombstone (now : Nat) (h : getById c id = some v) :
    (c.voices.modify (fun w => w.id == v.id) (tombstone now)).isSome = purgeDue v now := by
  obtain ⟨hv, rfl⟩ := getById_eq_some h
  rw [Bool.eq_iff_iff, Table.modify_isSome ?_]
  · constructor
    · intro hall
      rw [← check_tombstone (c.voices.checked v hv)]
      exact hall v hv (by simp)
    · intro hdue r hr hid
      have hrid : r.id = v.id := by simpa using hid
      obtain rfl : r = v := Table.eq_of_clash hr hv (by simp [voices, hrid])
      rw [check_tombstone (c.voices.checked r hr), hdue]
  · intro r s
    by_cases hr : (r.id == v.id) = true <;> by_cases hs : (s.id == v.id) = true <;>
      simp [hr, hs, voices, tombstone]

/-- `execute_purge` of a voice that is due leaves its tombstone. -/
theorem executePurge_due (h : getById c id = some v) (hp : v.purgedAt = none)
    (hdue : purgeDue v now = true) :
    ∃ c', executePurge id now c = .ok (some (tombstone now v), c') ∧
      getById c' id = some (tombstone now v) := by
  obtain ⟨t, ht⟩ := Option.isSome_iff_exists.1 ((modify_tombstone now h).trans hdue)
  obtain ⟨hv, rfl⟩ := getById_eq_some h
  refine ⟨{ c with voices := t }, ?_, ?_⟩
  · rw [executePurge, writeUnpurged_unpurged h hp, ht]
  · have hmem : tombstone now v ∈ t := (Table.mem_modify ht).2 ⟨v, hv, by simp⟩
    exact Table.find?_of_mem hmem (by simp [tombstone]) fun w hw => by
      have hwid : w.id = v.id := by simpa using hw
      simp [voices, tombstone, hwid]

/-- `execute_purge` of a voice that is not due fails. -/
theorem executePurge_not_due (h : getById c id = some v) (hp : v.purgedAt = none)
    (hdue : purgeDue v now = false) :
    executePurge id now c = .error (.foreign .integrityError) := by
  have hm := (modify_tombstone now h).trans hdue
  rw [executePurge, writeUnpurged_unpurged h hp]
  cases ht : c.voices.modify (fun w => w.id == v.id) (tombstone now) with
  | none => rfl
  | some t => rw [ht] at hm; cases hm

end execute

/-! ## one call -/

section call

variable {netlocOk : PyStr → Bool} {id : Uuid} {call : PurgeCall} {c : Catalog} {s : Storage}
  {v : Voice}

/-- A call that does not get past its guards changes nothing. -/
theorem purge_idle (h : call.starts = false) :
    (adminPurgeVoice netlocOk id call c s).2 = (c, s) := by
  unfold adminPurgeVoice
  cases hconf : call.confirm with
  | false => rfl
  | true =>
      cases hun : call.unavailable with
      | none => simp [PurgeCall.starts, hconf, hun] at h
      | some e =>
          simp only [Bool.not_true, Bool.false_eq_true, if_false]
          split
          · rfl
          · split <;> rfl

/-- A call on a tombstone changes nothing. -/
theorem purge_tombstone (h : getById c id = some v) (hp : v.purgedAt.isSome) :
    (adminPurgeVoice netlocOk id call c s).2 = (c, s) := by
  unfold adminPurgeVoice
  rw [h]
  simp only [hp, if_true]
  split <;> rfl

/-- A call that starts on a voice that is due deletes and tombstones. -/
theorem purge_due (netlocOk : PyStr → Bool) (s : Storage) (hs : call.starts = true)
    (h : getById c id = some v)
    (hp : v.purgedAt = none) (hdue : purgeDue v call.now = true) :
    ∃ c', (adminPurgeVoice netlocOk id call c s).2 =
      (c', (deleteArtifacts netlocOk v call s).2) ∧
      getById c' id = some (tombstone call.now v) := by
  simp only [PurgeCall.starts, Bool.and_eq_true, Option.isNone_iff_eq_none] at hs
  obtain ⟨c', hc', hget⟩ := executePurge_due h hp hdue
  refine ⟨c', ?_, hget⟩
  unfold adminPurgeVoice
  simp [hs.1, hs.2, h, hp, hc']

/-- A call that starts on a voice that is not due deletes, and fails. -/
theorem purge_not_due (hs : call.starts = true) (h : getById c id = some v)
    (hp : v.purgedAt = none) (hdue : purgeDue v call.now = false) :
    adminPurgeVoice netlocOk id call c s =
      (.error (.foreign .integrityError), c, (deleteArtifacts netlocOk v call s).2) := by
  simp only [PurgeCall.starts, Bool.and_eq_true, Option.isNone_iff_eq_none] at hs
  unfold adminPurgeVoice
  simp [hs.1, hs.2, h, hp, executePurge_not_due h hp hdue]

end call

/-! ## an example -/

/-- A frozen voice to be purged from time 1000 on. -/
def frozenVoice : Voice :=
  { sampleVoice.row 1 7 0 .priv with frozenAt := some 500, purgeAfterAt := some 1000 }

/-- The catalog with that voice. -/
def frozenCatalog : Catalog := .sole frozenVoice (by decide +kernel)

/-- Its reference audio is on disk. -/
def frozenStorage : Storage where
  content a := if a = .file (.ofStr (py "/data/ayse.wav")) then some [1] else none

theorem getById_frozenCatalog : getById frozenCatalog frozenVoice.id = some frozenVoice := rfl

theorem artifact_frozenVoice :
    IsArtifactOf (fun _ => true) frozenVoice (.file (.ofStr (py "/data/ayse.wav"))) :=
  .inl rfl

/-! ## all or nothing -/

/-- The call never ends with an artifact of the voice deleted while its row
is no tombstone. -/
def PurgeAtomic (netlocOk : PyStr → Bool) (v : Voice) (call : PurgeCall) (c : Catalog)
    (s : Storage) : Prop :=
  ∀ a, IsArtifactOf netlocOk v a → s.has a = true →
    (adminPurgeVoice netlocOk v.id call c s).2.2.has a = false →
      Tombstoned (adminPurgeVoice netlocOk v.id call c s).2.1 v.id

/-- **A purge is all or nothing exactly when** it stops at its guards, or the
scheduled purge is due, or storage deletes nothing. -/
theorem purge_atomic (netlocOk : PyStr → Bool) (v : Voice) (call : PurgeCall) (c : Catalog)
    (s : Storage) (h : getById c v.id = some v) (hp : v.purgedAt = none) :
    PurgeAtomic netlocOk v call c s ↔
      call.starts = false ∨ purgeDue v call.now = true ∨
        ∀ a, IsArtifactOf netlocOk v a → s.has a = true → call.erases netlocOk v a = false := by
  unfold PurgeAtomic
  cases hs : call.starts with
  | false =>
      rw [purge_idle hs]
      simp only [true_or, iff_true]
      intro a _ hhas hnot
      rw [hhas] at hnot
      cases hnot
  | true =>
      cases hdue : purgeDue v call.now with
      | true =>
          obtain ⟨c', hc', hget⟩ := purge_due netlocOk s hs h hp hdue
          rw [hc']
          simp only [true_or, or_true, iff_true]
          intro a _ _ _
          exact ⟨_, hget, rfl⟩
      | false =>
          rw [purge_not_due hs h hp hdue]
          simp only [Bool.true_eq_false, Bool.false_eq_true, false_or]
          refine forall_congr' fun a => imp_congr_right fun _ => imp_congr_right fun hhas => ?_
          rw [has_deleteArtifacts, hhas, Bool.true_and, Bool.not_eq_false']
          constructor
          · intro hatomic
            by_contra hne
            obtain ⟨w, hw, hpurged⟩ := hatomic (by simpa using hne)
            rw [h] at hw
            obtain rfl := Option.some.inj hw
            simp [hp] at hpurged
          · intro hkeep herase
            rw [hkeep] at herase
            cases herase

/-- A confirmed purge on the day it is due. -/
theorem purge_atomic_example :
    PurgeAtomic (fun _ => true) frozenVoice { confirm := true, now := 1000 } frozenCatalog
      frozenStorage :=
  (purge_atomic (fun _ => true) frozenVoice { confirm := true, now := 1000 } frozenCatalog
    frozenStorage getById_frozenCatalog rfl).2 (.inr (.inl (by decide)))

/-- A purge before its date deletes the audio and leaves the row. -/
theorem purge_early_not_atomic :
    ¬∀ v call c s, getById c v.id = some v → v.purgedAt = none →
      PurgeAtomic (fun _ => true) v call c s := by
  intro h
  have hatomic := h frozenVoice { confirm := true, now := 999 } frozenCatalog frozenStorage
    getById_frozenCatalog rfl _ artifact_frozenVoice (by decide)
  rw [purge_not_due (v := frozenVoice) rfl getById_frozenCatalog rfl (by decide)] at hatomic
  obtain ⟨w, hw, hpurged⟩ := hatomic (by rw [has_deleteArtifacts]; decide +kernel)
  obtain rfl := Option.some.inj (getById_frozenCatalog.symm.trans hw)
  cases hpurged

/-! ## repeating a purge -/

/-- The call leaves a tombstone of the voice. -/
def PurgeCall.scrubs (call : PurgeCall) (v : Voice) : Bool := call.starts && purgeDue v call.now

/-- A call made with storage working. -/
def PurgeCall.storageWorks (call : PurgeCall) : Bool :=
  call.starts && call.reference.deletes && call.adapter.deletes

section calls

variable {netlocOk : PyStr → Bool} {v : Voice} {a : Artifact}

/-- A call on an unpurged voice: the catalog is left alone unless the call
scrubs, and then it has the tombstone. -/
theorem purge_catalog (netlocOk : PyStr → Bool) {c : Catalog} (s : Storage) (call : PurgeCall)
    (h : getById c v.id = some v) (hp : v.purgedAt = none) :
    (call.scrubs v = false ∧ (adminPurgeVoice netlocOk v.id call c s).2.1 = c) ∨
    (call.scrubs v = true ∧ Tombstoned (adminPurgeVoice netlocOk v.id call c s).2.1 v.id) := by
  cases hs : call.starts with
  | false =>
      rw [purge_idle hs]
      exact .inl ⟨by simp [PurgeCall.scrubs, hs], rfl⟩
  | true =>
      cases hdue : purgeDue v call.now with
      | false =>
          rw [purge_not_due hs h hp hdue]
          exact .inl ⟨by simp [PurgeCall.scrubs, hdue], rfl⟩
      | true =>
          obtain ⟨c', hc', hget⟩ := purge_due netlocOk s hs h hp hdue
          rw [hc']
          exact .inr ⟨by simp [PurgeCall.scrubs, hs, hdue], _, hget, rfl⟩

/-- A call on an unpurged voice deletes what storage deletes. -/
theorem purge_storage {c : Catalog} {s : Storage} (call : PurgeCall)
    (h : getById c v.id = some v) (hp : v.purgedAt = none) :
    (adminPurgeVoice netlocOk v.id call c s).2.2.has a =
      (s.has a && !(call.starts && call.erases netlocOk v a)) := by
  cases hs : call.starts with
  | false => rw [purge_idle hs]; simp
  | true =>
      rw [Bool.true_and, ← has_deleteArtifacts]
      cases hdue : purgeDue v call.now with
      | false => rw [purge_not_due hs h hp hdue]
      | true =>
          obtain ⟨c', hc', -⟩ := purge_due netlocOk s hs h hp hdue
          rw [hc']

/-- Calls on a tombstone change nothing. -/
theorem purgeAll_tombstoned (calls : List PurgeCall) {c : Catalog} {s : Storage}
    (h : Tombstoned c v.id) : purgeAll netlocOk v.id calls c s = (c, s) := by
  obtain ⟨w, hw, hp⟩ := h
  induction calls with
  | nil => rfl
  | cons call calls ih =>
      unfold purgeAll at ih ⊢
      rw [List.foldl_cons, purge_tombstone hw hp]
      exact ih

/-- The run lemma: calls that do not delete the artifact keep it, and the
row is untouched until one of them scrubs it. -/
theorem purgeAll_keeps (netlocOk : PyStr → Bool) (calls : List PurgeCall) {c : Catalog} {s : Storage}
    (h : getById c v.id = some v) (hp : v.purgedAt = none)
    (hkeep : ∀ call ∈ calls, (call.starts && call.erases netlocOk v a) = false) :
    (purgeAll netlocOk v.id calls c s).2.has a = s.has a ∧
      (((∀ call ∈ calls, call.scrubs v = false) ∧ (purgeAll netlocOk v.id calls c s).1 = c) ∨
      ((∃ call ∈ calls, call.scrubs v = true) ∧
        Tombstoned (purgeAll netlocOk v.id calls c s).1 v.id)) := by
  induction calls generalizing s with
  | nil => exact ⟨rfl, .inl ⟨by simp, rfl⟩⟩
  | cons call calls ih =>
      have hstep : purgeAll netlocOk v.id (call :: calls) c s =
          purgeAll netlocOk v.id calls (adminPurgeVoice netlocOk v.id call c s).2.1
            (adminPurgeVoice netlocOk v.id call c s).2.2 := rfl
      have hhas : (adminPurgeVoice netlocOk v.id call c s).2.2.has a = s.has a := by
        rw [purge_storage call h hp, hkeep call (by simp)]
        simp
      rw [hstep]
      obtain ⟨hno, hc⟩ | ⟨hyes, htomb⟩ :=
        purge_catalog netlocOk s call h hp
      · rw [hc]
        obtain ⟨hkept, hrest⟩ := ih (s := (adminPurgeVoice netlocOk v.id call c s).2.2)
          fun k hk => hkeep k (List.mem_cons_of_mem _ hk)
        refine ⟨hkept.trans hhas, ?_⟩
        obtain ⟨hall, hsame⟩ | ⟨⟨k, hk, hscrub⟩, htomb⟩ := hrest
        · exact .inl ⟨by simpa [hno] using hall, hsame⟩
        · exact .inr ⟨⟨k, List.mem_cons_of_mem _ hk, hscrub⟩, htomb⟩
      · rw [purgeAll_tombstoned calls htomb]
        exact ⟨hhas, .inr ⟨⟨call, by simp, hyes⟩, htomb⟩⟩

end calls

/-- **An artifact that earlier calls failed to delete is deleted by a later
call, made with storage working, exactly when no earlier call scrubbed the
row.** -/
theorem erasure_completable (netlocOk : PyStr → Bool) (v : Voice) (a : Artifact)
    (calls : List PurgeCall) (later : PurgeCall) (c : Catalog) (s : Storage)
    (h : getById c v.id = some v) (hp : v.purgedAt = none) (ha : IsArtifactOf netlocOk v a)
    (hhas : s.has a = true)
    (hraised : ∀ call ∈ calls, (call.starts && call.erases netlocOk v a) = false)
    (hworks : later.storageWorks = true) :
    (purgeAll netlocOk v.id (calls ++ [later]) c s).2.has a = false ↔
      ∀ call ∈ calls, call.scrubs v = false := by
  have hlast : purgeAll netlocOk v.id (calls ++ [later]) c s =
      (adminPurgeVoice netlocOk v.id later (purgeAll netlocOk v.id calls c s).1
        (purgeAll netlocOk v.id calls c s).2).2 := by
    simp only [purgeAll, List.foldl_append, List.foldl_cons, List.foldl_nil]
  simp only [PurgeCall.storageWorks, Bool.and_eq_true] at hworks
  obtain ⟨hkept, hrest⟩ := purgeAll_keeps netlocOk calls (s := s) h hp hraised
  rw [hlast]
  obtain ⟨hall, hsame⟩ | ⟨⟨k, hk, hscrub⟩, w, hw, hpurged⟩ := hrest
  · have herases : later.erases netlocOk v a = true := by
      unfold PurgeCall.erases
      rw [hworks.1.2, hworks.2]
      obtain ha | ha := ha <;> simp [ha]
    rw [hsame, purge_storage later h hp, hkept, hhas, hworks.1.1, herases]
    simpa using hall
  · rw [purge_tombstone hw hpurged, hkept, hhas]
    simp only [Bool.true_eq_false, false_iff]
    intro hall
    rw [hall k hk] at hscrub
    cases hscrub

/-- A first call, not due yet, meets failing storage; a later one does
not. -/
theorem erasure_completable_example :
    (purgeAll (fun _ => true) frozenVoice.id
      [{ confirm := true, now := 999, reference := .raised "timeout" },
        { confirm := true, now := 1000 }] frozenCatalog frozenStorage).2.has
          (.file (.ofStr (py "/data/ayse.wav"))) = false :=
  (erasure_completable (fun _ => true) frozenVoice _
    [{ confirm := true, now := 999, reference := .raised "timeout" }]
    { confirm := true, now := 1000 } frozenCatalog frozenStorage getById_frozenCatalog rfl
    artifact_frozenVoice (by decide) (by decide +kernel) (by decide)).2 (by decide +kernel)

/-- A purge whose delete fails still scrubs the row, and no later call finds
the artifact again. -/
theorem failed_delete_is_final :
    ¬∀ v a calls later c s, getById c v.id = some v → v.purgedAt = none →
      IsArtifactOf (fun _ => true) v a → s.has a = true →
      (∀ call ∈ calls, (call.starts && call.erases (fun _ => true) v a) = false) →
      later.storageWorks = true →
      (purgeAll (fun _ => true) v.id (calls ++ [later]) c s).2.has a = false := by
  intro h
  have hgone := h frozenVoice _
    [{ confirm := true, now := 1000, reference := .raised "timeout" }]
    { confirm := true, now := 2000 } frozenCatalog frozenStorage getById_frozenCatalog rfl
    artifact_frozenVoice (by decide) (by decide +kernel) (by decide)
  revert hgone
  decide +kernel

end NeuroVoice
