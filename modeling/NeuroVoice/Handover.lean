import NeuroVoice.Gate
import Mathlib.Data.Prod.Lex

/-!
# NeuroVoice.Handover

From the gateway's voice to the worker's.

Only the slug of the gated voice travels with the job, and the worker looks it
up again for the job's tenant.  Whatever it uses of a voice is of the row that
this second lookup finds, and that is the gated row as long as the gated row
still comes first in the order of preference: `handover`.
-/

namespace NeuroVoice

open VoiceRepo

/-! ## the order of preference -/

/-- A row `get_accessible` can find. -/
structure Candidate (c : Catalog) (tenant : Uuid) (slug : PyStr) (v : Voice) : Prop where
  mem : v ∈ c.voices
  slug : v.voiceId = slug
  undeleted : v.deletedAt = none
  accessible : accessible c tenant v = true

/-- The query that finds the row: owned, shared, public. -/
def tier (c : Catalog) (tenant : Uuid) (v : Voice) : Nat :=
  if v.ownerTenantId = tenant then 0 else if granted c tenant v then 1 else 2

/-- By query, and within one the older row first. -/
def preference (c : Catalog) (tenant : Uuid) (v : Voice) : Nat ×ₗ Nat :=
  toLex (tier c tenant v, v.createdAt)

/-- The row with this id comes first: before every other candidate, or at
least not after one. -/
structure ComesFirst (R : Nat ×ₗ Nat → Nat ×ₗ Nat → Prop) (c : Catalog) (tenant : Uuid)
    (slug : PyStr) (id : Uuid) : Prop where
  exists_candidate : ∃ v, Candidate c tenant slug v ∧ v.id = id ∧
    ∀ w, Candidate c tenant slug w → w.id ≠ id → R (preference c tenant v) (preference c tenant w)

section preference

variable {c : Catalog} {tenant : Uuid} {slug : PyStr} {v w : Voice}

theorem preference_le :
    preference c tenant v ≤ preference c tenant w ↔
      tier c tenant v < tier c tenant w ∨
        tier c tenant v = tier c tenant w ∧ v.createdAt ≤ w.createdAt := by
  rw [preference, preference, Prod.Lex.toLex_le_toLex]

/-- The voice a tenant owns under the slug comes before the others. -/
theorem Candidate.of_owned (h : getOwned c tenant slug = some v) :
    Candidate c tenant slug v ∧
      ∀ w, Candidate c tenant slug w → preference c tenant v ≤ preference c tenant w := by
  obtain ⟨hv, howner, hslug, hdel⟩ := getOwned_eq_some h
  refine ⟨⟨hv, hslug, hdel, by simp [VoiceRepo.accessible, howner]⟩, fun w hw => preference_le.2 ?_⟩
  by_cases hown : w.ownerTenantId = tenant
  · have heq : w = v :=
      Table.eq_of_clash hw.mem hv (by simp [voices, hown, howner, hw.slug, hslug])
    rw [heq]
    exact .inr ⟨rfl, le_refl _⟩
  · refine .inl ?_
    simp only [tier, howner, if_true, hown, if_false]
    split <;> omega

/-- The tenant owns no candidate. -/
theorem Candidate.not_owned (h : Candidate c tenant slug w) (hown : getOwned c tenant slug = none) :
    w.ownerTenantId ≠ tenant := by
  intro howner
  have := Table.find?_eq_none.1 hown w h.mem
  simp [ownedBy, howner, h.slug, h.undeleted] at this

theorem mem_sharedMatches :
    v ∈ sharedMatches c tenant slug ↔
      v ∈ c.voices ∧ v.voiceId = slug ∧ granted c tenant v = true ∧ v.deletedAt = none := by
  simp [sharedMatches, List.mem_filter, and_assoc]

theorem mem_publicMatches :
    v ∈ publicMatches c slug ↔
      v ∈ c.voices ∧ v.voiceId = slug ∧ v.visibility = .pub ∧ v.deletedAt = none := by
  simp [publicMatches, List.mem_filter, and_assoc]

/-- A lookup without transactions in between. -/
theorem looked_now (h : Looked c [] tenant slug (some v)) :
    getOwned c tenant slug = some v ∨
    (getOwned c tenant slug = none ∧ First (sharedMatches c tenant slug) v) ∨
    (getOwned c tenant slug = none ∧ sharedMatches c tenant slug = [] ∧
      First (publicMatches c slug) v) := by
  obtain ⟨u, hu, hown⟩ | ⟨u, hu, hown, hshared⟩ |
    ⟨before, after, hnil, hown, hshared, ⟨hnone, -⟩ | ⟨u, hu, hpub⟩⟩ := h
  · cases hu
    exact .inl hown
  · cases hu
    exact .inr (.inl ⟨hown, hshared⟩)
  · cases hnone
  · cases hu
    obtain ⟨rfl, rfl⟩ := List.append_eq_nil_iff.1 hnil.symm
    exact .inr (.inr ⟨hown, hshared, hpub⟩)

/-- **`get_accessible` finds a candidate that comes first.** -/
theorem Looked.least (h : Looked c [] tenant slug (some v)) :
    Candidate c tenant slug v ∧
      ∀ w, Candidate c tenant slug w → preference c tenant v ≤ preference c tenant w := by
  obtain hown | ⟨hown, hshared, hfirst⟩ | ⟨hown, hnone, hpub, hfirst⟩ := looked_now h
  · exact Candidate.of_owned hown
  · obtain ⟨hv, hslug, hgrant, hdel⟩ := mem_sharedMatches.1 hshared
    have hcand : Candidate c tenant slug v := ⟨hv, hslug, hdel, by simp [accessible, hgrant]⟩
    refine ⟨hcand, fun w hw => preference_le.2 ?_⟩
    simp only [tier, hcand.not_owned hown, hw.not_owned hown, if_false, hgrant, if_true]
    by_cases hwgrant : granted c tenant w = true
    · have hle := hfirst w (mem_sharedMatches.2 ⟨hw.mem, hw.slug, hwgrant, hw.undeleted⟩)
      exact .inr ⟨by rw [if_pos hwgrant], hle⟩
    · rw [if_neg hwgrant]
      exact .inl (by omega)
  · obtain ⟨hv, hslug, hvis, hdel⟩ := mem_publicMatches.1 hpub
    have hcand : Candidate c tenant slug v := ⟨hv, hslug, hdel, by simp [accessible, hvis]⟩
    have hungranted : ∀ w, Candidate c tenant slug w → granted c tenant w = false := by
      intro w hw
      rw [Bool.eq_false_iff]
      intro hgrant
      have hmem := mem_sharedMatches.2 ⟨hw.mem, hw.slug, hgrant, hw.undeleted⟩
      rw [hnone] at hmem
      cases hmem
    refine ⟨hcand, fun w hw => preference_le.2 (.inr ⟨?_, ?_⟩)⟩
    · simp [tier, hcand.not_owned hown, hw.not_owned hown, hungranted v hcand, hungranted w hw]
    · have hwpub : w.visibility = .pub := by
        have hacc := hw.accessible
        simpa [accessible, hw.not_owned hown, hungranted w hw] using hacc
      exact hfirst w (mem_publicMatches.2 ⟨hw.mem, hw.slug, hwpub, hw.undeleted⟩)

/-- Which rows a lookup without transactions in between can find. -/
theorem Looked.id_eq (h : Looked c [] tenant slug (some w)) {id : Uuid} :
    (ComesFirst (· < ·) c tenant slug id → w.id = id) ∧
      (w.id = id → ComesFirst (· ≤ ·) c tenant slug id) := by
  obtain ⟨hcand, hleast⟩ := h.least
  constructor
  · rintro ⟨v, hv, rfl, hbefore⟩
    by_contra hne
    exact absurd (hleast v hv) (not_le_of_gt (hbefore w hcand hne))
  · rintro rfl
    exact ⟨w, hcand, rfl, fun x hx _ => hleast x hx⟩

end preference

/-! ## the text of the worker -/

/-- Awaits that concern no voice. -/
def Eff.voiceless : Eff → Prop
  | .selectVoice _ _ | .selectWatermarkKey _ | .resolveReference _ | .synthesize _ => False
  | _ => True

theorem voiceless_of_plain : ∀ e : Eff, e.plain → e.voiceless := by
  intro e h
  cases e <;> trivial

section voiceless

variable {S : Settings} {job : TtsJobPayload}

theorem voiceless_requireWatermark (attempt started : Nat) (voice : Voice) (bits : Option Nat) :
    Only Eff.voiceless (requireWatermark S job attempt started voice bits) := by
  have hload : Only Eff.voiceless (do
      if !(← await .loadApplier) then
        throw (.transientFailure ("voice " ++ S.repr (.str voice.voiceId) ++
          " requires watermark but audioseal package unavailable on this worker"))) := by
    refine Only.tick trivial fun found => ?_
    split
    · exact .raise _
    · exact .ret _
  unfold requireWatermark
  split
  · split
    · exact ((plain_poison attempt started (by decide) _ _ _).mono voiceless_of_plain).bind
        fun _ => hload
    · exact hload
  · exact .ret _

theorem voiceless_watermark (bits : Option Nat) (pcm : Pcm) (rate : Nat) :
    Only Eff.voiceless (watermark bits pcm rate) := by
  cases bits with
  | none => exact .ret _
  | some bits =>
      refine Only.tick trivial fun available => ?_
      split
      · exact .call trivial
      · exact .ret _

/-- The step lemma of the chunk loop. -/
theorem voiceless_publishOne (I : Inference) (st : Synthesis) (c : SynthChunk) :
    Only Eff.voiceless (publishOne S I st c) := by
  have hstamp : ∀ since t, Only Eff.voiceless (stampOnce since t) := fun since t =>
    (plain_stampOnce since t).mono voiceless_of_plain
  refine (hstamp _ _).bind fun t => Only.bind (.liftPy _) fun pcm => ?_
  refine (voiceless_watermark _ _ _).bind fun out => Only.bind ?_ fun _ => ?_
  · exact .tick trivial fun _ => .call trivial
  · exact (hstamp _ _).bind fun _ => .ret _

theorem voiceless_publishAll (I : Inference) (cs : List SynthChunk) (st : Synthesis) :
    Only Eff.voiceless (publishAll S I cs st) := by
  induction cs generalizing st with
  | nil => exact .ret _
  | cons c cs ih => exact (voiceless_publishOne I st c).bind fun st => ih st

theorem voiceless_archiveAudio (rid : Uuid) (attempt started rate : Nat) (st : Synthesis) :
    Only Eff.voiceless (archiveAudio S job rid attempt started rate st) := by
  have hstore : Only Eff.voiceless (storeAudio rid st.pcm rate) := by
    refine Only.bind (.exceptException (.call trivial) fun _ => .raise _) fun uri => ?_
    split
    · exact .ret _
    · exact .raise _
  have hpoison : Only Eff.voiceless (poison S job attempt started "empty_pcm"
      "empty_pcm: engine produced no PCM" st.seq
      "engine produced no PCM — nothing to archive or stream" : Py Unit) :=
    (plain_poison attempt started (by decide) _ _ _).mono voiceless_of_plain
  unfold archiveAudio
  by_cases hempty : st.pcm.isEmpty = true
  · simp only [if_pos hempty]
    split
    · exact Only.bind (.raise _) fun _ => hpoison.bind fun _ => hstore
    · exact hpoison.bind fun _ => hstore
  · simp only [if_neg hempty]
    split
    · exact Only.bind (.raise _) fun _ => hstore
    · exact hstore

end voiceless

/-- The await uses a voice. -/
def usesVoice : SocketEff → Bool
  | .io (.selectWatermarkKey _) | .io (.resolveReference _) | .io (.synthesize _) => true
  | _ => false

/-- What it uses is the voice's: its watermark key, its reference audio, or
its adapter and parameters. -/
def Uses (w : Voice) : SocketEff → Prop
  | .io (.selectWatermarkKey key) => w.watermarkKeyId = some key
  | .io (.resolveReference uri) => uri = w.referenceUri
  | .io (.synthesize r) => r.voice = voiceViewFromDb w
  | _ => True

/-- The worker looks one voice up, and uses that one. -/
def pickup (tenant : Uuid) (voiceId : Json) : Monitor SocketEff SocketAns (Option Voice) where
  possible _ _ := True
  allows
    | s, .io (.selectVoice t id) => s = none ∧ t = tenant ∧ id = voiceId
    | s, .io (.selectWatermarkKey key) => ∃ w, s = some w ∧ w.watermarkKeyId = some key
    | s, .io (.resolveReference uri) => ∃ w, s = some w ∧ uri = w.referenceUri
    | s, .io (.synthesize r) => ∃ w, s = some w ∧ r.voice = voiceViewFromDb w
    | _, _ => True
  next
    | _, .io (.selectVoice _ _), .ok found => found
    | s, _, _ => s

theorem pickup_voiceless {tenant : Uuid} {voiceId : Json} (s : Option Voice) :
    ∀ e : Eff, e.voiceless → ((pickup tenant voiceId).within .io).allows s e ∧
      ∀ a, ((pickup tenant voiceId).within .io).next s e a = s := by
  intro e h
  cases e with
  | selectVoice _ _ | selectWatermarkKey _ | resolveReference _ | synthesize _ => exact h.elim
  | _ => exact ⟨trivial, fun a => rfl⟩

instance (tenant : Uuid) (voiceId : Json) : ((pickup tenant voiceId).within .io).Quiet where
  ignores {e} h s := pickup_voiceless s e (voiceless_of_plain e h)

section picks

variable {S : Settings} {job : TtsJobPayload} {tenant : Uuid} {voice : Voice}

/-- The text uses what it has found. -/
abbrev Picks {α : Type} (tenant : Uuid) (job : TtsJobPayload) (s : Option Voice) (x : Py α)
    (Q : Option Voice → α → Prop) : Prop :=
  Goes ((pickup tenant job.voiceId).within .io) s x Q

theorem picks_lookupVoice {ids : JobIds} (htenant : ids.tenant = tenant) :
    Picks tenant job none (lookupVoice ids job) fun s r => s = r.1 := by
  refine Goes.finallyDo trivial (Goes.step ⟨rfl, htenant, rfl⟩ fun found => ?_)
  cases found with
  | none => exact (spec_pure _).2 rfl
  | some voice =>
      dsimp only
      split
      · next key hen hkey =>
          refine Goes.step ⟨voice, rfl, hkey⟩ fun bits => (spec_pure _).2 rfl
      · exact (spec_pure _).2 rfl

theorem picks_resolveVoice {ids : JobIds} (htenant : ids.tenant = tenant)
    (attempt started : Nat) :
    Picks tenant job none (resolveVoice S job ids attempt started)
      fun s r => s = some r.1 := by
  refine Goes.resolveVoice (picks_lookupVoice htenant) fun s voice bits hs => ?_
  subst hs
  exact Goes.only (voiceless_requireWatermark attempt started voice bits) (pickup_voiceless _)

theorem picks_resolveReference (attempt started : Nat) :
    Picks tenant job (some voice) (resolveReference S job attempt started voice)
      fun s _ => s = some voice :=
  Goes.resolveReference ⟨voice, rfl, rfl⟩ fun _ => rfl

theorem picks_synthesizeAll {I : Inference} {r : SynthRequest} (hr : r.voice = voiceViewFromDb voice) :
    Picks tenant job (some voice) (synthesizeAll S I r) fun _ _ => True := by
  refine Goes.handler (Goes.step ⟨voice, rfl, hr⟩ fun run => ?_)
  refine (Goes.only (voiceless_publishAll I run.chunks {}) (pickup_voiceless _)).seq
    fun s st _ => ?_
  cases run.ending <;> trivial

theorem picks_produce {ids : JobIds} (htenant : ids.tenant = tenant) (attempt started : Nat) :
    Picks tenant job none (produce S job ids attempt started) fun _ _ => True := by
  refine (picks_resolveVoice htenant attempt started).seq fun s r hs => ?_
  obtain ⟨voice, bits⟩ := r
  subst hs
  refine (picks_resolveReference attempt started).seq fun s r hs => ?_
  subst hs
  refine Goes.tick trivial fun rate => Goes.tick trivial fun since => ?_
  refine Goes.after (plain_resolvePreset attempt started) fun preset => ?_
  refine Goes.after (.liftPy _) fun settings => Goes.after (.liftPy _) fun overrides => ?_
  exact (picks_synthesizeAll rfl).seq fun s st _ => Goes.tick trivial fun now => trivial

/-- The identifiers of a job that was put on the stream for a tenant. -/
theorem picks_ids (htenant : job.tenantId = .str (uuidStr tenant)) :
    Picks tenant job none (liftPy job.ids) fun s ids => s = none ∧ ids.tenant = tenant := by
  unfold TtsJobPayload.ids
  rw [htenant]
  cases job.requestId.toUuid with
  | error x => exact trivial
  | ok rid =>
      have hparse : (Json.str (uuidStr tenant)).toUuid = .ok tenant := by
        simp [Json.toUuid, parseUuid_uuidStr]
      rw [hparse]
      cases job.apiKeyId.toUuid with
      | error x => exact trivial
      | ok apiKey => exact ⟨rfl, rfl⟩

/-- **The text of the worker uses one voice**, found for the job's tenant and
slug. -/
theorem picks_processOneJob (htenant : job.tenantId = .str (uuidStr tenant))
    (workerPickupMs : Option Nat) (attempt : Nat) :
    Picks tenant job none (processOneJob S job workerPickupMs attempt) fun _ _ => True := by
  refine (picks_ids htenant).seq fun s ids hids => ?_
  obtain ⟨rfl, hids⟩ := hids
  refine Goes.tick trivial fun wall => Goes.tick trivial fun started => ?_
  refine Goes.tick trivial fun _ => (picks_produce hids attempt started).seq fun s p _ => ?_
  refine (Goes.only (voiceless_archiveAudio _ _ _ _ _) (pickup_voiceless _)).seq fun s' uri _ => ?_
  refine Goes.tick trivial fun now => Goes.after (.liftPy _) fun inputs => ?_
  refine Goes.after (plain_commitSuccess _ _ _) fun _ => ?_
  exact Goes.done (Only.exceptException (plain_xaddResult rfl) fun _ => .raise _)

end picks

/-! ## what the gateway has gated -/

/-- What the gateway's awaits so far show of a voice: it was resolved, it is
active, and an active consent was found for it. -/
structure Admitted (past : List Moment) (v : Voice) : Prop where
  resolved : ∃ t ∈ past, t.resolves = some v
  active : lifecycleState v = "active"
  consented : ∃ t ∈ past, t.answered = ⟨.io (.selectConsent v.id), .ok true⟩

/-- What a stage of the gate stands for. -/
def Shows (past : List Moment) : GateStage → Prop
  | .start => ∀ t ∈ past, t.resolves = none
  | .found v => (∃ t ∈ past, t.resolves = some v) ∧ ∀ t ∈ past, ∀ w, t.resolves = some w → w = v
  | .through v => Admitted past v ∧ ∀ t ∈ past, ∀ w, t.resolves = some w → w = v

section gateway

variable {tenant : Uuid} {past : List Moment} {s : GateStage} {t : Moment} {v w : Voice}

theorem Admitted.mono (h : Admitted past v) : Admitted (past ++ [t]) v := by
  obtain ⟨⟨u, hu, hres⟩, hactive, u', hu', hans⟩ := h
  exact ⟨⟨u, List.mem_append_left _ hu, hres⟩, hactive, u', List.mem_append_left _ hu', hans⟩

theorem mem_resolves_append (hres : t.resolves = none) {P : Voice → Prop}
    (h : ∀ u ∈ past, ∀ w, u.resolves = some w → P w) :
    ∀ u ∈ past ++ [t], ∀ w, u.resolves = some w → P w := by
  intro u hu w hw
  obtain hu | hu := List.mem_append.1 hu
  · exact h u hu w hw
  · rw [List.mem_singleton.1 hu, hres] at hw
    cases hw

/-- An await that resolves nothing. -/
theorem Shows.append (h : Shows past s) (hres : t.resolves = none) : Shows (past ++ [t]) s := by
  cases s with
  | start =>
      intro u hu
      obtain hu | hu := List.mem_append.1 hu
      · exact h u hu
      · rw [List.mem_singleton.1 hu, hres]
  | found v =>
      obtain ⟨⟨u, hu, hv⟩, honly⟩ := h
      exact ⟨⟨u, List.mem_append_left _ hu, hv⟩, mem_resolves_append hres honly⟩
  | through v => exact ⟨h.1.mono, mem_resolves_append hres h.2⟩

/-- The step lemma. -/
theorem Shows.step (h : Shows past s) (hal : s.allows tenant t.eff) :
    Shows (past ++ [t]) (s.next t.eff t.ans) := by
  obtain ⟨before, during, e, a⟩ := t
  cases e with
  | io e =>
      cases e with
      | selectVoice tenant' voiceId =>
          obtain rfl : s = .start := hal
          cases a with
          | error x => exact h.append rfl
          | ok found =>
              cases found with
              | none => exact h.append rfl
              | some v =>
                  refine ⟨⟨_, List.mem_append_right _ (List.mem_singleton.2 rfl), rfl⟩, ?_⟩
                  intro u hu w hw
                  obtain hu | hu := List.mem_append.1 hu
                  · rw [h u hu] at hw
                    cases hw
                  · rw [List.mem_singleton.1 hu] at hw
                    exact (Option.some.inj hw).symm
      | selectConsent id =>
          have hkeep := h.append (t := ⟨before, during, .io (.selectConsent id), a⟩) rfl
          cases a with
          | error x => exact hkeep
          | ok found =>
              cases found with
              | false => exact hkeep
              | true =>
                  cases s with
                  | start => exact hkeep
                  | through v => exact hkeep
                  | found v =>
                      simp only [GateStage.next, GateStage.consented]
                      split
                      · next hgate =>
                          obtain ⟨rfl, hactive⟩ := hgate
                          have hseen : ∃ t ∈ past ++ [⟨before, during, .io (.selectConsent v.id),
                              .ok true⟩], Await.answered t =
                                ⟨.io (.selectConsent v.id), .ok true⟩ :=
                            ⟨_, List.mem_append_right _ (List.mem_singleton.2 rfl), rfl⟩
                          exact ⟨⟨hkeep.1, hactive, hseen⟩, hkeep.2⟩
                      · exact hkeep
      | _ => exact h.append rfl
  | _ => exact h.append rfl

/-- **A job that is added is of the one voice that was gated.** -/
theorem admitted_of_xaddJob {S : SocketSettings} {ctx : AuthContext} {surface : Surface}
    {c : Catalog} {rest : List Moment} {job : TtsJobPayload}
    (hrun : Amid (surface.handler S ctx) c (past ++ t :: rest)) (ht : t.eff = .io (.xaddJob job)) :
    ∃ v, (∀ w, Admitted past w ↔ w = v) ∧ job.tenantId = .str (uuidStr ctx.tenantId) ∧
      job.voiceId = .str v.voiceId := by
  have halong : Along (fun past t => past ++ [t]) (fun past t => ∃ s, Shows past s ∧
      s.allows ctx.tenantId t.eff) [] (past ++ t :: rest) := by
    have hnone : Shows [] .start := fun u hu => by cases hu
    exact (gatesOn_handler surface).along (P := fun _ _ => True)
      (fun past s t h _ hal => h.step hal) (fun _ _ => trivial) hrun.emits
      (.of_forall fun _ _ => trivial) hnone
  obtain ⟨s, hs, hal⟩ := halong.get
  have hpast : past.foldl (fun past t => past ++ [t]) [] = past := by simp [← List.flatMap_def]
  rw [hpast] at hs
  rw [ht] at hal
  cases s with
  | start => exact hal.elim
  | found v => exact hal.elim
  | through v =>
      refine ⟨v, fun w => ⟨fun hw => ?_, fun hw => hw ▸ hs.1⟩, hal.1, hal.2⟩
      obtain ⟨u, hu, hres⟩ := hw.resolved
      exact hs.2 u hu w hres

end gateway

/-! ## what the worker picks up -/

/-- What is known of a worker's run: the catalog now, and the voice it has
found, with the catalog at the start of the lookup and what was committed
during it. -/
structure PickupNotes where
  catalog : Catalog
  found : Option (Voice × Catalog × List Transaction) := none

/-- The notes after an await. -/
def PickupNotes.take (g : PickupNotes) (t : Moment) : PickupNotes where
  catalog := t.stop g.catalog
  found := match t.resolves with
    | some v => some (v, g.catalog.commitAll t.before, t.during)
    | none => g.found

/-- The voice an await uses is one voice's, the one that the lookup for the
tenant and the slug of `v` has found; and when nothing was committed during that
lookup, it is `v`'s row as long as `v`'s row comes first. -/
def UsesInPlaceOf (tenant : Uuid) (v : Voice) (g : PickupNotes) (t : Moment) : Prop :=
  usesVoice t.eff = true → ∃ w c during, g.found = some (w, c, during) ∧ Uses w t.eff ∧
    Looked c during tenant v.voiceId (some w) ∧
    (during = [] → (ComesFirst (· < ·) c tenant v.voiceId v.id → w.id = v.id) ∧
      (w.id = v.id → ComesFirst (· ≤ ·) c tenant v.voiceId v.id))

/-- The invariant of a worker's run. -/
structure Holding (tenant : Uuid) (slug : PyStr) (g : PickupNotes) (s : Option Voice) : Prop where
  same : s = g.found.map Prod.fst
  looked : ∀ w c during, g.found = some (w, c, during) → Looked c during tenant slug (some w)

section worker

variable {tenant : Uuid} {slug : PyStr} {g : PickupNotes} {s : Option Voice} {t : Moment}

/-- The step lemma. -/
theorem Holding.step (h : Holding tenant slug g s) (hans : t.answeredBy g.catalog)
    (hal : (pickup tenant (.str slug)).allows s t.eff) :
    Holding tenant slug (g.take t) ((pickup tenant (.str slug)).next s t.eff t.ans) := by
  obtain ⟨before, during, e, a⟩ := t
  cases e with
  | io e =>
      cases e with
      | selectVoice tenant' voiceId =>
          obtain ⟨rfl, rfl, rfl⟩ := hal
          cases a with
          | error x => exact ⟨h.same, h.looked⟩
          | ok found =>
              cases found with
              | none => exact ⟨h.same, h.looked⟩
              | some w =>
                  refine ⟨rfl, fun w' c' during' heq => ?_⟩
                  cases heq
                  exact hans
      | _ => exact ⟨h.same, h.looked⟩
  | _ => exact ⟨h.same, h.looked⟩

/-- What an allowed await uses. -/
theorem Holding.uses {v : Voice} (h : Holding tenant v.voiceId g s)
    (hal : (pickup tenant (.str v.voiceId)).allows s t.eff) : UsesInPlaceOf tenant v g t := by
  intro huse
  have hfound : ∀ w, s = some w → ∃ c during, g.found = some (w, c, during) := by
    intro w hw
    obtain ⟨⟨w', c, during⟩, hfound, rfl⟩ := Option.map_eq_some_iff.1 (h.same.symm.trans hw)
    exact ⟨c, during, hfound⟩
  have hwhole : ∀ w, s = some w → Uses w t.eff → ∃ w c during, g.found = some (w, c, during) ∧
      Uses w t.eff ∧ Looked c during tenant v.voiceId (some w) ∧
      (during = [] → (ComesFirst (· < ·) c tenant v.voiceId v.id → w.id = v.id) ∧
        (w.id = v.id → ComesFirst (· ≤ ·) c tenant v.voiceId v.id)) := by
    intro w hw hwuse
    obtain ⟨c, during, hfound⟩ := hfound w hw
    have hlooked := h.looked w c during hfound
    refine ⟨w, c, during, hfound, hwuse, hlooked, fun hnil => ?_⟩
    subst hnil
    exact hlooked.id_eq
  obtain ⟨before, during, e, a⟩ := t
  cases e with
  | io e =>
      cases e with
      | selectWatermarkKey key =>
          obtain ⟨w, hw, hkey⟩ := hal
          exact hwhole w hw hkey
      | resolveReference uri =>
          obtain ⟨w, hw, huri⟩ := hal
          exact hwhole w hw huri
      | synthesize r =>
          obtain ⟨w, hw, hr⟩ := hal
          exact hwhole w hw hr
      | _ => cases huse
  | _ => cases huse

/-- The run lemma of the worker. -/
theorem uses_along {W : Settings} {job : TtsJobPayload} {workerPickupMs : Option Nat}
    {attempt : Nat} {c : Catalog} {v : Voice} {ts : List Moment}
    (hrun : Amid (io (processOneJob W job workerPickupMs attempt)) c ts)
    (htenant : job.tenantId = .str (uuidStr tenant)) (hvoice : job.voiceId = .str v.voiceId) :
    Along PickupNotes.take (UsesInPlaceOf tenant v) ⟨c, none⟩ ts := by
  have hanswered : Along PickupNotes.take _ ⟨c, none⟩ ts :=
    Along.of_part PickupNotes.catalog (fun _ _ => rfl) hrun.answered
  have htext := picks_processOneJob (S := W) htenant workerPickupMs attempt
  rw [Picks, hvoice] at htext
  have hsocket : Spec (pickup tenant (.str v.voiceId)) none
      (io (processOneJob W job workerPickupMs attempt)) (fun _ _ => True) fun _ _ => True :=
    conforms_embed.2 htext
  have hstart : Holding tenant v.voiceId ⟨c, none⟩ none :=
    ⟨rfl, fun _ _ _ hfound => by cases hfound⟩
  have halong := hsocket.along (fun g s t h ht hal => h.step ht hal) (fun _ _ => trivial)
    hrun.emits hanswered hstart
  exact halong.mono fun g t ⟨s, h, hal⟩ => h.uses hal

end worker

/-- The catalog after a run. -/
def Catalog.beyond (c : Catalog) (ts : List Moment) : Catalog := ts.foldl (fun c t => t.stop c) c

/-- **The worker uses the row that comes first.**  For a job that a handler
puts on the stream, and any transactions up to the pickup and during it. -/
theorem handover (S : SocketSettings) (ctx : AuthContext) (surface : Surface) (c : Catalog)
    (past : List Moment) (t : Moment) (rest : List Moment) (job job' : TtsJobPayload)
    (txs : List Transaction) (W : Settings) (workerPickupMs : Option Nat) (attempt : Nat)
    (ts : List Moment) (hgateway : Amid (surface.handler S ctx) c (past ++ t :: rest))
    (hadd : t.eff = .io (.xaddJob job)) (hdecode : TtsJobPayload.decode job.encode = .ok job')
    (hworker : Amid (io (processOneJob W job' workerPickupMs attempt))
      ((c.beyond (past ++ [t])).commitAll txs) ts) :
    ∃ v, (∀ w, Admitted past w ↔ w = v) ∧
      Along PickupNotes.take (UsesInPlaceOf ctx.tenantId v)
        ⟨(c.beyond (past ++ [t])).commitAll txs, none⟩ ts := by
  obtain ⟨v, hv, htenant, hvoice⟩ := admitted_of_xaddJob hgateway hadd
  rw [TtsJobPayload.decode_encode] at hdecode
  cases hdecode
  exact ⟨v, hv, uses_along hworker htenant hvoice⟩

/-! ## one job -/

/-- The job that an await adds. -/
def jobOf : SocketEff → Option TtsJobPayload
  | .io (.xaddJob job) => some job
  | _ => none

theorem eq_xaddJob_of_jobOf {e : SocketEff} {job : TtsJobPayload} (h : jobOf e = some job) :
    e = .io (.xaddJob job) := by
  unfold jobOf at h
  split at h
  · rw [Option.some.inj h]
  · cases h

/-- A run, split at a job that it adds. -/
theorem split_of_jobOf {ts : List Moment} {n : Nat} {job : TtsJobPayload}
    (h : (ts[n]?.bind fun t => jobOf t.eff) = some job) :
    ∃ t, ts = ts.take n ++ t :: ts.drop (n + 1) ∧ t.eff = .io (.xaddJob job) := by
  obtain ⟨t, ht, hjob⟩ := Option.bind_eq_some_iff.1 h
  obtain ⟨hlt, rfl⟩ := List.getElem?_eq_some_iff.1 ht
  refine ⟨ts[n], ?_, eq_xaddJob_of_jobOf hjob⟩
  rw [← List.drop_eq_getElem_cons hlt, List.take_append_drop]

/-- A public voice of tenant 1. -/
def publicAyse : Voice := { ayse with visibility := .pub }

/-- The catalog with it and its consent. -/
def publicCatalog : Catalog :=
  { Catalog.sole publicAyse (by decide +kernel) with consents := ayseConsents }

/-- Tenant 2 asks for it. -/
def asksForAyse : Surface :=
  .jobs { idempotencyKey := some (uuidStr 9) } { text := py "Merhaba.", voiceId := py "ayse" }

/-- The awaits of the request, up to the `XADD`. -/
def ayseRequest : List Moment :=
  attend oneMessage (List.replicate 11 []) publicCatalog
    (asksForAyse.handler plainSocket ⟨2, 5⟩).run

/-- Tenant 2 creates its own voice under the same slug. -/
def createsAyse : Transaction := [.create 2 8 5 sampleVoice]

/-- The job of the request. -/
def ayseJob : TtsJobPayload :=
  (ayseRequest[10]?.bind fun t => jobOf t.eff).get (by decide +kernel)

/-- The request, split at the `XADD` of its job. -/
theorem ayseRequest_split : ∃ t, ayseRequest = ayseRequest.take 10 ++ t :: [] ∧
    t.eff = .io (.xaddJob ayseJob) ∧ publicCatalog.beyond (ayseRequest.take 10 ++ [t]) =
      publicCatalog.beyond ayseRequest := by
  have hlen : ayseRequest.length = 11 := by decide +kernel
  have hdrop : ayseRequest.drop 11 = [] := List.drop_eq_nil_of_le (by omega)
  obtain ⟨t, hsplit, hjob⟩ := split_of_jobOf (Option.some_get _).symm
  rw [hdrop] at hsplit
  exact ⟨t, hsplit, hjob, by rw [← hsplit]⟩

/-- The awaits of the worker that picks the job up, after these
transactions. -/
def aysePickup (txs : List Transaction) : List Moment :=
  attend oneMessage (List.replicate 10 []) ((publicCatalog.beyond ayseRequest).commitAll txs)
    (io (processOneJob plain ayseJob none 1)).run

/-- A voice is used. -/
def usesSome (ts : List Moment) : Bool := ts.any fun t => usesVoice t.eff

/-- Nobody changes anything. -/
theorem handover_example : usesSome (aysePickup []) = true ∧
    ∃ v, (∀ w, Admitted (ayseRequest.take 10) w ↔ w = v) ∧
      Along PickupNotes.take (UsesInPlaceOf 2 v)
        ⟨(publicCatalog.beyond ayseRequest).commitAll [], none⟩ (aysePickup []) := by
  obtain ⟨t, hsplit, hjob, hbeyond⟩ := ayseRequest_split
  have hgateway : Amid (asksForAyse.handler plainSocket ⟨2, 5⟩) publicCatalog
      (ayseRequest.take 10 ++ t :: []) := by
    rw [← hsplit]
    exact amid_attend _ _ _ _
  have hworker : Amid (io (processOneJob plain ayseJob none 1))
      ((publicCatalog.beyond (ayseRequest.take 10 ++ [t])).commitAll []) (aysePickup []) := by
    rw [hbeyond]
    exact amid_attend _ _ _ _
  refine ⟨by decide +kernel, ?_⟩
  rw [← hbeyond]
  exact handover plainSocket ⟨2, 5⟩ asksForAyse publicCatalog _ t [] ayseJob ayseJob [] plain none
    1 _ hgateway hjob (TtsJobPayload.decode_encode _) hworker

/-- What a worker uses is the gated row's. -/
def UsesRow (v : Voice) (g : PickupNotes) (t : Moment) : Prop :=
  usesVoice t.eff = true → ∃ w c during, g.found = some (w, c, during) ∧ Uses w t.eff ∧
    w.id = v.id

/-- The id of the voice that an await uses. -/
def UsesId (id : Uuid) (g : PickupNotes) (t : Moment) : Prop :=
  usesVoice t.eff = true → g.found.map (fun r => r.1.id) = some id

instance (id : Uuid) (g : PickupNotes) (t : Moment) : Decidable (UsesId id g t) :=
  inferInstanceAs (Decidable (_ → _))

/-- A voice created between the request and the pickup is used instead. -/
theorem newer_voice_used :
    ¬∀ (S : SocketSettings) (ctx : AuthContext) (surface : Surface) (c : Catalog)
      (past : List Moment) (t : Moment) (rest : List Moment) (job job' : TtsJobPayload)
      (txs : List Transaction) (W : Settings) (workerPickupMs : Option Nat) (attempt : Nat)
      (ts : List Moment), Amid (surface.handler S ctx) c (past ++ t :: rest) →
      t.eff = .io (.xaddJob job) → TtsJobPayload.decode job.encode = .ok job' →
      Amid (io (processOneJob W job' workerPickupMs attempt))
        ((c.beyond (past ++ [t])).commitAll txs) ts →
      ∃ v, Admitted past v ∧
        Along PickupNotes.take (UsesRow v) ⟨(c.beyond (past ++ [t])).commitAll txs, none⟩ ts := by
  intro h
  obtain ⟨t, hsplit, hjob, hbeyond⟩ := ayseRequest_split
  have hgateway : Amid (asksForAyse.handler plainSocket ⟨2, 5⟩) publicCatalog
      (ayseRequest.take 10 ++ t :: []) := by
    rw [← hsplit]
    exact amid_attend _ _ _ _
  have hworker : Amid (io (processOneJob plain ayseJob none 1))
      ((publicCatalog.beyond (ayseRequest.take 10 ++ [t])).commitAll [createsAyse])
      (aysePickup [createsAyse]) := by
    rw [hbeyond]
    exact amid_attend _ _ _ _
  obtain ⟨v, hv, halong⟩ := h plainSocket ⟨2, 5⟩ asksForAyse publicCatalog _ t [] ayseJob ayseJob
    [createsAyse] plain none 1 _ hgateway hjob (TtsJobPayload.decode_encode _) hworker
  have hid : v.id = 7 := by
    have hall : (ayseRequest.take 10).all (fun t => t.resolves.all fun w => w.id == 7) = true := by
      decide +kernel
    obtain ⟨u, hu, hres⟩ := hv.resolved
    have hseven := List.all_eq_true.1 hall u hu
    rw [hres] at hseven
    exact eq_of_beq hseven
  rw [hbeyond] at halong
  have huses : Along PickupNotes.take (UsesId 7)
      ⟨(publicCatalog.beyond ayseRequest).commitAll [createsAyse], none⟩
      (aysePickup [createsAyse]) := by
    refine halong.mono fun g t huse hvoice => ?_
    obtain ⟨w, c, during, hfound, -, hw⟩ := huse hvoice
    rw [hfound, Option.map_some, hw, hid]
  exact absurd huses (by decide +kernel)

end NeuroVoice
