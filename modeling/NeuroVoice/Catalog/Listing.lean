import NeuroVoice.Amid
import NeuroVoice.Lib.OrderBy
import Mathlib.Data.List.Lex

/-!
# NeuroVoice.Catalog.Listing

`GET /v1/voices`, `list_accessible` and `get_accessible` on an unchanged
catalog.

`list_accessible` orders by the slug alone, and a slug is unique per owner
only.  So an owner's voices are not in front, and where two voices share a slug
neither their order nor the one that the resolver picks is fixed:
`listing_agrees`.
-/

namespace NeuroVoice

open VoiceRepo

/-! ## listing and resolving -/

/-- The database's order of text: deterministic collations tie on equal texts
only. -/
structure Collation where
  le : PyStr → PyStr → Bool
  isOrder : IsOrder le
  antisymm : ∀ s t, le s t = true → le t s = true → s = t

/-- `ORDER BY voice_id`. -/
def Collation.bySlug (C : Collation) (v w : Voice) : Bool := C.le v.voiceId w.voiceId

/-- The rows of `list_accessible`. -/
def listed (c : Catalog) (tenant : Uuid) : List Voice :=
  c.voices.rows.filter fun v => accessible c tenant v && v.deletedAt.isNone

/-- An answer of `list_accessible`. -/
abbrev Lists (C : Collation) (c : Catalog) (tenant : Uuid) (vs : List Voice) : Prop :=
  OrderedBy C.bySlug (listed c tenant) vs

/-- An answer of `get_accessible`, with no transaction between its
statements. -/
abbrev Resolves (c : Catalog) (tenant : Uuid) (slug : PyStr) (found : Option Voice) : Prop :=
  Looked c [] tenant slug found

/-- A `VoiceListResponse`. -/
structure VoicePage where
  voices : List Voice
  count : Nat
  limit : Int
  offset : Int
  total : Nat

/-- `list_voices`, with the answer of `list_accessible`. -/
def listVoices (limit offset : Int) (allAccessible : List Voice) : Except Exn VoicePage :=
  if limit < 1 ∨ limit > 200 then .error (.http 400 "limit must be in [1, 200]")
  else if offset < 0 then .error (.http 400 "offset must be >= 0")
  else
    let page := (allAccessible.drop offset.toNat).take limit.toNat
    .ok { voices := page, count := page.length, limit, offset, total := allAccessible.length }

/-- What a client reads from its `k`th page on: it goes on until a page has
fewer than `limit` voices.  `answers k` is the database's answer for the `k`th
page. -/
inductive Reads (limit : Nat) (answers : Nat → List Voice) : Nat → List Voice → Prop where
  | last {k page} (h : listVoices limit ((k * limit : Nat) : Int) (answers k) = .ok page)
      (hshort : page.count < limit) : Reads limit answers k page.voices
  | more {k page rest} (h : listVoices limit ((k * limit : Nat) : Int) (answers k) = .ok page)
      (hfull : limit ≤ page.count) (hrest : Reads limit answers (k + 1) rest) :
      Reads limit answers k (page.voices ++ rest)

/-! ## the law -/

section law

variable (C : Collation) (c : Catalog) (tenant : Uuid)

/-- The viewer's own voices by slug, then the others by slug. -/
def OwnFirst (vs : List Voice) : Prop :=
  ∃ own others, vs = own ++ others ∧
    (∀ v ∈ own, v.ownerTenantId = tenant) ∧ (∀ v ∈ others, v.ownerTenantId ≠ tenant) ∧
    (own.Pairwise fun v w => C.bySlug v w = true) ∧
    others.Pairwise fun v w => C.bySlug v w = true

/-- Listing, resolving and paging agree, however the database orders. -/
structure ListingAgrees : Prop where
  ordered : ∀ vs, Lists C c tenant vs → OwnFirst C tenant vs
  resolved : ∀ vs slug found, Lists C c tenant vs → Resolves c tenant slug found →
    found = vs.find? fun v => v.voiceId == slug
  paged : ∀ (limit : Nat) (answers : Nat → List Voice), 1 ≤ limit → limit ≤ 200 →
    (∀ k, Lists C c tenant (answers k)) →
    ∃ vs, Reads limit answers 0 vs ∧ vs.Perm (listed c tenant)

/-- Each listed slug is of one listed voice, and the viewer's own slugs come
before the others'. -/
structure SlugsApart : Prop where
  distinct : ∀ v ∈ listed c tenant, ∀ w ∈ listed c tenant, v.voiceId = w.voiceId → v = w
  ownBefore : ∀ v ∈ listed c tenant, ∀ w ∈ listed c tenant, v.ownerTenantId = tenant →
    w.ownerTenantId ≠ tenant → C.bySlug w v = false

end law

/-! ## what is listed -/

section listing

variable {C : Collation} {c : Catalog} {tenant : Uuid} {slug : PyStr}

theorem mem_listed {v : Voice} :
    v ∈ listed c tenant ↔ v ∈ c.voices ∧ accessible c tenant v = true ∧ v.deletedAt = none := by
  simp [listed, List.mem_filter]

theorem isOrder_bySlug (C : Collation) : IsOrder C.bySlug where
  total v w := C.isOrder.total v.voiceId w.voiceId
  trans u v w := C.isOrder.trans u.voiceId v.voiceId w.voiceId

/-- The list of `list_accessible` is one of its answers. -/
theorem lists_listAccessible (C : Collation) (c : Catalog) (tenant : Uuid) :
    Lists C c tenant (listAccessible C.le c tenant false) :=
  OrderedBy.mergeSort (isOrder_bySlug C) (listed c tenant)

/-- Only listed voices resolve. -/
theorem Looked.listed {v : Voice} (h : Resolves c tenant slug (some v)) :
    v ∈ NeuroVoice.listed c tenant ∧ v.voiceId = slug := by
  rw [mem_listed]
  obtain ⟨w, hw, hown⟩ | ⟨w, hw, -, hshared, -⟩ | ⟨_, _, -, -, -, ⟨hnone, -⟩ | ⟨w, hw, hpub, -⟩⟩ := h
  · obtain rfl := Option.some.inj hw
    obtain ⟨hv, howner, hslug, hdeleted⟩ := getOwned_eq_some hown
    exact ⟨⟨hv, by simp [accessible, howner], hdeleted⟩, hslug⟩
  · obtain rfl := Option.some.inj hw
    obtain ⟨hv, hcond⟩ := List.mem_filter.1 hshared
    simp only [Bool.and_eq_true, beq_iff_eq, Option.isNone_iff_eq_none] at hcond
    have hgranted : granted c tenant v = true := hcond.1.2
    exact ⟨⟨hv, by simp [accessible, hgranted], hcond.2⟩, hcond.1.1⟩
  · cases hnone
  · obtain rfl := Option.some.inj hw
    obtain ⟨hv, hcond⟩ := List.mem_filter.1 hpub
    simp only [Bool.and_eq_true, beq_iff_eq, Option.isNone_iff_eq_none] at hcond
    exact ⟨⟨hv, by simp [accessible, hcond.1.2], hcond.2⟩, hcond.1.1⟩

/-- A slug that does not resolve is not listed. -/
theorem Looked.not_listed (h : Resolves c tenant slug none) {v : Voice}
    (hv : v ∈ NeuroVoice.listed c tenant) : v.voiceId ≠ slug := by
  rintro rfl
  obtain ⟨hv, haccessible, hdeleted⟩ := mem_listed.1 hv
  obtain ⟨w, hw, -⟩ | ⟨w, hw, -⟩ | ⟨front, rest, hnil, hown, hshared, ⟨-, hpublic⟩ | ⟨w, hw, -⟩⟩ := h
  · cases hw
  · cases hw
  · obtain ⟨rfl, rfl⟩ := List.append_eq_nil_iff.1 hnil.symm
    simp only [accessible, Bool.or_eq_true, beq_iff_eq] at haccessible
    obtain (howner | hpub) | hgranted := haccessible
    · have hmiss := Table.find?_eq_none.1 hown v hv
      simp [ownedBy, howner, hdeleted] at hmiss
    · exact List.eq_nil_iff_forall_not_mem.1 hpublic v
        (List.mem_filter.2 ⟨hv, by simp [hpub, hdeleted]⟩)
    · have hmatch : v ∈ sharedMatches c tenant v.voiceId :=
        List.mem_filter.2 ⟨hv, by simp [hgranted, hdeleted]⟩
      exact List.eq_nil_iff_forall_not_mem.1 hshared v hmatch
  · cases hw

/-- A full page. -/
theorem listVoices_page {limit k : Nat} (hlow : 1 ≤ limit) (hhigh : limit ≤ 200)
    (vs : List Voice) :
    ∃ page, listVoices limit ((k * limit : Nat) : Int) vs = .ok page ∧
      page.voices = (vs.drop (k * limit)).take limit ∧ page.count = page.voices.length := by
  unfold listVoices
  rw [if_neg (by omega), if_neg (by omega)]
  exact ⟨_, rfl, rfl, rfl⟩

/-- Pages of one list are that list. -/
theorem reads_drop {limit : Nat} (hlow : 1 ≤ limit) (hhigh : limit ≤ 200) {vs : List Voice}
    {answers : Nat → List Voice} (hsame : ∀ k, answers k = vs) (k : Nat) :
    Reads limit answers k (vs.drop (k * limit)) := by
  obtain ⟨page, hpage, hvoices, hcount⟩ := listVoices_page (k := k) hlow hhigh vs
  have hpage := hsame k ▸ hpage
  by_cases hshort : page.count < limit
  · have hall : page.voices = vs.drop (k * limit) := by
      rw [hvoices]
      refine List.take_of_length_le ?_
      rw [hcount, hvoices, List.length_take] at hshort
      omega
    exact hall ▸ .last hpage hshort
  · have hrest := reads_drop hlow hhigh hsame (k + 1)
    have hsplit : vs.drop (k * limit) = page.voices ++ vs.drop ((k + 1) * limit) := by
      rw [hvoices, Nat.succ_mul, ← List.drop_drop, List.take_append_drop]
    rw [hsplit]
    exact .more hpage (Nat.le_of_not_lt hshort) hrest
termination_by vs.length - k * limit
decreasing_by
  rw [hcount, hvoices, List.length_take, List.length_drop] at hshort
  rw [Nat.succ_mul]
  omega

end listing

/-! ## the law holds exactly for slugs that are apart -/

section agrees

variable {C : Collation} {c : Catalog} {tenant : Uuid}

/-- Then there is one answer. -/
theorem SlugsApart.unique (h : SlugsApart C c tenant) {vs ws : List Voice}
    (hvs : Lists C c tenant vs) (hws : Lists C c tenant ws) : vs = ws :=
  OrderedBy.unique
    (fun v hv w hw hvw hwv => h.distinct v hv w hw (C.antisymm _ _ hvw hwv)) hvs hws

/-- The answer has the viewer's own voices in front. -/
theorem SlugsApart.ownFirst (h : SlugsApart C c tenant) {vs : List Voice}
    (hvs : Lists C c tenant vs) : OwnFirst C tenant vs := by
  let mine : Voice → Bool := fun v => v.ownerTenantId == tenant
  have hgrouped : Lists C c tenant (vs.filter mine ++ vs.filter fun v => !mine v) := by
    refine ⟨(List.filter_append_perm mine vs).trans hvs.perm, List.pairwise_append.2
      ⟨hvs.sorted.filter _, hvs.sorted.filter _, fun v hv w hw => ?_⟩⟩
    obtain ⟨hv, hmine⟩ := List.mem_filter.1 hv
    obtain ⟨hw, hother⟩ := List.mem_filter.1 hw
    have hbefore := h.ownBefore v (hvs.mem.1 hv) w (hvs.mem.1 hw) (by simpa [mine] using hmine)
      (by simpa [mine] using hother)
    obtain hle | hle := (isOrder_bySlug C).total v w
    · exact hle
    · rw [hbefore] at hle
      cases hle
  refine ⟨vs.filter mine, vs.filter fun v => !mine v, h.unique hvs hgrouped,
    fun v hv => by simpa [mine] using (List.mem_filter.1 hv).2,
    fun v hv => by simpa [mine] using (List.mem_filter.1 hv).2,
    hvs.sorted.filter _, hvs.sorted.filter _⟩

/-- An owner's voice that ties with another's, or comes after it, can be
listed after it. -/
theorem ownBefore_of_ordered (h : ∀ vs, Lists C c tenant vs → OwnFirst C tenant vs) :
    ∀ v ∈ listed c tenant, ∀ w ∈ listed c tenant, v.ownerTenantId = tenant →
      w.ownerTenantId ≠ tenant → C.bySlug w v = false := by
  intro v hv w hw hmine hother
  by_contra hafter
  have hafter := (Bool.not_eq_false _).mp hafter
  obtain ⟨vs, hvs, hfavors⟩ := OrderedBy.exists_favoring (isOrder_bySlug C) (listed c tenant)
    fun v => v.ownerTenantId != tenant
  obtain ⟨own, others, rfl, hown, hothers, -, -⟩ := h vs hvs
  have hvmem : v ∈ own := by
    obtain hv | hv := List.mem_append.1 (hvs.mem.2 hv)
    · exact hv
    · exact absurd hmine (hothers v hv)
  have hwmem : w ∈ others := by
    obtain hw | hw := List.mem_append.1 (hvs.mem.2 hw)
    · exact absurd (hown w hw) hother
    · exact hw
  have hpair := (List.pairwise_append.1 hfavors).2.2 v hvmem w hwmem hafter (by simpa using hother)
  simp [hmine] at hpair

/-- Of two listed voices with one slug either can be listed first, and the
resolver picks one. -/
theorem distinct_of_resolved (h : ∀ vs slug found, Lists C c tenant vs →
      Resolves c tenant slug found → found = vs.find? fun v => v.voiceId == slug) :
    ∀ v ∈ listed c tenant, ∀ w ∈ listed c tenant, v.voiceId = w.voiceId → v = w := by
  intro v hv w hw hslug
  have hfirst : ∀ u ∈ listed c tenant, u.voiceId = w.voiceId →
      getAccessible c tenant w.voiceId = some u := by
    intro u hu hslug
    have hties : ∀ x ∈ listed c tenant, (x.voiceId == w.voiceId) = true →
        C.bySlug u x = true := by
      intro x _ hx
      unfold Collation.bySlug
      rw [hslug, eq_of_beq hx]
      exact (C.isOrder.total _ _).elim id id
    have hsame : ∀ x ∈ listed c tenant, (x.id == u.id) = true ↔ x = u := by
      intro x hx
      rw [beq_iff_eq]
      refine ⟨fun hid => ?_, congrArg Voice.id⟩
      exact Table.eq_of_clash (mem_listed.1 hx).1 (mem_listed.1 hu).1 (by simp [voices, hid])
    obtain ⟨vs, hvs, hfind⟩ := OrderedBy.exists_first (isOrder_bySlug C)
      (fun x => x.voiceId == w.voiceId) (fun x => x.id == u.id) hu (by simpa using hslug)
      hties hsame
    rw [h vs _ _ hvs (looked_getAccessible c tenant w.voiceId), hfind]
  exact Option.some.inj ((hfirst v hv hslug).symm.trans (hfirst w hw rfl))

end agrees

/-- **Listing, resolving and paging agree exactly when the listed slugs are
apart.** -/
theorem listing_agrees (C : Collation) (c : Catalog) (tenant : Uuid) :
    ListingAgrees C c tenant ↔ SlugsApart C c tenant := by
  constructor
  · intro h
    exact ⟨distinct_of_resolved h.resolved, ownBefore_of_ordered h.ordered⟩
  · intro h
    refine ⟨fun vs hvs => h.ownFirst hvs, fun vs slug found hvs hfound => ?_,
      fun limit answers hlow hhigh hanswers => ?_⟩
    · cases found with
      | none =>
          refine (List.find?_eq_none.2 fun v hv => ?_).symm
          simpa using hfound.not_listed (hvs.mem.1 hv)
      | some v =>
          obtain ⟨hv, rfl⟩ := hfound.listed
          refine (hvs.find?_eq_some hv (by simp) fun w hw hslug => ?_).symm
          exact h.distinct w hw v hv (by simpa using hslug)
    · have hreads := reads_drop hlow hhigh (fun k => h.unique (hanswers k) (hanswers 0)) 0
      rw [Nat.zero_mul, List.drop_zero] at hreads
      exact ⟨answers 0, hreads, (hanswers 0).perm⟩

/-- Texts by their code points. -/
def codePoints : Collation where
  le s t := decide (s ≤ t)
  isOrder := ⟨fun s t => by simpa using le_total s t, fun s t u hst htu => by
    simp only [decide_eq_true_eq] at hst htu ⊢
    exact hst.trans htu⟩
  antisymm s t hst hts := le_antisymm (of_decide_eq_true hst) (of_decide_eq_true hts)

/-- A public voice of tenant 1. -/
def listedAyse : Voice := sampleVoice.row 1 7 0 .pub

/-- A voice of tenant 2. -/
def privateZeynep : Voice := { sampleVoice with voiceId := py "zeynep" }.row 2 8 0 .priv

/-- A catalog of the two. -/
def mixedCatalog : Catalog :=
  { Catalog.blank (fun _ => true) (fun _ => true) fun _ => true with
    voices := ⟨[listedAyse, privateZeynep], by decide +kernel, by decide +kernel⟩ }

/-- Tenant 2's own voice is listed last. -/
theorem own_voice_listed_last :
    ¬∀ (C : Collation) (c : Catalog) (tenant : Uuid), ListingAgrees C c tenant := by
  intro h
  have hagrees := h codePoints mixedCatalog 2
  rw [listing_agrees] at hagrees
  have hown : privateZeynep ∈ listed mixedCatalog 2 :=
    mem_listed.2 ⟨.tail _ (.head _), by decide, rfl⟩
  have hother : listedAyse ∈ listed mixedCatalog 2 := mem_listed.2 ⟨.head _, by decide, rfl⟩
  have hbefore := hagrees.ownBefore _ hown _ hother rfl (by decide)
  exact absurd hbefore (by decide)

end NeuroVoice
