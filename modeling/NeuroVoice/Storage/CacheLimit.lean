import Mathlib.Algebra.BigOperators.Group.List.Basic
import Mathlib.Data.List.Sort
import NeuroVoice.Catalog.Storage

/-!
# NeuroVoice.Storage.CacheLimit

`R2Storage._enforce_cache_limit` of `storage/r2.py`, while others delete files of
the same directory.

The loop goes through a snapshot, oldest file first, and unlinks what it finds
there until a running total is within the cap (`enforceCacheLimit_spec`).  The
total starts with the whole snapshot, and a file that is gone already is never
taken off it.  So the loop can go on when the files on disk are within the cap:
`eviction_exact`.
-/

namespace NeuroVoice

/-! ## the directory -/

/-- An entry of the cache directory. -/
structure CacheFile where
  path : PurePath
  mtime : Rat
  size : Nat
  /-- `is_file()`. -/
  regular : Bool := true
  deriving DecidableEq

/-- `path.name.endswith(".part")`. -/
def CacheFile.isPart (f : CacheFile) : Bool :=
  (py ".part").isSuffixOf (f.path.parts.getLastD [])

/-- An entry the code counts. -/
def CacheFile.counts (f : CacheFile) : Bool := f.regular && !f.isPart

/-- The bytes of files. -/
def bytes (files : List CacheFile) : Int := (files.map fun f => (f.size : Int)).sum

/-- A call of `_enforce_cache_limit`: its arguments, what `iterdir` lists, and when
others delete what is listed.  Turns count the loop's rounds: first one for each
entry that is listed, then one for each file that is tried. -/
structure CacheCall where
  maxBytes : Int
  kept : PurePath
  listing : List CacheFile
  distinct : (listing.map CacheFile.path).Nodup
  /-- The turn at which a file is gone first. -/
  gone : PurePath → Option Nat

namespace CacheCall

variable (call : CacheCall)

/-- Nobody else has deleted the file. -/
def remains (t : Nat) (f : CacheFile) : Bool := (call.gone f.path).all fun k => t < k

/-- The file is there for the loop to remove. -/
def removable (t : Nat) (f : CacheFile) : Bool := f.path != call.kept && call.remains t f

/-! ## the code -/

/-- The first loop: `path.stat()` fails for what is gone. -/
def scan : Nat → List CacheFile → List CacheFile
  | _, [] => []
  | t, f :: fs =>
      if f.counts && call.remains t f then f :: scan (t + 1) fs else scan (t + 1) fs

/-- The files of the first loop. -/
def files : List CacheFile := call.scan 0 call.listing

/-- `sorted(files, key=lambda item: item[0])`. -/
def order : List CacheFile := call.files.insertionSort fun f g => f.mtime ≤ g.mtime

/-- What a call unlinks, with the turns, and the turn at which it returns. -/
structure Sweep where
  removed : List (Nat × CacheFile)
  finish : Nat

/-- The second loop. -/
def evict : Nat → Int → List CacheFile → Sweep
  | t, _, [] => { removed := [], finish := t }
  | t, total, f :: fs =>
      if f.path = call.kept then evict (t + 1) total fs
      else
        let total' := if call.remains t f then total - f.size else total
        let removed := if call.remains t f then [(t, f)] else []
        if total' ≤ call.maxBytes then { removed, finish := t + 1 }
        else
          let rest := evict (t + 1) total' fs
          { rest with removed := removed ++ rest.removed }

/-- The turn of the second loop's first round. -/
def start : Nat := call.listing.length

/-- `_enforce_cache_limit`. -/
def enforceCacheLimit : Sweep :=
  if call.maxBytes ≤ 0 then { removed := [], finish := 0 }
  else if bytes call.files ≤ call.maxBytes then { removed := [], finish := call.start }
  else call.evict call.start (bytes call.files) call.order

/-! ## what the loop finds -/

/-- The files of a list that are there to remove when the loop comes to them,
with the turns. -/
def found : Nat → List CacheFile → List (Nat × CacheFile)
  | _, [] => []
  | t, f :: fs => if call.removable t f then (t, f) :: found (t + 1) fs else found (t + 1) fs

/-- Their bytes. -/
def foundBytes (t : Nat) (fs : List CacheFile) : Int := bytes ((call.found t fs).map Prod.snd)

/-- Files on disk at a turn: what counts, is not gone and was not removed. -/
def onDisk (t : Nat) : List CacheFile :=
  call.listing.filter fun f =>
    f.counts && call.remains t f &&
      !call.enforceCacheLimit.removed.any fun r => r.1 < t && r.2.path == f.path

end CacheCall

section sums

/-- The bytes of a file and of the others. -/
theorem bytes_cons (f : CacheFile) (fs : List CacheFile) : bytes (f :: fs) = f.size + bytes fs :=
  rfl

/-- The bytes of two lists are added. -/
theorem bytes_append (fs gs : List CacheFile) : bytes (fs ++ gs) = bytes fs + bytes gs := by
  simp [bytes]

/-- No list has fewer than none. -/
theorem bytes_nonneg (fs : List CacheFile) : 0 ≤ bytes fs := by
  induction fs with
  | nil => exact Int.le_refl 0
  | cons f fs ih => rw [bytes_cons]; omega

/-- Their order makes no difference. -/
theorem bytes_perm {fs gs : List CacheFile} (h : fs.Perm gs) : bytes fs = bytes gs :=
  (h.map _).sum_eq

/-- What is kept and what is dropped make up the whole. -/
theorem bytes_filter_add (p : CacheFile → Bool) (fs : List CacheFile) :
    bytes (fs.filter p) + bytes (fs.filter fun f => !p f) = bytes fs := by
  induction fs with
  | nil => rfl
  | cons f fs ih =>
      cases hp : p f with
      | true => simp [hp, bytes_cons]; omega
      | false => simp [hp, bytes_cons]; omega

/-- A wider choice has no fewer bytes. -/
theorem bytes_filter_le (p q : CacheFile → Bool) (fs : List CacheFile)
    (h : ∀ f ∈ fs, p f = true → q f = true) : bytes (fs.filter p) ≤ bytes (fs.filter q) := by
  have hsub : (fs.filter p) = (fs.filter q).filter p := by
    rw [List.filter_filter]
    refine List.filter_congr ?_
    intro f hf
    cases hp : p f with
    | true => simp [h f hf hp]
    | false => simp
  have hadd := bytes_filter_add p (fs.filter q)
  have hpos := bytes_nonneg ((fs.filter q).filter fun f => !p f)
  rw [hsub]
  omega

end sums

namespace CacheCall

variable {call : CacheCall} {t : Nat} {f : CacheFile} {fs : List CacheFile}

/-- Later files are looked at later. -/
theorem found_append (t : Nat) (fs gs : List CacheFile) :
    call.found t (fs ++ gs) = call.found t fs ++ call.found (t + fs.length) gs := by
  induction fs generalizing t with
  | nil => rfl
  | cons f fs ih =>
      have hturn : t + 1 + fs.length = t + (fs.length + 1) := by omega
      simp only [List.cons_append, found, List.length_cons, ih, hturn]
      split <;> rfl

/-- Their bytes are added. -/
theorem foundBytes_append (t : Nat) (fs gs : List CacheFile) :
    call.foundBytes t (fs ++ gs) = call.foundBytes t fs + call.foundBytes (t + fs.length) gs := by
  simp [foundBytes, found_append, bytes_append]

/-- No fewer than none are found. -/
theorem foundBytes_nonneg (t : Nat) (fs : List CacheFile) : 0 ≤ call.foundBytes t fs :=
  bytes_nonneg _

/-- What is found was there to remove at its turn. -/
theorem mem_found {r : Nat × CacheFile} : r ∈ call.found t fs ↔
    ∃ older newer, fs = older ++ r.2 :: newer ∧ r.1 = t + older.length ∧
      call.removable r.1 r.2 = true := by
  induction fs generalizing t with
  | nil => simp [found]
  | cons f fs ih =>
      rw [found]
      constructor
      · intro h
        split at h
        · next hf =>
            obtain h | h := List.mem_cons.1 h
            · subst h
              exact ⟨[], fs, rfl, rfl, hf⟩
            · obtain ⟨older, newer, heq, hturn, hr⟩ := ih.1 h
              refine ⟨f :: older, newer, by rw [heq]; rfl, ?_, hr⟩
              simp only [List.length_cons]
              omega
        · obtain ⟨older, newer, heq, hturn, hr⟩ := ih.1 h
          exact ⟨f :: older, newer, by rw [heq]; rfl, by simp only [List.length_cons]; omega, hr⟩
      · intro h
        obtain ⟨older, newer, heq, hturn, hr⟩ := h
        cases older with
        | nil =>
            obtain ⟨hf, -⟩ := List.cons.inj heq
            have hr' : (t, f) = r := by
              rw [hf, ← show r.1 = t from hturn]
            rw [← hr'] at hr ⊢
            rw [if_pos hr]
            exact List.mem_cons_self ..
        | cons g older =>
            obtain ⟨-, htail⟩ := List.cons.inj heq
            have hmem : r ∈ call.found (t + 1) fs :=
              ih.2 ⟨older, newer, htail, by simp only [List.length_cons] at hturn; omega, hr⟩
            split
            · exact List.mem_cons_of_mem _ hmem
            · exact hmem

/-- **The second loop** goes through the files until the bytes it found bring the
total within the cap, and removes what it found. -/
theorem evict_spec (t : Nat) (total : Int) (fs : List CacheFile) (h : call.maxBytes < total) :
    ∃ done todo, fs = done ++ todo ∧
      (call.evict t total fs).finish = t + done.length ∧
      (call.evict t total fs).removed = call.found t done ∧
      (todo = [] ∨ total - call.foundBytes t done ≤ call.maxBytes) ∧
      ∀ older f newer, done = older ++ f :: newer →
        call.maxBytes < total - call.foundBytes t older := by
  induction fs generalizing t total with
  | nil => exact ⟨[], [], rfl, rfl, rfl, .inl rfl, fun older f newer heq => by simp at heq⟩
  | cons f fs ih =>
      have hfirst : call.found t [f] =
          if f.path = call.kept then [] else if call.remains t f then [(t, f)] else [] := by
        simp only [found, removable, Bool.and_eq_true, bne_iff_ne, ne_eq]
        split <;> split <;> simp_all
      have hbytes : call.foundBytes t [f] =
          if f.path = call.kept then 0 else if call.remains t f then (f.size : Int) else 0 := by
        rw [foundBytes, hfirst]
        split
        · rfl
        · split <;> simp [bytes]
      -- the rounds behind the first one
      have hrest : ∀ total', call.maxBytes < total' → total' = total - call.foundBytes t [f] →
          ∃ done todo, fs = done ++ todo ∧
            (call.evict (t + 1) total' fs).finish = t + (f :: done).length ∧
            call.found t [f] ++ (call.evict (t + 1) total' fs).removed = call.found t (f :: done) ∧
            (todo = [] ∨ total - call.foundBytes t (f :: done) ≤ call.maxBytes) ∧
            ∀ older g newer, f :: done = older ++ g :: newer →
              call.maxBytes < total - call.foundBytes t older := by
        intro total' hlt htotal
        obtain ⟨done, todo, heq, hfinish, hremoved, hstop, hrun⟩ := ih (t + 1) total' hlt
        have hcons : ∀ gs, call.foundBytes t (f :: gs) =
            call.foundBytes t [f] + call.foundBytes (t + 1) gs := fun gs =>
          foundBytes_append t [f] gs
        refine ⟨done, todo, heq, ?_, ?_, ?_, ?_⟩
        · rw [hfinish, List.length_cons]
          omega
        · rw [hremoved]
          exact (found_append t [f] done).symm
        · rw [hcons]
          obtain hstop | hstop := hstop
          · exact .inl hstop
          · exact .inr (by omega)
        · intro older g newer hsplit
          cases older with
          | nil =>
              have hnil : call.foundBytes t [] = 0 := rfl
              omega
          | cons a older =>
              obtain ⟨ha, hdone⟩ := List.cons.inj hsplit
              have hlt' := hrun older g newer hdone
              rw [← ha, hcons]
              omega
      unfold evict
      split
      · next hkept =>
          rw [if_pos hkept] at hbytes hfirst
          obtain ⟨done, todo, heq, hfinish, hremoved, hstop, hrun⟩ := hrest total h (by omega)
          rw [hfirst, List.nil_append] at hremoved
          exact ⟨f :: done, todo, by rw [heq]; rfl, hfinish, hremoved, hstop, hrun⟩
      · next hkept =>
          rw [if_neg hkept] at hbytes hfirst
          have htotal : (if call.remains t f then total - f.size else total) =
              total - call.foundBytes t [f] := by
            rw [hbytes]
            split <;> omega
          simp only [htotal, ← hfirst]
          split
          · next hle =>
              refine ⟨[f], fs, rfl, rfl, rfl, .inr hle, ?_⟩
              intro older g newer hsplit
              cases older with
              | nil =>
                  have hnil : call.foundBytes t [] = 0 := rfl
                  omega
              | cons a older => simp at hsplit
          · next hgt =>
              obtain ⟨done, todo, heq, hfinish, hremoved, hstop, hrun⟩ :=
                hrest _ (Int.not_le.1 hgt) rfl
              exact ⟨f :: done, todo, by rw [heq]; rfl, hfinish, hremoved, hstop, hrun⟩

/-- The whole call does the same. -/
theorem enforceCacheLimit_spec (hcap : 0 < call.maxBytes) :
    ∃ done todo, call.order = done ++ todo ∧
      call.enforceCacheLimit.finish = call.start + done.length ∧
      call.enforceCacheLimit.removed = call.found call.start done ∧
      (todo = [] ∨ bytes call.files - call.foundBytes call.start done ≤ call.maxBytes) ∧
      ∀ older f newer, done = older ++ f :: newer →
        call.maxBytes < bytes call.files - call.foundBytes call.start older := by
  unfold enforceCacheLimit
  rw [if_neg (by omega)]
  split
  · next hle =>
      refine ⟨[], call.order, rfl, rfl, rfl, .inr ?_, fun older f newer heq => by simp at heq⟩
      have hnil : call.foundBytes call.start [] = 0 := rfl
      omega
  · next hgt => exact evict_spec _ _ _ (Int.not_le.1 hgt)

/-! ## what is on disk -/

/-- What remains later was there before. -/
theorem remains_mono {t' : Nat} (hle : t' ≤ t) (h : call.remains t f = true) :
    call.remains t' f = true := by
  unfold remains at h ⊢
  cases hgone : call.gone f.path with
  | none => rfl
  | some k =>
      rw [hgone] at h
      simp only [Option.all_some, decide_eq_true_eq] at h ⊢
      omega

/-- A scan leaves files out, and changes nothing else. -/
theorem scan_sublist (t : Nat) (fs : List CacheFile) : (call.scan t fs).Sublist fs := by
  induction fs generalizing t with
  | nil => exact .slnil
  | cons f fs ih =>
      rw [scan]
      split
      · exact (ih (t + 1)).cons_cons f
      · exact (ih (t + 1)).cons f

/-- Only files that count are scanned. -/
theorem counts_of_mem_scan (h : f ∈ call.scan t fs) : f.counts = true := by
  induction fs generalizing t with
  | nil => cases h
  | cons g fs ih =>
      rw [scan] at h
      split at h
      · next hg =>
          obtain h | h := List.mem_cons.1 h
          · rw [h]
            exact (Bool.and_eq_true_iff.1 hg).1
          · exact ih h
      · exact ih h

/-- What is there after the first loop was seen by it. -/
theorem mem_scan {t' : Nat} (hf : f ∈ fs) (hcounts : f.counts = true)
    (hremains : call.remains t' f = true) (hle : t + fs.length ≤ t') : f ∈ call.scan t fs := by
  induction fs generalizing t with
  | nil => cases hf
  | cons g fs ih =>
      rw [List.length_cons] at hle
      rw [scan]
      obtain hf | hf := List.mem_cons.1 hf
      · subst hf
        have hthere : call.remains t f = true := remains_mono (by omega) hremains
        rw [if_pos (by simp [hcounts, hthere])]
        exact List.mem_cons_self ..
      · have hmem := ih (t := t + 1) hf (by omega)
        split
        · exact List.mem_cons_of_mem _ hmem
        · exact hmem

/-- The order has the files, and no others. -/
theorem mem_order : f ∈ call.order ↔ f ∈ call.files :=
  (List.perm_insertionSort _ call.files).mem_iff

/-- They come from the listing. -/
theorem mem_listing (h : f ∈ call.order) : f ∈ call.listing :=
  (scan_sublist 0 call.listing).subset (mem_order.1 h)

/-- They have the same bytes in it. -/
theorem bytes_order (call : CacheCall) : bytes call.order = bytes call.files :=
  bytes_perm (List.perm_insertionSort _ call.files)

/-- A directory lists no file twice. -/
theorem nodup_listing (call : CacheCall) : call.listing.Nodup := call.distinct.of_map _

/-- So the order has none twice. -/
theorem nodup_order (call : CacheCall) : call.order.Nodup :=
  (List.perm_insertionSort _ call.files).nodup_iff.2
    ((scan_sublist 0 call.listing).nodup call.nodup_listing)

/-- The oldest come first. -/
theorem order_sorted (call : CacheCall) :
    call.order.Pairwise fun f g => f.mtime ≤ g.mtime := by
  have hsorted := List.pairwise_insertionSort (fun f g : CacheFile => f.mtime ≤ g.mtime) call.files
  exact hsorted

/-- Entries with one path are one entry. -/
theorem eq_of_path {g : CacheFile} (hf : f ∈ call.listing) (hg : g ∈ call.listing)
    (h : f.path = g.path) : f = g :=
  List.inj_on_of_nodup_map call.distinct hf hg h

/-- What is found is among what was asked for, in its order. -/
theorem found_sublist (t : Nat) (fs : List CacheFile) :
    ((call.found t fs).map Prod.snd).Sublist fs := by
  induction fs generalizing t with
  | nil => exact .slnil
  | cons f fs ih =>
      rw [found]
      split
      · exact (ih (t + 1)).cons_cons f
      · exact (ih (t + 1)).cons f

variable (call) in
/-- The files still on disk when the loop has come past `older`. -/
def left (older : List CacheFile) : List CacheFile :=
  call.order.filter fun f => call.remains (call.start + older.length) f &&
    !(call.found call.start older).any fun r => r.2 == f

/-- The bytes of the snapshot besides what was found. -/
theorem bytes_not_found {older newer : List CacheFile} (h : call.order = older ++ newer) :
    bytes (call.order.filter fun f => !(call.found call.start older).any fun r => r.2 == f) =
      bytes call.files - call.foundBytes call.start older := by
  have hsub : ((call.found call.start older).map Prod.snd).Sublist older := found_sublist _ _
  have holder : older.Sublist call.order := h ▸ List.sublist_append_left older newer
  have hfound : bytes (call.order.filter fun f =>
      (call.found call.start older).any fun r => r.2 == f) =
      call.foundBytes call.start older := by
    refine bytes_perm ((List.perm_ext_iff_of_nodup (call.nodup_order.filter _)
      ((hsub.trans holder).nodup call.nodup_order)).2 ?_)
    intro f
    simp only [List.mem_filter, List.any_eq_true, beq_iff_eq, List.mem_map]
    constructor
    · intro hf
      exact hf.2
    · intro hf
      exact ⟨(hsub.trans holder).subset (List.mem_map.2 hf), hf⟩
  have hadd := bytes_filter_add (fun f =>
    (call.found call.start older).any fun r => r.2 == f) call.order
  rw [bytes_order] at hadd
  omega

/-- What is left is that, or less. -/
theorem bytes_left_le {older newer : List CacheFile} (h : call.order = older ++ newer) :
    bytes (call.left older) ≤ bytes call.files - call.foundBytes call.start older := by
  rw [← bytes_not_found h]
  refine bytes_filter_le _ _ _ ?_
  intro f _ hf
  exact (Bool.and_eq_true_iff.1 hf).2

/-- What is on disk at a turn of the loop. -/
theorem onDisk_perm {older mid todo : List CacheFile}
    (horder : call.order = older ++ mid ++ todo)
    (hremoved : call.enforceCacheLimit.removed = call.found call.start (older ++ mid)) :
    (call.onDisk (call.start + older.length)).Perm (call.left older) := by
  have hnodup : (call.onDisk (call.start + older.length)).Nodup := call.nodup_listing.filter _
  refine (List.perm_ext_iff_of_nodup hnodup (call.nodup_order.filter _)).2 ?_
  intro f
  have hearlier : f ∈ call.listing →
      ((call.enforceCacheLimit.removed.any fun r =>
          r.1 < call.start + older.length && r.2.path == f.path) = true ↔
        ((call.found call.start older).any fun r => r.2 == f) = true) := by
    intro hf
    simp only [hremoved, found_append, List.any_eq_true, List.mem_append, Bool.and_eq_true,
      decide_eq_true_eq, beq_iff_eq]
    constructor
    · intro h
      obtain ⟨r, hr | hr, hturn, hpath⟩ := h
      · obtain ⟨a, b, heq, -, -⟩ := mem_found.1 hr
        have hmem : r.2 ∈ call.listing := mem_listing (by rw [horder, heq]; simp)
        exact ⟨r, hr, eq_of_path hmem hf hpath⟩
      · obtain ⟨a, b, -, hlate, -⟩ := mem_found.1 hr
        omega
    · intro h
      obtain ⟨r, hr, heq⟩ := h
      obtain ⟨a, b, hsplit, hturn, -⟩ := mem_found.1 hr
      have hlen := congrArg List.length hsplit
      simp only [List.length_append, List.length_cons] at hlen
      exact ⟨r, .inl hr, by omega, by rw [heq]⟩
  simp only [onDisk, List.mem_filter, Bool.and_eq_true, Bool.not_eq_true',
    ← Bool.not_eq_true]
  constructor
  · intro h
    obtain ⟨hf, ⟨hcounts, hremains⟩, hnot⟩ := h
    have hmem : f ∈ call.order := mem_order.2 (mem_scan hf hcounts hremains (by
      simp only [start]; omega))
    exact ⟨hmem, hremains, fun hfound => hnot ((hearlier hf).2 hfound)⟩
  · intro h
    obtain ⟨hmem, hremains, hnot⟩ := h
    have hf := mem_listing hmem
    exact ⟨hf, ⟨counts_of_mem_scan (mem_order.1 hmem), hremains⟩,
      fun hremoved => hnot ((hearlier hf).1 hremoved)⟩

/-! ## the law -/

variable (call) in
/-- Eviction is safe and minimal: it spares the protected file and `.part` files,
removes the oldest file that is there, only while the files on disk exceed the
cap, and leaves them within the cap, or the protected file alone. -/
structure EvictsWell : Prop where
  spares : ∀ r ∈ call.enforceCacheLimit.removed, r.2.path ≠ call.kept ∧ r.2.isPart = false
  oldest : ∀ r ∈ call.enforceCacheLimit.removed, ∀ g ∈ call.onDisk r.1, g.path ≠ call.kept →
    r.2.mtime ≤ g.mtime
  needed : ∀ r ∈ call.enforceCacheLimit.removed, call.maxBytes < bytes (call.onDisk r.1)
  within : bytes (call.onDisk call.enforceCacheLimit.finish) ≤ call.maxBytes ∨
    ∀ g ∈ call.onDisk call.enforceCacheLimit.finish, g.path = call.kept

variable (call) in
/-- Deletions by others make no difference to the cap: where the snapshot less the
older files found at their turns is over it, so are the files still there. -/
def Accounted : Prop :=
  ∀ older f newer, call.order = older ++ f :: newer →
    call.removable (call.start + older.length) f = true →
      call.maxBytes < bytes call.files - call.foundBytes call.start older →
        call.maxBytes < bytes (call.left older)

/-- Where nobody else deletes files, the running total is exact. -/
theorem accounted_of_alone (h : ∀ p, call.gone p = none) : call.Accounted := by
  intro older f newer horder _ hover
  have hleft : call.left older = call.order.filter fun f =>
      !(call.found call.start older).any fun r => r.2 == f := by
    refine List.filter_congr ?_
    intro f _
    simp [remains, h]
  rw [hleft, bytes_not_found horder]
  exact hover

/-- What is left behind `older` and not protected comes later. -/
theorem mem_left {older newer : List CacheFile} {g : CacheFile} (h : call.order = older ++ newer)
    (hg : g ∈ call.left older) (hkept : g.path ≠ call.kept) : g ∈ newer := by
  obtain ⟨hmem, hp⟩ := List.mem_filter.1 hg
  obtain ⟨hremains, hnot⟩ := Bool.and_eq_true_iff.1 hp
  rw [h, List.mem_append] at hmem
  obtain hmem | hmem := hmem
  · exfalso
    obtain ⟨a, b, hsplit⟩ := List.append_of_mem hmem
    have hlen := congrArg List.length hsplit
    simp only [List.length_append, List.length_cons] at hlen
    have hthere : call.remains (call.start + a.length) g = true := remains_mono (by omega) hremains
    have hfound : (call.start + a.length, g) ∈ call.found call.start older :=
      mem_found.2 ⟨a, b, hsplit, rfl, by simp [removable, hkept, hthere]⟩
    have hany : ((call.found call.start older).any fun r => r.2 == g) = true :=
      List.any_eq_true.2 ⟨_, hfound, by simp⟩
    rw [hany] at hnot
    cases hnot
  · exact hmem

/-- **Eviction is safe and minimal exactly if no file that others delete makes the
difference.** -/
theorem eviction_exact (hcap : 0 < call.maxBytes) : call.EvictsWell ↔ call.Accounted := by
  obtain ⟨done, todo, horder, hfinish, hremoved, hstop, hrun⟩ := enforceCacheLimit_spec hcap
  have hsplit : ∀ r ∈ call.enforceCacheLimit.removed, ∃ older newer, done = older ++ r.2 :: newer ∧
      r.1 = call.start + older.length ∧ call.removable r.1 r.2 = true := by
    intro r hr
    rw [hremoved] at hr
    exact mem_found.1 hr
  have hdisk : ∀ older mid, done = older ++ mid →
      (call.onDisk (call.start + older.length)).Perm (call.left older) := by
    intro older mid hdone
    have hsnapshot : call.order = older ++ mid ++ todo := by rw [horder, hdone]
    exact onDisk_perm hsnapshot (by rw [hremoved, hdone])
  constructor
  · intro hwell older f newer hold hremovable hover
    -- the loop comes to `f`: else it would have stopped at a total that is over the cap
    have hcome : ∃ rest, done = older ++ f :: rest := by
      have hboth : done ++ todo = older ++ f :: newer := by rw [← horder, hold]
      obtain ⟨mid, hmid, htodo⟩ | ⟨mid, hmid, htodo⟩ := List.append_eq_append_iff.1 hboth
      · exfalso
        have hmore : call.foundBytes call.start done ≤ call.foundBytes call.start older := by
          rw [hmid, foundBytes_append]
          have hpos : 0 ≤ call.foundBytes (call.start + done.length) mid := foundBytes_nonneg _ _
          omega
        obtain hnil | hle := hstop
        · rw [hnil] at htodo
          simp at htodo
        · omega
      · cases mid with
        | nil =>
            exfalso
            rw [List.append_nil] at hmid
            rw [hmid] at hstop
            obtain hnil | hle := hstop
            · rw [hnil] at htodo
              simp at htodo
            · omega
        | cons a mid =>
            obtain ⟨ha, -⟩ := List.cons.inj htodo
            exact ⟨mid, by rw [hmid, ha]⟩
    obtain ⟨rest, hdone⟩ := hcome
    have hmem : (call.start + older.length, f) ∈ call.enforceCacheLimit.removed := by
      rw [hremoved]
      exact mem_found.2 ⟨older, rest, hdone, rfl, hremovable⟩
    have hneeded := hwell.needed _ hmem
    rwa [bytes_perm (hdisk older _ hdone)] at hneeded
  · intro hacc
    refine ⟨?_, ?_, ?_, ?_⟩
    · intro r hr
      obtain ⟨older, newer, hdone, -, hremovable⟩ := hsplit r hr
      have hmem : r.2 ∈ call.order := by rw [horder, hdone]; simp
      have hcounts := counts_of_mem_scan (mem_order.1 hmem)
      simp only [removable, Bool.and_eq_true, bne_iff_ne, ne_eq] at hremovable
      simp only [CacheFile.counts, Bool.and_eq_true, Bool.not_eq_true'] at hcounts
      exact ⟨hremovable.1, hcounts.2⟩
    · intro r hr g hg hkept
      obtain ⟨older, newer, hdone, hturn, -⟩ := hsplit r hr
      rw [hturn, (hdisk older _ hdone).mem_iff] at hg
      have hold : call.order = older ++ (r.2 :: newer ++ todo) := by rw [horder, hdone]; simp
      have hlater := mem_left hold hg hkept
      have hsorted := call.order_sorted
      rw [hold, List.pairwise_append] at hsorted
      rw [List.cons_append, List.mem_cons] at hlater
      obtain hlater | hlater := hlater
      · rw [hlater]
      · exact (List.pairwise_cons.1 hsorted.2.1).1 g hlater
    · intro r hr
      obtain ⟨older, newer, hdone, hturn, hremovable⟩ := hsplit r hr
      rw [hturn] at hremovable ⊢
      rw [bytes_perm (hdisk older _ hdone)]
      exact hacc older r.2 (newer ++ todo) (by rw [horder, hdone]; simp) hremovable
        (hrun older r.2 newer hdone)
    · have hperm := hdisk done [] (by simp)
      rw [hfinish, bytes_perm hperm]
      obtain hnil | hle := hstop
      · refine .inr ?_
        intro g hg
        by_contra hkept
        have hlater := mem_left horder (hperm.mem_iff.1 hg) hkept
        rw [hnil] at hlater
        cases hlater
      · exact .inl (Int.le_trans (bytes_left_le horder) hle)

/-- Two old files of six bytes and the protected one, under a cap of ten; `gone` says
when the oldest one disappears. -/
def threeFiles (gone : Option Nat) : CacheCall where
  maxBytes := 10
  kept := { root := 1, parts := [py "c.wav"] }
  listing :=
    [{ path := { root := 1, parts := [py "c.wav"] }, mtime := 3, size := 2 },
      { path := { root := 1, parts := [py "a.wav"] }, mtime := 1, size := 6 },
      { path := { root := 1, parts := [py "b.wav"] }, mtime := 2, size := 6 }]
  distinct := by decide
  gone p := if p = { root := 1, parts := [py "a.wav"] } then gone else none

/-- When nobody else deletes files, one file is evicted. -/
theorem eviction_exact_alone : (threeFiles none).EvictsWell := by
  refine (@eviction_exact (threeFiles none) (by decide)).2 (accounted_of_alone ?_)
  intro p
  simp [threeFiles]

/-- The oldest file is gone when the loop comes to it: what is left is within the
cap, and the loop removes the next file all the same. -/
theorem vanished_file_counted :
    (threeFiles (some 3)).enforceCacheLimit.removed =
        [(4, { path := { root := 1, parts := [py "b.wav"] }, mtime := 2, size := 6 })] ∧
      bytes ((threeFiles (some 3)).onDisk 4) = 8 ∧ ¬(threeFiles (some 3)).EvictsWell := by
  have hremoved : (threeFiles (some 3)).enforceCacheLimit.removed =
      [(4, { path := { root := 1, parts := [py "b.wav"] }, mtime := 2, size := 6 })] := by decide
  have hbytes : bytes ((threeFiles (some 3)).onDisk 4) = 8 := by decide
  refine ⟨hremoved, hbytes, ?_⟩
  intro hwell
  have hneeded := hwell.needed _ (by rw [hremoved]; exact List.mem_cons_self ..)
  rw [hbytes] at hneeded
  revert hneeded
  decide

end CacheCall

end NeuroVoice
