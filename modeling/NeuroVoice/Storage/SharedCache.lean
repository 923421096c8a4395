import NeuroVoice.Storage.Download

/-!
# NeuroVoice.Storage.SharedCache

The cache directory over whole runs: any number of threads of any number of OS
processes download, upload, delete and evict, in any order, and die at any await.

A cached file is always one whole object (`cache_whole`): what is not complete
has another name, and only its own thread writes there.  An OS process asks the
bucket again for a URI it has cached only if the file has gone or is empty
(`asked_again`).
-/

namespace NeuroVoice

/-! ## what may be in the cache -/

/-- At some moment the bucket held this under that name. -/
def Had (ts : List CacheTrans) (o : S3URI) (data : Bytes) : Prop :=
  ∃ t ∈ ts, t.pre.objects.lookup o = some data

/-- What the bucket held, at some moment, for a URI that is cached at the path. -/
def Whole (r : R2Cache) (ts : List CacheTrans) (path : PurePath) (data : Bytes) : Prop :=
  ∃ m : Wanted r, m.path = path ∧ Had ts m.object data

/-- What the bucket had it has had. -/
theorem Had.append {ts : List CacheTrans} {o : S3URI} {data : Bytes} (h : Had ts o data)
    (us : List CacheTrans) : Had (ts ++ us) o data := by
  obtain ⟨t, ht, hdata⟩ := h
  exact ⟨t, List.mem_append_left us ht, hdata⟩

/-- A whole file stays one of the bucket's. -/
theorem Whole.append {r : R2Cache} {ts : List CacheTrans} {path : PurePath} {data : Bytes}
    (h : Whole r ts path data) (us : List CacheTrans) : Whole r (ts ++ us) path data := by
  obtain ⟨m, hm, hhad⟩ := h
  exact ⟨m, hm, hhad.append us⟩

/-- Before the first download the directory is empty. -/
def CacheWorld.Fresh (r : R2Cache) (w : CacheWorld) : Prop :=
  ∀ p, p.isIn r.cacheDir = true → w.files.lookup p = none

/-- The files in every run; `ph` is what is known of the threads. -/
structure Coherent (r : R2Cache) (ts : List CacheTrans) (w : CacheWorld)
    (ph : Nat → Option (Visit r)) : Prop where
  whole : ∀ (m : Wanted r) f, w.files.lookup m.path = some f → Whole r ts m.path f.data
  /-- Temporary files carry names that `uuid4` has returned. -/
  scratch : ∀ q hex f, r.scratchOf q = some hex → w.files.lookup q = some f → hex ∈ w.named
  named : ∀ p v hex, ph p = some v → v.drawn = some hex → hex ∈ w.named
  own : ∀ p p' v v' hex, ph p = some v → ph p' = some v' → v.drawn = some hex →
    v'.drawn = some hex → p = p'
  /-- Nobody else writes a thread's temporary files. -/
  area : ∀ p v q f, ph p = some v → v.Owns q → w.files.lookup q = some f → v.area q = some f.data
  got : ∀ p v m data, ph p = some v → v.want = some m → v.got = some data → Had ts m.object data

/-! ## awaits that add nothing -/

/-- The two want the same and have written the same. -/
structure Visit.Same {r : R2Cache} (v v' : Visit r) : Prop where
  want : v'.want = v.want
  drawn : v'.drawn = v.drawn
  transfer : v'.toTransfer = v.toTransfer

/-- It draws no name, and brings no content. -/
def CacheEff.plain : CacheEff → Bool
  | .uuid4 | .getObject _ | .writeFile _ _ | .replace _ _ => false
  | _ => true

section plain

variable {r : R2Cache} {fleet : Fleet} {v : Visit r} {t : Nat} {e : CacheEff} {o : CacheOracle}
  {w w' : CacheWorld} {a : CacheAns e}

/-- A visit is like itself. -/
theorem Visit.same_refl (v : Visit r) : v.Same v := ⟨rfl, rfl, rfl⟩

/-- A miss changes nothing that a visit holds. -/
theorem Visit.same_miss (v : Visit r) : v.Same v.miss := by
  unfold Visit.miss
  split
  · exact ⟨rfl, rfl, rfl⟩
  · exact v.same_refl

/-- A failed await leaves a visit as it is. -/
theorem Visit.next_error (v : Visit r) (e : CacheEff) (x : Foreign) :
    v.next e (.error x) = v := by
  cases e <;> rfl

/-- So does one that is no step of a download. -/
theorem Visit.same_next (v : Visit r) (a : CacheAns e)
    (he : e.plain = true ∨ ∃ x, a = .error x) : v.Same (v.next e a) := by
  cases a with
  | error x =>
      rw [v.next_error e x]
      exact v.same_refl
  | ok b =>
      cases e with
      | isFile p =>
          show v.Same (if _ then v.miss else v)
          split
          · exact v.same_miss
          · exact v.same_refl
      | stat p =>
          show v.Same (if _ then if _ then _ else v.miss else v)
          split
          · split
            · exact ⟨rfl, rfl, rfl⟩
            · exact v.same_miss
          · exact v.same_refl
      | acquire _ | release _ => exact ⟨rfl, rfl, rfl⟩
      | iterdir | getpid | unlink _ | readFile _ | putObject _ _ | deleteObject _ =>
          exact v.same_refl
      | uuid4 | getObject _ | writeFile _ _ | replace _ _ =>
          obtain he | ⟨x, he⟩ := he <;> cases he

/-- What is plain, or has failed, adds no file and no name. -/
theorem exec_plain (hx : CacheWorld.exec r fleet t e o w = some (a, w'))
    (he : e.plain = true ∨ ∃ x, a = .error x) :
    (∀ q f, w'.files.lookup q = some f → w.files.lookup q = some f) ∧ w'.named = w.named := by
  obtain ⟨u, hp⟩ | ⟨-, -, hfiles, -, hnamed⟩ := exec_cases hx
  · cases e with
    | unlink p =>
        simp only [CacheWorld.perform] at hp
        split at hp <;> cases hp
        · exact ⟨fun q f hq => lookup_of_erase hq, rfl⟩
        · exact ⟨fun q f hq => hq, rfl⟩
    | isFile _ | iterdir | getpid | deleteObject _ | release _ =>
        cases hp
        exact ⟨fun q f hq => hq, rfl⟩
    | stat _ | readFile _ | putObject _ _ | getObject _ | acquire _ =>
        simp only [CacheWorld.perform] at hp
        split at hp <;> cases hp
        all_goals exact ⟨fun q f hq => hq, rfl⟩
    | writeFile _ _ =>
        cases hp
        obtain he | ⟨x, he⟩ := he <;> cases he
    | uuid4 =>
        simp only [CacheWorld.perform] at hp
        generalize hexDigits 32 u.toNat = hex at hp
        split at hp <;> cases hp
        obtain he | ⟨x, he⟩ := he <;> cases he
    | replace p q =>
        simp only [CacheWorld.perform] at hp
        split at hp <;> cases hp
        · obtain he | ⟨x, he⟩ := he <;> cases he
        · exact ⟨fun q f hq => hq, rfl⟩
  · exact ⟨fun q f hq => hfiles ▸ hq, hnamed⟩

end plain

/-! ## one step -/

namespace Coherent

variable {r : R2Cache} {fleet : Fleet} {ts us : List CacheTrans} {w w' : CacheWorld}
  {ph ph' : Nat → Option (Visit r)} {p : Nat} {v : Visit r}

/-- Nothing is added, and threads that start know nothing yet. -/
theorem frame (h : Coherent r ts w ph)
    (hfiles : ∀ q f, w'.files.lookup q = some f → w.files.lookup q = some f)
    (hnamed : w'.named = w.named)
    (hph : ∀ p v', ph' p = some v' →
      (∃ v, ph p = some v ∧ v.Same v') ∨ v' = { want := v'.want }) :
    Coherent r (ts ++ us) w' ph' := by
  have hdrawn {p : Nat} {v' : Visit r} {hex : PyStr} (hp : ph' p = some v')
      (hd : v'.drawn = some hex) : ∃ v, ph p = some v ∧ v.drawn = some hex ∧ v.Same v' := by
    obtain ⟨v, hv, hsame⟩ | hnew := hph p v' hp
    · exact ⟨v, hv, hsame.drawn ▸ hd, hsame⟩
    · rw [hnew] at hd
      cases hd
  refine ⟨fun m f hm => (h.whole m f (hfiles _ _ hm)).append us,
    fun q hex f hq hf => hnamed ▸ h.scratch q hex f hq (hfiles _ _ hf), ?_, ?_, ?_, ?_⟩
  · intro p v' hex hp hd
    obtain ⟨v, hv, hd, -⟩ := hdrawn hp hd
    exact hnamed ▸ h.named p v hex hv hd
  · intro p p' v v' hex hp hp' hd hd'
    obtain ⟨v₁, hv₁, hd₁, -⟩ := hdrawn hp hd
    obtain ⟨v₂, hv₂, hd₂, -⟩ := hdrawn hp' hd'
    exact h.own p p' v₁ v₂ hex hv₁ hv₂ hd₁ hd₂
  · intro p v' q f hp howns hq
    obtain ⟨hex, hd, hscratch⟩ := howns
    obtain ⟨v, hv, hd, hsame⟩ := hdrawn hp hd
    rw [hsame.transfer]
    exact h.area p v q f hv ⟨hex, hd, hscratch⟩ (hfiles _ _ hq)
  · intro p v' m data hp hw hgot
    obtain ⟨v, hv, hsame⟩ | hnew := hph p v' hp
    · rw [hsame.transfer] at hgot
      exact (h.got p v m data hv (hsame.want ▸ hw) hgot).append us
    · rw [hnew] at hgot
      cases hgot

/-- A visit after an update is the new one, or another process's. -/
theorem of_update {p q : Nat} {v' v'' : Visit r}
    (h : Function.update ph p (some v') q = some v'') :
    q = p ∧ v'' = v' ∨ q ≠ p ∧ ph q = some v'' := by
  by_cases hq : q = p
  · subst hq
    rw [Function.update_self] at h
    exact .inl ⟨rfl, (Option.some.inj h).symm⟩
  · rw [Function.update_of_ne hq] at h
    exact .inr ⟨hq, h⟩

/-- A name is drawn. -/
theorem uuid4 (h : Coherent r ts w ph) (hp : ph p = some v) {hex : PyStr} (hnew : hex ∉ w.named) :
    Coherent r (ts ++ us) { w with named := hex :: w.named }
      (Function.update ph p (some { v with drawn := some hex, area := fun _ => none })) := by
  refine ⟨fun m f hm => (h.whole m f hm).append us,
    fun q hex' f hq hf => List.mem_cons_of_mem _ (h.scratch q hex' f hq hf), ?_, ?_, ?_, ?_⟩
  · intro q v' hex' hq hd
    obtain ⟨-, rfl⟩ | ⟨-, hq⟩ := of_update hq
    · cases hd
      exact List.mem_cons_self
    · exact List.mem_cons_of_mem _ (h.named q v' hex' hq hd)
  · intro q q' v₁ v₂ hex' hq hq' hd hd'
    obtain ⟨hqp, rfl⟩ | ⟨-, hq₁⟩ := of_update hq
    · obtain ⟨hqp', -⟩ | ⟨-, hq₂⟩ := of_update hq'
      · exact hqp.trans hqp'.symm
      · cases hd
        exact absurd (h.named q' v₂ _ hq₂ hd') hnew
    · obtain ⟨-, rfl⟩ | ⟨-, hq₂⟩ := of_update hq'
      · cases hd'
        exact absurd (h.named q v₁ _ hq₁ hd) hnew
      · exact h.own q q' v₁ v₂ hex' hq₁ hq₂ hd hd'
  · intro q v' x f hq howns hx
    obtain ⟨-, rfl⟩ | ⟨-, hq⟩ := of_update hq
    · -- no file carries the new name yet
      obtain ⟨hex', hd, hscratch⟩ := howns
      cases hd
      exact absurd (h.scratch x _ f hscratch hx) hnew
    · exact h.area q v' x f hq howns hx
  · intro q v' m data hq hw hgot
    obtain ⟨-, rfl⟩ | ⟨-, hq⟩ := of_update hq
    · exact (h.got p v m data hp hw hgot).append us
    · exact (h.got q v' m data hq hw hgot).append us

/-- The bucket answers. -/
theorem getObject (h : Coherent r ts w ph) (hp : ph p = some v) {o : S3URI} {data : Bytes}
    (hwant : ∃ m, v.want = some m ∧ m.object = o) (hhad : Had (ts ++ us) o data) :
    Coherent r (ts ++ us) w (Function.update ph p (some { v with got := some data })) := by
  have hback {q : Nat} {v' : Visit r}
      (hq : Function.update ph p (some { v with got := some data }) q = some v') :
      ∃ v₀, ph q = some v₀ ∧ v'.drawn = v₀.drawn ∧ v'.area = v₀.area := by
    obtain ⟨rfl, rfl⟩ | ⟨-, hq⟩ := of_update hq
    · exact ⟨v, hp, rfl, rfl⟩
    · exact ⟨v', hq, rfl, rfl⟩
  refine ⟨fun m f hm => (h.whole m f hm).append us, h.scratch, ?_, ?_, ?_, ?_⟩
  · intro q v' hex hq hd
    obtain ⟨v₀, hv₀, hdrawn, -⟩ := hback hq
    exact h.named q v₀ hex hv₀ (hdrawn ▸ hd)
  · intro q q' v₁ v₂ hex hq hq' hd hd'
    obtain ⟨v₃, hv₃, hd₃, -⟩ := hback hq
    obtain ⟨v₄, hv₄, hd₄, -⟩ := hback hq'
    exact h.own q q' v₃ v₄ hex hv₃ hv₄ (hd₃ ▸ hd) (hd₄ ▸ hd')
  · intro q v' x f hq howns hx
    obtain ⟨v₀, hv₀, hdrawn, harea⟩ := hback hq
    obtain ⟨hex, hd, hscratch⟩ := howns
    rw [harea]
    exact h.area q v₀ x f hv₀ ⟨hex, hdrawn ▸ hd, hscratch⟩ hx
  · intro q v' m data' hq hw hgot
    obtain ⟨-, rfl⟩ | ⟨-, hq⟩ := of_update hq
    · obtain ⟨m', hm', rfl⟩ := hwant
      cases hm'.symm.trans hw
      cases hgot
      exact hhad
    · exact (h.got q v' m data' hq hw hgot).append us

/-- A thread puts content into a temporary file of its own. -/
theorem put (h : Coherent r ts w ph) (hp : ph p = some v) {y : PurePath} (hy : v.Owns y)
    {data : Bytes} (hnamed : w'.named = w.named)
    (hfiles : ∀ z f, w'.files.lookup z = some f →
      w.files.lookup z = some f ∧ z ≠ y ∨ z = y ∧ f.data = data) :
    Coherent r (ts ++ us) w'
      (Function.update ph p (some { v with area := Function.update v.area y (some data) })) := by
  obtain ⟨hex, hdrawn, hscratch⟩ := hy
  have hback {q : Nat} {v' : Visit r}
      (hq : Function.update ph p
        (some { v with area := Function.update v.area y (some data) }) q = some v') :
      ∃ v₀, ph q = some v₀ ∧ v'.want = v₀.want ∧ v'.drawn = v₀.drawn ∧ v'.got = v₀.got := by
    obtain ⟨rfl, rfl⟩ | ⟨-, hq⟩ := of_update hq
    · exact ⟨v, hp, rfl, rfl, rfl⟩
    · exact ⟨v', hq, rfl, rfl, rfl⟩
  refine ⟨fun m f hm => ?_, fun z hex' f hz hf => ?_, ?_, ?_, ?_, ?_⟩
  · obtain ⟨hm, -⟩ | ⟨hm, -⟩ := hfiles _ _ hm
    · exact (h.whole m f hm).append us
    · rw [← hm, m.scratchOf_path] at hscratch
      cases hscratch
  · rw [hnamed]
    obtain ⟨hf, -⟩ | ⟨rfl, -⟩ := hfiles _ _ hf
    · exact h.scratch z hex' f hz hf
    · cases hscratch.symm.trans hz
      exact h.named p v hex hp hdrawn
  · intro q v' hex' hq hd
    obtain ⟨v₀, hv₀, -, hd₀, -⟩ := hback hq
    exact hnamed ▸ h.named q v₀ hex' hv₀ (hd₀ ▸ hd)
  · intro q q' v₁ v₂ hex' hq hq' hd hd'
    obtain ⟨v₃, hv₃, -, hd₃, -⟩ := hback hq
    obtain ⟨v₄, hv₄, -, hd₄, -⟩ := hback hq'
    exact h.own q q' v₃ v₄ hex' hv₃ hv₄ (hd₃ ▸ hd) (hd₄ ▸ hd')
  · intro q v' z f hq howns hz
    obtain ⟨-, rfl⟩ | ⟨hne, hq₀⟩ := of_update hq
    · show Function.update v.area y (some data) z = _
      obtain ⟨hz, hzy⟩ | ⟨hzy, hf⟩ := hfiles z f hz
      · rw [Function.update_of_ne hzy]
        exact h.area p v z f hp howns hz
      · rw [hzy, Function.update_self, hf]
    · obtain ⟨hz, -⟩ | ⟨hzy, -⟩ := hfiles z f hz
      · exact h.area q v' z f hq₀ howns hz
      · -- the file is another thread's
        obtain ⟨hex', hd', hz'⟩ := howns
        cases hscratch.symm.trans (hzy ▸ hz')
        exact absurd (h.own q p v' v hex hq₀ hp hd' hdrawn) hne
  · intro q v' m data' hq hw hgot
    obtain ⟨v₀, hv₀, hw₀, -, hgot₀⟩ := hback hq
    exact (h.got q v₀ m data' hv₀ (hw₀ ▸ hw) (hgot₀ ▸ hgot)).append us

/-- A thread puts what the bucket answered in the place of the cached file. -/
theorem publish (h : Coherent r ts w ph) (hp : ph p = some v) {v' : Visit r} (hsame : v.Same v')
    {y : PurePath} {data : Bytes} (hy : v.path = some y) (hgot : v.got = some data)
    (hnamed : w'.named = w.named)
    (hfiles : ∀ z f, w'.files.lookup z = some f →
      w.files.lookup z = some f ∧ z ≠ y ∨ z = y ∧ f.data = data) :
    Coherent r (ts ++ us) w' (Function.update ph p (some v')) := by
  obtain ⟨m, hwant, rfl⟩ := Option.map_eq_some_iff.1 hy
  have hback {q : Nat} {v₁ : Visit r} (hq : Function.update ph p (some v') q = some v₁) :
      ∃ v₀, ph q = some v₀ ∧ v₀.Same v₁ := by
    obtain ⟨rfl, rfl⟩ | ⟨-, hq⟩ := of_update hq
    · exact ⟨v, hp, hsame⟩
    · exact ⟨v₁, hq, v₁.same_refl⟩
  have hscratch {z : PurePath} {hex : PyStr} {f : DiskFile} (hz : r.scratchOf z = some hex)
      (hf : w'.files.lookup z = some f) : w.files.lookup z = some f := by
    obtain ⟨hf, -⟩ | ⟨rfl, -⟩ := hfiles z f hf
    · exact hf
    · rw [m.scratchOf_path] at hz
      cases hz
  refine ⟨fun m' f hm => ?_, fun z hex f hz hf => hnamed ▸ h.scratch z hex f hz (hscratch hz hf),
    ?_, ?_, ?_, ?_⟩
  · obtain ⟨hm, -⟩ | ⟨hm, hf⟩ := hfiles _ _ hm
    · exact (h.whole m' f hm).append us
    · exact ⟨m, hm.symm, hf ▸ (h.got p v m data hp hwant hgot).append us⟩
  · intro q v₁ hex hq hd
    obtain ⟨v₀, hv₀, hsame⟩ := hback hq
    exact hnamed ▸ h.named q v₀ hex hv₀ (hsame.drawn ▸ hd)
  · intro q q' v₁ v₂ hex hq hq' hd hd'
    obtain ⟨v₃, hv₃, hsame₃⟩ := hback hq
    obtain ⟨v₄, hv₄, hsame₄⟩ := hback hq'
    exact h.own q q' v₃ v₄ hex hv₃ hv₄ (hsame₃.drawn ▸ hd) (hsame₄.drawn ▸ hd')
  · intro q v₁ z f hq howns hz
    obtain ⟨v₀, hv₀, hsame⟩ := hback hq
    obtain ⟨hex, hd, hzhex⟩ := howns
    rw [hsame.transfer]
    exact h.area q v₀ z f hv₀ ⟨hex, hsame.drawn ▸ hd, hzhex⟩ (hscratch hzhex hz)
  · intro q v₁ m' data' hq hw hgot'
    obtain ⟨v₀, hv₀, hsame⟩ := hback hq
    rw [hsame.transfer] at hgot'
    exact (h.got q v₀ m' data' hv₀ (hsame.want ▸ hw) hgot').append us

/-- **One await.** -/
theorem act (h : Coherent r ts w ph) {fleet : Fleet} {e : CacheEff} {o : CacheOracle}
    {a : CacheAns e} (hp : ph p = some v) (hx : CacheWorld.exec r fleet p e o w = some (a, w'))
    (hal : v.Allows e) :
    Coherent r (ts ++ [⟨w, .act p e a, w'⟩]) w' (Function.update ph p (some (v.next e a))) := by
  by_cases he : e.plain = true ∨ ∃ x, a = .error x
  · obtain ⟨hfiles, hnamed⟩ := exec_plain hx he
    refine h.frame hfiles hnamed fun q v' hq => .inl ?_
    obtain ⟨rfl, rfl⟩ | ⟨-, hq⟩ := of_update hq
    · exact ⟨v, hp, v.same_next a he⟩
    · exact ⟨v', hq, v'.same_refl⟩
  obtain ⟨hplain, hok⟩ := not_or.1 he
  obtain ⟨u, hperf⟩ | ⟨hx, -⟩ := exec_cases hx
  · cases a with
    | error x => exact absurd ⟨x, rfl⟩ hok
    | ok b =>
        cases e with
        | uuid4 =>
            simp only [CacheWorld.perform] at hperf
            generalize hexDigits 32 u.toNat = hex at hperf
            split at hperf <;> cases hperf
            next hnew => exact h.uuid4 hp (by simpa using hnew)
        | getObject o' =>
            simp only [CacheWorld.perform] at hperf
            split at hperf <;> cases hperf
            next hdata =>
              exact h.getObject hp hal.2 ⟨_, List.mem_append_right _ List.mem_cons_self, hdata⟩
        | writeFile y data =>
            cases hperf
            refine h.put hp hal.2 rfl fun z f hz => ?_
            by_cases hzy : z = y
            · subst hzy
              rw [AList.lookup_insert] at hz
              cases hz
              exact .inr ⟨rfl, rfl⟩
            · exact .inl ⟨by rwa [AList.lookup_insert_ne hzy] at hz, hzy⟩
        | replace x y =>
            simp only [CacheWorld.perform] at hperf
            split at hperf <;> cases hperf
            next f hf =>
              obtain ⟨-, hx, hy⟩ := hal
              have harea := h.area p v x f hp hx hf
              have hfiles (z : PurePath) (f' : DiskFile)
                  (hz : ((w.files.erase x).insert y f).lookup z = some f') :
                  w.files.lookup z = some f' ∧ z ≠ y ∨ z = y ∧ f'.data = f.data := by
                by_cases hzy : z = y
                · subst hzy
                  rw [AList.lookup_insert] at hz
                  cases hz
                  exact .inr ⟨rfl, rfl⟩
                · rw [AList.lookup_insert_ne hzy] at hz
                  exact .inl ⟨lookup_of_erase hz, hzy⟩
              by_cases hpath : v.path = some y
              · rw [Visit.next_replace_path x hpath]
                refine h.publish hp ⟨rfl, rfl, rfl⟩ hpath ?_ rfl hfiles
                obtain ⟨hex, -, hscratch⟩ | ⟨-, -, hgot⟩ := hy
                · obtain ⟨m, -, rfl⟩ := Option.map_eq_some_iff.1 hpath
                  rw [m.scratchOf_path] at hscratch
                  cases hscratch
                · exact hgot.symm.trans harea
              · obtain hy | ⟨hy, -⟩ := hy
                · have hnext : v.next (.replace x y) (.ok ()) =
                      { v with area := Function.update v.area y (some f.data) } := by
                    rw [← harea]
                    exact if_neg hpath
                  exact hnext ▸ h.put hp hy rfl hfiles
                · exact absurd hy hpath
        | _ => exact absurd rfl hplain
  · exact absurd hx hok

/-- **One step.** -/
theorem step (h : Coherent r ts w ph) {fleet : Fleet}
    {ev : Event CacheEff CacheAns StorageCall (Except Foreign StorageResult)}
    (hs : PStep (cacheMachine r fleet) (visits r) w ph ev w' ph') :
    Coherent r (ts ++ [⟨w, ev, w'⟩]) w' ph' := by
  have hgone (p : Nat) (q : Nat) (v' : Visit r) (hq : Function.update ph p none q = some v') :
      (∃ v, ph q = some v ∧ v.Same v') ∨ v' = { want := v'.want } := by
    by_cases hqp : q = p
    · subst hqp
      rw [Function.update_self] at hq
      cases hq
    · rw [Function.update_of_ne hqp] at hq
      exact .inl ⟨v', hq, v'.same_refl⟩
  cases hs with
  | act hp hx hal => exact h.act hp hx hal
  | @spawn p call hp =>
      refine h.frame (fun _ _ hq => hq) rfl fun q v' hq => ?_
      obtain ⟨-, rfl⟩ | ⟨-, hq⟩ := of_update hq
      · exact .inr rfl
      · exact .inl ⟨v', hq, v'.same_refl⟩
  | done hp hf => exact h.frame (fun _ _ hq => hq) rfl (hgone _)
  | crash hp => exact h.frame (fun _ _ hq => hq) rfl (hgone _)
  | tick => exact h.frame (fun _ _ hq => hq) rfl fun q v' hq => .inl ⟨v', hq, v'.same_refl⟩

/-- **Every run.** -/
theorem run {fleet : Fleet} {w₀ : CacheWorld} (hstart : w₀.Fresh r)
    (h : PTrace (cacheMachine r fleet) (visits r) w₀ ts w ph) : Coherent r ts w ph := by
  induction h with
  | nil =>
      have hin {p : PurePath} {hex : PyStr} (hp : r.scratchOf p = some hex) :
          p.isIn r.cacheDir = true := by
        unfold R2Cache.scratchOf at hp
        split at hp
        · next hin => exact hin
        · cases hp
      refine ⟨fun m f hm => ?_, fun q hex f hq hf => ?_, fun p v hex hp => ?_,
        fun p p' v v' hex hp => ?_, fun p v q f hp => ?_, fun p v m data hp => ?_⟩
      · obtain ⟨digest, ext, -, -, hpath⟩ := m.path_eq
        rw [hpath, hstart _ (isIn_child _ _)] at hm
        cases hm
      · rw [hstart _ (hin hq)] at hf
        cases hf
      all_goals cases hp
  | snoc _ hs ih => exact ih.step hs

end Coherent

/-! ## looking and publishing -/

section seen

variable {r : R2Cache} {fleet : Fleet} {w₀ w w' : CacheWorld} {ts : List CacheTrans}
  {c : Config CacheWorld CacheEff CacheAns (Except Foreign StorageResult)}

/-- What a run says of a thread. -/
abbrev visit (r : R2Cache) (p : Nat) (ts : List CacheTrans) : Option (Visit r) :=
  (visits r).watch p ts

/-- What wants an object is a download of its URI. -/
theorem wants_eq {call : StorageCall} {m : Wanted r} (h : call.wants r = some m) :
    call = .downloadToCache m.uri := by
  cases call with
  | downloadToCache uri =>
      have hw : wanted r uri = some m := h
      unfold wanted at hw
      split at hw
      · cases hw
      · split at hw
        · cases hw
        · cases hw
          rfl
  | _ => cases h

/-- What is wanted does not change. -/
theorem Visit.next_want (v : Visit r) (e : CacheEff) (a : CacheAns e) :
    (v.next e a).want = v.want := by
  by_cases he : e.plain = true ∨ ∃ x, a = .error x
  · exact (v.same_next a he).want
  · cases a with
    | error x => exact absurd (.inr ⟨x, rfl⟩) he
    | ok b =>
        cases e with
        | uuid4 | getObject _ | writeFile _ _ => rfl
        | replace p q =>
            show (if _ then _ else _ : Visit r).want = _
            split <;> rfl
        | _ => exact absurd (.inl rfl) he

/-- A thread wants what its call is about. -/
theorem spawned_of_visit {p : Nat} {v : Visit r} {m : Wanted r} (h : visit r p ts = some v)
    (hm : v.want = some m) : Spawned p (.downloadToCache m.uri) ts := by
  obtain ⟨call, hcall, hwant⟩ := Protocol.spawned_of_watch
    (I := fun (v : Visit r) call => v.want = call.wants r) (fun _ => rfl)
    (fun v e a call hi => (v.next_want e a).trans hi) h
  rwa [wants_eq (hwant.symm.trans hm)] at hcall

/-- A download's visit wants the object of its URI. -/
theorem visit_want (h : Trace (cacheMachine r fleet) w₀ ts c) {p : Nat} {v : Visit r}
    {m : Wanted r} (hv : visit r p ts = some v) (hcall : Spawned p (.downloadToCache m.uri) ts) :
    v.want = some m := by
  obtain ⟨call, hcall', hwant⟩ := Protocol.spawned_of_watch
    (I := fun (v : Visit r) call => v.want = call.wants r) (fun _ => rfl)
    (fun v e a call hi => (v.next_want e a).trans hi) hv
  rw [hwant, h.spawned_unique.2 p _ _ hcall' hcall]
  exact wanted_eq_some m

/-- What is known of a thread after one more step. -/
theorem visit_snoc {ev : Event CacheEff CacheAns StorageCall (Except Foreign StorageResult)}
    {q : Nat} {v' : Visit r} (h : visit r q (ts ++ [⟨w, ev, w'⟩]) = some v') :
    (visit r q ts = some v' ∧ ∀ e a, ev ≠ .act q e a) ∨
      (∃ call, ev = .spawn q call ∧ v' = { want := call.wants r }) ∨
      ∃ v e a, ev = .act q e a ∧ visit r q ts = some v ∧ v' = v.next e a := by
  rw [visit, Protocol.watch_snoc] at h
  cases ev with
  | act p e a =>
      simp only [Protocol.observe] at h
      split at h
      · next hp =>
          obtain ⟨v, hv, rfl⟩ := Option.map_eq_some_iff.1 h
          exact .inr (.inr ⟨v, e, a, by rw [hp], hv, rfl⟩)
      · next hp =>
          refine .inl ⟨h, fun e' a' he => hp ?_⟩
          cases he
          rfl
  | spawn p call =>
      simp only [Protocol.observe] at h
      split at h
      · next hp =>
          cases h
          exact .inr (.inl ⟨call, by rw [hp], rfl⟩)
      · exact .inl ⟨h, fun e a he => by cases he⟩
  | done p res | crash p =>
      simp only [Protocol.observe] at h
      split at h
      · cases h
      · exact .inl ⟨h, fun e a he => by cases he⟩
  | tick d => exact .inl ⟨h, fun e a he => by cases he⟩

variable {p : Nat} {v : Visit r} {e : CacheEff} {o : CacheOracle} {a : CacheAns e}

/-- A successful await was performed. -/
theorem perform_of_ok {b : e.Ret} (hx : CacheWorld.exec r fleet p e o w = some (.ok b, w')) :
    ∃ u, w.perform r fleet p u e = some (.ok b, w') := by
  obtain h | ⟨⟨x, hx⟩, -⟩ := exec_cases hx
  · exact h
  · cases hx

/-- A miss was not seen. -/
theorem Visit.miss_seen (v : Visit r) : v.miss.seen = v.seen := by
  unfold Visit.miss
  split <;> rfl

/-- What is seen is there. -/
theorem file_of_seen (hx : CacheWorld.exec r fleet p e o w = some (a, w'))
    (h : (v.next e a).seen = true) :
    v.seen = true ∨ ∃ q f, v.path = some q ∧ w'.files.lookup q = some f := by
  cases a with
  | error x =>
      rw [v.next_error e x] at h
      exact .inl h
  | ok b =>
      cases e with
      | isFile q =>
          have hnext : (v.next (.isFile q) (.ok b)).seen = v.seen := by
            show (if _ then v.miss else v).seen = _
            split
            · exact v.miss_seen
            · rfl
          exact .inl (hnext ▸ h)
      | stat q =>
          obtain ⟨u, hp⟩ := perform_of_ok hx
          simp only [CacheWorld.perform] at hp
          split at hp <;> cases hp
          next f hf =>
            by_cases hq : v.path = some q
            · exact .inr ⟨q, f, hq, hf⟩
            · have hnext : v.next (.stat q) (.ok ⟨f.data.length, f.mtime⟩) = v := if_neg hq
              exact .inl (hnext ▸ h)
      | replace q q' =>
          obtain ⟨u, hp⟩ := perform_of_ok hx
          simp only [CacheWorld.perform] at hp
          split at hp <;> cases hp
          next f hf =>
            by_cases hq : v.path = some q'
            · exact .inr ⟨q', f, hq, AList.lookup_insert _⟩
            · have hnext : (v.next (.replace q q') (.ok ())).seen = v.seen := by
                show (if _ then _ else _ : Visit r).seen = _
                rw [if_neg hq]
              exact .inl (hnext ▸ h)
      | _ => exact .inl h

/-- What is missed is not there, or is empty. -/
theorem file_of_missed (hx : CacheWorld.exec r fleet p e o w = some (a, w'))
    (h : (v.next e a).stage = .missed) :
    v.stage = .missed ∨ ∃ q, v.path = some q ∧ ∀ f, w'.files.lookup q = some f → f.data = [] := by
  cases a with
  | error x =>
      rw [v.next_error e x] at h
      exact .inl h
  | ok b =>
      cases e with
      | isFile q =>
          obtain ⟨u, hp⟩ := perform_of_ok hx
          cases hp
          by_cases hq : v.path = some q ∧ (w.files.lookup q).isSome = false
          · refine .inr ⟨q, hq.1, fun f hf => ?_⟩
            rw [hf] at hq
            cases hq.2
          · have hnext : v.next (.isFile q) (.ok (w.files.lookup q).isSome) = v := if_neg hq
            exact .inl (hnext ▸ h)
      | stat q =>
          obtain ⟨u, hp⟩ := perform_of_ok hx
          simp only [CacheWorld.perform] at hp
          split at hp <;> cases hp
          next f hf =>
            by_cases hq : v.path = some q
            · rw [Visit.next_stat hq] at h
              split at h
              · exact .inl h
              · next hsize =>
                  refine .inr ⟨q, hq, fun f' hf' => ?_⟩
                  cases hf.symm.trans hf'
                  simpa using hsize
            · have hnext : v.next (.stat q) (.ok ⟨f.data.length, f.mtime⟩) = v := if_neg hq
              exact .inl (hnext ▸ h)
      | replace q q' =>
          have hnext : (v.next (.replace q q') (.ok b)).stage = .missed → v.stage = .missed := by
            show (if _ then _ else _ : Visit r).stage = .missed → _
            split
            · intro h
              cases h
            · exact id
          exact .inl (hnext h)
      | acquire _ | release _ => cases h
      | _ => exact .inl h

/-- What holds with a miss held before. -/
theorem Visit.holds_miss (v : Visit r) (h : v.miss.Holds) : v.Holds := by
  unfold Visit.miss at h
  split at h
  · next hs => exact .of_stage (.inl hs)
  · exact h

/-- Only `acquire` gives a thread its lock. -/
theorem Visit.holds_next (hal : v.Allows e) (he : ∀ uri, e ≠ .acquire uri)
    (h : (v.next e a).Holds) : v.Holds := by
  cases a with
  | error x =>
      rw [v.next_error e x] at h
      exact h
  | ok b =>
      cases e with
      | acquire uri => exact absurd rfl (he uri)
      | release uri => exact hal.1
      | replace q q' => exact .of_stage (.inr (.inl hal.1))
      | isFile q =>
          have hnext : (if v.path = some q ∧ b = false then v.miss else v).Holds := h
          split at hnext
          · exact v.holds_miss hnext
          · exact hnext
      | stat q =>
          have hnext : (if v.path = some q then
            if 0 < b.size then { v with seen := true } else v.miss else v).Holds := h
          split at hnext
          · split at hnext
            · exact hnext
            · exact v.holds_miss hnext
          · exact hnext
      | _ => exact h

/-- What happens to the locks. -/
theorem exec_lock (hx : CacheWorld.exec r fleet p e o w = some (a, w')) (hal : v.Allows e) :
    w'.lock = w.lock ∧ ((v.next e a).Holds → v.Holds) ∨
      (∃ m, v.want = some m ∧ w.lock (fleet.host p, m.uri) = none ∧
        w'.lock = Function.update w.lock (fleet.host p, m.uri) (some p)) ∨
      ∃ m, v.want = some m ∧ ¬(v.next e a).Holds ∧ v.Holds ∧
        w'.lock = Function.update w.lock (fleet.host p, m.uri) none := by
  obtain ⟨u, hp⟩ | ⟨⟨x, rfl⟩, -, -, hlock, -⟩ := exec_cases hx
  · cases e with
    | acquire uri =>
        obtain ⟨-, m, hm, rfl⟩ := hal
        simp only [CacheWorld.perform] at hp
        split at hp <;> cases hp
        next hfree => exact .inr (.inl ⟨m, hm, Option.isNone_iff_eq_none.1 hfree, rfl⟩)
    | release uri =>
        obtain ⟨hh, m, hm, rfl⟩ := hal
        cases hp
        exact .inr (.inr ⟨m, hm, fun h => h.2 rfl, hh, rfl⟩)
    | uuid4 =>
        simp only [CacheWorld.perform] at hp
        generalize hexDigits 32 u.toNat = hex at hp
        split at hp <;> cases hp
        exact .inl ⟨rfl, Visit.holds_next hal fun uri he => by cases he⟩
    | isFile _ | iterdir | getpid | deleteObject _ | writeFile _ _ =>
        cases hp
        exact .inl ⟨rfl, Visit.holds_next hal fun uri he => by cases he⟩
    | stat _ | readFile _ | putObject _ _ | getObject _ | unlink _ | replace _ _ =>
        simp only [CacheWorld.perform] at hp
        split at hp <;> cases hp
        all_goals exact .inl ⟨rfl, Visit.holds_next hal fun uri he => by cases he⟩
  · exact .inl ⟨hlock, fun h => v.next_error e x ▸ h⟩

end seen

/-! ## the runs -/

section runs

variable {r : R2Cache} {fleet : Fleet} {w₀ : CacheWorld} {ts : List CacheTrans}
  {c : Config CacheWorld CacheEff CacheAns (Except Foreign StorageResult)}

/-- A thread that has the lock of its URI is the one the lock is held by. -/
theorem lock_of_holds (hclient : DownloadsWhole r.downloadFile)
    (h : Trace (cacheMachine r fleet) w₀ ts c) {p : Nat} {v : Visit r} {m : Wanted r}
    (hv : visit r p ts = some v) (hh : v.Holds) (hm : v.want = some m) :
    c.world.lock (fleet.host p, m.uri) = some p := by
  refine h.induct_watch (cacheMachine_follows hclient) (I := fun ts w => ∀ p v m,
    visit r p ts = some v → v.Holds → v.want = some m → w.lock (fleet.host p, m.uri) = some p)
    (fun p v m hp => by cases hp) ?_ p v m hv hh hm
  intro ts c ev c' _ _ hW ih q v' m hv hh hm
  obtain ⟨hv₁, hother⟩ | ⟨call, -, rfl⟩ | ⟨v, e, a, rfl, hv₁, rfl⟩ := visit_snoc hv
  · have hlock := ih q v' m hv₁ hh hm
    cases ev with
    | act p e a =>
        obtain ⟨v, o, hp, hx, hal⟩ := hW.act_inv
        obtain ⟨hsame, -⟩ | ⟨m', hm', hfree, hset⟩ | ⟨m', hm', -, hheld, hset⟩ := exec_lock hx hal
        · rw [hsame]
          exact hlock
        · rw [hset]
          by_cases hk : (fleet.host q, m.uri) = (fleet.host p, m'.uri)
          · rw [hk, hfree] at hlock
            cases hlock
          · rw [Function.update_of_ne hk]
            exact hlock
        · rw [hset]
          by_cases hk : (fleet.host q, m.uri) = (fleet.host p, m'.uri)
          · -- only the holder gives the lock back
            rw [hk, ih p v m' hp hheld hm'] at hlock
            cases hlock
            exact absurd rfl (hother e a)
          · rw [Function.update_of_ne hk]
            exact hlock
    | spawn p call => exact hW.spawn_inv.2 ▸ hlock
    | done p res =>
        obtain ⟨-, -, -, hw⟩ := hW.done_inv
        exact hw ▸ hlock
    | crash p =>
        obtain ⟨-, -, hw⟩ := hW.crash_inv
        exact hw ▸ hlock
    | tick d => exact hW.tick_inv ▸ hlock
  · exact absurd rfl hh.1
  · obtain ⟨v₀, o, hv₀, hx, hal⟩ := hW.act_inv
    cases hv₁.symm.trans hv₀
    rw [v.next_want e a] at hm
    obtain ⟨hsame, hkeep⟩ | ⟨m', hm', -, hset⟩ | ⟨m', -, hgone, -, -⟩ := exec_lock hx hal
    · rw [hsame]
      exact ih q v m hv₁ (hkeep hh) hm
    · cases hm'.symm.trans hm
      rw [hset, Function.update_self]
    · exact absurd hh hgone

/-- The run lemma: the cache is coherent after every run. -/
theorem coherent_of_trace (hclient : DownloadsWhole r.downloadFile) (hstart : w₀.Fresh r)
    (h : Trace (cacheMachine r fleet) w₀ ts c) :
    Coherent r ts c.world fun p => visit r p ts :=
  .run hstart (h.watched (cacheMachine_follows hclient))

/-- What a thread has seen was there, at one of its own awaits. -/
theorem once_of_seen (hclient : DownloadsWhole r.downloadFile)
    (h : Trace (cacheMachine r fleet) w₀ ts c) {p : Nat} {v : Visit r} {m : Wanted r}
    (hv : visit r p ts = some v) (hseen : v.seen = true) (hm : v.want = some m) :
    Once (fun past t => Spawned p (.downloadToCache m.uri) past ∧
      ∃ f, t.post.files.lookup m.path = some f) ts := by
  refine h.induct_watch (cacheMachine_follows hclient) (I := fun ts _ => ∀ p v m,
    visit r p ts = some v → v.seen = true → v.want = some m →
      Once (fun past t => Spawned p (.downloadToCache m.uri) past ∧
        ∃ f, t.post.files.lookup m.path = some f) ts)
    (fun p v m hp => by cases hp) ?_ p v m hv hseen hm
  intro ts c ev c' _ _ hW ih q v' m hv hseen hm
  obtain ⟨hv₁, -⟩ | ⟨call, -, rfl⟩ | ⟨v, e, a, rfl, hv₁, rfl⟩ := visit_snoc hv
  · exact (ih q v' m hv₁ hseen hm).append _
  · cases hseen
  · obtain ⟨v₀, o, hv₀, hx, -⟩ := hW.act_inv
    rw [v.next_want e a] at hm
    obtain hseen | ⟨x, f, hx, hf⟩ := file_of_seen hx hseen
    · exact (ih q v m hv₁ hseen hm).append _
    · obtain ⟨m', hm', rfl⟩ := Option.map_eq_some_iff.1 hx
      cases hm'.symm.trans hm
      exact once_snoc.2 (.inr ⟨spawned_of_visit hv₁ hm, f, hf⟩)

/-- **Cached files are whole.**  Whatever is cached at any moment of a run is one
object as the bucket held it, and a download that returns has seen it there. -/
theorem cache_whole (hclient : DownloadsWhole r.downloadFile) (hstart : w₀.Fresh r)
    (h : Trace (cacheMachine r fleet) w₀ ts c) :
    (∀ (m : Wanted r) f, c.world.files.lookup m.path = some f → Whole r ts m.path f.data) ∧
      Always (fun past t => ∀ p path, t.ev = .done p (.ok (.path path)) →
        ∃ m : Wanted r, m.path = path ∧ Spawned p (.downloadToCache m.uri) past ∧
          Once (fun before u => Spawned p (.downloadToCache m.uri) before ∧
            ∃ f, u.post.files.lookup path = some f ∧ Whole r (before ++ [u]) path f.data) past)
        ts := by
  refine ⟨(coherent_of_trace hclient hstart h).whole, ?_⟩
  rintro past t rest rfl p path hev
  rw [← List.singleton_append, ← List.append_assoc] at h
  obtain ⟨c₁, h₁⟩ := h.split
  obtain ⟨ph, hlast, hp⟩ := (h₁.watched (cacheMachine_follows hclient)).last
  rw [hev] at hlast
  obtain ⟨v, hv, ⟨-, hret⟩, -⟩ := hlast.done_inv
  rw [hp.watch_eq] at hv
  obtain ⟨m, hm, rfl⟩ := Option.map_eq_some_iff.1 hret.2
  obtain ⟨c₀, h₀⟩ := h₁.split
  refine ⟨m, rfl, spawned_of_visit hv hm, ?_⟩
  obtain ⟨before, u, after, hsplit, hcall, f, hf⟩ := once_of_seen hclient h₀ hv hret.1 hm
  refine ⟨before, u, after, hsplit, hcall, f, hf, ?_⟩
  rw [hsplit, ← List.singleton_append, ← List.append_assoc] at h₀
  obtain ⟨c₂, h₂⟩ := h₀.split
  obtain ⟨-, -, -, hpost, -⟩ := h₂.last
  exact (coherent_of_trace hclient hstart h₂).whole m f (hpost ▸ hf)

/-- While a file that a thread has put into the cache is there, no thread of its
OS process has missed it. -/
theorem not_missed (hclient : DownloadsWhole r.downloadFile) {past mid : List CacheTrans}
    {t : CacheTrans} (h : Trace (cacheMachine r fleet) w₀ (past ++ t :: mid) c) {p : Nat}
    {m : Wanted r} (hp : Spawned p (.downloadToCache m.uri) past) {tmp : PurePath}
    (hput : t.ev = .act p (.replace tmp m.path) (.ok ()))
    (hkept : ∀ x ∈ t :: mid, ∃ f, x.post.files.lookup m.path = some f ∧ f.data ≠ []) {q : Nat}
    {v : Visit r} (hhost : fleet.host q = fleet.host p)
    (hv : visit r q (past ++ t :: mid) = some v) (hm : v.want = some m) : v.stage ≠ .missed := by
  induction mid using List.reverseRecOn generalizing c q v with
  | nil =>
      -- the thread had the lock
      obtain ⟨ph, hs, hph⟩ := (h.watched (cacheMachine_follows hclient)).last
      obtain ⟨c₀, h₀, -, -, -⟩ := h.last
      rw [hput] at hs
      obtain ⟨v₀, o, hv₀, hx, hal⟩ := hs.act_inv
      rw [hph.watch_eq] at hv₀
      have hwant := visit_want h₀ hv₀ hp
      have hlock := lock_of_holds hclient h₀ hv₀ (.of_stage (.inr (.inl hal.1))) hwant
      intro hstage
      have ht : past ++ [t] = past ++ [⟨t.pre, .act p (.replace tmp m.path) (.ok ()), t.post⟩] := by
        rw [← hput]
      rw [ht] at hv
      obtain ⟨hv₁, hother⟩ | ⟨call, hev, -⟩ | ⟨v₁, e, a, hev, hv₁, rfl⟩ := visit_snoc hv
      · have hlock' := lock_of_holds hclient h₀ hv₁ (.of_stage (.inr (.inl hstage))) hm
        rw [hhost, hlock] at hlock'
        cases hlock'
        exact hother _ _ rfl
      · cases hev
      · cases hev
        cases hv₀.symm.trans hv₁
        have hpath : v₀.path = some m.path := by rw [Visit.path, hwant]; rfl
        rw [Visit.next_replace_path tmp hpath] at hstage
        cases hstage
  | append_singleton mid x ih =>
      have hsplit : past ++ t :: (mid ++ [x]) = (past ++ t :: mid) ++ [x] := by simp
      rw [hsplit] at h hv
      obtain ⟨c₀, h₀, -, hpost, -⟩ := h.last
      obtain ⟨ph, hs, -⟩ := (h.watched (cacheMachine_follows hclient)).last
      have hbefore {v' : Visit r} (hv' : visit r q (past ++ t :: mid) = some v')
          (hm' : v'.want = some m) : v'.stage ≠ .missed := by
        refine ih h₀ (fun y hy => hkept y ?_) hhost hv' hm'
        obtain rfl | hy := List.mem_cons.1 hy
        · exact List.mem_cons_self
        · exact List.mem_cons_of_mem _ (List.mem_append_left _ hy)
      intro hstage
      obtain ⟨hv₁, -⟩ | ⟨call, -, rfl⟩ | ⟨v₁, e, a, hev, hv₁, rfl⟩ := visit_snoc hv
      · exact hbefore hv₁ hm hstage
      · cases hstage
      · rw [hev] at hs
        obtain ⟨v₂, o, hv₂, hx, -⟩ := hs.act_inv
        rw [v₁.next_want e a] at hm
        obtain hstage | ⟨y, hy, hempty⟩ := file_of_missed hx hstage
        · exact hbefore hv₁ hm hstage
        · obtain ⟨m', hm', rfl⟩ := Option.map_eq_some_iff.1 hy
          cases hm'.symm.trans hm
          obtain ⟨f, hf, hne⟩ := hkept x (List.mem_cons_of_mem _ (by simp))
          exact hne (hempty f (hpost ▸ hf))

/-- The thread puts the file of `m` into the cache. -/
def Puts (p : Nat) (m : Wanted r) (t : CacheTrans) : Prop :=
  ∃ tmp, t.ev = .act p (.replace tmp m.path) (.ok ())

/-- The thread asks the bucket for the object of `m`. -/
def Asks (q : Nat) (m : Wanted r) (u : CacheTrans) : Prop :=
  ∃ a, u.ev = .act q (.getObject m.object) a

/-- **A URI is asked for again only when its file has gone.**  After a thread has
put the file into the cache, no thread of its OS process asks the bucket for the
URI, unless at some moment in between the file was not there or was empty. -/
theorem asked_again (hclient : DownloadsWhole r.downloadFile)
    (h : Trace (cacheMachine r fleet) w₀ ts c) {past mid rest : List CacheTrans}
    {t u : CacheTrans} (hts : ts = past ++ t :: (mid ++ u :: rest)) {p q : Nat} {m : Wanted r}
    (hhost : fleet.host q = fleet.host p) (hp : Spawned p (.downloadToCache m.uri) past)
    (hq : Spawned q (.downloadToCache m.uri) (past ++ t :: mid)) (hput : Puts p m t)
    (hask : Asks q m u) :
    ∃ x ∈ t :: mid, ∀ f, x.post.files.lookup m.path = some f → f.data = [] := by
  by_contra hnone
  have hkept : ∀ x ∈ t :: mid, ∃ f, x.post.files.lookup m.path = some f ∧ f.data ≠ [] := by
    simpa using hnone
  subst hts
  rw [show past ++ t :: (mid ++ u :: rest) = (past ++ t :: mid) ++ [u] ++ rest by simp] at h
  obtain ⟨tmp, hput⟩ := hput
  obtain ⟨a, hask⟩ := hask
  obtain ⟨c₁, h₁⟩ := h.split
  obtain ⟨ph, hs, hph⟩ := (h₁.watched (cacheMachine_follows hclient)).last
  obtain ⟨c₀, h₀, -, -, -⟩ := h₁.last
  rw [hask] at hs
  obtain ⟨v, o, hv, hx, hal⟩ := hs.act_inv
  rw [hph.watch_eq] at hv
  exact not_missed hclient h₀ hp hput hkept hhost hv (visit_want h₀ hv hq) hal.1

end runs

/-! ## a run -/

/-- A client that writes a file of its own and renames it. -/
def transferByRename (o : S3URI) (tmp : PurePath) : CachePy Unit := do
  let data ← syscall (.getObject o)
  let part := { tmp with parts := tmp.parts.dropLast ++ [tmp.name ++ py ".6eF5A3c1"] }
  syscall (.writeFile part (data.take 1))
  syscall (.writeFile part data)
  syscall (.replace part tmp)

/-- A client that downloads to a temporary name and renames it meets the assumption.
-/
theorem downloadsWhole_transferByRename : DownloadsWhole transferByRename := by
  intro o tmp htmp
  have hpart : tmp.Covers { tmp with parts := tmp.parts.dropLast ++ [tmp.name ++ py ".6eF5A3c1"] } :=
    ⟨rfl, by simp, by simp, by simp [PurePath.name]⟩
  simp only [transferByRename, spec_bind, syscall, spec_callE]
  refine ⟨rfl, fun data _ => ⟨hpart, fun _ _ => ⟨hpart, fun _ _ => ⟨⟨hpart, covers_self htmp⟩,
    fun _ _ => ?_, fun _ _ => trivial⟩, fun _ _ => trivial⟩, fun _ _ => trivial⟩, fun _ _ => trivial⟩
  simp [Transfer.monitor, Transfer.next]

/-- A cache that has room for one of the two files. -/
def smallCache : R2Cache :=
  { plainR2 with cacheMaxBytes := 3, netlocOk := fun _ => true, downloadFile := transferByRename }

/-- One OS process. -/
def oneProcess : Fleet := { host := fun _ => 0, pid := fun _ => 7 }

/-- The object `key` of the bucket `voice`. -/
def voiceUri (key : String) : PyStr := py "s3://voice/" ++ py key

/-- Nothing is stored yet. -/
def emptyCache : CacheWorld where
  files := ∅
  objects := ∅
  lock _ := none
  named := []
  now := 0

/-- Thread `t` downloads `key`; `u` names its temporary file, and `evicts` awaits of
eviction follow the look at the `files` that are cached. -/
def downloads (t : Nat) (key : String) (u : Uuid) (evicts : Nat) :
    List (Label CacheOracle StorageCall) :=
  .spawn t (.downloadToCache (voiceUri key)) ::
    List.replicate (10 + evicts) (.act t (.goes u)) ++ [.act t (.goes u), .done t]

/-- Two objects are uploaded and the first is downloaded; the second takes its
place, and the first is downloaded again. -/
def evictedRun : List (Label CacheOracle StorageCall) :=
  [.spawn 0 (.uploadBytes [1, 2] (py "a.wav") none), .act 0 (.goes 0), .done 0,
    .spawn 1 (.uploadBytes [3, 4] (py "b.wav") none), .act 1 (.goes 0), .done 1] ++
    downloads 2 "a.wav" 1 3 ++ [.tick 1] ++ downloads 3 "b.wav" 2 6 ++ [.tick 1] ++
    downloads 4 "a.wav" 3 6

/-- What `a.wav` leads to. -/
def firstVoice : Wanted smallCache where
  uri := voiceUri "a.wav"
  object := { bucket := py "voice", key := py "a.wav" }
  path := smallCache.cacheDir.child ((sha256 (utf8Bytes (voiceUri "a.wav"))).take 32 ++ py ".wav")
  parsed := rfl
  place := rfl

/-- In that run the first file is there, and whole, until the second takes its place. -/
theorem cache_whole_evicted : ∃ ts c, Trace (cacheMachine smallCache oneProcess) emptyCache ts c ∧
    (∃ t ∈ ts, t.post.files.lookup firstVoice.path = some { data := [1, 2], mtime := 0 }) ∧
    (∀ (m : Wanted smallCache) f, c.world.files.lookup m.path = some f →
      Whole smallCache ts m.path f.data) := by
  obtain ⟨ts, c, h, hmid⟩ := (cacheMachine smallCache oneProcess).exists_trace emptyCache evictedRun
    (fun ts _ => ∃ t ∈ ts, t.post.files.lookup firstVoice.path = some { data := [1, 2], mtime := 0 })
    (by decide +kernel)
  exact ⟨ts, c, h, hmid, (cache_whole downloadsWhole_transferByRename (fun _ _ => rfl) h).1⟩

/-- A test for `Puts`. -/
def putsCheck {r : R2Cache} (p : Nat) (m : Wanted r) (t : CacheTrans) : Bool :=
  match t.ev with
  | .act q (.replace _ path) (.ok _) => q == p && path == m.path
  | _ => false

/-- A test for `Asks`. -/
def asksCheck {r : R2Cache} (q : Nat) (m : Wanted r) (u : CacheTrans) : Bool :=
  match u.ev with
  | .act p (.getObject o) _ => p == q && o == m.object
  | _ => false

/-- A test for `Spawned`. -/
def spawnsCheck (p : Nat) (uri : PyStr) (t : CacheTrans) : Bool :=
  match t.ev with
  | .spawn q call => q == p && call == .downloadToCache uri
  | _ => false

/-- What the check finds puts the file. -/
theorem puts_of_check {r : R2Cache} {p : Nat} {m : Wanted r} {t : CacheTrans}
    (h : putsCheck p m t = true) : Puts p m t := by
  unfold putsCheck at h
  split at h
  · next q tmp path b hev =>
      obtain ⟨rfl, rfl⟩ : q = p ∧ path = m.path := by simpa using h
      exact ⟨tmp, hev⟩
  · cases h

/-- What the check finds asks the bucket. -/
theorem asks_of_check {r : R2Cache} {q : Nat} {m : Wanted r} {u : CacheTrans}
    (h : asksCheck q m u = true) : Asks q m u := by
  unfold asksCheck at h
  split at h
  · next p o a hev =>
      obtain ⟨rfl, rfl⟩ : p = q ∧ o = m.object := by simpa using h
      exact ⟨a, hev⟩
  · cases h

/-- What the check finds starts the download. -/
theorem spawned_of_check {p : Nat} {uri : PyStr} {ts : List CacheTrans}
    (h : ts.any (spawnsCheck p uri) = true) : Spawned p (.downloadToCache uri) ts := by
  obtain ⟨t, ht, h⟩ := List.any_eq_true.1 h
  unfold spawnsCheck at h
  split at h
  · next q call hev =>
      obtain ⟨rfl, rfl⟩ : q = p ∧ call = .downloadToCache uri := by simpa using h
      exact ⟨t, ht, hev⟩
  · cases h

/-- A list is split at an element. -/
theorem split_at {α : Type} {xs : List α} {i : Nat} {x : α} (h : xs[i]? = some x) :
    xs = xs.take i ++ x :: xs.drop (i + 1) := by
  obtain ⟨hi, rfl⟩ := List.getElem?_eq_some_iff.1 h
  rw [← List.drop_eq_getElem_cons hi, List.take_append_drop]

/-- In that run the first file is asked for again: it was evicted in between. -/
theorem asked_again_evicted : ∃ ts c, Trace (cacheMachine smallCache oneProcess) emptyCache ts c ∧
    ∃ past t mid u rest, ts = past ++ t :: (mid ++ u :: rest) ∧ Puts 2 firstVoice t ∧
      Asks 4 firstVoice u ∧
      ∃ x ∈ t :: mid, ∀ f, x.post.files.lookup firstVoice.path = some f → f.data = [] := by
  obtain ⟨ts, c, h, hcheck⟩ := (cacheMachine smallCache oneProcess).exists_trace emptyCache
    evictedRun (fun ts _ => (ts.take 16).any (spawnsCheck 2 firstVoice.uri) = true ∧
      ts[16]?.any (putsCheck 2 firstVoice) = true ∧
      ((ts.drop 17).take 32).any (spawnsCheck 4 firstVoice.uri) = true ∧
      (ts.drop 17)[32]?.any (asksCheck 4 firstVoice) = true) (by decide +kernel)
  obtain ⟨hp, hput, hq, hask⟩ := hcheck
  obtain ⟨t, ht, hput⟩ := Option.any_eq_true _ _ |>.1 hput
  obtain ⟨u, hu, hask⟩ := Option.any_eq_true _ _ |>.1 hask
  have hts : ts = ts.take 16 ++ t :: ((ts.drop 17).take 32 ++ u :: (ts.drop 17).drop 33) := by
    rw [← split_at hu]
    exact split_at ht
  have hmid : Spawned 4 (.downloadToCache firstVoice.uri) (t :: (ts.drop 17).take 32) := by
    obtain ⟨x, hx, hev⟩ := spawned_of_check hq
    exact ⟨x, List.mem_cons_of_mem _ hx, hev⟩
  refine ⟨ts, c, h, _, t, _, u, _, hts, puts_of_check hput, asks_of_check hask, ?_⟩
  exact asked_again (p := 2) (q := 4) downloadsWhole_transferByRename h hts rfl (spawned_of_check hp)
    (spawned_append.2 (.inr hmid)) (puts_of_check hput) (asks_of_check hask)

end NeuroVoice
