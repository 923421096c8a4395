import NeuroVoice.Models
import NeuroVoice.Lib.Lru
import NeuroVoice.Lib.Timeline

/-!
# NeuroVoice.Engine

`worker/engine.py`: the models a worker keeps loaded.

`_model_for_adapter` is a least-recently-used cache around a load that can
fail.  It makes room before it loads, so a load that fails with a full cache
has dropped a model for nothing: `lora_cache_lru`.
-/

namespace NeuroVoice

/-! ## models -/

/-- The third-party part: `voxcpm`, and `json.loads`. -/
structure VoxCPM where
  Model : Type
  LoraConfig : Type
  jsonLoads : PyStr → Except Foreign Json
  /-- `LoRAConfig(**payload)`, and its import. -/
  loraConfig : Json → Except Foreign LoraConfig
  /-- `model.tts_model.sample_rate`, if it is there. -/
  innerSampleRate : Model → Option Nat

/-- `LoRAAdapterSpec`, with paths as `str` writes them. -/
structure LoRAAdapterSpec where
  path : PyStr
  configPath : Option PyStr := none
  deriving DecidableEq

/-- `_CacheKey`. -/
abbrev CacheKey := PyStr × Option (PyStr × Option PyStr)

/-- What `VoxCPM2Engine.__init__` is given; it refuses a cache without room. -/
structure EngineConfig where
  modelId : PyStr
  hfRevision : Option PyStr
  device : PyStr
  loadDenoiser : Bool
  optimize : Bool
  cacheSize : Nat
  cacheSize_pos : 1 ≤ cacheSize

/-- `kwargs` of `VoxCPM.from_pretrained`. -/
structure LoadArgs (V : VoxCPM) where
  loadDenoiser : Bool
  optimize : Bool
  device : PyStr
  loraConfig : Option V.LoraConfig := none
  loraWeightsPath : Option PyStr := none
  revision : Option PyStr := none

/-- The machine at the time of a load. -/
structure Disk (V : VoxCPM) where
  pathExists : PyStr → Bool
  isFile : PyStr → Bool
  readText : PyStr → Except Foreign PyStr
  importVoxcpm : Except Foreign Unit
  fromPretrained : PyStr → LoadArgs V → Except Foreign V.Model

/-- The mutable part of a `VoxCPM2Engine`; `models` is the `OrderedDict`, the
oldest entry first. -/
structure EngineState (V : VoxCPM) where
  models : List (CacheKey × V.Model) := []
  evictionsTotal : Nat := 0
  model : Option V.Model := none
  sampleRate : Nat := 48000

section cache

variable {V : VoxCPM}

/-- `key`. -/
def cacheKey (cfg : EngineConfig) (adapter : Option LoRAAdapterSpec) : CacheKey :=
  (cfg.modelId, adapter.map fun a => (a.path, a.configPath))

/-- `self._models.get(key)`. -/
def EngineState.get (s : EngineState V) (key : CacheKey) : Option V.Model :=
  (s.models.find? fun kv => kv.1 == key).map Prod.snd

/-- A hit: `move_to_end`, and the `/health` pointer. -/
def EngineState.hit (s : EngineState V) (key : CacheKey) (cached : V.Model) : EngineState V :=
  { s with
    models := s.models.filter (fun kv => kv.1 != key) ++ [(key, cached)]
    model := some cached }

/-- `_evict_oldest_locked`. -/
def EngineState.evictOldest (s : EngineState V) : EngineState V :=
  match s.models with
  | [] => s
  | _ :: models => { s with models, evictionsTotal := s.evictionsTotal + 1 }

/-- `while len(self._models) >= self._cache_size`, for so many rounds. -/
def EngineState.evictWhile (size : Nat) : Nat → EngineState V → EngineState V
  | 0, s => s
  | n + 1, s => if size ≤ s.models.length then evictWhile size n s.evictOldest else s

/-- The loop: there are no more rounds than models. -/
def EngineState.makeRoom (s : EngineState V) (size : Nat) : EngineState V :=
  s.evictWhile size s.models.length

/-- A path in the text of an exception. -/
def pathText (path : PyStr) : String := String.ofList (path.map Char.ofNat)

/-- `path / "lora_config.json"`. -/
def defaultConfigPath (path : PyStr) : PyStr :=
  if path.getLast? == some 0x2F then path ++ py "lora_config.json"
  else path ++ py "/lora_config.json"

/-- `_read_lora_config`. -/
def readLoraConfig (disk : Disk V) (a : LoRAAdapterSpec) : Except Foreign V.LoraConfig := do
  let configPath := a.configPath.getD (defaultConfigPath a.path)
  if !disk.isFile configPath then
    throw (.fileNotFound ("LoRA config missing: " ++ pathText configPath))
  let raw ← V.jsonLoads (← disk.readText configPath)
  let payload ← raw.dictGet (py "lora_config")
  V.loraConfig (payload.getD raw)

/-- The adapter's part of `kwargs`. -/
def adapterArgs (disk : Disk V) (args : LoadArgs V) :
    Option LoRAAdapterSpec → Except Foreign (LoadArgs V)
  | none => .ok args
  | some a => do
      if !disk.pathExists a.path then
        throw (.fileNotFound ("LoRA adapter path missing: " ++ pathText a.path))
      let config ← readLoraConfig disk a
      return { args with loraConfig := some config, loraWeightsPath := some a.path }

/-- The cold load. -/
def loadModel (cfg : EngineConfig) (disk : Disk V) (adapter : Option LoRAAdapterSpec) :
    Except Foreign V.Model := do
  disk.importVoxcpm
  let args ← adapterArgs disk
    { loadDenoiser := cfg.loadDenoiser, optimize := cfg.optimize, device := cfg.device } adapter
  let revision := cfg.hfRevision.filter fun r => !r.isEmpty && r != py "main"
  disk.fromPretrained cfg.modelId { args with revision }

/-- What a loaded model leaves. -/
def EngineState.store (s : EngineState V) (key : CacheKey) (model : V.Model) : EngineState V :=
  { s with
    models := s.models ++ [(key, model)]
    model := some model
    sampleRate := ((V.innerSampleRate model).filter (· != 0)).getD s.sampleRate }

/-- `_model_for_adapter`. -/
def modelForAdapter (cfg : EngineConfig) (disk : Disk V) (adapter : Option LoRAAdapterSpec)
    (s : EngineState V) : Except Foreign V.Model × EngineState V :=
  let key := cacheKey cfg adapter
  match s.get key with
  | some cached => (.ok cached, s.hit key cached)
  | none =>
      let s := s.makeRoom cfg.cacheSize
      match loadModel cfg disk adapter with
      | .error x => (.error x, s)
      | .ok model => (.ok model, s.store key model)

/-! ## runs -/

/-- A request, and the machine at its time. -/
structure LoadRequest (V : VoxCPM) where
  adapter : Option LoRAAdapterSpec
  disk : Disk V

/-- A run so far. -/
structure EngineRun (V : VoxCPM) where
  engine : EngineState V
  /-- The keys requested with success, the last one first. -/
  requested : List CacheKey
  /-- What the loads returned, and the keys they were for, the last one first. -/
  loaded : List (CacheKey × V.Model)

/-- What the request returns, and the engine after it. -/
def EngineRun.call (cfg : EngineConfig) (g : EngineRun V) (r : LoadRequest V) :
    Except Foreign V.Model × EngineState V :=
  modelForAdapter cfg r.disk r.adapter g.engine

/-- The load that the request makes, if it is a miss and the load succeeds. -/
def EngineRun.loads (cfg : EngineConfig) (g : EngineRun V) (r : LoadRequest V) :
    List (CacheKey × V.Model) :=
  match g.engine.get (cacheKey cfg r.adapter), loadModel cfg r.disk r.adapter with
  | none, .ok model => [(cacheKey cfg r.adapter, model)]
  | _, _ => []

/-- The run after a request. -/
def EngineRun.next (cfg : EngineConfig) (g : EngineRun V) (r : LoadRequest V) : EngineRun V where
  engine := (g.call cfg r).2
  requested := if (g.call cfg r).1.isOk then cacheKey cfg r.adapter :: g.requested else g.requested
  loaded := g.loads cfg r ++ g.loaded

/-- The engine at its start. -/
def EngineRun.start : EngineRun V := ⟨{}, [], []⟩

/-! ## the law -/

/-- The last load that the run made for this key returned the model. -/
def BuiltFor (g : EngineRun V) (key : CacheKey) (model : V.Model) : Prop :=
  g.loaded.find? (fun kv => kv.1 == key) = some (key, model)

/-- What a correct cache does with a request. -/
structure ServesLru (cfg : EngineConfig) (g : EngineRun V) (r : LoadRequest V) : Prop where
  bounded : (g.call cfg r).2.models.length ≤ cfg.cacheSize
  built : ∀ model, (g.call cfg r).1 = .ok model →
    BuiltFor (g.next cfg r) (cacheKey cfg r.adapter) model
  hit : cacheKey cfg r.adapter ∈ (Lru.recent g.requested).take cfg.cacheSize →
    ∃ cached, g.engine.get (cacheKey cfg r.adapter) = some cached ∧ (g.call cfg r).1 = .ok cached
  failed : ∀ x, (g.call cfg r).1 = .error x → (g.call cfg r).2.models = g.engine.models

/-- The request is a miss in a full cache, and its load fails. -/
def FailsFull (cfg : EngineConfig) (g : EngineRun V) (r : LoadRequest V) : Prop :=
  g.engine.get (cacheKey cfg r.adapter) = none ∧ cfg.cacheSize ≤ g.engine.models.length ∧
    ∃ x, loadModel cfg r.disk r.adapter = .error x

/-! ## the cache -/

/-- The keys, the last used first. -/
def EngineState.keys (s : EngineState V) : List CacheKey := (s.models.map Prod.fst).reverse

variable {cfg : EngineConfig} {s : EngineState V} {key : CacheKey} {model : V.Model}

theorem EngineState.get_eq_some (h : s.get key = some model) : (key, model) ∈ s.models := by
  obtain ⟨kv, hkv, rfl⟩ := Option.map_eq_some_iff.1 h
  have hkey : kv.1 = key := by simpa using List.find?_some hkv
  rw [← hkey]
  exact List.mem_of_find?_eq_some hkv

theorem EngineState.get_eq_none : s.get key = none ↔ key ∉ s.keys := by
  unfold get keys
  rw [Option.map_eq_none_iff, List.find?_eq_none, List.mem_reverse, List.mem_map]
  constructor
  · rintro h ⟨kv, hkv, rfl⟩
    exact h kv hkv (by simp)
  · intro h kv hkv heq
    exact h ⟨kv, hkv, by simpa using heq⟩

theorem EngineState.models_evictWhile {size : Nat} (hsize : 1 ≤ size) (n : Nat)
    (hn : s.models.length ≤ n) :
    (s.evictWhile size n).models = s.models.drop (s.models.length + 1 - size) := by
  induction n generalizing s with
  | zero =>
      have hnil : s.models = [] := List.length_eq_zero_iff.1 (Nat.le_zero.1 hn)
      simp [evictWhile, hnil]
  | succ n ih =>
      rw [evictWhile]
      split
      · next hfull =>
          cases hmodels : s.models with
          | nil =>
              rw [hmodels] at hfull
              simp only [List.length_nil] at hfull
              omega
          | cons kv models =>
              have hnext : s.evictOldest.models = models := by
                simp [evictOldest, hmodels]
              rw [hmodels, List.length_cons] at hn hfull
              have hdrop : models.length + 1 + 1 - size = (models.length + 1 - size) + 1 := by omega
              rw [ih (by rw [hnext]; omega), hnext, List.length_cons, hdrop, List.drop_succ_cons]
      · next hroom =>
          have hzero : s.models.length + 1 - size = 0 := by omega
          rw [hzero, List.drop_zero]

theorem EngineState.models_makeRoom {size : Nat} (hsize : 1 ≤ size) :
    (s.makeRoom size).models = s.models.drop (s.models.length + 1 - size) :=
  models_evictWhile hsize _ (Nat.le_refl _)

/-- After the loop there is room. -/
theorem EngineState.length_makeRoom {size : Nat} (hsize : 1 ≤ size) :
    (s.makeRoom size).models.length < size := by
  rw [models_makeRoom hsize, List.length_drop]
  omega

theorem EngineState.keys_hit (cached : V.Model) :
    (s.hit key cached).keys = Lru.touch key s.keys := by
  simp [hit, keys, Lru.touch, List.filter_map, Function.comp_def]

/-- The oldest entries give way. -/
theorem EngineState.keys_store {size : Nat} (hsize : 1 ≤ size) :
    ((s.makeRoom size).store key model).keys = key :: s.keys.take (size - 1) := by
  have hkeys : ((s.models.map Prod.fst).drop (s.models.length + 1 - size)).reverse =
      (s.models.map Prod.fst).reverse.take (size - 1) := by
    rw [List.reverse_drop, List.length_map, List.take_eq_take_iff, List.length_reverse,
      List.length_map]
    omega
  simp [store, keys, models_makeRoom hsize, hkeys]

/-! ## one request -/

variable {g : EngineRun V} {r : LoadRequest V}

/-- A hit. -/
theorem call_hit {cached : V.Model} (h : g.engine.get (cacheKey cfg r.adapter) = some cached) :
    g.call cfg r = (.ok cached, g.engine.hit (cacheKey cfg r.adapter) cached) := by
  simp only [EngineRun.call, modelForAdapter, h]

/-- A miss whose load succeeds. -/
theorem call_loaded (h : g.engine.get (cacheKey cfg r.adapter) = none)
    (hload : loadModel cfg r.disk r.adapter = .ok model) :
    g.call cfg r =
      (.ok model, (g.engine.makeRoom cfg.cacheSize).store (cacheKey cfg r.adapter) model) := by
  simp only [EngineRun.call, modelForAdapter, h, hload]

theorem loads_hit {cached : V.Model} (h : g.engine.get (cacheKey cfg r.adapter) = some cached) :
    g.loads cfg r = [] := by
  simp only [EngineRun.loads, h]

theorem loads_loaded (h : g.engine.get (cacheKey cfg r.adapter) = none)
    (hload : loadModel cfg r.disk r.adapter = .ok model) :
    g.loads cfg r = [(cacheKey cfg r.adapter, model)] := by
  simp only [EngineRun.loads, h, hload]

theorem loads_failed {x : Foreign} (hload : loadModel cfg r.disk r.adapter = .error x) :
    g.loads cfg r = [] := by
  unfold EngineRun.loads
  rw [hload]
  split
  · next hok => cases hok
  · rfl

/-- A miss whose load fails. -/
theorem call_failed {x : Foreign} (h : g.engine.get (cacheKey cfg r.adapter) = none)
    (hload : loadModel cfg r.disk r.adapter = .error x) :
    g.call cfg r = (.error x, g.engine.makeRoom cfg.cacheSize) := by
  simp only [EngineRun.call, modelForAdapter, h, hload]

/-- The cache holds the models of the keys used last. -/
structure EngineRun.IsLru (cfg : EngineConfig) (g : EngineRun V) : Prop where
  keys : g.engine.keys = (Lru.recent g.requested).take cfg.cacheSize
  built : ∀ kv ∈ g.engine.models, BuiltFor g kv.1 kv.2

theorem EngineRun.IsLru.length_le (h : g.IsLru cfg) : g.engine.models.length ≤ cfg.cacheSize := by
  have hlen : g.engine.keys.length = g.engine.models.length := by
    simp [EngineState.keys]
  rw [← hlen, h.keys, List.length_take]
  exact Nat.min_le_left _ _

/-- A load in a full cache that fails drops a model. -/
theorem not_servesLru_of_failsFull (h : FailsFull cfg g r) : ¬ServesLru cfg g r := by
  obtain ⟨hmiss, hfull, x, hload⟩ := h
  intro hserves
  have hcall := call_failed hmiss hload
  have hsame := hserves.failed x (by rw [hcall])
  have hroom := g.engine.length_makeRoom cfg.cacheSize_pos
  rw [hcall] at hsame
  rw [hsame] at hroom
  omega

/-- A hit keeps the order of use. -/
theorem EngineRun.IsLru.next_hit (h : g.IsLru cfg) {cached : V.Model}
    (hget : g.engine.get (cacheKey cfg r.adapter) = some cached) : (g.next cfg r).IsLru cfg := by
  have hcall := call_hit hget
  have hkey : cacheKey cfg r.adapter ∈ (Lru.recent g.requested).take cfg.cacheSize := by
    rw [← h.keys]
    by_contra hnot
    rw [EngineState.get_eq_none.2 hnot] at hget
    cases hget
  constructor
  · simp only [next, hcall, Except.isOk, Except.toBool, if_true, Lru.recent_cons]
    rw [EngineState.keys_hit, h.keys, Lru.take_touch_of_mem (Lru.nodup_recent g.2) hkey]
  · intro kv hkv
    simp only [next, hcall, EngineState.hit, List.mem_append, List.mem_filter,
      List.mem_singleton] at hkv
    simp only [BuiltFor, next, loads_hit hget, List.nil_append]
    obtain ⟨hkv, -⟩ | rfl := hkv
    · exact h.built kv hkv
    · exact h.built _ (EngineState.get_eq_some hget)

/-- A load keeps the order of use: the oldest key gives way. -/
theorem EngineRun.IsLru.next_loaded (h : g.IsLru cfg)
    (hget : g.engine.get (cacheKey cfg r.adapter) = none)
    (hload : loadModel cfg r.disk r.adapter = .ok model) : (g.next cfg r).IsLru cfg := by
  have hcall := call_loaded hget hload
  have hnew := EngineState.get_eq_none.1 hget
  obtain ⟨n, hn⟩ : ∃ n, cfg.cacheSize = n + 1 := ⟨cfg.cacheSize - 1, by
    have hpos := cfg.cacheSize_pos
    omega⟩
  constructor
  · simp only [next, hcall, Except.isOk, Except.toBool, if_true, Lru.recent_cons]
    rw [h.keys, hn] at hnew
    rw [EngineState.keys_store cfg.cacheSize_pos, h.keys, hn, Lru.take_touch_of_not_mem hnew,
      Nat.add_sub_cancel]
  · intro kv hkv
    simp only [next, hcall, EngineState.store, List.mem_append, List.mem_singleton,
      EngineState.models_makeRoom cfg.cacheSize_pos] at hkv
    simp only [BuiltFor, next, loads_loaded hget hload, List.singleton_append, List.find?_cons]
    obtain hkv | rfl := hkv
    · have hmem := List.mem_of_mem_drop hkv
      -- the new key was not there, so the last load for this one is the old one
      have hne : cacheKey cfg r.adapter ≠ kv.1 := by
        rintro heq
        exact EngineState.get_eq_none.1 hget
          (heq ▸ List.mem_reverse.2 (List.mem_map_of_mem hmem))
      rw [beq_eq_false_iff_ne.2 hne]
      exact h.built kv hmem
    · simp only [beq_self_eq_true]

/-- A load that fails with room left changes nothing. -/
theorem models_failed {x : Foreign} (hget : g.engine.get (cacheKey cfg r.adapter) = none)
    (hload : loadModel cfg r.disk r.adapter = .error x)
    (hroom : g.engine.models.length < cfg.cacheSize) : (g.call cfg r).2.models = g.engine.models := by
  have hzero : g.engine.models.length + 1 - cfg.cacheSize = 0 := by omega
  rw [call_failed hget hload, EngineState.models_makeRoom cfg.cacheSize_pos, hzero, List.drop_zero]

theorem EngineRun.IsLru.next_failed (h : g.IsLru cfg) {x : Foreign}
    (hget : g.engine.get (cacheKey cfg r.adapter) = none)
    (hload : loadModel cfg r.disk r.adapter = .error x)
    (hroom : g.engine.models.length < cfg.cacheSize) : (g.next cfg r).IsLru cfg := by
  have hsame : (g.next cfg r).engine.models = g.engine.models := models_failed hget hload hroom
  have hhistory : (g.next cfg r).requested = g.requested := by
    simp only [next, call_failed hget hload, Except.isOk, Except.toBool, Bool.false_eq_true,
      if_false]
  constructor
  · rw [EngineState.keys, hsame, hhistory]
    exact h.keys
  · rw [hsame]
    simp only [BuiltFor, next, loads_failed hload, List.nil_append]
    exact h.built

/-- The step lemma: any other request is served, and the cache stays one of the
keys used last. -/
theorem EngineRun.IsLru.step (h : g.IsLru cfg) (hr : ¬FailsFull cfg g r) :
    ServesLru cfg g r ∧ (g.next cfg r).IsLru cfg := by
  cases hget : g.engine.get (cacheKey cfg r.adapter) with
  | some cached =>
      have hcall := call_hit hget
      have hnext := h.next_hit hget
      refine ⟨⟨hnext.length_le, fun m hm => ?_, fun _ => ⟨cached, hget, by rw [hcall]⟩,
        fun x hx => ?_⟩, hnext⟩
      · rw [hcall] at hm
        cases hm
        exact hnext.built (cacheKey cfg r.adapter, cached)
          (by simp [EngineRun.next, hcall, EngineState.hit])
      · rw [hcall] at hx
        cases hx
  | none =>
      have hmiss : cacheKey cfg r.adapter ∉ (Lru.recent g.requested).take cfg.cacheSize := by
        rw [← h.keys]
        exact EngineState.get_eq_none.1 hget
      cases hload : loadModel cfg r.disk r.adapter with
      | ok model =>
          have hcall := call_loaded hget hload
          have hnext := h.next_loaded hget hload
          refine ⟨⟨hnext.length_le, fun m hm => ?_, fun hmem => absurd hmem hmiss,
            fun x hx => ?_⟩, hnext⟩
          · rw [hcall] at hm
            cases hm
            exact hnext.built (cacheKey cfg r.adapter, model)
              (by simp [EngineRun.next, hcall, EngineState.store])
          · rw [hcall] at hx
            cases hx
      | error x =>
          have hcall := call_failed hget hload
          have hroom : g.engine.models.length < cfg.cacheSize := by
            by_contra hfull
            exact hr ⟨hget, Nat.not_lt.1 hfull, x, hload⟩
          have hnext := h.next_failed hget hload hroom
          refine ⟨⟨hnext.length_le, fun m hm => ?_, fun hmem => absurd hmem hmiss,
            fun _ _ => models_failed hget hload hroom⟩, hnext⟩
          rw [hcall] at hm
          cases hm

/-! ## every run -/

theorem EngineRun.isLru_start (cfg : EngineConfig) : (EngineRun.start : EngineRun V).IsLru cfg where
  keys := by simp [EngineRun.start, EngineState.keys, Lru.recent]
  built := fun _ hkv => absurd hkv List.not_mem_nil

/-- The run lemma. -/
theorem servesLru_run (h : g.IsLru cfg) (rs : List (LoadRequest V)) :
    Along (EngineRun.next cfg) (ServesLru cfg) g rs ↔
      Along (EngineRun.next cfg) (fun g r => ¬FailsFull cfg g r) g rs := by
  induction rs generalizing g with
  | nil => exact Iff.rfl
  | cons r rs ih =>
      constructor
      · rintro ⟨hserves, hrest⟩
        have hr : ¬FailsFull cfg g r := fun hr => not_servesLru_of_failsFull hr hserves
        exact ⟨hr, (ih (h.step hr).2).1 hrest⟩
      · rintro ⟨hr, hrest⟩
        exact ⟨(h.step hr).1, (ih (h.step hr).2).2 hrest⟩

end cache

/-- **The LoRA cache is an LRU cache** exactly in the runs in which no load
fails while the cache is full. -/
theorem lora_cache_lru (V : VoxCPM) (cfg : EngineConfig) (rs : List (LoadRequest V)) :
    Along (EngineRun.next cfg) (ServesLru cfg) EngineRun.start rs ↔
      Along (EngineRun.next cfg) (fun g r => ¬FailsFull cfg g r) EngineRun.start rs :=
  servesLru_run (EngineRun.isLru_start cfg) rs

/-- A `voxcpm` whose models have nothing in them. -/
def blankVoxCPM : VoxCPM where
  Model := Unit
  LoraConfig := Unit
  jsonLoads _ := .ok (.obj [])
  loraConfig _ := .ok ()
  innerSampleRate _ := some 48000

/-- A machine with the base model and no adapters. -/
def blankDisk : Disk blankVoxCPM where
  pathExists _ := false
  isFile _ := false
  readText _ := .error (.fileNotFound "")
  importVoxcpm := .ok ()
  fromPretrained _ _ := .ok ()

/-- An engine that keeps one model. -/
def oneModel : EngineConfig where
  modelId := py "openbmb/VoxCPM2"
  hfRevision := none
  device := py "cuda"
  loadDenoiser := false
  optimize := false
  cacheSize := 1
  cacheSize_pos := Nat.le_refl 1

/-- The base model, and then an adapter that is not there: the base model is
gone. -/
theorem failed_load_evicts :
    ¬∀ (V : VoxCPM) (cfg : EngineConfig) (rs : List (LoadRequest V)),
      Along (EngineRun.next cfg) (ServesLru cfg) EngineRun.start rs := by
  intro h
  have hrun := (servesLru_run (EngineRun.isLru_start oneModel) _).1
    (h blankVoxCPM oneModel [⟨none, blankDisk⟩, ⟨some { path := py "/adapter" }, blankDisk⟩])
  exact hrun.2.1 ⟨rfl, Nat.le_refl 1, _, rfl⟩

end NeuroVoice
