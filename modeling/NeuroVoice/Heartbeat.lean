import NeuroVoice.World
import Mathlib.Data.List.Lex
import Mathlib.Data.List.Sort

/-!
# NeuroVoice.Heartbeat

`server/heartbeat.py`: the capacity of the cluster from the heartbeats of its
workers.

The aggregation is a fold over the keys that SCAN returns.  Hashes that are
malformed or stale are left out, whatever is in them; but a key that SCAN
returns twice is counted twice: `cluster_capacity_iff`.
-/

namespace NeuroVoice

/-! ## strings of the Redis client -/

/-- A UTF-8 sequence that has begun: how many bytes it lacks, the range of the
next one, and the code point so far. -/
structure Utf8Pending where
  left : Nat
  low : Nat
  high : Nat
  value : Nat

/-- What a lead byte begins. -/
def utf8Lead (b : Nat) : Option Utf8Pending :=
  if 0xC2 ≤ b ∧ b ≤ 0xDF then some ⟨1, 0x80, 0xBF, b - 0xC0⟩
  else if b = 0xE0 then some ⟨2, 0xA0, 0xBF, 0⟩
  else if b = 0xED then some ⟨2, 0x80, 0x9F, 0xD⟩
  else if 0xE1 ≤ b ∧ b ≤ 0xEF then some ⟨2, 0x80, 0xBF, b - 0xE0⟩
  else if b = 0xF0 then some ⟨3, 0x90, 0xBF, 0⟩
  else if 0xF1 ≤ b ∧ b ≤ 0xF3 then some ⟨3, 0x80, 0xBF, b - 0xF0⟩
  else if b = 0xF4 then some ⟨3, 0x80, 0x8F, 4⟩
  else none

/-- A byte where no sequence has begun. -/
def utf8Start (b : Nat) : PyStr × Option Utf8Pending :=
  if b < 0x80 then ([b], none)
  else match utf8Lead b with
    | some p => ([], some p)
    | none => ([0xFFFD], none)

/-- One byte: the characters it completes, and the sequence it leaves. -/
def utf8Step : Option Utf8Pending → Nat → PyStr × Option Utf8Pending
  | none, b => utf8Start b
  | some p, b =>
      if p.low ≤ b ∧ b ≤ p.high then
        if p.left = 1 then ([p.value * 64 + (b - 0x80)], none)
        else ([], some ⟨p.left - 1, 0x80, 0xBF, p.value * 64 + (b - 0x80)⟩)
      else
        -- what has begun is cut short, and the byte is looked at afresh
        (0xFFFD :: (utf8Start b).1, (utf8Start b).2)

/-- The bytes from a state of the decoder on. -/
def utf8Replace : Option Utf8Pending → List UInt8 → PyStr
  | none, [] => []
  | some _, [] => [0xFFFD]
  | p, b :: bs => (utf8Step p b.toNat).1 ++ utf8Replace (utf8Step p b.toNat).2 bs

/-- A key, field or value of the client: bytes, or a string if the client
decodes. -/
inductive RedisStr where
  | bytes (b : List UInt8)
  | str (s : PyStr)
  deriving DecidableEq

/-- `_as_str`. -/
def RedisStr.asStr : RedisStr → PyStr
  | .bytes b => utf8Replace none b
  | .str s => s

/-- What `hgetall` returns. -/
abbrev RedisHash := List (RedisStr × RedisStr)

/-! ## hashes -/

/-- The fields `_parse_hash` returns. -/
structure ParsedHash where
  capacity : Int
  inFlight : Int
  lastPickupMs : Int
  startedAtMs : Int
  updatedAtMs : Int
  deriving DecidableEq

/-- `decoded`: a later field overwrites an earlier one of the same name. -/
def decodedField (raw : RedisHash) (field : PyStr) : Option PyStr :=
  (raw.reverse.find? fun kv => kv.1.asStr == field).map fun kv => kv.2.asStr

/-- `int(s)` under `except (TypeError, ValueError)`. -/
def tryInt (s : PyStr) : Except Foreign (Option Int) :=
  match Json.toInt (.str s) with
  | .ok n => .ok (some n)
  | .error .typeError => .ok none
  | .error (.valueError _) => .ok none
  | .error x => .error x

/-- A required field. -/
def requiredField (raw : RedisHash) (field : PyStr) : Except Foreign (Option Int) :=
  match decodedField raw field with
  | none => .ok none
  | some s => tryInt s

/-- `_parse_hash`. -/
def parseHash (raw : RedisHash) : Except Foreign (Option ParsedHash) := do
  if raw.isEmpty then return none
  let some capacity ← requiredField raw (py "capacity") | return none
  let some inFlight ← requiredField raw (py "in_flight") | return none
  let some lastPickupMs ← requiredField raw (py "last_pickup_ms") | return none
  let some startedAtMs ← requiredField raw (py "started_at_ms") | return none
  match decodedField raw (py "updated_at_ms") with
  | none => return some ⟨capacity, inFlight, lastPickupMs, startedAtMs, lastPickupMs⟩
  | some s =>
      let some updatedAtMs ← tryInt s | return none
      return some ⟨capacity, inFlight, lastPickupMs, startedAtMs, updatedAtMs⟩

/-- `_worker_id_from_key`. -/
def workerIdFromKey (key : RedisStr) (keyPrefix : PyStr) : PyStr :=
  let cut := keyPrefix ++ py "."
  if cut.isPrefixOf key.asStr then key.asStr.drop cut.length else key.asStr

/-! ## the aggregation -/

/-- `ClusterCapacity`, with the fields that only people look at. -/
structure ClusterSnapshot extends ClusterCapacity where
  healthyWorkerIds : List PyStr
  lastPickupMaxAgeMs : Option Int

/-- The running quantities of the loop; the counts of what is skipped are only
logged. -/
structure Tally where
  totalCapacity : Int := 0
  totalInflight : Int := 0
  healthyIds : List PyStr := []
  maxPickupMs : Option Int := none
  skippedMalformed : Nat := 0
  skippedStale : Nat := 0

/-- One key of the scan. -/
def tallyKey (hgetall : RedisStr → RedisHash) (keyPrefix : PyStr) (cutoffMs : Int) (t : Tally)
    (key : RedisStr) : Except Foreign Tally := do
  match ← parseHash (hgetall key) with
  | none => return { t with skippedMalformed := t.skippedMalformed + 1 }
  | some parsed =>
      if parsed.updatedAtMs < cutoffMs then
        return { t with skippedStale := t.skippedStale + 1 }
      return { t with
        totalCapacity := t.totalCapacity + parsed.capacity
        totalInflight := t.totalInflight + parsed.inFlight
        healthyIds := t.healthyIds ++ [workerIdFromKey key keyPrefix]
        maxPickupMs := match t.maxPickupMs with
          | none => some parsed.lastPickupMs
          | some pickup =>
              some (if pickup < parsed.lastPickupMs then parsed.lastPickupMs else pickup) }

/-- `_env_int`. -/
def envInt (env : PyStr → Option PyStr) (name : PyStr) (fallback : Int) : Except Foreign Int :=
  match env name with
  | none => .ok fallback
  | some [] => .ok fallback
  | some raw =>
      match Json.toInt (.str raw) with
      | .error (.valueError _) => .ok fallback
      | r => r

/-- `_env_str`. -/
def envStr (env : PyStr → Option PyStr) (name fallback : PyStr) : PyStr :=
  match env name with
  | none => fallback
  | some [] => fallback
  | some raw => raw

/-- The arguments of `read_cluster_capacity` and what it reads around it. -/
structure CapacityArgs where
  staleMs : Option Int := none
  keyPrefix : Option PyStr := none
  env : PyStr → Option PyStr
  now : Int

/-- `threshold`. -/
def CapacityArgs.threshold (a : CapacityArgs) : Except Foreign Int :=
  match a.staleMs with
  | some ms => .ok ms
  | none => envInt a.env (py "NEUROVOICE_GATEWAY_HEARTBEAT_STALE_MS") 5000

/-- `prefix`. -/
def CapacityArgs.prefixOf (a : CapacityArgs) : PyStr :=
  a.keyPrefix.getD
    (envStr a.env (py "NEUROVOICE_WORKER_HEARTBEAT_PREFIX") (py "neurovoice.worker.heartbeat"))

/-- `read_cluster_capacity`, for the keys that SCAN returns, in their order. -/
def readClusterCapacity (hgetall : RedisStr → RedisHash) (a : CapacityArgs)
    (scan : List RedisStr) : Except Foreign ClusterSnapshot := do
  let threshold ← a.threshold
  let t ← scan.foldlM (tallyKey hgetall a.prefixOf (a.now - threshold)) {}
  if t.healthyIds.isEmpty then
    return { totalCapacity := 0, totalInflight := 0, workerCount := 0, healthyWorkerIds := [],
             lastPickupMaxAgeMs := none }
  return {
    totalCapacity := t.totalCapacity
    totalInflight := t.totalInflight
    workerCount := t.healthyIds.length
    healthyWorkerIds := t.healthyIds.insertionSort (· ≤ ·)
    lastPickupMaxAgeMs := t.maxPickupMs.map fun pickup => max 0 (a.now - pickup) }

/-! ## the law -/

/-- The field is there and is an integer. -/
def HasInt (raw : RedisHash) (field : PyStr) (n : Int) : Prop :=
  ∃ s, decodedField raw field = some s ∧ Json.toInt (.str s) = .ok n

/-- A hash with all required integer fields; old workers do not write
`updated_at_ms`. -/
structure Beats (raw : RedisHash) (p : ParsedHash) : Prop where
  capacity : HasInt raw (py "capacity") p.capacity
  inFlight : HasInt raw (py "in_flight") p.inFlight
  lastPickupMs : HasInt raw (py "last_pickup_ms") p.lastPickupMs
  startedAtMs : HasInt raw (py "started_at_ms") p.startedAtMs
  updatedAtMs : HasInt raw (py "updated_at_ms") p.updatedAtMs ∨
    decodedField raw (py "updated_at_ms") = none ∧ p.updatedAtMs = p.lastPickupMs

/-- The key's hash is a heartbeat, and not stale. -/
def LiveKey (hgetall : RedisStr → RedisHash) (cutoffMs : Int) (key : RedisStr) (p : ParsedHash) :
    Prop :=
  Beats (hgetall key) p ∧ cutoffMs ≤ p.updatedAtMs

/-- Each live key counts once, and no other key counts. -/
def CountsOnce (hgetall : RedisStr → RedisHash) (keyPrefix : PyStr) (cutoffMs : Int)
    (keys : List RedisStr) (c : ClusterSnapshot) : Prop :=
  ∃ live : List (RedisStr × ParsedHash), (live.map Prod.fst).Nodup ∧
    (∀ key p, (key, p) ∈ live ↔ key ∈ keys ∧ LiveKey hgetall cutoffMs key p) ∧
    c.totalCapacity = (live.map fun kp => kp.2.capacity).sum ∧
    c.totalInflight = (live.map fun kp => kp.2.inFlight).sum ∧
    c.workerCount = live.length ∧
    c.healthyWorkerIds.Perm (live.map fun kp => workerIdFromKey kp.1 keyPrefix) ∧
    c.healthyWorkerIds.Pairwise (· ≤ ·)

/-- The two snapshots have the same totals, ids and number of workers. -/
structure ClusterSnapshot.Agrees (c c' : ClusterSnapshot) : Prop where
  totalCapacity : c.totalCapacity = c'.totalCapacity
  totalInflight : c.totalInflight = c'.totalInflight
  workerCount : c.workerCount = c'.workerCount
  healthyWorkerIds : c.healthyWorkerIds = c'.healthyWorkerIds

/-! ## hashes are parsed without an exception -/

section parse

variable {raw : RedisHash} {field : PyStr} {n : Int} {p : ParsedHash}

/-- `int` of a string raises nothing but a `ValueError`. -/
theorem toInt_str (s : PyStr) :
    (∃ n, Json.toInt (.str s) = .ok n) ∨ ∃ m, Json.toInt (.str s) = .error (.valueError m) := by
  rw [Json.toInt]
  split
  · exact .inr ⟨_, rfl⟩
  · split
    · exact .inl ⟨_, rfl⟩
    · exact .inr ⟨_, rfl⟩

theorem tryInt_eq_some {s : PyStr} : tryInt s = .ok (some n) ↔ Json.toInt (.str s) = .ok n := by
  unfold tryInt
  obtain ⟨m, h⟩ | ⟨m, h⟩ := toInt_str s
  · rw [h]
    simp
  · rw [h]
    simp

theorem tryInt_ok (s : PyStr) : ∃ o, tryInt s = .ok o := by
  unfold tryInt
  obtain ⟨m, h⟩ | ⟨m, h⟩ := toInt_str s
  · rw [h]
    exact ⟨_, rfl⟩
  · rw [h]
    exact ⟨_, rfl⟩

theorem requiredField_ok (raw : RedisHash) (field : PyStr) :
    ∃ o, requiredField raw field = .ok o := by
  unfold requiredField
  split
  · exact ⟨none, rfl⟩
  · exact tryInt_ok _

theorem requiredField_eq_some : requiredField raw field = .ok (some n) ↔ HasInt raw field n := by
  unfold requiredField HasInt
  cases h : decodedField raw field with
  | none => simp
  | some s => simp [tryInt_eq_some]

theorem HasInt.unique {m : Int} (h : HasInt raw field n) (h' : HasInt raw field m) : n = m := by
  rw [← requiredField_eq_some] at h h'
  rw [h] at h'
  simpa using h'

/-- A field that is not there as an integer. -/
theorem not_hasInt (h : requiredField raw field = .ok none) (n : Int) : ¬HasInt raw field n := by
  rw [← requiredField_eq_some, h]
  simp

/-- What is no heartbeat is left out. -/
theorem parsed_none (h : ∀ p, ¬Beats raw p) (p : ParsedHash) : none = some p ↔ Beats raw p :=
  iff_of_false (by simp) (h p)

/-- A hash with the required fields, whatever the optional one is. -/
theorem parsed_required {c i l b : Int} (hc : HasInt raw (py "capacity") c)
    (hi : HasInt raw (py "in_flight") i) (hl : HasInt raw (py "last_pickup_ms") l)
    (hb : HasInt raw (py "started_at_ms") b) {u : Int}
    (hu : ∀ v, (HasInt raw (py "updated_at_ms") v ∨
      decodedField raw (py "updated_at_ms") = none ∧ v = l) ↔ v = u) (p : ParsedHash) :
    some (ParsedHash.mk c i l b u) = some p ↔ Beats raw p := by
  constructor
  · intro h
    cases h
    exact ⟨hc, hi, hl, hb, (hu u).2 rfl⟩
  · intro h
    obtain ⟨pc, pi, pl, pb, pu⟩ := p
    obtain rfl : c = pc := hc.unique h.capacity
    obtain rfl : i = pi := hi.unique h.inFlight
    obtain rfl : l = pl := hl.unique h.lastPickupMs
    obtain rfl : b = pb := hb.unique h.startedAtMs
    obtain rfl : pu = u := (hu pu).1 h.updatedAtMs
    rfl

/-- **`_parse_hash` raises nothing** and returns the fields of a heartbeat. -/
theorem parseHash_ok (raw : RedisHash) :
    ∃ o, parseHash raw = .ok o ∧ ∀ p, o = some p ↔ Beats raw p := by
  unfold parseHash
  cases hraw : raw.isEmpty with
  | true =>
      obtain rfl := List.isEmpty_iff.1 hraw
      refine ⟨none, rfl, parsed_none fun p h => ?_⟩
      obtain ⟨s, hs, -⟩ := h.capacity
      cases hs
  | false =>
      simp only [Bool.false_eq_true, if_false]
      obtain ⟨c | c, hc⟩ := requiredField_ok raw (py "capacity")
      · rw [hc]
        exact ⟨none, rfl, parsed_none fun p h => not_hasInt hc _ h.capacity⟩
      obtain ⟨i | i, hi⟩ := requiredField_ok raw (py "in_flight")
      · rw [hc, hi]
        exact ⟨none, rfl, parsed_none fun p h => not_hasInt hi _ h.inFlight⟩
      obtain ⟨l | l, hl⟩ := requiredField_ok raw (py "last_pickup_ms")
      · rw [hc, hi, hl]
        exact ⟨none, rfl, parsed_none fun p h => not_hasInt hl _ h.lastPickupMs⟩
      obtain ⟨b | b, hb⟩ := requiredField_ok raw (py "started_at_ms")
      · rw [hc, hi, hl, hb]
        exact ⟨none, rfl, parsed_none fun p h => not_hasInt hb _ h.startedAtMs⟩
      rw [hc, hi, hl, hb]
      rw [requiredField_eq_some] at hc hi hl hb
      cases hs : decodedField raw (py "updated_at_ms") with
      | none =>
          refine ⟨some ⟨c, i, l, b, l⟩, rfl, parsed_required hc hi hl hb fun v => ?_⟩
          simp [HasInt, hs]
      | some s =>
          obtain ⟨u | u, hu⟩ := tryInt_ok s
          · simp only [hu]
            refine ⟨none, rfl, parsed_none fun p h => ?_⟩
            obtain ⟨s', hs', hint⟩ | ⟨hnone, -⟩ := h.updatedAtMs
            · rw [hs] at hs'
              cases hs'
              rw [← tryInt_eq_some, hu] at hint
              cases hint
            · rw [hs] at hnone
              cases hnone
          · simp only [hu]
            refine ⟨some ⟨c, i, l, b, u⟩, rfl, parsed_required hc hi hl hb fun v => ?_⟩
            have hint := tryInt_eq_some.1 hu
            simp [HasInt, hs, hint, eq_comm]

end parse

/-! ## the loop -/

section loop

variable {hgetall : RedisStr → RedisHash} {keyPrefix : PyStr} {cutoffMs : Int}

/-- The heartbeat of a live key. -/
def liveHash (hgetall : RedisStr → RedisHash) (cutoffMs : Int) (key : RedisStr) :
    Option ParsedHash :=
  match parseHash (hgetall key) with
  | .ok (some p) => if p.updatedAtMs < cutoffMs then none else some p
  | _ => none

theorem liveHash_eq_some {key : RedisStr} {p : ParsedHash} :
    liveHash hgetall cutoffMs key = some p ↔ LiveKey hgetall cutoffMs key p := by
  obtain ⟨o, ho, hbeats⟩ := parseHash_ok (hgetall key)
  unfold liveHash LiveKey
  rw [ho, ← hbeats]
  cases o with
  | none => simp
  | some q =>
      simp only [Option.some.injEq]
      split
      · next h =>
          simp only [reduceCtorEq, false_iff]
          rintro ⟨rfl, hle⟩
          omega
      · next h =>
          simp only [Option.some.injEq]
          exact ⟨fun heq => ⟨heq, by subst heq; omega⟩, And.left⟩

/-- A live key is added to all quantities. -/
theorem tallyKey_live {key : RedisStr} {p : ParsedHash}
    (h : liveHash hgetall cutoffMs key = some p) (t : Tally) :
    ∃ t', tallyKey hgetall keyPrefix cutoffMs t key = .ok t' ∧
      t'.totalCapacity = t.totalCapacity + p.capacity ∧
      t'.totalInflight = t.totalInflight + p.inFlight ∧
      t'.healthyIds = t.healthyIds ++ [workerIdFromKey key keyPrefix] := by
  obtain ⟨o, ho, -⟩ := parseHash_ok (hgetall key)
  unfold liveHash at h
  unfold tallyKey
  rw [ho] at h ⊢
  cases o with
  | none => cases h
  | some q =>
      simp only at h
      split at h
      · cases h
      · next hle =>
          cases h
          simp only [bind, Except.bind, hle, if_false]
          exact ⟨_, rfl, rfl, rfl, rfl⟩

/-- Any other key changes only what is logged. -/
theorem tallyKey_dead {key : RedisStr} (h : liveHash hgetall cutoffMs key = none) (t : Tally) :
    ∃ t', tallyKey hgetall keyPrefix cutoffMs t key = .ok t' ∧
      t'.totalCapacity = t.totalCapacity ∧ t'.totalInflight = t.totalInflight ∧
      t'.healthyIds = t.healthyIds := by
  obtain ⟨o, ho, -⟩ := parseHash_ok (hgetall key)
  unfold liveHash at h
  unfold tallyKey
  rw [ho] at h ⊢
  cases o with
  | none => exact ⟨_, rfl, rfl, rfl, rfl⟩
  | some q =>
      simp only at h
      split at h
      · next hlt =>
          simp only [bind, Except.bind, hlt, if_true]
          exact ⟨_, rfl, rfl, rfl, rfl⟩
      · cases h

/-- The live keys among those that SCAN returned, in order. -/
def scanned (hgetall : RedisStr → RedisHash) (cutoffMs : Int) (scan : List RedisStr) :
    List (RedisStr × ParsedHash) :=
  scan.filterMap fun key => (liveHash hgetall cutoffMs key).map fun p => (key, p)

/-- The run lemma of the loop. -/
theorem tally_scan (scan : List RedisStr) (t : Tally) :
    ∃ t', scan.foldlM (tallyKey hgetall keyPrefix cutoffMs) t = .ok t' ∧
      t'.totalCapacity =
        t.totalCapacity + ((scanned hgetall cutoffMs scan).map fun kp => kp.2.capacity).sum ∧
      t'.totalInflight =
        t.totalInflight + ((scanned hgetall cutoffMs scan).map fun kp => kp.2.inFlight).sum ∧
      t'.healthyIds = t.healthyIds ++
        (scanned hgetall cutoffMs scan).map fun kp => workerIdFromKey kp.1 keyPrefix := by
  induction scan generalizing t with
  | nil => exact ⟨t, rfl, by simp [scanned], by simp [scanned], by simp [scanned]⟩
  | cons key scan ih =>
      rw [List.foldlM_cons]
      cases h : liveHash hgetall cutoffMs key with
      | none =>
          obtain ⟨t₁, hstep, hcap, hfly, hids⟩ := @tallyKey_dead _ keyPrefix _ _ h t
          obtain ⟨t', hrun, hcap', hfly', hids'⟩ := ih t₁
          refine ⟨t', by rw [hstep]; exact hrun, ?_, ?_, ?_⟩
          · simp [hcap', hcap, scanned, h]
          · simp [hfly', hfly, scanned, h]
          · simp [hids', hids, scanned, h]
      | some p =>
          obtain ⟨t₁, hstep, hcap, hfly, hids⟩ := @tallyKey_live _ keyPrefix _ _ _ h t
          obtain ⟨t', hrun, hcap', hfly', hids'⟩ := ih t₁
          refine ⟨t', by rw [hstep]; exact hrun, ?_, ?_, ?_⟩
          · simp [hcap', hcap, scanned, h, add_assoc]
          · simp [hfly', hfly, scanned, h, add_assoc]
          · simp [hids', hids, scanned, h]

theorem mem_scanned {scan : List RedisStr} {key : RedisStr} {p : ParsedHash} :
    (key, p) ∈ scanned hgetall cutoffMs scan ↔ key ∈ scan ∧ LiveKey hgetall cutoffMs key p := by
  unfold scanned
  simp only [List.mem_filterMap, Option.map_eq_some_iff, Prod.mk.injEq]
  constructor
  · rintro ⟨k, hk, q, hq, rfl, rfl⟩
    exact ⟨hk, liveHash_eq_some.1 hq⟩
  · rintro ⟨hk, hlive⟩
    exact ⟨key, hk, p, liveHash_eq_some.2 hlive, rfl, rfl⟩

theorem fst_scanned (scan : List RedisStr) :
    (scanned hgetall cutoffMs scan).map Prod.fst =
      scan.filter fun key => (liveHash hgetall cutoffMs key).isSome := by
  induction scan with
  | nil => rfl
  | cons key scan ih =>
      unfold scanned at ih ⊢
      cases h : liveHash hgetall cutoffMs key with
      | none => simp [h, ih]
      | some p => simp [h, ih]

/-- No live key is returned twice. -/
theorem nodup_scanned {scan : List RedisStr} :
    ((scanned hgetall cutoffMs scan).map Prod.fst).Nodup ↔
      ∀ key ∈ scan, (∃ p, LiveKey hgetall cutoffMs key p) → scan.count key = 1 := by
  rw [fst_scanned, List.nodup_iff_count_le_one]
  constructor
  · rintro h key hkey ⟨p, hlive⟩
    have hsome : (liveHash hgetall cutoffMs key).isSome = true := by
      simp [liveHash_eq_some.2 hlive]
    have hle := h key
    rw [List.count_filter (p := fun key => (liveHash hgetall cutoffMs key).isSome) hsome] at hle
    have hpos := List.count_pos_iff.2 hkey
    omega
  · intro h key
    cases hlive : liveHash hgetall cutoffMs key with
    | none =>
        have hnot : key ∉ scan.filter fun key => (liveHash hgetall cutoffMs key).isSome := by
          simp [hlive]
        rw [List.count_eq_zero.2 hnot]
        exact Nat.zero_le 1
    | some p =>
        rw [List.count_filter (p := fun key => (liveHash hgetall cutoffMs key).isSome)
          (by simp [hlive])]
        by_cases hkey : key ∈ scan
        · rw [h key hkey ⟨p, liveHash_eq_some.1 hlive⟩]
        · rw [List.count_eq_zero.2 hkey]
          exact Nat.zero_le 1

end loop

/-! ## the totals -/

section totals

variable {hgetall : RedisStr → RedisHash} {keyPrefix : PyStr} {cutoffMs : Int}
  {keys : List RedisStr} {c c' : ClusterSnapshot}

/-- A list of pairs whose keys differ has no pair twice. -/
theorem nodup_of_fst {live : List (RedisStr × ParsedHash)} (h : (live.map Prod.fst).Nodup) :
    live.Nodup := List.Nodup.of_map _ h

/-- The live keys are one list, up to its order. -/
theorem perm_of_live {live live' : List (RedisStr × ParsedHash)}
    (hnodup : (live.map Prod.fst).Nodup) (hnodup' : (live'.map Prod.fst).Nodup)
    (h : ∀ key p, (key, p) ∈ live ↔ (key, p) ∈ live') : live.Perm live' :=
  (List.perm_ext_iff_of_nodup (nodup_of_fst hnodup) (nodup_of_fst hnodup')).2 fun kp => h kp.1 kp.2

/-- Counting once leaves nothing open: the result is one of the set of keys. -/
theorem CountsOnce.agrees (h : CountsOnce hgetall keyPrefix cutoffMs keys c)
    (h' : CountsOnce hgetall keyPrefix cutoffMs keys c') : c.Agrees c' := by
  obtain ⟨live, hnodup, hmem, hcap, hfly, hcount, hids, hsorted⟩ := h
  obtain ⟨live', hnodup', hmem', hcap', hfly', hcount', hids', hsorted'⟩ := h'
  have hperm : live.Perm live' :=
    perm_of_live hnodup hnodup' fun key p => (hmem key p).trans (hmem' key p).symm
  refine ⟨?_, ?_, ?_, ?_⟩
  · rw [hcap, hcap', (hperm.map _).sum_eq]
  · rw [hfly, hfly', (hperm.map _).sum_eq]
  · rw [hcount, hcount', hperm.length_eq]
  · have hsame := hids.trans ((hperm.map _).trans hids'.symm)
    exact hsame.eq_of_pairwise (fun a b _ _ hab hba => le_antisymm hab hba) hsorted hsorted'

/-- What the totals are of the keys that SCAN returned. -/
structure ScanTotals (keyPrefix : PyStr) (live : List (RedisStr × ParsedHash))
    (c : ClusterSnapshot) : Prop where
  totalCapacity : c.totalCapacity = (live.map fun kp => kp.2.capacity).sum
  totalInflight : c.totalInflight = (live.map fun kp => kp.2.inFlight).sum
  workerCount : c.workerCount = live.length
  healthyWorkerIds : c.healthyWorkerIds.Perm (live.map fun kp => workerIdFromKey kp.1 keyPrefix)
  sorted : c.healthyWorkerIds.Pairwise (· ≤ ·)

/-- The totals of a scan are those of its set of keys exactly if it returns no
live key twice. -/
theorem countsOnce_iff {scan : List RedisStr} (hscan : ∀ key, key ∈ scan ↔ key ∈ keys)
    (h : ScanTotals keyPrefix (scanned hgetall cutoffMs scan) c) :
    CountsOnce hgetall keyPrefix cutoffMs keys c ↔
      ∀ key ∈ keys, (∃ p, LiveKey hgetall cutoffMs key p) → scan.count key = 1 := by
  have hmem : ∀ key p, (key, p) ∈ scanned hgetall cutoffMs scan ↔
      key ∈ keys ∧ LiveKey hgetall cutoffMs key p := by
    intro key p
    rw [mem_scanned, hscan]
  have hnodup : ((scanned hgetall cutoffMs scan).map Prod.fst).Nodup ↔
      ∀ key ∈ keys, (∃ p, LiveKey hgetall cutoffMs key p) → scan.count key = 1 := by
    rw [nodup_scanned]
    simp only [hscan]
  rw [← hnodup]
  constructor
  · rintro ⟨live, hlive, hmem', -, -, hcount, -⟩
    have hsub : live.Subperm (scanned hgetall cutoffMs scan) :=
      (nodup_of_fst hlive).subperm fun kp hkp => (hmem kp.1 kp.2).2 ((hmem' kp.1 kp.2).1 hkp)
    have hperm := hsub.perm_of_length_le (by rw [← h.workerCount, hcount])
    exact ((hperm.map Prod.fst).nodup_iff).1 hlive
  · intro hlive
    exact ⟨_, hlive, hmem, h.totalCapacity, h.totalInflight, h.workerCount, h.healthyWorkerIds,
      h.sorted⟩

end totals

/-! ## the whole call -/

section call

variable {hgetall : RedisStr → RedisHash}

theorem threshold_ok (a : CapacityArgs) : ∃ threshold, a.threshold = .ok threshold := by
  unfold CapacityArgs.threshold envInt
  split
  · exact ⟨_, rfl⟩
  · split
    · exact ⟨_, rfl⟩
    · exact ⟨_, rfl⟩
    · next raw _ _ =>
        obtain ⟨n, h⟩ | ⟨m, h⟩ := toInt_str raw
        · rw [h]
          exact ⟨n, rfl⟩
        · rw [h]
          exact ⟨_, rfl⟩

/-- The call returns the totals of what SCAN returned. -/
theorem readClusterCapacity_ok {a : CapacityArgs} {threshold : Int}
    (hthreshold : a.threshold = .ok threshold) (scan : List RedisStr) :
    ∃ c, readClusterCapacity hgetall a scan = .ok c ∧
      ScanTotals a.prefixOf (scanned hgetall (a.now - threshold) scan) c := by
  obtain ⟨t, hrun, hcap, hfly, hids⟩ :=
    @tally_scan hgetall a.prefixOf (a.now - threshold) scan {}
  unfold readClusterCapacity
  rw [hthreshold]
  simp only [bind, Except.bind, hrun]
  simp only [zero_add, List.nil_append] at hcap hfly hids
  cases hempty : t.healthyIds.isEmpty with
  | true =>
      have hnone : scanned hgetall (a.now - threshold) scan = [] := by
        rw [List.isEmpty_iff.1 hempty] at hids
        exact List.map_eq_nil_iff.1 hids.symm
      refine ⟨_, rfl, ?_⟩
      rw [hnone]
      exact ⟨rfl, rfl, rfl, List.Perm.nil, List.Pairwise.nil⟩
  | false =>
      refine ⟨_, rfl, hcap, hfly, by rw [hids, List.length_map], ?_, ?_⟩
      · rw [← hids]
        exact List.perm_insertionSort _ _
      · exact List.pairwise_insertionSort _ _

end call

/-- A worker of capacity 4 with one job, as the client returns its hash. -/
def sampleHash : RedisHash :=
  [(.str (py "capacity"), .bytes [0x34]), (.str (py "in_flight"), .bytes [0x31]),
    (.str (py "last_pickup_ms"), .str (py "900")), (.str (py "started_at_ms"), .str (py "100")),
    (.str (py "updated_at_ms"), .str (py "950"))]

/-- Its key. -/
def sampleKey : RedisStr := .str (py "hb.w1")

/-- The call at time 1000. -/
def sampleArgs : CapacityArgs where
  staleMs := some 500
  keyPrefix := some (py "hb")
  env _ := none
  now := 1000

example : (readClusterCapacity (fun _ => sampleHash) sampleArgs [sampleKey]).map
    (fun c => (c.totalCapacity, c.totalInflight, c.healthyWorkerIds, c.lastPickupMaxAgeMs)) =
      .ok (4, 1, [py "w1"], some 100) := by decide +kernel

/-- Four heartbeats: of two live workers, of one that stopped at time 100, and one
whose capacity is no number. -/
def sampleHashes (key : RedisStr) : RedisHash :=
  if key = .str (py "hb.old") then
    (.str (py "updated_at_ms"), .str (py "100")) :: sampleHash.dropLast
  else if key = .str (py "hb.bad") then
    (.str (py "capacity"), .str (py "many")) :: sampleHash.tail
  else sampleHash

/-- Their keys. -/
def sampleKeys : List RedisStr :=
  [.str (py "hb.bad"), .str (py "hb.old"), sampleKey, .str (py "hb.w2")]

/-- What SCAN returns of them: the stale and the malformed one twice. -/
def sampleScan : List RedisStr := sampleKeys ++ sampleKeys.take 2

end NeuroVoice
