import Mathlib.Data.List.AList
import NeuroVoice.Lib.Diary
import NeuroVoice.Storage.CacheLimit
import NeuroVoice.Storage.ObjectUri

/-!
# NeuroVoice.Storage.Download

`R2Storage.download_to_cache` as what it is in a deployment: a thread among
others, of this and of other OS processes, on one cache directory.

Each call to the operating system or to the bucket is one await, so the code can
be interleaved with other downloads, evictions, uploads and deletes at any of
them.  `download_file` is a parameter: it is known to write nothing but the file
it is given (or files named after it), and to leave what the bucket answered in
there (`DownloadsWhole`).
-/

namespace NeuroVoice

/-! ## the shared world -/

/-- A file. -/
structure DiskFile where
  data : Bytes
  mtime : Rat
  deriving DecidableEq

/-- What `stat()` returns of it. -/
structure FileStat where
  size : Nat
  mtime : Rat

/-- `path.name`. -/
def PurePath.name (p : PurePath) : PyStr := p.parts.getLastD []

/-- `path.parent == dir`. -/
def PurePath.isIn (p dir : PurePath) : Bool :=
  p.root == dir.root && p.parts.dropLast == dir.parts && !p.parts.isEmpty

/-- The disk, the bucket, and the locks of `_download_locks`: under its guard,
the dictionary has one lock for each URI in each OS process. -/
structure CacheWorld where
  files : AList fun _ : PurePath => DiskFile
  objects : AList fun _ : S3URI => Bytes
  lock : Nat × PyStr → Option Nat
  /-- What `uuid4` has returned; it returns nothing twice. -/
  named : List PyStr
  now : Rat

/-- The OS process of each thread, and what `os.getpid()` returns there. -/
structure Fleet where
  host : Nat → Nat
  pid : Nat → Nat

/-! ## awaits -/

/-- What the storage code asks of its surroundings. -/
inductive CacheEff where
  | isFile (p : PurePath)
  | stat (p : PurePath)
  | iterdir
  | acquire (uri : PyStr)
  | release (uri : PyStr)
  | getpid
  /-- `uuid.uuid4().hex`. -/
  | uuid4
  /-- The bucket answers with an object, to `download_file`. -/
  | getObject (o : S3URI)
  | writeFile (p : PurePath) (data : Bytes)
  /-- `os.replace`. -/
  | replace (p q : PurePath)
  | unlink (p : PurePath)
  | readFile (p : PurePath)
  | putObject (o : S3URI) (data : Bytes)
  | deleteObject (o : S3URI)

namespace CacheEff

/-- What an await returns. -/
@[reducible] def Ret : CacheEff → Type
  | .isFile _ => Bool
  | .stat _ => FileStat
  | .iterdir => List PurePath
  | .getpid => Nat
  | .uuid4 => PyStr
  | .getObject _ | .readFile _ => Bytes
  | _ => Unit

/-- It leaves the thread, and can fail on its own. -/
def fallible : CacheEff → Bool
  | .acquire _ | .release _ | .getpid | .uuid4 => false
  | _ => true

/-- It can have happened although its reply was lost. -/
def losable : CacheEff → Bool
  | .putObject _ _ | .deleteObject _ => true
  | _ => false

end CacheEff

/-- An await returns, or raises. -/
abbrev CacheAns (e : CacheEff) : Type := Except Foreign e.Ret

/-- A function of the storage code. -/
abbrev CachePy (α : Type) : Type := ExceptT Foreign (Prog CacheEff CacheAns) α

/-- Perform an await. -/
def syscall (e : CacheEff) : CachePy e.Ret := callE e

/-- How an await goes. -/
inductive CacheOracle where
  | goes (u : Uuid)
  | raises (x : Foreign)
  | lost (x : Foreign)

/-! ## the code -/

/-- `download_file`, with the settings it is used under. -/
structure R2Cache extends R2Storage where
  cacheMaxBytes : Int
  netlocOk : PyStr → Bool
  downloadFile : S3URI → PurePath → CachePy Unit

/-- `local.is_file() and local.stat().st_size > 0`. -/
def isCached (path : PurePath) : CachePy Bool := do
  let found ← syscall (.isFile path)
  if found then
    let st ← syscall (.stat path)
    return 0 < st.size
  else return false

/-- `local.with_suffix(f"{local.suffix}.{pid}.{hex}.part")`: the name and more. -/
def partPath (path : PurePath) (pid : Nat) (hex : PyStr) : PurePath :=
  { path with
    parts := path.parts.dropLast ++
      [path.name ++ (0x2E :: decimalDigits pid) ++ (0x2E :: hex) ++ py ".part"] }

/-- `tmp.unlink(missing_ok=True)`. -/
def unlinkMissingOk (tmp : PurePath) : CachePy Unit :=
  tryCatch (syscall (.unlink tmp)) fun x =>
    match x with
    | .fileNotFound _ => pure ()
    | x => throw x

/-- `with uri_lock:`. -/
def withLock {α : Type} (uri : PyStr) (body : CachePy α) : CachePy α := do
  syscall (.acquire uri)
  let a ← tryCatch body fun x => do
    syscall (.release uri)
    throw x
  syscall (.release uri)
  return a

/-- The first loop of `_enforce_cache_limit`. -/
def scanCache : List PurePath → CachePy (List CacheFile)
  | [] => pure []
  | path :: rest => do
      let found ← syscall (.isFile path)
      if !found || (py ".part").isSuffixOf path.name then scanCache rest
      else
        let st ← tryCatch (do
            let st ← syscall (.stat path)
            return some st) fun x =>
          match x with
          | .fileNotFound _ => pure none
          | x => throw x
        match st with
        | none => scanCache rest
        | some st => do
            let files ← scanCache rest
            return { path, mtime := st.mtime, size := st.size } :: files

namespace R2Cache

variable (r : R2Cache)

/-- The second loop. -/
def evictOldest (kept : PurePath) : Int → List CacheFile → CachePy Unit
  | _, [] => pure ()
  | total, f :: fs =>
      if f.path = kept then evictOldest kept total fs
      else do
        let removed ← tryCatch (do
            syscall (.unlink f.path)
            return true) fun x =>
          match x with
          | .fileNotFound _ => pure false
          | x => throw x
        let total := if removed then total - f.size else total
        if total ≤ r.cacheMaxBytes then pure () else evictOldest kept total fs

/-- `_enforce_cache_limit`. -/
def enforceCacheLimit (kept : PurePath) : CachePy Unit :=
  if r.cacheMaxBytes ≤ 0 then pure ()
  else do
    let listing ← syscall .iterdir
    let files ← scanCache listing
    if bytes files ≤ r.cacheMaxBytes then pure ()
    else r.evictOldest kept (bytes files) (files.insertionSort fun f g => f.mtime ≤ g.mtime)

/-- The body of `with uri_lock`. -/
def fetch (parsed : S3URI) (path : PurePath) : CachePy PurePath := do
  -- another thread may have finished the download while this one waited
  let there ← isCached path
  if there then return path
  else
    let pid ← syscall .getpid
    let hex ← syscall .uuid4
    tryCatch (do
        r.downloadFile parsed (partPath path pid hex)
        syscall (.replace (partPath path pid hex) path)) fun x =>
      if x.isException then do
        unlinkMissingOk (partPath path pid hex)
        throw x
      else throw x
    r.enforceCacheLimit path
    return path

/-- `download_to_cache`. -/
def downloadToCache (uri : PyStr) : CachePy PurePath :=
  match S3URI.parse r.netlocOk uri with
  | .error x => throw x
  | .ok parsed =>
      match r.cachePath uri parsed with
      | .error x => throw x
      | .ok path => do
          let there ← isCached path
          if there then return path else withLock uri (r.fetch parsed path)

/-- `upload_bytes`. -/
def uploadBytes (data : Bytes) (key : PyStr) (bucket : Option PyStr) : CachePy S3URI := do
  syscall (.putObject { bucket := r.targetBucket bucket, key } data)
  return { bucket := r.targetBucket bucket, key }

/-- `upload_file`. -/
def uploadFile (path : PurePath) (key : PyStr) (bucket : Option PyStr) : CachePy S3URI := do
  let found ← syscall (.isFile path)
  if found then
    let data ← syscall (.readFile path)
    r.uploadBytes data key bucket
  else throw (.fileNotFound "local_path")

/-- `delete`. -/
def deleteUri (uri : PyStr) : CachePy Unit :=
  match S3URI.parse r.netlocOk uri with
  | .error x => throw x
  | .ok parsed => syscall (.deleteObject parsed)

end R2Cache

/-! ## what awaits do -/

namespace CacheWorld

/-- An await's answer and its effect, when it is answered; `none` while it
blocks. -/
def perform (r : R2Cache) (fleet : Fleet) (t : Nat) (u : Uuid) (w : CacheWorld) :
    (e : CacheEff) → Option (CacheAns e × CacheWorld)
  | .isFile p => some (.ok (w.files.lookup p).isSome, w)
  | .stat p =>
      match w.files.lookup p with
      | some f => some (.ok { size := f.data.length, mtime := f.mtime }, w)
      | none => some (.error (.fileNotFound "path"), w)
  | .iterdir => some (.ok (w.files.keys.filter fun p => p.isIn r.cacheDir), w)
  | .acquire uri =>
      if (w.lock (fleet.host t, uri)).isNone then
        some (.ok (), { w with lock := Function.update w.lock (fleet.host t, uri) (some t) })
      else none
  | .release uri =>
      some (.ok (), { w with lock := Function.update w.lock (fleet.host t, uri) none })
  | .getpid => some (.ok (fleet.pid (fleet.host t)), w)
  | .uuid4 =>
      if w.named.contains (hexDigits 32 u.toNat) then none
      else some (.ok (hexDigits 32 u.toNat), { w with named := hexDigits 32 u.toNat :: w.named })
  | .getObject o =>
      match w.objects.lookup o with
      | some data => some (.ok data, w)
      | none => some (.error (.other "ClientError"), w)
  | .writeFile p data =>
      some (.ok (), { w with files := w.files.insert p { data, mtime := w.now } })
  | .replace p q =>
      match w.files.lookup p with
      | some f => some (.ok (), { w with files := (w.files.erase p).insert q f })
      | none => some (.error (.fileNotFound "src"), w)
  | .unlink p =>
      match w.files.lookup p with
      | some _ => some (.ok (), { w with files := w.files.erase p })
      | none => some (.error (.fileNotFound "path"), w)
  | .readFile p =>
      match w.files.lookup p with
      | some f => some (.ok f.data, w)
      | none => some (.error (.fileNotFound "path"), w)
  | .putObject o data =>
      if r.stores o then some (.ok (), { w with objects := w.objects.insert o data })
      else some (.error (.other "ClientError"), w)
  | .deleteObject o => some (.ok (), { w with objects := w.objects.erase o })

/-- Perform an await. -/
def exec (r : R2Cache) (fleet : Fleet) (t : Nat) (e : CacheEff) (o : CacheOracle)
    (w : CacheWorld) : Option (CacheAns e × CacheWorld) :=
  match o with
  | .goes u => w.perform r fleet t u e
  | .raises x => if e.fallible then some (.error x, w) else none
  | .lost x =>
      if e.losable then (w.perform r fleet t 0 e).map fun s => (.error x, s.2) else none

end CacheWorld

/-- A call of the storage module. -/
inductive StorageCall where
  | downloadToCache (uri : PyStr)
  | uploadBytes (data : Bytes) (key : PyStr) (bucket : Option PyStr)
  | uploadFile (path : PurePath) (key : PyStr) (bucket : Option PyStr)
  | delete (uri : PyStr)
  deriving DecidableEq

/-- What it returns. -/
inductive StorageResult where
  | path (p : PurePath)
  | uri (o : S3URI)
  | done
  deriving DecidableEq

/-- The function a call runs. -/
def R2Cache.program (r : R2Cache) : StorageCall → CachePy StorageResult
  | .downloadToCache uri => do
      let p ← r.downloadToCache uri
      return .path p
  | .uploadBytes data key bucket => do
      let o ← r.uploadBytes data key bucket
      return .uri o
  | .uploadFile path key bucket => do
      let o ← r.uploadFile path key bucket
      return .uri o
  | .delete uri => do
      r.deleteUri uri
      return .done

/-- Threads on one cache directory.  A dead thread keeps its lock: the threads of
its OS process die with it, and no other process has that lock. -/
def cacheMachine (r : R2Cache) (fleet : Fleet) :
    Machine CacheWorld CacheEff CacheAns CacheOracle StorageCall
      (Except Foreign StorageResult) where
  exec := CacheWorld.exec r fleet
  start call := (r.program call).run
  halt _ w := w
  tick d w := { w with now := w.now + d }

/-- Transitions of the threads. -/
abbrev CacheTrans : Type :=
  Trans CacheWorld CacheEff CacheAns StorageCall (Except Foreign StorageResult)

/-! ## names -/

/-- The hexadecimal name a temporary file of the cache directory carries, between
its third dot and its fourth. -/
def R2Cache.scratchOf (r : R2Cache) (p : PurePath) : Option PyStr :=
  if p.isIn r.cacheDir then (splitOn 0x2E p.name)[3]? else none

/-- The file `q` is `tmp`, or is named after it. -/
structure PurePath.Covers (tmp q : PurePath) : Prop where
  root : q.root = tmp.root
  parent : q.parts.dropLast = tmp.parts.dropLast
  ne : q.parts ≠ []
  name : tmp.name <+: q.name

/-- What `download_to_cache` has made of its URI. -/
structure Wanted (r : R2Cache) where
  uri : PyStr
  object : S3URI
  path : PurePath
  parsed : S3URI.parse r.netlocOk uri = .ok object
  place : r.cachePath uri object = .ok path

section names

variable {r : R2Cache} {p q : PurePath} {hex : PyStr}

theorem not_mem_suffixOf {name s : PyStr} (h : suffixOf name = 0x2E :: s) : 0x2E ∉ s := by
  unfold suffixOf at h
  simp only at h
  split at h
  · cases h
  · obtain rfl := (List.cons.inj h).2
    intro hmem
    have hall := List.mem_takeWhile_imp (List.mem_reverse.1 hmem)
    simp at hall

theorem suffixOf_eq (name : PyStr) : suffixOf name = [] ∨ ∃ s, suffixOf name = 0x2E :: s := by
  unfold suffixOf
  simp only
  split
  · exact .inl rfl
  · exact .inr ⟨_, rfl⟩

theorem not_mem_sha256 (data : Bytes) : 0x2E ∉ sha256 data := by
  intro h
  obtain ⟨w, -, hw⟩ := List.mem_flatMap.1 h
  have := List.all_eq_true.1 (all_hexDigits 8 w.toNat) _ hw
  cases this

/-- The name of a cached file has one dot. -/
theorem Wanted.path_eq (m : Wanted r) : ∃ digest ext, 0x2E ∉ digest ∧ 0x2E ∉ ext ∧
    m.path = r.cacheDir.child (digest ++ 0x2E :: ext) := by
  have hplace := m.place
  simp only [R2Storage.cachePath, utf8Encode] at hplace
  split at hplace
  · simp only [bind, Except.bind, pure, Except.pure, Except.ok.injEq] at hplace
    have hdigest : 0x2E ∉ (sha256 (utf8Bytes m.uri)).take 32 := fun h =>
      not_mem_sha256 _ (List.mem_of_mem_take h)
    obtain hnil | ⟨s, hs⟩ := suffixOf_eq m.object.key
    · rw [hnil] at hplace
      exact ⟨_, py "bin", hdigest, by decide, hplace.symm⟩
    · rw [hs] at hplace
      exact ⟨_, s, hdigest, not_mem_suffixOf hs, hplace.symm⟩
  · simp [bind, Except.bind] at hplace

theorem isIn_child (dir : PurePath) (s : PyStr) : (dir.child s).isIn dir = true := by
  simp [PurePath.isIn, PurePath.child]

theorem name_child (dir : PurePath) (s : PyStr) : (dir.child s).name = s := by
  simp [PurePath.name, PurePath.child]

/-- A cached file is no temporary one. -/
theorem Wanted.scratchOf_path (m : Wanted r) : r.scratchOf m.path = none := by
  obtain ⟨digest, ext, hdigest, hext, hpath⟩ := m.path_eq
  rw [hpath, R2Cache.scratchOf, if_pos (isIn_child _ _), name_child, splitOn_append hdigest,
    splitOn_of_not_mem hext]
  rfl

/-- Files named after a temporary one carry its hexadecimal name. -/
theorem Wanted.scratchOf_part (m : Wanted r) {pid : Nat} (hhex : 0x2E ∉ hex)
    (h : (partPath m.path pid hex).Covers q) : r.scratchOf q = some hex := by
  obtain ⟨digest, ext, hdigest, hext, hpath⟩ := m.path_eq
  have hpid : 0x2E ∉ decimalDigits pid := by
    intro hmem
    have := mem_decimalDigits hmem
    omega
  have hin : q.isIn r.cacheDir = true := by
    have hroot := h.root
    have hparent := h.parent
    rw [hpath] at hroot hparent
    simp only [partPath, PurePath.child] at hroot hparent
    simp [PurePath.isIn, hroot, hparent, h.ne]
  obtain ⟨more, hmore⟩ := h.name
  have hname : q.name = digest ++ 0x2E :: (ext ++ 0x2E :: (decimalDigits pid ++ 0x2E ::
      (hex ++ 0x2E :: (py "part" ++ more)))) := by
    rw [← hmore, hpath]
    simp [partPath, PurePath.name, PurePath.child, py]
  rw [R2Cache.scratchOf, if_pos hin, hname, splitOn_append hdigest, splitOn_append hext,
    splitOn_append hpid, splitOn_append hhex]
  rfl

theorem covers_self (hp : p.parts ≠ []) : p.Covers p := ⟨rfl, rfl, hp, List.prefix_refl _⟩

end names

/-! ## what `download_file` is known to do -/

/-- How far a transfer has come: what the bucket has answered, and what the
transfer has put into files. -/
structure Transfer where
  got : Option Bytes := none
  area : PurePath → Option Bytes := fun _ => none

namespace Transfer

/-- What one await adds. -/
def next (t : Transfer) : (e : CacheEff) → CacheAns e → Transfer
  | .getObject _, .ok data => { t with got := some data }
  | .writeFile p data, .ok _ => { t with area := Function.update t.area p (some data) }
  | .replace p q, .ok _ => { t with area := Function.update t.area q (t.area p) }
  | _, _ => t

/-- A transfer reads its object, and touches no file but those named after `tmp`. -/
def monitor (o : S3URI) (tmp : PurePath) : Monitor CacheEff CacheAns Transfer where
  possible _ _ := True
  allows _
    | .getObject o' => o' = o
    | .writeFile p _ | .unlink p => tmp.Covers p
    | .replace p q => tmp.Covers p ∧ tmp.Covers q
    | .isFile _ | .stat _ | .getpid => True
    | _ => False
  next := next

end Transfer

/-- `download_file` leaves what the bucket answered in the file it is given. -/
def DownloadsWhole (downloadFile : S3URI → PurePath → CachePy Unit) : Prop :=
  ∀ o tmp, tmp.parts ≠ [] → Spec (Transfer.monitor o tmp) {} (downloadFile o tmp)
    (fun t _ => t.got.isSome ∧ t.area tmp = t.got) fun _ _ => True

/-! ## what a thread may do -/

/-- How far a thread is with the lock of its URI. -/
inductive LockStage where
  | before
  | held
  /-- It has the lock and has found no file, or an empty one. -/
  | missed
  | published
  | released
  deriving DecidableEq

/-- What is known of a thread. -/
structure Visit (r : R2Cache) extends Transfer where
  want : Option (Wanted r)
  stage : LockStage := .before
  /-- It has seen a file at its path, or put one there. -/
  seen : Bool := false
  /-- The name of its temporary file. -/
  drawn : Option PyStr := none

namespace Visit

variable {r : R2Cache} (v : Visit r)

/-- Where its file is cached. -/
def path : Option PurePath := v.want.map Wanted.path

/-- It has the lock. -/
def Holds : Prop := v.stage ≠ .before ∧ v.stage ≠ .released

/-- It has looked for the file in vain. -/
def miss : Visit r := if v.stage = .held then { v with stage := .missed } else v

/-- The temporary file is the thread's own. -/
def Owns (p : PurePath) : Prop := ∃ hex, v.drawn = some hex ∧ r.scratchOf p = some hex

/-- What one await adds. -/
def next : (e : CacheEff) → CacheAns e → Visit r
  | .acquire _, .ok _ => { v with stage := .held }
  | .release _, .ok _ => { v with stage := .released }
  | .isFile p, .ok found => if v.path = some p ∧ found = false then v.miss else v
  | .stat p, .ok st =>
      if v.path = some p then if 0 < st.size then { v with seen := true } else v.miss else v
  | .uuid4, .ok hex => { v with drawn := some hex, area := fun _ => none }
  | .replace p q, .ok a =>
      if v.path = some q then { v with stage := .published, seen := true }
      else { v with toTransfer := v.toTransfer.next (.replace p q) (.ok a) }
  | e, a => { v with toTransfer := v.toTransfer.next e a }

theorem next_isFile_true {p : PurePath} : v.next (.isFile p) (.ok true) = v :=
  if_neg fun h => (Bool.false_ne_true h.2.symm).elim

theorem next_isFile_none (hp : v.path = none) (p : PurePath) (found : Bool) :
    v.next (.isFile p) (.ok found) = v :=
  if_neg fun h => by rw [hp] at h; cases h.1

variable {v} in
theorem next_stat {p : PurePath} (hp : v.path = some p) (st : FileStat) :
    v.next (.stat p) (.ok st) = if 0 < st.size then { v with seen := true } else v.miss :=
  if_pos hp

variable {v} in
theorem next_replace_path (p : PurePath) {q : PurePath} (hq : v.path = some q) (a : Unit) :
    v.next (.replace p q) (.ok a) = { v with stage := .published, seen := true } :=
  if_pos hq

/-- What it may do: it asks the bucket and writes only under its lock and only
after looking in vain, and what it puts at its path is what the bucket answered. -/
def Allows : CacheEff → Prop
  | .acquire uri => v.stage = .before ∧ ∃ m, v.want = some m ∧ m.uri = uri
  | .release uri => v.Holds ∧ ∃ m, v.want = some m ∧ m.uri = uri
  | .uuid4 => v.drawn = none
  | .getObject o => v.stage = .missed ∧ ∃ m, v.want = some m ∧ m.object = o
  | .writeFile p _ => v.stage = .missed ∧ v.Owns p
  | .replace p q => v.stage = .missed ∧ v.Owns p ∧
      (v.Owns q ∨ v.path = some q ∧ v.got.isSome ∧ v.area p = v.got)
  | _ => True

end Visit

/-- The answers an await can have. -/
def CacheEff.Possible : (e : CacheEff) → CacheAns e → Prop
  | .uuid4, a => ∃ u : Uuid, a = .ok (hexDigits 32 u.toNat)
  | .acquire _, a => a = .ok ()
  | .release _, a => a = .ok ()
  | .getpid, a => ∃ n, a = .ok n
  | _, _ => True

/-- What a URI leads to, if it leads anywhere. -/
def wanted (r : R2Cache) (uri : PyStr) : Option (Wanted r) :=
  match parsed : S3URI.parse r.netlocOk uri with
  | .error _ => none
  | .ok object =>
      match place : r.cachePath uri object with
      | .error _ => none
      | .ok path => some { uri, object, path, parsed, place }

/-- What a call wants from the cache. -/
def StorageCall.wants (r : R2Cache) : StorageCall → Option (Wanted r)
  | .downloadToCache uri => wanted r uri
  | _ => none

/-- What a call returns. -/
def Visit.Returns {r : R2Cache} (v : Visit r) : Except Foreign StorageResult → Prop
  | .ok (.path p) => v.seen = true ∧ v.path = some p
  | _ => True

/-- What the threads do. -/
def visits (r : R2Cache) :
    Protocol CacheEff CacheAns StorageCall (Except Foreign StorageResult) (Visit r) where
  possible := CacheEff.Possible
  allows := Visit.Allows
  next := Visit.next
  init call := { want := call.wants r }
  fin v res := ¬v.Holds ∧ v.Returns res

/-! ## the functions -/

section functions

variable {r : R2Cache} {v : Visit r} {m : Wanted r}

/-- The effects that change nothing for a thread that has seen its file. -/
def CacheEff.harmless : CacheEff → Prop
  | .isFile _ | .stat _ | .iterdir | .unlink _ => True
  | _ => False

/-- `Spec.of_only` for a thread that has published. -/
theorem spec_harmless {α : Type} {x : CachePy α} (hstage : v.stage = .published)
    (hseen : v.seen = true)
    (hx : Spec (Monitor.only CacheEff.harmless) () x (fun _ _ => True) fun _ _ => True) :
    Spec (visits r).toMonitor v x (fun v' _ => v' = v) fun v' _ => v' = v := by
  have hmiss : v.miss = v := by simp [Visit.miss, hstage]
  refine (Spec.of_only hx ?_).mono (fun _ _ h => h.1) fun _ _ h => h.1
  intro e he
  cases e with
  | isFile p =>
      refine ⟨trivial, fun a => ?_⟩
      cases a with
      | error x => rfl
      | ok found =>
          show (if v.path = some p ∧ found = false then v.miss else v) = v
          rw [hmiss]
          exact ite_self v
  | stat p =>
      refine ⟨trivial, fun a => ?_⟩
      cases a with
      | error x => rfl
      | ok st =>
          show (if v.path = some p then
            if 0 < st.size then { v with seen := true } else v.miss else v) = v
          rw [hmiss, ← hseen]
          simp only [ite_self]
  | iterdir => exact ⟨trivial, fun a => rfl⟩
  | unlink p => exact ⟨trivial, fun a => rfl⟩
  | _ => exact he.elim

theorem harmless_scanCache (ps : List PurePath) :
    Spec (Monitor.only CacheEff.harmless) () (scanCache ps) (fun _ _ => True)
      fun _ _ => True := by
  induction ps with
  | nil => trivial
  | cons p ps ih =>
      simp only [scanCache, spec_bind, spec_ite, spec_tryCatch, syscall, spec_callE, spec_pure]
      refine ⟨trivial, fun found _ => ⟨fun _ => ih, fun _ => ⟨trivial, fun st _ => ih,
        fun x _ => ?_⟩⟩, fun _ _ => trivial⟩
      split
      · exact ih
      · trivial

theorem harmless_evictOldest (kept : PurePath) (total : Int) (fs : List CacheFile) :
    Spec (Monitor.only CacheEff.harmless) () (r.evictOldest kept total fs) (fun _ _ => True)
      fun _ _ => True := by
  induction fs generalizing total with
  | nil => trivial
  | cons f fs ih =>
      simp only [R2Cache.evictOldest, spec_bind, spec_ite, spec_tryCatch, syscall, spec_callE,
        spec_pure]
      refine ⟨fun _ => ih total, fun _ => ⟨trivial, fun _ _ => ⟨fun _ => trivial, fun _ => ih _⟩,
        fun x _ => ?_⟩⟩
      split
      · exact ⟨fun _ => trivial, fun _ => ih _⟩
      · trivial

/-- Eviction asks for nothing and writes nothing. -/
theorem harmless_enforceCacheLimit (kept : PurePath) :
    Spec (Monitor.only CacheEff.harmless) () (r.enforceCacheLimit kept) (fun _ _ => True)
      fun _ _ => True := by
  unfold R2Cache.enforceCacheLimit
  refine (spec_ite _ _ _).2 ⟨fun _ => trivial, fun _ => ?_⟩
  simp only [spec_bind, syscall, spec_callE]
  refine ⟨trivial, fun listing _ => ?_, fun _ _ => trivial⟩
  refine Spec.mono (harmless_scanCache listing) (fun _ files _ => ?_) fun _ _ _ => trivial
  exact (spec_ite _ _ _).2 ⟨fun _ => trivial, fun _ => harmless_evictOldest _ _ _⟩

/-- Looking for the cached file. -/
theorem spec_isCached (hwant : v.want = some m) :
    Spec (visits r).toMonitor v (isCached m.path)
      (fun v' there => v' = if there then { v with seen := true } else v.miss)
      fun v' _ => v' = v := by
  have hpath : v.path = some m.path := by simp [Visit.path, hwant]
  simp only [isCached, spec_bind, spec_ite, spec_pure, syscall, spec_callE]
  refine ⟨trivial, fun found _ => ?_, fun _ _ => rfl⟩
  cases found with
  | false =>
      refine ⟨fun h => (Bool.false_ne_true h).elim, fun _ => ?_⟩
      exact if_pos ⟨hpath, rfl⟩
  | true =>
      have hfound : (visits r).next v (.isFile m.path) (.ok true) = v :=
        v.next_isFile_true
      refine ⟨fun _ => ?_, fun h => absurd rfl h⟩
      rw [hfound]
      refine ⟨trivial, fun st _ => ?_, fun _ _ => rfl⟩
      refine (Visit.next_stat hpath st).trans ?_
      by_cases hsize : 0 < st.size <;> simp [hsize]

/-- A transfer under the lock is one of the thread's awaits. -/
theorem spec_downloadFile (hclient : DownloadsWhole r.downloadFile) {pid : Nat} {hex : PyStr}
    (hhex : 0x2E ∉ hex) (hwant : v.want = some m) (hstage : v.stage = .missed)
    (hdrawn : v.drawn = some hex) (hfresh : v.toTransfer = {}) :
    Spec (visits r).toMonitor v (r.downloadFile m.object (partPath m.path pid hex))
      (fun v' _ => v'.want = some m ∧ v'.stage = .missed ∧ v'.drawn = some hex ∧
        v'.got.isSome ∧ v'.area (partPath m.path pid hex) = v'.got)
      fun v' _ => v'.want = some m ∧ v'.stage = .missed := by
  have howns {v' : Visit r} {q : PurePath} (h : v'.drawn = some hex)
      (hq : (partPath m.path pid hex).Covers q) : v'.Owns q := ⟨hex, h, m.scratchOf_part hhex hq⟩
  refine Conforms.transfer (T := fun t v' => v'.toTransfer = t ∧ v'.want = some m ∧
    v'.stage = .missed ∧ v'.drawn = some hex) (hclient _ _ (by simp [partPath]))
    ⟨hfresh, hwant, hstage, hdrawn⟩ ?_ ?_ ?_
  · rintro t v' e ⟨rfl, hw, hs, hd⟩ hal
    cases e with
    | getObject o => exact ⟨hs, m, hw, hal.symm⟩
    | writeFile p data => exact ⟨hs, howns hd hal⟩
    | replace p q => exact ⟨hs, howns hd hal.1, .inl (howns hd hal.2)⟩
    | isFile p | stat p | getpid | unlink p => trivial
    | _ => exact hal.elim
  · rintro t v' e a ⟨rfl, hw, hs, hd⟩ hal -
    have hmiss : v'.miss = v' := by simp [Visit.miss, hs]
    have hkept : ((visits r).next v' e a).toTransfer = v'.toTransfer.next e a ∧
        ((visits r).next v' e a).want = v'.want ∧ ((visits r).next v' e a).stage = v'.stage ∧
        ((visits r).next v' e a).drawn = v'.drawn := by
      cases a with
      | error x => cases e <;> exact ⟨rfl, rfl, rfl, rfl⟩
      | ok b =>
          cases e with
          | getObject o | writeFile p data | getpid | unlink p => exact ⟨rfl, rfl, rfl, rfl⟩
          | isFile p =>
              show (if _ then v'.miss else v').toTransfer = _ ∧ (if _ then v'.miss else v').want = _ ∧
                (if _ then v'.miss else v').stage = _ ∧ (if _ then v'.miss else v').drawn = _
              rw [hmiss]
              simp [Transfer.next]
          | stat p =>
              have hnext : (visits r).next v' (.stat p) (.ok b) = v' ∨
                  (visits r).next v' (.stat p) (.ok b) = { v' with seen := true } := by
                show (if _ then if _ then _ else v'.miss else v') = v' ∨
                  (if _ then if _ then _ else v'.miss else v') = { v' with seen := true }
                rw [hmiss]
                split
                · split
                  · exact .inr rfl
                  · exact .inl rfl
                · exact .inl rfl
              obtain h | h := hnext
              · rw [h]; exact ⟨rfl, rfl, rfl, rfl⟩
              · rw [h]; exact ⟨rfl, rfl, rfl, rfl⟩
          | replace p q =>
              have hne : v'.path ≠ some q := by
                intro h
                have hq := m.scratchOf_part hhex hal.2
                simp only [Visit.path, hw, Option.map_some, Option.some.injEq] at h
                rw [← h, m.scratchOf_path] at hq
                cases hq
              have hnext : (visits r).next v' (.replace p q) (.ok b) =
                  { v' with toTransfer := v'.toTransfer.next (.replace p q) (.ok b) } := if_neg hne
              rw [hnext]
              exact ⟨rfl, rfl, rfl, rfl⟩
          | _ => exact hal.elim
    obtain ⟨h₁, h₂, h₃, h₄⟩ := hkept
    exact ⟨trivial, h₁, h₂.trans hw, h₃.trans hs, h₄.trans hd⟩
  · rintro t v' res ⟨rfl, hw, hs, hd⟩ hres
    cases res with
    | error x => exact ⟨hw, hs⟩
    | ok b => exact ⟨hw, hs, hd, hres⟩

/-- The temporary file takes the place of the cached one when it is whole. -/
theorem spec_publish (hclient : DownloadsWhole r.downloadFile) {pid : Nat} {hex : PyStr}
    (hhex : 0x2E ∉ hex) (hwant : v.want = some m) (hstage : v.stage = .missed)
    (hdrawn : v.drawn = some hex) (hfresh : v.toTransfer = {}) :
    Spec (visits r).toMonitor v
      (tryCatch (do
        r.downloadFile m.object (partPath m.path pid hex)
        syscall (.replace (partPath m.path pid hex) m.path)) fun x =>
          if x.isException then do
            unlinkMissingOk (partPath m.path pid hex)
            throw x
          else throw x)
      (fun v' _ => v'.stage = .published ∧ v'.seen = true ∧ v'.want = some m)
      fun v' _ => v'.stage = .missed ∧ v'.want = some m := by
  have hclean (v' : Visit r) (hs : v'.stage = .missed) (hw : v'.want = some m) (x : Foreign) :
      Spec (visits r).toMonitor v' (if x.isException then do
          unlinkMissingOk (partPath m.path pid hex)
          throw x
        else (throw x : CachePy Unit))
        (fun v' _ => v'.stage = .published ∧ v'.seen = true ∧ v'.want = some m)
        fun v' _ => v'.stage = .missed ∧ v'.want = some m := by
    refine (spec_ite _ _ _).2 ⟨fun _ => ?_, fun _ => ⟨hs, hw⟩⟩
    simp only [unlinkMissingOk, spec_bind, spec_tryCatch, syscall, spec_callE]
    refine ⟨trivial, fun _ _ => ⟨hs, hw⟩, fun y _ => ?_⟩
    split
    · exact ⟨hs, hw⟩
    · exact ⟨hs, hw⟩
  refine (spec_tryCatch _ _).2 ((spec_bind _ _).2 (Spec.mono
    (spec_downloadFile hclient hhex hwant hstage hdrawn hfresh) ?_ fun v' x h =>
      hclean v' h.2 h.1 x))
  intro v' _ h
  obtain ⟨hw, hs, hd, hgot, harea⟩ := h
  have hpath : v'.path = some m.path := by simp [Visit.path, hw]
  have howns : v'.Owns (partPath m.path pid hex) :=
    ⟨hex, hd, m.scratchOf_part hhex (covers_self (by simp [partPath]))⟩
  refine (spec_callE _).2 ⟨⟨hs, howns, .inr ⟨hpath, hgot, harea⟩⟩, fun b _ => ?_,
    fun x _ => hclean v' hs hw x⟩
  rw [show (visits r).next v' _ (.ok b) = _ from Visit.next_replace_path _ hpath b]
  exact ⟨rfl, rfl, hw⟩

theorem not_mem_hexDigits (n u : Nat) : 0x2E ∉ hexDigits n u := by
  intro h
  have := List.all_eq_true.1 (all_hexDigits n u) _ h
  cases this

theorem Visit.Holds.of_stage (h : v.stage = .held ∨ v.stage = .missed ∨ v.stage = .published) :
    v.Holds := by
  obtain h | h | h := h <;> simp [Visit.Holds, h]

/-- The body of `with uri_lock`. -/
theorem spec_fetch (hclient : DownloadsWhole r.downloadFile) (hwant : v.want = some m)
    (hstage : v.stage = .held) (hdrawn : v.drawn = none) (hfresh : v.toTransfer = {}) :
    Spec (visits r).toMonitor v (r.fetch m.object m.path)
      (fun v' p => p = m.path ∧ v'.seen = true ∧ v'.Holds ∧ v'.want = some m)
      fun v' _ => v'.Holds ∧ v'.want = some m := by
  unfold R2Cache.fetch
  refine (spec_bind _ _).2 (Spec.mono (spec_isCached hwant) ?_ ?_)
  · intro v₁ there h
    cases there with
    | true =>
        simp only [if_true] at h
        subst h
        exact ⟨rfl, rfl, .of_stage (.inl hstage), hwant⟩
    | false =>
        simp only [Bool.false_eq_true, if_false, Visit.miss, if_pos hstage] at h
        subst h
        refine (spec_ite _ _ _).2 ⟨fun h => (Bool.false_ne_true h).elim, fun _ => ?_⟩
        refine (spec_bind _ _).2 ((spec_callE _).2 ⟨trivial, fun pid _ => ?_, ?_⟩)
        · refine (spec_bind _ _).2 ((spec_callE _).2 ⟨hdrawn, fun hex hu => ?_, ?_⟩)
          · obtain ⟨u, hu⟩ := hu
            have hhex : 0x2E ∉ hex := by
              rw [Except.ok.inj hu]
              exact not_mem_hexDigits 32 u.toNat
            refine (spec_bind _ _).2 (Spec.mono (spec_publish hclient hhex ?_ ?_ ?_ ?_) ?_ ?_)
            · exact hwant
            · rfl
            · rfl
            · show ({ v.toTransfer with area := fun _ => none } : Transfer) = {}
              rw [hfresh]
            · intro v₂ _ h
              obtain ⟨hs, hseen, hw⟩ := h
              refine (spec_bind _ _).2 (Spec.mono
                (spec_harmless hs hseen (harmless_enforceCacheLimit m.path)) ?_ ?_)
              · intro v₃ _ h
                subst h
                exact ⟨rfl, hseen, .of_stage (.inr (.inr hs)), hw⟩
              · intro v₃ _ h
                subst h
                exact ⟨.of_stage (.inr (.inr hs)), hw⟩
            · exact fun v₂ _ h => ⟨.of_stage (.inr (.inl h.1)), h.2⟩
          · intro x hx
            obtain ⟨u, hu⟩ := hx
            cases hu
        · intro x hx
          obtain ⟨n, hn⟩ := hx
          cases hn
  · intro v₁ _ h
    subst h
    exact ⟨.of_stage (.inl hstage), hwant⟩

/-- What runs under the lock, runs between taking it and giving it back. -/
theorem spec_withLock {α : Type} {body : CachePy α} {Q : Visit r → α → Prop}
    (hwant : v.want = some m) (hstage : v.stage = .before)
    (hbody : Spec (visits r).toMonitor { v with stage := .held } body
      (fun v' a => v'.Holds ∧ v'.want = some m ∧ Q { v' with stage := .released } a)
      fun v' _ => v'.Holds ∧ v'.want = some m) :
    Spec (visits r).toMonitor v (withLock m.uri body) (fun v' a => ¬v'.Holds ∧ Q v' a)
      fun v' _ => ¬v'.Holds := by
  have hreleased (v' : Visit r) : ¬({ v' with stage := .released } : Visit r).Holds :=
    fun h => h.2 rfl
  unfold withLock
  refine (spec_bind _ _).2 ((spec_callE _).2 ⟨⟨hstage, m, hwant, rfl⟩, fun _ _ => ?_, ?_⟩)
  · refine (spec_bind _ _).2 ((spec_tryCatch _ _).2 (Spec.mono hbody ?_ ?_))
    · intro v₁ a h
      obtain ⟨hh, hw, hq⟩ := h
      refine (spec_bind _ _).2 ((spec_callE _).2 ⟨⟨hh, m, hw, rfl⟩, fun _ _ => ⟨hreleased v₁, hq⟩, ?_⟩)
      intro x hx
      cases hx
    · intro v₁ x h
      refine (spec_bind _ _).2 ((spec_callE _).2 ⟨⟨h.1, m, h.2, rfl⟩, fun _ _ => hreleased v₁, ?_⟩)
      intro y hy
      cases hy
  · intro x hx
    cases hx

theorem wanted_eq_some (m : Wanted r) : wanted r m.uri = some m := by
  obtain ⟨uri, object, path, parsed, place⟩ := m
  unfold wanted
  split
  · next x h =>
      rw [parsed] at h
      cases h
  · next object' h =>
      have hobject := h
      rw [parsed] at hobject
      cases hobject
      split
      · next x h' =>
          rw [place] at h'
          cases h'
      · next path' h' =>
          have hpath := h'
          rw [place] at hpath
          cases hpath
          rfl

/-- `download_to_cache`. -/
theorem spec_downloadToCache (hclient : DownloadsWhole r.downloadFile) (uri : PyStr) :
    Spec (visits r).toMonitor { want := wanted r uri } (r.downloadToCache uri)
      (fun v p => ¬v.Holds ∧ v.seen = true ∧ v.path = some p) fun v _ => ¬v.Holds := by
  have hbefore (w : Option (Wanted r)) (b : Bool) : ¬({ want := w, seen := b } : Visit r).Holds :=
    fun h => h.1 rfl
  unfold R2Cache.downloadToCache
  split
  · exact hbefore _ _
  next object hparsed =>
  split
  · exact hbefore _ _
  next path hplace =>
  let m : Wanted r := { uri, object, path, parsed := hparsed, place := hplace }
  rw [show wanted r uri = some m from wanted_eq_some m]
  refine (spec_bind _ _).2 (Spec.mono (spec_isCached (m := m) rfl) ?_ ?_)
  · intro v₁ there h
    cases there with
    | true =>
        simp only [if_true] at h
        subst h
        exact ⟨hbefore _ _, rfl, rfl⟩
    | false =>
        obtain rfl : v₁ = { want := some m } := h
        refine (spec_ite _ _ _).2 ⟨fun h => (Bool.false_ne_true h).elim, fun _ => ?_⟩
        refine Spec.mono (spec_withLock (m := m) (Q := fun v p => v.seen = true ∧ v.path = some p)
          rfl rfl (Spec.mono (spec_fetch (m := m) hclient rfl rfl rfl rfl) ?_ fun _ _ h => h)) ?_ ?_
        · intro v₂ p h
          obtain ⟨rfl, hseen, hh, hw⟩ := h
          exact ⟨hh, hw, hseen, by rw [Visit.path, hw]; rfl⟩
        · exact fun _ _ h => h
        · exact fun _ _ h => h
  · intro v₁ _ h
    subst h
    exact hbefore _ _

/-- Uploads and deletes ask for no lock. -/
theorem spec_uploadBytes {v : Visit r} (hv : ¬v.Holds) (data : Bytes) (key : PyStr)
    (bucket : Option PyStr) : Spec (visits r).toMonitor v (r.uploadBytes data key bucket)
      (fun v' _ => ¬v'.Holds) fun v' _ => ¬v'.Holds :=
  (spec_bind _ _).2 ((spec_callE _).2 ⟨trivial, fun _ _ => hv, fun _ _ => hv⟩)

/-- Every call's function does what threads may do. -/
theorem spec_program (hclient : DownloadsWhole r.downloadFile) (call : StorageCall) :
    Conforms (visits r).toMonitor ((visits r).init call) (r.program call).run (visits r).fin := by
  have hbefore : ¬({ want := none } : Visit r).Holds := fun h => h.1 rfl
  have hcall : Spec (visits r).toMonitor { want := call.wants r } (r.program call)
      (fun v res => ¬v.Holds ∧ v.Returns (.ok res)) fun v _ => ¬v.Holds := by
    cases call with
    | downloadToCache uri =>
        refine (spec_bind _ _).2 (Spec.mono (spec_downloadToCache hclient uri) ?_ fun _ _ h => h)
        exact fun v p h => h
    | uploadBytes data key bucket =>
        refine (spec_bind _ _).2 (Spec.mono (spec_uploadBytes hbefore data key bucket) ?_
          fun _ _ h => h)
        exact fun v o h => ⟨h, trivial⟩
    | uploadFile path key bucket =>
        show Spec (visits r).toMonitor ({ want := none } : Visit r) _ _ _
        refine (spec_bind _ _).2 (Spec.mono (Q := fun v _ => ¬v.Holds) (R := fun v _ => ¬v.Holds)
          ?_ (fun v o h => ⟨h, trivial⟩) fun _ _ h => h)
        refine (spec_bind _ _).2 ((spec_callE _).2 ⟨trivial, fun found _ => ?_, fun _ _ => hbefore⟩)
        rw [show (visits r).next ({ want := none } : Visit r) (.isFile path) (.ok found) =
          { want := none } from
          Visit.next_isFile_none ({ want := none } : Visit r) rfl path found]
        refine (spec_ite _ _ _).2 ⟨fun _ => ?_, fun _ => hbefore⟩
        refine (spec_bind _ _).2 ((spec_callE _).2 ⟨trivial, fun data _ => ?_, fun _ _ => hbefore⟩)
        exact spec_uploadBytes hbefore _ _ _
    | delete uri =>
        refine (spec_bind _ _).2 (Spec.mono (Q := fun v _ => ¬v.Holds) (R := fun v _ => ¬v.Holds)
          ?_ (fun v o h => ⟨h, trivial⟩) fun _ _ h => h)
        unfold R2Cache.deleteUri
        split
        · exact hbefore
        · exact (spec_callE _).2 ⟨trivial, fun _ _ => hbefore, fun _ _ => hbefore⟩
  refine Conforms.mono hcall fun v res h => ?_
  cases res with
  | ok a => exact h
  | error x => exact ⟨h, trivial⟩

end functions

/-! ## one await -/

section await

variable {r : R2Cache} {fleet : Fleet} {t : Nat} {e : CacheEff} {o : CacheOracle}
  {w w' : CacheWorld} {a : CacheAns e}

theorem lookup_of_erase {α : Type} {β : α → Type} [DecidableEq α] {s : AList β} {k k' : α} {b : β k}
    (h : (s.erase k').lookup k = some b) : s.lookup k = some b := by
  by_cases hk : k = k'
  · subst hk
    rw [AList.lookup_erase] at h
    cases h
  · rwa [AList.lookup_erase_ne hk] at h

/-- Awaits are answered as `Possible` says. -/
theorem perform_possible {u : Uuid} (hx : w.perform r fleet t u e = some (a, w')) :
    e.Possible a := by
  cases e with
  | acquire uri =>
      simp only [CacheWorld.perform] at hx
      split at hx <;> cases hx
      rfl
  | uuid4 =>
      simp only [CacheWorld.perform] at hx
      split at hx <;> cases hx
      exact ⟨u, rfl⟩
  | release uri =>
      cases hx
      rfl
  | getpid =>
      cases hx
      exact ⟨_, rfl⟩
  | _ => trivial

/-- An await that fails on its own changes nothing but the bucket. -/
theorem exec_cases (hx : CacheWorld.exec r fleet t e o w = some (a, w')) :
    (∃ u, w.perform r fleet t u e = some (a, w')) ∨
      (∃ x, a = .error x) ∧ e.fallible = true ∧ w'.files = w.files ∧ w'.lock = w.lock ∧
        w'.named = w.named := by
  cases o with
  | goes u => exact .inl ⟨u, hx⟩
  | raises x =>
      simp only [CacheWorld.exec] at hx
      split at hx
      · next he =>
          cases hx
          exact .inr ⟨⟨x, rfl⟩, he, rfl, rfl, rfl⟩
      · cases hx
  | lost x =>
      simp only [CacheWorld.exec] at hx
      split at hx
      · next he =>
          obtain ⟨⟨b, w₁⟩, hb, hw⟩ := Option.map_eq_some_iff.1 hx
          cases hw
          cases e with
          | putObject o data =>
              simp only [CacheWorld.perform] at hb
              split at hb <;> cases hb
              all_goals exact .inr ⟨⟨x, rfl⟩, rfl, rfl, rfl, rfl⟩
          | deleteObject o =>
              cases hb
              exact .inr ⟨⟨x, rfl⟩, rfl, rfl, rfl, rfl⟩
          | _ => cases he
      · cases hx

theorem cacheMachine_follows (hclient : DownloadsWhole r.downloadFile) :
    (cacheMachine r fleet).Follows (visits r) where
  answers := by
    intro t e o w a w' hx
    obtain ⟨u, hp⟩ | ⟨⟨x, rfl⟩, he, -⟩ := exec_cases hx
    · exact perform_possible hp
    · cases e with
      | acquire _ | release _ | getpid | uuid4 => cases he
      | _ => trivial
  conforms := spec_program hclient

end await

end NeuroVoice
