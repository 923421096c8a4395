import NeuroVoice.Py
import NeuroVoice.Lib.Sha256

/-!
# NeuroVoice.Catalog.Storage

Where audio and adapters are kept: `storage/r2.py` and the local disk, with
the part of `urllib.parse` and `pathlib` that maps a URI to a place.
-/

namespace NeuroVoice

/-- The content of a file or an object. -/
abbrev Bytes := List UInt8

/-- `hashlib.sha256(data).hexdigest()`. -/
def sha256 (data : Bytes) : PyStr := (Sha256.digest data).flatMap fun w => hexDigits 8 w.toNat

/-- `s.startswith(pat)`. -/
def startsWith (s : PyStr) (pat : String) : Bool := (py pat).isPrefixOf s

/-! ## s3:// URIs -/

/-- The pieces of a URL that `S3URI.parse` reads. -/
structure SplitResult where
  scheme : PyStr
  netloc : PyStr
  path : PyStr

/-- `[a-zA-Z]`. -/
def isAsciiAlpha (c : Nat) : Bool := (0x41 ≤ c && c ≤ 0x5A) || (0x61 ≤ c && c ≤ 0x7A)

/-- `scheme_chars`. -/
def isSchemeChar (c : Nat) : Bool :=
  isAsciiAlpha c || (0x30 ≤ c && c ≤ 0x39) || c == 0x2B || c == 0x2D || c == 0x2E

/-- `.lower()` of a scheme. -/
def lowerAscii (s : PyStr) : PyStr := s.map fun c => if 0x41 ≤ c ∧ c ≤ 0x5A then c + 0x20 else c

/-- The scheme and what follows its colon. -/
def splitScheme (url : PyStr) : PyStr × PyStr :=
  match url.span fun c => c != 0x3A with
  | (c :: cs, _ :: rest) =>
      if isAsciiAlpha c && cs.all isSchemeChar then (lowerAscii (c :: cs), rest) else ([], url)
  | _ => ([], url)

/-- The authority after `//`. -/
def splitNetloc (url : PyStr) : PyStr × PyStr :=
  if startsWith url "//" then
    (url.drop 2).span fun c => c != 0x2F && c != 0x3F && c != 0x23
  else ([], url)

/-- `urlparse` of a URL whose scheme takes no parameters.  `netlocOk` stands
for its checks of bracketed hosts and of normalised characters. -/
def urlparse (netlocOk : PyStr → Bool) (url : PyStr) : Except Foreign SplitResult :=
  let url := (url.dropWhile fun c => c ≤ 0x20).filter fun c => c != 9 && c != 10 && c != 13
  let (scheme, rest) := splitScheme url
  let (netloc, rest) := splitNetloc rest
  if netloc.contains 0x5B != netloc.contains 0x5D then .error (.valueError "Invalid IPv6 URL")
  else if netlocOk netloc then
    .ok { scheme, netloc, path := rest.takeWhile fun c => c != 0x3F && c != 0x23 }
  else .error (.valueError "netloc contains invalid characters")

/-- `S3URI`. -/
structure S3URI where
  bucket : PyStr
  key : PyStr
  deriving DecidableEq

/-- `S3URI.parse`. -/
def S3URI.parse (netlocOk : PyStr → Bool) (uri : PyStr) : Except Foreign S3URI := do
  if uri.isEmpty then throw (.valueError "empty URI")
  let parsed ← urlparse netlocOk uri
  if ¬[py "s3", py "r2"].contains parsed.scheme then
    throw (.valueError "not an s3:// or r2:// URI")
  if parsed.netloc.isEmpty then throw (.valueError "URI missing bucket")
  let key := parsed.path.dropWhile fun c => c == 0x2F
  if key.isEmpty then throw (.valueError "URI missing object key")
  return { bucket := parsed.netloc, key }

/-! ## paths -/

/-- A `pathlib` path: the leading slashes it keeps, and its components. -/
structure PurePath where
  root : Nat
  parts : List PyStr
  deriving DecidableEq

/-- A component that `pathlib` keeps. -/
def isComponent (p : PyStr) : Bool := !p.isEmpty && p != [0x2E] && !p.contains 0x2F

namespace PurePath

/-- `Path(s)`: empty and `.` components are dropped, and exactly two leading
slashes are kept apart from one. -/
def ofStr (s : PyStr) : PurePath where
  root :=
    if startsWith s "//" && !startsWith s "///" then 2 else if startsWith s "/" then 1 else 0
  parts := (splitOn 0x2F s).filter fun p => !p.isEmpty && p != [0x2E]

/-- `str(p)`. -/
def str (p : PurePath) : PyStr :=
  if p.root = 0 ∧ p.parts = [] then [0x2E]
  else List.replicate p.root 0x2F ++ joinWith 0x2F p.parts

/-- `p / s`, for a relative `s` of one component. -/
def child (p : PurePath) (s : PyStr) : PurePath := { p with parts := p.parts ++ [s] }

/-- What `Path(…)` returns. -/
structure Normal (p : PurePath) : Prop where
  root : p.root ≤ 2
  parts : ∀ x ∈ p.parts, isComponent x = true

end PurePath

namespace PurePath

theorem isComponent_iff {p : PyStr} :
    isComponent p = true ↔ p ≠ [] ∧ p ≠ [0x2E] ∧ 0x2F ∉ p := by
  simp [isComponent, and_assoc]

theorem normal_ofStr (s : PyStr) : (ofStr s).Normal := by
  constructor
  · unfold ofStr
    simp only
    split
    · omega
    · split <;> omega
  · intro x hx
    simp only [ofStr, List.mem_filter, Bool.and_eq_true] at hx
    refine isComponent_iff.2 ⟨by simpa using hx.2.1, by simpa using hx.2.2, not_mem_splitOn hx.1⟩

theorem Normal.child {p : PurePath} (h : p.Normal) {s : PyStr} (hs : isComponent s = true) :
    (p.child s).Normal := by
  refine ⟨h.root, fun x hx => ?_⟩
  obtain hx | hx := List.mem_append.1 hx
  · exact h.parts x hx
  · rw [List.mem_singleton.1 hx]; exact hs

/-- Joined components do not begin with a slash. -/
theorem head_joinWith {ps : List PyStr} (h : ∀ p ∈ ps, isComponent p = true) (s : PyStr) :
    joinWith 0x2F ps ≠ 0x2F :: s := by
  cases ps with
  | nil => simp [joinWith]
  | cons p ps =>
      obtain ⟨hne, -, hslash⟩ := isComponent_iff.1 (h p (by simp))
      cases p with
      | nil => exact absurd rfl hne
      | cons c cs =>
          simp only [List.mem_cons, not_or] at hslash
          cases ps with
          | nil => simpa [joinWith] using fun hc => absurd hc.symm hslash.1
          | cons q qs => simpa [joinWith] using fun hc => absurd hc.symm hslash.1

/-- The components survive `str`. -/
theorem splitOn_str {ps : List PyStr} (h : ∀ p ∈ ps, isComponent p = true) (n : Nat) :
    ((splitOn 0x2F (List.replicate n 0x2F ++ joinWith 0x2F ps)).filter
      fun p => !p.isEmpty && p != [0x2E]) = ps := by
  induction n with
  | succ n ih => simpa [List.replicate_succ, splitOn] using ih
  | zero =>
      by_cases hps : ps = []
      · subst hps; rfl
      · rw [List.replicate_zero, List.nil_append,
          splitOn_joinWith (fun p hp => (isComponent_iff.1 (h p hp)).2.2) hps]
        refine List.filter_eq_self.2 fun p hp => ?_
        obtain ⟨hne, hdot, -⟩ := isComponent_iff.1 (h p hp)
        simp [hne, hdot]

/-- **`Path(str(p)) == p`**. -/
theorem ofStr_str {p : PurePath} (h : p.Normal) : ofStr p.str = p := by
  obtain ⟨root, parts⟩ := p
  have hroot : root = 0 ∨ root = 1 ∨ root = 2 := by
    have := h.root
    simp only at this
    omega
  have hhead := head_joinWith h.parts
  have hsplit := splitOn_str h.parts
  unfold str
  split
  · next h0 =>
      simp only at h0
      obtain ⟨rfl, rfl⟩ := h0
      rfl
  · next h0 =>
      unfold ofStr
      rw [hsplit root]
      simp only at h0 hhead ⊢
      congr 1
      generalize joinWith 0x2F parts = t at hhead
      have hstart : ∀ u : PyStr, ((0x2F : Nat) :: u).isPrefixOf t = false := by
        intro u
        cases t with
        | nil => rfl
        | cons c cs =>
            have hc : (0x2F : Nat) ≠ c := fun e => hhead cs (by rw [← e])
            simp [List.isPrefixOf, hc]
      obtain rfl | rfl | rfl := hroot
      · simp [startsWith, py, hstart]
      · simp [startsWith, py, hstart, List.isPrefixOf]
      · simp [startsWith, py, hstart, List.isPrefixOf, List.replicate]

end PurePath

/-! ## what is stored -/

/-- A place something can be stored at. -/
inductive Artifact where
  | object (o : S3URI)
  | file (p : PurePath)
  deriving DecidableEq

/-- Object storage and the local disk. -/
structure Storage where
  content : Artifact → Option Bytes

namespace Storage

/-- Something is stored there. -/
def has (s : Storage) (a : Artifact) : Bool := (s.content a).isSome

/-- Delete it, if it is there. -/
def remove (s : Storage) (a : Artifact) : Storage where
  content b := if b = a then none else s.content b

/-- Write it. -/
def write (s : Storage) (a : Artifact) (data : Bytes) : Storage where
  content b := if b = a then some data else s.content b

@[simp] theorem has_remove (s : Storage) (a b : Artifact) :
    (s.remove a).has b = (s.has b && b != a) := by
  unfold has remove
  by_cases h : b = a
  · simp [h]
  · simp [h]

@[simp] theorem content_write (s : Storage) (a b : Artifact) (data : Bytes) :
    (s.write a data).content b = if b = a then some data else s.content b := rfl

@[simp] theorem content_remove (s : Storage) (a b : Artifact) :
    (s.remove a).content b = if b = a then none else s.content b := rfl

end Storage

end NeuroVoice
