import NeuroVoice.Catalog.Purge
import NeuroVoice.Lib.Percent
import NeuroVoice.Storage.ObjectUri

/-!
# NeuroVoice.Storage.LocalUri

`storage/reference_resolver.py`: the file behind a `file://` URI.

Enrolling formats the path into a URI as it is, purging cuts the `file://` off
again, and resolving goes through a URL parser and undoes percent escapes.  So
the purge always means the enrolled file, and the synthesis means it exactly if
the path has nothing that the parser cuts, drops or unescapes: `localUri_same`.
-/

namespace NeuroVoice

open Percent (hasEscape unquote)

/-! ## the resolver -/

/-- How a fetcher of remote URIs ends. -/
inductive Fetched where
  | path (p : PurePath)
  | fileNotFound (msg : String)
  | runtimeError (msg : String)
  | raised (x : Foreign)

/-- What the resolver asks of the machine it runs on. -/
structure LocalDisk where
  isFile : PurePath → Bool
  /-- `expanduser` of a path that begins with `~`. -/
  expandHome : PurePath → Except Foreign PurePath
  /-- `resolve` of a relative path. -/
  resolve : PurePath → PurePath
  fetch : PyStr → Fetched

/-- The exceptions of `resolve_reference_uri`. -/
inductive ResolveError where
  | unsupportedReferenceUri (msg : String)
  | referenceAudioMissing (msg : String) (path : Option PurePath)
  | foreign (x : Foreign)

/-- `Path.expanduser`. -/
def expanduser (disk : LocalDisk) (p : PurePath) : Except Foreign PurePath :=
  if p.root = 0 ∧ p.parts.head?.any (fun s => s.head? = some 0x7E) then disk.expandHome p
  else .ok p

/-- The branch for local paths. -/
def resolveLocal (disk : LocalDisk) (p : PurePath) : Except ResolveError PurePath :=
  match expanduser disk p with
  | .error x => .error (.foreign x)
  | .ok p =>
      let p := if p.root = 0 then disk.resolve p else p
      if disk.isFile p then .ok p
      else .error (.referenceAudioMissing "reference audio not on disk: " (some p))

/-- The branch for remote URIs. -/
def resolveRemote (disk : LocalDisk) (uri : PyStr) : Except ResolveError PurePath :=
  match disk.fetch uri with
  | .path p =>
      if disk.isFile p then .ok p else .error (.referenceAudioMissing "R2 cache miss for " (some p))
  | .fileNotFound msg => .error (.referenceAudioMissing msg none)
  | .runtimeError msg => .error (.unsupportedReferenceUri msg)
  | .raised x => .error (.foreign x)

/-- `resolve_reference_uri`. -/
def resolveReferenceUri (netlocOk : PyStr → Bool) (disk : LocalDisk) (uri : PyStr) :
    Except ResolveError PurePath :=
  if uri.isEmpty then .error (.unsupportedReferenceUri "empty reference_uri")
  else
    match urlparse netlocOk uri with
    | .error x => .error (.foreign x)
    | .ok parsed =>
        if parsed.scheme = py "file" then resolveLocal disk (.ofStr (unquote parsed.path))
        else if parsed.scheme = [] then resolveLocal disk (.ofStr uri)
        else if [py "s3", py "r2"].contains parsed.scheme then resolveRemote disk uri
        else .error (.unsupportedReferenceUri "unknown URI scheme")

/-! ## paths get no longer -/

namespace PurePath

/-- The length of the components with one separator each. -/
def weight (ps : List PyStr) : Nat := (ps.map fun p => p.length + 1).sum

theorem length_joinWith (sep : Nat) (ps : List PyStr) :
    (joinWith sep ps).length = weight ps - 1 := by
  induction ps with
  | nil => rfl
  | cons p ps ih =>
      cases ps with
      | nil => simp [joinWith, weight]
      | cons q qs =>
          simp only [joinWith, weight, List.length_append, List.length_cons, List.map_cons,
            List.sum_cons] at ih ⊢
          omega

theorem weight_filter_le (f : PyStr → Bool) (ps : List PyStr) :
    weight (ps.filter f) ≤ weight ps := by
  induction ps with
  | nil => exact Nat.le_refl _
  | cons p ps ih =>
      rw [List.filter_cons]
      split
      · simp only [weight, List.map_cons, List.sum_cons] at ih ⊢
        omega
      · simp only [weight, List.map_cons, List.sum_cons] at ih ⊢
        omega

theorem weight_splitOn (sep : Nat) (s : PyStr) : weight (splitOn sep s) = s.length + 1 := by
  induction s with
  | nil => rfl
  | cons c cs ih =>
      unfold splitOn
      split
      · simp only [weight, List.map_cons, List.sum_cons, List.length_nil, List.length_cons] at ih ⊢
        omega
      · cases h : splitOn sep cs with
        | nil => rw [h] at ih; simp [weight] at ih
        | cons p ps =>
            rw [h] at ih
            simp only [weight, List.map_cons, List.sum_cons, List.length_cons] at ih ⊢
            omega

theorem root_pos (s : PyStr) : 1 ≤ (ofStr (0x2F :: s)).root := by
  unfold ofStr
  simp only
  split
  · omega
  · rw [if_pos (by simp [startsWith, py])]

/-- `str(Path(s))` is not longer than `s`. -/
theorem length_str_ofStr (s : PyStr) :
    (ofStr (0x2F :: s)).str.length ≤ (0x2F :: s : PyStr).length := by
  have hsplit : ∀ t : PyStr, splitOn 0x2F (0x2F :: t) = [] :: splitOn 0x2F t := fun t => by
    simp [splitOn]
  have hpos := root_pos s
  have hroot : (ofStr (0x2F :: s)).root = 1 ∨
      (ofStr (0x2F :: s)).root = 2 ∧ ∃ t, s = 0x2F :: t := by
    unfold ofStr
    simp only
    split
    · next h =>
        refine .inr ⟨rfl, ?_⟩
        cases s with
        | nil => simp [startsWith, py] at h
        | cons c t =>
            simp only [startsWith, py, Bool.and_eq_true] at h
            have hslash : c = 0x2F := by
              have hhead := h.1
              simp at hhead
              exact hhead.symm
            exact ⟨t, by rw [hslash]⟩
    · next h => exact .inl (if_pos (by simp [startsWith, py]))
  obtain ⟨keep, hempty, hparts⟩ : ∃ keep : PyStr → Bool, keep [] = false ∧
      (ofStr (0x2F :: s)).parts = (splitOn 0x2F (0x2F :: s)).filter keep :=
    ⟨fun p => !p.isEmpty && p != [0x2E], rfl, rfl⟩
  have hskip : ∀ t : PyStr, (splitOn 0x2F (0x2F :: t)).filter keep =
      (splitOn 0x2F t).filter keep := by
    intro t
    rw [hsplit, List.filter_cons_of_neg (by simp [hempty])]
  have hweight : ∀ t : PyStr, weight ((splitOn 0x2F t).filter keep) ≤ t.length + 1 := by
    intro t
    rw [← weight_splitOn 0x2F t]
    exact weight_filter_le keep _
  unfold str
  rw [if_neg (by omega), List.length_append, List.length_replicate, length_joinWith, hparts, hskip]
  obtain h | h := hroot
  · have hle := hweight s
    simp only [h, List.length_cons]
    omega
  · obtain ⟨h, t, hs⟩ := h
    subst hs
    have hle := hweight t
    rw [hskip]
    simp only [h, List.length_cons]
    omega

/-- An absolute path begins with a slash. -/
theorem str_eq_cons {p : PurePath} (h : 1 ≤ p.root) : ∃ s, p.str = 0x2F :: s := by
  unfold str
  rw [if_neg (by omega)]
  obtain ⟨n, hn⟩ : ∃ n, p.root = n + 1 := ⟨p.root - 1, by omega⟩
  exact ⟨List.replicate n 0x2F ++ joinWith 0x2F p.parts, by rw [hn]; rfl⟩

end PurePath

/-! ## one path -/

/-- A text that a URL parser takes for a path as it is. -/
structure PlainPath (s : PyStr) : Prop where
  chars : ∀ c ∈ s, endsPath c = false ∧ isRemoved c = false
  escapes : hasEscape s = false

section localUri

variable {netlocOk : PyStr → Bool} {disk : LocalDisk} {p : PurePath}

/-- The path that the parser finds in the URI. -/
def pathOfUri (s : PyStr) : PyStr :=
  (s.filter fun c => !isRemoved c).takeWhile fun c => !endsPath c

theorem pathOfUri_cons (s : PyStr) : pathOfUri (0x2F :: s) = 0x2F :: pathOfUri s := by
  simp [pathOfUri, isRemoved, endsPath]

theorem length_pathOfUri_le (s : PyStr) : (pathOfUri s).length ≤ s.length :=
  Nat.le_trans (List.takeWhile_prefix _).length_le (List.length_filter_le _ _)

/-- The path that is found is the text itself, or shorter. -/
theorem length_pathOfUri_eq {s : PyStr} (h : (pathOfUri s).length = s.length) :
    pathOfUri s = s ∧ ∀ c ∈ s, endsPath c = false ∧ isRemoved c = false := by
  have htake : (pathOfUri s).length ≤ (s.filter fun c => !isRemoved c).length :=
    (List.takeWhile_prefix _).length_le
  have hfilter : (s.filter fun c => !isRemoved c).length = s.length := by
    have hle := List.length_filter_le (fun c => !isRemoved c) s
    omega
  have hkept : (s.filter fun c => !isRemoved c) = s :=
    List.filter_sublist.eq_of_length hfilter
  have hpath : pathOfUri s = s := by
    unfold pathOfUri at h ⊢
    rw [hkept] at h ⊢
    exact (List.takeWhile_prefix _).eq_of_length h
  refine ⟨hpath, ?_⟩
  intro c hc
  have hc' : c ∈ pathOfUri s := by rwa [hpath]
  have hends := List.all_eq_true.1 List.all_takeWhile c hc'
  have hremoved := (List.mem_filter.1 ((List.takeWhile_prefix _).subset hc')).2
  exact ⟨by simpa using hends, by simpa using hremoved⟩

theorem pathOfUri_eq_self {s : PyStr} (h : ∀ c ∈ s, endsPath c = false ∧ isRemoved c = false) :
    pathOfUri s = s := by
  have hkept : (s.filter fun c => !isRemoved c) = s :=
    List.filter_eq_self.2 fun c hc => by simp [(h c hc).2]
  rw [pathOfUri, hkept]
  exact List.takeWhile_eq_self_iff.2 fun c hc => by simp [(h c hc).1]

/-- What the resolver does with the URI of an absolute path. -/
theorem resolve_fileUri (hnetloc : netlocOk [] = true) (habs : 1 ≤ p.root) :
    resolveReferenceUri netlocOk disk (fileUri p) =
      resolveLocal disk (.ofStr (unquote (pathOfUri p.str))) := by
  obtain ⟨s, hs⟩ := PurePath.str_eq_cons habs
  have hkept : p.str.filter (fun c => !isRemoved c) =
      0x2F :: s.filter fun c => !isRemoved c := by
    rw [hs]
    rfl
  have hurl : urlparse netlocOk (fileUri p) =
      .ok { scheme := py "file", netloc := [], path := pathOfUri p.str } := by
    have huri : fileUri p = py "file" ++ py "://" ++ p.str := rfl
    rw [huri, urlparse_scheme netlocOk (.inr rfl), pathOfUri, hkept]
    simp [hnetloc]
  have hne : (fileUri p).isEmpty = false := by simp [fileUri, py]
  unfold resolveReferenceUri
  simp [hne, hurl]

/-- What the resolver does with an absolute path. -/
theorem resolveLocal_absolute {q : PurePath} (h : 1 ≤ q.root) :
    resolveLocal disk q = if disk.isFile q then .ok q
      else .error (.referenceAudioMissing "reference audio not on disk: " (some q)) := by
  have hroot : q.root ≠ 0 := by omega
  simp [resolveLocal, expanduser, hroot]

/-- The purge means the path of the URI. -/
theorem deleteArtifact_fileUri (h : p.Normal) (answer : DeleteAnswer) (s : Storage) :
    deleteArtifact netlocOk (fileUri p) answer s = performDelete (.file p) answer s := by
  have hne : (fileUri p).isEmpty = false := by simp [fileUri, py]
  have hs3 : (startsWith (fileUri p) "s3://" || startsWith (fileUri p) "r2://") = false := by
    simp [startsWith, fileUri, py, List.isPrefixOf]
  have hfile : startsWith (fileUri p) "file://" = true := by simp [startsWith, fileUri]
  unfold deleteArtifact
  rw [hne, hs3, hfile, ofStr_fileUri h]
  rfl

/-- The file that is synthesised from and the file that is erased are `p`. -/
structure SamePath (netlocOk : PyStr → Bool) (disk : LocalDisk) (uri : PyStr) (p : PurePath) :
    Prop where
  resolved : resolveReferenceUri netlocOk disk uri = .ok p
  deleted : ∀ answer s, deleteArtifact netlocOk uri answer s = performDelete (.file p) answer s

theorem samePath_iff (h : p.Normal) (habs : 1 ≤ p.root) (hfile : disk.isFile p = true)
    (hnetloc : netlocOk [] = true) :
    SamePath netlocOk disk (fileUri p) p ↔ PlainPath p.str := by
  obtain ⟨s, hs⟩ := PurePath.str_eq_cons habs
  have hquote : unquote (pathOfUri p.str) = 0x2F :: unquote (pathOfUri s) := by
    rw [hs, pathOfUri_cons, Percent.unquote_cons (by decide) (by decide)]
  have hresolve : resolveReferenceUri netlocOk disk (fileUri p) =
      if disk.isFile (.ofStr (unquote (pathOfUri p.str))) then
        .ok (.ofStr (unquote (pathOfUri p.str)))
      else .error (.referenceAudioMissing "reference audio not on disk: "
        (some (.ofStr (unquote (pathOfUri p.str))))) := by
    rw [resolve_fileUri hnetloc habs]
    refine resolveLocal_absolute ?_
    rw [hquote]
    exact PurePath.root_pos _
  constructor
  · intro hsame
    have hresolved := hsame.resolved
    rw [hresolve] at hresolved
    have hpath : PurePath.ofStr (unquote (pathOfUri p.str)) = p := by
      split at hresolved
      · exact Except.ok.inj hresolved
      · cases hresolved
    -- no step makes the text longer, so each step leaves it alone
    have hback : p.str.length ≤ (unquote (pathOfUri p.str)).length := by
      have hle := PurePath.length_str_ofStr (unquote (pathOfUri s))
      rw [← hquote, hpath] at hle
      exact hle
    have hunquote := Percent.length_unquote_le (pathOfUri p.str)
    have hcut := length_pathOfUri_le p.str
    obtain ⟨hself, hchars⟩ := length_pathOfUri_eq (s := p.str) (by omega)
    refine ⟨hchars, ?_⟩
    cases hescape : hasEscape p.str with
    | false => rfl
    | true =>
        have hshort := Percent.length_unquote_lt hescape
        rw [hself] at hback
        omega
  · intro hplain
    refine ⟨?_, fun answer s => deleteArtifact_fileUri h answer s⟩
    rw [hresolve, pathOfUri_eq_self hplain.chars, Percent.unquote_eq_self hplain.escapes,
      PurePath.ofStr_str h, hfile]
    rfl

end localUri

/-! ## enrolled references -/

/-- **The URI that an enroll stores means the enrolled file to the resolver and to
the purge exactly if the path is plain.** -/
theorem localUri_same {netlocOk : PyStr → Bool} {disk : LocalDisk} {cfg : EnrollSettings}
    {a : EnrollAttempt} (hslug : voiceIdMatches a.form.voiceId = true)
    (habs : 1 ≤ (PurePath.ofStr cfg.referenceAudioDir).root)
    (hfile : disk.isFile (targetOf cfg a.tenantId a.form.voiceId) = true)
    (hnetloc : netlocOk [] = true) (wav : Bytes) (seconds : Rat) :
    SamePath netlocOk disk (a.newVoice cfg wav seconds).referenceUri
        (targetOf cfg a.tenantId a.form.voiceId) ↔
      PlainPath (targetOf cfg a.tenantId a.form.voiceId).str :=
  samePath_iff (normal_targetOf hslug) habs hfile hnetloc

/-- An enroll of `ayse`. -/
def enrollAyse : EnrollAttempt where
  tenantId := 1
  apiKeyId := 2
  form :=
    { voiceId := py "ayse"
      displayName := py "Ayse"
      data := []
      licenseKind := py "example"
      consentKind := py "tenant-asserted" }
  trimmed := .written [] 1
  now := 0
  voiceUuid := 3
  consentUuid := 4

/-- The target of `ayse` under a directory. -/
def ayseUnder (dir : PyStr) : PurePath := targetOf { referenceAudioDir := dir } 1 (py "ayse")

/-- A disk with one file. -/
def diskWith (p : PurePath) : LocalDisk where
  isFile q := q == p
  expandHome q := .ok q
  resolve q := q
  fetch _ := .fileNotFound ""

/-- An ordinary directory. -/
theorem localUri_same_plain :
    SamePath (fun _ => true) (diskWith (ayseUnder (py "/data/ref")))
      (enrollAyse.newVoice { referenceAudioDir := py "/data/ref" } [] 1).referenceUri
      (ayseUnder (py "/data/ref")) := by
  refine (@localUri_same _ _ { referenceAudioDir := py "/data/ref" } enrollAyse
    (by decide) (by decide) (by decide) rfl [] 1).2 ⟨?_, ?_⟩
  · decide
  · decide

/-- Under a directory with a `#` the enrolled file is not found, and purging
still deletes it. -/
theorem hash_dir_differs :
    resolveReferenceUri (fun _ => true) (diskWith (ayseUnder (py "/srv/ref#1")))
        (enrollAyse.newVoice { referenceAudioDir := py "/srv/ref#1" } [] 1).referenceUri =
      .error (.referenceAudioMissing "reference audio not on disk: "
        (some { root := 1, parts := [py "srv", py "ref"] })) ∧
      ¬SamePath (fun _ => true) (diskWith (ayseUnder (py "/srv/ref#1")))
        (enrollAyse.newVoice { referenceAudioDir := py "/srv/ref#1" } [] 1).referenceUri
        (ayseUnder (py "/srv/ref#1")) := by
  have hresolve : resolveReferenceUri (fun _ => true) (diskWith (ayseUnder (py "/srv/ref#1")))
      (enrollAyse.newVoice { referenceAudioDir := py "/srv/ref#1" } [] 1).referenceUri =
      .error (.referenceAudioMissing "reference audio not on disk: "
        (some { root := 1, parts := [py "srv", py "ref"] })) := by rfl
  refine ⟨hresolve, ?_⟩
  intro hsame
  have hresolved := hsame.resolved
  rw [hresolve] at hresolved
  cases hresolved

end NeuroVoice
