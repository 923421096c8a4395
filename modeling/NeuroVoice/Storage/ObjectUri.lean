import Mathlib.Data.List.TakeWhile
import NeuroVoice.Catalog.Enroll
import NeuroVoice.Wire

/-!
# NeuroVoice.Storage.ObjectUri

`storage/r2.py`: objects and their `s3://` URIs.

An upload returns bucket and key, and whoever keeps them keeps the URI.  The URI
is put together without escaping and taken apart by a general URL parser, so it
leads back to the object exactly if bucket and key have none of the characters
that mean something to that parser: `uri_roundTrip`.
-/

namespace NeuroVoice

/-! ## the parser -/

section urlparse

variable {netlocOk : PyStr → Bool} {url : PyStr}

/-- The characters `urlparse` removes wherever they are. -/
def isRemoved (c : Nat) : Bool := c == 9 || c == 10 || c == 13

/-- The characters that end a URL's path. -/
def endsPath (c : Nat) : Bool := c == 0x3F || c == 0x23

theorem span_snd_subset (p : Nat → Bool) (s : PyStr) : ∀ c ∈ (s.span p).2, c ∈ s := by
  intro c hc
  rw [List.span_eq_takeWhile_dropWhile] at hc
  exact (List.dropWhile_suffix p).subset hc

theorem splitScheme_subset (s : PyStr) : ∀ c ∈ (splitScheme s).2, c ∈ s := by
  intro c hc
  unfold splitScheme at hc
  split at hc
  · next a cs d rest hspan =>
      split at hc
      · have hmem : c ∈ (s.span fun c => c != 0x3A).2 := by
          rw [hspan]
          exact List.mem_cons_of_mem _ hc
        exact span_snd_subset _ s c hmem
      · exact hc
  · exact hc

theorem splitNetloc_subset (s : PyStr) : ∀ c ∈ (splitNetloc s).2, c ∈ s := by
  intro c hc
  unfold splitNetloc at hc
  split at hc
  · exact List.mem_of_mem_drop (span_snd_subset _ _ c hc)
  · exact hc

theorem mem_splitNetloc {s : PyStr} : ∀ c ∈ (splitNetloc s).1,
    c ∈ s ∧ c ≠ 0x2F ∧ endsPath c = false := by
  intro c hc
  unfold splitNetloc at hc
  split at hc
  · rw [List.span_eq_takeWhile_dropWhile] at hc
    have hmem := (List.takeWhile_prefix _).subset hc
    have hchar := List.all_eq_true.1 List.all_takeWhile c hc
    simp only [Bool.and_eq_true, bne_iff_ne, ne_eq] at hchar
    exact ⟨List.mem_of_mem_drop hmem, hchar.1.1, by simp [endsPath, hchar.1.2, hchar.2]⟩
  · cases hc

/-- What the parser returns has none of the characters it removes or splits
at. -/
theorem urlparse_eq_ok {p : SplitResult} (h : urlparse netlocOk url = .ok p) :
    (∀ c ∈ p.netloc, c ≠ 0x2F ∧ endsPath c = false ∧ isRemoved c = false) ∧
      p.netloc.contains 0x5B = p.netloc.contains 0x5D ∧ netlocOk p.netloc = true ∧
      ∀ c ∈ p.path, endsPath c = false ∧ isRemoved c = false := by
  unfold urlparse at h
  simp only at h
  split at h
  · cases h
  · next hbrackets =>
      split at h
      · next hok =>
          cases h
          have hkept : ∀ {c : Nat}, c ∈ ((url.dropWhile fun c => decide (c ≤ 0x20)).filter fun c =>
              c != 9 && c != 10 && c != 13) → isRemoved c = false := by
            intro c hc
            have hchar := (List.mem_filter.1 hc).2
            simp only [Bool.and_eq_true, bne_iff_ne, ne_eq] at hchar
            simp [isRemoved, hchar.1.1, hchar.1.2, hchar.2]
          refine ⟨?_, by simpa using hbrackets, hok, ?_⟩
          · intro c hc
            obtain ⟨hmem, hslash, hends⟩ := mem_splitNetloc c hc
            exact ⟨hslash, hends, hkept (splitScheme_subset _ c hmem)⟩
          · intro c hc
            have hmem := (List.takeWhile_prefix _).subset hc
            have hchar := List.all_eq_true.1 List.all_takeWhile c hc
            simp only [Bool.and_eq_true, bne_iff_ne, ne_eq] at hchar
            exact ⟨by simp [endsPath, hchar.1, hchar.2],
              hkept (splitScheme_subset _ c (splitNetloc_subset _ c hmem))⟩
      · cases h

/-- The parser on a URL of one of the schemes used here. -/
theorem urlparse_scheme {scheme rest : PyStr} (netlocOk : PyStr → Bool)
    (hscheme : scheme = py "s3" ∨ scheme = py "file") :
    urlparse netlocOk (scheme ++ py "://" ++ rest) =
      let kept := rest.filter fun c => !isRemoved c
      let netloc := kept.takeWhile fun c => c != 0x2F && !endsPath c
      let behind := kept.dropWhile fun c => c != 0x2F && !endsPath c
      if netloc.contains 0x5B != netloc.contains 0x5D then
        .error (.valueError "Invalid IPv6 URL")
      else if netlocOk netloc then
        .ok { scheme, netloc, path := behind.takeWhile fun c => !endsPath c }
      else .error (.valueError "netloc contains invalid characters") := by
  have hfilter : (fun c : Nat => c != 9 && c != 10 && c != 13) = fun c => !isRemoved c := by
    funext c
    simp [isRemoved, bne, Bool.and_assoc]
  have hspan : (fun c : Nat => c != 0x2F && c != 0x3F && c != 0x23) =
      fun c => c != 0x2F && !endsPath c := by
    funext c
    simp [endsPath, bne, Bool.and_assoc]
  have hpath : (fun c : Nat => c != 0x3F && c != 0x23) = fun c => !endsPath c := by
    funext c
    simp [endsPath, bne]
  have hsplit : ∀ kept : PyStr, splitScheme (scheme ++ py "://" ++ kept) =
      (scheme, py "//" ++ kept) := by
    intro kept
    cases hscheme with
    | inl h =>
        subst h
        simp [splitScheme, List.span_eq_takeWhile_dropWhile, py, isAsciiAlpha, isSchemeChar,
          lowerAscii]
    | inr h =>
        subst h
        simp [splitScheme, List.span_eq_takeWhile_dropWhile, py, isAsciiAlpha, isSchemeChar,
          lowerAscii]
  have hkeep : (((scheme ++ py "://" ++ rest).dropWhile fun c => decide (c ≤ 0x20)).filter
      fun c => !isRemoved c) = scheme ++ py "://" ++ rest.filter fun c => !isRemoved c := by
    cases hscheme with
    | inl h => subst h; simp [py, isRemoved, List.filter]
    | inr h => subst h; simp [py, isRemoved, List.filter]
  unfold urlparse
  simp only [hfilter, hkeep, hsplit, hpath]
  have hnetloc : ∀ kept : PyStr, splitNetloc (py "//" ++ kept) =
      (kept.takeWhile fun c => c != 0x2F && !endsPath c,
        kept.dropWhile fun c => c != 0x2F && !endsPath c) := by
    intro kept
    unfold splitNetloc
    rw [if_pos (by simp [startsWith, py]), hspan, ← List.span_eq_takeWhile_dropWhile]
    rfl
  simp only [hnetloc]

end urlparse

/-! ## the operations -/

/-- `S3URI.uri`. -/
def S3URI.uri (o : S3URI) : PyStr := py "s3" ++ py "://" ++ (o.bucket ++ 0x2F :: o.key)

/-- `R2Storage`, with the part of its client that does not depend on what is
stored: the names it stores objects under, and `generate_presigned_url`. -/
structure R2Storage where
  defaultBucket : PyStr
  cacheDir : PurePath
  stores : S3URI → Bool
  presign : S3URI → Int → PyStr

/-- Seven days. -/
def maxPresignTtl : Int := 7 * 24 * 3600

namespace R2Storage

variable (r : R2Storage) (netlocOk : PyStr → Bool)

/-- `bucket or self.default_bucket`. -/
def targetBucket : Option PyStr → PyStr
  | some bucket => if bucket.isEmpty then r.defaultBucket else bucket
  | none => r.defaultBucket

/-- The client stores an object. -/
def put (o : S3URI) (data : Bytes) (s : Storage) : Except Foreign S3URI × Storage :=
  if r.stores o then (.ok o, s.write (.object o) data) else (.error (.other "ClientError"), s)

/-- `upload_file`. -/
def uploadFile (path : PurePath) (key : PyStr) (bucket : Option PyStr) (s : Storage) :
    Except Foreign S3URI × Storage :=
  match s.content (.file path) with
  | none => (.error (.fileNotFound "local_path"), s)
  | some data => r.put { bucket := r.targetBucket bucket, key } data s

/-- `upload_bytes`. -/
def uploadBytes (data : Bytes) (key : PyStr) (bucket : Option PyStr) (s : Storage) :
    Except Foreign S3URI × Storage :=
  r.put { bucket := r.targetBucket bucket, key } data s

/-- `exists`. -/
def existsObject (uri : PyStr) (s : Storage) : Except Foreign Bool := do
  let parsed ← S3URI.parse netlocOk uri
  return s.has (.object parsed)

/-- The cached file of a URI. -/
def cachePath (uri : PyStr) (parsed : S3URI) : Except Foreign PurePath := do
  let digest := (sha256 (← utf8Encode uri)).take 32
  let suffix := suffixOf parsed.key
  return r.cacheDir.child (digest ++ if suffix.isEmpty then py ".bin" else suffix)

/-- `download_to_cache`, for one caller and without the eviction behind it. -/
def downloadToCache (uri : PyStr) (s : Storage) : Except Foreign PurePath × Storage :=
  match S3URI.parse netlocOk uri with
  | .error e => (.error e, s)
  | .ok parsed =>
      match r.cachePath uri parsed with
      | .error e => (.error e, s)
      | .ok path =>
          if (s.content (.file path)).any fun data => !data.isEmpty then (.ok path, s)
          else
            match s.content (.object parsed) with
            | none => (.error (.other "ClientError"), s)
            | some data => (.ok path, s.write (.file path) data)

/-- `presigned_get_url`. -/
def presignedGetUrl (uri : PyStr) (expiresIn : Int) : Except Foreign PyStr := do
  if expiresIn ≤ 0 ∨ maxPresignTtl < expiresIn then
    throw (.valueError "expires_in must be in (0, 7 days]")
  let parsed ← S3URI.parse netlocOk uri
  return r.presign parsed expiresIn

/-- `delete`. -/
def delete (uri : PyStr) (s : Storage) : Except Foreign Unit × Storage :=
  match S3URI.parse netlocOk uri with
  | .error e => (.error e, s)
  | .ok parsed => (.ok (), s.remove (.object parsed))

/-- An upload under `key` stores and returns `o`. -/
def Returns (key : PyStr) (bucket : Option PyStr) (o : S3URI) : Prop :=
  (∃ path s, (r.uploadFile path key bucket s).1 = .ok o) ∨
    ∃ data s, (r.uploadBytes data key bucket s).1 = .ok o

/-- The operations on `uri` are about the object `o`. -/
structure Addresses (uri : PyStr) (o : S3URI) : Prop where
  found : ∀ s, existsObject netlocOk uri s = .ok (s.has (.object o))
  downloaded : ∃ path, ∀ s data, s.content (.object o) = some data →
    s.content (.file path) = none →
      r.downloadToCache netlocOk uri s = (.ok path, s.write (.file path) data)
  presigned : ∀ ttl, 0 < ttl → ttl ≤ maxPresignTtl →
    r.presignedGetUrl netlocOk uri ttl = .ok (r.presign o ttl)
  deleted : ∀ s, delete netlocOk uri s = (.ok (), s.remove (.object o))

end R2Storage

/-! ## the round trip -/

/-- Neither part of the name has characters that a URL parser or UTF-8 treats
in its own way, and the bucket passes for a host. -/
structure UriSafe (netlocOk : PyStr → Bool) (o : S3URI) : Prop where
  bucket_ne : o.bucket ≠ []
  bucket_chars : ∀ c ∈ o.bucket, c ≠ 0x2F ∧ endsPath c = false ∧ isRemoved c = false
  bucket_brackets : o.bucket.contains 0x5B = o.bucket.contains 0x5D
  bucket_host : netlocOk o.bucket = true
  key_head : o.key.head? ≠ some 0x2F
  key_chars : ∀ c ∈ o.key, endsPath c = false ∧ isRemoved c = false
  unicode : isUnicode o.bucket = true ∧ isUnicode o.key = true

section roundTrip

variable {r : R2Storage} {netlocOk : PyStr → Bool} {o : S3URI}

/-- What `S3URI.parse` returns. -/
theorem S3URI.parse_eq_ok {uri : PyStr} (h : S3URI.parse netlocOk uri = .ok o) :
    o.bucket ≠ [] ∧ o.key ≠ [] ∧ o.key.head? ≠ some 0x2F ∧
      ∃ p, urlparse netlocOk uri = .ok p ∧ o.bucket = p.netloc ∧ ∀ c ∈ o.key, c ∈ p.path := by
  unfold S3URI.parse at h
  simp only [bind, Except.bind, pure, Except.pure, throw, throwThe, MonadExceptOf.throw] at h
  split at h
  · cases h
  · cases hparsed : urlparse netlocOk uri with
    | error e => rw [hparsed] at h; cases h
    | ok p =>
        rw [hparsed] at h
        simp only at h
        split at h
        · cases h
        · split at h
          · cases h
          · next hnetloc =>
              split at h
              · cases h
              · next hkey =>
                  cases h
                  have hhead := List.head?_dropWhile_not (fun c => c == 0x2F) p.path
                  refine ⟨by simpa using hnetloc, by simpa using hkey, ?_, p, rfl, rfl, ?_⟩
                  · intro hslash
                    simp only at hslash
                    rw [hslash] at hhead
                    simp at hhead
                  · intro c hc
                    exact (List.dropWhile_suffix _).subset hc

/-- **The parser undoes the builder for safe names.** -/
theorem S3URI.parse_uri (hkey : o.key ≠ []) (h : UriSafe netlocOk o) :
    S3URI.parse netlocOk o.uri = .ok o := by
  have hbucket : ∀ c ∈ o.bucket, (c != 0x2F && !endsPath c) = true := by
    intro c hc
    obtain ⟨hslash, hends, -⟩ := h.bucket_chars c hc
    simp [hslash, hends]
  have hkept : (o.bucket ++ 0x2F :: o.key).filter (fun c => !isRemoved c) =
      o.bucket ++ 0x2F :: o.key := by
    refine List.filter_eq_self.2 ?_
    intro c hc
    simp only [List.mem_append, List.mem_cons] at hc
    obtain hc | hc | hc := hc
    · simp [(h.bucket_chars c hc).2.2]
    · subst hc; decide
    · simp [(h.key_chars c hc).2]
  have hpath : (0x2F :: o.key).takeWhile (fun c => !endsPath c) = 0x2F :: o.key := by
    refine List.takeWhile_eq_self_iff.2 ?_
    intro c hc
    simp only [List.mem_cons] at hc
    obtain hc | hc := hc
    · subst hc; decide
    · simp [(h.key_chars c hc).1]
  have htake : (o.bucket ++ 0x2F :: o.key).takeWhile (fun c => c != 0x2F && !endsPath c) =
      o.bucket := by
    rw [List.takeWhile_append_of_pos hbucket]
    simp
  have hdrop : (o.bucket ++ 0x2F :: o.key).dropWhile (fun c => c != 0x2F && !endsPath c) =
      0x2F :: o.key := by
    rw [List.dropWhile_append_of_pos hbucket]
    simp
  have hurl : urlparse netlocOk o.uri =
      .ok { scheme := py "s3", netloc := o.bucket, path := 0x2F :: o.key } := by
    rw [S3URI.uri, urlparse_scheme netlocOk (.inl rfl)]
    simp only [hkept, htake, hdrop, hpath, h.bucket_brackets, h.bucket_host]
    simp
  have hstrip : (0x2F :: o.key).dropWhile (fun c => c == 0x2F) = o.key := by
    rw [List.dropWhile_cons_of_pos (by decide)]
    cases hk : o.key with
    | nil => rfl
    | cons c cs =>
        have hhead := h.key_head
        rw [hk] at hhead
        exact List.dropWhile_cons_of_neg (by simpa using hhead)
  have hne : o.uri.isEmpty = false := by simp [S3URI.uri, py]
  have hscheme : [py "s3", py "r2"].contains (py "s3") = true := by decide
  unfold S3URI.parse
  simp only [hne, hurl, hscheme, hstrip, bind, Except.bind, pure, Except.pure]
  simp [h.bucket_ne, hkey]

/-- The operations on a URI that leads back to its object. -/
theorem R2Storage.addresses_of_parse {uri : PyStr} (h : S3URI.parse netlocOk uri = .ok o)
    (hunicode : isUnicode uri = true) : r.Addresses netlocOk uri o := by
  have hpath : ∃ path, r.cachePath uri o = .ok path := by
    simp [cachePath, utf8Encode, hunicode, bind, Except.bind, pure, Except.pure]
  obtain ⟨path, hpath⟩ := hpath
  refine ⟨?_, ⟨path, ?_⟩, ?_, ?_⟩
  · intro s
    simp [existsObject, h, bind, Except.bind, pure, Except.pure]
  · intro s data hdata hcold
    simp [downloadToCache, h, hpath, hdata, hcold]
  · intro ttl hpos hmax
    have hin : ¬(ttl ≤ 0 ∨ maxPresignTtl < ttl) := by omega
    simp [presignedGetUrl, h, hin, bind, Except.bind, pure, Except.pure]
  · intro s
    simp [delete, h]

/-- A URI that can be downloaded can be hashed. -/
theorem R2Storage.Addresses.unicode {uri : PyStr} (h : r.Addresses netlocOk uri o)
    (hparse : S3URI.parse netlocOk uri = .ok o) : isUnicode uri = true := by
  obtain ⟨path, hdownload⟩ := h.downloaded
  let s : Storage := { content := fun a => if a = .object o then some [] else none }
  have hrun := hdownload s [] (by simp [s]) (by simp [s])
  cases hunicode : isUnicode uri with
  | true => rfl
  | false =>
      simp [downloadToCache, hparse, cachePath, utf8Encode, hunicode, bind, Except.bind] at hrun

theorem isUnicode_uri : isUnicode o.uri = true ↔
    isUnicode o.bucket = true ∧ isUnicode o.key = true := by
  have happend : ∀ s t : PyStr, isUnicode (s ++ t) = (isUnicode s && isUnicode t) :=
    fun s t => List.all_append
  have hlit : isUnicode (py "s3" ++ py "://") = true := by decide
  have hslash : isUnicode (0x2F :: o.key) = isUnicode o.key := by simp [isUnicode]
  rw [S3URI.uri, happend (py "s3" ++ py "://"), hlit, happend o.bucket, hslash, Bool.true_and,
    Bool.and_eq_true]

theorem R2Storage.Returns.eq {key : PyStr} {bucket : Option PyStr} (h : r.Returns key bucket o) :
    o = { bucket := r.targetBucket bucket, key } := by
  have hput : ∀ {q : S3URI} {data : Bytes} {s : Storage}, (r.put q data s).1 = .ok o → o = q := by
    intro q data s h
    unfold put at h
    split at h
    · exact (Except.ok.inj h).symm
    · cases h
  cases h with
  | inl h =>
      obtain ⟨path, s, h⟩ := h
      unfold uploadFile at h
      split at h
      · cases h
      · exact hput h
  | inr h =>
      obtain ⟨data, s, h⟩ := h
      exact hput h

/-- **The URI of an upload leads back to the object exactly if its name is
safe.** -/
theorem uri_roundTrip {key : PyStr} {bucket : Option PyStr} (hkey : key ≠ [])
    (h : r.Returns key bucket o) :
    (S3URI.parse netlocOk o.uri = .ok { bucket := r.targetBucket bucket, key } ∧
        r.Addresses netlocOk o.uri { bucket := r.targetBucket bucket, key }) ↔
      UriSafe netlocOk { bucket := r.targetBucket bucket, key } := by
  have ho := h.eq
  rw [← ho]
  have hkey : o.key ≠ [] := by rw [ho]; exact hkey
  constructor
  · intro hboth
    obtain ⟨hparse, haddresses⟩ := hboth
    obtain ⟨hne, -, hhead, p, hurl, hbucket, hpath⟩ := S3URI.parse_eq_ok hparse
    obtain ⟨hchars, hbrackets, hhost, hpathChars⟩ := urlparse_eq_ok hurl
    rw [← hbucket] at hchars hbrackets hhost
    exact ⟨hne, hchars, hbrackets, hhost, hhead, fun c hc => hpathChars c (hpath c hc),
      isUnicode_uri.1 (haddresses.unicode hparse)⟩
  · intro hsafe
    have hparse := S3URI.parse_uri hkey hsafe
    exact ⟨hparse, R2Storage.addresses_of_parse hparse (isUnicode_uri.2 hsafe.unicode)⟩

end roundTrip

/-- A storage whose client takes every name. -/
def plainR2 : R2Storage where
  defaultBucket := py "voice"
  cacheDir := { root := 1, parts := [py "cache"] }
  stores _ := true
  presign o _ := o.uri

/-- An ordinary key. -/
theorem uri_roundTrip_plain :
    S3URI.parse (fun _ => true) { bucket := py "voice", key := py "jobs/1.wav" : S3URI }.uri =
        .ok { bucket := py "voice", key := py "jobs/1.wav" } ∧
      plainR2.Addresses (fun _ => true) { bucket := py "voice", key := py "jobs/1.wav" : S3URI }.uri
        { bucket := py "voice", key := py "jobs/1.wav" } := by
  have hreturns : plainR2.Returns (py "jobs/1.wav") none
      { bucket := py "voice", key := py "jobs/1.wav" } :=
    .inr ⟨[], { content := fun _ => none }, rfl⟩
  refine (uri_roundTrip (by decide) hreturns).2 ⟨?_, ?_, ?_, rfl, ?_, ?_, ?_⟩ <;> decide

/-- An upload under `take#2` returns a URI that is the one of `take`: deleting it
deletes another object. -/
theorem hash_key_misses :
    (plainR2.uploadBytes [1] (py "take#2") none { content := fun _ => none }).1 =
        .ok { bucket := py "voice", key := py "take#2" } ∧
      S3URI.parse (fun _ => true) { bucket := py "voice", key := py "take#2" : S3URI }.uri =
        .ok { bucket := py "voice", key := py "take" } ∧
      ∀ s : Storage, R2Storage.delete (fun _ => true)
          { bucket := py "voice", key := py "take#2" : S3URI }.uri s =
        (.ok (), s.remove (.object { bucket := py "voice", key := py "take" })) := by
  have hparse : S3URI.parse (fun _ => true)
      { bucket := py "voice", key := py "take#2" : S3URI }.uri =
      .ok { bucket := py "voice", key := py "take" } := by rfl
  refine ⟨rfl, hparse, ?_⟩
  intro s
  rw [R2Storage.delete, hparse]

end NeuroVoice
