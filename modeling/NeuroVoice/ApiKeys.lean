import NeuroVoice.Lib.Regex
import NeuroVoice.Py

/-!
# NeuroVoice.ApiKeys

`server/security/api_keys.py`: how API keys are made and taken apart.

The parser checks a token against a regular expression and then splits it at
its underscores.  The `$` of the expression also matches before a newline at
the end, which the split leaves in the secret: `parseApiKey_format`.
-/

namespace NeuroVoice

/-! ## the format -/

/-- `Environment`. -/
inductive Environment where
  | prod
  | staging
  | dev
  deriving DecidableEq

def Environment.text : Environment → PyStr
  | .prod => py "prod"
  | .staging => py "staging"
  | .dev => py "dev"

/-- `_ALPHABET`: `string.ascii_letters + string.digits`. -/
def base62Alphabet : PyStr :=
  py "abcdefghijklmnopqrstuvwxyzABCDEFGHIJKLMNOPQRSTUVWXYZ0123456789"

/-- `[a-zA-Z0-9]`. -/
def isBase62 (c : Nat) : Bool :=
  (0x61 ≤ c && c ≤ 0x7A) || (0x41 ≤ c && c ≤ 0x5A) || (0x30 ≤ c && c ≤ 0x39)

/-- `PREFIX_LEN`. -/
def prefixLen : Nat := 14

/-- `SECRET_LEN`. -/
def secretLen : Nat := 40

/-- `nv_(prod|staging|dev)_[a-zA-Z0-9]{14}`. -/
def keyPrefixPattern : Regex Nat :=
  .seq (.lit (py "nv_"))
    (.seq (.alt (.lit (py "prod")) (.alt (.lit (py "staging")) (.lit (py "dev"))))
      (.seq (.lit (py "_")) (.times prefixLen (.char isBase62))))

/-- `KEY_FULL_REGEX`, up to its `$`. -/
def keyFullPattern : Regex Nat :=
  .seq keyPrefixPattern (.seq (.lit (py "_")) (.times secretLen (.char isBase62)))

/-- The check `prefix_format` of `api_keys`: PostgreSQL's `$` is the end of the
text. -/
def prefixFormat (s : PyStr) : Bool := (keyPrefixPattern.ends none s).any fun n => n = s.length

/-- A key by its parts. -/
structure KeyParts where
  environment : Environment
  random : PyStr
  secret : PyStr
  length_random : random.length = prefixLen
  base62_random : ∀ c ∈ random, isBase62 c = true
  length_secret : secret.length = secretLen
  base62_secret : ∀ c ∈ secret, isBase62 c = true

namespace KeyParts

/-- `nv_<env>_<14>`. -/
def keyPrefix (k : KeyParts) : PyStr := py "nv_" ++ k.environment.text ++ py "_" ++ k.random

/-- `nv_<env>_<14>_<40>`. -/
def token (k : KeyParts) : PyStr := k.keyPrefix ++ py "_" ++ k.secret

end KeyParts

/-! ## making and parsing keys -/

/-- `_rand_base62(n)`: the next `n` draws of `secrets.choice(_ALPHABET)`. -/
def randBase62 (draw : Nat → Fin base62Alphabet.length) (start n : Nat) : PyStr :=
  (List.range n).map fun i => base62Alphabet.get (draw (start + i))

/-- `hash_secret`, for argon2's `hash`. -/
def hashSecret (hash : PyStr → PyStr) (plain : PyStr) : Except Foreign PyStr :=
  if plain.isEmpty then .error (.valueError "cannot hash an empty secret") else .ok (hash plain)

/-- What `generate_api_key` returns. -/
structure GeneratedApiKey where
  fullKey : PyStr
  keyPrefix : PyStr
  secretHash : PyStr

/-- `generate_api_key`. -/
def generateApiKey (hash : PyStr → PyStr) (environment : PyStr)
    (draw : Nat → Fin base62Alphabet.length) : Except Foreign GeneratedApiKey :=
  if ¬[py "prod", py "staging", py "dev"].contains environment then
    .error (.valueError "environment must be prod|staging|dev")
  else
    let prefixRandom := randBase62 draw 0 prefixLen
    let secret := randBase62 draw prefixLen secretLen
    let fullKey := py "nv_" ++ environment ++ py "_" ++ prefixRandom ++ py "_" ++ secret
    let keyPrefix := py "nv_" ++ environment ++ py "_" ++ prefixRandom
    (hashSecret hash secret).map fun secretHash => { fullKey, keyPrefix, secretHash }

/-- `APIKeyFormatError`. -/
structure ApiKeyFormatError where
  message : String

/-- `ParsedApiKey`. -/
structure ParsedApiKey where
  environment : PyStr
  keyPrefix : PyStr
  secret : PyStr
  deriving DecidableEq

/-- `parse_api_key`. -/
def parseApiKey (token : PyStr) : Except ApiKeyFormatError ParsedApiKey :=
  if token.isEmpty then .error ⟨"empty token"⟩
  else if !keyFullPattern.matchesLine 0x0A token then
    .error ⟨"token does not match nv_<env>_<14>_<40> format"⟩
  else
    match splitOn 0x5F token with
    | [_, env, prefixRandom, secret] =>
        .ok { environment := env, keyPrefix := py "nv_" ++ env ++ py "_" ++ prefixRandom, secret }
    | _ => .error ⟨"token must contain exactly three underscores"⟩

/-! ## what the patterns match -/

section patterns

variable {prev : Option Nat} {m rest : PyStr}

theorem matches_environment :
    (Regex.alt (.lit (py "prod")) (.alt (.lit (py "staging")) (.lit (py "dev")))).Matches
      prev m rest ↔ ∃ env : Environment, m = env.text := by
  simp only [Regex.Matches, Regex.matches_lit]
  constructor
  · intro h
    obtain h | h | h := h
    · exact ⟨.prod, h⟩
    · exact ⟨.staging, h⟩
    · exact ⟨.dev, h⟩
  · intro h
    obtain ⟨env, h⟩ := h
    cases env with
    | prod => exact .inl h
    | staging => exact .inr (.inl h)
    | dev => exact .inr (.inr h)

theorem matches_keyPrefixPattern : keyPrefixPattern.Matches prev m rest ↔
    ∃ (env : Environment) (random : PyStr), m = py "nv_" ++ env.text ++ py "_" ++ random ∧
      random.length = prefixLen ∧ ∀ c ∈ random, isBase62 c = true := by
  unfold keyPrefixPattern
  simp only [Regex.matches_seq, Regex.matches_lit, matches_environment,
    Regex.matches_times_char]
  constructor
  · intro h
    obtain ⟨_, _, rfl, rfl, _, _, rfl, ⟨env, rfl⟩, _, random, rfl, rfl, hlen, hchars⟩ := h
    exact ⟨env, random, by simp, hlen, hchars⟩
  · intro h
    obtain ⟨env, random, rfl, hlen, hchars⟩ := h
    exact ⟨_, _, by simp only [List.append_assoc], rfl, _, _, rfl, ⟨env, rfl⟩, _, random, rfl, rfl,
      hlen, hchars⟩

/-- The pattern of a full key matches the tokens of keys. -/
theorem matches_keyFullPattern : keyFullPattern.Matches prev m rest ↔
    ∃ k : KeyParts, m = k.token := by
  unfold keyFullPattern
  simp only [Regex.matches_seq, Regex.matches_lit, matches_keyPrefixPattern,
    Regex.matches_times_char]
  constructor
  · intro h
    obtain ⟨_, _, rfl, ⟨env, random, rfl, hrandom, hrandom'⟩, _, secret, rfl, rfl, hsecret,
      hsecret'⟩ := h
    exact ⟨⟨env, random, secret, hrandom, hrandom', hsecret, hsecret'⟩,
      by simp [KeyParts.token, KeyParts.keyPrefix]⟩
  · intro h
    obtain ⟨k, rfl⟩ := h
    exact ⟨k.keyPrefix, _, by simp only [KeyParts.token, List.append_assoc],
      ⟨k.environment, k.random, rfl, k.length_random, k.base62_random⟩, _, k.secret, rfl, rfl,
      k.length_secret, k.base62_secret⟩

theorem prefixFormat_keyPrefix (k : KeyParts) : prefixFormat k.keyPrefix = true := by
  have hmatch : keyPrefixPattern.Matches none k.keyPrefix [] :=
    matches_keyPrefixPattern.2 ⟨k.environment, k.random, rfl, k.length_random, k.base62_random⟩
  have hmem : k.keyPrefix.length ∈ keyPrefixPattern.ends none k.keyPrefix :=
    Regex.mem_ends.2 ⟨k.keyPrefix, [], by simp, rfl, hmatch⟩
  exact List.any_eq_true.2 ⟨_, hmem, by simp⟩

end patterns

/-! ## what the parser returns -/

section parse

theorem not_mem_of_base62 {s : PyStr} (h : ∀ c ∈ s, isBase62 c = true) : 0x5F ∉ s := by
  intro hmem
  have hchar := h _ hmem
  revert hchar
  decide

theorem Environment.not_mem_text (env : Environment) : 0x5F ∉ env.text := by
  cases env <;> decide

/-- The parts of a token, with what is behind it in the secret. -/
theorem splitOn_token (k : KeyParts) {tail : PyStr} (h : 0x5F ∉ tail) :
    splitOn 0x5F (k.token ++ tail) =
      [py "nv", k.environment.text, k.random, k.secret ++ tail] := by
  have hsecret : 0x5F ∉ k.secret ++ tail := by
    simp [not_mem_of_base62 k.base62_secret, h]
  have hlit : k.token ++ tail = py "nv" ++ 0x5F :: (k.environment.text ++ 0x5F ::
      (k.random ++ 0x5F :: (k.secret ++ tail))) := by
    simp [KeyParts.token, KeyParts.keyPrefix, py]
  rw [hlit, splitOn_append (by decide), splitOn_append k.environment.not_mem_text,
    splitOn_append (not_mem_of_base62 k.base62_random), splitOn_of_not_mem hsecret]

/-- What the parser makes of a key with `tail` behind it. -/
def KeyParts.parsed (k : KeyParts) (tail : PyStr) : ParsedApiKey where
  environment := k.environment.text
  keyPrefix := k.keyPrefix
  secret := k.secret ++ tail

/-- The parser accepts keys, and keys before a newline. -/
theorem parseApiKey_eq_ok {token : PyStr} {r : ParsedApiKey} : parseApiKey token = .ok r ↔
    ∃ (k : KeyParts) (tail : PyStr), (tail = [] ∨ tail = [0x0A]) ∧ token = k.token ++ tail ∧
      r = k.parsed tail := by
  have haccept : ∀ (k : KeyParts) (tail : PyStr), (tail = [] ∨ tail = [0x0A]) →
      parseApiKey (k.token ++ tail) = .ok (k.parsed tail) := by
    intro k tail htail
    have hline : keyFullPattern.matchesLine 0x0A (k.token ++ tail) = true := by
      refine Regex.matchesLine_iff.2 ?_
      cases htail with
      | inl h => simp [h, matches_keyFullPattern]
      | inr h => exact .inr ⟨k.token, by rw [h], matches_keyFullPattern.2 ⟨k, rfl⟩⟩
    have hempty : (k.token ++ tail).isEmpty = false := by
      simp [KeyParts.token, KeyParts.keyPrefix, py]
    have hfree : 0x5F ∉ tail := by
      cases htail with
      | inl h => simp [h]
      | inr h => simp [h]
    unfold parseApiKey
    rw [hempty, hline, splitOn_token k hfree]
    simp [KeyParts.parsed, KeyParts.keyPrefix]
  constructor
  · intro h
    have hline : keyFullPattern.matchesLine 0x0A token = true := by
      unfold parseApiKey at h
      split at h
      · cases h
      · split at h
        · cases h
        · next hmatch => simpa using hmatch
    obtain ⟨k, tail, htail, heq⟩ : ∃ (k : KeyParts) (tail : PyStr),
        (tail = [] ∨ tail = [0x0A]) ∧ token = k.token ++ tail := by
      cases Regex.matchesLine_iff.1 hline with
      | inl hm =>
          obtain ⟨k, hk⟩ := matches_keyFullPattern.1 hm
          exact ⟨k, [], .inl rfl, by simp [hk]⟩
      | inr hm =>
          obtain ⟨m, heq, hm⟩ := hm
          obtain ⟨k, hk⟩ := matches_keyFullPattern.1 hm
          exact ⟨k, [0x0A], .inr rfl, by rw [heq, hk]⟩
    refine ⟨k, tail, htail, heq, ?_⟩
    rw [heq, haccept k tail htail] at h
    exact (Except.ok.inj h).symm
  · intro h
    obtain ⟨k, tail, htail, heq, hr⟩ := h
    rw [heq, hr]
    exact haccept k tail htail

/-- A key does not end in a newline. -/
theorem KeyParts.token_ne_line (k l : KeyParts) : k.token ≠ l.token ++ [0x0A] := by
  intro heq
  have hlast := congrArg List.getLast? heq
  have hne : k.secret ≠ [] := by
    intro hnil
    have hlen := k.length_secret
    rw [hnil] at hlen
    cases hlen
  rw [KeyParts.token, List.getLast?_append_of_ne_nil _ hne, List.getLast?_concat] at hlast
  have hmem : 0x0A ∈ k.secret := List.mem_of_getLast? hlast
  have hchar := k.base62_secret _ hmem
  revert hchar
  decide

/-- The prefix that the parser returns passes the check of the table. -/
theorem prefixFormat_of_parse {token : PyStr} {r : ParsedApiKey} (h : parseApiKey token = .ok r) :
    prefixFormat r.keyPrefix = true := by
  obtain ⟨k, tail, -, -, hr⟩ := parseApiKey_eq_ok.1 h
  rw [hr]
  exact prefixFormat_keyPrefix k

end parse

/-! ## what the generator makes -/

section generate

variable (draw : Nat → Fin base62Alphabet.length)

theorem length_randBase62 (start n : Nat) : (randBase62 draw start n).length = n := by
  simp [randBase62]

theorem base62_randBase62 (start n : Nat) : ∀ c ∈ randBase62 draw start n, isBase62 c = true := by
  have halphabet : ∀ c ∈ base62Alphabet, isBase62 c = true := by decide
  intro c hc
  obtain ⟨i, -, hi⟩ := List.mem_map.1 hc
  rw [← hi]
  exact halphabet _ (List.get_mem _ _)

/-- The key that is made of the draws. -/
def drawnKey (env : Environment) : KeyParts where
  environment := env
  random := randBase62 draw 0 prefixLen
  secret := randBase62 draw prefixLen secretLen
  length_random := length_randBase62 draw 0 prefixLen
  base62_random := base62_randBase62 draw 0 prefixLen
  length_secret := length_randBase62 draw prefixLen secretLen
  base62_secret := base62_randBase62 draw prefixLen secretLen

theorem generateApiKey_eq (hash : PyStr → PyStr) (env : Environment) :
    generateApiKey hash env.text draw =
      .ok { fullKey := (drawnKey draw env).token, keyPrefix := (drawnKey draw env).keyPrefix
            secretHash := hash (drawnKey draw env).secret } := by
  have henv : [py "prod", py "staging", py "dev"].contains env.text = true := by
    cases env <;> decide
  have hsecret : (randBase62 draw prefixLen secretLen).isEmpty = false := by
    have hlen := length_randBase62 draw prefixLen secretLen
    cases h : randBase62 draw prefixLen secretLen with
    | nil => rw [h] at hlen; cases hlen
    | cons c cs => rfl
  unfold generateApiKey hashSecret
  simp only [henv, hsecret]
  rfl

end generate

/-! ## the law -/

/-- What the format promises of one token: it is accepted exactly if it is a
key, and the parts that are returned make it up. -/
structure FollowsFormat (token : PyStr) : Prop where
  accepted : (∃ r, parseApiKey token = .ok r) ↔ ∃ k : KeyParts, token = k.token
  rebuilt : ∀ r, parseApiKey token = .ok r → r.keyPrefix ++ py "_" ++ r.secret = token ∧
    ∃ random, r.keyPrefix = py "nv_" ++ r.environment ++ py "_" ++ random

/-- **The parser follows the format on every token that is not a key before a
newline**, and takes apart what the generator makes. -/
theorem parseApiKey_format (token : PyStr) (hash : PyStr → PyStr) (env : Environment)
    (draw : Nat → Fin base62Alphabet.length) :
    (FollowsFormat token ↔ ¬∃ k : KeyParts, token = k.token ++ [0x0A]) ∧
      ∃ made secret, generateApiKey hash env.text draw = .ok made ∧
        parseApiKey made.fullKey =
          .ok { environment := env.text, keyPrefix := made.keyPrefix, secret } ∧
        made.secretHash = hash secret ∧ prefixFormat made.keyPrefix = true := by
  constructor
  · constructor
    · intro h hline
      obtain ⟨k, hk⟩ := hline
      have hok : parseApiKey token = .ok (k.parsed [0x0A]) :=
        parseApiKey_eq_ok.2 ⟨k, [0x0A], .inr rfl, hk, rfl⟩
      obtain ⟨l, hl⟩ := h.accepted.1 ⟨_, hok⟩
      exact l.token_ne_line k (hl.symm.trans hk)
    · intro hline
      refine ⟨⟨?_, ?_⟩, ?_⟩
      · intro h
        obtain ⟨r, hr⟩ := h
        obtain ⟨k, tail, htail, heq, -⟩ := parseApiKey_eq_ok.1 hr
        cases htail with
        | inl hnil => exact ⟨k, by rw [heq, hnil, List.append_nil]⟩
        | inr hnl => exact absurd ⟨k, by rw [heq, hnl]⟩ hline
      · intro h
        obtain ⟨k, hk⟩ := h
        exact ⟨k.parsed [], parseApiKey_eq_ok.2 ⟨k, [], .inl rfl, by simp [hk], rfl⟩⟩
      · intro r hr
        obtain ⟨k, tail, -, heq, hparsed⟩ := parseApiKey_eq_ok.1 hr
        subst hparsed
        exact ⟨by simp [heq, KeyParts.parsed, KeyParts.token], k.random, rfl⟩
  · refine ⟨_, (drawnKey draw env).secret, generateApiKey_eq draw hash env, ?_, rfl,
      prefixFormat_keyPrefix _⟩
    exact parseApiKey_eq_ok.2 ⟨drawnKey draw env, [], .inl rfl, by simp, by
      simp [KeyParts.parsed, drawnKey]⟩

/-- A key of zeros. -/
def demoKey : KeyParts where
  environment := .dev
  random := List.replicate prefixLen 0x30
  secret := List.replicate secretLen 0x30
  length_random := rfl
  base62_random := by decide
  length_secret := rfl
  base62_secret := by decide

/-- The parser accepts a key with a newline behind it. -/
theorem parse_accepts_newline :
    parseApiKey (demoKey.token ++ [0x0A]) = .ok (demoKey.parsed [0x0A]) ∧
      ¬FollowsFormat (demoKey.token ++ [0x0A]) := by
  have hok : parseApiKey (demoKey.token ++ [0x0A]) = .ok (demoKey.parsed [0x0A]) :=
    parseApiKey_eq_ok.2 ⟨demoKey, [0x0A], .inr rfl, rfl, rfl⟩
  refine ⟨hok, ?_⟩
  intro h
  obtain ⟨k, hk⟩ := h.accepted.1 ⟨_, hok⟩
  exact k.token_ne_line demoKey hk.symm

end NeuroVoice
