import NeuroVoice.Queue
import NeuroVoice.Uuid
import NeuroVoice.Lib.Base64
import Mathlib.Tactic.GCongr

/-!
# NeuroVoice.Wire

The field maps of `server/queue.py` as Redis has them.

`NeuroVoice.Queue` takes a stream entry as its decoded values; here it is the
map of texts or bytes that `encode` writes and `decode` reads, with UTF-8,
Base64 and decimal numbers spelled out.  The JSON codec is a parameter.  Both
`str` and `int` refuse integers of more than 4300 digits, so a result with such
a `seq` has no field map (`seq_too_long`); any other one comes back:
`wire_round_trip`.
-/

namespace NeuroVoice

/-! ## texts and numbers -/

/-- A text of Unicode characters: no surrogates. -/
def isUnicode (s : PyStr) : Bool := s.all fun c => decide c.isValidChar

/-- The UTF-8 bytes of a text of Unicode characters. -/
def utf8Bytes (s : PyStr) : List UInt8 := (String.ofList (s.map Char.ofNat)).toUTF8.data.toList

/-- `s.encode("utf-8")`. -/
def utf8Encode (s : PyStr) : Except Foreign (List UInt8) :=
  if isUnicode s then .ok (utf8Bytes s) else .error .unicodeError

/-- `b.decode("utf-8")`. -/
def utf8Decode (b : List UInt8) : Except Foreign PyStr :=
  match String.fromUTF8? ⟨b.toArray⟩ with
  | some t => .ok (t.toList.map Char.toNat)
  | none => .error .unicodeError

/-- `s <= t`, by code points. -/
def strLe : PyStr → PyStr → Bool
  | [], _ => true
  | _ :: _, [] => false
  | c :: cs, d :: ds => c < d || (c == d && strLe cs ds)

/-- The decimal digits of a number. -/
def decimalDigits (n : Nat) : PyStr :=
  if n < 10 then [0x30 + n] else decimalDigits (n / 10) ++ [0x30 + n % 10]

/-- An integer as it is written. -/
def intText : Int → PyStr
  | .ofNat n => decimalDigits n
  | .negSucc n => 0x2D :: decimalDigits (n + 1)

/-- `str(n)`: the interpreter limits the digits. -/
def intStr (n : Int) : Except Foreign PyStr :=
  if Json.maxStrDigits < (decimalDigits n.natAbs).length then
    .error (.valueError "Exceeds the limit (4300 digits) for integer string conversion")
  else .ok (intText n)

/-- What is encoded decodes to itself. -/
theorem utf8Decode_utf8Bytes {s : PyStr} (h : isUnicode s = true) :
    utf8Decode (utf8Bytes s) = .ok s := by
  have hread : String.fromUTF8? (String.ofList (s.map Char.ofNat)).toUTF8 =
      some (String.ofList (s.map Char.ofNat)) := by
    unfold String.fromUTF8?
    rw [String.toUTF8_eq_toByteArray, dif_pos (String.isValidUTF8 _)]
    rfl
  have hchars : (s.map Char.ofNat).map Char.toNat = s := by
    rw [List.map_map, List.map_congr_left (g := id), List.map_id]
    intro c hc
    have hvalid : c.isValidChar := of_decide_eq_true (List.all_eq_true.1 h c hc)
    rw [Function.comp_apply, Char.ofNat, dif_pos hvalid]
    rfl
  unfold utf8Decode utf8Bytes
  rw [Array.toArray_toList, hread]
  simp only [String.toList_ofList, hchars]

/-- Unicode text is told by its bytes. -/
theorem utf8Bytes_inj {s t : PyStr} (hs : isUnicode s = true) (ht : isUnicode t = true)
    (h : utf8Bytes s = utf8Bytes t) : s = t := by
  have hdecode := utf8Decode_utf8Bytes hs
  rw [h, utf8Decode_utf8Bytes ht] at hdecode
  exact (Except.ok.inj hdecode).symm

/-- An ASCII digit is the digit it shows. -/
theorem decimalDigit_digit {d : Nat} (h : d < 10) : decimalDigit (0x30 + d) = some d := by
  revert d
  decide

/-- Reading back what was written. -/
theorem digitsVal_decimalDigits (n : Nat) (rest : PyStr) (ok : Bool) :
    digitsVal 10 decimalDigit (decimalDigits n ++ rest) 0 ok =
      digitsVal 10 decimalDigit rest n true := by
  induction n using decimalDigits.induct generalizing rest ok with
  | case1 n hn =>
      rw [decimalDigits, if_pos hn, List.singleton_append, digitsVal, if_neg (by omega),
        decimalDigit_digit hn]
      simp
  | case2 n hn ih =>
      have hdigit := Nat.mod_lt n (show 0 < 10 by decide)
      rw [decimalDigits, if_neg hn, List.append_assoc, ih, List.singleton_append, digitsVal,
        if_neg (by omega), decimalDigit_digit hdigit]
      simp only
      rw [Nat.div_add_mod' n 10]

/-- Decimal digits are ASCII digits. -/
theorem mem_decimalDigits {n c : Nat} (h : c ∈ decimalDigits n) : 0x30 ≤ c ∧ c ≤ 0x39 := by
  induction n using decimalDigits.induct with
  | case1 n hn =>
      rw [decimalDigits, if_pos hn, List.mem_singleton] at h
      omega
  | case2 n hn ih =>
      rw [decimalDigits, if_neg hn, List.mem_append, List.mem_singleton] at h
      obtain h | h := h
      · exact ih h
      · omega

/-- Digits are not white space. -/
theorem isSpace_eq_false {c : Nat} (h : 0x30 ≤ c ∧ c ≤ 0x39 ∨ c = 0x2D) : isSpace c = false := by
  simp only [isSpace, Bool.or_eq_false_iff, Bool.and_eq_false_iff, decide_eq_false_iff_not,
    beq_eq_false_iff_ne]
  omega

/-- A number starts with a digit. -/
theorem splitSign_decimalDigits (n : Nat) :
    splitSign (decimalDigits n) = (1, decimalDigits n) := by
  cases hds : decimalDigits n with
  | nil => rfl
  | cons c cs =>
      have hc := mem_decimalDigits (hds ▸ List.mem_cons_self : c ∈ decimalDigits n)
      unfold splitSign
      split
      · next heq => cases heq; omega
      · next heq => cases heq; omega
      · rfl

/-- How many digits there are. -/
theorem length_decimalDigits_le {n k : Nat} (hk : 0 < k) :
    (decimalDigits n).length ≤ k ↔ n < 10 ^ k := by
  induction n using decimalDigits.induct generalizing k with
  | case1 n hn =>
      have hten : 10 ^ 1 ≤ 10 ^ k := Nat.pow_le_pow_right (by decide) hk
      rw [decimalDigits, if_pos hn, List.length_singleton]
      exact iff_of_true hk (by omega)
  | case2 n hn ih =>
      rw [decimalDigits, if_neg hn, List.length_append, List.length_singleton]
      obtain ⟨k, rfl⟩ := Nat.exists_eq_succ_of_ne_zero hk.ne'
      obtain rfl | hk := k.eq_zero_or_pos
      · have hpos : 0 < (decimalDigits (n / 10)).length := by
          rw [decimalDigits]
          split <;> simp
        refine iff_of_false ?_ ?_ <;> omega
      · rw [Nat.succ_eq_add_one, Nat.add_le_add_iff_right, ih hk, Nat.pow_succ]
        exact Nat.div_lt_iff_lt_mul (by decide)

/-- What `str` writes, and when. -/
theorem intStr_eq_ok {n : Int} {s : PyStr} :
    intStr n = .ok s ↔ n.natAbs < 10 ^ Json.maxStrDigits ∧ intText n = s := by
  rw [← length_decimalDigits_le (by decide), intStr]
  split
  · next hlong => simp [Nat.not_le.2 hlong]
  · next hshort => simp [Nat.not_lt.1 hshort]

/-- An integer is read back from its text. -/
theorem intOfStr_intText (n : Int) : intOfStr (intText n) = some n := by
  have hdigits : ∀ m, digitsVal 10 decimalDigit (decimalDigits m) 0 false = some m := by
    intro m
    have hread := digitsVal_decimalDigits m [] false
    rwa [List.append_nil] at hread
  cases n with
  | ofNat m =>
      have hstrip : stripBy isSpace (decimalDigits m) = decimalDigits m :=
        stripBy_of_all fun c hc => isSpace_eq_false (.inl (mem_decimalDigits hc))
      rw [intText, intOfStr, hstrip, splitSign_decimalDigits]
      simp [hdigits]
  | negSucc m =>
      have hstrip : stripBy isSpace (0x2D :: decimalDigits (m + 1)) =
          0x2D :: decimalDigits (m + 1) := by
        refine stripBy_of_all fun c hc => isSpace_eq_false ?_
        obtain rfl | hc := List.mem_cons.1 hc
        · exact .inr rfl
        · exact .inl (mem_decimalDigits hc)
      rw [intText, intOfStr, hstrip]
      simp [splitSign, hdigits, Int.negSucc_eq]

/-- The digits in the text are the digits of the number. -/
theorem countP_intText (n : Int) :
    (intText n).countP (fun c => (decimalDigit c).isSome) = (decimalDigits n.natAbs).length := by
  have hall : ∀ m, (decimalDigits m).countP (fun c => (decimalDigit c).isSome) =
      (decimalDigits m).length := by
    intro m
    rw [List.countP_eq_length]
    intro c hc
    obtain ⟨hlow, hhigh⟩ := mem_decimalDigits hc
    obtain ⟨d, rfl⟩ := Nat.exists_eq_add_of_le hlow
    rw [decimalDigit_digit (by omega)]
    rfl
  cases n with
  | ofNat m => exact hall m
  | negSucc m =>
      have hsign : (decimalDigit 0x2D).isSome = false := by decide
      rw [intText, List.countP_cons, hsign, hall]
      rfl

/-- `int(str(n)) == n`. -/
theorem toInt_intText {n : Int} (h : n.natAbs < 10 ^ Json.maxStrDigits) :
    (Json.str (intText n)).toInt = .ok n := by
  have hshort := (length_decimalDigits_le (k := Json.maxStrDigits) (by decide)).2 h
  rw [Json.toInt, countP_intText, if_neg (Nat.not_lt.2 hshort), intOfStr_intText]

/-! ## field maps -/

/-- A key or value of a stream entry. -/
inductive RedisValue where
  | str (s : PyStr)
  | bytes (b : List UInt8)
  deriving DecidableEq

/-- `_s`. -/
def RedisValue.text : RedisValue → Except Foreign PyStr
  | .str s => .ok s
  | .bytes b => utf8Decode b

/-- The fields of a stream entry. -/
abbrev FieldMap := List (RedisValue × RedisValue)

/-- A `dict[str, str]`. -/
abbrev StrMap := List (PyStr × PyStr)

/-- `fields[k]`, where there is one. -/
def FieldMap.get (fields : FieldMap) (k : RedisValue) : Option RedisValue :=
  (fields.find? fun kv => kv.1 = k).map Prod.snd

/-- `m[k]`, where there is one. -/
def StrMap.get (m : StrMap) (k : PyStr) : Option PyStr :=
  (m.find? fun kv => kv.1 = k).map Prod.snd

/-- A field map of texts. -/
def StrMap.fields (m : StrMap) : FieldMap := m.map fun kv => (.str kv.1, .str kv.2)

/-- The same fields as Redis returns them. -/
def StrMap.bytes (m : StrMap) : Except Foreign FieldMap :=
  m.mapM fun kv => do return (.bytes (← utf8Encode kv.1), .bytes (← utf8Encode kv.2))

/-! ## jobs -/

/-- `json.dumps(…, ensure_ascii=False)` and `json.loads`. -/
structure JsonCodec where
  dumps : Json → Except Foreign PyStr
  loads : PyStr → Except Foreign Json

/-- The codec gives the value back, through a text of Unicode characters. -/
def JsonCodec.RoundTrips (K : JsonCodec) (j : Json) : Prop :=
  ∃ s, K.dumps j = .ok s ∧ isUnicode s = true ∧ K.loads s = .ok j

namespace JsonCodec

/-- The fields with a JSON object as their payload. -/
def payload (K : JsonCodec) (d : Dict) : Except Foreign StrMap := do
  return [(py "payload", ← K.dumps (.obj d))]

/-- `TtsJobPayload.encode`. -/
def encode (K : JsonCodec) (p : TtsJobPayload) : Except Foreign StrMap := K.payload p.toDict

/-- The entry that a field map stands for: `b"payload"`, else `"payload"`, as a
text and then as JSON. -/
def entry (K : JsonCodec) (fields : FieldMap) : EntryFields where
  payload :=
    ((utf8Encode (py "payload")).toOption.bind fun k => fields.get (.bytes k)).or
        (fields.get (.str (py "payload"))) |>.map fun v =>
      match v.text with
      | .error _ => .notUtf8
      | .ok s =>
          match K.loads s with
          | .error _ => .notJson
          | .ok j => .json j

/-- `TtsJobPayload.decode`. -/
def decode (K : JsonCodec) (fields : FieldMap) : Except Foreign TtsJobPayload :=
  TtsJobPayload.decode (K.entry fields)

end JsonCodec

/-- The names of the dataclass's fields. -/
def knownKeys : List PyStr :=
  [py "request_id", py "tenant_id", py "api_key_id", py "voice_id", py "text", py "language",
    py "audio_format", py "model_id", py "voice_settings", py "params", py "seed",
    py "previous_text", py "next_text", py "pronunciation_dict", py "app_label",
    py "callback_url", py "enqueued_at_ms"]

/-- Those without a default. -/
def requiredKeys : List PyStr := knownKeys.take 5

/-- The object of a job, less the optional keys that are dropped, plus any keys
that the dataclass does not know. -/
structure TtsJobPayload.Variant (p : TtsJobPayload) (dropped : PyStr → Bool) (d : Dict) : Prop where
  known : ∀ k ∈ knownKeys, d.get k = if dropped k then none else p.toDict.get k
  required : ∀ k ∈ requiredKeys, dropped k = false

/-- The job with defaults for the keys that are dropped. -/
def TtsJobPayload.defaulting (p : TtsJobPayload) (dropped : PyStr → Bool) : TtsJobPayload :=
  let value (k : String) (v default : Json) : Json := if dropped (py k) then default else v
  { p with
    language := value "language" p.language (.ofStr "tr")
    audioFormat := value "audio_format" p.audioFormat (.ofStr "wav")
    modelId := value "model_id" p.modelId .null
    voiceSettings := value "voice_settings" p.voiceSettings .null
    params := value "params" p.params .null
    seed := value "seed" p.seed .null
    previousText := value "previous_text" p.previousText .null
    nextText := value "next_text" p.nextText .null
    pronunciationDict := value "pronunciation_dict" p.pronunciationDict .null
    appLabel := value "app_label" p.appLabel .null
    callbackUrl := value "callback_url" p.callbackUrl .null
    enqueuedAtMs := value "enqueued_at_ms" p.enqueuedAtMs .null }

/-! ## results -/

namespace Wire

/-- `TtsResult`, with its ids and messages as texts. -/
structure TtsResult where
  requestId : PyStr
  seq : Int
  pcmBytes : Pcm
  sentenceText : Option PyStr := none
  final : Bool := false
  error : Option PyStr := none
  attempt : Int := 0
  deriving DecidableEq

namespace TtsResult

/-- `out`, with the integers as texts. -/
def fieldsOf (r : TtsResult) (seq attempt : PyStr) : StrMap :=
  [(py "request_id", r.requestId), (py "seq", seq), (py "attempt", attempt),
    (py "pcm_b64", Base64.encode r.pcmBytes),
    (py "final", if r.final then py "true" else py "false")] ++
  (r.sentenceText.map fun s => (py "sentence_text", s)).toList ++
  (r.error.map fun s => (py "error", s)).toList

/-- `encode`. -/
def encode (r : TtsResult) : Except Foreign StrMap := do
  return r.fieldsOf (← intStr r.seq) (← intStr r.attempt)

/-- A key as the field map spells keys, by its first one. -/
def fieldKey (fields : FieldMap) (key : PyStr) : Except Foreign RedisValue :=
  match fields.head? with
  | some (.bytes _, _) => do return .bytes (← utf8Encode key)
  | _ => .ok (.str key)

/-- `_get`. -/
def getField (fields : FieldMap) (key : PyStr) : Except Foreign (Option PyStr) := do
  match fields.get (← fieldKey fields key) with
  | none => return none
  | some v => return some (← v.text)

/-- `v or default`. -/
def orElse (v : Option PyStr) (default : PyStr) : PyStr :=
  match v with
  | none | some [] => default
  | some s => s

/-- `int(v or "0")`. -/
def intField (v : Option PyStr) : Except Foreign Int := (Json.str (orElse v (py "0"))).toInt

/-- The text of a `binascii.Error`. -/
def binasciiText : Base64.DecodeError → String
  | .oneOver n => "Invalid base64-encoded string: number of data characters (" ++
      toString (n / 3 * 4 + 1) ++ ") cannot be 1 more than a multiple of 4"
  | .incorrectPadding => "Incorrect padding"

/-- `base64.b64decode(s)`: a text has to be ASCII. -/
def b64decode (s : PyStr) : Except Foreign Pcm :=
  if s.any (0x80 ≤ ·) then
    .error (.valueError "string argument should contain only ASCII characters")
  else (Base64.decode s).mapError fun e => .valueError (binasciiText e)

/-- `base64.b64decode(v) if v else b""`. -/
def pcmField (v : Option PyStr) : Except Foreign Pcm :=
  let s := orElse v []
  if s.isEmpty then .ok [] else b64decode s

/-- `decode`. -/
def decode (fields : FieldMap) : Except Foreign TtsResult := do
  let requestId := orElse (← getField fields (py "request_id")) []
  let seq ← intField (← getField fields (py "seq"))
  let attempt ← intField (← getField fields (py "attempt"))
  let pcmBytes ← pcmField (← getField fields (py "pcm_b64"))
  let final := orElse (← getField fields (py "final")) (py "false") == py "true"
  let sentenceText ← getField fields (py "sentence_text")
  let error ← getField fields (py "error")
  return { requestId, seq, attempt, pcmBytes, sentenceText, final, error }

end TtsResult

end Wire

/-! ## reading either map -/

section maps

variable {m : StrMap} {k : PyStr}

/-- Every text of the map is of Unicode characters. -/
def StrMap.isUnicode (m : StrMap) : Prop :=
  ∀ kv ∈ m, NeuroVoice.isUnicode kv.1 = true ∧ NeuroVoice.isUnicode kv.2 = true

/-- A map of Unicode text can be written, field by field. -/
theorem bytes_eq (hm : StrMap.isUnicode m) :
    StrMap.bytes m = .ok (m.map fun kv => (.bytes (utf8Bytes kv.1), .bytes (utf8Bytes kv.2))) := by
  induction m with
  | nil => rfl
  | cons kv m ih =>
      obtain ⟨⟨hk, hv⟩, hrest⟩ := List.forall_mem_cons.1 hm
      have hencode : ∀ {s}, NeuroVoice.isUnicode s = true → utf8Encode s = .ok (utf8Bytes s) :=
        fun h => if_pos h
      have ih := ih hrest
      unfold StrMap.bytes at ih ⊢
      rw [List.mapM_cons, ih, hencode hk, hencode hv]
      rfl

/-- A field is looked up among texts as in the map. -/
theorem get_fields : (StrMap.fields m).get (.str k) = (StrMap.get m k).map RedisValue.str := by
  unfold FieldMap.get StrMap.get StrMap.fields
  rw [List.find?_map, Option.map_map, Option.map_map]
  simp only [Function.comp_def, RedisValue.str.injEq]

/-- Among texts there are no bytes to be found. -/
theorem get_fields_bytes (b : List UInt8) : (StrMap.fields m).get (.bytes b) = none := by
  unfold FieldMap.get StrMap.fields
  rw [List.find?_map, Option.map_map]
  simp

/-- A field is looked up among bytes as in the map. -/
theorem get_bytes (hm : StrMap.isUnicode m) (hk : isUnicode k = true) :
    FieldMap.get (m.map fun kv => (.bytes (utf8Bytes kv.1), .bytes (utf8Bytes kv.2)))
      (.bytes (utf8Bytes k)) = (StrMap.get m k).map fun s => .bytes (utf8Bytes s) := by
  induction m with
  | nil => rfl
  | cons kv m ih =>
      obtain ⟨⟨hkv, -⟩, hrest⟩ := List.forall_mem_cons.1 hm
      have ih := ih hrest
      unfold FieldMap.get StrMap.get at ih ⊢
      by_cases heq : kv.1 = k
      · simp [heq]
      · have hne : utf8Bytes kv.1 ≠ utf8Bytes k := fun h => heq (utf8Bytes_inj hkv hk h)
        simpa [heq, hne] using ih

/-- A field of Unicode text is Unicode. -/
theorem isUnicode_of_get (hm : StrMap.isUnicode m) {s : PyStr} (h : StrMap.get m k = some s) :
    isUnicode s = true := by
  unfold StrMap.get at h
  obtain ⟨kv, hfind, rfl⟩ := Option.map_eq_some_iff.1 h
  exact (hm kv (List.mem_of_find?_eq_some hfind)).2

/-- A field of a map of texts. -/
theorem getField_fields : Wire.TtsResult.getField (StrMap.fields m) k = .ok (StrMap.get m k) := by
  have hkey : Wire.TtsResult.fieldKey (StrMap.fields m) k = .ok (.str k) := by
    cases m <;> rfl
  unfold Wire.TtsResult.getField
  rw [hkey]
  simp only [bind, Except.bind, get_fields]
  cases StrMap.get m k <;> rfl

/-- A field of a map of bytes. -/
theorem getField_bytes (hm : StrMap.isUnicode m) (hne : m ≠ []) (hk : isUnicode k = true) :
    Wire.TtsResult.getField
      (m.map fun kv => (.bytes (utf8Bytes kv.1), .bytes (utf8Bytes kv.2))) k =
      .ok (StrMap.get m k) := by
  have hkey : Wire.TtsResult.fieldKey
      (m.map fun kv => (.bytes (utf8Bytes kv.1), .bytes (utf8Bytes kv.2))) k =
      .ok (.bytes (utf8Bytes k)) := by
    obtain ⟨kv, rest, rfl⟩ := List.exists_cons_of_ne_nil hne
    have hencode : utf8Encode k = .ok (utf8Bytes k) := if_pos hk
    simp only [Wire.TtsResult.fieldKey, List.map_cons, List.head?_cons, hencode]
    rfl
  unfold Wire.TtsResult.getField
  rw [hkey]
  simp only [bind, Except.bind, get_bytes hm hk]
  cases hget : StrMap.get m k with
  | none => rfl
  | some s =>
      simp only [Option.map_some, RedisValue.text, utf8Decode_utf8Bytes (isUnicode_of_get hm hget)]
      rfl

end maps

/-! ## results round trip -/

namespace Wire.TtsResult

/-- The texts of the result are of Unicode characters. -/
def isUnicode (r : TtsResult) : Bool :=
  NeuroVoice.isUnicode r.requestId && r.sentenceText.all NeuroVoice.isUnicode &&
    r.error.all NeuroVoice.isUnicode

/-- Every number has a digit. -/
theorem decimalDigits_ne_nil (n : Nat) : decimalDigits n ≠ [] := by
  rw [decimalDigits]
  split <;> simp

/-- Every integer has a text. -/
theorem intText_ne_nil (n : Int) : intText n ≠ [] := by
  cases n with
  | ofNat n => exact decimalDigits_ne_nil n
  | negSucc n => exact List.cons_ne_nil _ _

/-- A text that is not empty needs no default. -/
theorem orElse_some {s : PyStr} (h : s ≠ []) (default : PyStr) : orElse (some s) default = s := by
  cases s with
  | nil => exact absurd rfl h
  | cons c s => rfl

/-- An empty default changes nothing. -/
theorem orElse_nil (s : PyStr) : orElse (some s) [] = s := by
  cases s <;> rfl

/-- An integer below the digit limit is read back from its field. -/
theorem intField_intText {n : Int} (h : n.natAbs < 10 ^ Json.maxStrDigits) :
    intField (some (intText n)) = .ok n := by
  rw [intField, orElse_some (intText_ne_nil n), toInt_intText h]

/-- Audio is read back from its field. -/
theorem pcmField_encode (b : Pcm) : pcmField (some (Base64.encode b)) = .ok b := by
  unfold pcmField
  rw [orElse_nil]
  by_cases hb : b = []
  · subst hb
    rfl
  · have hne : (Base64.encode b).isEmpty = false := by
      rw [List.isEmpty_eq_false_iff]
      exact fun h => hb (Base64.encode_eq_nil.1 h)
    have hascii : (Base64.encode b).any (0x80 ≤ ·) = false := by
      simpa using fun c hc => Base64.mem_encode_lt hc
    simp only [hne, Bool.false_eq_true, if_false, b64decode, hascii, Base64.decode_encode]
    rfl

/-- The flag is read back from its word. -/
theorem finalField (final : Bool) :
    (orElse (some (if final then py "true" else py "false")) (py "false") == py "true") = final := by
  cases final <;> rfl

/-- The integers are short enough to be written. -/
structure Writable (r : TtsResult) : Prop where
  seq : r.seq.natAbs < 10 ^ Json.maxStrDigits
  attempt : r.attempt.natAbs < 10 ^ Json.maxStrDigits

/-- The fields of a result that can be written. -/
abbrev written (r : TtsResult) : StrMap := r.fieldsOf (intText r.seq) (intText r.attempt)

/-- A result that can be written is written as its fields. -/
theorem encode_eq {r : TtsResult} (hw : r.Writable) : r.encode = .ok r.written := by
  rw [encode, intStr_eq_ok.2 ⟨hw.seq, rfl⟩, intStr_eq_ok.2 ⟨hw.attempt, rfl⟩]
  rfl

/-- The sentence is there if there is one. -/
theorem get_sentenceText (r : TtsResult) :
    StrMap.get r.written (py "sentence_text") = r.sentenceText := by
  unfold written fieldsOf
  cases r.sentenceText <;> cases r.error <;> rfl

/-- So is the error. -/
theorem get_error (r : TtsResult) : StrMap.get r.written (py "error") = r.error := by
  unfold written fieldsOf
  cases r.sentenceText <;> cases r.error <;> rfl

/-- A field map in which the fields are found decodes to the result. -/
theorem decode_eq {r : TtsResult} {fields : FieldMap} (hw : r.Writable)
    (h : ∀ k, NeuroVoice.isUnicode k = true → getField fields k = .ok (StrMap.get r.written k)) :
    decode fields = .ok r := by
  unfold decode
  rw [h _ (by decide), h _ (by decide), h _ (by decide), h _ (by decide), h _ (by decide),
    h _ (by decide), h _ (by decide), get_sentenceText, get_error]
  have hseq : StrMap.get r.written (py "seq") = some (intText r.seq) := rfl
  have hattempt : StrMap.get r.written (py "attempt") = some (intText r.attempt) := rfl
  have hpcm : StrMap.get r.written (py "pcm_b64") = some (Base64.encode r.pcmBytes) := rfl
  have hfinal : StrMap.get r.written (py "final") =
      some (if r.final then py "true" else py "false") := rfl
  have hid : StrMap.get r.written (py "request_id") = some r.requestId := rfl
  simp only [bind, Except.bind, hid, hseq, hattempt, hpcm, hfinal, orElse_nil,
    intField_intText hw.seq, intField_intText hw.attempt, pcmField_encode, finalField]
  rfl

/-- ASCII. -/
theorem isUnicode_of_lt {s : PyStr} (h : ∀ c ∈ s, c < 0x80) : NeuroVoice.isUnicode s = true := by
  refine List.all_eq_true.2 fun c hc => decide_eq_true (.inl ?_)
  have hc := h c hc
  omega

/-- Digits and a sign are Unicode. -/
theorem isUnicode_intText (n : Int) : NeuroVoice.isUnicode (intText n) = true := by
  have hdigits : ∀ m, ∀ c ∈ decimalDigits m, c < 0x80 := by
    intro m c hc
    have hc := mem_decimalDigits hc
    omega
  refine isUnicode_of_lt ?_
  cases n with
  | ofNat m => exact hdigits m
  | negSucc m => exact List.forall_mem_cons.2 ⟨by decide, hdigits (m + 1)⟩

/-- A result of Unicode text is written as Unicode text. -/
theorem isUnicode_written {r : TtsResult} (hr : r.isUnicode = true) :
    StrMap.isUnicode r.written := by
  simp only [isUnicode, Bool.and_eq_true] at hr
  obtain ⟨⟨hid, hsentence⟩, herror⟩ := hr
  have hfinal : NeuroVoice.isUnicode (if r.final then py "true" else py "false") = true := by
    cases r.final <;> decide
  have hpcm : NeuroVoice.isUnicode (Base64.encode r.pcmBytes) = true :=
    isUnicode_of_lt fun c hc => Base64.mem_encode_lt hc
  have hoption : ∀ {o : Option PyStr} {k : PyStr}, o.all NeuroVoice.isUnicode = true →
      NeuroVoice.isUnicode k = true →
      StrMap.isUnicode (o.map fun s => (k, s)).toList := by
    intro o k ho hk kv hkv
    cases o with
    | none => cases hkv
    | some s =>
        rw [List.mem_singleton.1 hkv]
        exact ⟨hk, ho⟩
  intro kv hkv
  obtain hkv | hkv := List.mem_append.1 hkv
  · obtain hkv | hkv := List.mem_append.1 hkv
    · simp only [List.mem_cons, List.not_mem_nil, or_false] at hkv
      obtain rfl | rfl | rfl | rfl | rfl := hkv
      · exact ⟨rfl, hid⟩
      · exact ⟨rfl, isUnicode_intText r.seq⟩
      · exact ⟨rfl, isUnicode_intText r.attempt⟩
      · exact ⟨rfl, hpcm⟩
      · exact ⟨rfl, hfinal⟩
    · exact hoption hsentence (by decide) kv hkv
  · exact hoption herror (by decide) kv hkv

/-- A result comes back from either map. -/
theorem round_trip {r : TtsResult} (hr : r.isUnicode = true) (hw : r.Writable) :
    ∃ m fields, r.encode = .ok m ∧ StrMap.bytes m = .ok fields ∧
      decode (StrMap.fields m) = .ok r ∧ decode fields = .ok r := by
  have hunicode := isUnicode_written hr
  refine ⟨r.written, _, encode_eq hw, bytes_eq hunicode,
    decode_eq hw fun k _ => getField_fields, decode_eq hw fun k hk => ?_⟩
  exact getField_bytes hunicode (List.cons_ne_nil _ _) hk

end Wire.TtsResult

/-! ## jobs round trip -/

section jobs

variable {K : JsonCodec} {p : TtsJobPayload} {dropped : PyStr → Bool} {d : Dict}

/-- A variant decodes to the job with its defaults. -/
theorem TtsJobPayload.Variant.ofDict (h : p.Variant dropped d) :
    TtsJobPayload.ofDict d = .ok (p.defaulting dropped) := by
  have hrequired : ∀ (k : String) (v : Json), py k ∈ knownKeys → py k ∈ requiredKeys →
      p.toDict.get (py k) = some v → TtsJobPayload.required d k = .ok v := by
    intro k v hk hreq hv
    unfold TtsJobPayload.required
    simp only [h.known _ hk, h.required _ hreq, Bool.false_eq_true, if_false, hv]
  have hoptional : ∀ (k : String) (v default : Json), py k ∈ knownKeys →
      p.toDict.get (py k) = some v →
      TtsJobPayload.optional d k default = if dropped (py k) then default else v := by
    intro k v default hk hv
    unfold TtsJobPayload.optional
    rw [h.known _ hk, hv]
    split <;> rfl
  unfold TtsJobPayload.ofDict
  rw [hrequired "request_id" p.requestId (by decide) (by decide) rfl,
    hrequired "tenant_id" p.tenantId (by decide) (by decide) rfl,
    hrequired "api_key_id" p.apiKeyId (by decide) (by decide) rfl,
    hrequired "voice_id" p.voiceId (by decide) (by decide) rfl,
    hrequired "text" p.text (by decide) (by decide) rfl,
    hoptional "language" p.language _ (by decide) rfl,
    hoptional "audio_format" p.audioFormat _ (by decide) rfl,
    hoptional "model_id" p.modelId _ (by decide) rfl,
    hoptional "voice_settings" p.voiceSettings _ (by decide) rfl,
    hoptional "params" p.params _ (by decide) rfl,
    hoptional "seed" p.seed _ (by decide) rfl,
    hoptional "previous_text" p.previousText _ (by decide) rfl,
    hoptional "next_text" p.nextText _ (by decide) rfl,
    hoptional "pronunciation_dict" p.pronunciationDict _ (by decide) rfl,
    hoptional "app_label" p.appLabel _ (by decide) rfl,
    hoptional "callback_url" p.callbackUrl _ (by decide) rfl,
    hoptional "enqueued_at_ms" p.enqueuedAtMs _ (by decide) rfl]
  rfl

/-- A payload comes back from either map. -/
theorem JsonCodec.payload_round_trip (hjson : K.RoundTrips (.obj d)) :
    ∃ m fields, K.payload d = .ok m ∧ StrMap.bytes m = .ok fields ∧
      K.entry (StrMap.fields m) = ⟨some (.json (.obj d))⟩ ∧
      K.entry fields = ⟨some (.json (.obj d))⟩ := by
  obtain ⟨s, hdumps, hs, hloads⟩ := hjson
  have hunicode : StrMap.isUnicode [(py "payload", s)] := by
    intro kv hkv
    rw [List.mem_singleton.1 hkv]
    exact ⟨rfl, hs⟩
  refine ⟨[(py "payload", s)], _, ?_, bytes_eq hunicode, ?_, ?_⟩
  · unfold JsonCodec.payload
    rw [hdumps]
    rfl
  · unfold JsonCodec.entry
    have hget : StrMap.get [(py "payload", s)] (py "payload") = some s := rfl
    have hbytes : ((utf8Encode (py "payload")).toOption.bind fun k =>
        (StrMap.fields [(py "payload", s)]).get (.bytes k)) = none := by
      simp [get_fields_bytes]
    rw [hbytes, get_fields, hget]
    simp only [Option.none_or, Option.map_some, RedisValue.text, hloads]
  · unfold JsonCodec.entry
    have hget : StrMap.get [(py "payload", s)] (py "payload") = some s := rfl
    have hkey : utf8Encode (py "payload") = .ok (utf8Bytes (py "payload")) := if_pos (by decide)
    rw [hkey]
    simp only [Except.toOption, Option.bind_some, get_bytes hunicode (k := py "payload") rfl, hget,
      Option.map_some, Option.some_or, RedisValue.text, utf8Decode_utf8Bytes hs, hloads]

end jobs

/-- **Wire round trips.**  A job comes back from the fields it is encoded as,
also with keys added and optional keys dropped, and so does a result whose
integers can be written; from a map of texts as from one of bytes. -/
theorem wire_round_trip (K : JsonCodec) (p : TtsJobPayload) (dropped : PyStr → Bool) (d : Dict)
    (r : Wire.TtsResult) (hp : K.RoundTrips (.obj p.toDict)) (hd : p.Variant dropped d)
    (hjson : K.RoundTrips (.obj d)) (hr : r.isUnicode = true) (hw : r.Writable) :
    (∃ m fields, K.encode p = .ok m ∧ StrMap.bytes m = .ok fields ∧
      K.decode (StrMap.fields m) = .ok p ∧ K.decode fields = .ok p) ∧
    (∃ m fields, K.payload d = .ok m ∧ StrMap.bytes m = .ok fields ∧
      K.decode (StrMap.fields m) = .ok (p.defaulting dropped) ∧
      K.decode fields = .ok (p.defaulting dropped)) ∧
    ∃ m fields, r.encode = .ok m ∧ StrMap.bytes m = .ok fields ∧
      Wire.TtsResult.decode (StrMap.fields m) = .ok r ∧ Wire.TtsResult.decode fields = .ok r := by
  refine ⟨?_, ?_, Wire.TtsResult.round_trip hr hw⟩
  · obtain ⟨m, fields, hencode, hbytes, hstr, hbyt⟩ := JsonCodec.payload_round_trip hp
    refine ⟨m, fields, hencode, hbytes, ?_, ?_⟩
    · rw [JsonCodec.decode, hstr]
      exact TtsJobPayload.decode_encode p
    · rw [JsonCodec.decode, hbyt]
      exact TtsJobPayload.decode_encode p
  · obtain ⟨m, fields, hencode, hbytes, hstr, hbyt⟩ := JsonCodec.payload_round_trip hjson
    refine ⟨m, fields, hencode, hbytes, ?_, ?_⟩
    · rw [JsonCodec.decode, hstr]
      exact hd.ofDict
    · rw [JsonCodec.decode, hbyt]
      exact hd.ofDict

/-! ## a job and a result -/

/-- A job. -/
def sampleJob : TtsJobPayload where
  requestId := .ofStr "r1"
  tenantId := .ofStr "t1"
  apiKeyId := .ofStr "k1"
  voiceId := .ofStr "ayse"
  text := .ofStr "merhaba"
  seed := .int 7

/-- Its object without optional keys, and with a key of an older format. -/
def olderJob : Dict := sampleJob.toDict.take 5 ++ [(py "attempt", .int 2)]

/-- Its JSON text. -/
def sampleText : PyStr :=
  py "\x7b\"request_id\": \"r1\", \"tenant_id\": \"t1\", \"api_key_id\": \"k1\", " ++
    py "\"voice_id\": \"ayse\", \"text\": \"merhaba\", \"language\": \"tr\", " ++
    py "\"audio_format\": \"wav\", \"model_id\": null, \"voice_settings\": null, " ++
    py "\"params\": null, \"seed\": 7, \"previous_text\": null, \"next_text\": null, " ++
    py "\"pronunciation_dict\": null, \"app_label\": null, \"callback_url\": null, " ++
    py "\"enqueued_at_ms\": null\x7d"

/-- The JSON text of the older object. -/
def olderText : PyStr :=
  py "\x7b\"request_id\": \"r1\", \"tenant_id\": \"t1\", \"api_key_id\": \"k1\", " ++
    py "\"voice_id\": \"ayse\", \"text\": \"merhaba\", \"attempt\": 2\x7d"

/-- What the JSON codec does with the two. -/
def sampleCodec : JsonCodec where
  dumps
    | .obj d => if d.length = 17 then .ok sampleText else .ok olderText
    | _ => .error .typeError
  loads s :=
    if s = sampleText then .ok (.obj sampleJob.toDict)
    else if s = olderText then .ok (.obj olderJob)
    else .error .jsonError

/-- A result with audio, a sentence and an empty message. -/
def sampleResult : Wire.TtsResult where
  requestId := py "r1"
  seq := -1
  pcmBytes := [0, 255, 7, 1]
  sentenceText := some (py "merhaba")
  error := some []

/-- A job without the optional fields is a variant of the full one. -/
theorem variant_olderJob :
    sampleJob.Variant (fun k => !requiredKeys.contains k) olderJob where
  known := by
    unfold knownKeys
    simp only [List.forall_mem_cons]
    refine ⟨rfl, rfl, rfl, rfl, rfl, rfl, rfl, rfl, rfl, rfl, rfl, rfl, rfl, rfl, rfl, rfl, rfl, ?_⟩
    exact fun _ h => nomatch h
  required := by decide

/-- The example's codec brings the full job back. -/
theorem roundTrips_sampleJob : sampleCodec.RoundTrips (.obj sampleJob.toDict) := by
  refine ⟨sampleText, rfl, by decide +kernel, ?_⟩
  simp only [sampleCodec, if_true]

/-- It brings the older job back, too. -/
theorem roundTrips_olderJob : sampleCodec.RoundTrips (.obj olderJob) := by
  have hne : olderText ≠ sampleText := by decide +kernel
  refine ⟨olderText, rfl, by decide +kernel, ?_⟩
  simp only [sampleCodec, hne, if_false, if_true]

/-- The job, the older object and the result come back. -/
theorem wire_round_trip_example :
    (∃ m fields, sampleCodec.encode sampleJob = .ok m ∧ StrMap.bytes m = .ok fields ∧
      sampleCodec.decode (StrMap.fields m) = .ok sampleJob ∧
      sampleCodec.decode fields = .ok sampleJob) ∧
    (∃ m fields, sampleCodec.payload olderJob = .ok m ∧ StrMap.bytes m = .ok fields ∧
      sampleCodec.decode (StrMap.fields m) =
        .ok (sampleJob.defaulting fun k => !requiredKeys.contains k) ∧
      sampleCodec.decode fields =
        .ok (sampleJob.defaulting fun k => !requiredKeys.contains k)) ∧
    ∃ m fields, sampleResult.encode = .ok m ∧ StrMap.bytes m = .ok fields ∧
      Wire.TtsResult.decode (StrMap.fields m) = .ok sampleResult ∧
      Wire.TtsResult.decode fields = .ok sampleResult :=
  wire_round_trip sampleCodec sampleJob _ olderJob sampleResult roundTrips_sampleJob
    variant_olderJob roundTrips_olderJob (by decide)
    ⟨Nat.one_lt_pow (by decide) (by decide), Nat.pos_of_ne_zero (by simp)⟩

/-- A number of 5001 digits. -/
def longSeq : Nat := 10 ^ 5000

/-- The number has more than 4300 digits. -/
theorem longSeq_le : 10 ^ Json.maxStrDigits ≤ longSeq := by
  have hdigits : Json.maxStrDigits ≤ 5000 := by decide
  unfold longSeq
  gcongr
  decide

/-- The result with such a `seq`. -/
def longResult : Wire.TtsResult := { sampleResult with seq := longSeq }

/-- It has no field map. -/
theorem seq_too_long :
    ¬∀ (K : JsonCodec) (p : TtsJobPayload) (dropped : PyStr → Bool) (d : Dict)
      (r : Wire.TtsResult), K.RoundTrips (.obj p.toDict) → p.Variant dropped d →
      K.RoundTrips (.obj d) → r.isUnicode = true →
      ∃ m fields, r.encode = .ok m ∧ StrMap.bytes m = .ok fields ∧
        Wire.TtsResult.decode (StrMap.fields m) = .ok r ∧ Wire.TtsResult.decode fields = .ok r := by
  intro h
  have hunicode : sampleResult.isUnicode = true := by decide
  obtain ⟨m, -, hencode, -⟩ := h sampleCodec sampleJob _ olderJob longResult roundTrips_sampleJob
    variant_olderJob roundTrips_olderJob hunicode
  unfold Wire.TtsResult.encode at hencode
  cases hseq : intStr longResult.seq with
  | error e => rw [hseq] at hencode; cases hencode
  | ok s =>
      obtain ⟨hshort, -⟩ := intStr_eq_ok.1 hseq
      exact absurd hshort (Nat.not_lt.2 longSeq_le)

end NeuroVoice
