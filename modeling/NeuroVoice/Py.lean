import NeuroVoice.Lib.Binary64
import Mathlib.Data.Rat.Floor
import Mathlib.Data.BitVec

/-!
# NeuroVoice.Py

The Python values and foreign exceptions the modelled code handles.

* `PyStr` — a `str` as its code points, lone surrogates included: JSON can
  spell them and UTF-8 cannot.
* `Json` — what `json.loads` returns.  The decoded job payload is not
  type-checked by the source, so its fields stay `Json` here and every use
  of a field is the Python operation, with the exception it raises.
* `Uuid`, `parseUuid`, `uuidStr` — `uuid.UUID(str)` and `str(uuid)`.
* `Foreign` — the exceptions libraries and builtins raise.
-/

namespace NeuroVoice

/-! ## strings -/

/-- A Python `str`, as code points. -/
abbrev PyStr := List Nat

/-- A string literal of the source. -/
def py (s : String) : PyStr := s.toList.map Char.toNat

/-- Surrogate code points have no UTF-8 encoding. -/
def isSurrogate (c : Nat) : Bool := 0xD800 ≤ c && c ≤ 0xDFFF

/-- `s.encode("utf-8")` succeeds. -/
def utf8Encodable (s : PyStr) : Bool := s.all fun c => !isSurrogate c

/-- The value of a decimal digit (Unicode category Nd), by the zeros of the
digit blocks. -/
def decimalDigit (c : Nat) : Option Nat :=
  let zeros := [0x30, 0x660, 0x6F0, 0x7C0, 0x966, 0x9E6, 0xA66, 0xAE6, 0xB66, 0xBE6, 0xC66,
    0xCE6, 0xD66, 0xDE6, 0xE50, 0xED0, 0xF20, 0x1040, 0x1090, 0x17E0, 0x1810, 0x1946, 0x19D0,
    0x1A80, 0x1A90, 0x1B50, 0x1BB0, 0x1C40, 0x1C50, 0xA620, 0xA8D0, 0xA900, 0xA9D0, 0xA9F0,
    0xAA50, 0xABF0, 0xFF10, 0x104A0, 0x10D30, 0x11066, 0x110F0, 0x11136, 0x111D0, 0x112F0,
    0x11450, 0x114D0, 0x11650, 0x116C0, 0x11730, 0x118E0, 0x11950, 0x11C50, 0x11D50, 0x11DA0,
    0x11F50, 0x16A60, 0x16AC0, 0x16B50, 0x1D7CE, 0x1D7D8, 0x1D7E2, 0x1D7EC, 0x1D7F6, 0x1E140,
    0x1E2F0, 0x1E4F0, 0x1E950, 0x1FBF0]
  (zeros.find? fun z => z ≤ c && c < z + 10).map fun z => c - z

/-- A decimal digit as one of ASCII. -/
def asciiDigit (c : Nat) : Nat := ((decimalDigit c).map fun d => 0x30 + d).getD c

/-- The value of a digit of an `int(…, 16)` literal. -/
def hexDigit (c : Nat) : Option Nat :=
  if 0x61 ≤ c ∧ c ≤ 0x66 then some (c - 0x57)
  else if 0x41 ≤ c ∧ c ≤ 0x46 then some (c - 0x37)
  else decimalDigit c

/-- `str.isspace` of one code point. -/
def isSpace (c : Nat) : Bool :=
  (9 ≤ c && c ≤ 13) || (28 ≤ c && c ≤ 32) || c == 0x85 || c == 0xA0 || c == 0x1680 ||
    (0x2000 ≤ c && c ≤ 0x200A) || c == 0x2028 || c == 0x2029 || c == 0x202F || c == 0x205F ||
    c == 0x3000

/-- Remove code points satisfying `p` from both ends. -/
def stripBy (p : Nat → Bool) (s : PyStr) : PyStr :=
  ((s.dropWhile p).reverse.dropWhile p).reverse

/-- `s.split(sep)`, for a separator of one character. -/
def splitOn (sep : Nat) : PyStr → List PyStr
  | [] => [[]]
  | c :: cs =>
      if c = sep then [] :: splitOn sep cs
      else match splitOn sep cs with
        | [] => [[c]]
        | p :: ps => (c :: p) :: ps

/-- `s.rfind(" ")`. -/
def lastSpace : PyStr → Option Nat
  | [] => none
  | c :: cs =>
      match lastSpace cs with
      | some n => some (n + 1)
      | none => if c = 0x20 then some 0 else none

/-- `lastSpace` finds the last space, if there is one. -/
theorem lastSpace_spec (s : PyStr) :
    (lastSpace s = none ∧ 0x20 ∉ s) ∨
      ∃ pre rest, s = pre ++ 0x20 :: rest ∧ 0x20 ∉ rest ∧ lastSpace s = some pre.length := by
  induction s with
  | nil => exact .inl ⟨rfl, List.not_mem_nil⟩
  | cons c cs ih =>
      rw [lastSpace]
      rcases ih with ⟨hnone, hcs⟩ | ⟨pre, rest, rfl, hrest, hsome⟩
      · rw [hnone]
        by_cases hc : c = 0x20
        · exact .inr ⟨[], cs, by rw [hc]; rfl, hcs, by simp [hc]⟩
        · exact .inl ⟨by simp [hc], by simp [hcs, Ne.symm hc]⟩
      · rw [hsome]
        exact .inr ⟨c :: pre, rest, rfl, hrest, rfl⟩

/-- `sep.join(ps)`. -/
def joinWith (sep : Nat) : List PyStr → PyStr
  | [] => []
  | [p] => p
  | p :: ps => p ++ sep :: joinWith sep ps

/-- No piece of a split contains the separator. -/
theorem not_mem_splitOn {sep : Nat} {s p : PyStr} (h : p ∈ splitOn sep s) : sep ∉ p := by
  induction s generalizing p with
  | nil => simp only [splitOn, List.mem_singleton] at h; subst h; simp
  | cons c cs ih =>
      unfold splitOn at h
      split at h
      · obtain rfl | h := List.mem_cons.1 h
        · simp
        · exact ih h
      · next hc =>
          split at h
          · simp only [List.mem_singleton] at h; subst h; simpa using Ne.symm hc
          · next q qs hq =>
              obtain rfl | h := List.mem_cons.1 h
              · have := ih (p := q) (by rw [hq]; simp)
                simpa using ⟨Ne.symm hc, this⟩
              · exact ih (by rw [hq]; simp [h])

/-- A piece without the separator is split off whole. -/
theorem splitOn_append {sep : Nat} {p : PyStr} (hp : sep ∉ p) (s : PyStr) :
    splitOn sep (p ++ sep :: s) = p :: splitOn sep s := by
  induction p with
  | nil => simp [splitOn]
  | cons c cs ih =>
      simp only [List.mem_cons, not_or] at hp
      simp only [List.cons_append, splitOn, if_neg (Ne.symm hp.1), ih hp.2]

theorem splitOn_of_not_mem {sep : Nat} {p : PyStr} (hp : sep ∉ p) : splitOn sep p = [p] := by
  induction p with
  | nil => rfl
  | cons c cs ih =>
      simp only [List.mem_cons, not_or] at hp
      simp only [splitOn, if_neg (Ne.symm hp.1), ih hp.2]

/-- Splitting undoes joining. -/
theorem splitOn_joinWith {sep : Nat} {ps : List PyStr} (h : ∀ p ∈ ps, sep ∉ p) (hne : ps ≠ []) :
    splitOn sep (joinWith sep ps) = ps := by
  induction ps with
  | nil => exact absurd rfl hne
  | cons p ps ih =>
      cases ps with
      | nil => exact splitOn_of_not_mem (h p (by simp))
      | cons q qs =>
          rw [joinWith, splitOn_append (h p (by simp)), ih (fun x hx => h x (by simp [hx]))
            (by simp)]
          simp

/-- The digits of an integer literal: single underscores may separate
them.  `ok` says that the literal may stop, or continue with `_`, here. -/
def digitsVal (base : Nat) (digit : Nat → Option Nat) : PyStr → Nat → Bool → Option Nat
  | [], acc, ok => if ok then some acc else none
  | c :: cs, acc, ok =>
      if c = 0x5F then if ok then digitsVal base digit cs acc false else none
      else match digit c with
        | some d => digitsVal base digit cs (acc * base + d) true
        | none => none

/-- The sign of an integer literal and the rest of it. -/
def splitSign : PyStr → Int × PyStr
  | 0x2B :: cs => (1, cs)
  | 0x2D :: cs => (-1, cs)
  | cs => (1, cs)

/-- `int(s)` for a string: surrounding white space, a sign, digits. -/
def intOfStr (s : PyStr) : Option Int :=
  let (sign, ds) := splitSign (stripBy isSpace s)
  (digitsVal 10 decimalDigit ds 0 false).map fun n => sign * n

/-- A literal without the single underscores between its digits; `prev` is the
character before. -/
def dropUnderscores (prev : Nat) : PyStr → Option PyStr
  | [] => if prev = 0x5F then none else some []
  | c :: cs =>
      if c = 0x5F then
        if (decimalDigit prev).isSome then dropUnderscores c cs else none
      else if prev = 0x5F ∧ (decimalDigit c).isNone then none
      else (dropUnderscores c cs).map (c :: ·)

/-- The value of decimal digits. -/
def decimalVal (ds : PyStr) : Nat := ds.foldl (fun n d => 10 * n + (d - 0x30)) 0

/-- The exponent of a literal, and nothing after it. -/
def exponentOf : PyStr → Option Int
  | [] => some 0
  | c :: cs =>
      let (sign, ds) := splitSign cs
      if (c = 0x65 ∨ c = 0x45) ∧ !ds.isEmpty ∧ ds.all fun d => (decimalDigit d).isSome then
        some (sign * decimalVal ds)
      else none

/-- A decimal literal: digits with a point among them, and an exponent. -/
def decimalOf (s : PyStr) : Option Rat :=
  let whole := s.takeWhile fun c => (decimalDigit c).isSome
  let rest := s.drop whole.length
  let fraction :=
    if rest.head? = some 0x2E then rest.tail.takeWhile fun c => (decimalDigit c).isSome else []
  let rest := if rest.head? = some 0x2E then rest.drop (fraction.length + 1) else rest
  if whole.isEmpty && fraction.isEmpty then none
  else (exponentOf rest).map fun e =>
    decimalVal (whole ++ fraction) * (10 : Rat) ^ (e - (fraction.length : Int))

/-! ## UUIDs -/

/-- A `uuid.UUID`, by its 128-bit integer. -/
abbrev Uuid := BitVec 128

/-- `s.replace(pat, "")`; `skip` counts code points of a match still to be
dropped. -/
def removeAll (pat : PyStr) : Nat → PyStr → PyStr
  | _, [] => []
  | skip + 1, _ :: cs => removeAll pat skip cs
  | 0, c :: cs =>
      if pat.isPrefixOf (c :: cs) then removeAll pat (pat.length - 1) cs
      else c :: removeAll pat 0 cs

/-- `int(s, 16)` of the source's 32 characters: white space, a sign and a
`0x` prefix are allowed by `int`, which reads every decimal digit as ASCII. -/
def hexOfStr (s : PyStr) : Option Nat :=
  let ds := match (stripBy isSpace s).map asciiDigit with
    | 0x2B :: cs => cs
    | cs => cs
  match ds with
  | 0x30 :: 0x78 :: cs => digitsVal 16 hexDigit cs 0 true
  | 0x30 :: 0x58 :: cs => digitsVal 16 hexDigit cs 0 true
  | cs => digitsVal 16 hexDigit cs 0 false

/-- `uuid.UUID(s)`: the `urn:` and `uuid:` prefixes, braces and hyphens are
dropped and 32 hexadecimal digits must be left. -/
def parseUuid (s : PyStr) : Option Uuid :=
  let hex := removeAll (py "uuid:") 0 (removeAll (py "urn:") 0 s)
  let hex := removeAll (py "-") 0 (stripBy (fun c => c == 0x7B || c == 0x7D) hex)
  if hex.length = 32 then (hexOfStr hex).map (BitVec.ofNat 128) else none

/-- The digit of a nibble. -/
def hexChar (d : Nat) : Nat := if d < 10 then 0x30 + d else 0x57 + d

/-- The `n` lowest hexadecimal digits of `u`, most significant first. -/
def hexDigits : Nat → Nat → PyStr
  | 0, _ => []
  | n + 1, u => hexDigits n (u / 16) ++ [hexChar (u % 16)]

/-- `str(u)`: the digits in groups of 8, 4, 4, 4 and 12. -/
def uuidStr (u : Uuid) : PyStr :=
  let h := hexDigits 32 u.toNat
  h.take 8 ++ py "-" ++ (h.drop 8).take 4 ++ py "-" ++ (h.drop 12).take 4 ++ py "-" ++
    (h.drop 16).take 4 ++ py "-" ++ h.drop 20

/-! ## JSON values -/

/-- A `float`. -/
inductive PyFloat where
  | fin (q : Rat)
  | inf
  | negInf
  | nan
  deriving DecidableEq

/-- The float nearest to a number. -/
def PyFloat.ofRat (q : Rat) : PyFloat :=
  if Binary64.Overflows q then if 0 ≤ q then .inf else .negInf else .fin (Binary64.nearest q)

/-- `float(s)` of a string. -/
def floatOfStr (s : PyStr) : Option PyFloat := do
  let literal ← dropUnderscores 0 ((stripBy isSpace s).map asciiDigit)
  let (sign, body) := splitSign literal
  let name := body.map fun c => if 0x41 ≤ c ∧ c ≤ 0x5A then c + 0x20 else c
  if name = py "nan" then return .nan
  if name = py "inf" ∨ name = py "infinity" then return if sign = 1 then .inf else .negInf
  return .ofRat (sign * (← decimalOf body))

/-- A value `json.loads` returns. -/
inductive Json where
  | null
  | bool (b : Bool)
  | int (n : Int)
  | float (x : PyFloat)
  | str (s : PyStr)
  | arr (xs : List Json)
  | obj (kvs : List (PyStr × Json))

/-- A JSON object's members. -/
abbrev Dict := List (PyStr × Json)

namespace Json

/-- A string value. -/
def ofStr (s : String) : Json := .str (py s)

/-- `None` or a string value. -/
def ofStr? : Option PyStr → Json
  | some s => .str s
  | none => .null

/-- `None` or an integer value. -/
def ofNat? : Option Nat → Json
  | some n => .int n
  | none => .null

/-- `None` or an object. -/
def ofDict? : Option Dict → Json
  | some d => .obj d
  | none => .null

/-- `v is None`. -/
def isNull : Json → Bool
  | .null => true
  | _ => false

/-- `bool(v)`. -/
def truthy : Json → Bool
  | .null => false
  | .bool b => b
  | .int n => n ≠ 0
  | .float (.fin q) => q ≠ 0
  | .float _ => true
  | .str s => !s.isEmpty
  | .arr xs => !xs.isEmpty
  | .obj kvs => !kvs.isEmpty

end Json

/-- `d.get(k)`. -/
def Dict.get (d : Dict) (k : PyStr) : Option Json :=
  (d.find? fun kv => kv.1 = k).map Prod.snd

/-- `{**d, **e}`: the members of `e` win. -/
def Dict.merge (d e : Dict) : Dict :=
  d.filter (fun kv => (Dict.get e kv.1).isNone) ++ e

/-! ## exceptions -/

/-- An exception that a library, a builtin or the interpreter raises. -/
inductive Foreign where
  | keyError
  | typeError
  | attributeError
  | valueError (msg : String)
  | overflowError
  | unicodeError
  | jsonError
  /-- `redis.exceptions.ResponseError`; the flag marks `BUSYGROUP`. -/
  | responseError (busyGroup : Bool)
  /-- Any other error of the Redis client. -/
  | redisError (msg : String)
  /-- A value a driver refuses to encode. -/
  | dataError
  | integrityError
  | staleDataError
  /-- Any other error of the database driver. -/
  | dbError (msg : String)
  | fileNotFound (msg : String)
  /-- The WebSocket client is gone. -/
  | webSocketDisconnect
  /-- Any other subclass of `Exception`. -/
  | other (msg : String)
  /-- A `BaseException` that is not an `Exception`, such as `CancelledError`. -/
  | baseException
  deriving DecidableEq

/-- `str(e)`. -/
def Foreign.text : Foreign → String
  | .keyError => "key"
  | .typeError => "type error"
  | .attributeError => "attribute error"
  | .valueError msg => msg
  | .overflowError => "cannot convert float infinity to integer"
  | .unicodeError => "surrogates not allowed"
  | .jsonError => "not JSON"
  | .responseError true => "BUSYGROUP Consumer Group name already exists"
  | .responseError false => "ERR"
  | .redisError msg => msg
  | .dataError => "invalid input"
  | .integrityError => "integrity error"
  | .staleDataError => "expected to update 1 row(s); 0 were matched"
  | .dbError msg => msg
  | .fileNotFound msg => msg
  | .webSocketDisconnect => ""
  | .other msg => msg
  | .baseException => ""

/-- `except Exception` catches it. -/
def Foreign.isException : Foreign → Bool
  | .baseException => false
  | _ => true

/-! ## operations on decoded values -/

namespace Json

/-- `len(v)`. -/
def len : Json → Except Foreign Nat
  | .str s => .ok s.length
  | .arr xs => .ok xs.length
  | .obj kvs => .ok kvs.length
  | _ => .error .typeError

/-- The interpreter's limit for digits of an integer literal. -/
def maxStrDigits : Nat := 4300

/-- `int(v)`: floats are truncated towards zero. -/
def toInt : Json → Except Foreign Int
  | .bool b => .ok (if b then 1 else 0)
  | .int n => .ok n
  | .float (.fin q) => .ok (if 0 ≤ q then ⌊q⌋ else ⌈q⌉)
  | .float .nan => .error (.valueError "cannot convert float NaN to integer")
  | .float _ => .error .overflowError
  | .str s =>
      if maxStrDigits < s.countP fun c => (decimalDigit c).isSome then
        .error (.valueError "Exceeds the limit for integer string conversion")
      else
        match intOfStr s with
        | some n => .ok n
        | none => .error (.valueError "invalid literal for int() with base 10")
  | _ => .error .typeError

/-- What a number is in arithmetic with a float. -/
def floatOperand : Json → Except Foreign PyFloat
  | .bool b => .ok (.fin (if b then 1 else 0))
  | .int n => if Binary64.Overflows n then .error .overflowError else .ok (.ofRat n)
  | .float x => .ok x
  | _ => .error .typeError

/-- `float(v)`. -/
def asFloat (v : Json) : Except Foreign PyFloat :=
  match v with
  | .str s =>
      match floatOfStr s with
      | some x => .ok x
      | none => .error (.valueError "could not convert string to float")
  | v => v.floatOperand

/-- The number in exact arithmetic. -/
def toFloat : Json → Except Foreign PyFloat
  | .bool b => .ok (.fin (if b then 1 else 0))
  | .int n => .ok (.fin n)
  | .float x => .ok x
  | _ => .error .typeError

/-- `uuid.UUID(v)`: anything but a string fails before it is parsed. -/
def toUuid : Json → Except Foreign Uuid
  | .str s =>
      match parseUuid s with
      | some u => .ok u
      | none => .error (.valueError "badly formed hexadecimal UUID string")
  | .null => .error .typeError
  | _ => .error .attributeError

/-- `v or {}` unpacked with `**`: a mapping, or nothing. -/
def orEmpty (v : Json) : Except Foreign Dict :=
  if v.truthy then
    match v with
    | .obj kvs => .ok kvs
    | _ => .error .typeError
  else .ok []

/-- `v.get(k)`: only a mapping has `get`. -/
def dictGet (v : Json) (k : PyStr) : Except Foreign (Option Json) :=
  match v with
  | .obj kvs => .ok (Dict.get kvs k)
  | _ => .error .attributeError

end Json

namespace PyFloat

/-- `x + q`. -/
def addRat : PyFloat → Rat → PyFloat
  | .fin p, q => .ofRat (p + q)
  | x, _ => x

/-- `x * q`, for a positive `q`. -/
def mulPos : PyFloat → Rat → PyFloat
  | .fin p, q => .ofRat (p * q)
  | x, _ => x

/-- `max(lo, min(hi, x))`: a comparison with NaN is false, so `min` keeps
its first argument. -/
def clamp (lo hi : Rat) : PyFloat → Rat
  | .fin p => max lo (min hi p)
  | .inf => max lo hi
  | .negInf => lo
  | .nan => max lo hi

end PyFloat

/-! ## text, whitespace aside -/

/-- What is left of a text without its whitespace. -/
def content (s : PyStr) : PyStr := s.filter fun c => !isSpace c

@[simp] theorem content_nil : content [] = [] := rfl

@[simp] theorem content_append (s t : PyStr) : content (s ++ t) = content s ++ content t :=
  List.filter_append ..

theorem content_eq_nil {s : PyStr} : content s = [] ↔ ∀ c ∈ s, isSpace c = true := by
  simp [content, List.filter_eq_nil_iff]

@[simp] theorem content_dropWhile (s : PyStr) : content (s.dropWhile isSpace) = content s := by
  conv_rhs => rw [← List.takeWhile_append_dropWhile (p := isSpace) (l := s)]
  have hspace : content (s.takeWhile isSpace) = [] :=
    content_eq_nil.2 (List.all_eq_true.1 List.all_takeWhile)
  rw [content_append, hspace, List.nil_append]

theorem content_reverse (s : PyStr) : content s.reverse = (content s).reverse :=
  List.filter_reverse ..

@[simp] theorem content_stripBy (s : PyStr) : content (stripBy isSpace s) = content s := by
  rw [stripBy, content_reverse, content_dropWhile, content_reverse, content_dropWhile,
    List.reverse_reverse]

/-- A cut with both sides trimmed. -/
theorem content_cut (s : PyStr) (n : Nat) :
    content (stripBy isSpace (s.take n)) ++ content ((s.drop n).dropWhile isSpace) =
      content s := by
  rw [content_stripBy, content_dropWhile, ← content_append, List.take_append_drop]

end NeuroVoice
