import NeuroVoice.Frontend.Numbers
import NeuroVoice.Lib.Regex

/-!
# NeuroVoice.Frontend.Normalize

`frontend/lang_packs/tr/normalize.py`, pass by pass.

The Unicode tables that `re` and `unicodedata` consult are a parameter,
`Unicode`, with the facts about them that the proofs use as its fields.
-/

namespace NeuroVoice

/-! ## Unicode -/

/-- `[A-Za-z0-9_]`. -/
def isAsciiWord (c : Nat) : Bool :=
  (0x30 ≤ c && c ≤ 0x39) || (0x41 ≤ c && c ≤ 0x5A) || c == 0x5F || (0x61 ≤ c && c ≤ 0x7A)

/-- The letters of Turkish outside ASCII. -/
def turkishLetters : PyStr := py "çğıöşüÇĞİÖŞÜâîûÂÎÛ"

/-- The keys of `_SYMBOL_MAP`, and their words. -/
def symbolMap : List (Nat × PyStr) :=
  [(0x25, py "yüzde"), (0x20BA, py "lira"), (0x20AC, py "euro"), (0x24, py "dolar"),
    (0xA3, py "sterlin"), (0x26, py "ve"), (0x2B, py "artı"), (0x3D, py "eşittir"),
    (0xD7, py "çarpı"), (0xF7, py "bölü")]

/-- `\\d`. -/
def isDigit (c : Nat) : Bool := (decimalDigit c).isSome

/-- What `re` and `unicodedata` know of the characters. -/
structure Unicode where
  /-- `\\w`. -/
  word : Nat → Bool
  /-- Equal under `re.IGNORECASE`. -/
  same : Nat → Nat → Bool
  /-- `unicodedata.normalize("NFKC", s)`. -/
  nfkc : PyStr → PyStr
  word_ascii : ∀ c, c < 128 → word c = isAsciiWord c
  word_turkish : ∀ c ∈ turkishLetters, word c = true
  word_digit : ∀ c, isDigit c = true → word c = true
  word_space : ∀ c, isSpace c = true → word c = false
  word_symbol : ∀ s ∈ symbolMap, word s.1 = false
  same_refl : ∀ c, same c c = true

/-- The small letter of an ASCII or Turkish letter that has one letter in
either case. -/
def lowerOf (c : Nat) : Nat :=
  if 0x41 ≤ c ∧ c ≤ 0x5A then c + 0x20
  else ((((py "ÇĞÖŞÜÂÎÛ").zip (py "çğöşüâîû")).find? fun p => p.1 = c).map Prod.snd).getD c

/-- White space by its code points. -/
def spaces : PyStr :=
  [9, 10, 11, 12, 13, 28, 29, 30, 31, 32, 0x85, 0xA0, 0x1680, 0x2000, 0x2001, 0x2002, 0x2003,
    0x2004, 0x2005, 0x2006, 0x2007, 0x2008, 0x2009, 0x200A, 0x2028, 0x2029, 0x202F, 0x205F, 0x3000]

theorem mem_spaces {c : Nat} (h : isSpace c = true) : c ∈ spaces := by
  simp only [isSpace, Bool.or_eq_true, Bool.and_eq_true, decide_eq_true_eq, beq_iff_eq] at h
  simp only [spaces, List.mem_cons, List.not_mem_nil, or_false]
  omega

/-- No digit is white space. -/
theorem isDigit_of_isSpace {c : Nat} (h : isSpace c = true) : isDigit c = false := by
  have hall : ∀ c ∈ spaces, isDigit c = false := by decide
  exact hall c (mem_spaces h)

/-- Enough of the tables for the texts of the examples: ASCII, the Turkish
letters, and every decimal digit. -/
def Unicode.turkish : Unicode where
  word c := isAsciiWord c || turkishLetters.contains c || isDigit c
  same c d := lowerOf c == lowerOf d
  nfkc s := s
  word_ascii := by decide +kernel
  word_turkish c hc := by simp [hc]
  word_digit c hc := by simp [hc]
  word_space c hc := by
    have hall : ∀ c ∈ spaces, (isAsciiWord c || turkishLetters.contains c) = false := by decide
    rw [hall c (mem_spaces hc), isDigit_of_isSpace hc]
    rfl
  word_symbol := by decide
  same_refl c := beq_self_eq_true _

/-! ## patterns -/

section patterns

variable (U : Unicode)

open Regex

/-- `-?`. -/
def signRe : Regex Nat := opt (char fun c => c = 0x2D)

/-- A number of a given form, not inside a word. -/
def standing (r : Regex Nat) : Regex Nat := seq (notBehind U.word) (seq r (notAhead U.word))

/-- `_DECIMAL_RE`. -/
def decimalRe : Regex Nat :=
  standing U (seq signRe (seq (plus (char isDigit)) (seq (char fun c => c = 0x2E || c = 0x2C)
    (plus (char isDigit)))))

/-- `_INTEGER_RE`. -/
def integerRe : Regex Nat :=
  standing U (seq signRe (seq (char isDigit) (upTo 14 (char isDigit))))

/-- `_THOUSAND_GROUPED_RE`. -/
def thousandGroupedRe : Regex Nat :=
  standing U (seq signRe (seq (seq (char isDigit) (upTo 2 (char isDigit)))
    (seq (plus (seq (char fun c => c = 0x2E) (times 3 (char isDigit))))
      (opt (seq (char fun c => c = 0x2C) (plus (char isDigit)))))))

/-- `_TIME_RE`. -/
def timeRe : Regex Nat :=
  standing U (seq
    (alt (seq (opt (char fun c => c = 0x30 || c = 0x31)) (char isDigit))
      (seq (char fun c => c = 0x32) (char fun c => 0x30 ≤ c && c ≤ 0x33)))
    (seq (char fun c => c = 0x3A) (seq (char fun c => 0x30 ≤ c && c ≤ 0x35) (char isDigit))))

/-- `_WHITESPACE_RE`. -/
def whitespaceRe : Regex Nat := plus (char fun c => c = 0x20 || c = 9 || c = 0xA0)

/-- `_MULTI_NEWLINE_RE`. -/
def multiNewlineRe : Regex Nat :=
  seq (times 3 (char fun c => c = 0x0A)) (star (char fun c => c = 0x0A))

/-- The pattern of an abbreviation: nothing is asked of what follows. -/
def abbreviationRe (abbr : PyStr) : Regex Nat := seq (notBehind U.word) (lit abbr)

/-- `\\btoken\\b`. -/
def tokenRe (token : PyStr) : Regex Nat :=
  seq (boundary U.word) (seq (lit token) (boundary U.word))

/-- A literal, ignoring case. -/
def litIgnoringCase : PyStr → Regex Nat
  | [] => eps
  | c :: cs => seq (char (U.same c)) (litIgnoringCase cs)

/-- `\\btoken\\b`, ignoring case. -/
def userTokenRe (token : PyStr) : Regex Nat :=
  seq (boundary U.word) (seq (litIgnoringCase U token) (boundary U.word))

end patterns

/-! ## word passes -/

/-- `_INVISIBLE_MARKS_RE`. -/
def isInvisible (c : Nat) : Bool :=
  (0x200B ≤ c && c ≤ 0x200F) || (0x202A ≤ c && c ≤ 0x202E) || c == 0x2060 || c == 0xFEFF

/-- `.replace("\\r\\n", "\\n").replace("\\r", "\\n")`. -/
def unixNewlines : PyStr → PyStr
  | [] => []
  | 0x0D :: 0x0A :: cs => 0x0A :: unixNewlines cs
  | c :: cs => (if c = 0x0D then 0x0A else c) :: unixNewlines cs

/-- `_ABBREVIATIONS`. -/
def abbreviations : List (PyStr × PyStr) :=
  [(py "TBMM", py "Türkiye Büyük Millet Meclisi"),
    (py "KKTC", py "Kuzey Kıbrıs Türk Cumhuriyeti"), (py "THY", py "Türk Hava Yolları"),
    (py "vb.", py "ve benzeri"), (py "vs.", py "vesaire"), (py "Prof.", py "profesör"),
    (py "Doç.", py "doçent"), (py "Dr.", py "doktor"), (py "Av.", py "avukat"),
    (py "Bn.", py "bayan"), (py "Sn.", py "sayın"), (py "Mah.", py "mahalle"),
    (py "Sok.", py "sokak"), (py "Cad.", py "cadde"), (py "No.", py "numara")]

/-- `_CODE_MIX_LEXICON`. -/
def codeMixLexicon : List (PyStr × PyStr) :=
  [(py "iPhone", py "aypın"), (py "iphone", py "aypın"), (py "Android", py "androyd"),
    (py "android", py "androyd"), (py "Bluetooth", py "blutut"), (py "bluetooth", py "blutut"),
    (py "WiFi", py "vayfay"), (py "wifi", py "vayfay"), (py "Google", py "gugıl"),
    (py "google", py "gugıl"), (py "Apple", py "epıl"), (py "apple", py "epıl"),
    (py "Microsoft", py "maykrosoft"), (py "YouTube", py "yutub"), (py "youtube", py "yutub")]

section words

variable (U : Unicode)

/-- `_expand_abbreviations`. -/
def expandAbbreviations (text : PyStr) : PyStr :=
  abbreviations.foldl (fun t a => (abbreviationRe U a.1).sub (fun _ => a.2) t) text

/-- `_expand_code_mix`. -/
def expandCodeMix (text : PyStr) : PyStr :=
  codeMixLexicon.foldl (fun t a => (tokenRe U a.1).sub (fun _ => a.2) t) text

/-- `_expand_symbols`. -/
def expandSymbols (text : PyStr) : PyStr :=
  symbolMap.foldl
    (fun t s => t.flatMap fun c => if c = s.1 then 0x20 :: s.2 ++ [0x20] else [c]) text

end words

/-! ## number passes -/

/-- `_expand_time`: the groups are the digits before and after the colon. -/
def expandTime (m : PyStr) : Except Foreign PyStr := do
  let hh := m.takeWhile fun c => c != 0x3A
  let mm := (m.dropWhile fun c => c != 0x3A).drop 1
  let hWords ← numberToTurkish (← intOf hh)
  let mInt ← intOf mm
  if mInt = 0 then return py "saat " ++ hWords
  return py "saat " ++ hWords ++ 0x20 :: (← numberToTurkish mInt)

/-- The sign of a match, in words, and what follows it. -/
def signOf (m : PyStr) : PyStr × PyStr :=
  if m.head? = some 0x2D then (py "eksi ", m.drop 1) else ([], m)

/-- `s.replace(".", "")`. -/
def withoutDots (s : PyStr) : PyStr := s.filter fun c => c != 0x2E

/-- `_expand_thousand_grouped`. -/
def expandThousandGrouped (m : PyStr) : Except Foreign PyStr := do
  let (sign, raw) := signOf m
  if raw.contains 0x2C then
    let intPart := raw.takeWhile fun c => c != 0x2C
    let fracPart := (raw.dropWhile fun c => c != 0x2C).drop 1
    return sign ++ (← decimalToTurkish (withoutDots intPart ++ 0x2E :: fracPart))
  return sign ++ (← numberToTurkish (← intOf (withoutDots raw)))

/-- `_expand_decimal`. -/
def expandDecimal (m : PyStr) : Except Foreign PyStr := decimalToTurkish m

/-- `_expand_integer`. -/
def expandInteger (m : PyStr) : Except Foreign PyStr := do
  let (sign, raw) := signOf m
  return sign ++ (← numberToTurkish (← intOf raw))

/-! ## pronunciation overrides -/

/-- A piece of a replacement template: the patterns here have no groups but the
whole match. -/
inductive TemplatePiece where
  | literal (c : Nat)
  | whole

/-- `re.error`. -/
def reError (msg : String) : Foreign := .other msg

/-- `[0-7]`. -/
def isOctal (c : Nat) : Bool := 0x30 ≤ c && c ≤ 0x37

/-- `[0-9]`. -/
def isAsciiDigit (c : Nat) : Bool := 0x30 ≤ c && c ≤ 0x39

/-- The value of octal digits. -/
def octalValue (ds : PyStr) : Nat := ds.foldl (fun n d => n * 8 + (d - 0x30)) 0

/-- What follows `\\g`: the piece, and how many characters it takes. -/
def groupReference (cs : PyStr) : Except Foreign (List TemplatePiece × Nat) :=
  let name := (cs.drop 1).takeWhile fun c => c != 0x3E
  if cs.head? ≠ some 0x3C then .error (reError "missing <")
  else if !(cs.drop 1).contains 0x3E then .error (reError "missing >, unterminated name")
  else if name.isEmpty then .error (reError "missing group name")
  else if name.all fun c => c = 0x30 then .ok ([.whole], name.length + 2)
  else if name.all isAsciiDigit then .error (reError "invalid group reference")
  else .error (reError "unknown group name")

/-- `\\a`, `\\b`, `\\f`, `\\n`, `\\r`, `\\t`, `\\v` and `\\\\`. -/
def controlEscapes : List (Nat × Nat) :=
  [(0x61, 7), (0x62, 8), (0x66, 0x0C), (0x6E, 0x0A), (0x72, 0x0D), (0x74, 9), (0x76, 0x0B),
    (0x5C, 0x5C)]

/-- What follows a backslash and `c`, a digit from 1 on: three octal digits are
a character, anything else is a group that does not exist. -/
def digitEscape (c : Nat) (cs : PyStr) : Except Foreign (List TemplatePiece × Nat) :=
  let ds := c :: cs.take 2
  if ds.length = 3 ∧ ds.all isOctal then
    if 0xFF < octalValue ds then .error (reError "octal escape value outside of range 0-0o377")
    else .ok ([.literal (octalValue ds)], 3)
  else .error (reError "invalid group reference")

/-- What follows a backslash: the pieces, and how many characters they take. -/
def templateEscape : PyStr → Except Foreign (List TemplatePiece × Nat)
  | [] => .error (reError "bad escape (end of pattern)")
  | c :: cs =>
      if c = 0x67 then (groupReference cs).map fun r => (r.1, r.2 + 1)
      else if c = 0x30 then
        let ds := (cs.take 2).takeWhile isOctal
        .ok ([.literal (octalValue ds % 256)], ds.length + 1)
      else if isAsciiDigit c then digitEscape c cs
      else
        match controlEscapes.find? fun e => e.1 = c with
        | some e => .ok ([.literal e.2], 1)
        | none =>
            if (0x41 ≤ c && c ≤ 0x5A) || (0x61 ≤ c && c ≤ 0x7A) then .error (reError "bad escape")
            else .ok ([.literal 0x5C, .literal c], 1)

/-- `parse_template`; `k` counts the characters of an escape still to be
passed. -/
def parseTemplate : Nat → PyStr → Except Foreign (List TemplatePiece)
  | _, [] => .ok []
  | k + 1, _ :: cs => parseTemplate k cs
  | 0, c :: cs =>
      if c = 0x5C then do
        let (pieces, k) ← templateEscape cs
        return pieces ++ (← parseTemplate k cs)
      else do return .literal c :: (← parseTemplate 0 cs)

/-- The replacement of a match. -/
def fillTemplate (ps : List TemplatePiece) (m : PyStr) : PyStr :=
  ps.flatMap fun p =>
    match p with
    | .literal c => [c]
    | .whole => m

section passes

variable (U : Unicode)

/-- One entry of the mapping: the template is read even if nothing matches. -/
def applyOverride (entry : PyStr × PyStr) (text : PyStr) : Except Foreign PyStr :=
  if entry.1.isEmpty then .ok text
  else do
    let template ← parseTemplate 0 entry.2
    return (userTokenRe U entry.1).sub (fillTemplate template) text

/-- `_expand_user_pronunciation`. -/
def expandUserPronunciation (mapping : List (PyStr × PyStr)) (text : PyStr) :
    Except Foreign PyStr :=
  mapping.foldlM (fun t entry => applyOverride U entry t) text

/-! ## the pipeline -/

/-- The text before any expansion. -/
def cleanText (text : PyStr) : PyStr :=
  unixNewlines (U.nfkc (text.filter fun c => !isInvisible c))

/-- The four number passes. -/
def expandNumbers (text : PyStr) : Except Foreign PyStr := do
  let text ← (timeRe U).trySub expandTime text
  let text ← (thousandGroupedRe U).trySub expandThousandGrouped text
  let text ← (decimalRe U).trySub expandDecimal text
  (integerRe U).trySub expandInteger text

/-- The passes behind the numbers. -/
def finishText (text : PyStr) : PyStr :=
  let text := whitespaceRe.sub (fun _ => [0x20]) (expandSymbols text)
  stripBy isSpace (multiNewlineRe.sub (fun _ => [0x0A, 0x0A]) text)

/-- `normalize_text`; no dictionary is an empty one. -/
def normalizeText (mapping : List (PyStr × PyStr)) (text : PyStr) : Except Foreign PyStr := do
  if text.isEmpty then return []
  let text := expandAbbreviations U (cleanText U text)
  let text ← expandUserPronunciation U mapping text
  let text ← expandNumbers U (expandCodeMix U text)
  return finishText text

end passes

end NeuroVoice
