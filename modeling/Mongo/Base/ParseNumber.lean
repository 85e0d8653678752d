import Mongo.Decimal

/-! `NumberParser` of `base/parse_number.cpp` for the integer types: leading whitespace when
asked for, a sign, a base prefix, and digits accumulated with overflow checks on 64 bits, then
the range of the target type. A string of decimal digits, with or without a sign, parses as the
number it stands for when that fits the type (`parseInteger_of_digits`). -/

namespace Mongo

/-- The statuses `NumberParser` fails with: `ErrorCodes::BadValue`, `FailedToParse` and
`Overflow`, each with its reason. -/
inductive ParseNumberError
  | BadValue (reason : String)
  | FailedToParse (reason : String)
  | Overflow (reason : String)
  deriving DecidableEq, Repr

/-- `Status::reason()`. -/
def ParseNumberError.reason : ParseNumberError → String
  | .BadValue r | .FailedToParse r | .Overflow r => r

/-- `NumberParser`: the settings of a parse. -/
structure NumberParser where
  base : Int := 0
  skipLeadingWhitespace : Bool := false
  allowTrailingText : Bool := false

/-- An integer type, by `numeric_limits<NumberType>`: whether it is signed, and its largest
value. -/
structure IntegerLimits where
  isSigned : Bool
  max : Nat

/-- `int`. -/
def IntegerLimits.int : IntegerLimits := ⟨true, 2 ^ 31 - 1⟩

namespace NumberParser

/-- `_digitValue(c)`: the value of a digit of any base up to 36, and 36 for no digit. -/
def digitValue (c : Char) : Nat :=
  if '0' ≤ c ∧ c ≤ '9' then c.toNat - '0'.toNat
  else if 'a' ≤ c ∧ c ≤ 'z' then c.toNat - 'a'.toNat + 10
  else if 'A' ≤ c ∧ c ≤ 'Z' then c.toNat - 'A'.toNat + 10
  else 36

/-- `_extractSign`: whether the string starts with `-`, and the string without its sign. -/
def extractSign : List Char → Bool × List Char
  | '-' :: s => (true, s)
  | '+' :: s => (false, s)
  | s => (false, s)

/-- `_extractBase`: the base to read in, following `strtol` for base 0, and the string without a
`0x` prefix where it is read in base 16. -/
def extractBase (stringValue : List Char) (inputBase : Int) : Nat × List Char :=
  let hexPrefix := stringValue.take 2 = ['0', 'x'] ∨ stringValue.take 2 = ['0', 'X']
  if inputBase = 0 then
    if stringValue.length > 2 ∧ hexPrefix then (16, stringValue.drop 2)
    else if stringValue.length > 1 ∧ stringValue.head? = some '0' then (8, stringValue)
    else (10, stringValue)
  else if inputBase = 16 ∧ hexPrefix then (16, stringValue.drop 2)
  else (inputBase.toNat, stringValue)

/-- `isspace` in the C locale. -/
def isSpace (c : Char) : Bool :=
  c = ' ' ∨ c = '\t' ∨ c = '\n' ∨ c = '\x0b' ∨ c = '\x0c' ∨ c = '\r'

/-- `removeLeadingWhitespace`. -/
def removeLeadingWhitespace (s : List Char) : List Char := s.dropWhile isSpace

/-- The loop of `parseMagnitudeFromStringWithBase`: the value so far and the characters
consumed, up to the first character that is no digit of the base. -/
def parseMagnitudeLoop (base : Nat) : Nat → Nat → List Char → Except ParseNumberError (Nat × Nat)
  | n, charsConsumed, [] => .ok (n, charsConsumed)
  | n, charsConsumed, digitChar :: rest =>
    if digitValue digitChar ≥ base then .ok (n, charsConsumed)
    -- `n = n * base + digitValue`, checked for overflow of `uint64_t` at each step
    else if n * base ≥ 2 ^ 64 then .error (.Overflow "Overflow")
    else if n * base + digitValue digitChar ≥ 2 ^ 64 then .error (.Overflow "Overflow")
    else parseMagnitudeLoop base (n * base + digitValue digitChar) (charsConsumed + 1) rest

/-- `parseMagnitudeFromStringWithBase`. -/
def parseMagnitudeFromStringWithBase (base : Nat) (magnitudeStr : List Char)
    (allowTrailingText : Bool) : Except ParseNumberError Nat := do
  let (n, charsConsumed) ← parseMagnitudeLoop base 0 0 magnitudeStr
  if !allowTrailingText && charsConsumed ≠ magnitudeStr.length then
    throw (.FailedToParse "Did not consume whole string.")
  if charsConsumed = 0 then throw (.FailedToParse "Did not consume any digits")
  return n

/-- `parseNumberFromStringHelper` for an integer type: `NumberParser()(s, &result)`. -/
def parseInteger (parser : NumberParser) (limits : IntegerLimits) (s : List Char) :
    Except ParseNumberError Int := do
  if parser.base = 1 ∨ parser.base < 0 ∨ parser.base > 36 then
    throw (.BadValue "Invalid parser._base")
  let s := if parser.skipLeadingWhitespace then removeLeadingWhitespace s else s
  -- Separate the magnitude from modifiers such as sign and base prefixes such as "0x"
  let (isNegative, unsigned) := extractSign s
  let (base, magnitudeStr) := extractBase unsigned parser.base
  if isNegative && !limits.isSigned then throw (.FailedToParse "Negative value")
  if magnitudeStr.isEmpty then throw (.FailedToParse "No digits")
  let magnitude ← parseMagnitudeFromStringWithBase base magnitudeStr parser.allowTrailingText
  -- The range of 2's complement integers is from -(max + 1) to +max.
  let maxMagnitude := limits.max + if isNegative then 1 else 0
  if magnitude > maxMagnitude then throw (.Overflow "Overflow")
  return if isNegative then -(magnitude : Int) else magnitude

/-! ## Strings of decimal digits -/

theorem digitValue_of_isDigit {c : Char} (h : c.isDigit = true) :
    digitValue c = c.toNat - '0'.toNat := by
  have h' : '0' ≤ c ∧ c ≤ '9' := by
    simp only [Char.isDigit, Bool.and_eq_true, decide_eq_true_eq] at h
    exact h
  rw [digitValue, if_pos h']

theorem digitValue_lt_ten {c : Char} (h : c.isDigit = true) : digitValue c < 10 := by
  have hc := Char.isDigit_iff_toNat.mp h
  have h0 : '0'.toNat = 48 := rfl
  have h9 : '9'.toNat = 57 := rfl
  rw [digitValue_of_isDigit h]
  omega

/-- Over decimal digits, the loop accumulates their value, as long as it fits 64 bits. -/
theorem parseMagnitudeLoop_digits : ∀ {cs : List Char} {n k : Nat},
    (∀ c ∈ cs, c.isDigit = true) → Nat.ofDigitChars 10 cs n < 2 ^ 64 →
      parseMagnitudeLoop 10 n k cs = .ok (Nat.ofDigitChars 10 cs n, k + cs.length)
  | [], n, k, _, _ => by simp [parseMagnitudeLoop]
  | c :: cs, n, k, hd, hlt => by
    have hc := hd c List.mem_cons_self
    have hrest : ∀ c ∈ cs, c.isDigit = true := fun c' h => hd c' (List.mem_cons_of_mem c h)
    rw [Nat.ofDigitChars_cons, ← digitValue_of_isDigit hc] at hlt ⊢
    -- the value so far never exceeds the whole value
    have hstep : 10 * n + digitValue c ≤ Nat.ofDigitChars 10 cs (10 * n + digitValue c) := by
      rw [Nat.ofDigitChars_eq_ofDigitChars_zero]
      exact le_trans (Nat.le_mul_of_pos_left _ (Nat.pow_pos (by decide))) (Nat.le_add_right _ _)
    have hv := digitValue_lt_ten hc
    rw [parseMagnitudeLoop, if_neg (by omega), if_neg (by omega), if_neg (by omega),
      Nat.mul_comm n 10, parseMagnitudeLoop_digits hrest hlt]
    simp only [List.length_cons, Nat.add_assoc, Nat.add_comm 1]

theorem parseMagnitude_digits {cs : List Char} (hne : cs ≠ []) (hd : ∀ c ∈ cs, c.isDigit = true)
    (hlt : Nat.ofDigitChars 10 cs 0 < 2 ^ 64) (allowTrailingText : Bool) :
    parseMagnitudeFromStringWithBase 10 cs allowTrailingText = .ok (Nat.ofDigitChars 10 cs 0) := by
  have hlen : cs.length ≠ 0 := by simpa using hne
  simp only [parseMagnitudeFromStringWithBase, parseMagnitudeLoop_digits hd hlt, Nat.zero_add, ne_eq,
    not_true_eq_false, decide_false, Bool.and_false, Bool.false_eq_true, if_false, hlen, bind,
    Except.bind, pure, Except.pure]

/-- A string whose sign part is `isNegative` and whose rest is a nonempty string of decimal
digits parses as the signed value of the digits, when that fits the type. -/
theorem parseInteger_of_digits {limits : IntegerLimits} {s cs : List Char} {isNegative : Bool}
    (hs : extractSign s = (isNegative, cs)) (hne : cs ≠ []) (hd : ∀ c ∈ cs, c.isDigit = true)
    (hmax : Nat.ofDigitChars 10 cs 0 ≤ limits.max) (hlim : limits.max < 2 ^ 64)
    (hsigned : isNegative = true → limits.isSigned = true) :
    parseInteger { base := 10 } limits s =
      .ok (if isNegative then -(Nat.ofDigitChars 10 cs 0 : Int) else Nat.ofDigitChars 10 cs 0) := by
  have hmag := parseMagnitude_digits hne hd (by omega) false
  have hbase : extractBase cs 10 = (10, cs) := by simp [extractBase]
  have hempty : cs.isEmpty = false := by simpa using hne
  cases isNegative
  · simp [parseInteger, hs, hbase, hmag, hempty, bind, Except.bind, pure, Except.pure]
    exact hmax
  · simp [parseInteger, hs, hbase, hmag, hempty, hsigned rfl, bind, Except.bind, pure,
      Except.pure]
    omega

/-- A nonempty string of decimal digits has no sign of its own. -/
theorem extractSign_digits {cs : List Char} (hne : cs ≠ []) (hd : ∀ c ∈ cs, c.isDigit = true) :
    extractSign cs = (false, cs) := by
  obtain ⟨c, cs', rfl⟩ := List.exists_cons_of_ne_nil hne
  have hc := hd c List.mem_cons_self
  have hminus : c ≠ '-' := by
    rintro rfl
    exact absurd hc (by decide)
  have hplus : c ≠ '+' := by
    rintro rfl
    exact absurd hc (by decide)
  simp [extractSign, hminus, hplus]

end NumberParser

end Mongo
