import Mongo.Util.TimeSupport

/-! What `dateFromISOString` reads from a text laid out as `iso8601` writes it: the tokens
`getNextToken` cuts, each field checked by `parseTmField`, the milliseconds and the zone.
`parseTm_isoLayout` says that on `yyyy-mm-ddThh:mm:ss.mmm` followed by a zone, `parseTm` parses
the six fields, the zone and the milliseconds of the layout and nothing else. -/

namespace Mongo.TimeSupport

open NumberParser

/-- A nonempty string of decimal digits. -/
def IsNumeral (cs : List Char) : Prop := cs ≠ [] ∧ ∀ c ∈ cs, c.isDigit = true

theorem isNumeral_padded (w n : Nat) : IsNumeral (Decimal.padded w n) := by
  refine ⟨?_, fun c h => Decimal.isDigit_of_mem_padded h⟩
  have : Nat.toDigits 10 n ≠ [] := Nat.toDigits_ne_nil
  simp [Decimal.padded, this]

/-! ## Fields -/

section Fields

variable {s : List Char}

theorem contains_digits (c : Char) : "0123456789".toList.contains c = c.isDigit := by
  have hl : "0123456789".toList = ['0', '1', '2', '3', '4', '5', '6', '7', '8', '9'] := by simp
  have h0 : '0'.toNat = 48 := rfl
  have h9 : '9'.toNat = 57 := rfl
  rw [Bool.eq_iff_iff, List.contains_iff_mem, Char.isDigit_iff_toNat, h0, h9, hl]
  simp only [List.mem_cons, List.not_mem_nil, or_false, ← Char.toNat_inj, Char.reduceToNat]
  omega

theorem isOnlyDigits_eq_true : isOnlyDigits s = true ↔ ∀ c ∈ s, c.isDigit = true := by
  simp only [isOnlyDigits, List.all_eq_true, contains_digits]

/-- The value of a numeral. -/
abbrev numeralValue (s : List Char) : Nat := Nat.ofDigitChars 10 s 0

theorem parseInt_numeral (h : IsNumeral s) (hv : numeralValue s ≤ 2 ^ 31 - 1) :
    parseInt s = .ok (numeralValue s) := by
  have hp := @parseInteger_of_digits IntegerLimits.int _ _ _ (extractSign_digits h.1 h.2) h.1 h.2 hv
    (by decide) (by simp)
  simp [parseInt, hp, Except.mapError]

/-- A sign followed by a numeral: `NumberParser` keeps the sign, also on zero. -/
theorem parseInt_sign_numeral {sign : Char} (hsign : sign = '+' ∨ sign = '-') (h : IsNumeral s)
    (hv : numeralValue s ≤ 2 ^ 31 - 1) :
    parseInt (sign :: s) = .ok (if sign = '-' then -(numeralValue s : Int) else numeralValue s) := by
  have hs : extractSign (sign :: s) = (decide (sign = '-'), s) := by
    rcases hsign with rfl | rfl <;> rfl
  have hp := @parseInteger_of_digits IntegerLimits.int _ _ _ hs h.1 h.2 hv (by decide) (fun _ => rfl)
  simp only [parseInt, hp, Except.mapError, decide_eq_true_eq]

theorem numeralValue_lt (h : IsNumeral s) : numeralValue s < 10 ^ s.length := by
  simpa using @Decimal.ofDigitChars_lt s 0 h.2

/-- A field of the right length reads as its value, which is then checked against its range. -/
theorem parseTmField_numeral {name lengthName : String} {length : Nat} {lo hi : Int}
    (hlen : s.length = length) (h : IsNumeral s) (hsmall : 10 ^ length ≤ 2 ^ 31) :
    parseTmField name lengthName length lo hi s =
      if (numeralValue s : Int) < lo ∨ (numeralValue s : Int) > hi then
        .error (.status (name ++ " out of range:  " ++ toString (numeralValue s : Int)))
      else .ok (numeralValue s) := by
  have hv := numeralValue_lt h
  rw [hlen] at hv
  have hdigits : isOnlyDigits s = true := isOnlyDigits_eq_true.mpr h.2
  simp only [parseTmField, hlen, ne_eq, not_true_eq_false, hdigits, Bool.not_true,
    Bool.false_eq_true, or_self, if_false, parseInt_numeral h (by omega), bind, Except.bind]
  split_ifs <;> rfl

/-- Three digits of milliseconds. -/
theorem parseMillisFromToken_numeral (hlen : s.length = 3) (h : IsNumeral s) :
    parseMillisFromToken s = .ok (numeralValue s) := by
  have hv := numeralValue_lt h
  rw [hlen] at hv
  have hdigits : isOnlyDigits s = true := isOnlyDigits_eq_true.mpr h.2
  have hne : s.isEmpty = false := by simpa using h.1
  simp [parseMillisFromToken, hne, hlen, hdigits, parseInt_numeral h (by omega), bind,
    Except.bind, pure, Except.pure]
  omega

theorem numeralValue_padded (w n : Nat) : numeralValue (Decimal.padded w n) = n :=
  Decimal.ofDigitChars_padded w n

theorem parseTmField_padded {name lengthName : String} (w n : Nat) (lo hi : Int) (hw : 0 < w)
    (hn : n < 10 ^ w) (hsmall : 10 ^ w ≤ 2 ^ 31) :
    parseTmField name lengthName w lo hi (Decimal.padded w n) =
      if (n : Int) < lo ∨ (n : Int) > hi then
        .error (.status (name ++ " out of range:  " ++ toString (n : Int)))
      else .ok n := by
  simpa only [numeralValue_padded] using
    @parseTmField_numeral (Decimal.padded w n) name lengthName w lo hi
      (Decimal.length_padded hw hn) (isNumeral_padded w n) hsmall

theorem parseTmField_padded_of_le {name lengthName : String} (w n : Nat) (lo hi : Int)
    (hw : 0 < w) (hn : n < 10 ^ w) (hsmall : 10 ^ w ≤ 2 ^ 31) (hlo : lo ≤ n) (hhi : n ≤ hi) :
    parseTmField name lengthName w lo hi (Decimal.padded w n) = .ok n := by
  rw [parseTmField_padded w n lo hi hw hn hsmall, if_neg (by omega)]

/-- Fields written in their widths and ranges read back as they were written, save a year before
1970, which fails its range check. -/
theorem parseTmFromTokens_padded {year mon mday hour min sec : Nat} (hyear : year < 10000)
    (hmon : 1 ≤ mon ∧ mon ≤ 12) (hmday : 1 ≤ mday ∧ mday ≤ 31) (hhour : hour ≤ 23) (hmin : min ≤ 59)
    (hsec : sec ≤ 59) :
    parseTmFromTokens (Decimal.padded 4 year) (Decimal.padded 2 mon) (Decimal.padded 2 mday)
        (Decimal.padded 2 hour) (Decimal.padded 2 min) (Decimal.padded 2 sec) =
      if year < 1970 then .error (.status ("Year out of range:  " ++ toString (year : Int)))
      else .ok ⟨sec, min, hour, mday, mon - 1, year - 1900, 0⟩ := by
  have hsecStr : (Decimal.padded 2 sec).isEmpty = false := by
    simpa using (isNumeral_padded 2 sec).1
  simp only [parseTmFromTokens, parseTmField_padded 4 year 1970 9999 (by decide) hyear (by decide),
    parseTmField_padded_of_le 2 mon 1 12 (by decide) (by omega) (by decide) (by omega) (by omega),
    parseTmField_padded_of_le 2 mday 1 31 (by decide) (by omega) (by decide) (by omega) (by omega),
    parseTmField_padded_of_le 2 hour 0 23 (by decide) (by omega) (by decide) (by omega) (by omega),
    parseTmField_padded_of_le 2 min 0 59 (by decide) (by omega) (by decide) (by omega) (by omega),
    parseTmField_padded_of_le 2 sec 0 59 (by decide) (by omega) (by decide) (by omega) (by omega),
    hsecStr]
  by_cases hy : year < 1970
  · simp [hy, bind, Except.bind]
  · rw [if_neg (by omega), if_neg hy]
    rfl

end Fields

/-! ## Zones -/

theorem parseTimeZoneFromToken_Z : parseTimeZoneFromToken ['Z'] = .ok 0 := rfl

/-- An offset `±hh:mm` in range. The sign is read with the hours, so on `-00:mm` it is lost
and the minutes count east of UTC. -/
theorem parseTimeZoneFromToken_offset {sign : Char} {hourStr minStr : List Char}
    (hsign : sign = '+' ∨ sign = '-') (hH : IsNumeral hourStr) (hHl : hourStr.length = 2)
    (hMi : IsNumeral minStr) (hMil : minStr.length = 2) (hhour : numeralValue hourStr ≤ 23)
    (hmin : numeralValue minStr ≤ 59) :
    parseTimeZoneFromToken (sign :: (hourStr ++ ':' :: minStr)) =
      .ok (if sign = '-' ∧ 0 < numeralValue hourStr
        then 3600 * numeralValue hourStr + 60 * numeralValue minStr
        else -(3600 * numeralValue hourStr + 60 * numeralValue minStr)) := by
  have hsigned := parseInt_sign_numeral hsign hH (by omega)
  have hunsigned := parseInt_numeral hMi (by omega)
  generalize numeralValue hourStr = hour at hhour hsigned ⊢
  generalize numeralValue minStr = min at hmin hunsigned ⊢
  obtain ⟨a, b, rfl⟩ := List.length_eq_two.mp hHl
  obtain ⟨c, d, rfl⟩ := List.length_eq_two.mp hMil
  have hiso : isOnlyDigits [a, b] = true ∧ isOnlyDigits [c, d] = true :=
    ⟨isOnlyDigits_eq_true.mpr hH.2, isOnlyDigits_eq_true.mpr hMi.2⟩
  have hnotZ : sign ≠ 'Z' := by rcases hsign with rfl | rfl <;> decide
  have hpm : sign = '+' ∨ sign = '-' := hsign
  simp only [parseTimeZoneFromToken, if_neg hnotZ, if_pos hpm, substr]
  -- every range check passes; what is left is the arithmetic of the offset
  rcases hsign with rfl | rfl
  · simp [hiso, hsigned, hunsigned, bind, Except.bind, pure, Except.pure]
    split_ifs <;> first | omega | (congr 1; omega)
  · simp [hiso, hsigned, hunsigned, bind, Except.bind, pure, Except.pure]
    split_ifs <;> first | omega | (congr 1; omega)

/-! ## Tokens -/

section Tokens

variable {s terminalChars tok rest : List Char} {i : Nat} {c : Char}

theorem sizeSucc_of_lt (h : i + 1 < 2 ^ 64) : sizeSucc i = i + 1 := Nat.mod_eq_of_lt h

theorem lt_length_of_drop (h : s.drop i = tok ++ c :: rest) : i + tok.length < s.length := by
  have hlen := congrArg List.length h
  simp only [List.length_drop, List.length_append, List.length_cons] at hlen
  omega

theorem drop_at_of_drop (h : s.drop i = tok ++ c :: rest) : s.drop (i + tok.length) = c :: rest := by
  rw [← List.drop_drop, h]
  simp

theorem drop_of_drop (h : s.drop i = tok ++ c :: rest) : s.drop (i + tok.length + 1) = rest := by
  rw [Nat.add_assoc, ← List.drop_drop, h]
  simp

theorem getD_of_drop (h : s.drop i = tok ++ c :: rest) (d : Char) :
    s.getD (i + tok.length) d = c := by
  have hget : s[i + tok.length]? = some c := by
    rw [← List.getElem?_drop, h]
    simp
  simp [List.getD_eq_getElem?_getD, hget]

/-- A token ends at the first terminal character after it. -/
theorem getNextToken_of_drop (h : s.drop i = tok ++ c :: rest) (hi : i ≠ npos)
    (htok : ∀ x ∈ tok, x ∉ terminalChars) (hc : c ∈ terminalChars) :
    getNextToken s terminalChars i = (tok, i + tok.length) := by
  have hw : (s.drop i).takeWhile (fun c => !terminalChars.contains c) = tok := by
    rw [h, List.takeWhile_append_of_pos (by simpa using htok),
      List.takeWhile_cons_of_neg (by simpa using hc), List.append_nil]
  simp only [getNextToken, if_neg hi, hw, if_pos (lt_length_of_drop h)]

/-- With no terminal characters the token runs to the end of the string. -/
theorem getNextToken_nil (hi : i ≤ s.length) (hi' : i ≠ npos) :
    getNextToken s [] i = (s.drop i, npos) := by
  have hw : (s.drop i).takeWhile (fun c => !([] : List Char).contains c) = s.drop i := by simp
  simp only [getNextToken, if_neg hi', hw, List.length_drop]
  rw [if_neg (by omega)]

theorem not_mem_of_isDigit {x : Char} (hx : x.isDigit = true)
    (ht : ∀ t ∈ terminalChars, t.isDigit = false) : x ∉ terminalChars := by
  intro hmem
  have := ht x hmem
  simp_all

/-- A numeral followed by a terminal character: its token, the index after it, and the rest of
the text from there. -/
theorem getNextToken_numeral (h : s.drop i = tok ++ c :: rest) (hlen : s.length < npos)
    (htok : IsNumeral tok) (ht : ∀ t ∈ terminalChars, t.isDigit = false) (hc : c ∈ terminalChars) :
    getNextToken s terminalChars i = (tok, i + tok.length) ∧
      sizeSucc (i + tok.length) = i + tok.length + 1 ∧ s.drop (i + tok.length + 1) = rest := by
  have hi := lt_length_of_drop h
  have hnpos : npos = 2 ^ 64 - 1 := rfl
  refine ⟨getNextToken_of_drop h (by omega) (fun x hx => not_mem_of_isDigit (htok.2 x hx) ht) hc,
    sizeSucc_of_lt (by omega), drop_of_drop h⟩

end Tokens

/-! ## The layout of a date -/

/-- `yyyy-mm-ddThh:mm:ss.mmm` followed by a zone, from its tokens. -/
def isoLayout (yearStr monthStr dayStr hourStr minStr secStr millisStr tzStr : List Char) :
    List Char :=
  yearStr ++ '-' :: (monthStr ++ '-' :: (dayStr ++ 'T' :: (hourStr ++ ':' :: (minStr ++ ':' ::
    (secStr ++ '.' :: (millisStr ++ tzStr))))))

section Layout

variable {yearStr monthStr dayStr hourStr minStr secStr millisStr tzStr : List Char}

theorem parseTm_isoLayout (hY : IsNumeral yearStr) (hM : IsNumeral monthStr)
    (hD : IsNumeral dayStr) (hH : IsNumeral hourStr) (hMi : IsNumeral minStr)
    (hS : IsNumeral secStr) (hMs : IsNumeral millisStr)
    (htz : ∃ c r, tzStr = c :: r ∧ c ∈ "+-Z".toList)
    (hlen : (isoLayout yearStr monthStr dayStr hourStr minStr secStr millisStr tzStr).length <
      npos) :
    parseTm (isoLayout yearStr monthStr dayStr hourStr minStr secStr millisStr tzStr) = (do
      let resultTm ← parseTmFromTokens yearStr monthStr dayStr hourStr minStr secStr
      let tzAdjSecs ← parseTimeZoneFromToken tzStr
      let resultMillis ← parseMillisFromToken millisStr
      return (resultTm, resultMillis, tzAdjSecs)) := by
  obtain ⟨c, r, rfl, hc⟩ := htz
  set s := isoLayout yearStr monthStr dayStr hourStr minStr secStr millisStr (c :: r) with hs
  -- each token starts where the one before it ended, one separator on
  have d0 : s.drop 0 = yearStr ++ '-' :: (monthStr ++ '-' :: (dayStr ++ 'T' :: (hourStr ++
      ':' :: (minStr ++ ':' :: (secStr ++ '.' :: (millisStr ++ c :: r)))))) := rfl
  obtain ⟨t0, e0, d1⟩ := @getNextToken_numeral _ "-".toList _ _ _ _ d0 hlen hY
    (by simp) (by simp)
  obtain ⟨t1, e1, d2⟩ := @getNextToken_numeral _ "-".toList _ _ _ _ d1 hlen hM
    (by simp) (by simp)
  obtain ⟨t2, e2, d3⟩ := @getNextToken_numeral _ "T".toList _ _ _ _ d2 hlen hD
    (by simp) (by simp)
  obtain ⟨t3, e3, d4⟩ := @getNextToken_numeral _ ":".toList _ _ _ _ d3 hlen hH
    (by simp) (by simp)
  obtain ⟨t4, e4, d5⟩ := @getNextToken_numeral _ ":+-Z".toList _ _ _ _ d4 hlen hMi
    (by simp) (by simp)
  have g4 := getD_of_drop d4 ' '
  have l5 := lt_length_of_drop d5
  obtain ⟨t5, e5, d6⟩ := @getNextToken_numeral _ ".+-Z".toList _ _ _ _ d5 hlen hS
    (by simp) (by simp)
  have g5 := getD_of_drop d5 ' '
  have l6 := lt_length_of_drop d6
  obtain ⟨t6, -, -⟩ := @getNextToken_numeral _ "+-Z".toList _ _ _ _ d6 hlen hMs
    (by simp) hc
  have tz := getNextToken_nil (s := s) (i := _ + millisStr.length) (le_of_lt l6) (by omega)
  rw [drop_at_of_drop d6] at tz
  have hnpos : npos = 2 ^ 64 - 1 := rfl
  have hS' : secStr ≠ [] := hS.1
  have hMs' : millisStr ≠ [] := hMs.1
  have hS0 : secStr.length ≠ 0 := by simpa using hS'
  have hMs0 : millisStr.length ≠ 0 := by simpa using hMs'
  -- the minutes end with a colon and the seconds with a period, neither at the end of the text
  set minEnd := 0 + yearStr.length + 1 + monthStr.length + 1 + dayStr.length + 1 + hourStr.length +
    1 + minStr.length
  set secEnd := minEnd + 1 + secStr.length
  set millisEnd := secEnd + 1 + millisStr.length
  have n4 : ¬ (minEnd = s.length - 1) := by omega
  have n5 : ¬ (secEnd = s.length - 1) := by omega
  have m4 : minEnd ≠ npos := by omega
  have m5 : secEnd ≠ npos := by omega
  have m6 : millisEnd ≠ npos := by omega
  simp only [parseTm, t0, e0, t1, e1, t2, e2, t3, e3, t4, e4, g4, t5, e5, g5, t6, tz, m4, m5, m6, n4,
    n5, List.isEmpty_iff, hS', hMs', ne_eq, not_false_eq_true, and_self, if_true, if_false,
    pure_bind]

end Layout

end Mongo.TimeSupport
