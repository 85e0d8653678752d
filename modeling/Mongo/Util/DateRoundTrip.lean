import Mongo.Util.DateParse

/-! Dates through ISO 8601 text and back. `iso8601` writes the fields of the broken-down time in
their widths (`iso8601_eq_tmText`); `parseTm` reads them back, and a year before 1970 fails its
range check (`parseTm_tmText`). The zone `Z` reads as no offset, and `+hh:mm` as the offset it was
written from, except `-00:mm`, whose sign is lost (`parseTimeZoneFromToken_localZone`).
`dateFromISOString_iso8601` puts these together: the date read back from the text of a
formattable date, in UTC or in a zone `z` minutes east, for every date and zone. -/

namespace Mongo.TimeSupport

open Civil

/-! ## Writing a date -/

theorem strftime_dateTime (t : Tm) : strftime "%Y-%m-%dT%H:%M:%S".toList t =
    zeroPadded 1 (t.tmYear + 1900) ++ '-' :: (zeroPadded 2 (t.tmMon + 1) ++ '-' ::
      (zeroPadded 2 t.tmMday ++ 'T' :: (zeroPadded 2 t.tmHour ++ ':' :: (zeroPadded 2 t.tmMin ++
        ':' :: zeroPadded 2 t.tmSec)))) := by
  simp [strftime, strftimeConversion]

theorem strftime_zone (t : Tm) : strftime "%z:".toList t = strftimeZone t.tmGmtoff ++ [':'] := by
  simp [strftime, strftimeConversion]

theorem zeroPadded_of_nonneg {w : Nat} {n : Int} (h : 0 ≤ n) :
    zeroPadded w n = Decimal.padded w n.toNat := by
  simp [zeroPadded, not_lt.mpr h]

/-- The text of a broken-down time, its milliseconds and a zone, laid out as `iso8601` writes
them. -/
def tmText (t : Tm) (millis : Int) (zone : List Char) : List Char :=
  isoLayout (zeroPadded 1 (t.tmYear + 1900)) (zeroPadded 2 (t.tmMon + 1)) (zeroPadded 2 t.tmMday)
    (zeroPadded 2 t.tmHour) (zeroPadded 2 t.tmMin) (zeroPadded 2 t.tmSec) (zeroPadded 3 millis) zone

/-- The zone of local time: `%z:` rotated from `+hhmm:` into `+hh:mm`. -/
def localZone (gmtoff : Int) : List Char := (rotate 3 5 6 (strftimeZone gmtoff ++ [':'])).take 6

theorem iso8601_eq_tmText {z : Int} {d : DateT} {isLocal : Bool} (hd : d.isFormattable = true) :
    iso8601 z d isLocal = some (tmText (timeTToStruct z d.toTimeT isLocal) (d.millis.tmod 1000)
      (if isLocal then localZone (60 * z) else ['Z'])) := by
  simp only [iso8601, hd, Bool.not_true, Bool.false_eq_true, if_false, strftime_dateTime,
    strftime_zone, tmText, isoLayout, localZone]
  cases isLocal <;> simp [timeTToStruct, localtime]

/-! ## Broken-down time -/

/-- Local time is the broken-down time of the time moved by the offset, with the offset. -/
theorem timeTToStruct_eq (z t : Int) (isLocal : Bool) :
    timeTToStruct z t isLocal = { gmtime (if isLocal then t + 60 * z else t) with
      tmGmtoff := if isLocal then 60 * z else 0 } := by
  cases isLocal <;> rfl

/-- The fields of a broken-down time in the ranges `strftime` writes them in and
`parseTmFromTokens` reads them in, with a year of four digits. -/
structure Tm.InRange (t : Tm) : Prop where
  sec : 0 ≤ t.tmSec ∧ t.tmSec ≤ 59
  min : 0 ≤ t.tmMin ∧ t.tmMin ≤ 59
  hour : 0 ≤ t.tmHour ∧ t.tmHour ≤ 23
  mday : 1 ≤ t.tmMday ∧ t.tmMday ≤ 31
  mon : 0 ≤ t.tmMon ∧ t.tmMon ≤ 11
  year : 1000 ≤ t.tmYear + 1900 ∧ t.tmYear + 1900 ≤ 9999

theorem Tm.InRange.of_gmtoff {t : Tm} (g : Int) (h : t.InRange) : { t with tmGmtoff := g }.InRange :=
  ⟨h.sec, h.min, h.hour, h.mday, h.mon, h.year⟩

/-- From 1969 to the end of 9999 the broken-down time is in range. -/
theorem gmtime_inRange {t : Int} (h0 : -31536000 ≤ t) (h1 : t < 253402300800) :
    (gmtime t).InRange := by
  obtain ⟨hm, hm', hd, hd'⟩ := civilFromDays_bounds (t / 86400)
  -- the year is found from the day numbers of 1969-01-01 and 10000-01-01
  have hlo := (year_civilFromDays_lt_iff (t / 86400) 1969).not.mpr
    (by rw [show daysFromCivil ⟨1969, 1, 1⟩ = -365 by decide]; omega)
  have hhi := (year_civilFromDays_lt_iff (t / 86400) 10000).mpr
    (by rw [show daysFromCivil ⟨10000, 1, 1⟩ = 2932897 by decide]; omega)
  refine ⟨?_, ?_, ?_, ⟨hd, hd'⟩, ?_, ?_⟩ <;> simp only [gmtime] <;> omega

theorem gmtime_year_lt_iff (t : Int) : (gmtime t).tmYear + 1900 < 1970 ↔ t < 0 := by
  have hyear := year_civilFromDays_lt_iff (t / 86400) 1970
  rw [show daysFromCivil ⟨1970, 1, 1⟩ = 0 by decide] at hyear
  simp only [gmtime]
  omega

theorem gmtime_year (t : Int) : (gmtime t).tmYear + 1900 = (civilFromDays (t / 86400)).year := by
  simp [gmtime]

/-- `timegm` inverts `gmtime`. -/
theorem timegm_gmtime (t : Int) : timegm (gmtime t) = t := by
  obtain ⟨hm, hm', -, -⟩ := civilFromDays_bounds (t / 86400)
  have hdays := daysFromCivil_civilFromDays (t / 86400)
  simp only [timegm, gmtime]
  generalize civilFromDays (t / 86400) = date at hm hm' hdays ⊢
  -- a month counted from 0 leaves the year as it is
  have hdiv : (date.month - 1) / 12 = 0 := Int.ediv_eq_zero_of_lt (by omega) (by omega)
  have hmod : (date.month - 1) % 12 + 1 = date.month := by omega
  have hdate : (⟨date.year - 1900 + 1900 + (date.month - 1) / 12, (date.month - 1) % 12 + 1,
      date.day⟩ : Date) = date := by
    rw [hdiv, hmod]
    simp
  rw [hdate, hdays]
  omega

/-! ## Reading a date back -/

theorem length_isoLayout (yearStr monthStr dayStr hourStr minStr secStr millisStr tzStr : List Char) :
    (isoLayout yearStr monthStr dayStr hourStr minStr secStr millisStr tzStr).length =
      yearStr.length + monthStr.length + dayStr.length + hourStr.length + minStr.length +
        secStr.length + millisStr.length + tzStr.length + 6 := by
  simp only [isoLayout, List.length_append, List.length_cons]
  omega

/-- `parseTm` reads a broken-down time in range back from its text, unless its year is before
1970. -/
theorem parseTm_tmText {t : Tm} {millis : Int} {zone : List Char} (ht : t.InRange)
    (hms : 0 ≤ millis ∧ millis ≤ 999) (hzone : ∃ c r, zone = c :: r ∧ c ∈ "+-Z".toList)
    (hzl : zone.length ≤ 6) :
    parseTm (tmText t millis zone) =
      if t.tmYear + 1900 < 1970 then
        .error (.status ("Year out of range:  " ++ toString (t.tmYear + 1900)))
      else do
        let tzAdjSecs ← parseTimeZoneFromToken zone
        return ({ t with tmGmtoff := 0 }, millis, tzAdjSecs) := by
  obtain ⟨hsec, hmin, hhour, hmday, hmon, hyear⟩ := ht
  -- every field is written without a sign, the year in four digits
  have hyearText : zeroPadded 1 (t.tmYear + 1900) = Decimal.padded 4 (t.tmYear + 1900).toNat := by
    rw [zeroPadded_of_nonneg (by omega), Decimal.padded_eq_padded (v := 1) (w := 4) (by decide)]
    omega
  simp only [tmText, hyearText, zeroPadded_of_nonneg (by omega : 0 ≤ t.tmMon + 1),
    zeroPadded_of_nonneg (by omega : 0 ≤ t.tmMday), zeroPadded_of_nonneg hhour.1, zeroPadded_of_nonneg hmin.1,
    zeroPadded_of_nonneg hsec.1, zeroPadded_of_nonneg hms.1]
  have hlen : (isoLayout (Decimal.padded 4 (t.tmYear + 1900).toNat)
      (Decimal.padded 2 (t.tmMon + 1).toNat) (Decimal.padded 2 t.tmMday.toNat)
      (Decimal.padded 2 t.tmHour.toNat) (Decimal.padded 2 t.tmMin.toNat)
      (Decimal.padded 2 t.tmSec.toNat) (Decimal.padded 3 millis.toNat) zone).length < npos := by
    rw [length_isoLayout, Decimal.length_padded (by decide) (by omega),
      Decimal.length_padded (by decide) (by omega), Decimal.length_padded (by decide) (by omega),
      Decimal.length_padded (by decide) (by omega), Decimal.length_padded (by decide) (by omega),
      Decimal.length_padded (by decide) (by omega), Decimal.length_padded (by decide) (by omega)]
    have hnpos : npos = 2 ^ 64 - 1 := rfl
    omega
  rw [parseTm_isoLayout (isNumeral_padded _ _) (isNumeral_padded _ _) (isNumeral_padded _ _)
    (isNumeral_padded _ _) (isNumeral_padded _ _) (isNumeral_padded _ _) (isNumeral_padded _ _)
    hzone hlen]
  rw [parseTmFromTokens_padded (by omega) (by omega) (by omega) (by omega) (by omega) (by omega),
    parseMillisFromToken_numeral (Decimal.length_padded (by decide) (by omega))
      (isNumeral_padded _ _), numeralValue_padded]
  -- the numbers read are the fields themselves
  have hyearLt : (t.tmYear + 1900).toNat < 1970 ↔ t.tmYear + 1900 < 1970 := by omega
  simp only [hyearLt, Int.toNat_of_nonneg hsec.1, Int.toNat_of_nonneg hmin.1,
    Int.toNat_of_nonneg hhour.1, Int.toNat_of_nonneg (by omega : 0 ≤ t.tmMday),
    Int.toNat_of_nonneg (by omega : 0 ≤ t.tmMon + 1), Int.toNat_of_nonneg (by omega : 0 ≤ t.tmYear + 1900),
    Int.toNat_of_nonneg hms.1, add_sub_cancel_right]
  split_ifs <;> rfl

/-- The text of a broken-down time from 1969 on, in UTC or moved by an offset, reads back as
that time, unless it is before the epoch. -/
theorem parseTm_gmtime (secs gmtoff : Int) {millis : Int} {zone : List Char}
    (hsecs : -31536000 ≤ secs ∧ secs < 253402300800) (hms : 0 ≤ millis ∧ millis ≤ 999)
    (hzone : ∃ c r, zone = c :: r ∧ c ∈ "+-Z".toList) (hzl : zone.length ≤ 6) :
    parseTm (tmText { gmtime secs with tmGmtoff := gmtoff } millis zone) =
      if secs < 0 then
        .error (.status ("Year out of range:  " ++ toString (civilFromDays (secs / 86400)).year))
      else do
        let tzAdjSecs ← parseTimeZoneFromToken zone
        return (gmtime secs, millis, tzAdjSecs) := by
  rw [parseTm_tmText ((gmtime_inRange hsecs.1 hsecs.2).of_gmtoff gmtoff) hms hzone hzl]
  dsimp only
  -- the fields read are those of `gmtime secs`, whose offset is zero
  simp only [gmtime_year_lt_iff]
  simp only [gmtime_year]
  rfl

/-! ## Zones -/

/-- `%z` of an offset of `hh` hours and `mm` minutes: the sign, then `hhmm`. -/
theorem strftimeZone_eq (gmtoff : Int) :
    strftimeZone gmtoff = (if gmtoff < 0 then '-' else '+') ::
      Decimal.padded 4 (gmtoff.natAbs / 60 / 60 * 100 + gmtoff.natAbs / 60 % 60) := rfl

/-- The rotation moves the colon between the hours and the minutes. -/
theorem localZone_eq (gmtoff : Int) (h : gmtoff.natAbs / 60 / 60 < 100) :
    let hhmm := Decimal.padded 4 (gmtoff.natAbs / 60 / 60 * 100 + gmtoff.natAbs / 60 % 60)
    localZone gmtoff = (if gmtoff < 0 then '-' else '+') :: (hhmm.take 2 ++ ':' :: hhmm.drop 2) := by
  intro hhmm
  obtain ⟨a, b, c, d, habcd⟩ : ∃ a b c d, hhmm = [a, b, c, d] := by
    have hlen : hhmm.length = 4 := Decimal.length_padded (by decide) (by omega)
    match hhmm, hlen with
    | [a, b, c, d], _ => exact ⟨a, b, c, d, rfl⟩
  simp only [localZone, strftimeZone_eq]
  rw [show Decimal.padded 4 _ = hhmm from rfl, habcd]
  rfl

/-- The two halves of `hhmm`: the hours and the minutes. -/
theorem numeralValue_take_drop_padded {n : Nat} (hn : n < 10000) :
    let hhmm := Decimal.padded 4 n
    IsNumeral (hhmm.take 2) ∧ (hhmm.take 2).length = 2 ∧ IsNumeral (hhmm.drop 2) ∧
      (hhmm.drop 2).length = 2 ∧ numeralValue (hhmm.take 2) = n / 100 ∧
      numeralValue (hhmm.drop 2) = n % 100 := by
  intro hhmm
  have hlen : hhmm.length = 4 := Decimal.length_padded (by decide) hn
  have hdigits := isNumeral_padded 4 n
  have htake : (hhmm.take 2).length = 2 := by simp [hlen]
  have hdrop : (hhmm.drop 2).length = 2 := by simp [hlen]
  have htakeNum : IsNumeral (hhmm.take 2) :=
    ⟨fun h => by simp [h] at htake, fun c h => hdigits.2 c (List.mem_of_mem_take h)⟩
  have hdropNum : IsNumeral (hhmm.drop 2) :=
    ⟨fun h => by simp [h] at hdrop, fun c h => hdigits.2 c (List.mem_of_mem_drop h)⟩
  -- `n` is a hundred times its first two digits plus its last two
  have hsplit : n = 10 ^ (hhmm.drop 2).length * numeralValue (hhmm.take 2) +
      numeralValue (hhmm.drop 2) :=
    (Decimal.ofDigitChars_padded 4 n).symm.trans (Decimal.ofDigitChars_take_drop hhmm 2)
  have hlow := numeralValue_lt hdropNum
  rw [hdrop] at hsplit hlow
  refine ⟨htakeNum, htake, hdropNum, hdrop, ?_, ?_⟩ <;> omega

/-- The local zone of an offset of `z` minutes reads back as `z` minutes, except that the sign of
an offset of less than an hour west of UTC is lost. -/
theorem parseTimeZoneFromToken_localZone {z : Int} (hz : -1440 < z ∧ z < 1440) :
    parseTimeZoneFromToken (localZone (60 * z)) =
      .ok (if -60 < z ∧ z < 0 then 60 * z else -(60 * z)) := by
  have habs : (60 * z).natAbs / 60 = z.natAbs := by omega
  have hn : z.natAbs / 60 * 100 + z.natAbs % 60 < 10000 := by omega
  obtain ⟨hH, hHl, hMi, hMil, hhour, hmin⟩ := numeralValue_take_drop_padded hn
  rw [localZone_eq _ (by omega), habs]
  rw [parseTimeZoneFromToken_offset (by split_ifs <;> simp) hH hHl hMi hMil (by omega) (by omega)]
  have hsign : (if 60 * z < 0 then '-' else '+') = '-' ↔ z < 0 := by
    split_ifs <;> simp <;> omega
  simp only [hhour, hmin, hsign]
  -- the offset is `±(3600 * hh + 60 * mm)`, with the sign of `z` unless `hh` is zero
  congr 1
  split_ifs <;> omega

theorem localZone_shape (gmtoff : Int) (h : gmtoff.natAbs / 60 / 60 < 100) :
    ∃ c r, localZone gmtoff = c :: r ∧ c ∈ "+-Z".toList := by
  refine ⟨_, _, localZone_eq gmtoff h, ?_⟩
  split_ifs <;> simp

/-- The zone written for UTC or for local time, and the offset it reads back as. -/
theorem zone_facts {z : Int} (hz : -1440 < z ∧ z < 1440) (isLocal : Bool) :
    let zone := if isLocal then localZone (60 * z) else ['Z']
    parseTimeZoneFromToken zone =
        .ok (if isLocal then (if -60 < z ∧ z < 0 then 60 * z else -(60 * z)) else 0) ∧
      (∃ c r, zone = c :: r ∧ c ∈ "+-Z".toList) ∧ zone.length ≤ 6 := by
  cases isLocal
  · exact ⟨rfl, ⟨'Z', [], rfl, by simp⟩, by simp⟩
  · exact ⟨parseTimeZoneFromToken_localZone hz, localZone_shape _ (by omega),
      List.length_take_le _ _⟩

/-! ## Round trips -/

/-- What `dateFromISOString` reads back from the text `iso8601` writes of a formattable date, in
UTC or in a zone `z` minutes east: the date itself, except that a local time before the epoch
fails the year check, and that a zone less than an hour west of UTC moves the date by twice its
offset, which wraps around to a failure when that goes before the epoch. -/
theorem dateFromISOString_iso8601 {z : Int} {d : DateT} {isLocal : Bool}
    (hd : d.isFormattable = true) (hz : -1440 < z ∧ z < 1440) :
    ∃ text, iso8601 z d isLocal = some text ∧
      dateFromISOString text =
        let secs := if isLocal then d.toTimeT + 60 * z else d.toTimeT
        let shift := if isLocal ∧ -60 < z ∧ z < 0 then 120000 * z else 0
        if secs < 0 then
          .error (.status ("Year out of range:  " ++ toString (civilFromDays (secs / 86400)).year))
        else if d.millis + shift < 0 then
          .error (.status (String.ofList text ++ " is too far in the future"))
        else .ok ⟨d.millis + shift⟩ := by
  obtain ⟨h0, h1⟩ : 0 ≤ d.millis ∧ d.millis < 32535215999000 := by
    simpa [DateT.isFormattable] using hd
  have ht : d.toTimeT = d.millis / 1000 := Int.tdiv_eq_ediv_of_nonneg h0
  have hms : d.millis.tmod 1000 = d.millis % 1000 := Int.tmod_eq_emod_of_nonneg h0
  refine ⟨_, iso8601_eq_tmText hd, ?_⟩
  rw [timeTToStruct_eq, hms, ht]
  generalize hsecs : (if isLocal then d.millis / 1000 + 60 * z else d.millis / 1000) = secs
  obtain ⟨hadj, hshape, hzl⟩ := zone_facts hz isLocal
  have hparse := parseTm_gmtime secs (if isLocal then 60 * z else 0) (by split at hsecs <;> omega)
    (by omega : 0 ≤ d.millis % 1000 ∧ d.millis % 1000 ≤ 999) hshape hzl
  rw [hadj] at hparse
  rw [dateFromISOString, hparse]
  by_cases hneg : secs < 0
  · simp [hneg, bind, Except.bind]
  · simp only [hneg, if_false, bind, Except.bind, pure, Except.pure, timegm_gmtime]
    -- the offset read and the local time add up to the date moved by `shift`
    have hsum : 1000 * secs + d.millis % 1000 +
        (if isLocal then if -60 < z ∧ z < 0 then 60 * z else -(60 * z) else 0) * 1000 =
          d.millis + (if isLocal ∧ -60 < z ∧ z < 0 then 120000 * z else 0) := by
      cases isLocal <;> simp only [Bool.false_eq_true, if_false, if_true, false_and, true_and] at hsecs ⊢
      · omega
      · split_ifs <;> omega
    have hadjBound : -86400 < (if isLocal then if -60 < z ∧ z < 0 then 60 * z else -(60 * z) else 0) ∧
        (if isLocal then if -60 < z ∧ z < 0 then 60 * z else -(60 * z) else 0) < 86400 := by
      split_ifs <;> omega
    have hsecsBound : secs < 2 ^ 40 := by split_ifs at hsecs <;> omega
    generalize (if isLocal then if -60 < z ∧ z < 0 then 60 * z else -(60 * z) else 0) = adj
      at hsum hadjBound ⊢
    generalize (if isLocal ∧ -60 < z ∧ z < 0 then 120000 * z else 0) = shift at hsum ⊢
    -- below zero the sum wraps around past `2 ^ 63 - 1`
    have hwrap : ((1000 * (secs % 2 ^ 64) + d.millis % 1000) % 2 ^ 64 + adj * 1000) % 2 ^ 64 =
        if d.millis + shift < 0 then d.millis + shift + 2 ^ 64 else d.millis + shift := by
      split_ifs <;> omega
    rw [hwrap]
    by_cases hbefore : d.millis + shift < 0
    · have hfuture : d.millis + shift + 2 ^ 64 > 2 ^ 63 - 1 := by omega
      simp only [hbefore, hfuture, if_true]
      rfl
    · have hpast : ¬ d.millis + shift > 2 ^ 63 - 1 := by omega
      simp only [hbefore, hpast, if_false]

theorem toTimeT_nonneg {d : DateT} (hd : d.isFormattable = true) : 0 ≤ d.toTimeT := by
  have h0 : 0 ≤ d.millis := by simp_all [DateT.isFormattable]
  rw [DateT.toTimeT, Int.tdiv_eq_ediv_of_nonneg h0]
  omega

/-- Dates written in UTC read back as themselves. -/
theorem dateFromISOString_dateToISOStringUTC {d : DateT} (hd : d.isFormattable = true) :
    ∃ text, dateToISOStringUTC d = some text ∧ dateFromISOString text = .ok d := by
  obtain ⟨text, htext, hparse⟩ := @dateFromISOString_iso8601 0 d false hd (by decide)
  have hsecs : ¬ d.toTimeT < 0 := not_lt.mpr (toTimeT_nonneg hd)
  have h0 : ¬ d.millis < 0 := by simp_all [DateT.isFormattable]
  refine ⟨text, htext, ?_⟩
  simp [hparse, hsecs, h0]

/-- Dates written in local time read back as themselves exactly when the local time is not
before the epoch and the zone is not less than an hour west of UTC. -/
theorem dateFromISOString_dateToISOStringLocal {d : DateT} (hd : d.isFormattable = true) {z : Int}
    (hz : -1440 < z ∧ z < 1440) :
    ∃ text, dateToISOStringLocal z d = some text ∧
      (dateFromISOString text = .ok d ↔ 0 ≤ d.toTimeT + 60 * z ∧ (0 ≤ z ∨ z ≤ -60)) := by
  obtain ⟨text, htext, hparse⟩ := @dateFromISOString_iso8601 z d true hd hz
  have h0 : 0 ≤ d.millis := by simp_all [DateT.isFormattable]
  refine ⟨text, htext, ?_⟩
  rw [hparse]
  dsimp only
  simp only [true_and, if_true]
  by_cases hsecs : d.toTimeT + 60 * z < 0
  · -- the year check fails
    simp [hsecs]
  · obtain ⟨millis⟩ := d
    dsimp only at h0
    by_cases hwest : -60 < z ∧ z < 0
    · -- the date moves by twice the offset, or wraps around
      simp only [hsecs, hwest, if_false, and_self, if_true]
      split_ifs
      · simp
        omega
      · simp
        omega
    · simp only [hsecs, hwest, if_false, Int.add_zero]
      split_ifs
      · omega
      · simp
        omega

/-- ISO 8601 round trips of every formattable date, in UTC and in every zone of whole minutes
within a day of UTC. -/
theorem dateFromISOString_round_trip (d : DateT) (hd : d.isFormattable = true) (z : Int)
    (hz : -1440 < z ∧ z < 1440) :
    (∃ text, dateToISOStringUTC d = some text ∧ dateFromISOString text = .ok d) ∧
      ∃ text, dateToISOStringLocal z d = some text ∧
        (dateFromISOString text = .ok d ↔ 0 ≤ d.toTimeT + 60 * z ∧ (0 ≤ z ∨ z ≤ -60)) :=
  ⟨dateFromISOString_dateToISOStringUTC hd, dateFromISOString_dateToISOStringLocal hd hz⟩

theorem dateFromISOString_round_trip_half_hour_west :
    (⟨86400000⟩ : DateT).isFormattable = true ∧ (-1440 < (-30 : Int) ∧ (-30 : Int) < 1440) ∧
      ((∃ text, dateToISOStringUTC ⟨86400000⟩ = some text ∧
          dateFromISOString text = .ok ⟨86400000⟩) ∧
        ∃ text, dateToISOStringLocal (-30) ⟨86400000⟩ = some text ∧
          (dateFromISOString text = .ok ⟨86400000⟩ ↔
            0 ≤ (⟨86400000⟩ : DateT).toTimeT + 60 * (-30) ∧ (0 ≤ (-30 : Int) ∨ (-30 : Int) ≤ -60))) :=
  ⟨by decide, by decide, dateFromISOString_round_trip ⟨86400000⟩ (by decide) (-30) (by decide)⟩

/- Half an hour west of UTC the offset `-00:30` reads as half an hour east, an hour off; an hour
west, the first hour of 1970 in UTC is written in 1969 and fails the year check. -/
example : dateToISOStringLocal (-30) ⟨86400000⟩ = some "1970-01-01T23:30:00.000-00:30".toList ∧
    dateFromISOString "1970-01-01T23:30:00.000-00:30".toList = .ok ⟨82800000⟩ := by
  decide

example : dateToISOStringLocal (-60) ⟨0⟩ = some "1969-12-31T23:00:00.000-01:00".toList ∧
    dateFromISOString "1969-12-31T23:00:00.000-01:00".toList =
      .error (.status "Year out of range:  1969") := by
  decide

end Mongo.TimeSupport
