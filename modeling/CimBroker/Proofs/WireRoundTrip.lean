/-
# CimBroker.Proofs.WireRoundTrip — timestamps that come back from their text

A stamp after the start of 1601 is written in columns: four digits of year, two each of month, day,
hour, minute and second, a point and six digits, a sign and three digits of minutes.  The reader
cuts the text at these columns.  The two agree as long as the columns hold what is written into
them: a year beyond 9999 is written with a sign and five digits, and the seconds of a leap second
reach 60, which the reader refuses.

`timestamp_comes_back_iff` says exactly which stamps come back, and `late_year_and_leap_second_lost`
has one of either kind that does not.  Instants at or before the start of 1601 have no text and are
left out, and so are fractions below a microsecond, which are cut off (`Stamp.truncated`).
-/
import CimBroker.Proofs.DayNumbers
import CimBroker.Proofs.Numerals
import CimBroker.Variant.Codec

namespace CimBroker.Time

/-! ## What the reader accepts -/

namespace Timestamp

section Guards

variable {α β : Type} {e : Error} {y : β}

/-- A part that is required is there, and what follows is done with it. -/
theorem elim_throw_bind_eq_ok {part : Option α} {next : α → Except Error β} :
    (part.elim (throw e) pure >>= next) = .ok y ↔ ∃ x, part = some x ∧ next x = .ok y := by
  cases part with
  | none =>
    constructor
    · intro h
      exact absurd h (by simp [throw, throwThe, MonadExceptOf.throw, bind, Except.bind])
    · rintro ⟨x, hx, -⟩
      exact absurd hx (by simp)
  | some x =>
    constructor
    · intro h
      exact ⟨x, rfl, h⟩
    · rintro ⟨x', hx, h⟩
      obtain rfl := Option.some.inj hx
      exact h

/-- What follows a refusal is done where the refusal does not apply. -/
theorem ite_throw_bind_eq_ok {refused : Prop} [Decidable refused] {next : α → Except Error β}
    {outcome : Except Error β} :
    (if refused then throw e >>= next else outcome) = .ok y ↔ ¬ refused ∧ outcome = .ok y := by
  by_cases h : refused
  · rw [if_pos h]
    constructor
    · intro hthrow
      exact absurd hthrow (by simp [throw, throwThe, MonadExceptOf.throw, bind, Except.bind])
    · rintro ⟨hn, -⟩
      exact absurd h hn
  · rw [if_neg h]
    exact (and_iff_right h).symm

end Guards

/-- What the reader finds in a text that it accepts. -/
structure Reading (cs : List Char) (s : Stamp) : Prop where
  long : 5 ≤ cs.length
  ascii : ∀ c ∈ cs, c.toNat < 0x80
  set : cs.take 14 ≠ List.replicate 14 '0'
  fields : ∃ (zone : Int) (date : Date) (hour minute second micros : Nat) (fraction : List Char),
    zoneMinutes? (cs.drop (cs.length - 4)) = some zone ∧
      leadingFields? (cs.take (cs.length - 4)) = some (date, hour, minute, second, fraction) ∧
      fractionMicros? fraction = some micros ∧
      (date.isValid = true ∧ hour < 24 ∧ minute < 60 ∧ second < 60) ∧
      zone.natAbs < 1440 ∧
      s = Stamp.ofClock ⟨date, hour, minute, second, micros * 1000⟩ (zone * 60)

/-- **The reader accepts a text exactly when its columns make up a stamp.** -/
theorem parse_eq_some_iff {text : String} {s : Stamp} :
    parse text = .ok (some s) ↔ Reading text.toList s := by
  unfold parse
  dsimp only
  generalize text.toList = cs
  rw [ite_throw_bind_eq_ok]
  by_cases hunset : cs.take 14 = List.replicate 14 '0'
  · -- an unset time is accepted, but is no stamp
    rw [if_pos hunset]
    constructor
    · rintro ⟨-, h⟩
      exact absurd (Except.ok.inj h) (by simp)
    · intro h
      exact absurd hunset h.set
  · rw [if_neg hunset]
    simp only [elim_throw_bind_eq_ok, ite_throw_bind_eq_ok]
    constructor
    · rintro ⟨hchecks, zone, hzone, ⟨date, hour, minute, second, fraction⟩, hfields, micros,
        hmicros, hvalid, hreach, hstamp⟩
      simp only [Bool.or_eq_true, decide_eq_true_eq, List.any_eq_true, not_or, not_exists,
        not_and, Nat.not_le, Nat.not_lt] at hchecks
      simp only [Bool.not_eq_true', Bool.not_eq_false, Bool.and_eq_true, decide_eq_true_eq]
        at hvalid
      exact ⟨hchecks.1, hchecks.2, hunset, zone, date, hour, minute, second, micros, fraction,
        hzone, hfields, hmicros, ⟨hvalid.1.1.1, hvalid.1.1.2, hvalid.1.2, hvalid.2⟩, by omega,
        (Option.some.inj (Except.ok.inj hstamp)).symm⟩
    · rintro ⟨hlong, hascii, -, zone, date, hour, minute, second, micros, fraction, hzone,
        hfields, hmicros, ⟨hdate, hhour, hminute, hsecond⟩, hreach, rfl⟩
      refine ⟨?_, zone, hzone, ⟨date, hour, minute, second, fraction⟩, hfields, micros, hmicros,
        ?_, by omega, rfl⟩
      · simp only [Bool.or_eq_true, decide_eq_true_eq, List.any_eq_true, not_or, not_exists,
          not_and, Nat.not_le, Nat.not_lt]
        exact ⟨hlong, hascii⟩
      · simp [hdate, hhour, hminute, hsecond]

/-! ## Columns -/

/-- What follows a column. -/
theorem drop_column {text column rest : List Char} {start count : Nat}
    (h : text.drop start = column ++ rest) (hcount : column.length = count) :
    text.drop (start + count) = rest := by
  rw [← List.drop_drop, h, List.drop_left' hcount]

/-- The field that a column of digits holds. -/
theorem field_column {text column rest : List Char} {start count n : Nat}
    (h : text.drop start = column ++ rest) (hcount : column.length = count)
    (hread : Number.ofDecimal? column = some n) :
    (if ((text.drop start).take count).length = count then
      Number.ofDecimal? ((text.drop start).take count) else none) = some n := by
  rw [h, List.take_left' hcount, if_pos hcount, hread]

/-- **Columns of digits are read as the fields that they hold**, and what follows them is left. -/
theorem leadingFields?_columns {year month day hour minute second : List Char}
    {y mo d h mi s : Nat} (hyear : year.length = 4 ∧ Number.ofDecimal? year = some y)
    (hmonth : month.length = 2 ∧ Number.ofDecimal? month = some mo)
    (hday : day.length = 2 ∧ Number.ofDecimal? day = some d)
    (hhour : hour.length = 2 ∧ Number.ofDecimal? hour = some h)
    (hminute : minute.length = 2 ∧ Number.ofDecimal? minute = some mi)
    (hsecond : second.length = 2 ∧ Number.ofDecimal? second = some s) (fraction : List Char) :
    leadingFields? (year ++ (month ++ (day ++ (hour ++ (minute ++ (second ++ fraction)))))) =
      some (⟨y, mo, d⟩, h, mi, s, fraction) := by
  generalize htext : year ++ _ = text
  -- each column starts where the one before it ends
  have h0 : text.drop 0 = _ := htext.symm
  have h4 := drop_column h0 hyear.1
  have h6 := drop_column h4 hmonth.1
  have h8 := drop_column h6 hday.1
  have h10 := drop_column h8 hhour.1
  have h12 := drop_column h10 hminute.1
  have h14 := drop_column h12 hsecond.1
  unfold leadingFields?
  dsimp only
  rw [field_column h0 hyear.1 hyear.2, field_column h4 hmonth.1 hmonth.2,
    field_column h6 hday.1 hday.2, field_column h8 hhour.1 hhour.2,
    field_column h10 hminute.1 hminute.2, field_column h12 hsecond.1 hsecond.2, h14]
  rfl

/-- Numbers that fit their columns are read from them. -/
theorem leadingFields?_padded {year month day hour minute second : Nat}
    (hyear : year < 10 ^ 4) (hmonth : month < 10 ^ 2) (hday : day < 10 ^ 2) (hhour : hour < 10 ^ 2)
    (hminute : minute < 10 ^ 2) (hsecond : second < 10 ^ 2) (fraction : List Char) :
    leadingFields? (Number.padded 4 year ++ (Number.padded 2 month ++ (Number.padded 2 day ++
      (Number.padded 2 hour ++ (Number.padded 2 minute ++ (Number.padded 2 second ++
        fraction)))))) =
      some (⟨year, month, day⟩, hour, minute, second, fraction) := by
  have hcolumn {count n : Nat} (hcount : 1 ≤ count) (hn : n < 10 ^ count) :
      (Number.padded count n).length = count ∧
        Number.ofDecimal? (Number.padded count n) = some n :=
    ⟨Number.length_padded hcount hn, Number.ofDecimal?_padded count n⟩
  exact leadingFields?_columns (hcolumn (by omega) hyear) (hcolumn (by omega) hmonth)
    (hcolumn (by omega) hday) (hcolumn (by omega) hhour) (hcolumn (by omega) hminute)
    (hcolumn (by omega) hsecond) fraction

/-- A field that is read fills its column. -/
theorem column_of_field {text : List Char} {start count n : Nat}
    (h : (if ((text.drop start).take count).length = count then
      Number.ofDecimal? ((text.drop start).take count) else none) = some n) :
    ∃ column, (column.length = count ∧ Number.ofDecimal? column = some n) ∧
      text.drop start = column ++ text.drop (start + count) := by
  obtain ⟨hcount, hread⟩ := Option.ite_none_right_eq_some.mp h
  refine ⟨(text.drop start).take count, ⟨hcount, hread⟩, ?_⟩
  rw [← List.drop_drop, List.take_append_drop]

/-- **Fields are read from columns of digits only.** -/
theorem columns_of_leadingFields? {text fraction : List Char} {date : Date}
    {h mi s : Nat} (hfields : leadingFields? text = some (date, h, mi, s, fraction)) :
    ∃ (year month day hour minute second : List Char) (y mo d : Nat),
      date = ⟨y, mo, d⟩ ∧
        (year.length = 4 ∧ Number.ofDecimal? year = some y) ∧
        (month.length = 2 ∧ Number.ofDecimal? month = some mo) ∧
        (day.length = 2 ∧ Number.ofDecimal? day = some d) ∧
        (hour.length = 2 ∧ Number.ofDecimal? hour = some h) ∧
        (minute.length = 2 ∧ Number.ofDecimal? minute = some mi) ∧
        (second.length = 2 ∧ Number.ofDecimal? second = some s) ∧
        text = year ++ (month ++ (day ++ (hour ++ (minute ++ (second ++ fraction))))) := by
  unfold leadingFields? at hfields
  dsimp only at hfields
  obtain ⟨y, hy, hfields⟩ := Option.bind_eq_some_iff.mp hfields
  obtain ⟨mo, hmo, hfields⟩ := Option.bind_eq_some_iff.mp hfields
  obtain ⟨d, hd, hfields⟩ := Option.bind_eq_some_iff.mp hfields
  obtain ⟨h', hh, hfields⟩ := Option.bind_eq_some_iff.mp hfields
  obtain ⟨mi', hmi, hfields⟩ := Option.bind_eq_some_iff.mp hfields
  obtain ⟨s', hs, hfields⟩ := Option.bind_eq_some_iff.mp hfields
  cases hfields
  obtain ⟨year, hyear, h0⟩ := column_of_field hy
  obtain ⟨month, hmonth, h4⟩ := column_of_field hmo
  obtain ⟨day, hday, h6⟩ := column_of_field hd
  obtain ⟨hour, hhour, h8⟩ := column_of_field hh
  obtain ⟨minute, hminute, h10⟩ := column_of_field hmi
  obtain ⟨second, hsecond, h12⟩ := column_of_field hs
  refine ⟨year, month, day, hour, minute, second, y, mo, d, rfl, hyear, hmonth, hday, hhour,
    hminute, hsecond, ?_⟩
  calc text = text.drop 0 := List.drop_zero.symm
    _ = _ := by rw [h0, h4, h6, h8, h10, h12]

/-- A sign in front of the year is no digit. -/
theorem leadingFields?_sign (rest : List Char) : leadingFields? ('+' :: rest) = none := by
  -- the year is the first field that is asked for, and its four characters begin with the sign
  have hsign (ds : List Char) : Number.ofDecimal? ('+' :: ds) = none := rfl
  have hfield : (if (('+' :: rest).take 4).length = 4 then
      Number.ofDecimal? (('+' :: rest).take 4) else none) = none := by
    rw [List.take_succ_cons, hsign]
    split <;> rfl
  unfold leadingFields?
  dsimp only
  rw [List.drop_zero, hfield]
  rfl

/-- A point and six digits are read as the microseconds that they hold. -/
theorem fractionMicros?_column {micros : Nat} (h : micros < 10 ^ 6) :
    fractionMicros? ('.' :: Number.padded 6 micros) = some micros := by
  have hlength := Number.length_padded (by omega) h
  rw [fractionMicros?, if_pos (by omega), Number.ofDecimal?_padded, hlength, Option.map_some,
    Nat.sub_self, Nat.pow_zero, Nat.mul_one]

/-- A fraction is less than a second. -/
theorem lt_of_fractionMicros? {fraction : List Char} {micros : Nat}
    (h : fractionMicros? fraction = some micros) : micros < 10 ^ 6 := by
  unfold fractionMicros? at h
  split at h
  · obtain rfl := Option.some.inj h
    decide
  · next ds =>
    obtain ⟨hlength, hread⟩ := Option.ite_none_right_eq_some.mp h
    obtain ⟨n, hn, rfl⟩ := Option.map_eq_some_iff.mp hread
    calc n * 10 ^ (6 - ds.length) < 10 ^ ds.length * 10 ^ (6 - ds.length) :=
          Nat.mul_lt_mul_of_pos_right (Number.lt_of_ofDecimal? hn) (Nat.pow_pos (by omega))
      _ = 10 ^ 6 := by
        rw [← Nat.pow_add]
        congr 1
        omega
  · exact absurd h (by simp)

/-- A sign and three digits are read as the minutes that they hold. -/
theorem zoneMinutes?_column {minutes : Int} :
    zoneMinutes? (signedPadded 3 minutes) = some minutes := by
  have hread := Number.ofDecimal?_padded 3 minutes.natAbs
  unfold signedPadded
  by_cases hneg : minutes < 0
  · rw [if_pos hneg]
    rw [zoneMinutes?, hread]
    show some (-(minutes.natAbs : Int)) = some minutes
    congr 1
    omega
  · rw [if_neg hneg]
    rw [zoneMinutes?, hread]
    show some (minutes.natAbs : Int) = some minutes
    congr 1
    omega

end Timestamp

/-! ## Clocks -/

namespace Stamp

variable {s : Stamp}

/-- The instant cut to whole microseconds. -/
def truncated (s : Stamp) : Stamp := { s with nanos := s.nanos / 1000 * 1000 }

/-- A clock shows a date that exists and a time of day; its seconds reach 60 in a leap second. -/
theorem clock_bounds (s : Stamp) :
    s.clock.date.isValid = true ∧ s.clock.hour < 24 ∧ s.clock.minute < 60 ∧
      s.clock.second = (s.seconds + s.offset) % 86400 % 60 + s.nanos / 1000000000 ∧
      s.clock.nanos < 1000000000 := by
  refine ⟨Date.isValid_ofDayNumber _, ?_, ?_, ?_, ?_⟩
  · show ((s.seconds + s.offset) % 86400).toNat / 3600 < 24
    omega
  · show ((s.seconds + s.offset) % 86400).toNat / 60 % 60 < 60
    omega
  · show ((((s.seconds + s.offset) % 86400).toNat % 60 + s.nanos / 1000000000 : Nat) : Int) = _
    omega
  · show s.nanos % 1000000000 < 1000000000
    omega

/-- **The stamp of the time that a clock shows is the stamp**, but for a leap second. -/
theorem ofClock_clock (h : s.nanos < 1000000000) :
    Stamp.ofClock { s.clock with nanos := s.clock.nanos / 1000 * 1000 } s.offset =
      s.truncated := by
  -- days and seconds of the day were split off by division, and add up again
  have hdate := Date.dayNumber_ofDayNumber ((s.seconds + s.offset) / 86400)
  have hseconds : (Date.ofDayNumber ((s.seconds + s.offset) / 86400)).dayNumber * 86400 +
      (((s.seconds + s.offset) % 86400).toNat / 3600 * 3600 +
        ((s.seconds + s.offset) % 86400).toNat / 60 % 60 * 60 +
        (((s.seconds + s.offset) % 86400).toNat % 60 + s.nanos / 1000000000) : Nat) - s.offset =
      s.seconds := by
    rw [hdate]
    omega
  have hnanos : s.nanos % 1000000000 / 1000 * 1000 = s.nanos / 1000 * 1000 := by omega
  show Stamp.mk _ (s.nanos % 1000000000 / 1000 * 1000) s.offset = _
  rw [hnanos]
  exact congrArg (Stamp.mk · _ _) hseconds

/-- **The clock of the stamp of a time shows that time**, if there is such a time. -/
theorem clock_ofClock {t : ClockTime} (offset : Int) (hdate : t.date.isValid = true)
    (hhour : t.hour < 24) (hminute : t.minute < 60) (hsecond : t.second < 60)
    (hnanos : t.nanos < 1000000000) : (Stamp.ofClock t offset).clock = t := by
  have hshown : (Stamp.ofClock t offset).seconds + (Stamp.ofClock t offset).offset =
      t.date.dayNumber * 86400 + (t.hour * 3600 + t.minute * 60 + t.second : Nat) :=
    Int.sub_add_cancel _ offset
  rw [Stamp.clock, hshown]
  show ClockTime.mk _ _ _ (_ + t.nanos / 1000000000) (t.nanos % 1000000000) = _
  -- the seconds of the day fill no day, so division finds both parts again
  have hday :
      (t.date.dayNumber * 86400 + (t.hour * 3600 + t.minute * 60 + t.second : Nat)) / 86400 =
      t.date.dayNumber := by omega
  have hinDay : ((t.date.dayNumber * 86400 +
      (t.hour * 3600 + t.minute * 60 + t.second : Nat)) % 86400).toNat =
      t.hour * 3600 + t.minute * 60 + t.second := by omega
  rw [hday, hinDay, Date.ofDayNumber_dayNumber hdate]
  have hhours : (t.hour * 3600 + t.minute * 60 + t.second) / 3600 = t.hour := by omega
  have hminutes : (t.hour * 3600 + t.minute * 60 + t.second) / 60 % 60 = t.minute := by omega
  have hseconds : (t.hour * 3600 + t.minute * 60 + t.second) % 60 + t.nanos / 1000000000 =
      t.second := by omega
  rw [hhours, hminutes, hseconds, Nat.mod_eq_of_lt hnanos]

end Stamp

/-! ## Writing and reading back -/

namespace Timestamp

variable {s : Stamp}

/-- The year of an instant after the start of 1601 is not negative in any zone that fits. -/
theorem year_nonneg (hepoch : afterWireEpoch s = true) (hoffset : s.offset.natAbs ≤ 999 * 60) :
    0 ≤ s.clock.date.year := by
  apply Date.year_nonneg
  -- sixteen hundred years leave room for the seventeen hours that a zone may lie off
  unfold afterWireEpoch wireEpoch at hepoch
  simp only [Bool.or_eq_true, Bool.and_eq_true, decide_eq_true_eq, beq_iff_eq] at hepoch
  unfold marchOrigin
  omega

/-- A date that exists has a month and a day of two digits, neither of them zero. -/
theorem date_bounds {d : Date} (h : d.isValid = true) :
    1 ≤ d.month ∧ d.month < 10 ^ 2 ∧ d.day < 10 ^ 2 := by
  have hdays : daysInMonth d.year d.month ≤ 31 := by
    unfold daysInMonth
    split
    · split <;> omega
    · split <;> omega
  unfold Date.isValid at h
  simp only [Bool.and_eq_true, decide_eq_true_eq] at h
  omega

/-- Every character of a stamp's text is a digit, a point or a sign. -/
theorem ascii_stampText (s : Stamp) : ∀ c ∈ (stampText s).toList, c.toNat < 0x80 := by
  have hdigits {width n : Nat} : ∀ c ∈ Number.padded width n, c.toNat < 0x80 := by
    intro c hc
    have hdigit := Number.isDigit_of_mem_padded c hc
    unfold Number.isDigit at hdigit
    rw [Bool.and_eq_true, decide_eq_true_eq, decide_eq_true_eq] at hdigit
    omega
  have hsigned {width : Nat} {n : Int} : ∀ c ∈ signedPadded width n, c.toNat < 0x80 := by
    intro c hc
    rcases List.mem_cons.mp hc with rfl | hc
    · split <;> decide
    · exact hdigits c hc
  -- a year of four digits is a column, any other one carries a sign
  have hyears : ∀ c ∈ yearText s.clock.date.year, c.toNat < 0x80 := by
    unfold yearText
    split
    · exact hdigits
    · exact hsigned
  intro c hc
  unfold stampText at hc
  simp only [String.toList_ofList, List.mem_append, List.mem_cons] at hc
  rcases hc with ((((((h | h) | h) | h) | h) | h) | rfl | h) | h
  · exact hyears c h
  · exact hdigits c h
  · exact hdigits c h
  · exact hdigits c h
  · exact hdigits c h
  · exact hdigits c h
  · decide
  · exact hdigits c h
  · exact hsigned c h

/-- The columns of date and time that a clock shows. -/
def columns (t : ClockTime) : List Char :=
  Number.padded 4 t.date.year.toNat ++ (Number.padded 2 t.date.month ++
    (Number.padded 2 t.date.day ++ (Number.padded 2 t.hour ++ (Number.padded 2 t.minute ++
      (Number.padded 2 t.second ++ '.' :: Number.padded 6 (t.nanos / 1000))))))

/-- A stamp in a year of four digits is written in columns, with the zone behind them. -/
theorem toList_stampText (hyear : 0 ≤ s.clock.date.year ∧ s.clock.date.year ≤ 9999) :
    (stampText s).toList = columns s.clock ++ signedPadded 3 (s.offset.tdiv 60) := by
  have hfour : yearText s.clock.date.year = Number.padded 4 s.clock.date.year.toNat :=
    if_pos hyear
  rw [stampText, String.toList_ofList, hfour]
  simp only [columns, List.append_assoc]

/-- Columns that hold a month do not start with fourteen zeros. -/
theorem take_columns_ne {t : ClockTime} (hyear : t.date.year.toNat < 10 ^ 4)
    (hmonth : 1 ≤ t.date.month ∧ t.date.month < 10 ^ 2) (rest : List Char) :
    (columns t ++ rest).take 14 ≠ List.replicate 14 '0' := by
  intro h
  -- the two characters behind the year would be zeros, and be read as the month
  have hmonths : ((columns t ++ rest).drop 4).take 2 = Number.padded 2 t.date.month := by
    rw [columns, List.append_assoc, List.drop_left' (Number.length_padded (by omega) hyear),
      List.append_assoc, List.take_left' (Number.length_padded (by omega) hmonth.2)]
  have hzeros : ((columns t ++ rest).drop 4).take 2 = ['0', '0'] := by
    have hpart := congrArg (fun digits => (digits.drop 4).take 2) h
    rw [List.drop_take, List.take_take] at hpart
    exact hpart
  have hread := Number.ofDecimal?_padded 2 t.date.month
  rw [← hmonths, hzeros] at hread
  have hzero : Number.ofDecimal? ['0', '0'] = some 0 := by decide
  have := Option.some.inj (hzero.symm.trans hread)
  omega

/-- **A stamp that fits its columns is read back from its text**, cut to microseconds. -/
theorem reading_stampText (hyear : 0 ≤ s.clock.date.year ∧ s.clock.date.year ≤ 9999)
    (hnanos : s.nanos < 1000000000) (hoffset : s.offset % 60 = 0 ∧ s.offset.natAbs ≤ 999 * 60) :
    Reading (stampText s).toList s.truncated := by
  obtain ⟨hdate, hhour, hminute, hsecond, hnano⟩ := s.clock_bounds
  obtain ⟨hmonth, hmonths, hdays⟩ := date_bounds hdate
  have hfour : s.clock.date.year.toNat < 10 ^ 4 := by omega
  have hshort : s.clock.second < 60 := by omega
  have hminutes : s.offset.tdiv 60 * 60 = s.offset :=
    Int.tdiv_mul_cancel (Int.dvd_of_emod_eq_zero hoffset.1)
  have hzone : (signedPadded 3 (s.offset.tdiv 60)).length = 4 := by
    have hthree : (Number.padded 3 (s.offset.tdiv 60).natAbs).length = 3 :=
      Number.length_padded (by omega) (by omega)
    rw [signedPadded, List.length_cons, hthree]
  have hfields := leadingFields?_padded hfour hmonths hdays
    (show s.clock.hour < 10 ^ 2 by omega) (show s.clock.minute < 10 ^ 2 by omega)
    (show s.clock.second < 10 ^ 2 by omega) ('.' :: Number.padded 6 (s.clock.nanos / 1000))
  have hascii := ascii_stampText s
  have hset := take_columns_ne hfour ⟨hmonth, hmonths⟩ (signedPadded 3 (s.offset.tdiv 60))
  rw [toList_stampText hyear] at hascii ⊢
  -- the reader cuts the zone off at the end, where it was put
  have hcut : (columns s.clock ++ signedPadded 3 (s.offset.tdiv 60)).length - 4 =
      (columns s.clock).length := by
    rw [List.length_append, hzone]
    omega
  refine ⟨?_, hascii, hset, s.offset.tdiv 60, s.clock.date, s.clock.hour, s.clock.minute,
    s.clock.second, s.clock.nanos / 1000, '.' :: Number.padded 6 (s.clock.nanos / 1000),
    ?_, ?_, fractionMicros?_column (by omega), ⟨hdate, hhour, hminute, hshort⟩, by omega, ?_⟩
  · have hcolumns : 1 ≤ (columns s.clock).length := by
      rw [columns, List.length_append, Number.length_padded (by omega) hfour]
      omega
    rw [List.length_append, hzone]
    omega
  · rw [hcut, List.drop_left, zoneMinutes?_column]
  · have hyears : (⟨s.clock.date.year.toNat, s.clock.date.month, s.clock.date.day⟩ : Date) =
        s.clock.date := by
      rw [Int.toNat_of_nonneg hyear.1]
    rw [hcut, List.take_left, ← hyears]
    exact hfields
  · rw [hminutes]
    exact (s.ofClock_clock hnanos).symm

/-- A stamp in a year of five digits is written with a sign, and not read. -/
theorem not_reading_of_late (hyear : 9999 < s.clock.date.year) {s' : Stamp} :
    ¬ Reading (stampText s).toList s' := by
  intro h
  obtain ⟨zone, date, hour, minute, second, micros, fraction, -, hfields, -⟩ := h.fields
  have hlong := h.long
  have hsign : ∃ rest, (stampText s).toList = '+' :: rest := by
    have hyearText : yearText s.clock.date.year =
        '+' :: Number.padded 4 s.clock.date.year.natAbs := by
      rw [yearText, if_neg (by omega), signedPadded, if_neg (by omega)]
    rw [stampText, String.toList_ofList, hyearText]
    exact ⟨_, rfl⟩
  obtain ⟨rest, hrest⟩ := hsign
  rw [hrest] at hfields hlong
  -- a text that is long enough to be read has its first character among the fields
  obtain ⟨k, hk⟩ : ∃ k, ('+' :: rest).length - 4 = k + 1 := ⟨('+' :: rest).length - 5, by omega⟩
  rw [hk, List.take_succ_cons, leadingFields?_sign] at hfields
  exact absurd hfields (by simp)

/-- What is read has less than a second in its fraction. -/
theorem Reading.nanos_lt {cs : List Char} {s : Stamp} (h : Reading cs s) :
    s.nanos < 1000000000 := by
  obtain ⟨zone, date, hour, minute, second, micros, fraction, -, -, hmicros, -, -, rfl⟩ := h.fields
  have hlt := lt_of_fractionMicros? hmicros
  show micros * 1000 < 1000000000
  omega

/-- What a zone that fits is. -/
theorem offset_of_ofStamp {t : Timestamp} (h : ofStamp s = .ok t) :
    t = some s ∧ s.offset % 60 = 0 ∧ s.offset.natAbs ≤ 999 * 60 := by
  unfold ofStamp greatestOffsetMinutes at h
  split at h
  · exact absurd h (by simp [throw, throwThe, MonadExceptOf.throw])
  · next hfits =>
    rw [not_or, not_not, Nat.not_lt] at hfits
    exact ⟨(Except.ok.inj h).symm, hfits.1, hfits.2⟩

/-- An instant after the start of 1601 is encoded as its text. -/
theorem encodeAs_of_afterWireEpoch (hepoch : afterWireEpoch s = true) (isPresent : Bool) :
    DataType.datetime.encodeAs isPresent (some s) = .text (stampText s) := by
  have hencode : encode (some s) = some (stampText s) := if_pos hepoch
  show (encode (some s)).elim Variant.null Variant.text = _
  rw [hencode]
  rfl

/-- **A stamp comes back from its text exactly when it fits its columns.** Every timestamp after the
start of 1601 (`afterWireEpoch`) that can be made (`ofStamp`) is written as text.  Reading it gives
the same instant, cut to microseconds (`Stamp.truncated`), in the same zone, if its year has four
digits there and it lies in no leap second; otherwise reading gives something else or fails. -/
theorem timestamp_comes_back_iff {s : Stamp} {t : Timestamp} (hmade : ofStamp s = .ok t)
    (hepoch : afterWireEpoch s = true) :
    ∃ text, DataType.datetime.encode t = .text text ∧
      DataType.datetime.encodePresent t = .text text ∧
      (DataType.datetime.decode (.text text) = .ok (some s.truncated) ↔
        s.clock.date.year ≤ 9999 ∧ s.nanos < 1000000000) := by
  obtain ⟨rfl, hminutes, hreach⟩ := offset_of_ofStamp hmade
  refine ⟨stampText s, encodeAs_of_afterWireEpoch hepoch false,
    encodeAs_of_afterWireEpoch hepoch true, ?_⟩
  show parse (stampText s) = _ ↔ _
  rw [parse_eq_some_iff]
  constructor
  · intro h
    -- what was read holds no leap second, so what was written held none
    have hlt : s.nanos / 1000 * 1000 < 1000000000 := h.nanos_lt
    constructor
    · by_contra hlate
      exact not_reading_of_late (by omega) h
    · omega
  · rintro ⟨hyear, hnanos⟩
    exact reading_stampText ⟨year_nonneg hepoch hreach, hyear⟩ hnanos ⟨hminutes, hreach⟩

/-- A moment of November 2023 in a zone an hour east comes back. -/
theorem timestamp_of_2023_comes_back :
    ofStamp ⟨1700000000, 123456789, 3600⟩ = .ok (some ⟨1700000000, 123456789, 3600⟩) ∧
      afterWireEpoch ⟨1700000000, 123456789, 3600⟩ = true ∧
      ∃ text, DataType.datetime.encode (some ⟨1700000000, 123456789, 3600⟩) = .text text ∧
        DataType.datetime.decode (.text text) = .ok (some ⟨1700000000, 123456000, 3600⟩) := by
  have hmade : ofStamp ⟨1700000000, 123456789, 3600⟩ =
      .ok (some ⟨1700000000, 123456789, 3600⟩) := rfl
  have hepoch : afterWireEpoch ⟨1700000000, 123456789, 3600⟩ = true := rfl
  obtain ⟨text, hencode, -, hdecode⟩ := timestamp_comes_back_iff hmade hepoch
  exact ⟨hmade, hepoch, text, hencode, hdecode.mpr (by decide)⟩

/-- The stamp can be made and is written, but reading does not give it back. -/
def Lost (s : Stamp) : Prop :=
  ofStamp s = .ok (some s) ∧ afterWireEpoch s = true ∧
    ∃ text, DataType.datetime.encode (some s) = .text text ∧
      DataType.datetime.decode (.text text) ≠ .ok (some s.truncated)

/-- The first moment of the year 10000 and the leap second at the end of 2016 are lost. -/
theorem late_year_and_leap_second_lost :
    Lost ⟨253402300800, 0, 0⟩ ∧ Lost ⟨1483228799, 1500000000, 0⟩ := by
  constructor
  · refine ⟨rfl, rfl, stampText _, encodeAs_of_afterWireEpoch rfl false, ?_⟩
    intro h
    exact not_reading_of_late (by decide) (parse_eq_some_iff.mp h)
  · refine ⟨rfl, rfl, stampText _, encodeAs_of_afterWireEpoch rfl false, ?_⟩
    intro h
    exact absurd (parse_eq_some_iff.mp h).nanos_lt (by decide)

end Timestamp

end CimBroker.Time
