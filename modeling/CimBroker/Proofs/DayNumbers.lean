/-
# CimBroker.Proofs.DayNumbers — dates and their day numbers

Peeling a day number into blocks of 400, 100, 4 and one years leaves a day of a year that begins in
March.  The date found from there exists, and its day number is the one that was peeled.  Every date
that exists is such a day of such a year, so it is found again from its day number.

`Date.dayNumber_ofDayNumber` and `Date.ofDayNumber_dayNumber` are the two directions, with
`Date.isValid_ofDayNumber` between them.  Nothing is said on which dates a calendar in use ever had:
the count goes on without end in both directions.
-/
import CimBroker.Time.Calendar

namespace CimBroker.Time.Date

/-! ## Years that begin in March -/

/-- The date that comes `inYear` days after the first of March of a year. -/
def ofMarch (year : Int) (inYear : Nat) : Date :=
  let month := (5 * inYear + 2) / 153
  let day := inYear - daysBeforeMonth month + 1
  if month < 10 then ⟨year, month + 3, day⟩ else ⟨year + 1, month - 9, day⟩

/-- The first of March of a year, in days from the first of March of the year 0. -/
def marchStart (year : Int) : Int := 365 * year + year / 4 - year / 100 + year / 400

/-- The month of a day is one of twelve, and the day comes after the days before that month and
before those of the next. -/
theorem month_bounds {inYear : Nat} (h : inYear ≤ 365) :
    (5 * inYear + 2) / 153 < 12 ∧
      daysBeforeMonth ((5 * inYear + 2) / 153) ≤ inYear ∧
      inYear < daysBeforeMonth ((5 * inYear + 2) / 153 + 1) := by
  unfold daysBeforeMonth
  omega

/-- The day number of a date is that of the first of March before it and the days since. -/
theorem dayNumber_ofMarch (year : Int) {inYear : Nat} (h : inYear ≤ 365) :
    (ofMarch year inYear).dayNumber = marchStart year + inYear - marchOrigin := by
  obtain ⟨hmonth, hbefore, -⟩ := month_bounds h
  unfold ofMarch marchStart
  generalize hm : (5 * inYear + 2) / 153 = month at hmonth hbefore ⊢
  dsimp only
  by_cases hspring : month < 10
  · -- from March to December the year is the date's own
    have hlater : ¬ month + 3 ≤ 2 := by omega
    have hback : month + 3 - 3 = month := by omega
    rw [if_pos hspring, dayNumber]
    simp only [if_neg hlater, hback]
    omega
  · have hearly : month - 9 ≤ 2 := by omega
    have hback : month - 9 + 9 = month := by omega
    rw [if_neg hspring, dayNumber]
    simp only [if_pos hearly, hback]
    rw [Int.add_sub_cancel]
    omega

/-- The days of every month but February make up what lies between it and the next. -/
theorem daysInMonth_of_march {month : Nat} (year : Int) (h : month < 10) :
    daysBeforeMonth (month + 1) = daysBeforeMonth month + daysInMonth year (month + 3) := by
  have hdays : daysInMonth year (month + 3) =
      if month + 3 = 4 ∨ month + 3 = 6 ∨ month + 3 = 9 ∨ month + 3 = 11 then 30 else 31 := by
    rw [daysInMonth, if_neg (by omega)]
  -- no February among them, so the year does not matter
  have hall : ∀ month < 10, daysBeforeMonth (month + 1) = daysBeforeMonth month +
      if month + 3 = 4 ∨ month + 3 = 6 ∨ month + 3 = 9 ∨ month + 3 = 11 then 30 else 31 := by
    decide
  rw [hdays]
  exact hall month h

/-- A date whose month and day are in bounds exists. -/
theorem isValid_of_bounds {year : Int} {month day : Nat} (hmonth : 1 ≤ month ∧ month ≤ 12)
    (hday : 1 ≤ day ∧ day ≤ daysInMonth year month) :
    (⟨year, month, day⟩ : Date).isValid = true := by
  simp [isValid, hmonth, hday]

/-- The date exists, unless it is a leap day of a year that has none. -/
theorem isValid_ofMarch (year : Int) {inYear : Nat}
    (h : inYear ≤ 364 ∨ inYear = 365 ∧ isLeap (year + 1) = true) :
    (ofMarch year inYear).isValid = true := by
  have hlong : inYear ≤ 365 := by omega
  obtain ⟨hmonth, hbefore, hnext⟩ := month_bounds hlong
  unfold ofMarch
  generalize (5 * inYear + 2) / 153 = month at hmonth hbefore hnext ⊢
  dsimp only
  by_cases hspring : month < 10
  · have hdays := daysInMonth_of_march year hspring
    rw [if_pos hspring]
    exact isValid_of_bounds (by omega) (by omega)
  · rw [if_neg hspring]
    have hlast : month = 10 ∨ month = 11 := by omega
    rcases hlast with rfl | rfl
    · -- January
      have hjanuary : daysInMonth (year + 1) 1 = 31 := rfl
      have hten : daysBeforeMonth 10 = 306 ∧ daysBeforeMonth (10 + 1) = 337 := by decide
      refine isValid_of_bounds (by decide) ⟨by omega, ?_⟩
      show _ ≤ daysInMonth (year + 1) 1
      omega
    · -- February, where the last day of a leap year is the only one that can be too many
      have heleven : daysBeforeMonth 11 = 337 := by decide
      refine isValid_of_bounds (by decide) ⟨by omega, ?_⟩
      show inYear - daysBeforeMonth 11 + 1 ≤ if isLeap (year + 1) then 29 else 28
      rcases h with hshort | ⟨hleap, hyear⟩
      · split <;> omega
      · rw [if_pos hyear]
        omega

/-! ## Peeling -/

/-- **What peeling leaves**: whole eras, centuries, groups of four years and single years, and a
day of the year; a last day of a long year only where the year after it is a leap year. -/
theorem ofDayNumber_peel (n : Int) :
    ∃ (era : Int) (century quad single inYear : Nat),
      century ≤ 3 ∧ quad ≤ 24 ∧ single ≤ 3 ∧ inYear ≤ 365 ∧
        (inYear = 365 → single = 3 ∧ (quad = 24 → century = 3)) ∧
        n + marchOrigin =
          146097 * era + (36524 * century + 1461 * quad + 365 * single + inYear : Nat) ∧
        ofDayNumber n = ofMarch (era * 400 + (century * 100 + quad * 4 + single : Nat)) inYear := by
  unfold ofDayNumber
  dsimp only
  generalize n + marchOrigin = shifted
  have hnonneg : 0 ≤ shifted % 146097 := Int.emod_nonneg shifted (by omega)
  obtain ⟨inEra, hinEra⟩ := Int.eq_ofNat_of_zero_le hnonneg
  have hlt : shifted % 146097 < 146097 := Int.emod_lt_of_pos shifted (by omega)
  have hparts := Int.mul_ediv_add_emod shifted 146097
  rw [hinEra] at hlt hparts ⊢
  rw [Int.toNat_natCast]
  -- one name for each layer, so that every bound is linear in the layer before it
  generalize hcentury : min (inEra / 36524) 3 = century
  generalize hinCentury : inEra - century * 36524 = inCentury
  generalize hquad : inCentury / 1461 = quad
  generalize hinQuad : inCentury - quad * 1461 = inQuad
  generalize hsingle : min (inQuad / 365) 3 = single
  generalize hinYear : inQuad - single * 365 = inYear
  refine ⟨shifted / 146097, century, quad, single, inYear, ?_, ?_, ?_, ?_, ?_, ?_, rfl⟩
  · omega
  · omega
  · omega
  · omega
  · omega
  · omega

/-- **`ofDayNumber` inverts `dayNumber`**: the date of a day number has that day number. -/
theorem dayNumber_ofDayNumber (n : Int) : (ofDayNumber n).dayNumber = n := by
  obtain ⟨era, century, quad, single, inYear, hcentury, hquad, hsingle, hinYear, -, hn, hdate⟩ :=
    ofDayNumber_peel n
  rw [hdate, dayNumber_ofMarch _ hinYear, marchStart]
  omega

/-- **The date of a day number exists.** -/
theorem isValid_ofDayNumber (n : Int) : (ofDayNumber n).isValid = true := by
  obtain ⟨era, century, quad, single, inYear, hcentury, hquad, hsingle, hinYear, hlast, -, hdate⟩ :=
    ofDayNumber_peel n
  rw [hdate]
  apply isValid_ofMarch
  by_cases hshort : inYear ≤ 364
  · exact Or.inl hshort
  · right
    refine ⟨by omega, ?_⟩
    obtain ⟨hthree, hcenturies⟩ := hlast (by omega)
    simp only [isLeap, Bool.and_eq_true, Bool.or_eq_true, beq_iff_eq, bne_iff_ne]
    by_cases hquads : quad = 24
    · -- the last year of an era, after the last group of its last century
      have hera := hcenturies hquads
      omega
    · omega

/-- The date of a day on or after the first of March of the year 0 has no negative year. -/
theorem year_nonneg {n : Int} (h : 0 ≤ n + marchOrigin) : 0 ≤ (ofDayNumber n).year := by
  obtain ⟨era, century, quad, single, inYear, hcentury, hquad, hsingle, hinYear, -, hn, hdate⟩ :=
    ofDayNumber_peel n
  have hera : 0 ≤ era := by omega
  rw [hdate, ofMarch]
  split
  · show 0 ≤ era * 400 + (century * 100 + quad * 4 + single : Nat)
    omega
  · show 0 ≤ era * 400 + (century * 100 + quad * 4 + single : Nat) + 1
    omega

/-! ## Uniqueness -/

/-- A day of a year lies in the month whose days it is among. -/
theorem month_eq {month inYear : Nat} (hbefore : daysBeforeMonth month ≤ inYear)
    (hnext : inYear < daysBeforeMonth (month + 1)) : (5 * inYear + 2) / 153 = month := by
  unfold daysBeforeMonth at hbefore hnext
  omega

/-- The day of a month that has so many days. -/
theorem ofMarch_month (year : Int) (month : Nat) {day : Nat} (hday : 1 ≤ day)
    (hnext : daysBeforeMonth month + day ≤ daysBeforeMonth (month + 1)) :
    ofMarch year (daysBeforeMonth month + day - 1) =
      if month < 10 then ⟨year, month + 3, day⟩ else ⟨year + 1, month - 9, day⟩ := by
  have hfound : (5 * (daysBeforeMonth month + day - 1) + 2) / 153 = month :=
    month_eq (by omega) (by omega)
  unfold ofMarch
  rw [hfound]
  dsimp only
  rw [Nat.add_sub_assoc hday, Nat.add_sub_cancel_left, Nat.sub_add_cancel hday]

/-- **A date that exists is a day of a year that begins in March** (`ofMarch`); it is the last day
of a long one only where the year after it is a leap year. -/
theorem exists_ofMarch {d : Date} (h : d.isValid = true) :
    ∃ (year : Int) (inYear : Nat), d = ofMarch year inYear ∧
      (inYear ≤ 364 ∨ inYear = 365 ∧ isLeap (year + 1) = true) := by
  obtain ⟨year, month, day⟩ := d
  unfold isValid at h
  simp only [Bool.and_eq_true, decide_eq_true_eq] at h
  obtain ⟨⟨⟨hmonth, hmonths⟩, hday⟩, hdays⟩ := h
  by_cases hspring : 3 ≤ month
  · obtain ⟨month, rfl⟩ := Nat.exists_eq_add_of_le' hspring
    have hlt : month < 10 := by omega
    have hlength := daysInMonth_of_march year hlt
    have hlast : daysBeforeMonth month + daysInMonth year (month + 3) ≤ 306 := by
      rw [← hlength]
      unfold daysBeforeMonth
      omega
    have hdate := ofMarch_month year month hday (by omega)
    rw [if_pos hlt] at hdate
    exact ⟨year, _, hdate.symm, Or.inl (by omega)⟩
  · -- January and February come at the end of a year that begins in March
    have hwinter : month = 1 ∨ month = 2 := by omega
    rcases hwinter with rfl | rfl
    · have hjanuary : daysInMonth year 1 = 31 := rfl
      have hten : daysBeforeMonth 10 = 306 ∧ daysBeforeMonth (10 + 1) = 337 := by decide
      have hdate := ofMarch_month (year - 1) 10 hday (by omega)
      rw [if_neg (by decide), Int.sub_add_cancel] at hdate
      exact ⟨year - 1, _, hdate.symm, Or.inl (by omega)⟩
    · -- the leap day is the only one after the first 365
      have hfebruary : daysInMonth year 2 = if isLeap year then 29 else 28 := rfl
      have heleven : daysBeforeMonth 11 = 337 ∧ daysBeforeMonth (11 + 1) = 367 := by decide
      have hshort : daysInMonth year 2 ≤ 29 ∧ (isLeap year = false → daysInMonth year 2 = 28) := by
        rw [hfebruary]
        cases isLeap year <;> decide
      have hdate := ofMarch_month (year - 1) 11 hday (by omega)
      rw [if_neg (by decide), Int.sub_add_cancel] at hdate
      refine ⟨year - 1, _, hdate.symm, ?_⟩
      rw [Int.sub_add_cancel]
      cases hleap : isLeap year with
      | false =>
        have := hshort.2 hleap
        exact Or.inl (by omega)
      | true =>
        have hlong : daysBeforeMonth 11 + day - 1 ≤ 364 ∨ daysBeforeMonth 11 + day - 1 = 365 := by
          omega
        exact hlong.imp_right fun hlast => ⟨hlast, rfl⟩

/-- A year that begins in March is over when the next one begins. -/
theorem lt_marchStart_succ {year : Int} {inYear : Nat}
    (h : inYear ≤ 364 ∨ inYear = 365 ∧ isLeap (year + 1) = true) :
    marchStart year + inYear < marchStart (year + 1) := by
  simp only [isLeap, Bool.and_eq_true, Bool.or_eq_true, beq_iff_eq, bne_iff_ne] at h
  unfold marchStart
  omega

/-- **Dates that exist are told apart by their day numbers.** -/
theorem eq_of_dayNumber {d d' : Date} (h : d.isValid = true) (h' : d'.isValid = true)
    (hsame : d.dayNumber = d'.dayNumber) : d = d' := by
  obtain ⟨year, inYear, rfl, hin⟩ := exists_ofMarch h
  obtain ⟨year', inYear', rfl, hin'⟩ := exists_ofMarch h'
  rw [dayNumber_ofMarch year (by omega), dayNumber_ofMarch year' (by omega)] at hsame
  have hover := lt_marchStart_succ hin
  have hover' := lt_marchStart_succ hin'
  -- of two years the later one begins when the earlier one is over
  have hmono {first second : Int} (hlt : first < second) :
      marchStart (first + 1) ≤ marchStart second := by
    unfold marchStart
    omega
  have hyears : year = year' := by
    rcases Int.lt_trichotomy year year' with hlt | heq | hgt
    · have := hmono hlt
      omega
    · exact heq
    · have := hmono hgt
      omega
  subst hyears
  have hdays : inYear = inYear' := by omega
  rw [hdays]

/-- **`dayNumber` inverts `ofDayNumber`** on the dates that exist. -/
theorem ofDayNumber_dayNumber {d : Date} (h : d.isValid = true) : ofDayNumber d.dayNumber = d :=
  eq_of_dayNumber (isValid_ofDayNumber _) h (dayNumber_ofDayNumber _)

end CimBroker.Time.Date
