/-
# CimBroker.Proofs.WireGrammar — which texts are read as timestamps

Wire text has a grammar: fourteen digits of date and time, perhaps a point and up to six decimal
places, and four characters of zone (`SpellsTime`).  It says what a text stands for without a word
on where the reader cuts it.  The reader takes the texts of the grammar whose fields make up a date,
a time of day and a zone of less than a day, and those that start with fourteen zeros; everything
else is malformed.

The reader cuts the zone off at the end and the fields off at fixed places, and it multiplies what
it finds.  `readInRange` is the same reading with every such step taken only within its range, on a
text that is long enough and in words of 32 bits.  It never leaves them (`readInRange_eq`).

`parsed_iff_spelled` has all of this: what is read as unset, what is read as which stamp, that
nothing else is read, and that the reading stays in its range.  Instants that the writer would not
write are read like any others.
-/
import CimBroker.Proofs.IntegerReading
import CimBroker.Proofs.WireRoundTrip

namespace CimBroker.Time

open Number (Positional Sign)

/-! ## The grammar -/

/-- So many decimal digits stand for the number. -/
def Digits (count : Nat) (ds : List Char) (n : Nat) : Prop :=
  ds.length = count ∧ Positional 10 ds n

/-- The text is a fraction of a second, in microseconds: nothing, or a point and one to six digits,
which are decimal places. -/
inductive SpellsFraction : List Char → Nat → Prop
  | absent : SpellsFraction [] 0
  | present {ds : List Char} {n micros : Nat} (hlength : ds.length ≤ 6) (hds : Positional 10 ds n)
      (hmicros : micros * 10 ^ ds.length = n * 10 ^ 6) : SpellsFraction ('.' :: ds) micros

/-- The four characters are a zone, with its offset in minutes: a colon and anything for the offset
zero, or a sign or none and digits. -/
inductive SpellsZone : List Char → Int → Prop
  | interval {rest : List Char} (hlength : rest.length = 3) : SpellsZone (':' :: rest) 0
  | offset {sign : Sign} {ds : List Char} {n : Nat} (hlength : (sign.text ++ ds).length = 4)
      (hds : Positional 10 ds n) : SpellsZone (sign.text ++ ds) (sign.factor * n)

/-- The text spells a clock time and the offset of a zone in minutes. -/
inductive SpellsTime : List Char → ClockTime → Int → Prop
  | intro {year month day hour minute second fraction zone : List Char}
      {y mo d h mi s micros : Nat} {minutes : Int} (hyear : Digits 4 year y)
      (hmonth : Digits 2 month mo) (hday : Digits 2 day d) (hhour : Digits 2 hour h)
      (hminute : Digits 2 minute mi) (hsecond : Digits 2 second s)
      (hfraction : SpellsFraction fraction micros) (hzone : SpellsZone zone minutes) :
      SpellsTime
        (year ++ (month ++ (day ++ (hour ++ (minute ++ (second ++ fraction))))) ++ zone)
        ⟨⟨y, mo, d⟩, h, mi, s, micros * 1000⟩ minutes

/-- There is such a time, and the zone lies within a day. -/
structure InBounds (t : ClockTime) (minutes : Int) : Prop where
  date : t.date.isValid = true
  hour : t.hour < 24
  minute : t.minute < 60
  second : t.second < 60
  zone : minutes.natAbs < 1440

/-- The stamp shows the time, which is in no leap second, in a zone of the given offset. -/
structure Stamp.Shows (s : Stamp) (t : ClockTime) (minutes : Int) : Prop where
  clock : s.clock = t
  nanos : s.nanos < 1000000000
  offset : s.offset = minutes * 60

/-- The text consists of at least five characters, all of them ASCII. -/
def IsPlain (text : String) : Prop := 5 ≤ text.length ∧ ∀ c ∈ text.toList, c.toNat < 0x80

/-- The text is documented to stand for an unset timestamp. -/
def SpellsUnset (text : String) : Prop :=
  IsPlain text ∧ List.replicate 14 '0' <+: text.toList

/-- The text is documented to stand for the stamp. -/
def SpellsStamp (text : String) (s : Stamp) : Prop :=
  IsPlain text ∧ ∃ t minutes, SpellsTime text.toList t minutes ∧ InBounds t minutes ∧
    s.Shows t minutes

theorem digits_iff_read {count n : Nat} {ds : List Char} :
    Digits count ds n ↔ ds.length = count ∧ Number.ofDecimal? ds = some n :=
  and_congr_right fun _ => Number.ofDigits?_eq_some_iff.symm

theorem SpellsZone.length {cs : List Char} {minutes : Int} (h : SpellsZone cs minutes) :
    cs.length = 4 := by
  cases h with
  | interval hlength => exact congrArg (· + 1) hlength
  | offset hlength => exact hlength

/-- Four characters spell no more than four digits. -/
theorem SpellsZone.natAbs_lt {cs : List Char} {minutes : Int} (h : SpellsZone cs minutes) :
    minutes.natAbs < 10 ^ 4 := by
  cases h with
  | interval => decide
  | @offset sign ds n hlength hds =>
    have hfour : ds.length ≤ 4 := by
      rw [List.length_append] at hlength
      omega
    have hn : n < 10 ^ 4 := Nat.lt_of_lt_of_le
      (Number.lt_of_ofDecimal? (Number.ofDigits?_eq_some_iff.mpr hds))
      (Nat.pow_le_pow_right (by omega) hfour)
    cases sign <;> simp only [Sign.factor] <;> omega

namespace Stamp

/-- The stamp that shows a time in a zone is the stamp of that time. -/
theorem Shows.eq_ofClock {s : Stamp} {t : ClockTime} {minutes : Int} (h : s.Shows t minutes)
    (hwhole : t.nanos % 1000 = 0) : s = Stamp.ofClock t (minutes * 60) := by
  have hnanos : t.nanos = s.nanos := by
    rw [← h.clock]
    exact Nat.mod_eq_of_lt h.nanos
  have hcut : t.nanos / 1000 * 1000 = t.nanos := by omega
  have hback := s.ofClock_clock h.nanos
  rw [h.clock, h.offset, hcut, truncated, ← hnanos, hcut] at hback
  calc s = { s with nanos := t.nanos } := by rw [hnanos]
    _ = Stamp.ofClock t (minutes * 60) := hback.symm

/-- The stamp of a time shows it. -/
theorem shows_ofClock {t : ClockTime} {minutes : Int} (h : InBounds t minutes)
    (hnanos : t.nanos < 1000000000) : (Stamp.ofClock t (minutes * 60)).Shows t minutes :=
  ⟨clock_ofClock _ h.date h.hour h.minute h.second hnanos, hnanos, rfl⟩

end Stamp

/-! ## What the reader finds -/

namespace Timestamp

theorem fractionMicros?_eq_some_iff {cs : List Char} {micros : Nat} :
    fractionMicros? cs = some micros ↔ SpellsFraction cs micros := by
  constructor
  · intro h
    unfold fractionMicros? at h
    split at h
    · obtain rfl := Option.some.inj h
      exact .absent
    · next ds =>
      obtain ⟨hlength, hread⟩ := Option.ite_none_right_eq_some.mp h
      obtain ⟨n, hn, rfl⟩ := Option.map_eq_some_iff.mp hread
      refine .present hlength (Number.ofDigits?_eq_some_iff.mp hn) ?_
      rw [Nat.mul_assoc, ← Nat.pow_add, Nat.sub_add_cancel hlength]
    · exact absurd h (by simp)
  · intro h
    cases h with
    | absent => rfl
    | @present ds n _ hlength hds hmicros =>
      have hread : Number.ofDecimal? ds = some n := Number.ofDigits?_eq_some_iff.mpr hds
      have hscaled : n * 10 ^ (6 - ds.length) = micros := by
        have hpos : 0 < 10 ^ ds.length := Nat.pow_pos (by omega)
        apply Nat.eq_of_mul_eq_mul_right hpos
        rw [Nat.mul_assoc, ← Nat.pow_add, Nat.sub_add_cancel hlength, hmicros]
      rw [fractionMicros?, if_pos hlength, hread, Option.map_some, hscaled]

/-- Digits behind a sign are multiplied by it. -/
theorem zoneMinutes?_sign (sign : Sign) {ds : List Char}
    (hbare : sign = .absent → ds.head? ≠ some ':' ∧ ds.head? ≠ some '+' ∧ ds.head? ≠ some '-') :
    zoneMinutes? (sign.text ++ ds) =
      (Number.ofDecimal? ds).map fun n : Nat => sign.factor * (n : Int) := by
  cases sign with
  | plus =>
    show ((Number.ofDecimal? ds).bind fun n => some (n : Int)).map (fun n => n) = _
    cases Number.ofDecimal? ds with
    | none => rfl
    | some n => exact congrArg some (Int.one_mul n).symm
  | minus =>
    show ((Number.ofDecimal? ds).bind fun n => some (n : Int)).map (fun n => -n) = _
    cases Number.ofDecimal? ds with
    | none => rfl
    | some n => exact congrArg some (Int.neg_one_mul n).symm
  | absent =>
    obtain ⟨hcolon, hplus, hminus⟩ := hbare rfl
    have hread : zoneMinutes? ds =
        ((Number.ofDecimal? ds).bind fun n => some (n : Int)).map (fun n => n) := by
      unfold zoneMinutes?
      split
      · exact absurd rfl hcolon
      · exact absurd rfl hplus
      · exact absurd rfl hminus
      · rfl
    show zoneMinutes? ds = _
    rw [hread]
    cases Number.ofDecimal? ds with
    | none => rfl
    | some n => exact congrArg some (Int.one_mul n).symm

/-- A text is a colon and something, or a sign or none and something. -/
theorem zone_cases (cs : List Char) :
    (∃ rest, cs = ':' :: rest) ∨ ∃ (sign : Sign) (ds : List Char), cs = sign.text ++ ds ∧
      (sign = .absent → ds.head? ≠ some ':' ∧ ds.head? ≠ some '+' ∧ ds.head? ≠ some '-') := by
  by_cases hcolon : cs.head? = some ':'
  · obtain ⟨rest, hrest⟩ := List.head?_eq_some_iff.mp hcolon
    exact .inl ⟨rest, hrest⟩
  by_cases hplus : cs.head? = some '+'
  · obtain ⟨ds, hds⟩ := List.head?_eq_some_iff.mp hplus
    exact .inr ⟨.plus, ds, hds, nofun⟩
  by_cases hminus : cs.head? = some '-'
  · obtain ⟨ds, hds⟩ := List.head?_eq_some_iff.mp hminus
    exact .inr ⟨.minus, ds, hds, nofun⟩
  · exact .inr ⟨.absent, cs, rfl, fun _ => ⟨hcolon, hplus, hminus⟩⟩

theorem zoneMinutes?_eq_some_iff {cs : List Char} {minutes : Int} (hlength : cs.length = 4) :
    zoneMinutes? cs = some minutes ↔ SpellsZone cs minutes := by
  constructor
  · intro h
    rcases zone_cases cs with ⟨rest, rfl⟩ | ⟨sign, ds, rfl, hbare⟩
    · obtain rfl := Option.some.inj h
      exact .interval (by simpa using hlength)
    · rw [zoneMinutes?_sign sign hbare] at h
      obtain ⟨n, hn, rfl⟩ := Option.map_eq_some_iff.mp h
      exact .offset hlength (Number.ofDigits?_eq_some_iff.mp hn)
  · intro h
    cases h with
    | interval => rfl
    | @offset sign ds n _ hds =>
      have hread : Number.ofDecimal? ds = some n := Number.ofDigits?_eq_some_iff.mpr hds
      rw [zoneMinutes?_sign sign, hread, Option.map_some]
      -- digits start with neither a colon nor a sign
      intro _
      obtain ⟨c, rest, rfl, hc⟩ := hds.first
      refine ⟨?_, ?_, ?_⟩ <;> · rintro ⟨⟩; exact hc (by decide)

/-- The fraction is what stands behind fourteen digits. -/
theorem fraction_of_leadingFields? {cs fraction : List Char} {date : Date} {h mi s : Nat}
    (hfields : leadingFields? cs = some (date, h, mi, s, fraction)) :
    14 ≤ cs.length ∧ cs.drop 14 = fraction := by
  obtain ⟨year, month, day, hour, minute, second, y, mo, d, -, hyear, hmonth, hday, hhour, hminute,
    hsecond, htext⟩ := columns_of_leadingFields? hfields
  have hfront : (year ++ (month ++ (day ++ (hour ++ (minute ++ second))))).length = 14 := by
    simp only [List.length_append, hyear.1, hmonth.1, hday.1, hhour.1, hminute.1, hsecond.1]
  have hcut : cs = (year ++ (month ++ (day ++ (hour ++ (minute ++ second))))) ++ fraction := by
    simp only [htext, List.append_assoc]
  rw [hcut, List.drop_left' hfront, List.length_append, hfront]
  exact ⟨Nat.le_add_right 14 _, rfl⟩

/-- Fourteen zeros hold no month. -/
theorem month_of_zeros {cs fraction : List Char} {date : Date} {h mi s : Nat}
    (hfields : leadingFields? cs = some (date, h, mi, s, fraction))
    (hzeros : cs.take 14 = List.replicate 14 '0') : date.month = 0 := by
  obtain ⟨year, month, _, _, _, _, y, mo, d, rfl, hyear, hmonth, -, -, -, -, rfl⟩ :=
    columns_of_leadingFields? hfields
  have hcolumn := congrArg (fun digits => (digits.drop 4).take 2) hzeros
  rw [List.drop_take, List.take_take, List.drop_left' hyear.1] at hcolumn
  rw [show min 2 (14 - 4) = 2 from rfl, List.take_left' hmonth.1] at hcolumn
  have hread := hmonth.2
  rw [hcolumn] at hread
  exact (Option.some.inj hread).symm

/-- A text of the grammar is cut by the reader where its parts meet. -/
theorem cut_of_spellsTime {cs : List Char} {t : ClockTime} {minutes : Int}
    (h : SpellsTime cs t minutes) :
    ∃ fraction micros, zoneMinutes? (cs.drop (cs.length - 4)) = some minutes ∧
      leadingFields? (cs.take (cs.length - 4)) =
        some (t.date, t.hour, t.minute, t.second, fraction) ∧
      fractionMicros? fraction = some micros ∧ t.nanos = micros * 1000 := by
  obtain ⟨hyear, hmonth, hday, hhour, hminute, hsecond, hfraction, hzone⟩ := h
  rename_i year month day hour minute second fraction zone y mo d h mi s micros
  have hlength := hzone.length
  have hcut :
      (year ++ (month ++ (day ++ (hour ++ (minute ++ (second ++ fraction))))) ++ zone).length - 4 =
        (year ++ (month ++ (day ++ (hour ++ (minute ++ (second ++ fraction)))))).length := by
    rw [List.length_append, hlength, Nat.add_sub_cancel]
  refine ⟨fraction, micros, ?_, ?_, fractionMicros?_eq_some_iff.mpr hfraction, rfl⟩
  · rw [hcut, List.drop_left]
    exact (zoneMinutes?_eq_some_iff hlength).mpr hzone
  · rw [hcut, List.take_left]
    exact leadingFields?_columns (digits_iff_read.mp hyear) (digits_iff_read.mp hmonth)
      (digits_iff_read.mp hday) (digits_iff_read.mp hhour) (digits_iff_read.mp hminute)
      (digits_iff_read.mp hsecond) fraction

/-- **The reader finds in a text what the grammar says it spells.** -/
theorem reading_iff {cs : List Char} {s : Stamp} :
    Reading cs s ↔ (5 ≤ cs.length ∧ ∀ c ∈ cs, c.toNat < 0x80) ∧
      ∃ t minutes, SpellsTime cs t minutes ∧ InBounds t minutes ∧ s.Shows t minutes := by
  constructor
  · rintro ⟨hlong, hascii, -, minutes, date, hour, minute, second, micros, fraction, hzone, hfields,
      hmicros, ⟨hdate, hhour, hminute, hsecond⟩, hreach, rfl⟩
    have hbounds : InBounds ⟨date, hour, minute, second, micros * 1000⟩ minutes :=
      ⟨hdate, hhour, hminute, hsecond, hreach⟩
    have hlt := lt_of_fractionMicros? hmicros
    refine ⟨⟨hlong, hascii⟩, _, minutes, ?_, hbounds,
      Stamp.shows_ofClock hbounds (show micros * 1000 < 1000000000 by omega)⟩
    have hzoneLength : (cs.drop (cs.length - 4)).length = 4 := by
      rw [List.length_drop]
      omega
    obtain ⟨year, month, day, hours, minutes', seconds, y, mo, d, rfl, hyear, hmonth, hday, hhours,
      hminutes, hseconds, htext⟩ := columns_of_leadingFields? hfields
    have hspelled := SpellsTime.intro (digits_iff_read.mpr hyear) (digits_iff_read.mpr hmonth)
      (digits_iff_read.mpr hday) (digits_iff_read.mpr hhours) (digits_iff_read.mpr hminutes)
      (digits_iff_read.mpr hseconds) (fractionMicros?_eq_some_iff.mp hmicros)
      ((zoneMinutes?_eq_some_iff hzoneLength).mp hzone)
    rw [← htext, List.take_append_drop] at hspelled
    exact hspelled
  · rintro ⟨⟨hlong, hascii⟩, t, minutes, hspelled, hbounds, hshows⟩
    obtain ⟨fraction, micros, hzone, hfields, hmicros, hnanos⟩ := cut_of_spellsTime hspelled
    refine ⟨hlong, hascii, fun hzeros => ?_, minutes, t.date, t.hour, t.minute, t.second, micros,
      fraction, hzone, hfields, hmicros,
      ⟨hbounds.date, hbounds.hour, hbounds.minute, hbounds.second⟩, hbounds.zone, ?_⟩
    · -- there is no month zero
      have hlength := (fraction_of_leadingFields? hfields).1
      rw [List.length_take] at hlength
      have hmonth : t.date.month = 0 := by
        apply month_of_zeros hfields
        rw [List.take_take, Nat.min_eq_left (by omega)]
        exact hzeros
      have hpositive := (date_bounds hbounds.date).1
      omega
    · rw [hshows.eq_ofClock (by omega), ← hnanos]

/-! ## Staying in range -/

/-- What stands between two places of a text, if the text reaches that far. -/
def slice? (cs : List Char) (start stop : Nat) : Option (List Char) :=
  if start ≤ stop ∧ stop ≤ cs.length then some ((cs.take stop).drop start) else none

/-- A difference, if it is not negative. -/
def minus? (m n : Nat) : Option Nat := if n ≤ m then some (m - n) else none

/-- A number, if it is an unsigned word of 32 bits. -/
def unsigned? (n : Nat) : Option Nat := if n < 2 ^ 32 then some n else none

/-- A number, if it is a signed word of 32 bits. -/
def signed? (n : Int) : Option Int := if -2 ^ 31 ≤ n ∧ n < 2 ^ 31 then some n else none

/-- The microseconds of a fraction, if every step towards them stays in range. -/
def fractionInRange? : List Char → Option (Option Nat)
  | [] => some (some 0)
  | '.' :: ds =>
    if ds.length ≤ 6 then
      (Number.ofDecimal? ds).elim (some none) fun n => do
        let places ← minus? 6 ds.length
        let scale ← unsigned? (10 ^ places)
        let micros ← unsigned? (n * scale)
        return some micros
    else some none
  | _ => some none

/-- Reads wire text, and has no outcome at all where a slice or a product is out of range. -/
def readInRange (text : String) : ExceptT Error Option Timestamp := do
  let malformed (reason : String) : Error := .malformedDatetime text reason
  let cs := text.toList
  if cs.length < 5 || cs.any fun c => 0x80 ≤ c.toNat then
    throw (malformed "invalid datetime string")
  if (cs.take 14) = List.replicate 14 '0' then return none
  let zoneStart ← ExceptT.lift (minus? cs.length 4)
  let _ ← ExceptT.lift cs[zoneStart]?
  let zone ← (zoneMinutes? (← ExceptT.lift (slice? cs zoneStart cs.length))).elim
    (throw (malformed "zone did not parse")) pure
  let stamp ← ExceptT.lift (slice? cs 0 zoneStart)
  let (date, hour, minute, second, _) ← (leadingFields? stamp).elim
    (throw (malformed "date/time fields did not parse")) pure
  let fraction ← ExceptT.lift (slice? stamp 14 stamp.length)
  let micros ← (← ExceptT.lift (fractionInRange? fraction)).elim
    (throw (malformed "fraction did not parse")) pure
  if !(date.isValid && hour < 24 && minute < 60 && second < 60) then
    throw (malformed "date/time out of range")
  let offset ← ExceptT.lift (signed? (zone * 60))
  if 1440 ≤ zone.natAbs then
    throw (malformed "zone out of range")
  return some (Stamp.ofClock ⟨date, hour, minute, second, micros * 1000⟩ offset)

theorem fractionInRange?_eq (cs : List Char) : fractionInRange? cs = some (fractionMicros? cs) := by
  fun_cases fractionMicros? cs with
  | case1 => rfl
  | case2 ds hlength =>
    rw [fractionInRange?, if_pos hlength]
    cases hread : Number.ofDecimal? ds with
    | none => rfl
    | some n =>
      have hplaces : minus? 6 ds.length = some (6 - ds.length) := if_pos hlength
      have hscale : 10 ^ (6 - ds.length) ≤ 10 ^ 6 := Nat.pow_le_pow_right (by omega) (by omega)
      have hpower : unsigned? (10 ^ (6 - ds.length)) = some (10 ^ (6 - ds.length)) :=
        if_pos (by omega)
      -- six digits and the zeros that are missing make up no more than a million
      have hmicros : fractionMicros? ('.' :: ds) = some (n * 10 ^ (6 - ds.length)) := by
        rw [fractionMicros?, if_pos hlength, hread]
        rfl
      have hlt := lt_of_fractionMicros? hmicros
      have hproduct : unsigned? (n * 10 ^ (6 - ds.length)) = some (n * 10 ^ (6 - ds.length)) :=
        if_pos (by omega)
      simp [hplaces, hpower, hproduct]
  | case3 ds hlength => rw [fractionInRange?, if_neg hlength]
  | case4 cs hnil hpoint =>
    unfold fractionInRange?
    split
    · exact absurd rfl hnil
    · exact absurd rfl (hpoint _)
    · rfl

section Steps

variable {α β : Type} {e : Error}

/-- A step that is in range is taken. -/
theorem run_lift_bind {found : Option α} {x : α} (h : found = some x)
    (next : α → ExceptT Error Option β) : (ExceptT.lift found >>= next).run = (next x).run := by
  subst h
  rfl

/-- A part that is required is required in both. -/
theorem run_elim_bind {part : Option α} {next : α → ExceptT Error Option β}
    {next' : α → Except Error β} (h : ∀ x, part = some x → (next x).run = some (next' x)) :
    (part.elim (throw e) pure >>= next).run = some (part.elim (throw e) pure >>= next') := by
  cases part with
  | none => rfl
  | some x => exact h x rfl

/-- What is refused is refused in both. -/
theorem run_ite_throw {refused : Prop} [Decidable refused] {next : α → ExceptT Error Option β}
    {next' : α → Except Error β} {outcome : ExceptT Error Option β} {outcome' : Except Error β}
    (h : ¬ refused → outcome.run = some outcome') :
    (if refused then throw e >>= next else outcome).run =
      some (if refused then throw e >>= next' else outcome') := by
  by_cases hrefused : refused
  · rw [if_pos hrefused, if_pos hrefused]
    rfl
  · rw [if_neg hrefused, if_neg hrefused]
    exact h hrefused

end Steps

/-- **The reader never leaves its range.** -/
theorem readInRange_eq (text : String) : (readInRange text).run = some (parse text) := by
  unfold readInRange parse
  dsimp only
  generalize text.toList = cs
  refine run_ite_throw fun hchecks => ?_
  have hlong : 5 ≤ cs.length := by
    by_contra hshort
    simp only [Bool.or_eq_true, decide_eq_true_eq, not_or] at hchecks
    omega
  by_cases hunset : cs.take 14 = List.replicate 14 '0'
  · rw [if_pos hunset, if_pos hunset]
    rfl
  rw [if_neg hunset, if_neg hunset]
  -- the zone is cut off a text of at least five characters
  have hstart : minus? cs.length 4 = some (cs.length - 4) := if_pos (by omega)
  obtain ⟨first, hfirst⟩ : ∃ c, cs[cs.length - 4]? = some c :=
    ⟨_, List.getElem?_eq_getElem (by omega)⟩
  have hzone : slice? cs (cs.length - 4) cs.length = some (cs.drop (cs.length - 4)) := by
    rw [slice?, if_pos (by omega), List.take_length]
  have hstamp : slice? cs 0 (cs.length - 4) = some (cs.take (cs.length - 4)) := by
    rw [slice?, if_pos (by omega), List.drop_zero]
  have hminutes : (cs.drop (cs.length - 4)).length = 4 := by
    rw [List.length_drop]
    omega
  rw [run_lift_bind hstart, run_lift_bind hfirst, run_lift_bind hzone]
  refine run_elim_bind fun zone hread => ?_
  rw [run_lift_bind hstamp]
  refine run_elim_bind ?_
  rintro ⟨date, hour, minute, second, fraction⟩ hfields
  dsimp only
  -- the fraction starts behind the fourteen digits that were read
  have hfraction : slice? (cs.take (cs.length - 4)) 14 (cs.take (cs.length - 4)).length =
      some fraction := by
    obtain ⟨hlength, hdrop⟩ := fraction_of_leadingFields? hfields
    rw [slice?, if_pos (by omega), List.take_length, hdrop]
  rw [run_lift_bind hfraction, run_lift_bind (fractionInRange?_eq fraction)]
  refine run_elim_bind fun micros _ => ?_
  refine run_ite_throw fun _ => ?_
  have hoffset : signed? (zone * 60) = some (zone * 60) := by
    have hlt := ((zoneMinutes?_eq_some_iff hminutes).mp hread).natAbs_lt
    exact if_pos (by omega)
  rw [run_lift_bind hoffset]
  exact run_ite_throw fun _ => rfl

/-! ## Accepted and malformed texts -/

/-- A stamp is read from exactly the texts that spell it. -/
theorem parse_eq_stamp_iff {text : String} {s : Stamp} :
    parse text = .ok (some s) ↔ SpellsStamp text s := by
  rw [parse_eq_some_iff, reading_iff, SpellsStamp, IsPlain, String.length_toList]

/-- Fourteen zeros at the start stand for an unset timestamp. -/
theorem parse_eq_none_iff {text : String} : parse text = .ok none ↔ SpellsUnset text := by
  unfold parse SpellsUnset IsPlain
  dsimp only
  rw [ite_throw_bind_eq_ok, ← String.length_toList]
  generalize text.toList = cs
  simp only [Bool.or_eq_true, decide_eq_true_eq, List.any_eq_true, not_or, not_exists, not_and,
    Nat.not_le, Nat.not_lt]
  refine and_congr_right fun _ => ?_
  have hzeros : List.replicate 14 '0' <+: cs ↔ cs.take 14 = List.replicate 14 '0' := by
    rw [List.prefix_iff_eq_take, List.length_replicate]
    exact eq_comm
  rw [hzeros]
  by_cases hunset : cs.take 14 = List.replicate 14 '0'
  · rw [if_pos hunset]
    exact iff_of_true rfl hunset
  · rw [if_neg hunset]
    refine iff_of_false ?_ hunset
    simp only [elim_throw_bind_eq_ok, ite_throw_bind_eq_ok]
    rintro ⟨_, _, _, _, _, _, _, _, hstamp⟩
    cases hstamp

section Refusals

variable {α β : Type} {e e' : Error}

/-- A part that is required and missing is refused. -/
theorem elim_throw_bind_eq_error {part : Option α} {next : α → Except Error β}
    (h : (part.elim (throw e) pure >>= next) = .error e') :
    e' = e ∨ ∃ x, next x = .error e' := by
  cases part with
  | none => exact .inl (Except.error.inj h).symm
  | some x => exact .inr ⟨x, h⟩

theorem ite_throw_bind_eq_error {refused : Prop} [Decidable refused] {next : α → Except Error β}
    {outcome : Except Error β} (h : (if refused then throw e >>= next else outcome) = .error e') :
    e' = e ∨ outcome = .error e' := by
  by_cases hrefused : refused
  · rw [if_pos hrefused] at h
    exact .inl (Except.error.inj h).symm
  · rw [if_neg hrefused] at h
    exact .inr h

end Refusals

/-- What is not read is malformed. -/
theorem malformed_of_parse {text : String} {e : Error} (h : parse text = .error e) :
    ∃ reason, e = .malformedDatetime text reason := by
  unfold parse at h
  rcases ite_throw_bind_eq_error h with rfl | h
  · exact ⟨_, rfl⟩
  split at h
  · cases h
  -- every part that may be missing and every check has its own reason
  rcases elim_throw_bind_eq_error h with rfl | ⟨zone, h⟩
  · exact ⟨_, rfl⟩
  rcases elim_throw_bind_eq_error h with rfl | ⟨fields, h⟩
  · exact ⟨_, rfl⟩
  rcases elim_throw_bind_eq_error h with rfl | ⟨micros, h⟩
  · exact ⟨_, rfl⟩
  rcases ite_throw_bind_eq_error h with rfl | h
  · exact ⟨_, rfl⟩
  rcases ite_throw_bind_eq_error h with rfl | h
  · exact ⟨_, rfl⟩
  · cases h

/-- **Wire text is read exactly as its grammar says.** `parse` takes a text for an unset timestamp
if it is one of `SpellsUnset`, and for a stamp if it spells that stamp (`SpellsStamp`).  Anything
else is malformed.  On the way every slice lies within the text and every product within its word
(`readInRange`). -/
theorem parsed_iff_spelled (text : String) :
    (parse text = .ok none ↔ SpellsUnset text) ∧
      (∀ s, parse text = .ok (some s) ↔ SpellsStamp text s) ∧
      ((∃ t, parse text = .ok t) ∨
        ∃ reason, parse text = .error (.malformedDatetime text reason)) ∧
      (readInRange text).run = some (parse text) := by
  refine ⟨parse_eq_none_iff, fun s => parse_eq_stamp_iff, ?_, readInRange_eq text⟩
  cases h : parse text with
  | ok t => exact .inl ⟨t, rfl⟩
  | error e =>
    obtain ⟨reason, rfl⟩ := malformed_of_parse h
    exact .inr ⟨reason, rfl⟩

end Timestamp
end CimBroker.Time
