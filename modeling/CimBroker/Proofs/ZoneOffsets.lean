/-
# CimBroker.Proofs.ZoneOffsets — which zone offsets a timestamp can have

A timestamp is made from a stamp, read from a JSON document, read from wire text or decoded from a
variant (`Source`).  The first two refuse a zone offset that three digits of minutes do not hold.
Wire text is read by columns, and without a sign the four characters of the zone have room for four
digits: that is the one way to an offset of a thousand minutes or more (`source_offset_fits_iff`).
Such an offset is written with a sign and four digits, one column too many, and what is written is
not read back (`parse_stampText_of_wide`).

`wide_offset_is_read` is a text that is read so, and `offset_of_three_and_four_digits` has the two
sides of the bound.  What the other side means by an offset of a thousand minutes is not asked.
-/
import CimBroker.Json.Reader
import CimBroker.Proofs.WireGrammar
import CimBroker.Time.Document

namespace CimBroker.Time

open Number (Positional Sign)

/-- What a timestamp can be made of. -/
inductive Source
  | stamp (s : Stamp)
  | document (json : String)
  | wire (text : String)
  | variant (v : Variant)

namespace Source

/-- What becomes of a source. -/
def outcome : Source → Except Error Timestamp
  | stamp s => Timestamp.ofStamp s
  | document json => Timestamp.ofJson (Json.ofText? json)
  | wire text => Timestamp.parse text
  | variant v => DataType.datetime.decode v

/-- The wire text that is read. -/
def wireText? : Source → Option String
  | wire text => some text
  | variant (.text text) => some text
  | _ => none

end Source

/-- The zone of the text consists of four digits, and they hold more minutes than three can. -/
def WideZone (text : String) : Prop :=
  ∃ n, Digits 4 (text.toList.drop (text.toList.length - 4)) n ∧ greatestOffsetMinutes < n

/-- The offset of the stamp is a number of minutes that three digits hold. -/
def Stamp.OffsetFits (s : Stamp) : Prop :=
  s.offset % 60 = 0 ∧ s.offset.natAbs ≤ greatestOffsetMinutes * 60

/-! ## What is read -/

/-- Four characters spell a thousand minutes or more only if all of them are digits. -/
theorem SpellsZone.wide_iff {cs : List Char} {minutes : Int} (h : SpellsZone cs minutes) :
    greatestOffsetMinutes < minutes.natAbs ↔ ∃ n, Digits 4 cs n ∧ greatestOffsetMinutes < n := by
  cases h with
  | interval =>
    refine iff_of_false (by decide) ?_
    rintro ⟨n, ⟨-, hds⟩, -⟩
    obtain ⟨c, rest, hcs, hc⟩ := hds.first
    obtain ⟨rfl, -⟩ := List.cons.inj hcs
    exact hc (by decide)
  | @offset sign ds n hlength hds =>
    have hread : Number.ofDecimal? ds = some n := Number.ofDigits?_eq_some_iff.mpr hds
    have hlt := Number.lt_of_ofDecimal? hread
    have habs : (sign.factor * (n : Int)).natAbs = n := by
      cases sign <;> simp only [Sign.factor] <;> omega
    rw [habs]
    -- a sign leaves three columns for digits, and is none itself
    have hsigned {c : Char} (hthree : ds.length = 3) (hc : Number.digit? 10 c = none) :
        greatestOffsetMinutes < n ↔ ∃ n', Digits 4 (c :: ds) n' ∧ greatestOffsetMinutes < n' := by
      rw [hthree] at hlt
      refine iff_of_false (Nat.not_lt.mpr (Nat.le_of_lt_succ hlt)) ?_
      rintro ⟨n', ⟨-, hds'⟩, -⟩
      obtain ⟨c', rest, hcs, hc'⟩ := hds'.first
      obtain ⟨rfl, -⟩ := List.cons.inj hcs
      exact hc' hc
    cases sign with
    | plus => exact hsigned (Nat.succ.inj hlength) (Number.digit?_sign 10).2
    | minus => exact hsigned (Nat.succ.inj hlength) (Number.digit?_sign 10).1
    | absent =>
      constructor
      · exact fun hwide => ⟨n, ⟨hlength, hds⟩, hwide⟩
      · rintro ⟨n', hdigits, hwide⟩
        obtain rfl : n = n' := Option.some.inj (hread.symm.trans (digits_iff_read.mp hdigits).2)
        exact hwide

namespace Timestamp

variable {s : Stamp}

/-- What is read from wire text has an offset of whole minutes and of less than a day, and only a
wide zone makes it a thousand minutes or more. -/
theorem offset_of_parse {text : String} (h : parse text = .ok (some s)) :
    s.offset % 60 = 0 ∧ s.offset.natAbs < 1440 * 60 ∧ (s.OffsetFits ↔ ¬ WideZone text) := by
  obtain ⟨hplain, t, minutes, hspelled, hbounds, hshows⟩ := parse_eq_stamp_iff.mp h
  have hreach := hbounds.zone
  have habs : s.offset.natAbs = minutes.natAbs * 60 := by
    rw [hshows.offset, Int.natAbs_mul]
    rfl
  have hminutes : s.offset % 60 = 0 := by
    rw [hshows.offset, Int.mul_emod_left]
  have hlength : (text.toList.drop (text.toList.length - 4)).length = 4 := by
    have hlong : 5 ≤ text.toList.length := hplain.1
    rw [List.length_drop]
    omega
  obtain ⟨fraction, micros, hzone, -⟩ := cut_of_spellsTime hspelled
  have hwide := ((zoneMinutes?_eq_some_iff hlength).mp hzone).wide_iff
  refine ⟨hminutes, by omega, ?_⟩
  rw [WideZone, ← hwide, Nat.not_lt, Stamp.OffsetFits, habs]
  exact (and_iff_right hminutes).trans (Nat.mul_le_mul_right_iff (by decide))

/-- What is read from a document has an offset that fits. -/
theorem offset_of_ofJson {document : Option Json} (h : ofJson document = .ok (some s)) :
    s.OffsetFits := by
  unfold ofJson at h
  split at h
  · next t hread =>
    obtain rfl := Except.ok.inj h
    obtain ⟨j, -, hj⟩ := Option.bind_eq_some_iff.mp hread
    unfold ofJson? at hj
    split at hj
    · cases hj
    · obtain ⟨text, -, hj⟩ := Option.bind_eq_some_iff.mp hj
      obtain ⟨stamp, -, hj⟩ := Option.bind_eq_some_iff.mp hj
      -- the stamp that the text spells is made a timestamp like any other
      cases hmade : ofStamp stamp with
      | error e =>
        rw [hmade] at hj
        cases hj
      | ok t =>
        rw [hmade] at hj
        obtain ⟨rfl, hfits⟩ := offset_of_ofStamp hmade
        obtain rfl := Option.some.inj (Option.some.inj hj)
        exact hfits
  · cases h

/-- **A timestamp has an offset that three digits of minutes hold (`Stamp.OffsetFits`), unless it
was read from wire text with a wide zone (`WideZone`)**, whatever it was made of (`Source`).  In any
case its offset is of whole minutes and of less than a day. -/
theorem source_offset_fits_iff {source : Source} (h : source.outcome = .ok (some s)) :
    s.offset % 60 = 0 ∧ s.offset.natAbs < 1440 * 60 ∧
      (s.OffsetFits ↔ ∀ text, source.wireText? = some text → ¬ WideZone text) := by
  -- the offset is checked where no wire text is read, and only there
  have hchecked (hfits : s.OffsetFits) (hnone : source.wireText? = none) :
      s.offset % 60 = 0 ∧ s.offset.natAbs < 1440 * 60 ∧
        (s.OffsetFits ↔ ∀ text, source.wireText? = some text → ¬ WideZone text) := by
    refine ⟨hfits.1, Nat.lt_of_le_of_lt hfits.2 (by decide), iff_of_true hfits ?_⟩
    rw [hnone]
    exact nofun
  have hparsed {text : String} (hread : parse text = .ok (some s))
      (htext : source.wireText? = some text) :
      s.offset % 60 = 0 ∧ s.offset.natAbs < 1440 * 60 ∧
        (s.OffsetFits ↔ ∀ text, source.wireText? = some text → ¬ WideZone text) := by
    obtain ⟨hminutes, hreach, hfits⟩ := offset_of_parse hread
    refine ⟨hminutes, hreach, hfits.trans ?_⟩
    rw [htext]
    exact ⟨fun h text heq => Option.some.inj heq ▸ h, fun h => h text rfl⟩
  cases source with
  | stamp s' =>
    obtain ⟨hstamp, hfits⟩ := offset_of_ofStamp h
    obtain rfl := Option.some.inj hstamp
    exact hchecked hfits rfl
  | document json => exact hchecked (offset_of_ofJson h) rfl
  | wire text => exact hparsed h rfl
  | variant v =>
    cases v with
    | null => cases h
    | array => cases h
    | scalar x =>
      cases x with
      | text text => exact hparsed h rfl
      | _ => cases h

/-- Behind a sign 999 minutes are read, and fit; without one a thousand are, and do not. -/
theorem offset_of_three_and_four_digits :
    (∃ s, parse "20240102030405.000000+999" = .ok (some s) ∧ s.OffsetFits) ∧
      ∃ s, parse "20240102030405.0000001000" = .ok (some s) ∧ ¬ s.OffsetFits := by
  constructor
  · have hread : Source.outcome (.wire "20240102030405.000000+999") =
        .ok (some ⟨1704104705, 0, 59940⟩) := by decide +kernel
    refine ⟨_, hread, (source_offset_fits_iff hread).2.2.mpr ?_⟩
    rintro _ ⟨⟩ ⟨n, hdigits, -⟩
    -- a sign is no digit
    have hunread : Number.ofDecimal? "+999".toList = none := by decide
    exact absurd (hunread.symm.trans (digits_iff_read.mp hdigits).2) nofun
  · have hread : Source.outcome (.wire "20240102030405.0000001000") =
        .ok (some ⟨1704104645, 0, 60000⟩) := by decide +kernel
    have hwide : WideZone "20240102030405.0000001000" :=
      ⟨1000, digits_iff_read.mpr ⟨rfl, by decide⟩, by decide⟩
    exact ⟨_, hread, fun hfits => (source_offset_fits_iff hread).2.2.mp hfits _ rfl hwide⟩

/-- An offset of 1439 minutes is read from wire text, while a stamp with it is refused.  It is
written, but what is written is not read, neither as wire text nor as a document. -/
theorem wide_offset_is_read :
    parse "20240102030405.0000001439" = .ok (some ⟨1704078305, 0, 86340⟩) ∧
      ¬ Stamp.OffsetFits ⟨1704078305, 0, 86340⟩ ∧
      (∀ t, ofStamp ⟨1704078305, 0, 86340⟩ ≠ .ok t) ∧
      encode (some ⟨1704078305, 0, 86340⟩) = some "20240102030405.000000+1439" ∧
      parse "20240102030405.000000+1439" =
        .error (.malformedDatetime "20240102030405.000000+1439" "fraction did not parse") ∧
      ofJson (some (toJson (some ⟨1704078305, 0, 86340⟩))) = .error .json := by
  have hwide : ¬ Stamp.OffsetFits ⟨1704078305, 0, 86340⟩ := fun hfits => absurd hfits.2 (by decide)
  have hread : Stamp.ofInternetText? (Stamp.internetText ⟨1704078305, 0, 86340⟩) =
      some ⟨1704078305, 0, 86340⟩ := by decide +kernel
  have hunloaded : ofJson? (toJson (some ⟨1704078305, 0, 86340⟩)) = none := by
    show (Stamp.ofInternetText? _).bind _ = none
    rw [hread]
    rfl
  refine ⟨by decide +kernel, hwide, fun t h => hwide (offset_of_ofStamp h).2,
    by decide +kernel, rfl, ?_⟩
  rw [ofJson, Option.bind_some, hunloaded]

/-! ## What a wide offset is written as -/

/-- The text of a time is at most twenty-five characters long. -/
theorem length_le_of_spellsTime {cs : List Char} {t : ClockTime} {minutes : Int}
    (h : SpellsTime cs t minutes) : cs.length ≤ 25 := by
  obtain ⟨hyear, hmonth, hday, hhour, hminute, hsecond, hfraction, hzone⟩ := h
  have hlength : ∀ {cs : List Char} {micros : Nat}, SpellsFraction cs micros → cs.length ≤ 7 := by
    intro cs micros h
    cases h with
    | absent => exact Nat.zero_le 7
    | present hlength => exact Nat.succ_le_succ hlength
  have hseven := hlength hfraction
  simp only [List.length_append, hyear.1, hmonth.1, hday.1, hhour.1, hminute.1, hsecond.1,
    hzone.length]
  omega

/-- A stamp with an offset of a thousand minutes or more is written in more characters. -/
theorem lt_length_stampText (hwide : greatestOffsetMinutes < (s.offset.tdiv 60).natAbs) :
    25 < (stampText s).toList.length := by
  have hwidth (width n : Nat) : width ≤ (Number.padded width n).length := by
    simp only [Number.padded, List.length_append, List.length_replicate]
    omega
  have hyear : 4 ≤ (yearText s.clock.date.year).length := by
    unfold yearText
    split
    · exact hwidth 4 _
    · exact Nat.le_succ_of_le (hwidth 4 _)
  have hzone : 5 ≤ (signedPadded 3 (s.offset.tdiv 60)).length := by
    refine Nat.succ_le_succ (Nat.le_of_not_lt fun hshort => ?_)
    have hlt := Number.lt_of_ofDecimal? (Number.ofDecimal?_padded 3 (s.offset.tdiv 60).natAbs)
    have hpow := Nat.pow_le_pow_right (n := 10) (by decide) (Nat.le_of_lt_succ hshort)
    exact absurd (Nat.lt_of_lt_of_le hlt hpow) (Nat.not_lt.mpr hwide)
  have hmonth := hwidth 2 s.clock.date.month
  have hday := hwidth 2 s.clock.date.day
  have hhour := hwidth 2 s.clock.hour
  have hminute := hwidth 2 s.clock.minute
  have hsecond := hwidth 2 s.clock.second
  have hmicros := hwidth 6 (s.clock.nanos / 1000)
  simp only [stampText, String.toList_ofList, List.length_append, List.length_cons]
  omega

/-- **What is written of a stamp with an offset of a thousand minutes or more is not read back.** -/
theorem parse_stampText_of_wide (hwide : greatestOffsetMinutes < (s.offset.tdiv 60).natAbs)
    (s' : Stamp) : parse (stampText s) ≠ .ok (some s') := by
  intro h
  obtain ⟨-, t, minutes, hspelled, -⟩ := parse_eq_stamp_iff.mp h
  exact absurd (length_le_of_spellsTime hspelled) (Nat.not_le.mpr (lt_length_stampText hwide))

end Timestamp

end CimBroker.Time
