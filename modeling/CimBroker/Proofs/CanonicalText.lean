/-
# CimBroker.Proofs.CanonicalText — wire text that is written back as it was read

The writer fills every column: fourteen digits, a point and six digits, a sign and three digits.  A
text of this form is the only one for the numbers in its columns (`Digits.unique`), up to the sign
in front of an offset of zero minutes.  So what the reader accepts of this form is written back
character by character, if the instant that it names lies after the start of 1601.  It is the
instant that counts: a zone may show the last day of 1600 for an instant that is written, and the
first day of 1601 for one that is not.

`Canonical` is the form, `Timestamp.canonical_text_written_back` the statement, and
`turn_of_1601_in_two_zones` has a text on either side of the edge.  Other texts are left out that
the reader takes as well: with fewer decimals, with a zone that has no sign, or with a negative
offset of zero.  They are read, but the writer has another text for the same stamp.
-/
import CimBroker.Proofs.WireGrammar

namespace CimBroker.Time

open Number (Positional Sign)

/-! ## Columns -/

/-- A decimal digit is the character of what it stands for. -/
theorem eq_digitChar {c : Char} {d : Nat} (h : Number.digit? 10 c = some d) : c = d.digitChar := by
  have hdigit : Number.digit? 10 c = if Number.isDigit c then some (c.toNat - 48) else none := by
    unfold Number.digit? Number.isDigit
    grind
  rw [hdigit] at h
  obtain ⟨hc, hd⟩ := Option.ite_none_right_eq_some.mp h
  rw [Number.isDigit, Bool.and_eq_true, decide_eq_true_eq, decide_eq_true_eq] at hc
  have hvalue := Option.some.inj hd
  rw [← Char.toNat_inj, Number.digitChar_toNat (by omega)]
  omega

/-- A row of decimal digits is spelled by what its digits stand for. -/
theorem eq_map_digitChar {ds : List Char} {values : List Nat}
    (h : ds.map (Number.digit? 10) = values.map some) : ds = values.map Nat.digitChar := by
  induction values generalizing ds with
  | nil => exact List.map_eq_nil_iff.mp h
  | cons d values ih =>
    obtain ⟨c, cs, rfl, hc, hcs⟩ := List.map_eq_cons_iff.mp h
    rw [List.map_cons, ← ih hcs, ← eq_digitChar hc]

/-- What the digits of a row stand for is less than ten. -/
theorem lt_ten_of_mem {ds : List Char} {values : List Nat}
    (h : ds.map (Number.digit? 10) = values.map some) : ∀ d ∈ values, d < 10 := by
  intro d hd
  obtain ⟨c, -, hc⟩ := List.mem_map.mp (h ▸ List.mem_map_of_mem hd)
  exact Number.lt_of_digit? hc

/-- **A number fills its column in one way only**: the digits are determined by `Digits`. -/
theorem Digits.unique {count n : Nat} {ds ds' : List Char} (h : Digits count ds n)
    (h' : Digits count ds' n) : ds = ds' := by
  obtain ⟨hlength, -, values, hvalues, hn⟩ := h
  obtain ⟨hlength', -, values', hvalues', hn'⟩ := h'
  have hcount : values.length = count := by
    simpa [hlength] using (congrArg List.length hvalues).symm
  have hcount' : values'.length = count := by
    simpa [hlength'] using (congrArg List.length hvalues').symm
  have hsame : values.reverse = values'.reverse := by
    refine Nat.ofDigits_inj_of_len_eq (b := 10) (by decide) ?_ ?_ ?_ (hn.symm.trans hn')
    · rw [List.length_reverse, List.length_reverse, hcount, hcount']
    · exact fun d hd => lt_ten_of_mem hvalues d (List.mem_reverse.mp hd)
    · exact fun d hd => lt_ten_of_mem hvalues' d (List.mem_reverse.mp hd)
  rw [eq_map_digitChar hvalues, eq_map_digitChar hvalues', List.reverse_injective hsame]

/-- A number below the next power of ten is read from its column. -/
theorem Digits.lt {count n : Nat} {ds : List Char} (h : Digits count ds n) : n < 10 ^ count := by
  have hlt := Number.lt_of_ofDecimal? (digits_iff_read.mp h).2
  rwa [h.1] at hlt

/-- **A column holds its number `padded` to its width.** -/
theorem Digits.eq_padded {count n : Nat} {ds : List Char} (h : Digits count ds n) :
    ds = Number.padded count n := by
  have hcount : 1 ≤ count := by
    rw [← h.1]
    exact List.length_pos_of_ne_nil h.2.1
  exact h.unique (digits_iff_read.mpr
    ⟨Number.length_padded hcount h.lt, Number.ofDecimal?_padded count n⟩)

/-! ## The canonical form -/

/-- So many decimal digits. -/
def DigitRow (count : Nat) (ds : List Char) : Prop :=
  ds.length = count ∧ ∀ c ∈ ds, Number.isDigit c = true

/-- The text consists of fourteen digits, a point and six digits, a sign and three digits. -/
inductive Canonical : List Char → Prop
  | intro {stamp micros minutes : List Char} {sign : Char} (hstamp : DigitRow 14 stamp)
      (hmicros : DigitRow 6 micros) (hsign : sign = '+' ∨ sign = '-')
      (hminutes : DigitRow 3 minutes) :
      Canonical (stamp ++ ('.' :: micros) ++ (sign :: minutes))

/-- The instant of one stamp is later than that of another, whatever their zones. -/
def Stamp.IsLater (s s' : Stamp) : Prop :=
  s'.seconds < s.seconds ∨ s'.seconds = s.seconds ∧ s'.nanos < s.nanos

/-- The start of 1601 at offset zero. -/
def startOf1601 : Stamp := Stamp.ofClock ⟨⟨1601, 1, 1⟩, 0, 0, 0, 0⟩ 0

namespace Timestamp

theorem afterWireEpoch_iff {s : Stamp} : afterWireEpoch s = true ↔ s.IsLater startOf1601 := by
  have hstart : startOf1601 = ⟨wireEpoch, 0, 0⟩ := by decide
  rw [hstart]
  simp [afterWireEpoch, Stamp.IsLater]

/-- A sign and three digits are the zone that they spell, unless they are a minus sign and zeros. -/
theorem zone_of_sign {sign : Char} {minutes : List Char} {m : Int}
    (hsign : sign = '+' ∨ sign = '-') (hzone : SpellsZone (sign :: minutes) m)
    (hzero : sign :: minutes ≠ ['-', '0', '0', '0']) : sign :: minutes = signedPadded 3 m := by
  generalize hcs : sign :: minutes = cs at hzone hzero
  cases hzone with
  | interval =>
    obtain ⟨rfl, -⟩ := List.cons.inj hcs
    rcases hsign with hsign | hsign <;> cases hsign
  | @offset sign' ds n hlength hds =>
    cases sign' with
    | absent =>
      -- what starts with a sign does not start with a digit
      obtain ⟨c, rest, rfl, hc⟩ := hds.first
      obtain ⟨rfl, -⟩ := List.cons.inj hcs
      rcases hsign with rfl | rfl
      · exact absurd (Number.digit?_sign 10).2 hc
      · exact absurd (Number.digit?_sign 10).1 hc
    | plus =>
      have hcolumn : Digits 3 ds n := ⟨Nat.succ.inj hlength, hds⟩
      have hpositive : ¬ (1 * (n : Int) < 0) := by omega
      show '+' :: ds = signedPadded 3 (1 * (n : Int))
      rw [signedPadded, if_neg hpositive, Int.one_mul, Int.natAbs_natCast, ← hcolumn.eq_padded]
    | minus =>
      have hcolumn : Digits 3 ds n := ⟨Nat.succ.inj hlength, hds⟩
      have hnegative : -1 * (n : Int) < 0 := by
        rcases Nat.eq_zero_or_pos n with rfl | hpos
        · have hzeros : Digits 3 ['0', '0', '0'] 0 := digits_iff_read.mpr ⟨rfl, by decide⟩
          exact absurd (congrArg ('-' :: ·) (hcolumn.unique hzeros)) hzero
        · omega
      have habs : (-1 * (n : Int)).natAbs = n := by omega
      show '-' :: ds = signedPadded 3 (-1 * (n : Int))
      rw [signedPadded, if_pos hnegative, habs, ← hcolumn.eq_padded]

/-- A fraction of six digits is the microseconds that it spells. -/
theorem fraction_of_point {ds : List Char} {micros : Nat} (hlength : ds.length = 6)
    (hfraction : SpellsFraction ('.' :: ds) micros) : ds = Number.padded 6 micros := by
  cases hfraction with
  | @present _ n _ _ hds hmicros =>
    rw [hlength] at hmicros
    obtain rfl := Nat.eq_of_mul_eq_mul_right (by decide) hmicros
    exact Digits.eq_padded ⟨hlength, hds⟩

/-- **`Canonical` text is the text that `stampText` writes** for the stamp that it spells. -/
theorem stampText_of_canonical {text : String} {s : Stamp} (hform : Canonical text.toList)
    (hzero : ¬ ['-', '0', '0', '0'] <:+ text.toList) (hspelled : SpellsStamp text s) :
    stampText s = text := by
  obtain ⟨-, t, m, htime, -, hshows⟩ := hspelled
  generalize hcs : text.toList = cs at hform hzero htime
  generalize hcs' : cs = cs' at htime
  obtain ⟨hyear, hmonth, hday, hhour, hminute, hsecond, hfraction, hzone⟩ := htime
  obtain ⟨hstamp, hmicros, hsign, hminutes⟩ := hform
  rename_i year month day hour minute second fraction zone y mo d h mi sec micros stamp micros'
    minutes sign
  -- both descriptions cut the text at the same places
  have hfront : (year ++ (month ++ (day ++ (hour ++ (minute ++ second))))).length = 14 := by
    simp only [List.length_append, hyear.1, hmonth.1, hday.1, hhour.1, hminute.1, hsecond.1]
  obtain ⟨hbefore, rfl⟩ := List.append_inj' hcs'
    ((congrArg (· + 1) hminutes.1).trans hzone.length.symm)
  have hassoc : year ++ (month ++ (day ++ (hour ++ (minute ++ (second ++ fraction))))) =
      (year ++ (month ++ (day ++ (hour ++ (minute ++ second))))) ++ fraction := by
    simp only [List.append_assoc]
  obtain ⟨rfl, rfl⟩ := List.append_inj (hbefore.trans hassoc) (hstamp.1.trans hfront.symm)
  have hyears : 0 ≤ s.clock.date.year ∧ s.clock.date.year ≤ 9999 := by
    have hlt := hyear.lt
    rw [hshows.clock]
    show 0 ≤ (y : Int) ∧ (y : Int) ≤ 9999
    omega
  have hminus : sign :: minutes ≠ ['-', '0', '0', '0'] := fun heq =>
    hzero (heq ▸ List.suffix_append _ _)
  have hoffset : s.offset.tdiv 60 = m := by
    rw [hshows.offset]
    exact Int.mul_tdiv_cancel m (by decide)
  have hnanos : micros * 1000 / 1000 = micros := Nat.mul_div_cancel micros (by decide)
  apply String.toList_injective
  rw [toList_stampText hyears, hcs, hoffset, ← zone_of_sign hsign hzone hminus, hshows.clock,
    columns]
  dsimp only
  rw [hnanos, Int.toNat_natCast, ← hyear.eq_padded, ← hmonth.eq_padded, ← hday.eq_padded,
    ← hhour.eq_padded, ← hminute.eq_padded, ← hsecond.eq_padded,
    ← fraction_of_point hmicros.1 hfraction]
  simp only [List.append_assoc]

/-- **Canonical text is written back as it was read**, if its instant can be written.  A text of the
canonical form (`Canonical`) that is accepted, does not start with fourteen zeros and does not end
in a negative offset of zero is read as a stamp.  If the instant of the stamp is later than the
start of 1601 (`Stamp.IsLater`), `encode` writes the stamp as that text, and otherwise it is not
written. -/
theorem canonical_text_written_back {text : String} {t : Timestamp}
    (hform : Canonical text.toList) (hset : ¬ List.replicate 14 '0' <+: text.toList)
    (hzero : ¬ ['-', '0', '0', '0'] <:+ text.toList) (hread : parse text = .ok t) :
    ∃ s, t = some s ∧ (s.IsLater startOf1601 → encode t = some text) ∧
      (¬ s.IsLater startOf1601 → encode t = none) := by
  cases t with
  | none => exact absurd (parse_eq_none_iff.mp hread).2 hset
  | some s =>
    have hspelled : SpellsStamp text s := parse_eq_stamp_iff.mp hread
    refine ⟨s, rfl, fun hlater => ?_, fun hearly => ?_⟩
    · rw [← afterWireEpoch_iff] at hlater
      rw [encode, if_pos hlater, stampText_of_canonical hform hzero hspelled]
    · rw [← afterWireEpoch_iff] at hearly
      rw [encode, if_neg hearly]

/-- In a zone to the west the last evening of 1600 is 1601 at offset zero, and is written back; in a
zone to the east the first hour of 1601 is still 1600, and is not written. -/
theorem turn_of_1601_in_two_zones :
    (∃ s, parse "16001231233000.500000-060" = .ok (some s) ∧ s.IsLater startOf1601 ∧
      encode (some s) = some "16001231233000.500000-060") ∧
    ∃ s, parse "16010101003000.500000+060" = .ok (some s) ∧ ¬ s.IsLater startOf1601 ∧
      encode (some s) = none := by
  have hfive : DigitRow 6 "500000".toList := ⟨rfl, List.all_eq_true.mp rfl⟩
  have hhour : DigitRow 3 "060".toList := ⟨rfl, List.all_eq_true.mp rfl⟩
  constructor
  · have hread : parse "16001231233000.500000-060" =
        .ok (some ⟨-11644471800, 500000000, -3600⟩) := rfl
    have hstamp : DigitRow 14 "16001231233000".toList := ⟨rfl, List.all_eq_true.mp rfl⟩
    have hform : Canonical "16001231233000.500000-060".toList :=
      Canonical.intro hstamp hfive (.inr rfl) hhour
    obtain ⟨s, hs, hwritten, -⟩ :=
      canonical_text_written_back hform (by decide) (by decide) hread
    obtain rfl := Option.some.inj hs
    have hlater : Stamp.IsLater ⟨-11644471800, 500000000, -3600⟩ startOf1601 :=
      afterWireEpoch_iff.mp rfl
    exact ⟨_, hread, hlater, hwritten hlater⟩
  · have hread : parse "16010101003000.500000+060" =
        .ok (some ⟨-11644475400, 500000000, 3600⟩) := rfl
    have hstamp : DigitRow 14 "16010101003000".toList := ⟨rfl, List.all_eq_true.mp rfl⟩
    have hform : Canonical "16010101003000.500000+060".toList :=
      Canonical.intro hstamp hfive (.inl rfl) hhour
    obtain ⟨s, hs, -, hunwritten⟩ :=
      canonical_text_written_back hform (by decide) (by decide) hread
    obtain rfl := Option.some.inj hs
    have hearly : ¬ Stamp.IsLater ⟨-11644475400, 500000000, 3600⟩ startOf1601 := by
      rw [← afterWireEpoch_iff]
      decide
    exact ⟨_, hread, hearly, hunwritten hearly⟩

end Timestamp

end CimBroker.Time
