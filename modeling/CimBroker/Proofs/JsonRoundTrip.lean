/-
# CimBroker.Proofs.JsonRoundTrip — documents through compact text

A document is read back from its compact text (`Json.ofText?_compact`), if its texts have characters
and its numbers are numbers (`Json.WellFormed`).

Texts are read unit by unit, and each character is written as what yields one unit.  Numbers are the
only part of a document that does not say itself where it ends, so they are read in front of
something that does not go on with them (`Json.Ends`); all that stands after a value in a document
is a comma or a closing bracket.

Spread text is left out, and so is everything that the reader takes and the writer never writes,
such as blanks between values and pairs of surrogates.
-/
import CimBroker.Json.Reader
import CimBroker.Json.Writer
import CimBroker.Proofs.Numerals

namespace CimBroker.Json

open Number

/-! ## Texts -/

/-- Four digits are read as the number that they hold. -/
theorem codeUnit?_padded {n : Nat} (h : n < 0x10000) (rest : List Char) :
    codeUnit? (List.replicate (4 - (digits 16 n).length) '0' ++ digits 16 n ++ rest) =
      some (n, rest) := by
  have hfew : (digits 16 n).length ≤ 4 := length_digits_le (by omega) h
  have hlength : (List.replicate (4 - (digits 16 n).length) '0' ++ digits 16 n).length = 4 := by
    rw [List.length_append, List.length_replicate]
    omega
  unfold codeUnit?
  rw [List.take_left' hlength, List.drop_left' hlength, if_pos hlength,
    ofDigits?_replicate_zero (by omega) (by omega)]
  rfl

theorem units?_of_escape? {unit : TextUnit} {input rest : List Char}
    (h : escape? input = some (unit, rest)) (fuel : Nat) :
    units? (fuel + 1) ('\\' :: input) =
      (units? fuel rest).map fun read => (unit :: read.1, read.2) := by
  rw [units?, if_neg (by decide), if_pos rfl, h]
  dsimp only [bind, Option.bind]
  cases units? fuel rest <;> rfl

/-- The written text is read as one unit, and that is the character. -/
def OneUnit (written : List Char) (c : Char) : Prop :=
  ∃ unit : TextUnit,
    (∀ fuel rest, units? (fuel + 1) (written ++ rest) =
      (units? fuel rest).map fun read => (unit :: read.1, read.2)) ∧
    ∀ units, characters? (unit :: units) = (characters? units).map (c :: ·)

theorem oneUnit_named {c letter : Char}
    (h : ∀ rest, escape? (letter :: rest) = some (.char c, rest)) : OneUnit ['\\', letter] c :=
  ⟨.char c, fun fuel rest => units?_of_escape? (h rest) fuel, fun _ => rfl⟩

/-- A control character stands under its number, which has few digits and is no surrogate. -/
theorem oneUnit_numbered {c : Char} (h : c.toNat < 0x20) :
    OneUnit (['\\', 'u'] ++ List.replicate (4 - (digits 16 c.toNat).length) '0' ++
      digits 16 c.toNat) c := by
  refine ⟨.unit c.toNat, fun fuel rest => ?_, fun units => ?_⟩
  · refine units?_of_escape? ?_ fuel
    have hnumber := codeUnit?_padded (n := c.toNat) (by omega) rest
    exact congrArg (Option.map fun read => (TextUnit.unit read.1, read.2)) hnumber
  · rw [characters?.eq_def]
    dsimp only
    rw [if_neg (by omega), if_neg (by omega), Char.ofNat_toNat]

theorem oneUnit_itself {c : Char} (hquote : c ≠ '"') (hslash : c ≠ '\\')
    (hcontrol : ¬ c.toNat < 0x20) : OneUnit [c] c := by
  refine ⟨.char c, fun fuel rest => ?_, fun _ => rfl⟩
  rw [List.singleton_append, units?, if_neg hquote, if_neg hslash, if_neg hcontrol]

/-- **A written character is read as one unit** (`OneUnit`), which is the character. -/
theorem oneUnit_escapedChar (c : Char) : OneUnit (escapedChar c) c := by
  unfold escapedChar
  split_ifs with hquote hslash hline hreturn htab hback hfeed hcontrol
  · subst hquote
    exact oneUnit_named fun _ => rfl
  · subst hslash
    exact oneUnit_named fun _ => rfl
  · subst hline
    exact oneUnit_named fun _ => rfl
  · subst hreturn
    exact oneUnit_named fun _ => rfl
  · subst htab
    exact oneUnit_named fun _ => rfl
  · subst hback
    exact oneUnit_named fun _ => rfl
  · subst hfeed
    exact oneUnit_named fun _ => rfl
  · exact oneUnit_numbered hcontrol
  · exact oneUnit_itself hquote hslash hcontrol

/-- The units of written characters are the characters. -/
theorem units?_flatMap (cs rest : List Char) : ∃ units,
    (∀ fuel, cs.length < fuel →
      units? fuel (cs.flatMap escapedChar ++ '"' :: rest) = some (units, rest)) ∧
    characters? units = some cs := by
  induction cs with
  | nil =>
    refine ⟨[], fun fuel hfuel => ?_, rfl⟩
    obtain ⟨fuel, rfl⟩ := Nat.exists_eq_add_of_lt hfuel
    rfl
  | cons c cs ih =>
    obtain ⟨units, hunits, hcharacters⟩ := ih
    obtain ⟨unit, hunit, hcharacter⟩ := oneUnit_escapedChar c
    refine ⟨unit :: units, fun fuel hfuel => ?_, by rw [hcharacter, hcharacters, Option.map_some]⟩
    cases fuel with
    | zero => simp at hfuel
    | succ fuel =>
      rw [List.flatMap_cons, List.append_assoc, hunit, hunits fuel (by simpa using hfuel),
        Option.map_some]

theorem escapedChar_ne_nil (c : Char) : escapedChar c ≠ [] := by
  unfold escapedChar
  repeat' split
  all_goals simp

/-- **A text is read back** from between its quotes. -/
theorem textAfterQuote?_quotedText (s : String) (rest : List Char) :
    ∃ more, quotedText (some s) ++ rest = '"' :: more ∧
      textAfterQuote? more = some (some s, rest) := by
  obtain ⟨units, hunits, hcharacters⟩ := units?_flatMap s.toList rest
  refine ⟨s.toList.flatMap escapedChar ++ '"' :: rest, by simp [quotedText], ?_⟩
  have hlength (cs : List Char) : cs.length ≤ (cs.flatMap escapedChar).length := by
    induction cs with
    | nil => exact Nat.le_refl 0
    | cons c cs ih =>
      have hc := List.length_pos_of_ne_nil (escapedChar_ne_nil c)
      rw [List.flatMap_cons, List.length_append, List.length_cons]
      omega
  have hlong := hlength s.toList
  unfold textAfterQuote?
  rw [hunits _ (by rw [List.length_append]; omega), Option.map_some, hcharacters, Option.map_some,
    String.ofList_toList]

/-! ## Numbers -/

/-- A number does not go on into the text. -/
def Ends (text : List Char) : Prop :=
  ∀ c ∈ text.head?, isDigit c = false ∧ c ≠ '.' ∧ c ≠ 'e' ∧ c ≠ 'E'

/-- The characters are one number from the first to the last. -/
def IsLiteral (literal : List Char) : Prop := number? literal = some (literal, [])

section Parts

variable {text read rest after : List Char}

theorem Ends.takeWhile_eq_nil (h : Ends after) : after.takeWhile isDigit = [] := by
  cases after with
  | nil => rfl
  | cons c after => exact List.takeWhile_cons_of_neg (by simp [(h c rfl).1])

theorem digits?_append (hread : digits? text = some (read, rest)) (hafter : Ends after) :
    digits? (text ++ after) = some (read, rest ++ after) := by
  have hdigits : (text ++ after).takeWhile isDigit = text.takeWhile isDigit := by
    rw [List.takeWhile_append, hafter.takeWhile_eq_nil, List.append_nil]
    split
    · next hall => exact ((List.takeWhile_prefix isDigit).eq_of_length hall).symm
    · rfl
  have hlength := (List.takeWhile_prefix isDigit (l := text)).length_le
  unfold digits? at hread ⊢
  rw [hdigits]
  dsimp only at hread ⊢
  split at hread
  · cases hread
  · next hsome =>
    obtain ⟨rfl, rfl⟩ := Prod.mk.inj (Option.some.inj hread)
    rw [if_neg hsome, List.drop_append_of_le_length hlength]

theorem wholePart?_of_ne_zero {c : Char} (hc : c ≠ '0') (text : List Char) :
    wholePart? (c :: text) = digits? (c :: text) := by
  unfold wholePart?
  split
  · next heq =>
    injection heq with hzero _
    exact absurd hzero hc
  · rfl

theorem wholePart?_append (hread : wholePart? text = some (read, rest)) (hafter : Ends after) :
    wholePart? (text ++ after) = some (read, rest ++ after) := by
  cases text with
  | nil => cases hread
  | cons c text =>
    by_cases hc : c = '0'
    · subst hc
      have hwhole (text : List Char) : wholePart? ('0' :: text) =
          if (text.head?.map isDigit).getD false then none else some (['0'], text) := rfl
      rw [List.cons_append, hwhole] at *
      split at hread
      · cases hread
      · next hhead =>
        obtain ⟨rfl, rfl⟩ := Prod.mk.inj (Option.some.inj hread)
        -- no digit follows, be it in the text or after it
        have hhead' : ¬ ((text ++ after).head?.map isDigit).getD false = true := by
          cases text with
          | cons d text => exact hhead
          | nil =>
            cases after with
            | nil => exact hhead
            | cons d after => simp [(hafter d rfl).1]
        rw [if_neg hhead']
    · rw [wholePart?_of_ne_zero hc] at hread
      rw [List.cons_append, wholePart?_of_ne_zero hc, ← List.cons_append]
      exact digits?_append hread hafter

theorem fractionPart?_of_ne_point {text : List Char} (h : ∀ c ∈ text.head?, c ≠ '.') :
    fractionPart? text = some ([], text) := by
  unfold fractionPart?
  split
  · exact absurd rfl (h '.' rfl)
  · rfl

theorem fractionPart?_append (hread : fractionPart? text = some (read, rest))
    (hafter : Ends after) : fractionPart? (text ++ after) = some (read, rest ++ after) := by
  cases text with
  | nil =>
    cases hread
    exact fractionPart?_of_ne_point fun c hc => (hafter c hc).2.1
  | cons c text =>
    by_cases hc : c = '.'
    · subst hc
      obtain ⟨⟨ds, more⟩, hdigits, heq⟩ := Option.map_eq_some_iff.mp hread
      obtain ⟨rfl, rfl⟩ := Prod.mk.inj heq
      show (digits? (text ++ after)).map _ = _
      rw [digits?_append hdigits hafter, Option.map_some]
    · have hfirst (text : List Char) : ∀ d ∈ (c :: text).head?, d ≠ '.' := by
        rintro d ⟨rfl⟩
        exact hc
      rw [fractionPart?_of_ne_point (hfirst text)] at hread
      cases hread
      exact fractionPart?_of_ne_point (hfirst _)

theorem exponentPart?_append (hread : exponentPart? text = some (read, rest))
    (hafter : Ends after) : exponentPart? (text ++ after) = some (read, rest ++ after) := by
  cases text with
  | nil =>
    cases hread
    cases after with
    | nil => rfl
    | cons c after =>
      have hc := hafter c rfl
      rw [List.nil_append, exponentPart?.eq_def]
      exact if_neg (by simp [hc])
  | cons c text =>
    rw [List.cons_append]
    rw [exponentPart?.eq_def] at hread ⊢
    dsimp only at hread ⊢
    split at hread
    · next he =>
      rw [if_pos he]
      cases text with
      | nil => cases hread
      | cons s ds =>
        dsimp only [List.cons_append] at hread ⊢
        split at hread
        · next hs =>
          obtain ⟨⟨ds', more⟩, hdigits, heq⟩ := Option.map_eq_some_iff.mp hread
          obtain ⟨rfl, rfl⟩ := Prod.mk.inj heq
          rw [if_pos hs, digits?_append hdigits hafter, Option.map_some]
        · next hs =>
          obtain ⟨⟨ds', more⟩, hdigits, heq⟩ := Option.map_eq_some_iff.mp hread
          obtain ⟨rfl, rfl⟩ := Prod.mk.inj heq
          rw [if_neg hs, ← List.cons_append, digits?_append hdigits hafter, Option.map_some]
    · next he =>
      cases hread
      rw [if_neg he, List.cons_append]

theorem isDigit_of_wholePart? {c : Char} (hread : wholePart? (c :: text) = some (read, rest)) :
    isDigit c = true := by
  by_cases hc : c = '0'
  · rw [hc]
    rfl
  · rw [wholePart?_of_ne_zero hc, digits?] at hread
    by_contra hdigit
    rw [List.takeWhile_cons_of_neg hdigit] at hread
    cases hread

/-- A number after its sign. -/
def unsigned? (sign text : List Char) : Option (List Char × List Char) := do
  let (whole, rest) ← wholePart? text
  let (fraction, rest) ← fractionPart? rest
  let (exponent, rest) ← exponentPart? rest
  return (sign ++ whole ++ fraction ++ exponent, rest)

theorem number?_of_ne_minus {c : Char} (hc : c ≠ '-') (text : List Char) :
    number? (c :: text) = unsigned? [] (c :: text) := by
  unfold number?
  split
  next heq =>
    split at heq
    · next hminus =>
      injection hminus with hminus _
      exact absurd hminus hc
    · cases heq
      rfl

theorem unsigned?_append {sign : List Char} (hread : unsigned? sign text = some (read, rest))
    (hafter : Ends after) : unsigned? sign (text ++ after) = some (read, rest ++ after) := by
  obtain ⟨⟨whole, afterWhole⟩, hwhole, hread⟩ := Option.bind_eq_some_iff.mp hread
  obtain ⟨⟨fraction, afterFraction⟩, hfraction, hread⟩ := Option.bind_eq_some_iff.mp hread
  obtain ⟨⟨exponent, afterExponent⟩, hexponent, hread⟩ := Option.bind_eq_some_iff.mp hread
  obtain ⟨rfl, rfl⟩ := Prod.mk.inj (Option.some.inj hread)
  simp only [unsigned?, wholePart?_append hwhole hafter, fractionPart?_append hfraction hafter,
    exponentPart?_append hexponent hafter, Option.bind_eq_bind, Option.bind_some, pure]

/-- What is read of a number is read of it in front of something else. -/
theorem number?_append (hread : number? text = some (read, rest)) (hafter : Ends after) :
    number? (text ++ after) = some (read, rest ++ after) := by
  cases text with
  | nil => cases hread
  | cons c text =>
    by_cases hc : c = '-'
    · subst hc
      change unsigned? ['-'] text = _ at hread
      exact unsigned?_append hread hafter
    · rw [number?_of_ne_minus hc] at hread
      rw [List.cons_append, number?_of_ne_minus hc]
      exact unsigned?_append hread hafter

end Parts

/-- A number starts with a minus or a digit. -/
theorem IsLiteral.exists_cons {literal : List Char} (h : IsLiteral literal) :
    ∃ c cs, literal = c :: cs ∧ (c = '-' ∨ isDigit c = true) := by
  cases literal with
  | nil => cases h
  | cons c cs =>
    refine ⟨c, cs, rfl, ?_⟩
    by_cases hc : c = '-'
    · exact .inl hc
    · unfold IsLiteral at h
      rw [number?_of_ne_minus hc] at h
      obtain ⟨⟨whole, rest⟩, hwhole, -⟩ := Option.bind_eq_some_iff.mp h
      exact .inr (isDigit_of_wholePart? hwhole)

/-- The digits of a number do not start with a zero, unless it is the only one. -/
theorem decimal_head_ne_zero {n : Nat} (h : n ≠ 0) : ∀ c ∈ (decimal n).head?, c ≠ '0' := by
  unfold decimal
  induction n using Nat.strongRecOn with
  | ind n ih =>
    rw [digits]
    split
    · next hsmall =>
      rintro c ⟨rfl⟩ hzero
      have hcode := digitChar_toNat (d := n) (by omega)
      rw [hzero] at hcode
      have hzero' : '0'.toNat = 48 := rfl
      omega
    · next hmore =>
      have hlt : n / 10 < n := Nat.div_lt_self (by omega) (by omega)
      rw [List.head?_append_of_ne_nil _ (digits_ne_nil 10 _)]
      exact ih _ hlt (by omega)

/-- Natural numbers are written as numbers. -/
theorem isLiteral_decimal (n : Nat) : IsLiteral (decimal n) := by
  obtain ⟨c, cs, hcons, hdigit, -⟩ := decimal_eq_cons n
  have hall := isDigit_of_mem_decimal n
  have hwhole : wholePart? (decimal n) = some (decimal n, []) := by
    by_cases hn : n = 0
    · subst hn
      have hzero : decimal 0 = ['0'] := by
        rw [decimal, digits, dif_pos (by omega)]
        rfl
      rw [hzero]
      rfl
    · have hc : c ≠ '0' := decimal_head_ne_zero hn c (by rw [hcons]; rfl)
      have htake : (decimal n).takeWhile isDigit = decimal n := List.takeWhile_eq_self_iff.mpr hall
      rw [hcons, wholePart?_of_ne_zero hc, ← hcons, digits?, htake]
      simp [hcons]
  unfold IsLiteral
  rw [hcons, number?_of_ne_minus (ne_of_isDigit hdigit rfl), ← hcons]
  simp [unsigned?, hwhole, fractionPart?, exponentPart?]

/-! ## Documents -/

/-- Every text has characters, and every number is one. -/
inductive WellFormed : Json → Prop
  | null : WellFormed null
  | bool (b : Bool) : WellFormed (bool b)
  | number {literal : List Char} (h : IsLiteral literal) : WellFormed (number literal)
  | text (s : String) : WellFormed (text (some s))
  | array {items : List Json} (h : ∀ item ∈ items, WellFormed item) : WellFormed (array items)
  | object {members : List (Option String × Json)} (hnames : ∀ m ∈ members, m.1.isSome = true)
      (hvalues : ∀ m ∈ members, WellFormed m.2) : WellFormed (object members)

/-- In front of whatever does not go on with a number, the document is read from its compact
text. -/
def ReadsBack (j : Json) : Prop :=
  ∀ fuel rest, (compactChars j).length ≤ fuel → Ends rest →
    value? fuel (compactChars j ++ rest) = some (j, rest)

theorem skipBlanks_cons {c : Char} (h : isBlank c = false) (text : List Char) :
    skipBlanks (c :: text) = c :: text :=
  List.dropWhile_cons_of_neg (by simp [h])

/-- Values are told apart by their first character. -/
theorem readsBack_number {literal : List Char} (h : IsLiteral literal) :
    ReadsBack (number literal) := by
  intro fuel rest hfuel hrest
  obtain ⟨c, cs, rfl, hc⟩ := h.exists_cons
  have hread := number?_append h hrest
  have hnot (d : Char) (hd : d ≠ '-') (hdigit : isDigit d = false) : c ≠ d := by
    rcases hc with rfl | hc
    · exact hd.symm
    · exact ne_of_isDigit hc hdigit
  have hblank : isBlank c = false := by
    simp [isBlank, hnot ' ' (by decide) rfl, hnot '\n' (by decide) rfl,
      hnot '\t' (by decide) rfl, hnot '\x0d' (by decide) rfl]
  cases fuel with
  | zero => simp [compactChars] at hfuel
  | succ fuel =>
    rw [compactChars, value?, List.cons_append, skipBlanks_cons hblank]
    split
    · next heq => exact absurd (List.cons.inj heq).1 (hnot '"' (by decide) rfl)
    · next heq => exact absurd (List.cons.inj heq).1 (hnot '[' (by decide) rfl)
    · next heq => exact absurd (List.cons.inj heq).1 (hnot '\x7b' (by decide) rfl)
    · next heq => exact absurd (List.cons.inj heq).1 (hnot 'n' (by decide) rfl)
    · next heq => exact absurd (List.cons.inj heq).1 (hnot 't' (by decide) rfl)
    · next heq => exact absurd (List.cons.inj heq).1 (hnot 'f' (by decide) rfl)
    · rw [← List.cons_append, hread]
      rfl

theorem readsBack_text (s : String) : ReadsBack (text (some s)) := by
  intro fuel rest hfuel hrest
  obtain ⟨more, hwritten, hread⟩ := textAfterQuote?_quotedText s rest
  cases fuel with
  | zero => simp [compactChars, quotedText] at hfuel
  | succ fuel =>
    rw [compactChars, hwritten, value?, skipBlanks_cons rfl]
    show (textAfterQuote? more).map _ = _
    rw [hread, Option.map_some]

theorem readsBack_word (word : String) {j : Json} (hj : compactChars j = word.toList)
    (hword : ∀ fuel rest, value? (fuel + 1) (word.toList ++ rest) = some (j, rest))
    (hne : word.toList ≠ []) : ReadsBack j := by
  intro fuel rest hfuel hrest
  cases fuel with
  | zero => exact absurd (List.length_eq_zero_iff.mp (Nat.le_zero.mp hfuel)) (hj ▸ hne)
  | succ fuel =>
    rw [hj]
    exact hword fuel rest

/-- A document starts with something that is neither blank nor the end of an array. -/
theorem WellFormed.exists_cons {j : Json} (h : WellFormed j) :
    ∃ c cs, compactChars j = c :: cs ∧ isBlank c = false ∧ c ≠ ']' := by
  cases h with
  | null => exact ⟨'n', _, rfl, rfl, by decide⟩
  | bool b =>
    cases b with
    | false => exact ⟨'f', _, rfl, rfl, by decide⟩
    | true => exact ⟨'t', _, rfl, rfl, by decide⟩
  | number h =>
    obtain ⟨c, cs, rfl, hc⟩ := h.exists_cons
    refine ⟨c, cs, by rw [compactChars], ?_, ?_⟩
    · rcases hc with rfl | hc
      · rfl
      · simp [isBlank, ne_of_isDigit hc (d := ' ') rfl, ne_of_isDigit hc (d := '\n') rfl,
          ne_of_isDigit hc (d := '\t') rfl, ne_of_isDigit hc (d := '\x0d') rfl]
    · rcases hc with rfl | hc
      · decide
      · exact ne_of_isDigit hc rfl
  | text s => exact ⟨'"', _, rfl, rfl, by decide⟩
  | array h => exact ⟨'[', _, rfl, rfl, by decide⟩
  | object hnames hvalues => exact ⟨'\x7b', _, rfl, rfl, by decide⟩

/-- Whatever may stand after a value ends a number. -/
theorem ends_cons {c : Char} (h : isDigit c = false ∧ c ≠ '.' ∧ c ≠ 'e' ∧ c ≠ 'E')
    (rest : List Char) : Ends (c :: rest) := by
  rintro d ⟨rfl⟩
  exact h

/-- Items are read one after the other up to the closing bracket. -/
theorem items?_compactItems {items : List Json} (h : ∀ item ∈ items, ReadsBack item)
    (hne : items ≠ []) (fuel : Nat) (rest : List Char)
    (hfuel : (commaSeparated (compactItems items)).length < fuel) :
    items? fuel (commaSeparated (compactItems items) ++ ']' :: rest) = some (items, rest) := by
  induction items generalizing fuel with
  | nil => exact absurd rfl hne
  | cons item items ih =>
    obtain ⟨hitem, hitems⟩ := List.forall_mem_cons.mp h
    cases fuel with
    | zero => simp at hfuel
    | succ fuel =>
      cases items with
      | nil =>
        have hread := hitem fuel (']' :: rest) (Nat.lt_succ_iff.mp hfuel)
          (ends_cons (by decide) rest)
        rw [compactItems, compactItems, commaSeparated, items?, hread]
        dsimp only
        rw [skipBlanks_cons rfl]
        rfl
      | cons next items =>
        have hwritten : commaSeparated (compactItems (item :: next :: items)) =
            compactChars item ++ ',' :: commaSeparated (compactItems (next :: items)) := rfl
        rw [hwritten, List.length_append, List.length_cons] at hfuel
        have hread := hitem fuel
          (',' :: (commaSeparated (compactItems (next :: items)) ++ ']' :: rest)) (by omega)
          (ends_cons (by decide) _)
        rw [hwritten, List.append_assoc, List.cons_append, items?, hread]
        dsimp only
        rw [skipBlanks_cons rfl]
        show (items? fuel _).map _ = _
        rw [ih hitems (List.cons_ne_nil _ _) fuel (by omega), Option.map_some]

/-- One member is read, and then more of them after a comma. -/
theorem members?_succ (s : String) {value : Json} (hvalue : ReadsBack value) {fuel : Nat}
    (hfuel : (compactChars value).length ≤ fuel) {c : Char} (hc : c = ',' ∨ c = '\x7d')
    (rest : List Char) :
    members? (fuel + 1) (quotedText (some s) ++ ':' :: (compactChars value ++ c :: rest)) =
      if c = ',' then (members? fuel rest).map fun read => ((some s, value) :: read.1, read.2)
      else some ([(some s, value)], rest) := by
  have hends : Ends (c :: rest) := ends_cons (by rcases hc with rfl | rfl <;> decide) rest
  obtain ⟨more, hwritten, htext⟩ :=
    textAfterQuote?_quotedText s (':' :: (compactChars value ++ c :: rest))
  have hblank : isBlank c = false := by
    rcases hc with rfl | rfl <;> rfl
  rw [hwritten, members?, skipBlanks_cons rfl]
  simp only [htext]
  rw [skipBlanks_cons rfl]
  simp only [hvalue fuel _ hfuel hends]
  rw [skipBlanks_cons hblank]
  rcases hc with rfl | rfl <;> rfl

/-- Members are read one after the other up to the closing brace. -/
theorem members?_compactMembers {members : List (Option String × Json)}
    (hnames : ∀ m ∈ members, m.1.isSome = true) (hvalues : ∀ m ∈ members, ReadsBack m.2)
    (hne : members ≠ []) (fuel : Nat) (rest : List Char)
    (hfuel : (commaSeparated (compactMembers members)).length < fuel) :
    members? fuel (commaSeparated (compactMembers members) ++ '\x7d' :: rest) =
      some (members, rest) := by
  induction members generalizing fuel with
  | nil => exact absurd rfl hne
  | cons m members ih =>
    obtain ⟨name, value⟩ := m
    obtain ⟨hname, hothers⟩ := List.forall_mem_cons.mp hnames
    obtain ⟨hvalue, hread⟩ := List.forall_mem_cons.mp hvalues
    obtain ⟨s, rfl⟩ : ∃ s, name = some s := Option.isSome_iff_exists.mp hname
    change ReadsBack value at hvalue
    cases fuel with
    | zero => simp at hfuel
    | succ fuel =>
      cases members with
      | nil =>
        have hwritten : commaSeparated (compactMembers [(some s, value)]) =
            quotedText (some s) ++ ':' :: compactChars value := rfl
        rw [hwritten, List.length_append, List.length_cons] at hfuel
        rw [hwritten, List.append_assoc, List.cons_append,
          members?_succ s hvalue (by omega) (.inr rfl), if_neg (by decide)]
      | cons next members =>
        have hwritten : commaSeparated (compactMembers ((some s, value) :: next :: members)) =
            (quotedText (some s) ++ ':' :: compactChars value) ++
              ',' :: commaSeparated (compactMembers (next :: members)) := rfl
        rw [hwritten, List.length_append, List.length_append, List.length_cons,
          List.length_cons] at hfuel
        rw [hwritten, List.append_assoc, List.append_assoc, List.cons_append, List.cons_append,
          members?_succ s hvalue (by omega) (.inl rfl), if_pos rfl,
          ih hothers hread (List.cons_ne_nil _ _) fuel (by omega), Option.map_some]

/-- An array whose first item starts here. -/
theorem value?_array {c : Char} (hblank : isBlank c = false) (hc : c ≠ ']') (fuel : Nat)
    (text : List Char) : value? (fuel + 1) ('[' :: c :: text) =
      (items? fuel (c :: text)).map fun read => (.array read.1, read.2) := by
  have hbracket : skipBlanks ('[' :: c :: text) = '[' :: c :: text := skipBlanks_cons rfl _
  unfold value?
  rw [hbracket]
  simp only [↓Char.isValue]
  rw [skipBlanks_cons hblank]
  split
  · next heq => exact absurd (List.cons.inj heq).1 hc
  · rfl

/-- An object whose first member starts here. -/
theorem value?_object (fuel : Nat) (text : List Char) :
    value? (fuel + 1) ('\x7b' :: '"' :: text) =
      (members? fuel ('"' :: text)).map fun read => (.object read.1, read.2) := rfl

theorem readsBack_array {items : List Json} (h : ∀ item ∈ items, WellFormed item)
    (hread : ∀ item ∈ items, ReadsBack item) : ReadsBack (array items) := by
  intro fuel rest hfuel hrest
  have hwritten : compactChars (.array items) ++ rest =
      '[' :: (commaSeparated (compactItems items) ++ ']' :: rest) := by
    simp [compactChars]
  have hlength : (compactChars (.array items)).length =
      (commaSeparated (compactItems items)).length + 2 := by
    simp [compactChars]
  cases fuel with
  | zero => omega
  | succ fuel =>
    rw [hwritten]
    cases items with
    | nil => rfl
    | cons item items =>
      obtain ⟨c, cs, hc, hblank, hbracket⟩ := (h item List.mem_cons_self).exists_cons
      obtain ⟨more, hmore⟩ :
          ∃ more, commaSeparated (compactItems (item :: items)) = c :: more := by
        cases items with
        | nil => exact ⟨cs, hc⟩
        | cons next items =>
          refine ⟨cs ++ ',' :: commaSeparated (compactItems (next :: items)), ?_⟩
          show compactChars item ++ _ = _
          rw [hc, List.cons_append]
      have hitems := items?_compactItems hread (List.cons_ne_nil _ _) fuel rest (by omega)
      rw [hmore, List.cons_append] at hitems ⊢
      rw [value?_array hblank hbracket, hitems, Option.map_some]

theorem readsBack_object {members : List (Option String × Json)}
    (hnames : ∀ m ∈ members, m.1.isSome = true) (hread : ∀ m ∈ members, ReadsBack m.2) :
    ReadsBack (object members) := by
  intro fuel rest hfuel hrest
  have hwritten : compactChars (.object members) ++ rest =
      '\x7b' :: (commaSeparated (compactMembers members) ++ '\x7d' :: rest) := by
    simp [compactChars]
  have hlength : (compactChars (.object members)).length =
      (commaSeparated (compactMembers members)).length + 2 := by
    simp [compactChars]
  cases fuel with
  | zero => omega
  | succ fuel =>
    rw [hwritten]
    cases members with
    | nil => rfl
    | cons m members =>
      obtain ⟨more, hmore⟩ :
          ∃ more, commaSeparated (compactMembers (m :: members)) = '"' :: more := by
        cases members with
        | nil => exact ⟨_, rfl⟩
        | cons next members => exact ⟨_, rfl⟩
      have hmembers := members?_compactMembers hnames hread (List.cons_ne_nil _ _) fuel rest
        (by omega)
      rw [hmore, List.cons_append] at hmembers ⊢
      rw [value?_object, hmembers, Option.map_some]

/-- **Every `WellFormed` document is read from its compact text**, whatever stands behind it
(`ReadsBack`). -/
theorem WellFormed.readsBack {j : Json} (h : WellFormed j) : ReadsBack j := by
  induction h with
  | null => exact readsBack_word "null" rfl (fun _ _ => rfl) (by decide)
  | bool b =>
    cases b with
    | false => exact readsBack_word "false" rfl (fun _ _ => rfl) (by decide)
    | true => exact readsBack_word "true" rfl (fun _ _ => rfl) (by decide)
  | number h => exact readsBack_number h
  | text s => exact readsBack_text s
  | array h ih => exact readsBack_array h ih
  | object hnames _ ih => exact readsBack_object hnames ih

/-- **`ofText?` inverts `compact`** on the `WellFormed` documents. -/
theorem ofText?_compact {j : Json} (h : WellFormed j) : ofText? (compact j) = some j := by
  have hread := h.readsBack (2 * (compactChars j).length + 2) [] (by omega) nofun
  rw [List.append_nil] at hread
  rw [ofText?, compact, String.toList_ofList, hread]
  rfl

end CimBroker.Json
