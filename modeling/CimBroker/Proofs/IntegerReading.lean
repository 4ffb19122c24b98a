/-
# CimBroker.Proofs.IntegerReading — which values are read as integers

An integer can be asked for in eight forms, four widths with and without a sign, and can arrive
under eight tags, as text, or as nothing.  `Stands` says which number a value stands for when an
integer of a form is asked for, without a word on how it is found: nothing stands for zero, a word
for its number, and a text for what it spells (`Number.Spells`), which may take two signs and the
prefix of a base.  Only a signed word of the asked-for width is taken bit for bit where no sign is
asked for.

Decoding succeeds exactly on the values that stand for a number in the range of the form, and yields
that number (`integer_read_iff_stands`).

What is decoded stands for its number (`AtomType.decodeInteger_cases`), and what stands for a number
in range is decoded (`AtomType.decodeInteger_of_stands`).  Optional integers and lists of integers
are left out.
-/
import CimBroker.Proofs.Numerals
import CimBroker.Variant.Codec
import Mathlib.Data.Nat.Digits.Defs

namespace CimBroker

namespace Number

/-! ## Rows of digits -/

/-- The row of digits stands for the number, each digit counted by its place. -/
def Positional (base : Nat) (ds : List Char) (n : Nat) : Prop :=
  ds ≠ [] ∧ ∃ values : List Nat,
    ds.map (digit? base) = values.map some ∧ n = Nat.ofDigits base values.reverse

/-- Reading digits one after the other counts each by its place. -/
theorem extend?_eq_some_iff {base acc n : Nat} {cs : List Char} :
    extend? base acc cs = some n ↔ ∃ values : List Nat, cs.map (digit? base) = values.map some ∧
      n = acc * base ^ cs.length + Nat.ofDigits base values.reverse := by
  induction cs generalizing acc with
  | nil =>
    constructor
    · intro h
      refine ⟨[], rfl, ?_⟩
      simpa [extend?] using h.symm
    · rintro ⟨values, hvalues, rfl⟩
      obtain rfl : values = [] := by simpa using hvalues.symm
      simp [extend?]
  | cons c cs ih =>
    rw [extend?, Option.bind_eq_some_iff]
    constructor
    · rintro ⟨d, hd, hrest⟩
      obtain ⟨values, hvalues, rfl⟩ := ih.mp hrest
      refine ⟨d :: values, by rw [List.map_cons, List.map_cons, hd, hvalues], ?_⟩
      have hlength : cs.length = values.length := by simpa using congrArg List.length hvalues
      rw [Nat.ofDigits_reverse_cons, List.length_cons, hlength]
      ring
    · rintro ⟨values, hvalues, rfl⟩
      cases values with
      | nil => simp at hvalues
      | cons d values =>
        rw [List.map_cons, List.map_cons, List.cons.injEq] at hvalues
        refine ⟨d, hvalues.1, ih.mpr ⟨values, hvalues.2, ?_⟩⟩
        have hlength : cs.length = values.length := by simpa using congrArg List.length hvalues.2
        rw [Nat.ofDigits_reverse_cons, List.length_cons, hlength]
        ring

theorem ofDigits?_eq_some_iff {base n : Nat} {ds : List Char} :
    ofDigits? base ds = some n ↔ Positional base ds n := by
  cases ds with
  | nil => simp [ofDigits?, Positional]
  | cons c ds =>
    rw [ofDigits?, extend?_eq_some_iff, Positional]
    simp

/-- A row of digits starts with a digit. -/
theorem Positional.first {base n : Nat} {ds : List Char} (h : Positional base ds n) :
    ∃ c cs, ds = c :: cs ∧ digit? base c ≠ none := by
  obtain ⟨hne, values, hvalues, -⟩ := h
  obtain ⟨c, cs, rfl⟩ := List.exists_cons_of_ne_nil hne
  refine ⟨c, cs, rfl, fun hc => ?_⟩
  cases values <;> simp [hc] at hvalues

/-- A sign is a digit in no base. -/
theorem digit?_sign (base : Nat) : digit? base '-' = none ∧ digit? base '+' = none := by
  constructor <;> simp [digit?]

/-! ## Spelled integers -/

/-- What may stand in front of a number. -/
inductive Sign where
  | absent
  | plus
  | minus

namespace Sign

def text : Sign → List Char
  | absent => []
  | plus => ['+']
  | minus => ['-']

/-- What a number is multiplied by that has the sign in front of it. -/
def factor : Sign → Int
  | absent => 1
  | plus => 1
  | minus => -1

end Sign

/-- The prefix announces digits of the base. -/
inductive Announces : List Char → Nat → Prop
  | decimal : Announces [] 10
  | hexadecimal {x : Char} (hx : x = 'x' ∨ x = 'X') : Announces ['0', x] 16

/-- The text spells the integer: blanks around it aside, it is a sign or none, the prefix of a base,
a second sign or none, and digits of the base. -/
inductive Spells (text : List Char) : Int → Prop
  | intro {outer inner : Sign} {mark ds : List Char} {base m : Nat} (hmark : Announces mark base)
      (hds : Positional base ds m)
      (htext : Text.trim text = outer.text ++ (mark ++ (inner.text ++ ds))) :
      Spells text (outer.factor * (inner.factor * m))

/-- What is read after the prefix is a sign and digits. -/
theorem signedDigits?_shape {base : Nat} {cs : List Char} {n : Int}
    (h : signedDigits? base cs = some n) :
    ∃ (inner : Sign) (ds : List Char) (m : Nat),
      cs = inner.text ++ ds ∧ Positional base ds m ∧ n = inner.factor * m := by
  have hreach {k k' : Int} (hk : inReach? k = some k') : k' = k :=
    (Option.some.inj (Option.ite_none_right_eq_some.mp hk).2).symm
  unfold signedDigits? at h
  split at h
  · obtain ⟨m, hm, hn⟩ := Option.bind_eq_some_iff.mp h
    exact ⟨.minus, _, m, rfl, ofDigits?_eq_some_iff.mp hm, by rw [hreach hn, Sign.factor]; omega⟩
  · obtain ⟨m, hm, hn⟩ := Option.bind_eq_some_iff.mp h
    exact ⟨.plus, _, m, rfl, ofDigits?_eq_some_iff.mp hm, by rw [hreach hn, Sign.factor]; omega⟩
  · obtain ⟨m, hm, hn⟩ := Option.bind_eq_some_iff.mp h
    exact ⟨.absent, _, m, rfl, ofDigits?_eq_some_iff.mp hm, by rw [hreach hn, Sign.factor]; omega⟩

/-- A sign and digits are read, unless the number is out of all reach. -/
theorem signedDigits?_digits {base m : Nat} {ds : List Char} (hds : Positional base ds m)
    (hm : m < 2 ^ 127) (inner : Sign) :
    signedDigits? base (inner.text ++ ds) = some (inner.factor * m) := by
  have hread := ofDigits?_eq_some_iff.mpr hds
  have hreach {k : Int} (hk : k = m ∨ k = -m) : inReach? k = some k := by
    unfold inReach? leastRead greatestRead
    rw [if_pos (by omega)]
  cases inner with
  | minus =>
    show (ofDigits? base ds).bind _ = _
    rw [hread, Option.bind_some, hreach (.inr rfl), Sign.factor]
    congr 1
    omega
  | plus =>
    show (ofDigits? base ds).bind _ = _
    rw [hread, Option.bind_some, hreach (.inl rfl), Sign.factor]
    congr 1
    omega
  | absent =>
    -- the digits start with no sign, so the third case is the one
    obtain ⟨c, cs, rfl, hc⟩ := hds.first
    show signedDigits? base (c :: cs) = _
    unfold signedDigits?
    split
    · next heq => exact absurd (digit?_sign base).1 ((List.cons.inj heq).1 ▸ hc)
    · next heq => exact absurd (digit?_sign base).2 ((List.cons.inj heq).1 ▸ hc)
    · rw [hread, Option.bind_some, hreach (.inl rfl), Sign.factor]
      congr 1
      omega

/-- What is read after an outer sign is a prefix, a sign and digits. -/
theorem magnitude?_shape {cs : List Char} {n : Int} (h : magnitude? cs = some n) :
    ∃ (inner : Sign) (mark ds : List Char) (base m : Nat), Announces mark base ∧
      cs = mark ++ (inner.text ++ ds) ∧ Positional base ds m ∧ n = inner.factor * m := by
  unfold magnitude? at h
  split at h
  · obtain ⟨inner, ds, m, rfl, hds, hn⟩ := signedDigits?_shape h
    exact ⟨inner, _, ds, 16, m, .hexadecimal (.inl rfl), rfl, hds, hn⟩
  · obtain ⟨inner, ds, m, rfl, hds, hn⟩ := signedDigits?_shape h
    exact ⟨inner, _, ds, 16, m, .hexadecimal (.inr rfl), rfl, hds, hn⟩
  · obtain ⟨inner, ds, m, rfl, hds, hn⟩ := signedDigits?_shape h
    exact ⟨inner, [], ds, 10, m, .decimal, rfl, hds, hn⟩

/-- The letter of the hexadecimal prefix is no second character of a decimal number. -/
theorem not_marked {m : Nat} {ds rest : List Char} {x : Char} (hx : x = 'x' ∨ x = 'X')
    (hds : Positional 10 ds m) (inner : Sign) : inner.text ++ ds ≠ '0' :: x :: rest := by
  intro heq
  cases inner with
  | minus => exact absurd (List.cons.inj heq).1 (by decide)
  | plus => exact absurd (List.cons.inj heq).1 (by decide)
  | absent =>
    obtain rfl : ds = '0' :: x :: rest := heq
    obtain ⟨-, values, hvalues, -⟩ := hds
    have hdigit : digit? 10 x = none := by
      rcases hx with rfl | rfl <;> decide
    rcases values with _ | ⟨first, _ | ⟨second, values⟩⟩ <;> simp [hdigit] at hvalues

/-- A prefix, a sign and digits are read, unless the number is out of all reach. -/
theorem magnitude?_digits {base m : Nat} {mark ds : List Char} (hmark : Announces mark base)
    (hds : Positional base ds m) (hm : m < 2 ^ 127) (inner : Sign) :
    magnitude? (mark ++ (inner.text ++ ds)) = some (inner.factor * m) := by
  have hread := signedDigits?_digits hds hm inner
  cases hmark with
  | hexadecimal hx => rcases hx with rfl | rfl <;> exact hread
  | decimal =>
    rw [List.nil_append]
    unfold magnitude?
    split
    · next heq => exact absurd heq (not_marked (.inl rfl) hds inner)
    · next heq => exact absurd heq (not_marked (.inr rfl) hds inner)
    · exact hread

/-- **Only what spells an integer (`Spells`) is read as one.** -/
theorem spells_of_integer? {text : List Char} {n : Int} (h : integer? text = some n) :
    Spells text n := by
  unfold integer? at h
  split at h
  · next cs htext =>
    obtain ⟨k, hk, rfl⟩ := Option.map_eq_some_iff.mp h
    obtain ⟨inner, mark, ds, base, m, hmark, rfl, hds, rfl⟩ := magnitude?_shape hk
    have hspells : Spells text (Sign.minus.factor * _) := .intro hmark hds htext
    rwa [Sign.factor, neg_one_mul] at hspells
  · next cs htext =>
    obtain ⟨inner, mark, ds, base, m, hmark, rfl, hds, rfl⟩ := magnitude?_shape h
    have hspells : Spells text (Sign.plus.factor * _) := .intro hmark hds htext
    rwa [Sign.factor, one_mul] at hspells
  · obtain ⟨inner, mark, ds, base, m, hmark, hcs, hds, rfl⟩ := magnitude?_shape h
    have hspells : Spells text (Sign.absent.factor * _) := .intro hmark hds hcs
    rwa [Sign.factor, one_mul] at hspells

theorem integer?_minus {text cs : List Char} {n : Int} (htext : Text.trim text = '-' :: cs)
    (hcs : magnitude? cs = some n) : integer? text = some (-n) := by
  unfold integer?
  rw [htext]
  show (magnitude? cs).map _ = _
  rw [hcs, Option.map_some]

theorem integer?_plus {text cs : List Char} {n : Int} (htext : Text.trim text = '+' :: cs)
    (hcs : magnitude? cs = some n) : integer? text = some n := by
  unfold integer?
  rw [htext]
  exact hcs

/-- Without an outer sign all of the text is the magnitude. -/
theorem integer?_bare {text cs : List Char} {c : Char} {n : Int}
    (htext : Text.trim text = c :: cs) (hminus : c ≠ '-') (hplus : c ≠ '+')
    (hcs : magnitude? (c :: cs) = some n) : integer? text = some n := by
  unfold integer?
  rw [htext]
  split
  · next heq => exact absurd (List.cons.inj heq).1 hminus
  · next heq => exact absurd (List.cons.inj heq).1 hplus
  · exact hcs

/-- **What `Spells` an integer is read** by `integer?`, unless the integer is out of all reach. -/
theorem integer?_of_spells {text : List Char} {n : Int} (h : Spells text n)
    (hn : n.natAbs < 2 ^ 127) : integer? text = some n := by
  obtain @⟨outer, inner, mark, ds, base, m, hmark, hds, htext⟩ := h
  have hm : m < 2 ^ 127 := by
    cases outer <;> cases inner <;> simp only [Sign.factor] at hn <;> omega
  have hread := magnitude?_digits hmark hds hm inner
  cases outer with
  | minus =>
    rw [integer?_minus htext hread, Sign.factor, neg_one_mul]
  | plus =>
    rw [integer?_plus htext hread, Sign.factor, one_mul]
  | absent =>
    obtain ⟨c, cs, rfl, hc⟩ := hds.first
    cases hmark with
    | @hexadecimal x hx =>
      rw [integer?_bare htext (by decide) (by decide) hread, Sign.factor, one_mul]
    | decimal =>
      -- a sign that stands in front of decimal digits is taken for the outer one
      have hbare : magnitude? (c :: cs) = some (Sign.absent.factor * m) :=
        magnitude?_digits .decimal hds hm .absent
      cases inner with
      | minus =>
        rw [integer?_minus htext hbare]
        simp [Sign.factor]
      | plus =>
        rw [integer?_plus htext hbare]
        simp [Sign.factor]
      | absent =>
        have hminus : c ≠ '-' := fun heq => hc (heq ▸ (digit?_sign 10).1)
        have hplus : c ≠ '+' := fun heq => hc (heq ▸ (digit?_sign 10).2)
        rw [integer?_bare htext hminus hplus hbare]
        simp [Sign.factor]

/-! ## Ranges -/

/-- The number is one of those that an integer of the form can have. -/
def InRange (signed : Bool) (width : Width) (n : Int) : Prop :=
  leastWord signed width ≤ n ∧ n ≤ greatestWord signed width

/-- A number in range is the number of a word, and no other number is. -/
theorem exists_word_iff {signed : Bool} {width : Width} {n : Int} :
    (∃ word, word? signed width n = some word) ↔ InRange signed width n := by
  unfold word? InRange
  split
  · next h => exact iff_of_true ⟨_, rfl⟩ h
  · next h => exact iff_of_false (by simp) h

/-- No range goes as far as reading does. -/
theorem InRange.natAbs_lt {signed : Bool} {width : Width} {n : Int} (h : InRange signed width n) :
    n.natAbs < 2 ^ 127 := by
  unfold InRange leastWord greatestWord at h
  cases signed <;> cases width <;>
    simp only [Width.bits, Bool.false_eq_true, if_false, if_true] at h <;> omega

/-- The number of a word is in the range of its form. -/
theorem inRange_wordValue (signed : Bool) (width : Width) (word : BitVec width.bits) :
    InRange signed width (wordValue signed word) :=
  exists_word_iff.mp ⟨word, word?_wordValue signed width word⟩

end Number

/-! ## Values -/

open Number (Spells InRange wordValue)

/-- The number that a value stands for where an integer of the form is asked for. -/
inductive Stands (signed : Bool) (width : Number.Width) : Variant → Int → Prop
  | nothing : Stands signed width .null 0
  /-- Where no sign is asked for, a signed word of the width keeps its bits: its number is taken
  modulo the power of two. -/
  | bits (hform : signed = false) (word : BitVec width.bits) :
      Stands signed width (.scalar (.integer true width word)) (word.toInt % 2 ^ width.bits)
  | word {s : Bool} {w : Number.Width} (hother : signed = true ∨ s = false ∨ w ≠ width)
      (word : BitVec w.bits) :
      Stands signed width (.scalar (.integer s w word)) (wordValue s word)
  | text {s : String} {n : Int} (hspells : Spells s.toList n) : Stands signed width (.text s) n

namespace AtomType

variable {signed : Bool} {width : Number.Width}

/-- A number is fitted into a word if it is in range, and the error is one of conversion if not. -/
theorem fitInteger_cases (signed : Bool) (width : Number.Width) (v : Variant) (n : Int) :
    (∃ x, fitInteger signed width v n = .ok x ∧ wordValue signed x = n) ∨
      (¬ InRange signed width n ∧
        ∃ wire, fitInteger signed width v n =
          .error (.typeConversion wire (integerName signed width))) := by
  unfold fitInteger
  cases hword : Number.word? signed width n with
  | some x => exact .inl ⟨x, rfl, Number.wordValue_of_word? hword⟩
  | none =>
    refine .inr ⟨fun hrange => ?_, _, rfl⟩
    obtain ⟨x, hx⟩ := Number.exists_word_iff.mpr hrange
    rw [hword] at hx
    cases hx

/-- The bits of a signed word as an unsigned number. -/
theorem toInt_emod_twoPow {k : Nat} (word : BitVec k) :
    word.toInt % 2 ^ k = (word.toNat : Int) := by
  have hlt : (word.toNat : Int) < 2 ^ k := by exact_mod_cast word.isLt
  have hmod := @Int.bmod_emod (word.toNat : Int) (2 ^ k)
  rw [Int.natCast_pow] at hmod
  rw [BitVec.toInt_eq_toNat_bmod]
  exact hmod.trans (Int.emod_eq_of_lt (by omega) hlt)

/-- A signed word of the width is the unsigned number of its bits. -/
theorem decodeInteger_bits (word : BitVec width.bits) :
    decodeInteger false width (.scalar (.integer true width word)) = .ok word := by
  simp [decodeInteger, signedWord?, Variant.isNull]

/-- Any other value that is there is decoded by its number. -/
theorem decodeInteger_other {v : Variant} (hv : v ≠ .null)
    (hword : (if signed then none else signedWord? width v) = none) :
    decodeInteger signed width v =
      (v.integer (integerName signed width)).bind (fitInteger signed width v) := by
  have hthere : v.isNull = false := by
    cases v with
    | null => exact absurd rfl hv
    | scalar => rfl
    | array => rfl
  unfold decodeInteger
  rw [hthere, hword]
  rfl

/-- Words other than the signed ones of the width are not taken bit for bit. -/
theorem signedWord?_other {s : Bool} {w : Number.Width} {word : BitVec w.bits}
    (hother : signed = true ∨ s = false ∨ w ≠ width) :
    (if signed then none else signedWord? width (.scalar (.integer s w word))) = none := by
  cases signed with
  | true => rfl
  | false =>
    cases s with
    | false => rfl
    | true =>
      have hw : w ≠ width := by simpa using hother
      simp [signedWord?, hw]

/-- A word, other than one that is taken bit for bit, is fitted by its number. -/
theorem decodeInteger_word {s : Bool} {w : Number.Width} (word : BitVec w.bits)
    (hother : signed = true ∨ s = false ∨ w ≠ width) :
    decodeInteger signed width (.scalar (.integer s w word)) =
      fitInteger signed width (.scalar (.integer s w word)) (wordValue s word) :=
  decodeInteger_other nofun (signedWord?_other hother)

/-- A text is fitted by the integer that is read from it. -/
theorem decodeInteger_text (s : String) :
    decodeInteger signed width (.text s) =
      match Number.integer? s.toList with
      | some n => fitInteger signed width (.text s) n
      | none => .error (unreadableText s (integerName signed width)) := by
  have hthere : Variant.text s ≠ .null := nofun
  rw [decodeInteger_other hthere (by cases signed <;> rfl), Variant.integer]
  cases Number.integer? s.toList <;> rfl

/-- **What is decoded `Stands` for the number**, and decoding fails in one way only. -/
theorem decodeInteger_cases (signed : Bool) (width : Number.Width) (v : Variant) :
    (∃ x, decodeInteger signed width v = .ok x ∧ Stands signed width v (wordValue signed x)) ∨
      ∃ wire, decodeInteger signed width v =
        .error (.typeConversion wire (integerName signed width)) := by
  have hfit {v : Variant} {n : Int} (hv : Stands signed width v n) :
      (∃ x, fitInteger signed width v n = .ok x ∧ Stands signed width v (wordValue signed x)) ∨
        ∃ wire, fitInteger signed width v n =
          .error (.typeConversion wire (integerName signed width)) := by
    rcases fitInteger_cases signed width v n with ⟨x, hx, rfl⟩ | ⟨-, hwire⟩
    · exact .inl ⟨x, hx, hv⟩
    · exact .inr hwire
  cases v with
  | null =>
    have hzero : wordValue signed (0 : BitVec width.bits) = 0 := by
      cases signed <;> simp [wordValue]
    exact .inl ⟨0, rfl, hzero ▸ .nothing⟩
  | array a => cases signed <;> exact .inr ⟨_, rfl⟩
  | scalar s =>
    cases s with
    | integer s w word =>
      by_cases hother : signed = true ∨ s = false ∨ w ≠ width
      · rw [decodeInteger_word word hother]
        exact hfit (.word hother word)
      · obtain ⟨rfl, rfl, rfl⟩ : signed = false ∧ s = true ∧ w = width := by
          simpa using hother
        refine .inl ⟨word, decodeInteger_bits word, ?_⟩
        rw [wordValue, if_neg (by simp), ← toInt_emod_twoPow]
        exact .bits rfl word
    | text s =>
      rw [decodeInteger_text]
      split
      · next n hread => exact hfit (.text (Number.spells_of_integer? hread))
      · exact .inr ⟨_, rfl⟩
    | bool => cases signed <;> exact .inr ⟨_, rfl⟩
    | single => cases signed <;> exact .inr ⟨_, rfl⟩
    | double => cases signed <;> exact .inr ⟨_, rfl⟩
    | object => cases signed <;> exact .inr ⟨_, rfl⟩

/-- **What `Stands` for a number in range is decoded** to that number (`InRange`). -/
theorem decodeInteger_of_stands {v : Variant} {n : Int} (h : Stands signed width v n)
    (hrange : InRange signed width n) :
    ∃ x, decodeInteger signed width v = .ok x ∧ wordValue signed x = n := by
  have hfit (v : Variant) : ∃ x, fitInteger signed width v n = .ok x ∧ wordValue signed x = n :=
    (fitInteger_cases signed width v n).resolve_right fun hout => hout.1 hrange
  cases h with
  | nothing => exact ⟨0, rfl, by cases signed <;> simp [wordValue]⟩
  | bits hform word =>
    subst hform
    refine ⟨word, decodeInteger_bits word, ?_⟩
    rw [toInt_emod_twoPow, wordValue, if_neg (by simp)]
  | word hother word =>
    rw [decodeInteger_word word hother]
    exact hfit _
  | text hspells =>
    rw [decodeInteger_text, Number.integer?_of_spells hspells hrange.natAbs_lt]
    exact hfit _

end AtomType

/-- **A value is read as an integer exactly if it stands for one in range.** Asked for an integer of
any form, a value yields a number exactly if it stands for that number (`Stands`) and the number is
in the range of the form (`InRange`); nothing is wrapped or cut.  Where it stands for no number in
range, decoding fails with an error of conversion that names the form (`AtomType.integerName`), and
it fails in no other case. -/
theorem integer_read_iff_stands (signed : Bool) (width : Number.Width) (v : Variant) :
    (∀ n, (∃ x, (DataType.atom (.integer signed width)).decode v = .ok x ∧ wordValue signed x = n) ↔
      Stands signed width v n ∧ InRange signed width n) ∧
    ((∃ wire, (DataType.atom (.integer signed width)).decode v =
        .error (.typeConversion wire (AtomType.integerName signed width))) ↔
      ¬ ∃ n, Stands signed width v n ∧ InRange signed width n) := by
  have hdecode : (DataType.atom (.integer signed width)).decode v =
      AtomType.decodeInteger signed width v := rfl
  rw [hdecode]
  have hread (n : Int) : (∃ x, AtomType.decodeInteger signed width v = .ok x ∧
      wordValue signed x = n) ↔ Stands signed width v n ∧ InRange signed width n := by
    constructor
    · rintro ⟨x, hx, rfl⟩
      refine ⟨?_, Number.inRange_wordValue signed width x⟩
      rcases AtomType.decodeInteger_cases signed width v with ⟨y, hy, hstands⟩ | ⟨wire, hwire⟩
      · cases hx.symm.trans hy
        exact hstands
      · cases hx.symm.trans hwire
    · rintro ⟨hstands, hrange⟩
      exact AtomType.decodeInteger_of_stands hstands hrange
  refine ⟨hread, ?_⟩
  constructor
  · rintro ⟨wire, hwire⟩ ⟨n, hn⟩
    obtain ⟨x, hx, -⟩ := (hread n).mpr hn
    cases hwire.symm.trans hx
  · intro hnone
    refine (AtomType.decodeInteger_cases signed width v).resolve_left ?_
    rintro ⟨x, hx, -⟩
    exact hnone ⟨_, (hread _).mp ⟨x, hx, rfl⟩⟩

end CimBroker
