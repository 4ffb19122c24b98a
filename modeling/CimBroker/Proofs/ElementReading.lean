/-
# CimBroker.Proofs.ElementReading — reading elements

What is read of a document that is put together from tags whose names and attributes are plain
words, and of text between them.  A part of the document is read as its tokens, whatever follows it
(`Reads`), and reading stops at a text with a character that markup does not admit (`Stops`).  The
tokens between the tags of an element make the nodes of its inside (`foldlM_element`).

`ofText?_element` reads a document that is one element, and `ofText?_eq_none` refuses one in which
reading stops.  Only elements and attributes without prefixes are covered, with no comments,
instructions or literal sections between them, which is what exchange texts are made of.
-/
import CimBroker.Markup.Document
import CimBroker.Proofs.EscapedText
import Mathlib.Data.List.Nodup
import Mathlib.Data.List.TakeWhile

namespace CimBroker.Markup

/-! ## Words -/

/-- The text is a name without a prefix. -/
def IsWord (w : List Char) : Prop :=
  w ≠ [] ∧ startsName w = true ∧ ∀ c ∈ w, isNameChar c = true ∧ c ≠ ':'

instance : DecidablePred IsWord := fun w =>
  decidable_of_iff
    (w ≠ [] ∧ startsName w = true ∧ w.all (fun c => isNameChar c && c != ':') = true)
    (by simp [IsWord])

/-- The text can stand between double quotes, and stands for itself there. -/
def IsPlain (v : List Char) : Prop :=
  ∀ c ∈ v, c ≠ '"' ∧ c ≠ '<' ∧ c ≠ '&' ∧ isSpace c = false ∧ isAdmitted c = true

instance : DecidablePred IsPlain := fun v =>
  decidable_of_iff
    (v.all (fun c => c != '"' && c != '<' && c != '&' && !isSpace c && isAdmitted c) = true)
    (by simp [IsPlain, and_assoc])

theorem ne_of_isNameStart {c d : Char} (hc : isNameStart c = true) (hd : isNameStart d = false) :
    c ≠ d := by
  rintro rfl
  exact absurd (hc.symm.trans hd) Bool.noConfusion

theorem isSpace_of_isNameStart {c : Char} (hc : isNameStart c = true) : isSpace c = false := by
  have hspace := ne_of_isNameStart (d := ' ') hc (by decide)
  have htab := ne_of_isNameStart (d := '\t') hc (by decide)
  have hnewline := ne_of_isNameStart (d := '\n') hc (by decide)
  have hreturn := ne_of_isNameStart (d := '\x0d') hc (by decide)
  simp [isSpace, hspace, htab, hnewline, hreturn]

theorem IsWord.first {w : List Char} (hw : IsWord w) :
    ∃ c cs, w = c :: cs ∧ isNameStart c = true := by
  obtain ⟨hne, hstarts, -⟩ := hw
  obtain ⟨c, cs, rfl⟩ := List.exists_cons_of_ne_nil hne
  exact ⟨c, cs, rfl, hstarts⟩

theorem takeWhile_append_stop {p : Char → Bool} {w : List Char} (hw : ∀ c ∈ w, p c = true)
    {rest : List Char} (hrest : ∀ c ∈ rest.head?, p c = false) :
    (w ++ rest).takeWhile p = w ∧ (w ++ rest).dropWhile p = rest := by
  have hstop : rest.takeWhile p = [] ∧ rest.dropWhile p = rest := by
    cases rest with
    | nil => exact ⟨rfl, rfl⟩
    | cons c rest => simp [hrest c rfl]
  rw [List.takeWhile_append_of_pos hw, List.dropWhile_append_of_pos hw, hstop.1, hstop.2,
    List.append_nil]
  exact ⟨rfl, rfl⟩

theorem qname?_word {w rest : List Char} (hw : IsWord w)
    (hrest : ∀ c ∈ rest.head?, isNameChar c = false) :
    qname? (w ++ rest) = some (⟨[], w⟩, rest) := by
  obtain ⟨hne, hstarts, hchars⟩ := hw
  obtain ⟨htake, hdrop⟩ := takeWhile_append_stop (fun c hc => (hchars c hc).1) hrest
  have hbefore : w.takeWhile (· != ':') = w :=
    List.takeWhile_eq_self_iff.mpr fun c hc => by simpa using (hchars c hc).2
  have hcolon : ':' ∉ w := fun hmem => (hchars ':' hmem).2 rfl
  have hempty : startsName [] = true := rfl
  unfold qname?
  simp [htake, hdrop, hbefore, hcolon, hne, hempty, hstarts]

namespace Token

theorem quotedValue?_plain {v : List Char} (hv : IsPlain v) (rest : List Char) :
    quotedValue? ('"' :: (v ++ '"' :: rest)) = some (v, rest) := by
  have hinside : ∀ c ∈ v, (c != '"' && c != '<') = true := by
    intro c hc
    simp [(hv c hc).1, (hv c hc).2.1]
  have htake : (v ++ '"' :: rest).takeWhile (fun c => c != '"' && c != '<') = v :=
    (takeWhile_append_stop hinside (by simp)).1
  have hadmitted : v.all isAdmitted = true := List.all_eq_true.mpr fun c hc => (hv c hc).2.2.2.2
  unfold quotedValue?
  simp only [true_or, if_true, htake, List.drop_left, hadmitted, and_self]

/-- A name, and a value between quotes after it. -/
def writtenAttribute (a : List Char × List Char) : List Char := a.1 ++ '=' :: '"' :: (a.2 ++ ['"'])

theorem attribute?_written {a : List Char × List Char} (hname : IsWord a.1) (hvalue : IsPlain a.2)
    (rest : List Char) :
    attribute? (writtenAttribute a ++ rest) = some ((⟨[], a.1⟩, a.2), rest) := by
  have hshape : writtenAttribute a ++ rest = a.1 ++ '=' :: '"' :: (a.2 ++ '"' :: rest) := by
    simp [writtenAttribute]
  have hread : qname? (a.1 ++ '=' :: '"' :: (a.2 ++ '"' :: rest)) =
      some (⟨[], a.1⟩, '=' :: '"' :: (a.2 ++ '"' :: rest)) :=
    qname?_word hname (by simp; decide)
  have hequals : afterEquals? ('=' :: '"' :: (a.2 ++ '"' :: rest)) =
      some ('"' :: (a.2 ++ '"' :: rest)) := rfl
  rw [hshape]
  unfold attribute?
  simp [hread, hequals, quotedValue?_plain hvalue]

/-- Attributes as they are written, each with a space in front of it. -/
def writtenAttributes (attributes : List (List Char × List Char)) : List Char :=
  attributes.flatMap fun a => ' ' :: writtenAttribute a

theorem length_le_writtenAttributes (attributes : List (List Char × List Char)) :
    attributes.length ≤ (writtenAttributes attributes).length := by
  induction attributes with
  | nil => simp
  | cons a attributes ih =>
    have hcons : writtenAttributes (a :: attributes) =
        ' ' :: (writtenAttribute a ++ writtenAttributes attributes) := rfl
    rw [hcons, List.length_cons, List.length_cons, List.length_append]
    omega

/-- Where a name follows a space, there is one more attribute. -/
theorem attributes?_more {c : Char} (hc : isNameStart c = true) (fuel : Nat) (rest : List Char) :
    attributes? (fuel + 1) (' ' :: c :: rest) = (attribute? (c :: rest)).bind fun found =>
      (attributes? fuel found.2).map fun others => (found.1 :: others.1, others.2) := by
  have hskip : skipSpaces (' ' :: c :: rest) = c :: rest := by
    simp [skipSpaces, isSpace_of_isNameStart hc, show isSpace ' ' = true from rfl]
  rw [attributes?, hskip]
  split
  · next heq => exact absurd (List.cons.inj heq).1 (ne_of_isNameStart hc (by decide))
  · next heq => exact absurd (List.cons.inj heq).1 (ne_of_isNameStart hc (by decide))
  · cases attribute? (c :: rest) with
    | none => rfl
    | some found =>
      rw [Option.bind_some]
      show Option.bind (attributes? fuel found.2) _ = _
      cases attributes? fuel found.2 <;> rfl

theorem attributes?_written {attributes : List (List Char × List Char)}
    (hattributes : ∀ a ∈ attributes, IsWord a.1 ∧ IsPlain a.2) {fuel : Nat}
    (hfuel : attributes.length < fuel) (rest : List Char) :
    attributes? fuel (writtenAttributes attributes ++ '>' :: rest) =
      some (attributes.map fun a => (⟨[], a.1⟩, a.2), false, rest) := by
  induction attributes generalizing fuel with
  | nil =>
    obtain ⟨less, rfl⟩ : ∃ less, fuel = less + 1 := ⟨fuel - 1, by simp at hfuel; omega⟩
    rfl
  | cons a attributes ih =>
    obtain ⟨⟨hname, hvalue⟩, hothers⟩ := List.forall_mem_cons.mp hattributes
    rw [List.length_cons] at hfuel
    obtain ⟨less, rfl⟩ : ∃ less, fuel = less + 1 := ⟨fuel - 1, by omega⟩
    have hread := attribute?_written hname hvalue (writtenAttributes attributes ++ '>' :: rest)
    obtain ⟨c, cs, hcs, hc⟩ := hname.first
    have hshape : writtenAttribute a = c :: (cs ++ '=' :: '"' :: (a.2 ++ ['"'])) := by
      rw [writtenAttribute, hcs]
      rfl
    have hall : writtenAttributes (a :: attributes) ++ '>' :: rest =
        ' ' :: (writtenAttribute a ++ (writtenAttributes attributes ++ '>' :: rest)) := by
      simp [writtenAttributes]
    rw [hall]
    rw [hshape, List.cons_append] at hread ⊢
    rw [attributes?_more hc, hread, Option.bind_some, ih hothers (by omega)]
    rfl

/-! ## Tags and text -/

/-- An opening tag as it is written. -/
def writtenOpening (name : List Char) (attributes : List (List Char × List Char)) : List Char :=
  '<' :: (name ++ writtenAttributes attributes ++ ['>'])

/-- A closing tag as it is written. -/
def writtenClosing (name : List Char) : List Char := '<' :: '/' :: (name ++ ['>'])

/-- What attributes are as a token has them. -/
def named (attributes : List (List Char × List Char)) : List (QName × List Char) :=
  attributes.map fun a => (⟨[], a.1⟩, a.2)

/-- A tag that starts with a letter is an opening tag. -/
theorem first?_opening {c : Char} (hc : isNameStart c = true) (rest : List Char) :
    first? ('<' :: c :: rest) = (qname? (c :: rest)).bind fun read =>
      (attributes? (read.2.length + 1) read.2).map fun found =>
        (opening read.1 found.1 found.2.1, found.2.2) := by
  have hbang : c ≠ '!' := ne_of_isNameStart hc (by decide)
  have hquestion : c ≠ '?' := ne_of_isNameStart hc (by decide)
  have hslash : c ≠ '/' := ne_of_isNameStart hc (by decide)
  unfold first?
  split
  · next heq => exact absurd (List.cons.inj (List.cons.inj heq).2).1 hbang
  · next heq => exact absurd (List.cons.inj (List.cons.inj heq).2).1 hbang
  · next heq => exact absurd (List.cons.inj (List.cons.inj heq).2).1 hquestion
  · next heq => exact absurd (List.cons.inj (List.cons.inj heq).2).1 hslash
  · next heq =>
    obtain rfl := (List.cons.inj heq).2
    cases qname? (c :: rest) with
    | none => rfl
    | some read =>
      rw [Option.bind_some]
      show Option.bind (attributes? (read.2.length + 1) read.2) _ = _
      cases attributes? (read.2.length + 1) read.2 <;> rfl
  · next hnot => exact absurd rfl (hnot _)

theorem first?_writtenOpening {name : List Char} (hname : IsWord name)
    {attributes : List (List Char × List Char)}
    (hattributes : ∀ a ∈ attributes, IsWord a.1 ∧ IsPlain a.2) (rest : List Char) :
    first? (writtenOpening name attributes ++ rest) =
      some (opening ⟨[], name⟩ (named attributes) false, rest) := by
  obtain ⟨c, cs, hcs, hc⟩ := hname.first
  have hshape : writtenOpening name attributes ++ rest =
      '<' :: (name ++ (writtenAttributes attributes ++ '>' :: rest)) := by
    simp [writtenOpening]
  have hend : ∀ d ∈ (writtenAttributes attributes ++ '>' :: rest).head?, isNameChar d = false := by
    cases attributes with
    | nil => exact fun d hd => by cases hd; decide
    | cons a attributes => exact fun d hd => by cases hd; decide
  have hread := qname?_word hname hend
  have hlength : attributes.length <
      (writtenAttributes attributes ++ '>' :: rest).length + 1 := by
    have hle := length_le_writtenAttributes attributes
    simp
    omega
  rw [hshape]
  rw [hcs, List.cons_append] at hread ⊢
  rw [first?_opening hc, hread, Option.bind_some, attributes?_written hattributes hlength]
  rfl

theorem first?_writtenClosing {name : List Char} (hname : IsWord name) (rest : List Char) :
    first? (writtenClosing name ++ rest) = some (closing ⟨[], name⟩, rest) := by
  have hread : qname? (name ++ '>' :: rest) = some (⟨[], name⟩, '>' :: rest) :=
    qname?_word hname (by simp; decide)
  have hshape : writtenClosing name ++ rest = '<' :: '/' :: (name ++ '>' :: rest) := by
    simp [writtenClosing]
  rw [hshape]
  show Option.bind (qname? (name ++ '>' :: rest)) _ = _
  rw [hread]
  rfl

/-- There is no end of a literal section where there is no angle bracket. -/
theorem upTo?_eq_none {raw : List Char} (hraw : '>' ∉ raw) : upTo? "]]>" raw = none := by
  induction raw with
  | nil => rfl
  | cons c raw ih =>
    obtain ⟨-, hrest⟩ := not_or.mp (mt List.mem_cons.mpr hraw)
    have hafter : after? "]]>" (c :: raw) = none := by
      unfold after?
      refine if_neg fun hpre => hraw ?_
      exact (List.isPrefixOf_iff_prefix.mp hpre).subset (by decide)
    rw [upTo?, hafter, ih hrest]
    simp

/-- Text without angle brackets is read up to the next tag, if all its characters are admitted. -/
theorem first?_text {raw : List Char} (hne : raw ≠ []) (hopen : '<' ∉ raw) (hclose : '>' ∉ raw)
    (rest : List Char) : first? (raw ++ '<' :: rest) =
      if raw.all isAdmitted then some (text raw, '<' :: rest) else none := by
  obtain ⟨c, cs, rfl⟩ := List.exists_cons_of_ne_nil hne
  have hc : c ≠ '<' := fun heq => hopen (heq ▸ List.mem_cons_self)
  have hinside : ∀ d ∈ c :: cs, (d != '<') = true := by
    intro d hd
    have hne : d ≠ '<' := fun heq => hopen (heq ▸ hd)
    simpa using hne
  have htake : (c :: cs ++ '<' :: rest).takeWhile (· != '<') = c :: cs :=
    (takeWhile_append_stop hinside (by simp)).1
  unfold first?
  split
  · next heq => exact absurd (List.cons.inj heq).1 hc
  · next heq => exact absurd (List.cons.inj heq).1 hc
  · next heq => exact absurd (List.cons.inj heq).1 hc
  · next heq => exact absurd (List.cons.inj heq).1 hc
  · next heq => exact absurd (List.cons.inj heq).1 hc
  · simp only [htake, upTo?_eq_none hclose, List.drop_left]
    cases (c :: cs).all isAdmitted <;> rfl

/-! ## Rows of tokens -/

/-- A text starts with the tokens, and this is what follows them. -/
inductive Reads : List Char → List Token → List Char → Prop
  | done (rest : List Char) : Reads rest [] rest
  | step {input between rest : List Char} {t : Token} {ts : List Token}
      (hfirst : first? input = some (t, between)) (hless : between.length < input.length)
      (hrest : Reads between ts rest) : Reads input (t :: ts) rest

theorem Reads.trans {input between rest : List Char} {ts more : List Token}
    (h : Reads input ts between) (hmore : Reads between more rest) :
    Reads input (ts ++ more) rest := by
  induction h with
  | done => exact hmore
  | step hfirst hless _ ih => exact .step hfirst hless (ih hmore)

theorem allWithin?_succ (fuel : Nat) (c : Char) (cs : List Char) :
    allWithin? (fuel + 1) (c :: cs) =
      (first? (c :: cs)).bind fun read => (allWithin? fuel read.2).map (read.1 :: ·) := by
  rw [allWithin?]
  · cases first? (c :: cs) with
    | none => rfl
    | some read =>
      rw [Option.bind_some]
      show Option.bind (allWithin? fuel read.2) _ = _
      cases allWithin? fuel read.2 <;> rfl
  · exact fun heq => List.cons_ne_nil c cs heq

/-- A text that is read to its end has these tokens. -/
theorem Reads.allWithin? {input : List Char} {ts : List Token} (h : Reads input ts [])
    {fuel : Nat} (hfuel : input.length ≤ fuel) : allWithin? fuel input = some ts := by
  generalize hend : ([] : List Char) = rest at h
  induction h generalizing fuel with
  | done =>
    subst hend
    cases fuel <;> rfl
  | @step input between rest t ts hfirst hless _ ih =>
    obtain ⟨less, rfl⟩ : ∃ less, fuel = less + 1 := ⟨fuel - 1, by omega⟩
    obtain ⟨c, cs, rfl⟩ : ∃ c cs, input = c :: cs :=
      List.exists_cons_of_length_pos (by omega)
    rw [allWithin?_succ, hfirst, Option.bind_some, ih (by omega) hend, Option.map_some]

/-- Reading the text stops within it: after some tokens there is none to be read. -/
def Stops (input : List Char) : Prop :=
  ∃ ts rest, Reads input ts rest ∧ rest ≠ [] ∧ first? rest = none

theorem Reads.stops {input between : List Char} {ts : List Token} (h : Reads input ts between)
    (hstops : Stops between) : Stops input := by
  obtain ⟨more, rest, hmore, hne, hfirst⟩ := hstops
  exact ⟨ts ++ more, rest, h.trans hmore, hne, hfirst⟩

/-- A text has no tokens if reading stops within it. -/
theorem Stops.allWithin? {input : List Char} (h : Stops input) (fuel : Nat) :
    Token.allWithin? fuel input = none := by
  obtain ⟨ts, rest, hreads, hne, hfirst⟩ := h
  induction hreads generalizing fuel with
  | done rest =>
    obtain ⟨c, cs, rfl⟩ := List.exists_cons_of_ne_nil hne
    cases fuel with
    | zero => rfl
    | succ fuel => rw [allWithin?_succ, hfirst, Option.bind_none]
  | @step input between rest t ts hread hless _ ih =>
    obtain ⟨c, cs, rfl⟩ : ∃ c cs, input = c :: cs :=
      List.exists_cons_of_length_pos (by omega)
    cases fuel with
    | zero => rfl
    | succ fuel =>
      rw [allWithin?_succ, hread, Option.bind_some, ih fuel hne hfirst, Option.map_none]

theorem reads_opening {name : List Char} (hname : IsWord name)
    {attributes : List (List Char × List Char)}
    (hattributes : ∀ a ∈ attributes, IsWord a.1 ∧ IsPlain a.2) (rest : List Char) :
    Reads (writtenOpening name attributes ++ rest) [opening ⟨[], name⟩ (named attributes) false]
      rest := by
  refine .step (first?_writtenOpening hname hattributes rest) ?_ (.done rest)
  simp [writtenOpening]
  omega

theorem reads_closing {name : List Char} (hname : IsWord name) (rest : List Char) :
    Reads (writtenClosing name ++ rest) [closing ⟨[], name⟩] rest :=
  .step (first?_writtenClosing hname rest) (by simp [writtenClosing]; omega) (.done rest)

/-- The token of escaped text; no text has none. -/
def textTokens (content : List Char) : List Token :=
  if content = [] then [] else [text (escapeChars content)]

/-- The ends of tags and of attributes are not in escaped text. -/
theorem not_mem_escapeChars {c : Char} (hc : c = '<' ∨ c = '>' ∨ c = '"') (content : List Char) :
    c ∉ escapeChars content := by
  intro hmem
  obtain ⟨d, -, hd⟩ := List.mem_flatMap.mp hmem
  by_cases hescaped : IsEscaped d
  · rcases hescaped with rfl | rfl | rfl | rfl <;> rcases hc with rfl | rfl | rfl <;> revert hd <;>
      decide
  · rw [escapedChar_of_not_isEscaped hescaped, List.mem_singleton] at hd
    exact hescaped (hd ▸ .inr hc)

theorem all_isAdmitted_escapeChars (content : List Char) :
    (escapeChars content).all isAdmitted = content.all isAdmitted := by
  have hchar (c : Char) : (escapedChar c).all isAdmitted = isAdmitted c := by
    by_cases hc : IsEscaped c
    · rcases hc with rfl | rfl | rfl | rfl <;> rfl
    · simp [escapedChar_of_not_isEscaped hc]
  induction content with
  | nil => rfl
  | cons c content ih => rw [escapeChars_cons, List.all_append, hchar, ih, List.all_cons]

/-- Escaped text is read up to the next tag, if markup admits its characters. -/
theorem reads_text {content : List Char} (hadmitted : content.all isAdmitted = true)
    (rest : List Char) :
    Reads (escapeChars content ++ '<' :: rest) (textTokens content) ('<' :: rest) := by
  unfold textTokens
  by_cases hne : content = []
  · subst hne
    exact .done _
  · rw [if_neg hne]
    have hwritten : escapeChars content ≠ [] := mt escapeChars_eq_nil.mp hne
    have hread := first?_text hwritten (not_mem_escapeChars (.inl rfl) content)
      (not_mem_escapeChars (.inr (.inl rfl)) content) rest
    rw [all_isAdmitted_escapeChars, hadmitted, if_pos rfl] at hread
    refine .step hread ?_ (.done _)
    have hpos := List.length_pos_iff.mpr hwritten
    rw [List.length_append]
    omega

/-- Escaped text is not read at all, if markup does not admit all its characters. -/
theorem stops_text {content : List Char} (hadmitted : content.all isAdmitted = false)
    (rest : List Char) : Stops (escapeChars content ++ '<' :: rest) := by
  have hne : content ≠ [] := by
    rintro rfl
    cases hadmitted
  have hread := first?_text (mt escapeChars_eq_nil.mp hne)
    (not_mem_escapeChars (.inl rfl) content) (not_mem_escapeChars (.inr (.inl rfl)) content) rest
  rw [all_isAdmitted_escapeChars, hadmitted, if_neg Bool.false_ne_true] at hread
  exact ⟨[], _, .done _, by simp, hread⟩

/-- An element as it is written. -/
def writtenElement (name : List Char) (attributes : List (List Char × List Char))
    (inside : List Char) : List Char :=
  writtenOpening name attributes ++ inside ++ writtenClosing name

/-- The tokens of an element. -/
def elementTokens (name : List Char) (attributes : List (List Char × List Char))
    (inside : List Token) : List Token :=
  opening ⟨[], name⟩ (named attributes) false :: (inside ++ [closing ⟨[], name⟩])

section Element

variable {name inside rest : List Char} (hname : IsWord name)
  {attributes : List (List Char × List Char)}
  (hattributes : ∀ a ∈ attributes, IsWord a.1 ∧ IsPlain a.2)
include hname hattributes

/-- After its opening tag an element reads as its inside does. -/
theorem reads_start :
    Reads (writtenElement name attributes inside ++ rest)
      [opening ⟨[], name⟩ (named attributes) false] (inside ++ (writtenClosing name ++ rest)) := by
  have hshape : writtenElement name attributes inside ++ rest =
      writtenOpening name attributes ++ (inside ++ (writtenClosing name ++ rest)) := by
    simp [writtenElement]
  rw [hshape]
  exact reads_opening hname hattributes _

theorem reads_element {ts : List Token}
    (hinside : Reads (inside ++ (writtenClosing name ++ rest)) ts (writtenClosing name ++ rest)) :
    Reads (writtenElement name attributes inside ++ rest) (elementTokens name attributes ts)
      rest :=
  (reads_start hname hattributes).trans (hinside.trans (reads_closing hname rest))

theorem stops_element (hinside : Stops (inside ++ (writtenClosing name ++ rest))) :
    Stops (writtenElement name attributes inside ++ rest) :=
  (reads_start hname hattributes).stops hinside

end Element

end Token

/-! ## Nodes -/

theorem attribute?_plain {v : List Char} (hv : IsPlain v) : attribute? v = some v := by
  have hall (fuel : Nat) (hfuel : v.length ≤ fuel) : attributeFrom? fuel v = some v := by
    induction v generalizing fuel with
    | nil => cases fuel <;> rfl
    | cons c v ih =>
      obtain ⟨⟨-, -, hamp, hspace, -⟩, hrest⟩ := List.forall_mem_cons.mp hv
      have hreturn : c ≠ '\x0d' := by
        rintro rfl
        cases hspace
      rw [List.length_cons] at hfuel
      obtain ⟨less, rfl⟩ : ∃ less, fuel = less + 1 := ⟨fuel - 1, by omega⟩
      rw [attributeFrom?, if_neg hamp, if_neg (fun h => hreturn h.1), ih hrest less (by omega)]
      simp [hspace]
  exact hall _ (Nat.le_refl _)

/-- Attributes as an element has them. -/
def attributesOf (attributes : List (List Char × List Char)) : List Attribute :=
  attributes.map fun a => ⟨⟨[], a.1⟩, a.2⟩

/-- Attributes without prefixes bind nothing. -/
theorem foldlM_add? {attributes : List (List Char × List Char)}
    (hplain : ∀ a ∈ attributes, IsPlain a.2 ∧ a.1 ≠ "xmlns".toList) (d : Declared) :
    (Token.named attributes).foldlM (fun d entry => d.add? entry.1 entry.2) d =
      some { d with attributes := d.attributes ++ attributesOf attributes } := by
  induction attributes generalizing d with
  | nil => simp [Token.named, attributesOf]
  | cons a attributes ih =>
    obtain ⟨⟨hvalue, hname⟩, hothers⟩ := List.forall_mem_cons.mp hplain
    have hadd : d.add? ⟨[], a.1⟩ a.2 =
        some { d with attributes := d.attributes ++ [⟨⟨[], a.1⟩, a.2⟩] } := by
      have hspace : ([] : List Char) ≠ "xmlns".toList := by decide
      unfold Declared.add?
      rw [attribute?_plain hvalue, Option.bind_eq_bind, Option.bind_some]
      simp only [if_neg hspace, if_neg hname]
      rfl
    show ((d.add? ⟨[], a.1⟩ a.2).bind fun d =>
      (Token.named attributes).foldlM (fun d entry => d.add? entry.1 entry.2) d) = _
    rw [hadd, Option.bind_some, ih hothers]
    simp [attributesOf]

theorem hasRepeats_eq_false {α : Type} [BEq α] [LawfulBEq α] {xs : List α} (h : xs.Nodup) :
    hasRepeats xs = false := by
  induction xs with
  | nil => rfl
  | cons x xs ih =>
    obtain ⟨hx, hxs⟩ := List.nodup_cons.mp h
    rw [hasRepeats, ih hxs, Bool.or_false]
    simpa using hx

/-- Elements and attributes without prefixes are in order in every scope. -/
theorem openScope?_plain {name : List Char} {attributes : List (List Char × List Char)}
    (hplain : ∀ a ∈ attributes, IsPlain a.2 ∧ a.1 ≠ "xmlns".toList)
    (hdistinct : (attributes.map Prod.fst).Nodup) (outer : Scope) :
    openScope? outer ⟨[], name⟩ (Token.named attributes) =
      some (outer, attributesOf attributes) := by
  have hnames (attributes : List (List Char × List Char)) :
      (attributesOf attributes).mapM (Attribute.expanded? outer) =
        some (attributes.map fun a => (none, a.1)) := by
    induction attributes with
    | nil => rfl
    | cons a attributes ih =>
      have hfirst : Attribute.expanded? outer ⟨⟨[], a.1⟩, a.2⟩ = some (none, a.1) := rfl
      show (⟨⟨[], a.1⟩, a.2⟩ :: attributesOf attributes).mapM (Attribute.expanded? outer) = _
      rw [List.mapM_cons, hfirst, ih]
      rfl
  have hrepeats : hasRepeats (attributes.map fun a => ((none : Option (List Char)), a.1)) =
      false := by
    apply hasRepeats_eq_false
    have hinjective : Function.Injective fun n : List Char => ((none : Option (List Char)), n) :=
      fun _ _ heq => (Prod.mk.inj heq).2
    have hmapped := List.Nodup.map hinjective hdistinct
    rwa [List.map_map] at hmapped
  unfold openScope?
  rw [foldlM_add? hplain]
  simp [hnames, hrepeats]

namespace Draft

theorem step?_opening {name : List Char} {attributes : List (List Char × List Char)}
    (hplain : ∀ a ∈ attributes, IsPlain a.2 ∧ a.1 ≠ "xmlns".toList)
    (hdistinct : (attributes.map Prod.fst).Nodup) (root : Option Node) (f : Frame)
    (frames : List Frame) :
    Draft.step? ⟨root, f :: frames⟩ (.opening ⟨[], name⟩ (Token.named attributes) false) =
      some ⟨root, ⟨⟨[], name⟩, attributesOf attributes, f.scope, []⟩ :: f :: frames⟩ := by
  show (openScope? f.scope ⟨[], name⟩ (Token.named attributes)).bind _ = _
  rw [openScope?_plain hplain hdistinct]
  rfl

/-- The tokens of an element put it where the document stands, if those between its tags put its
children into it. -/
theorem foldlM_element {root : Option Node} {name : List Char}
    {attributes : List (List Char × List Char)}
    (hplain : ∀ a ∈ attributes, IsPlain a.2 ∧ a.1 ≠ "xmlns".toList)
    (hdistinct : (attributes.map Prod.fst).Nodup) {ts : List Token} {children : List Node}
    {f : Frame} {frames : List Frame}
    (hinside : ts.foldlM Draft.step?
        ⟨root, ⟨⟨[], name⟩, attributesOf attributes, f.scope, []⟩ :: f :: frames⟩ = some
      ⟨root, ⟨⟨[], name⟩, attributesOf attributes, f.scope, children.reverse⟩ :: f :: frames⟩) :
    (Token.elementTokens name attributes ts).foldlM Draft.step? ⟨root, f :: frames⟩ =
      some ⟨root, { f with
        inside := .element ⟨[], name⟩ (attributesOf attributes) children :: f.inside } ::
          frames⟩ := by
  rw [Token.elementTokens, List.foldlM_cons, step?_opening hplain hdistinct, Option.bind_eq_bind,
    Option.bind_some, List.foldlM_append, hinside]
  simp [Draft.step?, Draft.place?, addNode]

/-- The text between two tags puts what it stands for, if there is any. -/
theorem foldlM_text (content : List Char) (root : Option Node) (f : Frame) (frames : List Frame) :
    (Token.textTokens content).foldlM Draft.step? ⟨root, { f with inside := [] } :: frames⟩ =
      some ⟨root, { f with
        inside := if content = [] then [] else [.text (settled false content)] } :: frames⟩ := by
  unfold Token.textTokens
  by_cases hne : content = []
  · simp [hne]
  · simp [hne, Draft.step?, text?_escapeChars, Draft.place?, addNode]

end Draft

/-! ## Documents -/

/-- A document that starts with a tag has no declaration in front of it. -/
theorem all?_of_tag {c : Char} (hc : isNameStart c = true) (rest : List Char) :
    Token.all? ('<' :: c :: rest) =
      Token.allWithin? ('<' :: c :: rest).length ('<' :: c :: rest) := by
  have hquestion : c ≠ '?' := ne_of_isNameStart hc (by decide)
  have hdeclaration : Token.after? "<?xml " ('<' :: c :: rest) = none := by
    unfold Token.after?
    rw [if_neg]
    intro hpre
    obtain ⟨more, hmore⟩ := List.isPrefixOf_iff_prefix.mp hpre
    exact hquestion (List.cons.inj (List.cons.inj hmore).2).1.symm
  unfold Token.all?
  split
  · next heq => cases (List.cons.inj heq).1
  · simp only [hdeclaration]
    rfl

theorem writtenElement_start {name : List Char} (hname : IsWord name)
    (attributes : List (List Char × List Char)) (inside : List Char) :
    ∃ c rest, Token.writtenElement name attributes inside = '<' :: c :: rest ∧
      isNameStart c = true := by
  obtain ⟨c, cs, rfl, hc⟩ := hname.first
  exact ⟨c, _, rfl, hc⟩

/-- A document that is one element is read as that element. -/
theorem ofText?_element {document : String} {name inside : List Char}
    {attributes : List (List Char × List Char)}
    (hdocument : document.toList = Token.writtenElement name attributes inside)
    (hname : IsWord name)
    (hattributes : ∀ a ∈ attributes, IsWord a.1 ∧ IsPlain a.2 ∧ a.1 ≠ "xmlns".toList)
    (hdistinct : (attributes.map Prod.fst).Nodup) {ts : List Token} {children : List Node}
    (hreads : Token.Reads (inside ++ Token.writtenClosing name) ts (Token.writtenClosing name))
    (hinside : ts.foldlM Draft.step?
        ⟨none, [⟨⟨[], name⟩, attributesOf attributes, [], []⟩]⟩ =
      some ⟨none, [⟨⟨[], name⟩, attributesOf attributes, [], children.reverse⟩]⟩) :
    Node.ofText? document = some (.element ⟨[], name⟩ (attributesOf attributes) children) := by
  obtain ⟨c, rest, hstart, hc⟩ := writtenElement_start hname attributes inside
  have hread : Token.Reads (Token.writtenElement name attributes inside)
      (Token.elementTokens name attributes ts) [] := by
    have hinner : Token.Reads (inside ++ (Token.writtenClosing name ++ [])) ts
        (Token.writtenClosing name ++ []) := by simpa using hreads
    simpa using Token.reads_element hname
      (fun a ha => ⟨(hattributes a ha).1, (hattributes a ha).2.1⟩) hinner
  have htokens : Token.all? document.toList = some (Token.elementTokens name attributes ts) := by
    rw [hdocument]
    rw [hstart] at hread ⊢
    rw [all?_of_tag hc, hread.allWithin? (Nat.le_refl _)]
  have hplain : ∀ a ∈ attributes, IsPlain a.2 ∧ a.1 ≠ "xmlns".toList :=
    fun a ha => (hattributes a ha).2
  have hopening :
      Draft.step? { root := none } (.opening ⟨[], name⟩ (Token.named attributes) false) =
        some ⟨none, [⟨⟨[], name⟩, attributesOf attributes, [], []⟩]⟩ := by
    show (openScope? [] ⟨[], name⟩ (Token.named attributes)).bind _ = _
    rw [openScope?_plain hplain hdistinct]
    rfl
  unfold Node.ofText?
  rw [htokens, Option.bind_eq_bind, Option.bind_some, Token.elementTokens, List.foldlM_cons,
    hopening]
  simp only [Option.bind_eq_bind, Option.bind_some]
  rw [List.foldlM_append, hinside]
  simp [Draft.step?, Draft.place?]

/-- A document that is one element is not read, if reading stops inside the element. -/
theorem ofText?_eq_none {document : String} {name inside : List Char}
    {attributes : List (List Char × List Char)}
    (hdocument : document.toList = Token.writtenElement name attributes inside)
    (hname : IsWord name) (hattributes : ∀ a ∈ attributes, IsWord a.1 ∧ IsPlain a.2)
    (hinside : Token.Stops (inside ++ Token.writtenClosing name)) :
    Node.ofText? document = none := by
  obtain ⟨c, cs, hstart, hc⟩ := writtenElement_start hname attributes inside
  have hstops : Token.Stops (Token.writtenElement name attributes inside) := by
    have hinner : Token.Stops (inside ++ (Token.writtenClosing name ++ [])) := by
      simpa using hinside
    simpa using Token.stops_element hname hattributes hinner
  have htokens : Token.all? document.toList = none := by
    rw [hdocument]
    rw [hstart] at hstops ⊢
    rw [all?_of_tag hc, hstops.allWithin?]
  unfold Node.ofText?
  rw [htokens]
  rfl

end CimBroker.Markup
