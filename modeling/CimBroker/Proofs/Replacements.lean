/-
# CimBroker.Proofs.Replacements — escaping by one replacement after another

Markup and the literals of queries have characters with a meaning of their own, and a text is
escaped for either by replacing these characters throughout the text, one after another.  A
replacement can then meet the work of those before it, so the order matters: the character that the
others are written with comes first.  In such an order nothing is replaced twice
(`Text.replacedInTurn_eq_flatMap`), and escaping goes character by character.

What is escaped for markup is read back by decoding its entities in one pass from the left, and
`Markup.wellEscaped_iff` says which texts are escaped texts.  A literal between single quotes is
read back whatever the value holds, so it depends on the name alone whether a condition is
(`Wql.condition_comes_back_iff`).

`Markup.escaped_text_is_decoded` is the round trip through markup by decoding alone; a reader of
markup does more than that (`CimBroker.Proofs.EscapedText`).  Conditions are taken singly here, and
what becomes of them in a row is left to `CimBroker.Proofs.Selection`.
-/
import CimBroker.Proofs.ElementReading
import CimBroker.Proofs.Selection

namespace CimBroker

/-! ## Replacing characters -/

namespace Text

/-- The text with another one in the place of each occurrence of a character. -/
def replaced (mark : Char) (written text : List Char) : List Char :=
  text.flatMap fun c => if c = mark then written else [c]

/-- The text after a row of replacements, each made throughout what the ones before it left. -/
def replacedInTurn (passes : List (Char × List Char)) (text : List Char) : List Char :=
  passes.foldl (fun text pass => replaced pass.1 pass.2 text) text

/-- No replacement writes a character that is replaced later. -/
def InOrder (passes : List (Char × List Char)) : Prop :=
  passes.Pairwise fun earlier later => later.1 ∉ earlier.2

instance (passes : List (Char × List Char)) : Decidable (InOrder passes) :=
  inferInstanceAs (Decidable (passes.Pairwise fun earlier later => later.1 ∉ earlier.2))

variable {mark : Char} {written text : List Char} {passes : List (Char × List Char)}

theorem replaced_of_not_mem (h : mark ∉ text) : replaced mark written text = text := by
  induction text with
  | nil => rfl
  | cons c text ih =>
    rw [List.mem_cons, not_or] at h
    show (if c = mark then written else [c]) ++ replaced mark written text = c :: text
    rw [if_neg (Ne.symm h.1), ih h.2]
    rfl

theorem replacedInTurn_append (passes : List (Char × List Char)) (text more : List Char) :
    replacedInTurn passes (text ++ more) =
      replacedInTurn passes text ++ replacedInTurn passes more := by
  induction passes generalizing text more with
  | nil => rfl
  | cons pass passes ih =>
    show replacedInTurn passes (replaced pass.1 pass.2 (text ++ more)) = _
    rw [replaced, List.flatMap_append]
    exact ih _ _

theorem replacedInTurn_of_not_mem (h : ∀ pass ∈ passes, pass.1 ∉ text) :
    replacedInTurn passes text = text := by
  induction passes with
  | nil => rfl
  | cons pass passes ih =>
    obtain ⟨hpass, hpasses⟩ := List.forall_mem_cons.mp h
    show replacedInTurn passes (replaced pass.1 pass.2 text) = text
    rw [replaced_of_not_mem hpass, ih hpasses]

/-- How a single character is written after all replacements. -/
def writtenAs (passes : List (Char × List Char)) (c : Char) : List Char :=
  ((passes.find? fun pass => pass.1 == c).map Prod.snd).getD [c]

theorem replacedInTurn_singleton (h : InOrder passes) (c : Char) :
    replacedInTurn passes [c] = writtenAs passes c := by
  induction passes with
  | nil => rfl
  | cons pass passes ih =>
    obtain ⟨hlater, hrest⟩ := List.pairwise_cons.mp h
    show replacedInTurn passes (replaced pass.1 pass.2 [c]) = _
    by_cases hc : c = pass.1
    · -- what is written for the character stays as it is
      subst hc
      have hwritten : replaced pass.1 pass.2 [pass.1] = pass.2 := by simp [replaced]
      rw [hwritten, replacedInTurn_of_not_mem hlater]
      simp [writtenAs]
    · have hkept : replaced pass.1 pass.2 [c] = [c] :=
        replaced_of_not_mem (by simpa using Ne.symm hc)
      rw [hkept, ih hrest]
      simp [writtenAs, Ne.symm hc]

/-- **Replacements that are `InOrder` go character by character** (`writtenAs`). -/
theorem replacedInTurn_eq_flatMap (h : InOrder passes) (text : List Char) :
    replacedInTurn passes text = text.flatMap (writtenAs passes) := by
  induction text with
  | nil => exact replacedInTurn_of_not_mem fun _ _ => List.not_mem_nil
  | cons c text ih =>
    rw [← List.singleton_append, replacedInTurn_append, replacedInTurn_singleton h, ih,
      List.flatMap_append, List.flatMap_singleton]

end Text

/-! ## Markup -/

namespace Markup

/-- Nothing in the text has a meaning in markup but entities: there are no brackets and no quotes,
and each ampersand begins an entity. -/
structure WellEscaped (text : List Char) : Prop where
  plain : ∀ c ∈ text, c ≠ '<' ∧ c ≠ '>' ∧ c ≠ '"'
  entity : ∀ after, '&' :: after <:+ text → ∃ e ∈ entities, e.2 <+: '&' :: after

theorem writtenAs_entities (c : Char) : Text.writtenAs entities c = escapedChar c := by
  by_cases hc : IsEscaped c
  · rcases hc with rfl | rfl | rfl | rfl <;> rfl
  · rw [escapedChar_of_not_isEscaped hc]
    unfold IsEscaped at hc
    simp only [not_or] at hc
    simp [Text.writtenAs, entities, Ne.symm hc.1, Ne.symm hc.2.1, Ne.symm hc.2.2.1,
      Ne.symm hc.2.2.2]

/-- **Text is escaped by replacing the characters of markup** one after the other (`entities`), the
ampersand first. -/
theorem escapeChars_eq_replacedInTurn (text : List Char) :
    escapeChars text = Text.replacedInTurn entities text := by
  rw [Text.replacedInTurn_eq_flatMap (by decide)]
  exact List.flatMap_congr fun c _ => (writtenAs_entities c).symm

theorem WellEscaped.of_suffix {text rest : List Char} (h : WellEscaped text)
    (hrest : rest <:+ text) : WellEscaped rest where
  plain c hc := h.plain c (hrest.subset hc)
  entity after hafter := h.entity after (hafter.trans hrest)

/-- A suffix that starts with a mark does not start in a text without the mark. -/
theorem suffix_of_append {mark : Char} {name rest after : List Char} (hname : mark ∉ name)
    (h : mark :: after <:+ name ++ rest) : mark :: after <:+ rest := by
  induction name with
  | nil => exact h
  | cons c name ih =>
    rw [List.mem_cons, not_or] at hname
    rcases List.suffix_cons_iff.mp h with heq | h
    · exact absurd (List.cons.inj heq).1 hname.1
    · exact ih hname.2 h

/-- An entity starts with its only ampersand. -/
theorem entity_shape {e : Char × List Char} (he : e ∈ entities) :
    ∃ name, e.2 = '&' :: name ∧ '&' ∉ name := by
  simp only [entities, List.mem_cons, List.not_mem_nil, or_false] at he
  rcases he with rfl | rfl | rfl | rfl <;> exact ⟨_, rfl, by decide⟩

theorem wellEscaped_escapeChars (text : List Char) : WellEscaped (escapeChars text) where
  plain c hc := by
    have hmarkup : ¬ (c = '<' ∨ c = '>' ∨ c = '"') := fun hmark =>
      Token.not_mem_escapeChars hmark text hc
    simpa using hmarkup
  entity after hafter := by
    induction text with
    | nil => simp at hafter
    | cons c text ih =>
      rw [escapeChars_cons] at hafter
      rcases entity_or_plain c with ⟨e, he, rfl⟩ | hc
      · obtain ⟨name, hshape, hname⟩ := entity_shape he
        rw [escapedChar_entity he, hshape, List.cons_append] at hafter
        rcases List.suffix_cons_iff.mp hafter with heq | hlater
        · exact ⟨e, he, escapeChars text, by rw [hshape, List.cons_append, heq]⟩
        · exact ih (suffix_of_append hname hlater)
      · have hamp : '&' ∉ [c] := fun hmem => hc (.inl (List.mem_singleton.mp hmem).symm)
        rw [escapedChar_of_not_isEscaped hc] at hafter
        exact ih (suffix_of_append hamp hafter)

/-- Such a text is read off as what was escaped: an ampersand begins the entity of a character, and
anything else stands for itself. -/
theorem WellEscaped.exists_content {text : List Char} (h : WellEscaped text) :
    ∃ content, text = escapeChars content := by
  induction hlength : text.length using Nat.strong_induction_on generalizing text with
  | _ n ih =>
    cases text with
    | nil => exact ⟨[], rfl⟩
    | cons c rest =>
      by_cases hc : c = '&'
      · subst hc
        obtain ⟨e, he, after, hafter⟩ := h.entity rest (List.suffix_refl _)
        have hsuffix : after <:+ '&' :: rest := hafter ▸ List.suffix_append _ _
        have hshorter : after.length < n := by
          obtain ⟨name, hshape, -⟩ := entity_shape he
          rw [← hlength, ← hafter, hshape, List.length_append, List.length_cons]
          omega
        obtain ⟨content, rfl⟩ := ih _ hshorter (h.of_suffix hsuffix) rfl
        exact ⟨e.1 :: content, by rw [escapeChars_cons, escapedChar_entity he, hafter]⟩
      · have hshorter : rest.length < n := by simp [← hlength]
        obtain ⟨content, rfl⟩ := ih _ hshorter (h.of_suffix (List.suffix_cons _ _)) rfl
        have hplain : ¬ IsEscaped c := by
          have hmarkup := h.plain c List.mem_cons_self
          simp [IsEscaped, hc, hmarkup]
        exact ⟨c :: content, by
          rw [escapeChars_cons, escapedChar_of_not_isEscaped hplain, List.singleton_append]⟩

/-- **Which texts are escaped texts**: the `WellEscaped` ones are what `escapeChars` writes. -/
theorem wellEscaped_iff {text : List Char} :
    WellEscaped text ↔ ∃ content, text = escapeChars content := by
  refine ⟨WellEscaped.exists_content, ?_⟩
  rintro ⟨content, rfl⟩
  exact wellEscaped_escapeChars content

/-- **Escaped text can be decoded.** Escaping is four replacements throughout the text, one after
another (`Text.replacedInTurn`).  What they leave holds no brackets and no quotes, and each
ampersand in it begins an entity (`WellEscaped`); decoding these in one pass from the left
(`decoded`) gives the text back, whatever entities it held itself.  The texts of this shape are the
escaped texts and no others. -/
theorem escaped_text_is_decoded (s t : String) :
    (escape s).toList = Text.replacedInTurn entities s.toList ∧
      WellEscaped (escape s).toList ∧ decoded (escape s).toList = s.toList ∧
      (WellEscaped t.toList ↔ ∃ content, t = escape content) := by
  have hshape : WellEscaped t.toList ↔ ∃ content, t = escape content := by
    rw [wellEscaped_iff]
    constructor
    · rintro ⟨content, ht⟩
      exact ⟨String.ofList content, by
        rw [← String.toList_inj, ht, toList_escape, String.toList_ofList]⟩
    · rintro ⟨content, rfl⟩
      exact ⟨content.toList, toList_escape content⟩
  rw [toList_escape]
  exact ⟨escapeChars_eq_replacedInTurn _, wellEscaped_escapeChars _, decoded_escapeChars _, hshape⟩

/-- Replacing the ampersand last would escape the entities that are written for the others. -/
example : Text.replacedInTurn entities.reverse "<".toList = "&amp;lt;".toList := by decide

end Markup

/-! ## Literals -/

namespace Wql

open Text (isBlank trim)
open Query (condition? unquoted)

/-- What is written for backslashes and quotes in a literal, in the order of the replacements. -/
def literalEscapes : List (Char × List Char) :=
  [('\\', ['\\', '\\']), ('\'', ['\\', '\''])]

/-- **Literals are escaped by replacing backslashes and then quotes** (`literalEscapes`). -/
theorem escapeChars_eq_replacedInTurn (value : List Char) :
    escapeChars value = Text.replacedInTurn literalEscapes value := by
  rw [Text.replacedInTurn_eq_flatMap (by decide)]
  induction value with
  | nil => rfl
  | cons c value ih =>
    rw [escapeChars, ih, List.flatMap_cons]
    by_cases hslash : c = '\\'
    · subst hslash
      rfl
    by_cases hquote : c = '\''
    · subst hquote
      rfl
    simp [Text.writtenAs, literalEscapes, hslash, hquote, Ne.symm hslash, Ne.symm hquote]

/-- A value as it stands in a query, escaped between single quotes. -/
def quotedLiteral (value : String) : List Char := '\'' :: ((escape value).toList ++ ['\''])

/-- A quoted value stands for itself, with blanks around it too. -/
theorem unescapeChars_quotedLiteral (value : String) {gap : List Char}
    (hgap : ∀ c ∈ gap, isBlank c = true) :
    unescapeChars (unquoted (trim (gap ++ quotedLiteral value))) = value.toList := by
  rw [Text.trim_blank_append hgap, quotedLiteral, Text.trim_enclosed (by decide) (by decide),
    unquoted_quoted (.inl rfl), escape, String.toList_ofList, unescapeChars_escapeChars]

/-- What is read of a name, an equals sign and a quoted value, as far as the first equals sign. -/
theorem condition?_quotedLiteral {name gap : List Char} (hname : '=' ∉ name) (value : String)
    (hgap : ∀ c ∈ gap, isBlank c = true) :
    condition? (name ++ '=' :: (gap ++ quotedLiteral value)) =
      some (String.ofList (trim name), value) := by
  rw [condition?, Text.cutAtChar?_append _ hname, Option.map_some,
    unescapeChars_quotedLiteral value hgap, String.ofList_toList]

/-- The name that is read of a condition holds no equals sign. -/
theorem not_mem_of_condition? {text : List Char} {name value : String}
    (h : condition? text = some (name, value)) : '=' ∉ name.toList := by
  obtain ⟨⟨left, right⟩, hcut, heq⟩ := Option.map_eq_some_iff.mp h
  have hleft : '=' ∉ left := (Text.cutAtChar?_eq_some_iff.mp hcut).2
  rw [← (Prod.mk.inj heq).1, String.toList_ofList, Text.mem_trim_iff (by decide)]
  exact hleft

/-- **A quoted value comes back, whatever it holds.** It is escaped by two replacements, backslashes
first (`literalEscapes`).  A condition of a name, an equals sign and the value between single quotes
(`quotedLiteral`), with any blanks around the sign, is read by `condition?` as this name and this
value exactly if the name holds no equals sign and has no blank at either end. -/
theorem condition_comes_back_iff (name value : String) {before after : List Char}
    (hbefore : ∀ c ∈ before, isBlank c = true) (hafter : ∀ c ∈ after, isBlank c = true) :
    (escape value).toList = Text.replacedInTurn literalEscapes value.toList ∧
      (condition? (name.toList ++ before ++ '=' :: (after ++ quotedLiteral value)) =
          some (name, value) ↔
        '=' ∉ name.toList ∧ (∀ c ∈ name.toList.head?, isBlank c = false) ∧
          ∀ c ∈ name.toList.getLast?, isBlank c = false) := by
  refine ⟨by rw [escape, String.toList_ofList, escapeChars_eq_replacedInTurn], ?_⟩
  rw [← Text.trim_eq_self_iff]
  have hread (hname : '=' ∉ name.toList) :
      condition? (name.toList ++ before ++ '=' :: (after ++ quotedLiteral value)) =
        some (String.ofList (trim name.toList), value) := by
    have hgap : '=' ∉ before := fun hmem => absurd (hbefore _ hmem) (by decide)
    have hleft : '=' ∉ name.toList ++ before := by
      rw [List.mem_append, not_or]
      exact ⟨hname, hgap⟩
    rw [condition?_quotedLiteral hleft value hafter, Text.trim_append_blank hbefore]
  constructor
  · intro h
    have hname := not_mem_of_condition? h
    rw [hread hname] at h
    refine ⟨hname, ?_⟩
    rw [← String.ofList_inj, String.ofList_toList]
    exact (Prod.mk.inj (Option.some.inj h)).1
  · rintro ⟨hname, htrim⟩
    rw [hread hname, htrim, String.ofList_toList]

/-- Quotes of both kinds, an equals sign and a backslash at the end do no harm. -/
theorem quoted_caption_comes_back :
    (∀ c ∈ [' '], isBlank c = true) ∧ (∀ c ∈ ([] : List Char), isBlank c = true) ∧
      condition? "Caption ='a\\'=\"\\\\'".toList = some ("Caption", "a'=\"\\") := by
  have hspace : ∀ c ∈ [' '], isBlank c = true := List.forall_mem_singleton.mpr (by decide)
  have hnone : ∀ c ∈ ([] : List Char), isBlank c = true := List.forall_mem_nil _
  have hfirst : ∀ c ∈ "Caption".toList.head?, isBlank c = false := by
    rintro _ ⟨⟩
    decide
  have hlast : ∀ c ∈ "Caption".toList.getLast?, isBlank c = false := by
    rintro _ ⟨⟩
    decide
  exact ⟨hspace, hnone, (condition_comes_back_iff "Caption" "a'=\"\\" hspace hnone).2.mpr
    ⟨by decide, hfirst, hlast⟩⟩

end Wql

end CimBroker
