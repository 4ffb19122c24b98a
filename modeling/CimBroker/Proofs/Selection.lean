/-
# CimBroker.Proofs.Selection — selections as they are written and as they are read

A caller who looks for the instances of a class with given values writes the values escaped, between
single quotes.  The reader cuts the conditions apart at the word ` AND ` before it looks at the
quotes, and escaping leaves that word alone.  So the reader takes back what was written exactly when
no value contains the word between spaces, in whatever case; quotes, backslashes, equals signs,
keywords and blanks in a value do no harm.

`Query.parse_selecting_iff` is the statement, and `Condition.conditions?_joined_iff` the part of it
that is about conditions.  Names are those of `Identifier`; a name with a blank or an equals sign in
it is not written here.
-/
import CimBroker.Proofs.Cutting
import CimBroker.Wql.Query

namespace CimBroker.Wql

open Text (Occurs IsMark cutAt? cutAtChar? pieces trim trimEnd)

/-! ## What is written -/

/-- A name as it stands in a query.  Letters, digits and underscores of every script are allowed,
and whatever else is neither blank nor an equals sign. -/
structure Identifier where
  text : String
  nonempty : text.toList ≠ []
  allPlain : (text.toList.all fun c => !Text.isBlank c && c != '=') = true

/-- No character of a name is blank or an equals sign. -/
theorem Identifier.plain (name : Identifier) :
    ∀ c ∈ name.text.toList, Text.isBlank c = false ∧ c ≠ '=' := by
  intro c hc
  simpa using List.all_eq_true.mp name.allPlain c hc

/-- A property and the value that is wanted of it. -/
structure Condition where
  property : Identifier
  value : String

namespace Condition

/-- The condition as it is written, the value escaped between single quotes. -/
def text (c : Condition) : String := c.property.text ++ " = '" ++ escape c.value ++ "'"

/-- The filter that the condition stands for. -/
def filter (c : Condition) : String × String := (c.property.text, c.value)

/-- Conditions with the word `AND` between them. -/
def joined (conditions : List Condition) : String :=
  " AND ".intercalate (conditions.map text)

end Condition

/-- The selection of the instances of a class that meet the conditions. -/
def selecting (className : Identifier) (conditions : List Condition) : String :=
  "SELECT * FROM " ++ className.text ++ " WHERE " ++ Condition.joined conditions

/-- The word that the reader cuts conditions apart at: `AND` between spaces. -/
def separator : List Char := ' ' :: "AND ".toList

/-- The value can be told from the conditions around it. -/
def Separable (value : String) : Prop := ¬ Occurs separator value.toList

/-! ## Escaped text -/

/-- Escaping moves no leading word without quotes and backslashes. -/
theorem afterWord?_escapeChars {word : List Char} (value : List Char)
    (hb : IsMark word '\\') (hq : IsMark word '\'') :
    Text.afterWord? word (escapeChars value) = (Text.afterWord? word value).map escapeChars := by
  induction word generalizing value with
  | nil => rfl
  | cons w word ih =>
    cases value with
    | nil => rfl
    | cons c value =>
      rw [escapeChars]
      -- a letter of the word meets either a backslash, which it is not, or the character itself
      by_cases hc : c = '\\' ∨ c = '\''
      · have hw : Text.sameLetter w c = false := by
          rcases hc with rfl | rfl
          · exact hb w List.mem_cons_self
          · exact hq w List.mem_cons_self
        rw [if_pos hc]
        simp [Text.afterWord?, hw, hb w List.mem_cons_self]
      · rw [if_neg hc, Text.afterWord?, Text.afterWord?]
        split
        · exact ih value (fun v hv => hb v (List.mem_cons_of_mem w hv))
            fun v hv => hq v (List.mem_cons_of_mem w hv)
        · rfl

/-- **Escaping moves no word without quotes and backslashes.**  An escaped text is cut where the
text itself is. -/
theorem cutAt?_escapeChars {w : Char} {word : List Char} (value : List Char)
    (hb : IsMark (w :: word) '\\') (hq : IsMark (w :: word) '\'') :
    cutAt? (w :: word) (escapeChars value) =
      (cutAt? (w :: word) value).map fun cut => (escapeChars cut.1, escapeChars cut.2) := by
  induction value with
  | nil => rfl
  | cons c value ih =>
    have hstart := afterWord?_escapeChars (c :: value) hb hq
    rw [escapeChars] at hstart ⊢
    by_cases hc : c = '\\' ∨ c = '\''
    · -- two marks in front of the rest, and the first of them starts no word either
      have hmarks : ∀ d ∈ ['\\', c], Text.sameLetter w d = false := by
        have hquote := hq w List.mem_cons_self
        have hslash := hb w List.mem_cons_self
        rcases hc with rfl | rfl <;> simp [hquote, hslash]
      have hone : ∀ d ∈ [c], Text.sameLetter w d = false := fun d hd =>
        hmarks d (List.mem_cons_of_mem _ hd)
      rw [if_pos hc]
      have hescaped := @Text.cutAt?_skip w word _ (escapeChars value) hmarks
      have hplain := @Text.cutAt?_skip w word _ value hone
      simp only [List.cons_append, List.nil_append] at hescaped hplain
      rw [hescaped, hplain, ih, Option.map_map, Option.map_map]
      congr 1
      funext cut
      simp [escapeChars, hc]
    · rw [if_neg hc] at hstart ⊢
      rw [cutAt?, cutAt?, hstart]
      cases Text.afterWord? (w :: word) (c :: value) with
      | some after => rfl
      | none =>
        show Option.map _ _ = _
        rw [ih, Option.map_map]
        show _ = Option.map _ (Option.map _ _)
        rw [Option.map_map]
        congr 1
        funext cut
        simp [escapeChars, hc]

/-- A backslash is read either alone at the end or with the character behind it. -/
theorem ne_backslash {c : Char} {cs : List Char} (hlast : c = '\\' → cs = [] → False)
    (hmore : ∀ d ds, c = '\\' → cs = d :: ds → False) : c ≠ '\\' := by
  rintro rfl
  cases cs with
  | nil => exact hlast rfl rfl
  | cons d ds => exact hmore d ds rfl rfl

/-- A literal that is read further does not stand for less. -/
theorem length_unescapeChars_le {literal longer : List Char} (h : literal <+: longer) :
    (unescapeChars literal).length ≤ (unescapeChars longer).length := by
  obtain ⟨rest, rfl⟩ := h
  fun_induction unescapeChars literal with
  | case1 => simp
  | case2 => simp
  | case3 c cs ih => simpa [unescapeChars] using ih
  | case4 c cs hlast hmore ih =>
    rw [List.cons_append, unescapeChars_cons (cs ++ rest) (ne_backslash hlast hmore)]
    simpa using ih

/-! ## Reading one condition -/

open Query (unquoted condition? conditions?)

/-- A closed literal stands for what is between its quotes. -/
theorem unquoted_quoted {q : Char} (hq : q = '\'' ∨ q = '"') (inner : List Char) :
    unquoted (q :: (inner ++ [q])) = inner := by
  rcases hq with rfl | rfl <;> simp [unquoted, Text.between?]

/-- A literal that was cut off stands for no more than its quote and its text. -/
theorem length_unquoted_le (rest : List Char) :
    (unescapeChars (unquoted ('\'' :: rest))).length ≤ (unescapeChars rest).length + 1 := by
  rw [unquoted, Text.between?]
  by_cases hlast : rest.getLast? = some '\''
  · rw [if_pos ⟨rfl, hlast⟩]
    have hinner := length_unescapeChars_le (List.dropLast_prefix rest)
    show (unescapeChars rest.dropLast).length ≤ _
    omega
  · -- the quote in front of it is kept, and a double quote is not found there
    rw [if_neg fun h => hlast h.2]
    have hkept : unescapeChars ('\'' :: rest) = '\'' :: unescapeChars rest :=
      unescapeChars_cons rest (by decide)
    simp [Text.between?, hkept]

namespace Identifier

variable (name : Identifier)

/-- A name does not start the separator, which starts with a space. -/
theorem not_space : ∀ c ∈ name.text.toList, Text.sameLetter ' ' c = false := by
  intro c hc
  by_contra h
  have hspace : c = ' ' := Text.eq_of_sameLetter_space (by simpa using h)
  have hblank := (name.plain c hc).1
  rw [hspace] at hblank
  exact absurd hblank (by decide)

/-- Trimming takes nothing from the start of a text that starts with a name. -/
theorem trimStart_append (rest : List Char) :
    Text.trimStart (name.text.toList ++ rest) = name.text.toList ++ rest := by
  obtain ⟨c, cs, hcs⟩ := List.exists_cons_of_ne_nil name.nonempty
  have hc : Text.isBlank c = false := (name.plain c (by rw [hcs]; exact List.mem_cons_self)).1
  rw [hcs, List.cons_append]
  exact Text.trimStart_cons_of_not_blank hc

/-- A name is what is left of it with a space behind. -/
theorem trim_append_space : trim (name.text.toList ++ [' ']) = name.text.toList := by
  have hspace : ∀ c ∈ [' '], Text.isBlank c = true := List.forall_mem_singleton.mpr (by decide)
  rw [Text.trim_append_blank hspace, Text.trim_eq_self fun c hc => (name.plain c hc).1]

/-- The reader finds no separator before the literal of a condition. -/
theorem cutAt?_open (literal : List Char) :
    cutAt? separator (name.text.toList ++ " = '".toList ++ literal) =
      (cutAt? separator literal).map fun cut =>
        (name.text.toList ++ " = '".toList ++ cut.1, cut.2) := by
  unfold separator
  have hquote : cutAt? (' ' :: "AND ".toList) (" = ".toList ++ '\'' :: literal) =
      (cutAt? (' ' :: "AND ".toList) literal).map fun cut =>
        (" = ".toList ++ '\'' :: cut.1, cut.2) := by
    rw [Text.cutAt?_mark " = ".toList literal (by decide)]
    rfl
  have hshape (rest : List Char) : name.text.toList ++ " = '".toList ++ rest =
      name.text.toList ++ (" = ".toList ++ '\'' :: rest) := by
    simp
  rw [hshape, Text.cutAt?_skip _ name.not_space, hquote, Option.map_map]
  congr 1
  funext cut
  exact congrArg (·, cut.2) (hshape cut.1).symm

end Identifier

/-- **What is read of a condition** whose literal starts with a single quote, closed or not. -/
theorem condition?_quoted (name : Identifier) (literal : List Char) :
    condition? (trim (name.text.toList ++ " = '".toList ++ literal)) =
      some (name.text, String.ofList (unescapeChars (unquoted ('\'' :: trimEnd literal)))) := by
  have htrim : trim (name.text.toList ++ " = '".toList ++ literal) =
      (name.text.toList ++ [' ']) ++ '=' :: ' ' :: '\'' :: trimEnd literal := by
    rw [trim, List.append_assoc, name.trimStart_append]
    have hquote := Text.trimEnd_append_cons (name.text.toList ++ " = ".toList) literal
      (show Text.isBlank '\'' = false by decide)
    simpa using hquote
  -- so the first equals sign is the one behind the name, whatever the literal holds
  have hequals : '=' ∉ name.text.toList ++ [' '] := by
    intro hmem
    rcases List.mem_append.mp hmem with h | h
    · exact (name.plain '=' h).2 rfl
    · exact absurd h (by decide)
  rw [condition?, htrim, Text.cutAtChar?_append _ hequals, Option.map_some]
  show some (String.ofList (trim (name.text.toList ++ [' '])),
    String.ofList (unescapeChars (unquoted (trim (' ' :: '\'' :: trimEnd literal))))) = _
  rw [name.trim_append_space, Text.trim_blank_cons _ (by decide) (by decide),
    Text.trimEnd_trimEnd, String.ofList_toList]

namespace Condition

variable (c : Condition)

theorem toList_text :
    c.text.toList =
      c.property.text.toList ++ " = '".toList ++ (escapeChars c.value.toList ++ ['\'']) := by
  simp [text, escape]

theorem toList_text_append (more : List Char) :
    c.text.toList ++ more =
      c.property.text.toList ++ " = '".toList ++ (escapeChars c.value.toList ++ '\'' :: more) := by
  simp [toList_text]

/-- A condition that was not cut is read as it was meant. -/
theorem condition?_text : condition? (trim c.text.toList) = some c.filter := by
  rw [toList_text, condition?_quoted,
    Text.trimEnd_append_cons (escapeChars c.value.toList) [] (by decide), Text.trimEnd_nil,
    unquoted_quoted (.inl rfl), unescapeChars_escapeChars, String.ofList_toList]
  rfl

/-- The reader finds the separator in a condition where it finds it in the value, and else in what
follows the condition. -/
theorem cutAt?_text (more : List Char) :
    cutAt? separator (c.text.toList ++ more) =
      match cutAt? separator c.value.toList with
      | some cut =>
        some (c.property.text.toList ++ " = '".toList ++ escapeChars cut.1,
          escapeChars cut.2 ++ '\'' :: more)
      | none => (cutAt? separator more).map fun cut => (c.text.toList ++ cut.1, cut.2) := by
  have hvalue : cutAt? separator (escapeChars c.value.toList) =
      (cutAt? separator c.value.toList).map fun cut => (escapeChars cut.1, escapeChars cut.2) :=
    cutAt?_escapeChars c.value.toList (by decide) (by decide)
  have hquote : IsMark separator '\'' := by decide
  rw [toList_text_append, c.property.cutAt?_open]
  unfold separator at hquote hvalue ⊢
  rw [Text.cutAt?_mark _ more hquote, hvalue]
  cases cutAt? (' ' :: "AND ".toList) c.value.toList with
  | some cut => rfl
  | none =>
    -- the quote that closes the value is a mark, so the search goes on behind it
    show Option.map _ (Option.map _ _) = _
    rw [Option.map_map]
    congr 1
    funext cut
    simp [toList_text]

/-! ## Reading conditions in a row -/

/-- A condition whose value can be told apart is read alone. -/
theorem conditions?_text (h : Separable c.value) : conditions? c.text.toList = some [c.filter] := by
  have hcut : cutAt? separator c.text.toList = none := by
    have htext := c.cutAt?_text []
    rw [List.append_nil, Text.cutAt?_eq_none_iff.mpr h] at htext
    rw [htext]
    rfl
  rw [conditions?, Text.pieces_of_none hcut]
  simp [condition?_text]

/-- A condition whose value can be told apart is read up to the separator behind it. -/
theorem conditions?_text_and (h : Separable c.value) (more : List Char) :
    conditions? (c.text.toList ++ (separator ++ more)) =
      (conditions? more).map (c.filter :: ·) := by
  have hcut : cutAt? separator (c.text.toList ++ (separator ++ more)) =
      some (c.text.toList, more) := by
    rw [cutAt?_text, Text.cutAt?_eq_none_iff.mpr h]
    show Option.map _ (cutAt? separator (separator ++ more)) = _
    unfold separator
    rw [Text.cutAt?_self, Option.map_some, List.append_nil]
  rw [conditions?, Text.pieces_of_some hcut, List.mapM_cons, condition?_text]
  show (do let filters ← conditions? more; pure (c.filter :: filters)) = _
  cases conditions? more <;> rfl

/-- A value that holds the separator is not read as it was meant: what is read in its place is
shorter, as it ends where the separator begins. -/
theorem conditions?_broken (h : ¬ Separable c.value) {more : List Char}
    {filters : List (String × String)}
    (hread : conditions? (c.text.toList ++ more) = some filters) :
    ∃ value rest, filters = (c.property.text, value) :: rest ∧ value ≠ c.value := by
  obtain ⟨cut, hvalue⟩ := Option.isSome_iff_exists.mp
    (Text.cutAt?_isSome_iff.mpr (not_not.mp h))
  have hcut := c.cutAt?_text more
  rw [hvalue] at hcut
  rw [conditions?, Text.pieces_of_some hcut, List.mapM_cons, condition?_quoted] at hread
  obtain ⟨first, hfirst, hread⟩ := Option.bind_eq_some_iff.mp hread
  obtain ⟨rest, -, hrest⟩ := Option.bind_eq_some_iff.mp hread
  obtain rfl := Option.some.inj hfirst
  refine ⟨_, rest, (Option.some.inj hrest).symm, ?_⟩
  -- lengths tell the two values apart, whatever the cut literal is taken for
  intro heq
  -- at most the quote and the text before the separator, which has five characters itself
  have hread_le := length_unquoted_le (trimEnd (escapeChars cut.1))
  have htrim_le := length_unescapeChars_le (Text.trimEnd_isPrefix (escapeChars cut.1))
  have hparts := Text.length_of_cutAt? hvalue
  have hseparator : separator.length = 5 := rfl
  have hlength := congrArg (fun value : String => value.toList.length) heq
  simp only [String.toList_ofList] at hlength
  rw [unescapeChars_escapeChars] at htrim_le
  omega

theorem joined_singleton : joined [c] = c.text := by simp [joined]

theorem joined_cons_cons (d : Condition) (ds : List Condition) :
    (joined (c :: d :: ds)).toList =
      c.text.toList ++ (separator ++ (joined (d :: ds)).toList) := by
  simp [joined, separator]

/-- **Conditions are read as they were meant exactly when every value is `Separable`.** -/
theorem conditions?_joined_iff {conditions : List Condition} (hne : conditions ≠ []) :
    conditions? (joined conditions).toList = some (conditions.map filter) ↔
      ∀ c ∈ conditions, Separable c.value := by
  induction conditions with
  | nil => exact absurd rfl hne
  | cons c rest ih =>
    by_cases hc : Separable c.value
    · -- this condition is read alone, and the rest decides
      cases rest with
      | nil =>
        rw [joined_singleton, conditions?_text c hc]
        simp [hc]
      | cons d ds =>
        rw [joined_cons_cons, conditions?_text_and c hc, List.forall_mem_cons,
          and_iff_right hc, ← ih (List.cons_ne_nil d ds), List.map_cons]
        constructor
        · intro h
          obtain ⟨filters, hfilters, heq⟩ := Option.map_eq_some_iff.mp h
          rw [hfilters, (List.cons.inj heq).2]
        · intro h
          rw [h]
          rfl
    · -- the first value that holds the separator decides
      constructor
      · intro h
        exfalso
        have hshape : ∃ more, (joined (c :: rest)).toList = c.text.toList ++ more := by
          cases rest with
          | nil => exact ⟨[], by rw [joined_singleton, List.append_nil]⟩
          | cons d ds => exact ⟨_, joined_cons_cons c d ds⟩
        obtain ⟨more, hmore⟩ := hshape
        rw [hmore] at h
        obtain ⟨value, tail, heq, hvalue⟩ := c.conditions?_broken hc h
        rw [List.map_cons] at heq
        exact hvalue (congrArg Prod.snd (List.cons.inj heq).1).symm
      · intro h
        exact absurd (h c List.mem_cons_self) hc

end Condition

/-! ## Reading the whole selection -/

namespace Condition

/-- Conditions in a row start with a name and end with a quote. -/
theorem joined_shape {conditions : List Condition} (hne : conditions ≠ []) :
    (∃ (name : Identifier) (rest : List Char),
        (joined conditions).toList = name.text.toList ++ rest) ∧
      ∃ init, (joined conditions).toList = init ++ ['\''] := by
  induction conditions with
  | nil => exact absurd rfl hne
  | cons c rest ih =>
    cases rest with
    | nil =>
      rw [joined_singleton, toList_text]
      refine ⟨⟨c.property, ?_⟩, _, (List.append_assoc ..).symm⟩
      rw [List.append_assoc]
      exact ⟨_, rfl⟩
    | cons d ds =>
      -- the first condition gives the name, the last one the quote
      obtain ⟨-, init, hinit⟩ := ih (List.cons_ne_nil d ds)
      rw [joined_cons_cons]
      refine ⟨⟨c.property, ?_⟩, c.text.toList ++ (separator ++ init), ?_⟩
      · rw [toList_text_append, List.append_assoc]
        exact ⟨_, rfl⟩
      · rw [hinit, List.append_assoc, List.append_assoc]

end Condition

/-- What follows the first word of a selection is read as the class and the conditions. -/
theorem selection?_from (className : Identifier) {clause : List Char}
    (hclause : clause ≠ []) (hstart : trim (' ' :: clause) = clause)
    (htrim : trim (className.text.toList ++ ' ' :: clause) =
      className.text.toList ++ ' ' :: clause) :
    Query.selection? ("* FROM ".toList ++ (className.text.toList ++ ' ' :: clause)) =
      (Text.afterKeyword? "WHERE" clause).bind fun conditions =>
        (conditions? conditions).map (.select className.text) := by
  have hfrom (rest : List Char) :
      cutAt? " FROM ".toList ("* FROM ".toList ++ rest) = some (['*'], rest) := by
    have hstar : ∀ c ∈ ['*'], Text.sameLetter ' ' c = false := List.forall_mem_singleton.mpr rfl
    have hshape : "* FROM ".toList ++ rest = ['*'] ++ (' ' :: "FROM ".toList ++ rest) := rfl
    rw [hshape, show " FROM ".toList = ' ' :: "FROM ".toList from rfl, Text.cutAt?_skip _ hstar,
      Text.cutAt?_self]
    rfl
  -- the class is what stands before the first blank
  have hname : ∀ c ∈ className.text.toList, (!Text.isBlank c) = true := by
    intro c hc
    rw [(className.plain c hc).1]
    rfl
  have hclass : (className.text.toList ++ ' ' :: clause).takeWhile (fun c => !Text.isBlank c) =
      className.text.toList := by
    rw [List.takeWhile_append_of_pos hname, List.takeWhile_cons_of_neg (by decide),
      List.append_nil]
  have hrest : (className.text.toList ++ ' ' :: clause).dropWhile (fun c => !Text.isBlank c) =
      ' ' :: clause := by
    rw [List.dropWhile_append_of_pos hname, List.dropWhile_cons_of_neg (by decide)]
  have hempty : clause.isEmpty = false := by
    simpa using hclause
  unfold Query.selection?
  simp only [hfrom, Option.bind_eq_bind, Option.bind_some, htrim, hclass, hrest, hstart,
    String.ofList_toList, hempty]
  cases Text.afterKeyword? "WHERE" clause with
  | none => rfl
  | some conditions =>
    rw [Option.bind_some, Option.bind_some]
    show (do let filters ← conditions? conditions; pure (Query.select className.text filters)) = _
    cases conditions? conditions <;> rfl

/-- **A selection that was written is read up to its conditions**, and these as they stand. -/
theorem ofText?_selecting (className : Identifier) {conditions : List Condition}
    (hne : conditions ≠ []) :
    Query.ofText? (selecting className conditions) =
      (conditions? (Condition.joined conditions).toList).map (.select className.text) := by
  obtain ⟨⟨name, rest, hname⟩, init, hinit⟩ := Condition.joined_shape hne
  have hstart : Text.trimStart (Condition.joined conditions).toList =
      (Condition.joined conditions).toList := by
    rw [hname, name.trimStart_append]
  -- every text that ends with the last condition ends with a quote, so nothing is trimmed there
  have hend (before : List Char) : trimEnd (before ++ (Condition.joined conditions).toList) =
      before ++ (Condition.joined conditions).toList := by
    rw [hinit, ← List.append_assoc, Text.trimEnd_append_cons _ [] (by decide)]
    rfl
  generalize hjoined : (Condition.joined conditions).toList = joined at hstart hend ⊢
  have hclause : trim (' ' :: ("WHERE".toList ++ ' ' :: joined)) =
      "WHERE".toList ++ ' ' :: joined := by
    have hlast := hend ("WHERE".toList ++ [' '])
    rw [List.append_assoc] at hlast
    exact hlast
  have hsource : trim (className.text.toList ++ ' ' :: ("WHERE".toList ++ ' ' :: joined)) =
      className.text.toList ++ ' ' :: ("WHERE".toList ++ ' ' :: joined) := by
    have hlast := hend (className.text.toList ++ ' ' :: ("WHERE".toList ++ [' ']))
    rw [trim, className.trimStart_append]
    simpa using hlast
  have htext : trim (selecting className conditions).toList = "SELECT".toList ++ ' ' ::
      ("* FROM ".toList ++
        (className.text.toList ++ ' ' :: ("WHERE".toList ++ ' ' :: joined))) := by
    have hlast := hend ("SELECT".toList ++ ' ' :: ("* FROM ".toList ++
      (className.text.toList ++ ' ' :: ("WHERE".toList ++ [' ']))))
    have hlist : (selecting className conditions).toList = "SELECT".toList ++ ' ' ::
        ("* FROM ".toList ++
          (className.text.toList ++ ' ' :: ("WHERE".toList ++ ' ' :: joined))) := by
      show ("SELECT * FROM " ++ className.text ++ " WHERE " ++
        Condition.joined conditions).toList = _
      simp only [String.toList_append, hjoined, List.append_assoc]
      rfl
    have hfirst (more : List Char) :
        Text.trimStart ("SELECT".toList ++ more) = "SELECT".toList ++ more := rfl
    rw [hlist, trim, hfirst]
    simpa using hlast
  -- neither of the other two kinds of query begins as a selection does
  have hassociators (more : List Char) :
      Text.afterKeyword? "ASSOCIATORS OF" ("SELECT".toList ++ more) = none := rfl
  have hreferences (more : List Char) :
      Text.afterKeyword? "REFERENCES OF" ("SELECT".toList ++ more) = none := rfl
  have hstar (more : List Char) :
      Text.trimStart ("* FROM ".toList ++ more) = "* FROM ".toList ++ more := by
    rw [show "* FROM ".toList = '*' :: " FROM ".toList from rfl, List.cons_append]
    exact Text.trimStart_cons_of_not_blank rfl
  unfold Query.ofText?
  simp only [htext, hassociators, hreferences, Text.afterKeyword?_append, hstar,
    Option.bind_some]
  rw [selection?_from className (by simp) hclause hsource, Text.afterKeyword?_append, hstart,
    Option.bind_some]

/-- The outcome of reading a selection that was written. -/
theorem parse_selecting (className : Identifier) {conditions : List Condition}
    (hne : conditions ≠ []) :
    Query.parse (selecting className conditions) =
      match conditions? (Condition.joined conditions).toList with
      | some filters => .ok (.select className.text filters)
      | none => .error (.unsupportedQuery (selecting className conditions)) := by
  rw [Query.parse, ofText?_selecting className hne]
  cases conditions? (Condition.joined conditions).toList <;> rfl

/-- **The reader takes back what was written exactly when every value can be told apart.** -/
theorem parse_selecting_iff (className : Identifier) {conditions : List Condition}
    (hne : conditions ≠ []) :
    Query.parse (selecting className conditions) =
        .ok (.select className.text (conditions.map Condition.filter)) ↔
      ∀ c ∈ conditions, Separable c.value := by
  rw [← Condition.conditions?_joined_iff hne, parse_selecting className hne]
  cases conditions? (Condition.joined conditions).toList with
  | none => simp
  | some filters => simp

end CimBroker.Wql
