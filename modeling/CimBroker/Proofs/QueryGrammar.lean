/-
# CimBroker.Proofs.QueryGrammar — the documented subset of the query language

The subset is written down here as a relation between a text and the query that it stands for:
selections whose conditions are a name, one equals sign and one literal, and queries for related
objects with the one condition that names the class of the result.

A quoted literal may hold the word that stands between conditions.  So it has to be shown that the
conditions of a text can be told apart at all: no condition goes on behind a separating word as
another condition does (`Requires.not_across`), because the quote that ends the literal of the
shorter one would end that of the longer one too.  It follows that a text stands for at most one
query (`Documented.unique`).

`Documented` is the subset, built from `Denotes` for literals, `Requires` for conditions and
`Relates` for queries about related objects.  Nothing of the reader is used to say it.  What the
reader makes of a text is compared with it in `CimBroker.Proofs.QueryReading`.
-/
import CimBroker.Proofs.Selection

namespace CimBroker.Wql

open Text (IsWord StartsWith Parts isBlank trim trimStart trimEnd cutAtChar?)
open Query (unquoted condition?)

/-! ## The documented conditions -/

/-- The text is a name: letters, digits and underscores. -/
def IsName (s : List Char) : Prop := s ≠ [] ∧ ∀ c ∈ s, c.isAlphanum = true ∨ c = '_'

instance : DecidablePred IsName := fun s =>
  decidable_of_iff (s ≠ [] ∧ s.all (fun c => c.isAlphanum || c == '_') = true) (by simp [IsName])

/-- Between quotes of this kind nothing ends before the end: in front of every quote there is a
backslash, and behind every backslash a character. -/
def isClosed (q : Char) : List Char → Bool
  | [] => true
  | ['\\'] => false
  | '\\' :: _ :: cs => isClosed q cs
  | c :: cs => c != q && isClosed q cs

/-- A literal and the value that it stands for: a bare token, or text between quotes. -/
inductive Denotes : List Char → List Char → Prop
  | bare {s : List Char} (hne : s ≠ []) (h : ∀ c ∈ s, isBlank c = false ∧ c ≠ '=')
      (hopen : ∀ c ∈ s.head?, c ≠ '\'' ∧ c ≠ '"') : Denotes s (unescapeChars s)
  | quoted {q : Char} {inner : List Char} (hq : q = '\'' ∨ q = '"') (h : isClosed q inner = true) :
      Denotes (q :: (inner ++ [q])) (unescapeChars inner)

/-- A condition and the filter that it stands for: a name, an equals sign and a literal, with blanks
around each. -/
def Requires (text : List Char) (filter : String × String) : Prop :=
  ∃ left right value, text = left ++ '=' :: right ∧ IsName (trim left) ∧
    Denotes (trim right) value ∧ filter = (String.ofList (trim left), String.ofList value)

/-- Conditions with the separating word between them. -/
inductive RequiresAll : List Char → List (String × String) → Prop
  | one {text : List Char} {filter : String × String} (h : Requires text filter) :
      RequiresAll text [filter]
  | and {text word rest : List Char} {filter : String × String}
      {filters : List (String × String)} (h : Requires text filter) (hword : IsWord separator word)
      (hrest : RequiresAll rest filters) : RequiresAll (text ++ (word ++ rest)) (filter :: filters)

/-! ## The documented queries -/

/-- What stands behind the class of a selection: nothing, or conditions. -/
inductive Filters : List Char → List (String × String) → Prop
  | everything : Filters [] []
  | such {clause conditions : List Char} {filters : List (String × String)}
      (hwhere : StartsWith "WHERE".toList clause conditions)
      (h : RequiresAll (trimStart conditions) filters) : Filters clause filters

/-- What stands behind the first word of a selection: the word `FROM` between spaces, the class, and
the conditions.  What is selected of the instances is not looked at. -/
def Selects (text : List Char) (className : String) (filters : List (String × String)) : Prop :=
  ∃ list source name tail, Parts " FROM ".toList text list source ∧ trim source = name ++ tail ∧
    (∀ c ∈ name, isBlank c = false) ∧ (∀ c ∈ tail.head?, isBlank c = true) ∧
    className = String.ofList name ∧ Filters (trim tail) filters

/-- The one condition of a query for related objects, and the class that it names. -/
def Names (text : List Char) (className : String) : Prop :=
  ∃ left right, text = left ++ '=' :: right ∧ IsWord "ResultClass".toList (trim left) ∧
    IsName (trim right) ∧ className = String.ofList (trim right)

/-- What stands behind the first words of a query for related objects: a path between braces, and
the condition. -/
def Relates (text : List Char) (path className : String) : Prop :=
  ∃ inside clause condition, text = '\x7b' :: (inside ++ '\x7d' :: clause) ∧ '\x7d' ∉ inside ∧
    StartsWith "WHERE".toList (trim clause) condition ∧ Names (trimStart condition) className ∧
    path = String.ofList (trim inside)

/-- A text of the documented subset of the query language, without blanks around it, and the query
that it stands for. -/
inductive Documented (text : List Char) : Query → Prop
  | select {rest : List Char} {className : String} {filters : List (String × String)}
      (hword : StartsWith "SELECT".toList text rest)
      (h : Selects (trimStart rest) className filters) :
      Documented text (.select className filters)
  | associators {rest : List Char} {path className : String}
      (hword : StartsWith "ASSOCIATORS OF".toList text rest)
      (h : Relates (trimStart rest) path className) :
      Documented text (.associators path className)
  | references {rest : List Char} {path className : String}
      (hword : StartsWith "REFERENCES OF".toList text rest)
      (h : Relates (trimStart rest) path className) :
      Documented text (.references path className)

/-! ## What is read of a condition -/

theorem not_mem_of_isName {left : List Char} (h : IsName (trim left)) : '=' ∉ left := by
  rw [← Text.mem_trim_iff (by decide)]
  intro hmem
  rcases h.2 _ hmem with hword | heq
  · cases hword
  · cases heq

theorem unquoted_bare {s : List Char} (h : ∀ c ∈ s.head?, c ≠ '\'' ∧ c ≠ '"') :
    unquoted s = s := by
  cases s with
  | nil => rfl
  | cons c s =>
    obtain ⟨hsingle, hdouble⟩ := h c rfl
    simp [unquoted, Text.between?, hsingle, hdouble]

/-- What is read of a literal is what it stands for. -/
theorem Denotes.read {literal value : List Char} (h : Denotes literal value) :
    unescapeChars (unquoted literal) = value := by
  cases h with
  | bare _ _ hopen => rw [unquoted_bare hopen]
  | quoted hq _ => rw [unquoted_quoted hq]

theorem Requires.read {text : List Char} {filter : String × String} (h : Requires text filter) :
    condition? text = some filter := by
  obtain ⟨left, right, value, rfl, hname, hvalue, rfl⟩ := h
  rw [condition?, Text.cutAtChar?_append right (not_mem_of_isName hname), Option.map_some,
    hvalue.read]

theorem Requires.unique {text : List Char} {filter filter' : String × String}
    (h : Requires text filter) (h' : Requires text filter') : filter = filter' :=
  Option.some.inj (h.read.symm.trans h'.read)

theorem not_mem_of_isWord {left : List Char} (h : IsWord "ResultClass".toList (trim left)) :
    '=' ∉ left := by
  rw [← Text.mem_trim_iff (by decide)]
  intro hmem
  have hupper := List.mem_map_of_mem hmem (f := Char.toUpper)
  rw [h] at hupper
  exact absurd hupper (by decide)

theorem unescapeChars_eq_self {s : List Char} (h : ∀ c ∈ s, c ≠ '\\') : unescapeChars s = s := by
  induction s with
  | nil => rfl
  | cons c s ih =>
    obtain ⟨hc, hs⟩ := List.forall_mem_cons.mp h
    rw [unescapeChars_cons s hc, ih hs]

/-- A name is read as it stands. -/
theorem unescapeChars_of_isName {s : List Char} (h : IsName s) :
    unescapeChars (unquoted s) = s := by
  have hplain : ∀ c ∈ s, c ≠ '\\' ∧ c ≠ '\'' ∧ c ≠ '"' := by
    intro c hc
    rcases h.2 c hc with hword | rfl
    · refine ⟨?_, ?_, ?_⟩ <;> rintro rfl <;> cases hword
    · decide
  rw [unquoted_bare fun c hc => (hplain c (List.mem_of_mem_head? hc)).2,
    unescapeChars_eq_self fun c hc => (hplain c hc).1]

theorem Names.read {text : List Char} {className : String} (h : Names text className) :
    ∃ name, Text.sameWord name "ResultClass" = true ∧
      condition? text = some (name, className) := by
  obtain ⟨left, right, rfl, hname, hclass, rfl⟩ := h
  refine ⟨String.ofList (trim left), ?_, ?_⟩
  · rw [Text.sameWord, String.toList_ofList]
    exact beq_iff_eq.mpr hname
  · rw [condition?, Text.cutAtChar?_append right (not_mem_of_isWord hname), Option.map_some,
      unescapeChars_of_isName hclass]

theorem Names.unique {text : List Char} {className className' : String}
    (h : Names text className) (h' : Names text className') : className = className' := by
  obtain ⟨name, -, hread⟩ := h.read
  obtain ⟨name', -, hread'⟩ := h'.read
  exact (Prod.mk.inj (Option.some.inj (hread.symm.trans hread'))).2

/-! ## Literals with a separating word in them -/

/-- A separating word starts with a space and a letter. -/
theorem isWord_separator {word : List Char} (h : IsWord separator word) :
    ∃ a rest, word = ' ' :: a :: rest ∧ (a = 'A' ∨ a = 'a') := by
  have hlength : word.length = 5 := by simpa [separator] using congrArg List.length h
  obtain ⟨c, word, rfl⟩ : ∃ c cs, word = c :: cs := List.exists_cons_of_length_pos (by omega)
  rw [List.length_cons] at hlength
  obtain ⟨a, rest, rfl⟩ : ∃ c cs, word = c :: cs := List.exists_cons_of_length_pos (by omega)
  have hupper : c.toUpper :: a.toUpper :: rest.map Char.toUpper =
      ' ' :: 'A' :: "ND ".toList := h
  obtain ⟨hc, htail⟩ := List.cons.inj hupper
  obtain ⟨ha, -⟩ := List.cons.inj htail
  have hspace : c = ' ' := Text.eq_of_sameLetter_space (beq_iff_eq.mpr hc.symm)
  exact ⟨a, rest, by rw [hspace], Text.eq_of_toUpper ha⟩

theorem plain_of_letter {a : Char} (ha : a = 'A' ∨ a = 'a') :
    isBlank a = false ∧ a ≠ '\\' ∧ a ≠ '\'' ∧ a ≠ '"' := by
  rcases ha with rfl | rfl <;> decide

theorem ne_quote_of_letter {a q : Char} (ha : a = 'A' ∨ a = 'a') (hq : q = '\'' ∨ q = '"') :
    a ≠ q := by
  rcases hq with rfl | rfl
  · exact (plain_of_letter ha).2.2.1
  · exact (plain_of_letter ha).2.2.2

/-- A quote that no backslash stands in front of ends the text. -/
theorem isClosed_append_quote {q : Char} (hq : q ≠ '\\') {inner : List Char}
    (h : isClosed q inner = true) (more : List Char) : isClosed q (inner ++ q :: more) = false := by
  fun_induction isClosed q inner with
  | case1 =>
    rw [List.nil_append, isClosed.eq_4 q q more (fun e _ => hq e) fun _ _ e _ => hq e]
    simp
  | case2 => cases h
  | case3 c cs ih => exact ih h
  | case4 c cs hlast hmore ih =>
    rw [Bool.and_eq_true] at h
    have hc := ne_backslash hlast hmore
    rw [List.cons_append, isClosed.eq_4 q c _ (fun e _ => hc e) fun _ _ e _ => hc e, ih h.2,
      Bool.and_false]

/-- A literal with a space and a letter in it is quoted, and they stand between the quotes. -/
theorem Denotes.across {gap part tail value : List Char} {c a : Char}
    (hgap : ∀ d ∈ gap, isBlank d = true) (hc : isBlank c = false) (ha : a = 'A' ∨ a = 'a')
    (h : Denotes (trim (gap ++ c :: (part ++ ' ' :: a :: tail))) value) :
    (c = '\'' ∨ c = '"') ∧ ∃ more, isClosed c (part ++ ' ' :: a :: more) = true ∧
      value = unescapeChars (part ++ ' ' :: a :: more) := by
  have hletter := plain_of_letter ha
  have htail : trimEnd (part ++ ' ' :: a :: tail) = part ++ ' ' :: a :: trimEnd tail := by
    simpa using Text.trimEnd_append_cons (part ++ [' ']) tail hletter.1
  rw [Text.trim_gap hgap hc, htail] at h
  generalize hliteral : c :: (part ++ ' ' :: a :: trimEnd tail) = literal at h
  cases h with
  | bare _ h =>
    have hspace := (h ' ' (hliteral ▸ by simp)).1
    cases hspace
  | @quoted q inner hq hclosed =>
    obtain ⟨rfl, hinside⟩ := List.cons.inj hliteral
    refine ⟨hq, ?_⟩
    -- the letter is not the quote at the end, so it stands inside
    rcases List.eq_nil_or_concat (trimEnd tail) with hnil | ⟨more, z, hconcat⟩
    · rw [hnil, List.append_cons] at hinside
      obtain ⟨-, hlast⟩ := List.append_inj' hinside rfl
      exact absurd (List.cons.inj hlast).1 (ne_quote_of_letter ha hq)
    · rw [hconcat, List.concat_eq_append, ← List.cons_append, ← List.cons_append,
        ← List.append_assoc] at hinside
      obtain ⟨rfl, -⟩ := List.append_inj' hinside rfl
      exact ⟨more, hclosed, rfl⟩

/-- No literal goes on behind a separating word as another literal does. -/
theorem Denotes.not_across {before tail value value' : List Char} {a : Char}
    (ha : a = 'A' ∨ a = 'a') (h : Denotes (trim before) value) :
    ¬ Denotes (trim (before ++ ' ' :: a :: tail)) value' := by
  intro hlong
  rcases Text.blank_or_first before with hblank | ⟨gap, c, part, rfl, hgap, hc⟩
  · rw [trim, Text.trimStart_eq_nil hblank, Text.trimEnd_nil] at h
    generalize hnil : ([] : List Char) = literal at h
    cases h with
    | bare hne => exact hne hnil.symm
    | quoted => cases hnil
  · rw [List.append_assoc, List.cons_append] at hlong
    obtain ⟨hquote, more, hclosed, -⟩ := hlong.across hgap hc ha
    rw [Text.trim_gap hgap hc] at h
    generalize hliteral : c :: trimEnd part = literal at h
    cases h with
    | bare _ _ hopen =>
      have hplain := hopen c (hliteral ▸ rfl)
      exact hquote.elim hplain.1 hplain.2
    | @quoted q inner hq hinner =>
      -- the quote that ends the shorter literal would end the longer one too
      obtain ⟨rfl, hinside⟩ := List.cons.inj hliteral
      obtain ⟨blanks, hpart⟩ := Text.trimEnd_isPrefix part
      have hslash : c ≠ '\\' := by rcases hq with rfl | rfl <;> decide
      have hopen := isClosed_append_quote hslash hinner (blanks ++ ' ' :: a :: more)
      rw [← hpart, hinside] at hclosed
      simp only [List.append_assoc, List.cons_append, List.nil_append] at hclosed
      rw [hopen] at hclosed
      cases hclosed

/-- The literal of a condition goes on as the condition does. -/
theorem Requires.literal {left right tail : List Char} {filter : String × String}
    (h : Requires (left ++ '=' :: right ++ tail) filter) (hleft : '=' ∉ left) :
    ∃ value, Denotes (trim (right ++ tail)) value ∧ filter.2 = String.ofList value := by
  obtain ⟨left', right', value, htext, hname, hvalue, rfl⟩ := h
  have hcut := Text.cutAtChar?_append right' (not_mem_of_isName hname)
  rw [← htext, List.append_assoc, List.cons_append, Text.cutAtChar?_append _ hleft] at hcut
  obtain ⟨-, rfl⟩ := Prod.mk.inj (Option.some.inj hcut)
  exact ⟨value, hvalue, rfl⟩

/-- No condition goes on behind a separating word as another condition does. -/
theorem Requires.not_across {before tail : List Char} {filter filter' : String × String} {a : Char}
    (ha : a = 'A' ∨ a = 'a') (h : Requires before filter) :
    ¬ Requires (before ++ ' ' :: a :: tail) filter' := by
  intro hlong
  obtain ⟨left, right, value, rfl, hname, hvalue, -⟩ := h
  obtain ⟨value', hvalue', -⟩ := hlong.literal (not_mem_of_isName hname)
  exact hvalue.not_across ha hvalue'

/-- A separating word that begins before the one behind a text begins inside the text. -/
theorem exists_of_earlier {text word rest before found after : List Char}
    (hword : IsWord separator word) (hfound : IsWord separator found)
    (htext : text ++ (word ++ rest) = before ++ (found ++ after))
    (hshort : before.length < text.length) :
    ∃ a tail, text = before ++ ' ' :: a :: tail ∧ (a = 'A' ∨ a = 'a') := by
  obtain ⟨tail, rfl⟩ : before <+: text :=
    List.prefix_of_prefix_length_le ⟨_, htext.symm⟩ ⟨_, rfl⟩ (Nat.le_of_lt hshort)
  obtain ⟨a, more, rfl, ha⟩ := isWord_separator hfound
  obtain ⟨b, others, rfl, hb⟩ := isWord_separator hword
  rw [List.append_assoc] at htext
  have htail := List.append_cancel_left htext
  match tail, htail with
  | [], _ => simp at hshort
  | [_], htail =>
    -- the word behind the text starts with a space, and no separating word has one there
    obtain ⟨-, hspace⟩ := List.cons.inj htail
    obtain ⟨rfl, -⟩ := List.cons.inj hspace
    exact absurd ha (by decide)
  | _ :: _ :: tail, htail =>
    obtain ⟨rfl, hletter⟩ := List.cons.inj htail
    obtain ⟨rfl, -⟩ := List.cons.inj hletter
    exact ⟨_, tail, rfl, ha⟩

/-! ## One meaning -/

/-- Conditions stand for one list of filters. -/
theorem RequiresAll.unique {text : List Char} {filters filters' : List (String × String)}
    (h : RequiresAll text filters) (h' : RequiresAll text filters') : filters = filters' := by
  induction h generalizing filters' with
  | @one text filter h =>
    generalize hsame : text = text' at h'
    cases h' with
    | one h' => rw [h.unique (hsame ▸ h')]
    | and h' hword _ =>
      obtain ⟨a, more, rfl, ha⟩ := isWord_separator hword
      exact absurd (hsame ▸ h) (h'.not_across ha)
  | @and text word rest filter filters h hword hrest ih =>
    generalize hsame : text ++ (word ++ rest) = whole at h'
    cases h' with
    | one h' =>
      obtain ⟨a, more, rfl, ha⟩ := isWord_separator hword
      exact absurd (hsame ▸ h') (h.not_across ha)
    | @and text' word' rest' filter' filters' h' hword' hrest' =>
      rcases Nat.lt_trichotomy text.length text'.length with hless | hlength | hless
      · obtain ⟨a, tail, rfl, ha⟩ := exists_of_earlier hword' hword hsame.symm hless
        exact absurd h' (h.not_across ha)
      · have hwords : word.length = word'.length := by
          simpa using congrArg List.length (hword.trans hword'.symm)
        obtain ⟨rfl, htail⟩ := List.append_inj hsame hlength
        obtain ⟨-, rfl⟩ := List.append_inj htail hwords
        rw [h.unique h', ih hrest']
      · obtain ⟨a, tail, rfl, ha⟩ := exists_of_earlier hword hword' hsame hless
        exact absurd h (h'.not_across ha)

/-- Behind the class and the word `WHERE` there are conditions. -/
theorem Filters.conditions {clause conditions : List Char} {filters : List (String × String)}
    (hwhere : StartsWith "WHERE".toList clause conditions) (h : Filters clause filters) :
    RequiresAll (trimStart conditions) filters := by
  cases h with
  | everything =>
    rw [Text.startsWith_iff] at hwhere
    cases hwhere
  | such hwhere' h =>
    obtain rfl := hwhere.unique hwhere'
    exact h

theorem Filters.unique {clause : List Char} {filters filters' : List (String × String)}
    (h : Filters clause filters) (h' : Filters clause filters') : filters = filters' := by
  cases h with
  | everything =>
    generalize hclause : ([] : List Char) = clause at h'
    cases h' with
    | everything => rfl
    | such hwhere' h' =>
      rw [← hclause, Text.startsWith_iff] at hwhere'
      cases hwhere'
  | such hwhere h => exact h.unique (h'.conditions hwhere)

/-- What stands before the first blank of a text, and the rest of it. -/
theorem span_parts (text : List Char) :
    text = (text.takeWhile fun c => !isBlank c) ++ (text.dropWhile fun c => !isBlank c) ∧
      (∀ c ∈ text.takeWhile fun c => !isBlank c, isBlank c = false) ∧
      ∀ c ∈ (text.dropWhile fun c => !isBlank c).head?, isBlank c = true := by
  refine ⟨List.takeWhile_append_dropWhile.symm, fun c hc => ?_, fun c hc => ?_⟩
  · simpa using List.mem_takeWhile_imp hc
  · have hhead := List.head?_dropWhile_not (fun c => !isBlank c) text
    rw [Option.mem_def] at hc
    rw [hc] at hhead
    simpa using hhead

/-- There is one way to part a text at its first blank. -/
theorem eq_span {text name tail : List Char} (htext : text = name ++ tail)
    (hname : ∀ c ∈ name, isBlank c = false) (htail : ∀ c ∈ tail.head?, isBlank c = true) :
    name = (text.takeWhile fun c => !isBlank c) ∧ tail = text.dropWhile fun c => !isBlank c := by
  have hkept : ∀ c ∈ name, (!isBlank c) = true := fun c hc => by rw [hname c hc]; rfl
  rw [htext, List.takeWhile_append_of_pos hkept, List.dropWhile_append_of_pos hkept]
  cases tail with
  | nil => simp
  | cons c tail => simp [htail c rfl]

theorem Selects.unique {text : List Char} {className className' : String}
    {filters filters' : List (String × String)} (h : Selects text className filters)
    (h' : Selects text className' filters') : className = className' ∧ filters = filters' := by
  obtain ⟨list, source, name, tail, hparts, hsource, hname, htail, rfl, hfilters⟩ := h
  obtain ⟨list', source', name', tail', hparts', hsource', hname', htail', rfl, hfilters'⟩ := h'
  obtain ⟨-, rfl⟩ := hparts.unique hparts'
  obtain ⟨rfl, rfl⟩ := eq_span hsource hname htail
  obtain ⟨rfl, rfl⟩ := eq_span hsource' hname' htail'
  exact ⟨rfl, hfilters.unique hfilters'⟩

/-- Behind the path and the word `WHERE` the class is named. -/
theorem Relates.names {inside clause condition : List Char} {path className : String}
    (hinside : '\x7d' ∉ inside) (hwhere : StartsWith "WHERE".toList (trim clause) condition)
    (h : Relates ('\x7b' :: (inside ++ '\x7d' :: clause)) path className) :
    path = String.ofList (trim inside) ∧ Names (trimStart condition) className := by
  obtain ⟨inside', clause', condition', htext, hinside', hwhere', hnames, rfl⟩ := h
  have hcut := Text.cutAtChar?_append clause hinside
  rw [(List.cons.inj htext).2, Text.cutAtChar?_append clause' hinside'] at hcut
  obtain ⟨rfl, rfl⟩ := Prod.mk.inj (Option.some.inj hcut)
  obtain rfl := hwhere.unique hwhere'
  exact ⟨rfl, hnames⟩

theorem Relates.unique {text : List Char} {path path' className className' : String}
    (h : Relates text path className) (h' : Relates text path' className') :
    path = path' ∧ className = className' := by
  obtain ⟨inside, clause, condition, rfl, hinside, hwhere, hnames, rfl⟩ := h
  obtain ⟨rfl, hnames'⟩ := h'.names hinside hwhere
  exact ⟨rfl, hnames.unique hnames'⟩

/-- A text of the subset that starts as a selection is one. -/
theorem Documented.selects {text rest : List Char} {q : Query}
    (hword : StartsWith "SELECT".toList text rest) (h : Documented text q) :
    ∃ className filters, q = .select className filters ∧
      Selects (trimStart rest) className filters := by
  cases h with
  | select hword' h =>
    obtain rfl := hword.unique hword'
    exact ⟨_, _, rfl, h⟩
  | associators hword' => exact absurd (hword.sameLetter hword') (by decide)
  | references hword' => exact absurd (hword.sameLetter hword') (by decide)

theorem Documented.associates {text rest : List Char} {q : Query}
    (hword : StartsWith "ASSOCIATORS OF".toList text rest) (h : Documented text q) :
    ∃ path className, q = .associators path className ∧
      Relates (trimStart rest) path className := by
  cases h with
  | select hword' => exact absurd (hword.sameLetter hword') (by decide)
  | associators hword' h =>
    obtain rfl := hword.unique hword'
    exact ⟨_, _, rfl, h⟩
  | references hword' => exact absurd (hword.sameLetter hword') (by decide)

theorem Documented.refers {text rest : List Char} {q : Query}
    (hword : StartsWith "REFERENCES OF".toList text rest) (h : Documented text q) :
    ∃ path className, q = .references path className ∧
      Relates (trimStart rest) path className := by
  cases h with
  | select hword' => exact absurd (hword.sameLetter hword') (by decide)
  | associators hword' => exact absurd (hword.sameLetter hword') (by decide)
  | references hword' h =>
    obtain rfl := hword.unique hword'
    exact ⟨_, _, rfl, h⟩

/-- **A `Documented` text stands for one query.** -/
theorem Documented.unique {text : List Char} {q q' : Query} (h : Documented text q)
    (h' : Documented text q') : q = q' := by
  cases h with
  | select hword h =>
    obtain ⟨className, filters, rfl, hselects⟩ := h'.selects hword
    obtain ⟨rfl, rfl⟩ := h.unique hselects
    rfl
  | associators hword h =>
    obtain ⟨path, className, rfl, hrelates⟩ := h'.associates hword
    obtain ⟨rfl, rfl⟩ := h.unique hrelates
    rfl
  | references hword h =>
    obtain ⟨path, className, rfl, hrelates⟩ := h'.refers hword
    obtain ⟨rfl, rfl⟩ := h.unique hrelates
    rfl

end CimBroker.Wql
