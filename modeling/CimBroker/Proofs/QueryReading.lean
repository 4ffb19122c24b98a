/-
# CimBroker.Proofs.QueryReading — what the reader takes for a query

The reader looks for words.  It cuts the conditions of a selection apart at ` AND ` and each at its
first equals sign.  Whatever is in front of the sign it takes for a name and whatever is behind it
for a literal, or for a class where related objects are asked for.  So it also accepts texts outside
the documented subset: `Name != 'x'` is read as a condition on a property `Name !`, and a second
condition behind the class of the result as a part of the class.

A text that is accepted is in the subset and stands for what is read exactly if every part of it, as
it is cut, is one of the subset; and of the texts cut so, just those of the subset are accepted
(`parsed_is_documented_iff`).  The hard half is that a cut inside a literal never gives back the
query that was meant: what is read up to there has fewer characters than the literal stands for
(`Requires.cut_ne`).

`wider_texts_are_parsed` has a text of either kind.  `Cut` and `IsWellCut` speak of the parts that
the reader looks at, and so they follow it closely; the subset itself does not.
-/
import CimBroker.Proofs.QueryGrammar

namespace CimBroker.Wql

open Text (StartsWith Parts isBlank trim trimStart trimEnd cutAt? cutAtChar? pieces afterKeyword?)
open Query (unquoted condition? conditions?)

/-! ## What is read of a part of a condition -/

theorem length_unescapeChars_unquoted_le (literal : List Char) :
    (unescapeChars (unquoted literal)).length ≤ (unescapeChars literal).length := by
  have hinner {mark : Char} (hmark : mark ≠ '\\') {inner : List Char}
      (h : Text.between? mark literal = some inner) :
      (unescapeChars inner).length ≤ (unescapeChars literal).length := by
    cases literal with
    | nil => cases h
    | cons c text =>
      rw [Text.between?] at h
      split at h
      · next hends =>
        obtain rfl := Option.some.inj h
        rw [hends.1, unescapeChars_cons text hmark]
        exact Nat.le_succ_of_le (length_unescapeChars_le (List.dropLast_prefix text))
      · cases h
  unfold unquoted
  split
  · next inner h => exact hinner (by decide) h
  · split
    · next inner h => exact hinner (by decide) h
    · exact Nat.le_refl _

/-- Two plain characters in a text are two characters of what it stands for. -/
theorem length_unescapeChars_append {c d : Char} (hc : c ≠ '\\') (hd : d ≠ '\\')
    (before after : List Char) :
    (unescapeChars before).length + 2 ≤ (unescapeChars (before ++ c :: d :: after)).length := by
  fun_induction unescapeChars before with
  | case1 => simp [unescapeChars_cons _ hc, unescapeChars_cons _ hd]
  | case2 =>
    have hescaped : unescapeChars ('\\' :: c :: d :: after) = c :: d :: unescapeChars after := by
      rw [unescapeChars, unescapeChars_cons _ hd]
    simp [hescaped]
  | case3 e es ih => simpa [unescapeChars] using ih
  | case4 e es hlast hmore ih =>
    rw [List.cons_append, unescapeChars_cons _ (ne_backslash hlast hmore), List.length_cons,
      List.length_cons]
    omega

/-- A literal that is cut off where a separating word seems to begin is read as something else. -/
theorem Denotes.cut_ne {before tail value : List Char} {a : Char} (ha : a = 'A' ∨ a = 'a')
    (h : Denotes (trim (before ++ ' ' :: a :: tail)) value) :
    unescapeChars (unquoted (trim before)) ≠ value := by
  have hletter := plain_of_letter ha
  rcases Text.blank_or_first before with hblank | ⟨gap, c, part, rfl, hgap, hc⟩
  · -- the literal starts with the letter, and nothing is left of it
    have hstart : trim (before ++ ' ' :: a :: tail) = a :: trimEnd tail := by
      rw [List.append_cons]
      refine Text.trim_gap (fun d hd => ?_) hletter.1 tail
      rcases List.mem_append.mp hd with hd | hd
      · exact hblank d hd
      · obtain rfl := List.mem_singleton.mp hd
        decide
    rw [hstart] at h
    rw [trim, Text.trimStart_eq_nil hblank, Text.trimEnd_nil]
    generalize hliteral : a :: trimEnd tail = literal at h
    cases h with
    | bare =>
      rw [← hliteral, unescapeChars_cons _ hletter.2.1]
      exact (List.cons_ne_nil _ _).symm
    | quoted hq => exact absurd (List.cons.inj hliteral).1 (ne_quote_of_letter ha hq)
  · -- the literal is quoted, and the characters behind the cut are missing
    rw [List.append_assoc, List.cons_append] at h
    obtain ⟨hquote, more, -, rfl⟩ := h.across hgap hc ha
    rw [Text.trim_gap hgap hc]
    intro heq
    have hslash : c ≠ '\\' := by rcases hquote with rfl | rfl <;> decide
    have hlong := length_unescapeChars_append (by decide : ' ' ≠ '\\') hletter.2.1 part more
    have hcut := length_unescapeChars_unquoted_le (c :: trimEnd part)
    have hpart := length_unescapeChars_le (Text.trimEnd_isPrefix part)
    rw [heq, unescapeChars_cons _ hslash, List.length_cons] at hcut
    omega

/-- What is read of a condition up to where a separating word seems to begin in it is not the
condition. -/
theorem Requires.cut_ne {before tail : List Char} {filter : String × String} {a : Char}
    (ha : a = 'A' ∨ a = 'a') (h : Requires (before ++ ' ' :: a :: tail) filter) :
    condition? before ≠ some filter := by
  intro hread
  obtain ⟨⟨left, right⟩, hcut, rfl⟩ := Option.map_eq_some_iff.mp hread
  obtain ⟨rfl, hleft⟩ := Text.cutAtChar?_eq_some_iff.mp hcut
  obtain ⟨value, hvalue, heq⟩ := h.literal hleft
  exact hvalue.cut_ne ha (String.ofList_injective heq)

/-- Of a condition that is read, only what is read can be meant. -/
theorem requires_iff {text : List Char} {filter : String × String}
    (h : condition? text = some filter) :
    Requires text filter ↔ ∃ meant, Requires text meant := by
  refine ⟨fun hreq => ⟨filter, hreq⟩, fun ⟨meant, hmeant⟩ => ?_⟩
  obtain rfl := Option.some.inj (h.symm.trans hmeant.read)
  exact hmeant

theorem names_iff {text : List Char} {name className : String}
    (h : condition? text = some (name, className)) :
    Names text className ↔ ∃ meant, Names text meant := by
  refine ⟨fun hnames => ⟨className, hnames⟩, fun ⟨meant, hmeant⟩ => ?_⟩
  obtain ⟨name', -, hread⟩ := hmeant.read
  obtain ⟨-, rfl⟩ := Prod.mk.inj (Option.some.inj (h.symm.trans hread))
  exact hmeant

/-! ## Conditions and how they are cut apart -/

/-- A condition is read between blanks as it is without them. -/
theorem condition?_trim (text : List Char) : condition? (trim text) = condition? text := by
  unfold condition?
  cases hcut : cutAtChar? '=' text with
  | none =>
    have hnone : cutAtChar? '=' (trim text) = none := by
      rw [Text.cutAtChar?_eq_none_iff, Text.mem_trim_iff (by decide)]
      exact Text.cutAtChar?_eq_none_iff.mp hcut
    rw [hnone]
  | some cut =>
    obtain ⟨left, right⟩ := cut
    obtain ⟨htext, hleft⟩ := Text.cutAtChar?_eq_some_iff.mp hcut
    have htrim : cutAtChar? '=' (trim text) = some (trimStart left, trimEnd right) := by
      refine Text.cutAtChar?_eq_some_iff.mpr ⟨?_, fun hmem => hleft ?_⟩
      · rw [htext, Text.trim_append_cons _ _ (by decide)]
      · exact (List.dropWhile_suffix isBlank).subset hmem
    rw [htrim]
    simp

theorem conditions?_uncut {text : List Char} (h : cutAt? separator text = none) :
    conditions? text = (condition? text).map fun filter => [filter] := by
  rw [conditions?, Text.pieces_of_none h, List.mapM_cons, condition?_trim]
  cases condition? text <;> rfl

theorem conditions?_cut {text before after : List Char}
    (h : cutAt? separator text = some (before, after)) :
    conditions? text =
      (condition? before).bind fun filter => (conditions? after).map (filter :: ·) := by
  rw [conditions?, Text.pieces_of_some h, List.mapM_cons, condition?_trim]
  cases condition? before with
  | none => rfl
  | some filter =>
    show Option.bind (conditions? after) _ = _
    cases conditions? after <;> rfl

theorem conditions?_ne_nil {text : List Char} : conditions? text ≠ some [] := by
  intro h
  cases hcut : cutAt? separator text with
  | none =>
    rw [conditions?_uncut hcut, Option.map_eq_some_iff] at h
    obtain ⟨filter, -, hne⟩ := h
    cases hne
  | some cut =>
    rw [conditions?_cut hcut] at h
    obtain ⟨filter, -, h⟩ := Option.bind_eq_some_iff.mp h
    obtain ⟨filters, -, hne⟩ := Option.map_eq_some_iff.mp h
    cases hne

/-- The pieces of a text that are conditions: the text is cut where the separating word begins. -/
theorem pieces_of_requiresAll {text : List Char} {filters : List (String × String)}
    (h : RequiresAll text filters) (hread : conditions? text = some filters) :
    ∀ piece ∈ pieces ' ' "AND ".toList text, ∃ filter, Requires piece filter := by
  induction h with
  | @one text filter h =>
    cases hcut : cutAt? separator text with
    | none =>
      rw [Text.pieces_of_none hcut]
      exact List.forall_mem_singleton.mpr ⟨filter, h⟩
    | some cut =>
      -- two conditions are read, and there is one
      rw [conditions?_cut hcut] at hread
      obtain ⟨first, -, hread⟩ := Option.bind_eq_some_iff.mp hread
      obtain ⟨others, hothers, heq⟩ := Option.map_eq_some_iff.mp hread
      rw [(List.cons.inj heq).2] at hothers
      exact absurd hothers conditions?_ne_nil
  | @and text word rest filter filters h hword hrest ih =>
    have hoccurs : (cutAt? separator (text ++ (word ++ rest))).isSome :=
      Text.cutAt?_isSome_iff.mpr ⟨text, word, rest, by rw [List.append_assoc], hword⟩
    obtain ⟨⟨before, after⟩, hcut⟩ := Option.isSome_iff_exists.mp hoccurs
    obtain ⟨⟨found, htext, hfound⟩, hfirst⟩ := Text.parts_of_cutAt? hcut
    rw [conditions?_cut hcut] at hread
    obtain ⟨first, hbefore, hread⟩ := Option.bind_eq_some_iff.mp hread
    obtain ⟨others, hothers, heq⟩ := Option.map_eq_some_iff.mp hread
    obtain ⟨rfl, rfl⟩ := List.cons.inj heq
    rw [Text.pieces_of_some hcut]
    rcases Nat.eq_or_lt_of_le (hfirst text word rest rfl hword) with hlength | hshort
    · -- the cut is where the condition ends
      have hwords : word.length = found.length := by
        simpa using congrArg List.length (hword.trans hfound.symm)
      obtain ⟨rfl, htail⟩ := List.append_inj htext hlength.symm
      obtain ⟨-, rfl⟩ := List.append_inj htail hwords
      exact List.forall_mem_cons.mpr ⟨⟨first, h⟩, ih hothers⟩
    · -- the cut is inside the condition, of which something else is read then
      obtain ⟨a, tail, rfl, ha⟩ := exists_of_earlier hword hfound htext hshort
      exact absurd hbefore (h.cut_ne ha)

/-- The conditions that are read are conditions of the documented kind, and stand for what is read,
exactly if every piece is one. -/
theorem requiresAll_iff {text : List Char} {filters : List (String × String)}
    (hread : conditions? text = some filters) :
    RequiresAll text filters ↔
      ∀ piece ∈ pieces ' ' "AND ".toList text, ∃ filter, Requires piece filter := by
  refine ⟨fun h => pieces_of_requiresAll h hread, fun hpieces => ?_⟩
  induction hlength : text.length using Nat.strong_induction_on generalizing text filters with
  | h n ih =>
    cases hcut : cutAt? separator text with
    | none =>
      rw [conditions?_uncut hcut] at hread
      rw [Text.pieces_of_none hcut] at hpieces
      obtain ⟨filter, hfilter, rfl⟩ := Option.map_eq_some_iff.mp hread
      exact .one ((requires_iff hfilter).mpr (hpieces text List.mem_cons_self))
    | some cut =>
      obtain ⟨before, after⟩ := cut
      rw [conditions?_cut hcut] at hread
      rw [Text.pieces_of_some hcut] at hpieces
      obtain ⟨filter, hfilter, hread⟩ := Option.bind_eq_some_iff.mp hread
      obtain ⟨others, hothers, rfl⟩ := Option.map_eq_some_iff.mp hread
      obtain ⟨hfirst, hrest⟩ := List.forall_mem_cons.mp hpieces
      obtain ⟨⟨word, htext, hword⟩, -⟩ := Text.parts_of_cutAt? hcut
      have hless : after.length < n := by
        have hparts := Text.length_of_cutAt? hcut
        have hseparator : separator.length = 5 := rfl
        omega
      rw [htext]
      exact .and ((requires_iff hfilter).mpr hfirst) hword (ih _ hless hothers hrest rfl)

/-- Where every piece is a condition, conditions are read. -/
theorem conditions?_of_pieces {text : List Char}
    (h : ∀ piece ∈ pieces ' ' "AND ".toList text, ∃ filter, Requires piece filter) :
    ∃ filters, conditions? text = some filters := by
  unfold conditions?
  generalize pieces ' ' "AND ".toList text = parts at h
  induction parts with
  | nil => exact ⟨[], rfl⟩
  | cons piece others ih =>
    obtain ⟨⟨filter, hfilter⟩, hothers⟩ := List.forall_mem_cons.mp h
    obtain ⟨filters, hfilters⟩ := ih hothers
    refine ⟨filter :: filters, ?_⟩
    rw [List.mapM_cons, condition?_trim, hfilter.read, hfilters]
    rfl

/-! ## How a query is cut -/

/-- A part of a query as the reader cuts it. -/
inductive Cut where
  /-- A condition of a selection. -/
  | condition (text : List Char)
  /-- The condition of a query for related objects. -/
  | clause (text : List Char)

/-- The part is one of the documented subset. -/
def Cut.IsProper : Cut → Prop
  | condition text => ∃ filter, Requires text filter
  | clause text => ∃ className, Names text className

/-- The conditions behind the class of a selection. -/
def filterCuts (clause : List Char) : List Cut :=
  match afterKeyword? "WHERE" clause with
  | some conditions => (pieces ' ' "AND ".toList conditions).map .condition
  | none => []

/-- The conditions of a selection, after its first word. -/
def selectionCuts (text : List Char) : List Cut :=
  match cutAt? " FROM ".toList text with
  | some (_, source) => filterCuts (trim ((trim source).dropWhile fun c => !isBlank c))
  | none => []

/-- The condition of a query for related objects, after its first words. -/
def relatedCuts (text : List Char) : List Cut :=
  match cutAtChar? '\x7d' text with
  | some (_, clause) =>
    match afterKeyword? "WHERE" (trim clause) with
    | some condition => [.clause condition]
    | none => []
  | none => []

/-- The conditions of a query. -/
def cuts (wql : String) : List Cut :=
  let text := trim wql.toList
  match afterKeyword? "ASSOCIATORS OF" text with
  | some rest => relatedCuts rest
  | none =>
    match afterKeyword? "REFERENCES OF" text with
    | some rest => relatedCuts rest
    | none =>
      match afterKeyword? "SELECT" text with
      | some rest => selectionCuts rest
      | none => []

/-- Every part of the query, as it is cut, is one of the documented subset. -/
def IsWellCut (wql : String) : Prop := ∀ cut ∈ cuts wql, cut.IsProper

theorem afterKeyword?_eq_some_iff {keyword : String} {text rest : List Char} :
    afterKeyword? keyword text = some rest ↔
      ∃ tail, StartsWith keyword.toList text tail ∧ trimStart tail = rest := by
  simp only [afterKeyword?, Option.map_eq_some_iff, Text.startsWith_iff]

theorem afterKeyword?_eq_none {keyword : String} {c d : Char} {word others text rest : List Char}
    (hkeyword : keyword.toList = d :: others) (h : StartsWith (c :: word) text rest)
    (hne : c.toUpper ≠ d.toUpper) : afterKeyword? keyword text = none := by
  rw [Option.eq_none_iff_forall_ne_some]
  intro tail htail
  obtain ⟨rest', hword, -⟩ := afterKeyword?_eq_some_iff.mp htail
  rw [hkeyword] at hword
  exact hne (h.sameLetter hword)

/-! ## Selections -/

/-- The filters behind the class of a selection. -/
def clauseFilters? (clause : List Char) : Option (List (String × String)) :=
  if clause.isEmpty then some [] else (afterKeyword? "WHERE" clause).bind conditions?

theorem selection?_eq (text : List Char) :
    Query.selection? text = (cutAt? " FROM ".toList text).bind fun cut =>
      (clauseFilters? (trim ((trim cut.2).dropWhile fun c => !isBlank c))).map
        (.select (String.ofList ((trim cut.2).takeWhile fun c => !isBlank c))) := by
  unfold Query.selection? clauseFilters?
  cases cutAt? " FROM ".toList text with
  | none => rfl
  | some cut =>
    simp only [Option.bind_eq_bind, Option.bind_some]
    split
    · rfl
    · cases afterKeyword? "WHERE" _ with
      | none => rfl
      | some conditions =>
        simp only [Option.bind_some]
        cases conditions? conditions <;> rfl

theorem forall_filterCuts {clause conditions : List Char}
    (hwhere : StartsWith "WHERE".toList clause conditions) :
    (∀ cut ∈ filterCuts clause, cut.IsProper) ↔
      ∀ piece ∈ pieces ' ' "AND ".toList (trimStart conditions),
        ∃ filter, Requires piece filter := by
  rw [filterCuts, afterKeyword?_eq_some_iff.mpr ⟨conditions, hwhere, rfl⟩]
  exact List.forall_mem_map

/-- Of the conditions behind a class, what is read is meant exactly if every piece is a
condition. -/
theorem filters_iff {clause : List Char} {filters : List (String × String)}
    (h : clauseFilters? clause = some filters) :
    Filters clause filters ↔ ∀ cut ∈ filterCuts clause, cut.IsProper := by
  cases clause with
  | nil =>
    obtain rfl := Option.some.inj h
    exact ⟨fun _ => List.forall_mem_nil _, fun _ => .everything⟩
  | cons c clause =>
    rw [clauseFilters?, if_neg (by simp), Option.bind_eq_some_iff] at h
    obtain ⟨conditions, hwhere, hread⟩ := h
    obtain ⟨tail, htail, rfl⟩ := afterKeyword?_eq_some_iff.mp hwhere
    rw [forall_filterCuts htail]
    exact Iff.trans ⟨fun h => h.conditions htail, fun h => .such htail h⟩ (requiresAll_iff hread)

theorem Filters.read {clause : List Char} {filters : List (String × String)}
    (h : Filters clause filters) (hcuts : ∀ cut ∈ filterCuts clause, cut.IsProper) :
    clauseFilters? clause = some filters := by
  cases h with
  | everything => rfl
  | @such _ conditions _ hwhere hall =>
    rw [forall_filterCuts hwhere] at hcuts
    obtain ⟨filters', hread⟩ := conditions?_of_pieces hcuts
    rw [((requiresAll_iff hread).mpr hcuts).unique hall] at hread
    have hkeyword := afterKeyword?_eq_some_iff.mpr ⟨conditions, hwhere, rfl⟩
    cases clause with
    | nil => cases hkeyword
    | cons c clause =>
      rw [clauseFilters?, if_neg (by simp), hkeyword]
      exact hread

/-- Of a selection, what is read is meant exactly if every piece of its conditions is a
condition. -/
theorem selects_iff {text : List Char} {q : Query} (h : Query.selection? text = some q) :
    ∃ className filters, q = .select className filters ∧
      (Selects text className filters ↔ ∀ cut ∈ selectionCuts text, cut.IsProper) := by
  rw [selection?_eq, Option.bind_eq_some_iff] at h
  obtain ⟨⟨list, source⟩, hcut, h⟩ := h
  obtain ⟨filters, hread, rfl⟩ := Option.map_eq_some_iff.mp h
  refine ⟨_, filters, rfl, ?_⟩
  rw [selectionCuts, hcut, ← filters_iff hread]
  have hparts := Text.parts_of_cutAt? hcut
  constructor
  · rintro ⟨list', source', name, tail, hparts', hsource, hname, htail, -, hfilters⟩
    obtain ⟨-, rfl⟩ := hparts.unique hparts'
    obtain ⟨-, rfl⟩ := eq_span hsource hname htail
    exact hfilters
  · intro hfilters
    obtain ⟨hsource, hname, htail⟩ := span_parts (trim source)
    exact ⟨list, source, _, _, hparts, hsource, hname, htail, rfl, hfilters⟩

theorem Selects.read {text : List Char} {className : String} {filters : List (String × String)}
    (h : Selects text className filters) (hcuts : ∀ cut ∈ selectionCuts text, cut.IsProper) :
    Query.selection? text = some (.select className filters) := by
  obtain ⟨list, source, name, tail, hparts, hsource, hname, htail, rfl, hfilters⟩ := h
  obtain ⟨rfl, rfl⟩ := eq_span hsource hname htail
  have hcut := Text.parts_iff.mp hparts
  rw [selectionCuts, hcut] at hcuts
  rw [selection?_eq, hcut, Option.bind_some, hfilters.read hcuts, Option.map_some]

/-! ## Queries for related objects -/

theorem pathAndClass?_eq_some {text : List Char} {path className : String}
    (h : Query.pathAndClass? text = some (path, className)) :
    ∃ inside clause condition name, text = '\x7b' :: (inside ++ '\x7d' :: clause) ∧
      '\x7d' ∉ inside ∧ afterKeyword? "WHERE" (trim clause) = some condition ∧
      condition? condition = some (name, className) ∧ path = String.ofList (trim inside) := by
  unfold Query.pathAndClass? at h
  split at h
  · next rest =>
    obtain ⟨⟨inside, clause⟩, hcut, h⟩ := Option.bind_eq_some_iff.mp h
    obtain ⟨condition, hwhere, h⟩ := Option.bind_eq_some_iff.mp h
    obtain ⟨⟨name, value⟩, hread, h⟩ := Option.bind_eq_some_iff.mp h
    simp only at h
    split at h
    · obtain ⟨hrest, hinside⟩ := Text.cutAtChar?_eq_some_iff.mp hcut
      obtain ⟨rfl, rfl⟩ := Prod.mk.inj (Option.some.inj h)
      exact ⟨inside, clause, condition, name, by rw [hrest], hinside, hwhere, hread, rfl⟩
    · cases h
  · cases h

/-- Of a query for related objects, what is read is meant exactly if its condition is one that names
a class. -/
theorem relates_iff {text : List Char} {path className : String}
    (h : Query.pathAndClass? text = some (path, className)) :
    Relates text path className ↔ ∀ cut ∈ relatedCuts text, cut.IsProper := by
  obtain ⟨inside, clause, condition, name, rfl, hinside, hwhere, hread, rfl⟩ :=
    pathAndClass?_eq_some h
  have hcut : cutAtChar? '\x7d' (('\x7b' :: inside) ++ '\x7d' :: clause) =
      some ('\x7b' :: inside, clause) :=
    Text.cutAtChar?_append clause (by simpa using hinside)
  have hcuts : relatedCuts ('\x7b' :: (inside ++ '\x7d' :: clause)) = [.clause condition] := by
    rw [relatedCuts, ← List.cons_append, hcut]
    simp only [hwhere]
  rw [hcuts, List.forall_mem_singleton]
  obtain ⟨tail, hstarts, rfl⟩ := afterKeyword?_eq_some_iff.mp hwhere
  refine Iff.trans ⟨fun h => (h.names hinside hstarts).2, fun h => ?_⟩ (names_iff hread)
  exact ⟨inside, clause, tail, rfl, hinside, hstarts, h, rfl⟩

theorem Relates.read {text : List Char} {path className : String}
    (h : Relates text path className) : Query.pathAndClass? text = some (path, className) := by
  obtain ⟨inside, clause, condition, rfl, hinside, hwhere, hnames, rfl⟩ := h
  obtain ⟨name, hname, hread⟩ := hnames.read
  have hkeyword := afterKeyword?_eq_some_iff.mpr ⟨condition, hwhere, rfl⟩
  simp only [Query.pathAndClass?, Text.cutAtChar?_append clause hinside, hkeyword, hread, hname,
    Option.bind_eq_bind, Option.bind_some, if_true]
  rfl

/-! ## Queries -/

theorem parse_eq_ok_iff {wql : String} {q : Query} :
    Query.parse wql = .ok q ↔ Query.ofText? wql = some q := by
  unfold Query.parse
  cases Query.ofText? wql <;> simp

/-- **Soundness.** A text that is taken for a query is one of the `Documented` subset that stands
for it exactly if every part of it is proper (`IsWellCut`). -/
theorem documented_iff {wql : String} {q : Query} (h : Query.ofText? wql = some q) :
    Documented (trim wql.toList) q ↔ IsWellCut wql := by
  unfold Query.ofText? at h
  unfold IsWellCut cuts
  cases hassociators : afterKeyword? "ASSOCIATORS OF" (trim wql.toList) with
  | some rest =>
    obtain ⟨tail, hword, rfl⟩ := afterKeyword?_eq_some_iff.mp hassociators
    simp only [hassociators] at h ⊢
    obtain ⟨found, hfound, rfl⟩ := Option.map_eq_some_iff.mp h
    rw [← relates_iff hfound]
    refine ⟨fun hdoc => ?_, .associators hword⟩
    obtain ⟨path, className, heq, hrelates⟩ := hdoc.associates hword
    obtain ⟨rfl, rfl⟩ := Query.associators.inj heq
    exact hrelates
  | none =>
    simp only [hassociators] at h ⊢
    cases hreferences : afterKeyword? "REFERENCES OF" (trim wql.toList) with
    | some rest =>
      obtain ⟨tail, hword, rfl⟩ := afterKeyword?_eq_some_iff.mp hreferences
      simp only [hreferences] at h ⊢
      obtain ⟨found, hfound, rfl⟩ := Option.map_eq_some_iff.mp h
      rw [← relates_iff hfound]
      refine ⟨fun hdoc => ?_, .references hword⟩
      obtain ⟨path, className, heq, hrelates⟩ := hdoc.refers hword
      obtain ⟨rfl, rfl⟩ := Query.references.inj heq
      exact hrelates
    | none =>
      simp only [hreferences] at h ⊢
      obtain ⟨rest, hselect, hread⟩ := Option.bind_eq_some_iff.mp h
      obtain ⟨tail, hword, rfl⟩ := afterKeyword?_eq_some_iff.mp hselect
      obtain ⟨className, filters, rfl, hiff⟩ := selects_iff hread
      simp only [hselect]
      rw [← hiff]
      refine ⟨fun hdoc => ?_, .select hword⟩
      obtain ⟨className', filters', heq, hselects⟩ := hdoc.selects hword
      obtain ⟨rfl, rfl⟩ := Query.select.inj heq
      exact hselects

/-- **Completeness.** A text of the `Documented` subset whose parts are all proper (`IsWellCut`)
is read as what it stands for. -/
theorem ofText?_of_documented {wql : String} {q : Query} (h : Documented (trim wql.toList) q)
    (hcuts : IsWellCut wql) : Query.ofText? wql = some q := by
  have hkeyword {keyword : String} {rest : List Char}
      (hword : StartsWith keyword.toList (trim wql.toList) rest) :
      afterKeyword? keyword (trim wql.toList) = some (trimStart rest) :=
    afterKeyword?_eq_some_iff.mpr ⟨rest, hword, rfl⟩
  unfold IsWellCut cuts at hcuts
  unfold Query.ofText?
  cases h with
  | select hword h =>
    have hassociators : afterKeyword? "ASSOCIATORS OF" (trim wql.toList) = none :=
      afterKeyword?_eq_none rfl hword (by decide)
    have hreferences : afterKeyword? "REFERENCES OF" (trim wql.toList) = none :=
      afterKeyword?_eq_none rfl hword (by decide)
    simp only [hassociators, hreferences, hkeyword hword] at hcuts ⊢
    exact h.read hcuts
  | associators hword h => simp only [hkeyword hword, h.read, Option.map_some]
  | references hword h =>
    have hassociators : afterKeyword? "ASSOCIATORS OF" (trim wql.toList) = none :=
      afterKeyword?_eq_none rfl hword (by decide)
    simp only [hassociators, hkeyword hword, h.read, Option.map_some]

/-- Conditions begin with a name. -/
theorem RequiresAll.isName {left right : List Char} {filters : List (String × String)}
    (h : RequiresAll (left ++ '=' :: right) filters) (hleft : '=' ∉ left) : IsName (trim left) := by
  have hfirst {left' right' : List Char} (hname : IsName (trim left'))
      (htext : left ++ '=' :: right = left' ++ '=' :: right') : IsName (trim left) := by
    have hcut := Text.cutAtChar?_append right hleft
    rw [htext, Text.cutAtChar?_append right' (not_mem_of_isName hname)] at hcut
    obtain ⟨rfl, -⟩ := Prod.mk.inj (Option.some.inj hcut)
    exact hname
  generalize htext : left ++ '=' :: right = text at h
  cases h with
  | one h =>
    obtain ⟨left', right', value, rfl, hname, -⟩ := h
    exact hfirst hname htext
  | and h =>
    obtain ⟨left', right', value, rfl, hname, -⟩ := h
    exact hfirst hname (by rw [htext, List.append_assoc]; rfl)

/-- Whatever is behind the equals sign is the class that is named. -/
theorem Names.isName {left right : List Char} {className : String}
    (h : Names (left ++ '=' :: right) className) (hleft : '=' ∉ left) : IsName (trim right) := by
  obtain ⟨left', right', htext, hword, hname, -⟩ := h
  have hcut := Text.cutAtChar?_append right hleft
  rw [htext, Text.cutAtChar?_append right' (not_mem_of_isWord hword)] at hcut
  obtain ⟨-, rfl⟩ := Prod.mk.inj (Option.some.inj hcut)
  exact hname

/-- **What a text is taken for.** A text that is not understood is answered by `Query.parse` with
the error that says so.  Any other is taken for a query, and it is a text of the documented subset
that stands for that query (`Documented`) exactly if every part of it is proper (`IsWellCut`): each
condition of a selection, as it is cut out at the separating word and parted at its first equals
sign, is a name and a literal, and the condition of a query for related objects names a class in
`ResultClass`.  And of the texts whose parts are proper, just those of the subset are taken for
queries, each for the one that it stands for. -/
theorem parsed_is_documented_iff (wql : String) :
    (Query.parse wql = .error (.unsupportedQuery wql) ∨
      ∃ q, Query.parse wql = .ok q ∧ (Documented (trim wql.toList) q ↔ IsWellCut wql)) ∧
    ∀ q, IsWellCut wql ∧ Query.parse wql = .ok q ↔
      IsWellCut wql ∧ Documented (trim wql.toList) q := by
  constructor
  · cases hread : Query.ofText? wql with
    | none =>
      left
      rw [Query.parse, hread]
    | some q => exact .inr ⟨q, parse_eq_ok_iff.mpr hread, documented_iff hread⟩
  · intro q
    refine and_congr_right fun hcuts => ⟨fun hparse => ?_, fun h => ?_⟩
    · exact (documented_iff (parse_eq_ok_iff.mp hparse)).mpr hcuts
    · exact parse_eq_ok_iff.mpr (ofText?_of_documented h hcuts)

/-- **Texts outside the subset are taken for queries.** A comparison other than equality is read as
equality of a property with an odd name, and a second condition on related objects as a part of the
class. -/
theorem wider_texts_are_parsed :
    (Query.parse "SELECT * FROM C WHERE Name != 'x'" = .ok (.select "C" [("Name !", "x")]) ∧
      ∀ q, ¬ Documented (trim "SELECT * FROM C WHERE Name != 'x'".toList) q) ∧
    Query.parse "ASSOCIATORS OF \x7bC.Id=1\x7d WHERE ResultClass = A AssocClass = B" =
        .ok (.associators "C.Id=1" "A AssocClass = B") ∧
      ∀ q, ¬ Documented
        (trim "ASSOCIATORS OF \x7bC.Id=1\x7d WHERE ResultClass = A AssocClass = B".toList) q := by
  refine ⟨⟨?_, fun q h => ?_⟩, rfl, fun q h => ?_⟩
  · have hread : conditions? "Name != 'x'".toList = some [("Name !", "x")] := by
      rw [conditions?_uncut (by decide)]
      rfl
    have hclause : clauseFilters? "WHERE Name != 'x'".toList = some [("Name !", "x")] := hread
    have hselect : Query.selection? "* FROM C WHERE Name != 'x'".toList =
        some (.select "C" [("Name !", "x")]) := by
      rw [selection?_eq]
      exact congrArg (Option.map _) hclause
    have hquery : Query.ofText? "SELECT * FROM C WHERE Name != 'x'" =
        some (.select "C" [("Name !", "x")]) := hselect
    rw [Query.parse, hquery]
  · obtain ⟨className, filters, -, hselects⟩ := h.selects (Text.startsWith_iff.mpr rfl)
    obtain ⟨list, source, name, tail, hparts, hsource, hname, htail, -, hfilters⟩ := hselects
    obtain ⟨-, rfl⟩ := hparts.unique (Text.parts_of_cutAt? rfl)
    obtain ⟨-, rfl⟩ := eq_span hsource hname htail
    have hwhere : StartsWith "WHERE".toList "WHERE Name != 'x'".toList " Name != 'x'".toList :=
      Text.startsWith_iff.mpr rfl
    have hconditions : RequiresAll ("Name !".toList ++ '=' :: " 'x'".toList) filters :=
      Filters.conditions hwhere hfilters
    exact absurd (hconditions.isName (by decide)) (by decide)
  · obtain ⟨path, className, -, hrelates⟩ := h.associates (Text.startsWith_iff.mpr rfl)
    have hwhere : StartsWith "WHERE".toList (trim " WHERE ResultClass = A AssocClass = B".toList)
        " ResultClass = A AssocClass = B".toList :=
      Text.startsWith_iff.mpr rfl
    have hinside : '\x7d' ∉ "C.Id=1".toList := by decide
    have hnames : Names ("ResultClass ".toList ++ '=' :: " A AssocClass = B".toList) className :=
      (Relates.names hinside hwhere hrelates).2
    exact absurd (hnames.isName (by decide)) (by decide)

end CimBroker.Wql
