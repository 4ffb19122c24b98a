/-
# CimBroker.Proofs.EscapedText — what comes back of escaped text

Text that is written into markup is escaped: four characters become references, and every other
character stands for itself, a carriage return too.  The references alone can be decoded in one pass
from the left, which takes escaping back (`decoded_escapeChars`).  But reading makes line ends
uniform as well, so a carriage return does not come back, unless it stands beside a reference.

What does come back is `settled` (`text?_escapeChars`).  `settled_eq_iff` says which texts come back
as they were, and `settled_settled` that a text that came back once comes back for good.  Whether
markup admits the characters of a text at all is not asked here; the reader of tokens asks it, in
`CimBroker.Proofs.ElementReading`.
-/
import CimBroker.Markup.Document
import CimBroker.Markup.Escape
import Mathlib.Data.List.Basic

namespace CimBroker.Markup

/-! ## Character data -/

/-- The character is written as a reference. -/
def IsEscaped (c : Char) : Prop := c = '&' ∨ c = '<' ∨ c = '>' ∨ c = '"'

instance : DecidablePred IsEscaped := fun c => by unfold IsEscaped; infer_instance

/-- Characters as they are written in markup. -/
def escapeChars (text : List Char) : List Char := text.flatMap escapedChar

theorem toList_escape (s : String) : (escape s).toList = escapeChars s.toList := by
  simp [escape, escapeChars]

@[simp] theorem escapeChars_nil : escapeChars [] = [] := rfl

@[simp] theorem escapeChars_cons (c : Char) (text : List Char) :
    escapeChars (c :: text) = escapedChar c ++ escapeChars text := rfl

theorem escapedChar_of_not_isEscaped {c : Char} (hc : ¬ IsEscaped c) : escapedChar c = [c] := by
  unfold IsEscaped at hc
  simp only [not_or] at hc
  simp [escapedChar, hc]

/-- Text without such characters is written as it is. -/
theorem escapeChars_eq_self {text : List Char}
    (h : (text.all fun c => !decide (IsEscaped c)) = true) : escapeChars text = text := by
  induction text with
  | nil => rfl
  | cons c text ih =>
    simp only [List.all_cons, Bool.and_eq_true, Bool.not_eq_true', decide_eq_false_iff_not] at h
    rw [escapeChars_cons, escapedChar_of_not_isEscaped h.1, ih h.2, List.singleton_append]

/-- A character is written as a reference that stands for it. -/
theorem escapedChar_of_isEscaped {c : Char} (hc : IsEscaped c) :
    ∃ name, escapedChar c = '&' :: name ∧ ∀ rest, reference? (name ++ rest) = some (c, rest) := by
  rcases hc with rfl | rfl | rfl | rfl
  · exact ⟨"amp;".toList, rfl, fun rest => rfl⟩
  · exact ⟨"lt;".toList, rfl, fun rest => rfl⟩
  · exact ⟨"gt;".toList, rfl, fun rest => rfl⟩
  · exact ⟨"quot;".toList, rfl, fun rest => rfl⟩

theorem escapedChar_ne_nil (c : Char) : escapedChar c ≠ [] := by
  by_cases hc : IsEscaped c
  · obtain ⟨name, hname, -⟩ := escapedChar_of_isEscaped hc
    simp [hname]
  · simp [escapedChar_of_not_isEscaped hc]

theorem escapeChars_eq_nil {text : List Char} : escapeChars text = [] ↔ text = [] := by
  cases text with
  | nil => simp
  | cons c text => simp [escapedChar_ne_nil]

/-! ## Decoding entities -/

/-- The characters that are written as references, each with its entity. -/
def entities : List (Char × List Char) :=
  [('&', "&amp;".toList), ('<', "&lt;".toList), ('>', "&gt;".toList), ('"', "&quot;".toList)]

/-- A text with its entities decoded, in one pass from the left. -/
def decoded : List Char → List Char
  | [] => []
  | '&' :: 'a' :: 'm' :: 'p' :: ';' :: text => '&' :: decoded text
  | '&' :: 'l' :: 't' :: ';' :: text => '<' :: decoded text
  | '&' :: 'g' :: 't' :: ';' :: text => '>' :: decoded text
  | '&' :: 'q' :: 'u' :: 'o' :: 't' :: ';' :: text => '"' :: decoded text
  | c :: text => c :: decoded text

theorem escapedChar_entity {e : Char × List Char} (he : e ∈ entities) :
    escapedChar e.1 = e.2 := by
  revert e
  decide

/-- A character has an entity, or stands for itself. -/
theorem entity_or_plain (c : Char) : (∃ e ∈ entities, e.1 = c) ∨ ¬ IsEscaped c := by
  by_cases hc : IsEscaped c
  · left
    rcases hc with rfl | rfl | rfl | rfl <;> decide
  · exact .inr hc

theorem decoded_entity {e : Char × List Char} (he : e ∈ entities) (text : List Char) :
    decoded (e.2 ++ text) = e.1 :: decoded text := by
  simp only [entities, List.mem_cons, List.not_mem_nil, or_false] at he
  rcases he with rfl | rfl | rfl | rfl <;> rfl

theorem decoded_cons {c : Char} (hc : c ≠ '&') (text : List Char) :
    decoded (c :: text) = c :: decoded text := by
  rw [decoded] <;> simp [hc]

/-- Decoding takes back what escaping did. -/
theorem decoded_escapeChars (text : List Char) : decoded (escapeChars text) = text := by
  induction text with
  | nil => rfl
  | cons c text ih =>
    rw [escapeChars_cons]
    rcases entity_or_plain c with ⟨e, he, rfl⟩ | hc
    · rw [escapedChar_entity he, decoded_entity he, ih]
    · rw [escapedChar_of_not_isEscaped hc, List.singleton_append,
        decoded_cons fun heq => hc (.inl heq), ih]

/-- Escaping keeps texts apart. -/
theorem escapeChars_injective : Function.Injective escapeChars :=
  Function.LeftInverse.injective decoded_escapeChars

/-! ## Line ends -/

/-- Whether a carriage return stays one before the given text: at the end if it follows a reference,
and otherwise if a reference follows it. -/
def keepsReturn (afterReference : Bool) : List Char → Bool
  | [] => afterReference
  | c :: _ => decide (IsEscaped c)

/-- What comes back of a text, at its start or after a reference. -/
def settled (afterReference : Bool) : List Char → List Char
  | [] => []
  | c :: text =>
    if c = '\x0d' then
      if text.head? = some '\n' then settled false text
      else (if keepsReturn afterReference text then '\x0d' else '\n') :: settled false text
    else c :: settled (decide (IsEscaped c)) text

theorem settled_cons_of_ne {c : Char} (hc : c ≠ '\x0d') (afterReference : Bool)
    (text : List Char) :
    settled afterReference (c :: text) = c :: settled (decide (IsEscaped c)) text := by
  rw [settled, if_neg hc]

theorem settled_newline (afterReference : Bool) (text : List Char) :
    settled afterReference ('\n' :: text) = '\n' :: settled false text :=
  settled_cons_of_ne (by decide) afterReference text

/-- A line end of two characters is one. -/
theorem settled_return_newline (afterReference : Bool) (text : List Char) :
    settled afterReference ('\x0d' :: '\n' :: text) = '\n' :: settled false text := by
  rw [settled, if_pos rfl, List.head?_cons, if_pos rfl, settled_newline]

theorem settled_return (afterReference : Bool) {text : List Char} (htext : text.head? ≠ some '\n') :
    settled afterReference ('\x0d' :: text) =
      (if keepsReturn afterReference text then '\x0d' else '\n') :: settled false text := by
  rw [settled, if_pos rfl, if_neg htext]

/-- Only at the end of a text does it matter for a carriage return what was before it. -/
theorem settled_return_of_ne_nil {text : List Char} (htext : text ≠ []) (afterReference : Bool) :
    settled afterReference ('\x0d' :: text) = settled false ('\x0d' :: text) := by
  cases text with
  | nil => exact absurd rfl htext
  | cons c text => rfl

theorem not_isEscaped_return : ¬ IsEscaped '\x0d' := by decide

theorem pushText_of_ne {isLast : Bool} {c : Char} {before : List Char}
    (hbefore : before.head? ≠ some '\x0d') :
    pushText isLast c before = if isLast ∧ c = '\x0d' then '\n' :: before else c :: before := by
  cases before with
  | nil => rfl
  | cons d before =>
    unfold pushText
    split
    · next heq =>
      cases heq
      exact absurd rfl hbefore
    · rfl

theorem pushText_return (isLast : Bool) (c : Char) (before : List Char) :
    pushText isLast c ('\x0d' :: before) = if isLast ∧ c = '\x0d' then '\n' :: '\n' :: before
      else if c = '\n' then '\n' :: before else c :: '\n' :: before := rfl

/-- A reference is read as the character that it stands for. -/
theorem textFrom?_reference {c : Char} (hc : IsEscaped c) {fuel : Nat} (rest : List Char)
    (hfuel : (escapedChar c ++ rest).length ≤ fuel) (afterReference : Bool) (before : List Char) :
    ∃ less, rest.length ≤ less ∧ textFrom? fuel afterReference before (escapedChar c ++ rest) =
      textFrom? less true (c :: before) rest := by
  obtain ⟨name, hname, hread⟩ := escapedChar_of_isEscaped hc
  rw [hname, List.cons_append, List.length_cons, List.length_append] at hfuel
  obtain ⟨less, rfl⟩ : ∃ less, fuel = less + 1 := ⟨fuel - 1, by omega⟩
  refine ⟨less, by omega, ?_⟩
  rw [hname, List.cons_append, textFrom?, if_pos rfl, hread]
  rfl

/-- Any other character is taken as it stands after a reference, and pushed elsewhere. -/
theorem textFrom?_plain {c : Char} (hc : ¬ IsEscaped c) {fuel : Nat} {rest : List Char}
    (hfuel : (c :: rest).length ≤ fuel) (afterReference : Bool) (before : List Char) :
    ∃ less, rest.length ≤ less ∧ textFrom? fuel afterReference before (c :: rest) =
      textFrom? less false
        (if afterReference then c :: before else pushText rest.isEmpty c before) rest := by
  have hamp : c ≠ '&' := fun heq => hc (.inl heq)
  rw [List.length_cons] at hfuel
  obtain ⟨less, rfl⟩ : ∃ less, fuel = less + 1 := ⟨fuel - 1, by omega⟩
  refine ⟨less, by omega, ?_⟩
  rw [textFrom?, if_neg hamp]
  cases afterReference <;> rfl

/-- What is read of an escaped text where no carriage return waits for what follows it. -/
def ReadsClear (text : List Char) : Prop :=
  ∀ fuel afterReference before, (escapeChars text).length ≤ fuel → before.head? ≠ some '\x0d' →
    textFrom? fuel afterReference before (escapeChars text) =
      some (before.reverse ++ settled afterReference text)

/-- What is read of an escaped text where a carriage return waits. -/
def ReadsWaiting (text : List Char) : Prop :=
  ∀ fuel before, (escapeChars text).length ≤ fuel →
    textFrom? fuel false ('\x0d' :: before) (escapeChars text) =
      some (before.reverse ++ settled false ('\x0d' :: text))

variable {c : Char} {text : List Char}

theorem readsClear_of_isEscaped (hc : IsEscaped c) (htext : ReadsClear text) :
    ReadsClear (c :: text) := by
  have hne : c ≠ '\x0d' := fun heq => not_isEscaped_return (heq ▸ hc)
  intro fuel afterReference before hfuel hbefore
  obtain ⟨less, hless, hread⟩ :=
    textFrom?_reference hc (escapeChars text) hfuel afterReference before
  rw [escapeChars_cons, hread, htext less true _ hless (by simpa using hne),
    settled_cons_of_ne hne, decide_eq_true hc]
  simp

theorem readsWaiting_of_isEscaped (hc : IsEscaped c) (htext : ReadsClear text) :
    ReadsWaiting (c :: text) := by
  have hne : c ≠ '\x0d' := fun heq => not_isEscaped_return (heq ▸ hc)
  have hhead : (c :: text).head? ≠ some '\n' := by
    rintro ⟨⟩
    exact absurd hc (by decide)
  intro fuel before hfuel
  obtain ⟨less, hless, hread⟩ :=
    textFrom?_reference hc (escapeChars text) hfuel false ('\x0d' :: before)
  rw [escapeChars_cons, hread, htext less true _ hless (by simpa using hne),
    settled_return false hhead, settled_cons_of_ne hne, keepsReturn, decide_eq_true hc]
  simp

theorem isEmpty_escapeChars (text : List Char) : (escapeChars text).isEmpty = text.isEmpty := by
  cases text <;> simp [escapedChar_ne_nil]

theorem readsClear_of_not_isEscaped (hc : ¬ IsEscaped c) (hclear : ReadsClear text)
    (hwaiting : text ≠ [] → ReadsWaiting text) : ReadsClear (c :: text) := by
  intro fuel afterReference before hfuel hbefore
  rw [escapeChars_cons, escapedChar_of_not_isEscaped hc, List.singleton_append] at hfuel ⊢
  obtain ⟨less, hless, hread⟩ := textFrom?_plain hc hfuel afterReference before
  rw [hread, isEmpty_escapeChars, pushText_of_ne hbefore]
  by_cases hreturn : c = '\x0d'
  · subst hreturn
    by_cases htext : text = []
    · subst htext
      cases afterReference <;> simp [textFrom?, settled, keepsReturn]
    · -- the carriage return waits, since something follows it
      rw [settled_return_of_ne_nil htext, ← hwaiting htext less before hless]
      simp [htext]
  · rw [settled_cons_of_ne hreturn, decide_eq_false hc]
    simp only [hreturn, and_false, if_false, ite_self]
    rw [hclear less false _ hless (by simpa using hreturn)]
    simp

theorem readsWaiting_of_not_isEscaped (hc : ¬ IsEscaped c) (hclear : ReadsClear text)
    (hwaiting : text ≠ [] → ReadsWaiting text) : ReadsWaiting (c :: text) := by
  intro fuel before hfuel
  rw [escapeChars_cons, escapedChar_of_not_isEscaped hc, List.singleton_append] at hfuel ⊢
  obtain ⟨less, hless, hread⟩ := textFrom?_plain hc hfuel false ('\x0d' :: before)
  rw [hread, isEmpty_escapeChars, if_neg Bool.false_ne_true, pushText_return]
  by_cases hnewline : c = '\n'
  · subst hnewline
    rw [settled_return_newline, if_neg (by simp), if_pos rfl,
      hclear less false _ hless (by simp)]
    simp
  have hhead : (c :: text).head? ≠ some '\n' := by simpa using hnewline
  rw [settled_return false hhead, keepsReturn, decide_eq_false hc, if_neg Bool.false_ne_true,
    if_neg hnewline]
  by_cases hreturn : c = '\x0d'
  · subst hreturn
    by_cases htext : text = []
    · subst htext
      simp [textFrom?, settled, keepsReturn]
    · rw [if_neg (by simp [htext]), hwaiting htext less _ hless]
      simp
  · rw [if_neg (by simp [hreturn]), hclear less false _ hless (by simpa using hreturn),
      settled_cons_of_ne hreturn, decide_eq_false hc]
    simp

/-- Escaped text is read in any state of the reader. -/
theorem reads_escapeChars (text : List Char) :
    ReadsClear text ∧ (text ≠ [] → ReadsWaiting text) := by
  induction text with
  | nil =>
    refine ⟨fun fuel afterReference before _ _ => ?_, fun hne => absurd rfl hne⟩
    simp [textFrom?, settled]
  | cons c text ih =>
    obtain ⟨hclear, hwaiting⟩ := ih
    by_cases hc : IsEscaped c
    · exact ⟨readsClear_of_isEscaped hc hclear, fun _ => readsWaiting_of_isEscaped hc hclear⟩
    · exact ⟨readsClear_of_not_isEscaped hc hclear hwaiting,
        fun _ => readsWaiting_of_not_isEscaped hc hclear hwaiting⟩

/-- **What escaped text stands for**: `text?` reads the text, with its line ends `settled`. -/
theorem text?_escapeChars (text : List Char) :
    text? (escapeChars text) = some (settled false text) :=
  (reads_escapeChars text).1 _ false [] (Nat.le_refl _) (by simp)

/-! ## Texts that come back -/

/-- Whether a text ends with a character that is written as a reference. -/
def endsEscaped (text : List Char) : Bool := text.getLast?.any fun c => decide (IsEscaped c)

/-- Every carriage return stays one where it stands. -/
def ReturnsStay (text : List Char) : Prop :=
  ∀ before after, text = before ++ '\x0d' :: after → keepsReturn (endsEscaped before) after = true

/-- **What came back comes back for good**: `settled` is idempotent. -/
theorem settled_settled (afterReference : Bool) (text : List Char) :
    settled afterReference (settled afterReference text) = settled afterReference text := by
  induction text generalizing afterReference with
  | nil => rfl
  | cons c text ih =>
    by_cases hreturn : c = '\x0d'
    · subst hreturn
      cases text with
      | nil => cases afterReference <;> rfl
      | cons d text =>
        have hrest := ih false
        by_cases hnewline : d = '\n'
        · subst hnewline
          rw [settled_newline, settled_newline] at hrest
          rw [settled_return_newline, settled_newline, hrest]
        have hhead : (d :: text).head? ≠ some '\n' := by simpa using hnewline
        rw [settled_return afterReference hhead, keepsReturn]
        by_cases hd : IsEscaped d
        · have hne : d ≠ '\x0d' := fun heq => not_isEscaped_return (heq ▸ hd)
          rw [settled_cons_of_ne hne, decide_eq_true hd] at hrest ⊢
          rw [if_pos rfl, settled_return _ (by simpa using hnewline), hrest, keepsReturn,
            decide_eq_true hd, if_pos rfl]
        · rw [decide_eq_false hd, if_neg Bool.false_ne_true, settled_newline, hrest]
    · rw [settled_cons_of_ne hreturn, settled_cons_of_ne hreturn, ih]

/-- A text comes back as it is, if its first character does and the rest does. -/
theorem settled_cons_eq_iff {afterReference : Bool} :
    settled afterReference (c :: text) = c :: text ↔
      (c = '\x0d' → keepsReturn afterReference text = true) ∧
        settled (decide (IsEscaped c)) text = text := by
  by_cases hreturn : c = '\x0d'
  · subst hreturn
    cases text with
    | nil => cases afterReference <;> simp [settled, keepsReturn]
    | cons d text =>
      by_cases hnewline : d = '\n'
      · subst hnewline
        have hplain : ¬ IsEscaped '\n' := by decide
        simp [settled_return_newline, keepsReturn, hplain]
      · have hhead : (d :: text).head? ≠ some '\n' := by simpa using hnewline
        rw [settled_return afterReference hhead, decide_eq_false not_isEscaped_return]
        cases hkeeps : keepsReturn afterReference (d :: text) <;> simp
  · simp [settled_cons_of_ne hreturn, hreturn]

/-- The carriage returns of a text stay, if the first character is none or stays, and those of the
rest stay. -/
theorem returns_cons_iff {afterReference : Bool} :
    (∀ before after, c :: text = before ++ '\x0d' :: after →
        keepsReturn (before.getLast?.elim afterReference fun c => decide (IsEscaped c)) after) ↔
      (c = '\x0d' → keepsReturn afterReference text = true) ∧
        ∀ before after, text = before ++ '\x0d' :: after →
          keepsReturn (before.getLast?.elim (decide (IsEscaped c)) fun c => decide (IsEscaped c))
            after := by
  have hlast (before : List Char) : ((c :: before).getLast?.elim afterReference fun c =>
      decide (IsEscaped c)) = before.getLast?.elim (decide (IsEscaped c)) fun c =>
        decide (IsEscaped c) := by
    rw [List.getLast?_cons]
    cases before.getLast? <;> rfl
  constructor
  · intro hall
    constructor
    · rintro rfl
      exact hall [] text rfl
    · rintro before after rfl
      rw [← hlast]
      exact hall (c :: before) after rfl
  · rintro ⟨hfirst, hrest⟩ before after heq
    cases before with
    | nil =>
      obtain ⟨rfl, rfl⟩ := List.cons.inj heq
      exact hfirst rfl
    | cons d before =>
      obtain ⟨rfl, rfl⟩ := List.cons.inj heq
      rw [hlast]
      exact hrest before after rfl

/-- **A text comes back as it is** exactly if its carriage returns stay (`ReturnsStay`). -/
theorem settled_eq_iff : settled false text = text ↔ ReturnsStay text := by
  have hgeneral (afterReference : Bool) : settled afterReference text = text ↔
      ∀ before after, text = before ++ '\x0d' :: after →
        keepsReturn (before.getLast?.elim afterReference fun c => decide (IsEscaped c)) after := by
    induction text generalizing afterReference with
    | nil => simp [settled]
    | cons c text ih => rw [settled_cons_eq_iff, returns_cons_iff, ih]
  rw [hgeneral]
  unfold ReturnsStay endsEscaped
  refine forall_congr' fun before => ?_
  cases before.getLast? <;> rfl

instance (text : List Char) : Decidable (ReturnsStay text) := decidable_of_iff _ settled_eq_iff

end CimBroker.Markup
