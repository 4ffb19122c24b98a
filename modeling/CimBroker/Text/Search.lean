/-
# CimBroker.Text.Search — finding words regardless of case

The query language writes its keywords in either case of the ASCII letters.  This module finds a
keyword at the start of a text, cuts a text at the first occurrence of a word, and cuts it at every
occurrence.  Only ASCII letters are folded: a letter outside ASCII equals itself alone.

`afterWord?`, `cutAt?` and `pieces` are these three, and `cutAtChar?` cuts at a character.  What a
cut finds in a longer text is the matter of `CimBroker.Proofs.Cutting`.
-/
import CimBroker.Text.Blank

namespace CimBroker.Text

/-- Whether two characters are equal up to the case of ASCII letters. -/
def sameLetter (a b : Char) : Bool :=
  a.toUpper == b.toUpper

/-- Whether two texts are equal up to the case of ASCII letters. -/
def sameWord (a b : String) : Bool :=
  a.toList.map Char.toUpper == b.toList.map Char.toUpper

/-- What follows `word` in a text that starts with it, in whatever case. -/
def afterWord? : (word text : List Char) → Option (List Char)
  | [], text => some text
  | _ :: _, [] => none
  | w :: word, c :: text => if sameLetter w c then afterWord? word text else none

/-- What follows a leading keyword, without the blanks between them. -/
def afterKeyword? (keyword : String) (text : List Char) : Option (List Char) :=
  (afterWord? keyword.toList text).map trimStart

/-- The text before and after the first occurrence of `word`. -/
def cutAt? (word : List Char) : List Char → Option (List Char × List Char)
  | [] => (afterWord? word []).map fun rest => ([], rest)
  | c :: text =>
    match afterWord? word (c :: text) with
    | some rest => some ([], rest)
    | none => (cutAt? word text).map fun cut => (c :: cut.1, cut.2)

/-- A leading word and what follows it make up the text. -/
theorem length_of_afterWord? {word text rest : List Char} (h : afterWord? word text = some rest) :
    word.length + rest.length = text.length := by
  induction word generalizing text with
  | nil => simp [afterWord?] at h; simp [h]
  | cons w word ih =>
    cases text with
    | nil => simp [afterWord?] at h
    | cons c text =>
      simp only [afterWord?] at h
      split at h
      · have := ih h
        simp only [List.length_cons]
        omega
      · simp at h

/-- The two sides of a cut and the word between them make up the text. -/
theorem length_of_cutAt? {word text before after : List Char}
    (h : cutAt? word text = some (before, after)) :
    before.length + word.length + after.length = text.length := by
  induction text generalizing before with
  | nil =>
    simp only [cutAt?, Option.map_eq_some_iff, Prod.mk.injEq] at h
    obtain ⟨rest, hrest, rfl, rfl⟩ := h
    simpa using length_of_afterWord? hrest
  | cons c text ih =>
    rw [cutAt?] at h
    split at h
    · next rest hrest =>
      simp only [Option.some.injEq, Prod.mk.injEq] at h
      obtain ⟨rfl, rfl⟩ := h
      simpa using length_of_afterWord? hrest
    · simp only [Option.map_eq_some_iff, Prod.mk.injEq] at h
      obtain ⟨cut, hcut, rfl, rfl⟩ := h
      have := ih hcut
      simp only [List.length_cons]
      omega

/-- The pieces of a text between the occurrences of the word `w :: word`, found from the left. -/
def pieces (w : Char) (word text : List Char) : List (List Char) :=
  match h : cutAt? (w :: word) text with
  | none => [text]
  | some (before, after) =>
    have : after.length < text.length := by
      have := length_of_cutAt? h
      simp only [List.length_cons] at this
      omega
    before :: pieces w word after
  termination_by text.length

/-- The text up to the first occurrence of a character, and what follows it. -/
def cutAtChar? (mark : Char) : List Char → Option (List Char × List Char)
  | [] => none
  | c :: text =>
    if c = mark then some ([], text)
    else (cutAtChar? mark text).map fun cut => (c :: cut.1, cut.2)

/-- The text between two copies of a mark, when it starts and ends with one. -/
def between? (mark : Char) : List Char → Option (List Char)
  | [] => none
  | c :: text =>
    if c = mark ∧ text.getLast? = some mark then some text.dropLast else none

end CimBroker.Text
