/-
# CimBroker.Proofs.Cutting — what a search for a word finds

`cutAt?` finds a word in a text regardless of case, at its first occurrence.  Two kinds of character
let a cut be moved through a longer text: one that no letter of the word equals is a *mark*, and a
word cannot lie across it; one that is not the first letter of the word cannot start an occurrence.
Escaping puts backslashes before marks only, so the occurrences of a word without marks in an
escaped text are those in the text itself.

`cutAt?_isSome_iff` and `parts_of_cutAt?` say where a text is cut, `cutAt?_mark` and `cutAt?_skip`
move a cut through a longer text, and `trim_eq_self_iff` says when there is nothing to trim.
Letters are folded as the reader folds them, which is within ASCII only.
-/
import CimBroker.Text.Search
import Mathlib.Data.List.DropRight

namespace CimBroker.Text

/-! ## Occurrences -/

/-- The word stands somewhere in the text, in whatever case. -/
def Occurs (word text : List Char) : Prop :=
  ∃ before found after,
    text = before ++ found ++ after ∧ found.map Char.toUpper = word.map Char.toUpper

/-- What follows a leading word, and what the word looks like there. -/
theorem afterWord?_eq_some_iff {word text rest : List Char} :
    afterWord? word text = some rest ↔
      ∃ found, text = found ++ rest ∧ found.map Char.toUpper = word.map Char.toUpper := by
  induction word generalizing text with
  | nil =>
    constructor
    · intro h
      exact ⟨[], by simpa [afterWord?] using h, rfl⟩
    · rintro ⟨found, rfl, hfound⟩
      have hnil : found = [] := by simpa using hfound
      simp [afterWord?, hnil]
  | cons w word ih =>
    cases text with
    | nil => simp [afterWord?]
    | cons c text =>
      -- a letter that differs ends the search on one side and the occurrence on the other
      rw [afterWord?, sameLetter]
      by_cases hc : w.toUpper = c.toUpper
      · rw [if_pos (beq_iff_eq.mpr hc), ih]
        constructor
        · rintro ⟨found, rfl, hfound⟩
          exact ⟨c :: found, rfl, by simp [hc, hfound]⟩
        · rintro ⟨found, htext, hfound⟩
          cases found with
          | nil => simp at hfound
          | cons d found =>
            simp only [List.cons_append, List.cons.injEq] at htext
            exact ⟨found, htext.2, by simpa [List.map_cons] using (List.cons.inj hfound).2⟩
      · rw [if_neg (by simpa using hc)]
        constructor
        · intro h
          exact absurd h (by simp)
        · rintro ⟨found, htext, hfound⟩
          cases found with
          | nil => simp at hfound
          | cons d found =>
            simp only [List.cons_append, List.cons.injEq] at htext
            simp only [List.map_cons, List.cons.injEq] at hfound
            exact absurd (htext.1 ▸ hfound.1.symm) hc

/-- **`cutAt?` finds a cut** exactly where the word `Occurs`. -/
theorem cutAt?_isSome_iff {word text : List Char} :
    (cutAt? word text).isSome ↔ Occurs word text := by
  induction text with
  | nil =>
    rw [cutAt?, Option.isSome_map, Option.isSome_iff_exists]
    constructor
    · rintro ⟨rest, h⟩
      obtain ⟨found, htext, hfound⟩ := afterWord?_eq_some_iff.mp h
      exact ⟨[], found, rest, htext, hfound⟩
    · rintro ⟨before, found, after, htext, hfound⟩
      have hnil : before = [] ∧ found = [] ∧ after = [] := by simpa using htext
      exact ⟨[], afterWord?_eq_some_iff.mpr ⟨[], rfl, by rw [← hfound, hnil.2.1]⟩⟩
  | cons c text ih =>
    rw [cutAt?]
    cases h : afterWord? word (c :: text) with
    | some rest =>
      obtain ⟨found, htext, hfound⟩ := afterWord?_eq_some_iff.mp h
      exact iff_of_true rfl ⟨[], found, rest, htext, hfound⟩
    | none =>
      rw [Option.isSome_map, ih]
      constructor
      · rintro ⟨before, found, after, rfl, hfound⟩
        exact ⟨c :: before, found, after, rfl, hfound⟩
      · rintro ⟨before, found, after, htext, hfound⟩
        cases before with
        | nil =>
          -- an occurrence at the very start would have been found there
          have hstart : afterWord? word (c :: text) = some after :=
            afterWord?_eq_some_iff.mpr ⟨found, htext, hfound⟩
          exact absurd (h.symm.trans hstart) (by simp)
        | cons d before =>
          simp only [List.cons_append, List.cons.injEq] at htext
          exact ⟨before, found, after, htext.2, hfound⟩

theorem cutAt?_eq_none_iff {word text : List Char} :
    cutAt? word text = none ↔ ¬ Occurs word text := by
  rw [← cutAt?_isSome_iff, Bool.not_eq_true, Option.isSome_eq_false_iff,
    Option.isNone_iff_eq_none]

/-! ## Where a text is cut -/

/-- The text is the word, in whatever case. -/
def IsWord (word s : List Char) : Prop := s.map Char.toUpper = word.map Char.toUpper

/-- The text starts with the word, in whatever case, and the rest follows it. -/
def StartsWith (word text rest : List Char) : Prop :=
  ∃ found, text = found ++ rest ∧ IsWord word found

/-- The text is parted by the first occurrence of the word. -/
structure Parts (word text before after : List Char) : Prop where
  there : ∃ found, text = before ++ (found ++ after) ∧ IsWord word found
  first : ∀ other found rest, text = other ++ (found ++ rest) → IsWord word found →
    before.length ≤ other.length

theorem startsWith_iff {word text rest : List Char} :
    StartsWith word text rest ↔ afterWord? word text = some rest := afterWord?_eq_some_iff.symm

theorem StartsWith.unique {word text rest rest' : List Char} (h : StartsWith word text rest)
    (h' : StartsWith word text rest') : rest = rest' :=
  Option.some.inj ((startsWith_iff.mp h).symm.trans (startsWith_iff.mp h'))

/-- Two words that a text starts with have the same first letter. -/
theorem StartsWith.sameLetter {c d : Char} {word word' text rest rest' : List Char}
    (h : StartsWith (c :: word) text rest) (h' : StartsWith (d :: word') text rest') :
    c.toUpper = d.toUpper := by
  obtain ⟨found, rfl, hfound⟩ := h
  obtain ⟨found', htext, hfound'⟩ := h'
  have hupper : (c :: word).map Char.toUpper ++ rest.map Char.toUpper =
      (d :: word').map Char.toUpper ++ rest'.map Char.toUpper := by
    rw [← hfound, ← hfound', ← List.map_append, ← List.map_append, htext]
  exact (List.cons.inj hupper).1

theorem StartsWith.parts {word text rest : List Char} (h : StartsWith word text rest) :
    Parts word text [] rest :=
  ⟨h, fun _ _ _ _ _ => Nat.zero_le _⟩

/-- **A cut is made at the first occurrence** of the word, where it `Parts` the text. -/
theorem parts_of_cutAt? {word text before after : List Char}
    (h : cutAt? word text = some (before, after)) : Parts word text before after := by
  induction text generalizing before with
  | nil =>
    rw [cutAt?, Option.map_eq_some_iff] at h
    obtain ⟨rest, hrest, heq⟩ := h
    obtain ⟨rfl, rfl⟩ := Prod.mk.inj heq
    exact (startsWith_iff.mpr hrest).parts
  | cons c text ih =>
    rw [cutAt?] at h
    split at h
    · next rest hrest =>
      obtain ⟨rfl, rfl⟩ := Prod.mk.inj (Option.some.inj h)
      exact (startsWith_iff.mpr hrest).parts
    · next hnot =>
      obtain ⟨cut, hcut, heq⟩ := Option.map_eq_some_iff.mp h
      obtain ⟨rfl, rfl⟩ := Prod.mk.inj heq
      obtain ⟨⟨found, htext, hfound⟩, hfirst⟩ := ih hcut
      refine ⟨⟨found, by rw [htext]; rfl, hfound⟩, fun other found' rest hother hword => ?_⟩
      cases other with
      | nil =>
        -- an occurrence at the very start would have been found there
        have hstart := startsWith_iff.mp ⟨found', hother, hword⟩
        rw [hnot] at hstart
        cases hstart
      | cons d other =>
        exact Nat.succ_le_succ (hfirst other found' rest (List.cons.inj hother).2 hword)

theorem Parts.unique {word text before after before' after' : List Char}
    (h : Parts word text before after) (h' : Parts word text before' after') :
    before = before' ∧ after = after' := by
  obtain ⟨found, htext, hfound⟩ := h.there
  obtain ⟨found', htext', hfound'⟩ := h'.there
  have hlength : before.length = before'.length :=
    Nat.le_antisymm (h.first _ _ _ htext' hfound') (h'.first _ _ _ htext hfound)
  have hword : found.length = found'.length := by
    simpa using congrArg List.length (hfound.trans hfound'.symm)
  obtain ⟨hbefore, hrest⟩ := List.append_inj (htext.symm.trans htext') hlength
  exact ⟨hbefore, (List.append_inj hrest hword).2⟩

theorem parts_iff {word text before after : List Char} :
    Parts word text before after ↔ cutAt? word text = some (before, after) := by
  refine ⟨fun h => ?_, parts_of_cutAt?⟩
  obtain ⟨found, htext, hfound⟩ := h.there
  have hsome : (cutAt? word text).isSome :=
    cutAt?_isSome_iff.mpr ⟨before, found, after, by rw [htext, List.append_assoc], hfound⟩
  obtain ⟨⟨before', after'⟩, hcut⟩ := Option.isSome_iff_exists.mp hsome
  obtain ⟨rfl, rfl⟩ := h.unique (parts_of_cutAt? hcut)
  exact hcut

/-! ## Moving a cut through a longer text -/

/-- A character that equals no letter of the word. -/
def IsMark (word : List Char) (m : Char) : Prop := ∀ w ∈ word, sameLetter w m = false

instance (word : List Char) (m : Char) : Decidable (IsMark word m) :=
  decidable_of_iff (word.all fun w => !sameLetter w m) (by simp [IsMark])

variable {w : Char} {word : List Char}

/-- A leading word ends before a mark. -/
theorem afterWord?_mark {m : Char} (before rest : List Char) (hm : IsMark word m) :
    afterWord? word (before ++ m :: rest) =
      (afterWord? word before).map (· ++ m :: rest) := by
  induction word generalizing before with
  | nil => rfl
  | cons w word ih =>
    have hw : sameLetter w m = false := hm w List.mem_cons_self
    cases before with
    | nil => simp [afterWord?, hw]
    | cons c before =>
      rw [List.cons_append, afterWord?, afterWord?]
      by_cases hc : sameLetter w c = true
      · rw [if_pos hc, if_pos hc]
        exact ih before fun v hv => hm v (List.mem_cons_of_mem w hv)
      · rw [if_neg hc, if_neg hc]
        rfl

/-- **A word is found before a mark or after it, never across it.** -/
theorem cutAt?_mark {m : Char} (before rest : List Char) (hm : IsMark (w :: word) m) :
    cutAt? (w :: word) (before ++ m :: rest) =
      match cutAt? (w :: word) before with
      | some cut => some (cut.1, cut.2 ++ m :: rest)
      | none => (cutAt? (w :: word) rest).map fun cut => (before ++ m :: cut.1, cut.2) := by
  induction before with
  | nil =>
    have hw : sameLetter w m = false := hm w List.mem_cons_self
    simp [cutAt?, afterWord?, hw]
  | cons c before ih =>
    -- what starts before the mark is found whether or not the mark follows
    have hstart := afterWord?_mark (c :: before) rest hm
    rw [List.cons_append] at hstart ⊢
    rw [cutAt?, cutAt?, hstart]
    cases afterWord? (w :: word) (c :: before) with
    | some after => rfl
    | none =>
      rw [Option.map_none]
      show Option.map _ _ = _
      rw [ih]
      cases cutAt? (w :: word) before with
      | some cut => rfl
      | none => cases cutAt? (w :: word) rest <;> rfl

/-- Characters other than the first letter of the word start no occurrence. -/
theorem cutAt?_skip {before : List Char} (rest : List Char)
    (h : ∀ c ∈ before, sameLetter w c = false) :
    cutAt? (w :: word) (before ++ rest) =
      (cutAt? (w :: word) rest).map fun cut => (before ++ cut.1, cut.2) := by
  induction before with
  | nil => simp
  | cons c before ih =>
    have hc : sameLetter w c = false := h c List.mem_cons_self
    rw [List.cons_append, cutAt?, afterWord?, if_neg (by simp [hc]),
      ih fun d hd => h d (List.mem_cons_of_mem c hd), Option.map_map]
    rfl

/-- A capital is written for a small letter, and nothing else is changed. -/
theorem toUpper_cases (c : Char) :
    c.toUpper = c ∨ 97 ≤ c.toNat ∧ c.toNat ≤ 122 ∧ c.toUpper.toNat + 32 = c.toNat := by
  delta Char.toUpper
  split
  · next hc =>
    have hlow := UInt32.le_iff_toNat_le.mp hc.1
    have hhigh := UInt32.le_iff_toNat_le.mp hc.2
    right
    simp only [Char.toNat, UInt32.toNat_add]
    simp at hlow hhigh ⊢
    omega
  · exact .inl rfl

/-- Only a space equals a space. -/
theorem eq_of_sameLetter_space {c : Char} (h : sameLetter ' ' c = true) : c = ' ' := by
  have hupper : ' ' = c.toUpper := beq_iff_eq.mp h
  rcases toUpper_cases c with hsame | ⟨hlow, -, hcode⟩
  · rw [← hsame, ← hupper]
  · rw [← hupper] at hcode
    have hspace : ' '.toNat = 32 := rfl
    omega

/-- Two letters have a capital A. -/
theorem eq_of_toUpper {c : Char} (h : c.toUpper = 'A') : c = 'A' ∨ c = 'a' := by
  rcases toUpper_cases c with hsame | ⟨-, -, hcode⟩
  · exact .inl (hsame.symm.trans h)
  · rw [h] at hcode
    rw [← Char.ofNat_toNat c, ← hcode]
    exact .inr rfl

/-- A word that starts a text is cut off it with nothing in front. -/
theorem cutAt?_self (rest : List Char) :
    cutAt? (w :: word) (w :: word ++ rest) = some ([], rest) := by
  have hstart : afterWord? (w :: word) (w :: word ++ rest) = some rest :=
    afterWord?_eq_some_iff.mpr ⟨w :: word, rfl, rfl⟩
  rw [List.cons_append] at hstart ⊢
  rw [cutAt?, hstart]

/-- What follows a keyword and a space. -/
theorem afterKeyword?_append (keyword : String) (rest : List Char) :
    afterKeyword? keyword (keyword.toList ++ ' ' :: rest) = some (trimStart rest) := by
  have hword : afterWord? keyword.toList (keyword.toList ++ ' ' :: rest) = some (' ' :: rest) :=
    afterWord?_eq_some_iff.mpr ⟨keyword.toList, rfl, rfl⟩
  rw [afterKeyword?, hword]
  rfl

/-- A text that the word does not occur in is one piece. -/
theorem pieces_of_none {text : List Char} (h : cutAt? (w :: word) text = none) :
    pieces w word text = [text] := by
  rw [pieces]
  split
  · rfl
  · next before after hcut => exact absurd (h.symm.trans hcut) (by simp)

/-- The pieces of a text begin with what stands before the first occurrence. -/
theorem pieces_of_some {text before after : List Char}
    (h : cutAt? (w :: word) text = some (before, after)) :
    pieces w word text = before :: pieces w word after := by
  rw [pieces]
  split
  · next hcut => exact absurd (h.symm.trans hcut) (by simp)
  · next before' after' hcut =>
    obtain ⟨rfl, rfl⟩ : before = before' ∧ after = after' := by
      simpa using h.symm.trans hcut
    rfl

/-- The text up to a mark that does not stand in it, and what follows the mark. -/
theorem cutAtChar?_append {mark : Char} {before : List Char} (rest : List Char)
    (h : mark ∉ before) :
    cutAtChar? mark (before ++ mark :: rest) = some (before, rest) := by
  induction before with
  | nil => simp [cutAtChar?]
  | cons c before ih =>
    rw [List.mem_cons, not_or] at h
    rw [List.cons_append, cutAtChar?, if_neg fun hc => h.1 hc.symm, ih h.2]
    rfl

theorem cutAtChar?_eq_some_iff {mark : Char} {text before after : List Char} :
    cutAtChar? mark text = some (before, after) ↔
      text = before ++ mark :: after ∧ mark ∉ before := by
  constructor
  · intro h
    induction text generalizing before with
    | nil => cases h
    | cons c text ih =>
      rw [cutAtChar?] at h
      split at h
      · next hc =>
        obtain ⟨rfl, rfl⟩ := Prod.mk.inj (Option.some.inj h)
        exact ⟨by rw [hc]; rfl, List.not_mem_nil⟩
      · next hc =>
        obtain ⟨cut, hcut, heq⟩ := Option.map_eq_some_iff.mp h
        obtain ⟨rfl, rfl⟩ := Prod.mk.inj heq
        obtain ⟨htext, hmem⟩ := ih hcut
        refine ⟨by rw [htext]; rfl, ?_⟩
        simpa [Ne.symm hc] using hmem
  · rintro ⟨rfl, hmark⟩
    exact cutAtChar?_append after hmark

theorem cutAtChar?_eq_none_iff {mark : Char} {text : List Char} :
    cutAtChar? mark text = none ↔ mark ∉ text := by
  induction text with
  | nil => simp [cutAtChar?]
  | cons c text ih =>
    rw [cutAtChar?]
    by_cases hc : c = mark
    · simp [hc]
    · rw [if_neg hc, Option.map_eq_none_iff, ih]
      simp [Ne.symm hc]

/-! ## Trimming -/

/-- Nothing is trimmed at the end of a text before its last non-blank character. -/
theorem trimEnd_append_cons {c : Char} (before rest : List Char) (hc : isBlank c = false) :
    trimEnd (before ++ c :: rest) = before ++ c :: trimEnd rest := by
  have hkept : (c :: before.reverse).dropWhile isBlank = c :: before.reverse := by
    rw [List.dropWhile_cons, if_neg (by simp [hc])]
  unfold trimEnd
  rw [List.reverse_append, List.reverse_cons, List.append_assoc, List.singleton_append,
    List.dropWhile_append, hkept]
  -- the rest may be trimmed away altogether, but not the character in front of it
  by_cases hrest : (rest.reverse.dropWhile isBlank).isEmpty = true
  · rw [if_pos hrest, List.isEmpty_iff.mp hrest]
    simp
  · rw [if_neg hrest]
    simp

/-- Trimming at the end keeps a leading part of the text. -/
theorem trimEnd_isPrefix (text : List Char) : trimEnd text <+: text := by
  have hsuffix := List.dropWhile_suffix isBlank (l := text.reverse)
  simpa [trimEnd] using List.reverse_prefix.mpr hsuffix

@[simp] theorem trimEnd_trimEnd (text : List Char) : trimEnd (trimEnd text) = trimEnd text := by
  unfold trimEnd
  rw [List.reverse_reverse, List.dropWhile_idempotent]

/-- **Trimming changes nothing** exactly if there is no blank at either end. -/
theorem trim_eq_self_iff {text : List Char} :
    trim text = text ↔
      (∀ c ∈ text.head?, isBlank c = false) ∧ ∀ c ∈ text.getLast?, isBlank c = false := by
  have hstart : trimStart text = text ↔ ∀ c ∈ text.head?, isBlank c = false := by
    cases text with
    | nil => simp
    | cons c text => simp [trimStart, List.dropWhile_eq_self_iff]
  have hend : trimEnd text = text ↔ ∀ c ∈ text.getLast?, isBlank c = false := by
    show List.rdropWhile isBlank text = text ↔ _
    rw [List.rdropWhile_eq_self_iff]
    cases text with
    | nil => simp
    | cons c text => simp [List.getLast?_eq_some_getLast]
  rw [← hstart, ← hend]
  constructor
  · intro h
    -- neither end is trimmed, as together they leave the text as long as it was
    have hsuffix : trimStart text <:+ text := List.dropWhile_suffix isBlank
    have hprefix : trim text <+: trimStart text := trimEnd_isPrefix (trimStart text)
    rw [h] at hprefix
    have hkept : trimStart text = text := hsuffix.eq_of_length_le hprefix.length_le
    rw [trim, hkept] at h
    exact ⟨hkept, h⟩
  · rintro ⟨hkept, h⟩
    rw [trim, hkept, h]

/-- Nothing is trimmed off a text without blanks. -/
theorem trim_eq_self {text : List Char} (h : ∀ c ∈ text, isBlank c = false) :
    trim text = text :=
  trim_eq_self_iff.mpr
    ⟨fun c hc => h c (List.mem_of_mem_head? hc), fun c hc => h c (List.mem_of_getLast? hc)⟩

theorem trimStart_append_cons {c : Char} (before after : List Char) (hc : isBlank c = false) :
    trimStart (before ++ c :: after) = trimStart before ++ c :: after := by
  induction before with
  | nil => exact trimStart_cons_of_not_blank hc
  | cons d before ih =>
    unfold trimStart at ih ⊢
    rw [List.cons_append, List.dropWhile_cons, List.dropWhile_cons]
    split
    · exact ih
    · rfl

theorem trim_append_cons {c : Char} (before after : List Char) (hc : isBlank c = false) :
    trim (before ++ c :: after) = trimStart before ++ c :: trimEnd after := by
  rw [trim, trimStart_append_cons before after hc, trimEnd_append_cons _ after hc]

/-- Nothing is trimmed from a text between two characters that are not blank. -/
theorem trim_enclosed {c d : Char} (hc : isBlank c = false) (hd : isBlank d = false)
    (inner : List Char) : trim (c :: (inner ++ [d])) = c :: (inner ++ [d]) := by
  refine trim_eq_self_iff.mpr ⟨?_, ?_⟩
  · rintro _ ⟨⟩
    exact hc
  · rw [← List.cons_append, List.getLast?_concat]
    rintro _ ⟨⟩
    exact hd

theorem trimStart_eq_nil {text : List Char} (h : ∀ c ∈ text, isBlank c = true) :
    trimStart text = [] :=
  List.dropWhile_eq_nil_iff.mpr h

/-- A text is blank, or there is a first character in it that is not. -/
theorem blank_or_first (text : List Char) :
    (∀ c ∈ text, isBlank c = true) ∨
      ∃ gap c rest, text = gap ++ c :: rest ∧ (∀ d ∈ gap, isBlank d = true) ∧
        isBlank c = false := by
  induction text with
  | nil => exact .inl (List.forall_mem_nil _)
  | cons c text ih =>
    cases hc : isBlank c with
    | false => exact .inr ⟨[], c, text, rfl, List.forall_mem_nil _, hc⟩
    | true =>
      rcases ih with hblank | ⟨gap, d, rest, rfl, hgap, hd⟩
      · exact .inl (List.forall_mem_cons.mpr ⟨hc, hblank⟩)
      · exact .inr ⟨c :: gap, d, rest, rfl, List.forall_mem_cons.mpr ⟨hc, hgap⟩, hd⟩

theorem trim_gap {gap : List Char} (hgap : ∀ d ∈ gap, isBlank d = true) {c : Char}
    (hc : isBlank c = false) (rest : List Char) : trim (gap ++ c :: rest) = c :: trimEnd rest := by
  rw [trim_append_cons gap rest hc, trimStart_eq_nil hgap, List.nil_append]

/-- Blanks in front of a text that starts with a non-blank character are trimmed. -/
theorem trim_blank_cons {b c : Char} (rest : List Char) (hb : isBlank b = true)
    (hc : isBlank c = false) : trim (b :: c :: rest) = c :: trimEnd rest :=
  trim_gap (List.forall_mem_singleton.mpr hb) hc rest

@[simp] theorem trim_trimStart (text : List Char) : trim (trimStart text) = trim text := by
  unfold trim trimStart
  rw [List.dropWhile_idempotent]

@[simp] theorem trim_trimEnd (text : List Char) : trim (trimEnd text) = trim text := by
  rcases blank_or_first text with hblank | ⟨gap, c, rest, rfl, hgap, hc⟩
  · have hend : ∀ c ∈ trimEnd text, isBlank c = true := fun c hc =>
      hblank c ((trimEnd_isPrefix text).subset hc)
    rw [trim, trim, trimStart_eq_nil hblank, trimStart_eq_nil hend]
  · rw [trimEnd_append_cons gap rest hc, trim_gap hgap hc, trim_gap hgap hc, trimEnd_trimEnd]

theorem trim_append_blank {gap : List Char} (hgap : ∀ c ∈ gap, isBlank c = true)
    (text : List Char) : trim (text ++ gap) = trim text := by
  have hend : trimEnd (text ++ gap) = trimEnd text := by
    unfold trimEnd
    rw [List.reverse_append,
      List.dropWhile_append_of_pos fun c hc => hgap c (List.mem_reverse.mp hc)]
  rw [← trim_trimEnd, hend, trim_trimEnd]

theorem trim_blank_append {gap : List Char} (hgap : ∀ c ∈ gap, isBlank c = true)
    (text : List Char) : trim (gap ++ text) = trim text := by
  rw [trim, trim, trimStart, List.dropWhile_append_of_pos hgap, trimStart]

/-- Trimming takes away nothing but blanks. -/
theorem mem_trim_iff {text : List Char} {c : Char} (hc : isBlank c = false) :
    c ∈ trim text ↔ c ∈ text := by
  refine ⟨fun h => (List.dropWhile_suffix isBlank).subset ((trimEnd_isPrefix _).subset h), ?_⟩
  intro hmem
  obtain ⟨before, after, rfl⟩ := List.append_of_mem hmem
  simp [trim_append_cons before after hc]

end CimBroker.Text
