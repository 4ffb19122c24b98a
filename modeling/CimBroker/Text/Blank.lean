/-
# CimBroker.Text.Blank — blank characters and trimming

A character is blank when the Unicode standard gives it the property `White_Space`.  Trimming
removes blanks at one end or at both; everything in this library that "ignores surrounding space"
(literals of the query language, numbers in text, job descriptions) means this set and no other.

Texts are handled as lists of characters, so that what trimming keeps can be read off the list.

`trimStart`, `trimEnd` and `trim` are here, and what is known of them is in
`CimBroker.Proofs.Cutting`.
-/

namespace CimBroker.Text

/-- Whether a character has the Unicode property `White_Space`. -/
def isBlank (c : Char) : Bool :=
  let n := c.toNat
  (9 ≤ n && n ≤ 13) || n == 0x20 || n == 0x85 || n == 0xA0 || n == 0x1680 ||
    (0x2000 ≤ n && n ≤ 0x200A) || n == 0x2028 || n == 0x2029 || n == 0x202F || n == 0x205F ||
    n == 0x3000

/-- The text without the blanks it starts with. -/
def trimStart (cs : List Char) : List Char :=
  cs.dropWhile isBlank

/-- The text without the blanks it ends with. -/
def trimEnd (cs : List Char) : List Char :=
  (cs.reverse.dropWhile isBlank).reverse

/-- The text without the blanks around it. -/
def trim (cs : List Char) : List Char :=
  trimEnd (trimStart cs)

@[simp] theorem trimStart_nil : trimStart [] = [] := rfl

@[simp] theorem trimEnd_nil : trimEnd [] = [] := rfl

@[simp] theorem trim_nil : trim [] = [] := rfl

/-- A text that starts with a non-blank character is its own start-trimmed form. -/
theorem trimStart_cons_of_not_blank {c : Char} {cs : List Char} (h : isBlank c = false) :
    trimStart (c :: cs) = c :: cs := by
  simp [trimStart, h]

end CimBroker.Text
