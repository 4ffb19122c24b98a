/-
# CimBroker.Markup.Name — names in markup

Which characters markup admits at all, which of them make up names, and names with a namespace in
front of a colon.  The character classes are those of the XML standard.

`isAdmitted` is the class of all characters, `name?` reads a name and `qname?` one with an optional
prefix.  What a prefix stands for is left to `CimBroker.Markup.Document`.
-/

namespace CimBroker.Markup

/-- Whether a character is white space in markup. -/
def isSpace (c : Char) : Bool :=
  c == ' ' || c == '\t' || c == '\n' || c == '\x0d'

/-- Whether a character may occur in markup. -/
def isAdmitted (c : Char) : Bool :=
  if c.toNat < 0x20 then isSpace c else c.toNat != 0xFFFE && c.toNat != 0xFFFF

/-- The characters beyond ASCII that may start a name, as closed ranges. -/
def nameStartRanges : List (Nat × Nat) :=
  [(0xC0, 0xD6), (0xD8, 0xF6), (0xF8, 0x2FF), (0x370, 0x37D), (0x37F, 0x1FFF), (0x200C, 0x200D),
    (0x2070, 0x218F), (0x2C00, 0x2FEF), (0x3001, 0xD7FF), (0xF900, 0xFDCF), (0xFDF0, 0xFFFD),
    (0x10000, 0xEFFFF)]

/-- The characters beyond ASCII that may occur in a name but not start it, as closed ranges. -/
def nameOnlyRanges : List (Nat × Nat) := [(0xB7, 0xB7), (0x300, 0x36F), (0x203F, 0x2040)]

/-- Whether a character lies in one of the ranges. -/
def inRanges (ranges : List (Nat × Nat)) (c : Char) : Bool :=
  ranges.any fun range => range.1 ≤ c.toNat && c.toNat ≤ range.2

/-- Whether a character may start a name. -/
def isNameStart (c : Char) : Bool :=
  if c.toNat ≤ 0x80 then c.isAlpha || c == ':' || c == '_' else inRanges nameStartRanges c

/-- Whether a character may occur in a name. -/
def isNameChar (c : Char) : Bool :=
  if c.toNat ≤ 0x80 then c.isAlphanum || c == ':' || c == '_' || c == '-' || c == '.'
  else inRanges nameStartRanges c || inRanges nameOnlyRanges c

/-- The text without the white space it starts with. -/
def skipSpaces (text : List Char) : List Char := text.dropWhile isSpace

/-- A name with a namespace prefix, which may be empty. -/
structure QName where
  space : List Char
  base : List Char
  deriving DecidableEq, Repr

/-- A name at the start of a text, colons included. -/
def name? : List Char → Option (List Char × List Char)
  | c :: text =>
    if isNameStart c then some (c :: text.takeWhile isNameChar, text.dropWhile isNameChar) else none
  | [] => none

/-- Whether a part of a name is empty or starts as names do. -/
def startsName (part : List Char) : Bool := (part.head?.map isNameStart).getD true

/-- A name at the start of a text, cut at its colon. -/
def qname? (text : List Char) : Option (QName × List Char) :=
  let whole := text.takeWhile isNameChar
  let rest := text.dropWhile isNameChar
  let before := whole.takeWhile (· != ':')
  let name : QName := if before.length < whole.length then ⟨before, whole.drop (before.length + 1)⟩
    else ⟨[], whole⟩
  if name.base.isEmpty || name.base.contains ':' || !startsName name.space ||
      !startsName name.base then none
  else some (name, rest)

end CimBroker.Markup
