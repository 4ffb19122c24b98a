/-
# CimBroker.Markup.Content — what character data stands for

Between tags and in the values of attributes a reference stands for a character: one of five by
name, or any by its number.  A number that belongs to no character stands for the replacement
character, and a number that markup does not admit is an error.

*Line ends.* In text a carriage return, alone or with a line feed after it, is one line feed.  This
is done when the next character arrives, or the end; what a reference yields, and the one character
after a reference, are taken as they stand.  In the value of an attribute, tabs and line ends become
spaces.

`reference?` reads one reference, `text?` character data and `attribute?` the value of an attribute.
Entities that a document declares for itself are left out, since documents with declarations of
their own are refused.
-/
import CimBroker.Markup.Name
import CimBroker.Number.Digits

namespace CimBroker.Markup

/-- The characters that have a name. -/
def namedCharacter? (name : String) : Option Char :=
  match name with
  | "quot" => some '"'
  | "amp" => some '&'
  | "apos" => some '\''
  | "lt" => some '<'
  | "gt" => some '>'
  | _ => none

/-- The character of a number. -/
def numberedCharacter? (n : Nat) : Option Char :=
  let c := if n.isValidChar then Char.ofNat n else '\uFFFD'
  if n < 2 ^ 32 ∧ isAdmitted c then some c else none

/-- The character of digits of a base that a semicolon ends. -/
def numericReference? (base : Nat) (isDigit : Char → Bool) (text : List Char) :
    Option (Char × List Char) :=
  match text.dropWhile isDigit with
  | ';' :: rest => do
    let n ← Number.ofDigits? base (text.takeWhile isDigit)
    return (← numberedCharacter? n, rest)
  | _ => none

/-- Whether a character is a hexadecimal digit. -/
def isHexDigit (c : Char) : Bool := (Number.digit? 16 c).isSome

/-- The character of a reference, after its ampersand. -/
def reference? : List Char → Option (Char × List Char)
  | '#' :: 'x' :: text => numericReference? 16 isHexDigit text
  | '#' :: text => numericReference? 10 Number.isDigit text
  | text => do
    let (name, rest) ← name? text
    match rest with
    | ';' :: rest => return (← namedCharacter? (String.ofList name), rest)
    | _ => none

/-- Adds a character of a text to what came before it, latest first, with line ends made uniform. -/
def pushText (isLast : Bool) (c : Char) : List Char → List Char
  | '\x0d' :: before =>
    if isLast ∧ c = '\x0d' then '\n' :: '\n' :: before
    else if c = '\n' then '\n' :: before
    else c :: '\n' :: before
  | before => if isLast ∧ c = '\x0d' then '\n' :: before else c :: before

/-- The rest of a text after what came before it, latest first; `asIs` holds right after a
reference. -/
def textFrom? : (fuel : Nat) → (asIs : Bool) → (before text : List Char) → Option (List Char)
  | _, _, before, [] => some before.reverse
  | 0, _, _, _ => none
  | fuel + 1, asIs, before, c :: text =>
    if c = '&' then
      (reference? text).bind fun read => textFrom? fuel true (read.1 :: before) read.2
    else if asIs then textFrom? fuel false (c :: before) text
    else textFrom? fuel false (pushText text.isEmpty c before) text

/-- What text between tags stands for. -/
def text? (raw : List Char) : Option (List Char) := textFrom? raw.length false [] raw

/-- What a section of literal characters stands for. -/
def literalFrom (before : List Char) : List Char → List Char
  | [] => before.reverse
  | c :: text => literalFrom (pushText text.isEmpty c before) text

/-- What the value of an attribute stands for. -/
def attributeFrom? : (fuel : Nat) → List Char → Option (List Char)
  | _, [] => some []
  | 0, _ => none
  | fuel + 1, c :: text =>
    if c = '&' then
      (reference? text).bind fun read => (attributeFrom? fuel read.2).map (read.1 :: ·)
    else if c = '\x0d' ∧ text.head? = some '\n' then attributeFrom? fuel text
    else (attributeFrom? fuel text).map ((if isSpace c then ' ' else c) :: ·)

/-- What the value of an attribute stands for. -/
def attribute? (raw : List Char) : Option (List Char) := attributeFrom? raw.length raw

end CimBroker.Markup
