/-
# CimBroker.Json.Reader — JSON documents from text

The reader accepts RFC 8259 and nothing more: blanks are the space, the tab and the two line ends; a
number has no leading zero and a digit on each side of its point; a text holds no character below
U+0020; the document is followed by nothing but blanks.

Nesting is bounded by the length of the text, which is what the counter of the mutual recursion is
filled with.

`ofText?` reads a document and `value?` one value in front of a rest.  Why a text is refused, and
where in the text, is not told: there is no document then, and that is all that callers look at.
-/
import CimBroker.Json.Basic

namespace CimBroker.Json

/-- Whether a character is blank in a JSON document. -/
def isBlank (c : Char) : Bool :=
  c == ' ' || c == '\n' || c == '\t' || c == '\x0d'

/-- The text without the blanks it starts with. -/
def skipBlanks (input : List Char) : List Char := input.dropWhile isBlank

/-- One or more digits. -/
def digits? (input : List Char) : Option (List Char × List Char) :=
  let ds := input.takeWhile Number.isDigit
  if ds.isEmpty then none else some (ds, input.drop ds.length)

/-- The digits before the point: a zero alone, or digits that start with another one. -/
def wholePart? : List Char → Option (List Char × List Char)
  | '0' :: rest =>
    if (rest.head?.map Number.isDigit).getD false then none else some (['0'], rest)
  | input => digits? input

/-- The point and the digits after it, if there is a point. -/
def fractionPart? : List Char → Option (List Char × List Char)
  | '.' :: rest => (digits? rest).map fun read => ('.' :: read.1, read.2)
  | input => some ([], input)

/-- The exponent, if there is one. -/
def exponentPart? : List Char → Option (List Char × List Char)
  | c :: rest =>
    if c = 'e' ∨ c = 'E' then
      match rest with
      | s :: ds =>
        if s = '+' ∨ s = '-' then (digits? ds).map fun read => (c :: s :: read.1, read.2)
        else (digits? rest).map fun read => (c :: read.1, read.2)
      | [] => none
    else some ([], c :: rest)
  | [] => some ([], [])

/-- A number, as it is written. -/
def number? (input : List Char) : Option (List Char × List Char) := do
  let (sign, rest) := match input with
    | '-' :: rest => (['-'], rest)
    | rest => ([], rest)
  let (whole, rest) ← wholePart? rest
  let (fraction, rest) ← fractionPart? rest
  let (exponent, rest) ← exponentPart? rest
  return (sign ++ whole ++ fraction ++ exponent, rest)

/-- A unit of a text: a character, or a code unit given by an escape. -/
inductive TextUnit where
  | char (c : Char)
  | unit (n : Nat)

/-- Four hexadecimal digits. -/
def codeUnit? (input : List Char) : Option (Nat × List Char) :=
  let ds := input.take 4
  if ds.length = 4 then (Number.ofDigits? 16 ds).map fun n => (n, input.drop 4) else none

/-- What follows a backslash. -/
def escape? : List Char → Option (TextUnit × List Char)
  | '"' :: rest => some (.char '"', rest)
  | '\\' :: rest => some (.char '\\', rest)
  | '/' :: rest => some (.char '/', rest)
  | 'b' :: rest => some (.char '\x08', rest)
  | 'f' :: rest => some (.char '\x0c', rest)
  | 'n' :: rest => some (.char '\n', rest)
  | 'r' :: rest => some (.char '\x0d', rest)
  | 't' :: rest => some (.char '\t', rest)
  | 'u' :: rest => (codeUnit? rest).map fun read => (.unit read.1, read.2)
  | _ => none

/-- The units of a text up to its closing quote. -/
def units? : Nat → List Char → Option (List TextUnit × List Char)
  | 0, _ => none
  | _ + 1, [] => none
  | fuel + 1, c :: rest =>
    if c = '"' then some ([], rest)
    else if c = '\\' then do
      let (unit, rest) ← escape? rest
      let (units, rest) ← units? fuel rest
      return (unit :: units, rest)
    else if c.toNat < 0x20 then none
    else (units? fuel rest).map fun read => (.char c :: read.1, read.2)

/-- The characters of units, where every surrogate is half of a pair. -/
def characters? : List TextUnit → Option (List Char)
  | [] => some []
  | .char c :: rest => (characters? rest).map (c :: ·)
  | .unit n :: rest =>
    if 0xDC00 ≤ n ∧ n ≤ 0xDFFF then none
    else if 0xD800 ≤ n ∧ n ≤ 0xDBFF then
      match rest with
      | .unit low :: rest =>
        if 0xDC00 ≤ low ∧ low ≤ 0xDFFF then
          (characters? rest).map
            (Char.ofNat (0x10000 + (n - 0xD800) * 0x400 + (low - 0xDC00)) :: ·)
        else none
      | _ => none
    else (characters? rest).map (Char.ofNat n :: ·)

/-- A text after its opening quote. -/
def textAfterQuote? (input : List Char) : Option (Option String × List Char) :=
  (units? (input.length + 1) input).map fun read =>
    ((characters? read.1).map String.ofList, read.2)

/-- A word at the start of a text. -/
def word? (word : String) (value : Json) (input : List Char) : Option (Json × List Char) :=
  if word.toList.isPrefixOf input then some (value, input.drop word.toList.length) else none

mutual

/-- A document at the start of a text, blanks before it aside. -/
def value? : Nat → List Char → Option (Json × List Char)
  | 0, _ => none
  | fuel + 1, input =>
    match skipBlanks input with
    | '"' :: rest => (textAfterQuote? rest).map fun read => (.text read.1, read.2)
    | '[' :: rest =>
      match skipBlanks rest with
      | ']' :: rest => some (.array [], rest)
      | rest => (items? fuel rest).map fun read => (.array read.1, read.2)
    | '\x7b' :: rest =>
      match skipBlanks rest with
      | '\x7d' :: rest => some (.object [], rest)
      | rest => (members? fuel rest).map fun read => (.object read.1, read.2)
    | 'n' :: rest => word? "null" .null ('n' :: rest)
    | 't' :: rest => word? "true" (.bool true) ('t' :: rest)
    | 'f' :: rest => word? "false" (.bool false) ('f' :: rest)
    | rest => (number? rest).map fun read => (.number read.1, read.2)

/-- The items of an array up to its closing bracket. -/
def items? : Nat → List Char → Option (List Json × List Char)
  | 0, _ => none
  | fuel + 1, input =>
    match value? fuel input with
    | none => none
    | some (item, rest) =>
      match skipBlanks rest with
      | ',' :: rest => (items? fuel rest).map fun read => (item :: read.1, read.2)
      | ']' :: rest => some ([item], rest)
      | _ => none

/-- The members of an object up to its closing brace. -/
def members? : Nat → List Char → Option (List (Option String × Json) × List Char)
  | 0, _ => none
  | fuel + 1, input =>
    match skipBlanks input with
    | '"' :: rest =>
      match textAfterQuote? rest with
      | none => none
      | some (name, rest) =>
        match skipBlanks rest with
        | ':' :: rest =>
          match value? fuel rest with
          | none => none
          | some (value, rest) =>
            match skipBlanks rest with
            | ',' :: rest => (members? fuel rest).map fun read => ((name, value) :: read.1, read.2)
            | '\x7d' :: rest => some ([(name, value)], rest)
            | _ => none
        | _ => none
    | _ => none

end

/-- The document that a text spells. -/
def ofText? (s : String) : Option Json :=
  match value? (2 * s.toList.length + 2) s.toList with
  | some (j, rest) => if (skipBlanks rest).isEmpty then some j else none
  | none => none

end CimBroker.Json
