/-
# CimBroker.Json.Writer — JSON documents as text

Compact text has no blanks; spread text puts every item and member on a line of its own, two spaces
deeper than what holds it, and a space after each colon.  A text escapes the quote, the backslash
and the control characters below U+0020, and nothing else.

`Json.compact` and `Json.spread` are the two forms.  That the first of them is read back is shown in
`CimBroker.Proofs.JsonRoundTrip`; nothing is claimed of the second.
-/
import CimBroker.Json.Basic

namespace CimBroker.Json

/-- How a character is written inside a JSON text. -/
def escapedChar (c : Char) : List Char :=
  if c = '"' then ['\\', '"']
  else if c = '\\' then ['\\', '\\']
  else if c = '\n' then ['\\', 'n']
  else if c = '\x0d' then ['\\', 'r']
  else if c = '\t' then ['\\', 't']
  else if c = '\x08' then ['\\', 'b']
  else if c = '\x0c' then ['\\', 'f']
  else if c.toNat < 0x20 then
    let ds := Number.digits 16 c.toNat
    ['\\', 'u'] ++ List.replicate (4 - ds.length) '0' ++ ds
  else [c]

/-- A text between quotes. -/
def quotedText (s : Option String) : List Char :=
  ['"'] ++ (s.getD "").toList.flatMap escapedChar ++ ['"']

/-- Parts with commas between them. -/
def commaSeparated : List (List Char) → List Char
  | [] => []
  | [part] => part
  | part :: parts => part ++ ',' :: commaSeparated parts

mutual

/-- Compact text. -/
def compactChars : Json → List Char
  | null => "null".toList
  | bool b => if b then "true".toList else "false".toList
  | number literal => literal
  | text s => quotedText s
  | array items => ['['] ++ commaSeparated (compactItems items) ++ [']']
  | object members => ['\x7b'] ++ commaSeparated (compactMembers members) ++ ['\x7d']

def compactItems : List Json → List (List Char)
  | [] => []
  | item :: items => compactChars item :: compactItems items

def compactMembers : List (Option String × Json) → List (List Char)
  | [] => []
  | (name, value) :: members =>
    (quotedText name ++ ':' :: compactChars value) :: compactMembers members

end

/-- Compact text. -/
def compact (j : Json) : String := String.ofList (compactChars j)

/-- A new line at a depth. -/
def newLine (depth : Nat) : List Char := '\n' :: List.replicate (2 * depth) ' '

/-- Parts between brackets, each on a line of its own. -/
def bracketed (opening closing : Char) (depth : Nat) (parts : List (List Char)) : List Char :=
  if parts.isEmpty then [opening, closing]
  else
    [opening] ++ commaSeparated (parts.map fun part => newLine (depth + 1) ++ part) ++
      newLine depth ++ [closing]

mutual

/-- Spread text, inside something at the given depth. -/
def spreadChars (depth : Nat) : Json → List Char
  | array items => bracketed '[' ']' depth (spreadItems (depth + 1) items)
  | object members => bracketed '\x7b' '\x7d' depth (spreadMembers (depth + 1) members)
  | other => compactChars other

def spreadItems (depth : Nat) : List Json → List (List Char)
  | [] => []
  | item :: items => spreadChars depth item :: spreadItems depth items

def spreadMembers (depth : Nat) : List (Option String × Json) → List (List Char)
  | [] => []
  | (name, value) :: members =>
    (quotedText name ++ ':' :: ' ' :: spreadChars depth value) :: spreadMembers depth members

end

/-- Spread text. -/
def spread (j : Json) : String := String.ofList (spreadChars 0 j)

end CimBroker.Json
