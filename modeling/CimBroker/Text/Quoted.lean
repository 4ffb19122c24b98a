/-
# CimBroker.Text.Quoted — texts in double quotes

Messages and diagnostic forms show a text between double quotes so that its ends and its invisible
characters can be seen: a quote, a backslash and the common control characters get a backslash
escape, any other character that cannot be seen on its own is spelled `\u` with its number in
hexadecimal between braces, and every other character stands for itself.

Diagnostic forms of compound values name their kind and then their parts, by position or by label.

`quoted` is the form of a text, and `wrapped`, `labelled` and `optional` are those of compound
values.  There is no reader for these forms.
-/
import CimBroker.Number.Digits
import CimBroker.Text.Invisible

namespace CimBroker.Text

/-- A character spelled by its number in hexadecimal, between braces. -/
def byNumber (c : Char) : List Char :=
  ['\\', 'u', '\x7b'] ++ Number.digits 16 c.toNat ++ ['\x7d']

/-- How a character is written inside double quotes. -/
def quotedChar (c : Char) : List Char :=
  if c = '"' then ['\\', '"']
  else if c = '\\' then ['\\', '\\']
  else if c = '\n' then ['\\', 'n']
  else if c = '\x0d' then ['\\', 'r']
  else if c = '\t' then ['\\', 't']
  else if c.toNat = 0 then ['\\', '0']
  else if c.toNat < 0x20 ∨ c.toNat = 0x7F ∨ isInvisible c then byNumber c
  else [c]

/-- A text in double quotes. -/
def quoted (s : String) : String :=
  String.ofList (['"'] ++ s.toList.flatMap quotedChar ++ ['"'])

/-- A compound value in diagnostic form: its kind and its one part. -/
def wrapped (kind part : String) : String :=
  kind ++ "(" ++ part ++ ")"

/-- A compound value in diagnostic form: its kind and its labelled parts. -/
def labelled (kind : String) (parts : List (String × String)) : String :=
  kind ++ " \x7b " ++ ", ".intercalate (parts.map fun part => part.1 ++ ": " ++ part.2) ++ " \x7d"

/-- A value that may be missing, in diagnostic form. -/
def optional : Option String → String
  | none => "None"
  | some part => wrapped "Some" part

end CimBroker.Text
