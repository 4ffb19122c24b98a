/-
# CimBroker.Markup.Escape — text inside markup

Four characters have a meaning of their own in markup and are written as entities: the ampersand,
the two angle brackets and the double quote.  Every other character stands for itself.

`escape` is the whole of it.  What is read of escaped text is the matter of
`CimBroker.Proofs.EscapedText`, and what comes back is not always the text.
-/

namespace CimBroker.Markup

/-- How a character is written in markup. -/
def escapedChar (c : Char) : List Char :=
  if c = '&' then "&amp;".toList
  else if c = '<' then "&lt;".toList
  else if c = '>' then "&gt;".toList
  else if c = '"' then "&quot;".toList
  else [c]

/-- A text as it is written in markup. -/
def escape (s : String) : String := String.ofList (s.toList.flatMap escapedChar)

end CimBroker.Markup
