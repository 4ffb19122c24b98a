/-
# CimBroker.Wql.Literal — text inside a query

Inside quotes a backslash makes the next character stand for itself.  Escaping puts one before every
backslash and every single quote; unescaping takes it away again, whatever follows it.

`unescapeChars_escapeChars` says that the one undoes the other.  Nothing but the two characters is
escaped, so the word that the reader cuts conditions apart at stays as it is.
-/

namespace CimBroker.Wql

/-- A text as it stands between single quotes, character by character. -/
def escapeChars : List Char → List Char
  | [] => []
  | c :: cs => if c = '\\' ∨ c = '\'' then '\\' :: c :: escapeChars cs else c :: escapeChars cs

/-- A text as it stands between single quotes. -/
def escape (s : String) : String := String.ofList (escapeChars s.toList)

/-- What a literal stands for; a backslash at its end stands for nothing. -/
def unescapeChars : List Char → List Char
  | [] => []
  | ['\\'] => []
  | '\\' :: c :: cs => c :: unescapeChars cs
  | c :: cs => c :: unescapeChars cs

/-- A character other than a backslash stands for itself. -/
theorem unescapeChars_cons {c : Char} (cs : List Char) (hc : c ≠ '\\') :
    unescapeChars (c :: cs) = c :: unescapeChars cs :=
  unescapeChars.eq_4 c cs (fun e _ => hc e) fun _ _ e _ => hc e

/-- Unescaping takes back what escaping did. -/
theorem unescapeChars_escapeChars (cs : List Char) : unescapeChars (escapeChars cs) = cs := by
  induction cs with
  | nil => rfl
  | cons c cs ih =>
    by_cases h : c = '\\' ∨ c = '\''
    · simp [escapeChars, h, unescapeChars, ih]
    · rw [escapeChars, if_neg h]
      have hb : c ≠ '\\' := fun e => h (Or.inl e)
      rw [unescapeChars_cons (escapeChars cs) hb, ih]

end CimBroker.Wql
