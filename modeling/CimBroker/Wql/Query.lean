/-
# CimBroker.Wql.Query — the query language

Three kinds of query are understood:

* `SELECT … FROM class`, and with `WHERE name = literal AND …` the instances of a class whose named
  properties have the given texts;
* `ASSOCIATORS OF` a path between braces, `WHERE ResultClass = class`: the objects of a class that
  are associated with the object at the path;
* `REFERENCES OF` a path in the same form: the objects of a class that refer to the path.

Keywords may be written in either case.  A condition is cut at its first equals sign; the literal
after it may stand between quotes of either kind and is unescaped.

`Query.parse` is the reader.  It looks for words and not for a grammar: what it takes beyond the
documented subset is said in `CimBroker.Proofs.QueryReading`.
-/
import CimBroker.Error
import CimBroker.Text.Search
import CimBroker.Wql.Literal

namespace CimBroker.Wql

/-- A query. -/
inductive Query where
  | select (className : String) (filters : List (String × String))
  | associators (path resultClass : String)
  | references (path resultClass : String)
  deriving DecidableEq, Repr

namespace Query

/-- A literal without the quotes around it. -/
def unquoted (literal : List Char) : List Char :=
  match Text.between? '\'' literal with
  | some inner => inner
  | none =>
    match Text.between? '"' literal with
    | some inner => inner
    | none => literal

/-- The name and the value of a condition. -/
def condition? (text : List Char) : Option (String × String) :=
  (Text.cutAtChar? '=' text).map fun cut =>
    (String.ofList (Text.trim cut.1),
      String.ofList (unescapeChars (unquoted (Text.trim cut.2))))

/-- The conditions of a query, separated by the word `AND` between spaces. -/
def conditions? (text : List Char) : Option (List (String × String)) :=
  (Text.pieces ' ' "AND ".toList text).mapM fun piece => condition? (Text.trim piece)

/-- The path between braces and the result class after it. -/
def pathAndClass? (text : List Char) : Option (String × String) := do
  match text with
  | '\x7b' :: rest => do
    let (path, clause) ← Text.cutAtChar? '\x7d' rest
    let (name, value) ← condition? (← Text.afterKeyword? "WHERE" (Text.trim clause))
    if Text.sameWord name "ResultClass" then
      return (String.ofList (Text.trim path), value)
    else none
  | _ => none

/-- A selection, after its first word. -/
def selection? (text : List Char) : Option Query := do
  let (_, afterFrom) ← Text.cutAt? " FROM ".toList text
  let source := Text.trim afterFrom
  let className := String.ofList (source.takeWhile fun c => !Text.isBlank c)
  let clause := Text.trim (source.dropWhile fun c => !Text.isBlank c)
  if clause.isEmpty then return select className []
  else return select className (← conditions? (← Text.afterKeyword? "WHERE" clause))

/-- The query that a text spells. -/
def ofText? (wql : String) : Option Query :=
  let text := Text.trim wql.toList
  match Text.afterKeyword? "ASSOCIATORS OF" text with
  | some rest => (pathAndClass? rest).map fun found => associators found.1 found.2
  | none =>
    match Text.afterKeyword? "REFERENCES OF" text with
    | some rest => (pathAndClass? rest).map fun found => references found.1 found.2
    | none => (Text.afterKeyword? "SELECT" text).bind selection?

/-- The query that a text spells, or the error that it is not understood. -/
def parse (wql : String) : Except Error Query :=
  match ofText? wql with
  | some q => .ok q
  | none => .error (.unsupportedQuery wql)

end Query

end CimBroker.Wql
