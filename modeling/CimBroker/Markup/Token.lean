/-
# CimBroker.Markup.Token — the tokens of markup

A document is a row of tokens: opening and closing tags, text, literal sections, and comments and
instructions, which say nothing here.  Tokens keep character data as it is written.  Nothing that a
token is made of may hold a character that markup does not admit, attributes are separated by white
space, and a comment holds no two hyphens in a row.

`Token.first?` reads one token in front of a rest, and `Token.all?` those of a document, after the
declaration with which it may start.  A declaration of a document type is refused.  Whether tags
match is left to `CimBroker.Markup.Document`.
-/
import CimBroker.Markup.Name

namespace CimBroker.Markup

/-- A token. -/
inductive Token where
  /-- An opening tag, with its attributes as they are written. -/
  | opening (name : QName) (attributes : List (QName × List Char)) (isEmpty : Bool)
  | closing (name : QName)
  | text (raw : List Char)
  | literal (raw : List Char)
  /-- A comment or an instruction. -/
  | aside
  deriving Repr

namespace Token

/-- What follows a word that a text starts with. -/
def after? (word : String) (input : List Char) : Option (List Char) :=
  if word.toList.isPrefixOf input then some (input.drop word.toList.length) else none

/-- The characters before the first occurrence of a word, all of which are admitted, and what
follows the word. -/
def upTo? (word : String) : List Char → Option (List Char × List Char)
  | [] => none
  | c :: input =>
    match after? word (c :: input) with
    | some rest => some ([], rest)
    | none =>
      if isAdmitted c then (upTo? word input).map fun read => (c :: read.1, read.2) else none

/-- What follows an equals sign, white space around it aside. -/
def afterEquals? (input : List Char) : Option (List Char) :=
  match skipSpaces input with
  | '=' :: rest => some (skipSpaces rest)
  | _ => none

/-- A value between quotes of either kind. -/
def quotedValue? : List Char → Option (List Char × List Char)
  | q :: input =>
    if q = '"' ∨ q = '\'' then
      let value := input.takeWhile fun c => c != q && c != '<'
      match input.drop value.length with
      | c :: rest => if c = q ∧ value.all isAdmitted then some (value, rest) else none
      | [] => none
    else none
  | [] => none

/-- An attribute: a name, an equals sign and a value between quotes. -/
def attribute? (input : List Char) : Option ((QName × List Char) × List Char) := do
  let (name, rest) ← qname? input
  let (value, rest) ← quotedValue? (← afterEquals? rest)
  return ((name, value), rest)

/-- The attributes of an opening tag and its end, and whether the tag is closed at once. -/
def attributes? : Nat → List Char → Option (List (QName × List Char) × Bool × List Char)
  | 0, _ => none
  | fuel + 1, input =>
    match skipSpaces input with
    | '/' :: '>' :: rest => some ([], true, rest)
    | '>' :: rest => some ([], false, rest)
    | rest =>
      if (input.head?.map isSpace).getD false then do
        let (found, rest) ← attribute? rest
        let (others, isEmpty, rest) ← attributes? fuel rest
        return (found :: others, isEmpty, rest)
      else none

/-- The rest of a comment. -/
def comment? (input : List Char) : Option (List Char) := do
  let (said, rest) ← upTo? "-->" input
  if (upTo? "--" said).isSome || said.getLast? == some '-' then none else some rest

/-- The rest of an instruction.  The declaration of a document is none. -/
def instruction? (input : List Char) : Option (List Char) := do
  if (after? "xml " input).isSome then none
  else
    let (_, rest) ← name? input
    let (_, rest) ← upTo? "?>" (skipSpaces rest)
    return rest

/-- The token at the start of a text. -/
def first? (input : List Char) : Option (Token × List Char) :=
  match input with
  | '<' :: '!' :: '-' :: '-' :: rest => (comment? rest).map fun rest => (aside, rest)
  | '<' :: '!' :: rest => do
    let (raw, rest) ← upTo? "]]>" (← after? "[CDATA[" rest)
    return (literal raw, rest)
  | '<' :: '?' :: rest => (instruction? rest).map fun rest => (aside, rest)
  | '<' :: '/' :: rest => do
    let (name, rest) ← qname? rest
    match skipSpaces rest with
    | '>' :: rest => return (closing name, rest)
    | _ => none
  | '<' :: rest => do
    let (name, rest) ← qname? rest
    let (attributes, isEmpty, rest) ← attributes? (rest.length + 1) rest
    return (opening name attributes isEmpty, rest)
  | input =>
    let raw := input.takeWhile (· != '<')
    if raw.isEmpty || (upTo? "]]>" raw).isSome || !raw.all isAdmitted then none
    else some (text raw, input.drop raw.length)

/-- The tokens of a text; every token takes at least one character. -/
def allWithin? : Nat → List Char → Option (List Token)
  | _, [] => some []
  | 0, _ => none
  | fuel + 1, input => do
    let (token, rest) ← first? input
    return token :: (← allWithin? fuel rest)

/-- The rest of a document after its declaration: a version, and then perhaps an encoding and a word
on standing alone. -/
def afterDeclaration? (input : List Char) : Option (List Char) := do
  let step (isRequired : Bool) (word : String) (input : List Char) : Option (List Char) :=
    if (after? word input).isSome then
      (attribute? input).map Prod.snd
    else if isRequired then none else some input
  let spaced (input : List Char) : Option (List Char) :=
    if (input.head?.map isSpace).getD true || (after? "?>" input).isSome then
      some (skipSpaces input)
    else none
  let rest ← spaced (← step true "version" (← spaced input))
  let rest ← if (after? "encoding" rest).isSome then spaced (← step false "encoding" rest)
    else some rest
  after? "?>" (skipSpaces (← step false "standalone" rest))

/-- The tokens of a document.  A byte order mark and a declaration at its start are passed over. -/
def all? (document : List Char) : Option (List Token) := do
  let document := match document with
    | '\uFEFF' :: rest => rest
    | other => other
  let body ← match after? "<?xml " document with
    | some _ => afterDeclaration? (document.drop 5)
    | none => some document
  allWithin? body.length body

end Token

end CimBroker.Markup
