/-
# CimBroker.Markup.Document — documents as trees

The tokens of a document nest: every opening tag has its closing tag of the same name, there is one
outermost element, and outside it there is nothing but white space and asides.  Text and literal
sections that follow one another are one text.

*Namespaces.* An attribute whose prefix is `xmlns` binds the rest of its name to an address for the
element and everything in it.  A prefix has to be bound where it is used, an element binds no prefix
twice, and no two of its attributes have the same name once prefixes are replaced by addresses.  The
prefix `xml` stands for an address that no other prefix may be bound to.  It is for attributes,
where it is always bound; an element cannot have it, even where a document binds it.

`Node.ofText?` reads a document, by putting one token after another where the
`Draft` stands (`Draft.step?`).  Comments and instructions leave no trace in the tree, and positions
in the text are left out.
-/
import CimBroker.Markup.Content
import CimBroker.Markup.Token

namespace CimBroker.Markup

/-- An attribute of an element. -/
structure Attribute where
  name : QName
  value : List Char
  deriving Repr

/-- A node of a document. -/
inductive Node where
  | element (name : QName) (attributes : List Attribute) (children : List Node)
  | text (content : List Char)
  | aside
  deriving Repr, Inhabited

/-- The addresses that prefixes are bound to, innermost first. -/
abbrev Scope := List (List Char × List Char)

/-- The address of the prefix `xml`. -/
def xmlAddress : List Char := "http://www.w3.org/XML/1998/namespace".toList

/-- The address that stands for bindings themselves and cannot be bound. -/
def bindingAddress : List Char := "http://www.w3.org/2000/xmlns/".toList

/-- The address that a prefix is bound to. -/
def Scope.address? (scope : Scope) (space : List Char) : Option (List Char) :=
  (scope.find? fun binding => binding.1 == space).map Prod.snd

/-- What attributes come to: the bindings they make and the attributes they leave. -/
structure Declared where
  bindings : Scope := []
  attributes : List Attribute := []

/-- Adds an attribute to what attributes come to. -/
def Declared.add? (d : Declared) (name : QName) (raw : List Char) : Option Declared := do
  let value ← attribute? raw
  let isXml := value == xmlAddress
  if name.space = "xmlns".toList then
    if value = bindingAddress || isXml != (name.base == "xml".toList) ||
        d.bindings.any fun binding => binding.1 == name.base then none
    else if isXml then return d
    else return { d with bindings := d.bindings ++ [(name.base, value)] }
  else if name.base = "xmlns".toList then
    if isXml || value == bindingAddress then none else return d
  else return { d with attributes := d.attributes ++ [⟨name, value⟩] }

/-- The name of an attribute with its prefix replaced by the address; none where the prefix is not
bound. -/
def Attribute.expanded? (scope : Scope) (a : Attribute) : Option (Option (List Char) × List Char) :=
  if a.name.space.isEmpty then some (none, a.name.base)
  else if a.name.space = "xml".toList then some (some xmlAddress, a.name.base)
  else (scope.address? a.name.space).map fun address => (some address, a.name.base)

/-- Whether a list has an element twice. -/
def hasRepeats {α : Type} [BEq α] : List α → Bool
  | [] => false
  | x :: xs => xs.contains x || hasRepeats xs

/-- The scope inside an element and its attributes, if its prefixes and names are in order. -/
def openScope? (outer : Scope) (name : QName) (raw : List (QName × List Char)) :
    Option (Scope × List Attribute) := do
  let declared ← raw.foldlM (fun d entry => d.add? entry.1 entry.2) ({ bindings := [] } : Declared)
  let scope := declared.bindings ++ outer
  let names ← declared.attributes.mapM (Attribute.expanded? scope)
  let isBound := name.space.isEmpty || (scope.address? name.space).isSome
  if name.space = "xmlns".toList || !isBound || hasRepeats names then none
  else return (scope, declared.attributes)

/-- An element that has been opened and not yet closed, with the nodes in it, latest first. -/
structure Frame where
  name : QName
  attributes : List Attribute
  scope : Scope
  inside : List Node

/-- The nodes of an element, latest first, with one more; texts in a row are joined. -/
def addNode (n : Node) (nodes : List Node) : List Node :=
  match n, nodes with
  | .text content, .text before :: rest => .text (before ++ content) :: rest
  | n, nodes => n :: nodes

/-- A document on its way: the outermost element once it is closed, and the open ones, innermost
first. -/
structure Draft where
  root : Option Node := none
  frames : List Frame := []

namespace Draft

/-- Puts a node where the document stands.  Outside the outermost element only a first element may
be put. -/
def place? (p : Draft) (n : Node) : Option Draft :=
  match p.frames with
  | f :: frames => some { p with frames := { f with inside := addNode n f.inside } :: frames }
  | [] =>
    match n, p.root with
    | .element .., none => some { p with root := some n }
    | _, _ => none

/-- The document with one more token. -/
def step? (p : Draft) : Token → Option Draft
  | .opening name raw isEmpty => do
    let outer := (p.frames.head?.map Frame.scope).getD []
    let (scope, attributes) ← openScope? outer name raw
    if isEmpty then p.place? (.element name attributes [])
    else if p.frames.isEmpty && p.root.isSome then none
    else return { p with frames := ⟨name, attributes, scope, []⟩ :: p.frames }
  | .closing name =>
    match p.frames with
    | f :: frames =>
      if f.name = name then
        ({ p with frames := frames } : Draft).place? (.element f.name f.attributes f.inside.reverse)
      else none
    | [] => none
  | .text raw =>
    if p.frames.isEmpty then (if raw.all isSpace then some p else none)
    else (text? raw).bind fun content => p.place? (.text content)
  | .literal raw => p.place? (.text (literalFrom [] raw))
  | .aside => if p.frames.isEmpty then some p else p.place? .aside

end Draft

/-- The outermost element of a document. -/
def Node.ofText? (document : String) : Option Node := do
  let tokens ← Token.all? document.toList
  let done ← tokens.foldlM Draft.step? { root := none }
  if done.frames.isEmpty then done.root else none

namespace Node

/-- Whether a node is an element whose name, prefix aside, is the given one. -/
def isNamed (name : String) : Node → Bool
  | element q _ _ => q.base == name.toList
  | _ => false

def children : Node → List Node
  | element _ _ inside => inside
  | _ => []

/-- The text that an element starts with. -/
def text? (n : Node) : Option (List Char) :=
  match n.children with
  | .text content :: _ => some content
  | _ => none

/-- The value of an attribute that has no prefix. -/
def attribute? (name : String) : Node → Option (List Char)
  | element _ attributes _ =>
    (attributes.find? fun a => a.name.space.isEmpty && a.name.base == name.toList).map
      Attribute.value
  | _ => none

mutual

/-- A node and everything in it, in the order of the document. -/
def all : Node → List Node
  | element name attributes inside => element name attributes inside :: allIn inside
  | n => [n]

/-- The given nodes and everything in them, in the order of the document. -/
def allIn : List Node → List Node
  | [] => []
  | n :: nodes => all n ++ allIn nodes

end

end Node

end CimBroker.Markup
