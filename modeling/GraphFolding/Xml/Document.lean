/-
Documents as they are read: a tree of elements, text, comments and instructions, in which
every name is kept as it was written and with the namespace it stands for.

* `Binding`, `Scope` — the namespaces bound at an element, its own before inherited ones;
* `Node`, `Tag`, `Attribute` — the tree.
-/
import GraphFolding.Xml.Name
namespace GraphFolding.Xml

/-- A prefix, or the lack of one, bound to a namespace. -/
structure Binding where
  name : Option String
  uri : String
  deriving DecidableEq, Repr

/-- The bindings in force at an element, its own ones first. -/
abbrev Scope := List Binding

namespace Scope

/-- The namespace of the prefix `xml`. -/
def xmlUri : String := "http://www.w3.org/XML/1998/namespace"

/-- The namespace of `xmlns`. -/
def xmlnsUri : String := "http://www.w3.org/2000/xmlns/"

/-- The namespace that a name is bound to. -/
def uri? (scope : Scope) (name : Option String) : Option String :=
  (scope.find? (·.name = name)).map (·.uri)

/-- The prefix of the first binding of a namespace; the default binding has none. -/
def prefixFor? (scope : Scope) (uri : String) : Option String :=
  (scope.find? (·.uri = uri)).bind (·.name)

/-- Whether a name is bound. -/
def binds (scope : Scope) (name : Option String) : Bool := scope.any (·.name = name)

/-- Own bindings and the inherited ones that they do not hide. -/
def extend (own inherited : Scope) : Scope :=
  if own.isEmpty then inherited
  else inherited.foldl (fun scope b => if scope.binds b.name then scope else scope ++ [b]) own

end Scope

/-- An attribute: its written name, its namespace and its value. -/
structure Attribute where
  written : QName
  uri : Option String
  value : String
  deriving DecidableEq, Repr

/-- The start tag of an element: its written name, its namespace, the bindings in force and
its attributes in order. -/
structure Tag where
  written : QName
  uri : Option String
  scope : Scope
  attributes : List Attribute
  deriving DecidableEq, Repr

/-- A node of a document. -/
inductive Node where
  | element (tag : Tag) (children : List Node)
  | text (value : String)
  | comment (value : String)
  | instruction (target : String) (value : Option String)
  deriving Repr

mutual

/-- Whether a node is or holds an element with a local name. -/
def Node.hasNamed (localName : String) : Node → Bool
  | .element tag children => tag.written.localPart = localName || anyNamed localName children
  | _ => false

/-- Whether one of several nodes is or holds an element with a local name. -/
def anyNamed (localName : String) : List Node → Bool
  | [] => false
  | node :: rest => node.hasNamed localName || anyNamed localName rest

end

/-- Whether a node is an element. -/
def Node.isElement : Node → Bool
  | .element .. => true
  | _ => false

end GraphFolding.Xml
