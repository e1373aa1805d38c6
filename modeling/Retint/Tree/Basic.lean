/-!
# Syntax trees

A node covers a half-open range of bytes and has a kind, named by the grammar. Named nodes are
those of the grammar's rules; the others are its tokens, and their kind is the token's own text.
A child may occupy a field of its parent, which then records the range of that child.
-/

namespace Retint

/-- A half-open range of bytes. -/
structure Range where
  /-- The offset of its first byte. -/
  start : Nat
  /-- The offset after its last byte. -/
  stop : Nat
  deriving DecidableEq, Repr

/-- The fields by which the rules of highlighting tell a node's children apart. -/
inductive Field where
  | name
  | pattern
  | function
  | declarator
  | key
  deriving DecidableEq, Repr

/-- A node without its children. -/
structure Node where
  /-- The grammar's name for it, or its text if it is a token. -/
  kind : String
  /-- Whether it stands for a rule of the grammar. -/
  named : Bool
  /-- The bytes it covers. -/
  range : Range
  /-- The ranges of the children that occupy a field. -/
  fields : List (Field × Range)
  deriving DecidableEq, Repr

namespace Node

/-- The range of the child in a field. -/
def field? (n : Node) (f : Field) : Option Range := n.fields.lookup f

/-- Whether the node covers no byte. -/
def isEmpty (n : Node) : Bool := n.range.stop ≤ n.range.start

end Node

/-- A node with its children, from left to right. -/
inductive SyntaxTree where
  | node (info : Node) (children : List SyntaxTree)

namespace SyntaxTree

/-- The root without its children. -/
def info : SyntaxTree → Node
  | node info _ => info

/-- The trees below the root. -/
def children : SyntaxTree → List SyntaxTree
  | node _ children => children

mutual

/-- The number of nodes. -/
def size : SyntaxTree → Nat
  | node _ children => sizeAll children + 1

/-- The number of nodes of several trees. -/
def sizeAll : List SyntaxTree → Nat
  | [] => 0
  | t :: later => size t + sizeAll later

end

/-- The trees of consecutive items at one depth or below, and the items that are left. The bound
is on the number of items. -/
def ofDepths (bound depth : Nat) (items : List (Nat × Node)) :
    List SyntaxTree × List (Nat × Node) :=
  match bound, items with
  | 0, _ => ([], items)
  | _ + 1, [] => ([], [])
  | bound + 1, (d, info) :: rest =>
    if d = depth then
      let (children, rest) := ofDepths bound (depth + 1) rest
      let (siblings, rest) := ofDepths bound depth rest
      (node info children :: siblings, rest)
    else ([], (d, info) :: rest)

/-- The tree whose nodes are listed in preorder, each with its depth. -/
def ofPreorder? (items : List (Nat × Node)) : Option SyntaxTree :=
  match ofDepths items.length 0 items with
  | ([tree], []) => some tree
  | _ => none

end SyntaxTree

end Retint
