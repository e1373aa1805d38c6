import Retint.Settings.Basic
import Retint.Tree.Session

/-!
# Listed trees

A grammar hands over a tree as a JSON array of its nodes in preorder. A node is an array of its
depth, its kind, zero or one for a token or a rule, and the two ends of its range; where children of
it occupy fields, an object with their ranges follows. The table of a grammar's symbols is an array
of pairs of a name or null and zero or one.
-/

namespace Retint

open Json (Value)

/-- The name of a field in a listed tree. -/
def Field.written : Field → String
  | .name => "name"
  | .pattern => "pattern"
  | .function => "function"
  | .declarator => "declarator"
  | .key => "key"

/-- Every field once. -/
def Field.all : List Field := [.name, .pattern, .function, .declarator, .key]

namespace Json.Value

/-- A truth value that is written as zero or one. -/
def toBit? (v : Value) : Option Bool := (toUInt64? v).map (· != 0)

/-- A range that is written as an array of its two ends. -/
def toRange? : Value → Option Range
  | .array [start, stop] => return ⟨← start.toUInt64?, ← stop.toUInt64?⟩
  | _ => none

/-- A field and its range. -/
def toField? : Option Text × Value → Option (Field × Range)
  | (key, v) => do
    let field ← Field.all.find? fun f => key = some f.written.toList
    return (field, ← v.toRange?)

/-- A node with its depth. -/
def toListedNode? : Value → Option (Nat × Node)
  | .array (depth :: .string (some kind) :: named :: start :: stop :: more) => do
    let fields ← match more with
      | [] => some []
      | [.object members] => members.mapM toField?
      | _ => none
    return (← depth.toUInt64?,
      ⟨String.ofList kind, ← named.toBit?, ⟨← start.toUInt64?, ← stop.toUInt64?⟩, fields⟩)
  | _ => none

/-- A symbol of a grammar. -/
def toSymbol? : Value → Option (Option String × Bool)
  | .array [.null, named] => return (none, ← named.toBit?)
  | .array [.string (some name), named] => return (some (String.ofList name), ← named.toBit?)
  | _ => none

end Json.Value

/-- The tree that a value lists. -/
def SyntaxTree.ofValue? : Value → Option SyntaxTree
  | .array nodes => (nodes.mapM Value.toListedNode?).bind ofPreorder?
  | _ => none

/-- The table of symbols that a value lists. -/
def SymbolTable.ofValue? : Value → Option SymbolTable
  | .array symbols => symbols.mapM Value.toSymbol?
  | _ => none

end Retint
