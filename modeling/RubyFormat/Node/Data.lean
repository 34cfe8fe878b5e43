import RubyFormat.Data.Basic
import RubyFormat.Node.Field

/-!
# Nodes as data

A node is dumped as an object: its tag under `_type`, its place under `pos`, and then its fields
under their names.  Two trees are the same when their dumps without places are equal.
-/

namespace RubyFormat

/-- A place as the list of its line and column. -/
def Pos.toData (pos : Pos) : Data :=
  .list [.int pos.line, .int pos.col]

/-- A field whose nodes are dumped already. -/
def Field.toData : Field Data → Data
  | .text value => .text value
  | .node value => value
  | .optional value => value.getD .null
  | .list value => .list value
  | .optionalList value => (value.map .list).getD .null

namespace Node

/-- The dump of a node, with or without places. -/
def dump (places : Bool) : Node → Data :=
  fold fun node fields =>
    .object (("_type", .text node.kind.tag) ::
      (if places then [("pos", node.pos.toData)] else [])
        ++ fields.map fun field => (field.1, field.2.toData))

/-- The dump of a node. -/
def toData (node : Node) : Data :=
  node.dump true

/-- Whether two trees are the same when places do not count. -/
def same (left right : Node) : Bool :=
  left.dump false == right.dump false

end Node

end RubyFormat
