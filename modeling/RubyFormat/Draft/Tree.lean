import RubyFormat.Draft.Basic

/-!
# The draft of a tree

Every tree has its draft, which is made of the drafts of the nodes right below.
-/

namespace RubyFormat

/-- A field whose nodes are drafts already. -/
def Field.toDraft : Field Draft → Draft
  | .text value => .text value
  | .node value => value
  | .optional value => value.getD .absent
  | .list value => .list value
  | .optionalList value => (value.map .list).getD .absent

/-- The draft of a tree. -/
def Node.toDraft : Node → Draft :=
  Node.fold fun node fields =>
    .node node.kind node.pos.line node.pos.col
      (fields.map fun field => (field.1, field.2.toDraft))

/-- The draft of a node is made of the drafts of the nodes right below. -/
theorem Node.toDraft_eq (node : Node) :
    node.toDraft = .node node.kind node.pos.line node.pos.col
      (node.fields.map fun field => (field.1, (field.2.map Node.toDraft).toDraft)) := by
  unfold Node.toDraft
  rw [Node.fold_eq]
  simp [Function.comp_def]

end RubyFormat
