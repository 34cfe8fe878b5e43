import RubyFormat.Draft.Inspect
import RubyFormat.Draft.Settle
import RubyFormat.Layout.Basic

/-!
# From a hand-written tree to its document

A draft without a fault is laid out as the tree that it settles as.  A tree is laid out as its draft
is, and `Node.toDoc_eq` says so; the faults of a tree are those of its draft.
-/

namespace RubyFormat

namespace Draft

/-- The document of a draft below the given nodes, whatever its faults. -/
def layout (options : Options) (parents : List Draft) (draft : Draft) : Doc :=
  draft.settle.layout options (parents.map settle)

/-- The document of a draft below the given nodes. -/
def toDoc (options : Options) (parents : List Draft) (draft : Draft) : Except Fault Doc := do
  (draft.inspect options parents .node []).verdict
  return draft.layout options parents

end Draft

namespace Node

/-- The document of a whole tree. -/
def toDoc (options : Options) (node : Node) : Except Fault Doc := do
  (node.toDraft.inspect options [] .node []).verdict
  return node.layout options []

/-- A tree and its draft have the same document. -/
theorem toDoc_eq (options : Options) (node : Node) :
    node.toDoc options = node.toDraft.toDoc options [] := by
  simp [toDoc, Draft.toDoc, Draft.layout, Draft.settle_toDraft]

end Node

end RubyFormat
