import RubyFormat.Draft.Message

/-!
# Trees and their drafts

Back from a draft there is the tree nearest to it, in which what a field is not made for is left out;
`settle_toDraft` says that the draft of a tree settles as that tree.

A block that only sends a message to its parameter is known by the message.  Where a draft has such a
block in a shape that no tree has, the tree has the plainest block that sends the same message.
-/

namespace RubyFormat

/-- The plainest block that sends a message to its parameter and does nothing else. -/
def Node.sending (pos : Pos) (message : String) : Node :=
  .braceBlock pos
    (some (.blockVar pos (some (.params pos [.name .ident pos "it"] [] none [] [] none none))))
    [.call pos (.varRef pos (.name .ident pos "it")) "." (.name .ident pos message) none []]

/-- The call with a block that sends the message, unless its own block sends one already. -/
def Node.sendingAtLeast (message : String) : Node → Node
  | .methodAddBlock pos callee block =>
      .methodAddBlock pos callee
        (if block.soleMessage?.isSome then block else .sending block.pos message)
  | node => node

/-- What is left of a draft when only texts and nodes count. -/
inductive Part where
  | absent
  | text (value : String)
  | node (value : Node)
  | list (value : List Node)
  | other
  deriving Repr

namespace Part

/-- The node of a part; anything else counts as a node of no particular kind. -/
def toNode : Part → Node
  | .node value => value
  | _ => .bare Pos.start

/-- The nodes of a part that has items; the items of a text count as nodes of no particular kind. -/
def toList : Part → List Node
  | .list value => value
  | .text value => List.replicate value.length (.bare Pos.start)
  | _ => []

/-- A part as the content of a field. -/
def toField : FieldSort → Part → Field Node
  | .text, .text value | .operator, .text value => .text value
  | .text, _ | .operator, _ => .text ""
  | .node, part => .node part.toNode
  | .optional, .absent | .rest, .absent | .parenthesised, .absent => .optional none
  | .optional, part | .rest, part | .parenthesised, part => .optional (some part.toNode)
  | .list, part => .list part.toList
  | .optionalList, .absent => .optionalList none
  | .optionalList, part => .optionalList (some part.toList)

/-- The contents of the fields of a schema. -/
def toFields (schema : List (String × FieldSort)) (parts : List Part) : List (Field Node) :=
  schema.zipWith (fun entry part => part.toField entry.2) parts

end Part

namespace Draft

mutual

/-- The part of a draft that counts as a tree. -/
def part : Draft → Part
  | .absent => .absent
  | .text value => .text value
  | .list items => .list ((partsOfItems items).map Part.toNode)
  | .node kind line col fields =>
      let pos : Pos := ⟨line.toNat, col.toNat⟩
      let tree := (Node.ofFields? pos kind (Part.toFields kind.schema (partsOfFields fields))).getD
        (.bare pos)
      .node (match blockMessage? (node kind line col fields) with
        | some message => tree.sendingAtLeast message
        | none => tree)
  | .truth _ | .number _ => .other

/-- The parts of the items of a list. -/
def partsOfItems : List Draft → List Part
  | [] => []
  | item :: rest => part item :: partsOfItems rest

/-- The parts of the fields of a node. -/
def partsOfFields : List (String × Draft) → List Part
  | [] => []
  | (_, content) :: rest => part content :: partsOfFields rest

end

/-- The tree nearest to a draft: what a field is not made for is left out. -/
def settle (draft : Draft) : Node :=
  draft.part.toNode

@[simp]
theorem partsOfItems_eq_map (items : List Draft) : partsOfItems items = items.map part := by
  induction items with
  | nil => rfl
  | cons item rest ih => simp [partsOfItems, ih]

@[simp]
theorem partsOfFields_eq_map (fields : List (String × Draft)) :
    partsOfFields fields = fields.map fun field => part field.2 := by
  induction fields with
  | nil => rfl
  | cons field rest ih => simp [partsOfFields, ih]

end Draft

/-! ## The draft of a tree settles as the tree -/

/-- A field that holds what it is made for. -/
inductive Field.Fits : FieldSort → Field Node → Prop where
  | text (value : String) : Fits .text (.text value)
  | operator (value : String) : Fits .operator (.text value)
  | node (value : Node) : Fits .node (.node value)
  | optional (value : Option Node) : Fits .optional (.optional value)
  | rest (value : Option Node) : Fits .rest (.optional value)
  | list (value : List Node) : Fits .list (.list value)
  | optionalList (value : Option (List Node)) : Fits .optionalList (.optionalList value)

namespace Draft

/-- A list of nodes settles as itself if every one of them does. -/
theorem map_toNode_part {nodes : List Node}
    (below : ∀ child ∈ nodes, child.toDraft.part = .node child) :
    nodes.map (fun child => child.toDraft.part.toNode) = nodes := by
  conv => rhs; rw [← List.map_id nodes]
  exact List.map_congr_left fun child mem => by simp [below child mem, Part.toNode]

/-- A field that fits settles as itself if every node in it does. -/
theorem toField_part {sort : FieldSort} {field : Field Node} (fits : Field.Fits sort field)
    (below : ∀ child ∈ field.toList, child.toDraft.part = .node child) :
    (field.map Node.toDraft).toDraft.part.toField sort = field := by
  cases fits with
  | text value => simp [Field.map, Field.toDraft, part, Part.toField]
  | operator value => simp [Field.map, Field.toDraft, part, Part.toField]
  | node value => simp_all [Field.map, Field.toDraft, Field.toList, Part.toField, Part.toNode]
  | optional value =>
      cases value <;>
        simp_all [Field.map, Field.toDraft, Field.toList, part, Part.toField, Part.toNode]
  | rest value =>
      cases value <;>
        simp_all [Field.map, Field.toDraft, Field.toList, part, Part.toField, Part.toNode]
  | list value =>
      have := map_toNode_part below
      simp_all [Field.map, Field.toDraft, Field.toList, part, Part.toField, Part.toList,
        Function.comp_def]
  | optionalList value =>
      cases value with
      | none => simp [Field.map, Field.toDraft, part, Part.toField]
      | some value =>
          have := map_toNode_part below
          simp_all [Field.map, Field.toDraft, Field.toList, part, Part.toField, Part.toList,
            Function.comp_def]

/-- The fields of a node settle as themselves if every node right below does. -/
theorem toFields_parts {node : Node}
    (below : ∀ child ∈ node.children, child.toDraft.part = .node child) :
    Part.toFields node.kind.schema
        (node.fields.map fun field => (field.2.map Node.toDraft).toDraft.part) =
      node.fields.map (·.2) := by
  cases node <;>
    simp only [Node.kind, Kind.schema, Node.fields, Part.toFields, List.map, List.zipWith,
      List.cons.injEq, and_true] <;>
    and_intros <;>
    exact toField_part (by constructor) fun child mem =>
      below child (by simp [Node.children, Node.fields, mem])

/-- The message that the draft of a call with a block shows is one that its own block sends. -/
theorem sendingAtLeast_of_toDraft {node : Node} {message : String}
    (found : node.toDraft.blockMessage? = some message) : node.sendingAtLeast message = node := by
  cases node with
  | methodAddBlock pos callee block =>
    rw [Node.toDraft_eq] at found
    simp only [Node.kind, Node.fields, List.map_cons, List.map_nil, Field.map, Field.toDraft,
      blockMessage?] at found
    split at found
    · rename_i read
      obtain ⟨word, _, sent⟩ := soleMessage?_of_toDraft read
      simp [Node.sendingAtLeast, sent]
    · cases found
  | _ => rfl

/-- All of the draft of a tree counts. -/
theorem part_toDraft (node : Node) : node.toDraft.part = .node node := by
  induction node using Node.induction_children with
  | step node ih =>
    have sent := @sendingAtLeast_of_toDraft node
    rw [Node.toDraft_eq] at sent ⊢
    rw [part]
    simp only [partsOfFields_eq_map, List.map_map, Function.comp_def, toFields_parts ih,
      Int.toNat_natCast]
    rw [Node.ofFields?_fields]
    split
    · rename_i found
      exact congrArg Part.node (sent found)
    · rfl

/-- The draft of a tree settles as the tree. -/
theorem settle_toDraft (node : Node) : node.toDraft.settle = node := by
  simp [settle, part_toDraft, Part.toNode]

end Draft

end RubyFormat
