import RubyFormat.Attribute
import RubyFormat.Draft.Layout

/-!
# Cursors

A cursor stands on a node of a hand-written tree and knows the nodes above it, nearest first.  It
goes down by steps, and every node that it passes on the way is then above it.  A way has to end on
a node.  A cursor goes through the tree of a source on its draft.
-/

namespace RubyFormat

/-- A node of a tree with the nodes above it, nearest first. -/
structure Cursor where
  focus : Draft
  parents : List Draft
  deriving Repr

/-- What a way down can lead to. -/
inductive Item where
  | content (value : Draft)
  | place (line col : Int)
  /-- A method, bound to what it was found on. -/
  | method (sort : MethodSort) (owner : Item)
  /-- Something that belongs to no single object, by the name of what it is. -/
  | shared (typeName : String)
  deriving Repr

namespace Item

/-- The name of what an item is, as messages give it. -/
def typeName : Item → String
  | .content value => value.typeName
  | .place _ _ => "Pos"
  | .method sort _ => sort.typeName
  | .shared typeName => typeName

/-- The parts of a number under their names. -/
def part? (name : String) (value : Int) : Option Item :=
  if name = "real" ∨ name = "numerator" then some (.content (.number value))
  else if name = "imag" then some (.content (.number 0))
  else if name = "denominator" then some (.content (.number 1))
  else none

/--
What an item has of its own: a node its fields and its place, a place two numbers, a method the
item that it is bound to.  A node also knows the names of its fields, and a parameter list has a
method for its other parameters.
-/
def own? (name : String) : Item → Option Item
  | .content (.node kind line col fields) =>
      if name = "pos" then some (.place line col)
      else if name = "__match_args__" then
        some (.content (.list (("pos" :: fields.map (·.1)).map .text)))
      else if kind = .params ∧ name = "others" then
        some (.method .written (.content (.node kind line col fields)))
      else ((Draft.node kind line col fields).field? name).map .content
  | .content (.number value) => part? name value
  | .content (.truth value) => part? name value.toInt
  | .content _ => none
  | .place line col =>
      if name = "line" then some (.content (.number line))
      else if name = "col" then some (.content (.number col))
      else if name = "__match_args__" then some (.content (.list (["line", "col"].map .text)))
      else none
  | .method _ owner => if name = "__self__" then some owner else none
  | .shared _ => none

/-- What all items of a type have. -/
def attributes : Item → List (String × Attribute)
  | .content (.node _ _ _ _) | .place _ _ => Attribute.ofRecord
  | .content (.list _) => Attribute.ofList
  | .content (.text _) => Attribute.ofText
  | .content (.number _) | .content (.truth _) => Attribute.ofNumber
  | .content .absent => Attribute.ofAbsent
  | .method sort _ => Attribute.ofMethod sort
  | .shared typeName => Attribute.ofShared typeName

/-- The item that an attribute of an item leads to. -/
def ofAttribute (item : Item) : Attribute → Item
  | .method sort => .method sort item
  | .shared typeName => .shared typeName

/-- What an item has under a name. -/
def field? (name : String) (item : Item) : Option Item :=
  (item.own? name).or ((item.attributes.lookup name).map item.ofAttribute)

/-- The item of a list at an index. -/
def item? (items : List Draft) (index : Int) : Option Draft :=
  if index < 0 then
    if items.length + index < 0 then none else items[(items.length + index).toNat]?
  else
    items[index.toNat]?

/-- What a step leads to. -/
def step (item : Item) : Step → Except Fault Item
  | .field name =>
      match item.field? name with
      | some next => .ok next
      | none => .error (.noField item.typeName name)
  | .index value =>
      match item with
      | .content (.list items) =>
          match item? items value with
          | some found => .ok (.content found)
          | none => .error .outOfRange
      | _ => .error (.cannotIndex item.typeName)

/--
The length of an item that has one.  A text or a dictionary that belongs to no single object is not
empty, and more is not asked of it.
-/
def length? : Item → Option Nat
  | .content value => value.items?.map List.length
  | .shared typeName => if typeName = "str" ∨ typeName = "dict" then some 1 else none
  | .place _ _ | .method _ _ => none

end Item

namespace Cursor

/-- The cursor on the root of a tree. -/
def ofRoot (root : Draft) : Cursor :=
  ⟨root, []⟩

/-- The cursor on a node right below. -/
def down (cursor : Cursor) (node : Draft) : Cursor :=
  ⟨node, cursor.focus :: cursor.parents⟩

/-- The nodes from the root to the cursor. -/
def stack (cursor : Cursor) : List Draft :=
  (cursor.focus :: cursor.parents).reverse

/-- The node so many levels up; the cursor's own is at level zero. -/
def ancestor? (cursor : Cursor) (level : Int) : Option Draft :=
  if level < 0 then none else (cursor.focus :: cursor.parents)[level.toNat]?

/-- Go on from an item that the cursor has reached; the whole way is needed for the message. -/
def walk (way : List Step) (cursor : Cursor) (item : Item) : List Step → Except Fault Cursor
  | [] =>
      match item with
      | .content (.node _ _ _ _) => .ok cursor
      | _ => .error (.notNode way)
  | step :: rest => do
      match ← item.step step with
      | .content (.node kind line col fields) =>
          let node := Draft.node kind line col fields
          walk way (cursor.down node) (.content node) rest
      | next => walk way cursor next rest

/-- Go down a way. -/
def enter (cursor : Cursor) (way : List Step) : Except Fault Cursor :=
  walk way cursor (.content cursor.focus) way

/-- The number of items of a field. -/
def count (cursor : Cursor) (name : String) : Except Fault Nat := do
  let item ← (Item.content cursor.focus).step (.field name)
  match item.length? with
  | none => throw (.noLength item.typeName)
  | some length => return length

/-- The faults of the node under the cursor. -/
def inspect (options : Options) (cursor : Cursor) : Inspection :=
  cursor.focus.inspect options cursor.parents .node []

/-- The document of the node under the cursor, whatever its faults. -/
def layout (options : Options) (cursor : Cursor) : Doc :=
  cursor.focus.layout options cursor.parents

/-- The document of the node at the end of a way. -/
def layoutAt (options : Options) (cursor : Cursor) (way : List Step) : Except Fault Doc := do
  let below ← cursor.enter way
  (below.inspect options).verdict
  return below.layout options

/-- The argument that can replace a block carried by the node under the cursor. -/
def shorthand (cursor : Cursor) (block : Draft) : Except Fault (Option String) :=
  cursor.focus.shorthand cursor.parents block

end Cursor

namespace Draft

mutual

/-- The cursors on all nodes of what stands below the given nodes, each before those below it. -/
def positions (parents : List Draft) : Draft → List Cursor
  | .node kind line col fields =>
      let draft := node kind line col fields
      ⟨draft, parents⟩ :: positionsOfFields (draft :: parents) fields
  | .list items => positionsOfItems parents items
  | .absent | .truth _ | .number _ | .text _ => []
termination_by structural draft => draft

/-- The cursors on all nodes of the items of a list. -/
def positionsOfItems (parents : List Draft) : List Draft → List Cursor
  | [] => []
  | item :: rest => positions parents item ++ positionsOfItems parents rest
termination_by structural items => items

/-- The cursors on all nodes of the fields of a node. -/
def positionsOfFields (parents : List Draft) : List (String × Draft) → List Cursor
  | [] => []
  | (_, content) :: rest => positions parents content ++ positionsOfFields parents rest
termination_by structural fields => fields

end

/-- The calls with a block in a tree, each with its block. -/
def blockCarriers (root : Draft) : List (Cursor × Draft) :=
  (root.positions []).filterMap fun cursor =>
    match cursor.focus with
    | .node .methodAddBlock _ _ [_, (_, block)] => some (cursor, block)
    | _ => none

end Draft

end RubyFormat
