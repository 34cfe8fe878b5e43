import RubyFormat.Data.Basic
import RubyFormat.Node.Schema

/-!
# Trees written down by hand

A draft is a tree as someone else writes it down: every field of a node is there, but it can hold
anything, also what no source has in that place.  A draft is dumped as a tree is, and a dump can be
read back.
-/

namespace RubyFormat

/-- A node of a hand-written tree, or what stands in a field of one. -/
inductive Draft where
  | absent
  | truth (value : Bool)
  | number (value : Int)
  | text (value : String)
  | list (items : List Draft)
  | node (kind : Kind) (line col : Int) (fields : List (String × Draft))
  deriving Repr, Inhabited

namespace Draft

/-- The name of what a draft is, as messages give it. -/
def typeName : Draft → String
  | .absent => "NoneType"
  | .truth _ => "bool"
  | .number _ => "int"
  | .text _ => "str"
  | .list _ => "tuple"
  | .node kind _ _ _ => kind.typeName

/-- Letters in lower case, with an underscore before each capital that starts a word. -/
def snakeCase (afterSmall : Bool) : List Char → List Char
  | [] => []
  | c :: rest =>
      (if c.isUpper && afterSmall then ['_', c.toLower] else [c.toLower])
        ++ snakeCase (!c.isUpper) rest

/-- The tag of what has the given name: the words of the name after its first letter. -/
def tagOf (typeName : String) : String :=
  String.ofList (snakeCase false (typeName.toList.drop 1))

/-- The tag of a draft. -/
def tag (draft : Draft) : String :=
  tagOf draft.typeName

/-- The tag of a node is that of its kind. -/
theorem tagOf_typeName (kind : Kind) : tagOf kind.typeName = kind.tag := by
  rcases kind with (_ | _ | _ | _ | _ | _ | _ | _) | (_ | _ | _ | _) <;> decide

/-- Whether a draft is nothing. -/
def isAbsent : Draft → Bool
  | .absent => true
  | _ => false

/-- The content of a field. -/
def field? (name : String) : Draft → Option Draft
  | .node _ _ _ fields => (fields.find? (·.1 == name)).map (·.2)
  | _ => none

/-! ## The dump of a draft -/

mutual

/-- The dump of a draft, with or without places. -/
def dump (places : Bool) : Draft → Data
  | .absent => .null
  | .truth value => .bool value
  | .number value => .int value
  | .text value => .text value
  | .list items => .list (dumpItems places items)
  | .node kind line col fields =>
      .object (("_type", .text kind.tag) ::
        (if places then [("pos", .list [.int line, .int col])] else [])
          ++ dumpFields places fields)

/-- The dumps of the items of a list. -/
def dumpItems (places : Bool) : List Draft → List Data
  | [] => []
  | item :: rest => dump places item :: dumpItems places rest

/-- The dumps of the fields of a node. -/
def dumpFields (places : Bool) : List (String × Draft) → List (String × Data)
  | [] => []
  | (name, content) :: rest => (name, dump places content) :: dumpFields places rest

end

/-- The dump of a draft. -/
def toData (draft : Draft) : Data :=
  draft.dump true

mutual

/-- The draft with a number in place of each truth value, one for what holds. -/
def counting : Draft → Draft
  | .truth value => .number value.toInt
  | .list items => .list (countingItems items)
  | .node kind line col fields => .node kind line col (countingFields fields)
  | .absent => .absent
  | .number value => .number value
  | .text value => .text value

/-- The items of a list with numbers in place of truth values. -/
def countingItems : List Draft → List Draft
  | [] => []
  | item :: rest => counting item :: countingItems rest

/-- The fields of a node with numbers in place of truth values. -/
def countingFields : List (String × Draft) → List (String × Draft)
  | [] => []
  | (name, content) :: rest => (name, counting content) :: countingFields rest

end

/--
Whether two drafts are the same when places do not count and a truth value counts as a number.
-/
def same (left right : Draft) : Bool :=
  left.counting.dump false == right.counting.dump false

/-! ## Reading a dump -/

/-- The content of a field that is not mentioned; most fields have to be. -/
def default? : FieldSort → Option Draft
  | .optional | .rest | .parenthesised | .optionalList => some .absent
  | .list => some (.list [])
  | .text | .operator | .node => none

/-- The entry of a key. -/
def lookup? (entries : List (String × Draft)) (key : String) : Option Draft :=
  (entries.find? (·.1 == key)).map (·.2)

/-- The node of an object with the given entries; it may go without its place. -/
def ofEntries? (entries : List (String × Draft)) : Option Draft := do
  let .text tag ← lookup? entries "_type" | none
  let kind ← Kind.ofTag? tag
  let fields ← kind.schema.mapM fun (name, sort) => do
    return (name, ← (lookup? entries name).orElse fun _ => default? sort)
  match lookup? entries "pos" with
  | none => return .node kind Pos.start.line Pos.start.col fields
  | some (.list [.number line, .number col]) => return .node kind line col fields
  | some _ => none

mutual

/-- The draft that data dumps; an object has to be a node. -/
def ofData? : Data → Option Draft
  | .null => some .absent
  | .bool value => some (.truth value)
  | .int value => some (.number value)
  | .text value => some (.text value)
  | .list items => return .list (← ofItems? items)
  | .object entries => do ofEntries? (← ofPairs? entries)

/-- The drafts of the items of a list. -/
def ofItems? : List Data → Option (List Draft)
  | [] => some []
  | item :: rest => return (← ofData? item) :: (← ofItems? rest)

/-- The drafts of the entries of an object. -/
def ofPairs? : List (String × Data) → Option (List (String × Draft))
  | [] => some []
  | (key, value) :: rest => return (key, ← ofData? value) :: (← ofPairs? rest)

end

end Draft

end RubyFormat
