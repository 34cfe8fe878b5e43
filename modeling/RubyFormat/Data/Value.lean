import RubyFormat.Data.Json
import RubyFormat.Draft.Basic

/-!
# Values that can be dumped

Besides plain data a value can hold places, nodes, dictionaries with texts or integers as keys, and
things that have no dump.
-/

namespace RubyFormat

/-- A key of a dictionary. -/
inductive Key where
  | text (value : String)
  | int (value : Int)
  deriving DecidableEq, Repr

/-- The text under which an entry is dumped. -/
def Key.name (limit : Nat) : Key → Except DumpError String
  | .text value => .ok value
  | .int value =>
      if Data.fits limit value then .ok (String.ofList (Data.decimal value))
      else .error (.tooLong limit)

/-- A value to be dumped. -/
inductive Value where
  | null
  | bool (value : Bool)
  | int (value : Int)
  | text (value : String)
  | list (items : List Value)
  | dict (entries : List (Key × Value))
  | place (line col : Int)
  | node (value : Draft)
  /-- Something without a dump, by the name of what it is. -/
  | foreign (typeName : String)
  deriving Repr, Inhabited

namespace Value

/-- The dictionary of pairs; a repeated key keeps its first place and its last value. -/
def ofPairs (pairs : List (Key × Value)) : Value :=
  .dict (mergeEntries pairs)

mutual

/-- The data of a value; keys that are integers become texts of no more digits than are allowed. -/
def toData (limit : Nat) : Value → Except DumpError Data
  | .null => return .null
  | .bool value => return .bool value
  | .int value => return .int value
  | .text value => return .text value
  | .list items => return .list (← itemsToData limit items)
  | .dict entries => return .object (mergeEntries (← entriesToData limit entries))
  | .place line col => return .list [.int line, .int col]
  | .node value => return value.toData
  | .foreign typeName => throw (.foreign typeName)

/-- The data of the items of a list. -/
def itemsToData (limit : Nat) : List Value → Except DumpError (List Data)
  | [] => return []
  | item :: items => do
      let data ← toData limit item
      return data :: (← itemsToData limit items)

/-- The data of the entries of a dictionary. -/
def entriesToData (limit : Nat) : List (Key × Value) → Except DumpError (List (String × Data))
  | [] => return []
  | (key, value) :: entries => do
      let name ← key.name limit
      let data ← toData limit value
      return (name, data) :: (← entriesToData limit entries)

end

/-- The JSON text of a value, with integers of no more digits than are allowed. -/
def json (limit : Nat) (value : Value) : Except DumpError String := do
  (← value.toData limit).dump limit

end Value

end RubyFormat
