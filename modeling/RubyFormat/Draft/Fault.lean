import RubyFormat.Text.Quoted

/-!
# What can be wrong with a hand-written tree

A way leads down a tree by steps: the name of a field, or the index of an item where a field holds a
list.  A fault says what stands in the way of a walk, of a block's shorthand or of a layout.  No tree
of a source has one.
-/

namespace RubyFormat

/-- A step down: to a field, or to an item of a list; a negative index counts from the end. -/
inductive Step where
  | field (name : String)
  | index (value : Int)
  deriving DecidableEq, Repr

namespace Step

/-- A step as a message shows it. -/
def display : Step → String
  | .field name => Text.quoted name
  | .index value => toString value

/-- A way as a message shows it; a comma follows a single step. -/
def displayAll : List Step → String
  | [step] => "(" ++ step.display ++ ",)"
  | steps => "(" ++ ", ".intercalate (steps.map display) ++ ")"

end Step

/-- What can be wrong with a tree, or with a way through it. -/
inductive Fault where
  /-- A node of this kind stands for nothing. -/
  | unhandled (typeName : String)
  /-- The way ends on something else than a node. -/
  | notNode (way : List Step)
  /-- Only a list has items. -/
  | cannotIndex (typeName : String)
  /-- The list is shorter. -/
  | outOfRange
  /-- There is no field of this name. -/
  | noField (typeName name : String)
  /-- Only a list or a text has a length. -/
  | noLength (typeName : String)
  /-- Only a list or a text can be gone through. -/
  | notIterable (typeName : String)
  /-- The name of a message has to be a text. -/
  | notName (typeName : String)
  /-- The text of a leaf has to be a text. -/
  | notText (typeName : String)
  /-- An operator has to be a text. -/
  | notOperator (typeName : String)
  /-- A block can only be passed among arguments in parentheses. -/
  | notParenthesised
  deriving DecidableEq, Repr

/-- The wording of a fault. -/
def Fault.message : Fault → String
  | .unhandled typeName => "unhandled node type: " ++ typeName
  | .notNode way => "path does not lead to a node: " ++ Step.displayAll way
  | .cannotIndex typeName => "cannot index " ++ typeName
  | .outOfRange => "tuple index out of range"
  | .noField typeName name => "'" ++ typeName ++ "' object has no attribute '" ++ name ++ "'"
  | .noLength typeName => "object of type '" ++ typeName ++ "' has no len()"
  | .notIterable typeName => "'" ++ typeName ++ "' object is not iterable"
  | .notName typeName => "can only concatenate str (not \"" ++ typeName ++ "\") to str"
  | .notText typeName => "'" ++ typeName ++ "' object has no attribute 'replace'"
  | .notOperator typeName => "unhandled doc type: " ++ typeName
  | .notParenthesised => ""

end RubyFormat
