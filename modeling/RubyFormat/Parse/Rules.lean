import RubyFormat.Node.Basic
import RubyFormat.Parse.State

/-!
# The rules that occur inside each other

The grammar is recursive: an expression holds arguments, blocks and parentheses, which hold
expressions.  Every such turn comes after a token, so a tree is never deeper than its source has
tokens.  The parsers of this folder are therefore written over `Rules`, the parsers for what stands
one level deeper, and are not recursive themselves.
-/

namespace RubyFormat

/-- The parsers for what occurs one level deeper in a tree. -/
structure Rules where
  /-- Statements up to one of the words. -/
  stmts : List String → ParseM (List Node)
  /-- One statement. -/
  stmt : ParseM Node
  /-- The value of an assignment, which can be an assignment itself. -/
  value : ParseM Node
  /-- An expression that may start with `not`. -/
  negated : ParseM Node
  /-- A range, or an operation that binds tighter. -/
  range : ParseM Node
  /-- An operation that binds at least as tight as `&`. -/
  conjunction : ParseM Node
  /-- An operation that binds at least as tight as the unary minus. -/
  minus : ParseM Node
  /-- An operand that may have one of the tight unary operators. -/
  unary : ParseM Node
  /-- An operand without operators. -/
  primary : ParseM Node

/-- The rules below the deepest level: nothing is accepted there. -/
def Rules.exhausted : Rules where
  stmts := fun _ => ParseM.fail .exhausted
  stmt := ParseM.fail .exhausted
  value := ParseM.fail .exhausted
  negated := ParseM.fail .exhausted
  range := ParseM.fail .exhausted
  conjunction := ParseM.fail .exhausted
  minus := ParseM.fail .exhausted
  unary := ParseM.fail .exhausted
  primary := ParseM.fail .exhausted

end RubyFormat
