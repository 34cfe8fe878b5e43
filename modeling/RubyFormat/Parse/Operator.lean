import RubyFormat.Parse.Primary

/-!
# Operators

The binary operators form levels, from the loosest to the tightest.  Operators of one level chain
to the left, except the equality operators, of which an operand takes at most one.  Looser than
all of them are ranges, `not`, and the words `and` and `or`; tighter are the unary minus, the power
operator and the other unary operators.
-/

namespace RubyFormat

/-- Binary operators that bind equally tight. -/
structure OperatorLevel where
  operators : List String
  /-- Whether the operators chain to the left; otherwise one of them stands alone. -/
  chains : Bool
  deriving DecidableEq, Repr

namespace OperatorLevel

/-- The levels from `&` on. -/
def tight : List OperatorLevel := [
  ⟨["&"], true⟩, ⟨["<<", ">>"], true⟩, ⟨["+", "-"], true⟩, ⟨["*", "/", "%"], true⟩]

/-- All levels. -/
def all : List OperatorLevel := [
  ⟨["||"], true⟩, ⟨["&&"], true⟩, ⟨["==", "!=", "===", "=~", "!~", "<=>"], false⟩,
  ⟨["<", "<=", ">", ">="], true⟩, ⟨["|", "^"], true⟩] ++ tight

end OperatorLevel

namespace Parse

open ParseM

/-- A unary operator other than the minus, or an operand. -/
def unary (rules : Rules) : ParseM Node := do
  let token ← current
  if token.isWord "!" || token.isWord "~" || token.isWord "+" then
    discard advance
    return .unary token.pos token.text (← rules.unary)
  else
    operand rules

/-- A power, which is right-associative and takes a minus in its exponent. -/
def power (rules : Rules) : ParseM Node := do
  let left ← unary rules
  if ← isAt "**" then
    discard advance
    skipNewlines
    return .binary left.pos left "**" (← rules.minus)
  else
    return left

/-- A unary minus, or what binds tighter. -/
def minus (rules : Rules) : ParseM Node := do
  let token ← current
  if token.isWord "-" then
    discard advance
    return .unary token.pos "-" (← rules.minus)
  else
    power rules

/-- The operation of the operator that is next on two operands. -/
def operation (item : ParseM Node) (left : Node) : ParseM Node := do
  let op := (← advance).text
  skipNewlines
  return .binary left.pos left op (← item)

/-- One more operation of a level, if one of its operators follows. -/
def levelStep (item : ParseM Node) (level : OperatorLevel) (left : Node) :
    ParseM (LoopStep Node Node) := do
  if (← current).isOpIn level.operators then
    return .again (← operation item left)
  else
    return .done left

/-- The operations of one level over the operations that bind tighter. -/
def operatorLevel (item : ParseM Node) (level : OperatorLevel) : ParseM Node := do
  let left ← item
  if level.chains then
    loop (levelStep item level) left
  else if (← current).isOpIn level.operators then
    operation item left
  else
    return left

/-- The operations of several levels, the loosest first. -/
def operations (rules : Rules) : List OperatorLevel → ParseM Node
  | [] => minus rules
  | level :: tighter => operatorLevel (operations rules tighter) level

/-- A range, whose ends are on one line, or what binds tighter. -/
def range (rules : Rules) : ParseM Node := do
  let left ← operations rules OperatorLevel.all
  let token ← current
  if token.isWord ".." || token.isWord "..." then
    discard advance
    return .binary left.pos left token.text (← operations rules OperatorLevel.all)
  else
    return left

/-- An expression that may start with `not`. -/
def negated (rules : Rules) : ParseM Node := do
  let token ← current
  if token.isWord "not" then
    discard advance
    return .unary token.pos "not" (← rules.negated)
  else
    range rules

/-- One more expression behind `and` or `or`, if one of these words follows. -/
def joinStep (rules : Rules) (left : Node) : ParseM (LoopStep Node Node) := do
  let token ← current
  if token.isWord "and" || token.isWord "or" then
    return .again (← operation (negated rules) left)
  else
    return .done left

/-- Expressions joined by `and` and `or`, which bind equally and chain to the left. -/
def expression (rules : Rules) : ParseM Node := do
  loop (joinStep rules) (← negated rules)

end Parse

end RubyFormat
