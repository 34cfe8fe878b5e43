import RubyFormat.Parse.Operator

/-!
# Statements

A statement is an expression or an assignment.  It ends with its line, with a semicolon, or before
a word that ends the body it stands in.  A comment behind a statement belongs to it.
-/

namespace RubyFormat

namespace Node

/-- Whether a node is a splat. -/
def isSplat : Node → Bool
  | .splat _ _ => true
  | _ => false

/-- The right side of an assignment made of the given values. -/
def ofValues (pos : Pos) (values : List Node) : Node :=
  if values.any isSplat then .splatValueList pos values
  else match values with
    | [value] => value
    | _ => .valueList pos values

/-- A statement with the comment behind it, which a call keeps itself. -/
def withComment (stmt remark : Node) : Node :=
  match stmt with
  | .call pos receiver operator message arguments comments =>
      .call pos receiver operator message arguments (comments ++ [remark])
  | _ => .commented stmt.pos stmt [remark]

end Node

namespace Parse

open ParseM

/-- The operators that compute a new value for their target. -/
def assignOperators : List String := [
  "+=", "-=", "*=", "/=", "%=", "**=", "||=", "&&=", "|=", "&=", "^=", "<<=", ">>="]

/-- A value in the list on the right of an assignment. -/
def listedValue (rules : Rules) : ParseM Node := do
  let token ← current
  if token.isWord "*" then
    discard advance
    return .splat token.pos (← rules.range)
  else
    rules.value

/-- The right side of an assignment: one value or a list. -/
def values (rules : Rules) : ParseM Node := do
  let pos := (← current).pos
  return Node.ofValues pos (← commaList (listedValue rules) (pure false))

/-- The right side of an assignment, which may take a list. -/
def rightSide (rules : Rules) (takesList : Bool) : ParseM Node :=
  if takesList then values rules else rules.value

/--
An expression, or an assignment to it.  Only the outermost of chained assignments takes a list of
values.
-/
def assignment (rules : Rules) (takesList : Bool) : ParseM Node := do
  let pos := (← current).pos
  let expr ← expression rules
  let token ← current
  if token.isOp "=" then
    let left ← target expr
    discard advance
    skipNewlines
    return .assign pos left (← rightSide rules takesList)
  else if token.isOpIn assignOperators then
    let left ← target expr
    discard advance
    skipNewlines
    return .opAssign pos left token.text (← rules.value)
  else
    return expr

/-- One statement. -/
def stmt (rules : Rules) : ParseM Node := do
  let token ← current
  if token.kind == .keyword && !literalKeywords.contains token.text && token.text != "not" then
    fail (.unsupported token.text)
  else
    let node ← assignment rules true
    if ← isAt "," then
      fail .multipleAssignment
    else
      return node

/-- Whether a token is one of the words that end a body. -/
def endsBody (words : List String) (token : Token) : Bool :=
  (token.kind == .op || token.kind == .keyword) && words.contains token.text

/-- One more statement or comment behind those read, unless the body ends. -/
def stmtStep (rules : Rules) (words : List String) (done : List Node) :
    ParseM (LoopStep (List Node) (List Node)) := do
  let token ← current
  if token.kind == .eof || endsBody words token then
    return .done done
  else if token.kind == .newline || token.isOp ";" then
    discard advance
    return .again done
  else if token.kind == .comment then
    discard advance
    return .again (done ++ [.comment token.pos token.text])
  else
    let node ← stmt rules
    let next ← current
    if next.kind == .comment then
      discard advance
      return .again (done ++ [node.withComment (.comment next.pos next.text)])
    else if endsBody words next then
      return .done (done ++ [node])
    else if next.endsStatement then
      return .again (done ++ [node])
    else
      fail (.expectedStatementEnd next)

/-- Statements up to the end of the source or one of the words, which is not taken. -/
def stmts (rules : Rules) (words : List String) : ParseM (List Node) :=
  loop (stmtStep rules words) []

end Parse

end RubyFormat
