import RubyFormat.Parse.Argument
import RubyFormat.Parse.Block
import RubyFormat.Parse.Collection

/-!
# Operands

An operand is a literal, a variable, a call, a collection, a lambda or an expression in
parentheses, followed by any number of messages and indexes.
-/

namespace RubyFormat.Parse

open ParseM

/-- The operators that are methods and can follow a call operator. -/
def methodOperators : List String := [
  "+", "-", "*", "/", "%", "**", "==", "!=", "<", "<=", ">", ">=", "<=>", "===", "<<", ">>", "&",
  "|", "^", "!", "~", "=~"]

/-- The name in a symbol, by its spelling. -/
def symbolName (pos : Pos) (text : String) : Node :=
  let kind : NameKind :=
    if keywords.contains text then .keyword
    else match text.toList.head? with
      | some first =>
          if first.isUpper then .const
          else if first == '_' || first.isLower then .ident
          else .op
      | none => .op
  .name kind pos text

/-- Whether a token is an opening parenthesis right behind what comes before. -/
def isTightParen (token : Token) : Bool :=
  token.isOp "(" && !token.spaced

/--
Whether the next token starts the first argument of a call without parentheses.  An operator that
could also stand between two operands does so only right before its own operand.
-/
def startsCommandArgument (state : ParseState) : Bool :=
  let token := state.current
  token.spaced &&
    match token.kind with
    | .int | .float | .string | .symbol | .regexp | .ident | .const | .ivar | .cvar | .gvar
    | .label => true
    | .keyword => literalKeywords.contains token.text || token.text == "not"
    | .op =>
        ["[", "->", "("].contains token.text ||
          (["*", "**", "&", "-", "!"].contains token.text && !state.following.spaced)
    | .newline | .comment | .eof => false

/-- A name: a call, a local variable, or a bare call. -/
def identifier (rules : Rules) : ParseM Node := do
  let token ← advance
  let pos := token.pos
  let name := .name .ident pos token.text
  let state ← get
  if isTightParen state.current then
    withBlock rules (.fcall pos name (some (← parenArguments rules)))
  else if state.isLocal token.text then
    return .varRef pos name
  else if startsCommandArgument state then
    let command := .command pos name (← inCommand (arguments rules none))
    if ← isAtDo then
      return .methodAddBlock pos command (← doBlock rules)
    else
      return command
  else if state.current.isWord "\x7b" || (← isAtDo) then
    withBlock rules (.fcall pos name none)
  else
    return .vcall pos name

/-- A constant, or a call whose name is written like one. -/
def constant (rules : Rules) : ParseM Node := do
  let token ← advance
  let name := .name .const token.pos token.text
  if isTightParen (← current) then
    withBlock rules (.fcall token.pos name (some (← parenArguments rules)))
  else
    return .varRef token.pos name

/-- An expression in parentheses. -/
def paren (rules : Rules) : ParseM Node := do
  let pos := (← current).pos
  expect "("
  skipNewlines
  let inner ← rules.stmt
  skipNewlines
  expect ")"
  return .paren pos inner

/-- Take the next token and give the node. -/
def leaf (node : Node) : ParseM Node := do
  discard advance
  return node

/-- An operand without messages and indexes. -/
def primary (rules : Rules) : ParseM Node := do
  let token ← current
  let pos := token.pos
  let text := token.text
  match token.kind with
  | .int => leaf (.literal .int pos text)
  | .float => leaf (.literal .float pos text)
  | .string => leaf (.literal .string pos text)
  | .regexp => leaf (.literal .regexp pos text)
  | .symbol =>
      if text.isEmpty then fail .outOfRange
      else leaf (.symbolLit pos (symbolName pos text))
  | .ivar => leaf (.varRef pos (.name .ivar pos text))
  | .cvar => leaf (.varRef pos (.name .cvar pos text))
  | .gvar => leaf (.varRef pos (.name .gvar pos text))
  | .keyword =>
      if literalKeywords.contains text then leaf (.varRef pos (.name .keyword pos text))
      else fail (.unexpected token)
  | .const => constant rules
  | .ident => identifier rules
  | .op =>
      if text == "(" then paren rules
      else if text == "[" then array rules
      else if text == "\x7b" then hash rules
      else if text == "->" then lambda rules
      else fail (.unexpected token)
  | .label | .newline | .comment | .eof => fail (.unexpected token)

/-- The message of a call. -/
def message (operator : String) : ParseM Node := do
  let token ← current
  match token.kind with
  | .ident | .keyword => leaf (.name .ident token.pos token.text)
  | .const => leaf (.name .const token.pos token.text)
  | .op =>
      if methodOperators.contains token.text then leaf (.name .op token.pos token.text)
      else fail (.expectedMethodName operator)
  | _ => fail (.expectedMethodName operator)

/-- The arguments behind a message, if they start right there. -/
def tightArguments (rules : Rules) : ParseM (Option Node) := do
  if isTightParen (← current) then
    return some (← parenArguments rules)
  else
    return none

/-- The receiver with the message behind the call operator that is next. -/
def callSuffix (rules : Rules) (receiver : Node) : ParseM Node := do
  let pos := receiver.pos
  let operator := (← advance).text
  skipNewlines
  let token ← current
  if token.isOp "(" then
    let args ← parenArguments rules
    withBlock rules (.call pos receiver operator (.callShorthand token.pos) (some args) [])
  else
    let name ← message operator
    if token.kind == .const && operator == "::" && !isTightParen (← current) then
      return .constPathRef pos receiver name
    else
      let args ← tightArguments rules
      withBlock rules (.call pos receiver operator name args [])

/-- Pass the end of a line that the next one continues with a call operator. -/
def continueLine : ParseM Unit := do
  let state ← get
  if state.current.kind == .newline && state.continuesOnNextLine then
    skipNewlines

/-- One more message or index behind an operand. -/
def suffixStep (rules : Rules) (expr : Node) : ParseM (LoopStep Node Node) := do
  continueLine
  let token ← current
  if token.isOpIn callOperators then
    return .again (← callSuffix rules expr)
  else if token.isOp "[" && !token.spaced then
    return .again (.aref expr.pos expr (← indexArguments rules))
  else
    return .done expr

/-- An operand with its messages and indexes. -/
def operand (rules : Rules) : ParseM Node := do
  loop (suffixStep rules) (← primary rules)

end RubyFormat.Parse
