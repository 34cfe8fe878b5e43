import RubyFormat.Parse.Param

/-!
# Blocks and lambdas

Both open a scope.  A block is delimited, so inside it a `do` belongs to the nearest call; a lambda
leaves that as it is.
-/

namespace RubyFormat.Parse

open ParseM

/-- The expression as the target of an assignment; a bare name becomes a local variable. -/
def target (expr : Node) : ParseM Node :=
  match expr with
  | .vcall pos (.name kind namePos text) => do
      declare text
      return .varField pos (some (.name kind namePos text))
  | .varRef pos (.name .keyword _ text) => throw ⟨.assignToKeyword text, pos⟩
  | .varRef pos inner => return .varField pos (some inner)
  | .call pos receiver operator (.name .ident namePos text) none _ =>
      return .field pos receiver operator (.name .ident namePos text)
  | .aref pos receiver args => return .arefField pos receiver args
  | .constPathRef pos parent name => return .constPathRef pos parent name
  | other => throw ⟨.invalidTarget, other.pos⟩

/-- The parameters of a block between bars, if there are any. -/
def blockVar (rules : Rules) : ParseM (Option Node) := do
  let token ← current
  if token.isWord "||" then
    discard advance
    return some (.blockVar token.pos none)
  else if token.isWord "|" then
    discard advance
    let params ← params rules "|"
    expect "|"
    return some (.blockVar token.pos (some params))
  else
    return none

/-- A block between braces. -/
def braceBlock (rules : Rules) : ParseM Node := do
  let pos := (← current).pos
  expect "\x7b"
  delimited do
    inScope do
      skipNewlines
      let params ← blockVar rules
      let body ← rules.stmts ["\x7d"]
      expect "\x7d"
      return .braceBlock pos params body

/-- The words that end the statements of a body or of one of its rescue clauses. -/
def clauseWords : List String := ["rescue", "else", "ensure", "end"]

/-- The exceptions of a rescue clause, of which there may be none. -/
def exceptions (rules : Rules) : ParseM (List Node) := do
  let next ← current
  if next.endsStatement || next.isWord "=>" || next.isWord "then" then
    return []
  else
    commaList rules.range (pure false)

/-- The variable that holds the exception of a rescue clause, if there is one. -/
def holder (rules : Rules) : ParseM (Option Node) := do
  if ← isAt "=>" then
    discard advance
    return some (← target (← rules.primary))
  else
    return none

/-- Pass the word `then`, if it is next. -/
def skipThen : ParseM Unit := do
  if ← isAt "then" then
    discard advance

/-- A rescue clause, which still lacks the clause after it. -/
def rescueClause (rules : Rules) : ParseM (Option Node → Node) := do
  let pos := (← current).pos
  expect "rescue"
  let exceptions ← exceptions rules
  let holder ← holder rules
  skipThen
  let stmts ← rules.stmts clauseWords
  return .rescue pos exceptions holder stmts

/-- One more rescue clause behind those read, if one follows. -/
def rescueStep (rules : Rules) (clauses : List (Option Node → Node)) :
    ParseM (LoopStep (List (Option Node → Node)) (List (Option Node → Node))) := do
  if ← isAt "rescue" then
    return .again (clauses ++ [← rescueClause rules])
  else
    return .done clauses

/-- The rescue clauses that follow one another, as the chain that starts with the first. -/
def rescueChain (rules : Rules) : ParseM (Option Node) := do
  let clauses ← loop (rescueStep rules) []
  return clauses.foldr (fun clause next => some (clause next)) none

/-- The statements of a clause that the word opens, if it is next. -/
def clause (rules : Rules) (word : String) (words : List String) :
    ParseM (Option (List Node)) := do
  if ← isAt word then
    discard advance
    return some (← rules.stmts words)
  else
    return none

/-- The body of a do block. -/
def bodyStmt (rules : Rules) : ParseM Node := do
  let pos := (← current).pos
  let stmts ← rules.stmts clauseWords
  let rescue ← rescueChain rules
  let elseBody ← clause rules "else" ["ensure", "end"]
  let ensure ← clause rules "ensure" ["end"]
  return .bodyStmt pos stmts rescue elseBody ensure

/-- A block between `do` and `end`. -/
def doBlock (rules : Rules) : ParseM Node := do
  let pos := (← current).pos
  expect "do"
  delimited do
    inScope do
      let params ← blockVar rules
      let body ← bodyStmt rules
      expect "end"
      return .doBlock pos params body

/-- The call with the block that follows it, if one does. -/
def withBlock (rules : Rules) (call : Node) : ParseM Node := do
  if ← isAt "\x7b" then
    return .methodAddBlock call.pos call (← braceBlock rules)
  else if ← isAtDo then
    return .methodAddBlock call.pos call (← doBlock rules)
  else
    return call

/-- The parameters of a lambda, in parentheses or bare. -/
def lambdaParams (rules : Rules) : ParseM (Option Node) := do
  let token ← current
  if token.isWord "(" then
    discard advance
    let params ← params rules ")"
    expect ")"
    return some params
  else if token.isWord "\x7b" || token.isWord "do" then
    return none
  else
    return some (← params rules "\x7b")

/-- The body of a lambda, between braces or between `do` and `end`. -/
def lambdaBody (rules : Rules) : ParseM (List Node) := do
  if ← isAt "\x7b" then
    discard advance
    let body ← rules.stmts ["\x7d"]
    expect "\x7d"
    return body
  else
    expect "do"
    let body ← rules.stmts ["end"]
    expect "end"
    return body

/-- A lambda. -/
def lambda (rules : Rules) : ParseM Node := do
  let pos := (← current).pos
  expect "->"
  inScope do
    let params ← lambdaParams rules
    let body ← lambdaBody rules
    return .lambda pos params body

end RubyFormat.Parse
