import RubyFormat.Parse.Error

/-!
# The state of a parse

A parser reads tokens from left to right and never goes back.  Besides the tokens ahead it keeps
two things: the scopes of local variables, innermost first, which decide whether a bare name is a
variable or a call, and the depth of arguments without parentheses, in which a `do` belongs to the
outer call.

Every repetition of the grammar is a `loop`, whose body takes at least one token each time it asks
to go on; the tokens ahead when it starts therefore bound it.
-/

namespace RubyFormat

/-- The state of a parse. -/
structure ParseState where
  ahead : List Token
  close : Token
  scopes : List (List String)
  commandDepth : Nat
  deriving Repr

namespace ParseState

/-- The state before the first token: one scope without variables. -/
def start (tokens : Tokens) : ParseState :=
  ⟨tokens.body, tokens.close, [[]], 0⟩

/-- The token that is next. -/
def current (state : ParseState) : Token :=
  state.ahead.headD state.close

/-- The token after the next one. -/
def following (state : ParseState) : Token :=
  state.ahead.tail.headD state.close

/-- Whether a name is a local variable in one of the scopes. -/
def isLocal (state : ParseState) (name : String) : Bool :=
  state.scopes.any (·.contains name)

/-- The scopes after a name is declared in the innermost one. -/
def declare (name : String) : List (List String) → List (List String)
  | [] => []
  | scope :: outer => (name :: scope) :: outer

/-- Whether the tokens ahead are line breaks and then a call operator that continues the line. -/
def continuesOnNextLine (state : ParseState) : Bool :=
  let token := (state.ahead.dropWhile (·.kind == .newline)).headD state.close
  token.isOpIn [".", "&."]

end ParseState

/-- A parser that takes tokens and gives a value or an error. -/
abbrev ParseM := StateT ParseState (Except ParseError)

/-- What the body of a loop decides. -/
inductive LoopStep (α β : Type) where
  | again (value : α)
  | done (value : β)

namespace ParseM

/-- The next token, which stays ahead. -/
def current : ParseM Token := do
  return (← get).current

/-- Fail for a cause at the next token. -/
def fail (cause : ParseCause) : ParseM α := do
  throw ⟨cause, (← current).pos⟩

/-- Take the next token, which must not be the one that closes the list. -/
def advance : ParseM Token := do
  let state ← get
  match state.ahead with
  | [] => fail .outOfRange
  | token :: rest =>
      set { state with ahead := rest }
      return token

/-- Whether the next token is the operator or keyword. -/
def isAt (word : String) : ParseM Bool := do
  return (← current).isWord word

/-- Take the operator or keyword, which must be next. -/
def expect (word : String) : ParseM Unit := do
  let token ← current
  if token.isWord word then
    discard advance
  else
    fail (.expected word token)

/-- Pass the line breaks ahead; a comment must not follow them. -/
def skipNewlines : ParseM Unit := do
  modify fun state => { state with ahead := state.ahead.dropWhile (·.kind == .newline) }
  if (← current).kind == .comment then
    fail .commentInside

/-- Change the scopes, of which there must be one. -/
def modifyScopes (change : List (List String) → List (List String)) : ParseM Unit := do
  let state ← get
  if state.scopes.isEmpty then
    fail .outOfRange
  else
    set { state with scopes := change state.scopes }

/-- Make a name a local variable of the innermost scope. -/
def declare (name : String) : ParseM Unit :=
  modifyScopes (ParseState.declare name)

/-- Run a parser in a new scope, which is closed afterwards. -/
def inScope (parser : ParseM α) : ParseM α := do
  modify fun state => { state with scopes := [] :: state.scopes }
  let value ← parser
  modifyScopes List.tail
  return value

/-- Run a parser between delimiters, where a `do` belongs to the nearest call again. -/
def delimited (parser : ParseM α) : ParseM α := do
  let depth := (← get).commandDepth
  modify fun state => { state with commandDepth := 0 }
  let value ← parser
  modify fun state => { state with commandDepth := depth }
  return value

/-- Run a parser as the arguments of a call without parentheses. -/
def inCommand (parser : ParseM α) : ParseM α := do
  modify fun state => { state with commandDepth := state.commandDepth + 1 }
  let value ← parser
  modify fun state => { state with commandDepth := state.commandDepth - 1 }
  return value

/-- Whether a `do` that is next belongs to the call just read. -/
def isAtDo : ParseM Bool := do
  let state ← get
  return state.current.isWord "do" && state.commandDepth == 0

/-- Repeat a body until it is done, with a token of the list for each time it goes on. -/
def loopWithin (body : α → ParseM (LoopStep α β)) : List Token → α → ParseM β
  | [], value => do
      match ← body value with
      | .again _ => fail .exhausted
      | .done result => return result
  | _ :: tokens, value => do
      match ← body value with
      | .again next => loopWithin body tokens next
      | .done result => return result

/-- Repeat a body that takes a token whenever it asks to go on. -/
def loop (body : α → ParseM (LoopStep α β)) (value : α) : ParseM β := do
  loopWithin body (← get).ahead value

/-- One more item behind those read; after a comma the list may close. -/
def commaStep (item : ParseM α) (closes : ParseM Bool) (items : List α) :
    ParseM (LoopStep (List α) (List α)) := do
  let items := items ++ [← item]
  if ← isAt "," then
    discard advance
    skipNewlines
    if ← closes then
      return .done items
    else
      return .again items
  else
    return .done items

/-- One or more items with commas between them; after a comma the list may close. -/
def commaList (item : ParseM α) (closes : ParseM Bool) : ParseM (List α) :=
  loop (commaStep item closes) []

/-- One more item behind those read, unless the closing word is next. -/
def closedStep (item : ParseM α) (closer : String) (items : List α) :
    ParseM (LoopStep (List α) (List α)) := do
  if ← isAt closer then
    return .done items
  else
    let items := items ++ [← item]
    skipNewlines
    if ← isAt "," then
      discard advance
      skipNewlines
      return .again items
    else
      return .done items

/-- Any number of items with commas between them, up to the closing word. -/
def closedList (item : ParseM α) (closer : String) : ParseM (List α) := do
  skipNewlines
  let items ← loop (closedStep item closer) []
  expect closer
  return items

end ParseM

end RubyFormat
