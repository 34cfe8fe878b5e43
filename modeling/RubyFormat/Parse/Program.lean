import RubyFormat.Parse.Statement
import RubyFormat.Token.Lexer

/-!
# From a source to its tree

The parsers are put together level by level, one level more than the source has tokens.
-/

namespace RubyFormat

namespace Rules

/-- The rules over those of the next level. -/
def layer (rules : Rules) : Rules where
  stmts := Parse.stmts rules
  stmt := Parse.stmt rules
  value := Parse.assignment rules false
  negated := Parse.negated rules
  range := Parse.range rules
  conjunction := Parse.operations rules OperatorLevel.tight
  minus := Parse.minus rules
  unary := Parse.unary rules
  primary := Parse.primary rules

/-- The rules for trees of at most the given depth. -/
def ofDepth : Nat → Rules
  | 0 => exhausted
  | depth + 1 => layer (ofDepth depth)

end Rules

namespace Parse

open ParseM

/-- A whole program. -/
def program (rules : Rules) : ParseM Node := do
  let pos := (← current).pos
  let body ← rules.stmts []
  let token ← current
  if token.kind == .eof then
    return .program pos body
  else
    fail (.unexpected token)

end Parse

/-- The tree of a token list. -/
def Tokens.parse (tokens : Tokens) : Except ParseError Node :=
  (Parse.program (Rules.ofDepth (tokens.body.length + 1))).run' (ParseState.start tokens)

/-- Why a source has no tree. -/
inductive SourceError where
  | lex (error : LexError)
  | parse (error : ParseError)
  deriving DecidableEq, Repr

namespace SourceError

/-- The wording without the place. -/
def wording : SourceError → String
  | .lex error => error.cause.message
  | .parse error => error.cause.message

/-- The place that an error is reported for. -/
def pos : SourceError → Pos
  | .lex error => error.pos
  | .parse error => error.pos

/-- The wording with the place. -/
def message (error : SourceError) : String :=
  error.pos.locate error.wording

end SourceError

/-- The tree of a source. -/
def Node.ofSource (source : String) : Except SourceError Node :=
  match Tokens.ofSource source with
  | .error error => .error (.lex error)
  | .ok tokens =>
      match tokens.parse with
      | .error error => .error (.parse error)
      | .ok node => .ok node

end RubyFormat
