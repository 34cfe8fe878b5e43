import RubyFormat.Token.Basic

/-!
# Why a source cannot be parsed

A parse error has a cause and the place that it is reported for.  All wording is in
`ParseCause.message`.
-/

namespace RubyFormat

/-- What can be wrong with a source. -/
inductive ParseCause where
  /-- Another operator or keyword had to stand here. -/
  | expected (word : String) (found : Token)
  /-- No expression starts so. -/
  | unexpected (found : Token)
  /-- No parameter starts so. -/
  | unexpectedParam (found : Token)
  /-- A parameter had to follow the comma. -/
  | unexpectedAfterComma (found : Token)
  /-- The name of a parameter had to stand here. -/
  | expectedParamName (found : Token)
  /-- A message had to follow the call operator. -/
  | expectedMethodName (operator : String)
  /-- The statement goes on where it had to end. -/
  | expectedStatementEnd (found : Token)
  /-- A comment stands where an expression goes on in the next line. -/
  | commentInside
  /-- A statement starts with a keyword that is not supported. -/
  | unsupported (keyword : String)
  /-- A statement has several targets. -/
  | multipleAssignment
  /-- A literal keyword is assigned to. -/
  | assignToKeyword (keyword : String)
  /-- Something that is no target is assigned to. -/
  | invalidTarget
  /-- The bound on the depth of a tree is reached; the parser's own bound never is. -/
  | exhausted
  /-- Something is asked for that is not there: a token behind the last one, a scope outside the
  outermost one, a character of an empty name.  No source leads here. -/
  | outOfRange
  deriving DecidableEq, Repr

/-- The wording of a cause. -/
def ParseCause.message : ParseCause → String
  | .expected word found => "expected '" ++ word ++ "', got " ++ found.describe
  | .unexpected found => "unexpected " ++ found.describe
  | .unexpectedParam found => "unexpected " ++ found.describe ++ " in parameter list"
  | .unexpectedAfterComma found => "unexpected " ++ found.describe ++ " after ','"
  | .expectedParamName found => "expected parameter name, got " ++ found.describe
  | .expectedMethodName operator => "expected method name after '" ++ operator ++ "'"
  | .expectedStatementEnd found => "expected end of statement, got " ++ found.describe
  | .commentInside => "comments inside an expression are not supported"
  | .unsupported keyword => "unsupported syntax: '" ++ keyword ++ "'"
  | .multipleAssignment => "multiple assignment is not supported"
  | .assignToKeyword keyword => "cannot assign to " ++ keyword
  | .invalidTarget => "invalid assignment target"
  | .exhausted => "nesting too deep"
  | .outOfRange => "index out of range"

/-- A cause with the place it is reported for. -/
structure ParseError where
  cause : ParseCause
  pos : Pos
  deriving DecidableEq, Repr

end RubyFormat
