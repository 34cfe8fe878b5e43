import RubyFormat.Pos
import RubyFormat.Text.Quoted

/-!
# Tokens

A token is a piece of the source with its kind, its text, its place, and whether blanks stand
before it.  Line breaks and comments are tokens of their own: a line break can end a statement, and
a comment belongs to the tree.  The token list of a source closes with a token of kind `eof`, so a
reader always has a current token.
-/

namespace RubyFormat

/-- The kinds of token. -/
inductive TokenKind where
  | int
  | float
  | string
  | symbol
  | regexp
  | ident
  | const
  | ivar
  | cvar
  | gvar
  | label
  | keyword
  | op
  | newline
  | comment
  | eof
  deriving DecidableEq, Repr, Inhabited

/-- The name of a kind in listings. -/
def TokenKind.name : TokenKind → String
  | .int => "INT"
  | .float => "FLOAT"
  | .string => "STRING"
  | .symbol => "SYMBOL"
  | .regexp => "REGEXP"
  | .ident => "IDENT"
  | .const => "CONST"
  | .ivar => "IVAR"
  | .cvar => "CVAR"
  | .gvar => "GVAR"
  | .label => "LABEL"
  | .keyword => "KEYWORD"
  | .op => "OP"
  | .newline => "NEWLINE"
  | .comment => "COMMENT"
  | .eof => "EOF"

/--
A token.  The text of a symbol is without its colon, that of a label ends with its colon, a comment
starts with its `#` and has no white space at its end, and the closing token has no text.
-/
structure Token where
  kind : TokenKind
  text : String
  pos : Pos
  spaced : Bool
  deriving DecidableEq, Repr, Inhabited

namespace Token

/-- Whether the token is the operator or keyword spelled so. -/
def isWord (token : Token) (word : String) : Bool :=
  token.text == word && (token.kind == .op || token.kind == .keyword)

/-- Whether the token is one of the operators. -/
def isOpIn (token : Token) (operators : List String) : Bool :=
  token.kind == .op && operators.contains token.text

/-- Whether the token is the operator spelled so. -/
def isOp (token : Token) (operator : String) : Bool :=
  token.kind == .op && token.text == operator

/-- Whether a statement can end before the token. -/
def endsStatement (token : Token) : Bool :=
  token.kind == .newline || token.kind == .eof || token.kind == .comment || token.isOp ";"

/-- The token as a message names it. -/
def describe (token : Token) : String :=
  match token.kind with
  | .eof => "end of input"
  | .newline => "newline"
  | _ => "'" ++ token.text ++ "'"

/-- The token as a listing shows it. -/
def listing (token : Token) : String :=
  "Token(" ++ token.kind.name ++ ", " ++ Text.quoted token.text ++ ", " ++ toString token.pos.line
    ++ ", " ++ toString token.pos.col ++ ")"

end Token

/-- The tokens of a source: those of its text and the one that closes the list. -/
structure Tokens where
  body : List Token
  close : Token
  deriving DecidableEq, Repr, Inhabited

namespace Tokens

/-- All tokens in order. -/
def toList (tokens : Tokens) : List Token :=
  tokens.body ++ [tokens.close]

/-- The token list with one more token in front. -/
def cons (token : Token) (tokens : Tokens) : Tokens :=
  { tokens with body := token :: tokens.body }

@[simp]
theorem toList_cons (token : Token) (tokens : Tokens) :
    (tokens.cons token).toList = token :: tokens.toList :=
  rfl

end Tokens

/-! ## Reserved words and operators -/

/-- The words that are keywords. -/
def keywords : List String := [
  "BEGIN", "END", "alias", "and", "begin", "break", "case", "class", "def", "defined?", "do",
  "else", "elsif", "end", "ensure", "false", "for", "if", "in", "module", "next", "nil", "not",
  "or", "redo", "rescue", "retry", "return", "self", "super", "then", "true", "undef", "unless",
  "until", "when", "while", "yield"]

/-- The keywords that are values. -/
def literalKeywords : List String := ["nil", "true", "false", "self"]

/-- The operators of more than one character; the longer of two stands first. -/
def longOperators : List String := [
  "**=", "<=>", "===", "<<=", ">>=", "&&=", "||=", "...", "**", "==", "!=", ">=", "<=", "&&",
  "||", "<<", ">>", "+=", "-=", "*=", "/=", "%=", "|=", "&=", "^=", "=>", "->", "::", "&.", "..",
  "=~", "!~"]

/-- The operators of one character. -/
def shortOperators : List Char := [
  '+', '-', '*', '/', '%', '=', '<', '>', '!', '&', '|', '^', '~', '(', ')', '[', ']', '\x7b',
  '\x7d', ',', '.', ';', ':', '?']

/-- The operators that can follow the colon of a symbol; the longer of two stands first. -/
def symbolOperators : List String := [
  "[]=", "<=>", "===", "**", "==", "!=", ">=", "<=", "<<", ">>", "[]", "=~", "+", "-", "*", "/",
  "%", "<", ">", "!", "&", "|", "^", "~"]

/-- The operators between a receiver and a message. -/
def callOperators : List String := [".", "&.", "::"]

end RubyFormat
