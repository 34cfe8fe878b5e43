import RubyFormat.Token.Basic

/-!
# The extent of one lexeme

At a character that is neither blank nor the start of a comment, the text and the token before it
decide which lexeme starts there.  A lexeme is given by its kind and by the number of its
characters after the first one, so that what follows it is always shorter than the text it was
found in.
-/

namespace RubyFormat

/-- What can be wrong with a lexeme. -/
inductive LexCause where
  | invalidExponent
  | unterminatedString
  | multiLineString
  | invalidVariable
  | unterminatedRegexp
  | unexpectedCharacter (c : Char)
  deriving DecidableEq, Repr

/-- The wording of a cause. -/
def LexCause.message : LexCause → String
  | .invalidExponent => "invalid float exponent"
  | .unterminatedString => "unterminated string literal"
  | .multiLineString => "multi-line string literal"
  | .invalidVariable => "invalid variable name"
  | .unterminatedRegexp => "unterminated regexp literal"
  | .unexpectedCharacter c => "unexpected character: " ++ Text.quoted (String.singleton c)

/-- A lexeme by its kind and the number of its characters after the first. -/
structure Lexeme where
  kind : TokenKind
  extra : Nat
  deriving DecidableEq, Repr

/-- Whether a character can start a name. -/
def isNameStart (c : Char) : Bool :=
  c.isAlpha || c == '_'

/-- Whether a character can continue a name. -/
def isNameChar (c : Char) : Bool :=
  isNameStart c || c.isDigit

namespace Lexeme

/-- The length of the name that the text starts with. -/
def nameLength (text : List Char) : Nat :=
  (text.takeWhile isNameChar).length

/-! ## Numbers -/

/-- The length of the digits, with underscores between them, that the text starts with. -/
def digitsLength (text : List Char) : Nat :=
  (text.takeWhile fun c => c.isDigit || c == '_').length

/-- The length of a fraction: a point and digits, the first of them right behind the point. -/
def fractionLength : List Char → Nat
  | '.' :: digit :: rest => if digit.isDigit then 1 + digitsLength (digit :: rest) else 0
  | _ => 0

/-- The length of the sign of an exponent, which can be missing. -/
def signLength : List Char → Nat
  | first :: _ => if first = '+' ∨ first = '-' then 1 else 0
  | [] => 0

/--
The length of an exponent, zero where none starts.  There is no answer where the mark of an
exponent has no digit behind it.
-/
def exponentLength? : List Char → Option Nat
  | [] => some 0
  | mark :: rest =>
      if mark = 'e' ∨ mark = 'E' then
        let digits := ((rest.drop (signLength rest)).takeWhile Char.isDigit).length
        if digits = 0 then none else some (1 + signLength rest + digits)
      else
        some 0

/-- A number, given the text behind its first digit. -/
def number (tail : List Char) : Except LexCause Lexeme :=
  let whole := digitsLength tail
  let fraction := fractionLength (tail.drop whole)
  match exponentLength? (tail.drop (whole + fraction)) with
  | none => .error .invalidExponent
  | some exponent =>
      let kind : TokenKind := if fraction + exponent = 0 then .int else .float
      .ok ⟨kind, whole + fraction + exponent⟩

/-! ## Strings, regular expressions and variables -/

/--
The length of a string behind its opening quote, closing quote included.  A backslash takes the
next character with it; between double quotes `#` and an opening brace start an inserted
expression, in which a quote closes nothing until the matching brace.
-/
def stringLength? (quote : Char) : Nat → List Char → Option Nat
  | _, [] => none
  | _, ['\\'] => none
  | depth, '\\' :: _ :: rest => (stringLength? quote depth rest).map (· + 2)
  | depth, '#' :: '\x7b' :: rest =>
      if quote = '"' then (stringLength? quote (depth + 1) rest).map (· + 2)
      else (stringLength? quote depth ('\x7b' :: rest)).map (· + 1)
  | depth, c :: rest =>
      if depth > 0 ∧ c = '\x7d' then (stringLength? quote (depth - 1) rest).map (· + 1)
      else if depth = 0 ∧ c = quote then some 1
      else (stringLength? quote depth rest).map (· + 1)

/-- A string, given its quote and the text behind it.  It must close on its own line. -/
def string (quote : Char) (tail : List Char) : Except LexCause Lexeme :=
  match stringLength? quote 0 tail with
  | none => .error .unterminatedString
  | some extra =>
      if (tail.take extra).contains '\n' then .error .multiLineString
      else .ok ⟨.string, extra⟩

/-- Whether a character is a flag of a regular expression. -/
def isRegexpFlag (c : Char) : Bool :=
  c == 'i' || c == 'm' || c == 'x' || c == 'o'

/-- The length of a regular expression behind its opening slash, flags included. -/
def regexpLength? : List Char → Option Nat
  | [] => none
  | ['\\'] => none
  | '\\' :: _ :: rest => (regexpLength? rest).map (· + 2)
  | c :: rest =>
      if c = '/' then some (1 + (rest.takeWhile isRegexpFlag).length)
      else if c = '\n' then none
      else (regexpLength? rest).map (· + 1)

/-- A regular expression, given the text behind its opening slash. -/
def regexp (tail : List Char) : Except LexCause Lexeme :=
  match regexpLength? tail with
  | none => .error .unterminatedRegexp
  | some extra => .ok ⟨.regexp, extra⟩

/-- An instance, class or global variable, given its first sigil and the text behind it. -/
def sigilName (sigil : Char) (tail : List Char) : Except LexCause Lexeme :=
  let isClass := sigil = '@' ∧ tail.head? = some '@'
  let sigils := if isClass then 1 else 0
  let name := tail.drop sigils
  if (name.head?.map isNameStart).getD false then
    let kind : TokenKind := if isClass then .cvar else if sigil = '@' then .ivar else .gvar
    .ok ⟨kind, sigils + nameLength name⟩
  else
    .error .invalidVariable

/-! ## Words, symbols and operators -/

/-- Whether the token before ends a value, so that an operator can follow. -/
def endsValue : Option Token → Bool
  | none => false
  | some token =>
      match token.kind with
      | .newline | .comment | .label => false
      | .op => [")", "]", "\x7d"].contains token.text
      | .keyword => token.text == "end" || literalKeywords.contains token.text
      | _ => true

/-- Whether the token before leads to a message. -/
def afterCallOperator : Option Token → Bool
  | none => false
  | some token => token.isOpIn callOperators

/-- The length of the mark `?`, `!` or `=` that ends a symbol's name, given the text behind it. -/
def symbolMark : List Char → Nat
  | [] => 0
  | mark :: rest =>
      let next := rest.head?
      if (mark = '?' ∨ mark = '!' ∨ mark = '=') ∧ next ≠ some '=' ∧
          ¬ (mark = '=' ∧ (next = some '>' ∨ next = some '~')) then 1
      else 0

/-- A symbol, given the token before its colon and the text behind it. -/
def symbol? (previous : Option Token) (tail : List Char) : Option Lexeme :=
  match tail with
  | [] => none
  | first :: _ =>
      if first = ':' then none
      else if isNameStart first then
        let name := nameLength tail
        some ⟨.symbol, name + symbolMark (tail.drop name)⟩
      else if endsValue previous then none
      else
        (symbolOperators.find? fun operator => operator.toList.isPrefixOf tail).map fun operator =>
          ⟨.symbol, operator.length⟩

/-- The length of the mark `?` or `!` that ends a name, given the text behind it. -/
def nameMark : List Char → Nat
  | [] => 0
  | mark :: rest =>
      if (mark = '?' ∨ mark = '!') ∧ (rest.head? ≠ some '=' ∨ rest.take 2 = ['=', '=']) then 1
      else 0

/-- Whether the text behind a word is the colon of a label. -/
def isLabelColon : List Char → Bool
  | ':' :: rest => rest.head? != some ':'
  | _ => false

/-- A label, keyword, constant or name, given the token before it and its first character. -/
def word (previous : Option Token) (first : Char) (tail : List Char) : Lexeme :=
  let name := nameLength tail
  let extra := name + nameMark (tail.drop name)
  if isLabelColon (tail.drop extra) && !afterCallOperator previous then
    ⟨.label, extra + 1⟩
  else if keywords.contains (String.ofList (first :: tail.take extra))
      && !afterCallOperator previous then
    ⟨.keyword, extra⟩
  else if first.isUpper then
    ⟨.const, extra⟩
  else
    ⟨.ident, extra⟩

/-- An operator, the longest that the text starts with. -/
def operator (first : Char) (tail : List Char) : Except LexCause Lexeme :=
  match longOperators.find? fun operator => operator.toList.isPrefixOf (first :: tail) with
  | some operator => .ok ⟨.op, operator.length - 1⟩
  | none =>
      if shortOperators.contains first then .ok ⟨.op, 0⟩
      else .error (.unexpectedCharacter first)

/-- A word where a name starts, and an operator elsewhere. -/
def wordOrOperator (previous : Option Token) (first : Char) (tail : List Char) :
    Except LexCause Lexeme :=
  if isNameStart first then .ok (word previous first tail)
  else operator first tail

/-- The lexeme that starts with the given character, between the token before and the text. -/
def find (previous : Option Token) (first : Char) (tail : List Char) : Except LexCause Lexeme :=
  if first.isDigit then number tail
  else if first = '"' ∨ first = '\'' then string first tail
  else if first = '@' ∨ first = '$' then sigilName first tail
  else if first = ':' then
    match symbol? previous tail with
    | some lexeme => .ok lexeme
    | none => operator first tail
  else if first = '/' ∧ endsValue previous = false then regexp tail
  else wordOrOperator previous first tail

/-- The text of the token that a lexeme makes: a symbol loses its colon. -/
def text (lexeme : Lexeme) (first : Char) (tail : List Char) : String :=
  match lexeme.kind with
  | .symbol => String.ofList (tail.take lexeme.extra)
  | _ => String.ofList (first :: tail.take lexeme.extra)

end Lexeme

end RubyFormat
