import RubyFormat.Doc.Basic
import RubyFormat.Node.Basic

/-!
# The shapes of the constructs

Each function here lays out one construct, given the documents of its parts.
-/

namespace RubyFormat.Layout

open Doc (softLine hardLine)

/-- A comma after which a group can break. -/
def comma : Doc := .concat [",", softLine]

/-- Items with commas between them. -/
def listed (items : List Doc) : Doc := Doc.join comma items

/-- Statements, each on its own line. -/
def stmts (items : List Doc) : Doc := Doc.join hardLine items

/-- Statements on indented lines of their own, if there are any. -/
def indentedStmts (items : List Doc) : Doc :=
  if items.isEmpty then "" else .indent (.concat [hardLine, stmts items])

/-- A program, whose last line is complete. -/
def program (items : List Doc) : Doc :=
  if items.isEmpty then "" else .concat [stmts items, hardLine]

/-- Comments behind a construct on its line. -/
def trailing (comments : List Doc) : List Doc :=
  comments.flatMap fun comment => [" ", comment]

/-- A part in an indented line, which stays on the present one when the group is flat. -/
def hanging (part : Doc) : Doc := .indent (.concat [softLine, part])

/-- An array. -/
def array (elements : List Doc) : Doc :=
  if elements.isEmpty then "[]" else .group (.concat ["[", listed elements, "]"])

/-- A hash between braces. -/
def hash (entries : List Doc) : Doc :=
  if entries.isEmpty then "\x7b\x7d"
  else .group (.concat ["\x7b", hanging (listed entries), softLine, "\x7d"])

/-- An entry of a hash; a label needs no arrow. -/
def assoc (labelled : Bool) (key value : Doc) : Doc :=
  if labelled then .group (.concat [key, hanging value])
  else .group (.concat [key, " =>", hanging value])

/-- Statements between braces, with the given line before them. -/
def bracedStmts (around : Doc) (items : List Doc) : Doc :=
  .indent (.concat [around, stmts items])

/-- What stands before the body of a lambda. -/
def lambdaHead (params : Option Doc) : List Doc :=
  "->" :: (params.map fun params => .concat ["(", params, ")"]).toList

/-- A lambda. -/
def lambda (params : Option Doc) (around : Doc) (body : List Doc) : Doc :=
  if body.isEmpty then
    .concat (lambdaHead params ++ [.text " \x7b\x7d"])
  else
    .group (.concat [.concat (lambdaHead params ++ [.text " "]), "\x7b", bracedStmts around body,
      around, "\x7d"])

/-- An index. -/
def index (receiver : Doc) (args : Option Doc) : Doc :=
  match args with
  | none => .concat [receiver, "[]"]
  | some args => .concat [receiver, "[", args, "]"]

/-- An assignment; a value with delimiters of its own stays on the line of the target. -/
def assign (staysOnLine : Bool) (target value : Doc) : Doc :=
  if staysOnLine then .group (.concat [target, " = ", value])
  else .group (.concat [target, " =", hanging value])

/-- An operator between two operands. -/
def operation (left : Doc) (op : String) (right : Doc) : Doc :=
  .group (.concat [left, " ", op, hanging right])

/-- The binary operators without blanks around them. -/
def tightOperators : List String := ["**", "..", "..."]

/-- A binary operation. -/
def binary (left : Doc) (op : String) (right : Doc) : Doc :=
  if tightOperators.contains op then .concat [left, op, right] else operation left op right

/-- A unary operation. -/
def unary (op : String) (operand : Doc) : Doc :=
  if op = "not" then .concat ["not ", operand] else .concat [op, operand]

/-- A mark with the part that it may have behind it. -/
def marked (mark : String) (part : Option Doc) : Doc :=
  match part with
  | none => mark
  | some part => .concat [mark, part]

/-- Arguments in parentheses. -/
def argParen (args : Option Doc) : Doc :=
  match args with
  | none => "()"
  | some args => .concat ["(", args, ")"]

/-- Arguments in parentheses with one more at the end. -/
def argParenWith (extra : String) (args : Option Doc) : Doc :=
  match args with
  | none => .concat ["(", extra, ")"]
  | some args => .concat ["(", args, ", ", extra, ")"]

/-- A call with a receiver. -/
def call (receiver : Doc) (operator : String) (message : Doc) (args : Option Doc)
    (comments : List Doc) : Doc :=
  .concat ([receiver, operator, message] ++ args.toList ++ trailing comments)

/-- A call without receiver. -/
def fcall (message : Doc) (args : Option Doc) : Doc :=
  match args with
  | none => message
  | some args => .concat [message, args]

/-- A call without receiver that has one more argument than its own parentheses show. -/
def fcallWith (extra : String) (message : Doc) (args : Option Doc) : Doc :=
  match args with
  | none => .concat [message, "(", extra, ")"]
  | some args => .concat [message, args]

/-- The parameters of a block behind its opening. -/
def blockParams (params : Option Doc) : Doc :=
  match params with
  | none => ""
  | some params => .concat [" ", params]

/-- Parameters between bars. -/
def blockVar (params : Option Doc) : Doc :=
  match params with
  | none => "||"
  | some params => .concat ["|", params, "|"]

/-- A block between braces. -/
def braceBlock (params : Option Doc) (around : Doc) (body : List Doc) : Doc :=
  if body.isEmpty then
    match params with
    | none => "\x7b\x7d"
    | some _ => .concat ["\x7b", blockParams params, " \x7d"]
  else
    .group (.concat ["\x7b", blockParams params, bracedStmts around body, around, "\x7d"])

/-- A clause of a body that a word opens. -/
def clause (word : String) (items : List Doc) : Doc :=
  .concat [hardLine, word, indentedStmts items]

/-- The body of a do block with its clauses. -/
def bodyStmt (items : List Doc) (rescue : Option Doc) (elseBody ensure : Option (List Doc)) : Doc :=
  .concat ((if items.isEmpty then [] else [indentedStmts items]) ++ rescue.toList
    ++ (elseBody.map (clause "else")).toList ++ (ensure.map (clause "ensure")).toList)

/-- The exceptions of a rescue clause. -/
def exceptionList (exceptions : List Doc) : List Doc :=
  if exceptions.isEmpty then [] else [" ", Doc.join ", " exceptions]

/-- The variable of a rescue clause. -/
def exceptionTarget (target : Option Doc) : List Doc :=
  match target with
  | none => []
  | some target => [" => ", target]

/-- A rescue clause and those after it. -/
def rescue (exceptions : List Doc) (target : Option Doc) (items : List Doc)
    (next : Option Doc) : Doc :=
  .concat ([hardLine, "rescue"] ++ exceptionList exceptions ++ exceptionTarget target
    ++ [indentedStmts items] ++ next.toList)

/-- A parameter with the default that it may have, behind the given separator. -/
def defaulted (name : Doc) (separator : String) (default : Option Doc) : Doc :=
  match default with
  | none => name
  | some default => .concat [name, separator, default]

end RubyFormat.Layout
