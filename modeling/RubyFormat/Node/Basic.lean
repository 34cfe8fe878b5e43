import RubyFormat.Pos

/-!
# Syntax trees

A tree is made of nodes, and every node has its place in the source.  The names of the nodes are
those that Ruby's own tools use.  One type holds all of them, from the single name up to the whole
program, so that a reader can stand on any node, and any node can be laid out or dumped by itself.
Which nodes the parser puts where is not said by the type.

A node knows nothing of its parent.
-/

namespace RubyFormat

/-- The names that a node can hold; variables keep their sigil and labels their colon. -/
inductive NameKind where
  | ident
  | const
  | ivar
  | cvar
  | gvar
  | keyword
  | label
  | op
  deriving DecidableEq, Repr, Inhabited

/-- The literals that keep the text they have in the source. -/
inductive LiteralKind where
  | int
  | float
  | string
  | regexp
  deriving DecidableEq, Repr, Inhabited

/-- A node of a syntax tree with everything below it. -/
inductive Node where
  /-- A name of any kind. -/
  | name (kind : NameKind) (pos : Pos) (text : String)
  /-- A number, string or regular expression. -/
  | literal (kind : LiteralKind) (pos : Pos) (raw : String)
  /-- The missing message of `recv.()`. -/
  | callShorthand (pos : Pos)
  /-- A comment with its `#`. -/
  | comment (pos : Pos) (text : String)
  /-- A whole source. -/
  | program (pos : Pos) (stmts : List Node)
  /-- A statement with a comment behind it; a call keeps such a comment itself. -/
  | commented (pos : Pos) (stmt : Node) (comments : List Node)
  /-- A symbol `:name`. -/
  | symbolLit (pos : Pos) (value : Node)
  /-- An array `[a, b]`. -/
  | array (pos : Pos) (elements : List Node)
  /-- An entry `key => value` or `label: value`. -/
  | assoc (pos : Pos) (key value : Node)
  /-- A hash between braces. -/
  | hash (pos : Pos) (assocs : List Node)
  /-- Neighbouring `key => value` arguments of a call. -/
  | bareAssocHash (pos : Pos) (assocs : List Node)
  /-- A lambda `->(params)` with its body. -/
  | lambda (pos : Pos) (params : Option Node) (body : List Node)
  /-- A variable, constant or literal keyword that is read. -/
  | varRef (pos : Pos) (inner : Node)
  /-- A variable or constant that is assigned; nameless when there is no inner node. -/
  | varField (pos : Pos) (inner : Option Node)
  /-- A constant `Foo::Bar` inside another. -/
  | constPathRef (pos : Pos) (parent name : Node)
  /-- The target `recv.name` of an assignment. -/
  | field (pos : Pos) (receiver : Node) (operator : String) (name : Node)
  /-- An index `recv[args]`. -/
  | aref (pos : Pos) (receiver : Node) (args : Option Node)
  /-- The target `recv[args]` of an assignment. -/
  | arefField (pos : Pos) (receiver : Node) (args : Option Node)
  /-- An assignment `target = value`. -/
  | assign (pos : Pos) (target value : Node)
  /-- An assignment `target += value`; the operator ends with its `=`. -/
  | opAssign (pos : Pos) (target : Node) (operator : String) (value : Node)
  /-- The list on the right of `a = 1, 2`. -/
  | valueList (pos : Pos) (values : List Node)
  /-- The same list with a splat in it. -/
  | splatValueList (pos : Pos) (values : List Node)
  /-- A splat `*value`. -/
  | splat (pos : Pos) (value : Node)
  /-- A double splat `**value`. -/
  | doubleSplat (pos : Pos) (value : Node)
  /-- The arguments of a call. -/
  | args (pos : Pos) (parts : List Node)
  /-- Arguments in parentheses, which may be empty. -/
  | argParen (pos : Pos) (args : Option Node)
  /-- A block passed as `&value`, or `&` alone. -/
  | blockArg (pos : Pos) (value : Option Node)
  /-- A call `receiver.message(args)` with the comments behind it. -/
  | call (pos : Pos) (receiver : Node) (operator : String) (message : Node) (args : Option Node)
      (comments : List Node)
  /-- A bare name that is no local variable. -/
  | vcall (pos : Pos) (message : Node)
  /-- A call `message(args)` without receiver; it lacks the parentheses only under a block. -/
  | fcall (pos : Pos) (message : Node) (args : Option Node)
  /-- A call `message args` without parentheses. -/
  | command (pos : Pos) (message args : Node)
  /-- A call with a block. -/
  | methodAddBlock (pos : Pos) (call block : Node)
  /-- The parameter `name = default`. -/
  | optionalParam (pos : Pos) (name default : Node)
  /-- The parameter `*name`, or `*` alone. -/
  | restParam (pos : Pos) (name : Option Node)
  /-- The comma that closes the parameters of `|a,|`. -/
  | excessedComma (pos : Pos)
  /-- The parameter `label:` or `label: default`. -/
  | keywordParam (pos : Pos) (label : Node) (default : Option Node)
  /-- The parameter `**name`, or `**` alone. -/
  | keywordRestParam (pos : Pos) (name : Option Node)
  /-- The parameter `&name`. -/
  | blockParam (pos : Pos) (name : Node)
  /-- The parameters of a block or lambda, sorted by kind. -/
  | params (pos : Pos) (required optional : List Node) (rest : Option Node)
      (post keywords : List Node) (keywordRest block : Option Node)
  /-- Parameters between bars. -/
  | blockVar (pos : Pos) (params : Option Node)
  /-- A rescue clause and the one after it. -/
  | rescue (pos : Pos) (exceptions : List Node) (target : Option Node) (stmts : List Node)
      (next : Option Node)
  /-- The body of a do block with its clauses. -/
  | bodyStmt (pos : Pos) (stmts : List Node) (rescue : Option Node)
      (elseBody ensure : Option (List Node))
  /-- A block between braces. -/
  | braceBlock (pos : Pos) (params : Option Node) (body : List Node)
  /-- A block between `do` and `end`. -/
  | doBlock (pos : Pos) (params : Option Node) (body : Node)
  /-- An operation `left op right`. -/
  | binary (pos : Pos) (left : Node) (op : String) (right : Node)
  /-- An operation `op operand`. -/
  | unary (pos : Pos) (op : String) (operand : Node)
  /-- An expression in parentheses. -/
  | paren (pos : Pos) (expr : Node)
  /-- A node of no particular kind, which stands for nothing in a source. -/
  | bare (pos : Pos)
  deriving Repr, Inhabited

/-- The kinds of node. -/
inductive Kind where
  | name (kind : NameKind)
  | literal (kind : LiteralKind)
  | callShorthand
  | comment
  | program
  | commented
  | symbolLit
  | array
  | assoc
  | hash
  | bareAssocHash
  | lambda
  | varRef
  | varField
  | constPathRef
  | field
  | aref
  | arefField
  | assign
  | opAssign
  | valueList
  | splatValueList
  | splat
  | doubleSplat
  | args
  | argParen
  | blockArg
  | call
  | vcall
  | fcall
  | command
  | methodAddBlock
  | optionalParam
  | restParam
  | excessedComma
  | keywordParam
  | keywordRestParam
  | blockParam
  | params
  | blockVar
  | rescue
  | bodyStmt
  | braceBlock
  | doBlock
  | binary
  | unary
  | paren
  | bare
  deriving DecidableEq, Repr, Inhabited

namespace Kind

/-- The tag of a kind in a dump. -/
def tag : Kind → String
  | .name .ident => "ident"
  | .name .const => "const"
  | .name .ivar => "ivar"
  | .name .cvar => "cvar"
  | .name .gvar => "gvar"
  | .name .keyword => "keyword"
  | .name .label => "label"
  | .name .op => "op"
  | .literal .int => "int"
  | .literal .float => "float"
  | .literal .string => "string"
  | .literal .regexp => "regexp"
  | .callShorthand => "call_shorthand"
  | .comment => "comment"
  | .program => "program"
  | .commented => "commented"
  | .symbolLit => "symbol_lit"
  | .array => "array"
  | .assoc => "assoc"
  | .hash => "hash"
  | .bareAssocHash => "bare_assoc_hash"
  | .lambda => "lambda"
  | .varRef => "var_ref"
  | .varField => "var_field"
  | .constPathRef => "const_path_ref"
  | .field => "field"
  | .aref => "aref"
  | .arefField => "aref_field"
  | .assign => "assign"
  | .opAssign => "op_assign"
  | .valueList => "value_list"
  | .splatValueList => "splat_value_list"
  | .splat => "splat"
  | .doubleSplat => "double_splat"
  | .args => "args"
  | .argParen => "arg_paren"
  | .blockArg => "block_arg"
  | .call => "call"
  | .vcall => "vcall"
  | .fcall => "fcall"
  | .command => "command"
  | .methodAddBlock => "method_add_block"
  | .optionalParam => "optional_param"
  | .restParam => "rest_param"
  | .excessedComma => "excessed_comma"
  | .keywordParam => "keyword_param"
  | .keywordRestParam => "keyword_rest_param"
  | .blockParam => "block_param"
  | .params => "params"
  | .blockVar => "block_var"
  | .rescue => "rescue"
  | .bodyStmt => "body_stmt"
  | .braceBlock => "brace_block"
  | .doBlock => "do_block"
  | .binary => "binary"
  | .unary => "unary"
  | .paren => "paren"
  | .bare => "node"

/-- The name of a kind in messages: `R` and the words of its tag, each with a capital. -/
def typeName : Kind → String
  | .name .ident => "RIdent"
  | .name .const => "RConst"
  | .name .ivar => "RIVar"
  | .name .cvar => "RCVar"
  | .name .gvar => "RGVar"
  | .name .keyword => "RKeyword"
  | .name .label => "RLabel"
  | .name .op => "ROp"
  | .literal .int => "RInt"
  | .literal .float => "RFloat"
  | .literal .string => "RString"
  | .literal .regexp => "RRegexp"
  | .callShorthand => "RCallShorthand"
  | .comment => "RComment"
  | .program => "RProgram"
  | .commented => "RCommented"
  | .symbolLit => "RSymbolLit"
  | .array => "RArray"
  | .assoc => "RAssoc"
  | .hash => "RHash"
  | .bareAssocHash => "RBareAssocHash"
  | .lambda => "RLambda"
  | .varRef => "RVarRef"
  | .varField => "RVarField"
  | .constPathRef => "RConstPathRef"
  | .field => "RField"
  | .aref => "RAref"
  | .arefField => "RArefField"
  | .assign => "RAssign"
  | .opAssign => "ROpAssign"
  | .valueList => "RValueList"
  | .splatValueList => "RSplatValueList"
  | .splat => "RSplat"
  | .doubleSplat => "RDoubleSplat"
  | .args => "RArgs"
  | .argParen => "RArgParen"
  | .blockArg => "RBlockArg"
  | .call => "RCall"
  | .vcall => "RVCall"
  | .fcall => "RFCall"
  | .command => "RCommand"
  | .methodAddBlock => "RMethodAddBlock"
  | .optionalParam => "ROptionalParam"
  | .restParam => "RRestParam"
  | .excessedComma => "RExcessedComma"
  | .keywordParam => "RKeywordParam"
  | .keywordRestParam => "RKeywordRestParam"
  | .blockParam => "RBlockParam"
  | .params => "RParams"
  | .blockVar => "RBlockVar"
  | .rescue => "RRescue"
  | .bodyStmt => "RBodyStmt"
  | .braceBlock => "RBraceBlock"
  | .doBlock => "RDoBlock"
  | .binary => "RBinary"
  | .unary => "RUnary"
  | .paren => "RParen"
  | .bare => "RNode"

/-- All kinds. -/
def all : List Kind := [
  .name .ident, .name .const, .name .ivar, .name .cvar, .name .gvar, .name .keyword, .name .label,
  .name .op, .literal .int, .literal .float, .literal .string, .literal .regexp, .callShorthand,
  .comment, .program, .commented, .symbolLit, .array, .assoc, .hash, .bareAssocHash, .lambda,
  .varRef, .varField, .constPathRef, .field, .aref, .arefField, .assign, .opAssign, .valueList,
  .splatValueList, .splat, .doubleSplat, .args, .argParen, .blockArg, .call, .vcall, .fcall,
  .command, .methodAddBlock, .optionalParam, .restParam, .excessedComma, .keywordParam,
  .keywordRestParam, .blockParam, .params, .blockVar, .rescue, .bodyStmt, .braceBlock, .doBlock,
  .binary, .unary, .paren, .bare]

/-- The kind that has the tag. -/
def ofTag? (tag : String) : Option Kind :=
  all.find? (·.tag == tag)

/-- A kind is found by its tag, so two kinds never share one. -/
theorem ofTag?_tag (kind : Kind) : ofTag? kind.tag = some kind := by
  rcases kind with (_ | _ | _ | _ | _ | _ | _ | _) | (_ | _ | _ | _) <;> decide

end Kind

namespace Node

/-- The place of a node. -/
def pos : Node → Pos
  | .name _ pos _ | .literal _ pos _ | .callShorthand pos | .comment pos _ | .program pos _
  | .commented pos _ _ | .symbolLit pos _ | .array pos _ | .assoc pos _ _ | .hash pos _
  | .bareAssocHash pos _ | .lambda pos _ _ | .varRef pos _ | .varField pos _
  | .constPathRef pos _ _ | .field pos _ _ _ | .aref pos _ _ | .arefField pos _ _
  | .assign pos _ _ | .opAssign pos _ _ _ | .valueList pos _ | .splatValueList pos _
  | .splat pos _ | .doubleSplat pos _ | .args pos _ | .argParen pos _ | .blockArg pos _
  | .call pos _ _ _ _ _ | .vcall pos _ | .fcall pos _ _ | .command pos _ _
  | .methodAddBlock pos _ _ | .optionalParam pos _ _ | .restParam pos _ | .excessedComma pos
  | .keywordParam pos _ _ | .keywordRestParam pos _ | .blockParam pos _
  | .params pos _ _ _ _ _ _ _ | .blockVar pos _ | .rescue pos _ _ _ _ | .bodyStmt pos _ _ _ _
  | .braceBlock pos _ _ | .doBlock pos _ _ | .binary pos _ _ _ | .unary pos _ _ | .paren pos _
  | .bare pos => pos

/-- The kind of a node. -/
def kind : Node → Kind
  | .name kind _ _ => .name kind
  | .literal kind _ _ => .literal kind
  | .callShorthand _ => .callShorthand
  | .comment _ _ => .comment
  | .program _ _ => .program
  | .commented _ _ _ => .commented
  | .symbolLit _ _ => .symbolLit
  | .array _ _ => .array
  | .assoc _ _ _ => .assoc
  | .hash _ _ => .hash
  | .bareAssocHash _ _ => .bareAssocHash
  | .lambda _ _ _ => .lambda
  | .varRef _ _ => .varRef
  | .varField _ _ => .varField
  | .constPathRef _ _ _ => .constPathRef
  | .field _ _ _ _ => .field
  | .aref _ _ _ => .aref
  | .arefField _ _ _ => .arefField
  | .assign _ _ _ => .assign
  | .opAssign _ _ _ _ => .opAssign
  | .valueList _ _ => .valueList
  | .splatValueList _ _ => .splatValueList
  | .splat _ _ => .splat
  | .doubleSplat _ _ => .doubleSplat
  | .args _ _ => .args
  | .argParen _ _ => .argParen
  | .blockArg _ _ => .blockArg
  | .call _ _ _ _ _ _ => .call
  | .vcall _ _ => .vcall
  | .fcall _ _ _ => .fcall
  | .command _ _ _ => .command
  | .methodAddBlock _ _ _ => .methodAddBlock
  | .optionalParam _ _ _ => .optionalParam
  | .restParam _ _ => .restParam
  | .excessedComma _ => .excessedComma
  | .keywordParam _ _ _ => .keywordParam
  | .keywordRestParam _ _ => .keywordRestParam
  | .blockParam _ _ => .blockParam
  | .params _ _ _ _ _ _ _ _ => .params
  | .blockVar _ _ => .blockVar
  | .rescue _ _ _ _ _ => .rescue
  | .bodyStmt _ _ _ _ _ => .bodyStmt
  | .braceBlock _ _ _ => .braceBlock
  | .doBlock _ _ _ => .doBlock
  | .binary _ _ _ _ => .binary
  | .unary _ _ _ => .unary
  | .paren _ _ => .paren
  | .bare _ => .bare

end Node

end RubyFormat
