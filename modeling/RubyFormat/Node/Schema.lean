import RubyFormat.Node.Field

/-!
# The fields that a kind has

The schema of a kind lists its fields.  A node is put together from its kind, its place and the
contents of its fields, and `Node.ofFields?_fields` says that nothing else belongs to it.
-/

namespace RubyFormat

/-- What a field is made for. -/
inductive FieldSort where
  /-- The text of a leaf. -/
  | text
  /-- An operator that stands between other parts. -/
  | operator
  | node
  | optional
  /-- A node that may be absent and counts only as a rest parameter or a closing comma. -/
  | rest
  /-- Arguments in parentheses, which may be absent. -/
  | parenthesised
  | list
  | optionalList
  deriving DecidableEq, Repr

/-- The names of a kind's fields and what they are made for, in order. -/
def Kind.schema : Kind → List (String × FieldSort)
  | .name _ => [("name", .text)]
  | .literal _ => [("raw", .text)]
  | .callShorthand => []
  | .comment => [("text", .text)]
  | .program => [("stmts", .list)]
  | .commented => [("stmt", .node), ("comments", .list)]
  | .symbolLit => [("value", .node)]
  | .array => [("elements", .list)]
  | .assoc => [("key", .node), ("value", .node)]
  | .hash => [("assocs", .list)]
  | .bareAssocHash => [("assocs", .list)]
  | .lambda => [("params", .optional), ("body", .list)]
  | .varRef => [("inner", .node)]
  | .varField => [("inner", .optional)]
  | .constPathRef => [("parent", .node), ("name", .node)]
  | .field => [("receiver", .node), ("operator", .operator), ("name", .node)]
  | .aref => [("receiver", .node), ("args", .optional)]
  | .arefField => [("receiver", .node), ("args", .optional)]
  | .assign => [("target", .node), ("value", .node)]
  | .opAssign => [("target", .node), ("operator", .operator), ("value", .node)]
  | .valueList => [("values", .list)]
  | .splatValueList => [("values", .list)]
  | .splat => [("value", .node)]
  | .doubleSplat => [("value", .node)]
  | .args => [("parts", .list)]
  | .argParen => [("args", .optional)]
  | .blockArg => [("value", .optional)]
  | .call => [
      ("receiver", .node), ("operator", .operator), ("message", .node), ("args", .optional),
      ("comments", .list)]
  | .vcall => [("message", .node)]
  | .fcall => [("message", .node), ("args", .optional)]
  | .command => [("message", .node), ("args", .node)]
  | .methodAddBlock => [("call", .node), ("block", .node)]
  | .optionalParam => [("name", .node), ("default", .node)]
  | .restParam => [("name", .optional)]
  | .excessedComma => []
  | .keywordParam => [("label", .node), ("default", .optional)]
  | .keywordRestParam => [("name", .optional)]
  | .blockParam => [("name", .node)]
  | .params => [
      ("required", .list), ("optional", .list), ("rest", .rest), ("post", .list),
      ("keywords", .list), ("keyword_rest", .optional), ("block", .optional)]
  | .blockVar => [("params", .optional)]
  | .rescue => [
      ("exceptions", .list), ("variable", .optional), ("stmts", .list), ("next", .optional)]
  | .bodyStmt => [
      ("stmts", .list), ("rescue", .optional), ("else_body", .optionalList),
      ("ensure", .optionalList)]
  | .braceBlock => [("params", .optional), ("body", .list)]
  | .doBlock => [("params", .optional), ("body", .node)]
  | .binary => [("left", .node), ("op", .operator), ("right", .node)]
  | .unary => [("op", .operator), ("operand", .node)]
  | .paren => [("expr", .node)]
  | .bare => []

/-- The node of a kind at a place with the given contents of its fields. -/
def Node.ofFields? (pos : Pos) : Kind → List (Field Node) → Option Node
  | .name kind, [.text text] => some (.name kind pos text)
  | .literal kind, [.text raw] => some (.literal kind pos raw)
  | .callShorthand, [] => some (.callShorthand pos)
  | .comment, [.text text] => some (.comment pos text)
  | .program, [.list stmts] => some (.program pos stmts)
  | .commented, [.node stmt, .list comments] => some (.commented pos stmt comments)
  | .symbolLit, [.node value] => some (.symbolLit pos value)
  | .array, [.list elements] => some (.array pos elements)
  | .assoc, [.node key, .node value] => some (.assoc pos key value)
  | .hash, [.list assocs] => some (.hash pos assocs)
  | .bareAssocHash, [.list assocs] => some (.bareAssocHash pos assocs)
  | .lambda, [.optional parameters, .list body] => some (.lambda pos parameters body)
  | .varRef, [.node inner] => some (.varRef pos inner)
  | .varField, [.optional inner] => some (.varField pos inner)
  | .constPathRef, [.node parent, .node ident] => some (.constPathRef pos parent ident)
  | .field, [.node receiver, .text operator, .node ident] =>
      some (.field pos receiver operator ident)
  | .aref, [.node receiver, .optional arguments] => some (.aref pos receiver arguments)
  | .arefField, [.node receiver, .optional arguments] => some (.arefField pos receiver arguments)
  | .assign, [.node target, .node value] => some (.assign pos target value)
  | .opAssign, [.node target, .text operator, .node value] =>
      some (.opAssign pos target operator value)
  | .valueList, [.list values] => some (.valueList pos values)
  | .splatValueList, [.list values] => some (.splatValueList pos values)
  | .splat, [.node value] => some (.splat pos value)
  | .doubleSplat, [.node value] => some (.doubleSplat pos value)
  | .args, [.list parts] => some (.args pos parts)
  | .argParen, [.optional arguments] => some (.argParen pos arguments)
  | .blockArg, [.optional value] => some (.blockArg pos value)
  | .call, [.node receiver, .text operator, .node message, .optional arguments, .list comments] =>
      some (.call pos receiver operator message arguments comments)
  | .vcall, [.node message] => some (.vcall pos message)
  | .fcall, [.node message, .optional arguments] => some (.fcall pos message arguments)
  | .command, [.node message, .node arguments] => some (.command pos message arguments)
  | .methodAddBlock, [.node callee, .node block] => some (.methodAddBlock pos callee block)
  | .optionalParam, [.node ident, .node default] => some (.optionalParam pos ident default)
  | .restParam, [.optional ident] => some (.restParam pos ident)
  | .excessedComma, [] => some (.excessedComma pos)
  | .keywordParam, [.node label, .optional default] => some (.keywordParam pos label default)
  | .keywordRestParam, [.optional ident] => some (.keywordRestParam pos ident)
  | .blockParam, [.node ident] => some (.blockParam pos ident)
  | .params, [.list required, .list optional, .optional rest, .list post, .list keywords,
      .optional keywordRest, .optional block] =>
      some (.params pos required optional rest post keywords keywordRest block)
  | .blockVar, [.optional parameters] => some (.blockVar pos parameters)
  | .rescue, [.list exceptions, .optional target, .list stmts, .optional next] =>
      some (.rescue pos exceptions target stmts next)
  | .bodyStmt, [.list stmts, .optional handler, .optionalList elseBody, .optionalList ensure] =>
      some (.bodyStmt pos stmts handler elseBody ensure)
  | .braceBlock, [.optional parameters, .list body] => some (.braceBlock pos parameters body)
  | .doBlock, [.optional parameters, .node body] => some (.doBlock pos parameters body)
  | .binary, [.node left, .text op, .node right] => some (.binary pos left op right)
  | .unary, [.text op, .node operand] => some (.unary pos op operand)
  | .paren, [.node expr] => some (.paren pos expr)
  | .bare, [] => some (.bare pos)
  | _, _ => none

/-- A node is put together again from its kind, place and fields. -/
theorem Node.ofFields?_fields (node : Node) :
    Node.ofFields? node.pos node.kind (node.fields.map (·.2)) = some node := by
  cases node <;> rfl

end RubyFormat
