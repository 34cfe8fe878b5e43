import RubyFormat.Layout.Basic
import RubyFormat.Token.Basic

/-!
# The tokens of a formatted text

A mark is a token with the blanks that stand before it.  `Node.marks` follows the layout of a tree
and gives the marks of its text, so that the text can be talked about token by token.  Whether the
group of a node is broken is asked of its document; the marks of a node then depend on nothing but
the depth at which it stands, and the first of them has no blanks of its own.
-/

namespace RubyFormat

/-- A token of a text and the number of blanks before it. -/
structure Mark where
  blanks : Nat
  kind : TokenKind
  text : String
  deriving DecidableEq, Repr

/-- The blanks at the start of a line. -/
def Options.indent (options : Options) (level : Nat) : Nat :=
  (options.indentWidth * level).toNat

/-- The blanks behind a line of a group, which is broken or flat. -/
def Options.gap (options : Options) (broken : Bool) (level : Nat) : Nat :=
  if broken then options.indent level else 1

namespace Mark

/-- The characters of a token; a symbol has its colon. -/
def spelling (mark : Mark) : List Char :=
  match mark.kind with
  | .symbol => ':' :: mark.text.toList
  | _ => mark.text.toList

/-- The characters of a mark. -/
def chars (mark : Mark) : List Char :=
  List.replicate mark.blanks ' ' ++ mark.spelling

/-- An operator or another sign. -/
def op (text : String) : Mark := ⟨0, .op, text⟩

/-- A keyword. -/
def word (text : String) : Mark := ⟨0, .keyword, text⟩

/-- The end of a line. -/
def newline : Mark := ⟨0, .newline, "\n"⟩

/-- The marks with the given blanks before them. -/
def behind (blanks : Nat) : List Mark → List Mark
  | [] => []
  | mark :: rest => { mark with blanks := blanks } :: rest

/-- The end of the line, where a group is broken. -/
def breakIf (broken : Bool) : List Mark :=
  if broken then [newline] else []

/-- Parts with a separator between each two of them, and blanks behind it. -/
def join (separator : List Mark) (blanks : Nat) : List (List Mark) → List Mark
  | [] => []
  | first :: rest => first ++ rest.flatMap fun part => separator ++ behind blanks part

/-- Items with commas between them, in a group at a depth. -/
def listed (options : Options) (broken : Bool) (level : Nat) (items : List (List Mark)) :
    List Mark :=
  join (op "," :: breakIf broken) (options.gap broken level) items

/-- Items with commas between them on one line. -/
def inLine (items : List (List Mark)) : List Mark :=
  join [op ","] 1 items

/-- Statements, each on its own line. -/
def stmts (options : Options) (level : Nat) (items : List (List Mark)) : List Mark :=
  join [newline] (options.indent level) items

/-- Statements on lines of their own at a depth, if there are any. -/
def indentedStmts (options : Options) (level : Nat) (items : List (List Mark)) : List Mark :=
  if items.isEmpty then []
  else newline :: behind (options.indent level) (stmts options level items)

/-- What hangs in a group at a depth. -/
def hanging (options : Options) (broken : Bool) (level : Nat) (part : List Mark) : List Mark :=
  breakIf broken ++ behind (options.gap broken level) part

/-- What stands between braces at a depth, and the brace that closes it. -/
def braced (options : Options) (broken : Bool) (level : Nat) (part : List Mark) : List Mark :=
  hanging options broken (level + 1) part ++ hanging options broken level [op "\x7d"]

/-- Comments behind a construct on its line. -/
def trailing (comments : List (List Mark)) : List Mark :=
  comments.flatMap (behind 1)

/-- The argument that replaces a block. -/
def shorthand (extra : String) : List Mark :=
  [op "&", ⟨0, .symbol, String.ofList (extra.toList.drop 2)⟩]

/-- Arguments in parentheses with one more at the end. -/
def parenWith (extra : String) (args : Option (List Mark)) : List Mark :=
  op "(" :: (args.map fun args => args ++ op "," :: behind 1 (shorthand extra)).getD
    (shorthand extra) ++ [op ")"]

/-- The operator between two operands or before one, which can be a word. -/
def operator (text : String) : Mark :=
  ⟨0, if keywords.contains text then .keyword else .op, text⟩

/-- A clause of a body that a word opens. -/
def clause (options : Options) (level : Nat) (text : String) (items : List (List Mark)) :
    List Mark :=
  newline :: behind (options.indent level) [word text] ++ indentedStmts options (level + 1) items

end Mark

/-- The kind of token that a name is; behind a call operator, a name with a capital is a constant. -/
def NameKind.tokenKind (text : String) : NameKind → TokenKind
  | .ident => if (text.toList.head?.map Char.isUpper).getD false then .const else .ident
  | .const => .const
  | .ivar => .ivar
  | .cvar => .cvar
  | .gvar => .gvar
  | .keyword => .keyword
  | .label => .label
  | .op => .op

/-- The kind of token that a literal is. -/
def LiteralKind.tokenKind : LiteralKind → TokenKind
  | .int => .int
  | .float => .float
  | .string => .string
  | .regexp => .regexp

namespace Node

/-- The text of a name. -/
def nameText : Node → String
  | .name _ _ text => text
  | _ => ""

/-- Whether the group of a node is broken. -/
def isBroken (options : Options) (parents : List Node) (node : Node) : Bool :=
  (node.layout options parents).hasHardLine

/-- The argument that replaces the block of a call, if it is collapsed. -/
def extra? (options : Options) (parents : List Node) : Node → Option String
  | node@(.methodAddBlock _ callee block) =>
      if options.toProc && callee.takesBlockArgument then node.shorthand? parents block else none
  | _ => none

open Mark in
mutual

/-- The marks of a node at a depth, below the given nodes. -/
def marks (options : Options) (parents : List Node) (level : Nat) : Node → List Mark
  | .name kind _ text => [⟨0, kind.tokenKind text, text⟩]
  | .literal kind _ raw => [⟨0, kind.tokenKind, raw⟩]
  | .callShorthand _ => []
  | .comment _ text => [⟨0, .comment, text⟩]
  | node@(.program _ stmts) =>
      Mark.stmts options level (marksList options (node :: parents) level stmts)
        ++ breakIf (!stmts.isEmpty)
  | node@(.commented _ stmt comments) =>
      marks options (node :: parents) level stmt
        ++ trailing (marksList options (node :: parents) level comments)
  | .symbolLit _ value => [⟨0, .symbol, value.nameText⟩]
  | node@(.array _ elements) =>
      op "[" :: listed options (node.isBroken options parents) level
        (marksList options (node :: parents) level elements) ++ [op "]"]
  | node@(.assoc _ key value) =>
      marks options (node :: parents) level key
        ++ (if key.isLabel then [] else behind 1 [op "=>"])
        ++ hanging options (node.isBroken options parents) (level + 1)
          (marks options (node :: parents) (level + 1) value)
  | node@(.hash _ assocs) =>
      op "\x7b" ::
        if assocs.isEmpty then [op "\x7d"]
        else braced options (node.isBroken options parents) level
          (listed options (node.isBroken options parents) (level + 1)
            (marksList options (node :: parents) (level + 1) assocs))
  | node@(.bareAssocHash _ assocs) =>
      listed options (node.isBroken options parents) level
        (marksList options (node :: parents) level assocs)
  | node@(.lambda _ parameters body) =>
      op "->" ::
        ((marksOption options (node :: parents) level parameters).map fun parameters =>
          op "(" :: parameters ++ [op ")"]).getD []
        ++ behind 1 [op "\x7b"]
        ++ if body.isEmpty then [op "\x7d"]
          else braced options (node.isBroken options parents) level
            (Mark.stmts options (level + 1)
              (marksList options (node :: parents) (level + 1) body))
  | node@(.varRef _ inner) => marks options (node :: parents) level inner
  | node@(.varField _ inner) => (marksOption options (node :: parents) level inner).getD []
  | node@(.constPathRef _ parent ident) =>
      marks options (node :: parents) level parent ++ op "::" ::
        marks options (node :: parents) level ident
  | node@(.field _ receiver operator ident) =>
      marks options (node :: parents) level receiver ++ op operator ::
        marks options (node :: parents) level ident
  | node@(.aref _ receiver arguments) =>
      marks options (node :: parents) level receiver ++ op "[" ::
        (marksOption options (node :: parents) level arguments).getD [] ++ [op "]"]
  | node@(.arefField _ receiver arguments) =>
      marks options (node :: parents) level receiver ++ op "[" ::
        (marksOption options (node :: parents) level arguments).getD [] ++ [op "]"]
  | node@(.assign _ target value) =>
      marks options (node :: parents) level target ++ behind 1 [op "="]
        ++ if value.staysOnLine then behind 1 (marks options (node :: parents) level value)
          else hanging options (node.isBroken options parents) (level + 1)
            (marks options (node :: parents) (level + 1) value)
  | node@(.opAssign _ target operator value) =>
      marks options (node :: parents) level target ++ behind 1 [op operator]
        ++ hanging options (node.isBroken options parents) (level + 1)
          (marks options (node :: parents) (level + 1) value)
  | node@(.valueList _ values) =>
      listed options (node.isBroken options parents) level
        (marksList options (node :: parents) level values)
  | node@(.splatValueList _ values) =>
      listed options (node.isBroken options parents) level
        (marksList options (node :: parents) level values)
  | node@(.splat _ value) => op "*" :: marks options (node :: parents) level value
  | node@(.doubleSplat _ value) => op "**" :: marks options (node :: parents) level value
  | node@(.args _ parts) =>
      listed options (node.isBroken options parents) level
        (marksList options (node :: parents) level parts)
  | node@(.argParen _ arguments) =>
      op "(" :: (marksOption options (node :: parents) level arguments).getD [] ++ [op ")"]
  | node@(.blockArg _ value) =>
      op "&" :: (marksOption options (node :: parents) level value).getD []
  | node@(.call _ receiver operator message arguments comments) =>
      marks options (node :: parents) level receiver ++ op operator ::
        marks options (node :: parents) level message
        ++ (marksOption options (node :: parents) level arguments).getD []
        ++ trailing (marksList options (node :: parents) level comments)
  | node@(.vcall _ message) => marks options (node :: parents) level message
  | node@(.fcall _ message arguments) =>
      marks options (node :: parents) level message
        ++ (marksOption options (node :: parents) level arguments).getD []
  | node@(.command _ message arguments) =>
      marks options (node :: parents) level message
        ++ behind 1 (marks options (node :: parents) level arguments)
  | node@(.methodAddBlock _ callee block) =>
      match node.extra? options parents with
      | some extra => marksWith options (node :: parents) level extra callee
      | none =>
          marks options (node :: parents) level callee
            ++ behind 1 (marks options (node :: parents) level block)
  | node@(.optionalParam _ ident default) =>
      marks options (node :: parents) level ident ++ behind 1 [op "="]
        ++ behind 1 (marks options (node :: parents) level default)
  | node@(.restParam _ ident) =>
      op "*" :: (marksOption options (node :: parents) level ident).getD []
  | .excessedComma _ => [op ","]
  | node@(.keywordParam _ label default) =>
      marks options (node :: parents) level label
        ++ behind 1 ((marksOption options (node :: parents) level default).getD [])
  | node@(.keywordRestParam _ ident) =>
      op "**" :: (marksOption options (node :: parents) level ident).getD []
  | node@(.blockParam _ ident) => op "&" :: marks options (node :: parents) level ident
  | node@(.params _ required optional rest post keywords keywordRest block) =>
      inLine (marksList options (node :: parents) level required
        ++ marksList options (node :: parents) level optional
        ++ (if (rest.map isRestParam).getD false then
            (marksOption options (node :: parents) level rest).toList else [])
        ++ marksList options (node :: parents) level post
        ++ marksList options (node :: parents) level keywords
        ++ (marksOption options (node :: parents) level keywordRest).toList
        ++ (marksOption options (node :: parents) level block).toList)
        ++ if (rest.map isExcessedComma).getD false then
            (marksOption options (node :: parents) level rest).getD []
          else []
  | node@(.blockVar _ parameters) =>
      match marksOption options (node :: parents) level parameters with
      | none => [op "||"]
      | some parameters => op "|" :: parameters ++ [op "|"]
  | node@(.rescue _ exceptions target stmts next) =>
      newline :: behind (options.indent level) [word "rescue"]
        ++ behind 1 (inLine (marksList options (node :: parents) level exceptions))
        ++ ((marksOption options (node :: parents) level target).map fun target =>
          behind 1 [op "=>"] ++ behind 1 target).getD []
        ++ indentedStmts options (level + 1) (marksList options (node :: parents) (level + 1) stmts)
        ++ (marksOption options (node :: parents) level next).getD []
  | node@(.bodyStmt _ stmts handler elseBody ensure) =>
      indentedStmts options (level + 1) (marksList options (node :: parents) (level + 1) stmts)
        ++ (marksOption options (node :: parents) level handler).getD []
        ++ ((marksOptionList options (node :: parents) (level + 1) elseBody).map
          (clause options level "else")).getD []
        ++ ((marksOptionList options (node :: parents) (level + 1) ensure).map
          (clause options level "ensure")).getD []
  | node@(.braceBlock _ parameters body) =>
      op "\x7b" :: behind 1 ((marksOption options (node :: parents) level parameters).getD [])
        ++ if body.isEmpty then behind (if parameters.isSome then 1 else 0) [op "\x7d"]
          else braced options (node.isBroken options parents) level
            (Mark.stmts options (level + 1)
              (marksList options (node :: parents) (level + 1) body))
  | node@(.doBlock _ parameters body) =>
      word "do" :: behind 1 ((marksOption options (node :: parents) level parameters).getD [])
        ++ marks options (node :: parents) level body
        ++ newline :: behind (options.indent level) [word "end"]
  | node@(.binary _ left op right) =>
      if Layout.tightOperators.contains op then
        marks options (node :: parents) level left ++ Mark.op op ::
          marks options (node :: parents) level right
      else
        marks options (node :: parents) level left ++ behind 1 [operator op]
          ++ hanging options (node.isBroken options parents) (level + 1)
            (marks options (node :: parents) (level + 1) right)
  | node@(.unary _ op operand) =>
      if op = "not" then word "not" :: behind 1 (marks options (node :: parents) level operand)
      else Mark.op op :: marks options (node :: parents) level operand
  | node@(.paren _ expr) =>
      op "(" :: marks options (node :: parents) level expr ++ [op ")"]
  | .bare _ => []
termination_by structural node => node

/-- The marks of a call with one more argument at the end. -/
def marksWith (options : Options) (parents : List Node) (level : Nat) (extra : String) :
    Node → List Mark
  | node@(.call _ receiver operator message arguments _) =>
      marks options (node :: parents) level receiver ++ op operator ::
        marks options (node :: parents) level message
        ++ marksParenWith options (node :: parents) level extra arguments
  | node@(.fcall _ message arguments) =>
      marks options (node :: parents) level message
        ++ marksParenWith options (node :: parents) level extra arguments
  | node@(.command _ message arguments) =>
      marks options (node :: parents) level message
        ++ behind 1 (marks options (node :: parents) level arguments) ++ op "," ::
        behind 1 (shorthand extra)
  | _ => []
termination_by structural node => node

/-- The marks of arguments in parentheses with one more at the end. -/
def marksParenWith (options : Options) (parents : List Node) (level : Nat) (extra : String) :
    Option Node → List Mark
  | none => parenWith extra none
  | some node@(.argParen _ arguments) =>
      parenWith extra (marksOption options (node :: parents) level arguments)
  | some _ => []
termination_by structural node => node

/-- The marks of the nodes of a list. -/
def marksList (options : Options) (parents : List Node) (level : Nat) :
    List Node → List (List Mark)
  | [] => []
  | node :: rest => marks options parents level node :: marksList options parents level rest
termination_by structural nodes => nodes

/-- The marks of a node that may be absent. -/
def marksOption (options : Options) (parents : List Node) (level : Nat) :
    Option Node → Option (List Mark)
  | none => none
  | some node => some (marks options parents level node)
termination_by structural node => node

/-- The marks of the nodes of a list that may be absent. -/
def marksOptionList (options : Options) (parents : List Node) (level : Nat) :
    Option (List Node) → Option (List (List Mark))
  | none => none
  | some nodes => some (marksList options parents level nodes)
termination_by structural nodes => nodes

end

attribute [local simp] marks marksWith marksParenWith marksList marksOption marksOptionList

@[simp]
theorem marksList_eq_map (options : Options) (parents : List Node) (level : Nat)
    (nodes : List Node) :
    marksList options parents level nodes = nodes.map (marks options parents level) := by
  induction nodes with
  | nil => rfl
  | cons node rest ih => simp [ih]

@[simp]
theorem marksOption_eq_map (options : Options) (parents : List Node) (level : Nat)
    (node : Option Node) :
    marksOption options parents level node = node.map (marks options parents level) := by
  cases node <;> rfl

@[simp]
theorem marksOptionList_eq_map (options : Options) (parents : List Node) (level : Nat)
    (nodes : Option (List Node)) :
    marksOptionList options parents level nodes =
      nodes.map (List.map (marks options parents level)) := by
  cases nodes <;> simp

/-- The parameters of a list in the order of their layout; a closing comma is not one of them. -/
def ordered : Node → List Node
  | .params _ required optional rest post keywords keywordRest block =>
      required ++ optional ++ (if (rest.map isRestParam).getD false then rest.toList else []) ++ post
        ++ keywords ++ keywordRest.toList ++ block.toList
  | _ => []

/-- Whether the parameters of a list are followed by a comma. -/
def hasExcessedComma : Node → Bool
  | .params _ _ _ rest _ _ _ _ => (rest.map isExcessedComma).getD false
  | _ => false

/-- A call with a block is laid out with the argument that replaces its block, or with the block. -/
theorem layout_methodAddBlock (options : Options) (parents : List Node) (pos : Pos)
    (callee block : Node) :
    (Node.methodAddBlock pos callee block).layout options parents =
      match (Node.methodAddBlock pos callee block).extra? options parents with
      | some extra => callee.layoutWith options (.methodAddBlock pos callee block :: parents) extra
      | none =>
          .concat [callee.layout options (.methodAddBlock pos callee block :: parents), " ",
            block.layout options (.methodAddBlock pos callee block :: parents)] :=
  rfl

theorem exists_of_extra? {options : Options} {parents : List Node} {pos : Pos}
    {callee block : Node} {extra : String}
    (found : (Node.methodAddBlock pos callee block).extra? options parents = some extra) :
    ∃ name, block.soleMessage? = some name ∧ extra = "&:" ++ name := by
  have sent : (Node.methodAddBlock pos callee block).shorthand? parents block = some extra := by
    simp only [extra?] at found
    exact (Option.ite_none_right_eq_some.1 found).2
  unfold shorthand? at sent
  split at sent
  · cases sent
  next name message =>
    exact ⟨name, message, (Option.some.inj (Option.ite_none_left_eq_some.1 sent).2).symm⟩

end Node

end RubyFormat
