import RubyFormat.Node.Field
import RubyFormat.Proofs.Run

/-!
# The grammar as a relation

`Reads rule s field s'` says that the rule of the grammar, from the state `s`, reads the nodes in
`field` and leaves the state `s'`.  There is one constructor for each way in which a rule can go on,
and a repetition is a rule of its own, which takes one item and then goes on with what it has.  What
holds of everything that is read is proved by induction on this relation; it does not speak of
levels, of bounds or of errors.  A long induction has a lemma for each family of rules.

The parser takes every parameter, whatever stands before it in its list.  `Derives fits` is the same
relation with a condition `fits` on each parameter and those before it, and `Reads` the one without.
-/

namespace RubyFormat

/-- The rules of the grammar. -/
inductive Rule where
  | program
  | stmts (words : List String)
  | stmt
  | assignment (takesList : Bool)
  | values
  | listedValue
  | expression
  | joined (left : Node)
  | negated
  | range
  | operations (levels : List OperatorLevel)
  | chain (level : OperatorLevel) (tighter : List OperatorLevel) (left : Node)
  | minus
  | power
  | unary
  | operand
  | suffixes (expr : Node)
  | callSuffix (receiver : Node)
  | primary
  | block (braces : Bool) (call : Node)
  | braceBlock
  | doBlock
  | bodyStmt
  | rescueChain
  | exceptions
  | holder
  | clause (word : String) (words : List String)
  | blockVar
  | lambdaParams
  | lambdaBody
  | params (closer : String)
  | paramList (closer : String) (pos : Pos) (list : ParamList)
  | param (closer : String)
  | items (item : Rule) (closer : Option String)
  | entries (item : Rule) (closer : String)
  | argument
  | element
  | entry
  | arguments (closer : Option String)
  | parenArguments
  | indexArguments

/-- The families of rules. -/
inductive Rule.Family where
  | statements
  | assignments
  | junctions
  | operations
  | messages
  | operands
  | blocks
  | clauses
  | parameters
  | lists
  | arguments

/-- The family of a rule. -/
def Rule.family : Rule → Family
  | program | stmts _ | stmt => .statements
  | assignment _ | values | listedValue => .assignments
  | expression | joined _ | negated | range => .junctions
  | operations _ | chain _ _ _ | minus | power | unary => .operations
  | operand | suffixes _ | callSuffix _ => .messages
  | primary => .operands
  | block _ _ | braceBlock | doBlock | blockVar | lambdaParams | lambdaBody => .blocks
  | bodyStmt | rescueChain | exceptions | holder | clause _ _ => .clauses
  | params _ | paramList _ _ _ | param _ => .parameters
  | items _ _ | entries _ _ | element | entry => .lists
  | arguments _ | argument | parenArguments | indexArguments => .arguments

/-- The rule for the right side of an assignment. -/
def Rule.rightSide (takesList : Bool) : Rule :=
  if takesList then .values else .assignment false

/-- The node of a token that is an operand by itself. -/
def Token.leaf? (token : Token) : Option Node :=
  match token.kind with
  | .int => some (.literal .int token.pos token.text)
  | .float => some (.literal .float token.pos token.text)
  | .string => some (.literal .string token.pos token.text)
  | .regexp => some (.literal .regexp token.pos token.text)
  | .symbol =>
      if token.text.isEmpty then none
      else some (.symbolLit token.pos (Parse.symbolName token.pos token.text))
  | .ivar => some (.varRef token.pos (.name .ivar token.pos token.text))
  | .cvar => some (.varRef token.pos (.name .cvar token.pos token.text))
  | .gvar => some (.varRef token.pos (.name .gvar token.pos token.text))
  | .keyword =>
      if literalKeywords.contains token.text then
        some (.varRef token.pos (.name .keyword token.pos token.text))
      else none
  | _ => none

/-- An operand by itself is a literal, a symbol or a variable with a mark of its own. -/
theorem Token.leaf?_cases {token : Token} {node : Node} (found : token.leaf? = some node) :
    (∃ kind, node = .literal kind token.pos token.text) ∨
      (∃ kind, node = .symbolLit token.pos (.name kind token.pos token.text)) ∨
      ∃ kind ≠ .ident, node = .varRef token.pos (.name kind token.pos token.text) := by
  unfold leaf? at found
  split at found
  case h_5 =>
    split at found
    · cases found
    · cases found
      exact .inr (.inl ⟨_, rfl⟩)
  case h_9 =>
    split at found
    · cases found
      exact .inr (.inr ⟨.keyword, by decide, rfl⟩)
    · cases found
  case h_6 | h_7 | h_8 =>
    cases found
    exact .inr (.inr ⟨_, by decide, rfl⟩)
  all_goals cases found
  all_goals exact .inl ⟨_, rfl⟩

/-- The name in a token that can be called, as a name or as a constant. -/
def Token.callee? (token : Token) : Option Node :=
  match token.kind with
  | .ident => some (.name .ident token.pos token.text)
  | .const => some (.name .const token.pos token.text)
  | _ => none

theorem Token.callee?_eq_name {token : Token} {node : Node} (found : token.callee? = some node) :
    ∃ kind, node = .name kind token.pos token.text := by
  unfold callee? at found
  split at found
  all_goals cases found
  all_goals exact ⟨_, rfl⟩

/-- The message in a token behind a call operator. -/
def Token.message? (token : Token) : Option Node :=
  match token.kind with
  | .ident | .keyword => some (.name .ident token.pos token.text)
  | .const => some (.name .const token.pos token.text)
  | .op =>
      if Parse.methodOperators.contains token.text then
        some (.name .op token.pos token.text)
      else none
  | _ => none

theorem Token.message?_eq_name {token : Token} {node : Node} (found : token.message? = some node) :
    ∃ kind, node = .name kind token.pos token.text := by
  unfold message? at found
  split at found
  case h_4 =>
    split at found
    · cases found
      exact ⟨_, rfl⟩
    · cases found
  all_goals cases found
  all_goals exact ⟨_, rfl⟩

/-- Whether a message is a constant of a module rather than a call. -/
def Token.isConstantOf (token : Token) (operator : String) : Bool :=
  token.kind == .const && operator == "::"

/-- Whether an index starts right behind what comes before. -/
def Token.isIndex (token : Token) : Bool :=
  token.isOp "[" && !token.spaced

/-- Whether a token is a keyword that no statement starts with. -/
def Token.isForeignKeyword (token : Token) : Bool :=
  token.kind == .keyword && !literalKeywords.contains token.text && token.text != "not"

/-- Whether statements end before a token. -/
def Token.endsStmts (words : List String) (token : Token) : Bool :=
  token.kind == .eof || Parse.endsBody words token

/-- Whether a token only stands between statements. -/
def Token.isBreak (token : Token) : Bool :=
  token.kind == .newline || token.isOp ";"

/-- Whether a rescue clause names no exceptions before a token. -/
def Token.endsExceptions (token : Token) : Bool :=
  token.endsStatement || token.isWord "=>" || token.isWord "then"

/-- The parameters with one more behind them. -/
def ParamList.add (list : ParamList) : Node → ParamList
  | .restParam pos name => { list with rest := some (.restParam pos name) }
  | .keywordRestParam pos name => { list with keywordRest := some (.keywordRestParam pos name) }
  | .blockParam pos name => { list with block := some (.blockParam pos name) }
  | .keywordParam pos label default =>
      { list with keywords := list.keywords ++ [.keywordParam pos label default] }
  | .optionalParam pos name default =>
      { list with optional := list.optional ++ [.optionalParam pos name default] }
  | name => list.addName name

open ParseState in
/-- A rule reads nodes from one state to another, and every parameter fits those before it. -/
inductive Derives (fits : ParamList → Node → Prop) :
    Rule → ParseState → Field Node → ParseState → Prop where
  | program {s s₁ : ParseState} {body : List Node} :
      Derives fits (.stmts []) s (.list body) s₁ → s₁.current.kind = .eof →
      Derives fits .program s (.node (.program s.current.pos body)) s₁
  | stmtsDone {words : List String} {s : ParseState} :
      s.current.endsStmts words = true → Derives fits (.stmts words) s (.list []) s
  | stmtsBreak {words : List String} {s s₁ : ParseState} {field : Field Node} :
      s.current.endsStmts words = false → s.current.isBreak = true →
      Derives fits (.stmts words) s.next field s₁ → Derives fits (.stmts words) s field s₁
  | stmtsComment {words : List String} {s s₁ : ParseState} {rest : List Node} :
      s.current.endsStmts words = false → s.current.kind = .comment →
      Derives fits (.stmts words) s.next (.list rest) s₁ →
      Derives fits (.stmts words) s (.list (.comment s.current.pos s.current.text :: rest)) s₁
  | stmtsRemark {words : List String} {s s₁ s₂ : ParseState} {stmt : Node} {rest : List Node} :
      s.current.endsStmts words = false → s.current.isBreak = false →
      s.current.kind ≠ .comment → Derives fits .stmt s (.node stmt) s₁ →
      s₁.current.kind = .comment → Derives fits (.stmts words) s₁.next (.list rest) s₂ →
      Derives fits (.stmts words) s
        (.list (stmt.withComment (.comment s₁.current.pos s₁.current.text) :: rest)) s₂
  | stmtsLast {words : List String} {s s₁ : ParseState} {stmt : Node} :
      s.current.endsStmts words = false → s.current.isBreak = false →
      s.current.kind ≠ .comment → Derives fits .stmt s (.node stmt) s₁ →
      s₁.current.kind ≠ .comment → Parse.endsBody words s₁.current = true →
      Derives fits (.stmts words) s (.list [stmt]) s₁
  | stmtsMore {words : List String} {s s₁ s₂ : ParseState} {stmt : Node} {rest : List Node} :
      s.current.endsStmts words = false → s.current.isBreak = false →
      s.current.kind ≠ .comment → Derives fits .stmt s (.node stmt) s₁ →
      s₁.current.kind ≠ .comment → Parse.endsBody words s₁.current = false →
      s₁.current.endsStatement = true → Derives fits (.stmts words) s₁ (.list rest) s₂ →
      Derives fits (.stmts words) s (.list (stmt :: rest)) s₂
  | stmt {s s₁ : ParseState} {field : Field Node} :
      s.current.isForeignKeyword = false → Derives fits (.assignment true) s field s₁ →
      s₁.current.isWord "," = false → Derives fits .stmt s field s₁
  | unassigned {takesList : Bool} {s s₁ : ParseState} {field : Field Node} :
      Derives fits .expression s field s₁ → s₁.current.isOp "=" = false →
      s₁.current.isOpIn Parse.assignOperators = false →
      Derives fits (.assignment takesList) s field s₁
  | assign {takesList : Bool} {s s₁ s₂ s₃ s₄ : ParseState} {expr target value : Node} :
      Derives fits .expression s (.node expr) s₁ → s₁.current.isOp "=" = true →
      (Parse.target expr).run s₁ = .ok (target, s₂) → s₂.next.Skips s₃ →
      Derives fits (.rightSide takesList) s₃ (.node value) s₄ →
      Derives fits (.assignment takesList) s (.node (.assign s.current.pos target value)) s₄
  | opAssign {takesList : Bool} {s s₁ s₂ s₃ s₄ : ParseState} {expr target value : Node} :
      Derives fits .expression s (.node expr) s₁ →
      s₁.current.isOp "=" = false → s₁.current.isOpIn Parse.assignOperators = true →
      (Parse.target expr).run s₁ = .ok (target, s₂) → s₂.next.Skips s₃ →
      Derives fits (.assignment false) s₃ (.node value) s₄ →
      Derives fits (.assignment takesList) s
        (.node (.opAssign s.current.pos target s₁.current.text value)) s₄
  | values {s s₁ : ParseState} {values : List Node} :
      Derives fits (.items .listedValue none) s (.list values) s₁ →
      Derives fits .values s (.node (Node.ofValues s.current.pos values)) s₁
  | listedSplat {s s₁ : ParseState} {value : Node} :
      s.current.isWord "*" = true → Derives fits .range s.next (.node value) s₁ →
      Derives fits .listedValue s (.node (.splat s.current.pos value)) s₁
  | listedPlain {s s₁ : ParseState} {field : Field Node} :
      s.current.isWord "*" = false → Derives fits (.assignment false) s field s₁ →
      Derives fits .listedValue s field s₁
  | expression {s s₁ s₂ : ParseState} {left : Node} {field : Field Node} :
      Derives fits .negated s (.node left) s₁ → Derives fits (.joined left) s₁ field s₂ →
      Derives fits .expression s field s₂
  | joinedDone {s : ParseState} {left : Node} :
      (s.current.isWord "and" || s.current.isWord "or") = false →
      Derives fits (.joined left) s (.node left) s
  | joinedMore {s s₁ s₂ s₃ : ParseState} {left right : Node} {field : Field Node} :
      (s.current.isWord "and" || s.current.isWord "or") = true → s.next.Skips s₁ →
      Derives fits .negated s₁ (.node right) s₂ →
      Derives fits (.joined (.binary left.pos left s.current.text right)) s₂ field s₃ →
      Derives fits (.joined left) s field s₃
  | not {s s₁ : ParseState} {operand : Node} :
      s.current.isWord "not" = true → Derives fits .negated s.next (.node operand) s₁ →
      Derives fits .negated s (.node (.unary s.current.pos "not" operand)) s₁
  | notNegated {s s₁ : ParseState} {field : Field Node} :
      s.current.isWord "not" = false → Derives fits .range s field s₁ →
      Derives fits .negated s field s₁
  | rangeBetween {s s₁ s₂ : ParseState} {left right : Node} :
      Derives fits (.operations OperatorLevel.all) s (.node left) s₁ →
      (s₁.current.isWord ".." || s₁.current.isWord "...") = true →
      Derives fits (.operations OperatorLevel.all) s₁.next (.node right) s₂ →
      Derives fits .range s (.node (.binary left.pos left s₁.current.text right)) s₂
  | notRange {s s₁ : ParseState} {field : Field Node} :
      Derives fits (.operations OperatorLevel.all) s field s₁ →
      (s₁.current.isWord ".." || s₁.current.isWord "...") = false →
      Derives fits .range s field s₁
  | tightest {s s₁ : ParseState} {field : Field Node} :
      Derives fits .minus s field s₁ → Derives fits (.operations []) s field s₁
  | level {level : OperatorLevel} {tighter : List OperatorLevel} {s s₁ s₂ : ParseState}
      {left : Node} {field : Field Node} :
      Derives fits (.operations tighter) s (.node left) s₁ →
      Derives fits (.chain level tighter left) s₁ field s₂ →
      Derives fits (.operations (level :: tighter)) s field s₂
  | chainDone {level : OperatorLevel} {tighter : List OperatorLevel} {s : ParseState}
      {left : Node} :
      s.current.isOpIn level.operators = false →
      Derives fits (.chain level tighter left) s (.node left) s
  | chainMore {level : OperatorLevel} {tighter : List OperatorLevel} {s s₁ s₂ s₃ : ParseState}
      {left right : Node} {field : Field Node} :
      level.chains = true → s.current.isOpIn level.operators = true → s.next.Skips s₁ →
      Derives fits (.operations tighter) s₁ (.node right) s₂ →
      Derives fits (.chain level tighter (.binary left.pos left s.current.text right)) s₂ field s₃ →
      Derives fits (.chain level tighter left) s field s₃
  | chainOnce {level : OperatorLevel} {tighter : List OperatorLevel} {s s₁ s₂ : ParseState}
      {left right : Node} :
      level.chains = false → s.current.isOpIn level.operators = true → s.next.Skips s₁ →
      Derives fits (.operations tighter) s₁ (.node right) s₂ →
      Derives fits (.chain level tighter left) s
        (.node (.binary left.pos left s.current.text right)) s₂
  | minus {s s₁ : ParseState} {operand : Node} :
      s.current.isWord "-" = true → Derives fits .minus s.next (.node operand) s₁ →
      Derives fits .minus s (.node (.unary s.current.pos "-" operand)) s₁
  | notMinus {s s₁ : ParseState} {field : Field Node} :
      s.current.isWord "-" = false → Derives fits .power s field s₁ → Derives fits .minus s field s₁
  | power {s s₁ s₂ s₃ : ParseState} {left right : Node} :
      Derives fits .unary s (.node left) s₁ → s₁.current.isWord "**" = true → s₁.next.Skips s₂ →
      Derives fits .minus s₂ (.node right) s₃ →
      Derives fits .power s (.node (.binary left.pos left "**" right)) s₃
  | notPower {s s₁ : ParseState} {field : Field Node} :
      Derives fits .unary s field s₁ → s₁.current.isWord "**" = false →
      Derives fits .power s field s₁
  | unary {s s₁ : ParseState} {operand : Node} :
      (s.current.isWord "!" || s.current.isWord "~" || s.current.isWord "+") = true →
      Derives fits .unary s.next (.node operand) s₁ →
      Derives fits .unary s (.node (.unary s.current.pos s.current.text operand)) s₁
  | notUnary {s s₁ : ParseState} {field : Field Node} :
      (s.current.isWord "!" || s.current.isWord "~" || s.current.isWord "+") = false →
      Derives fits .operand s field s₁ → Derives fits .unary s field s₁
  | operand {s s₁ s₂ : ParseState} {expr : Node} {field : Field Node} :
      Derives fits .primary s (.node expr) s₁ → Derives fits (.suffixes expr) s₁ field s₂ →
      Derives fits .operand s field s₂
  | suffixesDone {s : ParseState} {expr : Node} :
      s.isContinued = false → s.current.isOpIn callOperators = false →
      s.current.isIndex = false → Derives fits (.suffixes expr) s (.node expr) s
  | suffixesCall {s s₁ s₂ : ParseState} {expr call : Node} {field : Field Node} :
      s.continued.current.isOpIn callOperators = true →
      Derives fits (.callSuffix expr) s.continued (.node call) s₁ →
      Derives fits (.suffixes call) s₁ field s₂ → Derives fits (.suffixes expr) s field s₂
  | suffixesIndex {s s₁ s₂ : ParseState} {expr : Node} {args : Option Node}
      {field : Field Node} :
      s.current.isIndex = true → Derives fits .indexArguments s (.optional args) s₁ →
      Derives fits (.suffixes (.aref expr.pos expr args)) s₁ field s₂ →
      Derives fits (.suffixes expr) s field s₂
  | callShorthand {s s₁ s₂ s₃ : ParseState} {receiver args : Node} {field : Field Node} :
      s.next.Skips s₁ → s₁.current.isOp "(" = true →
      Derives fits .parenArguments s₁ (.node args) s₂ →
      Derives fits (.block true (.call receiver.pos receiver s.current.text
        (.callShorthand s₁.current.pos) (some args) [])) s₂ field s₃ →
      Derives fits (.callSuffix receiver) s field s₃
  | constPath {s s₁ : ParseState} {receiver name : Node} :
      s.next.Skips s₁ → s₁.current.message? = some name →
      s₁.current.isConstantOf s.current.text = true →
      Parse.isTightParen s₁.next.current = false →
      Derives fits (.callSuffix receiver) s
        (.node (.constPathRef receiver.pos receiver name)) s₁.next
  | callBare {s s₁ s₂ : ParseState} {receiver name : Node} {field : Field Node} :
      s.next.Skips s₁ → s₁.current.message? = some name →
      s₁.current.isConstantOf s.current.text = false →
      Parse.isTightParen s₁.next.current = false →
      Derives fits (.block true (.call receiver.pos receiver s.current.text name none []))
        s₁.next field s₂ →
      Derives fits (.callSuffix receiver) s field s₂
  | callArgs {s s₁ s₂ s₃ : ParseState} {receiver name args : Node} {field : Field Node} :
      s.next.Skips s₁ → s₁.current.message? = some name →
      Parse.isTightParen s₁.next.current = true →
      Derives fits .parenArguments s₁.next (.node args) s₂ →
      Derives fits (.block true (.call receiver.pos receiver s.current.text name (some args) []))
        s₂ field s₃ →
      Derives fits (.callSuffix receiver) s field s₃
  | leaf {s : ParseState} {node : Node} :
      s.current.leaf? = some node → Derives fits .primary s (.node node) s.next
  | constant {s : ParseState} :
      s.current.kind = .const → Parse.isTightParen s.next.current = false →
      Derives fits .primary s
        (.node (.varRef s.current.pos (.name .const s.current.pos s.current.text))) s.next
  | fcall {s s₁ s₂ : ParseState} {name args : Node} {field : Field Node} :
      s.current.callee? = some name → Parse.isTightParen s.next.current = true →
      Derives fits .parenArguments s.next (.node args) s₁ →
      Derives fits (.block true (.fcall s.current.pos name (some args))) s₁ field s₂ →
      Derives fits .primary s field s₂
  | localVar {s : ParseState} :
      s.current.kind = .ident → Parse.isTightParen s.next.current = false →
      s.isLocal s.current.text = true →
      Derives fits .primary s
        (.node (.varRef s.current.pos (.name .ident s.current.pos s.current.text))) s.next
  | command {s s₁ s₂ : ParseState} {args : Node} {field : Field Node} :
      s.current.kind = .ident → Parse.isTightParen s.next.current = false →
      s.isLocal s.current.text = false → Parse.startsCommandArgument s.next = true →
      Derives fits (.arguments none) (s.next.atDepth (s.commandDepth + 1)) (.node args) s₁ →
      Derives fits (.block false
        (.command s.current.pos (.name .ident s.current.pos s.current.text) args))
        (s₁.atDepth (s₁.commandDepth - 1)) field s₂ →
      Derives fits .primary s field s₂
  | fcallBlock {s s₁ : ParseState} {field : Field Node} :
      s.current.kind = .ident → Parse.isTightParen s.next.current = false →
      s.isLocal s.current.text = false → Parse.startsCommandArgument s.next = false →
      (s.next.current.isWord "\x7b" || s.next.isAtDo) = true →
      Derives fits (.block true
        (.fcall s.current.pos (.name .ident s.current.pos s.current.text) none)) s.next field s₁ →
      Derives fits .primary s field s₁
  | vcall {s : ParseState} :
      s.current.kind = .ident → Parse.isTightParen s.next.current = false →
      s.isLocal s.current.text = false → Parse.startsCommandArgument s.next = false →
      (s.next.current.isWord "\x7b" || s.next.isAtDo) = false →
      Derives fits .primary s
        (.node (.vcall s.current.pos (.name .ident s.current.pos s.current.text))) s.next
  | paren {s s₁ s₂ s₃ : ParseState} {inner : Node} :
      s.current.isOp "(" = true → s.next.Skips s₁ → Derives fits .stmt s₁ (.node inner) s₂ →
      s₂.Skips s₃ → s₃.current.isWord ")" = true →
      Derives fits .primary s (.node (.paren s.current.pos inner)) s₃.next
  | array {s s₁ s₂ : ParseState} {elements : List Node} :
      s.current.isOp "[" = true → (s.next.atDepth 0).Skips s₁ →
      Derives fits (.entries .element "]") s₁ (.list elements) s₂ → s₂.current.isWord "]" = true →
      Derives fits .primary s (.node (.array s.current.pos elements))
        (s₂.next.atDepth s.commandDepth)
  | hash {s s₁ s₂ : ParseState} {entries : List Node} :
      s.current.isOp "\x7b" = true → (s.next.atDepth 0).Skips s₁ →
      Derives fits (.entries .entry "\x7d") s₁ (.list entries) s₂ →
      s₂.current.isWord "\x7d" = true →
      Derives fits .primary s (.node (.hash s.current.pos entries)) (s₂.next.atDepth s.commandDepth)
  | lambda {s s₁ s₂ : ParseState} {params : Option Node} {body : List Node} :
      s.current.isOp "->" = true → Derives fits .lambdaParams s.next.opened (.optional params) s₁ →
      Derives fits .lambdaBody s₁ (.list body) s₂ →
      Derives fits .primary s (.node (.lambda s.current.pos params body)) s₂.closed
  | blockBraces {s s₁ : ParseState} {call block : Node} :
      s.current.isWord "\x7b" = true → Derives fits .braceBlock s (.node block) s₁ →
      Derives fits (.block true call) s (.node (.methodAddBlock call.pos call block)) s₁
  | blockDo {braces : Bool} {s s₁ : ParseState} {call block : Node} :
      s.isAtDo = true → Derives fits .doBlock s (.node block) s₁ →
      Derives fits (.block braces call) s (.node (.methodAddBlock call.pos call block)) s₁
  | blockNone {braces : Bool} {s : ParseState} {call : Node} :
      (braces && s.current.isWord "\x7b") = false → s.isAtDo = false →
      Derives fits (.block braces call) s (.node call) s
  | braceBlock {s s₁ s₂ s₃ : ParseState} {params : Option Node} {body : List Node} :
      s.current.isWord "\x7b" = true → (s.next.atDepth 0).opened.Skips s₁ →
      Derives fits .blockVar s₁ (.optional params) s₂ →
      Derives fits (.stmts ["\x7d"]) s₂ (.list body) s₃ → s₃.current.isWord "\x7d" = true →
      Derives fits .braceBlock s (.node (.braceBlock s.current.pos params body))
        (s₃.next.closed.atDepth s.commandDepth)
  | doBlock {s s₁ s₂ : ParseState} {params : Option Node} {body : Node} :
      s.current.isWord "do" = true →
      Derives fits .blockVar (s.next.atDepth 0).opened (.optional params) s₁ →
      Derives fits .bodyStmt s₁ (.node body) s₂ → s₂.current.isWord "end" = true →
      Derives fits .doBlock s (.node (.doBlock s.current.pos params body))
        (s₂.next.closed.atDepth s.commandDepth)
  | bodyStmt {s s₁ s₂ s₃ s₄ : ParseState} {stmts : List Node} {rescue : Option Node}
      {elseBody ensure : Option (List Node)} :
      Derives fits (.stmts Parse.clauseWords) s (.list stmts) s₁ →
      Derives fits .rescueChain s₁ (.optional rescue) s₂ →
      Derives fits (.clause "else" ["ensure", "end"]) s₂ (.optionalList elseBody) s₃ →
      Derives fits (.clause "ensure" ["end"]) s₃ (.optionalList ensure) s₄ →
      Derives fits .bodyStmt s (.node (.bodyStmt s.current.pos stmts rescue elseBody ensure)) s₄
  | rescueNone {s : ParseState} :
      s.current.isWord "rescue" = false → Derives fits .rescueChain s (.optional none) s
  | rescueMore {s s₁ s₂ s₃ s₄ : ParseState} {exceptions stmts : List Node}
      {holder next : Option Node} :
      s.current.isWord "rescue" = true → Derives fits .exceptions s.next (.list exceptions) s₁ →
      Derives fits .holder s₁ (.optional holder) s₂ →
      Derives fits (.stmts Parse.clauseWords) s₂.pastThen (.list stmts) s₃ →
      Derives fits .rescueChain s₃ (.optional next) s₄ →
      Derives fits .rescueChain s
        (.optional (some (.rescue s.current.pos exceptions holder stmts next))) s₄
  | exceptionsNone {s : ParseState} :
      s.current.endsExceptions = true → Derives fits .exceptions s (.list []) s
  | exceptionsSome {s s₁ : ParseState} {field : Field Node} :
      s.current.endsExceptions = false → Derives fits (.items .range none) s field s₁ →
      Derives fits .exceptions s field s₁
  | holderNone {s : ParseState} :
      s.current.isWord "=>" = false → Derives fits .holder s (.optional none) s
  | holderSome {s s₁ s₂ : ParseState} {expr target : Node} :
      s.current.isWord "=>" = true → Derives fits .primary s.next (.node expr) s₁ →
      (Parse.target expr).run s₁ = .ok (target, s₂) →
      Derives fits .holder s (.optional (some target)) s₂
  | clauseNone {word : String} {words : List String} {s : ParseState} :
      s.current.isWord word = false → Derives fits (.clause word words) s (.optionalList none) s
  | clauseSome {word : String} {words : List String} {s s₁ : ParseState} {stmts : List Node} :
      s.current.isWord word = true → Derives fits (.stmts words) s.next (.list stmts) s₁ →
      Derives fits (.clause word words) s (.optionalList (some stmts)) s₁
  | blockVarBars {s : ParseState} :
      s.current.isWord "||" = true →
      Derives fits .blockVar s (.optional (some (.blockVar s.current.pos none))) s.next
  | blockVarSome {s s₁ : ParseState} {params : Node} :
      s.current.isWord "|" = true → Derives fits (.params "|") s.next (.node params) s₁ →
      s₁.current.isWord "|" = true →
      Derives fits .blockVar s (.optional (some (.blockVar s.current.pos (some params)))) s₁.next
  | blockVarNone {s : ParseState} :
      s.current.isWord "||" = false → s.current.isWord "|" = false →
      Derives fits .blockVar s (.optional none) s
  | lambdaParen {s s₁ : ParseState} {params : Node} :
      s.current.isWord "(" = true → Derives fits (.params ")") s.next (.node params) s₁ →
      s₁.current.isWord ")" = true → Derives fits .lambdaParams s (.optional (some params)) s₁.next
  | lambdaNone {s : ParseState} :
      (s.current.isWord "\x7b" || s.current.isWord "do") = true →
      Derives fits .lambdaParams s (.optional none) s
  | lambdaBare {s s₁ : ParseState} {params : Node} :
      s.current.isWord "(" = false →
      (s.current.isWord "\x7b" || s.current.isWord "do") = false →
      Derives fits (.params "\x7b") s (.node params) s₁ →
      Derives fits .lambdaParams s (.optional (some params)) s₁
  | lambdaBraces {s s₁ : ParseState} {body : List Node} :
      s.current.isWord "\x7b" = true → Derives fits (.stmts ["\x7d"]) s.next (.list body) s₁ →
      s₁.current.isWord "\x7d" = true → Derives fits .lambdaBody s (.list body) s₁.next
  | lambdaDo {s s₁ : ParseState} {body : List Node} :
      s.current.isWord "do" = true → Derives fits (.stmts ["end"]) s.next (.list body) s₁ →
      s₁.current.isWord "end" = true → Derives fits .lambdaBody s (.list body) s₁.next
  | params {closer : String} {s s₁ s₂ : ParseState} {field : Field Node} :
      s.Skips s₁ → Derives fits (.paramList closer s.current.pos {}) s₁ field s₂ →
      Derives fits (.params closer) s field s₂
  | paramsDone {closer : String} {pos : Pos} {list : ParamList} {s : ParseState} :
      s.current.isWord closer = true →
      Derives fits (.paramList closer pos list) s (.node (list.toNode pos)) s
  | paramsLast {closer : String} {pos : Pos} {list : ParamList} {s s₁ s₂ : ParseState}
      {param : Node} :
      s.current.isWord closer = false → Derives fits (.param closer) s (.node param) s₁ →
      fits list param → s₁.Skips s₂ → s₂.current.isWord "," = false →
      Derives fits (.paramList closer pos list) s (.node ((list.add param).toNode pos)) s₂
  | paramsExcess {closer : String} {pos : Pos} {list : ParamList} {s s₁ s₂ s₃ : ParseState}
      {param : Node} :
      s.current.isWord closer = false → Derives fits (.param closer) s (.node param) s₁ →
      fits list param → s₁.Skips s₂ → s₂.current.isWord "," = true → s₂.next.Skips s₃ →
      s₃.current.isWord closer = true → closer = "|" →
      (list.add param).allowsExcessedComma = true →
      Derives fits (.paramList closer pos list) s
        (.node (ParamList.toNode
          { list.add param with rest := some (.excessedComma s₂.current.pos) } pos)) s₃
  | paramsMore {closer : String} {pos : Pos} {list : ParamList} {s s₁ s₂ s₃ s₄ : ParseState}
      {param : Node} {field : Field Node} :
      s.current.isWord closer = false → Derives fits (.param closer) s (.node param) s₁ →
      fits list param → s₁.Skips s₂ → s₂.current.isWord "," = true → s₂.next.Skips s₃ →
      s₃.current.isWord closer = false →
      Derives fits (.paramList closer pos (list.add param)) s₃ field s₄ →
      Derives fits (.paramList closer pos list) s field s₄
  | restParam {closer : String} {s : ParseState} :
      s.current.isWord "*" = true →
      Derives fits (.param closer) s (.node (.restParam s.current.pos s.next.paramName?.1))
        s.next.paramName?.2
  | keywordRestParam {closer : String} {s : ParseState} :
      s.current.isWord "**" = true →
      Derives fits (.param closer) s (.node (.keywordRestParam s.current.pos s.next.paramName?.1))
        s.next.paramName?.2
  | blockParam {closer : String} {s : ParseState} :
      s.current.isWord "&" = true → s.next.current.kind = .ident →
      Derives fits (.param closer) s
        (.node (.blockParam s.current.pos
          (.name .ident s.next.current.pos s.next.current.text)))
        (s.next.next.declaring s.next.current.text)
  | keywordParam {closer : String} {s s₁ : ParseState} :
      s.current.kind = .label →
      s₁ = s.next.declaring (String.ofList s.current.text.toList.dropLast) →
      (s₁.current.isWord "," || s₁.current.isWord closer) = true →
      Derives fits (.param closer) s
        (.node (.keywordParam s.current.pos (.name .label s.current.pos s.current.text) none)) s₁
  | keywordDefault {closer : String} {s s₁ s₂ : ParseState} {default : Node} :
      s.current.kind = .label →
      s₁ = s.next.declaring (String.ofList s.current.text.toList.dropLast) →
      (s₁.current.isWord "," || s₁.current.isWord closer) = false →
      Derives fits (.operations OperatorLevel.tight) s₁ (.node default) s₂ →
      Derives fits (.param closer) s
        (.node (.keywordParam s.current.pos (.name .label s.current.pos s.current.text)
          (some default))) s₂
  | optionalParam {closer : String} {s s₁ s₂ : ParseState} {default : Node} :
      s.current.kind = .ident → s₁ = s.next.declaring s.current.text →
      s₁.current.isWord "=" = true →
      Derives fits (.operations OperatorLevel.tight) s₁.next (.node default) s₂ →
      Derives fits (.param closer) s
        (.node (.optionalParam s.current.pos (.name .ident s.current.pos s.current.text)
          default)) s₂
  | nameParam {closer : String} {s s₁ : ParseState} :
      s.current.kind = .ident → s₁ = s.next.declaring s.current.text →
      s₁.current.isWord "=" = false →
      Derives fits (.param closer) s (.node (.name .ident s.current.pos s.current.text)) s₁
  | itemsLast {item : Rule} {closer : Option String} {s s₁ : ParseState} {node : Node} :
      Derives fits item s (.node node) s₁ → s₁.current.isWord "," = false →
      Derives fits (.items item closer) s (.list [node]) s₁
  | itemsClosed {item : Rule} {closer : Option String} {s s₁ s₂ : ParseState} {node : Node} :
      Derives fits item s (.node node) s₁ → s₁.current.isWord "," = true → s₁.next.Skips s₂ →
      s₂.closes closer = true → Derives fits (.items item closer) s (.list [node]) s₂
  | itemsMore {item : Rule} {closer : Option String} {s s₁ s₂ s₃ : ParseState} {node : Node}
      {rest : List Node} :
      Derives fits item s (.node node) s₁ → s₁.current.isWord "," = true → s₁.next.Skips s₂ →
      s₂.closes closer = false → Derives fits (.items item closer) s₂ (.list rest) s₃ →
      Derives fits (.items item closer) s (.list (node :: rest)) s₃
  | entriesDone {item : Rule} {closer : String} {s : ParseState} :
      s.current.isWord closer = true → Derives fits (.entries item closer) s (.list []) s
  | entriesLast {item : Rule} {closer : String} {s s₁ s₂ : ParseState} {node : Node} :
      s.current.isWord closer = false → Derives fits item s (.node node) s₁ → s₁.Skips s₂ →
      s₂.current.isWord "," = false → Derives fits (.entries item closer) s (.list [node]) s₂
  | entriesMore {item : Rule} {closer : String} {s s₁ s₂ s₃ s₄ : ParseState} {node : Node}
      {rest : List Node} :
      s.current.isWord closer = false → Derives fits item s (.node node) s₁ → s₁.Skips s₂ →
      s₂.current.isWord "," = true → s₂.next.Skips s₃ →
      Derives fits (.entries item closer) s₃ (.list rest) s₄ →
      Derives fits (.entries item closer) s (.list (node :: rest)) s₄
  | elementSplat {s s₁ : ParseState} {value : Node} :
      s.current.isWord "*" = true → Derives fits .range s.next (.node value) s₁ →
      Derives fits .element s (.node (.splat s.current.pos value)) s₁
  | elementPlain {s s₁ : ParseState} {field : Field Node} :
      s.current.isWord "*" = false → Derives fits .negated s field s₁ →
      Derives fits .element s field s₁
  | entrySplat {s s₁ : ParseState} {value : Node} :
      s.current.isWord "**" = true → Derives fits .range s.next (.node value) s₁ →
      Derives fits .entry s (.node (.doubleSplat s.current.pos value)) s₁
  | entryLabel {s s₁ s₂ : ParseState} {value : Node} :
      s.current.kind = .label → s.next.Skips s₁ → Derives fits .negated s₁ (.node value) s₂ →
      Derives fits .entry s
        (.node (.assoc s.current.pos (.name .label s.current.pos s.current.text) value)) s₂
  | entryArrow {s s₁ s₂ s₃ s₄ : ParseState} {key value : Node} :
      s.current.isWord "**" = false → s.current.kind ≠ .label →
      Derives fits .negated s (.node key) s₁ → s₁.Skips s₂ → s₂.current.isWord "=>" = true →
      s₂.next.Skips s₃ → Derives fits .negated s₃ (.node value) s₄ →
      Derives fits .entry s (.node (.assoc s.current.pos key value)) s₄
  | arguments {closer : Option String} {s s₁ : ParseState} {parts : List Node} :
      Derives fits (.items .argument closer) s (.list parts) s₁ →
      Derives fits (.arguments closer) s (.node (.args s.current.pos (Node.gatherEntries parts))) s₁
  | argumentSplat {s s₁ : ParseState} {value : Node} :
      s.current.isWord "*" = true → Derives fits .range s.next (.node value) s₁ →
      Derives fits .argument s (.node (.splat s.current.pos value)) s₁
  | argumentDoubleSplat {s s₁ : ParseState} {value : Node} :
      s.current.isWord "**" = true → Derives fits .range s.next (.node value) s₁ →
      Derives fits .argument s (.node (.doubleSplat s.current.pos value)) s₁
  | argumentBlockLone {s : ParseState} :
      s.current.isWord "&" = true →
      (s.next.current.isWord ")" || s.next.current.endsStatement) = true →
      Derives fits .argument s (.node (.blockArg s.current.pos none)) s.next
  | argumentBlock {s s₁ : ParseState} {value : Node} :
      s.current.isWord "&" = true →
      (s.next.current.isWord ")" || s.next.current.endsStatement) = false →
      Derives fits .range s.next (.node value) s₁ →
      Derives fits .argument s (.node (.blockArg s.current.pos (some value))) s₁
  | argumentLabel {s s₁ s₂ : ParseState} {value : Node} :
      s.current.kind = .label → s.next.Skips s₁ → Derives fits .negated s₁ (.node value) s₂ →
      Derives fits .argument s
        (.node (.assoc s.current.pos (.name .label s.current.pos s.current.text) value)) s₂
  | argumentPlain {s s₁ : ParseState} {field : Field Node} :
      (s.current.isWord "*" || s.current.isWord "**" || s.current.isWord "&") = false →
      s.current.kind ≠ .label → Derives fits .negated s field s₁ →
      s₁.current.isWord "=>" = false → Derives fits .argument s field s₁
  | argumentArrow {s s₁ s₂ s₃ : ParseState} {key value : Node} :
      (s.current.isWord "*" || s.current.isWord "**" || s.current.isWord "&") = false →
      s.current.kind ≠ .label → Derives fits .negated s (.node key) s₁ →
      s₁.current.isWord "=>" = true → s₁.next.Skips s₂ →
      Derives fits .negated s₂ (.node value) s₃ →
      Derives fits .argument s (.node (.assoc s.current.pos key value)) s₃
  | parenEmpty {s s₁ : ParseState} :
      s.current.isWord "(" = true → (s.next.atDepth 0).Skips s₁ →
      s₁.current.isWord ")" = true →
      Derives fits .parenArguments s (.node (.argParen s.current.pos none))
        (s₁.next.atDepth s.commandDepth)
  | parenFull {s s₁ s₂ s₃ : ParseState} {args : Node} :
      s.current.isWord "(" = true → (s.next.atDepth 0).Skips s₁ →
      s₁.current.isWord ")" = false → Derives fits (.arguments (some ")")) s₁ (.node args) s₂ →
      s₂.Skips s₃ → s₃.current.isWord ")" = true →
      Derives fits .parenArguments s (.node (.argParen s.current.pos (some args)))
        (s₃.next.atDepth s.commandDepth)
  | indexEmpty {s s₁ : ParseState} :
      s.current.isWord "[" = true → s.next.Skips s₁ → s₁.current.isWord "]" = true →
      Derives fits .indexArguments s (.optional none) s₁.next
  | indexFull {s s₁ s₂ s₃ : ParseState} {args : Node} :
      s.current.isWord "[" = true → s.next.Skips s₁ → s₁.current.isWord "]" = false →
      Derives fits (.arguments (some "]")) s₁ (.node args) s₂ → s₂.Skips s₃ →
      s₃.current.isWord "]" = true → Derives fits .indexArguments s (.optional (some args)) s₃.next

namespace Derives

variable {fits : ParamList → Node → Prop} {rule : Rule} {s : ParseState} {field : Field Node}
  {s₁ : ParseState}

/-- What is shown holds of the derivations inside of one. -/
abbrev Parts (holds : Rule → ParseState → Field Node → ParseState → Prop)
    (reads : Derives fits rule s field s₁) : Prop :=
  reads.below (motive := fun rule s field s₁ _ => holds rule s field s₁)

/-- Induction on a derivation whose step is left whole, for a lemma on each family of rules. -/
theorem of_parts
    {motive : (rule : Rule) → (s : ParseState) → (field : Field Node) → (s₁ : ParseState) →
      Derives fits rule s field s₁ → Prop}
    (step : ∀ {rule : Rule} {s : ParseState} {field : Field Node} {s₁ : ParseState}
      (reads : Derives fits rule s field s₁), reads.below (motive := motive) →
        motive rule s field s₁ reads)
    (reads : Derives fits rule s field s₁) : motive rule s field s₁ reads :=
  reads.brecOn fun _ _ _ _ reads parts => step reads parts

end Derives

/-- A rule reads nodes from one state to another, with any parameters in any order. -/
abbrev Reads : Rule → ParseState → Field Node → ParseState → Prop :=
  Derives fun _ _ => True

end RubyFormat
