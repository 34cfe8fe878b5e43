import RubyFormat.Proofs.Soundness

/-!
# What reading does to a state

A rule takes tokens from the front and puts none back, it leaves the closing token, the depth of
commands and the scopes around the innermost one as they were, and a rule for an expression takes
at least one token.  The node of an expression stands at the place of its first token.
-/

namespace RubyFormat

namespace ParseState

variable {s s₁ s₂ : ParseState}

/-- Making a target leaves the state as it is or declares a variable. -/
theorem states_of_target {expr made : Node} (ran : (Parse.target expr).run s = .ok (made, s₁)) :
    s₁ = s ∨ ∃ name, s₁ = s.declaring name := by
  unfold Parse.target at ran
  split at ran <;>
    simp only [ParseM.run_bind_ok, ParseM.run_declare_ok, ParseM.run_pure_ok,
      ParseM.run_throw_ok, ParseM.exists_and_eq_left, Prod.mk.injEq] at ran
  case h_1 => exact .inr ⟨_, ran.2.2⟩
  all_goals exact .inl ran.2

/-- Making a target takes no token. -/
theorem ahead_of_target {expr made : Node} (ran : (Parse.target expr).run s = .ok (made, s₁)) :
    s₁.ahead = s.ahead := by
  rcases states_of_target ran with rfl | ⟨name, rfl⟩
  · rfl
  · rfl

/-- One state is reached from another by taking tokens and declaring variables. -/
structure Moves (s s₁ : ParseState) : Prop where
  ahead : s₁.ahead <:+ s.ahead
  close : s₁.close = s.close
  depth : s₁.commandDepth = s.commandDepth
  scopes : s₁.scopes.length = s.scopes.length
  outer : s₁.scopes.tail = s.scopes.tail

namespace Moves

theorem refl (s : ParseState) : s.Moves s :=
  ⟨List.suffix_rfl, rfl, rfl, rfl, rfl⟩

theorem trans (first : s.Moves s₁) (second : s₁.Moves s₂) : s.Moves s₂ where
  ahead := second.ahead.trans first.ahead
  close := second.close.trans first.close
  depth := second.depth.trans first.depth
  scopes := second.scopes.trans first.scopes
  outer := second.outer.trans first.outer

theorem next (s : ParseState) : s.Moves s.next :=
  ⟨List.tail_suffix _, rfl, rfl, rfl, rfl⟩

theorem pastNewlines (s : ParseState) : s.Moves s.pastNewlines :=
  ⟨List.dropWhile_suffix _, rfl, rfl, rfl, rfl⟩

theorem skips (passed : s.Skips s₁) : s.Moves s₁ := by
  obtain ⟨rfl, -⟩ := passed
  exact pastNewlines s

theorem continued (s : ParseState) : s.Moves s.continued := by
  unfold ParseState.continued
  split
  · exact pastNewlines s
  · exact refl s

theorem pastThen (s : ParseState) : s.Moves s.pastThen := by
  unfold ParseState.pastThen
  split
  · exact next s
  · exact refl s

theorem declaring (name : String) (s : ParseState) : s.Moves (s.declaring name) := by
  obtain ⟨ahead, close, scopes, depth⟩ := s
  cases scopes with
  | nil => exact refl _
  | cons scope outer => exact ⟨List.suffix_rfl, rfl, rfl, rfl, rfl⟩

theorem paramName? (s : ParseState) : s.Moves s.paramName?.2 := by
  unfold ParseState.paramName?
  split
  · exact (next s).trans (declaring _ _)
  · exact refl s

theorem target {expr made : Node} (ran : (Parse.target expr).run s = .ok (made, s₁)) :
    s.Moves s₁ := by
  rcases states_of_target ran with rfl | ⟨name, rfl⟩
  · exact refl _
  · exact declaring name s

/-- What happens in a new scope is over when it is closed. -/
theorem closed (inner : s.opened.Moves s₁) : s.Moves s₁.closed where
  ahead := inner.ahead
  close := inner.close
  depth := inner.depth
  scopes := congrArg List.length inner.outer
  outer := congrArg List.tail inner.outer

/-- What happens at another depth is over when the depth is given back. -/
theorem givenBack {depth : Nat} (inner : (s.atDepth depth).Moves s₁) :
    s.Moves (s₁.atDepth s.commandDepth) :=
  ⟨inner.ahead, inner.close, rfl, inner.scopes, inner.outer⟩

/-- What happens in the arguments of a command is over one level further out. -/
theorem outOfCommand (inner : (s.atDepth (s.commandDepth + 1)).Moves s₁) :
    s.Moves (s₁.atDepth (s₁.commandDepth - 1)) :=
  ⟨inner.ahead, inner.close, congrArg (· - 1) inner.depth, inner.scopes, inner.outer⟩

theorem length_le (moves : s.Moves s₁) : s₁.ahead.length ≤ s.ahead.length :=
  moves.ahead.length_le

theorem eof (moves : s.Moves s₁) (close : s.close.kind = .eof) : s₁.close.kind = .eof := by
  rw [moves.close]
  exact close

end Moves

/-- The next token of a list that is closed by the end mark is there, unless it is the end. -/
theorem ahead_ne_nil (close : s.close.kind = .eof) (token : s.current.kind ≠ .eof) :
    s.ahead ≠ [] := by
  intro nothing
  apply token
  rw [current, nothing]
  exact close

theorem ahead_of_isWord {word : String} (close : s.close.kind = .eof)
    (isWord : s.current.isWord word = true) : s.ahead ≠ [] := by
  apply ahead_ne_nil close
  rcases Token.kind_of_isWord isWord with op | keyword
  · simp [op]
  · simp [keyword]

theorem ahead_of_isOpIn {operators : List String} (close : s.close.kind = .eof)
    (isOp : s.current.isOpIn operators = true) : s.ahead ≠ [] := by
  apply ahead_ne_nil close
  simp only [Token.isOpIn, Bool.and_eq_true, beq_iff_eq] at isOp
  simp [isOp.1]

theorem ahead_of_isOp {operator : String} (close : s.close.kind = .eof)
    (isOp : s.current.isOp operator = true) : s.ahead ≠ [] := by
  apply ahead_ne_nil close
  simp only [Token.isOp, Bool.and_eq_true, beq_iff_eq] at isOp
  simp [isOp.1]

theorem length_next_lt (there : s.ahead ≠ []) : s.next.ahead.length < s.ahead.length := by
  have positive := List.length_pos_iff.2 there
  simp only [ParseState.next, List.length_tail]
  omega

/-- A token is taken and then possibly more. -/
theorem Moves.length_lt (rest : s.next.Moves s₁) (there : s.ahead ≠ []) :
    s₁.ahead.length < s.ahead.length :=
  Nat.lt_of_le_of_lt rest.length_le (length_next_lt there)

end ParseState

/-- A token that is an operand by itself is not the end. -/
theorem Token.kind_of_leaf? {token : Token} {node : Node} (leaf : token.leaf? = some node) :
    token.kind ≠ .eof := by
  intro eof
  rw [Token.leaf?, eof] at leaf
  cases leaf

theorem Token.kind_of_callee? {token : Token} {node : Node} (callee : token.callee? = some node) :
    token.kind ≠ .eof := by
  intro eof
  rw [Token.callee?, eof] at callee
  cases callee

theorem Token.kind_of_message? {token : Token} {node : Node}
    (message : token.message? = some node) : token.kind ≠ .eof := by
  intro eof
  rw [Token.message?, eof] at message
  cases message

theorem Token.pos_of_leaf? {token : Token} {node : Node} (leaf : token.leaf? = some node) :
    node.pos = token.pos := by
  unfold Token.leaf? at leaf
  split at leaf
  case h_5 =>
    split at leaf
    · cases leaf
    · cases leaf; rfl
  case h_9 =>
    split at leaf
    · cases leaf; rfl
    · cases leaf
  all_goals cases leaf
  all_goals rfl

/-- Whether a rule takes at least one token. -/
def Rule.takes : Rule → Bool
  | .stmt | .assignment _ | .values | .listedValue | .expression | .negated | .range
  | .operations _ | .minus | .power | .unary | .operand | .callSuffix _ | .primary | .braceBlock
  | .doBlock | .lambdaBody | .param _ | .argument | .element | .entry | .arguments _
  | .parenArguments | .indexArguments => true
  | .items item _ => item.takes
  | _ => false

/-- The place of the node that a rule reads: that of its first token, or that of the node it goes
on from. -/
def Rule.place? (s : ParseState) : Rule → Option Pos
  | .stmt | .assignment _ | .expression | .negated | .range | .operations _ | .minus | .power
  | .unary | .operand | .primary => some s.current.pos
  | .joined left | .chain _ _ left | .suffixes left | .callSuffix left | .block _ left =>
      some left.pos
  | _ => none

open ParseState

namespace Derives

variable {fits : ParamList → Node → Prop} {rule : Rule} {s s₁ : ParseState} {field : Field Node}

/-- Reading only takes tokens and declares variables. -/
theorem moves (reads : Derives fits rule s field s₁) : s.Moves s₁ := by
  induction reads with
  | program _ _ body => exact body
  | stmtsDone | joinedDone | chainDone | suffixesDone | blockNone | rescueNone | exceptionsNone
  | holderNone | clauseNone | blockVarNone | lambdaNone | paramsDone | entriesDone =>
      exact .refl _
  | stmtsBreak _ _ _ rest => exact (Moves.next _).trans rest
  | stmtsComment _ _ _ rest => exact (Moves.next _).trans rest
  | stmtsRemark _ _ _ _ _ _ stmt rest => exact (stmt.trans (.next _)).trans rest
  | stmtsLast _ _ _ _ _ _ stmt => exact stmt
  | stmtsMore _ _ _ _ _ _ _ _ stmt rest => exact stmt.trans rest
  | stmt _ _ _ inner => exact inner
  | unassigned _ _ _ expr => exact expr
  | assign _ _ made skips _ expr value | opAssign _ _ _ made skips _ expr value =>
      exact ((expr.trans (.target made)).trans (.next _)).trans ((Moves.skips skips).trans value)
  | values _ items => exact items
  | listedSplat _ _ value => exact (Moves.next _).trans value
  | listedPlain _ _ value => exact value
  | expression _ _ left joined => exact left.trans joined
  | joinedMore _ skips _ _ right joined =>
      exact ((Moves.next _).trans (.skips skips)).trans (right.trans joined)
  | not _ _ operand => exact (Moves.next _).trans operand
  | notNegated _ _ range => exact range
  | rangeBetween _ _ _ left right => exact (left.trans (.next _)).trans right
  | notRange _ _ operations => exact operations
  | tightest _ minus => exact minus
  | level _ _ left chain => exact left.trans chain
  | chainMore _ _ skips _ _ right chain =>
      exact ((Moves.next _).trans (.skips skips)).trans (right.trans chain)
  | chainOnce _ _ skips _ right => exact ((Moves.next _).trans (.skips skips)).trans right
  | minus _ _ operand => exact (Moves.next _).trans operand
  | notMinus _ _ power => exact power
  | power _ _ skips _ left right =>
      exact (left.trans (.next _)).trans ((Moves.skips skips).trans right)
  | notPower _ _ unary => exact unary
  | unary _ _ operand => exact (Moves.next _).trans operand
  | notUnary _ _ operand => exact operand
  | operand _ _ primary suffixes => exact primary.trans suffixes
  | suffixesCall _ _ _ call suffixes => exact (Moves.continued _).trans (call.trans suffixes)
  | suffixesIndex _ _ _ index suffixes => exact index.trans suffixes
  | callShorthand skips _ _ _ args block =>
      exact ((Moves.next _).trans (.skips skips)).trans (args.trans block)
  | constPath skips => exact ((Moves.next _).trans (.skips skips)).trans (.next _)
  | callBare skips _ _ _ _ block =>
      exact (((Moves.next _).trans (.skips skips)).trans (.next _)).trans block
  | callArgs skips _ _ _ _ args block =>
      exact (((Moves.next _).trans (.skips skips)).trans (.next _)).trans (args.trans block)
  | leaf | constant | localVar | vcall | argumentBlockLone | blockVarBars => exact .next _
  | fcall _ _ _ _ args block => exact (Moves.next _).trans (args.trans block)
  | command _ _ _ _ _ _ args block =>
      exact (Moves.next _).trans ((Moves.outOfCommand args).trans block)
  | fcallBlock _ _ _ _ _ _ block => exact (Moves.next _).trans block
  | paren _ skips _ skips' _ inner =>
      exact ((Moves.next _).trans (.skips skips)).trans
        ((inner.trans (.skips skips')).trans (.next _))
  | array _ skips _ _ entries | hash _ skips _ _ entries =>
      exact (Moves.next _).trans
        (.givenBack ((Moves.skips skips).trans (entries.trans (.next _))))
  | lambda _ _ _ params body => exact (Moves.next _).trans (.closed (params.trans body))
  | blockBraces _ _ block => exact block
  | blockDo _ _ block => exact block
  | braceBlock _ skips _ _ _ params body =>
      exact (Moves.next _).trans
        (.givenBack (.closed ((Moves.skips skips).trans (params.trans (body.trans (.next _))))))
  | doBlock _ _ _ _ params body =>
      exact (Moves.next _).trans (.givenBack (.closed (params.trans (body.trans (.next _)))))
  | bodyStmt _ _ _ _ stmts rescue elseBody ensure =>
      exact stmts.trans (rescue.trans (elseBody.trans ensure))
  | rescueMore _ _ _ _ _ exceptions holder stmts rescue =>
      exact (Moves.next _).trans
        (exceptions.trans (holder.trans ((Moves.pastThen _).trans (stmts.trans rescue))))
  | exceptionsSome _ _ items => exact items
  | holderSome _ _ made primary => exact (Moves.next _).trans (primary.trans (.target made))
  | clauseSome _ _ stmts => exact (Moves.next _).trans stmts
  | blockVarSome _ _ _ params => exact (Moves.next _).trans (params.trans (.next _))
  | lambdaParen _ _ _ params => exact (Moves.next _).trans (params.trans (.next _))
  | lambdaBare _ _ _ params => exact params
  | lambdaBraces _ _ _ stmts => exact (Moves.next _).trans (stmts.trans (.next _))
  | lambdaDo _ _ _ stmts => exact (Moves.next _).trans (stmts.trans (.next _))
  | params skips _ list => exact (Moves.skips skips).trans list
  | paramsLast _ _ _ skips _ param => exact param.trans (.skips skips)
  | paramsExcess _ _ _ skips _ skips' _ _ _ param =>
      exact ((param.trans (.skips skips)).trans (.next _)).trans (.skips skips')
  | paramsMore _ _ _ skips _ skips' _ _ param list =>
      exact (((param.trans (.skips skips)).trans (.next _)).trans (.skips skips')).trans list
  | restParam | keywordRestParam => exact (Moves.next _).trans (.paramName? _)
  | blockParam => exact ((Moves.next _).trans (.next _)).trans (.declaring _ _)
  | keywordParam _ after => exact after ▸ (Moves.next _).trans (.declaring _ _)
  | keywordDefault _ after _ _ default =>
      exact (after ▸ (Moves.next _).trans (.declaring _ _)).trans default
  | optionalParam _ after _ _ default =>
      exact ((after ▸ (Moves.next _).trans (.declaring _ _)).trans (.next _)).trans default
  | nameParam _ after => exact after ▸ (Moves.next _).trans (.declaring _ _)
  | itemsLast _ _ item => exact item
  | itemsClosed _ _ skips _ item => exact (item.trans (.next _)).trans (.skips skips)
  | itemsMore _ _ skips _ _ item rest =>
      exact ((item.trans (.next _)).trans (.skips skips)).trans rest
  | entriesLast _ _ skips _ item => exact item.trans (.skips skips)
  | entriesMore _ _ skips _ skips' _ item rest =>
      exact (((item.trans (.skips skips)).trans (.next _)).trans (.skips skips')).trans rest
  | elementSplat _ _ value => exact (Moves.next _).trans value
  | elementPlain _ _ value => exact value
  | entrySplat _ _ value => exact (Moves.next _).trans value
  | entryLabel _ skips _ value => exact ((Moves.next _).trans (.skips skips)).trans value
  | entryArrow _ _ _ skips _ skips' _ key value =>
      exact (((key.trans (.skips skips)).trans (.next _)).trans (.skips skips')).trans value
  | arguments _ items => exact items
  | argumentSplat _ _ value => exact (Moves.next _).trans value
  | argumentDoubleSplat _ _ value => exact (Moves.next _).trans value
  | argumentBlock _ _ _ value => exact (Moves.next _).trans value
  | argumentLabel _ skips _ value => exact ((Moves.next _).trans (.skips skips)).trans value
  | argumentPlain _ _ _ _ value => exact value
  | argumentArrow _ _ _ _ skips _ key value =>
      exact ((key.trans (.next _)).trans (.skips skips)).trans value
  | parenEmpty _ skips =>
      exact (Moves.next _).trans (.givenBack ((Moves.skips skips).trans (.next _)))
  | parenFull _ skips _ _ skips' _ args =>
      exact (Moves.next _).trans (.givenBack
        ((Moves.skips skips).trans ((args.trans (.skips skips')).trans (.next _))))
  | indexEmpty _ skips => exact ((Moves.next _).trans (.skips skips)).trans (.next _)
  | indexFull _ skips _ _ skips' _ args =>
      exact ((Moves.next _).trans (.skips skips)).trans
        ((args.trans (.skips skips')).trans (.next _))

/-- A rule that takes a token leaves fewer of them. -/
theorem length_lt (reads : Derives fits rule s field s₁) (close : s.close.kind = .eof)
    (takes : rule.takes = true) : s₁.ahead.length < s.ahead.length := by
  induction reads with
  | stmt _ _ _ inner => exact inner close rfl
  | unassigned _ _ _ expr => exact expr close rfl
  | assign _ _ made skips value expr =>
      exact Nat.lt_of_le_of_lt
        ((((Moves.target made).trans (.next _)).trans (.skips skips)).trans value.moves).length_le
        (expr close rfl)
  | opAssign _ _ _ made skips value expr =>
      exact Nat.lt_of_le_of_lt
        ((((Moves.target made).trans (.next _)).trans (.skips skips)).trans value.moves).length_le
        (expr close rfl)
  | values _ items => exact items close rfl
  | listedPlain _ _ value => exact value close rfl
  | expression _ joined left => exact Nat.lt_of_le_of_lt joined.moves.length_le (left close rfl)
  | notNegated _ _ range => exact range close rfl
  | rangeBetween _ _ right left =>
      exact Nat.lt_of_le_of_lt ((Moves.next _).trans right.moves).length_le (left close rfl)
  | notRange _ _ operations => exact operations close rfl
  | tightest _ minus => exact minus close rfl
  | level _ chain left => exact Nat.lt_of_le_of_lt chain.moves.length_le (left close rfl)
  | notMinus _ _ power => exact power close rfl
  | power _ _ skips right left =>
      exact Nat.lt_of_le_of_lt
        (((Moves.next _).trans (.skips skips)).trans right.moves).length_le (left close rfl)
  | notPower _ _ unary => exact unary close rfl
  | notUnary _ _ operand => exact operand close rfl
  | operand _ suffixes primary =>
      exact Nat.lt_of_le_of_lt suffixes.moves.length_le (primary close rfl)
  | itemsLast _ _ item => exact item close takes
  | itemsClosed _ _ skips _ item =>
      exact Nat.lt_of_le_of_lt ((Moves.next _).trans (.skips skips)).length_le (item close takes)
  | itemsMore _ _ skips _ rest item =>
      exact Nat.lt_of_le_of_lt
        (((Moves.next _).trans (.skips skips)).trans rest.moves).length_le (item close takes)
  | elementPlain _ _ value => exact value close rfl
  | entryArrow _ _ _ skips _ skips' value key =>
      exact Nat.lt_of_le_of_lt
        ((((Moves.skips skips).trans (.next _)).trans (.skips skips')).trans value.moves).length_le
        (key close rfl)
  | arguments _ items => exact items close rfl
  | argumentPlain _ _ _ _ value => exact value close rfl
  | argumentArrow _ _ _ _ skips value key =>
      exact Nat.lt_of_le_of_lt
        (((Moves.next _).trans (.skips skips)).trans value.moves).length_le (key close rfl)
  | listedSplat word value | not word value | minus word value | elementSplat word value
  | entrySplat word value | argumentSplat word value | argumentDoubleSplat word value
  | argumentBlock word _ value => exact value.moves.length_lt (ahead_of_isWord close word)
  | unary mark value =>
      refine value.moves.length_lt (ahead_ne_nil close fun eof => ?_)
      simp [Token.isWord, eof] at mark
  | callShorthand skips _ _ block args =>
      have moved := (Moves.next _).trans (.skips skips)
      exact Nat.lt_of_le_of_lt block.moves.length_le
        (Nat.lt_of_lt_of_le (args (moved.eof close) rfl) moved.length_le)
  | constPath skips message =>
      have moved := (Moves.next _).trans (.skips skips)
      have there := ahead_ne_nil (moved.eof close) (Token.kind_of_message? message)
      exact Nat.lt_of_lt_of_le (length_next_lt there) moved.length_le
  | callBare skips message _ _ block =>
      have moved := (Moves.next _).trans (.skips skips)
      have there := ahead_ne_nil (moved.eof close) (Token.kind_of_message? message)
      exact Nat.lt_of_lt_of_le (block.moves.length_lt there) moved.length_le
  | callArgs skips message _ args block =>
      have moved := (Moves.next _).trans (.skips skips)
      have there := ahead_ne_nil (moved.eof close) (Token.kind_of_message? message)
      exact Nat.lt_of_lt_of_le ((args.moves.trans block.moves).length_lt there) moved.length_le
  | leaf found => exact (Moves.refl _).length_lt (ahead_ne_nil close (Token.kind_of_leaf? found))
  | constant kind | localVar kind | vcall kind =>
      exact (Moves.refl _).length_lt (ahead_ne_nil close (by simp [kind]))
  | fcall callee _ args block =>
      exact (args.moves.trans block.moves).length_lt
        (ahead_ne_nil close (Token.kind_of_callee? callee))
  | command kind _ _ _ args block =>
      exact ((Moves.outOfCommand args.moves).trans block.moves).length_lt
        (ahead_ne_nil close (by simp [kind]))
  | fcallBlock kind _ _ _ _ block =>
      exact block.moves.length_lt (ahead_ne_nil close (by simp [kind]))
  | paren word skips inner skips' =>
      exact ((((Moves.skips skips).trans inner.moves).trans (.skips skips')).trans
        (.next _)).length_lt (ahead_of_isOp close word)
  | array word skips entries | hash word skips entries =>
      exact (Moves.givenBack ((Moves.skips skips).trans
        (entries.moves.trans (.next _)))).length_lt (ahead_of_isOp close word)
  | lambda word params body =>
      exact (Moves.closed (params.moves.trans body.moves)).length_lt (ahead_of_isOp close word)
  | braceBlock word skips params body =>
      exact (Moves.givenBack (.closed ((Moves.skips skips).trans
        (params.moves.trans (body.moves.trans (.next _)))))).length_lt (ahead_of_isWord close word)
  | doBlock word params body =>
      exact (Moves.givenBack (.closed (params.moves.trans
        (body.moves.trans (.next _))))).length_lt (ahead_of_isWord close word)
  | lambdaBraces word stmts | lambdaDo word stmts =>
      exact (stmts.moves.trans (.next _)).length_lt (ahead_of_isWord close word)
  | restParam word | keywordRestParam word =>
      exact (Moves.paramName? _).length_lt (ahead_of_isWord close word)
  | blockParam word =>
      exact ((Moves.next _).trans (.declaring _ _)).length_lt (ahead_of_isWord close word)
  | keywordParam kind after | nameParam kind after =>
      subst after
      exact (Moves.declaring _ _).length_lt (ahead_ne_nil close (by simp [kind]))
  | keywordDefault kind after _ default =>
      subst after
      exact ((Moves.declaring _ _).trans default.moves).length_lt
        (ahead_ne_nil close (by simp [kind]))
  | optionalParam kind after _ default =>
      subst after
      exact (((Moves.declaring _ _).trans (.next _)).trans default.moves).length_lt
        (ahead_ne_nil close (by simp [kind]))
  | entryLabel kind skips value | argumentLabel kind skips value =>
      exact ((Moves.skips skips).trans value.moves).length_lt
        (ahead_ne_nil close (by simp [kind]))
  | argumentBlockLone word => exact (Moves.refl _).length_lt (ahead_of_isWord close word)
  | parenEmpty word skips =>
      exact (Moves.givenBack ((Moves.skips skips).trans (.next _))).length_lt
        (ahead_of_isWord close word)
  | parenFull word skips _ args skips' =>
      exact (Moves.givenBack ((Moves.skips skips).trans
        ((args.moves.trans (.skips skips')).trans (.next _)))).length_lt
        (ahead_of_isWord close word)
  | indexEmpty word skips =>
      exact ((Moves.skips skips).trans (.next _)).length_lt (ahead_of_isWord close word)
  | indexFull word skips _ args skips' =>
      exact ((Moves.skips skips).trans
        ((args.moves.trans (.skips skips')).trans (.next _))).length_lt
        (ahead_of_isWord close word)
  | _ => cases takes

/-- The node of an expression stands at the place of its first token. -/
theorem pos_eq {pos : Pos} (reads : Derives fits rule s field s₁) (place : rule.place? s = some pos) :
    ∀ node, field = .node node → node.pos = pos := by
  induction reads generalizing pos with
  | assign | opAssign | not | minus | unary | constant | localVar | vcall | paren | array | hash
  | lambda | joinedDone | chainDone | suffixesDone | chainOnce | constPath | blockBraces | blockDo
  | blockNone =>
      rintro node ⟨⟩
      exact Option.some.inj place
  | leaf found =>
      rintro node ⟨⟩
      exact (Token.pos_of_leaf? found).trans (Option.some.inj place)
  | rangeBetween _ _ _ left | power _ _ _ _ left =>
      have start := left place _ rfl
      rintro node ⟨⟩
      exact start
  | stmt _ _ _ inner | unassigned _ _ _ inner | notNegated _ _ inner | notRange _ _ inner
  | tightest _ inner | notMinus _ _ inner | notPower _ _ inner | notUnary _ _ inner
  | callShorthand _ _ _ _ _ inner | callBare _ _ _ _ _ inner | callArgs _ _ _ _ _ _ inner
  | fcall _ _ _ _ _ inner | command _ _ _ _ _ _ _ inner | fcallBlock _ _ _ _ _ _ inner
  | joinedMore _ _ _ _ _ inner | chainMore _ _ _ _ _ _ inner | suffixesIndex _ _ _ _ inner =>
      exact inner place
  | expression _ _ left joined | level _ _ left joined | operand _ _ left joined =>
      intro node same
      exact (joined rfl node same).trans (left place _ rfl)
  | suffixesCall _ _ _ call suffixes =>
      intro node same
      exact (suffixes rfl node same).trans (call place _ rfl)
  | _ => cases place

end Derives

end RubyFormat
