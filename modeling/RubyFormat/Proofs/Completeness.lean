import RubyFormat.Proofs.Progress

/-!
# What the grammar derives, the parsers read

A derivation from a state is a run of the parser of its rule from there, if the parser may go as
deep as there are tokens ahead.  A rule that is entered behind a token of the construct it belongs
to is run with the parsers one level up, since that token is no longer ahead.  So the parsers and the
grammar agree on every token list that closes with the end mark.
-/

namespace RubyFormat

/-! ## Runs that succeed -/

namespace ParseM

variable {α β : Type} {s s₁ s₂ : ParseState} {parser : ParseM α} {then' : α → ParseM β} {value : α}
  {result : β}

/-- A parser gives a value and leaves a state. -/
def Gives (parser : ParseM α) (s : ParseState) (value : α) (s₁ : ParseState) : Prop :=
  parser.run s = .ok (value, s₁)

namespace Gives

theorem pure (value : α) (s : ParseState) : Gives (Pure.pure value) s value s :=
  rfl

theorem bind (first : parser.Gives s value s₁) (second : (then' value).Gives s₁ result s₂) :
    (parser >>= then').Gives s result s₂ :=
  run_bind_ok.2 ⟨_, first, second⟩

/-- The value of a parser is put into another. -/
theorem map {f : α → β} (first : parser.Gives s value s₁) :
    (parser >>= fun value => Pure.pure (f value)).Gives s (f value) s₁ :=
  bind first (pure _ _)

theorem yes {condition : Prop} [Decidable condition] {other : ParseM α} (holds : condition)
    (gives : parser.Gives s value s₁) : (if condition then parser else other).Gives s value s₁ := by
  rwa [if_pos holds]

theorem no {condition : Prop} [Decidable condition] {other : ParseM α} (fails : ¬ condition)
    (gives : parser.Gives s value s₁) : (if condition then other else parser).Gives s value s₁ := by
  rwa [if_neg fails]

theorem current {then' : Token → ParseM β} (gives : (then' s.current).Gives s result s₁) :
    (ParseM.current >>= then').Gives s result s₁ :=
  bind rfl gives

theorem get {then' : ParseState → ParseM β} (gives : (then' s).Gives s result s₁) :
    (MonadState.get >>= then').Gives s result s₁ :=
  bind rfl gives

theorem isAt {word : String} {then' : Bool → ParseM β}
    (gives : (then' (s.current.isWord word)).Gives s result s₁) :
    (ParseM.isAt word >>= then').Gives s result s₁ :=
  bind rfl gives

theorem isAtDo {then' : Bool → ParseM β} (gives : (then' s.isAtDo).Gives s result s₁) :
    (ParseM.isAtDo >>= then').Gives s result s₁ :=
  bind rfl gives

theorem advance {then' : Token → ParseM β} (there : s.ahead ≠ [])
    (gives : (then' s.current).Gives s.next result s₁) :
    (ParseM.advance >>= then').Gives s result s₁ :=
  bind (run_advance_ok.2 ⟨there, rfl⟩) gives

theorem take {then' : Unit → ParseM β} (there : s.ahead ≠ [])
    (gives : (then' ()).Gives s.next result s₁) :
    (discard ParseM.advance >>= then').Gives s result s₁ :=
  bind (run_discard_advance_ok.2 ⟨there, rfl⟩) gives

theorem expect {word : String} {then' : Unit → ParseM β} (isWord : s.current.isWord word = true)
    (there : s.ahead ≠ []) (gives : (then' ()).Gives s.next result s₁) :
    (ParseM.expect word >>= then').Gives s result s₁ :=
  bind (run_expect_ok.2 ⟨⟨isWord, there⟩, rfl⟩) gives

theorem skip {then' : Unit → ParseM β} (skips : s.Skips s₁)
    (gives : (then' ()).Gives s₁ result s₂) :
    (skipNewlines >>= then').Gives s result s₂ :=
  bind (run_skipNewlines_ok.2 skips) gives

theorem declare {name : String} {then' : Unit → ParseM β} (hasScope : s.scopes ≠ [])
    (gives : (then' ()).Gives (s.declaring name) result s₁) :
    (ParseM.declare name >>= then').Gives s result s₁ :=
  bind (run_declare_ok.2 ⟨hasScope, rfl⟩) gives

theorem inScope (gives : parser.Gives s.opened value s₁) (hasScope : s₁.scopes ≠ []) :
    (ParseM.inScope parser).Gives s value s₁.closed :=
  run_inScope_ok.2 ⟨_, gives, hasScope, rfl⟩

theorem delimited (gives : parser.Gives (s.atDepth 0) value s₁) :
    (ParseM.delimited parser).Gives s value (s₁.atDepth s.commandDepth) :=
  run_delimited_ok.2 ⟨_, gives, rfl⟩

theorem inCommand (gives : parser.Gives (s.atDepth (s.commandDepth + 1)) value s₁) :
    (ParseM.inCommand parser).Gives s value (s₁.atDepth (s₁.commandDepth - 1)) :=
  run_inCommand_ok.2 ⟨_, gives, rfl⟩

end Gives

/-- A loop that goes on behind any items goes on behind one more. -/
theorem LoopsTo.behind {body : List α → ParseM (LoopStep (List α) (List α))} {rest : List α}
    (loops : ∀ done, LoopsTo body done s (done ++ rest) s₁) (done : List α) (item : α) :
    LoopsTo body (done ++ [item]) s (done ++ item :: rest) s₁ := by
  rw [List.append_cons done item rest]
  exact loops _

end ParseM

/-! ## Rules as parsers -/

open ParseM

namespace ParseState

/-- A state from which a parser may go as deep as the bound. -/
structure Ready (bound : Nat) (s : ParseState) : Prop where
  eof : s.close.kind = .eof
  hasScope : s.scopes ≠ []
  enough : s.ahead.length ≤ bound

namespace Ready

variable {bound : Nat} {s s₁ : ParseState}

theorem moves (ready : s.Ready bound) (moves : s.Moves s₁) : s₁.Ready bound where
  eof := moves.eof ready.eof
  hasScope := by
    have some := List.length_pos_iff.2 ready.hasScope
    rw [← moves.scopes] at some
    exact List.length_pos_iff.1 some
  enough := Nat.le_trans moves.length_le ready.enough

theorem word {word : String} (ready : s.Ready bound) (isWord : s.current.isWord word = true) :
    s.ahead ≠ [] :=
  ahead_of_isWord ready.eof isWord

/-- Behind a token, one level less is enough. -/
theorem deeper (ready : s.Ready bound) (moves : s.Moves s₁)
    (shorter : s₁.ahead.length < s.ahead.length) : ∃ less, bound = less + 1 ∧ s₁.Ready less := by
  have enough := ready.enough
  cases bound with
  | zero => omega
  | succ less =>
      exact ⟨less, rfl, (ready.moves moves).eof, (ready.moves moves).hasScope, by omega⟩

theorem taken (ready : s.Ready bound) (there : s.ahead ≠ []) :
    ∃ less, bound = less + 1 ∧ s.next.Ready less :=
  ready.deeper (.next s) (length_next_lt there)

theorem atDepth (ready : s.Ready bound) (depth : Nat) : (s.atDepth depth).Ready bound :=
  ⟨ready.eof, ready.hasScope, ready.enough⟩

theorem opened (ready : s.Ready bound) : s.opened.Ready bound :=
  ⟨ready.eof, nofun, ready.enough⟩

end Ready

/-- No line break is passed where a word is next. -/
theorem Skips.of_isWord {s : ParseState} {word : String} (isWord : s.current.isWord word = true) :
    s.Skips s := by
  have kind := Token.kind_of_isWord isWord
  obtain ⟨ahead, close, scopes, depth⟩ := s
  cases ahead with
  | nil =>
      refine ⟨rfl, ?_⟩
      rcases kind with op | keyword <;> simp_all
  | cons token rest =>
      have kept : (token.kind == .newline) = false := by
        rcases kind with op | keyword <;> simp_all [current]
      refine ⟨by simp [pastNewlines, kept], ?_⟩
      rcases kind with op | keyword <;> simp_all

end ParseState

namespace Rule

/-- The parser for the items of a list. -/
def item (rules : Rules) : Rule → ParseM Node
  | .listedValue => Parse.listedValue rules
  | .range => rules.range
  | .argument => Parse.argument rules
  | .element => Parse.element rules
  | .entry => Parse.entry rules
  | _ => fail .exhausted

/-- Whether lists have items of the rule. -/
def isItem : Rule → Bool
  | .listedValue | .range | .argument | .element | .entry => true
  | _ => false

end Rule

/-- A parser gives the content of a field. -/
def ParseM.Fills {α : Type} (parser : ParseM α) (wrap : α → Field Node) (s : ParseState)
    (field : Field Node) (s₁ : ParseState) : Prop :=
  ∃ value, field = wrap value ∧ parser.Gives s value s₁

namespace ParseM.Fills

variable {s s₁ : ParseState} {field : Field Node}

theorem node {parser : ParseM Node} {value : Node} (fills : parser.Fills .node s (.node value) s₁) :
    parser.Gives s value s₁ := by
  obtain ⟨other, same, gives⟩ := fills
  cases same
  exact gives

theorem list {parser : ParseM (List Node)} {value : List Node}
    (fills : parser.Fills .list s (.list value) s₁) : parser.Gives s value s₁ := by
  obtain ⟨other, same, gives⟩ := fills
  cases same
  exact gives

theorem optional {parser : ParseM (Option Node)} {value : Option Node}
    (fills : parser.Fills .optional s (.optional value) s₁) : parser.Gives s value s₁ := by
  obtain ⟨other, same, gives⟩ := fills
  cases same
  exact gives

theorem optionalList {parser : ParseM (Option (List Node))} {value : Option (List Node)}
    (fills : parser.Fills .optionalList s (.optionalList value) s₁) : parser.Gives s value s₁ := by
  obtain ⟨other, same, gives⟩ := fills
  cases same
  exact gives

end ParseM.Fills

namespace Rule

/-- The operation of a level that does not chain, if its operator follows. -/
def once (item : ParseM Node) (level : OperatorLevel) (left : Node) : ParseM Node := do
  if (← current).isOpIn level.operators then
    Parse.operation item left
  else
    return left

/-- A command with the `do` block that follows it, if one does. -/
def withDo (rules : Rules) (call : Node) : ParseM Node := do
  if ← isAtDo then
    return .methodAddBlock call.pos call (← Parse.doBlock rules)
  else
    return call

/--
The run of a rule's parser, or of its loop behind what is read already.  Rules that are entered
behind a token are run with the parsers over the given ones.
-/
def Runs (rules : Rules) (s : ParseState) (field : Field Node) (s₁ : ParseState) : Rule → Prop
  | .program => (Parse.program rules.layer).Fills .node s field s₁
  | .stmts words => ∃ nodes, field = .list nodes ∧
      ∀ done, LoopsTo (Parse.stmtStep rules words) done s (done ++ nodes) s₁
  | .stmt => (Parse.stmt rules).Fills .node s field s₁
  | .assignment takesList => (Parse.assignment rules takesList).Fills .node s field s₁
  | .values => (Parse.values rules.layer).Fills .node s field s₁
  | .listedValue => (Parse.listedValue rules.layer).Fills .node s field s₁
  | .expression => (Parse.expression rules).Fills .node s field s₁
  | .joined left => ∃ node, field = .node node ∧ LoopsTo (Parse.joinStep rules) left s node s₁
  | .negated => (Parse.negated rules).Fills .node s field s₁
  | .range => (Parse.range rules).Fills .node s field s₁
  | .operations levels => (Parse.operations rules levels).Fills .node s field s₁
  | .chain level tighter left => ∃ node, field = .node node ∧
      if level.chains then
        LoopsTo (Parse.levelStep (Parse.operations rules tighter) level) left s node s₁
      else
        (once (Parse.operations rules tighter) level left).Gives s node s₁
  | .minus => (Parse.minus rules).Fills .node s field s₁
  | .power => (Parse.power rules).Fills .node s field s₁
  | .unary => (Parse.unary rules).Fills .node s field s₁
  | .operand => (Parse.operand rules).Fills .node s field s₁
  | .suffixes expr => ∃ node, field = .node node ∧
      LoopsTo (Parse.suffixStep rules.layer) expr s node s₁
  | .callSuffix receiver => (Parse.callSuffix rules.layer receiver).Fills .node s field s₁
  | .primary => (Parse.primary rules).Fills .node s field s₁
  | .block true call => (Parse.withBlock rules.layer call).Fills .node s field s₁
  | .block false call => (withDo rules.layer call).Fills .node s field s₁
  | .braceBlock => (Parse.braceBlock rules.layer).Fills .node s field s₁
  | .doBlock => (Parse.doBlock rules.layer).Fills .node s field s₁
  | .bodyStmt => (Parse.bodyStmt rules.layer).Fills .node s field s₁
  | .rescueChain => ∃ clauses : List (Option Node → Node),
      field = .optional (clauses.foldr (fun clause next => some (clause next)) none) ∧
        ∀ done, LoopsTo (Parse.rescueStep rules.layer) done s (done ++ clauses) s₁
  | .exceptions => (Parse.exceptions rules.layer).Fills .list s field s₁
  | .holder => (Parse.holder rules.layer).Fills .optional s field s₁
  | .clause word words => (Parse.clause rules.layer word words).Fills .optionalList s field s₁
  | .blockVar => (Parse.blockVar rules.layer).Fills .optional s field s₁
  | .lambdaParams => (Parse.lambdaParams rules.layer).Fills .optional s field s₁
  | .lambdaBody => (Parse.lambdaBody rules.layer).Fills .list s field s₁
  | .params closer => (Parse.params rules.layer closer).Fills .node s field s₁
  | .paramList closer pos list => ∃ all, field = .node (all.toNode pos) ∧
      LoopsTo (Parse.paramStep rules.layer closer) list s all s₁
  | .param closer => ∃ param, field = .node param ∧
      ∀ list, (Parse.param rules.layer closer list).Gives s (list.add param) s₁
  | .items item closer => ∃ nodes, field = .list nodes ∧
      ∀ closes : ParseM Bool, (∀ s, closes.run s = .ok (s.closes closer, s)) →
        ∀ done, LoopsTo (commaStep (item.item rules.layer) closes) done s (done ++ nodes) s₁
  | .entries item closer => ∃ nodes, field = .list nodes ∧
      ∀ done, LoopsTo (closedStep (item.item rules.layer) closer) done s (done ++ nodes) s₁
  | .argument => (Parse.argument rules.layer).Fills .node s field s₁
  | .element => (Parse.element rules.layer).Fills .node s field s₁
  | .entry => (Parse.entry rules.layer).Fills .node s field s₁
  | .arguments closer => (Parse.arguments rules.layer closer).Fills .node s field s₁
  | .parenArguments => (Parse.parenArguments rules.layer).Fills .node s field s₁
  | .indexArguments => (Parse.indexArguments rules.layer).Fills .optional s field s₁

/-- A rule that repeats another repeats one that lists have. -/
def IsListed : Rule → Prop
  | .items item _ | .entries item _ => item.isItem = true ∧ item.IsListed
  | _ => True

theorem isListed_rightSide (takesList : Bool) : (Rule.rightSide takesList).IsListed := by
  cases takesList <;> trivial

/-- A rule is run by its parser wherever the depth is enough for the tokens ahead. -/
def RunsReady (rule : Rule) (s : ParseState) (field : Field Node) (s₁ : ParseState) : Prop :=
  rule.IsListed → ∀ {bound : Nat}, s.Ready bound → rule.Runs (Rules.ofDepth bound) s field s₁

theorem Runs.item {rule : Rule} {rules : Rules} {s s₁ : ParseState} {node : Node}
    (isItem : rule.isItem = true) (runs : rule.Runs rules s (.node node) s₁) :
    (rule.item rules.layer).Gives s node s₁ := by
  cases rule with
  | listedValue | range | argument | element | entry => exact Fills.node runs
  | _ => cases isItem

theorem Runs.rightSide {takesList : Bool} {rules : Rules} {s s₁ : ParseState} {node : Node}
    (runs : (Rule.rightSide takesList).Runs rules s (.node node) s₁) :
    (Parse.rightSide rules.layer takesList).Gives s node s₁ := by
  cases takesList with
  | true => exact Fills.node runs
  | false => exact Fills.node runs

theorem Runs.stmts {words : List String} {rules : Rules} {s s₁ : ParseState} {nodes : List Node}
    (runs : (Rule.stmts words).Runs rules s (.list nodes) s₁) :
    (Parse.stmts rules words).Gives s nodes s₁ := by
  obtain ⟨others, same, loops⟩ := runs
  cases same
  exact (loops []).run

end Rule

theorem Token.isBreak_of_comment {token : Token} (kind : token.kind = .comment) :
    token.isBreak = false := by
  simp [Token.isBreak, Token.isOp, kind]

theorem Token.isWord_of_isOp {token : Token} {operator : String}
    (isOp : token.isOp operator = true) : token.isWord operator = true := by
  simp only [Token.isOp, Bool.and_eq_true, beq_iff_eq] at isOp
  simp [Token.isWord, isOp.1, isOp.2]

theorem Token.not_isWord_of_ne {token : Token} {word other : String}
    (isWord : token.isWord word = true) (apart : word ≠ other) : ¬ token.isWord other = true := by
  intro isOther
  exact apart ((Token.text_of_isWord isWord).symm.trans (Token.text_of_isWord isOther))

theorem Token.not_isWord_of_kind {token : Token} {kind : TokenKind} (word : String)
    (found : token.kind = kind) (noOp : kind ≠ .op) (noKeyword : kind ≠ .keyword) :
    ¬ token.isWord word = true := by
  intro isWord
  rcases Token.kind_of_isWord isWord with op | keyword
  · exact noOp (found.symm.trans op)
  · exact noKeyword (found.symm.trans keyword)

theorem Token.isOpIn_of_isOp {token : Token} {operator : String} {operators : List String}
    (isOp : token.isOp operator = true) (apart : operators.contains operator = false) :
    token.isOpIn operators = false := by
  simp only [Token.isOp, Bool.and_eq_true, beq_iff_eq] at isOp
  rw [Token.isOpIn, isOp.2, apart, Bool.and_false]

/-- A message is no opening parenthesis. -/
theorem Token.isOp_of_message? {token : Token} {name : Node} (found : token.message? = some name) :
    token.isOp "(" = false := by
  have noMethod : Parse.methodOperators.contains "(" = false := by decide
  apply Bool.eq_false_iff.2
  intro paren
  simp only [Token.isOp, Bool.and_eq_true, beq_iff_eq] at paren
  simp only [Token.message?, paren.1, paren.2, noMethod] at found
  cases found

namespace ParseState

variable {s s₁ : ParseState}

theorem ahead_of_isBreak (close : s.close.kind = .eof) (isBreak : s.current.isBreak = true) :
    s.ahead ≠ [] := by
  apply ahead_ne_nil close
  intro eof
  simp [Token.isBreak, Token.isOp, eof] at isBreak

theorem isContinued_of_isOp {operator : String} (isOp : s.current.isOp operator = true) :
    s.isContinued = false := by
  simp only [Token.isOp, Bool.and_eq_true, beq_iff_eq] at isOp
  simp [isContinued, isOp.1]

theorem ahead_of_kind {kind : TokenKind} (close : s.close.kind = .eof)
    (found : s.current.kind = kind) (token : kind ≠ .eof) : s.ahead ≠ [] :=
  ahead_ne_nil close (found ▸ token)

theorem ahead_of_either {word other : String} (close : s.close.kind = .eof)
    (isWord : (s.current.isWord word || s.current.isWord other) = true) : s.ahead ≠ [] := by
  rcases Bool.or_eq_true_iff.1 isWord with first | second
  · exact ahead_of_isWord close first
  · exact ahead_of_isWord close second

/-- Where tokens are ahead of a later state, they are of an earlier one. -/
theorem Moves.ahead_ne_nil (moves : s.Moves s₁) (there : s₁.ahead ≠ []) : s.ahead ≠ [] := by
  intro nothing
  have suffix := moves.ahead
  rw [nothing] at suffix
  exact there (List.suffix_nil.1 suffix)

theorem ahead_past_target {expr made : Node} (ran : (Parse.target expr).run s = .ok (made, s₁))
    (there : s.ahead ≠ []) : s₁.ahead ≠ [] := by
  rwa [ahead_of_target ran]

end ParseState

namespace Parse

variable {rules : Rules} {s s₁ : ParseState} {node : Node}

theorem primary_leaf (found : s.current.leaf? = some node) (there : s.ahead ≠ []) :
    (primary rules).Gives s node s.next := by
  refine .current ?_
  unfold Token.leaf? at found
  split at found
  case h_5 kind =>
    simp only [kind]
    split at found
    · cases found
    · cases found
      exact .no ‹_› (run_leaf_ok.2 ⟨there, rfl⟩)
  case h_9 kind =>
    simp only [kind]
    split at found
    · cases found
      exact .yes ‹_› (run_leaf_ok.2 ⟨there, rfl⟩)
    · cases found
  case h_10 => cases found
  case h_1 kind | h_2 kind | h_3 kind | h_4 kind | h_6 kind | h_7 kind | h_8 kind =>
    cases found
    simp only [kind]
    exact run_leaf_ok.2 ⟨there, rfl⟩

theorem primary_ident (kind : s.current.kind = .ident) (gives : (identifier rules).Gives s node s₁) :
    (primary rules).Gives s node s₁ := by
  refine .current ?_
  simp only [kind]
  exact gives

theorem primary_const (kind : s.current.kind = .const) (gives : (constant rules).Gives s node s₁) :
    (primary rules).Gives s node s₁ := by
  refine .current ?_
  simp only [kind]
  exact gives

theorem paramName_gives {bound : Nat} (ready : s.Ready bound) (kind : s.current.kind = .ident) :
    paramName.Gives s (.name .ident s.current.pos s.current.text)
      (s.next.declaring s.current.text) :=
  run_paramName_ok.2 ⟨⟨kind, ParseState.ahead_of_kind ready.eof kind nofun, ready.hasScope⟩, rfl⟩

theorem paramName?_gives {bound : Nat} (ready : s.Ready bound) :
    paramName?.Gives s s.paramName?.1 s.paramName?.2 :=
  run_paramName?_ok.2
    ⟨fun kind => ⟨ParseState.ahead_of_kind ready.eof kind nofun, ready.hasScope⟩, rfl⟩

/-- An operand that an operator opens. -/
theorem primary_op {operator : String} {parser : Rules → ParseM Node}
    (isOp : s.current.isOp operator = true)
    (opens : (operator, parser) ∈
      [("(", paren), ("[", array), ("\x7b", hash), ("->", lambda)])
    (gives : (parser rules).Gives s node s₁) : (primary rules).Gives s node s₁ := by
  simp only [Token.isOp, Bool.and_eq_true, beq_iff_eq] at isOp
  refine .current ?_
  simp only [List.mem_cons, Prod.mk.injEq, List.not_mem_nil, or_false] at opens
  rcases opens with ⟨rfl, rfl⟩ | ⟨rfl, rfl⟩ | ⟨rfl, rfl⟩ | ⟨rfl, rfl⟩
  all_goals
    simp only [isOp.1, isOp.2]
    exact gives

end Parse

/-! ## Derivations are runs -/

namespace Derives

open ParseState Rule

variable {fits : ParamList → Node → Prop} {rule : Rule} {s s₁ : ParseState} {field : Field Node}

variable {reads : Derives fits rule s field s₁} {bound : Nat}

section Families

variable (parts : reads.Parts RunsReady) (ready : s.Ready bound)
include parts ready

theorem runs_statements (family : rule.family = .statements) :
    rule.Runs (Rules.ofDepth bound) s field s₁ := by
  cases parts with
  | program _ eof _ body =>
      exact ⟨_, rfl, .current (.bind (body trivial ready).stmts
        (.current (.yes (by simpa using eof) (.pure _ _))))⟩
  | stmtsDone ends =>
      refine ⟨[], rfl, fun done => .done (Parse.run_stmtStep_done.2 (.inl ⟨ends, ?_, rfl⟩))⟩
      exact List.append_nil done
  | stmtsBreak more isBreak _ _ rest =>
      have there := ahead_of_isBreak ready.eof isBreak
      obtain ⟨nodes, rfl, loops⟩ := rest trivial (ready.moves (.next _))
      exact ⟨nodes, rfl, fun done => .again
        (Parse.run_stmtStep_again.2 ⟨more, .inl ⟨isBreak, there, rfl, rfl⟩⟩)
        (length_next_lt there) (loops done)⟩
  | stmtsComment more kind _ _ rest =>
      have there := ahead_of_kind ready.eof kind nofun
      have noBreak := Token.isBreak_of_comment kind
      obtain ⟨nodes, same, loops⟩ := rest trivial (ready.moves (.next _))
      cases same
      exact ⟨_, rfl, fun done => .again (Parse.run_stmtStep_again.2
        ⟨more, .inr ⟨noBreak, .inl ⟨kind, there, rfl, rfl⟩⟩⟩) (length_next_lt there)
        (.behind loops _ _)⟩
  | stmtsRemark more noBreak noComment read kind _ _ stmt _ rest =>
      have behind := ready.moves read.moves
      have there := ahead_of_kind behind.eof kind nofun
      have ran := (stmt trivial ready).node
      obtain ⟨nodes, same, loops⟩ := rest trivial (behind.moves (.next _))
      cases same
      refine ⟨_, rfl, fun done => .again (Parse.run_stmtStep_again.2 ⟨more, .inr ⟨noBreak,
        .inr ⟨noComment, _, _, ran, .inl ⟨kind, there, rfl, rfl⟩⟩⟩⟩) ?_ (.behind loops _ _)⟩
      exact Nat.lt_of_lt_of_le (length_next_lt there) read.moves.length_le
  | stmtsLast more noBreak noComment _ noRemark ends _ stmt =>
      have ran := (stmt trivial ready).node
      exact ⟨_, rfl, fun done => .done (Parse.run_stmtStep_done.2
        (.inr ⟨more, noBreak, noComment, _, ran, noRemark, ends, rfl⟩))⟩
  | stmtsMore more noBreak noComment read noRemark goesOn ends _ _ stmt _ rest =>
      have ran := (stmt trivial ready).node
      obtain ⟨nodes, same, loops⟩ := rest trivial (ready.moves read.moves)
      cases same
      exact ⟨_, rfl, fun done => .again (Parse.run_stmtStep_again.2 ⟨more, .inr ⟨noBreak,
        .inr ⟨noComment, _, _, ran, .inr ⟨noRemark, goesOn, ends, rfl, rfl⟩⟩⟩⟩)
        (read.length_lt ready.eof rfl) (.behind loops _ _)⟩
  | stmt own _ noComma _ inner =>
      obtain ⟨node, rfl, ran⟩ := inner trivial ready
      refine ⟨node, rfl, .current (.no ?_ (.bind ran (.isAt (.no ?_ (.pure _ _)))))⟩
      · exact Bool.eq_false_iff.1 own
      · exact Bool.eq_false_iff.1 noComma
  | _ => cases family

theorem runs_assignments (family : rule.family = .assignments) :
    rule.Runs (Rules.ofDepth bound) s field s₁ := by
  cases parts with
  | unassigned _ noEquals noOperator _ expr =>
      obtain ⟨node, rfl, ran⟩ := expr trivial ready
      refine ⟨node, rfl, .current (.bind ran (.current (.no ?_ (.no ?_ (.pure _ _)))))⟩
      · exact Bool.eq_false_iff.1 noEquals
      · exact Bool.eq_false_iff.1 noOperator
  | assign read equals made skips _ _ expr _ value =>
      have behind := (read.moves.trans (.target made)).trans ((Moves.next _).trans (.skips skips))
      have there := ahead_past_target made (ahead_of_isOp (ready.moves read.moves).eof equals)
      have ran := (expr trivial ready).node
      have shorter := Nat.lt_of_le_of_lt
        (((Moves.target made).trans (.next _)).trans (.skips skips)).length_le
        (read.length_lt ready.eof rfl)
      obtain ⟨less, rfl, deep⟩ := ready.deeper behind shorter
      exact ⟨_, rfl, .current (.bind ran (.current (.yes equals (.bind made (.take there
        (.skip skips (.map (value (isListed_rightSide _) deep).rightSide)))))))⟩
  | opAssign read noEquals isOp made skips _ _ expr _ value =>
      have behind := (read.moves.trans (.target made)).trans ((Moves.next _).trans (.skips skips))
      have there := ahead_past_target made (ahead_of_isOpIn (ready.moves read.moves).eof isOp)
      have ran := (expr trivial ready).node
      have shorter := Nat.lt_of_le_of_lt
        (((Moves.target made).trans (.next _)).trans (.skips skips)).length_le
        (read.length_lt ready.eof rfl)
      obtain ⟨less, rfl, deep⟩ := ready.deeper behind shorter
      exact ⟨_, rfl, .current (.bind ran (.current (.no (Bool.eq_false_iff.1 noEquals) (.yes isOp
        (.bind made (.take there (.skip skips (.map (value trivial deep).node))))))))⟩
  | values _ _ items =>
      obtain ⟨nodes, same, loops⟩ := items ⟨rfl, trivial⟩ ready
      cases same
      exact ⟨_, rfl, .current (.map (loops _ (fun _ => rfl) []).run)⟩
  | listedSplat star _ _ value =>
      have ran := (value trivial (ready.moves (.next _))).node
      exact ⟨_, rfl, .current (.yes star (.take (ready.word star) (.map ran)))⟩
  | listedPlain noStar _ _ value =>
      obtain ⟨node, rfl, ran⟩ := value trivial ready
      exact ⟨node, rfl, .current (.no (Bool.eq_false_iff.1 noStar) ran)⟩
  | _ => cases family

theorem runs_junctions (family : rule.family = .junctions) :
    rule.Runs (Rules.ofDepth bound) s field s₁ := by
  cases parts with
  | expression read _ _ left _ joined =>
      obtain ⟨node, rfl, loops⟩ := joined trivial (ready.moves read.moves)
      exact ⟨node, rfl, .bind (left trivial ready).node loops.run⟩
  | joinedDone ends => exact ⟨_, rfl, .done (Parse.run_joinStep_done.2 ⟨ends, rfl, rfl⟩)⟩
  | joinedMore word skips read _ _ right _ joined =>
      have there := ahead_of_either ready.eof word
      have moves := (Moves.next _).trans (.skips skips)
      have ran := (right trivial (ready.moves moves)).node
      obtain ⟨node, rfl, loops⟩ := joined trivial (ready.moves (moves.trans read.moves))
      refine ⟨node, rfl, .again (Parse.run_joinStep_again.2
        ⟨word, Parse.run_operation_ok.2 ⟨there, _, _, skips, ran, rfl⟩⟩) ?_ loops⟩
      exact ((Moves.skips skips).trans read.moves).length_lt there
  | not word _ _ operand =>
      have there := ready.word word
      obtain ⟨less, rfl, past⟩ := ready.taken there
      exact ⟨_, rfl, .current (.yes word (.take there (.map (operand trivial past).node)))⟩
  | notNegated noWord _ _ range =>
      obtain ⟨node, rfl, ran⟩ := range trivial ready
      exact ⟨node, rfl, .current (.no (Bool.eq_false_iff.1 noWord) ran)⟩
  | rangeBetween read dots _ _ left _ right =>
      have behind := ready.moves read.moves
      have there := ahead_of_either behind.eof dots
      have ran := (right trivial (behind.moves (.next _))).node
      exact ⟨_, rfl, .bind (left trivial ready).node
        (.current (.yes dots (.take there (.map ran))))⟩
  | notRange _ noDots _ operations =>
      obtain ⟨node, rfl, ran⟩ := operations trivial ready
      exact ⟨node, rfl, .bind ran (.current (.no (Bool.eq_false_iff.1 noDots) (.pure _ _)))⟩
  | _ => cases family

theorem runs_operations (family : rule.family = .operations) :
    rule.Runs (Rules.ofDepth bound) s field s₁ := by
  cases parts with
  | tightest _ _ minus => exact minus trivial ready
  | @level level _ _ _ _ _ _ read _ _ left _ chain =>
      obtain ⟨node, rfl, ran⟩ := chain trivial (ready.moves read.moves)
      refine ⟨node, rfl, .bind (left trivial ready).node ?_⟩
      cases chains : level.chains with
      | true =>
          simp only [chains, if_true] at ran
          exact .yes rfl ran.run
      | false =>
          simp only [chains] at ran
          exact .no nofun ran
  | @chainDone level _ _ _ ends =>
      refine ⟨_, rfl, ?_⟩
      split
      · exact .done (Parse.run_levelStep_done.2 ⟨ends, rfl, rfl⟩)
      · exact .current (.no (Bool.eq_false_iff.1 ends) (.pure _ _))
  | chainMore chains isOp skips read _ _ right _ chain =>
      have there := ahead_of_isOpIn ready.eof isOp
      have moves := (Moves.next _).trans (.skips skips)
      have ran := (right trivial (ready.moves moves)).node
      obtain ⟨node, rfl, loops⟩ := chain trivial (ready.moves (moves.trans read.moves))
      rw [if_pos chains] at loops
      refine ⟨node, rfl, ?_⟩
      rw [if_pos chains]
      refine .again (Parse.run_levelStep_again.2
        ⟨isOp, Parse.run_operation_ok.2 ⟨there, _, _, skips, ran, rfl⟩⟩) ?_ loops
      exact ((Moves.skips skips).trans read.moves).length_lt there
  | chainOnce single isOp skips _ _ right =>
      have there := ahead_of_isOpIn ready.eof isOp
      have ran := (right trivial (ready.moves ((Moves.next _).trans (.skips skips)))).node
      refine ⟨_, rfl, ?_⟩
      rw [single]
      exact .current (.yes isOp (Parse.run_operation_ok.2 ⟨there, _, _, skips, ran, rfl⟩))
  | minus word _ _ operand =>
      have there := ready.word word
      obtain ⟨less, rfl, past⟩ := ready.taken there
      exact ⟨_, rfl, .current (.yes word (.take there (.map (operand trivial past).node)))⟩
  | notMinus noWord _ _ power =>
      obtain ⟨node, rfl, ran⟩ := power trivial ready
      exact ⟨node, rfl, .current (.no (Bool.eq_false_iff.1 noWord) ran)⟩
  | power read word skips _ _ left _ right =>
      have there := (ready.moves read.moves).word word
      have ran := (left trivial ready).node
      have shorter := Nat.lt_of_le_of_lt ((Moves.next _).trans (.skips skips)).length_le
        (read.length_lt ready.eof rfl)
      obtain ⟨less, rfl, deep⟩ :=
        ready.deeper (read.moves.trans ((Moves.next _).trans (.skips skips))) shorter
      exact ⟨_, rfl, .bind ran (.isAt (.yes word (.take there (.skip skips
        (.map (right trivial deep).node)))))⟩
  | notPower _ noWord _ unary =>
      obtain ⟨node, rfl, ran⟩ := unary trivial ready
      exact ⟨node, rfl, .bind ran (.isAt (.no (Bool.eq_false_iff.1 noWord) (.pure _ _)))⟩
  | unary mark _ _ operand =>
      have there : ParseState.ahead _ ≠ [] := (Bool.or_eq_true_iff.1 mark).elim
        (ahead_of_either ready.eof) (ahead_of_isWord ready.eof)
      obtain ⟨less, rfl, past⟩ := ready.taken there
      exact ⟨_, rfl, .current (.yes mark (.take there (.map (operand trivial past).node)))⟩
  | notUnary noMark _ _ operand =>
      obtain ⟨node, rfl, ran⟩ := operand trivial ready
      exact ⟨node, rfl, .current (.no (Bool.eq_false_iff.1 noMark) ran)⟩
  | _ => cases family

theorem runs_messages (family : rule.family = .messages) :
    rule.Runs (Rules.ofDepth bound) s field s₁ := by
  cases parts with
  | operand read _ _ primary _ suffixes =>
      have ran := (primary trivial ready).node
      obtain ⟨less, rfl, deep⟩ := ready.deeper read.moves (read.length_lt ready.eof rfl)
      obtain ⟨node, rfl, loops⟩ := suffixes trivial deep
      exact ⟨node, rfl, .bind ran loops.run⟩
  | suffixesDone ends noCall noIndex =>
      exact ⟨_, rfl, .done (Parse.run_suffixStep_done.2 ⟨ends, noCall, noIndex, rfl, rfl⟩)⟩
  | suffixesCall isCall read _ _ call _ suffixes =>
      have inside := ready.moves (.continued _)
      have ran := (call trivial inside).node
      obtain ⟨node, rfl, loops⟩ := suffixes trivial (inside.moves read.moves)
      refine ⟨node, rfl, .again (Parse.run_suffixStep_again.2 (.inl ⟨isCall, ran⟩)) ?_ loops⟩
      exact Nat.lt_of_lt_of_le (read.length_lt inside.eof rfl) (Moves.continued _).length_le
  | suffixesIndex isIndex read _ _ index _ suffixes =>
      have ran := (index trivial ready).optional
      obtain ⟨node, rfl, loops⟩ := suffixes trivial (ready.moves read.moves)
      have bracket := (Bool.and_eq_true_iff.1 isIndex).1
      refine ⟨node, rfl, .again (Parse.run_suffixStep_again.2 (.inr ⟨?_, ?_, isIndex, _, ran, rfl⟩))
        (read.length_lt ready.eof rfl) loops⟩
      · exact isContinued_of_isOp bracket
      · exact Token.isOpIn_of_isOp bracket (by decide)
  | callShorthand skips isParen read _ _ args _ block =>
      have moves := (Moves.next _).trans (.skips skips)
      have there := moves.ahead_ne_nil (ahead_of_isOp (ready.moves moves).eof isParen)
      have ran := (args trivial (ready.moves moves)).node
      obtain ⟨node, rfl, blockRan⟩ := block trivial (ready.moves (moves.trans read.moves))
      exact ⟨node, rfl, .advance there (.skip skips (.current (.yes isParen
        (.bind ran blockRan))))⟩
  | constPath skips message isConst noParen =>
      have moves := (Moves.next _).trans (.skips skips)
      have there' := ahead_ne_nil (ready.moves moves).eof (Token.kind_of_message? message)
      have there := moves.ahead_ne_nil there'
      have noShorthand := Bool.eq_false_iff.1 (Token.isOp_of_message? message)
      refine ⟨_, rfl, .advance there (.skip skips (.current (.no noShorthand
        (.bind (Parse.run_message_ok.2 ⟨there', message, rfl⟩) (.current (.yes ?_ (.pure _ _)))))))⟩
      simp only [Token.isConstantOf, Bool.and_eq_true] at isConst
      simp [isConst.1, isConst.2, noParen]
  | callBare skips message notConst noParen _ _ block =>
      have moves := (Moves.next _).trans (.skips skips)
      have there' := ahead_ne_nil (ready.moves moves).eof (Token.kind_of_message? message)
      have there := moves.ahead_ne_nil there'
      have noShorthand := Bool.eq_false_iff.1 (Token.isOp_of_message? message)
      obtain ⟨node, rfl, blockRan⟩ := block trivial (ready.moves (moves.trans (.next _)))
      refine ⟨node, rfl, .advance there (.skip skips (.current (.no noShorthand
        (.bind (Parse.run_message_ok.2 ⟨there', message, rfl⟩) (.current (.no ?_
          (.bind (.current (.no (Bool.eq_false_iff.1 noParen) (.pure _ _))) blockRan)))))))⟩
      rw [Bool.and_eq_true_iff]
      exact fun both => Bool.eq_false_iff.1 notConst both.1
  | callArgs skips message isParen read _ _ args _ block =>
      have moves := (Moves.next _).trans (.skips skips)
      have there' := ahead_ne_nil (ready.moves moves).eof (Token.kind_of_message? message)
      have there := moves.ahead_ne_nil there'
      have noShorthand := Bool.eq_false_iff.1 (Token.isOp_of_message? message)
      have named := ready.moves (moves.trans (.next _))
      have ran := (args trivial named).node
      obtain ⟨node, rfl, blockRan⟩ := block trivial (named.moves read.moves)
      refine ⟨node, rfl, .advance there (.skip skips (.current (.no noShorthand
        (.bind (Parse.run_message_ok.2 ⟨there', message, rfl⟩) (.current (.no ?_
          (.bind (.current (.yes isParen (.map ran))) blockRan)))))))⟩
      simp [isParen]
  | _ => cases family

theorem runs_operands (family : rule.family = .operands) :
    rule.Runs (Rules.ofDepth bound) s field s₁ := by
  cases parts with
  | leaf found =>
      have there := ahead_ne_nil ready.eof (Token.kind_of_leaf? found)
      exact ⟨_, rfl, Parse.primary_leaf found there⟩
  | constant kind noParen =>
      have there := ahead_of_kind ready.eof kind nofun
      exact ⟨_, rfl, Parse.primary_const kind
        (.advance there (.current (.no (Bool.eq_false_iff.1 noParen) (.pure _ _))))⟩
  | fcall found isParen read _ _ args _ block =>
      have there := ahead_ne_nil ready.eof (Token.kind_of_callee? found)
      obtain ⟨less, rfl, past⟩ := ready.taken there
      have ran := (args trivial past).node
      obtain ⟨node, rfl, blockRan⟩ := block trivial (past.moves read.moves)
      unfold Token.callee? at found
      split at found
      case h_1 kind =>
        cases found
        exact ⟨node, rfl, Parse.primary_ident kind
          (.advance there (.get (.yes isParen (.bind ran blockRan))))⟩
      case h_2 kind =>
        cases found
        exact ⟨node, rfl, Parse.primary_const kind
          (.advance there (.current (.yes isParen (.bind ran blockRan))))⟩
      case h_3 => cases found
  | localVar kind noParen isLocal =>
      have there := ahead_of_kind ready.eof kind nofun
      exact ⟨_, rfl, Parse.primary_ident kind
        (.advance there (.get (.no (Bool.eq_false_iff.1 noParen) (.yes isLocal (.pure _ _)))))⟩
  | command kind noParen notLocal starts read _ _ args _ block =>
      have there := ahead_of_kind ready.eof kind nofun
      obtain ⟨less, rfl, past⟩ := ready.taken there
      have ran := (args trivial (past.atDepth _)).node
      obtain ⟨node, rfl, blockRan⟩ := block trivial (past.moves (.outOfCommand read.moves))
      exact ⟨node, rfl, Parse.primary_ident kind
        (.advance there (.get (.no (Bool.eq_false_iff.1 noParen) (.no (Bool.eq_false_iff.1 notLocal)
          (.yes starts (.bind (.inCommand ran) blockRan))))))⟩
  | fcallBlock kind noParen notLocal noArgument opens _ _ block =>
      have there := ahead_of_kind ready.eof kind nofun
      obtain ⟨less, rfl, past⟩ := ready.taken there
      obtain ⟨node, rfl, blockRan⟩ := block trivial past
      exact ⟨node, rfl, Parse.primary_ident kind
        (.advance there (.get (.no (Bool.eq_false_iff.1 noParen) (.no (Bool.eq_false_iff.1 notLocal)
          (.no (Bool.eq_false_iff.1 noArgument) (.isAtDo (.yes opens blockRan)))))))⟩
  | vcall kind noParen notLocal noArgument noBlock =>
      have there := ahead_of_kind ready.eof kind nofun
      exact ⟨_, rfl, Parse.primary_ident kind
        (.advance there (.get (.no (Bool.eq_false_iff.1 noParen) (.no (Bool.eq_false_iff.1 notLocal)
          (.no (Bool.eq_false_iff.1 noArgument)
            (.isAtDo (.no (Bool.eq_false_iff.1 noBlock) (.pure _ _))))))))⟩
  | paren opens skips read skips' closes _ inner =>
      have isWord := Token.isWord_of_isOp opens
      obtain ⟨less, rfl, past⟩ := ready.taken (ready.word isWord)
      have inside := past.moves (.skips skips)
      have there := ((inside.moves read.moves).moves (.skips skips')).word closes
      exact ⟨_, rfl, Parse.primary_op opens (.head _) (.current (.expect isWord (ready.word isWord)
        (.skip skips (.bind (inner trivial inside).node
          (.skip skips' (.expect closes there (.pure _ _)))))))⟩
  | array opens skips read closes _ entries =>
      have isWord := Token.isWord_of_isOp opens
      obtain ⟨less, rfl, past⟩ := ready.taken (ready.word isWord)
      have inside := (past.atDepth 0).moves (.skips skips)
      obtain ⟨nodes, same, loops⟩ := entries ⟨rfl, trivial⟩ inside
      cases same
      have there := (inside.moves read.moves).word closes
      exact ⟨_, rfl, Parse.primary_op opens
        (.tail _ (.head _)) (.current (.expect isWord (ready.word isWord)
        (.map (.delimited (.skip skips (.bind (loops []).run
          (.expect closes there (.pure _ _))))))))⟩
  | hash opens skips read closes _ entries =>
      have isWord := Token.isWord_of_isOp opens
      obtain ⟨less, rfl, past⟩ := ready.taken (ready.word isWord)
      have inside := (past.atDepth 0).moves (.skips skips)
      obtain ⟨nodes, same, loops⟩ := entries ⟨rfl, trivial⟩ inside
      cases same
      have there := (inside.moves read.moves).word closes
      exact ⟨_, rfl, Parse.primary_op opens
        (.tail _ (.tail _ (.head _))) (.current (.expect isWord (ready.word isWord)
        (.map (.delimited (.skip skips (.bind (loops []).run
          (.expect closes there (.pure _ _))))))))⟩
  | lambda opens readParams readBody _ params _ body =>
      have isWord := Token.isWord_of_isOp opens
      obtain ⟨less, rfl, past⟩ := ready.taken (ready.word isWord)
      have inside := past.opened.moves readParams.moves
      exact ⟨_, rfl, Parse.primary_op opens
        (.tail _ (.tail _ (.tail _ (.head _)))) (.current (.expect isWord (ready.word isWord)
        (.inScope (.bind (params trivial past.opened).optional (.map (body trivial inside).list))
          (inside.moves readBody.moves).hasScope)))⟩
  | _ => cases family

theorem runs_blocks (family : rule.family = .blocks) :
    rule.Runs (Rules.ofDepth bound) s field s₁ := by
  cases parts with
  | blockBraces opens _ _ block =>
      exact ⟨_, rfl, .isAt (.yes opens (.map (block trivial ready).node))⟩
  | @blockDo braces _ _ _ _ isDo _ _ block =>
      have ran := (block trivial ready).node
      have noBrace := Token.not_isWord_of_ne (Bool.and_eq_true_iff.1 isDo).1
        (show "do" ≠ "\x7b" by decide)
      cases braces with
      | true => exact ⟨_, rfl, .isAt (.no noBrace (.isAtDo (.yes isDo (.map ran))))⟩
      | false => exact ⟨_, rfl, .isAtDo (.yes isDo (.map ran))⟩
  | @blockNone braces _ _ noBraces noDo =>
      have noDo := Bool.eq_false_iff.1 noDo
      cases braces with
      | true =>
          have noBraces := Bool.eq_false_iff.1 noBraces
          exact ⟨_, rfl, .isAt (.no noBraces (.isAtDo (.no noDo (.pure _ _))))⟩
      | false => exact ⟨_, rfl, .isAtDo (.no noDo (.pure _ _))⟩
  | braceBlock opens skips readParams readBody closes _ params _ body =>
      have inside := (((ready.moves (.next _)).atDepth 0).opened).moves (.skips skips)
      have behind := inside.moves readParams.moves
      have past := behind.moves readBody.moves
      exact ⟨_, rfl, .current (.expect opens (ready.word opens) (.delimited (.inScope
        (.skip skips (.bind (params trivial inside).optional (.bind (body trivial behind).stmts
          (.expect closes (past.word closes) (.pure _ _)))))
        (past.moves (.next _)).hasScope)))⟩
  | doBlock opens readParams readBody closes _ params _ body =>
      have inside := ((ready.moves (.next _)).atDepth 0).opened
      have behind := inside.moves readParams.moves
      have past := behind.moves readBody.moves
      exact ⟨_, rfl, .current (.expect opens (ready.word opens) (.delimited (.inScope
        (.bind (params trivial inside).optional (.bind (body trivial behind).node
          (.expect closes (past.word closes) (.pure _ _))))
        (past.moves (.next _)).hasScope)))⟩
  | blockVarBars bars =>
      exact ⟨_, rfl, .current (.yes bars (.take (ready.word bars) (.pure _ _)))⟩
  | blockVarSome opens read closes _ params =>
      have noBars := Token.not_isWord_of_ne opens (show "|" ≠ "||" by decide)
      have past := ready.moves (.next _)
      have there := (past.moves read.moves).word closes
      exact ⟨_, rfl, .current (.no noBars (.yes opens (.take (ready.word opens)
        (.bind (params trivial past).node (.expect closes there (.pure _ _))))))⟩
  | blockVarNone noBars noBar =>
      exact ⟨none, rfl, .current (.no (Bool.eq_false_iff.1 noBars)
        (.no (Bool.eq_false_iff.1 noBar) (.pure _ _)))⟩
  | lambdaParen opens read closes _ params =>
      have past := ready.moves (.next _)
      have there := (past.moves read.moves).word closes
      exact ⟨_, rfl, .current (.yes opens (.take (ready.word opens)
        (.bind (params trivial past).node (.expect closes there (.pure _ _)))))⟩
  | lambdaNone opens =>
      refine ⟨none, rfl, .current (.no ?_ (.yes opens (.pure _ _)))⟩
      rcases Bool.or_eq_true_iff.1 opens with brace | word
      · exact Token.not_isWord_of_ne brace (by decide)
      · exact Token.not_isWord_of_ne word (by decide)
  | lambdaBare noParen noBody _ _ params =>
      exact ⟨_, rfl, .current (.no (Bool.eq_false_iff.1 noParen)
        (.no (Bool.eq_false_iff.1 noBody) (.map (params trivial ready).node)))⟩
  | lambdaBraces opens read closes _ stmts =>
      have past := ready.moves (.next _)
      have there := (past.moves read.moves).word closes
      exact ⟨_, rfl, .isAt (.yes opens (.take (ready.word opens)
        (.bind (stmts trivial past).stmts (.expect closes there (.pure _ _)))))⟩
  | lambdaDo opens read closes _ stmts =>
      have noBrace := Token.not_isWord_of_ne opens (show "do" ≠ "\x7b" by decide)
      have past := ready.moves (.next _)
      have there := (past.moves read.moves).word closes
      exact ⟨_, rfl, .isAt (.no noBrace (.expect opens (ready.word opens)
        (.bind (stmts trivial past).stmts (.expect closes there (.pure _ _)))))⟩
  | _ => cases family

theorem runs_clauses (family : rule.family = .clauses) :
    rule.Runs (Rules.ofDepth bound) s field s₁ := by
  cases parts with
  | bodyStmt readStmts readRescue readElse _ _ stmts _ rescue _ elseBody _ ensure =>
      have rescued := ready.moves readStmts.moves
      have behind := rescued.moves readRescue.moves
      obtain ⟨clauses, same, loops⟩ := rescue trivial rescued
      cases same
      exact ⟨_, rfl, .current (.bind (stmts trivial ready).stmts (.bind (.map (loops []).run)
        (.bind (elseBody trivial behind).optionalList
          (.map (ensure trivial (behind.moves readElse.moves)).optionalList))))⟩
  | rescueNone noWord =>
      refine ⟨[], rfl, fun done => .done (Parse.run_rescueStep_done.2 ⟨noWord, ?_, rfl⟩)⟩
      exact List.append_nil done
  | rescueMore word readExceptions readHolder readStmts _ _ exceptions _ holder _ stmts _ rescue =>
      have there := ready.word word
      have past := ready.moves (.next _)
      have behind := past.moves readExceptions.moves
      have held := behind.moves readHolder.moves
      have inside := held.moves (.pastThen _)
      obtain ⟨clauses, same, loops⟩ := rescue trivial (inside.moves readStmts.moves)
      cases same
      refine ⟨.rescue _ _ _ _ :: clauses, rfl, fun done => .again
        (Parse.run_rescueStep_again.2 ⟨_, Parse.run_rescueClause_ok.2 ⟨word, there, _, _, _, _, _,
          (exceptions trivial past).list, (holder trivial behind).optional,
          fun isThen => held.word isThen, (stmts trivial inside).stmts, rfl⟩, rfl⟩) ?_
        (.behind loops _ _)⟩
      exact (readExceptions.moves.trans (readHolder.moves.trans
        ((Moves.pastThen _).trans readStmts.moves))).length_lt there
  | exceptionsNone ends => exact ⟨[], rfl, .current (.yes ends (.pure _ _))⟩
  | exceptionsSome more _ _ items =>
      obtain ⟨nodes, rfl, loops⟩ := items ⟨rfl, trivial⟩ ready
      exact ⟨nodes, rfl, .current (.no (Bool.eq_false_iff.1 more)
        (loops _ (fun _ => rfl) []).run)⟩
  | holderNone noArrow =>
      exact ⟨none, rfl, .isAt (.no (Bool.eq_false_iff.1 noArrow) (.pure _ _))⟩
  | holderSome arrow _ made _ primary =>
      have ran := (primary trivial (ready.moves (.next _))).node
      exact ⟨_, rfl, .isAt (.yes arrow (.take (ready.word arrow) (.bind ran (.map made))))⟩
  | clauseNone noWord =>
      exact ⟨none, rfl, .isAt (.no (Bool.eq_false_iff.1 noWord) (.pure _ _))⟩
  | clauseSome word _ _ stmts =>
      have ran := (stmts trivial (ready.moves (.next _))).stmts
      exact ⟨_, rfl, .isAt (.yes word (.take (ready.word word) (.map ran)))⟩
  | _ => cases family

theorem runs_parameters (family : rule.family = .parameters) :
    rule.Runs (Rules.ofDepth bound) s field s₁ := by
  cases parts with
  | params skips _ _ list =>
      obtain ⟨all, rfl, loops⟩ := list trivial (ready.moves (.skips skips))
      exact ⟨_, rfl, .current (.skip skips (.map loops.run))⟩
  | paramsDone closes =>
      exact ⟨_, rfl, .done (Parse.run_paramStep_done.2 (.inl ⟨closes, rfl, rfl⟩))⟩
  | paramsLast more _ _ skips noComma _ param =>
      obtain ⟨added, same, adds⟩ := param trivial ready
      cases same
      exact ⟨_, rfl, .done (Parse.run_paramStep_done.2
        (.inr ⟨more, _, _, _, adds _, skips, .inl ⟨noComma, rfl, rfl⟩⟩))⟩
  | paramsExcess more read _ skips comma skips' closes bar allowed _ param =>
      have there := ((ready.moves read.moves).moves (.skips skips)).word comma
      obtain ⟨added, same, adds⟩ := param trivial ready
      cases same
      exact ⟨_, rfl, .done (Parse.run_paramStep_done.2 (.inr ⟨more, _, _, _, adds _, skips,
        .inr ⟨comma, there, skips', closes, bar, allowed, rfl⟩⟩))⟩
  | paramsMore more read _ skips comma skips' goesOn _ _ param _ rest =>
      have moves := read.moves.trans (.skips skips)
      have there := (ready.moves moves).word comma
      obtain ⟨added, same, adds⟩ := param trivial ready
      cases same
      obtain ⟨all, rfl, loops⟩ := rest trivial
        (ready.moves (moves.trans ((Moves.next _).trans (.skips skips'))))
      refine ⟨all, rfl, .again (Parse.run_paramStep_again.2
        ⟨more, _, _, adds _, skips, comma, there, skips', goesOn⟩) ?_ loops⟩
      exact Nat.lt_of_lt_of_le ((Moves.skips skips').length_lt there) moves.length_le
  | restParam star =>
      have past := ready.moves (.next _)
      exact ⟨_, rfl, fun list => .current (.yes star (.take (ready.word star)
        (.map (Parse.paramName?_gives past))))⟩
  | keywordRestParam stars =>
      have noStar := Token.not_isWord_of_ne stars (show "**" ≠ "*" by decide)
      have past := ready.moves (.next _)
      exact ⟨_, rfl, fun list => .current (.no noStar (.yes stars (.take (ready.word stars)
        (.map (Parse.paramName?_gives past)))))⟩
  | blockParam amp kind =>
      have noStar := Token.not_isWord_of_ne amp (show "&" ≠ "*" by decide)
      have noStars := Token.not_isWord_of_ne amp (show "&" ≠ "**" by decide)
      have past := ready.moves (.next _)
      exact ⟨_, rfl, fun list => .current (.no noStar (.no noStars (.yes amp
        (.take (ready.word amp) (.map (Parse.paramName_gives past kind))))))⟩
  | keywordParam kind after ends =>
      subst after
      have there := ahead_of_kind ready.eof kind nofun
      have noWord (word : String) := Token.not_isWord_of_kind word kind nofun nofun
      exact ⟨_, rfl, fun list => .current (.no (noWord _) (.no (noWord _) (.no (noWord _)
        (.yes (by simpa using kind) (.take there (.declare (ready.moves (.next _)).hasScope
          (.current (.yes ends (.bind (.pure _ _) (.pure _ _))))))))))⟩
  | keywordDefault kind after more _ _ default =>
      subst after
      have there := ahead_of_kind ready.eof kind nofun
      have noWord (word : String) := Token.not_isWord_of_kind word kind nofun nofun
      have past := ready.moves (.next _)
      have ran := (default trivial (past.moves (.declaring _ _))).node
      exact ⟨_, rfl, fun list => .current (.no (noWord _) (.no (noWord _) (.no (noWord _)
        (.yes (by simpa using kind) (.take there (.declare past.hasScope
          (.current (.no (Bool.eq_false_iff.1 more)
            (.bind ran (.bind (.pure _ _) (.pure _ _)))))))))))⟩
  | @optionalParam _ s _ _ _ kind after equals _ _ default =>
      subst after
      have noWord (word : String) := Token.not_isWord_of_kind word kind nofun nofun
      have named := (ready.moves (.next s)).moves (.declaring s.current.text _)
      have ran := (default trivial (named.moves (.next _))).node
      exact ⟨_, rfl, fun list => .current (.no (noWord _) (.no (noWord _) (.no (noWord _)
        (.no (by simp [kind]) (.yes (by simpa using kind)
          (.bind (Parse.paramName_gives ready kind) (.isAt (.yes equals
            (.take (named.word equals) (.map ran))))))))))⟩
  | nameParam kind after noEquals =>
      subst after
      have noWord (word : String) := Token.not_isWord_of_kind word kind nofun nofun
      exact ⟨_, rfl, fun list => .current (.no (noWord _) (.no (noWord _) (.no (noWord _)
        (.no (by simp [kind]) (.yes (by simpa using kind)
          (.bind (Parse.paramName_gives ready kind)
            (.isAt (.no (Bool.eq_false_iff.1 noEquals) (.pure _ _)))))))))⟩
  | _ => cases family

theorem runs_lists (family : rule.family = .lists) (listed : rule.IsListed) :
    rule.Runs (Rules.ofDepth bound) s field s₁ := by
  cases parts with
  | itemsLast _ noComma _ item =>
      have ran := (item listed.2 ready).item listed.1
      exact ⟨_, rfl, fun closes closing done => .done ((run_commaStep_done closing).2
        ⟨_, _, ran, rfl, .inl ⟨noComma, rfl⟩⟩)⟩
  | itemsClosed read comma skips closed _ item =>
      have ran := (item listed.2 ready).item listed.1
      have there := (ready.moves read.moves).word comma
      exact ⟨_, rfl, fun closes closing done => .done ((run_commaStep_done closing).2
        ⟨_, _, ran, rfl, .inr ⟨comma, there, skips, closed⟩⟩)⟩
  | itemsMore read comma skips goesOn _ _ item _ rest =>
      have ran := (item listed.2 ready).item listed.1
      have there := (ready.moves read.moves).word comma
      obtain ⟨nodes, same, loops⟩ := rest listed
        (ready.moves (read.moves.trans ((Moves.next _).trans (.skips skips))))
      cases same
      refine ⟨_, rfl, fun closes closing done => .again ((run_commaStep_again closing).2
        ⟨_, _, ran, rfl, comma, there, skips, goesOn⟩) ?_ (.behind (loops closes closing) _ _)⟩
      exact Nat.lt_of_lt_of_le ((Moves.skips skips).length_lt there) read.moves.length_le
  | entriesDone closes =>
      refine ⟨[], rfl, fun done => .done (run_closedStep_done.2 (.inl ⟨closes, ?_, rfl⟩))⟩
      exact List.append_nil done
  | entriesLast more _ skips noComma _ item =>
      have ran := (item listed.2 ready).item listed.1
      exact ⟨_, rfl, fun done => .done (run_closedStep_done.2
        (.inr ⟨more, _, _, ran, rfl, skips, noComma⟩))⟩
  | entriesMore more read skips comma skips' _ _ item _ rest =>
      have ran := (item listed.2 ready).item listed.1
      have moves := read.moves.trans (.skips skips)
      have there := (ready.moves moves).word comma
      obtain ⟨nodes, same, loops⟩ := rest listed
        (ready.moves (moves.trans ((Moves.next _).trans (.skips skips'))))
      cases same
      refine ⟨_, rfl, fun done => .again (run_closedStep_again.2
        ⟨more, _, _, _, ran, rfl, skips, comma, there, skips'⟩) ?_ (.behind loops _ _)⟩
      exact Nat.lt_of_lt_of_le ((Moves.skips skips').length_lt there) moves.length_le
  | elementSplat star _ _ value =>
      have ran := (value trivial (ready.moves (.next _))).node
      exact ⟨_, rfl, .current (.yes star (.take (ready.word star) (.map ran)))⟩
  | elementPlain noStar _ _ value =>
      obtain ⟨node, rfl, ran⟩ := value trivial ready
      exact ⟨node, rfl, .current (.no (Bool.eq_false_iff.1 noStar) ran)⟩
  | entrySplat stars _ _ value =>
      have ran := (value trivial (ready.moves (.next _))).node
      exact ⟨_, rfl, .current (.yes stars (.take (ready.word stars) (.map ran)))⟩
  | entryLabel kind skips _ _ value =>
      have there := ahead_of_kind ready.eof kind nofun
      have noStars := Token.not_isWord_of_kind "**" kind nofun nofun
      have ran := (value trivial (ready.moves ((Moves.next _).trans (.skips skips)))).node
      exact ⟨_, rfl, .current (.no noStars (.yes (by simpa using kind)
        (.take there (.skip skips (.map ran)))))⟩
  | entryArrow noStars noLabel read skips arrow skips' _ _ key _ value =>
      have moves := read.moves.trans (.skips skips)
      have there := (ready.moves moves).word arrow
      have ran := (value trivial
        (ready.moves (moves.trans ((Moves.next _).trans (.skips skips'))))).node
      exact ⟨_, rfl, .current (.no (Bool.eq_false_iff.1 noStars) (.no (by simpa using noLabel)
        (.bind (key trivial ready).node (.skip skips (.expect arrow there
          (.skip skips' (.map ran)))))))⟩
  | _ => cases family

theorem runs_arguments (family : rule.family = .arguments) :
    rule.Runs (Rules.ofDepth bound) s field s₁ := by
  cases parts with
  | @arguments closer _ _ _ _ _ items =>
      obtain ⟨nodes, same, loops⟩ := items ⟨rfl, trivial⟩ ready
      cases same
      refine ⟨_, rfl, .current (.map (loops _ (fun s => ?_) []).run)⟩
      cases closer <;> rfl
  | argumentSplat star _ _ value =>
      have ran := (value trivial (ready.moves (.next _))).node
      exact ⟨_, rfl, .current (.yes star (.take (ready.word star) (.map ran)))⟩
  | argumentDoubleSplat stars _ _ value =>
      have noStar := Token.not_isWord_of_ne stars (show "**" ≠ "*" by decide)
      have ran := (value trivial (ready.moves (.next _))).node
      exact ⟨_, rfl, .current (.no noStar (.yes stars (.take (ready.word stars) (.map ran))))⟩
  | argumentBlockLone amp ends =>
      have noStar := Token.not_isWord_of_ne amp (show "&" ≠ "*" by decide)
      have noStars := Token.not_isWord_of_ne amp (show "&" ≠ "**" by decide)
      exact ⟨_, rfl, .current (.no noStar (.no noStars (.yes amp (.take (ready.word amp)
        (.current (.yes ends (.pure _ _)))))))⟩
  | argumentBlock amp more _ _ value =>
      have noStar := Token.not_isWord_of_ne amp (show "&" ≠ "*" by decide)
      have noStars := Token.not_isWord_of_ne amp (show "&" ≠ "**" by decide)
      have ran := (value trivial (ready.moves (.next _))).node
      exact ⟨_, rfl, .current (.no noStar (.no noStars (.yes amp (.take (ready.word amp)
        (.current (.no (Bool.eq_false_iff.1 more) (.map ran)))))))⟩
  | argumentLabel kind skips _ _ value =>
      have there := ahead_of_kind ready.eof kind nofun
      have noWord (word : String) := Token.not_isWord_of_kind word kind nofun nofun
      have ran := (value trivial (ready.moves ((Moves.next _).trans (.skips skips)))).node
      exact ⟨_, rfl, .current (.no (noWord _) (.no (noWord _) (.no (noWord _)
        (.yes (by simpa using kind) (.take there (.skip skips (.map ran)))))))⟩
  | argumentPlain noMark noLabel _ noArrow _ value =>
      obtain ⟨node, rfl, ran⟩ := value trivial ready
      simp only [Bool.or_eq_false_iff] at noMark
      exact ⟨node, rfl, .current (.no (Bool.eq_false_iff.1 noMark.1.1)
        (.no (Bool.eq_false_iff.1 noMark.1.2) (.no (Bool.eq_false_iff.1 noMark.2)
        (.no (by simpa using noLabel) (.bind ran
          (.isAt (.no (Bool.eq_false_iff.1 noArrow) (.pure _ _))))))))⟩
  | argumentArrow noMark noLabel read arrow skips _ _ key _ value =>
      have there := (ready.moves read.moves).word arrow
      have ran := (value trivial
        (ready.moves (read.moves.trans ((Moves.next _).trans (.skips skips))))).node
      simp only [Bool.or_eq_false_iff] at noMark
      exact ⟨_, rfl, .current (.no (Bool.eq_false_iff.1 noMark.1.1)
        (.no (Bool.eq_false_iff.1 noMark.1.2) (.no (Bool.eq_false_iff.1 noMark.2)
        (.no (by simpa using noLabel) (.bind (key trivial ready).node
          (.isAt (.yes arrow (.take there (.skip skips (.map ran))))))))))⟩
  | parenEmpty opens skips closes =>
      have inside := ((ready.moves (.next _)).atDepth 0).moves (.skips skips)
      exact ⟨_, rfl, .current (.expect opens (ready.word opens) (.map (.delimited
        (.skip skips (.isAt (.yes closes (.take (inside.word closes) (.pure _ _))))))))⟩
  | parenFull opens skips more read skips' closes _ args =>
      have inside := ((ready.moves (.next _)).atDepth 0).moves (.skips skips)
      have there := (inside.moves (read.moves.trans (.skips skips'))).word closes
      exact ⟨_, rfl, .current (.expect opens (ready.word opens) (.map (.delimited
        (.skip skips (.isAt (.no (Bool.eq_false_iff.1 more) (.bind (args trivial inside).node
          (.skip skips' (.expect closes there (.pure _ _))))))))))⟩
  | indexEmpty opens skips closes =>
      have inside := (ready.moves (.next _)).moves (.skips skips)
      exact ⟨none, rfl, .expect opens (ready.word opens) (.skip skips (.isAt (.yes closes
        (.bind (.pure _ _) (.skip (.of_isWord closes)
          (.expect closes (inside.word closes) (.pure _ _)))))))⟩
  | indexFull opens skips more read skips' closes _ args =>
      have inside := (ready.moves (.next _)).moves (.skips skips)
      have there := (inside.moves (read.moves.trans (.skips skips'))).word closes
      exact ⟨_, rfl, .expect opens (ready.word opens) (.skip skips (.isAt
        (.no (Bool.eq_false_iff.1 more) (.bind (args trivial inside).node (.bind (.pure _ _)
          (.skip skips' (.expect closes there (.pure _ _))))))))⟩
  | _ => cases family

end Families

/-- A rule is run by its parser. -/
theorem runs (reads : Derives fits rule s field s₁) (listed : rule.IsListed) {bound : Nat}
    (ready : s.Ready bound) : rule.Runs (Rules.ofDepth bound) s field s₁ := by
  induction reads using of_parts generalizing bound with
  | @step rule _ _ _ _ parts =>
      cases family : rule.family with
      | statements => exact runs_statements parts ready family
      | assignments => exact runs_assignments parts ready family
      | junctions => exact runs_junctions parts ready family
      | operations => exact runs_operations parts ready family
      | messages => exact runs_messages parts ready family
      | operands => exact runs_operands parts ready family
      | blocks => exact runs_blocks parts ready family
      | clauses => exact runs_clauses parts ready family
      | parameters => exact runs_parameters parts ready family
      | lists => exact runs_lists parts ready family listed
      | arguments => exact runs_arguments parts ready family

end Derives

/-- The tree of a token list is the one that the grammar derives. -/
theorem Tokens.parse_of_derives {fits : ParamList → Node → Prop} {tokens : Tokens} {tree : Node}
    {s : ParseState} (eof : tokens.close.kind = .eof)
    (reads : Derives fits .program (.start tokens) (.node tree) s) : tokens.parse = .ok tree := by
  have ready : (ParseState.start tokens).Ready tokens.body.length := ⟨eof, nofun, Nat.le_refl _⟩
  have gives := Fills.node (reads.runs trivial ready)
  exact run'_ok.2 ⟨_, gives, rfl⟩

end RubyFormat
