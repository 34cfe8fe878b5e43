import RubyFormat.Proofs.Grammar

/-!
# The steps of the loops

Every repetition of the grammar is a loop.  For each of their bodies there are two statements: when
it is done, and when it asks to go on.
-/

namespace RubyFormat

namespace ParseM

variable {item : ParseM Node} {items all : List Node} {s s₁ : ParseState}

/-! ## Lists -/

section Comma

variable {closes : ParseM Bool} {closer : Option String}

theorem run_commaStep_done (closing : ∀ s, closes.run s = .ok (s.closes closer, s)) :
    (commaStep item closes items).run s = .ok (.done all, s₁) ↔
      ∃ node s₂, item.run s = .ok (node, s₂) ∧ all = items ++ [node] ∧
        (s₂.current.isWord "," = false ∧ s₁ = s₂ ∨
          s₂.current.isWord "," = true ∧ s₂.ahead ≠ [] ∧ s₂.next.Skips s₁ ∧
            s₁.closes closer = true) := by
  simp only [commaStep, run_bind_ok, run_isAt_ok, run_ite_ok, run_discard_advance_ok,
    run_skipNewlines_ok, run_pure_ok, closing, exists_eq_left, exists_and_eq_left,
    Except.ok.injEq, Prod.mk.injEq, LoopStep.done.injEq, reduceCtorEq, false_and, and_false,
    or_false, exists_eq_left', Bool.not_eq_true, Prod.exists, exists_const]
  constructor
  · rintro ⟨node, s₂, read, ⟨comma, there, s₃, skips, closed, rfl, rfl⟩ | ⟨noComma, rfl, rfl⟩⟩
    · exact ⟨node, s₂, read, rfl, .inr ⟨comma, there, skips, closed⟩⟩
    · exact ⟨node, _, read, rfl, .inl ⟨noComma, rfl⟩⟩
  · rintro ⟨node, s₂, read, rfl, ⟨noComma, rfl⟩ | ⟨comma, there, skips, closed⟩⟩
    · exact ⟨node, _, read, .inr ⟨noComma, rfl, rfl⟩⟩
    · exact ⟨node, s₂, read, .inl ⟨comma, there, _, skips, closed, rfl, rfl⟩⟩

theorem run_commaStep_again (closing : ∀ s, closes.run s = .ok (s.closes closer, s)) :
    (commaStep item closes items).run s = .ok (.again all, s₁) ↔
      ∃ node s₂, item.run s = .ok (node, s₂) ∧ all = items ++ [node] ∧
        s₂.current.isWord "," = true ∧ s₂.ahead ≠ [] ∧ s₂.next.Skips s₁ ∧
          s₁.closes closer = false := by
  simp only [commaStep, run_bind_ok, run_isAt_ok, run_ite_ok, run_discard_advance_ok,
    run_skipNewlines_ok, run_pure_ok, closing, exists_eq_left, exists_and_eq_left,
    Except.ok.injEq, Prod.mk.injEq, LoopStep.again.injEq, reduceCtorEq, false_and, and_false,
    or_false, false_or, exists_eq_left', Bool.not_eq_true, Prod.exists, exists_const]
  constructor
  · rintro ⟨node, s₂, read, comma, there, s₃, skips, opened, rfl, rfl⟩
    exact ⟨node, s₂, read, rfl, comma, there, skips, opened⟩
  · rintro ⟨node, s₂, read, rfl, comma, there, skips, opened⟩
    exact ⟨node, s₂, read, comma, there, _, skips, opened, rfl, rfl⟩

end Comma

theorem run_closedStep_done {closer : String} :
    (closedStep item closer items).run s = .ok (.done all, s₁) ↔
      s.current.isWord closer = true ∧ all = items ∧ s₁ = s ∨
        s.current.isWord closer = false ∧ ∃ node s₂, item.run s = .ok (node, s₂) ∧
          all = items ++ [node] ∧ s₂.Skips s₁ ∧ s₁.current.isWord "," = false := by
  simp only [closedStep, run_bind_ok, run_isAt_ok, run_ite_ok, run_discard_advance_ok,
    run_skipNewlines_ok, run_pure_ok, exists_eq_left, Prod.mk.injEq, LoopStep.done.injEq,
    reduceCtorEq, false_and, and_false, exists_false, false_or, Bool.not_eq_true, Prod.exists,
    exists_const]
  refine or_congr_right (and_congr_right fun _ => ?_)
  constructor
  · rintro ⟨node, s₂, read, s₃, skips, noComma, rfl, rfl⟩
    exact ⟨node, s₂, read, rfl, skips, noComma⟩
  · rintro ⟨node, s₂, read, rfl, skips, noComma⟩
    exact ⟨node, s₂, read, _, skips, noComma, rfl, rfl⟩

theorem run_closedStep_again {closer : String} :
    (closedStep item closer items).run s = .ok (.again all, s₁) ↔
      s.current.isWord closer = false ∧ ∃ node s₂ s₃, item.run s = .ok (node, s₂) ∧
        all = items ++ [node] ∧ s₂.Skips s₃ ∧ s₃.current.isWord "," = true ∧ s₃.ahead ≠ [] ∧
          s₃.next.Skips s₁ := by
  simp only [closedStep, run_bind_ok, run_isAt_ok, run_ite_ok, run_discard_advance_ok,
    run_skipNewlines_ok, run_pure_ok, exists_eq_left, exists_and_eq_left, Prod.mk.injEq,
    LoopStep.again.injEq, reduceCtorEq, false_and, and_false, or_false, false_or,
    Bool.not_eq_true, Prod.exists, exists_const]
  refine and_congr_right fun _ => ?_
  constructor
  · rintro ⟨node, s₂, read, s₃, skips, comma, there, s₄, skips', rfl, rfl⟩
    exact ⟨node, s₂, s₃, read, rfl, skips, comma, there, skips'⟩
  · rintro ⟨node, s₂, s₃, read, rfl, skips, comma, there, skips'⟩
    exact ⟨node, s₂, read, s₃, skips, comma, there, _, skips', rfl, rfl⟩

end ParseM

namespace Parse

open ParseM

variable {rules : Rules} {s s₁ : ParseState}

/-! ## Parameters -/

theorem run_paramName_ok {r : Node × ParseState} :
    paramName.run s = .ok r ↔
      (s.current.kind = .ident ∧ s.ahead ≠ [] ∧ s.scopes ≠ []) ∧
        r = (.name .ident s.current.pos s.current.text, s.next.declaring s.current.text) := by
  simp only [paramName, run_bind_ok, run_ite_ok, run_current_ok, run_pure_ok,
    run_discard_advance_ok, run_declare_ok, run_fail_ok, exists_eq_left, exists_and_eq_left,
    and_false, or_false, beq_iff_eq]
  rw [and_assoc, and_assoc]
  rfl

theorem run_paramName?_ok {r : Option Node × ParseState} :
    paramName?.run s = .ok r ↔
      (s.current.kind = .ident → s.ahead ≠ [] ∧ s.scopes ≠ []) ∧ r = s.paramName? := by
  simp only [paramName?, ParseState.paramName?, run_bind_ok, run_ite_ok, run_current_ok,
    run_pure_ok, run_paramName_ok, exists_eq_left, exists_and_eq_left, beq_iff_eq]
  by_cases named : s.current.kind = .ident <;> simp [named, and_assoc]

section Param

variable {closer : String} {list next : ParamList}

theorem run_paramStep_done :
    (paramStep rules closer list).run s = .ok (.done next, s₁) ↔
      s.current.isWord closer = true ∧ next = list ∧ s₁ = s ∨
        s.current.isWord closer = false ∧ ∃ added s₂ s₃,
          (param rules closer list).run s = .ok (added, s₂) ∧ s₂.Skips s₃ ∧
            (s₃.current.isWord "," = false ∧ next = added ∧ s₁ = s₃ ∨
              s₃.current.isWord "," = true ∧ s₃.ahead ≠ [] ∧ s₃.next.Skips s₁ ∧
                s₁.current.isWord closer = true ∧ closer = "|" ∧
                  added.allowsExcessedComma = true ∧
                    next = { added with rest := some (.excessedComma s₃.current.pos) }) := by
  simp only [paramStep, run_bind_ok, run_isAt_ok, run_ite_ok, run_advance_ok, run_current_ok,
    run_skipNewlines_ok, run_pure_ok, run_fail_ok, exists_eq_left, exists_and_eq_left,
    Prod.mk.injEq, LoopStep.done.injEq, reduceCtorEq, false_and, and_false, or_false,
    Bool.not_eq_true, Bool.and_eq_true, beq_iff_eq, Prod.exists, exists_const]
  refine or_congr_right (and_congr_right fun _ => ?_)
  constructor
  · rintro ⟨added, s₂, found, s₃, skips, ⟨comma, there, s₄, skips', closing, ⟨bar, allowed⟩, rfl,
      rfl⟩ | ⟨noComma, rfl, rfl⟩⟩
    · exact ⟨added, s₂, s₃, found, skips,
        .inr ⟨comma, there, skips', closing, bar, allowed, rfl⟩⟩
    · exact ⟨_, s₂, _, found, skips, .inl ⟨noComma, rfl, rfl⟩⟩
  · rintro ⟨added, s₂, s₃, found, skips, ⟨noComma, rfl, rfl⟩ | ⟨comma, there, skips', closing, bar,
      allowed, rfl⟩⟩
    · exact ⟨_, s₂, found, _, skips, .inr ⟨noComma, rfl, rfl⟩⟩
    · exact ⟨added, s₂, found, s₃, skips,
        .inl ⟨comma, there, _, skips', closing, ⟨bar, allowed⟩, rfl, rfl⟩⟩

theorem run_paramStep_again :
    (paramStep rules closer list).run s = .ok (.again next, s₁) ↔
      s.current.isWord closer = false ∧ ∃ s₂ s₃,
        (param rules closer list).run s = .ok (next, s₂) ∧ s₂.Skips s₃ ∧
          s₃.current.isWord "," = true ∧ s₃.ahead ≠ [] ∧ s₃.next.Skips s₁ ∧
            s₁.current.isWord closer = false := by
  simp only [paramStep, run_bind_ok, run_isAt_ok, run_ite_ok, run_advance_ok, run_current_ok,
    run_skipNewlines_ok, run_pure_ok, run_fail_ok, exists_eq_left, exists_and_eq_left,
    Prod.mk.injEq, LoopStep.again.injEq, reduceCtorEq, false_and, and_false, or_false, false_or,
    Bool.not_eq_true, Prod.exists, exists_const]
  refine and_congr_right fun _ => ?_
  constructor
  · rintro ⟨added, s₂, found, s₃, skips, comma, there, s₄, skips', open', rfl, rfl⟩
    exact ⟨s₂, s₃, found, skips, comma, there, skips', open'⟩
  · rintro ⟨s₂, s₃, found, skips, comma, there, skips', open'⟩
    exact ⟨_, s₂, found, s₃, skips, comma, there, _, skips', open', rfl, rfl⟩

end Param

/-! ## Rescue clauses -/

theorem run_skipThen_ok {r : Unit × ParseState} :
    skipThen.run s = .ok r ↔
      (s.current.isWord "then" = true → s.ahead ≠ []) ∧ r = ((), s.pastThen) := by
  simp only [skipThen, run_bind_ok, run_ite_ok, run_isAt_ok, run_pure_ok, run_discard_advance_ok,
    exists_eq_left, ParseState.pastThen]
  by_cases there : s.current.isWord "then" = true <;> simp [there]

theorem run_rescueClause_ok {clause : Option Node → Node} :
    (rescueClause rules).run s = .ok (clause, s₁) ↔
      s.current.isWord "rescue" = true ∧ s.ahead ≠ [] ∧ ∃ list s₂ held s₃ stmts,
        (exceptions rules).run s.next = .ok (list, s₂) ∧
          (holder rules).run s₂ = .ok (held, s₃) ∧
            (s₃.current.isWord "then" = true → s₃.ahead ≠ []) ∧
              (rules.stmts clauseWords).run s₃.pastThen = .ok (stmts, s₁) ∧
                clause = .rescue s.current.pos list held stmts := by
  simp only [rescueClause, run_bind_ok, run_current_ok, run_expect_ok, run_skipThen_ok,
    run_pure_ok, exists_eq_left, exists_and_eq_left]
  constructor
  · rintro ⟨⟨word, there⟩, ⟨list, s₂⟩, exceptions, ⟨held, s₃⟩, holder, passes, ⟨stmts, s₄⟩,
      body, same⟩
    obtain ⟨rfl, rfl⟩ := Prod.mk.inj same
    exact ⟨word, there, list, s₂, held, s₃, stmts, exceptions, holder, passes, body, rfl⟩
  · rintro ⟨word, there, list, s₂, held, s₃, stmts, exceptions, holder, passes, body, rfl⟩
    exact ⟨⟨word, there⟩, _, exceptions, _, holder, passes, _, body, rfl⟩

section Rescue

variable {clauses all : List (Option Node → Node)}

theorem run_rescueStep_done :
    (rescueStep rules clauses).run s = .ok (.done all, s₁) ↔
      s.current.isWord "rescue" = false ∧ all = clauses ∧ s₁ = s := by
  simp only [rescueStep, run_bind_ok, run_isAt_ok, run_ite_ok, run_pure_ok, exists_eq_left,
    Prod.mk.injEq, LoopStep.done.injEq, reduceCtorEq, false_and, and_false, exists_false, false_or,
    Bool.not_eq_true]

theorem run_rescueStep_again :
    (rescueStep rules clauses).run s = .ok (.again all, s₁) ↔
      ∃ clause, (rescueClause rules).run s = .ok (clause, s₁) ∧ all = clauses ++ [clause] := by
  simp only [rescueStep, run_bind_ok, run_isAt_ok, run_ite_ok, run_pure_ok, exists_eq_left,
    Prod.mk.injEq, LoopStep.again.injEq, reduceCtorEq, false_and, and_false, or_false,
    Prod.exists]
  constructor
  · rintro ⟨-, clause, s₂, ran, rfl, rfl⟩
    exact ⟨clause, ran, rfl⟩
  · rintro ⟨clause, ran, rfl⟩
    exact ⟨(run_rescueClause_ok.1 ran).1, clause, _, ran, rfl, rfl⟩

end Rescue

/-! ## Messages and indexes -/

theorem run_leaf_ok {node : Node} {r : Node × ParseState} :
    (leaf node).run s = .ok r ↔ s.ahead ≠ [] ∧ r = (node, s.next) := by
  simp only [leaf, run_bind_ok, run_discard_advance_ok, run_pure_ok, exists_and_eq_left]

theorem run_message_ok {operator : String} {name : Node} :
    (message operator).run s = .ok (name, s₁) ↔
      s.ahead ≠ [] ∧ s.current.message? = some name ∧ s₁ = s.next := by
  have leafs {node : Node} : (leaf node).run s = .ok (name, s₁) ↔
      s.ahead ≠ [] ∧ some node = some name ∧ s₁ = s.next := by
    rw [run_leaf_ok, Prod.mk.injEq, Option.some.injEq, eq_comm (a := name)]
  simp only [message, run_bind_ok, run_current_ok, exists_eq_left]
  split
  case h_1 kind | h_2 kind | h_3 kind => rw [leafs, Token.message?, kind]
  case h_4 kind =>
    rw [Token.message?, kind, run_ite_ok, leafs, run_fail_ok]
    by_cases method : methodOperators.contains s.current.text = true
    · simp only [method, if_true, true_and, and_false, or_false]
    · simp only [method, if_false, false_and, and_false, or_false, reduceCtorEq]
  case h_5 noIdent noKeyword noConst noOp =>
    have nothing : s.current.message? = none := by
      unfold Token.message?
      split <;> simp_all
    simp [nothing, run_fail_ok]

theorem run_paren_ok {node : Node} :
    (paren rules).run s = .ok (node, s₁) ↔
      (s.current.isWord "(" = true ∧ s.ahead ≠ []) ∧ ∃ passed, s.next.Skips passed ∧
        ∃ inner behind, rules.stmt.run passed = .ok (inner, behind) ∧
          ∃ closing, behind.Skips closing ∧
            (closing.current.isWord ")" = true ∧ closing.ahead ≠ []) ∧
              node = .paren s.current.pos inner ∧ s₁ = closing.next := by
  simp only [paren, run_bind_ok, run_current_ok, run_pure_ok, run_expect_ok, run_skipNewlines_ok,
    exists_eq_left, exists_and_eq_left, Prod.exists, exists_const, Prod.mk.injEq]

theorem run_lambda_ok {node : Node} :
    (lambda rules).run s = .ok (node, s₁) ↔
      (s.current.isWord "->" = true ∧ s.ahead ≠ []) ∧
        ∃ params between, (lambdaParams rules).run s.next.opened = .ok (params, between) ∧
          ∃ body behind, (lambdaBody rules).run between = .ok (body, behind) ∧
            behind.scopes ≠ [] ∧ node = .lambda s.current.pos params body ∧
              s₁ = behind.closed := by
  simp only [lambda, run_bind_ok, run_current_ok, run_pure_ok, run_expect_ok, run_inScope_ok,
    exists_eq_left, exists_and_eq_left, Prod.exists, Prod.mk.injEq]
  refine and_congr_right fun _ => ?_
  constructor
  · rintro ⟨_, _, ⟨params, between, read, body, behind, readBody, rfl, rfl⟩, hasScope, rfl, rfl⟩
    exact ⟨params, between, read, body, _, readBody, hasScope, rfl, rfl⟩
  · rintro ⟨params, between, read, body, behind, readBody, hasScope, rfl, rfl⟩
    exact ⟨_, _, ⟨params, between, read, body, behind, readBody, rfl, rfl⟩, hasScope, rfl, rfl⟩

theorem run_continueLine_ok {r : Unit × ParseState} :
    continueLine.run s = .ok r ↔
      (s.isContinued = true → s.pastNewlines.current.kind ≠ .comment) ∧ r.2 = s.continued := by
  simp only [continueLine, run_bind_ok, run_ite_ok, run_get_ok, run_skipNewlines_ok, run_pure_ok,
    exists_eq_left]
  change (s.isContinued = true ∧ s.Skips r.2 ∨ ¬s.isContinued = true ∧ r = (⟨⟩, s)) ↔ _
  by_cases goesOn : s.isContinued = true
  · simp only [goesOn, ParseState.Skips, ParseState.continued, true_and, not_true, false_and,
      or_false, if_true, forall_const]
    constructor
    · rintro ⟨same, code⟩
      exact ⟨same ▸ code, same⟩
    · rintro ⟨code, same⟩
      exact ⟨same, same ▸ code⟩
  · simp only [goesOn, ParseState.continued, Prod.ext_iff]
    simp

section Suffix

variable {expr node : Node}

theorem run_suffixStep_done :
    (suffixStep rules expr).run s = .ok (.done node, s₁) ↔
      s.isContinued = false ∧ s.current.isOpIn callOperators = false ∧
        s.current.isIndex = false ∧ node = expr ∧ s₁ = s := by
  simp only [suffixStep, run_bind_ok, run_ite_ok, run_current_ok, run_continueLine_ok, run_pure_ok,
    exists_eq_left, Prod.mk.injEq, LoopStep.done.injEq, reduceCtorEq, false_and, and_false,
    exists_false, false_or, Bool.not_eq_true, Prod.exists, exists_const]
  constructor
  · rintro ⟨s₂, ⟨-, rfl⟩, noCall, noIndex, rfl, rfl⟩
    have ends := ParseState.isContinued_eq_false noCall
    rw [ParseState.continued_eq_self ends] at *
    exact ⟨ends, noCall, noIndex, rfl, rfl⟩
  · rintro ⟨ends, noCall, noIndex, rfl, rfl⟩
    refine ⟨_, ⟨by simp [ends], rfl⟩, ?_⟩
    rw [ParseState.continued_eq_self ends]
    exact ⟨noCall, noIndex, rfl, rfl⟩

theorem run_suffixStep_again :
    (suffixStep rules expr).run s = .ok (.again node, s₁) ↔
      s.continued.current.isOpIn callOperators = true ∧
          (callSuffix rules expr).run s.continued = .ok (node, s₁) ∨
        s.isContinued = false ∧ s.current.isOpIn callOperators = false ∧
          s.current.isIndex = true ∧ ∃ args,
            (indexArguments rules).run s = .ok (args, s₁) ∧ node = .aref expr.pos expr args := by
  simp only [suffixStep, run_bind_ok, run_ite_ok, run_current_ok, run_continueLine_ok, run_pure_ok,
    exists_eq_left, Prod.mk.injEq, LoopStep.again.injEq, reduceCtorEq, false_and, and_false,
    or_false, Bool.not_eq_true, Prod.exists, exists_const]
  constructor
  · rintro ⟨s₂, ⟨-, rfl⟩, ⟨call, node, s₂, ran, rfl, rfl⟩ | ⟨noCall, index, args, s₂, ran, rfl, rfl⟩⟩
    · exact .inl ⟨call, ran⟩
    · have ends := ParseState.isContinued_eq_false noCall
      rw [ParseState.continued_eq_self ends] at *
      exact .inr ⟨ends, noCall, index, args, ran, rfl⟩
  · rintro (⟨call, ran⟩ | ⟨ends, noCall, index, args, ran, rfl⟩)
    · refine ⟨_, ⟨fun goesOn => ?_, rfl⟩, .inl ⟨call, _, _, ran, rfl, rfl⟩⟩
      rw [ParseState.continued, if_pos goesOn, Token.isOpIn] at call
      simp only [Bool.and_eq_true, beq_iff_eq] at call
      simp [call.1]
    · refine ⟨_, ⟨by simp [ends], rfl⟩, .inr ?_⟩
      rw [ParseState.continued_eq_self ends]
      exact ⟨noCall, index, args, _, ran, rfl, rfl⟩

end Suffix

/-! ## Operators -/

section Operation

variable {item : ParseM Node} {left node : Node}

theorem run_operation_ok :
    (operation item left).run s = .ok (node, s₁) ↔
      s.ahead ≠ [] ∧ ∃ s₂ right, s.next.Skips s₂ ∧ item.run s₂ = .ok (right, s₁) ∧
        node = .binary left.pos left s.current.text right := by
  simp only [operation, run_bind_ok, run_advance_ok, run_skipNewlines_ok, run_pure_ok,
    exists_and_eq_left, Prod.exists, exists_const, Prod.mk.injEq]
  refine and_congr_right fun _ => ?_
  constructor
  · rintro ⟨s₂, skips, right, s₃, ran, rfl, rfl⟩
    exact ⟨s₂, right, skips, ran, rfl⟩
  · rintro ⟨s₂, right, skips, ran, rfl⟩
    exact ⟨s₂, skips, right, _, ran, rfl, rfl⟩

variable {level : OperatorLevel}

theorem run_levelStep_done :
    (levelStep item level left).run s = .ok (.done node, s₁) ↔
      s.current.isOpIn level.operators = false ∧ node = left ∧ s₁ = s := by
  simp only [levelStep, run_bind_ok, run_ite_ok, run_current_ok, run_pure_ok, exists_eq_left,
    Prod.mk.injEq, LoopStep.done.injEq, reduceCtorEq, false_and, and_false, exists_false, false_or,
    Bool.not_eq_true]

theorem run_levelStep_again :
    (levelStep item level left).run s = .ok (.again node, s₁) ↔
      s.current.isOpIn level.operators = true ∧ (operation item left).run s = .ok (node, s₁) := by
  simp only [levelStep, run_bind_ok, run_ite_ok, run_current_ok, run_pure_ok, exists_eq_left,
    Prod.mk.injEq, LoopStep.again.injEq, reduceCtorEq, false_and, and_false, or_false, Prod.exists]
  simp

theorem run_joinStep_done :
    (joinStep rules left).run s = .ok (.done node, s₁) ↔
      (s.current.isWord "and" || s.current.isWord "or") = false ∧ node = left ∧ s₁ = s := by
  simp only [joinStep, run_bind_ok, run_ite_ok, run_current_ok, run_pure_ok, exists_eq_left,
    Prod.mk.injEq, LoopStep.done.injEq, reduceCtorEq, false_and, and_false, exists_false, false_or,
    Bool.not_eq_true]

theorem run_joinStep_again :
    (joinStep rules left).run s = .ok (.again node, s₁) ↔
      (s.current.isWord "and" || s.current.isWord "or") = true ∧
        (operation (negated rules) left).run s = .ok (node, s₁) := by
  simp only [joinStep, run_bind_ok, run_ite_ok, run_current_ok, run_pure_ok, exists_eq_left,
    Prod.mk.injEq, LoopStep.again.injEq, reduceCtorEq, false_and, and_false, or_false, Prod.exists]
  simp

end Operation

/-! ## Statements -/

section Statement

variable {words : List String} {done all : List Node}

theorem run_stmtStep_done :
    (stmtStep rules words done).run s = .ok (.done all, s₁) ↔
      s.current.endsStmts words = true ∧ all = done ∧ s₁ = s ∨
        s.current.endsStmts words = false ∧ s.current.isBreak = false ∧
          s.current.kind ≠ .comment ∧ ∃ node, (stmt rules).run s = .ok (node, s₁) ∧
            s₁.current.kind ≠ .comment ∧ endsBody words s₁.current = true ∧
              all = done ++ [node] := by
  simp only [stmtStep, run_bind_ok, run_ite_ok, run_current_ok, run_discard_advance_ok,
    run_pure_ok, run_fail_ok, exists_eq_left, Prod.mk.injEq, LoopStep.done.injEq, reduceCtorEq,
    false_and, and_false, or_false, false_or, exists_false, Bool.not_eq_true, beq_iff_eq,
    Prod.exists]
  refine or_congr_right (and_congr_right fun _ => and_congr_right fun _ =>
    and_congr_right fun _ => ?_)
  constructor
  · rintro ⟨node, s₂, ran, noRemark, last, rfl, rfl⟩
    exact ⟨node, ran, noRemark, last, rfl⟩
  · rintro ⟨node, ran, noRemark, last, rfl⟩
    exact ⟨node, _, ran, noRemark, last, rfl, rfl⟩

theorem run_stmtStep_again :
    (stmtStep rules words done).run s = .ok (.again all, s₁) ↔
      s.current.endsStmts words = false ∧
        (s.current.isBreak = true ∧ s.ahead ≠ [] ∧ all = done ∧ s₁ = s.next ∨
          s.current.isBreak = false ∧
            (s.current.kind = .comment ∧ s.ahead ≠ [] ∧
                all = done ++ [.comment s.current.pos s.current.text] ∧ s₁ = s.next ∨
              s.current.kind ≠ .comment ∧ ∃ node s₂, (stmt rules).run s = .ok (node, s₂) ∧
                (s₂.current.kind = .comment ∧ s₂.ahead ≠ [] ∧
                    all = done ++
                      [node.withComment (.comment s₂.current.pos s₂.current.text)] ∧
                      s₁ = s₂.next ∨
                  s₂.current.kind ≠ .comment ∧ endsBody words s₂.current = false ∧
                    s₂.current.endsStatement = true ∧ all = done ++ [node] ∧ s₁ = s₂))) := by
  simp only [stmtStep, run_bind_ok, run_ite_ok, run_current_ok, run_discard_advance_ok,
    run_pure_ok, run_fail_ok, exists_eq_left, exists_and_eq_left, Prod.mk.injEq,
    LoopStep.again.injEq, reduceCtorEq, false_and, and_false, or_false, false_or, Bool.not_eq_true,
    beq_iff_eq, Prod.exists]
  rfl

end Statement

end Parse

end RubyFormat
