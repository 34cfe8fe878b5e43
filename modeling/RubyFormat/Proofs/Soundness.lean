import RubyFormat.Proofs.Steps

/-!
# What the parsers read, the grammar derives

One lemma for each parser, given that the parsers one level deeper are sound; a loop is sound
because each of its steps is the first one of a repetition.  By induction on the level, all parsers
are, and a tree that a source has is one that the rule for programs reads.
-/

namespace RubyFormat

open ParseM ParseState

/-- Every run of the rules one level deeper is one of the grammar. -/
structure Rules.Sound (rules : Rules) : Prop where
  stmts {words : List String} {s : ParseState} {r : List Node × ParseState} :
    (rules.stmts words).run s = .ok r → Reads (.stmts words) s (.list r.1) r.2
  stmt {s : ParseState} {r : Node × ParseState} :
    rules.stmt.run s = .ok r → Reads .stmt s (.node r.1) r.2
  value {s : ParseState} {r : Node × ParseState} :
    rules.value.run s = .ok r → Reads (.assignment false) s (.node r.1) r.2
  negated {s : ParseState} {r : Node × ParseState} :
    rules.negated.run s = .ok r → Reads .negated s (.node r.1) r.2
  range {s : ParseState} {r : Node × ParseState} :
    rules.range.run s = .ok r → Reads .range s (.node r.1) r.2
  conjunction {s : ParseState} {r : Node × ParseState} :
    rules.conjunction.run s = .ok r → Reads (.operations OperatorLevel.tight) s (.node r.1) r.2
  minus {s : ParseState} {r : Node × ParseState} :
    rules.minus.run s = .ok r → Reads .minus s (.node r.1) r.2
  unary {s : ParseState} {r : Node × ParseState} :
    rules.unary.run s = .ok r → Reads .unary s (.node r.1) r.2
  primary {s : ParseState} {r : Node × ParseState} :
    rules.primary.run s = .ok r → Reads .primary s (.node r.1) r.2

namespace Reads

variable {rules : Rules} {s : ParseState}

/-! ## Lists -/

/-- Items with commas between them, behind those read already. -/
theorem of_commaList {item : ParseM Node} {rule : Rule} {closer : Option String}
    {closes : ParseM Bool} {r : List Node × ParseState}
    (itemSound : ∀ {s : ParseState} {r : Node × ParseState},
      item.run s = .ok r → Reads rule s (.node r.1) r.2)
    (closing : ∀ s : ParseState, closes.run s = .ok (s.closes closer, s))
    (ran : (commaList item closes).run s = .ok r) :
    Reads (.items rule closer) s (.list r.1) r.2 := by
  let readsOn (done : List Node) (s : ParseState) (all : List Node) (s' : ParseState) : Prop :=
    ∃ rest, all = done ++ rest ∧ Reads (.items rule closer) s (.list rest) s'
  have whole : readsOn [] s r.1 r.2 := by
    refine loop_induction (motive := readsOn) ?_ ?_ ran
    · intro done s all s' step
      obtain ⟨node, s₂, read, rfl, ⟨noComma, rfl⟩ | ⟨comma, -, skips, closed⟩⟩ :=
        (run_commaStep_done closing).1 step
      · exact ⟨[node], rfl, .itemsLast (itemSound read) noComma⟩
      · exact ⟨[node], rfl, .itemsClosed (itemSound read) comma skips closed⟩
    · intro done s next between all s' step after
      obtain ⟨node, s₂, read, rfl, comma, -, skips, opened⟩ := (run_commaStep_again closing).1 step
      obtain ⟨rest, rfl, reads⟩ := after
      exact ⟨node :: rest, by simp, .itemsMore (itemSound read) comma skips opened reads⟩
  obtain ⟨rest, same, reads⟩ := whole
  rwa [same]

/-- Items up to a closing word, which is taken as well. -/
theorem of_closedList {item : ParseM Node} {rule : Rule} {closer : String}
    {r : List Node × ParseState}
    (itemSound : ∀ {s : ParseState} {r : Node × ParseState},
      item.run s = .ok r → Reads rule s (.node r.1) r.2)
    (ran : (closedList item closer).run s = .ok r) :
    ∃ s₁ s₂, s.Skips s₁ ∧ Reads (.entries rule closer) s₁ (.list r.1) s₂ ∧
      s₂.current.isWord closer = true ∧ r.2 = s₂.next := by
  let readsOn (done : List Node) (s : ParseState) (all : List Node) (s' : ParseState) : Prop :=
    ∃ rest, all = done ++ rest ∧ Reads (.entries rule closer) s (.list rest) s'
  simp only [closedList, run_bind_ok, run_skipNewlines_ok, run_expect_ok, run_pure_ok,
    exists_and_eq_left] at ran
  obtain ⟨passed, skips, all, looped, ⟨closing, -⟩, rfl⟩ := ran
  have whole : readsOn [] passed.2 all.1 all.2 := by
    refine loop_induction (motive := readsOn) ?_ ?_ looped
    · intro done s all s' step
      obtain ⟨close, rfl, rfl⟩ | ⟨open', node, s₂, read, rfl, skips, noComma⟩ :=
        run_closedStep_done.1 step
      · exact ⟨[], by simp, .entriesDone close⟩
      · exact ⟨[node], rfl, .entriesLast open' (itemSound read) skips noComma⟩
    · intro done s next between all s' step after
      obtain ⟨open', node, s₂, s₃, read, rfl, skips, comma, -, skips'⟩ :=
        run_closedStep_again.1 step
      obtain ⟨rest, rfl, reads⟩ := after
      exact ⟨node :: rest, by simp, .entriesMore open' (itemSound read) skips comma skips' reads⟩
  obtain ⟨rest, same, reads⟩ := whole
  rw [List.nil_append] at same
  exact ⟨passed.2, all.2, skips, same ▸ reads, closing, rfl⟩

/-! ## Arguments and collections -/

theorem of_argument (sound : rules.Sound) {r : Node × ParseState}
    (ran : (Parse.argument rules).run s = .ok r) : Reads .argument s (.node r.1) r.2 := by
  simp only [Parse.argument, run_bind_ok, run_ite_ok, run_current_ok, run_pure_ok,
    run_discard_advance_ok, run_isAt_ok, run_skipNewlines_ok, exists_eq_left, exists_and_eq_left,
    Bool.not_eq_true, beq_iff_eq] at ran
  obtain ⟨star, -, value, read, rfl⟩ | ⟨noStar, ran⟩ := ran
  · exact .argumentSplat star (sound.range read)
  obtain ⟨stars, -, value, read, rfl⟩ | ⟨noStars, ran⟩ := ran
  · exact .argumentDoubleSplat stars (sound.range read)
  obtain ⟨mark, -, ⟨lone, rfl⟩ | ⟨more, value, read, rfl⟩⟩ | ⟨noMark, ran⟩ := ran
  · exact .argumentBlockLone mark lone
  · exact .argumentBlock mark more (sound.range read)
  obtain ⟨label, -, passed, skips, value, read, rfl⟩ | ⟨noLabel, key, read, ran⟩ := ran
  · exact .argumentLabel label skips (sound.negated read)
  have plain : (s.current.isWord "*" || s.current.isWord "**" || s.current.isWord "&") = false := by
    simp [noStar, noStars, noMark]
  obtain ⟨arrow, -, passed, skips, value, readValue, rfl⟩ | ⟨noArrow, rfl⟩ := ran
  · exact .argumentArrow plain noLabel (sound.negated read) arrow skips (sound.negated readValue)
  · exact .argumentPlain plain noLabel (sound.negated read) noArrow

theorem of_arguments (sound : rules.Sound) {closer : Option String} {r : Node × ParseState}
    (ran : (Parse.arguments rules closer).run s = .ok r) :
    Reads (.arguments closer) s (.node r.1) r.2 := by
  simp only [Parse.arguments, run_bind_ok, run_current_ok, run_pure_ok, exists_eq_left] at ran
  obtain ⟨parts, read, rfl⟩ := ran
  refine .arguments (of_commaList (of_argument sound) ?_ read)
  intro s
  cases closer <;> rfl

theorem of_parenArguments (sound : rules.Sound) {r : Node × ParseState}
    (ran : (Parse.parenArguments rules).run s = .ok r) :
    Reads .parenArguments s (.node r.1) r.2 := by
  simp only [Parse.parenArguments, run_bind_ok, run_ite_ok, run_current_ok, run_pure_ok,
    run_expect_ok, run_delimited_ok, run_discard_advance_ok, run_isAt_ok, run_skipNewlines_ok,
    exists_eq_left, exists_and_eq_left, Bool.not_eq_true] at ran
  obtain ⟨⟨opening, -⟩, _, ⟨_, ⟨passed, skips, ran⟩, rfl⟩, rfl⟩ := ran
  obtain ⟨closing, -, rfl⟩ | ⟨notEmpty, args, read, behind, skips', ⟨closing, -⟩, rfl⟩ := ran
  · exact .parenEmpty opening skips closing
  · exact .parenFull opening skips notEmpty (of_arguments sound read) skips' closing

theorem of_indexArguments (sound : rules.Sound) {r : Option Node × ParseState}
    (ran : (Parse.indexArguments rules).run s = .ok r) :
    Reads .indexArguments s (.optional r.1) r.2 := by
  simp only [Parse.indexArguments, run_bind_ok, run_ite_ok, run_pure_ok, run_expect_ok,
    run_isAt_ok, run_skipNewlines_ok, exists_eq_left, exists_and_eq_left, Bool.not_eq_true] at ran
  obtain ⟨⟨opening, -⟩, passed, skips, ran⟩ := ran
  obtain ⟨empty, behind, skips', ⟨closing, -⟩, rfl⟩ |
    ⟨notEmpty, args, read, behind, skips', ⟨closing, -⟩, rfl⟩ := ran
  · have token : passed.2.current.kind ≠ .newline := by
      obtain op | keyword := Token.kind_of_isWord empty
      · simp [op]
      · simp [keyword]
    rw [skips'.eq_self token]
    exact .indexEmpty opening skips empty
  · exact .indexFull opening skips notEmpty (of_arguments sound read) skips' closing

theorem of_element (sound : rules.Sound) {r : Node × ParseState}
    (ran : (Parse.element rules).run s = .ok r) : Reads .element s (.node r.1) r.2 := by
  simp only [Parse.element, run_bind_ok, run_ite_ok, run_current_ok, run_pure_ok,
    run_discard_advance_ok, exists_eq_left, exists_and_eq_left, Bool.not_eq_true] at ran
  obtain ⟨star, -, value, read, rfl⟩ | ⟨noStar, read⟩ := ran
  · exact .elementSplat star (sound.range read)
  · exact .elementPlain noStar (sound.negated read)

theorem of_entry (sound : rules.Sound) {r : Node × ParseState}
    (ran : (Parse.entry rules).run s = .ok r) : Reads .entry s (.node r.1) r.2 := by
  simp only [Parse.entry, run_bind_ok, run_ite_ok, run_current_ok, run_pure_ok, run_expect_ok,
    run_discard_advance_ok, run_skipNewlines_ok, exists_eq_left, exists_and_eq_left,
    Bool.not_eq_true, beq_iff_eq] at ran
  obtain ⟨stars, -, value, read, rfl⟩ | ⟨noStars, ran⟩ := ran
  · exact .entrySplat stars (sound.range read)
  obtain ⟨label, -, passed, skips, value, read, rfl⟩ | ⟨noLabel, key, read, ran⟩ := ran
  · exact .entryLabel label skips (sound.negated read)
  obtain ⟨passed, skips, ⟨arrow, -⟩, behind, skips', value, readValue, rfl⟩ := ran
  exact .entryArrow noStars noLabel (sound.negated read) skips arrow skips'
    (sound.negated readValue)

/-! ## Parameters -/

theorem of_param (sound : rules.Sound) {closer : String} {list : ParamList}
    {r : ParamList × ParseState} (ran : (Parse.param rules closer list).run s = .ok r) :
    ∃ param, r.1 = list.add param ∧ Reads (.param closer) s (.node param) r.2 := by
  simp only [Parse.param, Parse.run_paramName_ok, Parse.run_paramName?_ok, run_bind_ok, run_ite_ok,
    run_current_ok, run_pure_ok, run_discard_advance_ok, run_isAt_ok, run_declare_ok, run_fail_ok,
    exists_eq_left, exists_and_eq_left, and_false, or_false, Bool.not_eq_true, beq_iff_eq] at ran
  obtain ⟨star, -, -, rfl⟩ | ⟨noStar, ran⟩ := ran
  · exact ⟨_, rfl, .restParam star⟩
  obtain ⟨stars, -, -, rfl⟩ | ⟨noStars, ran⟩ := ran
  · exact ⟨_, rfl, .keywordRestParam stars⟩
  obtain ⟨mark, -, ⟨named, -⟩, rfl⟩ | ⟨noMark, ran⟩ := ran
  · exact ⟨_, rfl, .blockParam mark named⟩
  obtain ⟨label, -, -, ⟨ends, rfl⟩ | ⟨more, default, read, rfl⟩⟩ | ⟨noLabel, named, ran⟩ := ran
  · exact ⟨_, rfl, .keywordParam label rfl ends⟩
  · exact ⟨_, rfl, .keywordDefault label rfl more (sound.conjunction read)⟩
  obtain ⟨-, ⟨equals, -, default, read, rfl⟩ | ⟨plain, rfl⟩⟩ := ran
  · exact ⟨_, rfl, .optionalParam named rfl equals (sound.conjunction read)⟩
  · exact ⟨_, rfl, .nameParam named rfl plain⟩

theorem of_params (sound : rules.Sound) {closer : String} {r : Node × ParseState}
    (ran : (Parse.params rules closer).run s = .ok r) :
    Reads (.params closer) s (.node r.1) r.2 := by
  let readsOn (pos : Pos) (list : ParamList) (s : ParseState) (all : ParamList)
      (s' : ParseState) : Prop :=
    Reads (.paramList closer pos list) s (.node (all.toNode pos)) s'
  simp only [Parse.params, run_bind_ok, run_current_ok, run_skipNewlines_ok, run_pure_ok,
    exists_eq_left] at ran
  obtain ⟨passed, skips, list, looped, rfl⟩ := ran
  refine .params skips (loop_induction (motive := readsOn s.current.pos) ?_ ?_ looped)
  · intro list s all s' step
    obtain ⟨closing, rfl, rfl⟩ | ⟨more, added, s₂, s₃, found, skips, step⟩ :=
      Parse.run_paramStep_done.1 step
    · exact .paramsDone closing
    obtain ⟨param, rfl, read⟩ := of_param sound found
    obtain ⟨noComma, rfl, rfl⟩ | ⟨comma, -, skips', closing, bar, allowed, rfl⟩ := step
    · exact .paramsLast more read trivial skips noComma
    · exact .paramsExcess more read trivial skips comma skips' closing bar allowed
  · intro list s next between all s' step after
    obtain ⟨more, s₂, s₃, found, skips, comma, -, skips', open'⟩ :=
      Parse.run_paramStep_again.1 step
    obtain ⟨param, rfl, read⟩ := of_param sound found
    exact .paramsMore more read trivial skips comma skips' open' after

/-! ## Blocks and lambdas -/

theorem of_blockVar (sound : rules.Sound) {r : Option Node × ParseState}
    (ran : (Parse.blockVar rules).run s = .ok r) : Reads .blockVar s (.optional r.1) r.2 := by
  simp only [Parse.blockVar, run_bind_ok, run_ite_ok, run_current_ok, run_pure_ok, run_expect_ok,
    run_discard_advance_ok, exists_eq_left, exists_and_eq_left, Bool.not_eq_true] at ran
  obtain ⟨bars, -, rfl⟩ | ⟨noBars, ⟨bar, -, params, read, ⟨closing, -⟩, rfl⟩ | ⟨noBar, rfl⟩⟩ := ran
  · exact .blockVarBars bars
  · exact .blockVarSome bar (of_params sound read) closing
  · exact .blockVarNone noBars noBar

theorem of_braceBlock (sound : rules.Sound) {r : Node × ParseState}
    (ran : (Parse.braceBlock rules).run s = .ok r) : Reads .braceBlock s (.node r.1) r.2 := by
  simp only [Parse.braceBlock, run_bind_ok, run_current_ok, run_pure_ok, run_expect_ok,
    run_delimited_ok, run_inScope_ok, run_skipNewlines_ok, exists_eq_left,
    exists_and_eq_left] at ran
  obtain ⟨⟨opening, -⟩, _, ⟨_, ⟨passed, skips, params, readParams, body, readBody,
    ⟨closing, -⟩, rfl⟩, -, rfl⟩, rfl⟩ := ran
  exact .braceBlock opening skips (of_blockVar sound readParams) (sound.stmts readBody) closing

theorem of_exceptions (sound : rules.Sound) {r : List Node × ParseState}
    (ran : (Parse.exceptions rules).run s = .ok r) : Reads .exceptions s (.list r.1) r.2 := by
  simp only [Parse.exceptions, run_bind_ok, run_ite_ok, run_current_ok, run_pure_ok,
    exists_eq_left, Bool.not_eq_true] at ran
  obtain ⟨none', rfl⟩ | ⟨some', read⟩ := ran
  · exact .exceptionsNone none'
  · exact .exceptionsSome some' (of_commaList sound.range (fun _ => rfl) read)

theorem of_holder (sound : rules.Sound) {r : Option Node × ParseState}
    (ran : (Parse.holder rules).run s = .ok r) : Reads .holder s (.optional r.1) r.2 := by
  simp only [Parse.holder, run_bind_ok, run_ite_ok, run_isAt_ok, run_pure_ok,
    run_discard_advance_ok, exists_eq_left, exists_and_eq_left, Bool.not_eq_true] at ran
  obtain ⟨arrow, -, expr, read, target, made, rfl⟩ | ⟨noArrow, rfl⟩ := ran
  · exact .holderSome arrow (sound.primary read) made
  · exact .holderNone noArrow

theorem of_rescueChain (sound : rules.Sound) {r : Option Node × ParseState}
    (ran : (Parse.rescueChain rules).run s = .ok r) :
    Reads .rescueChain s (.optional r.1) r.2 := by
  let chain (clauses : List (Option Node → Node)) : Option Node :=
    clauses.foldr (fun clause next => some (clause next)) none
  let readsOn (done : List (Option Node → Node)) (s : ParseState)
      (all : List (Option Node → Node)) (s' : ParseState) : Prop :=
    ∃ rest, all = done ++ rest ∧ Reads .rescueChain s (.optional (chain rest)) s'
  simp only [Parse.rescueChain, run_bind_ok, run_pure_ok] at ran
  obtain ⟨all, looped, rfl⟩ := ran
  have whole : readsOn [] s all.1 all.2 := by
    refine loop_induction (motive := readsOn) ?_ ?_ looped
    · intro done s all s' step
      obtain ⟨noRescue, rfl, rfl⟩ := Parse.run_rescueStep_done.1 step
      exact ⟨[], by simp, .rescueNone noRescue⟩
    · intro done s next between all s' step after
      obtain ⟨clause, ran, rfl⟩ := Parse.run_rescueStep_again.1 step
      obtain ⟨rescue, -, list, s₂, held, s₃, stmts, exceptions, holder, -, body, rfl⟩ :=
        Parse.run_rescueClause_ok.1 ran
      obtain ⟨rest, rfl, reads⟩ := after
      exact ⟨_ :: rest, by simp, .rescueMore rescue (of_exceptions sound exceptions)
        (of_holder sound holder) (sound.stmts body) reads⟩
  obtain ⟨rest, same, reads⟩ := whole
  rw [same]
  exact reads

theorem of_clause (sound : rules.Sound) {word : String} {words : List String}
    {r : Option (List Node) × ParseState} (ran : (Parse.clause rules word words).run s = .ok r) :
    Reads (.clause word words) s (.optionalList r.1) r.2 := by
  simp only [Parse.clause, run_bind_ok, run_ite_ok, run_isAt_ok, run_pure_ok,
    run_discard_advance_ok, exists_eq_left, exists_and_eq_left, Bool.not_eq_true] at ran
  obtain ⟨there, -, stmts, read, rfl⟩ | ⟨missing, rfl⟩ := ran
  · exact .clauseSome there (sound.stmts read)
  · exact .clauseNone missing

theorem of_bodyStmt (sound : rules.Sound) {r : Node × ParseState}
    (ran : (Parse.bodyStmt rules).run s = .ok r) : Reads .bodyStmt s (.node r.1) r.2 := by
  simp only [Parse.bodyStmt, run_bind_ok, run_current_ok, run_pure_ok, exists_eq_left] at ran
  obtain ⟨stmts, readStmts, rescue, readRescue, elseBody, readElse, ensure, readEnsure, rfl⟩ := ran
  exact .bodyStmt (sound.stmts readStmts) (of_rescueChain sound readRescue)
    (of_clause sound readElse) (of_clause sound readEnsure)

theorem of_doBlock (sound : rules.Sound) {r : Node × ParseState}
    (ran : (Parse.doBlock rules).run s = .ok r) : Reads .doBlock s (.node r.1) r.2 := by
  simp only [Parse.doBlock, run_bind_ok, run_current_ok, run_pure_ok, run_expect_ok,
    run_delimited_ok, run_inScope_ok, exists_eq_left, exists_and_eq_left] at ran
  obtain ⟨⟨opening, -⟩, _, ⟨_, ⟨params, readParams, body, readBody, ⟨closing, -⟩, rfl⟩, -, rfl⟩,
    rfl⟩ := ran
  exact .doBlock opening (of_blockVar sound readParams) (of_bodyStmt sound readBody) closing

theorem of_withBlock (sound : rules.Sound) {call : Node} {r : Node × ParseState}
    (ran : (Parse.withBlock rules call).run s = .ok r) :
    Reads (.block true call) s (.node r.1) r.2 := by
  simp only [Parse.withBlock, run_bind_ok, run_ite_ok, run_isAt_ok, run_isAtDo_ok, run_pure_ok,
    exists_eq_left, Bool.not_eq_true] at ran
  obtain ⟨brace, block, read, rfl⟩ | ⟨noBrace, ⟨atDo, block, read, rfl⟩ | ⟨notDo, rfl⟩⟩ := ran
  · exact .blockBraces brace (of_braceBlock sound read)
  · exact .blockDo atDo (of_doBlock sound read)
  · exact .blockNone (by simp [noBrace]) notDo

theorem of_lambdaParams (sound : rules.Sound) {r : Option Node × ParseState}
    (ran : (Parse.lambdaParams rules).run s = .ok r) :
    Reads .lambdaParams s (.optional r.1) r.2 := by
  simp only [Parse.lambdaParams, run_bind_ok, run_ite_ok, run_current_ok, run_pure_ok,
    run_expect_ok, run_discard_advance_ok, exists_eq_left, exists_and_eq_left,
    Bool.not_eq_true] at ran
  obtain ⟨paren, -, list, read, ⟨closing, -⟩, rfl⟩ | ⟨noParen, ⟨opens, rfl⟩ |
    ⟨bare, list, read, rfl⟩⟩ := ran
  · exact .lambdaParen paren (of_params sound read) closing
  · exact .lambdaNone opens
  · exact .lambdaBare noParen bare (of_params sound read)

theorem of_lambdaBody (sound : rules.Sound) {r : List Node × ParseState}
    (ran : (Parse.lambdaBody rules).run s = .ok r) : Reads .lambdaBody s (.list r.1) r.2 := by
  simp only [Parse.lambdaBody, run_bind_ok, run_ite_ok, run_isAt_ok, run_pure_ok, run_expect_ok,
    run_discard_advance_ok, exists_eq_left, exists_and_eq_left, Bool.not_eq_true] at ran
  obtain ⟨brace, -, stmts, read, ⟨closing, -⟩, rfl⟩ |
    ⟨_, ⟨opening, -⟩, stmts, read, ⟨closing, -⟩, rfl⟩ := ran
  · exact .lambdaBraces brace (sound.stmts read) closing
  · exact .lambdaDo opening (sound.stmts read) closing

/-! ## Operands -/

theorem of_leaf {node : Node} {r : Node × ParseState} (leaf : s.current.leaf? = some node)
    (ran : (Parse.leaf node).run s = .ok r) : Reads .primary s (.node r.1) r.2 := by
  obtain ⟨-, rfl⟩ := Parse.run_leaf_ok.1 ran
  exact .leaf leaf

theorem of_constant (sound : rules.Sound) (kind : s.current.kind = .const) {r : Node × ParseState}
    (ran : (Parse.constant rules).run s = .ok r) : Reads .primary s (.node r.1) r.2 := by
  simp only [Parse.constant, run_bind_ok, run_ite_ok, run_current_ok, run_advance_ok, run_pure_ok,
    exists_eq_left, exists_and_eq_left, Bool.not_eq_true] at ran
  obtain ⟨-, ⟨tight, args, read, block⟩ | ⟨loose, rfl⟩⟩ := ran
  · exact .fcall (by rw [Token.callee?, kind]) tight (of_parenArguments sound read)
      (of_withBlock sound block)
  · exact .constant kind loose

theorem of_identifier (sound : rules.Sound) (kind : s.current.kind = .ident)
    {r : Node × ParseState} (ran : (Parse.identifier rules).run s = .ok r) :
    Reads .primary s (.node r.1) r.2 := by
  simp only [Parse.identifier, run_bind_ok, run_ite_ok, run_advance_ok, run_get_ok, run_pure_ok,
    run_inCommand_ok, run_isAtDo_ok, exists_eq_left, exists_and_eq_left, Bool.not_eq_true] at ran
  obtain ⟨-, ⟨tight, args, read, block⟩ | ⟨loose, ran⟩⟩ := ran
  · exact .fcall (by rw [Token.callee?, kind]) tight (of_parenArguments sound read)
      (of_withBlock sound block)
  obtain ⟨known, rfl⟩ | ⟨unknown, ran⟩ := ran
  · exact .localVar kind loose known
  obtain ⟨starts, _, ⟨args, read, rfl⟩, ran⟩ | ⟨noArgument, ran⟩ := ran
  · have command := of_arguments sound read
    obtain ⟨atDo, block, readBlock, rfl⟩ | ⟨notDo, rfl⟩ := ran
    · exact .command kind loose unknown starts command (.blockDo atDo (of_doBlock sound readBlock))
    · exact .command kind loose unknown starts command (.blockNone rfl notDo)
  obtain ⟨opens, block⟩ | ⟨bare, rfl⟩ := ran
  · exact .fcallBlock kind loose unknown noArgument opens (of_withBlock sound block)
  · exact .vcall kind loose unknown noArgument bare

theorem of_paren (sound : rules.Sound) (opening : s.current.isOp "(" = true)
    {r : Node × ParseState} (ran : (Parse.paren rules).run s = .ok r) :
    Reads .primary s (.node r.1) r.2 := by
  obtain ⟨node, after⟩ := r
  obtain ⟨-, passed, skips, inner, behind, read, closing, skips', ⟨closes, -⟩, rfl, rfl⟩ :=
    Parse.run_paren_ok.1 ran
  exact .paren opening skips (sound.stmt read) skips' closes

theorem of_array (sound : rules.Sound) (opening : s.current.isOp "[" = true)
    {r : Node × ParseState} (ran : (Parse.array rules).run s = .ok r) :
    Reads .primary s (.node r.1) r.2 := by
  simp only [Parse.array, run_bind_ok, run_current_ok, run_pure_ok, run_expect_ok,
    run_delimited_ok, exists_eq_left, exists_and_eq_left] at ran
  obtain ⟨-, _, ⟨elements, read, rfl⟩, rfl⟩ := ran
  obtain ⟨s₁, s₂, skips, reads, closing, after⟩ := of_closedList (of_element sound) read
  rw [after]
  exact .array opening skips reads closing

theorem of_hash (sound : rules.Sound) (opening : s.current.isOp "\x7b" = true)
    {r : Node × ParseState} (ran : (Parse.hash rules).run s = .ok r) :
    Reads .primary s (.node r.1) r.2 := by
  simp only [Parse.hash, run_bind_ok, run_current_ok, run_pure_ok, run_expect_ok,
    run_delimited_ok, exists_eq_left, exists_and_eq_left] at ran
  obtain ⟨-, _, ⟨entries, read, rfl⟩, rfl⟩ := ran
  obtain ⟨s₁, s₂, skips, reads, closing, after⟩ := of_closedList (of_entry sound) read
  rw [after]
  exact .hash opening skips reads closing

theorem of_lambda (sound : rules.Sound) (arrow : s.current.isOp "->" = true)
    {r : Node × ParseState} (ran : (Parse.lambda rules).run s = .ok r) :
    Reads .primary s (.node r.1) r.2 := by
  obtain ⟨node, after⟩ := r
  obtain ⟨-, params, between, readParams, body, behind, readBody, -, rfl, rfl⟩ :=
    Parse.run_lambda_ok.1 ran
  exact .lambda arrow (of_lambdaParams sound readParams) (of_lambdaBody sound readBody)

theorem of_primary (sound : rules.Sound) {r : Node × ParseState}
    (ran : (Parse.primary rules).run s = .ok r) : Reads .primary s (.node r.1) r.2 := by
  simp only [Parse.primary, run_bind_ok, run_current_ok, exists_eq_left] at ran
  split at ran
  case h_1 kind => exact of_leaf (by rw [Token.leaf?, kind]) ran
  case h_2 kind => exact of_leaf (by rw [Token.leaf?, kind]) ran
  case h_3 kind => exact of_leaf (by rw [Token.leaf?, kind]) ran
  case h_4 kind => exact of_leaf (by rw [Token.leaf?, kind]) ran
  case h_5 kind =>
    obtain ⟨_, ran⟩ | ⟨named, ran⟩ := run_ite_ok.1 ran
    · exact (run_fail_ok.1 ran).elim
    · exact of_leaf (by rw [Token.leaf?, kind]; exact if_neg named) ran
  case h_6 kind => exact of_leaf (by rw [Token.leaf?, kind]) ran
  case h_7 kind => exact of_leaf (by rw [Token.leaf?, kind]) ran
  case h_8 kind => exact of_leaf (by rw [Token.leaf?, kind]) ran
  case h_9 kind =>
    obtain ⟨literal, ran⟩ | ⟨_, ran⟩ := run_ite_ok.1 ran
    · exact of_leaf (by rw [Token.leaf?, kind]; exact if_pos literal) ran
    · exact (run_fail_ok.1 ran).elim
  case h_10 kind => exact of_constant sound kind ran
  case h_11 kind => exact of_identifier sound kind ran
  case h_12 kind =>
    have isOp {op : String} (same : (s.current.text == op) = true) : s.current.isOp op = true := by
      simp only [Token.isOp, kind, same, beq_self_eq_true, Bool.and_self]
    simp only [run_ite_ok, run_fail_ok, and_false, or_false] at ran
    obtain ⟨paren, ran⟩ | ⟨_, ⟨bracket, ran⟩ | ⟨_, ⟨brace, ran⟩ | ⟨_, arrow, ran⟩⟩⟩ := ran
    · exact of_paren sound (isOp paren) ran
    · exact of_array sound (isOp bracket) ran
    · exact of_hash sound (isOp brace) ran
    · exact of_lambda sound (isOp arrow) ran
  all_goals exact (run_fail_ok.1 ran).elim

/-! ## Messages and indexes -/

theorem of_callSuffix (sound : rules.Sound) {receiver : Node} {r : Node × ParseState}
    (ran : (Parse.callSuffix rules receiver).run s = .ok r) :
    Reads (.callSuffix receiver) s (.node r.1) r.2 := by
  simp only [Parse.callSuffix, Parse.tightArguments, run_bind_ok, run_ite_ok, run_current_ok,
    run_advance_ok, run_skipNewlines_ok, run_pure_ok, exists_eq_left, exists_and_eq_left,
    Bool.not_eq_true] at ran
  obtain ⟨-, passed, skips, ⟨paren, args, read, block⟩ | ⟨_, name, readName, ran⟩⟩ := ran
  · exact .callShorthand skips paren (of_parenArguments sound read) (of_withBlock sound block)
  obtain ⟨-, message, after⟩ := Parse.run_message_ok.1 readName
  rw [after] at ran
  obtain ⟨constant, rfl⟩ | ⟨call, args, ⟨tight, some, read, rfl⟩ | ⟨loose, rfl⟩, block⟩ := ran
  · obtain ⟨isConstant, loose⟩ := Bool.and_eq_true_iff.1 constant
    exact .constPath skips message isConstant (by simpa using loose)
  · exact .callArgs skips message tight (of_parenArguments sound read) (of_withBlock sound block)
  · have notConstant : passed.2.current.isConstantOf s.current.text = false := by
      rw [Bool.and_eq_false_iff, loose] at call
      exact call.resolve_right nofun
    exact .callBare skips message notConstant loose (of_withBlock sound block)

theorem of_operand (sound : rules.Sound) {r : Node × ParseState}
    (ran : (Parse.operand rules).run s = .ok r) : Reads .operand s (.node r.1) r.2 := by
  let readsOn (expr : Node) (s : ParseState) (all : Node) (s' : ParseState) : Prop :=
    Reads (.suffixes expr) s (.node all) s'
  simp only [Parse.operand, run_bind_ok] at ran
  obtain ⟨expr, read, looped⟩ := ran
  refine .operand (of_primary sound read) (loop_induction (motive := readsOn) ?_ ?_ looped)
  · intro expr s all s' step
    obtain ⟨ends, noCall, noIndex, rfl, rfl⟩ := Parse.run_suffixStep_done.1 step
    exact .suffixesDone ends noCall noIndex
  · intro expr s next between all s' step after
    obtain ⟨call, read⟩ | ⟨ends, noCall, index, args, read, rfl⟩ :=
      Parse.run_suffixStep_again.1 step
    · exact .suffixesCall call (of_callSuffix sound read) after
    · exact .suffixesIndex index (of_indexArguments sound read) after

/-! ## Operators -/

theorem of_unary (sound : rules.Sound) {r : Node × ParseState}
    (ran : (Parse.unary rules).run s = .ok r) : Reads .unary s (.node r.1) r.2 := by
  simp only [Parse.unary, run_bind_ok, run_ite_ok, run_current_ok, run_discard_advance_ok,
    run_pure_ok, exists_eq_left, exists_and_eq_left, Bool.not_eq_true] at ran
  obtain ⟨mark, -, operand, read, rfl⟩ | ⟨noMark, read⟩ := ran
  · exact .unary mark (sound.unary read)
  · exact .notUnary noMark (of_operand sound read)

theorem of_power (sound : rules.Sound) {r : Node × ParseState}
    (ran : (Parse.power rules).run s = .ok r) : Reads .power s (.node r.1) r.2 := by
  simp only [Parse.power, run_bind_ok, run_ite_ok, run_isAt_ok, run_discard_advance_ok,
    run_skipNewlines_ok, run_pure_ok, exists_eq_left, exists_and_eq_left, Bool.not_eq_true] at ran
  obtain ⟨left, read, ⟨stars, -, passed, skips, right, readRight, rfl⟩ | ⟨noStars, rfl⟩⟩ := ran
  · exact .power (of_unary sound read) stars skips (sound.minus readRight)
  · exact .notPower (of_unary sound read) noStars

theorem of_minus (sound : rules.Sound) {r : Node × ParseState}
    (ran : (Parse.minus rules).run s = .ok r) : Reads .minus s (.node r.1) r.2 := by
  simp only [Parse.minus, run_bind_ok, run_ite_ok, run_current_ok, run_discard_advance_ok,
    run_pure_ok, exists_eq_left, exists_and_eq_left, Bool.not_eq_true] at ran
  obtain ⟨mark, -, operand, read, rfl⟩ | ⟨noMark, read⟩ := ran
  · exact .minus mark (sound.minus read)
  · exact .notMinus noMark (of_power sound read)

theorem of_operations (sound : rules.Sound) {levels : List OperatorLevel} {r : Node × ParseState}
    (ran : (Parse.operations rules levels).run s = .ok r) :
    Reads (.operations levels) s (.node r.1) r.2 := by
  induction levels generalizing s r with
  | nil => exact .tightest (of_minus sound ran)
  | cons level tighter ih =>
      let readsOn (left : Node) (s : ParseState) (all : Node) (s' : ParseState) : Prop :=
        level.chains = true → Reads (.chain level tighter left) s (.node all) s'
      simp only [Parse.operations, Parse.operatorLevel, run_bind_ok, run_ite_ok] at ran
      obtain ⟨left, read, ⟨chains, looped⟩ | ⟨once, ran⟩⟩ := ran
      · refine .level (ih read) (loop_induction (motive := readsOn) ?_ ?_ looped chains)
        · intro left s all s' step _
          obtain ⟨noOp, rfl, rfl⟩ := Parse.run_levelStep_done.1 step
          exact .chainDone noOp
        · intro left s next between all s' step after chains
          obtain ⟨op, ran⟩ := Parse.run_levelStep_again.1 step
          obtain ⟨-, s₂, right, skips, readRight, rfl⟩ := Parse.run_operation_ok.1 ran
          exact .chainMore chains op skips (ih readRight) (after chains)
      · simp only [run_current_ok, run_pure_ok, exists_eq_left, Bool.not_eq_true] at ran once
        obtain ⟨op, ran⟩ | ⟨noOp, rfl⟩ := ran
        · obtain ⟨-, s₂, right, skips, readRight, same⟩ := Parse.run_operation_ok.1 ran
          rw [same]
          exact .level (ih read) (.chainOnce once op skips (ih readRight))
        · exact .level (ih read) (.chainDone noOp)

theorem of_range (sound : rules.Sound) {r : Node × ParseState}
    (ran : (Parse.range rules).run s = .ok r) : Reads .range s (.node r.1) r.2 := by
  simp only [Parse.range, run_bind_ok, run_ite_ok, run_current_ok, run_discard_advance_ok,
    run_pure_ok, exists_eq_left, exists_and_eq_left, Bool.not_eq_true] at ran
  obtain ⟨left, read, ⟨dots, -, right, readRight, rfl⟩ | ⟨noDots, rfl⟩⟩ := ran
  · exact .rangeBetween (of_operations sound read) dots (of_operations sound readRight)
  · exact .notRange (of_operations sound read) noDots

theorem of_negated (sound : rules.Sound) {r : Node × ParseState}
    (ran : (Parse.negated rules).run s = .ok r) : Reads .negated s (.node r.1) r.2 := by
  simp only [Parse.negated, run_bind_ok, run_ite_ok, run_current_ok, run_discard_advance_ok,
    run_pure_ok, exists_eq_left, exists_and_eq_left, Bool.not_eq_true] at ran
  obtain ⟨mark, -, operand, read, rfl⟩ | ⟨noMark, read⟩ := ran
  · exact .not mark (sound.negated read)
  · exact .notNegated noMark (of_range sound read)

theorem of_expression (sound : rules.Sound) {r : Node × ParseState}
    (ran : (Parse.expression rules).run s = .ok r) : Reads .expression s (.node r.1) r.2 := by
  let readsOn (left : Node) (s : ParseState) (all : Node) (s' : ParseState) : Prop :=
    Reads (.joined left) s (.node all) s'
  simp only [Parse.expression, run_bind_ok] at ran
  obtain ⟨left, read, looped⟩ := ran
  refine .expression (of_negated sound read) (loop_induction (motive := readsOn) ?_ ?_ looped)
  · intro left s all s' step
    obtain ⟨noWord, rfl, rfl⟩ := Parse.run_joinStep_done.1 step
    exact .joinedDone noWord
  · intro left s next between all s' step after
    obtain ⟨word, ran⟩ := Parse.run_joinStep_again.1 step
    obtain ⟨-, s₂, right, skips, readRight, rfl⟩ := Parse.run_operation_ok.1 ran
    exact .joinedMore word skips (of_negated sound readRight) after

/-! ## Statements -/

theorem of_listedValue (sound : rules.Sound) {r : Node × ParseState}
    (ran : (Parse.listedValue rules).run s = .ok r) : Reads .listedValue s (.node r.1) r.2 := by
  simp only [Parse.listedValue, run_bind_ok, run_ite_ok, run_current_ok, run_pure_ok,
    run_discard_advance_ok, exists_eq_left, exists_and_eq_left, Bool.not_eq_true] at ran
  obtain ⟨star, -, value, read, rfl⟩ | ⟨noStar, read⟩ := ran
  · exact .listedSplat star (sound.range read)
  · exact .listedPlain noStar (sound.value read)

theorem of_rightSide (sound : rules.Sound) {takesList : Bool} {r : Node × ParseState}
    (ran : (Parse.rightSide rules takesList).run s = .ok r) :
    Reads (.rightSide takesList) s (.node r.1) r.2 := by
  cases takesList with
  | false => exact sound.value ran
  | true =>
      simp only [Parse.rightSide, if_true, Parse.values, run_bind_ok, run_current_ok, run_pure_ok,
        exists_eq_left] at ran
      obtain ⟨values, read, rfl⟩ := ran
      exact .values (of_commaList (of_listedValue sound) (fun _ => rfl) read)

theorem of_assignment (sound : rules.Sound) {takesList : Bool} {r : Node × ParseState}
    (ran : (Parse.assignment rules takesList).run s = .ok r) :
    Reads (.assignment takesList) s (.node r.1) r.2 := by
  simp only [Parse.assignment, run_bind_ok, run_ite_ok, run_current_ok, run_discard_advance_ok,
    run_skipNewlines_ok, run_pure_ok, exists_eq_left, exists_and_eq_left, Bool.not_eq_true] at ran
  obtain ⟨expr, read, ⟨equals, target, made, -, passed, skips, value, readValue, rfl⟩ |
    ⟨noEquals, ran⟩⟩ := ran
  · exact .assign (of_expression sound read) equals made skips (of_rightSide sound readValue)
  obtain ⟨op, target, made, -, passed, skips, value, readValue, rfl⟩ | ⟨noOp, rfl⟩ := ran
  · exact .opAssign (of_expression sound read) noEquals op made skips (sound.value readValue)
  · exact .unassigned (of_expression sound read) noEquals noOp

theorem of_stmt (sound : rules.Sound) {r : Node × ParseState}
    (ran : (Parse.stmt rules).run s = .ok r) : Reads .stmt s (.node r.1) r.2 := by
  simp only [Parse.stmt, run_bind_ok, run_ite_ok, run_current_ok, run_isAt_ok, run_fail_ok,
    run_pure_ok, exists_eq_left, and_false, false_or, Bool.not_eq_true] at ran
  obtain ⟨supported, node, read, noComma, rfl⟩ := ran
  exact .stmt supported (of_assignment sound read) noComma

theorem of_stmts (sound : rules.Sound) {words : List String} {r : List Node × ParseState}
    (ran : (Parse.stmts rules words).run s = .ok r) :
    Reads (.stmts words) s (.list r.1) r.2 := by
  let readsOn (done : List Node) (s : ParseState) (all : List Node) (s' : ParseState) : Prop :=
    ∃ rest, all = done ++ rest ∧ Reads (.stmts words) s (.list rest) s'
  have whole : readsOn [] s r.1 r.2 := by
    refine loop_induction (motive := readsOn) ?_ ?_ ran
    · intro done s all s' step
      obtain ⟨ends, rfl, rfl⟩ | ⟨goesOn, noBreak, noComment, stmt, read, noRemark, last, rfl⟩ :=
        Parse.run_stmtStep_done.1 step
      · exact ⟨[], by simp, .stmtsDone ends⟩
      · exact ⟨[stmt], rfl,
          .stmtsLast goesOn noBreak noComment (of_stmt sound read) noRemark last⟩
    · intro done s next between all s' step after
      obtain ⟨rest, rfl, reads⟩ := after
      obtain ⟨goesOn, ⟨isBreak, -, rfl, rfl⟩ | ⟨noBreak, ⟨comment, -, rfl, rfl⟩ |
        ⟨noComment, stmt, s₂, read, step⟩⟩⟩ := Parse.run_stmtStep_again.1 step
      · exact ⟨rest, rfl, .stmtsBreak goesOn isBreak reads⟩
      · exact ⟨_ :: rest, by simp, .stmtsComment goesOn comment reads⟩
      obtain ⟨remark, -, rfl, rfl⟩ | ⟨noRemark, more, ends, rfl, rfl⟩ := step
      · exact ⟨_ :: rest, by simp,
          .stmtsRemark goesOn noBreak noComment (of_stmt sound read) remark reads⟩
      · exact ⟨stmt :: rest, by simp,
          .stmtsMore goesOn noBreak noComment (of_stmt sound read) noRemark more ends reads⟩
  obtain ⟨rest, same, reads⟩ := whole
  rwa [same]

/-! ## All levels -/

/-- Nothing is read below the deepest level. -/
theorem sound_exhausted : Rules.exhausted.Sound where
  stmts ran := (run_fail_ok.1 ran).elim
  stmt ran := (run_fail_ok.1 ran).elim
  value ran := (run_fail_ok.1 ran).elim
  negated ran := (run_fail_ok.1 ran).elim
  range ran := (run_fail_ok.1 ran).elim
  conjunction ran := (run_fail_ok.1 ran).elim
  minus ran := (run_fail_ok.1 ran).elim
  unary ran := (run_fail_ok.1 ran).elim
  primary ran := (run_fail_ok.1 ran).elim

/-- The rules over sound ones are sound. -/
theorem sound_layer (sound : rules.Sound) : rules.layer.Sound where
  stmts := of_stmts sound
  stmt := of_stmt sound
  value := of_assignment sound
  negated := of_negated sound
  range := of_range sound
  conjunction := of_operations sound
  minus := of_minus sound
  unary := of_unary sound
  primary := of_primary sound

theorem sound_ofDepth (depth : Nat) : (Rules.ofDepth depth).Sound := by
  induction depth with
  | zero => exact sound_exhausted
  | succ depth ih => exact sound_layer ih

/-- The tree of a token list is one that the rule for programs reads. -/
theorem of_parse {tokens : Tokens} {tree : Node} (parsed : tokens.parse = .ok tree) :
    ∃ s, Reads .program (ParseState.start tokens) (.node tree) s := by
  obtain ⟨r, ran, rfl⟩ := run'_ok.1 parsed
  simp only [Parse.program, run_bind_ok, run_ite_ok, run_current_ok, run_pure_ok, run_fail_ok,
    exists_eq_left, and_false, or_false, beq_iff_eq] at ran
  obtain ⟨body, read, eof, rfl⟩ := ran
  exact ⟨_, .program ((sound_ofDepth _).stmts read) eof⟩

end Reads

end RubyFormat
