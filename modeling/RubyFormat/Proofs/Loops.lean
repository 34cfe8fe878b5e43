import RubyFormat.Proofs.Progress

/-!
# Loops that take a token in each step

A loop goes on only behind a token that it has taken, whatever the tokens are: a step that takes
none finds that the loop is over and leaves the state as it was.  So the tokens ahead when a loop
starts bound its steps.
-/

namespace RubyFormat

/-- One state is reached from another by taking at least one token. -/
structure ParseState.Takes (s s₁ : ParseState) : Prop where
  moves : s.Moves s₁
  fewer : s₁.ahead.length < s.ahead.length

namespace ParseState.Takes

variable {s s₁ s₂ : ParseState}

theorem trans (taken : s.Takes s₁) (rest : s₁.Moves s₂) : s.Takes s₂ :=
  ⟨taken.moves.trans rest, Nat.lt_of_le_of_lt rest.length_le taken.fewer⟩

theorem behind (before : s.Moves s₁) (taken : s₁.Takes s₂) : s.Takes s₂ :=
  ⟨before.trans taken.moves, Nat.lt_of_lt_of_le taken.fewer before.length_le⟩

theorem next (there : s.ahead ≠ []) : s.Takes s.next :=
  ⟨.next s, length_next_lt there⟩

theorem reads {rule : Rule} {field : Field Node} (reads : Reads rule s field s₁)
    (close : s.close.kind = .eof) (takes : rule.takes = true) : s.Takes s₁ :=
  ⟨reads.moves, reads.length_lt close takes⟩

end ParseState.Takes

open ParseState

namespace ParseM

variable {α β : Type}

/-- A parser takes at least one token whenever it succeeds. -/
def Takes (parser : ParseM α) : Prop :=
  ∀ s r, s.close.kind = .eof → parser.run s = .ok r → s.Takes r.2

theorem Takes.of_reads {parser : ParseM Node} {rule : Rule} (takes : rule.takes = true)
    (sound : ∀ {s r}, parser.run s = .ok r → Reads rule s (.node r.1) r.2) : Takes parser :=
  fun _ _ close ran => .reads (sound ran) close takes

/-- A body takes a token in each step, unless the step only finds that the loop is over. -/
def Advances (body : α → ParseM (LoopStep α β)) : Prop :=
  ∀ value s step s₁, s.close.kind = .eof → (body value).run s = .ok (step, s₁) →
    s.Takes s₁ ∨ s₁ = s ∧ ∃ result, step = .done result

namespace Advances

variable {body : α → ParseM (LoopStep α β)} {value next : α} {s s₁ : ParseState}

/-- A step behind which the loop goes on has taken a token. -/
theorem takes (advances : Advances body) (close : s.close.kind = .eof)
    (ran : (body value).run s = .ok (.again next, s₁)) : s.Takes s₁ := by
  obtain taken | ⟨-, result, ends⟩ := advances _ _ _ _ close ran
  · exact taken
  · cases ends

/-- A loop only takes tokens and declares variables. -/
theorem moves (advances : Advances body) (close : s.close.kind = .eof) {r : β × ParseState}
    (ran : (loop body value).run s = .ok r) : s.Moves r.2 := by
  refine loop_induction (motive := fun _ s _ s₁ => s.close.kind = .eof → s.Moves s₁) ?_ ?_ ran close
  · intro value s result s₁ ran close
    obtain taken | ⟨rfl, -⟩ := advances _ _ _ _ close ran
    · exact taken.moves
    · exact .refl _
  · intro value s next s₁ result s₂ ran rest close
    have taken := (advances.takes close ran).moves
    exact taken.trans (rest (taken.eof close))

end Advances

/-- A list without a closing word is never closed. -/
theorem run_closes_none (s : ParseState) :
    (pure false : ParseM Bool).run s = .ok (s.closes none, s) :=
  rfl

theorem run_closes_some (closer : String) (s : ParseState) :
    (isAt closer).run s = .ok (s.closes (some closer), s) :=
  rfl

/-- Each item of a list takes a token, and the comma behind it is one more. -/
theorem advances_commaStep {item : ParseM Node} {closes : ParseM Bool} {closer : Option String}
    (closing : ∀ s, closes.run s = .ok (s.closes closer, s)) (takes : Takes item) :
    Advances (commaStep item closes) := by
  intro items s step s₁ close ran
  left
  cases step with
  | again next =>
      obtain ⟨node, s₂, ran, -, -, -, skips, -⟩ := (run_commaStep_again closing).1 ran
      exact (takes _ _ close ran).trans ((Moves.next _).trans (.skips skips))
  | done all =>
      obtain ⟨node, s₂, ran, -, ⟨-, rfl⟩ | ⟨-, -, skips, -⟩⟩ := (run_commaStep_done closing).1 ran
      · exact takes _ _ close ran
      · exact (takes _ _ close ran).trans ((Moves.next _).trans (.skips skips))

theorem advances_closedStep {item : ParseM Node} {closer : String} (takes : Takes item) :
    Advances (closedStep item closer) := by
  intro items s step s₁ close ran
  cases step with
  | again next =>
      obtain ⟨-, node, s₂, s₃, ran, -, skips, -, -, skips'⟩ := run_closedStep_again.1 ran
      exact .inl ((takes _ _ close ran).trans
        (((Moves.skips skips).trans (.next _)).trans (.skips skips')))
  | done all =>
      obtain ⟨-, -, rfl⟩ | ⟨-, node, s₂, ran, -, skips, -⟩ := run_closedStep_done.1 ran
      · exact .inr ⟨rfl, all, rfl⟩
      · exact .inl ((takes _ _ close ran).trans (.skips skips))

/-- An operation behind an operand takes at least its operator. -/
theorem takes_of_operation {item : ParseM Node} {left node : Node} {s s₁ : ParseState}
    (takes : Takes item) (close : s.close.kind = .eof)
    (ran : (Parse.operation item left).run s = .ok (node, s₁)) : s.Takes s₁ := by
  obtain ⟨-, s₂, right, skips, ran, -⟩ := Parse.run_operation_ok.1 ran
  have before := (Moves.next s).trans (.skips skips)
  exact .behind before (takes _ _ (before.eof close) ran)

theorem advances_levelStep {item : ParseM Node} {level : OperatorLevel} (takes : Takes item) :
    Advances (Parse.levelStep item level) := by
  intro left s step s₁ close ran
  cases step with
  | again next => exact .inl (takes_of_operation takes close (Parse.run_levelStep_again.1 ran).2)
  | done node =>
      obtain ⟨-, -, rfl⟩ := Parse.run_levelStep_done.1 ran
      exact .inr ⟨rfl, node, rfl⟩

section Sound

variable {rules : Rules} (sound : rules.Sound)
include sound

theorem advances_joinStep : Advances (Parse.joinStep rules) := by
  intro left s step s₁ close ran
  cases step with
  | again next =>
      exact .inl (takes_of_operation (.of_reads rfl (Reads.of_negated sound)) close
        (Parse.run_joinStep_again.1 ran).2)
  | done node =>
      obtain ⟨-, -, rfl⟩ := Parse.run_joinStep_done.1 ran
      exact .inr ⟨rfl, node, rfl⟩

/-- A message and an index take tokens behind the line breaks that they are continued over. -/
theorem advances_suffixStep : Advances (Parse.suffixStep rules) := by
  intro expr s step s₁ close ran
  cases step with
  | again next =>
      obtain ⟨-, ran⟩ | ⟨-, -, -, args, ran, -⟩ := Parse.run_suffixStep_again.1 ran
      · have continues := Moves.continued s
        exact .inl (.behind continues
          (.reads (Reads.of_callSuffix sound ran) (continues.eof close) rfl))
      · exact .inl (.reads (Reads.of_indexArguments sound ran) close rfl)
  | done node =>
      obtain ⟨-, -, -, -, rfl⟩ := Parse.run_suffixStep_done.1 ran
      exact .inr ⟨rfl, node, rfl⟩

theorem advances_rescueStep : Advances (Parse.rescueStep rules) := by
  intro clauses s step s₁ _ ran
  cases step with
  | again next =>
      obtain ⟨clause, ran, -⟩ := Parse.run_rescueStep_again.1 ran
      obtain ⟨-, there, list, s₂, held, s₃, stmts, exceptions, holder, -, body, -⟩ :=
        Parse.run_rescueClause_ok.1 ran
      have rest := ((Reads.of_exceptions sound exceptions).moves.trans
        (Reads.of_holder sound holder).moves).trans
          ((Moves.pastThen _).trans (sound.stmts body).moves)
      exact .inl ((Takes.next there).trans rest)
  | done all =>
      obtain ⟨-, -, rfl⟩ := Parse.run_rescueStep_done.1 ran
      exact .inr ⟨rfl, all, rfl⟩

theorem advances_paramStep (closer : String) : Advances (Parse.paramStep rules closer) := by
  intro list s step s₁ close ran
  have takes {added : ParamList} {s₂ : ParseState}
      (ran : (Parse.param rules closer list).run s = .ok (added, s₂)) : s.Takes s₂ := by
    obtain ⟨param, -, read⟩ := Reads.of_param sound ran
    exact .reads read close rfl
  cases step with
  | again next =>
      obtain ⟨-, s₂, s₃, ran, skips, -, -, skips', -⟩ := Parse.run_paramStep_again.1 ran
      exact .inl ((takes ran).trans (((Moves.skips skips).trans (.next _)).trans (.skips skips')))
  | done all =>
      obtain ⟨-, -, rfl⟩ | ⟨-, added, s₂, s₃, ran, skips, ⟨-, -, rfl⟩ | ⟨-, -, skips', -⟩⟩ :=
        Parse.run_paramStep_done.1 ran
      · exact .inr ⟨rfl, all, rfl⟩
      · exact .inl ((takes ran).trans (.skips skips))
      · exact .inl ((takes ran).trans (((Moves.skips skips).trans (.next _)).trans (.skips skips')))

/-- Between the statements a break or a comment is taken, and a statement takes a token itself. -/
theorem advances_stmtStep (words : List String) : Advances (Parse.stmtStep rules words) := by
  intro done s step s₁ close ran
  have takes {node : Node} {s₂ : ParseState}
      (ran : (Parse.stmt rules).run s = .ok (node, s₂)) : s.Takes s₂ :=
    .reads (Reads.of_stmt sound ran) close rfl
  cases step with
  | again next =>
      left
      obtain ⟨-, ⟨-, there, -, rfl⟩ | ⟨-, ⟨-, there, -, rfl⟩ | ⟨-, node, s₂, read, more⟩⟩⟩ :=
        Parse.run_stmtStep_again.1 ran
      · exact .next there
      · exact .next there
      obtain ⟨-, -, -, rfl⟩ | ⟨-, -, -, -, rfl⟩ := more
      · exact (takes read).trans (.next _)
      · exact takes read
  | done all =>
      obtain ⟨-, -, rfl⟩ | ⟨-, -, -, node, ran, -⟩ := Parse.run_stmtStep_done.1 ran
      · exact .inr ⟨rfl, all, rfl⟩
      · exact .inl (takes ran)

end Sound

end ParseM

open ParseM

/-- All loops of the parsers over some rules take a token in each step. -/
structure Rules.LoopsAdvance (rules : Rules) : Prop where
  stmts (words : List String) : Advances (Parse.stmtStep rules words)
  values : Advances (commaStep (Parse.listedValue rules) (pure false))
  joined : Advances (Parse.joinStep rules)
  chain (level : OperatorLevel) (tighter : List OperatorLevel) :
    Advances (Parse.levelStep (Parse.operations rules tighter) level)
  suffixes : Advances (Parse.suffixStep rules)
  arguments (closer : String) : Advances (commaStep (Parse.argument rules) (isAt closer))
  commandArguments : Advances (commaStep (Parse.argument rules) (pure false))
  elements : Advances (closedStep (Parse.element rules) "]")
  entries : Advances (closedStep (Parse.entry rules) "\x7d")
  exceptions : Advances (commaStep rules.range (pure false))
  rescues : Advances (Parse.rescueStep rules)
  params (closer : String) : Advances (Parse.paramStep rules closer)

theorem Rules.loopsAdvance {rules : Rules} (sound : rules.Sound) : rules.LoopsAdvance where
  stmts := advances_stmtStep sound
  values := advances_commaStep run_closes_none (.of_reads rfl (Reads.of_listedValue sound))
  joined := advances_joinStep sound
  chain _ _ := advances_levelStep (.of_reads rfl (Reads.of_operations sound))
  suffixes := advances_suffixStep sound
  arguments closer :=
    advances_commaStep (run_closes_some closer) (.of_reads rfl (Reads.of_argument sound))
  commandArguments :=
    advances_commaStep run_closes_none (.of_reads rfl (Reads.of_argument sound))
  elements := advances_closedStep (.of_reads rfl (Reads.of_element sound))
  entries := advances_closedStep (.of_reads rfl (Reads.of_entry sound))
  exceptions := advances_commaStep run_closes_none (.of_reads rfl sound.range)
  rescues := advances_rescueStep sound
  params := advances_paramStep sound

end RubyFormat
