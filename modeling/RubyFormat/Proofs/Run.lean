import RubyFormat.Parse.Program

/-!
# Runs of parsers

The state transformers that the parsers are made of, and what it means for each way of putting
parsers together that its run succeeds.  A loop is run through its steps: a statement that holds
where the body is done and is carried back over every further step holds of the whole loop.
-/

namespace RubyFormat

namespace ParseState

/-- The state after the next token is taken. -/
def next (state : ParseState) : ParseState :=
  { state with ahead := state.ahead.tail }

/-- The state behind the line breaks ahead. -/
def pastNewlines (state : ParseState) : ParseState :=
  { state with ahead := state.ahead.dropWhile (·.kind == .newline) }

/-- The line breaks ahead are passed, and no comment follows them. -/
def Skips (state after : ParseState) : Prop :=
  after = state.pastNewlines ∧ after.current.kind ≠ .comment

/-- The state with one more local variable in the innermost scope. -/
def declaring (name : String) (state : ParseState) : ParseState :=
  { state with scopes := declare name state.scopes }

/-- The state in a new scope. -/
def opened (state : ParseState) : ParseState :=
  { state with scopes := [] :: state.scopes }

/-- The state behind the innermost scope. -/
def closed (state : ParseState) : ParseState :=
  { state with scopes := state.scopes.tail }

/-- The state at another depth of arguments without parentheses. -/
def atDepth (depth : Nat) (state : ParseState) : ParseState :=
  { state with commandDepth := depth }

/-- Whether a `do` that is next belongs to the call just read. -/
def isAtDo (state : ParseState) : Bool :=
  state.current.isWord "do" && state.commandDepth == 0

/-- Whether the line ends here and the next one goes on with a call operator. -/
def isContinued (state : ParseState) : Bool :=
  state.current.kind == .newline && state.continuesOnNextLine

/-- The state at the call operator that continues the line, if one does. -/
def continued (state : ParseState) : ParseState :=
  if state.isContinued then state.pastNewlines else state

/-- The state behind the word `then`, which may be missing. -/
def pastThen (state : ParseState) : ParseState :=
  if state.current.isWord "then" then state.next else state

/-- The name of a parameter, if it has one, and the state behind it. -/
def paramName? (state : ParseState) : Option Node × ParseState :=
  if state.current.kind == .ident then
    (some (.name .ident state.current.pos state.current.text),
      state.next.declaring state.current.text)
  else
    (none, state)

/-- Whether a list with the given closing word, if it has one, can close here. -/
def closes (closer : Option String) (state : ParseState) : Bool :=
  (closer.map state.current.isWord).getD false

/-- No line break is passed where the next token is none. -/
theorem Skips.eq_self {s s₁ : ParseState} (skips : s.Skips s₁)
    (token : s.current.kind ≠ .newline) : s₁ = s := by
  obtain ⟨rfl, -⟩ := skips
  obtain ⟨ahead, close, scopes, depth⟩ := s
  cases ahead with
  | nil => rfl
  | cons first rest =>
      have kept : (first.kind == .newline) = false := by simpa [current] using token
      simp [pastNewlines, kept]

/-- A line that is continued goes on with a call operator. -/
theorem isOpIn_of_isContinued {s : ParseState} (goesOn : s.isContinued = true) :
    s.continued.current.isOpIn callOperators = true := by
  have dot : s.pastNewlines.current.isOpIn [".", "&."] = true :=
    (Bool.and_eq_true_iff.1 goesOn).2
  rw [continued, if_pos goesOn]
  simp only [Token.isOpIn, Bool.and_eq_true, List.contains_iff_mem] at dot ⊢
  have widened : [".", "&."] ⊆ callOperators := by decide
  exact ⟨dot.1, widened dot.2⟩

theorem continued_eq_self {s : ParseState} (ends : s.isContinued = false) : s.continued = s := by
  simp [continued, ends]

/-- A line that does not go on with a call operator is not continued. -/
theorem isContinued_eq_false {s : ParseState}
    (noCall : s.continued.current.isOpIn callOperators = false) : s.isContinued = false := by
  cases goesOn : s.isContinued with
  | false => rfl
  | true => exact (isOpIn_of_isContinued goesOn).symm.trans noCall

end ParseState

/-- An operator or keyword is neither a line break nor a comment nor the end. -/
theorem Token.kind_of_isWord {token : Token} {word : String} (isWord : token.isWord word = true) :
    token.kind = .op ∨ token.kind = .keyword := by
  simp only [Token.isWord, Bool.and_eq_true, Bool.or_eq_true, beq_iff_eq] at isWord
  exact isWord.2

theorem Token.text_of_isWord {token : Token} {word : String} (isWord : token.isWord word = true) :
    token.text = word := by
  simp only [Token.isWord, Bool.and_eq_true, beq_iff_eq] at isWord
  exact isWord.1

theorem Token.text_of_isOpIn {token : Token} {operators : List String}
    (isOp : token.isOpIn operators = true) : token.text ∈ operators :=
  List.contains_iff_mem.1 (Bool.and_eq_true_iff.1 isOp).2

namespace ParseM

variable {α β : Type} {state after : ParseState}

/-! ## Successful runs

Each lemma says of one way of putting parsers together when its run succeeds, and with what.
-/

section Succeeds

variable {value : α} {first parser : ParseM α} {second : α → ParseM β} {result : α × ParseState}

/-- A run of two parsers in a row is a run of the first and then one of the second. -/
theorem run_bind_ok {result : β × ParseState} :
    (first >>= second).run state = .ok result ↔
      ∃ middle, first.run state = .ok middle ∧
        (second middle.1).run middle.2 = .ok result := by
  rw [StateT.run_bind]
  cases first.run state with
  | error cause => simp [bind, Except.bind]
  | ok middle => simp [bind, Except.bind]

/-- A run without its last state is one with some last state. -/
theorem run'_ok {value : α} :
    parser.run' state = .ok value ↔ ∃ result, parser.run state = .ok result ∧ result.1 = value := by
  change Except.map _ (parser.run state) = .ok value ↔ _
  cases parser.run state with
  | error cause => simp [Except.map]
  | ok result => simp [Except.map]

theorem run'_error {error : ParseError} :
    parser.run' state = .error error ↔ parser.run state = .error error := by
  change Except.map _ (parser.run state) = .error error ↔ _
  cases parser.run state with
  | error cause => simp [Except.map]
  | ok result => simp [Except.map]

theorem run_pure_ok :
    (pure value : ParseM α).run state = .ok result ↔ result = (value, state) :=
  ⟨fun ran => (Except.ok.inj ran).symm, fun same => congrArg _ same.symm⟩

theorem run_ite_ok {condition : Prop} [Decidable condition] {yes no : ParseM α} :
    (if condition then yes else no).run state = .ok result ↔
      (condition ∧ yes.run state = .ok result) ∨ (¬ condition ∧ no.run state = .ok result) := by
  split <;> simp_all

theorem run_throw_ok {error : ParseError} :
    (throw error : ParseM α).run state = .ok result ↔ False :=
  iff_of_false nofun id

theorem run_fail_ok {cause : ParseCause} :
    (fail cause : ParseM α).run state = .ok result ↔ False :=
  iff_of_false nofun id

theorem run_get_ok {result : ParseState × ParseState} :
    (get : ParseM ParseState).run state = .ok result ↔ result = (state, state) :=
  run_pure_ok

theorem run_modify_ok {f : ParseState → ParseState} {result : PUnit × ParseState} :
    (modify f : ParseM PUnit).run state = .ok result ↔ result = (⟨⟩, f state) :=
  run_pure_ok

theorem run_current_ok {result : Token × ParseState} :
    current.run state = .ok result ↔ result = (state.current, state) :=
  run_pure_ok

/-- What is known to be one value, under a condition, is put in its place. -/
theorem exists_and_eq_left {condition : Prop} {p : α → Prop} :
    (∃ other, (condition ∧ other = value) ∧ p other) ↔ condition ∧ p value := by
  simp only [and_assoc, exists_and_left, exists_eq_left]

/-- A token is taken with success exactly where one is ahead. -/
theorem run_advance_ok {result : Token × ParseState} :
    advance.run state = .ok result ↔
      state.ahead ≠ [] ∧ result = (state.current, state.next) := by
  obtain ⟨ahead, close, scopes, depth⟩ := state
  cases ahead with
  | nil => exact iff_of_false nofun (fun taken => taken.1 rfl)
  | cons token rest =>
      exact ⟨fun ran => ⟨nofun, (Except.ok.inj ran).symm⟩, fun taken => congrArg _ taken.2.symm⟩

theorem run_discard_advance_ok {result : Unit × ParseState} :
    (discard advance).run state = .ok result ↔ state.ahead ≠ [] ∧ result = ((), state.next) := by
  obtain ⟨ahead, close, scopes, depth⟩ := state
  cases ahead with
  | nil => exact iff_of_false nofun (fun taken => taken.1 rfl)
  | cons token rest =>
      exact ⟨fun ran => ⟨nofun, (Except.ok.inj ran).symm⟩, fun taken => congrArg _ taken.2.symm⟩

theorem run_isAt_ok {word : String} {result : Bool × ParseState} :
    (isAt word).run state = .ok result ↔ result = (state.current.isWord word, state) :=
  run_pure_ok

theorem run_isAtDo_ok {result : Bool × ParseState} :
    isAtDo.run state = .ok result ↔ result = (state.isAtDo, state) :=
  run_pure_ok

/-- The scopes are changed with success exactly where there is one. -/
theorem run_modifyScopes_ok {change : List (List String) → List (List String)}
    {result : Unit × ParseState} :
    (modifyScopes change).run state = .ok result ↔
      state.scopes ≠ [] ∧ result = ((), { state with scopes := change state.scopes }) := by
  simp only [modifyScopes, run_bind_ok, run_get_ok, run_ite_ok, run_fail_ok, exists_eq_left,
    and_false, false_or, List.isEmpty_iff]
  exact and_congr_right fun _ => run_pure_ok

theorem run_declare_ok {name : String} {result : Unit × ParseState} :
    (declare name).run state = .ok result ↔
      state.scopes ≠ [] ∧ result = ((), state.declaring name) :=
  run_modifyScopes_ok

/-- A word is expected with success exactly where it is next. -/
theorem run_expect_ok {word : String} {result : Unit × ParseState} :
    (expect word).run state = .ok result ↔
      (state.current.isWord word = true ∧ state.ahead ≠ []) ∧ result = ((), state.next) := by
  simp only [expect, run_bind_ok, run_current_ok, run_ite_ok, run_discard_advance_ok, run_fail_ok,
    exists_eq_left, and_false, or_false, and_assoc]

/-- Line breaks are passed with success exactly where no comment follows them. -/
theorem run_skipNewlines_ok {result : Unit × ParseState} :
    skipNewlines.run state = .ok result ↔ state.Skips result.2 := by
  simp only [skipNewlines, run_bind_ok, run_modify_ok, run_current_ok, run_ite_ok, run_fail_ok,
    run_pure_ok, exists_eq_left, and_false, false_or, beq_iff_eq]
  constructor
  · rintro ⟨code, rfl⟩
    exact ⟨rfl, code⟩
  · rintro ⟨passed, code⟩
    rw [passed] at code
    exact ⟨code, Prod.ext rfl passed⟩

/-- A run in a new scope is a run from the opened state, whose scope is closed afterwards. -/
theorem run_inScope_ok :
    (inScope parser).run state = .ok result ↔
      ∃ inner, parser.run state.opened = .ok inner ∧ inner.2.scopes ≠ [] ∧
        result = (inner.1, inner.2.closed) := by
  simp only [inScope, run_bind_ok, run_modify_ok, run_modifyScopes_ok, run_pure_ok,
    exists_eq_left, exists_and_eq_left]
  rfl

/-- A run between delimiters starts at depth zero and gives the depth back. -/
theorem run_delimited_ok :
    (delimited parser).run state = .ok result ↔
      ∃ inner, parser.run (state.atDepth 0) = .ok inner ∧
        result = (inner.1, inner.2.atDepth state.commandDepth) := by
  simp only [delimited, run_bind_ok, run_get_ok, run_modify_ok, run_pure_ok, exists_eq_left]
  rfl

/-- A run as the arguments of a command is one level deeper. -/
theorem run_inCommand_ok :
    (inCommand parser).run state = .ok result ↔
      ∃ inner, parser.run (state.atDepth (state.commandDepth + 1)) = .ok inner ∧
        result = (inner.1, inner.2.atDepth (inner.2.commandDepth - 1)) := by
  simp only [inCommand, run_bind_ok, run_modify_ok, run_pure_ok, exists_eq_left]
  rfl

end Succeeds

/-! ## Loops -/

section Loop

variable {body : α → ParseM (LoopStep α β)} {value next : α} {result : β}

theorem run_loop {result : β × ParseState} :
    (loop body value).run state = .ok result ↔
      (loopWithin body state.ahead value).run state = .ok result := by
  simp only [loop, run_bind_ok, run_get_ok, exists_eq_left]

/-- A loop that may go on is a step and then the loop, or else the last step. -/
theorem run_loopWithin_cons {token : Token} {bound : List Token} {result : β × ParseState} :
    (loopWithin body (token :: bound) value).run state = .ok result ↔
      (∃ next between, (body value).run state = .ok (.again next, between) ∧
        (loopWithin body bound next).run between = .ok result) ∨
      (body value).run state = .ok (.done result.1, result.2) := by
  rw [loopWithin, run_bind_ok]
  constructor
  · rintro ⟨⟨step, between⟩, stepRan, rest⟩
    cases step with
    | again next => exact .inl ⟨next, between, stepRan, rest⟩
    | done final =>
        obtain rfl := run_pure_ok.1 rest
        exact .inr stepRan
  · rintro (⟨next, between, stepRan, rest⟩ | stepRan)
    · exact ⟨_, stepRan, rest⟩
    · exact ⟨_, stepRan, rfl⟩

/-- A loop that may not go on is its last step. -/
theorem run_loopWithin_nil {result : β × ParseState} :
    (loopWithin body [] value).run state = .ok result ↔
      (body value).run state = .ok (.done result.1, result.2) := by
  rw [loopWithin, run_bind_ok]
  constructor
  · rintro ⟨⟨step, between⟩, stepRan, rest⟩
    cases step with
    | again next => exact (run_fail_ok.1 rest).elim
    | done final =>
        obtain rfl := run_pure_ok.1 rest
        exact stepRan
  · intro stepRan
    exact ⟨_, stepRan, rfl⟩

/-- What holds where a body is done, and is carried back over its steps, holds of its loop. -/
theorem loop_induction {motive : α → ParseState → β → ParseState → Prop}
    (done : ∀ {value state result after}, (body value).run state = .ok (.done result, after) →
      motive value state result after)
    (again : ∀ {value state next between result after},
      (body value).run state = .ok (.again next, between) →
      motive next between result after → motive value state result after)
    {result : β × ParseState} (ran : (loop body value).run state = .ok result) :
    motive value state result.1 result.2 := by
  rw [run_loop] at ran
  generalize state.ahead = bound at ran
  induction bound generalizing value state with
  | nil => exact done (run_loopWithin_nil.1 ran)
  | cons token bound ih =>
      obtain ⟨next, between, stepRan, rest⟩ | stepRan := run_loopWithin_cons.1 ran
      · exact again stepRan (ih rest)
      · exact done stepRan

/-- A loop comes to a result if it may take at least as many steps as there are tokens. -/
def LoopsTo (body : α → ParseM (LoopStep α β)) (value : α) (state : ParseState) (result : β)
    (after : ParseState) : Prop :=
  ∀ bound : List Token, state.ahead.length ≤ bound.length →
    (loopWithin body bound value).run state = .ok (result, after)

theorem LoopsTo.run (loops : LoopsTo body value state result after) :
    (loop body value).run state = .ok (result, after) :=
  run_loop.2 (loops state.ahead (Nat.le_refl _))

theorem LoopsTo.done (step : (body value).run state = .ok (.done result, after)) :
    LoopsTo body value state result after := by
  intro bound _
  cases bound with
  | nil => exact run_loopWithin_nil.2 step
  | cons token bound => exact run_loopWithin_cons.2 (.inr step)

/-- A step that takes a token, and then a loop that comes to a result. -/
theorem LoopsTo.again {between : ParseState}
    (step : (body value).run state = .ok (.again next, between))
    (takes : between.ahead.length < state.ahead.length)
    (loops : LoopsTo body next between result after) :
    LoopsTo body value state result after := by
  intro bound enough
  cases bound with
  | nil => exact absurd takes (by simp at enough; simp [enough])
  | cons token bound =>
      have left : between.ahead.length ≤ bound.length := by
        simp only [List.length_cons] at enough
        omega
      exact run_loopWithin_cons.2 (.inl ⟨next, between, step, loops bound left⟩)

end Loop

end ParseM

end RubyFormat
