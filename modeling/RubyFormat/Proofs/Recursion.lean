import RubyFormat.Proofs.Loops

/-!
# The turns of the recursion

The grammar comes back to itself in two ways: a loop goes on, or a parser turns to the rules one
level deeper.  Either way a token has been taken since.  So two sets of rules that agree where fewer
tokens than a bound are ahead make parsers that agree where one token more is ahead, whatever the
rules do elsewhere; and an error of these parsers is one that the rules make there, or it lies in
the source.  This is shown parser by parser, in the order in which each of them works; what a part
has read is known from the grammar.
-/

namespace RubyFormat

open ParseState

/-- The permitted errors cover all that lie in the source: an error for any cause but the bounds of
the parser at any token, and the one for a symbol without a name. -/
structure ParseError.Covers (tokens : List Token) (permitted : ParseError → Prop) : Prop where
  source {cause : ParseCause} {token : Token} :
    token ∈ tokens → cause ≠ .exhausted → cause ≠ .outOfRange → permitted ⟨cause, token.pos⟩
  unnamed {token : Token} :
    token ∈ tokens → token.kind = .symbol → token.text.isEmpty = true →
      permitted ⟨.outOfRange, token.pos⟩

/-- A state between the tokens of a source, with a scope and with fewer tokens ahead than the bound,
where all errors that lie in the source are permitted. -/
structure ParseState.Within (permitted : ParseError → Prop) (tokens : List Token) (bound : Nat)
    (s : ParseState) : Prop where
  eof : s.close.kind = .eof
  closeMem : s.close ∈ tokens
  aheadMem : s.ahead ⊆ tokens
  hasScope : s.scopes ≠ []
  short : s.ahead.length < bound
  covers : ParseError.Covers tokens permitted

namespace ParseState.Within

variable {permitted : ParseError → Prop} {tokens : List Token} {bound : Nat} {s s₁ : ParseState}

theorem of_moves (within : s.Within permitted tokens bound) (moves : s.Moves s₁) :
    s₁.Within permitted tokens bound where
  eof := moves.eof within.eof
  closeMem := moves.close ▸ within.closeMem
  aheadMem := fun _ mem => within.aheadMem (moves.ahead.mem mem)
  hasScope := by
    rw [← List.length_pos_iff, moves.scopes, List.length_pos_iff]
    exact within.hasScope
  short := Nat.lt_of_le_of_lt moves.length_le within.short
  covers := within.covers

/-- Behind the next token the state is still between the tokens. -/
theorem past (within : s.Within permitted tokens bound) : s.next.Within permitted tokens bound :=
  within.of_moves (.next s)

theorem skips (within : s.Within permitted tokens bound) (passed : s.Skips s₁) :
    s₁.Within permitted tokens bound :=
  within.of_moves (.skips passed)

/-- Behind a token that is taken the bound is smaller. -/
theorem of_takes (within : s.Within permitted tokens (bound + 1)) (taken : s.Takes s₁) :
    s₁.Within permitted tokens bound :=
  { within.of_moves taken.moves with
    short := Nat.lt_of_lt_of_le taken.fewer (Nat.le_of_lt_succ within.short) }

theorem next (within : s.Within permitted tokens (bound + 1)) (there : s.ahead ≠ []) :
    s.next.Within permitted tokens bound :=
  within.of_takes (.next there)

theorem opened (within : s.Within permitted tokens bound) :
    s.opened.Within permitted tokens bound :=
  { within with hasScope := nofun }

theorem atDepth (within : s.Within permitted tokens bound) (depth : Nat) :
    (s.atDepth depth).Within permitted tokens bound :=
  { within with }

theorem current_mem (within : s.Within permitted tokens bound) : s.current ∈ tokens := by
  have aheadMem := within.aheadMem
  unfold current
  cases ahead : s.ahead with
  | nil => exact within.closeMem
  | cons token rest =>
      rw [ahead] at aheadMem
      exact aheadMem List.mem_cons_self

/-- A parse starts between the tokens of its list. -/
theorem start {tokens : Tokens} (close : tokens.close.kind = .eof)
    (covers : ParseError.Covers tokens.toList permitted) :
    (ParseState.start tokens).Within permitted tokens.toList (tokens.body.length + 1) where
  eof := close
  closeMem := by simp [Tokens.toList, ParseState.start]
  aheadMem := by simp [Tokens.toList, ParseState.start]
  hasScope := List.cons_ne_nil _ _
  short := Nat.lt_succ_self _
  covers := covers

/-- What a rule reads leads to another state between the tokens. -/
theorem reads {rule : Rule} {field : Field Node} (within : s.Within permitted tokens bound)
    (reads : Reads rule s field s₁) : s₁.Within permitted tokens bound :=
  within.of_moves reads.moves

theorem taking {rule : Rule} {field : Field Node} (within : s.Within permitted tokens (bound + 1))
    (reads : Reads rule s field s₁) (takes : rule.takes = true) :
    s₁.Within permitted tokens bound :=
  within.of_takes (.reads reads within.eof takes)

end ParseState.Within

namespace ParseM

variable {α β : Type}

/-! ## Parsers that agree -/

/-- In a state, two parsers give the same answer, and an error only if it is permitted. -/
structure AgreeAt (permitted : ParseError → Prop) (s : ParseState) (parser other : ParseM α) :
    Prop where
  same : parser.run s = other.run s
  permits : ∀ error, parser.run s = .error error → permitted error

namespace AgreeAt

variable {permitted : ParseError → Prop} {tokens : List Token} {bound : Nat} {s s₁ : ParseState}
  {parser other : ParseM α} {second second' : α → ParseM β} {word : String}

theorem bind (first : AgreeAt permitted s parser other)
    (rest : ∀ {r}, parser.run s = .ok r → AgreeAt permitted r.2 (second r.1) (second' r.1)) :
    AgreeAt permitted s (parser >>= second) (other >>= second') := by
  cases result : parser.run s with
  | error cause =>
      have refused : (parser >>= second).run s = .error cause := by
        rw [StateT.run_bind, result]
        rfl
      refine ⟨?_, fun error ran => ?_⟩
      · rw [refused, StateT.run_bind, ← first.same, result]
        rfl
      · rw [refused] at ran
        cases ran
        exact first.permits _ result
  | ok r =>
      have goesOn : (parser >>= second).run s = (second r.1).run r.2 := by
        rw [StateT.run_bind, result]
        rfl
      refine ⟨?_, fun error ran => (rest result).permits error (goesOn ▸ ran)⟩
      rw [goesOn, StateT.run_bind, ← first.same, result]
      exact (rest result).same

theorem pure (value : α) (s : ParseState) : AgreeAt permitted s (pure value) (pure value) :=
  ⟨rfl, nofun⟩

/-- Parsers whose result is only wrapped up. -/
theorem map {wrap : α → β} (first : AgreeAt permitted s parser other) :
    AgreeAt permitted s (parser >>= fun value => Pure.pure (wrap value))
      (other >>= fun value => Pure.pure (wrap value)) :=
  bind first fun _ => pure _ _

theorem pure_bind {value : α} (rest : AgreeAt permitted s (second value) (second' value)) :
    AgreeAt permitted s ((Pure.pure value : ParseM α) >>= second)
      ((Pure.pure value : ParseM α) >>= second') :=
  bind (pure value s) fun ran => by
    obtain rfl := run_pure_ok.1 ran
    exact rest

theorem ite {condition : Prop} [Decidable condition] {yes no yes' no' : ParseM α}
    (holds : condition → AgreeAt permitted s yes yes')
    (fails : ¬ condition → AgreeAt permitted s no no') :
    AgreeAt permitted s (if condition then yes else no) (if condition then yes' else no') := by
  by_cases here : condition
  · rw [if_pos here, if_pos here]
    exact holds here
  · rw [if_neg here, if_neg here]
    exact fails here

/-- A choice by the word that is next. -/
theorem isAt {second second' : Bool → ParseM β}
    (rest : AgreeAt permitted s (second (s.current.isWord word))
      (second' (s.current.isWord word))) :
    AgreeAt permitted s (isAt word >>= second) (isAt word >>= second') :=
  bind ⟨rfl, nofun⟩ fun ran => by
    obtain rfl := run_isAt_ok.1 ran
    exact rest

theorem isAtDo {second second' : Bool → ParseM β}
    (rest : AgreeAt permitted s (second s.isAtDo) (second' s.isAtDo)) :
    AgreeAt permitted s (isAtDo >>= second) (isAtDo >>= second') :=
  bind ⟨rfl, nofun⟩ fun ran => by
    obtain rfl := run_isAtDo_ok.1 ran
    exact rest

theorem current {second second' : Token → ParseM β}
    (rest : AgreeAt permitted s (second s.current) (second' s.current)) :
    AgreeAt permitted s (current >>= second) (current >>= second') :=
  bind ⟨rfl, nofun⟩ fun ran => by
    obtain rfl := run_current_ok.1 ran
    exact rest

theorem get {second second' : ParseState → ParseM β}
    (rest : AgreeAt permitted s (second s) (second' s)) :
    AgreeAt permitted s (MonadState.get >>= second) (MonadState.get >>= second') :=
  bind ⟨rfl, nofun⟩ fun ran => by
    obtain rfl := run_get_ok.1 ran
    exact rest

theorem modify {f : ParseState → ParseState} {second second' : PUnit → ParseM β}
    (rest : AgreeAt permitted (f s) (second ⟨⟩) (second' ⟨⟩)) :
    AgreeAt permitted s ((modify f : ParseM PUnit) >>= second)
      ((modify f : ParseM PUnit) >>= second') :=
  bind ⟨rfl, nofun⟩ fun ran => by
    obtain rfl := run_modify_ok.1 ran
    exact rest

theorem advance {second second' : Token → ParseM β} (there : s.ahead ≠ [])
    (rest : AgreeAt permitted s.next (second s.current) (second' s.current)) :
    AgreeAt permitted s (advance >>= second) (advance >>= second') := by
  refine bind ⟨rfl, fun error ran => ?_⟩ fun ran => ?_
  · rw [run_advance_ok.2 ⟨there, rfl⟩] at ran
    cases ran
  · obtain ⟨-, rfl⟩ := run_advance_ok.1 ran
    exact rest

theorem discard_advance (there : s.ahead ≠ []) :
    AgreeAt permitted s (discard ParseM.advance) (discard ParseM.advance) := by
  refine ⟨rfl, fun error ran => ?_⟩
  rw [run_discard_advance_ok.2 ⟨there, rfl⟩] at ran
  cases ran

/-- The next token is taken. -/
theorem take {second second' : Unit → ParseM β} (there : s.ahead ≠ [])
    (rest : AgreeAt permitted s.next (second ()) (second' ())) :
    AgreeAt permitted s (discard ParseM.advance >>= second)
      (discard ParseM.advance >>= second') :=
  bind (discard_advance there) fun ran => by
    obtain ⟨-, rfl⟩ := run_discard_advance_ok.1 ran
    exact rest

theorem modifyScopes {change : List (List String) → List (List String)}
    (hasScope : s.scopes ≠ []) :
    AgreeAt permitted s (modifyScopes change) (modifyScopes change) := by
  refine ⟨rfl, fun error ran => ?_⟩
  rw [run_modifyScopes_ok.2 ⟨hasScope, rfl⟩] at ran
  cases ran

theorem declare {name : String} {second second' : Unit → ParseM β} (hasScope : s.scopes ≠ [])
    (rest : AgreeAt permitted (s.declaring name) (second ()) (second' ())) :
    AgreeAt permitted s (declare name >>= second) (declare name >>= second') :=
  bind (modifyScopes hasScope) fun ran => by
    obtain ⟨-, rfl⟩ := run_declare_ok.1 ran
    exact rest

theorem inScope (inner : AgreeAt permitted s.opened parser other)
    (moves : ∀ {r}, parser.run s.opened = .ok r → s.opened.Moves r.2) :
    AgreeAt permitted s (inScope parser) (inScope other) := by
  refine modify (bind inner fun ran => bind (AgreeAt.modifyScopes ?_) fun _ => pure _ _)
  rw [← List.length_pos_iff, (moves ran).scopes]
  exact Nat.succ_pos _

theorem delimited (inner : AgreeAt permitted (s.atDepth 0) parser other) :
    AgreeAt permitted s (delimited parser) (delimited other) :=
  get (modify (bind inner fun _ => modify (pure _ _)))

theorem inCommand (inner : AgreeAt permitted (s.atDepth (s.commandDepth + 1)) parser other) :
    AgreeAt permitted s (inCommand parser) (inCommand other) :=
  modify (bind inner fun _ => modify (pure _ _))

/-! ### Errors that lie in the source -/

/-- An error for the next token lies in the source, unless its cause is a bound. -/
theorem fail {cause : ParseCause} (within : s.Within permitted tokens bound)
    (inDepth : cause ≠ .exhausted) (inRange : cause ≠ .outOfRange) :
    AgreeAt permitted s (fail cause : ParseM α) (fail cause) := by
  refine ⟨rfl, fun error ran => ?_⟩
  cases ran
  exact within.covers.source within.current_mem inDepth inRange

theorem expect {second second' : Unit → ParseM β} (within : s.Within permitted tokens bound)
    (rest : s.current.isWord word = true → AgreeAt permitted s.next (second ()) (second' ())) :
    AgreeAt permitted s (expect word >>= second) (expect word >>= second') := by
  refine bind (current (ite (fun isWord => ?_) fun _ => fail within nofun nofun)) fun ran => ?_
  · exact discard_advance (ahead_of_isWord within.eof isWord)
  · obtain ⟨⟨isWord, -⟩, rfl⟩ := run_expect_ok.1 ran
    exact rest isWord

theorem skipNewlines (within : s.Within permitted tokens bound) :
    AgreeAt permitted s skipNewlines skipNewlines :=
  modify (current (ite (fun _ => fail (within.of_moves (.pastNewlines s)) nofun nofun)
    fun _ => pure _ _))

theorem skip {second second' : Unit → ParseM β} (within : s.Within permitted tokens bound)
    (rest : ∀ {s₁}, s.Skips s₁ → AgreeAt permitted s₁ (second ()) (second' ())) :
    AgreeAt permitted s (ParseM.skipNewlines >>= second) (ParseM.skipNewlines >>= second') :=
  bind (skipNewlines within) fun ran => rest (run_skipNewlines_ok.1 ran)

/-! ### Loops -/

/-- Loops agree if their bodies do and take a token whenever they ask to go on; the bound on the
number of steps is not reached. -/
theorem loop {body body' : α → ParseM (LoopStep α β)} {value : α}
    (within : s.Within permitted tokens bound) (advances : Advances body)
    (step : ∀ {value s}, s.Within permitted tokens bound →
      AgreeAt permitted s (body value) (body' value)) :
    AgreeAt permitted s (loop body value) (loop body' value) := by
  suffices enough : ∀ steps : List Token, s.ahead.length ≤ steps.length →
      AgreeAt permitted s (loopWithin body steps value) (loopWithin body' steps value) from
    get (enough s.ahead (Nat.le_refl _))
  intro steps
  induction steps generalizing value s with
  | nil =>
      intro none
      refine bind (step within) fun {r} ran => ?_
      obtain ⟨next | result, s₁⟩ := r
      · exact absurd (advances.takes within.eof ran).fewer (by simp at none; simp [none])
      · exact pure _ _
  | cons token steps ih =>
      intro enough
      refine bind (step within) fun {r} ran => ?_
      obtain ⟨next | result, s₁⟩ := r
      · have taken := advances.takes within.eof ran
        have fewer : s₁.ahead.length ≤ steps.length := by
          have less := taken.fewer
          simp only [List.length_cons] at enough
          omega
        exact ih (within.of_moves taken.moves) fewer
      · exact pure _ _

/-- Items with commas between them. -/
theorem commaList {item item' : ParseM Node} {closes : ParseM Bool} {closer : Option String}
    (within : s.Within permitted tokens bound)
    (closing : ∀ s, closes.run s = .ok (s.closes closer, s))
    (step : ∀ {s}, s.Within permitted tokens bound → AgreeAt permitted s item item')
    (takes : Takes item) :
    AgreeAt permitted s (commaList item closes) (commaList item' closes) := by
  refine loop within (advances_commaStep closing takes) fun within => ?_
  refine bind (step within) fun ran => isAt (ite (fun comma => ?_) fun _ => pure _ _)
  have behind := within.of_moves (takes _ _ within.eof ran).moves
  refine take (ahead_of_isWord behind.eof comma) (skip behind.past fun {s₁} skips => ?_)
  refine bind ⟨rfl, fun error ran => ?_⟩ fun _ => ite (fun _ => pure _ _) fun _ => pure _ _
  rw [closing s₁] at ran
  cases ran

/-- Items up to a closing word. -/
theorem closedList {item item' : ParseM Node} {closer : String}
    (within : s.Within permitted tokens bound)
    (step : ∀ {s}, s.Within permitted tokens bound → AgreeAt permitted s item item')
    (takes : Takes item) :
    AgreeAt permitted s (closedList item closer) (closedList item' closer) := by
  have advances : Advances (closedStep item closer) := advances_closedStep takes
  refine skip within fun skips => bind (loop (within.skips skips) advances ?_) fun ran =>
    expect ((within.skips skips).of_moves (advances.moves (within.skips skips).eof ran))
      fun _ => pure _ _
  intro done s within
  refine isAt (ite (fun _ => pure _ _) fun _ => bind (step within) fun ran => ?_)
  have behind := within.of_moves (takes _ _ within.eof ran).moves
  refine skip behind fun skips => isAt (ite (fun comma => ?_) fun _ => pure _ _)
  have passed := behind.skips skips
  exact take (ahead_of_isWord passed.eof comma) (skip passed.past fun _ => pure _ _)

end AgreeAt

end ParseM

open ParseM

/-- The rules one level deeper are sound, and where fewer tokens are ahead than the bound they agree
with other rules and make permitted errors only. -/
structure Rules.AgreeBelow (permitted : ParseError → Prop) (tokens : List Token) (bound : Nat)
    (rules other : Rules) : Prop where
  sound : rules.Sound
  stmts {words : List String} {s : ParseState} :
    s.Within permitted tokens bound → AgreeAt permitted s (rules.stmts words) (other.stmts words)
  stmt {s : ParseState} :
    s.Within permitted tokens bound → AgreeAt permitted s rules.stmt other.stmt
  value {s : ParseState} :
    s.Within permitted tokens bound → AgreeAt permitted s rules.value other.value
  negated {s : ParseState} :
    s.Within permitted tokens bound → AgreeAt permitted s rules.negated other.negated
  range {s : ParseState} :
    s.Within permitted tokens bound → AgreeAt permitted s rules.range other.range
  conjunction {s : ParseState} :
    s.Within permitted tokens bound → AgreeAt permitted s rules.conjunction other.conjunction
  minus {s : ParseState} :
    s.Within permitted tokens bound → AgreeAt permitted s rules.minus other.minus
  unary {s : ParseState} :
    s.Within permitted tokens bound → AgreeAt permitted s rules.unary other.unary
  primary {s : ParseState} :
    s.Within permitted tokens bound → AgreeAt permitted s rules.primary other.primary

namespace Parse

variable {permitted : ParseError → Prop} {tokens : List Token} {bound : Nat} {rules other : Rules}
  {s : ParseState}

/-! ## Parsers that turn to no rules -/

theorem agree_paramName (within : s.Within permitted tokens bound) :
    AgreeAt permitted s paramName paramName := by
  refine .current (.ite (fun named => ?_) fun _ => .fail within nofun nofun)
  have taken : s.ahead ≠ [] := ahead_ne_nil within.eof (by simp_all)
  exact .take taken (.declare within.past.hasScope (.pure _ _))

theorem agree_paramName? (within : s.Within permitted tokens bound) :
    AgreeAt permitted s paramName? paramName? :=
  .current (.ite (fun _ => .map (agree_paramName within)) fun _ => .pure _ _)

theorem agree_target {expr : Node} (within : s.Within permitted tokens bound)
    (placed : ∃ token ∈ tokens, expr.pos = token.pos) :
    AgreeAt permitted s (target expr) (target expr) := by
  obtain ⟨token, mem, pos⟩ := placed
  have atTarget {cause : ParseCause} (inDepth : cause ≠ .exhausted)
      (inRange : cause ≠ .outOfRange) : permitted ⟨cause, expr.pos⟩ :=
    pos ▸ within.covers.source mem inDepth inRange
  unfold target
  split
  case h_1 => exact .declare within.hasScope (.pure _ _)
  case h_2 | h_7 =>
    refine ⟨rfl, fun error ran => ?_⟩
    cases ran
    exact atTarget nofun nofun
  all_goals exact .pure _ _

/-- A target is made, the operator behind it is taken and the line goes on. -/
theorem agree_onTarget {expr : Node} {rest rest' : Node → ParseM Node}
    (within : s.Within permitted tokens bound) (placed : ∃ token ∈ tokens, expr.pos = token.pos)
    (there : s.ahead ≠ [])
    (step : ∀ {left s}, s.Within permitted tokens bound →
      AgreeAt permitted s (rest left) (rest' left)) :
    AgreeAt permitted s
      (do let left ← target expr; discard advance; skipNewlines; rest left)
      (do let left ← target expr; discard advance; skipNewlines; rest' left) := by
  refine .bind (agree_target within placed) fun ran => ?_
  have made := within.of_moves (.target ran)
  rw [← ahead_of_target ran] at there
  exact .take there (.skip made.past fun skips => step (made.past.skips skips))

theorem agree_skipThen (within : s.Within permitted tokens bound) :
    AgreeAt permitted s skipThen skipThen :=
  .isAt (.ite (fun word => .discard_advance (ahead_of_isWord within.eof word)) fun _ => .pure _ _)

theorem agree_leaf {node : Node} (there : s.ahead ≠ []) :
    AgreeAt permitted s (leaf node) (leaf node) :=
  .take there (.pure _ _)

theorem agree_message (within : s.Within permitted tokens bound) (operator : String) :
    AgreeAt permitted s (message operator) (message operator) := by
  have there {kind : TokenKind} (isKind : s.current.kind = kind) (noEnd : kind ≠ .eof) :
      s.ahead ≠ [] :=
    ahead_ne_nil within.eof (isKind ▸ noEnd)
  refine .current ?_
  split
  case h_1 kind | h_2 kind | h_3 kind => exact agree_leaf (there kind nofun)
  case h_4 kind =>
    exact .ite (fun _ => agree_leaf (there kind nofun)) fun _ => .fail within nofun nofun
  case h_5 => exact .fail within nofun nofun

theorem agree_continueLine (within : s.Within permitted tokens bound) :
    AgreeAt permitted s continueLine continueLine :=
  .get (.ite (fun _ => .skipNewlines within) fun _ => .pure _ _)

theorem agree_operation {item item' : ParseM Node} {left : Node}
    (within : s.Within permitted tokens bound) (there : s.ahead ≠ [])
    (step : ∀ {s}, s.Within permitted tokens bound → AgreeAt permitted s item item') :
    AgreeAt permitted s (operation item left) (operation item' left) :=
  .advance there (.skip within.past fun skips => .map (step (within.past.skips skips)))

section Levels

variable (agree : rules.AgreeBelow permitted tokens bound other)
include agree

/-! ## Arguments and collections -/

theorem agree_argument (within : s.Within permitted tokens bound) :
    AgreeAt permitted s (argument rules) (argument other) := by
  have there {word : String} (isWord : s.current.isWord word = true) : s.ahead ≠ [] :=
    ahead_of_isWord within.eof isWord
  refine .current (.ite (fun star => ?_) fun _ => ?_)
  · exact .take (there star) (.map (agree.range within.past))
  refine .ite (fun stars => .take (there stars) (.map (agree.range within.past))) fun _ => ?_
  refine .ite (fun mark => .take (there mark) (.current ?_)) fun _ => ?_
  · exact .ite (fun _ => .pure _ _) fun _ => .map (agree.range within.past)
  refine .ite (fun label => ?_) fun _ => ?_
  · have taken : s.ahead ≠ [] := ahead_ne_nil within.eof (by simp_all)
    exact .take taken
      (.skip within.past fun skips => .map (agree.negated (within.past.skips skips)))
  refine .bind (agree.negated within) fun ran => .isAt (.ite (fun arrow => ?_) fun _ => .pure _ _)
  have behind := within.reads (agree.sound.negated ran)
  exact .take (ahead_of_isWord behind.eof arrow)
    (.skip behind.past fun skips => .map (agree.negated (behind.past.skips skips)))

theorem agree_arguments (within : s.Within permitted tokens bound)
    (closer : Option String) :
    AgreeAt permitted s (arguments rules closer) (arguments other closer) := by
  refine .current (.map (.commaList within (fun s => (?_ : _ = Except.ok (s.closes closer, s)))
    (agree_argument agree) (.of_reads rfl (Reads.of_argument agree.sound))))
  cases closer <;> rfl

theorem agree_parenArguments (within : s.Within permitted tokens bound) :
    AgreeAt permitted s (parenArguments rules) (parenArguments other) := by
  refine .current (.expect within fun opening => .map (.delimited ?_))
  have inside := within.past.atDepth 0
  refine .skip inside fun skips => .isAt (.ite (fun closing => ?_) fun _ => ?_)
  · exact .take (ahead_of_isWord (inside.skips skips).eof closing) (.pure _ _)
  · refine .bind (agree_arguments agree (inside.skips skips) (some ")")) fun ran => ?_
    have behind := (inside.skips skips).reads (Reads.of_arguments agree.sound ran)
    exact .skip behind fun skips => .expect (behind.skips skips) fun _ => .pure _ _

theorem agree_indexArguments (within : s.Within permitted tokens bound) :
    AgreeAt permitted s (indexArguments rules) (indexArguments other) := by
  refine .expect within fun opening => .skip within.past fun skips => ?_
  have inside := within.past.skips skips
  have rest {args : Option Node} {s₁ : ParseState} (behind : s₁.Within permitted tokens bound) :
      AgreeAt permitted s₁ (do skipNewlines; expect "]"; return args)
        (do skipNewlines; expect "]"; return args) :=
    .skip behind fun skips => .expect (behind.skips skips) fun _ => .pure _ _
  refine .isAt (.ite (fun _ => .pure_bind (rest inside)) fun _ => ?_)
  refine .bind (agree_arguments agree inside (some "]")) fun ran => .pure_bind (rest ?_)
  exact inside.reads (Reads.of_arguments agree.sound ran)

theorem agree_element (within : s.Within permitted tokens bound) :
    AgreeAt permitted s (element rules) (element other) := by
  refine .current (.ite (fun star => ?_) fun _ => agree.negated within)
  exact .take (ahead_of_isWord within.eof star) (.map (agree.range within.past))

theorem agree_entry (within : s.Within permitted tokens bound) :
    AgreeAt permitted s (entry rules) (entry other) := by
  refine .current (.ite (fun stars => ?_) fun _ => .ite (fun label => ?_) fun _ => ?_)
  · exact .take (ahead_of_isWord within.eof stars) (.map (agree.range within.past))
  · have taken : s.ahead ≠ [] := ahead_ne_nil within.eof (by simp_all)
    exact .take taken
      (.skip within.past fun skips => .map (agree.negated (within.past.skips skips)))
  · refine .bind (agree.negated within) fun ran => ?_
    have behind := within.reads (agree.sound.negated ran)
    refine .skip behind fun skips => .expect (behind.skips skips) fun _ => ?_
    have past := (behind.skips skips).past
    exact .skip past fun skips => .map (agree.negated (past.skips skips))

/-! ## Parameters -/

theorem agree_param (within : s.Within permitted tokens bound)
    (closer : String) (list : ParamList) :
    AgreeAt permitted s (param rules closer list) (param other closer list) := by
  have there {word : String} (isWord : s.current.isWord word = true) : s.ahead ≠ [] :=
    ahead_of_isWord within.eof isWord
  refine .current (.ite (fun star => ?_) fun _ => .ite (fun stars => ?_) fun _ =>
    .ite (fun mark => ?_) fun _ => .ite (fun label => ?_) fun _ => .ite (fun named => ?_) fun _ =>
    ?_)
  · exact .take (there star) (.map (agree_paramName? within.past))
  · exact .take (there stars) (.map (agree_paramName? within.past))
  · exact .take (there mark) (.map (agree_paramName within.past))
  · have taken : s.ahead ≠ [] := ahead_ne_nil within.eof (by simp_all)
    refine .take taken (.declare within.past.hasScope (.current ?_))
    have behind := within.past.of_moves
      (.declaring (String.ofList s.current.text.toList.dropLast) _)
    refine .ite (fun _ => .pure_bind (.pure _ _)) fun _ => ?_
    exact .bind (agree.conjunction behind) fun _ => .pure_bind (.pure _ _)
  · refine .bind (agree_paramName within) fun ran => ?_
    obtain ⟨-, rfl⟩ := run_paramName_ok.1 ran
    have behind := within.past.of_moves (.declaring s.current.text _)
    refine .isAt (.ite (fun equals => ?_) fun _ => .pure _ _)
    exact .take (ahead_of_isWord behind.eof equals) (.map (agree.conjunction behind.past))
  · exact .fail within nofun nofun

theorem agree_params (within : s.Within permitted tokens bound)
    (closer : String) : AgreeAt permitted s (params rules closer) (params other closer) := by
  refine .current (.skip within fun skips => .map
    (.loop (within.skips skips) (advances_paramStep agree.sound closer) fun {list s} within => ?_))
  refine .isAt (.ite (fun _ => .pure _ _) fun _ => .bind (agree_param agree within closer list) ?_)
  intro r ran
  obtain ⟨param, -, read⟩ := Reads.of_param agree.sound ran
  have behind := within.reads read
  refine .skip behind fun skips => .isAt (.ite (fun comma => ?_) fun _ => .pure _ _)
  have passed := behind.skips skips
  refine .advance (ahead_of_isWord passed.eof comma) (.skip passed.past fun skips => .current ?_)
  refine .ite (fun _ => .ite (fun _ => .pure _ _) fun _ => ?_) fun _ => .pure _ _
  exact .fail (passed.past.skips skips) nofun nofun

/-! ## Blocks and lambdas -/

theorem agree_blockVar (within : s.Within permitted tokens bound) :
    AgreeAt permitted s (blockVar rules) (blockVar other) := by
  refine .current (.ite (fun bars => ?_) fun _ => .ite (fun bar => ?_) fun _ => .pure _ _)
  · exact .take (ahead_of_isWord within.eof bars) (.pure _ _)
  · refine .take (ahead_of_isWord within.eof bar) (.bind (agree_params agree within.past "|") ?_)
    intro r ran
    exact .expect (within.past.reads (Reads.of_params agree.sound ran)) fun _ => .pure _ _

theorem agree_braceBlock (within : s.Within permitted tokens bound) :
    AgreeAt permitted s (braceBlock rules) (braceBlock other) := by
  refine .current (.expect within fun opening => .delimited (.inScope ?_ ?_))
  · have inside := (within.past.atDepth 0).opened
    refine .skip inside fun skips => .bind (agree_blockVar agree (inside.skips skips)) fun ran => ?_
    have behind := (inside.skips skips).reads (Reads.of_blockVar agree.sound ran)
    refine .bind (agree.stmts behind) fun ran => ?_
    exact .expect (behind.reads (agree.sound.stmts ran)) fun _ => .pure _ _
  · intro r ran
    simp only [run_bind_ok, run_skipNewlines_ok, run_expect_ok, run_pure_ok,
      exists_and_eq_left] at ran
    obtain ⟨passed, skips, vars, readVars, body, readBody, -, rfl⟩ := ran
    exact (Moves.skips skips).trans ((Reads.of_blockVar agree.sound readVars).moves.trans
      ((agree.sound.stmts readBody).moves.trans (.next _)))

theorem agree_exceptions (within : s.Within permitted tokens bound) :
    AgreeAt permitted s (exceptions rules) (exceptions other) :=
  .current (.ite (fun _ => .pure _ _) fun _ =>
    .commaList within run_closes_none agree.range (.of_reads rfl agree.sound.range))

theorem agree_holder (within : s.Within permitted tokens bound) :
    AgreeAt permitted s (holder rules) (holder other) := by
  refine .isAt (.ite (fun arrow => ?_) fun _ => .pure _ _)
  refine .take (ahead_of_isWord within.eof arrow) (.bind (agree.primary within.past) fun ran => ?_)
  have read := agree.sound.primary ran
  have placed : ∃ token ∈ tokens, Node.pos _ = token.pos :=
    ⟨_, within.past.current_mem, read.pos_eq rfl _ rfl⟩
  exact .map (agree_target (within.past.reads read) placed)

theorem agree_rescueChain (within : s.Within permitted tokens bound) :
    AgreeAt permitted s (rescueChain rules) (rescueChain other) := by
  refine .map (.loop within (advances_rescueStep agree.sound) fun within => ?_)
  refine .isAt (.ite (fun _ => .map ?_) fun _ => .pure _ _)
  refine .current (.expect within fun word => .bind (agree_exceptions agree within.past) ?_)
  intro r ran
  have behind := within.past.reads (Reads.of_exceptions agree.sound ran)
  refine .bind (agree_holder agree behind) fun ran => ?_
  have held := behind.reads (Reads.of_holder agree.sound ran)
  refine .bind (agree_skipThen held) fun ran => ?_
  obtain ⟨-, rfl⟩ := run_skipThen_ok.1 ran
  exact .map (agree.stmts (held.of_moves (.pastThen _)))

theorem agree_clause (within : s.Within permitted tokens bound)
    (word : String) (words : List String) :
    AgreeAt permitted s (clause rules word words) (clause other word words) := by
  refine .isAt (.ite (fun there => ?_) fun _ => .pure _ _)
  exact .take (ahead_of_isWord within.eof there) (.map (agree.stmts within.past))

theorem agree_bodyStmt (within : s.Within permitted tokens bound) :
    AgreeAt permitted s (bodyStmt rules) (bodyStmt other) := by
  refine .current (.bind (agree.stmts within) fun ran => ?_)
  have behind := within.reads (agree.sound.stmts ran)
  refine .bind (agree_rescueChain agree behind) fun ran => ?_
  have rescued := behind.reads (Reads.of_rescueChain agree.sound ran)
  refine .bind (agree_clause agree rescued "else" ["ensure", "end"]) fun ran => ?_
  exact .map (agree_clause agree (rescued.reads (Reads.of_clause agree.sound ran)) "ensure" ["end"])

theorem agree_doBlock (within : s.Within permitted tokens bound) :
    AgreeAt permitted s (doBlock rules) (doBlock other) := by
  refine .current (.expect within fun opening => .delimited (.inScope ?_ ?_))
  · have inside := (within.past.atDepth 0).opened
    refine .bind (agree_blockVar agree inside) fun ran => ?_
    have behind := inside.reads (Reads.of_blockVar agree.sound ran)
    refine .bind (agree_bodyStmt agree behind) fun ran => ?_
    exact .expect (behind.reads (Reads.of_bodyStmt agree.sound ran)) fun _ => .pure _ _
  · intro r ran
    simp only [run_bind_ok, run_expect_ok, run_pure_ok, exists_and_eq_left] at ran
    obtain ⟨vars, readVars, body, readBody, -, rfl⟩ := ran
    exact (Reads.of_blockVar agree.sound readVars).moves.trans
      ((Reads.of_bodyStmt agree.sound readBody).moves.trans (.next _))

theorem agree_withBlock (within : s.Within permitted tokens bound)
    (call : Node) : AgreeAt permitted s (withBlock rules call) (withBlock other call) := by
  refine .isAt (.ite (fun _ => .map (agree_braceBlock agree within)) fun _ => .isAtDo ?_)
  exact .ite (fun _ => .map (agree_doBlock agree within)) fun _ => .pure _ _

theorem agree_lambdaParams (within : s.Within permitted tokens bound) :
    AgreeAt permitted s (lambdaParams rules) (lambdaParams other) := by
  refine .current (.ite (fun paren => ?_) fun _ => .ite (fun _ => .pure _ _) fun _ => ?_)
  · refine .take (ahead_of_isWord within.eof paren) (.bind (agree_params agree within.past ")") ?_)
    intro r ran
    exact .expect (within.past.reads (Reads.of_params agree.sound ran)) fun _ => .pure _ _
  · exact .map (agree_params agree within "\x7b")

theorem agree_lambdaBody (within : s.Within permitted tokens bound) :
    AgreeAt permitted s (lambdaBody rules) (lambdaBody other) := by
  refine .isAt (.ite (fun brace => ?_) fun _ => .expect within fun _ => ?_)
  · refine .take (ahead_of_isWord within.eof brace) (.bind (agree.stmts within.past) fun ran => ?_)
    exact .expect (within.past.reads (agree.sound.stmts ran)) fun _ => .pure _ _
  · refine .bind (agree.stmts within.past) fun ran => ?_
    exact .expect (within.past.reads (agree.sound.stmts ran)) fun _ => .pure _ _

/-! ## Operands

From here on the parsers start a level: they may have as many tokens ahead as the bound, and the
rules one level deeper are only turned to behind a token.
-/

theorem agree_constant (within : s.Within permitted tokens (bound + 1))
    (there : s.ahead ≠ []) : AgreeAt permitted s (constant rules) (constant other) := by
  have behind := within.next there
  refine .advance there (.current (.ite (fun _ => ?_) fun _ => .pure _ _))
  refine .bind (agree_parenArguments agree behind) fun ran => ?_
  exact agree_withBlock agree (behind.reads (Reads.of_parenArguments agree.sound ran)) _

theorem agree_identifier (within : s.Within permitted tokens (bound + 1))
    (there : s.ahead ≠ []) : AgreeAt permitted s (identifier rules) (identifier other) := by
  have behind := within.next there
  refine .advance there (.get (.ite (fun _ => ?_) fun _ => .ite (fun _ => .pure _ _) fun _ =>
    .ite (fun _ => ?_) fun _ => .isAtDo (.ite (fun _ => ?_) fun _ => .pure _ _)))
  · refine .bind (agree_parenArguments agree behind) fun ran => ?_
    exact agree_withBlock agree (behind.reads (Reads.of_parenArguments agree.sound ran)) _
  · refine .bind (.inCommand (agree_arguments agree (behind.atDepth _) none)) fun ran => ?_
    obtain ⟨inner, inside, rfl⟩ := run_inCommand_ok.1 ran
    have past := behind.of_moves (.outOfCommand (Reads.of_arguments agree.sound inside).moves)
    exact .isAtDo (.ite (fun _ => .map (agree_doBlock agree past)) fun _ => .pure _ _)
  · exact agree_withBlock agree behind _

theorem agree_paren (within : s.Within permitted tokens (bound + 1)) :
    AgreeAt permitted s (paren rules) (paren other) := by
  refine .current (.expect within fun opening => ?_)
  have behind := within.next (ahead_of_isWord within.eof opening)
  refine .skip behind fun skips => .bind (agree.stmt (behind.skips skips)) fun ran => ?_
  have inner := (behind.skips skips).reads (agree.sound.stmt ran)
  exact .skip inner fun skips => .expect (inner.skips skips) fun _ => .pure _ _

theorem agree_array (within : s.Within permitted tokens (bound + 1)) :
    AgreeAt permitted s (array rules) (array other) := by
  refine .current (.expect within fun opening => .map (.delimited ?_))
  have behind := within.next (ahead_of_isWord within.eof opening)
  exact .closedList (behind.atDepth 0) (agree_element agree)
    (.of_reads rfl (Reads.of_element agree.sound))

theorem agree_hash (within : s.Within permitted tokens (bound + 1)) :
    AgreeAt permitted s (hash rules) (hash other) := by
  refine .current (.expect within fun opening => .map (.delimited ?_))
  have behind := within.next (ahead_of_isWord within.eof opening)
  exact .closedList (behind.atDepth 0) (agree_entry agree)
    (.of_reads rfl (Reads.of_entry agree.sound))

theorem agree_lambda (within : s.Within permitted tokens (bound + 1)) :
    AgreeAt permitted s (lambda rules) (lambda other) := by
  refine .current (.expect within fun opening => .inScope ?_ ?_)
  · have inside := (within.next (ahead_of_isWord within.eof opening)).opened
    refine .bind (agree_lambdaParams agree inside) fun ran => ?_
    exact .map (agree_lambdaBody agree (inside.reads (Reads.of_lambdaParams agree.sound ran)))
  · intro r ran
    simp only [run_bind_ok, run_pure_ok] at ran
    obtain ⟨list, readParams, body, readBody, rfl⟩ := ran
    exact (Reads.of_lambdaParams agree.sound readParams).moves.trans
      (Reads.of_lambdaBody agree.sound readBody).moves

theorem agree_primary (within : s.Within permitted tokens (bound + 1)) :
    AgreeAt permitted s (primary rules) (primary other) := by
  have there {kind : TokenKind} (isKind : s.current.kind = kind) (noEnd : kind ≠ .eof) :
      s.ahead ≠ [] :=
    ahead_ne_nil within.eof (isKind ▸ noEnd)
  refine .current ?_
  split
  case h_1 kind | h_2 kind | h_3 kind | h_4 kind | h_6 kind | h_7 kind | h_8 kind =>
    exact agree_leaf (there kind nofun)
  case h_5 kind =>
    refine .ite (fun unnamed => ⟨rfl, fun error ran => ?_⟩) fun _ => agree_leaf (there kind nofun)
    cases ran
    exact within.covers.unnamed within.current_mem kind unnamed
  case h_9 kind =>
    exact .ite (fun _ => agree_leaf (there kind nofun)) fun _ => .fail within nofun nofun
  case h_10 kind => exact agree_constant agree within (there kind nofun)
  case h_11 kind => exact agree_identifier agree within (there kind nofun)
  case h_12 kind =>
    exact .ite (fun _ => agree_paren agree within) fun _ =>
      .ite (fun _ => agree_array agree within) fun _ =>
        .ite (fun _ => agree_hash agree within) fun _ =>
          .ite (fun _ => agree_lambda agree within) fun _ => .fail within nofun nofun
  all_goals exact .fail within nofun nofun

theorem agree_callSuffix (within : s.Within permitted tokens bound)
    (there : s.ahead ≠ []) (receiver : Node) :
    AgreeAt permitted s (callSuffix rules receiver) (callSuffix other receiver) := by
  refine .advance there (.skip within.past fun skips => .current (.ite (fun _ => ?_) fun _ => ?_))
  · refine .bind (agree_parenArguments agree (within.past.skips skips)) fun ran => ?_
    exact agree_withBlock agree
      ((within.past.skips skips).reads (Reads.of_parenArguments agree.sound ran)) _
  · refine .bind (agree_message (within.past.skips skips) s.current.text) fun ran => ?_
    obtain ⟨-, -, after⟩ := run_message_ok.1 ran
    have named := (within.past.skips skips).past
    rw [← after] at named
    refine .current (.ite (fun _ => .pure _ _) fun _ => ?_)
    refine .bind (.current (.ite (fun _ => ?_) fun _ => .pure _ _)) fun {r} ran => ?_
    · exact .map (agree_parenArguments agree named)
    · simp only [tightArguments, run_bind_ok, run_current_ok, run_ite_ok, run_pure_ok,
        exists_eq_left] at ran
      obtain ⟨-, args, ran, rfl⟩ | ⟨-, rfl⟩ := ran
      · exact agree_withBlock agree (named.reads (Reads.of_parenArguments agree.sound ran)) _
      · exact agree_withBlock agree named _

theorem agree_operand (within : s.Within permitted tokens (bound + 1)) :
    AgreeAt permitted s (operand rules) (operand other) := by
  refine .bind (agree_primary agree within) fun ran => ?_
  refine .loop (within.taking (Reads.of_primary agree.sound ran) rfl)
    (advances_suffixStep agree.sound) fun {expr s} within => ?_
  refine .bind (agree_continueLine within) fun {r} ran => ?_
  have behind : r.2.Within permitted tokens bound := by
    rw [(run_continueLine_ok.1 ran).2]
    exact within.of_moves (.continued s)
  refine .current (.ite (fun call => ?_) fun _ => .ite (fun _ => ?_) fun _ => .pure _ _)
  · exact .map (agree_callSuffix agree behind (ahead_of_isOpIn behind.eof call) expr)
  · exact .map (agree_indexArguments agree behind)

/-! ## Operators -/

theorem agree_unary (within : s.Within permitted tokens (bound + 1)) :
    AgreeAt permitted s (unary rules) (unary other) := by
  refine .current (.ite (fun mark => ?_) fun _ => agree_operand agree within)
  have there : s.ahead ≠ [] := ahead_ne_nil within.eof fun eof => by
    simp [Token.isWord, eof] at mark
  exact .take there (.map (agree.unary (within.next there)))

theorem agree_power (within : s.Within permitted tokens (bound + 1)) :
    AgreeAt permitted s (power rules) (power other) := by
  refine .bind (agree_unary agree within) fun ran => ?_
  refine .isAt (.ite (fun stars => ?_) fun _ => .pure _ _)
  have behind := within.taking (Reads.of_unary agree.sound ran) rfl
  exact .take (ahead_of_isWord behind.eof stars)
    (.skip behind.past fun skips => .map (agree.minus (behind.past.skips skips)))

theorem agree_minus (within : s.Within permitted tokens (bound + 1)) :
    AgreeAt permitted s (minus rules) (minus other) := by
  refine .current (.ite (fun mark => ?_) fun _ => agree_power agree within)
  have there := ahead_of_isWord within.eof mark
  exact .take there (.map (agree.minus (within.next there)))

theorem agree_operations (within : s.Within permitted tokens (bound + 1))
    (levels : List OperatorLevel) :
    AgreeAt permitted s (operations rules levels) (operations other levels) := by
  induction levels generalizing s with
  | nil => exact agree_minus agree within
  | cons level tighter ih =>
      refine .bind (ih within) fun ran => ?_
      have behind := within.reads (Reads.of_operations agree.sound ran)
      have takes : Takes (operations rules tighter) :=
        .of_reads rfl (Reads.of_operations agree.sound)
      refine .ite (fun _ => .loop behind (advances_levelStep takes) fun within => ?_) fun _ =>
        .current (.ite (fun op => ?_) fun _ => .pure _ _)
      · refine .current (.ite (fun op => .map ?_) fun _ => .pure _ _)
        exact agree_operation within (ahead_of_isOpIn within.eof op) ih
      · exact agree_operation behind (ahead_of_isOpIn behind.eof op) ih

theorem agree_range (within : s.Within permitted tokens (bound + 1)) :
    AgreeAt permitted s (range rules) (range other) := by
  refine .bind (agree_operations agree within _) fun ran => .current (.ite (fun dots => ?_) fun _ =>
    .pure _ _)
  have behind := within.reads (Reads.of_operations agree.sound ran)
  have there := ahead_ne_nil behind.eof fun eof => by simp [Token.isWord, eof] at dots
  exact .take there (.map (agree_operations agree behind.past _))

theorem agree_negated (within : s.Within permitted tokens (bound + 1)) :
    AgreeAt permitted s (negated rules) (negated other) := by
  refine .current (.ite (fun mark => ?_) fun _ => agree_range agree within)
  have there := ahead_of_isWord within.eof mark
  exact .take there (.map (agree.negated (within.next there)))

theorem agree_expression (within : s.Within permitted tokens (bound + 1)) :
    AgreeAt permitted s (expression rules) (expression other) := by
  refine .bind (agree_negated agree within) fun ran => ?_
  refine .loop (within.reads (Reads.of_negated agree.sound ran)) (advances_joinStep agree.sound)
    fun within => .current (.ite (fun word => .map ?_) fun _ => .pure _ _)
  have there := ahead_ne_nil within.eof fun eof => by simp [Token.isWord, eof] at word
  exact agree_operation within there (agree_negated agree)

/-! ## Statements -/

theorem agree_listedValue (within : s.Within permitted tokens bound) :
    AgreeAt permitted s (listedValue rules) (listedValue other) := by
  refine .current (.ite (fun star => ?_) fun _ => agree.value within)
  exact .take (ahead_of_isWord within.eof star) (.map (agree.range within.past))

theorem agree_rightSide (within : s.Within permitted tokens bound)
    (takesList : Bool) :
    AgreeAt permitted s (rightSide rules takesList) (rightSide other takesList) := by
  refine .ite (fun _ => .current (.map ?_)) fun _ => agree.value within
  exact .commaList within run_closes_none (agree_listedValue agree)
    (.of_reads rfl (Reads.of_listedValue agree.sound))

theorem agree_assignment (within : s.Within permitted tokens (bound + 1))
    (takesList : Bool) :
    AgreeAt permitted s (assignment rules takesList) (assignment other takesList) := by
  refine .current (.bind (agree_expression agree within) fun {r} ran => .current ?_)
  have read := Reads.of_expression agree.sound ran
  have behind := within.taking read rfl
  have placed : ∃ token ∈ tokens, r.1.pos = token.pos :=
    ⟨_, within.current_mem, read.pos_eq rfl _ rfl⟩
  refine .ite (fun equals => ?_) fun _ => .ite (fun op => ?_) fun _ => .pure _ _
  · exact agree_onTarget behind placed (ahead_of_isOp behind.eof equals)
      fun within => .map (agree_rightSide agree within takesList)
  · exact agree_onTarget behind placed (ahead_of_isOpIn behind.eof op)
      fun within => .map (agree.value within)

theorem agree_stmt (within : s.Within permitted tokens (bound + 1)) :
    AgreeAt permitted s (stmt rules) (stmt other) := by
  refine .current (.ite (fun _ => .fail within nofun nofun) fun _ => ?_)
  refine .bind (agree_assignment agree within true) fun ran => .isAt (.ite (fun _ => ?_) fun _ =>
    .pure _ _)
  exact .fail (within.reads (Reads.of_assignment agree.sound ran)) nofun nofun

theorem agree_stmts (within : s.Within permitted tokens (bound + 1))
    (words : List String) : AgreeAt permitted s (stmts rules words) (stmts other words) := by
  refine .loop within (advances_stmtStep agree.sound words) fun {done s} within => ?_
  refine .current (.ite (fun _ => .pure _ _) fun more => .ite (fun isBreak => ?_) fun _ =>
    .ite (fun comment => ?_) fun _ => .bind (agree_stmt agree within) fun ran => .current ?_)
  · have there : s.ahead ≠ [] := ahead_ne_nil within.eof (by simp_all)
    exact .take there (.pure _ _)
  · have there : s.ahead ≠ [] := ahead_ne_nil within.eof (by simp_all)
    exact .take there (.pure _ _)
  · have behind := within.reads (Reads.of_stmt agree.sound ran)
    refine .ite (fun remark => ?_) fun _ => .ite (fun _ => .pure _ _) fun _ =>
      .ite (fun _ => .pure _ _) fun _ => .fail behind nofun nofun
    exact .take (ahead_ne_nil behind.eof (by simp_all)) (.pure _ _)

theorem agree_program (within : s.Within permitted tokens bound) :
    AgreeAt permitted s (program rules) (program other) := by
  refine .current (.bind (agree.stmts within) fun ran => .current (.ite (fun _ => .pure _ _) ?_))
  intro _
  exact .fail (within.reads (agree.sound.stmts ran)) (by intro same; cases same)
    (by intro same; cases same)

end Levels

end Parse

/-! ## Levels -/

namespace Rules

variable {permitted : ParseError → Prop} {tokens : List Token} {bound : Nat} {rules other : Rules}

/-- Where no token is few enough, all rules agree with rules that are sound. -/
theorem agree_zero (sound : rules.Sound) (other : Rules) :
    rules.AgreeBelow permitted tokens 0 other where
  sound := sound
  stmts within := absurd within.short (Nat.not_lt_zero _)
  stmt within := absurd within.short (Nat.not_lt_zero _)
  value within := absurd within.short (Nat.not_lt_zero _)
  negated within := absurd within.short (Nat.not_lt_zero _)
  range within := absurd within.short (Nat.not_lt_zero _)
  conjunction within := absurd within.short (Nat.not_lt_zero _)
  minus within := absurd within.short (Nat.not_lt_zero _)
  unary within := absurd within.short (Nat.not_lt_zero _)
  primary within := absurd within.short (Nat.not_lt_zero _)

/-- A level more allows for a token more. -/
theorem agree_layer (agree : rules.AgreeBelow permitted tokens bound other) :
    rules.layer.AgreeBelow permitted tokens (bound + 1) other.layer where
  sound := Reads.sound_layer agree.sound
  stmts within := Parse.agree_stmts agree within _
  stmt within := Parse.agree_stmt agree within
  value within := Parse.agree_assignment agree within false
  negated within := Parse.agree_negated agree within
  range within := Parse.agree_range agree within
  conjunction within := Parse.agree_operations agree within _
  minus within := Parse.agree_minus agree within
  unary within := Parse.agree_unary agree within
  primary within := Parse.agree_primary agree within

/-- Levels for at least as many tokens as the bound agree, and they do not run out. -/
theorem agree_ofDepth (permitted : ParseError → Prop) (tokens : List Token) {bound depth deep : Nat}
    (enough : bound ≤ depth) (enough' : bound ≤ deep) :
    (ofDepth depth).AgreeBelow permitted tokens bound (ofDepth deep) := by
  induction bound generalizing depth deep with
  | zero => exact agree_zero (Reads.sound_ofDepth depth) _
  | succ bound ih =>
      obtain ⟨depth, rfl⟩ := Nat.exists_eq_add_of_le' (Nat.le_of_add_left_le enough)
      obtain ⟨deep, rfl⟩ := Nat.exists_eq_add_of_le' (Nat.le_of_add_left_le enough')
      exact agree_layer (ih (Nat.le_of_succ_le_succ enough) (Nat.le_of_succ_le_succ enough'))

end Rules

end RubyFormat
