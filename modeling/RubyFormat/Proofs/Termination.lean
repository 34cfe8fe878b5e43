import RubyFormat.Proofs.Recursion

/-!
# Every parse ends

Parsers are cut off in two places: at the deepest level of the rules, and at the bound of a loop.
There they fail as exhausted, and no parser goes on after a failure, so a parse that is not
exhausted has not been cut off.  No parse is: a loop takes a token in each step, and a parser turns
to the rules one level deeper only where fewer tokens are ahead than where it started.  The latter
is said by refusing these rules everywhere else: no answer changes.
-/

namespace RubyFormat

/-- The parser where fewer tokens than the bound are ahead; it is refused elsewhere. -/
def ParseM.below (bound : Nat) (parser : ParseM α) : ParseM α := do
  if (← get).ahead.length < bound then parser else fail .exhausted

theorem ParseM.agree_below {bound : Nat} {s : ParseState} (short : s.ahead.length < bound)
    (parser : ParseM α) : AgreeAt (fun _ => True) s parser (parser.below bound) := by
  refine ⟨?_, fun _ _ => trivial⟩
  change _ = (if s.ahead.length < bound then parser else ParseM.fail .exhausted).run s
  rw [if_pos short]

namespace Rules

/-- The rules where fewer tokens than the bound are ahead; they are refused elsewhere. -/
def below (bound : Nat) (rules : Rules) : Rules where
  stmts words := (rules.stmts words).below bound
  stmt := rules.stmt.below bound
  value := rules.value.below bound
  negated := rules.negated.below bound
  range := rules.range.below bound
  conjunction := rules.conjunction.below bound
  minus := rules.minus.below bound
  unary := rules.unary.below bound
  primary := rules.primary.below bound

/-- Two sets of rules give the same answers in a state. -/
structure AgreeAt (s : ParseState) (rules other : Rules) : Prop where
  stmts (words : List String) : (rules.stmts words).run s = (other.stmts words).run s
  stmt : rules.stmt.run s = other.stmt.run s
  value : rules.value.run s = other.value.run s
  negated : rules.negated.run s = other.negated.run s
  range : rules.range.run s = other.range.run s
  conjunction : rules.conjunction.run s = other.conjunction.run s
  minus : rules.minus.run s = other.minus.run s
  unary : rules.unary.run s = other.unary.run s
  primary : rules.primary.run s = other.primary.run s

variable {permitted : ParseError → Prop} {tokens : List Token} {bound : Nat} {rules other : Rules}
  {s : ParseState}

theorem AgreeBelow.agreeAt (agree : rules.AgreeBelow permitted tokens bound other)
    (within : s.Within permitted tokens bound) : rules.AgreeAt s other where
  stmts _ := (agree.stmts within).same
  stmt := (agree.stmt within).same
  value := (agree.value within).same
  negated := (agree.negated within).same
  range := (agree.range within).same
  conjunction := (agree.conjunction within).same
  minus := (agree.minus within).same
  unary := (agree.unary within).same
  primary := (agree.primary within).same

/-- Below the bound nothing is refused. -/
theorem agreeBelow_below (sound : rules.Sound) (tokens : List Token) (bound : Nat) :
    rules.AgreeBelow (fun _ => True) tokens bound (rules.below bound) where
  sound := sound
  stmts within := ParseM.agree_below within.short _
  stmt within := ParseM.agree_below within.short _
  value within := ParseM.agree_below within.short _
  negated within := ParseM.agree_below within.short _
  range within := ParseM.agree_below within.short _
  conjunction within := ParseM.agree_below within.short _
  minus within := ParseM.agree_below within.short _
  unary within := ParseM.agree_below within.short _
  primary within := ParseM.agree_below within.short _

/-- The rules one level deeper are only turned to behind a token. -/
theorem layer_agreeAt_below (sound : rules.Sound) (close : s.close.kind = .eof)
    (hasScope : s.scopes ≠ []) : rules.layer.AgreeAt s (rules.below s.ahead.length).layer := by
  have within : s.Within (fun _ => True) (s.ahead ++ [s.close]) (s.ahead.length + 1) := {
    eof := close
    closeMem := by simp
    aheadMem := by simp
    hasScope := hasScope
    short := Nat.lt_succ_self _
    covers := ⟨fun _ _ _ => trivial, fun _ _ _ => trivial⟩ }
  exact (agree_layer (agreeBelow_below sound _ _)).agreeAt within

end Rules

/-- The errors of a parser that is not cut off. -/
theorem ParseError.covers_inDepth (tokens : List Token) :
    ParseError.Covers tokens fun error => error.cause ≠ .exhausted where
  source _ inDepth _ := inDepth
  unnamed _ _ _ := nofun

/--
Reading a list of tokens that ends with the end mark comes to an end.  At every level, a loop takes
a token in each step, unless the step only finds that the loop is over, and a parser turns to the
rules one level deeper only where fewer tokens are ahead than where it started.  So one level more
than there are tokens is enough: the levels below it have no effect, and the parse gives a tree or
an error of the source and is never cut off.
-/
theorem Tokens.parse_ends (tokens : Tokens) (close : tokens.close.kind = .eof) :
    (∀ depth, (Rules.ofDepth depth).LoopsAdvance) ∧
      (∀ depth s, s.close.kind = .eof → s.scopes ≠ [] →
        (Rules.ofDepth (depth + 1)).AgreeAt s ((Rules.ofDepth depth).below s.ahead.length).layer) ∧
      (∀ depth, tokens.body.length < depth →
        (Parse.program (Rules.ofDepth depth)).run' (ParseState.start tokens) = tokens.parse) ∧
      ((∃ tree, tokens.parse = .ok tree) ∨
        ∃ error, tokens.parse = .error error ∧ error.cause ≠ .exhausted) := by
  have within := ParseState.Within.start close (ParseError.covers_inDepth tokens.toList)
  have agree {depth : Nat} (enough : tokens.body.length < depth) :=
    Parse.agree_program (Rules.agree_ofDepth _ tokens.toList enough (Nat.lt_succ_self _)) within
  refine ⟨fun depth => Rules.loopsAdvance (Reads.sound_ofDepth depth), fun depth s => ?_,
    fun depth enough => ?_, ?_⟩
  · exact Rules.layer_agreeAt_below (Reads.sound_ofDepth depth)
  · exact congrArg (Except.map Prod.fst) (agree enough).same
  · cases parsed : tokens.parse with
    | ok tree => exact .inl ⟨tree, rfl⟩
    | error error =>
        have fair := (agree (Nat.lt_succ_self _)).permits error (ParseM.run'_error.1 parsed)
        exact .inr ⟨error, rfl, fair⟩

/-- An open parenthesis, an end mark inside the list and a symbol without a name. -/
theorem Tokens.parse_ends_malformed :
    ∃ tokens : Tokens,
      tokens = ⟨[⟨.ident, "foo", ⟨1, 1⟩, false⟩, ⟨.op, "(", ⟨1, 4⟩, false⟩,
        ⟨.eof, "", ⟨1, 5⟩, false⟩, ⟨.symbol, "", ⟨1, 5⟩, false⟩], ⟨.eof, "", ⟨1, 6⟩, false⟩⟩ ∧
      tokens.close.kind = .eof ∧
      (∀ depth, (Rules.ofDepth depth).LoopsAdvance) ∧
      (∀ depth s, s.close.kind = .eof → s.scopes ≠ [] →
        (Rules.ofDepth (depth + 1)).AgreeAt s ((Rules.ofDepth depth).below s.ahead.length).layer) ∧
      (∀ depth, tokens.body.length < depth →
        (Parse.program (Rules.ofDepth depth)).run' (ParseState.start tokens) = tokens.parse) ∧
      ((∃ tree, tokens.parse = .ok tree) ∨
        ∃ error, tokens.parse = .error error ∧ error.cause ≠ .exhausted) :=
  ⟨_, rfl, rfl, Tokens.parse_ends _ rfl⟩

end RubyFormat
