import RubyFormat.Proofs.Faultless

/-!
# Places do not matter

Two sources whose tokens differ in their places only are parsed alike: to trees that differ in
places only, or to errors with the same wording.  The parsers are compared on pairs of states, and
one lemma for each way of putting parsers together says that parsers that agree on such pairs are
put together to parsers that agree.
-/

namespace RubyFormat

/-! ## Tokens and states that differ in places -/

/-- What a token is, wherever it stands. -/
def Token.outline (token : Token) : TokenKind × String × Bool :=
  (token.kind, token.text, token.spaced)

/-- A token with the outline of another one is that one at its own place. -/
theorem Token.eq_of_outline {token other : Token} (same : token.outline = other.outline) :
    other = { token with pos := other.pos } := by
  obtain ⟨kind, text, pos, spaced⟩ := token
  obtain ⟨otherKind, otherText, otherPos, otherSpaced⟩ := other
  cases same
  rfl

namespace ParseState

/-- States that differ in the places of their tokens only. -/
structure Alike (s t : ParseState) : Prop where
  ahead : s.ahead.map Token.outline = t.ahead.map Token.outline
  close : s.close.outline = t.close.outline
  scopes : s.scopes = t.scopes
  depth : s.commandDepth = t.commandDepth

namespace Alike

variable {s t u : ParseState}

theorem refl (s : ParseState) : s.Alike s :=
  ⟨rfl, rfl, rfl, rfl⟩

theorem common (left : s.Alike u) (right : t.Alike u) : s.Alike t :=
  ⟨left.ahead.trans right.ahead.symm, left.close.trans right.close.symm,
    left.scopes.trans right.scopes.symm, left.depth.trans right.depth.symm⟩

theorem headD {tokens others : List Token} {close last : Token}
    (same : tokens.map Token.outline = others.map Token.outline)
    (sameClose : close.outline = last.outline) :
    (tokens.headD close).outline = (others.headD last).outline := by
  cases tokens with
  | nil =>
      obtain rfl := List.map_eq_nil_iff.1 same.symm
      exact sameClose
  | cons token rest =>
      obtain ⟨other, others, rfl, sameToken, -⟩ := List.map_eq_cons_iff.1 same.symm
      exact sameToken.symm

theorem current (alike : s.Alike t) : s.current.outline = t.current.outline :=
  headD alike.ahead alike.close

theorem following (alike : s.Alike t) : s.following.outline = t.following.outline := by
  refine headD ?_ alike.close
  rw [List.map_tail, List.map_tail, alike.ahead]

theorem next (alike : s.Alike t) : s.next.Alike t.next := by
  refine ⟨?_, alike.close, alike.scopes, alike.depth⟩
  rw [ParseState.next, ParseState.next, List.map_tail, List.map_tail, alike.ahead]

theorem pastNewlines (alike : s.Alike t) : s.pastNewlines.Alike t.pastNewlines := by
  refine ⟨?_, alike.close, alike.scopes, alike.depth⟩
  have outside (tokens : List Token) : (tokens.dropWhile (·.kind == .newline)).map Token.outline =
      (tokens.map Token.outline).dropWhile (·.1 == .newline) := by
    rw [List.dropWhile_map]
    rfl
  simp only [ParseState.pastNewlines, outside, alike.ahead]

theorem withScopes (alike : s.Alike t) (change : List (List String) → List (List String)) :
    ParseState.Alike { s with scopes := change s.scopes } { t with scopes := change t.scopes } :=
  ⟨alike.ahead, alike.close, congrArg change alike.scopes, alike.depth⟩

theorem atDepth (alike : s.Alike t) {depth other : Nat} (same : depth = other) :
    (s.atDepth depth).Alike (t.atDepth other) :=
  ⟨alike.ahead, alike.close, alike.scopes, same⟩

theorem length_ahead (alike : s.Alike t) : s.ahead.length = t.ahead.length := by
  simpa using congrArg List.length alike.ahead

end Alike

end ParseState

namespace Node

/-- Trees that differ in places only. -/
@[simp] def Alike (node other : Node) : Prop :=
  node.unplaced = other.unplaced

/-- Lists of trees that differ in places only. -/
@[simp] def ListAlike (nodes others : List Node) : Prop :=
  nodes.map unplaced = others.map unplaced

/-- Trees that differ in places only, or are both absent. -/
@[simp] def OptionAlike (node other : Option Node) : Prop :=
  node.map unplaced = other.map unplaced

@[simp]
theorem unplaced_unplaced (node : Node) : node.unplaced.unplaced = node.unplaced :=
  (same_iff node.unplaced node).1 (by simp [same, dump_unplaced])

@[simp]
theorem unplaced_comp_unplaced : unplaced ∘ unplaced = unplaced :=
  funext unplaced_unplaced

theorem isEntry_unplaced (node : Node) : node.unplaced.isEntry = node.isEntry := by
  cases node <;> rfl

theorem gatherEntries_unplaced (parts : List Node) :
    gatherEntries (parts.map unplaced) = (gatherEntries parts).map unplaced := by
  induction parts with
  | nil => rfl
  | cons part rest ih =>
      simp only [List.map_cons, gatherEntries, isEntry_unplaced, ih, pos_unplaced]
      cases part.isEntry with
      | false => rfl
      | true =>
          cases gatherEntries rest with
          | nil => simp [unplaced]
          | cons first others => cases first <;> simp [unplaced]

/-- Entries are gathered whatever their places are. -/
theorem gatherEntries_alike {parts others : List Node} (same : ListAlike parts others) :
    ListAlike (gatherEntries parts) (gatherEntries others) := by
  rw [ListAlike, ← gatherEntries_unplaced, same, gatherEntries_unplaced]

theorem isSplat_unplaced (node : Node) : node.unplaced.isSplat = node.isSplat := by
  cases node <;> rfl

/-- The right side that is made of values depends on no places. -/
theorem unplaced_ofValues {values others : List Node} (same : values.map unplaced = others.map unplaced)
    (pos place : Pos) : (ofValues pos values).unplaced = (ofValues place others).unplaced := by
  have splats : values.any isSplat = others.any isSplat := by
    have apart (nodes : List Node) : nodes.any isSplat = (nodes.map unplaced).any isSplat := by
      simp [List.any_map, Function.comp_def, isSplat_unplaced]
    rw [apart values, same, ← apart others]
  unfold ofValues
  rw [splats]
  split
  · simp [unplaced, same]
  -- Lists of values that are alike have the same length, and two or more make a list.
  rcases values with _ | ⟨first, _ | ⟨second, rest⟩⟩ <;>
    rcases others with _ | ⟨first', _ | ⟨second', rest'⟩⟩ <;>
    first
    | rfl
    | (simp at same; done)
    | simpa using same
    | simpa only [unplaced, unplacedList_eq_map] using congrArg (Node.valueList .start) same

/-- A statement gets its comment whatever their places are. -/
theorem withComment_alike {stmt stmt' remark remark' : Node} (same : stmt.Alike stmt')
    (sameRemark : remark.Alike remark') :
    (stmt.withComment remark).Alike (stmt'.withComment remark') := by
  have apart (stmt remark : Node) :
      (stmt.withComment remark).unplaced = (stmt.unplaced.withComment remark.unplaced).unplaced := by
    cases stmt <;> simp [withComment, unplaced, Node.pos]
  rw [Alike, apart, same, sameRemark, ← apart]

end Node

namespace ParamList

/-- Parameters that differ in places only. -/
@[simp] def Alike (list other : ParamList) : Prop :=
  (list.toNode .start).Alike (other.toNode .start)

namespace Alike

variable {list other : ParamList}

theorem isSome_rest (same : list.Alike other) : list.rest.isSome = other.rest.isSome := by
  simp only [ParamList.Alike, Node.Alike, toNode, Node.unplaced, Node.unplacedOption_eq_map,
    Node.params.injEq] at same
  simpa using congrArg Option.isSome same.2.2.2.1

theorem isEmpty_optional (same : list.Alike other) :
    list.optional.isEmpty = other.optional.isEmpty := by
  simp only [ParamList.Alike, Node.Alike, toNode, Node.unplaced, Node.unplacedList_eq_map,
    Node.params.injEq] at same
  simpa using congrArg List.isEmpty same.2.2.1

theorem addName {name name' : Node} (same : list.Alike other) (sameName : name.Alike name') :
    (list.addName name).Alike (other.addName name') := by
  unfold ParamList.addName
  rw [same.isSome_rest, same.isEmpty_optional]
  split <;> simp_all [toNode, Node.unplaced]

theorem allowsExcessedComma (same : list.Alike other) :
    list.allowsExcessedComma = other.allowsExcessedComma := by
  simp only [ParamList.Alike, Node.Alike, toNode, Node.unplaced, Node.unplacedOption_eq_map,
    Node.unplacedList_eq_map, Node.params.injEq] at same
  obtain ⟨-, -, -, rest, -, keywords, keywordRest, block⟩ := same
  have isNone {node node' : Option Node} (same : node.map Node.unplaced = node'.map Node.unplaced) :
      node.isNone = node'.isNone := by
    simpa using congrArg Option.isNone same
  have isEmpty : list.keywords.isEmpty = other.keywords.isEmpty := by
    simpa using congrArg List.isEmpty keywords
  simp only [ParamList.allowsExcessedComma, isNone rest, isNone keywordRest, isNone block, isEmpty]

end Alike

end ParamList

/-! ## Parsers that do not see places -/

namespace ParseM

/-- Results that differ in places only: related values in states alike, or errors with the same
wording. -/
def Agree (relates : α → α → Prop) :
    Except ParseError (α × ParseState) → Except ParseError (α × ParseState) → Prop
  | .ok (value, s), .ok (other, t) => relates value other ∧ s.Alike t
  | .error error, .error other => error.cause.message = other.cause.message
  | _, _ => False

/-- Parsers that give results alike in states alike. -/
def Alike (relates : α → α → Prop) (parser other : ParseM α) : Prop :=
  ∀ s t : ParseState, s.Alike t → Agree relates (parser.run s) (other.run t)

namespace Alike

variable {R : α → α → Prop} {S : β → β → Prop} {parser parser' : ParseM α}
  {second second' : α → ParseM β}

theorem pure {value other : α} (related : R value other) :
    Alike R (Pure.pure value) (Pure.pure other) :=
  fun _ _ alike => ⟨related, alike⟩

theorem bind (first : Alike R parser parser')
    (rest : ∀ value other, R value other → Alike S (second value) (second' other)) :
    Alike S (parser >>= second) (parser' >>= second') := by
  intro s t alike
  have agree := first s t alike
  rw [StateT.run_bind, StateT.run_bind]
  cases ran : parser.run s with
  | error error =>
      cases ran' : parser'.run t with
      | error other =>
          rw [ran, ran'] at agree
          exact agree
      | ok result =>
          rw [ran, ran'] at agree
          exact agree.elim
  | ok result =>
      cases ran' : parser'.run t with
      | error other =>
          rw [ran, ran'] at agree
          exact agree.elim
      | ok result' =>
          rw [ran, ran'] at agree
          exact rest _ _ agree.1 _ _ agree.2

/-- Parsers that are both alike to a third one are alike. -/
theorem common {between : ParseM α} (left : Alike R parser between)
    (right : Alike R parser' between)
    (both : ∀ value other middle, R value middle → R other middle → R value other) :
    Alike R parser parser' := by
  intro s t alike
  have one := left s t alike
  have two := right t t (.refl t)
  cases ran : parser.run s <;> cases ran' : parser'.run t <;> cases middle : between.run t <;>
    rw [ran, middle] at one <;> rw [ran', middle] at two
  case error.error.error => exact Eq.trans one two.symm
  case ok.ok.ok => exact ⟨both _ _ _ one.1 two.1, one.2.common two.2⟩
  all_goals first | exact one.elim | exact two.elim

theorem map {f f' : α → β} (first : Alike R parser parser')
    (keeps : ∀ value other, R value other → S (f value) (f' other)) :
    Alike S (do return f (← parser)) (do return f' (← parser')) :=
  bind first fun value other related => pure (keeps value other related)

theorem ite {condition condition' : Prop} [Decidable condition] [Decidable condition']
    {no no' : ParseM α} (same : condition ↔ condition') (yes : Alike R parser parser')
    (other : Alike R no no') :
    Alike R (if condition then parser else no) (if condition' then parser' else no') := by
  by_cases holds : condition
  · rw [if_pos holds, if_pos (same.1 holds)]
    exact yes
  · rw [if_neg holds, if_neg fun holds' => holds (same.2 holds')]
    exact other

/-- A choice by what places do not change. -/
theorem choice {condition : Prop} [Decidable condition] {no no' : ParseM α}
    (yes : Alike R parser parser') (other : Alike R no no') :
    Alike R (if condition then parser else no) (if condition then parser' else no') :=
  ite Iff.rfl yes other

theorem fail {cause cause' : ParseCause} (same : cause.message = cause'.message) :
    Alike R (ParseM.fail cause) (ParseM.fail cause') :=
  fun _ _ _ => same

theorem get {second second' : ParseState → ParseM β}
    (rest : ∀ s t : ParseState, s.Alike t → Alike S (second s) (second' t)) :
    Alike S (MonadState.get >>= second) (MonadState.get >>= second') :=
  fun s t alike => rest s t alike s t alike

/-- The next token is the same one but for its place. -/
theorem current {second second' : Token → ParseM β}
    (rest : ∀ (token : Token) (pos : Pos),
      Alike S (second token) (second' { token with pos := pos })) :
    Alike S (ParseM.current >>= second) (ParseM.current >>= second') := by
  intro s t alike
  have agree := rest s.current t.current.pos s t alike
  rw [← Token.eq_of_outline alike.current] at agree
  exact agree

theorem sees_isAt (word : String) : Alike Eq (ParseM.isAt word) (ParseM.isAt word) := by
  intro s t alike
  have same : s.current.isWord word = t.current.isWord word := by
    rw [Token.eq_of_outline alike.current]
    rfl
  exact ⟨same, alike⟩

theorem isAt {word : String} {second second' : Bool → ParseM β}
    (rest : ∀ isHere, Alike S (second isHere) (second' isHere)) :
    Alike S (ParseM.isAt word >>= second) (ParseM.isAt word >>= second') := by
  refine bind (sees_isAt word) ?_
  rintro isHere _ rfl
  exact rest isHere

theorem isAtDo {second second' : Bool → ParseM β}
    (rest : ∀ isHere, Alike S (second isHere) (second' isHere)) :
    Alike S (ParseM.isAtDo >>= second) (ParseM.isAtDo >>= second') := by
  refine bind (R := Eq) (fun s t alike => ⟨?_, alike⟩) ?_
  · rw [Token.eq_of_outline alike.current, alike.depth]
    rfl
  · rintro isHere _ rfl
    exact rest isHere

theorem advance {second second' : Token → ParseM β}
    (rest : ∀ (token : Token) (pos : Pos),
      Alike S (second token) (second' { token with pos := pos })) :
    Alike S (ParseM.advance >>= second) (ParseM.advance >>= second') := by
  intro s t alike
  obtain ⟨ahead, close, scopes, depth⟩ := s
  obtain ⟨ahead', close', scopes', depth'⟩ := t
  cases ahead with
  | nil =>
      obtain rfl : ahead' = [] := List.map_eq_nil_iff.1 alike.ahead.symm
      rfl
  | cons token tokens =>
      obtain ⟨other, others, rfl, same, -⟩ := List.map_eq_cons_iff.1 alike.ahead.symm
      have agree := rest token other.pos _ _ alike.next
      rw [← Token.eq_of_outline same.symm] at agree
      exact agree

theorem discard_advance :
    Alike (fun _ _ => True) (discard ParseM.advance) (discard ParseM.advance) :=
  show Alike _ (ParseM.advance >>= fun _ => Pure.pure ()) (ParseM.advance >>= fun _ => Pure.pure ())
    from advance fun _ _ => pure trivial

/-- The next token is taken. -/
theorem take {second second' : Unit → ParseM β} (rest : Alike S (second ()) (second' ())) :
    Alike S (discard ParseM.advance >>= second) (discard ParseM.advance >>= second') :=
  bind discard_advance fun _ _ _ => rest

theorem expect {word : String} {second second' : Unit → ParseM β}
    (rest : Alike S (second ()) (second' ())) :
    Alike S (ParseM.expect word >>= second) (ParseM.expect word >>= second') :=
  bind (current fun _ _ => choice discard_advance (fail rfl)) fun _ _ _ => rest

theorem modify {f : ParseState → ParseState}
    (keeps : ∀ s t, s.Alike t → (f s).Alike (f t)) :
    Alike (fun _ _ => True) (modify f : ParseM PUnit) (modify f) :=
  fun s t alike => ⟨trivial, keeps s t alike⟩

theorem skipNewlines : Alike (fun _ _ => True) ParseM.skipNewlines ParseM.skipNewlines :=
  bind (modify fun _ _ alike => alike.pastNewlines) fun _ _ _ =>
    current fun _ _ => choice (fail rfl) (pure trivial)

theorem skip {second second' : Unit → ParseM β} (rest : Alike S (second ()) (second' ())) :
    Alike S (ParseM.skipNewlines >>= second) (ParseM.skipNewlines >>= second') :=
  bind skipNewlines fun _ _ _ => rest

theorem modifyScopes (change : List (List String) → List (List String)) :
    Alike (fun _ _ => True) (ParseM.modifyScopes change) (ParseM.modifyScopes change) := by
  refine get fun s t alike => ite ?_ (fail rfl) fun _ _ _ => ⟨trivial, alike.withScopes change⟩
  rw [alike.scopes]

theorem declare {name : String} {second second' : Unit → ParseM β}
    (rest : Alike S (second ()) (second' ())) :
    Alike S (ParseM.declare name >>= second) (ParseM.declare name >>= second') :=
  bind (modifyScopes _) fun _ _ _ => rest

theorem inScope (inner : Alike R parser parser') :
    Alike R (ParseM.inScope parser) (ParseM.inScope parser') :=
  bind (modify fun _ _ alike => alike.withScopes _) fun _ _ _ =>
    bind inner fun _ _ related => bind (modifyScopes _) fun _ _ _ => pure related

theorem delimited (inner : Alike R parser parser') :
    Alike R (ParseM.delimited parser) (ParseM.delimited parser') := by
  refine get fun s t alike => ?_
  rw [alike.depth]
  exact bind (modify fun _ _ alike => alike.atDepth rfl) fun _ _ _ =>
    bind inner fun _ _ related => bind (modify fun _ _ alike => alike.atDepth rfl) fun _ _ _ =>
      pure related

theorem inCommand (inner : Alike R parser parser') :
    Alike R (ParseM.inCommand parser) (ParseM.inCommand parser') :=
  bind (modify fun _ _ alike => alike.atDepth (congrArg (· + 1) alike.depth)) fun _ _ _ =>
    bind inner fun _ _ related =>
      bind (modify fun _ _ alike => alike.atDepth (congrArg (· - 1) alike.depth)) fun _ _ _ =>
        pure related

/-! ## Loops -/

/-- The decisions of a body that go on with related values, or are done with related results. -/
def Steps (R : α → α → Prop) (S : β → β → Prop) : LoopStep α β → LoopStep α β → Prop
  | .again next, .again other => R next other
  | .done result, .done other => S result other
  | _, _ => False

theorem loop {body body' : α → ParseM (LoopStep α β)} {value value' : α}
    (start : R value value')
    (step : ∀ value other, R value other → Alike (Steps R S) (body value) (body' other)) :
    Alike S (ParseM.loop body value) (ParseM.loop body' value') := by
  refine get fun s t alike => ?_
  have sameLength := alike.length_ahead
  generalize s.ahead = tokens at sameLength
  generalize t.ahead = others at sameLength
  induction tokens generalizing value value' others with
  | nil =>
      obtain rfl := List.length_eq_zero_iff.1 sameLength.symm
      refine bind (step value value' start) fun decision decision' related => ?_
      cases decision <;> cases decision'
      · exact fail rfl
      · exact related.elim
      · exact related.elim
      · exact pure related
  | cons token tokens ih =>
      cases others with
      | nil => cases sameLength
      | cons other others =>
          refine bind (step value value' start) fun decision decision' related => ?_
          cases decision <;> cases decision'
          · exact ih related others (Nat.succ.inj sameLength)
          · exact related.elim
          · exact related.elim
          · exact pure related

/-- Items with commas between them. -/
theorem commaList {item : ParseM Node} {closes : ParseM Bool}
    (each : Alike Node.Alike item item)
    (closing : Alike Eq closes closes) :
    Alike Node.ListAlike (ParseM.commaList item closes) (ParseM.commaList item closes) := by
  refine loop (R := Node.ListAlike) rfl fun items others related => bind each fun node other same => ?_
  have longer : Node.ListAlike (items ++ [node]) (others ++ [other]) := by
    simp_all
  refine isAt fun comma => choice (take (skip (bind closing ?_))) (pure longer)
  rintro isLast _ rfl
  exact choice (pure longer) (pure longer)

/-- Items up to a closing word. -/
theorem closedList {item : ParseM Node} {closer : String} (each : Alike Node.Alike item item) :
    Alike Node.ListAlike (ParseM.closedList item closer) (ParseM.closedList item closer) := by
  refine skip (bind (loop (R := Node.ListAlike) rfl fun items others related => ?_) fun _ _ same => expect (pure same))
  refine isAt fun closes => choice (pure related) (bind each fun node other same => ?_)
  have longer : Node.ListAlike (items ++ [node]) (others ++ [other]) := by
    simp_all
  exact skip (isAt fun comma => choice (take (skip (pure longer))) (pure longer))

end Alike

end ParseM

open ParseM

/-- The rules one level deeper do not see places. -/
structure Rules.Blind (rules : Rules) : Prop where
  stmts (words : List String) : Alike Node.ListAlike (rules.stmts words) (rules.stmts words)
  stmt : Alike Node.Alike rules.stmt rules.stmt
  value : Alike Node.Alike rules.value rules.value
  negated : Alike Node.Alike rules.negated rules.negated
  range : Alike Node.Alike rules.range rules.range
  conjunction : Alike Node.Alike rules.conjunction rules.conjunction
  minus : Alike Node.Alike rules.minus rules.minus
  unary : Alike Node.Alike rules.unary rules.unary
  primary : Alike Node.Alike rules.primary rules.primary

namespace Parse

variable {rules : Rules}

/-! ## Arguments and collections -/

theorem alike_argument (blind : rules.Blind) :
    Alike Node.Alike (argument rules) (argument rules) := by
  refine .current fun token pos => .choice (.take (.map blind.range ?_)) ?_
  · simp_all [Node.unplaced]
  refine .choice (.take (.map blind.range ?_)) (.choice (.take (.current fun next place => ?_)) ?_)
  · simp_all [Node.unplaced]
  · refine .choice (.pure rfl) (.map blind.range ?_)
    simp_all [Node.unplaced]
  refine .choice (.take (.skip (.map blind.negated ?_))) ?_
  · simp_all [Node.unplaced]
  refine .bind blind.negated fun key other same => .isAt fun arrow => .choice ?_ (.pure same)
  refine .take (.skip (.map blind.negated ?_))
  simp_all [Node.unplaced]

theorem alike_arguments (blind : rules.Blind) (closer : Option String) :
    Alike Node.Alike (arguments rules closer) (arguments rules closer) := by
  refine .current fun token pos => .map (.commaList (alike_argument blind) ?_) ?_
  · cases closer with
    | none => exact .pure rfl
    | some word => exact .sees_isAt word
  · intro parts others same
    simpa [Node.unplaced] using Node.gatherEntries_alike same

theorem alike_parenArguments (blind : rules.Blind) :
    Alike Node.Alike (parenArguments rules) (parenArguments rules) := by
  refine .current fun token pos => .expect (.map (R := Node.OptionAlike) (.delimited ?_) ?_)
  · refine .skip (.isAt fun closes => .choice (.take (.pure rfl)) ?_)
    refine .bind (alike_arguments blind (some ")")) fun args others same => ?_
    exact .skip (.expect (.pure (congrArg some same)))
  · simp_all [Node.unplaced]

theorem alike_indexArguments (blind : rules.Blind) :
    Alike Node.OptionAlike (indexArguments rules) (indexArguments rules) := by
  refine .expect (.skip (.isAt fun closes => .choice ?_ ?_))
  · exact .bind (R := Node.OptionAlike) (.pure rfl) fun args others same =>
      .skip (.expect (.pure same))
  · refine .bind (alike_arguments blind (some "]")) fun args others same => ?_
    exact .bind (R := Node.OptionAlike) (.pure (congrArg some same)) fun args others same =>
      .skip (.expect (.pure same))

theorem alike_element (blind : rules.Blind) :
    Alike Node.Alike (element rules) (element rules) := by
  refine .current fun token pos => .choice (.take (.map blind.range ?_)) blind.negated
  simp_all [Node.unplaced]

theorem alike_array (blind : rules.Blind) : Alike Node.Alike (array rules) (array rules) := by
  refine .current fun token pos => .expect (.map (.delimited (.closedList (alike_element blind))) ?_)
  simp_all [Node.unplaced]

theorem alike_entry (blind : rules.Blind) : Alike Node.Alike (entry rules) (entry rules) := by
  refine .current fun token pos => .choice (.take (.map blind.range ?_)) ?_
  · simp_all [Node.unplaced]
  refine .choice (.take (.skip (.map blind.negated ?_))) ?_
  · simp_all [Node.unplaced]
  refine .bind blind.negated fun key other same => .skip (.expect (.skip (.map blind.negated ?_)))
  simp_all [Node.unplaced]

theorem alike_hash (blind : rules.Blind) : Alike Node.Alike (hash rules) (hash rules) := by
  refine .current fun token pos => .expect (.map (.delimited (.closedList (alike_entry blind))) ?_)
  simp_all [Node.unplaced]

/-! ## Parameters -/

theorem alike_paramName : Alike Node.Alike paramName paramName :=
  .current fun _ _ => .choice (.take (.declare (.pure rfl))) (.fail rfl)

theorem alike_paramName? : Alike Node.OptionAlike paramName? paramName? :=
  .current fun _ _ => .choice (.map alike_paramName fun _ _ same => congrArg some same) (.pure rfl)

theorem alike_param (blind : rules.Blind) (closer : String) {list other : ParamList}
    (same : list.Alike other) :
    Alike ParamList.Alike (param rules closer list) (param rules closer other) := by
  refine .current fun token pos => .choice (.take (.map alike_paramName? ?_)) ?_
  · simp_all [ParamList.toNode, Node.unplaced]
  refine .choice (.take (.map alike_paramName? ?_)) (.choice (.take (.map alike_paramName ?_)) ?_)
  · simp_all [ParamList.toNode, Node.unplaced]
  · simp_all [ParamList.toNode, Node.unplaced]
  refine .choice (.take (.declare (.current fun next place => .choice ?_ ?_))) (.choice ?_ (.fail rfl))
  · refine .bind (R := Node.OptionAlike) (.pure rfl) fun default default' sameDefault => .pure ?_
    simp_all [ParamList.toNode, Node.unplaced]
  · refine .bind blind.conjunction fun value value' sameValue => ?_
    refine .bind (R := Node.OptionAlike) (.pure (congrArg some sameValue)) ?_
    refine fun default default' sameDefault => .pure ?_
    simp_all [ParamList.toNode, Node.unplaced]
  · refine .bind alike_paramName fun name name' sameName => .isAt fun equals => .choice ?_ ?_
    · refine .take (.map blind.conjunction ?_)
      simp_all [ParamList.toNode, Node.unplaced]
    · exact .pure (same.addName sameName)

theorem alike_paramStep (blind : rules.Blind) (closer : String) {list other : ParamList}
    (same : list.Alike other) :
    Alike (ParseM.Alike.Steps ParamList.Alike ParamList.Alike) (paramStep rules closer list)
      (paramStep rules closer other) := by
  refine .isAt fun closes => .choice (.pure same) (.bind (alike_param blind closer same) ?_)
  intro list other same
  refine .skip (.isAt fun comma => .choice (.advance fun mark place => .skip ?_) (.pure same))
  refine .current fun next pos => .choice (.ite ?_ (.pure ?_) (.fail rfl)) (.pure same)
  · rw [same.allowsExcessedComma]
  · simp_all [ParseM.Alike.Steps, ParamList.toNode, Node.unplaced]

theorem alike_params (blind : rules.Blind) (closer : String) :
    Alike Node.Alike (params rules closer) (params rules closer) := by
  refine .current fun token pos => .skip (.map (R := ParamList.Alike) ?_ ?_)
  · exact .loop (R := ParamList.Alike) rfl fun list other same => alike_paramStep blind closer same
  · simp_all [ParamList.toNode, Node.unplaced]

/-! ## Blocks and lambdas -/

/-- The target made of an expression is the one made of the expression without places. -/
theorem alike_target {expr other : Node} (same : expr.Alike other) :
    Alike Node.Alike (target expr) (target other) := by
  have apart (expr : Node) : Alike Node.Alike (target expr) (target expr.unplaced) := by
    have fails (expr : Node) :
        Alike Node.Alike (throw ⟨.invalidTarget, expr.pos⟩) (throw ⟨.invalidTarget, .start⟩) :=
      fun _ _ _ => rfl
    cases expr with
    | vcall pos message =>
        cases message with
        | name kind place text => exact .declare (.pure rfl)
        | _ => exact fails _
    | varRef pos inner =>
        cases inner with
        | name kind place text =>
            cases kind with
            | keyword => exact fun _ _ _ => rfl
            | _ => exact .pure rfl
        | _ => exact .pure (by simp [Node.unplaced])
    | call pos receiver operator message args comments =>
        cases message with
        | name kind place text =>
            cases args with
            | some args => cases kind <;> exact fails _
            | none =>
                cases kind with
                | ident => exact .pure (by simp [Node.unplaced])
                | _ => exact fails _
        | _ => exact fails _
    | aref pos receiver args =>
        cases args <;> exact .pure (by simp [Node.unplaced])
    | constPathRef pos parent name =>
        exact .pure (by simp [Node.unplaced])
    | _ => exact fails _
  have second := apart other
  rw [← same] at second
  exact (apart expr).common second fun _ _ _ one two => one.trans two.symm

theorem alike_blockVar (blind : rules.Blind) :
    Alike Node.OptionAlike (blockVar rules) (blockVar rules) := by
  refine .current fun token pos => .choice (.take (.pure rfl)) (.choice (.take ?_) (.pure rfl))
  refine .bind (alike_params blind "|") fun params params' same => .expect (.pure ?_)
  simp_all [Node.unplaced]

theorem alike_braceBlock (blind : rules.Blind) :
    Alike Node.Alike (braceBlock rules) (braceBlock rules) := by
  refine .current fun token pos => .expect (.delimited (.inScope (.skip ?_)))
  refine .bind (alike_blockVar blind) fun params params' sameParams => ?_
  refine .bind (blind.stmts ["\x7d"]) fun body body' sameBody => .expect (.pure ?_)
  simp_all [Node.unplaced]

theorem alike_exceptions (blind : rules.Blind) :
    Alike Node.ListAlike (exceptions rules) (exceptions rules) :=
  .current fun _ _ => .choice (.pure rfl) (.commaList blind.range (.pure rfl))

theorem alike_holder (blind : rules.Blind) :
    Alike Node.OptionAlike (holder rules) (holder rules) := by
  refine .isAt fun arrow => .choice (.take (.bind blind.primary fun expr expr' same => ?_)) (.pure rfl)
  exact .map (alike_target same) fun _ _ same => congrArg some same

theorem alike_skipThen : Alike (fun _ _ => True) skipThen skipThen :=
  .isAt fun _ => .choice .discard_advance (.pure trivial)

/-- Rescue clauses that differ in places only, whatever clauses alike follow them. -/
def ClauseAlike (clause other : Option Node → Node) : Prop :=
  ∀ next next' : Option Node, Node.OptionAlike next next' → (clause next).Alike (other next')

theorem alike_rescueClause (blind : rules.Blind) :
    Alike ClauseAlike (rescueClause rules) (rescueClause rules) := by
  refine .current fun token pos => .expect (.bind (alike_exceptions blind) ?_)
  intro exceptions exceptions' sameExceptions
  refine .bind (alike_holder blind) fun held held' sameHeld => .bind alike_skipThen fun _ _ _ => ?_
  refine .map (blind.stmts clauseWords) fun stmts stmts' sameStmts next next' sameNext => ?_
  simp_all [Node.unplaced]

theorem alike_rescueChain (blind : rules.Blind) :
    Alike Node.OptionAlike (rescueChain rules) (rescueChain rules) := by
  refine .map (R := List.Forall₂ ClauseAlike) ?_ ?_
  · refine .loop .nil fun clauses clauses' same => .isAt fun isNext => .choice ?_ (.pure same)
    refine .map (alike_rescueClause blind) fun clause clause' related => ?_
    exact List.rel_append same (.cons related .nil)
  · intro clauses clauses' same
    induction same with
    | nil => rfl
    | cons related _ ih => exact congrArg some (related _ _ ih)

theorem alike_clause (blind : rules.Blind) (word : String) (words : List String) :
    Alike (fun body body' => body.map (List.map Node.unplaced) = body'.map (List.map Node.unplaced))
      (clause rules word words) (clause rules word words) := by
  refine .isAt fun isNext => .choice (.take (.map (blind.stmts words) ?_)) (.pure rfl)
  exact fun _ _ same => congrArg some same

theorem alike_bodyStmt (blind : rules.Blind) :
    Alike Node.Alike (bodyStmt rules) (bodyStmt rules) := by
  refine .current fun token pos => .bind (blind.stmts clauseWords) fun stmts stmts' sameStmts => ?_
  refine .bind (alike_rescueChain blind) fun rescue rescue' sameRescue => ?_
  refine .bind (alike_clause blind "else" ["ensure", "end"]) fun other other' sameOther => ?_
  refine .map (alike_clause blind "ensure" ["end"]) fun ensure ensure' sameEnsure => ?_
  simp_all [Node.unplaced]

theorem alike_doBlock (blind : rules.Blind) :
    Alike Node.Alike (doBlock rules) (doBlock rules) := by
  refine .current fun token pos => .expect (.delimited (.inScope ?_))
  refine .bind (alike_blockVar blind) fun params params' sameParams => ?_
  refine .bind (alike_bodyStmt blind) fun body body' sameBody => .expect (.pure ?_)
  simp_all [Node.unplaced]

theorem alike_withBlock (blind : rules.Blind) {call call' : Node} (same : call.Alike call') :
    Alike Node.Alike (withBlock rules call) (withBlock rules call') := by
  refine .isAt fun brace => .choice (.map (alike_braceBlock blind) ?_) (.isAtDo fun isDo => ?_)
  · simp_all [Node.unplaced]
  · refine .choice (.map (alike_doBlock blind) ?_) (.pure same)
    simp_all [Node.unplaced]

theorem alike_lambdaParams (blind : rules.Blind) :
    Alike Node.OptionAlike (lambdaParams rules) (lambdaParams rules) := by
  refine .current fun token pos => .choice (.take ?_) (.choice (.pure rfl) ?_)
  · exact .bind (alike_params blind ")") fun _ _ same => .expect (.pure (congrArg some same))
  · exact .map (alike_params blind "\x7b") fun _ _ same => congrArg some same

theorem alike_lambdaBody (blind : rules.Blind) :
    Alike Node.ListAlike (lambdaBody rules) (lambdaBody rules) := by
  refine .isAt fun brace => .choice (.take ?_) (.expect ?_)
  · exact .bind (blind.stmts ["\x7d"]) fun _ _ same => .expect (.pure same)
  · exact .bind (blind.stmts ["end"]) fun _ _ same => .expect (.pure same)

theorem alike_lambda (blind : rules.Blind) : Alike Node.Alike (lambda rules) (lambda rules) := by
  refine .current fun token pos => .expect (.inScope ?_)
  refine .bind (alike_lambdaParams blind) fun params params' sameParams => ?_
  refine .map (alike_lambdaBody blind) fun body body' sameBody => ?_
  simp_all [Node.unplaced]

/-! ## Operands -/

theorem isTightParen_alike {s t : ParseState} (alike : s.Alike t) :
    isTightParen s.current = isTightParen t.current := by
  rw [Token.eq_of_outline alike.current]
  rfl

theorem startsCommandArgument_alike {s t : ParseState} (alike : s.Alike t) :
    startsCommandArgument s = startsCommandArgument t := by
  unfold startsCommandArgument
  rw [Token.eq_of_outline alike.current, Token.eq_of_outline alike.following]

theorem alike_leaf {node other : Node} (same : node.Alike other) :
    Alike Node.Alike (leaf node) (leaf other) :=
  .take (.pure same)

theorem alike_identifier (blind : rules.Blind) :
    Alike Node.Alike (identifier rules) (identifier rules) := by
  refine .advance fun token pos => .get fun s t alike => .ite ?_ ?_ (.ite ?_ (.pure rfl) (.ite ?_ ?_ ?_))
  · rw [isTightParen_alike alike]
  · refine .bind (alike_parenArguments blind) fun args args' same => alike_withBlock blind ?_
    simp_all [Node.unplaced]
  · rw [ParseState.isLocal, ParseState.isLocal, alike.scopes]
  · rw [startsCommandArgument_alike alike]
  · refine .bind (.inCommand (alike_arguments blind none)) fun args args' same => ?_
    refine .isAtDo fun isDo => .choice (.map (alike_doBlock blind) ?_) (.pure ?_)
    · simp_all [Node.unplaced]
    · simp_all [Node.unplaced]
  · refine .isAtDo fun isDo => .ite ?_ (alike_withBlock blind rfl) (.pure rfl)
    rw [Token.eq_of_outline alike.current]
    rfl

theorem alike_constant (blind : rules.Blind) :
    Alike Node.Alike (constant rules) (constant rules) := by
  refine .advance fun token pos => .current fun next place => .choice ?_ (.pure rfl)
  refine .bind (alike_parenArguments blind) fun args args' same => alike_withBlock blind ?_
  simp_all [Node.unplaced]

theorem alike_paren (blind : rules.Blind) : Alike Node.Alike (paren rules) (paren rules) := by
  refine .current fun token pos => .expect (.skip (.bind blind.stmt fun inner inner' same => ?_))
  refine .skip (.expect (.pure ?_))
  simp_all [Node.unplaced]

theorem alike_primary (blind : rules.Blind) :
    Alike Node.Alike (primary rules) (primary rules) := by
  refine .current fun token pos => ?_
  obtain ⟨kind, text, place, spaced⟩ := token
  cases kind with
  | symbol => exact .choice (.fail rfl) (alike_leaf rfl)
  | keyword => exact .choice (alike_leaf rfl) (.fail rfl)
  | const => exact alike_constant blind
  | ident => exact alike_identifier blind
  | op =>
      exact .choice (alike_paren blind) (.choice (alike_array blind) (.choice (alike_hash blind)
        (.choice (alike_lambda blind) (.fail rfl))))
  | label | newline | comment | eof => exact .fail rfl
  | _ => exact alike_leaf rfl

theorem alike_message (operator : String) :
    Alike Node.Alike (message operator) (message operator) := by
  refine .current fun token pos => ?_
  obtain ⟨kind, text, place, spaced⟩ := token
  cases kind with
  | ident | keyword | const => exact alike_leaf rfl
  | op => exact .choice (alike_leaf rfl) (.fail rfl)
  | _ => exact .fail rfl

theorem alike_tightArguments (blind : rules.Blind) :
    Alike Node.OptionAlike (tightArguments rules) (tightArguments rules) :=
  .current fun _ _ => .choice
    (.map (alike_parenArguments blind) fun _ _ same => congrArg some same) (.pure rfl)

theorem alike_callSuffix (blind : rules.Blind) {receiver receiver' : Node}
    (same : receiver.Alike receiver') :
    Alike Node.Alike (callSuffix rules receiver) (callSuffix rules receiver') := by
  refine .advance fun operator pos => .skip (.current fun token place => .choice ?_ ?_)
  · refine .bind (alike_parenArguments blind) fun args args' sameArgs => alike_withBlock blind ?_
    simp_all [Node.unplaced]
  · refine .bind (alike_message operator.text) fun name name' sameName => ?_
    refine .current fun next place => .choice (.pure ?_) ?_
    · simp_all [Node.unplaced]
    · refine .bind (alike_tightArguments blind) fun args args' sameArgs => alike_withBlock blind ?_
      simp_all [Node.unplaced]

theorem alike_continueLine : Alike (fun _ _ => True) continueLine continueLine := by
  refine .get fun s t alike => .ite ?_ .skipNewlines (.pure trivial)
  have same : s.continuesOnNextLine = t.continuesOnNextLine := by
    change s.pastNewlines.current.isOpIn [".", "&."] = t.pastNewlines.current.isOpIn [".", "&."]
    rw [Token.eq_of_outline alike.pastNewlines.current]
    rfl
  rw [Token.eq_of_outline alike.current, same]

theorem alike_suffixStep (blind : rules.Blind) {expr expr' : Node} (same : expr.Alike expr') :
    Alike (ParseM.Alike.Steps Node.Alike Node.Alike) (suffixStep rules expr)
      (suffixStep rules expr') := by
  refine .bind alike_continueLine fun _ _ _ => .current fun token pos => ?_
  refine .choice (.map (alike_callSuffix blind same) fun _ _ related => related) ?_
  refine .choice (.map (alike_indexArguments blind) ?_) (.pure same)
  simp_all [ParseM.Alike.Steps, Node.unplaced]

theorem alike_operand (blind : rules.Blind) :
    Alike Node.Alike (operand rules) (operand rules) :=
  .bind (alike_primary blind) fun _ _ same =>
    .loop (R := Node.Alike) same fun _ _ related => alike_suffixStep blind related

/-! ## Operators -/

theorem alike_unary (blind : rules.Blind) : Alike Node.Alike (unary rules) (unary rules) := by
  refine .current fun token pos => .choice (.take (.map blind.unary ?_)) (alike_operand blind)
  simp_all [Node.unplaced]

theorem alike_power (blind : rules.Blind) : Alike Node.Alike (power rules) (power rules) := by
  refine .bind (alike_unary blind) fun left left' same => .isAt fun isPower => .choice ?_ (.pure same)
  refine .take (.skip (.map blind.minus ?_))
  simp_all [Node.unplaced]

theorem alike_minus (blind : rules.Blind) : Alike Node.Alike (minus rules) (minus rules) := by
  refine .current fun token pos => .choice (.take (.map blind.minus ?_)) (alike_power blind)
  simp_all [Node.unplaced]

theorem alike_operation {item : ParseM Node} (each : Alike Node.Alike item item)
    {left left' : Node} (same : left.Alike left') :
    Alike Node.Alike (operation item left) (operation item left') := by
  refine .advance fun token pos => .skip (.map each ?_)
  simp_all [Node.unplaced]

theorem alike_operatorLevel {item : ParseM Node} (each : Alike Node.Alike item item)
    (level : OperatorLevel) :
    Alike Node.Alike (operatorLevel item level) (operatorLevel item level) := by
  refine .bind each fun left left' same => .choice (.loop (R := Node.Alike) same ?_) ?_
  · intro left left' same
    refine .current fun token pos => .choice (.map (alike_operation each same) ?_) (.pure same)
    exact fun _ _ related => related
  · exact .current fun token pos => .choice (alike_operation each same) (.pure same)

theorem alike_operations (blind : rules.Blind) (levels : List OperatorLevel) :
    Alike Node.Alike (operations rules levels) (operations rules levels) := by
  induction levels with
  | nil => exact alike_minus blind
  | cons level tighter ih => exact alike_operatorLevel ih level

theorem alike_range (blind : rules.Blind) : Alike Node.Alike (range rules) (range rules) := by
  refine .bind (alike_operations blind _) fun left left' same => .current fun token pos => ?_
  refine .choice (.take (.map (alike_operations blind _) ?_)) (.pure same)
  simp_all [Node.unplaced]

theorem alike_negated (blind : rules.Blind) :
    Alike Node.Alike (negated rules) (negated rules) := by
  refine .current fun token pos => .choice (.take (.map blind.negated ?_)) (alike_range blind)
  simp_all [Node.unplaced]

theorem alike_expression (blind : rules.Blind) :
    Alike Node.Alike (expression rules) (expression rules) := by
  refine .bind (alike_negated blind) fun left left' same => .loop (R := Node.Alike) same ?_
  intro left left' same
  refine .current fun token pos => .choice (.map ?_ fun _ _ related => related) (.pure same)
  exact alike_operation (alike_negated blind) same

/-! ## Statements -/

theorem alike_listedValue (blind : rules.Blind) :
    Alike Node.Alike (listedValue rules) (listedValue rules) := by
  refine .current fun token pos => .choice (.take (.map blind.range ?_)) blind.value
  simp_all [Node.unplaced]

theorem alike_rightSide (blind : rules.Blind) (takesList : Bool) :
    Alike Node.Alike (rightSide rules takesList) (rightSide rules takesList) := by
  refine .choice (.current fun token pos => ?_) blind.value
  refine .map (.commaList (alike_listedValue blind) (.pure rfl)) fun values values' same => ?_
  exact Node.unplaced_ofValues same _ _

theorem alike_assignment (blind : rules.Blind) (takesList : Bool) :
    Alike Node.Alike (assignment rules takesList) (assignment rules takesList) := by
  refine .current fun token pos => .bind (alike_expression blind) fun expr expr' same => ?_
  refine .current fun sign place => .choice ?_ (.choice ?_ (.pure same))
  · refine .bind (alike_target same) fun left left' sameLeft => .take (.skip ?_)
    refine .map (alike_rightSide blind takesList) ?_
    simp_all [Node.unplaced]
  · refine .bind (alike_target same) fun left left' sameLeft => .take (.skip ?_)
    refine .map blind.value ?_
    simp_all [Node.unplaced]

theorem alike_stmt (blind : rules.Blind) : Alike Node.Alike (stmt rules) (stmt rules) := by
  refine .current fun token pos => .choice (.fail rfl) ?_
  refine .bind (alike_assignment blind true) fun node node' same => ?_
  exact .isAt fun comma => .choice (.fail rfl) (.pure same)

theorem alike_stmtStep (blind : rules.Blind) (words : List String) {done done' : List Node}
    (same : Node.ListAlike done done') :
    Alike (ParseM.Alike.Steps Node.ListAlike Node.ListAlike) (stmtStep rules words done)
      (stmtStep rules words done') := by
  refine .current fun token pos => .choice (.pure same) (.choice (.take (.pure same)) ?_)
  refine .choice (.take (.pure ?_)) (.bind (alike_stmt blind) fun node node' sameNode => ?_)
  · simp_all [ParseM.Alike.Steps, Node.unplaced]
  have longer : Node.ListAlike (done ++ [node]) (done' ++ [node']) := by simp_all
  refine .current fun next place => .choice (.take (.pure ?_)) ?_
  · have commented := Node.withComment_alike sameNode
      (show (Node.comment next.pos next.text).Alike (.comment place next.text) from rfl)
    simp_all [ParseM.Alike.Steps]
  · exact .choice (.pure longer) (.choice (.pure longer) (.fail rfl))

theorem alike_stmts (blind : rules.Blind) (words : List String) :
    Alike Node.ListAlike (stmts rules words) (stmts rules words) :=
  .loop (R := Node.ListAlike) rfl fun _ _ same => alike_stmtStep blind words same

end Parse

/-! ## Programs -/

theorem Rules.blind_ofDepth (depth : Nat) : (Rules.ofDepth depth).Blind := by
  induction depth with
  | zero =>
      exact ⟨fun _ => .fail rfl, .fail rfl, .fail rfl, .fail rfl, .fail rfl, .fail rfl, .fail rfl,
        .fail rfl, .fail rfl⟩
  | succ depth ih =>
      exact ⟨Parse.alike_stmts ih, Parse.alike_stmt ih, Parse.alike_assignment ih false,
        Parse.alike_negated ih, Parse.alike_range ih, Parse.alike_operations ih _,
        Parse.alike_minus ih, Parse.alike_unary ih, Parse.alike_primary ih⟩

/-- Programs are parsed alike if their tokens differ in places only. -/
theorem Tokens.parse_alike {tokens others : Tokens}
    (same : tokens.toList.map Token.outline = others.toList.map Token.outline) :
    (∃ tree other, tokens.parse = .ok tree ∧ others.parse = .ok other ∧ tree.same other = true) ∨
      ∃ error other, tokens.parse = .error error ∧ others.parse = .error other ∧
        error.cause.message = other.cause.message := by
  simp only [Tokens.toList, List.map_append, List.map_cons, List.map_nil] at same
  obtain ⟨body, close⟩ := List.append_inj' same rfl
  have depth : tokens.body.length = others.body.length := by simpa using congrArg List.length body
  have alike : (ParseState.start tokens).Alike (ParseState.start others) :=
    ⟨body, (List.cons.inj close).1, rfl, rfl⟩
  have blind := Rules.blind_ofDepth (others.body.length + 1)
  have programs : Alike Node.Alike (Parse.program (Rules.ofDepth (others.body.length + 1)))
      (Parse.program (Rules.ofDepth (others.body.length + 1))) := by
    refine .current fun token pos => .bind (blind.stmts []) fun body body' sameBody => ?_
    refine .current fun last place => .choice (.pure ?_) (.fail rfl)
    simp_all [Node.unplaced]
  have agree := programs _ _ alike
  unfold Tokens.parse
  rw [depth]
  cases ran : (Parse.program (Rules.ofDepth (others.body.length + 1))).run (.start tokens) with
  | error error =>
      cases ran' : (Parse.program (Rules.ofDepth (others.body.length + 1))).run (.start others) with
      | error error' =>
          rw [ran, ran'] at agree
          exact .inr ⟨error, error', run'_error.2 ran, run'_error.2 ran', agree⟩
      | ok result =>
          rw [ran, ran'] at agree
          exact agree.elim
  | ok result =>
      cases ran' : (Parse.program (Rules.ofDepth (others.body.length + 1))).run (.start others) with
      | error error =>
          rw [ran, ran'] at agree
          exact agree.elim
      | ok result' =>
          rw [ran, ran'] at agree
          exact .inl ⟨result.1, result'.1, run'_ok.2 ⟨result, ran, rfl⟩, run'_ok.2 ⟨result', ran', rfl⟩,
            (Node.same_iff _ _).2 agree.1⟩

/-- A source that has no tree has no formatted text, unless it is left alone. -/
theorem format_eq_error_of_source {options : Options} {source : String} {error : SourceError}
    (formats : (Pragmas.ofSource source).skip = false) (failed : Node.ofSource source = .error error) :
    format options source = .error (.source error) := by
  simp [format, formats, Doc.ofSource, failed]

/--
Two sources whose tokens differ in places only have trees that differ in places only, or are refused
with the same wording.  If moreover their pragmas agree and do not leave them alone, they are
formatted under the same options, and to the same text.
-/
theorem format_eq_of_outline {source other : String} {tokens others : Tokens}
    (lexed : Tokens.ofSource source = .ok tokens) (lexedToo : Tokens.ofSource other = .ok others)
    (same : tokens.toList.map Token.outline = others.toList.map Token.outline) :
    ((∃ tree tree', Node.ofSource source = .ok tree ∧ Node.ofSource other = .ok tree' ∧
        tree.same tree' = true) ∨
      ∃ error error', Node.ofSource source = .error (.parse error) ∧
        Node.ofSource other = .error (.parse error') ∧
        error.cause.message = error'.cause.message) ∧
    (Pragmas.ofSource source = Pragmas.ofSource other → (Pragmas.ofSource source).skip = false →
      ∀ options, (format options source).toOption = (format options other).toOption) := by
  rcases Tokens.parse_alike same with ⟨tree, tree', ran, ran', alike⟩ | ⟨error, error', ran, ran', alike⟩
  · have parsed : Node.ofSource source = .ok tree := by simp only [Node.ofSource, lexed, ran]
    have parsedToo : Node.ofSource other = .ok tree' := by simp only [Node.ofSource, lexedToo, ran']
    refine ⟨.inl ⟨tree, tree', parsed, parsedToo, alike⟩, fun agree formats options => ?_⟩
    rw [format_eq options source formats parsed, format_eq options other (agree ▸ formats) parsedToo,
      Node.layout_eq_of_same alike, agree]
  · have failed : Node.ofSource source = .error (.parse error) := by
      simp only [Node.ofSource, lexed, ran]
    have failedToo : Node.ofSource other = .error (.parse error') := by
      simp only [Node.ofSource, lexedToo, ran']
    refine ⟨.inr ⟨error, error', failed, failedToo, alike⟩, fun agree formats options => ?_⟩
    rw [format_eq_error_of_source formats failed,
      format_eq_error_of_source (agree ▸ formats) failedToo]
    rfl

/-- Whether the tokens of two sources differ in places only. -/
def sameOutlines (left right : String) : Bool :=
  match Tokens.ofSource left, Tokens.ofSource right with
  | .ok tokens, .ok others =>
      decide (tokens.toList.map Token.outline = others.toList.map Token.outline)
  | _, _ => false

theorem exists_of_sameOutlines {left right : String} (same : sameOutlines left right = true) :
    ∃ tokens others, Tokens.ofSource left = .ok tokens ∧ Tokens.ofSource right = .ok others ∧
      tokens.toList.map Token.outline = others.toList.map Token.outline := by
  unfold sameOutlines at same
  split at same
  next tokens others lexed lexedToo => exact ⟨tokens, others, lexed, lexedToo, of_decide_eq_true same⟩
  next => cases same

/-- A line that goes on behind a backslash, and other blanks between tokens. -/
theorem format_eq_of_outline_continued :
    let source := "foo  \x7b |a|\n\n\ta.b  # c\n\x7d"
    let other := "foo\\\n\x7b\t|a|\n\n  a.b # c \n\x7d"
    ∃ tokens others, Tokens.ofSource source = .ok tokens ∧ Tokens.ofSource other = .ok others ∧
      tokens.toList.map Token.outline = others.toList.map Token.outline ∧
      sameTree source other = true ∧
      ∀ options, (format options source).toOption = (format options other).toOption := by
  intro source other
  obtain ⟨tokens, others, lexed, lexedToo, same⟩ := exists_of_sameOutlines
    (show sameOutlines source other = true by decide +kernel)
  obtain ⟨-, formats⟩ := format_eq_of_outline lexed lexedToo same
  exact ⟨tokens, others, lexed, lexedToo, same, by decide +kernel,
    formats (by decide +kernel) (by decide +kernel)⟩

end RubyFormat
