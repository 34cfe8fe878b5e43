import RubyFormat.Proofs.Forms
import RubyFormat.Proofs.Lexed
import RubyFormat.Proofs.Progress

/-!
# The texts of a tree are those of tokens

A name, a literal and a comment have a text of their own.  Reading takes it from a token as it is:
what holds of the texts of all tokens of a source, line breaks apart, holds of all texts of its tree.
-/

namespace RubyFormat

namespace Node

/-- The text that a node has of its own. -/
def ownText? : Node → Option String
  | .name _ _ text | .literal _ _ text | .comment _ text => some text
  | _ => none

/-- The texts in a tree all have a property. -/
def AllTexts (P : String → Prop) (tree : Node) : Prop :=
  ∀ node ∈ tree.preorder, ∀ text ∈ node.ownText?, P text

variable {P : String → Prop} {node : Node}

theorem allTexts_iff :
    node.AllTexts P ↔
      (∀ text ∈ node.ownText?, P text) ∧ ∀ child ∈ node.children, child.AllTexts P := by
  unfold AllTexts
  rw [preorder_eq, List.forall_mem_cons]
  simp only [List.mem_flatMap, forall_exists_index, and_imp]
  refine and_congr_right fun _ => ?_
  exact ⟨fun below child mem inner inside => below inner child mem inside,
    fun below inner child mem inside => below child mem inner inside⟩

namespace AllTexts

/-- A node without a text of its own has the texts of the nodes below it. -/
theorem of (bare : node.ownText? = none) (below : ∀ child ∈ node.children, child.AllTexts P) :
    node.AllTexts P :=
  allTexts_iff.2 ⟨by simp [bare], below⟩

theorem of_fields (bare : node.ownText? = none)
    (each : ∀ field ∈ node.fields, field.2.All (AllTexts P)) : node.AllTexts P :=
  of bare (forall_children each)

/-- A leaf has no text but its own. -/
theorem leaf {text : String} (own : node.ownText? = some text) (none : node.children = [])
    (holds : P text) : node.AllTexts P :=
  allTexts_iff.2 ⟨by simpa [own] using holds, by simp [none]⟩

theorem below (whole : node.AllTexts P) : ∀ child ∈ node.children, child.AllTexts P :=
  (allTexts_iff.1 whole).2

/-- A statement with a comment behind it. -/
theorem withComment {pos : Pos} {text : String} (whole : node.AllTexts P) (holds : P text) :
    (node.withComment (.comment pos text)).AllTexts P := by
  have remark : (Node.comment pos text).AllTexts P := leaf rfl rfl holds
  cases node with
  | call callPos receiver operator message arguments comments =>
      have below := whole.below
      refine of rfl ?_
      simp only [Node.withComment, children, fields, Field.toList, List.flatMap_cons,
        List.flatMap_nil, List.mem_append, List.mem_singleton] at below ⊢
      grind
  | _ =>
      exact of rfl
        (by simpa [Node.withComment, children, fields, Field.toList] using ⟨whole, remark⟩)

theorem ofValues {pos : Pos} {values : List Node} (each : ∀ value ∈ values, value.AllTexts P) :
    (Node.ofValues pos values).AllTexts P := by
  unfold Node.ofValues
  split
  · exact of rfl (by simpa [children, fields, Field.toList] using each)
  · split
    · exact each _ List.mem_cons_self
    · exact of rfl (by simpa [children, fields, Field.toList] using each)

/-- Gathering entries leaves the texts of the arguments as they are. -/
theorem gatherEntries {parts : List Node} (each : ∀ part ∈ parts, part.AllTexts P) :
    ∀ part ∈ Node.gatherEntries parts, part.AllTexts P := by
  refine forall_gatherEntries (fun entry _ first => ?_) (fun entry pos entries _ first hash => ?_)
    each
  · exact of rfl (forall_children_one rfl first)
  · have inside := hash.below
    refine of rfl ?_
    simp only [children, fields, Field.toList, List.flatMap_cons, List.flatMap_nil,
      List.append_nil] at inside ⊢
    exact List.forall_mem_cons.2 ⟨first, inside⟩

/-- The target made of an expression has its texts. -/
theorem target {expr made : Node} {s s' : ParseState}
    (ran : (Parse.target expr).run s = .ok (made, s')) (whole : expr.AllTexts P) :
    made.AllTexts P := by
  have below (child : Node) (mem : child ∈ made.children) : child.AllTexts P :=
    whole.below child (mem_children_of_target ran mem)
  obtain ⟨pos, kind, namePos, text, rfl, rfl⟩ | ⟨pos, inner, -, rfl, rfl⟩ |
    ⟨pos, receiver, operator, namePos, text, comments, rfl, rfl⟩ |
    ⟨pos, receiver, args, rfl, rfl⟩ | ⟨pos, parent, name, rfl, rfl⟩ := target_cases ran
  all_goals exact of rfl below

end AllTexts

end Node

namespace Token

variable {P : String → Prop} {token : Token} {node : Node}

theorem allTexts_of_leaf? (found : token.leaf? = some node) (holds : P token.text) :
    node.AllTexts P := by
  unfold leaf? at found
  split at found
  case h_5 =>
    split at found
    · cases found
    · cases found
      refine .of rfl ?_
      simpa [Node.children, Node.fields, Field.toList] using Node.AllTexts.leaf rfl rfl holds
  case h_9 =>
    split at found
    · cases found
      refine .of rfl ?_
      simpa [Node.children, Node.fields, Field.toList] using Node.AllTexts.leaf rfl rfl holds
    · cases found
  case h_10 => cases found
  case h_6 | h_7 | h_8 =>
    cases found
    refine .of rfl ?_
    simpa [Node.children, Node.fields, Field.toList] using Node.AllTexts.leaf rfl rfl holds
  all_goals
    cases found
    exact .leaf rfl rfl holds

theorem allTexts_of_callee? (found : token.callee? = some node) (holds : P token.text) :
    node.AllTexts P := by
  unfold callee? at found
  split at found
  all_goals cases found
  all_goals exact .leaf rfl rfl holds

theorem allTexts_of_message? (found : token.message? = some node) (holds : P token.text) :
    node.AllTexts P := by
  unfold message? at found
  split at found
  case h_4 =>
    split at found
    · cases found
      exact .leaf rfl rfl holds
    · cases found
  all_goals cases found
  all_goals exact .leaf rfl rfl holds

end Token

/-! ## What is read has the texts of tokens -/

/-- The tokens ahead that are no line breaks have texts with a property, and the end closes them. -/
structure ParseState.Offers (P : String → Prop) (s : ParseState) : Prop where
  ahead : ∀ token ∈ s.ahead, token.kind ≠ .newline → P token.text
  close : s.close.kind = .eof

namespace ParseState.Offers

variable {P : String → Prop} {s s₁ : ParseState}

theorem moves (offers : s.Offers P) (moves : s.Moves s₁) : s₁.Offers P :=
  ⟨fun token mem => offers.ahead token (moves.ahead.subset mem), moves.eof offers.close⟩

theorem next (offers : s.Offers P) : s.next.Offers P :=
  offers.moves (.next s)

theorem skips (offers : s.Offers P) (passed : s.Skips s₁) : s₁.Offers P :=
  offers.moves (.skips passed)

theorem target {expr made : Node} (offers : s.Offers P)
    (ran : (Parse.target expr).run s = .ok (made, s₁)) : s₁.Offers P :=
  offers.moves (.target ran)

theorem declaring (offers : s.Offers P) (name : String) : (s.declaring name).Offers P :=
  offers.moves (.declaring name s)

theorem opened (offers : s.Offers P) : s.opened.Offers P :=
  ⟨offers.ahead, offers.close⟩

theorem atDepth (offers : s.Offers P) (depth : Nat) : (s.atDepth depth).Offers P :=
  ⟨offers.ahead, offers.close⟩

/-- The next token has the property, unless it is a line break or the end. -/
theorem current (offers : s.Offers P) (noBreak : s.current.kind ≠ .newline)
    (noEnd : s.current.kind ≠ .eof) : P s.current.text := by
  obtain ⟨ahead, close, scopes, depth⟩ := s
  cases ahead with
  | nil => exact absurd offers.close noEnd
  | cons token rest => exact offers.ahead token List.mem_cons_self noBreak

theorem ofKind {kind : TokenKind} (offers : s.Offers P) (isKind : s.current.kind = kind)
    (noBreak : kind ≠ .newline) (noEnd : kind ≠ .eof) : P s.current.text :=
  offers.current (isKind ▸ noBreak) (isKind ▸ noEnd)

/-- The name that the next token makes. -/
theorem name {kind : TokenKind} (offers : s.Offers P) (isKind : s.current.kind = kind)
    (noBreak : kind ≠ .newline) (noEnd : kind ≠ .eof) (nameKind : NameKind) (pos : Pos) :
    (Node.name nameKind pos s.current.text).AllTexts P :=
  .leaf rfl rfl (offers.ofKind isKind noBreak noEnd)

theorem leaf? {node : Node} (offers : s.Offers P) (found : s.current.leaf? = some node) :
    node.AllTexts P := by
  refine Token.allTexts_of_leaf? found (offers.current ?_ (Token.kind_of_leaf? found))
  intro isBreak
  rw [Token.leaf?, isBreak] at found
  cases found

theorem callee? {node : Node} (offers : s.Offers P) (found : s.current.callee? = some node) :
    node.AllTexts P := by
  refine Token.allTexts_of_callee? found (offers.current ?_ (Token.kind_of_callee? found))
  intro isBreak
  rw [Token.callee?, isBreak] at found
  cases found

theorem message? {node : Node} (offers : s.Offers P) (found : s.current.message? = some node) :
    node.AllTexts P := by
  refine Token.allTexts_of_message? found (offers.current ?_ (Token.kind_of_message? found))
  intro isBreak
  rw [Token.message?, isBreak] at found
  cases found

theorem paramName? (offers : s.Offers P) : ∀ name ∈ s.paramName?.1, name.AllTexts P := by
  unfold ParseState.paramName?
  split
  next isIdent =>
    rintro name ⟨⟩
    exact .leaf rfl rfl (offers.ofKind (eq_of_beq isIdent) nofun nofun)
  next => exact nofun

end ParseState.Offers

/-- The nodes that a rule goes on with. -/
def Rule.carried : Rule → List Node
  | .joined node | .chain _ _ node | .suffixes node | .callSuffix node | .block _ node => [node]
  | .paramList _ pos list => [list.toNode pos]
  | .items item _ | .entries item _ => item.carried
  | _ => []

theorem Rule.carried_rightSide (takesList : Bool) : (Rule.rightSide takesList).carried = [] := by
  cases takesList <;> rfl

theorem ParamList.allTexts_add {P : String → Prop} {list : ParamList} {pos : Pos} {param : Node}
    (whole : (list.toNode pos).AllTexts P) (more : param.AllTexts P) :
    ((list.add param).toNode pos).AllTexts P :=
  .of rfl (forall_children_add whole.below more)

theorem ParamList.allTexts_comma {P : String → Prop} {list : ParamList} {pos comma : Pos}
    (whole : (list.toNode pos).AllTexts P) :
    (ParamList.toNode { list with rest := some (.excessedComma comma) } pos).AllTexts P :=
  .of rfl (forall_children_rest whole.below (.of rfl nofun))

namespace Derives

open Node RubyFormat.Field

variable {P : String → Prop} {fits : ParamList → Node → Prop} {rule : Rule} {s s₁ : ParseState}
  {field : Field Node}

/-- What a rule reads has the texts of the tokens ahead and of the nodes that it goes on with. -/
def HasTexts (P : String → Prop) (rule : Rule) (s : ParseState) (field : Field Node)
    (_ : ParseState) : Prop :=
  s.Offers P → (∀ node ∈ rule.carried, node.AllTexts P) → field.All (AllTexts P)

variable {reads : Derives fits rule s field s₁}

section Families

variable (parts : reads.Parts (HasTexts P)) (offers : s.Offers P)
include parts offers

theorem allTexts_statements (family : rule.family = .statements) : field.All (AllTexts P) := by
  cases parts with
  | stmtsDone => exact List.forall_mem_nil _
  | stmt _ _ _ _ ih => exact ih offers (List.forall_mem_nil _)
  | stmtsBreak _ _ _ _ ih => exact ih offers.next (List.forall_mem_nil _)
  | program _ _ _ ih =>
      have body := ih offers (List.forall_mem_nil _)
      exact all_node.2 (.of rfl (by simpa [children, fields, Field.toList] using body))
  | stmtsComment _ isComment _ _ ih =>
      have text := offers.ofKind isComment (by decide) (by decide)
      exact List.forall_mem_cons.2 ⟨.leaf rfl rfl text, ih offers.next (List.forall_mem_nil _)⟩
  | stmtsRemark _ _ _ reads isComment _ _ ih₁ _ ih₂ =>
      have later := offers.moves reads.moves
      have text := later.ofKind isComment (by decide) (by decide)
      have stmt := all_node.1 (ih₁ offers (List.forall_mem_nil _))
      exact List.forall_mem_cons.2 ⟨stmt.withComment text, ih₂ later.next (List.forall_mem_nil _)⟩
  | stmtsLast _ _ _ _ _ _ _ ih => exact ih offers (List.forall_mem_nil _)
  | stmtsMore _ _ _ reads _ _ _ _ _ ih₁ _ ih₂ =>
      have stmt := all_node.1 (ih₁ offers (List.forall_mem_nil _))
      exact List.forall_mem_cons.2 ⟨stmt, ih₂ (offers.moves reads.moves) (List.forall_mem_nil _)⟩
  | _ => cases family

theorem allTexts_assignments (family : rule.family = .assignments) : field.All (AllTexts P) := by
  cases parts with
  | unassigned _ _ _ _ ih | listedPlain _ _ _ ih => exact ih offers (List.forall_mem_nil _)
  | assign reads _ made skips _ _ ih₁ _ ih₂ =>
      have left := (all_node.1 (ih₁ offers (List.forall_mem_nil _))).target made
      have later := (((offers.moves reads.moves).target made).next).skips skips
      have right := all_node.1 (ih₂ later (by simp [Rule.carried_rightSide]))
      exact all_node.2 (.of rfl (forall_children_two rfl left right))
  | opAssign reads _ _ made skips _ _ ih₁ _ ih₂ =>
      have left := (all_node.1 (ih₁ offers (List.forall_mem_nil _))).target made
      have later := (((offers.moves reads.moves).target made).next).skips skips
      have right := all_node.1 (ih₂ later (List.forall_mem_nil _))
      exact all_node.2 (.of rfl (forall_children_two rfl left right))
  | values _ _ ih => exact all_node.2 (.ofValues (ih offers (List.forall_mem_nil _)))
  | listedSplat _ _ _ ih =>
      have inner := all_node.1 (ih offers.next (List.forall_mem_nil _))
      exact all_node.2 (.of rfl (forall_children_one rfl inner))
  | _ => cases family

theorem allTexts_junctions (family : rule.family = .junctions)
    (carries : ∀ node ∈ rule.carried, node.AllTexts P) : field.All (AllTexts P) := by
  cases parts with
  | joinedDone => exact carries
  | notNegated _ _ _ ih | notRange _ _ _ ih => exact ih offers (List.forall_mem_nil _)
  | not _ _ _ ih =>
      have inner := all_node.1 (ih offers.next (List.forall_mem_nil _))
      exact all_node.2 (.of rfl (forall_children_one rfl inner))
  | expression reads _ _ ih₁ _ ih₂ =>
      exact ih₂ (offers.moves reads.moves) (ih₁ offers (List.forall_mem_nil _))
  | joinedMore _ skips reads _ _ ih₁ _ ih₂ =>
      have later := offers.next.skips skips
      have left := List.forall_mem_singleton.1 carries
      have right := all_node.1 (ih₁ later (List.forall_mem_nil _))
      exact ih₂ (later.moves reads.moves) (List.forall_mem_singleton.2 (.of rfl
        (forall_children_two rfl left right)))
  | rangeBetween reads _ _ _ ih₁ _ ih₂ =>
      have left := all_node.1 (ih₁ offers (List.forall_mem_nil _))
      have right := all_node.1 (ih₂ (offers.moves reads.moves).next (List.forall_mem_nil _))
      exact all_node.2 (.of rfl (forall_children_two rfl left right))
  | _ => cases family

theorem allTexts_operations (family : rule.family = .operations)
    (carries : ∀ node ∈ rule.carried, node.AllTexts P) : field.All (AllTexts P) := by
  cases parts with
  | chainDone => exact carries
  | tightest _ _ ih | notMinus _ _ _ ih | notPower _ _ _ ih | notUnary _ _ _ ih =>
      exact ih offers (List.forall_mem_nil _)
  | minus _ _ _ ih | unary _ _ _ ih =>
      have inner := all_node.1 (ih offers.next (List.forall_mem_nil _))
      exact all_node.2 (.of rfl (forall_children_one rfl inner))
  | level reads _ _ ih₁ _ ih₂ =>
      exact ih₂ (offers.moves reads.moves) (ih₁ offers (List.forall_mem_nil _))
  | chainMore _ _ skips reads _ _ ih₁ _ ih₂ =>
      have later := offers.next.skips skips
      have left := List.forall_mem_singleton.1 carries
      have right := all_node.1 (ih₁ later (List.forall_mem_nil _))
      exact ih₂ (later.moves reads.moves) (List.forall_mem_singleton.2 (.of rfl
        (forall_children_two rfl left right)))
  | chainOnce _ _ skips _ _ ih =>
      have left := List.forall_mem_singleton.1 carries
      have right := all_node.1 (ih (offers.next.skips skips) (List.forall_mem_nil _))
      exact all_node.2 (.of rfl (forall_children_two rfl left right))
  | power reads _ skips _ _ ih₁ _ ih₂ =>
      have left := all_node.1 (ih₁ offers (List.forall_mem_nil _))
      have right := all_node.1 (ih₂ ((offers.moves reads.moves).next.skips skips)
        (List.forall_mem_nil _))
      exact all_node.2 (.of rfl (forall_children_two rfl left right))
  | _ => cases family

theorem allTexts_messages (family : rule.family = .messages)
    (carries : ∀ node ∈ rule.carried, node.AllTexts P) : field.All (AllTexts P) := by
  cases parts with
  | suffixesDone => exact carries
  | operand reads _ _ ih₁ _ ih₂ =>
      exact ih₂ (offers.moves reads.moves) (ih₁ offers (List.forall_mem_nil _))
  | suffixesCall _ reads _ _ ih₁ _ ih₂ =>
      have later := offers.moves (.continued _)
      exact ih₂ (later.moves reads.moves) (ih₁ later carries)
  | suffixesIndex _ reads _ _ ih₁ _ ih₂ =>
      have receiver := List.forall_mem_singleton.1 carries
      have args := all_optional.1 (ih₁ offers (List.forall_mem_nil _))
      refine ih₂ (offers.moves reads.moves) (List.forall_mem_singleton.2 (.of rfl ?_))
      simpa [children, fields, Field.toList, or_imp, forall_and] using ⟨receiver, args⟩
  | callShorthand skips _ reads _ _ ih₁ _ ih₂ =>
      have later := offers.next.skips skips
      have receiver := List.forall_mem_singleton.1 carries
      have message (pos : Pos) : (Node.callShorthand pos).AllTexts P := .of rfl
        (List.forall_mem_nil _)
      have args := all_node.1 (ih₁ later (List.forall_mem_nil _))
      exact ih₂ (later.moves reads.moves) (List.forall_mem_singleton.2 (.of rfl
        (forall_children_three rfl receiver (message _) args)))
  | constPath skips found =>
      have receiver := List.forall_mem_singleton.1 carries
      have name := (offers.next.skips skips).message? found
      exact all_node.2 (.of rfl (forall_children_two rfl receiver name))
  | callBare skips found _ _ _ _ ih =>
      have later := offers.next.skips skips
      have receiver := List.forall_mem_singleton.1 carries
      have name := later.message? found
      exact ih later.next (List.forall_mem_singleton.2 (.of rfl
        (forall_children_two rfl receiver name)))
  | callArgs skips found _ reads _ _ ih₁ _ ih₂ =>
      have later := offers.next.skips skips
      have receiver := List.forall_mem_singleton.1 carries
      have name := later.message? found
      have args := all_node.1 (ih₁ later.next (List.forall_mem_nil _))
      exact ih₂ (later.next.moves reads.moves) (List.forall_mem_singleton.2 (.of rfl
        (forall_children_three rfl receiver name args)))
  | _ => cases family

theorem allTexts_operands (family : rule.family = .operands) : field.All (AllTexts P) := by
  cases parts with
  | leaf found => exact all_node.2 (offers.leaf? found)
  | constant isKind | localVar isKind | vcall isKind =>
      have name := offers.name isKind (by decide) (by decide)
      exact all_node.2 (.of rfl (forall_children_one rfl (name _ _)))
  | fcall found _ reads _ _ ih₁ _ ih₂ =>
      have callee := offers.callee? found
      have args := all_node.1 (ih₁ offers.next (List.forall_mem_nil _))
      exact ih₂ (offers.next.moves reads.moves) (List.forall_mem_singleton.2 (.of rfl
        (forall_children_two rfl callee args)))
  | command isKind _ _ _ reads _ _ ih₁ _ ih₂ =>
      have name := offers.name isKind (by decide) (by decide)
      have inner (depth : Nat) := offers.next.atDepth depth
      have args := all_node.1 (ih₁ (inner _) (List.forall_mem_nil _))
      refine ih₂ (((inner _).moves reads.moves).atDepth _)
        (List.forall_mem_singleton.2 (.of rfl ?_))
      simpa [children, fields, Field.toList] using ⟨name _ _, args⟩
  | fcallBlock isKind _ _ _ _ _ _ ih =>
      have name := offers.name isKind (by decide) (by decide)
      exact ih offers.next (List.forall_mem_singleton.2 (.of rfl
        (forall_children_one rfl (name _ _))))
  | paren _ skips _ _ _ _ ih =>
      have inner := all_node.1 (ih (offers.next.skips skips) (List.forall_mem_nil _))
      exact all_node.2 (.of rfl (forall_children_one rfl inner))
  | array _ skips _ _ _ ih | hash _ skips _ _ _ ih =>
      have elements := ih ((offers.next.atDepth 0).skips skips) (List.forall_mem_nil _)
      exact all_node.2 (.of rfl (by simpa [children, fields, Field.toList] using elements))
  | lambda _ reads _ _ ih₁ _ ih₂ =>
      have params := all_optional.1 (ih₁ offers.next.opened (List.forall_mem_nil _))
      have body := ih₂ (offers.next.opened.moves reads.moves) (List.forall_mem_nil _)
      refine all_node.2 (.of rfl ?_)
      simpa [children, fields, Field.toList, or_imp, forall_and] using ⟨params, body⟩
  | _ => cases family

theorem allTexts_blocks (family : rule.family = .blocks)
    (carries : ∀ node ∈ rule.carried, node.AllTexts P) : field.All (AllTexts P) := by
  cases parts with
  | blockVarNone | lambdaNone => exact List.forall_mem_nil _
  | blockNone => exact carries
  | blockBraces _ _ _ ih | blockDo _ _ _ ih =>
      have call := List.forall_mem_singleton.1 carries
      have block := all_node.1 (ih offers (List.forall_mem_nil _))
      exact all_node.2 (.of rfl (forall_children_two rfl call block))
  | braceBlock _ skips reads _ _ _ ih₁ _ ih₂ =>
      have inner := (offers.next.atDepth 0).opened.skips skips
      have params := all_optional.1 (ih₁ inner (List.forall_mem_nil _))
      have body := ih₂ (inner.moves reads.moves) (List.forall_mem_nil _)
      refine all_node.2 (.of rfl ?_)
      simpa [children, fields, Field.toList, or_imp, forall_and] using ⟨params, body⟩
  | doBlock _ reads _ _ _ ih₁ _ ih₂ =>
      have inner := (offers.next.atDepth 0).opened
      have params := all_optional.1 (ih₁ inner (List.forall_mem_nil _))
      have body := all_node.1 (ih₂ (inner.moves reads.moves) (List.forall_mem_nil _))
      refine all_node.2 (.of rfl ?_)
      simpa [children, fields, Field.toList, or_imp, forall_and] using ⟨params, body⟩
  | blockVarBars => exact all_node.2 (.of rfl (List.forall_mem_nil _))
  | blockVarSome _ _ _ _ ih =>
      have params := all_node.1 (ih offers.next (List.forall_mem_nil _))
      exact all_node.2 (.of rfl (forall_children_one rfl params))
  | lambdaParen _ _ _ _ ih | lambdaBraces _ _ _ _ ih | lambdaDo _ _ _ _ ih =>
      exact ih offers.next (List.forall_mem_nil _)
  | lambdaBare _ _ _ _ ih => exact ih offers (List.forall_mem_nil _)
  | _ => cases family

theorem allTexts_clauses (family : rule.family = .clauses) : field.All (AllTexts P) := by
  cases parts with
  | exceptionsNone | rescueNone | holderNone | clauseNone => exact List.forall_mem_nil _
  | exceptionsSome _ _ _ ih => exact ih offers (List.forall_mem_nil _)
  | bodyStmt reads₁ reads₂ reads₃ _ _ ih₁ _ ih₂ _ ih₃ _ ih₄ =>
      have later₁ := offers.moves reads₁.moves
      have later₂ := later₁.moves reads₂.moves
      refine all_node.2 (.of_fields rfl ?_)
      simp only [fields, List.forall_mem_cons]
      exact ⟨ih₁ offers (List.forall_mem_nil _), ih₂ later₁ (List.forall_mem_nil _), ih₃ later₂
        (List.forall_mem_nil _),
        ih₄ (later₂.moves reads₃.moves) (List.forall_mem_nil _), List.forall_mem_nil _⟩
  | rescueMore _ reads₁ reads₂ reads₃ _ _ ih₁ _ ih₂ _ ih₃ _ ih₄ =>
      have later₁ := offers.next.moves reads₁.moves
      have later₂ := (later₁.moves reads₂.moves).moves (.pastThen _)
      refine all_node.2 (.of_fields rfl ?_)
      simp only [fields, List.forall_mem_cons]
      exact ⟨ih₁ offers.next (List.forall_mem_nil _), ih₂ later₁ (List.forall_mem_nil _), ih₃ later₂
        (List.forall_mem_nil _),
        ih₄ (later₂.moves reads₃.moves) (List.forall_mem_nil _), List.forall_mem_nil _⟩
  | holderSome _ _ made _ ih =>
      exact all_node.2 ((all_node.1 (ih offers.next (List.forall_mem_nil _))).target made)
  | clauseSome _ _ _ ih => exact ih offers.next (List.forall_mem_nil _)
  | _ => cases family

theorem allTexts_parameters (family : rule.family = .parameters)
    (carries : ∀ node ∈ rule.carried, node.AllTexts P) : field.All (AllTexts P) := by
  cases parts with
  | paramsDone => exact carries
  | params skips _ _ ih =>
      exact ih (offers.skips skips) (List.forall_mem_singleton.2 (.of rfl (List.forall_mem_nil _)))
  | paramsLast _ _ _ _ _ _ ih =>
      have list := List.forall_mem_singleton.1 carries
      exact all_node.2 (ParamList.allTexts_add list
        (all_node.1 (ih offers (List.forall_mem_nil _))))
  | paramsExcess _ _ _ _ _ _ _ _ _ _ ih =>
      have list := List.forall_mem_singleton.1 carries
      have added := ParamList.allTexts_add list (all_node.1 (ih offers (List.forall_mem_nil _)))
      exact all_node.2 (ParamList.allTexts_comma added)
  | paramsMore _ reads _ skips _ skips' _ _ _ ih₁ _ ih₂ =>
      have list := List.forall_mem_singleton.1 carries
      have later := ((offers.moves reads.moves).skips skips).next.skips skips'
      exact ih₂ later (List.forall_mem_singleton.2
        (ParamList.allTexts_add list (all_node.1 (ih₁ offers (List.forall_mem_nil _)))))
  | restParam | keywordRestParam =>
      have name := offers.next.paramName?
      exact all_node.2 (.of rfl (by simpa [children, fields, Field.toList] using name))
  | blockParam _ isKind =>
      have name := offers.next.name isKind (by decide) (by decide)
      exact all_node.2 (.of rfl (forall_children_one rfl (name _ _)))
  | keywordParam isKind =>
      have label := offers.name isKind (by decide) (by decide)
      exact all_node.2 (.of rfl (forall_children_one rfl (label _ _)))
  | keywordDefault isKind same _ _ _ ih =>
      have label := offers.name isKind (by decide) (by decide)
      have default := all_node.1 (ih (same ▸ offers.next.declaring _) (List.forall_mem_nil _))
      exact all_node.2 (.of rfl (forall_children_two rfl (label _ _) default))
  | optionalParam isKind same _ _ _ ih =>
      have name := offers.name isKind (by decide) (by decide)
      have default := all_node.1 (ih (same ▸ offers.next.declaring _).next (List.forall_mem_nil _))
      exact all_node.2 (.of rfl (forall_children_two rfl (name _ _) default))
  | nameParam isKind => exact all_node.2 (offers.name isKind (by decide) (by decide) _ _)
  | _ => cases family

theorem allTexts_lists (family : rule.family = .lists)
    (carries : ∀ node ∈ rule.carried, node.AllTexts P) : field.All (AllTexts P) := by
  cases parts with
  | entriesDone => exact List.forall_mem_nil _
  | elementPlain _ _ _ ih => exact ih offers (List.forall_mem_nil _)
  | elementSplat _ _ _ ih | entrySplat _ _ _ ih =>
      have inner := all_node.1 (ih offers.next (List.forall_mem_nil _))
      exact all_node.2 (.of rfl (forall_children_one rfl inner))
  | entryArrow _ _ reads skips _ skips' _ _ ih₁ _ ih₂ =>
      have left := all_node.1 (ih₁ offers (List.forall_mem_nil _))
      have later := ((offers.moves reads.moves).skips skips).next.skips skips'
      have right := all_node.1 (ih₂ later (List.forall_mem_nil _))
      exact all_node.2 (.of rfl (forall_children_two rfl left right))
  | itemsLast _ _ _ ih | itemsClosed _ _ _ _ _ ih | entriesLast _ _ _ _ _ ih =>
      exact ih offers carries
  | itemsMore reads _ skips _ _ _ ih₁ _ ih₂ =>
      have later := (offers.moves reads.moves).next.skips skips
      exact List.forall_mem_cons.2 ⟨all_node.1 (ih₁ offers carries), ih₂ later carries⟩
  | entriesMore _ reads skips _ skips' _ _ ih₁ _ ih₂ =>
      have later := ((offers.moves reads.moves).skips skips).next.skips skips'
      exact List.forall_mem_cons.2 ⟨all_node.1 (ih₁ offers carries), ih₂ later carries⟩
  | entryLabel isKind skips _ _ ih =>
      have label := offers.name isKind (by decide) (by decide)
      have value := all_node.1 (ih (offers.next.skips skips) (List.forall_mem_nil _))
      exact all_node.2 (.of rfl (forall_children_two rfl (label _ _) value))
  | _ => cases family

theorem allTexts_arguments (family : rule.family = .arguments) : field.All (AllTexts P) := by
  cases parts with
  | indexEmpty => exact List.forall_mem_nil _
  | argumentPlain _ _ _ _ _ ih => exact ih offers (List.forall_mem_nil _)
  | argumentSplat _ _ _ ih | argumentDoubleSplat _ _ _ ih | argumentBlock _ _ _ _ ih =>
      have inner := all_node.1 (ih offers.next (List.forall_mem_nil _))
      exact all_node.2 (.of rfl (forall_children_one rfl inner))
  | argumentArrow _ _ reads _ skips _ _ ih₁ _ ih₂ =>
      have left := all_node.1 (ih₁ offers (List.forall_mem_nil _))
      have right := all_node.1 (ih₂ ((offers.moves reads.moves).next.skips skips)
        (List.forall_mem_nil _))
      exact all_node.2 (.of rfl (forall_children_two rfl left right))
  | argumentLabel isKind skips _ _ ih =>
      have label := offers.name isKind (by decide) (by decide)
      have value := all_node.1 (ih (offers.next.skips skips) (List.forall_mem_nil _))
      exact all_node.2 (.of rfl (forall_children_two rfl (label _ _) value))
  | arguments _ _ ih =>
      have parts := AllTexts.gatherEntries (ih offers (List.forall_mem_nil _))
      exact all_node.2 (.of rfl (by simpa [children, fields, Field.toList] using parts))
  | argumentBlockLone | parenEmpty => exact all_node.2 (.of rfl (List.forall_mem_nil _))
  | parenFull _ skips _ _ _ _ _ ih =>
      have args := all_node.1 (ih ((offers.next.atDepth 0).skips skips) (List.forall_mem_nil _))
      exact all_node.2 (.of rfl (forall_children_one rfl args))
  | indexFull _ skips _ _ _ _ _ ih => exact ih (offers.next.skips skips) (List.forall_mem_nil _)
  | _ => cases family

end Families

/-- What a rule reads has the texts of the tokens ahead and of the nodes that it goes on with. -/
theorem allTexts (reads : Derives fits rule s field s₁) (offers : s.Offers P)
    (carries : ∀ node ∈ rule.carried, node.AllTexts P) : field.All (AllTexts P) := by
  induction reads using of_parts with
  | @step rule _ _ _ _ parts =>
      cases family : rule.family with
      | statements => exact allTexts_statements parts offers family
      | assignments => exact allTexts_assignments parts offers family
      | junctions => exact allTexts_junctions parts offers family carries
      | operations => exact allTexts_operations parts offers family carries
      | messages => exact allTexts_messages parts offers family carries
      | operands => exact allTexts_operands parts offers family
      | blocks => exact allTexts_blocks parts offers family carries
      | clauses => exact allTexts_clauses parts offers family
      | parameters => exact allTexts_parameters parts offers family carries
      | lists => exact allTexts_lists parts offers family carries
      | arguments => exact allTexts_arguments parts offers family

end Derives

/-- What holds of the texts of the tokens of a source, line breaks apart, holds of the texts of its
tree. -/
theorem Node.allTexts_of_parse {P : String → Prop} {source : String} {tokens : Tokens} {tree : Node}
    (lexed : Tokens.ofSource source = .ok tokens) (parsed : tokens.parse = .ok tree)
    (each : ∀ token ∈ tokens.body, token.kind ≠ .newline → P token.text) : tree.AllTexts P := by
  obtain ⟨s, reads⟩ := Reads.of_parse parsed
  have offers : (ParseState.start tokens).Offers P := ⟨each, Tokens.close_of_source lexed⟩
  exact Field.all_node.1 (reads.allTexts offers nofun)

end RubyFormat
