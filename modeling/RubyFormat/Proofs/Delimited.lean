import RubyFormat.Proofs.Completeness
import RubyFormat.Proofs.Sheltered

/-!
# Delimiters and the depth of commands

What stands between the delimiters of arrays, hashes, arguments and blocks is read at the depth
zero, so the result does not depend on the depth around it.  Parentheses around an expression,
indexes and lambdas do not change the depth.  What they hold is read alike at every depth if no call
in it takes a do block outside all other delimiters, and otherwise at the depth zero only.
-/

namespace RubyFormat

/-! ## Parsers that are shielded from the depth -/

namespace ParseM

variable {α β : Type}

/-- Whatever the depth of commands is, the parser gives the same result and leaves the depth. -/
def Shields (parser : ParseM α) : Prop :=
  ∀ s depth, parser.run (s.atDepth depth) = (parser.run s).map (Prod.map id (·.atDepth depth))

namespace Shields

variable {parser : ParseM α} {then' : α → ParseM β}

theorem pure (value : α) : Shields (Pure.pure value) :=
  fun _ _ => rfl

theorem current : Shields ParseM.current :=
  fun _ _ => rfl

theorem bind (first : parser.Shields) (second : ∀ value, (then' value).Shields) :
    (parser >>= then').Shields := by
  intro s depth
  rw [StateT.run_bind, StateT.run_bind, first]
  cases parser.run s with
  | error error => rfl
  | ok result => exact second result.1 result.2 depth

theorem advance : Shields ParseM.advance := by
  rintro ⟨ahead, close, scopes, depth⟩ other
  cases ahead with
  | nil => rfl
  | cons token rest => rfl

theorem fail (cause : ParseCause) : Shields (ParseM.fail cause : ParseM α) :=
  fun _ _ => rfl

theorem ite {condition : Prop} [Decidable condition] {other : ParseM α} (yes : parser.Shields)
    (no : other.Shields) : (if condition then parser else other).Shields := by
  split
  · exact yes
  · exact no

theorem expect (word : String) : (ParseM.expect word).Shields :=
  .bind .current fun _ => .ite (.bind .advance fun _ => .pure _) (.fail _)

theorem modifyScopes (change : List (List String) → List (List String)) :
    (ParseM.modifyScopes change).Shields := by
  rintro ⟨ahead, close, scopes, depth⟩ other
  cases scopes with
  | nil => rfl
  | cons scope outer => rfl

/-- Between delimiters the depth is zero. -/
theorem delimited (parser : ParseM α) : (ParseM.delimited parser).Shields := by
  intro s depth
  have run (s : ParseState) : (ParseM.delimited parser).run s =
      (parser.run (s.atDepth 0)).map (Prod.map id (·.atDepth s.commandDepth)) := by
    change Except.bind (parser.run (s.atDepth 0)) _ = _
    cases parser.run (s.atDepth 0) <;> rfl
  rw [run, run]
  change Except.map _ (parser.run (s.atDepth 0)) = _
  cases parser.run (s.atDepth 0) <;> rfl

end Shields

end ParseM

namespace Parse

open ParseM

variable (rules : Rules)

theorem shields_array : (array rules).Shields :=
  .bind .current fun _ => .bind (.expect _) fun _ => .bind (.delimited _) fun _ => .pure _

theorem shields_hash : (hash rules).Shields :=
  .bind .current fun _ => .bind (.expect _) fun _ => .bind (.delimited _) fun _ => .pure _

theorem shields_parenArguments : (parenArguments rules).Shields :=
  .bind .current fun _ => .bind (.expect _) fun _ => .bind (.delimited _) fun _ => .pure _

theorem shields_braceBlock : (braceBlock rules).Shields :=
  .bind .current fun _ => .bind (.expect _) fun _ => .delimited _

theorem shields_doBlock : (doBlock rules).Shields :=
  .bind .current fun _ => .bind (.expect _) fun _ => .delimited _

end Parse

/-! ## Trees without bare do blocks -/

namespace Node

variable {node : Node}

/-- All do blocks of a tree stand between delimiters. -/
def NoBareDo (node : Node) : Prop :=
  node.bareDo = false

namespace NoBareDo

theorem below (noBare : node.NoBareDo) (open_ : node.shelters = false) :
    ∀ child ∈ node.children, child.NoBareDo := by
  obtain ⟨-, shelters | below⟩ := bareDo_eq_false_iff.1 noBare
  · rw [open_] at shelters
    cases shelters
  · exact below

theorem fields (noBare : node.NoBareDo) (open_ : node.shelters = false) :
    ∀ field ∈ node.fields, field.2.All NoBareDo :=
  fun field mem child inside =>
    noBare.below open_ child (List.mem_flatMap.2 ⟨field, mem, inside⟩)

theorem noDoBlock (noBare : node.NoBareDo) : node.hasDoBlock = false :=
  (bareDo_eq_false_iff.1 noBare).1

theorem of_below (noDo : node.hasDoBlock = false)
    (below : ∀ child ∈ node.children, child.NoBareDo) : node.NoBareDo :=
  bareDo_eq_false_iff.2 ⟨noDo, .inr below⟩

/-- Both parts of a node that holds two. -/
theorem pair (noBare : node.NoBareDo) (open_ : node.shelters = false) {left right : Node}
    (parts : node.children = [left, right]) : left.NoBareDo ∧ right.NoBareDo := by
  have below := noBare.below open_
  rw [parts] at below
  simpa using below

theorem of_withComment {remark : Node} (noBare : (node.withComment remark).NoBareDo) :
    node.NoBareDo := by
  cases node with
  | call pos receiver operator message arguments comments =>
      have below := noBare.below rfl
      refine of_below rfl ?_
      simp only [withComment, children, Node.fields, Field.toList, List.flatMap_cons,
        List.flatMap_nil, List.mem_append, List.mem_singleton] at below ⊢
      grind
  | _ => exact (noBare.below rfl) _ (by simp [withComment, children, Node.fields, Field.toList])

theorem of_ofValues {pos : Pos} {values : List Node} (noBare : (ofValues pos values).NoBareDo) :
    ∀ value ∈ values, value.NoBareDo := by
  unfold ofValues at noBare
  split at noBare
  · simpa [children, Node.fields, Field.toList] using noBare.below rfl
  · split at noBare
    · exact List.forall_mem_singleton.2 noBare
    · simpa [children, Node.fields, Field.toList] using noBare.below rfl

theorem bareAssocHash_iff {pos : Pos} {entries : List Node} :
    (Node.bareAssocHash pos entries).NoBareDo ↔ ∀ entry ∈ entries, entry.NoBareDo := by
  constructor
  · intro noBare
    simpa [children, Node.fields, Field.toList] using noBare.below rfl
  · intro each
    exact of_below rfl (by simpa [children, Node.fields, Field.toList] using each)

theorem of_gatherEntries {parts : List Node}
    (noBare : ∀ part ∈ gatherEntries parts, part.NoBareDo) :
    ∀ part ∈ parts, part.NoBareDo := by
  induction parts with
  | nil => exact nofun
  | cons part rest ih =>
      rw [gatherEntries] at noBare
      split at noBare
      next =>
        split at noBare
        next pos entries tail found =>
          obtain ⟨hash, others⟩ := List.forall_mem_cons.1 noBare
          obtain ⟨first, entries⟩ := List.forall_mem_cons.1 (bareAssocHash_iff.1 hash)
          refine List.forall_mem_cons.2 ⟨first, ih ?_⟩
          rw [found]
          exact List.forall_mem_cons.2 ⟨bareAssocHash_iff.2 entries, others⟩
        next =>
          obtain ⟨hash, others⟩ := List.forall_mem_cons.1 noBare
          exact List.forall_mem_cons.2
            ⟨List.forall_mem_singleton.1 (bareAssocHash_iff.1 hash), ih others⟩
      next =>
        obtain ⟨first, others⟩ := List.forall_mem_cons.1 noBare
        exact List.forall_mem_cons.2 ⟨first, ih others⟩

theorem of_target {expr target : Node} {s s' : ParseState}
    (made : (Parse.target expr).run s = .ok (target, s')) (free : expr.Free)
    (noBare : target.NoBareDo) : expr.NoBareDo := by
  obtain ⟨pos, kind, namePos, text, rfl, rfl⟩ | ⟨pos, inner, -, rfl, rfl⟩ |
    ⟨pos, receiver, operator, namePos, text, comments, rfl, rfl⟩ |
    ⟨pos, receiver, args, rfl, rfl⟩ | ⟨pos, parent, name, rfl, rfl⟩ := target_cases made
  case inr.inr.inl =>
    -- A call that can stand anywhere has no comments.
    cases comments with
    | nil => exact of_below rfl (noBare.below rfl)
    | cons => cases free.free
  all_goals exact of_below rfl (noBare.below rfl)

end NoBareDo

end Node

theorem ParamList.defaults_add {list : ParamList} {param default : Node}
    (mem : default ∈ list.optional ++ list.keywords) :
    default ∈ (list.add param).optional ++ (list.add param).keywords := by
  unfold add addName
  split <;> try split
  all_goals simp_all; try tauto

theorem ParamList.noBareDo_defaults {list : ParamList} {pos : Pos}
    (noBare : (list.toNode pos).NoBareDo) :
    ∀ default ∈ list.optional ++ list.keywords, default.NoBareDo := by
  intro default mem
  refine noBare.below rfl default ?_
  simp only [toNode, Node.children, Node.fields, Field.toList, List.flatMap_cons,
    List.flatMap_nil, List.mem_append] at mem ⊢
  grind

/-- The nodes that a rule goes on with hold no bare do block. -/
def Rule.HoldsNoBareDo : Rule → Prop
  | .joined left | .chain _ _ left | .suffixes left | .callSuffix left | .block _ left =>
      left.NoBareDo
  | .paramList _ _ list => ∀ default ∈ list.optional ++ list.keywords, default.NoBareDo
  | _ => True

open Node RubyFormat.Field in
/-- What a rule goes on with becomes part of what it reads. -/
theorem Derives.holdsNoBareDo {fits : ParamList → Node → Prop} {rule : Rule} {s s' : ParseState}
    {field : Field Node} (reads : Derives fits rule s field s') (noBare : field.All NoBareDo) :
    rule.HoldsNoBareDo := by
  induction reads with
  | joinedDone | chainDone | suffixesDone | blockNone => exact noBare _ List.mem_cons_self
  | joinedMore _ _ _ _ _ ih | chainMore _ _ _ _ _ _ ih =>
      have operation : NoBareDo _ := ih noBare
      exact (operation.pair rfl rfl).1
  | chainOnce => exact ((all_node.1 noBare).pair rfl rfl).1
  | suffixesCall _ _ _ ih₁ ih₂ => exact ih₁ (all_node.2 (ih₂ noBare))
  | suffixesIndex _ _ _ _ ih | callShorthand _ _ _ _ _ ih | callBare _ _ _ _ _ ih
  | callArgs _ _ _ _ _ _ ih =>
      have whole : NoBareDo _ := ih noBare
      exact whole.below rfl _ List.mem_cons_self
  | constPath | blockBraces | blockDo => exact ((all_node.1 noBare).pair rfl rfl).1
  | paramsDone => exact ParamList.noBareDo_defaults (all_node.1 noBare)
  | paramsLast | paramsExcess =>
      intro default mem
      exact ParamList.noBareDo_defaults (all_node.1 noBare) default (ParamList.defaults_add mem)
  | paramsMore _ _ _ _ _ _ _ _ _ ih =>
      intro default mem
      exact ih noBare default (ParamList.defaults_add mem)
  | _ => trivial

theorem ParseState.Skips.atDepth {s s₁ : ParseState} (skips : s.Skips s₁) (depth : Nat) :
    (s.atDepth depth).Skips (s₁.atDepth depth) := by
  obtain ⟨rfl, code⟩ := skips
  exact ⟨rfl, code⟩

theorem Parse.shields_target (expr : Node) : (Parse.target expr).Shields := by
  unfold target
  split
  case h_1 => exact .bind (.modifyScopes _) fun _ => .pure _
  case h_2 | h_7 => exact fun _ _ => rfl
  all_goals exact .pure _

theorem ParseM.Shields.run_ok {α : Type} {parser : ParseM α} (shields : parser.Shields)
    {s s' : ParseState} {value : α} (ran : parser.run s = .ok (value, s')) (depth : Nat) :
    parser.run (s.atDepth depth) = .ok (value, s'.atDepth depth) := by
  rw [shields, ran]
  rfl

namespace ParseState

/-- In the arguments of a command no call takes a `do`. -/
theorem isAtDo_atDepth (s : ParseState) {depth : Nat} (deep : depth ≠ 0) :
    (s.atDepth depth).isAtDo = false := by
  simp [isAtDo, atDepth, deep]

theorem continued_atDepth (s : ParseState) (depth : Nat) :
    (s.atDepth depth).continued = s.continued.atDepth depth := by
  change (if s.isContinued then s.pastNewlines.atDepth depth else s.atDepth depth) = _
  unfold continued
  split <;> rfl

theorem pastThen_atDepth (s : ParseState) (depth : Nat) :
    (s.atDepth depth).pastThen = s.pastThen.atDepth depth := by
  change (if s.current.isWord "then" then s.next.atDepth depth else s.atDepth depth) = _
  unfold pastThen
  split <;> rfl

theorem paramName?_atDepth (s : ParseState) (depth : Nat) :
    (s.atDepth depth).paramName? = (s.paramName?.1, s.paramName?.2.atDepth depth) := by
  unfold paramName?
  change (if s.current.kind == .ident then _ else _) = _
  split <;> rfl

end ParseState

/-- A parameter holds nothing but its default that could hold a do block. -/
theorem Derives.noBareDo_param {fits : ParamList → Node → Prop} {closer : String}
    {s s' : ParseState} {param : Node} (reads : Derives fits (.param closer) s (.node param) s')
    {list : ParamList} (noBare : ∀ default ∈ (list.add param).optional ++ (list.add param).keywords,
      default.NoBareDo) : param.NoBareDo := by
  cases reads with
  | restParam | keywordRestParam =>
      unfold ParseState.paramName?
      split <;> rfl
  | blockParam | keywordParam | nameParam => rfl
  | keywordDefault | optionalParam => exact noBare _ (by simp [ParamList.add])

/-- A call in braces, or one with a do block. -/
theorem Derives.isBrace_of_noBareDo {fits : ParamList → Node → Prop} {call : Node}
    {s s' : ParseState} {field : Field Node} (reads : Derives fits (.block true call) s field s')
    (opens : (s.current.isWord "\x7b" || s.isAtDo) = true) (noBare : field.All Node.NoBareDo) :
    s.current.isWord "\x7b" = true := by
  cases reads with
  | blockBraces brace => exact brace
  | blockDo _ block =>
      have noDo := (Field.all_node.1 noBare).noDoBlock
      rw [Node.hasDoBlock, block.isOfKind_doBlock] at noDo
      cases noDo
  | blockNone noBrace noDo =>
      rw [noDo, Bool.or_false] at opens
      exact opens

namespace Derives

open Node RubyFormat.Field

variable {fits : ParamList → Node → Prop} {rule : Rule} {s s' : ParseState} {field : Field Node}

/-- What a rule reads without a bare do block is read alike in the arguments of a command. -/
def AtDepth (fits : ParamList → Node → Prop) (rule : Rule) (s : ParseState) (field : Field Node)
    (s' : ParseState) : Prop :=
  ∀ {depth : Nat}, depth ≠ 0 → field.All NoBareDo →
    Derives fits rule (s.atDepth depth) field (s'.atDepth depth)

variable {depth : Nat} {reads : Derives fits rule s field s'}

section Families

variable (parts : reads.Parts (AtDepth fits)) (deep : depth ≠ 0) (noBare : field.All NoBareDo)
include parts deep noBare

theorem atDepth_statements (family : rule.family = .statements) :
    Derives fits rule (s.atDepth depth) field (s'.atDepth depth) := by
  cases parts with
  | program _ eof _ ih =>
      exact .program (ih deep ((all_node.1 noBare).fields rfl _ List.mem_cons_self)) eof
  | stmtsDone ends => exact .stmtsDone ends
  | stmtsBreak more isBreak _ _ ih => exact .stmtsBreak more isBreak (ih deep noBare)
  | stmtsComment more isComment _ _ ih =>
      exact .stmtsComment more isComment (ih deep (List.forall_mem_cons.1 noBare).2)
  | @stmtsRemark _ _ s₁ _ _ _ more noBreak noComment _ isComment _ _ ih₁ _ ih₂ =>
      obtain ⟨first, rest⟩ := List.forall_mem_cons.1 noBare
      exact @Derives.stmtsRemark _ _ _ (s₁.atDepth depth) _ _ _ more noBreak noComment
        (ih₁ deep (all_node.2 first.of_withComment)) isComment (ih₂ deep rest)
  | stmtsLast more noBreak noComment _ noRemark ends _ ih =>
      exact .stmtsLast more noBreak noComment (ih deep noBare) noRemark ends
  | stmtsMore more noBreak noComment _ noRemark goesOn ends _ _ ih₁ _ ih₂ =>
      obtain ⟨first, rest⟩ := List.forall_mem_cons.1 noBare
      exact .stmtsMore more noBreak noComment (ih₁ deep (all_node.2 first)) noRemark goesOn ends
        (ih₂ deep rest)
  | stmt supported _ noComma _ ih => exact .stmt supported (ih deep noBare) noComma
  | _ => cases family

theorem atDepth_assignments (family : rule.family = .assignments) :
    Derives fits rule (s.atDepth depth) field (s'.atDepth depth) := by
  cases parts with
  | unassigned _ noEquals noOp _ ih => exact .unassigned (ih deep noBare) noEquals noOp
  | assign expr isOp made skips _ _ ih₁ _ ih₂ =>
      obtain ⟨target, value⟩ := (all_node.1 noBare).pair rfl rfl
      have left := target.of_target made ((expr.documented trivial).node rfl)
      exact .assign (ih₁ deep (all_node.2 left)) isOp ((Parse.shields_target _).run_ok made depth)
        (skips.atDepth depth) (ih₂ deep (all_node.2 value))
  | @opAssign _ _ s₁ _ _ _ _ _ _ expr noEquals isOp made skips _ _ ih₁ _ ih₂ =>
      obtain ⟨target, value⟩ := (all_node.1 noBare).pair rfl rfl
      have left := target.of_target made ((expr.documented trivial).node rfl)
      exact @Derives.opAssign _ _ _ (s₁.atDepth depth) _ _ _ _ _ _ (ih₁ deep (all_node.2 left))
        noEquals isOp ((Parse.shields_target _).run_ok made depth) (skips.atDepth depth)
        (ih₂ deep (all_node.2 value))
  | values _ _ ih => exact .values (ih deep (all_node.1 noBare).of_ofValues)
  | listedSplat star _ _ ih => exact .listedSplat star (ih deep ((all_node.1 noBare).below rfl))
  | listedPlain noStar _ _ ih => exact .listedPlain noStar (ih deep noBare)
  | _ => cases family

theorem atDepth_junctions (family : rule.family = .junctions) :
    Derives fits rule (s.atDepth depth) field (s'.atDepth depth) := by
  cases parts with
  | expression _ joined _ ih₁ _ ih₂ =>
      exact .expression (ih₁ deep (all_node.2 (joined.holdsNoBareDo noBare))) (ih₂ deep noBare)
  | joinedDone ends => exact .joinedDone ends
  | joinedMore goesOn skips _ joined _ ih₁ _ ih₂ =>
      have operation : NoBareDo _ := joined.holdsNoBareDo noBare
      exact .joinedMore goesOn (skips.atDepth depth)
        (ih₁ deep (all_node.2 (operation.pair rfl rfl).2)) (ih₂ deep noBare)
  | not isNot _ _ ih => exact .not isNot (ih deep ((all_node.1 noBare).below rfl))
  | notNegated noNot _ _ ih => exact .notNegated noNot (ih deep noBare)
  | @rangeBetween _ s₁ _ _ _ _ dots _ _ ih₁ _ ih₂ =>
      obtain ⟨left, right⟩ := (all_node.1 noBare).pair rfl rfl
      exact @Derives.rangeBetween _ _ (s₁.atDepth depth) _ _ _ (ih₁ deep (all_node.2 left)) dots
        (ih₂ deep (all_node.2 right))
  | notRange _ noDots _ ih => exact .notRange (ih deep noBare) noDots
  | _ => cases family

theorem atDepth_operations (family : rule.family = .operations) :
    Derives fits rule (s.atDepth depth) field (s'.atDepth depth) := by
  cases parts with
  | tightest _ _ ih => exact .tightest (ih deep noBare)
  | level _ chain _ ih₁ _ ih₂ =>
      exact .level (ih₁ deep (all_node.2 (chain.holdsNoBareDo noBare))) (ih₂ deep noBare)
  | chainDone noOp => exact .chainDone noOp
  | chainMore chains isOp skips _ chain _ ih₁ _ ih₂ =>
      have operation : NoBareDo _ := chain.holdsNoBareDo noBare
      exact .chainMore chains isOp (skips.atDepth depth)
        (ih₁ deep (all_node.2 (operation.pair rfl rfl).2)) (ih₂ deep noBare)
  | chainOnce alone isOp skips _ _ ih =>
      obtain ⟨-, right⟩ := (all_node.1 noBare).pair rfl rfl
      exact .chainOnce alone isOp (skips.atDepth depth) (ih deep (all_node.2 right))
  | minus mark _ _ ih => exact .minus mark (ih deep ((all_node.1 noBare).below rfl))
  | notMinus noMark _ _ ih => exact .notMinus noMark (ih deep noBare)
  | power _ stars skips _ _ ih₁ _ ih₂ =>
      obtain ⟨left, right⟩ := (all_node.1 noBare).pair rfl rfl
      exact .power (ih₁ deep (all_node.2 left)) stars (skips.atDepth depth)
        (ih₂ deep (all_node.2 right))
  | notPower _ noStars _ ih => exact .notPower (ih deep noBare) noStars
  | unary mark _ _ ih => exact .unary mark (ih deep ((all_node.1 noBare).below rfl))
  | notUnary noMark _ _ ih => exact .notUnary noMark (ih deep noBare)
  | _ => cases family

theorem atDepth_messages (family : rule.family = .messages) :
    Derives fits rule (s.atDepth depth) field (s'.atDepth depth) := by
  cases parts with
  | operand _ suffixes _ ih₁ _ ih₂ =>
      exact .operand (ih₁ deep (all_node.2 (suffixes.holdsNoBareDo noBare))) (ih₂ deep noBare)
  | suffixesDone ends noCall noIndex => exact .suffixesDone ends noCall noIndex
  | @suffixesCall s _ _ _ _ _ isCall _ suffixes _ ih₁ _ ih₂ =>
      have call := ih₁ deep (all_node.2 (suffixes.holdsNoBareDo noBare))
      rw [← s.continued_atDepth] at call
      refine .suffixesCall ?_ call (ih₂ deep noBare)
      rw [s.continued_atDepth]
      exact isCall
  | suffixesIndex isIndex _ suffixes _ ih₁ _ ih₂ =>
      have whole : NoBareDo _ := suffixes.holdsNoBareDo noBare
      have args := whole.fields rfl _ (List.mem_cons_of_mem _ List.mem_cons_self)
      exact .suffixesIndex isIndex (ih₁ deep args) (ih₂ deep noBare)
  | @callShorthand _ s₁ _ _ _ args _ skips isParen _ block _ ih₁ _ ih₂ =>
      have whole : NoBareDo _ := block.holdsNoBareDo noBare
      have args := whole.below rfl args (by simp [children, Node.fields, Field.toList])
      exact @Derives.callShorthand _ _ (s₁.atDepth depth) _ _ _ _ _ (skips.atDepth depth) isParen
        (ih₁ deep (all_node.2 args)) (ih₂ deep noBare)
  | @constPath s _ _ _ skips found isConst noParen =>
      exact @Derives.constPath _ (s.atDepth depth) _ _ _ (skips.atDepth depth) found isConst noParen
  | callBare skips found noConst noParen _ _ ih =>
      exact .callBare (skips.atDepth depth) found noConst noParen (ih deep noBare)
  | @callArgs _ _ _ _ _ _ args _ skips found isParen _ block _ ih₁ _ ih₂ =>
      have whole : NoBareDo _ := block.holdsNoBareDo noBare
      have args := whole.below rfl args (by simp [children, Node.fields, Field.toList])
      exact .callArgs (skips.atDepth depth) found isParen (ih₁ deep (all_node.2 args))
        (ih₂ deep noBare)
  | _ => cases family

theorem atDepth_operands (family : rule.family = .operands) :
    Derives fits rule (s.atDepth depth) field (s'.atDepth depth) := by
  cases parts with
  | leaf found => exact .leaf found
  | constant kind noParen => exact .constant kind noParen
  | fcall found isParen _ block _ ih₁ _ ih₂ =>
      have whole : NoBareDo _ := block.holdsNoBareDo noBare
      exact .fcall found isParen (ih₁ deep (all_node.2 (whole.pair rfl rfl).2)) (ih₂ deep noBare)
  | localVar kind noParen isLocal => exact .localVar kind noParen isLocal
  | command kind noParen notLocal starts _ block _ ih₁ _ ih₂ =>
      have whole : NoBareDo _ := block.holdsNoBareDo noBare
      have args := ih₁ depth.succ_ne_zero (all_node.2 (whole.pair rfl rfl).2)
      exact .command kind noParen notLocal starts args (ih₂ deep noBare)
  | fcallBlock kind noParen notLocal noArgument opens block _ ih =>
      have brace := block.isBrace_of_noBareDo opens noBare
      exact .fcallBlock kind noParen notLocal noArgument (Bool.or_eq_true_iff.2 (.inl brace))
        (ih deep noBare)
  | @vcall s kind noParen notLocal noArgument noBlock =>
      refine .vcall kind noParen notLocal noArgument ?_
      have noBrace := (Bool.or_eq_false_iff.1 noBlock).1
      exact Bool.or_eq_false_iff.2 ⟨noBrace, s.next.isAtDo_atDepth deep⟩
  | @paren s _ _ _ _ isParen skips _ skips' closes _ ih =>
      exact @Derives.paren _ (s.atDepth depth) _ _ _ _ isParen (skips.atDepth depth)
        (ih deep ((all_node.1 noBare).below rfl)) (skips'.atDepth depth) closes
  | array isOp skips inside closes => exact .array isOp skips inside closes
  | hash isOp skips inside closes => exact .hash isOp skips inside closes
  | @lambda s _ _ _ _ arrow _ _ _ ih₁ _ ih₂ =>
      obtain ⟨params, body⟩ := List.forall_mem_cons.1 ((all_node.1 noBare).fields rfl)
      exact @Derives.lambda _ (s.atDepth depth) _ _ _ _ arrow (ih₁ deep params)
        (ih₂ deep (body _ List.mem_cons_self))
  | _ => cases family

theorem atDepth_blocks (family : rule.family = .blocks) :
    Derives fits rule (s.atDepth depth) field (s'.atDepth depth) := by
  cases parts with
  | braceBlock opens skips params body closes => exact .braceBlock opens skips params body closes
  | doBlock opens params body closes => exact .doBlock opens params body closes
  | blockBraces brace _ _ ih =>
      exact .blockBraces brace (ih deep (all_node.2 ((all_node.1 noBare).pair rfl rfl).2))
  | blockDo atDo block =>
      have noDo := (all_node.1 noBare).noDoBlock
      rw [hasDoBlock, block.isOfKind_doBlock] at noDo
      cases noDo
  | @blockNone _ s _ noBrace _ => exact .blockNone noBrace (s.isAtDo_atDepth deep)
  | blockVarBars bars => exact .blockVarBars bars
  | @blockVarSome s _ _ bar _ closes _ ih =>
      have params := (all_optional.1 noBare _ rfl).fields rfl _ List.mem_cons_self
      exact @Derives.blockVarSome _ (s.atDepth depth) _ _ bar (ih deep params) closes
  | blockVarNone noBars noBar => exact .blockVarNone noBars noBar
  | @lambdaParen s _ _ isParen _ closes _ ih =>
      exact @Derives.lambdaParen _ (s.atDepth depth) _ _ isParen (ih deep noBare) closes
  | lambdaNone opens => exact .lambdaNone opens
  | lambdaBare noParen noBody _ _ ih => exact .lambdaBare noParen noBody (ih deep noBare)
  | @lambdaBraces s _ _ brace _ closes _ ih =>
      exact @Derives.lambdaBraces _ (s.atDepth depth) _ _ brace (ih deep noBare) closes
  | @lambdaDo s _ _ isDo _ closes _ ih =>
      exact @Derives.lambdaDo _ (s.atDepth depth) _ _ isDo (ih deep noBare) closes
  | _ => cases family

theorem atDepth_clauses (family : rule.family = .clauses) :
    Derives fits rule (s.atDepth depth) field (s'.atDepth depth) := by
  cases parts with
  | bodyStmt _ _ _ _ _ ih₁ _ ih₂ _ ih₃ _ ih₄ =>
      have parts := (all_node.1 noBare).fields rfl
      simp only [Node.fields, List.forall_mem_cons] at parts
      obtain ⟨stmts, rescue, elseBody, ensure, -⟩ := parts
      exact .bodyStmt (ih₁ deep stmts) (ih₂ deep rescue) (ih₃ deep elseBody) (ih₄ deep ensure)
  | rescueNone noRescue => exact .rescueNone noRescue
  | @rescueMore _ _ s₂ _ _ _ _ _ _ isRescue _ _ _ _ _ ih₁ _ ih₂ _ ih₃ _ ih₄ =>
      have parts := (all_optional.1 noBare _ rfl).fields rfl
      simp only [Node.fields, List.forall_mem_cons] at parts
      obtain ⟨exceptions, holder, stmts, next, -⟩ := parts
      have body := ih₃ deep stmts
      rw [← s₂.pastThen_atDepth] at body
      exact .rescueMore isRescue (ih₁ deep exceptions) (ih₂ deep holder) body (ih₄ deep next)
  | exceptionsNone ends => exact .exceptionsNone ends
  | exceptionsSome some _ _ ih => exact .exceptionsSome some (ih deep noBare)
  | holderNone noArrow => exact .holderNone noArrow
  | holderSome arrow expr made _ ih =>
      have target := all_optional.1 noBare _ rfl
      have left := target.of_target made ((expr.documented trivial).node rfl)
      exact .holderSome arrow (ih deep (all_node.2 left))
        ((Parse.shields_target _).run_ok made depth)
  | clauseNone noWord => exact .clauseNone noWord
  | clauseSome isWord _ _ ih => exact .clauseSome isWord (ih deep noBare)
  | _ => cases family

theorem atDepth_parameters (family : rule.family = .parameters) :
    Derives fits rule (s.atDepth depth) field (s'.atDepth depth) := by
  cases parts with
  | params skips _ _ ih => exact .params (skips.atDepth depth) (ih deep noBare)
  | paramsDone closes => exact .paramsDone closes
  | paramsLast more param fits skips noComma _ ih =>
      have inner := param.noBareDo_param (ParamList.noBareDo_defaults (all_node.1 noBare))
      exact .paramsLast more (ih deep (all_node.2 inner)) fits (skips.atDepth depth) noComma
  | @paramsExcess _ _ _ _ _ s₂ _ _ more param fits skips comma skips' closes isBar allows _ ih =>
      have defaults := ParamList.noBareDo_defaults (all_node.1 noBare)
      have inner := param.noBareDo_param defaults
      exact @Derives.paramsExcess _ _ _ _ _ _ (s₂.atDepth depth) _ _ more
        (ih deep (all_node.2 inner)) fits (skips.atDepth depth) comma (skips'.atDepth depth) closes
        isBar allows
  | paramsMore more param fits skips comma skips' goesOn list _ ih₁ _ ih₂ =>
      have inner := param.noBareDo_param (list.holdsNoBareDo noBare)
      exact .paramsMore more (ih₁ deep (all_node.2 inner)) fits (skips.atDepth depth) comma
        (skips'.atDepth depth) goesOn (ih₂ deep noBare)
  | @restParam closer s star =>
      have param := @Derives.restParam fits closer (s.atDepth depth) star
      change Derives fits _ _ (.node (.restParam _ (s.next.atDepth depth).paramName?.1))
        (s.next.atDepth depth).paramName?.2 at param
      rw [s.next.paramName?_atDepth] at param
      exact param
  | @keywordRestParam closer s stars =>
      have param := @Derives.keywordRestParam fits closer (s.atDepth depth) stars
      change Derives fits _ _ (.node (.keywordRestParam _ (s.next.atDepth depth).paramName?.1))
        (s.next.atDepth depth).paramName?.2 at param
      rw [s.next.paramName?_atDepth] at param
      exact param
  | blockParam mark kind => exact .blockParam mark kind
  | keywordParam kind after ends =>
      subst after
      exact .keywordParam kind rfl ends
  | keywordDefault kind after more _ _ ih =>
      subst after
      exact .keywordDefault kind rfl more
        (ih deep (all_node.2 ((all_node.1 noBare).pair rfl rfl).2))
  | optionalParam kind after equals _ _ ih =>
      subst after
      exact .optionalParam kind rfl equals
        (ih deep (all_node.2 ((all_node.1 noBare).pair rfl rfl).2))
  | nameParam kind after noEquals =>
      subst after
      exact .nameParam kind rfl noEquals
  | _ => cases family

theorem atDepth_lists (family : rule.family = .lists) :
    Derives fits rule (s.atDepth depth) field (s'.atDepth depth) := by
  cases parts with
  | itemsLast _ noComma _ ih => exact .itemsLast (ih deep noBare) noComma
  | itemsClosed _ comma skips closed _ ih =>
      exact .itemsClosed (ih deep noBare) comma (skips.atDepth depth) closed
  | itemsMore _ comma skips goesOn _ _ ih₁ _ ih₂ =>
      obtain ⟨first, rest⟩ := List.forall_mem_cons.1 noBare
      exact .itemsMore (ih₁ deep (all_node.2 first)) comma (skips.atDepth depth) goesOn
        (ih₂ deep rest)
  | entriesDone closes => exact .entriesDone closes
  | entriesLast more _ skips noComma _ ih =>
      exact .entriesLast more (ih deep noBare) (skips.atDepth depth) noComma
  | entriesMore more _ skips comma skips' _ _ ih₁ _ ih₂ =>
      obtain ⟨first, rest⟩ := List.forall_mem_cons.1 noBare
      exact .entriesMore more (ih₁ deep (all_node.2 first)) (skips.atDepth depth) comma
        (skips'.atDepth depth) (ih₂ deep rest)
  | elementSplat star _ _ ih => exact .elementSplat star (ih deep ((all_node.1 noBare).below rfl))
  | elementPlain noStar _ _ ih => exact .elementPlain noStar (ih deep noBare)
  | entrySplat stars _ _ ih => exact .entrySplat stars (ih deep ((all_node.1 noBare).below rfl))
  | entryLabel kind skips _ _ ih =>
      exact .entryLabel kind (skips.atDepth depth)
        (ih deep (all_node.2 ((all_node.1 noBare).pair rfl rfl).2))
  | entryArrow noStars noLabel _ skips arrow skips' _ _ ih₁ _ ih₂ =>
      obtain ⟨key, value⟩ := (all_node.1 noBare).pair rfl rfl
      exact .entryArrow noStars noLabel (ih₁ deep (all_node.2 key)) (skips.atDepth depth) arrow
        (skips'.atDepth depth) (ih₂ deep (all_node.2 value))
  | _ => cases family

theorem atDepth_arguments (family : rule.family = .arguments) :
    Derives fits rule (s.atDepth depth) field (s'.atDepth depth) := by
  cases parts with
  | parenEmpty opens skips closes => exact .parenEmpty opens skips closes
  | parenFull opens skips more args skips' closes =>
      exact .parenFull opens skips more args skips' closes
  | arguments _ _ ih =>
      have parts := (all_node.1 noBare).fields rfl _ List.mem_cons_self
      exact .arguments (ih deep (NoBareDo.of_gatherEntries parts))
  | argumentSplat star _ _ ih => exact .argumentSplat star (ih deep ((all_node.1 noBare).below rfl))
  | argumentDoubleSplat stars _ _ ih =>
      exact .argumentDoubleSplat stars (ih deep ((all_node.1 noBare).below rfl))
  | argumentBlockLone mark ends => exact .argumentBlockLone mark ends
  | argumentBlock mark more _ _ ih =>
      exact .argumentBlock mark more (ih deep ((all_node.1 noBare).below rfl))
  | argumentLabel kind skips _ _ ih =>
      exact .argumentLabel kind (skips.atDepth depth)
        (ih deep (all_node.2 ((all_node.1 noBare).pair rfl rfl).2))
  | argumentPlain noMark noLabel _ noArrow _ ih =>
      exact .argumentPlain noMark noLabel (ih deep noBare) noArrow
  | argumentArrow noMark noLabel _ arrow skips _ _ ih₁ _ ih₂ =>
      obtain ⟨key, value⟩ := (all_node.1 noBare).pair rfl rfl
      exact .argumentArrow noMark noLabel (ih₁ deep (all_node.2 key)) arrow (skips.atDepth depth)
        (ih₂ deep (all_node.2 value))
  | @indexEmpty s _ opens skips closes =>
      exact @Derives.indexEmpty _ (s.atDepth depth) _ opens (skips.atDepth depth) closes
  | @indexFull s _ _ _ _ opens skips more _ skips' closes _ ih =>
      exact @Derives.indexFull _ (s.atDepth depth) _ _ _ _ opens (skips.atDepth depth) more
        (ih deep noBare) (skips'.atDepth depth) closes
  | _ => cases family

end Families

/-- What is read without a bare do block is read alike in the arguments of a command. -/
theorem atDepth (reads : Derives fits rule s field s') (deep : depth ≠ 0)
    (noBare : field.All NoBareDo) :
    Derives fits rule (s.atDepth depth) field (s'.atDepth depth) := by
  induction reads using of_parts generalizing depth with
  | @step rule _ _ _ _ parts =>
      cases family : rule.family with
      | statements => exact atDepth_statements parts deep noBare family
      | assignments => exact atDepth_assignments parts deep noBare family
      | junctions => exact atDepth_junctions parts deep noBare family
      | operations => exact atDepth_operations parts deep noBare family
      | messages => exact atDepth_messages parts deep noBare family
      | operands => exact atDepth_operands parts deep noBare family
      | blocks => exact atDepth_blocks parts deep noBare family
      | clauses => exact atDepth_clauses parts deep noBare family
      | parameters => exact atDepth_parameters parts deep noBare family
      | lists => exact atDepth_lists parts deep noBare family
      | arguments => exact atDepth_arguments parts deep noBare family

end Derives

/-! ## Parentheses, indexes and lambdas -/

namespace Node.NoBareDo

variable {pos : Pos}

theorem paren_iff {inner : Node} : (Node.paren pos inner).NoBareDo ↔ inner.NoBareDo := by
  constructor
  · intro noBare
    exact noBare.below rfl inner List.mem_cons_self
  · intro inner
    exact of_below rfl (by simpa [children, Node.fields, Field.toList] using inner)

theorem lambda_iff {params : Option Node} {body : List Node} :
    (Node.lambda pos params body).NoBareDo ↔
      (∀ node ∈ params, node.NoBareDo) ∧ ∀ stmt ∈ body, stmt.NoBareDo := by
  constructor
  · intro noBare
    have parts := noBare.fields rfl
    simp only [Node.fields, List.forall_mem_cons, Field.all_optional] at parts
    exact ⟨parts.1, parts.2.1⟩
  · rintro ⟨params, body⟩
    refine of_below rfl ?_
    simpa [children, Node.fields, Field.toList, or_imp, forall_and] using ⟨params, body⟩

end Node.NoBareDo

namespace Derives

open Node

variable {fits : ParamList → Node → Prop} {rule : Rule} {s s' : ParseState} {field : Field Node}
  {depth : Nat}

/-- In the arguments of a command no do block is bare. -/
theorem noBareDo (reads : Derives fits rule s field s') (at_ : s.commandDepth = depth)
    (deep : depth ≠ 0) (carries : rule.CarriesSheltered depth) : field.All NoBareDo :=
  fun node mem => (reads.sheltered at_ carries node mem).noBareDo deep

end Derives

namespace Parse

open ParseM ParseState Node RubyFormat.Field

variable {bound depth : Nat} {s after : ParseState}

/-- An expression in parentheses. -/
theorem paren_atDepth_iff {node : Node} (ready : s.Ready bound) (deep : depth ≠ 0)
    (ran : (paren (Rules.ofDepth (bound + 1))).run s = .ok (node, after)) :
    (paren (Rules.ofDepth (bound + 1))).run (s.atDepth depth) = .ok (node, after.atDepth depth) ↔
      node.NoBareDo := by
  have sound := Reads.sound_ofDepth (bound + 1)
  constructor
  · intro again
    obtain ⟨-, s₁, skips, inner, s₂, read, s₃, -, -, rfl, -⟩ := run_paren_ok.1 again
    have inside := (sound.stmt read).noBareDo (Moves.skips skips).depth deep trivial
    exact NoBareDo.paren_iff.2 (all_node.1 inside)
  · intro noBare
    obtain ⟨opens, s₁, skips, inner, s₂, read, s₃, skips', closes, rfl, rfl⟩ := run_paren_ok.1 ran
    have reads := (sound.stmt read).atDepth deep (all_node.2 (NoBareDo.paren_iff.1 noBare))
    have inside := (ready.moves ((Moves.next _).trans (.skips skips))).atDepth depth
    have again := (reads.runs trivial inside).node
    exact run_paren_ok.2 ⟨opens, _, skips.atDepth depth, inner, _, again, _, skips'.atDepth depth,
      closes, rfl, rfl⟩

/-- The arguments of an index. -/
theorem indexArguments_atDepth_iff {args : Option Node} (ready : s.Ready bound) (deep : depth ≠ 0)
    (ran : (indexArguments (Rules.ofDepth (bound + 1))).run s = .ok (args, after)) :
    (indexArguments (Rules.ofDepth (bound + 1))).run (s.atDepth depth) =
      .ok (args, after.atDepth depth) ↔ ∀ node ∈ args, node.NoBareDo := by
  have sound := Reads.sound_ofDepth (bound + 1)
  constructor
  · intro again
    exact all_optional.1 ((Reads.of_indexArguments sound again).noBareDo rfl deep trivial)
  · intro noBare
    have reads := (Reads.of_indexArguments sound ran).atDepth deep (all_optional.2 noBare)
    exact (reads.runs trivial (ready.atDepth depth)).optional

/-- A lambda with its parameters and its body. -/
theorem lambda_atDepth_iff {node : Node} (ready : s.Ready bound) (deep : depth ≠ 0)
    (ran : (lambda (Rules.ofDepth (bound + 1))).run s = .ok (node, after)) :
    (lambda (Rules.ofDepth (bound + 1))).run (s.atDepth depth) = .ok (node, after.atDepth depth) ↔
      node.NoBareDo := by
  have sound := Reads.sound_ofDepth (bound + 1)
  constructor
  · intro again
    obtain ⟨-, params, s₁, read, body, s₂, readBody, -, rfl, -⟩ := run_lambda_ok.1 again
    have first := Reads.of_lambdaParams sound read
    have second := Reads.of_lambdaBody sound readBody
    exact NoBareDo.lambda_iff.2 ⟨all_optional.1 (first.noBareDo rfl deep trivial),
      second.noBareDo first.moves.depth deep trivial⟩
  · intro noBare
    obtain ⟨arrow, params, s₁, read, body, s₂, readBody, hasScope, rfl, rfl⟩ :=
      run_lambda_ok.1 ran
    obtain ⟨noBareParams, noBareBody⟩ := NoBareDo.lambda_iff.1 noBare
    have first := Reads.of_lambdaParams sound read
    have second := Reads.of_lambdaBody sound readBody
    have opened := (ready.moves (.next _)).opened
    have params := (first.atDepth deep (all_optional.2 noBareParams)).runs trivial
      (opened.atDepth depth)
    have body := (second.atDepth deep noBareBody).runs trivial
      ((opened.moves first.moves).atDepth depth)
    exact run_lambda_ok.2 ⟨arrow, _, _, params.optional, _, _, body.list, hasScope, rfl, rfl⟩

end Parse

/-- Arrays, hashes, arguments in parentheses and blocks are read alike at every depth of commands,
with the same errors.  Parentheses around an expression, indexes and lambdas that are read at some
depth are read alike in the arguments of a command exactly if they hold no bare do block. -/
theorem Parse.shields_delimited (rules : Rules) (bound : Nat) (s : ParseState) :
    ((array rules).Shields ∧ (hash rules).Shields ∧ (parenArguments rules).Shields ∧
      (braceBlock rules).Shields ∧ (doBlock rules).Shields) ∧
    (s.Ready bound → ∀ depth, depth ≠ 0 →
      (∀ node after, (paren (Rules.ofDepth (bound + 1))).run s = .ok (node, after) →
        ((paren (Rules.ofDepth (bound + 1))).run (s.atDepth depth) =
          .ok (node, after.atDepth depth) ↔ node.bareDo = false)) ∧
      (∀ args after, (indexArguments (Rules.ofDepth (bound + 1))).run s = .ok (args, after) →
        ((indexArguments (Rules.ofDepth (bound + 1))).run (s.atDepth depth) =
          .ok (args, after.atDepth depth) ↔ ∀ node ∈ args, node.bareDo = false)) ∧
      ∀ node after, (lambda (Rules.ofDepth (bound + 1))).run s = .ok (node, after) →
        ((lambda (Rules.ofDepth (bound + 1))).run (s.atDepth depth) =
          .ok (node, after.atDepth depth) ↔ node.bareDo = false)) := by
  refine ⟨?_, fun ready depth deep => ⟨?_, ?_, ?_⟩⟩
  · exact ⟨shields_array rules, shields_hash rules, shields_parenArguments rules,
      shields_braceBlock rules, shields_doBlock rules⟩
  · exact fun _ _ ran => paren_atDepth_iff ready deep ran
  · exact fun _ _ ran => indexArguments_atDepth_iff ready deep ran
  · exact fun _ _ ran => lambda_atDepth_iff ready deep ran

/-- A do block between brackets, which stand in parentheses. -/
theorem Parse.shields_delimited_sheltered :
    let source := "(foo [bar do\nend])"
    ∃ tokens node after, Tokens.ofSource source = .ok tokens ∧
      (ParseState.start tokens).Ready 9 ∧
      (paren (Rules.ofDepth 10)).run (.start tokens) = .ok (node, after) ∧ node.bareDo = false ∧
      (paren (Rules.ofDepth 10)).run ((ParseState.start tokens).atDepth 1) =
        .ok (node, after.atDepth 1) := by
  intro source
  obtain ⟨tokens, lexed, test⟩ := exists_of_any
    (show (Tokens.ofSource source).toOption.any (fun tokens =>
      tokens.close.kind == .eof && tokens.body.length ≤ 9 &&
        ((paren (Rules.ofDepth 10)).run (.start tokens)).toOption.any (!·.1.bareDo)) = true by
      decide +kernel)
  simp only [Bool.and_eq_true, beq_iff_eq, decide_eq_true_eq] at test
  obtain ⟨⟨eof, enough⟩, runs⟩ := test
  obtain ⟨⟨node, after⟩, ran, noBare⟩ := exists_of_any runs
  have noBare : node.bareDo = false := by simpa using noBare
  have ready : (ParseState.start tokens).Ready 9 := ⟨eof, nofun, enough⟩
  exact ⟨tokens, node, after, lexed, ready, ran, noBare,
    (((shields_delimited (Rules.ofDepth 10) 9 _).2 ready 1 Nat.one_ne_zero).1 node after ran).2
      noBare⟩

theorem ParseM.not_shields {α : Type} {parser : ParseM α} (s : ParseState) (depth : Nat)
    (differs : (parser.run (s.atDepth depth)).toOption.isSome ≠ (parser.run s).toOption.isSome) :
    ¬ parser.Shields := by
  intro shields
  refine differs ?_
  rw [shields]
  cases parser.run s <;> rfl

/-- The state before the tokens of a source, or before none if it has no tokens. -/
def ParseState.before (source : String) : ParseState :=
  .start ((Tokens.ofSource source).toOption.getD default)

/-- A do block that is bare in parentheses, in an index or in a lambda is refused in the arguments
of a command, where brackets shelter it.  The body of a lambda behind the default of a parameter is
read there only, since elsewhere the default takes it. -/
theorem Parse.shields_delimited_bare :
    ¬ (paren (Rules.ofDepth 9)).Shields ∧ ¬ (indexArguments (Rules.ofDepth 9)).Shields ∧
    ¬ (lambda (Rules.ofDepth 9)).Shields ∧
    (Node.ofSource "(bar do\nend)").toOption.isSome = true ∧
    (Node.ofSource "foo (bar do\nend)").toOption.isSome = false ∧
    (Node.ofSource "foo [bar do\nend]").toOption.isSome = true ∧
    (Node.ofSource "-> a = b do c end").toOption.isSome = false ∧
    (Node.ofSource "foo -> a = b do c end").toOption.isSome = true := by
  refine ⟨?_, ?_, ?_, by decide +kernel⟩
  · exact ParseM.not_shields (.before "(bar do\nend)") 1 (by decide +kernel)
  · exact ParseM.not_shields (.before "[bar do\nend]") 1 (by decide +kernel)
  · exact ParseM.not_shields (.before "-> \x7b bar do\nend \x7d") 1 (by decide +kernel)

end RubyFormat
