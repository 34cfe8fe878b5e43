import RubyFormat.Proofs.Forms
import RubyFormat.Proofs.Progress

/-!
# Do blocks in the arguments of commands

A `do` behind the arguments of a command belongs to the command, so no call inside the arguments can
take it, unless the call stands between delimiters of its own.  The parser decides this by the depth
of commands in its state, which each of its parts gives back as it found it.
-/

namespace RubyFormat

namespace Node

/-! ## Calls with a do block that no delimiter shelters -/

/-- Whether a node is a call with a do block. -/
def hasDoBlock : Node → Bool
  | .methodAddBlock _ _ block => block.isOfKind .doBlock
  | _ => false

/-- Whether a node stands for delimiters between which a `do` belongs to the nearest call. -/
def shelters (node : Node) : Bool :=
  [.argParen, .array, .hash, .braceBlock, .doBlock].contains node.kind

/-- The nodes strictly between a node and one further down. -/
inductive Path : Node → List Node → Node → Prop where
  | child {top bottom : Node} : bottom ∈ top.children → Path top [] bottom
  | step {top next bottom : Node} {between : List Node} :
      next ∈ top.children → Path next between bottom → Path top (next :: between) bottom

/-- Whether a tree holds a call with a do block outside all delimiters. -/
def bareDo : Node → Bool :=
  fold fun node fields =>
    node.hasDoBlock || !node.shelters && fields.any fun field => field.2.toList.any id

theorem bareDo_eq (node : Node) :
    node.bareDo = (node.hasDoBlock || !node.shelters && node.children.any bareDo) := by
  unfold bareDo
  rw [fold_eq]
  simp [children, List.any_map, List.any_flatMap, Function.comp_def]

theorem bareDo_eq_false_iff {node : Node} :
    node.bareDo = false ↔ node.hasDoBlock = false ∧
      (node.shelters = true ∨ ∀ child ∈ node.children, child.bareDo = false) := by
  rw [bareDo_eq]
  cases node.shelters <;> simp

/-- What a path without delimiters leads to is outside all delimiters. -/
theorem Path.bareDo {top bottom : Node} {between : List Node} (path : top.Path between bottom)
    (takesDo : bottom.hasDoBlock = true)
    (open_ : ∀ node ∈ top :: between, node.shelters = false) : top.bareDo = true := by
  induction path with
  | child mem =>
      have here := open_ _ List.mem_cons_self
      have below := bareDo_eq _ |>.trans (by rw [takesDo, Bool.true_or])
      rw [bareDo_eq, here]
      simpa using .inr ⟨_, mem, below⟩
  | step mem _ ih =>
      obtain ⟨here, others⟩ := List.forall_mem_cons.1 open_
      rw [bareDo_eq, here]
      simpa using .inr ⟨_, mem, ih takesDo others⟩

/-- Whether a node is no command, or one whose arguments hold do blocks between delimiters only. -/
def guarded (node : Node) : Bool :=
  !(node.isOfKind .command && node.bareDo)

/-- A tree read at a depth of commands: its commands are guarded, and so it is itself if it stands
in the arguments of one. -/
structure Sheltered (depth : Nat) (node : Node) : Prop where
  guarded : node.everywhere guarded = true
  noBareDo : depth ≠ 0 → node.bareDo = false

namespace Sheltered

variable {depth : Nat} {node : Node}

/-- A node above trees that are read at its own depth. -/
theorem of (noCommand : node.isOfKind .command = false) (noDo : node.hasDoBlock = false)
    (below : ∀ child ∈ node.children, child.Sheltered depth) : node.Sheltered depth where
  guarded := everywhere_iff.2
    ⟨by rw [Node.guarded, noCommand]; rfl, fun child mem => (below child mem).guarded⟩
  noBareDo deep := bareDo_eq_false_iff.2
    ⟨noDo, .inr fun child mem => (below child mem).noBareDo deep⟩

theorem of_fields (noCommand : node.isOfKind .command = false) (noDo : node.hasDoBlock = false)
    (each : ∀ field ∈ node.fields, field.2.All (Sheltered depth)) : node.Sheltered depth :=
  of noCommand noDo (forall_children each)

/-- Delimiters around trees that are read at the depth zero. -/
theorem of_shelters (shelters : node.shelters = true)
    (each : ∀ field ∈ node.fields, field.2.All (Sheltered 0)) : node.Sheltered depth := by
  have noCommand : node.isOfKind .command = false ∧ node.hasDoBlock = false := by
    cases node with
    | command | methodAddBlock => cases shelters
    | _ => exact ⟨rfl, rfl⟩
  exact ⟨(of_fields noCommand.1 noCommand.2 each).guarded,
    fun _ => bareDo_eq_false_iff.2 ⟨noCommand.2, .inl shelters⟩⟩

/-- A command whose arguments are read one level deeper. -/
theorem command {pos : Pos} {message args : Node} (callee : message.Sheltered (depth + 1))
    (inner : args.Sheltered (depth + 1)) : (Node.command pos message args).Sheltered depth := by
  have bare : (Node.command pos message args).bareDo = false := by
    refine bareDo_eq_false_iff.2 ⟨rfl, .inr ?_⟩
    have deep := depth.succ_ne_zero
    simpa [children, fields, Field.toList] using ⟨callee.noBareDo deep, inner.noBareDo deep⟩
  exact ⟨everywhere_iff.2 ⟨by rw [Node.guarded, bare, Bool.and_false]; rfl,
    forall_children_two rfl callee.guarded inner.guarded⟩, fun _ => bare⟩

/-- A call takes a do block at the depth zero only. -/
theorem methodAddBlock {pos : Pos} {call block : Node} (callee : call.Sheltered 0)
    (inner : block.Sheltered 0) : (Node.methodAddBlock pos call block).Sheltered 0 where
  guarded := everywhere_iff.2 ⟨rfl, by
    simpa [children, fields, Field.toList] using ⟨callee.guarded, inner.guarded⟩⟩
  noBareDo deep := absurd rfl deep

/-- What stands below a node that shelters nothing. -/
theorem below (whole : node.Sheltered depth) (open_ : node.shelters = false) :
    ∀ child ∈ node.children, child.Sheltered depth := by
  intro child mem
  refine ⟨(everywhere_iff.1 whole.guarded).2 child mem, fun deep => ?_⟩
  obtain ⟨-, shelters | below⟩ := bareDo_eq_false_iff.1 (whole.noBareDo deep)
  · rw [open_] at shelters
    cases shelters
  · exact below child mem

theorem of_leaf? {token : Token} (found : token.leaf? = some node) : node.Sheltered depth := by
  obtain ⟨kind, rfl⟩ | ⟨kind, rfl⟩ | ⟨kind, -, rfl⟩ := token.leaf?_cases found
  all_goals exact ⟨rfl, fun _ => rfl⟩

theorem of_message? {token : Token} (found : token.message? = some node) :
    node.Sheltered depth := by
  obtain ⟨kind, rfl⟩ := token.message?_eq_name found
  exact ⟨rfl, fun _ => rfl⟩

theorem of_callee? {token : Token} (found : token.callee? = some node) : node.Sheltered depth := by
  obtain ⟨kind, rfl⟩ := token.callee?_eq_name found
  exact ⟨rfl, fun _ => rfl⟩

theorem target {expr made : Node} {s s' : ParseState}
    (ran : (Parse.target expr).run s = .ok (made, s')) (whole : expr.Sheltered depth) :
    made.Sheltered depth := by
  have below (open_ : expr.shelters = false) (child : Node) (mem : child ∈ made.children) :
      child.Sheltered depth :=
    whole.below open_ child (mem_children_of_target ran mem)
  obtain ⟨pos, kind, namePos, text, rfl, rfl⟩ | ⟨pos, inner, -, rfl, rfl⟩ |
    ⟨pos, receiver, operator, namePos, text, comments, rfl, rfl⟩ |
    ⟨pos, receiver, args, rfl, rfl⟩ | ⟨pos, parent, name, rfl, rfl⟩ := target_cases ran
  all_goals exact of rfl rfl (below rfl)

theorem withComment {pos : Pos} {text : String} (whole : node.Sheltered depth) :
    (node.withComment (.comment pos text)).Sheltered depth := by
  have remark : (Node.comment pos text).Sheltered depth := ⟨rfl, fun _ => rfl⟩
  cases node with
  | call callPos receiver operator message arguments comments =>
      have below := whole.below rfl
      refine of rfl rfl ?_
      simp only [Node.withComment, children, fields, Field.toList, List.flatMap_cons,
        List.flatMap_nil, List.mem_append, List.mem_singleton] at below ⊢
      grind
  | _ =>
      exact of rfl rfl
        (by simpa [Node.withComment, children, fields, Field.toList] using ⟨whole, remark⟩)

theorem ofValues {pos : Pos} {values : List Node} (each : ∀ value ∈ values, value.Sheltered depth) :
    (Node.ofValues pos values).Sheltered depth := by
  unfold Node.ofValues
  split
  · exact of rfl rfl (by simpa [children, fields, Field.toList] using each)
  · split
    · exact each _ List.mem_cons_self
    · exact of rfl rfl (by simpa [children, fields, Field.toList] using each)

theorem gatherEntries {parts : List Node} (each : ∀ part ∈ parts, part.Sheltered depth) :
    ∀ part ∈ Node.gatherEntries parts, part.Sheltered depth := by
  refine forall_gatherEntries (fun entry _ first => ?_) (fun entry pos entries _ first hash => ?_)
    each
  · exact of rfl rfl (forall_children_one rfl first)
  · have inside := hash.below rfl
    refine of rfl rfl ?_
    simp only [children, fields, Field.toList, List.flatMap_cons, List.flatMap_nil,
      List.append_nil] at inside ⊢
    exact List.forall_mem_cons.2 ⟨first, inside⟩

end Sheltered

end Node

/-- What has to hold of the nodes that a rule goes on with. -/
def Rule.CarriesSheltered (depth : Nat) : Rule → Prop
  | .joined left | .chain _ _ left | .suffixes left | .callSuffix left | .block _ left =>
      left.Sheltered depth
  | .paramList _ pos list => ∀ child ∈ (list.toNode pos).children, child.Sheltered depth
  | .items item _ | .entries item _ => item.CarriesSheltered depth
  | _ => True

/-- What a rule reads is sheltered as the depth of commands asks for, if what it goes on with is. -/
def Rule.Shelters (rule : Rule) (s : ParseState) (field : Field Node) (_ : ParseState) : Prop :=
  ∀ {depth : Nat}, s.commandDepth = depth → rule.CarriesSheltered depth →
    field.All (Node.Sheltered depth)

namespace Derives

open Node Node.Sheltered ParseState RubyFormat.Field

variable {fits : ParamList → Node → Prop} {rule : Rule} {s s' : ParseState} {field : Field Node}
  {depth : Nat} {reads : Derives fits rule s field s'}

section Families

variable (parts : reads.Parts Rule.Shelters) (at_ : s.commandDepth = depth)
include parts at_

theorem sheltered_statements (family : rule.family = .statements) :
    field.All (Sheltered depth) := by
  cases parts with
  | stmtsDone => exact List.forall_mem_nil _
  | stmtsBreak _ _ _ _ ih | stmt _ _ _ _ ih => exact ih at_ trivial
  | program _ _ _ ih =>
      exact all_node.2 (of_fields rfl rfl (List.forall_mem_singleton.2 (ih at_ trivial)))
  | stmtsComment _ _ _ _ ih =>
      exact List.forall_mem_cons.2 ⟨⟨rfl, fun _ => rfl⟩, ih at_ trivial⟩
  | stmtsRemark _ _ _ stmt _ _ _ ih₁ _ ih₂ =>
      have first := all_node.1 (ih₁ at_ trivial)
      exact List.forall_mem_cons.2
        ⟨first.withComment, ih₂ (stmt.moves.depth.trans at_) trivial⟩
  | stmtsLast _ _ _ _ _ _ _ ih => exact ih at_ trivial
  | stmtsMore _ _ _ stmt _ _ _ _ _ ih₁ _ ih₂ =>
      exact List.forall_mem_cons.2
        ⟨all_node.1 (ih₁ at_ trivial), ih₂ (stmt.moves.depth.trans at_) trivial⟩
  | _ => cases family

theorem sheltered_assignments (family : rule.family = .assignments) :
    field.All (Sheltered depth) := by
  cases parts with
  | unassigned _ _ _ _ ih | listedPlain _ _ _ ih => exact ih at_ trivial
  | @assign takesList _ _ _ _ _ _ _ _ expr _ made skips _ _ ih₁ _ ih₂
  | @opAssign takesList _ _ _ _ _ _ _ _ expr _ _ made skips _ _ ih₁ _ ih₂ =>
      have left := (all_node.1 (ih₁ at_ trivial)).target made
      have after := (((expr.moves.trans (.target made)).trans (.next _)).trans (.skips skips)).depth
      have right := all_node.1 (ih₂ (after.trans at_) (by cases takesList <;> trivial))
      exact all_node.2 (of rfl rfl (forall_children_two rfl left right))
  | values _ _ ih => exact all_node.2 (Sheltered.ofValues (ih at_ trivial))
  | listedSplat _ _ _ ih =>
      have inner := all_node.1 (ih at_ trivial)
      exact all_node.2 (of rfl rfl (forall_children_one rfl inner))
  | _ => cases family

theorem sheltered_junctions (family : rule.family = .junctions)
    (carries : rule.CarriesSheltered depth) : field.All (Sheltered depth) := by
  cases parts with
  | notNegated _ _ _ ih | notRange _ _ _ ih => exact ih at_ trivial
  | not _ _ _ ih =>
      have inner := all_node.1 (ih at_ trivial)
      exact all_node.2 (of rfl rfl (forall_children_one rfl inner))
  | expression left _ _ ih₁ _ ih₂ =>
      have first := all_node.1 (ih₁ at_ trivial)
      exact ih₂ (left.moves.depth.trans at_) first
  | joinedDone => exact all_node.2 carries
  | joinedMore _ skips reads _ _ ih₁ _ ih₂ =>
      have after := (Moves.skips skips).depth.trans at_
      have right := all_node.1 (ih₁ after trivial)
      exact ih₂ (reads.moves.depth.trans after) (of rfl rfl (forall_children_two rfl carries right))
  | rangeBetween reads _ _ _ ih₁ _ ih₂ =>
      have left := all_node.1 (ih₁ at_ trivial)
      have right := all_node.1 (ih₂ (reads.moves.depth.trans at_) trivial)
      exact all_node.2 (of rfl rfl (forall_children_two rfl left right))
  | _ => cases family

theorem sheltered_operations (family : rule.family = .operations)
    (carries : rule.CarriesSheltered depth) : field.All (Sheltered depth) := by
  cases parts with
  | tightest _ _ ih | notMinus _ _ _ ih | notPower _ _ _ ih | notUnary _ _ _ ih =>
      exact ih at_ trivial
  | minus _ _ _ ih | unary _ _ _ ih =>
      have inner := all_node.1 (ih at_ trivial)
      exact all_node.2 (of rfl rfl (forall_children_one rfl inner))
  | level left _ _ ih₁ _ ih₂ =>
      have first := all_node.1 (ih₁ at_ trivial)
      exact ih₂ (left.moves.depth.trans at_) first
  | chainDone => exact all_node.2 carries
  | chainMore _ _ skips reads _ _ ih₁ _ ih₂ =>
      have after := (Moves.skips skips).depth.trans at_
      have right := all_node.1 (ih₁ after trivial)
      exact ih₂ (reads.moves.depth.trans after) (of rfl rfl (forall_children_two rfl carries right))
  | chainOnce _ _ skips _ _ ih =>
      have right := all_node.1 (ih ((Moves.skips skips).depth.trans at_) trivial)
      exact all_node.2 (of rfl rfl (forall_children_two rfl carries right))
  | power reads _ skips _ _ ih₁ _ ih₂ =>
      have left := all_node.1 (ih₁ at_ trivial)
      have after := ((reads.moves.trans (.next _)).trans (.skips skips)).depth
      have right := all_node.1 (ih₂ (after.trans at_) trivial)
      exact all_node.2 (of rfl rfl (forall_children_two rfl left right))
  | _ => cases family

theorem sheltered_messages (family : rule.family = .messages)
    (carries : rule.CarriesSheltered depth) : field.All (Sheltered depth) := by
  cases parts with
  | operand left _ _ ih₁ _ ih₂ =>
      have first := all_node.1 (ih₁ at_ trivial)
      exact ih₂ (left.moves.depth.trans at_) first
  | suffixesDone => exact all_node.2 carries
  | suffixesCall _ reads _ _ ih₁ _ ih₂ =>
      have start := (Moves.continued _).depth.trans at_
      have call := all_node.1 (ih₁ start carries)
      exact ih₂ (reads.moves.depth.trans start) call
  | suffixesIndex _ reads _ _ ih₁ _ ih₂ =>
      have args := all_optional.1 (ih₁ at_ trivial)
      refine ih₂ (reads.moves.depth.trans at_) (of rfl rfl ?_)
      simpa [children, fields, Field.toList, or_imp, forall_and] using ⟨carries, args⟩
  | callShorthand skips _ reads _ _ ih₁ _ ih₂ =>
      have after := (Moves.skips skips).depth.trans at_
      have args := all_node.1 (ih₁ after trivial)
      exact ih₂ (reads.moves.depth.trans after) (of rfl rfl
        (forall_children_three rfl carries ⟨rfl, fun _ => rfl⟩ args))
  | constPath _ found _ _ =>
      exact all_node.2 (of rfl rfl (forall_children_two rfl carries (of_message? found)))
  | callBare skips found _ _ _ _ ih =>
      exact ih ((Moves.skips skips).depth.trans at_) (of rfl rfl
        (forall_children_two rfl carries (of_message? found)))
  | callArgs skips found _ reads _ _ ih₁ _ ih₂ =>
      have after := (Moves.skips skips).depth.trans at_
      have args := all_node.1 (ih₁ after trivial)
      exact ih₂ (reads.moves.depth.trans after) (of rfl rfl
        (forall_children_three rfl carries (of_message? found) args))
  | _ => cases family

theorem sheltered_operands (family : rule.family = .operands) : field.All (Sheltered depth) := by
  cases parts with
  | paren _ skips _ _ _ _ ih =>
      have inner := all_node.1 (ih ((Moves.skips skips).depth.trans at_) trivial)
      exact all_node.2 (of rfl rfl (forall_children_one rfl inner))
  | leaf found => exact all_node.2 (of_leaf? found)
  | constant | localVar | vcall => exact all_node.2 ⟨rfl, fun _ => rfl⟩
  | fcall found _ reads _ _ ih₁ _ ih₂ =>
      have args := all_node.1 (ih₁ at_ trivial)
      exact ih₂ (reads.moves.depth.trans at_) (of rfl rfl
        (forall_children_two rfl (of_callee? found) args))
  | command _ _ _ _ reads _ _ ih₁ _ ih₂ =>
      -- The arguments are read one level deeper, and what follows at the depth of the command.
      have args := all_node.1 (ih₁ (congrArg (· + 1) at_) trivial)
      have back := (Moves.outOfCommand reads.moves).depth.trans at_
      exact ih₂ back (Sheltered.command ⟨rfl, fun _ => rfl⟩ args)
  | fcallBlock _ _ _ _ _ _ _ ih => exact ih at_ ⟨rfl, fun _ => rfl⟩
  | array _ skips _ _ _ ih | hash _ skips _ _ _ ih =>
      have inside := ih (Moves.skips skips).depth trivial
      exact all_node.2 (of_shelters rfl (List.forall_mem_singleton.2 inside))
  | lambda _ reads _ _ ih₁ _ ih₂ =>
      have params := ih₁ at_ trivial
      have body := ih₂ (reads.moves.depth.trans at_) trivial
      exact all_node.2 (of_fields rfl rfl
        (List.forall_mem_cons.2 ⟨params, List.forall_mem_singleton.2 body⟩))
  | _ => cases family

theorem sheltered_blocks (family : rule.family = .blocks) (carries : rule.CarriesSheltered depth) :
    field.All (Sheltered depth) := by
  cases parts with
  | blockVarNone | lambdaNone =>
      exact List.forall_mem_nil _
  | lambdaBraces _ _ _ _ ih | lambdaDo _ _ _ _ ih | lambdaBare _ _ _ _ ih
  | lambdaParen _ _ _ _ ih => exact ih at_ trivial
  | blockBraces _ reads _ ih =>
      have block := all_node.1 (ih at_ trivial)
      refine all_node.2 (of rfl ?_ ?_)
      · cases reads
        rfl
      · simpa [children, fields, Field.toList] using ⟨carries, block⟩
  | blockDo atDo _ _ ih =>
      -- A `do` is taken at the depth zero only, where nothing has to be sheltered.
      obtain rfl : depth = 0 := by
        rw [← at_]
        simpa using (Bool.and_eq_true_iff.1 atDo).2
      exact all_node.2 (Sheltered.methodAddBlock carries (all_node.1 (ih at_ trivial)))
  | blockNone => exact all_node.2 carries
  | braceBlock _ skips reads _ _ _ ih₁ _ ih₂ =>
      have start := (Moves.skips skips).depth
      have params := ih₁ start trivial
      have body := ih₂ (reads.moves.depth.trans start) trivial
      exact all_node.2 (of_shelters rfl
        (List.forall_mem_cons.2 ⟨params, List.forall_mem_singleton.2 body⟩))
  | doBlock _ reads _ _ _ ih₁ _ ih₂ =>
      have params := ih₁ rfl trivial
      have body := ih₂ reads.moves.depth trivial
      exact all_node.2 (of_shelters rfl
        (List.forall_mem_cons.2 ⟨params, List.forall_mem_singleton.2 body⟩))
  | blockVarBars => exact all_some.2 ⟨rfl, fun _ => rfl⟩
  | blockVarSome _ _ _ _ ih =>
      have params := all_node.1 (ih at_ trivial)
      exact all_some.2 (of rfl rfl (forall_children_one rfl params))
  | _ => cases family

theorem sheltered_clauses (family : rule.family = .clauses) : field.All (Sheltered depth) := by
  cases parts with
  | exceptionsNone => exact List.forall_mem_nil _
  | rescueNone | holderNone | clauseNone =>
      exact List.forall_mem_nil _
  | exceptionsSome _ _ _ ih | clauseSome _ _ _ ih => exact ih at_ trivial
  | bodyStmt stmts rescue elseBody _ _ ih₁ _ ih₂ _ ih₃ _ ih₄ =>
      have after₁ := stmts.moves.depth.trans at_
      have after₂ := rescue.moves.depth.trans after₁
      have after₃ := elseBody.moves.depth.trans after₂
      refine all_node.2 (of_fields rfl rfl ?_)
      simp only [fields, List.forall_mem_cons]
      exact ⟨ih₁ at_ trivial, ih₂ after₁ trivial, ih₃ after₂ trivial, ih₄ after₃ trivial,
        List.forall_mem_nil _⟩
  | rescueMore _ exceptions holder stmts _ _ ih₁ _ ih₂ _ ih₃ _ ih₄ =>
      have after₁ := exceptions.moves.depth.trans at_
      have after₂ := (holder.moves.trans (.pastThen _)).depth.trans after₁
      have after₃ := stmts.moves.depth.trans after₂
      refine all_some.2 (of_fields rfl rfl ?_)
      simp only [fields, List.forall_mem_cons]
      exact ⟨ih₁ at_ trivial, ih₂ after₁ trivial, ih₃ after₂ trivial, ih₄ after₃ trivial,
        List.forall_mem_nil _⟩
  | holderSome _ _ made _ ih =>
      exact all_some.2 ((all_node.1 (ih at_ trivial)).target made)
  | _ => cases family

theorem sheltered_parameters (family : rule.family = .parameters)
    (carries : rule.CarriesSheltered depth) : field.All (Sheltered depth) := by
  cases parts with
  | params skips _ _ ih => exact ih ((Moves.skips skips).depth.trans at_) (List.forall_mem_nil _)
  | paramsDone => exact all_node.2 (of rfl rfl carries)
  | paramsLast _ _ _ _ _ _ ih =>
      have param := all_node.1 (ih at_ trivial)
      exact all_node.2 (of rfl rfl (ParamList.forall_children_add carries param))
  | paramsExcess _ _ _ _ _ _ _ _ _ _ ih =>
      have param := all_node.1 (ih at_ trivial)
      have added := ParamList.forall_children_add carries param
      exact all_node.2 (of rfl rfl (ParamList.forall_children_rest added ⟨rfl, fun _ => rfl⟩))
  | paramsMore _ reads _ skips _ skips' _ _ _ ih₁ _ ih₂ =>
      have param := all_node.1 (ih₁ at_ trivial)
      have after :=
        (((reads.moves.trans (.skips skips)).trans (.next _)).trans (.skips skips')).depth
      have added := ParamList.forall_children_add carries param
      exact ih₂ (after.trans at_) added
  | restParam | keywordRestParam =>
      unfold ParseState.paramName?
      split <;> exact all_node.2 ⟨rfl, fun _ => rfl⟩
  | blockParam | keywordParam | nameParam =>
      exact all_node.2 ⟨rfl, fun _ => rfl⟩
  | keywordDefault _ after _ _ _ ih | optionalParam _ after _ _ _ ih =>
      subst after
      have default := all_node.1 (ih at_ trivial)
      exact all_node.2 (of rfl rfl (forall_children_two rfl ⟨rfl, fun _ => rfl⟩ default))
  | _ => cases family

theorem sheltered_lists (family : rule.family = .lists) (carries : rule.CarriesSheltered depth) :
    field.All (Sheltered depth) := by
  cases parts with
  | entriesDone => exact List.forall_mem_nil _
  | elementPlain _ _ _ ih => exact ih at_ trivial
  | elementSplat _ _ _ ih | entrySplat _ _ _ ih =>
      have inner := all_node.1 (ih at_ trivial)
      exact all_node.2 (of rfl rfl (forall_children_one rfl inner))
  | entryArrow _ _ reads skips _ skips' _ _ ih₁ _ ih₂ =>
      have left := all_node.1 (ih₁ at_ trivial)
      have after :=
        (((reads.moves.trans (.skips skips)).trans (.next _)).trans (.skips skips')).depth
      have right := all_node.1 (ih₂ (after.trans at_) trivial)
      exact all_node.2 (of rfl rfl (forall_children_two rfl left right))
  | entryLabel _ skips _ _ ih =>
      have value := all_node.1 (ih ((Moves.skips skips).depth.trans at_) trivial)
      exact all_node.2 (of rfl rfl (forall_children_two rfl ⟨rfl, fun _ => rfl⟩ value))
  | itemsLast _ _ _ ih | itemsClosed _ _ _ _ _ ih | entriesLast _ _ _ _ _ ih => exact ih at_ carries
  | itemsMore reads _ skips _ _ _ ih₁ _ ih₂ =>
      have after := ((reads.moves.trans (.next _)).trans (.skips skips)).depth
      exact List.forall_mem_cons.2 ⟨all_node.1 (ih₁ at_ carries), ih₂ (after.trans at_) carries⟩
  | entriesMore _ reads skips _ skips' _ _ ih₁ _ ih₂ =>
      have after :=
        (((reads.moves.trans (.skips skips)).trans (.next _)).trans (.skips skips')).depth
      exact List.forall_mem_cons.2 ⟨all_node.1 (ih₁ at_ carries), ih₂ (after.trans at_) carries⟩
  | _ => cases family

theorem sheltered_arguments (family : rule.family = .arguments) : field.All (Sheltered depth) := by
  cases parts with
  | indexEmpty =>
      exact List.forall_mem_nil _
  | argumentPlain _ _ _ _ _ ih => exact ih at_ trivial
  | argumentSplat _ _ _ ih | argumentDoubleSplat _ _ _ ih =>
      have inner := all_node.1 (ih at_ trivial)
      exact all_node.2 (of rfl rfl (forall_children_one rfl inner))
  | argumentArrow _ _ reads _ skips _ _ ih₁ _ ih₂ =>
      have left := all_node.1 (ih₁ at_ trivial)
      have after := ((reads.moves.trans (.next _)).trans (.skips skips)).depth
      have right := all_node.1 (ih₂ (after.trans at_) trivial)
      exact all_node.2 (of rfl rfl (forall_children_two rfl left right))
  | argumentBlockLone | parenEmpty =>
      exact all_node.2 ⟨rfl, fun _ => rfl⟩
  | argumentLabel _ skips _ _ ih =>
      have value := all_node.1 (ih ((Moves.skips skips).depth.trans at_) trivial)
      exact all_node.2 (of rfl rfl (forall_children_two rfl ⟨rfl, fun _ => rfl⟩ value))
  | arguments _ _ ih =>
      have parts := Sheltered.gatherEntries (ih at_ trivial)
      exact all_node.2 (of_fields rfl rfl (List.forall_mem_singleton.2 parts))
  | argumentBlock _ _ _ _ ih =>
      have inner := all_node.1 (ih at_ trivial)
      exact all_node.2 (of rfl rfl (forall_children_one rfl inner))
  | parenFull _ skips _ _ _ _ _ ih =>
      have args := ih (Moves.skips skips).depth trivial
      exact all_node.2 (of_shelters rfl (List.forall_mem_singleton.2 args))
  | indexFull _ skips _ _ _ _ _ ih => exact ih ((Moves.skips skips).depth.trans at_) trivial
  | _ => cases family

end Families

/-- What a rule reads is sheltered as the depth of commands asks for, if what it goes on with is. -/
theorem sheltered (reads : Derives fits rule s field s') (at_ : s.commandDepth = depth)
    (carries : rule.CarriesSheltered depth) : field.All (Sheltered depth) := by
  induction reads using of_parts generalizing depth with
  | @step rule _ _ _ _ parts =>
      cases family : rule.family with
      | statements => exact sheltered_statements parts at_ family
      | assignments => exact sheltered_assignments parts at_ family
      | junctions => exact sheltered_junctions parts at_ family carries
      | operations => exact sheltered_operations parts at_ family carries
      | messages => exact sheltered_messages parts at_ family carries
      | operands => exact sheltered_operands parts at_ family
      | blocks => exact sheltered_blocks parts at_ family carries
      | clauses => exact sheltered_clauses parts at_ family
      | parameters => exact sheltered_parameters parts at_ family carries
      | lists => exact sheltered_lists parts at_ family carries
      | arguments => exact sheltered_arguments parts at_ family

end Derives

/-! ## What every parser gives back -/

namespace Parse

open ParseM ParseState

/-- The parsers of the grammar, over those for what stands one level deeper. -/
inductive Routine (rules : Rules) : {α : Type} → ParseM α → Prop where
  | program : Routine rules (program rules)
  | stmts (words : List String) : Routine rules (stmts rules words)
  | stmt : Routine rules (stmt rules)
  | assignment (takesList : Bool) : Routine rules (assignment rules takesList)
  | target (expr : Node) : Routine rules (target expr)
  | rightSide (takesList : Bool) : Routine rules (rightSide rules takesList)
  | values : Routine rules (values rules)
  | listedValue : Routine rules (listedValue rules)
  | expression : Routine rules (expression rules)
  | negated : Routine rules (negated rules)
  | range : Routine rules (range rules)
  | operations (levels : List OperatorLevel) : Routine rules (operations rules levels)
  | minus : Routine rules (minus rules)
  | power : Routine rules (power rules)
  | unary : Routine rules (unary rules)
  | operand : Routine rules (operand rules)
  | callSuffix (receiver : Node) : Routine rules (callSuffix rules receiver)
  | primary : Routine rules (primary rules)
  | identifier : Routine rules (identifier rules)
  | constant : Routine rules (constant rules)
  | paren : Routine rules (paren rules)
  | array : Routine rules (array rules)
  | hash : Routine rules (hash rules)
  | element : Routine rules (element rules)
  | entry : Routine rules (entry rules)
  | arguments (closer : Option String) : Routine rules (arguments rules closer)
  | argument : Routine rules (argument rules)
  | parenArguments : Routine rules (parenArguments rules)
  | indexArguments : Routine rules (indexArguments rules)
  | withBlock (call : Node) : Routine rules (withBlock rules call)
  | braceBlock : Routine rules (braceBlock rules)
  | doBlock : Routine rules (doBlock rules)
  | bodyStmt : Routine rules (bodyStmt rules)
  | rescueChain : Routine rules (rescueChain rules)
  | rescueClause : Routine rules (rescueClause rules)
  | exceptions : Routine rules (exceptions rules)
  | holder : Routine rules (holder rules)
  | clause (word : String) (words : List String) : Routine rules (clause rules word words)
  | lambda : Routine rules (lambda rules)
  | lambdaParams : Routine rules (lambdaParams rules)
  | lambdaBody : Routine rules (lambdaBody rules)
  | blockVar : Routine rules (blockVar rules)
  | params (closer : String) : Routine rules (params rules closer)
  | param (closer : String) (list : ParamList) : Routine rules (param rules closer list)
  | paramName : Routine rules paramName
  | paramName? : Routine rules paramName?
  | expect (word : String) : Routine rules (expect word)
  | skipNewlines : Routine rules skipNewlines

variable {rules : Rules} {s : ParseState}

theorem moves_program (sound : rules.Sound) {r : Node × ParseState}
    (ran : (program rules).run s = .ok r) : s.Moves r.2 := by
  simp only [program, run_bind_ok, run_ite_ok, run_current_ok, run_pure_ok, run_fail_ok,
    exists_eq_left, and_false, or_false] at ran
  obtain ⟨body, read, -, rfl⟩ := ran
  exact (sound.stmts read).moves

theorem moves_rescueClause (sound : rules.Sound) {r : (Option Node → Node) × ParseState}
    (ran : (rescueClause rules).run s = .ok r) : s.Moves r.2 := by
  obtain ⟨clause, s₁⟩ := r
  obtain ⟨-, -, list, s₂, held, s₃, stmts, exceptions, holder, -, body, -⟩ :=
    run_rescueClause_ok.1 ran
  exact (Moves.next _).trans ((Reads.of_exceptions sound exceptions).moves.trans
    ((Reads.of_holder sound holder).moves.trans
      ((Moves.pastThen _).trans (sound.stmts body).moves)))

theorem moves_constant (sound : rules.Sound) {r : Node × ParseState}
    (ran : (constant rules).run s = .ok r) : s.Moves r.2 := by
  simp only [constant, run_bind_ok, run_ite_ok, run_current_ok, run_advance_ok, run_pure_ok,
    exists_eq_left, exists_and_eq_left] at ran
  obtain ⟨-, ⟨-, args, read, block⟩ | ⟨-, rfl⟩⟩ := ran
  · exact (Moves.next _).trans ((Reads.of_parenArguments sound read).moves.trans
      (Reads.of_withBlock sound block).moves)
  · exact .next _

theorem moves_identifier (sound : rules.Sound) {r : Node × ParseState}
    (ran : (identifier rules).run s = .ok r) : s.Moves r.2 := by
  simp only [identifier, run_bind_ok, run_ite_ok, run_advance_ok, run_get_ok, run_pure_ok,
    run_inCommand_ok, run_isAtDo_ok, exists_eq_left, exists_and_eq_left] at ran
  obtain ⟨-, ⟨-, args, read, block⟩ | ⟨-, ran⟩⟩ := ran
  · exact (Moves.next _).trans ((Reads.of_parenArguments sound read).moves.trans
      (Reads.of_withBlock sound block).moves)
  obtain ⟨-, rfl⟩ | ⟨-, ran⟩ := ran
  · exact .next _
  obtain ⟨-, _, ⟨args, read, rfl⟩, ran⟩ | ⟨-, ran⟩ := ran
  · have command := Moves.outOfCommand (Reads.of_arguments sound read).moves
    obtain ⟨-, block, readBlock, rfl⟩ | ⟨-, rfl⟩ := ran
    · exact (Moves.next _).trans (command.trans (Reads.of_doBlock sound readBlock).moves)
    · exact (Moves.next _).trans command
  obtain ⟨-, block⟩ | ⟨-, rfl⟩ := ran
  · exact (Moves.next _).trans (Reads.of_withBlock sound block).moves
  · exact .next _

theorem moves_paren (sound : rules.Sound) {r : Node × ParseState}
    (ran : (paren rules).run s = .ok r) : s.Moves r.2 := by
  obtain ⟨node, after⟩ := r
  obtain ⟨-, passed, skips, inner, behind, read, closing, skips', -, rfl, rfl⟩ :=
    run_paren_ok.1 ran
  exact ((Moves.next _).trans (.skips skips)).trans
    (((sound.stmt read).moves.trans (.skips skips')).trans (.next _))

/-- A list between delimiters gives the depth back. -/
theorem moves_closedList {item : ParseM Node} {rule : Rule} {closer : String}
    {r : List Node × ParseState}
    (itemSound : ∀ {s : ParseState} {r : Node × ParseState},
      item.run s = .ok r → Reads rule s (.node r.1) r.2)
    (ran : (delimited (closedList item closer)).run s = .ok r) : s.Moves r.2 := by
  obtain ⟨inner, read, rfl⟩ := run_delimited_ok.1 ran
  obtain ⟨s₁, s₂, skips, reads, -, after⟩ := Reads.of_closedList itemSound read
  rw [after]
  exact .givenBack ((Moves.skips skips).trans (reads.moves.trans (.next _)))

theorem moves_array (sound : rules.Sound) {r : Node × ParseState}
    (ran : (array rules).run s = .ok r) : s.Moves r.2 := by
  simp only [array, run_bind_ok, run_current_ok, run_pure_ok, run_expect_ok, exists_eq_left,
    exists_and_eq_left] at ran
  obtain ⟨-, elements, read, rfl⟩ := ran
  exact (Moves.next _).trans (moves_closedList (Reads.of_element sound) read)

theorem moves_hash (sound : rules.Sound) {r : Node × ParseState}
    (ran : (hash rules).run s = .ok r) : s.Moves r.2 := by
  simp only [hash, run_bind_ok, run_current_ok, run_pure_ok, run_expect_ok, exists_eq_left,
    exists_and_eq_left] at ran
  obtain ⟨-, entries, read, rfl⟩ := ran
  exact (Moves.next _).trans (moves_closedList (Reads.of_entry sound) read)

theorem moves_lambda (sound : rules.Sound) {r : Node × ParseState}
    (ran : (lambda rules).run s = .ok r) : s.Moves r.2 := by
  obtain ⟨node, after⟩ := r
  obtain ⟨-, params, between, readParams, body, behind, readBody, -, rfl, rfl⟩ :=
    run_lambda_ok.1 ran
  exact (Moves.next _).trans (.closed ((Reads.of_lambdaParams sound readParams).moves.trans
    (Reads.of_lambdaBody sound readBody).moves))

/-- Every parser takes tokens and declares variables, and gives the rest of the state back. -/
theorem Routine.moves {α : Type} {parser : ParseM α} {r : α × ParseState} (sound : rules.Sound)
    (routine : Routine rules parser) (ran : parser.run s = .ok r) : s.Moves r.2 := by
  cases routine with
  | program => exact moves_program sound ran
  | stmts => exact (Reads.of_stmts sound ran).moves
  | stmt => exact (Reads.of_stmt sound ran).moves
  | assignment => exact (Reads.of_assignment sound ran).moves
  | target => exact .target ran
  | rightSide => exact (Reads.of_rightSide sound ran).moves
  | values =>
      have right : (Parse.rightSide rules true).run s = .ok r := ran
      exact (Reads.of_rightSide sound right).moves
  | listedValue => exact (Reads.of_listedValue sound ran).moves
  | expression => exact (Reads.of_expression sound ran).moves
  | negated => exact (Reads.of_negated sound ran).moves
  | range => exact (Reads.of_range sound ran).moves
  | operations => exact (Reads.of_operations sound ran).moves
  | minus => exact (Reads.of_minus sound ran).moves
  | power => exact (Reads.of_power sound ran).moves
  | unary => exact (Reads.of_unary sound ran).moves
  | operand => exact (Reads.of_operand sound ran).moves
  | callSuffix => exact (Reads.of_callSuffix sound ran).moves
  | primary => exact (Reads.of_primary sound ran).moves
  | identifier => exact moves_identifier sound ran
  | constant => exact moves_constant sound ran
  | paren => exact moves_paren sound ran
  | array => exact moves_array sound ran
  | hash => exact moves_hash sound ran
  | element => exact (Reads.of_element sound ran).moves
  | entry => exact (Reads.of_entry sound ran).moves
  | arguments => exact (Reads.of_arguments sound ran).moves
  | argument => exact (Reads.of_argument sound ran).moves
  | parenArguments => exact (Reads.of_parenArguments sound ran).moves
  | indexArguments => exact (Reads.of_indexArguments sound ran).moves
  | withBlock => exact (Reads.of_withBlock sound ran).moves
  | braceBlock => exact (Reads.of_braceBlock sound ran).moves
  | doBlock => exact (Reads.of_doBlock sound ran).moves
  | bodyStmt => exact (Reads.of_bodyStmt sound ran).moves
  | rescueChain => exact (Reads.of_rescueChain sound ran).moves
  | rescueClause => exact moves_rescueClause sound ran
  | exceptions => exact (Reads.of_exceptions sound ran).moves
  | holder => exact (Reads.of_holder sound ran).moves
  | clause => exact (Reads.of_clause sound ran).moves
  | lambda => exact moves_lambda sound ran
  | lambdaParams => exact (Reads.of_lambdaParams sound ran).moves
  | lambdaBody => exact (Reads.of_lambdaBody sound ran).moves
  | blockVar => exact (Reads.of_blockVar sound ran).moves
  | params => exact (Reads.of_params sound ran).moves
  | param =>
      obtain ⟨param, -, reads⟩ := Reads.of_param sound ran
      exact reads.moves
  | paramName =>
      obtain ⟨-, rfl⟩ := run_paramName_ok.1 ran
      exact (Moves.next _).trans (.declaring _ _)
  | paramName? =>
      obtain ⟨-, rfl⟩ := run_paramName?_ok.1 ran
      exact .paramName? _
  | expect =>
      obtain ⟨-, rfl⟩ := run_expect_ok.1 ran
      exact .next _
  | skipNewlines => exact .skips (run_skipNewlines_ok.1 ran)

end Parse

/-- In the tree of a source, each call with a do block in the arguments of a command stands between
delimiters that are inside these arguments.  Every parser gives the depth of commands, the number of
scopes and all scopes but the innermost back as they were. -/
theorem Parse.shelters_doBlocks :
    (∀ source tree, Node.ofSource source = .ok tree →
      ∀ command ∈ tree.preorder, command.isOfKind .command = true →
      ∀ between call, command.Path between call → call.hasDoBlock = true →
        ∃ node ∈ between, node.shelters = true) ∧
    ∀ (bound : Nat) (α : Type) (parser : ParseM α), Parse.Routine (Rules.ofDepth bound) parser →
      ∀ before value after, parser.run before = .ok (value, after) →
        after.commandDepth = before.commandDepth ∧
          after.scopes.length = before.scopes.length ∧ after.scopes.tail = before.scopes.tail := by
  refine ⟨fun source tree parsed command mem isCommand between call path takesDo => ?_,
    fun bound α parser routine before value after ran => ?_⟩
  · obtain ⟨tokens, -, ran⟩ := Node.tokens_of_source parsed
    obtain ⟨s, reads⟩ := Reads.of_parse ran
    have whole := (Field.all_node.1 (reads.sheltered rfl trivial)).guarded
    have guarded := Node.everywhere_iff_preorder.1 whole command mem
    rw [Node.guarded, isCommand, Bool.true_and, Bool.not_eq_true'] at guarded
    by_contra none
    have opens : command.shelters = false := by
      cases command with
      | command => rfl
      | _ => cases isCommand
    have open_ : ∀ node ∈ command :: between, node.shelters = false := by
      refine List.forall_mem_cons.2 ⟨opens, fun node mem => ?_⟩
      exact Bool.eq_false_iff.2 fun shelters => none ⟨node, mem, shelters⟩
    rw [path.bareDo takesDo open_] at guarded
    cases guarded
  · have moves := routine.moves (Reads.sound_ofDepth bound) ran
    exact ⟨moves.depth, moves.scopes, moves.outer⟩

/-- A program of one command whose only argument is an array of one call with a do block. -/
def Node.isBracketedDo : Node → Bool
  | .program _ [.command _ _ (.args _ [.array _ [.methodAddBlock _ _ (.doBlock _ _ _)]])] => true
  | _ => false

/-- A do block between brackets in the arguments of a command, and what reading it gives back. -/
theorem Parse.shelters_doBlocks_bracketed :
    let source := "foo [bar do\nend]"
    (∃ tree command between call, Node.ofSource source = .ok tree ∧
      command ∈ tree.preorder ∧ command.isOfKind .command = true ∧ command.Path between call ∧
      call.hasDoBlock = true ∧ ∃ node ∈ between, node.shelters = true) ∧
    ∃ tokens value after, Tokens.ofSource source = .ok tokens ∧
      (Parse.primary (Rules.ofDepth 9)).run ⟨tokens.body, tokens.close, [["a"], ["b"]], 2⟩ =
        .ok (value, after) ∧
      after.commandDepth = 2 ∧ after.scopes.length = 2 ∧ after.scopes.tail = [["b"]] := by
  intro source
  constructor
  · obtain ⟨tree, parsed, isSo⟩ := Node.exists_of_source
      (show (Node.ofSource source).toOption.any Node.isBracketedDo = true by
        decide +kernel)
    unfold Node.isBracketedDo at isSo
    split at isSo
    case h_2 => cases isSo
    next top outer message inner place bracket callee block params body =>
      let call := Node.methodAddBlock bracket callee (.doBlock block params body)
      let args := Node.args inner [.array place [call]]
      have mem : Node.command outer message args ∈
          (Node.program top [.command outer message args]).preorder := by
        simp [Node.preorder, Node.fold, Field.toList]
      have path : (Node.command outer message args).Path [args, .array place [call]] call := by
        refine .step ?_ (.step ?_ (.child ?_)) <;>
          simp [args, Node.children, Node.fields, Field.toList]
      exact ⟨_, _, _, _, parsed, mem, rfl, path, rfl,
        shelters_doBlocks.1 _ _ parsed _ mem rfl _ _ path rfl⟩
  · obtain ⟨tokens, lexed, runs⟩ := exists_of_any
      (show (Tokens.ofSource source).toOption.any (fun tokens =>
        ((Parse.primary (Rules.ofDepth 9)).run
          ⟨tokens.body, tokens.close, [["a"], ["b"]], 2⟩).toOption.any fun _ => true) = true by
        decide +kernel)
    obtain ⟨⟨value, after⟩, ran, -⟩ := exists_of_any runs
    exact ⟨tokens, value, after, lexed, ran, shelters_doBlocks.2 9 _ _ .primary _ _ _ ran⟩

end RubyFormat
