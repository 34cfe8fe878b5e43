import Mathlib.Data.List.Chain
import RubyFormat.Proofs.Plain

/-!
# Where nodes stand and how they are made up

`Node.shaped` lists the kinds of node that each field can hold.  The layout relies on more than
that: some nodes stand in a few fields only, a statement has one comment at most, and a list of
values or arguments is never one that another node would stand for.  `Node.confinedTo` lists these
fields and `Node.formed` says how a node is made up.  Every node of a tree that the grammar reads
agrees with both.
-/

namespace RubyFormat

namespace Node

/-! ## The forms of nodes -/

/-- The fields that hold the statements of a body, each with the kind of its node. -/
def stmtFields : List (Kind × String) := [
  (.program, "stmts"), (.lambda, "body"), (.braceBlock, "body"), (.bodyStmt, "stmts"),
  (.bodyStmt, "else_body"), (.bodyStmt, "ensure"), (.rescue, "stmts")]

/-- The only fields that a node can stand in, if it cannot stand wherever its kind can. -/
def confinedTo : Node → Option (List (Kind × String))
  | .fcall _ _ none => some [(.methodAddBlock, "call")]
  | .commented _ _ _ | .call _ _ _ _ _ (_ :: _) => some stmtFields
  | .valueList _ _ | .splatValueList _ _ => some [(.assign, "value")]
  | .excessedComma _ => some [(.params, "rest")]
  | .params _ _ _ (some (.excessedComma _)) _ _ _ _ => some [(.blockVar, "params")]
  | .blockVar _ _ => some [(.braceBlock, "params"), (.doBlock, "params")]
  | _ => none

/-- Whether a node can stand in a field. -/
def fitsInto (field : Kind × String) (node : Node) : Bool :=
  node.confinedTo.all (·.contains field)

/-- Whether all nodes right below a node can stand where they do. -/
def placed (node : Node) : Bool :=
  node.fields.all fun field => field.2.toList.all (fitsInto (node.kind, field.1))

/-- Whether a node can be assigned to: a keyword is no variable. -/
def takesValue : Node → Bool
  | .varField _ inner => inner.any fun inner => !inner.isOfKind (.name .keyword)
  | .field _ _ _ _ | .arefField _ _ _ | .constPathRef _ _ _ => true
  | _ => false

/-- Two neighbours of which one at most is a hash without braces. -/
def Apart (left right : Node) : Prop :=
  ¬(left.kind = .bareAssocHash ∧ right.kind = .bareAssocHash)

instance (left right : Node) : Decidable (Apart left right) :=
  inferInstanceAs (Decidable ¬_)

/-- Whether a node is made up of the parts that a source gives it. -/
def formed : Node → Bool
  | .methodAddBlock _ callee block =>
      [.call, .fcall, .command].contains callee.kind &&
        (!callee.isOfKind .command || block.isOfKind .doBlock)
  | .call _ _ _ message arguments comments =>
      (!message.isOfKind .callShorthand || arguments.isSome) && comments.length ≤ 1
  | .commented _ stmt comments =>
      !([.call, .comment, .commented].contains stmt.kind) && comments.length == 1
  | .valueList _ values => 2 ≤ values.length && !values.any isSplat
  | .splatValueList _ values => values.any isSplat
  | .args _ parts => !parts.isEmpty && !parts.any isEntry && decide (parts.IsChain Apart)
  | .bareAssocHash _ entries => !entries.isEmpty
  | .assign _ target _ | .opAssign _ target _ _ => target.takesValue
  | .rescue _ _ target _ _ => target.all takesValue
  -- The comma of `|a,|` comes behind positional parameters, and no other comes with it.
  | .params _ required optional (some (.excessedComma _)) _ keywords keywordRest block =>
      (!required.isEmpty || !optional.isEmpty) && keywords.isEmpty && keywordRest.isNone &&
        block.isNone
  | _ => true

/-- Whether a node is made up as it should be and so placed that those below it are, too. -/
def documented (node : Node) : Bool :=
  node.formed && node.placed

/-! ## Fields -/

theorem fitsInto_of_free {node : Node} (free : node.confinedTo = none) (field : Kind × String) :
    node.fitsInto field = true := by
  rw [fitsInto, free]
  rfl

theorem fitsInto_of_confined {node : Node} {places : List (Kind × String)} {field : Kind × String}
    (confined : node.confinedTo = none ∨ node.confinedTo = some places) (mem : field ∈ places) :
    node.fitsInto field = true := by
  obtain free | confined := confined
  · exact fitsInto_of_free free field
  · rw [fitsInto, confined]
    simpa using mem

theorem placed_iff {node : Node} :
    node.placed = true ↔
      ∀ field ∈ node.fields, ∀ child ∈ field.2.toList,
        child.fitsInto (node.kind, field.1) = true := by
  simp [placed]

/-- A tree of documented nodes that can stand wherever its kind can. -/
structure Free (node : Node) : Prop where
  documented : node.everywhere documented = true
  free : node.confinedTo = none

theorem everywhere_documented {node : Node} (formed : node.formed = true)
    (placed : node.placed = true)
    (below : ∀ child ∈ node.children, child.everywhere Node.documented = true) :
    node.everywhere Node.documented = true :=
  everywhere_iff.2 ⟨Bool.and_eq_true_iff.2 ⟨formed, placed⟩, below⟩

theorem placed_of_free {node : Node} (below : ∀ child ∈ node.children, child.confinedTo = none) :
    node.placed = true :=
  placed_iff.2 fun field mem child inside =>
    fitsInto_of_free (below child (List.mem_flatMap.2 ⟨field, mem, inside⟩)) _

/-- A node above trees that can stand anywhere. -/
theorem everywhere_of_free {node : Node} (formed : node.formed = true)
    (below : ∀ child ∈ node.children, child.Free) : node.everywhere Node.documented = true :=
  everywhere_documented formed (placed_of_free fun child mem => (below child mem).free)
    fun child mem => (below child mem).documented

theorem Free.of {node : Node} (formed : node.formed = true) (free : node.confinedTo = none)
    (below : ∀ child ∈ node.children, child.Free) : node.Free :=
  ⟨everywhere_of_free formed below, free⟩

/-! ## What is read is documented -/

theorem leaf?_free {token : Token} {node : Node} (leaf : token.leaf? = some node) : node.Free := by
  obtain ⟨kind, rfl⟩ | ⟨kind, rfl⟩ | ⟨kind, -, rfl⟩ := token.leaf?_cases leaf
  all_goals exact ⟨rfl, rfl⟩

theorem message?_free {token : Token} {node : Node} (found : token.message? = some node) :
    node.Free ∧ node.isOfKind .callShorthand = false := by
  obtain ⟨kind, rfl⟩ := token.message?_eq_name found
  exact ⟨⟨rfl, rfl⟩, rfl⟩

theorem callee?_free {token : Token} {node : Node} (found : token.callee? = some node) :
    node.Free := by
  obtain ⟨kind, rfl⟩ := token.callee?_eq_name found
  exact ⟨rfl, rfl⟩

/-- The kinds of node with a field that some nodes are confined to. -/
def holderKinds : List Kind := [
  .program, .lambda, .braceBlock, .doBlock, .bodyStmt, .rescue, .methodAddBlock, .assign,
  .blockVar, .params]

theorem mem_holderKinds {node : Node} {places : List (Kind × String)}
    (confined : node.confinedTo = some places) : ∀ field ∈ places, field.1 ∈ holderKinds := by
  unfold confinedTo at confined
  split at confined <;> cases confined <;> decide

/-- What stands below any other node can stand anywhere. -/
theorem Free.below {node : Node} (whole : node.Free)
    (kind : holderKinds.contains node.kind = false) : ∀ child ∈ node.children, child.Free := by
  intro child mem
  obtain ⟨here, below⟩ := everywhere_iff.1 whole.documented
  obtain ⟨field, inFields, inside⟩ := List.mem_flatMap.1 mem
  have fits := placed_iff.1 (Bool.and_eq_true_iff.1 here).2 field inFields child inside
  refine ⟨below child mem, Option.eq_none_iff_forall_ne_some.2 fun places confined => ?_⟩
  rw [fitsInto, confined] at fits
  have isHolder := mem_holderKinds confined _ (List.contains_iff_mem.1 fits)
  rw [List.contains_iff_mem.2 isHolder] at kind
  cases kind

/-- The target made of an expression takes a value. -/
theorem target_takesValue {expr target : Node} {s s' : ParseState}
    (made : (Parse.target expr).run s = .ok (target, s')) (shaped : expr.wellShaped = true) :
    target.takesValue = true := by
  have here := (wellShaped_iff.1 shaped).1
  obtain ⟨pos, kind, namePos, text, rfl, rfl⟩ | ⟨pos, inner, noKeyword, rfl, rfl⟩ |
    ⟨pos, receiver, operator, namePos, text, comments, rfl, rfl⟩ |
    ⟨pos, receiver, args, rfl, rfl⟩ | ⟨pos, parent, name, rfl, rfl⟩ := target_cases made
  case inl => cases kind <;> first | rfl | cases here
  case inr.inl =>
    have isAssignable := isAssignable_of_isVariable here noKeyword
    cases inner with
    | name kind => cases kind <;> first | rfl | cases isAssignable
    | _ => rfl
  all_goals rfl

/-- The target made of an expression can stand where the expression can. -/
theorem target_free {expr target : Node} {s s' : ParseState}
    (made : (Parse.target expr).run s = .ok (target, s')) (whole : expr.Free) : target.Free := by
  have below (inside : ∀ child ∈ expr.children, child.Free) (child : Node)
      (mem : child ∈ target.children) : child.Free :=
    inside child (mem_children_of_target made mem)
  obtain ⟨pos, kind, namePos, text, rfl, rfl⟩ | ⟨pos, inner, -, rfl, rfl⟩ |
    ⟨pos, receiver, operator, namePos, text, comments, rfl, rfl⟩ |
    ⟨pos, receiver, args, rfl, rfl⟩ | ⟨pos, parent, name, rfl, rfl⟩ := target_cases made
  all_goals exact .of rfl rfl (below (whole.below rfl))

theorem commented_documented {stmt remark : Node} (whole : stmt.Free) (remark_free : remark.Free)
    (kind : [.call, .comment, .commented].contains stmt.kind = false) (pos : Pos) :
    (Node.commented pos stmt [remark]).everywhere documented = true := by
  refine everywhere_of_free ?_ ?_
  · rw [formed, kind]
    rfl
  · simpa [children, fields, Field.toList] using ⟨whole, remark_free⟩

/-- A statement that has no comment gets one. -/
theorem withComment_documented {stmt : Node} (whole : stmt.Free) (isValue : stmt.isValue = true)
    (pos : Pos) (text : String) :
    (stmt.withComment (.comment pos text)).everywhere documented = true ∧
      (stmt.withComment (.comment pos text)).confinedTo = some stmtFields := by
  have remark : (Node.comment pos text).Free := ⟨rfl, rfl⟩
  cases stmt with
  | call callPos receiver operator message arguments comments =>
      cases comments with
      | cons => cases whole.free
      | nil =>
          have formed := (Bool.and_eq_true_iff.1 (everywhere_iff.1 whole.documented).1).1
          have below := whole.below rfl
          simp only [withComment, List.nil_append]
          refine ⟨everywhere_of_free ?_ ?_, rfl⟩
          · simpa [Node.formed] using formed
          · simp only [children, fields, Field.toList, List.flatMap_cons, List.flatMap_nil,
              List.mem_append, List.mem_singleton] at below ⊢
            grind
  | comment => cases isValue
  | commented => cases whole.free
  | _ => exact ⟨commented_documented whole remark rfl _, rfl⟩

theorem ofValues_documented {pos : Pos} {values : List Node} (some : values ≠ [])
    (whole : ∀ value ∈ values, value.Free) :
    (ofValues pos values).everywhere documented = true ∧
      ((ofValues pos values).confinedTo = none ∨
        (ofValues pos values).confinedTo = .some [(.assign, "value")]) := by
  unfold ofValues
  split
  next splat =>
    refine ⟨everywhere_of_free splat ?_, .inr rfl⟩
    simpa [children, fields, Field.toList] using whole
  next noSplat =>
    split
    next value =>
      have only := whole value List.mem_cons_self
      exact ⟨only.documented, .inl only.free⟩
    next several =>
      refine ⟨everywhere_of_free ?_ ?_, .inr rfl⟩
      case refine_2 => simpa [children, fields, Field.toList] using whole
      cases values with
      | nil => exact absurd rfl some
      | cons first rest =>
          cases rest with
          | nil => exact (several first rfl).elim
          | cons second rest => simpa [formed] using noSplat

theorem gatherEntries_isChain {parts : List Node}
    (arguments : ∀ part ∈ parts, part.isArgument = true) :
    (gatherEntries parts).IsChain Apart := by
  induction parts with
  | nil => simp [gatherEntries]
  | cons part rest ih =>
      have first := arguments part List.mem_cons_self
      have others := ih fun part mem => arguments part (List.mem_cons_of_mem _ mem)
      simp only [gatherEntries]
      split
      next isEntry =>
        split
        next _ pos entries tail found =>
          rw [found] at others
          obtain ⟨apart, behind⟩ := List.isChain_cons.1 others
          exact List.isChain_cons.2 ⟨apart, behind⟩
        next noHash =>
          refine List.isChain_cons.2 ⟨fun next isNext both => ?_, others⟩
          obtain ⟨tail, found⟩ := List.head?_eq_some_iff.1 isNext
          cases next with
          | bareAssocHash pos entries => exact noHash pos entries tail found
          | _ => cases both.2
      next noEntry =>
        refine List.isChain_cons.2 ⟨fun next isNext both => ?_, others⟩
        cases part with
        | bareAssocHash => cases first
        | _ => cases both.1

theorem isEntry_of_isPart {part : Node} (isPart : part.isPart = true) : part.isEntry = false := by
  cases part with
  | assoc => cases isPart
  | doubleSplat => cases isPart
  | _ => rfl

theorem gatherEntries_free {parts : List Node} (whole : ∀ part ∈ parts, part.Free) :
    ∀ part ∈ gatherEntries parts, part.Free := by
  refine forall_gatherEntries (fun entry _ first => ?_) (fun entry pos entries _ first hash => ?_)
    whole
  · exact .of rfl rfl (forall_children_one rfl first)
  · have entries := hash.below rfl
    refine .of rfl rfl ?_
    simp only [children, fields, Field.toList, List.flatMap_cons, List.flatMap_nil,
      List.append_nil] at entries ⊢
    exact List.forall_mem_cons.2 ⟨first, entries⟩

/-- A node all of whose fields hold nodes that can stand there. -/
theorem everywhere_of_fields {node : Node} (formed : node.formed = true)
    (each : ∀ field ∈ node.fields, field.2.All fun child =>
      child.everywhere Node.documented = true ∧ child.fitsInto (node.kind, field.1) = true) :
    node.everywhere Node.documented = true := by
  refine everywhere_documented formed (placed_iff.2 ?_) (forall_children ?_)
  · exact fun field mem child inside => (each field mem child inside).2
  · exact fun field mem child inside => (each field mem child inside).1

theorem Free.fits {node : Node} (whole : node.Free) (place : Kind × String) :
    node.everywhere Node.documented = true ∧ node.fitsInto place = true :=
  ⟨whole.documented, fitsInto_of_free whole.free place⟩

end Node

namespace ParamList

theorem mem_children_add {list : ParamList} {pos : Pos} {param child : Node}
    (mem : child ∈ ((list.add param).toNode pos).children) :
    child ∈ (list.toNode pos).children ∨ child = param := by
  unfold add at mem
  split at mem
  case h_6 =>
    unfold addName at mem
    split at mem <;>
      simp only [toNode, Node.children, Node.fields, Field.toList, List.flatMap_cons,
        List.flatMap_nil, List.mem_append, List.mem_singleton] at mem ⊢ <;> grind
  all_goals
    simp only [toNode, Node.children, Node.fields, Field.toList, List.flatMap_cons,
      List.flatMap_nil, List.mem_append, List.mem_singleton, Option.toList_some] at mem ⊢
    grind

theorem forall_children_add {P : Node → Prop} {list : ParamList} {pos : Pos} {param : Node}
    (below : ∀ child ∈ (list.toNode pos).children, P child) (more : P param) :
    ∀ child ∈ ((list.add param).toNode pos).children, P child := by
  intro child mem
  obtain old | rfl := mem_children_add mem
  · exact below child old
  · exact more

/-- Parameters with another rest hold nothing else that is new. -/
theorem forall_children_rest {P : Node → Prop} {list : ParamList} {pos : Pos} {rest : Node}
    (below : ∀ child ∈ (list.toNode pos).children, P child) (more : P rest) :
    ∀ child ∈ (toNode { list with rest := some rest } pos).children, P child := by
  simp only [toNode, Node.children, Node.fields, Field.toList, List.flatMap_cons, List.flatMap_nil,
    List.mem_append, Option.toList_some, List.mem_singleton] at below ⊢
  grind

/-- Parameters without a comma behind them. -/
theorem toNode_free {list : ParamList} {pos : Pos}
    (below : ∀ child ∈ (list.toNode pos).children, child.Free) : (list.toNode pos).Free := by
  obtain ⟨required, optional, rest, post, keywords, keywordRest, block⟩ := list
  cases rest with
  | none => exact .of rfl rfl below
  | some rest =>
      cases rest with
      | excessedComma place =>
          have comma := below (.excessedComma place)
            (by simp [toNode, Node.children, Node.fields, Field.toList])
          cases comma.free
      | _ => exact .of rfl rfl below

/-- If a comma may come behind the last parameter, some parameter is positional. -/
theorem positional_of_add {list : ParamList} {param : Node}
    (allows : (list.add param).allowsExcessedComma = true) :
    (!(list.add param).required.isEmpty || !(list.add param).optional.isEmpty) = true := by
  unfold add at allows ⊢
  split at allows
  case h_6 =>
    unfold addName at allows ⊢
    split at allows <;> simp_all [allowsExcessedComma]
  all_goals simp_all [allowsExcessedComma]

/-- Parameters with a comma behind them. -/
theorem documented_of_comma {list : ParamList} {pos comma : Pos} {param : Node}
    (below : ∀ child ∈ ((list.add param).toNode pos).children, child.Free)
    (allows : (list.add param).allowsExcessedComma = true) :
    (ParamList.toNode { list.add param with rest := some (.excessedComma comma) } pos).everywhere
      Node.documented = true := by
  have positional := positional_of_add allows
  generalize list.add param = list at below allows positional
  obtain ⟨required, optional, rest, post, keywords, keywordRest, block⟩ := list
  refine Node.everywhere_of_fields ?_ ?_
  · simp_all [toNode, Node.formed, allowsExcessedComma]
  · have each {field : Field Node} (place : Kind × String)
        (inside : ∀ child ∈ field.toList, child ∈
          (toNode ⟨required, optional, rest, post, keywords, keywordRest, block⟩ pos).children) :
        field.All fun child =>
          child.everywhere Node.documented = true ∧ child.fitsInto place = true :=
      fun child mem => (below child (inside child mem)).fits place
    simp only [toNode, Node.fields, List.forall_mem_cons]
    refine ⟨each _ ?_, each _ ?_, Field.all_optional.2 ?_, each _ ?_, each _ ?_, each _ ?_,
      each _ ?_, List.forall_mem_nil _⟩
    case refine_3 => exact fun child isComma => Option.mem_some.1 isComma ▸ ⟨rfl, rfl⟩
    all_goals
      simp +contextual [toNode, Node.children, Node.fields, Field.toList]

end ParamList

/-- The fields that nodes which a rule yields can be confined to. -/
def Rule.confinement : Rule → Option (List (Kind × String))
  | .stmts _ | .clause _ _ | .lambdaBody => some Node.stmtFields
  | .values => some [(.assign, "value")]
  | .params closer | .paramList closer _ _ =>
      if closer == "|" then some [(.blockVar, "params")] else none
  | .blockVar => some [(.braceBlock, "params"), (.doBlock, "params")]
  | .items item _ | .entries item _ => item.confinement
  | _ => none

/-- A call that is read with the block behind it. -/
structure Node.AwaitsBlock (braces : Bool) (s : ParseState) (call : Node) : Prop where
  documented : call.everywhere Node.documented = true
  isCall : [Kind.call, .fcall, .command].contains call.kind = true
  command : call.isOfKind .command = true → braces = false
  bare : call.confinedTo = none ∨ call.confinedTo = some [(.methodAddBlock, "call")] ∧
    (braces && s.current.isWord "\x7b" || s.isAtDo) = true

/-- What has to hold of the nodes that a rule goes on with. -/
def Rule.CarriesDocumented : Rule → ParseState → Prop
  | .joined left, _ | .chain _ _ left, _ | .suffixes left, _ | .callSuffix left, _ => left.Free
  | .block braces call, s => call.AwaitsBlock braces s
  | .paramList _ pos list, _ => ∀ child ∈ (list.toNode pos).children, child.Free
  | .items item _, _ | .entries item _, _ => ∀ s, item.CarriesDocumented s
  | _, _ => True

/-- A field of documented trees, which are confined to no other fields than the rule says. -/
def Rule.YieldsDocumented (rule : Rule) (field : Field Node) : Prop :=
  field.All fun node => node.everywhere Node.documented = true ∧
    (node.confinedTo = none ∨ node.confinedTo = rule.confinement)

namespace Rule.YieldsDocumented

variable {rule : Rule} {tree : Node} {field : Field Node}

theorem of_free (free : field.All Node.Free) : rule.YieldsDocumented field :=
  fun node mem => ⟨(free node mem).documented, .inl (free node mem).free⟩

theorem of_node (free : tree.Free) : rule.YieldsDocumented (.node tree) :=
  of_free (Field.all_node.2 free)

theorem of_confined (documented : tree.everywhere Node.documented = true)
    (confined : tree.confinedTo = rule.confinement) : rule.YieldsDocumented (.node tree) :=
  Field.all_node.2 ⟨documented, .inr confined⟩

theorem of_some (yields : rule.YieldsDocumented (.node tree)) :
    rule.YieldsDocumented (.optional (some tree)) :=
  yields

/-- What a rule yields that confines nothing can stand anywhere. -/
theorem free (yields : rule.YieldsDocumented field) (open_ : rule.confinement = none) :
    field.All Node.Free := by
  intro node mem
  obtain ⟨documented, confined⟩ := yields node mem
  rw [open_, or_self] at confined
  exact ⟨documented, confined⟩

theorem node (yields : rule.YieldsDocumented (.node tree)) (open_ : rule.confinement = none) :
    tree.Free :=
  Field.all_node.1 (yields.free open_)

/-- What a rule yields can stand in the fields that it is confined to. -/
theorem fits (yields : rule.YieldsDocumented field) {place : Kind × String}
    (inside : rule.confinement.all (·.contains place) = true) :
    field.All fun node =>
      node.everywhere Node.documented = true ∧ node.fitsInto place = true := by
  intro node mem
  obtain ⟨documented, free | confined⟩ := yields node mem
  · exact ⟨documented, Node.fitsInto_of_free free place⟩
  · rw [← confined] at inside
    exact ⟨documented, inside⟩

theorem cons {first : Node} {rest : List Node}
    (head : rule.YieldsDocumented (.node first)) (tail : rule.YieldsDocumented (.list rest)) :
    rule.YieldsDocumented (.list (first :: rest)) :=
  List.forall_mem_cons.2 ⟨head first List.mem_cons_self, tail⟩

end Rule.YieldsDocumented

/-- A block behind a call. -/
theorem Node.AwaitsBlock.free {braces : Bool} {s : ParseState} {call block : Node}
    (awaits : call.AwaitsBlock braces s) (whole : block.Free)
    (takes : braces = true ∨ block.isOfKind .doBlock = true) :
    (Node.methodAddBlock call.pos call block).Free := by
  refine ⟨everywhere_of_fields ?_ ?_, rfl⟩
  · rw [formed, awaits.isCall, Bool.true_and, Bool.or_eq_true, Bool.not_eq_true']
    obtain rfl | isDo := takes
    · exact .inl (Bool.eq_false_iff.2 fun command =>
        absurd (awaits.command command).symm Bool.false_ne_true)
    · exact .inr isDo
  · simp only [fields, List.forall_mem_cons, Field.all_node]
    refine ⟨⟨awaits.documented, ?_⟩, whole.fits _, List.forall_mem_nil _⟩
    exact fitsInto_of_confined (awaits.bare.imp_right And.left) List.mem_cons_self

theorem Node.AwaitsBlock.of_free {braces : Bool} {s : ParseState} {call : Node} (whole : call.Free)
    (isCall : [Kind.call, .fcall, .command].contains call.kind = true)
    (command : call.isOfKind .command = true → braces = false) : call.AwaitsBlock braces s :=
  ⟨whole.documented, isCall, command, .inl whole.free⟩

theorem Derives.isOfKind_doBlock {fits : ParamList → Node → Prop} {s s' : ParseState} {block : Node}
    (reads : Derives fits .doBlock s (.node block) s') : block.isOfKind .doBlock = true := by
  cases reads
  rfl

theorem Derives.takesValue_holder {fits : ParamList → Node → Prop} {s s' : ParseState}
    {holder : Option Node} (reads : Derives fits .holder s (.optional holder) s') :
    holder.all Node.takesValue = true := by
  cases reads with
  | holderNone => rfl
  | holderSome _ reads made => exact Node.target_takesValue made (reads.shaped trivial).node

open Node Rule.YieldsDocumented in
/-- What a rule reads is documented, if what it goes on with is. -/
theorem Derives.documented {fits : ParamList → Node → Prop} {rule : Rule} {s s' : ParseState}
    {field : Field Node} (reads : Derives fits rule s field s')
    (carries : rule.CarriesDocumented s) : rule.YieldsDocumented field := by
  induction reads with
  | stmtsDone | exceptionsNone | entriesDone => exact List.forall_mem_nil _
  | rescueNone | holderNone | clauseNone | blockVarNone | lambdaNone | indexEmpty =>
      exact List.forall_mem_nil _
  | stmtsBreak _ _ _ ih | stmt _ _ _ ih | notNegated _ _ ih | tightest _ ih | notMinus _ _ ih
  | notPower _ _ ih | notUnary _ _ ih | notRange _ _ ih | unassigned _ _ _ ih
  | listedPlain _ _ ih | elementPlain _ _ ih | argumentPlain _ _ _ _ ih | lambdaBraces _ _ _ ih
  | lambdaDo _ _ _ ih => exact ih trivial
  | program _ _ ih =>
      refine of_node ⟨everywhere_of_fields rfl ?_, rfl⟩
      simp only [fields, List.forall_mem_cons]
      exact ⟨(ih trivial).fits rfl, List.forall_mem_nil _⟩
  | stmtsComment _ _ _ ih => exact cons (of_node ⟨rfl, rfl⟩) (ih trivial)
  | stmtsRemark _ _ _ reads _ _ ih₁ ih₂ =>
      have isValue := (reads.shaped trivial).kind
      refine cons (of_confined ?_ ?_) (ih₂ trivial)
      · exact (withComment_documented ((ih₁ trivial).node rfl) isValue _ _).1
      · exact (withComment_documented ((ih₁ trivial).node rfl) isValue _ _).2
  | stmtsLast _ _ _ _ _ _ ih => exact cons (of_node ((ih trivial).node rfl)) (List.forall_mem_nil _)
  | stmtsMore _ _ _ _ _ _ _ _ ih₁ ih₂ =>
      exact cons (of_node ((ih₁ trivial).node rfl)) (ih₂ trivial)
  | @assign takesList _ _ _ _ _ _ _ value reads _ made _ _ ih₁ ih₂ =>
      have takesValue := target_takesValue made (reads.shaped trivial).node
      have target := target_free made ((ih₁ trivial).node rfl)
      have value : (Rule.rightSide takesList).YieldsDocumented (.node value) := by
        cases takesList <;> exact ih₂ trivial
      refine of_node ⟨everywhere_of_fields takesValue ?_, rfl⟩
      simp only [fields, List.forall_mem_cons]
      exact ⟨Field.all_node.2 (target.fits _), value.fits (by cases takesList <;> rfl),
        List.forall_mem_nil _⟩
  | opAssign reads _ _ made _ _ ih₁ ih₂ =>
      have target := target_free made ((ih₁ trivial).node rfl)
      have value := (ih₂ trivial).node rfl
      exact of_node (.of (target_takesValue made (reads.shaped trivial).node) rfl
        (forall_children_two rfl target value))
  | values items ih =>
      exact Field.all_node.2 (ofValues_documented items.ne_nil ((ih fun _ => trivial).free rfl))
  | listedSplat _ _ ih | elementSplat _ _ ih | argumentSplat _ _ ih | entrySplat _ _ ih
  | argumentDoubleSplat _ _ ih | not _ _ ih | minus _ _ ih | unary _ _ ih | paren _ _ _ _ _ ih =>
      have inner := (ih trivial).node rfl
      exact of_node (.of rfl rfl (forall_children_one rfl inner))
  | expression _ _ ih₁ ih₂ | operand _ _ ih₁ ih₂ | level _ _ ih₁ ih₂ =>
      exact ih₂ ((ih₁ trivial).node rfl)
  | joinedDone | suffixesDone | chainDone => exact of_node carries
  | joinedMore _ _ _ _ ih₁ ih₂ | chainMore _ _ _ _ _ ih₁ ih₂ =>
      have right := (ih₁ trivial).node rfl
      exact ih₂ (.of rfl rfl (forall_children_two rfl carries right))
  | chainOnce _ _ _ _ ih =>
      have right := (ih trivial).node rfl
      exact of_node (.of rfl rfl (forall_children_two rfl carries right))
  | rangeBetween _ _ _ ih₁ ih₂ | power _ _ _ _ ih₁ ih₂ | entryArrow _ _ _ _ _ _ _ ih₁ ih₂
  | argumentArrow _ _ _ _ _ _ ih₁ ih₂ =>
      have left := (ih₁ trivial).node rfl
      have right := (ih₂ trivial).node rfl
      exact of_node (.of rfl rfl (forall_children_two rfl left right))
  | suffixesCall _ _ _ ih₁ ih₂ => exact ih₂ ((ih₁ carries).node rfl)
  | suffixesIndex _ _ _ ih₁ ih₂ =>
      have args := Field.all_optional.1 ((ih₁ trivial).free rfl)
      refine ih₂ (.of rfl rfl ?_)
      simpa [children, fields, Field.toList, or_imp, forall_and] using ⟨carries, args⟩
  | callShorthand _ _ _ _ ih₁ ih₂ =>
      have args := (ih₁ trivial).node rfl
      exact ih₂ (.of_free (.of rfl rfl
        (forall_children_three rfl carries ⟨rfl, rfl⟩ args)) rfl (absurd · Bool.false_ne_true))
  | constPath _ found isConst _ =>
      have message := (message?_free found).1
      exact of_node (.of rfl rfl (forall_children_two rfl carries message))
  | callBare _ found _ _ _ ih =>
      obtain ⟨message, noShorthand⟩ := message?_free found
      refine ih (.of_free (.of (by simp [formed, noShorthand]) rfl ?_) rfl
        (absurd · Bool.false_ne_true))
      simpa [children, fields, Field.toList] using ⟨carries, message⟩
  | callArgs _ found _ _ _ ih₁ ih₂ =>
      have message := (message?_free found).1
      have args := (ih₁ trivial).node rfl
      exact ih₂ (.of_free (.of (by simp [formed]) rfl
        (forall_children_three rfl carries message args)) rfl (absurd · Bool.false_ne_true))
  | leaf found => exact of_node (leaf?_free found)
  | constant | localVar | vcall => exact of_node ⟨rfl, rfl⟩
  | fcall found _ _ _ ih₁ ih₂ =>
      have callee := callee?_free found
      have args := (ih₁ trivial).node rfl
      exact ih₂ (.of_free (.of rfl rfl
        (forall_children_two rfl callee args)) rfl (absurd · Bool.false_ne_true))
  | command _ _ _ _ _ _ ih₁ ih₂ =>
      have args := (ih₁ trivial).node rfl
      exact ih₂ (.of_free (.of rfl rfl (forall_children_two rfl ⟨rfl, rfl⟩ args)) rfl fun _ => rfl)
  | fcallBlock _ _ _ _ follows _ ih =>
      -- Such a call is read only where a block follows, so it is not left without one.
      exact ih ⟨rfl, rfl, (absurd · Bool.false_ne_true), .inr ⟨rfl, by simpa using follows⟩⟩
  | array _ _ _ _ ih | hash _ _ _ _ ih =>
      have elements := (ih fun _ => trivial).free rfl
      exact of_node (.of rfl rfl (by simpa [children, fields, Field.toList] using elements))
  | lambda _ _ _ ih₁ ih₂ | braceBlock _ _ _ _ _ ih₁ ih₂ | doBlock _ _ _ _ ih₁ ih₂ =>
      refine of_node ⟨everywhere_of_fields rfl ?_, rfl⟩
      simp only [fields, List.forall_mem_cons]
      exact ⟨(ih₁ trivial).fits rfl, (ih₂ trivial).fits rfl, List.forall_mem_nil _⟩
  | blockBraces _ _ ih => exact of_node (carries.free ((ih trivial).node rfl) (.inl rfl))
  | blockDo _ reads ih =>
      exact of_node (carries.free ((ih trivial).node rfl) (.inr reads.isOfKind_doBlock))
  | blockNone noBrace noDo =>
      refine of_node ⟨carries.documented, carries.bare.resolve_right fun bare => ?_⟩
      rw [noBrace, noDo] at bare
      cases bare.2
  | bodyStmt _ _ _ _ ih₁ ih₂ ih₃ ih₄ =>
      refine of_node ⟨everywhere_of_fields rfl ?_, rfl⟩
      simp only [fields, List.forall_mem_cons]
      exact ⟨(ih₁ trivial).fits rfl, (ih₂ trivial).fits rfl, (ih₃ trivial).fits rfl,
        (ih₄ trivial).fits rfl, List.forall_mem_nil _⟩
  | rescueMore _ _ reads _ _ ih₁ ih₂ ih₃ ih₄ =>
      refine of_some (of_node ⟨everywhere_of_fields ?_ ?_, rfl⟩)
      · exact reads.takesValue_holder
      simp only [fields, List.forall_mem_cons]
      exact ⟨(ih₁ trivial).fits rfl, (ih₂ trivial).fits rfl, (ih₃ trivial).fits rfl,
        (ih₄ trivial).fits rfl, List.forall_mem_nil _⟩
  | exceptionsSome _ _ ih => exact ih fun _ => trivial
  | holderSome _ _ made ih =>
      exact of_some (of_node (target_free made ((ih trivial).node rfl)))
  | clauseSome _ _ ih => exact ih trivial
  | blockVarBars => exact of_some (of_confined rfl rfl)
  | blockVarSome _ _ _ ih =>
      refine of_some (of_confined (everywhere_of_fields rfl ?_) rfl)
      simp only [fields, List.forall_mem_cons]
      exact ⟨(of_some (ih trivial)).fits rfl, List.forall_mem_nil _⟩
  | lambdaParen _ _ _ ih | lambdaBare _ _ _ ih => exact of_some (of_node ((ih trivial).node rfl))
  | params _ _ ih => exact ih (List.forall_mem_nil _)
  | paramsDone => exact of_node (ParamList.toNode_free carries)
  | paramsLast _ _ _ _ _ ih =>
      have param := (ih trivial).node rfl
      exact of_node (ParamList.toNode_free (ParamList.forall_children_add carries param))
  | paramsExcess _ _ _ _ _ _ _ isBar allows ih =>
      have param := (ih trivial).node rfl
      subst isBar
      have added := ParamList.forall_children_add carries param
      exact of_confined (ParamList.documented_of_comma added allows) rfl
  | paramsMore _ _ _ _ _ _ _ _ ih₁ ih₂ =>
      exact ih₂ (ParamList.forall_children_add carries ((ih₁ trivial).node rfl))
  | restParam | keywordRestParam =>
      unfold ParseState.paramName?
      split <;> exact of_node ⟨rfl, rfl⟩
  | blockParam | keywordParam | nameParam | argumentBlockLone | parenEmpty =>
      exact of_node ⟨rfl, rfl⟩
  | keywordDefault _ _ _ _ ih | optionalParam _ _ _ _ ih | entryLabel _ _ _ ih
  | argumentLabel _ _ _ ih =>
      have default := (ih trivial).node rfl
      exact of_node (.of rfl rfl (forall_children_two rfl ⟨rfl, rfl⟩ default))
  | itemsLast _ _ ih | itemsClosed _ _ _ _ ih | entriesLast _ _ _ _ ih =>
      exact cons (ih (carries _)) (List.forall_mem_nil _)
  | itemsMore _ _ _ _ _ ih₁ ih₂ | entriesMore _ _ _ _ _ _ ih₁ ih₂ =>
      exact cons (ih₁ (carries _)) (ih₂ carries)
  | arguments items ih =>
      have isArgument := (items.shaped fun _ => trivial).listKind
      have parts := gatherEntries_free ((ih fun _ => trivial).free rfl)
      refine of_node (.of ?_ rfl (by simpa [children, fields, Field.toList] using parts))
      have filled := gatherEntries_ne_nil items.ne_nil
      have noEntry := fun part mem => isEntry_of_isPart (gatherEntries_isPart isArgument part mem)
      simpa [formed, gatherEntries_isChain isArgument] using ⟨filled, noEntry⟩
  | argumentBlock _ _ _ ih | parenFull _ _ _ _ _ _ ih =>
      have inner := (ih trivial).node rfl
      exact of_node (.of rfl rfl (forall_children_one rfl inner))
  | indexFull _ _ _ _ _ _ ih => exact of_some (of_node ((ih trivial).node rfl))

/-- Every node of the tree of a source is made up and placed as documented. -/
theorem Node.documented_of_source {source : String} {tree : Node}
    (parsed : Node.ofSource source = .ok tree) :
    tree.isOfKind .program = true ∧
      ∀ node ∈ tree.preorder, node.formed = true ∧ node.placed = true := by
  obtain ⟨tokens, -, ran⟩ := tokens_of_source parsed
  obtain ⟨s, reads⟩ := Reads.of_parse ran
  have whole := ((reads.documented trivial).node rfl).documented
  refine ⟨(reads.shaped trivial).kind, fun node mem => ?_⟩
  exact Bool.and_eq_true_iff.1 (everywhere_iff_preorder.1 whole node mem)

/-- Whether a tree has nodes of all the kinds. -/
def Node.hasKinds (kinds : List Kind) (tree : Node) : Bool :=
  kinds.all fun kind => tree.preorder.any (isOfKind kind)

/-- The confined nodes do occur, each in its place. -/
theorem Node.documented_of_source_mixed :
    let source :=
      "x.y = *f, 1 # r\n@z = 1, 2\ng h: 1, **i, j do |k, l = 2,| m.() # s\nend\nn \x7b \x7d"
    let kinds : List Kind := [.commented, .splatValueList, .valueList, .bareAssocHash, .command,
      .excessedComma, .callShorthand, .fcall]
    ∃ tree, Node.ofSource source = .ok tree ∧ tree.hasKinds kinds = true ∧
      tree.isOfKind .program = true ∧
      ∀ node ∈ tree.preorder, node.formed = true ∧ node.placed = true := by
  intro source kinds
  obtain ⟨tree, parsed, mixed⟩ := exists_of_source
    (show (Node.ofSource source).toOption.any (hasKinds kinds) = true by decide +kernel)
  exact ⟨tree, parsed, mixed, documented_of_source parsed⟩

end RubyFormat
