import RubyFormat.Proofs.Soundness

/-!
# The shape of the trees that sources have

The type of nodes lets any node stand anywhere.  `Node.shaped` says of one node what a source can
put into it: which operators, and which kinds of node in which field.  Every node of a tree that
the grammar reads is shaped.
-/

namespace RubyFormat

namespace Node

/-- Whether a node is a name of any kind. -/
def isName : Node → Bool
  | .name _ _ _ => true
  | _ => false

/-- Whether a node is the name of a variable, a constant or a literal keyword. -/
def isVariable : Node → Bool
  | .name kind _ _ => kind != .label && kind != .op
  | _ => false

/-- Whether a node is the name of a variable or constant; a keyword cannot be assigned to. -/
def isAssignable : Node → Bool
  | .name kind _ _ =>
      kind == .ident || kind == .const || kind == .ivar || kind == .cvar || kind == .gvar
  | _ => false

/-- Whether a node is the name of a call without receiver. -/
def isCallee : Node → Bool
  | .name kind _ _ => kind == .ident || kind == .const
  | _ => false

/-- Whether a node can be assigned to. -/
def isTarget : Node → Bool
  | .varField _ _ | .field _ _ _ _ | .arefField _ _ _ | .constPathRef _ _ _ => true
  | _ => false

/-- Whether a node can be the message of a call with or without arguments. -/
def isMessage (hasArguments : Bool) : Node → Bool
  | .callShorthand _ => hasArguments
  | .name kind _ _ => kind == .ident || kind == .const || kind == .op
  | _ => false

/-- Whether a node can have a block. -/
def isBlockCall : Node → Bool
  | .call _ _ _ _ _ comments => comments.isEmpty
  | .fcall _ _ _ | .command _ _ _ => true
  | _ => false

/-- Whether a node is a block. -/
def isBlock : Node → Bool
  | .braceBlock _ _ _ | .doBlock _ _ _ => true
  | _ => false

/-- Whether a node is a rest parameter or the comma that closes a list. -/
def isRest : Node → Bool
  | .restParam _ _ | .excessedComma _ => true
  | _ => false

/-- Whether a node is one of the parameters of a list. -/
def isParam : Node → Bool
  | .name .ident _ _ | .optionalParam _ _ _ | .restParam _ _ | .keywordParam _ _ _
  | .keywordRestParam _ _ | .blockParam _ _ => true
  | _ => false

/-- Whether a node is of the kind. -/
def isOfKind (kind : Kind) (node : Node) : Bool :=
  node.kind == kind

/-- The operators between two operands. -/
def binaryOperators : List String :=
  ["**", "..", "...", "and", "or"] ++ OperatorLevel.all.flatMap OperatorLevel.operators

/-- The operators before an operand. -/
def unaryOperators : List String := ["not", "-", "!", "~", "+"]

/-- Whether a node is an expression. -/
def isExpr : Node → Bool
  | .literal _ _ _ | .symbolLit _ _ | .array _ _ | .hash _ _ | .lambda _ _ _ | .varRef _ _
  | .constPathRef _ _ _ | .aref _ _ _ | .vcall _ _ | .fcall _ _ _ | .command _ _ _
  | .methodAddBlock _ _ _ | .binary _ _ _ _ | .unary _ _ _ | .paren _ _ => true
  | .call _ _ _ _ _ comments => comments.isEmpty
  | _ => false

/-- Whether a node is an expression or an assignment. -/
def isValue (node : Node) : Bool :=
  match node with
  | .assign _ _ _ | .opAssign _ _ _ _ => true
  | _ => node.isExpr

/-- Whether a node can stand in a list of statements, by itself or with its comments. -/
def isStmt (node : Node) : Bool :=
  match node with
  | .comment _ _ | .commented _ _ _ | .call _ _ _ _ _ _ => true
  | _ => node.isValue

/-- Whether a node is a value or a splat, as in a list of values. -/
def isListed (node : Node) : Bool :=
  node.isSplat || node.isValue

/-- Whether a node is an expression or a splat, as in an array. -/
def isElement (node : Node) : Bool :=
  node.isSplat || node.isExpr

/-- Whether a node is an argument of a call, before entries are gathered. -/
def isArgument (node : Node) : Bool :=
  match node with
  | .blockArg _ _ => true
  | _ => node.isEntry || node.isElement

/-- Whether a node is one of the arguments of a call. -/
def isPart (node : Node) : Bool :=
  match node with
  | .blockArg _ _ | .bareAssocHash _ _ => true
  | _ => node.isElement

/-- Whether a node can be on the right of an assignment. -/
def isRight (node : Node) : Bool :=
  match node with
  | .valueList _ _ | .splatValueList _ _ => true
  | _ => node.isValue

/-- Whether a node can be the key of an entry. -/
def isKey (node : Node) : Bool :=
  match node with
  | .name .label _ _ => true
  | _ => node.isExpr

/-- Whether a node has the operators and the kinds of node in it that a source can give it. -/
def shaped : Node → Bool
  | .program _ stmts => stmts.all isStmt
  | .commented _ stmt comments =>
      comments.all (isOfKind .comment) && !comments.isEmpty && stmt.isValue
  | .symbolLit _ value => value.isName
  | .array _ elements => elements.all isElement
  | .assoc _ key value => key.isKey && value.isExpr
  | .hash _ entries => entries.all isEntry
  | .bareAssocHash _ entries => !entries.isEmpty && entries.all isEntry
  | .lambda _ parameters body => parameters.all (isOfKind .params) && body.all isStmt
  | .varRef _ inner => inner.isVariable
  | .varField _ inner => inner.any isAssignable
  | .constPathRef _ parent ident => ident.isOfKind (.name .const) && parent.isExpr
  | .field _ receiver operator ident =>
      callOperators.contains operator && ident.isOfKind (.name .ident) && receiver.isExpr
  | .aref _ receiver arguments => arguments.all (isOfKind .args) && receiver.isExpr
  | .arefField _ receiver arguments => arguments.all (isOfKind .args) && receiver.isExpr
  | .assign _ target value => target.isTarget && value.isRight
  | .opAssign _ target operator value =>
      target.isTarget && Parse.assignOperators.contains operator && value.isValue
  | .valueList _ values => !values.isEmpty && values.all isListed
  | .splatValueList _ values => !values.isEmpty && values.all isListed
  | .splat _ value => value.isExpr
  | .doubleSplat _ value => value.isExpr
  | .args _ parts => !parts.isEmpty && parts.all isPart
  | .argParen _ arguments => arguments.all (isOfKind .args)
  | .blockArg _ value => value.all isExpr
  | .call _ receiver operator message arguments comments =>
      callOperators.contains operator && message.isMessage arguments.isSome &&
        arguments.all (isOfKind .argParen) && comments.all (isOfKind .comment) && receiver.isExpr
  | .vcall _ message => message.isOfKind (.name .ident)
  | .fcall _ message arguments => message.isCallee && arguments.all (isOfKind .argParen)
  | .command _ message arguments =>
      message.isOfKind (.name .ident) && arguments.isOfKind .args
  | .methodAddBlock _ callee block => callee.isBlockCall && block.isBlock
  | .optionalParam _ ident default => ident.isOfKind (.name .ident) && default.isExpr
  | .restParam _ ident => ident.all (isOfKind (.name .ident))
  | .keywordParam _ label default => label.isOfKind (.name .label) && default.all isExpr
  | .keywordRestParam _ ident => ident.all (isOfKind (.name .ident))
  | .blockParam _ ident => ident.isOfKind (.name .ident)
  | .params _ required optional rest post keywords keywordRest block =>
      required.all (isOfKind (.name .ident)) && optional.all (isOfKind .optionalParam) &&
        rest.all isRest && post.all (isOfKind (.name .ident)) &&
        keywords.all (isOfKind .keywordParam) && keywordRest.all (isOfKind .keywordRestParam) &&
        block.all (isOfKind .blockParam)
  | .blockVar _ parameters => parameters.all (isOfKind .params)
  | .rescue _ exceptions target stmts next =>
      target.all isTarget && next.all (isOfKind .rescue) && exceptions.all isExpr &&
        stmts.all isStmt
  | .bodyStmt _ stmts handler elseBody ensure =>
      handler.all (isOfKind .rescue) && stmts.all isStmt && elseBody.all (·.all isStmt) &&
        ensure.all (·.all isStmt)
  | .braceBlock _ parameters body => parameters.all (isOfKind .blockVar) && body.all isStmt
  | .doBlock _ parameters body =>
      parameters.all (isOfKind .blockVar) && body.isOfKind .bodyStmt
  | .binary _ left op right => binaryOperators.contains op && left.isExpr && right.isExpr
  | .unary _ op operand => unaryOperators.contains op && operand.isExpr
  | .paren _ expr => expr.isValue
  | .bare _ => false
  | .name _ _ _ | .literal _ _ _ | .callShorthand _ | .comment _ _ | .excessedComma _ => true

/-- Whether all nodes of a tree are shaped. -/
def wellShaped : Node → Bool :=
  fold fun node fields => node.shaped && fields.all fun field => field.2.toList.all id

/-- All nodes of a tree are shaped if the node is and those of the trees right below are. -/
theorem wellShaped_iff {node : Node} :
    node.wellShaped = true ↔
      node.shaped = true ∧ ∀ child ∈ node.children, child.wellShaped = true :=
  @everywhere_iff shaped node

theorem wellShaped_of {node : Node} (here : node.shaped = true)
    (below : ∀ child ∈ node.children, child.wellShaped = true) : node.wellShaped = true :=
  wellShaped_iff.2 ⟨here, below⟩

end Node

/-! ## What is read is shaped -/

namespace Field

/-- All nodes of a field have a property. -/
def All (P : α → Prop) (field : Field α) : Prop :=
  ∀ node ∈ field.toList, P node

variable {P : α → Prop}

@[simp] theorem all_node {node : α} : (Field.node node).All P ↔ P node := by
  simp [All, toList]

@[simp] theorem all_optional {node : Option α} :
    (Field.optional node).All P ↔ ∀ inner ∈ node, P inner := by
  simp [All, toList]

theorem all_some {node : α} : (Field.optional (some node)).All P ↔ P node := by
  simp

@[simp] theorem all_list {nodes : List α} : (Field.list nodes).All P ↔ ∀ node ∈ nodes, P node :=
  Iff.rfl

@[simp] theorem all_optionalList {nodes : Option (List α)} :
    (Field.optionalList nodes).All P ↔ ∀ inner ∈ nodes, ∀ node ∈ inner, P node := by
  cases nodes <;> simp [All, toList]

end Field

/-- What holds of the nodes in all fields of a node holds of the nodes right below it. -/
theorem Node.forall_children {P : Node → Prop} {node : Node}
    (each : ∀ field ∈ node.fields, field.2.All P) : ∀ child ∈ node.children, P child := by
  intro child mem
  obtain ⟨field, inFields, inside⟩ := List.mem_flatMap.1 mem
  exact each field inFields child inside

/-- What holds of the only node below a node holds of all of them. -/
theorem Node.forall_children_one {P : Node → Prop} {node first : Node}
    (children : node.children = [first]) (holds : P first) : ∀ child ∈ node.children, P child := by
  rw [children]
  exact List.forall_mem_singleton.2 holds

theorem Node.forall_children_two {P : Node → Prop} {node first second : Node}
    (children : node.children = [first, second]) (holds : P first) (also : P second) :
    ∀ child ∈ node.children, P child := by
  rw [children]
  exact List.forall_mem_cons.2 ⟨holds, List.forall_mem_singleton.2 also⟩

theorem Node.forall_children_three {P : Node → Prop} {node first second third : Node}
    (children : node.children = [first, second, third]) (holds : P first) (also : P second)
    (last : P third) : ∀ child ∈ node.children, P child := by
  rw [children]
  exact List.forall_mem_cons.2 ⟨holds, List.forall_mem_cons.2
    ⟨also, List.forall_mem_singleton.2 last⟩⟩

/-- What has to hold of the nodes and the token that a rule goes on with. -/
def Rule.CarriesShaped : Rule → ParseState → Prop
  | .joined left, _ => left.wellShaped ∧ left.isExpr
  | .operations levels, _ => levels ⊆ OperatorLevel.all
  | .chain level tighter left, _ =>
      level :: tighter ⊆ OperatorLevel.all ∧ left.wellShaped ∧ left.isExpr
  | .suffixes expr, _ => expr.wellShaped ∧ expr.isExpr
  | .callSuffix receiver, s =>
      (receiver.wellShaped ∧ receiver.isExpr) ∧ s.current.isOpIn callOperators = true
  | .block _ call, _ => call.wellShaped ∧ call.isBlockCall = true
  | .paramList _ pos list, _ => (list.toNode pos).wellShaped
  | .items item _, _ => ∀ s, item.CarriesShaped s
  | .entries item _, _ => ∀ s, item.CarriesShaped s
  | _, _ => True

/-- The kinds of node that a rule yields. -/
def Rule.yields : Rule → Node → Bool
  | .program => Node.isOfKind .program
  | .stmts _ | .clause _ _ | .lambdaBody => Node.isStmt
  | .stmt | .assignment _ => Node.isValue
  | .values => Node.isRight
  | .listedValue => Node.isListed
  | .expression | .joined _ | .negated | .range | .operations _ | .chain _ _ _ | .minus | .power
  | .unary | .operand | .suffixes _ | .callSuffix _ | .primary | .block _ _ | .exceptions =>
      Node.isExpr
  | .arguments _ | .indexArguments => Node.isOfKind .args
  | .parenArguments => Node.isOfKind .argParen
  | .braceBlock | .doBlock => Node.isBlock
  | .bodyStmt => Node.isOfKind .bodyStmt
  | .rescueChain => Node.isOfKind .rescue
  | .holder => Node.isTarget
  | .blockVar => Node.isOfKind .blockVar
  | .lambdaParams | .params _ | .paramList _ _ _ => Node.isOfKind .params
  | .param _ => Node.isParam
  | .argument => Node.isArgument
  | .element => Node.isElement
  | .entry => Node.isEntry
  | .items item _ | .entries item _ => item.yields

namespace Node

theorem isAssignable_of_isVariable {inner : Node} (isVariable : inner.isVariable = true)
    (noKeyword : ∀ pos text, inner = .name .keyword pos text → False) :
    inner.isAssignable = true := by
  cases inner with
  | name kind pos text =>
      cases kind with
      | keyword => exact (noKeyword pos text rfl).elim
      | _ => first | rfl | cases isVariable
  | _ => cases isVariable

/-- What a target can be made of, and what is made of it. -/
theorem target_cases {expr target : Node} {s s' : ParseState}
    (made : (Parse.target expr).run s = .ok (target, s')) :
    (∃ pos kind namePos text, expr = .vcall pos (.name kind namePos text) ∧
        target = .varField pos (some (.name kind namePos text))) ∨
      (∃ pos inner, (∀ namePos text, inner = .name .keyword namePos text → False) ∧
        expr = .varRef pos inner ∧ target = .varField pos (some inner)) ∨
      (∃ pos receiver operator namePos text comments,
        expr = .call pos receiver operator (.name .ident namePos text) none comments ∧
          target = .field pos receiver operator (.name .ident namePos text)) ∨
      (∃ pos receiver args, expr = .aref pos receiver args ∧
        target = .arefField pos receiver args) ∨
      ∃ pos parent name, expr = .constPathRef pos parent name ∧
        target = .constPathRef pos parent name := by
  unfold Parse.target at made
  split at made <;>
    simp only [ParseM.run_bind_ok, ParseM.run_declare_ok, ParseM.run_pure_ok,
      ParseM.run_throw_ok, ParseM.exists_and_eq_left, Prod.mk.injEq] at made
  case h_1 =>
    obtain ⟨-, rfl, -⟩ := made
    exact .inl ⟨_, _, _, _, rfl, rfl⟩
  case h_3 noKeyword =>
    obtain ⟨rfl, -⟩ := made
    exact .inr (.inl ⟨_, _, noKeyword, rfl, rfl⟩)
  case h_4 =>
    obtain ⟨rfl, -⟩ := made
    exact .inr (.inr (.inl ⟨_, _, _, _, _, _, rfl, rfl⟩))
  case h_5 =>
    obtain ⟨rfl, -⟩ := made
    exact .inr (.inr (.inr (.inl ⟨_, _, _, rfl, rfl⟩)))
  case h_6 =>
    obtain ⟨rfl, -⟩ := made
    exact .inr (.inr (.inr (.inr ⟨_, _, _, rfl, rfl⟩)))

/-- The nodes right below a target are among those below its expression. -/
theorem mem_children_of_target {expr target child : Node} {s s' : ParseState}
    (made : (Parse.target expr).run s = .ok (target, s')) (mem : child ∈ target.children) :
    child ∈ expr.children := by
  obtain ⟨pos, kind, namePos, text, rfl, rfl⟩ | ⟨pos, inner, -, rfl, rfl⟩ |
    ⟨pos, receiver, operator, namePos, text, comments, rfl, rfl⟩ |
    ⟨pos, receiver, args, rfl, rfl⟩ | ⟨pos, parent, name, rfl, rfl⟩ := target_cases made
  case inr.inr.inl =>
    simp only [children, fields, Field.toList, List.flatMap_cons, List.flatMap_nil] at mem ⊢
    grind
  all_goals exact mem

/-- The target made of a shaped expression is shaped. -/
theorem target_wellShaped {expr target : Node} {s s' : ParseState}
    (made : (Parse.target expr).run s = .ok (target, s')) (shaped : expr.wellShaped = true) :
    target.wellShaped = true ∧ target.isTarget = true := by
  obtain ⟨here, inside⟩ := wellShaped_iff.1 shaped
  have below (child : Node) (mem : child ∈ target.children) : child.wellShaped = true :=
    inside child (mem_children_of_target made mem)
  obtain ⟨pos, kind, namePos, text, rfl, rfl⟩ | ⟨pos, inner, noKeyword, rfl, rfl⟩ |
    ⟨pos, receiver, operator, namePos, text, comments, rfl, rfl⟩ |
    ⟨pos, receiver, args, rfl, rfl⟩ | ⟨pos, parent, name, rfl, rfl⟩ := target_cases made
  case inl =>
    cases kind with
    | ident => exact ⟨wellShaped_of rfl below, rfl⟩
    | _ => cases here
  case inr.inl => exact ⟨wellShaped_of (isAssignable_of_isVariable here noKeyword) below, rfl⟩
  all_goals
    refine ⟨wellShaped_of ?_ below, rfl⟩
    simp_all [Node.shaped, isOfKind, Node.kind]

/-- A leaf is shaped. -/
theorem leaf?_wellShaped {token : Token} {node : Node} (leaf : token.leaf? = some node) :
    node.wellShaped = true ∧ node.isExpr = true := by
  unfold Token.leaf? at leaf
  split at leaf
  case h_5 =>
    split at leaf
    · cases leaf
    · cases leaf; exact ⟨rfl, rfl⟩
  case h_9 =>
    split at leaf
    · cases leaf; exact ⟨rfl, rfl⟩
    · cases leaf
  all_goals cases leaf
  all_goals exact ⟨rfl, rfl⟩

theorem message?_wellShaped {token : Token} {node : Node} (found : token.message? = some node) :
    node.wellShaped = true ∧ ∀ hasArguments, node.isMessage hasArguments = true := by
  unfold Token.message? at found
  split at found
  case h_4 =>
    split at found
    · cases found; exact ⟨rfl, fun _ => rfl⟩
    · cases found
  all_goals cases found
  all_goals exact ⟨rfl, fun _ => rfl⟩

theorem isOfKind_const {token : Token} {node : Node} {operator : String}
    (found : token.message? = some node) (isConst : token.isConstantOf operator = true) :
    node.isOfKind (.name .const) = true := by
  have kind : token.kind = .const := by simpa using (Bool.and_eq_true_iff.1 isConst).1
  rw [Token.message?, kind] at found
  cases found
  rfl

theorem callee?_wellShaped {token : Token} {node : Node} (found : token.callee? = some node) :
    node.wellShaped = true ∧ node.isCallee = true := by
  unfold Token.callee? at found
  split at found
  all_goals cases found
  all_goals exact ⟨rfl, rfl⟩

theorem wellShaped_call {pos : Pos} {receiver message : Node} {operator : String}
    {args : Option Node} {comments : List Node} :
    (Node.call pos receiver operator message args comments).wellShaped = true ↔
      (Node.call pos receiver operator message args comments).shaped = true ∧
        receiver.wellShaped = true ∧ message.wellShaped = true ∧
        (∀ child ∈ args, child.wellShaped = true) ∧
        ∀ child ∈ comments, child.wellShaped = true := by
  rw [wellShaped_iff]
  simp [children, fields, Field.toList, or_imp, forall_and]

theorem withComment_wellShaped {stmt : Node} (shaped : stmt.wellShaped = true)
    (isValue : stmt.isValue = true) (pos : Pos) (text : String) :
    (stmt.withComment (.comment pos text)).wellShaped = true := by
  have remark : (Node.comment pos text).wellShaped = true := rfl
  cases stmt with
  | call callPos receiver operator message args comments =>
      obtain ⟨here, receiver, message, args, comments⟩ := wellShaped_call.1 shaped
      refine wellShaped_call.2 ⟨?_, receiver, message, args, ?_⟩
      · simp only [Node.shaped, List.all_append, Bool.and_eq_true] at here ⊢
        exact ⟨⟨here.1.1, here.1.2, rfl⟩, here.2⟩
      · exact List.forall_mem_append.2 ⟨comments, by simp [remark]⟩
  | _ =>
      exact wellShaped_of isValue
        (by simp_all [withComment, children, fields, Field.toList])

/-- Gathering entries keeps a property that a hash gets from its first entry and goes on with. -/
theorem forall_gatherEntries {P : Node → Prop}
    (single : ∀ entry : Node, entry.isEntry = true → P entry → P (.bareAssocHash entry.pos [entry]))
    (more : ∀ (entry : Node) pos entries, entry.isEntry = true → P entry →
      P (.bareAssocHash pos entries) → P (.bareAssocHash entry.pos (entry :: entries)))
    {parts : List Node} (each : ∀ part ∈ parts, P part) :
    ∀ part ∈ gatherEntries parts, P part := by
  induction parts with
  | nil => exact nofun
  | cons part rest ih =>
      obtain ⟨first, others⟩ := List.forall_mem_cons.1 each
      have gathered := ih others
      rw [gatherEntries]
      split
      next isEntry =>
        split
        next pos entries tail found =>
          rw [found] at gathered
          obtain ⟨hash, tail⟩ := List.forall_mem_cons.1 gathered
          exact List.forall_mem_cons.2 ⟨more part pos entries isEntry first hash, tail⟩
        next => exact List.forall_mem_cons.2 ⟨single part isEntry first, gathered⟩
      next => exact List.forall_mem_cons.2 ⟨first, gathered⟩

/-- Neighbouring entries of shaped arguments become shaped hashes. -/
theorem gatherEntries_wellShaped {parts : List Node}
    (shaped : ∀ part ∈ parts, part.wellShaped = true) :
    ∀ part ∈ gatherEntries parts, part.wellShaped = true := by
  refine forall_gatherEntries (fun entry isEntry first => ?_)
    (fun entry pos entries isEntry first hash => ?_) shaped
  · refine wellShaped_of ?_ ?_
    · simp [Node.shaped, isEntry]
    · simp [children, fields, Field.toList, first]
  · obtain ⟨here, below⟩ := wellShaped_iff.1 hash
    refine wellShaped_of ?_ ?_
    · simp_all [Node.shaped]
    · simp_all [children, fields, Field.toList]

theorem gatherEntries_ne_nil {parts : List Node} (some : parts ≠ []) : gatherEntries parts ≠ [] := by
  cases parts with
  | nil => exact absurd rfl some
  | cons part rest =>
      simp only [gatherEntries]
      split
      · split <;> simp
      · simp

theorem wellShaped_params {pos : Pos} {required optional post keywords : List Node}
    {rest keywordRest block : Option Node} :
    (Node.params pos required optional rest post keywords keywordRest block).wellShaped = true ↔
      (Node.params pos required optional rest post keywords keywordRest block).shaped = true ∧
        (∀ child ∈ required, child.wellShaped = true) ∧
        (∀ child ∈ optional, child.wellShaped = true) ∧
        (∀ child ∈ rest, child.wellShaped = true) ∧ (∀ child ∈ post, child.wellShaped = true) ∧
        (∀ child ∈ keywords, child.wellShaped = true) ∧
        (∀ child ∈ keywordRest, child.wellShaped = true) ∧
        ∀ child ∈ block, child.wellShaped = true := by
  rw [wellShaped_iff]
  simp [children, fields, Field.toList, or_imp, forall_and]

/-- One more shaped parameter of any sort keeps a list shaped. -/
theorem toNode_add_wellShaped {list : ParamList} {pos : Pos} {param : Node}
    (shaped : (list.toNode pos).wellShaped = true) (more : param.wellShaped = true)
    (isParam : param.isParam = true) : ((list.add param).toNode pos).wellShaped = true := by
  have name (pos : Pos) (text : String) :
      (Node.name .ident pos text).isOfKind (.name .ident) = true := rfl
  have optional (pos : Pos) (ident default : Node) :
      (Node.optionalParam pos ident default).isOfKind .optionalParam = true := rfl
  have keyword (pos : Pos) (label : Node) (default : Option Node) :
      (Node.keywordParam pos label default).isOfKind .keywordParam = true := rfl
  have keywordRest (pos : Pos) (ident : Option Node) :
      (Node.keywordRestParam pos ident).isOfKind .keywordRestParam = true := rfl
  have block (pos : Pos) (ident : Node) :
      (Node.blockParam pos ident).isOfKind .blockParam = true := rfl
  have rest (pos : Pos) (ident : Option Node) : (Node.restParam pos ident).isRest = true := rfl
  rw [ParamList.toNode, wellShaped_params] at shaped ⊢
  simp only [Node.shaped, Bool.and_eq_true] at shaped ⊢
  unfold Node.isParam at isParam
  split at isParam
  case h_1 =>
    simp only [ParamList.add, ParamList.addName]
    split <;> simp_all [or_imp]
  case h_7 => cases isParam
  all_goals simp_all [ParamList.add, or_imp]

/-- The comma of `|a,|` in the place of a rest parameter keeps a list shaped. -/
theorem toNode_excess_wellShaped {list : ParamList} {pos comma : Pos}
    (shaped : (list.toNode pos).wellShaped = true) :
    (ParamList.toNode { list with rest := some (.excessedComma comma) } pos).wellShaped = true := by
  have isRest : isRest (.excessedComma comma) = true := rfl
  have whole : (Node.excessedComma comma).wellShaped = true := rfl
  rw [ParamList.toNode, wellShaped_params] at shaped ⊢
  simp_all [Node.shaped]

end Node

/-- A field all of whose trees are shaped and of a kind that the rule yields. -/
def Rule.YieldsShaped (rule : Rule) (field : Field Node) : Prop :=
  field.All fun node => node.wellShaped = true ∧ rule.yields node = true

/-- The operator of a level stands between two operands. -/
theorem binaryOperators_of_level {token : Token} {level : OperatorLevel}
    (known : level ∈ OperatorLevel.all) (isOp : token.isOpIn level.operators = true) :
    Node.binaryOperators.contains token.text = true := by
  rw [List.contains_iff_mem]
  exact List.mem_append_right _
    (List.mem_flatMap.2 ⟨level, known, Token.text_of_isOpIn isOp⟩)

theorem Node.binary_wellShaped {pos : Pos} {left right : Node} {op : String}
    (isOp : binaryOperators.contains op = true)
    (left_shaped : left.wellShaped = true ∧ left.isExpr = true)
    (right_shaped : right.wellShaped = true ∧ right.isExpr = true) :
    (Node.binary pos left op right).wellShaped = true := by
  refine wellShaped_of ?_ ?_
  · exact Bool.and_eq_true_iff.2 ⟨Bool.and_eq_true_iff.2 ⟨isOp, left_shaped.2⟩, right_shaped.2⟩
  · simp [children, fields, Field.toList, left_shaped.1, right_shaped.1]

/-- A node with one child, of which it asks for nothing but its kind. -/
theorem Node.wellShaped_of_only {node child : Node} (here : node.shaped = true)
    (only : node.children = [child]) (shaped : child.wellShaped = true) :
    node.wellShaped = true :=
  wellShaped_of here (by simp [only, shaped])

theorem Node.isRight_of_isValue {node : Node} (isValue : node.isValue = true) :
    node.isRight = true := by
  cases node <;> first | rfl | exact isValue

theorem Node.isKey_of_isExpr {node : Node} (isExpr : node.isExpr = true) : node.isKey = true := by
  cases node with
  | name kind => cases kind <;> first | rfl | exact isExpr
  | _ => exact isExpr

theorem Node.ofValues_wellShaped {pos : Pos} {values : List Node} (some : values ≠ [])
    (shaped : ∀ value ∈ values, value.wellShaped = true ∧ value.isListed = true) :
    (Node.ofValues pos values).wellShaped = true ∧ (Node.ofValues pos values).isRight = true := by
  have filled : values.isEmpty = false := by simpa using some
  have listed : values.all isListed = true := List.all_eq_true.2 fun value mem => (shaped value mem).2
  have below := fun value mem => (shaped value mem).1
  unfold Node.ofValues
  split
  · exact ⟨wellShaped_of (by simp only [Node.shaped, filled, listed]; rfl)
      (by simpa [children, fields, Field.toList] using below), rfl⟩
  next noSplat =>
    split
    next value =>
      obtain ⟨whole, isListed⟩ := shaped value List.mem_cons_self
      refine ⟨whole, ?_⟩
      have notSplat : value.isSplat = false := by simpa using noSplat
      have isValue : value.isValue = true := by simpa [Node.isListed, notSplat] using isListed
      exact isRight_of_isValue isValue
    · exact ⟨wellShaped_of (by simp only [Node.shaped, filled, listed]; rfl)
        (by simpa [children, fields, Field.toList] using below), rfl⟩

theorem Derives.ne_nil {fits : ParamList → Node → Prop} {item : Rule} {closer : Option String}
    {s s' : ParseState} {nodes : List Node}
    (reads : Derives fits (.items item closer) s (.list nodes) s') : nodes ≠ [] := by
  cases reads <;> exact List.cons_ne_nil _ _

theorem rightSide_carries {takesList : Bool} {s : ParseState} : (Rule.rightSide takesList).CarriesShaped s := by
  cases takesList
  · exact trivial
  · exact trivial

namespace Rule.YieldsShaped

variable {rule other : Rule} {tree : Node}

theorem of_node (shaped : tree.wellShaped = true) (kind : rule.yields tree = true) :
    rule.YieldsShaped (.node tree) :=
  Field.all_node.2 ⟨shaped, kind⟩

theorem of_option (shaped : tree.wellShaped = true ∧ rule.yields tree = true) :
    rule.YieldsShaped (.optional (some tree)) :=
  Field.all_optional.2 fun _ mem => Option.mem_some.1 mem ▸ shaped

theorem node (yields : rule.YieldsShaped (.node tree)) : tree.wellShaped = true :=
  (Field.all_node.1 yields).1

theorem kind (yields : rule.YieldsShaped (.node tree)) : rule.yields tree = true :=
  (Field.all_node.1 yields).2

theorem nodes {nodes : List Node} (yields : rule.YieldsShaped (.list nodes)) :
    ∀ node ∈ nodes, node.wellShaped = true :=
  fun node mem => (yields node mem).1

theorem listKind {nodes : List Node} (yields : rule.YieldsShaped (.list nodes)) :
    ∀ node ∈ nodes, rule.yields node = true :=
  fun node mem => (yields node mem).2

theorem option {node : Option Node} (yields : rule.YieldsShaped (.optional node)) :
    ∀ inner ∈ node, inner.wellShaped = true :=
  fun inner mem => (Field.all_optional.1 yields inner mem).1

theorem optionKind {node : Option Node} (yields : rule.YieldsShaped (.optional node)) :
    ∀ inner ∈ node, rule.yields inner = true :=
  fun inner mem => (Field.all_optional.1 yields inner mem).2

theorem optionNodes {nodes : Option (List Node)} (yields : rule.YieldsShaped (.optionalList nodes)) :
    ∀ node ∈ nodes.getD [], node.wellShaped = true :=
  fun node mem => (yields node mem).1

theorem optionListKind {nodes : Option (List Node)}
    (yields : rule.YieldsShaped (.optionalList nodes)) :
    ∀ inner ∈ nodes, inner.all rule.yields = true :=
  fun inner mem => List.all_eq_true.2 fun node inside =>
    (Field.all_optionalList.1 yields inner mem node inside).2

theorem both (yields : rule.YieldsShaped (.node tree)) :
    tree.wellShaped = true ∧ rule.yields tree = true :=
  ⟨yields.node, yields.kind⟩

/-- What one rule yields, another does that yields more kinds. -/
theorem weaken {field : Field Node} (yields : rule.YieldsShaped field)
    (more : ∀ node, rule.yields node = true → other.yields node = true) :
    other.YieldsShaped field :=
  fun node mem => ⟨(yields node mem).1, more node (yields node mem).2⟩

theorem cons {first : Node} {rest : List Node} (head : first.wellShaped = true)
    (kind : rule.yields first = true) (tail : rule.YieldsShaped (.list rest)) :
    rule.YieldsShaped (.list (first :: rest)) :=
  List.forall_mem_cons.2 ⟨⟨head, kind⟩, tail⟩

end Rule.YieldsShaped

namespace Node

theorem isValue_of_isExpr {node : Node} (isExpr : node.isExpr = true) : node.isValue = true := by
  cases node <;> first | rfl | exact isExpr

theorem isStmt_of_isValue {node : Node} (isValue : node.isValue = true) : node.isStmt = true := by
  cases node <;> first | rfl | exact isValue

theorem isArgument_of_isElement {node : Node} (isElement : node.isElement = true) :
    node.isArgument = true := by
  unfold isArgument
  split
  · rfl
  · simp [isElement]

theorem isStmt_withComment {stmt : Node} (pos : Pos) (text : String) :
    (stmt.withComment (.comment pos text)).isStmt = true := by
  cases stmt <;> rfl

theorem isExpr_of_isBlockCall {node : Node} (isCall : node.isBlockCall = true) :
    node.isExpr = true := by
  cases node with
  | call => exact isCall
  | fcall => rfl
  | command => rfl
  | _ => cases isCall

/-- The arguments of a call, once neighbouring entries are gathered. -/
theorem gatherEntries_isPart {parts : List Node} (arguments : ∀ part ∈ parts, part.isArgument = true) :
    ∀ part ∈ gatherEntries parts, part.isPart = true := by
  induction parts with
  | nil => simp [gatherEntries]
  | cons part rest ih =>
      have others := ih fun part mem => arguments part (List.mem_cons_of_mem _ mem)
      have first := arguments part List.mem_cons_self
      simp only [gatherEntries]
      split
      next isEntry =>
        split
        next found =>
          rw [found] at others
          exact List.forall_mem_cons.2 ⟨rfl, (List.forall_mem_cons.1 others).2⟩
        next => exact List.forall_mem_cons.2 ⟨rfl, others⟩
      next noEntry =>
        refine List.forall_mem_cons.2 ⟨?_, others⟩
        have plain : part.isEntry = false := by simpa using noEntry
        cases part with
        | blockArg | bareAssocHash => rfl
        | assoc => cases plain
        | doubleSplat => cases plain
        | _ => exact first

end Node

/-- What a rule reads from a state is shaped, if what it goes on with is. -/
def Rule.Shapes (rule : Rule) (s : ParseState) (field : Field Node) (_ : ParseState) : Prop :=
  rule.CarriesShaped s → rule.YieldsShaped field

namespace Derives

open Node Rule.YieldsShaped

variable {fits : ParamList → Node → Prop} {rule : Rule} {s s' : ParseState} {field : Field Node}
  {reads : Derives fits rule s field s'}

section Families

variable (parts : reads.Parts Rule.Shapes)
include parts

theorem shaped_statements (family : rule.family = .statements) : rule.YieldsShaped field := by
  cases parts with
  | stmtsDone => exact List.forall_mem_nil _
  | stmtsBreak _ _ _ _ ih | stmt _ _ _ _ ih => exact ih trivial
  | program _ _ _ ih =>
      have body := ih trivial
      exact of_node (wellShaped_of (List.all_eq_true.2 body.listKind)
        (by simpa [children, fields, Field.toList] using body.nodes)) rfl
  | stmtsComment _ _ _ _ ih => exact cons rfl rfl (ih trivial)
  | stmtsRemark _ _ _ _ _ _ _ ih₁ _ ih₂ =>
      have stmt := ih₁ trivial
      exact cons (withComment_wellShaped stmt.node stmt.kind _ _) (isStmt_withComment _ _)
        (ih₂ trivial)
  | stmtsLast _ _ _ _ _ _ _ ih =>
      have stmt := ih trivial
      exact cons stmt.node (isStmt_of_isValue stmt.kind) (List.forall_mem_nil _)
  | stmtsMore _ _ _ _ _ _ _ _ _ ih₁ _ ih₂ =>
      have stmt := ih₁ trivial
      exact cons stmt.node (isStmt_of_isValue stmt.kind) (ih₂ trivial)
  | _ => cases family

theorem shaped_assignments (family : rule.family = .assignments) : rule.YieldsShaped field := by
  cases parts with
  | unassigned _ _ _ _ ih => exact (ih trivial).weaken fun _ => isValue_of_isExpr
  | listedPlain _ _ _ ih =>
      exact (ih trivial).weaken fun _ isValue => Bool.or_eq_true_iff.2 (.inr isValue)
  | @assign takesList _ _ _ _ _ _ _ value _ _ made _ _ _ ih₁ _ ih₂ =>
      have target := target_wellShaped made (ih₁ trivial).node
      have right := ih₂ rightSide_carries
      have isRight : value.isRight = true := by
        cases takesList with
        | true => exact right.kind
        | false => exact isRight_of_isValue right.kind
      exact of_node (wellShaped_of (Bool.and_eq_true_iff.2 ⟨target.2, isRight⟩)
        (by simp [children, fields, Field.toList, target.1, right.node])) rfl
  | opAssign _ _ isOp made _ _ _ ih₁ _ ih₂ =>
      have target := target_wellShaped made (ih₁ trivial).node
      have value := ih₂ trivial
      refine of_node (wellShaped_of ?_
        (by simp [children, fields, Field.toList, target.1, value.node])) rfl
      exact Bool.and_eq_true_iff.2
        ⟨by simp [target.2, Token.text_of_isOpIn isOp], value.kind⟩
  | values items _ ih =>
      have shaped := ih fun _ => trivial
      exact of_node (ofValues_wellShaped items.ne_nil shaped).1
        (ofValues_wellShaped items.ne_nil shaped).2
  | listedSplat _ _ _ ih =>
      have value := ih trivial
      exact of_node (wellShaped_of_only value.kind rfl value.node) rfl
  | _ => cases family

theorem shaped_junctions (family : rule.family = .junctions) (carries : rule.CarriesShaped s) :
    rule.YieldsShaped field := by
  cases parts with
  | notNegated _ _ _ ih => exact ih trivial
  | expression _ _ _ ih₁ _ ih₂ => exact ih₂ (ih₁ trivial).both
  | joinedDone => exact of_node carries.1 carries.2
  | joinedMore isWord _ _ _ _ ih₁ _ ih₂ =>
      refine ih₂ ⟨binary_wellShaped ?_ carries (ih₁ trivial).both, rfl⟩
      obtain isWord | isWord := Bool.or_eq_true_iff.1 isWord <;>
        rw [Token.text_of_isWord isWord] <;> decide
  | not _ _ _ ih =>
      have operand := ih trivial
      exact of_node (wellShaped_of_only operand.kind rfl operand.node) rfl
  | rangeBetween _ isWord _ _ ih₁ _ ih₂ =>
      have left := (ih₁ (List.Subset.refl _)).both
      have right := (ih₂ (List.Subset.refl _)).both
      refine of_node (binary_wellShaped ?_ left right) rfl
      obtain isWord | isWord := Bool.or_eq_true_iff.1 isWord <;>
        rw [Token.text_of_isWord isWord] <;> decide
  | notRange _ _ _ ih => exact ih (List.Subset.refl _)
  | _ => cases family

theorem shaped_operations (family : rule.family = .operations) (carries : rule.CarriesShaped s) :
    rule.YieldsShaped field := by
  cases parts with
  | tightest _ _ ih | notMinus _ _ _ ih | notPower _ _ _ ih | notUnary _ _ _ ih => exact ih trivial
  | minus _ _ _ ih =>
      have operand := ih trivial
      exact of_node (wellShaped_of_only operand.kind rfl operand.node) rfl
  | level _ _ _ ih₁ _ ih₂ => exact ih₂ ⟨carries, (ih₁ (List.cons_subset.1 carries).2).both⟩
  | chainDone => exact of_node carries.2.1 carries.2.2
  | chainMore _ isOp _ _ _ _ ih₁ _ ih₂ =>
      obtain ⟨known, left⟩ := carries
      have right := (ih₁ (List.cons_subset.1 known).2).both
      exact ih₂ ⟨known, binary_wellShaped
        (binaryOperators_of_level (List.cons_subset.1 known).1 isOp) left right, rfl⟩
  | chainOnce _ isOp _ _ _ ih =>
      obtain ⟨known, left⟩ := carries
      have right := (ih (List.cons_subset.1 known).2).both
      exact of_node (binary_wellShaped
        (binaryOperators_of_level (List.cons_subset.1 known).1 isOp) left right) rfl
  | power _ _ _ _ _ ih₁ _ ih₂ =>
      exact of_node (binary_wellShaped (by decide) (ih₁ trivial).both (ih₂ trivial).both) rfl
  | unary isWord _ _ ih =>
      have operand := ih trivial
      refine of_node (wellShaped_of_only (Bool.and_eq_true_iff.2 ⟨?_, operand.kind⟩) rfl
        operand.node) rfl
      simp only [Bool.or_eq_true] at isWord
      obtain (isWord | isWord) | isWord := isWord <;>
        rw [Token.text_of_isWord isWord] <;> decide
  | _ => cases family

theorem shaped_messages (family : rule.family = .messages) (carries : rule.CarriesShaped s) :
    rule.YieldsShaped field := by
  cases parts with
  | operand _ _ _ ih₁ _ ih₂ => exact ih₂ (ih₁ trivial).both
  | suffixesDone => exact of_node carries.1 carries.2
  | suffixesCall isOp _ _ _ ih₁ _ ih₂ => exact ih₂ (ih₁ ⟨carries, isOp⟩).both
  | suffixesIndex _ _ _ _ ih₁ _ ih₂ =>
      have args := ih₁ trivial
      refine ih₂ ⟨wellShaped_of ?_ ?_, rfl⟩
      · exact Bool.and_eq_true_iff.2 ⟨(Option.all_eq_true _ _).2 args.optionKind, carries.2⟩
      · have here := args.option
        simpa [children, fields, Field.toList, or_imp, forall_and] using ⟨carries.1, here⟩
  | callShorthand _ _ _ _ _ ih₁ _ ih₂ =>
      have args := ih₁ trivial
      refine ih₂ ⟨wellShaped_call.2 ⟨?_, carries.1.1, rfl, ?_, List.forall_mem_nil _⟩, rfl⟩
      · simpa [Node.shaped, isMessage, Token.text_of_isOpIn carries.2, Rule.yields]
          using ⟨args.kind, carries.1.2⟩
      · simpa using args.node
  | constPath _ found isConst _ =>
      have message := message?_wellShaped found
      refine of_node (wellShaped_of
        (Bool.and_eq_true_iff.2 ⟨isOfKind_const found isConst, carries.1.2⟩) ?_) rfl
      simpa [children, fields, Field.toList] using ⟨carries.1.1, message.1⟩
  | callBare _ found _ _ _ _ ih =>
      have message := message?_wellShaped found
      refine ih ⟨wellShaped_call.2 ⟨?_, carries.1.1, message.1,
        fun _ mem => absurd mem (Option.not_mem_none _), List.forall_mem_nil _⟩, rfl⟩
      simpa [Node.shaped, Token.text_of_isOpIn carries.2] using ⟨message.2 false, carries.1.2⟩
  | callArgs _ found _ _ _ _ ih₁ _ ih₂ =>
      have message := message?_wellShaped found
      have args := ih₁ trivial
      refine ih₂ ⟨wellShaped_call.2 ⟨?_, carries.1.1, message.1, ?_, List.forall_mem_nil _⟩, rfl⟩
      · simpa [Node.shaped, Token.text_of_isOpIn carries.2]
          using ⟨⟨message.2 true, args.kind⟩, carries.1.2⟩
      · simpa using args.node
  | _ => cases family

theorem shaped_operands (family : rule.family = .operands) : rule.YieldsShaped field := by
  cases parts with
  | leaf found => exact of_node (leaf?_wellShaped found).1 (leaf?_wellShaped found).2
  | constant | localVar | vcall => exact of_node rfl rfl
  | fcall found _ _ _ _ ih₁ _ ih₂ =>
      have callee := callee?_wellShaped found
      have args := ih₁ trivial
      refine ih₂ ⟨wellShaped_of ?_ ?_, rfl⟩
      · simpa [Node.shaped] using ⟨callee.2, args.kind⟩
      · simpa [children, fields, Field.toList] using ⟨callee.1, args.node⟩
  | command _ _ _ _ _ _ _ ih₁ _ ih₂ =>
      have args := ih₁ trivial
      exact ih₂ ⟨wellShaped_of args.kind (forall_children_two rfl rfl args.node), rfl⟩
  | fcallBlock _ _ _ _ _ _ _ ih => exact ih ⟨rfl, rfl⟩
  | paren _ _ _ _ _ _ ih =>
      have inner := ih trivial
      exact of_node (wellShaped_of_only inner.kind rfl inner.node) rfl
  | array _ _ _ _ _ ih =>
      have elements := ih fun _ => trivial
      exact of_node (wellShaped_of (List.all_eq_true.2 elements.listKind)
        (by simpa [children, fields, Field.toList] using elements.nodes)) rfl
  | hash _ _ _ _ _ ih =>
      have entries := ih fun _ => trivial
      exact of_node (wellShaped_of (List.all_eq_true.2 entries.listKind)
        (by simpa [children, fields, Field.toList] using entries.nodes)) rfl
  | lambda _ _ _ _ ih₁ _ ih₂ =>
      have params := ih₁ trivial
      have body := ih₂ trivial
      refine of_node (wellShaped_of (Bool.and_eq_true_iff.2
        ⟨(Option.all_eq_true _ _).2 params.optionKind, List.all_eq_true.2 body.listKind⟩) ?_) rfl
      have here := params.option
      simpa [children, fields, Field.toList, or_imp, forall_and] using ⟨here, body.nodes⟩
  | _ => cases family

theorem shaped_blocks (family : rule.family = .blocks) (carries : rule.CarriesShaped s) :
    rule.YieldsShaped field := by
  cases parts with
  | blockVarNone | lambdaNone =>
      exact List.forall_mem_nil _
  | blockBraces _ _ _ ih | blockDo _ _ _ ih =>
      have block := ih trivial
      refine of_node (wellShaped_of ?_ ?_) rfl
      · simpa [Node.shaped] using ⟨carries.2, block.kind⟩
      · simpa [children, fields, Field.toList] using ⟨carries.1, block.node⟩
  | blockNone => exact of_node carries.1 (isExpr_of_isBlockCall carries.2)
  | braceBlock _ _ _ _ _ _ ih₁ _ ih₂ =>
      have params := ih₁ trivial
      have body := ih₂ trivial
      refine of_node (wellShaped_of (Bool.and_eq_true_iff.2
        ⟨(Option.all_eq_true _ _).2 params.optionKind, List.all_eq_true.2 body.listKind⟩) ?_) rfl
      have here := params.option
      simpa [children, fields, Field.toList, or_imp, forall_and] using ⟨here, body.nodes⟩
  | doBlock _ _ _ _ _ ih₁ _ ih₂ =>
      have params := ih₁ trivial
      have body := ih₂ trivial
      refine of_node (wellShaped_of ?_ ?_) rfl
      · exact Bool.and_eq_true_iff.2 ⟨(Option.all_eq_true _ _).2 params.optionKind, body.kind⟩
      · have here := params.option
        simpa [children, fields, Field.toList, or_imp, forall_and] using ⟨here, body.node⟩
  | blockVarBars => exact of_option ⟨rfl, rfl⟩
  | blockVarSome _ _ _ _ ih =>
      have params := ih trivial
      exact of_option ⟨wellShaped_of_only params.kind rfl
        params.node, rfl⟩
  | lambdaParen _ _ _ _ ih | lambdaBare _ _ _ _ ih => exact of_option (ih trivial).both
  | lambdaBraces _ _ _ _ ih | lambdaDo _ _ _ _ ih => exact ih trivial
  | _ => cases family

theorem shaped_clauses (family : rule.family = .clauses) : rule.YieldsShaped field := by
  cases parts with
  | exceptionsNone => exact List.forall_mem_nil _
  | rescueNone | holderNone | clauseNone =>
      exact List.forall_mem_nil _
  | bodyStmt _ _ _ _ _ ih₁ _ ih₂ _ ih₃ _ ih₄ =>
      have stmts := ih₁ trivial
      have handler := ih₂ trivial
      have elseBody := ih₃ trivial
      have ensure := ih₄ trivial
      refine of_node (wellShaped_of ?_ ?_) rfl
      · simp only [Node.shaped, Bool.and_eq_true]
        exact ⟨⟨⟨(Option.all_eq_true _ _).2 handler.optionKind, List.all_eq_true.2 stmts.listKind⟩,
          (Option.all_eq_true _ _).2 elseBody.optionListKind⟩,
          (Option.all_eq_true _ _).2 ensure.optionListKind⟩
      · have here := handler.option
        simpa [children, fields, Field.toList, or_imp, forall_and]
          using ⟨stmts.nodes, here, elseBody.optionNodes, ensure.optionNodes⟩
  | rescueMore _ _ _ _ _ _ ih₁ _ ih₂ _ ih₃ _ ih₄ =>
      have exceptions := ih₁ trivial
      have holder := ih₂ trivial
      have stmts := ih₃ trivial
      have next := ih₄ trivial
      refine of_option ⟨wellShaped_of ?_ ?_, rfl⟩
      · simp only [Node.shaped, Bool.and_eq_true]
        exact ⟨⟨⟨(Option.all_eq_true _ _).2 holder.optionKind,
          (Option.all_eq_true _ _).2 next.optionKind⟩, List.all_eq_true.2 exceptions.listKind⟩,
          List.all_eq_true.2 stmts.listKind⟩
      · have target := holder.option
        have others := next.option
        simpa [children, fields, Field.toList, or_imp, forall_and]
          using ⟨exceptions.nodes, target, stmts.nodes, others⟩
  | exceptionsSome _ _ _ ih => exact ih fun _ => trivial
  | holderSome _ _ made _ ih => exact of_option (target_wellShaped made (ih trivial).node)
  | clauseSome _ _ _ ih =>
      have stmts := ih trivial
      exact Field.all_optionalList.2 fun _ mem => Option.mem_some.1 mem ▸ stmts
  | _ => cases family

theorem shaped_parameters (family : rule.family = .parameters) (carries : rule.CarriesShaped s) :
    rule.YieldsShaped field := by
  cases parts with
  | params _ _ _ ih => exact ih rfl
  | paramsDone => exact of_node carries rfl
  | paramsLast _ _ _ _ _ _ ih =>
      have param := ih trivial
      exact of_node (toNode_add_wellShaped carries param.node param.kind) rfl
  | paramsExcess _ _ _ _ _ _ _ _ _ _ ih =>
      have param := ih trivial
      have added := toNode_add_wellShaped carries param.node param.kind
      exact of_node (toNode_excess_wellShaped added) rfl
  | paramsMore _ _ _ _ _ _ _ _ _ ih₁ _ ih₂ =>
      have param := ih₁ trivial
      exact ih₂ (toNode_add_wellShaped carries param.node param.kind)
  | restParam | keywordRestParam =>
      unfold ParseState.paramName?
      split <;> exact of_node rfl rfl
  | blockParam | keywordParam | nameParam => exact of_node rfl rfl
  | keywordDefault _ _ _ _ _ ih | optionalParam _ _ _ _ _ ih =>
      have default := ih (List.subset_append_right _ _)
      exact of_node (wellShaped_of default.kind (forall_children_two rfl rfl default.node)) rfl
  | _ => cases family

theorem shaped_lists (family : rule.family = .lists) (carries : rule.CarriesShaped s) :
    rule.YieldsShaped field := by
  cases parts with
  | entriesDone => exact List.forall_mem_nil _
  | elementPlain _ _ _ ih =>
      exact (ih trivial).weaken fun _ isExpr => Bool.or_eq_true_iff.2 (.inr isExpr)
  | elementSplat _ _ _ ih | entrySplat _ _ _ ih =>
      have value := ih trivial
      exact of_node (wellShaped_of_only value.kind rfl value.node) rfl
  | itemsLast _ _ _ ih =>
      exact cons (ih (carries _)).node (ih (carries _)).kind (List.forall_mem_nil _)
  | itemsClosed _ _ _ _ _ ih =>
      exact cons (ih (carries _)).node (ih (carries _)).kind (List.forall_mem_nil _)
  | itemsMore _ _ _ _ _ _ ih₁ _ ih₂ =>
      exact cons (ih₁ (carries _)).node (ih₁ (carries _)).kind (ih₂ carries)
  | entriesLast _ _ _ _ _ ih =>
      exact cons (ih (carries _)).node (ih (carries _)).kind (List.forall_mem_nil _)
  | entriesMore _ _ _ _ _ _ _ ih₁ _ ih₂ =>
      exact cons (ih₁ (carries _)).node (ih₁ (carries _)).kind (ih₂ carries)
  | entryLabel _ _ _ _ ih =>
      have value := ih trivial
      exact of_node (wellShaped_of value.kind (forall_children_two rfl rfl value.node)) rfl
  | entryArrow _ _ _ _ _ _ _ _ ih₁ _ ih₂ =>
      have key := ih₁ trivial
      have value := ih₂ trivial
      exact of_node (wellShaped_of
        (Bool.and_eq_true_iff.2 ⟨isKey_of_isExpr key.kind, value.kind⟩)
        (forall_children_two rfl key.node value.node)) rfl
  | _ => cases family

theorem shaped_arguments (family : rule.family = .arguments) : rule.YieldsShaped field := by
  cases parts with
  | indexEmpty =>
      exact List.forall_mem_nil _
  | argumentPlain _ _ _ _ _ ih =>
      exact (ih trivial).weaken fun _ isExpr =>
        isArgument_of_isElement (Bool.or_eq_true_iff.2 (.inr isExpr))
  | argumentSplat _ _ _ ih | argumentDoubleSplat _ _ _ ih =>
      have value := ih trivial
      exact of_node (wellShaped_of_only value.kind rfl value.node) rfl
  | argumentLabel _ _ _ _ ih =>
      have value := ih trivial
      exact of_node (wellShaped_of value.kind (forall_children_two rfl rfl value.node)) rfl
  | argumentArrow _ _ _ _ _ _ _ ih₁ _ ih₂ =>
      have key := ih₁ trivial
      have value := ih₂ trivial
      exact of_node (wellShaped_of
        (Bool.and_eq_true_iff.2 ⟨isKey_of_isExpr key.kind, value.kind⟩)
        (forall_children_two rfl key.node value.node)) rfl
  | arguments items _ ih =>
      have parts := ih fun _ => trivial
      refine of_node (wellShaped_of ?_ ?_) rfl
      · refine Bool.and_eq_true_iff.2 ⟨?_, List.all_eq_true.2 (gatherEntries_isPart parts.listKind)⟩
        simpa using gatherEntries_ne_nil items.ne_nil
      · simpa [children, fields, Field.toList] using gatherEntries_wellShaped parts.nodes
  | argumentBlockLone => exact of_node rfl rfl
  | argumentBlock _ _ _ _ ih =>
      have value := ih trivial
      exact of_node (wellShaped_of_only value.kind rfl
        value.node) rfl
  | parenEmpty => exact of_node rfl rfl
  | parenFull _ _ _ _ _ _ _ ih =>
      have args := ih trivial
      exact of_node (wellShaped_of_only args.kind rfl args.node) rfl
  | indexFull _ _ _ _ _ _ _ ih => exact of_option (ih trivial).both
  | _ => cases family

end Families

/-- What a rule reads is shaped, if what it goes on with is. -/
theorem shaped (reads : Derives fits rule s field s') (carries : rule.CarriesShaped s) :
    rule.YieldsShaped field := by
  induction reads using of_parts with
  | @step rule _ _ _ _ parts =>
      cases family : rule.family with
      | statements => exact shaped_statements parts family
      | assignments => exact shaped_assignments parts family
      | junctions => exact shaped_junctions parts family carries
      | operations => exact shaped_operations parts family carries
      | messages => exact shaped_messages parts family carries
      | operands => exact shaped_operands parts family
      | blocks => exact shaped_blocks parts family carries
      | clauses => exact shaped_clauses parts family
      | parameters => exact shaped_parameters parts family carries
      | lists => exact shaped_lists parts family carries
      | arguments => exact shaped_arguments parts family

end Derives

end RubyFormat
