import RubyFormat.Cursor
import RubyFormat.Proofs.Places

/-!
# What a layout looks at

A layout carries all nodes above along, but it looks at one of them at most: where blocks are to be
collapsed, a call with a block looks at the node right above it.  `Node.arrange` is the document of
a node as far as the node itself decides it, given the documents of the nodes right below.  A layout
arranges every node in this way, and the argument that replaces the block of a call depends on the
call and the node that holds it.  Faults are found by the same rule, so that a cursor gives the same
document or the same fault whatever lies above the node right above it.
-/

namespace RubyFormat

/-- What a layout looks at of the nodes above: the nearest, if blocks are to be collapsed. -/
def Options.seen (options : Options) (parents : List α) : Option α :=
  if options.toProc then parents.head? else none

theorem Options.seen_map (options : Options) (f : α → β) (parents : List α) :
    options.seen (parents.map f) = (options.seen parents).map f := by
  unfold seen
  split
  · exact List.head?_map
  · rfl

namespace Node

/-! ## The document of a node, given those right below -/

/-- The argument that replaces the block of a call right below the parent. -/
def replacement? (options : Options) (parent : Option Node) : Node → Option String
  | .methodAddBlock _ callee block =>
      if options.toProc && callee.takesBlockArgument && !parent.any isConditionalOption then
        block.soleMessage?.map ("&:" ++ ·)
      else none
  | _ => none

/-- The document of arguments in parentheses with one more at the end. -/
def arrangeParenWith (extra : String) (below : Node → Node → Doc) (node : Node) : Doc :=
  match node with
  | .argParen _ arguments => Layout.argParenWith extra (arguments.map (below node))
  | _ => ""

/-- The document of a call with one more argument at the end. -/
def arrangeWith (extra : String) (below : Node → Node → Doc) (node : Node) : Doc :=
  let doc := below node
  match node with
  | .call _ receiver operator message arguments _ =>
      Layout.call (doc receiver) operator (doc message)
        (some ((arguments.map (arrangeParenWith extra below)).getD
          (Layout.argParenWith extra none)))
        []
  | .fcall _ message arguments =>
      Layout.fcallWith extra (doc message) (arguments.map (arrangeParenWith extra below))
  | .command _ message arguments => .concat [doc message, " ", doc arguments, ", ", extra]
  | _ => ""

/--
The document of a node whose block the extra argument replaces, if there is one.  What stands below
another node has the document that is given for the two of them.
-/
def arrange (extra? : Option String) (below : Node → Node → Doc) (node : Node) : Doc :=
  let doc := below node
  match node with
  | .name _ _ text | .comment _ text => text
  | .literal _ _ raw => raw
  | .callShorthand _ | .bare _ => ""
  | .excessedComma _ => ","
  | .program _ stmts => Layout.program (stmts.map doc)
  | .commented _ stmt comments => .concat (doc stmt :: Layout.trailing (comments.map doc))
  | .symbolLit _ value => .concat [":", doc value]
  | .array _ elements => Layout.array (elements.map doc)
  | .assoc _ key value => Layout.assoc key.isLabel (doc key) (doc value)
  | .hash _ entries => Layout.hash (entries.map doc)
  | .bareAssocHash _ entries => .group (Layout.listed (entries.map doc))
  | .lambda _ parameters body =>
      Layout.lambda (parameters.map doc) (lineAround body) (body.map doc)
  | .varRef _ inner | .vcall _ inner => doc inner
  | .varField _ inner => (inner.map doc).getD ""
  | .constPathRef _ parent ident => .concat [doc parent, "::", doc ident]
  | .field _ receiver operator ident => .concat [doc receiver, operator, doc ident]
  | .aref _ receiver arguments | .arefField _ receiver arguments =>
      Layout.index (doc receiver) (arguments.map doc)
  | .assign _ target value =>
      Layout.assign value.staysOnLine (doc target)
        (if value.isValueList then .group (doc value) else doc value)
  | .opAssign _ target operator value => Layout.operation (doc target) operator (doc value)
  | .valueList _ values | .splatValueList _ values => Layout.listed (values.map doc)
  | .splat _ value => .concat ["*", doc value]
  | .doubleSplat _ value => .concat ["**", doc value]
  | .args _ parts => .group (Layout.listed (parts.map doc))
  | .argParen _ arguments => Layout.argParen (arguments.map doc)
  | .blockArg _ value => Layout.marked "&" (value.map doc)
  | .call _ receiver operator message arguments comments =>
      Layout.call (doc receiver) operator (doc message) (arguments.map doc) (comments.map doc)
  | .fcall _ message arguments => Layout.fcall (doc message) (arguments.map doc)
  | .command _ message arguments => .concat [doc message, " ", doc arguments]
  | .methodAddBlock _ callee block =>
      match extra? with
      | some extra => callee.arrangeWith extra below
      | none => .concat [doc callee, " ", doc block]
  | .optionalParam _ ident default => Layout.defaulted (doc ident) " = " (some (doc default))
  | .restParam _ ident => Layout.marked "*" (ident.map doc)
  | .keywordParam _ label default => Layout.defaulted (doc label) " " (default.map doc)
  | .keywordRestParam _ ident => Layout.marked "**" (ident.map doc)
  | .blockParam _ ident => Layout.marked "&" (some (doc ident))
  | .params _ required optional rest post keywords keywordRest block =>
      layoutParams (required.map doc) (optional.map doc) rest (rest.map doc) (post.map doc)
        (keywords.map doc) (keywordRest.map doc) (block.map doc)
  | .blockVar _ parameters => Layout.blockVar (parameters.map doc)
  | .rescue _ exceptions target stmts next =>
      Layout.rescue (exceptions.map doc) (target.map doc) (stmts.map doc) (next.map doc)
  | .bodyStmt _ stmts handler elseBody ensure =>
      Layout.bodyStmt (stmts.map doc) (handler.map doc) (elseBody.map (List.map doc))
        (ensure.map (List.map doc))
  | .braceBlock _ parameters body =>
      Layout.braceBlock (parameters.map doc) (lineAround body) (body.map doc)
  | .doBlock _ parameters body =>
      .concat ["do", Layout.blockParams (parameters.map doc), doc body, Doc.hardLine, "end"]
  | .binary _ left op right => Layout.binary (doc left) op (doc right)
  | .unary _ op operand => Layout.unary op (doc operand)
  | .paren _ expr => .concat ["(", doc expr, ")"]

variable {options : Options} {parents : List Node} {below : Node → Node → Doc}

/-- The block of a call is replaced as the node right above the call asks for. -/
theorem shorthand?_eq_replacement? (pos : Pos) (callee block : Node) :
    (if options.toProc && callee.takesBlockArgument then
      (Node.methodAddBlock pos callee block).shorthand? parents block else none) =
      (Node.methodAddBlock pos callee block).replacement? options parents.head? := by
  have held : (((Node.methodAddBlock pos callee block).optionAround? parents).map
      isConditionalOption).getD false = parents.head?.any isConditionalOption := by
    cases parents <;> rfl
  rw [shorthand?, held, replacement?]
  cases options.toProc && callee.takesBlockArgument with
  | false => rfl
  | true =>
    cases block.soleMessage? <;> cases parents.head?.any isConditionalOption <;> rfl

/-- Arguments with one more are arranged if those right below are laid out as told. -/
theorem layoutParenWith_eq_map (extra : String) (arguments : Option Node)
    (alike : ∀ paren ∈ arguments, ∀ child ∈ paren.children,
      child.layout options (paren :: parents) = below paren child) :
    layoutParenWith options parents extra arguments =
      arguments.map (arrangeParenWith extra below) := by
  cases arguments with
  | none => rfl
  | some paren =>
    cases paren with
    | argParen pos inner =>
      cases inner with
      | none => rfl
      | some inner =>
        have told := alike _ rfl inner (by simp [children, fields, Field.toList])
        simp [layoutParenWith, arrangeParenWith, told]
    | _ => rfl

/-- A call with one more argument is arranged if the nodes below are laid out as told. -/
theorem layoutWith_eq_arrangeWith (extra : String) (callee : Node)
    (alike : ∀ child ∈ callee.children,
      child.layout options (callee :: parents) = below callee child)
    (deeper : ∀ paren ∈ callee.children, ∀ child ∈ paren.children,
      child.layout options (paren :: callee :: parents) = below paren child) :
    callee.layoutWith options parents extra = callee.arrangeWith extra below := by
  cases callee with
  | call pos receiver operator message arguments comments =>
    have parens := layoutParenWith_eq_map extra arguments fun paren mem =>
      deeper paren (by simp [children, fields, Field.toList, Option.mem_def.1 mem])
    have first := alike receiver (by simp [children, fields, Field.toList])
    have second := alike message (by simp [children, fields, Field.toList])
    simp [layoutWith, arrangeWith, parens, first, second]
  | fcall pos message arguments =>
    have parens := layoutParenWith_eq_map extra arguments fun paren mem =>
      deeper paren (by simp [children, fields, Field.toList, Option.mem_def.1 mem])
    have first := alike message (by simp [children, fields, Field.toList])
    simp [layoutWith, arrangeWith, parens, first]
  | command pos message arguments =>
    have first := alike message (by simp [children, fields, Field.toList])
    have second := alike arguments (by simp [children, fields, Field.toList])
    simp [layoutWith, arrangeWith, first, second]
  | _ => rfl

/-- A node that is no call with a block is arranged if those right below are laid out as told. -/
theorem layout_eq_arrange_none {node : Node} (noBlock : node.kind ≠ .methodAddBlock)
    (alike : ∀ child ∈ node.children, child.layout options (node :: parents) = below node child) :
    node.layout options parents = node.arrange none below := by
  have told := List.map_congr_left fun field (mem : field ∈ node.fields) =>
    Field.map_congr fun child inside => alike child (List.mem_flatMap.2 ⟨field, mem, inside⟩)
  cases node with
  | methodAddBlock => exact absurd rfl noBlock
  | _ =>
    simp only [fields, Field.map, List.map_cons, List.map_nil, List.cons.injEq, and_true, true_and,
      Field.node.injEq, Field.list.injEq, Field.optional.injEq, Field.optionalList.injEq] at told
    simp only [layout, arrange, layoutList_eq_map, layoutOption_eq_map, layoutOptionList_eq_map,
      told]

/-- A node is arranged if all smaller ones are laid out as told, each right below its holder. -/
theorem layout_eq_arrange_of {node : Node}
    (alike : ∀ holder above, ∀ child ∈ holder.children, sizeOf child < sizeOf node →
      child.layout options (holder :: above) = below holder child) :
    node.layout options parents =
      node.arrange (node.replacement? options parents.head?) below := by
  have here (child : Node) (mem : child ∈ node.children) :
      child.layout options (node :: parents) = below node child :=
    alike node parents child mem (sizeOf_lt_of_mem_children mem)
  cases node with
  | methodAddBlock pos callee block =>
    have isCallee : callee ∈ (Node.methodAddBlock pos callee block).children := by
      simp [children, fields, Field.toList]
    have isBlock : block ∈ (Node.methodAddBlock pos callee block).children := by
      simp [children, fields, Field.toList]
    have smaller := sizeOf_lt_of_mem_children isCallee
    simp only [layout, arrange, shorthand?_eq_replacement?]
    cases (Node.methodAddBlock pos callee block).replacement? options parents.head? with
    | none => simp only [here callee isCallee, here block isBlock]
    | some extra =>
      -- The arguments of the call are two levels down, so all smaller nodes have to count.
      refine layoutWith_eq_arrangeWith extra callee (fun child mem => ?_) ?_
      · exact alike _ _ child mem (Nat.lt_trans (sizeOf_lt_of_mem_children mem) smaller)
      · intro paren held child mem
        exact alike _ _ child mem (Nat.lt_trans (sizeOf_lt_of_mem_children mem)
          (Nat.lt_trans (sizeOf_lt_of_mem_children held) smaller))
  | _ => exact layout_eq_arrange_none (by intro isCall; cases isCall) here

/-- Of the nodes above it a node is laid out by the nearest alone. -/
theorem layout_cons (options : Options) (holder node : Node) (above : List Node) :
    node.layout options (holder :: above) = node.layout options [holder] := by
  induction node using induction_smaller generalizing holder above with
  | step node ih =>
    have arranged (above : List Node) : node.layout options (holder :: above) =
        node.arrange (node.replacement? options (some holder)) fun holder child =>
          child.layout options [holder] :=
      layout_eq_arrange_of fun holder above child _ smaller => ih child smaller holder above
    rw [arranged above, arranged []]

/-- A node is arranged from the documents that the nodes right below their holders have. -/
theorem layout_eq_arrange (node : Node) (parents : List Node)
    (told : ∀ holder, ∀ child ∈ holder.children,
      below holder child = child.layout options [holder]) :
    node.layout options parents =
      node.arrange (node.replacement? options parents.head?) below :=
  layout_eq_arrange_of fun holder above child mem _ => by
    rw [layout_cons, told holder child mem]

theorem replacement?_congr {others : List Node} (same : options.seen parents = options.seen others)
    (node : Node) :
    node.replacement? options parents.head? = node.replacement? options others.head? := by
  cases node with
  | methodAddBlock pos callee block =>
    cases isOn : options.toProc with
    | false => simp [replacement?, isOn]
    | true =>
      have heads : parents.head? = others.head? := by simpa [Options.seen, isOn] using same
      rw [heads]
  | _ => rfl

theorem layout_congr_seen {others : List Node} (same : options.seen parents = options.seen others)
    (node : Node) : node.layout options parents = node.layout options others := by
  rw [layout_eq_arrange node parents fun _ _ _ => rfl,
    layout_eq_arrange node others fun _ _ _ => rfl, replacement?_congr same]

end Node

/-! ## The faults of a draft -/

namespace Draft

variable {options : Options} {parents others : List Draft}

theorem shorthand_congr (carrier block : Draft)
    (around : carrier.optionAround? parents = carrier.optionAround? others) :
    shorthand parents carrier block = shorthand others carrier block := by
  rw [shorthand, shorthand, around]

/-- Whether a shorthand replaces a block is seen from the node right above its call. -/
theorem collapses_congr (same : options.seen parents = options.seen others) (draft : Draft) :
    draft.collapses options parents = draft.collapses options others := by
  unfold collapses
  split
  next draft line col name callee other block =>
    cases isOn : options.toProc with
    | false => rfl
    | true =>
      have heads : parents.head? = others.head? := by simpa [Options.seen, isOn] using same
      rw [shorthand_congr (.node .methodAddBlock line col [(name, callee), (other, block)]) block
        heads]
  next => rfl

theorem visitAs_congr (same : options.seen parents = options.seen others) (sort : FieldSort)
    (draft : Draft) (kind : Kind) :
    visitAs options parents sort draft kind = visitAs options others sort draft kind := by
  simp only [visitAs, visit, collapses_congr same]

mutual

/-- What is found wrong with a draft depends on what its layout looks at. -/
theorem inspect_congr (options : Options) (parents others : List Draft)
    (same : options.seen parents = options.seen others) (sort : FieldSort) (way : List Step) :
    (draft : Draft) → draft.inspect options parents sort way = draft.inspect options others sort way
  | .absent | .truth _ | .number _ | .text _ => rfl
  | .list items => by
      cases sort with
      | list | optionalList => exact inspectItems_congr options parents others same way 0 items
      | _ => rfl
  | .node kind line col fields => by
      have whole := inspectFields_congr options (.node kind line col fields :: parents)
        (.node kind line col fields :: others) rfl kind.schema fields
      have callee := inspectCallee_congr options (.node kind line col fields :: parents)
        (.node kind line col fields :: others) fields
      simp only [inspect, visitAs_congr same, whole, callee]
termination_by structural draft => draft

theorem inspectCallee_congr (options : Options) (parents others : List Draft) :
    (fields : List (String × Draft)) →
      inspectCallee options parents fields = inspectCallee options others fields
  | (_, .node kind line col fields) :: _ =>
      inspectFields_congr options (.node kind line col fields :: parents)
        (.node kind line col fields :: others) rfl (calleeSchema kind) fields
  | [] | (_, .absent) :: _ | (_, .truth _) :: _ | (_, .number _) :: _ | (_, .text _) :: _
  | (_, .list _) :: _ => rfl
termination_by structural fields => fields

theorem inspectFields_congr (options : Options) (parents others : List Draft)
    (same : options.seen parents = options.seen others) (schema : List (String × FieldSort)) :
    (fields : List (String × Draft)) →
      inspectFields options parents schema fields = inspectFields options others schema fields
  | [] => by cases schema <;> rfl
  | (_, content) :: rest => by
      cases schema with
      | nil => rfl
      | cons entry schema =>
        simp only [inspectFields, inspect_congr options parents others same entry.2 _ content,
          inspectFields_congr options parents others same schema rest]
termination_by structural fields => fields

theorem inspectItems_congr (options : Options) (parents others : List Draft)
    (same : options.seen parents = options.seen others) (way : List Step) (index : Nat) :
    (items : List Draft) →
      inspectItems options parents way index items = inspectItems options others way index items
  | [] => rfl
  | item :: rest => by
      simp only [inspectItems, inspect_congr options parents others same .node _ item,
        inspectItems_congr options parents others same way (index + 1) rest]
termination_by structural items => items

end

theorem layout_congr_seen (same : options.seen parents = options.seen others) (draft : Draft) :
    draft.layout options parents = draft.layout options others := by
  refine Node.layout_congr_seen ?_ draft.settle
  rw [Options.seen_map, Options.seen_map, same]

end Draft

/-! ## Cursors -/

namespace Cursor

/-- Two cursors that stand on the same node, with the same for a layout to look at. -/
structure Alike (options : Options) (one other : Cursor) : Prop where
  focus : one.focus = other.focus
  seen : options.seen one.parents = options.seen other.parents

variable {options : Options} {one other : Cursor}

theorem Alike.down (alike : Alike options one other) (node : Draft) :
    Alike options (one.down node) (other.down node) where
  focus := rfl
  seen := by simp [Cursor.down, Options.seen, alike.focus]

/-- A walk from cursors that are alike leads to the same fault or to cursors that are alike. -/
theorem walk_bind_congr {visit : Cursor → Except Fault α}
    (respects : ∀ one other, Alike options one other → visit one = visit other)
    (alike : Alike options one other) (way : List Step) (item : Item) (steps : List Step) :
    walk way one item steps >>= visit = walk way other item steps >>= visit := by
  induction steps generalizing one other item with
  | nil =>
    unfold walk
    split
    · exact respects one other alike
    · rfl
  | cons step rest ih =>
    unfold walk
    cases item.step step with
    | error fault => rfl
    | ok next =>
      cases next with
      | content value =>
        cases value with
        | node kind line col fields => exact ih (alike.down (.node kind line col fields)) _
        | _ => exact ih alike _
      | _ => exact ih alike _

/-- Cursors that are alike give the same document or the same fault. -/
theorem layoutAt_congr (alike : Alike options one other) (way : List Step) :
    one.layoutAt options way = other.layoutAt options way := by
  have visited (one other : Cursor) (alike : Alike options one other) :
      (do (one.inspect options).verdict; return one.layout options : Except Fault Doc) =
        (do (other.inspect options).verdict; return other.layout options) := by
    rw [inspect, inspect, layout, layout, alike.focus,
      Draft.inspect_congr options _ _ alike.seen, Draft.layout_congr_seen alike.seen]
  unfold layoutAt enter
  rw [alike.focus]
  exact walk_bind_congr visited alike way _ way

/--
A cursor gives the same document or the same fault whatever lies above the node right above it, and
without collapsing also whatever that node is.  A tree is arranged node by node: the block of a call
is replaced as the call and the node that holds it ask for, and every other document that counts is
that of a node right below its holder.
-/
theorem layout_looks_at_parent (options : Options) (way : List Step) :
    (∀ focus parent above others,
      layoutAt options ⟨focus, parent :: above⟩ way =
        layoutAt options ⟨focus, parent :: others⟩ way) ∧
    (∀ focus parents others,
      layoutAt { options with toProc := false } ⟨focus, parents⟩ way =
        layoutAt { options with toProc := false } ⟨focus, others⟩ way) ∧
    ∀ (tree : Node) (parents : List Node) (below : Node → Node → Doc),
      (∀ holder, ∀ child ∈ holder.children, below holder child = child.layout options [holder]) →
        tree.layout options parents =
          tree.arrange (tree.replacement? options parents.head?) below := by
  refine ⟨fun focus parent above others => layoutAt_congr ?_ way,
    fun focus parents others => layoutAt_congr ?_ way,
    fun tree parents _ told => tree.layout_eq_arrange parents told⟩
  · exact ⟨rfl, rfl⟩
  · exact ⟨rfl, rfl⟩

/-- The block of a call in the value of an option `if:` stays, whatever holds the option. -/
theorem layout_looks_at_option :
    ∃ call option : Node, call ∈ option.children ∧
      call.replacement? { toProc := true } none = some "&:open" ∧
      call.replacement? { toProc := true } (some option) = none ∧
      call.layout { toProc := true } [option, .hash .start [option]] =
        call.arrange none fun holder child => child.layout { toProc := true } [holder] := by
  let call : Node := .methodAddBlock .start (.fcall .start (.name .ident .start "all") none)
    (.sending .start "open")
  let option : Node := .assoc .start (.name .label .start "if:") call
  refine ⟨call, option, ?_, by decide, by decide, ?_⟩
  · simp [option, Node.children, Node.fields, Field.toList]
  · exact (layout_looks_at_parent { toProc := true } []).2.2 call [option, .hash .start [option]] _
      fun _ _ _ => rfl

end Cursor

end RubyFormat
