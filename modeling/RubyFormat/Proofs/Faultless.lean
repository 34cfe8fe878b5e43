import RubyFormat.Format
import RubyFormat.Proofs.Places
import RubyFormat.Proofs.Shape

/-!
# Trees of sources have no faults

The layout of a hand-written tree can meet a fault.  A tree that a source has is shaped, and a
shaped tree has none, whatever the options.
-/

namespace RubyFormat

namespace Draft

variable {options : Options} {parents : List Draft} {way : List Step}

/-- A tree that is laid out without a fault, wherever it stands. -/
def Faultless (options : Options) (node : Node) : Prop :=
  ∀ parents way, node.toDraft.inspect options parents .node way = .ok []

theorem inspect_optional_toDraft (node : Node) :
    node.toDraft.inspect options parents .optional way =
      node.toDraft.inspect options parents .node way := by
  rw [Node.toDraft_eq]
  rfl

theorem Faultless.inspect_rest {node : Node} (faultless : Faultless options node) :
    node.toDraft.inspect options parents .rest way = .ok [] := by
  have here := faultless parents way
  rw [Node.toDraft_eq] at here ⊢
  simp only [inspect, visitAs] at here ⊢
  split
  · exact here
  · rfl

theorem Faultless.inspect_parenthesised {node : Node} (faultless : Faultless options node)
    (isParen : node.kind = .argParen) :
    node.toDraft.inspect options parents .parenthesised way = .ok [] := by
  have here := faultless parents way
  rw [Node.toDraft_eq] at here ⊢
  simp only [inspect, visitAs, isParen, if_true] at here ⊢
  exact here

theorem inspectItems_toDraft {nodes : List Node} {index : Nat}
    (faultless : ∀ node ∈ nodes, Faultless options node) :
    inspectItems options parents way index (nodes.map Node.toDraft) = .ok [] := by
  induction nodes generalizing index with
  | nil => rfl
  | cons node rest ih =>
      have first := faultless node List.mem_cons_self parents (way ++ [.index index])
      have others := @ih (index + 1) fun node mem => faultless node (List.mem_cons_of_mem _ mem)
      simp only [List.map_cons, inspectItems, first, others]
      rfl

/-- A field that fits has no fault if the nodes in it have none. -/
theorem inspect_field {sort : FieldSort} {field : Field Node} (fits : Field.Fits sort field)
    (faultless : ∀ child ∈ field.toList, Faultless options child) :
    (field.map Node.toDraft).toDraft.inspect options parents sort way = .ok [] := by
  cases fits with
  | text value => rfl
  | operator value => rfl
  | node value => exact faultless value List.mem_cons_self parents way
  | optional value =>
      cases value with
      | none => rfl
      | some node =>
          exact (inspect_optional_toDraft node).trans (faultless node List.mem_cons_self parents way)
  | rest value =>
      cases value with
      | none => rfl
      | some node => exact (faultless node List.mem_cons_self).inspect_rest
  | list value => exact inspectItems_toDraft faultless
  | optionalList value =>
      cases value with
      | none => rfl
      | some nodes => exact inspectItems_toDraft faultless

theorem inspectFields_toDraft {schema : List (String × FieldSort)} {fields : List (String × Field Node)}
    (fit : List.Forall₂ Field.Fits (schema.map (·.2)) (fields.map (·.2)))
    (faultless : ∀ field ∈ fields, ∀ child ∈ field.2.toList, Faultless options child) :
    inspectFields options parents schema
      (fields.map fun field => (field.1, (field.2.map Node.toDraft).toDraft)) = .ok [] := by
  induction schema generalizing fields with
  | nil =>
    cases fields <;> rfl
  | cons entry schema ih =>
      cases fields with
      | nil => rfl
      | cons field rest =>
          obtain ⟨fits, fit⟩ := List.forall₂_cons.1 fit
          have first := @inspect_field options parents [.field entry.1] _ _ fits
            (faultless field List.mem_cons_self)
          have others := ih fit fun field mem => faultless field (List.mem_cons_of_mem _ mem)
          simp only [List.map_cons, inspectFields, first, others]
          rfl

/-! ## Blocks -/

theorem otherParams_params (pos : Pos) (required optional post keywords : List Node)
    (rest keywordRest block : Option Node) :
    ∃ others, (Node.params pos required optional rest post keywords keywordRest block).toDraft.otherParams =
      .ok others := by
  rw [Node.toDraft_eq]
  exact ⟨_, rfl⟩

theorem soleName_ok {params : Node} (shaped : params.wellShaped = true)
    (isParams : params.isOfKind .params = true) :
    ∃ name?, params.toDraft.soleName = .ok name? := by
  cases params with
  | params pos required optional rest post keywords keywordRest block =>
      have listed : (Node.params pos required optional rest post keywords keywordRest
          block).toDraft.get "required" = .ok (.list (required.map Node.toDraft)) :=
        get_toDraft _ _
      obtain ⟨others, found⟩ := otherParams_params pos required optional post keywords
        rest keywordRest block
      simp only [soleName, listed, found, counted, items?, bind, Except.bind]
      obtain _ | ⟨param, _ | ⟨second, more⟩⟩ := required
      · exact ⟨none, rfl⟩
      · have isName : param.isOfKind (.name .ident) = true := by
          have here := (Node.wellShaped_iff.1 shaped).1
          simp only [Node.shaped, Bool.and_eq_true] at here
          simpa using here.1.1.1.1.1.1
        cases param with
        | name kind pos text =>
            have named : (Node.name kind pos text).toDraft.get "name" = .ok (.text text) :=
              get_toDraft _ _
            cases others with
            | nil => exact ⟨some (.text text), by simp [named]; rfl⟩
            | cons first more => exact ⟨none, rfl⟩
        | _ => cases isName
      · exact ⟨none, rfl⟩
  | _ => cases isParams

/-- A list of parameters of a source has a sole parameter with a name, or none. -/
theorem soleParam_ok {block : Node} (shaped : block.wellShaped = true)
    (isBlock : block.isBlock = true) : ∃ holder?, block.toDraft.soleParam = .ok holder? := by
  obtain ⟨params, held, kinds⟩ : ∃ params : Option Node,
      block.toDraft.get "params" = .ok ((params.map Node.toDraft).getD .absent) ∧
        ∀ holder ∈ params, holder.isOfKind .blockVar = true ∧ holder.wellShaped = true := by
    obtain ⟨here, below⟩ := Node.wellShaped_iff.1 shaped
    cases block with
    | braceBlock pos params body =>
        exact ⟨params, get_toDraft _ _, fun holder mem =>
          ⟨(Option.all_eq_true _ _).1 (Bool.and_eq_true_iff.1 here).1 holder mem,
            below holder (by simp [Node.children, Node.fields, Field.toList, Option.mem_def.1 mem])⟩⟩
    | doBlock pos params body =>
        exact ⟨params, get_toDraft _ _, fun holder mem =>
          ⟨(Option.all_eq_true _ _).1 (Bool.and_eq_true_iff.1 here).1 holder mem,
            below holder (by simp [Node.children, Node.fields, Field.toList, Option.mem_def.1 mem])⟩⟩
    | _ => cases isBlock
  unfold soleParam
  rw [held]
  cases params with
  | none => exact ⟨none, rfl⟩
  | some holder =>
      obtain ⟨isBars, shaped⟩ := kinds holder rfl
      obtain ⟨here, below⟩ := Node.wellShaped_iff.1 shaped
      cases holder with
      | blockVar pos params =>
          have inner : (Node.blockVar pos params).toDraft.get "params" =
              .ok ((params.map Node.toDraft).getD .absent) := get_toDraft _ _
          simp only [Option.map_some, Option.getD_some, bind, Except.bind, isAbsent_toDraft, inner,
            Bool.false_eq_true, if_false]
          cases params with
          | none => exact ⟨none, rfl⟩
          | some params =>
              simp only [Option.map_some, Option.getD_some, isAbsent_toDraft, Bool.false_eq_true,
                if_false]
              exact soleName_ok (below params (by simp [Node.children, Node.fields, Field.toList]))
                here
      | _ => cases isBars

theorem blockStmts_ok {block : Node} (shaped : block.wellShaped = true)
    (isBlock : block.isBlock = true) :
    ∃ stmts : List Node, block.toDraft.blockStmts = .ok (stmts.map Node.toDraft) := by
  cases block with
  | braceBlock pos params body => exact ⟨body, by rw [Node.toDraft_eq]; rfl⟩
  | doBlock pos params body =>
      have isBody := (Bool.and_eq_true_iff.1 (Node.wellShaped_iff.1 shaped).1).2
      cases body with
      | bodyStmt bodyPos stmts handler elseBody ensure =>
          exact ⟨_, blockStmts_bodyStmt pos bodyPos params handler stmts elseBody ensure⟩
      | _ => cases isBody
  | _ => cases isBlock

theorem messageTo_ok (holder : Draft) (stmt : Node) :
    ∃ message?, messageTo holder stmt.toDraft = .ok message? := by
  rw [Node.toDraft_eq]
  cases stmt with
  | call pos receiver operator message args comments =>
      simp only [Node.kind, Node.fields, List.map_cons, List.map_nil, Field.map, Field.toDraft,
        messageTo]
      split
      · cases comments with
        | nil =>
            simp only [List.map_nil, counted, items?, bind, Except.bind, List.isEmpty_nil,
              Bool.not_true, Bool.false_eq_true, if_false]
            split <;> exact ⟨_, rfl⟩
        | cons first rest => exact ⟨none, rfl⟩
      · cases comments <;> exact ⟨none, rfl⟩
  | _ => exact ⟨none, rfl⟩

theorem soleMessage_ok {block : Node} (shaped : block.wellShaped = true)
    (isBlock : block.isBlock = true) : ∃ message?, block.toDraft.soleMessage = .ok message? := by
  obtain ⟨holder?, held⟩ := soleParam_ok shaped isBlock
  obtain ⟨stmts, listed⟩ := blockStmts_ok shaped isBlock
  simp only [soleMessage, held, listed, bind, Except.bind]
  cases holder? with
  | none => exact ⟨none, rfl⟩
  | some holder =>
      obtain _ | ⟨stmt, _ | ⟨second, more⟩⟩ := stmts
      · exact ⟨none, rfl⟩
      · exact messageTo_ok holder stmt
      · exact ⟨none, rfl⟩

/-- Whether a shorthand replaces the block of a shaped node can be told. -/
theorem collapses_ok (options : Options) (parents : List Draft) {node : Node}
    (shaped : node.wellShaped = true) :
    ∃ replaced, collapses options parents node.toDraft = .ok replaced ∧
      (replaced = true → node.kind = .methodAddBlock) := by
  have others (other : node.kind ≠ .methodAddBlock) :
      collapses options parents node.toDraft = .ok false := by
    rw [Node.toDraft_eq]
    cases node with
    | methodAddBlock => exact absurd rfl other
    | _ => rfl
  by_cases isCall : node.kind = .methodAddBlock
  · cases node with
    | methodAddBlock pos callee block =>
        obtain ⟨here, below⟩ := Node.wellShaped_iff.1 shaped
        have isBlock : block.isBlock = true := (Bool.and_eq_true_iff.1 here).2
        obtain ⟨message?, sent⟩ := soleMessage_ok
          (below block (by simp [Node.children, Node.fields, Field.toList])) isBlock
        suffices told : ∃ replaced, collapses options parents
            (Node.methodAddBlock pos callee block).toDraft = .ok replaced by
          obtain ⟨replaced, told⟩ := told
          exact ⟨replaced, told, fun _ => rfl⟩
        rw [Node.toDraft_eq]
        simp only [Node.kind, Node.fields, List.map_cons, List.map_nil, Field.map, Field.toDraft,
          collapses]
        split
        · simp only [shorthand, sent, bind, Except.bind]
          cases message? with
          | none => exact ⟨false, rfl⟩
          | some message =>
              obtain ⟨word, rfl, -⟩ := soleMessage?_of_toDraft sent
              simp only
              generalize (Option.map isConditionalOption _).getD false = inOption
              cases inOption <;> exact ⟨_, rfl⟩
        · exact ⟨false, rfl⟩
    | _ => cases isCall
  · exact ⟨false, others isCall, (absurd · Bool.false_ne_true)⟩

theorem inspect_paren {args : Option Node} (isParen : args.all (Node.isOfKind .argParen) = true)
    (faultless : ∀ child ∈ args, Faultless options child) :
    ((args.map Node.toDraft).getD .absent).inspect options parents .parenthesised way = .ok [] := by
  cases args with
  | none => rfl
  | some child =>
      have kind : child.kind = .argParen := eq_of_beq ((Option.all_eq_true _ _).1 isParen child rfl)
      exact (faultless child rfl).inspect_parenthesised kind

/-- A call to which its block becomes one more argument has no fault. -/
theorem inspectCallee_toDraft {callee : Node} {rest : List (String × Draft)}
    (shaped : callee.wellShaped = true) (isCall : callee.isBlockCall = true)
    (faultless : ∀ child ∈ callee.children, Faultless options child) :
    inspectCallee options parents (("call", callee.toDraft) :: rest) = .ok [] := by
  have here := (Node.wellShaped_iff.1 shaped).1
  rw [Node.toDraft_eq]
  cases callee with
  | call pos receiver operator message args comments =>
      simp only [Node.shaped, Bool.and_eq_true] at here
      simp only [Node.children, Node.fields, Field.toList, List.flatMap_cons,
        List.mem_append] at faultless
      have paren (parents way) := @inspect_paren options parents way args here.1.1.2 fun child mem =>
        faultless child (by simp [Option.mem_def.1 mem])
      have sent (parents way) := faultless receiver (by simp) parents way
      have named (parents way) := faultless message (by simp) parents way
      simp only [Node.kind, Node.fields, List.map_cons, Field.map, Field.toDraft, inspectCallee,
        calleeSchema, inspectFields, sent, named, paren]
      rfl
  | fcall pos message args =>
      simp only [Node.shaped, Bool.and_eq_true] at here
      simp only [Node.children, Node.fields, Field.toList, List.flatMap_cons,
        List.mem_append] at faultless
      have paren (parents way) := @inspect_paren options parents way args here.2 fun child mem =>
        faultless child (by simp [Option.mem_def.1 mem])
      have named (parents way) := faultless message (by simp) parents way
      simp only [Node.kind, Node.fields, List.map_cons, Field.map, Field.toDraft, inspectCallee,
        calleeSchema, inspectFields, named, paren]
      rfl
  | command pos message args =>
      refine inspectFields_toDraft (Node.fields_fit (.command pos message args))
        fun field mem child inside => ?_
      exact faultless child (List.mem_flatMap.2 ⟨field, mem, inside⟩)
  | _ => cases isCall

/-- A shaped tree has no fault. -/
theorem faultless_of_wellShaped (options : Options) {node : Node} (shaped : node.wellShaped = true) :
    Faultless options node := by
  suffices both : Faultless options node ∧ ∀ child ∈ node.children, Faultless options child from both.1
  induction node using Node.induction_children with
  | step node ih =>
    obtain ⟨here, below⟩ := Node.wellShaped_iff.1 shaped
    have faultless (child : Node) (mem : child ∈ node.children) : Faultless options child :=
      (ih child mem (below child mem)).1
    refine ⟨fun parents way => ?_, faultless⟩
    obtain ⟨replaced, told, isCall⟩ := collapses_ok options parents shaped
    have notBare : node.kind ≠ .bare := by
      intro bare
      cases node with
      | bare pos => cases here
      | _ => cases bare
    have visited : node.toDraft.inspect options parents .node way =
        if replaced then
          inspectCallee options (node.toDraft :: parents)
            (node.fields.map fun field => (field.1, (field.2.map Node.toDraft).toDraft))
        else
          inspectFields options (node.toDraft :: parents) node.kind.schema
            (node.fields.map fun field => (field.1, (field.2.map Node.toDraft).toDraft)) := by
      rw [Node.toDraft_eq] at told ⊢
      simp only [inspect, visitAs, visit, notBare, if_false, told, bind, Except.bind]
      cases replaced <;> rfl
    rw [visited]
    split
    next holds =>
      cases node with
      | methodAddBlock pos callee block =>
          have inside : callee ∈ (Node.methodAddBlock pos callee block).children := by
            simp [Node.children, Node.fields, Field.toList]
          exact inspectCallee_toDraft (below callee inside) (Bool.and_eq_true_iff.1 here).1
            (ih callee inside (below callee inside)).2
      | _ => cases isCall holds
    next =>
      refine inspectFields_toDraft (Node.fields_fit node) fun field mem child inside => ?_
      exact faultless child (List.mem_flatMap.2 ⟨field, mem, inside⟩)

end Draft

/-- The document of a shaped tree is its layout. -/
theorem Node.toDoc_of_wellShaped (options : Options) {tree : Node} (shaped : tree.wellShaped = true) :
    tree.toDoc options = .ok (tree.layout options []) := by
  rw [toDoc, Draft.faultless_of_wellShaped options shaped [] []]
  rfl

/-- The tree of a source is read from its tokens. -/
theorem Node.tokens_of_source {source : String} {tree : Node}
    (parsed : Node.ofSource source = .ok tree) :
    ∃ tokens, Tokens.ofSource source = .ok tokens ∧ tokens.parse = .ok tree := by
  unfold ofSource at parsed
  split at parsed
  · cases parsed
  next tokens lexed =>
    split at parsed
    · cases parsed
    next ran =>
      cases parsed
      exact ⟨tokens, lexed, ran⟩

/-- A test of what a computation gives is one that it has succeeded, too. -/
theorem exists_of_any {ε α : Type} {result : Except ε α} {test : α → Bool}
    (holds : result.toOption.any test = true) : ∃ value, result = .ok value ∧ test value = true := by
  cases result with
  | error error => cases holds
  | ok value => exact ⟨value, rfl, holds⟩

/-- A test of the tree of a source. -/
theorem Node.exists_of_source {source : String} {test : Node → Bool}
    (holds : (Node.ofSource source).toOption.any test = true) :
    ∃ tree, Node.ofSource source = .ok tree ∧ test tree = true :=
  exists_of_any holds

/-- The tree of a source is shaped. -/
theorem Node.wellShaped_of_source {source : String} {tree : Node}
    (parsed : Node.ofSource source = .ok tree) : tree.wellShaped = true := by
  obtain ⟨tokens, -, ran⟩ := tokens_of_source parsed
  obtain ⟨s, reads⟩ := Reads.of_parse ran
  exact (reads.shaped trivial).node

/-- A source that is not to be left alone is formatted by writing the layout of its tree. -/
theorem format_eq (options : Options) (source : String)
    (formats : (Pragmas.ofSource source).skip = false) {tree : Node}
    (parsed : Node.ofSource source = .ok tree) :
    format options source =
      ((tree.layout ((Pragmas.ofSource source).apply options) []).write
        options.indentWidth).mapError .width := by
  have shaped := Node.wellShaped_of_source parsed
  simp [format, formats, Doc.ofSource, parsed, Node.toDoc_of_wellShaped _ shaped, Except.mapError]

/-- Whether two sources have trees that are the same up to places. -/
def sameTree (left right : String) : Bool :=
  match Node.ofSource left, Node.ofSource right with
  | .ok tree, .ok other => tree.same other
  | _, _ => false

theorem sameTree_iff {left right : String} :
    sameTree left right = true ↔
      ∃ tree other, Node.ofSource left = .ok tree ∧ Node.ofSource right = .ok other ∧
        tree.same other = true := by
  unfold sameTree
  split
  next tree other parsed parsedToo => simp [parsed, parsedToo]
  next none =>
    refine ⟨nofun, fun ⟨tree, other, parsed, parsedToo, _⟩ => ?_⟩
    exact (none tree other parsed parsedToo).elim

end RubyFormat
